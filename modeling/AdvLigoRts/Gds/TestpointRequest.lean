import AdvLigoRts.Gds.TestpointTable

/-!
# What the loops of a request and a clear do

The second loop of a request places its test points one after the other: `Staged` is what holds
when some of them are placed, and `Overfull` says at which one the loop stops, in terms of the
table before the call.
-/

namespace AdvLigoRts.Gds

open PvLib.SlotTable

variable {tpNode : TpNode} {indx indx' indx₀ : Indx} {r : RequestTp} {p : ℕ × ℕ}
variable {f : Fin tpMaxInterface} {j : Fin tpMaxIndex} {tp i : ℕ} {c : ℤ} {l : List ℕ}

namespace TpNode

theorem interfaceOf_some (h : tpNode.interfaceOf tp = some f) : tpInterface tp = some f := by
  unfold interfaceOf at h
  split at h
  · cases h
  · exact h

theorem interfaceOf_lt (h : tpNode.interfaceOf tp = some f) : tp < tpHighestIndex := by
  unfold interfaceOf at h
  split at h
  case isTrue => cases h
  case isFalse hno => omega

/-! ## The first loop -/

/-- The first loop meets an empty slot before the test point. -/
def SeesFree (tpNode : TpNode) (indx : Indx) (tp : ℕ) : Prop :=
  ∃ f, tpNode.interfaceOf tp = some f ∧
    ∃ k, (indx f k).id = 0 ∧ ∀ i ≤ k, (indx f i).id ≠ tp

instance (tpNode : TpNode) (indx : Indx) (tp : ℕ) : Decidable (tpNode.SeesFree indx tp) :=
  inferInstanceAs (Decidable (∃ f, tpNode.interfaceOf tp = some f ∧
    ∃ k, (indx f k).id = 0 ∧ ∀ i ≤ k, (indx f i).id ≠ tp))

theorem SeesFree.congr (h : SameUse indx indx') (tp : ℕ) :
    tpNode.SeesFree indx' tp ↔ tpNode.SeesFree indx tp := by
  have hid : ∀ f k, (indx' f k).id = (indx f k).id := fun f k => (h f k).1
  simp only [SeesFree, hid]

theorem sameUse_writeUser (u : TpUsage) :
    SameUse indx (indx.set f j ((indx f j).writeUser u)) := by
  intro f' j'
  rw [Indx.set_apply]
  split
  case isTrue heq =>
    obtain ⟨rfl, rfl⟩ := heq
    exact ⟨rfl, rfl, TpEntry.live_writeUser⟩
  case isFalse => exact ⟨rfl, rfl, rfl⟩

/-- The first loop writes behind the users in use of test points of the list. -/
theorem projectTp_spec (tpNode : TpNode) (r : RequestTp) (s : Indx × ℕ) (p : ℕ × ℕ) :
    SameUse s.1 (tpNode.projectTp r s p).1 ∧
      (∀ f j, (tpNode.projectTp r s p).1 f j ≠ s.1 f j → (s.1 f j).id = p.1) ∧
      (tpNode.projectTp r s p).2 = s.2 + if tpNode.SeesFree s.1 p.1 then 1 else 0 := by
  unfold projectTp
  cases hf : tpNode.interfaceOf p.1 with
  | none =>
    have hno : ¬tpNode.SeesFree s.1 p.1 := by
      rintro ⟨f, hf', -⟩
      rw [hf] at hf'
      cases hf'
    rw [if_neg hno]
    exact ⟨SameUse.refl _, fun _ _ h => absurd rfl h, rfl⟩
  | some f =>
    have hcount : (if (search (s.1 f) p.1).free.isSome then s.2 + 1 else s.2) =
        s.2 + if tpNode.SeesFree s.1 p.1 then 1 else 0 := by
      have hiff : (search (s.1 f) p.1).free.isSome ↔ tpNode.SeesFree s.1 p.1 := by
        rw [search, scan_free_isSome]
        constructor
        · exact fun h => ⟨f, hf, h⟩
        · rintro ⟨f', hf', h⟩
          rw [hf] at hf'
          cases hf'
          exact h
      by_cases hsee : tpNode.SeesFree s.1 p.1
      · rw [if_pos hsee, if_pos (hiff.mpr hsee)]
      · rw [if_neg hsee, if_neg (mt hiff.mp hsee), Nat.add_zero]
    dsimp only
    cases hhit : (search (s.1 f) p.1).hit with
    | none => exact ⟨SameUse.refl _, fun _ _ h => absurd rfl h, hcount⟩
    | some j =>
      dsimp only
      split
      case isFalse => exact ⟨SameUse.refl _, fun _ _ h => absurd rfl h, hcount⟩
      case isTrue =>
        refine ⟨sameUse_writeUser _, fun f' j' hne => ?_, hcount⟩
        dsimp only at hne
        rw [Indx.set_apply] at hne
        split at hne
        case isTrue heq =>
          obtain ⟨rfl, rfl⟩ := heq
          rw [search, scan_hit] at hhit
          exact lookup_some hhit
        case isFalse => exact absurd rfl hne

/-- How many entries the first loop expects for a list. -/
def projected (tpNode : TpNode) (indx : Indx) (l : List ℕ) : ℕ := l.countP (tpNode.SeesFree indx)

theorem foldl_projectTp (tpNode : TpNode) (r : RequestTp) (ps : List (ℕ × ℕ)) (s : Indx × ℕ) :
    SameUse s.1 (ps.foldl (tpNode.projectTp r) s).1 ∧
      (∀ f j, (ps.foldl (tpNode.projectTp r) s).1 f j ≠ s.1 f j →
        (s.1 f j).id ∈ ps.map Prod.fst) ∧
      (ps.foldl (tpNode.projectTp r) s).2 = s.2 + tpNode.projected s.1 (ps.map Prod.fst) := by
  induction ps generalizing s with
  | nil => exact ⟨SameUse.refl _, fun _ _ h => absurd rfl h, rfl⟩
  | cons p ps ih =>
    obtain ⟨huse, hchanged, hcount⟩ := projectTp_spec tpNode r s p
    obtain ⟨huse', hchanged', hcount'⟩ := ih (tpNode.projectTp r s p)
    rw [List.foldl_cons, List.map_cons]
    refine ⟨huse.trans huse', fun f j hne => ?_, ?_⟩
    · by_cases h : (tpNode.projectTp r s p).1 f j = s.1 f j
      · rw [← h] at hne
        have hmem := hchanged' f j hne
        rw [(huse f j).1] at hmem
        exact List.mem_cons_of_mem _ hmem
      · rw [hchanged f j h]
        exact List.mem_cons_self
    · have hsame : tpNode.projected (tpNode.projectTp r s p).1 (ps.map Prod.fst) =
          tpNode.projected s.1 (ps.map Prod.fst) := by
        unfold projected
        simp only [SeesFree.congr huse]
      rw [hcount', hcount, hsame]
      simp only [projected, List.countP_cons, decide_eq_true_eq]
      omega

theorem project_spec (tpNode : TpNode) (r : RequestTp) (indx : Indx) :
    SameUse indx (tpNode.project r indx).1 ∧
      (∀ f j, (tpNode.project r indx).1 f j ≠ indx f j → (indx f j).id ∈ r.tp) ∧
      (tpNode.project r indx).2 = tpNode.projected indx r.tp := by
  have h := foldl_projectTp tpNode r r.tp.zipIdx (indx, 0)
  rw [List.zipIdx_map_fst, Nat.zero_add] at h
  exact h

theorem project_frame (tpNode : TpNode) (r : RequestTp) (indx : Indx) :
    Frame r.id r.tp indx (tpNode.project r indx).1 := by
  obtain ⟨huse, hchanged, -⟩ := project_spec tpNode r indx
  refine ⟨fun tp => by rw [huse.usersOf], fun f j hne => ?_⟩
  have hmem := hchanged f j hne
  exact ⟨Or.inr hmem, Or.inr ((huse f j).1 ▸ hmem)⟩

/-! ## The second loop -/

/-- The user that the second loop adds for a test point of the list. -/
def placedUser (r : RequestTp) (p : ℕ × ℕ) : TpUsage := ⟨r.taiNow 1 p.2, r.timeout, r.id⟩

theorem placeTp_user (ht : TableOk indx) (h : tpNode.placeTp r indx p = some indx') :
    (tpNode.interfaceOf p.1 = none ∧ indx' = indx) ∨
      (∃ f, tpNode.interfaceOf p.1 = some f) ∧
        Changes indx indx' p.1 (usersOf indx p.1 ++ [placedUser r p]) := by
  unfold placeTp at h
  split at h
  case h_1 hf =>
    cases h
    exact Or.inl ⟨hf, rfl⟩
  case h_2 f hf =>
    right
    refine ⟨⟨f, hf⟩, ?_⟩
    have hface := interfaceOf_some hf
    have hne : ∀ us : List TpUsage, ∀ u, us ++ [u] ≠ [] := by simp
    dsimp only at h
    split at h
    case h_1 j hhit =>
      rw [search, scan_hit] at hhit
      have hid : (indx f j).id = p.1 := lookup_some hhit
      have husers : usersOf indx p.1 = (indx f j).live :=
        hid ▸ ht.usersOf_slot (hid ▸ interface_ne_zero hface)
      split at h
      case isTrue hlt =>
        cases h
        refine ⟨⟨f, j, _, hface, rfl, Or.inl hid, ?_, ?_⟩, ?_⟩
        · rw [if_neg (hne _ _), TpEntry.id_addUser, hid]
        · rw [TpEntry.live_addUser, husers]
          rfl
        · rw [husers, List.length_append, TpEntry.length_live]
          exact hlt
      case isFalse => cases h
    case h_2 hmiss =>
      split at h
      case h_1 k hfree =>
        cases h
        rw [search, scan_hit, lookup_eq_none] at hmiss
        have husers := usersOf_absent hface hmiss
        have hk : (indx f k).id = 0 := scan_free_blank (fun j => (indx f j).id) hfree
        refine ⟨⟨f, k, _, hface, rfl, Or.inr ⟨hk, hmiss, hne _ _⟩, ?_, ?_⟩, ?_⟩
        · rw [if_neg (hne _ _)]
          rfl
        · rw [TpEntry.live_addUser, husers]
          rfl
        · rw [husers]
          exact (by decide : 1 ≤ tpMaxUser)
      case h_2 => cases h

theorem placeTp_some (ht : TableOk indx) (h : tpNode.placeTp r indx p = some indx') :
    (tpNode.interfaceOf p.1 = none ∧ indx' = indx) ∨
      (∃ f, tpNode.interfaceOf p.1 = some f) ∧
        ∃ u : TpUsage, u.clntId = r.id ∧ Changes indx indx' p.1 (usersOf indx p.1 ++ [u]) := by
  rcases placeTp_user ht h with hskip | ⟨hf, hchange⟩
  · exact Or.inl hskip
  · exact Or.inr ⟨hf, placedUser r p, rfl, hchange⟩

/-- The loop stops at a test point with too many users, or if there is no slot for it. -/
theorem placeTp_none (ht : TableOk indx) :
    tpNode.placeTp r indx p = none ↔
      ∃ f, tpNode.interfaceOf p.1 = some f ∧
        (tpMaxUser ≤ (usersOf indx p.1).length ∨
          usersOf indx p.1 = [] ∧ ∀ k, (indx f k).id ≠ 0) := by
  unfold placeTp
  cases hf : tpNode.interfaceOf p.1 with
  | none => simp
  | some f =>
    have hface := interfaceOf_some hf
    simp only [Option.some.injEq, exists_eq_left']
    cases hhit : (search (indx f) p.1).hit with
    | some j =>
      rw [search, scan_hit] at hhit
      have hid : (indx f j).id = p.1 := lookup_some hhit
      have hne : (indx f j).id ≠ 0 := hid ▸ interface_ne_zero hface
      have husers : usersOf indx p.1 = (indx f j).live := hid ▸ ht.usersOf_slot hne
      have hlive : (indx f j).live ≠ [] := mt ((ht f).entry j).live_eq_nil.mp hne
      simp [husers, TpEntry.length_live, hlive]
    | none =>
      rw [search, scan_hit] at hhit
      have husers := usersOf_absent hface (lookup_eq_none.mp hhit)
      cases hfree : (search (indx f) p.1).free with
      | some k =>
        have hk : (indx f k).id = 0 := scan_free_blank (fun j => (indx f j).id) hfree
        have hbound : ¬tpMaxUser ≤ 0 := by decide
        simp only [husers, List.length_nil, hbound, true_and, false_or, reduceCtorEq, false_iff]
        exact fun h => h k hk
      | none =>
        simp only [husers, true_and, true_iff]
        exact Or.inr (scan_free_none hhit hfree)

def newTps (tpNode : TpNode) (indx : Indx) (f : Fin tpMaxInterface) (l : List ℕ) : Finset ℕ :=
  l.toFinset.filter fun tp => tpNode.interfaceOf tp = some f ∧ usersOf indx tp = []

/-- Behind the test points `l`, there is no room for this one. -/
def Full (tpNode : TpNode) (indx : Indx) (l : List ℕ) (tp : ℕ) : Prop :=
  ∃ f, tpNode.interfaceOf tp = some f ∧
    (tpMaxUser ≤ (usersOf indx tp).length + l.count tp ∨
      usersOf indx tp = [] ∧ tp ∉ l ∧
        tpMaxIndex ≤ usedSlots indx f + (tpNode.newTps indx f l).card)

/-- There is no room for test point `i` of the list behind those before it. -/
def Overfull (tpNode : TpNode) (indx : Indx) (l : List ℕ) (i : ℕ) : Prop :=
  ∃ tp, l[i]? = some tp ∧ tpNode.Full indx (l.take i) tp

/-- The test points `l` of the request have been placed. -/
structure Staged (tpNode : TpNode) (r : RequestTp) (indx₀ : Indx) (l : List ℕ) (indx : Indx) :
    Prop where
  table : TableOk indx
  length : ∀ tp, (usersOf indx tp).length =
    (usersOf indx₀ tp).length + if (tpNode.interfaceOf tp).isSome then l.count tp else 0
  grows : Grows indx₀ indx
  frame : Frame r.id r.tp indx₀ indx

theorem Staged.nil (h : SameUse indx₀ indx) (hframe : Frame r.id r.tp indx₀ indx)
    (ht : TableOk indx₀) : Staged tpNode r indx₀ [] indx where
  table := h.tableOk ht
  length := fun tp => by simp [h.usersOf]
  grows := h.grows
  frame := hframe

/-- One more test point is placed. -/
theorem Staged.snoc (h : Staged tpNode r indx₀ l indx) (hmem : p.1 ∈ r.tp)
    (hplace : tpNode.placeTp r indx p = some indx') :
    Staged tpNode r indx₀ (l ++ [p.1]) indx' := by
  rcases placeTp_some h.table hplace with ⟨hf, rfl⟩ | ⟨⟨f, hf⟩, u, hu, hchange⟩
  · refine ⟨h.table, fun tp => ?_, h.grows, h.frame⟩
    rw [h.length]
    by_cases heq : tp = p.1
    · subst heq
      simp [hf]
    · simp [Ne.symm heq]
  · have hothers : (usersOf indx p.1 ++ [u]).filter (fun u => u.clntId ≠ r.id) =
        (usersOf indx p.1).filter fun u => u.clntId ≠ r.id := by
      simp [hu]
    refine ⟨hchange.tableOk h.table, fun tp => ?_, h.grows.trans (hchange.grows (by simp)),
      h.frame.trans (hchange.frame h.table hmem hothers)⟩
    rw [hchange.usersOf h.table]
    by_cases heq : tp = p.1
    · subst heq
      rw [Function.update_self, List.length_append, h.length]
      simp [hf, Nat.add_assoc]
    · rw [Function.update_of_ne heq, h.length]
      simp [Ne.symm heq]

theorem Staged.usersOf_eq_nil (h : Staged tpNode r indx₀ l indx)
    (hf : tpNode.interfaceOf tp = some f) :
    usersOf indx tp = [] ↔ usersOf indx₀ tp = [] ∧ tp ∉ l := by
  rw [← List.length_eq_zero_iff, h.length, hf, Option.isSome_some, if_pos rfl,
    Nat.add_eq_zero_iff, List.length_eq_zero_iff, List.count_eq_zero]

theorem Staged.usedSlots (h : Staged tpNode r indx₀ l indx) (ht : TableOk indx₀)
    (f : Fin tpMaxInterface) :
    Gds.usedSlots indx f = Gds.usedSlots indx₀ f + (tpNode.newTps indx₀ f l).card := by
  have hkeys : keys (fun j => (indx f j).id) 0 =
      keys (fun j => (indx₀ f j).id) 0 ∪ tpNode.newTps indx₀ f l := by
    ext tp
    rw [Finset.mem_union, h.table.mem_keys, ht.mem_keys, newTps, Finset.mem_filter,
      List.mem_toFinset]
    cases hf : tpNode.interfaceOf tp with
    | some g =>
      have hface := interfaceOf_some hf
      rw [hface, Ne, h.usersOf_eq_nil hf]
      tauto
    | none =>
      have hlen := h.length tp
      rw [hf, Option.isSome_none, if_neg Bool.false_ne_true, Nat.add_zero] at hlen
      have hnil : usersOf indx tp = [] ↔ usersOf indx₀ tp = [] := by
        rw [← List.length_eq_zero_iff, hlen, List.length_eq_zero_iff]
      rw [Ne, hnil]
      simp
  have hdisj : Disjoint (keys (fun j => (indx₀ f j).id) 0) (tpNode.newTps indx₀ f l) := by
    rw [Finset.disjoint_left]
    intro tp hold hnew
    rw [newTps, Finset.mem_filter] at hnew
    exact (ht.mem_keys.mp hold).2 hnew.2.2
  calc Gds.usedSlots indx f
      = (keys (fun j => (indx f j).id) 0).card := countP_used (h.table f).distinct
    _ = (keys (fun j => (indx₀ f j).id) 0).card + (tpNode.newTps indx₀ f l).card := by
        rw [hkeys, Finset.card_union_of_disjoint hdisj]
    _ = Gds.usedSlots indx₀ f + (tpNode.newTps indx₀ f l).card := by
        rw [← countP_used (ht f).distinct]
        rfl

/-- The loop stops if there is no room. -/
theorem Staged.placeTp_none (h : Staged tpNode r indx₀ l indx) (ht : TableOk indx₀) :
    tpNode.placeTp r indx p = none ↔ tpNode.Full indx₀ l p.1 := by
  rw [TpNode.placeTp_none h.table]
  refine exists_congr fun f => and_congr_right fun hf => ?_
  rw [h.usersOf_eq_nil hf, h.length, hf, Option.isSome_some, if_pos rfl, usedSlots_full,
    h.usedSlots ht, and_assoc]

/-- The second loop, behind the test points `l`. -/
theorem Staged.place (h : Staged tpNode r indx₀ l indx) (ht : TableOk indx₀)
    (hl : ∀ i < l.length, ¬tpNode.Overfull indx₀ r.tp i) {rest : List ℕ}
    (htp : r.tp = l ++ rest) :
    match tpNode.place r (rest.zipIdx l.length) indx with
    | (indx', none) => Staged tpNode r indx₀ r.tp indx' ∧ ∀ i, ¬tpNode.Overfull indx₀ r.tp i
    | (indx', some i) => Staged tpNode r indx₀ (r.tp.take i) indx' ∧
        tpNode.Overfull indx₀ r.tp i ∧ ∀ j < i, ¬tpNode.Overfull indx₀ r.tp j := by
  induction rest generalizing l indx with
  | nil =>
    rw [List.append_nil] at htp
    refine ⟨htp ▸ h, fun i => ?_⟩
    by_cases hi : i < l.length
    · exact hl i hi
    · rintro ⟨tp, htp', -⟩
      rw [htp, List.getElem?_eq_none (not_lt.mp hi)] at htp'
      cases htp'
  | cons tp rest ih =>
    have hget : r.tp[l.length]? = some tp := by simp [htp]
    have htake : r.tp.take l.length = l := by simp [htp]
    have hover : tpNode.Overfull indx₀ r.tp l.length ↔ tpNode.Full indx₀ l tp := by
      simp [Overfull, hget, htake]
    rw [List.zipIdx_cons, TpNode.place]
    cases hplace : tpNode.placeTp r indx (tp, l.length) with
    | none =>
      have hfull := (h.placeTp_none ht).mp hplace
      exact ⟨htake.symm ▸ h, hover.mpr hfull, hl⟩
    | some indx' =>
      have hroom : ¬tpNode.Full indx₀ l tp := by
        rw [← h.placeTp_none ht (r := r) (p := (tp, l.length)), hplace]
        exact Option.some_ne_none _
      have hnext := ih (h.snoc (by simp [htp]) hplace) (by
        intro i hi
        rw [List.length_append, List.length_singleton] at hi
        rcases Nat.lt_succ_iff_lt_or_eq.mp hi with hlt | heq
        · exact hl i hlt
        · exact heq ▸ mt hover.mp hroom) (by simp [htp])
      rw [List.length_append, List.length_singleton] at hnext
      exact hnext

end TpNode

end AdvLigoRts.Gds
