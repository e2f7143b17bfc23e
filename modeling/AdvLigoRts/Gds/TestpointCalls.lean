import AdvLigoRts.Gds.TestpointRequest

/-!
# What the calls do to the table

One spec for the loop of a clear, one for the clean-up of an interface, and `RequestEffect`,
which lists the tables that a request may leave.
-/

namespace AdvLigoRts.Gds

open PvLib.SlotTable TpNode

variable {tpNode : TpNode} {indx indx' indx₀ : Indx} {r : RequestTp}
variable {f : Fin tpMaxInterface} {j : Fin tpMaxIndex} {tp i : ℕ} {c : ℤ} {l : List ℕ}

/-! ## Clear -/

theorem filter_eraseIdx {α : Type*} {l : List α} {s : α → Bool} {k : ℕ} (hk : k < l.length)
    (h : s l[k] = false) : (l.eraseIdx k).filter s = l.filter s := by
  have hsplit : l = l.take k ++ l[k] :: l.drop (k + 1) := by
    rw [← List.drop_eq_getElem_cons hk, List.take_append_drop]
  rw [List.eraseIdx_eq_take_drop_succ, List.filter_append]
  conv_rhs => rw [hsplit]
  rw [List.filter_append, List.filter_cons_of_neg (by simp [h])]

/-- A user that a clear of the client takes away. -/
def clearable (id : ℤ) (u : TpUsage) : Bool := u.clntId = id ∧ u.timeout ≤ 0

theorem clearTp_first (ht : TableOk indx) (id : ℤ) (tp : ℕ) :
    clearTp id indx tp = indx ∧
        (usersOf indx tp).length ≤ (usersOf indx tp).findIdx (clearable id) ∨
      (usersOf indx tp).findIdx (clearable id) < (usersOf indx tp).length ∧
        Changes indx (clearTp id indx tp) tp
          ((usersOf indx tp).eraseIdx ((usersOf indx tp).findIdx (clearable id))) := by
  have hmiss : usersOf indx tp = [] →
      (usersOf indx tp).length ≤ (usersOf indx tp).findIdx (clearable id) := fun h => by simp [h]
  unfold clearTp
  cases hface : tpInterface tp with
  | none => exact Or.inl ⟨rfl, hmiss (usersOf_none hface)⟩
  | some f =>
    dsimp only
    cases hlook : lookup (fun j => (indx f j).id) tp with
    | none => exact Or.inl ⟨rfl, hmiss (usersOf_absent hface (lookup_eq_none.mp hlook))⟩
    | some j =>
      dsimp only
      have hid : (indx f j).id = tp := lookup_some hlook
      have htp := interface_ne_zero hface
      have husers : usersOf indx tp = (indx f j).live := hid ▸ ht.usersOf_slot (hid ▸ htp)
      have hbound := ((ht f).entry j).bound
      have hfirst : (indx f j).live.findIdx (fun u => u.clntId = id ∧ u.timeout ≤ 0) =
          (indx f j).live.findIdx (clearable id) := rfl
      rw [hfirst, husers, TpEntry.length_live]
      generalize (indx f j).live.findIdx (clearable id) = k
      split
      case isFalse hge => exact Or.inl ⟨rfl, not_lt.mp hge⟩
      case isTrue hlt =>
        right
        have hnil : (indx f j).inUse - 1 = 0 ↔ (indx f j).live.eraseIdx k = [] := by
          rw [← TpEntry.live_removeUser hlt, TpEntry.live_eq_nil, TpEntry.inUse_removeUser]
        refine ⟨hlt, ⟨f, j, _, hface, rfl, Or.inl hid, ?_, ?_⟩, ?_⟩
        · rw [TpEntry.id_removeUser, hid]
          exact if_congr hnil rfl rfl
        · exact TpEntry.live_removeUser hlt
        · rw [← TpEntry.live_removeUser hlt, TpEntry.length_live, TpEntry.inUse_removeUser]
          omega

/-- A clear of one test point takes at most one user of the client away. -/
theorem clearTp_spec (ht : TableOk indx) (id : ℤ) (tp : ℕ) :
    clearTp id indx tp = indx ∨ ∃ k, ∃ hk : k < (usersOf indx tp).length,
      ((usersOf indx tp).get ⟨k, hk⟩).clntId = id ∧
        Changes indx (clearTp id indx tp) tp ((usersOf indx tp).eraseIdx k) := by
  rcases clearTp_first ht id tp with ⟨heq, -⟩ | ⟨hk, hchange⟩
  · exact Or.inl heq
  · have hclient := List.findIdx_getElem (w := hk)
    simp only [clearable, decide_eq_true_eq] at hclient
    exact Or.inr ⟨_, hk, hclient.1, hchange⟩

structure Cleared (c : ℤ) (tps : List ℕ) (indx indx' : Indx) : Prop where
  table : TableOk indx'
  shrinks : Shrinks indx indx'
  frame : Frame c tps indx indx'

theorem Cleared.refl (ht : TableOk indx) : Cleared c l indx indx :=
  ⟨ht, Shrinks.refl _, Frame.refl ..⟩

theorem Cleared.trans {indx'' : Indx} (h : Cleared c l indx indx')
    (h' : Cleared c l indx' indx'') : Cleared c l indx indx'' :=
  ⟨h'.table, h.shrinks.trans h'.shrinks, h.frame.trans h'.frame⟩

theorem clearTp_cleared (ht : TableOk indx) (id : ℤ) (hmem : tp ∈ l) :
    Cleared id l indx (clearTp id indx tp) := by
  rcases clearTp_spec ht id tp with heq | ⟨k, hk, hid, hchange⟩
  · rw [heq]
    exact Cleared.refl ht
  · have hne : usersOf indx tp ≠ [] := List.ne_nil_of_length_pos (Nat.zero_lt_of_lt hk)
    refine ⟨hchange.tableOk ht, hchange.shrinks hne, hchange.frame ht hmem ?_⟩
    exact filter_eraseIdx hk (by simpa using hid)

theorem clearTps_cleared (ht : TableOk indx) (id : ℤ) (tps : List ℕ) (hsub : tps ⊆ l)
    (hall : tpClearAll ∉ tps) :
    (clearTps id tps indx).2 = false ∧ Cleared id l indx (clearTps id tps indx).1 := by
  induction tps generalizing indx with
  | nil => exact ⟨rfl, Cleared.refl ht⟩
  | cons tp tps ih =>
    rw [List.mem_cons, not_or] at hall
    rw [List.cons_subset] at hsub
    have hone := clearTp_cleared ht id hsub.1
    obtain ⟨hflag, hrest⟩ := ih hone.table hsub.2 hall.2
    rw [clearTps, if_neg (Ne.symm hall.1)]
    exact ⟨hflag, hone.trans hrest⟩

theorem clearTps_all (id : ℤ) (tps : List ℕ) (indx : Indx) (hall : tpClearAll ∈ tps) :
    clearTps id tps indx = (Indx.zero, true) := by
  induction tps generalizing indx with
  | nil => cases hall
  | cons tp tps ih =>
    unfold clearTps
    split
    case isTrue => rfl
    case isFalse hne =>
      rcases List.mem_cons.mp hall with heq | hmem
      · exact absurd heq.symm hne
      · exact ih _ hmem

/-! ## Clean-up -/

/-- What the clean-up may do to an entry. -/
structure Thinned (e e' : TpEntry) : Prop where
  id : e'.id = if e'.inUse = 0 then 0 else e.id
  inUse : e'.inUse ≤ e.inUse
  live : e'.live.Sublist e.live

theorem cleanupEntry_spec {t : ℤ} {e : TpEntry} (he : EntryOk f e) :
    Thinned e (cleanupEntry t e) := by
  unfold cleanupEntry
  split
  case isTrue h0 =>
    exact ⟨by simp [h0], le_rfl, List.Sublist.refl _⟩
  case isFalse h0 =>
    -- the loop removes users one after the other; the identifier goes with the last one
    have huse := he.used.mp h0
    generalize List.range e.inUse = ks
    suffices hgen : ∀ e', Thinned e e' → Thinned e (ks.foldl (fun e k =>
        if k < e.inUse ∧ expired t (e.users k) then e.removeUser k else e) e') by
      refine hgen e ⟨?_, le_rfl, List.Sublist.refl _⟩
      rw [if_neg (by omega)]
    induction ks with
    | nil => exact fun e' h => h
    | cons k ks ih =>
      intro e' h
      refine ih _ ?_
      dsimp only
      split
      case isFalse => exact h
      case isTrue hk =>
        constructor
        case id =>
          have hid : e'.id = e.id := by rw [h.id, if_neg (by omega)]
          rw [TpEntry.id_removeUser, TpEntry.inUse_removeUser, hid]
        case inUse =>
          rw [TpEntry.inUse_removeUser]
          exact (Nat.sub_le _ _).trans h.inUse
        case live =>
          rw [TpEntry.live_removeUser hk.1]
          exact (List.eraseIdx_sublist _ _).trans h.live

theorem Thinned.entryOk {e e' : TpEntry} (h : Thinned e e') (he : EntryOk f e) :
    EntryOk f e' := by
  have hid := h.id
  have hle := h.inUse
  have hused := he.used
  refine ⟨fun hne => ?_, hle.trans he.bound, ?_⟩
  · split at hid
    · exact absurd hid hne
    · rw [hid] at hne ⊢
      exact he.belongs hne
  · split at hid <;> omega

theorem cleanupInterface_spec (ht : TableOk indx) (t : ℤ) (f : Fin tpMaxInterface) :
    TableOk (cleanupInterface t indx f) ∧ Shrinks indx (cleanupInterface t indx f) := by
  have hthin := fun j => cleanupEntry_spec (t := t) ((ht f).entry j)
  have hid : ∀ j, (cleanupEntry t (indx f j)).id = (indx f j).id ∨
      (cleanupEntry t (indx f j)).id = 0 := by
    intro j
    have h := (hthin j).id
    split at h
    · exact Or.inr h
    · exact Or.inl h
  constructor
  · intro f'
    unfold cleanupInterface
    by_cases hff : f' = f
    · subst hff
      rw [Function.update_self]
      refine ⟨fun a b ha hab => ?_, fun j => (hthin j).entryOk ((ht f').entry j)⟩
      dsimp only at ha hab
      have ha' := (hid a).resolve_right ha
      have hb' := (hid b).resolve_right (hab ▸ ha)
      rw [ha', hb'] at hab
      rw [ha'] at ha
      exact (ht f').distinct a b ha hab
    · rw [Function.update_of_ne hff]
      exact ht f'
  · intro f' j
    unfold cleanupInterface
    by_cases hff : f' = f
    · subst hff
      rw [Function.update_self]
      exact hid j
    · rw [Function.update_of_ne hff]
      exact Or.inl rfl

/-! ## Request -/

/-- The request stops at test point `i`, and `cleartp_1_svc` meets `_TP_CLEAR_ALL` before it. -/
structure ClearsAllAt (tpNode : TpNode) (r : RequestTp) (indx : Indx) (i : ℕ) : Prop where
  node : tpNode.rejects r.id r.node = false
  size : tpNode.tooMany r indx = false
  relock : tpNode.relock
  malloc : r.malloc
  full : tpNode.Overfull indx r.tp i
  first : ∀ j < i, ¬tpNode.Overfull indx r.tp j
  clearAll : tpClearAll ∈ r.tp.take i

/-- The tables that a request may leave. -/
inductive RequestEffect (tpNode : TpNode) : RequestTp → Indx → Indx → Prop
  /-- The request is rejected, or waits for the mutex. -/
  | same {r : RequestTp} {indx : Indx} : RequestEffect tpNode r indx indx
  /-- The DAQ block would be too large. -/
  | refused {r : RequestTp} {indx : Indx} (h : tpNode.tooMany r indx = true) :
      RequestEffect tpNode r indx (tpNode.project r indx).1
  | placed {r : RequestTp} {indx indx' : Indx} (hsize : tpNode.tooMany r indx = false)
      (h : Staged tpNode r indx r.tp indx') : RequestEffect tpNode r indx indx'
  /-- The second loop stops, and nothing is cleaned up. -/
  | left {r : RequestTp} {indx indx' : Indx} {i : ℕ} (hsize : tpNode.tooMany r indx = false)
      (h : Staged tpNode r indx (r.tp.take i) indx') : RequestEffect tpNode r indx indx'
  | cleared {r : RequestTp} {indx indx' : Indx} {i : ℕ}
      (hsize : tpNode.tooMany r indx = false)
      (h : Staged tpNode r indx (r.tp.take i) indx') (hall : tpClearAll ∉ r.tp.take (i + 1)) :
      RequestEffect tpNode r indx (clearTps r.id (r.tp.take (i + 1)) indx').1
  | clearedAll {r : RequestTp} {indx indx' : Indx} {i : ℕ} {taiNow : ℕ → ℕ → ℤ}
      (h : ClearsAllAt tpNode r indx i)
      (hpre : RequestEffect tpNode (tpNode.preselectRequest r.node taiNow) Indx.zero indx') :
      RequestEffect tpNode r indx indx'

theorem length_preselectRequest (tpNode : TpNode) (n : ℤ) (taiNow : ℕ → ℕ → ℤ) :
    (tpNode.preselectRequest n taiNow).tp.length ≤ tpMaxPreselect := by
  refine (List.length_filter_le _ _).trans ?_
  rw [List.length_map, List.length_finRange]

/-- In the empty table there is room for a short list. -/
theorem not_overfull_zero (h : l.length < tpMaxIndex) : ¬tpNode.Overfull Indx.zero l i := by
  rintro ⟨tp, -, f, -, hfull⟩
  have htake : (l.take i).length < tpMaxIndex := (List.length_take_le' i l).trans_lt h
  rw [usersOf_zero, List.length_nil, Nat.zero_add] at hfull
  rcases hfull with hcount | ⟨-, -, hcard⟩
  · have hle := List.count_le_length (a := tp) (l := l.take i)
    have hmax : tpMaxIndex ≤ tpMaxUser := by decide
    omega
  · have hused : usedSlots Indx.zero f = 0 := by
      rw [usedSlots, List.countP_eq_zero]
      simp [Indx.zero, TpEntry.zero]
    have hle : (tpNode.newTps Indx.zero f (l.take i)).card ≤ (l.take i).length :=
      (Finset.card_filter_le _ _).trans (List.toFinset_card_le _)
    omega

theorem mem_take_succ_clearAll (h : tpNode.Overfull indx l i) :
    tpClearAll ∈ l.take (i + 1) ↔ tpClearAll ∈ l.take i := by
  obtain ⟨tp, hget, f, hf, -⟩ := h
  have hne : tp ≠ tpClearAll := by
    have hlt := interfaceOf_lt hf
    have hmax : tpHighestIndex ≤ tpClearAll := by decide
    omega
  rw [List.take_add_one, hget, List.mem_append]
  simp [Ne.symm hne]

/-- The second loop from the table after the first. -/
theorem place_project (tpNode : TpNode) (r : RequestTp) (ht : TableOk indx) :
    match tpNode.place r r.tp.zipIdx (tpNode.project r indx).1 with
    | (indx', none) => Staged tpNode r indx r.tp indx' ∧ ∀ i, ¬tpNode.Overfull indx r.tp i
    | (indx', some i) => Staged tpNode r indx (r.tp.take i) indx' ∧
        tpNode.Overfull indx r.tp i ∧ ∀ j < i, ¬tpNode.Overfull indx r.tp j := by
  have hnil : Staged tpNode r indx [] (tpNode.project r indx).1 :=
    .nil (project_spec tpNode r indx).1 (project_frame tpNode r indx) ht
  exact hnil.place ht (fun i hi => absurd hi (Nat.not_lt_zero i)) rfl

/-- A request, if a clean-up that clears everything comes to an end. -/
theorem requesttp_effect_of (ht : TableOk indx) (fuel : ℕ) (held : Bool) (r : RequestTp)
    (hall : ∀ i taiNow, ClearsAllAt tpNode r indx i →
      ∃ o, tpNode.setPreselect (tpNode.requesttp fuel) true Indx.zero r.node taiNow = some o ∧
        RequestEffect tpNode (tpNode.preselectRequest r.node taiNow) Indx.zero o.indx) :
    ∃ o, tpNode.requesttp (fuel + 1) held indx r = some o ∧
      RequestEffect tpNode r indx o.indx := by
  unfold requesttp
  split
  case isTrue => exact ⟨_, rfl, .same⟩
  case isFalse hrej =>
    split
    case isTrue => exact ⟨_, rfl, .same⟩
    case isFalse =>
      split
      case isTrue hsize => exact ⟨_, rfl, .refused hsize⟩
      case isFalse hsize =>
        rw [Bool.not_eq_true] at hsize
        have hplace := place_project tpNode r ht
        dsimp only
        split
        case h_1 indx' hpl =>
          rw [hpl] at hplace
          exact ⟨_, rfl, .placed hsize hplace.1⟩
        case h_2 indx' i hpl =>
          rw [hpl] at hplace
          obtain ⟨hstaged, hover, hfirst⟩ := hplace
          split
          case isFalse => exact ⟨_, rfl, .left hsize hstaged⟩
          case isTrue hmalloc =>
            unfold cleartp
            rw [if_neg hrej]
            split
            case isTrue => exact ⟨_, rfl, .left hsize hstaged⟩
            case isFalse hlock =>
              have hrelock : tpNode.relock = true := by simpa using hlock
              by_cases hmem : tpClearAll ∈ r.tp.take (i + 1)
              · have hclears : ClearsAllAt tpNode r indx i :=
                  ⟨Bool.eq_false_iff.mpr hrej, hsize, hrelock, hmalloc, hover, hfirst,
                    (mem_take_succ_clearAll hover).mp hmem⟩
                obtain ⟨o, ho, heff⟩ := hall i (fun l => r.taiNow (l + 3)) hclears
                rw [clearTps_all _ _ _ hmem]
                simp only [if_true, ho, Option.map_some]
                exact ⟨_, rfl, .clearedAll hclears heff⟩
              · have hflag := (clearTps_cleared hstaged.table r.id (r.tp.take (i + 1))
                  (List.Subset.refl _) hmem).1
                simp only [hflag, Bool.false_eq_true, if_false, Option.map_some]
                exact ⟨_, rfl, .cleared hsize hstaged hmem⟩

/-- Every request comes to an end, or waits for ever. -/
theorem requesttp_effect (tpNode : TpNode) (ht : TableOk indx) (fuel : ℕ) (held : Bool)
    (r : RequestTp) :
    ∃ o, tpNode.requesttp (fuel + 2) held indx r = some o ∧
      RequestEffect tpNode r indx o.indx := by
  refine requesttp_effect_of ht (fuel + 1) held r fun i taiNow _ => ?_
  unfold setPreselect
  dsimp only
  split
  case isFalse => exact ⟨_, rfl, .same⟩
  case isTrue =>
    -- in the empty table there is room for the preselected test points
    have hlen := length_preselectRequest tpNode r.node taiNow
    have hmax : tpMaxPreselect < tpMaxIndex := by decide
    obtain ⟨o, ho, heff⟩ := requesttp_effect_of TableOk.zero fuel true
      (tpNode.preselectRequest r.node taiNow)
      fun i _ h => absurd h.full (not_overfull_zero (hlen.trans_lt hmax))
    rw [ho]
    exact ⟨_, rfl, heff⟩

theorem RequestEffect.tableOk (h : RequestEffect tpNode r indx indx') (ht : TableOk indx) :
    TableOk indx' := by
  induction h with
  | same => exact ht
  | refused => exact (project_spec _ _ _).1.tableOk ht
  | placed _ h => exact h.table
  | left _ h => exact h.table
  | cleared _ h hall =>
    exact (clearTps_cleared h.table _ _ (List.Subset.refl _) hall).2.table
  | clearedAll _ _ ih => exact ih TableOk.zero

/-- Without `_TP_CLEAR_ALL`, a request leaves alone what is not its own. -/
theorem RequestEffect.keeps (h : RequestEffect tpNode r indx indx') (ht : TableOk indx)
    (hno : ∀ i, ¬ClearsAllAt tpNode r indx i) :
    Stays indx indx' ∧ Frame r.id r.tp indx indx' := by
  have hgrows : ∀ {t : Indx}, TableOk t → Grows indx t → Stays indx t :=
    fun hok hg => hg.stays (Shrinks.refl _) hok hok
  cases h with
  | same => exact ⟨hgrows ht (SameUse.refl _).grows, Frame.refl ..⟩
  | refused =>
    have huse := (project_spec tpNode r indx).1
    exact ⟨hgrows (huse.tableOk ht) huse.grows, project_frame tpNode r indx⟩
  | placed _ h | left _ h => exact ⟨hgrows h.table h.grows, h.frame⟩
  | cleared _ h hall =>
    have hclear := (clearTps_cleared h.table r.id _ (List.take_subset _ _) hall).2
    exact ⟨h.grows.stays hclear.shrinks h.table hclear.table, h.frame.trans hclear.frame⟩
  | clearedAll h => exact absurd h (hno _)

end AdvLigoRts.Gds
