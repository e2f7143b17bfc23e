import AdvLigoRts.Gds.TestpointSize
import AdvLigoRts.Lib.EraseFirst

/-!
# The users that a request adds and a clear takes away

Of a list of test points, the second loop adds one user for each occurrence of a test point that the
node knows (`placedUsers`), behind those that are there.
-/

namespace AdvLigoRts.Gds

open PvLib TpNode

variable {tpNode : TpNode} {indx indx' : Indx} {r : RequestTp} {c : ℤ} {l tps : List ℕ}
variable {tp i k : ℕ}

/-! ## Placing -/

/-- The users of a test point that the second loop adds for the list `l`, whose first test point
has the index `k`. -/
def placedUsers (tpNode : TpNode) (r : RequestTp) (k : ℕ) (l : List ℕ) (tp : ℕ) :
    List TpUsage :=
  if (tpNode.interfaceOf tp).isSome then
    ((l.zipIdx k).filter fun p => p.1 = tp).map (placedUser r)
  else []

/-- How often a test point that the node knows is in a list. -/
def knownCount (tpNode : TpNode) (l : List ℕ) (tp : ℕ) : ℕ :=
  if (tpNode.interfaceOf tp).isSome then l.count tp else 0

theorem length_placedUsers : (placedUsers tpNode r k l tp).length = knownCount tpNode l tp := by
  unfold placedUsers knownCount
  split
  case isFalse => rfl
  case isTrue =>
    rw [List.length_map, ← List.countP_eq_length_filter, List.count]
    conv_rhs => rw [← List.zipIdx_map_fst k l, List.countP_map]
    apply List.countP_congr
    intro p _
    simp

theorem mem_placedUsers {u : TpUsage} (h : u ∈ placedUsers tpNode r k l tp) :
    u.clntId = r.id ∧ u.timeout = r.timeout := by
  unfold placedUsers at h
  split at h
  case isFalse => cases h
  case isTrue =>
    obtain ⟨p, -, rfl⟩ := List.mem_map.mp h
    exact ⟨rfl, rfl⟩

theorem placedUsers_nil : placedUsers tpNode r k [] tp = [] := by
  unfold placedUsers
  split <;> rfl

theorem placedUsers_cons {tp' : ℕ} : placedUsers tpNode r k (tp' :: l) tp =
    placedUsers tpNode r k [tp'] tp ++ placedUsers tpNode r (k + 1) l tp := by
  unfold placedUsers
  split
  case isFalse => rfl
  case isTrue =>
    rw [← List.map_append, ← List.filter_append]
    rfl

theorem placeTp_usersOf (ht : TableOk indx) (h : tpNode.placeTp r indx (tp, k) = some indx') :
    TableOk indx' ∧ ∀ tp', usersOf indx' tp' = usersOf indx tp' ++
      placedUsers tpNode r k [tp] tp' := by
  rcases placeTp_user ht h with ⟨hf, rfl⟩ | ⟨⟨f, hf⟩, hchange⟩
  · refine ⟨ht, fun tp' => ?_⟩
    by_cases heq : tp = tp'
    · subst heq
      simp [placedUsers, hf]
    · simp [placedUsers, heq]
  · refine ⟨hchange.tableOk ht, fun tp' => ?_⟩
    rw [hchange.usersOf ht]
    by_cases heq : tp' = tp
    · subst heq
      simp [placedUsers, hf]
    · rw [Function.update_of_ne heq]
      simp [placedUsers, Ne.symm heq]

/-- The second loop adds the users up to where it stops. -/
theorem place_usersOf (ht : TableOk indx) :
    match tpNode.place r (l.zipIdx k) indx with
    | (indx', none) => TableOk indx' ∧
        ∀ tp, usersOf indx' tp = usersOf indx tp ++ placedUsers tpNode r k l tp
    | (indx', some i) => k ≤ i ∧ TableOk indx' ∧
        ∀ tp, usersOf indx' tp = usersOf indx tp ++ placedUsers tpNode r k (l.take (i - k)) tp := by
  induction l generalizing indx k with
  | nil => exact ⟨ht, fun tp => by rw [placedUsers_nil, List.append_nil]⟩
  | cons tp l ih =>
    rw [List.zipIdx_cons, TpNode.place]
    cases hplace : tpNode.placeTp r indx (tp, k) with
    | none =>
      refine ⟨le_rfl, ht, fun tp' => ?_⟩
      rw [Nat.sub_self, List.take_zero, placedUsers_nil, List.append_nil]
    | some indx₁ =>
      obtain ⟨ht₁, husers₁⟩ := placeTp_usersOf ht hplace
      have hrest := ih (k := k + 1) ht₁
      dsimp only
      split
      case h_1 indx₂ hpl =>
        rw [hpl] at hrest
        refine ⟨hrest.1, fun tp' => ?_⟩
        rw [hrest.2, husers₁, List.append_assoc, placedUsers_cons (l := l)]
      case h_2 indx₂ i hpl =>
        rw [hpl] at hrest
        obtain ⟨hle, ht₂, husers₂⟩ := hrest
        refine ⟨by omega, ht₂, fun tp' => ?_⟩
        have htake : (tp :: l).take (i - k) = tp :: l.take (i - (k + 1)) := by
          rw [show i - k = i - (k + 1) + 1 by omega, List.take_succ_cons]
        rw [husers₂, husers₁, List.append_assoc, htake,
          placedUsers_cons (l := l.take (i - (k + 1)))]

/-- The two loops of a request: where the second one stops, and the users then. -/
theorem place_project_usersOf (tpNode : TpNode) (r : RequestTp) (ht : TableOk indx) :
    match tpNode.place r r.tp.zipIdx (tpNode.project r indx).1 with
    | (indx', none) => (∀ i, ¬tpNode.Overfull indx r.tp i) ∧
        ∀ tp, usersOf indx' tp = usersOf indx tp ++ placedUsers tpNode r 0 r.tp tp
    | (indx', some i) => (tpNode.Overfull indx r.tp i ∧ ∀ j < i, ¬tpNode.Overfull indx r.tp j) ∧
        TableOk indx' ∧
        ∀ tp, usersOf indx' tp = usersOf indx tp ++ placedUsers tpNode r 0 (r.tp.take i) tp := by
  have huse := (project_spec tpNode r indx).1
  have hover := place_project tpNode r ht
  have husers := @place_usersOf tpNode _ r r.tp 0 (huse.tableOk ht)
  split
  case h_1 indx' hpl =>
    rw [hpl] at hover husers
    exact ⟨hover.2, fun tp => by rw [husers.2, huse.usersOf]⟩
  case h_2 indx' i hpl =>
    rw [hpl] at hover husers
    exact ⟨hover.2, hover.1.table, fun tp => by rw [husers.2.2, huse.usersOf, Nat.sub_zero]⟩

/-- The second loop stops at one test point. -/
theorem overfull_unique {j : ℕ} (hj : tpNode.Overfull indx l j)
    (hjfirst : ∀ k < j, ¬tpNode.Overfull indx l k) (hi : tpNode.Overfull indx l i)
    (hifirst : ∀ k < i, ¬tpNode.Overfull indx l k) : j = i := by
  rcases lt_trichotomy j i with hlt | heq | hgt
  · exact absurd hj (hifirst j hlt)
  · exact heq
  · exact absurd hi (hjfirst i hgt)

/-- Whether a request is refused for its size does not depend on the client or the clock. -/
theorem tooMany_congr {r' : RequestTp} (h : r.tp = r'.tp) :
    tpNode.tooMany r indx = tpNode.tooMany r' indx := by
  obtain ⟨huse, -, hcount⟩ := project_spec tpNode r indx
  obtain ⟨huse', -, hcount'⟩ := project_spec tpNode r' indx
  unfold TpNode.tooMany
  simp only [hcount, hcount', huse.activeTps, huse'.activeTps, h]

/-! ## Clearing -/

theorem clearTp_usersOf (ht : TableOk indx) (id : ℤ) (tp : ℕ) :
    TableOk (clearTp id indx tp) ∧ usersOf (clearTp id indx tp) =
      Function.update (usersOf indx) tp ((usersOf indx tp).eraseP (clearable id)) := by
  rcases clearTp_first ht id tp with ⟨heq, hle⟩ | ⟨hlt, hchange⟩
  · have hnone : (usersOf indx tp).eraseP (clearable id) = usersOf indx tp := by
      rw [List.eraseP_eq_self_iff]
      intro u hu hclear
      have := List.findIdx_lt_length_of_exists ⟨u, hu, hclear⟩
      omega
    rw [heq, hnone, Function.update_eq_self]
    exact ⟨ht, rfl⟩
  · have hfirst : (usersOf indx tp).eraseP (clearable id) =
        (usersOf indx tp).eraseIdx ((usersOf indx tp).findIdx (clearable id)) := by
      have hsome := List.findIdx?_eq_some_of_exists (List.findIdx_lt_length.mp hlt)
      rw [List.eraseP_eq_eraseIdx, hsome]
    rw [hfirst]
    exact ⟨hchange.tableOk ht, hchange.usersOf ht⟩

/-- A clear of a list without `_TP_CLEAR_ALL`. -/
theorem clearTps_usersOf (ht : TableOk indx) (id : ℤ) (hall : tpClearAll ∉ tps) :
    (clearTps id tps indx).2 = false ∧ TableOk (clearTps id tps indx).1 ∧
      ∀ tp, usersOf (clearTps id tps indx).1 tp =
        (List.eraseP (clearable id))^[tps.count tp] (usersOf indx tp) := by
  induction tps generalizing indx with
  | nil => exact ⟨rfl, ht, fun _ => rfl⟩
  | cons tp tps ih =>
    rw [List.mem_cons, not_or] at hall
    obtain ⟨ht₁, husers₁⟩ := clearTp_usersOf ht id tp
    obtain ⟨hflag, ht₂, husers₂⟩ := ih ht₁ hall.2
    rw [clearTps, if_neg (Ne.symm hall.1)]
    refine ⟨hflag, ht₂, fun tp' => ?_⟩
    rw [husers₂, husers₁, List.count_cons]
    by_cases heq : tp' = tp
    · subst heq
      rw [Function.update_self, beq_self_eq_true, if_pos rfl, Function.iterate_succ_apply]
    · have hbeq : (tp == tp') = false := beq_false_of_ne (Ne.symm heq)
      rw [Function.update_of_ne heq, hbeq, if_neg Bool.false_ne_true, Nat.add_zero]

/-! ## The preselected test points -/

/-- The request for the preselected test points of an empty table, by a thread that may take the
mutex once more. -/
theorem setPreselect_usersOf {n : ℤ} (taiNow : ℕ → ℕ → ℤ) (hrelock : tpNode.relock = true)
    (hrej : tpNode.rejects 0x7fffffff n = false) (fuel : ℕ) (held : Bool) :
    ∃ indx', tpNode.setPreselect (tpNode.requesttp (fuel + 1)) held Indx.zero n taiNow =
        some ⟨indx', some ()⟩ ∧
      ∀ tp, usersOf indx' tp =
        if tpNode.tooMany (tpNode.preselectRequest n taiNow) Indx.zero then []
        else placedUsers tpNode (tpNode.preselectRequest n taiNow) 0
          (tpNode.preselectRequest n taiNow).tp tp := by
  have hlen := length_preselectRequest tpNode n taiNow
  have hid : (tpNode.preselectRequest n taiNow).id = 0x7fffffff := rfl
  have hnode : (tpNode.preselectRequest n taiNow).node = n := rfl
  unfold setPreselect
  dsimp only
  generalize tpNode.preselectRequest n taiNow = r at hlen hid hnode ⊢
  split
  case isFalse hempty =>
    have hnil : r.tp = [] := List.length_eq_zero_iff.mp (by omega)
    refine ⟨Indx.zero, rfl, fun tp => ?_⟩
    rw [usersOf_zero, hnil, placedUsers_nil, ite_self]
  case isTrue =>
    have hrej' : tpNode.rejects r.id r.node = false := by rwa [hid, hnode]
    unfold TpNode.requesttp
    rw [hrej', if_neg Bool.false_ne_true, hrelock, Bool.not_true, Bool.and_false,
      if_neg Bool.false_ne_true]
    cases hsize : tpNode.tooMany r Indx.zero with
    | true =>
      rw [if_pos rfl]
      refine ⟨(tpNode.project r Indx.zero).1, rfl, fun tp => ?_⟩
      rw [(project_spec tpNode r Indx.zero).1.usersOf, usersOf_zero, if_pos rfl]
    | false =>
      rw [if_neg Bool.false_ne_true]
      have hplace := place_project_usersOf tpNode r TableOk.zero
      dsimp only
      split
      case h_1 indx' hpl =>
        rw [hpl] at hplace
        refine ⟨indx', rfl, fun tp => ?_⟩
        rw [hplace.2, usersOf_zero, List.nil_append, if_neg Bool.false_ne_true]
      case h_2 indx' i hpl =>
        rw [hpl] at hplace
        have hmax : tpMaxPreselect < tpMaxIndex := by decide
        exact absurd hplace.1.1 (not_overfull_zero (hlen.trans_lt hmax))

end AdvLigoRts.Gds
