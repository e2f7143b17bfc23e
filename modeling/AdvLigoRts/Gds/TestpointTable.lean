import AdvLigoRts.Gds.TestpointServer

/-!
# The test point table as a set of users

`usersOf` is what the table says about a test point: its users, in the order of the array.
-/

namespace AdvLigoRts.Gds

open PvLib.SlotTable

/-! ## Entries -/

namespace TpEntry

variable {e : TpEntry} {u : TpUsage} {k : ℕ}

theorem length_live : e.live.length = e.inUse := by simp [live]

theorem live_eq_nil : e.live = [] ↔ e.inUse = 0 := by
  rw [← List.length_eq_zero_iff, length_live]

@[simp] theorem id_writeUser : (e.writeUser u).id = e.id := rfl

@[simp] theorem inUse_writeUser : (e.writeUser u).inUse = e.inUse := rfl

/-- What lies behind the users in use is not seen. -/
@[simp] theorem live_writeUser : (e.writeUser u).live = e.live := by
  apply List.map_congr_left
  intro m hm
  exact Function.update_of_ne (List.mem_range.mp hm).ne _ _

@[simp] theorem id_addUser : (e.addUser u).id = e.id := rfl

@[simp] theorem inUse_addUser : (e.addUser u).inUse = e.inUse + 1 := rfl

theorem live_addUser : (e.addUser u).live = e.live ++ [u] := by
  have hold : (e.writeUser u).live = e.live := live_writeUser
  have hnew : (e.writeUser u).users e.inUse = u := Function.update_self ..
  calc (e.addUser u).live
      = (List.range (e.inUse + 1)).map (e.writeUser u).users := rfl
    _ = (e.writeUser u).live ++ [(e.writeUser u).users e.inUse] := by
        rw [List.range_succ, List.map_append]
        rfl
    _ = e.live ++ [u] := by rw [hold, hnew]

theorem inUse_removeUser : (e.removeUser k).inUse = e.inUse - 1 := by
  unfold removeUser
  dsimp only
  split <;> rfl

theorem id_removeUser : (e.removeUser k).id = if e.inUse - 1 = 0 then 0 else e.id := by
  unfold removeUser
  simp only [Nat.le_zero]
  split <;> rfl

theorem users_removeUser {m : ℕ} (hm : m < e.inUse - 1) :
    (e.removeUser k).users m = if k ≤ m then e.users (m + 1) else e.users m := by
  unfold removeUser
  dsimp only
  split
  case isTrue h => simp only [hm, and_true]
  case isFalse h =>
    have hkm : ¬k ≤ m := by omega
    simp only [if_neg hkm]

theorem live_removeUser (hk : k < e.inUse) : (e.removeUser k).live = e.live.eraseIdx k := by
  apply List.ext_getElem
  · rw [length_live, inUse_removeUser, List.length_eraseIdx, length_live, if_pos hk]
  · intro m hm _
    rw [length_live, inUse_removeUser] at hm
    rw [List.getElem_eraseIdx]
    simp only [live, List.getElem_map, List.getElem_range]
    rw [users_removeUser hm]
    split <;> split <;> first | rfl | omega

end TpEntry

/-! ## The invariant -/

structure EntryOk (f : Fin tpMaxInterface) (e : TpEntry) : Prop where
  belongs : e.id ≠ 0 → tpInterface e.id = some f
  bound : e.inUse ≤ tpMaxUser
  used : e.id ≠ 0 ↔ 1 ≤ e.inUse

structure RowOk (f : Fin tpMaxInterface) (row : Fin tpMaxIndex → TpEntry) : Prop where
  distinct : Distinct (fun j => (row j).id) 0
  entry : ∀ j, EntryOk f (row j)

def TableOk (indx : Indx) : Prop := ∀ f, RowOk f (indx f)

theorem EntryOk.zero (f : Fin tpMaxInterface) : EntryOk f TpEntry.zero :=
  ⟨fun h => absurd rfl h, Nat.zero_le _, by simp [TpEntry.zero]⟩

theorem TableOk.zero : TableOk Indx.zero :=
  fun f => ⟨distinct_const 0, fun _ => EntryOk.zero f⟩

section Table

variable {indx indx' : Indx} {f f' : Fin tpMaxInterface} {j j' : Fin tpMaxIndex} {e : TpEntry}
variable {tp tp' : ℕ} {us : List TpUsage}

theorem EntryOk.live_eq_nil (h : EntryOk f e) : e.live = [] ↔ e.id = 0 := by
  rw [TpEntry.live_eq_nil]
  have := h.used
  omega

theorem Indx.set_self : indx.set f j e f = Function.update (indx f) j e :=
  Function.update_self ..

theorem Indx.set_of_ne (h : f' ≠ f) : indx.set f j e f' = indx f' := Function.update_of_ne h ..

theorem Indx.set_apply :
    indx.set f j e f' j' = if f' = f ∧ j' = j then e else indx f' j' := by
  by_cases hf : f' = f
  · subst hf
    rw [Indx.set_self, Function.update_apply]
    simp
  · rw [Indx.set_of_ne hf, if_neg fun h => hf h.1]

/-- The users of a test point. -/
def usersOf (indx : Indx) (tp : ℕ) : List TpUsage :=
  match tpInterface tp with
  | none => []
  | some f => ((find TpEntry.id (indx f) tp).map TpEntry.live).getD []

theorem usersOf_none (h : tpInterface tp = none) : usersOf indx tp = [] := by
  rw [usersOf, h]

theorem usersOf_some (h : tpInterface tp = some f) :
    usersOf indx tp = ((find TpEntry.id (indx f) tp).map TpEntry.live).getD [] := by
  rw [usersOf, h]

theorem interface_ne_zero (h : tpInterface tp = some f) : tp ≠ 0 := by
  rintro rfl
  cases h

theorem usersOf_zero (tp : ℕ) : usersOf Indx.zero tp = [] := by
  cases h : tpInterface tp with
  | none => exact usersOf_none h
  | some f =>
    have hnone : find TpEntry.id (Indx.zero f) tp = none := by
      rw [find_eq_none]
      exact fun _ h0 => interface_ne_zero h h0.symm
    rw [usersOf_some h, hnone]
    rfl

theorem TableOk.usersOf_slot (ht : TableOk indx) (hj : (indx f j).id ≠ 0) :
    usersOf indx (indx f j).id = (indx f j).live := by
  have hfind : find TpEntry.id (indx f) (indx f j).id = some (indx f j) :=
    find_row (ht f).distinct hj
  rw [usersOf_some (((ht f).entry j).belongs hj), hfind]
  rfl

theorem usersOf_absent (hf : tpInterface tp = some f) (h : ∀ j, (indx f j).id ≠ tp) :
    usersOf indx tp = [] := by
  rw [usersOf_some hf, find_eq_none.mpr h]
  rfl

/-- A test point has a user if it is in a slot. -/
theorem TableOk.usersOf_ne_nil (ht : TableOk indx) (hf : tpInterface tp = some f) :
    usersOf indx tp ≠ [] ↔ ∃ j, (indx f j).id = tp := by
  have h0 := interface_ne_zero hf
  constructor
  · intro h
    by_contra! hno
    exact h (usersOf_absent hf hno)
  · rintro ⟨j, rfl⟩
    rw [ht.usersOf_slot h0, Ne, ((ht f).entry j).live_eq_nil]
    exact h0

/-- The test points in the slots of an interface. -/
theorem TableOk.mem_keys (ht : TableOk indx) :
    tp ∈ keys (fun j => (indx f j).id) 0 ↔ tpInterface tp = some f ∧ usersOf indx tp ≠ [] := by
  rw [PvLib.SlotTable.mem_keys]
  constructor
  · rintro ⟨h0, j, rfl⟩
    have hf := ((ht f).entry j).belongs h0
    exact ⟨hf, (ht.usersOf_ne_nil hf).mpr ⟨j, rfl⟩⟩
  · rintro ⟨hf, hne⟩
    exact ⟨interface_ne_zero hf, (ht.usersOf_ne_nil hf).mp hne⟩

/-- How many slots of an interface are in use. -/
def usedSlots (indx : Indx) (f : Fin tpMaxInterface) : ℕ :=
  (List.finRange tpMaxIndex).countP fun j => (indx f j).id ≠ 0

theorem usedSlots_le (indx : Indx) (f : Fin tpMaxInterface) : usedSlots indx f ≤ tpMaxIndex := by
  have h := List.countP_le_length (p := fun j => decide ((indx f j).id ≠ 0))
    (l := List.finRange tpMaxIndex)
  rwa [List.length_finRange] at h

theorem usedSlots_full : (∀ k, (indx f k).id ≠ 0) ↔ tpMaxIndex ≤ usedSlots indx f := by
  have hall := List.countP_eq_length (p := fun j => decide ((indx f j).id ≠ 0))
    (l := List.finRange tpMaxIndex)
  rw [List.length_finRange] at hall
  constructor
  · intro h
    exact (hall.mpr fun k _ => decide_eq_true (h k)).ge
  · intro h k
    exact of_decide_eq_true (hall.mp (le_antisymm (usedSlots_le indx f) h) k (List.mem_finRange k))

/-- The tables agree on what is in use. -/
def SameUse (indx indx' : Indx) : Prop :=
  ∀ f j, (indx' f j).id = (indx f j).id ∧ (indx' f j).inUse = (indx f j).inUse ∧
    (indx' f j).live = (indx f j).live

theorem SameUse.refl (indx : Indx) : SameUse indx indx := fun _ _ => ⟨rfl, rfl, rfl⟩

theorem SameUse.trans {indx'' : Indx} (h : SameUse indx indx') (h' : SameUse indx' indx'') :
    SameUse indx indx'' := fun f j =>
  ⟨(h' f j).1.trans (h f j).1, (h' f j).2.1.trans (h f j).2.1, (h' f j).2.2.trans (h f j).2.2⟩

theorem SameUse.tableOk (h : SameUse indx indx') (ht : TableOk indx) : TableOk indx' := by
  intro f
  refine ⟨?_, fun j => ?_⟩
  · have hkeys : (fun j => (indx' f j).id) = fun j => (indx f j).id := funext fun j => (h f j).1
    rw [hkeys]
    exact (ht f).distinct
  · obtain ⟨hid, huse, -⟩ := h f j
    have he := (ht f).entry j
    exact ⟨by rw [hid]; exact he.belongs, by rw [huse]; exact he.bound,
      by rw [hid, huse]; exact he.used⟩

theorem SameUse.usersOf (h : SameUse indx indx') (tp : ℕ) :
    usersOf indx' tp = Gds.usersOf indx tp := by
  cases hf : tpInterface tp with
  | none => rw [usersOf_none hf, usersOf_none hf]
  | some f =>
    have hkeys : (fun j => (indx' f j).id) = fun j => (indx f j).id := funext fun j => (h f j).1
    rw [usersOf_some hf, usersOf_some hf]
    simp only [find, hkeys, Option.map_map]
    cases lookup (fun j => (indx f j).id) tp with
    | none => rfl
    | some j => exact (h f j).2.2

/-! ## Changes of one entry -/

/-- The entry of one test point changes, and `us` are its users then. -/
structure Changes (indx indx' : Indx) (tp : ℕ) (us : List TpUsage) : Prop where
  slot : ∃ f j e, tpInterface tp = some f ∧ indx' = indx.set f j e ∧
    ((indx f j).id = tp ∨ (indx f j).id = 0 ∧ (∀ i, (indx f i).id ≠ tp) ∧ us ≠ []) ∧
    e.id = (if us = [] then 0 else tp) ∧ e.live = us
  bound : us.length ≤ tpMaxUser

theorem Changes.tableOk (h : Changes indx indx' tp us) (ht : TableOk indx) : TableOk indx' := by
  obtain ⟨⟨f, j, e, hf, rfl, hold, hid, hlive⟩, hbound⟩ := h
  have htp := interface_ne_zero hf
  have huse : e.inUse = us.length := by rw [← hlive, TpEntry.length_live]
  intro f'
  by_cases hff : f' = f
  · subst hff
    rw [Indx.set_self]
    refine ⟨(ht f').distinct.update ?_, fun i => ?_⟩
    · by_cases hus : us = []
      · exact Or.inl (by rw [hid, if_pos hus])
      · right
        rw [hid, if_neg hus]
        intro i hi
        rcases hold with hj | ⟨-, hno, -⟩
        · exact (ht f').distinct i j (fun h0 => htp (hi.symm.trans h0)) (hi.trans hj.symm)
        · exact absurd hi (hno i)
    · by_cases hi : i = j
      · subst hi
        rw [Function.update_self]
        refine ⟨?_, huse ▸ hbound, ?_⟩
        · by_cases hus : us = [] <;> simp [hid, hus, hf]
        · rw [hid, huse]
          cases us <;> simp [htp]
      · rw [Function.update_of_ne hi]
        exact (ht f').entry i
  · rw [Indx.set_of_ne hff]
    exact ht f'

/-- Only the users of this test point are seen to change. -/
theorem Changes.usersOf (h : Changes indx indx' tp us) (ht : TableOk indx) :
    usersOf indx' = Function.update (usersOf indx) tp us := by
  have ht' := h.tableOk ht
  obtain ⟨⟨f, j, e, hf, rfl, hold, hid, hlive⟩, -⟩ := h
  have htp := interface_ne_zero hf
  have hd' := (ht' f).distinct
  rw [Indx.set_self] at hd'
  funext tp'
  by_cases heq : tp' = tp
  · subst heq
    rw [Function.update_self, usersOf_some hf, Indx.set_self]
    by_cases hus : us = []
    · -- the slot is empty now, and the test point was in no other
      rw [if_pos hus] at hid
      have hj : (indx f j).id = tp' := by
        rcases hold with hj | ⟨-, -, hne⟩
        · exact hj
        · exact absurd hus hne
      subst hj
      rw [find_update_cleared (ht f).distinct htp (by rw [hid]; exact htp.symm), hus]
      rfl
    · rw [if_neg hus] at hid
      subst hid
      rw [find_update_self hd' htp, Option.map_some, hlive]
      rfl
  · rw [Function.update_of_ne heq]
    cases hf' : tpInterface tp' with
    | none => rw [usersOf_none hf', usersOf_none hf']
    | some f' =>
      have htp' := interface_ne_zero hf'
      rw [usersOf_some hf', usersOf_some hf']
      by_cases hff : f' = f
      · subst hff
        have holdId : (indx f' j).id ≠ tp' := by
          rcases hold with hj | ⟨hj, -⟩
          · exact fun h => heq (h.symm.trans hj)
          · exact fun h => htp' (h.symm.trans hj)
        have hnewId : e.id ≠ tp' := by
          rw [hid]
          split
          · exact htp'.symm
          · exact Ne.symm heq
        rw [Indx.set_self, find_update_of_ne holdId hnewId]
      · rw [Indx.set_of_ne hff]

/-! ## What stays -/

/-- Test points in slots stay there. -/
def Grows (indx indx' : Indx) : Prop :=
  ∀ f j, (indx f j).id ≠ 0 → (indx' f j).id = (indx f j).id

/-- Slots are only cleared. -/
def Shrinks (indx indx' : Indx) : Prop :=
  ∀ f j, (indx' f j).id = (indx f j).id ∨ (indx' f j).id = 0

/-- A test point stays in its slot as long as it has a user. -/
def Stays (indx indx' : Indx) : Prop :=
  ∀ f j, (indx f j).id ≠ 0 → usersOf indx' (indx f j).id ≠ [] → (indx' f j).id = (indx f j).id

theorem Grows.trans {indx'' : Indx} (h : Grows indx indx') (h' : Grows indx' indx'') :
    Grows indx indx'' := by
  intro f j hj
  have hid := h f j hj
  rw [h' f j (hid ▸ hj), hid]

theorem Shrinks.trans {indx'' : Indx} (h : Shrinks indx indx') (h' : Shrinks indx' indx'') :
    Shrinks indx indx'' := by
  intro f j
  have h1 := h f j
  have h2 := h' f j
  omega

theorem SameUse.grows (h : SameUse indx indx') : Grows indx indx' := fun f j _ => (h f j).1

/-- Slots are filled, and then cleared. -/
theorem Grows.stays {indx'' : Indx} (h : Grows indx indx') (h' : Shrinks indx' indx'')
    (ht : TableOk indx') (ht'' : TableOk indx'') : Stays indx indx'' := by
  intro f j hj huser
  have hid := h f j hj
  have hid' : (indx' f j).id ≠ 0 := hid ▸ hj
  have hf : tpInterface (indx f j).id = some f := hid ▸ ((ht f).entry j).belongs hid'
  obtain ⟨i, hi⟩ := (ht''.usersOf_ne_nil hf).mp huser
  have hi' : (indx' f i).id = (indx f j).id := by
    rcases h' f i with h0 | h0
    · rw [← h0, hi]
    · exact absurd (hi.symm.trans h0) hj
  have hij : i = j :=
    (ht f).distinct i j (fun h0 => hj (hi'.symm.trans h0)) (hi'.trans hid.symm)
  subst hij
  exact hi

theorem Shrinks.refl (indx : Indx) : Shrinks indx indx := fun _ _ => Or.inl rfl

theorem Changes.grows (h : Changes indx indx' tp us) (hus : us ≠ []) : Grows indx indx' := by
  obtain ⟨⟨f, j, e, hf, rfl, hold, hid, -⟩, -⟩ := h
  rw [if_neg hus] at hid
  intro f' j' hj'
  rw [Indx.set_apply]
  split
  case isTrue heq =>
    obtain ⟨rfl, rfl⟩ := heq
    rcases hold with hj | ⟨hj, -⟩
    · rw [hid, hj]
    · exact absurd hj hj'
  case isFalse => rfl

theorem Changes.shrinks (h : Changes indx indx' tp us) (hold : Gds.usersOf indx tp ≠ []) :
    Shrinks indx indx' := by
  obtain ⟨⟨f, j, e, hf, rfl, hslot, hid, -⟩, -⟩ := h
  intro f' j'
  rw [Indx.set_apply]
  split
  case isTrue heq =>
    obtain ⟨rfl, rfl⟩ := heq
    rcases hslot with hj | ⟨-, hno, -⟩
    · rw [hid, hj]
      split
      · exact Or.inr rfl
      · exact Or.inl rfl
    · exact absurd (usersOf_absent hf hno) hold
  case isFalse => exact Or.inl rfl

/-- What a client does with a list of test points: the users of other clients and the entries of
other test points stay. -/
structure Frame (c : ℤ) (tps : List ℕ) (indx indx' : Indx) : Prop where
  others : ∀ tp, (usersOf indx' tp).filter (fun u => u.clntId ≠ c) =
    (usersOf indx tp).filter fun u => u.clntId ≠ c
  outside : ∀ f j, indx' f j ≠ indx f j →
    ((indx f j).id = 0 ∨ (indx f j).id ∈ tps) ∧ ((indx' f j).id = 0 ∨ (indx' f j).id ∈ tps)

theorem Frame.refl (c : ℤ) (tps : List ℕ) (indx : Indx) : Frame c tps indx indx :=
  ⟨fun _ => rfl, fun _ _ h => absurd rfl h⟩

theorem Frame.trans {c : ℤ} {tps : List ℕ} {indx'' : Indx} (h : Frame c tps indx indx')
    (h' : Frame c tps indx' indx'') : Frame c tps indx indx'' := by
  refine ⟨fun tp => (h'.others tp).trans (h.others tp), fun f j hne => ?_⟩
  by_cases h1 : indx' f j = indx f j
  · rw [← h1] at hne ⊢
    exact h'.outside f j hne
  · by_cases h2 : indx'' f j = indx' f j
    · rw [h2]
      exact h.outside f j h1
    · exact ⟨(h.outside f j h1).1, (h'.outside f j h2).2⟩

theorem Changes.frame {c : ℤ} {tps : List ℕ} (h : Changes indx indx' tp us) (ht : TableOk indx)
    (hmem : tp ∈ tps)
    (hus : us.filter (fun u => u.clntId ≠ c) =
      (Gds.usersOf indx tp).filter fun u => u.clntId ≠ c) :
    Frame c tps indx indx' := by
  constructor
  case others =>
    intro tp'
    rw [h.usersOf ht]
    by_cases heq : tp' = tp
    · rw [heq, Function.update_self, hus]
    · rw [Function.update_of_ne heq]
  case outside =>
    obtain ⟨⟨f, j, e, hf, rfl, hold, hid, -⟩, -⟩ := h
    intro f' j' hne
    rw [Indx.set_apply] at hne ⊢
    split at hne
    case isTrue heq =>
      obtain ⟨rfl, rfl⟩ := heq
      rw [if_pos ⟨rfl, rfl⟩, hid]
      refine ⟨?_, ?_⟩
      · rcases hold with hj | ⟨hj, -⟩
        · exact Or.inr (hj ▸ hmem)
        · exact Or.inl hj
      · split
        · exact Or.inl rfl
        · exact Or.inr hmem
    case isFalse => exact absurd rfl hne

end Table

end AdvLigoRts.Gds
