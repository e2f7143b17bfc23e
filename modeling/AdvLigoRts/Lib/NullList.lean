import Mathlib.Data.List.Basic

/-!
# Arrays that end at their first empty cell

A list stands in the first cells of an array, and the first empty cell is its end. `Holds` says so;
`listed` is the loop over the array that stops there.
-/

namespace PvLib

variable {α : Type*}

/-- The loop over at most `n` cells from `i` on, which ends at an empty cell. -/
def listedFrom (cells : ℕ → Option α) : ℕ → ℕ → List α
  | _, 0 => []
  | i, n + 1 =>
    match cells i with
    | none => []
    | some a => a :: listedFrom cells (i + 1) n

/-- The list in an array of `cap` cells. -/
def listed (cells : ℕ → Option α) (cap : ℕ) : List α := listedFrom cells 0 cap

/-- Move the `n` cells from `k` on up by one, the last one first. -/
def shiftUp (k : ℕ) : ℕ → (ℕ → Option α) → ℕ → Option α
  | 0, cells => cells
  | n + 1, cells => shiftUp k n (Function.update cells (k + n + 1) (cells (k + n)))

/-- The loop over at most `n` cells from `indx` on that empties the cells of the dead and moves
the others down to `lindx`. -/
def compactFrom (dead : α → Bool) : ℕ → ℕ → ℕ → (ℕ → Option α) → ℕ → Option α
  | 0, _, _, cells => cells
  | n + 1, indx, lindx, cells =>
    match cells indx with
    | none => cells
    | some a =>
      if dead a then compactFrom dead n (indx + 1) lindx (Function.update cells indx none)
      else
        let cells := if lindx < indx then
          Function.update (Function.update cells lindx (some a)) indx none else cells
        compactFrom dead n (indx + 1) (lindx + 1) cells

/-- The cells hold the list and an empty cell behind it. -/
structure Holds (cells : ℕ → Option α) (cap : ℕ) (l : List α) : Prop where
  cell : ∀ i ≤ l.length, cells i = l[i]?
  room : l.length < cap

variable {cells : ℕ → Option α} {cap i k n : ℕ} {l : List α} {a : α}

theorem listedFrom_eq (hcell : ∀ j ≤ l.length, cells (i + j) = l[j]?) (hn : l.length ≤ n) :
    listedFrom cells i n = l := by
  induction l generalizing i n with
  | nil =>
    have hend : cells i = none := hcell 0 (Nat.zero_le _)
    cases n with
    | zero => rfl
    | succ n => rw [listedFrom, hend]
  | cons a l ih =>
    obtain ⟨n, rfl⟩ : ∃ m, n = m + 1 := Nat.exists_eq_add_one.mpr (by
      rw [List.length_cons] at hn
      omega)
    have hhead : cells i = some a := hcell 0 (Nat.zero_le _)
    rw [listedFrom, hhead]
    show a :: listedFrom cells (i + 1) n = a :: l
    rw [ih ?_ (Nat.le_of_succ_le_succ hn)]
    intro j hj
    have hnext := hcell (j + 1) (Nat.succ_le_succ hj)
    rw [show i + 1 + j = i + (j + 1) by omega]
    exact hnext

theorem Holds.listed_eq (h : Holds cells cap l) : listed cells cap = l := by
  apply listedFrom_eq
  · intro j hj
    rw [Nat.zero_add]
    exact h.cell j hj
  · exact Nat.le_of_lt h.room

/-- The cell behind the list is empty. -/
theorem Holds.last (h : Holds cells cap l) : cells l.length = none := by
  rw [h.cell _ (Nat.le_refl _)]
  exact List.getElem?_eq_none (Nat.le_refl _)

/-- Only the first cells matter. -/
theorem Holds.congr (h : Holds cells cap l) {cells' : ℕ → Option α} {cap' : ℕ}
    (hsame : ∀ i ≤ l.length, cells' i = cells i) (hroom : l.length < cap') :
    Holds cells' cap' l := by
  refine ⟨?_, hroom⟩
  intro i hi
  rw [hsame i hi]
  exact h.cell i hi

/-! ## A new entry -/

theorem shiftUp_apply (k n : ℕ) (cells : ℕ → Option α) (i : ℕ) :
    shiftUp k n cells i = if k < i ∧ i ≤ k + n then cells (i - 1) else cells i := by
  induction n generalizing cells with
  | zero =>
    rw [if_neg (by omega)]
    rfl
  | succ n ih =>
    rw [shiftUp, ih]
    by_cases hlast : i = k + n + 1
    · rw [if_neg (by omega), if_pos (by omega), hlast, Function.update_self]
      rfl
    · rw [Function.update_of_ne hlast]
      by_cases hin : k < i ∧ i ≤ k + n
      · rw [if_pos hin, if_pos (by omega), Function.update_of_ne (by omega)]
      · rw [if_neg hin, if_neg (by omega)]

/-- The cells from `k` to the end of the list are moved up, its empty last cell with them, and
the cell `k` gets the new entry. -/
theorem Holds.insert (h : Holds cells cap l) (hk : k ≤ l.length) (hroom : l.length + 1 < cap)
    (a : α) : Holds (Function.update (shiftUp k (l.length + 1 - k) cells) k (some a)) cap
      (l.insertIdx k a) := by
  have hlength : (l.insertIdx k a).length = l.length + 1 := List.length_insertIdx_of_le_length hk a
  refine ⟨?_, by omega⟩
  intro i hi
  rw [hlength] at hi
  by_cases hik : i = k
  · subst hik
    rw [Function.update_self, List.getElem?_insertIdx_self, if_pos hk]
  · rw [Function.update_of_ne hik, shiftUp_apply]
    by_cases hlt : i < k
    · rw [if_neg (by omega), List.getElem?_insertIdx_of_lt hlt]
      exact h.cell i (by omega)
    · rw [if_pos (by omega), List.getElem?_insertIdx_of_gt (by omega)]
      exact h.cell (i - 1) (by omega)

/-! ## Entries that go -/

theorem compactFrom_apply {dead : α → Bool} {kept rest : List α} {indx : ℕ}
    (hkept : ∀ j < kept.length, cells j = kept[j]?)
    (hgap : ∀ j, kept.length ≤ j → j < indx → cells j = none) (hle : kept.length ≤ indx)
    (hrest : ∀ j ≤ rest.length, cells (indx + j) = rest[j]?) (hn : rest.length < n) :
    ∀ j ≤ (kept ++ rest.filter fun a => !dead a).length,
      compactFrom dead n indx kept.length cells j = (kept ++ rest.filter fun a => !dead a)[j]? := by
  -- `kept` is what has been moved down, `rest` what is to come; the cells between are empty
  induction rest generalizing n indx kept cells with
  | nil =>
    obtain ⟨n, rfl⟩ : ∃ m, n = m + 1 := Nat.exists_eq_add_one.mpr (by omega)
    have hend : cells indx = none := hrest 0 (Nat.le_refl _)
    rw [compactFrom, hend, List.filter_nil, List.append_nil]
    intro j hj
    by_cases hlt : j < kept.length
    · exact hkept j hlt
    · rw [List.getElem?_eq_none (by omega)]
      by_cases hj' : j < indx
      · exact hgap j (by omega) hj'
      · rw [show j = indx by omega]
        exact hend
  | cons a rest ih =>
    obtain ⟨n, rfl⟩ : ∃ m, n = m + 1 := Nat.exists_eq_add_one.mpr (by omega)
    have hhead : cells indx = some a := hrest 0 (Nat.zero_le _)
    have htail : ∀ j ≤ rest.length, cells (indx + 1 + j) = rest[j]? := by
      intro j hj
      rw [show indx + 1 + j = indx + (j + 1) by omega]
      exact hrest (j + 1) (Nat.succ_le_succ hj)
    rw [List.length_cons] at hn
    rw [compactFrom, hhead]
    dsimp only
    by_cases hdead : dead a = true
    · rw [if_pos hdead, List.filter_cons_of_neg (by simp [hdead])]
      apply ih ?_ ?_ (by omega) ?_ (by omega)
      · intro j hj
        rw [Function.update_of_ne (by omega)]
        exact hkept j hj
      · intro j hj hj'
        by_cases hji : j = indx
        · rw [hji, Function.update_self]
        · rw [Function.update_of_ne hji]
          exact hgap j hj (by omega)
      · intro j hj
        rw [Function.update_of_ne (by omega)]
        exact htail j hj
    · rw [if_neg hdead, List.filter_cons_of_pos (by simp [hdead]), List.append_cons]
      have hlength : kept.length + 1 = (kept ++ [a]).length := by simp
      rw [hlength]
      apply ih ?_ ?_ (by omega) ?_ (by omega)
      · intro j hj
        rw [← hlength] at hj
        by_cases hja : j = kept.length
        · subst hja
          rw [List.getElem?_concat_length]
          split
          · rw [Function.update_of_ne (by omega), Function.update_self]
          · rw [show kept.length = indx by omega]
            exact hhead
        · rw [List.getElem?_append_left (by omega), ← hkept j (by omega)]
          split
          · rw [Function.update_of_ne (by omega), Function.update_of_ne hja]
          · rfl
      · intro j hj hj'
        rw [← hlength] at hj
        split
        · by_cases hji : j = indx
          · rw [hji, Function.update_self]
          · rw [Function.update_of_ne hji, Function.update_of_ne (by omega)]
            exact hgap j (by omega) (by omega)
        · omega
      · intro j hj
        rw [← htail j hj]
        split
        · rw [Function.update_of_ne (by omega), Function.update_of_ne (by omega)]
        · rfl

/-- What is left is the list of those that are not dead. -/
theorem Holds.compact (h : Holds cells cap l) (dead : α → Bool) :
    Holds (compactFrom dead cap 0 0 cells) cap (l.filter fun a => !dead a) := by
  refine ⟨?_, Nat.lt_of_le_of_lt (List.length_filter_le _ _) h.room⟩
  have hkept : ∀ j < ([] : List α).length, cells j = ([] : List α)[j]? := by simp
  have hgap : ∀ j, ([] : List α).length ≤ j → j < 0 → cells j = none := by simp
  have hrest : ∀ j ≤ l.length, cells (0 + j) = l[j]? := by simpa using h.cell
  have hall := @compactFrom_apply _ _ _ dead _ _ _ hkept hgap (Nat.le_refl _) hrest h.room
  simpa using hall

end PvLib
