import Mathlib.Data.List.Basic

/-!
# Lower bounds in a list

`lowerBound` is the binary search of the C++ standard library: it halves the range of the elements
that are left until none is.
-/

namespace PvLib

variable {α : Type*}

/-- The loop of `std::lower_bound`, with `len` elements left from `first` on and `fuel` more
turns. -/
def lowerBoundLoop (before : α → Bool) (l : List α) : ℕ → ℕ → ℕ → ℕ
  | 0, first, _ => first
  | fuel + 1, first, len =>
    if len = 0 then first
    else
      let half := len / 2
      match l[first + half]? with
      | none => first
      | some x =>
        if before x then lowerBoundLoop before l fuel (first + half + 1) (len - half - 1)
        else lowerBoundLoop before l fuel first half

/-- `std::lower_bound`: the position it returns. -/
def lowerBound (before : α → Bool) (l : List α) : ℕ :=
  lowerBoundLoop before l l.length 0 l.length

variable {before : α → Bool} {l : List α} {k : ℕ}

/-- The partition point stays in the range that is left. -/
theorem lowerBoundLoop_eq (hpart : ∀ i x, l[i]? = some x → (before x = true ↔ i < k))
    {fuel first len : ℕ} (hfuel : len ≤ fuel) (hfirst : first ≤ k) (hlast : k ≤ first + len)
    (hlen : first + len ≤ l.length) : lowerBoundLoop before l fuel first len = k := by
  induction fuel generalizing first len with
  | zero =>
    rw [lowerBoundLoop]
    omega
  | succ fuel ih =>
    rw [lowerBoundLoop]
    split
    · omega
    · next hne =>
      have hmiddle : first + len / 2 < l.length := by omega
      have hx := hpart _ _ (List.getElem?_eq_getElem hmiddle)
      simp only [List.getElem?_eq_getElem hmiddle]
      split
      · next hbefore =>
        have hlt := hx.mp hbefore
        exact ih (by omega) (by omega) (by omega) (by omega)
      · next hbefore =>
        have hle : ¬ first + len / 2 < k := fun hlt => hbefore (hx.mpr hlt)
        exact ih (by omega) (by omega) (by omega) (by omega)

theorem lowerBound_eq (hpart : ∀ i x, l[i]? = some x → (before x = true ↔ i < k))
    (hk : k ≤ l.length) : lowerBound before l = k :=
  lowerBoundLoop_eq hpart (Nat.le_refl _) (Nat.zero_le k) (by omega) (by omega)

/-- In a sorted list it is the number of the elements that come before the value. -/
theorem lowerBound_of_pairwise {lt : α → α → Prop} (hsorted : l.Pairwise lt)
    (hbefore : ∀ a b, lt a b → before b = true → before a = true) :
    lowerBound before l = (l.takeWhile before).length := by
  apply lowerBound_eq
  · intro i x hx
    obtain ⟨hi, rfl⟩ := List.getElem?_eq_some_iff.mp hx
    induction l generalizing i with
    | nil => exact absurd hi (Nat.not_lt_zero i)
    | cons y l ih =>
      obtain ⟨hy, hl⟩ := List.pairwise_cons.mp hsorted
      by_cases hhead : before y = true
      · rw [List.takeWhile_cons_of_pos hhead, List.length_cons]
        cases i with
        | zero => simp [hhead]
        | succ i =>
          have hi' : i < l.length := by simpa using hi
          rw [List.getElem_cons_succ, ih hl i hi' (List.getElem?_eq_getElem hi')]
          omega
      · rw [List.takeWhile_cons_of_neg hhead, List.length_nil]
        cases i with
        | zero => simp [hhead]
        | succ i =>
          have hi' : i < l.length := by simpa using hi
          have hnot : before l[i] ≠ true := fun h =>
            hhead (hbefore y _ (hy _ (List.getElem_mem hi')) h)
          simp [hnot]
  · exact (List.takeWhile_prefix _).length_le

theorem lowerBoundLoop_map {β : Type*} {f : α → β} {before' : β → Bool}
    (h : ∀ x ∈ l, before' (f x) = before x) (fuel first len : ℕ) :
    lowerBoundLoop before' (l.map f) fuel first len = lowerBoundLoop before l fuel first len := by
  induction fuel generalizing first len with
  | zero => rfl
  | succ fuel ih =>
    simp only [lowerBoundLoop, List.getElem?_map]
    cases hx : l[first + len / 2]? with
    | none => rfl
    | some x =>
      simp only [Option.map_some, h x (List.mem_of_getElem? hx), ih]

/-- The search sees no more of the elements than on which side they lie. -/
theorem lowerBound_map {β : Type*} {f : α → β} {before' : β → Bool}
    (h : ∀ x ∈ l, before' (f x) = before x) :
    lowerBound before' (l.map f) = lowerBound before l := by
  rw [lowerBound, lowerBound, List.length_map]
  exact lowerBoundLoop_map h ..

end PvLib
