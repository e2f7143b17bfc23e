import Mathlib.Data.List.Basic

/-!
# Slices of a list

`slice` reads a range of a list and `splice` writes one.
-/

namespace PvLib

variable {α : Type*}

/-- The `n` elements from `off` on. -/
def slice (xs : List α) (off n : ℕ) : List α := (xs.drop off).take n

/-- `xs` with `ys` from `off` on. -/
def splice (xs : List α) (off : ℕ) (ys : List α) : List α :=
  xs.take off ++ ys ++ xs.drop (off + ys.length)

variable {xs ys : List α} {off n p m : ℕ}

theorem slice_getElem? (xs : List α) (off n i : ℕ) :
    (slice xs off n)[i]? = if i < n then xs[off + i]? else none := by
  unfold slice
  rw [List.getElem?_take, List.getElem?_drop]

theorem length_slice (h : off + n ≤ xs.length) : (slice xs off n).length = n := by
  unfold slice
  rw [List.length_take, List.length_drop]
  omega

theorem slice_slice (h : p + m ≤ n) : slice (slice xs off n) p m = slice xs (off + p) m := by
  apply List.ext_getElem?
  intro i
  rw [slice_getElem?, slice_getElem?, slice_getElem?, Nat.add_assoc]
  split
  · rw [if_pos (by omega)]
  · rfl

theorem splice_getElem? (h : off + ys.length ≤ xs.length) (i : ℕ) :
    (splice xs off ys)[i]? =
      if off ≤ i ∧ i < off + ys.length then ys[i - off]? else xs[i]? := by
  have htake : (xs.take off).length = off := by
    rw [List.length_take]
    omega
  unfold splice
  by_cases hlo : i < off
  · rw [if_neg (by omega), List.append_assoc, List.getElem?_append_left (by omega),
      List.getElem?_take, if_pos hlo]
  by_cases hhi : i < off + ys.length
  · rw [if_pos ⟨by omega, hhi⟩, List.append_assoc, List.getElem?_append_right (by omega), htake,
      List.getElem?_append_left (by omega)]
  · rw [if_neg (by omega), List.getElem?_append_right (by rw [List.length_append]; omega),
      List.length_append, htake, List.getElem?_drop]
    congr 1
    omega

theorem length_splice (h : off + ys.length ≤ xs.length) :
    (splice xs off ys).length = xs.length := by
  unfold splice
  rw [List.length_append, List.length_append, List.length_take, List.length_drop]
  omega

/-- A slice that does not meet what is written. -/
theorem slice_splice_outside (h : off + ys.length ≤ xs.length)
    (hout : p + m ≤ off ∨ off + ys.length ≤ p) : slice (splice xs off ys) p m = slice xs p m := by
  apply List.ext_getElem?
  intro i
  rw [slice_getElem?, slice_getElem?, splice_getElem? h]
  split
  · rw [if_neg (by omega)]
  · rfl

theorem slice_splice_inside (h : p + m ≤ xs.length) (hoff : off + ys.length ≤ m) :
    slice (splice xs (p + off) ys) p m = splice (slice xs p m) off ys := by
  apply List.ext_getElem?
  intro i
  have hlen := length_slice h
  rw [slice_getElem?, splice_getElem? (by omega), splice_getElem? (by omega), slice_getElem?]
  by_cases hi : i < m
  · rw [if_pos hi, if_pos hi]
    split
    · rw [if_pos (by omega)]
      congr 1
      omega
    · rw [if_neg (by omega)]
  · rw [if_neg hi, if_neg hi, if_neg (by omega)]

/-- What is written is read back. -/
theorem slice_splice_self (h : off + ys.length ≤ xs.length) :
    slice (splice xs off ys) off ys.length = ys := by
  apply List.ext_getElem?
  intro i
  rw [slice_getElem?, splice_getElem? h]
  split
  · rw [if_pos (by omega), Nat.add_sub_cancel_left]
  · rw [List.getElem?_eq_none (by omega)]

/-- Writing right behind what has been written so far. -/
theorem splice_behind (zs : List α) :
    splice (ys ++ xs) ys.length zs = ys ++ (zs ++ xs.drop zs.length) := by
  unfold splice
  rw [List.take_left, Nat.add_comm, ← List.drop_drop, List.append_assoc]
  congr 2
  rw [List.drop_drop, Nat.add_comm, ← List.drop_drop, List.drop_left]

end PvLib
