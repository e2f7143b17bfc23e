import Mathlib.Algebra.Order.BigOperators.Group.Finset
import AdvLigoRts.Lib.ByteMem

/-!
# Data in pieces of one size

A list is cut into pieces of `size` elements, the last of which may be shorter. Pieces that are
copied into a memory, each to its own place and in any order, rebuild the list once all of them
are there: `Assembled` says which of them are.
-/

namespace PvLib

open Finset

section Pieces

variable {α : Type*} {size : ℕ} {data : List α} {k : ℕ}

def piece (size : ℕ) (data : List α) (k : ℕ) : List α := (data.drop (k * size)).take size

/-- The number of pieces of `len` elements. -/
def pieceCount (size len : ℕ) : ℕ := (len + size - 1) / size

def pieces (size : ℕ) (data : List α) : List (List α) :=
  (List.range (pieceCount size data.length)).map (piece size data)

theorem length_piece (size : ℕ) (data : List α) (k : ℕ) :
    (piece size data k).length = min size (data.length - k * size) := by
  simp [piece]

theorem lt_pieceCount_iff (hsize : 0 < size) {len : ℕ} :
    k < pieceCount size len ↔ k * size < len := by
  rw [pieceCount, Nat.lt_iff_add_one_le, Nat.le_div_iff_mul_le hsize, Nat.succ_mul]
  omega

theorem le_pieceCount_mul (hsize : 0 < size) (len : ℕ) : len ≤ pieceCount size len * size := by
  by_contra hlt
  exact absurd ((lt_pieceCount_iff hsize).mpr (Nat.lt_of_not_le hlt)) (lt_irrefl _)

/-- The first pieces are the beginning of the list. -/
theorem flatten_map_piece (size : ℕ) (data : List α) (n : ℕ) :
    ((List.range n).map (piece size data)).flatten = data.take (n * size) := by
  induction n with
  | zero => simp
  | succ n ih =>
    rw [List.range_succ, List.map_append, List.flatten_append, ih, Nat.succ_mul, List.take_add]
    simp [piece]

theorem flatten_pieces (hsize : 0 < size) (data : List α) : (pieces size data).flatten = data := by
  rw [pieces, flatten_map_piece, List.take_of_length_le (le_pieceCount_mul hsize _)]

theorem sum_length_piece (size : ℕ) (data : List α) (n : ℕ) :
    ∑ k ∈ range n, (piece size data k).length = min (n * size) data.length := by
  induction n with
  | zero => simp
  | succ n ih =>
    rw [sum_range_succ, ih, length_piece, Nat.succ_mul]
    omega

end Pieces

/-! ## Reassembly -/

/-- The pieces in `got` are in their places, and `len` elements have come with them. -/
structure Assembled (size : ℕ) (data : List UInt8) (got : Finset ℕ) (mem : ℕ → UInt8)
    (len : ℕ) : Prop where
  bytes : ∀ i < data.length, i / size ∈ got → data[i]? = some (mem i)
  length : len = ∑ k ∈ got, (piece size data k).length

variable {size : ℕ} {data : List UInt8} {got : Finset ℕ} {mem src : ℕ → UInt8} {len k : ℕ}

theorem assembled_empty (size : ℕ) (data : List UInt8) (mem : ℕ → UInt8) :
    Assembled size data ∅ mem 0 where
  bytes := by simp
  length := by simp

/-- One more piece is copied to its place. -/
theorem Assembled.blit (h : Assembled size data got mem len) (hsize : 0 < size) (hk : k ∉ got)
    (hsrc : ∀ j < (piece size data k).length, (piece size data k)[j]? = some (src j)) :
    Assembled size data (insert k got)
      (PvLib.blit mem (k * size) src (piece size data k).length)
      (len + (piece size data k).length) where
  bytes := by
    intro i hi hmem
    rw [length_piece]
    by_cases heq : i / size = k
    · have hlow : k * size ≤ i := heq ▸ Nat.div_mul_le_self i size
      have hhigh : i < k * size + size := by
        rw [← Nat.succ_mul, ← Nat.div_lt_iff_lt_mul hsize, heq]
        exact Nat.lt_succ_self k
      obtain ⟨j, rfl⟩ := Nat.exists_eq_add_of_le hlow
      have hj : j < min size (data.length - k * size) := by omega
      rw [blit_inside hj, ← hsrc j (by rwa [length_piece])]
      rw [piece, List.getElem?_take_of_lt (by omega), List.getElem?_drop]
    · have hout : i < k * size ∨ k * size + min size (data.length - k * size) ≤ i := by
        obtain hlt | hgt := Nat.lt_or_gt_of_ne heq
        · left
          exact (Nat.div_lt_iff_lt_mul hsize).mp hlt
        · right
          have hle := (Nat.le_div_iff_mul_le hsize).mp hgt
          rw [Nat.succ_mul] at hle
          omega
      rw [blit_outside hout]
      exact h.bytes i hi ((mem_insert.mp hmem).resolve_left heq)
  length := by
    rw [sum_insert hk, h.length, Nat.add_comm]

/-- When all pieces are there, so is the list. -/
theorem Assembled.complete (hsize : 0 < size)
    (h : Assembled size data (range (pieceCount size data.length)) mem len) :
    len = data.length ∧ bytesAt mem 0 len = data := by
  have hlen : len = data.length := by
    rw [h.length, sum_length_piece]
    exact min_eq_right (le_pieceCount_mul hsize _)
  refine ⟨hlen, ?_⟩
  refine List.ext_getElem? fun i => ?_
  by_cases hi : i < data.length
  · have hpiece : i / size < pieceCount size data.length := by
      rw [lt_pieceCount_iff hsize]
      exact lt_of_le_of_lt (Nat.div_mul_le_self i size) hi
    rw [h.bytes i hi (mem_range.mpr hpiece), bytesAt, List.getElem?_map,
      List.getElem?_range (by omega)]
    simp
  · rw [List.getElem?_eq_none (by rw [length_bytesAt]; omega), List.getElem?_eq_none (by omega)]

end PvLib
