import Mathlib.Tactic.Basic

/-!
# Extents

The bytes that an access touches, and whether they lie in a block of memory. An access of no bytes
lies in any block, wherever it starts.
-/

namespace PvLib

/-- `size` bytes from `start` on. -/
structure Extent where
  start : Nat
  size : Nat
deriving DecidableEq, Repr

namespace Extent

/-- Every byte of it is one of the first `n`. -/
def Within (x : Extent) (n : Nat) : Prop := ∀ i < x.size, x.start + i < n

theorem within_iff {x : Extent} {n : Nat} : x.Within n ↔ x.size = 0 ∨ x.start + x.size ≤ n := by
  constructor
  · intro h
    by_cases hsize : x.size = 0
    · exact .inl hsize
    · have hlast := h (x.size - 1) (by omega)
      exact .inr (by omega)
  · intro h i hi
    omega

instance (x : Extent) (n : Nat) : Decidable (x.Within n) := decidable_of_iff' _ within_iff

theorem within_of_le {x : Extent} {n : Nat} (h : x.start + x.size ≤ n) : x.Within n :=
  within_iff.mpr (.inr h)

end Extent

end PvLib
