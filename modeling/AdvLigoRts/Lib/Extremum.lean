import Mathlib.Algebra.BigOperators.Group.List.Basic
import Mathlib.Data.List.Induction

/-!
# Extrema and sums that are kept as one goes

A loop over values keeps the least one: it takes the next value if that is less than what it has.
All that this needs of the order is that it is transitive and irreflexive, which the comparison of
floating-point numbers is, NaN included.
-/

namespace PvLib

variable {α R : Type*}

/-- The relation can be used to look for a least value. -/
structure StrictLess (lt : α → α → Prop) : Prop where
  irrefl : ∀ a, ¬ lt a a
  trans : ∀ a b c, lt a b → lt b c → lt a c

theorem StrictLess.of_key {β : Type*} [Preorder β] (key : α → β) :
    StrictLess fun a b => key a < key b :=
  ⟨fun _ => lt_irrefl _, fun _ _ _ => lt_trans⟩

/-- The same comparison the other way round. -/
theorem StrictLess.flip {lt : α → α → Prop} (h : StrictLess lt) : StrictLess fun a b => lt b a :=
  ⟨h.irrefl, fun _ _ _ hab hbc => h.trans _ _ _ hbc hab⟩

/-- One of the values, such that none of them is less. -/
def Extremal (lt : α → α → Prop) (l : List α) (m : α) : Prop := m ∈ l ∧ ∀ x ∈ l, ¬ lt x m

section Extremal

variable {lt : α → α → Prop} {l : List α} {m x : α}

theorem extremal_singleton (h : StrictLess lt) (x : α) : Extremal lt [x] x := by
  refine ⟨List.mem_singleton_self x, fun y hy => ?_⟩
  rw [List.mem_singleton.mp hy]
  exact h.irrefl x

theorem Extremal.snoc_of_lt (h : StrictLess lt) (hm : Extremal lt l m) (hlt : lt x m) :
    Extremal lt (l ++ [x]) x := by
  refine ⟨List.mem_append_right l (List.mem_singleton_self x), fun y hy hyx => ?_⟩
  rcases List.mem_append.mp hy with hold | hnew
  · exact hm.2 y hold (h.trans y x m hyx hlt)
  · rw [List.mem_singleton.mp hnew] at hyx
    exact h.irrefl x hyx

/-- The next value is not less. -/
theorem Extremal.snoc_of_not_lt (hm : Extremal lt l m) (hlt : ¬ lt x m) :
    Extremal lt (l ++ [x]) m := by
  refine ⟨List.mem_append_left [x] hm.1, fun y hy => ?_⟩
  rcases List.mem_append.mp hy with hold | hnew
  · exact hm.2 y hold
  · rw [List.mem_singleton.mp hnew]
    exact hlt

end Extremal

def leftSum [Add R] [Zero R] : List R → R
  | [] => 0
  | x :: xs => xs.foldl (· + ·) x

theorem leftSum_snoc [Add R] [Zero R] {l : List R} (h : l ≠ []) (x : R) :
    leftSum (l ++ [x]) = leftSum l + x := by
  cases l with
  | nil => exact absurd rfl h
  | cons y l =>
    show (l ++ [x]).foldl (· + ·) y = l.foldl (· + ·) y + x
    rw [List.foldl_append]
    rfl

end PvLib
