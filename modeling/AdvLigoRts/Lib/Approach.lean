import Mathlib.Algebra.Order.Archimedean.Basic

/-!
# Approach

A loop comes nearer to a goal by at least a fixed amount each time, or is there. The distance is
measured in an Archimedean ordered field, so it gets there, and if the goal is kept it stays.
-/

namespace PvLib

variable {α K : Type*} {f : α → α} {I G : α → Prop}

theorem goal_iterate_of_stable (hstable : ∀ a, G a → G (f a)) {a : α} (h : G a) (n : ℕ) :
    G (f^[n] a) := by
  induction n with
  | zero => exact h
  | succ n ih =>
    rw [Function.iterate_succ_apply']
    exact hstable _ ih

variable [Field K] [LinearOrder K] [IsStrictOrderedRing K] {μ : α → K} {c : K}

/-- While the goal is not reached the distance falls by `c` each time. -/
theorem approach_or (hstep : ∀ a, I a → G (f a) ∨ (I (f a) ∧ μ (f a) + c ≤ μ a)) {a : α}
    (h : I a) (n : ℕ) :
    (∃ k, G (f^[k] a)) ∨ (I (f^[n] a) ∧ μ (f^[n] a) + n * c ≤ μ a) := by
  induction n with
  | zero => exact Or.inr ⟨h, by simp⟩
  | succ n ih =>
    rcases ih with ih | ⟨hinv, hle⟩
    · exact Or.inl ih
    · rw [Function.iterate_succ_apply']
      rcases hstep _ hinv with hgoal | ⟨hnext, hnear⟩
      · refine Or.inl ⟨n + 1, ?_⟩
        rw [Function.iterate_succ_apply']
        exact hgoal
      · refine Or.inr ⟨hnext, ?_⟩
        calc μ (f (f^[n] a)) + (n + 1 : ℕ) * c = μ (f (f^[n] a)) + c + n * c := by
              push_cast
              ring
          _ ≤ μ (f^[n] a) + n * c := by gcongr
          _ ≤ μ a := hle

theorem exists_goal_of_approach [Archimedean K] (hc : 0 < c) (hnonneg : ∀ a, I a → 0 ≤ μ a)
    (hstep : ∀ a, I a → G (f a) ∨ (I (f a) ∧ μ (f a) + c ≤ μ a)) {a : α} (h : I a) :
    ∃ n, G (f^[n] a) := by
  obtain ⟨n, hn⟩ := exists_lt_nsmul hc (μ a)
  rcases approach_or hstep h n with hgoal | ⟨hinv, hle⟩
  · exact hgoal
  · have hpos := hnonneg _ hinv
    rw [nsmul_eq_mul] at hn
    exact absurd hle (not_le.mpr (by linarith))

end PvLib
