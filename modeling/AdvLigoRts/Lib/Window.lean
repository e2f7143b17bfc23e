import Mathlib.Data.List.Range
import Mathlib.Tactic.Ring
import Mathlib.Algebra.Order.Ring.Int

/-!
# Windows on a run of positions

A condition on positions is convex on a run of them if it holds between any two positions where it
holds. The positions of the run that meet it then follow one another without a gap
(`exists_filter_range'`).
-/

namespace PvLib

/-- The condition holds between any two positions of `[lo, hi)` where it holds. -/
def ConvexOn (p : ℕ → Prop) (lo hi : ℕ) : Prop :=
  ∀ i j k, lo ≤ i → i ≤ j → j ≤ k → k < hi → p i → p k → p j

variable {p : ℕ → Prop} {lo hi lo' hi' : ℕ}

theorem ConvexOn.mono (h : ConvexOn p lo hi) (hlo : lo ≤ lo') (hhi : hi' ≤ hi) :
    ConvexOn p lo' hi' :=
  fun i j k hi hij hjk hk => h i j k (hlo.trans hi) hij hjk (hk.trans_le hhi)

variable (lo) in
/-- Where no position before `mid` meets the condition, only the others matter. -/
theorem ConvexOn.of_none_below {mid : ℕ} (h : ConvexOn p mid hi)
    (hnone : ∀ i, lo ≤ i → i < mid → ¬ p i) : ConvexOn p lo hi := by
  intro i j k hi₀ hij hjk hk hpi hpk
  have hmid : mid ≤ i := by
    by_contra hlt
    exact hnone i hi₀ (not_le.mp hlt) hpi
  exact h i j k hmid hij hjk hk hpi hpk

variable (lo hi) in
/-- A stamp that grows by a fixed step, in an interval. -/
theorem convex_linear (f : ℕ → ℤ) {c : ℤ} (a b : ℤ)
    (hf : ∀ i, lo ≤ i → i + 1 < hi → f (i + 1) = f i + c) :
    ConvexOn (fun i => a ≤ f i ∧ f i < b) lo hi := by
  have hlin : ∀ i d, lo ≤ i → i + d < hi → f (i + d) = f i + d * c := by
    intro i d hi₀
    induction d with
    | zero => simp
    | succ d ih =>
      intro hd
      rw [← Nat.add_assoc, hf (i + d) (by omega) (by omega), ih (by omega)]
      push_cast
      ring
  rintro i j k hi₀ hij hjk hk ⟨hai, hbi⟩ ⟨hak, hbk⟩
  obtain ⟨d, rfl⟩ := Nat.exists_eq_add_of_le hij
  obtain ⟨e, rfl⟩ := Nat.exists_eq_add_of_le hjk
  have hj := hlin i d hi₀ (by omega)
  have hk' := hlin (i + d) e (by omega) (by omega)
  -- the stamp moves one way only, so it stays between its ends
  have hd : (0 : ℤ) ≤ d := Int.natCast_nonneg d
  have he : (0 : ℤ) ≤ e := Int.natCast_nonneg e
  rcases le_total 0 c with hc | hc
  · have h1 := mul_nonneg hd hc
    have h2 := mul_nonneg he hc
    constructor
    · omega
    · omega
  · have h1 := mul_nonpos_of_nonneg_of_nonpos hd hc
    have h2 := mul_nonpos_of_nonneg_of_nonpos he hc
    constructor
    · omega
    · omega

/-- The positions that meet a convex condition follow one another. -/
theorem exists_filter_range' [DecidablePred p] (n : ℕ) (h : ConvexOn p lo (lo + n)) :
    ∃ first m, (List.range' lo n).filter (fun i => p i) = List.range' first m ∧
      lo ≤ first ∧ first + m ≤ lo + n := by
  induction n with
  | zero => exact ⟨lo, 0, rfl, le_refl lo, le_refl _⟩
  | succ n ih =>
    obtain ⟨first, m, hfilter, hlo, hhi⟩ := ih (h.mono (le_refl lo) (by omega))
    rw [List.range'_1_concat, List.filter_append, hfilter]
    by_cases hp : p (lo + n)
    · have hlast : [lo + n].filter (fun i => p i) = [lo + n] := by simp [hp]
      rw [hlast]
      by_cases hm : m = 0
      · refine ⟨lo + n, 1, ?_, by omega, by omega⟩
        rw [hm]
        rfl
      · -- all positions from the first one on meet the condition
        have hfirst : p first := by
          have hmem : first ∈ (List.range' lo n).filter (fun i => p i) := by
            rw [hfilter]
            exact List.mem_range'_1.mpr ⟨le_refl first, by omega⟩
          simpa using (List.mem_filter.mp hmem).2
        have hend : first + m = lo + n := by
          by_contra hne
          have hpred : p (first + m) :=
            h first (first + m) (lo + n) hlo (by omega) (by omega) (by omega) hfirst hp
          have hmem : first + m ∈ (List.range' lo n).filter (fun i => p i) :=
            List.mem_filter.mpr ⟨List.mem_range'_1.mpr ⟨by omega, by omega⟩, by simpa using hpred⟩
          rw [hfilter] at hmem
          have hlt := (List.mem_range'_1.mp hmem).2
          omega
        refine ⟨first, m + 1, ?_, hlo, by omega⟩
        rw [List.range'_1_concat, hend]
    · have hlast : [lo + n].filter (fun i => p i) = [] := by simp [hp]
      rw [hlast, List.append_nil]
      exact ⟨first, m, rfl, hlo, by omega⟩

end PvLib
