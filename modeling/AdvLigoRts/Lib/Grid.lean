import Mathlib.Data.Nat.SuccPred
import Mathlib.Order.SuccPred.IntervalSucc
import Mathlib.Tactic.Ring
import Mathlib.Data.Int.ConditionallyCompleteOrder

/-!
# Points of a grid between times

The grid from `first` with the mesh `k`, and the intervals `(t i, t (i + 1)]` of a strictly
increasing sequence of times: with intervals no longer than the mesh, no point is lost and no two
points fall into one interval.
-/

namespace PvLib

variable {first a b : ℤ} {k : ℕ}

/-- A point of the grid lies in `(a, b]`. -/
def GridPoint (first : ℤ) (k : ℕ) (a b : ℤ) : Prop :=
  ∃ j : ℕ, a < first + j * k ∧ first + j * k ≤ b

/-- The last point up to `b` decides. -/
theorem gridPoint_iff_ediv (hk : 1 ≤ k) (hfirst : first ≤ b) :
    GridPoint first k a b ↔ a < (b - first) / k * k + first := by
  have hpos : (0 : ℤ) < k := by omega
  constructor
  · rintro ⟨j, hlt, hle⟩
    have hj : (j : ℤ) ≤ (b - first) / k := by
      apply (Int.le_ediv_iff_mul_le hpos).mpr
      omega
    have hmul := Int.mul_le_mul_of_nonneg_right hj hpos.le
    omega
  · intro hlt
    have hquot : 0 ≤ (b - first) / k := Int.ediv_nonneg (by omega) hpos.le
    have hback : (((b - first) / k).toNat : ℤ) = (b - first) / k := Int.toNat_of_nonneg hquot
    have hle := Int.ediv_mul_le (b - first) hpos.ne'
    refine ⟨((b - first) / k).toNat, ?_, ?_⟩
    · rw [hback]
      omega
    · rw [hback]
      omega

/-- An interval of length 1. -/
theorem gridPoint_succ_iff (hfirst : first ≤ a + 1) :
    GridPoint first k a (a + 1) ↔ (k : ℤ) ∣ a + 1 - first := by
  constructor
  · rintro ⟨j, hlt, hle⟩
    refine ⟨j, ?_⟩
    rw [mul_comm]
    omega
  · rintro ⟨q, hq⟩
    by_cases hzero : k = 0
    · subst hzero
      refine ⟨0, ?_, ?_⟩
      · simp only [Nat.cast_zero, mul_zero, zero_mul] at hq ⊢
        omega
      · simp only [Nat.cast_zero, mul_zero, zero_mul] at hq ⊢
        omega
    · have hnonneg : 0 ≤ q := by
        by_contra hneg
        have hmul := Int.mul_le_mul_of_nonneg_left (show q ≤ -1 by omega) (Int.natCast_nonneg k)
        omega
      have hback : (q.toNat : ℤ) = q := Int.toNat_of_nonneg hnonneg
      have hcomm : (k : ℤ) * q = q * k := mul_comm _ _
      refine ⟨q.toNat, ?_, ?_⟩
      · rw [hback]
        omega
      · rw [hback]
        omega

/-- In an interval no longer than the mesh there is one point at most. -/
theorem gridPoint_unique (hshort : b - a ≤ k) {i j : ℕ} (hi : a < first + i * k)
    (hi' : first + i * k ≤ b) (hj : a < first + j * k) (hj' : first + j * k ≤ b) : i = j := by
  have hnot {i j : ℕ} (hi : a < first + i * k) (hj' : first + j * k ≤ b) : ¬ i < j := by
    intro hlt
    have hmul := Int.mul_le_mul_of_nonneg_right (show (i : ℤ) + 1 ≤ j by omega)
      (Int.natCast_nonneg k)
    have hexpand : ((i : ℤ) + 1) * k = i * k + k := by ring
    omega
  have hle := Nat.not_lt.mp (hnot hi hj')
  have hge := Nat.not_lt.mp (hnot hj hi')
  omega

section Times

variable {t : ℕ → ℤ}

/-- A strictly increasing sequence of times has no bound. -/
theorem not_bddAbove_of_strictMono (ht : StrictMono t) : ¬ BddAbove (Set.range t) := by
  have hgrow (i : ℕ) : t 0 + i ≤ t i := by
    induction i with
    | zero => simp
    | succ i ih =>
      have hnext : t i < t (i + 1) := ht (Nat.lt_succ_self i)
      push_cast
      omega
  rintro ⟨bound, hbound⟩
  have hle := hbound (Set.mem_range_self (bound - t 0 + 1).toNat)
  have hlt := hgrow (bound - t 0 + 1).toNat
  have hself := Int.self_le_toNat (bound - t 0 + 1)
  omega

/-- Each point after the first time falls into just one interval. -/
theorem existsUnique_interval (ht : StrictMono t) {x : ℤ} (hx : t 0 < x) :
    ∃! i, t i < x ∧ x ≤ t (i + 1) := by
  have hcover := iUnion_Ioc_map_succ_eq_Ioi (fun i => ht.monotone (Nat.zero_le i))
    (not_bddAbove_of_strictMono ht)
  have hmem : x ∈ ⋃ i, Set.Ioc (t i) (t (Order.succ i)) := by
    rw [hcover]
    exact hx
  obtain ⟨i, hi⟩ := Set.mem_iUnion.mp hmem
  refine ⟨i, hi, ?_⟩
  intro j hj
  by_contra hne
  have hdisjoint := ht.monotone.pairwise_disjoint_on_Ioc_succ hne
  exact Set.disjoint_left.mp hdisjoint hj hi

/-- Times without a gap. -/
theorem add_of_succ (hnext : ∀ i, t (i + 1) = t i + 1) (i m : ℕ) : t (i + m) = t i + m := by
  induction m with
  | zero => simp
  | succ m ih =>
    rw [← Nat.add_assoc, hnext, ih]
    push_cast
    ring

/-- Times without a gap: after a point comes the next one, `k` times later, and none between. -/
theorem gridPoint_period (hnext : ∀ i, t (i + 1) = t i + 1) (hfirst : first ≤ t 0)
    {i : ℕ} (h : GridPoint first k (t i) (t (i + 1))) :
    GridPoint first k (t (i + k)) (t (i + k + 1)) ∧
      ∀ m, 0 < m → m < k → ¬ GridPoint first k (t (i + m)) (t (i + m + 1)) := by
  have hadd := add_of_succ hnext
  have hiff (m : ℕ) : GridPoint first k (t (i + m)) (t (i + m + 1)) ↔
      (k : ℤ) ∣ t i + 1 - first + m := by
    have hstart := hadd 0 (i + m)
    rw [Nat.zero_add] at hstart
    rw [hnext, gridPoint_succ_iff (by omega), hadd]
    rw [show t i + m + 1 - first = t i + 1 - first + m by ring]
  have hdvd : (k : ℤ) ∣ t i + 1 - first := by
    have hzero := (hiff 0).mp h
    rwa [Nat.cast_zero, add_zero] at hzero
  constructor
  · rw [hiff]
    exact Int.dvd_add hdvd (Int.dvd_refl _)
  · intro m hpos hlt hpoint
    have hm : (k : ℤ) ∣ m := (Int.dvd_add_right hdvd).mp ((hiff m).mp hpoint)
    exact absurd (Nat.le_of_dvd hpos (Int.natCast_dvd_natCast.mp hm)) (by omega)

/-- Times without a gap: the first point comes within the first `k` intervals. -/
theorem gridPoint_within (hk : 1 ≤ k) (hnext : ∀ i, t (i + 1) = t i + 1) (hfirst : first ≤ t 0) :
    ∃ i < k, GridPoint first k (t i) (t (i + 1)) := by
  have hadd (i : ℕ) : t i = t 0 + i := by
    rw [← add_of_succ hnext, Nat.zero_add]
  have hpos : (0 : ℤ) < k := by omega
  have hlo := Int.emod_nonneg (first - t 0 - 1) hpos.ne'
  have hhi := Int.emod_lt_of_pos (first - t 0 - 1) hpos
  have hback : (((first - t 0 - 1) % k).toNat : ℤ) = (first - t 0 - 1) % k :=
    Int.toNat_of_nonneg hlo
  refine ⟨((first - t 0 - 1) % k).toNat, by omega, ?_⟩
  rw [hnext, gridPoint_succ_iff (by rw [hadd]; omega), hadd, hback]
  refine ⟨-((first - t 0 - 1) / k), ?_⟩
  have hsum := Int.emod_add_mul_ediv (first - t 0 - 1) k
  rw [Int.mul_neg]
  omega

end Times

end PvLib
