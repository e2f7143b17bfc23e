import AdvLigoRts.Drv.TRamp
import Mathlib.Algebra.Order.Archimedean.Basic

/-!
# Braking

A ramp that is turned round has to brake first. `brakeStep` is what becomes of the speed and of the
position, both in the direction of the motion: the speed falls by `ddxMax` a call, but not below the
least change of the position.
-/

namespace AdvLigoRts.Drv

/-- A call on the speed and the position in the direction of the motion. -/
def brakeStep (a : ℚ) (p : ℚ × ℚ) : ℚ × ℚ :=
  let v := max (p.1 - a) (minprecision * |p.2|)
  (v, p.2 + v)

/-- The speed comes down to the limit for its change. -/
def Brakes (a u y : ℚ) : Prop := ∃ n, ((brakeStep a)^[n] (u, y)).1 ≤ a

/-- How far a motion comes in `k` calls that loses `a` of its speed with each. -/
def brakeDistance (a u : ℚ) (k : ℕ) : ℚ := k * u - a * (k * (k + 1) / 2)

/-- The calls until the next one would come down to `a`. -/
def brakeCalls (a u : ℚ) : ℕ := ⌈u / a⌉₊ - 2

/-- Where the speed would have come down to `a` the least change is not more than that. -/
def Stops (a u y : ℚ) : Prop :=
  u ≤ a ∨ minprecision * (y + brakeDistance a u (brakeCalls a u)) ≤ a

/-- The speed is low enough, or it is after a first call that may raise it to the least change. -/
def Turns (a u y : ℚ) : Prop :=
  u ≤ a ∨ (0 < a ∧
    Stops a (max (u - a) (minprecision * |y|)) (y + max (u - a) (minprecision * |y|)))

variable {a u y : ℚ} {k : ℕ}

theorem brakes_of_le (h : u ≤ a) : Brakes a u y := ⟨0, h⟩

theorem brakeStep_mk : brakeStep a (u, y) =
    (max (u - a) (minprecision * |y|), y + max (u - a) (minprecision * |y|)) := rfl

theorem brakes_iff_step (h : a < u) :
    Brakes a u y ↔
      Brakes a (max (u - a) (minprecision * |y|)) (y + max (u - a) (minprecision * |y|)) := by
  constructor
  · rintro ⟨n, hn⟩
    cases n with
    | zero => exact absurd hn (not_le.mpr h)
    | succ n => exact ⟨n, hn⟩
  · rintro ⟨n, hn⟩
    exact ⟨n + 1, hn⟩

/-- Beyond zero the least change grows: a motion that has it does not end. -/
theorem not_brakes_of_least (hy : 0 ≤ y) (hleast : a < minprecision * y) (hu : a < u) :
    ¬Brakes a u y := by
  rintro ⟨n, hn⟩
  have hpos := minprecision_pos
  induction n generalizing u y with
  | zero => exact absurd hn (not_le.mpr hu)
  | succ n ih =>
    have hv := le_max_right (u - a) (minprecision * y)
    have hv0 := (mul_nonneg hpos.le hy).trans hv
    rw [Function.iterate_succ_apply, brakeStep_mk, abs_of_nonneg hy] at hn
    generalize max (u - a) (minprecision * y) = v at hn hv hv0
    have hgrow : minprecision * y ≤ minprecision * (y + v) :=
      mul_le_mul_of_nonneg_left (by linarith) hpos.le
    exact ih (by linarith) (by linarith) (by linarith) hn

/-- Without a limit for its change the speed stays. -/
theorem not_brakes_zero (hu : 0 < u) : ¬Brakes 0 u y := by
  rintro ⟨n, hn⟩
  induction n generalizing u y with
  | zero => exact absurd hn (not_le.mpr hu)
  | succ n ih =>
    rw [Function.iterate_succ_apply, brakeStep_mk, sub_zero] at hn
    exact ih (hu.trans_le (le_max_left _ _)) hn

/-! ## Towards zero by the least change -/

/-- Before zero a motion that falls back to the least change keeps it, and it fades out. -/
theorem brakes_of_fading (ha : 0 < a) (hy : y ≤ 0) (hslow : u - a ≤ minprecision * |y|)
    (hsmall : minprecision * (minprecision * |y|) ≤ a) : Brakes a u y := by
  have hpos := minprecision_pos
  have hlt := minprecision_lt_one
  have habs : |y| = -y := abs_of_nonpos hy
  have hy0 := abs_nonneg y
  generalize he : minprecision = e at *
  have hbase : 0 ≤ 1 - e := by linarith
  have hrun : ∀ n, (brakeStep a)^[n + 1] (u, y) =
      (e * ((1 - e) ^ n * |y|), (1 - e) ^ (n + 1) * y) := by
    intro n
    induction n with
    | zero =>
      rw [Function.iterate_one, brakeStep_mk, he, max_eq_right hslow]
      refine Prod.ext ?_ ?_
      · simp
      · simp only [habs, pow_one, zero_add]
        ring
    | succ n ih =>
      have hpow : (1 - e) ^ n ≤ 1 := pow_le_one₀ hbase (by linarith)
      have hpow0 : 0 ≤ (1 - e) ^ n := pow_nonneg hbase n
      have hsq : e * (e * ((1 - e) ^ n * |y|)) ≤ a := by
        calc e * (e * ((1 - e) ^ n * |y|)) = (1 - e) ^ n * (e * (e * |y|)) := by ring
          _ ≤ 1 * (e * (e * |y|)) := by gcongr
          _ ≤ a := by linarith
      have hnext : |(1 - e) ^ (n + 1) * y| = (1 - e) ^ (n + 1) * |y| := by
        rw [abs_mul, abs_of_nonneg (pow_nonneg hbase _)]
      rw [Function.iterate_succ_apply', ih, brakeStep_mk, he, hnext, max_eq_right]
      · refine Prod.ext rfl ?_
        rw [habs]
        ring
      · calc e * ((1 - e) ^ n * |y|) - a
            ≤ e * ((1 - e) ^ n * |y|) - e * (e * ((1 - e) ^ n * |y|)) := by linarith
          _ = e * ((1 - e) ^ (n + 1) * |y|) := by ring
  obtain ⟨n, hn⟩ := exists_pow_lt_of_lt_one (x := a / (e * |y| + 1)) (y := 1 - e)
    (by positivity) (by linarith)
  refine ⟨n + 1, ?_⟩
  rw [hrun]
  rw [lt_div_iff₀ (by positivity)] at hn
  have hpow0 : 0 ≤ (1 - e) ^ n := pow_nonneg hbase n
  calc e * ((1 - e) ^ n * |y|) = (1 - e) ^ n * (e * |y| + 1) - (1 - e) ^ n := by ring
    _ ≤ a := by linarith

/-- Such a motion does not come to zero. -/
theorem brakeDistance_le_of_fading (ha : 0 < a) (hy : y ≤ 0) (hslow : u - a ≤ minprecision * |y|)
    (hsmall : minprecision * (minprecision * |y|) ≤ a) (hlast : (k + 1) * a < u) :
    y + brakeDistance a u k ≤ 0 := by
  have hpos := minprecision_pos
  have habs : |y| = -y := abs_of_nonpos hy
  generalize minprecision = e at *
  have hka : k * a < e * |y| := by linarith
  have hleast : 0 < e * |y| := lt_of_le_of_lt (by positivity) hka
  have hke : k * e ≤ 1 := by
    by_contra hbig
    have hmore : e * |y| < k * e * (e * |y|) := by nlinarith
    have hless : k * e * (e * |y|) ≤ k * a := by
      calc k * e * (e * |y|) = k * (e * (e * |y|)) := by ring
        _ ≤ k * a := by gcongr
    linarith
  have htri : (k : ℚ) ≤ k * (k + 1) / 2 := by
    rcases Nat.eq_zero_or_pos k with rfl | hk
    · simp
    · have hk1 : (1 : ℚ) ≤ k := by exact_mod_cast hk
      nlinarith
  have hdist : brakeDistance a u k ≤ k * (u - a) := by
    have := mul_le_mul_of_nonneg_left htri ha.le
    unfold brakeDistance
    linarith
  have hfar : k * (u - a) ≤ |y| := by
    calc k * (u - a) ≤ k * (e * |y|) := by gcongr
      _ = k * e * |y| := by ring
      _ ≤ 1 * |y| := by gcongr
      _ = |y| := one_mul _
  linarith

/-! ## Where the speed comes down -/

theorem brakeDistance_zero : brakeDistance a u 0 = 0 := by simp [brakeDistance]

theorem brakeDistance_succ :
    brakeDistance a u (k + 1) = u - a + brakeDistance a (u - a) k := by
  unfold brakeDistance
  push_cast
  ring

theorem brakeDistance_nonneg (ha : 0 ≤ a) (hu : k * a ≤ u) : 0 ≤ brakeDistance a u k := by
  induction k generalizing u with
  | zero => exact brakeDistance_zero.ge
  | succ k ih =>
    push_cast at hu
    have hka : 0 ≤ (k : ℚ) * a := by positivity
    have hrest := ih (u := u - a) (by linarith)
    rw [brakeDistance_succ]
    linarith

theorem brakeCalls_bounds (ha : 0 < a) (hu : a < u) :
    (brakeCalls a u + 1) * a < u ∧ u ≤ (brakeCalls a u + 2) * a := by
  have hone : (1 : ℕ) < ⌈u / a⌉₊ := by
    rw [Nat.lt_ceil, Nat.cast_one]
    exact (one_lt_div ha).mpr hu
  have hcalls : ((brakeCalls a u : ℕ) : ℚ) + 2 = (⌈u / a⌉₊ : ℚ) := by
    unfold brakeCalls
    exact_mod_cast (by omega : ⌈u / a⌉₊ - 2 + 2 = ⌈u / a⌉₊)
  have hup : u / a ≤ (⌈u / a⌉₊ : ℚ) := Nat.le_ceil _
  have hdown : (⌈u / a⌉₊ : ℚ) < u / a + 1 := Nat.ceil_lt_add_one (div_nonneg (ha.trans hu).le ha.le)
  constructor
  · rw [← lt_div_iff₀ ha]
    linarith
  · rw [← div_le_iff₀ ha]
    linarith

/-- A motion after a call: before zero it does not fall back to a least change that it does not
keep. -/
def Settled (a u y : ℚ) : Prop :=
  0 ≤ y ∨ minprecision * |y| ≤ u - a ∨ minprecision * (minprecision * |y|) ≤ a

theorem settled_of_step (hleast : minprecision * |y| ≤ u) (hu : 0 < u) :
    Settled a u (y + u) := by
  have hpos := minprecision_pos
  unfold Settled
  generalize minprecision = e at *
  by_cases hzero : 0 ≤ y + u
  · exact Or.inl hzero
  · have hneg : y < 0 := by linarith
    rw [abs_of_neg hneg] at hleast
    rw [abs_of_neg (not_le.mp hzero)]
    by_cases hfast : e * -(y + u) ≤ u - a
    · exact Or.inr (Or.inl hfast)
    · refine Or.inr (Or.inr ?_)
      have hslow : e * -(y + u) ≤ u := by nlinarith
      have hkeep : e * u ≤ a := by linarith
      exact (mul_le_mul_of_nonneg_left hslow hpos.le).trans hkeep

/-- A motion that comes to the least change at once. -/
theorem brakes_iff_of_least (ha : 0 < a) (hsettled : Settled a u y)
    (hleast : u - a < minprecision * |y|) (hlast : (k + 1) * a < u) :
    Brakes a u y ↔ minprecision * (y + brakeDistance a u k) ≤ a := by
  have hpos := minprecision_pos
  have hka : 0 ≤ (k : ℚ) * a := by positivity
  have hu : a < u := by linarith
  rcases le_or_gt 0 y with hy | hy
  · rw [abs_of_nonneg hy] at hleast
    by_cases hsmall : minprecision * y ≤ a
    · have hk : k = 0 := by
        by_contra h0
        have hk1 : (1 : ℚ) ≤ k := by exact_mod_cast Nat.one_le_iff_ne_zero.mpr h0
        have hka1 : 1 * a ≤ k * a := mul_le_mul_of_nonneg_right hk1 ha.le
        linarith
      rw [hk, brakeDistance_zero, add_zero, brakes_iff_step hu, abs_of_nonneg hy,
        max_eq_right hleast.le]
      exact iff_of_true (brakes_of_le hsmall) hsmall
    · have hdist := brakeDistance_nonneg (k := k) (u := u) ha.le (by linarith)
      have hfar : minprecision * y ≤ minprecision * (y + brakeDistance a u k) :=
        mul_le_mul_of_nonneg_left (by linarith) hpos.le
      refine iff_of_false (not_brakes_of_least hy (not_le.mp hsmall) hu) ?_
      exact not_le.mpr ((not_le.mp hsmall).trans_le hfar)
  · have hsmall : minprecision * (minprecision * |y|) ≤ a := by
      rcases hsettled with h | h | h
      · exact absurd h (not_le.mpr hy)
      · exact absurd h (not_le.mpr hleast)
      · exact h
    have hdist := brakeDistance_le_of_fading (k := k) ha hy.le hleast.le hsmall hlast
    have hneg : minprecision * (y + brakeDistance a u k) ≤ 0 :=
      mul_nonpos_of_nonneg_of_nonpos hpos.le hdist
    exact iff_of_true (brakes_of_fading ha hy.le hleast.le hsmall) (hneg.trans ha.le)

theorem brakes_iff_brakeDistance (ha : 0 < a) (hsettled : Settled a u y) (hlast : (k + 1) * a < u)
    (hend : u ≤ (k + 2) * a) :
    Brakes a u y ↔ minprecision * (y + brakeDistance a u k) ≤ a := by
  have hpos := minprecision_pos
  -- the speed falls by `a` until the least change is more, if ever
  induction k generalizing u y with
  | zero =>
    by_cases hleast : minprecision * |y| ≤ u - a
    · have hu : a < u := by simpa using hlast
      have hslow : u - a ≤ a := by
        push_cast at hend
        linarith
      have hfew : minprecision * y ≤ minprecision * |y| :=
        mul_le_mul_of_nonneg_left (le_abs_self y) hpos.le
      rw [brakeDistance_zero, add_zero, brakes_iff_step hu, max_eq_left hleast]
      exact iff_of_true (brakes_of_le hslow) (by linarith)
    · exact brakes_iff_of_least ha hsettled (not_le.mp hleast) hlast
  | succ k ih =>
    by_cases hleast : minprecision * |y| ≤ u - a
    · push_cast at hlast hend
      have hka : 0 ≤ (k : ℚ) * a := by positivity
      have hu : a < u := by linarith
      have hnext := ih (u := u - a) (y := y + (u - a)) (settled_of_step hleast (by linarith))
        (by linarith) (by linarith)
      rw [brakes_iff_step hu, max_eq_left hleast, brakeDistance_succ, ← add_assoc]
      exact hnext
    · exact brakes_iff_of_least ha hsettled (not_le.mp hleast) hlast

theorem brakes_iff_stops (ha : 0 < a) (hsettled : Settled a u y) : Brakes a u y ↔ Stops a u y := by
  unfold Stops
  by_cases hu : u ≤ a
  · exact iff_of_true (brakes_of_le hu) (Or.inl hu)
  · obtain ⟨hlast, hend⟩ := brakeCalls_bounds ha (not_le.mp hu)
    rw [or_iff_right hu]
    exact brakes_iff_brakeDistance ha hsettled hlast hend

/-- A motion comes down to the limit if and only if it does by the numbers. -/
theorem brakes_iff_turns (ha : 0 ≤ a) (hu : 0 < u) : Brakes a u y ↔ Turns a u y := by
  unfold Turns
  by_cases hslow : u ≤ a
  · exact iff_of_true (brakes_of_le hslow) (Or.inl hslow)
  · rw [or_iff_right hslow]
    rcases ha.eq_or_lt with rfl | hpos
    · exact iff_of_false (not_brakes_zero hu) (fun h => lt_irrefl _ h.1)
    · have hfast : 0 < u - a := by linarith [not_le.mp hslow]
      rw [and_iff_right hpos, brakes_iff_step (not_le.mp hslow)]
      exact brakes_iff_stops hpos
        (settled_of_step (le_max_right _ _) (hfast.trans_le (le_max_left _ _)))

end AdvLigoRts.Drv
