import AdvLigoRts.Drv.TRampBraking
import AdvLigoRts.Drv.TRampTheorems

/-!
# Ramps that are turned round

A load while the value moves away from the new request leaves `dxPrev`, so the ramp has to brake
first.
-/

namespace AdvLigoRts.Drv

open PvLib

/-! ## The steps of a ramp that moves away -/

/-- A ramp below its request that moves down. -/
structure Away (V a : ℚ) (s : RampParamState) : Prop where
  isRamping : s.isRamping = true
  dxMax : s.dxMax = V
  ddxMax : s.ddxMax = a
  pos : 0 < V
  nonneg : 0 ≤ a
  dxPrev : s.dxPrev < 0
  below : s.val < s.req

variable {V a : ℚ} {s : RampParamState}

theorem Away.accLimit_eq (h : Away V a s) :
    accLimit a s.dxPrev (slewLimit V (s.req - s.val)) =
      if -s.dxPrev ≤ a then min (min V (s.req - s.val)) (s.dxPrev + a) else s.dxPrev + a := by
  have hleft : 0 < s.req - s.val := by linarith [h.below]
  have hmin : 0 < min V (s.req - s.val) := lt_min h.pos hleft
  have hprev := h.dxPrev
  have hnonneg := h.nonneg
  rw [slewLimit_of_pos h.pos hleft, Drv.accLimit_eq hnonneg]
  split
  · rw [max_eq_right]
    exact le_min (by linarith) (by linarith)
  · rename_i hfast
    rw [min_eq_right (by linarith), max_eq_right (by linarith)]

theorem Away.update_of_le (h : Away V a s) (hslow : -s.dxPrev ≤ a) :
    OnWay V a (rampParamUpdate s) := by
  have hleft : 0 < s.req - s.val := by linarith [h.below]
  have hpos : 0 < a := by linarith [h.dxPrev]
  have hacc := h.accLimit_eq
  rw [if_pos hslow] at hacc
  have hstep : 0 ≤ rampStep s := by
    unfold rampStep
    dsimp only
    rw [h.dxMax, h.ddxMax, hacc]
    have hnonneg : 0 ≤ min (min V (s.req - s.val)) (s.dxPrev + a) :=
      le_min (le_min h.pos.le hleft.le) (by linarith)
    generalize min (min V (s.req - s.val)) (s.dxPrev + a) = x at hnonneg
    rcases hnonneg.eq_or_lt with rfl | hx
    · simp [softLanding, minChange]
    · have hsoft : 0 < softLanding a (s.req - s.val) x := by
        rcases softLanding_bounds h.nonneg hleft hx with heq | ⟨-, hlow, -⟩
        · rwa [heq]
        · linarith
      rcases minChange_bounds s.val hleft hsoft with hz | hz
      · linarith
      · linarith
  have hgo : ¬(rampStep s = 0 ∧ s.dxPrev = 0) := fun h0 => h.dxPrev.ne h0.2
  unfold rampParamUpdate
  dsimp only
  rw [if_pos h.isRamping, abs_of_nonneg hstep, abs_of_pos hleft]
  split
  · exact Or.inr rfl
  · rename_i hfar
    refine Or.inl ⟨⟨decide_eq_true hgo, h.dxMax, h.ddxMax, h.pos, h.nonneg, hstep,
      fun h0 => absurd h0 hpos.ne'⟩, ?_⟩
    show s.val + rampStep s < s.req
    linarith

/-- A ramp that cannot stop yet goes on, with the speed of `brakeStep`, or is at its request with a
jump. -/
theorem Away.update_of_lt (h : Away V a s) (hfast : a < -s.dxPrev) :
    let v := max (-s.dxPrev - a) (minprecision * |s.val|)
    if s.req - s.val ≤ v then (rampParamUpdate s).val = s.req
    else Away V a (rampParamUpdate s) ∧ (rampParamUpdate s).dxPrev = -v ∧
      (rampParamUpdate s).val = s.val - v := by
  intro v
  have hleft : 0 < s.req - s.val := by linarith [h.below]
  have hacc := h.accLimit_eq
  rw [if_neg (not_le.mpr hfast)] at hacc
  have hdown : s.dxPrev + a < 0 := by linarith
  have hsoft : softLanding a (s.req - s.val) (s.dxPrev + a) = s.dxPrev + a := by
    unfold softLanding
    rw [if_neg]
    rintro ⟨-, hsame, -⟩
    exact absurd hsame (not_lt.mpr (mul_nonpos_of_nonpos_of_nonneg hdown.le hleft.le))
  have hv : v = if minprecision * |s.val| > -(s.dxPrev + a) then minprecision * |s.val|
      else -(s.dxPrev + a) := by
    have hfall : -s.dxPrev - a = -(s.dxPrev + a) := by ring
    unfold v
    rw [hfall]
    split
    · rename_i hleast
      exact max_eq_right hleast.le
    · rename_i hleast
      exact max_eq_left (not_lt.mp hleast)
  have hstep : rampStep s = if minprecision * |s.val| > s.req - s.val then s.req - s.val
      else -v := by
    unfold rampStep
    dsimp only
    rw [h.dxMax, h.ddxMax, hacc, hsoft, minChange, if_pos hdown.ne, abs_of_pos hleft,
      abs_of_neg hdown, mul_comm |s.val|, if_neg (not_lt.mpr hdown.le), hv]
    split
    · rfl
    · split
      · rfl
      · rw [neg_neg]
  have hpos : 0 < v := lt_of_lt_of_le (by linarith) (le_max_left _ _)
  have hleast : minprecision * |s.val| ≤ v := le_max_right _ _
  have hgo : ¬(rampStep s = 0 ∧ s.dxPrev = 0) := fun h0 => h.dxPrev.ne h0.2
  by_cases hjump : minprecision * |s.val| > s.req - s.val
  · rw [if_pos hjump] at hstep
    rw [if_pos (by linarith)]
    unfold rampParamUpdate
    simp only [h.isRamping, hstep, ge_iff_le, le_refl, if_true]
  · rw [if_neg hjump] at hstep
    unfold rampParamUpdate
    dsimp only
    rw [if_pos h.isRamping, hstep, abs_neg, abs_of_pos hpos, abs_of_pos hleft]
    split
    · rfl
    · rename_i hfar
      rw [hstep] at hgo
      refine ⟨⟨decide_eq_true hgo, h.dxMax, h.ddxMax, h.pos, h.nonneg, ?_, ?_⟩, rfl, ?_⟩
      · show -v < 0
        linarith
      · show s.val + -v < s.req
        linarith [h.below]
      · show s.val + -v = s.val - v
        ring

/-- A ramp that moves away and is too far from its request to jump there. -/
structure Far (V a : ℚ) (s : RampParamState) : Prop extends Away V a s where
  speed : -s.dxPrev < s.req - s.val
  least : minprecision * |s.val| < s.req - s.val

theorem Away.far_update (h : Away V a s) (hfast : a < -s.dxPrev)
    (hfar : max (-s.dxPrev - a) (minprecision * |s.val|) < s.req - s.val) :
    Far V a (rampParamUpdate s) ∧
      (-(rampParamUpdate s).dxPrev = max (-s.dxPrev - a) (minprecision * |s.val|)) ∧
      -(rampParamUpdate s).val = -s.val + max (-s.dxPrev - a) (minprecision * |s.val|) := by
  have hstep := h.update_of_lt hfast
  have hleast : minprecision * |s.val| ≤ max (-s.dxPrev - a) (minprecision * |s.val|) :=
    le_max_right _ _
  have hspeed : 0 < max (-s.dxPrev - a) (minprecision * |s.val|) :=
    lt_of_lt_of_le (by linarith) (le_max_left _ _)
  have hpos := minprecision_pos
  have hlt := minprecision_lt_one
  generalize max (-s.dxPrev - a) (minprecision * |s.val|) = v at hstep hfar hleast hspeed
  dsimp only at hstep
  rw [if_neg (not_le.mpr hfar)] at hstep
  obtain ⟨haway, hprev, hval⟩ := hstep
  refine ⟨⟨haway, ?_, ?_⟩, by rw [hprev, neg_neg], by rw [hval]; ring⟩
  · rw [hprev, hval, rampParamUpdate_req]
    linarith
  · have habs : |s.val - v| ≤ |s.val| + v := by
      have := abs_sub s.val v
      rwa [abs_of_pos hspeed] at this
    rw [hval, rampParamUpdate_req]
    calc minprecision * |s.val - v| ≤ minprecision * (|s.val| + v) := by gcongr
      _ = minprecision * |s.val| + minprecision * v := by ring
      _ ≤ v + minprecision * v := by linarith
      _ ≤ v + 1 * v := by gcongr
      _ < s.req - (s.val - v) := by linarith

theorem Far.update (h : Far V a s) (hfast : a < -s.dxPrev) :
    Far V a (rampParamUpdate s) ∧
      (-(rampParamUpdate s).dxPrev = max (-s.dxPrev - a) (minprecision * |s.val|)) ∧
      -(rampParamUpdate s).val = -s.val + max (-s.dxPrev - a) (minprecision * |s.val|) := by
  have hspeed := h.speed
  have hnonneg := h.nonneg
  exact h.toAway.far_update hfast (max_lt (by linarith) h.least)

theorem Far.arrives_of_brakes (h : Far V a s) (hbrakes : Brakes a (-s.dxPrev) (-s.val)) :
    Arrives s := by
  obtain ⟨n, hn⟩ := hbrakes
  induction n generalizing s with
  | zero => exact arrives_update_iff.mp (h.toAway.update_of_le hn).arrives
  | succ n ih =>
    by_cases hslow : -s.dxPrev ≤ a
    · exact arrives_update_iff.mp (h.toAway.update_of_le hslow).arrives
    · obtain ⟨hnext, hprev, hval⟩ := h.update (not_le.mp hslow)
      refine arrives_update_iff.mp (ih hnext ?_)
      rw [hprev, hval]
      rw [Function.iterate_succ_apply, brakeStep_mk, abs_neg] at hn
      exact hn

/-- A ramp that does not brake stays below its request. -/
theorem Far.not_arrives (h : Far V a s) (hbrakes : ¬Brakes a (-s.dxPrev) (-s.val)) :
    ¬Arrives s := by
  have hkeep : ∀ t : RampParamState, Far V a t ∧ ¬Brakes a (-t.dxPrev) (-t.val) →
      Far V a (rampParamUpdate t) ∧
        ¬Brakes a (-(rampParamUpdate t).dxPrev) (-(rampParamUpdate t).val) := by
    rintro t ⟨ht, hgo⟩
    have hfast : a < -t.dxPrev := not_le.mp fun hslow => hgo (brakes_of_le hslow)
    obtain ⟨hnext, hprev, hval⟩ := ht.update hfast
    refine ⟨hnext, ?_⟩
    rw [brakes_iff_step hfast, abs_neg] at hgo
    rwa [hprev, hval]
  rintro ⟨N, hN⟩
  have hfar := (goal_iterate_of_stable hkeep ⟨h, hbrakes⟩ N).1
  have hbelow := hfar.below
  rw [hN N le_rfl, iterate_req] at hbelow
  exact lt_irrefl _ hbelow

/-- A ramp that moves away arrives if and only if its request is within a step or it brakes. -/
theorem Away.arrives_iff (h : Away V a s) :
    Arrives s ↔ s.req - s.val ≤ max (-s.dxPrev - a) (minprecision * |s.val|) ∨
      Turns a (-s.dxPrev) (-s.val) := by
  rw [← brakes_iff_turns h.nonneg (neg_pos.mpr h.dxPrev)]
  by_cases hslow : -s.dxPrev ≤ a
  · exact iff_of_true (arrives_update_iff.mp (h.update_of_le hslow).arrives)
      (Or.inr (brakes_of_le hslow))
  · have hfast := not_le.mp hslow
    by_cases hjump : s.req - s.val ≤ max (-s.dxPrev - a) (minprecision * |s.val|)
    · have hstep := h.update_of_lt hfast
      dsimp only at hstep
      rw [if_pos hjump] at hstep
      exact iff_of_true (arrives_of_val_eq (n := 1) hstep) (Or.inl hjump)
    · obtain ⟨hfar, hprev, hval⟩ := h.far_update hfast (not_le.mp hjump)
      have hback := hfar.arrives_of_brakes
      have hstay := hfar.not_arrives
      rw [hprev, hval] at hback hstay
      rw [or_iff_right hjump, ← arrives_update_iff, brakes_iff_step hfast, abs_neg]
      exact ⟨fun harrive => by_contra fun hgo => hstay hgo harrive, hback⟩

/-! ## Loads of a running ramp -/

/-- What `RampParamLoad` and `RampParamUpdate` make of `RampParamInit`. -/
inductive RampReached (feRate : ℤ) : RampParamState → Prop
  | init (xInit : ℚ) : RampReached feRate (rampParamInit xInit feRate)
  | load {s : RampParamState} (h : RampReached feRate s) (req tRamp : ℚ) :
      RampReached feRate (rampParamLoad s req tRamp feRate)
  | update {s : RampParamState} (h : RampReached feRate s) : RampReached feRate (rampParamUpdate s)

/-- A ramp has the numbers of `RampParamInit`, limits, and no step when it rests. -/
structure RampParamState.Sound (s : RampParamState) (feRate : ℤ) : Prop
    extends s.Built feRate where
  limited : s.Limited
  rests : s.isRamping = false → s.dxPrev = 0

variable {feRate : ℤ} {req tRamp : ℚ}

theorem RampParamState.Built.update (h : s.Built feRate) : (rampParamUpdate s).Built feRate := by
  unfold rampParamUpdate
  dsimp only
  split_ifs <;> exact ⟨h.softRatio, h.softVel, h.minAccCycles⟩

/-- A ramp ends with a step of 0 after a step of 0. -/
theorem dxPrev_update_of_rest (hrests : s.isRamping = false → s.dxPrev = 0)
    (h : (rampParamUpdate s).isRamping = false) : (rampParamUpdate s).dxPrev = 0 := by
  by_cases hgo : s.isRamping = true
  · unfold rampParamUpdate at h ⊢
    simp only [hgo, if_true] at h ⊢
    split at h
    · rename_i harrive
      rw [if_pos harrive]
      have hzero : rampStep s = 0 := (of_decide_eq_false h |> not_not.mp).1
      rw [hzero, abs_zero] at harrive
      exact abs_nonpos_iff.mp harrive
    · rename_i hfar
      rw [if_neg hfar]
      exact (of_decide_eq_false h |> not_not.mp).1
  · have hrest := Bool.eq_false_iff.mpr hgo
    unfold rampParamUpdate
    rw [if_neg hgo]
    exact hrests hrest

theorem RampParamState.Sound.load (h : s.Sound feRate) (hrate : 1 ≤ feRate) :
    (rampParamLoad s req tRamp feRate).Sound feRate := by
  by_cases ht : tRamp ≤ 0
  · unfold rampParamLoad
    rw [if_pos ht]
    exact ⟨⟨h.softRatio, h.softVel, h.minAccCycles⟩, ⟨le_rfl, le_rfl⟩, fun _ => rfl⟩
  · by_cases hgo : s.isRamping = true ∨ req ≠ s.val
    · rw [rampParamLoad_eq req h.toBuilt (not_le.mp ht) hgo]
      refine ⟨⟨h.softRatio, h.softVel, h.minAccCycles⟩, ?_, fun hrest => ?_⟩
      · exact ⟨loadDxMax_nonneg s req hrate (not_le.mp ht),
          loadDdxMax_nonneg s req hrate (not_le.mp ht)⟩
      · simp at hrest
    · unfold rampParamLoad
      rw [if_neg ht, if_neg hgo]
      exact h

theorem RampReached.sound (h : RampReached feRate s) (hrate : 1 ≤ feRate) : s.Sound feRate := by
  induction h with
  | init xInit => exact ⟨⟨rfl, rfl, rfl⟩, ⟨le_rfl, le_rfl⟩, fun _ => rfl⟩
  | load _ req tRamp ih => exact ih.load hrate
  | update _ ih =>
    exact ⟨ih.toBuilt.update, ih.limited.update, dxPrev_update_of_rest ih.rests⟩

/-- A load turns a ramp round that moves away from the new request. -/
def Reversal (s : RampParamState) (req tRamp : ℚ) : Prop :=
  0 < tRamp ∧ s.isRamping = true ∧ (req - s.val) * s.dxPrev < 0

/-- The position in the direction of the motion. -/
def ahead (s : RampParamState) : ℚ := if s.dxPrev < 0 then -s.val else s.val

/-- The ramp jumps to its request with a step, or it comes down to the limit for the change of its
step. -/
def CanTurn (s : RampParamState) (req a : ℚ) : Prop :=
  |req - s.val| ≤ max (|s.dxPrev| - a) (minprecision * |s.val|) ∨ Turns a |s.dxPrev| (ahead s)

theorem loadDdxMax_eq_zero (hrate : 1 ≤ feRate) (hgo : s.isRamping = true)
    (h : loadDdxMax s req tRamp feRate = 0) : loadDxMax s req tRamp feRate = -s.dxPrev := by
  have hrate' : (0 : ℚ) < feRate := by exact_mod_cast (by omega : 0 < feRate)
  have hcycles : (5 / 100 * feRate : ℚ) ≠ 0 := by positivity
  unfold loadDdxMax at h
  rw [if_pos hgo, div_eq_zero_iff, or_iff_left hcycles, abs_eq_zero] at h
  linarith

theorem arrives_load_above_iff (h : s.Sound feRate) (hrate : 1 ≤ feRate)
    (hgo : s.isRamping = true) (ht : 0 < tRamp) (hreq : s.val < req) :
    Arrives (rampParamLoad s req tRamp feRate) ↔
      (Reversal s req tRamp → CanTurn s req (loadDdxMax s req tRamp feRate)) := by
  have hmax := loadDxMax_pos (s := s) hrate ht hreq.ne'
  have hacc := loadDdxMax_nonneg s req hrate ht
  have hleft : 0 < req - s.val := by linarith
  have hload := rampParamLoad_eq req h.toBuilt ht (Or.inl hgo)
  rcases le_or_gt 0 s.dxPrev with hprev | hprev
  · have hno : ¬Reversal s req tRamp := fun hr =>
      absurd hr.2.2 (not_lt.mpr (mul_nonneg hleft.le hprev))
    refine iff_of_true ?_ (fun hr => absurd hr hno)
    refine OnWay.arrives (V := loadDxMax s req tRamp feRate)
      (a := loadDdxMax s req tRamp feRate) (Or.inl ⟨?_, ?_⟩)
    · rw [hload]
      refine ⟨rfl, rfl, rfl, hmax, hacc, hprev, fun h0 => ?_⟩
      have hturn := loadDdxMax_eq_zero hrate hgo h0
      linarith
    · rw [hload]
      exact hreq
  · have hyes : Reversal s req tRamp := ⟨ht, hgo, mul_neg_of_pos_of_neg hleft hprev⟩
    have haway : Away (loadDxMax s req tRamp feRate) (loadDdxMax s req tRamp feRate)
        (rampParamLoad s req tRamp feRate) := by
      rw [hload]
      exact ⟨rfl, rfl, rfl, hmax, hacc, hprev, hreq⟩
    rw [forall_prop_of_true hyes, haway.arrives_iff, CanTurn, ahead, if_pos hprev,
      abs_of_pos hleft, abs_of_neg hprev, hload]

theorem arrives_load_below_iff (h : s.Sound feRate) (hrate : 1 ≤ feRate)
    (hgo : s.isRamping = true) (ht : 0 < tRamp) (hreq : req < s.val) :
    Arrives (rampParamLoad s req tRamp feRate) ↔
      (Reversal s req tRamp → CanTurn s req (loadDdxMax s req tRamp feRate)) := by
  have hmax := loadDxMax_pos (s := s) hrate ht hreq.ne
  have hacc := loadDdxMax_nonneg s req hrate ht
  have hleft : req - s.val < 0 := by linarith
  have hload := rampParamLoad_eq req h.toBuilt ht (Or.inl hgo)
  have hlimited : (rampParamLoad s req tRamp feRate).Limited := (h.load hrate).limited
  rw [← arrives_neg_iff hlimited]
  rcases le_or_gt s.dxPrev 0 with hprev | hprev
  · have hno : ¬Reversal s req tRamp := fun hr =>
      absurd hr.2.2 (not_lt.mpr (mul_nonneg_of_nonpos_of_nonpos hleft.le hprev))
    refine iff_of_true ?_ (fun hr => absurd hr hno)
    refine OnWay.arrives (V := loadDxMax s req tRamp feRate)
      (a := loadDdxMax s req tRamp feRate) (Or.inl ⟨?_, ?_⟩)
    · rw [hload]
      exact ⟨rfl, rfl, rfl, hmax, hacc, neg_nonneg.mpr hprev,
        fun h0 => (loadDdxMax_eq_zero hrate hgo h0).le⟩
    · rw [hload]
      exact neg_lt_neg hreq
  · have hyes : Reversal s req tRamp := ⟨ht, hgo, mul_neg_of_neg_of_pos hleft hprev⟩
    have haway : Away (loadDxMax s req tRamp feRate) (loadDdxMax s req tRamp feRate)
        (rampParamLoad s req tRamp feRate).neg := by
      rw [hload]
      exact ⟨rfl, rfl, rfl, hmax, hacc, neg_neg_of_pos hprev, neg_lt_neg hreq⟩
    have hdist : -req - -s.val = -(req - s.val) := by ring
    rw [forall_prop_of_true hyes, haway.arrives_iff, CanTurn, ahead, if_neg (not_lt.mpr hprev.le),
      abs_of_neg hleft, abs_of_pos hprev, hload]
    simp only [RampParamState.neg, neg_neg, abs_neg, hdist]

theorem load_eq_of_still (ht : 0 < tRamp) (hrest : s.isRamping = false) (hreq : req = s.val) :
    rampParamLoad s req tRamp feRate = s := by
  unfold rampParamLoad
  rw [if_neg (not_le.mpr ht), if_neg]
  simp [hrest, hreq]

variable (req tRamp) in
theorem rampParamLoad_req (h : s.Sound feRate) (hgo : s.isRamping = true ∨ req ≠ s.val) :
    (rampParamLoad s req tRamp feRate).req = req := by
  by_cases ht : tRamp ≤ 0
  · unfold rampParamLoad
    rw [if_pos ht]
  · rw [rampParamLoad_eq req h.toBuilt (not_le.mp ht) hgo]

variable (req tRamp) in
theorem arrives_load_iff (h : s.Sound feRate) (hrate : 1 ≤ feRate)
    (hgo : s.isRamping = true ∨ req ≠ s.val) :
    Arrives (rampParamLoad s req tRamp feRate) ↔
      (Reversal s req tRamp → CanTurn s req (loadDdxMax s req tRamp feRate)) := by
  have hnone : ∀ P : Prop, ¬Reversal s req tRamp → (Reversal s req tRamp → P) :=
    fun P hno hr => absurd hr hno
  by_cases ht : tRamp ≤ 0
  · refine iff_of_true (arrives_of_val_eq (n := 0) ?_)
      (hnone _ fun hr => absurd hr.1 (not_lt.mpr ht))
    rw [rampParamLoad_req req tRamp h hgo]
    unfold rampParamLoad
    rw [if_pos ht]
    rfl
  · have ht' := not_le.mp ht
    by_cases hrun : s.isRamping = true
    · rcases lt_trichotomy req s.val with hlt | heq | hgt
      · exact arrives_load_below_iff h hrate hrun ht' hlt
      · refine iff_of_true (arrives_of_val_eq (n := 0) ?_) (hnone _ fun hr => ?_)
        · rw [rampParamLoad_eq req h.toBuilt ht' hgo]
          exact heq.symm
        · have hmoves := hr.2.2
          rw [heq, sub_self, zero_mul] at hmoves
          exact lt_irrefl _ hmoves
      · exact arrives_load_above_iff h hrate hrun ht' hgt
    · have hrest := Bool.eq_false_iff.mpr hrun
      have hreq := hgo.resolve_left hrun
      exact iff_of_true
        (onWay_load h.toBuilt hrate hrest (h.rests hrest) ht' hreq).arrives
        (hnone _ fun hr => hrun hr.2.1)

/-- After a load, and calls without another, a ramp comes to the request and stays there if and
only if the load does not turn it round, or it can turn. -/
theorem load_arrives_iff (h : RampReached feRate s) (hrate : 1 ≤ feRate) (req tRamp : ℚ) :
    (∃ N, ∀ n ≥ N, (rampParamUpdate^[n] (rampParamLoad s req tRamp feRate)).val = req) ↔
      (Reversal s req tRamp → CanTurn s req (loadDdxMax s req tRamp feRate)) := by
  have hsound := h.sound hrate
  by_cases hgo : s.isRamping = true ∨ req ≠ s.val
  · rw [← arrives_load_iff req tRamp hsound hrate hgo]
    unfold Arrives
    rw [rampParamLoad_req req tRamp hsound hgo]
  · rw [not_or, not_not] at hgo
    have hrest := Bool.eq_false_iff.mpr hgo.1
    refine iff_of_true ⟨0, fun n _ => ?_⟩ (fun hr => absurd hr.2.1 hgo.1)
    by_cases ht : tRamp ≤ 0
    · have harrived :
          (rampParamLoad s req tRamp feRate).val = (rampParamLoad s req tRamp feRate).req ∧
            (rampParamLoad s req tRamp feRate).req = req := by
        unfold rampParamLoad
        rw [if_pos ht]
        exact ⟨rfl, rfl⟩
      have hstay : ∀ t : RampParamState, t.val = t.req →
          (rampParamUpdate t).val = (rampParamUpdate t).req := fun _ => update_of_arrived
      rw [goal_iterate_of_stable hstay harrived.1 n, iterate_req, harrived.2]
    · have hfixed : rampParamUpdate s = s := by
        unfold rampParamUpdate
        rw [if_neg hgo.1]
      rw [load_eq_of_still (not_le.mp ht) hrest hgo.2, Function.iterate_fixed hfixed]
      exact hgo.2.symm

/-- A ramp to -1 within a second, after the first cycle. -/
def rampStarted : RampParamState :=
  rampParamUpdate (rampParamLoad (rampParamInit 0 2048) (-1) 1 2048)

theorem rampStarted_reached : RampReached 2048 rampStarted :=
  RampReached.update (RampReached.load (RampReached.init 0) (-1) 1)

theorem rampStarted_moves : rampStarted.isRamping = true ∧ rampStarted.val = -17 / 13107200 ∧
    rampStarted.dxPrev = -17 / 13107200 := by
  decide +kernel

theorem load_arrives_iff_started :
    ∃ N, ∀ n ≥ N, (rampParamUpdate^[n] (rampParamLoad rampStarted 1 1 2048)).val = 1 :=
  (load_arrives_iff rampStarted_reached (by decide) 1 1).mpr fun _ =>
    Or.inr (Or.inl (by decide +kernel))

/-- A request on the other side, so far that the new limit for the step is the negative of the old
step: the value leaves it for ever, with that step. -/
theorem reversal_runs_away : RampReached 2048 rampStarted ∧
    ¬∃ N, ∀ n ≥ N, (rampParamUpdate^[n]
      (rampParamLoad rampStarted (13107183 / 13107200) 512 2048)).val = 13107183 / 13107200 := by
  have hsound := rampStarted_reached.sound (by decide)
  obtain ⟨hgo, hval, hprev⟩ := rampStarted_moves
  have hlimit : loadDdxMax rampStarted (13107183 / 13107200) 512 2048 = 0 := by decide +kernel
  have hreversal : Reversal rampStarted (13107183 / 13107200) 512 := by
    refine ⟨by norm_num, hgo, ?_⟩
    rw [hval, hprev]
    norm_num
  have hstuck : ¬CanTurn rampStarted (13107183 / 13107200) 0 := by
    rw [CanTurn, Turns, hval, hprev]
    norm_num [minprecision]
  have hreq := rampParamLoad_req (13107183 / 13107200) 512 hsound (Or.inl hgo)
  have harrives := arrives_load_iff (13107183 / 13107200) 512 hsound (by decide) (Or.inl hgo)
  rw [hlimit, Arrives, hreq] at harrives
  exact ⟨rampStarted_reached, fun h => hstuck (harrives.mp h hreversal)⟩

end AdvLigoRts.Drv
