import Mathlib.Algebra.Order.Field.Basic
import Mathlib.Tactic.Linarith
import Mathlib.Tactic.FieldSimp
import Mathlib.Tactic.Ring

/-!
# `tRamp.c`

A gain or an offset goes to a requested value in steps: `RampParamLoad` sets a limit for the step
and one for its change, `RampParamUpdate` makes a step. The numbers are exact.
-/

namespace AdvLigoRts.Drv

/-- `RampParamState`. -/
structure RampParamState where
  isRamping : Bool
  val : ℚ
  dxPrev : ℚ
  req : ℚ
  dxMax : ℚ
  ddxMax : ℚ
  softRatio : ℚ
  softVel : ℚ
  minAccCycles : ℚ

def rampParamInit (xInit : ℚ) (feRate : ℤ) : RampParamState where
  isRamping := false
  val := xInit
  dxPrev := 0
  req := xInit
  dxMax := 0
  ddxMax := 0
  softRatio := 4
  softVel := 136 / 100
  minAccCycles := 5 / 100 * feRate

def rampParamLoad (state : RampParamState) (req tRamp : ℚ) (feRate : ℤ) : RampParamState :=
  if tRamp ≤ 0 then { state with
    isRamping := false, val := req, dxPrev := 0, req := req, dxMax := 0, ddxMax := 0 }
  else if state.isRamping ∨ req ≠ state.val then
    let invNRamp := 1 / (feRate * tRamp)
    let dxMax := state.softVel * |req - state.val| * invNRamp
    let ddxMax := state.softRatio * dxMax * invNRamp
    let ddxMax := if state.isRamping then |dxMax + state.dxPrev| / state.minAccCycles else ddxMax
    { state with req := req, dxMax := dxMax, ddxMax := ddxMax, isRamping := true }
  else state

def slewLimit (dxMax dxReq : ℚ) : ℚ :=
  if dxReq > dxMax then dxMax else if dxReq < -dxMax then -dxMax else dxReq

/-- "apply accelleration limit" -/
def accLimit (ddxMax dxPrev dxNow : ℚ) : ℚ :=
  let ddxNow := dxNow - dxPrev
  if ddxNow > ddxMax then dxPrev + ddxMax
  else if ddxNow < -ddxMax then dxPrev - ddxMax
  else dxNow

/-- "enforce soft landing". -/
def softLanding (ddxMax dxReq dxNow : ℚ) : ℚ :=
  if |dxNow| > ddxMax ∧ dxNow * dxReq > 0 ∧ ddxMax ≠ 0 then
    let nStop := |dxNow| / ddxMax
    let dxStop := dxNow * (3 / 2 + 1 / 2 * nStop)
    let dxLand := dxNow + (dxReq - dxStop) / (3 / 2 + nStop)
    if |dxLand| < |dxNow| then dxLand else dxNow
  else dxNow

def minprecision : ℚ := 11103 / 100000000000000000000

/-- The step is at least `minchange`, or all that is left. -/
def minChange (val dxReq dxNow : ℚ) : ℚ :=
  let minchange := |val| * minprecision
  if dxNow ≠ 0 then
    if minchange > |dxReq| then dxReq
    else if minchange > |dxNow| then if dxNow > 0 then minchange else -minchange
    else dxNow
  else dxNow

/-- The step of `RampParamUpdate`, before it is compared with what is left. -/
def rampStep (state : RampParamState) : ℚ :=
  let dxReq := state.req - state.val
  let dxNow := slewLimit state.dxMax dxReq
  let dxNow := accLimit state.ddxMax state.dxPrev dxNow
  let dxNow := softLanding state.ddxMax dxReq dxNow
  minChange state.val dxReq dxNow

/-- `RampParamUpdate`; it returns `val`. -/
def rampParamUpdate (state : RampParamState) : RampParamState :=
  if state.isRamping then
    let dxReq := state.req - state.val
    let dxNow := rampStep state
    let isRamping : Bool := ¬(dxNow = 0 ∧ state.dxPrev = 0)
    if |dxNow| ≥ |dxReq| then
      { state with isRamping := isRamping, val := state.req, dxPrev := dxReq }
    else { state with isRamping := isRamping, val := state.val + dxNow, dxPrev := dxNow }
  else state

/-! ## A step towards the request -/

theorem minprecision_pos : 0 < minprecision := by norm_num [minprecision]

theorem minprecision_lt_one : minprecision < 1 := by norm_num [minprecision]

/-- How far a step towards the request comes at least, if it does not arrive. -/
def leastStep (dxMax ddxMax : ℚ) : ℚ := if ddxMax = 0 then dxMax else min dxMax (ddxMax / 5)

theorem slewLimit_of_pos {dxMax dxReq : ℚ} (hmax : 0 < dxMax) (hreq : 0 < dxReq) :
    slewLimit dxMax dxReq = min dxMax dxReq := by
  unfold slewLimit
  split
  · rename_i h
    rw [min_eq_left h.le]
  · rename_i h
    rw [if_neg (by linarith), min_eq_right (not_lt.mp h)]

/-- The limited step is not below the last one by more than the limit, nor above. -/
theorem accLimit_eq {ddxMax dxPrev dxNow : ℚ} (h : 0 ≤ ddxMax) :
    accLimit ddxMax dxPrev dxNow = max (dxPrev - ddxMax) (min dxNow (dxPrev + ddxMax)) := by
  unfold accLimit
  dsimp only
  split
  · rename_i hup
    rw [min_eq_right (by linarith), max_eq_right (by linarith)]
  · rename_i hup
    rw [min_eq_left (by linarith)]
    split
    · rename_i hdown
      rw [max_eq_left (by linarith)]
    · rename_i hdown
      rw [max_eq_right (by linarith)]

/-- A soft landing does not slow a step down to less than a fifth. -/
theorem softLanding_bounds {ddxMax dxReq dxNow : ℚ} (hmax : 0 ≤ ddxMax) (hreq : 0 < dxReq)
    (hnow : 0 < dxNow) :
    softLanding ddxMax dxReq dxNow = dxNow ∨
      (0 < ddxMax ∧ ddxMax / 5 ≤ softLanding ddxMax dxReq dxNow ∧
        softLanding ddxMax dxReq dxNow ≤ dxNow) := by
  unfold softLanding
  rw [abs_of_pos hnow]
  split
  · rename_i h
    obtain ⟨hfast, -, hne⟩ := h
    have hpos : 0 < ddxMax := lt_of_le_of_ne hmax (Ne.symm hne)
    have hstop : 1 < dxNow / ddxMax := (one_lt_div hpos).mpr hfast
    have hnow' : dxNow = dxNow / ddxMax * ddxMax := (div_mul_cancel₀ dxNow hne).symm
    generalize dxNow / ddxMax = n at hstop hnow'
    dsimp only
    have hland : dxNow + (dxReq - dxNow * (3 / 2 + 1 / 2 * n)) / (3 / 2 + n) =
        (dxNow * n / 2 + dxReq) / (3 / 2 + n) := by
      field_simp
      ring
    have hlow : ddxMax / 5 ≤ (dxNow * n / 2 + dxReq) / (3 / 2 + n) := by
      rw [le_div_iff₀ (by linarith)]
      have hsq : ddxMax * ((3 / 2 + n) / 5) ≤ ddxMax * (n * n / 2) := by
        apply mul_le_mul_of_nonneg_left _ hpos.le
        nlinarith
      calc ddxMax / 5 * (3 / 2 + n) = ddxMax * ((3 / 2 + n) / 5) := by ring
        _ ≤ ddxMax * (n * n / 2) := hsq
        _ = dxNow * n / 2 := by rw [hnow']; ring
        _ ≤ dxNow * n / 2 + dxReq := by linarith
    rw [hland]
    split
    · rename_i hslow
      have habs := le_abs_self ((dxNow * n / 2 + dxReq) / (3 / 2 + n))
      exact Or.inr ⟨hpos, hlow, by linarith⟩
    · exact Or.inl rfl
  · exact Or.inl rfl

/-- The least change does not turn a step round nor pass the request. -/
theorem minChange_bounds (val : ℚ) {dxReq dxNow : ℚ} (hreq : 0 < dxReq) (hnow : 0 < dxNow) :
    dxReq ≤ minChange val dxReq dxNow ∨ dxNow ≤ minChange val dxReq dxNow := by
  unfold minChange
  dsimp only
  rw [if_pos hnow.ne', abs_of_pos hreq, abs_of_pos hnow, if_pos hnow]
  split
  · exact Or.inl le_rfl
  · split
    · rename_i h
      exact Or.inr h.le
    · exact Or.inr le_rfl

/-- A ramp on the way to a request above: it does not move away, and it can speed up or is as fast
as it may be. -/
structure Toward (V a : ℚ) (s : RampParamState) : Prop where
  isRamping : s.isRamping = true
  dxMax : s.dxMax = V
  ddxMax : s.ddxMax = a
  pos : 0 < V
  nonneg : 0 ≤ a
  dxPrev : 0 ≤ s.dxPrev
  fast : a = 0 → V ≤ s.dxPrev

variable {V a : ℚ} {s : RampParamState}

theorem leastStep_pos (hV : 0 < V) (ha : 0 ≤ a) : 0 < leastStep V a := by
  unfold leastStep
  split
  · exact hV
  · rename_i h
    have hpos : 0 < a := lt_of_le_of_ne ha (Ne.symm h)
    exact lt_min hV (by linarith)

theorem accLimit_bounds {d r : ℚ} (ha : 0 ≤ a) (hd : 0 ≤ d) (hfast : a = 0 → V ≤ d) :
    r ≤ accLimit a d (min V r) ∨ leastStep V a ≤ accLimit a d (min V r) := by
  rw [accLimit_eq ha]
  have hlow : min (min V r) (d + a) ≤ max (d - a) (min (min V r) (d + a)) := le_max_right _ _
  by_cases h0 : a = 0
  · have hd' : V ≤ d := hfast h0
    have hkeep : d - a ≤ max (d - a) (min (min V r) (d + a)) := le_max_left _ _
    rw [leastStep, if_pos h0]
    exact Or.inr (by linarith)
  · rw [leastStep, if_neg h0]
    have hpos : 0 < a := lt_of_le_of_ne ha (Ne.symm h0)
    rcases min_cases (min V r) (d + a) with ⟨heq, -⟩ | ⟨heq, -⟩
    · rcases min_cases V r with ⟨hV, -⟩ | ⟨hr, -⟩
      · exact Or.inr ((min_le_left _ _).trans (by linarith))
      · exact Or.inl (by linarith)
    · exact Or.inr ((min_le_right _ _).trans (by linarith))

theorem Toward.rampStep_bounds (h : Toward V a s) (hreq : 0 < s.req - s.val) :
    s.req - s.val ≤ rampStep s ∨ leastStep V a ≤ rampStep s := by
  have hleast := leastStep_pos h.pos h.nonneg
  have hacc := accLimit_bounds (V := V) (r := s.req - s.val) h.nonneg h.dxPrev h.fast
  unfold rampStep
  dsimp only
  rw [h.dxMax, h.ddxMax, slewLimit_of_pos h.pos hreq]
  generalize s.req - s.val = r at hreq hacc
  generalize accLimit a s.dxPrev (min V r) = x at hacc
  have hx : 0 < x := by
    rcases hacc with hx | hx
    · exact hreq.trans_le hx
    · exact hleast.trans_le hx
  have hsoft : r ≤ softLanding a r x ∨ leastStep V a ≤ softLanding a r x := by
    rcases softLanding_bounds h.nonneg hreq hx with heq | ⟨hpos, hlow, -⟩
    · rwa [heq]
    · refine Or.inr (le_trans ?_ hlow)
      rw [leastStep, if_neg hpos.ne']
      exact min_le_right _ _
  generalize softLanding a r x = y at hsoft
  have hy : 0 < y := by
    rcases hsoft with hy | hy
    · exact hreq.trans_le hy
    · exact hleast.trans_le hy
  rcases minChange_bounds s.val hreq hy with hz | hz
  · exact Or.inl hz
  · rcases hsoft with hy | hy
    · exact Or.inl (hy.trans hz)
    · exact Or.inr (hy.trans hz)

/-- A step of a ramp on its way arrives, or comes nearer and is on its way again. -/
theorem Toward.update (h : Toward V a s) (hreq : s.val < s.req) :
    (rampParamUpdate s).isRamping = true ∧ (rampParamUpdate s).req = s.req ∧
      ((rampParamUpdate s).val = s.req ∨
        (Toward V a (rampParamUpdate s) ∧ (rampParamUpdate s).val < s.req ∧
          s.val + leastStep V a ≤ (rampParamUpdate s).val)) := by
  have hleft : 0 < s.req - s.val := by linarith
  have hleast := leastStep_pos h.pos h.nonneg
  have hstep := h.rampStep_bounds hleft
  have hpos : 0 < rampStep s := by
    rcases hstep with hstep | hstep
    · exact hleft.trans_le hstep
    · exact hleast.trans_le hstep
  unfold rampParamUpdate
  dsimp only
  rw [if_pos h.isRamping, abs_of_pos hpos, abs_of_pos hleft]
  by_cases harrive : rampStep s ≥ s.req - s.val
  · rw [if_pos harrive]
    exact ⟨by simp [hpos.ne'], rfl, Or.inl rfl⟩
  · rw [if_neg harrive]
    have hfar : leastStep V a ≤ rampStep s := hstep.resolve_left (by linarith)
    refine ⟨by simp [hpos.ne'], rfl, Or.inr ⟨?_, ?_, ?_⟩⟩
    · refine ⟨by simp [hpos.ne'], h.dxMax, h.ddxMax, h.pos, h.nonneg, hpos.le, fun h0 => ?_⟩
      rw [leastStep, if_pos h0] at hfar
      exact hfar
    · show s.val + rampStep s < s.req
      linarith
    · show s.val + leastStep V a ≤ s.val + rampStep s
      linarith

end AdvLigoRts.Drv
