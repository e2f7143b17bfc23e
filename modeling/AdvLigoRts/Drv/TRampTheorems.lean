import AdvLigoRts.Drv.TRamp
import AdvLigoRts.Lib.Approach

/-!
# Ramps arrive

A ramp that moves towards its request, or rests, comes there in steps of a least length and stays. A
ramp that is turned round has to brake first.
-/

namespace AdvLigoRts.Drv

open PvLib

/-! ## Up and down -/

section Negation

variable {V a d r x : ℚ}

theorem slewLimit_neg (hV : 0 ≤ V) : slewLimit V (-r) = -slewLimit V r := by
  unfold slewLimit
  split_ifs <;> linarith

theorem accLimit_neg (ha : 0 ≤ a) : accLimit a (-d) (-x) = -accLimit a d x := by
  unfold accLimit
  dsimp only
  split_ifs <;> linarith

theorem softLanding_neg : softLanding a (-r) (-x) = -softLanding a r x := by
  have hland : ∀ n : ℚ, -x + (-r - -x * n) / (3 / 2 + |x| / a) =
      -(x + (r - x * n) / (3 / 2 + |x| / a)) := by
    intro n
    ring
  unfold softLanding
  dsimp only
  rw [abs_neg, neg_mul_neg, hland, abs_neg]
  split
  · split
    · rfl
    · rfl
  · rfl

theorem minChange_neg {v : ℚ} : minChange (-v) (-r) (-x) = -minChange v r x := by
  unfold minChange
  dsimp only
  rw [abs_neg, abs_neg, abs_neg]
  by_cases hx : x = 0
  · simp [hx]
  · rw [if_pos hx, if_pos (neg_ne_zero.mpr hx)]
    split
    · rfl
    · split
      · rcases lt_or_gt_of_ne hx with h | h
        · rw [if_pos (by linarith), if_neg (by linarith), neg_neg]
        · rw [if_neg (by linarith), if_pos h]
      · rfl

end Negation

namespace RampParamState

/-- The ramp with the other sign. -/
def neg (s : RampParamState) : RampParamState :=
  { s with val := -s.val, dxPrev := -s.dxPrev, req := -s.req }

def Limited (s : RampParamState) : Prop := 0 ≤ s.dxMax ∧ 0 ≤ s.ddxMax

end RampParamState

variable {V a : ℚ} {s : RampParamState}

theorem rampStep_neg (h : s.Limited) : rampStep s.neg = -rampStep s := by
  have hdiff : -s.req - -s.val = -(s.req - s.val) := by ring
  unfold rampStep RampParamState.neg
  dsimp only
  rw [hdiff, slewLimit_neg h.1, accLimit_neg h.2, softLanding_neg, minChange_neg]

theorem rampParamUpdate_neg (h : s.Limited) : rampParamUpdate s.neg = (rampParamUpdate s).neg := by
  have hdiff : s.neg.req - s.neg.val = -(s.req - s.val) := by
    simp only [RampParamState.neg]
    ring
  have hflag : s.neg.isRamping = s.isRamping := rfl
  have hprev : s.neg.dxPrev = 0 ↔ s.dxPrev = 0 := neg_eq_zero
  unfold rampParamUpdate
  dsimp only
  rw [rampStep_neg h, hdiff, abs_neg, abs_neg, hflag]
  simp only [neg_eq_zero, hprev]
  split
  · split
    · rfl
    · simp only [RampParamState.neg, neg_add]
  · rfl

@[simp] theorem rampParamUpdate_req : (rampParamUpdate s).req = s.req := by
  unfold rampParamUpdate
  grind

@[simp] theorem rampParamUpdate_dxMax : (rampParamUpdate s).dxMax = s.dxMax := by
  unfold rampParamUpdate
  grind

@[simp] theorem rampParamUpdate_ddxMax : (rampParamUpdate s).ddxMax = s.ddxMax := by
  unfold rampParamUpdate
  grind

theorem RampParamState.Limited.update (h : s.Limited) : (rampParamUpdate s).Limited := by
  unfold RampParamState.Limited
  rwa [rampParamUpdate_dxMax, rampParamUpdate_ddxMax]

theorem iterate_neg (h : s.Limited) (n : ℕ) :
    rampParamUpdate^[n] s.neg = (rampParamUpdate^[n] s).neg := by
  induction n generalizing s with
  | zero => rfl
  | succ n ih =>
    rw [Function.iterate_succ_apply, Function.iterate_succ_apply, rampParamUpdate_neg h,
      ih h.update]

/-! ## Ramps that arrive -/

/-- A value that is requested stays. -/
theorem update_of_arrived (h : s.val = s.req) :
    (rampParamUpdate s).val = (rampParamUpdate s).req := by
  unfold rampParamUpdate
  by_cases hr : s.isRamping = true
  · have habs : |rampStep s| ≥ |s.req - s.val| := by
      rw [h, sub_self, abs_zero]
      exact abs_nonneg _
    simp only [hr, if_true, habs]
  · rwa [if_neg hr]

theorem iterate_req (n : ℕ) : (rampParamUpdate^[n] s).req = s.req := by
  induction n with
  | zero => rfl
  | succ n ih => rw [Function.iterate_succ_apply', rampParamUpdate_req, ih]

/-- Finitely many calls bring the value to the request, where it stays. -/
def Arrives (s : RampParamState) : Prop := ∃ N, ∀ n ≥ N, (rampParamUpdate^[n] s).val = s.req

theorem arrives_of_val_eq {n : ℕ} (h : (rampParamUpdate^[n] s).val = s.req) : Arrives s := by
  refine ⟨n, fun k hk => ?_⟩
  obtain ⟨i, rfl⟩ := Nat.exists_eq_add_of_le' hk
  rw [Function.iterate_add_apply]
  have hstay : ∀ t : RampParamState, t.val = t.req →
      (rampParamUpdate t).val = (rampParamUpdate t).req := fun _ => update_of_arrived
  have harrived : (rampParamUpdate^[n] s).val = (rampParamUpdate^[n] s).req := by
    rw [h, iterate_req]
  rw [goal_iterate_of_stable hstay harrived i, iterate_req, iterate_req]

theorem arrives_update_iff : Arrives (rampParamUpdate s) ↔ Arrives s := by
  constructor
  · rintro ⟨N, hN⟩
    refine arrives_of_val_eq (n := N + 1) ?_
    rw [Function.iterate_succ_apply, hN N le_rfl, rampParamUpdate_req]
  · rintro ⟨N, hN⟩
    refine arrives_of_val_eq (n := N) ?_
    rw [← Function.iterate_succ_apply, hN _ (Nat.le_succ N), rampParamUpdate_req]

theorem arrives_neg_iff (h : s.Limited) : Arrives s.neg ↔ Arrives s := by
  unfold Arrives
  simp only [iterate_neg h]
  refine exists_congr fun N => forall_congr' fun n => forall_congr' fun _ => ?_
  exact neg_inj

/-- A ramp below its request that moves towards it, or a value that has arrived. -/
def OnWay (V a : ℚ) (s : RampParamState) : Prop :=
  (Toward V a s ∧ s.val < s.req) ∨ s.val = s.req

theorem OnWay.update (h : OnWay V a s) :
    OnWay V a (rampParamUpdate s) ∧ s.val ≤ (rampParamUpdate s).val ∧
      (rampParamUpdate s).val ≤ s.req := by
  rcases h with ⟨htoward, hbelow⟩ | harrived
  · obtain ⟨-, hreq, harrive | ⟨hnext, hlt, hle⟩⟩ := htoward.update hbelow
    · exact ⟨Or.inr (harrive.trans hreq.symm), harrive ▸ hbelow.le, harrive.le⟩
    · have hpos := leastStep_pos htoward.pos htoward.nonneg
      exact ⟨Or.inl ⟨hnext, hreq ▸ hlt⟩, by linarith, hlt.le⟩
  · have hval : (rampParamUpdate s).val = s.req :=
      (update_of_arrived harrived).trans rampParamUpdate_req
    exact ⟨Or.inr (update_of_arrived harrived), (harrived.trans hval.symm).le, hval.le⟩

theorem OnWay.iterate (h : OnWay V a s) (n : ℕ) : OnWay V a (rampParamUpdate^[n] s) := by
  have hstay : ∀ t, OnWay V a t → OnWay V a (rampParamUpdate t) := fun _ ht => ht.update.1
  exact goal_iterate_of_stable hstay h n

theorem OnWay.arrives (h : OnWay V a s) : Arrives s := by
  rcases h with ⟨htoward, hbelow⟩ | harrived
  · have hleft : ∀ t : RampParamState, t.req = s.req ∧ Toward V a t ∧ t.val < t.req →
        0 ≤ s.req - t.val := by
      rintro t ⟨hreq, -, hlt⟩
      linarith
    have hstep : ∀ t : RampParamState, t.req = s.req ∧ Toward V a t ∧ t.val < t.req →
        (rampParamUpdate t).val = s.req ∨
        (((rampParamUpdate t).req = s.req ∧ Toward V a (rampParamUpdate t) ∧
            (rampParamUpdate t).val < (rampParamUpdate t).req) ∧
          s.req - (rampParamUpdate t).val + leastStep V a ≤ s.req - t.val) := by
      rintro t ⟨hreq, ht, hlt⟩
      obtain ⟨-, hreq', harrive | ⟨hnext, hlt', hle⟩⟩ := ht.update hlt
      · exact Or.inl (harrive.trans hreq)
      · exact Or.inr ⟨⟨hreq'.trans hreq, hnext, hreq' ▸ hlt'⟩, by linarith⟩
    obtain ⟨n, hn⟩ := exists_goal_of_approach (f := rampParamUpdate) (G := fun t => t.val = s.req)
      (leastStep_pos htoward.pos htoward.nonneg) hleft hstep ⟨rfl, htoward, hbelow⟩
    exact arrives_of_val_eq hn
  · exact arrives_of_val_eq (n := 0) harrived

/-- The values from call to call go from the old one to the request and are not beyond it, they
come there and stay, and the ramp ends at the request only. -/
structure Approaches (s : RampParamState) : Prop where
  between : ∀ n, (rampParamUpdate^[n + 1] s).val ∈
    Set.uIcc (rampParamUpdate^[n] s).val s.req
  arrives : Arrives s
  rests : ∀ n, (rampParamUpdate^[n] s).isRamping = false → (rampParamUpdate^[n] s).val = s.req

theorem OnWay.approaches (h : OnWay V a s) : Approaches s where
  between n := by
    obtain ⟨-, hle, hreq⟩ := (h.iterate n).update
    rw [Function.iterate_succ_apply']
    rw [iterate_req] at hreq
    exact Set.mem_uIcc.mpr (Or.inl ⟨hle, hreq⟩)
  arrives := h.arrives
  rests n hn := by
    rcases h.iterate n with ⟨htoward, -⟩ | harrived
    · exact absurd (htoward.isRamping.symm.trans hn) (by decide)
    · rw [harrived, iterate_req]

theorem Approaches.of_neg (h : s.Limited) (ha : Approaches s.neg) : Approaches s where
  between n := by
    have hbetween := ha.between n
    rw [iterate_neg h, iterate_neg h, Set.mem_uIcc] at hbetween
    simp only [RampParamState.neg] at hbetween
    rw [Set.mem_uIcc]
    rcases hbetween with ⟨h1, h2⟩ | ⟨h1, h2⟩
    · exact Or.inr ⟨by linarith, by linarith⟩
    · exact Or.inl ⟨by linarith, by linarith⟩
  arrives := (arrives_neg_iff h).mp ha.arrives
  rests n hn := by
    have hrests := ha.rests n
    rw [iterate_neg h] at hrests
    exact neg_inj.mp (hrests hn)

/-! ## Loads -/

/-- The numbers that `RampParamInit` sets once. -/
structure RampParamState.Built (s : RampParamState) (feRate : ℤ) : Prop where
  softRatio : s.softRatio = 4
  softVel : s.softVel = 136 / 100
  minAccCycles : s.minAccCycles = 5 / 100 * feRate

/-- The limit for the step that a load sets. -/
def loadDxMax (s : RampParamState) (req tRamp : ℚ) (feRate : ℤ) : ℚ :=
  136 / 100 * |req - s.val| * (1 / (feRate * tRamp))

/-- The limit for its change. -/
def loadDdxMax (s : RampParamState) (req tRamp : ℚ) (feRate : ℤ) : ℚ :=
  if s.isRamping then |loadDxMax s req tRamp feRate + s.dxPrev| / (5 / 100 * feRate)
  else 4 * loadDxMax s req tRamp feRate * (1 / (feRate * tRamp))

variable {feRate : ℤ} {req tRamp : ℚ}

variable (req) in
theorem rampParamLoad_eq (h : s.Built feRate) (ht : 0 < tRamp)
    (hgo : s.isRamping = true ∨ req ≠ s.val) :
    rampParamLoad s req tRamp feRate = { s with
      req := req, dxMax := loadDxMax s req tRamp feRate, ddxMax := loadDdxMax s req tRamp feRate,
      isRamping := true } := by
  unfold rampParamLoad
  dsimp only
  rw [if_neg (not_le.mpr ht), if_pos hgo, h.softRatio, h.softVel, h.minAccCycles]
  rfl

theorem loadDxMax_pos (hrate : 1 ≤ feRate) (ht : 0 < tRamp) (hreq : req ≠ s.val) :
    0 < loadDxMax s req tRamp feRate := by
  have hrate' : (0 : ℚ) < feRate := by exact_mod_cast (by omega : 0 < feRate)
  have hdist : 0 < |req - s.val| := abs_pos.mpr (sub_ne_zero.mpr hreq)
  unfold loadDxMax
  positivity

variable (s req) in
theorem loadDxMax_nonneg (hrate : 1 ≤ feRate) (ht : 0 < tRamp) :
    0 ≤ loadDxMax s req tRamp feRate := by
  have hrate' : (0 : ℚ) < feRate := by exact_mod_cast (by omega : 0 < feRate)
  unfold loadDxMax
  positivity

variable (s req) in
theorem loadDdxMax_nonneg (hrate : 1 ≤ feRate) (ht : 0 < tRamp) :
    0 ≤ loadDdxMax s req tRamp feRate := by
  have hrate' : (0 : ℚ) < feRate := by exact_mod_cast (by omega : 0 < feRate)
  have hmax := loadDxMax_nonneg s req hrate ht
  unfold loadDdxMax
  split
  · positivity
  · positivity

theorem onWay_load (hbuilt : s.Built feRate) (hrate : 1 ≤ feRate) (hrest : s.isRamping = false)
    (hprev : s.dxPrev = 0) (ht : 0 < tRamp) (hreq : req ≠ s.val) :
    let s0 := rampParamLoad s req tRamp feRate
    Approaches s0 := by
  have hrate' : (0 : ℚ) < feRate := by exact_mod_cast (by omega : 0 < feRate)
  have hmax := loadDxMax_pos (s := s) hrate ht hreq
  have hacc : 0 < loadDdxMax s req tRamp feRate := by
    unfold loadDdxMax
    rw [hrest]
    simp only [Bool.false_eq_true, if_false]
    positivity
  intro s0
  have hs0 : s0 = _ := rampParamLoad_eq req hbuilt ht (Or.inr hreq)
  rcases lt_or_gt_of_ne hreq with hlt | hgt
  · have hlimited : s0.Limited := by
      rw [hs0]
      exact ⟨hmax.le, hacc.le⟩
    refine Approaches.of_neg hlimited (OnWay.approaches
      (V := loadDxMax s req tRamp feRate) (a := loadDdxMax s req tRamp feRate) (Or.inl ⟨?_, ?_⟩))
    · rw [hs0]
      refine ⟨rfl, rfl, rfl, hmax, hacc.le, ?_, fun h0 => absurd h0 hacc.ne'⟩
      simp [RampParamState.neg, hprev]
    · rw [hs0]
      exact neg_lt_neg hlt
  · refine OnWay.approaches
      (V := loadDxMax s req tRamp feRate) (a := loadDdxMax s req tRamp feRate) (Or.inl ⟨?_, ?_⟩)
    · rw [hs0]
      exact ⟨rfl, rfl, rfl, hmax, hacc.le, hprev.ge, fun h0 => absurd h0 hacc.ne'⟩
    · rw [hs0]
      exact hgt

/-- A gain or an offset that rests and gets a new request: from call to call it goes from the old
value towards the request and not beyond, it is there after finitely many calls and stays, and the
ramp ends at the request only. -/
theorem load_at_rest_approaches (hbuilt : s.Built feRate) (hrate : 1 ≤ feRate)
    (hrest : s.isRamping = false) (hprev : s.dxPrev = 0) (ht : 0 < tRamp) (hreq : req ≠ s.val) :
    (rampParamLoad s req tRamp feRate).val = s.val ∧
      (rampParamLoad s req tRamp feRate).req = req ∧
      Approaches (rampParamLoad s req tRamp feRate) := by
  refine ⟨?_, ?_, onWay_load hbuilt hrate hrest hprev ht hreq⟩
  · rw [rampParamLoad_eq req hbuilt ht (Or.inr hreq)]
  · rw [rampParamLoad_eq req hbuilt ht (Or.inr hreq)]

theorem load_at_rest_approaches_one :
    (rampParamLoad (rampParamInit 0 2048) 1 1 2048).val = 0 ∧
      (rampParamLoad (rampParamInit 0 2048) 1 1 2048).req = 1 ∧
      Approaches (rampParamLoad (rampParamInit 0 2048) 1 1 2048) :=
  load_at_rest_approaches ⟨rfl, rfl, rfl⟩ (by decide) rfl rfl one_pos one_ne_zero

end AdvLigoRts.Drv
