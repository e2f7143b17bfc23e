import AdvLigoRts.Drv.FilterModule
import AdvLigoRts.Drv.ReloadHistories
import Mathlib.Tactic.FieldSimp
import Mathlib.Tactic.Ring
import Mathlib.Tactic.Linarith

/-!
# Ramps from one output of a filter to the other

With the output type 2 the value behind a filter goes over from its input to its output, or back,
in `rmpcmp` calls. `cnt` says how far it is. It is only touched while the request and the readback
of the filter differ, and the end is found by equality.
-/

namespace AdvLigoRts.Drv

/-! ## Bits of a filter -/

theorem pow2Out_shiftRight {i : ℕ} (hi : i < filters) : pow2Out i >>> 1 = pow2In i := by
  have hall : ∀ i < filters, pow2Out i >>> 1 = pow2In i := by decide
  exact hall i hi

theorem pow2In_ne_zero {i : ℕ} (hi : i < filters) : pow2In i ≠ 0 := by
  have hall : ∀ i < filters, pow2In i ≠ 0 := by decide
  exact hall i hi

theorem and_pow2In {i : ℕ} (hi : i < filters) (x : UInt32) :
    x &&& pow2In i = 0 ∨ x &&& pow2In i = pow2In i := by
  have hall : ∀ i < filters, (pow2In i).toBitVec = BitVec.twoPow 32 (2 * i + 4) := by decide
  have hbit := hall i hi
  have hand : (x &&& pow2In i).toBitVec =
      if x.toBitVec.getLsbD (2 * i + 4) then (pow2In i).toBitVec else 0 := by
    rw [UInt32.toBitVec_and, hbit, BitVec.and_twoPow]
    rfl
  by_cases hx : x.toBitVec.getLsbD (2 * i + 4) = true
  · rw [if_pos hx] at hand
    exact Or.inr (UInt32.toBitVec_inj.mp hand)
  · rw [if_neg hx] at hand
    exact Or.inl (UInt32.toBitVec_inj.mp hand)

/-- A filter that is switched on or off now. -/
theorem and_pow2Out_set {i : ℕ} (hi : i < filters) (b w : UInt32) :
    ((if b &&& pow2In i ≠ 0 then w ||| pow2Out i else w &&& ~~~pow2Out i) >>> 1) &&& pow2In i =
      b &&& pow2In i := by
  by_cases hb : b &&& pow2In i = 0
  · have hall : ∀ i < filters, (~~~pow2Out i) >>> 1 &&& pow2In i = 0 := by decide
    rw [if_neg (not_not.mpr hb), hb, UInt32.shiftRight_and, UInt32.and_assoc, hall i hi,
      UInt32.and_zero]
  · have hon := (and_pow2In hi b).resolve_left hb
    rw [if_pos hb, hon, UInt32.shiftRight_or, pow2Out_shiftRight hi]
    apply UInt32.toBitVec_inj.mp
    ext k
    simpa using fun h => Or.inr h

theorem and_pow2Out_other {i j : ℕ} (hi : i < filters) (hj : j < filters) (hij : i ≠ j) (on : Prop)
    [Decidable on] (w : UInt32) :
    ((if on then w ||| pow2Out j else w &&& ~~~pow2Out j) >>> 1) &&& pow2In i =
      (w >>> 1) &&& pow2In i := by
  have hout := pow2Out_apart hij hi
  rw [← pow2Out_shiftRight hi, ← UInt32.shiftRight_and, ← UInt32.shiftRight_and]
  split
  · have hall : ∀ i < filters, ∀ j < filters, i ≠ j → pow2Out j &&& pow2Out i = 0 := by decide
    have hapart := hall i hi j hj hij
    congr 1
    apply UInt32.toBitVec_inj.mp
    ext k hk
    have hbit : ((pow2Out j &&& pow2Out i).toBitVec)[k] = false := by
      rw [hapart]
      simp
    rw [UInt32.toBitVec_and, BitVec.getElem_and] at hbit
    rw [UInt32.toBitVec_and, UInt32.toBitVec_or, UInt32.toBitVec_and, BitVec.getElem_and,
      BitVec.getElem_or, BitVec.getElem_and, Bool.and_or_distrib_right, hbit, Bool.or_false]
  · rw [hout w]

/-! ## What a call does to one filter -/

section Switching

variable {K : Type} [Field K] [LinearOrder K]

/-- `sw_out` at the start of a call. -/
def acknowledged (modNum ii : ℕ) (s : FilterMem K) : UInt32 :=
  ((s.mem.fmt.inputs modNum).opSwitchP >>> 1) &&& pow2In ii

/-- What the switching of a filter depends on. -/
structure Stage where
  filtSections : ℕ
  sType : ℤ
  rmpcmp : ℤ
  timeout : ℤ
  cnt : ℤ
  swOut : UInt32

def stage (modNum ii : ℕ) (s : FilterMem K) : Stage where
  filtSections := (s.mem.filtC.coeffs modNum).filtSections ii
  sType := (s.mem.filtC.coeffs modNum).sType ii
  rmpcmp := (s.mem.fmt.inputs modNum).rmpcmp ii
  timeout := (s.mem.fmt.inputs modNum).timeout ii
  cnt := s.cnt modNum ii
  swOut := acknowledged modNum ii s

/-- What a call makes of the input and the output of a filter. -/
def Stage.switched (g : Stage) (sw : UInt32) (fmInput filtData : K) : Switched K :=
  switchFilter (g.sType.tmod 10) g.rmpcmp g.timeout g.cnt sw g.swOut fmInput filtData

variable {fir : Bool} {firNums modNum ii : ℕ}

omit [LinearOrder K] in
theorem stage_filterData (cycleNum : ℕ) (swIn : Bool) (x : K) (s : FilterMem K) (jj : ℕ) :
    stage modNum ii (filterData fir firNums modNum cycleNum swIn x s jj).2 =
      stage modNum ii s := by
  unfold filterData
  dsimp only
  split
  · split
    · rfl
    · split
      · rfl
      · rfl
  · unfold stage acknowledged
    simp

omit [LinearOrder K] in
theorem stage_acknowledge (hi : ii < filters) (b : UInt32) (r : Switched K) (s : FilterMem K)
    (hr : r.swOut = acknowledged modNum ii s ∨ r.swOut = b &&& pow2In ii) :
    stage modNum ii (acknowledge modNum (b &&& pow2In ii) r s ii) =
      { stage modNum ii s with cnt := r.cnt, swOut := r.swOut } := by
  by_cases hdone : b &&& pow2In ii = r.swOut
  · have hbit := and_pow2Out_set hi b (s.mem.fmt.inputs modNum).opSwitchP
    rw [hdone] at hbit
    simp only [acknowledge, hdone, if_true, stage, acknowledged, Function.update_self, hbit]
    split
    · rfl
    · rfl
  · have hkept : r.swOut = acknowledged modNum ii s := hr.resolve_right fun h => hdone h.symm
    simp only [acknowledge, if_neg hdone, stage, Function.update_self]
    rw [hkept]
    rfl

omit [LinearOrder K] in
theorem stage_acknowledge_of_ne {jj : ℕ} (hi : ii < filters) (hj : jj < filters) (hne : ii ≠ jj)
    (sw : UInt32) (r : Switched K) (s : FilterMem K) :
    stage modNum ii (acknowledge modNum sw r s jj) = stage modNum ii s := by
  have hout := and_pow2Out_other hi hj hne (r.swOut ≠ 0)
  by_cases hdone : sw = r.swOut
  · simp only [acknowledge, hdone, if_true, stage, acknowledged, Function.update_self, hout,
      Function.update_of_ne hne]
    split
    · rfl
    · rfl
  · simp only [acknowledge, if_neg hdone, stage, Function.update_self, Function.update_of_ne hne]
    rfl

theorem switchFilter_swOut (sTypeMod10 ramp timeout kk : ℤ) (sw swOut : UInt32) (x y : K) :
    (switchFilter sTypeMod10 ramp timeout kk sw swOut x y).swOut = swOut ∨
      (switchFilter sTypeMod10 ramp timeout kk sw swOut x y).swOut = sw := by
  unfold switchFilter switchRamp switchCompare switchNow
  grind

theorem switchFilter_same (sTypeMod10 ramp timeout kk : ℤ) (sw : UInt32) (x y : K) :
    switchFilter sTypeMod10 ramp timeout kk sw sw x y =
      ⟨if sw ≠ 0 then y else x, kk, sw⟩ := if_pos rfl

variable {E P : UInt32} {cycleNum : ℕ} {s : K × FilterMem K}

theorem stage_filterStep_of_ne {jj : ℕ} (hi : ii < filters) (hj : jj < filters) (hne : ii ≠ jj) :
    stage modNum ii (filterStep fir firNums modNum E P cycleNum s jj).2 =
      stage modNum ii s.2 := by
  unfold filterStep
  dsimp only
  split
  · rfl
  · split
    · exact stage_filterData _ _ _ _ _
    · rw [stage_acknowledge_of_ne hi hj hne]
      exact stage_filterData _ _ _ _ _

/-- What a filter is given and what it makes of it. -/
def filtDataOf (fir : Bool) (firNums modNum ii : ℕ) (E P : UInt32) (cycleNum : ℕ)
    (s : K × FilterMem K) : K :=
  let sType := (s.2.mem.filtC.coeffs modNum).sType ii
  (filterData fir firNums modNum cycleNum
    (sType < 20 ∨ P &&& pow2In ii ≠ 0 ∨ (sType = 22 ∧ E &&& pow2In ii ≠ 0)) s.1 s.2 ii).1

variable (fir firNums E P cycleNum s) in
theorem stage_filterStep (hi : ii < filters)
    (hs : (stage modNum ii s.2).filtSections ≠ 0)
    (hP : P &&& pow2In ii = (stage modNum ii s.2).swOut) :
    let r := (stage modNum ii s.2).switched (E &&& pow2In ii) s.1
      (filtDataOf fir firNums modNum ii E P cycleNum s)
    (filterStep fir firNums modNum E P cycleNum s ii).1 = r.fmInput ∧
      stage modNum ii (filterStep fir firNums modNum E P cycleNum s ii).2 =
        { stage modNum ii s.2 with cnt := r.cnt, swOut := r.swOut } := by
  have hsections : (s.2.mem.filtC.coeffs modNum).filtSections ii ≠ 0 := hs
  have hout : P &&& pow2In ii = acknowledged modNum ii s.2 := hP
  unfold filterStep
  dsimp only
  rw [if_neg hsections, hout]
  refine ⟨?_, ?_⟩
  · unfold filtDataOf Stage.switched
    dsimp only
    rw [hout]
    rfl
  · split
    · rename_i hsame
      rw [stage_filterData, Stage.switched, hsame]
      have hstage : (stage modNum ii s.2).swOut = acknowledged modNum ii s.2 := rfl
      rw [hstage, switchFilter_same]
      rfl
    · have hack : ∀ m : K × FilterMem K, stage modNum ii m.2 = stage modNum ii s.2 →
          acknowledged modNum ii m.2 = acknowledged modNum ii s.2 :=
        fun m hm => congrArg Stage.swOut hm
      rw [stage_acknowledge hi]
      · rw [stage_filterData]
        unfold filtDataOf Stage.switched
        dsimp only
        rw [hout]
        rfl
      · rw [hack _ (stage_filterData _ _ _ _ _)]
        exact switchFilter_swOut _ _ _ _ _ _ _ _

theorem stage_foldl_of_notMem (hi : ii < filters) {l : List ℕ} (hl : ∀ jj ∈ l, jj < filters)
    (hne : ii ∉ l) (s : K × FilterMem K) :
    stage modNum ii (l.foldl (filterStep fir firNums modNum E P cycleNum) s).2 =
      stage modNum ii s.2 := by
  induction l generalizing s with
  | nil => rfl
  | cons jj l ih =>
    rw [List.foldl_cons, ih (fun k hk => hl k (List.mem_cons_of_mem _ hk))
      (fun h => hne (List.mem_cons_of_mem _ h))]
    exact stage_filterStep_of_ne hi (hl jj List.mem_cons_self)
      fun h => hne (h ▸ List.mem_cons_self)

variable (fir firNums modNum ii) in
/-- `fmInput` and the memory when the loop comes to the filter `ii`. -/
def beforeFilter (E : UInt32) (cycleNum : ℕ) (x : K) (m : FilterMem K) : K × FilterMem K :=
  (List.range ii).foldl
    (filterStep fir firNums modNum E ((m.mem.fmt.inputs modNum).opSwitchP >>> 1) cycleNum) (x, m)

theorem stage_applyFilters (hi : ii < filters) (m : FilterMem K)
    (hs : (stage modNum ii m).filtSections ≠ 0) (x : K) :
    let P := (m.mem.fmt.inputs modNum).opSwitchP >>> 1
    let s := beforeFilter fir firNums modNum ii E cycleNum x m
    let r := (stage modNum ii m).switched (E &&& pow2In ii) s.1
      (filtDataOf fir firNums modNum ii E P cycleNum s)
    (filterStep fir firNums modNum E P cycleNum s ii).1 = r.fmInput ∧
      stage modNum ii (applyFilters fir firNums modNum E cycleNum x m).2 =
        { stage modNum ii m with cnt := r.cnt, swOut := r.swOut } := by
  intro P s r
  have hbefore : stage modNum ii s.2 = stage modNum ii m :=
    stage_foldl_of_notMem hi (fun jj hj => by have := List.mem_range.mp hj; omega) (by simp) (x, m)
  have hstep := stage_filterStep fir firNums E P cycleNum s hi (by rwa [hbefore])
    (by rw [hbefore]; rfl)
  rw [hbefore] at hstep
  refine ⟨hstep.1, ?_⟩
  have hall : ∀ i < filters, List.range filters =
      List.range i ++ i :: List.range' (i + 1) (filters - 1 - i) := by decide
  have hsplit := hall ii hi
  rw [applyFilters, hsplit, List.foldl_append, List.foldl_cons]
  rw [stage_foldl_of_notMem hi (fun jj hj => ?_) (fun h => ?_)]
  · exact hstep.2
  · have hmem := List.mem_range'_1.mp hj
    have hlast : filters = 10 := rfl
    omega
  · have hmem := List.mem_range'_1.mp h
    omega

/-! ## Calls and reloads in any order -/

/-- A call of `filterModuleD2`: the memory before it, the calls that the transition of the filter
has had, whether request and `rmpcmp` have been the same at all of them, and what it is given. -/
structure FilterCall (K : Type) where
  mem : FilterMem K
  calls : ℕ
  steady : Bool
  opSwitchE : UInt32
  fmInput : K
  cycleNum : ℕ

namespace FilterCall

variable (fir firNums modNum ii) (c : FilterCall K)

def sw : UInt32 := c.opSwitchE &&& pow2In ii

def before : K × FilterMem K :=
  beforeFilter fir firNums modNum ii c.opSwitchE c.cycleNum c.fmInput c.mem

def input : K := (c.before fir firNums modNum ii).1

def filtData : K :=
  filtDataOf fir firNums modNum ii c.opSwitchE ((c.mem.mem.fmt.inputs modNum).opSwitchP >>> 1)
    c.cycleNum (c.before fir firNums modNum ii)

/-- The value after the filter. -/
def output : K :=
  (filterStep fir firNums modNum c.opSwitchE ((c.mem.mem.fmt.inputs modNum).opSwitchP >>> 1)
    c.cycleNum (c.before fir firNums modNum ii) ii).1

def after : FilterMem K :=
  (applyFilters fir firNums modNum c.opSwitchE c.cycleNum c.fmInput c.mem).2

def callsAfter : ℕ :=
  if c.sw ii = acknowledged modNum ii (c.after fir firNums modNum) then 0 else c.calls + 1

def steadyAfter : Bool := c.callsAfter fir firNums modNum ii = 0 || c.steady

end FilterCall

/-- The weight of a switch setting. -/
def weightOf (sw : UInt32) : K := if sw ≠ 0 then 1 else 0

/-- The mix of the input and the output of a filter with weight `w`, whatever these are. -/
def Blends (f : K → K → Switched K) (w : K) : Prop :=
  ∀ x y, (f x y).fmInput = w * y + (1 - w) * x

/-- A call at which the value after the filter has weight `w`, as a smooth ramp has it. -/
structure SmoothWith (fir : Bool) (firNums modNum ii : ℕ) (c : FilterCall K) (w : K) : Prop where
  blends : Blends ((stage modNum ii c.mem).switched (c.sw ii)) w
  output : c.output fir firNums modNum ii =
    w * c.filtData fir firNums modNum ii + (1 - w) * c.input fir firNums modNum ii
  nonneg : 0 ≤ w
  le_one : w ≤ 1
  settled : c.sw ii = acknowledged modNum ii c.mem → w = weightOf (c.sw ii)
  first : c.sw ii ≠ acknowledged modNum ii c.mem → c.calls = 0 →
    w = weightOf (acknowledged modNum ii (c.after fir firNums modNum)) ∧
      ((stage modNum ii c.mem).rmpcmp ≠ 0 →
        acknowledged modNum ii (c.after fir firNums modNum) = acknowledged modNum ii c.mem)
  acknowledged_iff : c.sw ii ≠ acknowledged modNum ii c.mem → c.steady →
    (acknowledged modNum ii (c.after fir firNums modNum) = c.sw ii ↔
      c.calls = (stage modNum ii c.mem).rmpcmp)
  moves : c.sw ii ≠ acknowledged modNum ii c.mem →
    acknowledged modNum ii (c.after fir firNums modNum) ≠ c.sw ii →
      (stage modNum ii c.mem).rmpcmp ≠ 0 ∧
      Blends ((stage modNum ii (c.after fir firNums modNum)).switched (c.sw ii))
        (if c.sw ii ≠ 0 then w + 1 / (stage modNum ii c.mem).rmpcmp
          else w - 1 / (stage modNum ii c.mem).rmpcmp)

def Smooth (fir : Bool) (firNums modNum ii : ℕ) (c : FilterCall K) : Prop :=
  ∃ w, SmoothWith fir firNums modNum ii c w

/-- The count of a transition has not passed the end of the ramp, and it starts at 0. -/
def Orderly (modNum ii : ℕ) (c : FilterCall K) : Prop :=
  c.sw ii ≠ acknowledged modNum ii c.mem →
    (stage modNum ii c.mem).cnt ≤ (stage modNum ii c.mem).rmpcmp ∧
      (c.calls = 0 → (stage modNum ii c.mem).cnt = 0)

/-- A filter that is switched with a ramp. -/
structure Ramped (g : Stage) : Prop where
  filtSections : g.filtSections ≠ 0
  sType : g.sType.tmod 10 = 2
  rmpcmp : 0 ≤ g.rmpcmp

variable (fir) (charSigned : Bool) (doubleBytes : K → List (BitVec 8)) (firNums modNum ii) in
/-- A sequence of calls of `filterModuleD2` and of reloads of the module that leave the filter with
sections and its type: the calls so far, the memory, and the calls of the transition of the filter
that is going on. -/
inductive SwitchRun : List (FilterCall K) → FilterMem K → ℕ → Bool → Prop
  | start (m : FilterMem K) (hramped : Ramped (stage modNum ii m)) (hcnt : m.cnt modNum ii = 0) :
      SwitchRun [] m 0 true
  | call {log} (c : FilterCall K) (h : SwitchRun log c.mem c.calls c.steady) :
      SwitchRun (log ++ [c]) (c.after fir firNums modNum) (c.callsAfter fir firNums modNum ii)
        (c.steadyAfter fir firNums modNum ii)
  | reload {log m calls steady} (h : SwitchRun log m calls steady) (p : VmeCoef K)
      (pL totMod n : ℕ) (d : FiltMod) (mem : ReloadMem K)
      (hdrives : Drives fir charSigned doubleBytes pL totMod p n (working modNum 0 0 pL m.mem d)
        (reloadDone modNum pL mem d))
      (hsections : HasSections p modNum ii)
      (htype : ((p.vmeCoeffs modNum).sType ii).tmod 10 = 2)
      (hramp : 0 ≤ (p.vmeCoeffs modNum).ramp ii) :
      SwitchRun log { m with mem := mem } calls
        (calls = 0 || (steady && (p.vmeCoeffs modNum).ramp ii = (stage modNum ii m).rmpcmp))

/-! ## Smooth and orderly calls -/

/-- What holds between the calls of a run: the count is that of the transition that is going on. -/
structure Counted (g : Stage) (calls : ℕ) (steady : Bool) : Prop where
  ramped : Ramped g
  nonneg : 0 ≤ g.cnt
  cnt : calls ≠ 0 → g.cnt = calls
  steady : calls = 0 → steady = true

theorem Counted.cnt_eq {g : Stage} {calls : ℕ} {steady : Bool} (h : Counted g calls steady)
    (hstart : calls = 0 → g.cnt = 0) : g.cnt = calls := by
  by_cases h0 : calls = 0
  · rw [hstart h0, h0]
    rfl
  · exact h.cnt h0

variable (fir firNums) in
theorem stage_after (hi : ii < filters) (c : FilterCall K)
    (hs : (stage modNum ii c.mem).filtSections ≠ 0) :
    let r := (stage modNum ii c.mem).switched (c.sw ii) (c.input fir firNums modNum ii)
      (c.filtData fir firNums modNum ii)
    c.output fir firNums modNum ii = r.fmInput ∧
      stage modNum ii (c.after fir firNums modNum) =
        { stage modNum ii c.mem with cnt := r.cnt, swOut := r.swOut } :=
  stage_applyFilters hi c.mem hs c.fmInput

/-- The three things a ramp can do. -/
theorem Ramped.switched {g : Stage} (h : Ramped g) {sw : UInt32} (hsw : sw ≠ g.swOut) (x y : K) :
    g.switched sw x y = if g.cnt = g.rmpcmp then ⟨if sw ≠ 0 then y else x, 0, sw⟩
      else ⟨if sw ≠ 0 then (1 - (g.cnt : K) / g.rmpcmp) * x + g.cnt / g.rmpcmp * y
        else (g.cnt : K) / g.rmpcmp * x + (1 - g.cnt / g.rmpcmp) * y, g.cnt + 1, g.swOut⟩ := by
  have htwo : (2 : ℤ) ≠ 1 := by decide
  rw [Stage.switched, switchFilter, if_neg hsw, h.sType, if_neg htwo, if_pos rfl, switchRamp]
  split
  · rfl
  · by_cases hcnt : g.cnt = 0
    · simp [hcnt]
    · rw [if_pos hcnt]

def rampWeight (g : Stage) (sw : UInt32) : K :=
  if g.cnt = g.rmpcmp then weightOf sw
  else if sw ≠ 0 then (g.cnt : K) / g.rmpcmp else 1 - g.cnt / g.rmpcmp

theorem Ramped.blends {g : Stage} (h : Ramped g) {sw : UInt32} (hsw : sw ≠ g.swOut) :
    Blends (g.switched sw) (rampWeight g sw : K) := by
  intro x y
  rw [h.switched hsw, rampWeight, weightOf]
  by_cases hcnt : g.cnt = g.rmpcmp
  · rw [if_pos hcnt, if_pos hcnt]
    by_cases h0 : sw = 0
    · simp [h0]
    · simp [h0]
  · rw [if_neg hcnt, if_neg hcnt]
    by_cases h0 : sw = 0
    · simp only [h0, ne_eq, not_true_eq_false, if_false]
      ring
    · simp only [h0, ne_eq, not_false_eq_true, if_true]
      ring

omit [LinearOrder K] in
theorem Blends.unique {f : K → K → Switched K} {v w : K} (hv : Blends f v) (hw : Blends f w) :
    v = w := by
  have h := (hv 0 1).symm.trans (hw 0 1)
  simpa using h

variable [IsStrictOrderedRing K]

theorem rampWeight_mem {g : Stage} (hcnt : 0 ≤ g.cnt) (hramp : 0 < g.rmpcmp)
    (hne : g.cnt ≠ g.rmpcmp) (sw : UInt32) :
    (0 ≤ (rampWeight g sw : K) ∧ (rampWeight g sw : K) ≤ 1) ↔ g.cnt ≤ g.rmpcmp := by
  have hpos : (0 : K) < g.rmpcmp := by exact_mod_cast hramp
  have hslope : (0 : K) ≤ g.cnt / g.rmpcmp := div_nonneg (by exact_mod_cast hcnt) hpos.le
  have hle : (g.cnt : K) / g.rmpcmp ≤ 1 ↔ g.cnt ≤ g.rmpcmp := by
    rw [div_le_one hpos, Int.cast_le]
  rw [rampWeight, if_neg hne]
  split
  · exact ⟨fun h => hle.mp h.2, fun h => ⟨hslope, hle.mpr h⟩⟩
  · constructor
    · intro h
      exact hle.mp (by linarith [h.1])
    · intro h
      have hone := hle.mpr h
      exact ⟨by linarith, by linarith⟩

theorem rampWeight_eq_weightOf {g : Stage} (hramp : g.rmpcmp ≠ 0) (hne : g.cnt ≠ g.rmpcmp)
    {sw : UInt32} (hzero : sw = 0 ↔ g.swOut ≠ 0) :
    (rampWeight g sw : K) = weightOf g.swOut ↔ g.cnt = 0 := by
  have hcast : (g.rmpcmp : K) ≠ 0 := by exact_mod_cast hramp
  rw [rampWeight, if_neg hne, weightOf]
  by_cases h0 : sw = 0
  · rw [if_neg (not_not.mpr h0), if_pos (hzero.mp h0), sub_eq_self, div_eq_zero_iff]
    simp [hcast]
  · have hout : g.swOut = 0 := by
      by_contra hout
      exact h0 (hzero.mpr hout)
    rw [if_pos h0, if_neg (not_not.mpr hout), div_eq_zero_iff]
    simp [hcast]

theorem rampWeight_next {g : Stage} (hramp : g.rmpcmp ≠ 0) (hne : g.cnt ≠ g.rmpcmp)
    (sw swOut : UInt32) :
    (rampWeight { g with cnt := g.cnt + 1, swOut := swOut } sw : K) =
      if sw ≠ 0 then rampWeight g sw + 1 / (g.rmpcmp : K)
      else rampWeight g sw - 1 / (g.rmpcmp : K) := by
  have hcast : (g.rmpcmp : K) ≠ 0 := by exact_mod_cast hramp
  have hone : ∀ h : g.cnt + 1 = g.rmpcmp, (g.cnt : K) / g.rmpcmp + 1 / g.rmpcmp = 1 := by
    intro h
    rw [← add_div, ← h]
    push_cast
    exact div_self (by rw [← h] at hcast; exact_mod_cast hcast)
  simp only [rampWeight, weightOf, if_neg hne]
  by_cases h0 : sw = 0
  · simp only [h0, ne_eq, not_true_eq_false, if_false]
    split
    · rename_i hlast
      linarith [hone hlast]
    · push_cast
      ring
  · simp only [h0, ne_eq, not_false_eq_true, if_true]
    split
    · rename_i hlast
      exact (hone hlast).symm
    · push_cast
      ring

omit [IsStrictOrderedRing K] in
/-- The readback behind a call that switches. -/
theorem Ramped.acknowledged_after (hi : ii < filters) {c : FilterCall K}
    (h : Ramped (stage modNum ii c.mem)) (hsw : c.sw ii ≠ acknowledged modNum ii c.mem) :
    acknowledged modNum ii (c.after fir firNums modNum) =
      if (stage modNum ii c.mem).cnt = (stage modNum ii c.mem).rmpcmp then c.sw ii
      else acknowledged modNum ii c.mem := by
  obtain ⟨-, hstage⟩ := stage_after fir firNums hi c h.filtSections
  have hback := congrArg Stage.swOut hstage
  rw [h.switched hsw] at hback
  refine hback.trans ?_
  split
  · rfl
  · rfl

variable (fir firNums) in
omit [IsStrictOrderedRing K] in
theorem Ramped.acknowledged_iff (hi : ii < filters) {c : FilterCall K}
    (h : Ramped (stage modNum ii c.mem)) (hsw : c.sw ii ≠ acknowledged modNum ii c.mem) :
    acknowledged modNum ii (c.after fir firNums modNum) = c.sw ii ↔
      (stage modNum ii c.mem).cnt = (stage modNum ii c.mem).rmpcmp := by
  rw [h.acknowledged_after hi hsw]
  split
  · rename_i hcnt
    exact iff_of_true rfl hcnt
  · rename_i hcnt
    exact iff_of_false (fun heq => hsw heq.symm) hcnt

omit [Field K] [LinearOrder K] [IsStrictOrderedRing K] in
theorem sw_eq_zero_iff (hi : ii < filters) {c : FilterCall K}
    (hsw : c.sw ii ≠ acknowledged modNum ii c.mem) :
    c.sw ii = 0 ↔ acknowledged modNum ii c.mem ≠ 0 := by
  have hreq : c.sw ii = 0 ∨ c.sw ii = pow2In ii := and_pow2In hi _
  have hack : acknowledged modNum ii c.mem = 0 ∨ acknowledged modNum ii c.mem = pow2In ii :=
    and_pow2In hi _
  have hbit := pow2In_ne_zero hi
  grind

theorem weightOf_mem (sw : UInt32) : 0 ≤ (weightOf sw : K) ∧ (weightOf sw : K) ≤ 1 := by
  unfold weightOf
  split
  · exact ⟨zero_le_one, le_rfl⟩
  · exact ⟨le_rfl, zero_le_one⟩

theorem smooth_of_settled (hi : ii < filters) {c : FilterCall K}
    (hs : (stage modNum ii c.mem).filtSections ≠ 0)
    (hsw : c.sw ii = acknowledged modNum ii c.mem) : Smooth fir firNums modNum ii c := by
  obtain ⟨hout, -⟩ := stage_after fir firNums hi c hs
  have hblends : Blends ((stage modNum ii c.mem).switched (c.sw ii)) (weightOf (c.sw ii) : K) := by
    intro x y
    rw [Stage.switched, ← show c.sw ii = (stage modNum ii c.mem).swOut from hsw, switchFilter_same,
      weightOf]
    split
    · simp
    · simp
  refine ⟨weightOf (c.sw ii), hblends, ?_, (weightOf_mem _).1, (weightOf_mem _).2, fun _ => rfl,
    fun hne => absurd hsw hne, fun hne => absurd hsw hne, fun hne => absurd hsw hne⟩
  rw [hout, hblends]

theorem Counted.orderly_of_smooth (hi : ii < filters) {c : FilterCall K}
    (h : Counted (stage modNum ii c.mem) c.calls c.steady) (hc : Smooth fir firNums modNum ii c) :
    Orderly modNum ii c := by
  intro hsw
  obtain ⟨w, hw⟩ := hc
  have hweight := hw.blends.unique (h.ramped.blends hsw)
  have hdone := h.ramped.acknowledged_iff fir firNums hi hsw
  by_cases hcnt : (stage modNum ii c.mem).cnt = (stage modNum ii c.mem).rmpcmp
  · refine ⟨hcnt.le, fun h0 => ?_⟩
    have hend := (hw.acknowledged_iff hsw (h.steady h0)).mp (hdone.mpr hcnt)
    rw [h0] at hend
    exact hcnt.trans hend.symm
  · obtain ⟨hramp, -⟩ := hw.moves hsw fun heq => hcnt (hdone.mp heq)
    have hpos := lt_of_le_of_ne h.ramped.rmpcmp hramp.symm
    have hbounds := (rampWeight_mem (K := K) h.nonneg hpos hcnt (c.sw ii)).mp
    refine ⟨hbounds (hweight ▸ ⟨hw.nonneg, hw.le_one⟩), fun h0 => ?_⟩
    obtain ⟨hfirst, -⟩ := hw.first hsw h0
    rw [h.ramped.acknowledged_after hi hsw, if_neg hcnt] at hfirst
    exact (rampWeight_eq_weightOf hramp hcnt (sw_eq_zero_iff hi hsw)).mp
      (hweight.symm.trans hfirst)

theorem Counted.smooth_of_orderly (hi : ii < filters) {c : FilterCall K}
    (h : Counted (stage modNum ii c.mem) c.calls c.steady)
    (hsw : c.sw ii ≠ acknowledged modNum ii c.mem) (ho : Orderly modNum ii c) :
    SmoothWith fir firNums modNum ii c (rampWeight (stage modNum ii c.mem) (c.sw ii)) := by
  obtain ⟨hout, hstage⟩ := stage_after fir firNums hi c h.ramped.filtSections
  obtain ⟨hle, hstart⟩ := ho hsw
  have hblends := h.ramped.blends (K := K) hsw
  have hdone := h.ramped.acknowledged_iff fir firNums hi hsw
  have hnonneg := h.nonneg
  have hbounds : 0 ≤ (rampWeight (stage modNum ii c.mem) (c.sw ii) : K) ∧
      (rampWeight (stage modNum ii c.mem) (c.sw ii) : K) ≤ 1 := by
    by_cases hcnt : (stage modNum ii c.mem).cnt = (stage modNum ii c.mem).rmpcmp
    · rw [rampWeight, if_pos hcnt]
      exact weightOf_mem _
    · exact (rampWeight_mem hnonneg (by omega) hcnt _).mpr hle
  constructor
  case blends => exact hblends
  case output => rw [hout, hblends]
  case nonneg => exact hbounds.1
  case le_one => exact hbounds.2
  case settled => exact fun heq => absurd heq hsw
  case first =>
    intro _ h0
    rw [h.ramped.acknowledged_after hi hsw]
    by_cases hcnt : (stage modNum ii c.mem).cnt = (stage modNum ii c.mem).rmpcmp
    · rw [if_pos hcnt, rampWeight, if_pos hcnt]
      exact ⟨rfl, fun hramp => absurd (hcnt.symm.trans (hstart h0)) hramp⟩
    · have hramp : (stage modNum ii c.mem).rmpcmp ≠ 0 :=
        fun heq => hcnt ((hstart h0).trans heq.symm)
      rw [if_neg hcnt]
      exact ⟨(rampWeight_eq_weightOf hramp hcnt (sw_eq_zero_iff hi hsw)).mpr (hstart h0),
        fun _ => rfl⟩
  case acknowledged_iff =>
    intro _ _
    rw [hdone, h.cnt_eq hstart]
  case moves =>
    intro _ hgoing
    have hcnt : (stage modNum ii c.mem).cnt ≠ (stage modNum ii c.mem).rmpcmp :=
      fun heq => hgoing (hdone.mpr heq)
    have hramp : (stage modNum ii c.mem).rmpcmp ≠ 0 := by omega
    refine ⟨hramp, ?_⟩
    rw [← rampWeight_next hramp hcnt _ (stage modNum ii c.mem).swOut, hstage,
      h.ramped.switched hsw, if_neg hcnt]
    have hnext : Ramped { stage modNum ii c.mem with
        cnt := (stage modNum ii c.mem).cnt + 1, swOut := (stage modNum ii c.mem).swOut } :=
      ⟨h.ramped.filtSections, h.ramped.sType, h.ramped.rmpcmp⟩
    exact hnext.blends hsw

theorem Counted.smooth_iff (hi : ii < filters) {c : FilterCall K}
    (h : Counted (stage modNum ii c.mem) c.calls c.steady) :
    Smooth fir firNums modNum ii c ↔ Orderly modNum ii c := by
  by_cases hsw : c.sw ii = acknowledged modNum ii c.mem
  · exact iff_of_true (smooth_of_settled hi h.ramped.filtSections hsw) fun hne => absurd hsw hne
  · exact ⟨h.orderly_of_smooth hi, fun ho => ⟨_, h.smooth_of_orderly hi hsw ho⟩⟩

omit [IsStrictOrderedRing K] in
theorem Counted.call (hi : ii < filters) {c : FilterCall K}
    (h : Counted (stage modNum ii c.mem) c.calls c.steady) (ho : Orderly modNum ii c) :
    Counted (stage modNum ii (c.after fir firNums modNum)) (c.callsAfter fir firNums modNum ii)
      (c.steadyAfter fir firNums modNum ii) := by
  obtain ⟨-, hstage⟩ := stage_after fir firNums hi c h.ramped.filtSections
  have hback' : acknowledged modNum ii (c.after fir firNums modNum) =
      (stage modNum ii (c.after fir firNums modNum)).swOut := rfl
  have hback : acknowledged modNum ii c.mem = (stage modNum ii c.mem).swOut := rfl
  unfold FilterCall.steadyAfter FilterCall.callsAfter
  rw [hback', hstage]
  rw [Orderly, hback] at ho
  generalize stage modNum ii c.mem = g at h ho
  have hsteady : c.calls = 0 → c.steady = true := h.steady
  by_cases hsw : c.sw ii = g.swOut
  · rw [Stage.switched, ← hsw, switchFilter_same]
    exact ⟨⟨h.ramped.filtSections, h.ramped.sType, h.ramped.rmpcmp⟩, h.nonneg, by simp, by simp⟩
  · rw [h.ramped.switched hsw]
    obtain ⟨-, hstart⟩ := ho hsw
    by_cases hcnt : g.cnt = g.rmpcmp
    · rw [if_pos hcnt]
      exact ⟨⟨h.ramped.filtSections, h.ramped.sType, h.ramped.rmpcmp⟩, le_rfl, by simp, by simp⟩
    · rw [if_neg hcnt]
      have hcalls := h.cnt_eq hstart
      refine ⟨⟨h.ramped.filtSections, h.ramped.sType, h.ramped.rmpcmp⟩,
        Int.add_nonneg h.nonneg zero_le_one, fun _ => ?_, fun h0 => ?_⟩
      · simp [hsw, hcalls]
      · simp [hsw] at h0

variable {charSigned : Bool} {doubleBytes : K → List (BitVec 8)} {log : List (FilterCall K)}
variable {m : FilterMem K} {calls : ℕ} {steady : Bool}

omit [IsStrictOrderedRing K] in
/-- A reload changes `rmpcmp` only. -/
theorem Counted.reload (hi : ii < filters) (h : Counted (stage modNum ii m) calls steady)
    {p : VmeCoef K} {mem : ReloadMem K} (hall : AllRenewed p modNum m.mem mem filters)
    (hsections : HasSections p modNum ii) (htype : ((p.vmeCoeffs modNum).sType ii).tmod 10 = 2)
    (hramp : 0 ≤ (p.vmeCoeffs modNum).ramp ii) :
    Counted (stage modNum ii { m with mem := mem }) calls
      (calls = 0 || (steady && (p.vmeCoeffs modNum).ramp ii = (stage modNum ii m).rmpcmp)) := by
  have hn := hall.filtSections ii hi hsections
  have hs := hall.sType ii hi hsections
  have hr := hall.rmpcmp ii hi hsections
  refine ⟨⟨?_, ?_, ?_⟩, h.nonneg, h.cnt, fun h0 => by simp [h0]⟩
  · change (mem.filtC.coeffs modNum).filtSections ii ≠ 0
    rw [hn]
    unfold HasSections at hsections
    omega
  · change ((mem.filtC.coeffs modNum).sType ii).tmod 10 = 2
    rwa [hs]
  · change 0 ≤ (mem.fmt.inputs modNum).rmpcmp ii
    rwa [hr]

omit [IsStrictOrderedRing K] in
theorem SwitchRun.counted (hi : ii < filters)
    (h : SwitchRun fir firNums modNum ii charSigned doubleBytes log m calls steady)
    (ho : ∀ c ∈ log, Orderly modNum ii c) : Counted (stage modNum ii m) calls steady := by
  induction h with
  | start m hramped hcnt =>
    exact ⟨hramped, hcnt.ge, fun h => absurd rfl h, fun _ => rfl⟩
  | call c _ ih =>
    have hlast := ho c (List.mem_append_right _ List.mem_cons_self)
    exact (ih fun d hd => ho d (List.mem_append_left _ hd)).call hi hlast
  | reload _ p pL totMod n d mem hdrives hsections htype hramp ih =>
    obtain ⟨n', mem', hall, hdrives'⟩ := drives_renewal fir charSigned doubleBytes p modNum pL
      totMod _ d
    have hend := congrArg ResetState.mem (hdrives'.unique hdrives rfl rfl)
    have hmem : mem' = mem := hend
    exact (ih ho).reload hi (hmem ▸ hall) hsections htype hramp

/-- Filters with the output type 2 in any sequence of calls and reloads: every call is smooth if and
only if at every call that switches the count has not passed `rmpcmp`, and is 0 at the first one of
a transition. -/
theorem smooth_iff_orderly (hi : ii < filters)
    (h : SwitchRun fir firNums modNum ii charSigned doubleBytes log m calls steady) :
    (∀ c ∈ log, Smooth fir firNums modNum ii c) ↔ ∀ c ∈ log, Orderly modNum ii c := by
  induction h with
  | start => simp
  | call c hrun ih =>
    rw [List.forall_mem_append, List.forall_mem_append, ih]
    refine and_congr_right fun hold => ?_
    simp only [List.mem_singleton, forall_eq]
    exact (hrun.counted hi hold).smooth_iff hi
  | reload _ _ _ _ _ _ _ _ _ _ _ ih => exact ih

end Switching

instance (modNum ii : ℕ) (c : FilterCall ℚ) : Decidable (Orderly modNum ii c) :=
  inferInstanceAs (Decidable (_ → _))

/-- A module with one filter, of one section and with a ramp, that is off. -/
def rampedFilter (ramp : ℤ) : FilterMem ℚ where
  mem := {
    filtC := { Coef.zero with coeffs := fun _ => { FmOpCoef.zero with
      filtSections := fun j => if j = 0 then 1 else 0
      sType := fun _ => 12 } }
    fmt := { FiltMod.zero with inputs := fun _ =>
      { opSwitchP := 0, rset := 0, rmpcmp := fun _ => ramp, timeout := fun _ => 0 } }
    localCoeff := VmeFmOpCoef.zero
    localFirFiltCoeff := fun _ _ => 0
    changed := fun _ => 0 }
  prevFirOutput := fun _ => 0
  cnt := fun _ _ => 0

/-- The call that follows, with a request. -/
def FilterCall.next (c : FilterCall ℚ) (opSwitchE : UInt32) : FilterCall ℚ where
  mem := c.after false 32 0
  calls := c.callsAfter false 32 0 0
  steady := c.steadyAfter false 32 0 0
  opSwitchE := opSwitchE
  fmInput := 1
  cycleNum := 0

def firstCall (ramp : ℤ) (opSwitchE : UInt32) : FilterCall ℚ :=
  ⟨rampedFilter ramp, 0, true, opSwitchE, 1, 0⟩

/-- A run up to the call `c`. -/
def RunTo (log : List (FilterCall ℚ)) (c : FilterCall ℚ) : Prop :=
  SwitchRun false 32 0 0 true (fun _ => []) log (c.after false 32 0) (c.callsAfter false 32 0 0)
    (c.steadyAfter false 32 0 0)

theorem runTo_firstCall {ramp : ℤ} (hramp : 0 ≤ ramp) (E : UInt32) :
    RunTo [firstCall ramp E] (firstCall ramp E) := by
  have hramped : Ramped (stage 0 0 (rampedFilter ramp)) := ⟨Nat.one_ne_zero, rfl, hramp⟩
  exact .call (firstCall ramp E) (.start (rampedFilter ramp) hramped rfl)

theorem RunTo.next {log : List (FilterCall ℚ)} {c : FilterCall ℚ} (h : RunTo log c) (E : UInt32) :
    RunTo (log ++ [c.next E]) (c.next E) := by
  unfold RunTo at h ⊢
  apply SwitchRun.call (c.next E)
  simp only [FilterCall.next]
  exact h

theorem RunTo.counted {log : List (FilterCall ℚ)} {c : FilterCall ℚ} (h : RunTo log c)
    (ho : ∀ c ∈ log, Orderly 0 0 c) (E : UInt32) :
    Counted (stage 0 0 (c.next E).mem) (c.next E).calls (c.next E).steady := by
  simp only [FilterCall.next]
  exact SwitchRun.counted (by decide) h ho

/-- A filter is turned on with a ramp of two calls. -/
theorem smooth_iff_orderly_turned_on :
    let c1 := firstCall 2 0x10
    let c2 := c1.next 0x10
    let c3 := c2.next 0x10
    acknowledged 0 0 (c3.after false 32 0) = 0x10 ∧
      ∀ c ∈ [c1] ++ [c2] ++ [c3], Smooth false 32 0 0 c := by
  intro c1 c2 c3
  have hrun : RunTo ([c1] ++ [c2] ++ [c3]) c3 :=
    ((runTo_firstCall (by decide) 0x10).next 0x10).next 0x10
  have hsmooth := smooth_iff_orderly (by decide) hrun
  refine ⟨by decide +kernel, hsmooth.mpr ?_⟩
  simp only [List.forall_mem_append, List.forall_mem_singleton]
  decide +kernel

/-- A request that is withdrawn in the middle of its ramp leaves the count: the next transition
starts with a jump. -/
theorem withdrawn_request_jumps :
    ∃ log m calls steady, SwitchRun false 32 0 0 true (fun _ : ℚ => []) log m calls steady ∧
      ¬∀ c ∈ log, Smooth false 32 0 0 c := by
  let c1 := firstCall 4 0x10
  let c2 := c1.next 0x10
  let c3 := c2.next 0
  let c4 := c3.next 0x10
  have hrun3 : RunTo ([c1] ++ [c2] ++ [c3]) c3 :=
    ((runTo_firstCall (by decide) 0x10).next 0x10).next 0
  have hrun4 := hrun3.next 0x10
  unfold RunTo at hrun4
  refine ⟨_, _, _, _, hrun4, fun h => ?_⟩
  have horderly : ∀ c ∈ [c1] ++ [c2] ++ [c3], Orderly 0 0 c := by
    simp only [List.forall_mem_append, List.forall_mem_singleton]
    decide +kernel
  have hlast := h c4 (List.mem_append_right _ List.mem_cons_self)
  have hbad : ¬Orderly 0 0 c4 := by decide +kernel
  have hcounted := hrun3.counted horderly 0x10
  exact hbad ((hcounted.smooth_iff (by decide)).mp hlast)

end AdvLigoRts.Drv
