import AdvLigoRts.Drv.Fm10Gen
import Mathlib.Algebra.Order.Field.Basic

/-!
# The loop of `filterModuleD2`

A call of `filterModuleD2` passes its input through the ten filters of a module. The operator asks
for a filter with a bit of `opSwitchE`; `opSwitchP` says which filters are in use. While the two
differ, `sType` says how the output goes over from one to the other. The numbers are exact: those
of an ordered field `K`.
-/

namespace AdvLigoRts.Drv

def pow2In (i : ℕ) : UInt32 :=
  [0x10, 0x40, 0x100, 0x400, 0x1000, 0x4000, 0x10000, 0x40000, 0x100000, 0x400000].getD i 0

/-- What `filterModuleD2` works on: the local memory with the `FILT_MOD`, `prevFirOutput`, and
`cnt` of each filter of each module. -/
structure FilterMem (K : Type*) where
  mem : ReloadMem K
  prevFirOutput : ℕ → K
  cnt : ℕ → ℕ → ℤ

section FilterModule

variable {K : Type*} [Field K] [LinearOrder K]

/-- `fir_filter`: the output and the history it leaves. -/
def firFilter (coef : ℕ → K) (n : ℕ) (input : K) (history : ℕ → K) : K × (ℕ → K) :=
  let output := (List.range (n - 2)).foldl
    (fun output i => output + history (i + 1) * coef (n - 2 - i)) (history 0 * coef (n - 1))
  (output + input * coef 0, fun i =>
    if i + 2 < n then history (i + 1) else if i + 2 = n then input else history i)

/-! ## The switching of one filter -/

/-- What the switching of a filter leaves: `fmInput`, `cnt` and `sw_out`. -/
structure Switched (K : Type*) where
  fmInput : K
  cnt : ℤ
  swOut : UInt32

/-- The output goes over at once. -/
def switchNow (sw : UInt32) (cnt : ℤ) (fmInput filtData : K) : Switched K :=
  ⟨if sw ≠ 0 then filtData else fmInput, cnt, sw⟩

/-- The output type 2. -/
def switchRamp (ramp kk : ℤ) (sw swOut : UInt32) (fmInput filtData : K) : Switched K :=
  if kk = ramp then switchNow sw 0 fmInput filtData
  else if kk ≠ 0 then
    let t : K := kk / ramp
    ⟨if sw ≠ 0 then (1 - t) * fmInput + t * filtData else t * fmInput + (1 - t) * filtData,
      kk + 1, swOut⟩
  else ⟨if sw ≠ 0 then fmInput else filtData, kk + 1, swOut⟩

/-- The output types 3, with `diff`, and 4. -/
def switchCompare (diff : Bool) (ramp timeout kk : ℤ) (sw swOut : UInt32)
    (fmInput filtData : K) : Switched K :=
  let compare := if diff then fmInput - filtData else if swOut ≠ 0 then filtData else fmInput
  let compare := if compare < 0 then -compare else compare
  if kk + 1 ≥ timeout ∨ compare ≤ ramp then switchNow sw 0 fmInput filtData
  else ⟨if swOut ≠ 0 then filtData else fmInput, kk + 1, swOut⟩

/-- The value behind a filter, by `sTypeMod10`. -/
def switchFilter (sTypeMod10 ramp timeout kk : ℤ) (sw swOut : UInt32) (fmInput filtData : K) :
    Switched K :=
  if sw = swOut then ⟨if sw ≠ 0 then filtData else fmInput, kk, swOut⟩
  else if sTypeMod10 = 1 then switchNow sw kk fmInput filtData
  else if sTypeMod10 = 2 then switchRamp ramp kk sw swOut fmInput filtData
  else if sTypeMod10 = 3 then switchCompare true ramp timeout kk sw swOut fmInput filtData
  else if sTypeMod10 = 4 then switchCompare false ramp timeout kk sw swOut fmInput filtData
  else ⟨777, kk, swOut⟩

/-! ## The loop -/

variable (fir : Bool) (firNums modNum : ℕ)

/-- `filtData`, and the memory the filter leaves. `firNums` is 32 or 64, by the rate. -/
def filterData (cycleNum : ℕ) (swIn : Bool) (fmInput : K) (s : FilterMem K) (ii : ℕ) :
    K × FilterMem K :=
  let filtC := s.mem.filtC
  let c := filtC.coeffs modNum
  if fir ∧ c.filterType ii ≠ 0 then
    let type := c.filterType ii - 1
    if cycleNum % 32 ≠ 0 then (s.prevFirOutput type, s)
    else if type < maxFirModules then
      let firNum := cycleNum / 32 % firNums
      let input := fmInput * filtC.firFiltCoeff type ii 0
      let (filtData, history) := firFilter (fun k => filtC.firFiltCoeff type ii (k + 1))
        (c.filtSections ii * 4) (if swIn then input else 0) (filtC.firHistory type ii firNum)
      let firHistory := Function.update filtC.firHistory type
        (Function.update (filtC.firHistory type) ii
          (Function.update (filtC.firHistory type ii) firNum history))
      (filtData, { s with
        mem := { s.mem with filtC := { filtC with firHistory := firHistory } }
        prevFirOutput := Function.update s.prevFirOutput type filtData })
    else (type, s)
  else
    let filter := if c.biquad ≠ 0 then iirFilterBiquad else iirFilter
    let (filtData, history) :=
      filter (c.filtCoeff ii) (c.filtSections ii) (if swIn then fmInput else 0) (c.filtHist ii)
    let c := { c with filtHist := Function.update c.filtHist ii history }
    let filtC := { filtC with coeffs := Function.update filtC.coeffs modNum c }
    (filtData, { s with mem := { s.mem with filtC := filtC } })

/-- The count is kept; a switch that is done is acknowledged, and one to off clears the history. -/
def acknowledge (sw : UInt32) (r : Switched K) (s : FilterMem K) (ii : ℕ) : FilterMem K :=
  let cnt := Function.update s.cnt modNum (Function.update (s.cnt modNum) ii r.cnt)
  if sw = r.swOut then
    let c := s.mem.filtC.coeffs modNum
    let c := if sw = 0 then { c with
      filtHist := Function.update c.filtHist ii
        fun jj => if jj < maxHistry then 0 else c.filtHist ii jj } else c
    let i := s.mem.fmt.inputs modNum
    let i := { i with
      opSwitchP := if r.swOut ≠ 0 then i.opSwitchP ||| pow2Out ii
        else i.opSwitchP &&& ~~~pow2Out ii }
    { s with
      mem := { s.mem with
        filtC := { s.mem.filtC with coeffs := Function.update s.mem.filtC.coeffs modNum c }
        fmt := { s.mem.fmt with inputs := Function.update s.mem.fmt.inputs modNum i } }
      cnt := cnt }
  else { s with cnt := cnt }

/-- The body of the loop over the filters. -/
def filterStep (opSwitchE opSwitchP : UInt32) (cycleNum : ℕ) (s : K × FilterMem K) (ii : ℕ) :
    K × FilterMem K :=
  let c := s.2.mem.filtC.coeffs modNum
  if c.filtSections ii = 0 then s
  else
    let sw := opSwitchE &&& pow2In ii
    let swOut := opSwitchP &&& pow2In ii
    let sType := c.sType ii
    let swIn := sType < 20 ∨ swOut ≠ 0 ∨ (sType = 22 ∧ sw ≠ 0)
    let (filtData, m) := filterData fir firNums modNum cycleNum swIn s.1 s.2 ii
    let i := s.2.mem.fmt.inputs modNum
    let r := switchFilter (sType.tmod 10) (i.rmpcmp ii) (i.timeout ii) (s.2.cnt modNum ii) sw swOut
      s.1 filtData
    (r.fmInput, if sw = swOut then m else acknowledge modNum sw r m ii)

/-- The loop over the filters, for the input `fmInput` behind the offset. -/
def applyFilters (opSwitchE : UInt32) (cycleNum : ℕ) (fmInput : K) (s : FilterMem K) :
    K × FilterMem K :=
  let opSwitchP := (s.mem.fmt.inputs modNum).opSwitchP >>> 1
  (List.range filters).foldl (filterStep fir firNums modNum opSwitchE opSwitchP cycleNum)
    (fmInput, s)

end FilterModule

end AdvLigoRts.Drv
