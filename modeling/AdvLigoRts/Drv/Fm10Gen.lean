import AdvLigoRts.Drv.Crc

/-!
# `fm10Gen.c`

The filter modules of a front end, `src/include/drv/fm10Gen.c`: the two forms of a filter of
second order sections, the load of coefficients at start-up and their reload in a running front
end, one filter at a time and one section a cycle. `fir` says whether the code is built with
`FIR_FILTERS`. The numbers are those of a type `K`, whose bytes `doubleBytes` gives.
-/

namespace AdvLigoRts.Drv

/-! ## Constants and structures -/

def filters : ℕ := 10

def maxHistry : ℕ := 20

def maxSoSections : ℕ := 10

def maxFirModules : ℕ := 6

def firTaps : ℕ := 512

def maxFirSoSections : ℕ := firTaps / 4

def firPolyphaseSize : ℕ := 32

def pow2Out (i : ℕ) : UInt32 :=
  [0x20, 0x80, 0x200, 0x800, 0x2000, 0x8000, 0x20000, 0x80000, 0x200000, 0x800000].getD i 0

/-- `VME_FM_OP_COEF`: a module in shared memory. -/
structure VmeFmOpCoef (K : Type*) where
  filtCoeff : ℕ → ℕ → K
  filtName : ℕ → List Char
  bankNum : ℕ
  filtSections : ℕ → ℕ
  sType : ℕ → ℤ
  ramp : ℕ → ℤ
  timout : ℕ → ℤ
  crc : BitVec 32
  filterType : ℕ → ℕ
  biquad : ℤ

/-- `VME_COEF`: the coefficients in shared memory. -/
structure VmeCoef (K : Type*) where
  firFiltCoeff : ℕ → ℕ → ℕ → K
  vmeCoeffs : ℕ → VmeFmOpCoef K

/-- `FM_OP_COEF`: the coefficients of a module in local memory. -/
structure FmOpCoef (K : Type*) where
  filtCoeff : ℕ → ℕ → K
  filtHist : ℕ → ℕ → K
  filtSections : ℕ → ℕ
  sType : ℕ → ℤ
  decHist : ℕ → K
  filterType : ℕ → ℕ
  biquad : ℤ

/-- `COEF`: the coefficients in local memory. -/
structure Coef (K : Type*) where
  coeffs : ℕ → FmOpCoef K
  firFiltCoeff : ℕ → ℕ → ℕ → K
  firHistory : ℕ → ℕ → ℕ → ℕ → K

/-- `FM_OP_IN`, of which the load uses these fields. -/
structure FmOpIn where
  opSwitchP : UInt32
  rset : UInt32
  rmpcmp : ℕ → ℤ
  timeout : ℕ → ℤ

/-- `FILT_MOD`. -/
structure FiltMod where
  inputs : ℕ → FmOpIn
  coefLoadError : ℤ

/-- The bytes of an `int`. -/
def intBytes (x : ℤ) : List (BitVec 8) :=
  (List.range 4).map fun i => (BitVec.ofInt 32 x).extractLsb' (8 * i) 8

section Filters

variable {K : Type*} [Add K] [Sub K] [Mul K]

/-! ## The filters -/

/-- A pass of the loop of `iir_filter`, on the output so far and the history. -/
def iirSection (coef : ℕ → K) (s : K × (ℕ → K)) (i : ℕ) : K × (ℕ → K) :=
  let history1 := s.2 (2 * i)
  let history2 := s.2 (2 * i + 1)
  let output := s.1 - history1 * coef (4 * i + 1)
  let newHist := output - history2 * coef (4 * i + 2)
  let output := newHist + history1 * coef (4 * i + 3)
  let output := output + history2 * coef (4 * i + 4)
  (output, Function.update (Function.update s.2 (2 * i + 1) history1) (2 * i) newHist)

/-- `iir_filter`: the output and the history it leaves. -/
def iirFilter (coef : ℕ → K) (n : ℕ) (input : K) (history : ℕ → K) : K × (ℕ → K) :=
  (List.range n).foldl (iirSection coef) (input * coef 0, history)

/-- A pass of the loop of `iir_filter_biquad`. -/
def biquadSection (coef : ℕ → K) (s : K × (ℕ → K)) (i : ℕ) : K × (ℕ → K) :=
  let w := s.2 (2 * i)
  let u := s.2 (2 * i + 1)
  let newW := s.1 + coef (4 * i + 1) * w + coef (4 * i + 2) * u
  let output := s.1 + w * coef (4 * i + 3) + u * coef (4 * i + 4)
  let newU := w + u
  (output, Function.update (Function.update s.2 (2 * i) newW) (2 * i + 1) newU)

def iirFilterBiquad (coef : ℕ → K) (n : ℕ) (input : K) (history : ℕ → K) : K × (ℕ → K) :=
  (List.range n).foldl (biquadSection coef) (input * coef 0, history)

/-- The outputs of a filter that is called with the inputs in order. -/
def filterRun (filter : K → (ℕ → K) → K × (ℕ → K)) (history : ℕ → K) : List K → List K
  | [] => []
  | input :: inputs =>
    (filter input history).1 :: filterRun filter (filter input history).2 inputs

end Filters

/-! ## Coefficients at start-up -/

section Load

variable {K : Type*} (fir : Bool)

/-- The body of the inner loop of `readCoefVme`, on the filter `jj` of the module `ii`. -/
def readCoefFilter (p : VmeCoef K) (ii : ℕ) (s : Coef K × FiltMod) (jj : ℕ) :
    Except (Coef K × FiltMod) (Coef K × FiltMod) :=
  let vme := p.vmeCoeffs ii
  if vme.filtSections jj = 0 then .ok s
  else
    let c := s.1.coeffs ii
    let c := { c with filterType := Function.update c.filterType jj (vme.filterType jj) }
    if fir ∧ vme.filterType jj > maxFirModules then
      let c := { c with filterType := Function.update c.filterType jj 0 }
      .error ({ s.1 with coeffs := Function.update s.1.coeffs ii c }, s.2)
    else
      let c := { c with
        filtSections := Function.update c.filtSections jj (vme.filtSections jj)
        sType := Function.update c.sType jj (vme.sType jj) }
      let i := s.2.inputs ii
      let i := { i with
        rmpcmp := Function.update i.rmpcmp jj (vme.ramp jj)
        timeout := Function.update i.timeout jj (vme.timout jj) }
      let fmt := { s.2 with inputs := Function.update s.2.inputs ii i }
      if vme.filterType jj = 0 then
        if vme.filtSections jj > 10 then
          .error ({ s.1 with coeffs := Function.update s.1.coeffs ii c }, fmt)
        else
          let row : ℕ → K := fun kk =>
            if kk < vme.filtSections jj * 4 + 1 then vme.filtCoeff jj kk else c.filtCoeff jj kk
          let c := { c with filtCoeff := Function.update c.filtCoeff jj row }
          .ok ({ s.1 with coeffs := Function.update s.1.coeffs ii c }, fmt)
      else .ok ({ s.1 with coeffs := Function.update s.1.coeffs ii c }, fmt)

/-- The body of the outer loop of `readCoefVme`. -/
def readCoefModule (p : VmeCoef K) (s : Coef K × FiltMod) (ii : ℕ) :
    Except (Coef K × FiltMod) (Coef K × FiltMod) :=
  let c := { s.1.coeffs ii with biquad := (p.vmeCoeffs ii).biquad }
  let filtC := { s.1 with coeffs := Function.update s.1.coeffs ii c }
  (List.range filters).foldlM (readCoefFilter fir p ii) (filtC, s.2)

/-- `readCoefVme`, on the modules `bF` to `sF - 1`. -/
def readCoefVme (filtC : Coef K) (fmt : FiltMod) (bF sF : ℕ) (p : VmeCoef K) :
    Except (Coef K × FiltMod) (Coef K × FiltMod) :=
  let filtC := if fir then { filtC with
    firFiltCoeff := fun jj kk l =>
      if jj < maxFirModules ∧ kk < filters ∧ l < firTaps + 1 then p.firFiltCoeff jj kk l
      else filtC.firFiltCoeff jj kk l } else filtC
  (List.range' bF (sF - bF)).foldlM (readCoefModule fir p) (filtC, fmt)

end Load

/-! ## Coefficients in a running front end -/

section Reload

variable {K : Type*} (fir charSigned : Bool) (doubleBytes : K → List (BitVec 8))

def maxUpdateCycle : ℕ := (if fir then maxFirSoSections else maxSoSections) + 1

/-- What `readCoefVme2` works on: the local memory, its static copies and `changed`. -/
structure ReloadMem (K : Type*) where
  filtC : Coef K
  fmt : FiltMod
  localCoeff : VmeFmOpCoef K
  localFirFiltCoeff : ℕ → ℕ → K
  changed : ℕ → ℕ

/-- `readCoefVme2` in the cycle 0. -/
def reloadHead (m : ReloadMem K) (modNum1 filtNum : ℕ) (p : VmeCoef K) : ℕ × ReloadMem K :=
  let vme := p.vmeCoeffs modNum1
  let type := vme.filterType filtNum
  let ii := vme.filtSections filtNum
  let lc := m.localCoeff
  let crc := if filtNum = 0 then 0 else lc.crc
  let crc := crcPtr charSigned (intBytes ii) crc
  if (ii > 0 ∧ ii < 11) ∨ (ii > 10 ∧ type > 0) then
    let crc := crcPtr charSigned (intBytes (vme.sType filtNum)) crc
    let crc := crcPtr charSigned (intBytes (vme.ramp filtNum)) crc
    let crc := crcPtr charSigned (intBytes (vme.timout filtNum)) crc
    (1, { m with
      changed := fun _ => 0
      localCoeff := { lc with
        filtSections := Function.update lc.filtSections filtNum ii
        filterType := Function.update lc.filterType filtNum type
        sType := Function.update lc.sType filtNum (vme.sType filtNum)
        ramp := Function.update lc.ramp filtNum (vme.ramp filtNum)
        timout := Function.update lc.timout filtNum (vme.timout filtNum)
        crc := crc } })
  else
    let i := m.fmt.inputs modNum1
    let i := { i with opSwitchP := i.opSwitchP &&& ~~~ pow2Out filtNum }
    let c := m.filtC.coeffs modNum1
    let c := { c with
      filtSections := Function.update c.filtSections filtNum 0
      filterType := Function.update c.filterType filtNum 0 }
    (maxUpdateCycle fir, { m with
      filtC := { m.filtC with coeffs := Function.update m.filtC.coeffs modNum1 c }
      fmt := { m.fmt with inputs := Function.update m.fmt.inputs modNum1 i }
      changed := fun _ => 1
      localCoeff := { lc with
        filtSections := Function.update lc.filtSections filtNum 0
        crc := crc } })

variable [BEq K]

/-- The copy of the coefficient `kk` to the static copies. -/
def reloadCoeff (modNum1 filtNum : ℕ) (p : VmeCoef K) (m : ReloadMem K) (kk : ℕ) : ReloadMem K :=
  let vme := p.vmeCoeffs modNum1
  let type := vme.filterType filtNum
  let lc := m.localCoeff
  let count (old temp : K) : ℕ → ℕ :=
    if old != temp then Function.update m.changed filtNum (m.changed filtNum + 1) else m.changed
  if type > 0 then
    if fir then
      let temp := p.firFiltCoeff (type - 1) filtNum kk
      { m with
        changed := count (m.filtC.firFiltCoeff (type - 1) filtNum kk) temp
        localFirFiltCoeff := Function.update m.localFirFiltCoeff filtNum
          (Function.update (m.localFirFiltCoeff filtNum) kk temp)
        localCoeff := { lc with crc := crcPtr charSigned (doubleBytes temp) lc.crc } }
    else m
  else
    let temp := vme.filtCoeff filtNum kk
    { m with
      changed := count ((m.filtC.coeffs modNum1).filtCoeff filtNum kk) temp
      localCoeff := { lc with
        filtCoeff := Function.update lc.filtCoeff filtNum
          (Function.update (lc.filtCoeff filtNum) kk temp)
        crc := crcPtr charSigned (doubleBytes temp) lc.crc } }

/-- `readCoefVme2` in the cycles that copy a section each. -/
def reloadSection (m : ReloadMem K) (modNum1 filtNum cycle : ℕ) (p : VmeCoef K) :
    ℕ × ReloadMem K :=
  let copy := reloadCoeff fir charSigned doubleBytes modNum1 filtNum p
  let m := if cycle = 1 then copy m 0 else m
  let m := (List.range' (cycle * 4 - 3) 4).foldl copy m
  (if m.localCoeff.filtSections filtNum > cycle then cycle + 1 else maxUpdateCycle fir, m)

variable [Zero K]

/-- The histories of the filters that are `changed` are cleared. -/
def clearHistories (m : ReloadMem K) (modNum1 type : ℕ) : Coef K :=
  if type ≠ 0 then
    if fir then { m.filtC with
      firHistory := fun t jj kk hh =>
        if t = type - 1 ∧ jj < filters ∧ m.changed jj ≠ 0 ∧ kk < firPolyphaseSize ∧ hh < firTaps
        then 0 else m.filtC.firHistory t jj kk hh }
    else m.filtC
  else
    let c := m.filtC.coeffs modNum1
    let c := { c with
      filtHist := fun jj kk =>
        if jj < filters ∧ m.changed jj ≠ 0 ∧ kk < maxHistry then 0 else c.filtHist jj kk }
    { m.filtC with coeffs := Function.update m.filtC.coeffs modNum1 c }

/-- `readCoefVme2` in the cycle `MAX_UPDATE_CYCLE`: the static copies become the filter. -/
def reloadFilter (m : ReloadMem K) (modNum1 filtNum : ℕ) (p : VmeCoef K) : ReloadMem K :=
  let type := (p.vmeCoeffs modNum1).filterType filtNum
  let lc := m.localCoeff
  if lc.filtSections filtNum = 0 then m
  else
    let filtC := clearHistories fir m modNum1 type
    let c := filtC.coeffs modNum1
    let c := { c with
      filtSections := Function.update c.filtSections filtNum (lc.filtSections filtNum)
      filterType := Function.update c.filterType filtNum (lc.filterType filtNum)
      sType := Function.update c.sType filtNum (lc.sType filtNum) }
    let i := m.fmt.inputs modNum1
    let i := { i with
      rmpcmp := Function.update i.rmpcmp filtNum (lc.ramp filtNum)
      timeout := Function.update i.timeout filtNum (lc.timout filtNum) }
    let fmt := { m.fmt with inputs := Function.update m.fmt.inputs modNum1 i }
    let row (new old : ℕ → K) : ℕ → K := fun kk =>
      if kk < lc.filtSections filtNum * 4 + 1 then new kk else old kk
    if type > 0 then
      let bank := filtC.firFiltCoeff (type - 1)
      let bank := if fir then Function.update bank filtNum
        (row (m.localFirFiltCoeff filtNum) (bank filtNum)) else bank
      { m with
        filtC := { filtC with
          coeffs := Function.update filtC.coeffs modNum1 c
          firFiltCoeff := Function.update filtC.firFiltCoeff (type - 1) bank }
        fmt := fmt }
    else
      let coeffs := row (lc.filtCoeff filtNum) (c.filtCoeff filtNum)
      let c := { c with filtCoeff := Function.update c.filtCoeff filtNum coeffs }
      { m with
        filtC := { filtC with coeffs := Function.update filtC.coeffs modNum1 c }
        fmt := fmt }

/-- `readCoefVme2`: the cycle to come and the memory it leaves. -/
def readCoefVme2 (m : ReloadMem K) (modNum1 filtNum cycle : ℕ) (p : VmeCoef K) :
    ℕ × ReloadMem K :=
  if cycle = 0 then reloadHead fir charSigned m modNum1 filtNum p
  else if cycle < maxUpdateCycle fir then
    reloadSection fir charSigned doubleBytes m modNum1 filtNum cycle p
  else if cycle = maxUpdateCycle fir then (0, reloadFilter fir m modNum1 filtNum p)
  else (0, m)

/-- The state of `checkFiltResetId` for one system `id`: `filtResetId[ id ]`, the memories of the
front end and the `FILT_MOD` in shared memory. -/
structure ResetState (K : Type*) where
  fmResetCoeff : ℕ
  fmResetCounter : ℕ
  fmSubCounter : ℕ
  fmResetDsp : ℕ
  mem : ReloadMem K
  dspVme : FiltMod

/-- `checkFiltResetId` for `bankNum`, called with the local memory `pL`. -/
def checkFiltResetId (s : ResetState K) (bankNum : ℤ) (pL : ℕ) (totMod : ℕ) (p : VmeCoef K) :
    ResetState K :=
  if s.fmResetCoeff ≠ 0 then
    if s.fmResetDsp = pL then
      let (cycle, mem) := readCoefVme2 fir charSigned doubleBytes s.mem (s.fmResetCoeff - 1)
        s.fmResetCounter s.fmSubCounter p
      let s := { s with fmSubCounter := cycle, mem := mem }
      if cycle = 0 then
        if s.fmResetCounter + 1 ≥ filters then { s with
          fmResetCounter := 0
          dspVme := { s.dspVme with coefLoadError := s.fmResetCoeff }
          fmResetCoeff := 0 }
        else { s with fmResetCounter := s.fmResetCounter + 1 }
      else s
    else s
  else if 0 ≤ bankNum ∧ bankNum < totMod then
    let bank := bankNum.toNat
    let i := s.dspVme.inputs bank
    let status := i.rset &&& 0x3
    let dspVme := if status ≠ 0 then { s.dspVme with
      inputs := Function.update s.dspVme.inputs bank { i with rset := 0 } } else s.dspVme
    let filtC := s.mem.filtC
    let c := filtC.coeffs bank
    let filtC := if status &&& 2 ≠ 0 then { filtC with
      coeffs := Function.update filtC.coeffs bank { c with
        filtHist := fun jj kk =>
          if jj < filters ∧ ¬ (fir ∧ c.filterType jj > 0) ∧ kk < maxHistry then 0
          else c.filtHist jj kk
        decHist := fun jj => if jj < 8 then 0 else c.decHist jj }
      firHistory := fun t jj kk hh =>
        if fir ∧ jj < filters ∧ c.filterType jj > 0 ∧ t = c.filterType jj - 1 ∧
          kk < firPolyphaseSize ∧ hh < firTaps then 0 else filtC.firHistory t jj kk hh }
      else filtC
    let s := { s with dspVme := dspVme, mem := { s.mem with filtC := filtC } }
    if status &&& 1 ≠ 0 then { s with fmResetCoeff := bank + 1, fmResetDsp := pL }
    else { s with fmResetCoeff := 0 }
  else s

end Reload

end AdvLigoRts.Drv
