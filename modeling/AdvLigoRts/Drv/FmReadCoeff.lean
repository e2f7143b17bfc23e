import AdvLigoRts.Drv.Fm10Gen
import AdvLigoRts.Lib.TextStream

/-!
# `fmReadCoeff.c`

`fmReadCoeffFile` reads the filters of a subsystem from its coefficient file, and in a build with
`FIR_FILTERS` from a second file behind it, and then stores them in shared memory. A filter
stands on a line of 12 words and on a line of 4 words for each further section. For a module in
biquad form the coefficients are converted as they are read. `strtod` is the library function:
the number at the start of a word and the rest of the word.
-/

namespace AdvLigoRts.Drv

open PvLib

def maxTokens : ℕ := 12

/-- `fmSubSysMap`: a filter module of the subsystem, with the placeholder that the file fills. -/
structure FmSubSysMap (K : Type) where
  name : List Char
  fmModNum : ℕ
  biquad : ℤ
  filters : ℕ
  fmd : VmeFmOpCoef K

/-! ## Words -/

def infoLine (line : List Char) : Bool :=
  match (line.dropWhile isSpace).head? with
  | none => false
  | some c => c != '#'

def lineTok (line : List Char) : List (List Char) :=
  ((line.splitOnP fun c => c == ' ' || c == '\t' || c == '\n').filter (· ≠ [])).take maxTokens

/-- `intToken`: `strtol` stops at the bounds of a `long`, of which `int` takes the low bits. -/
def intToken (str : List Char) : Option ℤ :=
  match takeInt str with
  | some (v, []) => some ((max (-2 ^ 63) (min v (2 ^ 63 - 1))).bmod (2 ^ 32))
  | _ => none

inductive LineError where
  | invalidLine
  | invalidCont
  | badField2
  | rangeField2
  | badField3
  | wrongField3
  | badField4
  | wrongField4
  | tooManyFirs
  | badField5
  | wrongField5
  | badField6
  | wrongField6
  | badField7
  | badCoeffs
deriving DecidableEq, Repr

def need {α : Type*} (value : Option α) (e : LineError) : Except LineError α :=
  match value with
  | some a => .ok a
  | none => .error e

/-- Go on if the condition does not hold. -/
def failIf (bad : Prop) [Decidable bad] (e : LineError) : Except LineError Unit :=
  if bad then .error e else .ok ()

section Read

variable {K : Type} [Add K] [Sub K] [Neg K] [One K] [Zero K]
variable (fir : Bool) (strtod : List Char → K × List Char)

def doubleToken (str : List Char) : Option K :=
  match (strtod str).2 with
  | [] => some (strtod str).1
  | c :: _ => if c = '\n' then some (strtod str).1 else none

/-- The numbers in `n` words from the word `first` on. -/
def doubleTokens (tok : List (List Char)) (first n : ℕ) : Option (ℕ → K) :=
  ((List.range n).mapM fun i => doubleToken strtod (tok.getD (first + i) [])).map
    fun l i => l.getD i 0

/-! ## Lines -/

/-- The local variables for the line on which a filter starts. -/
structure FilterLine (K : Type) where
  num : ℕ
  sType : ℤ
  filtSections : ℕ
  filterType : ℕ
  ramp : ℤ
  timeout : ℤ
  filtName : List Char
  filtCoeff : ℕ → K

def maxSos : ℕ := if fir then maxFirSoSections else maxSoSections

/-- The checks of the line on which a filter starts, behind `nFirFilters` FIR filters. -/
def parseFilterLine (nFirFilters : ℕ) (tok : List (List Char)) :
    Except LineError (FilterLine K) := do
  let num ← need (intToken (tok.getD 1 [])) .badField2
  failIf (num < 0 ∨ num > 9) .rangeField2
  let sType ← need (intToken (tok.getD 2 [])) .badField3
  let inType := sType.tdiv 10
  let outType := sType.tmod 10
  failIf ((inType ≠ 1 ∧ inType ≠ 2) ∨ outType < 1 ∨ outType > 4) .wrongField3
  let filtSections ← need (intToken (tok.getD 3 [])) .badField4
  failIf (¬ (filtSections > 0 ∧ filtSections ≤ maxSos fir)) .wrongField4
  failIf (filtSections > maxSoSections ∧ nFirFilters ≥ maxFirModules) .tooManyFirs
  let ramp ← need (intToken (tok.getD 4 [])) .badField5
  failIf (ramp < 0) .wrongField5
  let timeout ← need (intToken (tok.getD 5 [])) .badField6
  failIf (timeout < 0) .wrongField6
  failIf ((tok.getD 6 []).length > 31) .badField7
  let filtCoeff ← need (doubleTokens strtod tok 7 5) .badCoeffs
  .ok {
    num := num.toNat
    sType := sType
    filtSections := filtSections.toNat
    filterType := if filtSections > maxSoSections then nFirFilters + 1 else 0
    ramp := ramp
    timeout := timeout
    filtName := tok.getD 6 []
    filtCoeff := filtCoeff }

/-- The coefficient `j` of the line on which a filter starts, as it is stored. -/
def firstCoeff (biquad : ℤ) (filtCoeff : ℕ → K) (j : ℕ) : K :=
  if biquad ≠ 0 then
    match j with
    | 1 => - filtCoeff 1 - 1
    | 2 => - filtCoeff 2 - filtCoeff 1 - 1
    | 3 => filtCoeff 3 - filtCoeff 1
    | 4 => filtCoeff 4 - filtCoeff 2 + filtCoeff 3 - filtCoeff 1
    | _ => filtCoeff j
  else filtCoeff j

/-- The coefficient `j` of a line with a further section, as it is stored. -/
def contCoeff (biquad : ℤ) (filtCoeff : ℕ → K) (j : ℕ) : K :=
  if biquad ≠ 0 then
    match j with
    | 0 => - filtCoeff 0 - 1
    | 1 => - filtCoeff 1 - filtCoeff 0 - 1
    | 2 => filtCoeff 2 - filtCoeff 0
    | 3 => filtCoeff 3 - filtCoeff 1 + filtCoeff 2 - filtCoeff 0
    | _ => filtCoeff j
  else filtCoeff j

/-- The variables of the loop over the lines, with the placeholders and the temporary storage
of FIR filters. -/
structure ReadState (K : Type) where
  inFilter : ℕ
  curFilter : Option ℕ
  curFilterNum : ℕ
  nFirFilters : ℕ
  map : List (FmSubSysMap K)
  firFiltCoeff : ℕ → ℕ → ℕ → K

/-- A module of memory that has been cleared. -/
def VmeFmOpCoef.zero : VmeFmOpCoef K where
  filtCoeff := fun _ _ => 0
  filtName := fun _ => []
  bankNum := 0
  filtSections := fun _ => 0
  sType := fun _ => 0
  ramp := fun _ => 0
  timout := fun _ => 0
  crc := 0
  filterType := fun _ => 0
  biquad := 0

/-- Shared memory before anything is stored. -/
def VmeCoef.zero : VmeCoef K := ⟨fun _ _ _ => 0, fun _ => VmeFmOpCoef.zero⟩

def FmSubSysMap.clear (m : FmSubSysMap K) : FmSubSysMap K :=
  { m with filters := 0, fmd := VmeFmOpCoef.zero }

/-- Before the first line. -/
def ReadState.start (map : List (FmSubSysMap K)) (firFiltCoeff : ℕ → ℕ → ℕ → K) :
    ReadState K where
  inFilter := 0
  curFilter := none
  curFilterNum := 0
  nFirFilters := 0
  map := map.map FmSubSysMap.clear
  firFiltCoeff := firFiltCoeff

/-- `row` with the first `n` of `new` at `base`. -/
def putRow (row : ℕ → K) (base n : ℕ) (new : ℕ → K) : ℕ → K := fun k =>
  if base ≤ k ∧ k < base + n then new (k - base) else row k

/-- The data of a line with a further section is put into the placeholder `i`. -/
def putCont (s : ReadState K) (i inFilter : ℕ) (filtCoeff : ℕ → K) : ReadState K :=
  match s.map[i]? with
  | none => { s with inFilter := inFilter }
  | some cur =>
    let num := s.curFilterNum
    let indexN := 5 + 4 * (cur.fmd.filtSections num - inFilter - 2)
    if cur.fmd.filterType num ≠ 0 then
      if fir then
        let bank := s.firFiltCoeff (cur.fmd.filterType num - 1)
        let bank := Function.update bank num (putRow (bank num) indexN 4 filtCoeff)
        { s with
          inFilter := inFilter
          firFiltCoeff := Function.update s.firFiltCoeff (cur.fmd.filterType num - 1) bank }
      else { s with inFilter := inFilter }
    else
      let row := putRow (cur.fmd.filtCoeff num) indexN 4 (contCoeff cur.biquad filtCoeff)
      let fmd := { cur.fmd with filtCoeff := Function.update cur.fmd.filtCoeff num row }
      { s with inFilter := inFilter, map := s.map.set i { cur with fmd := fmd } }

def putFilter (s : ReadState K) (name : List Char) (d : FilterLine K) : ReadState K :=
  let s := { s with
    inFilter := d.filtSections - 1
    nFirFilters := if d.filterType > 0 then s.nFirFilters + 1 else s.nFirFilters
    curFilter := none
    curFilterNum := 0 }
  match s.map.findIdx? fun m => m.name = name with
  | none => s
  | some i =>
    match s.map[i]? with
    | none => s
    | some cur =>
      let fmd := { cur.fmd with
        bankNum := cur.fmModNum
        filtSections := Function.update cur.fmd.filtSections d.num d.filtSections
        sType := Function.update cur.fmd.sType d.num d.sType
        ramp := Function.update cur.fmd.ramp d.num d.ramp
        timout := Function.update cur.fmd.timout d.num d.timeout
        filtName := Function.update cur.fmd.filtName d.num d.filtName
        filterType := Function.update cur.fmd.filterType d.num d.filterType }
      let fmd := if d.filterType > 0 then fmd else { fmd with
        filtCoeff := Function.update fmd.filtCoeff d.num
          (putRow (fmd.filtCoeff d.num) 0 5 (firstCoeff cur.biquad d.filtCoeff)) }
      let bank := s.firFiltCoeff (d.filterType - 1)
      let bank := Function.update bank d.num (putRow (bank d.num) 0 5 d.filtCoeff)
      { s with
        curFilter := some i
        curFilterNum := d.num
        map := s.map.set i { cur with filters := cur.filters + 1, fmd := fmd }
        firFiltCoeff := if d.filterType > 0 ∧ fir then
            Function.update s.firFiltCoeff (d.filterType - 1) bank
          else s.firFiltCoeff }

/-- The body of the loop over the lines. -/
def readLine (s : ReadState K) (line : List Char) : Except LineError (ReadState K) :=
  if !infoLine line then .ok s
  else
    let tok := lineTok line
    if tok.length < (if s.inFilter ≠ 0 then 4 else maxTokens) then .error .invalidLine
    else if s.inFilter ≠ 0 then
      match s.curFilter with
      | none => .ok { s with inFilter := s.inFilter - 1 }
      | some i =>
        match doubleTokens strtod tok 0 4 with
        | none => .error .invalidCont
        | some filtCoeff => .ok (putCont fir s i (s.inFilter - 1) filtCoeff)
    else
      match parseFilterLine fir strtod s.nFirFilters tok with
      | .error e => .error e
      | .ok d => .ok (putFilter fir s (tok.getD 0 []) d)

/-- The loop over the lines of a file; an error comes with the number of its line. -/
def readLines (s : ReadState K) (lines : List (List Char)) : Except (ℕ × LineError) (ReadState K) :=
  lines.zipIdx.foldlM (fun s (line, k) =>
    match readLine fir strtod s line with
    | .ok s' => .ok s'
    | .error e => .error (k + 1, e)) s

end Read

/-! ## Shared memory -/

section Store

variable {K : Type} [Add K] [Sub K] [Neg K] [One K] [Zero K]
variable (fir charSigned : Bool) (doubleBytes : K → List (BitVec 8))

/-- The first `n` coefficients of `src` over those of `dst`. -/
def copyCoeffs (n : ℕ) (src dst : ℕ → K) : ℕ → K := fun k => if k < n then src k else dst k

/-- The checksum `coefCrc` behind the filter `j`. -/
def filterCrc (fmd : VmeFmOpCoef K) (coeff : ℕ → K) (crc : BitVec 32) (j : ℕ) : BitVec 32 :=
  let nSections := fmd.filtSections j
  let crc := crcPtr charSigned (intBytes nSections) crc
  if nSections > 0 then
    let crc := crcPtr charSigned (intBytes (fmd.sType j)) crc
    let crc := crcPtr charSigned (intBytes (fmd.ramp j)) crc
    let crc := crcPtr charSigned (intBytes (fmd.timout j)) crc
    (List.range (1 + nSections * 4)).foldl
      (fun crc k => crcPtr charSigned (doubleBytes (coeff k)) crc) crc
  else crc

/-- The body of the loop over the filters of the module `m` that updates shared memory. -/
def storeFilter (firFiltCoeff : ℕ → ℕ → ℕ → K) (m : FmSubSysMap K)
    (s : VmeCoef K × BitVec 32) (j : ℕ) : VmeCoef K × BitVec 32 :=
  let fmd := m.fmd
  let nCoefs := 1 + fmd.filtSections j * 4
  let type := fmd.filterType j
  let isFir := fir ∧ type ≠ 0
  let coeff := if isFir then firFiltCoeff (type - 1) j else fmd.filtCoeff j
  let vme := s.1.vmeCoeffs m.fmModNum
  let vme := { vme with
    filterType := Function.update vme.filterType j type
    filtCoeff := if isFir then vme.filtCoeff else
      Function.update vme.filtCoeff j (copyCoeffs nCoefs coeff (vme.filtCoeff j))
    filtName := Function.update vme.filtName j (fmd.filtName j)
    filtSections := Function.update vme.filtSections j (fmd.filtSections j)
    sType := Function.update vme.sType j (fmd.sType j)
    ramp := Function.update vme.ramp j (fmd.ramp j)
    timout := Function.update vme.timout j (fmd.timout j) }
  let bank := s.1.firFiltCoeff (type - 1)
  let bank := Function.update bank j (copyCoeffs nCoefs coeff (bank j))
  ({ vmeCoeffs := Function.update s.1.vmeCoeffs m.fmModNum vme
     firFiltCoeff := if isFir then Function.update s.1.firFiltCoeff (type - 1) bank
       else s.1.firFiltCoeff },
    filterCrc charSigned doubleBytes fmd coeff s.2 j)

/-- The body of the loop over the modules that updates shared memory. -/
def storeModule (firFiltCoeff : ℕ → ℕ → ℕ → K) (p : VmeCoef K) (m : FmSubSysMap K) : VmeCoef K :=
  let (p, crc) := (List.range filters).foldl
    (storeFilter fir charSigned doubleBytes firFiltCoeff m) (p, 0)
  let vme := { p.vmeCoeffs m.fmModNum with
    crc := crc
    biquad := m.biquad
    bankNum := m.fmd.bankNum }
  { p with vmeCoeffs := Function.update p.vmeCoeffs m.fmModNum vme }

/-- Why `fmReadCoeffFile` fails: with a line of the first or the second file, or with one of the
other codes. -/
inductive FmReadError where
  | line (inFileCount lineNo : ℕ) (e : LineError)
  | file (code : ℕ)
deriving DecidableEq, Repr

/-- What the input files hold: the lines of the `.txt` file and, if there is one, of the `.fir`
file; or the code of the failure to open, read, archive or close them. -/
abbrev InputFiles := Except ℕ (List (List Char) × Option (List (List Char)))

/-- `fmReadCoeffFile` for the subsystem `map`, which leaves the placeholders, the temporary
storage of FIR filters and shared memory. -/
def fmReadCoeffFile (strtod : List Char → K × List Char) (files : InputFiles)
    (map : List (FmSubSysMap K)) (firFiltCoeff : ℕ → ℕ → ℕ → K) (pVmeCoeff : VmeCoef K) :
    Except FmReadError (ReadState K × VmeCoef K) :=
  match files with
  | .error code => .error (.file code)
  | .ok (txt, firFile) =>
    match readLines fir strtod (ReadState.start map firFiltCoeff) txt with
    | .error (lineNo, e) => .error (.line 0 lineNo e)
    | .ok s =>
      match readLines fir strtod s (firFile.getD []) with
      | .error (lineNo, e) => .error (.line 1 lineNo e)
      | .ok s =>
        .ok (s, s.map.foldl (storeModule fir charSigned doubleBytes s.firFiltCoeff) pVmeCoeff)

end Store

end AdvLigoRts.Drv
