import AdvLigoRts.Seq.Sdf

/-!
# The filters of the settings monitor

`registerFilters` makes an entry of `filterTable` for every switch channel with a name in `_SW1S`,
and looks for the channel in `SW2S` that belongs to it. From then on the same settings are in three
places: the two switch channels, the entry of the filter, and `filterMasks`, which the operators
change bit by bit. `readConfig`, `resyncFMArrays`, `processFMChanCommands` and `modifyTable` write
them.
-/

namespace AdvLigoRts.Seq

open PvLib

variable {K : Type}

def sdfMaxFmsize : ℕ := 1000

def sdfErrTsize : ℕ := 20000

/-- `SET_ERR_TABLE`: a line of a table for the operators. -/
structure SetErrTable (K : Type) where
  chname : List Char
  liveset : List Char
  liveval : K
  sigNum : ℕ
  chFlag : BitVec 32
  filtNum : ℤ
  sw : BitVec 32 × BitVec 32

namespace SetErrTable

/-- `CHFLAG_ACCEPT_BIT`. -/
def accept (e : SetErrTable K) : Bool := e.chFlag &&& 4 ≠ 0

/-- `CHFLAG_MONITOR_BIT`. -/
def monitor (e : SetErrTable K) : Bool := e.chFlag &&& 8 ≠ 0

/-- `chFlag > 3`. -/
def selected (e : SetErrTable K) : Bool := (3 : BitVec 32).slt e.chFlag

end SetErrTable

/-! ## Registration -/

/-- `filterswitch` of a record with a name. -/
def switchNumber (name : List Char) : ℕ := if isSw2s name then 2 else if isSw1s name then 1 else 0

/-- The tables before `registerFilters`: nothing is initialised or monitored, and the filters are
zero. -/
structure SdfState.Fresh (s : SdfState K) : Prop where
  size : s.chNum ≤ sdfMaxTsize
  switch : ∀ ii < s.chNum, (s.cdTable ii).filterswitch = switchNumber (s.cdTable ii).chname
  uninitialized : ∀ ii, (s.cdTable ii).initialized = false
  unmonitored : ∀ ii, (s.cdTable ii).mask = 0
  filters : ∀ ii, s.filterTable ii = ⟨[], 0, (0, 0), false, false, 0⟩

/-- The body of the loop of `registerFilters`. -/
def registerFilter (s : SdfState K) (ii : ℕ) : SdfState K :=
  let cd := s.cdTable ii
  if cd.filterswitch = 1 then
    let f := s.filterTable s.fmNum
    let name := cd.chname.take (cd.chname.length - 4)
    -- `strncpy` writes no 0, so that the end of a longer name from before stays
    let fname := name ++ f.fname.drop name.length
    let tmpstr := (fname ++ "SW2S".toList).take 63
    let sw1 := (List.range s.chNum).foldl
      (fun sw jj => if tmpstr = (s.cdTable jj).chname then jj else sw) f.sw.2
    let s := s.setFilter s.fmNum { f with fname := fname, sw := (ii, sw1) }
    let s := s.setCd ii { cd with filterNum := s.fmNum }
    { s with fmNum := s.fmNum + 1 }
  else s

def registerFilters (s : SdfState K) : SdfState K :=
  (List.range s.chNum).foldl registerFilter { s with fmNum := 0 }

/-! ## The masks of the filters -/

/-- `filterTable[ii].mask` and `fmMasks[ii]` for all entries of the arrays. -/
def setFmMasks (mask : ℕ → BitVec 32) (s : SdfState K) : SdfState K :=
  { s with
    filterTable := fun ii =>
      if ii < sdfMaxFmsize then { s.filterTable ii with mask := mask ii } else s.filterTable ii
    filterMasks := fun ii => if ii < sdfMaxFmsize then mask ii else s.filterMasks ii }

/-- The masks of the two switch channels of a filter. -/
def switchMask (s : SdfState K) (ii : ℕ) : BitVec 32 :=
  (s.cdTable (s.filterTable ii).sw.1).mask ||| (s.cdTable (s.filterTable ii).sw.2).mask

def setupFMArrays (s : SdfState K) : SdfState K := setFmMasks (switchMask s) s

def resyncFMArrays (s : SdfState K) : SdfState K :=
  setFmMasks (fun ii => switchMask s ii &&& allSwstatBits) s

/-- What `processFMChanCommands` changes: `fMask`, `selectCounter[2]` and the flags of
`setErrTable`. -/
structure FmCommands (K : Type) where
  fMask : ℕ → BitVec 32
  selectCounter : ℤ
  setErrTable : ℕ → SetErrTable K

/-- The line of a table that shows a filter: the search stops at the first line that shows none. -/
def findFilterLine (setErrTable : ℕ → SetErrTable K) (errCnt : ℕ) (ii : ℕ) : Option ℕ :=
  match (List.range errCnt).find? fun jj =>
      (setErrTable jj).filtNum < 0 ∨ (setErrTable jj).filtNum = ii with
  | some jj => if (setErrTable jj).filtNum = ii then some jj else none
  | none => none

/-- The body of the loop of `processFMChanCommands`, for the control word of the filter. -/
def processFMChanCommand (s : SdfState K) (errCnt : ℕ) (ctrl : ℕ → BitVec 32) (c : FmCommands K)
    (ii : ℕ) : FmCommands K :=
  if ctrl ii = 0 then c
  else
    let refMask := (s.filterTable ii).mask &&& allSwstatBits
    let differsPre := refMask ≠ c.fMask ii &&& allSwstatBits
    let differsPost := refMask ≠ (c.fMask ii ^^^ ctrl ii) &&& allSwstatBits
    let c := { c with fMask := Function.update c.fMask ii (c.fMask ii ^^^ ctrl ii) }
    if differsPre ↔ differsPost then c
    else
      match findFilterLine c.setErrTable errCnt ii with
      | none => c
      | some jj =>
        let e := c.setErrTable jj
        { c with
          setErrTable := Function.update c.setErrTable jj { e with chFlag := e.chFlag ^^^ 8 }
          selectCounter := c.selectCounter + if differsPre then -1 else 1 }

/-- `processFMChanCommands`, for the control words that are set. -/
def processFMChanCommands (s : SdfState K) (ctrl : ℕ → BitVec 32) (selectCounter : ℤ)
    (errCnt : ℕ) (setErrTable : ℕ → SetErrTable K) : FmCommands K :=
  (List.range (min sdfMaxFmsize s.fmNum)).foldl (processFMChanCommand s errCnt ctrl)
    ⟨s.filterMasks, selectCounter, setErrTable⟩

/-! ## Changes from the tables -/

/-- What `modifyTable` does to a channel with the name of a line. -/
def modifyChannel (masks : ℕ → BitVec 32) (e : SetErrTable K) (cd : CdsCdTable K) :
    CdsCdTable K :=
  let cd :=
    if e.accept then
      { cd with
        data := if cd.datatype = .num then .chval e.liveval else .strval e.liveset
        initialized := true }
    else cd
  if e.monitor then
    { cd with
      mask :=
        if 0 ≤ cd.filterNum ∧ cd.filterNum < sdfMaxFmsize then masks cd.filterNum.toNat
        else if cd.mask ≠ 0 then 0
        else ~~~0 }
  else cd

/-- A change of the two switch channels that `sigNum` has the indices of, one after the other. -/
def SdfState.setSwitches (e : SetErrTable K) (f f1 : CdsCdTable K → CdsCdTable K)
    (s : SdfState K) : SdfState K :=
  let sn := e.sigNum % sdfMaxTsize
  let sn1 := e.sigNum / sdfMaxTsize
  let s := s.setCd sn (f (s.cdTable sn))
  s.setCd sn1 (f1 (s.cdTable sn1))

/-- A switch channel with a setting that is accepted. -/
def setPoint (fp : Doubles K) (v : BitVec 32) (cd : CdsCdTable K) : CdsCdTable K :=
  { cd with data := .chval (fp.ofUnsigned v), initialized := true }

def setMask (mask : BitVec 32) (cd : CdsCdTable K) : CdsCdTable K := { cd with mask := mask }

def acceptFilter (fp : Doubles K) (e : SetErrTable K) (s : SdfState K) : SdfState K :=
  let fmIndex := e.filtNum.toNat
  let s := s.setSwitches e (setPoint fp e.sw.1) (setPoint fp e.sw.2)
  s.setFilter fmIndex { s.filterTable fmIndex with init := true }

/-- A line for a filter whose monitoring is changed. -/
def monitorFilter (e : SetErrTable K) (s : SdfState K) : SdfState K :=
  let fmIndex := e.filtNum.toNat
  let mask := s.filterMasks fmIndex
  let s := s.setFilter fmIndex { s.filterTable fmIndex with mask := mask }
  s.setSwitches e (setMask mask) (setMask mask)

/-- What `modifyTable` does for a line that shows a filter. -/
def modifyFilter (fp : Doubles K) (e : SetErrTable K) (s : SdfState K) : SdfState K :=
  let fmIndex := e.filtNum.toNat
  let s := s.setFilter fmIndex { s.filterTable fmIndex with newSet := true }
  let s := if e.accept then acceptFilter fp e s else s
  if e.monitor then monitorFilter e s else s

/-- The loop of `modifyTable` over `cdTable`. -/
def modifyNamed (e : SetErrTable K) (s : SdfState K) : SdfState K :=
  { s with
    cdTable := fun jj =>
      if jj < s.chNum ∧ (s.cdTable jj).chname = e.chname then
        modifyChannel s.filterMasks e (s.cdTable jj)
      else s.cdTable jj }

/-- `found`: a channel has the name of the line, and it was changed. -/
def foundChannel (s : SdfState K) (e : SetErrTable K) : Bool :=
  inTable s e.chname && (e.accept || e.monitor)

/-- The body of the loop of `modifyTable`. -/
def modifyLine (fp : Doubles K) (s : SdfState K) (e : SetErrTable K) : SdfState K :=
  if e.selected then
    let found := foundChannel s e
    let s := modifyNamed e s
    if 0 ≤ e.filtNum ∧ ¬found then modifyFilter fp e s else s
  else s

def modifyTable (fp : Doubles K) (modTable : List (SetErrTable K)) (s : SdfState K) : SdfState K :=
  newfilterstats fp (modTable.foldl (modifyLine fp) s)

/-- A line for a filter, as `checkFilterSwitches` and `createSortTableEntries` write it: the name
is without its last character. -/
structure FilterLine (s : SdfState K) (i : ℕ) (e : SetErrTable K) : Prop where
  registered : i < s.fmNum
  name : e.chname = (s.filterTable i).fname.dropLast
  filtNum : e.filtNum = i
  sigNum : e.sigNum = (s.filterTable i).sw.1 + (s.filterTable i).sw.2 * sdfMaxTsize

/-- A line for a channel, as `spChecker` and `createSortTableEntries` write it: it is no switch
channel of a filter. -/
structure ChannelLine (s : SdfState K) (ii : ℕ) (e : SetErrTable K) : Prop where
  inTable : ii < s.chNum
  filterswitch : (s.cdTable ii).filterswitch = 0
  name : e.chname = (s.cdTable ii).chname
  filtNum : e.filtNum = -1
  sigNum : e.sigNum = ii

/-- A line for a switch channel with a live setting that is too large, as `checkFilterSwitches`
writes it: `filtNum` is what an earlier line left. -/
structure OverrangeLine (s : SdfState K) (i : ℕ) (e : SetErrTable K) : Prop where
  registered : i < s.fmNum
  name : e.chname = (s.filterTable i).fname ++ "SW1S".toList ∧
      e.sigNum = (s.filterTable i).sw.1 ∨
    e.chname = (s.filterTable i).fname ++ "SW2S".toList ∧ e.sigNum = (s.filterTable i).sw.2

/-- The lines of the tables for the operators. -/
def TableLine (s : SdfState K) (e : SetErrTable K) : Prop :=
  (∃ i, FilterLine s i e) ∨ (∃ ii, ChannelLine s ii e) ∨ ∃ i, OverrangeLine s i e

/-! ## What there is room for -/

/-- A number, as far as the first character tells. -/
def isNumber (s3 : List Char) : Bool := s3.head?.any Char.isDigit || s3.head? = some '-'

/-- The settings that are read before the limit is reached, `chNumP` being the number of channels
so far. -/
def settingsRead (s : SdfState K) : List Setting → ℕ → List Setting
  | [], _ => []
  | l :: ls, chNumP =>
    let chNumP := if isCounted s l then chNumP + 1 else chNumP
    l :: if sdfMaxChans ≤ chNumP then [] else settingsRead s ls chNumP

/-- A value that is stored as a text has a field for it. -/
def ValueFits (s : SdfState K) (l : Setting) : Prop :=
  if isAlarmChannel l.name then l.value.head?.any Char.isDigit = true ∨ l.value.length < 64
  else ∀ ii < s.chNum, (s.cdTable ii).chname = l.name →
    (s.cdTable ii).datatype ≠ .str ∧ isNumber l.value = true ∨ l.value.length < 64

instance (s : SdfState K) (l : Setting) : Decidable (ValueFits s l) :=
  inferInstanceAs (Decidable (if isAlarmChannel l.name then
      l.value.head?.any Char.isDigit = true ∨ l.value.length < 64
    else ∀ ii < s.chNum, (s.cdTable ii).chname = l.name →
      (s.cdTable ii).datatype ≠ .str ∧ isNumber l.value = true ∨ l.value.length < 64))

section Room

variable (fp : Doubles K) [LT K] [DecidableLT K]

/-- A switch setting is larger than what a switch channel has bits for. -/
def isOverrange (cd : CdsCdTable K) (s3 : List Char) : Bool :=
  decide (cd.datatype ≠ .str) && isNumber s3 && decide (cd.filterswitch ≠ 0) &&
    decide (fp.ofUnsigned 0xffff < fp.atof s3)

/-- The number of channels for which a setting is too large. -/
def overranges (s : SdfState K) (l : Setting) : ℕ :=
  if isAlarmChannel l.name then 0
  else (List.range s.chNum).countP fun ii =>
    (s.cdTable ii).chname = l.name ∧ isOverrange fp (s.cdTable ii) l.value

/-- The settings of a file fit in the fields and the tables that a load writes. -/
structure SettingsFit (s : SdfState K) (ls : List Setting) : Prop where
  values : ∀ l ∈ ls, ValueFits s l
  errorNames : ∀ l ∈ ls, overranges fp s l ≠ 0 → l.name.length < 64
  errors : (ls.map (overranges fp s)).sum ≤ sdfErrTsize
  unknownNames : ∀ l ∈ (ls.filter fun l => !isCounted s l).take sdfErrTsize, l.name.length < 64

end Room

/-! ## Steps -/

/-- The operations on the tables. -/
inductive SdfOp (K : Type) where
  | readConfig (file : Option (List Char)) (command : SdfCommand)
  | setupFMArrays
  | resyncFMArrays
  | processFMChanCommands (ctrl : ℕ → BitVec 32) (selectCounter : ℤ) (errCnt : ℕ)
      (setErrTable : ℕ → SetErrTable K)
  | modifyTable (modTable : List (SetErrTable K))

def SdfState.step (fp : Doubles K) (pref : List Char) (s : SdfState K) : SdfOp K → SdfState K
  | .readConfig file command => Seq.readConfig fp pref file command s
  | .setupFMArrays => Seq.setupFMArrays s
  | .resyncFMArrays => Seq.resyncFMArrays s
  | .processFMChanCommands ctrl selectCounter errCnt setErrTable =>
    { s with
      filterMasks := (Seq.processFMChanCommands s ctrl selectCounter errCnt setErrTable).fMask }
  | .modifyTable modTable => Seq.modifyTable fp modTable s

end AdvLigoRts.Seq
