import AdvLigoRts.Lib.CappedScan
import AdvLigoRts.Seq.SdfTables

/-!
# The check of the set points

`spChecker` compares the set points with the live values and fills a table for the operators:
first the filters, in `checkFilterSwitches`, and then the channels that are no switch channels. It
counts the differences, and lists those whose name contains a text, if one is given. With `listAll`
it lists what does not differ too. The table keeps what earlier checks left in it: of the flags of
an entry only the lowest is written.
-/

namespace AdvLigoRts.Seq

open PvLib

variable {K : Type}

/-- What the channels are now, by name: as a number, as a text, and as an unsigned integer, and how
a number is printed with `%.10lf`. -/
structure LiveValues (K : Type) where
  num : List Char → K
  str : List Char → List Char
  int : List Char → BitVec 32
  text : K → List Char

/-- What `spChecker` works on: `setErrTable`, the number of its entries, and `totalDiffs`. -/
structure CheckState (K : Type) where
  setErrTable : ℕ → SetErrTable K
  errCnt : ℕ
  totalDiffs : ℕ

namespace CheckState

def setEntry (c : CheckState K) (e : SetErrTable K) : CheckState K :=
  { c with setErrTable := Function.update c.setErrTable c.errCnt e }

/-- `setErrTable[errCnt]`. -/
def entry (c : CheckState K) : SetErrTable K := c.setErrTable c.errCnt

/-- `errCnt ++`, with a last entry. -/
def push (c : CheckState K) (e : SetErrTable K) : CheckState K :=
  { c.setEntry e with errCnt := c.errCnt + 1 }

/-- A difference is counted, and an entry is written for what is shown. -/
def report (hit shown : Bool) (line : SetErrTable K → SetErrTable K) (c : CheckState K) :
    CheckState K :=
  let c := if hit then { c with totalDiffs := c.totalDiffs + 1 } else c
  if shown then c.push (line c.entry) else c

def entries (c : CheckState K) : List (SetErrTable K) :=
  (List.range c.errCnt).map c.setErrTable

end CheckState

/-! ## Filters -/

def bitDefShort : List String :=
  ["IN,", "OF,", "1,", "2,", "3,", "4,", "5,", "6,", "7,", "8,", "9,", "10,", "LT,", "OT,", "DC,",
    "HD,"]

def bitDefLong : List String :=
  ["IN,", "OF,", "F1,", "F2,", "F3,", "F4,", "F5,", "F6,", "F7,", "F8,", "F9,", "F10,", "LT,",
    "OT,", "DC,", "HD,"]

/-- `filtStrBitConvert`. The last comma is taken off; of an empty text nothing is. -/
def filtStrBitConvert (stype : ℕ) (v : BitVec 32) : List Char :=
  let x := ((v >>> 10) &&& 3) + ((v &&& 1023) <<< 2) + ((v &&& 0x2000) >>> 1) +
    ((v &&& 0x1000) <<< 1) + ((v &&& 0x18000) >>> 1)
  ((List.range 16).flatMap fun jj =>
    if x.getLsbD jj then
      ((if stype = 0 then bitDefShort else bitDefLong).getD jj "").toList
    else []).dropLast

/-- A name contains the text that is asked for. -/
def wcMatches (wcstring : Option (List Char)) (name : List Char) : Bool :=
  wcstring.all fun wc => strstr name wc

/-- The name of a filter in the tables for the operators. -/
def FilterTable.tmpname (f : FilterTable) : List Char := f.fname.dropLast

/-- The names of the two switch channels of a filter. -/
def FilterTable.swname (f : FilterTable) : List Char × List Char :=
  (f.fname ++ "SW1S".toList, f.fname ++ "SW2S".toList)

section Check

variable (fp : Doubles K) (live : LiveValues K) (s : SdfState K) (monitorAll : Bool)
  (wcstring : Option (List Char)) (listAll : Bool)

/-- An entry for a switch setting that is out of range. -/
def checkOverrange (swname : List Char) (sw : ℕ) (rval : BitVec 32) (c : CheckState K) :
    CheckState K :=
  if 0xffff < rval then
    c.push { c.entry with
      chname := swname
      liveset := '0' :: 'x' :: Nat.toDigits 16 rval.toNat
      liveval := fp.ofUnsigned 0
      sigNum := sw }
  else c

/-- A setting that is out of range is cut to the bits of a switch channel. -/
def clampSwitch (rval : BitVec 32) : BitVec 32 :=
  if 0xffff < rval then rval &&& 0xffff else rval

def liveSwitches (f : FilterTable) : BitVec 32 × BitVec 32 :=
  (clampSwitch (live.int f.swname.1), clampSwitch (live.int f.swname.2))

/-- `refVal` of a filter. -/
def refVal (f : FilterTable) : BitVec 32 :=
  filtCtrlBitConvert ((liveSwitches live f).1 + (liveSwitches live f).2 <<< 16)

/-- The test of `checkFilterSwitches`, but for the size of the table. -/
def filterTest (f : FilterTable) : Bool :=
  decide (refVal live f &&& f.mask ≠ f.swreq &&& f.mask) && (decide (f.mask ≠ 0) || monitorAll) &&
    f.init

def filterEntry (ii : ℕ) (old : SetErrTable K) : SetErrTable K :=
  let f := s.filterTable ii
  { chname := f.tmpname
    liveset := filtStrBitConvert 1 (refVal live f)
    liveval := fp.ofUnsigned 0
    sigNum := f.sw.1 + f.sw.2 * sdfMaxTsize
    chFlag := if f.mask &&& allSwstatBits ≠ 0 then old.chFlag ||| 1 else old.chFlag &&& 0xe
    filtNum := ii
    sw := liveSwitches live f }

/-- The body of the loop of `checkFilterSwitches`. -/
def checkFilterSwitch (c : CheckState K) (ii : ℕ) : CheckState K :=
  let f := s.filterTable ii
  let c := checkOverrange fp f.swname.1 f.sw.1 (live.int f.swname.1) c
  let c := checkOverrange fp f.swname.2 f.sw.2 (live.int f.swname.2) c
  let c := c.setEntry { c.entry with filtNum := -1 }
  let differs := filterTest live monitorAll f && decide (c.errCnt < sdfErrTsize)
  c.report differs ((differs || listAll) && wcMatches wcstring f.tmpname)
    (filterEntry fp live s ii)

def checkFilterSwitches (c : CheckState K) : CheckState K :=
  (List.range s.fmNum).foldl (checkFilterSwitch fp live s monitorAll wcstring listAll) c

/-! ## Channels -/

/-- The live value of a channel is not its set point. -/
def liveDiffers [BEq K] (cd : CdsCdTable K) : Bool :=
  if cd.datatype = .num then cd.data.asChval fp != live.num cd.chname
  else cd.data.asStrval fp != live.str cd.chname

def channelEntry (ii : ℕ) (old : SetErrTable K) : SetErrTable K :=
  let cd := s.cdTable ii
  { old with
    chname := cd.chname
    liveset :=
      if cd.datatype = .num then live.text (live.num cd.chname) else live.str cd.chname
    liveval := if cd.datatype = .num then live.num cd.chname else fp.ofUnsigned 0
    sigNum := ii
    chFlag := if cd.mask ≠ 0 then old.chFlag ||| 1 else old.chFlag &&& ~~~1
    filtNum := -1 }

/-- A channel that is compared, if the table has room. -/
def channelMonitored (cd : CdsCdTable K) : Bool :=
  (decide (cd.mask ≠ 0) || monitorAll) && cd.initialized && decide (cd.filterswitch = 0)

/-- The body of the loop of `spChecker`. -/
def checkChannel [BEq K] (c : CheckState K) (ii : ℕ) : CheckState K :=
  let cd := s.cdTable ii
  if (decide (c.errCnt < sdfErrTsize) && channelMonitored monitorAll cd) ||
      (listAll && decide (cd.filterswitch = 0)) then
    let localErr := liveDiffers fp live cd || listAll
    c.report localErr (localErr && wcMatches wcstring cd.chname) (channelEntry fp live s ii)
  else c

/-- `spChecker`, with what the table had in it. -/
def spChecker [BEq K] (setErrTable : ℕ → SetErrTable K) : CheckState K :=
  (List.range s.chNum).foldl (checkChannel fp live s monitorAll wcstring listAll)
    (checkFilterSwitches fp live s monitorAll wcstring listAll ⟨setErrTable, 0, 0⟩)

end Check

end AdvLigoRts.Seq
