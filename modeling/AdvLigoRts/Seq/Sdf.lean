import AdvLigoRts.Lib.TextStream
import AdvLigoRts.Seq.CaTables

/-!
# The tables of the settings monitor and its files

`main.c` keeps a set point for every settings channel in `cdTable`, and for every filter module, in
`filterTable`, what its two switch channels say together. `writeTable2File` saves the set points as
text, `readConfig` reads such a file into the tables line by line, and `newfilterstats` then brings
the filters that were named up to date.
-/

namespace AdvLigoRts.Seq

open PvLib

/-! ## The tables -/

def allSwstatBits : BitVec 32 := 0x1bfff

def sdfMaxChans : ℕ := 125000

/-- What `main.c` does with a `double`: `atof`, the print with `%.*e`, the conversions to and from
integers, and the first bytes of a text read as one. -/
structure Doubles (K : Type) where
  atof : List Char → K
  print : K → List Char
  toInt : K → BitVec 32
  toUnsigned : K → BitVec 32
  ofUnsigned : BitVec 32 → K
  ofBytes : List Char → K
  toBytes : K → List Char

/-- `CDS_CD_TABLE`. -/
structure CdsCdTable (K : Type) where
  chname : List Char
  datatype : SdfType
  data : SdfData K
  mask : BitVec 32
  initialized : Bool
  filterswitch : ℕ
  filterNum : ℤ

/-- `FILTER_TABLE`. -/
structure FilterTable where
  fname : List Char
  swreq : BitVec 32
  sw : ℕ × ℕ
  newSet : Bool
  init : Bool
  mask : BitVec 32

/-- `cdTable` with its `chNum` channels and `filterTable` with its `fmNum` filters. -/
structure SdfState (K : Type) where
  chNum : ℕ
  cdTable : ℕ → CdsCdTable K
  fmNum : ℕ
  filterTable : ℕ → FilterTable
  filterMasks : ℕ → BitVec 32

variable {K : Type}

/-- The union read as a number. -/
def SdfData.asChval (fp : Doubles K) : SdfData K → K
  | .chval v => v
  | .strval s => fp.ofBytes s

@[simp] theorem SdfData.asChval_chval (fp : Doubles K) (v : K) :
    (SdfData.chval v).asChval fp = v := rfl

/-- The union read as a text. -/
def SdfData.asStrval (fp : Doubles K) : SdfData K → List Char
  | .chval v => fp.toBytes v
  | .strval s => s

@[simp] theorem SdfData.asStrval_strval (fp : Doubles K) (t : List Char) :
    (SdfData.strval t : SdfData K).asStrval fp = t := rfl

namespace SdfState

def setCd (s : SdfState K) (i : ℕ) (cd : CdsCdTable K) : SdfState K :=
  { s with cdTable := Function.update s.cdTable i cd }

def setFilter (s : SdfState K) (i : ℕ) (f : FilterTable) : SdfState K :=
  { s with filterTable := Function.update s.filterTable i f }

end SdfState

/-! ## Names -/

/-- `strstr(name, text) != NULL`. -/
def strstr : List Char → List Char → Bool
  | [], text => text.isEmpty
  | c :: name, text => text.isPrefixOf (c :: name) || strstr name text

/-- The name of a switch channel of a filter module, by its number. -/
def isSwitch (text textDot : List Char) (name : List Char) : Bool :=
  strstr name text && !strstr name textDot

def isSw1s (name : List Char) : Bool := isSwitch "_SW1S".toList "_SW1S.".toList name

def isSw2s (name : List Char) : Bool := isSwitch "_SW2S".toList "_SW2S.".toList name

def isAlarmChannel (chname : List Char) : Bool :=
  strstr chname ".HIGH".toList || strstr chname ".HIHI".toList || strstr chname ".LOW".toList ||
    strstr chname ".LOLO".toList || strstr chname ".HSV".toList || strstr chname ".OSV".toList ||
    strstr chname ".ZSV".toList || strstr chname ".LSV".toList

/-- The names that `readConfig` does not load, since the program sets them. -/
def isSkipped (name : List Char) : Bool :=
  strstr name "_SWMASK".toList || strstr name "_SDF_NAME".toList || strstr name "_SWREQ".toList

/-! ## Writing -/

def encodeBURTString (src : List Char) (destSize : ℕ) : List Char :=
  if destSize < src.length + 3 then []
  else if src.length = 0 then ['\\', '0']
  else if src.any fun ch => ch == ' ' || ch == '\t' || ch == '\n' || ch == '"' then
    '"' :: src ++ ['"']
  else src

def monitorString (cd : CdsCdTable K) : List Char :=
  if cd.filterswitch ≠ 0 then
    if cd.mask &&& allSwstatBits = ~~~0 then ['1']
    else if cd.mask &&& allSwstatBits = 0 then ['0']
    else ['0', 'x'] ++ Nat.toDigits 16 cd.mask.toNat
  else if cd.mask ≠ 0 then ['1']
  else ['0']

/-- The options for the file that is written. -/
inductive FileType where
  | withInitFlag
  | paramsOnly
  | burtOnly
deriving DecidableEq, Repr

/-- The value of a channel as it is written. The buffer is two characters longer than `strval`. -/
def valueString (fp : Doubles K) (cd : CdsCdTable K) : List Char :=
  if cd.datatype = .num then fp.print (cd.data.asChval fp)
  else encodeBURTString (cd.data.asStrval fp) 66

def channelText (fp : Doubles K) (ftype : FileType) (cd : CdsCdTable K) : List Char :=
  let head := cd.chname ++ " 1 ".toList ++ valueString fp cd
  match ftype with
  | .withInitFlag =>
    head ++ ' ' :: monitorString cd ++ [' ', if cd.initialized then '1' else '0', '\n']
  | .paramsOnly => if cd.initialized then head ++ ' ' :: monitorString cd ++ ['\n'] else []
  | .burtOnly => if cd.datatype = .num then head ++ ['\n'] else head ++ [' ', '\n']

/-- The header. The time is a text of EPICS, and the directory is one of the installation. -/
structure BurtHeader where
  burtdir : List Char
  timestring : List Char
  burtdir_word : ∀ c ∈ burtdir, isSpace c = false
  timestring_line : '\n' ∉ timestring
  timestring_length : timestring.length < 40
  nul : '\x00' ∉ burtdir ++ timestring

def BurtHeader.lines (h : BurtHeader) : List (List Char) :=
  ["--- Start BURT header".toList,
    "Time:      ".toList ++ h.timestring,
    "Login ID: controls ()".toList,
    "Eff  UID: 1001 ".toList,
    "Group ID: 1001 ".toList,
    "Keywords:".toList,
    "Comments:".toList,
    "Type:     Absolute  ".toList,
    "Directory: ".toList ++ h.burtdir,
    "Req File: autoBurt.req ".toList,
    "--- End BURT header".toList]

def BurtHeader.text (h : BurtHeader) : List Char := h.lines.flatMap fun l => l ++ ['\n']

def writeTable2File (fp : Doubles K) (h : BurtHeader) (ftype : FileType) (s : SdfState K) :
    List Char :=
  h.text ++ (List.range s.chNum).flatMap fun ii => channelText fp ftype (s.cdTable ii)

/-! ## Reading a line -/

/-- The state of `parseLine`: the words before `out[wc]`, what is in `out[wc]`, `lastwasspace`, and
between quotes the number of characters that are left to copy. -/
structure WordState where
  words : List (List Char)
  word : List Char
  lastwasspace : Bool
  quoted : Option ℕ

def WordState.start : WordState := ⟨[], [], false, none⟩

/-- `++wc`. -/
def WordState.next (w : WordState) : WordState := ⟨w.words ++ [w.word], [], true, none⟩

def WordState.wc (w : WordState) : ℕ := w.words.length

/-- The number of characters between a quote and the last quote of the line, or all that are left if
there is none. -/
def quotedLength (s : List Char) : ℕ :=
  let line := s.takeWhile (· ≠ '\n')
  if '"' ∈ line then (line.reverse.dropWhile (· ≠ '"')).length - 1 else line.length

/-- The loop of `parseLine`. -/
def parseChars : List Char → WordState → WordState
  | [], w => if w.quoted = some 0 then w.next else w
  | c :: s, w =>
    match w.quoted with
    | some (k + 1) => parseChars s { w with word := w.word ++ [c], quoted := some k }
    | some 0 => if c = '\n' ∨ w.next.wc = 6 then w.next else parseChars s w.next
    | none =>
      if c = '\n' then w
      else if c = ' ' ∨ c = '\t' then
        if w.lastwasspace then parseChars s w
        else if w.next.wc = 6 then w.next
        else parseChars s w.next
      else if c ≠ '"' ∨ ¬w.lastwasspace then
        parseChars s { w with word := w.word ++ [c], lastwasspace := false }
      else parseChars s { w with quoted := some (quotedLength s) }

/-- `strcmp(out[ii], "\\0") == 0`: the empty text. -/
def unescape (word : List Char) : List Char := if word = ['\\', '0'] then [] else word

/-- `parseLine`: the number of words, and the words. -/
def parseLine (s : List Char) : ℕ × List (List Char) :=
  let w := parseChars s .start
  (if w.wc < 6 ∧ w.word ≠ [] then w.wc + 1 else w.wc, (w.words ++ [w.word]).map unescape)

/-- The digits of a hexadecimal number. -/
def hexDigit (c : Char) : Option ℕ :=
  if c.isDigit then some (c.toNat - '0'.toNat)
  else if 'a' ≤ c ∧ c ≤ 'f' then some (c.toNat - 'a'.toNat + 10)
  else if 'A' ≤ c ∧ c ≤ 'F' then some (c.toNat - 'A'.toNat + 10)
  else none

def hexValue (digits : List Char) : ℕ :=
  digits.foldl (fun n c => 16 * n + (hexDigit c).getD 0) 0

/-- A hexadecimal number may start with the prefix itself. -/
def dropHexPrefix : List Char → List Char
  | '0' :: 'x' :: digits => digits
  | '0' :: 'X' :: digits => digits
  | digits => digits

/-- `sscanf(s, "0x%x", …)`, or 0 if it does not match. -/
def scanHex (s : List Char) : BitVec 32 :=
  match s with
  | '0' :: 'x' :: rest =>
    let negative := rest.head? = some '-'
    let rest := if rest.head? = some '-' ∨ rest.head? = some '+' then rest.tail else rest
    let n := hexValue ((dropHexPrefix rest).takeWhile fun c => (hexDigit c).isSome)
    if 2 ^ 64 ≤ n then ~~~0
    else if negative then -BitVec.ofNat 32 n
    else BitVec.ofNat 32 n
  | _ => 0

/-- `atoi` of a text that starts with a digit. -/
def atoi (s : List Char) : BitVec 32 :=
  BitVec.ofNat 32 (min (Nat.ofDigitChars 10 (s.takeWhile Char.isDigit) 0) (2 ^ 63 - 1))

/-- The mask of a line, from its fourth word. -/
def readMask (argcount : ℕ) (s4 : List Char) : BitVec 32 :=
  let s4 := if s4 = [] then ['0'] else s4
  if 3 < argcount ∧ s4.head?.any Char.isDigit then
    if s4[1]? = some 'x' then scanHex s4
    else if atoi s4 = 1 then ~~~0
    else 0
  else 0

/-! ## Reading a file -/

/-- The requests for a file. -/
inductive SdfCommand where
  | loadPartial
  | readOnly
  | reset
  | loadDbOnly
deriving DecidableEq, Repr

/-- The set point of a switch channel: `(int) chval & 0xffff`. -/
def switchValue (fp : Doubles K) (v : K) : K := fp.ofUnsigned (fp.toInt v &&& 0xffff)

/-- The value of a channel, from the third word of a line. -/
def readData (fp : Doubles K) (cd : CdsCdTable K) (s3 : List Char) : SdfData K :=
  if cd.datatype = .str ∨ ¬(s3.head?.any Char.isDigit ∨ s3.head? = some '-') then .strval s3
  else if cd.filterswitch ≠ 0 then .chval (switchValue fp (fp.atof s3))
  else .chval (fp.atof s3)

structure Setting where
  name : List Char
  value : List Char
  mask : BitVec 32
deriving DecidableEq

/-- The setting of a line, if it has one. `pref` starts with the three characters of the site. -/
def lineSetting (pref line : List Char) : Option Setting :=
  let (argcount, words) := parseLine line
  let s1 := words.getD 0 []
  if s1.take 3 = pref.take 3 ∧ ¬isSkipped s1 ∧ 2 < argcount then
    some ⟨s1, words.getD 2 [], readMask argcount (words.getD 3 [])⟩
  else none

/-- The lines of a file. `parseLine` reads each of them up to its first 0. -/
def fileLines (file : List Char) : List (List Char) :=
  (fgetsPieces 127 127 file).map fun line => line.takeWhile (· ≠ '\x00')

def settingsOf (pref file : List Char) : List Setting :=
  (fileLines file).filterMap (lineSetting pref)

/-- The loop over `cdTable` for a setting. -/
def applySetting (fp : Doubles K) (command : SdfCommand) (l : Setting) (cd : CdsCdTable K) :
    CdsCdTable K :=
  if cd.chname = l.name ∧ command ≠ .loadDbOnly then
    { cd with data := readData fp cd l.value, mask := l.mask, initialized := true }
  else cd

/-- The filter that a switch channel is of: the first one whose name is the channel's without the
last four characters. -/
def filterOf (s : SdfState K) (name : List Char) : Option ℕ :=
  if isSw1s name ∨ isSw2s name then
    (List.range s.fmNum).find? fun ii => (s.filterTable ii).fname = name.take (name.length - 4)
  else none

/-- `filterTable[fmIndex].newSet = 1`. -/
def markFilter (s : SdfState K) (name : List Char) : SdfState K :=
  match filterOf s name with
  | none => s
  | some ii => s.setFilter ii { s.filterTable ii with newSet := true }

/-- The channel of a line is in the table. -/
def inTable (s : SdfState K) (name : List Char) : Bool :=
  (List.range s.chNum).any fun ii => (s.cdTable ii).chname = name

/-- The settings that are counted: those of channels in the table. -/
def isCounted (s : SdfState K) (l : Setting) : Bool := !isAlarmChannel l.name && inTable s l.name

/-- The body of the loop of `readConfig` for a setting. -/
def readSetting (fp : Doubles K) (command : SdfCommand) (s : SdfState K) (l : Setting) :
    SdfState K :=
  let s :=
    if isAlarmChannel l.name then s
    else
      { s with
        cdTable := fun ii =>
          if ii < s.chNum then applySetting fp command l (s.cdTable ii) else s.cdTable ii }
  markFilter s l.name

/-- The loop of `readConfig` over the lines, with `chNumP`. -/
def readLines (fp : Doubles K) (command : SdfCommand) (pref : List Char) :
    List (List Char) → ℕ → SdfState K → SdfState K × Bool
  | [], _, s => (s, true)
  | line :: lines, chNumP, s =>
    match lineSetting pref line with
    | none => readLines fp command pref lines chNumP s
    | some l =>
      let chNumP :=
        if ¬isAlarmChannel l.name ∧ inTable s l.name then chNumP + 1 else chNumP
      let s := readSetting fp command s l
      if sdfMaxChans ≤ chNumP then (s, false)
      else readLines fp command pref lines chNumP s

def fltrConst : List (BitVec 32) :=
  [16, 64, 256, 1024, 4096, 16384, 65536, 262144, 1048576, 4194304, 0x4, 0x8, 0x4000000,
    0x1000000, 0x1, 0x2000000, 0x8000000]

def filtCtrlBitConvert (v : BitVec 32) : BitVec 32 :=
  (List.range 17).foldl (fun val i =>
    if v &&& fltrConst.getD i 0 ≠ 0 then val ||| (1 : BitVec 32) <<< i else val) 0

/-- What two switch settings ask for. -/
def swRequest (fp : Doubles K) (chval chval' : K) : BitVec 32 :=
  filtCtrlBitConvert
    ((fp.toUnsigned chval &&& 0xffff) + ((fp.toUnsigned chval' &&& 0xffff) <<< 16))

/-- The body of the loop of `newfilterstats`. -/
def newfilterstat (fp : Doubles K) (s : SdfState K) (ii : ℕ) : SdfState K :=
  let f := s.filterTable ii
  if f.newSet then
    let mask := (s.cdTable f.sw.1).mask ||| (s.cdTable f.sw.2).mask
    let s := s.setCd f.sw.1 { s.cdTable f.sw.1 with mask := mask }
    let s := s.setCd f.sw.2 { s.cdTable f.sw.2 with mask := mask }
    let swreq := swRequest fp ((s.cdTable f.sw.1).data.asChval fp)
      ((s.cdTable f.sw.2).data.asChval fp)
    s.setFilter ii { f with newSet := false, init := true, mask := mask, swreq := swreq }
  else s

def newfilterstats (fp : Doubles K) (s : SdfState K) : SdfState K :=
  (List.range s.fmNum).foldl (newfilterstat fp) s

/-- `readConfig`, of a file that may not exist. A reset only writes set points to EPICS. -/
def readConfig (fp : Doubles K) (pref : List Char) (file : Option (List Char))
    (command : SdfCommand) (s : SdfState K) : SdfState K :=
  if command = .reset then s
  else
    match file with
    | none => s
    | some file =>
      match readLines fp command pref (fileLines file) 0 s with
      | (s, false) => s
      | (s, true) => newfilterstats fp s

end AdvLigoRts.Seq
