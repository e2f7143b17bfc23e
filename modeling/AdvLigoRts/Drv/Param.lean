import AdvLigoRts.Drv.Crc
import AdvLigoRts.Lib.TextStream

/-!
# Configuration files of the data acquisition

`parseConfigFile` of drv/param.c. A file is the list of its characters, of which `fgets` cuts
pieces for a buffer of 128. What the parser takes from outside is in `ParamEnv`: whether the files
can be opened and written, and the answers of the callback.
-/

namespace AdvLigoRts.Drv

open PvLib

/-! ## A line -/

/-- What the buffer holds as a string. -/
def cString (piece : List Char) : List Char := piece.takeWhile fun c => c != '\x00'

/-- The pieces of a file for a buffer of 128 characters. -/
def configLines (file : List Char) : List (List Char) := fgetsPieces 127 127 file

/-- The loop over the identifier, with `cr` characters copied: the characters that it writes, each
with its index in `id`, and what is left of the line. -/
def idLoop (cr : ℕ) : List Char → List (ℕ × Char) × List Char
  | [] => ([], [])
  | c :: cs =>
    if c ≠ '=' ∧ cr < 64 then
      if isSpace c then idLoop cr cs
      else ((cr, c) :: (idLoop (cr + 1) cs).1, (idLoop (cr + 1) cs).2)
    else ([], c :: cs)

/-- The loop over the value. -/
def valLoop (cr : ℕ) : List Char → List (ℕ × Char)
  | [] => []
  | c :: cs =>
    if cr < 64 then if isSpace c then valLoop cr cs else (cr, c) :: valLoop (cr + 1) cs
    else []

/-- What a line writes to `id` and `val`, and whether the two are looked at afterwards. -/
structure LineBuffers where
  id : List (ℕ × Char)
  val : List (ℕ × Char)
  used : Bool
deriving DecidableEq, Repr

/-- The two loops and the zeros behind what they have copied. -/
def lineBuffers (line : List Char) : LineBuffers :=
  match idLoop 0 line with
  | (id, '=' :: rest) =>
    { id := id ++ [(id.length, '\x00')]
      val := valLoop 0 rest ++ [((valLoop 0 rest).length, '\x00')]
      used := true }
  | (id, _) => { id, val := [], used := false }

/-- The string in a buffer that has been written in order. -/
def bufferText (buffer : List (ℕ × Char)) : List Char := cString (buffer.map Prod.snd)

/-- The identifier and the value of a line that has a `=`. -/
def assignment (line : List Char) : Option (List Char × List Char) :=
  if (lineBuffers line).used then
    some (bufferText (lineBuffers line).id, bufferText (lineBuffers line).val)
  else none

/-- The loop that takes the brackets off a section header. -/
def headerName : List Char → List Char
  | [] => []
  | _ :: cs => cs.takeWhile fun c => c != ']'

/-- `strncpy( channel_name, cbuf, 60 )` with a zero at its end. -/
def channelName (line : List Char) : List Char := (headerName line).take 59

/-- `strcasecmp` finds no difference from a word in small letters. -/
def sameWord (s word : List Char) : Bool := s.map Char.toLower == word

/-! ## Numbers -/

def digitValue (c : Char) : ℕ :=
  if c.isDigit then c.toNat - '0'.toNat
  else if c.isAlpha then c.toLower.toNat - 'a'.toNat + 10
  else 99

/-- The base of a number for `strtol` with base 0, and its digits. -/
def strtolBase : List Char → ℕ × List Char
  | '0' :: x :: d :: ds =>
    if (x = 'x' ∨ x = 'X') ∧ digitValue d < 16 then (16, d :: ds) else (8, '0' :: x :: d :: ds)
  | '0' :: ds => (8, '0' :: ds)
  | ds => (10, ds)

/-- `strtol( text, &endptr, 0 )` with 64 bit: the number and what `endptr` points at. -/
def strtol (text : List Char) : ℤ × List Char :=
  let body := text.dropWhile isSpace
  let negative := body.head? = some '-'
  let body := if body.head? = some '-' ∨ body.head? = some '+' then body.tail else body
  let (base, digits) := strtolBase body
  let taken := digits.takeWhile fun c => decide (digitValue c < base)
  if taken = [] then (0, text)
  else
    let n : ℤ := taken.foldl (fun n c => n * base + digitValue c) 0
    (max (-2 ^ 63) (min (2 ^ 63 - 1) (if negative then -n else n)), digits.drop taken.length)

/-- A `long` assigned to an `int`. -/
def longToInt (x : ℤ) : ℤ := x.bmod (2 ^ 32)

/-- The value of type `int` of a text that is a number to its end. -/
def intOf (val : List Char) : Option ℤ :=
  if (strtol val).2 = [] then some (longToInt (strtol val).1) else none

/-- What the parser needs of the floating point numbers: `strtod`, on a text that it takes to its
end, and the numbers of `uninit` and of the testpoint files. -/
structure FloatOps (F : Type*) where
  strtod : List Char → Option F
  uninitGain : F
  uninitSlope : F
  uninitOffset : F
  zero : F
  one : F

/-! ## Parameters of a channel -/

/-- `CHAN_PARAM`. -/
@[ext]
structure ChanParam (F : Type*) where
  dcuid : ℤ
  datarate : ℤ
  acquire : ℤ
  ifoid : ℤ
  rmid : ℤ
  datatype : ℤ
  chnnum : ℤ
  testpoint : ℤ
  gain : F
  slope : F
  offset : F
  units : List Char
  system : List Char
deriving DecidableEq

def uninit {F : Type*} (fl : FloatOps F) : ChanParam F where
  dcuid := -1
  datarate := -1
  acquire := -1
  ifoid := -1
  rmid := -1
  datatype := -1
  chnnum := 0
  testpoint := 0
  gain := fl.uninitGain
  slope := fl.uninitSlope
  offset := fl.uninitOffset
  units := "none".toList
  system := "none".toList

def dcuIdEx16k : ℤ := 13

/-- Why a file is refused. -/
inductive ParamError
  | openReading
  | openWriting
  | writing
  | noSection
  | notInteger (linenum : ℕ)
  | dataRateNotInteger (linenum : ℕ)
  | dataRateRange (linenum : ℕ)
  | dataRatePower (linenum : ℕ)
  | notFloat (linenum : ℕ)
  | callback
deriving DecidableEq, Repr

/-- The loop that looks for an odd factor, with `fuel` more turns. -/
def rateLoop : ℕ → ℕ → Bool
  | 0, _ => true
  | fuel + 1, value =>
    if value % 2 = 1 then false else if value / 2 > 1 then rateLoop fuel (value / 2) else true

/-- The value of an integer parameter. -/
def intParam (linenum : ℕ) (val : List Char) : Except ParamError ℤ :=
  match intOf val with
  | some v => .ok v
  | none => .error (.notInteger linenum)

/-- The value of `datarate`. -/
def rateParam (linenum : ℕ) (val : List Char) : Except ParamError ℤ :=
  match intOf val with
  | none => .error (.dataRateNotInteger linenum)
  | some v =>
    if v < 16 ∨ v > 512 * 1024 then .error (.dataRateRange linenum)
    else if rateLoop 32 v.toNat then .ok v
    else .error (.dataRatePower linenum)

section Parser

variable {F : Type*} (fl : FloatOps F)

/-- The value of a floating point parameter. -/
def floatParam (linenum : ℕ) (val : List Char) : Except ParamError F :=
  match fl.strtod val with
  | some v => .ok v
  | none => .error (.notFloat linenum)

/-- The chain of comparisons that assigns a value. -/
def setParam (testpoint : ℤ) (linenum : ℕ) (current : ChanParam F) (id val : List Char) :
    Except ParamError (ChanParam F) :=
  if sameWord id "dcuid".toList then
    (intParam linenum val).map fun dcuid => { current with dcuid }
  else if sameWord id "datarate".toList then
    (rateParam linenum val).map fun datarate => { current with datarate }
  else if sameWord id "acquire".toList then
    (intParam linenum val).map fun acquire => { current with acquire }
  else if sameWord id "ifoid".toList then
    (intParam linenum val).map fun ifoid => { current with ifoid }
  else if sameWord id "rmid".toList then
    (intParam linenum val).map fun rmid => { current with rmid }
  else if sameWord id "datatype".toList then
    (intParam linenum val).map fun datatype => { current with datatype }
  else if sameWord id "chnnum".toList then
    (intParam linenum val).map fun chnnum => { current with chnnum }
  else if sameWord id "gain".toList then
    (floatParam fl linenum val).map fun gain => { current with gain }
  else if sameWord id "slope".toList then
    (floatParam fl linenum val).map fun slope => { current with slope }
  else if sameWord id "offset".toList then
    (floatParam fl linenum val).map fun offset => { current with offset }
  else if sameWord id "units".toList || (testpoint == 2 && sameWord id "hostname".toList) then
    .ok { current with units := val.take 32 }
  else if sameWord id "system".toList then
    .ok { current with system := val.take 32 }
  else .ok current

/-- `setdefault` of one field. -/
def setdefault {β : Type*} [DecidableEq β] (uninit current deflt : β) : β :=
  if current = uninit then deflt else current

variable [DecidableEq F]

/-- The values that a section leaves out, from the last default section and for a testpoint file. -/
def withDefaults (testpoint : ℤ) (current deflt : ChanParam F) : ChanParam F :=
  let u := uninit fl
  let c : ChanParam F :=
    { current with
      dcuid := setdefault u.dcuid current.dcuid deflt.dcuid
      datarate := setdefault u.datarate current.datarate deflt.datarate
      acquire := setdefault u.acquire current.acquire deflt.acquire
      ifoid := setdefault u.ifoid current.ifoid deflt.ifoid
      datatype := setdefault u.datatype current.datatype deflt.datatype
      chnnum := setdefault u.chnnum current.chnnum deflt.chnnum
      gain := setdefault u.gain current.gain deflt.gain
      slope := setdefault u.slope current.slope deflt.slope
      offset := setdefault u.offset current.offset deflt.offset
      units := setdefault u.units current.units deflt.units
      system := setdefault u.system current.system deflt.system
      testpoint }
  if testpoint ≠ 0 then
    { c with
      gain := setdefault u.gain c.gain fl.one
      slope := setdefault u.slope c.slope fl.one
      offset := setdefault u.offset c.offset fl.zero
      dcuid := setdefault u.dcuid c.dcuid dcuIdEx16k }
  else c

/-! ## The parser -/

abbrev Call (F : Type*) := List Char × ChanParam F

/-- The archive file: whether it can be opened, and whether the last of the texts that are put to it
is written. -/
structure Archive where
  opened : Bool
  put : List (List Char) → Bool

structure ParamEnv (F : Type*) where
  /-- `arch_file`, which may be the null pointer. -/
  archive : Option Archive
  /-- Whether the callback answers the last of its calls with 1. -/
  callback : List (Call F) → Bool

/-- The variables of the parser. -/
structure ParamState (F : Type*) where
  crc : BitVec 32 := 0
  flen : BitVec 32 := 0
  linenum : ℕ := 1
  archived : List (List Char) := []
  channel : List Char := []
  deflt : ChanParam F
  current : ChanParam F
  defaultDcuRate : Option ℤ := none
  calls : List (Call F) := []

variable (env : ParamEnv F) (testpoint : ℤ)

def putArchive (s : ParamState F) (text : List Char) : Except ParamError (ParamState F) :=
  match env.archive with
  | none => .ok s
  | some archive =>
    if archive.put (s.archived ++ [text]) then .ok { s with archived := s.archived ++ [text] }
    else .error .writing

/-- The line is taken into the checksum and the length. -/
def addLine (s : ParamState F) (line : List Char) : ParamState F :=
  { s with
    flen := s.flen + BitVec.ofNat 32 line.length
    crc := crcPtr true (line.map fun c => BitVec.ofNat 8 c.toNat) s.crc }

def sectionLine (s : ParamState F) (line : List Char) : Except ParamError (ParamState F) := do
  let s ← putArchive env { addLine s line with linenum := s.linenum + 1 } line
  match assignment line with
  | none => .ok s
  | some (id, val) =>
    (setParam fl testpoint s.linenum s.current id val).map fun current => { s with current }

/-- The end of a section: it becomes the default section, or the callback is called. -/
def closeSection (s : ParamState F) : Except ParamError (ParamState F) :=
  if sameWord s.channel "default".toList then
    .ok { s with deflt := s.current, defaultDcuRate := some s.current.datarate }
  else
    let calls := s.calls ++ [(s.channel, withDefaults fl testpoint s.current s.deflt)]
    if env.callback calls then .ok { s with calls } else .error .callback

/-- `feof` after `fgets` has read the piece with these behind it. -/
def atEof (piece : List Char) (rest : List (List Char)) : Bool :=
  rest = [] && piece.getLast? != some '\n' && decide (piece.length < 127)

def sectionLoop (s : ParamState F) : List (List Char) → Except ParamError (ParamState F)
  | [] => closeSection fl env testpoint s
  | piece :: rest =>
    let line := cString piece
    if line.head? = some '[' then
      if atEof piece rest then closeSection fl env testpoint s
      else do
        let s ← putArchive env s line
        let s ← closeSection fl env testpoint (addLine s line)
        sectionLoop { s with channel := channelName line, current := uninit fl } rest
    else do
      let s ← sectionLine fl env testpoint s line
      sectionLoop s rest

/-- The loop up to the first section. -/
def firstSection (s : ParamState F) : List (List Char) → Except ParamError (ParamState F)
  | [] => .error .noSection
  | piece :: rest => do
    let line := cString piece
    let archived ← putArchive env s line
    let s := { addLine archived line with linenum := s.linenum + 1 }
    if line.head? = some '[' then
      if atEof piece rest then .error .noSection
      else
        sectionLoop fl env testpoint { s with channel := channelName line, current := uninit fl }
          rest
    else firstSection s rest

/-- `parseConfigFile`; the file is `none` if it cannot be opened. -/
def parseConfigFile (file : Option (List Char)) :
    Except ParamError (BitVec 32 × List (Call F)) :=
  match file with
  | none => .error .openReading
  | some file =>
    if env.archive.any fun archive => !archive.opened then .error .openWriting
    else
      (firstSection fl env testpoint { deflt := uninit fl, current := uninit fl }
        (configLines file)).map fun s => (crcLen s.flen s.crc, s.calls)

end Parser

/-! ## Testpoint files -/

end AdvLigoRts.Drv
