import AdvLigoRts.Seq.SdfLoad

/-!
# The buffers of the reader

What `parseLine` and `readConfig` write while they read a file: `parseLine` the bytes of its six
words, each in a buffer of `bufSize` bytes, and `readConfig` the fields of `cdTable`, `cdTableP`,
`readErrTable` and `unknownChans`. A text of `parseLine` is copied into these fields as it is.
-/

namespace AdvLigoRts.Seq

open PvLib

/-! ## `parseLine` -/

/-- A byte that is written into a word: `out[word][offset]`. -/
structure WordWrite where
  word : ℕ
  offset : ℕ
deriving DecidableEq

def WordWrite.InBounds (bufSize : ℕ) (w : WordWrite) : Prop := w.word < 6 ∧ w.offset < bufSize

/-- The state of `parseLine` with `cursize`, and what it has written. -/
structure BufferState extends WordState where
  cursize : ℕ
  writes : List WordWrite

namespace BufferState

/-- `*(out[ii]) = '\0'`, for all words. -/
def start : BufferState := ⟨.start, 0, (List.range 6).map (⟨·, 0⟩)⟩

variable (bufSize : ℕ) (c : Char) (b : BufferState)

/-- `strncat(out[wc], s, 1)`, if there is room: the character, and the 0 behind it. -/
def put : BufferState :=
  if b.cursize < bufSize then
    { b with
      word := b.word ++ [c]
      cursize := b.cursize + 1
      writes := b.writes ++ [⟨b.wc, b.word.length⟩, ⟨b.wc, b.word.length + 1⟩] }
  else b

/-- `out[wc][bufSize-1] = '\0'`. -/
def close : BufferState :=
  { b with
    word := b.word.take (bufSize - 1)
    writes := b.writes ++ [⟨b.wc, bufSize - 1⟩] }

/-- `++wc`. -/
def next : BufferState := { b with toWordState := b.toWordState.next }

end BufferState

/-- The loop of `parseLine` with its buffers. `cursize` is set to 0 by a blank only. -/
def parseBuffers (bufSize : ℕ) : List Char → BufferState → BufferState
  | [], b => if b.quoted = some 0 then b.next else b
  | c :: s, b =>
    match b.quoted with
    | some (k + 1) => parseBuffers bufSize s { b.put bufSize c with quoted := some k }
    | some 0 => if c = '\n' ∨ b.next.wc = 6 then b.next else parseBuffers bufSize s b.next
    | none =>
      if c = '\n' then b
      else if c = ' ' ∨ c = '\t' then
        let b := b.close bufSize
        if b.lastwasspace then parseBuffers bufSize s { b with cursize := 0 }
        else if b.next.wc = 6 then b.next
        else parseBuffers bufSize s { b.next with cursize := 0 }
      else if c ≠ '"' ∨ ¬b.lastwasspace then
        parseBuffers bufSize s { b.put bufSize c with lastwasspace := false }
      else parseBuffers bufSize s { b with quoted := some (quotedLength s) }

/-- The bytes that `parseLine` writes: those of its loop, the end of the last word, and the empty
texts. -/
def parseLineWrites (bufSize : ℕ) (line : List Char) : List WordWrite :=
  let b := parseBuffers bufSize line .start
  let empty (ii : ℕ) : Bool := (b.words ++ [b.word]).getD ii [] = ['\\', '0']
  b.writes ++ (if b.wc < 6 ∧ b.word ≠ [] then [⟨b.wc, bufSize - 1⟩] else []) ++
    ((List.range 6).filter empty).map (⟨·, 0⟩)

/-! ## `readConfig` -/

/-- A copy into a field of a table. -/
structure FieldWrite where
  entry : ℕ
  entries : ℕ
  bytes : ℕ
  room : ℕ

namespace FieldWrite

/-- The entry is one of the table, and what is written fits in its field. -/
def InBounds (w : FieldWrite) : Prop := w.entry < w.entries ∧ w.bytes ≤ w.room

instance (w : FieldWrite) : Decidable w.InBounds := instDecidableAnd

def text (entry entries room : ℕ) (t : List Char) : FieldWrite :=
  ⟨entry, entries, t.length + 1, room⟩

def number (entry entries size : ℕ) : FieldWrite := ⟨entry, entries, size, size⟩

/-- The union `data`. -/
def data {K : Type} (entry entries : ℕ) : SdfData K → FieldWrite
  | .chval _ => ⟨entry, entries, 8, 64⟩
  | .strval s => .text entry entries 64 s

end FieldWrite

section Writes

variable {K : Type} (fp : Doubles K) [LT K] [DecidableLT K] (dbExists : List Char → Bool)
  (timestring : List Char)

/-- The entry of `readErrTable` for a switch setting that is too large. -/
def readErrorWrites (l : Setting) (cd : CdsCdTable K) (st : LoadState K) : List FieldWrite :=
  let chval := (fp.toInt (fp.atof l.value)).toNat
  [.text st.rderror sdfErrTsize 64 cd.chname,
    .text st.rderror sdfErrTsize 64 ("0x".toList ++ Nat.toDigits 16 chval),
    .text st.rderror sdfErrTsize 64 "OVERRANGE".toList,
    .number st.rderror sdfErrTsize 8,
    .text st.rderror sdfErrTsize 64 "MAX VAL = 0xffff".toList,
    .text st.rderror sdfErrTsize 64 timestring]

/-- The body of the loop over `cdTable`. -/
def channelWrites (command : SdfCommand) (l : Setting) (st : LoadState K) (ii : ℕ) :
    List FieldWrite :=
  let cd := st.tables.cdTable ii
  let data := readData fp cd l.value
  if cd.chname = l.name then
    [.number st.chNumP sdfMaxChans 4, .data st.chNumP sdfMaxChans data] ++
      (if isOverrange fp cd l.value then readErrorWrites fp timestring l cd st else []) ++
      if command ≠ .loadDbOnly then
        [.data ii sdfMaxTsize data, .number ii sdfMaxTsize 4, .number ii sdfMaxTsize 4]
      else []
  else []

/-- The entry of `unknownChans`, if there is one. -/
def unknownWrites (name : List Char) (st : LoadState K) : List FieldWrite :=
  let liveset := if dbExists name then "RO Channel ".toList else "  ".toList
  if st.chNotFound < sdfErrTsize then
    [.text st.chNotFound sdfErrTsize 64 name, .text st.chNotFound sdfErrTsize 64 liveset,
      .number st.chNotFound sdfErrTsize 8, .text st.chNotFound sdfErrTsize 64 [' '],
      .text st.chNotFound sdfErrTsize 64 [' '], .number st.chNotFound sdfErrTsize 4]
  else []

/-- The body of the loop of `readConfig` for a setting: the old name is cleared, the new one and the
mask are written, and then the value, to where it belongs. -/
def settingWrites (command : SdfCommand) (st : LoadState K) (l : Setting) : List FieldWrite :=
  [⟨st.chNumP, sdfMaxChans, st.entry.chname.length, 128⟩,
      .text st.chNumP sdfMaxChans 128 l.name, .number st.chNumP sdfMaxChans 4] ++
    (if isAlarmChannel l.name then
      [.number st.chNumP sdfMaxChans 4, .data st.chNumP sdfMaxChans (alarmData fp l.value)]
    else foldlLog (channelWrites fp timestring command l) (loadChannel fp l)
      (st.setEntry { st.entry with chname := l.name, mask := l.mask })
      (List.range st.tables.chNum)) ++
    if isCounted st.tables l then [] else unknownWrites dbExists l.name st

/-- The loop of `readConfig`, as in `loadSettings`. -/
def settingsWrites (command : SdfCommand) : List Setting → LoadState K → List FieldWrite
  | [], _ => []
  | l :: ls, st =>
    settingWrites fp dbExists timestring command st l ++
      let st := loadSetting fp dbExists command st l
      if sdfMaxChans ≤ st.chNumP then [] else settingsWrites command ls st

/-- What `readConfig` writes into its tables. -/
def readConfigWrites (pref : List Char) (file : Option (List Char)) (command : SdfCommand)
    (st : LoadState K) : List FieldWrite :=
  if command = .reset then []
  else
    match file with
    | none => []
    | some file =>
      settingsWrites fp dbExists timestring command (settingsOf pref file)
        { st with rderror := 0, chNumP := 0, chNotFound := 0 }

/-- Every write of the reader stays in its buffer or table. -/
structure ReaderInBounds (pref : List Char) (file : Option (List Char)) (command : SdfCommand)
    (st : LoadState K) : Prop where
  words : ∀ text ∈ file, ∀ line ∈ fileLines text, ∀ w ∈ parseLineWrites 128 line, w.InBounds 128
  fields : ∀ w ∈ readConfigWrites fp dbExists timestring pref file command st, w.InBounds

/-! ## When everything fits -/

def requestSettings (pref : List Char) (file : Option (List Char)) (command : SdfCommand)
    (s : SdfState K) : List Setting :=
  if command = .reset then []
  else
    match file with
    | none => []
    | some file => settingsRead s (settingsOf pref file) 0

end Writes

end AdvLigoRts.Seq
