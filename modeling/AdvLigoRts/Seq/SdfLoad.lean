import AdvLigoRts.Seq.SdfSelection

/-!
# Loading a settings file

What `readConfig` does beside changing the tables. The settings that a file has for channels of
`cdTable` are collected in `cdTableP`, whose next free entry is also the place where every line is
looked at, and `writeEpicsDb` then writes what was collected to the database. Lines of other
channels go to `unknownChans`, and switch settings that are too large to `readErrTable`.
-/

namespace AdvLigoRts.Seq

open PvLib

variable {K : Type}

/-! ## The tables of a load -/

/-- What `readConfig` works on. -/
structure LoadState (K : Type) where
  tables : SdfState K
  chNumP : ℕ
  cdTableP : ℕ → CdsCdTable K
  chNotFound : ℕ
  unknownChans : ℕ → SetErrTable K
  rderror : ℕ
  readErrTable : ℕ → SetErrTable K

namespace LoadState

/-- `cdTableP[chNumP]`. -/
def entry (st : LoadState K) : CdsCdTable K := st.cdTableP st.chNumP

def setEntry (st : LoadState K) (p : CdsCdTable K) : LoadState K :=
  { st with cdTableP := Function.update st.cdTableP st.chNumP p }

/-- The entry gets a value. -/
def setValue (st : LoadState K) (data : SdfData K) : LoadState K :=
  st.setEntry { st.entry with
    datatype := match data with
      | .chval _ => .num
      | .strval _ => .str
    data := data }

end LoadState

section Load

variable (fp : Doubles K) [LT K] [DecidableLT K] (dbExists : List Char → Bool)

/-- `rderror ++`, with an entry of `readErrTable`. -/
def readError (cd : CdsCdTable K) (st : LoadState K) : LoadState K :=
  { st with
    readErrTable := Function.update st.readErrTable st.rderror
      { st.readErrTable st.rderror with
        chname := cd.chname, liveset := "OVERRANGE".toList, liveval := fp.ofUnsigned 0 }
    rderror := st.rderror + 1 }

/-- The body of the loop over `cdTable`, but for the table itself. -/
def loadChannel (l : Setting) (st : LoadState K) (ii : ℕ) : LoadState K :=
  let cd := st.tables.cdTable ii
  if cd.chname = l.name then
    let st := st.setValue (readData fp cd l.value)
    if isOverrange fp cd l.value then readError fp cd st else st
  else st

/-- The value of an alarm: a number must start with a digit. -/
def alarmData (s3 : List Char) : SdfData K :=
  if s3.head?.any Char.isDigit then .chval (fp.atof s3) else .strval s3

/-- `chNotFound ++`, with an entry of `unknownChans` if there is room. -/
def notFound (name : List Char) (st : LoadState K) : LoadState K :=
  let line := { st.unknownChans st.chNotFound with
    chname := name
    liveset := if dbExists name then "RO Channel ".toList else "  ".toList
    liveval := fp.ofUnsigned 0
    chFlag := 0 }
  { st with
    unknownChans :=
      if st.chNotFound < sdfErrTsize then Function.update st.unknownChans st.chNotFound line
      else st.unknownChans
    chNotFound := st.chNotFound + 1 }

/-- The body of the loop of `readConfig` for a setting. -/
def loadSetting (command : SdfCommand) (st : LoadState K) (l : Setting) : LoadState K :=
  let st := st.setEntry { st.entry with chname := l.name, mask := l.mask }
  let st :=
    if isAlarmChannel l.name then st.setValue (alarmData fp l.value)
    else (List.range st.tables.chNum).foldl (loadChannel fp l) st
  let fmatch := isCounted st.tables l
  let st := { st with tables := readSetting fp command st.tables l }
  if fmatch then { st with chNumP := st.chNumP + 1 } else notFound fp dbExists l.name st

/-- The loop of `readConfig`, for the settings of the lines. -/
def loadSettings (command : SdfCommand) : List Setting → LoadState K → LoadState K × Bool
  | [], st => (st, true)
  | l :: ls, st =>
    let st := loadSetting fp dbExists command st l
    if sdfMaxChans ≤ st.chNumP then (st, false) else loadSettings command ls st

omit [LT K] [DecidableLT K] in
/-- `writeEpicsDb`: the names and values that are written. -/
def writeEpicsDb (numchans : ℕ) (myTable : ℕ → CdsCdTable K) (command : SdfCommand) :
    List (List Char × SdfData K) :=
  let put (ii : ℕ) : Option (List Char × SdfData K) :=
    if dbExists (myTable ii).chname then some ((myTable ii).chname, (myTable ii).putValue fp)
    else none
  match command with
  | .loadDbOnly | .loadPartial => (List.range numchans).filterMap put
  | .readOnly => []
  | .reset => ((List.range numchans).filter fun ii => (myTable ii).mask ≠ 0).filterMap put

omit [LT K] [DecidableLT K] in
/-- What `newfilterstats` writes to the database for a filter: what is asked of its switches, and
which of them are looked at. -/
def filterRequests (s : SdfState K) (ii : ℕ) : List (List Char × BitVec 32) :=
  let f := s.filterTable ii
  if f.newSet then
    let swreq := swRequest fp ((s.cdTable f.sw.1).data.asChval fp)
      ((s.cdTable f.sw.2).data.asChval fp)
    [(f.fname ++ "SWREQ".toList, swreq), (f.fname ++ "SWMASK".toList, 0x1ffff)].filter fun w =>
      dbExists w.1
  else []

/-- What a request leaves, the settings written to the database, what is written there for filters,
and what it returns. -/
structure LoadResult (K : Type) where
  state : LoadState K
  writes : List (List Char × SdfData K)
  requests : List (List Char × BitVec 32)
  lderror : ℕ

/-- `readConfig`, with what it writes to the database. -/
def loadConfig (pref : List Char) (file : Option (List Char)) (command : SdfCommand)
    (st : LoadState K) : LoadResult K :=
  let st := { st with rderror := 0 }
  if command = .reset then
    ⟨st, writeEpicsDb fp dbExists st.tables.chNum st.tables.cdTable command, [], 0⟩
  else
    match file with
    | none => ⟨st, [], [], 4⟩
    | some file =>
      match loadSettings fp dbExists command (settingsOf pref file)
          { st with chNumP := 0, chNotFound := 0 } with
      | (st, false) => ⟨st, [], [], 4⟩
      | (st, true) =>
        ⟨{ st with tables := newfilterstats fp st.tables },
          writeEpicsDb fp dbExists st.chNumP st.cdTableP command,
          (List.range st.tables.fmNum).flatMap (filterRequests fp dbExists st.tables),
          if st.rderror ≠ 0 then 2 else 0⟩

end Load

end AdvLigoRts.Seq
