import AdvLigoRts.Lib.FallibleLoop
import Mathlib.Algebra.Order.Ring.Int

/-!
# The channel access tables of the settings monitor

`main.c` built with `CA_SDF` keeps what channel access delivers in `caTable`. The type of a channel
may have changed when it connects again, so a new connection is written to a side table first:
`caConnTable`, whose entries are handed out in order, or `caConnEnumTable` for an enum, whose type
is only known when its first value comes. `redirIndex` says where updates go meanwhile.
`syncCAConnections` merges the side tables into `caTable`.
-/

namespace AdvLigoRts.Seq

open PvLib

def sdfMaxTsize : ℕ := 20000

instance : NeZero sdfMaxTsize := ⟨by decide⟩

/-- `SDF_NUM`, `SDF_STR`, `SDF_UNKNOWN`. -/
inductive SdfType where
  | num
  | str
  | unknown
deriving DecidableEq, Repr

/-- `union Data`, with the member that was written last. -/
inductive SdfData (K : Type) where
  | chval (v : K)
  | strval (s : List Char)
deriving DecidableEq

/-- `EPICS_CA_TABLE`. -/
structure EpicsCaTable (K : Type) where
  redirIndex : ℤ
  datatype : SdfType
  data : SdfData K
  connected : Bool
  modTime : ℤ
  chanIndex : ℤ

/-- What of a `CDS_CD_TABLE` the connections touch. -/
structure CdChannel (K : Type) where
  datatype : SdfType
  data : SdfData K
  connected : Bool

/-- The types of subscriptions. -/
inductive ChType where
  | timeDouble
  | timeString
  | grEnum
deriving DecidableEq, Repr

/-- The field types that `connectCallback` tells apart. -/
inductive FieldType where
  | enum
  | string
  | other
deriving DecidableEq, Repr

def FieldType.sdfType : FieldType → SdfType
  | .enum => .unknown
  | .string => .str
  | .other => .num

def FieldType.subtype : FieldType → ChType
  | .enum => .grEnum
  | .string => .timeString
  | .other => .timeDouble

/-- A string of channel access: `MAX_STRING_SIZE` bytes with the NUL. -/
structure CaString where
  chars : List Char
  length_lt : chars.length < 40
deriving DecidableEq

/-- The value of an update, by its type. -/
inductive DbrValue (K : Type) where
  | timeDouble (value : K)
  | timeString (value : CaString)
  | grEnum (value noStr : ℕ) (strs : ℕ → CaString)

def DbrValue.chtype {K : Type} : DbrValue K → ChType
  | .timeDouble _ => .timeDouble
  | .timeString _ => .timeString
  | .grEnum .. => .grEnum

/-- The tables of the channels and of their connections. -/
structure CaState (K : Type) where
  chNum : ℕ
  caTable : Fin sdfMaxTsize → EpicsCaTable K
  caConnTable : Fin sdfMaxTsize → EpicsCaTable K
  caConnEnumTable : Fin sdfMaxTsize → EpicsCaTable K
  cdTable : Fin sdfMaxTsize → CdChannel K
  /-- The subscriptions; `none` for 0. -/
  caEvid : Fin sdfMaxTsize → Option ChType
  chConnNum : ℕ
  chEnumDetermined : ℤ

/-- An index of the tables, or an error for one that is outside of them. -/
def index (z : ℤ) : Except ℤ (Fin sdfMaxTsize) :=
  if h : 0 ≤ z ∧ z < sdfMaxTsize then .ok ⟨z.toNat, by omega⟩ else .error z

namespace CaState

variable {K : Type} [Zero K] [NatCast K]

/-- `setupCASDF`, and `registerPV` for each of the channels. -/
def start (chNum : ℕ) : CaState K where
  chNum := chNum
  caTable ii := ⟨-1, .num, .chval 0, false, 0, ii⟩
  caConnTable _ := ⟨-1, .num, .chval 0, false, 0, 0⟩
  caConnEnumTable ii := ⟨-1, .unknown, .chval 0, false, 0, ii⟩
  cdTable _ := ⟨.num, .chval 0, false⟩
  caEvid _ := none
  chConnNum := 0
  chEnumDetermined := 0

def setCa (s : CaState K) (i : Fin sdfMaxTsize) (e : EpicsCaTable K) : CaState K :=
  { s with caTable := Function.update s.caTable i e }

def setConn (s : CaState K) (k : Fin sdfMaxTsize) (e : EpicsCaTable K) : CaState K :=
  { s with caConnTable := Function.update s.caConnTable k e }

def setEnum (s : CaState K) (k : Fin sdfMaxTsize) (e : EpicsCaTable K) : CaState K :=
  { s with caConnEnumTable := Function.update s.caConnEnumTable k e }

def setEvid (s : CaState K) (c : Fin sdfMaxTsize) (t : Option ChType) : CaState K :=
  { s with caEvid := Function.update s.caEvid c t }

/-- `++chEnumDetermined`, of an int. -/
def determine (s : CaState K) : CaState K :=
  { s with chEnumDetermined := (s.chEnumDetermined + 1).bmod (2 ^ 32) }

/-- The type of an enum: a string if the first two of its strings are not empty and differ. -/
def enumType (noStr : ℕ) (strs : ℕ → CaString) : SdfType :=
  if noStr ≥ 2 then
    if (0 < (strs 0).chars.length ∧ 0 < (strs 1).chars.length) ∧ strs 0 ≠ strs 1 then .str else .num
  else .num

/-- `strncpy` to the member `strval`, of 64 bytes, and the NUL at its end. -/
def strncpy (s : List Char) : SdfData K := .strval (s.take 63)

def unexpectedEnum (value : ℕ) : List Char :=
  ("Unexpected enum value received - " ++ toString value).toList

def enumData (type : SdfType) (value noStr : ℕ) (strs : ℕ → CaString) : SdfData K :=
  if type = .num then .chval (value : K)
  else if value > 0 ∧ value < noStr then strncpy (strs value).chars
  else strncpy (unexpectedEnum value)

/-- The entry that `subscriptionHandler` has chosen, after the update. -/
def receive (entry : EpicsCaTable K) (initialRedirIndex : ℤ) (args : DbrValue K) (time : ℤ) :
    EpicsCaTable K × Bool :=
  let entry := { entry with connected := true }
  match args with
  | .timeDouble value => ({ entry with data := .chval value, modTime := time }, false)
  | .timeString value => ({ entry with data := strncpy value.chars, modTime := time }, false)
  | .grEnum value noStr strs =>
    let isNew := initialRedirIndex ≥ sdfMaxTsize ∧ entry.datatype = .unknown
    let entry := if isNew then { entry with datatype := enumType noStr strs } else entry
    ({ entry with data := enumData entry.datatype value noStr strs, modTime := time }, isNew)

/-- `subscriptionHandler`, with `args.usr` the entry of channel `i`. -/
def subscriptionHandler (s : CaState K) (i : Fin sdfMaxTsize) (args : DbrValue K) (time : ℤ) :
    Except ℤ (CaState K) :=
  let redirIndex := (s.caTable i).redirIndex
  let count (s : CaState K) (isNew : Bool) : CaState K := if isNew then s.determine else s
  if redirIndex ≥ 0 then
    if redirIndex < sdfMaxTsize then do
      let k ← index redirIndex
      let (entry, isNew) := receive (s.caConnTable k) redirIndex args time
      return count (s.setConn k entry) isNew
    else do
      let k ← index (redirIndex - sdfMaxTsize)
      let (entry, isNew) := receive (s.caConnEnumTable k) redirIndex args time
      return count (s.setEnum k entry) isNew
  else
    let (entry, isNew) := receive (s.caTable i) redirIndex args time
    return count (s.setCa i entry) isNew

/-- The connection record of a new connection. -/
def newConn (chanIndex : ℤ) (ft : FieldType) : EpicsCaTable K where
  redirIndex := -1
  datatype := ft.sdfType
  data := .chval 0
  connected := true
  modTime := 0
  chanIndex := chanIndex

/-- The tables part of `connectCallback`, for `CA_OP_CONN_UP`. -/
def connectTables (s : CaState K) (i : Fin sdfMaxTsize) (ft : FieldType) :
    Except ℤ (CaState K) :=
  let entry := s.caTable i
  if ft = .enum then do
    let k ← index entry.chanIndex
    return (s.setCa i
      { entry with redirIndex := entry.chanIndex + sdfMaxTsize, connected := true }).setEnum
      k (newConn entry.chanIndex ft)
  else
    -- an entry is reserved if none is
    let redirIndex := if entry.redirIndex < 0 then (s.chConnNum : ℤ) else entry.redirIndex
    let chConnNum := if entry.redirIndex < 0 then s.chConnNum + 1 else s.chConnNum
    do
      let k ← index redirIndex
      let s := (s.setCa i { entry with redirIndex, connected := true }).setConn
        k (newConn entry.chanIndex ft)
      return { s with chConnNum }

/-- `connectCallback` for `CA_OP_CONN_UP`. -/
def connectUp (s : CaState K) (i : Fin sdfMaxTsize) (ft : FieldType) : Except ℤ (CaState K) := do
  let entry := s.caTable i
  let typeChange := ft.sdfType ≠ entry.datatype
  let s ← s.connectTables i ft
  let c ← index entry.chanIndex
  let evid := if (s.caEvid c).isSome ∧ typeChange then none else s.caEvid c
  return s.setEvid c (if evid = none then some ft.subtype else evid)

/-- `connectCallback` for a disconnect. -/
def connectDown (s : CaState K) (i : Fin sdfMaxTsize) : Except ℤ (CaState K) := do
  let entry := s.caTable i
  let s := s.setCa i { entry with connected := false }
  let c ← index entry.chanIndex
  return s.setEvid c none

/-- What `copyConnectedCAEntry` does with a copy of the entry that is in `src`. -/
def copyConnected (s : CaState K) (src : EpicsCaTable K) : Except ℤ (CaState K) := do
  let jj ← index src.chanIndex
  let s := s.setCa jj { src with connected := true, redirIndex := -1 }
  let cd := s.cdTable jj
  let cd :=
    if cd.datatype ≠ src.datatype then ⟨src.datatype, .chval 0, true⟩
    else { cd with connected := true }
  return { s with cdTable := Function.update s.cdTable jj cd }

/-- `copyConnectedCAEntry(&(caConnTable[ii]))`. -/
def mergeConn (s : CaState K) (ii : ℕ) : Except ℤ (CaState K) := do
  let k ← index ii
  let src := { s.caConnTable k with connected := true }
  (s.setConn k src).copyConnected src

/-- The subscription of an enum gives way to one of the type that was determined. -/
def resubscribe (s : CaState K) (ii : Fin sdfMaxTsize) : Except ℤ (CaState K) := do
  let c ← index (s.caTable ii).chanIndex
  let subtype := if (s.caTable ii).datatype = .num then ChType.timeDouble else .timeString
  return s.setEvid c (some subtype)

/-- A pass of the loop over `caConnEnumTable`. -/
def mergeEnum (s : CaState K) (ii : ℕ) : Except ℤ (CaState K) := do
  let k ← index ii
  if (s.caConnEnumTable k).datatype ≠ .unknown then
    let src := { s.caConnEnumTable k with connected := true }
    let s ← (s.setEnum k src).copyConnected src
    (s.setEnum k { src with datatype := .unknown }).resubscribe k
  else return s

/-- A pass of the last loop: `cdTable[ii].connected = caTable[ii].connected`. -/
def copyFlag (s : CaState K) (ii : ℕ) : Except ℤ (CaState K) := do
  let k ← index ii
  let cd := { s.cdTable k with connected := (s.caTable k).connected }
  return { s with cdTable := Function.update s.cdTable k cd }

/-- The loop over `caConnEnumTable`, if there is anything to do. -/
def mergeEnums (s : CaState K) : Except ℤ (CaState K) :=
  if s.chEnumDetermined > 0 then (List.range s.chNum).foldlM mergeEnum s else .ok s

def syncCAConnections (s : CaState K) : Except ℤ (CaState K) := do
  let s ← (List.range s.chConnNum).foldlM mergeConn s
  let s ← mergeEnums { s with chConnNum := 0 }
  let s := { s with chEnumDetermined := 0 }
  (List.range s.chNum).foldlM copyFlag s

end CaState

/-! ## Runs -/

/-- A callback of channel access, or a pass of the main loop. -/
inductive CaEvent (K : Type) where
  | connect (i : Fin sdfMaxTsize) (ft : FieldType)
  | disconnect (i : Fin sdfMaxTsize)
  | update (i : Fin sdfMaxTsize) (args : DbrValue K) (time : ℤ)
  | sync

namespace CaState

variable {K : Type} [Zero K] [NatCast K]

/-- One event. -/
def step (s : CaState K) : CaEvent K → Except ℤ (CaState K)
  | .connect i ft => if i < s.chNum then s.connectUp i ft else return s
  | .disconnect i => if i < s.chNum then s.connectDown i else return s
  | .update i args time =>
    if i < s.chNum ∧ s.caEvid i = some args.chtype then s.subscriptionHandler i args time
    else return s
  | .sync => s.syncCAConnections

end CaState

end AdvLigoRts.Seq
