import AdvLigoRts.Lib.SlotTable
import Mathlib.Algebra.GroupWithZero.Nat

/-!
# The test point server

`requesttp_1_svc`, `cleartp_1_svc`, `setPreselect` and `cleanupTestpoints` of
gds/testpoint_server.c, with the constants and macros of gds/rmorg.h. The table `indx` of the
node is a function of the interface and the slot; what the server reads but never writes after
its start is a `TpNode`.

A run is a list of the sections of the calls under the server mutex. A request is one section,
`cleartp_1_svc` one that the request for the preselected test points may follow, and
`cleanupTestpoints` one for each interface.
-/

namespace AdvLigoRts.Gds

open PvLib.SlotTable

/-! ## Constants and macros -/

abbrev tpMaxInterface : ℕ := 4

/-- `TP_MAX_INDEX`, which is also `TP_INTERFACE_TO_INDEX_LEN` of each interface. -/
abbrev tpMaxIndex : ℕ := 64

def tpHighestIndex : ℕ := 60000

abbrev tpMaxPreselect : ℕ := 20

def tpMaxNode : ℤ := 256

def tpMaxUser : ℕ := 1000

/-- `_TP_CLEAR_ALL`, which is `(unsigned short)(-1)`. -/
def tpClearAll : ℕ := 65535

def maxChnNameSize : ℕ := 60

def daqDcuSize : ℕ := 0x400000

def oneSec : ℤ := 1000000000

/-- `_EPOCH`. -/
def epochLength : ℤ := oneSec.tdiv 16

def testpointUpdateEpoch : ℤ := 8

def tpLscExInterface : ℤ := 0

def tpAscExInterface : ℤ := 1

def tpLscTpInterface : ℤ := 2

def tpAscTpInterface : ℤ := 3

def tpDacInterface : ℤ := 100

def tpDs340Interface : ℤ := 101

def tpIdToInterface (a : ℕ) : ℤ :=
  if a = 0 then -1
  else if a < 10000 then tpLscExInterface
  else if a < 20000 then tpLscTpInterface
  else if a < 30000 then tpAscExInterface
  else if a < 40000 then tpAscTpInterface
  else if a < 50000 then tpDacInterface
  else if a < 60000 then tpDs340Interface
  else -1

/-- The interface whose table holds a test point. The channels of the DACs use LSC EXC. -/
def tpInterface (tp : ℕ) : Option (Fin tpMaxInterface) :=
  let tpinterface := tpIdToInterface tp
  let tpinterface := if tpinterface = tpDacInterface then tpLscExInterface else tpinterface
  if h : tpinterface < 0 ∨ tpinterface ≥ tpMaxInterface then none
  else some ⟨tpinterface.toNat, by omega⟩

/-! ## Data -/

/-- `tpUsage_t`. -/
structure TpUsage where
  reqTime : ℤ
  timeout : ℤ
  clntId : ℤ
deriving DecidableEq, Repr

/-- `tpEntry_t`. -/
structure TpEntry where
  id : ℕ
  inUse : ℕ
  users : ℕ → TpUsage
  name : List Char

/-- An entry after `memset`. -/
def TpEntry.zero : TpEntry := ⟨0, 0, fun _ => ⟨0, 0, 0⟩, []⟩

/-- `indx` of a node. -/
abbrev Indx := Fin tpMaxInterface → Fin tpMaxIndex → TpEntry

/-- The table after `memset`. -/
def Indx.zero : Indx := fun _ _ => TpEntry.zero

def Indx.set (indx : Indx) (f : Fin tpMaxInterface) (j : Fin tpMaxIndex) (e : TpEntry) : Indx :=
  Function.update indx f (Function.update (indx f) j e)

/-- What the server reads: the node, the names of the test points, the size of the DAQ block
without test points, the rate, and whether the holder of the mutex gets it once more (a default
mutex of POSIX threads makes it wait for itself, one of VxWorks does not). -/
structure TpNode where
  valid : Bool
  node : ℤ
  preselect : Fin tpMaxPreselect → ℕ
  tplookup : ℕ → Option (List Char)
  curDaqBlockSize : ℕ
  sysFreqMult : ℕ
  relock : Bool

/-- The arguments of `requesttp_1_svc`. -/
structure RequestTp where
  id : ℤ
  node : ℤ
  tp : List ℕ
  timeout : ℤ
  taiNow : ℕ → ℕ → ℤ
  malloc : Bool

/-- The arguments of `cleartp_1_svc`. The clock is for the preselected test points. -/
structure ClearTp where
  id : ℤ
  node : ℤ
  tp : List ℕ
  taiNow : ℕ → ℕ → ℤ

/-- `resultRequestTP_r`. The time stays unset if the call returns early; the epoch is 0. -/
structure ResultRequestTp where
  status : ℤ
  time : Option ℤ
deriving DecidableEq, Repr

/-- The table after a call and its result; there is none if the call waits for ever. -/
structure Outcome (ρ : Type) where
  indx : Indx
  ret : Option ρ

/-! ## Entries -/

/-- Writes the user behind those in use, without counting it. -/
def TpEntry.writeUser (e : TpEntry) (u : TpUsage) : TpEntry :=
  { e with users := Function.update e.users e.inUse u }

def TpEntry.addUser (e : TpEntry) (u : TpUsage) : TpEntry :=
  { e.writeUser u with inUse := e.inUse + 1 }

/-- Decreases the in use count and shifts the array. -/
def TpEntry.removeUser (e : TpEntry) (k : ℕ) : TpEntry :=
  let inUse := e.inUse - 1
  let e := { e with inUse := inUse, id := if inUse ≤ 0 then 0 else e.id }
  if k < e.inUse then
    { e with users := fun m => if k ≤ m ∧ m < e.inUse then e.users (m + 1) else e.users m }
  else e

def TpEntry.live (e : TpEntry) : List TpUsage := (List.range e.inUse).map e.users

/-- Looks for a test point in the slots of an interface. -/
def search (row : Fin tpMaxIndex → TpEntry) (tp : ℕ) : Scan tpMaxIndex :=
  scan (fun j => (row j).id) 0 tp

/-- How many entries are in use. -/
def activeTps (indx : Indx) : ℕ :=
  ((List.finRange tpMaxInterface).map fun f =>
    (List.finRange tpMaxIndex).countP fun j => (indx f j).id ≠ 0).sum

/-- The sections that run under the server mutex. -/
inductive TpSection where
  | request (r : RequestTp)
  | clear (c : ClearTp)
  | cleanup (t : ℤ) (f : Fin tpMaxInterface)

/-- The table, and whether a call that holds the mutex waits for ever. -/
structure TpState where
  indx : Indx
  blocked : Bool

def TpState.start : TpState := ⟨Indx.zero, false⟩

namespace TpNode

variable (tpNode : TpNode)

/-! ## Request -/

/-- The interface of a test point that is in the list of the node. -/
def interfaceOf (tp : ℕ) : Option (Fin tpMaxInterface) :=
  if tp ≤ 0 ∨ tp ≥ tpHighestIndex ∨ tpNode.tplookup tp = none then none else tpInterface tp

/-- The check of the node and the client. -/
def rejects (id n : ℤ) : Bool :=
  id < 0 ∨ n < 0 ∨ n ≥ tpMaxNode ∨ tpNode.valid = false ∨ tpNode.node ≠ n

/-- The first loop for one test point: how many entries it expects. -/
def projectTp (r : RequestTp) (s : Indx × ℕ) (p : ℕ × ℕ) : Indx × ℕ :=
  match tpNode.interfaceOf p.1 with
  | none => s
  | some f =>
    let found := search (s.1 f) p.1
    -- an empty slot counts although the test point may be in a slot behind it
    let projTpNum := if found.free.isSome then s.2 + 1 else s.2
    match found.hit with
    | some j =>
      if (s.1 f j).inUse < tpMaxUser then
        (s.1.set f j ((s.1 f j).writeUser ⟨r.taiNow 0 p.2, r.timeout, r.id⟩), projTpNum)
      else (s.1, projTpNum)
    | none => (s.1, projTpNum)

/-- The first loop. -/
def project (r : RequestTp) (indx : Indx) : Indx × ℕ :=
  r.tp.zipIdx.foldl (tpNode.projectTp r) (indx, 0)

/-- The size of the DAQ block with so many test points. The sum is one of 32 bits. -/
def projDaqSize (projTpNum : ℕ) : ℕ :=
  (projTpNum * 4 * 16384 * tpNode.sysFreqMult + tpNode.curDaqBlockSize) % 2 ^ 32

/-- The request is refused since the DAQ block would be too large. -/
def tooMany (r : RequestTp) (indx : Indx) : Bool :=
  let (indx, projTpNum) := tpNode.project r indx
  tpNode.projDaqSize (projTpNum + activeTps indx) > daqDcuSize

/-- The second loop for one test point. -/
def placeTp (r : RequestTp) (indx : Indx) (p : ℕ × ℕ) : Option Indx :=
  match tpNode.interfaceOf p.1 with
  | none => some indx
  | some f =>
    let u : TpUsage := ⟨r.taiNow 1 p.2, r.timeout, r.id⟩
    let found := search (indx f) p.1
    match found.hit with
    | some j =>
      if (indx f j).inUse < tpMaxUser then some (indx.set f j ((indx f j).addUser u)) else none
    | none =>
      match found.free with
      | some k =>
        let name := (((tpNode.tplookup p.1).getD []).take (maxChnNameSize - 1))
        some (indx.set f k (({ indx f k with id := p.1, inUse := 0, name := name }).addUser u))
      | none => none

/-- The second loop, with the index of the test point at which it stops. -/
def place (r : RequestTp) : List (ℕ × ℕ) → Indx → Indx × Option ℕ
  | [], indx => (indx, none)
  | p :: ps, indx =>
    match tpNode.placeTp r indx p with
    | some indx => place r ps indx
    | none => (indx, some p.2)

def activation (time : ℤ) : ℤ :=
  time.tdiv oneSec + 1 +
    if (time.tmod oneSec).tdiv epochLength ≥ testpointUpdateEpoch then 1 else 0

/-! ## Clear -/

/-- The loop of `cleartp_1_svc` for one test point: the first user of the client that has no
timeout goes. -/
def clearTp (id : ℤ) (indx : Indx) (tp : ℕ) : Indx :=
  match tpInterface tp with
  | none => indx
  | some f =>
    match lookup (fun j => (indx f j).id) tp with
    | none => indx
    | some j =>
      let e := indx f j
      let k := e.live.findIdx fun u => u.clntId = id ∧ u.timeout ≤ 0
      if k < e.inUse then indx.set f j (e.removeUser k) else indx

/-- The loop of `cleartp_1_svc`, and whether it has met `_TP_CLEAR_ALL`. -/
def clearTps (id : ℤ) : List ℕ → Indx → Indx × Bool
  | [], indx => (indx, false)
  | tp :: tps, indx =>
    if tp = tpClearAll then (Indx.zero, true) else clearTps id tps (clearTp id indx tp)

def preselectRequest (n : ℤ) (taiNow : ℕ → ℕ → ℤ) : RequestTp where
  id := 0x7fffffff
  node := n
  tp := ((List.finRange tpMaxPreselect).map tpNode.preselect).filter (· > 0)
  timeout := 0
  taiNow := taiNow
  malloc := true

def setPreselect (requesttp : Bool → Indx → RequestTp → Option (Outcome ResultRequestTp))
    (held : Bool) (indx : Indx) (n : ℤ) (taiNow : ℕ → ℕ → ℤ) :
    Option (Outcome Unit) :=
  let r := tpNode.preselectRequest n taiNow
  if r.tp.length > 0 then
    (requesttp held indx r).map fun o => ⟨o.indx, o.ret.map fun _ => ()⟩
  else some ⟨indx, some ()⟩

/-- `cleartp_1_svc`, by a thread that has the mutex already or not. -/
def cleartp (requesttp : Bool → Indx → RequestTp → Option (Outcome ResultRequestTp))
    (held : Bool) (indx : Indx) (c : ClearTp) : Option (Outcome ℤ) :=
  if tpNode.rejects c.id c.node then some ⟨indx, some (-2)⟩
  else if held && !tpNode.relock then some ⟨indx, none⟩
  else
    let (indx, clearall) := clearTps c.id c.tp indx
    if clearall then
      (tpNode.setPreselect requesttp held indx c.node c.taiNow).map fun o =>
        ⟨o.indx, o.ret.map fun _ => 0⟩
    else some ⟨indx, some 0⟩

/-- `requesttp_1_svc`. -/
def requesttp : ℕ → Bool → Indx → RequestTp → Option (Outcome ResultRequestTp)
  | 0, _, _, _ => none
  | fuel + 1, held, indx, r =>
    if tpNode.rejects r.id r.node then some ⟨indx, some ⟨-2, none⟩⟩
    else if held && !tpNode.relock then some ⟨indx, none⟩
    else if tpNode.tooMany r indx then some ⟨(tpNode.project r indx).1, some ⟨0, none⟩⟩
    else
      let time := activation (r.taiNow 2 0)
      match tpNode.place r r.tp.zipIdx (tpNode.project r indx).1 with
      | (indx, none) => some ⟨indx, some ⟨0, some time⟩⟩
      | (indx, some i) =>
        let result : ResultRequestTp := ⟨-(i + 1), some time⟩
        if r.malloc then
          let c : ClearTp := ⟨r.id, r.node, r.tp.take (i + 1), fun l => r.taiNow (l + 3)⟩
          -- the mutex is held here
          (tpNode.cleartp (requesttp fuel) true indx c).map fun o =>
            ⟨o.indx, o.ret.map fun _ => result⟩
        else some ⟨indx, some result⟩

/-! ## Clean-up -/

/-- A user whose timeout is over. The sum is one of 64 bits. -/
def expired (t : ℤ) (u : TpUsage) : Bool :=
  u.timeout > 0 ∧ (u.reqTime + u.timeout).bmod (2 ^ 64) < t

/-- The loop over the users of an entry. -/
def cleanupEntry (t : ℤ) (e : TpEntry) : TpEntry :=
  if e.id = 0 then e
  else (List.range e.inUse).foldl
    (fun e k => if k < e.inUse ∧ expired t (e.users k) then e.removeUser k else e) e

/-- The section of `cleanupTestpoints` for an interface. -/
def cleanupInterface (t : ℤ) (indx : Indx) (f : Fin tpMaxInterface) : Indx :=
  Function.update indx f fun j => cleanupEntry t (indx f j)

/-- The table after `cleanupTestpoints`. -/
def cleanupTestpoints (time epoch : ℤ) (indx : Indx) : Indx :=
  let t := time * oneSec + epoch * epochLength
  if tpNode.valid then (List.finRange tpMaxInterface).foldl (cleanupInterface t) indx else indx

/-! ## Runs -/

def step (s : TpState) : TpSection → TpState
  | .request r =>
    if s.blocked then s
    else match tpNode.requesttp 2 false s.indx r with
      | some o => ⟨o.indx, o.ret.isNone⟩
      | none => s
  | .clear c =>
    if s.blocked ∨ tpNode.rejects c.id c.node then s
    else { s with indx := (clearTps c.id c.tp s.indx).1 }
  | .cleanup t f =>
    if s.blocked ∨ tpNode.valid = false then s
    else { s with indx := cleanupInterface t s.indx f }

def runTo (secs : List TpSection) : TpState := secs.foldl tpNode.step TpState.start

end TpNode

end AdvLigoRts.Gds
