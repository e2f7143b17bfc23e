import Mathlib.Data.List.FinRange
import Mathlib.Algebra.Group.Nat.Defs

/-!
# IPC between real-time models

`commData3Init`, `commData3Send` and `commData3Receive` of fe/commData3.c. A network memory is
one `CDS_IPC_COMMS` for each type of network, and a pointer into it is the type; the pointers
`pIpcDataRead` and `pIpcDataWrite` are `none` where the code has `NULL`.

`IpcLink` is the system of a sender and a receiver on one clock, which counts the cycles of
`IPC_MAX_RATE`: between its ticks the two models call their functions in any order.
-/

namespace AdvLigoRts.Fe

def ipcMaxRate : ℕ := 65536

def ipcBlocks : ℕ := 64

/-- `ISHME`, `IPCIE`, `IRFM0` and `IRFM1`. -/
inductive NetType where
  | shme
  | pcie
  | rfm0
  | rfm1
deriving DecidableEq, Repr

/-- The number of a network type. -/
def NetType.code : NetType → ℕ
  | .shme => 0
  | .pcie => 1
  | .rfm0 => 2
  | .rfm1 => 3

/-- The network is a reflected memory. -/
def NetType.isRfm (net : NetType) : Bool := net = .rfm0 ∨ net = .rfm1

/-- `IRCV` and `ISND`. -/
inductive IpcMode where
  | rcv
  | snd
deriving DecidableEq, Repr

/-- `CDS_IPC_XMIT`. -/
structure IpcXmit (K : Type) where
  data : K
  timestamp : ℕ

/-- The network memories: `dBlock[block][ipcNum]` of each. -/
abbrev IpcMem (K : Type) := NetType → ℕ → ℕ → IpcXmit K

/-- `CDS_IPC_INFO`. -/
structure IpcInfo (K : Type) where
  data : K
  netType : NetType
  sendCycle : ℕ
  sendRate : ℕ
  rcvRate : ℕ
  rcvCycle : ℕ
  ipcNum : ℕ
  mode : IpcMode
  errFlag : ℕ
  errTotal : ℕ
  pIpcDataRead : Option NetType
  pIpcDataWrite : Option NetType

/-- Which pointers of `cdsPciModules` are set. -/
structure PciModules where
  dolphinRead0 : Bool
  dolphinRead1 : Bool
  dolphinWrite0 : Bool
  dolphinWrite1 : Bool

variable {K : Type}

/-- `commData3Init` for one connection. -/
def initInfo [Zero K] (rate : ℕ) (pci : PciModules) (info : IpcInfo K) : IpcInfo K :=
  let info := { info with sendCycle := ipcMaxRate / rate }
  let info :=
    if info.mode = .rcv then
      if info.sendRate ≥ rate then { info with rcvRate := info.sendRate / rate, rcvCycle := 1 }
      else
        { info with rcvRate := rate / info.sendRate, rcvCycle := rate / info.sendRate }
    else info
  let writes : Bool :=
    match info.netType with
    | .shme => true
    | .pcie => pci.dolphinWrite0
    | .rfm0 | .rfm1 => pci.dolphinWrite1
  let reads : Bool :=
    match info.netType with
    | .shme => true
    | .pcie => pci.dolphinRead0
    | .rfm0 | .rfm1 => pci.dolphinRead1
  { info with
    data := 0
    pIpcDataWrite := if info.mode = .snd ∧ writes then some info.netType else none
    pIpcDataRead := if info.mode = .rcv ∧ reads then some info.netType else none }

def commData3Init [Zero K] {connects : ℕ} (rate : ℕ) (pci : PciModules)
    (ipcInfo : Fin connects → IpcInfo K) : Fin connects → IpcInfo K :=
  fun ii => initInfo rate pci (ipcInfo ii)

/-! ## Send -/

def syncWord (timeSec dataCycle : ℕ) : ℕ := (timeSec * 2 ^ 32 + dataCycle) % 2 ^ 64

/-- The block to write, and the word to write with the data. -/
def sendPoint (ipcRate sendCycle timeSec cycle : ℕ) : ℕ × ℕ :=
  let sendBlock := ((cycle + 1) * (ipcMaxRate / ipcRate)) % ipcBlocks
  let dataCycle := ((cycle + 1) * sendCycle) % ipcMaxRate
  (sendBlock, syncWord (if dataCycle = 0 then timeSec + 1 else timeSec) dataCycle)

/-- The same for the reflected memories with `RFM_DELAY`, one block further ahead. -/
def sendPointDelayed (ipcRate sendCycle timeSec cycle : ℕ) : ℕ × ℕ :=
  let mycycle := cycle + 1
  let sendBlock := ((mycycle + 1) * (ipcMaxRate / ipcRate)) % ipcBlocks
  let dataCycle := ((mycycle + 1) * sendCycle) % ipcMaxRate
  (sendBlock,
    syncWord (if dataCycle = 0 ∨ dataCycle = sendCycle then timeSec + 1 else timeSec) dataCycle)

/-- Writes one cell of a network memory. -/
def IpcMem.put (mem : IpcMem K) (net : NetType) (block num : ℕ) (x : IpcXmit K) : IpcMem K :=
  fun net' block' num' =>
    if net' = net ∧ block' = block ∧ num' = num then x else mem net' block' num'

/-- One pass of a loop of `commData3Send`. -/
def sendInfo (point : ℕ × ℕ) (mem : IpcMem K) (info : IpcInfo K) : IpcMem K :=
  match info.pIpcDataWrite with
  | some net => mem.put net point.1 info.ipcNum ⟨info.data, point.2⟩
  | none => mem

/-- A loop of `commData3Send`, over the connections of some networks. -/
def sendNets {connects : ℕ} (nets : NetType → Bool) (point : ℕ × ℕ)
    (ipcInfo : Fin connects → IpcInfo K) (mem : IpcMem K) : IpcMem K :=
  (List.finRange connects).foldl (fun mem ii =>
    if (ipcInfo ii).mode = .snd ∧ nets (ipcInfo ii).netType then sendInfo point mem (ipcInfo ii)
    else mem) mem

/-- `ipcInfo[0].sendCycle`. -/
def firstSendCycle {connects : ℕ} (ipcInfo : Fin connects → IpcInfo K) : ℕ :=
  if h : 0 < connects then (ipcInfo ⟨0, h⟩).sendCycle else 0

/-- `commData3Send`, with `RFM_DELAY` or without. -/
def commData3Send {connects : ℕ} (rfmDelay : Bool) (ipcRate : ℕ)
    (ipcInfo : Fin connects → IpcInfo K) (timeSec cycle : ℕ) (mem : IpcMem K) : IpcMem K :=
  let sendCycle := firstSendCycle ipcInfo
  let point := sendPoint ipcRate sendCycle timeSec cycle
  let rfmPoint :=
    if rfmDelay then sendPointDelayed ipcRate sendCycle timeSec cycle else point
  let mem := sendNets NetType.isRfm rfmPoint ipcInfo mem
  sendNets (fun net => !net.isRfm) point ipcInfo mem

/-! ## Receive -/

/-- The first loop of `commData3Receive` for one connection. -/
def receiveInfo (mem : IpcMem K) (rcvBlock timeSec cycle : ℕ) (info : IpcInfo K) : IpcInfo K :=
  if info.mode = .rcv ∧ cycle % info.rcvCycle = 0 then
    match info.pIpcDataRead with
    | some net =>
      let x := mem net rcvBlock info.ipcNum
      let cycle65k := cycle * info.sendCycle
      if x.timestamp = syncWord timeSec cycle65k then { info with data := x.data }
      else { info with errFlag := info.errFlag + 1 }
    | none => { info with errFlag := info.errFlag + 1 }
  else info

/-- The second loop, at cycle 0. -/
def reportInfo (info : IpcInfo K) : IpcInfo K :=
  if info.mode = .rcv then { info with errTotal := info.errFlag, errFlag := 0 } else info

/-- The bits of `ipcErrBits` that the second loop sets for a connection. -/
def errBits (info : IpcInfo K) : ℕ :=
  if info.mode = .rcv ∧ info.errFlag ≠ 0 then
    (1 <<< info.netType.code) ||| (16 <<< info.netType.code)
  else 0

/-- `commData3Receive`, and `ipcErrBits`. -/
def commData3Receive {connects : ℕ} (ipcRate : ℕ) (ipcInfo : Fin connects → IpcInfo K)
    (timeSec cycle : ℕ) (mem : IpcMem K) (ipcErrBits : ℕ) : (Fin connects → IpcInfo K) × ℕ :=
  let rcvBlock := (cycle * (ipcMaxRate / ipcRate)) % ipcBlocks
  let ipcInfo := fun ii => receiveInfo mem rcvBlock timeSec cycle (ipcInfo ii)
  if cycle = 0 then
    (fun ii => reportInfo (ipcInfo ii),
      (List.finRange connects).foldl (fun bits ii => bits ||| errBits (ipcInfo ii))
        (ipcErrBits &&& 0xf0))
  else (ipcInfo, ipcErrBits)

/-! ## A sender and a receiver -/

/-- How the two models are built. -/
structure IpcLink (K : Type) where
  sndConnects : ℕ
  rcvConnects : ℕ
  sndRate : ℕ
  rcvRate : ℕ
  sndInfo : Fin sndConnects → IpcInfo K
  rcvInfo : Fin rcvConnects → IpcInfo K
  sndPci : PciModules
  rcvPci : PciModules
  rfmDelay : Bool

/-- A tick of the clock, a call of the sender with the values of its connections, or a call of
the receiver. -/
inductive IpcEvent (K : Type) where
  | tick
  | send (values : ℕ → K)
  | receive

/-- The clock counts cycles of `IPC_MAX_RATE`. -/
structure IpcState (L : IpcLink K) where
  clock : ℕ
  mem : IpcMem K
  snd : Fin L.sndConnects → IpcInfo K
  rcv : Fin L.rcvConnects → IpcInfo K
  ipcErrBits : ℕ

namespace IpcLink

variable (L : IpcLink K)

/-- The cycles of the clock in one cycle of the sender. -/
def sndPeriod : ℕ := ipcMaxRate / L.sndRate

/-- The cycles of the clock in one cycle of the receiver. -/
def rcvPeriod : ℕ := ipcMaxRate / L.rcvRate

/-- The models after `commData3Init`, at the start of a GPS second. -/
def start [Zero K] (gps : ℕ) (mem : IpcMem K) : IpcState L where
  clock := gps * ipcMaxRate
  mem := mem
  snd := commData3Init L.sndRate L.sndPci L.sndInfo
  rcv := commData3Init L.rcvRate L.rcvPci L.rcvInfo
  ipcErrBits := 0

/-- The event. A model is in the cycle that the clock says. -/
def step (s : IpcState L) : IpcEvent K → IpcState L
  | .tick => { s with clock := s.clock + 1 }
  | .send values =>
    let snd := fun ii : Fin L.sndConnects => { s.snd ii with data := values ii }
    let mem := commData3Send L.rfmDelay L.sndRate snd (s.clock / ipcMaxRate)
      (s.clock % ipcMaxRate / L.sndPeriod) s.mem
    { s with snd := snd, mem := mem }
  | .receive =>
    let (rcv, bits) := commData3Receive L.rcvRate s.rcv (s.clock / ipcMaxRate)
      (s.clock % ipcMaxRate / L.rcvPeriod) s.mem s.ipcErrBits
    { s with rcv := rcv, ipcErrBits := bits }

def runTo [Zero K] (gps : ℕ) (mem : IpcMem K) (evs : List (IpcEvent K)) : IpcState L :=
  evs.foldl L.step (L.start gps mem)

end IpcLink

end AdvLigoRts.Fe
