import AdvLigoRts.Lib.ByteMem
import AdvLigoRts.Lib.LowerBound
import AdvLigoRts.Daqd.FrameXmitTypes
import Mathlib.Data.UInt

/-!
# The broadcast receiver

`diag::frameRecv` of daqd/framerecv.cc: `receive` collects the packets of the next buffer from a
list that `getPacket` keeps sorted, and asks for those that are missing. A step is the beginning
of a call, one look at the socket, or the rest of a turn of the main loop. What a step takes from
outside is part of the action: the datagram, whether the retry timer has expired, the memory that
is allocated, whether `sendto` sends all bytes.

The rates of retransmission, which no decision depends on, and the log are left out.
-/

namespace AdvLigoRts.Daqd

open PvLib

/-- The local variables of `receive` and what it writes through its arguments. -/
structure RecvCall where
  data : ℕ → UInt8
  maxlen : ℤ
  newseq : UInt32
  firstPacket : Bool := true
  seqDone : Bool := false
  len : ℤ := 0
  retry : ℕ := 0
  retryExpired : Bool := true
  /-- `received` of each `packetControl`. -/
  pktCntrl : List Bool := []
  sequence : UInt32 := 0
  recvtime : UInt32 := 0
  duration : UInt32 := 0

/-- Where the thread that calls `receive` stands. -/
inductive FrameRecvPc
  | idle
  /-- In the blocking `getPacket` of a call. -/
  | first (data : ℕ → UInt8) (maxlen : ℤ)
  /-- In `getPacket( false )` at the head of the main loop. -/
  | poll (c : RecvCall)
  /-- Behind it. -/
  | turn (c : RecvCall)
  /-- The process has called `abort` or `exit`, or an exception that nobody catches has ended it. -/
  | exited

/-- The receiver, between two of its steps. -/
structure FrameRecv where
  /-- Whether `sock >= 0`. -/
  sock : Bool
  first : Bool
  oldseq : UInt32
  pkts : List Packet
  pc : FrameRecvPc

/-- After `open`. -/
def FrameRecv.start : FrameRecv where
  sock := true
  first := true
  oldseq := 0
  pkts := []
  pc := .idle

/-- The bytes that a `memcpy` writes, counted from the beginning of the data array. -/
structure Copy where
  start : ℤ
  size : ℕ
deriving DecidableEq, Repr

/-- The data array after the copy. -/
def Copy.write (x : Copy) (data : ℕ → UInt8) (payload : List UInt8) : ℕ → UInt8 := fun j =>
  if x.start ≤ j ∧ j < x.start + x.size then payload.getD (j - x.start).toNat 0 else data j

/-- What the receiver does next, and what it meets. -/
inductive RecvAction
  /-- A call with a data array, or with the null pointer. -/
  | receive (data : Option (ℕ → UInt8)) (maxlen : ℤ)
  /-- What `getPacket` finds at the socket, with the number of bytes `recvfrom` has returned. -/
  | getPacket (rcvd : Option (ℤ × Packet))
  /-- A turn of the main loop: whether the timer has expired, what `new` returns and whether
  `sendto` sends all bytes. -/
  | turn (expired : Bool) (alloc : Option (ℕ → UInt8)) (sent : Bool)

/-- What a step shows. -/
inductive FrameRecvEvent
  | tau
  /-- `receive` has returned the value, with these contents of the data array and of its other
  arguments. -/
  | returned (value : ℤ) (data : ℕ → UInt8) (sequence recvtime duration : UInt32)
  /-- The request has been sent. -/
  | request (rpkt : RetransmitPacket)
  | exited

namespace FrameRecv

/-- `auto_pkt_ptr::operator<`. -/
def pktLt (a b : Packet) : Bool :=
  decide (a.header.seq < b.header.seq) ||
    (a.header.seq == b.header.seq && decide (a.header.pktNum < b.header.pktNum))

/-- `auto_pkt_ptr::operator==`. -/
def pktEq (a b : Packet) : Bool :=
  a.header.seq == b.header.seq && a.header.pktNum == b.header.pktNum

/-- The end of `getPacket`: the packet is added to the packet buffer. -/
def insertPkt (pkts : List Packet) (pkt : Packet) : List Packet :=
  let pos := lowerBound (fun q => pktLt q pkt) pkts
  match pkts[pos]? with
  | none => pkts ++ [pkt]
  | some q => if pktEq q pkt then pkts else pkts.take pos ++ pkt :: pkts.drop pos

/-- The check of `getPacket`. -/
def validPacket (n : ℤ) (pkt : Packet) : Bool :=
  !(n < sizeofPacketHeader ||
    (pkt.header.pktType != pktBroadcast && pkt.header.pktType != pktRebroadcast) ||
    n != sizeofPacketHeader + pkt.header.pktLen)

def calcDiff (pkts : List Packet) (newseq : UInt32) : ℤ :=
  match pkts with
  | [] => 0
  | pkt :: _ =>
    let diff : ℤ := (pkt.header.seq.toNat : ℤ) - newseq.toNat
    let diff := if diff > 2 ^ 31 then diff - 2 ^ 32 else diff
    if diff < -2 ^ 31 then diff + 2 ^ 32 else diff

/-- What is done for the first packet of a sequence; the error is the value returned, or `none`
where the constructor of the vector throws. -/
def firstPacket (c : RecvCall) (alloc : Option (ℕ → UInt8)) (pkt : Packet) :
    Except (Option ℤ) RecvCall :=
  if c.firstPacket then
    let needed := int32 (pkt.header.pktTotal * packetSize)
    if c.maxlen > 0 ∧ c.maxlen < needed then .error (some (-needed))
    else
      match if c.maxlen = -1 then alloc else some c.data with
      | none => .error (some (-5))
      | some data =>
        if pkt.header.pktTotal < 0 then .error none
        else
          .ok { c with
            data
            sequence := c.newseq
            recvtime := pkt.header.timestamp
            duration := pkt.header.duration
            pktCntrl := List.replicate pkt.header.pktTotal.toNat false
            firstPacket := false }
  else .ok c

/-- The `memcpy` of a payload to its place in the receiver buffer, where the product is of type
`int`. -/
def payloadCopy (pkt : Packet) : Copy :=
  ⟨int32 (pkt.header.pktNum * packetSize), pkt.header.pktLen.toNat⟩

def copyPayload (c : RecvCall) (pkt : Packet) : RecvCall :=
  let pktNum := pkt.header.pktNum
  if 0 ≤ pktNum ∧ c.pktCntrl[pktNum.toNat]? = some false then
    { c with
      data := (payloadCopy pkt).write c.data pkt.payload
      len := c.len + pkt.header.pktLen
      pktCntrl := c.pktCntrl.set pktNum.toNat true }
  else c

/-- The processing of a packet of this sequence. -/
def copyPacket (c : RecvCall) (pkt : Packet) : RecvCall :=
  let c := copyPayload c pkt
  -- check if last packet
  if pkt.header.pktTotal = pkt.header.pktNum + 1 then { c with seqDone := true } else c

/-- The loop over the valid packets at the front of the packet buffer. -/
def takePackets (alloc : Option (ℕ → UInt8)) (c : RecvCall) :
    List Packet → Except (Option ℤ) RecvCall × List Packet
  | [] => (.ok c, [])
  | pkt :: pkts =>
    if calcDiff (pkt :: pkts) c.newseq = 0 then
      match firstPacket c alloc pkt with
      | .error value => (.error value, pkt :: pkts)
      | .ok c => takePackets alloc (copyPacket c pkt) pkts
    else (.ok c, pkt :: pkts)

def skipOld (newseq : UInt32) : List Packet → List Packet
  | [] => []
  | pkt :: pkts => if calcDiff (pkt :: pkts) newseq < 0 then skipOld newseq pkts else pkt :: pkts

/-- `receive` returns an error. -/
def fail (s : FrameRecv) (c : RecvCall) (value : ℤ) : FrameRecvEvent × FrameRecv :=
  (.returned value c.data c.sequence c.recvtime c.duration, { s with pc := .idle })

/-- A request for the packets with these numbers, after which the retry timer is started. -/
def ask (s : FrameRecv) (c : RecvCall) (nums : List ℤ) (sent : Bool) : FrameRecvEvent × FrameRecv :=
  if sent then
    (.request
      { header :=
          { pktType := pktRequestRetransmit
            pktLen := nums.length * 4
            seq := c.newseq
            pktNum := 0
            pktTotal := 1
            timestamp := 0
            duration := 0 }
        pktResend := nums },
      { s with pc := .poll { c with retryExpired := false, retry := c.retry + 1 } })
  else fail { s with sock := false } c (-6)

/-- The numbers of the packets that have not been received, as many as a request can hold. -/
def missingNums (c : RecvCall) : List ℤ :=
  (((List.range c.pktCntrl.length).filter fun i => c.pktCntrl[i]? = some false).map
    Int.ofNat).take (packetSize / 4)

/-- The second half of a turn, after the packets have been processed. -/
def finish (s : FrameRecv) (c : RecvCall) (expired sent : Bool) : FrameRecvEvent × FrameRecv :=
  if !c.seqDone then (.tau, { s with pc := .poll c })
  else
    let missingPackets : ℕ := c.pktCntrl.countP fun received => !received
    if missingPackets = 0 then
      (.returned c.len c.data c.sequence c.recvtime c.duration,
        { s with oldseq := c.newseq, pc := .idle })
    else
      let retryExpired := if c.retry > 0 ∧ !c.retryExpired then expired else c.retryExpired
      if missingPackets > maximumRetransmit ∨ (c.retry ≥ maxRetry ∧ retryExpired) ∨
          s.pkts.length ≥ rcvpacketbuffersize then
        (.exited, { s with pc := .exited })
      else if c.retry = 0 ∨ retryExpired then ask s c (missingNums c) sent
      else (.tau, { s with pc := .poll { c with retryExpired } })

/-- A turn of the main loop after `getPacket( false )`. -/
def turn (s : FrameRecv) (c : RecvCall) (expired : Bool) (alloc : Option (ℕ → UInt8))
    (sent : Bool) : FrameRecvEvent × FrameRecv :=
  let diff := calcDiff s.pkts c.newseq
  if s.pkts = [] then finish s c expired sent
  else if diff ≥ 1 ∧ c.len = 0 then
    -- check if sequence out of sync
    if c.retry > 0 ∧ !expired then (.tau, { s with pc := .poll { c with retryExpired := false } })
    else if c.retry > 0 ∧ c.retry ≥ maxRetry then (.exited, { s with pc := .exited })
    else ask s c [0] sent
  else if |diff| > maxSequenceOutOfSync then (.exited, { s with pc := .exited })
  else
    match skipOld c.newseq s.pkts with
    | [] => (.tau, { s with pkts := [], pc := .poll c })
    | pkt :: pkts =>
      match takePackets alloc c (pkt :: pkts) with
      | (.error (some value), pkts) => fail { s with pkts } c value
      | (.error none, pkts) => (.exited, { s with pkts, pc := .exited })
      | (.ok c, pkts) =>
        -- sequence done if next sequence is already in buffer
        let c := if calcDiff pkts c.newseq > 0 ∧ c.len ≠ 0 then { c with seqDone := true } else c
        finish { s with pkts } c expired sent

/-- The beginning of a call behind the first `getPacket`. -/
def beginCall (s : FrameRecv) (data : ℕ → UInt8) (maxlen : ℤ) : FrameRecv :=
  -- if first, set the old sequence number to one of the first packet
  let oldseq :=
    if s.first then
      match s.pkts.head? with
      | some pkt => pkt.header.seq
      | none => s.oldseq
    else s.oldseq
  { s with first := false, oldseq, pc := .poll { data, maxlen, newseq := oldseq + 1 } }

/-- The beginning of a call; the contents of a data array that is not there are `0`. -/
def receive (s : FrameRecv) (data : Option (ℕ → UInt8)) (maxlen : ℤ) :
    FrameRecvEvent × FrameRecv :=
  let mem := data.getD fun _ => 0
  let maxlen := if data.isNone then -1 else maxlen
  let refuse (value : ℤ) := (FrameRecvEvent.returned value mem 0 0 0, s)
  if !s.sock then refuse (-1)
  else if data.isSome ∧ maxlen ≤ 0 then refuse (-2)
  else if s.pkts = [] then (.tau, { s with pc := .first mem maxlen })
  else (.tau, s.beginCall mem maxlen)

/-- One step, if it is the turn of this action. -/
def step (s : FrameRecv) (a : RecvAction) : Option (FrameRecvEvent × FrameRecv) :=
  match a, s.pc with
  | .receive data maxlen, .idle => some (s.receive data maxlen)
  | .getPacket rcvd, .first data maxlen =>
    match rcvd with
    | none => some (.returned (-3) data 0 0 0, { s with pc := .idle })
    | some (n, pkt) =>
      if validPacket n pkt then
        some (.tau, { s with pkts := insertPkt s.pkts pkt }.beginCall data maxlen)
      else some (.tau, s)
  | .getPacket rcvd, .poll c =>
    -- check if enough space for a new packet
    if s.pkts.length ≥ rcvpacketbuffersize then some (.exited, { s with pc := .exited })
    else
      match rcvd with
      | none => some (.tau, { s with pc := .turn c })
      | some (n, pkt) =>
        if validPacket n pkt then
          some (.tau, { s with pkts := insertPkt s.pkts pkt, pc := .turn c })
        else some (.tau, s)
  | .turn expired alloc sent, .turn c => some (s.turn c expired alloc sent)
  | _, _ => none

end FrameRecv

end AdvLigoRts.Daqd
