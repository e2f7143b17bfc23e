import AdvLigoRts.Lib.LowerBound
import AdvLigoRts.Lib.Machine
import AdvLigoRts.Daqd.FrameXmitTypes
import Mathlib.Data.UInt

/-!
# The broadcast transmitter

`diag::frameSend` of daqd/framesend.cc: `send` puts buffers into a queue, `xmitDaemon` broadcasts
them in packets and answers requests for retransmission. A step is a call of `send`, a section of
the daemon under `mux`, one `sendto` of `putPackets`, or one poll of the socket. `send` numbers
its buffer and sets the in-use variable before it takes the lock; the daemon looks at neither, so
that a call is one step.

A buffer's data stays as it is while the buffer is in use, so that it does not matter whether
`send` has made a copy; in-use variables are named by numbers.
-/

namespace AdvLigoRts.Daqd

open PvLib

/-- `frameSend::buffer`; `len` is the length of the data. -/
structure Buffer where
  seq : UInt32
  data : List UInt8
  used : Option ℕ
  timestamp : UInt32
  duration : UInt32
  sofar : ℤ := 0
deriving DecidableEq, Repr

def Buffer.len (b : Buffer) : ℤ := b.data.length

/-- The `len` bytes of the data from `off` on, as `memcpy` takes them. -/
def Buffer.copy (b : Buffer) (off len : ℤ) : List UInt8 := (b.data.drop off.toNat).take len.toNat

/-- `pktTotal` of a buffer, as both paths of the daemon compute it. -/
def Buffer.pktTotal (b : Buffer) : ℤ := (int32 (b.len + packetSize - 1)).tdiv packetSize

/-- Where `xmitDaemon` stands. -/
inductive DaemonPc
  /-- At the head of the main loop. -/
  | top
  /-- In `putPackets` with the packets of a burst that are left. -/
  | putBurst (pkts : List Packet)
  /-- About to look for a request. -/
  | poll
  /-- It has received `rpkt` and is about to look for the buffer. -/
  | request (rpkt : RetransmitPacket)
  /-- In `putPackets` with the packets of an answer that are left. -/
  | putRetransmit (pkts : List Packet)
  /-- It has left the main loop. -/
  | ended
deriving DecidableEq, Repr

/-- `frameSend` with the in-use variables and the daemon; `curbuf` is `none` for `-1`. -/
structure FrameSend where
  /-- Whether `sock >= 0`. -/
  sock : Bool
  seq : UInt32
  maxbuffers : ℕ
  buffers : List Buffer
  curbuf : Option ℕ
  inUse : ℕ → Bool
  daemon : DaemonPc
  /-- Whether the process has called `abort`. -/
  aborted : Bool

/-- `frameSend( maxBuffers )` after `open`. -/
def FrameSend.start (maxBuffers : ℕ) : FrameSend where
  sock := true
  seq := 0
  maxbuffers := maxBuffers
  buffers := []
  curbuf := none
  inUse := fun _ => false
  daemon := .top
  aborted := false

/-- What the sender and its daemon may do next. -/
inductive SendAction
  | send (data : List UInt8) (used : Option ℕ) (timestamp duration : UInt32)
  /-- The section of the daemon that assembles the packets of a burst. -/
  | assemble
  /-- The next turn of `putPackets`, and whether `sendto` sends all bytes. -/
  | put (ok : Bool)
  /-- `getRetransmitPacket`, with the number of bytes `recvfrom` has returned. -/
  | poll (rcvd : Option (ℤ × RetransmitPacket))
  /-- The section of the daemon that assembles the packets of an answer. -/
  | answer
deriving DecidableEq, Repr

/-- What a step shows. -/
inductive SendEvent
  | tau
  /-- `send` has returned `false`. -/
  | refused
  /-- The buffer has been queued and `pop_front` has taken the other one out of the queue. -/
  | queued (b : Buffer) (dropped : Option Buffer)
  /-- The overload branch. -/
  | abort
  /-- `sendto` has sent the packet. -/
  | wire (pkt : Packet)
  /-- `sendto` has failed. -/
  | closed
  /-- These packets are going to be sent for the request. -/
  | answered (rpkt : RetransmitPacket) (pkts : List Packet)
  /-- No packets are going to be sent for the request. -/
  | unanswered (rpkt : RetransmitPacket)
deriving DecidableEq, Repr

namespace FrameSend

/-- `*used = value`, if there is such a variable. -/
def setUsed (inUse : ℕ → Bool) (used : Option ℕ) (value : Bool) : ℕ → Bool :=
  match used with
  | none => inUse
  | some i => Function.update inUse i value

def sendBuffer (s : FrameSend) (b : Buffer) : SendEvent × FrameSend :=
  match s.curbuf with
  | none =>
    -- no buffer in list
    (.queued b none, { s with buffers := s.buffers ++ [b], curbuf := some 0 })
  | some curbuf =>
    if curbuf ≥ s.maxbuffers / 2 then
      -- too many old buffers; the destructor of the first one clears its in-use variable
      (.queued b s.buffers.head?,
        { s with
          buffers := s.buffers.tail ++ [b]
          curbuf := some (curbuf - 1)
          inUse := setUsed s.inUse (s.buffers.head?.bind Buffer.used) false })
    else if s.buffers.length < s.maxbuffers then
      -- enough free space
      (.queued b none, { s with buffers := s.buffers ++ [b] })
    else (.abort, { s with aborted := true })

/-- `send( data, len, used, copy, timestamp, duration )`. -/
def send (s : FrameSend) (data : List UInt8) (used : Option ℕ) (timestamp duration : UInt32) :
    SendEvent × FrameSend :=
  if s.sock then
    sendBuffer { s with inUse := setUsed s.inUse used true, seq := s.seq + 1 }
      { seq := s.seq, data, used, timestamp, duration }
  else (.refused, s)

/-- The loop that assembles the packets of a burst, for at most `n` more packets: the packets and
the buffer it leaves. -/
def burst (pktTotal : ℤ) : ℕ → ℤ → Buffer → List Packet × Buffer
  | 0, _, b => ([], b)
  | n + 1, pktNum, b =>
    if pktNum < pktTotal then
      let pktLen := if pktNum + 1 = pktTotal then b.len - b.sofar else packetSize
      let pkt : Packet :=
        { header :=
            { pktType := pktBroadcast
              pktLen
              seq := b.seq
              pktNum
              pktTotal
              timestamp := b.timestamp
              duration := b.duration }
          payload := b.copy b.sofar pktLen }
      let (pkts, b) := burst pktTotal n (pktNum + 1) { b with sofar := b.sofar + pktLen }
      (pkt :: pkts, b)
    else ([], b)

/-- The first section of the daemon under the lock. -/
def assemble (packetBurst : ℤ) (s : FrameSend) : FrameSend :=
  match s.curbuf with
  | none => { s with daemon := .poll }
  | some curbuf =>
    match s.buffers[curbuf]? with
    | none => { s with daemon := .poll }
    | some b =>
      let (pkts, b') := burst b.pktTotal packetBurst.toNat (b.sofar.tdiv packetSize) b
      { s with
        buffers := s.buffers.set curbuf b'
        -- check if buffer is done
        curbuf := some (if b'.sofar ≥ b'.len then curbuf + 1 else curbuf)
        daemon := .putBurst pkts }

/-- The check of `getRetransmitPacket`. -/
def validRequest (n : ℤ) (pkt : RetransmitPacket) : Bool :=
  !(n < sizeofPacketHeader || pkt.header.pktType != pktRequestRetransmit ||
    n != sizeofPacketHeader + pkt.header.pktLen)

/-- One packet of an answer, unless it is passed over. -/
def retransmitPacket (b : Buffer) (rpkt : RetransmitPacket) (pktNum : ℤ) : Option Packet :=
  if pktNum < 0 then none
  else
    let pktLen :=
      if int32 (pktNum + 1) ≥ b.pktTotal then int32 (b.len - int32 (pktNum * packetSize))
      else packetSize
    if pktLen ≤ 0 ∨ pktLen > packetSize then none
    else
      some
        { header :=
            { pktType := pktRebroadcast
              pktLen
              seq := rpkt.header.seq
              pktNum
              pktTotal := b.pktTotal
              timestamp := b.timestamp
              duration := b.duration }
          payload := b.copy (int32 (pktNum * packetSize)) pktLen }

/-- The number of packets that a request asks for: `pktLen / sizeof( int )`. -/
def requestCount (rpkt : RetransmitPacket) : ℤ := rpkt.header.pktLen.tdiv 4

/-- The packet numbers of a request, in the order in which the loop takes them. -/
def requestNums (rpkt : RetransmitPacket) : List ℤ :=
  (List.range (requestCount rpkt).toNat).reverse.map fun i => rpkt.pktResend.getD i 0

/-- The second section of the daemon under the lock: the packets for the request. -/
def answer (s : FrameSend) (rpkt : RetransmitPacket) : Option (List Packet) :=
  match s.curbuf with
  | none => none
  | some _ =>
    -- find buffer with same sequence
    match s.buffers[lowerBound (fun b => decide (b.seq < rpkt.header.seq)) s.buffers]? with
    | none => none
    | some b =>
      if b.seq ≠ rpkt.header.seq then none
      else if requestCount rpkt > maximumRetransmit then none
      else some ((requestNums rpkt).filterMap (retransmitPacket b rpkt))

/-- One turn of `putPackets`, which goes on to `next` with the packets that are left and ends at
`done`. -/
def put (s : FrameSend) (ok : Bool) (next : List Packet → DaemonPc) (done : DaemonPc) :
    List Packet → SendEvent × FrameSend
  | [] => (.tau, { s with daemon := done })
  | pkt :: pkts =>
    if ok then (.wire pkt, { s with daemon := next pkts })
    else (.closed, { s with sock := false, daemon := .ended })

/-- One step, if it is the turn of this action. -/
def step (packetBurst : ℤ) (s : FrameSend) (a : SendAction) : Option (SendEvent × FrameSend) :=
  if s.aborted then none
  else
    match a, s.daemon with
    | .send data used timestamp duration, _ => some (s.send data used timestamp duration)
    | .assemble, .top => some (.tau, s.assemble packetBurst)
    | .put ok, .putBurst pkts => some (s.put ok .putBurst .poll pkts)
    | .poll rcvd, .poll =>
      match rcvd with
      | none => some (.tau, { s with daemon := .top })
      | some (n, rpkt) =>
        if validRequest n rpkt then some (.tau, { s with daemon := .request rpkt })
        else some (.tau, { s with daemon := .top })
    | .answer, .request rpkt =>
      match s.answer rpkt with
      | none => some (.unanswered rpkt, { s with daemon := .top })
      | some pkts => some (.answered rpkt pkts, { s with daemon := .putRetransmit pkts })
    | .put ok, .putRetransmit pkts => some (s.put ok .putRetransmit .top pkts)
    | _, _ => none

end FrameSend

end AdvLigoRts.Daqd
