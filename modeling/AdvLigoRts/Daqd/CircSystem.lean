import AdvLigoRts.Daqd.Circ
import AdvLigoRts.Lib.FanOut

/-!
# `circ_buffer` as a system of one producer and many consumers

`CircSys` is the buffer together with what its users remember between calls: the producer
may stand between the two critical sections of a put, and a fast consumer remembers the last
number `get16th` gave it. The steps are the critical sections, so that everything consumers
do may come between a put's write and its publish. `get` and `get_nowait` only look.

The event of a step is what the fan-out queue of sixteenths sees of it: a published
sixteenth is a `put`, `get16th` is a `take`, and fast consumers `join` and `leave`.
-/

namespace AdvLigoRts.Daqd

open PvLib

/-- What a block holds for its readers. -/
structure Item where
  data : List UInt8
  bytes : ℤ
  prop : BlockProp
deriving DecidableEq, Repr

/-- All of a block's data, its length and its properties. -/
def Block.content (blk : Block) : Item := ⟨blk.data, blk.bytes, blk.prop⟩

open CircBuffer

/-- A call of one of the puts. `zeroBadData` is the setting `daqd.zero_bad_data`. -/
inductive PutCall
  | put (data : List UInt8) (prop : Option BlockProp)
  | putPscattered (pv : List (List UInt8)) (prop : Option BlockProp)
  | putNowait (data : List UInt8) (prop : Option BlockProp)
  | putNowaitScattered (data : List UInt8) (pv : List PutVec) (prop : Option BlockProp)
  | put16thDpscattered (zeroBadData : Bool) (pv : List PutDpvec) (prop : Option BlockProp)
  | put16thDpscatteredLost (pv : List PutDpvec) (prop : Option BlockProp)
deriving DecidableEq, Repr

namespace PutCall

/-- The first critical section of the call. -/
def write (b : CircBuffer) : PutCall → Option (Pending × CircBuffer)
  | put data prop => b.putWrite data prop
  | putPscattered pv prop => b.putPscatteredWrite pv prop
  | putNowait data prop => some (b.putNowaitWrite data prop)
  | putNowaitScattered data pv prop => some (b.putNowaitScatteredWrite data pv prop)
  | put16thDpscattered zeroBadData pv prop => b.put16thDpscatteredWrite zeroBadData pv prop
  | put16thDpscatteredLost pv prop => b.put16thDpscatteredLostWrite pv prop

/-- The number of bytes the call stores. -/
def dlen : PutCall → ℕ
  | put data _ => data.length
  | putPscattered pv _ => (pv.map List.length).sum
  | putNowait data _ => data.length
  | putNowaitScattered _ pv _ => (pv.map PutVec.vecLen).sum
  | put16thDpscattered _ pv _ => (pv.map PutDpvec.vecLen).sum
  | put16thDpscatteredLost pv _ => (pv.map PutDpvec.vecLen).sum

/-- The part of sixteenth `nbi16th` that a vector writes lies inside the block. -/
def VecInBlock (b : CircBuffer) (v : PutDpvec) : Prop :=
  v.destVecIdx + v.vecLen * b.nextBlockIn16th + v.vecLen ≤ b.blockSize

instance (b : CircBuffer) (v : PutDpvec) : Decidable (VecInBlock b v) :=
  inferInstanceAs (Decidable (_ ≤ _))

/-- A vector of `put16th_dpscattered` reads inside its source and writes inside the block,
its seventeen status words included. -/
def DpvecInBlock (b : CircBuffer) (v : PutDpvec) : Prop :=
  v.vecLen ≤ v.src.length ∧ VecInBlock b v ∧
    (v.destStatusIdx ≠ noStatus → v.destStatusIdx + 17 * 4 ≤ b.blockSize)

instance (b : CircBuffer) (v : PutDpvec) : Decidable (DpvecInBlock b v) :=
  inferInstanceAs (Decidable (_ ∧ _ ∧ _))

/-- The call reads inside its source and writes inside its own block. -/
def InBlock (b : CircBuffer) : PutCall → Prop
  | put data _ => data.length ≤ b.blockSize
  | putPscattered pv _ => (pv.map List.length).sum ≤ b.blockSize
  | putNowait data _ => data.length ≤ b.blockSize
  | putNowaitScattered data pv _ =>
    (∀ v ∈ pv, v.vecIdx + v.vecLen ≤ data.length) ∧ (pv.map PutVec.vecLen).sum ≤ b.blockSize
  | put16thDpscattered _ pv _ => ∀ v ∈ pv, DpvecInBlock b v
  | put16thDpscatteredLost pv _ => ∀ v ∈ pv, VecInBlock b v

instance (b : CircBuffer) : (c : PutCall) → Decidable (c.InBlock b)
  | put data _ => inferInstanceAs (Decidable (data.length ≤ b.blockSize))
  | putPscattered pv _ => inferInstanceAs (Decidable ((pv.map List.length).sum ≤ b.blockSize))
  | putNowait data _ => inferInstanceAs (Decidable (data.length ≤ b.blockSize))
  | putNowaitScattered data pv _ =>
    inferInstanceAs (Decidable ((∀ v ∈ pv, v.vecIdx + v.vecLen ≤ data.length) ∧
      (pv.map PutVec.vecLen).sum ≤ b.blockSize))
  | put16thDpscattered _ pv _ => inferInstanceAs (Decidable (∀ v ∈ pv, DpvecInBlock b v))
  | put16thDpscatteredLost pv _ => inferInstanceAs (Decidable (∀ v ∈ pv, VecInBlock b v))

def is16th : PutCall → Bool
  | put16thDpscattered .. => true
  | put16thDpscatteredLost .. => true
  | _ => false

end PutCall

/-- The buffer and what its users remember. -/
structure CircSys where
  buf : CircBuffer
  /-- The put between its two critical sections, if there is one. -/
  pending : Option Pending
  /-- The last number `get16th` returned since the consumer's last `unlock16th`. -/
  got16th : ℕ → Option ℕ

/-- A buffer nobody has used yet. -/
def CircSys.start (b : CircBuffer) : CircSys := ⟨b, none, fun _ => none⟩

/-- The steps of the producer and of the consumers. -/
inductive CircAction
  | write (call : PutCall)
  | publish
  | addConsumer (fast : Bool)
  | addTransientConsumer (gps delta : ℤ)
  | deleteConsumer (cnumber : ℕ)
  | get (cnum : ℕ)
  | getNowait (cnum : ℕ)
  | get16th (cnum : ℕ)
  | unlock (cnum : ℕ)
  | unlock16th (cnum : ℕ)
deriving DecidableEq, Repr

/-- Block number and sixteenth in a number returned by `get16th`, as
`net_writer_c::producer` takes it apart. -/
def split16th (nb : ℕ) : ℕ × ℕ := (nb >>> 4, nb &&& 0xf)

/-- The events of the fan-out queue of sixteenths. -/
abbrev CircEvent := FanOut.Event ℕ (ℕ × ℕ)

def publishEvent : Pending → CircEvent
  | .sixteenth nbi nbi16th => .put (nbi, nbi16th)
  | _ => .tau

namespace CircSys

/-- A step of the producer: start a put when the last one is done. -/
def write (s : CircSys) (call : PutCall) : Option (CircEvent × CircSys) :=
  if s.pending = none ∧ call.InBlock s.buf then
    match call.write s.buf with
    | none => none
    | some (p, b) => some (.tau, { s with buf := b, pending := some p })
  else none

/-- A step of the producer: finish the put. -/
def publish (s : CircSys) : Option (CircEvent × CircSys) :=
  match s.pending with
  | none => none
  | some p => some (publishEvent p, { s with buf := p.publish s.buf, pending := none })

def step (s : CircSys) : CircAction → Option (CircEvent × CircSys)
  | .write call => s.write call
  | .publish => s.publish
  | .addConsumer fast =>
    match s.buf.addConsumer fast with
    | none => none
    | some (r, b) =>
      -- a negative result is a refusal, and only fast consumers have a queue of sixteenths
      some (if fast = true ∧ 0 ≤ r then .join r.toNat else .tau, { s with buf := b })
  | .addTransientConsumer gps delta =>
    match s.buf.addTransientConsumer gps delta with
    | none => none
    | some r => some (.tau, { s with buf := r.buf })
  | .deleteConsumer i =>
    if s.buf.tcmask.get i then
      some (if s.buf.cmask16th.get i then .leave i else .tau,
        { s with buf := s.buf.deleteConsumer i, got16th := Function.update s.got16th i none })
    else none
  | .get i =>
    if s.buf.tcmask.get i ∧ (s.buf.get i).isSome then some (.tau, s) else none
  | .getNowait i =>
    if s.buf.tcmask.get i then some (.tau, s) else none
  | .get16th i =>
    if s.buf.tcmask.get i then
      match s.buf.get16th i with
      | none => none
      | some (nb, b) =>
        some (.take i (split16th nb),
          { s with buf := b, got16th := Function.update s.got16th i (some nb) })
    else none
  | .unlock i =>
    if s.buf.tcmask.get i then some (.tau, { s with buf := s.buf.unlock i }) else none
  | .unlock16th i =>
    if s.buf.tcmask.get i then
      some (.tau,
        { s with buf := s.buf.unlock16th i, got16th := Function.update s.got16th i none })
    else none

end CircSys

end AdvLigoRts.Daqd
