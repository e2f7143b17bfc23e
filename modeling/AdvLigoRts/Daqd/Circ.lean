import AdvLigoRts.Daqd.CMask

/-!
# `circ_buffer`: the model

The circular buffer of `src/daqd/circ.h`, `circ.hh` and `circ.cc`. A `CircBuffer` is the
`circ_buffer_t` record; `block n` holds the `circ_buffer_block_t` of block `n` together with
that block's own `blockSize` bytes of `data_space`.

A put runs in two critical sections, the first under the block's lock (wait for an empty
`busy`, copy the data and the properties), the second under the buffer's lock (publish).
Each has its own definition here: the `…Write` functions give `none` while the call waits on
`notfull`, and otherwise a `Pending` that `Pending.publish` completes. A `get` that still
waits on `notempty` is `none` as well.
-/

namespace AdvLigoRts.Daqd

/-! ## The data model -/

/-- `circ_buffer_block_prop_t::dcu_data`, what is broadcast for one DCU. -/
structure DcuData where
  crc : ℕ
  status : ℕ
  cycle : ℕ
deriving DecidableEq, Inhabited, Repr

/-- `circ_buffer_block_prop_t`. -/
structure BlockProp where
  run : ℕ := 0
  gps : ℤ := 0
  gpsN : ℤ := 0
  seqNum : ℕ := 0
  altzone : ℤ := 0
  gdsSignalRefresh : ℤ := 0
  cycle : ℕ := 0
  dcuData : List DcuData := []
deriving DecidableEq, Inhabited, Repr

/-- `circ_buffer_block_t`, with the block's part of `data_space`. -/
structure Block where
  prop16th : ℕ → BlockProp
  prop : BlockProp
  bytes : ℤ
  busy : CMask
  busy16th : ℕ → CMask
  data : List UInt8

def Block.clearConsumer (blk : Block) (cnumber : ℕ) : Block :=
  { blk with
    busy := blk.busy.clear cnumber
    busy16th := fun j => (blk.busy16th j).clear cnumber }

/-- `busy.set( cons_num )`. -/
def Block.markFor (blk : Block) (consNum : ℕ) : Block :=
  { blk with busy := blk.busy.set consNum }

def maxBlocks : ℕ := 2000

def maxProducers : ℤ := 2

/-- `circ_buffer_t`. -/
structure CircBuffer where
  puts : ℕ
  drops : ℕ
  blocks : ℕ
  blockSize : ℕ
  blockPeriod : ℤ
  nextBlockOut : ℕ → ℕ
  nextBlockOut16th : ℕ → ℕ
  nextBlockIn : ℕ
  nextBlockIn16th : ℕ
  producers : ℤ
  consumers : ℤ
  transientConsumers : ℤ
  fastConsumers : ℤ
  cmask : CMask
  cmask16th : CMask
  tcmask : CMask
  block : ℕ → Block

/-- Conversion to a 32 bit `int`. -/
def toInt (n : ℤ) : ℤ := Int.bmod n (2 ^ 32)

/-- `memcpy( dst + off, src, … )` inside one block. -/
def memcpy (dst : List UInt8) (off : ℕ) (src : List UInt8) : List UInt8 :=
  dst.take off ++ src ++ dst.drop (off + src.length)

namespace CircBuffer

/-- Change block `n`. -/
def modifyBlock (b : CircBuffer) (n : ℕ) (f : Block → Block) : CircBuffer :=
  { b with block := Function.update b.block n (f (b.block n)) }

def numPuts (b : CircBuffer) : ℤ := toInt b.puts

/-! ## Construction -/

/-- The adjustment of `block_size` to a multiple of 8. -/
def adjustBlockSize (blockSize : ℕ) : ℕ :=
  if blockSize % 8 ≠ 0 then blockSize + (8 - blockSize % 8) else blockSize

def bufferMalloc (consumers blocks blockSize : ℕ) (blockPeriod : ℤ) : CircBuffer :=
  let tcmask := (List.range consumers).foldl (fun m j => m.set j) CMask.clearAll
  { puts := 0
    drops := 0
    blocks := blocks
    blockSize := adjustBlockSize blockSize
    blockPeriod := blockPeriod
    nextBlockOut := fun _ => 0
    nextBlockOut16th := fun _ => 0
    nextBlockIn := 0
    nextBlockIn16th := 0
    producers := 1
    consumers := consumers
    transientConsumers := 0
    fastConsumers := 0
    cmask := tcmask
    cmask16th := CMask.clearAll
    tcmask := tcmask
    block := fun _ =>
      { prop16th := fun _ => {}
        prop := {}
        bytes := 0
        busy := CMask.clearAll
        busy16th := fun _ => CMask.clearAll
        data := List.replicate (adjustBlockSize blockSize) 0 } }

/-! ## Puts, first critical section -/

/-- What a put has still to do under the buffer's lock. -/
inductive Pending
  /-- A whole block was filled. -/
  | whole (nbi : ℕ)
  /-- Sixteenth `nbi16th` of block `nbi` was filled. -/
  | sixteenth (nbi nbi16th : ℕ)
  /-- `put_nowait` found the block busy. -/
  | dropped
deriving DecidableEq, Repr

/-- `if ( prop ) p = *prop; p.seq_num = puts;`. -/
def stamp (b : CircBuffer) (prop : Option BlockProp) (old : BlockProp) : BlockProp :=
  { prop.getD old with seqNum := b.puts }

/-- The copy loop of a put: the pieces one after the other, with the running `dlen`. -/
def copyPieces (dst : List UInt8) (pieces : List (List UInt8)) : List UInt8 × ℕ :=
  pieces.foldl (fun acc piece => (memcpy acc.1 acc.2 piece, acc.2 + piece.length)) (dst, 0)

/-- Copying a whole block, its length and its properties into `block[ next_block_in ]`. -/
def fill (b : CircBuffer) (pieces : List (List UInt8)) (prop : Option BlockProp) : CircBuffer :=
  b.modifyBlock b.nextBlockIn fun blk =>
    let (data, dlen) := copyPieces blk.data pieces
    { blk with data := data, bytes := toInt dlen, prop := b.stamp prop blk.prop }

/-- The waiting form of the first section: wait until `busy` is empty, then fill. -/
def waitAndFill (b : CircBuffer) (pieces : List (List UInt8)) (prop : Option BlockProp) :
    Option (Pending × CircBuffer) :=
  if (b.block b.nextBlockIn).busy.empty then
    some (.whole b.nextBlockIn, b.fill pieces prop)
  else none

/-- The dropping form of the first section: fill if `busy` is empty, else drop. -/
def fillOrDrop (b : CircBuffer) (pieces : List (List UInt8)) (prop : Option BlockProp) :
    Pending × CircBuffer :=
  if (b.block b.nextBlockIn).busy.empty then
    (.whole b.nextBlockIn, b.fill pieces prop)
  else (.dropped, b)

/-- A piece of the data of `put_nowait_scattered`. -/
structure PutVec where
  vecIdx : ℕ
  vecLen : ℕ
deriving DecidableEq, Repr

/-- The pieces `put_nowait_scattered` reads from `data`. -/
def gather (data : List UInt8) (pv : List PutVec) : List (List UInt8) :=
  pv.map fun v => (data.drop v.vecIdx).take v.vecLen

/-- `put`, up to the release of the block's lock. -/
def putWrite (b : CircBuffer) (data : List UInt8) (prop : Option BlockProp) :
    Option (Pending × CircBuffer) :=
  b.waitAndFill [data] prop

/-- `put_pscattered`, up to the release of the block's lock. -/
def putPscatteredWrite (b : CircBuffer) (pv : List (List UInt8)) (prop : Option BlockProp) :
    Option (Pending × CircBuffer) :=
  b.waitAndFill pv prop

/-- `put_nowait`, up to the release of the block's lock. -/
def putNowaitWrite (b : CircBuffer) (data : List UInt8) (prop : Option BlockProp) :
    Pending × CircBuffer :=
  b.fillOrDrop [data] prop

/-- `put_nowait_scattered`, up to the release of the block's lock. -/
def putNowaitScatteredWrite (b : CircBuffer) (data : List UInt8) (pv : List PutVec)
    (prop : Option BlockProp) : Pending × CircBuffer :=
  b.fillOrDrop (gather data pv) prop

/-- `put_dpvec`, with what its two pointers point at. -/
structure PutDpvec where
  src : List UInt8
  destVecIdx : ℕ
  vecLen : ℕ
  status : BitVec 32
  destStatusIdx : ℕ
  bsw : ℕ
deriving DecidableEq, Repr

/-- `0xffffffff` in `dest_status_idx`: the vector has no status area. -/
def noStatus : ℕ := 0xffffffff

/-- The four bytes of a status word in memory. -/
def statusBytes (status : BitVec 32) : List UInt8 :=
  (List.range 4).map fun j => UInt8.ofBitVec ((status >>> (8 * j)).setWidth 8)

/-- Byte swap `n` groups of `k` bytes (`ntohs`, `ntohl` over an array). -/
def swapGroups (k n : ℕ) (src : List UInt8) : List UInt8 :=
  (List.range n).flatMap fun j => ((src.drop (k * j)).take k).reverse

/-- The bytes stored for a vector: zeros for bad data, else the source, byte swapped in
groups of `bsw`. -/
def PutDpvec.payload (zeroBadData : Bool) (v : PutDpvec) : List UInt8 :=
  if v.status ≠ 0 ∧ zeroBadData = true then List.replicate v.vecLen 0
  else if v.bsw = 2 then swapGroups 2 (v.vecLen / 2) v.src
  else if v.bsw = 4 then swapGroups 4 (v.vecLen / 4) v.src
  else v.src.take v.vecLen

def memor4 (dst : List UInt8) (off : ℕ) (tgt : List UInt8) : List UInt8 :=
  memcpy dst off (List.zipWith (· ||| ·) ((dst.drop off).take 4) tgt)

/-- Recording a vector's status word: assigned in the first sixteenth, or-ed in later, and
always kept in the sixteenth's own word. -/
def PutDpvec.storeStatus (v : PutDpvec) (nbi16th : ℕ) (dst : List UInt8) : List UInt8 :=
  if v.destStatusIdx = noStatus then dst
  else
    let summary :=
      -- the summary word collects the status of all sixteen parts of the block
      if nbi16th = 0 then memcpy dst v.destStatusIdx (statusBytes v.status)
      else memor4 dst v.destStatusIdx (statusBytes v.status)
    memcpy summary (v.destStatusIdx + 4 * (1 + nbi16th)) (statusBytes v.status)

/-- The loop of `put16th_dpscattered` over its vectors. -/
def storeDpvecs (zeroBadData : Bool) (nbi16th : ℕ) (dst : List UInt8) (pv : List PutDpvec) :
    List UInt8 × ℕ :=
  pv.foldl (fun acc v =>
    (v.storeStatus nbi16th
      (memcpy acc.1 (v.destVecIdx + v.vecLen * nbi16th) (v.payload zeroBadData)),
      acc.2 + v.vecLen)) (dst, 0)

/-- The loop of `put16th_dpscattered_lost` over its vectors. -/
def zeroDpvecs (nbi16th : ℕ) (dst : List UInt8) (pv : List PutDpvec) : List UInt8 × ℕ :=
  pv.foldl (fun acc v =>
    (memcpy acc.1 (v.destVecIdx + v.vecLen * nbi16th) (List.replicate v.vecLen 0),
      acc.2 + v.vecLen)) (dst, 0)

/-- The rest of the first section of a put of one sixteenth, once its data is in place. -/
def fill16th (b : CircBuffer) (store : List UInt8 → List UInt8 × ℕ) (prop : Option BlockProp) :
    CircBuffer :=
  b.modifyBlock b.nextBlockIn fun blk =>
    let (data, dlen) := store blk.data
    let blk := { blk with
      data := data
      prop16th := Function.update blk.prop16th b.nextBlockIn16th
        (b.stamp prop (blk.prop16th b.nextBlockIn16th)) }
    -- the first sixteenth starts the block's length and properties, the others add to the length
    if b.nextBlockIn16th = 0 then
      { blk with bytes := toInt dlen, prop := b.stamp prop blk.prop }
    else { blk with bytes := toInt (blk.bytes + dlen) }

/-- The first section of the puts of one sixteenth. -/
def waitAndFill16th (b : CircBuffer) (store : List UInt8 → List UInt8 × ℕ)
    (prop : Option BlockProp) : Option (Pending × CircBuffer) :=
  if (b.block b.nextBlockIn).busy.empty then
    some (.sixteenth b.nextBlockIn b.nextBlockIn16th, b.fill16th store prop)
  else none

/-- `put16th_dpscattered`, up to the release of the block's lock. -/
def put16thDpscatteredWrite (b : CircBuffer) (zeroBadData : Bool) (pv : List PutDpvec)
    (prop : Option BlockProp) : Option (Pending × CircBuffer) :=
  b.waitAndFill16th (fun dst => storeDpvecs zeroBadData b.nextBlockIn16th dst pv) prop

/-- `put16th_dpscattered_lost`, up to the release of the block's lock. -/
def put16thDpscatteredLostWrite (b : CircBuffer) (pv : List PutDpvec)
    (prop : Option BlockProp) : Option (Pending × CircBuffer) :=
  b.waitAndFill16th (fun dst => zeroDpvecs b.nextBlockIn16th dst pv) prop

/-! ## Puts, second critical section -/

/-- Publish a whole block: mark it for every consumer and move on. -/
def publishWhole (b : CircBuffer) (nbi : ℕ) : CircBuffer :=
  { b.modifyBlock nbi fun blk => { blk with busy := b.cmask } with
    nextBlockIn := (b.nextBlockIn + 1) % b.blocks
    puts := b.puts + 1 }

/-- Publish one sixteenth; the last one publishes its block. -/
def publish16th (b : CircBuffer) (nbi nbi16th : ℕ) : CircBuffer :=
  -- `next_block_in` moves with the last sixteenth only
  let b' := if nbi16th = 15 then b.publishWhole nbi else b
  { b'.modifyBlock nbi fun blk =>
      { blk with busy16th := Function.update blk.busy16th nbi16th b.cmask16th } with
    nextBlockIn16th := (b.nextBlockIn16th + 1) % 16 }

/-- The second critical section of a put. -/
def Pending.publish (p : Pending) (b : CircBuffer) : CircBuffer :=
  match p with
  | .whole nbi => b.publishWhole nbi
  | .sixteenth nbi nbi16th => b.publish16th nbi nbi16th
  | .dropped => { b with drops := b.drops + 1, puts := b.puts + 1 }

/-- What the put returns: the block number, or -1 for a dropped block. -/
def Pending.ret : Pending → ℤ
  | .whole nbi => nbi
  | .sixteenth nbi _ => nbi
  | .dropped => -1

/-! ## Gets and unlocks -/

/-- `get16th`: the block and sixteenth as one number; `none` while it waits. -/
def get16th (b : CircBuffer) (cnum : ℕ) : Option (ℕ × CircBuffer) :=
  let nbo := b.nextBlockOut cnum
  let nbo16th := b.nextBlockOut16th cnum
  -- the sixteenth's number is not reduced modulo 16 here: `unlock16th` resets it
  if ((b.block nbo).busy16th nbo16th).get cnum then
    some (nbo <<< 4 ||| nbo16th,
      { b with nextBlockOut16th := Function.update b.nextBlockOut16th cnum (nbo16th + 1) })
  else none

/-- `get`; `none` while it waits. -/
def get (b : CircBuffer) (cnum : ℕ) : Option ℕ :=
  let nbo := b.nextBlockOut cnum
  if (b.block nbo).busy.get cnum then some nbo else none

def getNowait (b : CircBuffer) (cnum : ℕ) : ℤ :=
  let nbo := b.nextBlockOut cnum
  if (b.block nbo).busy.get cnum then nbo else -1

def unlock (b : CircBuffer) (cnum : ℕ) : CircBuffer :=
  let nbo := b.nextBlockOut cnum
  { b.modifyBlock nbo fun blk => { blk with busy := blk.busy.clear cnum } with
    nextBlockOut := Function.update b.nextBlockOut cnum ((nbo + 1) % b.blocks) }

def unlock16th (b : CircBuffer) (cnum : ℕ) : CircBuffer :=
  let nbo := b.nextBlockOut cnum
  { b.modifyBlock nbo fun blk =>
      { blk with
        busy := blk.busy.clear cnum
        busy16th := fun i => (blk.busy16th i).clear cnum } with
    nextBlockOut := Function.update b.nextBlockOut cnum ((nbo + 1) % b.blocks)
    nextBlockOut16th := Function.update b.nextBlockOut16th cnum 0 }

/-- `noop`; `none` while it waits. -/
def noop (b : CircBuffer) (cnum : ℕ) : Option (ℕ × CircBuffer) :=
  let nbo := b.nextBlockOut cnum
  if (b.block nbo).busy.get cnum then some (nbo, b.unlock cnum) else none

/-! ## Consumers -/

/-- `add_consumer`; `none` if the search for a free bit leaves the mask. -/
def addConsumer (b : CircBuffer) (fast : Bool) : Option (ℤ × CircBuffer) :=
  if b.consumers ≥ maxConsumers then some (-1, b)
  else
    match b.tcmask.firstFree with
    | none => none
    | some i =>
      -- a new consumer starts at the block the producer fills next
      let b' := { b with
        cmask := b.cmask.set i
        tcmask := b.tcmask.set i
        consumers := b.consumers + 1
        nextBlockOut := Function.update b.nextBlockOut i b.nextBlockIn }
      if fast then
        some (i, { b' with
          cmask16th := b.cmask16th.set i
          nextBlockOut16th := Function.update b.nextBlockOut16th i b.nextBlockIn16th
          fastConsumers := b.fastConsumers + 1 })
      else some (i, b')

def circBufferTransientThresh : ℕ := 1

/-- The blocks and the local variables of the marking loop. -/
structure Marking where
  block : ℕ → Block
  firstBlock : Option ℕ
  bstart : Option ℤ
  blast : Option ℤ

/-- The body of the marking loop of `add_transient_consumer`. -/
def Marking.mark (consNum : ℕ) (gps delta : ℤ) (i : ℕ) (m : Marking) : Marking :=
  let blk := m.block i
  if gps ≤ blk.prop.gps ∧ blk.prop.gps < gps + delta then
    { block := Function.update m.block i (blk.markFor consNum)
      firstBlock := m.firstBlock <|> some i
      bstart := if m.firstBlock.isNone then some blk.prop.gps else m.bstart
      blast := some blk.prop.gps }
  else m

/-- The marking loop from `i` round to `stop`; the fuel is the number of blocks. -/
def Marking.loop (consNum : ℕ) (gps delta : ℤ) (blocks stop : ℕ) : ℕ → ℕ → Marking → Marking
  | 0, _, m => m
  | fuel + 1, i, m =>
    if i = stop then m
    else Marking.loop consNum gps delta blocks stop fuel ((i + 1) % blocks)
      (m.mark consNum gps delta i)

/-- The time window asked for: with `delta = 0`, `gps` is a playback offset. -/
def playbackWindow (b : CircBuffer) (gps delta : ℤ) : ℤ × ℤ :=
  if delta = 0 then
    -- `block_period( )` is an `int`, and so are its products
    let period := toInt b.blockPeriod
    let last := toInt (toInt (b.blocks * period) - 1)
    let delta := if gps > last then last else gps
    -- `%` and `/` of the source round towards zero
    let idx := (b.nextBlockIn + b.blocks - delta.tdiv period).tmod b.blocks
    -- not yet that many blocks in the buffer: play back all there are
    if idx > b.numPuts then ((b.block 0).prop.gps, toInt (b.numPuts * period))
    else ((b.block idx.toNat).prop.gps, delta)
  else (gps, delta)

/-- What `add_transient_consumer` returns and stores through its pointers. -/
structure TransientResult where
  ret : ℤ
  bstart : Option ℤ
  blast : Option ℤ
  buf : CircBuffer

/-- `add_transient_consumer`; `none` if the search for a free bit leaves the mask. -/
def addTransientConsumer (b : CircBuffer) (gps delta : ℤ) : Option TransientResult :=
  if b.consumers ≥ maxConsumers then some ⟨-1, none, none, b⟩
  else if b.numPuts = 0 then some ⟨-2, none, none, b⟩
  else
    match b.tcmask.firstFree with
    | none => none
    | some consNum =>
      let (gps, delta) := b.playbackWindow gps delta
      let m := Marking.loop consNum gps delta b.blocks b.nextBlockIn b.blocks
        ((b.nextBlockIn + circBufferTransientThresh) % b.blocks) ⟨b.block, none, none, none⟩
      match m.firstBlock with
      -- no block in the window: the slot is not taken, and no block was marked
      | none => some ⟨-2, m.bstart, m.blast, { b with block := m.block }⟩
      | some firstBlock =>
        some ⟨consNum, m.bstart, m.blast,
          { b with
            block := m.block
            tcmask := b.tcmask.set consNum
            consumers := b.consumers + 1
            transientConsumers := b.transientConsumers + 1
            nextBlockOut := Function.update b.nextBlockOut consNum firstBlock }⟩

def deleteConsumer (b : CircBuffer) (cnumber : ℕ) : CircBuffer :=
  { b with
    fastConsumers := if b.cmask16th.get cnumber then b.fastConsumers - 1 else b.fastConsumers
    cmask16th := if b.cmask16th.get cnumber then b.cmask16th.clear cnumber else b.cmask16th
    transientConsumers :=
      if b.cmask.get cnumber then b.transientConsumers else b.transientConsumers - 1
    cmask := if b.cmask.get cnumber then b.cmask.clear cnumber else b.cmask
    tcmask := b.tcmask.clear cnumber
    consumers := b.consumers - 1
    block := fun i => if i < b.blocks then (b.block i).clearConsumer cnumber else b.block i }

/-! ## The run-time check -/

/-- The consumer loop of `invariant( 1 )`: count the bits of `cmask` down from `consumers`;
`none` when a current consumer's `next_block_out` is out of range. -/
def countConsumers (b : CircBuffer) : Option ℤ :=
  (List.range maxConsumers).foldl (fun acc i => acc.bind fun consumers =>
    if b.cmask.get i then
      if b.nextBlockOut i > b.blocks then none else some (consumers - 1)
    else some consumers) (some b.consumers)

/-- `invariant( level )` of a buffer made by `buffer_malloc`. -/
def invariant (b : CircBuffer) (level : Bool) : Bool :=
  decide (0 < (b.blocks ||| b.blockSize)) &&
  decide (0 ≤ b.producers ∧ b.producers ≤ maxProducers) &&
  decide (0 ≤ b.consumers ∧ b.consumers ≤ maxConsumers) &&
  (!level || (b.countConsumers == some b.transientConsumers &&
    decide (b.nextBlockIn ≤ b.blocks))) &&
  decide (b.blocks ≤ maxBlocks) &&
  (!level || (List.range b.blocks).all fun i =>
    decide (0 ≤ (b.block i).bytes ∧ (b.block i).bytes ≤ b.blockSize) &&
      ((b.block i).busy.differenceWith b.tcmask).empty)

end CircBuffer

end AdvLigoRts.Daqd
