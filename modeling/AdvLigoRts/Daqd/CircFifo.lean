import AdvLigoRts.Daqd.CircBookkeeping
import AdvLigoRts.Lib.Ring

/-!
# `circ_buffer` is one FIFO queue per consumer

Whole-block puts, gets and unlocks as atomic steps of one producer and any number of consumers.
-/

namespace AdvLigoRts.Daqd

open PvLib CircBuffer

/-- What a consumer reads from a block: the first `bytes` bytes of data, their number, and
the properties. -/
def Block.view (blk : Block) : Item := ⟨blk.data.take blk.bytes.toNat, blk.bytes, blk.prop⟩

theorem Block.view_eq_of_content {blk blk' : Block} (h : blk'.content = blk.content) :
    blk'.view = blk.view := by
  simp only [Block.content, Item.mk.injEq] at h
  obtain ⟨hdata, hbytes, hprop⟩ := h
  simp [Block.view, hdata, hbytes, hprop]

/-! ## The item of a put -/

/-- The pieces laid end to end, their length, and the stamped properties. -/
def CircBuffer.wholeItem (b : CircBuffer) (pieces : List (List UInt8))
    (prop : Option BlockProp) : Item :=
  let bytes := toInt pieces.flatten.length
  ⟨pieces.flatten.take bytes.toNat, bytes, b.stamp prop (b.block b.nextBlockIn).prop⟩

/-- What a put of a whole block hands to the consumers. -/
def PutCall.item (b : CircBuffer) : PutCall → Option Item
  | put data prop => some (b.wholeItem [data] prop)
  | putPscattered pv prop => some (b.wholeItem pv prop)
  | putNowait data prop => some (b.wholeItem [data] prop)
  | putNowaitScattered data pv prop => some (b.wholeItem (gather data pv) prop)
  | put16thDpscattered .. => none
  | put16thDpscatteredLost .. => none

/-- Both critical sections of a put, one right after the other. -/
def PutCall.exec (b : CircBuffer) (call : PutCall) : Option (Pending × CircBuffer) :=
  (call.write b).map fun (p, b') => (p, p.publish b')

/-- The copy loop leaves the pieces, end to end, in front of everything else. -/
theorem take_copyPieces (dst : List UInt8) (pieces : List (List UInt8)) :
    (copyPieces dst pieces).1.take (copyPieces dst pieces).2 = pieces.flatten := by
  -- in general: what was there in front stays, the pieces follow it
  suffices h : ∀ (pieces : List (List UInt8)) (acc : List UInt8 × ℕ), acc.2 ≤ acc.1.length →
      let r := pieces.foldl
        (fun acc piece => (memcpy acc.1 acc.2 piece, acc.2 + piece.length)) acc
      r.1.take r.2 = acc.1.take acc.2 ++ pieces.flatten by
    simpa [copyPieces] using h pieces (dst, 0)
  intro pieces
  induction pieces with
  | nil => simp
  | cons piece pieces ih =>
    intro acc hacc
    have hlen : (acc.1.take acc.2).length = acc.2 := by simp [hacc]
    have hstep := ih (memcpy acc.1 acc.2 piece, acc.2 + piece.length) (by
      simp only [memcpy, List.length_append, hlen]
      omega)
    have htake : (memcpy acc.1 acc.2 piece).take (acc.2 + piece.length)
        = acc.1.take acc.2 ++ piece := by
      unfold memcpy
      rw [List.take_append_of_le_length (by simp [hacc]), List.take_of_length_le (by simp)]
    simp only [htake] at hstep
    simpa using hstep

theorem toNat_toInt_le (n : ℕ) : (toInt n).toNat ≤ n := by
  have h : (n : ℤ) % 2 ^ 32 ≤ n := by omega
  unfold toInt
  rw [Int.bmod_def]
  split <;> push_cast at * <;> omega

theorem view_fill (b : CircBuffer) (pieces : List (List UInt8)) (prop : Option BlockProp) :
    ((b.fill pieces prop).block b.nextBlockIn).view = b.wholeItem pieces prop := by
  have hlen : (copyPieces (b.block b.nextBlockIn).data pieces).2 = pieces.flatten.length := by
    rw [copyPieces_snd, List.length_flatten]
  have htake := take_copyPieces (b.block b.nextBlockIn).data pieces
  have hle := toNat_toInt_le pieces.flatten.length
  rw [hlen] at htake
  simp only [fill, modifyBlock, Block.view, wholeItem, Function.update_self, hlen, Item.mk.injEq,
    and_self, and_true]
  -- a length that wraps past 2^31 shows fewer bytes, never others
  rw [← congrArg (List.take _) htake, List.take_take, Nat.min_eq_left hle]

/-- All that an atomic put of a whole block can do: drop the data, or find `busy` empty,
place its item in the block and publish it. -/
theorem PutCall.exec_cases {b b' : CircBuffer} {call : PutCall} {x : Item} {p : Pending}
    (hx : call.item b = some x) (h : call.exec b = some (p, b')) :
    (p = .dropped ∧ b' = { b with drops := b.drops + 1, puts := b.puts + 1 }) ∨
      ((b.block b.nextBlockIn).busy.empty = true ∧ p = .whole b.nextBlockIn ∧
        ∃ b₁, b.Filled b₁ ∧ (b₁.block b.nextBlockIn).view = x ∧
          b' = b₁.publishWhole b.nextBlockIn) := by
  obtain ⟨⟨p', b₁⟩, hw, heq⟩ := Option.map_eq_some_iff.mp h
  simp only [Prod.mk.injEq] at heq
  obtain ⟨rfl, rfl⟩ := heq
  rcases write_cases hw with ⟨rfl, rfl, -⟩ | ⟨he, rfl, hf⟩
  · exact .inl ⟨rfl, rfl⟩
  · -- a call with an item is none of the puts of one sixteenth
    have hwhole : call.pendingOf b = .whole b.nextBlockIn := by
      cases call <;> first | rfl | cases hx
    rw [hwhole]
    refine .inr ⟨he, rfl, b₁, hf, ?_, rfl⟩
    rw [write_eq hw]
    unfold filled
    cases call with
    | put data prop | putPscattered pv prop | putNowait data prop
    | putNowaitScattered data pv prop =>
      rw [view_fill]; exact Option.some.inj hx
    | put16thDpscattered zeroBadData pv prop => cases hx
    | put16thDpscatteredLost pv prop => cases hx

/-! ## The blocks a consumer owns -/

namespace CircBuffer

/-- The number of blocks from `next_block_out` of consumer `i` up to `next_block_in`: all of
them when the two coincide and the block there carries the consumer's mark. -/
def pendingCount (b : CircBuffer) (i : ℕ) : ℕ :=
  ringLen b.blocks (b.nextBlockOut i) b.nextBlockIn ((b.block (b.nextBlockOut i)).busy.get i)

/-- What those blocks hold, in the order they will be read. -/
def pendingItems (b : CircBuffer) (i : ℕ) : List Item :=
  ringItems b.blocks (b.nextBlockOut i) (b.pendingCount i) fun n => (b.block n).view

/-- The blocks marked for consumer `i` are the `k` blocks from its `next_block_out` on. -/
def Owns (b : CircBuffer) (i k : ℕ) : Prop :=
  Marked b.blocks (b.nextBlockOut i) b.nextBlockIn (fun n => (b.block n).busy.get i) k

variable {b b' : CircBuffer} {i j k : ℕ}

theorem Owns.pendingCount_eq (h : b.Owns i k) : b.pendingCount i = k := h.ringLen_eq

/-- Nothing that consumer `i` can see differs between the two buffers. -/
structure SeenAlike (i : ℕ) (b b' : CircBuffer) : Prop where
  blocks_eq : b'.blocks = b.blocks
  nextBlockIn_eq : b'.nextBlockIn = b.nextBlockIn
  nextBlockOut_eq : b'.nextBlockOut i = b.nextBlockOut i
  busy_eq : ∀ n < b.blocks, (b'.block n).busy.get i = (b.block n).busy.get i
  content_eq : ∀ n, (b'.block n).content = (b.block n).content

theorem SeenAlike.owns (hs : SeenAlike i b b') (h : b.Owns i k) : b'.Owns i k := by
  unfold Owns
  rw [hs.blocks_eq, hs.nextBlockIn_eq, hs.nextBlockOut_eq]
  exact Marked.congr h hs.busy_eq

theorem SeenAlike.pendingItems_eq (hs : SeenAlike i b b') (h : b.Owns i k) :
    b'.pendingItems i = b.pendingItems i := by
  unfold pendingItems
  rw [(hs.owns h).pendingCount_eq, h.pendingCount_eq, hs.blocks_eq, hs.nextBlockOut_eq]
  exact ringItems_congr fun d _ => Block.view_eq_of_content (hs.content_eq _)

theorem view_publishWhole (b : CircBuffer) (nbi n : ℕ) :
    ((b.publishWhole nbi).block n).view = (b.block n).view :=
  Block.view_eq_of_content (content_publish b (.whole nbi) n)

theorem Owns.publishWhole {b₁ : CircBuffer} (h : b.Owns i k) (hi : b.cmask.get i = true)
    (he : (b.block b.nextBlockIn).busy.empty = true) (hf : b.Filled b₁) :
    (b₁.publishWhole b.nextBlockIn).Owns i (k + 1) ∧
    (b₁.publishWhole b.nextBlockIn).pendingItems i
      = b.pendingItems i ++ [(b₁.block b.nextBlockIn).view] := by
  have hfree := CMask.get_of_empty _ he i
  obtain ⟨hblocks, _, hin, _, hout, _, hcmask, _⟩ := hf.frame
  have hout' : (b₁.publishWhole b.nextBlockIn).nextBlockOut = b.nextBlockOut := hout
  have hblocks' : (b₁.publishWhole b.nextBlockIn).blocks = b.blocks := hblocks
  have hin' : (b₁.publishWhole b.nextBlockIn).nextBlockIn = (b.nextBlockIn + 1) % b.blocks := by
    simp [CircBuffer.publishWhole, modifyBlock, hin, hblocks]
  have howns : (b₁.publishWhole b.nextBlockIn).Owns i (k + 1) := by
    unfold Owns
    rw [hout', hblocks', hin']
    -- `busy` becomes `cmask` there, and the consumer's bit is up in it
    refine Marked.push h hfree fun n _ => ?_
    rw [busy_publishWhole]
    split
    · rw [hcmask, hi]
    · rw [hf.busy]
  refine ⟨howns, ?_⟩
  unfold pendingItems
  rw [howns.pendingCount_eq, h.pendingCount_eq, hout', hblocks']
  simp only [view_publishWhole]
  exact ringItems_push h hfree fun n hn => by rw [hf.block_of_ne hn]

theorem Owns.unlock_self (h : b.Owns i k) (hi : i < CMask.numBits)
    (hbit : (b.block (b.nextBlockOut i)).busy.get i = true) :
    (b.unlock i).Owns i (k - 1) ∧
    b.pendingItems i = (b.block (b.nextBlockOut i)).view :: (b.unlock i).pendingItems i := by
  have hout : (b.unlock i).nextBlockOut i = (b.nextBlockOut i + 1) % b.blocks := by
    simp [CircBuffer.unlock, modifyBlock]
  have howns : (b.unlock i).Owns i (k - 1) := by
    unfold Owns
    rw [hout]
    refine Marked.pop h hbit fun n _ => ?_
    rw [busy_unlock]
    split
    · simp [hi]
    · rfl
  refine ⟨howns, ?_⟩
  have hpos : 0 < k := by simpa [Marked.start_eq h] using hbit
  unfold pendingItems
  rw [howns.pendingCount_eq, h.pendingCount_eq, hout, ringItems_cons h.start_lt hpos]
  congr 1
  refine ringItems_congr fun d _ => Block.view_eq_of_content ?_
  exact (content_unlock b i _).symm

/-- An unlock shows to nobody else. -/
theorem seenAlike_unlock (b : CircBuffer) (hi : i < CMask.numBits) (hij : j ≠ i) :
    SeenAlike j b (b.unlock i) where
  blocks_eq := rfl
  nextBlockIn_eq := rfl
  nextBlockOut_eq := by simp [CircBuffer.unlock, modifyBlock, hij]
  busy_eq n _ := by
    rw [busy_unlock]
    split
    · simp [hi, hij]
    · rfl
  content_eq := content_unlock b i

theorem seenAlike_unlock16th (b : CircBuffer) (hi : i < CMask.numBits) (hij : j ≠ i) :
    SeenAlike j b (b.unlock16th i) where
  blocks_eq := rfl
  nextBlockIn_eq := rfl
  nextBlockOut_eq := by simp [CircBuffer.unlock16th, modifyBlock, hij]
  busy_eq n _ := by
    rw [busy_unlock16th]
    split
    · simp [hi, hij]
    · rfl
  content_eq := content_unlock16th b i

theorem owns_withConsumer_self (hb : Bookkeeping b) (fast : Bool)
    (hfree : b.tcmask.get i = false) : (b.withConsumer fast i).Owns i 0 := by
  have hout : (b.withConsumer fast i).nextBlockOut i = b.nextBlockIn := by
    simp [withConsumer]
  unfold Owns
  rw [hout]
  exact Marked.none_marked hb.nextBlockIn_lt fun n hn => hb.busy_get_of_not_tcmask hfree hn

theorem seenAlike_withConsumer (b : CircBuffer) (fast : Bool) (hij : j ≠ i) :
    SeenAlike j b (b.withConsumer fast i) where
  blocks_eq := rfl
  nextBlockIn_eq := rfl
  nextBlockOut_eq := by simp [withConsumer, hij]
  busy_eq _ _ := rfl
  content_eq _ := rfl

theorem seenAlike_deleteConsumer (b : CircBuffer) (hi : i < CMask.numBits) (hij : j ≠ i) :
    SeenAlike j b (b.deleteConsumer i) where
  blocks_eq := rfl
  nextBlockIn_eq := rfl
  nextBlockOut_eq := rfl
  busy_eq n hn := by
    rw [busy_deleteConsumer, if_pos hn]
    simp [hi, hij]
  content_eq := content_deleteConsumer b i

/-- Deleting consumer `i` takes its own bit out of `cmask` and no other. -/
theorem cmask_deleteConsumer (b : CircBuffer) (hi : i < CMask.numBits) (j : ℕ) :
    (b.deleteConsumer i).cmask.get j = (decide (j ≠ i) && b.cmask.get j) := by
  cases hc : b.cmask.get i
  · by_cases hij : j = i
    · simp [CircBuffer.deleteConsumer, hc, hij]
    · simp [CircBuffer.deleteConsumer, hc, hij]
  · simp [CircBuffer.deleteConsumer, hc, hi]

end CircBuffer

/-! ## The machine of atomic steps -/

/-- The buffer, and what a consumer read with its last `get` as long as it has not unlocked
the block. -/
structure FifoSys where
  buf : CircBuffer
  reading : ℕ → Option Item

/-- The atomic steps. -/
inductive FifoAction
  | put (call : PutCall)
  | addConsumer (fast : Bool)
  | deleteConsumer (cnumber : ℕ)
  | get (cnum : ℕ)
  | getNowait (cnum : ℕ)
  | noop (cnum : ℕ)
  | unlock (cnum : ℕ)
deriving DecidableEq, Repr

/-- Consumers take the items they read when they unlock them. -/
abbrev FifoEvent := FanOut.Event ℕ Item

namespace FifoSys

/-- A buffer nobody has used yet. -/
def start (b : CircBuffer) : FifoSys := ⟨b, fun _ => none⟩

/-- Consumer `i` reads block `n`. -/
def read (s : FifoSys) (i n : ℕ) : FifoSys :=
  { s with reading := Function.update s.reading i (some (s.buf.block n).view) }

/-- One step. Waiting puts, gets and noops are disabled; a consumer unlocks only what it
has got. -/
def step (s : FifoSys) : FifoAction → Option (FifoEvent × FifoSys)
  | .put call =>
    if call.InBlock s.buf then
      match call.item s.buf, call.exec s.buf with
      | some x, some (p, b) => some (if p = .dropped then .tau else .put x, { s with buf := b })
      | _, _ => none
    else none
  | .addConsumer fast =>
    match s.buf.addConsumer fast with
    | none => none
    | some (r, b) => some (if 0 ≤ r then .join r.toNat else .tau, { s with buf := b })
  | .deleteConsumer i =>
    if s.buf.tcmask.get i then
      some (.leave i, ⟨s.buf.deleteConsumer i, Function.update s.reading i none⟩)
    else none
  | .get i =>
    if s.buf.tcmask.get i then
      match s.buf.get i with
      | none => none
      | some n => some (.tau, s.read i n)
    else none
  | .getNowait i =>
    if s.buf.tcmask.get i then
      let n := s.buf.getNowait i
      some (.tau, if 0 ≤ n then s.read i n.toNat else s)
    else none
  | .noop i =>
    if s.buf.tcmask.get i then
      match s.buf.noop i with
      | none => none
      | some (n, b) =>
        some (.take i (s.buf.block n).view, ⟨b, Function.update s.reading i none⟩)
    else none
  | .unlock i =>
    match s.reading i with
    | none => none
    | some x => some (.take i x, ⟨s.buf.unlock i, Function.update s.reading i none⟩)

/-- The queue of each consumer: what the blocks it owns hold. -/
def queues (s : FifoSys) : FanOut.Queues ℕ Item :=
  fun i => if s.buf.cmask.get i then some (s.buf.pendingItems i) else none

end FifoSys

/-- The invariant of the machine: the books are kept, every consumer is a persistent one, it
owns a cyclic range of blocks, and what it is reading is the first of them. -/
structure FifoInv (s : FifoSys) : Prop where
  book : Bookkeeping s.buf
  cmask_eq : ∀ i, s.buf.tcmask.get i = s.buf.cmask.get i
  owns : ∀ i, s.buf.cmask.get i = true → s.buf.Owns i (s.buf.pendingCount i)
  reading : ∀ i x, s.reading i = some x → s.buf.cmask.get i = true ∧
    (s.buf.block (s.buf.nextBlockOut i)).busy.get i = true ∧
    (s.buf.block (s.buf.nextBlockOut i)).view = x

namespace FifoInv

variable {s : FifoSys}

/-- A put that drops its data shows to nobody. -/
theorem drop (h : FifoInv s) :
    let t := { s with buf := { s.buf with drops := s.buf.drops + 1, puts := s.buf.puts + 1 } }
    FifoInv t ∧ FanOut.Step s.queues .tau t.queues :=
  ⟨⟨{ h.book with }, h.cmask_eq, h.owns, h.reading⟩, .tau _⟩

/-- A put that stores its item appends it to every queue. -/
theorem store {b₁ : CircBuffer} (h : FifoInv s)
    (he : (s.buf.block s.buf.nextBlockIn).busy.empty = true) (hf : s.buf.Filled b₁) :
    let t := { s with buf := b₁.publishWhole s.buf.nextBlockIn }
    FifoInv t ∧
      FanOut.Step s.queues (.put (b₁.block s.buf.nextBlockIn).view) t.queues := by
  obtain ⟨_, _, _, _, hout, _, hcmask, _, htcmask⟩ := hf.frame
  -- the write section leaves the masks alone
  have hcm : ∀ i, (b₁.publishWhole s.buf.nextBlockIn).cmask.get i = s.buf.cmask.get i := by
    intro i
    rw [← hcmask]
    rfl
  have howns := fun i (hi : s.buf.cmask.get i = true) => (h.owns i hi).publishWhole hi he hf
  refine ⟨⟨?_, ?_, ?_, ?_⟩, ?_⟩
  · exact (h.book.filled hf).publishWhole _
  · intro i
    rw [hcm, ← h.cmask_eq i, ← htcmask]
    rfl
  · intro i hi
    rw [hcm] at hi
    rw [(howns i hi).1.pendingCount_eq]
    exact (howns i hi).1
  · intro i x hx
    obtain ⟨hi, hbit, hview⟩ := h.reading i x hx
    -- the block being read carries a mark, so it is not the one being filled
    have hne : s.buf.nextBlockOut i ≠ s.buf.nextBlockIn := by
      intro heq
      rw [heq, CMask.get_of_empty _ he] at hbit
      cases hbit
    have hout' : (b₁.publishWhole s.buf.nextBlockIn).nextBlockOut i = s.buf.nextBlockOut i := by
      rw [← hout]
      rfl
    simp only [hout']
    refine ⟨(hcm i).trans hi, ?_, ?_⟩
    · rw [busy_publishWhole, if_neg hne, hf.busy, hbit]
    · rw [view_publishWhole, hf.block_of_ne hne, hview]
  · have hq : FifoSys.queues { s with buf := b₁.publishWhole s.buf.nextBlockIn }
        = fun i => (s.queues i).map (· ++ [(b₁.block s.buf.nextBlockIn).view]) := by
      funext i
      simp only [FifoSys.queues, hcm]
      cases hi : s.buf.cmask.get i
      · rfl
      · simp [(howns i hi).2]
    rw [hq]
    exact .put _ _

/-- A change that consumer `i` alone sees, and after which it reads nothing, changes its queue
alone. -/
theorem others {i k : ℕ} {b : CircBuffer} {r : ℕ → Option Item} (h : FifoInv s)
    (hbook : Bookkeeping b) (hcmask : ∀ j, b.tcmask.get j = b.cmask.get j)
    (hcm : ∀ j ≠ i, b.cmask.get j = s.buf.cmask.get j) (halike : ∀ j ≠ i, SeenAlike j s.buf b)
    (hself : b.cmask.get i = true → b.Owns i k) (hidle : r i = none)
    (hr : ∀ j ≠ i, r j = s.reading j) :
    FifoInv ⟨b, r⟩ ∧ FifoSys.queues ⟨b, r⟩ =
      Function.update s.queues i (if b.cmask.get i then some (b.pendingItems i) else none) := by
  refine ⟨⟨hbook, hcmask, fun j hj => ?_, fun j x hx => ?_⟩, ?_⟩
  · by_cases hij : j = i
    · subst hij
      exact (hself hj).pendingCount_eq.symm ▸ hself hj
    · have howns := (halike j hij).owns (h.owns j ((hcm j hij).symm.trans hj))
      exact howns.pendingCount_eq.symm ▸ howns
  · by_cases hij : j = i
    · subst hij
      cases hidle.symm.trans hx
    · obtain ⟨hj, hbusy, hview⟩ := h.reading j x ((hr j hij).symm.trans hx)
      have hsees := halike j hij
      simp only [hsees.nextBlockOut_eq]
      exact ⟨(hcm j hij).trans hj, (hsees.busy_eq _ (h.book.nextBlockOut_lt j)).trans hbusy,
        (Block.view_eq_of_content (hsees.content_eq _)).trans hview⟩
  · funext j
    by_cases hij : j = i
    · subst hij
      rw [Function.update_self]
      rfl
    · rw [Function.update_of_ne hij]
      simp only [FifoSys.queues, hcm j hij]
      split
      · rename_i hj
        rw [(halike j hij).pendingItems_eq (h.owns j hj)]
      · rfl

/-- A new consumer starts with an empty queue. -/
theorem join {i : ℕ} (h : FifoInv s) (fast : Bool) (hc : s.buf.consumers < maxConsumers)
    (hi : s.buf.tcmask.firstFree = some i) :
    let t := { s with buf := s.buf.withConsumer fast i }
    FifoInv t ∧ FanOut.Step s.queues (.join i) t.queues := by
  obtain ⟨hlt, hfree⟩ := h.book.firstFree_lt hc hi
  have hbit := Bookkeeping.lt_numBits_of_lt hlt
  have hfree' : s.buf.cmask.get i = false := h.cmask_eq i ▸ hfree
  -- a newcomer owns and reads nothing
  have hself := owns_withConsumer_self h.book fast hfree
  have hcm : ∀ j, (s.buf.withConsumer fast i).cmask.get j
      = (decide (j = i) || s.buf.cmask.get j) := fun j => s.buf.cmask.get_set hbit j
  have hidle : s.reading i = none := Option.eq_none_iff_forall_ne_some.mpr fun x hx => by
    rw [(h.reading i x hx).1] at hfree'
    cases hfree'
  obtain ⟨hinv, hq⟩ := h.others (h.book.withConsumer fast hlt hfree)
    (fun j => by rw [hcm, ← h.cmask_eq j]; exact s.buf.tcmask.get_set hbit j)
    (fun j hij => by simp [hcm, hij]) (fun j hij => seenAlike_withConsumer s.buf fast hij)
    (fun _ => hself) hidle fun _ _ => rfl
  refine ⟨hinv, ?_⟩
  have hempty : (s.buf.withConsumer fast i).pendingItems i = [] := by
    simp [pendingItems, hself.pendingCount_eq]
  rw [hq, hcm, decide_eq_true rfl, hempty]
  exact .join (by simp [FifoSys.queues, hfree'])

/-- A consumer that goes takes its queue with it, and leaves the others theirs. -/
theorem leave {i : ℕ} (h : FifoInv s) (hi : s.buf.tcmask.get i = true) :
    let t := FifoSys.mk (s.buf.deleteConsumer i) (Function.update s.reading i none)
    FifoInv t ∧ FanOut.Step s.queues (.leave i) t.queues := by
  have hbit := s.buf.tcmask.lt_numBits_of_get hi
  -- only bit `i` goes down
  have hcm := cmask_deleteConsumer s.buf hbit
  have hdown : (s.buf.deleteConsumer i).cmask.get i = false := by simp [hcm]
  obtain ⟨hinv, hq⟩ := h.others (k := 0) (h.book.deleteConsumer hi)
    (fun j => by rw [hcm, ← h.cmask_eq j]; simp [CircBuffer.deleteConsumer, hbit])
    (fun j hij => by simp [hcm, hij]) (fun j hij => seenAlike_deleteConsumer s.buf hbit hij)
    (fun hup => absurd (hdown.symm.trans hup) nofun) (Function.update_self ..)
    fun j hij => Function.update_of_ne hij ..
  refine ⟨hinv, ?_⟩
  rw [hq, hdown]
  exact .leave _ _

/-- An unlock takes the head of the consumer's queue. -/
theorem release {i : ℕ} (h : FifoInv s) (hi : s.buf.cmask.get i = true)
    (hbusy : (s.buf.block (s.buf.nextBlockOut i)).busy.get i = true) :
    let t := FifoSys.mk (s.buf.unlock i) (Function.update s.reading i none)
    FifoInv t ∧
      FanOut.Step s.queues (.take i (s.buf.block (s.buf.nextBlockOut i)).view) t.queues := by
  have hbit := s.buf.cmask.lt_numBits_of_get hi
  -- consumer `i` gives up its first block
  obtain ⟨hself, hitems⟩ := (h.owns i hi).unlock_self hbit hbusy
  obtain ⟨hinv, hq⟩ := h.others (h.book.unlock ((h.cmask_eq i).trans hi)) h.cmask_eq
    (fun _ _ => rfl) (fun j hij => seenAlike_unlock s.buf hbit hij) (fun _ => hself)
    (Function.update_self ..) fun j hij => Function.update_of_ne hij ..
  have hstill : (s.buf.unlock i).cmask.get i = true := hi
  refine ⟨hinv, ?_⟩
  rw [hq, hstill]
  exact .take (by simp [FifoSys.queues, hi, hitems])

/-- A `get` reads the head of the consumer's queue. -/
theorem read {i n : ℕ} (h : FifoInv s) (hi : s.buf.tcmask.get i = true)
    (hn : s.buf.get i = some n) :
    FifoInv (s.read i n) ∧ FanOut.Step s.queues .tau (s.read i n).queues := by
  obtain ⟨rfl, hbusy⟩ := get_eq_some hn
  refine ⟨⟨h.book, h.cmask_eq, h.owns, ?_⟩, .tau _⟩
  intro j x hx
  by_cases hij : j = i
  · subst hij
    simp only [FifoSys.read, Function.update_self, Option.some.injEq] at hx
    exact ⟨h.cmask_eq j ▸ hi, hbusy, hx⟩
  · simp only [FifoSys.read, Function.update_of_ne hij] at hx
    exact h.reading j x hx

theorem step {a : FifoAction} {e : FifoEvent} {t : FifoSys} (h : FifoInv s)
    (hst : s.step a = some (e, t)) : FifoInv t ∧ FanOut.Step s.queues e t.queues := by
  cases a with
  | put call =>
    simp only [FifoSys.step] at hst
    split at hst
    · rename_i hin
      split at hst
      · rename_i x p b' hx hexec
        cases hst
        rcases PutCall.exec_cases hx hexec with
          ⟨rfl, rfl⟩ | ⟨he, rfl, b₁, hf, rfl, rfl⟩
        · exact h.drop
        · exact h.store he hf
      · cases hst
    · cases hst
  | addConsumer fast =>
    simp only [FifoSys.step] at hst
    split at hst
    · cases hst
    · rename_i r b' hr
      cases hst
      rcases addConsumer_cases hr with ⟨rfl, rfl⟩ | ⟨i, hc, hi, rfl, rfl⟩
      · exact ⟨h, .tau _⟩
      · simpa using h.join fast hc hi
  | deleteConsumer i =>
    simp only [FifoSys.step] at hst
    split at hst
    · rename_i hi
      cases hst
      exact h.leave hi
    · cases hst
  | get i =>
    simp only [FifoSys.step] at hst
    split at hst
    · rename_i hi
      split at hst
      · cases hst
      · rename_i n hn
        cases hst
        exact h.read hi hn
    · cases hst
  | getNowait i =>
    simp only [FifoSys.step, getNowait_eq] at hst
    split at hst
    · rename_i hi
      cases hst
      cases hn : s.buf.get i with
      | none => exact ⟨h, .tau _⟩
      | some n => simpa using h.read hi hn
    · cases hst
  | noop i =>
    simp only [FifoSys.step, CircBuffer.noop] at hst
    split at hst
    · rename_i hi
      split at hst
      · cases hst
      · rename_i n b' hn
        split at hn
        · rename_i hbusy
          cases hn
          cases hst
          exact h.release (h.cmask_eq i ▸ hi) hbusy
        · cases hn
    · cases hst
  | unlock i =>
    simp only [FifoSys.step] at hst
    split at hst
    · cases hst
    · rename_i x hx
      cases hst
      -- the consumer has got the block, so it still carries the mark
      obtain ⟨hi, hbusy, rfl⟩ := h.reading i x hx
      exact h.release hi hbusy

/-- A fresh buffer meets the invariant; its first consumers own nothing yet. -/
theorem start {consumers blocks blockSize : ℕ} {blockPeriod : ℤ} (hc : consumers ≤ maxConsumers)
    (hb : 0 < blocks) : FifoInv (.start (bufferMalloc consumers blocks blockSize blockPeriod)) := by
  have hnone : ∀ i, (bufferMalloc consumers blocks blockSize blockPeriod).Owns i 0 := by
    intro i
    exact Marked.none_marked hb fun n _ => by simp [bufferMalloc]
  refine ⟨bookkeeping_bufferMalloc hc hb _ _, fun _ => rfl, fun i _ => ?_, ?_⟩
  · rw [FifoSys.start, (hnone i).pendingCount_eq]
    exact hnone i
  · intro i x hx
    cases hx

end FifoInv

/-! ## Every reachable state -/

/-- Over every run the buffer behaves as one FIFO queue per consumer. -/
theorem circ_buffer_refines_queues {consumers blocks blockSize : ℕ} {blockPeriod : ℤ}
    (hc : consumers ≤ maxConsumers) (hb : 0 < blocks) {as : List FifoAction}
    {tr : List FifoEvent} {s : FifoSys}
    (h : run FifoSys.step (.start (bufferMalloc consumers blocks blockSize blockPeriod)) as
      = some (tr, s)) :
    Steps FanOut.Step
      (FifoSys.start (bufferMalloc consumers blocks blockSize blockPeriod)).queues tr s.queues ∧
    ∀ i, s.buf.cmask.get i = true →
      FanOut.putsSince i tr = FanOut.takesSince i tr ++ s.buf.pendingItems i ∧
      (∀ n < s.buf.blocks, (s.buf.block n).busy.get i = true ↔
        ∃ d < s.buf.pendingCount i, n = ringAt s.buf.blocks (s.buf.nextBlockOut i) d) ∧
      (s.buf.get i).map (fun n => (s.buf.block n).view) = (s.buf.pendingItems i).head? ∧
      (∀ x, s.reading i = some x → (s.buf.pendingItems i).head? = some x) := by
  obtain ⟨hinv, hsteps⟩ :=
    run_simulates FifoSys.queues FifoInv (fun _ _ _ _ hi hst => hi.step hst)
      (FifoInv.start hc hb) h
  refine ⟨hsteps, fun i hi => ?_⟩
  have howns := hinv.owns i hi
  have hstart := Marked.start_eq howns
  have hhead : (s.buf.block (s.buf.nextBlockOut i)).busy.get i = true →
      (s.buf.pendingItems i).head? = some (s.buf.block (s.buf.nextBlockOut i)).view := by
    intro hbusy
    have hpos : 0 < s.buf.pendingCount i := by simpa [hbusy] using hstart
    rw [pendingItems, ringItems_cons howns.start_lt hpos, List.head?_cons]
  refine ⟨?_, fun n hn => Marked.mark_iff howns hn, ?_, fun x hx => ?_⟩
  · refine FanOut.accounted_of_steps ?_ hsteps _ (by simp [FifoSys.queues, hi])
    intro xs hxs
    -- at the start every queue is empty
    have hzero : (bufferMalloc consumers blocks blockSize blockPeriod).pendingCount i = 0 := by
      simp [pendingCount, bufferMalloc, ringLen]
    simp only [FifoSys.queues, FifoSys.start, pendingItems, hzero, ringItems_zero] at hxs
    split at hxs
    · exact (Option.some.inj hxs).symm
    · cases hxs
  · cases hbusy : (s.buf.block (s.buf.nextBlockOut i)).busy.get i
    · have hzero : s.buf.pendingCount i = 0 := by simpa [hbusy] using hstart
      simp [CircBuffer.get, hbusy, pendingItems, hzero]
    · simp [CircBuffer.get, hbusy, hhead hbusy]
  · obtain ⟨_, hbusy, rfl⟩ := hinv.reading i x hx
    exact hhead hbusy

/-- Two consumers, one of them late, on a ring of two blocks that wraps. -/
private def lateJoiner : List FifoAction :=
  [.put (.put [1, 2] none), .get 0, .put (.putNowait [3] none), .put (.putNowait [9] none),
   .unlock 0, .addConsumer false, .put (.putPscattered [[4], [5, 6]] none), .noop 0, .get 1]

theorem circ_buffer_refines_queues_lateJoiner :
    ∃ tr s, run FifoSys.step (.start (bufferMalloc 1 2 8 1)) lateJoiner = some (tr, s) ∧
      (FanOut.putsSince 0 tr).map Item.data = [[1, 2], [3], [4, 5, 6]] ∧
      FanOut.putsSince 0 tr = FanOut.takesSince 0 tr ++ s.buf.pendingItems 0 ∧
      FanOut.putsSince 1 tr = FanOut.takesSince 1 tr ++ s.buf.pendingItems 1 := by
  have hrun : (run FifoSys.step (.start (bufferMalloc 1 2 8 1)) lateJoiner).map
      (fun r => (r.2.buf.cmask.get 0, r.2.buf.cmask.get 1,
        (FanOut.putsSince 0 r.1).map Item.data))
      = some (true, true, [[1, 2], [3], [4, 5, 6]]) := by
    decide +kernel
  obtain ⟨⟨tr, s⟩, hr, heq⟩ := Option.map_eq_some_iff.mp hrun
  simp only [Prod.mk.injEq] at heq
  obtain ⟨h0, h1, hdata⟩ := heq
  obtain ⟨-, hq⟩ := circ_buffer_refines_queues (by decide) (by decide) hr
  exact ⟨tr, s, hr, hdata, (hq 0 h0).1, (hq 1 h1).1⟩

end AdvLigoRts.Daqd
