import AdvLigoRts.Daqd.CircSystem

/-!
# What each operation of `circ_buffer` changes

One lemma per operation says everything the later proofs need to know about it; none of them unfolds
an operation again.
-/

namespace AdvLigoRts.Daqd

open CircBuffer

namespace CircBuffer

variable {b b' : CircBuffer}

/-! ## The first critical section -/

/-- `b'` is `b` with new contents, but the same masks, in the block being filled. -/
def Filled (b b' : CircBuffer) : Prop :=
  ∃ blk : Block, blk.busy = (b.block b.nextBlockIn).busy ∧
    blk.busy16th = (b.block b.nextBlockIn).busy16th ∧
    b' = { b with block := Function.update b.block b.nextBlockIn blk }

theorem filled_fill (b : CircBuffer) (pieces : List (List UInt8)) (prop : Option BlockProp) :
    b.Filled (b.fill pieces prop) := by
  refine ⟨(b.fill pieces prop).block b.nextBlockIn, ?_, ?_, ?_⟩ <;> simp [fill, modifyBlock]

theorem filled_fill16th (b : CircBuffer) (store : List UInt8 → List UInt8 × ℕ)
    (prop : Option BlockProp) : b.Filled (b.fill16th store prop) := by
  refine ⟨(b.fill16th store prop).block b.nextBlockIn, ?_, ?_, ?_⟩
  · by_cases h : b.nextBlockIn16th = 0 <;> simp [fill16th, modifyBlock, h]
  · by_cases h : b.nextBlockIn16th = 0 <;> simp [fill16th, modifyBlock, h]
  · simp [fill16th, modifyBlock]

/-- Filling leaves all counters, indices and consumer masks alone. -/
theorem Filled.frame (h : b.Filled b') : b'.blocks = b.blocks ∧ b'.blockSize = b.blockSize ∧
    b'.nextBlockIn = b.nextBlockIn ∧ b'.nextBlockIn16th = b.nextBlockIn16th ∧
    b'.nextBlockOut = b.nextBlockOut ∧ b'.nextBlockOut16th = b.nextBlockOut16th ∧
    b'.cmask = b.cmask ∧ b'.cmask16th = b.cmask16th ∧ b'.tcmask = b.tcmask := by
  obtain ⟨blk, _, _, rfl⟩ := h
  exact ⟨rfl, rfl, rfl, rfl, rfl, rfl, rfl, rfl, rfl⟩

theorem Filled.busy (h : b.Filled b') (n : ℕ) : (b'.block n).busy = (b.block n).busy := by
  obtain ⟨blk, hbusy, _, rfl⟩ := h
  by_cases hn : n = b.nextBlockIn
  · subst hn
    simp [hbusy]
  · simp [hn]

theorem Filled.busy16th (h : b.Filled b') (n : ℕ) :
    (b'.block n).busy16th = (b.block n).busy16th := by
  obtain ⟨blk, _, hbusy, rfl⟩ := h
  by_cases hn : n = b.nextBlockIn
  · subst hn
    simp [hbusy]
  · simp [hn]

theorem Filled.block_of_ne (h : b.Filled b') {n : ℕ} (hn : n ≠ b.nextBlockIn) :
    b'.block n = b.block n := by
  obtain ⟨blk, _, _, rfl⟩ := h
  simp [hn]

variable {pieces : List (List UInt8)} {store : List UInt8 → List UInt8 × ℕ}
  {prop : Option BlockProp} {p : Pending}

theorem waitAndFill_eq_some (h : b.waitAndFill pieces prop = some (p, b')) :
    (b.block b.nextBlockIn).busy.empty = true ∧ p = .whole b.nextBlockIn ∧
      b' = b.fill pieces prop := by
  unfold waitAndFill at h
  split at h
  · cases h
    exact ⟨‹_›, rfl, rfl⟩
  · cases h

theorem waitAndFill16th_eq_some (h : b.waitAndFill16th store prop = some (p, b')) :
    (b.block b.nextBlockIn).busy.empty = true ∧
      p = .sixteenth b.nextBlockIn b.nextBlockIn16th ∧ b' = b.fill16th store prop := by
  unfold waitAndFill16th at h
  split at h
  · cases h
    exact ⟨‹_›, rfl, rfl⟩
  · cases h

theorem fillOrDrop_cases (h : b.fillOrDrop pieces prop = (p, b')) :
    (p = .dropped ∧ b' = b) ∨
      ((b.block b.nextBlockIn).busy.empty = true ∧ p = .whole b.nextBlockIn ∧
        b' = b.fill pieces prop) := by
  unfold fillOrDrop at h
  split at h
  · cases h
    exact .inr ⟨‹_›, rfl, rfl⟩
  · cases h
    exact .inl ⟨rfl, rfl⟩

end CircBuffer

/-- The put that is under way when a call has filled its share of `block[ next_block_in ]`. -/
def PutCall.pendingOf (b : CircBuffer) (call : PutCall) : Pending :=
  if call.is16th then .sixteenth b.nextBlockIn b.nextBlockIn16th else .whole b.nextBlockIn

/-- All that the first critical section of a put can do. -/
theorem PutCall.write_cases {b b' : CircBuffer} {call : PutCall} {p : Pending}
    (h : call.write b = some (p, b')) :
    (p = .dropped ∧ b' = b ∧ call.is16th = false) ∨
      ((b.block b.nextBlockIn).busy.empty = true ∧ p = call.pendingOf b ∧ b.Filled b') := by
  -- the six puts share three forms of the first section
  have hwait : ∀ {pieces prop}, b.waitAndFill pieces prop = some (p, b') →
      (b.block b.nextBlockIn).busy.empty = true ∧ p = .whole b.nextBlockIn ∧ b.Filled b' := by
    intro pieces prop h
    obtain ⟨he, hp, rfl⟩ := waitAndFill_eq_some h
    exact ⟨he, hp, filled_fill ..⟩
  have hdrop : ∀ {pieces prop}, some (b.fillOrDrop pieces prop) = some (p, b') →
      (p = .dropped ∧ b' = b) ∨
      ((b.block b.nextBlockIn).busy.empty = true ∧ p = .whole b.nextBlockIn ∧ b.Filled b') := by
    intro pieces prop h
    rcases fillOrDrop_cases (Option.some.inj h) with hd | ⟨he, hp, rfl⟩
    · exact .inl hd
    · exact .inr ⟨he, hp, filled_fill ..⟩
  have h16 : ∀ {store prop}, b.waitAndFill16th store prop = some (p, b') →
      (b.block b.nextBlockIn).busy.empty = true ∧
        p = .sixteenth b.nextBlockIn b.nextBlockIn16th ∧ b.Filled b' := by
    intro store prop h
    obtain ⟨he, hp, rfl⟩ := waitAndFill16th_eq_some h
    exact ⟨he, hp, filled_fill16th ..⟩
  cases call with
  | put data prop | putPscattered pv prop => exact .inr (hwait h)
  | putNowait data prop | putNowaitScattered data pv prop =>
    exact (hdrop h).imp (fun hd => ⟨hd.1, hd.2, rfl⟩) id
  | put16thDpscattered zeroBadData pv prop => exact .inr (h16 h)
  | put16thDpscatteredLost pv prop => exact .inr (h16 h)

/-- The buffer with the share of the call in `block[ next_block_in ]`. -/
def PutCall.filled (b : CircBuffer) : PutCall → CircBuffer
  | .put data prop | .putNowait data prop => b.fill [data] prop
  | .putPscattered pv prop => b.fill pv prop
  | .putNowaitScattered data pv prop => b.fill (gather data pv) prop
  | .put16thDpscattered zeroBadData pv prop =>
    b.fill16th (fun dst => storeDpvecs zeroBadData b.nextBlockIn16th dst pv) prop
  | .put16thDpscatteredLost pv prop =>
    b.fill16th (fun dst => zeroDpvecs b.nextBlockIn16th dst pv) prop

theorem PutCall.write_eq {b b' : CircBuffer} {call : PutCall}
    (h : call.write b = some (call.pendingOf b, b')) : b' = call.filled b := by
  have hwait : ∀ {pieces prop p}, b.waitAndFill pieces prop = some (p, b') →
      b' = b.fill pieces prop := fun h => (waitAndFill_eq_some h).2.2
  have h16 : ∀ {store prop p}, b.waitAndFill16th store prop = some (p, b') →
      b' = b.fill16th store prop := fun h => (waitAndFill16th_eq_some h).2.2
  have hdrop : ∀ {pieces prop}, some (b.fillOrDrop pieces prop) = some (.whole b.nextBlockIn, b') →
      b' = b.fill pieces prop := by
    intro pieces prop h
    rcases fillOrDrop_cases (Option.some.inj h) with ⟨hp, -⟩ | ⟨-, -, hb'⟩
    · cases hp
    · exact hb'
  unfold filled
  cases call with
  | put data prop => exact hwait h
  | putPscattered pv prop => exact hwait h
  | putNowait data prop => exact hdrop h
  | putNowaitScattered data pv prop => exact hdrop h
  | put16thDpscattered zeroBadData pv prop => exact h16 h
  | put16thDpscatteredLost pv prop => exact h16 h

namespace CircBuffer

variable (b : CircBuffer)

/-! ## Masks after each operation -/

theorem busy_publishWhole (nbi n : ℕ) :
    ((b.publishWhole nbi).block n).busy = if n = nbi then b.cmask else (b.block n).busy := by
  by_cases h : n = nbi <;> simp [publishWhole, modifyBlock, h]

theorem busy16th_publishWhole (nbi n : ℕ) :
    ((b.publishWhole nbi).block n).busy16th = (b.block n).busy16th := by
  by_cases h : n = nbi <;> simp [publishWhole, modifyBlock, h]

theorem busy_publish16th (nbi nbi16th n : ℕ) :
    ((b.publish16th nbi nbi16th).block n).busy =
      if n = nbi ∧ nbi16th = 15 then b.cmask else (b.block n).busy := by
  by_cases h15 : nbi16th = 15 <;> by_cases h : n = nbi <;>
    simp [publish16th, publishWhole, modifyBlock, h15, h]

theorem busy16th_publish16th (nbi nbi16th n j : ℕ) :
    ((b.publish16th nbi nbi16th).block n).busy16th j =
      if n = nbi ∧ j = nbi16th then b.cmask16th else (b.block n).busy16th j := by
  by_cases h15 : nbi16th = 15 <;> by_cases h : n = nbi <;> by_cases hj : j = nbi16th <;>
    simp_all [publish16th, publishWhole, modifyBlock]

theorem nextBlockIn_publish16th (nbi nbi16th : ℕ) :
    (b.publish16th nbi nbi16th).nextBlockIn =
      if nbi16th = 15 then (b.nextBlockIn + 1) % b.blocks else b.nextBlockIn := by
  by_cases h15 : nbi16th = 15 <;> simp [publish16th, publishWhole, modifyBlock, h15]

/-- Publishing leaves everything but the marks and the producer's position alone. -/
theorem publish16th_frame (nbi nbi16th : ℕ) :
    (b.publish16th nbi nbi16th).blocks = b.blocks ∧
    (b.publish16th nbi nbi16th).blockSize = b.blockSize ∧
    (b.publish16th nbi nbi16th).nextBlockOut = b.nextBlockOut ∧
    (b.publish16th nbi nbi16th).nextBlockOut16th = b.nextBlockOut16th ∧
    (b.publish16th nbi nbi16th).nextBlockIn16th = (b.nextBlockIn16th + 1) % 16 ∧
    (b.publish16th nbi nbi16th).producers = b.producers ∧
    (b.publish16th nbi nbi16th).consumers = b.consumers ∧
    (b.publish16th nbi nbi16th).transientConsumers = b.transientConsumers ∧
    (b.publish16th nbi nbi16th).fastConsumers = b.fastConsumers ∧
    (b.publish16th nbi nbi16th).cmask = b.cmask ∧
    (b.publish16th nbi nbi16th).cmask16th = b.cmask16th ∧
    (b.publish16th nbi nbi16th).tcmask = b.tcmask := by
  by_cases h15 : nbi16th = 15 <;> simp [publish16th, publishWhole, modifyBlock, h15]

theorem content_publish (p : Pending) (n : ℕ) :
    ((p.publish b).block n).content = (b.block n).content := by
  cases p with
  | whole nbi => by_cases h : n = nbi <;> simp [Pending.publish, publishWhole, modifyBlock,
      Block.content, h]
  | sixteenth nbi nbi16th =>
    by_cases h15 : nbi16th = 15 <;> by_cases h : n = nbi <;>
      simp [Pending.publish, publish16th, publishWhole, modifyBlock, Block.content, h15, h]
  | dropped => rfl

theorem busy_unlock (cnum n : ℕ) :
    ((b.unlock cnum).block n).busy =
      if n = b.nextBlockOut cnum then (b.block n).busy.clear cnum else (b.block n).busy := by
  by_cases h : n = b.nextBlockOut cnum <;> simp [unlock, modifyBlock, h]

theorem busy16th_unlock (cnum n : ℕ) :
    ((b.unlock cnum).block n).busy16th = (b.block n).busy16th := by
  by_cases h : n = b.nextBlockOut cnum <;> simp [unlock, modifyBlock, h]

theorem content_unlock (cnum n : ℕ) :
    ((b.unlock cnum).block n).content = (b.block n).content := by
  by_cases h : n = b.nextBlockOut cnum <;> simp [unlock, modifyBlock, Block.content, h]

theorem busy_unlock16th (cnum n : ℕ) :
    ((b.unlock16th cnum).block n).busy =
      if n = b.nextBlockOut cnum then (b.block n).busy.clear cnum else (b.block n).busy := by
  by_cases h : n = b.nextBlockOut cnum <;> simp [unlock16th, modifyBlock, h]

theorem busy16th_unlock16th (cnum n j : ℕ) :
    ((b.unlock16th cnum).block n).busy16th j =
      if n = b.nextBlockOut cnum then ((b.block n).busy16th j).clear cnum
      else (b.block n).busy16th j := by
  by_cases h : n = b.nextBlockOut cnum <;> simp [unlock16th, modifyBlock, h]

theorem content_unlock16th (cnum n : ℕ) :
    ((b.unlock16th cnum).block n).content = (b.block n).content := by
  by_cases h : n = b.nextBlockOut cnum <;> simp [unlock16th, modifyBlock, Block.content, h]

theorem busy_deleteConsumer (cnum n : ℕ) :
    ((b.deleteConsumer cnum).block n).busy =
      if n < b.blocks then (b.block n).busy.clear cnum else (b.block n).busy := by
  by_cases h : n < b.blocks <;> simp [deleteConsumer, Block.clearConsumer, h]

theorem busy16th_deleteConsumer (cnum n j : ℕ) :
    ((b.deleteConsumer cnum).block n).busy16th j =
      if n < b.blocks then ((b.block n).busy16th j).clear cnum else (b.block n).busy16th j := by
  by_cases h : n < b.blocks <;> simp [deleteConsumer, Block.clearConsumer, h]

theorem content_deleteConsumer (cnum n : ℕ) :
    ((b.deleteConsumer cnum).block n).content = (b.block n).content := by
  by_cases h : n < b.blocks <;> simp [deleteConsumer, Block.clearConsumer, Block.content, h]

/-! ## Joining -/

/-- The consumer `add_consumer` creates in bit `i`. -/
def withConsumer (fast : Bool) (i : ℕ) : CircBuffer :=
  { b with
    cmask := b.cmask.set i
    tcmask := b.tcmask.set i
    consumers := b.consumers + 1
    nextBlockOut := Function.update b.nextBlockOut i b.nextBlockIn
    cmask16th := if fast then b.cmask16th.set i else b.cmask16th
    nextBlockOut16th :=
      if fast then Function.update b.nextBlockOut16th i b.nextBlockIn16th
      else b.nextBlockOut16th
    fastConsumers := if fast then b.fastConsumers + 1 else b.fastConsumers }

variable {b}

/-- All that `add_consumer` can do. -/
theorem addConsumer_cases {fast : Bool} {r : ℤ} {b' : CircBuffer}
    (h : b.addConsumer fast = some (r, b')) :
    (r = -1 ∧ b' = b) ∨
      ∃ i : ℕ, b.consumers < maxConsumers ∧ b.tcmask.firstFree = some i ∧ r = i ∧
        b' = b.withConsumer fast i := by
  unfold addConsumer at h
  split at h
  · cases h
    exact .inl ⟨rfl, rfl⟩
  · rename_i hc
    split at h
    · cases h
    · rename_i i hi
      refine .inr ⟨i, by omega, hi, ?_⟩
      -- the two branches of the source are one record in `withConsumer`
      cases fast <;> cases h <;> exact ⟨rfl, rfl⟩

namespace Marking

variable {consNum stop blocks : ℕ} {gps delta : ℤ} {old : ℕ → Block}

/-- What the marking loop may have done: bit `consNum` was set in some blocks other than
`stop`, and nothing else changed; if no block matched, nothing did. -/
structure Marks (consNum stop blocks : ℕ) (old : ℕ → Block) (m : Marking) : Prop where
  content : ∀ n, (m.block n).content = (old n).content
  busy16th : ∀ n, (m.block n).busy16th = (old n).busy16th
  busy_mono : ∀ n i, (old n).busy.get i = true → (m.block n).busy.get i = true
  busy_le : ∀ n i, (m.block n).busy.get i = true → (old n).busy.get i = true ∨ i = consNum
  stop_eq : m.block stop = old stop
  none_eq : m.firstBlock = none → m.block = old
  first_lt : ∀ i, m.firstBlock = some i → i < blocks

theorem Marks.refl (consNum stop blocks : ℕ) (old : ℕ → Block) :
    Marks consNum stop blocks old ⟨old, none, none, none⟩ where
  content _ := rfl
  busy16th _ := rfl
  busy_mono _ _ := id
  busy_le _ _ := .inl
  stop_eq := rfl
  none_eq _ := rfl
  first_lt _ h := by cases h

theorem Marks.mark {m : Marking} (hc : consNum < CMask.numBits) {i : ℕ} (hi : i < blocks)
    (hs : i ≠ stop) (h : Marks consNum stop blocks old m) :
    Marks consNum stop blocks old (m.mark consNum gps delta i) := by
  unfold Marking.mark
  simp only
  split
  · -- the block is in the window: bit `consNum` goes up in it
    have hblock : ∀ n, Function.update m.block i ((m.block i).markFor consNum) n =
        if n = i then (m.block i).markFor consNum else m.block n :=
      fun n => Function.update_apply ..
    constructor <;> simp only [hblock]
    · intro n
      rw [← h.content n]
      split
      · subst n
        rfl
      · rfl
    · intro n
      rw [← h.busy16th n]
      split
      · subst n
        rfl
      · rfl
    · intro n k hk
      have := h.busy_mono n k hk
      split
      · subst n
        simp [Block.markFor, hc, this]
      · exact this
    · intro n k hk
      split at hk
      · subst n
        simp only [Block.markFor, CMask.get_set _ hc, Bool.or_eq_true, decide_eq_true_eq] at hk
        rcases hk with rfl | hk
        · exact .inr rfl
        · exact h.busy_le i k hk
      · exact h.busy_le n k hk
    · rw [if_neg (Ne.symm hs), h.stop_eq]
    · intro hn
      cases hf : m.firstBlock <;> simp [hf] at hn
    · intro k hk
      cases hf : m.firstBlock with
      | none =>
        rw [hf] at hk
        cases hk
        exact hi
      | some f =>
        rw [hf] at hk
        cases hk
        exact h.first_lt _ hf
  · exact h

theorem Marks.loop (hc : consNum < CMask.numBits) (hb : 0 < blocks) (fuel : ℕ) :
    ∀ (i : ℕ) (m : Marking), i < blocks → Marks consNum stop blocks old m →
      Marks consNum stop blocks old (Marking.loop consNum gps delta blocks stop fuel i m) := by
  -- the loop never marks `stop`, where it ends; the induction is on the blocks left
  induction fuel with
  | zero => exact fun _ _ _ h => h
  | succ fuel ih =>
    intro i m hi h
    unfold Marking.loop
    split
    · exact h
    · exact ih _ _ (Nat.mod_lt _ hb) (h.mark hc hi ‹_›)

end Marking

/-- All that `add_transient_consumer` can do: refuse or find nothing, and then it changes
nothing; or mark some blocks, never the one at `next_block_in`, for a new consumer. -/
theorem addTransientConsumer_cases {gps delta : ℤ} {r : TransientResult} (hb : 0 < b.blocks)
    (h : b.addTransientConsumer gps delta = some r) :
    (r.ret < 0 ∧ r.buf = b) ∨
      ∃ (i firstBlock : ℕ) (m : Marking), b.consumers < maxConsumers ∧
        b.tcmask.firstFree = some i ∧ r.ret = i ∧ firstBlock < b.blocks ∧
        m.Marks i b.nextBlockIn b.blocks b.block ∧
        r.buf = { b with
          block := m.block
          tcmask := b.tcmask.set i
          consumers := b.consumers + 1
          transientConsumers := b.transientConsumers + 1
          nextBlockOut := Function.update b.nextBlockOut i firstBlock } := by
  unfold addTransientConsumer at h
  split at h
  · cases h
    exact .inl ⟨by norm_num, rfl⟩
  · rename_i hcons
    split at h
    · cases h
      exact .inl ⟨by norm_num, rfl⟩
    · split at h
      · cases h
      · rename_i i hi
        have hlt := (b.tcmask.firstFree_eq_some hi).1
        simp only at h
        have hmarks : (Marking.loop i (b.playbackWindow gps delta).1
            (b.playbackWindow gps delta).2 b.blocks b.nextBlockIn b.blocks
            ((b.nextBlockIn + circBufferTransientThresh) % b.blocks)
            ⟨b.block, none, none, none⟩).Marks i b.nextBlockIn b.blocks b.block :=
          Marking.Marks.loop hlt hb b.blocks _ _ (Nat.mod_lt _ hb) (Marking.Marks.refl ..)
        split at h
        · rename_i hnone
          cases h
          -- nothing was marked, so writing the blocks back changes nothing
          refine .inl ⟨by norm_num, ?_⟩
          simp only
          rw [hmarks.none_eq hnone]
        · rename_i firstBlock hfirst
          cases h
          exact .inr ⟨i, firstBlock, _, by omega, hi, rfl, hmarks.first_lt _ hfirst, hmarks, rfl⟩

/-- A `get` returns the consumer's next block, and that block is marked for it. -/
theorem get_eq_some {cnum n : ℕ} (h : b.get cnum = some n) :
    n = b.nextBlockOut cnum ∧ (b.block n).busy.get cnum = true := by
  unfold get at h
  simp only at h
  split at h
  · cases h
    exact ⟨rfl, ‹_›⟩
  · cases h

/-- `get_nowait` is `get`, with -1 where `get` would wait. -/
theorem getNowait_eq (b : CircBuffer) (cnum : ℕ) :
    b.getNowait cnum = match b.get cnum with
      | some n => (n : ℤ)
      | none => -1 := by
  unfold getNowait get
  simp only
  split <;> rfl

theorem get16th_eq_some {cnum nb : ℕ} {b' : CircBuffer} (h : b.get16th cnum = some (nb, b')) :
    ((b.block (b.nextBlockOut cnum)).busy16th (b.nextBlockOut16th cnum)).get cnum = true ∧
      nb = b.nextBlockOut cnum <<< 4 ||| b.nextBlockOut16th cnum ∧
      b' = { b with nextBlockOut16th :=
        Function.update b.nextBlockOut16th cnum (b.nextBlockOut16th cnum + 1) } := by
  unfold get16th at h
  simp only at h
  split at h
  · cases h
    exact ⟨‹_›, rfl, rfl⟩
  · cases h

end CircBuffer

/-! ## All that a step can do -/

namespace CircSys

/-- The outcomes of a step, with the guards that led there. -/
inductive Moves (s : CircSys) : CircAction → CircEvent → CircSys → Prop
  | drop (call : PutCall) (hp : s.pending = none) (h16 : call.is16th = false) :
      Moves s (.write call) .tau { s with pending := some .dropped }
  | fill (call : PutCall) (b' : CircBuffer) (hp : s.pending = none) (hin : call.InBlock s.buf)
      (hw : call.write s.buf = some (call.pendingOf s.buf, b'))
      (he : (s.buf.block s.buf.nextBlockIn).busy.empty = true) (hf : s.buf.Filled b') :
      Moves s (.write call) .tau { s with buf := b', pending := some (call.pendingOf s.buf) }
  | publish (p : Pending) (hp : s.pending = some p) :
      Moves s .publish (publishEvent p) { s with buf := p.publish s.buf, pending := none }
  | idle (a : CircAction) : Moves s a .tau s
  | join (fast : Bool) (i : ℕ) (hc : s.buf.consumers < maxConsumers)
      (hi : s.buf.tcmask.firstFree = some i) :
      Moves s (.addConsumer fast) (if fast then .join i else .tau)
        { s with buf := s.buf.withConsumer fast i }
  | transient (gps delta : ℤ) (r : TransientResult)
      (hr : s.buf.addTransientConsumer gps delta = some r) :
      Moves s (.addTransientConsumer gps delta) .tau { s with buf := r.buf }
  | leave (i : ℕ) (hi : s.buf.tcmask.get i = true) :
      Moves s (.deleteConsumer i) (if s.buf.cmask16th.get i then .leave i else .tau)
        { s with buf := s.buf.deleteConsumer i, got16th := Function.update s.got16th i none }
  | get16th (i nb : ℕ) (b' : CircBuffer) (hi : s.buf.tcmask.get i = true)
      (hn : s.buf.get16th i = some (nb, b')) :
      Moves s (.get16th i) (.take i (split16th nb))
        { s with buf := b', got16th := Function.update s.got16th i (some nb) }
  | unlock (i : ℕ) (hi : s.buf.tcmask.get i = true) :
      Moves s (.unlock i) .tau { s with buf := s.buf.unlock i }
  | unlock16th (i : ℕ) (hi : s.buf.tcmask.get i = true) :
      Moves s (.unlock16th i) .tau
        { s with buf := s.buf.unlock16th i, got16th := Function.update s.got16th i none }

theorem step_moves {s t : CircSys} {a : CircAction} {e : CircEvent}
    (h : s.step a = some (e, t)) : Moves s a e t := by
  cases a with
  | write call =>
    simp only [step, write] at h
    split at h
    · rename_i hg
      split at h
      · cases h
      · rename_i p b' hw
        cases h
        rcases PutCall.write_cases hw with ⟨rfl, rfl, h16⟩ | ⟨he, rfl, hf⟩
        · exact .drop call hg.1 h16
        · exact .fill call b' hg.1 hg.2 hw he hf
    · cases h
  | publish =>
    simp only [step, CircSys.publish] at h
    split at h
    · cases h
    · rename_i p hp
      cases h
      exact .publish p hp
  | addConsumer fast =>
    simp only [step] at h
    split at h
    · cases h
    · rename_i r b' hr
      cases h
      rcases addConsumer_cases hr with ⟨rfl, rfl⟩ | ⟨i, hc, hi, rfl, rfl⟩
      · simpa using Moves.idle (s := s) (.addConsumer fast)
      · simpa using Moves.join fast i hc hi
  | addTransientConsumer gps delta =>
    simp only [step] at h
    split at h
    · cases h
    · rename_i r hr
      cases h
      exact .transient gps delta r hr
  | deleteConsumer i =>
    simp only [step] at h
    split at h
    · rename_i hi
      cases h
      exact .leave i hi
    · cases h
  | get i | getNowait i =>
    simp only [step] at h
    split at h <;> cases h
    exact .idle _
  | get16th i =>
    simp only [step] at h
    split at h
    · rename_i hi
      split at h
      · cases h
      · rename_i nb b' hn
        cases h
        exact .get16th i nb b' hi hn
    · cases h
  | unlock i =>
    simp only [step] at h
    split at h
    · rename_i hi
      cases h
      exact .unlock i hi
    · cases h
  | unlock16th i =>
    simp only [step] at h
    split at h
    · rename_i hi
      cases h
      exact .unlock16th i hi
    · cases h

end CircSys

end AdvLigoRts.Daqd
