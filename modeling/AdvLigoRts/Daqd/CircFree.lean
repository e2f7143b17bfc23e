import AdvLigoRts.Daqd.CircOwnership

/-!
# What `bfree` counts

`bfree` goes by the distance from each consumer's `next_block_out` to `next_block_in`. Where the two
meet it looks at the `busy` mask of the block there, which may carry the mark of another consumer.
-/

namespace AdvLigoRts.Daqd

open PvLib CircBuffer

/-! ## The functions -/

namespace CircBuffer

/-- `bfree`, the free blocks as far as consumer `i` goes. -/
def consumerFree (b : CircBuffer) (i : ℕ) : ℤ :=
  let d : ℤ := b.nextBlockIn - b.nextBlockOut i
  if d < 0 then -d
  else if d = 0 then
    -- full and empty look the same here
    if (b.block (b.nextBlockOut i)).busy.empty then b.blocks else 0
  else b.blocks - d

def bfree (b : CircBuffer) : ℤ :=
  (List.range maxConsumers).foldl (fun freeBlocks i =>
    if b.cmask.get i then
      let fb := b.consumerFree i
      if fb < freeBlocks then fb else freeBlocks
    else freeBlocks) b.blocks

/-- `put_nowait` for one block after another, with nothing in between: what the calls return. -/
def putsNowait : CircBuffer → List (List UInt8 × Option BlockProp) → List ℤ × CircBuffer
  | b, [] => ([], b)
  | b, (data, prop) :: calls =>
    let (p, b₁) := b.putNowaitWrite data prop
    let (rets, b₂) := putsNowait (p.publish b₁) calls
    (p.ret :: rets, b₂)

/-- The number of blocks that carry the mark of consumer `i`. -/
def blocksPending (b : CircBuffer) (i : ℕ) : ℕ :=
  ((Finset.range b.blocks).filter fun n => (b.block n).busy.get i = true).card

end CircBuffer

def GotBlock (s : CircSys) : CircAction → Prop
  | .unlock i => (s.buf.get i).isSome = true
  | .unlock16th i => (s.buf.get i).isSome = true
  | _ => True

instance (s : CircSys) : (a : CircAction) → Decidable (GotBlock s a)
  | .write _ | .publish | .addConsumer _ | .addTransientConsumer ..
  | .deleteConsumer _ | .get _ | .getNowait _ | .get16th _ => .isTrue trivial
  | .unlock _ => inferInstanceAs (Decidable (_ = true))
  | .unlock16th _ => inferInstanceAs (Decidable (_ = true))

/-- The system whose consumers unlock what they got. -/
abbrev gotStep := restrict GotBlock CircSys.step

/-! ## The queues in every state -/

namespace CircBuffer

variable {b b' : CircBuffer} {i k : ℕ}

/-- Only the consumer's own marks and the two positions matter. -/
theorem Owns.congr (h : b.Owns i k) (hblocks : b'.blocks = b.blocks)
    (hin : b'.nextBlockIn = b.nextBlockIn) (hout : b'.nextBlockOut i = b.nextBlockOut i)
    (hbusy : ∀ n < b.blocks, (b'.block n).busy.get i = (b.block n).busy.get i) : b'.Owns i k := by
  show Marked b'.blocks (b'.nextBlockOut i) b'.nextBlockIn _ k
  rw [hblocks, hin, hout]
  exact Marked.congr h hbusy

theorem filled_self (b : CircBuffer) : b.Filled b :=
  ⟨b.block b.nextBlockIn, rfl, rfl, by rw [Function.update_eq_self]⟩

theorem get_isSome_iff :
    (b.get i).isSome = true ↔ (b.block (b.nextBlockOut i)).busy.get i = true := by
  unfold CircBuffer.get
  dsimp only
  split
  · simp [*]
  · simp [*]

/-- The second section of a put whose block is the unmarked one at `next_block_in`. -/
theorem Owns.publish {p : Pending} (h : b.Owns i k) (hi : b.cmask.get i = true)
    (htarget : ∀ nbi, p.target = some nbi →
      nbi = b.nextBlockIn ∧ (b.block nbi).busy.empty = true) :
    ∃ k', (p.publish b).Owns i k' := by
  cases p with
  | whole nbi =>
    obtain ⟨rfl, he⟩ := htarget nbi rfl
    exact ⟨k + 1, (h.publishWhole hi he b.filled_self).1⟩
  | sixteenth nbi nbi16th =>
    obtain ⟨rfl, he⟩ := htarget nbi rfl
    obtain ⟨hblocks, _, hout, _⟩ := b.publish16th_frame b.nextBlockIn nbi16th
    have hin := b.nextBlockIn_publish16th b.nextBlockIn nbi16th
    have hbusy := b.busy_publish16th b.nextBlockIn nbi16th
    by_cases h15 : nbi16th = 15
    · -- the last sixteenth publishes the block
      have hwhole := (h.publishWhole hi he b.filled_self).1
      refine ⟨k + 1, hwhole.congr hblocks ?_ (congrFun hout i) fun n _ => ?_⟩
      · show (b.publish16th b.nextBlockIn nbi16th).nextBlockIn = _
        rw [hin, if_pos h15]
        rfl
      · show ((b.publish16th b.nextBlockIn nbi16th).block n).busy.get i = _
        rw [hbusy, busy_publishWhole]
        simp only [h15, and_true]
    · refine ⟨k, h.congr hblocks ?_ (congrFun hout i) fun n _ => ?_⟩
      · show (b.publish16th b.nextBlockIn nbi16th).nextBlockIn = _
        rw [hin, if_neg h15]
      · show ((b.publish16th b.nextBlockIn nbi16th).block n).busy.get i = _
        rw [hbusy, if_neg (fun hc => h15 hc.2)]
  | dropped => exact ⟨k, h⟩

theorem Owns.self (h : b.Owns i k) : b.Owns i (b.pendingCount i) := h.pendingCount_eq.symm ▸ h

theorem Owns.blocksPending_eq (h : b.Owns i k) : b.blocksPending i = k := by
  have himage : ((Finset.range b.blocks).filter fun n => (b.block n).busy.get i = true) =
      (Finset.range k).image (ringAt b.blocks (b.nextBlockOut i)) := by
    ext n
    rw [Finset.mem_filter, Finset.mem_range, Finset.mem_image]
    constructor
    · rintro ⟨hn, hmark⟩
      obtain ⟨d, hd, rfl⟩ := (Marked.mark_iff h hn).mp hmark
      exact ⟨d, Finset.mem_range.mpr hd, rfl⟩
    · rintro ⟨d, hd, rfl⟩
      have hlt := ringAt_lt h.ring_pos (b.nextBlockOut i) d
      exact ⟨hlt, (Marked.mark_iff h hlt).mpr ⟨d, Finset.mem_range.mp hd, rfl⟩⟩
  unfold blocksPending
  rw [himage, Finset.card_image_of_injOn, Finset.card_range]
  intro d hd d' hd' heq
  have hle := Marked.le h
  rw [Finset.coe_range, Set.mem_Iio] at hd hd'
  exact (ringAt_inj h.start_lt (by omega) (by omega)).mp heq

end CircBuffer

/-- The books are kept, the put has its block for itself, and the marks of every consumer in
`cmask` are its queue. -/
structure Queued (s : CircSys) : Prop where
  exclusive : Exclusive s
  owns : ∀ i, s.buf.cmask.get i = true → s.buf.Owns i (s.buf.pendingCount i)

namespace Queued

variable {s t : CircSys}

/-- The blocks of the consumers after a step, from the number each of them has. -/
theorem of_owns (h : Exclusive t)
    (howns : ∀ i, t.buf.cmask.get i = true → ∃ k, t.buf.Owns i k) : Queued t := by
  refine ⟨h, fun i hi => ?_⟩
  obtain ⟨k, hk⟩ := howns i hi
  exact hk.self

/-- An unlock of consumer `j`, by either of its two forms. -/
theorem release {j : ℕ} {b' : CircBuffer} (h : Queued s) (hj : s.buf.tcmask.get j = true)
    (hgot : (s.buf.get j).isSome = true) (hcmask : b'.cmask = s.buf.cmask)
    (hblocks : b'.blocks = s.buf.blocks) (hin : b'.nextBlockIn = s.buf.nextBlockIn)
    (hout : b'.nextBlockOut = (s.buf.unlock j).nextBlockOut)
    (hbusy : ∀ n, (b'.block n).busy = ((s.buf.unlock j).block n).busy) :
    ∀ i, b'.cmask.get i = true → ∃ k, b'.Owns i k := by
  intro i hi
  rw [hcmask] at hi
  have hbit := s.buf.tcmask.lt_numBits_of_get hj
  have hsame : ∀ {k}, (s.buf.unlock j).Owns i k → b'.Owns i k := by
    intro k hk
    exact hk.congr hblocks hin (congrFun hout i) fun n _ => by rw [hbusy]
  by_cases hij : i = j
  · subst hij
    exact ⟨_, hsame ((h.owns i hi).unlock_self hbit (get_isSome_iff.mp hgot)).1⟩
  · exact ⟨_, hsame ((seenAlike_unlock s.buf hbit hij).owns (h.owns i hi))⟩

theorem step {a : CircAction} {e : CircEvent} (h : Queued s)
    (hst : gotStep s a = some (e, t)) : Queued t := by
  obtain ⟨hgot, hst⟩ := restrict_eq_some.mp hst
  have hbook := h.exclusive.book
  apply of_owns (h.exclusive.step hst)
  cases CircSys.step_moves hst with
  | drop call hp h16 => exact fun i hi => ⟨_, h.owns i hi⟩
  | fill call b' hp hin hw he hf =>
    obtain ⟨hblocks, _, hin', _, hout, _, hcmask, _⟩ := hf.frame
    intro i hi
    rw [hcmask] at hi
    exact ⟨_, (h.owns i hi).congr hblocks hin' (congrFun hout i) fun n _ => by rw [hf.busy]⟩
  | publish p hp =>
    intro i hi
    have hcmask : (p.publish s.buf).cmask = s.buf.cmask := by
      cases p with
      | whole nbi => rfl
      | sixteenth nbi nbi16th =>
        obtain ⟨_, _, _, _, _, _, _, _, _, hcmask, _⟩ := s.buf.publish16th_frame nbi nbi16th
        exact hcmask
      | dropped => rfl
    rw [hcmask] at hi
    exact (h.owns i hi).publish hi fun nbi hnbi => h.exclusive.target p nbi hp hnbi
  | idle => exact fun i hi => ⟨_, h.owns i hi⟩
  | join fast j hc hj =>
    obtain ⟨hlt, hfree⟩ := hbook.firstFree_lt hc hj
    intro i hi
    by_cases hij : i = j
    · subst hij
      exact ⟨0, owns_withConsumer_self hbook fast hfree⟩
    · have hi' : s.buf.cmask.get i = true := by
        have hset : (s.buf.withConsumer fast j).cmask.get i =
            (decide (i = j) || s.buf.cmask.get i) :=
          s.buf.cmask.get_set (Bookkeeping.lt_numBits_of_lt hlt) i
        simpa [hset, hij] using hi
      exact ⟨_, (seenAlike_withConsumer s.buf fast hij).owns (h.owns i hi')⟩
  | transient gps delta r hr =>
    rcases addTransientConsumer_cases hbook.blocks_pos hr with
      ⟨_, hb⟩ | ⟨j, first, m, hc, hj, _, _, hm, hb⟩
    · rw [hb]
      exact fun i hi => ⟨_, h.owns i hi⟩
    · rw [hb]
      intro i hi
      -- the marks of the loop are for a consumer that is not in `cmask`
      have hij : i ≠ j := by
        rintro rfl
        have hfree := (hbook.firstFree_lt hc hj).2
        rw [hbook.cmask_get hi] at hfree
        cases hfree
      refine ⟨_, (h.owns i hi).congr rfl rfl (Function.update_of_ne hij _ _) fun n _ => ?_⟩
      rw [Bool.eq_iff_iff]
      exact ⟨fun hbit => (hm.busy_le n i hbit).resolve_right hij, hm.busy_mono n i⟩
  | leave j hj =>
    have hbit := s.buf.tcmask.lt_numBits_of_get hj
    intro i hi
    have hi' : i ≠ j ∧ s.buf.cmask.get i = true := by
      simpa [cmask_deleteConsumer s.buf hbit] using hi
    exact ⟨_, (seenAlike_deleteConsumer s.buf hbit hi'.1).owns (h.owns i hi'.2)⟩
  | get16th j nb b' hj hn =>
    obtain ⟨_, _, rfl⟩ := get16th_eq_some hn
    exact fun i hi => ⟨_, h.owns i hi⟩
  | unlock j hj => exact h.release hj hgot rfl rfl rfl rfl fun n => rfl
  | unlock16th j hj =>
    exact h.release hj hgot rfl rfl rfl rfl fun n => by rw [busy_unlock, busy_unlock16th]

theorem start {consumers blocks blockSize : ℕ} {blockPeriod : ℤ} (hc : consumers ≤ maxConsumers)
    (hb : 0 < blocks) : Queued (.start (bufferMalloc consumers blocks blockSize blockPeriod)) := by
  apply of_owns (Exclusive.start (bookkeeping_bufferMalloc hc hb blockSize blockPeriod))
  intro i _
  exact ⟨0, Marked.none_marked hb fun n _ => by simp [CircSys.start, bufferMalloc]⟩

theorem of_run {consumers blocks blockSize : ℕ} {blockPeriod : ℤ} (hc : consumers ≤ maxConsumers)
    (hb : 0 < blocks) {as : List CircAction} {tr : List CircEvent}
    (h : run gotStep (.start (bufferMalloc consumers blocks blockSize blockPeriod)) as =
      some (tr, s)) : Queued s :=
  run_invariant Queued (fun _ _ _ _ _ hs hst => hs.step hst) (start hc hb) h

end Queued

/-! ## The free blocks -/

namespace CircBuffer

variable {b : CircBuffer} {i j : ℕ} {m : ℤ}

theorem le_bfree_iff : m ≤ b.bfree ↔
    m ≤ b.blocks ∧ ∀ i < maxConsumers, b.cmask.get i = true → m ≤ b.consumerFree i := by
  have hfold : ∀ (l : List ℕ) (free : ℤ),
      m ≤ l.foldl (fun freeBlocks i =>
        if b.cmask.get i then
          let fb := b.consumerFree i
          if fb < freeBlocks then fb else freeBlocks
        else freeBlocks) free ↔
      m ≤ free ∧ ∀ i ∈ l, b.cmask.get i = true → m ≤ b.consumerFree i := by
    intro l
    induction l with
    | nil => simp
    | cons i l ih =>
      intro free
      rw [List.foldl_cons, ih, List.forall_mem_cons]
      by_cases hi : b.cmask.get i = true
      · rw [if_pos hi]
        dsimp only
        split
        · have himp : m ≤ b.consumerFree i → m ≤ free := fun h => by omega
          tauto
        · have himp : m ≤ free → m ≤ b.consumerFree i := fun h => by omega
          tauto
      · rw [if_neg hi]
        tauto
  unfold bfree
  rw [hfold]
  simp only [List.mem_range]

end CircBuffer

/-- A buffer without transient consumers whose marks are the queues of its consumers. -/
structure SteadyQueues (b : CircBuffer) : Prop where
  book : Bookkeeping b
  steady : ∀ i, b.tcmask.get i = b.cmask.get i
  owns : ∀ i, b.cmask.get i = true → b.Owns i (b.pendingCount i)

namespace SteadyQueues

variable {b b₁ : CircBuffer} {i : ℕ}

theorem of_queued {s : CircSys} (h : Queued s) (htrans : s.buf.transientConsumers = 0) :
    SteadyQueues s.buf := by
  have hbook := h.exclusive.book
  refine ⟨hbook, fun i => ?_, h.owns⟩
  have hnone : s.buf.tcmask.bits \ s.buf.cmask.bits = ∅ := by
    have heq := hbook.transient_eq
    rw [htrans] at heq
    exact Finset.card_eq_zero.mp (by omega)
  rw [Bool.eq_iff_iff]
  constructor
  · intro hi
    have hsub := Finset.sdiff_eq_empty_iff_subset.mp hnone
    simpa using hsub ((s.buf.tcmask.mem_bits).mpr hi)
  · exact hbook.cmask_get

theorem pendingCount_le (h : SteadyQueues b) (hi : b.cmask.get i = true) :
    b.pendingCount i ≤ b.blocks := Marked.le (h.owns i hi)

/-- Only current consumers have marks. -/
theorem cmask_of_busy (h : SteadyQueues b) {n : ℕ} (hn : n < b.blocks)
    (hbusy : (b.block n).busy.get i = true) : b.cmask.get i = true := by
  rw [← h.steady]
  by_contra hnot
  rw [h.book.busy_get_of_not_tcmask (by simpa using hnot) hn] at hbusy
  cases hbusy

/-- The block at `next_block_in` is marked for a consumer when it has the whole ring pending. -/
theorem busy_in_iff (h : SteadyQueues b) (hi : b.cmask.get i = true) :
    (b.block b.nextBlockIn).busy.get i = true ↔ b.pendingCount i = b.blocks := by
  have howns := h.owns i hi
  constructor
  · intro hbusy
    obtain ⟨d, hd, heq⟩ := (Marked.mark_iff howns h.book.nextBlockIn_lt).mp hbusy
    by_contra hne
    have hle := h.pendingCount_le hi
    have hend : ringAt b.blocks (b.nextBlockOut i) (b.pendingCount i) = b.nextBlockIn :=
      Marked.end_eq howns
    have hdeq := (ringAt_inj howns.start_lt (by omega) (by omega)).mp (hend.trans heq)
    omega
  · intro hfull
    by_contra hfree
    have hlt := Marked.lt_of_end howns (by simpa using hfree)
    omega

/-- What `bfree` computes for one consumer: the blocks it does not have pending, or zero when
some consumer has all of them. -/
theorem consumerFree_eq (h : SteadyQueues b) (hi : b.cmask.get i = true) :
    b.consumerFree i = b.blocks - b.pendingCount i ∨
      b.consumerFree i = 0 ∧ ∃ j, b.cmask.get j = true ∧ b.pendingCount j = b.blocks := by
  have howns := h.owns i hi
  have hle := h.pendingCount_le hi
  have hout := h.book.nextBlockOut_lt i
  have hend : (b.nextBlockOut i + b.pendingCount i) % b.blocks = b.nextBlockIn :=
    Marked.end_eq howns
  unfold consumerFree
  dsimp only
  by_cases hwrap : b.nextBlockOut i + b.pendingCount i < b.blocks
  · rw [Nat.mod_eq_of_lt hwrap] at hend
    by_cases hzero : b.pendingCount i = 0
    · rw [if_neg (by omega), if_pos (by omega)]
      have hsame : b.nextBlockOut i = b.nextBlockIn := by omega
      rw [hsame]
      by_cases hempty : (b.block b.nextBlockIn).busy.empty = true
      · rw [if_pos hempty]
        left
        omega
      · -- the mark there is one of another consumer, who has the whole ring pending
        rw [if_neg hempty]
        right
        obtain ⟨j, hj⟩ : ∃ j, (b.block b.nextBlockIn).busy.get j = true := by
          by_contra hnone
          apply hempty
          rw [CMask.empty_iff]
          intro j
          by_contra hj
          exact hnone ⟨j, by simpa using hj⟩
        have hcj := h.cmask_of_busy h.book.nextBlockIn_lt hj
        exact ⟨rfl, j, hcj, (h.busy_in_iff hcj).mp hj⟩
    · rw [if_neg (by omega), if_neg (by omega)]
      left
      omega
  · have hmod : b.nextBlockOut i + b.pendingCount i - b.blocks = b.nextBlockIn := by
      rw [← hend, Nat.mod_eq_sub_mod (by omega), Nat.mod_eq_of_lt (by omega)]
    by_cases hfull : b.pendingCount i = b.blocks
    · rw [if_neg (by omega), if_pos (by omega)]
      have hsame : b.nextBlockOut i = b.nextBlockIn := by omega
      have hmark := (h.busy_in_iff hi).mpr hfull
      have hempty : ¬ (b.block (b.nextBlockOut i)).busy.empty = true := by
        intro he
        rw [hsame] at he
        rw [CMask.get_of_empty _ he] at hmark
        cases hmark
      rw [if_neg hempty]
      left
      omega
    · left
      rw [if_pos (by omega)]
      omega

/-- The bound that `bfree` is the largest number under. -/
theorem le_bfree_iff (h : SteadyQueues b) (hcons : ∃ i, b.cmask.get i = true) {n : ℕ} :
    (n : ℤ) ≤ b.bfree ↔ ∀ i, b.cmask.get i = true → b.pendingCount i + n ≤ b.blocks := by
  have hlt : ∀ i, b.cmask.get i = true → i < maxConsumers := fun i hi =>
    h.book.tcmask_lt i (b.tcmask.mem_bits.mpr (h.book.cmask_get hi))
  rw [CircBuffer.le_bfree_iff]
  constructor
  · rintro ⟨-, hle⟩ i hi
    have hi' := hle i (hlt i hi) hi
    rcases h.consumerFree_eq hi with heq | ⟨hzero, j, hj, hfull⟩
    · omega
    · have hj' := hle j (hlt j hj) hj
      have hcount := h.pendingCount_le hi
      omega
  · intro hall
    obtain ⟨i₀, hi₀⟩ := hcons
    have hle₀ := hall i₀ hi₀
    refine ⟨by omega, fun i _ hi => ?_⟩
    have hi' := hall i hi
    rcases h.consumerFree_eq hi with heq | ⟨hzero, j, hj, hfull⟩
    · omega
    · have hj' := hall j hj
      omega

theorem bfree_nonneg (h : SteadyQueues b) (hcons : ∃ i, b.cmask.get i = true) : 0 ≤ b.bfree :=
  (h.le_bfree_iff hcons (n := 0)).mpr fun _ hi => h.pendingCount_le hi

/-- `put_nowait` stores its block when no consumer has the whole ring pending. -/
theorem empty_iff (h : SteadyQueues b) : (b.block b.nextBlockIn).busy.empty = true ↔
    ∀ i, b.cmask.get i = true → b.pendingCount i < b.blocks := by
  rw [CMask.empty_iff]
  constructor
  · intro hnone i hi
    have hne : b.pendingCount i ≠ b.blocks := by
      intro hfull
      have hmark := (h.busy_in_iff hi).mpr hfull
      rw [hnone i] at hmark
      cases hmark
    have hle := h.pendingCount_le hi
    omega
  · intro hlt i
    by_contra hbusy
    have hi := h.cmask_of_busy h.book.nextBlockIn_lt (by simpa using hbusy)
    have hfull := (h.busy_in_iff hi).mp (by simpa using hbusy)
    have hlt' := hlt i hi
    omega

/-- A stored block is one more for every consumer. -/
theorem publishWhole (h : SteadyQueues b) (he : (b.block b.nextBlockIn).busy.empty = true)
    (hf : b.Filled b₁) : SteadyQueues (b₁.publishWhole b.nextBlockIn) ∧
      ∀ i, b.cmask.get i = true →
        (b₁.publishWhole b.nextBlockIn).pendingCount i = b.pendingCount i + 1 := by
  obtain ⟨_, _, _, _, _, _, hcmask, _, htcmask⟩ := hf.frame
  have howns := fun i (hi : b.cmask.get i = true) => ((h.owns i hi).publishWhole hi he hf).1
  refine ⟨⟨(h.book.filled hf).publishWhole _, fun i => ?_, fun i hi => ?_⟩, fun i hi => ?_⟩
  · show b₁.tcmask.get i = b₁.cmask.get i
    rw [htcmask, hcmask, h.steady]
  · have hi' : b₁.cmask.get i = true := hi
    rw [hcmask] at hi'
    exact (howns i hi').self
  · exact (howns i hi).pendingCount_eq

/-- All calls of `put_nowait` in a row store their blocks when every consumer has room. -/
theorem putsNowait_iff (h : SteadyQueues b) (hcons : ∃ i, b.cmask.get i = true)
    (calls : List (List UInt8 × Option BlockProp)) :
    (∀ r ∈ (b.putsNowait calls).1, 0 ≤ r) ↔
      ∀ i, b.cmask.get i = true → b.pendingCount i + calls.length ≤ b.blocks := by
  induction calls generalizing b with
  | nil => exact ⟨fun _ i hi => h.pendingCount_le hi, fun _ r hr => absurd hr List.not_mem_nil⟩
  | cons call calls ih =>
    obtain ⟨data, prop⟩ := call
    by_cases he : (b.block b.nextBlockIn).busy.empty = true
    · have hwrite : b.putNowaitWrite data prop = (.whole b.nextBlockIn, b.fill [data] prop) :=
        if_pos he
      have hf := filled_fill b [data] prop
      obtain ⟨hnext, hcount⟩ := h.publishWhole he hf
      have hcmask : ((b.fill [data] prop).publishWhole b.nextBlockIn).cmask = b.cmask := rfl
      have hrest := ih hnext hcons
      have hcalls : (b.putsNowait ((data, prop) :: calls)).1 = (b.nextBlockIn : ℤ) ::
          (((b.fill [data] prop).publishWhole b.nextBlockIn).putsNowait calls).1 := by
        rw [putsNowait, hwrite]
        rfl
      rw [hcalls, List.forall_mem_cons, hrest, hcmask, List.length_cons]
      have hblocks : ((b.fill [data] prop).publishWhole b.nextBlockIn).blocks = b.blocks := rfl
      rw [hblocks]
      constructor
      · rintro ⟨-, hall⟩ i hi
        have hi' := hall i hi
        rw [hcount i hi] at hi'
        omega
      · intro hall
        refine ⟨Int.natCast_nonneg _, fun i hi => ?_⟩
        have hi' := hall i hi
        rw [hcount i hi]
        omega
    · -- the first call already drops its block
      have hwrite : b.putNowaitWrite data prop = (.dropped, b) := if_neg he
      have hcalls : (b.putsNowait ((data, prop) :: calls)).1.head? = some (-1) := by
        rw [putsNowait, hwrite]
        rfl
      constructor
      · intro hall
        have hneg := hall (-1) (List.mem_of_mem_head? hcalls)
        omega
      · intro hall
        refine absurd (h.empty_iff.mpr fun i hi => ?_) he
        have hi' := hall i hi
        rw [List.length_cons] at hi'
        omega

end SteadyQueues

/-- In every reachable state with a consumer and without transient ones, `bfree` is the largest
number of blocks that `put_nowait` stores one after the other, and all blocks but the pending
ones of the consumer that has the most. -/
theorem bfree_counts_puts {consumers blocks blockSize : ℕ} {blockPeriod : ℤ}
    (hc : consumers ≤ maxConsumers) (hb : 0 < blocks) {as : List CircAction}
    {tr : List CircEvent} {s : CircSys}
    (h : run gotStep (.start (bufferMalloc consumers blocks blockSize blockPeriod)) as =
      some (tr, s))
    (hcons : ∃ i, s.buf.cmask.get i = true) (htrans : s.buf.transientConsumers = 0) :
    0 ≤ s.buf.bfree ∧
    (∀ calls, (∀ r ∈ (s.buf.putsNowait calls).1, 0 ≤ r) ↔ (calls.length : ℤ) ≤ s.buf.bfree) ∧
    (∀ i, s.buf.cmask.get i = true → s.buf.bfree ≤ s.buf.blocks - s.buf.blocksPending i) ∧
    ∃ i, s.buf.cmask.get i = true ∧ s.buf.bfree = s.buf.blocks - s.buf.blocksPending i := by
  have hq := SteadyQueues.of_queued (Queued.of_run hc hb h) htrans
  have hnonneg := hq.bfree_nonneg hcons
  have hle : ∀ i, s.buf.cmask.get i = true →
      s.buf.bfree ≤ s.buf.blocks - s.buf.pendingCount i := by
    intro i hi
    have hall := (hq.le_bfree_iff hcons (n := s.buf.bfree.toNat)).mp (by omega) i hi
    omega
  refine ⟨hnonneg, fun calls => ?_, fun i hi => ?_, ?_⟩
  · rw [hq.putsNowait_iff hcons, hq.le_bfree_iff hcons]
  · rw [(hq.owns i hi).blocksPending_eq]
    exact hle i hi
  · -- otherwise one more block would fit
    by_contra hnone
    have hmore := (hq.le_bfree_iff hcons (n := s.buf.bfree.toNat + 1)).mpr (by
      intro i hi
      have hne : s.buf.bfree ≠ s.buf.blocks - s.buf.blocksPending i :=
        fun heq => hnone ⟨i, hi, heq⟩
      rw [(hq.owns i hi).blocksPending_eq] at hne
      have hi' := hle i hi
      omega)
    omega

/-- Two consumers on a ring of two blocks: the first has read both, the second none. -/
private def oneReaderBehind : List CircAction :=
  [.write (.put [1] none), .publish, .unlock 0, .write (.put [2] none), .publish, .unlock 0]

/-- The first consumer stands at a block that the second still has pending. -/
theorem bfree_counts_puts_oneReaderBehind :
    ∃ tr s, run gotStep (.start (bufferMalloc 2 2 8 1)) oneReaderBehind = some (tr, s) ∧
      s.buf.nextBlockOut 0 = s.buf.nextBlockIn ∧ s.buf.bfree = 0 ∧
      ∃ i, s.buf.cmask.get i = true ∧ s.buf.bfree = s.buf.blocks - s.buf.blocksPending i := by
  have hrun : (run gotStep (.start (bufferMalloc 2 2 8 1)) oneReaderBehind).map (fun r =>
      (r.2.buf.nextBlockOut 0, r.2.buf.nextBlockIn, r.2.buf.bfree, r.2.buf.cmask.get 0,
        r.2.buf.transientConsumers)) = some (0, 0, 0, true, 0) := by
    decide +kernel
  obtain ⟨⟨tr, s⟩, hr, heq⟩ := Option.map_eq_some_iff.mp hrun
  simp only [Prod.mk.injEq] at heq
  obtain ⟨hout, hin, hfree, hcons, htrans⟩ := heq
  obtain ⟨-, -, -, hmost⟩ := bfree_counts_puts (by decide) (by decide) hr ⟨0, hcons⟩ htrans
  exact ⟨tr, s, hr, hout.trans hin.symm, hfree, hmost⟩

end AdvLigoRts.Daqd
