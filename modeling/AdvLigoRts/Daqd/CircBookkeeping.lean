import AdvLigoRts.Daqd.CircTheorems

/-!
# The bookkeeping of `circ_buffer`

`Bookkeeping` says how the counters, the three consumer masks, the marks on the blocks and the block
indices of a buffer hang together.
-/

namespace AdvLigoRts.Daqd

open PvLib CircBuffer

/-- Counters, masks, marks and indices agree with each other. -/
structure Bookkeeping (b : CircBuffer) : Prop where
  consumers_eq : b.consumers = b.tcmask.bits.card
  tcmask_lt : ∀ i ∈ b.tcmask.bits, i < maxConsumers
  cmask_sub : b.cmask.bits ⊆ b.tcmask.bits
  cmask16th_sub : b.cmask16th.bits ⊆ b.cmask.bits
  transient_eq : b.transientConsumers = (b.tcmask.bits \ b.cmask.bits).card
  fast_eq : b.fastConsumers = b.cmask16th.bits.card
  busy_sub : ∀ n < b.blocks, (b.block n).busy.bits ⊆ b.tcmask.bits
  busy16th_sub : ∀ n < b.blocks, ∀ j < 16, ((b.block n).busy16th j).bits ⊆ b.cmask16th.bits
  nextBlockIn_lt : b.nextBlockIn < b.blocks
  nextBlockOut_lt : ∀ i, b.nextBlockOut i < b.blocks

variable {b' : CircBuffer}

namespace Bookkeeping

variable {b : CircBuffer}

theorem blocks_pos (h : Bookkeeping b) : 0 < b.blocks := Nat.zero_lt_of_lt h.nextBlockIn_lt

variable {i : ℕ}

/-- A block carries no mark of a consumer that is not there. -/
theorem busy_get_of_not_tcmask (h : Bookkeeping b) {n : ℕ} (hi : b.tcmask.get i = false)
    (hn : n < b.blocks) : (b.block n).busy.get i = false := by
  cases hg : (b.block n).busy.get i
  · rfl
  · have := h.busy_sub n hn ((b.block n).busy.mem_bits.mpr hg)
    rw [CMask.mem_bits, hi] at this
    cases this

theorem busy16th_get_of_not_cmask16th (h : Bookkeeping b) {n j : ℕ}
    (hi : b.cmask16th.get i = false) (hn : n < b.blocks) (hj : j < 16) :
    ((b.block n).busy16th j).get i = false := by
  cases hg : ((b.block n).busy16th j).get i
  · rfl
  · have := h.busy16th_sub n hn j hj (((b.block n).busy16th j).mem_bits.mpr hg)
    rw [CMask.mem_bits, hi] at this
    cases this

theorem cmask_get (h : Bookkeeping b) (hi : b.cmask.get i = true) : b.tcmask.get i = true := by
  simpa using h.cmask_sub (b.cmask.mem_bits.mpr hi)

theorem cmask16th_get (h : Bookkeeping b) (hi : b.cmask16th.get i = true) :
    b.cmask.get i = true := by
  simpa using h.cmask16th_sub (b.cmask16th.mem_bits.mpr hi)

/-! ## The search for a free number -/

theorem card_lt_of_consumers_lt (h : Bookkeeping b) (hc : b.consumers < maxConsumers) :
    b.tcmask.bits.card < maxConsumers := by
  have := h.consumers_eq
  omega

/-- While there is room for a consumer, the search for a free number finds one below
`MAX_CONSUMERS`. -/
theorem exists_firstFree (h : Bookkeeping b) (hc : b.consumers < maxConsumers) :
    ∃ i, b.tcmask.firstFree = some i ∧ i < maxConsumers ∧ b.tcmask.get i = false :=
  b.tcmask.firstFree_of_card_lt (by decide) (h.card_lt_of_consumers_lt hc)

theorem firstFree_lt (h : Bookkeeping b) (hc : b.consumers < maxConsumers)
    (hi : b.tcmask.firstFree = some i) : i < maxConsumers ∧ b.tcmask.get i = false := by
  obtain ⟨k, hk, hlt, hget⟩ := h.exists_firstFree hc
  obtain rfl : k = i := Option.some.inj (hk.symm.trans hi)
  exact ⟨hlt, hget⟩

/-! ## Every operation keeps the books -/

theorem lt_numBits_of_lt (h : i < maxConsumers) : i < CMask.numBits := by
  simp only [maxConsumers, CMask.numBits, cmaskWordCount] at *
  omega

theorem filled (h : Bookkeeping b) (hf : b.Filled b') : Bookkeeping b' := by
  have hbusy := hf.busy
  have hbusy16 := hf.busy16th
  obtain ⟨blk, _, _, rfl⟩ := hf
  exact { h with
    busy_sub := fun n hn => by rw [hbusy]; exact h.busy_sub n hn
    busy16th_sub := fun n hn j hj => by rw [hbusy16]; exact h.busy16th_sub n hn j hj }

theorem publishWhole (h : Bookkeeping b) (nbi : ℕ) : Bookkeeping (b.publishWhole nbi) := by
  exact { h with
    busy_sub := fun n hn => by
      rw [busy_publishWhole]
      split
      · exact h.cmask_sub
      · exact h.busy_sub n hn
    busy16th_sub := fun n hn j hj => by
      rw [busy16th_publishWhole]
      exact h.busy16th_sub n hn j hj
    nextBlockIn_lt := Nat.mod_lt _ h.blocks_pos }

theorem publish16th (h : Bookkeeping b) (nbi nbi16th : ℕ) :
    Bookkeeping (b.publish16th nbi nbi16th) := by
  obtain ⟨hblocks, _, hout, _, _, _, hcons, htrans, hfast, hcmask, hcmask16, htcmask⟩ :=
    b.publish16th_frame nbi nbi16th
  constructor
  · rw [hcons, htcmask]; exact h.consumers_eq
  · rw [htcmask]; exact h.tcmask_lt
  · rw [hcmask, htcmask]; exact h.cmask_sub
  · rw [hcmask, hcmask16]; exact h.cmask16th_sub
  · rw [htrans, htcmask, hcmask]; exact h.transient_eq
  · rw [hfast, hcmask16]; exact h.fast_eq
  · intro n hn
    rw [hblocks] at hn
    rw [busy_publish16th, htcmask]
    split
    · exact h.cmask_sub
    · exact h.busy_sub n hn
  · intro n hn j hj
    rw [hblocks] at hn
    rw [busy16th_publish16th, hcmask16]
    split
    · exact subset_rfl
    · exact h.busy16th_sub n hn j hj
  · rw [nextBlockIn_publish16th, hblocks]
    split
    · exact Nat.mod_lt _ h.blocks_pos
    · exact h.nextBlockIn_lt
  · rw [hout, hblocks]; exact h.nextBlockOut_lt

theorem publish (h : Bookkeeping b) (p : Pending) : Bookkeeping (p.publish b) := by
  cases p with
  | whole nbi => exact h.publishWhole nbi
  | sixteenth nbi nbi16th => exact h.publish16th nbi nbi16th
  | dropped => exact { h with }

theorem withConsumer (h : Bookkeeping b) (fast : Bool) (hi : i < maxConsumers)
    (hfree : b.tcmask.get i = false) : Bookkeeping (b.withConsumer fast i) := by
  have hbit : i < CMask.numBits := lt_numBits_of_lt hi
  -- the new bit is down in all three masks
  have hnot : i ∉ b.tcmask.bits := by simp [hfree]
  have hnotc : i ∉ b.cmask.bits := fun hc => hnot (h.cmask_sub hc)
  have hnot16 : i ∉ b.cmask16th.bits := fun hc => hnotc (h.cmask16th_sub hc)
  constructor <;> simp only [CircBuffer.withConsumer, CMask.bits_set _ hbit]
  · rw [Finset.card_insert_of_notMem hnot, h.consumers_eq]
    push_cast
    rfl
  · intro k hk
    rcases Finset.mem_insert.mp hk with rfl | hk
    · exact hi
    · exact h.tcmask_lt k hk
  · exact Finset.insert_subset_insert i h.cmask_sub
  · cases fast
    · exact h.cmask16th_sub.trans (Finset.subset_insert i _)
    · simp only [if_true, CMask.bits_set _ hbit]
      exact Finset.insert_subset_insert i h.cmask16th_sub
  · -- the bit is up in both masks, so the consumer is no transient one
    rw [Finset.insert_sdiff_insert, Finset.sdiff_insert_of_notMem hnot, h.transient_eq]
  · cases fast
    · simpa using h.fast_eq
    · simp only [if_true, CMask.bits_set _ hbit]
      rw [Finset.card_insert_of_notMem hnot16, h.fast_eq]
      push_cast
      rfl
  · exact fun n hn => (h.busy_sub n hn).trans (Finset.subset_insert i _)
  · intro n hn j hj
    cases fast
    · exact h.busy16th_sub n hn j hj
    · simp only [if_true, CMask.bits_set _ hbit]
      exact (h.busy16th_sub n hn j hj).trans (Finset.subset_insert i _)
  · exact h.nextBlockIn_lt
  · intro k
    rw [Function.update_apply]
    split
    · exact h.nextBlockIn_lt
    · exact h.nextBlockOut_lt k

theorem addTransientConsumer {gps delta : ℤ} {r : TransientResult} (h : Bookkeeping b)
    (ha : b.addTransientConsumer gps delta = some r) : Bookkeeping r.buf := by
  rcases addTransientConsumer_cases h.blocks_pos ha with
    ⟨_, hb⟩ | ⟨i, first, m, hc, hi, _, hfirst, hm, hb⟩
  · rw [hb]
    exact h
  · obtain ⟨hlt, hfree⟩ := h.firstFree_lt hc hi
    have hbit : i < CMask.numBits := lt_numBits_of_lt hlt
    have hnot : i ∉ b.tcmask.bits := by simp [hfree]
    have hnotc : i ∉ b.cmask.bits := fun hc => hnot (h.cmask_sub hc)
    rw [hb]
    constructor <;> simp only [CMask.bits_set _ hbit]
    · rw [Finset.card_insert_of_notMem hnot, h.consumers_eq]
      push_cast
      rfl
    · intro k hk
      rcases Finset.mem_insert.mp hk with rfl | hk
      · exact hlt
      · exact h.tcmask_lt k hk
    · exact h.cmask_sub.trans (Finset.subset_insert i _)
    · exact h.cmask16th_sub
    · -- the bit stays down in `cmask`
      rw [Finset.insert_sdiff_of_notMem _ hnotc,
        Finset.card_insert_of_notMem (fun hk => hnot (Finset.mem_sdiff.mp hk).1), h.transient_eq]
      push_cast
      rfl
    · exact h.fast_eq
    · intro n hn k hk
      rw [CMask.mem_bits] at hk
      -- a mark that was not there before is the newcomer's
      rcases hm.busy_le n k hk with hk | rfl
      · exact Finset.mem_insert_of_mem (h.busy_sub n hn (by simpa using hk))
      · exact Finset.mem_insert_self _ _
    · intro n hn j hj
      rw [hm.busy16th]
      exact h.busy16th_sub n hn j hj
    · exact h.nextBlockIn_lt
    · intro k
      rw [Function.update_apply]
      split
      · exact hfirst
      · exact h.nextBlockOut_lt k

theorem deleteConsumer (h : Bookkeeping b) (hi : b.tcmask.get i = true) :
    Bookkeeping (b.deleteConsumer i) := by
  have hbit := b.tcmask.lt_numBits_of_get hi
  have hmem : i ∈ b.tcmask.bits := by simpa using hi
  have hpos : 0 < b.tcmask.bits.card := Finset.card_pos.mpr ⟨i, hmem⟩
  -- both branches of the source's two tests come to the same masks
  have hcmask : (b.deleteConsumer i).cmask.bits = b.cmask.bits.erase i := by
    cases hc : b.cmask.get i
    · simp [CircBuffer.deleteConsumer, hc]
    · simp [CircBuffer.deleteConsumer, hc, CMask.bits_clear _ hbit]
  have hcmask16 : (b.deleteConsumer i).cmask16th.bits = b.cmask16th.bits.erase i := by
    cases hc : b.cmask16th.get i
    · simp [CircBuffer.deleteConsumer, hc]
    · simp [CircBuffer.deleteConsumer, hc, CMask.bits_clear _ hbit]
  have htcmask : (b.deleteConsumer i).tcmask.bits = b.tcmask.bits.erase i :=
    b.tcmask.bits_clear hbit
  constructor
  · rw [htcmask, Finset.card_erase_of_mem hmem]
    simp only [CircBuffer.deleteConsumer, h.consumers_eq]
    omega
  · intro k hk
    rw [htcmask] at hk
    exact h.tcmask_lt k (Finset.mem_of_mem_erase hk)
  · rw [hcmask, htcmask]
    exact Finset.erase_subset_erase i h.cmask_sub
  · rw [hcmask, hcmask16]
    exact Finset.erase_subset_erase i h.cmask16th_sub
  · rw [htcmask, hcmask]
    cases hc : b.cmask.get i
    · have hnotc : i ∉ b.cmask.bits := by simp [hc]
      have hin : i ∈ b.tcmask.bits \ b.cmask.bits := Finset.mem_sdiff.mpr ⟨hmem, hnotc⟩
      have hcard := Finset.card_erase_of_mem hin
      have hpos' : 0 < (b.tcmask.bits \ b.cmask.bits).card := Finset.card_pos.mpr ⟨i, hin⟩
      rw [Finset.erase_eq_of_notMem hnotc, Finset.erase_sdiff_comm, hcard]
      simp only [CircBuffer.deleteConsumer, hc, h.transient_eq]
      norm_num
      omega
    · have hinc : i ∈ b.cmask.bits := by simp [hc]
      have hsame : b.tcmask.bits.erase i \ b.cmask.bits.erase i
          = b.tcmask.bits \ b.cmask.bits := by
        ext k
        simp only [Finset.mem_sdiff, Finset.mem_erase]
        constructor
        · rintro ⟨⟨hne, hk⟩, hnk⟩
          exact ⟨hk, fun hkc => hnk ⟨hne, hkc⟩⟩
        · rintro ⟨hk, hnk⟩
          have hne : k ≠ i := fun heq => hnk (heq ▸ hinc)
          exact ⟨⟨hne, hk⟩, fun hkc => hnk hkc.2⟩
      rw [hsame]
      simp only [CircBuffer.deleteConsumer, hc, if_true]
      exact h.transient_eq
  · rw [hcmask16]
    cases hc : b.cmask16th.get i
    · have hnot : i ∉ b.cmask16th.bits := by simp [hc]
      rw [Finset.erase_eq_of_notMem hnot]
      simpa [CircBuffer.deleteConsumer, hc] using h.fast_eq
    · have hin : i ∈ b.cmask16th.bits := by simp [hc]
      have hpos' : 0 < b.cmask16th.bits.card := Finset.card_pos.mpr ⟨i, hin⟩
      rw [Finset.card_erase_of_mem hin]
      simp only [CircBuffer.deleteConsumer, hc, if_true, h.fast_eq]
      omega
  · intro n hn
    have hn' : n < b.blocks := hn
    rw [htcmask, busy_deleteConsumer, if_pos hn', CMask.bits_clear _ hbit]
    exact Finset.erase_subset_erase i (h.busy_sub n hn')
  · intro n hn j hj
    have hn' : n < b.blocks := hn
    rw [hcmask16, busy16th_deleteConsumer, if_pos hn', CMask.bits_clear _ hbit]
    exact Finset.erase_subset_erase i (h.busy16th_sub n hn' j hj)
  · exact h.nextBlockIn_lt
  · exact h.nextBlockOut_lt

theorem get16th {cnum nb : ℕ} (h : Bookkeeping b) (hg : b.get16th cnum = some (nb, b')) :
    Bookkeeping b' := by
  unfold CircBuffer.get16th at hg
  simp only at hg
  split at hg
  · cases hg
    exact { h with }
  · cases hg

/-- Moving a consumer on and clearing some of its marks keeps the books. -/
theorem unlock (h : Bookkeeping b) (hi : b.tcmask.get i = true) : Bookkeeping (b.unlock i) := by
  have hbit := b.tcmask.lt_numBits_of_get hi
  exact { h with
    busy_sub := fun n hn => by
      rw [busy_unlock]
      split
      · rw [CMask.bits_clear _ hbit]
        exact (Finset.erase_subset _ _).trans (h.busy_sub n hn)
      · exact h.busy_sub n hn
    busy16th_sub := fun n hn j hj => by
      rw [busy16th_unlock]
      exact h.busy16th_sub n hn j hj
    nextBlockOut_lt := fun k => by
      simp only [CircBuffer.unlock, modifyBlock, Function.update_apply]
      split
      · exact Nat.mod_lt _ h.blocks_pos
      · exact h.nextBlockOut_lt k }

theorem unlock16th (h : Bookkeeping b) (hi : b.tcmask.get i = true) :
    Bookkeeping (b.unlock16th i) := by
  have hbit := b.tcmask.lt_numBits_of_get hi
  exact { h with
    busy_sub := fun n hn => by
      rw [busy_unlock16th]
      split
      · rw [CMask.bits_clear _ hbit]
        exact (Finset.erase_subset _ _).trans (h.busy_sub n hn)
      · exact h.busy_sub n hn
    busy16th_sub := fun n hn j hj => by
      rw [busy16th_unlock16th]
      split
      · rw [CMask.bits_clear _ hbit]
        exact (Finset.erase_subset _ _).trans (h.busy16th_sub n hn j hj)
      · exact h.busy16th_sub n hn j hj
    nextBlockOut_lt := fun k => by
      simp only [CircBuffer.unlock16th, modifyBlock, Function.update_apply]
      split
      · exact Nat.mod_lt _ h.blocks_pos
      · exact h.nextBlockOut_lt k }

/-! ## Runs -/

/-- One step, wherever it leads, keeps the books. -/
theorem step {s t : CircSys} {a : CircAction} {e : CircEvent} (h : Bookkeeping s.buf)
    (hst : s.step a = some (e, t)) : Bookkeeping t.buf := by
  cases CircSys.step_moves hst with
  | drop call hp h16 => exact h
  | fill call b' hp hin hw he hf => exact h.filled hf
  | publish p hp => exact h.publish p
  | idle => exact h
  | join fast i hc hi =>
    obtain ⟨hlt, hfree⟩ := h.firstFree_lt hc hi
    exact h.withConsumer fast hlt hfree
  | transient gps delta r hr => exact h.addTransientConsumer hr
  | leave i hi => exact h.deleteConsumer hi
  | get16th i nb b' hi hn => exact h.get16th hn
  | unlock i hi => exact h.unlock hi
  | unlock16th i hi => exact h.unlock16th hi

end Bookkeeping

theorem get_initialMask {consumers : ℕ} (hc : consumers ≤ CMask.numBits) (i : ℕ) :
    ((List.range consumers).foldl (fun m j => m.set j) CMask.clearAll).get i
      = decide (i < consumers) := by
  induction consumers with
  | zero => simp
  | succ k ih =>
    rw [List.range_succ, List.foldl_append]
    simp only [List.foldl_cons, List.foldl_nil]
    rw [CMask.get_set _ (by omega), ih (by omega)]
    by_cases h : i = k
    · simp [h]
    · have : i < k + 1 ↔ i < k := by omega
      simp [h, this]

theorem bits_initialMask {consumers : ℕ} (hc : consumers ≤ CMask.numBits) :
    ((List.range consumers).foldl (fun m j => m.set j) CMask.clearAll).bits
      = Finset.range consumers := by
  ext i
  rw [CMask.mem_bits, get_initialMask hc, decide_eq_true_eq, Finset.mem_range]

/-- A freshly constructed buffer keeps the books. -/
theorem bookkeeping_bufferMalloc {consumers blocks : ℕ} (hc : consumers ≤ maxConsumers)
    (hb : 0 < blocks) (blockSize : ℕ) (blockPeriod : ℤ) :
    Bookkeeping (bufferMalloc consumers blocks blockSize blockPeriod) := by
  have hbits := @bits_initialMask consumers (hc.trans (by decide))
  constructor <;> simp only [bufferMalloc]
  · rw [hbits, Finset.card_range]
  · intro i hi
    rw [hbits, Finset.mem_range] at hi
    omega
  · exact subset_rfl
  · simp
  · simp
  · simp
  · simp
  · simp
  · exact hb
  · exact fun _ => hb

/-! ## The bytes a put records -/

theorem copyPieces_snd (dst : List UInt8) (pieces : List (List UInt8)) :
    (copyPieces dst pieces).2 = (pieces.map List.length).sum := by
  suffices h : ∀ (pieces : List (List UInt8)) (acc : List UInt8 × ℕ),
      (pieces.foldl (fun acc piece => (memcpy acc.1 acc.2 piece, acc.2 + piece.length)) acc).2
        = acc.2 + (pieces.map List.length).sum by
    simpa [copyPieces] using h pieces (dst, 0)
  intro pieces
  induction pieces with
  | nil => simp
  | cons piece pieces ih =>
    intro acc
    rw [List.foldl_cons, ih, List.map_cons, List.sum_cons]
    omega

/-- The running length of a loop over vectors is the sum of their lengths. -/
theorem foldl_dlen (f : List UInt8 → PutDpvec → List UInt8) (pv : List PutDpvec)
    (acc : List UInt8 × ℕ) :
    (pv.foldl (fun acc v => (f acc.1 v, acc.2 + v.vecLen)) acc).2
      = acc.2 + (pv.map PutDpvec.vecLen).sum := by
  induction pv generalizing acc with
  | nil => simp
  | cons v pv ih =>
    rw [List.foldl_cons, ih, List.map_cons, List.sum_cons]
    omega

theorem sum_length_gather {data : List UInt8} {pv : List PutVec}
    (h : ∀ v ∈ pv, v.vecIdx + v.vecLen ≤ data.length) :
    ((gather data pv).map List.length).sum = (pv.map PutVec.vecLen).sum := by
  unfold gather
  rw [List.map_map]
  congr 1
  refine List.map_congr_left fun v hv => ?_
  have := h v hv
  simp only [Function.comp_apply, List.length_take, List.length_drop]
  omega

/-- What the call leaves in `bytes` of the block it fills, before conversion to `int`: a
sixteenth other than the first adds to what is there. -/
def PutCall.storedBytes (b : CircBuffer) (call : PutCall) : ℤ :=
  if call.is16th = true ∧ b.nextBlockIn16th ≠ 0 then (b.block b.nextBlockIn).bytes + call.dlen
  else call.dlen

theorem PutCall.bytes_write {b : CircBuffer} {call : PutCall} (hin : call.InBlock b)
    (hw : call.write b = some (call.pendingOf b, b')) :
    (b'.block b.nextBlockIn).bytes = toInt (call.storedBytes b) := by
  -- the length the two copy loops end with, and what is made of it
  have hfill : ∀ pieces prop, ((b.fill pieces prop).block b.nextBlockIn).bytes
      = toInt (pieces.map List.length).sum := by
    intro pieces prop
    simp [fill, modifyBlock, copyPieces_snd]
  have hfill16 : ∀ store prop, ((b.fill16th store prop).block b.nextBlockIn).bytes
      = if b.nextBlockIn16th = 0 then toInt (store (b.block b.nextBlockIn).data).2
        else toInt ((b.block b.nextBlockIn).bytes + (store (b.block b.nextBlockIn).data).2) := by
    intro store prop
    by_cases h : b.nextBlockIn16th = 0 <;> simp [fill16th, modifyBlock, h]
  obtain rfl := write_eq hw
  cases call with
  | put data prop | putPscattered pv prop | putNowait data prop =>
    simp [filled, hfill, storedBytes, is16th, dlen]
  | putNowaitScattered data pv prop =>
    simp [filled, hfill, storedBytes, is16th, dlen, sum_length_gather hin.1]
  | put16thDpscattered zeroBadData pv prop =>
    have hlen : ∀ dst, (storeDpvecs zeroBadData b.nextBlockIn16th dst pv).2
        = (pv.map PutDpvec.vecLen).sum := by
      intro dst
      unfold storeDpvecs
      rw [foldl_dlen (fun dst v => v.storeStatus b.nextBlockIn16th
        (memcpy dst (v.destVecIdx + v.vecLen * b.nextBlockIn16th) (v.payload zeroBadData)))]
      simp
    simp only [filled, hfill16, hlen]
    by_cases h : b.nextBlockIn16th = 0 <;> simp [h, storedBytes, is16th, dlen]
  | put16thDpscatteredLost pv prop =>
    have hlen : ∀ dst, (zeroDpvecs b.nextBlockIn16th dst pv).2
        = (pv.map PutDpvec.vecLen).sum := by
      intro dst
      unfold zeroDpvecs
      rw [foldl_dlen (fun dst v =>
        memcpy dst (v.destVecIdx + v.vecLen * b.nextBlockIn16th) (List.replicate v.vecLen 0))]
      simp
    simp only [filled, hfill16, hlen]
    by_cases h : b.nextBlockIn16th = 0 <;> simp [h, storedBytes, is16th, dlen]

/-- The put does not overfill its block: what it leaves in `bytes` is at most `block_size`,
and fits `int`. -/
def BytesFit (s : CircSys) : CircAction → Prop
  | .write call => call.storedBytes s.buf ≤ s.buf.blockSize ∧ call.storedBytes s.buf < 2 ^ 31
  | _ => True

instance (s : CircSys) : (a : CircAction) → Decidable (BytesFit s a)
  | .write _ => inferInstanceAs (Decidable (_ ∧ _))
  | .publish | .addConsumer _ | .addTransientConsumer .. | .deleteConsumer _
  | .get _ | .getNowait _ | .get16th _ | .unlock _ | .unlock16th _ => .isTrue trivial

/-- Every block records a number of bytes that its space can hold. -/
def BytesInRange (b : CircBuffer) : Prop :=
  ∀ n, 0 ≤ (b.block n).bytes ∧ (b.block n).bytes ≤ b.blockSize

/-- What a step may not change, and the bytes its blocks record. -/
structure Sized (blocks blockSize : ℕ) (b : CircBuffer) : Prop where
  blocks_eq : b.blocks = blocks
  blockSize_eq : b.blockSize = blockSize
  producers_eq : b.producers = 1
  bytes : BytesInRange b

/-- A number of bytes that fits `int` is kept by the conversion. -/
theorem toInt_of_lt {n : ℤ} (h0 : 0 ≤ n) (h : n < 2 ^ 31) : toInt n = n := by
  unfold toInt
  rw [Int.bmod_eq_of_le]
  · norm_num
    omega
  · norm_num
    omega

theorem bytes_eq_of_content {b : CircBuffer} (h : ∀ n, (b'.block n).content = (b.block n).content)
    (n : ℕ) : (b'.block n).bytes = (b.block n).bytes := congrArg Item.bytes (h n)

theorem Sized.of_content {blocks blockSize : ℕ} {b : CircBuffer} (h : Sized blocks blockSize b)
    (hb : b'.blocks = b.blocks) (hs : b'.blockSize = b.blockSize)
    (hp : b'.producers = b.producers) (hc : ∀ n, (b'.block n).content = (b.block n).content) :
    Sized blocks blockSize b' where
  blocks_eq := hb.trans h.blocks_eq
  blockSize_eq := hs.trans h.blockSize_eq
  producers_eq := hp.trans h.producers_eq
  bytes n := by
    rw [bytes_eq_of_content hc, hs]
    exact h.bytes n

theorem Sized.publish {blocks blockSize : ℕ} {b : CircBuffer} (h : Sized blocks blockSize b)
    (p : Pending) : Sized blocks blockSize (p.publish b) := by
  refine h.of_content ?_ ?_ ?_ (content_publish b p)
  all_goals
    cases p with
    | whole nbi => rfl
    | sixteenth nbi nbi16th =>
      obtain ⟨hblocks, hsize, _, _, _, hprod, _⟩ := b.publish16th_frame nbi nbi16th
      assumption
    | dropped => rfl

theorem Sized.step {blocks blockSize : ℕ} {s t : CircSys} {a : CircAction} {e : CircEvent}
    (hk : Bookkeeping s.buf) (h : Sized blocks blockSize s.buf) (hfit : BytesFit s a)
    (hst : s.step a = some (e, t)) : Sized blocks blockSize t.buf := by
  cases CircSys.step_moves hst with
  | drop call hp h16 => exact h
  | fill call b' hp hin hw he hf =>
    have hbytes := PutCall.bytes_write hin hw
    obtain ⟨hle, hint⟩ := hfit
    -- the sum does not go through the sign bit, so the conversion to `int` keeps it
    have hnn : 0 ≤ call.storedBytes s.buf := by
      have := (h.bytes s.buf.nextBlockIn).1
      unfold PutCall.storedBytes
      split <;> omega
    rw [toInt_of_lt hnn hint] at hbytes
    have hother := fun n (hn : n ≠ s.buf.nextBlockIn) => hf.block_of_ne hn
    obtain ⟨blk, _, _, rfl⟩ := hf
    refine ⟨h.blocks_eq, h.blockSize_eq, h.producers_eq, fun n => ?_⟩
    by_cases hn : n = s.buf.nextBlockIn
    · subst hn
      rw [hbytes]
      exact ⟨hnn, hle⟩
    · rw [hother n hn]
      exact h.bytes n
  | publish p hp => exact h.publish p
  | idle => exact h
  | join fast i hc hi => exact h.of_content rfl rfl rfl fun _ => rfl
  | transient gps delta r hr =>
    rcases addTransientConsumer_cases hk.blocks_pos hr with
      ⟨_, hb⟩ | ⟨i, first, m, _, _, _, _, hm, hb⟩
    · simp only [hb]
      exact h
    · simp only [hb]
      exact h.of_content rfl rfl rfl hm.content
  | leave i hi => exact h.of_content rfl rfl rfl (content_deleteConsumer s.buf i)
  | get16th i nb b' hi hn =>
    obtain ⟨_, _, rfl⟩ := get16th_eq_some hn
    exact h.of_content rfl rfl rfl fun _ => rfl
  | unlock i hi => exact h.of_content rfl rfl rfl (content_unlock s.buf i)
  | unlock16th i hi => exact h.of_content rfl rfl rfl (content_unlock16th s.buf i)

theorem sized_bufferMalloc (consumers blocks blockSize : ℕ) (blockPeriod : ℤ) :
    Sized blocks (adjustBlockSize blockSize)
      (bufferMalloc consumers blocks blockSize blockPeriod) where
  blocks_eq := rfl
  blockSize_eq := rfl
  producers_eq := rfl
  bytes n := by simp [bufferMalloc]

/-! ## The run-time check -/

/-- The consumer loop of `invariant( 1 )` takes the bits of `cmask` off `consumers`. -/
theorem countConsumers_eq {b : CircBuffer} (h : Bookkeeping b) :
    b.countConsumers = some (b.consumers - b.cmask.bits.card) := by
  -- the loop up to bit `k`; it never stops early, since every `next_block_out` is in range
  have hloop : ∀ k, (List.range k).foldl (fun acc i => acc.bind fun consumers =>
      if b.cmask.get i then
        if b.nextBlockOut i > b.blocks then none else some (consumers - 1)
      else some consumers) (some b.consumers)
      = some (b.consumers - ((Finset.range k).filter fun i => b.cmask.get i = true).card) := by
    intro k
    induction k with
    | zero => simp
    | succ k ih =>
      have hout := h.nextBlockOut_lt k
      rw [List.range_succ, List.foldl_append, ih, Finset.range_add_one, Finset.filter_insert]
      cases hg : b.cmask.get k
      · simp [hg]
      · simp only [List.foldl_cons, List.foldl_nil, Option.bind_some, hg, if_true,
          if_neg (show ¬ b.nextBlockOut k > b.blocks by omega)]
        rw [Finset.card_insert_of_notMem (by simp)]
        push_cast
        congr 1
        omega
  -- no bit from `MAX_CONSUMERS` on is up
  have hbits : ((Finset.range maxConsumers).filter fun i => b.cmask.get i = true)
      = b.cmask.bits := by
    ext i
    simp only [Finset.mem_filter, Finset.mem_range, CMask.mem_bits, and_iff_right_iff_imp]
    exact fun hi => h.tcmask_lt i (by simpa using h.cmask_get hi)
  unfold countConsumers
  rw [hloop, hbits]

/-- With the books kept and every byte count in range, `invariant( 1 )` passes. -/
theorem invariant_of_bookkeeping {b : CircBuffer} (h : Bookkeeping b) (hbytes : BytesInRange b)
    (hblocks : b.blocks ≤ maxBlocks) (hprod : b.producers = 1) : b.invariant true = true := by
  have hpos : 0 < (b.blocks ||| b.blockSize) := by
    have := h.blocks_pos
    have := Nat.left_le_or (n := b.blocks) (m := b.blockSize)
    omega
  have hcard : b.tcmask.bits.card ≤ maxConsumers := by
    have hsub : b.tcmask.bits ⊆ Finset.range maxConsumers :=
      fun i hi => Finset.mem_range.mpr (h.tcmask_lt i hi)
    simpa using Finset.card_le_card hsub
  have hcount : b.countConsumers = some b.transientConsumers := by
    rw [countConsumers_eq h, h.transient_eq, h.consumers_eq,
      Finset.card_sdiff_of_subset h.cmask_sub]
    have := Finset.card_le_card h.cmask_sub
    congr 1
    omega
  have hcons := h.consumers_eq
  have hin := h.nextBlockIn_lt
  have hbusy : ∀ n < b.blocks, ((b.block n).busy.differenceWith b.tcmask).empty = true := by
    intro n hn
    rw [CMask.empty_iff]
    intro i
    rw [CMask.get_differenceWith]
    cases hg : (b.block n).busy.get i
    · rfl
    · have := h.busy_sub n hn (by simpa using hg)
      rw [CMask.mem_bits] at this
      simp [this]
  simp only [invariant, hcount, hprod, Bool.and_eq_true, decide_eq_true_eq, Bool.not_true,
    Bool.false_or, beq_self_eq_true, List.all_eq_true, List.mem_range]
  exact ⟨⟨⟨⟨⟨hpos, by decide⟩, by omega⟩, trivial, by omega⟩, hblocks⟩,
    fun n hn => ⟨hbytes n, hbusy n hn⟩⟩

/-! ## Every reachable state -/

/-- The books are kept in every reachable state, the search for a free consumer number stops
below `MAX_CONSUMERS` whenever there is room, and `invariant( 1 )` passes in every state
reached without a put that overfills its block. -/
theorem bookkeeping_of_run {consumers blocks blockSize : ℕ} {blockPeriod : ℤ}
    (hc : consumers ≤ maxConsumers) (hpos : 0 < blocks) (hmax : blocks ≤ maxBlocks)
    {as : List CircAction} {tr : List CircEvent} {s : CircSys}
    (h : run CircSys.step (.start (bufferMalloc consumers blocks blockSize blockPeriod)) as
      = some (tr, s)) :
    Bookkeeping s.buf ∧
      (s.buf.consumers < maxConsumers →
        ∃ i, s.buf.tcmask.firstFree = some i ∧ i < maxConsumers) ∧
      (run (restrict BytesFit CircSys.step)
          (.start (bufferMalloc consumers blocks blockSize blockPeriod)) as = some (tr, s) →
        s.buf.invariant true = true) := by
  have h0 := bookkeeping_bufferMalloc hc hpos blockSize blockPeriod
  have hbook : Bookkeeping s.buf :=
    run_invariant (fun s => Bookkeeping s.buf) (fun _ _ _ _ _ hb hst => hb.step hst) h0 h
  refine ⟨hbook, fun hlt => ?_, fun hr => ?_⟩
  · obtain ⟨i, hi, hbound, _⟩ := hbook.exists_firstFree hlt
    exact ⟨i, hi, hbound⟩
  · have hsized : Bookkeeping s.buf ∧ Sized blocks (adjustBlockSize blockSize) s.buf := by
      -- the byte counts need the books, so the two are kept together
      refine run_invariant
        (fun s => Bookkeeping s.buf ∧ Sized blocks (adjustBlockSize blockSize) s.buf)
        ?_ ⟨h0, sized_bufferMalloc ..⟩ hr
      rintro s a - e t ⟨hk, hs⟩ hst
      obtain ⟨hfit, hst⟩ := restrict_eq_some.mp hst
      exact ⟨hk.step hst, hs.step hk hfit hst⟩
    obtain ⟨-, hs⟩ := hsized
    exact invariant_of_bookkeeping hbook hs.bytes (hs.blocks_eq ▸ hmax) hs.producers_eq

/-- One byte of one channel, put at the start of the block. -/
private def oneByteVec : PutDpvec := ⟨[1], 0, 1, 0, noStatus, 1⟩

/-- A sixteenth, then a whole block, then the next sixteenth of what is again block 0. -/
private def overfill : List CircAction :=
  [.write (.put16thDpscattered false [oneByteVec] none), .publish,
   .write (.put (List.replicate 16 7) none), .publish,
   .write (.put16thDpscattered false [oneByteVec] none), .publish]

/-- Each put of `overfill` writes inside its block, and yet the block ends up with 17 bytes of
16, which `invariant( 1 )` rejects. -/
theorem overfill_breaks_invariant :
    (run CircSys.step (.start (bufferMalloc 0 1 16 1)) overfill).map
      (fun r => (r.2.buf.block 0).bytes) = some 17 ∧
    (run CircSys.step (.start (bufferMalloc 0 1 16 1)) overfill).map
      (fun r => r.2.buf.invariant true) = some false := by
  decide +kernel

/-- A fast consumer that comes, reads a sixteenth and goes, beside an ordinary put. -/
private def comeAndGo : List CircAction :=
  [.addConsumer true, .write (.put16thDpscattered false [oneByteVec] none), .publish,
   .get16th 1, .addConsumer false, .deleteConsumer 1,
   .write (.put [1, 2, 3] none), .publish, .get 0, .unlock 0]

theorem bookkeeping_of_run_comeAndGo :
    ∃ tr s, run CircSys.step (.start (bufferMalloc 1 2 16 1)) comeAndGo = some (tr, s) ∧
      Bookkeeping s.buf ∧ (∃ i, s.buf.tcmask.firstFree = some i ∧ i < maxConsumers) ∧
      s.buf.invariant true = true := by
  have hsome : (run (restrict BytesFit CircSys.step) (.start (bufferMalloc 1 2 16 1))
      comeAndGo).isSome = true := by
    decide +kernel
  have hroom : (run CircSys.step (.start (bufferMalloc 1 2 16 1)) comeAndGo).map
      (fun r => r.2.buf.consumers) = some 2 := by
    decide +kernel
  obtain ⟨⟨tr, s⟩, hfit⟩ := Option.isSome_iff_exists.mp hsome
  have hrun := run_of_restrict hfit
  rw [hrun, Option.map_some, Option.some.injEq] at hroom
  obtain ⟨hbook, hfree, hinv⟩ :=
    bookkeeping_of_run (by decide) (by decide) (by decide) hrun
  refine ⟨tr, s, hrun, hbook, hfree ?_, hinv hfit⟩
  simp only at hroom
  rw [hroom]
  decide

end AdvLigoRts.Daqd
