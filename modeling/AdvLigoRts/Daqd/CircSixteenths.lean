import AdvLigoRts.Daqd.CircOwnership

/-!
# The sixteenths of a second arrive in order

The fast path of `circ_buffer`: the producer publishes a block one sixteenth at a time, and a fast
consumer follows it with `get16th`, as `net_writer_c::producer` does: it calls `get16th` until the
sixteenth it gets is the last one of its block, and then `unlock16th` once.
-/

namespace AdvLigoRts.Daqd

open PvLib CircBuffer

/-! ## Positions -/

/-- The sixteenth `m` places after sixteenth `k` of block `b`. -/
def sixteenthAt (blocks b k m : ℕ) : ℕ × ℕ := (ringAt blocks b ((k + m) / 16), (k + m) % 16)

theorem sixteenthAt_zero {blocks b k : ℕ} (hb : b < blocks) (hk : k < 16) :
    sixteenthAt blocks b k 0 = (b, k) := by
  simp [sixteenthAt, Nat.div_eq_of_lt hk, ringAt_zero hb, Nat.mod_eq_of_lt hk]

/-- How the producer moves from one sixteenth to the next. -/
theorem sixteenthAt_succ {blocks b k m nbi k' : ℕ} (h : sixteenthAt blocks b k m = (nbi, k')) :
    sixteenthAt blocks b k (m + 1)
      = (if k' = 15 then (nbi + 1) % blocks else nbi, (k' + 1) % 16) := by
  simp only [sixteenthAt, Prod.mk.injEq] at h
  obtain ⟨hb, hk⟩ := h
  simp only [sixteenthAt, Prod.mk.injEq]
  refine ⟨?_, by omega⟩
  -- after the last sixteenth the count goes on in the next block
  split
  · rw [← hb, succ_ringAt]
    congr 1
    omega
  · rw [← hb]
    congr 1
    omega

theorem sixteenthAt_next_block (blocks b m : ℕ) :
    sixteenthAt blocks ((b + 1) % blocks) 0 m = sixteenthAt blocks b 16 m := by
  simp only [sixteenthAt, ringAt_succ_start, Prod.mk.injEq]
  refine ⟨?_, by omega⟩
  congr 1
  omega

theorem sixteenthAt_succ_start (blocks b k m : ℕ) :
    sixteenthAt blocks b (k + 1) m = sixteenthAt blocks b k (m + 1) := by
  simp only [sixteenthAt, show k + 1 + m = k + (m + 1) by omega]

/-- The number `get16th` returns is taken apart into the block and the sixteenth. -/
theorem split16th_or {nbo nbo16th : ℕ} (h : nbo16th < 16) :
    split16th (nbo <<< 4 ||| nbo16th) = (nbo, nbo16th) := by
  have hor : nbo <<< 4 ||| nbo16th = nbo * 16 + nbo16th := by
    rw [← Nat.shiftLeft_add_eq_or_of_lt (show nbo16th < 2 ^ 4 from h), Nat.shiftLeft_eq]
  have hand : (nbo * 16 + nbo16th) &&& 0xf = (nbo * 16 + nbo16th) % 16 :=
    Nat.and_two_pow_sub_one_eq_mod _ 4
  simp only [split16th, hor, hand, Nat.shiftRight_eq_div_pow, Prod.mk.injEq]
  omega

/-! ## The protocol -/

def gotLast : Option ℕ → Bool
  | none => false
  | some nb => (split16th nb).2 == 15

/-- Whole blocks are not put; fast consumers call `get16th` until they have the last
sixteenth of a block, then `unlock16th`, and leave `unlock` to the others. -/
def FastProtocol (s : CircSys) : CircAction → Prop
  | .write call => call.is16th = true
  | .get16th i => s.buf.cmask16th.get i = true ∧ gotLast (s.got16th i) = false
  | .unlock16th i => s.buf.cmask16th.get i = true ∧ gotLast (s.got16th i) = true
  | .unlock i => s.buf.cmask16th.get i = false
  | _ => True

instance (s : CircSys) : (a : CircAction) → Decidable (FastProtocol s a)
  | .write call => inferInstanceAs (Decidable (call.is16th = true))
  | .publish | .addConsumer _ | .addTransientConsumer .. | .deleteConsumer _
  | .get _ | .getNowait _ => .isTrue trivial
  | .get16th _ => inferInstanceAs (Decidable (_ ∧ _))
  | .unlock i => inferInstanceAs (Decidable (s.buf.cmask16th.get i = false))
  | .unlock16th _ => inferInstanceAs (Decidable (_ ∧ _))

/-- The system whose users keep to the protocol. -/
abbrev fastStep := restrict FastProtocol CircSys.step

namespace CircBuffer

/-- The position of the producer, counted in sixteenths from `next_block_out` of consumer
`i`. -/
def written (b : CircBuffer) (i : ℕ) : ℕ := 16 * b.pendingCount i + b.nextBlockIn16th

/-- The sixteenths published and not yet got by consumer `i`. -/
def pending16ths (b : CircBuffer) (i : ℕ) : List (ℕ × ℕ) :=
  (List.range (b.written i - b.nextBlockOut16th i)).map
    (sixteenthAt b.blocks (b.nextBlockOut i) (b.nextBlockOut16th i))

end CircBuffer

/-! ## A fast consumer and its marks -/

/-- What holds between the buffer, fast consumer `i` and the last number it got. -/
structure FastReader (b : CircBuffer) (i : ℕ) (got : Option ℕ) : Prop where
  owns : b.Owns i (b.pendingCount i)
  room : b.pendingCount i = b.blocks → b.nextBlockIn16th = 0
  out_le : b.nextBlockOut16th i ≤ 16
  out_le_written : b.nextBlockOut16th i ≤ b.written i
  marks : ∃ lo ≤ b.nextBlockOut16th i, ∀ d < b.blocks, ∀ j < 16,
    ((b.block (ringAt b.blocks (b.nextBlockOut i) d)).busy16th j).get i
      = decide (lo ≤ 16 * d + j ∧ 16 * d + j < b.written i)
  got_last : gotLast got = decide (b.nextBlockOut16th i = 16)
  got_block : ∀ nb, got = some nb → (split16th nb).1 = b.nextBlockOut i

/-- Nothing of the fast path that concerns consumer `i` differs between the two buffers. -/
structure FastAlike (i : ℕ) (b b' : CircBuffer) : Prop where
  blocks_eq : b'.blocks = b.blocks
  nextBlockIn_eq : b'.nextBlockIn = b.nextBlockIn
  nextBlockIn16th_eq : b'.nextBlockIn16th = b.nextBlockIn16th
  nextBlockOut_eq : b'.nextBlockOut i = b.nextBlockOut i
  nextBlockOut16th_eq : b'.nextBlockOut16th i = b.nextBlockOut16th i
  busy_eq : ∀ n < b.blocks, (b'.block n).busy.get i = (b.block n).busy.get i
  busy16th_eq : ∀ n < b.blocks, ∀ j < 16,
    ((b'.block n).busy16th j).get i = ((b.block n).busy16th j).get i

namespace FastAlike

variable {i k : ℕ} {b b' : CircBuffer}

theorem refl (i : ℕ) (b : CircBuffer) : FastAlike i b b :=
  ⟨rfl, rfl, rfl, rfl, rfl, fun _ _ => rfl, fun _ _ _ _ => rfl⟩

theorem owns (hs : FastAlike i b b') (h : b.Owns i k) : b'.Owns i k := by
  unfold Owns
  rw [hs.blocks_eq, hs.nextBlockIn_eq, hs.nextBlockOut_eq]
  exact Marked.congr h hs.busy_eq

theorem written_eq (hs : FastAlike i b b') (h : b.Owns i k) : b'.written i = b.written i := by
  unfold written
  rw [(hs.owns h).pendingCount_eq, h.pendingCount_eq, hs.nextBlockIn16th_eq]

theorem pending16ths_eq (hs : FastAlike i b b') (h : b.Owns i k) :
    b'.pending16ths i = b.pending16ths i := by
  unfold pending16ths
  rw [hs.written_eq h, hs.nextBlockOut16th_eq, hs.nextBlockOut_eq, hs.blocks_eq]

theorem reader {got : Option ℕ} (hs : FastAlike i b b') (h : FastReader b i got) :
    FastReader b' i got := by
  have howns := hs.owns h.owns
  have hcount := howns.pendingCount_eq
  have hwritten := hs.written_eq h.owns
  refine ⟨hcount ▸ howns, ?_, ?_, ?_, ?_, ?_, ?_⟩
  · rw [hcount, hs.blocks_eq, hs.nextBlockIn16th_eq]
    exact h.room
  · rw [hs.nextBlockOut16th_eq]
    exact h.out_le
  · rw [hs.nextBlockOut16th_eq, hwritten]
    exact h.out_le_written
  · obtain ⟨lo, hlo, hm⟩ := h.marks
    refine ⟨lo, hs.nextBlockOut16th_eq ▸ hlo, fun d hd j hj => ?_⟩
    rw [hs.blocks_eq] at hd ⊢
    rw [hs.nextBlockOut_eq, hwritten, hs.busy16th_eq _ (ringAt_lt (by omega) _ _) j hj]
    exact hm d hd j hj
  · rw [hs.nextBlockOut16th_eq]
    exact h.got_last
  · rw [hs.nextBlockOut_eq]
    exact h.got_block

theorem filled (hf : b.Filled b') : FastAlike i b b' := by
  obtain ⟨hblocks, _, hin, hin16, hout, hout16, _⟩ := hf.frame
  exact ⟨hblocks, hin, hin16, congrFun hout i, congrFun hout16 i,
    fun n _ => by rw [hf.busy], fun n _ j _ => by rw [hf.busy16th]⟩

/-- What the whole-block view and the marks on the sixteenths tell together. -/
theorem of_seenAlike (hs : SeenAlike i b b') (hin16 : b'.nextBlockIn16th = b.nextBlockIn16th)
    (hout16 : b'.nextBlockOut16th i = b.nextBlockOut16th i)
    (hbusy16 : ∀ n < b.blocks, ∀ j < 16,
      ((b'.block n).busy16th j).get i = ((b.block n).busy16th j).get i) : FastAlike i b b' :=
  ⟨hs.blocks_eq, hs.nextBlockIn_eq, hin16, hs.nextBlockOut_eq, hout16, hs.busy_eq, hbusy16⟩

theorem withConsumer (fast : Bool) {j : ℕ} (hij : i ≠ j) :
    FastAlike i b (b.withConsumer fast j) := by
  refine of_seenAlike (seenAlike_withConsumer b fast hij) rfl ?_ fun _ _ _ _ => rfl
  cases fast <;> simp [CircBuffer.withConsumer, hij]

theorem deleteConsumer {j : ℕ} (hj : j < CMask.numBits) (hij : i ≠ j) :
    FastAlike i b (b.deleteConsumer j) := by
  refine of_seenAlike (seenAlike_deleteConsumer b hj hij) rfl rfl fun n hn k _ => ?_
  rw [busy16th_deleteConsumer, if_pos hn]
  simp [hj, hij]

theorem unlock {j : ℕ} (hj : j < CMask.numBits) (hij : i ≠ j) : FastAlike i b (b.unlock j) :=
  of_seenAlike (seenAlike_unlock b hj hij) rfl rfl fun n _ k _ => by rw [busy16th_unlock]

theorem unlock16th {j : ℕ} (hj : j < CMask.numBits) (hij : i ≠ j) :
    FastAlike i b (b.unlock16th j) := by
  refine of_seenAlike (seenAlike_unlock16th b hj hij) rfl ?_ fun n _ k _ => ?_
  · simp [CircBuffer.unlock16th, modifyBlock, hij]
  · rw [busy16th_unlock16th]
    split
    · simp [hj, hij]
    · rfl

theorem get16th {j nb : ℕ} (hij : i ≠ j) (hg : b.get16th j = some (nb, b')) :
    FastAlike i b b' := by
  obtain ⟨_, _, rfl⟩ := get16th_eq_some hg
  exact ⟨rfl, rfl, rfl, rfl, by simp [hij], fun _ _ => rfl, fun _ _ _ _ => rfl⟩

theorem addTransientConsumer {gps delta : ℤ} {r : TransientResult} (hb : Bookkeeping b)
    (hi : b.cmask16th.get i = true) (hr : b.addTransientConsumer gps delta = some r) :
    FastAlike i b r.buf := by
  rcases addTransientConsumer_cases hb.blocks_pos hr with
    ⟨_, hbuf⟩ | ⟨j, first, m, hc, hj, _, _, hm, hbuf⟩
  · rw [hbuf]
    exact refl i b
  · have hne : i ≠ j := by
      rintro rfl
      have hfree := (hb.firstFree_lt hc hj).2
      rw [hb.cmask_get (hb.cmask16th_get hi)] at hfree
      cases hfree
    rw [hbuf]
    refine ⟨rfl, rfl, rfl, by simp [hne], rfl, fun n _ => ?_, fun n _ k _ => by rw [hm.busy16th]⟩
    rw [Bool.eq_iff_iff]
    constructor
    · intro hbit
      exact (hm.busy_le n i hbit).resolve_right hne
    · exact hm.busy_mono n i

end FastAlike

namespace FastReader

variable {i : ℕ} {b : CircBuffer} {got : Option ℕ}

/-- One more sixteenth published is one more sixteenth to get. -/
theorem pending16ths_append {b' : CircBuffer} (h : FastReader b i got)
    (hblocks : b'.blocks = b.blocks) (hout : b'.nextBlockOut i = b.nextBlockOut i)
    (hout16 : b'.nextBlockOut16th i = b.nextBlockOut16th i)
    (hw : b'.written i = b.written i + 1) (hin : b.nextBlockIn16th < 16) :
    b'.pending16ths i = b.pending16ths i ++ [(b.nextBlockIn, b.nextBlockIn16th)] := by
  have hle := h.out_le_written
  have hend := Marked.end_eq h.owns
  unfold pending16ths
  rw [hblocks, hout, hout16, hw, Nat.succ_sub hle, List.range_succ, List.map_append]
  -- the position of the producer, taken apart into block and sixteenth
  have hblock : b.written i / 16 = b.pendingCount i := by
    unfold written
    omega
  have hsixteenth : b.written i % 16 = b.nextBlockIn16th := by
    unfold written
    omega
  simp [sixteenthAt, Nat.add_sub_cancel' hle, hblock, hsixteenth, hend]

/-- Publishing a sixteenth marks it for the consumer, and the last one its block as well. -/
theorem publish16th (h : FastReader b i got) (hc16 : b.cmask16th.get i = true)
    (hc : b.cmask.get i = true) (hin : b.nextBlockIn16th < 16)
    (he : (b.block b.nextBlockIn).busy.empty = true) :
    FastReader (b.publish16th b.nextBlockIn b.nextBlockIn16th) i got ∧
      (b.publish16th b.nextBlockIn b.nextBlockIn16th).pending16ths i
        = b.pending16ths i ++ [(b.nextBlockIn, b.nextBlockIn16th)] := by
  obtain ⟨hblocks, _, hout, hout16, hin16, _⟩ :=
    b.publish16th_frame b.nextBlockIn b.nextBlockIn16th
  have hnext := nextBlockIn_publish16th b b.nextBlockIn b.nextBlockIn16th
  have hbusy := busy_publish16th b b.nextBlockIn b.nextBlockIn16th
  have hbusy16 := busy16th_publish16th b b.nextBlockIn b.nextBlockIn16th
  generalize b.publish16th b.nextBlockIn b.nextBlockIn16th = b' at *
  have hfree := CMask.get_of_empty _ he i
  -- the block being filled is unmarked, so the consumer does not own all of them
  have hroom : b.pendingCount i < b.blocks := Marked.lt_of_end h.owns hfree
  -- with the last sixteenth the block joins the ones the consumer owns
  have howns : b'.Owns i (if b.nextBlockIn16th = 15 then b.pendingCount i + 1
      else b.pendingCount i) := by
    unfold Owns
    rw [hblocks, hout, hnext]
    split
    · refine Marked.push h.owns hfree fun n _ => ?_
      rw [hbusy]
      by_cases hn : n = b.nextBlockIn <;> simp [*]
    · refine Marked.congr h.owns fun n _ => ?_
      rw [hbusy]
      simp [*]
  have hcount := howns.pendingCount_eq
  have hw : b'.written i = b.written i + 1 := by
    unfold written
    rw [hcount, hin16]
    split <;> omega
  refine ⟨⟨hcount ▸ howns, ?_, ?_, ?_, ?_, ?_, ?_⟩,
    h.pending16ths_append hblocks (congrFun hout i) (congrFun hout16 i) hw hin⟩
  · rw [hcount, hblocks, hin16]
    split <;> omega
  · rw [hout16]
    exact h.out_le
  · rw [hout16, hw]
    exact h.out_le_written.trans (Nat.le_succ _)
  · obtain ⟨lo, hlo, hm⟩ := h.marks
    have hlow := hlo.trans h.out_le_written
    refine ⟨lo, hout16 ▸ hlo, fun d hd j hj => ?_⟩
    rw [hblocks] at hd ⊢
    rw [hout, hw, hbusy16]
    -- the block at `next_block_in` is the one `pendingCount` places on, and no other
    have hwhere : ringAt b.blocks (b.nextBlockOut i) d = b.nextBlockIn ↔ d = b.pendingCount i := by
      rw [← Marked.end_eq h.owns, ringAt_inj (Marked.start_lt h.owns) hd hroom]
    simp only [hwhere]
    split
    · -- the sixteenth just published
      rename_i hdj
      have : 16 * d + j = b.written i := by rw [written, hdj.1, hdj.2]
      rw [hc16, eq_comm, decide_eq_true_eq]
      omega
    · rename_i hdj
      rw [hm d hd j hj, decide_eq_decide]
      unfold written at *
      omega
  · rw [hout16]
    exact h.got_last
  · rw [hout]
    exact h.got_block

/-- The consumer may call `get16th` only while `next_block_out_16th` is a proper index. -/
theorem out_lt (h : FastReader b i got) (hg : gotLast got = false) :
    b.nextBlockOut16th i < 16 := by
  have hle := h.out_le
  have hne : b.nextBlockOut16th i ≠ 16 := by simpa [h.got_last] using hg
  omega

/-- `get16th` finds its mark exactly when there is something left to get. -/
theorem busy16th_out (h : FastReader b i got) (hg : gotLast got = false) :
    ((b.block (b.nextBlockOut i)).busy16th (b.nextBlockOut16th i)).get i
      = decide (b.nextBlockOut16th i < b.written i) := by
  obtain ⟨lo, hlo, hm⟩ := h.marks
  have hone := hm 0 (Marked.ring_pos h.owns) _ (h.out_lt hg)
  rw [ringAt_zero (Marked.start_lt h.owns)] at hone
  rw [hone, decide_eq_decide]
  omega

/-- `get16th` returns the next sixteenth and moves on by one. -/
theorem get16th {nb : ℕ} {b' : CircBuffer} (h : FastReader b i got) (hg : gotLast got = false)
    (hget : b.get16th i = some (nb, b')) :
    FastReader b' i (some nb) ∧ split16th nb = (b.nextBlockOut i, b.nextBlockOut16th i) ∧
      b.pending16ths i = split16th nb :: b'.pending16ths i := by
  have hlt := h.out_lt hg
  obtain ⟨hbit, rfl, rfl⟩ := get16th_eq_some hget
  have hmore : b.nextBlockOut16th i < b.written i := by
    rw [h.busy16th_out hg] at hbit
    exact of_decide_eq_true hbit
  have hsplit := @split16th_or (b.nextBlockOut i) _ hlt
  refine ⟨⟨h.owns, h.room, ?_, ?_, ?_, ?_, ?_⟩, hsplit, ?_⟩
  · simp only [Function.update_self]
    omega
  · simp only [Function.update_self]
    exact hmore
  · obtain ⟨lo, hlo, hm⟩ := h.marks
    exact ⟨lo, by simpa using hlo.trans (Nat.le_succ _), hm⟩
  · simp only [gotLast, hsplit, Function.update_self]
    rw [Bool.eq_iff_iff, beq_iff_eq, decide_eq_true_eq]
    omega
  · intro nb hnb
    rw [← Option.some.inj hnb, hsplit]
  · rw [hsplit, ← sixteenthAt_zero (Marked.start_lt h.owns) hlt]
    unfold pending16ths
    obtain ⟨n, hn⟩ : ∃ n, b.written i - b.nextBlockOut16th i = n + 1 :=
      ⟨b.written i - b.nextBlockOut16th i - 1, by omega⟩
    have hn' : b.written i - (b.nextBlockOut16th i + 1) = n := by omega
    simp only [Function.update_self]
    rw [hn, List.range_succ_eq_map, List.map_cons, List.map_map]
    change _ = _ :: (List.range (b.written i - (b.nextBlockOut16th i + 1))).map _
    rw [hn']
    refine congrArg _ (List.map_congr_left fun m _ => ?_)
    rw [sixteenthAt_succ_start]
    rfl

theorem busy_of_gotLast (h : FastReader b i got) (hin : b.nextBlockIn16th < 16)
    (hg : gotLast got = true) : (b.block (b.nextBlockOut i)).busy.get i = true := by
  have hlast : b.nextBlockOut16th i = 16 := by simpa [h.got_last] using hg
  have hle := h.out_le_written
  rw [Marked.start_eq h.owns, decide_eq_true_eq]
  -- sixteen sixteenths got means that at least one whole block was published
  unfold written at hle
  omega

/-- `unlock16th` gives the block up, and the next one starts from its first sixteenth. -/
theorem unlock16th (h : FastReader b i got) (hi : i < CMask.numBits)
    (hin : b.nextBlockIn16th < 16) (hg : gotLast got = true) :
    FastReader (b.unlock16th i) i none ∧
      (b.unlock16th i).pending16ths i = b.pending16ths i := by
  have hlast : b.nextBlockOut16th i = 16 := by simpa [h.got_last] using hg
  have hbusy := h.busy_of_gotLast hin hg
  have hout : (b.unlock16th i).nextBlockOut i = (b.nextBlockOut i + 1) % b.blocks := by
    simp [CircBuffer.unlock16th, modifyBlock]
  have hout16 : (b.unlock16th i).nextBlockOut16th i = 0 := by
    simp [CircBuffer.unlock16th, modifyBlock]
  have howns : (b.unlock16th i).Owns i (b.pendingCount i - 1) := by
    unfold Owns
    rw [hout]
    refine Marked.pop h.owns hbusy fun n _ => ?_
    rw [busy_unlock16th]
    split
    · simp [hi]
    · rfl
  have hcount := howns.pendingCount_eq
  have hpos : 0 < b.pendingCount i := by simpa [Marked.start_eq h.owns] using hbusy
  have hin16 : (b.unlock16th i).nextBlockIn16th = b.nextBlockIn16th := rfl
  have hblocks : (b.unlock16th i).blocks = b.blocks := rfl
  -- seen from the next block, everything is sixteen positions nearer
  have hw : (b.unlock16th i).written i + 16 = b.written i := by
    unfold written
    rw [hcount, hin16]
    omega
  have hle := Marked.le h.owns
  refine ⟨⟨hcount ▸ howns, ?_, ?_, ?_, ?_, ?_, ?_⟩, ?_⟩
  · rw [hcount, hblocks]
    omega
  · omega
  · omega
  · obtain ⟨lo, hlo, hm⟩ := h.marks
    refine ⟨0, Nat.zero_le _, fun d hd j hj => ?_⟩
    rw [hblocks] at hd ⊢
    rw [hout, ringAt_succ_start, busy16th_unlock16th]
    have hroom := h.room
    rcases Nat.lt_or_ge (d + 1) b.blocks with hlt | hge
    · have hne : ringAt b.blocks (b.nextBlockOut i) (d + 1) ≠ b.nextBlockOut i := by
        intro heq
        have hstart := Marked.start_lt h.owns
        have := (ringAt_inj hstart hlt (by omega)).mp (heq.trans (ringAt_zero hstart).symm)
        omega
      rw [if_neg hne, hm _ hlt j hj, decide_eq_decide]
      omega
    · -- round the ring once: the block just given up, with no mark left
      have hlastd : d + 1 = b.blocks := by omega
      rw [hlastd, ringAt_self (Marked.start_lt h.owns), if_pos rfl, CMask.get_clear _ hi]
      simp only [decide_true, Bool.not_true, Bool.false_and]
      rw [eq_comm, decide_eq_false_iff_not]
      have hwb : b.written i = 16 * b.pendingCount i + b.nextBlockIn16th := rfl
      omega
  · rw [hout16]
    rfl
  · intro nb hnb
    cases hnb
  · unfold pending16ths
    rw [hout, hout16, hblocks, hlast, show b.written i - 16 = (b.unlock16th i).written i by omega,
      Nat.sub_zero]
    exact List.map_congr_left fun m _ => sixteenthAt_next_block ..

theorem withConsumer (hb : Bookkeeping b) (hin : b.nextBlockIn16th < 16)
    (hfree : b.tcmask.get i = false) :
    FastReader (b.withConsumer true i) i none ∧ (b.withConsumer true i).pending16ths i = [] := by
  have howns := owns_withConsumer_self hb true hfree
  have hcount := howns.pendingCount_eq
  have hout16 : (b.withConsumer true i).nextBlockOut16th i = b.nextBlockIn16th := by
    simp [CircBuffer.withConsumer]
  have hin16 : (b.withConsumer true i).nextBlockIn16th = b.nextBlockIn16th := rfl
  have hw : (b.withConsumer true i).written i = b.nextBlockIn16th := by
    simp [written, hcount, hin16]
  have hnone : b.cmask16th.get i = false := by
    cases hc : b.cmask16th.get i
    · rfl
    · rw [hb.cmask_get (hb.cmask16th_get hc)] at hfree
      cases hfree
  refine ⟨⟨hcount ▸ howns, ?_, ?_, ?_, ?_, ?_, ?_⟩, ?_⟩
  · intro hzero
    have : 0 = b.blocks := hcount.symm.trans hzero
    have := hb.blocks_pos
    omega
  · omega
  · omega
  · -- no mark at all: the range is empty, from the producer's position up to itself
    refine ⟨b.nextBlockIn16th, hout16.ge, fun d hd j hj => ?_⟩
    have hlt : ringAt b.blocks ((b.withConsumer true i).nextBlockOut i) d < b.blocks :=
      ringAt_lt hb.blocks_pos _ _
    rw [hw, eq_comm]
    change _ = ((b.block (ringAt b.blocks _ d)).busy16th j).get i
    rw [hb.busy16th_get_of_not_cmask16th hnone hlt hj, decide_eq_false_iff_not]
    omega
  · rw [hout16, eq_comm]
    simp only [gotLast, decide_eq_false_iff_not]
    omega
  · intro nb hnb
    cases hnb
  · simp [pending16ths, hw, hout16]

end FastReader

/-! ## The producer's side -/

/-- The producer fills the sixteenth it stands at. -/
structure ProducerInv (blocks : ℕ) (s : CircSys) : Prop where
  ex : Exclusive s
  blocks_eq : s.buf.blocks = blocks
  in16_lt : s.buf.nextBlockIn16th < 16
  pending : ∀ p, s.pending = some p → p = .sixteenth s.buf.nextBlockIn s.buf.nextBlockIn16th

namespace ProducerInv

variable {blocks : ℕ} {s t : CircSys} {a : CircAction} {e : CircEvent}

theorem of_same (h : ProducerInv blocks s) (hex : Exclusive t) (hpend : t.pending = s.pending)
    (hblocks : t.buf.blocks = s.buf.blocks) (hin : t.buf.nextBlockIn = s.buf.nextBlockIn)
    (hin16 : t.buf.nextBlockIn16th = s.buf.nextBlockIn16th) : ProducerInv blocks t where
  ex := hex
  blocks_eq := hblocks.trans h.blocks_eq
  in16_lt := hin16 ▸ h.in16_lt
  pending p hp := by
    rw [hin, hin16]
    exact h.pending p (hpend ▸ hp)

theorem step (h : ProducerInv blocks s) (hst : fastStep s a = some (e, t)) :
    ProducerInv blocks t := by
  obtain ⟨hok, hst⟩ := restrict_eq_some.mp hst
  have hex := h.ex.step hst
  cases CircSys.step_moves hst with
  | drop call hp h16 =>
    -- only the puts of whole blocks drop
    rw [FastProtocol, h16] at hok
    cases hok
  | fill call b' hp hin hw he hf =>
    obtain ⟨hblocks, _, hin, hin16, _⟩ := hf.frame
    refine ⟨hex, hblocks.trans h.blocks_eq, hin16 ▸ h.in16_lt, fun p hp => ?_⟩
    have h16 : call.is16th = true := hok
    rw [← Option.some.inj hp, PutCall.pendingOf, if_pos h16, hin, hin16]
  | publish p hp =>
    rw [h.pending p hp] at hex ⊢
    obtain ⟨hblocks, _, _, _, hin16, _⟩ :=
      s.buf.publish16th_frame s.buf.nextBlockIn s.buf.nextBlockIn16th
    refine ⟨hex, hblocks.trans h.blocks_eq, ?_, fun p hp => by cases hp⟩
    simp only [Pending.publish, hin16]
    exact Nat.mod_lt _ (by norm_num)
  | idle => exact h
  | join fast i hc hi => exact h.of_same hex rfl rfl rfl rfl
  | transient gps delta r hr =>
    rcases addTransientConsumer_cases h.ex.book.blocks_pos hr with
      ⟨_, hb⟩ | ⟨i, first, m, _, _, _, _, hm, hb⟩
    all_goals exact h.of_same hex rfl (by simp only [hb]) (by simp only [hb]) (by simp only [hb])
  | leave i hi => exact h.of_same hex rfl rfl rfl rfl
  | get16th i nb b' hi hn =>
    obtain ⟨_, _, rfl⟩ := get16th_eq_some hn
    exact h.of_same hex rfl rfl rfl rfl
  | unlock i hi | unlock16th i hi => exact h.of_same hex rfl rfl rfl rfl

end ProducerInv

/-! ## All fast consumers together -/

/-- The queue of each fast consumer: the sixteenths it has still to get. -/
def CircSys.queues16th (s : CircSys) : FanOut.Queues ℕ (ℕ × ℕ) :=
  fun i => if s.buf.cmask16th.get i then some (s.buf.pending16ths i) else none

/-- The invariant of the fast path. -/
structure FastInv (blocks : ℕ) (s : CircSys) : Prop where
  prod : ProducerInv blocks s
  absent : ∀ i, s.buf.cmask16th.get i = false → s.got16th i = none
  fast : ∀ i, s.buf.cmask16th.get i = true → FastReader s.buf i (s.got16th i)

namespace FastInv

variable {blocks : ℕ} {s t : CircSys}

/-- A step that concerns consumer `i` at most keeps everyone else's queue. -/
theorem of_others (h : FastInv blocks s) (hprod : ProducerInv blocks t) (i : ℕ)
    (hcm : ∀ j ≠ i, t.buf.cmask16th.get j = s.buf.cmask16th.get j)
    (hgot : ∀ j ≠ i, t.got16th j = s.got16th j)
    (halike : ∀ j ≠ i, s.buf.cmask16th.get j = true → FastAlike j s.buf t.buf)
    (habsent : t.buf.cmask16th.get i = false → t.got16th i = none)
    (hself : t.buf.cmask16th.get i = true → FastReader t.buf i (t.got16th i)) :
    FastInv blocks t ∧ t.queues16th = Function.update s.queues16th i (t.queues16th i) := by
  refine ⟨⟨hprod, fun j hj => ?_, fun j hj => ?_⟩, ?_⟩
  · -- consumer `i` is given; everyone else sees no difference
    by_cases hij : j = i
    · subst hij
      exact habsent hj
    · rw [hgot j hij]
      exact h.absent j (hcm j hij ▸ hj)
  · by_cases hij : j = i
    · subst hij
      exact hself hj
    · rw [hcm j hij] at hj
      rw [hgot j hij]
      exact (halike j hij hj).reader (h.fast j hj)
  · funext j
    by_cases hij : j = i
    · subst hij
      simp
    · rw [Function.update_of_ne hij]
      unfold CircSys.queues16th
      rw [hcm j hij]
      cases hj : s.buf.cmask16th.get j
      · rfl
      · rw [(halike j hij hj).pending16ths_eq (h.fast j hj).owns]

theorem of_alike (h : FastInv blocks s) (hprod : ProducerInv blocks t)
    (hcm : t.buf.cmask16th = s.buf.cmask16th) (hgot : t.got16th = s.got16th)
    (halike : ∀ j, s.buf.cmask16th.get j = true → FastAlike j s.buf t.buf) :
    FastInv blocks t ∧ FanOut.Step s.queues16th .tau t.queues16th := by
  have hq : t.queues16th = s.queues16th := by
    funext j
    unfold CircSys.queues16th
    rw [hcm]
    cases hj : s.buf.cmask16th.get j
    · rfl
    · rw [(halike j hj).pending16ths_eq (h.fast j hj).owns]
  refine ⟨⟨hprod, ?_, fun j hj => ?_⟩, hq ▸ .tau _⟩
  · rw [hcm, hgot]
    exact h.absent
  · rw [hcm] at hj
    rw [hgot]
    exact (halike j hj).reader (h.fast j hj)

/-- Publishing a sixteenth appends it to every queue. -/
theorem publish (h : FastInv blocks s)
    (hprod : ProducerInv blocks { s with
      buf := s.buf.publish16th s.buf.nextBlockIn s.buf.nextBlockIn16th, pending := none })
    (he : (s.buf.block s.buf.nextBlockIn).busy.empty = true) :
    let t : CircSys := { s with
      buf := s.buf.publish16th s.buf.nextBlockIn s.buf.nextBlockIn16th, pending := none }
    FastInv blocks t ∧ FanOut.Step s.queues16th
      (.put (s.buf.nextBlockIn, s.buf.nextBlockIn16th)) t.queues16th := by
  obtain ⟨_, _, _, _, _, _, _, _, _, _, hcm, _⟩ :=
    s.buf.publish16th_frame s.buf.nextBlockIn s.buf.nextBlockIn16th
  have hone := fun i (hi : s.buf.cmask16th.get i = true) =>
    (h.fast i hi).publish16th hi (h.prod.ex.book.cmask16th_get hi) h.prod.in16_lt he
  refine ⟨⟨hprod, ?_, fun i hi => ?_⟩, ?_⟩
  · simp only [hcm]
    exact h.absent
  · simp only [hcm] at hi
    exact (hone i hi).1
  · have hq : CircSys.queues16th { s with
        buf := s.buf.publish16th s.buf.nextBlockIn s.buf.nextBlockIn16th, pending := none }
        = fun i => (s.queues16th i).map (· ++ [(s.buf.nextBlockIn, s.buf.nextBlockIn16th)]) := by
      funext i
      simp only [CircSys.queues16th, hcm]
      cases hi : s.buf.cmask16th.get i
      · rfl
      · simp [(hone i hi).2]
    rw [hq]
    exact .put _ _

theorem step {a : CircAction} {e : CircEvent} (h : FastInv blocks s)
    (hst : fastStep s a = some (e, t)) :
    FastInv blocks t ∧ FanOut.Step s.queues16th e t.queues16th := by
  have hprod := h.prod.step hst
  have hbook := h.prod.ex.book
  obtain ⟨hok, hst⟩ := restrict_eq_some.mp hst
  cases CircSys.step_moves hst with
  | drop call hp h16 =>
    rw [FastProtocol, h16] at hok
    cases hok
  | fill call b' hp hin hw he hf =>
    obtain ⟨_, _, _, _, _, _, _, hcm, _⟩ := hf.frame
    exact h.of_alike hprod hcm rfl fun j _ => .filled hf
  | publish p hp =>
    have he := (h.prod.ex.target p s.buf.nextBlockIn hp (by rw [h.prod.pending p hp]; rfl)).2
    have hp' := h.prod.pending p hp
    subst hp'
    exact h.publish hprod he
  | idle => exact ⟨h, .tau _⟩
  | join fast i hc hi =>
    obtain ⟨hlt, hfree⟩ := hbook.firstFree_lt hc hi
    have hbit := Bookkeeping.lt_numBits_of_lt hlt
    -- the number given out was free, so no fast consumer had it
    have hne : ∀ j, s.buf.cmask16th.get j = true → j ≠ i := by
      rintro j hj rfl
      rw [hbook.cmask_get (hbook.cmask16th_get hj)] at hfree
      cases hfree
    have habsent : s.buf.cmask16th.get i = false := by
      cases hc : s.buf.cmask16th.get i
      · rfl
      · exact absurd rfl (hne i hc)
    cases fast with
    -- a slow newcomer shows in no mask of the fast path
    | false => exact h.of_alike hprod rfl rfl fun j hj => .withConsumer false (hne j hj)
    | true =>
      obtain ⟨hreader, hempty⟩ := FastReader.withConsumer hbook h.prod.in16_lt hfree
      have hcm : ∀ j, (s.buf.withConsumer true i).cmask16th.get j
          = (decide (j = i) || s.buf.cmask16th.get j) := fun j => s.buf.cmask16th.get_set hbit j
      have hgot := h.absent i habsent
      obtain ⟨hinv, hq⟩ := h.of_others hprod i (fun j hj => by simp [hcm, hj]) (fun _ _ => rfl)
        (fun j hj _ => .withConsumer true hj) (fun _ => hgot) (fun _ => hgot ▸ hreader)
      have hnew : CircSys.queues16th { s with buf := s.buf.withConsumer true i } i
          = some [] := by
        simp [CircSys.queues16th, hcm, hempty]
      refine ⟨hinv, ?_⟩
      rw [hq, hnew]
      exact .join (by simp [CircSys.queues16th, habsent])
  | transient gps delta r hr =>
    have hcm : r.buf.cmask16th = s.buf.cmask16th := by
      rcases addTransientConsumer_cases hbook.blocks_pos hr with
        ⟨_, hb⟩ | ⟨i, first, m, _, _, _, _, hm, hb⟩ <;> rw [hb]
    exact h.of_alike hprod hcm rfl fun j hj => .addTransientConsumer hbook hj hr
  | leave i hi =>
    have hbit := s.buf.tcmask.lt_numBits_of_get hi
    cases hc : s.buf.cmask16th.get i
    · have hne : ∀ j, s.buf.cmask16th.get j = true → j ≠ i := by
        rintro j hj rfl
        rw [hc] at hj
        cases hj
      refine h.of_alike hprod (by simp [CircBuffer.deleteConsumer, hc]) ?_
        fun j hj => .deleteConsumer hbit (hne j hj)
      exact Function.update_eq_self_iff.mpr (h.absent i hc).symm
    · have hcm : ∀ j, (s.buf.deleteConsumer i).cmask16th.get j
          = (!decide (j = i) && s.buf.cmask16th.get j) := by
        intro j
        simp [CircBuffer.deleteConsumer, hc, hbit]
      obtain ⟨hinv, hq⟩ := h.of_others hprod i (fun j hj => by simp [hcm, hj])
        (fun j hj => by simp [hj]) (fun j hj _ => .deleteConsumer hbit hj)
        (fun _ => by simp) (fun hself => by simp [hcm] at hself)
      refine ⟨hinv, ?_⟩
      have hnone : CircSys.queues16th { s with
          buf := s.buf.deleteConsumer i, got16th := Function.update s.got16th i none } i
          = none := by
        simp [CircSys.queues16th, hcm]
      rw [hq, hnone]
      exact .leave _ _
  | get16th i nb b' hi hn =>
    obtain ⟨hc, hg⟩ := hok
    obtain ⟨hreader, -, hpending⟩ := (h.fast i hc).get16th hg hn
    have hcm : b'.cmask16th = s.buf.cmask16th := by
      obtain ⟨_, _, rfl⟩ := get16th_eq_some hn
      rfl
    obtain ⟨hinv, hq⟩ := h.of_others hprod i (fun j _ => by simp only [hcm])
      (fun j hj => by simp [hj]) (fun j hj _ => .get16th hj hn)
      (fun hself => by simp [hcm, hc] at hself) (fun _ => by simpa using hreader)
    refine ⟨hinv, ?_⟩
    have hself : CircSys.queues16th { s with
        buf := b', got16th := Function.update s.got16th i (some nb) } i
        = some (b'.pending16ths i) := by
      simp [CircSys.queues16th, hcm, hc]
    rw [hq, hself]
    exact .take (by simp [CircSys.queues16th, hc, hpending])
  | unlock i hi =>
    have hne : ∀ j, s.buf.cmask16th.get j = true → j ≠ i := by
      rintro j hj rfl
      -- the protocol leaves `unlock` to the slow consumers
      have hslow : s.buf.cmask16th.get j = false := hok
      rw [hj] at hslow
      cases hslow
    exact h.of_alike hprod rfl rfl fun j hj =>
      .unlock (s.buf.tcmask.lt_numBits_of_get hi) (hne j hj)
  | unlock16th i hi =>
    obtain ⟨hc, hg⟩ := hok
    have hbit := s.buf.tcmask.lt_numBits_of_get hi
    obtain ⟨hreader, hpending⟩ := (h.fast i hc).unlock16th hbit h.prod.in16_lt hg
    obtain ⟨hinv, hq⟩ := h.of_others hprod i (fun j _ => rfl) (fun j hj => by simp [hj])
      (fun j hj _ => .unlock16th hbit hj) (fun _ => by simp) (fun _ => by simpa using hreader)
    refine ⟨hinv, ?_⟩
    -- giving up a block all of whose sixteenths were got leaves the queue as it is
    have hsame : CircSys.queues16th { s with
        buf := s.buf.unlock16th i, got16th := Function.update s.got16th i none } i
        = s.queues16th i := by
      have hcm : (s.buf.unlock16th i).cmask16th = s.buf.cmask16th := rfl
      simp [CircSys.queues16th, hcm, hpending]
    rw [hq, hsame, Function.update_eq_self]
    exact .tau _

theorem start {consumers blockSize : ℕ} {blockPeriod : ℤ} (hc : consumers ≤ maxConsumers)
    (hb : 0 < blocks) :
    FastInv blocks (.start (bufferMalloc consumers blocks blockSize blockPeriod)) := by
  refine ⟨⟨.start (bookkeeping_bufferMalloc hc hb _ _), rfl, ?_, ?_⟩, fun _ _ => rfl, ?_⟩
  · simp [CircSys.start, bufferMalloc]
  · intro p hp
    cases hp
  · intro i hi
    simp [CircSys.start, bufferMalloc] at hi

end FastInv

/-! ## Every reachable state -/

/-- A step shows the sixteenth the producer stands at and moves it to the next one, or shows
no sixteenth and leaves it there. -/
theorem ProducerInv.position {blocks : ℕ} {s t : CircSys} {a : CircAction} {e : CircEvent}
    (h : ProducerInv blocks s) (hst : fastStep s a = some (e, t)) :
    (e = .put (s.buf.nextBlockIn, s.buf.nextBlockIn16th) ∧
      t.buf.nextBlockIn = (if s.buf.nextBlockIn16th = 15 then (s.buf.nextBlockIn + 1) % blocks
        else s.buf.nextBlockIn) ∧
      t.buf.nextBlockIn16th = (s.buf.nextBlockIn16th + 1) % 16) ∨
    ((∀ x, e ≠ .put x) ∧ t.buf.nextBlockIn = s.buf.nextBlockIn ∧
      t.buf.nextBlockIn16th = s.buf.nextBlockIn16th) := by
  obtain ⟨-, hst⟩ := restrict_eq_some.mp hst
  cases CircSys.step_moves hst with
  | drop call hp h16 => exact .inr ⟨by simp, rfl, rfl⟩
  | fill call b' hp hin hw he hf =>
    obtain ⟨_, _, hin, hin16, _⟩ := hf.frame
    exact .inr ⟨by simp, hin, hin16⟩
  | publish p hp =>
    have hp' := h.pending p hp
    subst hp'
    obtain ⟨_, _, _, _, hin16, _⟩ :=
      s.buf.publish16th_frame s.buf.nextBlockIn s.buf.nextBlockIn16th
    refine .inl ⟨rfl, ?_, hin16⟩
    rw [← h.blocks_eq]
    exact nextBlockIn_publish16th ..
  | idle => exact .inr ⟨by simp, rfl, rfl⟩
  | join fast i hc hi => exact .inr ⟨by cases fast <;> simp, rfl, rfl⟩
  | transient gps delta r hr =>
    rcases addTransientConsumer_cases h.ex.book.blocks_pos hr with
      ⟨_, hb⟩ | ⟨i, first, m, _, _, _, _, hm, hb⟩
    all_goals exact .inr ⟨by simp, by simp only [hb], by simp only [hb]⟩
  | leave i hi =>
    refine .inr ⟨fun x => ?_, rfl, rfl⟩
    split <;> simp
  | get16th i nb b' hi hn =>
    obtain ⟨_, _, rfl⟩ := get16th_eq_some hn
    exact .inr ⟨by simp, rfl, rfl⟩
  | unlock i hi | unlock16th i hi => exact .inr ⟨by simp, rfl, rfl⟩

/-- Only `delete_consumer` shows that a consumer leaves. -/
theorem CircSys.deletes_of_leave {s t : CircSys} {a : CircAction} {i : ℕ}
    (hst : s.step a = some (.leave i, t)) : a = .deleteConsumer i := by
  generalize he : (FanOut.Event.leave i : CircEvent) = e at hst
  cases step_moves hst with
  | publish p hp => cases p <;> cases he
  | join fast j hc hj => cases fast <;> cases he
  | leave j hj =>
    split at he
    · cases he
      rfl
    · cases he
  | _ => cases he

/-- A consumer that is not deleted stays, and what the producer puts meanwhile are the
sixteenths from where it stood, one after the other. -/
theorem FastInv.puts_in_order {blocks i : ℕ} {t u : CircSys} {bs : List CircAction}
    {tr : List CircEvent} (h : FastInv blocks t) (hi : t.queues16th i ≠ none)
    (hrun : run fastStep t bs = some (tr, u)) (hkeep : .deleteConsumer i ∉ bs) :
    u.queues16th i ≠ none ∧ FanOut.putsSince i tr = (List.range (FanOut.putsSince i tr).length).map
      (sixteenthAt blocks t.buf.nextBlockIn t.buf.nextBlockIn16th) := by
  have hpos := h.prod.blocks_eq ▸ h.prod.ex.book.nextBlockIn_lt
  -- the invariant adds where the producer stands after that many puts
  have hinv : FastInv blocks u ∧ u.queues16th i ≠ none ∧
      FanOut.putsSince i tr = (List.range (FanOut.putsSince i tr).length).map
        (sixteenthAt blocks t.buf.nextBlockIn t.buf.nextBlockIn16th) ∧
      sixteenthAt blocks t.buf.nextBlockIn t.buf.nextBlockIn16th (FanOut.putsSince i tr).length
        = (u.buf.nextBlockIn, u.buf.nextBlockIn16th) := by
    refine run_induction (fun tr v => FastInv blocks v ∧ v.queues16th i ≠ none ∧
      FanOut.putsSince i tr = (List.range (FanOut.putsSince i tr).length).map
        (sixteenthAt blocks t.buf.nextBlockIn t.buf.nextBlockIn16th) ∧
      sixteenthAt blocks t.buf.nextBlockIn t.buf.nextBlockIn16th (FanOut.putsSince i tr).length
        = (v.buf.nextBlockIn, v.buf.nextBlockIn16th)) ?_
      ⟨h, hi, by simp, by simpa using sixteenthAt_zero hpos h.prod.in16_lt⟩ hrun
    rintro tr v a ha e w ⟨hv, hvi, hputs, hat⟩ hst
    obtain ⟨hw, hstep⟩ := hv.step hst
    have hleave : e ≠ .leave i := by
      rintro rfl
      exact hkeep (CircSys.deletes_of_leave (restrict_eq_some.mp hst).2 ▸ ha)
    obtain ⟨hwi, hjoin⟩ := hstep.member hvi hleave
    refine ⟨hw, hwi, ?_⟩
    rcases hv.prod.position hst with ⟨rfl, hin, hin16⟩ | ⟨hno, hin, hin16⟩
    · rw [FanOut.putsSince_put, List.length_append, List.length_singleton, List.range_succ,
        List.map_append, ← hputs, hin, hin16, sixteenthAt_succ hat]
      simp [hat]
    · have hsame : FanOut.putsSince i (tr ++ [e]) = FanOut.putsSince i tr := by
        cases e with
        | put x => exact absurd rfl (hno x)
        | join j =>
          have hji : j ≠ i := fun hji => hjoin (hji ▸ rfl)
          simp [hji]
        | leave j | take j x | tau => simp
      rw [hsame, hin, hin16]
      exact ⟨hputs, hat⟩
  exact ⟨hinv.2.1, hinv.2.2.1⟩

/-- In every state reached by users who keep to the protocol: a fast consumer that joins now
gets, in order and each once, the sixteenths put from then on, which follow each other from
where the producer stands; `next_block_out_16th` is a proper index whenever `get16th` may be
called, and `get16th` returns the first sixteenth still pending; and a consumer that has got
the last sixteenth of a block owns that block, which is the one `unlock16th` releases. -/
theorem sixteenths_delivered_in_order {consumers blocks blockSize : ℕ} {blockPeriod : ℤ}
    (hc : consumers ≤ maxConsumers) (hb : 0 < blocks) {as : List CircAction}
    {tr : List CircEvent} {s : CircSys}
    (h : run fastStep (.start (bufferMalloc consumers blocks blockSize blockPeriod)) as
      = some (tr, s)) :
    (∀ i t bs tr' u, s.step (.addConsumer true) = some (.join i, t) →
      run fastStep t bs = some (tr', u) → .deleteConsumer i ∉ bs →
      FanOut.putsSince i tr' = (List.range (FanOut.putsSince i tr').length).map
        (sixteenthAt blocks s.buf.nextBlockIn s.buf.nextBlockIn16th) ∧
      FanOut.putsSince i tr' = FanOut.takesSince i tr' ++ u.buf.pending16ths i) ∧
    (∀ i, FastProtocol s (.get16th i) → s.buf.nextBlockOut16th i < 16 ∧
      (s.buf.get16th i).map (fun r => split16th r.1) = (s.buf.pending16ths i).head?) ∧
    (∀ i nb, s.buf.cmask16th.get i = true → s.got16th i = some nb → (split16th nb).2 = 15 →
      (s.buf.block (split16th nb).1).busy.get i = true ∧
      ∀ n, ((s.buf.unlock16th i).block n).busy =
        if n = (split16th nb).1 then (s.buf.block n).busy.clear i else (s.buf.block n).busy) := by
  have hinv : FastInv blocks s :=
    run_invariant (FastInv blocks) (fun _ _ _ _ _ hi hst => (hi.step hst).1)
      (FastInv.start hc hb) h
  refine ⟨?_, ?_, ?_⟩
  · intro i t bs tr' u hjoin hrun hkeep
    have hst : fastStep s (.addConsumer true) = some (.join i, t) :=
      restrict_eq_some.mpr ⟨trivial, hjoin⟩
    obtain ⟨ht, hstep⟩ := hinv.step hst
    -- the specification has one way to join, with an empty queue
    have hempty : t.queues16th i = some [] := by
      generalize t.queues16th = q at hstep
      cases hstep
      simp
    have hpos : t.buf.nextBlockIn = s.buf.nextBlockIn ∧
        t.buf.nextBlockIn16th = s.buf.nextBlockIn16th := by
      rcases hinv.prod.position hst with ⟨he, -⟩ | ⟨-, hin, hin16⟩
      · cases he
      · exact ⟨hin, hin16⟩
    obtain ⟨hmember, hputs⟩ := ht.puts_in_order (by simp [hempty]) hrun hkeep
    rw [hpos.1, hpos.2] at hputs
    refine ⟨hputs, ?_⟩
    obtain ⟨-, hsteps⟩ := run_simulates CircSys.queues16th (FastInv blocks)
      (fun _ _ _ _ hi hst => hi.step hst) ht hrun
    refine FanOut.accounted_of_steps (fun xs hxs => ?_) hsteps _ ?_
    · rw [hempty] at hxs
      exact (Option.some.inj hxs).symm
    · unfold CircSys.queues16th at hmember ⊢
      split at hmember
      · rw [if_pos ‹_›]
      · exact absurd rfl hmember
  · rintro i ⟨hi, hg⟩
    have hreader := hinv.fast i hi
    have hlt := hreader.out_lt hg
    refine ⟨hlt, ?_⟩
    cases hget : s.buf.get16th i with
    | none =>
      have hbit := hreader.busy16th_out hg
      -- no mark means that everything published has been got
      have hdone : ¬ s.buf.nextBlockOut16th i < s.buf.written i := by
        intro hmore
        simp [CircBuffer.get16th, hbit, hmore] at hget
      have hzero : s.buf.written i - s.buf.nextBlockOut16th i = 0 := by omega
      simp [pending16ths, hzero]
    | some r =>
      obtain ⟨nb, b'⟩ := r
      obtain ⟨-, -, hpending⟩ := hreader.get16th hg hget
      rw [hpending]
      rfl
  · intro i nb hi hnb hlast
    have hreader := hinv.fast i hi
    have hg : gotLast (s.got16th i) = true := by simp [hnb, gotLast, hlast]
    have hblock := hreader.got_block nb hnb
    refine ⟨?_, fun n => ?_⟩
    · rw [hblock]
      exact hreader.busy_of_gotLast hinv.prod.in16_lt hg
    · rw [hblock]
      exact busy_unlock16th s.buf i n

/-- Put one sixteenth of one byte. -/
private def putOne : List CircAction :=
  [.write (.put16thDpscattered false [⟨[1], 0, 1, 0, noStatus, 1⟩] none), .publish]

theorem sixteenths_delivered_in_order_midSecond :
    ∃ tr s t tr' u, run fastStep (.start (bufferMalloc 0 2 16 1)) putOne = some (tr, s) ∧
      s.step (.addConsumer true) = some (.join 0, t) ∧
      run fastStep t (putOne ++ putOne ++ [.get16th 0]) = some (tr', u) ∧
      FanOut.putsSince 0 tr' = [(0, 1), (0, 2)] ∧
      FanOut.putsSince 0 tr' = FanOut.takesSince 0 tr' ++ u.buf.pending16ths 0 := by
  have hrun : ((run fastStep (.start (bufferMalloc 0 2 16 1)) putOne).bind fun r =>
      (r.2.step (.addConsumer true)).bind fun j =>
        (run fastStep j.2 (putOne ++ putOne ++ [.get16th 0])).map fun v =>
          (decide (j.1 = .join 0), FanOut.putsSince 0 v.1)) = some (true, [(0, 1), (0, 2)]) := by
    decide +kernel
  obtain ⟨⟨tr, s⟩, hs, hrun⟩ := Option.bind_eq_some_iff.mp hrun
  obtain ⟨⟨e, t⟩, ht, hrun⟩ := Option.bind_eq_some_iff.mp hrun
  obtain ⟨⟨tr', u⟩, hu, heq⟩ := Option.map_eq_some_iff.mp hrun
  simp only [Prod.mk.injEq, decide_eq_true_eq] at heq
  obtain ⟨rfl, hputs⟩ := heq
  obtain ⟨hdeliver, -, -⟩ := sixteenths_delivered_in_order (by decide) (by decide) hs
  exact ⟨tr, s, t, tr', u, hs, ht, hu, hputs, (hdeliver 0 t _ tr' u ht hu (by decide)).2⟩

end AdvLigoRts.Daqd
