import AdvLigoRts.Daqd.CircFifo

/-!
# No block is overwritten while a consumer owns it

The producer gives up the block's lock before it takes the buffer's, so consumers come, go and move
between its two critical sections.
-/

namespace AdvLigoRts.Daqd

open PvLib CircBuffer

/-- The block a put is writing. -/
def CircBuffer.Pending.target : Pending → Option ℕ
  | .whole nbi => some nbi
  | .sixteenth nbi _ => some nbi
  | .dropped => none

/-- The books are kept, and the block being written is the unmarked one at
`next_block_in`. -/
structure Exclusive (s : CircSys) : Prop where
  book : Bookkeeping s.buf
  target : ∀ p nbi, s.pending = some p → p.target = some nbi →
    nbi = s.buf.nextBlockIn ∧ (s.buf.block nbi).busy.empty = true

theorem CMask.empty_clear {m : CMask} (h : m.empty = true) {i : ℕ} (hi : i < numBits) :
    (m.clear i).empty = true := by
  rw [empty_iff] at h ⊢
  intro j
  simp [hi, h j]

namespace Exclusive

variable {s t : CircSys}

/-- A step that leaves the put and `next_block_in` alone and marks no unmarked block at
`next_block_in` keeps the producer's block its own. -/
theorem of_same_pending (h : Exclusive s) (hbook : Bookkeeping t.buf)
    (hpend : t.pending = s.pending) (hin : t.buf.nextBlockIn = s.buf.nextBlockIn)
    (hempty : (s.buf.block s.buf.nextBlockIn).busy.empty = true →
      (t.buf.block s.buf.nextBlockIn).busy.empty = true) : Exclusive t := by
  refine ⟨hbook, fun p nbi hp hn => ?_⟩
  rw [hpend] at hp
  obtain ⟨rfl, he⟩ := h.target p nbi hp hn
  exact ⟨hin.symm, hempty he⟩

theorem step {a : CircAction} {e : CircEvent} (h : Exclusive s) (hst : s.step a = some (e, t)) :
    Exclusive t := by
  have hbook := h.book.step hst
  cases CircSys.step_moves hst with
  | drop call hp h16 =>
    refine ⟨hbook, fun p nbi hp hn => ?_⟩
    cases hp
    cases hn
  | fill call b' hp hin hw he hf =>
    refine ⟨hbook, fun p nbi hp hn => ?_⟩
    cases hp
    have hnbi : nbi = s.buf.nextBlockIn := by
      unfold PutCall.pendingOf at hn
      split at hn <;> exact (Option.some.inj hn).symm
    subst hnbi
    -- the write found `busy` empty and left it so
    obtain ⟨_, _, hin, _⟩ := hf.frame
    exact ⟨hin.symm, by rw [hf.busy, he]⟩
  | publish p hp =>
    refine ⟨hbook, fun p nbi hp hn => ?_⟩
    cases hp
  | idle => exact h
  | join fast i hc hi => exact h.of_same_pending hbook rfl rfl id
  | transient gps delta r hr =>
    rcases addTransientConsumer_cases h.book.blocks_pos hr with
      ⟨_, hb⟩ | ⟨i, first, m, _, _, _, _, hm, hb⟩
    · exact h.of_same_pending hbook rfl (by simp only [hb]) (by simp only [hb]; exact id)
    · refine h.of_same_pending hbook rfl (by simp only [hb]) ?_
      -- the marking loop stops at `next_block_in` without marking it
      simp only [hb, hm.stop_eq]
      exact id
  | leave i hi =>
    refine h.of_same_pending hbook rfl rfl fun he => ?_
    rw [busy_deleteConsumer, if_pos h.book.nextBlockIn_lt]
    exact CMask.empty_clear he (s.buf.tcmask.lt_numBits_of_get hi)
  | get16th i nb b' hi hn =>
    obtain ⟨_, _, rfl⟩ := get16th_eq_some hn
    exact h.of_same_pending hbook rfl rfl id
  | unlock i hi =>
    refine h.of_same_pending hbook rfl rfl fun he => ?_
    rw [busy_unlock]
    split
    · exact CMask.empty_clear he (s.buf.tcmask.lt_numBits_of_get hi)
    · exact he
  | unlock16th i hi =>
    refine h.of_same_pending hbook rfl rfl fun he => ?_
    rw [busy_unlock16th]
    split
    · exact CMask.empty_clear he (s.buf.tcmask.lt_numBits_of_get hi)
    · exact he

/-- A fresh buffer is nobody's. -/
theorem start {b : CircBuffer} (hb : Bookkeeping b) : Exclusive (.start b) :=
  ⟨hb, fun _ _ hp _ => by cases hp⟩

end Exclusive

/-! ## The block a consumer reads -/

/-- The action gives up a block of consumer `i`. -/
def CircAction.releases (i : ℕ) : CircAction → Bool
  | .unlock j => j == i
  | .unlock16th j => j == i
  | .deleteConsumer j => j == i
  | _ => false

/-- Consumer `i` reads block `n`, which holds `c`. -/
structure Reading (i n : ℕ) (c : Item) (b : CircBuffer) : Prop where
  nextBlockOut_eq : b.nextBlockOut i = n
  busy : (b.block n).busy.get i = true
  content_eq : (b.block n).content = c

namespace Reading

variable {i n : ℕ} {c : Item} {b b' : CircBuffer}

theorem of_seenAlike (h : Reading i n c b) (hn : n < b.blocks) (hs : SeenAlike i b b') :
    Reading i n c b' where
  nextBlockOut_eq := hs.nextBlockOut_eq.trans h.nextBlockOut_eq
  busy := (hs.busy_eq n hn).trans h.busy
  content_eq := (hs.content_eq n).trans h.content_eq

theorem ne_of_empty {m : ℕ} (h : Reading i n c b) (he : (b.block m).busy.empty = true) :
    n ≠ m := by
  rintro rfl
  have := CMask.get_of_empty _ he i
  rw [h.busy] at this
  cases this

/-- The reader is a current consumer. -/
theorem tcmask (h : Reading i n c b) (hb : Bookkeeping b) : b.tcmask.get i = true := by
  have hn : n < b.blocks := h.nextBlockOut_eq ▸ hb.nextBlockOut_lt i
  simpa using hb.busy_sub n hn (by simpa using h.busy)

/-- A newcomer does not take the reader's number. -/
theorem ne_of_firstFree (h : Reading i n c b) (hb : Bookkeeping b) {j : ℕ}
    (hj : b.tcmask.firstFree = some j) : i ≠ j := by
  rintro rfl
  have := (b.tcmask.firstFree_eq_some hj).2.1
  rw [h.tcmask hb] at this
  cases this

theorem publish {p : Pending} (h : Reading i n c b)
    (hp : ∀ nbi, p.target = some nbi → (b.block nbi).busy.empty = true) :
    Reading i n c (p.publish b) := by
  refine ⟨?_, ?_, (content_publish b p n).trans h.content_eq⟩
  · cases p with
    | whole nbi => exact h.nextBlockOut_eq
    | sixteenth nbi nbi16th =>
      obtain ⟨_, _, hout, _⟩ := b.publish16th_frame nbi nbi16th
      exact (congrFun hout i).trans h.nextBlockOut_eq
    | dropped => exact h.nextBlockOut_eq
  · cases p with
    | whole nbi =>
      -- the published block was unmarked, so the reader is elsewhere
      have hne := h.ne_of_empty (hp nbi rfl)
      simpa [Pending.publish, busy_publishWhole, hne] using h.busy
    | sixteenth nbi nbi16th =>
      have hne := h.ne_of_empty (hp nbi rfl)
      simpa [Pending.publish, busy_publish16th, hne] using h.busy
    | dropped => exact h.busy

/-- Only the reader itself can end its reading. -/
theorem step {s t : CircSys} {a : CircAction} {e : CircEvent} (h : Reading i n c s.buf)
    (hex : Exclusive s) (ha : a.releases i = false) (hst : s.step a = some (e, t)) :
    Reading i n c t.buf := by
  have hn : n < s.buf.blocks := h.nextBlockOut_eq ▸ hex.book.nextBlockOut_lt i
  cases CircSys.step_moves hst with
  | drop call hp h16 => exact h
  | fill call b' hp hin hw he hf =>
    -- the block being filled is unmarked, the reader's is not
    have hne := h.ne_of_empty he
    obtain ⟨_, _, _, _, hout, _⟩ := hf.frame
    refine ⟨(congrFun hout i).trans h.nextBlockOut_eq, ?_, ?_⟩
    · rw [hf.busy, h.busy]
    · rw [hf.block_of_ne hne, h.content_eq]
  | publish p hp => exact h.publish fun nbi hnbi => (hex.target p nbi hp hnbi).2
  | idle => exact h
  | join fast j hc hj =>
    exact h.of_seenAlike hn (seenAlike_withConsumer s.buf fast (h.ne_of_firstFree hex.book hj))
  | transient gps delta r hr =>
    rcases addTransientConsumer_cases hex.book.blocks_pos hr with
      ⟨_, hb⟩ | ⟨j, first, m, _, hj, _, _, hm, hb⟩
    · simp only [hb]
      exact h
    · have hne := h.ne_of_firstFree hex.book hj
      simp only [hb]
      exact ⟨by simpa [hne] using h.nextBlockOut_eq, hm.busy_mono n i h.busy,
        (hm.content n).trans h.content_eq⟩
  | leave j hj =>
    have hne : i ≠ j := (ne_of_beq_false ha).symm
    exact h.of_seenAlike hn
      (seenAlike_deleteConsumer s.buf (s.buf.tcmask.lt_numBits_of_get hj) hne)
  | get16th j nb b' hj hg =>
    obtain ⟨_, _, rfl⟩ := get16th_eq_some hg
    exact ⟨h.nextBlockOut_eq, h.busy, h.content_eq⟩
  | unlock j hj =>
    have hne : i ≠ j := (ne_of_beq_false ha).symm
    exact h.of_seenAlike hn (seenAlike_unlock s.buf (s.buf.tcmask.lt_numBits_of_get hj) hne)
  | unlock16th j hj =>
    have hne : i ≠ j := (ne_of_beq_false ha).symm
    exact h.of_seenAlike hn (seenAlike_unlock16th s.buf (s.buf.tcmask.lt_numBits_of_get hj) hne)

end Reading

/-! ## Every reachable state -/

/-- In every reachable state, also in the middle of a put: a write changes only an unmarked
block; the block being written is the one at `next_block_in`, unmarked, and
`add_transient_consumer` does not touch it; and whatever happens next, a block that `get` or
`get_nowait` returns keeps its contents until its consumer gives it up. -/
theorem owned_block_not_overwritten {consumers blocks blockSize : ℕ} {blockPeriod : ℤ}
    (hc : consumers ≤ maxConsumers) (hb : 0 < blocks) {as : List CircAction}
    {tr : List CircEvent} {s : CircSys}
    (h : run CircSys.step (.start (bufferMalloc consumers blocks blockSize blockPeriod)) as
      = some (tr, s)) :
    (∀ call e t, s.step (.write call) = some (e, t) →
      ∀ n, t.buf.block n ≠ s.buf.block n → (s.buf.block n).busy.empty = true) ∧
    (∀ p nbi, s.pending = some p → p.target = some nbi →
      nbi = s.buf.nextBlockIn ∧ (s.buf.block nbi).busy.empty = true) ∧
    (∀ gps delta e t, s.step (.addTransientConsumer gps delta) = some (e, t) →
      t.buf.block s.buf.nextBlockIn = s.buf.block s.buf.nextBlockIn) ∧
    (∀ i n : ℕ, s.buf.get i = some n ∨ s.buf.getNowait i = n →
      ∀ bs tr' u, run CircSys.step s bs = some (tr', u) →
        (∀ a ∈ bs, a.releases i = false) →
        (u.buf.block n).content = (s.buf.block n).content) := by
  have hex : Exclusive s :=
    run_invariant Exclusive (fun _ _ _ _ _ hx hst => hx.step hst)
      (Exclusive.start (bookkeeping_bufferMalloc hc hb blockSize blockPeriod)) h
  refine ⟨fun call e t hst n hn => ?_, hex.target, fun gps delta e t hst => ?_, ?_⟩
  · cases CircSys.step_moves hst with
    | drop call hp h16 => exact absurd rfl hn
    | fill call b' hp hin hw he hf =>
      have : n = s.buf.nextBlockIn := by
        by_contra hne
        exact hn (hf.block_of_ne hne)
      exact this ▸ he
    | idle => exact absurd rfl hn
  · cases CircSys.step_moves hst with
    | idle => rfl
    | transient gps delta r hr =>
      rcases addTransientConsumer_cases hex.book.blocks_pos hr with
        ⟨_, hb⟩ | ⟨i, first, m, _, _, _, _, hm, hb⟩
      · simp only [hb]
      · simp only [hb, hm.stop_eq]
  · intro i n hget bs tr' u hrun hbs
    -- the two gets return the same block
    have hget' : s.buf.get i = some n := by
      rcases hget with hget | hget
      · exact hget
      · rw [getNowait_eq] at hget
        cases hg : s.buf.get i with
        | none => simp [hg] at hget
        | some m =>
          simp only [hg] at hget
          exact congrArg some (by exact_mod_cast hget)
    obtain ⟨hout, hbusy⟩ := get_eq_some hget'
    have hread : Exclusive u ∧ Reading i n (s.buf.block n).content u.buf := by
      refine run_invariant
        (fun v => Exclusive v ∧ Reading i n (s.buf.block n).content v.buf) ?_
        ⟨hex, hout.symm, hbusy, rfl⟩ hrun
      rintro v a ha e w ⟨hv, hr⟩ hst
      exact ⟨hv.step hst, hr.step hv (hbs a ha) hst⟩
    exact hread.2.content_eq

/-- A transient consumer joins while the second block is being written. -/
private def joinDuringPut : List CircAction :=
  [.write (.put [1, 2] (some { gps := 5 })), .publish,
   .write (.put [3] (some { gps := 6 })), .addTransientConsumer 5 1]

theorem owned_block_not_overwritten_joinDuringPut :
    ∃ tr s, run CircSys.step (.start (bufferMalloc 0 2 8 1)) joinDuringPut = some (tr, s) ∧
      s.pending = some (.whole 1) ∧ (s.buf.block 1).busy.empty = true ∧
      s.buf.get 0 = some 0 ∧
      ∀ bs tr' u, run CircSys.step s bs = some (tr', u) → (∀ a ∈ bs, a.releases 0 = false) →
        (u.buf.block 0).content = (s.buf.block 0).content := by
  have hrun : (run CircSys.step (.start (bufferMalloc 0 2 8 1)) joinDuringPut).map
      (fun r => (r.2.pending, r.2.buf.get 0)) = some (some (.whole 1), some 0) := by
    decide +kernel
  obtain ⟨⟨tr, s⟩, hr, heq⟩ := Option.map_eq_some_iff.mp hrun
  simp only [Prod.mk.injEq] at heq
  obtain ⟨hp, hget⟩ := heq
  obtain ⟨-, htarget, -, hkeep⟩ := owned_block_not_overwritten (by decide) (by decide) hr
  exact ⟨tr, s, hr, hp, (htarget _ 1 hp rfl).2, hget, hkeep 0 0 (.inl hget)⟩

end AdvLigoRts.Daqd
