import AdvLigoRts.Daqd.CircMarking

/-!
# Replay of a time range

A transient consumer is marked in the blocks of its window when it joins and in no block later, so
reading on from the first of them it gets exactly these, in order, whatever the producer and the
other consumers do in between (`Replaying`).
-/

namespace AdvLigoRts.Daqd

open PvLib CircBuffer

/-! ## What is asked for -/

/-- Consumer `c` is deleted by nobody, and unlocks with `unlock` and only what it got. -/
def ReaderOk (c : ℕ) (s : CircSys) : CircAction → Prop
  | .unlock i => i = c → (s.buf.get c).isSome = true
  | .unlock16th i => i ≠ c
  | .deleteConsumer i => i ≠ c
  | _ => True

instance (c : ℕ) (s : CircSys) : (a : CircAction) → Decidable (ReaderOk c s a)
  | .write _ | .publish | .addConsumer _ | .addTransientConsumer .. => .isTrue trivial
  | .deleteConsumer i => inferInstanceAs (Decidable (i ≠ c))
  | .get _ | .getNowait _ | .get16th _ => .isTrue trivial
  | .unlock i => inferInstanceAs (Decidable (i = c → _))
  | .unlock16th i => inferInstanceAs (Decidable (i ≠ c))

/-- From `t` on consumer `c` reads the blocks `w` one after the other and then gets -1: after any
steps of everybody, with `j` unlocks of its own among them, `get_nowait` returns the block `w[j]`,
as it was in `s`. -/
def Replays (c : ℕ) (w : List ℕ) (s t : CircSys) : Prop :=
  ∀ as tr u, run (restrict (ReaderOk c) CircSys.step) t as = some (tr, u) →
    let j := as.count (.unlock c)
    j ≤ w.length ∧ u.buf.tcmask.get c = true ∧
      u.buf.getNowait c = (w[j]?.map fun n => (n : ℤ)).getD (-1) ∧
      ∀ n, w[j]? = some n → (u.buf.block n).content = (s.buf.block n).content

/-- What a request for a time range has to do: refuse when the buffer is full of consumers; return
-2 when there is no block in the range; and else make a consumer that replays the range. -/
def ServesRange (s : CircSys) (gps delta : ℤ) (r : TransientResult) : Prop :=
  let w := s.buf.inWindow gps delta
  if s.buf.consumers ≥ maxConsumers then r.ret = -1 ∧ r.buf = s.buf
  else if w = [] then r.ret = -2 ∧ r.buf = s.buf
  else ∃ c : ℕ, r.ret = c ∧ s.buf.tcmask.get c = false ∧
    r.bstart = w.head?.map (fun n => (s.buf.block n).prop.gps) ∧
    r.blast = w.getLast?.map (fun n => (s.buf.block n).prop.gps) ∧
    Replays c w s { s with buf := r.buf }

/-- `add_transient_consumer` does it. -/
def ReplaysExactly (s : CircSys) (gps delta : ℤ) : Prop :=
  ∃ r, s.buf.addTransientConsumer gps delta = some r ∧ ServesRange s gps delta r

/-- Store `k` and the next one are both in a block other than the one at `next_block_in`: their
stamps differ by `block_period`. -/
def Stamped (s : StoreSys) : Prop :=
  ∀ k, s.stores < k + s.sys.buf.blocks → k + 1 < s.stores →
    (s.sys.buf.block ((k + 1) % s.sys.buf.blocks)).prop.gps =
      (s.sys.buf.block (k % s.sys.buf.blocks)).prop.gps + s.sys.buf.blockPeriod

/-! ## The reader -/

/-- Consumer `c` has read `j` of the `m` blocks from `first` on, in a ring of `blocks` blocks. -/
structure Replaying (blocks c first m : ℕ) (old : ℕ → Block) (j : ℕ) (s : CircSys) : Prop where
  exclusive : Exclusive s
  blocks_eq : s.buf.blocks = blocks
  joined : s.buf.tcmask.get c = true
  transient : s.buf.cmask.get c = false
  first_lt : first < blocks
  read_le : j ≤ m
  length_lt : m < blocks
  out_eq : s.buf.nextBlockOut c = ringAt blocks first j
  marks : ∀ n < blocks, (s.buf.block n).busy.get c = true ↔
    ∃ d, j ≤ d ∧ d < m ∧ n = ringAt blocks first d
  content_eq : ∀ d, j ≤ d → d < m →
    (s.buf.block (ringAt blocks first d)).content = (old (ringAt blocks first d)).content

namespace Replaying

variable {blocks c first m j : ℕ} {old : ℕ → Block} {s t : CircSys}

/-- A step that leaves the reader's marks and its blocks alone. -/
theorem of_same (h : Replaying blocks c first m old j s) (hex : Exclusive t)
    (hblocks : t.buf.blocks = s.buf.blocks) (hjoined : t.buf.tcmask.get c = true)
    (htransient : t.buf.cmask.get c = false) (hout : t.buf.nextBlockOut c = s.buf.nextBlockOut c)
    (hmarks : ∀ n < s.buf.blocks, (t.buf.block n).busy.get c = (s.buf.block n).busy.get c)
    (hcontent : ∀ n, (s.buf.block n).busy.get c = true →
      (t.buf.block n).content = (s.buf.block n).content) : Replaying blocks c first m old j t where
  exclusive := hex
  blocks_eq := hblocks.trans h.blocks_eq
  joined := hjoined
  transient := htransient
  first_lt := h.first_lt
  read_le := h.read_le
  length_lt := h.length_lt
  out_eq := by rw [hout, h.out_eq]
  marks n hn := by rw [hmarks n (h.blocks_eq ▸ hn), h.marks n hn]
  content_eq d hj hd := by
    have hlt := ringAt_lt (Nat.zero_lt_of_lt h.first_lt) first d
    have hmark := (h.marks _ hlt).mpr ⟨d, hj, hd, rfl⟩
    rw [hcontent _ hmark, h.content_eq d hj hd]

/-- What `get_nowait` returns. -/
theorem getNowait_eq (h : Replaying blocks c first m old j s) : s.buf.getNowait c =
    if j < m then (ringAt blocks first j : ℤ) else -1 := by
  have hlt := ringAt_lt (Nat.zero_lt_of_lt h.first_lt) first j
  have hmark := h.marks _ hlt
  have hm := h.length_lt
  unfold CircBuffer.getNowait
  dsimp only
  rw [h.out_eq]
  by_cases hj : j < m
  · rw [if_pos hj, if_pos (hmark.mpr ⟨j, le_refl j, hj, rfl⟩)]
  · rw [if_neg hj, if_neg]
    intro hbusy
    obtain ⟨d, hjd, hd, heq⟩ := hmark.mp hbusy
    omega

theorem get_isSome (h : Replaying blocks c first m old j s) (hget : (s.buf.get c).isSome = true) :
    j < m := by
  by_contra hj
  have hnone := h.getNowait_eq
  rw [if_neg hj, CircBuffer.getNowait_eq] at hnone
  cases hg : s.buf.get c with
  | none =>
    rw [hg] at hget
    cases hget
  | some n =>
    rw [hg] at hnone
    have hpos : (0 : ℤ) ≤ n := Int.natCast_nonneg n
    simp only at hnone
    omega

theorem unlock_self (h : Replaying blocks c first m old j s) (hget : (s.buf.get c).isSome = true)
    (hex : Exclusive { s with buf := s.buf.unlock c }) :
    Replaying blocks c first m old (j + 1) { s with buf := s.buf.unlock c } := by
  have hj := h.get_isSome hget
  have hm := h.length_lt
  have hbit := s.buf.tcmask.lt_numBits_of_get h.joined
  refine ⟨hex, h.blocks_eq, h.joined, h.transient, h.first_lt, hj, hm, ?_, fun n hn => ?_,
    fun d hd hdm => ?_⟩
  · show (Function.update s.buf.nextBlockOut c _) c = _
    rw [Function.update_self, h.out_eq, h.blocks_eq, succ_ringAt]
  · have hclear : ((s.buf.unlock c).block n).busy.get c =
        (decide (n ≠ ringAt blocks first j) && (s.buf.block n).busy.get c) := by
      rw [busy_unlock, h.out_eq]
      by_cases hne : n = ringAt blocks first j
      · simp [hne, hbit]
      · simp [hne]
    show ((s.buf.unlock c).block n).busy.get c = true ↔ _
    rw [hclear, Bool.and_eq_true, decide_eq_true_eq, h.marks n hn]
    constructor
    · rintro ⟨hne, d, hd, hdm, rfl⟩
      have hdj : d ≠ j := fun heq => hne (by rw [heq])
      exact ⟨d, by omega, hdm, rfl⟩
    · rintro ⟨d, hd, hdm, rfl⟩
      refine ⟨fun heq => ?_, d, by omega, hdm, rfl⟩
      have hdj := (ringAt_inj h.first_lt (by omega) (by omega)).mp heq
      omega
  · show ((s.buf.unlock c).block _).content = _
    rw [content_unlock]
    exact h.content_eq d (by omega) hdm

theorem step {a : CircAction} {e : CircEvent} (h : Replaying blocks c first m old j s)
    (hst : restrict (ReaderOk c) CircSys.step s a = some (e, t)) :
    Replaying blocks c first m old (if a = .unlock c then j + 1 else j) t := by
  obtain ⟨hok, hst⟩ := restrict_eq_some.mp hst
  have hex := h.exclusive.step hst
  have hbook := h.exclusive.book
  have hempty : ∀ n, (s.buf.block n).busy.empty = true → (s.buf.block n).busy.get c = false :=
    fun n he => CMask.get_of_empty _ he c
  by_cases ha : a = .unlock c
  · subst ha
    rw [if_pos rfl]
    cases CircSys.step_moves hst with
    | unlock i hi => exact h.unlock_self (hok rfl) hex
    | idle =>
      -- the step is not the empty one: the reader's position has moved
      have hstep : s.step (.unlock c) = some (.tau, { s with buf := s.buf.unlock c }) :=
        if_pos h.joined
      rw [hst] at hstep
      have hs := congrArg Prod.snd (Option.some.inj hstep)
      dsimp only at hs
      rw [hs]
      exact h.unlock_self (hok rfl) (hs ▸ hex)
  rw [if_neg ha]
  cases CircSys.step_moves hst with
  | drop call hp h16 =>
    exact h.of_same hex rfl h.joined h.transient rfl (fun _ _ => rfl) fun _ _ => rfl
  | fill call b' hp hin hw he hf =>
    obtain ⟨hblocks, _, _, _, hout, _, hcmask, _, htcmask⟩ := hf.frame
    refine h.of_same hex hblocks (htcmask ▸ h.joined) (hcmask ▸ h.transient) (congrFun hout c)
      (fun n _ => by rw [hf.busy]) fun n hmark => ?_
    -- the block being filled is nobody's
    have hne : n ≠ s.buf.nextBlockIn := by
      rintro rfl
      rw [hempty _ he] at hmark
      cases hmark
    rw [hf.block_of_ne hne]
  | publish p hp =>
    have htarget := fun nbi => h.exclusive.target p nbi hp
    cases p with
    | whole nbi =>
      obtain ⟨rfl, he⟩ := htarget nbi rfl
      refine h.of_same hex rfl h.joined h.transient rfl (fun n _ => ?_) fun n _ =>
        content_publish s.buf (.whole s.buf.nextBlockIn) n
      -- the transient consumer is not among those that the new block is for
      show ((s.buf.publishWhole s.buf.nextBlockIn).block n).busy.get c = _
      rw [busy_publishWhole]
      by_cases hn : n = s.buf.nextBlockIn
      · rw [if_pos hn, h.transient, hn, hempty _ he]
      · rw [if_neg hn]
    | sixteenth nbi nbi16th =>
      obtain ⟨rfl, he⟩ := htarget nbi rfl
      obtain ⟨hblocks, _, hout, _, _, _, _, _, _, hcmask, _, htcmask⟩ :=
        s.buf.publish16th_frame s.buf.nextBlockIn nbi16th
      refine h.of_same hex hblocks (htcmask ▸ h.joined) (hcmask ▸ h.transient) (congrFun hout c)
        (fun n _ => ?_) fun n _ => content_publish s.buf (.sixteenth s.buf.nextBlockIn nbi16th) n
      show ((s.buf.publish16th s.buf.nextBlockIn nbi16th).block n).busy.get c = _
      rw [busy_publish16th]
      by_cases hn : n = s.buf.nextBlockIn ∧ nbi16th = 15
      · rw [if_pos hn, h.transient, hn.1, hempty _ he]
      · rw [if_neg hn]
    | dropped => exact h.of_same hex rfl h.joined h.transient rfl (fun _ _ => rfl) fun _ _ => rfl
  | idle => exact h
  | join fast i hc hi =>
    obtain ⟨hlt, hfree⟩ := hbook.firstFree_lt hc hi
    have hbit := Bookkeeping.lt_numBits_of_lt hlt
    have hne : c ≠ i := by
      rintro rfl
      rw [h.joined] at hfree
      cases hfree
    refine h.of_same hex rfl ?_ ?_ (Function.update_of_ne hne _ _) (fun _ _ => rfl) fun _ _ => rfl
    · show (s.buf.tcmask.set i).get c = true
      rw [CMask.get_set _ hbit, h.joined, Bool.or_true]
    · show (s.buf.cmask.set i).get c = false
      rw [CMask.get_set _ hbit, h.transient, Bool.or_false, decide_eq_false_iff_not]
      exact hne
  | transient gps delta r hr =>
    rcases addTransientConsumer_cases hbook.blocks_pos hr with
      ⟨_, hb⟩ | ⟨i, f, mk, hc, hi, _, _, hm, hb⟩
    · have ht : ({ s with buf := r.buf } : CircSys) = s := by rw [hb]
      rw [ht]
      exact h
    · have hfree := hbook.firstFree_lt hc hi
      have hbit := Bookkeeping.lt_numBits_of_lt hfree.1
      have hne : c ≠ i := by
        rintro rfl
        rw [h.joined] at hfree
        cases hfree.2
      refine h.of_same hex ?_ ?_ ?_ ?_ (fun n _ => ?_) fun n _ => ?_
      · simp only [hb]
      · simp only [hb]
        rw [CMask.get_set _ hbit, h.joined, Bool.or_true]
      · simp only [hb]
        exact h.transient
      · simp only [hb]
        exact Function.update_of_ne hne _ _
      · simp only [hb]
        rw [Bool.eq_iff_iff]
        exact ⟨fun hmark => (hm.busy_le n c hmark).resolve_right hne, hm.busy_mono n c⟩
      · simp only [hb]
        exact hm.content n
  | leave i hi =>
    have hne : c ≠ i := fun heq => hok heq.symm
    have hbit := s.buf.tcmask.lt_numBits_of_get hi
    have halike := seenAlike_deleteConsumer s.buf hbit hne
    refine h.of_same hex rfl ?_ ?_ rfl halike.busy_eq fun n _ => content_deleteConsumer s.buf i n
    · show (s.buf.tcmask.clear i).get c = true
      simpa [hbit, hne] using h.joined
    · show (s.buf.deleteConsumer i).cmask.get c = false
      rw [cmask_deleteConsumer s.buf hbit, h.transient, Bool.and_false]
  | get16th i nb b' hi hn =>
    obtain ⟨_, _, rfl⟩ := get16th_eq_some hn
    exact h.of_same hex rfl h.joined h.transient rfl (fun _ _ => rfl) fun _ _ => rfl
  | unlock i hi =>
    have hne : c ≠ i := by
      rintro rfl
      exact ha rfl
    have halike := seenAlike_unlock s.buf (s.buf.tcmask.lt_numBits_of_get hi) hne
    exact h.of_same hex rfl h.joined h.transient halike.nextBlockOut_eq halike.busy_eq fun n _ =>
      content_unlock s.buf i n
  | unlock16th i hi =>
    have hne : c ≠ i := fun heq => hok heq.symm
    have halike := seenAlike_unlock16th s.buf (s.buf.tcmask.lt_numBits_of_get hi) hne
    exact h.of_same hex rfl h.joined h.transient halike.nextBlockOut_eq halike.busy_eq fun n _ =>
      content_unlock16th s.buf i n

theorem run_count {as : List CircAction} {tr : List CircEvent}
    (h : Replaying blocks c first m old j s)
    (hrun : run (restrict (ReaderOk c) CircSys.step) s as = some (tr, t)) :
    Replaying blocks c first m old (j + as.count (.unlock c)) t := by
  induction as generalizing j s tr with
  | nil =>
    obtain ⟨-, rfl⟩ := Prod.mk.inj (Option.some.inj hrun)
    exact h
  | cons a as ih =>
    obtain ⟨e, u, es, hst, hrest, rfl⟩ := run_cons hrun
    have hnext := ih (h.step hst) hrest
    rw [List.count_cons]
    by_cases ha : a = .unlock c
    · rw [if_pos ha] at hnext
      rw [if_pos (beq_iff_eq.mpr ha)]
      have hsum : j + (as.count (.unlock c) + 1) = j + 1 + as.count (.unlock c) := by omega
      rw [hsum]
      exact hnext
    · rw [if_neg ha] at hnext
      rw [if_neg (fun hb => ha (beq_iff_eq.mp hb))]
      exact hnext

/-- The reader gets its blocks in order. -/
theorem replays (h : Replaying blocks c first m s.buf.block 0 t) :
    Replays c ((List.range m).map (ringAt blocks first)) s t := by
  intro as tr u hrun
  have hu := h.run_count hrun
  rw [Nat.zero_add] at hu
  have hentry : ((List.range m).map (ringAt blocks first))[as.count (.unlock c)]? =
      if as.count (.unlock c) < m then some (ringAt blocks first (as.count (.unlock c)))
      else none := by
    rw [List.getElem?_map]
    by_cases hlt : as.count (.unlock c) < m
    · rw [if_pos hlt, List.getElem?_range hlt]
      rfl
    · rw [if_neg hlt, List.getElem?_eq_none (by rw [List.length_range]; omega)]
      rfl
  refine ⟨?_, hu.joined, ?_, fun n hn => ?_⟩
  · rw [List.length_map, List.length_range]
    exact hu.read_le
  · rw [hu.getNowait_eq, hentry]
    split
    · rfl
    · rfl
  · rw [hentry] at hn
    split at hn
    · rename_i hlt
      cases hn
      exact hu.content_eq _ (le_refl _) hlt
    · cases hn

end Replaying

/-! ## The range of a request -/

theorem Stored.inWindow_eq {s : StoreSys} (h : Stored s) (hstamped : Stamped s) {gps : ℤ}
    (hgps : 0 < gps) (delta : ℤ) :
    ∃ first m, first < s.sys.buf.blocks ∧ m < s.sys.buf.blocks ∧
      s.sys.buf.inWindow gps delta = (List.range m).map (ringAt s.sys.buf.blocks first) := by
  have hpos := h.exclusive.book.blocks_pos
  have hlinear := convex_linear (max (s.stores + 1) s.sys.buf.blocks)
    (s.stores + 1 + (s.sys.buf.blocks - 1))
    (fun t => (s.sys.buf.block (t % s.sys.buf.blocks)).prop.gps) gps (gps + delta) (by
      intro t hlo hhi
      have hk := hstamped (t - s.sys.buf.blocks) (by omega) (by omega)
      have ht : t - s.sys.buf.blocks + s.sys.buf.blocks = t := by omega
      have hmod : (t - s.sys.buf.blocks) % s.sys.buf.blocks = t % s.sys.buf.blocks := by
        conv_rhs => rw [← ht, Nat.add_mod_right]
      have hmod' : (t - s.sys.buf.blocks + 1) % s.sys.buf.blocks = (t + 1) % s.sys.buf.blocks := by
        conv_rhs => rw [← ht, Nat.add_right_comm, Nat.add_mod_right]
      rw [hmod, hmod'] at hk
      exact hk)
  -- a block that no put has reached has the stamp zero, which is before the window
  have hconvex := hlinear.of_none_below (s.stores + 1) (by
    rintro t hlo hlt ⟨hge, -⟩
    have hzero := h.stamp_of_unfilled (n := t) (by omega) (by omega)
    omega)
  obtain ⟨first, m, hfilter, hfirst, hend⟩ := exists_filter_range' (s.sys.buf.blocks - 1) hconvex
  refine ⟨first % s.sys.buf.blocks, m, Nat.mod_lt _ hpos, by omega, ?_⟩
  have hwindow : s.sys.buf.inWindow gps delta =
      (List.range' first m).map (· % s.sys.buf.blocks) := by
    rw [inWindow, h.others_eq, List.filter_map, ← hfilter]
    rfl
  rw [hwindow, List.range'_eq_map_range, List.map_map]
  apply List.map_congr_left
  intro d _
  show (first + d) % _ = (first % _ + d) % _
  rw [Nat.mod_add_mod]

theorem replays_of_join {s : StoreSys} (h : Stored s) (hstamped : Stamped s) {gps delta : ℤ}
    (hgps : 0 < gps) {c : ℕ} {r : TransientResult} (hc : s.sys.buf.tcmask.firstFree = some c)
    (hfree : s.sys.buf.consumers < maxConsumers) (hw : s.sys.buf.inWindow gps delta ≠ [])
    (hadd : ∃ gps delta, s.sys.buf.addTransientConsumer gps delta = some r)
    (hr : r.buf = { s.sys.buf with
      block := fun n => if n ∈ s.sys.buf.inWindow gps delta then (s.sys.buf.block n).markFor c
        else s.sys.buf.block n
      tcmask := s.sys.buf.tcmask.set c
      consumers := s.sys.buf.consumers + 1
      transientConsumers := s.sys.buf.transientConsumers + 1
      nextBlockOut := Function.update s.sys.buf.nextBlockOut c
        ((s.sys.buf.inWindow gps delta).head?.getD 0) }) :
    Replays c (s.sys.buf.inWindow gps delta) s.sys { s.sys with buf := r.buf } := by
  have hbook := h.exclusive.book
  obtain ⟨hlt, hnew⟩ := hbook.firstFree_lt hfree hc
  have hbit := Bookkeeping.lt_numBits_of_lt hlt
  obtain ⟨first, m, hfirst, hm, hwindow⟩ := h.inWindow_eq hstamped hgps delta
  have hmpos : 0 < m := by
    rcases Nat.eq_zero_or_pos m with rfl | hpos
    · exact absurd hwindow hw
    · exact hpos
  have hmem : ∀ n, n ∈ s.sys.buf.inWindow gps delta ↔
      ∃ d, 0 ≤ d ∧ d < m ∧ n = ringAt s.sys.buf.blocks first d := by
    intro n
    rw [hwindow, List.mem_map]
    constructor
    · rintro ⟨d, hd, rfl⟩
      exact ⟨d, Nat.zero_le d, List.mem_range.mp hd, rfl⟩
    · rintro ⟨d, -, hd, rfl⟩
      exact ⟨d, List.mem_range.mpr hd, rfl⟩
  have hhead : (s.sys.buf.inWindow gps delta).head?.getD 0 =
      ringAt s.sys.buf.blocks first 0 := by
    obtain ⟨k, rfl⟩ : ∃ k, m = k + 1 := ⟨m - 1, by omega⟩
    rw [hwindow, List.range_succ_eq_map]
    rfl
  obtain ⟨g, l, hadd⟩ := hadd
  have hstep : s.sys.step (.addTransientConsumer g l) =
      some (.tau, { s.sys with buf := r.buf }) := by
    simp only [CircSys.step, hadd]
  rw [hwindow]
  apply Replaying.replays
  refine ⟨h.exclusive.step hstep, ?_, ?_, ?_, hfirst, Nat.zero_le m, hm, ?_, fun n hn => ?_,
    fun d _ hd => ?_⟩
  · simp only [hr]
  · simp only [hr]
    rw [CMask.get_set _ hbit, decide_eq_true rfl, Bool.true_or]
  · simp only [hr]
    by_contra hin
    rw [hbook.cmask_get (by simpa using hin)] at hnew
    cases hnew
  · simp only [hr, Function.update_self]
    exact hhead
  · simp only [hr]
    rw [← hmem]
    by_cases hin : n ∈ s.sys.buf.inWindow gps delta
    · rw [if_pos hin]
      have hmark : ((s.sys.buf.block n).busy.set c).get c = true := by
        rw [CMask.get_set _ hbit, decide_eq_true rfl, Bool.true_or]
      exact iff_of_true hmark hin
    · rw [if_neg hin, hbook.busy_get_of_not_tcmask hnew hn]
      exact iff_of_false Bool.false_ne_true hin
  · simp only [hr]
    split
    · rfl
    · rfl

theorem numPuts_eq_zero_iff (b : CircBuffer) : b.numPuts = 0 ↔ 2 ^ 32 ∣ b.puts := by
  unfold numPuts toInt
  rw [← Int.dvd_iff_bmod_eq_zero]
  exact_mod_cast Iff.rfl

/-- With the counter at zero no window is looked at. -/
theorem not_replaysExactly {s : CircSys} (hbook : Bookkeeping s.buf) {gps delta : ℤ}
    (hfree : s.buf.consumers < maxConsumers) (hputs : s.buf.numPuts = 0)
    (hw : s.buf.inWindow gps delta ≠ []) : ¬ ReplaysExactly s gps delta := by
  obtain ⟨i, -, hadd⟩ := addTransientConsumer_eq hbook gps delta
  rw [if_neg (not_le.mpr hfree), if_pos (Or.inl hputs)] at hadd
  rintro ⟨r, hr, hserves⟩
  rw [hadd, Option.some.injEq] at hr
  subst hr
  rw [ServesRange, if_neg (not_le.mpr hfree), if_neg hw] at hserves
  obtain ⟨c, hret, -⟩ := hserves
  have hneg : (-2 : ℤ) = c := hret
  omega

/-- In every reachable state whose stored blocks carry stamps that grow by `block_period`, a
request for a time range is served exactly, except where the number of puts is a multiple of 2^32
while there are blocks in the range. -/
theorem replay_exact_iff {consumers blocks blockSize : ℕ} {blockPeriod : ℤ}
    (hc : consumers ≤ maxConsumers) (hb : 0 < blocks) {as : List CircAction}
    {tr : List CircEvent} {s : StoreSys}
    (h : run StoreSys.step (.start (bufferMalloc consumers blocks blockSize blockPeriod)) as =
      some (tr, s))
    (hstamped : Stamped s) {gps delta : ℤ} (hgps : 0 < gps) (hdelta : 0 < delta) :
    ReplaysExactly s.sys gps delta ↔
      (s.sys.buf.consumers ≥ maxConsumers ∨ ¬ 2 ^ 32 ∣ s.sys.buf.puts ∨
        s.sys.buf.inWindow gps delta = []) := by
  have hstored := Stored.of_run hc hb h
  obtain ⟨i, hi, hadd⟩ := addTransientConsumer_eq hstored.exclusive.book gps delta
  have hwindow : s.sys.buf.playbackWindow gps delta = (gps, delta) := if_neg (by omega)
  rw [hwindow] at hadd
  have hserves : ∀ r, s.sys.buf.addTransientConsumer gps delta = some r →
      (ReplaysExactly s.sys gps delta ↔ ServesRange s.sys gps delta r) := by
    intro r hr
    unfold ReplaysExactly
    rw [hr]
    simp only [Option.some.injEq, exists_eq_left']
  rw [← numPuts_eq_zero_iff]
  by_cases hfull : s.sys.buf.consumers ≥ maxConsumers
  · rw [if_pos hfull] at hadd
    rw [hserves _ hadd, ServesRange, if_pos hfull]
    exact iff_of_true ⟨rfl, rfl⟩ (Or.inl hfull)
  · rw [if_neg hfull] at hadd
    by_cases hw : s.sys.buf.inWindow gps delta = []
    · rw [if_pos (Or.inr hw)] at hadd
      rw [hserves _ hadd, ServesRange, if_neg hfull, if_pos hw]
      exact iff_of_true ⟨rfl, rfl⟩ (Or.inr (Or.inr hw))
    · by_cases hputs : s.sys.buf.numPuts = 0
      · -- the counter has come round to zero, and the data in the window is not looked for
        refine iff_of_false
          (not_replaysExactly hstored.exclusive.book (not_le.mp hfull) hputs hw) ?_
        rintro (hfull' | hne | hnil)
        · exact hfull hfull'
        · exact hne hputs
        · exact hw hnil
      · rw [if_neg (not_or.mpr ⟨hputs, hw⟩)] at hadd
        have hfirst := hi (not_le.mp hfull)
        rw [hserves _ hadd, ServesRange, if_neg hfull, if_neg hw]
        refine iff_of_true ⟨i, rfl, ?_, rfl, rfl, ?_⟩ (Or.inr (Or.inl hputs))
        · exact (hstored.exclusive.book.firstFree_lt (not_le.mp hfull) hfirst).2
        · exact replays_of_join hstored hstamped hgps hfirst (not_le.mp hfull) hw
            ⟨gps, delta, hadd⟩ rfl

/-- A ring of three blocks with a reader that stays behind, full of data. -/
private def fullOfData : List CircAction :=
  [.write (.putNowait [1] (some { gps := 10 })), .publish,
    .write (.putNowait [2] (some { gps := 11 })), .publish,
    .write (.putNowait [3] (some { gps := 12 })), .publish]

/-- The two newest blocks of a ring that has wrapped, over its end. -/
theorem replay_exact_iff_wrapped :
    ∃ tr s, run StoreSys.step (.start (bufferMalloc 1 3 8 1))
        (fullOfData ++ [.unlock 0, .write (.putNowait [4] (some { gps := 13 })), .publish]) =
      some (tr, s) ∧ s.sys.buf.inWindow 12 2 = [2, 0] ∧ ReplaysExactly s.sys 12 2 := by
  have hfill : (run StoreSys.step (.start (bufferMalloc 1 3 8 1))
      (fullOfData ++ [.unlock 0, .write (.putNowait [4] (some { gps := 13 })), .publish])).map
        (fun r => (r.2.sys.buf.inWindow 12 2,
          [r.2.sys.buf.blocks, r.2.stores, r.2.sys.buf.puts],
          [r.2.sys.buf.blockPeriod, (r.2.sys.buf.block 2).prop.gps,
            (r.2.sys.buf.block 0).prop.gps])) =
      some ([2, 0], [3, 4, 4], [1, 12, 13]) := by
    decide +kernel
  obtain ⟨⟨tr, s⟩, hr, heq⟩ := Option.map_eq_some_iff.mp hfill
  simp only [Prod.mk.injEq, List.cons.injEq, and_true] at heq
  obtain ⟨hw, ⟨hblocks, hstores, hputs⟩, hperiod, hgps, hgps'⟩ := heq
  have hstamped : Stamped s := by
    intro k hlo hhi
    rw [hblocks, hstores] at hlo
    rw [hstores] at hhi
    obtain rfl : k = 2 := by omega
    rw [hblocks]
    show (s.sys.buf.block 0).prop.gps = (s.sys.buf.block 2).prop.gps + s.sys.buf.blockPeriod
    rw [hgps, hgps', hperiod]
    rfl
  have hiff := replay_exact_iff (by decide) (by decide) hr hstamped
    (show (0 : ℤ) < 12 by decide) (show (0 : ℤ) < 2 by decide)
  refine ⟨tr, s, hr, hw, hiff.mpr (Or.inr (Or.inl ?_))⟩
  rw [hputs]
  decide

/-- While a reader holds the block at `next_block_in`, `put_nowait` only counts. -/
theorem run_dropped (data : List UInt8) (prop : Option BlockProp) {s : StoreSys}
    (hidle : s.sys.pending = none)
    (hbusy : ¬ (s.sys.buf.block s.sys.buf.nextBlockIn).busy.empty = true)
    (hlen : data.length ≤ s.sys.buf.blockSize) (k : ℕ) :
    ∃ tr, run StoreSys.step s
        (List.replicate k [.write (.putNowait data prop), .publish]).flatten =
      some (tr, { s with sys.buf.puts := s.sys.buf.puts + k
                         sys.buf.drops := s.sys.buf.drops + k }) := by
  induction k with
  | zero => exact ⟨[], rfl⟩
  | succ k ih =>
    obtain ⟨tr, hrun⟩ := ih
    rw [List.replicate_succ', List.flatten_append, List.flatten_singleton]
    refine ⟨tr ++ [.tau, .tau], run_append hrun ?_⟩
    simp [run, StoreSys.step, CircSys.step, CircSys.write, CircSys.publish, PutCall.write,
      PutCall.InBlock, putNowaitWrite, fillOrDrop, hidle, hbusy, hlen, completesBlock,
      Pending.publish, publishEvent, Nat.add_assoc]

/-- After 2^32 calls of `put_nowait`, all but three of them dropped, the newest block is not
found. -/
theorem replay_refused_after_wrap :
    ∃ as tr s, run StoreSys.step (.start (bufferMalloc 1 3 8 1)) as = some (tr, s) ∧
      Stamped s ∧ s.sys.buf.inWindow 12 1 = [2] ∧
      (∃ r, s.sys.buf.addTransientConsumer 12 1 = some r ∧ r.ret = -2) ∧
      ¬ ReplaysExactly s.sys 12 1 := by
  have hfill : (run StoreSys.step (.start (bufferMalloc 1 3 8 1)) fullOfData).map (fun r =>
      (r.2.sys.pending, (r.2.sys.buf.block r.2.sys.buf.nextBlockIn).busy.empty,
        r.2.sys.buf.inWindow 12 1,
        [r.2.sys.buf.blockSize, r.2.sys.buf.blocks, r.2.stores, r.2.sys.buf.puts],
        [r.2.sys.buf.blockPeriod, r.2.sys.buf.consumers, (r.2.sys.buf.block 1).prop.gps,
          (r.2.sys.buf.block 2).prop.gps])) =
      some (none, false, [2], [8, 3, 3, 3], [1, 1, 11, 12]) := by
    decide +kernel
  obtain ⟨⟨tr, s⟩, hr, heq⟩ := Option.map_eq_some_iff.mp hfill
  simp only [Prod.mk.injEq, List.cons.injEq, and_true] at heq
  obtain ⟨hidle, hbusy, hw, ⟨hsize, hblocks, hstores, hputs⟩, hperiod, hcons, hgps, hgps'⟩ := heq
  obtain ⟨tr', hdrop⟩ := run_dropped [4] none hidle (by simp [hbusy])
    (by simp [hsize]) (2 ^ 32 - 3)
  have hrun := run_append hr hdrop
  have hstored := Stored.of_run (by decide) (by decide) hrun
  generalize hu : ({ s with sys.buf.puts := s.sys.buf.puts + (2 ^ 32 - 3)
                            sys.buf.drops := s.sys.buf.drops + (2 ^ 32 - 3) } : StoreSys) = u
    at hrun hstored
  have hblocks' : u.sys.buf.blocks = 3 := hu ▸ hblocks
  have hstores' : u.stores = 3 := hu ▸ hstores
  have hfree : u.sys.buf.consumers < maxConsumers := by
    rw [← hu, hcons]
    decide
  have hw' : u.sys.buf.inWindow 12 1 = [2] := hu ▸ hw
  have hzero : u.sys.buf.numPuts = 0 := by
    rw [numPuts_eq_zero_iff, ← hu, hputs]
    exact ⟨1, by norm_num⟩
  have hne : u.sys.buf.inWindow 12 1 ≠ [] := hw' ▸ List.cons_ne_nil 2 []
  refine ⟨_, _, u, hrun, ?_, hw', ?_, not_replaysExactly hstored.exclusive.book hfree hzero hne⟩
  · intro k hlo hhi
    rw [hblocks', hstores'] at hlo
    rw [hstores'] at hhi
    obtain rfl : k = 1 := by omega
    rw [hblocks', ← hu]
    show (s.sys.buf.block 2).prop.gps = (s.sys.buf.block 1).prop.gps + s.sys.buf.blockPeriod
    rw [hgps, hgps', hperiod]
    rfl
  · obtain ⟨i, -, hadd⟩ := addTransientConsumer_eq hstored.exclusive.book 12 1
    rw [if_neg (not_le.mpr hfree), if_pos (Or.inl hzero)] at hadd
    exact ⟨_, hadd, rfl⟩

end AdvLigoRts.Daqd
