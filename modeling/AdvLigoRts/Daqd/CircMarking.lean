import AdvLigoRts.Daqd.CircFree
import AdvLigoRts.Lib.Window

/-!
# What `add_transient_consumer` marks

The marking loop visits every block but the one at `next_block_in`, oldest first, and marks those
with a stamp in the window (`addTransientConsumer_eq`).
-/

namespace AdvLigoRts.Daqd

open PvLib CircBuffer

/-! ## The marking loop -/

def Block.InWindow (gps delta : ℤ) (blk : Block) : Prop :=
  gps ≤ blk.prop.gps ∧ blk.prop.gps < gps + delta

instance (gps delta : ℤ) (blk : Block) : Decidable (blk.InWindow gps delta) :=
  inferInstanceAs (Decidable (_ ∧ _))

namespace CircBuffer

variable (b : CircBuffer)

/-- All blocks but the one at `next_block_in`, oldest first. -/
def others : List ℕ := (List.range' 1 (b.blocks - 1)).map (ringAt b.blocks b.nextBlockIn)

/-- Those of them with a stamp in the window. -/
def inWindow (gps delta : ℤ) : List ℕ :=
  b.others.filter fun n => (b.block n).InWindow gps delta

end CircBuffer

namespace CircBuffer.Marking

variable {blocks stop : ℕ}

theorem mark_of_inWindow {consNum i : ℕ} {gps delta : ℤ} {m : Marking}
    (h : (m.block i).InWindow gps delta) :
    m.mark consNum gps delta i =
      { block := Function.update m.block i ((m.block i).markFor consNum)
        firstBlock := m.firstBlock <|> some i
        bstart := if m.firstBlock.isNone then some (m.block i).prop.gps else m.bstart
        blast := some (m.block i).prop.gps } := if_pos h

theorem mark_of_not_inWindow {consNum i : ℕ} {gps delta : ℤ} {m : Marking}
    (h : ¬ (m.block i).InWindow gps delta) : m.mark consNum gps delta i = m := if_neg h

/-- The body of the loop for one block after another. -/
def markAll (consNum : ℕ) (gps delta : ℤ) (l : List ℕ) (m : Marking) : Marking :=
  l.foldl (fun m i => Marking.mark consNum gps delta i m) m

/-- The loop runs over the blocks from position `d` on. -/
theorem loop_eq_markAll (consNum : ℕ) (gps delta : ℤ) (hstop : stop < blocks) (k : ℕ) {d fuel : ℕ}
    (hd : 0 < d) (hdk : d + k = blocks) (hfuel : k ≤ fuel) (m : Marking) :
    Marking.loop consNum gps delta blocks stop fuel (ringAt blocks stop d) m =
      markAll consNum gps delta ((List.range' d k).map (ringAt blocks stop)) m := by
  induction k generalizing d fuel m with
  | zero =>
    -- the loop is back at the block where it stops
    have hback : ringAt blocks stop d = stop := by
      rw [show d = blocks by omega, ringAt_self hstop]
    rw [hback]
    cases fuel with
    | zero => rfl
    | succ fuel => exact if_pos rfl
  | succ k ih =>
    obtain ⟨fuel, rfl⟩ : ∃ f, fuel = f + 1 := ⟨fuel - 1, by omega⟩
    have hne : ringAt blocks stop d ≠ stop := by
      intro heq
      have hzero := (ringAt_inj hstop (by omega) (by omega)).mp (heq.trans (ringAt_zero hstop).symm)
      omega
    rw [Marking.loop, if_neg hne, succ_ringAt, ih (Nat.succ_pos d) (by omega) (by omega),
      List.range'_succ, List.map_cons, markAll, markAll, List.foldl_cons]

theorem markAll_spec (consNum : ℕ) (gps delta : ℤ) (old : ℕ → Block) {l : List ℕ}
    (hnodup : l.Nodup) :
    let m := markAll consNum gps delta l ⟨old, none, none, none⟩
    let w := l.filter fun n => (old n).InWindow gps delta
    (∀ n, m.block n = if n ∈ w then (old n).markFor consNum else old n) ∧
      m.firstBlock = w.head? ∧ m.bstart = w.head?.map (fun n => (old n).prop.gps) ∧
      m.blast = w.getLast?.map (fun n => (old n).prop.gps) := by
  induction l using List.reverseRecOn with
  | nil => exact ⟨fun _ => rfl, rfl, rfl, rfl⟩
  | append_singleton l i ih =>
    rw [List.nodup_append] at hnodup
    obtain ⟨hblock, hfirst, hbstart, hblast⟩ := ih hnodup.1
    have hi : i ∉ l := fun hmem => hnodup.2.2 i hmem i List.mem_cons_self rfl
    have hiw : i ∉ l.filter fun n => (old n).InWindow gps delta := fun hmem =>
      hi (List.mem_filter.mp hmem).1
    dsimp only at *
    have hsnoc : markAll consNum gps delta (l ++ [i]) ⟨old, none, none, none⟩ =
        Marking.mark consNum gps delta i (markAll consNum gps delta l ⟨old, none, none, none⟩) := by
      rw [markAll, List.foldl_append]
      rfl
    rw [hsnoc]
    generalize markAll consNum gps delta l ⟨old, none, none, none⟩ = m at *
    have hold : m.block i = old i := by rw [hblock, if_neg hiw]
    by_cases hin : (old i).InWindow gps delta
    · have hlast : [i].filter (fun n => (old n).InWindow gps delta) = [i] := by simp [hin]
      rw [mark_of_inWindow (hold ▸ hin), hold, List.filter_append, hlast]
      refine ⟨fun n => ?_, ?_, ?_, ?_⟩
      · by_cases hn : n = i
        · subst hn
          simp
        · have hmem : n ∈ l.filter (fun n => (old n).InWindow gps delta) ++ [i] ↔
              n ∈ l.filter fun n => (old n).InWindow gps delta := by simp [hn]
          simp only [Function.update_of_ne hn, hblock n, hmem]
      · rw [hfirst]
        cases l.filter fun n => (old n).InWindow gps delta with
        | nil => rfl
        | cons a w => rfl
      · rw [hfirst, hbstart]
        cases l.filter fun n => (old n).InWindow gps delta with
        | nil => rfl
        | cons a w => rfl
      · rw [List.getLast?_concat]
        rfl
    · have hlast : [i].filter (fun n => (old n).InWindow gps delta) = [] := by simp [hin]
      rw [mark_of_not_inWindow (hold ▸ hin), List.filter_append, hlast, List.append_nil]
      exact ⟨hblock, hfirst, hbstart, hblast⟩

end CircBuffer.Marking

namespace CircBuffer

variable {b : CircBuffer}

theorem nodup_others (hin : b.nextBlockIn < b.blocks) : b.others.Nodup := by
  apply List.Nodup.map_on
  · intro d hd d' hd' heq
    have hd := List.mem_range'_1.mp hd
    have hd' := List.mem_range'_1.mp hd'
    exact (ringAt_inj hin (by omega) (by omega)).mp heq
  · exact List.nodup_range'

theorem mem_others (hin : b.nextBlockIn < b.blocks) {n : ℕ} :
    n ∈ b.others ↔ n < b.blocks ∧ n ≠ b.nextBlockIn := by
  unfold others
  rw [List.mem_map]
  constructor
  · rintro ⟨d, hd, rfl⟩
    have hd := List.mem_range'_1.mp hd
    refine ⟨ringAt_lt (by omega) _ _, fun heq => ?_⟩
    have hzero := (ringAt_inj hin (by omega) (by omega)).mp (heq.trans (ringAt_zero hin).symm)
    omega
  · rintro ⟨hn, hne⟩
    have hlt := ringOffset_lt (by omega : 0 < b.blocks) b.nextBlockIn n
    refine ⟨ringOffset b.blocks b.nextBlockIn n, List.mem_range'_1.mpr ⟨?_, by omega⟩,
      ringAt_ringOffset hin hn⟩
    by_contra hzero
    have hback := ringAt_ringOffset hin hn
    rw [show ringOffset b.blocks b.nextBlockIn n = 0 by omega, ringAt_zero hin] at hback
    exact hne hback.symm

/-- All that `add_transient_consumer` does once it has its window. -/
theorem addTransientConsumer_eq (hbook : Bookkeeping b) (gps delta : ℤ) :
    let w := b.inWindow (b.playbackWindow gps delta).1 (b.playbackWindow gps delta).2
    ∃ i : ℕ, (b.consumers < maxConsumers → b.tcmask.firstFree = some i) ∧
      b.addTransientConsumer gps delta =
        if b.consumers ≥ maxConsumers then some ⟨-1, none, none, b⟩
        else if b.numPuts = 0 ∨ w = [] then some ⟨-2, none, none, b⟩
        else some ⟨i, w.head?.map fun n => (b.block n).prop.gps,
          w.getLast?.map fun n => (b.block n).prop.gps,
          { b with
            block := fun n => if n ∈ w then (b.block n).markFor i else b.block n
            tcmask := b.tcmask.set i
            consumers := b.consumers + 1
            transientConsumers := b.transientConsumers + 1
            nextBlockOut := Function.update b.nextBlockOut i (w.head?.getD 0) }⟩ := by
  intro w
  by_cases hfull : b.consumers ≥ maxConsumers
  · refine ⟨0, fun hlt => absurd hlt (by omega), ?_⟩
    rw [if_pos hfull, addTransientConsumer, if_pos hfull]
  · obtain ⟨i, hi, -⟩ := hbook.exists_firstFree (not_le.mp hfull)
    refine ⟨i, fun _ => hi, ?_⟩
    rw [if_neg hfull, addTransientConsumer, if_neg hfull]
    by_cases hputs : b.numPuts = 0
    · rw [if_pos hputs, if_pos (Or.inl hputs)]
    · have hin := hbook.nextBlockIn_lt
      have hloop := Marking.loop_eq_markAll i (b.playbackWindow gps delta).1
        (b.playbackWindow gps delta).2 hin (b.blocks - 1) Nat.one_pos (by omega)
        (Nat.sub_le b.blocks 1) ⟨b.block, none, none, none⟩
      obtain ⟨hblock, hfirst, hbstart, hblast⟩ := Marking.markAll_spec i
        (b.playbackWindow gps delta).1 (b.playbackWindow gps delta).2 b.block (nodup_others hin)
      have hstart : (b.nextBlockIn + circBufferTransientThresh) % b.blocks =
          ringAt b.blocks b.nextBlockIn 1 := rfl
      rw [if_neg hputs, hi]
      dsimp only
      rw [hstart, hloop]
      have hothers : (List.range' 1 (b.blocks - 1)).map (ringAt b.blocks b.nextBlockIn) =
        b.others :=
        rfl
      rw [hothers]
      generalize Marking.markAll i _ _ b.others _ = m at *
      have hw : b.others.filter (fun n => (b.block n).InWindow (b.playbackWindow gps delta).1
          (b.playbackWindow gps delta).2) = w := rfl
      rw [hw] at hblock hfirst hbstart hblast
      rw [hfirst, hbstart, hblast]
      have hblocks : m.block = fun n => if n ∈ w then (b.block n).markFor i else b.block n := by
        funext n
        exact hblock n
      rw [hblocks]
      cases hcase : w with
      | nil =>
        -- nothing was marked
        simp
      | cons a w' => simp [hputs]

end CircBuffer

/-! ## The blocks stored so far -/

/-- The system, and the number of whole blocks stored so far. -/
structure StoreSys where
  sys : CircSys
  stores : ℕ

/-- Publishing this put completes a block. -/
def completesBlock : Option Pending → Bool
  | some (.whole _) => true
  | some (.sixteenth _ nbi16th) => nbi16th == 15
  | _ => false

namespace StoreSys

/-- A buffer nobody has used yet. -/
def start (b : CircBuffer) : StoreSys := ⟨.start b, 0⟩

def step (s : StoreSys) (a : CircAction) : Option (CircEvent × StoreSys) :=
  (s.sys.step a).map fun (e, t) =>
    (e, ⟨t, if a = .publish ∧ completesBlock s.sys.pending then s.stores + 1 else s.stores⟩)

theorem step_eq_some {s t : StoreSys} {a : CircAction} {e : CircEvent} :
    s.step a = some (e, t) ↔ s.sys.step a = some (e, t.sys) ∧
      t.stores =
        if a = .publish ∧ completesBlock s.sys.pending then s.stores + 1 else s.stores := by
  obtain ⟨t, n⟩ := t
  simp only [step, Option.map_eq_some_iff, Prod.exists, Prod.mk.injEq, StoreSys.mk.injEq]
  constructor
  · rintro ⟨e', t', hst, rfl, rfl, rfl⟩
    exact ⟨hst, rfl⟩
  · rintro ⟨hst, rfl⟩
    exact ⟨e, t, hst, rfl, rfl, rfl⟩

end StoreSys

/-- The block at `next_block_in` is the next one to be stored, and the blocks behind it that no
put has reached have the stamp zero. -/
structure Stored (s : StoreSys) : Prop where
  exclusive : Exclusive s.sys
  in_eq : s.sys.buf.nextBlockIn = s.stores % s.sys.buf.blocks
  unfilled : ∀ n < s.sys.buf.blocks, n ≠ s.sys.buf.nextBlockIn → s.stores ≤ n →
    (s.sys.buf.block n).prop.gps = 0
  stores_le : s.stores ≤ s.sys.buf.puts

namespace Stored

variable {s t : StoreSys}

theorem of_content (h : Stored s) (hex : Exclusive t.sys) (hstores : t.stores = s.stores)
    (hblocks : t.sys.buf.blocks = s.sys.buf.blocks)
    (hin : t.sys.buf.nextBlockIn = s.sys.buf.nextBlockIn)
    (hputs : s.sys.buf.puts ≤ t.sys.buf.puts)
    (hprop : ∀ n, n ≠ s.sys.buf.nextBlockIn →
      (t.sys.buf.block n).content = (s.sys.buf.block n).content) : Stored t where
  exclusive := hex
  in_eq := by rw [hin, hstores, hblocks, h.in_eq]
  unfilled n hn hne hle := by
    rw [hblocks] at hn
    rw [hin] at hne
    rw [hstores] at hle
    have hcontent := congrArg Item.prop (hprop n hne)
    show (t.sys.buf.block n).content.prop.gps = 0
    rw [hcontent]
    exact h.unfilled n hn hne hle
  stores_le := by
    rw [hstores]
    exact h.stores_le.trans hputs

/-- A step that stores the block at `next_block_in`. -/
theorem of_store (h : Stored s) (hex : Exclusive t.sys) (hstores : t.stores = s.stores + 1)
    (hblocks : t.sys.buf.blocks = s.sys.buf.blocks)
    (hin : t.sys.buf.nextBlockIn = (s.sys.buf.nextBlockIn + 1) % s.sys.buf.blocks)
    (hputs : t.sys.buf.puts = s.sys.buf.puts + 1)
    (hprop : ∀ n, (t.sys.buf.block n).content = (s.sys.buf.block n).content) : Stored t where
  exclusive := hex
  in_eq := by rw [hin, hstores, hblocks, h.in_eq, Nat.mod_add_mod]
  unfilled n hn hne hle := by
    rw [hblocks] at hn
    rw [hstores] at hle
    have hin' : s.sys.buf.nextBlockIn = s.stores := by
      rw [h.in_eq, Nat.mod_eq_of_lt (by omega)]
    have hcontent := congrArg Item.prop (hprop n)
    show (t.sys.buf.block n).content.prop.gps = 0
    rw [hcontent]
    exact h.unfilled n hn (by omega) (by omega)
  stores_le := by
    have hle := h.stores_le
    omega

theorem step {a : CircAction} {e : CircEvent} (h : Stored s) (hst : s.step a = some (e, t)) :
    Stored t := by
  obtain ⟨hsys, hstores⟩ := StoreSys.step_eq_some.mp hst
  have hex := h.exclusive.step hsys
  by_cases hpub : a = .publish ∧ completesBlock s.sys.pending
  · obtain ⟨rfl, hcomplete⟩ := hpub
    rw [if_pos ⟨rfl, hcomplete⟩] at hstores
    obtain ⟨t, n⟩ := t
    cases CircSys.step_moves hsys with
    | publish p hp =>
      rw [hp] at hcomplete
      cases p with
      | whole nbi =>
        exact h.of_store hex hstores rfl rfl rfl (content_publish s.sys.buf (.whole nbi))
      | sixteenth nbi nbi16th =>
        obtain rfl : nbi16th = 15 := by simpa [completesBlock] using hcomplete
        obtain ⟨hblocks, _⟩ := s.sys.buf.publish16th_frame nbi 15
        exact h.of_store hex hstores hblocks (s.sys.buf.nextBlockIn_publish16th nbi 15) rfl
          (content_publish s.sys.buf (.sixteenth nbi 15))
      | dropped => cases hcomplete
    | idle =>
      -- there is no put to publish
      cases hp : s.sys.pending with
      | none =>
        rw [hp] at hcomplete
        cases hcomplete
      | some p =>
        have hpublish : s.sys.step .publish =
            some (publishEvent p, { s.sys with buf := p.publish s.sys.buf, pending := none }) := by
          simp only [CircSys.step, CircSys.publish, hp]
        rw [hsys] at hpublish
        have hpend := congrArg (fun r => r.2.pending) (Option.some.inj hpublish)
        rw [hp] at hpend
        cases hpend
  · rw [if_neg hpub] at hstores
    obtain ⟨t, n⟩ := t
    cases CircSys.step_moves hsys with
    | drop call hp h16 => exact h.of_content hex hstores rfl rfl (le_refl _) fun _ _ => rfl
    | fill call b' hp hin hw he hf =>
      obtain ⟨hblocks, _, hin', _⟩ := hf.frame
      refine h.of_content hex hstores hblocks hin' ?_ fun n hn => ?_
      · obtain ⟨blk, _, _, rfl⟩ := hf
        exact le_refl _
      · rw [hf.block_of_ne hn]
    | publish p hp =>
      rw [hp] at hpub
      cases p with
      | whole nbi => exact absurd ⟨rfl, rfl⟩ hpub
      | sixteenth nbi nbi16th =>
        have hne : nbi16th ≠ 15 := fun h15 => hpub ⟨rfl, by simp [completesBlock, h15]⟩
        obtain ⟨hblocks, _⟩ := s.sys.buf.publish16th_frame nbi nbi16th
        have hin := s.sys.buf.nextBlockIn_publish16th nbi nbi16th
        rw [if_neg hne] at hin
        refine h.of_content hex hstores hblocks hin ?_ fun n _ =>
          content_publish s.sys.buf (.sixteenth nbi nbi16th) n
        simp [Pending.publish, CircBuffer.publish16th, modifyBlock, hne]
      | dropped => exact h.of_content hex hstores rfl rfl (Nat.le_succ _) fun _ _ => rfl
    | idle | join fast i hc hi => exact h.of_content hex hstores rfl rfl (le_refl _) fun _ _ => rfl
    | transient gps delta r hr =>
      rcases addTransientConsumer_cases h.exclusive.book.blocks_pos hr with
        ⟨_, hb⟩ | ⟨j, first, m, _, _, _, _, hm, hb⟩
      · refine h.of_content hex hstores ?_ ?_ ?_ fun _ _ => ?_
        all_goals simp only [hb, le_refl]
      · refine h.of_content hex hstores ?_ ?_ ?_ fun n _ => ?_
        · simp only [hb]
        · simp only [hb]
        · simp only [hb, le_refl]
        · simp only [hb]
          exact hm.content n
    | leave i hi =>
      exact h.of_content hex hstores rfl rfl (le_refl _) fun n _ =>
        content_deleteConsumer s.sys.buf i n
    | get16th i nb b' hi hn =>
      obtain ⟨_, _, rfl⟩ := get16th_eq_some hn
      exact h.of_content hex hstores rfl rfl (le_refl _) fun _ _ => rfl
    | unlock i hi =>
      exact h.of_content hex hstores rfl rfl (le_refl _) fun n _ => content_unlock s.sys.buf i n
    | unlock16th i hi =>
      exact h.of_content hex hstores rfl rfl (le_refl _) fun n _ => content_unlock16th s.sys.buf i n

theorem of_run {consumers blocks blockSize : ℕ} {blockPeriod : ℤ} (hc : consumers ≤ maxConsumers)
    (hb : 0 < blocks) {as : List CircAction} {tr : List CircEvent}
    (h : run StoreSys.step (.start (bufferMalloc consumers blocks blockSize blockPeriod)) as =
      some (tr, s)) : Stored s := by
  refine run_invariant Stored (fun _ _ _ _ _ hs hst => hs.step hst) ?_ h
  exact {
    exclusive := Exclusive.start (bookkeeping_bufferMalloc hc hb blockSize blockPeriod)
    in_eq := (Nat.zero_mod blocks).symm
    unfilled := fun _ _ _ _ => rfl
    stores_le := le_refl 0 }

/-- The other blocks by the number of stores: position `t` is the block that store `t` goes to. -/
theorem others_eq (h : Stored s) : s.sys.buf.others =
    (List.range' (s.stores + 1) (s.sys.buf.blocks - 1)).map (· % s.sys.buf.blocks) := by
  have hshift : List.range' (s.stores + 1) (s.sys.buf.blocks - 1) =
      (List.range' 1 (s.sys.buf.blocks - 1)).map (s.stores + ·) := by
    rw [List.map_add_range']
  rw [others, hshift, List.map_map]
  apply List.map_congr_left
  intro d _
  show (s.sys.buf.nextBlockIn + d) % s.sys.buf.blocks = (s.stores + d) % s.sys.buf.blocks
  rw [h.in_eq, Nat.mod_add_mod]

/-- A position that no put has reached. -/
theorem stamp_of_unfilled (h : Stored s) {n : ℕ} (hlo : s.stores < n) (hn : n < s.sys.buf.blocks) :
    (s.sys.buf.block (n % s.sys.buf.blocks)).prop.gps = 0 := by
  rw [Nat.mod_eq_of_lt hn]
  have hin : s.sys.buf.nextBlockIn = s.stores := by
    rw [h.in_eq, Nat.mod_eq_of_lt (by omega)]
  exact h.unfilled n hn (by omega) (by omega)

end Stored

end AdvLigoRts.Daqd
