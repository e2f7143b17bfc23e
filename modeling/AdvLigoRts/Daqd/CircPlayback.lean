import AdvLigoRts.Daqd.CircMarking

/-!
# Playback offsets

With `delta = 0` the first argument of `add_transient_consumer` is an offset into the past. The call
takes the stamp of the block that lies offset / `block_period` places behind `next_block_in`, and
marks all stamps from there on.
-/

namespace AdvLigoRts.Daqd

open PvLib CircBuffer

/-! ## What is asked for -/

/-- The call marks block `n` for the new consumer. -/
def Marks (s : CircSys) (r : TransientResult) (n : ℕ) : Prop :=
  n < s.buf.blocks ∧
    ∃ c, (r.buf.block n).busy.get c = true ∧ (s.buf.block n).busy.get c = false

/-- The marked blocks have been filled, and with a filled block all newer ones are marked. -/
def MarksRecent (s : StoreSys) (k : ℤ) : Prop :=
  ∃ r, s.sys.buf.addTransientConsumer k 0 = some r ∧
    (∀ n, Marks s.sys r n → ∃ j < s.stores, n = j % s.sys.buf.blocks) ∧
    ∀ j j', s.stores < j + s.sys.buf.blocks → j < j' → j' < s.stores →
      Marks s.sys r (j % s.sys.buf.blocks) → Marks s.sys r (j' % s.sys.buf.blocks)

namespace StoreSys

variable (s : StoreSys)

/-- The stamp of the block that store `j` goes to. -/
def stamp (j : ℕ) : ℤ := (s.sys.buf.block (j % s.sys.buf.blocks)).prop.gps

/-- Store `j` is in a block other than the one at `next_block_in`. -/
def Holds (j : ℕ) : Prop := s.stores < j + s.sys.buf.blocks ∧ j < s.stores

/-- The stamps of the filled blocks grow by `block_period` or more from each to the next one. -/
structure AscendingStamps : Prop where
  grow : ∀ j, s.Holds j → s.Holds (j + 1) → s.stamp j + s.sys.buf.blockPeriod ≤ s.stamp (j + 1)
  positive : ∀ j, s.Holds j → s.sys.buf.blockPeriod ≤ s.stamp j
  incoming : s.stamp s.stores = 0 ∨
    0 < s.stamp s.stores ∧
      ((∀ j, s.Holds j → s.stamp s.stores + s.sys.buf.blockPeriod ≤ s.stamp j) ∨
        ∀ j, s.Holds j → s.stamp j + s.sys.buf.blockPeriod ≤ s.stamp s.stores)

/-- The offset that the call works with. The product is one of `int`s. -/
def playbackOffset (k : ℤ) : ℤ :=
  min k (toInt (toInt (s.sys.buf.blocks * s.sys.buf.blockPeriod) - 1))

/-- The block where it looks for the first stamp. -/
def playbackBlock (k : ℤ) : ℕ :=
  ((s.sys.buf.nextBlockIn + s.sys.buf.blocks -
    (s.playbackOffset k).tdiv s.sys.buf.blockPeriod) % s.sys.buf.blocks).toNat

/-- What a buffer seems to hold that has not been used as far as that block, in seconds. -/
def playbackAll : ℤ := toInt (s.sys.buf.numPuts * s.sys.buf.blockPeriod)

/-- The stamp from which a call replays, and the seconds from there. -/
def playbackSpan (k : ℤ) : ℤ × ℤ :=
  if s.sys.buf.numPuts < s.playbackBlock k then (s.stamp 0, s.playbackAll)
  else (s.stamp (s.playbackBlock k), s.playbackOffset k)

/-- No filled block with a stamp among these seconds is followed by a filled one without, and where
two blocks or more are unused, the stamp 0 is not among them. -/
def Follows (gps delta : ℤ) : Prop :=
  (s.stores + 1 < s.sys.buf.blocks → ¬ (gps ≤ 0 ∧ 0 < gps + delta)) ∧
    ∀ j, s.Holds j → s.Holds (j + 1) → gps ≤ s.stamp j ∧ s.stamp j < gps + delta →
      gps ≤ s.stamp (j + 1) ∧ s.stamp (j + 1) < gps + delta

/-- The buffer is full of consumers or looks unused, or the stamps follow each other. -/
def PlaybackFollows (k : ℤ) : Prop :=
  s.sys.buf.consumers ≥ maxConsumers ∨ s.sys.buf.numPuts = 0 ∨
    s.Follows (s.playbackSpan k).1 (s.playbackSpan k).2

/-- How many blocks a positive offset goes back. -/
def blocksBack (k : ℤ) : ℕ := (s.playbackOffset k / s.sys.buf.blockPeriod).toNat

/-- Nothing is marked, as the buffer is full of consumers, looks unused or has one block only; or
the call starts from block 0, with no seconds or the newest stamp in its window or none; or it has
no seconds, or goes back to a filled block and the newest stamp is within the offset from there; or
it stays at `next_block_in` and there is a stamp there or no other unfilled block. -/
def PlaybackExact (k : ℤ) : Prop :=
  let b := s.sys.buf
  b.consumers ≥ maxConsumers ∨ b.numPuts = 0 ∨ b.blocks = 1 ∨
    if b.numPuts < s.playbackBlock k then
      s.playbackAll ≤ 0 ∨ 0 < s.stores ∧ s.stamp (s.stores - 1) < s.stamp 0 + s.playbackAll ∨
        b.nextBlockIn = 0 ∧ ¬ (b.block 1).InWindow (s.stamp 0) s.playbackAll
    else s.playbackOffset k ≤ 0 ∨
      if s.blocksBack k = 0 then s.stamp s.stores ≠ 0 ∨ b.blocks ≤ s.stores + 1
      else s.blocksBack k ≤ s.stores ∧
        s.stamp (s.stores - 1) < s.stamp (s.stores - s.blocksBack k) + s.playbackOffset k

instance (k : ℤ) : Decidable (s.PlaybackExact k) :=
  inferInstanceAs (Decidable (_ ∨ _ ∨ _ ∨ ite _ (_ ∨ _) (_ ∨ ite _ _ _)))

end StoreSys

/-! ## The window of the call -/

namespace Stored

variable {s : StoreSys} {k : ℤ}

/-- The last second of the buffer, as the call computes it. -/
theorem toInt_sub_one_le {x : ℤ} (hx : 0 < x) : toInt (toInt x - 1) ≤ x - 1 := by
  unfold toInt
  have hlow : -2 ^ 31 ≤ x.bmod (2 ^ 32) := Int.le_bmod (by norm_num)
  have hhigh : x.bmod (2 ^ 32) < 2 ^ 31 := Int.bmod_lt (by norm_num)
  have hhigh' : (x.bmod (2 ^ 32) - 1).bmod (2 ^ 32) < 2 ^ 31 := Int.bmod_lt (by norm_num)
  by_cases hsmall : x < 2 ^ 31
  · rw [Int.bmod_eq_of_le (n := x) (by omega) (by omega), Int.bmod_eq_of_le (by omega) (by omega)]
  · omega

theorem offset_lt (h : Stored s) (hperiod : 1 ≤ s.sys.buf.blockPeriod) (k : ℤ) :
    s.playbackOffset k < s.sys.buf.blocks * s.sys.buf.blockPeriod := by
  have hblocks : (0 : ℤ) < s.sys.buf.blocks := by exact_mod_cast h.exclusive.book.blocks_pos
  have hle := toInt_sub_one_le (mul_pos hblocks (show 0 < s.sys.buf.blockPeriod by omega))
  have hmin : s.playbackOffset k ≤ _ := min_le_right _ _
  omega

/-- The number of blocks that the call goes back is below that of all blocks. -/
theorem tdiv_lt (h : Stored s) (hperiod : 1 ≤ s.sys.buf.blockPeriod) (k : ℤ) :
    (s.playbackOffset k).tdiv s.sys.buf.blockPeriod < s.sys.buf.blocks := by
  have hlt := h.offset_lt hperiod k
  rcases le_or_gt 0 (s.playbackOffset k) with hnonneg | hneg
  · rw [Int.tdiv_eq_ediv_of_nonneg hnonneg]
    exact Int.ediv_lt_of_lt_mul (by omega) hlt
  · have hblocks : (0 : ℤ) < s.sys.buf.blocks := by exact_mod_cast h.exclusive.book.blocks_pos
    have hle := Int.tdiv_nonneg (show 0 ≤ -s.playbackOffset k by omega)
      (show 0 ≤ s.sys.buf.blockPeriod by omega)
    rw [Int.neg_tdiv] at hle
    omega

/-- The number of blocks that an offset goes back. -/
theorem blocksBack_spec (h : Stored s) (hperiod : 1 ≤ s.sys.buf.blockPeriod)
    (hoffset : 0 ≤ s.playbackOffset k) :
    s.blocksBack k < s.sys.buf.blocks ∧
      s.playbackBlock k =
        (s.sys.buf.nextBlockIn + s.sys.buf.blocks - s.blocksBack k) % s.sys.buf.blocks ∧
      s.blocksBack k * s.sys.buf.blockPeriod ≤ s.playbackOffset k ∧
      s.playbackOffset k < (s.blocksBack k + 1) * s.sys.buf.blockPeriod := by
  have hlt := h.tdiv_lt hperiod k
  have hdiv : (s.blocksBack k : ℤ) = s.playbackOffset k / s.sys.buf.blockPeriod :=
    Int.toNat_of_nonneg (Int.ediv_nonneg hoffset (by omega))
  rw [Int.tdiv_eq_ediv_of_nonneg hoffset, ← hdiv] at hlt
  refine ⟨by omega, ?_, ?_, ?_⟩
  · rw [StoreSys.playbackBlock, Int.tdiv_eq_ediv_of_nonneg hoffset, ← hdiv,
      ← Int.toNat_natCast ((_ : ℕ) % _), Int.natCast_mod, Nat.cast_sub (by omega), Nat.cast_add]
  · rw [hdiv]
    exact Int.ediv_mul_le _ (by omega)
  · rw [hdiv]
    exact Int.lt_ediv_add_one_mul_self _ (by omega)

theorem playbackBlock_lt (h : Stored s) (k : ℤ) : s.playbackBlock k < s.sys.buf.blocks := by
  have hblocks : (0 : ℤ) < s.sys.buf.blocks := by exact_mod_cast h.exclusive.book.blocks_pos
  have hlt := Int.emod_lt_of_pos (s.sys.buf.nextBlockIn + s.sys.buf.blocks -
    (s.playbackOffset k).tdiv s.sys.buf.blockPeriod) hblocks
  unfold StoreSys.playbackBlock
  omega

theorem playbackWindow_eq (h : Stored s) (hperiod : 1 ≤ s.sys.buf.blockPeriod)
    (hint : s.sys.buf.blockPeriod < 2 ^ 31) :
    s.sys.buf.playbackWindow k 0 = s.playbackSpan k := by
  have hlt := h.tdiv_lt hperiod k
  have hsame : toInt s.sys.buf.blockPeriod = s.sys.buf.blockPeriod :=
    Int.bmod_eq_of_le (by omega) (by omega)
  have hmin : (if k > toInt (toInt (s.sys.buf.blocks * s.sys.buf.blockPeriod) - 1) then
      toInt (toInt (s.sys.buf.blocks * s.sys.buf.blockPeriod) - 1) else k) =
        s.playbackOffset k := by
    unfold StoreSys.playbackOffset
    split
    · rw [min_eq_right (by omega)]
    · rw [min_eq_left (by omega)]
  have hidx : (s.sys.buf.nextBlockIn + s.sys.buf.blocks -
      (s.playbackOffset k).tdiv s.sys.buf.blockPeriod).tmod s.sys.buf.blocks =
        (s.playbackBlock k : ℤ) := by
    have hblocks : (0 : ℤ) < s.sys.buf.blocks := by exact_mod_cast h.exclusive.book.blocks_pos
    have hnonneg := Int.emod_nonneg (s.sys.buf.nextBlockIn + s.sys.buf.blocks -
      (s.playbackOffset k).tdiv s.sys.buf.blockPeriod) hblocks.ne'
    rw [StoreSys.playbackBlock, Int.tmod_eq_emod_of_nonneg (by omega), Int.toNat_of_nonneg hnonneg]
  unfold CircBuffer.playbackWindow StoreSys.playbackSpan StoreSys.stamp StoreSys.playbackAll
  rw [if_pos rfl]
  dsimp only
  rw [hsame, hmin, hidx, Int.toNat_natCast, Nat.zero_mod, Nat.mod_eq_of_lt (h.playbackBlock_lt k)]

/-! ## The blocks in a window -/

theorem mod_ne_nextBlockIn (h : Stored s) {j : ℕ} (hj : s.Holds j) :
    j % s.sys.buf.blocks ≠ s.sys.buf.nextBlockIn := by
  obtain ⟨hlo, hlt⟩ := hj
  rw [h.in_eq]
  intro heq
  have hdvd : s.sys.buf.blocks ∣ s.stores - j :=
    Nat.dvd_of_mod_eq_zero (Nat.sub_mod_eq_zero_of_mod_eq heq.symm)
  have hle := Nat.le_of_dvd (by omega) hdvd
  omega

variable {delta : ℤ}

theorem mem_inWindow (h : Stored s) {gps : ℤ} {j : ℕ} (hj : s.Holds j) :
    j % s.sys.buf.blocks ∈ s.sys.buf.inWindow gps delta ↔
      gps ≤ s.stamp j ∧ s.stamp j < gps + delta := by
  have hbook := h.exclusive.book
  have hother := (mem_others hbook.nextBlockIn_lt).mpr
    ⟨Nat.mod_lt j hbook.blocks_pos, h.mod_ne_nextBlockIn hj⟩
  unfold CircBuffer.inWindow
  rw [List.mem_filter, decide_eq_true_eq]
  exact and_iff_right hother

theorem stamp_mono (hstamps : s.AscendingStamps) (hperiod : 1 ≤ s.sys.buf.blockPeriod) {j : ℕ}
    (hj : s.Holds j) (d : ℕ) (hd : j + d < s.stores) : s.stamp j ≤ s.stamp (j + d) := by
  obtain ⟨hlo, hlt⟩ := hj
  induction d with
  | zero => exact le_refl _
  | succ d ih =>
    have hgrow := hstamps.grow (j + d) ⟨by omega, by omega⟩ ⟨by omega, hd⟩
    have hprev := ih (by omega)
    rw [← Nat.add_assoc]
    omega

/-- The blocks in a window are filled, and the newest ones. -/
def Recent (s : StoreSys) (gps delta : ℤ) : Prop :=
  (∀ n ∈ s.sys.buf.inWindow gps delta, ∃ j < s.stores, n = j % s.sys.buf.blocks) ∧
    ∀ j j', s.stores < j + s.sys.buf.blocks → j < j' → j' < s.stores →
      j % s.sys.buf.blocks ∈ s.sys.buf.inWindow gps delta →
        j' % s.sys.buf.blocks ∈ s.sys.buf.inWindow gps delta

/-- All stamps behind one in the window are in it. -/
theorem follows_later {gps : ℤ} (hfollows : s.Follows gps delta) {j : ℕ} (hj : s.Holds j)
    (hwin : gps ≤ s.stamp j ∧ s.stamp j < gps + delta) (d : ℕ) (hd : j + d < s.stores) :
    gps ≤ s.stamp (j + d) ∧ s.stamp (j + d) < gps + delta := by
  obtain ⟨hlo, -⟩ := hj
  induction d with
  | zero => exact hwin
  | succ d ih =>
    exact hfollows.2 (j + d) ⟨by omega, by omega⟩ ⟨by omega, hd⟩ (ih (by omega))

/-- What is in a window is filled and newest exactly if the stamps follow each other. -/
theorem recent_iff_follows (h : Stored s) {gps : ℤ} :
    Recent s gps delta ↔ s.Follows gps delta := by
  have hbook := h.exclusive.book
  have hin := h.in_eq
  constructor
  · rintro ⟨hfilled, hnewer⟩
    refine ⟨fun hlt hzero => ?_, fun j hj hj' hwin => ?_⟩
    · -- the block after `next_block_in` is unfilled
      rw [Nat.mod_eq_of_lt (by omega)] at hin
      have hstamp := h.unfilled (s.stores + 1) hlt (by omega) (Nat.le_succ _)
      have hmem : s.stores + 1 ∈ s.sys.buf.inWindow gps delta := by
        apply List.mem_filter.mpr
        refine ⟨(mem_others hbook.nextBlockIn_lt).mpr ⟨hlt, by omega⟩, ?_⟩
        rw [decide_eq_true_eq, Block.InWindow, hstamp]
        exact hzero
      obtain ⟨j, hj, heq⟩ := hfilled _ hmem
      rw [Nat.mod_eq_of_lt (by omega)] at heq
      omega
    · exact (h.mem_inWindow hj').mp
        (hnewer j (j + 1) hj.1 (Nat.lt_succ_self j) hj'.2 ((h.mem_inWindow hj).mpr hwin))
  · intro hfollows
    constructor
    · intro n hn
      obtain ⟨hother, hwin⟩ := List.mem_filter.mp hn
      obtain ⟨hlt, hne⟩ := (mem_others hbook.nextBlockIn_lt).mp hother
      by_cases hn' : n < s.stores
      · exact ⟨n, hn', (Nat.mod_eq_of_lt hlt).symm⟩
      · rw [Nat.mod_eq_of_lt (by omega)] at hin
        rw [decide_eq_true_eq, Block.InWindow, h.unfilled n hlt hne (by omega)] at hwin
        exact absurd hwin (hfollows.1 (by omega))
    · intro j j' hlo hlt hj' hmem
      have hj : s.Holds j := ⟨hlo, by omega⟩
      obtain ⟨d, rfl⟩ := Nat.exists_eq_add_of_lt hlt
      exact (h.mem_inWindow ⟨by omega, hj'⟩).mpr
        (follows_later hfollows hj ((h.mem_inWindow hj).mp hmem) (d + 1) hj')

/-- Where the stamps ascend, they follow each other exactly if the newest one is in the window. -/
theorem recent_iff (h : Stored s) (hstamps : s.AscendingStamps)
    (hperiod : 1 ≤ s.sys.buf.blockPeriod) {gps : ℤ} :
    Recent s gps delta ↔
      (s.stores + 1 < s.sys.buf.blocks → ¬ (gps ≤ 0 ∧ 0 < gps + delta)) ∧
        ((∃ j, s.Holds j ∧ gps ≤ s.stamp j ∧ s.stamp j < gps + delta) →
          s.stamp (s.stores - 1) < gps + delta) := by
  rw [h.recent_iff_follows]
  constructor
  · intro hfollows
    refine ⟨hfollows.1, ?_⟩
    rintro ⟨j, hj, hwin⟩
    obtain ⟨hlo, hlt⟩ := hj
    have hlast := follows_later hfollows ⟨hlo, hlt⟩ hwin (s.stores - 1 - j) (by omega)
    rw [show j + (s.stores - 1 - j) = s.stores - 1 by omega] at hlast
    exact hlast.2
  · rintro ⟨hzero, hnewest⟩
    refine ⟨hzero, fun j hj hj' hwin => ?_⟩
    have hlast := hnewest ⟨j, hj, hwin⟩
    have hle := stamp_mono hstamps hperiod hj 1 hj'.2
    obtain ⟨-, hlt'⟩ := hj'
    have hle' := stamp_mono hstamps hperiod hj (s.stores - 1 - j) (by omega)
    have hmono := stamp_mono hstamps hperiod ⟨hj.1.trans (by omega), hlt'⟩ (s.stores - 1 - (j + 1))
      (by omega)
    rw [show j + 1 + (s.stores - 1 - (j + 1)) = s.stores - 1 by omega] at hmono
    omega

theorem not_marks_of_block_eq {s : CircSys} {r : TransientResult} (hr : r.buf = s.buf) (n : ℕ) :
    ¬ Marks s r n := by
  rintro ⟨_, c, hmark, hold⟩
  rw [hr, hold] at hmark
  cases hmark

theorem exists_marks (h : Stored s) (k : ℤ) :
    ∃ r, s.sys.buf.addTransientConsumer k 0 = some r ∧ ∀ n, Marks s.sys r n ↔
      s.sys.buf.consumers < maxConsumers ∧ s.sys.buf.numPuts ≠ 0 ∧
        n ∈ s.sys.buf.inWindow (s.sys.buf.playbackWindow k 0).1
          (s.sys.buf.playbackWindow k 0).2 := by
  have hbook := h.exclusive.book
  obtain ⟨i, hi, hadd⟩ := addTransientConsumer_eq hbook k 0
  by_cases hfull : s.sys.buf.consumers ≥ maxConsumers
  · rw [if_pos hfull] at hadd
    exact ⟨_, hadd, fun n =>
      iff_of_false (not_marks_of_block_eq rfl n) fun hn => absurd hn.1 (not_lt.mpr hfull)⟩
  rw [if_neg hfull] at hadd
  have hinside : ∀ n ∈ s.sys.buf.inWindow (s.sys.buf.playbackWindow k 0).1
      (s.sys.buf.playbackWindow k 0).2, n < s.sys.buf.blocks := fun n hn =>
    ((mem_others hbook.nextBlockIn_lt).mp (List.mem_filter.mp hn).1).1
  generalize s.sys.buf.inWindow (s.sys.buf.playbackWindow k 0).1
    (s.sys.buf.playbackWindow k 0).2 = w at hadd hinside ⊢
  by_cases hnone : s.sys.buf.numPuts = 0 ∨ w = []
  · rw [if_pos hnone] at hadd
    refine ⟨_, hadd, fun n => iff_of_false (not_marks_of_block_eq rfl n) ?_⟩
    rintro ⟨-, hputs, hn⟩
    rcases hnone with hzero | rfl
    · exact hputs hzero
    · cases hn
  rw [if_neg hnone] at hadd
  obtain ⟨hputs, -⟩ := not_or.mp hnone
  obtain ⟨hlt, hnew⟩ := hbook.firstFree_lt (not_le.mp hfull) (hi (not_le.mp hfull))
  have hbit := Bookkeeping.lt_numBits_of_lt hlt
  refine ⟨_, hadd, fun n => ?_⟩
  rw [and_iff_right (not_le.mp hfull), and_iff_right hputs]
  unfold Marks
  dsimp only
  constructor
  · rintro ⟨hn, c, hmark, hold⟩
    by_contra hout
    rw [if_neg hout, hold] at hmark
    cases hmark
  · intro hn
    refine ⟨hinside n hn, i, ?_, hbook.busy_get_of_not_tcmask hnew (hinside n hn)⟩
    rw [if_pos hn]
    show ((s.sys.buf.block n).busy.set i).get i = true
    rw [CMask.get_set _ hbit, decide_eq_true rfl, Bool.true_or]

theorem marksRecent_iff_recent (h : Stored s) (k : ℤ) :
    MarksRecent s k ↔ s.sys.buf.consumers ≥ maxConsumers ∨ s.sys.buf.numPuts = 0 ∨
      Recent s (s.sys.buf.playbackWindow k 0).1 (s.sys.buf.playbackWindow k 0).2 := by
  obtain ⟨r, hr, hmarks⟩ := h.exists_marks k
  unfold MarksRecent Recent
  rw [hr]
  simp only [Option.some.injEq, exists_eq_left', hmarks]
  by_cases hfull : s.sys.buf.consumers ≥ maxConsumers
  · simp [hfull, not_lt.mpr hfull]
  by_cases hputs : s.sys.buf.numPuts = 0
  · simp [hputs]
  simp [hfull, hputs, not_le.mp hfull]

/-! ## The newest filled block -/

theorem recent_of_holds (h : Stored s) (hstamps : s.AscendingStamps)
    (hperiod : 1 ≤ s.sys.buf.blockPeriod) {j : ℕ} (hj : s.Holds j) (hdelta : 0 < delta) :
    Recent s (s.stamp j) delta ↔ s.stamp (s.stores - 1) < s.stamp j + delta := by
  have hpos := hstamps.positive j hj
  rw [h.recent_iff hstamps hperiod]
  constructor
  · rintro ⟨-, hnewest⟩
    exact hnewest ⟨j, hj, le_refl _, by omega⟩
  · intro hnewest
    exact ⟨fun _ hzero => by omega, fun _ => hnewest⟩

/-- A window that starts at the stamp zero. -/
theorem not_recent_of_unfilled (h : Stored s) (hstamps : s.AscendingStamps)
    (hperiod : 1 ≤ s.sys.buf.blockPeriod) (hlt : s.stores + 1 < s.sys.buf.blocks)
    (hdelta : 0 < delta) : ¬ Recent s 0 delta := by
  rw [h.recent_iff hstamps hperiod]
  rintro ⟨hzero, -⟩
  exact hzero hlt ⟨le_refl 0, by omega⟩

/-- The call looks at block 0 while not all blocks have been used, or when it takes the buffer for
such a one. -/
theorem recent_block_zero (h : Stored s) (hstamps : s.AscendingStamps)
    (hperiod : 1 ≤ s.sys.buf.blockPeriod) (hblocks : 1 < s.sys.buf.blocks) (hdelta : 0 < delta) :
    Recent s (s.stamp 0) delta ↔
      (0 < s.stores ∧ s.stamp (s.stores - 1) < s.stamp 0 + delta ∨
        s.sys.buf.nextBlockIn = 0 ∧ ¬ (s.sys.buf.block 1).InWindow (s.stamp 0) delta) := by
  have hin := h.in_eq
  by_cases hzero : s.sys.buf.nextBlockIn = 0
  · -- block 0 is the one that the next put goes to
    have hdvd : s.sys.buf.blocks ∣ s.stores := Nat.dvd_of_mod_eq_zero (hin.symm.trans hzero)
    have hstamp : s.stamp 0 = s.stamp s.stores := by
      unfold StoreSys.stamp
      rw [Nat.zero_mod, ← hin, hzero]
    rw [h.recent_iff hstamps hperiod]
    rcases Nat.eq_zero_or_pos s.stores with hnone | hsome
    · have hunfilled : (s.sys.buf.block 1).prop.gps = 0 :=
        h.unfilled 1 hblocks (by omega) (by omega)
      rw [Block.InWindow, hunfilled, hnone]
      have hheld : ¬ ∃ j, s.Holds j ∧ s.stamp 0 ≤ s.stamp j ∧ s.stamp j < s.stamp 0 + delta := by
        rintro ⟨j, hj, -⟩
        have hlt := hj.2
        omega
      simp [hheld, hblocks, hzero]
    · have hle := Nat.le_of_dvd hsome hdvd
      have hold : s.Holds (s.stores + 1 - s.sys.buf.blocks) := ⟨by omega, by omega⟩
      have hfirst : s.stamp (s.stores + 1 - s.sys.buf.blocks) = (s.sys.buf.block 1).prop.gps := by
        unfold StoreSys.stamp
        have hmod : (s.stores + 1 - s.sys.buf.blocks) % s.sys.buf.blocks = 1 := by
          rw [← Nat.mod_eq_sub_mod (by omega), ← Nat.mod_add_mod, ← hin, hzero,
            Nat.mod_eq_of_lt hblocks]
        rw [hmod]
      have hwrapped : ¬ s.stores + 1 < s.sys.buf.blocks := by omega
      have hleft : (s.stores + 1 < s.sys.buf.blocks →
          ¬ (s.stamp 0 ≤ 0 ∧ 0 < s.stamp 0 + delta)) ↔ True :=
        iff_true_intro fun hlt => absurd hlt hwrapped
      rw [hleft, true_and, and_iff_right hsome, and_iff_right hzero, Block.InWindow, ← hfirst]
      constructor
      · intro hnewest
        by_cases hwin : s.stamp 0 ≤ s.stamp (s.stores + 1 - s.sys.buf.blocks) ∧
            s.stamp (s.stores + 1 - s.sys.buf.blocks) < s.stamp 0 + delta
        · exact Or.inl (hnewest ⟨_, hold, hwin⟩)
        · exact Or.inr hwin
      · rintro (hnewest | hout) ⟨j, hj, hwin⟩
        · exact hnewest
        · -- the oldest stamp is before the window, so the one of block 0 is newer than all
          exfalso
          have hpos := hstamps.positive _ hold
          obtain ⟨hlo, hlt⟩ := hj
          obtain ⟨d, rfl⟩ : ∃ d, j = s.stores + 1 - s.sys.buf.blocks + d :=
            ⟨j - (s.stores + 1 - s.sys.buf.blocks), by omega⟩
          have hmono := stamp_mono hstamps hperiod hold d hlt
          rw [hstamp] at hwin hout
          rcases hstamps.incoming with hzero' | ⟨hpos', holder | hnewer⟩
          · omega
          · have hfirst' := holder _ hold
            omega
          · have hlast := hnewer _ ⟨hlo, hlt⟩
            omega
  · have hpos : 0 < s.stores := by
      by_contra hnone
      rw [show s.stores = 0 by omega, Nat.zero_mod] at hin
      exact hzero hin
    -- the last store to block 0
    have hlt := h.exclusive.book.nextBlockIn_lt
    have hle : s.sys.buf.nextBlockIn ≤ s.stores := hin ▸ Nat.mod_le _ _
    have hj : s.Holds (s.stores - s.sys.buf.nextBlockIn) := ⟨by omega, by omega⟩
    have hstamp : s.stamp 0 = s.stamp (s.stores - s.sys.buf.nextBlockIn) := by
      unfold StoreSys.stamp
      rw [Nat.zero_mod, hin, Nat.sub_mod_eq_zero_of_mod_eq (Nat.mod_mod _ _).symm]
    rw [hstamp, h.recent_of_holds hstamps hperiod hj hdelta, and_iff_right hpos]
    constructor
    · exact Or.inl
    · rintro (hnewest | ⟨hnbi, -⟩)
      · exact hnewest
      · exact absurd hnbi hzero

/-- The call stays at `next_block_in`. -/
theorem recent_stay (h : Stored s) (hstamps : s.AscendingStamps)
    (hperiod : 1 ≤ s.sys.buf.blockPeriod) (hdelta : delta < s.sys.buf.blockPeriod)
    (hsome : 1 < s.sys.buf.blocks → 0 < delta) :
    Recent s (s.stamp s.stores) delta ↔
      (s.stamp s.stores ≠ 0 ∨ s.sys.buf.blocks ≤ s.stores + 1) := by
  rw [h.recent_iff hstamps hperiod]
  rcases hstamps.incoming with hzero | ⟨hpos, hnear⟩
  · rw [hzero, zero_add]
    have hheld : ¬ ∃ j, s.Holds j ∧ 0 ≤ s.stamp j ∧ s.stamp j < delta := by
      rintro ⟨j, hj, -, hlt⟩
      have hpos := hstamps.positive j hj
      omega
    constructor
    · rintro ⟨hunfilled, -⟩
      right
      by_contra hlt
      exact hunfilled (by omega) ⟨le_refl 0, hsome (by omega)⟩
    · rintro (hne | hle)
      · exact absurd rfl hne
      · exact ⟨fun hlt => by omega, fun hj => absurd hj hheld⟩
  · refine iff_of_true ⟨fun _ hneg => by omega, ?_⟩ (Or.inl hpos.ne')
    rintro ⟨j, hj, hle, hlt⟩
    rcases hnear with holder | hnewer
    · have hj' := holder j hj
      omega
    · have hj' := hnewer j hj
      omega

theorem recent_back (h : Stored s) (hstamps : s.AscendingStamps)
    (hperiod : 1 ≤ s.sys.buf.blockPeriod) (hback : 0 < s.blocksBack k)
    (hoffset : 0 < s.playbackOffset k) (hdelta : 0 < delta) :
    Recent s (s.stamp (s.playbackBlock k)) delta ↔
      s.blocksBack k ≤ s.stores ∧
        s.stamp (s.stores - 1) < s.stamp (s.stores - s.blocksBack k) + delta := by
  have hin := h.in_eq
  obtain ⟨hlt, hblock, -⟩ := h.blocksBack_spec hperiod hoffset.le
  by_cases hle : s.blocksBack k ≤ s.stores
  · have hidx : (s.sys.buf.nextBlockIn + s.sys.buf.blocks - s.blocksBack k) % s.sys.buf.blocks =
        (s.stores - s.blocksBack k) % s.sys.buf.blocks := by
      rw [hin, Nat.add_sub_assoc hlt.le, Nat.mod_add_mod, ← Nat.add_sub_assoc hlt.le,
        Nat.sub_add_comm hle, Nat.add_mod_right]
    have hj : s.Holds (s.stores - s.blocksBack k) := ⟨by omega, by omega⟩
    have hstamp : s.stamp (s.playbackBlock k) = s.stamp (s.stores - s.blocksBack k) := by
      unfold StoreSys.stamp
      rw [hblock, hidx, Nat.mod_mod]
    rw [hstamp, and_iff_right hle]
    exact h.recent_of_holds hstamps hperiod hj hdelta
  · -- that block is still unfilled
    rw [Nat.mod_eq_of_lt (by omega)] at hin
    rw [Nat.mod_eq_of_lt (by omega)] at hblock
    rw [StoreSys.stamp, hblock, Nat.mod_eq_of_lt (by omega),
      h.unfilled _ (by omega) (by omega) (by omega)]
    refine iff_of_false (h.not_recent_of_unfilled hstamps hperiod (by omega) hdelta) ?_
    rintro ⟨hle', -⟩
    exact hle hle'

/-- Where the stamps ascend, the blocks marked are the newest filled ones exactly if
`PlaybackExact`. -/
theorem marksRecent_iff_exact (h : Stored s) (hstamps : s.AscendingStamps)
    (hperiod : 1 ≤ s.sys.buf.blockPeriod) :
    (s.sys.buf.consumers ≥ maxConsumers ∨ s.sys.buf.numPuts = 0 ∨
      Recent s (s.playbackSpan k).1 (s.playbackSpan k).2) ↔ s.PlaybackExact k := by
  have hbook := h.exclusive.book
  have hnothing : ∀ {gps delta : ℤ}, delta ≤ 0 → Recent s gps delta := fun hdelta =>
    h.recent_iff_follows.mpr ⟨fun _ hwin => by omega, fun j _ _ hwin => by omega⟩
  unfold StoreSys.PlaybackExact StoreSys.playbackSpan
  apply or_congr_right
  apply or_congr_right
  by_cases hone : s.sys.buf.blocks = 1
  · -- block 0 is the one at `next_block_in`, and there is no other
    refine iff_of_true (h.recent_iff_follows.mpr ⟨fun hlt => by omega, fun j hj => ?_⟩)
      (Or.inl hone)
    obtain ⟨hlo, hlt⟩ := hj
    omega
  have hmany : 1 < s.sys.buf.blocks := by
    have hpos := hbook.blocks_pos
    omega
  rw [or_iff_right hone]
  by_cases hidx : s.sys.buf.numPuts < s.playbackBlock k
  · rw [if_pos hidx, if_pos hidx]
    dsimp only
    rcases le_or_gt s.playbackAll 0 with hnone | hall
    · exact iff_of_true (hnothing hnone) (Or.inl hnone)
    · rw [or_iff_right (not_le.mpr hall)]
      exact h.recent_block_zero hstamps hperiod hmany hall
  rw [if_neg hidx, if_neg hidx]
  dsimp only
  rcases le_or_gt (s.playbackOffset k) 0 with hnone | hoffset
  · exact iff_of_true (hnothing hnone) (Or.inl hnone)
  rw [or_iff_right (not_le.mpr hoffset)]
  obtain ⟨-, hblock, hback, hnext⟩ := h.blocksBack_spec hperiod hoffset.le
  by_cases hq : s.blocksBack k = 0
  · have hstamp : s.stamp (s.playbackBlock k) = s.stamp s.stores := by
      unfold StoreSys.stamp
      rw [hblock, hq, Nat.sub_zero, Nat.add_mod_right, Nat.mod_eq_of_lt hbook.nextBlockIn_lt,
        h.in_eq, Nat.mod_mod]
    rw [if_pos hq, hstamp]
    rw [hq, Nat.cast_zero, zero_add, one_mul] at hnext
    exact h.recent_stay hstamps hperiod hnext fun _ => hoffset
  · rw [if_neg hq]
    exact h.recent_back hstamps hperiod (Nat.pos_of_ne_zero hq) hoffset hoffset

end Stored

theorem blockPeriod_step {s t : CircSys} {a : CircAction} {e : CircEvent}
    (hbook : Bookkeeping s.buf) (hst : s.step a = some (e, t)) :
    t.buf.blockPeriod = s.buf.blockPeriod := by
  cases CircSys.step_moves hst with
  | fill call b' hp hin hw he hf =>
    obtain ⟨blk, _, _, rfl⟩ := hf
    rfl
  | publish p hp =>
    cases p with
    | whole nbi => rfl
    | sixteenth nbi nbi16th =>
      show (s.buf.publish16th nbi nbi16th).blockPeriod = s.buf.blockPeriod
      unfold CircBuffer.publish16th
      split
      · rfl
      · rfl
    | dropped => rfl
  | transient gps delta r hr =>
    rcases addTransientConsumer_cases hbook.blocks_pos hr with
      ⟨_, hb⟩ | ⟨i, first, m, _, _, _, _, _, hb⟩
    · simp only [hb]
    · simp only [hb]
  | get16th i nb b' hi hn =>
    obtain ⟨_, _, rfl⟩ := get16th_eq_some hn
    rfl
  | drop | idle | join | leave | unlock | unlock16th => rfl

theorem blockPeriod_of_run {consumers blocks blockSize : ℕ} {blockPeriod : ℤ}
    (hc : consumers ≤ maxConsumers) (hb : 0 < blocks) {as : List CircAction} {tr : List CircEvent}
    {s : StoreSys}
    (h : run StoreSys.step (.start (bufferMalloc consumers blocks blockSize blockPeriod)) as =
      some (tr, s)) : s.sys.buf.blockPeriod = blockPeriod := by
  have hinv := run_invariant (fun s : StoreSys => Stored s ∧ s.sys.buf.blockPeriod = blockPeriod)
    (fun s a _ e t hs hst => ?_) ⟨Stored.of_run hc hb (run_nil _ _), rfl⟩ h
  · exact hinv.2
  · obtain ⟨hsys, -⟩ := StoreSys.step_eq_some.mp hst
    exact ⟨hs.1.step hst, (blockPeriod_step hs.1.exclusive.book hsys).trans hs.2⟩

/-- In every reachable state, the blocks marked for a playback offset are filled and the newest
ones if and only if the stamps follow each other in the window; where the stamps ascend, if and only
if `PlaybackExact`. -/
theorem playback_iff {consumers blocks blockSize : ℕ} {blockPeriod : ℤ}
    (hc : consumers ≤ maxConsumers) (hb : 0 < blocks) (hperiod : 1 ≤ blockPeriod)
    (hint : blockPeriod < 2 ^ 31) {as : List CircAction} {tr : List CircEvent} {s : StoreSys}
    (h : run StoreSys.step (.start (bufferMalloc consumers blocks blockSize blockPeriod)) as =
      some (tr, s)) (k : ℤ) :
    (MarksRecent s k ↔ s.PlaybackFollows k) ∧
      (s.AscendingStamps → (MarksRecent s k ↔ s.PlaybackExact k)) := by
  have hstored := Stored.of_run hc hb h
  rw [← blockPeriod_of_run hc hb h] at hperiod hint
  rw [hstored.marksRecent_iff_recent, hstored.playbackWindow_eq hperiod hint]
  constructor
  · rw [hstored.recent_iff_follows]
    rfl
  · intro hstamps
    exact hstored.marksRecent_iff_exact hstamps hperiod

/-- A ring of three blocks that has gone round once. -/
private def wrappedRing : List CircAction :=
  [.write (.put [1] (some { gps := 600 })), .publish, .unlock 0,
    .write (.put [2] (some { gps := 660 })), .publish, .unlock 0,
    .write (.put [3] (some { gps := 720 })), .publish, .unlock 0,
    .write (.put [4] (some { gps := 780 })), .publish]

/-- An offset of more than one period goes back to the newest block. -/
theorem playback_iff_wrappedRing :
    ∃ tr s, run StoreSys.step (.start (bufferMalloc 1 3 8 60)) wrappedRing = some (tr, s) ∧
      MarksRecent s 70 := by
  have hfill : (run StoreSys.step (.start (bufferMalloc 1 3 8 60)) wrappedRing).map (fun r =>
      ([r.2.stores, r.2.sys.buf.blocks], [r.2.sys.buf.blockPeriod, r.2.stamp 2, r.2.stamp 3,
        r.2.stamp 4], decide (r.2.PlaybackExact 70))) =
      some ([4, 3], [60, 720, 780, 660], true) := by
    decide +kernel
  obtain ⟨⟨tr, s⟩, hr, heq⟩ := Option.map_eq_some_iff.mp hfill
  simp only [Prod.mk.injEq, List.cons.injEq, and_true, decide_eq_true_eq] at heq
  obtain ⟨⟨hstores, hblocks⟩, ⟨hperiod, htwo, hthree, hfour⟩, hexact⟩ := heq
  have hholds : ∀ j, s.Holds j → j = 2 ∨ j = 3 := by
    rintro j ⟨hlo, hlt⟩
    omega
  have hstamps : s.AscendingStamps := by
    refine ⟨fun j hj hj' => ?_, fun j hj => ?_, Or.inr ⟨?_, Or.inl fun j hj => ?_⟩⟩
    · obtain rfl : j = 2 := by
        have hj := hholds j hj
        have hj' := hholds (j + 1) hj'
        omega
      rw [htwo, hthree, hperiod]
      decide
    · rcases hholds j hj with rfl | rfl
      · rw [htwo, hperiod]
        decide
      · rw [hthree, hperiod]
        decide
    · rw [hstores, hfour]
      decide
    · rw [hstores, hfour, hperiod]
      rcases hholds j hj with rfl | rfl
      · rw [htwo]
        decide
      · rw [hthree]
        decide
  exact ⟨tr, s, hr,
    ((playback_iff (by decide) (by decide) (by decide) (by decide) hr 70).2 hstamps).mpr hexact⟩

/-- One put into a ring of three blocks, and an offset below the period: the block that no put
has reached is marked. -/
theorem unfilled_block_marked :
    ∃ tr s, run StoreSys.step (.start (bufferMalloc 1 3 8 60))
        [.write (.put [1] (some { gps := 600 })), .publish] = some (tr, s) ∧ s.AscendingStamps ∧
      (∃ r, s.sys.buf.addTransientConsumer 30 0 = some r ∧ Marks s.sys r 2) ∧
      (∀ j < s.stores, 2 ≠ j % s.sys.buf.blocks) ∧ ¬ MarksRecent s 30 := by
  have hfill : (run StoreSys.step (.start (bufferMalloc 1 3 8 60))
      [.write (.put [1] (some { gps := 600 })), .publish]).map (fun r =>
        ([r.2.stores, r.2.sys.buf.blocks], [r.2.sys.buf.blockPeriod, r.2.stamp 0, r.2.stamp 1,
          r.2.sys.buf.consumers, r.2.sys.buf.numPuts],
          r.2.sys.buf.inWindow (r.2.sys.buf.playbackWindow 30 0).1
            (r.2.sys.buf.playbackWindow 30 0).2)) =
      some ([1, 3], [60, 600, 0, 1, 1], [2]) := by
    decide +kernel
  obtain ⟨⟨tr, s⟩, hr, heq⟩ := Option.map_eq_some_iff.mp hfill
  simp only [Prod.mk.injEq, List.cons.injEq, and_true] at heq
  obtain ⟨⟨hstores, hblocks⟩, ⟨hperiod, hzero, hone, hcons, hputs⟩, hwindow⟩ := heq
  have hholds : ∀ j, s.Holds j → j = 0 := by
    rintro j ⟨hlo, hlt⟩
    omega
  have hstored := Stored.of_run (by decide) (by decide) hr
  obtain ⟨r, hadd, hmarks⟩ := hstored.exists_marks 30
  have hmarked : Marks s.sys r 2 := by
    rw [hmarks, hcons, hputs, hwindow]
    decide
  have hunfilled : ∀ j < s.stores, 2 ≠ j % s.sys.buf.blocks := by
    intro j hj
    rw [hstores] at hj
    obtain rfl : j = 0 := by omega
    rw [Nat.zero_mod]
    decide
  refine ⟨tr, s, hr, ⟨fun j hj hj' => ?_, fun j hj => ?_, Or.inl ?_⟩, ⟨r, hadd, hmarked⟩, hunfilled,
    ?_⟩
  · have hj := hholds (j + 1) hj'
    omega
  · rw [hholds j hj, hzero, hperiod]
    decide
  · rw [hstores, hone]
  · rintro ⟨r', hadd', hfilled, -⟩
    obtain rfl : r = r' := Option.some.inj (hadd.symm.trans hadd')
    obtain ⟨j, hj, heq⟩ := hfilled 2 hmarked
    exact hunfilled j hj heq

end AdvLigoRts.Daqd
