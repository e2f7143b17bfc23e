import AdvLigoRts.Daqd.TrendFramer
import Mathlib.Data.List.Range
import Mathlib.Tactic.Ring

/-!
# Trend frames place each sample at its time

Blocks are counted in slots from time zero: the first one of a stream is number `u`, and block `x`
goes to slot `x % L` of frame `x / L`, where `L` is the number of slots of a frame.
-/

namespace AdvLigoRts.Daqd

/-! ## Slots -/

theorem succ_div_mod_of_lt {x l : ℕ} (h : x % l + 1 < l) :
    (x + 1) / l = x / l ∧ (x + 1) % l = x % l + 1 := by
  rw [Nat.div_mod_unique (Nat.zero_lt_of_lt h)]
  have hx := Nat.mod_add_div x l
  exact ⟨by omega, h⟩

theorem succ_div_mod_of_eq {x l : ℕ} (h : x % l + 1 = l) :
    (x + 1) / l = x / l + 1 ∧ (x + 1) % l = 0 := by
  have hl : 0 < l := h ▸ Nat.succ_pos _
  rw [Nat.div_mod_unique hl]
  have hx := Nat.mod_add_div x l
  refine ⟨?_, hl⟩
  rw [Nat.mul_add, Nat.mul_one]
  omega

/-! ## What is zeroed -/

/-- `bps` is set for the type. -/
def HasBps (t : DaqDataT) : Prop := t = .int16 ∨ t = .float32 ∨ t = .double64

instance (t : DaqDataT) : Decidable (HasBps t) := by
  unfold HasBps
  infer_instance

theorem bps_of_hasBps {t : DaqDataT} (h : HasBps t) (r : TrendSuffix) : r.bps t = r.size t := by
  rcases h with rfl | rfl | rfl
  all_goals cases r <;> rfl

theorem bps_of_not_hasBps {t : DaqDataT} (h : ¬ HasBps t) (r : TrendSuffix) : r.bps t = 0 := by
  cases t <;> first | exact absurd (by decide) h | (cases r <;> rfl)

theorem size_pos (t : DaqDataT) (r : TrendSuffix) : 0 < r.size t := by
  cases r <;> cases t <;> decide

section

variable {R : Type} [Zero R] {c : TrendChannels}

theorem zeroMissing_eq {gpsMod : ℕ} (adc : TrendArrays R) {j i : ℕ} (hj : j < c.numChannels)
    (hi : i < gpsMod) (r : TrendSuffix) :
    zeroMissing c gpsMod adc j r i = if HasBps (c.dataType j) then r.zero else adc j r i := by
  unfold zeroMissing
  by_cases hbps : HasBps (c.dataType j)
  · rw [if_pos hbps, bps_of_hasBps hbps, if_pos]
    exact ⟨hj, Nat.mul_le_mul_right _ hi⟩
  · rw [if_neg hbps, bps_of_not_hasBps hbps, if_neg]
    intro h
    have hpos : 0 < (i + 1) * r.size (c.dataType j) :=
      Nat.mul_pos (Nat.succ_pos i) (size_pos _ _)
    omega

end

/-! ## Frames in place -/

section

variable {R : Type} [Zero R] (f : TrendFramer) (c : TrendChannels) (memory : TrendArrays R)
  (gps : ℕ) (blocks : ℕ → ℕ → TrendBlock R)

/-- The frames that are written for `n` blocks from `gps` on: one after the other from the one that
holds the first block to the last one that is over, each slot with the block of its time. -/
structure FramesInPlace (n : ℕ) (frames : List (TrendFrame R)) : Prop where
  starts : frames.map TrendFrame.gps =
    (List.range ((gps + n * f.slotSecs) / f.alignSecs - gps / f.alignSecs)).map
      fun k => (gps / f.alignSecs + k) * f.alignSecs
  placed : ∀ fr ∈ frames, ∀ j < c.numChannels, ∀ r : TrendSuffix, ∀ i < f.frameLengthBlocks,
    ∀ m, gps + m * f.slotSecs = fr.gps + i * f.slotSecs →
      m < n ∧ fr.adc j r i = r.sample (.ofType (c.dataType j)) (blocks m j)
  missing : ∀ fr ∈ frames, ∀ j < c.numChannels, ∀ r : TrendSuffix, ∀ i < f.frameLengthBlocks,
    fr.gps + i * f.slotSecs < gps → fr.adc j r i = r.zero

/-- If the first frame is written, each slot before the first block was zeroed or held zero. -/
def MissingZero (n : ℕ) : Prop :=
  gps / f.alignSecs < (gps + n * f.slotSecs) / f.alignSecs →
    ∀ j < c.numChannels, ∀ r : TrendSuffix, ∀ i, i * f.slotSecs < gps % f.alignSecs →
      (f.zeroes = true ∧ HasBps (c.dataType j)) ∨ memory j r i = r.zero

end

/-! ## The run -/

section

variable {R : Type} [Zero R] (f : TrendFramer) (c : TrendChannels) (memory : TrendArrays R)
  (u : ℕ) (blocks : ℕ → ℕ → TrendBlock R)

/-- The arrays before the first block, which is number `u`, is stored. -/
def memoryAfter : TrendArrays R :=
  if f.zeroes then zeroMissing c (u * f.slotSecs % f.alignSecs) memory else memory

/-- What slot `y`, counted from time zero, holds once it is filled. -/
def slotValue (y j : ℕ) (r : TrendSuffix) : TrendValue R :=
  if u ≤ y then r.sample (.ofType (c.dataType j)) (blocks (y - u) j)
  else memoryAfter f c memory u j r (y % f.frameLengthBlocks)

/-- The frame is number `q`. -/
structure FrameIs (q : ℕ) (fr : TrendFrame R) : Prop where
  gps : fr.gps = q * f.alignSecs
  slots : ∀ j < c.numChannels, ∀ r, ∀ i < f.frameLengthBlocks,
    fr.adc j r i = slotValue f c memory u blocks (q * f.frameLengthBlocks + i) j r

/-- The state after `n` blocks; `x` is the number of the next one. -/
structure FramerAfter (n x : ℕ) (s : FramerState R) : Prop where
  start : n = 0 → s.i = 0 ∧ s.adc = memory
  slot : n ≠ 0 → s.i = x % f.frameLengthBlocks
  fileGps : s.i ≠ 0 → s.fileGps = x / f.frameLengthBlocks * f.alignSecs
  slots : ∀ j < c.numChannels, ∀ r, ∀ i < s.i,
    s.adc j r i = slotValue f c memory u blocks
      (x / f.frameLengthBlocks * f.frameLengthBlocks + i) j r
  starts : s.frames.map TrendFrame.gps =
    (List.range (x / f.frameLengthBlocks - u / f.frameLengthBlocks)).map
      fun k => (u / f.frameLengthBlocks + k) * f.alignSecs
  frames : ∀ fr ∈ s.frames, ∃ q, u / f.frameLengthBlocks ≤ q ∧ q < x / f.frameLengthBlocks ∧
    FrameIs f c memory u blocks q fr

variable {f c memory u blocks}

theorem TrendFramer.align_pos (f : TrendFramer) : 0 < f.alignSecs := by
  rw [f.align_eq]
  exact Nat.mul_pos f.slot_pos f.blocks_pos

theorem mul_mod_align (x : ℕ) :
    x * f.slotSecs % f.alignSecs = x % f.frameLengthBlocks * f.slotSecs := by
  rw [f.align_eq, Nat.mul_comm f.slotSecs, Nat.mul_mod_mul_right]

theorem mul_div_align (x : ℕ) : x * f.slotSecs / f.alignSecs = x / f.frameLengthBlocks := by
  rw [f.align_eq, Nat.mul_comm f.slotSecs, Nat.mul_div_mul_right _ _ f.slot_pos]

theorem sub_mod_align (x : ℕ) : x * f.slotSecs - x * f.slotSecs % f.alignSecs =
    x / f.frameLengthBlocks * f.alignSecs := by
  have hx := Nat.mod_add_div (x * f.slotSecs) f.alignSecs
  rw [mul_div_align, Nat.mul_comm f.alignSecs] at hx
  omega

theorem slotValue_self {n j : ℕ} {r : TrendSuffix} :
    slotValue f c memory u blocks (u + n) j r =
      r.sample (.ofType (c.dataType j)) (blocks n j) := by
  unfold slotValue
  rw [if_pos (Nat.le_add_right u n), Nat.add_sub_cancel_left]

section

variable {n : ℕ} {s : FramerState R} (h : FramerAfter f c memory u blocks n (u + n) s)

include h

theorem FramerAfter.blockSlot_eq :
    blockSlot f s ((u + n) * f.slotSecs) = (u + n) % f.frameLengthBlocks := by
  unfold blockSlot
  rw [mul_mod_align, Nat.mul_div_cancel _ f.slot_pos]
  by_cases h0 : s.i = 0
  · exact if_pos h0
  · rw [if_neg h0]
    exact h.slot fun hn => h0 (h.start hn).1

theorem FramerAfter.blockFileGps_eq :
    blockFileGps f s ((u + n) * f.slotSecs) = (u + n) / f.frameLengthBlocks * f.alignSecs := by
  unfold blockFileGps
  rw [sub_mod_align]
  by_cases h0 : s.i = 0
  · exact if_pos h0
  · rw [if_neg h0]
    exact h.fileGps h0

theorem FramerAfter.blockArrays_eq {j : ℕ} (hj : j < c.numChannels) (r : TrendSuffix) {i : ℕ}
    (hi : i < (u + n) % f.frameLengthBlocks) :
    blockArrays f c s ((u + n) * f.slotSecs) j r i =
      slotValue f c memory u blocks ((u + n) / f.frameLengthBlocks * f.frameLengthBlocks + i) j
        r := by
  by_cases hn : n = 0
  · -- the first block of the stream
    subst hn
    obtain ⟨h0, hadc⟩ := h.start rfl
    have hu := Nat.mod_add_div u f.frameLengthBlocks
    have hlt := Nat.mod_lt u f.blocks_pos
    have hbefore : ¬ u ≤ u / f.frameLengthBlocks * f.frameLengthBlocks + i := by
      rw [Nat.mul_comm]
      rw [Nat.add_zero] at hi
      omega
    have hslot : (u / f.frameLengthBlocks * f.frameLengthBlocks + i) % f.frameLengthBlocks = i := by
      rw [Nat.mul_add_mod_self_right]
      exact Nat.mod_eq_of_lt (lt_trans hi hlt)
    unfold slotValue blockArrays
    rw [Nat.add_zero, if_neg hbefore, hslot, hadc]
    unfold memoryAfter
    by_cases hz : f.zeroes = true
    · rw [if_pos ⟨h0, hz⟩, if_pos hz]
    · rw [if_neg fun hand => hz hand.2, if_neg hz]
  · have hslot := h.slot hn
    have h0 : s.i ≠ 0 := by omega
    unfold blockArrays
    rw [if_neg fun hand => h0 hand.1]
    exact h.slots j hj r i (hslot ▸ hi)

theorem FramerAfter.storeBlock_eq {j : ℕ} (hj : j < c.numChannels) (r : TrendSuffix) {i : ℕ}
    (hi : i < (u + n) % f.frameLengthBlocks + 1) :
    storeBlock c ((u + n) % f.frameLengthBlocks) (blocks n)
        (blockArrays f c s ((u + n) * f.slotSecs)) j r i =
      slotValue f c memory u blocks ((u + n) / f.frameLengthBlocks * f.frameLengthBlocks + i) j
        r := by
  unfold storeBlock
  by_cases hlast : i = (u + n) % f.frameLengthBlocks
  · have hx : (u + n) / f.frameLengthBlocks * f.frameLengthBlocks + i = u + n := by
      rw [hlast, Nat.div_add_mod']
    rw [if_pos ⟨hj, hlast⟩, hx, slotValue_self]
  · rw [if_neg fun hand => hlast hand.2]
    exact h.blockArrays_eq hj r (by omega)

theorem FramerAfter.step : FramerAfter f c memory u blocks (n + 1) (u + (n + 1))
    (framerBlock f c s ((u + n) * f.slotSecs) (blocks n)) := by
  have hlt := Nat.mod_lt (u + n) f.blocks_pos
  unfold framerBlock
  rw [h.blockSlot_eq, h.blockFileGps_eq]
  by_cases hmore : (u + n) % f.frameLengthBlocks + 1 < f.frameLengthBlocks
  · obtain ⟨hdiv, hmod⟩ := succ_div_mod_of_lt hmore
    rw [if_pos hmore]
    exact
      { start := fun hn => absurd hn (Nat.succ_ne_zero n)
        slot := fun _ => hmod.symm
        fileGps := fun _ => by
          rw [← Nat.add_assoc, hdiv]
        slots := fun j hj r i hi => by
          rw [← Nat.add_assoc, hdiv]
          exact h.storeBlock_eq hj r hi
        starts := by
          rw [← Nat.add_assoc, hdiv]
          exact h.starts
        frames := by
          rw [← Nat.add_assoc, hdiv]
          exact h.frames }
  · have heq : (u + n) % f.frameLengthBlocks + 1 = f.frameLengthBlocks := by omega
    obtain ⟨hdiv, hmod⟩ := succ_div_mod_of_eq heq
    have hle : u / f.frameLengthBlocks ≤ (u + n) / f.frameLengthBlocks :=
      Nat.div_le_div_right (Nat.le_add_right u n)
    rw [if_neg hmore]
    exact
      { start := fun hn => absurd hn (Nat.succ_ne_zero n)
        slot := fun _ => hmod.symm
        fileGps := fun hne => absurd rfl hne
        slots := fun j hj r i hi => absurd hi (Nat.not_lt_zero i)
        starts := by
          rw [← Nat.add_assoc, hdiv, Nat.succ_sub hle, List.range_succ, List.map_append,
            List.map_append, h.starts]
          show _ ++ [(u + n) / f.frameLengthBlocks * f.alignSecs] = _ ++ [_ * f.alignSecs]
          rw [Nat.add_sub_cancel' hle]
        frames := by
          intro fr hfr
          rw [← Nat.add_assoc, hdiv]
          rcases List.mem_append.mp hfr with hold | hnew
          · obtain ⟨q, hq, hlt', his⟩ := h.frames fr hold
            exact ⟨q, hq, Nat.lt_succ_of_lt hlt', his⟩
          · rw [List.mem_singleton.mp hnew]
            refine ⟨(u + n) / f.frameLengthBlocks, hle, Nat.lt_succ_self _, rfl, ?_⟩
            intro j hj r i hi
            exact h.storeBlock_eq hj r (by rw [heq]; exact hi) }

end

theorem framerRun_after (f : TrendFramer) (c : TrendChannels) (memory : TrendArrays R) (u : ℕ)
    (blocks : ℕ → ℕ → TrendBlock R) (n : ℕ) :
    FramerAfter f c memory u blocks n (u + n)
      (framerRun f c memory (u * f.slotSecs) blocks n) := by
  induction n with
  | zero =>
    exact
      { start := fun _ => ⟨rfl, rfl⟩
        slot := fun hn => absurd rfl hn
        fileGps := fun hne => absurd rfl hne
        slots := fun j hj r i hi => absurd hi (Nat.not_lt_zero i)
        starts := by
          rw [Nat.add_zero, Nat.sub_self]
          rfl
        frames := fun fr hfr => absurd hfr List.not_mem_nil }
  | succ n ih =>
    have hrun : framerRun f c memory (u * f.slotSecs) blocks (n + 1) =
        framerBlock f c (framerRun f c memory (u * f.slotSecs) blocks n)
          ((u + n) * f.slotSecs) (blocks n) := by
      unfold framerRun
      rw [List.range_succ, List.foldl_append, Nat.add_mul]
      rfl
    rw [hrun]
    exact ih.step

/-! ## Where the missing slots are zero -/

theorem memoryAfter_eq {j : ℕ} (hj : j < c.numChannels) (r : TrendSuffix) {i : ℕ}
    (hi : i < u % f.frameLengthBlocks) :
    memoryAfter f c memory u j r i =
      if f.zeroes = true ∧ HasBps (c.dataType j) then r.zero else memory j r i := by
  have hmod : i < u * f.slotSecs % f.alignSecs := by
    rw [mul_mod_align]
    exact lt_of_lt_of_le hi (Nat.le_mul_of_pos_right _ f.slot_pos)
  unfold memoryAfter
  by_cases hz : f.zeroes = true
  · rw [if_pos hz, zeroMissing_eq memory hj hmod]
    exact if_congr ⟨fun hbps => ⟨hz, hbps⟩, fun hand => hand.2⟩ rfl rfl
  · rw [if_neg hz, if_neg fun hand => hz hand.1]

/-- A slot of a frame whose time is before the first block. -/
theorem FrameIs.missing {q : ℕ} {fr : TrendFrame R} (h : FrameIs f c memory u blocks q fr)
    (hq : u / f.frameLengthBlocks ≤ q) {j : ℕ} (hj : j < c.numChannels) (r : TrendSuffix) {i : ℕ}
    (hi : i < f.frameLengthBlocks) (hbefore : q * f.frameLengthBlocks + i < u) :
    q = u / f.frameLengthBlocks ∧ i < u % f.frameLengthBlocks ∧
      fr.adc j r i = memoryAfter f c memory u j r i := by
  have hq' : q ≤ u / f.frameLengthBlocks :=
    (Nat.le_div_iff_mul_le f.blocks_pos).mpr (by omega)
  have heq : q = u / f.frameLengthBlocks := le_antisymm hq' hq
  have hu := Nat.div_add_mod' u f.frameLengthBlocks
  refine ⟨heq, by rw [heq] at hbefore; omega, ?_⟩
  rw [h.slots j hj r i hi]
  unfold slotValue
  rw [if_neg (not_le.mpr hbefore), Nat.mul_add_mod_self_right, Nat.mod_eq_of_lt hi]

theorem framesInPlace_iff (n : ℕ) :
    FramesInPlace f c (u * f.slotSecs) blocks n
        (framerRun f c memory (u * f.slotSecs) blocks n).frames ↔
      MissingZero f c memory (u * f.slotSecs) n := by
  have hafter := framerRun_after f c memory u blocks n
  have hstamp : ∀ m, u * f.slotSecs + m * f.slotSecs = (u + m) * f.slotSecs :=
    fun m => (Nat.add_mul u m f.slotSecs).symm
  have htime : ∀ q i, q * f.alignSecs + i * f.slotSecs =
      (q * f.frameLengthBlocks + i) * f.slotSecs := fun q i => by
    rw [f.align_eq, Nat.add_mul]
    ring
  constructor
  · intro h hover j hj r i hi
    rw [hstamp, mul_div_align, mul_div_align] at hover
    rw [mul_mod_align] at hi
    have hi' : i < u % f.frameLengthBlocks := lt_of_mul_lt_mul_right hi (Nat.zero_le _)
    have hilt : i < f.frameLengthBlocks := lt_trans hi' (Nat.mod_lt u f.blocks_pos)
    -- the frame that holds the first block
    have hfirst : u / f.frameLengthBlocks * f.alignSecs ∈
        (framerRun f c memory (u * f.slotSecs) blocks n).frames.map TrendFrame.gps := by
      rw [hafter.starts, List.mem_map]
      exact ⟨0, List.mem_range.mpr (Nat.sub_pos_of_lt hover), rfl⟩
    obtain ⟨fr, hfr, hgps⟩ := List.mem_map.mp hfirst
    obtain ⟨q, hq, -, his⟩ := hafter.frames fr hfr
    have hqeq : q = u / f.frameLengthBlocks := by
      rw [his.gps] at hgps
      exact Nat.eq_of_mul_eq_mul_right f.align_pos hgps
    have hu := Nat.div_add_mod' u f.frameLengthBlocks
    have hbefore : q * f.frameLengthBlocks + i < u := by
      rw [hqeq]
      omega
    have hzero := h.missing fr hfr j hj r i hilt (by
      rw [his.gps, htime]
      exact Nat.mul_lt_mul_of_pos_right hbefore f.slot_pos)
    obtain ⟨-, -, hvalue⟩ := his.missing hq hj r hilt hbefore
    rw [hvalue, memoryAfter_eq hj r hi'] at hzero
    by_cases hz : f.zeroes = true ∧ HasBps (c.dataType j)
    · exact Or.inl hz
    · rw [if_neg hz] at hzero
      exact Or.inr hzero
  · intro h
    exact
      { starts := by
          rw [hstamp, mul_div_align, mul_div_align]
          exact hafter.starts
        placed := by
          intro fr hfr j hj r i hi m hm
          obtain ⟨q, -, hlt, his⟩ := hafter.frames fr hfr
          rw [his.gps, htime, hstamp] at hm
          have hslot : u + m = q * f.frameLengthBlocks + i :=
            Nat.eq_of_mul_eq_mul_right f.slot_pos hm
          have hend : (q + 1) * f.frameLengthBlocks ≤ u + n :=
            (Nat.le_div_iff_mul_le f.blocks_pos).mp hlt
          rw [Nat.add_mul, Nat.one_mul] at hend
          refine ⟨by omega, ?_⟩
          rw [his.slots j hj r i hi, ← hslot, slotValue_self]
        missing := by
          intro fr hfr j hj r i hi hbefore
          obtain ⟨q, hq, hlt, his⟩ := hafter.frames fr hfr
          rw [his.gps, htime] at hbefore
          have hbefore' := lt_of_mul_lt_mul_right hbefore (Nat.zero_le _)
          obtain ⟨hqeq, hi', hvalue⟩ := his.missing hq hj r hi hbefore'
          rw [hvalue, memoryAfter_eq hj r hi']
          have hover : u * f.slotSecs / f.alignSecs <
              (u * f.slotSecs + n * f.slotSecs) / f.alignSecs := by
            rw [hstamp, mul_div_align, mul_div_align]
            exact lt_of_le_of_lt hq hlt
          have hmod : i * f.slotSecs < u * f.slotSecs % f.alignSecs := by
            rw [mul_mod_align]
            exact Nat.mul_lt_mul_of_pos_right hi' f.slot_pos
          rcases h hover j hj r i hmod with hz | hzero
          · exact if_pos hz
          · rw [hzero]
            exact ite_self _ }

/-- The frames of a stream that begins on a slot are in place exactly if the slots before its first
block were zeroed or held zero. -/
theorem trend_frames_in_place_iff (f : TrendFramer) (c : TrendChannels) (memory : TrendArrays R)
    (gps : ℕ) (blocks : ℕ → ℕ → TrendBlock R) (n : ℕ) (hgps : f.slotSecs ∣ gps) :
    FramesInPlace f c gps blocks n (framerRun f c memory gps blocks n).frames ↔
      MissingZero f c memory gps n := by
  obtain ⟨u, rfl⟩ := hgps
  rw [Nat.mul_comm]
  exact framesInPlace_iff n

end

/-- Second trends of a channel of `short`s, from the middle of a minute on: the memory does not
matter. -/
theorem trend_frames_in_place_short :
    FramesInPlace (.framer 60 (by decide)) ⟨1, fun _ => .int16⟩ 90 (fun _ _ => .zero) 100
      (framerRun (.framer 60 (by decide)) ⟨1, fun _ => .int16⟩ (fun _ _ _ => .word 1) 90
        (fun _ _ => (.zero : TrendBlock ℤ)) 100).frames :=
  (trend_frames_in_place_iff _ _ _ 90 _ 100 (Nat.one_dvd 90)).mpr
    fun _ _ _ _ _ _ => Or.inl ⟨rfl, Or.inl rfl⟩

/-- A minute trend frame that begins with its last slot. -/
theorem trend_frames_minute_missing :
    ¬ FramesInPlace .minuteFramer ⟨1, fun _ => .int16⟩ 7140 (fun _ _ => .zero) 1
      (framerRun .minuteFramer ⟨1, fun _ => .int16⟩ (fun _ _ _ => .word 1) 7140
        (fun _ _ => (.zero : TrendBlock ℤ)) 1).frames := by
  intro h
  have hslot : (.word 1 : TrendValue ℤ) = .word 0 :=
    h.missing _ (List.mem_singleton_self _) 0 Nat.one_pos .min 0 (by decide) (by decide)
  exact absurd (TrendValue.word.inj hslot) (by decide)

end AdvLigoRts.Daqd
