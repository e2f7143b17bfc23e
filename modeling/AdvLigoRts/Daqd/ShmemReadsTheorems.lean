import AdvLigoRts.Daqd.ShmemReads

/-!
# Where `ShMemReceiver` stays inside the segment

`verify_cycle_state` keeps the receiver inside the segment, whatever numbers of cycles and slots
there are in the header, as long as its product does not wrap and `cycleDataSize` does not grow
behind it. What a call does not check is asked of the segment: the slot of the first `curCycle` of
a call, and the size of the block that is copied.
-/

namespace AdvLigoRts.Daqd

open PvLib

/-! ## What an access should be -/

/-- An access of the segment lies in it, one of a slot where the slot is; a copy fits `data_`; and
the slots that are said to fit do fit. -/
def ShmemAccess.Ok (shmemSize : ℕ) : ShmemAccess → Prop
  | .header x => x.Within shmemSize
  | .slot cycle stride field x =>
    x.start = sizeofDaqMultiCycleHeader + cycle.toNat * stride.toNat + field ∧
      x.Within shmemSize
  | .copied n => n ≤ sizeofDaqDcData
  | .verified cycleDataSize maxCycle =>
    cycleDataSize.toNat * maxCycle.toNat + sizeofDaqMultiCycleHeader ≤ shmemSize

instance (shmemSize : ℕ) (a : ShmemAccess) : Decidable (a.Ok shmemSize) :=
  match a with
  | .header x => inferInstanceAs (Decidable (x.Within shmemSize))
  | .slot _ _ _ _ => inferInstanceAs (Decidable (_ ∧ _))
  | .copied _ => inferInstanceAs (Decidable (_ ≤ _))
  | .verified _ _ => inferInstanceAs (Decidable (_ ≤ _))

/-- All that a step of the receiver touches is what it should be. -/
def StepOk (shmemSize : ℕ) (s : ShmemSystem) : ShmemAct → Prop
  | .read => ∀ a ∈ s.reader.accesses shmemSize s.words, a.Ok shmemSize
  | .write _ => True

instance (shmemSize : ℕ) (s : ShmemSystem) : (a : ShmemAct) → Decidable (StepOk shmemSize s a)
  | .read => inferInstanceAs (Decidable (∀ a ∈ s.reader.accesses shmemSize s.words, _))
  | .write _ => .isTrue trivial

/-! ## What is asked of the segment -/

/-- The words of the slot of a cycle that are looked at lie in the segment, and the product that
gives the slot is an `unsigned int`. -/
def WordsInside (shmemSize : ℕ) (cycle stride : UInt32) : Prop :=
  cycle.toNat * stride.toNat < 2 ^ 32 ∧
    sizeofDaqMultiCycleHeader + cycle.toNat * stride.toNat + (timeSecOffset + 4) ≤ shmemSize

instance (shmemSize : ℕ) (cycle stride : UInt32) :
    Decidable (WordsInside shmemSize cycle stride) := inferInstanceAs (Decidable (_ ∧ _))

/-- The block that the slot announces ends inside the segment and fits `data_`. -/
def BlockFits (shmemSize : ℕ) (w : ShmemWords) (cycle stride : UInt32) : Prop :=
  sizeofDaqMultiCycleHeader + cycle.toNat * stride.toNat +
      copySize (w.fullDataBlockSize (slotOffset cycle stride)) ≤ shmemSize ∧
    copySize (w.fullDataBlockSize (slotOffset cycle stride)) ≤ sizeofDaqDcData

instance (shmemSize : ℕ) (w : ShmemWords) (cycle stride : UInt32) :
    Decidable (BlockFits shmemSize w cycle stride) := inferInstanceAs (Decidable (_ ∧ _))

/-- Where `verify_cycle_state` does not throw, its product has not wrapped, and a slot is long
enough for the words that are looked at. -/
def CheckHolds (shmemSize : ℕ) (w : ShmemWords) (curCycle maxCycle : UInt32) : Prop :=
  ¬Nonsensical curCycle maxCycle → ¬Overflows shmemSize w.cycleDataSize maxCycle →
    w.cycleDataSize.toNat * maxCycle.toNat < 2 ^ 32 ∧ timeSecOffset + 4 ≤ w.cycleDataSize.toNat

instance (shmemSize : ℕ) (w : ShmemWords) (curCycle maxCycle : UInt32) :
    Decidable (CheckHolds shmemSize w curCycle maxCycle) :=
  inferInstanceAs (Decidable (_ → _ → _ ∧ _))

/-- A call is between the read of a cycle, or its check, and the looks at slots. -/
def ReadPc.relies : ReadPc → Bool
  | .maxCycle _ | .stride _ _ | .slot _ _ _ => true
  | _ => false

/-- What the segment has to hold when the receiver reads next. -/
def SegmentOk (shmemSize : ℕ) (s : ShmemReader) (w : ShmemWords) : Prop :=
  match s.pc with
  | .enter =>
    w.curCycle = s.prevCycle ∧ s.prevCycle ≠ 0xffffffff ∨
      WordsInside shmemSize w.curCycle w.cycleDataSize
  | .current =>
    w.curCycle = s.prevCycle ∨ WordsInside shmemSize w.curCycle w.cycleDataSize
  | .verifyWait curCycle maxCycle | .verify curCycle maxCycle =>
    CheckHolds shmemSize w curCycle maxCycle
  | .slot cycle stride .block => BlockFits shmemSize w cycle stride
  | _ => True

instance (shmemSize : ℕ) (s : ShmemReader) (w : ShmemWords) :
    Decidable (SegmentOk shmemSize s w) := by
  unfold SegmentOk
  split <;> infer_instance

/-- The condition on a step: the segment has its header and is as it has to be, and where a call
relies on it, `cycleDataSize` does not grow. -/
def Orderly (shmemSize : ℕ) (s : ShmemSystem) : ShmemAct → Prop
  | .read => sizeofDaqMultiCycleHeader ≤ shmemSize ∧ SegmentOk shmemSize s.reader s.words
  | .write w => s.reader.pc.relies = true → w.cycleDataSize ≤ s.words.cycleDataSize

instance (shmemSize : ℕ) (s : ShmemSystem) : (a : ShmemAct) → Decidable (Orderly shmemSize s a)
  | .read => inferInstanceAs (Decidable (_ ∧ _))
  | .write _ => inferInstanceAs (Decidable (_ → _ ≤ _))

/-! ## Slots -/

theorem headerAccess_ok {shmemSize offset : ℕ} (h : offset + 4 ≤ shmemSize) :
    (headerAccess offset).Ok shmemSize := Extent.within_of_le h

theorem slotOffset_eq {cycle stride : UInt32} (h : cycle.toNat * stride.toNat < 2 ^ 32) :
    slotOffset cycle stride = cycle.toNat * stride.toNat := by
  unfold slotOffset
  rw [UInt32.toNat_mul, Nat.mod_eq_of_lt h]

theorem slotAccess_ok {shmemSize field size : ℕ} {cycle stride : UInt32}
    (hlt : cycle.toNat * stride.toNat < 2 ^ 32)
    (hend : sizeofDaqMultiCycleHeader + cycle.toNat * stride.toNat + (field + size) ≤ shmemSize) :
    (slotAccess cycle stride field size).Ok shmemSize := by
  unfold slotAccess
  rw [slotOffset_eq hlt]
  refine ⟨rfl, Extent.within_of_le ?_⟩
  show sizeofDaqMultiCycleHeader + cycle.toNat * stride.toNat + field + size ≤ shmemSize
  omega

/-- The slots of a smaller stride lie before those of a larger one. -/
theorem WordsInside.of_le {shmemSize : ℕ} {cycle stride stride' : UInt32}
    (h : WordsInside shmemSize cycle stride) (hle : stride' ≤ stride) :
    WordsInside shmemSize cycle stride' := by
  have hmul : cycle.toNat * stride'.toNat ≤ cycle.toNat * stride.toNat :=
    Nat.mul_le_mul_left _ (UInt32.le_iff_toNat_le.mp hle)
  obtain ⟨hlt, hend⟩ := h
  exact ⟨by omega, by omega⟩

/-- What `verify_cycle_state` has let pass: the slots of all cycles are inside. -/
def SlotsInside (shmemSize : ℕ) (maxCycle stride : UInt32) : Prop :=
  ∀ cycle < maxCycle, WordsInside shmemSize cycle stride

/-- The check, where its product is exact. -/
theorem CheckHolds.slotsInside {shmemSize : ℕ} {w : ShmemWords} {curCycle maxCycle : UInt32}
    (h : CheckHolds shmemSize w curCycle maxCycle)
    (hpass : ¬(Nonsensical curCycle maxCycle ∨ Overflows shmemSize w.cycleDataSize maxCycle)) :
    curCycle < maxCycle ∧ SlotsInside shmemSize maxCycle w.cycleDataSize ∧
      w.cycleDataSize.toNat * maxCycle.toNat + sizeofDaqMultiCycleHeader ≤ shmemSize := by
  obtain ⟨hsense, hover⟩ := not_or.mp hpass
  obtain ⟨hlt, hword⟩ := h hsense hover
  have hfits : w.cycleDataSize.toNat * maxCycle.toNat + sizeofDaqMultiCycleHeader ≤ shmemSize := by
    unfold Overflows at hover
    rw [UInt32.toNat_mul, Nat.mod_eq_of_lt hlt] at hover
    omega
  refine ⟨UInt32.not_le.mp fun hle => hsense (.inl hle), fun cycle hcycle => ?_, hfits⟩
  have hslot : (cycle.toNat + 1) * w.cycleDataSize.toNat ≤
      w.cycleDataSize.toNat * maxCycle.toNat := by
    rw [Nat.mul_comm w.cycleDataSize.toNat]
    exact Nat.mul_le_mul_right _ (UInt32.lt_iff_toNat_lt.mp hcycle)
  rw [Nat.add_mul, Nat.one_mul] at hslot
  exact ⟨by omega, by omega⟩

/-! ## The invariant -/

/-- What a search for skipped cycles goes on with behind the look at the slot of `cycle`. -/
def UseInside (shmemSize : ℕ) (cycle stride : UInt32) : SlotUse → Prop
  | .first | .block | .poll _ => True
  | .jumpGps _ newCycle m | .jumpTotal newCycle m =>
    (cycle < m ∧ newCycle < m) ∧ SlotsInside shmemSize m stride

/-- The slots that a call has yet to look at are inside the segment, for slots of `stride` bytes. -/
def PcInside (shmemSize : ℕ) (prevCycle stride : UInt32) : ReadPc → Prop
  | .maxCycle curCycle => curCycle = prevCycle ∨ WordsInside shmemSize curCycle stride
  | .stride cycle use =>
    WordsInside shmemSize cycle stride ∧ UseInside shmemSize cycle stride use
  | .slot cycle stride' use =>
    WordsInside shmemSize cycle stride' ∧ UseInside shmemSize cycle stride use
  | _ => True

/-- The invariant of the receiver and the segment. -/
def ReadInside (shmemSize : ℕ) (s : ShmemReader) (w : ShmemWords) : Prop :=
  PcInside shmemSize s.prevCycle w.cycleDataSize s.pc

section

variable {shmemSize : ℕ} {s : ShmemReader} {w w' : ShmemWords}

theorem UseInside.of_le {cycle stride stride' : UInt32} {use : SlotUse}
    (h : UseInside shmemSize cycle stride use) (hle : stride' ≤ stride) :
    UseInside shmemSize cycle stride' use := by
  cases use with
  | first | poll m | block => trivial
  | jumpGps prev newCycle m | jumpTotal newCycle m => exact ⟨h.1, fun c hc => (h.2 c hc).of_le hle⟩

/-- A write that does not enlarge the slots leaves them inside. -/
theorem ReadInside.write (h : ReadInside shmemSize s w)
    (hle : s.pc.relies = true → w'.cycleDataSize ≤ w.cycleDataSize) :
    ReadInside shmemSize s w' := by
  unfold ReadInside at h ⊢
  cases hpc : s.pc with
  | maxCycle curCycle =>
    rw [hpc] at h hle
    exact h.imp_right fun hwords => hwords.of_le (hle rfl)
  | stride cycle use =>
    rw [hpc] at h hle
    exact ⟨h.1.of_le (hle rfl), h.2.of_le (hle rfl)⟩
  | slot cycle stride use =>
    rw [hpc] at h hle
    exact ⟨h.1, h.2.of_le (hle rfl)⟩
  | _ => trivial

theorem verifyAccesses_ok (hheader : sizeofDaqMultiCycleHeader ≤ shmemSize)
    {curCycle maxCycle : UInt32} (h : CheckHolds shmemSize w curCycle maxCycle) :
    ∀ a ∈ verifyAccesses shmemSize w curCycle maxCycle, a.Ok shmemSize := by
  have hsize : (headerAccess cycleDataSizeOffset).Ok shmemSize :=
    headerAccess_ok (le_trans (by decide) hheader)
  unfold verifyAccesses
  split
  · exact fun a ha => absurd ha List.not_mem_nil
  · next hsense =>
    split
    · exact List.forall_mem_singleton.mpr hsize
    · next hover =>
      obtain ⟨-, -, hfits⟩ := h.slotsInside (not_or.mpr ⟨hsense, hover⟩)
      exact List.forall_mem_cons.mpr ⟨hsize, List.forall_mem_singleton.mpr hfits⟩

theorem slotAccesses_ok {cycle stride : UInt32} {use : SlotUse}
    (hwords : WordsInside shmemSize cycle stride)
    (hblock : use = .block → BlockFits shmemSize w cycle stride) :
    ∀ a ∈ slotAccesses w cycle stride use, a.Ok shmemSize := by
  obtain ⟨hlt, hend⟩ := hwords
  have htime : (slotAccess cycle stride timeSecOffset 4).Ok shmemSize := slotAccess_ok hlt hend
  have htotal : (slotAccess cycle stride totalDcusOffset 4).Ok shmemSize :=
    slotAccess_ok hlt (le_trans (Nat.add_le_add_left (by decide) _) hend)
  have hfull : (slotAccess cycle stride fullDataBlockSizeOffset 4).Ok shmemSize :=
    slotAccess_ok hlt (le_trans (Nat.add_le_add_left (by decide) _) hend)
  cases use with
  | first | jumpGps prev newCycle m => exact List.forall_mem_singleton.mpr htime
  | poll m | jumpTotal newCycle m => exact List.forall_mem_singleton.mpr htotal
  | block =>
    obtain ⟨hcopy, hdata⟩ := hblock rfl
    unfold slotAccesses
    rw [List.forall_mem_cons, List.forall_mem_cons, List.forall_mem_singleton]
    exact ⟨hfull, slotAccess_ok hlt (by rwa [Nat.zero_add]), hdata⟩

/-- A read touches what it should, where the invariant and the condition hold. -/
theorem ReadInside.accesses_ok (h : ReadInside shmemSize s w)
    (hheader : sizeofDaqMultiCycleHeader ≤ shmemSize) (hok : SegmentOk shmemSize s w) :
    ∀ a ∈ s.accesses shmemSize w, a.Ok shmemSize := by
  have hword : ∀ offset, offset + 4 ≤ sizeofDaqMultiCycleHeader →
      ∀ a ∈ [headerAccess offset], a.Ok shmemSize := fun offset hle =>
    List.forall_mem_singleton.mpr (headerAccess_ok (le_trans hle hheader))
  unfold ShmemReader.accesses
  unfold ReadInside at h
  unfold SegmentOk at hok
  cases hpc : s.pc with
  | enter | current | wait m | maxCycle curCycle | maxAgain curCycle | stride cycle use =>
    exact hword _ (by decide)
  | verifyWait curCycle m | verify curCycle m =>
    rw [hpc] at hok
    exact verifyAccesses_ok hheader hok
  | slot cycle stride use =>
    rw [hpc] at h hok
    refine slotAccesses_ok h.1 fun huse => ?_
    rw [huse] at hok
    exact hok
  | thrown => exact fun a ha => absurd ha List.not_mem_nil

/-! ## Steps -/

theorem pollPc_inside {prevCycle curCycle m stride : UInt32}
    (h : curCycle = prevCycle ∨ WordsInside shmemSize curCycle stride) :
    PcInside shmemSize prevCycle stride (pollPc prevCycle curCycle m) := by
  unfold pollPc
  split
  · trivial
  · next hne => exact ⟨h.resolve_left hne, trivial⟩

theorem jumpPc_inside {prevCycle prev nextCycle newCycle m stride : UInt32} (hnext : nextCycle < m)
    (hnew : newCycle < m) (h : SlotsInside shmemSize m stride) :
    PcInside shmemSize prevCycle stride (jumpPc prev nextCycle newCycle m) := by
  unfold jumpPc
  split
  · exact ⟨h newCycle hnew, trivial⟩
  · exact ⟨h nextCycle hnext, ⟨hnext, hnew⟩, h⟩

theorem mod_below (x : UInt32) {cycle maxCycle : UInt32} (h : cycle < maxCycle) :
    x % maxCycle < maxCycle := by
  apply UInt32.mod_lt
  rw [UInt32.lt_iff_toNat_lt] at h ⊢
  exact Nat.zero_lt_of_lt h

theorem afterSlot_inside {cycle : UInt32} {use : SlotUse} (off : ℕ)
    (h : UseInside shmemSize cycle w.cycleDataSize use) :
    ReadInside shmemSize (afterSlot s w cycle off use) w := by
  cases use with
  | first => trivial
  | block => trivial
  | poll m =>
    unfold ReadInside afterSlot
    dsimp only
    split
    · trivial
    · trivial
  | jumpGps prev newCycle m =>
    obtain ⟨⟨hcycle, hnew⟩, hslots⟩ := h
    unfold ReadInside afterSlot
    dsimp only
    generalize (if cycle < prev then s.prevGps + 1 else s.prevGps) = expectedGps
    by_cases hgps : w.timeSec off = expectedGps
    · rw [if_pos hgps]
      exact ⟨hslots cycle hcycle, ⟨hcycle, hnew⟩, hslots⟩
    · rw [if_neg hgps]
      exact jumpPc_inside (mod_below _ hcycle) hnew hslots
  | jumpTotal newCycle m =>
    obtain ⟨⟨hcycle, hnew⟩, hslots⟩ := h
    unfold ReadInside afterSlot
    dsimp only
    by_cases htotal : w.totalDcus off ≠ 0
    · rw [if_pos htotal]
      exact ⟨hslots cycle hcycle, trivial⟩
    · rw [if_neg htotal]
      exact jumpPc_inside (mod_below _ hcycle) hnew hslots

/-- A read keeps the invariant, under the condition. -/
theorem ReadInside.step (h : ReadInside shmemSize s w) (hok : SegmentOk shmemSize s w) :
    ReadInside shmemSize (s.step shmemSize w) w := by
  unfold ReadInside at h ⊢
  unfold SegmentOk at hok
  unfold ShmemReader.step
  cases hpc : s.pc with
  | enter =>
    rw [hpc] at hok
    dsimp only
    by_cases hfirst : s.prevCycle = 0xffffffff
    · rw [if_pos hfirst]
      exact ⟨hok.resolve_left fun hsame => hsame.2 hfirst, trivial⟩
    · rw [if_neg hfirst]
      exact hok.imp_left And.left
  | current =>
    rw [hpc] at hok
    exact hok
  | maxCycle curCycle =>
    rw [hpc] at h
    exact pollPc_inside h
  | wait m => trivial
  | verifyWait curCycle m =>
    rw [hpc] at hok
    dsimp only
    split
    · trivial
    · next hpass =>
      obtain ⟨hcur, hslots, -⟩ := hok.slotsInside hpass
      exact pollPc_inside (.inr (hslots curCycle hcur))
  | maxAgain curCycle => trivial
  | verify curCycle m =>
    rw [hpc] at hok
    dsimp only
    split
    · trivial
    · next hpass =>
      obtain ⟨hcur, hslots, -⟩ := hok.slotsInside hpass
      exact jumpPc_inside (mod_below _ hcur) hcur hslots
  | stride cycle use =>
    rw [hpc] at h
    exact h
  | slot cycle stride use =>
    rw [hpc] at h
    exact afterSlot_inside _ h.2
  | thrown => trivial

end

/-- One step of the receiver or of another process. -/
theorem orderly_step {shmemSize : ℕ} {s : ShmemSystem} {a : ShmemAct}
    (hinv : ReadInside shmemSize s.reader s.words) (hok : Orderly shmemSize s a) :
    StepOk shmemSize s a ∧
      ReadInside shmemSize (s.step shmemSize a).reader (s.step shmemSize a).words := by
  cases a with
  | read => exact ⟨hinv.accesses_ok hok.1 hok.2, hinv.step hok.2⟩
  | write w => exact ⟨trivial, hinv.write hok⟩

/-! ## Segments with any header -/

/-- The slots have `stride` bytes, that of `curCycle` lies in the segment, and the blocks in all
slots of the segment fit it. Of the header nothing else is asked. -/
structure SlotsOk (shmemSize : ℕ) (stride : UInt32) (w : ShmemWords) : Prop where
  cycleDataSize_eq : w.cycleDataSize = stride
  current : WordsInside shmemSize w.curCycle stride
  block : ∀ cycle, WordsInside shmemSize cycle stride → BlockFits shmemSize w cycle stride

/-- The stride that a look uses is that of the segment. -/
def StrideIs (stride : UInt32) : ReadPc → Prop
  | .slot _ stride' _ => stride' = stride
  | _ => True

theorem strideIs_step {shmemSize : ℕ} {s : ShmemReader} {w : ShmemWords} :
    StrideIs w.cycleDataSize (s.step shmemSize w).pc := by
  have hpoll : ∀ prev cur m, StrideIs w.cycleDataSize (pollPc prev cur m) := by
    intro prev cur m
    unfold pollPc
    split <;> trivial
  have hjump : ∀ prev next new m, StrideIs w.cycleDataSize (jumpPc prev next new m) := by
    intro prev next new m
    unfold jumpPc
    split <;> trivial
  unfold ShmemReader.step
  cases s.pc with
  | enter =>
    dsimp only
    split <;> trivial
  | current => trivial
  | maxCycle cur => exact hpoll _ _ _
  | wait m => trivial
  | verifyWait cur m =>
    dsimp only
    split
    · trivial
    · exact hpoll _ _ _
  | maxAgain cur => trivial
  | verify cur m =>
    dsimp only
    split
    · trivial
    · exact hjump _ _ _ _
  | stride cycle use => exact rfl
  | slot cycle stride use =>
    cases use with
    | first => trivial
    | block => trivial
    | poll m =>
      unfold afterSlot
      dsimp only
      split <;> trivial
    | jumpGps prev new m =>
      unfold afterSlot
      dsimp only
      generalize (if cycle < prev then s.prevGps + 1 else s.prevGps) = expectedGps
      split
      · trivial
      · exact hjump _ _ _ _
    | jumpTotal new m =>
      unfold afterSlot
      dsimp only
      split
      · trivial
      · exact hjump _ _ _ _
  | thrown => trivial

/-- No product of the stride with a number of slots that is let pass wraps. -/
theorem SlotsOk.segmentOk {shmemSize : ℕ} {stride : UInt32} {s : ShmemReader} {w : ShmemWords}
    (hw : SlotsOk shmemSize stride w) (hstride : stride.toNat * 64 < 2 ^ 32)
    (hlong : timeSecOffset + 4 ≤ stride.toNat) (hinv : ReadInside shmemSize s w)
    (hpc : StrideIs stride s.pc) : SegmentOk shmemSize s w := by
  have hcheck : ∀ curCycle maxCycle, CheckHolds shmemSize w curCycle maxCycle := by
    intro curCycle maxCycle hsense _
    have hmax : maxCycle.toNat ≤ 64 :=
      UInt32.le_iff_toNat_le.mp (UInt32.not_lt.mp fun hlt => hsense (.inr hlt))
    rw [hw.cycleDataSize_eq]
    exact ⟨lt_of_le_of_lt (Nat.mul_le_mul_left _ hmax) hstride, hlong⟩
  have hcurrent : WordsInside shmemSize w.curCycle w.cycleDataSize := by
    rw [hw.cycleDataSize_eq]
    exact hw.current
  unfold SegmentOk
  unfold ReadInside at hinv
  split
  · exact .inr hcurrent
  · exact .inr hcurrent
  · exact hcheck _ _
  · exact hcheck _ _
  · next cycle stride' heq =>
    rw [heq] at hinv hpc
    obtain rfl : stride' = stride := hpc
    exact hw.block cycle hinv.1
  · trivial

/-! ## Runs -/

/-- The receiver before a call. -/
def ShmemReader.between (prevCycle prevGps : UInt32) : ShmemReader := ⟨prevCycle, prevGps, .enter⟩

/-- A run of the receiver and the other processes touches what it should if each of its steps meets
the condition; so it does, whatever is in `curCycle` and `maxCycle`, as long as `cycleDataSize`
stays the same and below `2 ^ 26`, the slot of `curCycle` lies in the segment, and the blocks in
it fit. -/
theorem receiver_stays_inside (shmemSize : ℕ) (prevCycle prevGps : UInt32) (words : ShmemWords)
    (acts : List ShmemAct) :
    (StepsMeet (ShmemSystem.step shmemSize) (Orderly shmemSize)
        ⟨.between prevCycle prevGps, words⟩ acts →
      StepsMeet (ShmemSystem.step shmemSize) (StepOk shmemSize)
        ⟨.between prevCycle prevGps, words⟩ acts) ∧
    ∀ stride : UInt32, stride.toNat * 64 < 2 ^ 32 → timeSecOffset + 4 ≤ stride.toNat →
      sizeofDaqMultiCycleHeader ≤ shmemSize → SlotsOk shmemSize stride words →
      (∀ w, ShmemAct.write w ∈ acts → SlotsOk shmemSize stride w) →
      StepsMeet (ShmemSystem.step shmemSize) (StepOk shmemSize)
        ⟨.between prevCycle prevGps, words⟩ acts := by
  constructor
  · exact stepsMeet_imp (fun s => ReadInside shmemSize s.reader s.words)
      (fun _ _ hinv hok => orderly_step hinv hok) trivial
  · intro stride hstride hlong hheader hwords hwrites
    have hmeet : StepsMeet (ShmemSystem.step shmemSize)
        (fun _ a => ∀ w, a = .write w → SlotsOk shmemSize stride w)
        ⟨.between prevCycle prevGps, words⟩ acts :=
      stepsMeet_of_forall _ fun _ a ha w hw => hwrites w (hw ▸ ha)
    refine stepsMeet_imp (fun s => ReadInside shmemSize s.reader s.words ∧
      SlotsOk shmemSize stride s.words ∧ StrideIs stride s.reader.pc) ?_ ⟨trivial, hwords, trivial⟩
      hmeet
    rintro s a ⟨hinv, hw, hpc⟩ hwrite
    cases a with
    | read =>
      have hok := hw.segmentOk hstride hlong hinv hpc
      obtain ⟨hstep, hinv'⟩ := orderly_step (a := .read) hinv ⟨hheader, hok⟩
      have hpc' : StrideIs s.words.cycleDataSize (s.reader.step shmemSize s.words).pc :=
        strideIs_step
      rw [hw.cycleDataSize_eq] at hpc'
      exact ⟨hstep, hinv', hw, hpc'⟩
    | write w =>
      have hw' := hwrite w rfl
      have hsame : w.cycleDataSize = s.words.cycleDataSize := by
        rw [hw'.cycleDataSize_eq, hw.cycleDataSize_eq]
      obtain ⟨hstep, hinv'⟩ := orderly_step (a := .write w) hinv
        fun _ => UInt32.le_of_eq hsame
      exact ⟨hstep, hinv', hw', hpc⟩

/-- A segment of two slots that hold the headers of blocks without data. -/
def twoSlots : ShmemWords :=
  ⟨0, 2, .ofNat sizeofDaqMultiDcuHeader, fun _ => 1, fun _ => 0, fun _ => 7⟩

theorem twoSlots_ok (maxCycle : UInt32) :
    SlotsOk (sizeofDaqMultiCycleHeader + 2 * sizeofDaqMultiDcuHeader) twoSlots.cycleDataSize
      { twoSlots with maxCycle } where
  cycleDataSize_eq := rfl
  current := by
    show WordsInside _ twoSlots.curCycle _
    decide +kernel
  block := by
    rintro cycle ⟨-, hend⟩
    have hstride : twoSlots.cycleDataSize.toNat = sizeofDaqMultiDcuHeader := by decide +kernel
    have hcopy : copySize 0 = sizeofDaqMultiDcuHeader := rfl
    have hdata : sizeofDaqMultiDcuHeader ≤ sizeofDaqDcData := by decide +kernel
    have hpos : timeSecOffset + 4 ≤ sizeofDaqMultiDcuHeader := by decide +kernel
    rw [hstride] at hend
    refine ⟨?_, hdata⟩
    show sizeofDaqMultiCycleHeader + cycle.toNat * twoSlots.cycleDataSize.toNat + copySize 0 ≤ _
    rw [hstride, hcopy]
    have hcycle : cycle.toNat < 2 := by
      by_contra hge
      have hmul := Nat.mul_le_mul_right sizeofDaqMultiDcuHeader (Nat.le_of_not_lt hge)
      have : 0 < timeSecOffset + 4 := by decide
      omega
    have hmul := Nat.mul_le_mul_right sizeofDaqMultiDcuHeader (Nat.le_of_lt_succ hcycle)
    omega

/-- A call gets the block of slot 0; the next one meets a header with too many cycles and throws. -/
theorem receiver_stays_inside_two_slots :
    let shmemSize := sizeofDaqMultiCycleHeader + 2 * sizeofDaqMultiDcuHeader
    let acts := List.replicate 8 ShmemAct.read ++ .write { twoSlots with maxCycle := 65 } ::
      List.replicate 4 .read
    StepsMeet (ShmemSystem.step shmemSize) (StepOk shmemSize) ⟨.between 1 6, twoSlots⟩ acts ∧
      StepsMeet (ShmemSystem.step shmemSize) (StepOk shmemSize)
        ⟨.between 0xffffffff 0xffffffff, twoSlots⟩ acts ∧
      (acts.foldl (ShmemSystem.step shmemSize) ⟨.between 1 6, twoSlots⟩).reader =
        ⟨0, 7, .thrown⟩ := by
  refine ⟨(receiver_stays_inside _ _ _ _ _).1 (by decide +kernel),
    (receiver_stays_inside _ _ _ _ _).2 twoSlots.cycleDataSize (by decide +kernel)
      (by decide +kernel) (by decide +kernel) ?_ ?_, by decide +kernel⟩
  · exact twoSlots_ok _
  · intro w hw
    obtain rfl : w = { twoSlots with maxCycle := 65 } := by
      simp only [List.mem_append, List.mem_cons, List.mem_replicate, reduceCtorEq, and_false,
        or_false, false_or, ShmemAct.write.injEq] at hw
      exact hw
    exact twoSlots_ok _

/-- What `reset_cycle_counter` writes is a cycle for the first call, which looks for its slot
without a check; and 64 slots of `2 ^ 26` bytes are taken to fit a segment of any size. -/
theorem receiver_leaves_segment :
    ¬(∀ acts, StepsMeet (ShmemSystem.step 0x6400000) (StepOk 0x6400000)
      ⟨.between 0xffffffff 0xffffffff, ⟨0x50505050, 16, 0x600000, fun _ => 1, fun _ => 0,
        fun _ => 7⟩⟩ acts) ∧
    ¬(∀ acts, StepsMeet (ShmemSystem.step 0x6400000) (StepOk 0x6400000)
      ⟨.between 1 6, ⟨0, 64, 0x4000000, fun _ => 1, fun _ => 0, fun _ => 7⟩⟩ acts) := by
  constructor
  · intro h
    have hrun := h (List.replicate 3 .read)
    revert hrun
    decide +kernel
  · intro h
    have hrun := h (List.replicate 6 .read)
    revert hrun
    decide +kernel

end AdvLigoRts.Daqd
