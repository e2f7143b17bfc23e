import AdvLigoRts.Drv.IoData
import Mathlib.Data.List.Range

/-!
# What the calls do to the blocks

`iopDacWrite` treats each card by itself (`sameCard_writeCards`): `iopDacWrite_card` says what it
leaves of a card, and `appDacWrite_spec` which stores an application makes.
-/

namespace AdvLigoRts.Drv

variable {ι : Type} {B : DacHardware ι}

namespace IoData

variable {io : IoData} {mm slot : ℕ} {f : MemDataBlock → MemDataBlock}

@[simp] theorem modify_self : io.modify mm slot f mm slot = f (io mm slot) := by
  rw [modify, Function.update_self, Function.update_self]

theorem modify_of_ne_block {mm' : ℕ} (h : mm' ≠ mm) : io.modify mm slot f mm' = io mm' :=
  Function.update_of_ne h _ _

theorem modify_of_ne_slot {slot' : ℕ} (h : slot' ≠ slot) :
    io.modify mm slot f mm slot' = io mm slot' := by
  rw [modify, Function.update_self, Function.update_of_ne h]

theorem modify_block : io.modify mm slot f mm = Function.update (io mm) slot (f (io mm slot)) :=
  Function.update_self ..

end IoData

theorem DacHardware.dacConfig_inj {card card' : ℕ} (h : B.dacConfig card = B.dacConfig card') :
    card = card' := Nat.add_left_cancel h

/-- What a store changes in the values of a channel, slot by slot. -/
theorem exec_data_self (io : IoData) (card memCtr chan : ℕ) (dacOut : ℤ) :
    (fun i => ((DacStore.data card memCtr chan dacOut).exec B io (B.dacConfig card) i).data chan) =
      Function.update (fun i => (io (B.dacConfig card) i).data chan) memCtr dacOut := by
  funext i
  rw [DacStore.exec]
  by_cases hi : i = memCtr
  · rw [hi, IoData.modify_self, Function.update_self]
    exact Function.update_self ..
  · rw [IoData.modify_of_ne_slot hi, Function.update_of_ne hi]

theorem exec_data_of_ne (io : IoData) {card memCtr chan card' chan' : ℕ} (dacOut : ℤ)
    (h : ¬ (card = card' ∧ chan = chan')) (i : ℕ) :
    ((DacStore.data card memCtr chan dacOut).exec B io (B.dacConfig card') i).data chan' =
      (io (B.dacConfig card') i).data chan' := by
  rw [DacStore.exec]
  by_cases hcard : card' = card
  · subst hcard
    have hchan : chan' ≠ chan := fun heq => h ⟨rfl, heq.symm⟩
    by_cases hi : i = memCtr
    · rw [hi, IoData.modify_self]
      exact Function.update_of_ne hchan _ _
    · rw [IoData.modify_of_ne_slot hi]
  · rw [IoData.modify_of_ne_block fun heq => hcard (B.dacConfig_inj heq)]

theorem exec_cycle (io : IoData) (card memCtr ioClk mm i : ℕ) :
    ((DacStore.cycle card memCtr ioClk).exec B io mm i).data = (io mm i).data := by
  rw [DacStore.exec]
  by_cases hmm : mm = B.dacConfig card
  · subst hmm
    by_cases hi : i = memCtr
    · rw [hi, IoData.modify_self]
    · rw [IoData.modify_of_ne_slot hi]
  · rw [IoData.modify_of_ne_block hmm]

theorem clip_zero (t : Fe.CardType) : clip (overflowLimit t) 0 = 0 := by
  cases t <;> rfl

namespace IopDac

variable {inp : IopDacCall} {s t : IopDac} {card card' : ℕ}

/-- The two states agree in what a call uses of a card. -/
structure SameCard (B : DacHardware ι) (card : ℕ) (s t : IopDac) : Prop where
  clock : t.ioClockDac = s.ioClockDac
  cntr : t.ioMemCntrDac = s.ioMemCntrDac
  enable : t.dacWriteEnable = s.dacWriteEnable
  block : t.iodata (B.dacConfig card) = s.iodata (B.dacConfig card)
  err : t.dacChanErr card = s.dacChanErr card
  last : t.dacOutLast card = s.dacOutLast card

theorem SameCard.refl (s : IopDac) : SameCard B card s s := ⟨rfl, rfl, rfl, rfl, rfl, rfl⟩

theorem SameCard.trans {u : IopDac} (h : SameCard B card s t) (h' : SameCard B card t u) :
    SameCard B card s u :=
  ⟨h'.clock.trans h.clock, h'.cntr.trans h.cntr, h'.enable.trans h.enable,
    h'.block.trans h.block, h'.err.trans h.err, h'.last.trans h.last⟩

theorem SameCard.slot (h : SameCard B card s t) : t.slot B card = s.slot B card := by
  rw [IopDac.slot, IopDac.slot, h.block, h.cntr]

theorem SameCard.stamped (h : SameCard B card s t) :
    t.stamped B inp card = s.stamped B inp card := by
  rw [IopDac.stamped, IopDac.stamped, h.slot, h.clock]

theorem sameCard_checkCycle_of_ne (h : card' ≠ card) :
    SameCard B card' s (s.checkCycle B inp card) := by
  unfold checkCycle
  split
  · exact ⟨rfl, rfl, rfl, rfl, rfl, rfl⟩
  · exact ⟨rfl, rfl, rfl, rfl, Function.update_of_ne h _ _, rfl⟩

theorem SameCard.checkCycle (h : SameCard B card s t) :
    SameCard B card (s.checkCycle B inp card) (t.checkCycle B inp card) := by
  rw [IopDac.checkCycle, IopDac.checkCycle, h.stamped]
  split
  · exact { h with }
  · refine ⟨h.clock, h.cntr, h.enable, h.block, ?_, h.last⟩
    simp only [Function.update_self, h.err]

theorem SameCard.uses (h : SameCard B card s t) : t.uses inp card = s.uses inp card := by
  rw [IopDac.uses, IopDac.uses, h.err]

theorem SameCard.dacOut (h : SameCard B card s t) (chan : ℕ) :
    t.dacOut B inp card chan = s.dacOut B inp card chan := by
  simp only [IopDac.dacOut, IopDac.dacIn, h.uses, h.slot, h.last]

theorem SameCard.writeChannels (h : SameCard B card s t) :
    SameCard B card (s.writeChannels B inp card) (t.writeChannels B inp card) := by
  refine ⟨h.clock, h.cntr, h.enable, ?_, h.err, ?_⟩
  · simp only [IopDac.writeChannels, IoData.modify_block, h.block, h.cntr, h.uses]
  · simp only [IopDac.writeChannels, Function.update_self, h.dacOut, h.last]

theorem sameCard_writeChannels_of_ne (h : card' ≠ card) :
    SameCard B card' s (s.writeChannels B inp card) := by
  have hblock : B.dacConfig card' ≠ B.dacConfig card := fun heq => h (B.dacConfig_inj heq)
  refine ⟨rfl, rfl, rfl, ?_, rfl, ?_⟩
  · simp only [writeChannels, IoData.modify_of_ne_block hblock]
  · simp only [writeChannels, Function.update_of_ne h]

theorem SameCard.writeCard (h : SameCard B card s t) :
    SameCard B card (writeCard B inp s card) (writeCard B inp t card) :=
  h.checkCycle.writeChannels

theorem sameCard_writeCard_of_ne (h : card' ≠ card) : SameCard B card' s (writeCard B inp s card) :=
  (sameCard_checkCycle_of_ne h).trans (sameCard_writeChannels_of_ne h)

/-- The loop over the cards treats each of them as if it were alone. -/
theorem sameCard_writeCards (n : ℕ) :
    (∀ card < n, SameCard B card (writeCard B inp s card)
      ((List.range n).foldl (writeCard B inp) s)) ∧
    ∀ card, n ≤ card → SameCard B card s ((List.range n).foldl (writeCard B inp) s) := by
  induction n with
  | zero => exact ⟨fun card h => absurd h (Nat.not_lt_zero card), fun _ _ => SameCard.refl s⟩
  | succ n ih =>
    rw [List.range_succ, List.foldl_append]
    constructor
    · intro card hcard
      rcases Nat.lt_succ_iff_lt_or_eq.mp hcard with hlt | rfl
      · exact (ih.1 card hlt).trans (sameCard_writeCard_of_ne (Nat.ne_of_lt hlt))
      · exact (ih.2 card (Nat.le_refl _)).writeCard
    · intro card hcard
      exact (ih.2 card (by omega)).trans (sameCard_writeCard_of_ne (by omega))

theorem writeCards_counters (s : IopDac) (inp : IopDacCall) :
    (s.writeCards B inp).ioClockDac = s.ioClockDac ∧
      (s.writeCards B inp).ioMemCntrDac = s.ioMemCntrDac ∧
      (s.writeCards B inp).dacWriteEnable = s.dacWriteEnable := by
  have hkept := (@sameCard_writeCards ι B inp { s with dkiTrip := false } B.dacCount).2
    B.dacCount (Nat.le_refl _)
  unfold writeCards
  split
  · exact ⟨hkept.clock, hkept.cntr, hkept.enable⟩
  · exact ⟨rfl, rfl, rfl⟩

theorem iopDacWrite_counters (s : IopDac) (inp : IopDacCall) :
    (s.iopDacWrite B inp).ioClockDac = (s.ioClockDac + 1) % B.iopIoRate ∧
      (s.iopDacWrite B inp).ioMemCntrDac = (s.ioMemCntrDac + 1) % ioMemorySlots ∧
      (s.iopDacWrite B inp).dacWriteEnable =
        if s.dacWriteEnable < 10 then s.dacWriteEnable + 1 else s.dacWriteEnable := by
  obtain ⟨hclock, hcntr, henable⟩ := writeCards_counters (B := B) s inp
  simp only [iopDacWrite, hclock, hcntr, henable, and_self]

/-- A call that does not go through the cards. -/
theorem iopDacWrite_idle (h : s.writes inp = false) :
    (s.iopDacWrite B inp).iodata = s.iodata ∧ (s.iopDacWrite B inp).dacChanErr = s.dacChanErr := by
  simp only [iopDacWrite, writeCards, h, Bool.false_eq_true, if_false, and_self]

theorem checkCycle_frame (s : IopDac) (inp : IopDacCall) (card : ℕ) :
    (s.checkCycle B inp card).iodata = s.iodata ∧
      (s.checkCycle B inp card).ioMemCntrDac = s.ioMemCntrDac := by
  unfold checkCycle
  split
  · exact ⟨rfl, rfl⟩
  · exact ⟨rfl, rfl⟩

/-- What the call leaves in the block of a card, and what it sends to a channel. -/
theorem iopDacWrite_card (hwrites : s.writes inp = true) (hcard : card < B.dacCount) :
    (s.iopDacWrite B inp).iodata (B.dacConfig card) =
        Function.update (s.iodata (B.dacConfig card)) s.ioMemCntrDac
          { s.slot B card with
            data := fun chan =>
              if (s.checkCycle B inp card).uses inp card ∧ chan < B.outs card then 0
              else (s.slot B card).data chan
            cycle := -1 } ∧
      (∀ chan < B.outs card, (s.iopDacWrite B inp).dacOutLast card chan =
        (s.checkCycle B inp card).dacOut B inp card chan) ∧
      (s.iopDacWrite B inp).dacChanErr card = (s.checkCycle B inp card).dacChanErr card := by
  have hstart : SameCard B card s { s with dkiTrip := false } := ⟨rfl, rfl, rfl, rfl, rfl, rfl⟩
  have hdone := hstart.writeCard.trans
    ((@sameCard_writeCards ι B inp { s with dkiTrip := false } B.dacCount).1 card hcard)
  obtain ⟨hblock, hcntr⟩ := checkCycle_frame (B := B) s inp card
  simp only [iopDacWrite, writeCards, hwrites, if_true]
  rw [hdone.block, hdone.err, hdone.last]
  refine ⟨?_, fun chan hchan => ?_, rfl⟩
  · simp only [writeCard, writeChannels, IoData.modify_block, hblock, hcntr]
    rfl
  · simp only [writeCard, writeChannels, Function.update_self, if_pos hchan]

theorem iopDacWrite_of_ne_slot (inp : IopDacCall) (hcard : card < B.dacCount) {i : ℕ}
    (hi : i ≠ s.ioMemCntrDac) :
    (s.iopDacWrite B inp).iodata (B.dacConfig card) i = s.iodata (B.dacConfig card) i := by
  cases hwrites : s.writes inp with
  | true => rw [(iopDacWrite_card hwrites hcard).1, Function.update_of_ne hi]
  | false => rw [(iopDacWrite_idle hwrites).1]

/-- Without a delay and without the signal of the test output, a value is zero or comes from the
slot. -/
theorem dacOut_cases (hdelay : inp.inDelay = 0) (hduo : inp.dacDuoEnable = false) (chan : ℕ) :
    s.dacOut B inp card chan = 0 ∨
      s.dacOut B inp card chan = clip (B.limit card) ((s.slot B card).data chan) := by
  have hin : s.dacIn B inp card chan =
    if s.uses inp card then (s.slot B card).data chan else 0 := by
    simp only [dacIn, hduo, hdelay, Bool.false_eq_true, false_and, if_false, if_true]
  unfold dacOut
  split
  · rw [hin]
    split
    · exact Or.inr rfl
    · exact Or.inl (clip_zero _)
  · exact Or.inl rfl

theorem checkCycle_slot (s : IopDac) (inp : IopDacCall) (card : ℕ) :
    (s.checkCycle B inp card).slot B card = s.slot B card := by
  obtain ⟨hblock, hcntr⟩ := checkCycle_frame (B := B) s inp card
  rw [slot, slot, hblock, hcntr]

theorem checkCycle_of_stamped (h : s.stamped B inp card = true) :
    (s.checkCycle B inp card).dacChanErr = s.dacChanErr := by
  rw [checkCycle, if_pos h]

theorem iopDacWrite_empties (hcard : card < B.dacCount) {chan : ℕ} (hchan : chan < B.outs card)
    (h : (s.writes inp = true ∧ s.stamped B inp card = true ∧ s.uses inp card = true) ∨
      (s.slot B card).data chan = 0) :
    (fun i => ((s.iopDacWrite B inp).iodata (B.dacConfig card) i).data chan) =
      Function.update (fun i => (s.iodata (B.dacConfig card) i).data chan) s.ioMemCntrDac 0 := by
  cases hwrites : s.writes inp with
  | true =>
    rw [(iopDacWrite_card hwrites hcard).1]
    funext i
    by_cases hi : i = s.ioMemCntrDac
    · rw [hi, Function.update_self, Function.update_self]
      rcases h with ⟨-, hstamped, huses⟩ | hzero
      · have huses' : (s.checkCycle B inp card).uses inp card = true := by
          rw [uses, checkCycle_of_stamped hstamped]
          exact huses
        exact if_pos ⟨huses', hchan⟩
      · simp only [hzero, ite_self]
    · rw [Function.update_of_ne hi, Function.update_of_ne hi]
  | false =>
    have hzero := h.resolve_left fun hall => by
      rw [hwrites] at hall
      exact absurd hall.1 (by decide)
    rw [(iopDacWrite_idle hwrites).1]
    exact (Function.update_eq_self_iff.mpr hzero.symm).symm

end IopDac

theorem appDacWrite_spec [DecidableEq ι] {app : ι} {call : AppDacCall} {ctr clk kk : ℕ}
    {card memCtr chan : ℕ} {dacOut : ℤ}
    (h : (kk, .data card memCtr chan dacOut) ∈ appDacWrite B app call ctr clk) :
    memCtr = (ctr + kk) % ioMemorySlots ∧ B.owner card chan = some app := by
  obtain ⟨card', -, h⟩ := List.mem_flatMap.mp h
  obtain ⟨kk', -, h⟩ := List.mem_flatMap.mp h
  obtain ⟨st, hst, heq⟩ := List.mem_map.mp h
  obtain ⟨rfl, rfl⟩ := Prod.mk.inj heq
  rcases List.mem_append.mp hst with hdata | hcycle
  · obtain ⟨ii, hii, heq⟩ := List.mem_map.mp hdata
    obtain ⟨rfl, rfl, rfl, -⟩ := DacStore.data.inj heq
    exact ⟨rfl, of_decide_eq_true (List.mem_filter.mp hii).2⟩
  · split at hcycle
    · cases List.mem_singleton.mp hcycle
    · cases hcycle

end AdvLigoRts.Drv
