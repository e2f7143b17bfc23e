import Mathlib.Data.Int.Notation
import Mathlib.Data.List.Induction

/-!
# The check of the DAC FIFOs

`check_dac_buffers` of `iop_dac_functions.c` looks at one card in each call and latches a fault in
`dacTimingError`. A reading is the register of the card that it takes: `OUT_BUF_SIZE`, or `BOR` of
a 16-bit card.
-/

namespace AdvLigoRts.Drv.DacFifo

/-! ## Code -/

/-- `DAC_FIFO_BIT`. -/
def dacFifoBit : BitVec 32 := 8

/-- `DAC_FIFO_EMPTY`. -/
def dacFifoEmpty : BitVec 32 := 32

/-- `DAC_FIFO_HI_QTR`. -/
def dacFifoHiQtr : BitVec 32 := 64

/-- `DAC_FIFO_FULL`. -/
def dacFifoFull : BitVec 32 := 128

/-- `DAC_WD_TRIP_SET`. -/
def dacWdTripSet : ℕ := 5

inductive DacType
  | gsc18ao8
  | gsc20ao8
  | gsc16ao16
deriving DecidableEq, Repr

/-- What the checks of the FIFOs have found. -/
structure FifoState where
  dacTimingError : Bool
  dacTimingErrorPending : ℕ → ℕ
  statDac : ℕ → BitVec 32

namespace FifoState

variable (s : FifoState) (jj : ℕ) (bit : BitVec 32)

/-- `statDac[ jj ] |= bit`. -/
def set : FifoState := { s with statDac := Function.update s.statDac jj (s.statDac jj ||| bit) }

/-- `statDac[ jj ] &= ~( bit )`. -/
def clear : FifoState :=
  { s with statDac := Function.update s.statDac jj (s.statDac jj &&& ~~~bit) }

def setIf (c : Prop) [Decidable c] : FifoState := if c then s.set jj bit else s.clear jj bit

/-- `dacTimingError = 1`. -/
def trip : FifoState := { s with dacTimingError := true }

/-- `dacTimingErrorPending[ jj ] = n`. -/
def pend (n : ℕ) : FifoState :=
  { s with dacTimingErrorPending := Function.update s.dacTimingErrorPending jj n }

/-- `DAC_FIFO_FULL` is in the status word. -/
def full : Bool := (s.statDac jj)[7]

end FifoState

/-- `out_buf_size`, an `int`. -/
def outBufSize (reg : BitVec 32) : ℤ := reg.toInt

def gsc16ao16CheckDacBuffer (bor : BitVec 32) : BitVec 32 := (bor >>> 12) &&& 0xf

variable (report : Bool) (s : FifoState) (jj : ℕ) (reg : BitVec 32)

/-- The branch for `GSC_18AO8`. -/
def check18 : FifoState :=
  if report then
    let size := outBufSize reg
    let s :=
      if s.dacTimingError then s
      else if size < 8 ∨ size > 24 then
        let s := s.clear jj dacFifoBit
        let s := if s.dacTimingErrorPending jj > dacWdTripSet then s.trip else s
        s.pend jj (s.dacTimingErrorPending jj + 1)
      else (s.set jj dacFifoBit).pend jj 0
    let s := s.setIf jj dacFifoEmpty (size < 4)
    let s := s.setIf jj dacFifoHiQtr (size > 24)
    if size > 320 then (s.set jj dacFifoFull).trip else s.clear jj dacFifoFull
  else
    -- the register is not read here
    let size : ℤ := 0
    let s := (s.clear jj dacFifoEmpty).clear jj dacFifoHiQtr
    if size > 320 then ((s.set jj dacFifoFull).clear jj dacFifoBit).trip else s.set jj dacFifoBit

/-- The branch for `GSC_20AO8`. -/
def check20 : FifoState :=
  let size := outBufSize reg
  let s :=
    if size > 24 then
      let s := s.clear jj dacFifoBit
      if s.dacTimingErrorPending jj > dacWdTripSet ∧ report then s.trip
      else s.pend jj (s.dacTimingErrorPending jj + 1)
    else (s.set jj dacFifoBit).pend jj 0
  let s := s.setIf jj dacFifoHiQtr (size > 24)
  if size > 500 then (s.set jj dacFifoFull).trip else s.clear jj dacFifoFull

/-- The branch for `GSC_16AO16`. -/
def check16 : FifoState :=
  let status := gsc16ao16CheckDacBuffer reg
  if report then
    let s :=
      if s.dacTimingError then s
      else if status ≠ 2 then
        let s := s.clear jj dacFifoBit
        if s.dacTimingErrorPending jj > dacWdTripSet then s.trip
        else s.pend jj (s.dacTimingErrorPending jj + 1)
      else (s.set jj dacFifoBit).pend jj 0
    let s := s.setIf jj dacFifoEmpty (status &&& 1 ≠ 0)
    let s := if status &&& 8 ≠ 0 then (s.set jj dacFifoFull).trip else s.clear jj dacFifoFull
    s.setIf jj dacFifoHiQtr (status &&& 4 ≠ 0)
  else
    let s := (s.clear jj dacFifoEmpty).clear jj dacFifoHiQtr
    if status &&& 8 ≠ 0 then
      (((s.clear jj dacFifoBit).set jj dacFifoFull).clear jj dacFifoBit).trip
    else ((s.set jj dacFifoBit).set jj dacFifoBit).clear jj dacFifoFull

/-- `check_dac_buffers`, for card `jj`. -/
def checkDacBuffers (dacType : ℕ → DacType) : FifoState :=
  match dacType jj with
  | .gsc18ao8 => check18 report s jj reg
  | .gsc20ao8 => check20 report s jj reg
  | .gsc16ao16 => check16 report s jj reg

/-- A check of a card, with what is read. -/
structure Check where
  card : ℕ
  reg : BitVec 32

variable (dacType : ℕ → DacType) (stat : ℕ → BitVec 32)

/-- The state after the checks. No status word has `DAC_FIFO_FULL` at the start. -/
def run (checks : List Check) : FifoState :=
  checks.foldl (fun s c => checkDacBuffers report s c.card c.reg dacType)
    ⟨false, fun _ => 0, fun jj => stat jj &&& ~~~dacFifoFull⟩

/-! ## Law -/

/-- The reading says that the FIFO is full. -/
def isFull (c : Check) : Bool :=
  match dacType c.card with
  | .gsc18ao8 => outBufSize c.reg > 320
  | .gsc20ao8 => outBufSize c.reg > 500
  | .gsc16ao16 => gsc16ao16CheckDacBuffer c.reg &&& 8 ≠ 0

def outOfRange (c : Check) : Bool :=
  match dacType c.card with
  | .gsc18ao8 => outBufSize c.reg < 8 ∨ outBufSize c.reg > 24
  | .gsc20ao8 => outBufSize c.reg > 24
  | .gsc16ao16 => gsc16ao16CheckDacBuffer c.reg ≠ 2

/-- How many of the last readings of a card were out of range. -/
def streak (checks : List Check) (jj : ℕ) : ℕ :=
  checks.foldl (fun n c =>
    if c.card = jj then if outOfRange dacType c then n + 1 else 0 else n) 0

/-- A check behind others finds a fault. -/
def Faults (pre : List Check) (c : Check) : Prop :=
  isFull dacType c = true ∨
    report = true ∧ outOfRange dacType c = true ∧
      streak dacType (pre ++ [c]) c.card = dacWdTripSet + 2

/-- The latch is set from the first fault on, and the status words tell the last readings. -/
structure Latches (checks : List Check) : Prop where
  latch : ∀ pre, pre <+: checks → ((run report dacType stat pre).dacTimingError = true ↔
    ∃ pre' c, pre' ++ [c] <+: pre ∧ Faults report dacType pre' c)
  tells : ∀ pre c, pre ++ [c] <+: checks →
    (run report dacType stat (pre ++ [c])).full c.card = isFull dacType c

variable {report s jj reg dacType stat}

/-! ## One check -/

namespace FifoState

variable {bit : BitVec 32} {k n : ℕ}

@[simp] theorem full_set :
    (s.set jj bit).full k = (s.full k || (decide (k = jj) && bit[7])) := by
  by_cases h : k = jj <;> simp [full, set, h]

@[simp] theorem full_clear :
    (s.clear jj bit).full k = (s.full k && !(decide (k = jj) && bit[7])) := by
  by_cases h : k = jj <;> simp [full, clear, h]

@[simp] theorem full_trip : s.trip.full k = s.full k := rfl

@[simp] theorem full_pend : (s.pend jj n).full k = s.full k := rfl

end FifoState

@[simp] theorem dacFifoBit_full : dacFifoBit[7] = false := by decide

@[simp] theorem dacFifoEmpty_full : dacFifoEmpty[7] = false := by decide

@[simp] theorem dacFifoHiQtr_full : dacFifoHiQtr[7] = false := by decide

@[simp] theorem dacFifoFull_full : dacFifoFull[7] = true := by decide

open FifoState

/-- The first part of a check: what is out of range is counted, or trips the latch. -/
structure Debounced (report out : Bool) (jj : ℕ) (s s' : FifoState) : Prop where
  error : s'.dacTimingError = (s.dacTimingError ||
    (report && out && decide (s.dacTimingErrorPending jj > dacWdTripSet)))
  pending : report = true → s'.dacTimingError = false → s'.dacTimingErrorPending =
    Function.update s.dacTimingErrorPending jj (if out then s.dacTimingErrorPending jj + 1 else 0)
  full : ∀ k, s'.full k = s.full k

/-- A check, whose reading is full or out of range. -/
structure Checked (report full out : Bool) (jj : ℕ) (s s' : FifoState) : Prop where
  error : s'.dacTimingError = (s.dacTimingError || full ||
    (report && out && decide (s.dacTimingErrorPending jj > dacWdTripSet)))
  pending : report = true → s'.dacTimingError = false → s'.dacTimingErrorPending =
    Function.update s.dacTimingErrorPending jj (if out then s.dacTimingErrorPending jj + 1 else 0)
  full : s'.full jj = full
  others : ∀ k, k ≠ jj → s'.full k = s.full k

namespace Debounced

variable {full out : Bool} {s' : FifoState}

theorem setIf {bit : BitVec 32} {c : Prop} [Decidable c] (h : Debounced report out jj s s')
    (hbit : bit[7] = false) : Debounced report out jj s (s'.setIf jj bit c) := by
  rw [FifoState.setIf]
  split <;> exact ⟨h.error, h.pending, fun k => by simp [hbit, h.full k]⟩

theorem latched (h : s.dacTimingError = true) : Debounced report out jj s s :=
  ⟨by rw [h]; rfl, fun _ h' => absurd (h.symm.trans h') (by decide), fun _ => rfl⟩

theorem inRange (h : out = false) :
    Debounced report out jj s ((s.set jj dacFifoBit).pend jj 0) := by
  subst h
  refine ⟨by simp [FifoState.set, pend], fun _ _ => rfl, fun k => by simp⟩

theorem trips (h : report = true ∧ out = true) (hs' : s'.dacTimingError = true)
    (hpend : s.dacTimingErrorPending jj > dacWdTripSet) (hfull : ∀ k, s'.full k = s.full k) :
    Debounced report out jj s s' := by
  obtain ⟨rfl, rfl⟩ := h
  exact ⟨by simp [hs', hpend], fun _ h' => absurd (hs'.symm.trans h') (by decide), hfull⟩

theorem counts (h : out = true)
    (hpend : ¬ (s.dacTimingErrorPending jj > dacWdTripSet ∧ report = true)) :
    Debounced report out jj s
      ((s.clear jj dacFifoBit).pend jj (s.dacTimingErrorPending jj + 1)) := by
  subst h
  refine ⟨?_, fun _ _ => rfl, fun k => by simp⟩
  show s.dacTimingError = _
  cases report with
  | false => simp
  | true =>
    have hle : ¬ s.dacTimingErrorPending jj > dacWdTripSet := fun h => hpend ⟨h, rfl⟩
    simp [hle]

theorem checked (h : Debounced report out jj s s') (c : Prop) [Decidable c] :
    Checked report (decide c) out jj s
      (if c then (s'.set jj dacFifoFull).trip else s'.clear jj dacFifoFull) := by
  by_cases hc : c
  · rw [if_pos hc, decide_eq_true hc]
    exact ⟨by simp [trip], fun _ h' => Bool.noConfusion h', by simp,
      fun k hk => by simp [hk, h.full k]⟩
  · rw [if_neg hc, decide_eq_false hc]
    exact ⟨by simpa [clear] using h.error, h.pending, by simp, fun k hk => by simp [hk, h.full k]⟩

end Debounced

theorem check18_spec (h : report = false → ¬ outBufSize reg > 320 ∧ s.full jj = false) :
    Checked report (decide (outBufSize reg > 320))
      (decide (outBufSize reg < 8 ∨ outBufSize reg > 24)) jj s (check18 report s jj reg) := by
  cases report with
  | true =>
    rw [check18, if_pos rfl]
    refine Debounced.checked (.setIf (.setIf ?_ (by decide)) (by decide)) _
    split
    · next herr => exact .latched herr
    · split
      · next hout =>
        dsimp only
        split
        · next hpend =>
          exact .trips ⟨rfl, decide_eq_true hout⟩ rfl hpend fun k => by simp
        · next hpend => exact .counts (decide_eq_true hout) fun h => hpend h.1
      · next hin => exact .inRange (decide_eq_false hin)
  | false =>
    obtain ⟨hnot, hclear⟩ := h rfl
    rw [decide_eq_false hnot, check18, if_neg (by decide), if_neg (by decide)]
    exact ⟨by simp [FifoState.set, clear], nofun, by simp [hclear], fun k _ => by simp⟩

theorem check20_spec : Checked report (decide (outBufSize reg > 500))
    (decide (outBufSize reg > 24)) jj s (check20 report s jj reg) := by
  refine Debounced.checked (.setIf ?_ (by decide)) _
  split
  · next hout =>
    dsimp only
    split
    · next hpend =>
      exact .trips ⟨hpend.2, decide_eq_true hout⟩ rfl hpend.1 fun k => by simp
    · next hpend => exact .counts (decide_eq_true hout) hpend
  · next hin => exact .inRange (decide_eq_false hin)

theorem Checked.setIf {full out : Bool} {s' : FifoState} {bit : BitVec 32} {c : Prop} [Decidable c]
    (h : Checked report full out jj s s') (hbit : bit[7] = false) :
    Checked report full out jj s (s'.setIf jj bit c) := by
  rw [FifoState.setIf]
  split <;> exact ⟨h.error, h.pending, by simp [hbit, h.full],
    fun k hk => by simp [hbit, h.others k hk]⟩

theorem check16_spec : Checked report (decide (gsc16ao16CheckDacBuffer reg &&& 8 ≠ 0))
    (decide (gsc16ao16CheckDacBuffer reg ≠ 2)) jj s (check16 report s jj reg) := by
  cases report with
  | true =>
    rw [check16, if_pos rfl]
    refine .setIf (Debounced.checked (.setIf ?_ (by decide)) _) (by decide)
    split
    · next herr => exact .latched herr
    · split
      · next hout =>
        dsimp only
        split
        · next hpend =>
          exact .trips ⟨rfl, decide_eq_true hout⟩ rfl hpend fun k => by simp
        · next hpend => exact .counts (decide_eq_true hout) fun h => hpend h.1
      · next hin => exact .inRange (decide_eq_false hin)
  | false =>
    rw [check16, if_neg (by decide)]
    dsimp only
    split
    · next hfull =>
      rw [decide_eq_true hfull]
      exact ⟨by simp [trip], nofun, by simp, fun k hk => by simp [hk]⟩
    · next hfull =>
      rw [decide_eq_false hfull]
      exact ⟨by simp [FifoState.set, clear], nofun, by simp, fun k hk => by simp [hk]⟩

/-- A check does so if it reads the register, or if the FIFO is not full and was not said to be. -/
theorem checkDacBuffers_spec {c : Check}
    (h : report = false → dacType c.card = .gsc18ao8 →
      isFull dacType c = false ∧ s.full c.card = false) :
    Checked report (isFull dacType c) (outOfRange dacType c) c.card s
      (checkDacBuffers report s c.card c.reg dacType) := by
  rw [checkDacBuffers, isFull, outOfRange]
  rw [isFull] at h
  cases htype : dacType c.card with
  | gsc18ao8 =>
    refine check18_spec fun hr => ?_
    rw [htype] at h
    exact ⟨of_decide_eq_false (h hr rfl).1, (h hr rfl).2⟩
  | gsc20ao8 => exact check20_spec
  | gsc16ao16 => exact check16_spec

/-! ## Runs -/

/-- The latch after any checks, and the counters as long as it is not set. -/
structure Tracks (report : Bool) (dacType : ℕ → DacType) (checks : List Check) (s : FifoState) :
    Prop where
  error : s.dacTimingError = true ↔ ∃ pre c, pre ++ [c] <+: checks ∧ Faults report dacType pre c
  pending : report = true → s.dacTimingError = false → ∀ jj,
    s.dacTimingErrorPending jj = streak dacType checks jj ∧
      streak dacType checks jj ≤ dacWdTripSet + 1

theorem streak_append (checks : List Check) (c : Check) (jj : ℕ) :
    streak dacType (checks ++ [c]) jj =
      if c.card = jj then if outOfRange dacType c then streak dacType checks jj + 1 else 0
      else streak dacType checks jj := by
  rw [streak, List.foldl_append]
  rfl

theorem Tracks.check {checks : List Check} {c : Check} {s' : FifoState}
    (h : Tracks report dacType checks s)
    (hc : Checked report (isFull dacType c) (outOfRange dacType c) c.card s s') :
    Tracks report dacType (checks ++ [c]) s' := by
  have hfaults : s'.dacTimingError = true ↔
      s.dacTimingError = true ∨ Faults report dacType checks c := by
    rw [hc.error, Faults, streak_append, if_pos rfl]
    cases herr : s.dacTimingError with
    | true => simp
    | false =>
      simp only [Bool.false_or, Bool.or_eq_true, Bool.and_eq_true, decide_eq_true_eq, and_assoc,
        Bool.false_eq_true, false_or]
      refine or_congr_right (and_congr_right fun hr => and_congr_right fun hout => ?_)
      have hp := h.pending hr herr c.card
      rw [if_pos hout]
      omega
  refine ⟨?_, fun hr herr jj => ?_⟩
  · rw [hfaults, h.error]
    constructor
    · rintro (⟨pre, d, hpre, hf⟩ | hf)
      · exact ⟨pre, d, hpre.trans (List.prefix_append ..), hf⟩
      · exact ⟨checks, c, List.prefix_rfl, hf⟩
    · rintro ⟨pre, d, hpre, hf⟩
      rcases List.prefix_concat_iff.mp hpre with heq | hpre
      · obtain ⟨rfl, hd⟩ := List.append_inj' heq rfl
        obtain rfl := List.singleton_inj.mp hd
        exact .inr hf
      · exact .inl ⟨pre, d, hpre, hf⟩
  · have hs := hc.error.symm.trans herr
    simp only [Bool.or_eq_false_iff, Bool.and_eq_false_iff, decide_eq_false_iff_not] at hs
    have hp := h.pending hr hs.1.1 jj
    rw [hc.pending hr herr, streak_append]
    by_cases hjj : c.card = jj
    · subst hjj
      rw [Function.update_self, if_pos rfl]
      split
      · next hout =>
        have hle := hs.2.resolve_left (by simp [hr, hout])
        omega
      · exact ⟨rfl, Nat.zero_le _⟩
    · rwa [Function.update_of_ne (Ne.symm hjj), if_neg hjj]

theorem run_append (checks : List Check) (c : Check) : run report dacType stat (checks ++ [c]) =
    checkDacBuffers report (run report dacType stat checks) c.card c.reg dacType := by
  rw [run, List.foldl_append]
  rfl

/-- Where the register is not read, an 18-bit card is never said to be full. -/
theorem full_run (h18 : dacType jj = .gsc18ao8) (checks : List Check) :
    (run false dacType stat checks).full jj = false := by
  induction checks using List.reverseRecOn with
  | nil =>
    show (stat jj &&& ~~~dacFifoFull)[7] = false
    simp
  | append_singleton checks c ih =>
    rw [run_append]
    refine Eq.trans ?_ ih
    have hne (h : dacType c.card ≠ .gsc18ao8) : jj ≠ c.card := fun heq => h (heq ▸ h18)
    cases htype : dacType c.card with
    | gsc18ao8 =>
      rw [checkDacBuffers, htype]
      dsimp only
      rw [check18, if_neg (by decide), if_neg (by decide)]
      simp
    | _ =>
      have hnot : dacType c.card ≠ .gsc18ao8 := by simp [htype]
      exact (checkDacBuffers_spec fun _ h => absurd h hnot).others jj (hne hnot)

/-- The latch and the status words are right, unless an 18-bit card is full and its register is not
read. -/
theorem latches_iff (report : Bool) (dacType : ℕ → DacType) (stat : ℕ → BitVec 32)
    (checks : List Check) : Latches report dacType stat checks ↔
      report = true ∨ ∀ c ∈ checks, dacType c.card = .gsc18ao8 → isFull dacType c = false := by
  constructor
  · intro h
    cases report with
    | true => exact .inl rfl
    | false =>
      refine .inr fun c hc h18 => ?_
      obtain ⟨pre, post, rfl⟩ := List.append_of_mem hc
      rw [← h.tells pre c ⟨post, by simp⟩]
      exact full_run h18 _
  · intro h
    have hcheck {pre : List Check} {c : Check} (hpre : pre ++ [c] <+: checks) :
        Checked report (isFull dacType c) (outOfRange dacType c) c.card
          (run report dacType stat pre) (run report dacType stat (pre ++ [c])) := by
      rw [run_append]
      refine checkDacBuffers_spec fun hr h18 => ?_
      subst hr
      have hc := hpre.subset (List.mem_append_right pre List.mem_cons_self)
      exact ⟨h.resolve_left (by decide) c hc h18, full_run h18 pre⟩
    have htracks (pre : List Check) (hpre : pre <+: checks) :
        Tracks report dacType pre (run report dacType stat pre) := by
      induction pre using List.reverseRecOn with
      | nil =>
        refine ⟨⟨fun h => Bool.noConfusion h, ?_⟩, fun _ _ _ => ⟨rfl, Nat.zero_le _⟩⟩
        rintro ⟨pre, c, hpre, -⟩
        simp at hpre
      | append_singleton pre c ih =>
        exact (ih ((List.prefix_append pre [c]).trans hpre)).check (hcheck hpre)
    exact ⟨fun pre hpre => (htracks pre hpre).error, fun pre c hpre => (hcheck hpre).full⟩

/-- The FIFO of an 18-bit card has 400 values, and `report_all_faults` is not set. -/
theorem full_fifo_missed : ¬ ∀ (report : Bool) (dacType : ℕ → DacType) (stat : ℕ → BitVec 32)
    (checks : List Check), Latches report dacType stat checks := by
  intro h
  have htells := (h false (fun _ => .gsc18ao8) (fun _ => 0) [⟨0, 400⟩]).tells [] ⟨0, 400⟩
    List.prefix_rfl
  exact absurd htells (by decide)

end AdvLigoRts.Drv.DacFifo
