import AdvLigoRts.Lib.Machine
import Mathlib.Data.Int.Order.Lemmas

/-!
# The time stamps of the standalone EDCU

A block of cycle 0 that is written early is stamped with the second after that of the clock, also
where the clock has reached this second already (`edcu_blocks_stamped`).
-/

namespace AdvLigoRts.Seq

open PvLib

/-- `GPS::gps_time` -/
structure GpsTime where
  sec : ℤ
  nanosec : ℤ

namespace GpsTime

/-- `operator<` -/
def lt (t other : GpsTime) : Bool :=
  if t.sec < other.sec then true
  else if t.sec > other.sec then false
  else t.nanosec < other.nanosec

/-- The loop of `operator+`. -/
def carry (sec nanosec : ℤ) : GpsTime :=
  if nanosec ≥ 1000000000 then carry (sec + 1) (nanosec - 1000000000) else ⟨sec, nanosec⟩
termination_by nanosec.toNat

/-- `operator+` -/
def add (t other : GpsTime) : GpsTime := carry (t.sec + other.sec) (t.nanosec + other.nanosec)

def ns (t : GpsTime) : ℤ := t.sec * 1000000000 + t.nanosec

/-- As `clock_gettime` and the driver of the clock return a time. -/
def Normal (t : GpsTime) : Prop := 0 ≤ t.nanosec ∧ t.nanosec < 1000000000

instance (t : GpsTime) : Decidable t.Normal := inferInstanceAs (Decidable (_ ∧ _))

theorem lt_iff {t other : GpsTime} (ht : t.Normal) (ho : other.Normal) :
    t.lt other = true ↔ t.ns < other.ns := by
  obtain ⟨ht0, ht1⟩ := ht
  obtain ⟨ho0, ho1⟩ := ho
  unfold lt ns
  split
  · simp
    omega
  · split
    · simp
      omega
    · rw [decide_eq_true_iff]
      omega

theorem carry_spec (sec : ℤ) {nanosec : ℤ} (h : 0 ≤ nanosec) :
    (carry sec nanosec).Normal ∧ (carry sec nanosec).ns = sec * 1000000000 + nanosec := by
  induction sec, nanosec using carry.induct with
  | case1 sec nanosec hge ih =>
    obtain ⟨hnormal, hns⟩ := ih (by omega)
    rw [carry, if_pos hge]
    exact ⟨hnormal, by omega⟩
  | case2 sec nanosec hlt =>
    rw [carry, if_neg hlt]
    exact ⟨⟨h, not_le.mp hlt⟩, rfl⟩

end GpsTime

/-! ## The loop of `main` -/

def msToNs (ms : ℤ) : ℤ := ms * 1000000

def timeStep : GpsTime := ⟨0, 1000000000 / 16⟩

theorem timeStep_eq : timeStep = ⟨0, 62500000⟩ := rfl

/-- What `edcuWriteData` puts into `dipc->bp[ daqBlockNum ]`, which goes with the block. -/
structure EdcuBlock where
  daqBlockNum : ℕ
  cycle : ℕ
  timeSec : ℕ
deriving DecidableEq

/-- `(unsigned int)cycle_gps_time` -/
def edcuWriteData (daqBlockNum : ℕ) (cycleGpsTime : ℤ) : EdcuBlock :=
  ⟨daqBlockNum, daqBlockNum, (cycleGpsTime % 2 ^ 32).toNat⟩

/-- The loop of the EDCU, between two passes. -/
structure EdcuLoop where
  cycle : ℕ
  transmitTime : GpsTime

/-- A pass of the loop: the time it waits for, the reading that ends the wait, and the block. -/
structure EdcuPass where
  transmitTime : GpsTime
  now : GpsTime
  block : EdcuBlock

variable (delayMs : ℤ)

/-- The option parser refuses other values. -/
def DelayOk : Prop := -50 ≤ delayMs ∧ delayMs ≤ 50

/-- Before the loop, with the first reading of the clock. -/
def edcuStart (now : GpsTime) : EdcuLoop :=
  if delayMs < 0 then ⟨0, ⟨now.sec + 1 + 1, 1000000000 + msToNs delayMs⟩⟩
  else ⟨0, ⟨now.sec + 1, 0⟩⟩

/-- A pass, with the readings of the clock while it waits. -/
def edcuPass (s : EdcuLoop) (readings : List GpsTime) : Option (EdcuPass × EdcuLoop) :=
  match readings.find? fun now => !now.lt s.transmitTime with
  | none => none
  | some now =>
    let gpsTime := if delayMs < 0 ∧ s.cycle = 0 then now.sec + 1 else now.sec
    some (⟨s.transmitTime, now, edcuWriteData s.cycle gpsTime⟩,
      ⟨(s.cycle + 1) % 16, s.transmitTime.add timeStep⟩)

/-! ## The second of a block -/

/-- The second that the first block was scheduled for. -/
def firstSecond (now : GpsTime) : ℤ := if delayMs < 0 then now.sec + 3 else now.sec + 1

/-- The wait ends less than a sixteenth of a second late. -/
def EdcuPass.OnTime (p : EdcuPass) : Prop := p.now.ns < p.transmitTime.ns + timeStep.nanosec

/-- The `n`-th block is the one of cycle `n % 16` in second `s₀ + n / 16`. -/
def Stamped (s₀ : ℤ) (n : ℕ) (p : EdcuPass) : Prop :=
  p.block = edcuWriteData (n % 16) (s₀ + (n / 16 : ℕ))

/-- What a pass shows. -/
structure PassOk (s₀ : ℤ) (n : ℕ) (p : EdcuPass) : Prop where
  transmit : p.transmitTime.ns = s₀ * 1000000000 + msToNs (min delayMs 0) + n * 62500000
  waited : p.transmitTime.ns ≤ p.now.ns
  normal : p.now.Normal
  block : p.block = edcuWriteData (n % 16)
    (if delayMs < 0 ∧ n % 16 = 0 then p.now.sec + 1 else p.now.sec)

/-- What holds before the pass with number `n`. -/
structure LoopOk (s₀ : ℤ) (n : ℕ) (s : EdcuLoop) : Prop where
  cycle : s.cycle = n % 16
  normal : s.transmitTime.Normal
  transmit : s.transmitTime.ns = s₀ * 1000000000 + msToNs (min delayMs 0) + n * 62500000

variable {delayMs} {s t : EdcuLoop} {s₀ : ℤ} {n : ℕ} {p : EdcuPass} {now : GpsTime}

theorem loopOk_start (h : DelayOk delayMs) :
    LoopOk delayMs (firstSecond delayMs now) 0 (edcuStart delayMs now) := by
  obtain ⟨hlow, -⟩ := h
  unfold edcuStart firstSecond
  by_cases hneg : delayMs < 0
  · rw [if_pos hneg, if_pos hneg]
    refine ⟨rfl, ?_, ?_⟩ <;> simp only [GpsTime.Normal, GpsTime.ns, msToNs] <;> omega
  · rw [if_neg hneg, if_neg hneg]
    refine ⟨rfl, ?_, ?_⟩ <;> simp only [GpsTime.Normal, GpsTime.ns, msToNs] <;> omega

theorem LoopOk.pass (h : LoopOk delayMs s₀ n s) {readings : List GpsTime}
    (hnormal : ∀ now ∈ readings, now.Normal) (hpass : edcuPass delayMs s readings = some (p, t)) :
    PassOk delayMs s₀ n p ∧ LoopOk delayMs s₀ (n + 1) t := by
  unfold edcuPass at hpass
  cases hfind : readings.find? fun now => !now.lt s.transmitTime with
  | none =>
    rw [hfind] at hpass
    cases hpass
  | some now =>
    rw [hfind] at hpass
    cases hpass
    have hnow := hnormal now (List.mem_of_find?_eq_some hfind)
    have hge := List.find?_some hfind
    rw [Bool.not_eq_true', ← Bool.not_eq_true, GpsTime.lt_iff hnow h.normal] at hge
    have hcycle := h.cycle
    have htransmit := h.transmit
    have hnanosec : 0 ≤ s.transmitTime.nanosec + 62500000 := by
      have := h.normal.1
      omega
    have hadd := GpsTime.carry_spec (s.transmitTime.sec + 0) hnanosec
    refine ⟨⟨htransmit, not_lt.mp hge, hnow, ?_⟩, ?_, hadd.1, ?_⟩
    · rw [← hcycle]
    · show (s.cycle + 1) % 16 = (n + 1) % 16
      omega
    · show (GpsTime.carry _ _).ns = _
      rw [timeStep_eq, hadd.2]
      unfold GpsTime.ns at htransmit
      push_cast
      omega

theorem passOk_run (hdelay : DelayOk delayMs) {passes : List (List GpsTime)}
    (hnormal : ∀ readings ∈ passes, ∀ now ∈ readings, now.Normal) {tr : List EdcuPass}
    (hrun : run (edcuPass delayMs) (edcuStart delayMs now) passes = some (tr, s)) :
    ∀ n p, tr[n]? = some p → PassOk delayMs (firstSecond delayMs now) n p := by
  have hinv := run_induction
    (fun tr s => LoopOk delayMs (firstSecond delayMs now) tr.length s ∧
      ∀ n p, tr[n]? = some p → PassOk delayMs (firstSecond delayMs now) n p)
    (fun tr s readings hreadings p t h hstep => ?_) ⟨loopOk_start hdelay, by simp⟩ hrun
  · exact hinv.2
  · obtain ⟨hpass, hloop⟩ := h.1.pass (hnormal readings hreadings) hstep
    refine ⟨by rwa [List.length_append], fun n q hq => ?_⟩
    rcases Nat.lt_trichotomy n tr.length with hlt | rfl | hgt
    · rw [List.getElem?_append_left hlt] at hq
      exact h.2 n q hq
    · rw [List.getElem?_concat_length] at hq
      exact Option.some.inj hq ▸ hpass
    · rw [List.getElem?_eq_none (by simp; omega)] at hq
      cases hq

/-- A pass stamps its block with the wrong second exactly if it counts up a second that the clock
has reached. -/
theorem PassOk.stamped_iff (h : PassOk delayMs s₀ n p) (hdelay : DelayOk delayMs)
    (htime : p.OnTime) :
    Stamped s₀ n p ↔ (delayMs < 0 → 16 ∣ n → p.now.sec < s₀ + (n / 16 : ℕ)) := by
  have htransmit := h.transmit
  have hwaited := h.waited
  obtain ⟨hns0, hns1⟩ := h.normal
  obtain ⟨hlow, -⟩ := hdelay
  unfold EdcuPass.OnTime at htime
  rw [timeStep_eq] at htime
  dsimp only at htime
  unfold Stamped
  rw [h.block]
  unfold edcuWriteData
  unfold msToNs at htransmit
  unfold GpsTime.ns at htransmit hwaited htime
  simp only [EdcuBlock.mk.injEq, true_and]
  by_cases hearly : delayMs < 0 ∧ n % 16 = 0
  · rw [if_pos hearly]
    -- the clock is in the second before the block's, or already in it
    have hsec : p.now.sec = s₀ + (n / 16 : ℕ) - 1 ∨ p.now.sec = s₀ + (n / 16 : ℕ) := by omega
    have hdvd : 16 ∣ n := Nat.dvd_of_mod_eq_zero hearly.2
    constructor
    · intro hsame _ _
      omega
    · intro hlt
      have := hlt hearly.1 hdvd
      have hnext : p.now.sec + 1 = s₀ + (n / 16 : ℕ) := by omega
      rw [hnext]
  · rw [if_neg hearly]
    have hsec : p.now.sec = s₀ + (n / 16 : ℕ) := by omega
    rw [hsec]
    refine iff_of_true rfl fun hneg hdvd => absurd ⟨hneg, Nat.mod_eq_zero_of_dvd hdvd⟩ hearly

/-- In a run that is on time all blocks have their slots, cycles and seconds exactly if those that
are written early for cycle 0 are written before their second begins. -/
theorem edcu_blocks_stamped (hdelay : DelayOk delayMs) {passes : List (List GpsTime)}
    (hnormal : ∀ readings ∈ passes, ∀ now ∈ readings, now.Normal) {tr : List EdcuPass}
    (hrun : run (edcuPass delayMs) (edcuStart delayMs now) passes = some (tr, s))
    (htime : ∀ p ∈ tr, p.OnTime) :
    (∀ n p, tr[n]? = some p → Stamped (firstSecond delayMs now) n p) ↔
      ∀ n p, tr[n]? = some p → delayMs < 0 → 16 ∣ n →
        p.now.sec < firstSecond delayMs now + (n / 16 : ℕ) := by
  have hpass := passOk_run hdelay hnormal hrun
  refine forall₂_congr fun n p => forall_congr' fun hp => ?_
  exact (hpass n p hp).stamped_iff hdelay (htime p (List.mem_of_getElem? hp))

/-- The first pass at -15 ms, 10 ms behind its time. -/
theorem edcu_blocks_stamped_early : ∃ (tr : List EdcuPass) (s : EdcuLoop),
    run (edcuPass (-15)) (edcuStart (-15) ⟨100, 0⟩) [[⟨102, 995000000⟩]] = some (tr, s) ∧
      ((∀ n p, tr[n]? = some p → Stamped 103 n p) ↔
        ∀ n p, tr[n]? = some p → (-15 : ℤ) < 0 → 16 ∣ n →
          p.now.sec < (103 : ℤ) + (n / 16 : ℕ)) := by
  have hdelay : DelayOk (-15) := ⟨by decide, by decide⟩
  refine ⟨_, _, rfl, @edcu_blocks_stamped (-15) _ ⟨100, 0⟩ hdelay [[⟨102, 995000000⟩]]
    (by decide) _ rfl fun p hp => ?_⟩
  rw [List.mem_singleton.mp hp]
  show (_ : ℤ) < _
  decide

/-- At 20 ms behind its time it is in the second that it is for, and is stamped with the next. -/
theorem second_skipped : ¬ ∀ (tr : List EdcuPass) (s : EdcuLoop),
    run (edcuPass (-15)) (edcuStart (-15) ⟨100, 0⟩) [[⟨103, 5000000⟩]] = some (tr, s) →
      ∀ n p, tr[n]? = some p → Stamped 103 n p := by
  intro h
  have hblock := h _ _ rfl 0 _ rfl
  exact absurd hblock (by unfold Stamped; decide)

end AdvLigoRts.Seq
