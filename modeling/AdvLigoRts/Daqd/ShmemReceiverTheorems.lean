import AdvLigoRts.Daqd.ShmemReceiver
import Mathlib.Data.List.Forall2

/-!
# What `ShMemReceiver` returns

The writer numbers its cycles through; a receiver less than a lap behind sees the slots of all
cycles it has not returned yet as the writer left them.
-/

namespace AdvLigoRts.Daqd

open PvLib

variable {seg : CycleLayout}

/-! ## The slots of a lap -/

namespace CycleWriter

/-- The second that cycle `n` is stamped with. -/
def stamp (w : CycleWriter seg) (n : ℕ) : UInt32 := UInt32.ofNat (w.gps + n / seg.maxCycle)

/-- The slot of cycle `n` still has the block of cycle `n`. -/
def Holds (w : CycleWriter seg) (shmem : CycleData) (n : ℕ) : Prop :=
  shmem.slot (n % seg.maxCycle) = w.block n

variable {w : CycleWriter seg} {shmem : CycleData} {n : ℕ}

theorem Holds.getGps (h : w.Holds shmem n) :
    shmem.getGps (n % seg.maxCycle) = w.stamp n := by
  unfold CycleData.getGps
  rw [h, w.stamped]
  rfl

theorem Holds.getTotalDcus_eq_zero (h : w.Holds shmem n) :
    shmem.getTotalDcus (n % seg.maxCycle) = 0 ↔ w.nonEmpty n = false := by
  unfold CycleData.getTotalDcus nonEmpty
  rw [h]
  simp

theorem stamp_succ (w : CycleWriter seg) {p q : ℕ} (h : q / seg.maxCycle = p / seg.maxCycle + 1) :
    w.stamp q = w.stamp p + 1 := by
  unfold stamp
  rw [h, ← Nat.add_assoc, UInt32.ofNat_add]
  rfl

theorem stamp_eq (w : CycleWriter seg) {p q : ℕ} (h : q / seg.maxCycle = p / seg.maxCycle) :
    w.stamp q = w.stamp p := by
  unfold stamp
  rw [h]

end CycleWriter

/-- The cycles after `p` whose second the search, started at `p`, gets right. -/
def SecondKnown (seg : CycleLayout) (p q : ℕ) : Prop :=
  q / seg.maxCycle = p / seg.maxCycle ∨ q % seg.maxCycle = 0

instance (seg : CycleLayout) (p q : ℕ) : Decidable (SecondKnown seg p q) := by
  unfold SecondKnown
  infer_instance

theorem succ_ne_self (x : UInt32) : x ≠ x + 1 := by
  intro h
  grind

/-- The second that the search expects of cycle `i + 1` is the one it is stamped with,
exactly for the cycles of `SecondKnown`. -/
theorem expectedGps_iff (w : CycleWriter seg) {p i : ℕ} (hpi : p ≤ i)
    (hlap : i + 1 < p + seg.maxCycle) :
    (w.stamp (i + 1) = if (i + 1) % seg.maxCycle < i % seg.maxCycle then w.stamp p + 1
      else w.stamp p) ↔ SecondKnown seg p (i + 1) := by
  have hm : 1 < seg.maxCycle := by omega
  simp only [mod_succ_lt_mod_iff hm]
  unfold SecondKnown
  -- less than a lap on, the cycle is in the same second or in the next one
  rcases div_eq_or_succ (show p ≤ i + 1 by omega) hlap with hdiv | hdiv
  · have hne : (i + 1) % seg.maxCycle ≠ 0 := by
      have := mod_lt_mod_of_div_eq (show p < i + 1 by omega) hdiv
      omega
    simp [hne, hdiv, w.stamp_eq hdiv]
  · rw [w.stamp_succ hdiv]
    by_cases hzero : (i + 1) % seg.maxCycle = 0
    · simp [hzero]
    · simp [hzero, hdiv, (succ_ne_self (w.stamp p)).symm]

/-- One turn of the search at cycle `i + 1`, for a receiver that stands at `p` and has seen
the non-empty cycle `n`. -/
theorem jumpTurn_held {w : CycleWriter seg} {shmem : CycleData} {p i n : ℕ} (hpi : p ≤ i)
    (hin : i < n) (hlap : n < p + seg.maxCycle) (hheld : w.Holds shmem (i + 1)) :
    jumpTurn seg shmem (w.stamp p) (n % seg.maxCycle) (i % seg.maxCycle)
        ((i + 1) % seg.maxCycle) =
      if i + 1 = n then .take (n % seg.maxCycle)
      else if SecondKnown seg p (i + 1) ∧ w.nonEmpty (i + 1) = true then
        .take ((i + 1) % seg.maxCycle)
      else .goOn ((i + 1) % seg.maxCycle) ((i + 2) % seg.maxCycle) := by
  unfold jumpTurn
  by_cases heq : i + 1 = n
  · rw [if_pos heq, heq, if_pos rfl]
  · -- less than a lap apart, different cycles are in different slots
    have hcell : (i + 1) % seg.maxCycle ≠ n % seg.maxCycle :=
      fun h => heq (eq_of_mod_eq (by omega) (by omega) h)
    rw [if_neg hcell, if_neg heq, hheld.getGps, Nat.mod_add_mod]
    simp only [expectedGps_iff w hpi (show i + 1 < p + seg.maxCycle by omega), ne_eq,
      hheld.getTotalDcus_eq_zero, Bool.not_eq_false]

theorem jumpTurn_goOn {shmem : CycleData} {prevGps : UInt32}
    {newCycle prev nextCycle prev' nextCycle' : ℕ}
    (h : jumpTurn seg shmem prevGps newCycle prev nextCycle = .goOn prev' nextCycle') :
    prev' = nextCycle ∧ nextCycle' = (nextCycle + 1) % seg.maxCycle := by
  unfold jumpTurn at h
  by_cases hlast : nextCycle = newCycle
  · simp [hlast] at h
  · simp only [if_neg hlast, ite_eq_iff, reduceCtorEq, and_false, false_or,
      JumpTurn.goOn.injEq] at h
    exact ⟨h.2.1.symm, h.2.2.symm⟩

/-! ## `handle_cycle_jumps` on a segment at rest -/

/-- The search takes the first cycle it recognises as non-empty, and stops at `n`. -/
theorem jumpLoop_held {w : CycleWriter seg} {shmem : CycleData} {p q n : ℕ}
    (hlap : n < p + seg.maxCycle) (hheld : ∀ j, p < j → j ≤ n → w.Holds shmem j) (hqn : q ≤ n)
    (hq : q = n ∨ SecondKnown seg p q ∧ w.nonEmpty q = true) :
    ∀ (fuel i : ℕ), p ≤ i → i < q → q ≤ i + fuel →
      (∀ r, i < r → r < q → ¬(SecondKnown seg p r ∧ w.nonEmpty r = true)) →
      jumpLoop seg shmem (w.stamp p) (n % seg.maxCycle) fuel (i % seg.maxCycle)
        ((i + 1) % seg.maxCycle) = some (q % seg.maxCycle) := by
  intro fuel
  -- the induction is on the turns left; `i` is the last cycle passed over
  induction fuel with
  | zero =>
    intro i hpi hiq hfuel hskip
    omega
  | succ fuel ih =>
    intro i hpi hiq hfuel hskip
    unfold jumpLoop
    rw [jumpTurn_held hpi (by omega) hlap (hheld (i + 1) (by omega) (by omega))]
    by_cases hlast : i + 1 = n
    · rw [if_pos hlast, show q = n by omega]
    · rw [if_neg hlast]
      by_cases hhere : i + 1 = q
      · subst hhere
        rw [if_pos (hq.resolve_left hlast)]
      · rw [if_neg (hskip (i + 1) (by omega) (by omega))]
        exact ih (i + 1) (by omega) (by omega) (by omega)
          fun r hr hrq => hskip r (by omega) hrq

/-- The first test of `handle_cycle_jumps` is also the first test of its search. -/
theorem handleCycleJumps_eq (shmem : CycleData) (rx : ShMemReceiver) (newCycle fuel : ℕ) :
    handleCycleJumps seg shmem rx newCycle (fuel + 1) =
      jumpLoop seg shmem rx.prevGps newCycle (fuel + 1) rx.prevCycle
        ((rx.prevCycle + 1) % seg.maxCycle) := by
  unfold handleCycleJumps
  by_cases h : newCycle = (rx.prevCycle + 1) % seg.maxCycle
  · simp only [jumpLoop, jumpTurn]
    rw [if_pos h, if_pos h.symm]
  · simp only [if_neg h]

/-- A receiver at `p` that has seen cycle `n` finds the first non-empty cycle after `p`: it
is `n` itself, or the search recognises it. -/
def CatchUpOk (w : CycleWriter seg) (p n : ℕ) : Prop :=
  ∀ q < n, IsNext w.nonEmpty p q → SecondKnown seg p q

instance (w : CycleWriter seg) (p n : ℕ) : Decidable (CatchUpOk w p n) := by
  unfold CatchUpOk
  infer_instance

/-- Once the search has passed over a cycle of the next second, it recognises no later one. -/
theorem not_secondKnown_of_lt {p q r : ℕ} (hpq : p < q) (hqr : q < r)
    (hlap : r < p + seg.maxCycle) (hq : ¬SecondKnown seg p q) : ¬SecondKnown seg p r := by
  unfold SecondKnown at *
  rw [not_or] at hq
  obtain ⟨hq1, hq0⟩ := hq
  have hqdiv := (div_eq_or_succ hpq.le (by omega : q < p + seg.maxCycle)).resolve_left hq1
  have hrdiv : r / seg.maxCycle = q / seg.maxCycle := by
    have hge : q / seg.maxCycle ≤ r / seg.maxCycle := Nat.div_le_div_right hqr.le
    rcases div_eq_or_succ (hpq.trans hqr).le hlap with h | h <;> omega
  have hrmod := mod_lt_mod_of_div_eq hqr hrdiv
  omega

/-- When `handle_cycle_jumps` returns the earliest non-empty cycle after the previous one. -/
theorem handleCycleJumps_eq_next_iff {w : CycleWriter seg} {shmem : CycleData}
    {rx : ShMemReceiver} {p q n fuel : ℕ} (hlap : n < p + seg.maxCycle)
    (hheld : ∀ j, p < j → j ≤ n → w.Holds shmem j) (hcycle : rx.prevCycle = p % seg.maxCycle)
    (hgps : rx.prevGps = w.stamp p) (hfuel : seg.maxCycle ≤ fuel) (hqn : q ≤ n)
    (hq : IsNext w.nonEmpty p q) :
    handleCycleJumps seg shmem rx (n % seg.maxCycle) fuel = some (q % seg.maxCycle) ↔
      CatchUpOk w p n := by
  obtain ⟨hpq, hqne, hfirst⟩ := hq
  obtain ⟨fuel, rfl⟩ := Nat.exists_eq_succ_of_ne_zero (show fuel ≠ 0 by omega)
  rw [Nat.succ_eq_add_one, handleCycleJumps_eq, hcycle, hgps, Nat.mod_add_mod]
  have hloop := fun q' => jumpLoop_held (q := q') hlap hheld
  by_cases hok : q = n ∨ SecondKnown seg p q
  · have hfound := hloop q hqn (hok.imp_right fun h => ⟨h, hqne⟩) (fuel + 1) p le_rfl hpq
      (by omega) fun r hpr hrq hr => by simp [hfirst r hrq hpr] at hr
    refine ⟨fun _ q' hq'n hq' => ?_, fun _ => hfound⟩
    obtain rfl := hq'.unique ⟨hpq, hqne, hfirst⟩
    exact hok.resolve_left hq'n.ne
  · -- the next cycle is passed over, and with it every later one before `n`
    obtain ⟨hne, hsec⟩ := not_or.mp hok
    have hskip : ∀ r, p < r → r < n → ¬(SecondKnown seg p r ∧ w.nonEmpty r = true) := by
      rintro r hpr hrn ⟨hr, hrne⟩
      rcases Nat.lt_trichotomy r q with hrq | rfl | hqr
      · simp [hfirst r hrq hpr] at hrne
      · exact hsec hr
      · exact not_secondKnown_of_lt hpq hqr (by omega) hsec hr
    have hfound := hloop n le_rfl (.inl rfl) (fuel + 1) p le_rfl (by omega) (by omega) hskip
    rw [hfound, Option.some.injEq]
    constructor
    · intro hmod
      exact absurd (eq_of_mod_eq hqn (by omega) hmod.symm) hne
    · intro hcatch
      exact absurd (hcatch q (by omega) ⟨hpq, hqne, hfirst⟩) hsec

/-! ## The receiver beside a writer -/

/-- A segment that `verify_cycle_state` has nothing against. -/
def CycleLayout.Valid (seg : CycleLayout) : Prop :=
  seg.maxCycle ≤ 64 ∧
    seg.cycleDataSize * seg.maxCycle % 2 ^ 32 + cycleHeaderSize ≤ seg.shmemSize

theorem verifyCycleState_ok (h : seg.Valid) (n : ℕ) :
    verifyCycleState seg (n % seg.maxCycle) = .ok () := by
  have hlt := Nat.mod_lt n seg.maxCycle_pos
  obtain ⟨hmax, hsize⟩ := h
  unfold verifyCycleState
  rw [if_neg (by omega), if_neg (by omega)]

namespace ShmemSys

/-- The receiver stays less than `maxCycle` cycles behind the writer. -/
def LessThanALap (seg : CycleLayout) (s : ShmemSys) (a : ShmemAction) : Prop :=
  a = .publish → s.Started → s.published + 1 < s.pos + seg.maxCycle

instance (s : ShmemSys) (a : ShmemAction) : Decidable (s.LessThanALap seg a) := by
  unfold LessThanALap
  infer_instance

/-- The receiver is about to call `handle_cycle_jumps` for the cycle `curCycle`. -/
def Jumps (seg : CycleLayout) (s : ShmemSys) (curCycle : ℕ) : Prop :=
  curCycle ≠ s.rx.prevCycle ∧ s.shmem.getTotalDcus curCycle ≠ 0 ∧
    verifyCycleState seg curCycle = .ok ()

instance (s : ShmemSys) (curCycle : ℕ) : Decidable (s.Jumps seg curCycle) := by
  unfold Jumps
  infer_instance

/-- Where the receiver is about to call `handle_cycle_jumps`, the first cycle it has to
return is one that the call finds. -/
def JumpOk (w : CycleWriter seg) (s : ShmemSys) : ShmemAction → Prop
  | .receive =>
    match s.pc with
    | .poll curCycle _ =>
      s.Jumps seg curCycle → CatchUpOk w s.pos (lastTurn seg.maxCycle s.written curCycle)
    | _ => True
  | _ => True

instance (w : CycleWriter seg) (s : ShmemSys) (a : ShmemAction) : Decidable (s.JumpOk w a) := by
  unfold JumpOk
  split
  · split <;> infer_instance
  · infer_instance

/-- What the receiver knows at each place. With `safe`, the search has passed over empty
cycles only. -/
def PcInv (w : CycleWriter seg) (safe : Prop) (s : ShmemSys) : RecvPc → Prop
  | .enter | .wait _ | .thrown _ => True
  | .poll curCycle _ => ∃ n, s.pos ≤ n ∧ n ≤ s.published ∧ curCycle = n % seg.maxCycle
  | .search prev nextCycle newCycle => ∃ i n, s.pos ≤ i ∧ i < n ∧ n ≤ s.published ∧
      prev = i % seg.maxCycle ∧ nextCycle = (i + 1) % seg.maxCycle ∧
      newCycle = n % seg.maxCycle ∧ w.nonEmpty n = true ∧
      (safe → CatchUpOk w s.pos n ∧ ∀ r ≤ i, s.pos < r → w.nonEmpty r = false)
  | .copy curCycle => ∃ q, s.pos < q ∧ q ≤ s.published ∧ curCycle = q % seg.maxCycle ∧
      (safe → IsNext w.nonEmpty s.pos q)

/-- A receiver that has started stands at cycle `pos`, less than a lap behind. -/
structure Standing (w : CycleWriter seg) (safe : Prop) (first : ℕ) (s : ShmemSys) : Prop where
  first_le : first ≤ s.start
  start_le : s.start ≤ s.pos
  pos_le : s.pos ≤ s.published
  lap : s.published < s.pos + seg.maxCycle
  prevCycle_eq : s.rx.prevCycle = s.pos % seg.maxCycle
  prevGps_eq : 1 < seg.maxCycle → s.rx.prevGps = w.stamp s.pos
  pcInv : s.PcInv w safe s.pc

/-- What holds between writer and receiver after every step. -/
structure Inv (w : CycleWriter seg) (safe : Prop) (first : ℕ) (s : ShmemSys) : Prop where
  first_le : first ≤ s.published
  published_le : s.published ≤ s.written
  written_le : s.written ≤ s.published + 1
  curCycle_eq : s.shmem.curCycle = s.published % seg.maxCycle
  holds : ∀ n, first ≤ n → n ≤ s.written → s.written < n + seg.maxCycle → w.Holds s.shmem n
  idle : ¬s.Started → s.pc = .enter ∧ s.start = s.pos
  standing : s.Started → s.Standing w safe first

variable {w : CycleWriter seg} {safe : Prop} {first : ℕ} {s t : ShmemSys} {e : RecvEvent}

theorem inv_begin (w : CycleWriter seg) (safe : Prop) (n : ℕ) (slot : ℕ → DaqMultiDcuData)
    (data : DaqMultiDcuData) : (begin w n slot data).Inv w safe n where
  first_le := le_rfl
  published_le := le_rfl
  written_le := Nat.le_succ n
  curCycle_eq := rfl
  holds := by
    intro k hnk hkn _
    obtain rfl := Nat.le_antisymm hnk hkn
    simp [begin, CycleWriter.Holds]
  idle := fun _ => ⟨rfl, rfl⟩
  standing := fun h => absurd rfl h

/-- The cycles a receiver has yet to return, and the one it stands at, are in their slots. -/
theorem Inv.holds_of_lt (h : s.Inv w safe first) (hs : s.Started) {n : ℕ} (hn : s.pos < n)
    (hle : n ≤ s.published) : w.Holds s.shmem n := by
  have hst := h.standing hs
  have hfirst := hst.first_le
  have hstart := hst.start_le
  have hlap := hst.lap
  have hw := h.written_le
  have hp := h.published_le
  exact h.holds n (by omega) (by omega) (by omega)

/-- Moving the receiver to a place where it knows what it has to. -/
theorem Inv.at_pc {safe' : Prop} (h : s.Inv w safe first) (hs : s.Started) {pc : RecvPc}
    (hpc : s.PcInv w safe' pc) : { s with pc }.Inv w safe' first := by
  have hstand := h.standing hs
  refine ⟨h.first_le, h.published_le, h.written_le, h.curCycle_eq, h.holds,
    fun hidle => absurd hs hidle, fun _ => ?_⟩
  exact ⟨hstand.first_le, hstand.start_le, hstand.pos_le, hstand.lap, hstand.prevCycle_eq,
    hstand.prevGps_eq, hpc⟩

theorem Inv.lastTurn_eq (h : s.Inv w safe first) (hs : s.Started) {n : ℕ} (hn : s.pos < n)
    (hle : n ≤ s.published) : lastTurn seg.maxCycle s.written (n % seg.maxCycle) = n := by
  have hlap := (h.standing hs).lap
  have hw := h.written_le
  have hp := h.published_le
  exact lastTurn_mod (by omega) (by omega)

/-! ### The steps -/

theorem step_write (hst : step w s .write = some (e, t)) :
    s.written = s.published ∧ e = .quiet ∧ t = { s with
      written := s.written + 1
      shmem := ⟨s.shmem.curCycle, Function.update s.shmem.slot
        ((s.written + 1) % seg.maxCycle) (w.block (s.written + 1))⟩ } := by
  simp only [step, Option.ite_none_right_eq_some, Option.some.injEq, Prod.mk.injEq] at hst
  exact ⟨hst.1, hst.2.1.symm, hst.2.2.symm⟩

theorem step_publish (hst : step w s .publish = some (e, t)) :
    s.written = s.published + 1 ∧ e = .quiet ∧ t = { s with
      published := s.written
      shmem := ⟨s.written % seg.maxCycle, s.shmem.slot⟩ } := by
  simp only [step, Option.ite_none_right_eq_some, Option.some.injEq, Prod.mk.injEq] at hst
  exact ⟨hst.1, hst.2.1.symm, hst.2.2.symm⟩

theorem step_receive (hst : step w s .receive = some (e, t)) :
    ∃ pc rx, s.rx.step seg s.shmem s.pc = some (e, pc, rx) ∧
      t = { s with rx, pc, start := (s.track seg).1, pos := (s.track seg).2 } := by
  unfold step at hst
  simp only at hst
  split at hst
  · cases hst
  · rename_i e' pc rx hrx
    simp only [Option.some.injEq, Prod.mk.injEq] at hst
    obtain ⟨rfl, rfl⟩ := hst
    exact ⟨pc, rx, hrx, rfl⟩

/-! ### The writer's steps -/

theorem Inv.write (h : s.Inv w safe first) (hst : step w s .write = some (e, t)) :
    t.Inv w safe first := by
  obtain ⟨heq, -, rfl⟩ := step_write hst
  refine ⟨h.first_le, by simp only; omega, by simp only; omega, h.curCycle_eq, ?_, h.idle, ?_⟩
  · intro n hn hle hlap
    simp only at hle hlap
    unfold CycleWriter.Holds
    by_cases hnew : n = s.written + 1
    · simp [hnew]
    · -- a cycle less than a lap old is in another slot than the new one
      have hcell : n % seg.maxCycle ≠ (s.written + 1) % seg.maxCycle :=
        fun hmod => hnew (eq_of_mod_eq hle hlap hmod)
      simp only [Function.update_of_ne hcell]
      exact h.holds n hn (by omega) (by omega)
  · intro hs
    obtain ⟨h1, h2, h3, h4, h5, h6, h7⟩ := h.standing hs
    exact ⟨h1, h2, h3, h4, h5, h6, h7⟩

theorem Inv.publish (h : s.Inv w safe first) (hok : s.LessThanALap seg .publish)
    (hst : step w s .publish = some (e, t)) : t.Inv w safe first := by
  obtain ⟨heq, -, rfl⟩ := step_publish hst
  have hfirst := h.first_le
  refine ⟨by simp only; omega, le_rfl, Nat.le_succ _, rfl, h.holds, h.idle, ?_⟩
  intro hs
  have hlap := hok rfl hs
  obtain ⟨h1, h2, h3, h4, h5, h6, h7⟩ := h.standing hs
  refine ⟨h1, h2, by simp only; omega, by simp only; omega, h5, h6, ?_⟩
  -- what the receiver knows speaks of cycles up to `published`, which has grown
  have hmono : ∀ {n : ℕ}, n ≤ s.published → n ≤ s.written := fun hn => by omega
  simp only
  cases hpc : s.pc with
  | enter | wait _ | thrown _ => trivial
  | poll curCycle spinCount =>
    rw [hpc] at h7
    obtain ⟨n, hn, hle, hcur⟩ := h7
    exact ⟨n, hn, hmono hle, hcur⟩
  | search prev nextCycle newCycle =>
    rw [hpc] at h7
    obtain ⟨i, n, hi, hin, hle, hrest⟩ := h7
    exact ⟨i, n, hi, hin, hmono hle, hrest⟩
  | copy curCycle =>
    rw [hpc] at h7
    obtain ⟨q, hq, hle, hrest⟩ := h7
    exact ⟨q, hq, hmono hle, hrest⟩

/-! ### The receiver's steps -/

/-- `receive_data` handed out the block `b`. -/
def SameBlock (b d : DaqMultiDcuData) : Prop :=
  d.header = b.header ∧ ∀ i < b.header.fullDataBlockSize, d.dataBlock i = b.dataBlock i

theorem sameBlock_copyBlock (rx : ShMemReceiver) (b : DaqMultiDcuData) :
    SameBlock b (rx.copyBlock b) := by
  refine ⟨rfl, fun i hi => ?_⟩
  simp [ShMemReceiver.copyBlock, hi]

/-- Slot numbers are never taken for `noCycle`. -/
theorem mod_ne_noCycle (seg : CycleLayout) (n : ℕ) : n % seg.maxCycle ≠ noCycle := by
  have hlt := Nat.mod_lt n seg.maxCycle_pos
  have hmax := seg.maxCycle_lt
  unfold noCycle
  omega

theorem Inv.receive_idle (h : s.Inv w safe first) (hs : ¬s.Started)
    (hst : step w s .receive = some (e, t)) :
    t.Inv w safe first ∧ e = .quiet ∧ t.start = t.pos := by
  obtain ⟨pc, rx, hrx, rfl⟩ := step_receive hst
  obtain ⟨hpc, -⟩ := h.idle hs
  have hprev : s.rx.prevCycle = noCycle := not_not.mp hs
  have htrack : s.track seg = (s.published, s.published) := by
    unfold track
    rw [if_neg hs]
  simp only [hpc, ShMemReceiver.step, hprev, if_true, Option.some.injEq, Prod.mk.injEq] at hrx
  obtain ⟨rfl, rfl, rfl⟩ := hrx
  refine ⟨⟨h.first_le, h.published_le, h.written_le, h.curCycle_eq, h.holds, ?_, ?_⟩, rfl, ?_⟩
  · exact fun hidle => absurd h.curCycle_eq
      (fun hcur => hidle (by simp only [Started, hcur]; exact mod_ne_noCycle seg _))
  · intro _
    simp only [htrack]
    -- the receiver stands at the newest cycle, with its second
    refine ⟨h.first_le, le_rfl, le_rfl, Nat.lt_add_of_pos_right seg.maxCycle_pos, h.curCycle_eq,
      ?_, trivial⟩
    intro hm
    have hw := h.written_le
    simp only
    rw [h.curCycle_eq, (h.holds s.published h.first_le h.published_le (by omega)).getGps]
  · simp only [htrack]

/-- The receiver moved on without returning a block. -/
def Moves (w : CycleWriter seg) (safe : Prop) (s : ShmemSys) (e : RecvEvent) (pc : RecvPc)
    (rx : ShMemReceiver) : Prop :=
  rx = s.rx ∧ returnedBlocks [e] = [] ∧ s.PcInv w safe pc

variable {pc : RecvPc} {rx : ShMemReceiver}

theorem Inv.moves_enter (h : s.Inv w safe first) (hs : s.Started)
    (hrx : s.rx.step seg s.shmem .enter = some (e, pc, rx)) : s.Moves w safe e pc rx := by
  simp only [ShMemReceiver.step, if_neg hs, Option.some.injEq, Prod.mk.injEq] at hrx
  obtain ⟨rfl, rfl, rfl⟩ := hrx
  exact ⟨rfl, rfl, s.published, (h.standing hs).pos_le, le_rfl, h.curCycle_eq⟩

variable {spinCount : ℕ}

theorem Inv.moves_wait (h : s.Inv w safe first) (hs : s.Started)
    (hrx : s.rx.step seg s.shmem (.wait spinCount) = some (e, pc, rx)) :
    s.Moves w safe e pc rx := by
  simp only [ShMemReceiver.step] at hrx
  split at hrx <;> simp only [Option.some.injEq, Prod.mk.injEq] at hrx <;>
    obtain ⟨rfl, rfl, rfl⟩ := hrx
  · exact ⟨rfl, rfl, trivial⟩
  · refine ⟨rfl, ?_, s.published, (h.standing hs).pos_le, le_rfl, h.curCycle_eq⟩
    split <;> rfl

variable {curCycle : ℕ}

theorem Inv.exists_new (h : s.Inv w safe first) (hs : s.Started)
    (hpc : s.pc = .poll curCycle spinCount) (hne : curCycle ≠ s.rx.prevCycle)
    (hdcus : s.shmem.getTotalDcus curCycle ≠ 0) :
    ∃ n, s.pos < n ∧ n ≤ s.published ∧ w.nonEmpty n = true ∧ curCycle = n % seg.maxCycle := by
  have hinv := (h.standing hs).pcInv
  rw [hpc] at hinv
  obtain ⟨n, hn, hle, rfl⟩ := hinv
  -- another slot than the previous cycle's means a later cycle
  have hpos : s.pos < n := by
    refine lt_of_le_of_ne hn fun heq => hne ?_
    rw [(h.standing hs).prevCycle_eq, heq]
  rw [ne_eq, (h.holds_of_lt hs hpos hle).getTotalDcus_eq_zero, Bool.not_eq_false] at hdcus
  exact ⟨n, hpos, hle, hdcus, rfl⟩

theorem Inv.moves_poll (h : s.Inv w safe first) (hs : s.Started)
    (hpc : s.pc = .poll curCycle spinCount) (hok : safe → s.JumpOk w .receive)
    (hrx : s.rx.step seg s.shmem (.poll curCycle spinCount) = some (e, pc, rx)) :
    s.Moves w safe e pc rx := by
  have hstand := h.standing hs
  simp only [ShMemReceiver.step] at hrx
  split at hrx
  · simp only [Option.some.injEq, Prod.mk.injEq] at hrx
    obtain ⟨rfl, rfl, rfl⟩ := hrx
    exact ⟨rfl, rfl, trivial⟩
  rename_i hnew
  obtain ⟨hne, hdcus⟩ := not_or.mp hnew
  obtain ⟨n, hpos, hle, hdata, rfl⟩ := h.exists_new hs hpc hne hdcus
  split at hrx <;> simp only [Option.some.injEq, Prod.mk.injEq] at hrx <;>
    obtain ⟨rfl, rfl, rfl⟩ := hrx
  · exact ⟨rfl, rfl, trivial⟩
  rename_i hverify
  -- what `JumpOk` asks for here is kept for the search
  have hcatch : safe → CatchUpOk w s.pos n := by
    intro hsafe
    have hjump := hok hsafe
    simp only [JumpOk, hpc, h.lastTurn_eq hs hpos hle] at hjump
    exact hjump ⟨hne, hdcus, hverify⟩
  have hlap := hstand.lap
  refine ⟨rfl, rfl, ?_⟩
  unfold ShMemReceiver.enterJumps
  rw [hstand.prevCycle_eq, Nat.mod_add_mod]
  by_cases hnext : n % seg.maxCycle = (s.pos + 1) % seg.maxCycle
  · rw [if_pos hnext]
    obtain rfl : s.pos + 1 = n := eq_of_mod_eq (by omega) (by omega) hnext.symm
    exact ⟨s.pos + 1, hpos, hle, rfl, fun _ => ⟨hpos, hdata, fun r hr hrp => by omega⟩⟩
  · rw [if_neg hnext]
    exact ⟨s.pos, n, le_rfl, hpos, hle, rfl, rfl, rfl, hdata,
      fun hsafe => ⟨hcatch hsafe, fun r hr hrp => by omega⟩⟩

/-- A turn of the search: with `safe`, it passes over empty cycles only. -/
theorem Inv.moves_search (h : s.Inv w safe first) (hs : s.Started)
    {prev nextCycle newCycle : ℕ} (hpc : s.pc = .search prev nextCycle newCycle)
    (hrx : s.rx.step seg s.shmem (.search prev nextCycle newCycle) = some (e, pc, rx)) :
    s.Moves w safe e pc rx := by
  have hstand := h.standing hs
  have hlap := hstand.lap
  have hinv := hstand.pcInv
  rw [hpc] at hinv
  obtain ⟨i, n, hi, hin, hle, rfl, rfl, rfl, hdata, hempty⟩ := hinv
  have hgps := hstand.prevGps_eq (by omega)
  have hheld := h.holds_of_lt hs (show s.pos < i + 1 by omega) (by omega)
  simp only [ShMemReceiver.step, hgps,
    jumpTurn_held hi hin (show n < s.pos + seg.maxCycle by omega) hheld] at hrx
  by_cases hlast : i + 1 = n
  · -- the search has come to the cycle that was seen
    simp only [if_pos hlast, Option.some.injEq, Prod.mk.injEq] at hrx
    obtain ⟨rfl, rfl, rfl⟩ := hrx
    refine ⟨rfl, rfl, n, by omega, hle, rfl, fun hsafe => ⟨by omega, hdata, fun r hr hpr => ?_⟩⟩
    exact (hempty hsafe).2 r (by omega) hpr
  · rw [if_neg hlast] at hrx
    by_cases hfound : SecondKnown seg s.pos (i + 1) ∧ w.nonEmpty (i + 1) = true
    · simp only [if_pos hfound, Option.some.injEq, Prod.mk.injEq] at hrx
      obtain ⟨rfl, rfl, rfl⟩ := hrx
      refine ⟨rfl, rfl, i + 1, by omega, by omega, rfl, fun hsafe => ⟨by omega, hfound.2, ?_⟩⟩
      exact fun r hr hpr => (hempty hsafe).2 r (by omega) hpr
    · simp only [if_neg hfound, Option.some.injEq, Prod.mk.injEq] at hrx
      obtain ⟨rfl, rfl, rfl⟩ := hrx
      refine ⟨rfl, rfl, i + 1, n, by omega, by omega, hle, rfl, rfl, rfl, hdata, fun hsafe => ?_⟩
      obtain ⟨hcatch, hbefore⟩ := hempty hsafe
      refine ⟨hcatch, fun r hr hpr => ?_⟩
      by_cases hri : r = i + 1
      · -- a non-empty cycle here would be the next one, and the search would know its second
        subst hri
        by_contra hne
        rw [Bool.not_eq_false] at hne
        have hnext : IsNext w.nonEmpty s.pos (i + 1) :=
          ⟨hpr, hne, fun r hr hpr => hbefore r (by omega) hpr⟩
        exact hfound ⟨hcatch (i + 1) (by omega) hnext, hne⟩
      · exact hbefore r (by omega) hpr

theorem Inv.copy_block (h : s.Inv w safe first) (hs : s.Started) (hpc : s.pc = .copy curCycle)
    (hrx : s.rx.step seg s.shmem (.copy curCycle) = some (e, pc, rx)) :
    ∃ q d, s.pos < q ∧ q ≤ s.published ∧ (safe → IsNext w.nonEmpty s.pos q) ∧
      curCycle = q % seg.maxCycle ∧ SameBlock (w.block q) d ∧ e = .returned d ∧ pc = .enter ∧
      rx = ⟨q % seg.maxCycle, w.stamp q, d⟩ := by
  have hinv := (h.standing hs).pcInv
  rw [hpc] at hinv
  obtain ⟨q, hq, hle, rfl, hnext⟩ := hinv
  have hheld := h.holds_of_lt hs hq hle
  have hslot : s.shmem.slot (q % seg.maxCycle) = w.block q := hheld
  have hstamp : ((s.rx.copyBlock (w.block q)).header.dcuheader 0).timeSec = w.stamp q :=
    w.stamped q
  simp only [ShMemReceiver.step, hslot, hstamp, Option.some.injEq, Prod.mk.injEq] at hrx
  obtain ⟨rfl, rfl, rfl⟩ := hrx
  exact ⟨q, _, hq, hle, hnext, rfl, sameBlock_copyBlock s.rx (w.block q), rfl, rfl, rfl⟩

theorem track_of_ne_copy (seg : CycleLayout) (hs : s.Started)
    (hcopy : ∀ curCycle, s.pc ≠ .copy curCycle) : s.track seg = (s.start, s.pos) := by
  unfold track
  rw [if_pos hs]
  split
  · exact absurd ‹_› (hcopy _)
  · rfl

theorem Inv.receive_cases (h : s.Inv w safe first) (hs : s.Started)
    (hok : safe → s.JumpOk w .receive) (hst : step w s .receive = some (e, t)) :
    (∃ pc, t = { s with pc } ∧ returnedBlocks [e] = [] ∧ s.PcInv w safe pc) ∨
    (∃ q d, s.pos < q ∧ q ≤ s.published ∧ (safe → IsNext w.nonEmpty s.pos q) ∧
      SameBlock (w.block q) d ∧ e = .returned d ∧
      t = { s with rx := ⟨q % seg.maxCycle, w.stamp q, d⟩, pc := .enter, pos := q }) := by
  obtain ⟨pc, rx, hrx, rfl⟩ := step_receive hst
  by_cases hcopy : ∃ curCycle, s.pc = .copy curCycle
  · obtain ⟨curCycle, hpc⟩ := hcopy
    rw [hpc] at hrx
    obtain ⟨q, d, hq, hle, hnext, rfl, hsame, rfl, rfl, rfl⟩ := h.copy_block hs hpc hrx
    refine .inr ⟨q, d, hq, hle, hnext, hsame, rfl, ?_⟩
    simp only [track, hs, hpc, if_true, h.lastTurn_eq hs hq hle]
  · have hmoves : s.Moves w safe e pc rx := by
      cases hpc : s.pc with
      | enter => exact h.moves_enter hs (hpc ▸ hrx)
      | poll curCycle spinCount => exact h.moves_poll hs hpc hok (hpc ▸ hrx)
      | wait spinCount => exact h.moves_wait hs (hpc ▸ hrx)
      | search prev nextCycle newCycle => exact h.moves_search hs hpc (hpc ▸ hrx)
      | copy curCycle => exact absurd ⟨curCycle, hpc⟩ hcopy
      | thrown err =>
        rw [hpc] at hrx
        cases hrx
    have htrack := track_of_ne_copy seg hs (not_exists.mp hcopy)
    obtain ⟨rfl, hquiet, hinv⟩ := hmoves
    exact .inl ⟨pc, by rw [htrack], hquiet, hinv⟩

theorem Inv.receive (h : s.Inv w safe first) (hok : safe → s.JumpOk w .receive)
    (hst : step w s .receive = some (e, t)) : t.Inv w safe first := by
  by_cases hs : s.Started
  · have hstand := h.standing hs
    obtain ⟨pc, rfl, -, hpc⟩ | ⟨q, d, hq, hle, hnext, hsame, rfl, rfl⟩ :=
      h.receive_cases hs hok hst
    · exact h.at_pc hs hpc
    · refine ⟨h.first_le, h.published_le, h.written_le, h.curCycle_eq, h.holds,
        fun hidle => absurd (mod_ne_noCycle seg q) hidle, fun _ => ?_⟩
      have hstart := hstand.start_le
      have hlap := hstand.lap
      exact ⟨hstand.first_le, by simp only; omega, hle, by simp only; omega, rfl, fun _ => rfl,
        trivial⟩
  · exact (h.receive_idle hs hst).1

theorem Inv.step (h : s.Inv w safe first) {a : ShmemAction} (hlap : s.LessThanALap seg a)
    (hok : safe → s.JumpOk w a) (hst : step w s a = some (e, t)) : t.Inv w safe first := by
  cases a with
  | write => exact h.write hst
  | publish => exact h.publish hlap hst
  | receive => exact h.receive hok hst

/-! ### What has been returned -/

/-- The blocks returned so far are those of the non-empty cycles after `start` up to `pos`. -/
def Delivered (w : CycleWriter seg) (tr : List RecvEvent) (s : ShmemSys) : Prop :=
  List.Forall₂ (fun n d => SameBlock (w.block n) d) (selected w.nonEmpty s.start s.pos)
    (returnedBlocks tr)

theorem returnedBlocks_append (tr tr' : List RecvEvent) :
    returnedBlocks (tr ++ tr') = returnedBlocks tr ++ returnedBlocks tr' :=
  List.filterMap_append ..

/-- Steps that return nothing and leave the receiver where it is. -/
theorem Delivered.quiet {tr : List RecvEvent} (hd : s.Delivered w tr)
    (hquiet : returnedBlocks [e] = []) (hstart : t.start = s.start) (hpos : t.pos = s.pos) :
    t.Delivered w (tr ++ [e]) := by
  unfold Delivered
  rw [returnedBlocks_append, hquiet, List.append_nil, hstart, hpos]
  exact hd

theorem Delivered.step {tr : List RecvEvent} {a : ShmemAction} (h : s.Inv w True first)
    (hd : s.Delivered w tr) (hok : s.JumpOk w a) (hst : step w s a = some (e, t)) :
    t.Delivered w (tr ++ [e]) := by
  cases a with
  | write =>
    obtain ⟨-, rfl, rfl⟩ := step_write hst
    exact hd.quiet rfl rfl rfl
  | publish =>
    obtain ⟨-, rfl, rfl⟩ := step_publish hst
    exact hd.quiet rfl rfl rfl
  | receive =>
    by_cases hs : s.Started
    · obtain ⟨pc, rfl, hquiet, -⟩ | ⟨q, d, -, -, hnext, hsame, rfl, rfl⟩ :=
        h.receive_cases hs (fun _ => hok) hst
      · exact hd.quiet hquiet rfl rfl
      · unfold Delivered
        rw [returnedBlocks_append]
        simp only
        rw [selected_next (h.standing hs).start_le (hnext trivial)]
        exact List.rel_append hd (.cons hsame .nil)
    · -- nothing was returned before the start, and `start = pos` after it
      obtain ⟨-, rfl, hpos⟩ := h.receive_idle hs hst
      unfold Delivered at hd ⊢
      rw [(h.idle hs).2, selected_self, List.forall₂_nil_left_iff] at hd
      rw [returnedBlocks_append, hd, hpos, selected_self]
      exact .nil

/-! ### `receive_data` comes back -/

/-- Left alone, the receiver returns a block. -/
def Returns (w : CycleWriter seg) (s : ShmemSys) : Prop :=
  ∃ k tr t, run (step w) s (List.replicate k .receive) = some (tr, t) ∧ returnedBlocks tr ≠ []

theorem returns_of_step (hst : step w s .receive = some (e, t)) (h : t.Returns w) :
    s.Returns w := by
  obtain ⟨k, tr, u, hrun, hne⟩ := h
  refine ⟨k + 1, e :: tr, u, ?_, ?_⟩
  · simp only [List.replicate_succ, run, hst, hrun]
  · rw [← List.singleton_append, returnedBlocks_append]
    simp [hne]

theorem returns_of_moves (e : RecvEvent) (pc : RecvPc) (hs : s.Started)
    (hcopy : ∀ curCycle, s.pc ≠ .copy curCycle)
    (hrx : s.rx.step seg s.shmem s.pc = some (e, pc, s.rx)) (h : { s with pc }.Returns w) :
    s.Returns w := by
  have htrack := track_of_ne_copy seg hs hcopy
  refine returns_of_step (e := e) (t := { s with pc }) ?_ h
  simp only [step, hrx, htrack]

theorem returns_copy (w : CycleWriter seg) (hpc : s.pc = .copy curCycle) : s.Returns w := by
  unfold Returns
  refine ⟨1, [.returned (s.rx.copyBlock (s.shmem.slot curCycle))], ?_⟩
  simp [run, step, hpc, ShMemReceiver.step, returnedBlocks]

/-- The search ends, at the cycle that was seen if not before. -/
theorem returns_search (w : CycleWriter seg) {i d : ℕ} (hs : s.Started)
    (hpc : s.pc = .search (i % seg.maxCycle) ((i + 1) % seg.maxCycle)
      ((i + 1 + d) % seg.maxCycle)) : s.Returns w := by
  -- the induction is on the cycles between the search and the one that was seen
  induction d generalizing i s with
  | zero =>
    refine returns_of_moves .quiet (.copy ((i + 1) % seg.maxCycle)) hs (by simp [hpc]) ?_
      (returns_copy w rfl)
    simp [hpc, ShMemReceiver.step, jumpTurn]
  | succ d ih =>
    cases hturn : jumpTurn seg s.shmem s.rx.prevGps ((i + 1 + (d + 1)) % seg.maxCycle)
        (i % seg.maxCycle) ((i + 1) % seg.maxCycle) with
    | take cycle =>
      refine returns_of_moves .quiet (.copy cycle) hs (by simp [hpc]) ?_ (returns_copy w rfl)
      simp [hpc, ShMemReceiver.step, hturn]
    | goOn prev nextCycle =>
      obtain ⟨rfl, rfl⟩ := jumpTurn_goOn hturn
      rw [Nat.mod_add_mod] at hturn
      refine returns_of_moves .quiet (.search ((i + 1) % seg.maxCycle)
        ((i + 1 + 1) % seg.maxCycle) ((i + 1 + (d + 1)) % seg.maxCycle)) hs (by simp [hpc]) ?_
        (ih (i := i + 1) hs ?_)
      · simp [hpc, ShMemReceiver.step, hturn]
      · rw [show i + 1 + 1 + d = i + 1 + (d + 1) by omega]

theorem Inv.returns_poll_new (h : s.Inv w safe first) (hs : s.Started) (hseg : seg.Valid) {n : ℕ}
    (hn : s.pos < n) (hle : n ≤ s.published) (hdata : w.nonEmpty n = true)
    (hpc : s.pc = .poll (n % seg.maxCycle) spinCount) : s.Returns w := by
  have hstand := h.standing hs
  have hlap := hstand.lap
  have hne : n % seg.maxCycle ≠ s.rx.prevCycle := by
    rw [hstand.prevCycle_eq]
    intro hmod
    exact hn.ne (eq_of_mod_eq hn.le (by omega) hmod.symm)
  have hdcus : s.shmem.getTotalDcus (n % seg.maxCycle) ≠ 0 := by
    rw [ne_eq, (h.holds_of_lt hs hn hle).getTotalDcus_eq_zero, Bool.not_eq_false]
    exact hdata
  refine returns_of_moves .quiet (s.rx.enterJumps seg (n % seg.maxCycle)) hs (by simp [hpc]) ?_ ?_
  · simp only [hpc, ShMemReceiver.step, hne, hdcus, or_self, if_false, verifyCycleState_ok hseg]
  · unfold ShMemReceiver.enterJumps
    rw [hstand.prevCycle_eq, Nat.mod_add_mod]
    by_cases hnext : n % seg.maxCycle = (s.pos + 1) % seg.maxCycle
    · rw [if_pos hnext]
      exact returns_copy w rfl
    · rw [if_neg hnext]
      obtain ⟨d, rfl⟩ := Nat.exists_eq_add_of_le (show s.pos + 1 ≤ n by omega)
      exact returns_search w hs rfl

/-- While the newest cycle is non-empty and not returned yet, `receive_data` returns. -/
theorem Inv.returns (h : s.Inv w safe first) (hs : s.Started) (hseg : seg.Valid)
    (hthrown : ∀ err, s.pc ≠ .thrown err) (hpos : s.pos < s.published)
    (hdata : w.nonEmpty s.published = true) : s.Returns w := by
  have hstand := h.standing hs
  -- both the first read of `curCycle` and the one after a wait see the newest cycle
  have hfresh : ∀ spinCount, { s with pc := .poll s.shmem.curCycle spinCount }.Returns w := by
    intro spinCount
    have hinv : Inv w False first { s with pc := .poll s.shmem.curCycle spinCount } :=
      h.at_pc hs ⟨s.published, hpos.le, le_rfl, h.curCycle_eq⟩
    exact hinv.returns_poll_new hs hseg hpos le_rfl hdata (by rw [← h.curCycle_eq])
  have hwait : ∀ spinCount, { s with pc := .wait spinCount }.Returns w := by
    intro spinCount
    refine returns_of_moves (if spinCount + 1 = 2000 then .stalled else .quiet)
      (.poll s.shmem.curCycle (spinCount + 1)) hs (by simp) ?_ (hfresh _)
    simp only [ShMemReceiver.step, h.curCycle_eq, verifyCycleState_ok hseg]
  cases hpc : s.pc with
  | enter =>
    refine returns_of_moves .quiet (.poll s.shmem.curCycle 0) hs (by simp [hpc]) ?_ (hfresh 0)
    simp only [hpc, ShMemReceiver.step, if_neg hs]
  | poll curCycle spinCount =>
    by_cases hstay : curCycle = s.rx.prevCycle ∨ s.shmem.getTotalDcus curCycle = 0
    · refine returns_of_moves .quiet (.wait spinCount) hs (by simp [hpc]) ?_ (hwait _)
      simp only [hpc, ShMemReceiver.step, hstay, if_true]
    · obtain ⟨hne, hdcus⟩ := not_or.mp hstay
      obtain ⟨n, hlt, hle, hnew, rfl⟩ := h.exists_new hs hpc hne hdcus
      exact h.returns_poll_new hs hseg hlt hle hnew hpc
  | wait spinCount =>
    rw [show s = { s with pc := .wait spinCount } by rw [← hpc]]
    exact hwait spinCount
  | search prev nextCycle newCycle =>
    have hinv := hstand.pcInv
    rw [hpc] at hinv
    obtain ⟨i, n, -, hin, -, rfl, rfl, rfl, -⟩ := hinv
    obtain ⟨d, rfl⟩ := Nat.exists_eq_add_of_le (show i + 1 ≤ n by omega)
    exact returns_search w hs hpc
  | copy curCycle => exact returns_copy w hpc
  | thrown err => exact absurd hpc (hthrown err)

/-! ## Every run -/

/-- What `handle_cycle_jumps` returns where the receiver is about to call it. -/
theorem Inv.handleCycleJumps_iff (h : s.Inv w safe first) (hs : s.Started) {fuel q : ℕ}
    (hpc : s.pc = .poll curCycle spinCount) (hjump : s.Jumps seg curCycle)
    (hfuel : seg.maxCycle ≤ fuel) (hq : IsNext w.nonEmpty s.pos q) :
    handleCycleJumps seg s.shmem s.rx curCycle fuel = some (q % seg.maxCycle) ↔
      CatchUpOk w s.pos (lastTurn seg.maxCycle s.written curCycle) := by
  have hstand := h.standing hs
  have hlap := hstand.lap
  obtain ⟨hne, hdcus, -⟩ := hjump
  obtain ⟨n, hlt, hle, hdata, rfl⟩ := h.exists_new hs hpc hne hdcus
  obtain ⟨q', hq'n, hq'⟩ := exists_isNext hlt hdata
  obtain rfl := hq.unique hq'
  rw [h.lastTurn_eq hs hlt hle]
  exact handleCycleJumps_eq_next_iff (by omega)
    (fun j hj hjn => h.holds_of_lt hs hj (hjn.trans hle)) hstand.prevCycle_eq
    (hstand.prevGps_eq (by omega)) hfuel hq'n hq

/-- In every run of a receiver that stays less than a lap behind:
* if each call of `handle_cycle_jumps` has a first cycle to return that it can find, the blocks
  returned are those of the non-empty cycles since the start, each once;
* they come in the order of their seconds and cycles;
* each such call returns the earliest non-empty cycle after the previous one exactly on that
  condition;
* while the newest cycle is non-empty and not returned yet, `receive_data` does return. -/
theorem receives_every_nonempty_cycle (w : CycleWriter seg) {n : ℕ}
    {slot : ℕ → DaqMultiDcuData} {data : DaqMultiDcuData} {as : List ShmemAction}
    {tr : List RecvEvent} {s : ShmemSys}
    (h : run (restrict (LessThanALap seg) (step w)) (begin w n slot data) as = some (tr, s)) :
    (run (restrict (fun s a => s.LessThanALap seg a ∧ s.JumpOk w a) (step w))
        (begin w n slot data) as = some (tr, s) → s.Delivered w tr) ∧
      (selected w.nonEmpty s.start s.pos).Pairwise (fun a b =>
        a / seg.maxCycle < b / seg.maxCycle ∨
          a / seg.maxCycle = b / seg.maxCycle ∧ a % seg.maxCycle < b % seg.maxCycle) ∧
      (∀ curCycle spinCount fuel q, s.Started → s.pc = .poll curCycle spinCount →
        s.Jumps seg curCycle → seg.maxCycle ≤ fuel → IsNext w.nonEmpty s.pos q →
        (handleCycleJumps seg s.shmem s.rx curCycle fuel = some (q % seg.maxCycle) ↔
          CatchUpOk w s.pos (lastTurn seg.maxCycle s.written curCycle))) ∧
      (seg.Valid → s.Started → (∀ err, s.pc ≠ .thrown err) → s.pos < s.published →
        w.nonEmpty s.published = true → s.Returns w) := by
  -- without `safe` the invariant needs no condition on the calls
  have hinv : s.Inv w False n := by
    refine run_invariant (fun s => s.Inv w False n) ?_ (inv_begin w False n slot data) h
    intro s a _ e t hs hst
    obtain ⟨hlap, hst⟩ := restrict_eq_some.mp hst
    exact hs.step hlap False.elim hst
  refine ⟨fun hr => ?_, ?_, ?_, ?_⟩
  · have hboth : s.Inv w True n ∧ s.Delivered w tr := by
      refine run_induction (fun tr s => s.Inv w True n ∧ s.Delivered w tr) ?_
        ⟨inv_begin w True n slot data, ?_⟩ hr
      · rintro tr s a - e t ⟨hs, hd⟩ hst
        obtain ⟨⟨hlap, hjump⟩, hst⟩ := restrict_eq_some.mp hst
        exact ⟨hs.step hlap (fun _ => hjump) hst, hd.step hs hjump hst⟩
      · unfold Delivered
        simp only [begin, selected_self]
        exact .nil
    exact hboth.2
  · exact (pairwise_selected w.nonEmpty s.start s.pos).imp fun hlt => lap_lt_of_lt hlt
  · exact fun _ _ _ _ hs hpc hjump hfuel hq => hinv.handleCycleJumps_iff hs hpc hjump hfuel hq
  · exact fun hseg hs hthrown hpos hdata => hinv.returns hs hseg hthrown hpos hdata

private def sixteenSlots : CycleLayout :=
  ⟨16, 1024, 16400, by decide, by decide⟩

/-- A writer from second 1000000000 on that has nothing in cycle number `gap`. -/
private def gapWriter (gap : ℕ) : CycleWriter sixteenSlots where
  gps := 1000000000
  block := fun n =>
    ⟨⟨if n = gap then 0 else 1, 0, fun _ =>
      { cycle := UInt32.ofNat (n % 16), timeSec := UInt32.ofNat (1000000000 + n / 16) }⟩,
      fun _ => 0⟩
  stamped := fun _ => rfl

private def noBlock : DaqMultiDcuData := ⟨⟨0, 0, fun _ => {}⟩, fun _ => 0⟩

/-- The receiver starts, the writer goes three cycles ahead, the receiver does `k` steps. -/
private def threeAhead (k : ℕ) : List ShmemAction :=
  [.receive, .write, .publish, .write, .publish, .write, .publish] ++ List.replicate k .receive

/-- From cycle 15, with cycle 0 of the next second empty and cycles 1 and 2 there, the receiver
returns cycle 2 and has lost cycle 1. -/
theorem lost_after_empty_cycle_zero :
    ∃ tr s, run (restrict (LessThanALap sixteenSlots) (step (gapWriter 16)))
        (begin (gapWriter 16) 15 (fun _ => noBlock) noBlock) (threeAhead 6) = some (tr, s) ∧
      selected (gapWriter 16).nonEmpty s.start s.pos = [17, 18] ∧
      (returnedBlocks tr).map (fun d => (d.header.dcuheader 0).cycle) = [2] ∧
      ¬s.Delivered (gapWriter 16) tr := by
  have hrun : (run (restrict (LessThanALap sixteenSlots) (step (gapWriter 16)))
      (begin (gapWriter 16) 15 (fun _ => noBlock) noBlock) (threeAhead 6)).map (fun r =>
        (r.2.start, r.2.pos, (returnedBlocks r.1).map fun d => (d.header.dcuheader 0).cycle))
      = some (15, 18, [2]) := by
    decide +kernel
  obtain ⟨⟨tr, s⟩, hsome, hval⟩ := Option.map_eq_some_iff.mp hrun
  simp only [Prod.mk.injEq] at hval
  obtain ⟨hstart, hpos, hcycles⟩ := hval
  have hsel : selected (gapWriter 16).nonEmpty s.start s.pos = [17, 18] := by
    rw [hstart, hpos]
    decide +kernel
  refine ⟨tr, s, hsome, hsel, hcycles, fun hd => ?_⟩
  -- one block was returned for two cycles
  have hone := congrArg List.length hcycles
  rw [List.length_map] at hone
  have hlen := List.Forall₂.length_eq hd
  rw [hsel, hone] at hlen
  simp at hlen

/-- From cycle 14, with cycle 15 empty, the receiver returns cycles 0 and 1 of the next
second. -/
theorem receives_every_nonempty_cycle_overWrap :
    ∃ tr s, run (restrict (LessThanALap sixteenSlots) (step (gapWriter 15)))
        (begin (gapWriter 15) 14 (fun _ => noBlock) noBlock) (threeAhead 9) = some (tr, s) ∧
      s.pos = 17 ∧ s.Delivered (gapWriter 15) tr := by
  have hsome : (run (restrict (fun s a => s.LessThanALap sixteenSlots a ∧
      s.JumpOk (gapWriter 15) a) (step (gapWriter 15)))
      (begin (gapWriter 15) 14 (fun _ => noBlock) noBlock) (threeAhead 9)).map
        (fun r => r.2.pos) = some 17 := by
    decide +kernel
  obtain ⟨⟨tr, s⟩, hboth, hpos⟩ := Option.map_eq_some_iff.mp hsome
  have hrun : run (restrict (LessThanALap sixteenSlots) (step (gapWriter 15)))
      (begin (gapWriter 15) 14 (fun _ => noBlock) noBlock) (threeAhead 9) = some (tr, s) :=
    run_restrict_imp (fun _ _ hok => hok.1) hboth
  obtain ⟨hdelivered, -⟩ := receives_every_nonempty_cycle (gapWriter 15) hrun
  exact ⟨tr, s, hrun, hpos, hdelivered hboth⟩

end ShmemSys

end AdvLigoRts.Daqd
