import AdvLigoRts.Drv.IoDataTheorems
import AdvLigoRts.Lib.ClockRing
import AdvLigoRts.Lib.Machine
import Mathlib.Algebra.Ring.Int.Defs

/-!
# The IOP and the applications on the DAC blocks

Any number of applications, each of which calls `appDacWrite` for any clock at any moment, makes
the stores of the call one after the other, and can stop between any two of them; and the IOP,
which calls `iopDacWrite` for one clock after the other, and `dacStatusUpdate` now and then.
-/

namespace AdvLigoRts.Drv

open PvLib

/-- The IOP and its applications. -/
structure DacSys (ι : Type) where
  iop : IopDac := {}
  /-- How often the IOP has called `iop_dac_write`: the clock of the next call. -/
  clock : ℕ := 0
  /-- The stores that an application still has to make in its call, each with its clock. -/
  pending : ι → List (ℕ × DacStore) := fun _ => []

inductive DacAct (ι : Type)
  /-- The application calls `app_dac_write` for the clocks from `clock` on. -/
  | call (app : ι) (clock : ℕ) (call : AppDacCall)
  | store (app : ι)
  | stop (app : ι)
  | iopDacWrite (inp : IopDacCall)
  | dacStatusUpdate

inductive DacEvent (ι : Type)
  | stored (app : ι) (clock : ℕ) (st : DacStore)
  /-- The IOP has sent these values, by card and channel. -/
  | sent (clock : ℕ) (out : ℕ → ℕ → ℤ)
  | other

variable {ι : Type}

section System

variable [DecidableEq ι] (B : DacHardware ι)

namespace DacSys

def step (s : DacSys ι) : DacAct ι → Option (DacEvent ι × DacSys ι)
  | .call app clock call =>
    if s.pending app = [] then
      let stores := appDacWrite B app call (clock % ioMemorySlots) (clock % B.iopIoRate)
      some (.other, { s with
        pending := Function.update s.pending app (stores.map fun x => (clock + x.1, x.2)) })
    else none
  | .store app =>
    match s.pending app with
    | [] => none
    | (clock, st) :: rest =>
      some (.stored app clock st, { s with
        iop := { s.iop with iodata := st.exec B s.iop.iodata }
        pending := Function.update s.pending app rest })
  | .stop app => some (.other, { s with pending := Function.update s.pending app [] })
  | .iopDacWrite inp =>
    if inp.inDelay = 0 then
      let iop := s.iop.iopDacWrite B inp
      let event := if s.iop.writes inp then .sent s.clock iop.dacOutLast else .other
      some (event, { s with iop := iop, clock := s.clock + 1 })
    else none
  | .dacStatusUpdate => some (.other, { s with iop := s.iop.dacStatusUpdate B })

def takes (s : DacSys ι) (inp : IopDacCall) (card : ℕ) : Bool :=
  s.iop.writes inp ∧ s.iop.stamped B inp card ∧ s.iop.uses inp card

/-- A value other than zero is stored before the IOP comes to its clock, and less than a turn of
the ring before. -/
def InTime (now clock : ℕ) : DacStore → Prop
  | .data _ _ _ dacOut => dacOut = 0 ∨ now ≤ clock ∧ clock < now + ioMemorySlots
  | .cycle .. => True

instance (now clock : ℕ) : ∀ st, Decidable (InTime now clock st)
  | .data .. => inferInstanceAs (Decidable (_ ∨ _))
  | .cycle .. => .isTrue trivial

/-- Nothing is left behind: the stores are in time, and where the IOP comes to a slot and does not
take the values out of it, there are none. -/
def LeavesNothing (s : DacSys ι) : DacAct ι → Prop
  | .store app => ∀ x ∈ (s.pending app).head?, InTime s.clock x.1 x.2
  | .iopDacWrite inp =>
    inp.dacDuoEnable = false ∧ ∀ card < B.dacCount,
      s.takes B inp card = true ∨ ∀ chan < B.outs card, (s.iop.slot B card).data chan = 0
  | _ => True

instance (s : DacSys ι) : ∀ a, Decidable (s.LeavesNothing B a)
  | .store app =>
    inferInstanceAs (Decidable (∀ x ∈ (s.pending app).head?, InTime s.clock x.1 x.2))
  | .iopDacWrite _ => inferInstanceAs (Decidable (_ ∧ _))
  | .call .. | .stop _ | .dacStatusUpdate => .isTrue trivial

end DacSys

/-! ## What is sent -/

def DacEvent.value (card chan clock : ℕ) : DacEvent ι → Option (ι × ℤ) → Option (ι × ℤ)
  | .stored app clock' (.data card' _ chan' dacOut), old =>
    if clock' = clock ∧ card' = card ∧ chan' = chan then some (app, dacOut) else old
  | _, old => old

/-- What was written last for a clock of a channel, and by whom. -/
def written (tr : List (DacEvent ι)) (card chan clock : ℕ) : Option (ι × ℤ) :=
  tr.foldl (fun old e => e.value card chan clock old) none

/-- A value that is sent is zero or what the owner of the channel wrote for this clock. -/
def SendsFresh (tr : List (DacEvent ι)) : Prop :=
  ∀ pre clock out post, tr = pre ++ .sent clock out :: post →
    ∀ card < B.dacCount, ∀ chan < B.outs card, out card chan = 0 ∨
      ∃ app v, B.owner card chan = some app ∧ written pre card chan clock = some (app, v) ∧
        out card chan = clip (B.limit card) v

end System

variable {B : DacHardware ι}

/-! ## What has been written -/

section Written

variable {tr : List (DacEvent ι)} {card chan clock clock' : ℕ} {app : ι} {st : DacStore} {v : ℤ}

theorem written_snoc (tr : List (DacEvent ι)) (e : DacEvent ι) (card chan clock : ℕ) :
    written (tr ++ [e]) card chan clock = e.value card chan clock (written tr card chan clock) := by
  rw [written, List.foldl_append]
  rfl

def DacEvent.Quiet : DacEvent ι → Prop
  | .stored .. => False
  | _ => True

theorem written_append_of_other {tr' : List (DacEvent ι)}
    (h : ∀ e ∈ tr', ∀ old, e.value card chan clock old = old) :
    written (tr ++ tr') card chan clock = written tr card chan clock := by
  induction tr' using List.reverseRecOn with
  | nil => rw [List.append_nil]
  | append_singleton tr' e ih =>
    rw [← List.append_assoc, written_snoc, h e (List.mem_append_right _ List.mem_cons_self)]
    exact ih fun e' he' => h e' (List.mem_append_left _ he')

theorem written_of_quiet {tr' : List (DacEvent ι)} (h : ∀ e ∈ tr', e.Quiet)
    (card chan clock : ℕ) : written (tr ++ tr') card chan clock = written tr card chan clock := by
  apply written_append_of_other
  intro e he old
  cases e with
  | stored app clock st => exact (h _ he).elim
  | sent clock out => rfl
  | other => rfl

/-- The owner of the channel wrote this value for this clock. -/
def OwnerWrote (B : DacHardware ι) (tr : List (DacEvent ι)) (card chan clock : ℕ) (v : ℤ) : Prop :=
  ∃ app, B.owner card chan = some app ∧ written tr card chan clock = some (app, v)

theorem OwnerWrote.snoc (h : OwnerWrote B tr card chan clock v) {e : DacEvent ι}
    (he : e.value card chan clock (written tr card chan clock) = written tr card chan clock) :
    OwnerWrote B (tr ++ [e]) card chan clock v := by
  obtain ⟨app, howner, hwritten⟩ := h
  exact ⟨app, howner, by rw [written_snoc, he, hwritten]⟩

end Written

/-! ## The invariant -/

/-- The blocks hold what was written for the clocks that the IOP comes to. -/
structure RingOk (B : DacHardware ι) (tr : List (DacEvent ι)) (s : DacSys ι) : Prop where
  cntr : s.iop.ioMemCntrDac = s.clock % ioMemorySlots
  pending : ∀ app k card memCtr chan dacOut,
    (k, .data card memCtr chan dacOut) ∈ s.pending app →
      memCtr = k % ioMemorySlots ∧ B.owner card chan = some app
  ahead : ∀ card < B.dacCount, ∀ chan < B.outs card,
    Ahead ioMemorySlots (OwnerWrote B tr card chan)
      (fun i => (s.iop.iodata (B.dacConfig card) i).data chan) s.clock

namespace RingOk

variable {tr : List (DacEvent ι)} {s t : DacSys ι} {e : DacEvent ι}

theorem start : RingOk B [] ({} : DacSys ι) := by
  refine ⟨rfl, ?_, ?_⟩
  · intro app k card memCtr chan dacOut h
    cases h
  · intro card _ chan _ i
    exact Or.inl rfl

/-- A step that does not change the blocks. -/
theorem other (h : RingOk B tr s) (hiop : t.iop.iodata = s.iop.iodata)
    (hcntr : t.iop.ioMemCntrDac = s.iop.ioMemCntrDac) (hclock : t.clock = s.clock)
    (hpending : ∀ app k card memCtr chan dacOut,
      (k, .data card memCtr chan dacOut) ∈ t.pending app →
        memCtr = k % ioMemorySlots ∧ B.owner card chan = some app) :
    RingOk B (tr ++ [.other]) t := by
  refine ⟨?_, hpending, ?_⟩
  · rw [hcntr, hclock]
    exact h.cntr
  · intro card hcard chan hchan
    rw [hiop, hclock]
    exact (h.ahead card hcard chan hchan).mono fun k x hwrote => hwrote.snoc rfl

theorem iopDacWrite (h : RingOk B tr s) {inp : IopDacCall}
    (hevent : ∀ card chan clock old, e.value card chan clock old = old)
    (hempty : ∀ card < B.dacCount, s.takes B inp card = true ∨
      ∀ chan < B.outs card, (s.iop.slot B card).data chan = 0) :
    RingOk B (tr ++ [e]) { s with iop := s.iop.iopDacWrite B inp, clock := s.clock + 1 } := by
  obtain ⟨-, hcntr, -⟩ := IopDac.iopDacWrite_counters (B := B) s.iop inp
  refine ⟨?_, h.pending, fun card hcard chan hchan => ?_⟩
  · show (s.iop.iopDacWrite B inp).ioMemCntrDac = (s.clock + 1) % ioMemorySlots
    rw [hcntr, h.cntr, Nat.mod_add_mod]
  have hslot : (s.iop.writes inp = true ∧ s.iop.stamped B inp card = true ∧
      s.iop.uses inp card = true) ∨ (s.iop.slot B card).data chan = 0 := by
    rcases hempty card hcard with htakes | hzero
    · exact Or.inl (of_decide_eq_true htakes)
    · exact Or.inr (hzero chan hchan)
  show Ahead _ _ (fun i => ((s.iop.iopDacWrite B inp).iodata (B.dacConfig card) i).data chan) _
  rw [IopDac.iopDacWrite_empties hcard hchan hslot, h.cntr]
  have hcleared : Ahead ioMemorySlots (OwnerWrote B (tr ++ [e]) card chan)
      (Function.update (fun i => (s.iop.iodata (B.dacConfig card) i).data chan)
        (s.clock % ioMemorySlots) 0) s.clock :=
    (h.ahead card hcard chan hchan).clear s.clock fun k x _ hwrote => hwrote.snoc (hevent ..)
  exact hcleared.next (Function.update_self ..)

end RingOk

theorem sent_fresh {tr : List (DacEvent ι)} {s : DacSys ι} (h : RingOk B tr s) {inp : IopDacCall}
    (hwrites : s.iop.writes inp = true) (hdelay : inp.inDelay = 0) (hduo : inp.dacDuoEnable = false)
    {card chan : ℕ} (hcard : card < B.dacCount) (hchan : chan < B.outs card) :
    (s.iop.iopDacWrite B inp).dacOutLast card chan = 0 ∨
      ∃ v, OwnerWrote B tr card chan s.clock v ∧
        (s.iop.iopDacWrite B inp).dacOutLast card chan = clip (B.limit card) v := by
  rw [(IopDac.iopDacWrite_card hwrites hcard).2.1 chan hchan]
  rcases IopDac.dacOut_cases (B := B) (s := s.iop.checkCycle B inp card) hdelay hduo chan with
    hzero | hslot
  · exact Or.inl hzero
  rw [hslot, IopDac.checkCycle_slot]
  have hcurrent := (h.ahead card hcard chan hchan).current
  rw [← h.cntr] at hcurrent
  rcases hcurrent with hzero | hwrote
  · left
    rw [IopDac.slot, hzero]
    exact clip_zero _
  · exact Or.inr ⟨_, hwrote, rfl⟩

theorem SendsFresh.snoc {tr : List (DacEvent ι)} (h : SendsFresh B tr) {e : DacEvent ι}
    (he : ∀ clock out, e = .sent clock out → ∀ card < B.dacCount, ∀ chan < B.outs card,
      out card chan = 0 ∨ ∃ app v, B.owner card chan = some app ∧
        written tr card chan clock = some (app, v) ∧ out card chan = clip (B.limit card) v) :
    SendsFresh B (tr ++ [e]) := by
  intro pre clock out post hsplit
  rcases List.eq_nil_or_concat post with rfl | ⟨post, last, rfl⟩
  · obtain ⟨rfl, hlast⟩ := List.append_inj' hsplit rfl
    exact he clock out (List.singleton_injective hlast)
  · rw [List.concat_eq_append, ← List.cons_append, ← List.append_assoc] at hsplit
    exact h pre clock out post (List.append_inj' hsplit rfl).1

variable [DecidableEq ι] {rest : List (ℕ × DacStore)}

theorem mem_pending_tail {s : DacSys ι} {app app' : ι} {x y : ℕ × DacStore}
    (hx : s.pending app = x :: rest) (hy : y ∈ Function.update s.pending app rest app') :
    y ∈ s.pending app' := by
  by_cases happ : app' = app
  · rw [happ, Function.update_self] at hy
    rw [happ, hx]
    exact List.mem_cons_of_mem _ hy
  · rwa [Function.update_of_ne happ] at hy

namespace RingOk

variable {tr : List (DacEvent ι)} {s : DacSys ι} {app : ι}

theorem call (h : RingOk B tr s) (clock : ℕ) (call : AppDacCall) :
    RingOk B (tr ++ [.other]) { s with
      pending := Function.update s.pending app
        ((appDacWrite B app call (clock % ioMemorySlots) (clock % B.iopIoRate)).map
          fun x => (clock + x.1, x.2)) } := by
  refine h.other (by rfl) (by rfl) (by rfl) ?_
  intro app' k card memCtr chan dacOut hmem
  change _ ∈ Function.update s.pending app _ app' at hmem
  by_cases happ : app' = app
  · subst happ
    rw [Function.update_self] at hmem
    obtain ⟨⟨kk, st⟩, hst, heq⟩ := List.mem_map.mp hmem
    obtain ⟨rfl, rfl⟩ := Prod.mk.inj heq
    obtain ⟨hslot, howner⟩ := appDacWrite_spec hst
    exact ⟨by rw [hslot, Nat.mod_add_mod], howner⟩
  · rw [Function.update_of_ne happ] at hmem
    exact h.pending app' k card memCtr chan dacOut hmem

theorem stop (h : RingOk B tr s) :
    RingOk B (tr ++ [.other]) { s with pending := Function.update s.pending app [] } := by
  refine h.other (by rfl) (by rfl) (by rfl) ?_
  intro app' k card memCtr chan dacOut hmem
  change _ ∈ Function.update s.pending app _ app' at hmem
  by_cases happ : app' = app
  · rw [happ, Function.update_self] at hmem
    cases hmem
  · rw [Function.update_of_ne happ] at hmem
    exact h.pending app' k card memCtr chan dacOut hmem

theorem store (h : RingOk B tr s) {clock : ℕ} {st : DacStore}
    (hx : s.pending app = (clock, st) :: rest) (htime : DacSys.InTime s.clock clock st) :
    RingOk B (tr ++ [.stored app clock st]) { s with
      iop := { s.iop with iodata := st.exec B s.iop.iodata }
      pending := Function.update s.pending app rest } := by
  refine ⟨h.cntr, fun app' k card memCtr chan dacOut hmem =>
    h.pending app' k card memCtr chan dacOut (mem_pending_tail hx hmem),
    fun card hcard chan hchan => ?_⟩
  have hold := h.ahead card hcard chan hchan
  cases st with
  | cycle card' memCtr ioClk =>
    simp only [exec_cycle]
    exact hold.mono fun k x hwrote => hwrote.snoc rfl
  | data card' memCtr chan' dacOut =>
    obtain ⟨hslot, howner⟩ := h.pending app clock card' memCtr chan' dacOut
      (hx ▸ List.mem_cons_self)
    by_cases hsame : card' = card ∧ chan' = chan
    · obtain ⟨rfl, rfl⟩ := hsame
      have hother : ∀ k x, k ≠ clock → OwnerWrote B tr card' chan' k x →
          OwnerWrote B (tr ++ [.stored app clock (.data card' memCtr chan' dacOut)])
            card' chan' k x := by
        intro k x hk hwrote
        apply hwrote.snoc
        exact if_neg fun heq => hk heq.1.symm
      simp only [exec_data_self, hslot]
      rcases htime with rfl | ⟨hle, hlt⟩
      · exact hold.clear clock (hslot ▸ hother)
      · apply hold.write hle hlt ?_ (hslot ▸ hother)
        refine ⟨app, howner, ?_⟩
        rw [written_snoc]
        exact if_pos ⟨rfl, rfl, rfl⟩
    · simp only [exec_data_of_ne s.iop.iodata dacOut hsame]
      apply hold.mono
      intro k x hwrote
      apply hwrote.snoc
      exact if_neg fun heq => hsame heq.2

variable {t : DacSys ι} {a : DacAct ι} {e : DacEvent ι}

theorem step (h : RingOk B tr s) (hnothing : s.LeavesNothing B a)
    (hstep : s.step B a = some (e, t)) :
    RingOk B (tr ++ [e]) t := by
  cases a with
  | call app clock call =>
    simp only [DacSys.step] at hstep
    split at hstep
    · cases hstep
      exact h.call clock call
    · cases hstep
  | store app =>
    simp only [DacSys.step] at hstep
    split at hstep
    · cases hstep
    · next clock st rest hx =>
      cases hstep
      exact h.store hx (hnothing (clock, st) (by rw [hx]; rfl))
  | stop app =>
    cases hstep
    exact h.stop
  | iopDacWrite inp =>
    obtain ⟨-, hempty⟩ := hnothing
    simp only [DacSys.step] at hstep
    split at hstep
    · cases hstep
      apply h.iopDacWrite ?_ hempty
      intro card chan clock old
      split
      · rfl
      · rfl
    · cases hstep
  | dacStatusUpdate =>
    cases hstep
    exact h.other (by rfl) (by rfl) (by rfl) h.pending

theorem step_fresh (h : RingOk B tr s) (hnothing : s.LeavesNothing B a)
    (hstep : s.step B a = some (e, t)) {clock : ℕ} {out : ℕ → ℕ → ℤ} (he : e = .sent clock out)
    {card chan : ℕ} (hcard : card < B.dacCount) (hchan : chan < B.outs card) :
    out card chan = 0 ∨ ∃ app v, B.owner card chan = some app ∧
      written tr card chan clock = some (app, v) ∧ out card chan = clip (B.limit card) v := by
  subst he
  cases a with
  | iopDacWrite inp =>
    simp only [DacSys.step] at hstep
    split at hstep
    · next hdelay =>
      obtain ⟨hevent, -⟩ := Prod.mk.inj (Option.some.inj hstep)
      split at hevent
      · next hwrites =>
        obtain ⟨rfl, rfl⟩ := DacEvent.sent.inj hevent
        rcases sent_fresh h hwrites hdelay hnothing.1 hcard hchan with hzero | ⟨v, hwrote, hout⟩
        · exact Or.inl hzero
        · obtain ⟨app, howner, hwritten⟩ := hwrote
          exact Or.inr ⟨app, v, howner, hwritten, hout⟩
      · cases hevent
    · cases hstep
  | call app clock call | store app =>
    simp only [DacSys.step] at hstep
    split at hstep
    · cases hstep
    · cases hstep
  | stop app => cases hstep
  | dacStatusUpdate => cases hstep

end RingOk

/-- In a run in which no value is left behind in a slot, no stale value is sent. -/
theorem sends_fresh (B : DacHardware ι) {acts : List (DacAct ι)} {tr : List (DacEvent ι)}
    {s : DacSys ι}
    (h : run (restrict (DacSys.LeavesNothing B) (DacSys.step B)) {} acts = some (tr, s)) :
    SendsFresh B tr := by
  have hboth := run_induction (fun tr s => RingOk B tr s ∧ SendsFresh B tr)
    (fun tr s a _ e t hinv hstep => by
      obtain ⟨hnothing, hstep⟩ := restrict_eq_some.mp hstep
      refine ⟨hinv.1.step hnothing hstep, hinv.2.snoc ?_⟩
      intro clock out he card hcard chan hchan
      exact hinv.1.step_fresh hnothing hstep he hcard hchan)
    ⟨RingOk.start, fun pre clock out post hsplit => by
      exact absurd hsplit (by simp)⟩ h
  exact hboth.2

/-! ## A value that is left behind -/

/-- Two applications share a card: the first has the channel 0, the second the channel 1. -/
def twoApps : DacHardware Bool where
  adcCount := 1
  dacCount := 1
  dacType := fun _ => .gsc16AO16
  iopIoRate := 65536
  owner := fun _ chan => if chan = 0 then some false else if chan = 1 then some true else none

/-- An application writes one value for one clock. -/
def oneValue (v : ℤ) : AppDacCall where
  cards := [0]
  oversampleTimes := 1
  iopDacEnable := true
  dacIn := fun _ _ _ => v

def bothInTime : List (DacAct Bool) :=
  List.replicate 5 (.iopDacWrite {}) ++
    [.call false 5 (oneValue 7), .call true 5 (oneValue 8), .store false, .store true, .store true,
      .store false, .iopDacWrite {}]

/-- The values of both applications are sent. -/
theorem sends_fresh_both :
    ∃ r, run (restrict (DacSys.LeavesNothing twoApps) (DacSys.step twoApps)) {} bothInTime =
      some r ∧
      SendsFresh twoApps r.1 := by
  have hrun : (run (restrict (DacSys.LeavesNothing twoApps) (DacSys.step twoApps)) {}
      bothInTime).isSome = true := by decide +kernel
  obtain ⟨⟨tr, s⟩, hr⟩ := Option.isSome_iff_exists.mp hrun
  exact ⟨(tr, s), hr, sends_fresh twoApps hr⟩

/-- The first application stores its value for clock 5, and stops before it sets the count. -/
def diesEarly : List (DacAct Bool) :=
  List.replicate 5 (.iopDacWrite {}) ++
    [.call false 5 (oneValue 7), .store false, .stop false, .iopDacWrite {}]

/-- A turn of the ring later the second one writes for the same slot. -/
def turnLater : List (DacAct Bool) :=
  [.dacStatusUpdate, .call true 4101 (oneValue 8), .store true, .store true, .iopDacWrite {}]

/-- The calls of the IOP for `n` clocks leave the slots of other clocks as they are. -/
theorem run_calls (B : DacHardware ι) (n : ℕ) {s : DacSys ι}
    (hcntr : s.iop.ioMemCntrDac = s.clock % ioMemorySlots)
    (hclock : s.iop.ioClockDac = s.clock % B.iopIoRate)
    (henable : s.iop.dacWriteEnable > dacStartCycle) :
    ∃ tr t, run (DacSys.step B) s (List.replicate n (.iopDacWrite {})) = some (tr, t) ∧
      (∀ e ∈ tr, e.Quiet) ∧ t.clock = s.clock + n ∧ t.pending = s.pending ∧
      t.iop.ioMemCntrDac = t.clock % ioMemorySlots ∧ t.iop.ioClockDac = t.clock % B.iopIoRate ∧
      t.iop.dacWriteEnable > dacStartCycle ∧
      ∀ card < B.dacCount, ∀ i, (∀ m < n, (s.clock + m) % ioMemorySlots ≠ i) →
        t.iop.iodata (B.dacConfig card) i = s.iop.iodata (B.dacConfig card) i := by
  induction n generalizing s with
  | zero => exact ⟨[], s, rfl, by simp, rfl, rfl, hcntr, hclock, henable, fun _ _ _ _ => rfl⟩
  | succ n ih =>
    obtain ⟨hnextClock, hnextCntr, hnextEnable⟩ := IopDac.iopDacWrite_counters (B := B) s.iop {}
    obtain ⟨tr, t, hrun, hquiet, htclock, hpending, htcntr, htio, htenable, hkept⟩ := ih
      (s := { s with iop := s.iop.iopDacWrite B {}, clock := s.clock + 1 })
      (hnextCntr.trans (by rw [hcntr, Nat.mod_add_mod]))
      (hnextClock.trans (by rw [hclock, Nat.mod_add_mod]))
      (by
        show (s.iop.iopDacWrite B {}).dacWriteEnable > dacStartCycle
        rw [hnextEnable]
        split <;> omega)
    refine ⟨_, t, run_cons_of rfl hrun, ?_, by rw [htclock, Nat.add_assoc, Nat.add_comm 1 n],
      hpending,
      htcntr, htio, htenable, ?_⟩
    · intro e he
      rcases List.mem_cons.mp he with rfl | he
      · split
        · trivial
        · trivial
      · exact hquiet e he
    · intro card hcard i hi
      rw [hkept card hcard i fun m hm => by
        have hslot := hi (m + 1) (by omega)
        rwa [Nat.add_comm m 1, ← Nat.add_assoc] at hslot]
      have hne : i ≠ s.iop.ioMemCntrDac := by
        have hslot := hi 0 (by omega)
        rw [Nat.add_zero, ← hcntr] at hslot
        exact hslot.symm
      exact IopDac.iopDacWrite_of_ne_slot {} hcard hne

theorem step_store {s : DacSys ι} {app : ι} {clock : ℕ} {st : DacStore}
    (hx : s.pending app = (clock, st) :: rest) :
    s.step B (.store app) = some (.stored app clock st, { s with
      iop := { s.iop with iodata := st.exec B s.iop.iodata }
      pending := Function.update s.pending app rest }) := by
  simp only [DacSys.step, hx]

/-- The second application sets the count of the slot, and the value of the first one is sent. -/
theorem run_turnLater {t : DacSys Bool} (hpending : t.pending true = []) (hclock : t.clock = 4101)
    (hcntr : t.iop.ioMemCntrDac = 5) (hio : t.iop.ioClockDac = 4101)
    (henable : t.iop.dacWriteEnable > dacStartCycle) (hdata : (t.iop.iodata 1 5).data 0 = 7) :
    ∃ tr out u, run (DacSys.step twoApps) t turnLater = some (tr ++ [.sent 4101 out], u) ∧
      (∀ e ∈ tr, ∀ old, e.value 0 0 4101 old = old) ∧ out 0 0 = 7 := by
  have hstores : (appDacWrite twoApps true (oneValue 8) (4101 % ioMemorySlots) (4101 % 65536)).map
      (fun x => (4101 + x.1, x.2)) = [(4101, .data 0 5 1 8), (4101, .cycle 0 5 4101)] := by decide
  let t₁ : DacSys Bool := { t with iop := t.iop.dacStatusUpdate twoApps }
  let t₂ : DacSys Bool := { t₁ with
    pending := Function.update t₁.pending true ([(4101, .data 0 5 1 8), (4101, .cycle 0 5 4101)]) }
  let t₃ : DacSys Bool := { t₂ with
    iop := { t₂.iop with iodata := (DacStore.data 0 5 1 8).exec twoApps t₂.iop.iodata }
    pending := Function.update t₂.pending true [(4101, .cycle 0 5 4101)] }
  let t₄ : DacSys Bool := { t₃ with
    iop := { t₃.iop with iodata := (DacStore.cycle 0 5 4101).exec twoApps t₃.iop.iodata }
    pending := Function.update t₃.pending true [] }
  have hcall : t₁.step twoApps (.call true 4101 (oneValue 8)) = some (.other, t₂) := by
    have hidle : t₁.pending true = [] := hpending
    simp only [DacSys.step, if_pos hidle]
    rw [show twoApps.iopIoRate = 65536 from rfl, hstores]
  have hfull : t₂.pending true = [(4101, .data 0 5 1 8), (4101, .cycle 0 5 4101)] := by
    show Function.update t₁.pending true [(4101, .data 0 5 1 8), (4101, .cycle 0 5 4101)] true = _
    rw [Function.update_self]
  have hhalf : t₃.pending true = [(4101, .cycle 0 5 4101)] := by
    show Function.update t₂.pending true [(4101, .cycle 0 5 4101)] true = _
    rw [Function.update_self]
  have hwrites : t₄.iop.writes {} = true := decide_eq_true ⟨henable, by decide⟩
  have hpass : t₄.step twoApps (.iopDacWrite {}) = some
      (.sent 4101 (t₄.iop.iopDacWrite twoApps {}).dacOutLast,
        { t₄ with iop := t₄.iop.iopDacWrite twoApps {}, clock := t₄.clock + 1 }) := by
    have hnow : t₄.clock = 4101 := hclock
    simp only [DacSys.step, if_true, hwrites, hnow]
  refine ⟨[.other, .other, .stored true 4101 (.data 0 5 1 8), .stored true 4101 (.cycle 0 5 4101)],
    _, _, run_cons_of rfl (run_cons_of hcall (run_cons_of (step_store hfull)
      (run_cons_of (step_store hhalf) (run_cons_of hpass rfl)))), ?_, ?_⟩
  · simp [DacEvent.value]
  · have hvalue : (t₄.iop.slot twoApps 0).data 0 = 7 := by
      show (t₄.iop.iodata 1 t.iop.ioMemCntrDac).data 0 = 7
      rw [hcntr]
      exact hdata
    have hstamped : t₄.iop.stamped twoApps {} 0 = true := by
      apply decide_eq_true
      left
      show (t₄.iop.iodata 1 t.iop.ioMemCntrDac).cycle = (t.iop.ioClockDac : ℤ)
      rw [hcntr, hio]
      rfl
    have huses : (t₄.iop.checkCycle twoApps {} 0).uses {} 0 = true := by
      rw [IopDac.uses, IopDac.checkCycle_of_stamped hstamped]
      rfl
    rw [(IopDac.iopDacWrite_card hwrites (by decide)).2.1 0 (by decide)]
    simp only [IopDac.dacOut, IopDac.dacIn, IopDac.checkCycle_slot, huses, hvalue]
    rfl

/-- The first application has died, and a turn of the ring later its value is sent when the second
one sets the count. -/
theorem stale_value_sent : ∃ r, run (DacSys.step twoApps) {} (diesEarly ++
      List.replicate 4095 (.iopDacWrite {}) ++ turnLater) = some r ∧ ¬ SendsFresh twoApps r.1 := by
  have hstart : (run (DacSys.step twoApps) {} diesEarly).any (fun r =>
      r.2.clock = 6 ∧ r.2.iop.ioMemCntrDac = 6 ∧ r.2.iop.ioClockDac = 6 ∧
        r.2.iop.dacWriteEnable > dacStartCycle ∧ r.2.pending true = [] ∧
        (r.2.iop.iodata 1 5).data 0 = 7 ∧ written r.1 0 0 4101 = none) = true := by
    decide +kernel
  obtain ⟨⟨tr, s⟩, hs, hobs⟩ := (Option.any_eq_true _ _).mp hstart
  obtain ⟨hclock, hcntr, hio, henable, hpending, hdata, hwritten⟩ := of_decide_eq_true hobs
  obtain ⟨tr', t, ht, hquiet, htclock, htpending, htcntr, htio, htenable, hkept⟩ :=
    run_calls twoApps 4095 (hcntr.trans (by rw [hclock]; rfl)) (hio.trans (by rw [hclock]; rfl))
      henable
  rw [hclock] at htclock hkept
  have hslot : (t.iop.iodata 1 5).data 0 = 7 := by
    have hsame : t.iop.iodata 1 5 = s.iop.iodata 1 5 :=
      hkept 0 (by decide) 5 fun m hm => by simp only [ioMemorySlots]; omega
    rw [hsame, hdata]
  obtain ⟨tr'', out, u, hu, hother, hout⟩ := run_turnLater (by rw [htpending, hpending]) htclock
    (by rw [htcntr, htclock]; rfl) (by rw [htio, htclock]; rfl) htenable hslot
  refine ⟨_, run_append (run_append hs ht) hu, fun hfresh => ?_⟩
  have hsent := hfresh (tr ++ tr' ++ tr'') 4101 out [] (by simp) 0 (by decide) 0 (by decide)
  rw [hout] at hsent
  obtain ⟨app, v, -, hw, -⟩ := hsent.resolve_left (by decide)
  -- the second application does not write to this channel
  have hnone : written (tr ++ tr' ++ tr'') 0 0 4101 = none := by
    rw [written_append_of_other hother, written_of_quiet hquiet, hwritten]
  rw [hnone] at hw
  cases hw

end AdvLigoRts.Drv
