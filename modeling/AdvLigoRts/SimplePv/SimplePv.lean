import AdvLigoRts.Lib.Machine
import Mathlib.Order.Lattice

/-!
# Alarm events of the embedded EPICS server

`set_value` stores the new status and severity before it compares them with the stored ones, so
that the mask of an event never has the alarm event. A client of alarm events alone knows the state
of the alarm as long as it stays what it was (`alarm_clients_iff`).
-/

namespace AdvLigoRts.SimplePv

open PvLib

/-- The `epicsAlarm` values that are set. -/
inductive AlarmStat
  | none
  | hiHi
  | loLo
  | high
  | low
deriving DecidableEq

/-- The `epicsSev` values that are set. -/
inductive AlarmSevr
  | none
  | minor
  | major
deriving DecidableEq

/-- The limits among the attributes of a PV. -/
structure PvAttributes (V : Type) where
  alarmHigh : V
  alarmLow : V
  warnHigh : V
  warnLow : V

/-- `*val_`, without its time stamp. -/
structure Gdd (V : Type) where
  value : V
  stat : AlarmStat
  sevr : AlarmSevr

def Gdd.alarm {V : Type} (val : Gdd V) : AlarmStat × AlarmSevr := (val.stat, val.sevr)

/-- Whether `valueEventMask( )` and `alarmEventMask( )` of the server are in a mask. -/
structure CasEventMask where
  value : Bool
  alarm : Bool

/-- `simpleIntPV` and `simpleDoublePV`. -/
structure SimplePV (V : Type) where
  attr : PvAttributes V
  val : Gdd V
  monitored : Bool

variable {V K : Type} [LinearOrder V] [LinearOrder K]

/-- The status and the severity that the limits give a value. -/
def PvAttributes.alarm (attr : PvAttributes V) (value : V) : AlarmStat × AlarmSevr :=
  if value ≥ attr.alarmHigh then (.hiHi, .major)
  else if value ≤ attr.alarmLow then (.loLo, .major)
  else if value ≥ attr.warnHigh then (.high, .minor)
  else if value ≤ attr.warnLow then (.low, .minor)
  else (.none, .none)

namespace SimplePV

/-- What the two `set_value` do, with the events that they post. -/
def setValue (pv : SimplePV V) (value : V) : List (CasEventMask × Gdd V) × SimplePV V :=
  if pv.val.value = value then ([], pv)
  else
    let stat := (pv.attr.alarm value).1
    let sevr := (pv.attr.alarm value).2
    let val : Gdd V := ⟨value, stat, sevr⟩
    -- `getStat( )` and `getSevr( )` come behind `setStat` and `setSevr`
    let alarmChanged := stat ≠ val.stat ∨ sevr ≠ val.sevr
    (if pv.monitored then [(⟨true, alarmChanged⟩, val)] else [], { pv with val })

def interestRegister (pv : SimplePV V) : SimplePV V := { pv with monitored := true }

end SimplePV

/-- `simpleIntPV::set_value` -/
def simpleIntPVSetValue (pv : SimplePV ℤ) (value : ℤ) :
    List (CasEventMask × Gdd ℤ) × SimplePV ℤ := pv.setValue value

/-- `simpleDoublePV::set_value`, for values that are ordered. -/
def simpleDoublePVSetValue (pv : SimplePV K) (value : K) :
    List (CasEventMask × Gdd K) × SimplePV K := pv.setValue value

/-! ## A client of alarm events -/

/-- A PV and the status and severity that a client holds. -/
structure Watched (V : Type) where
  pv : SimplePV V
  held : AlarmStat × AlarmSevr

/-- The client has read the state of the alarm when it subscribed. -/
def SimplePV.subscribe (pv : SimplePV V) : Watched V := ⟨pv.interestRegister, pv.val.alarm⟩

namespace Watched

/-- An event reaches the client if the alarm event is in its mask. -/
def receive (held : AlarmStat × AlarmSevr) (e : CasEventMask × Gdd V) : AlarmStat × AlarmSevr :=
  if e.1.alarm then e.2.alarm else held

variable (setValue : SimplePV V → V → List (CasEventMask × Gdd V) × SimplePV V)

/-- `update( )`, with the value at the source of the PV. -/
def update (w : Watched V) (src : V) : Watched V :=
  ⟨(setValue w.pv src).2, (setValue w.pv src).1.foldl receive w.held⟩

/-- An update that changes the value gives it its alarm and posts one event, with the alarm event
exactly if the alarm is a new one. -/
structure Follows (w : Watched V) (src : V) : Prop where
  classified : w.pv.val.value ≠ src →
    (w.update setValue src).pv.val.alarm = w.pv.attr.alarm src
  posted : w.pv.val.value ≠ src → ∃ mask, (setValue w.pv src).1 =
    [(mask, (w.update setValue src).pv.val)] ∧ mask.value = true ∧
      (mask.alarm = true ↔ (w.update setValue src).pv.val.alarm ≠ w.pv.val.alarm)
  held : (w.update setValue src).held = (w.update setValue src).pv.val.alarm

/-- The value stays, or its alarm does. -/
def AlarmStays (w : Watched V) (src : V) : Prop :=
  w.pv.val.value = src ∨ w.pv.attr.alarm src = w.pv.val.alarm

/-- What holds between the updates. -/
def Current (w : Watched V) : Prop := w.pv.monitored = true ∧ w.held = w.pv.val.alarm

theorem setValue_of_ne {pv : SimplePV V} (hmon : pv.monitored = true) {src : V}
    (hne : pv.val.value ≠ src) :
    pv.setValue src = ([(⟨true, false⟩, ⟨src, (pv.attr.alarm src).1, (pv.attr.alarm src).2⟩)],
      { pv with val := ⟨src, (pv.attr.alarm src).1, (pv.attr.alarm src).2⟩ }) := by
  unfold SimplePV.setValue
  dsimp only
  rw [if_neg hne, if_pos hmon]
  simp

/-- The client is not told, so it holds the alarm only if it has stayed. -/
theorem follows_iff {w : Watched V} (h : w.Current) (src : V) :
    Follows SimplePV.setValue w src ↔ w.AlarmStays src := by
  by_cases heq : w.pv.val.value = src
  · apply iff_of_true _ (.inl heq)
    have hset : w.pv.setValue src = ([], w.pv) := if_pos heq
    refine ⟨absurd heq, absurd heq, ?_⟩
    rw [update, hset]
    exact h.2
  · have hset := setValue_of_ne h.1 heq
    have hheld : (w.update SimplePV.setValue src).held = w.held := by
      rw [update, hset]
      rfl
    have hval : (w.update SimplePV.setValue src).pv.val.alarm = w.pv.attr.alarm src := by
      rw [update, hset]
      rfl
    constructor
    · intro hf
      have hsame := hf.held
      rw [hheld, hval, h.2] at hsame
      exact .inr hsame.symm
    · rintro (hsame | hsame)
      · exact absurd hsame heq
      · refine ⟨fun _ => hval, fun _ => ⟨⟨true, false⟩, ?_, rfl, ?_⟩, ?_⟩
        · rw [update, hset]
        · rw [hval, hsame]
          simp
        · rw [hheld, hval, h.2, hsame]

theorem Current.update {w : Watched V} (h : w.Current) {src : V} (hstays : w.AlarmStays src) :
    (w.update SimplePV.setValue src).Current := by
  refine ⟨?_, ((follows_iff h src).mpr hstays).held⟩
  by_cases heq : w.pv.val.value = src
  · have hset : w.pv.setValue src = ([], w.pv) := if_pos heq
    rw [Watched.update, hset]
    exact h.1
  · rw [Watched.update, setValue_of_ne h.1 heq]
    exact h.1

theorem stepsMeet_follows_iff (pv : SimplePV V) (srcs : List V) :
    StepsMeet (update SimplePV.setValue) (Follows SimplePV.setValue) pv.subscribe srcs ↔
      StepsMeet (update SimplePV.setValue) AlarmStays pv.subscribe srcs :=
  stepsMeet_iff Current (fun _ src h => follows_iff h src) (fun _ _ h hs => h.update hs)
    ⟨rfl, rfl⟩

end Watched

open Watched

/-- A client of alarm events alone knows the alarm through all updates exactly if no update
changes it, for both kinds of PVs. -/
theorem alarm_clients_iff (pv : SimplePV ℤ) (srcs : List ℤ) (pvK : SimplePV K) (srcsK : List K) :
    (StepsMeet (update simpleIntPVSetValue) (Follows simpleIntPVSetValue) pv.subscribe srcs ↔
        StepsMeet (update simpleIntPVSetValue) AlarmStays pv.subscribe srcs) ∧
      (StepsMeet (update simpleDoublePVSetValue) (Follows simpleDoublePVSetValue) pvK.subscribe
          srcsK ↔
        StepsMeet (update simpleDoublePVSetValue) AlarmStays pvK.subscribe srcsK) :=
  ⟨stepsMeet_follows_iff pv srcs, stepsMeet_follows_iff pvK srcsK⟩

/-- At 0, with 5 and 10 as the upper limits. -/
def quietPV : SimplePV ℤ where
  attr := ⟨10, -10, 5, -5⟩
  val := ⟨0, .none, .none⟩
  monitored := false

/-- The value 20 is above both limits, and the client is not told. -/
theorem alarm_missed :
    ¬ ∀ srcs, StepsMeet (update simpleIntPVSetValue) (Follows simpleIntPVSetValue)
      quietPV.subscribe srcs := by
  intro h
  have hheld := (h [20]).1.held
  exact absurd hheld (by decide)

end AdvLigoRts.SimplePv
