import AdvLigoRts.PubSub.RecvBounds
import Mathlib.Algebra.Ring.Int.Defs

/-!
# Late and discarded messages

The counters `late_entries_` and `discarded_entries_` of `receive_buffer`, over runs of messages,
of `process_slice_at` and of the two calls that read and clear a counter. What a message should
count as is said by the events before it alone (`LateEvent.Late`, `LateEvent.Discarded`).
`lateness_accounts`: the counters agree with that, unless a message that does not fit clears the
flag of a slot whose key it does not replace.
-/

namespace AdvLigoRts.PubSub

open BufferEntry PvLib

/-! ## The calls and what they show -/

/-- A step of the receiver, or a call that takes a counter. -/
inductive LateAction
  | recv (a : RecvAction)
  | getAndClearLate
  | getAndClearDiscards

inductive LateEvent
  /-- A message of `key` came to a slot that held `held`, and holds `after` now; the counters grew
  by these numbers. -/
  | ingested (slot : ℕ) (key held after : GpsKey) (late discards : ℤ)
  /-- The callback ran for the slot. -/
  | calledBack (slot : ℕ) (key : GpsKey)
  | gotLate (n : ℤ)
  | gotDiscards (n : ℤ)
  | nothing
deriving DecidableEq

namespace ReceiveBuffer

def getAndClearLate (r : ReceiveBuffer) : ℤ × ReceiveBuffer :=
  (r.tracking.late, { r with tracking := { r.tracking with late := 0 } })

def getAndClearDiscards (r : ReceiveBuffer) : ℤ × ReceiveBuffer :=
  (r.tracking.discards, { r with tracking := { r.tracking with discards := 0 } })

def lateStep (N : ℕ) (r : ReceiveBuffer) : LateAction → Option (LateEvent × ReceiveBuffer)
  | .recv (.ingest timestamp input) =>
    let r' := r.ingest N timestamp input
    let event := if malformed input then .nothing else
      .ingested (slotOf N input) (keyOf input) (r.buffer (slotOf N input)).latest
        (r'.buffer (slotOf N input)).latest (r'.tracking.late - r.tracking.late)
        (r'.tracking.discards - r.tracking.discards)
    some (event, r')
  | .recv (.processSliceAt processKey) =>
    let (passed, r') := r.processSliceAt N processKey
    let event := if passed.isSome then
      .calledBack (cycleToIndex N processKey.cycle) processKey else .nothing
    some (event, r')
  | .getAndClearLate => some (.gotLate r.getAndClearLate.1, r.getAndClearLate.2)
  | .getAndClearDiscards => some (.gotDiscards r.getAndClearDiscards.1, r.getAndClearDiscards.2)

/-- A message that is newer than a slot in use for its old key fits. -/
def FitsAfterCallback (N : ℕ) (r : ReceiveBuffer) : LateAction → Prop
  | .recv (.ingest _ input) => malformed input = false →
    (r.buffer (slotOf N input)).isLate = true →
      (r.buffer (slotOf N input)).latest < keyOf input →
        totalSize (storable input.models) ≤ daqTransitDcDataBlockSize
  | _ => True

instance (N : ℕ) (r : ReceiveBuffer) : ∀ a, Decidable (r.FitsAfterCallback N a)
  | .recv (.ingest _ input) => inferInstanceAs (Decidable (malformed input = false → _))
  | .recv (.processSliceAt _) | .getAndClearLate | .getAndClearDiscards => .isTrue trivial

end ReceiveBuffer

/-! ## What the messages are -/

namespace LateEvent

/-- The slot gets another key. -/
def Moves (j : ℕ) : LateEvent → Prop
  | .ingested slot _ held after _ _ => slot = j ∧ after ≠ held
  | _ => False

/-- The callback has run for the key of the slot, since the slot moved to it. -/
def CalledBack (past : List LateEvent) (j : ℕ) (key : GpsKey) : Prop :=
  ∃ as bs, past = as ++ .calledBack j key :: bs ∧ ∀ e ∈ bs, ¬ e.Moves j

/-- The slot held the key of the message, and the callback had run for it. -/
def Late (past : List LateEvent) : LateEvent → Prop
  | .ingested slot key held _ _ _ => held = key ∧ CalledBack past slot key
  | _ => False

def Discarded : LateEvent → Prop
  | .ingested _ key held _ _ _ => key < held
  | _ => False

instance : ∀ e, Decidable (Discarded e)
  | .ingested _ key held _ _ _ => inferInstanceAs (Decidable (key < held))
  | .calledBack .. | .gotLate _ | .gotDiscards _ | .nothing => .isFalse id

end LateEvent

open Classical in
/-- How many messages of a run were late. -/
noncomputable def lateMessages (tr : List LateEvent) : ℕ :=
  sumOverRun (fun past e => if e.Late past then 1 else 0) tr

/-- How many messages of a run were discarded. -/
def discardedMessages (tr : List LateEvent) : ℕ :=
  sumOverRun (fun _ e => if e.Discarded then 1 else 0) tr

/-- The values that `get_and_clear_late` returned. -/
def returnedLate (tr : List LateEvent) : List ℤ :=
  tr.filterMap fun
    | .gotLate n => some n
    | _ => none

/-- The values that `get_and_clear_discards` returned. -/
def returnedDiscards (tr : List LateEvent) : List ℤ :=
  tr.filterMap fun
    | .gotDiscards n => some n
    | _ => none

/-- Every message counts as what it is, once, and no count is lost. -/
structure LatenessAccounts (tr : List LateEvent) (r : ReceiveBuffer) : Prop where
  counted : ∀ past slot key held after late discards rest,
    tr = past ++ .ingested slot key held after late discards :: rest →
      (late = 0 ∨ discards = 0) ∧
      (late = 1 ∧ (held = key ∧ LateEvent.CalledBack past slot key) ∨
        late = 0 ∧ ¬ (held = key ∧ LateEvent.CalledBack past slot key)) ∧
      (discards = 1 ∧ key < held ∨ discards = 0 ∧ ¬ key < held)
  late_sum : (returnedLate tr).sum + r.tracking.late = lateMessages tr
  discards_sum : (returnedDiscards tr).sum + r.tracking.discards = discardedMessages tr

/-! ## One message -/

theorem isLate_ingestModels (key : GpsKey) (timestamp : ℤ) (input : DaqMultiDcuData)
    (hs : List DaqMsgHeader) (inputData : ℕ) (e : BufferEntry) :
    (ingestModels key timestamp input hs inputData e).2.isLate = e.isLate := by
  induction hs generalizing inputData e with
  | nil => rfl
  | cons h hs ih =>
    unfold ingestModels
    split
    · exact ih inputData e
    · split
      · rfl
      · dsimp only
        split
        · rfl
        · exact ih _ _

/-- After the comparison of the keys, the flag stays and the counter is raised if it is set; the
key of the slot is replaced if the message fits. -/
theorem accept_lateness (e : BufferEntry) (t : Tracking) (timestamp : ℤ)
    (input : DaqMultiDcuData) :
    (e.accept t timestamp input).1.isLate = e.isLate ∧
      (e.accept t timestamp input).2.late = t.late + (if e.isLate then 1 else 0) ∧
      (e.accept t timestamp input).2.discards = t.discards ∧
      (e.accept t timestamp input).1.latest =
        (if (ingestModels (keyOf input) timestamp input input.models 0
          { e with lastInjestion := timestamp }).1 then keyOf input else e.latest) := by
  have hflag := isLate_ingestModels (keyOf input) timestamp input input.models 0
    { e with lastInjestion := timestamp }
  have hlatest := (stored_ingestModels (keyOf input) timestamp input input.models 0
    { e with lastInjestion := timestamp }).latest_eq
  unfold accept
  dsimp only
  generalize hr : ingestModels (keyOf input) timestamp input input.models 0
    { e with lastInjestion := timestamp } = r at hflag hlatest
  obtain ⟨finished, e'⟩ := r
  have hlate : (if e.isLate then { t with late := t.late + 1 } else t).late =
      t.late + (if e.isLate then 1 else 0) := by
    cases e.isLate with
    | true => rfl
    | false => exact (add_zero t.late).symm
  have hdiscards : (if e.isLate then { t with late := t.late + 1 } else t).discards =
      t.discards := by
    cases e.isLate with
    | true => rfl
    | false => rfl
  cases finished with
  | true => exact ⟨hflag, hlate, hdiscards, rfl⟩
  | false => exact ⟨hflag, hlate, hdiscards, hlatest⟩

/-- What a message does to the flag and the key of its slot, and to the counters. -/
theorem ingest_lateness {e : BufferEntry} (t : Tracking) (timestamp : ℤ) {input : DaqMultiDcuData}
    (hmal : ReceiveBuffer.malformed input = false) :
    let r := e.ingest t timestamp input
    (keyOf input < e.latest ∧ r.1 = e ∧ r.2.late = t.late ∧ r.2.discards = t.discards + 1) ∨
    (keyOf input = e.latest ∧ r.1.latest = e.latest ∧ r.1.isLate = e.isLate ∧
      r.2.late = t.late + (if e.isLate then 1 else 0) ∧ r.2.discards = t.discards) ∨
    (e.latest < keyOf input ∧ r.1.isLate = false ∧ r.2.late = t.late ∧ r.2.discards = t.discards ∧
      r.1.latest = if totalSize (storable input.models) ≤ daqTransitDcDataBlockSize then
        keyOf input else e.latest) := by
  rcases lt_trichotomy (keyOf input) e.latest with hkey | hkey | hkey
  · left
    rw [ingest_of_older t timestamp hkey]
    exact ⟨hkey, rfl, rfl, rfl⟩
  · right; left
    obtain ⟨hflag, hlate, hdiscards, hlatest⟩ := accept_lateness e t timestamp input
    have hsame : e.ingest t timestamp input = e.accept t timestamp input := by
      unfold BufferEntry.ingest
      rw [if_neg (by rw [hkey]; exact lt_irrefl _), if_neg (by rw [hkey]; exact lt_irrefl _)]
    rw [hsame]
    refine ⟨hkey, ?_, hflag, hlate, hdiscards⟩
    rw [hlatest, hkey, ite_self]
  · right; right
    set e₀ : BufferEntry := { e.clear with firstInjestion := timestamp }
    set t₀ : Tracking := { t with span := e.lastInjestion - e.firstInjestion }
    obtain ⟨hflag, hlate, hdiscards, hlatest⟩ := accept_lateness e₀ t₀ timestamp input
    have hnewer : e.ingest t timestamp input = e₀.accept t₀ timestamp input := by
      unfold BufferEntry.ingest
      rw [if_pos hkey]
    have hfinished := (stored_ingestModels (keyOf input) timestamp input input.models 0
      { e₀ with lastInjestion := timestamp }).finished_iff
    -- an admitted message has no more models than a slot
    have hmodels : (storable input.models).length ≤ daqTransitMaxDcu := by
      have hadmitted := of_decide_eq_false hmal
      push Not at hadmitted
      apply (List.length_filter_le _ _).trans
      rw [length_models]
      exact hadmitted.2.1
    have hfits : (ingestModels (keyOf input) timestamp input input.models 0
        { e₀ with lastInjestion := timestamp }).1 = true ↔
        totalSize (storable input.models) ≤ daqTransitDcDataBlockSize := by
      rw [hfinished]
      constructor
      · intro h
        rcases h with hnone | ⟨-, hsize⟩
        · rw [hnone]
          exact Nat.zero_le _
        · rwa [show e₀.data = 0 from rfl, Nat.zero_add] at hsize
      · intro hsize
        right
        refine ⟨?_, ?_⟩
        · show 0 + _ ≤ _
          rwa [Nat.zero_add]
        · show 0 + _ ≤ _
          rwa [Nat.zero_add]
    rw [hnewer]
    refine ⟨hkey, hflag, hlate.trans (add_zero _), hdiscards, ?_⟩
    rw [hlatest]
    exact if_congr hfits rfl rfl

/-! ## Every run -/

section Events

variable {tr : List LateEvent} {e : LateEvent} {j : ℕ} {key : GpsKey} {r : ReceiveBuffer}

theorem calledBack_snoc : LateEvent.CalledBack (tr ++ [e]) j key ↔
    e = .calledBack j key ∨ LateEvent.CalledBack tr j key ∧ ¬ e.Moves j := by
  constructor
  · rintro ⟨as, bs, hsplit, hbs⟩
    rcases snoc_split hsplit with ⟨-, rfl, -⟩ | ⟨bs', htr, rfl⟩
    · exact .inl rfl
    · right
      refine ⟨⟨as, bs', htr, fun e he => hbs e (List.mem_append_left _ he)⟩, ?_⟩
      exact hbs e (List.mem_append_right _ List.mem_cons_self)
  · rintro (rfl | ⟨⟨as, bs, rfl, hbs⟩, hstays⟩)
    · exact ⟨tr, [], rfl, fun e he => absurd he List.not_mem_nil⟩
    · refine ⟨as, bs ++ [e], by rw [List.append_assoc, List.cons_append], fun e' he' => ?_⟩
      rcases List.mem_append.mp he' with hold | hlast
      · exact hbs e' hold
      · rw [List.mem_singleton.mp hlast]
        exact hstays

open Classical in
theorem LatenessAccounts.snoc (h : LatenessAccounts tr r) {r' : ReceiveBuffer}
    (hcounted : ∀ slot key held after late discards,
      e = .ingested slot key held after late discards →
        (late = 0 ∨ discards = 0) ∧
        (late = 1 ∧ (held = key ∧ LateEvent.CalledBack tr slot key) ∨
          late = 0 ∧ ¬ (held = key ∧ LateEvent.CalledBack tr slot key)) ∧
        (discards = 1 ∧ key < held ∨ discards = 0 ∧ ¬ key < held))
    (hlate : (returnedLate [e]).sum + r'.tracking.late =
      r.tracking.late + (if e.Late tr then 1 else 0 : ℕ))
    (hdiscards : (returnedDiscards [e]).sum + r'.tracking.discards =
      r.tracking.discards + (if e.Discarded then 1 else 0 : ℕ)) :
    LatenessAccounts (tr ++ [e]) r' where
  counted := by
    intro past slot key held after late discards rest hsplit
    rcases snoc_split hsplit with ⟨rfl, rfl, -⟩ | ⟨rest', htr, -⟩
    · exact hcounted _ _ _ _ _ _ rfl
    · exact h.counted _ _ _ _ _ _ _ _ htr
  late_sum := by
    have hreturned : (returnedLate (tr ++ [e])).sum =
        (returnedLate tr).sum + (returnedLate [e]).sum := by
      unfold returnedLate
      rw [List.filterMap_append, List.sum_append]
    have hmessages : lateMessages (tr ++ [e]) = lateMessages tr + if e.Late tr then 1 else 0 :=
      sumOverRun_snoc ..
    rw [hreturned, hmessages, Int.natCast_add, ← h.late_sum]
    omega
  discards_sum := by
    have hreturned : (returnedDiscards (tr ++ [e])).sum =
        (returnedDiscards tr).sum + (returnedDiscards [e]).sum := by
      unfold returnedDiscards
      rw [List.filterMap_append, List.sum_append]
    have hmessages : discardedMessages (tr ++ [e]) =
        discardedMessages tr + if e.Discarded then 1 else 0 := sumOverRun_snoc ..
    rw [hreturned, hmessages, Int.natCast_add, ← h.discards_sum]
    omega

/-- An event that is no message, and neither reads nor changes a counter. -/
theorem LatenessAccounts.snoc_quiet (h : LatenessAccounts tr r) {r' : ReceiveBuffer}
    (he : e = .nothing ∨ ∃ j key, e = .calledBack j key) (htracking : r'.tracking = r.tracking) :
    LatenessAccounts (tr ++ [e]) r' := by
  rcases he with rfl | ⟨j, key, rfl⟩
  all_goals
    apply h.snoc
    · intro slot key held after late discards he
      cases he
    · simp [htracking, returnedLate, LateEvent.Late]
    · simp [htracking, returnedDiscards, LateEvent.Discarded]

/-- The flag of a slot says whether the callback has run for its key. -/
def FlagsTrue (tr : List LateEvent) (r : ReceiveBuffer) : Prop :=
  ∀ j, (r.buffer j).isLate = true ↔ LateEvent.CalledBack tr j (r.buffer j).latest

theorem FlagsTrue.snoc_quiet (h : FlagsTrue tr r) {r' : ReceiveBuffer}
    (he : ∀ j, ¬ e.Moves j) (hno : ∀ j key, e ≠ .calledBack j key)
    (hbuffer : r'.buffer = r.buffer) : FlagsTrue (tr ++ [e]) r' := by
  intro j
  rw [hbuffer, calledBack_snoc, h j]
  exact ⟨fun hcalled => .inr ⟨hcalled, he j⟩, fun hcalled => (hcalled.resolve_left (hno _ _)).1⟩

end Events

/-- A message that meets the condition. -/
theorem lateStep_ingest {N : ℕ} {tr : List LateEvent} {r : ReceiveBuffer} (hflags : FlagsTrue tr r)
    (h : LatenessAccounts tr r) (timestamp : ℤ) {input : DaqMultiDcuData}
    (hmal : ReceiveBuffer.malformed input = false)
    (hfits : r.FitsAfterCallback N (.recv (.ingest timestamp input))) :
    let j := ReceiveBuffer.slotOf N input
    let r' := r.ingest N timestamp input
    let e : LateEvent := .ingested j (keyOf input) (r.buffer j).latest (r'.buffer j).latest
      (r'.tracking.late - r.tracking.late) (r'.tracking.discards - r.tracking.discards)
    FlagsTrue (tr ++ [e]) r' ∧ LatenessAccounts (tr ++ [e]) r' := by
  intro j r' e
  have hslot : r'.buffer j = ((r.buffer j).ingest r.tracking timestamp input).1 := by
    show (r.ingest N timestamp input).buffer j = _
    unfold ReceiveBuffer.ingest
    rw [hmal, if_neg Bool.false_ne_true]
    exact Function.update_self ..
  have hother : ∀ i ≠ j, r'.buffer i = r.buffer i := by
    intro i hi
    show (r.ingest N timestamp input).buffer i = _
    unfold ReceiveBuffer.ingest
    rw [hmal, if_neg Bool.false_ne_true]
    exact Function.update_of_ne hi ..
  have htracking : r'.tracking = ((r.buffer j).ingest r.tracking timestamp input).2 := by
    show (r.ingest N timestamp input).tracking = _
    unfold ReceiveBuffer.ingest
    rw [hmal, if_neg Bool.false_ne_true]
  have hcases := ingest_lateness (e := r.buffer j) r.tracking timestamp hmal
  dsimp only at hcases
  rw [← hslot, ← htracking] at hcases
  have hcalled : ∀ i key, LateEvent.CalledBack (tr ++ [e]) i key ↔
      LateEvent.CalledBack tr i key ∧ ¬ e.Moves i := by
    intro i key
    rw [calledBack_snoc]
    exact or_iff_right nofun
  refine ⟨?_, ?_⟩
  · intro i
    rw [hcalled]
    by_cases hi : i = j
    · subst hi
      have hmoves : e.Moves j ↔ (r'.buffer j).latest ≠ (r.buffer j).latest :=
        and_iff_right rfl
      rw [hmoves, not_not]
      rcases hcases with ⟨-, hsame, -⟩ | ⟨-, hlatest, hflag, -⟩ | ⟨hkey, hflag, -, -, hlatest⟩
      · rw [hsame, hflags j]
        exact (and_iff_left rfl).symm
      · rw [hflag, hlatest, hflags j]
        exact (and_iff_left rfl).symm
      · -- the flag is cleared: either the slot moves, or there was nothing to clear
        rw [hflag]
        refine ⟨fun hset => absurd hset Bool.false_ne_true, fun ⟨hran, hstays⟩ => ?_⟩
        rw [hstays, ← hflags j] at hran
        rw [if_pos (hfits hmal hran hkey)] at hlatest
        rw [hlatest] at hstays
        exact absurd hstays.symm hkey.ne
    · rw [hother i hi, hflags i]
      exact (and_iff_left fun hmoves => hi hmoves.1.symm).symm
  · have hlate : e.Late tr ↔ (r.buffer j).latest = keyOf input ∧ (r.buffer j).isLate = true :=
      and_congr_right fun hheld => by rw [hflags j, hheld]
    have hdiscarded : e.Discarded ↔ keyOf input < (r.buffer j).latest := Iff.rfl
    have hcounts : (r'.tracking.late - r.tracking.late = 1 ∧ e.Late tr ∨
        r'.tracking.late - r.tracking.late = 0 ∧ ¬ e.Late tr) ∧
        (r'.tracking.discards - r.tracking.discards = 1 ∧ e.Discarded ∨
          r'.tracking.discards - r.tracking.discards = 0 ∧ ¬ e.Discarded) := by
      rw [hlate, hdiscarded]
      rcases hcases with ⟨hkey, -, hsame, hmore⟩ | ⟨hkey, -, -, hmore, hsame⟩ |
        ⟨hkey, -, hlate, hsame, -⟩
      · refine ⟨.inr ⟨by omega, fun hheld => hkey.ne hheld.1.symm⟩, .inl ⟨by omega, hkey⟩⟩
      · refine ⟨?_, .inr ⟨by omega, hkey.not_lt⟩⟩
        by_cases hset : (r.buffer j).isLate = true
        · rw [if_pos hset] at hmore
          exact .inl ⟨by omega, hkey.symm, hset⟩
        · rw [if_neg hset] at hmore
          exact .inr ⟨by omega, fun hheld => hset hheld.2⟩
      · exact ⟨.inr ⟨by omega, fun hheld => hkey.ne hheld.1⟩, .inr ⟨by omega, hkey.not_gt⟩⟩
    apply h.snoc
    · intro slot key held after late discards he
      obtain ⟨rfl, rfl, rfl, rfl, rfl, rfl⟩ := LateEvent.ingested.inj he
      refine ⟨?_, hcounts.1, hcounts.2⟩
      rcases hcounts.1 with ⟨-, hheld, -⟩ | ⟨hzero, -⟩
      · rcases hcounts.2 with ⟨-, hlt⟩ | ⟨hzero, -⟩
        · exact absurd hheld.symm (ne_of_lt hlt)
        · exact .inr hzero
      · exact .inl hzero
    · show 0 + r'.tracking.late = _
      rcases hcounts.1 with ⟨hone, hyes⟩ | ⟨hzero, hno⟩
      · rw [if_pos hyes]
        omega
      · rw [if_neg hno]
        omega
    · show 0 + r'.tracking.discards = _
      rcases hcounts.2 with ⟨hone, hyes⟩ | ⟨hzero, hno⟩
      · rw [if_pos hyes]
        omega
      · rw [if_neg hno]
        omega

theorem lateStep_processSliceAt {N : ℕ} {tr : List LateEvent} {r r' : ReceiveBuffer}
    {e : LateEvent} (hflags : FlagsTrue tr r) (h : LatenessAccounts tr r) {processKey : GpsKey}
    (hstep : r.lateStep N (.recv (.processSliceAt processKey)) = some (e, r')) :
    FlagsTrue (tr ++ [e]) r' ∧ LatenessAccounts (tr ++ [e]) r' := by
  unfold ReceiveBuffer.lateStep ReceiveBuffer.processSliceAt at hstep
  dsimp only at hstep
  set j := cycleToIndex N processKey.cycle
  by_cases hkey : processKey = (r.buffer j).latest
  · have hruns : (r.buffer j).processIf processKey =
        (some (r.buffer j).ifoData, { r.buffer j with isLate := true }) := by
      unfold BufferEntry.processIf
      rw [if_neg (not_not.mpr hkey)]
    rw [hruns] at hstep
    obtain ⟨rfl, rfl⟩ := hstep
    refine ⟨fun i => ?_, h.snoc_quiet (.inr ⟨j, processKey, rfl⟩) rfl⟩
    rw [calledBack_snoc]
    by_cases hi : i = j
    · subst hi
      simp only [Function.update_self, true_iff]
      exact .inl (congrArg _ hkey)
    · simp only [Function.update_of_ne hi]
      rw [hflags i]
      refine ⟨fun hcalled => .inr ⟨hcalled, id⟩, fun hcalled => (hcalled.resolve_left ?_).1⟩
      intro hevent
      exact hi (LateEvent.calledBack.inj hevent).1.symm
  · have hskips : (r.buffer j).processIf processKey = (none, r.buffer j) := by
      unfold BufferEntry.processIf
      rw [if_pos hkey]
    rw [hskips, Function.update_eq_self] at hstep
    obtain ⟨rfl, rfl⟩ := hstep
    exact ⟨hflags.snoc_quiet (fun _ => id) nofun rfl, h.snoc_quiet (.inl rfl) rfl⟩

/-- In every run in which a message that is newer than its slot fits, or finds the flag of the slot
cleared, the counters are exact. -/
theorem lateness_accounts {N : ℕ} {acts : List LateAction} {tr : List LateEvent}
    {r : ReceiveBuffer}
    (h : run (restrict (ReceiveBuffer.FitsAfterCallback N) (ReceiveBuffer.lateStep N)) .start acts =
      some (tr, r)) : LatenessAccounts tr r := by
  have hboth := run_induction (fun tr r => FlagsTrue tr r ∧ LatenessAccounts tr r)
    (fun tr r a _ e r' hinv hstep => ?_) ⟨?_, ?_⟩ h
  · exact hboth.2
  · obtain ⟨hfits, hstep⟩ := restrict_eq_some.mp hstep
    obtain ⟨hflags, hacc⟩ := hinv
    cases a with
    | recv a =>
      cases a with
      | ingest timestamp input =>
        cases hmal : ReceiveBuffer.malformed input with
        | true =>
          unfold ReceiveBuffer.lateStep ReceiveBuffer.ingest at hstep
          simp only [hmal, if_true] at hstep
          obtain ⟨rfl, rfl⟩ := hstep
          exact ⟨hflags.snoc_quiet (fun _ => id) nofun rfl, hacc.snoc_quiet (.inl rfl) rfl⟩
        | false =>
          unfold ReceiveBuffer.lateStep at hstep
          dsimp only at hstep
          rw [hmal, if_neg Bool.false_ne_true] at hstep
          obtain ⟨rfl, rfl⟩ := hstep
          exact lateStep_ingest hflags hacc timestamp hmal hfits
      | processSliceAt processKey => exact lateStep_processSliceAt hflags hacc hstep
    | getAndClearLate =>
      obtain ⟨rfl, rfl⟩ := hstep
      refine ⟨hflags.snoc_quiet (fun _ => id) nofun rfl, hacc.snoc nofun ?_ ?_⟩
      · simp [returnedLate, LateEvent.Late, ReceiveBuffer.getAndClearLate]
      · simp [returnedDiscards, LateEvent.Discarded, ReceiveBuffer.getAndClearLate]
    | getAndClearDiscards =>
      obtain ⟨rfl, rfl⟩ := hstep
      refine ⟨hflags.snoc_quiet (fun _ => id) nofun rfl, hacc.snoc nofun ?_ ?_⟩
      · simp [returnedLate, LateEvent.Late, ReceiveBuffer.getAndClearDiscards]
      · simp [returnedDiscards, LateEvent.Discarded, ReceiveBuffer.getAndClearDiscards]
  · intro j
    exact ⟨fun hset => absurd hset Bool.false_ne_true, fun ⟨as, bs, hnil, _⟩ => by simp at hnil⟩
  · exact ⟨fun _ _ _ _ _ _ _ _ hnil => by simp at hnil, rfl, rfl⟩

/-- A message of cycle 0 with one model. -/
def sizedModel (timeSec dataBlockSize : UInt32) : DaqMultiDcuData where
  header :=
    { dcuTotalModels := 1
      fullDataBlockSize := 0
      dcuheader := fun _ => { dcuId := 5, timeSec, dataBlockSize } }
  dataBlock := fun _ => 0

/-- A message, the callback for it, a late one, the next second and one that is too old. -/
def lateAndOld : List LateAction :=
  [.recv (.ingest 0 (sizedModel 10 4)), .recv (.processSliceAt (.ofTime 10 0)),
    .recv (.ingest 1 (sizedModel 10 4)), .getAndClearLate, .recv (.ingest 2 (sizedModel 11 4)),
    .recv (.ingest 3 (sizedModel 10 4)), .getAndClearDiscards]

theorem lateness_accounts_lateAndOld : ∃ r, run (restrict (ReceiveBuffer.FitsAfterCallback 16)
    (ReceiveBuffer.lateStep 16)) .start lateAndOld = some r ∧ LatenessAccounts r.1 r.2 := by
  have hrun : (run (restrict (ReceiveBuffer.FitsAfterCallback 16) (ReceiveBuffer.lateStep 16))
      .start lateAndOld).isSome = true := by decide +kernel
  obtain ⟨⟨tr, r⟩, hr⟩ := Option.isSome_iff_exists.mp hrun
  exact ⟨(tr, r), hr, lateness_accounts hr⟩

/-- The message of second 11 does not fit: the slot keeps the key of second 10 and loses its
flag. -/
def lateAfterTooLarge : List LateAction :=
  [.recv (.ingest 0 (sizedModel 10 4)), .recv (.processSliceAt (.ofTime 10 0)),
    .recv (.ingest 1 (sizedModel 11 0x700000)), .recv (.ingest 2 (sizedModel 10 4))]

/-- A late message that does not count as one. -/
theorem late_not_counted : ∃ r, run (ReceiveBuffer.lateStep 16) .start lateAfterTooLarge = some r ∧
    ¬ LatenessAccounts r.1 r.2 := by
  have hrun : (run (ReceiveBuffer.lateStep 16) .start lateAfterTooLarge).map Prod.fst =
      some [.ingested 0 (.ofTime 10 0) .zero (.ofTime 10 0) 0 0, .calledBack 0 (.ofTime 10 0),
        .ingested 0 (.ofTime 11 0) (.ofTime 10 0) (.ofTime 10 0) 0 0,
        .ingested 0 (.ofTime 10 0) (.ofTime 10 0) (.ofTime 10 0) 0 0] := by decide +kernel
  obtain ⟨⟨tr, r⟩, hr, htr⟩ := Option.map_eq_some_iff.mp hrun
  refine ⟨(tr, r), hr, fun h => ?_⟩
  obtain ⟨-, hlate, -⟩ := h.counted [_, _, _] _ _ _ _ _ _ [] htr
  have hcalled : LateEvent.CalledBack [.ingested 0 (.ofTime 10 0) .zero (.ofTime 10 0) 0 0,
      .calledBack 0 (.ofTime 10 0), .ingested 0 (.ofTime 11 0) (.ofTime 10 0) (.ofTime 10 0) 0 0]
      0 (.ofTime 10 0) := by
    refine ⟨[_], [_], rfl, fun e he => ?_⟩
    rw [List.mem_singleton.mp he]
    exact fun hmoves => hmoves.2 rfl
  rcases hlate with ⟨hone, -⟩ | ⟨-, hnot⟩
  · exact absurd hone (by decide)
  · exact hnot ⟨rfl, hcalled⟩

end AdvLigoRts.PubSub
