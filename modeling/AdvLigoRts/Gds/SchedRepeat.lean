import AdvLigoRts.Gds.SchedFirst
import AdvLigoRts.Lib.Grid

/-!
# The grid of a repeated entry

An entry that is repeated every `k` epochs runs in a pass if a point of the grid from its start
time falls between the last pass and this one. Its start time is not after the pass of its first
start: `calcStartTime` goes back from there.
-/

namespace AdvLigoRts.Gds.Sched

open PvLib

/-! ## The start time -/

section Start

variable {entry : SchedulerTask} {info info' : SchedInfo} {time : SchedTime} {fuel : ℕ} {r : ℤ}
variable {tags : List TimeTag} {sync : ℤ → Bool}

theorem searchBack_le {done : ℤ → Bool} {step t : ℤ} (hstep : 0 ≤ step)
    (h : searchBack done step fuel t = some r) : r ≤ t := by
  obtain ⟨-, k, rfl⟩ := searchBack_some h
  have hback := Int.mul_nonneg (Int.natCast_nonneg k) hstep
  omega

theorem epochSearch_le {v : ℤ} (hv : 0 ≤ v) (h : (searchBack
    (fun t => t.tmod numberOfEpochs = v) 1 fuel time.tnow).map Except.ok =
      some (.ok r : Except ArithFault ℤ)) : r ≤ time.tnow ∧ r ≠ -1 := by
  obtain ⟨t, hsearch, ht⟩ := Option.map_eq_some_iff.mp h
  obtain rfl := Except.ok.inj ht
  refine ⟨searchBack_le (by decide) hsearch, ?_⟩
  rintro rfl
  have hdone := of_decide_eq_true (searchBack_some hsearch).1
  rw [show (-1 : ℤ).tmod numberOfEpochs = -1 by decide] at hdone
  omega

theorem secondSearch_le {done : ℤ → Bool} (htnow : 0 ≤ time.tnow)
    (h : (searchBack done numberOfEpochs fuel
      (numberOfEpochs * time.tnow.tdiv numberOfEpochs)).map Except.ok =
        some (.ok r : Except ArithFault ℤ)) : r ≤ time.tnow ∧ r ≠ -1 := by
  obtain ⟨t, hsearch, ht⟩ := Option.map_eq_some_iff.mp h
  obtain rfl := Except.ok.inj ht
  have hle := searchBack_le (by decide) hsearch
  obtain ⟨-, k, hk⟩ := searchBack_some hsearch
  rw [Int.tdiv_eq_ediv_of_nonneg htnow] at hle hk
  unfold numberOfEpochs at *
  omega

theorem calcStartTime_le (hok : SyncOk entry) (hrepeat : entry.has schedRepeat = true)
    (htnow : 0 ≤ time.tnow) (hwait : entry.has schedWait = true →
      entry.waittype = schedWaitStarttime → 0 ≤ entry.waitval ∧
        entry.waitval ≤ time.tnow * epochNsec)
    (h : calcStartTime fuel entry time = some (.ok r)) : r ≤ time.tnow ∧ r ≠ -1 := by
  unfold calcStartTime at h
  rw [hrepeat, Bool.not_true, if_neg Bool.false_ne_true] at h
  split at h
  · split at h
    · next hsync =>
      split at h
      · next hepoch => exact epochSearch_le (hok.epoch hsync.1 hepoch).1 h
      · split at h
        · cases h
        · exact secondSearch_le htnow h
    · split at h
      · next hstart =>
        obtain ⟨hlo, hhi⟩ := hwait hstart.1 hstart.2
        obtain rfl := Except.ok.inj (Option.some.inj h)
        rw [Int.tdiv_eq_ediv_of_nonneg hlo]
        unfold epochNsec at *
        omega
      · obtain rfl := Except.ok.inj (Option.some.inj h)
        omega
  · split at h
    · next hepoch => exact epochSearch_le (hok.repeatEpoch hrepeat hepoch).1 h
    · split at h
      · cases h
      · exact secondSearch_le htnow h

/-- An entry that has been started keeps its start time. -/
theorem isTaskReady_again (h : isTaskReady fuel tags info time sync = some (.ok (.ready r)))
    (hfirst : info.firstScheduled ≠ 0) : r = -1 := by
  unfold isTaskReady at h
  simp only [if_neg hfirst] at h
  split at h
  · cases h
  · split at h
    · cases h
    · split at h
      · split at h
        · cases h
        · split at h
          · cases h
          · split at h
            · cases h
              rfl
            · cases h
      · cases h

theorem isTaskReady_tfirst (haccepted : Accepted info.info) (htnow : 0 ≤ time.tnow)
    (h : isTaskReady fuel tags info time sync = some (.ok (.ready r))) :
    (r = -1 ∨ r ≤ time.tnow) ∧ (info.info.has schedRepeat = true → info.firstScheduled = 0 →
      calcStartTime fuel info.info time = some (.ok r) ∧ r ≤ time.tnow ∧ r ≠ -1) := by
  by_cases hfirst : info.firstScheduled = 0
  · obtain ⟨hover, hcalc⟩ := isTaskReady_first h hfirst
    have hwait (hflag : info.info.has schedWait = true)
        (htype : info.info.waittype = schedWaitStarttime) :
        0 ≤ info.info.waitval ∧ info.info.waitval ≤ time.tnow * epochNsec := by
      constructor
      · exact waitval_nonneg haccepted hflag (by rw [htype]; decide)
      · have hbefore := notBefore_of_not_tag (by rw [htype]; decide) (hover hflag).1
        exact hbefore.starttime htype
    have hstart (hrepeat : info.info.has schedRepeat = true) : r ≤ time.tnow ∧ r ≠ -1 :=
      calcStartTime_le (syncOk_accepted haccepted) hrepeat htnow hwait hcalc
    refine ⟨?_, fun hrepeat _ => ⟨hcalc, hstart hrepeat⟩⟩
    by_cases hrepeat : info.info.has schedRepeat = true
    · exact Or.inr (hstart hrepeat).1
    · unfold calcStartTime at hcalc
      rw [Bool.eq_false_of_not_eq_true hrepeat, Bool.not_false, if_pos rfl] at hcalc
      exact Or.inl (Except.ok.inj (Option.some.inj hcalc)).symm
  · exact ⟨Or.inl (isTaskReady_again h hfirst), fun _ hzero => absurd hzero hfirst⟩

/-- A started entry that is repeated every `k` epochs is ready just when a point of its grid falls
between the last pass and this one, unless it is done, has timed out or is marked. -/
theorem isTaskReady_iff_gridPoint {k : ℕ} (hfirst : info.firstScheduled ≠ 0)
    (hrepeat : info.info.has schedRepeat = true) (hk : 1 ≤ k)
    (hinterval : repeatInterval info.info = k) (hle : info.tfirst ≤ time.tnow) :
    (∃ r, isTaskReady fuel tags info time sync = some (.ok (.ready r))) ↔
      GridPoint info.tfirst k time.told time.tnow ∧ repeatsDone info = false ∧
        timedOut info time = false ∧ info.markForTermination = false := by
  by_cases hgoes : repeatsDone info = false ∧ timedOut info time = false ∧
      info.markForTermination = false
  · obtain ⟨hdone, htime, hmark⟩ := hgoes
    have hne : repeatInterval info.info ≠ 0 := by omega
    have hdiff : 0 ≤ time.tnow - info.tfirst := by omega
    rw [isTaskReady_repeat hmark htime hfirst hrepeat hdone, if_neg hne, hinterval,
      Int.tdiv_eq_ediv_of_nonneg hdiff, gridPoint_iff_ediv hk hle]
    by_cases hpoint : time.told < (time.tnow - info.tfirst) / k * k + info.tfirst
    · rw [if_pos hpoint]
      exact iff_of_true ⟨-1, rfl⟩ ⟨hpoint, hdone, htime, hmark⟩
    · rw [if_neg hpoint]
      exact iff_of_false nofun fun h => hpoint h.1
  · refine iff_of_false ?_ fun h => hgoes h.2
    rintro ⟨r, hready⟩
    apply hgoes
    unfold isTaskReady at hready
    split at hready
    · cases hready
    · next hmark =>
      split at hready
      · cases hready
      · next htime =>
        split at hready
        · cases hready
        · next hdone =>
          exact ⟨Bool.eq_false_of_not_eq_true hdone, Bool.eq_false_of_not_eq_true htime,
            Bool.eq_false_of_not_eq_true hmark⟩

end Start

/-! ## Passes -/

section Steps

variable {s t : SchedProcess} {a : SchedAction} {e : SchedEvent} {p : ℕ}
variable {info info' : SchedInfo} {called called' : Bool}

theorem EntryStep.tfirst (hstep : EntryStep p info called e info' called')
    (he : e ≠ .started p) : info'.tfirst = info.tfirst := by
  cases hstep with
  | collect hps => exact (collected_cleanupEntry info).tfirst
  | tags finished hps =>
    unfold markTags
    split
    · rfl
    · split
      · rfl
      · rfl
  | call tfirst hready hsync => exact absurd rfl he
  | spawn tfirst i hready hasync hfree => exact absurd rfl he
  | returns result =>
    unfold returnInfo
    rw [updateEndOfTask_eq]
  | _ => rfl

theorem started_tfirst (h : step s a = some (.started p, t)) : ∃ indx fuel tfirst,
    s.pc = .ready indx ∧ s.sd.tasklist indx = some p ∧
      isTaskReady fuel s.sd.timetaglist (s.sd.infos p) s.time s.synclist =
        some (.ok (.ready tfirst)) ∧
      (t.sd.infos p).tfirst = if tfirst ≠ -1 then tfirst else (s.sd.infos p).tfirst := by
  obtain ⟨indx, fuel, spawned, tfirst, -, hpc, hcell, hready, hstart⟩ := step_started h
  refine ⟨indx, fuel, tfirst, hpc, hcell, hready, ?_⟩
  obtain ⟨-, -, rfl⟩ | ⟨he, -⟩ | ⟨i, -, -, ⟨-, rfl⟩ | ⟨he, -⟩⟩ := startEntry_cases hstart
  · show (Function.update s.sd.infos p _ p).tfirst = _
    rw [Function.update_self]
    rfl
  · cases he
  · show (Function.update (Function.update s.sd.infos p _) p _ p).tfirst = _
    rw [Function.update_self]
    show (if tfirst ≠ -1 then tfirst else (Function.update s.sd.infos p _ p).tfirst) = _
    rw [Function.update_self]
    rfl
  · cases he

/-- A heartbeat of a pass is after the last pass. -/
def later (s : SchedProcess) : SchedAction → Prop
  | .beat now => s.sd.tasklist 0 ≠ none → minTime * numberOfEpochs ≤ beatTnow now →
      s.time.told < beatTnow now
  | _ => True

instance (s : SchedProcess) (a : SchedAction) : Decidable (later s a) :=
  match a with
  | .beat _ => inferInstanceAs (Decidable (_ → _ → _))
  | .finishedTags _ | .ready .. | .returns _ | .scheduledTags _ | .retire _ | .retireTags
  | .finish .. | .schedule .. | .remove .. | .setTag .. => .isTrue trivial

/-- The epoch of the present pass, or else of the last one. -/
def SchedProcess.lastPass (s : SchedProcess) : ℤ :=
  if s.pc = .sync then s.time.told else s.time.tnow

/-- The passes come one after the other, and no start time is after them. -/
structure PassesOk (s : SchedProcess) : Prop where
  told : 0 ≤ s.time.told
  tnow : s.pc ≠ .sync → s.time.told < s.time.tnow
  tfirst : ∀ p ∈ s.sd.entries, (s.sd.infos p).tfirst ≤ s.lastPass

theorem PassesOk.time (hs : PassesOk s) (hlater : later s a)
    (h : Sched.step s a = some (e, t)) : 0 ≤ t.time.told ∧
      (t.pc ≠ .sync → t.time.told < t.time.tnow) ∧ s.lastPass ≤ t.lastPass := by
  have hpast := hs.told
  by_cases hbeat : ∃ now, a = .beat now
  · obtain ⟨now, rfl⟩ := hbeat
    obtain ⟨tai, epoch, hbeat, htnow, -⟩ := beat_cases s.time now
    obtain ⟨hpc, ⟨hpc', -, htime⟩ | ⟨hpc', htime, hentry, hvalid⟩⟩ := step_beat h
    · have htold : t.time.told = s.time.told := by
        obtain ⟨htime, -⟩ | ⟨htime, -⟩ := htime
        · rw [htime]
        · rw [htime, hbeat]
      unfold SchedProcess.lastPass
      rw [if_pos hpc, if_pos hpc', htold]
      exact ⟨hpast, fun hne => absurd hpc' hne, le_refl _⟩
    · have hnext := hlater hentry hvalid
      unfold SchedProcess.lastPass
      rw [if_pos hpc, hpc', if_neg nofun, htime, hbeat]
      dsimp only
      rw [← htnow]
      exact ⟨hpast, fun _ => hnext, hnext.le⟩
  · unfold SchedProcess.lastPass
    obtain ⟨hpc, hpc', htime, -⟩ | ⟨hpc, hpc', htime⟩ | ⟨htime, -, hpc, -⟩ :=
      step_time h fun now ha => hbeat ⟨now, ha⟩
    · have hnow := hs.tnow (by rw [hpc]; exact nofun)
      rw [hpc, hpc', if_neg nofun, if_neg nofun, htime]
      exact ⟨hpast, fun _ => hnow, le_refl _⟩
    · have hnow := hs.tnow (by rw [hpc]; exact nofun)
      rw [hpc, hpc', if_neg nofun, if_pos rfl, htime]
      refine ⟨?_, fun hne => absurd rfl hne, le_refl _⟩
      show 0 ≤ s.time.tnow
      omega
    · simp only [hpc, htime]
      exact ⟨hpast, fun hne => hs.tnow fun hfrom => hne (hpc.mpr hfrom), le_refl _⟩

theorem PassesOk.step {tr : List SchedEvent} (hs : PassesOk s) (he : EntriesOk tr s)
    (hlater : later s a) (h : Sched.step s a = some (e, t)) : PassesOk t := by
  obtain ⟨htold, htnow, hle⟩ := hs.time hlater h
  refine ⟨htold, htnow, ?_⟩
  intro p hp
  obtain ⟨c, r, -, -, -, hinfo, -⟩ | ⟨hin, hentry⟩ := step_entry he.1 h hp
  · rw [hinfo]
    show 0 ≤ t.lastPass
    unfold SchedProcess.lastPass
    split
    · exact htold
    · next hpc =>
      have hnow := htnow hpc
      omega
  · have hfirst := hs.tfirst p hin
    by_cases hstarted : e = .started p
    · subst hstarted
      obtain ⟨indx, fuel, tfirst, hpc, -, hready, htfirst⟩ := started_tfirst h
      have hnow := hs.tnow (by rw [hpc]; exact nofun)
      have hlast : s.lastPass = s.time.tnow := by
        unfold SchedProcess.lastPass
        rw [hpc, if_neg nofun]
      have hpast := hs.told
      rw [htfirst]
      split
      · next hset =>
        have hstart := isTaskReady_tfirst (he.2 p hin).accepted (by omega) hready
        have hbound := hstart.1.resolve_left hset
        omega
      · omega
    · rw [hentry.tfirst hstarted]
      omega

theorem passesOk_init (newid : ℕ) (infos : ℕ → SchedInfo) : PassesOk (init newid infos) where
  told := le_refl _
  tnow := fun hne => absurd rfl hne
  tfirst := by
    intro p hp
    rw [(show (init newid infos).sd.entries = [] from rfl)] at hp
    cases hp

theorem passesOk_run {newid : ℕ} {infos : ℕ → SchedInfo} {as : List SchedAction}
    {tr : List SchedEvent}
    (h : run (restrict later Sched.step) (init newid infos) as = some (tr, s)) : PassesOk s := by
  have hboth : EntriesOk tr s ∧ PassesOk s := by
    refine run_induction (fun tr s => EntriesOk tr s ∧ PassesOk s) ?_ ?_ h
    · rintro tr s a - e t ⟨hentries, hs⟩ hstep
      obtain ⟨hlater, hstep⟩ := restrict_eq_some.mp hstep
      exact ⟨hentries.step hstep, hs.step hentries hlater hstep⟩
    · have hnone : run Sched.step (init newid infos) [] = some ([], init newid infos) := rfl
      exact ⟨entriesOk_run hnone, passesOk_init newid infos⟩
  exact hboth.2

end Steps

/-! ## Visits -/

/-- What `isTaskReady` is given when a pass comes to an entry. -/
structure Visit where
  fuel : ℕ
  timetaglist : List TimeTag
  info : SchedInfo
  time : SchedTime
  synclist : ℤ → Bool

/-- `isTaskReady` lets the entry run. -/
def Visit.runs (x : Visit) : Prop :=
  ∃ tfirst, isTaskReady x.fuel x.timetaglist x.info x.time x.synclist = some (.ok (.ready tfirst))

/-- The entry is neither finished nor timed out nor marked for termination. -/
def Visit.goesOn (x : Visit) : Prop :=
  repeatsDone x.info = false ∧ timedOut x.info x.time = false ∧ x.info.markForTermination = false

/-- The process comes to the entry `p`. -/
def SchedProcess.visit (s : SchedProcess) (fuel p : ℕ) : Visit :=
  ⟨fuel, s.sd.timetaglist, s.sd.infos p, s.time, s.synclist⟩

/-- The visits to an entry after the pass of its first start, as long as it goes on: it is repeated
every `k` epochs from `first`. -/
structure Repeats (first : ℤ) (k : ℕ) (x : ℕ → Visit) : Prop where
  started : ∀ i, (x i).info.firstScheduled ≠ 0
  repeated : ∀ i, (x i).info.info.has schedRepeat = true
  interval : ∀ i, repeatInterval (x i).info.info = k
  tfirst : ∀ i, (x i).info.tfirst = first
  goesOn : ∀ i, (x i).goesOn
  first_le : first ≤ (x 0).time.told
  later : ∀ i, (x i).time.told < (x i).time.tnow
  told : ∀ i, (x (i + 1)).time.told = (x i).time.tnow

section Sequence

variable {first : ℤ} {k : ℕ} {x : ℕ → Visit}

theorem Repeats.strictMono (hx : Repeats first k x) : StrictMono fun i => (x i).time.told := by
  apply strictMono_nat_of_lt_succ
  intro i
  rw [hx.told]
  exact hx.later i

theorem Repeats.runs_iff (hx : Repeats first k x) (hk : 1 ≤ k) (i : ℕ) :
    (x i).runs ↔ GridPoint first k (x i).time.told (x (i + 1)).time.told := by
  have hmono := hx.strictMono.monotone (Nat.zero_le i)
  have hpast : (x 0).time.told ≤ (x i).time.told := hmono
  have hfirst := hx.first_le
  have hlater := hx.later i
  have hle : (x i).info.tfirst ≤ (x i).time.tnow := by
    rw [hx.tfirst]
    omega
  have hready : (∃ r, isTaskReady (x i).fuel (x i).timetaglist (x i).info (x i).time
      (x i).synclist = some (.ok (.ready r))) ↔ _ :=
    isTaskReady_iff_gridPoint (hx.started i) (hx.repeated i) hk (hx.interval i) hle
  rw [hx.tfirst] at hready
  rw [hx.told]
  exact hready.trans (and_iff_left (hx.goesOn i))

/-- Without lost epochs the first run comes within `k` passes, and from one run to the next it is
`k` epochs. -/
theorem Repeats.period (hx : Repeats first k x) (hk : 1 ≤ k)
    (hnext : ∀ i, (x i).time.tnow = (x i).time.told + 1) :
    (∃ i < k, (x i).runs) ∧ ∀ i, (x i).runs →
      (x (i + k)).runs ∧ (x (i + k)).time.tnow = (x i).time.tnow + k ∧
        ∀ m, 0 < m → m < k → ¬ (x (i + m)).runs := by
  have hstep (i : ℕ) : (x (i + 1)).time.told = (x i).time.told + 1 := by
    rw [hx.told, hnext]
  simp only [hx.runs_iff hk]
  refine ⟨gridPoint_within hk hstep hx.first_le, ?_⟩
  intro i hi
  have htold : (x (i + k)).time.told = (x i).time.told + k :=
    add_of_succ (t := fun i => (x i).time.told) hstep i k
  obtain ⟨hagain, hnone⟩ := gridPoint_period (t := fun i => (x i).time.told) hstep hx.first_le hi
  refine ⟨hagain, ?_, hnone⟩
  rw [hnext, hnext, htold]
  ring

/-- With fewer than `k` lost epochs in a row each point of the grid is that of one run, and each
run is that of one point. -/
theorem Repeats.gaps (hx : Repeats first k x) (hk : 1 ≤ k)
    (hgap : ∀ i, (x i).time.tnow - (x i).time.told ≤ k) :
    (∀ j : ℕ, (x 0).time.told < first + j * k → ∃! i, (x i).runs ∧
      (x i).time.told < first + j * k ∧ first + j * k ≤ (x i).time.tnow) ∧
    ∀ i, (x i).runs → ∃! j : ℕ,
      (x i).time.told < first + j * k ∧ first + j * k ≤ (x i).time.tnow := by
  simp only [hx.runs_iff hk, ← hx.told] at hgap ⊢
  constructor
  · intro j hj
    obtain ⟨i, hi, hunique⟩ := existsUnique_interval hx.strictMono hj
    refine ⟨i, ⟨⟨j, hi⟩, hi⟩, ?_⟩
    exact fun i' hi' => hunique i' hi'.2
  · rintro i ⟨j, hj⟩
    refine ⟨j, hj, ?_⟩
    exact fun j' hj' => gridPoint_unique (hgap i) hj'.1 hj'.2 hj.1 hj.2

end Sequence

section Grid

variable {newid : ℕ} {infos : ℕ → SchedInfo} {as : List SchedAction} {tr : List SchedEvent}
variable {s : SchedProcess}

/-- In every run whose passes come one after the other, a repeated entry is first started with the
start time of `calcStartTime`, which is not after the pass, and keeps it. -/
theorem repeats_onGrid (h : run (restrict later Sched.step) (init newid infos) as = some (tr, s)) :
    (∀ a p t, Sched.step s a = some (.started p, t) →
      (s.sd.infos p).info.has schedRepeat = true → (history p tr).starts = 0 →
      (∃ fuel, calcStartTime fuel (s.sd.infos p).info s.time =
        some (.ok (t.sd.infos p).tfirst)) ∧ (t.sd.infos p).tfirst ≤ s.time.tnow) ∧
    (∀ a e p t, Sched.step s a = some (e, t) → p ∈ t.sd.entries → e ≠ .scheduled p →
      (e = .started p → (history p tr).starts ≠ 0) →
      (t.sd.infos p).tfirst = (s.sd.infos p).tfirst) ∧
    (∀ indx fuel p k, s.pc = .ready indx → s.sd.tasklist indx = some p →
      (s.sd.infos p).info.has schedRepeat = true → (history p tr).starts ≠ 0 →
      repeatInterval (s.sd.infos p).info = (k : ℕ) → 1 ≤ k →
      ((s.visit fuel p).runs ↔
        GridPoint (s.sd.infos p).tfirst k s.time.told s.time.tnow ∧ (s.visit fuel p).goesOn)) ∧
    ∀ first k x, 1 ≤ k → Repeats first k x →
      ((∀ i, (x i).time.tnow = (x i).time.told + 1) →
        (∃ i < k, (x i).runs) ∧ ∀ i, (x i).runs →
          (x (i + k)).runs ∧ (x (i + k)).time.tnow = (x i).time.tnow + k ∧
            ∀ m, 0 < m → m < k → ¬ (x (i + m)).runs) ∧
      ((∀ i, (x i).time.tnow - (x i).time.told ≤ k) →
        (∀ j : ℕ, (x 0).time.told < first + j * k → ∃! i, (x i).runs ∧
          (x i).time.told < first + j * k ∧ first + j * k ≤ (x i).time.tnow) ∧
        ∀ i, (x i).runs → ∃! j : ℕ,
          (x i).time.told < first + j * k ∧ first + j * k ≤ (x i).time.tnow) := by
  have hentries := entriesOk_run (run_of_restrict h)
  have hs := passesOk_run h
  have hfirst (p : ℕ) (hp : p ∈ s.sd.entries) :
      (s.sd.infos p).firstScheduled = 0 ↔ (history p tr).starts = 0 :=
    (hentries.2 p hp).flags.scheduled.2
  have hpast := hs.told
  refine ⟨?_, ?_, ?_, ?_⟩
  · intro a p t hstep hrepeat hstarts
    obtain ⟨indx, fuel, tfirst, hpc, hcell, hready, htfirst⟩ := started_tfirst hstep
    have hin := (hentries.1.cell hpc hcell).2
    have hnow := hs.tnow (by rw [hpc]; exact nofun)
    obtain ⟨hcalc, hle, hset⟩ :=
      (isTaskReady_tfirst (hentries.2 p hin).accepted (by omega) hready).2 hrepeat
        ((hfirst p hin).mpr hstarts)
    rw [htfirst, if_pos hset]
    exact ⟨⟨fuel, hcalc⟩, hle⟩
  · intro a e p t hstep hp hnew hagain
    obtain ⟨c, r, he, -⟩ | ⟨hin, hentry⟩ := step_entry hentries.1 hstep hp
    · exact absurd he hnew
    · by_cases hstarted : e = .started p
      · subst hstarted
        obtain ⟨indx, fuel, tfirst, -, -, hready, htfirst⟩ := started_tfirst hstep
        have hnot : (s.sd.infos p).firstScheduled ≠ 0 :=
          fun hzero => hagain rfl ((hfirst p hin).mp hzero)
        rw [htfirst, if_neg (not_not.mpr (isTaskReady_again hready hnot))]
      · exact hentry.tfirst hstarted
  · intro indx fuel p k hpc hcell hrepeat hstarts hinterval hk
    have hin := (hentries.1.cell hpc hcell).2
    have hle := hs.tfirst p hin
    unfold SchedProcess.lastPass at hle
    rw [hpc, if_neg nofun] at hle
    exact isTaskReady_iff_gridPoint (fun hzero => hstarts ((hfirst p hin).mp hzero)) hrepeat hk
      hinterval hle
  · intro first k x hk hx
    exact ⟨hx.period hk, hx.gaps hk⟩

/-! ### A task on the grid of its start time -/

/-- A task that is repeated in every other epoch from the beginning of second 100. -/
def gridTask : SchedulerTask :=
  { plainTask with
    flag := schedRepeat ||| schedWait ||| schedMaxtimeLong
    waittype := schedWaitStarttime
    waitval := 100 * oneSec
    repeattype := 1
    repeatrate := 2 }

/-- The task is first started in epoch 1. -/
def gridStart : List SchedAction :=
  [.schedule 9 (callAt gridTask 0 0), .beat (100 * oneSec + epochNsec),
    .finishedTags fun _ => true]

/-- From the first start to the visit of the pass in this epoch. -/
def gridPass (epoch : ℤ) : List SchedAction :=
  [.returns 0, .ready 1 true, .scheduledTags fun _ => true] ++ passEnd ++
    [.beat (100 * oneSec + epoch * epochNsec), .finishedTags fun _ => true]

theorem gridPass_ready : (run (restrict later Sched.step) (init 0 blankInfos)
    (gridStart ++ .ready 1 true :: gridPass 5)).any (fun r =>
      r.2.pc = .ready 0 ∧ r.2.sd.tasklist 0 = some 0 ∧
        (r.2.sd.infos 0).info.has schedRepeat = true ∧ (history 0 r.1).starts = 1 ∧
        repeatInterval (r.2.sd.infos 0).info = 2 ∧ (r.2.sd.infos 0).tfirst = 1600 ∧
        r.2.time.told = 1601 ∧ r.2.time.tnow = 1605 ∧ repeatsDone (r.2.sd.infos 0) = false ∧
        timedOut (r.2.sd.infos 0) r.2.time = false ∧
        (r.2.sd.infos 0).markForTermination = false) = true := by
  decide +kernel

theorem repeats_onGrid_gridPass : ∃ tr s, run (restrict later Sched.step) (init 0 blankInfos)
    (gridStart ++ .ready 1 true :: gridPass 5) = some (tr, s) ∧ (s.visit 1 0).runs := by
  obtain ⟨⟨tr, s⟩, hrun, hany⟩ := (Option.any_eq_true _ _).mp gridPass_ready
  obtain ⟨hpc, hcell, hrepeat, hstarts, hinterval, htfirst, htold, htnow, hgoes⟩ :=
    of_decide_eq_true hany
  have hlaw := (repeats_onGrid hrun).2.2.1 0 1 0 2 hpc hcell hrepeat
    (by rw [show (history 0 tr).starts = 1 from hstarts]; decide) hinterval (by decide)
  refine ⟨tr, s, hrun, hlaw.mpr ⟨⟨1, ?_⟩, hgoes⟩⟩
  rw [show (s.sd.infos 0).tfirst = 1600 from htfirst, show s.time.told = 1601 from htold,
    show s.time.tnow = 1605 from htnow]
  decide

theorem gridPass_starts : (run (restrict busy Sched.step) (init 0 blankInfos) gridStart).any
    (fun r => (Sched.step r.2 (.ready 1 true)).any fun d => d.1 = .started 0 ∧
      r.2.time.tnow = 1601 ∧ (run (restrict busy Sched.step) d.2 (gridPass 2)).any fun r' =>
        .started 0 ∉ r'.1 ∧ .scheduled 0 ∉ r'.1 ∧ (r'.2.sd.infos 0).info.has schedRepeat = true ∧
          repeatInterval (r'.2.sd.infos 0).info = 2 ∧ r'.2.time.tnow = 1602 ∧
          (Sched.step r'.2 (.ready 1 true)).any fun d' => d'.1 = .started 0) = true := by
  decide +kernel

/-- The second run comes one epoch after the first one. -/
theorem firstRepeat_not_period : ¬ ∀ newid infos as bs a b tr tr' s t s' t' p k,
    run (restrict busy Sched.step) (init newid infos) as = some (tr, s) →
    Sched.step s a = some (.started p, t) →
    run (restrict busy Sched.step) t bs = some (tr', s') →
    Sched.step s' b = some (.started p, t') → EveryEpoch (as ++ bs) →
    .started p ∉ tr' → .scheduled p ∉ tr' → (s'.sd.infos p).info.has schedRepeat = true →
    repeatInterval (s'.sd.infos p).info = k → 1 ≤ k → s'.time.tnow = s.time.tnow + k := by
  intro hall
  obtain ⟨⟨tr, s⟩, hrun, hany⟩ := (Option.any_eq_true _ _).mp gridPass_starts
  obtain ⟨⟨e, t⟩, hstep, hfacts⟩ := (Option.any_eq_true _ _).mp hany
  obtain ⟨rfl, htnow, hany'⟩ := of_decide_eq_true hfacts
  obtain ⟨⟨tr', s'⟩, hrun', hfacts'⟩ := (Option.any_eq_true _ _).mp hany'
  obtain ⟨hstarted, hscheduled, hrepeat, hinterval, htnow', hany''⟩ := of_decide_eq_true hfacts'
  obtain ⟨⟨e', t'⟩, hstep', hfacts''⟩ := (Option.any_eq_true _ _).mp hany''
  obtain rfl := of_decide_eq_true hfacts''
  have hepochs : beatEpochs (gridStart ++ gridPass 2) = [1601, 1602] := by decide +kernel
  have hevery : EveryEpoch (gridStart ++ gridPass 2) := by
    unfold EveryEpoch
    rw [hepochs]
    decide
  have hperiod := hall 0 blankInfos _ _ _ _ tr tr' s t s' t' 0 2 hrun hstep hrun' hstep' hevery
    hstarted hscheduled hrepeat hinterval (by decide)
  rw [show s.time.tnow = 1601 from htnow, show s'.time.tnow = 1602 from htnow'] at hperiod
  exact absurd hperiod (by decide)

end Grid

end AdvLigoRts.Gds.Sched
