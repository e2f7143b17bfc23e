import AdvLigoRts.Gds.SchedTasklist

/-!
# What a run does to one entry

`EntryStep` is all that a step of the scheduler does to the record of one entry, with what is seen
of it and whether the process is in a synchronous call of the entry.
-/

namespace AdvLigoRts.Gds.Sched

open PvLib

/-! ## Loops over the entries -/

/-- A loop over different entries that changes the record of each of them. -/
theorem infos_foldl {step : Scheduler → ℕ → Scheduler} {f : ℕ → SchedInfo → SchedInfo}
    (hstep : ∀ sd p, (step sd p).infos = Function.update sd.infos p (f p (sd.infos p)))
    {ps : List ℕ} (hnodup : ps.Nodup) (sd : Scheduler) (p : ℕ) :
    (ps.foldl step sd).infos p = if p ∈ ps then f p (sd.infos p) else sd.infos p := by
  induction ps generalizing sd with
  | nil => rfl
  | cons q ps ih =>
    obtain ⟨hq, hnodup⟩ := List.nodup_cons.mp hnodup
    rw [List.foldl_cons, ih hnodup, hstep]
    by_cases hpq : p = q
    · subst hpq
      rw [if_neg hq, if_pos List.mem_cons_self, Function.update_self]
    · rw [Function.update_of_ne hpq]
      have hmem : p ∈ q :: ps ↔ p ∈ ps := by
        rw [List.mem_cons]
        exact or_iff_right hpq
      simp only [hmem]

/-! ## The steps of an entry -/

/-- The process is in a synchronous call of the entry. -/
def Pc.calls (p : ℕ) : Pc → Bool
  | .call _ q => q = p
  | _ => false

/-- The event says something about the entry. -/
def SchedEvent.about (p : ℕ) : SchedEvent → Bool
  | .idle => false
  | .finished _ | .tags _ => true
  | .started q | .returned q | .timedOut q | .scheduled q => q = p
  | .removed ps | .deleted ps => p ∈ ps

/-- What `isTaskReady` asks of an entry apart from the time: it is not marked, and one that has
been started is a repeated one that is not done. -/
def Startable (info : SchedInfo) : Prop :=
  info.markForTermination = false ∧
    (info.firstScheduled ≠ 0 → info.info.has schedRepeat = true ∧ repeatsDone info = false)

/-- A step of the scheduler for one entry: its record and whether it is called, before and after,
and the event. -/
inductive EntryStep (p : ℕ) : SchedInfo → Bool → SchedEvent → SchedInfo → Bool → Prop
  | other {info : SchedInfo} {called : Bool} {e : SchedEvent} (he : e.about p = false) :
      EntryStep p info called e info called
  | collect {info : SchedInfo} {ps : List ℕ}
      (hps : ps.count p = info.countTasks SchedTask.finished) :
      EntryStep p info false (.finished ps) (cleanupEntry info) false
  | tags {info : SchedInfo} {ps : List ℕ} (finished : Bool)
      (hps : p ∈ ps ↔ tagDue finished info = true) :
      EntryStep p info false (.tags ps) (markTags finished info) false
  | call {info : SchedInfo} (tfirst : ℤ) (hready : Startable info)
      (hsync : info.info.has schedAsync = false) :
      EntryStep p info false (.started p) (startInfo tfirst info) true
  | spawn {info : SchedInfo} (tfirst : ℤ) (i : Fin maxTasks) (hready : Startable info)
      (hasync : info.info.has schedAsync = true) (hfree : freeTask info = some i) :
      EntryStep p info false (.started p) (startInfo tfirst (prepareTask i true info)) false
  | unspawned {info : SchedInfo} (i : Fin maxTasks) (hasync : info.info.has schedAsync = true)
      (hfree : freeTask info = some i) :
      EntryStep p info false .idle (prepareTask i false info) false
  | returns {info : SchedInfo} (result : ℤ) :
      EntryStep p info true (.returned p) (returnInfo result info) false
  | timeout {info : SchedInfo} :
      EntryStep p info false (.timedOut p) { info with markForTermination := true } false
  | remove {info : SchedInfo} {called : Bool} {ps : List ℕ} (hp : p ∈ ps) (terminate : ℤ)
      (cancelled : Fin maxTasks → Bool) :
      EntryStep p info called (.removed ps) (markRemoved terminate cancelled info) called
  | finish {info : SchedInfo} {called : Bool} (i : Fin maxTasks) (result : ℤ)
      (hrunning : (info.tasks i).valid = true ∧ (info.tasks i).terminated = false) :
      EntryStep p info called .idle (finishTask i result info) called

section Steps

variable {s t : SchedProcess} {a : SchedAction} {e : SchedEvent} {p : ℕ}

def Pc.Within (ps : List ℕ) : Pc → Prop
  | .ready indx => indx ≤ ps.length
  | .call indx p => indx < ps.length ∧ p ∈ ps
  | _ => True

/-- The list of the scheduler is in order, and the process is within it. -/
structure ProcOk (s : SchedProcess) : Prop where
  list : TasklistOk s.sd
  within : s.pc.Within s.sd.entries

theorem Pc.Within.called {pc : Pc} {ps : List ℕ} (h : pc.Within ps) (hcalls : pc.calls p = true) :
    p ∈ ps := by
  cases pc with
  | call indx q =>
    have hqp : q = p := of_decide_eq_true hcalls
    exact hqp ▸ h.2
  | _ => cases hcalls

theorem Pc.Within.mono {pc : Pc} {ps ps' : List ℕ} (h : pc.Within ps) (hsub : ps ⊆ ps')
    (hle : ps.length ≤ ps'.length) : pc.Within ps' := by
  cases pc with
  | ready indx => exact Nat.le_trans h hle
  | call indx q => exact ⟨Nat.lt_of_lt_of_le h.1 hle, hsub h.2⟩
  | _ => trivial

/-- The entry that the loop has come to. -/
theorem ProcOk.cell (hs : ProcOk s) {indx : ℕ} (hpc : s.pc = .ready indx)
    (hcell : s.sd.tasklist indx = some p) : indx < s.sd.entries.length ∧ p ∈ s.sd.entries := by
  have hle : indx ≤ s.sd.entries.length := by
    have hwithin := hs.within
    rw [hpc] at hwithin
    exact hwithin
  rw [hs.list.holds.cell indx hle] at hcell
  exact ⟨(List.getElem?_eq_some_iff.mp hcell).1, List.mem_of_getElem? hcell⟩

theorem isTaskReady_startable {fuel : ℕ} {tags : List TimeTag} {info : SchedInfo}
    {time : SchedTime} {sync : ℤ → Bool} {tfirst : ℤ}
    (h : isTaskReady fuel tags info time sync = some (.ok (.ready tfirst))) :
    Startable info := by
  unfold isTaskReady at h
  dsimp only at h
  split at h
  · cases h
  · next hmark =>
    refine ⟨by simpa using hmark, ?_⟩
    intro hfirst
    simp only [hfirst, if_false] at h
    split at h
    · cases h
    · split at h
      · next hrepeat =>
        refine ⟨hrepeat, ?_⟩
        split at h
        · cases h
        · next hdone => simpa using hdone
      · cases h

/-- How often an entry of the list is among the finished ones. -/
theorem count_finishedEntries {sd : Scheduler} (hnodup : sd.entries.Nodup)
    (hp : p ∈ sd.entries) :
    (finishedEntries sd).count p = (sd.infos p).countTasks SchedTask.finished := by
  unfold finishedEntries
  generalize sd.entries = ps at hnodup hp
  induction ps with
  | nil => cases hp
  | cons q qs ih =>
    obtain ⟨hq, hqs⟩ := List.nodup_cons.mp hnodup
    rw [List.flatMap_cons, List.count_append, List.count_replicate]
    have hrest (hpqs : p ∉ qs) : (qs.flatMap fun p =>
        List.replicate ((sd.infos p).countTasks SchedTask.finished) p).count p = 0 := by
      apply List.count_eq_zero_of_not_mem
      intro hmem
      obtain ⟨r, hr, hin⟩ := List.mem_flatMap.mp hmem
      exact hpqs (List.eq_of_mem_replicate hin ▸ hr)
    by_cases hpq : p = q
    · subst hpq
      rw [if_pos (beq_self_eq_true p), hrest hq, Nat.add_zero]
    · have hqp : ¬ (q == p) = true := by
        rw [beq_iff_eq]
        exact fun hqp => hpq hqp.symm
      rw [if_neg hqp, Nat.zero_add]
      exact ih hqs ((List.mem_cons.mp hp).resolve_left hpq)

/-- The records after `cleanupFinishedTasks`. -/
theorem infos_cleanupFinishedTasks {sd : Scheduler} (hnodup : sd.entries.Nodup)
    (hp : p ∈ sd.entries) : (cleanupFinishedTasks sd).infos p = cleanupEntry (sd.infos p) := by
  unfold cleanupFinishedTasks
  rw [infos_foldl (f := fun _ => cleanupEntry) (fun _ _ => rfl) hnodup, if_pos hp]

/-- The records after `evaluateTags`. -/
theorem infos_evaluateTags {sd : Scheduler} (hnodup : sd.entries.Nodup) (hp : p ∈ sd.entries)
    (finished : Bool) (time : SchedTime) (accept : List Char → Bool) :
    (evaluateTags finished time accept sd).infos p = markTags finished (sd.infos p) := by
  unfold evaluateTags
  rw [infos_foldl (f := fun _ => markTags finished) (fun _ _ => rfl) hnodup, if_pos hp]

theorem mem_taggedEntries {sd : Scheduler} {finished : Bool} (hp : p ∈ sd.entries) :
    p ∈ taggedEntries finished sd ↔ tagDue finished (sd.infos p) = true := by
  unfold taggedEntries
  rw [List.mem_filter]
  exact and_iff_right hp

/-- The record of an entry when one record is changed. -/
theorem infos_modify (sd : Scheduler) (q : ℕ) (f : SchedInfo → SchedInfo) (p : ℕ) :
    (sd.modify q f).infos p = if p = q then f (sd.infos p) else sd.infos p := by
  show Function.update sd.infos q (f (sd.infos q)) p = _
  by_cases hpq : p = q
  · rw [hpq, Function.update_self, if_pos rfl]
  · rw [Function.update_of_ne hpq, if_neg hpq]

theorem entryStep_startEntry {indx q : ℕ} {tfirst : ℤ} {spawned : Bool}
    (hpc : s.pc = .ready indx) (hready : Startable (s.sd.infos q))
    (h : startEntry s indx q tfirst spawned = (e, t)) :
    EntryStep p (s.sd.infos p) (s.pc.calls p) e (t.sd.infos p) (t.pc.calls p) := by
  have hcalls : s.pc.calls p = false := by
    rw [hpc]
    rfl
  rw [hcalls]
  have hother (hpq : p ≠ q) : (SchedEvent.started q).about p = false :=
    decide_eq_false fun hqp => hpq hqp.symm
  obtain ⟨hsync, rfl, rfl⟩ | ⟨rfl, rfl⟩ | ⟨i, hasync, hfree, ⟨rfl, rfl⟩ | ⟨rfl, rfl⟩⟩ :=
    startEntry_cases h
  · rw [infos_modify]
    by_cases hpq : p = q
    · subst hpq
      rw [if_pos rfl]
      have hcall : (Pc.call indx p).calls p = true := decide_eq_true rfl
      show EntryStep p _ _ _ _ ((Pc.call indx p).calls p)
      rw [hcall]
      exact .call tfirst hready hsync
    · rw [if_neg hpq]
      have hcall : (Pc.call indx q).calls p = false := decide_eq_false fun hqp => hpq hqp.symm
      show EntryStep p _ _ _ _ ((Pc.call indx q).calls p)
      rw [hcall]
      exact .other (hother hpq)
  · exact .other rfl
  · rw [infos_modify, infos_modify]
    by_cases hpq : p = q
    · subst hpq
      rw [if_pos rfl, if_pos rfl]
      exact .spawn tfirst i hready hasync hfree
    · rw [if_neg hpq, if_neg hpq]
      exact .other (hother hpq)
  · rw [infos_modify]
    by_cases hpq : p = q
    · subst hpq
      rw [if_pos rfl]
      exact .unspawned i hasync hfree
    · rw [if_neg hpq]
      exact .other rfl

theorem entryStep_readyStep {indx fuel : ℕ} {spawned : Bool} (hpc : s.pc = .ready indx)
    (h : readyStep s indx fuel spawned = some (e, t)) :
    EntryStep p (s.sd.infos p) (s.pc.calls p) e (t.sd.infos p) (t.pc.calls p) := by
  have hcalls : s.pc.calls p = false := by
    rw [hpc]
    rfl
  obtain ⟨rfl, rfl⟩ | ⟨q, -, ⟨-, rfl, rfl⟩ | ⟨-, rfl, rfl⟩ | ⟨tfirst, hready, hstart⟩⟩ :=
    readyStep_cases h
  · rw [hcalls]
    exact .other rfl
  · rw [hcalls]
    exact .other rfl
  · rw [hcalls, infos_modify]
    by_cases hpq : p = q
    · subst hpq
      rw [if_pos rfl]
      exact .timeout
    · rw [if_neg hpq]
      exact .other (decide_eq_false fun hqp => hpq hqp.symm)
  · exact entryStep_startEntry hpc (isTaskReady_startable hready) hstart

theorem entryStep_remove {sd : Scheduler} {called : Bool} (hnodup : sd.entries.Nodup)
    (id terminate : ℤ) (cancelled : ℕ → Fin maxTasks → Bool) :
    EntryStep p (sd.infos p) called (.removed (sd.removals id))
      ((removeScheduledTask sd id terminate cancelled).infos p) called := by
  have hremovals : (sd.removals id).Nodup := hnodup.filter _
  unfold removeScheduledTask
  rw [infos_foldl (f := fun p => markRemoved terminate (cancelled p)) (fun _ _ => rfl) hremovals]
  by_cases hp : p ∈ sd.removals id
  · rw [if_pos hp]
    exact .remove hp terminate _
  · rw [if_neg hp]
    exact .other (decide_eq_false hp)

theorem step_entry (hs : ProcOk s) (h : step s a = some (e, t)) (hp : p ∈ t.sd.entries) :
    (∃ (c : ScheduleCall) (r : ℤ), e = .scheduled p ∧ p ∉ s.sd.entries ∧
      checkValidity c.checkTime c.task = 0 ∧ t.sd.infos p = newInfo c.task r c.now ∧
      t.pc.calls p = false) ∨
    (p ∈ s.sd.entries ∧
      EntryStep p (s.sd.infos p) (s.pc.calls p) e (t.sd.infos p) (t.pc.calls p)) := by
  have hnodup := hs.list.nodup
  obtain ⟨hsame, -⟩ | ⟨fuel, c, q, r, rfl, rfl, hfresh, hcall⟩ | ⟨realloc, rfl, rfl, hsd⟩ :=
    step_tasklist h
  · right
    have hin : p ∈ s.sd.entries := hsame.entries ▸ hp
    refine ⟨hin, ?_⟩
    cases stepped h with
    | beat hpc h =>
      have hcalls : s.pc.calls p = false := by
        rw [hpc]
        rfl
      obtain ⟨time, rfl, rfl, -⟩ | ⟨-, -, rfl, rfl⟩ := beatStep_cases h
      · exact .other rfl
      · show EntryStep p _ _ _ ((cleanupFinishedTasks s.sd).infos p) _
        rw [infos_cleanupFinishedTasks hnodup hin, hcalls]
        exact .collect (count_finishedEntries hnodup hin)
    | @finishedTags accept hpc =>
      show EntryStep p _ _ _ ((evaluateTags true s.time accept s.sd).infos p) _
      rw [infos_evaluateTags hnodup hin, hpc]
      exact .tags true (mem_taggedEntries hin)
    | ready hpc h => exact entryStep_readyStep hpc h
    | @returns result indx q hpc =>
      show EntryStep p _ _ _ ((s.sd.modify q (returnInfo result)).infos p) _
      rw [infos_modify, hpc]
      by_cases hpq : p = q
      · subst hpq
        rw [if_pos rfl]
        have hcall : (Pc.call indx p).calls p = true := decide_eq_true rfl
        rw [hcall]
        exact .returns result
      · rw [if_neg hpq]
        have hcall : (Pc.call indx q).calls p = false :=
          decide_eq_false fun hqp => hpq hqp.symm
        rw [hcall]
        exact .other hcall
    | @scheduledTags accept hpc =>
      show EntryStep p _ _ _ ((evaluateTags false s.time accept s.sd).infos p) _
      rw [infos_evaluateTags hnodup hin, hpc]
      exact .tags false (mem_taggedEntries hin)
    | @retire realloc hpc =>
      show EntryStep p (s.sd.infos p) _ _ ((deleteRetiredEntries realloc s.sd).infos p) _
      rw [(hs.list.entries_retire realloc).2.1, hpc]
      refine .other (decide_eq_false ?_)
      intro hdead
      have hkept := (hs.list.retire realloc).1 ▸ hp
      simp only [List.mem_filter] at hdead hkept
      simp [hdead.2] at hkept
    | retireTags hpc =>
      have hinfos : (deleteRetiredTags s.sd s.testtag).1.infos = s.sd.infos := by
        unfold deleteRetiredTags
        split
        · rfl
        · dsimp only
          split
          · rfl
          · rfl
      show EntryStep p _ _ _ ((deleteRetiredTags s.sd s.testtag).1.infos p) _
      rw [hinfos, hpc]
      exact .other rfl
    | @finish q i result hvalid hruns =>
      show EntryStep p _ _ _ ((s.sd.modify q (finishTask i result)).infos p) _
      rw [infos_modify]
      by_cases hpq : p = q
      · subst hpq
        rw [if_pos rfl]
        exact .finish i result ⟨hvalid, hruns⟩
      · rw [if_neg hpq]
        exact .other rfl
    | refused hcall =>
      obtain ⟨id, rfl, -⟩ := scheduleTask_none hcall
      exact .other rfl
    | scheduled hmalloc hcall =>
      -- a new entry would have made the list longer
      have hlength := congrArg List.length hsame.entries
      rw [(hs.list.entries_schedule hcall).2.1, List.length_cons] at hlength
      omega
    | remove => exact entryStep_remove hnodup _ _ _
    | setTag => exact .other rfl
  · have hpc : t.pc = s.pc := by
      cases stepped h with
      | scheduled => rfl
    rw [hpc]
    obtain ⟨-, hentries, hinfos, -⟩ := hs.list.entries_schedule hcall
    by_cases hpq : p = q
    · subst hpq
      left
      refine ⟨c, r, rfl, hfresh, (scheduleTask_some hcall).1.1, ?_, ?_⟩
      · rw [hinfos, Function.update_self]
      · by_contra hcalled
        exact hfresh (hs.within.called (by simpa using hcalled))
    · right
      rw [hentries] at hp
      rw [hinfos, Function.update_of_ne hpq]
      exact ⟨(List.mem_cons.mp hp).resolve_left hpq,
        .other (decide_eq_false fun hqp => hpq hqp.symm)⟩
  · right
    have hpc : s.pc = .retire ∧ t.pc = .retireTags := by
      cases stepped h with
      | retire hpc => exact ⟨hpc, rfl⟩
    rw [hsd, (hs.list.retire realloc).1, List.mem_filter] at hp
    rw [hsd, (hs.list.entries_retire realloc).2.1, hpc.1, hpc.2]
    refine ⟨hp.1, .other (decide_eq_false ?_)⟩
    intro hdead
    have hretired := (List.mem_filter.mp hdead).2
    simp [hretired] at hp

/-- An entry is started in `scheduleReadyTasks`, where `isTaskReady` lets it start. -/
theorem step_started (h : step s a = some (.started p, t)) :
    ∃ indx fuel spawned tfirst, a = .ready fuel spawned ∧ s.pc = .ready indx ∧
      s.sd.tasklist indx = some p ∧
      isTaskReady fuel s.sd.timetaglist (s.sd.infos p) s.time s.synclist =
        some (.ok (.ready tfirst)) ∧ startEntry s indx p tfirst spawned = (.started p, t) := by
  cases stepped h with
  | ready hpc h =>
    obtain ⟨he, -⟩ | ⟨q, hcell, ⟨-, he, -⟩ | ⟨-, he, -⟩ | ⟨tfirst, hready, hstart⟩⟩ :=
      readyStep_cases h
    · cases he
    · cases he
    · cases he
    · have hq : SchedEvent.started p = .idle ∨ SchedEvent.started p = .started q :=
        (sameList_startEntry hstart).2
      obtain he | he := hq
      · cases he
      · obtain rfl := SchedEvent.started.inj he
        exact ⟨_, _, _, tfirst, rfl, hpc, hcell, hready, hstart⟩
  | beat hpc h =>
    obtain ⟨time, he, -⟩ | ⟨-, -, he, -⟩ := beatStep_cases h
    all_goals cases he

/-! ## The process stays within the list -/

theorem step_within (hs : ProcOk s) (h : step s a = some (e, t)) :
    t.pc.Within s.sd.entries := by
  have hstays : s.pc.Within s.sd.entries := hs.within
  cases stepped h with
  | beat hpc h =>
    obtain ⟨time, rfl, rfl, -⟩ | ⟨-, -, rfl, rfl⟩ := beatStep_cases h
    · exact hstays
    · trivial
  | finishedTags => exact Nat.zero_le _
  | ready hpc h =>
    obtain ⟨rfl, rfl⟩ | ⟨p, hcell, hcase⟩ := readyStep_cases h
    · trivial
    · obtain ⟨hlt, hp⟩ := hs.cell hpc hcell
      obtain ⟨-, rfl, rfl⟩ | ⟨-, rfl, rfl⟩ | ⟨tfirst, -, hstart⟩ := hcase
      · exact hlt
      · exact hlt
      · obtain ⟨-, rfl, rfl⟩ | ⟨rfl, rfl⟩ | ⟨i, -, -, ⟨rfl, rfl⟩ | ⟨rfl, rfl⟩⟩ :=
          startEntry_cases hstart
        · exact ⟨hlt, hp⟩
        · exact hlt
        · exact hlt
        · exact hlt
  | returns hpc =>
    rw [hpc] at hstays
    exact hstays.1
  | scheduledTags | retire | retireTags => trivial
  | _ => exact hstays

theorem ProcOk.step (hs : ProcOk s) (h : Sched.step s a = some (e, t)) : ProcOk t := by
  refine ⟨hs.list.step h, ?_⟩
  have hwithin := step_within hs h
  obtain ⟨hsame, -⟩ | ⟨fuel, c, p, r, rfl, rfl, hfresh, hcall⟩ | ⟨realloc, rfl, rfl, hsd⟩ :=
    step_tasklist h
  · rw [hsame.entries]
    exact hwithin
  · rw [(hs.list.entries_schedule hcall).2.1]
    exact hwithin.mono (List.subset_cons_self _ _) (Nat.le_succ _)
  · have hpc : t.pc = .retireTags := by
      cases stepped h with
      | retire => rfl
    rw [hpc]
    trivial

theorem procOk_init (newid : ℕ) (infos : ℕ → SchedInfo) : ProcOk (init newid infos) :=
  ⟨tasklistOk_init newid infos, trivial⟩

end Steps

end AdvLigoRts.Gds.Sched
