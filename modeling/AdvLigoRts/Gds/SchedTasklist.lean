import AdvLigoRts.Gds.SchedProcess

/-!
# The task list of the scheduler

The list is moved by `_scheduleTask` and `deleteRetiredEntries` only; what else the process and the
threads do leaves it alone (`SameList`). It keeps its shape (`TasklistOk`).
-/

namespace AdvLigoRts.Gds.Sched

open PvLib

/-! ## What leaves the list alone -/

/-- What stays the same of an entry as long as it is in the list. -/
def SchedInfo.static (info : SchedInfo) : SchedulerTask × ℤ × ℤ := (info.info, info.id, info.tinit)

/-- The list and what an entry keeps have not changed. -/
structure SameList (sd sd' : Scheduler) : Prop where
  tasklist : sd'.tasklist = sd.tasklist
  maxtasklist : sd'.maxtasklist = sd.maxtasklist
  static : ∀ p, (sd'.infos p).static = (sd.infos p).static
  newid : 0 ≤ sd.newid → 0 ≤ sd'.newid

section SameList

variable {sd sd' sd'' : Scheduler} {p : ℕ} {f : SchedInfo → SchedInfo}

theorem SameList.refl (sd : Scheduler) : SameList sd sd := ⟨rfl, rfl, fun _ => rfl, id⟩

theorem SameList.trans (h : SameList sd sd') (h' : SameList sd' sd'') : SameList sd sd'' where
  tasklist := h'.tasklist.trans h.tasklist
  maxtasklist := h'.maxtasklist.trans h.maxtasklist
  static p := (h'.static p).trans (h.static p)
  newid hpos := h'.newid (h.newid hpos)

theorem SameList.entries (h : SameList sd sd') : sd'.entries = sd.entries := by
  unfold Scheduler.entries
  rw [h.tasklist, h.maxtasklist]

theorem SameList.info (h : SameList sd sd') (p : ℕ) : (sd'.infos p).info = (sd.infos p).info :=
  congrArg Prod.fst (h.static p)

theorem SameList.id (h : SameList sd sd') (p : ℕ) : (sd'.infos p).id = (sd.infos p).id :=
  congrArg (fun x => x.2.1) (h.static p)

/-- An update of one entry leaves the list alone. -/
theorem sameList_modify (hf : (f (sd.infos p)).static = (sd.infos p).static) :
    SameList sd (sd.modify p f) := by
  refine ⟨rfl, rfl, ?_, fun hpos => hpos⟩
  intro q
  show (Function.update sd.infos p (f (sd.infos p)) q).static = _
  by_cases hq : q = p
  · rw [hq, Function.update_self]
    exact hf
  · rw [Function.update_of_ne hq]

theorem sameList_foldl {step : Scheduler → ℕ → Scheduler} (hstep : ∀ sd p, SameList sd (step sd p))
    (ps : List ℕ) (sd : Scheduler) : SameList sd (ps.foldl step sd) := by
  induction ps generalizing sd with
  | nil => exact .refl sd
  | cons p ps ih => exact (hstep sd p).trans (ih _)

theorem static_updateEndOfTask (info : SchedInfo) (result : ℤ) :
    (updateEndOfTask info result).static = info.static := by
  unfold updateEndOfTask
  dsimp only
  split_ifs
  all_goals rfl

theorem static_cleanupTask (info : SchedInfo) (i : Fin maxTasks) :
    (cleanupTask info i).static = info.static := by
  unfold cleanupTask
  split
  · exact static_updateEndOfTask info _
  · rfl

theorem static_cleanupEntry (info : SchedInfo) : (cleanupEntry info).static = info.static := by
  unfold cleanupEntry
  induction List.finRange maxTasks generalizing info with
  | nil => rfl
  | cons i is ih => rw [List.foldl_cons, ih, static_cleanupTask]

theorem static_markTags (finished : Bool) (info : SchedInfo) :
    (markTags finished info).static = info.static := by
  unfold markTags
  split
  · rfl
  · split
    · rfl
    · rfl

/-- Setting a tag leaves the list alone. -/
theorem sameList_evaluateEntry (finished : Bool) (time : SchedTime) (accept : List Char → Bool)
    (sd : Scheduler) (p : ℕ) : SameList sd (evaluateEntry finished time accept sd p) := by
  have hmodify : SameList sd (sd.modify p (markTags finished)) :=
    sameList_modify (static_markTags finished _)
  exact { hmodify with }

/-- So does starting a task, which starts at most the one. -/
theorem sameList_startEntry {s t : SchedProcess} {indx : ℕ} {tfirst : ℤ} {spawned : Bool}
    {e : SchedEvent} (h : startEntry s indx p tfirst spawned = (e, t)) :
    SameList s.sd t.sd ∧ (e = .idle ∨ e = .started p) := by
  have hprepare (i : Fin maxTasks) (valid : Bool) :
      SameList s.sd (s.sd.modify p (prepareTask i valid)) := sameList_modify rfl
  obtain ⟨-, rfl, rfl⟩ | ⟨rfl, rfl⟩ | ⟨i, -, -, ⟨rfl, rfl⟩ | ⟨rfl, rfl⟩⟩ := startEntry_cases h
  · exact ⟨sameList_modify rfl, Or.inr rfl⟩
  · exact ⟨.refl _, Or.inl rfl⟩
  · exact ⟨(hprepare i true).trans (sameList_modify rfl), Or.inr rfl⟩
  · exact ⟨hprepare i false, Or.inl rfl⟩

/-- So does deleting tags. -/
theorem sameList_deleteRetiredTags (sd : Scheduler) (testtag : ℕ) :
    SameList sd (deleteRetiredTags sd testtag).1 := by
  unfold deleteRetiredTags
  split
  · exact .refl sd
  · dsimp only
    split
    · exact .refl sd
    · exact ⟨rfl, rfl, fun _ => rfl, fun hpos => hpos⟩

end SameList

/-! ## Scheduling -/

section Schedule

variable {sd sd' : Scheduler} {c : ScheduleCall} {fuel p : ℕ} {r newid id : ℤ} {ids : List ℤ}

/-- A new identification is no other entry's. -/
theorem freshId_spec (h : freshId ids fuel newid = some id) :
    id ∉ ids ∧ (0 ≤ newid → 0 < id) := by
  induction fuel generalizing newid with
  | zero => cases h
  | succ fuel ih =>
    have hnext : 0 ≤ newid → 0 < (if newid > 1000000 then 1 else newid + 1) := by
      intro hpos
      split
      · exact Int.one_pos
      · omega
    unfold freshId at h
    dsimp only at h
    by_cases hin : (if newid > 1000000 then 1 else newid + 1) ∈ ids
    · rw [if_pos hin] at h
      obtain ⟨hfresh, hpos⟩ := ih h
      exact ⟨hfresh, fun hnew => hpos (Int.le_of_lt (hnext hnew))⟩
    · rw [if_neg hin] at h
      obtain rfl := Option.some.inj h
      exact ⟨hin, hnext⟩

/-- At the end of the list nothing has been found. -/
theorem searchPlace_end {indx found : ℕ} {priority : ℤ} (hend : sd.tasklist indx = none)
    (h : searchPlace sd indx priority fuel 0 = some found) : found = 0 := by
  cases fuel with
  | zero => cases h
  | succ fuel =>
    rw [searchPlace, hend, if_neg (by simp)] at h
    exact (Option.some.inj h).symm

/-- A call that puts no entry in the list uses up an id at most. -/
theorem scheduleTask_none (h : scheduleTask fuel sd c = some (sd', none, r)) :
    ∃ id, sd' = { sd with newid := id } ∧ (0 ≤ sd.newid → 0 ≤ id) := by
  unfold scheduleTask at h
  dsimp only at h
  split at h
  · cases h
    exact ⟨sd.newid, rfl, fun hnew => hnew⟩
  · split at h
    · cases h
      exact ⟨sd.newid, rfl, fun hnew => hnew⟩
    · split at h
      · cases h
        exact ⟨sd.newid, rfl, fun hnew => hnew⟩
      · split at h
        · cases h
        · next id hid =>
          have hpos := fun hnew => Int.le_of_lt ((freshId_spec hid).2 hnew)
          split at h
          · cases h
            exact ⟨id, rfl, hpos⟩
          · split at h
            · cases h
              exact ⟨id, rfl, hpos⟩
            · obtain ⟨found, -, hfound⟩ := Option.map_eq_some_iff.mp h
              cases hfound

/-- There is all that a call needs to put its entry in the list. -/
def ScheduleCall.places (c : ScheduleCall) (sd : Scheduler) : Prop :=
  checkValidity c.checkTime c.task = 0 ∧ c.malloc.isSome ∧ c.mutex ∧ c.xdr = 0 ∧
    (sd.entries.length + 2 < sd.maxtasklist ∨ c.realloc.isSome)

instance (c : ScheduleCall) (sd : Scheduler) : Decidable (c.places sd) :=
  inferInstanceAs (Decidable (_ ∧ _))

/-- A call that puts an entry in the list: the list, made longer if there is no room for two more
entries, gets the new entry at the place that the search finds. -/
theorem scheduleTask_some (h : scheduleTask fuel sd c = some (sd', some p, r)) :
    c.places sd ∧ c.malloc = some p ∧
    freshId (sd.entries.map fun q => (sd.infos q).id) fuel sd.newid = some r ∧
    ∃ longer : Scheduler, ∃ found : ℕ,
      (longer = { sd with newid := r } ∧ sd.entries.length + 2 < sd.maxtasklist ∨
        ∃ cells, longer = Scheduler.grow { sd with newid := r } cells) ∧
      searchPlace longer sd.entries.length (newInfo c.task r c.now).info.priority fuel 0
        = some found ∧
      sd' = longer.insert found p (newInfo c.task r c.now) := by
  unfold scheduleTask at h
  dsimp only at h
  split at h
  · cases h
  · next hvalid =>
    split at h
    · cases h
    · next q hmalloc =>
      split at h
      · cases h
      · next hmutex =>
        split at h
        · cases h
        · next id hid =>
          split at h
          · cases h
          · next hxdr =>
            split at h
            · cases h
            · next longer hlonger =>
              obtain ⟨found, hsearch, hfound⟩ := Option.map_eq_some_iff.mp h
              cases hfound
              have hmemory : c.malloc.isSome := Option.isSome_of_mem hmalloc
              have hmutex' : c.mutex := by simpa using hmutex
              split at hlonger
              · obtain ⟨cells, hrealloc, hcells⟩ := Option.map_eq_some_iff.mp hlonger
                refine ⟨⟨not_not.mp hvalid, hmemory, hmutex', not_not.mp hxdr, Or.inr ?_⟩,
                  hmalloc, hid, longer, found, Or.inr ⟨cells, hcells.symm⟩, hsearch, rfl⟩
                exact Option.isSome_of_mem hrealloc
              · next hroom =>
                have hlt : sd.entries.length + 2 < sd.maxtasklist := Nat.lt_of_not_le hroom
                exact ⟨⟨not_not.mp hvalid, hmemory, hmutex', not_not.mp hxdr, Or.inl hlt⟩,
                  hmalloc, hid, longer, found, Or.inl ⟨(Option.some.inj hlonger).symm, hlt⟩,
                  hsearch, rfl⟩

end Schedule

/-! ## The list keeps its shape -/

/-- The list ends with an empty cell within the array, no entry is in it twice, and the ids are
positive and distinct. -/
structure TasklistOk (sd : Scheduler) : Prop where
  holds : Holds sd.tasklist sd.maxtasklist sd.entries
  nodup : sd.entries.Nodup
  ids : (sd.entries.map fun p => (sd.infos p).id).Nodup
  pos : ∀ p ∈ sd.entries, 0 < (sd.infos p).id
  newid : 0 ≤ sd.newid

section Shape

variable {sd sd' : Scheduler} {c : ScheduleCall} {fuel p : ℕ} {r : ℤ}

theorem TasklistOk.same (h : TasklistOk sd) (hsame : SameList sd sd') : TasklistOk sd' where
  holds := by
    rw [hsame.entries, hsame.tasklist, hsame.maxtasklist]
    exact h.holds
  nodup := by
    rw [hsame.entries]
    exact h.nodup
  ids := by
    rw [hsame.entries, List.map_congr_left fun p _ => hsame.id p]
    exact h.ids
  pos := by
    intro p hp
    rw [hsame.id]
    exact h.pos p (hsame.entries ▸ hp)
  newid := hsame.newid h.newid

/-- The array with room for two more entries. -/
theorem TasklistOk.longer (h : TasklistOk sd) {longer : Scheduler}
    (hlonger : longer = { sd with newid := r } ∧ sd.entries.length + 2 < sd.maxtasklist ∨
      ∃ cells, longer = Scheduler.grow { sd with newid := r } cells) :
    Holds longer.tasklist longer.maxtasklist sd.entries ∧
      sd.entries.length + 2 < longer.maxtasklist ∧ longer.infos = sd.infos ∧ longer.newid = r := by
  have hroom := h.holds.room
  obtain ⟨rfl, hlt⟩ | ⟨cells, rfl⟩ := hlonger
  · exact ⟨h.holds, hlt, rfl, rfl⟩
  · have hmax : sd.entries.length + 2 < sd.maxtasklist + initTaskList := by
      unfold initTaskList
      omega
    refine ⟨h.holds.congr ?_ (Nat.lt_of_add_right_lt hmax), hmax, rfl, rfl⟩
    intro i hi
    exact if_pos (show i < sd.maxtasklist by omega)

/-- The new entry is the first one of the list. -/
theorem TasklistOk.entries_schedule (h : TasklistOk sd)
    (hcall : scheduleTask fuel sd c = some (sd', some p, r)) :
    Holds sd'.tasklist sd'.maxtasklist (p :: sd.entries) ∧ sd'.entries = p :: sd.entries ∧
      sd'.infos = Function.update sd.infos p (newInfo c.task r c.now) ∧ sd'.newid = r := by
  obtain ⟨-, -, -, longer, found, hlonger, hsearch, rfl⟩ := scheduleTask_some hcall
  obtain ⟨hholds, hroom, hinfos, hnewid⟩ := h.longer hlonger
  obtain rfl := searchPlace_end hholds.last hsearch
  have hbehind : listedFrom longer.tasklist 0 (longer.maxtasklist - 0) = sd.entries :=
    hholds.listed_eq
  have hinsert := hholds.insert (Nat.zero_le _) (by omega) p
  rw [List.insertIdx_zero] at hinsert
  have hcells : (longer.insert 0 p (newInfo c.task r c.now)).tasklist =
      Function.update (shiftUp 0 (sd.entries.length + 1 - 0) longer.tasklist) 0 (some p) := by
    unfold Scheduler.insert
    rw [hbehind]
    rfl
  have hnew : Holds (longer.insert 0 p (newInfo c.task r c.now)).tasklist longer.maxtasklist
      (p :: sd.entries) := by
    rw [hcells]
    exact hinsert
  refine ⟨hnew, hnew.listed_eq, ?_, hnewid⟩
  show Function.update longer.infos p _ = _
  rw [hinfos]

/-- Scheduling keeps the list in shape. -/
theorem TasklistOk.schedule (h : TasklistOk sd)
    (hcall : scheduleTask fuel sd c = some (sd', some p, r)) (hfresh : p ∉ sd.entries) :
    TasklistOk sd' := by
  obtain ⟨-, -, hid, -⟩ := scheduleTask_some hcall
  obtain ⟨hunused, hpos⟩ := freshId_spec hid
  obtain ⟨hholds, hentries, hinfos, hnewid⟩ := h.entries_schedule hcall
  have hself : (sd'.infos p).id = r := by
    rw [hinfos, Function.update_self]
    rfl
  have hother : ∀ q ∈ sd.entries, sd'.infos q = sd.infos q := by
    intro q hq
    rw [hinfos, Function.update_of_ne]
    intro hqp
    exact hfresh (hqp ▸ hq)
  have hids : (sd.entries.map fun q => (sd'.infos q).id) =
      sd.entries.map fun q => (sd.infos q).id :=
    List.map_congr_left fun q hq => congrArg SchedInfo.id (hother q hq)
  constructor
  · rw [hentries]
    exact hholds
  · rw [hentries]
    exact List.nodup_cons.mpr ⟨hfresh, h.nodup⟩
  · rw [hentries, List.map_cons, hself, hids]
    exact List.nodup_cons.mpr ⟨hunused, h.ids⟩
  · intro q hq
    rw [hentries] at hq
    obtain rfl | hq := List.mem_cons.mp hq
    · rw [hself]
      exact hpos h.newid
    · rw [hother q hq]
      exact h.pos q hq
  · rw [hnewid]
    exact Int.le_of_lt (hpos h.newid)

theorem TasklistOk.entries_retire (h : TasklistOk sd) (realloc : Bool) :
    Holds (deleteRetiredEntries realloc sd).tasklist (deleteRetiredEntries realloc sd).maxtasklist
      (sd.entries.filter fun p => !retired (sd.infos p)) ∧
    (deleteRetiredEntries realloc sd).infos = sd.infos ∧
    (deleteRetiredEntries realloc sd).newid = sd.newid := by
  have hcompact := h.holds.compact fun p => retired (sd.infos p)
  unfold deleteRetiredEntries
  dsimp only
  split
  · next hshort =>
    refine ⟨hcompact.congr (fun _ _ => rfl) ?_, rfl, rfl⟩
    have hlength := hshort.1
    have hlisted : Scheduler.entries { sd with
        tasklist := compactFrom (fun p => retired (sd.infos p)) sd.maxtasklist 0 0 sd.tasklist } =
      sd.entries.filter fun p => !retired (sd.infos p) := hcompact.listed_eq
    rw [hlisted] at hlength
    show _ < sd.maxtasklist - initTaskList
    unfold initTaskList at hlength ⊢
    omega
  · exact ⟨hcompact, rfl, rfl⟩

/-- Deleting marked entries keeps the list in shape. -/
theorem TasklistOk.retire (h : TasklistOk sd) (realloc : Bool) :
    (deleteRetiredEntries realloc sd).entries =
      (sd.entries.filter fun p => !retired (sd.infos p)) ∧
    TasklistOk (deleteRetiredEntries realloc sd) := by
  obtain ⟨hholds, hinfos, hnewid⟩ := h.entries_retire realloc
  have hentries : (deleteRetiredEntries realloc sd).entries =
      sd.entries.filter fun p => !retired (sd.infos p) := hholds.listed_eq
  refine ⟨hentries, ?_⟩
  constructor
  · rw [hentries]
    exact hholds
  · rw [hentries]
    exact h.nodup.filter _
  · rw [hentries, hinfos]
    exact h.ids.sublist (List.filter_sublist.map _)
  · rw [hentries, hinfos]
    intro p hp
    exact h.pos p (List.mem_of_mem_filter hp)
  · rw [hnewid]
    exact h.newid

end Shape

/-! ## Steps and runs -/

def liveAfter (ps : List ℕ) : SchedEvent → List ℕ
  | .scheduled p => p :: ps
  | .deleted qs => ps.filter fun p => p ∉ qs
  | _ => ps

/-- The entries that have been scheduled and not yet deleted. -/
def live (tr : List SchedEvent) : List ℕ := tr.foldl liveAfter []

section Runs

variable {s t : SchedProcess} {a : SchedAction} {e : SchedEvent} {as : List SchedAction}
variable {tr : List SchedEvent} {newid : ℕ} {infos : ℕ → SchedInfo}

/-- What a step does to the list. -/
theorem step_tasklist (h : step s a = some (e, t)) :
    (SameList s.sd t.sd ∧ ∀ ps, liveAfter ps e = ps) ∨
    (∃ fuel c p r, a = .schedule fuel c ∧ e = .scheduled p ∧ p ∉ s.sd.entries ∧
      scheduleTask fuel s.sd c = some (t.sd, some p, r)) ∨
    ∃ realloc, a = .retire realloc ∧
      e = .deleted (s.sd.entries.filter fun p => retired (s.sd.infos p)) ∧
      t.sd = deleteRetiredEntries realloc s.sd := by
  cases stepped h with
  | beat hpc h =>
    left
    obtain ⟨time, rfl, rfl, -⟩ | ⟨-, -, rfl, rfl⟩ := beatStep_cases h
    · exact ⟨.refl _, fun _ => rfl⟩
    · refine ⟨sameList_foldl (fun sd p => ?_) _ _, fun _ => rfl⟩
      exact sameList_modify (static_cleanupEntry _)
  | finishedTags =>
    exact Or.inl ⟨sameList_foldl (sameList_evaluateEntry _ _ _) _ _, fun _ => rfl⟩
  | ready hpc h =>
    left
    obtain ⟨rfl, rfl⟩ | ⟨p, -, ⟨-, rfl, rfl⟩ | ⟨-, rfl, rfl⟩ | ⟨tfirst, -, hstart⟩⟩ :=
      readyStep_cases h
    · exact ⟨.refl _, fun _ => rfl⟩
    · exact ⟨.refl _, fun _ => rfl⟩
    · have hmark : SameList s.sd
          (s.sd.modify p fun info => { info with markForTermination := true }) :=
        sameList_modify rfl
      exact ⟨hmark, fun _ => rfl⟩
    · obtain ⟨hsame, rfl | rfl⟩ := sameList_startEntry hstart
      · exact ⟨hsame, fun _ => rfl⟩
      · exact ⟨hsame, fun _ => rfl⟩
  | returns => exact Or.inl ⟨sameList_modify (static_updateEndOfTask _ _), fun _ => rfl⟩
  | scheduledTags =>
    exact Or.inl ⟨sameList_foldl (sameList_evaluateEntry _ _ _) _ _, fun _ => rfl⟩
  | @retire realloc => exact Or.inr (Or.inr ⟨realloc, rfl, rfl, rfl⟩)
  | retireTags => exact Or.inl ⟨sameList_deleteRetiredTags _ _, fun _ => rfl⟩
  | finish => exact Or.inl ⟨sameList_modify rfl, fun _ => rfl⟩
  | refused hcall =>
    obtain ⟨id, rfl, hpos⟩ := scheduleTask_none hcall
    exact Or.inl ⟨⟨rfl, rfl, fun _ => rfl, hpos⟩, fun _ => rfl⟩
  | scheduled hmalloc hcall =>
    refine Or.inr (Or.inl ⟨_, _, _, _, rfl, rfl, ?_, hcall⟩)
    exact hmalloc _ (scheduleTask_some hcall).2.1
  | remove =>
    refine Or.inl ⟨sameList_foldl (fun sd p => ?_) _ _, fun _ => rfl⟩
    exact sameList_modify rfl
  | setTag => exact Or.inl ⟨⟨rfl, rfl, fun _ => rfl, fun hpos => hpos⟩, fun _ => rfl⟩

/-- The empty list at the start. -/
theorem holds_init (newid : ℕ) (infos : ℕ → SchedInfo) :
    Holds (init newid infos).sd.tasklist (init newid infos).sd.maxtasklist [] := by
  refine ⟨fun _ _ => rfl, ?_⟩
  show 0 < initTaskList
  exact Nat.succ_pos _

theorem tasklistOk_init (newid : ℕ) (infos : ℕ → SchedInfo) : TasklistOk (init newid infos).sd := by
  have hentries : (init newid infos).sd.entries = [] := (holds_init newid infos).listed_eq
  constructor
  · rw [hentries]
    exact holds_init newid infos
  · rw [hentries]
    exact List.nodup_nil
  · rw [hentries]
    exact List.nodup_nil
  · rw [hentries]
    exact nofun
  · exact Int.natCast_nonneg newid

theorem TasklistOk.step (h : TasklistOk s.sd) (hstep : step s a = some (e, t)) :
    TasklistOk t.sd := by
  obtain ⟨hsame, -⟩ | ⟨fuel, c, p, r, rfl, rfl, hfresh, hcall⟩ | ⟨realloc, rfl, -, hsd⟩ :=
    step_tasklist hstep
  · exact h.same hsame
  · exact h.schedule hcall hfresh
  · rw [hsd]
    exact (h.retire realloc).2

/-- The list has just the entries that are scheduled and not yet deleted. -/
theorem TasklistOk.step_live (h : TasklistOk s.sd) (hlive : s.sd.entries = live tr)
    (hstep : Sched.step s a = some (e, t)) : t.sd.entries = live (tr ++ [e]) := by
  rw [live, List.foldl_append, ← live, ← hlive]
  show _ = liveAfter _ e
  obtain ⟨hsame, hsilent⟩ | ⟨fuel, c, p, r, rfl, rfl, hfresh, hcall⟩ | ⟨realloc, rfl, rfl, hsd⟩ :=
    step_tasklist hstep
  · rw [hsilent, hsame.entries]
  · exact (h.entries_schedule hcall).2.1
  · rw [hsd, (h.retire realloc).1]
    show _ = s.sd.entries.filter _
    apply List.filter_congr
    intro p hp
    simp [hp]

theorem tasklistOk_run (h : run step (init newid infos) as = some (tr, s)) :
    TasklistOk s.sd ∧ s.sd.entries = live tr := by
  refine run_induction (fun tr s => TasklistOk s.sd ∧ s.sd.entries = live tr) ?_
    ⟨tasklistOk_init newid infos, ?_⟩ h
  · intro tr s a _ e t hs hstep
    exact ⟨hs.1.step hstep, hs.1.step_live hs.2 hstep⟩
  · exact (holds_init newid infos).listed_eq

end Runs

/-! ## The order of priority -/

/-- `p` stands behind all of `ps` with at least its priority and in front of the first one with a
smaller priority. -/
def PlacedByPriority (priority : ℕ → ℤ) (ps : List ℕ) (p : ℕ) (ps' : List ℕ) : Prop :=
  ∃ before after, ps = before ++ after ∧ ps' = before ++ p :: after ∧
    (∀ q ∈ before, priority p ≤ priority q) ∧ ∀ q ∈ after, priority q < priority p

/-- The entries stand in the order of priority, the largest number first. -/
def InPriorityOrder (sd : Scheduler) : Prop :=
  sd.entries.Pairwise fun p q => (sd.infos q).info.priority ≤ (sd.infos p).info.priority

/-- The priority that an entry gets. -/
def newPriority (task : SchedulerTask) : ℤ :=
  if task.has schedPriorityUser then task.priority else schedPrMed

/-- A new entry has a larger number than all in the list. -/
def newFirst (s : SchedProcess) : SchedAction → Prop
  | .schedule _ c => c.places s.sd → ∀ q ∈ s.sd.entries,
      (s.sd.infos q).info.priority < newPriority c.task
  | _ => True

instance (s : SchedProcess) (a : SchedAction) : Decidable (newFirst s a) :=
  match a with
  | .schedule .. => inferInstanceAs (Decidable (_ → _))
  | .beat _ | .finishedTags _ | .ready .. | .returns _ | .scheduledTags _ | .retire _ | .retireTags
  | .finish .. | .remove .. | .setTag .. => .isTrue trivial

section Priority

variable {s t : SchedProcess} {sd sd' : Scheduler} {a : SchedAction} {e : SchedEvent} {p : ℕ}
variable {c : ScheduleCall} {fuel : ℕ} {r : ℤ} {as : List SchedAction} {tr : List SchedEvent}
variable {newid : ℕ} {infos : ℕ → SchedInfo}

theorem newInfo_priority (task : SchedulerTask) (id now : ℤ) :
    (newInfo task id now).info.priority = newPriority task := by
  have hflag : (if task.has schedWait then task
      else { task with synctype := schedSyncNext, waittype := schedWaitImmediate }).priority =
        task.priority := by
    split
    · rfl
    · rfl
  unfold newInfo newPriority
  dsimp only
  split
  · exact hflag
  · rfl

/-- A list without `p` gets `p` in front. -/
theorem placedByPriority_front {priority : ℕ → ℤ} {ps : List ℕ} (hp : p ∉ ps) :
    PlacedByPriority priority ps p (p :: ps) ↔ ∀ q ∈ ps, priority q < priority p := by
  constructor
  · rintro ⟨before, after, hps, hps', -, hafter⟩
    cases before with
    | nil =>
      rw [hps]
      exact hafter
    | cons q before =>
      -- then `p` would be the first one of `ps`
      obtain ⟨rfl, -⟩ := List.cons.inj hps'
      exact absurd (hps ▸ List.mem_cons_self) hp
  · intro hlarger
    exact ⟨[], ps, rfl, rfl, nofun, hlarger⟩

/-- The infos after a call, as far as the priorities go. -/
theorem TasklistOk.priority_schedule (h : TasklistOk sd)
    (hcall : scheduleTask fuel sd c = some (sd', some p, r)) (hfresh : p ∉ sd.entries) :
    (sd'.infos p).info.priority = newPriority c.task ∧
      ∀ q ∈ sd.entries, (sd'.infos q).info = (sd.infos q).info := by
  obtain ⟨-, -, hinfos, -⟩ := h.entries_schedule hcall
  constructor
  · rw [hinfos, Function.update_self]
    exact newInfo_priority _ _ _
  · intro q hq
    rw [hinfos, Function.update_of_ne]
    intro hqp
    exact hfresh (hqp ▸ hq)

/-- A new entry gets its place by priority just when it belongs at the front. -/
theorem placed_iff (h : TasklistOk s.sd) (hstep : step s a = some (.scheduled p, t)) :
    PlacedByPriority (fun q => (t.sd.infos q).info.priority) s.sd.entries p t.sd.entries ↔
      newFirst s a := by
  obtain ⟨-, hsilent⟩ | ⟨fuel, c, q, r, rfl, he, hfresh, hcall⟩ | ⟨realloc, -, he, -⟩ :=
    step_tasklist hstep
  · exact absurd (hsilent []) (List.cons_ne_nil _ _)
  · obtain rfl : p = q := SchedEvent.scheduled.inj he
    obtain ⟨hself, hother⟩ := h.priority_schedule hcall hfresh
    rw [(h.entries_schedule hcall).2.1, placedByPriority_front hfresh]
    show _ ↔ (c.places s.sd → _)
    have hplaces : c.places s.sd := (scheduleTask_some hcall).1
    constructor
    · intro hlarger _ q hq
      rw [← hself, ← hother q hq]
      exact hlarger q hq
    · intro hlarger q hq
      rw [hself, hother q hq]
      exact hlarger hplaces q hq
  · cases he

theorem InPriorityOrder.step (h : TasklistOk s.sd) (hs : InPriorityOrder s.sd)
    (hstep : Sched.step s a = some (e, t)) (hfirst : newFirst s a) : InPriorityOrder t.sd := by
  unfold InPriorityOrder
  obtain ⟨hsame, -⟩ | ⟨fuel, c, p, r, rfl, rfl, hfresh, hcall⟩ | ⟨realloc, rfl, -, hsd⟩ :=
    step_tasklist hstep
  · rw [hsame.entries]
    apply hs.imp
    intro p q hpq
    rw [hsame.info, hsame.info]
    exact hpq
  · obtain ⟨hself, hother⟩ := h.priority_schedule hcall hfresh
    rw [(h.entries_schedule hcall).2.1, List.pairwise_cons]
    constructor
    · intro q hq
      rw [hself, hother q hq]
      exact Int.le_of_lt (hfirst (scheduleTask_some hcall).1 q hq)
    · apply hs.imp_of_mem
      intro p q hp hq hpq
      rw [hother p hp, hother q hq]
      exact hpq
  · rw [hsd, (h.retire realloc).1, (h.entries_retire realloc).2.1]
    exact hs.filter _

/-- In every run the list keeps its shape: it ends with an empty cell within the array, it has just
the entries that have been scheduled and not yet deleted, none of them twice, and their ids are
positive and distinct. -/
theorem tasklist_shape (h : run step (init newid infos) as = some (tr, s)) :
    Holds s.sd.tasklist s.sd.maxtasklist s.sd.entries ∧
    s.sd.entries.Nodup ∧ (∀ p, p ∈ s.sd.entries ↔ p ∈ live tr) ∧
    (s.sd.entries.map fun p => (s.sd.infos p).id).Nodup ∧
    (∀ p ∈ s.sd.entries, 0 < (s.sd.infos p).id) ∧
    (run (restrict newFirst step) (init newid infos) as = some (tr, s) →
      InPriorityOrder s.sd) ∧
    ∀ a p t, step s a = some (.scheduled p, t) →
      (PlacedByPriority (fun q => (t.sd.infos q).info.priority) s.sd.entries p t.sd.entries ↔
        newFirst s a) := by
  obtain ⟨hok, hlive⟩ := tasklistOk_run h
  refine ⟨hok.holds, hok.nodup, fun p => by rw [hlive], hok.ids, hok.pos, ?_, ?_⟩
  · intro hrun
    have hempty : (init newid infos).sd.entries = [] := (holds_init newid infos).listed_eq
    have hinit : TasklistOk (init newid infos).sd ∧ InPriorityOrder (init newid infos).sd := by
      refine ⟨tasklistOk_init newid infos, ?_⟩
      unfold InPriorityOrder
      rw [hempty]
      exact List.Pairwise.nil
    refine (run_invariant (fun s => TasklistOk s.sd ∧ InPriorityOrder s.sd) ?_ hinit hrun).2
    intro s a _ e t hs hstep
    obtain ⟨hfirst, hstep⟩ := restrict_eq_some.mp hstep
    exact ⟨hs.1.step hstep, hs.2.step hs.1 hstep hfirst⟩
  · intro a p t hstep
    exact placed_iff hok hstep

end Priority

/-! ## Two entries -/

/-- A task that is called once, at once. -/
def plainTask : SchedulerTask :=
  ⟨0, 0, 0, 0, [], 0, 0, 0, 0, [], 0, 0, 0, 0, 0, 0, true⟩

/-- The memory before anything is in it. -/
def blankInfos : ℕ → SchedInfo := fun _ => newInfo plainTask 0 0

/-- A call with the memory `p` and all else it needs. -/
def callAt (task : SchedulerTask) (p : ℕ) (now : ℤ) : ScheduleCall :=
  ⟨task, now, now, some p, true, 0, none⟩

/-- The same with a priority below the default one, which is 12. -/
def lowTask : SchedulerTask := { plainTask with flag := schedPriorityUser, priority := 1 }

def twoCalls (first second : SchedulerTask) : List SchedAction :=
  [.schedule 9 (callAt first 0 0), .schedule 9 (callAt second 1 0)]

theorem tasklist_shape_twoCalls :
    ∃ tr s, run step (init 0 blankInfos) (twoCalls lowTask plainTask) = some (tr, s) ∧
      Holds s.sd.tasklist s.sd.maxtasklist [1, 0] ∧ InPriorityOrder s.sd := by
  have hrun : ∃ tr s, run step (init 0 blankInfos) (twoCalls lowTask plainTask) = some (tr, s) ∧
      run (restrict newFirst step) (init 0 blankInfos) (twoCalls lowTask plainTask) =
        some (tr, s) ∧ s.sd.entries = [1, 0] := ⟨_, _, rfl, rfl, rfl⟩
  obtain ⟨tr, s, hrun, hfirst, hentries⟩ := hrun
  obtain ⟨hholds, -, -, -, -, horder, -⟩ := tasklist_shape hrun
  exact ⟨tr, s, hrun, hentries ▸ hholds, horder hfirst⟩

/-- The entry with priority 1 stands in front of the one with the default priority 12. -/
theorem twoCalls_not_inPriorityOrder :
    ¬ ∀ newid infos as tr s, run step (init newid infos) as = some (tr, s) →
      InPriorityOrder s.sd := by
  have hrun : ∃ tr s, run step (init 0 blankInfos) (twoCalls plainTask lowTask) = some (tr, s) ∧
      s.sd.entries = [1, 0] ∧ (s.sd.infos 1).info.priority = 1 ∧
      (s.sd.infos 0).info.priority = 12 := ⟨_, _, rfl, rfl, rfl, rfl⟩
  intro h
  obtain ⟨tr, s, hrun, hentries, hone, hdefault⟩ := hrun
  have horder := h 0 blankInfos (twoCalls plainTask lowTask) tr s hrun
  unfold InPriorityOrder at horder
  rw [hentries] at horder
  have hle := List.rel_of_pairwise_cons horder (List.mem_singleton_self 0)
  omega

end AdvLigoRts.Gds.Sched
