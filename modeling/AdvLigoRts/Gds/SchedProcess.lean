import AdvLigoRts.Gds.Sched
import AdvLigoRts.Lib.Machine
import AdvLigoRts.Lib.NullList
import Mathlib.Data.List.FinRange

/-!
# The scheduler process

`schedulerProcess` and what runs beside it: threads of asynchronous entries that end, and callers
of `scheduleTask`, `removeScheduledTask` and `setSchedulerTag`, which wait for the mutex of the
scheduler. `Pc` is the place of the process in its loop. The process holds the mutex within a
function of a pass and gives it back for a synchronous call. A thread that ends does not need the
mutex; within one function it makes no difference at which of its entries a thread ends, so that
the functions other than `scheduleReadyTasks` are one step. `evaluateTags` gives the mutex back for
the notify routine of a tag as well; what others do then commutes with its loop over the entries
and comes behind it here.

An entry is a pointer, and `infos` is what the pointers point to.
-/

namespace AdvLigoRts.Gds.Sched

open PvLib

def initTaskList : ℕ := 1000

/-- `scheduler_t`. -/
structure Scheduler where
  tasklist : ℕ → Option ℕ
  maxtasklist : ℕ
  infos : ℕ → SchedInfo
  timetaglist : List TimeTag
  newid : ℤ

def Scheduler.entries (sd : Scheduler) : List ℕ := listed sd.tasklist sd.maxtasklist

/-- The record of an entry is changed. -/
def Scheduler.modify (sd : Scheduler) (p : ℕ) (f : SchedInfo → SchedInfo) : Scheduler :=
  { sd with infos := Function.update sd.infos p (f (sd.infos p)) }

/-! ## Scheduling -/

/-- What a call of `_scheduleTask` finds: the time at its check and at the entry's start, the
memory for the entry, whether its mutex is there, what the XDR conversion returns, and longer
memory for the list with its new cells. -/
structure ScheduleCall where
  task : SchedulerTask
  checkTime : ℤ
  now : ℤ
  malloc : Option ℕ
  mutex : Bool
  xdr : ℤ
  realloc : Option (ℕ → Option ℕ)

/-- The record of a new entry. -/
def newInfo (task : SchedulerTask) (id now : ℤ) : SchedInfo :=
  let info := if task.has schedWait then task
    else { task with synctype := schedSyncNext, waittype := schedWaitImmediate }
  let info := if task.has schedPriorityUser then info else { info with priority := schedPrMed }
  { info := info
    id := id
    markForTermination := false
    firstScheduled := 0
    firstFinished := 0
    lastFinished := 0
    runningtasks := 0
    repeatN := if task.has schedRepeat ∧ task.repeattype = schedRepeatN then task.repeatval else 0
    tinit := now
    tfirst := 0
    tasks := fun _ => { valid := false, terminated := false, result := 0 } }

/-- The loop for an id that no entry has. -/
def freshId (ids : List ℤ) : ℕ → ℤ → Option ℤ
  | 0, _ => none
  | fuel + 1, newid =>
    let newid := if newid > 1000000 then 1 else newid + 1
    if newid ∈ ids then freshId ids fuel newid else some newid

/-- The list is made longer. -/
def Scheduler.grow (sd : Scheduler) (cells : ℕ → Option ℕ) : Scheduler :=
  { sd with
    tasklist := fun i => if i < sd.maxtasklist then sd.tasklist i else cells i
    maxtasklist := sd.maxtasklist + initTaskList }

/-- The search for the place of an entry with this priority; `indx` stays where it is. -/
def searchPlace (sd : Scheduler) (indx : ℕ) (priority : ℤ) : ℕ → ℕ → Option ℕ
  | 0, _ => none
  | fuel + 1, found =>
    if indx < sd.maxtasklist ∧
        (sd.tasklist indx).any fun p => (sd.infos p).info.priority ≥ priority then
      searchPlace sd indx priority fuel (found + 1)
    else some found

/-- The entry is put at the place `found`, and those from there on move up. -/
def Scheduler.insert (sd : Scheduler) (found p : ℕ) (new : SchedInfo) : Scheduler :=
  let behind := listedFrom sd.tasklist found (sd.maxtasklist - found)
  { sd with
    tasklist :=
      Function.update (shiftUp found (behind.length + 1) sd.tasklist) found (some p)
    infos := Function.update sd.infos p new }

/-- `_scheduleTask`: the entry that is put in the list, if one is, and what is returned. -/
def scheduleTask (fuel : ℕ) (sd : Scheduler) (c : ScheduleCall) :
    Option (Scheduler × Option ℕ × ℤ) :=
  let err := checkValidity c.checkTime c.task
  if err ≠ 0 then some (sd, none, err)
  else
    match c.malloc with
    | none => some (sd, none, -3)
    | some p =>
      if !c.mutex then some (sd, none, -4)
      else
        match freshId (sd.entries.map fun q => (sd.infos q).id) fuel sd.newid with
        | none => none
        | some id =>
          let sd := { sd with newid := id }
          let new := newInfo c.task id c.now
          if c.xdr ≠ 0 then some (sd, none, if c.xdr < 0 then c.xdr else id)
          else
            let indx := sd.entries.length
            let longer := if indx + 2 ≥ sd.maxtasklist then c.realloc.map sd.grow else some sd
            match longer with
            | none => some (sd, none, -3)
            | some sd =>
              (searchPlace sd indx new.info.priority fuel 0).map fun found =>
                (sd.insert found p new, some p, id)

/-- The entry is marked for termination, and its threads are cancelled if that is asked for;
`cancelled` says where that works. -/
def markRemoved (terminate : ℤ) (cancelled : Fin maxTasks → Bool) (info : SchedInfo) :
    SchedInfo :=
  { info with
    markForTermination := true
    tasks := fun i =>
      if info.info.has schedAsync ∧ terminate = 0 ∧ (info.tasks i).valid ∧ cancelled i then
        { info.tasks i with terminated := true }
      else info.tasks i }

/-- The entries that `_removeScheduledTask` removes. -/
def Scheduler.removals (sd : Scheduler) (id : ℤ) : List ℕ :=
  sd.entries.filter fun p => id < 0 ∨ (sd.infos p).id = id

def removeScheduledTask (sd : Scheduler) (id terminate : ℤ)
    (cancelled : ℕ → Fin maxTasks → Bool) : Scheduler :=
  (sd.removals id).foldl (fun sd p => sd.modify p (markRemoved terminate (cancelled p))) sd

/-! ## The functions of a pass -/

/-- The return value of an instance ends the series of the entry. -/
def endsSeries (info : SchedInfo) (result : ℤ) : Bool :=
  if info.info.has schedRepeat then
    (info.info.repeattype = schedRepeatCond && result ≠ 0) ||
      (info.info.repeattype = schedRepeatN && info.repeatN ≤ 0)
  else true

def updateEndOfTask (info : SchedInfo) (result : ℤ) : SchedInfo :=
  let info := { info with
    firstFinished := if info.firstFinished = 0 then 1 else info.firstFinished }
  if endsSeries info result then { info with lastFinished := 1, markForTermination := true }
  else info

/-- The thread has ended and has not been collected. -/
def SchedTask.finished (task : SchedTask) : Bool := task.valid && task.terminated

/-- The body of the loop of `cleanupFinishedTasks` over the threads of an entry. -/
def cleanupTask (info : SchedInfo) (i : Fin maxTasks) : SchedInfo :=
  if (info.tasks i).finished then
    let info := updateEndOfTask info (info.tasks i).result
    { info with
      tasks := Function.update info.tasks i { info.tasks i with valid := false }
      runningtasks := info.runningtasks - 1 }
  else info

/-- The threads of an entry that have finished are collected. -/
def cleanupEntry (info : SchedInfo) : SchedInfo :=
  (List.finRange maxTasks).foldl cleanupTask info

def cleanupFinishedTasks (sd : Scheduler) : Scheduler :=
  sd.entries.foldl (fun sd p => sd.modify p cleanupEntry) sd

/-- The number of threads of an entry of this kind. -/
def SchedInfo.countTasks (info : SchedInfo) (kind : SchedTask → Bool) : ℕ :=
  (List.finRange maxTasks).countP fun i => kind (info.tasks i)

/-- The entries whose threads are collected, once for each thread. -/
def finishedEntries (sd : Scheduler) : List ℕ :=
  sd.entries.flatMap fun p => List.replicate ((sd.infos p).countTasks SchedTask.finished) p

/-- `evaluateTags` sets the tag of the entry; `finished` is its `tagtype`. -/
def tagDue (finished : Bool) (info : SchedInfo) : Bool :=
  info.info.has schedTimetag &&
    ((info.info.tagtype = schedTagStart && !finished && info.firstScheduled = 1) ||
      (info.info.tagtype = schedTagEnd && finished && info.firstFinished = 1) ||
      (info.info.tagtype = schedTagLast && finished && info.lastFinished = 1))

/-- A flag of an entry that `evaluateTags` has looked at. -/
def seen (flag : ℕ) : ℕ := if flag = 1 then 2 else flag

/-- The flags of an entry that `evaluateTags` has looked at. -/
def markTags (finished : Bool) (info : SchedInfo) : SchedInfo :=
  if !info.info.has schedTimetag then info
  else if finished then
    { info with
      firstFinished := seen info.firstFinished
      lastFinished := seen info.lastFinished }
  else { info with firstScheduled := seen info.firstScheduled }

/-- The body of the loop of `evaluateTags`. -/
def evaluateEntry (finished : Bool) (time : SchedTime) (accept : List Char → Bool)
    (sd : Scheduler) (p : ℕ) : Scheduler :=
  let tag := (sd.infos p).info.timetag
  let timetaglist := if tagDue finished (sd.infos p) ∧ accept tag then
    setTag sd.timetaglist tag time.tai time.epoch else sd.timetaglist
  { sd.modify p (markTags finished) with timetaglist := timetaglist }

def evaluateTags (finished : Bool) (time : SchedTime) (accept : List Char → Bool)
    (sd : Scheduler) : Scheduler :=
  sd.entries.foldl (evaluateEntry finished time accept) sd

/-- The entries whose tags `evaluateTags` sets. -/
def taggedEntries (finished : Bool) (sd : Scheduler) : List ℕ :=
  sd.entries.filter fun p => tagDue finished (sd.infos p)

/-- The counters of an entry that is started. -/
def startInfo (tfirst : ℤ) (info : SchedInfo) : SchedInfo :=
  { info with
    repeatN := if info.info.has schedRepeat ∧ info.info.repeattype = schedRepeatN then
      info.repeatN - 1 else info.repeatN
    runningtasks := info.runningtasks + 1
    tfirst := if tfirst ≠ -1 then tfirst else info.tfirst
    firstScheduled := if info.firstScheduled = 0 then 1 else info.firstScheduled }

/-- A slot for a thread. -/
def freeTask (info : SchedInfo) : Option (Fin maxTasks) :=
  (List.finRange maxTasks).find? fun i => !(info.tasks i).valid

/-- The slot `i` is prepared for a thread. -/
def prepareTask (i : Fin maxTasks) (valid : Bool) (info : SchedInfo) : SchedInfo :=
  { info with
    tasks := Function.update info.tasks i
      { valid := valid, terminated := false, result := 0 } }

/-- The return of a synchronous call. -/
def returnInfo (result : ℤ) (info : SchedInfo) : SchedInfo :=
  updateEndOfTask { info with runningtasks := info.runningtasks - 1 } result

/-- The entry is marked, has no running task, and its tags are processed. -/
def retired (info : SchedInfo) : Bool :=
  info.markForTermination && info.runningtasks = 0 &&
    (!info.info.has schedTimetag ||
      (info.firstScheduled ≠ 1 && info.firstFinished ≠ 1 && info.lastFinished ≠ 1))

/-- `deleteRetiredEntries`; `realloc` says that the list can be made shorter. -/
def deleteRetiredEntries (realloc : Bool) (sd : Scheduler) : Scheduler :=
  let sd := { sd with
    tasklist := compactFrom (fun p => retired (sd.infos p)) sd.maxtasklist 0 0 sd.tasklist }
  if (sd.entries.length : ℤ) < sd.maxtasklist - 2 * initTaskList ∧ realloc then
    { sd with maxtasklist := sd.maxtasklist - initTaskList }
  else sd

def waitsForTag (info : SchedulerTask) : Bool :=
  info.has schedWait && info.waittype ∉
    [schedWaitImmediate, schedWaitTimedelay, schedWaitEpochdelay, schedWaitStarttime]

/-- `deleteRetiredTags`, with the tag to be tested next. -/
def deleteRetiredTags (sd : Scheduler) (testtag : ℕ) : Scheduler × ℕ :=
  match sd.timetaglist[testtag]? with
  | none => (sd, 0)
  | some ltag =>
    let found := sd.entries.any fun p =>
      waitsForTag (sd.infos p).info && sameTag ltag.tag (sd.infos p).info.waittag
    let (sd, testtag) :=
      if found then (sd, testtag + 1)
      else ({ sd with timetaglist := deleteTag sd.timetaglist ltag.tag }, testtag)
    (sd, if testtag < sd.timetaglist.length then testtag else 0)

/-! ## The process -/

/-- Where the process is: at the heartbeat, in front of a function of a pass, in
`scheduleReadyTasks` at an entry, or in its synchronous call of the entry `p`. -/
inductive Pc where
  | sync
  | finishedTags
  | ready (indx : ℕ)
  | call (indx p : ℕ)
  | scheduledTags
  | retire
  | retireTags
deriving DecidableEq, Repr

def Pc.mutexFree : Pc → Bool
  | .ready indx => indx = 0
  | _ => true

/-- The scheduler and the place of its process. -/
structure SchedProcess where
  sd : Scheduler
  time : SchedTime
  synclist : ℤ → Bool
  testtag : ℕ
  pc : Pc

/-- What happens: the process goes on, a thread ends, or others call the scheduler. -/
inductive SchedAction where
  | beat (now : ℤ)
  | finishedTags (accept : List Char → Bool)
  | ready (fuel : ℕ) (spawned : Bool)
  | returns (result : ℤ)
  | scheduledTags (accept : List Char → Bool)
  | retire (realloc : Bool)
  | retireTags
  | finish (p : ℕ) (i : Fin maxTasks) (result : ℤ)
  | schedule (fuel : ℕ) (c : ScheduleCall)
  | remove (id terminate : ℤ) (cancelled : ℕ → Fin maxTasks → Bool)
  | setTag (tag : List Char) (tagtime : ℤ) (accept : Bool)

/-- What is seen of a step: entries whose threads are collected, whose tags are set, that are
started, return, time out, are scheduled, removed or deleted. -/
inductive SchedEvent where
  | idle
  | finished (ps : List ℕ)
  | tags (ps : List ℕ)
  | started (p : ℕ)
  | returned (p : ℕ)
  | timedOut (p : ℕ)
  | scheduled (p : ℕ)
  | removed (ps : List ℕ)
  | deleted (ps : List ℕ)
deriving DecidableEq, Repr

/-- The body of the loop of `scheduleReadyTasks` on the entry `p`, which is ready. -/
def startEntry (s : SchedProcess) (indx p : ℕ) (tfirst : ℤ) (spawned : Bool) :
    SchedEvent × SchedProcess :=
  let info := s.sd.infos p
  if !info.info.has schedAsync then
    (.started p, { s with sd := s.sd.modify p (startInfo tfirst), pc := .call indx p })
  else
    match freeTask info with
    | none => (.idle, { s with pc := .ready (indx + 1) })
    | some i =>
      let sd := s.sd.modify p (prepareTask i spawned)
      if spawned then
        (.started p, { s with sd := sd.modify p (startInfo tfirst), pc := .ready (indx + 1) })
      else (.idle, { s with sd := sd, pc := .ready (indx + 1) })

/-- The loop of `scheduleReadyTasks` at `indx`; `none` is a search without end or a fault. -/
def readyStep (s : SchedProcess) (indx fuel : ℕ) (spawned : Bool) :
    Option (SchedEvent × SchedProcess) :=
  match if indx < s.sd.maxtasklist then s.sd.tasklist indx else none with
  | none => some (.idle, { s with pc := .scheduledTags })
  | some p =>
    match isTaskReady fuel s.sd.timetaglist (s.sd.infos p) s.time s.synclist with
    | some (.ok (.ready tfirst)) => some (startEntry s indx p tfirst spawned)
    | some (.ok .timedOut) =>
      some (.timedOut p, { s with
        sd := s.sd.modify p fun info => { info with markForTermination := true }
        pc := .ready (indx + 1) })
    | some (.ok .notReady) => some (.idle, { s with pc := .ready (indx + 1) })
    | _ => none

/-- A heartbeat: the pass begins with `cleanupFinishedTasks`, unless there is no entry or the
time is not valid. -/
def beatStep (s : SchedProcess) (now : ℤ) : SchedEvent × SchedProcess :=
  if s.sd.tasklist 0 = none then (.idle, s)
  else
    let s := { s with time := s.time.beat now }
    if s.time.tnow < minTime * numberOfEpochs then (.idle, s)
    else (.finished (finishedEntries s.sd),
      { s with sd := cleanupFinishedTasks s.sd, pc := .finishedTags })

/-- A thread ends: its function returns. -/
def finishTask (i : Fin maxTasks) (result : ℤ) (info : SchedInfo) : SchedInfo :=
  { info with
    tasks := Function.update info.tasks i
      { info.tasks i with result := result, terminated := true } }

def step (s : SchedProcess) : SchedAction → Option (SchedEvent × SchedProcess)
  | .beat now => if s.pc = .sync then some (beatStep s now) else none
  | .finishedTags accept =>
    if s.pc = .finishedTags then
      some (.tags (taggedEntries true s.sd), { s with
        sd := evaluateTags true s.time accept s.sd
        synclist := synclist s.time
        pc := .ready 0 })
    else none
  | .ready fuel spawned =>
    match s.pc with
    | .ready indx => readyStep s indx fuel spawned
    | _ => none
  | .returns result =>
    match s.pc with
    | .call indx p => some (.returned p, { s with
        sd := s.sd.modify p (returnInfo result), pc := .ready (indx + 1) })
    | _ => none
  | .scheduledTags accept =>
    if s.pc = .scheduledTags then
      some (.tags (taggedEntries false s.sd), { s with
        sd := evaluateTags false s.time accept s.sd, pc := .retire })
    else none
  | .retire realloc =>
    if s.pc = .retire then
      some (.deleted (s.sd.entries.filter fun p => retired (s.sd.infos p)), { s with
        sd := deleteRetiredEntries realloc s.sd, pc := .retireTags })
    else none
  | .retireTags =>
    if s.pc = .retireTags then
      let r := deleteRetiredTags s.sd s.testtag
      some (.idle, { s with sd := r.1, testtag := r.2, time := s.time.close, pc := .sync })
    else none
  | .finish p i result =>
    let task := (s.sd.infos p).tasks i
    if p ∈ s.sd.entries ∧ task.valid ∧ !task.terminated then
      some (.idle, { s with sd := s.sd.modify p (finishTask i result) })
    else none
  | .schedule fuel c =>
    -- memory that `malloc` returns is not that of an entry in the list
    if s.pc.mutexFree ∧ ∀ p ∈ c.malloc, p ∉ s.sd.entries then
      match scheduleTask fuel s.sd c with
      | none => none
      | some (sd, none, _) => some (.idle, { s with sd := sd })
      | some (sd, some p, _) => some (.scheduled p, { s with sd := sd })
    else none
  | .remove id terminate cancelled =>
    if s.pc.mutexFree then
      some (.removed (s.sd.removals id), { s with
        sd := removeScheduledTask s.sd id terminate cancelled })
    else none
  | .setTag tag tagtime accept =>
    if s.pc.mutexFree then
      let (tai, epoch) := tagTime tagtime
      let tags := if accept then setTag s.sd.timetaglist tag tai epoch else s.sd.timetaglist
      some (.idle, { s with sd := { s.sd with timetaglist := tags } })
    else none

/-- `createScheduler`, at the start of its process; `infos` is the memory as it is. -/
def init (newid : ℕ) (infos : ℕ → SchedInfo) : SchedProcess where
  sd := ⟨fun _ => none, initTaskList, infos, [], newid⟩
  time := ⟨0, 0, 0, 0, 0, -1, 0⟩
  synclist := fun _ => false
  testtag := 0
  pc := .sync

/-! ## What a step does -/

section Cases

variable {s t : SchedProcess} {e : SchedEvent} {indx fuel : ℕ} {spawned : Bool} {now : ℤ}

/-- A heartbeat without a pass changes the time at most. -/
theorem beatStep_cases (h : beatStep s now = (e, t)) :
    (∃ time, e = .idle ∧ t = { s with time := time } ∧
      (time = s.time ∧ s.sd.tasklist 0 = none ∨
        time = s.time.beat now ∧ time.tnow < minTime * numberOfEpochs)) ∨
    (s.sd.tasklist 0 ≠ none ∧ minTime * numberOfEpochs ≤ (s.time.beat now).tnow ∧
      e = .finished (finishedEntries s.sd) ∧
      t = { s with
        sd := cleanupFinishedTasks s.sd, time := s.time.beat now, pc := .finishedTags }) := by
  unfold beatStep at h
  split at h
  · next hempty =>
    cases h
    exact Or.inl ⟨_, rfl, rfl, Or.inl ⟨rfl, hempty⟩⟩
  · next hentry =>
    dsimp only at h
    split at h
    · next hearly =>
      cases h
      exact Or.inl ⟨_, rfl, rfl, Or.inr ⟨rfl, hearly⟩⟩
    · next hvalid =>
      cases h
      exact Or.inr ⟨hentry, Int.not_lt.mp hvalid, rfl, rfl⟩

/-- The loop over the entries ends, or it comes to an entry, which is not ready, has timed out or
is ready. -/
theorem readyStep_cases (h : readyStep s indx fuel spawned = some (e, t)) :
    (e = .idle ∧ t = { s with pc := .scheduledTags }) ∨
    ∃ p, s.sd.tasklist indx = some p ∧
      ((isTaskReady fuel s.sd.timetaglist (s.sd.infos p) s.time s.synclist = some (.ok .notReady) ∧
          e = .idle ∧ t = { s with pc := .ready (indx + 1) }) ∨
        (isTaskReady fuel s.sd.timetaglist (s.sd.infos p) s.time s.synclist =
            some (.ok .timedOut) ∧ e = .timedOut p ∧
          t = { s with
            sd := s.sd.modify p fun info => { info with markForTermination := true }
            pc := .ready (indx + 1) }) ∨
        ∃ tfirst, isTaskReady fuel s.sd.timetaglist (s.sd.infos p) s.time s.synclist =
            some (.ok (.ready tfirst)) ∧ startEntry s indx p tfirst spawned = (e, t)) := by
  unfold readyStep at h
  split at h
  · cases h
    exact Or.inl ⟨rfl, rfl⟩
  · next p hp =>
    have hcell : s.sd.tasklist indx = some p := by
      split at hp
      · exact hp
      · cases hp
    refine Or.inr ⟨p, hcell, ?_⟩
    split at h
    · next tfirst hready => exact Or.inr (Or.inr ⟨tfirst, hready, Option.some.inj h⟩)
    · next hready =>
      cases h
      exact Or.inr (Or.inl ⟨hready, rfl, rfl⟩)
    · next hready =>
      cases h
      exact Or.inl ⟨hready, rfl, rfl⟩
    · cases h

/-- A ready entry is called, or a thread is started for it if there is a slot and the system has
one. -/
theorem startEntry_cases {p : ℕ} {tfirst : ℤ} (h : startEntry s indx p tfirst spawned = (e, t)) :
    ((s.sd.infos p).info.has schedAsync = false ∧ e = .started p ∧
      t = { s with sd := s.sd.modify p (startInfo tfirst), pc := .call indx p }) ∨
    (e = .idle ∧ t = { s with pc := .ready (indx + 1) }) ∨
    ∃ i, (s.sd.infos p).info.has schedAsync = true ∧ freeTask (s.sd.infos p) = some i ∧
      (e = .started p ∧ t = { s with
          sd := (s.sd.modify p (prepareTask i true)).modify p (startInfo tfirst)
          pc := .ready (indx + 1) } ∨
        e = .idle ∧ t = { s with
          sd := s.sd.modify p (prepareTask i false), pc := .ready (indx + 1) }) := by
  unfold startEntry at h
  dsimp only at h
  split at h
  · next hsync =>
    cases h
    exact Or.inl ⟨by simpa using hsync, rfl, rfl⟩
  · next hasync =>
    split at h
    · cases h
      exact Or.inr (Or.inl ⟨rfl, rfl⟩)
    · next i hfree =>
      have hflag : (s.sd.infos p).info.has schedAsync = true := by simpa using hasync
      refine Or.inr (Or.inr ⟨i, hflag, hfree, ?_⟩)
      cases spawned with
      | true =>
        cases h
        exact Or.inl ⟨rfl, rfl⟩
      | false =>
        cases h
        exact Or.inr ⟨rfl, rfl⟩

/-- What a step does, by its action, with what it asks of the process. -/
inductive Stepped (s : SchedProcess) : SchedAction → SchedEvent → SchedProcess → Prop
  | beat {now : ℤ} {e : SchedEvent} {t : SchedProcess} (hpc : s.pc = .sync)
      (h : beatStep s now = (e, t)) : Stepped s (.beat now) e t
  | finishedTags {accept : List Char → Bool} (hpc : s.pc = .finishedTags) :
      Stepped s (.finishedTags accept) (.tags (taggedEntries true s.sd)) { s with
        sd := evaluateTags true s.time accept s.sd, synclist := synclist s.time, pc := .ready 0 }
  | ready {indx fuel : ℕ} {spawned : Bool} {e : SchedEvent} {t : SchedProcess}
      (hpc : s.pc = .ready indx) (h : readyStep s indx fuel spawned = some (e, t)) :
      Stepped s (.ready fuel spawned) e t
  | returns {result : ℤ} {indx p : ℕ} (hpc : s.pc = .call indx p) :
      Stepped s (.returns result) (.returned p)
        { s with sd := s.sd.modify p (returnInfo result), pc := .ready (indx + 1) }
  | scheduledTags {accept : List Char → Bool} (hpc : s.pc = .scheduledTags) :
      Stepped s (.scheduledTags accept) (.tags (taggedEntries false s.sd))
        { s with sd := evaluateTags false s.time accept s.sd, pc := .retire }
  | retire {realloc : Bool} (hpc : s.pc = .retire) :
      Stepped s (.retire realloc) (.deleted (s.sd.entries.filter fun p => retired (s.sd.infos p)))
        { s with sd := deleteRetiredEntries realloc s.sd, pc := .retireTags }
  | retireTags (hpc : s.pc = .retireTags) : Stepped s .retireTags .idle { s with
      sd := (deleteRetiredTags s.sd s.testtag).1
      testtag := (deleteRetiredTags s.sd s.testtag).2
      time := s.time.close
      pc := .sync }
  | finish {p : ℕ} {i : Fin maxTasks} {result : ℤ}
      (hvalid : ((s.sd.infos p).tasks i).valid = true)
      (hruns : ((s.sd.infos p).tasks i).terminated = false) :
      Stepped s (.finish p i result) .idle { s with sd := s.sd.modify p (finishTask i result) }
  | refused {fuel : ℕ} {c : ScheduleCall} {sd : Scheduler} {r : ℤ}
      (h : scheduleTask fuel s.sd c = some (sd, none, r)) :
      Stepped s (.schedule fuel c) .idle { s with sd := sd }
  | scheduled {fuel p : ℕ} {c : ScheduleCall} {sd : Scheduler} {r : ℤ}
      (hmalloc : ∀ q ∈ c.malloc, q ∉ s.sd.entries)
      (h : scheduleTask fuel s.sd c = some (sd, some p, r)) :
      Stepped s (.schedule fuel c) (.scheduled p) { s with sd := sd }
  | remove {id terminate : ℤ} {cancelled : ℕ → Fin maxTasks → Bool} :
      Stepped s (.remove id terminate cancelled) (.removed (s.sd.removals id))
        { s with sd := removeScheduledTask s.sd id terminate cancelled }
  | setTag {tag : List Char} {tagtime : ℤ} {accept : Bool} (tags : List TimeTag) :
      Stepped s (.setTag tag tagtime accept) .idle
        { s with sd := { s.sd with timetaglist := tags } }

theorem stepped {a : SchedAction} (h : step s a = some (e, t)) : Stepped s a e t := by
  cases a with
  | ready fuel spawned =>
    simp only [step] at h
    split at h
    · next hpc => exact .ready hpc h
    · cases h
  | returns result =>
    simp only [step] at h
    split at h
    · next hpc =>
      cases h
      exact .returns hpc
    · cases h
  | schedule fuel c =>
    simp only [step] at h
    split at h
    · next hguard =>
      split at h
      · cases h
      · next hcall =>
        cases h
        exact .refused hcall
      · next hcall =>
        cases h
        exact .scheduled hguard.2 hcall
    · cases h
  | beat now =>
    simp only [step] at h
    split at h
    · next hpc => exact .beat hpc (Option.some.inj h)
    · cases h
  | finish p i result =>
    simp only [step] at h
    split at h
    · next hguard =>
      cases h
      exact .finish hguard.2.1 (by simpa using hguard.2.2)
    · cases h
  | _ =>
    simp only [step] at h
    split at h
    · cases h
      constructor <;> assumption
    · cases h

end Cases

end AdvLigoRts.Gds.Sched
