import AdvLigoRts.Daqd.FrameXmitTypes
import Mathlib.Tactic.Ring

/-!
# `gdssched.c`: when a task is ready

The scheduler calls functions in step with a heartbeat of sixteen epochs a second. Here are its
entries, the check of a new one, the time tags, and `isTaskReady`, which decides at a heartbeat
whether an entry runs.

Times are nsec or epochs; both stay far below the bounds of their 64 bits. Where the source
computes in `int`, the result is cut by `int32`. Division is C's, which rounds towards zero, and a
division by zero is an error. A search that may not end gets a number of turns and is `none` when
these are not enough.
-/

namespace AdvLigoRts.Gds.Sched

open Daqd (int32)

/-! ## Constants -/

def numberOfEpochs : ℤ := 16

def oneSec : ℤ := 1000000000

def oneHour : ℤ := 3600 * oneSec

/-- `_EPOCH`, which is `_ONESEC / NUMBER_OF_EPOCHS`. -/
def epochNsec : ℤ := 62500000

def minTime : ℤ := 100

def maxTasks : ℕ := 5

def schedulerPriority : ℤ := 3

def schedPrMed : ℤ := 12

def timetagLength : ℕ := 17

def schedRepeat : BitVec 32 := 0x01

def schedWait : BitVec 32 := 0x02

def schedTimetag : BitVec 32 := 0x04

def schedTimeout : BitVec 32 := 0x08

def schedPriorityUser : BitVec 32 := 0x10

def schedMaxtimeLong : BitVec 32 := 0x20

def schedAsync : BitVec 32 := 0x40

def schedTagEnd : ℤ := 0

def schedTagStart : ℤ := 1

def schedTagLast : ℤ := 2

def schedSyncNext : ℤ := 0

def schedSyncEpoch : ℤ := 1

def schedSyncIepoch : ℤ := 2

def schedWaitImmediate : ℤ := 0

def schedWaitTimedelay : ℤ := 1

def schedWaitEpochdelay : ℤ := 2

def schedWaitStarttime : ℤ := 3

def schedWaitTag : ℤ := 4

def schedWaitTagdelayed : ℤ := 5

def schedWaitTagepochdelayed : ℤ := 6

def schedRepeatN : ℤ := 0

def schedRepeatCond : ℤ := 2

def schedRepeatEpoch : ℤ := 0

def schedRepeatIepoch : ℤ := 1

/-! ## Entries -/

/-- `schedulertask_t`. A tag is the characters before its end; `func` says that there is a
function. -/
structure SchedulerTask where
  flag : BitVec 32
  priority : ℤ
  timeout : ℤ
  tagtype : ℤ
  timetag : List Char
  synctype : ℤ
  syncval : ℤ
  waittype : ℤ
  waitval : ℤ
  waittag : List Char
  repeattype : ℤ
  repeatval : ℤ
  repeatratetype : ℤ
  repeatrate : ℤ
  repeatsynctype : ℤ
  repeatsyncval : ℤ
  func : Bool
deriving DecidableEq, Repr

def SchedulerTask.has (entry : SchedulerTask) (flag : BitVec 32) : Bool := entry.flag &&& flag ≠ 0

/-- `_schedtask_t`, a thread of an asynchronous entry. -/
structure SchedTask where
  valid : Bool
  terminated : Bool
  result : ℤ
deriving DecidableEq, Repr

/-- `_schedinfo_t`. -/
structure SchedInfo where
  info : SchedulerTask
  id : ℤ
  markForTermination : Bool
  firstScheduled : ℕ
  firstFinished : ℕ
  lastFinished : ℕ
  runningtasks : ℤ
  repeatN : ℤ
  tinit : ℤ
  tfirst : ℤ
  tasks : Fin maxTasks → SchedTask

/-- `_timetaginfo_t`. -/
structure TimeTag where
  tag : List Char
  tai : ℤ
  epoch : ℤ
deriving DecidableEq, Repr

/-- `_schedtime_t`. -/
structure SchedTime where
  now : ℤ
  tai : ℤ
  epoch : ℤ
  tnow : ℤ
  oldtai : ℤ
  oldepoch : ℤ
  told : ℤ
deriving DecidableEq, Repr

/-! ## The check of a new entry -/

/-- The checks of `checkValidity` in order, with what it returns when one of them is met. -/
def validityChecks (timenow : ℤ) (entry : SchedulerTask) : List (Bool × ℤ) :=
  let short := !entry.has schedMaxtimeLong
  let wait := entry.has schedWait
  let waits (types : List ℤ) : Bool := wait && entry.waittype ∈ types
  let delays := [schedWaitTagdelayed, schedWaitTagepochdelayed, schedWaitTimedelay,
    schedWaitEpochdelay, schedWaitStarttime]
  let tags := [schedWaitTag, schedWaitTagdelayed, schedWaitTagepochdelayed]
  let timetag := entry.has schedTimetag
  let rep := entry.has schedRepeat
  [(entry.has schedTimeout && entry.timeout < 0, -10),
    (entry.has schedTimeout && short && entry.timeout > oneHour, -11),
    (entry.has schedPriorityUser &&
      (entry.priority < 0 || entry.priority ≥ schedulerPriority), -12),
    (wait && (entry.waittype < 0 || entry.waittype > schedWaitTagepochdelayed), -13),
    (waits delays && entry.waitval < 0, -14),
    (waits [schedWaitTagdelayed, schedWaitTimedelay] && short && entry.waitval > oneHour, -15),
    (waits [schedWaitTagepochdelayed, schedWaitEpochdelay] && short &&
      entry.waitval * epochNsec > oneHour, -15),
    (waits [schedWaitStarttime] && short && entry.waittype + oneHour > timenow, -15),
    (waits tags && entry.waittag.length ≥ timetagLength, -16),
    (wait && (entry.synctype < 0 || entry.synctype > schedSyncIepoch), -17),
    (wait && entry.synctype = schedSyncIepoch && entry.syncval < 1, -18),
    (wait && entry.synctype = schedSyncEpoch &&
      (entry.syncval < 0 || entry.syncval ≥ numberOfEpochs), -18),
    (timetag && entry.timetag.length ≥ timetagLength, -19),
    (timetag && (entry.tagtype < 0 || entry.tagtype > schedTagLast), -20),
    (rep && (entry.repeattype < 0 || entry.repeattype > schedRepeatCond), -21),
    (rep && entry.repeattype = schedRepeatN && entry.repeatval < 1, -22),
    (rep && (entry.repeatratetype < 0 || entry.repeatratetype > schedRepeatIepoch), -23),
    (rep && (entry.repeatsynctype < 0 || entry.repeatsynctype > schedSyncIepoch), -24),
    (rep && entry.repeatratetype = schedRepeatEpoch && entry.repeatsynctype ≠ schedSyncNext, -24),
    (rep && entry.repeatsynctype = schedSyncEpoch &&
      (entry.repeatsyncval < 0 || entry.repeatsyncval ≥ numberOfEpochs), -25),
    (rep && entry.repeatsynctype = schedSyncIepoch && entry.repeatsyncval < 1, -25),
    (!entry.func, -26)]

def checkValidity (timenow : ℤ) (entry : SchedulerTask) : ℤ :=
  match (validityChecks timenow entry).find? (·.1) with
  | some (_, err) => err
  | none => 0

/-! ## Time tags -/

/-- `gds_strncasecmp` finds no difference. -/
def sameTag (s1 s2 : List Char) : Bool :=
  (s1.take timetagLength).map Char.toLower == (s2.take timetagLength).map Char.toLower

def findTag (timetaglist : List TimeTag) (tag : List Char) : Option TimeTag :=
  timetaglist.find? fun ltag => sameTag ltag.tag tag

/-- `isTagExpired`: the epochs since the tag, or -1. -/
def isTagExpired (timetaglist : List TimeTag) (tag : List Char) (tai epoch : ℤ) : ℤ :=
  match findTag timetaglist tag with
  | some ltag => int32 ((tai - ltag.tai) * numberOfEpochs + (epoch - ltag.epoch))
  | none => -1

/-- `setTag` without the call of the notify routine. -/
def setTag (timetaglist : List TimeTag) (tag : List Char) (tai epoch : ℤ) : List TimeTag :=
  match findTag timetaglist tag with
  | some _ => timetaglist
  | none => timetaglist ++ [{ tag := tag.take (timetagLength - 1), tai := tai, epoch := epoch }]

def deleteTag (timetaglist : List TimeTag) (tag : List Char) : List TimeTag :=
  timetaglist.filter fun ltag => !sameTag ltag.tag tag

/-- The TAI and the epoch of a tag that is set at `tagtime`, as `setSchedulerTag` rounds it. -/
def tagTime (tagtime : ℤ) : ℤ × ℤ :=
  let tai := tagtime.tdiv oneSec
  let epoch := (tagtime.tmod oneSec + epochNsec.tdiv 2).tdiv epochNsec
  if epoch ≥ numberOfEpochs then (tai + 1, epoch - numberOfEpochs) else (tai, epoch)

/-! ## The time of a pass -/

/-- The time of a heartbeat, beside that of the last pass. -/
def SchedTime.beat (time : SchedTime) (now : ℤ) : SchedTime :=
  let tai := now.tdiv oneSec
  let epoch := (now.tmod oneSec + epochNsec.tdiv 10).tdiv epochNsec
  let (tai, epoch) :=
    if epoch ≥ numberOfEpochs then (tai + 1, epoch - numberOfEpochs) else (tai, epoch)
  { time with now := now, tai := tai, epoch := epoch, tnow := tai * numberOfEpochs + epoch }

/-- The pass is over. -/
def SchedTime.close (time : SchedTime) : SchedTime :=
  { time with oldtai := time.tai, oldepoch := time.epoch, told := time.tnow }

/-- `synclist`: the epochs that are taken to be in sync. -/
def synclist (time : SchedTime) (i : ℤ) : Bool :=
  (time.oldepoch = -1 && i = time.epoch) ||
    (time.oldepoch ≠ -1 && (time.tai - time.oldtai) * numberOfEpochs + i -
      (if i > time.epoch then numberOfEpochs else 0) > time.oldepoch)

/-! ## Readiness -/

inductive ArithFault where
  | divByZero
deriving DecidableEq, Repr

/-- `while (...) t -= step`: the loop ends at the first `t` with `done`. -/
def searchBack (done : ℤ → Bool) (step : ℤ) : ℕ → ℤ → Option ℤ
  | 0, _ => none
  | fuel + 1, t => if done t then some t else searchBack done step fuel (t - step)

def calcStartTime (fuel : ℕ) (info : SchedulerTask) (time : SchedTime) :
    Option (Except ArithFault ℤ) :=
  if !info.has schedRepeat then some (.ok (-1))
  else if info.repeatratetype = schedRepeatEpoch ∨ info.repeatsynctype = schedSyncNext then
    if info.has schedWait ∧ info.synctype ≠ schedSyncNext then
      if info.synctype = schedSyncEpoch then
        (searchBack (fun t => t.tmod numberOfEpochs = info.syncval) 1 fuel time.tnow).map .ok
      else if info.syncval = 0 then some (.error .divByZero)
      else
        (searchBack (fun t => (t.tdiv numberOfEpochs).tmod info.syncval = 0) numberOfEpochs fuel
          (numberOfEpochs * time.tnow.tdiv numberOfEpochs)).map .ok
    else if info.has schedWait ∧ info.waittype = schedWaitStarttime then
      some (.ok (info.waitval.tdiv epochNsec))
    else some (.ok time.tnow)
  else if info.repeatsynctype = schedSyncEpoch then
    (searchBack (fun t => t.tmod numberOfEpochs = info.repeatsyncval) 1 fuel time.tnow).map .ok
  else if info.repeatrate = 0 then some (.error .divByZero)
  else
    (searchBack (fun t => (t.tdiv numberOfEpochs).tmod info.repeatrate = info.repeatsyncval)
      numberOfEpochs fuel (numberOfEpochs * time.tnow.tdiv numberOfEpochs)).map .ok

/-- What `isTaskReady` returns: 0, -1, or 1 with the `tfirst` it sets. -/
inductive Ready where
  | notReady
  | timedOut
  | ready (tfirst : ℤ)
deriving DecidableEq, Repr

/-- The `delay` of an entry that waits; `none` is a tag that is not set. -/
def waitDelay (timetaglist : List TimeTag) (info : SchedInfo) (time : SchedTime) : Option ℤ :=
  if info.info.waittype ∈ [schedWaitTag, schedWaitTagdelayed, schedWaitTagepochdelayed] then
    let delay := isTagExpired timetaglist info.info.waittag time.tai time.epoch
    if delay = -1 then none else some delay
  else if info.info.waittype ∈ [schedWaitTimedelay, schedWaitEpochdelay] then
    some (time.tnow - (info.tinit + epochNsec - 1).tdiv epochNsec)
  else some 0

/-- The delay is long enough. -/
def delayOver (info : SchedInfo) (time : SchedTime) (delay : ℤ) : Bool :=
  if info.info.waittype ∈ [schedWaitTagdelayed, schedWaitTimedelay] then
    delay * epochNsec ≥ info.info.waitval
  else if info.info.waittype ∈ [schedWaitTagepochdelayed, schedWaitEpochdelay] then
    delay ≥ info.info.waitval
  else if info.info.waittype = schedWaitStarttime then
    info.info.waitval ≤ time.tnow * epochNsec
  else true

def waitOver (timetaglist : List TimeTag) (info : SchedInfo) (time : SchedTime) : Bool :=
  (waitDelay timetaglist info time).any (delayOver info time)

/-- The synchronization of the first start. -/
def inSync (info : SchedInfo) (time : SchedTime) (synclist : ℤ → Bool) : Bool :=
  let syncval := info.info.syncval
  if info.info.synctype = schedSyncEpoch then
    decide (0 ≤ syncval ∧ syncval < numberOfEpochs) && synclist syncval
  else if info.info.synctype = schedSyncIepoch then
    decide (0 < syncval ∧ time.epoch = 0 ∧ time.tai.tmod syncval = 0)
  else true

/-- The `interval` between repeats. -/
def repeatInterval (info : SchedulerTask) : ℤ :=
  if info.repeatratetype = schedRepeatEpoch then info.repeatrate
  else int32 (info.repeatrate * numberOfEpochs)

def repeatsDone (info : SchedInfo) : Bool :=
  (info.info.repeattype = schedRepeatN && info.repeatN = 0) ||
    (info.info.repeattype = schedRepeatCond && info.lastFinished ≠ 0)

/-- The timeout of the entry is over. -/
def timedOut (info : SchedInfo) (time : SchedTime) : Bool :=
  info.info.has schedTimeout && info.tinit + info.info.timeout ≤ time.now

def isTaskReady (fuel : ℕ) (timetaglist : List TimeTag) (info : SchedInfo) (time : SchedTime)
    (synclist : ℤ → Bool) : Option (Except ArithFault Ready) :=
  if info.markForTermination then some (.ok .notReady)
  else if timedOut info time then some (.ok .timedOut)
  else if info.firstScheduled = 0 then
    if info.info.has schedWait ∧
        ¬ (waitOver timetaglist info time ∧ inSync info time synclist) then
      some (.ok .notReady)
    else (calcStartTime fuel info.info time).map (·.map .ready)
  else if info.info.has schedRepeat then
    if repeatsDone info then some (.ok .notReady)
    else
      let interval := repeatInterval info.info
      if interval = 0 then some (.error .divByZero)
      else
        let num := (time.tnow - info.tfirst).tdiv interval
        if num * interval + info.tfirst > time.told then some (.ok (.ready (-1)))
        else some (.ok .notReady)
  else some (.ok .notReady)

end AdvLigoRts.Gds.Sched
