import AdvLigoRts.Lib.Machine
import Mathlib.Data.List.Range

/-!
# Second trend: the trender and its worker

`trender_c::trend` and `trender_c::trend_worker` of daqd/trend.cc share the channels of one
second: the trender takes them from the front in pieces of `WORKPILE_INC`, the worker from the
back. A step is a critical section under `worker_lock`, one look at a shared variable outside
it, or the start or the end of one call of `trend_loop_func`; so the calls of one thread
overlap in time with whatever the other does. `num_channels` is an `int`, so that no sum or
difference of the indices leaves the range of `unsigned int`.

`stopping( )` may become true at any time. The condition variables need no state: a thread
that waits has no step until what it waits for holds.
-/

namespace AdvLigoRts.Daqd

def workpileInc : ℕ := 10

inductive TrendThread
  | trender
  | worker
deriving DecidableEq, Repr

/-- Where `trender_c::trend` stands; `nb` is its local variable. -/
inductive TrenderPc
  /-- At the head of its loop, before `time_get_helper`. -/
  | top
  /-- It has block `nb` and is about to open the round. -/
  | start (nb : ℤ)
  /-- About to take the next piece. -/
  | take (nb : ℤ)
  /-- At the test of the loop over a piece. -/
  | loop (nb : ℤ) (j : ℕ)
  /-- In `trend_loop_func( j, .. )`. -/
  | call (nb : ℤ) (j : ℕ)
  /-- Waiting for `worker_busy` to clear. -/
  | wait (nb : ℤ)
  /-- About to put `ttb`. -/
  | put (nb : ℤ)
  | exited
deriving DecidableEq, Repr

/-- Where `trender_c::trend_worker` stands; `nb` and `last` are its local variables. -/
inductive WorkerPc
  /-- At the head of its loop. -/
  | top
  /-- Waiting for `worker_busy`. -/
  | wait
  /-- It has read `trend_worker_nb` and is about to look at `stopping( )`. -/
  | picked (nb : ℤ)
  /-- About to take the next piece. -/
  | take (nb : ℤ)
  /-- About to read `next_worker_block` for the start of the loop over the piece. -/
  | enter (nb : ℤ) (last : ℕ)
  /-- At the test of the loop over a piece. -/
  | loop (nb : ℤ) (j last : ℕ)
  /-- In `trend_loop_func( j, .. )`. -/
  | call (nb : ℤ) (j last : ℕ)
  /-- At the test `next_worker_block == 0`. -/
  | test (nb : ℤ)
  /-- About to clear `worker_busy`. -/
  | finish
  | exited
deriving DecidableEq, Repr

/-- The members of `trender_c` the two threads share, and where each thread stands. -/
structure TrendSys where
  trendWorkerNb : ℤ
  nextTrenderBlock : ℕ
  nextWorkerBlock : ℕ
  workerBusy : Bool
  stopping : Bool
  trender : TrenderPc
  worker : WorkerPc

namespace TrendSys

/-- The state after construction, with both threads started. -/
def init (nb : ℤ) (nextTrender nextWorker : ℕ) : TrendSys where
  trendWorkerNb := nb
  nextTrenderBlock := nextTrender
  nextWorkerBlock := nextWorker
  workerBusy := false
  stopping := false
  trender := .top
  worker := .top

/-- What a step shows. -/
inductive Event
  | tau
  /-- A round on block `nb` opens. -/
  | round (nb : ℤ)
  /-- The thread takes the channels from `lo` up to but excluding `hi`. -/
  | take (t : TrendThread) (lo hi : ℕ)
  /-- The thread calls `trend_loop_func` for channel `j` on block `nb`. -/
  | call (t : TrendThread) (nb : ℤ) (j : ℕ)
  /-- The call returns. -/
  | ret (t : TrendThread) (nb : ℤ) (j : ℕ)
  /-- The trender has found `worker_busy == 0`. -/
  | passed (nb : ℤ)
  /-- `ltb->put( ttb, .. )` for the block. -/
  | put (nb : ℤ)
  /-- The empty block put at shutdown. -/
  | putEmpty
deriving DecidableEq, Repr

inductive Act
  /-- `time_get_helper` returns `nb`, whose block holds `bytes` bytes. -/
  | getBlock (nb : ℤ) (bytes : ℕ)
  | trender
  | worker
  | stop

variable (numChannels : ℕ)

/-- The end of the piece the trender takes next. -/
def trenderEnd (s : TrendSys) : ℕ :=
  let next := s.nextTrenderBlock + workpileInc
  let next := if next > numChannels then numChannels else next
  if next > s.nextWorkerBlock then s.nextWorkerBlock else next

/-- The start of the piece the worker takes next. -/
def workerStart (s : TrendSys) : ℕ :=
  let next :=
    if s.nextWorkerBlock < workpileInc then 0 else s.nextWorkerBlock - workpileInc
  if next < s.nextTrenderBlock then s.nextTrenderBlock else next

/-- A step of `trend`, but for `time_get_helper`. -/
def trenderStep (s : TrendSys) : Option (Event × TrendSys) :=
  match s.trender with
  | .top => if s.stopping then some (.tau, { s with trender := .exited }) else none
  | .start nb =>
    some (.round nb,
      { s with
        trendWorkerNb := nb
        nextTrenderBlock := 0
        nextWorkerBlock := numChannels
        workerBusy := true
        trender := .take nb })
  | .take nb =>
    if s.nextTrenderBlock ≥ s.nextWorkerBlock then some (.tau, { s with trender := .wait nb })
    else
      some (.take .trender s.nextTrenderBlock (trenderEnd numChannels s),
        { s with
          nextTrenderBlock := trenderEnd numChannels s
          trender := .loop nb s.nextTrenderBlock })
  | .loop nb j =>
    if j < s.nextTrenderBlock then
      some (.call .trender nb j, { s with trender := .call nb j })
    else some (.tau, { s with trender := .take nb })
  | .call nb j => some (.ret .trender nb j, { s with trender := .loop nb (j + 1) })
  | .wait nb =>
    if s.workerBusy then none else some (.passed nb, { s with trender := .put nb })
  | .put nb => some (.put nb, { s with trender := .top })
  | .exited => none

/-- A step of `trend_worker`. -/
def workerStep (s : TrendSys) : Option (Event × TrendSys) :=
  match s.worker with
  | .top =>
    if s.stopping then some (.tau, { s with worker := .exited })
    else some (.tau, { s with worker := .wait })
  | .wait =>
    if s.workerBusy ∨ s.stopping then
      some (.tau, { s with worker := .picked s.trendWorkerNb })
    else none
  | .picked nb =>
    if s.stopping then some (.tau, { s with worker := .exited })
    else some (.tau, { s with worker := .take nb })
  | .take nb =>
    if s.nextTrenderBlock ≥ s.nextWorkerBlock then some (.tau, { s with worker := .finish })
    else
      some (.take .worker (workerStart s) s.nextWorkerBlock,
        { s with
          nextWorkerBlock := workerStart s
          worker := .enter nb s.nextWorkerBlock })
  | .enter nb last => some (.tau, { s with worker := .loop nb s.nextWorkerBlock last })
  | .loop nb j last =>
    if j < last then some (.call .worker nb j, { s with worker := .call nb j last })
    else some (.tau, { s with worker := .test nb })
  | .call nb j last => some (.ret .worker nb j, { s with worker := .loop nb (j + 1) last })
  | .test nb =>
    if s.nextWorkerBlock = 0 then some (.tau, { s with worker := .finish })
    else some (.tau, { s with worker := .take nb })
  | .finish => some (.tau, { s with workerBusy := false, worker := .top })
  | .exited => none

def step (s : TrendSys) : Act → Option (Event × TrendSys)
  | .getBlock nb bytes =>
    if s.trender = .top ∧ ¬ s.stopping then
      if nb < 0 then some (.tau, { s with trender := .exited })
      else if bytes = 0 then some (.putEmpty, { s with trender := .exited })
      else some (.tau, { s with trender := .start nb })
    else none
  | .trender => trenderStep numChannels s
  | .worker => workerStep s
  | .stop => some (.tau, { s with stopping := true })

end TrendSys

/-! ## What has been done in the current round -/

/-- The account of a round: its block, the pieces taken, the calls made, the channels for which a
call on this block has returned, and the calls that still run. -/
structure TrendRound where
  block : Option ℤ := none
  taken : List (TrendThread × ℕ × ℕ) := []
  called : List (TrendThread × ℤ × ℕ) := []
  computed : List ℕ := []
  running : List (TrendThread × ℤ × ℕ) := []

namespace TrendRound

/-- A new round starts a new account, but calls that still run are not forgotten. -/
def after (r : TrendRound) : TrendSys.Event → TrendRound
  | .round nb => { block := some nb, running := r.running }
  | .take t lo hi => { r with taken := r.taken ++ [(t, lo, hi)] }
  | .call t nb j =>
    { r with called := r.called ++ [(t, nb, j)], running := r.running ++ [(t, nb, j)] }
  | .ret t nb j =>
    { r with
      computed := if r.block = some nb then r.computed ++ [j] else r.computed
      running := r.running.erase (t, nb, j) }
  | _ => r

/-- The account of the last round that a trace opens. -/
def ofTrace (tr : List TrendSys.Event) : TrendRound := tr.foldl after {}

@[simp] theorem ofTrace_append (tr : List TrendSys.Event) (e : TrendSys.Event) :
    ofTrace (tr ++ [e]) = (ofTrace tr).after e := by
  simp [ofTrace]

end TrendRound

end AdvLigoRts.Daqd
