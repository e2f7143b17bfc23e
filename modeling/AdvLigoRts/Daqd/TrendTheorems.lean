import AdvLigoRts.Daqd.Trend
import Mathlib.Data.List.Count
import Mathlib.Data.List.Perm.Basic

/-!
# The two trend threads compute every channel once

The invariant has three parts. `Control` says who may be where: the worker works only while
`worker_busy` is set, on the block of the round, and the flag is clear while the trender is between
rounds.
-/

namespace AdvLigoRts.Daqd

open PvLib

namespace TrenderPc

/-- The trender is not between the opening of a round and its wait for the worker. -/
@[grind] def idle : TrenderPc → Bool
  | top | start _ | put _ | exited => true
  | _ => false

/-- The trender takes no more pieces in this round. -/
@[grind] def satisfied : TrenderPc → Bool
  | top | start _ | wait _ | put _ | exited => true
  | _ => false

/-- The block the trender works on once it has opened the round. -/
@[grind] def block : TrenderPc → Option ℤ
  | take nb | loop nb _ | call nb _ | wait nb | put nb => some nb
  | _ => none

/-- The channels below this one have been computed by the trender. -/
@[grind] def done (nextTrender : ℕ) : TrenderPc → ℕ
  | loop _ j | call _ j => j
  | _ => nextTrender

@[grind] def running : TrenderPc → List (TrendThread × ℤ × ℕ)
  | call nb j => [(.trender, nb, j)]
  | _ => []

end TrenderPc

namespace WorkerPc

/-- The worker has taken up a round and not yet given it back. -/
@[grind] def active : WorkerPc → Bool
  | take _ | enter _ _ | loop _ _ _ | call _ _ _ | test _ | finish => true
  | _ => false

@[grind] def block : WorkerPc → Option ℤ
  | take nb | enter nb _ | loop nb _ _ | call nb _ _ | test nb => some nb
  | _ => none

theorem active_of_block {pc : WorkerPc} {nb : ℤ} (h : pc.block = some nb) : pc.active = true := by
  cases pc <;> simp_all [block, active]

/-- The piece the worker is on: where it stands and where the piece ends. -/
@[grind] def piece (nextWorker : ℕ) : WorkerPc → ℕ × ℕ
  | enter _ last => (nextWorker, last)
  | loop _ j last | call _ j last => (j, last)
  | _ => (nextWorker, nextWorker)

theorem piece_of_not_active {pc : WorkerPc} (h : pc.active = false) (w : ℕ) :
    pc.piece w = (w, w) := by
  cases pc <;> simp_all [piece, active]

@[grind] def running : WorkerPc → List (TrendThread × ℤ × ℕ)
  | call nb j _ => [(.worker, nb, j)]
  | _ => []

theorem running_of_not_active {pc : WorkerPc} (h : pc.active = false) : pc.running = [] := by
  cases pc <;> simp_all [running, active]

end WorkerPc

namespace TrendSys

variable {n : ℕ} {s s' : TrendSys} {r : TrendRound} {e : Event}

/-! ## Who may be where -/

/-- Who may be where, in a round on `block`. -/
structure Control (n : ℕ) (block : Option ℤ) (s : TrendSys) : Prop where
  /-- Between rounds the flag is clear. -/
  idle : s.trender.idle → s.workerBusy = false
  closed : block = none → s.workerBusy = false
  /-- The worker works while the flag is set. -/
  active : s.worker.active → s.workerBusy = true
  trenderBlock : ∀ nb, s.trender.block = some nb → block = some nb ∧ s.trendWorkerNb = nb
  workerBlock : ∀ nb, s.worker.block = some nb → nb = s.trendWorkerNb
  current : s.workerBusy = true → block = some s.trendWorkerNb
  picked : ∀ nb, s.worker = .picked nb →
    s.stopping = true ∨ (s.workerBusy = true ∧ nb = s.trendWorkerNb)
  /-- The two ends have not crossed. -/
  le : block ≠ none → s.nextTrenderBlock ≤ s.nextWorkerBlock ∧ s.nextWorkerBlock ≤ n
  /-- Once one of the threads is done with the round, the ends have met. -/
  met : block ≠ none →
    s.workerBusy = false ∨ s.trender.satisfied = true ∨ s.worker = .finish →
    s.nextTrenderBlock = s.nextWorkerBlock

theorem trenderEnd_bounds (h : s.nextTrenderBlock < s.nextWorkerBlock)
    (hn : s.nextWorkerBlock ≤ n) :
    s.nextTrenderBlock < trenderEnd n s ∧ trenderEnd n s ≤ s.nextWorkerBlock := by
  grind -ring -linarith [trenderEnd, workpileInc]

theorem workerStart_bounds (h : s.nextTrenderBlock < s.nextWorkerBlock) :
    s.nextTrenderBlock ≤ workerStart s ∧ workerStart s < s.nextWorkerBlock := by
  grind -ring -linarith [workerStart, workpileInc]

/-- What has been taken, and where the calls lie. -/
structure Pieces (n : ℕ) (r : TrendRound) (s : TrendSys) : Prop where
  bounds : ∀ t lo hi, (t, lo, hi) ∈ r.taken → lo < hi ∧ hi ≤ n ∧
    (t = .trender → hi ≤ s.nextTrenderBlock) ∧ (t = .worker → s.nextWorkerBlock ≤ lo)
  apart : r.taken.Pairwise fun a b => a.2.2 ≤ b.2.1 ∨ b.2.2 ≤ a.2.1
  cover : r.block ≠ none → ∀ i < n, i < s.nextTrenderBlock ∨ s.nextWorkerBlock ≤ i →
    ∃ t lo hi, (t, lo, hi) ∈ r.taken ∧ lo ≤ i ∧ i < hi
  called : ∀ t nb j, (t, nb, j) ∈ r.called →
    r.block = some nb ∧ ∃ lo hi, (t, lo, hi) ∈ r.taken ∧ lo ≤ j ∧ j < hi
  /-- The loop of a thread stays in the piece it has taken last. -/
  trenderLoop : ∀ nb j, s.trender = .loop nb j ∨ s.trender = .call nb j →
    j ≤ s.nextTrenderBlock ∧ ∃ lo ≤ j, (.trender, lo, s.nextTrenderBlock) ∈ r.taken
  trenderCall : ∀ nb j, s.trender = .call nb j → j < s.nextTrenderBlock
  workerEnter : ∀ nb last, s.worker = .enter nb last →
    (.worker, s.nextWorkerBlock, last) ∈ r.taken
  workerLoop : ∀ nb j last, s.worker = .loop nb j last ∨ s.worker = .call nb j last →
    s.nextWorkerBlock ≤ j ∧ j ≤ last ∧ (.worker, s.nextWorkerBlock, last) ∈ r.taken
  workerCall : ∀ nb j last, s.worker = .call nb j last → j < last

/-- A piece between the two ends lies between what the two threads have taken before. -/
theorem Pieces.apart_append (h : Pieces n r s) {t : TrendThread} {lo hi : ℕ}
    (hlo : s.nextTrenderBlock ≤ lo) (hhi : hi ≤ s.nextWorkerBlock) :
    (r.taken ++ [(t, lo, hi)]).Pairwise fun a b => a.2.2 ≤ b.2.1 ∨ b.2.2 ≤ a.2.1 := by
  simp only [List.pairwise_append, List.pairwise_singleton, List.mem_singleton, forall_eq, true_and]
  refine ⟨h.apart, ?_⟩
  rintro ⟨t', lo', hi'⟩ hmem
  have hbounds := h.bounds t' lo' hi' hmem
  cases t' with
  | trender => exact Or.inl ((hbounds.2.2.1 rfl).trans hlo)
  | worker => exact Or.inr (hhi.trans (hbounds.2.2.2 rfl))

/-- What has been computed, and what still runs. -/
structure Account (n : ℕ) (r : TrendRound) (s : TrendSys) : Prop where
  computed : r.block ≠ none → ∀ i, r.computed.count i
    = (if i < s.trender.done s.nextTrenderBlock then 1 else 0)
      + (if (s.nextWorkerBlock ≤ i ∧ i < (s.worker.piece s.nextWorkerBlock).1) ∨
          ((s.worker.piece s.nextWorkerBlock).2 ≤ i ∧ i < n) then 1 else 0)
  running : r.running.Perm (s.trender.running ++ s.worker.running)

structure Inv (n : ℕ) (r : TrendRound) (s : TrendSys) : Prop where
  control : Control n r.block s
  pieces : Pieces n r s
  account : Account n r s

theorem inv_init (nb : ℤ) (t w : ℕ) : Inv n {} (init nb t w) := by
  refine ⟨?_, ?_, ?_⟩
  · constructor <;> simp [init, WorkerPc.active, TrenderPc.block, WorkerPc.block]
  · constructor <;> simp [init]
  · constructor <;> simp [init, TrenderPc.running, WorkerPc.running]

/-- The account stays as it is when no call starts or ends. -/
theorem Account.congr {r' : TrendRound} (h : Account n r s) (hblock : r'.block = r.block)
    (hcomputed : r'.computed = r.computed) (hruns : r'.running = r.running)
    (htrender : s'.trender.done s'.nextTrenderBlock = s.trender.done s.nextTrenderBlock)
    (hworker : ∀ i, (s'.nextWorkerBlock ≤ i ∧ i < (s'.worker.piece s'.nextWorkerBlock).1 ∨
        (s'.worker.piece s'.nextWorkerBlock).2 ≤ i ∧ i < n) ↔
      (s.nextWorkerBlock ≤ i ∧ i < (s.worker.piece s.nextWorkerBlock).1 ∨
        (s.worker.piece s.nextWorkerBlock).2 ≤ i ∧ i < n))
    (hrunning : s'.trender.running ++ s'.worker.running
      = s.trender.running ++ s.worker.running) : Account n r' s' where
  computed hb i := by
    simp only [htrender, hworker i, hcomputed]
    exact h.computed (hblock ▸ hb) i
  running := by
    rw [hrunning, hruns]
    exact h.running

/-! ## Steps of the trender -/

theorem Control.trenderStep (h : Control n r.block s)
    (hstep : trenderStep n s = some (e, s')) : Control n (r.after e).block s' := by
  have hworks : ∀ nb, s.worker.block = some nb → s.worker.active = true :=
    fun nb => WorkerPc.active_of_block
  unfold TrendSys.trenderStep at hstep
  split at hstep
  all_goals try split at hstep
  all_goals cases hstep
  all_goals constructor
  all_goals grind -ring -linarith [Control, TrendRound.after, trenderEnd_bounds]

theorem Pieces.trenderStep (hc : Control n r.block s) (h : Pieces n r s)
    (hstep : trenderStep n s = some (e, s')) : Pieces n (r.after e) s' := by
  cases hpc : s.trender with
  | start nb =>
    -- nothing has been taken, and no thread is in a piece
    have hquiet : s.worker.active = false := by grind -ring -linarith [Control]
    simp only [TrendSys.trenderStep, hpc] at hstep
    cases hstep
    constructor <;> grind -ring -linarith [TrendRound.after]
  | take nb =>
    simp only [TrendSys.trenderStep, hpc] at hstep
    split at hstep
    · cases hstep
      constructor <;> grind -ring -linarith [Pieces, TrendRound.after]
    · next hlt =>
      cases hstep
      have hopen : r.block ≠ none := by grind -ring -linarith [Control]
      obtain ⟨hle, hn⟩ := hc.le hopen
      obtain ⟨hlo, hhi⟩ := trenderEnd_bounds (by omega) hn
      constructor
      case apart => exact h.apart_append le_rfl hhi
      all_goals grind -ring -linarith [Pieces, TrendRound.after]
  | top | loop nb j | call nb j | wait nb | put nb | exited =>
    simp only [TrendSys.trenderStep, hpc] at hstep
    try split at hstep
    all_goals cases hstep
    all_goals constructor
    all_goals grind -ring -linarith [Pieces, Control, TrendRound.after]

theorem Account.trenderStep (hc : Control n r.block s) (hp : Pieces n r s) (h : Account n r s)
    (hstep : trenderStep n s = some (e, s')) : Account n (r.after e) s' := by
  cases hpc : s.trender with
  | start nb =>
    have hquiet : s.worker.active = false := by grind -ring -linarith [Control]
    simp only [TrendSys.trenderStep, hpc] at hstep
    cases hstep
    have hrunning := h.running
    refine ⟨fun _ i => ?_, ?_⟩
    · have hpiece := WorkerPc.piece_of_not_active hquiet n
      simp only [TrendRound.after, List.count_nil, TrenderPc.done, hpiece]
      grind -ring -linarith
    · simpa only [TrendRound.after, hpc, TrenderPc.running] using hrunning
  | loop nb j =>
    have hle := (hp.trenderLoop nb j (Or.inl hpc)).1
    simp only [TrendSys.trenderStep, hpc] at hstep
    split at hstep
    · cases hstep
      refine ⟨fun hb i => ?_, ?_⟩
      · have hcount := h.computed hb i
        rw [hpc] at hcount
        exact hcount
      · have hrunning := h.running
        simp only [hpc, TrenderPc.running, List.nil_append] at hrunning
        exact (hrunning.append_right _).trans List.perm_append_comm
    · cases hstep
      apply h.congr
      all_goals grind -ring -linarith [TrendRound.after]
  | call nb j =>
    have hblock := (hc.trenderBlock nb (by rw [hpc]; rfl)).1
    simp only [TrendSys.trenderStep, hpc] at hstep
    cases hstep
    refine ⟨fun hb i => ?_, ?_⟩
    · have hcount := h.computed hb i
      simp only [hpc, TrenderPc.done] at hcount
      simp only [TrendRound.after, if_pos hblock, TrenderPc.done, List.count_append,
        List.count_singleton, hcount]
      grind -ring -linarith
    · have hrunning := h.running
      simp only [hpc, TrenderPc.running, List.singleton_append] at hrunning
      simpa [TrendRound.after, TrenderPc.running] using hrunning.erase (.trender, nb, j)
  | top | take nb | wait nb | put nb | exited =>
    simp only [TrendSys.trenderStep, hpc] at hstep
    try split at hstep
    all_goals cases hstep
    all_goals apply h.congr
    all_goals grind -ring -linarith [TrendRound.after]

theorem Inv.trenderStep (h : Inv n r s) (hstep : trenderStep n s = some (e, s')) :
    Inv n (r.after e) s' :=
  ⟨h.control.trenderStep hstep, h.pieces.trenderStep h.control hstep,
    h.account.trenderStep h.control h.pieces hstep⟩

/-! ## Steps of the worker -/

theorem Control.workerStep (h : Control n r.block s)
    (hstep : workerStep s = some (e, s')) : Control n (r.after e).block s' := by
  have hworks : ∀ nb, s.worker.block = some nb → s.worker.active = true :=
    fun nb => WorkerPc.active_of_block
  unfold TrendSys.workerStep at hstep
  split at hstep
  all_goals try split at hstep
  all_goals cases hstep
  all_goals constructor
  all_goals grind -ring -linarith [Control, TrendRound.after, workerStart_bounds]

theorem Pieces.workerStep (hc : Control n r.block s) (h : Pieces n r s)
    (hstep : workerStep s = some (e, s')) : Pieces n (r.after e) s' := by
  cases hpc : s.worker with
  | take nb =>
    simp only [TrendSys.workerStep, hpc] at hstep
    split at hstep
    · cases hstep
      constructor <;> grind -ring -linarith [Pieces, TrendRound.after]
    · next hlt =>
      cases hstep
      have hopen : r.block ≠ none := by grind -ring -linarith [Control]
      obtain ⟨hle, hn⟩ := hc.le hopen
      obtain ⟨hlo, hhi⟩ := workerStart_bounds (Nat.lt_of_not_ge hlt)
      constructor
      case apart => exact h.apart_append hlo le_rfl
      all_goals grind -ring -linarith [Pieces, TrendRound.after]
  | top | wait | picked nb | enter nb last | loop nb j last | call nb j last | test nb
  | finish | exited =>
    simp only [TrendSys.workerStep, hpc] at hstep
    try split at hstep
    all_goals cases hstep
    all_goals constructor
    all_goals grind -ring -linarith [Pieces, Control, TrendRound.after]

theorem Account.workerStep (hc : Control n r.block s) (hp : Pieces n r s) (h : Account n r s)
    (hstep : workerStep s = some (e, s')) : Account n (r.after e) s' := by
  cases hpc : s.worker with
  | loop nb j last =>
    obtain ⟨hge, hle, hmem⟩ := hp.workerLoop nb j last (Or.inl hpc)
    have hlast := (hp.bounds _ _ _ hmem).2.1
    simp only [TrendSys.workerStep, hpc] at hstep
    split at hstep
    · cases hstep
      refine ⟨fun hb i => ?_, ?_⟩
      · have hcount := h.computed hb i
        rw [hpc] at hcount
        exact hcount
      · have hrunning := h.running
        simp only [hpc, WorkerPc.running, List.append_nil] at hrunning
        exact hrunning.append_right _
    · cases hstep
      apply h.congr
      all_goals grind -ring -linarith [TrendRound.after]
  | call nb j last =>
    have hlt := hp.workerCall nb j last hpc
    obtain ⟨hge, hle, hmem⟩ := hp.workerLoop nb j last (Or.inr hpc)
    have hblock : r.block = some nb := by
      rw [hc.workerBlock nb (by rw [hpc]; rfl)]
      exact hc.current (hc.active (by rw [hpc]; rfl))
    simp only [TrendSys.workerStep, hpc] at hstep
    cases hstep
    refine ⟨fun hb i => ?_, ?_⟩
    · have hcount := h.computed hb i
      simp only [hpc, WorkerPc.piece] at hcount
      simp only [TrendRound.after, if_pos hblock, WorkerPc.piece, List.count_append,
        List.count_singleton, hcount]
      grind -ring -linarith
    · have hrunning := h.running
      simp only [hpc, WorkerPc.running] at hrunning
      have herase := (hrunning.trans List.perm_append_comm).erase (.worker, nb, j)
      simpa [TrendRound.after, WorkerPc.running] using herase
  | top | wait | picked nb | take nb | enter nb last | test nb | finish | exited =>
    simp only [TrendSys.workerStep, hpc] at hstep
    try split at hstep
    all_goals cases hstep
    all_goals apply h.congr
    all_goals grind -ring -linarith [TrendRound.after]

theorem Inv.workerStep (h : Inv n r s) (hstep : workerStep s = some (e, s')) :
    Inv n (r.after e) s' :=
  ⟨h.control.workerStep hstep, h.pieces.workerStep h.control hstep,
    h.account.workerStep h.control h.pieces hstep⟩

/-! ## Whole runs -/

theorem Inv.idle_move (h : Inv n r s) (hpc : s.trender = .top) {pc : TrenderPc}
    (hto : pc = .exited ∨ ∃ nb, pc = .start nb) : Inv n r { s with trender := pc } := by
  obtain ⟨hc, hp, ha⟩ := h
  refine ⟨?_, ?_, ?_⟩
  · constructor
    case picked => exact hc.picked
    all_goals grind -ring -linarith [Control]
  · constructor
    all_goals grind -ring -linarith [Pieces]
  · apply ha.congr
    all_goals grind -ring -linarith

theorem Inv.step {act : Act} (h : Inv n r s) (hstep : step n s act = some (e, s')) :
    Inv n (r.after e) s' := by
  cases act with
  | trender => exact h.trenderStep hstep
  | worker => exact h.workerStep hstep
  | stop =>
    obtain ⟨hc, hp, ha⟩ := h
    simp only [TrendSys.step] at hstep
    cases hstep
    exact ⟨⟨hc.idle, hc.closed, hc.active, hc.trenderBlock, hc.workerBlock, hc.current,
      fun _ _ => Or.inl rfl, hc.le, hc.met⟩, { hp with },
      ⟨ha.computed, ha.running⟩⟩
  | getBlock nb bytes =>
    simp only [TrendSys.step] at hstep
    split at hstep
    · next htop =>
      split at hstep
      · cases hstep
        exact h.idle_move htop.1 (Or.inl rfl)
      · split at hstep
        · cases hstep
          exact h.idle_move htop.1 (Or.inl rfl)
        · cases hstep
          exact h.idle_move htop.1 (Or.inr ⟨nb, rfl⟩)
    · cases hstep

theorem run_inv {nb : ℤ} {t w : ℕ} {acts : List Act} {tr : List Event}
    (h : run (step n) (init nb t w) acts = some (tr, s)) : Inv n (.ofTrace tr) s := by
  refine run_induction (fun tr s => Inv n (.ofTrace tr) s) ?_ (inv_init nb t w) h
  intro tr s act _ e s' hinv hstep
  rw [TrendRound.ofTrace_append]
  exact hinv.step hstep

/-- When the worker has given the round back and the trender takes no more, every channel has
been computed once and no call runs. -/
theorem Inv.complete (h : Inv n r s) {nb : ℤ} (hopen : r.block = some nb)
    (hbusy : s.workerBusy = false) (hdone : s.trender.done s.nextTrenderBlock = s.nextTrenderBlock)
    (hruns : s.trender.running = []) :
    r.computed.Perm (List.range n) ∧ r.running = [] ∧
      ∀ i < n, ∃ t lo hi, (t, lo, hi) ∈ r.taken ∧ lo ≤ i ∧ i < hi := by
  have hb : r.block ≠ none := by simp [hopen]
  have hmet := h.control.met hb (Or.inl hbusy)
  have hquiet : s.worker.active = false := by
    by_contra hact
    have := h.control.active (by simpa using hact)
    simp [hbusy] at this
  have hpiece := WorkerPc.piece_of_not_active hquiet s.nextWorkerBlock
  refine ⟨?_, ?_, ?_⟩
  · rw [List.perm_iff_count]
    intro i
    have hcount := h.account.computed hb i
    rw [hdone, hpiece, hmet] at hcount
    rw [hcount]
    have hn := (h.control.le hb).2
    rw [List.nodup_range.count]
    simp only [List.mem_range]
    grind -ring -linarith
  · have hperm := h.account.running
    rw [hruns, WorkerPc.running_of_not_active hquiet] at hperm
    exact hperm.eq_nil
  · intro i hi
    exact h.pieces.cover hb i hi (by omega)

theorem at_wait_or_put {act : Act} {nb : ℤ} (hstep : step n s act = some (e, s'))
    (he : e = .passed nb ∨ e = .put nb) :
    (s.trender = .wait nb ∧ s.workerBusy = false) ∨ s.trender = .put nb := by
  cases act with
  | trender =>
    simp only [TrendSys.step] at hstep
    unfold TrendSys.trenderStep at hstep
    split at hstep
    all_goals try split at hstep
    all_goals grind -ring -linarith
  | worker =>
    simp only [TrendSys.step] at hstep
    unfold TrendSys.workerStep at hstep
    split at hstep
    all_goals try split at hstep
    all_goals grind -ring -linarith
  | stop | getBlock nb bytes => grind -ring -linarith [TrendSys.step]

/-- Second-trend work sharing. -/
theorem run_computes_every_channel_once (numChannels : ℕ) (nb₀ : ℤ) (t₀ w₀ : ℕ)
    (acts : List Act) (tr : List Event) (s : TrendSys)
    (h : run (step numChannels) (init nb₀ t₀ w₀) acts = some (tr, s)) :
    let r := TrendRound.ofTrace tr
    (∀ t lo hi, (t, lo, hi) ∈ r.taken → lo < hi ∧ hi ≤ numChannels) ∧
    r.taken.Pairwise (fun a b => a.2.2 ≤ b.2.1 ∨ b.2.2 ≤ a.2.1) ∧
    (∀ t nb j, (t, nb, j) ∈ r.called →
      r.block = some nb ∧ ∃ lo hi, (t, lo, hi) ∈ r.taken ∧ lo ≤ j ∧ j < hi) ∧
    (∀ act e s' nb, step numChannels s act = some (e, s') → e = .passed nb ∨ e = .put nb →
      r.block = some nb ∧
      (∀ i < numChannels, ∃ t lo hi, (t, lo, hi) ∈ r.taken ∧ lo ≤ i ∧ i < hi) ∧
      r.computed.Perm (List.range numChannels) ∧ r.running = []) := by
  have hinv := run_inv h
  intro r
  refine ⟨?_, hinv.pieces.apart, hinv.pieces.called, ?_⟩
  · intro t lo hi hmem
    have := hinv.pieces.bounds t lo hi hmem
    exact ⟨this.1, this.2.1⟩
  · intro act e s' nb hstep he
    rcases at_wait_or_put hstep he with ⟨hpc, hbusy⟩ | hpc
    · have hblock := (hinv.control.trenderBlock nb (by rw [hpc]; rfl)).1
      obtain ⟨hall, hruns, hcover⟩ :=
        hinv.complete hblock hbusy (by rw [hpc]; rfl) (by rw [hpc]; rfl)
      exact ⟨hblock, hcover, hall, hruns⟩
    · have hblock := (hinv.control.trenderBlock nb (by rw [hpc]; rfl)).1
      have hbusy := hinv.control.idle (by rw [hpc]; rfl)
      obtain ⟨hall, hruns, hcover⟩ :=
        hinv.complete hblock hbusy (by rw [hpc]; rfl) (by rw [hpc]; rfl)
      exact ⟨hblock, hcover, hall, hruns⟩

/-- Twelve channels: the trender takes the first ten, the worker the last two, and their calls
overlap. -/
theorem run_computes_every_channel_once_twelve : ∃ tr s,
    run (step 12) (init 0 0 0) (.getBlock 3 1 :: List.replicate 2 .trender
      ++ List.replicate 6 .worker ++ List.replicate 22 .trender ++ List.replicate 7 .worker)
      = some (tr, s) ∧ (TrendRound.ofTrace tr).computed.Perm (List.range 12) := by
  refine ⟨_, _, rfl, ?_⟩
  exact ((run_computes_every_channel_once 12 0 0 0 (.getBlock 3 1 :: List.replicate 2 .trender
    ++ List.replicate 6 .worker ++ List.replicate 22 .trender ++ List.replicate 7 .worker)
    _ _ rfl).2.2.2 .trender (.passed 3) _ 3 rfl (Or.inl rfl)).2.2.1

end TrendSys

end AdvLigoRts.Daqd
