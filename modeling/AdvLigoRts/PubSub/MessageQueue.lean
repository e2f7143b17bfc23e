import AdvLigoRts.Lib.Machine
import AdvLigoRts.Lib.Ring

/-!
# The bounded queue between the publisher's threads

`Message_queue< T, MaxSize >` of pub_sub_stream/message_queue.hh: a ring of raw storage in
which both indices run downwards, and a counter that tells the full ring from the empty one.
A cell of `storage` is `some v` while an object lives in it and `none` while it is raw.

Every operation runs under the mutex, so that an interleaving of producers and consumers is
a list of operations, each taken at the moment it stops waiting. An operation that still has
to wait is disabled; one that touches an object which is not there shows `fault`.
-/

namespace AdvLigoRts.PubSub

open PvLib

variable {T : Type*}

/-- The members of `Message_queue` but for the mutex and the two condition variables. -/
structure MessageQueue (T : Type*) where
  storage : ℕ → Option T
  size : ℕ
  begin_ : ℕ
  end_ : ℕ

namespace MessageQueue

variable (maxSize : ℕ)

/-- The queue as its member initialisers leave it. -/
def init : MessageQueue T where
  storage := fun _ => none
  size := 0
  begin_ := maxSize - 1
  end_ := maxSize - 1

def decr (i : ℕ) : ℕ := if i = 0 then maxSize - 1 else i - 1

def emplaceWhileLocked (q : MessageQueue T) (v : T) : MessageQueue T where
  storage := Function.update q.storage q.begin_ (some v)
  size := q.size + 1
  begin_ := decr maxSize q.begin_
  end_ := q.end_

/-- The value moved out of the cell, if an object lives there, and the queue without it. -/
def popWhileLocked (q : MessageQueue T) : Option T × MessageQueue T :=
  (q.storage q.end_,
    { storage := Function.update q.storage q.end_ none
      size := q.size - 1
      begin_ := q.begin_
      end_ := decr maxSize q.end_ })

inductive Op (T : Type*) where
  | emplace (v : T)
  | emplaceWithTimeout (v : T)
  | pop
  | popFor

/-- What the caller of an operation sees. -/
inductive Event (T : Type*) where
  | emplaced (v : T)
  | emplacedWithTimeout (v : T) (results : Option T)
  | popped (v : T)
  | poppedFor (result : Option T)
  | fault

/-- One operation, at the moment it stops waiting. -/
def step (q : MessageQueue T) : Op T → Option (Event T × MessageQueue T)
  | .emplace v =>
    -- `wait_for_free_space`
    if q.size = maxSize then none
    else some (.emplaced v, emplaceWhileLocked maxSize q v)
  | .emplaceWithTimeout v =>
    if q.size < maxSize then
      some (.emplacedWithTimeout v none, emplaceWhileLocked maxSize q v)
    else
      -- `wait_for` timed out
      some (.emplacedWithTimeout v (some v), q)
  | .pop =>
    -- `wait_for_non_empty`
    if q.size = 0 then none
    else
      match popWhileLocked maxSize q with
      | (some v, q') => some (.popped v, q')
      | (none, q') => some (.fault, q')
  | .popFor =>
    if q.size > 0 then
      match popWhileLocked maxSize q with
      | (some v, q') => some (.poppedFor (some v), q')
      | (none, q') => some (.fault, q')
    else some (.poppedFor none, q)

/-- The loop of `~Message_queue`: the objects destroyed, in order, and the storage it leaves. -/
def destroy (storage : ℕ → Option T) (end_ : ℕ) : ℕ → List (Option T) × (ℕ → Option T)
  | 0 => ([], storage)
  | size + 1 =>
    let rest := destroy (Function.update storage end_ none) (decr maxSize end_) size
    (storage end_ :: rest.1, rest.2)

end MessageQueue

namespace MessageQueue.Event

/-- The value that the queue took over from the caller. -/
def accepted : Event T → Option T
  | emplaced v => some v
  | emplacedWithTimeout v none => some v
  | _ => none

/-- The value that the queue gave to the caller of `pop`. -/
def returned : Event T → Option T
  | popped v => some v
  | poppedFor r => r
  | _ => none

end MessageQueue.Event

namespace MessageQueue

/-! ## The live cells -/

variable {maxSize : ℕ}

/-- The storage read in the order in which the indices run. -/
def cell (maxSize : ℕ) (q : MessageQueue T) (j : ℕ) : Option T :=
  if j < maxSize then q.storage (maxSize - 1 - j) else none

/-- The queue holds `xs`, oldest first: the objects live in the cyclic interval from `end_`
down to `begin_`, and nowhere else. -/
structure Holds (maxSize : ℕ) (q : MessageQueue T) (xs : List T) : Prop where
  begin_lt : q.begin_ < maxSize
  end_lt : q.end_ < maxSize
  marked : Marked maxSize (maxSize - 1 - q.end_) (maxSize - 1 - q.begin_)
    (fun j => (cell maxSize q j).isSome) q.size
  items : ringItems maxSize (maxSize - 1 - q.end_) q.size (cell maxSize q) = xs.map some

/-- Downwards in the storage is upwards in the order of `cell`. -/
theorem reflect_decr {i : ℕ} (hi : i < maxSize) :
    decr maxSize i < maxSize ∧ maxSize - 1 - decr maxSize i = (maxSize - 1 - i + 1) % maxSize := by
  unfold decr
  split
  · next hz =>
    subst hz
    have hwrap : maxSize - 1 - 0 + 1 = maxSize := by omega
    rw [hwrap, Nat.mod_self]
    omega
  · rw [Nat.mod_eq_of_lt (by omega)]
    omega

theorem cell_update {q q' : MessageQueue T} {i : ℕ} {c : Option T} (hi : i < maxSize)
    (hq : q'.storage = Function.update q.storage i c) (j : ℕ) :
    cell maxSize q' j = if j = maxSize - 1 - i then c else cell maxSize q j := by
  unfold cell
  by_cases hj : j < maxSize
  · have hiff : maxSize - 1 - j = i ↔ j = maxSize - 1 - i := by omega
    simp only [if_pos hj, hq, Function.update_apply, hiff]
  · have hne : j ≠ maxSize - 1 - i := by omega
    simp only [if_neg hj, if_neg hne]

theorem holds_init (hmax : 1 ≤ maxSize) : Holds maxSize (init maxSize : MessageQueue T) [] where
  begin_lt := by simp only [init]; omega
  end_lt := by simp only [init]; omega
  marked := by
    apply Marked.none_marked
    · simp only [init]; omega
    · intro j _
      simp [cell, init]
  items := rfl

namespace Holds

variable {q : MessageQueue T} {xs : List T}

theorem size_eq (h : Holds maxSize q xs) : q.size = xs.length := by
  have := congrArg List.length h.items
  simpa [ringItems] using this

theorem size_le (h : Holds maxSize q xs) : q.size ≤ maxSize := h.marked.le

/-- The storage cell at `begin_` is raw while there is room. -/
theorem begin_raw (h : Holds maxSize q xs) (hroom : q.size < maxSize) :
    (cell maxSize q (maxSize - 1 - q.begin_)).isSome = false := by
  have hmark := h.marked.mark_eq q.size hroom
  rw [h.marked.end_eq] at hmark
  simpa using hmark

/-- A new object goes to the end of the line. -/
theorem emplace (h : Holds maxSize q xs) (hroom : q.size < maxSize) (v : T) :
    Holds maxSize (emplaceWhileLocked maxSize q v) (xs ++ [v]) := by
  obtain ⟨hlt, hrefl⟩ := reflect_decr h.begin_lt
  have hcell : ∀ j, cell maxSize (emplaceWhileLocked maxSize q v) j
      = if j = maxSize - 1 - q.begin_ then some v else cell maxSize q j :=
    cell_update h.begin_lt rfl
  have hraw := h.begin_raw hroom
  refine ⟨hlt, h.end_lt, ?_, ?_⟩
  · show Marked maxSize (maxSize - 1 - q.end_) (maxSize - 1 - decr maxSize q.begin_) _ (q.size + 1)
    rw [hrefl]
    apply h.marked.push hraw
    intro j _
    simp only [hcell j]
    split <;> rfl
  · show ringItems maxSize (maxSize - 1 - q.end_) (q.size + 1) _ = _
    rw [ringItems_push h.marked hraw (fun j hj => (hcell j).trans (if_neg hj)), h.items, hcell,
      if_pos rfl, List.map_append, List.map_singleton]

/-- What lives at `end_` is the oldest value, and the queue without it holds the others. -/
theorem pop (h : Holds maxSize q xs) (hpos : 0 < q.size) :
    ∃ v rest, xs = v :: rest ∧ q.storage q.end_ = some v ∧
      Holds maxSize (popWhileLocked maxSize q).2 rest := by
  obtain ⟨hlt, hrefl⟩ := reflect_decr h.end_lt
  have hcell : ∀ j, cell maxSize (popWhileLocked maxSize q).2 j
      = if j = maxSize - 1 - q.end_ then none else cell maxSize q j :=
    cell_update h.end_lt rfl
  have hitems := h.items
  rw [ringItems_cons h.marked.start_lt hpos] at hitems
  obtain ⟨v, rest, rfl⟩ : ∃ v rest, xs = v :: rest := by
    cases xs with
    | nil => cases hitems
    | cons v rest => exact ⟨v, rest, rfl⟩
  rw [List.map_cons, List.cons.injEq] at hitems
  obtain ⟨hfirst, hrest⟩ := hitems
  have hlive : (cell maxSize q (maxSize - 1 - q.end_)).isSome = true := by rw [hfirst]; rfl
  have hmarked : Marked maxSize ((maxSize - 1 - q.end_ + 1) % maxSize) (maxSize - 1 - q.begin_)
      (fun j => (cell maxSize (popWhileLocked maxSize q).2 j).isSome) (q.size - 1) := by
    apply h.marked.pop hlive
    intro j _
    simp only [hcell j]
    split <;> rfl
  refine ⟨v, rest, rfl, ?_, h.begin_lt, hlt, ?_, ?_⟩
  · have hback : maxSize - 1 - (maxSize - 1 - q.end_) = q.end_ := by
      have := h.end_lt
      omega
    have hin : maxSize - 1 - q.end_ < maxSize := h.marked.start_lt
    rw [cell, if_pos hin, hback] at hfirst
    exact hfirst
  · show Marked maxSize (maxSize - 1 - decr maxSize q.end_) (maxSize - 1 - q.begin_) _ (q.size - 1)
    rw [hrefl]
    exact hmarked
  · show ringItems maxSize (maxSize - 1 - decr maxSize q.end_) (q.size - 1) _ = _
    rw [hrefl, ← hrest]
    -- the cell just left is not among those still marked
    apply ringItems_congr
    intro d hd
    rw [hcell, if_neg]
    intro heq
    rw [ringAt_succ_start] at heq
    have hle := h.size_le
    have hzero := ringAt_zero h.marked.start_lt
    have := (ringAt_inj h.marked.start_lt (by omega) (by omega)).mp (heq.trans hzero.symm)
    omega

end Holds

/-! ## One operation -/

/-- What an operation does to a queue that holds `xs`: it takes one value in at the end, it
hands a value back because the queue is full, it gives out the first value, or it finds
nothing to give out. -/
inductive Does (maxSize : ℕ) (xs : List T) : Op T → Event T → List T → Prop
  | emplace (v : T) : xs.length < maxSize →
      Does maxSize xs (.emplace v) (.emplaced v) (xs ++ [v])
  | enqueue (v : T) : xs.length < maxSize →
      Does maxSize xs (.emplaceWithTimeout v) (.emplacedWithTimeout v none) (xs ++ [v])
  | handBack (v : T) : xs.length = maxSize →
      Does maxSize xs (.emplaceWithTimeout v) (.emplacedWithTimeout v (some v)) xs
  | pop (v : T) (rest : List T) : xs = v :: rest →
      Does maxSize xs .pop (.popped v) rest
  | popFor (v : T) (rest : List T) : xs = v :: rest →
      Does maxSize xs .popFor (.poppedFor (some v)) rest
  | popTimeout : xs = [] → Does maxSize xs .popFor (.poppedFor none) xs

/-- Every operation that stops waiting does one of these, and none touches a raw cell. -/
theorem step_does {q q' : MessageQueue T} {xs : List T} {op : Op T} {e : Event T}
    (h : Holds maxSize q xs) (hstep : step maxSize q op = some (e, q')) :
    ∃ ys, Does maxSize xs op e ys ∧ Holds maxSize q' ys := by
  have hlen := h.size_eq
  have hle := h.size_le
  cases op with
  | emplace v =>
    simp only [step] at hstep
    split at hstep
    · cases hstep
    · cases hstep
      exact ⟨_, .emplace v (by omega), h.emplace (by omega) v⟩
  | emplaceWithTimeout v =>
    simp only [step] at hstep
    split at hstep
    · cases hstep
      exact ⟨_, .enqueue v (by omega), h.emplace (by omega) v⟩
    · cases hstep
      exact ⟨_, .handBack v (by omega), h⟩
  | pop =>
    simp only [step] at hstep
    split at hstep
    · cases hstep
    · obtain ⟨v, rest, hxs, hlive, hrest⟩ := h.pop (by omega)
      simp only [popWhileLocked, hlive] at hstep
      cases hstep
      exact ⟨rest, .pop v rest hxs, hrest⟩
  | popFor =>
    simp only [step] at hstep
    split at hstep
    · obtain ⟨v, rest, hxs, hlive, hrest⟩ := h.pop (by omega)
      simp only [popWhileLocked, hlive] at hstep
      cases hstep
      exact ⟨rest, .popFor v rest hxs, hrest⟩
    · cases hstep
      exact ⟨xs, .popTimeout (List.eq_nil_of_length_eq_zero (by omega)), h⟩

/-- The destructor walks over the live cells only, and over all of them. -/
theorem destroy_eq {q : MessageQueue T} {xs : List T} (h : Holds maxSize q xs) :
    (destroy maxSize q.storage q.end_ q.size).1 = xs.map some ∧
      ∀ i < maxSize, (destroy maxSize q.storage q.end_ q.size).2 i = none := by
  -- the loop pops without handing the values out
  induction hsize : q.size generalizing q xs with
  | zero =>
    have hnil : xs = [] := List.eq_nil_of_length_eq_zero (by rw [← h.size_eq, hsize])
    refine ⟨by rw [hnil]; rfl, fun i hi => ?_⟩
    have hj : maxSize - 1 - i < maxSize := by omega
    have hback : maxSize - 1 - (maxSize - 1 - i) = i := by omega
    have hmark := h.marked.mark_iff hj
    have hraw : ¬ (cell maxSize q (maxSize - 1 - i)).isSome = true := by
      intro hlive
      obtain ⟨d, hd, -⟩ := hmark.mp hlive
      omega
    rw [cell, if_pos hj, hback] at hraw
    simpa [destroy] using hraw
  | succ n ih =>
    obtain ⟨v, rest, rfl, hlive, hrest⟩ := h.pop (by omega)
    obtain ⟨hdestroyed, hleft⟩ := ih hrest (by simp [popWhileLocked, hsize])
    simp only [popWhileLocked] at hdestroyed hleft
    refine ⟨?_, hleft⟩
    simp only [destroy, hlive, hdestroyed, List.map_cons]

/-! ## Whole runs -/

theorem run_holds (hmax : 1 ≤ maxSize) {ops : List (Op T)} {tr : List (Event T)}
    {q : MessageQueue T} (h : run (step maxSize) (init maxSize) ops = some (tr, q)) :
    Event.fault ∉ tr ∧ ∃ xs, Holds maxSize q xs ∧
      tr.filterMap Event.accepted = tr.filterMap Event.returned ++ xs := by
  refine run_induction (fun tr q => Event.fault ∉ tr ∧ ∃ xs, Holds maxSize q xs ∧
      tr.filterMap Event.accepted = tr.filterMap Event.returned ++ xs)
    ?_ ⟨by simp, [], holds_init hmax, rfl⟩ h
  rintro tr q op - e q' ⟨hfault, xs, hxs, heq⟩ hstep
  obtain ⟨ys, hdoes, hys⟩ := step_does hxs hstep
  refine ⟨?_, ys, hys, ?_⟩
  · cases hdoes <;> simpa using hfault
  · rw [List.filterMap_append, List.filterMap_append, heq]
    cases hdoes with
    | emplace v _ | enqueue v _ => simp [Event.accepted, Event.returned]
    | handBack v _ => simp [List.filterMap_cons, Event.accepted, Event.returned]
    | pop v rest hxs | popFor v rest hxs => simp [Event.accepted, Event.returned, hxs]
    | popTimeout hxs => simp [List.filterMap_cons, Event.accepted, Event.returned]

/-- The queue is a bounded FIFO under any interleaving of its operations: what `pop` returned
is a prefix of what was accepted, `size` counts the difference, `emplace_with_timeout` hands
a value back exactly when it finds the queue full and does not enqueue it, an operation waits
only when the queue is full or empty, and the destructor destroys each of the values still
queued, and nothing else. -/
theorem run_bounded_fifo (hmax : 1 ≤ maxSize) (ops : List (Op T)) (tr : List (Event T))
    (q : MessageQueue T) (h : run (step maxSize) (init maxSize) ops = some (tr, q)) :
    let accepted := tr.filterMap Event.accepted
    let returned := tr.filterMap Event.returned
    returned <+: accepted ∧
    accepted.length = returned.length + q.size ∧ q.size ≤ maxSize ∧
    Event.fault ∉ tr ∧
    (∀ v, step maxSize q (.emplaceWithTimeout v)
      = if q.size = maxSize then some (.emplacedWithTimeout v (some v), q)
        else some (.emplacedWithTimeout v none, emplaceWhileLocked maxSize q v)) ∧
    (∀ v, step maxSize q (.emplace v) = none ↔ q.size = maxSize) ∧
    (step maxSize q .pop = none ↔ q.size = 0) ∧
    (destroy maxSize q.storage q.end_ q.size).1 = (accepted.drop returned.length).map some ∧
    (∀ i < maxSize, (destroy maxSize q.storage q.end_ q.size).2 i = none) := by
  obtain ⟨hfault, xs, hxs, heq⟩ := run_holds hmax h
  have hle := hxs.size_le
  obtain ⟨hdestroyed, hleft⟩ := destroy_eq hxs
  intro accepted returned
  have heq' : accepted = returned ++ xs := heq
  refine ⟨⟨xs, heq'.symm⟩, ?_, hle, hfault, ?_, ?_, ?_, ?_, hleft⟩
  · rw [heq', List.length_append, hxs.size_eq]
  · intro v
    by_cases hfull : q.size = maxSize
    · simp [step, hfull]
    · simp [step, hfull, Nat.lt_of_le_of_ne hle hfull]
  · intro v
    simp [step]
  · simp only [step]
    split
    · simpa
    · split <;> simpa
  · rw [hdestroyed, heq', List.drop_left]

/-- Two values through a queue of one cell: the second waits its turn outside. -/
theorem run_bounded_fifo_one_cell : ∃ tr q, run (step 1) (init 1 : MessageQueue ℕ)
      [.emplace 7, .emplaceWithTimeout 8, .popFor, .emplace 8] = some (tr, q) ∧
    tr.filterMap Event.returned <+: tr.filterMap Event.accepted := by
  refine ⟨_, _, rfl, ?_⟩
  exact (run_bounded_fifo Nat.one_pos
    [.emplace 7, .emplaceWithTimeout 8, .popFor, .emplace 8] _ _ rfl).1

end MessageQueue

end AdvLigoRts.PubSub
