import AdvLigoRts.Lib.Machine
import Mathlib.Data.List.Basic

/-!
# Fan-out queues

The specification of a one-to-many queue: one FIFO queue per member. Every `put` appends its item to
the queue of each current member, a member that joins starts with an empty queue, and a `take`
removes the head of the taker's own queue.
-/

namespace PvLib.FanOut

variable {ι α : Type*} [DecidableEq ι]

/-- What a step shows. `tau` is a step that no member can observe. -/
inductive Event (ι α : Type*)
  | put (x : α)
  | join (i : ι)
  | leave (i : ι)
  | take (i : ι) (x : α)
  | tau
deriving DecidableEq

/-- The queues of the current members; `none` for everyone else. -/
abbrev Queues (ι α : Type*) := ι → Option (List α)

/-- The steps of the queues. -/
inductive Step : Queues ι α → Event ι α → Queues ι α → Prop
  | put (q : Queues ι α) (x : α) : Step q (.put x) (fun i => (q i).map (· ++ [x]))
  | join {q : Queues ι α} {i : ι} (h : q i = none) :
      Step q (.join i) (Function.update q i (some []))
  | leave (q : Queues ι α) (i : ι) : Step q (.leave i) (Function.update q i none)
  | take {q : Queues ι α} {i : ι} {x : α} {xs : List α} (h : q i = some (x :: xs)) :
      Step q (.take i x) (Function.update q i (some xs))
  | tau (q : Queues ι α) : Step q .tau q

/-- What was put since member `i` last joined (since the start if it never did). -/
def putsSince (i : ι) (tr : List (Event ι α)) : List α :=
  tr.foldl (fun acc e => match e with
    | .put x => acc ++ [x]
    | .join j => if j = i then [] else acc
    | _ => acc) []

/-- What member `i` took since it last joined (since the start if it never did). -/
def takesSince (i : ι) (tr : List (Event ι α)) : List α :=
  tr.foldl (fun acc e => match e with
    | .take j x => if j = i then acc ++ [x] else acc
    | .join j => if j = i then [] else acc
    | _ => acc) []

section Histories

variable (i : ι) (tr : List (Event ι α))

@[simp] theorem putsSince_nil : putsSince i ([] : List (Event ι α)) = [] := rfl

@[simp] theorem takesSince_nil : takesSince i ([] : List (Event ι α)) = [] := rfl

@[simp] theorem putsSince_put (x : α) : putsSince i (tr ++ [.put x]) = putsSince i tr ++ [x] := by
  simp [putsSince]

@[simp] theorem putsSince_join (j : ι) :
    putsSince i (tr ++ [.join j]) = if j = i then [] else putsSince i tr := by
  simp [putsSince]

@[simp] theorem putsSince_leave (j : ι) : putsSince i (tr ++ [.leave j]) = putsSince i tr := by
  simp [putsSince]

@[simp] theorem putsSince_take (j : ι) (x : α) :
    putsSince i (tr ++ [.take j x]) = putsSince i tr := by
  simp [putsSince]

@[simp] theorem putsSince_tau : putsSince i (tr ++ [.tau]) = putsSince i tr := by
  simp [putsSince]

@[simp] theorem takesSince_put (x : α) : takesSince i (tr ++ [.put x]) = takesSince i tr := by
  simp [takesSince]

@[simp] theorem takesSince_join (j : ι) :
    takesSince i (tr ++ [.join j]) = if j = i then [] else takesSince i tr := by
  simp [takesSince]

@[simp] theorem takesSince_leave (j : ι) :
    takesSince i (tr ++ [.leave j]) = takesSince i tr := by
  simp [takesSince]

@[simp] theorem takesSince_take (j : ι) (x : α) :
    takesSince i (tr ++ [.take j x]) =
      if j = i then takesSince i tr ++ [x] else takesSince i tr := by
  simp [takesSince]

@[simp] theorem takesSince_tau : takesSince i (tr ++ [.tau]) = takesSince i tr := by
  simp [takesSince]

end Histories

/-- What member `i` may count on while it does not leave: it stays a member, and nobody else
takes its name. -/
theorem Step.member {i : ι} {q q' : Queues ι α} {e : Event ι α} (h : Step q e q')
    (hi : q i ≠ none) (he : e ≠ .leave i) : q' i ≠ none ∧ e ≠ .join i := by
  cases h with
  | put x => exact ⟨by simpa using hi, by simp⟩
  -- a name in use cannot be joined under
  | @join j hj =>
    have hij : i ≠ j := by
      rintro rfl
      exact hi hj
    exact ⟨by rwa [Function.update_of_ne hij], by simpa using hij.symm⟩
  | leave j =>
    have hij : i ≠ j := by
      rintro rfl
      exact he rfl
    exact ⟨by rwa [Function.update_of_ne hij], by simp⟩
  | @take j x xs hj =>
    refine ⟨?_, by simp⟩
    by_cases hij : i = j
    · simp [hij]
    · rwa [Function.update_of_ne hij]
  | tau => exact ⟨hi, by simp⟩

/-- The history of member `i`, as long as it is one: what was put since it joined is what it
took followed by what is still queued. -/
def Accounted (i : ι) (tr : List (Event ι α)) (q : Queues ι α) : Prop :=
  ∀ xs, q i = some xs → putsSince i tr = takesSince i tr ++ xs

theorem Step.accounted {i : ι} {tr : List (Event ι α)} {q q' : Queues ι α} {e : Event ι α}
    (hq : Accounted i tr q) (h : Step q e q') : Accounted i (tr ++ [e]) q' := by
  intro xs hi
  cases h with
  | put x =>
    obtain ⟨ys, hys, rfl⟩ := Option.map_eq_some_iff.mp hi
    simp [hq ys hys]
  | @join j hj =>
    by_cases hij : j = i
    · subst hij
      -- both histories start anew and the queue is empty
      simp only [Function.update_self, Option.some.injEq] at hi
      simp [← hi]
    · rw [Function.update_of_ne (Ne.symm hij)] at hi
      simp [hij, hq xs hi]
  | leave j =>
    by_cases hij : j = i
    · subst hij
      simp at hi
    · rw [Function.update_of_ne (Ne.symm hij)] at hi
      simp [hq xs hi]
  | @take j x ys hj =>
    by_cases hij : j = i
    · subst hij
      simp only [Function.update_self, Option.some.injEq] at hi
      subst hi
      simp [hq _ hj]
    · rw [Function.update_of_ne (Ne.symm hij)] at hi
      simp [hij, hq xs hi]
  | tau => simpa using hq xs hi

/-- No loss, no duplication, no reordering: over every run of the specification, a member
whose queue was empty at the start has its puts equal its takes followed by its queue. -/
theorem accounted_of_steps {i : ι} {tr : List (Event ι α)} {q₀ q : Queues ι α}
    (h0 : ∀ xs, q₀ i = some xs → xs = []) (h : Steps Step q₀ tr q) : Accounted i tr q := by
  induction h with
  | nil =>
    intro xs hi
    simp [h0 xs hi]
  | snoc _ hst ih => exact hst.accounted ih

end PvLib.FanOut
