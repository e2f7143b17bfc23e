import Mathlib.Tactic.Basic

/-!
# Runs of partial step functions

A machine is a step function `σ → α → Option (ε × σ)`: in state `s` the action `a` is either
disabled (`none`) or shows an event and moves to the next state. `run` feeds it a list of actions
and collects the events.
-/

namespace PvLib

variable {σ α ε τ : Type*}

/-- Run a list of actions, collecting the events they show. -/
def run (step : σ → α → Option (ε × σ)) : σ → List α → Option (List ε × σ)
  | s, [] => some ([], s)
  | s, a :: as =>
    match step s a with
    | none => none
    | some (e, t) =>
      match run step t as with
      | none => none
      | some (es, u) => some (e :: es, u)

@[simp] theorem run_nil (step : σ → α → Option (ε × σ)) (s : σ) :
    run step s [] = some ([], s) := rfl

section Partial

variable {step : σ → α → Option (ε × σ)} {s t u : σ} {a : α} {as bs : List α} {e : ε}
variable {es tr tr' : List ε} {ok : σ → α → Prop} [∀ s a, Decidable (ok s a)]

/-- A run of `a :: as` is a step of `a` followed by a run of `as`. -/
theorem run_cons (h : run step s (a :: as) = some (tr, u)) :
    ∃ e t es, step s a = some (e, t) ∧ run step t as = some (es, u) ∧ tr = e :: es := by
  unfold run at h
  split at h
  · cases h
  · rename_i e t hstep
    split at h
    · cases h
    · rename_i es v hrun
      cases h
      exact ⟨e, t, es, hstep, hrun, rfl⟩

theorem run_cons_of (hstep : step s a = some (e, t)) (h : run step t as = some (es, u)) :
    run step s (a :: as) = some (e :: es, u) := by
  rw [run, hstep]
  simp only [h]

theorem run_append (h : run step s as = some (tr, t)) (h' : run step t bs = some (tr', u)) :
    run step s (as ++ bs) = some (tr ++ tr', u) := by
  induction as generalizing s tr with
  | nil =>
    cases h
    exact h'
  | cons a as ih =>
    obtain ⟨e, v, es, hstep, hrest, rfl⟩ := run_cons h
    rw [List.cons_append, run, hstep]
    simp only [ih hrest, List.cons_append]

/-- The invariant rule, for invariants that speak of the events shown so far. -/
theorem run_induction (P : List ε → σ → Prop)
    (hstep : ∀ tr s, ∀ a ∈ as, ∀ e t, P tr s → step s a = some (e, t) → P (tr ++ [e]) t)
    (h0 : P [] s) (h : run step s as = some (tr, u)) : P tr u := by
  -- the induction is on the actions, with the events shown before them kept in `past`
  suffices hgen : ∀ (past tr : List ε) (s : σ),
      P past s → run step s as = some (tr, u) → P (past ++ tr) u by
    simpa using hgen [] tr s h0 h
  clear h h0
  induction as with
  | nil =>
    intro past tr s hp hrun
    rw [run_nil, Option.some.injEq, Prod.mk.injEq] at hrun
    obtain ⟨rfl, rfl⟩ := hrun
    simpa using hp
  | cons a as ih =>
    intro past tr s hp hrun
    obtain ⟨e, t, es, hst, hrest, rfl⟩ := run_cons hrun
    have hone := hstep past s a List.mem_cons_self e t hp hst
    have hnext := ih (fun tr s a ha => hstep tr s a (List.mem_cons_of_mem _ ha))
      (past ++ [e]) es t hone hrest
    simpa using hnext

theorem run_invariant (P : σ → Prop)
    (hstep : ∀ s, ∀ a ∈ as, ∀ e t, P s → step s a = some (e, t) → P t) (h0 : P s)
    (h : run step s as = some (tr, u)) : P u :=
  run_induction (fun _ => P) (fun _ s a ha e t => hstep s a ha e t) h0 h

/-- An event of a longer run is its last event, or an event of the run before. -/
theorem snoc_split {tr past rest : List ε} {e x : ε} (h : tr ++ [e] = past ++ x :: rest) :
    past = tr ∧ x = e ∧ rest = [] ∨ ∃ rest', tr = past ++ x :: rest' ∧ rest = rest' ++ [e] := by
  rcases List.eq_nil_or_concat rest with rfl | ⟨rest', last, rfl⟩
  · obtain ⟨rfl, hlast⟩ := List.append_inj' h rfl
    exact .inl ⟨rfl, (List.cons.inj hlast).1.symm, rfl⟩
  · rw [List.concat_eq_append, ← List.cons_append, ← List.append_assoc] at h
    obtain ⟨hpast, hlast⟩ := List.append_inj' h rfl
    rw [List.concat_eq_append, (List.cons.inj hlast).1]
    exact .inr ⟨rest', hpast, rfl⟩

/-- The machine whose steps must also meet `ok` in the state before them. -/
def restrict (ok : σ → α → Prop) [∀ s a, Decidable (ok s a)]
    (step : σ → α → Option (ε × σ)) (s : σ) (a : α) : Option (ε × σ) :=
  if ok s a then step s a else none

theorem restrict_eq_some {r : ε × σ} :
    restrict ok step s a = some r ↔ ok s a ∧ step s a = some r := by
  unfold restrict
  split <;> simp [*]

theorem run_restrict_imp {ok ok' : σ → α → Prop} [∀ s a, Decidable (ok s a)]
    [∀ s a, Decidable (ok' s a)]
    (himp : ∀ s a, ok s a → ok' s a)
    (h : run (restrict ok step) s as = some (tr, u)) :
    run (restrict ok' step) s as = some (tr, u) := by
  induction as generalizing s tr with
  | nil => exact h
  | cons a as ih =>
    obtain ⟨e, t, es, hst, hrest, rfl⟩ := run_cons h
    obtain ⟨hok, hst⟩ := restrict_eq_some.mp hst
    have hst' : restrict ok' step s a = some (e, t) := restrict_eq_some.mpr ⟨himp s a hok, hst⟩
    rw [run, hst']
    simp only
    rw [ih hrest]

theorem run_of_restrict (h : run (restrict ok step) s as = some (tr, u)) :
    run step s as = some (tr, u) := by
  have hfree : restrict (fun _ _ => True) step = step := by
    funext s a
    simp [restrict]
  rw [← hfree]
  exact run_restrict_imp (fun _ _ _ => trivial) h

/-- `Steps R s tr u`: the relational specification `R` leads from `s` to `u` showing `tr`. -/
inductive Steps (R : τ → ε → τ → Prop) : τ → List ε → τ → Prop
  | nil (s : τ) : Steps R s [] s
  | snoc {s t u : τ} {tr : List ε} {e : ε} :
      Steps R s tr t → R t e u → Steps R s (tr ++ [e]) u

/-- Forward simulation: if every step, from a state that meets the invariant, keeps it and
is matched by the specification under `abs`, then so is every run. -/
theorem run_simulates {R : τ → ε → τ → Prop} (abs : σ → τ) (Inv : σ → Prop)
    (hstep : ∀ s a e t, Inv s → step s a = some (e, t) → Inv t ∧ R (abs s) e (abs t)) (h0 : Inv s)
    (h : run step s as = some (tr, u)) : Inv u ∧ Steps R (abs s) tr (abs u) := by
  refine run_induction (fun tr v => Inv v ∧ Steps R (abs s) tr (abs v)) ?_ ⟨h0, .nil _⟩ h
  rintro tr v a - e t ⟨hinv, hsteps⟩ hst
  obtain ⟨hinv', hR⟩ := hstep v a e t hinv hst
  exact ⟨hinv', .snoc hsteps hR⟩

end Partial

/-! ## Total step functions -/

/-- Every step of the run of a total step function meets the condition. -/
def StepsMeet (step : σ → α → σ) (P : σ → α → Prop) : σ → List α → Prop
  | _, [] => True
  | s, a :: as => P s a ∧ StepsMeet step P (step s a) as

instance decidableStepsMeet (step : σ → α → σ) (P : σ → α → Prop) [∀ s a, Decidable (P s a)]
    (s : σ) : (as : List α) → Decidable (StepsMeet step P s as)
  | [] => .isTrue trivial
  | a :: as =>
    have := decidableStepsMeet step P (step s a) as
    inferInstanceAs (Decidable (_ ∧ _))

variable {step : σ → α → σ} {P Q : σ → α → Prop} {s : σ} {a : α} {as bs : List α}

theorem stepsMeet_append : StepsMeet step P s (as ++ bs) ↔
      StepsMeet step P s as ∧ StepsMeet step P (as.foldl step s) bs := by
  induction as generalizing s with
  | nil => simp [StepsMeet]
  | cons a as ih => simp [StepsMeet, ih, and_assoc]

theorem stepsMeet_of_forall (s : σ) (h : ∀ s, ∀ a ∈ as, P s a) : StepsMeet step P s as := by
  induction as generalizing s with
  | nil => trivial
  | cons a as ih =>
    exact ⟨h s a List.mem_cons_self, ih _ fun s b hb => h s b (List.mem_cons_of_mem a hb)⟩

theorem stepsMeet_replicate {n : Nat}
    (h : ∀ k < n, P ((List.replicate k a).foldl step s) a) :
    StepsMeet step P s (List.replicate n a) := by
  induction n generalizing s with
  | zero => trivial
  | succ n ih => exact ⟨h 0 n.succ_pos, ih fun k hk => h (k + 1) (Nat.succ_lt_succ hk)⟩

theorem foldl_invariant (I : σ → Prop)
    (hstep : ∀ s a, I s → P s a → I (step s a)) (hs : I s)
    (h : StepsMeet step P s as) : I (as.foldl step s) := by
  induction as generalizing s with
  | nil => exact hs
  | cons a as ih => exact ih (hstep s a hs h.1) h.2

/-- Two conditions on steps that agree wherever an invariant holds, which the second keeps. -/
theorem stepsMeet_iff_of_mem (I : σ → Prop)
    (hiff : ∀ s, ∀ a ∈ as, I s → (P s a ↔ Q s a))
    (hstep : ∀ s, ∀ a ∈ as, I s → Q s a → I (step s a)) (hs : I s) :
    StepsMeet step P s as ↔ StepsMeet step Q s as := by
  induction as generalizing s with
  | nil => exact Iff.rfl
  | cons a as ih =>
    unfold StepsMeet
    rw [hiff s a List.mem_cons_self hs]
    apply and_congr_right
    intro hQ
    exact ih (fun s b hb => hiff s b (List.mem_cons_of_mem a hb))
      (fun s b hb => hstep s b (List.mem_cons_of_mem a hb)) (hstep s a List.mem_cons_self hs hQ)

theorem stepsMeet_iff (I : σ → Prop)
    (hiff : ∀ s a, I s → (P s a ↔ Q s a)) (hstep : ∀ s a, I s → Q s a → I (step s a))
    (hs : I s) : StepsMeet step P s as ↔ StepsMeet step Q s as :=
  stepsMeet_iff_of_mem I (fun s a _ => hiff s a) (fun s a _ => hstep s a) hs

/-- What every step that meets a condition does, if the invariant holds before it. -/
theorem stepsMeet_imp (I : σ → Prop)
    (hstep : ∀ s a, I s → P s a → Q s a ∧ I (step s a)) (hs : I s)
    (h : StepsMeet step P s as) : StepsMeet step Q s as := by
  induction as generalizing s with
  | nil => trivial
  | cons a as ih =>
    obtain ⟨hQ, hI⟩ := hstep s a hs h.1
    exact ⟨hQ, ih hI h.2⟩

/-- The events that the steps of a run of a total step function show. -/
def foldlLog (log : σ → α → List ε) (step : σ → α → σ) : σ → List α → List ε
  | _, [] => []
  | s, a :: as => log s a ++ foldlLog log step (step s a) as

theorem forall_mem_foldlLog {log : σ → α → List ε} {P : ε → Prop} :
    (∀ e ∈ foldlLog log step s as, P e) ↔
      StepsMeet step (fun s a => ∀ e ∈ log s a, P e) s as := by
  induction as generalizing s with
  | nil => simp [foldlLog, StepsMeet]
  | cons a as ih => rw [foldlLog, List.forall_mem_append, ih, StepsMeet]

/-- The sum over the steps of a run of a number that depends on the actions before. -/
def sumOverRun (f : List α → α → Nat) (as : List α) : Nat :=
  (as.foldl (fun p a => (p.1 ++ [a], p.2 + f p.1 a)) (([] : List α), 0)).2

theorem sumOverRun_snoc (f : List α → α → Nat) (as : List α) (a : α) :
    sumOverRun f (as ++ [a]) = sumOverRun f as + f as a := by
  have hpast : ∀ (as : List α) (p : List α × Nat),
      (as.foldl (fun p a => (p.1 ++ [a], p.2 + f p.1 a)) p).1 = p.1 ++ as := by
    intro as
    induction as with
    | nil => simp
    | cons a as ih => simp [ih]
  simp [sumOverRun, List.foldl_append, hpast]

end PvLib
