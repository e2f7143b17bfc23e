import Mathlib.Data.List.Basic

/-!
# Loops that can fail

A loop over a list whose body can fail is `List.foldlM` in `Except`.
-/

namespace PvLib

variable {α σ τ ε : Type*}

/-- Both fail with one error, or both end, in states that are related. -/
def SameOutcome (R : σ → τ → Prop) : Except ε σ → Except ε τ → Prop
  | .ok s, .ok t => R s t
  | .error e, .error e' => e = e'
  | _, _ => False

theorem SameOutcome.ok {R : σ → τ → Prop} {s : σ} {b : Except ε τ}
    (h : SameOutcome R (.ok s) b) : ∃ t, b = .ok t ∧ R s t := by
  cases b with
  | ok t => exact ⟨t, rfl, h⟩
  | error e => exact h.elim

theorem SameOutcome.error {R : σ → τ → Prop} {e : ε} {b : Except ε τ}
    (h : SameOutcome R (.error e : Except ε σ) b) : b = .error e := by
  cases b with
  | ok t => exact h.elim
  | error e' => exact congrArg Except.error (Eq.symm h)

/-- A computation that does not fail goes through its first part. -/
theorem bind_ok {ε α β : Type} {x : Except ε α} {f : α → Except ε β} {b : β}
    (h : x >>= f = .ok b) : ∃ a, x = .ok a ∧ f a = .ok b := by
  cases x with
  | error e => cases h
  | ok a => exact ⟨a, rfl, h⟩

theorem map_ok {ε α β : Type} {x : Except ε α} {f : α → β} {b : β} (h : x.map f = .ok b) :
    ∃ a, x = .ok a ∧ f a = b := by
  cases x with
  | error e => cases h
  | ok a => exact ⟨a, rfl, Except.ok.inj h⟩

/-- A choice that does not fail has taken one of the two ways. -/
theorem ite_ok {p : Prop} [Decidable p] {x y : Except ε α} {a : α}
    (h : (if p then x else y) = .ok a) : p ∧ x = .ok a ∨ ¬ p ∧ y = .ok a := by
  by_cases hp : p
  · rw [if_pos hp] at h
    exact Or.inl ⟨hp, h⟩
  · rw [if_neg hp] at h
    exact Or.inr ⟨hp, h⟩

theorem foldlM_cons_ok {f : σ → α → Except ε σ} {a : α} {l : List α} {s u : σ}
    (h : (a :: l).foldlM f s = .ok u) : ∃ t, f s a = .ok t ∧ l.foldlM f t = .ok u := by
  rw [List.foldlM_cons] at h
  cases hf : f s a with
  | error e =>
    rw [hf] at h
    cases h
  | ok t =>
    rw [hf] at h
    exact ⟨t, rfl, h⟩

theorem foldlM_cons_of_ok {f : σ → α → Except ε σ} {a : α} {l : List α} {s t : σ}
    (h : f s a = .ok t) : (a :: l).foldlM f s = l.foldlM f t := by
  rw [List.foldlM_cons, h]
  rfl

theorem foldlM_concat_ok_iff {f : σ → α → Except ε σ} {l : List α} {a : α} {s u : σ} :
    (l ++ [a]).foldlM f s = .ok u ↔ ∃ t, l.foldlM f s = .ok t ∧ f t a = .ok u := by
  rw [List.foldlM_append]
  constructor
  · intro h
    cases ht : l.foldlM f s with
    | error e =>
      rw [ht] at h
      cases h
    | ok t =>
      rw [ht] at h
      obtain ⟨v, hv, hu⟩ := foldlM_cons_ok h
      cases hu
      exact ⟨t, rfl, hv⟩
  · rintro ⟨t, ht, hu⟩
    rw [ht]
    exact foldlM_cons_of_ok hu

/-- What every pass that does not fail preserves. -/
theorem foldlM_invariant {f : σ → α → Except ε σ} {l : List α} (I : σ → Prop)
    (hstep : ∀ a ∈ l, ∀ s t, I s → f s a = .ok t → I t) {s u : σ} (hs : I s)
    (h : l.foldlM f s = .ok u) : I u := by
  induction l generalizing s with
  | nil =>
    cases h
    exact hs
  | cons a l ih =>
    obtain ⟨t, hf, hrest⟩ := foldlM_cons_ok h
    have ht := hstep a List.mem_cons_self s t hs hf
    exact ih (fun b hb => hstep b (List.mem_cons_of_mem a hb)) ht hrest

/-- A loop none of whose passes fails. -/
theorem foldlM_ok {f : σ → α → Except ε σ} {l : List α} (I : σ → Prop)
    (hstep : ∀ a ∈ l, ∀ s, I s → ∃ t, f s a = .ok t ∧ I t) {s : σ} (hs : I s) :
    ∃ u, l.foldlM f s = .ok u ∧ I u := by
  induction l generalizing s with
  | nil => exact ⟨s, rfl, hs⟩
  | cons a l ih =>
    obtain ⟨t, hf, ht⟩ := hstep a List.mem_cons_self s hs
    rw [foldlM_cons_of_ok hf]
    exact ih (fun b hb => hstep b (List.mem_cons_of_mem a hb)) ht

/-- What the passes of a loop over the first numbers lead through, if none fails. -/
theorem foldlM_range_invariant {f : σ → ℕ → Except ε σ} (I : ℕ → σ → Prop) {n : ℕ}
    (hstep : ∀ i < n, ∀ s t, I i s → f s i = .ok t → I (i + 1) t) {s u : σ} (hs : I 0 s)
    (h : (List.range n).foldlM f s = .ok u) : I n u := by
  induction n generalizing u with
  | zero =>
    cases h
    exact hs
  | succ n ih =>
    rw [List.range_succ, List.foldlM_append] at h
    cases ht : (List.range n).foldlM f s with
    | error e =>
      rw [ht] at h
      cases h
    | ok t =>
      rw [ht] at h
      obtain ⟨v, hv, hu⟩ := foldlM_cons_ok h
      cases hu
      exact hstep n (Nat.lt_succ_self n) t _ (ih (fun i hi => hstep i (by omega)) ht) hv

/-- A loop over the first numbers, none of whose passes fails, with what holds before each. -/
theorem foldlM_range_ok {f : σ → ℕ → Except ε σ} (I : ℕ → σ → Prop) {n : ℕ}
    (hstep : ∀ i < n, ∀ s, I i s → ∃ t, f s i = .ok t ∧ I (i + 1) t) {s : σ} (hs : I 0 s) :
    ∃ u, (List.range n).foldlM f s = .ok u ∧ I n u := by
  induction n with
  | zero => exact ⟨s, rfl, hs⟩
  | succ n ih =>
    obtain ⟨t, ht, hIt⟩ := ih fun i hi => hstep i (by omega)
    obtain ⟨u, hu, hIu⟩ := hstep n (Nat.lt_succ_self n) t hIt
    refine ⟨u, ?_, hIu⟩
    rw [List.range_succ, List.foldlM_append, ht]
    exact foldlM_cons_of_ok hu

/-- A loop none of whose passes fails, with what holds after each part of the list. -/
theorem foldlM_prefix_ok {f : σ → α → Except ε σ} {l : List α} (I : List α → σ → Prop)
    (hstep : ∀ done a rest, l = done ++ a :: rest → ∀ s, I done s →
      ∃ t, f s a = .ok t ∧ I (done ++ [a]) t) {s : σ} (hs : I [] s) :
    ∃ u, l.foldlM f s = .ok u ∧ I l u := by
  -- the part of the list that is done is kept in front of the rest
  suffices hgen : ∀ rest done s, l = done ++ rest → I done s →
      ∃ u, rest.foldlM f s = .ok u ∧ I l u from hgen l [] s rfl hs
  intro rest
  induction rest with
  | nil =>
    intro done s hl hI
    rw [List.append_nil] at hl
    exact ⟨s, rfl, hl ▸ hI⟩
  | cons a rest ih =>
    intro done s hl hI
    obtain ⟨t, ht, hIt⟩ := hstep done a rest hl s hI
    rw [foldlM_cons_of_ok ht]
    exact ih (done ++ [a]) t (by rw [hl, List.append_cons]) hIt

/-- The same for a loop that also counts. -/
theorem foldlM_zipIdx_ok {f : σ → α × ℕ → Except ε σ} {l : List α} (I : List α → σ → Prop)
    (hstep : ∀ done a rest, l = done ++ a :: rest → ∀ s, I done s →
      ∃ t, f s (a, done.length) = .ok t ∧ I (done ++ [a]) t) {s : σ} (hs : I [] s) :
    ∃ u, l.zipIdx.foldlM f s = .ok u ∧ I l u := by
  have hpass : ∀ done x rest, l.zipIdx = done ++ x :: rest → ∀ s, I (done.map Prod.fst) s →
      ∃ t, f s x = .ok t ∧ I ((done ++ [x]).map Prod.fst) t := by
    rintro done ⟨a, i⟩ rest hl t ht
    have hsplit := congrArg (List.map Prod.fst) hl
    rw [List.zipIdx_map_fst, List.map_append, List.map_cons] at hsplit
    -- the number of the pass is the number of the passes before it
    have hentry : l.zipIdx[done.length]? = some (a, i) := by
      rw [hl, List.getElem?_append_right (Nat.le_refl _), Nat.sub_self, List.getElem?_cons_zero]
    rw [List.getElem?_zipIdx] at hentry
    obtain ⟨b, -, hb⟩ := Option.map_eq_some_iff.mp hentry
    obtain ⟨-, rfl⟩ := Prod.mk.inj hb
    obtain ⟨u, hu, hI⟩ := hstep _ a _ hsplit t ht
    rw [List.length_map] at hu
    rw [Nat.zero_add, List.map_append]
    exact ⟨u, hu, hI⟩
  obtain ⟨u, hu, hI⟩ := foldlM_prefix_ok (fun done => I (done.map Prod.fst)) hpass hs
  rw [List.zipIdx_map_fst] at hI
  exact ⟨u, hu, hI⟩

/-- A loop whose passes do nothing. -/
theorem foldlM_idle {f : σ → α → Except ε σ} {l : List α}
    (h : ∀ a ∈ l, ∀ s, f s a = .ok s) (s : σ) : l.foldlM f s = .ok s := by
  obtain ⟨u, hu, rfl⟩ := foldlM_ok (· = s) (fun a ha t ht => ⟨t, h a ha t, ht⟩) rfl
  exact hu

/-- A loop with one pass that does something. -/
theorem foldlM_range_unique {f : σ → ℕ → Except ε σ} {n p : ℕ} (hp : p < n)
    (h : ∀ i < n, i ≠ p → ∀ s, f s i = .ok s) (s : σ) : (List.range n).foldlM f s = f s p := by
  obtain ⟨d, rfl⟩ : ∃ d, n = p + 1 + d := ⟨n - (p + 1), by omega⟩
  rw [List.range_add, List.foldlM_append, List.range_succ, List.foldlM_append,
    foldlM_idle fun i hi => h i (by have := List.mem_range.mp hi; omega) (by
      have := List.mem_range.mp hi; omega)]
  show ([p].foldlM f s) >>= _ = _
  rw [List.foldlM_cons]
  cases hf : f s p with
  | error e => rfl
  | ok t =>
    show List.foldlM f t _ = _
    apply foldlM_idle
    intro i hi
    obtain ⟨j, hj, rfl⟩ := List.mem_map.mp hi
    have hlt := List.mem_range.mp hj
    exact h _ (by omega) (by omega)

/-- Two loops over one list. -/
theorem foldlM_sameOutcome {f : σ → α → Except ε σ} {g : τ → α → Except ε τ} {l : List α}
    {R : σ → τ → Prop} (hstep : ∀ a ∈ l, ∀ s t, R s t → SameOutcome R (f s a) (g t a))
    {s : σ} {t : τ} (h : R s t) : SameOutcome R (l.foldlM f s) (l.foldlM g t) := by
  induction l generalizing s t with
  | nil => exact h
  | cons a l ih =>
    have ha := hstep a List.mem_cons_self s t h
    cases hf : f s a with
    | error e =>
      rw [hf] at ha
      rw [List.foldlM_cons, List.foldlM_cons, hf, ha.error]
      rfl
    | ok s' =>
      rw [hf] at ha
      obtain ⟨t', hg, hR⟩ := ha.ok
      rw [foldlM_cons_of_ok hf, foldlM_cons_of_ok hg]
      exact ih (fun b hb => hstep b (List.mem_cons_of_mem a hb)) hR

end PvLib
