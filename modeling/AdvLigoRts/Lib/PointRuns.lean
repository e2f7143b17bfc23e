import Mathlib.Data.List.Basic
import Mathlib.Tactic.Ring

/-!
# Runs of points

A `Span` stands for points at one distance from each other. Spans are the `MaximalRuns` of a set of
points if they have these points and no two of them could be one. `unite` makes maximal runs of
spans that are sorted by their first points, and spans of points of the set lie inside one run
(`MaximalRuns.inside`).
-/

namespace PvLib

/-- `len` points from `first` on. -/
structure Span where
  first : ℕ
  len : ℕ
deriving DecidableEq, Repr

namespace Span

/-- Where the next point would be. -/
def stop (step : ℕ) (s : Span) : ℕ := s.first + s.len * step

/-- One of the points. -/
def Has (step : ℕ) (s : Span) (g : ℕ) : Prop := ∃ j < s.len, g = s.first + j * step

/-- The points of `s` are points of `t` that follow one another. -/
def Inside (step : ℕ) (s t : Span) : Prop :=
  ∃ i, s.first = t.first + i * step ∧ i + s.len ≤ t.len

/-- `s` up to the end of `t`, if that is behind its own. -/
def extend (step : ℕ) (s t : Span) : Span :=
  { s with len := max s.len ((t.stop step - s.first) / step) }

variable {step g : ℕ} {s t : Span}

theorem Has.lt_stop (h : s.Has step g) : s.first ≤ g ∧ g + step ≤ s.stop step := by
  obtain ⟨j, hj, rfl⟩ := h
  have hmul := Nat.mul_le_mul_right step (show j + 1 ≤ s.len from hj)
  rw [Nat.add_mul, Nat.one_mul] at hmul
  unfold stop
  omega

/-- The points of aligned spans, by their place. -/
theorem has_iff (hstep : 0 < step) (hs : step ∣ s.first) :
    s.Has step g ↔ step ∣ g ∧ s.first ≤ g ∧ g < s.stop step := by
  constructor
  · intro h
    obtain ⟨hle, hlt⟩ := h.lt_stop
    obtain ⟨j, -, rfl⟩ := h
    exact ⟨Nat.dvd_add hs (Nat.dvd_mul_left step j), hle, by omega⟩
  · rintro ⟨hg, hle, hlt⟩
    obtain ⟨j, hj⟩ : step ∣ g - s.first := Nat.dvd_sub hg hs
    refine ⟨j, ?_, by rw [Nat.mul_comm]; omega⟩
    by_contra hge
    have hmul := Nat.mul_le_mul_left step (Nat.le_of_not_lt hge)
    rw [← hj] at hmul
    unfold stop at hlt
    rw [Nat.mul_comm] at hlt
    omega

theorem dvd_stop (hs : step ∣ s.first) : step ∣ s.stop step :=
  Nat.dvd_add hs (Nat.dvd_mul_left step s.len)

theorem stop_extend (hstep : 0 < step) (hs : step ∣ s.first) (ht : step ∣ t.first)
    (hle : s.first ≤ t.stop step) :
    (s.extend step t).stop step = max (s.stop step) (t.stop step) := by
  obtain ⟨n, hn⟩ : step ∣ t.stop step - s.first := Nat.dvd_sub (dvd_stop ht) hs
  have hdiv : (t.stop step - s.first) / step = n := by
    rw [hn, Nat.mul_div_cancel_left n hstep]
  have hstop : t.stop step = s.first + n * step := by
    rw [Nat.mul_comm]
    omega
  show s.first + max s.len ((t.stop step - s.first) / step) * step = _
  rw [hdiv, hstop, ← Nat.mul_max_mul_right, ← Nat.add_max_add_left]
  rfl

end Span

/-! ## Maximal runs -/

/-- The spans are the maximal runs of the points. -/
structure MaximalRuns (step : ℕ) (points : ℕ → Prop) (spans : List Span) : Prop where
  nonempty : ∀ s ∈ spans, 0 < s.len
  apart : spans.Pairwise fun s t => s.stop step < t.first
  covers : ∀ g, points g ↔ ∃ s ∈ spans, s.Has step g

variable {step : ℕ} {points : ℕ → Prop} {spans : List Span} {s : Span}

theorem pairwise_cases {α : Type*} {r : α → α → Prop} {l : List α} (h : l.Pairwise r) {a b : α}
    (ha : a ∈ l) (hb : b ∈ l) : a = b ∨ r a b ∨ r b a := by
  induction l with
  | nil => exact absurd ha List.not_mem_nil
  | cons c l ih =>
    obtain ⟨hc, hl⟩ := List.pairwise_cons.mp h
    rcases List.mem_cons.mp ha with hac | hal
    · rcases List.mem_cons.mp hb with hbc | hbl
      · exact .inl (hac.trans hbc.symm)
      · exact .inr (.inl (hac ▸ hc b hbl))
    · rcases List.mem_cons.mp hb with hbc | hbl
      · exact .inr (.inr (hbc ▸ hc a hal))
      · exact ih hl hal hbl

theorem MaximalRuns.next (h : MaximalRuns step points spans) (hstep : 0 < step) {t : Span}
    (ht : t ∈ spans) {i : ℕ} (hi : i < t.len) (hnext : points (t.first + (i + 1) * step)) :
    i + 1 < t.len := by
  obtain ⟨t', ht', hhas⟩ := (h.covers _).mp hnext
  obtain ⟨hle, hlt⟩ := hhas.lt_stop
  have hmul := Nat.mul_le_mul_right step (show i + 1 ≤ t.len from hi)
  have hsame : t' = t := by
    rcases pairwise_cases h.apart ht' ht with heq | hbefore | hbehind
    · exact heq
    · rw [Nat.add_mul] at hlt
      omega
    · unfold Span.stop at hbehind
      omega
  rw [hsame] at hhas
  obtain ⟨j, hj, heq⟩ := hhas
  have hj' : (i + 1) * step = j * step := by omega
  rw [Nat.eq_of_mul_eq_mul_right hstep hj']
  exact hj

theorem MaximalRuns.inside (h : MaximalRuns step points spans) (hstep : 0 < step)
    (hs : 0 < s.len) (hpoints : ∀ g, s.Has step g → points g) :
    ∃ t ∈ spans, s.Inside step t := by
  obtain ⟨t, ht, i, hi, hfirst⟩ := (h.covers _).mp (hpoints (s.first + 0 * step) ⟨0, hs, rfl⟩)
  rw [Nat.zero_mul, Nat.add_zero] at hfirst
  have hall : ∀ m, 0 < m → m ≤ s.len → i + m ≤ t.len := by
    intro m hm hle
    induction m with
    | zero => omega
    | succ m ih =>
      rcases Nat.eq_zero_or_pos m with rfl | hpos
      · exact hi
      · have hprev := ih hpos (by omega)
        have hpoint := hpoints (s.first + m * step) ⟨m, by omega, rfl⟩
        have hplace : s.first + m * step = t.first + (i + m - 1 + 1) * step := by
          rw [Nat.sub_add_cancel (by omega), hfirst, Nat.add_mul, Nat.add_assoc]
        rw [hplace] at hpoint
        have hnext := h.next hstep ht (by omega) hpoint
        omega
  exact ⟨t, ht, i, hfirst, hall s.len hs le_rfl⟩

/-! ## Uniting spans -/

/-- The current span, and those behind it. -/
def unite (step : ℕ) (cur : Span) : List Span → List Span
  | [] => [cur]
  | s :: ss =>
    if s.first ≤ cur.stop step then unite step (cur.extend step s) ss
    else cur :: unite step s ss

theorem unite_spec (hstep : 0 < step) {cur : Span} {ss : List Span}
    (haligned : ∀ s ∈ cur :: ss, step ∣ s.first ∧ 0 < s.len)
    (hsorted : (cur :: ss).Pairwise fun s t => s.first ≤ t.first) :
    (∀ s ∈ unite step cur ss, cur.first ≤ s.first) ∧
      MaximalRuns step (fun g => ∃ s ∈ cur :: ss, s.Has step g) (unite step cur ss) := by
  induction ss generalizing cur with
  | nil =>
    unfold unite
    refine ⟨fun s hs => ?_, ?_, List.pairwise_singleton _ _, fun g => Iff.rfl⟩
    · rw [List.mem_singleton.mp hs]
    · intro s hs
      exact (haligned s hs).2
  | cons s ss ih =>
    obtain ⟨hcur, hrest⟩ := List.forall_mem_cons.mp haligned
    obtain ⟨hs, hss⟩ := List.forall_mem_cons.mp hrest
    obtain ⟨hfirst, hsorted'⟩ := List.pairwise_cons.mp hsorted
    have hle : cur.first ≤ s.first := hfirst s List.mem_cons_self
    rw [unite]
    split
    case isTrue hmeet =>
      have hstop : cur.first ≤ s.stop step := by
        unfold Span.stop
        omega
      have hextend := Span.stop_extend hstep hcur.1 hs.1 hstop
      have hlen : 0 < (cur.extend step s).len := lt_of_lt_of_le hcur.2 (Nat.le_max_left _ _)
      obtain ⟨hlow, hruns⟩ := @ih (cur.extend step s)
        (List.forall_mem_cons.mpr ⟨⟨hcur.1, hlen⟩, hss⟩)
        (List.pairwise_cons.mpr
          ⟨fun t ht => hfirst t (List.mem_cons_of_mem s ht), (List.pairwise_cons.mp hsorted').2⟩)
      refine ⟨hlow, hruns.nonempty, hruns.apart, fun g => ?_⟩
      rw [← hruns.covers, List.exists_mem_cons_iff, List.exists_mem_cons_iff,
        List.exists_mem_cons_iff, ← or_assoc]
      apply or_congr_left
      rw [Span.has_iff hstep hcur.1, Span.has_iff hstep hs.1,
        Span.has_iff (s := cur.extend step s) hstep hcur.1, hextend]
      show _ ↔ step ∣ g ∧ cur.first ≤ g ∧ _
      have hdvd : step ∣ cur.stop step := Span.dvd_stop hcur.1
      constructor
      · rintro (⟨hg, h1, h2⟩ | ⟨hg, h1, h2⟩)
        · exact ⟨hg, h1, by omega⟩
        · exact ⟨hg, by omega, by omega⟩
      · rintro ⟨hg, h1, h2⟩
        by_cases hlt : g < cur.stop step
        · exact .inl ⟨hg, h1, hlt⟩
        · exact .inr ⟨hg, by omega, by omega⟩
    case isFalse hgap =>
      obtain ⟨hlow, hruns⟩ := ih hrest hsorted'
      refine ⟨?_, ?_, ?_, fun g => ?_⟩
      · intro t ht
        rcases List.mem_cons.mp ht with rfl | ht
        · exact le_rfl
        · exact hle.trans (hlow t ht)
      · exact List.forall_mem_cons.mpr ⟨hcur.2, hruns.nonempty⟩
      · refine List.pairwise_cons.mpr ⟨fun t ht => ?_, hruns.apart⟩
        have := hlow t ht
        omega
      · rw [List.exists_mem_cons_iff, hruns.covers, List.exists_mem_cons_iff]

end PvLib
