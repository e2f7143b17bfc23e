import Mathlib.Tactic.Ring
import Mathlib.Tactic.Linarith
import Mathlib.Data.List.Basic

/-!
# Runs of adjacent intervals

A run stands for half-open intervals of one length, each beginning where the one before it ends.
It keeps the length and the two ends only, and `startOf` finds the interval of a point again by a
division. `findRun` looks a point up in a list of runs; when the intervals of all runs are apart,
it finds the interval that holds the point, whatever the order of the runs.
-/

namespace PvLib

/-- Intervals of length `len` from `first` up to `stop`. -/
structure IntervalRun where
  len : ℤ
  first : ℤ
  stop : ℤ
deriving DecidableEq, Repr

namespace IntervalRun

/-- The run is made of whole intervals, and of one at least. -/
def WellFormed (r : IntervalRun) : Prop :=
  0 < r.len ∧ ∃ n : ℕ, r.stop = r.first + (n + 1) * r.len

/-- The interval from `g` on is one of the run. -/
def Has (r : IntervalRun) (g : ℤ) : Prop :=
  (∃ k : ℕ, g = r.first + k * r.len) ∧ g + r.len ≤ r.stop

/-- The point lies in the run. -/
def Covers (r : IntervalRun) (t : ℤ) : Prop := r.first ≤ t ∧ t < r.stop

instance (r : IntervalRun) (t : ℤ) : Decidable (r.Covers t) := inferInstanceAs (Decidable (_ ∧ _))

/-- Where the interval of a point begins. -/
def startOf (r : IntervalRun) (t : ℤ) : ℤ := r.first + (t - r.first).tdiv r.len * r.len

def single (len first : ℤ) : IntervalRun := ⟨len, first, first + len⟩

def extend (r : IntervalRun) : IntervalRun := { r with stop := r.stop + r.len }

variable {r : IntervalRun} {t g : ℤ}

theorem wellFormed_single {len : ℤ} (h : 0 < len) (first : ℤ) : (single len first).WellFormed :=
  ⟨h, 0, by simp [single]⟩

theorem WellFormed.extend (h : r.WellFormed) : r.extend.WellFormed := by
  obtain ⟨hlen, n, hn⟩ := h
  refine ⟨hlen, n + 1, ?_⟩
  simp only [IntervalRun.extend, hn]
  push_cast
  ring

theorem has_single {len : ℤ} (h : 0 < len) {first : ℤ} : (single len first).Has g ↔ g = first := by
  constructor
  · rintro ⟨⟨k, hk⟩, hle⟩
    simp only [single] at hk hle
    have hnonneg : 0 ≤ (k : ℤ) * len := by positivity
    omega
  · rintro rfl
    exact ⟨⟨0, by simp [single]⟩, le_refl _⟩

/-- The end of a run is a whole number of intervals away from each of them. -/
theorem WellFormed.end_step (h : r.WellFormed) (hg : ∃ k : ℕ, g = r.first + k * r.len)
    (hlt : g < r.stop) : g + r.len ≤ r.stop := by
  obtain ⟨hlen, n, hn⟩ := h
  obtain ⟨k, rfl⟩ := hg
  have hk : (k : ℤ) < n + 1 := by
    rw [hn] at hlt
    exact lt_of_mul_lt_mul_right (by linarith) hlen.le
  have hmul : ((k : ℤ) + 1) * r.len ≤ (n + 1) * r.len :=
    mul_le_mul_of_nonneg_right (by omega) hlen.le
  linarith

theorem WellFormed.has_extend (h : r.WellFormed) : r.extend.Has g ↔ r.Has g ∨ g = r.stop := by
  obtain ⟨hlen, n, hn⟩ := h
  constructor
  · rintro ⟨hk, hle⟩
    simp only [IntervalRun.extend] at hk hle
    rcases lt_or_ge g r.stop with hlt | hge
    · exact Or.inl ⟨hk, WellFormed.end_step ⟨hlen, n, hn⟩ hk hlt⟩
    · right
      omega
  · rintro (⟨hk, hle⟩ | rfl)
    · refine ⟨hk, ?_⟩
      simp only [IntervalRun.extend]
      omega
    · refine ⟨⟨n + 1, ?_⟩, le_refl _⟩
      rw [hn]
      push_cast
      rfl

theorem WellFormed.has_last (h : r.WellFormed) : r.Has (r.stop - r.len) := by
  obtain ⟨-, n, hn⟩ := h
  refine ⟨⟨n, ?_⟩, by omega⟩
  rw [hn]
  ring

/-- A covered point lies in the interval that `startOf` gives. -/
theorem WellFormed.has_startOf (h : r.WellFormed) (ht : r.Covers t) :
    r.Has (r.startOf t) ∧ r.startOf t ≤ t ∧ t < r.startOf t + r.len := by
  have hlen := h.1
  have hdiv : (t - r.first).tdiv r.len = (t - r.first) / r.len :=
    Int.tdiv_eq_ediv_of_nonneg (by linarith [ht.1])
  have hmod := Int.emod_add_mul_ediv (t - r.first) r.len
  have hnonneg := Int.emod_nonneg (t - r.first) hlen.ne'
  have hlt := Int.emod_lt_of_pos (t - r.first) hlen
  have hle : r.startOf t ≤ t := by
    rw [startOf, hdiv]
    linarith [mul_comm r.len ((t - r.first) / r.len)]
  have hend : t < r.startOf t + r.len := by
    rw [startOf, hdiv]
    linarith [mul_comm r.len ((t - r.first) / r.len)]
  have hk : ∃ k : ℕ, r.startOf t = r.first + k * r.len := by
    have hq : 0 ≤ (t - r.first) / r.len := Int.ediv_nonneg (by linarith [ht.1]) hlen.le
    refine ⟨((t - r.first) / r.len).toNat, ?_⟩
    rw [startOf, hdiv, Int.toNat_of_nonneg hq]
  exact ⟨⟨hk, h.end_step hk (lt_of_le_of_lt hle ht.2)⟩, hle, hend⟩

theorem WellFormed.covers (h : r.WellFormed) (hg : r.Has g) (hle : g ≤ t) (hlt : t < g + r.len) :
    r.Covers t := by
  obtain ⟨⟨k, rfl⟩, hstop⟩ := hg
  have hnonneg : 0 ≤ (k : ℤ) * r.len := mul_nonneg (Int.natCast_nonneg k) h.1.le
  exact ⟨by linarith, by linarith⟩

end IntervalRun

/-! ## Lists of runs -/

/-- The first run that covers the point: the start and the length of the point's interval. -/
def findRun (rs : List IntervalRun) (t : ℤ) : Option (ℤ × ℤ) :=
  (rs.find? fun r => decide (r.Covers t)).map fun r => (r.startOf t, r.len)

theorem findRun_eq_some {rs : List IntervalRun} {t g len : ℤ} (hwf : ∀ r ∈ rs, r.WellFormed)
    (huniq : ∀ r ∈ rs, ∀ r' ∈ rs, ∀ g g', r.Has g → r'.Has g' → g ≤ t → t < g + r.len →
      g' ≤ t → t < g' + r'.len → g = g' ∧ r.len = r'.len) :
    findRun rs t = some (g, len) ↔
      ∃ r ∈ rs, r.Has g ∧ len = r.len ∧ g ≤ t ∧ t < g + len := by
  constructor
  · intro h
    obtain ⟨r, hfind, heq⟩ := Option.map_eq_some_iff.mp h
    obtain ⟨rfl, rfl⟩ := Prod.mk.injEq _ _ _ _ ▸ heq
    have hcov : r.Covers t := by simpa using List.find?_some hfind
    have hmem := List.mem_of_find?_eq_some hfind
    obtain ⟨hhas, hle, hlt⟩ := (hwf r hmem).has_startOf hcov
    exact ⟨r, hmem, hhas, rfl, hle, hlt⟩
  · rintro ⟨r, hmem, hhas, rfl, hle, hlt⟩
    have hcov := (hwf r hmem).covers hhas hle hlt
    -- some run is found, and its interval is the one
    cases hfind : rs.find? fun r => decide (r.Covers t) with
    | none =>
      have hno := List.find?_eq_none.mp hfind r hmem
      exact absurd hcov (by simpa using hno)
    | some r' =>
      have hcov' : r'.Covers t := by simpa using List.find?_some hfind
      have hmem' := List.mem_of_find?_eq_some hfind
      obtain ⟨hhas', hle', hlt'⟩ := (hwf r' hmem').has_startOf hcov'
      obtain ⟨hg, hlen⟩ := huniq r' hmem' r hmem _ _ hhas' hhas hle' hlt' hle hlt
      rw [findRun, hfind, Option.map_some, hg, hlen]

end PvLib
