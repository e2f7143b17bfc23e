import Mathlib.Data.Nat.Find
import Mathlib.Data.Nat.ModEq

/-!
# Counting the turns of a ring

A writer that goes round a ring of `m` cells is at turn `n` for some number `n` that only grows: it
is in cell `n % m`, on lap `n / m`.
-/

namespace PvLib

/-! ## Laps -/

/-- Two turns less than a lap apart that use the same cell are the same. -/
theorem eq_of_mod_eq {m a b : ℕ} (hle : a ≤ b) (hlt : b < a + m) (hmod : a % m = b % m) :
    a = b := by
  obtain ⟨d, rfl⟩ := Nat.exists_eq_add_of_le hle
  have hd : d < m := by omega
  have hzero : d % m = 0 := by
    have hsub := (Nat.modEq_iff_dvd' hle).mp hmod
    rw [Nat.add_sub_cancel_left] at hsub
    exact Nat.mod_eq_zero_of_dvd hsub
  rw [Nat.mod_eq_of_lt hd] at hzero
  omega

/-- Within a lap after `a` the lap number is that of `a` or the next one. -/
theorem div_eq_or_succ {m a b : ℕ} (hle : a ≤ b) (hlt : b < a + m) :
    b / m = a / m ∨ b / m = a / m + 1 := by
  have hlow : a / m ≤ b / m := Nat.div_le_div_right hle
  have hhigh : b / m ≤ (a + m) / m := Nat.div_le_div_right hlt.le
  rw [Nat.add_div_right _ (by omega)] at hhigh
  omega

/-- On one lap the later turn is in the later cell. -/
theorem mod_lt_mod_of_div_eq {m a b : ℕ} (hlt : a < b) (hdiv : b / m = a / m) :
    a % m < b % m := by
  have ha := Nat.div_add_mod a m
  have hb := Nat.div_add_mod b m
  rw [hdiv] at hb
  omega

/-- Turns are ordered by their lap and, on one lap, by their cell. -/
theorem lap_lt_of_lt {m a b : ℕ} (hlt : a < b) :
    a / m < b / m ∨ a / m = b / m ∧ a % m < b % m := by
  rcases (Nat.div_le_div_right hlt.le : a / m ≤ b / m).lt_or_eq with hdiv | hdiv
  · exact .inl hdiv
  · exact .inr ⟨hdiv, mod_lt_mod_of_div_eq hlt hdiv.symm⟩

/-- The cell number falls from one turn to the next exactly where a lap begins. -/
theorem mod_succ_lt_mod_iff {m a : ℕ} (hm : 1 < m) : (a + 1) % m < a % m ↔ (a + 1) % m = 0 := by
  have hlt : a % m < m := Nat.mod_lt _ (by omega)
  rw [← Nat.mod_add_mod]
  by_cases hlast : a % m + 1 = m
  · rw [hlast, Nat.mod_self]
    omega
  · rw [Nat.mod_eq_of_lt (by omega)]
    omega

/-- The last turn up to `f` that used cell `c`. -/
def lastTurn (m f c : ℕ) : ℕ := f - (f % m + m - c) % m

/-- A turn less than a lap ago is the last one that used its cell. -/
theorem lastTurn_mod {m f n : ℕ} (hle : n ≤ f) (hlt : f < n + m) :
    lastTurn m f (n % m) = n := by
  unfold lastTurn
  obtain ⟨d, rfl⟩ := Nat.exists_eq_add_of_le hle
  have hd : d < m := by omega
  have hn : n % m < m := Nat.mod_lt _ (by omega)
  have hback : ((n + d) % m + m - n % m) % m = d := by
    rw [← Nat.mod_add_mod]
    -- whether the lap ends between turn `n` and turn `n + d`
    by_cases hwrap : n % m + d < m
    · rw [Nat.mod_eq_of_lt hwrap, show n % m + d + m - n % m = d + m by omega,
        Nat.add_mod_right, Nat.mod_eq_of_lt hd]
    · have hcell : (n % m + d) % m = n % m + d - m := by
        rw [Nat.mod_eq_sub_mod (by omega), Nat.mod_eq_of_lt (by omega)]
      rw [hcell, show n % m + d - m + m - n % m = d by omega, Nat.mod_eq_of_lt hd]
  rw [hback]
  omega

/-! ## The last write to a cell -/

section LastWrite

variable {α : Type*} {m t c : ℕ} {log : List (ℕ × α)} {w : ℕ × α}

/-- The last of the writes to a cell. A write is a turn with a value, and the newest comes
first. -/
def lastWrite (m : ℕ) (log : List (ℕ × α)) (c : ℕ) : Option (ℕ × α) :=
  log.find? fun w => w.1 % m = c

/-- The last write at a turn. -/
def writeAt (log : List (ℕ × α)) (t : ℕ) : Option (ℕ × α) := log.find? fun w => w.1 = t

theorem lastWrite_cons : lastWrite m (w :: log) c = if w.1 % m = c then some w else
    lastWrite m log c := by
  unfold lastWrite
  rw [List.find?_cons]
  by_cases h : w.1 % m = c <;> simp [h]

/-- If no write has gone further round than turn `t`, its cell holds what was written at it. -/
theorem lastWrite_of_writeAt (hsorted : log.Pairwise fun v w => w.1 ≤ v.1)
    (hle : ∀ w ∈ log, w.1 % m = t % m → w.1 ≤ t) (h : writeAt log t = some w) :
    lastWrite m log (t % m) = some w := by
  induction log with
  | nil => cases h
  | cons v log ih =>
    rw [List.pairwise_cons] at hsorted
    have htail := ih hsorted.2 fun w hw => hle w (List.mem_cons_of_mem v hw)
    unfold writeAt at h htail
    rw [List.find?_cons] at h
    by_cases hv : v.1 = t
    · have hdec : decide (v.1 = t) = true := decide_eq_true hv
      rw [hdec] at h
      cases h
      rw [lastWrite_cons, if_pos (by rw [hv])]
    · have hdec : decide (v.1 = t) = false := decide_eq_false hv
      rw [hdec] at h
      dsimp only at h
      have hmem : w ∈ log := List.mem_of_find?_eq_some h
      have hwt : w.1 = t := by simpa using List.find?_some h
      have hne : v.1 % m ≠ t % m := by
        intro hmod
        have hvt := hle v List.mem_cons_self hmod
        have hwv := hsorted.1 w hmem
        omega
      rw [lastWrite_cons, if_neg hne, htail h]

/-- If nothing was written at turn `t` or further round, its cell holds an earlier turn. -/
theorem lastWrite_lt (hle : ∀ w ∈ log, w.1 % m = t % m → w.1 ≤ t) (h : writeAt log t = none)
    (hw : lastWrite m log (t % m) = some w) : w.1 < t := by
  have hmem : w ∈ log := List.mem_of_find?_eq_some hw
  have hmod : w.1 % m = t % m := by simpa using List.find?_some hw
  have hne : w.1 ≠ t := by simpa using List.find?_eq_none.mp h w hmem
  exact lt_of_le_of_ne (hle w hmem hmod) hne

end LastWrite

/-! ## The turns with a property -/

/-- `q` is the first turn after `a` that has the property `p`. -/
def IsNext (p : ℕ → Bool) (a q : ℕ) : Prop :=
  a < q ∧ p q = true ∧ ∀ r < q, a < r → p r = false

instance (p : ℕ → Bool) (a q : ℕ) : Decidable (IsNext p a q) := by
  unfold IsNext
  infer_instance

theorem IsNext.unique {p : ℕ → Bool} {a q q' : ℕ} (h : IsNext p a q) (h' : IsNext p a q') :
    q = q' := by
  obtain ⟨haq, hq, hfirst⟩ := h
  obtain ⟨haq', hq', hfirst'⟩ := h'
  rcases Nat.lt_trichotomy q q' with hlt | heq | hlt
  · simp [hfirst' q hlt haq] at hq
  · exact heq
  · simp [hfirst q' hlt haq'] at hq'

/-- A turn with the property after `a` bounds the first one. -/
theorem exists_isNext {p : ℕ → Bool} {a n : ℕ} (han : a < n) (hn : p n = true) :
    ∃ q ≤ n, IsNext p a q := by
  have hex : ∃ q, a < q ∧ p q = true := ⟨n, han, hn⟩
  obtain ⟨haq, hq⟩ := Nat.find_spec hex
  refine ⟨Nat.find hex, Nat.find_min' hex ⟨han, hn⟩, haq, hq, fun r hr har => ?_⟩
  have hmin := Nat.find_min hex hr
  simp only [har, true_and, Bool.not_eq_true] at hmin
  exact hmin

/-- The turns after `a`, up to `b`, that have the property `p`, in order. -/
def selected (p : ℕ → Bool) (a b : ℕ) : List ℕ := (List.range' (a + 1) (b - a)).filter p

@[simp] theorem selected_self (p : ℕ → Bool) (a : ℕ) : selected p a a = [] := by
  simp [selected]

theorem pairwise_selected (p : ℕ → Bool) (a b : ℕ) : (selected p a b).Pairwise (· < ·) :=
  (List.pairwise_lt_range' 1).filter p

/-- Going on to the next turn with the property adds just that turn. -/
theorem selected_next {p : ℕ → Bool} {a b q : ℕ} (hab : a ≤ b) (h : IsNext p b q) :
    selected p a q = selected p a b ++ [q] := by
  obtain ⟨hbq, hq, hfirst⟩ := h
  -- no turn between `b` and `q` has the property, or it would be the next one
  have hnone : (List.range' (b + 1) (q - b - 1)).filter p = [] := by
    rw [List.filter_eq_nil_iff]
    intro r hr
    rw [List.mem_range'_1] at hr
    simp [hfirst r (by omega) (by omega)]
  unfold selected
  rw [show q - a = (b - a) + (q - b - 1) + 1 by omega, List.range'_1_concat,
    ← List.range'_append_1, List.filter_append, List.filter_append,
    show a + 1 + (b - a) = b + 1 by omega, hnone,
    show a + 1 + (b - a + (q - b - 1)) = q by omega]
  simp [hq]

end PvLib
