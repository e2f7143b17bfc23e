import Mathlib.Data.List.Induction

/-!
# Scans with a table of limited size

A scan counts the elements that it hits, and lists those of them that are shown, until `cap` of them
are listed. As long as there are fewer than `cap` elements to hit, the limit makes no difference,
and the count shows when it did.
-/

namespace PvLib

variable {α : Type*}

/-- What a scan has listed and counted. -/
structure Scan (α : Type*) where
  listed : List α
  counted : ℕ

namespace Scan

variable (cap : ℕ) (hit shown : α → Bool)

def step (a : Scan α) (x : α) : Scan α :=
  if a.listed.length < cap ∧ hit x = true then
    ⟨if shown x then a.listed ++ [x] else a.listed, a.counted + 1⟩
  else a

def run (xs : List α) : Scan α := xs.foldl (step cap hit shown) ⟨[], 0⟩

variable {cap hit shown}

theorem run_concat (xs : List α) (x : α) :
    run cap hit shown (xs ++ [x]) = step cap hit shown (run cap hit shown xs) x := by
  unfold run
  rw [List.foldl_append]
  rfl

variable (cap hit shown) in
theorem run_counts (xs : List α) :
    (run cap hit shown xs).listed.length ≤ (run cap hit shown xs).counted ∧
      (run cap hit shown xs).counted ≤ (xs.filter hit).length := by
  induction xs using List.reverseRecOn with
  | nil => exact ⟨Nat.le_refl _, Nat.le_refl _⟩
  | append_singleton xs x ih =>
    rw [run_concat, List.filter_append, List.length_append]
    unfold step
    split
    · rename_i hx
      rw [List.filter_cons_of_pos hx.2]
      dsimp only
      split
      · simp only [List.length_append, List.length_singleton, List.filter_nil]
        omega
      · simp only [List.length_singleton, List.filter_nil]
        omega
    · exact ⟨ih.1, Nat.le_trans ih.2 (Nat.le_add_right _ _)⟩

variable (cap hit shown) in
/-- A scan either became full or did what it would do without the limit. -/
theorem run_cases (xs : List α) :
    cap ≤ (run cap hit shown xs).listed.length ∨
      (run cap hit shown xs).listed = xs.filter (fun x => hit x && shown x) ∧
        (run cap hit shown xs).counted = (xs.filter hit).length := by
  induction xs using List.reverseRecOn with
  | nil => exact .inr ⟨rfl, rfl⟩
  | append_singleton xs x ih =>
    rw [run_concat]
    unfold step
    rcases ih with hfull | ⟨hlisted, hcounted⟩
    · rw [if_neg fun h => absurd h.1 (Nat.not_lt.mpr hfull)]
      exact .inl hfull
    by_cases hroom : (run cap hit shown xs).listed.length < cap
    · refine .inr ?_
      cases hx : hit x with
      | true =>
        rw [if_pos ⟨hroom, rfl⟩, hlisted, hcounted, List.filter_append, List.filter_append]
        cases hs : shown x with
        | true => simp [hx, hs]
        | false => simp [hx, hs]
      | false =>
        rw [if_neg fun h => Bool.false_ne_true h.2, hlisted, hcounted, List.filter_append,
          List.filter_append]
        simp [hx]
    · rw [if_neg fun h => hroom h.1]
      exact .inl (Nat.not_lt.mp hroom)

theorem run_of_room {xs : List α} (h : (xs.filter hit).length < cap) :
    (run cap hit shown xs).listed = xs.filter (fun x => hit x && shown x) ∧
      (run cap hit shown xs).counted = (xs.filter hit).length := by
  have hcounts := run_counts cap hit shown xs
  exact (run_cases cap hit shown xs).resolve_left fun hfull => by omega

theorem run_counted_iff {xs : List α} {n : ℕ} (hn : n < cap) :
    (run cap hit shown xs).counted = n ↔ (xs.filter hit).length = n := by
  have hcounts := run_counts cap hit shown xs
  rcases run_cases cap hit shown xs with hfull | ⟨-, hcounted⟩
  · omega
  · rw [hcounted]

end Scan

end PvLib
