import Mathlib.Data.List.Count
import Mathlib.Data.List.Basic

/-!
# Ledgers of who holds what

A ledger lists the holdings that were taken and not given back, the newest first: a pair for
each, of the holder and of what it holds. A reference counter is right if it says how many pairs
of the ledger are for its object.
-/

namespace PvLib.Ledger

variable {η ρ : Type*} {l : List (η × ρ)} {h : η} {r q : ρ}

section Objects

variable [DecidableEq ρ]

/-- How many holdings of an object there are. -/
def holding (l : List (η × ρ)) (r : ρ) : ℕ := l.countP (·.2 = r)

theorem holding_cons : holding ((h, q) :: l) r = holding l r + if q = r then 1 else 0 := by
  simp [holding, List.countP_cons]

theorem holding_pos : 0 < holding l r ↔ ∃ h, (h, r) ∈ l := by
  simp [holding, List.countP_pos_iff]

theorem holding_eq_zero : holding l r = 0 ↔ ∀ h, (h, r) ∉ l := by
  rw [← not_exists, ← holding_pos, Nat.pos_iff_ne_zero, not_not]

end Objects

section Holders

variable [DecidableEq η]

/-- What a holder holds, an object as often as it took it. -/
def heldBy (l : List (η × ρ)) (h : η) : List ρ := (l.filter (·.1 = h)).map Prod.snd

/-- All holdings of a holder are given back. -/
def leave (l : List (η × ρ)) (h : η) : List (η × ρ) := l.filter (·.1 ≠ h)

end Holders

variable [DecidableEq η] [DecidableEq ρ]

theorem holding_erase (hmem : (h, q) ∈ l) :
    holding l r = holding (l.erase (h, q)) r + if q = r then 1 else 0 := by
  have hperm := (List.perm_cons_erase hmem).countP_eq (p := fun a => decide (a.2 = r))
  unfold holding
  rw [hperm, List.countP_cons]
  simp

/-- The holdings of a holder that leaves, and those that stay. -/
theorem holding_leave : holding l r = holding (leave l h) r + (heldBy l h).count r := by
  induction l with
  | nil => rfl
  | cons a l ih =>
    obtain ⟨h', q⟩ := a
    rw [holding_cons, ih]
    by_cases hh : h' = h <;>
      simp [leave, heldBy, holding, hh, List.countP_cons, List.count_cons] <;> omega

end PvLib.Ledger
