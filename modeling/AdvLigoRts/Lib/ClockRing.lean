import AdvLigoRts.Lib.Lap

/-!
# Slots that are filled ahead of a clock

A ring of `m` slots serves the clocks from `c` on, each slot one of the next `m`. `Ahead` says that
a slot holds zero or what was written for its clock.
-/

namespace PvLib

variable {β : Type*} [Zero β] {m c k : ℕ} {wrote wrote' : ℕ → β → Prop} {content : ℕ → β} {v : β}

def Ahead (m : ℕ) (wrote : ℕ → β → Prop) (content : ℕ → β) (c : ℕ) : Prop :=
  ∀ i, content i = 0 ∨ ∃ k, c ≤ k ∧ k < c + m ∧ k % m = i ∧ wrote k (content i)

/-- A slot that gets zero, or something that was written for its clock. -/
theorem Ahead.update (h : Ahead m wrote content c) (i : ℕ)
    (hv : v = 0 ∨ ∃ k, c ≤ k ∧ k < c + m ∧ k % m = i ∧ wrote' k v)
    (hother : ∀ k x, k % m ≠ i → wrote k x → wrote' k x) :
    Ahead m wrote' (Function.update content i v) c := by
  intro j
  by_cases hj : j = i
  · rw [hj, Function.update_self]
    exact hv
  · rw [Function.update_of_ne hj]
    rcases h j with hzero | ⟨k, hle, hlt, hk, hwrote⟩
    · exact Or.inl hzero
    · exact Or.inr ⟨k, hle, hlt, hk, hother k _ (hk ▸ hj) hwrote⟩

theorem Ahead.write (h : Ahead m wrote content c) (hle : c ≤ k) (hlt : k < c + m)
    (hv : wrote' k v) (hother : ∀ k' x, k' ≠ k → wrote k' x → wrote' k' x) :
    Ahead m wrote' (Function.update content (k % m) v) c := by
  apply h.update (k % m) (Or.inr ⟨k, hle, hlt, rfl, hv⟩)
  intro k' x hne
  apply hother k' x
  exact fun heq => hne (heq ▸ rfl)

theorem Ahead.clear (h : Ahead m wrote content c) (k : ℕ)
    (hother : ∀ k' x, k' ≠ k → wrote k' x → wrote' k' x) :
    Ahead m wrote' (Function.update content (k % m) 0) c := by
  apply h.update (k % m) (Or.inl rfl)
  intro k' x hne
  apply hother k' x
  exact fun heq => hne (heq ▸ rfl)

theorem Ahead.mono (h : Ahead m wrote content c) (himp : ∀ k x, wrote k x → wrote' k x) :
    Ahead m wrote' content c := by
  intro i
  rcases h i with hzero | ⟨k, hle, hlt, hk, hwrote⟩
  · exact Or.inl hzero
  · exact Or.inr ⟨k, hle, hlt, hk, himp k _ hwrote⟩

theorem Ahead.next (h : Ahead m wrote content c) (hempty : content (c % m) = 0) :
    Ahead m wrote content (c + 1) := by
  intro i
  rcases h i with hzero | ⟨k, hle, hlt, hk, hwrote⟩
  · exact Or.inl hzero
  · by_cases hkc : k = c
    · exact Or.inl (by rw [← hk, hkc, hempty])
    · exact Or.inr ⟨k, by omega, by omega, hk, hwrote⟩

theorem Ahead.current (h : Ahead m wrote content c) :
    content (c % m) = 0 ∨ wrote c (content (c % m)) := by
  rcases h (c % m) with hzero | ⟨k, hle, hlt, hk, hwrote⟩
  · exact Or.inl hzero
  · obtain rfl : c = k := eq_of_mod_eq hle hlt hk.symm
    exact Or.inr hwrote

end PvLib
