import Mathlib.Data.List.Basic

/-!
# Local numbers

A loop over a list gives the elements with a property the numbers 0, 1, ... in their order.
-/

namespace PvLib

variable {α β : Type*}

theorem countP_snoc_pos {p : α → Bool} {a : α} (hp : p a = true) (l : List α) :
    (l ++ [a]).countP p = l.countP p + 1 := by
  rw [List.countP_append, List.countP_singleton, if_pos hp]

theorem countP_snoc_neg {p : α → Bool} {a : α} (hp : p a = false) (l : List α) :
    (l ++ [a]).countP p = l.countP p := by
  rw [List.countP_append, List.countP_singleton, hp]
  rfl

section Numbers

variable (p : α → Bool) (l : List α)

/-- `map i` is the number of the element at position `i`, if that has the property. -/
def Numbers (map : ℕ → ℕ) : Prop :=
  ∀ i a, l[i]? = some a → p a = true → map i = (l.take i).countP p

theorem filter_getElem?_countP {done rest : List α} {a : α} (hl : l = done ++ a :: rest)
    (hp : p a = true) : (l.filter p)[done.countP p]? = some a := by
  rw [hl, List.filter_append, List.filter_cons_of_pos hp, List.countP_eq_length_filter,
    List.getElem?_append_right (Nat.le_refl _), Nat.sub_self, List.getElem?_cons_zero]

variable {p l} {map : ℕ → ℕ} {a : α}

theorem Numbers.nil : Numbers p [] map := by
  intro i a h
  cases h

theorem Numbers.at_split (h : Numbers p l map) {done rest : List α} (hl : l = done ++ a :: rest)
    (hp : p a = true) : map done.length = done.countP p := by
  have hentry : l[done.length]? = some a := by
    rw [hl, List.getElem?_append_right (Nat.le_refl _), Nat.sub_self, List.getElem?_cons_zero]
  rw [h _ a hentry hp, hl, List.take_left]

theorem Numbers.snoc_of_eq (h : Numbers p l map) {map' : ℕ → ℕ}
    (hsame : ∀ i < l.length, map' i = map i)
    (hlast : p a = true → map' l.length = l.countP p) : Numbers p (l ++ [a]) map' := by
  intro i b hb hp
  by_cases hi : i < l.length
  · rw [List.getElem?_append_left hi] at hb
    rw [hsame i hi, h i b hb hp, List.take_append_of_le_length (Nat.le_of_lt hi)]
  · obtain ⟨hlen, hget⟩ := List.getElem?_eq_some_iff.mp hb
    rw [List.length_append, List.length_singleton] at hlen
    obtain rfl : i = l.length := by omega
    rw [List.getElem_concat_length rfl] at hget
    rw [hlast (hget ▸ hp), List.take_left]

theorem Numbers.snoc_pos (h : Numbers p l map) :
    Numbers p (l ++ [a]) (Function.update map l.length (l.countP p)) :=
  h.snoc_of_eq (fun _ hi => Function.update_of_ne (Nat.ne_of_lt hi) _ _)
    fun _ => Function.update_self ..

theorem Numbers.snoc_neg (h : Numbers p l map) (hp : p a = false) : Numbers p (l ++ [a]) map :=
  h.snoc_of_eq (fun _ _ => rfl) fun hp' => absurd hp' (by simp [hp])

end Numbers

section Assigned

variable (p : α → Bool) (g : α → β) (default : β) (l : List α)

/-- The elements with the property have their values, as far as they are in `done`. -/
def Assigned (done : List α) (table : ℕ → β) : Prop :=
  ∀ k a, (l.filter p)[k]? = some a → table k = if k < done.countP p then g a else default

variable {p g default l} {done rest : List α} {a : α} {table : ℕ → β}

theorem Assigned.nil (h : ∀ k < l.countP p, table k = default) :
    Assigned p g default l [] table := by
  intro k a ha
  have hk := (List.getElem?_eq_some_iff.mp ha).1
  rw [← List.countP_eq_length_filter] at hk
  rw [List.countP_nil, if_neg (Nat.not_lt_zero k)]
  exact h k hk

theorem Assigned.snoc_neg (h : Assigned p g default l done table) (hp : p a = false) :
    Assigned p g default l (done ++ [a]) table := by
  intro k b hb
  rw [countP_snoc_neg hp]
  exact h k b hb

theorem Assigned.snoc_of_eq (h : Assigned p g default l done table) (hl : l = done ++ a :: rest)
    (hp : p a = true) {table' : ℕ → β} (hsame : ∀ k ≠ done.countP p, table' k = table k)
    (hlast : table' (done.countP p) = g a) : Assigned p g default l (done ++ [a]) table' := by
  intro k b hb
  rw [countP_snoc_pos hp]
  by_cases hk : k = done.countP p
  · rw [hk, filter_getElem?_countP p l hl hp] at hb
    rw [hk, hlast, if_pos (Nat.lt_succ_self _), Option.some.inj hb]
  · rw [hsame k hk, h k b hb]
    exact if_congr (by omega) rfl rfl

theorem Assigned.snoc_pos (h : Assigned p g default l done table) (hl : l = done ++ a :: rest)
    (hp : p a = true) :
    Assigned p g default l (done ++ [a]) (Function.update table (done.countP p) (g a)) :=
  h.snoc_of_eq hl hp (fun _ hk => Function.update_of_ne hk _ _) (Function.update_self ..)

/-- An element whose value is the default needs no update. -/
theorem Assigned.snoc_default (h : Assigned p g default l done table)
    (hl : l = done ++ a :: rest) (hp : p a = true) (hg : g a = default) :
    Assigned p g default l (done ++ [a]) table := by
  apply h.snoc_of_eq hl hp (fun _ _ => rfl)
  rw [h _ a (filter_getElem?_countP p l hl hp), if_neg (Nat.lt_irrefl _), hg]

theorem Assigned.all (h : Assigned p g default l l table) {k : ℕ}
    (ha : (l.filter p)[k]? = some a) : table k = g a := by
  have hk := (List.getElem?_eq_some_iff.mp ha).1
  rw [← List.countP_eq_length_filter] at hk
  rw [h k a ha, if_pos hk]

end Assigned

end PvLib
