import Mathlib.Data.List.TakeWhile
import Mathlib.Data.Fintype.Card

/-!
# Rows of slots with keys

A row is a function from `Fin n` to entries, and every entry has a key; one key is the blank of an
unused slot.
-/

namespace PvLib.SlotTable

variable {n : ℕ} {ε κ : Type*}

/-- What the search loop has found: the slot of the key, and the first blank slot before it. -/
structure Scan (n : ℕ) where
  hit : Option (Fin n)
  free : Option (Fin n)
deriving DecidableEq, Repr

/-- The search loop over the slots of a list. -/
def scanFrom [DecidableEq κ] (key : Fin n → κ) (blank target : κ) :
    List (Fin n) → Option (Fin n) → Scan n
  | [], free => ⟨none, free⟩
  | j :: js, free =>
    if key j = target then ⟨some j, free⟩
    else scanFrom key blank target js (if free = none ∧ key j = blank then some j else free)

/-- The search loop. -/
def scan [DecidableEq κ] (key : Fin n → κ) (blank target : κ) : Scan n :=
  scanFrom key blank target (List.finRange n) none

section Scan

variable [DecidableEq κ] {key : Fin n → κ} {blank target : κ} {js : List (Fin n)}
variable {free : Option (Fin n)} {j k : Fin n}

theorem scanFrom_hit : (scanFrom key blank target js free).hit = js.find? (key · = target) := by
  induction js generalizing free with
  | nil => rfl
  | cons j js ih =>
    unfold scanFrom
    by_cases h : key j = target
    · simp [h]
    · simp [h, ih]

theorem scanFrom_free :
    (scanFrom key blank target js free).free =
      free.or ((js.takeWhile fun j => !decide (key j = target)).find? (key · = blank)) := by
  induction js generalizing free with
  | nil => simp [scanFrom]
  | cons j js ih =>
    unfold scanFrom
    by_cases h : key j = target
    · simp [h]
    · have htake : (!decide (key j = target)) = true := by simpa using h
      rw [if_neg h, ih, List.takeWhile_cons, if_pos htake]
      cases free with
      | some k => simp
      | none => by_cases hb : key j = blank <;> simp [hb]

/-- The first slot with the key. -/
def lookup (key : Fin n → κ) (target : κ) : Option (Fin n) :=
  (List.finRange n).find? (key · = target)

theorem scan_hit : (scan key blank target).hit = lookup key target := scanFrom_hit

theorem lookup_some (h : lookup key target = some j) : key j = target := by
  simpa using List.find?_some h

theorem lookup_eq_none : lookup key target = none ↔ ∀ j, key j ≠ target := by
  simp [lookup, List.find?_eq_none]

theorem scan_free :
    (scan key blank target).free =
      ((List.finRange n).takeWhile fun j => !decide (key j = target)).find? (key · = blank) := by
  rw [scan, scanFrom_free, Option.none_or]

variable (key) in
theorem scan_free_blank (h : (scan key blank target).free = some k) : key k = blank := by
  rw [scan_free] at h
  simpa using List.find?_some h

/-- The slots before the first one with the key. -/
theorem mem_takeWhile_finRange :
    k ∈ ((List.finRange n).takeWhile fun j => !decide (key j = target)) ↔
      ∀ i ≤ k, key i ≠ target := by
  constructor
  · intro hk i hi
    -- the slots that are not taken come after those that are
    have happ := List.takeWhile_append_dropWhile (p := fun j => !decide (key j = target))
      (l := List.finRange n)
    have hsorted : (List.finRange n).Pairwise (· < ·) := List.pairwise_lt_finRange n
    have hmem : i ∈ ((List.finRange n).takeWhile fun j => !decide (key j = target)) ∨
        i ∈ (List.finRange n).dropWhile fun j => !decide (key j = target) := by
      rw [← List.mem_append, happ]
      exact List.mem_finRange i
    rcases hmem with hi' | hi'
    · simpa using List.mem_takeWhile_imp hi'
    · rw [← happ, List.pairwise_append] at hsorted
      exact absurd (hsorted.2.2 k hk i hi') (not_lt.mpr hi)
  · intro h
    obtain ⟨pre, post, hsplit⟩ := List.append_of_mem (List.mem_finRange k)
    have hsorted : (List.finRange n).Pairwise (· < ·) := List.pairwise_lt_finRange n
    rw [hsplit, List.pairwise_append] at hsorted
    have hpre : ∀ i ∈ pre, (!decide (key i = target)) = true := by
      intro i hi
      simpa using h i (hsorted.2.2 i hi k List.mem_cons_self).le
    have hk : (!decide (key k = target)) = true := by simpa using h k le_rfl
    rw [hsplit, List.takeWhile_append_of_pos hpre, List.takeWhile_cons, if_pos hk]
    exact List.mem_append_right _ List.mem_cons_self

/-- A blank slot is seen if one stands before the key. -/
theorem scan_free_isSome :
    (scan key blank target).free.isSome ↔ ∃ k, key k = blank ∧ ∀ i ≤ k, key i ≠ target := by
  rw [scan_free, List.find?_isSome]
  constructor
  · rintro ⟨k, hk, hb⟩
    exact ⟨k, of_decide_eq_true hb, mem_takeWhile_finRange.mp hk⟩
  · rintro ⟨k, hb, hk⟩
    exact ⟨k, mem_takeWhile_finRange.mpr hk, decide_eq_true hb⟩

theorem scan_free_none (hmiss : lookup key target = none)
    (h : (scan key blank target).free = none) (k : Fin n) : key k ≠ blank := by
  intro hb
  have hsome := scan_free_isSome.mpr ⟨k, hb, fun i _ => lookup_eq_none.mp hmiss i⟩
  rw [h] at hsome
  cases hsome

end Scan

/-! ## Distinct keys -/

/-- No key other than the blank stands in two slots. -/
def Distinct (key : Fin n → κ) (blank : κ) : Prop :=
  ∀ i j, key i ≠ blank → key i = key j → i = j

section Distinct

variable {key : ε → κ} {row : Fin n → ε} {blank target : κ} {e : ε} {i j : Fin n}

theorem distinct_const (blank : κ) : Distinct (fun _ : Fin n => blank) blank :=
  fun _ _ h _ => absurd rfl h

theorem lookup_eq_some [DecidableEq κ] {keys : Fin n → κ} (hd : Distinct keys blank)
    (ht : target ≠ blank) : lookup keys target = some j ↔ keys j = target := by
  constructor
  · exact lookup_some
  · intro hj
    cases h : lookup keys target with
    | none => exact absurd hj (lookup_eq_none.mp h j)
    | some i =>
      have hi := lookup_some h
      rw [hd i j (hi ▸ ht) (hi.trans hj.symm)]

/-- One slot changes: it is cleared, keeps its key, or takes a key that no slot has. -/
theorem Distinct.update (hd : Distinct (fun i => key (row i)) blank)
    (h : key e = blank ∨ ∀ i, key (row i) = key e → i = j) :
    Distinct (fun i => key (Function.update row j e i)) blank := by
  intro a b ha hab
  dsimp only at ha hab
  by_cases haj : a = j <;> by_cases hbj : b = j
  · exact haj.trans hbj.symm
  · subst haj
    rw [Function.update_self, Function.update_of_ne hbj] at hab
    rw [Function.update_self] at ha
    rcases h with h | h
    · exact absurd h ha
    · exact (h b hab.symm).symm
  · subst hbj
    rw [Function.update_self, Function.update_of_ne haj] at hab
    rw [Function.update_of_ne haj] at ha
    rcases h with h | h
    · exact absurd (hab.trans h) ha
    · exact h a hab
  · rw [Function.update_of_ne haj, Function.update_of_ne hbj] at hab
    rw [Function.update_of_ne haj] at ha
    exact hd a b ha hab

variable [DecidableEq κ]

def find (key : ε → κ) (row : Fin n → ε) (target : κ) : Option ε :=
  (lookup (fun i => key (row i)) target).map row

theorem find_eq_some (hd : Distinct (fun i => key (row i)) blank) (ht : target ≠ blank) :
    find key row target = some e ↔ ∃ j, row j = e ∧ key e = target := by
  unfold find
  rw [Option.map_eq_some_iff]
  constructor
  · rintro ⟨j, hj, rfl⟩
    exact ⟨j, rfl, lookup_some hj⟩
  · rintro ⟨j, rfl, hj⟩
    exact ⟨j, (lookup_eq_some hd ht).mpr hj, rfl⟩

theorem find_eq_none : find key row target = none ↔ ∀ j, key (row j) ≠ target := by
  rw [find, Option.map_eq_none_iff, lookup_eq_none]

theorem find_row (hd : Distinct (fun i => key (row i)) blank) (hj : key (row j) ≠ blank) :
    find key row (key (row j)) = some (row j) :=
  (find_eq_some hd hj).mpr ⟨j, rfl, rfl⟩

/-- The entry of the key that a changed slot has. -/
theorem find_update_self (hd : Distinct (fun i => key (Function.update row j e i)) blank)
    (he : key e ≠ blank) : find key (Function.update row j e) (key e) = some e :=
  (find_eq_some hd he).mpr ⟨j, Function.update_self .., rfl⟩

/-- Entries of other keys than those of a changed slot stay. -/
theorem find_update_of_ne (hold : key (row j) ≠ target) (hnew : key e ≠ target) :
    find key (Function.update row j e) target = find key row target := by
  have hkeys : ∀ i, (key (Function.update row j e i) = target) = (key (row i) = target) := by
    intro i
    by_cases hi : i = j
    · subst hi
      rw [Function.update_self]
      exact propext ⟨fun h => absurd h hnew, fun h => absurd h hold⟩
    · rw [Function.update_of_ne hi]
  have hlook : lookup (fun i => key (Function.update row j e i)) target =
      lookup (fun i => key (row i)) target := by
    unfold lookup
    simp only [hkeys]
  unfold find
  rw [hlook]
  cases h : lookup (fun i => key (row i)) target with
  | none => rfl
  | some i =>
    have hi : i ≠ j := fun hij => hold (hij ▸ lookup_some h)
    simp only [Option.map_some, Function.update_of_ne hi]

theorem find_update_cleared (hd : Distinct (fun i => key (row i)) blank)
    (hj : key (row j) ≠ blank) (he : key e ≠ key (row j)) :
    find key (Function.update row j e) (key (row j)) = none := by
  rw [find_eq_none]
  intro i hi
  by_cases hij : i = j
  · subst hij
    rw [Function.update_self] at hi
    exact he hi
  · rw [Function.update_of_ne hij] at hi
    exact hij (hd j i hj hi.symm).symm

end Distinct

/-! ## How many slots are in use -/

variable [DecidableEq κ]

/-- The keys that stand in slots. -/
def keys (key : Fin n → κ) (blank : κ) : Finset κ :=
  (Finset.univ.image key).erase blank

@[simp] theorem mem_keys {key : Fin n → κ} {blank k : κ} :
    k ∈ keys key blank ↔ k ≠ blank ∧ ∃ j, key j = k := by
  simp [keys]

theorem countP_used {key : Fin n → κ} {blank : κ} (hd : Distinct key blank) :
    (List.finRange n).countP (key · ≠ blank) = (keys key blank).card := by
  have himage : keys key blank = (Finset.univ.filter (key · ≠ blank)).image key := by
    ext k
    simp only [mem_keys, Finset.mem_image, Finset.mem_filter, Finset.mem_univ, true_and]
    constructor
    · rintro ⟨hk, j, rfl⟩
      exact ⟨j, hk, rfl⟩
    · rintro ⟨j, hj, rfl⟩
      exact ⟨hj, j, rfl⟩
  have hinj : Set.InjOn key (Finset.univ.filter (key · ≠ blank)) := by
    intro i hi j _ hij
    exact hd i j (by simpa using hi) hij
  rw [himage, Finset.card_image_of_injOn hinj, List.countP_eq_length_filter]
  have hnodup : ((List.finRange n).filter (key · ≠ blank)).Nodup :=
    (List.nodup_finRange n).filter _
  rw [← List.toFinset_card_of_nodup hnodup]
  congr 1
  ext j
  simp

end PvLib.SlotTable
