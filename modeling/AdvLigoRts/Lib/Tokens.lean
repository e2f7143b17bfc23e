import Mathlib.Data.List.TakeWhile

/-!
# Splitting a text at separators

`strtok` is the splitter of the C library: it passes over separators, and the next token goes up
to the next separator, which is taken away with it. `tokens` are all tokens of a text.
-/

namespace PvLib

variable {sep : Char → Bool} {text t rest : List Char} {c : Char}

/-- The next token, and the text behind it and its separator. -/
def strtok (sep : Char → Bool) (text : List Char) : Option (List Char × List Char) :=
  let text := text.dropWhile sep
  if text = [] then none
  else some (text.takeWhile fun c => !sep c, (text.dropWhile fun c => !sep c).tail)

theorem strtok_sep (h : sep c = true) : strtok sep (c :: text) = strtok sep text := by
  rw [strtok, List.dropWhile_cons, if_pos h, strtok]

theorem strtok_nil : strtok sep [] = none := rfl

section Word

variable (hne : t ≠ []) (ht : ∀ c ∈ t, sep c = false)
include hne ht

theorem dropWhile_word (rest : List Char) : (t ++ rest).dropWhile sep = t ++ rest := by
  obtain ⟨a, t, rfl⟩ := List.exists_cons_of_ne_nil hne
  rw [List.cons_append, List.dropWhile_cons, ht a List.mem_cons_self]
  rfl

theorem strtok_word (h : sep c = true) : strtok sep (t ++ c :: rest) = some (t, rest) := by
  have hpos : ∀ a ∈ t, (!sep a) = true := fun a ha => by rw [ht a ha]; rfl
  rw [strtok, dropWhile_word hne ht, if_neg (by simp), List.takeWhile_append_of_pos hpos,
    List.dropWhile_append_of_pos hpos, List.takeWhile_cons, List.dropWhile_cons, h]
  simp

theorem strtok_last : strtok sep t = some (t, []) := by
  have hpos : ∀ a ∈ t, (!sep a) = true := fun a ha => by rw [ht a ha]; rfl
  have hdrop := dropWhile_word hne ht []
  have htake := @List.takeWhile_append_of_pos _ _ t [] hpos
  have hrest := @List.dropWhile_append_of_pos _ _ t [] hpos
  rw [List.append_nil] at hdrop htake hrest
  rw [strtok, hdrop, if_neg hne, htake, hrest]
  simp

end Word

theorem strtok_length (h : strtok sep text = some (t, rest)) : rest.length < text.length := by
  unfold strtok at h
  dsimp only at h
  split at h
  case isTrue => cases h
  case isFalse hne =>
    cases h
    have hle := (List.dropWhile_sublist sep (l := text)).length_le
    have hstart : ((text.dropWhile sep).dropWhile fun c => !sep c).length ≤
        (text.dropWhile sep).length := (List.dropWhile_sublist _).length_le
    have hpos := List.length_pos_iff.mpr hne
    rw [List.length_tail]
    omega

def tokens (sep : Char → Bool) (text : List Char) : List (List Char) :=
  match h : strtok sep text with
  | none => []
  | some (t, rest) =>
    have := strtok_length h
    t :: tokens sep rest
termination_by text.length

theorem tokens_eq (sep : Char → Bool) (text : List Char) :
    tokens sep text = match strtok sep text with
      | none => []
      | some (t, rest) => t :: tokens sep rest := by
  rw [tokens]
  split <;> simp_all

theorem tokens_nil : tokens sep [] = [] := by rw [tokens_eq, strtok_nil]

theorem tokens_sep (h : sep c = true) : tokens sep (c :: text) = tokens sep text := by
  rw [tokens_eq, strtok_sep h, ← tokens_eq]

theorem tokens_word (hne : t ≠ []) (ht : ∀ c ∈ t, sep c = false) (h : sep c = true) :
    tokens sep (t ++ c :: rest) = t :: tokens sep rest := by
  rw [tokens_eq, strtok_word hne ht h]

theorem tokens_last (hne : t ≠ []) (ht : ∀ c ∈ t, sep c = false) : tokens sep t = [t] := by
  rw [tokens_eq, strtok_last hne ht]
  simp only [tokens_nil]

/-- Separators in front of a text are passed over. -/
theorem strtok_seps {pre : List Char} (h : ∀ c ∈ pre, sep c = true) (text : List Char) :
    strtok sep (pre ++ text) = strtok sep text := by
  induction pre with
  | nil => rfl
  | cons c pre ih =>
    rw [List.cons_append, strtok_sep (h c List.mem_cons_self)]
    exact ih fun a ha => h a (List.mem_cons_of_mem c ha)

end PvLib
