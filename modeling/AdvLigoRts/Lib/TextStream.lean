import Mathlib.Data.List.Basic
import Mathlib.Data.Int.Notation

/-!
# Reading and writing text

What formatted input makes of a text: `getlines` cuts it into lines, `takeInt` and `takeWord` read a
decimal number and a word after leading white space and return what is left. `printInt` writes a
number.
-/

namespace PvLib

def isSpace (c : Char) : Bool :=
  c == ' ' || c == '\t' || c == '\n' || c == '\r' || c == '\x0b' || c == '\x0c'

variable {text : List Char}

theorem isSpace_of_any (h : text.any isSpace = false) : ∀ c ∈ text, isSpace c = false :=
  fun c hc => Bool.eq_false_iff.mpr (List.any_eq_false.mp h c hc)

/-- The lines of a text; what follows the last newline is a line unless it is empty. -/
def getlines : List Char → List (List Char)
  | [] => []
  | c :: cs =>
    if c = '\n' then [] :: getlines cs
    else
      match getlines cs with
      | [] => [[c]]
      | l :: ls => (c :: l) :: ls

/-- What `fgets` reads one after the other into a buffer for `size` characters, with room for `room`
of them left: a newline or the end of the room ends a piece. -/
def fgetsPieces (size : ℕ) : ℕ → List Char → List (List Char)
  | _, [] => []
  | room, c :: cs =>
    if c = '\n' ∨ room ≤ 1 then [c] :: fgetsPieces size size cs
    else
      match fgetsPieces size (room - 1) cs with
      | [] => [[c]]
      | l :: ls => (c :: l) :: ls

/-- A decimal number with an optional sign, after white space. -/
def takeInt (text : List Char) : Option (ℤ × List Char) :=
  let text := text.dropWhile isSpace
  let negative := text.head? = some '-'
  let text := if text.head? = some '-' ∨ text.head? = some '+' then text.tail else text
  let digits := text.takeWhile Char.isDigit
  if digits = [] then none
  else
    let n : ℕ := Nat.ofDigitChars 10 digits 0
    some (if negative then -(n : ℤ) else n, text.dropWhile Char.isDigit)

/-- A word, after white space. -/
def takeWord (text : List Char) : Option (List Char × List Char) :=
  let text := text.dropWhile isSpace
  let word := text.takeWhile fun c => !isSpace c
  if word = [] then none else some (word, text.dropWhile fun c => !isSpace c)

def printInt (v : ℤ) : List Char :=
  if v < 0 then '-' :: Nat.toDigits 10 v.natAbs else Nat.toDigits 10 v.natAbs

/-! ## Lines -/

/-- Every line of the text has its newline. -/
def Complete (text : List Char) : Prop := text = [] ∨ text.getLast? = some '\n'

variable {line : List Char}

theorem Complete.append : Complete (text ++ line ++ ['\n']) := by
  right
  simp

theorem getlines_line (h : '\n' ∉ line) (rest : List Char) :
    getlines (line ++ '\n' :: rest) = line :: getlines rest := by
  induction line with
  | nil => simp [getlines]
  | cons c cs ih =>
    obtain ⟨hc, hcs⟩ := not_or.mp (mt List.mem_cons.mpr h)
    simp only [List.cons_append, getlines, if_neg (Ne.symm hc), ih hcs]

theorem getlines_ne_nil (h : text ≠ []) : getlines text ≠ [] := by
  cases text with
  | nil => exact absurd rfl h
  | cons c cs =>
    unfold getlines
    split
    · simp
    · split <;> simp

/-- Complete lines are read as they would be without what follows. -/
theorem getlines_append (h : Complete text) (rest : List Char) :
    getlines (text ++ rest) = getlines text ++ getlines rest := by
  induction text with
  | nil => rfl
  | cons c cs ih =>
    by_cases hc : c = '\n'
    · have hcs : Complete cs := by
        cases cs with
        | nil => exact Or.inl rfl
        | cons d ds => exact Or.inr (by simpa [Complete] using h)
      simp only [List.cons_append, getlines, if_pos hc, ih hcs]
    · -- the newline is further on
      obtain ⟨d, ds, rfl⟩ : ∃ d ds, cs = d :: ds := by
        cases cs with
        | nil => exact absurd (by simpa [Complete] using h) hc
        | cons d ds => exact ⟨d, ds, rfl⟩
      have hcs : Complete (d :: ds) := Or.inr (by simpa [Complete] using h)
      obtain ⟨l, ls, hl⟩ := List.exists_cons_of_ne_nil (getlines_ne_nil (List.cons_ne_nil d ds))
      have happ := ih hcs
      rw [hl] at happ
      rw [List.cons_append, getlines, if_neg hc, happ, getlines, if_neg hc, hl]
      rfl

theorem getlines_append_line (h : Complete text) (hl : '\n' ∉ line) :
    getlines (text ++ line ++ ['\n']) = getlines text ++ [line] := by
  rw [List.append_assoc, getlines_append h, getlines_line hl]
  rfl

variable {size : ℕ}

theorem fgetsPieces_line {room : ℕ} (h : '\n' ∉ line) (hroom : line.length < room)
    (rest : List Char) :
    fgetsPieces size room (line ++ '\n' :: rest) =
      (line ++ ['\n']) :: fgetsPieces size size rest := by
  induction line generalizing room with
  | nil => simp [fgetsPieces]
  | cons c cs ih =>
    obtain ⟨hc, hcs⟩ := not_or.mp (mt List.mem_cons.mpr h)
    rw [List.length_cons] at hroom
    have hstop : ¬(c = '\n' ∨ room ≤ 1) := by
      rintro (heq | hle)
      · exact hc heq.symm
      · omega
    simp only [List.cons_append, fgetsPieces, if_neg hstop, 
      ih hcs (show cs.length < room - 1 by omega)]

theorem fgetsPieces_cut {room : ℕ} (h : '\n' ∉ line) (hne : line ≠ [])
    (hroom : line.length = room) (rest : List Char) :
    fgetsPieces size room (line ++ rest) = line :: fgetsPieces size size rest := by
  induction line generalizing room with
  | nil => exact absurd rfl hne
  | cons c cs ih =>
    obtain ⟨hc, hcs⟩ := not_or.mp (mt List.mem_cons.mpr h)
    rw [List.length_cons] at hroom
    by_cases hempty : cs = []
    · subst hempty
      have hstop : c = '\n' ∨ room ≤ 1 := .inr (by simp at hroom; omega)
      simp only [List.cons_append, List.nil_append, fgetsPieces, if_pos hstop]
    · have hpos := List.length_pos_iff.mpr hempty
      have hstop : ¬(c = '\n' ∨ room ≤ 1) := by
        rintro (heq | hle)
        · exact hc heq.symm
        · omega
      simp only [List.cons_append, fgetsPieces, if_neg hstop,
        ih hcs hempty (show cs.length = room - 1 by omega)]

/-- Complete lines are cut into pieces as they would be without what follows. -/
theorem fgetsPieces_append {room : ℕ} (h : text.getLast? = some '\n') (rest : List Char) :
    fgetsPieces size room (text ++ rest) =
      fgetsPieces size room text ++ fgetsPieces size size rest := by
  induction text generalizing room with
  | nil => cases h
  | cons c cs ih =>
    by_cases hstop : c = '\n' ∨ room ≤ 1
    · rw [List.cons_append, fgetsPieces, if_pos hstop, fgetsPieces, if_pos hstop]
      cases cs with
      | nil => rfl
      | cons d ds =>
        rw [ih (by simpa using h)]
        rfl
    · cases cs with
      | nil => exact absurd (.inl (by simpa using h)) hstop
      | cons d ds =>
        have hpieces : ∃ l ls, fgetsPieces size (room - 1) (d :: ds) = l :: ls := by
          unfold fgetsPieces
          split
          · exact ⟨_, _, rfl⟩
          · split <;> exact ⟨_, _, rfl⟩
        obtain ⟨l, ls, hl⟩ := hpieces
        have happ : fgetsPieces size (room - 1) (d :: ds ++ rest) =
            fgetsPieces size (room - 1) (d :: ds) ++ fgetsPieces size size rest :=
          ih (by simpa using h)
        rw [hl] at happ
        rw [List.cons_append, fgetsPieces, if_neg hstop, happ, fgetsPieces, if_neg hstop, hl]
        rfl

theorem fgetsPieces_flatten (size room : ℕ) (text : List Char) :
    (fgetsPieces size room text).flatten = text := by
  induction text generalizing room with
  | nil => rfl
  | cons c cs ih =>
    unfold fgetsPieces
    split
    · rw [List.flatten_cons, ih, List.singleton_append]
    · have hrest := ih (room - 1)
      split
      · next hnil =>
        rw [hnil] at hrest
        rw [← hrest]
        rfl
      · next l ls hcons =>
        rw [hcons] at hrest
        rw [← hrest]
        rfl

/-- The first piece has at most the characters that there is room for, and the others as many as
there are in a line. -/
theorem fgetsPieces_length {room : ℕ} (hroom : 0 < room) (hsize : 0 < size) {first : List Char}
    {rest : List (List Char)} (h : fgetsPieces size room text = first :: rest) :
    first.length ≤ room ∧ ∀ piece ∈ rest, piece.length ≤ size := by
  induction text generalizing room first rest with
  | nil => cases h
  | cons d ds ih =>
    have hnext : ∀ {pieces : List (List Char)}, fgetsPieces size size ds = pieces →
        ∀ piece ∈ pieces, piece.length ≤ size := by
      intro pieces hpieces piece hmem
      cases pieces with
      | nil => cases hmem
      | cons l ls =>
        obtain ⟨hl, hls⟩ := ih hsize hpieces
        rcases List.mem_cons.mp hmem with rfl | hmem
        · exact hl
        · exact hls piece hmem
    unfold fgetsPieces at h
    split at h
    · cases h
      exact ⟨hroom, hnext rfl⟩
    · rename_i hstop
      split at h
      · cases h
        exact ⟨hroom, nofun⟩
      · rename_i l ls hl
        cases h
        obtain ⟨hfirst, hls⟩ := ih (by omega) hl
        refine ⟨?_, hls⟩
        rw [List.length_cons]
        omega

/-- A piece has at most the characters of the buffer. -/
theorem length_le_of_mem_fgetsPieces (hsize : 0 < size) {piece : List Char}
    (h : piece ∈ fgetsPieces size size text) : piece.length ≤ size := by
  cases hpieces : fgetsPieces size size text with
  | nil =>
    rw [hpieces] at h
    cases h
  | cons first rest =>
    obtain ⟨hfirst, hrest⟩ := fgetsPieces_length hsize hsize hpieces
    rw [hpieces] at h
    rcases List.mem_cons.mp h with rfl | h
    · exact hfirst
    · exact hrest piece h

theorem mem_of_mem_fgetsPieces {room : ℕ} {piece : List Char}
    (h : piece ∈ fgetsPieces size room text) : ∀ c ∈ piece, c ∈ text := by
  induction text generalizing room piece with
  | nil => cases h
  | cons d ds ih =>
    unfold fgetsPieces at h
    split at h
    · intro c hc
      rcases List.mem_cons.mp h with rfl | h
      · exact List.mem_cons.mpr (.inl (List.mem_singleton.mp hc))
      · exact List.mem_cons_of_mem d (ih h c hc)
    · split at h
      · intro c hc
        rw [List.mem_singleton.mp h, List.mem_singleton] at hc
        exact List.mem_cons.mpr (.inl hc)
      · rename_i l ls hl
        intro c hc
        rcases List.mem_cons.mp h with rfl | h
        · rcases List.mem_cons.mp hc with rfl | hc
          · exact List.mem_cons_self
          · exact List.mem_cons_of_mem d (ih (hl ▸ List.mem_cons_self) c hc)
        · exact List.mem_cons_of_mem d (ih (hl ▸ List.mem_cons_of_mem l h) c hc)

/-! ## Numbers and words -/

theorem takeWhile_append_stop {p : Char → Bool} {xs ys : List Char} (hx : ∀ c ∈ xs, p c = true)
    (hy : ∀ c, ys.head? = some c → p c = false) : (xs ++ ys).takeWhile p = xs := by
  rw [List.takeWhile_append_of_pos hx]
  cases ys with
  | nil => simp
  | cons y ys => simp [hy y rfl]

theorem dropWhile_append_stop {p : Char → Bool} {xs ys : List Char} (hx : ∀ c ∈ xs, p c = true)
    (hy : ∀ c, ys.head? = some c → p c = false) : (xs ++ ys).dropWhile p = ys := by
  rw [List.dropWhile_append_of_pos hx]
  cases ys with
  | nil => simp
  | cons y ys => simp [hy y rfl]

theorem isSpace_of_isDigit {c : Char} (h : c.isDigit = true) : isSpace c = false := by
  simp only [isSpace, Bool.or_eq_false_iff, beq_eq_false_iff_ne]
  refine ⟨⟨⟨⟨⟨?_, ?_⟩, ?_⟩, ?_⟩, ?_⟩, ?_⟩ <;> rintro rfl <;> exact absurd h (by decide)

theorem printInt_cases (v : ℤ) : ∃ d ds, Nat.toDigits 10 v.natAbs = d :: ds ∧
    (∀ c ∈ d :: ds, c.isDigit = true) := by
  obtain ⟨d, ds, hd⟩ := List.exists_cons_of_ne_nil (Nat.toDigits_ne_nil (n := v.natAbs) (b := 10))
  refine ⟨d, ds, hd, fun c hc => ?_⟩
  rw [← hd] at hc
  exact Nat.isDigit_of_mem_toDigits (by decide) (by decide) hc

/-- A number that was printed is read back, up to what follows. -/
theorem takeInt_printInt (v : ℤ) {rest : List Char}
    (hrest : ∀ c, rest.head? = some c → c.isDigit = false) :
    takeInt (printInt v ++ rest) = some (v, rest) := by
  obtain ⟨d, ds, hd, hdigits⟩ := printInt_cases v
  have hvalue : Nat.ofDigitChars 10 (d :: ds) 0 = v.natAbs := by
    rw [← hd]
    exact Nat.ofDigitChars_ten_toDigits
  have hdd : d.isDigit = true := hdigits d List.mem_cons_self
  have htake : ((d :: ds) ++ rest).takeWhile Char.isDigit = d :: ds :=
    takeWhile_append_stop hdigits hrest
  have hdrop : ((d :: ds) ++ rest).dropWhile Char.isDigit = rest :=
    dropWhile_append_stop hdigits hrest
  unfold printInt
  by_cases hneg : v < 0
  · rw [if_pos hneg, hd]
    have hspace : isSpace '-' = false := by decide
    simp only [List.cons_append] at htake hdrop
    simp only [takeInt, List.cons_append, List.dropWhile_cons, hspace, Bool.false_eq_true,
      if_false, List.head?_cons, true_or, if_true, List.tail_cons, htake, hdrop,
      reduceCtorEq, hvalue]
    have hsign : -(v.natAbs : ℤ) = v := by omega
    simp only [hsign]
  · rw [if_neg hneg, hd]
    have hspace := isSpace_of_isDigit hdd
    have hminus : d ≠ '-' := by rintro rfl; exact absurd hdd (by decide)
    have hplus : d ≠ '+' := by rintro rfl; exact absurd hdd (by decide)
    have hskip : ((d :: ds) ++ rest).dropWhile isSpace = (d :: ds) ++ rest := by
      simp [hspace]
    have hhead : ((d :: ds) ++ rest).head? = some d := rfl
    simp only [takeInt, hskip, hhead, Option.some.injEq, hminus, hplus, or_self, if_false,
      htake, hdrop, hvalue, reduceCtorEq]
    have : (v.natAbs : ℤ) = v := by omega
    simp [this]

/-- A word between two blanks is read as it stands. -/
theorem takeWord_word {word : List Char} (hne : word ≠ []) (hword : ∀ c ∈ word, isSpace c = false)
    (rest : List Char) :
    takeWord (' ' :: word ++ ' ' :: rest) = some (word, ' ' :: rest) := by
  obtain ⟨c, cs, rfl⟩ := List.exists_cons_of_ne_nil hne
  have hc := hword c List.mem_cons_self
  have hblank : isSpace ' ' = true := by decide
  have hskip : (' ' :: (c :: cs) ++ ' ' :: rest).dropWhile isSpace = (c :: cs) ++ ' ' :: rest := by
    simp [hblank, hc]
  have hin : ∀ x ∈ c :: cs, (!isSpace x) = true := fun x hx => by simp [hword x hx]
  have hout : ∀ x, (' ' :: rest).head? = some x → (!isSpace x) = false := by
    intro x hx
    cases hx
    simp [hblank]
  have htake := takeWhile_append_stop (p := fun x => !isSpace x) hin hout
  have hdrop := dropWhile_append_stop (p := fun x => !isSpace x) hin hout
  simp only [takeWord, hskip, htake, hdrop, reduceCtorEq, if_false]

end PvLib
