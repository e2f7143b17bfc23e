import AdvLigoRts.Drv.Param

/-!
# The buffers for identifiers and values

Both copy loops stop at 64 characters, and the zero goes behind what they have copied: a line
whose identifier, or whose value, has 64 characters that are not white space puts it at index 64.
-/

namespace AdvLigoRts.Drv

open PvLib

/-- How many characters of a text are copied. -/
def solidCount (text : List Char) : ℕ := text.countP fun c => !isSpace c

/-- The zero behind a string lies in the buffer. -/
def Terminated (buffer : List (ℕ × Char)) : Prop := ∃ i < 64, (i, '\x00') ∈ buffer

/-- A line writes to the buffers only, and leaves strings in them if they are looked at. -/
structure LineSafe (line : List Char) : Prop where
  id : ∀ w ∈ (lineBuffers line).id, w.1 < 64
  val : ∀ w ∈ (lineBuffers line).val, w.1 < 64
  terminated : (lineBuffers line).used = true →
    Terminated (lineBuffers line).id ∧ Terminated (lineBuffers line).val

/-- The loop over the identifier comes to the `=` behind `pre`: there is room for its last
character. -/
def Reaches (pre : List Char) : Prop := '=' ∉ pre ∧ solidCount pre.dropLast < 64

/-- The identifier or the value of the line has 64 characters or more. -/
def Overlong (line : List Char) : Prop :=
  ∃ pre post, line = pre ++ '=' :: post ∧ Reaches pre ∧
    (solidCount pre = 64 ∨ 64 ≤ solidCount post)

/-! ## The loops -/

theorem solidCount_cons (c : Char) (cs : List Char) :
    solidCount (c :: cs) = solidCount cs + if isSpace c then 0 else 1 := by
  unfold solidCount
  rw [List.countP_cons]
  cases isSpace c with
  | true => rfl
  | false => rfl

/-- The loop over the value writes the first characters in order. -/
theorem valLoop_spec (line : List Char) {cr : ℕ} (hcr : cr ≤ 64) :
    (valLoop cr line).length = min (64 - cr) (solidCount line) ∧
      ∀ w ∈ valLoop cr line, w.1 < 64 := by
  induction line generalizing cr with
  | nil => exact ⟨by simp [valLoop, solidCount], nofun⟩
  | cons c cs ih =>
    rw [valLoop, solidCount_cons]
    split
    · next hroom =>
      split
      · next hspace =>
        obtain ⟨hlength, hindex⟩ := ih hcr
        exact ⟨by omega, hindex⟩
      · next hsolid =>
        obtain ⟨hlength, hindex⟩ := ih (show cr + 1 ≤ 64 by omega)
        rw [List.length_cons]
        refine ⟨by omega, ?_⟩
        intro w hw
        rcases List.mem_cons.mp hw with rfl | hw
        · exact hroom
        · exact hindex w hw
    · next hfull => exact ⟨by simp; omega, nofun⟩

/-- The loop over the identifier writes to the buffer only. -/
theorem idLoop_index (line : List Char) {cr : ℕ} : ∀ w ∈ (idLoop cr line).1, w.1 < 64 := by
  induction line generalizing cr with
  | nil => nofun
  | cons c cs ih =>
    rw [idLoop]
    split
    · next hgo =>
      split
      · exact ih
      · intro w hw
        rcases List.mem_cons.mp hw with rfl | hw
        · exact hgo.2
        · exact ih w hw
    · nofun

/-- It comes to the `=` when there is room for the last character before it. -/
theorem idLoop_append {pre : List Char} (post : List Char) (hpre : '=' ∉ pre) {cr : ℕ}
    (hroom : pre = [] ∨ cr + solidCount pre.dropLast < 64) :
    (idLoop cr (pre ++ '=' :: post)).1.length = solidCount pre ∧
      (idLoop cr (pre ++ '=' :: post)).2 = '=' :: post := by
  induction pre generalizing cr with
  | nil =>
    rw [List.nil_append, idLoop, if_neg fun h => h.1 rfl]
    exact ⟨rfl, rfl⟩
  | cons c cs ih =>
    obtain ⟨hc, hcs⟩ := not_or.mp (mt List.mem_cons.mpr hpre)
    have hlast : cr + solidCount (c :: cs).dropLast < 64 :=
      hroom.resolve_left (List.cons_ne_nil c cs)
    rw [solidCount_cons, List.cons_append, idLoop, if_pos ⟨Ne.symm hc, by omega⟩]
    have hnext : ∀ cr', cr' ≤ cr + (if isSpace c then 0 else 1) →
        cs = [] ∨ cr' + solidCount cs.dropLast < 64 := by
      intro cr' hcr'
      cases cs with
      | nil => exact Or.inl rfl
      | cons d ds =>
        right
        rw [List.dropLast_cons_cons, solidCount_cons] at hlast
        omega
    by_cases hspace : isSpace c = true
    · rw [if_pos hspace, if_pos hspace]
      exact ih hcs (hnext cr (by omega))
    · rw [if_neg hspace, if_neg hspace, List.length_cons]
      obtain ⟨hlength, hrest⟩ := ih hcs (hnext (cr + 1) (by rw [if_neg hspace]))
      exact ⟨by rw [hlength], hrest⟩

/-- Where it stops at a `=`, it has come to it so. -/
theorem idLoop_inv {line rest : List Char} {cr : ℕ} (h : (idLoop cr line).2 = '=' :: rest) :
    ∃ pre, line = pre ++ '=' :: rest ∧ '=' ∉ pre ∧
      (pre = [] ∨ cr + solidCount pre.dropLast < 64) := by
  induction line generalizing cr with
  | nil => cases h
  | cons c cs ih =>
    rw [idLoop] at h
    split at h
    · next hgo =>
      have hcons : ∀ cr' pre, cr + (if isSpace c then 0 else 1) ≤ cr' →
          (pre = [] ∨ cr' + solidCount pre.dropLast < 64) →
          cr + solidCount (c :: pre).dropLast < 64 := by
        intro cr' pre hcr' hroom
        cases pre with
        | nil =>
          show cr + 0 < 64
          omega
        | cons d ds =>
          rw [List.dropLast_cons_cons, solidCount_cons]
          have := hroom.resolve_left (List.cons_ne_nil d ds)
          omega
      have hmem : ∀ pre, '=' ∉ pre → '=' ∉ c :: pre := by
        intro pre hpre hin
        rcases List.mem_cons.mp hin with heq | hin
        · exact hgo.1 heq.symm
        · exact hpre hin
      split at h
      · next hspace =>
        obtain ⟨pre, rfl, hpre, hroom⟩ := ih h
        have hlast := hcons cr pre (by rw [if_pos hspace]; omega) hroom
        exact ⟨c :: pre, rfl, hmem pre hpre, Or.inr hlast⟩
      · next hsolid =>
        obtain ⟨pre, rfl, hpre, hroom⟩ := ih h
        have hlast := hcons (cr + 1) pre (by rw [if_neg hsolid]) hroom
        exact ⟨c :: pre, rfl, hmem pre hpre, Or.inr hlast⟩
    · cases h
      exact ⟨[], rfl, nofun, Or.inl rfl⟩

/-! ## The buffers of a line -/

theorem lineBuffers_append {pre : List Char} (post : List Char) (h : Reaches pre) :
    lineBuffers (pre ++ '=' :: post) =
      { id := (idLoop 0 (pre ++ '=' :: post)).1 ++ [(solidCount pre, '\x00')]
        val := valLoop 0 post ++ [(min 64 (solidCount post), '\x00')]
        used := true } := by
  have hroom : 0 + solidCount pre.dropLast < 64 := by
    rw [Nat.zero_add]
    exact h.2
  obtain ⟨hlength, hrest⟩ := idLoop_append post h.1 (Or.inr hroom)
  obtain ⟨hval, -⟩ := valLoop_spec post (Nat.zero_le 64)
  rw [lineBuffers]
  generalize idLoop 0 (pre ++ '=' :: post) = result at *
  obtain ⟨id, rest⟩ := result
  dsimp only at hlength hrest
  subst hrest
  show ({ id := id ++ [(id.length, '\x00')]
          val := valLoop 0 post ++ [((valLoop 0 post).length, '\x00')]
          used := true } : LineBuffers) = _
  rw [hlength, hval]

/-- A line that is looked at has its `=` within reach; the others have written an identifier. -/
theorem lineBuffers_cases (line : List Char) :
    (∃ pre post, line = pre ++ '=' :: post ∧ Reaches pre) ∨
      lineBuffers line = { id := (idLoop 0 line).1, val := [], used := false } := by
  by_cases h : ∃ rest, (idLoop 0 line).2 = '=' :: rest
  · obtain ⟨rest, hrest⟩ := h
    obtain ⟨pre, hline, hpre, hroom⟩ := idLoop_inv hrest
    refine Or.inl ⟨pre, rest, hline, hpre, ?_⟩
    rcases hroom with rfl | hroom
    · decide
    · rw [Nat.zero_add] at hroom
      exact hroom
  · right
    rw [lineBuffers]
    generalize idLoop 0 line = result at *
    obtain ⟨id, rest⟩ := result
    dsimp only at h
    split
    · next heq =>
      cases heq
      exact absurd ⟨_, rfl⟩ h
    · next heq =>
      cases heq
      rfl

theorem solidCount_le_of_reaches {pre : List Char} (h : Reaches pre) : solidCount pre ≤ 64 := by
  rcases List.eq_nil_or_concat pre with rfl | ⟨init, c, rfl⟩
  · decide
  · have hlt := h.2
    rw [List.concat_eq_append, List.dropLast_concat] at hlt
    rw [List.concat_eq_append]
    unfold solidCount at *
    rw [List.countP_append, List.countP_singleton]
    split <;> omega

/-- The place of the `=` that the loop comes to is the first. -/
theorem reaches_unique {pre post pre' post' : List Char} (h : '=' ∉ pre) (h' : '=' ∉ pre')
    (heq : pre ++ '=' :: post = pre' ++ '=' :: post') : pre = pre' ∧ post = post' := by
  induction pre generalizing pre' with
  | nil =>
    cases pre' with
    | nil => exact ⟨rfl, (List.cons.inj heq).2⟩
    | cons c cs => exact absurd ((List.cons.inj heq).1 ▸ List.mem_cons_self) h'
  | cons c cs ih =>
    cases pre' with
    | nil => exact absurd ((List.cons.inj heq).1 ▸ List.mem_cons_self) h
    | cons d ds =>
      obtain ⟨rfl, htail⟩ := List.cons.inj heq
      obtain ⟨rfl, rfl⟩ := ih (fun hin => h (List.mem_cons_of_mem c hin))
        (fun hin => h' (List.mem_cons_of_mem c hin)) htail
      exact ⟨rfl, rfl⟩

/-- A line of a configuration file or a testpoint file stays in the two buffers, and leaves strings
in those that are looked at, just when it is not overlong. -/
theorem lineSafe_iff (line : List Char) : LineSafe line ↔ ¬ Overlong line := by
  rcases lineBuffers_cases line with ⟨pre, post, rfl, hreach⟩ | hunused
  · have hbuffers := lineBuffers_append post hreach
    have hcount := solidCount_le_of_reaches hreach
    obtain ⟨-, hindex⟩ := valLoop_spec post (Nat.zero_le 64)
    constructor
    · rintro hsafe ⟨pre', post', heq, hreach', hlong⟩
      obtain ⟨rfl, rfl⟩ := reaches_unique hreach.1 hreach'.1 heq
      have hid := hsafe.id (solidCount pre, '\x00') (by rw [hbuffers]; simp)
      have hval := hsafe.val (min 64 (solidCount post), '\x00') (by rw [hbuffers]; simp)
      dsimp only at hid hval
      omega
    · intro hshort
      have hid : solidCount pre < 64 := by
        by_contra hge
        exact hshort ⟨pre, post, rfl, hreach, Or.inl (by omega)⟩
      have hval : solidCount post < 64 := by
        by_contra hge
        exact hshort ⟨pre, post, rfl, hreach, Or.inr (by omega)⟩
      have hmin : min 64 (solidCount post) < 64 := by omega
      refine ⟨?_, ?_, fun _ => ⟨⟨solidCount pre, hid, ?_⟩, ⟨min 64 (solidCount post), hmin, ?_⟩⟩⟩
      · intro w hw
        rw [hbuffers] at hw
        rcases List.mem_append.mp hw with hw | hw
        · exact idLoop_index _ w hw
        · rw [List.mem_singleton.mp hw]
          exact hid
      · intro w hw
        rw [hbuffers] at hw
        rcases List.mem_append.mp hw with hw | hw
        · exact hindex w hw
        · rw [List.mem_singleton.mp hw]
          exact hmin
      · rw [hbuffers]
        simp
      · rw [hbuffers]
        simp
  · constructor
    · rintro - ⟨pre, post, rfl, hreach, -⟩
      rw [lineBuffers_append post hreach] at hunused
      exact Bool.noConfusion (congrArg LineBuffers.used hunused)
    · intro _
      refine ⟨?_, ?_, ?_⟩
      · rw [hunused]
        exact idLoop_index line
      · rw [hunused]
        nofun
      · rw [hunused]
        nofun

/-- An identifier of 64 characters. -/
theorem lineSafe_not_64 : ¬ LineSafe (List.replicate 64 'a' ++ "=1".toList) := by
  intro hsafe
  exact absurd (hsafe.id (64, '\x00') (by decide +kernel)) (by decide)

end AdvLigoRts.Drv
