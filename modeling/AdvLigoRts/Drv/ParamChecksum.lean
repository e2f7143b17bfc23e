import AdvLigoRts.Lib.FallibleLoop
import AdvLigoRts.Drv.Param

/-!
# The checksum of a configuration file

Every piece that `fgets` reads is taken into the checksum when it has been read, but for the header
of a section at the end of the file that `feof` is true for.
-/

namespace AdvLigoRts.Drv

open PvLib

/-- The register after the characters of a text. -/
def textCrc (text : List Char) : BitVec 32 :=
  crcPtr true (text.map fun c => BitVec.ofNat 8 c.toNat) 0

/-- The file ends with a section header that has no newline and fits the line buffer. -/
structure HeaderAtEnd (file before header : List Char) : Prop where
  split : file = before ++ header
  lines : ∃ init, configLines file = init ++ [header] ∧ before = init.flatten
  head : header.head? = some '['
  newline : header.getLast? ≠ some '\n'
  length : header.length < 127

section Checksum

variable {F : Type} [DecidableEq F] {fl : FloatOps F} {env : ParamEnv F} {testpoint : ℤ}
  {s t : ParamState F} {text line : List Char} {pieces : List (List Char)}

/-- The checksum is that of the text. -/
structure Covers (s : ParamState F) (text : List Char) : Prop where
  crc : s.crc = textCrc text
  flen : s.flen = BitVec.ofNat 32 text.length

omit [DecidableEq F] in
theorem Covers.addLine (h : Covers s text) (line : List Char) :
    Covers (addLine s line) (text ++ line) where
  crc := by
    show crcPtr true _ s.crc = _
    rw [h.crc, textCrc, textCrc, List.map_append]
    exact (List.foldl_append ..).symm
  flen := by
    show s.flen + _ = _
    rw [h.flen, List.length_append, BitVec.ofNat_add]

omit [DecidableEq F] in
theorem Covers.putArchive (h : Covers s text) (hput : putArchive env s line = .ok t) :
    Covers t text := by
  unfold Drv.putArchive at hput
  split at hput
  · cases hput
    exact h
  · split at hput
    · cases hput
      exact ⟨h.crc, h.flen⟩
    · cases hput

theorem Covers.closeSection (h : Covers s text) (hclose : closeSection fl env testpoint s = .ok t) :
    Covers t text := by
  unfold Drv.closeSection at hclose
  dsimp only at hclose
  split at hclose
  · cases hclose
    exact ⟨h.crc, h.flen⟩
  · split at hclose
    · cases hclose
      exact ⟨h.crc, h.flen⟩
    · cases hclose

omit [DecidableEq F] in
theorem Covers.sectionLine (h : Covers s text)
    (hline : sectionLine fl env testpoint s line = .ok t) : Covers t (text ++ line) := by
  unfold Drv.sectionLine at hline
  obtain ⟨u, hput, hset⟩ := bind_ok hline
  have hu : Covers u (text ++ line) := by
    have hadd := h.addLine line
    exact Covers.putArchive (s := { Drv.addLine s line with linenum := s.linenum + 1 })
      ⟨hadd.crc, hadd.flen⟩ hput
  split at hset
  · cases hset
    exact hu
  · obtain ⟨current, -, rfl⟩ := map_ok hset
    exact ⟨hu.crc, hu.flen⟩

/-- The pieces up to a header at the end of the file. -/
def keptPieces : List (List Char) → List (List Char)
  | [] => []
  | piece :: rest =>
    if piece.head? = some '[' ∧ atEof piece rest = true then [] else piece :: keptPieces rest

theorem cString_eq (h : '\x00' ∉ line) : cString line = line := by
  have hall : ∀ c ∈ line, (c != '\x00') = true := by
    intro c hc
    rw [bne_iff_ne]
    rintro rfl
    exact h hc
  unfold cString
  induction line with
  | nil => rfl
  | cons c cs ih =>
    rw [List.takeWhile_cons_of_pos (p := fun c => c != '\x00') (hall c List.mem_cons_self),
      ih (fun hin => h (List.mem_cons_of_mem c hin)) fun d hd => hall d (List.mem_cons_of_mem c hd)]

theorem sectionLoop_covers (hs : Covers s text) (hnul : ∀ piece ∈ pieces, '\x00' ∉ piece)
    (h : sectionLoop fl env testpoint s pieces = .ok t) :
    Covers t (text ++ (keptPieces pieces).flatten) := by
  induction pieces generalizing s text with
  | nil =>
    rw [keptPieces, List.flatten_nil, List.append_nil]
    exact hs.closeSection h
  | cons piece rest ih =>
    obtain ⟨hpiece, hrest⟩ := List.forall_mem_cons.mp hnul
    rw [sectionLoop, cString_eq hpiece] at h
    rw [keptPieces]
    split at h
    · next hhead =>
      split at h
      · next heof =>
        rw [if_pos ⟨hhead, heof⟩, List.flatten_nil, List.append_nil]
        exact hs.closeSection h
      · next heof =>
        rw [if_neg fun hc => heof hc.2, List.flatten_cons, ← List.append_assoc]
        obtain ⟨u, hput, h⟩ := bind_ok h
        obtain ⟨v, hclose, h⟩ := bind_ok h
        have hv := (((hs.putArchive hput).addLine piece).closeSection hclose)
        exact ih (s := { v with channel := channelName piece, current := uninit fl })
          ⟨hv.crc, hv.flen⟩ hrest h
    · next hhead =>
      rw [if_neg fun hc => hhead hc.1, List.flatten_cons, ← List.append_assoc]
      obtain ⟨u, hline, h⟩ := bind_ok h
      exact ih (hs.sectionLine hline) hrest h

theorem firstSection_covers (hs : Covers s text) (hnul : ∀ piece ∈ pieces, '\x00' ∉ piece)
    (h : firstSection fl env testpoint s pieces = .ok t) :
    Covers t (text ++ (keptPieces pieces).flatten) := by
  induction pieces generalizing s text with
  | nil => cases h
  | cons piece rest ih =>
    obtain ⟨hpiece, hrest⟩ := List.forall_mem_cons.mp hnul
    rw [firstSection, cString_eq hpiece] at h
    obtain ⟨u, hput, h⟩ := bind_ok h
    have hu := (hs.putArchive hput).addLine piece
    rw [keptPieces]
    split at h
    · next hhead =>
      split at h
      · cases h
      · next heof =>
        rw [if_neg fun hc => heof hc.2, List.flatten_cons, ← List.append_assoc]
        exact sectionLoop_covers
          (s := { Drv.addLine u piece with
                  linenum := s.linenum + 1
                  channel := channelName piece
                  current := uninit fl })
          ⟨hu.crc, hu.flen⟩ hrest h
    · next hhead =>
      rw [if_neg fun hc => hhead hc.1, List.flatten_cons, ← List.append_assoc]
      exact ih (s := { Drv.addLine u piece with linenum := s.linenum + 1 }) ⟨hu.crc, hu.flen⟩ hrest
        h

/-! ## A header at the end -/

theorem keptPieces_cases (pieces : List (List Char)) :
    (keptPieces pieces = pieces ∧ ∀ init header, pieces = init ++ [header] →
      header.head? = some '[' → atEof header [] = false) ∨
    ∃ init header, pieces = init ++ [header] ∧ keptPieces pieces = init ∧
      header.head? = some '[' ∧ atEof header [] = true := by
  induction pieces with
  | nil => exact Or.inl ⟨rfl, fun init header h => absurd h (by simp)⟩
  | cons piece rest ih =>
    rw [keptPieces]
    split
    · next hend =>
      have hnil : rest = [] := by
        have heof := hend.2
        simp only [atEof, Bool.and_eq_true, decide_eq_true_eq] at heof
        exact heof.1.1
      subst hnil
      exact Or.inr ⟨[], piece, rfl, rfl, hend.1, hend.2⟩
    · next hend =>
      rcases ih with ⟨hkept, hnone⟩ | ⟨init, header, rfl, hkept, hhead, heof⟩
      · refine Or.inl ⟨by rw [hkept], fun init header heq hhead => ?_⟩
        cases init with
        | nil =>
          obtain ⟨rfl, rfl⟩ := List.cons.inj heq
          exact Bool.eq_false_iff.mpr fun heof => hend ⟨hhead, heof⟩
        | cons first init =>
          exact hnone init header (List.cons.inj heq).2 hhead
      · exact Or.inr ⟨piece :: init, header, rfl, by rw [hkept], hhead, heof⟩

theorem atEof_iff : atEof line [] = true ↔ line.getLast? ≠ some '\n' ∧ line.length < 127 := by
  simp [atEof]

/-- The pieces of a file are kept, or all but its header at the end. -/
theorem keptPieces_file (file : List Char) :
    (keptPieces (configLines file) = configLines file ∧
      ∀ before header, ¬HeaderAtEnd file before header) ∨
    ∃ init header, configLines file = init ++ [header] ∧ keptPieces (configLines file) = init ∧
      HeaderAtEnd file init.flatten header ∧
      ∀ before header', HeaderAtEnd file before header' →
        before = init.flatten ∧ header' = header := by
  rcases keptPieces_cases (configLines file) with ⟨hkept, hnone⟩ |
    ⟨init, header, hlines, hkept, hhead, heof⟩
  · refine Or.inl ⟨hkept, fun before header hend => ?_⟩
    obtain ⟨init, hlines, -⟩ := hend.lines
    have hopen := hnone init header hlines hend.head
    rw [atEof_iff.mpr ⟨hend.newline, hend.length⟩] at hopen
    cases hopen
  · obtain ⟨hnewline, hlength⟩ := atEof_iff.mp heof
    have hfile : (configLines file).flatten = file := fgetsPieces_flatten 127 127 file
    refine Or.inr ⟨init, header, hlines, hkept,
      ⟨?_, ⟨init, hlines, rfl⟩, hhead, hnewline, hlength⟩, ?_⟩
    · rw [← hfile, hlines]
      simp
    · rintro before header' ⟨-, ⟨init', hlines', rfl⟩, -, -, -⟩
      obtain ⟨rfl, hheader⟩ := List.append_inj' (hlines.symm.trans hlines') rfl
      exact ⟨rfl, (List.cons.inj hheader).1.symm⟩

theorem nul_notMem_configLines {file : List Char} (hnul : '\x00' ∉ file) :
    ∀ piece ∈ configLines file, '\x00' ∉ piece :=
  fun _ hpiece hin => hnul (mem_of_mem_fgetsPieces hpiece _ hin)

/-- The checksum that `parseConfigFile` reports is that of the file just when the file does not end
with a section header without a newline, or when the header makes no difference. -/
theorem parseConfigFile_crc_iff (fl : FloatOps F) (env : ParamEnv F) (testpoint : ℤ)
    (file : List Char) (hnul : '\x00' ∉ file) (crc : BitVec 32) (calls : List (Call F))
    (h : parseConfigFile fl env testpoint (some file) = .ok (crc, calls)) :
    crc = crcLen (BitVec.ofNat 32 file.length) (textCrc file) ↔
      ∀ before header, HeaderAtEnd file before header →
        crcLen (BitVec.ofNat 32 before.length) (textCrc before) =
          crcLen (BitVec.ofNat 32 file.length) (textCrc file) := by
  have hcrc : crc = crcLen (BitVec.ofNat 32 (keptPieces (configLines file)).flatten.length)
      (textCrc (keptPieces (configLines file)).flatten) := by
    unfold parseConfigFile at h
    dsimp only at h
    split at h
    · cases h
    · obtain ⟨s, hparse, hresult⟩ := map_ok h
      have hs := @firstSection_covers F _ fl env testpoint _ _ [] _ ⟨rfl, rfl⟩
        (nul_notMem_configLines hnul) hparse
      rw [List.nil_append] at hs
      cases hresult
      rw [hs.crc, hs.flen]
  obtain ⟨hkept, hnone⟩ | ⟨init, header, -, hkept, hend, hunique⟩ := keptPieces_file file
  · have hfile : (configLines file).flatten = file := fgetsPieces_flatten 127 127 file
    rw [hkept, hfile] at hcrc
    exact iff_of_true hcrc fun before header hend => absurd hend (hnone before header)
  · rw [hkept] at hcrc
    rw [hcrc]
    constructor
    · intro heq before header' hend'
      rw [(hunique before header' hend').1]
      exact heq
    · exact fun hall => hall _ _ hend

end Checksum

/-- Files in which all floating point numbers are integers. -/
def integerOps : FloatOps ℤ where
  strtod val := if (strtol val).2 = [] then some (strtol val).1 else none
  uninitGain := -99999000
  uninitSlope := -100000000
  uninitOffset := -9999999
  zero := 0
  one := 1

/-- No archive file, and a callback that is content. -/
def plainEnv : ParamEnv ℤ where
  archive := none
  callback := fun _ => true

/-- A file without a final newline. -/
theorem parseConfigFile_crc_short :
    ∃ crc calls, parseConfigFile integerOps plainEnv 0 (some "[a]\nacquire=1".toList)
        = .ok (crc, calls) ∧
      (crc = crcLen (BitVec.ofNat 32 "[a]\nacquire=1".toList.length)
          (textCrc "[a]\nacquire=1".toList) ↔
        ∀ before header, HeaderAtEnd "[a]\nacquire=1".toList before header →
          crcLen (BitVec.ofNat 32 before.length) (textCrc before) =
            crcLen (BitVec.ofNat 32 "[a]\nacquire=1".toList.length)
              (textCrc "[a]\nacquire=1".toList)) :=
  ⟨_, _, rfl, parseConfigFile_crc_iff integerOps plainEnv 0 _ (by decide) _ _ rfl⟩

theorem crcLen_byte {bytes crc : BitVec 32} (hne : bytes ≠ 0) (hbyte : bytes >>> 8 = 0) :
    crcLen bytes crc = ~~~ (crcStep crc bytes) &&& 0xFFFFFFFF := by
  rw [crcLen, crcLenLoop, dif_neg hne, hbyte, crcLenLoop, dif_pos rfl]

/-- The checksum says nothing of the last section. -/
theorem parseConfigFile_header_at_end :
    ∃ crc calls, parseConfigFile integerOps plainEnv 0 (some "[a]\n[b".toList) = .ok (crc, calls) ∧
      crc ≠ crcLen (BitVec.ofNat 32 "[a]\n[b".toList.length) (textCrc "[a]\n[b".toList) := by
  refine ⟨_, _, rfl, ?_⟩
  show crcLen 4 (textCrc "[a]\n".toList) ≠ crcLen 6 (textCrc "[a]\n[b".toList)
  rw [crcLen_byte (by decide) (by decide), crcLen_byte (by decide) (by decide)]
  decide +kernel

end AdvLigoRts.Drv
