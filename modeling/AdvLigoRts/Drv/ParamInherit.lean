import AdvLigoRts.Drv.ParamChecksum
import Mathlib.Data.List.TakeDrop

/-!
# What the sections of a configuration file hand to the callback

`sections` reads a file as its author means it: headers with the assignments behind them.
`expectedParam` gives a section its own values, else those of the last default section, else those
of `uninit`. The parser keeps the values in records in which a number stands for "not set", and so
takes an assigned number for none; `Inherits` says where that makes no difference.
-/

namespace AdvLigoRts.Drv

open PvLib

/-- An identifier and its value. -/
abbrev Assign := List Char × List Char

/-- A header and what is assigned up to the next. -/
structure ConfigSection where
  name : List Char
  assigns : List Assign
deriving DecidableEq, Repr

/-- The assignments before the first header, and the sections. -/
def splitSections : List (List Char) → List Assign × List ConfigSection
  | [] => ([], [])
  | line :: rest =>
    if line.head? = some '[' then
      ([], ⟨channelName line, (splitSections rest).1⟩ :: (splitSections rest).2)
    else ((assignment line).toList ++ (splitSections rest).1, (splitSections rest).2)

def sections (file : List Char) : List ConfigSection := (splitSections (configLines file)).2

def ConfigSection.isDefault (sec : ConfigSection) : Bool := sameWord sec.name "default".toList

def visits (dflt : List Assign) : List ConfigSection → List (ConfigSection × List Assign)
  | [] => []
  | sec :: rest =>
    if sec.isDefault then visits sec.assigns rest else (sec, dflt) :: visits dflt rest

def assigned {β : Type} (ids : List (List Char)) (value : List Char → Option β)
    (assigns : List Assign) : Option β :=
  (assigns.filter fun p => ids.any fun id => sameWord p.1 id).getLast?.bind fun p => value p.2

/-- The identifiers that set `units`. -/
def unitsIds (testpoint : ℤ) : List (List Char) :=
  if testpoint = 2 then ["units".toList, "hostname".toList] else ["units".toList]

/-- A section's own value, else that of the default section, else the last resort. -/
def inherited {β : Type} (own dflt : Option β) (last : β) : β := own.getD (dflt.getD last)

section Inherit

variable {F : Type} (fl : FloatOps F) (testpoint : ℤ)

/-- What replaces the values of `uninit`. -/
def lastResort : ChanParam F :=
  if testpoint ≠ 0 then
    { uninit fl with gain := fl.one, slope := fl.one, offset := fl.zero, dcuid := dcuIdEx16k }
  else uninit fl

/-- The parameters of a section that assigns `own` behind a default section that assigns `dflt`. -/
def expectedParam (own dflt : List Assign) : ChanParam F :=
  let int (id : String) (last : ℤ) :=
    inherited (assigned [id.toList] intOf own) (assigned [id.toList] intOf dflt) last
  let float (id : String) (last : F) :=
    inherited (assigned [id.toList] fl.strtod own) (assigned [id.toList] fl.strtod dflt) last
  let text (ids : List (List Char)) (last : List Char) :=
    inherited (assigned ids some own) (assigned ids some dflt) last
  let u := lastResort fl testpoint
  { dcuid := int "dcuid" u.dcuid
    datarate := int "datarate" u.datarate
    acquire := int "acquire" u.acquire
    ifoid := int "ifoid" u.ifoid
    rmid := int "rmid" u.rmid
    datatype := int "datatype" u.datatype
    chnnum := int "chnnum" u.chnnum
    testpoint
    gain := float "gain" u.gain
    slope := float "slope" u.slope
    offset := float "offset" u.offset
    units := text (unitsIds testpoint) u.units
    system := text ["system".toList] u.system }

def expectedCalls (file : List Char) : List (Call F) :=
  (visits [] (sections file)).map fun v =>
    (v.1.name, expectedParam fl testpoint v.1.assigns v.2)

/-! ## The records -/

/-- The record of a section whose assignments have been parsed. -/
def fieldsOf (assigns : List Assign) : ChanParam F :=
  let u := uninit fl
  { dcuid := (assigned ["dcuid".toList] intOf assigns).getD u.dcuid
    datarate := (assigned ["datarate".toList] intOf assigns).getD u.datarate
    acquire := (assigned ["acquire".toList] intOf assigns).getD u.acquire
    ifoid := (assigned ["ifoid".toList] intOf assigns).getD u.ifoid
    rmid := (assigned ["rmid".toList] intOf assigns).getD u.rmid
    datatype := (assigned ["datatype".toList] intOf assigns).getD u.datatype
    chnnum := (assigned ["chnnum".toList] intOf assigns).getD u.chnnum
    testpoint := u.testpoint
    gain := (assigned ["gain".toList] fl.strtod assigns).getD u.gain
    slope := (assigned ["slope".toList] fl.strtod assigns).getD u.slope
    offset := (assigned ["offset".toList] fl.strtod assigns).getD u.offset
    units := ((assigned (unitsIds testpoint) some assigns).map (List.take 32)).getD u.units
    system := ((assigned ["system".toList] some assigns).map (List.take 32)).getD u.system }

variable {fl testpoint}

theorem assigned_snoc {β : Type} (ids : List (List Char)) (value : List Char → Option β)
    (assigns : List Assign) (p : Assign) :
    assigned ids value (assigns ++ [p]) =
      if (ids.any fun id => sameWord p.1 id) = true then value p.2
      else assigned ids value assigns := by
  unfold assigned
  rw [List.filter_append, List.filter_singleton]
  cases ids.any fun id => sameWord p.1 id with
  | false =>
    rw [if_neg Bool.false_ne_true, cond_false, List.append_nil]
  | true =>
    rw [if_pos rfl, cond_true, List.getLast?_append, List.getLast?_singleton]
    rfl

theorem fieldsOf_nil : fieldsOf fl testpoint [] = uninit fl := rfl

theorem intParam_ok {linenum : ℕ} {val : List Char} {v : ℤ} (h : intParam linenum val = .ok v) :
    intOf val = some v := by
  unfold intParam at h
  split at h
  · next heq =>
    cases h
    exact heq
  · cases h

theorem rateParam_ok {linenum : ℕ} {val : List Char} {v : ℤ} (h : rateParam linenum val = .ok v) :
    intOf val = some v := by
  unfold rateParam at h
  split at h
  · cases h
  · next heq =>
    split at h
    · cases h
    · split at h
      · cases h
        exact heq
      · cases h

theorem floatParam_ok {linenum : ℕ} {val : List Char} {v : F}
    (h : floatParam fl linenum val = .ok v) : fl.strtod val = some v := by
  unfold floatParam at h
  split at h
  · next heq =>
    cases h
    exact heq
  · cases h

/-- The record with the value of one more assignment, by the identifier in small letters. -/
def overwrite (fl : FloatOps F) (testpoint : ℤ) (key val : List Char) (c : ChanParam F) :
    ChanParam F :=
  let u := uninit fl
  { dcuid := if key = "dcuid".toList then (intOf val).getD u.dcuid else c.dcuid
    datarate := if key = "datarate".toList then (intOf val).getD u.datarate else c.datarate
    acquire := if key = "acquire".toList then (intOf val).getD u.acquire else c.acquire
    ifoid := if key = "ifoid".toList then (intOf val).getD u.ifoid else c.ifoid
    rmid := if key = "rmid".toList then (intOf val).getD u.rmid else c.rmid
    datatype := if key = "datatype".toList then (intOf val).getD u.datatype else c.datatype
    chnnum := if key = "chnnum".toList then (intOf val).getD u.chnnum else c.chnnum
    testpoint := c.testpoint
    gain := if key = "gain".toList then (fl.strtod val).getD u.gain else c.gain
    slope := if key = "slope".toList then (fl.strtod val).getD u.slope else c.slope
    offset := if key = "offset".toList then (fl.strtod val).getD u.offset else c.offset
    units :=
      if key = "units".toList ∨ key = "hostname".toList ∧ testpoint = 2 then val.take 32
      else c.units
    system := if key = "system".toList then val.take 32 else c.system }

theorem assigned_snoc_word {β : Type} (word : List Char) (value : List Char → Option β)
    (assigns : List Assign) (id val : List Char) :
    assigned [word] value (assigns ++ [(id, val)]) =
      if id.map Char.toLower = word then value val else assigned [word] value assigns := by
  rw [assigned_snoc]
  simp only [List.any_cons, List.any_nil, Bool.or_false, sameWord, beq_iff_eq]

theorem assigned_snoc_units {β : Type} (value : List Char → Option β)
    (assigns : List Assign) (id val : List Char) :
    assigned (unitsIds testpoint) value (assigns ++ [(id, val)]) =
      if id.map Char.toLower = "units".toList ∨
          id.map Char.toLower = "hostname".toList ∧ testpoint = 2 then value val
      else assigned (unitsIds testpoint) value assigns := by
  rw [assigned_snoc]
  unfold unitsIds
  by_cases h : testpoint = 2
  · simp only [h, if_true, List.any_cons, List.any_nil, Bool.or_false, sameWord, Bool.or_eq_true,
      beq_iff_eq, and_true]
  · simp only [h, if_false, List.any_cons, List.any_nil, Bool.or_false, sameWord, beq_iff_eq,
      and_false, or_false]

theorem fieldsOf_snoc (assigns : List Assign) (id val : List Char) :
    fieldsOf fl testpoint (assigns ++ [(id, val)]) =
      overwrite fl testpoint (id.map Char.toLower) val (fieldsOf fl testpoint assigns) := by
  unfold fieldsOf overwrite
  simp only [assigned_snoc_word, assigned_snoc_units]
  congr 1
  all_goals
    split
    · rfl
    · rfl

/-- A line adds its assignment to the record. -/
theorem setParam_ok {linenum : ℕ} {id val : List Char} {c c' : ChanParam F}
    (h : setParam fl testpoint linenum c id val = .ok c') :
    c' = overwrite fl testpoint (id.map Char.toLower) val c := by
  unfold setParam sameWord at h
  generalize id.map Char.toLower = key at *
  have hint : ∀ {v n}, intParam n val = .ok v → ∀ u, (intOf val).getD u = v := fun hv u => by
    rw [intParam_ok hv]
    rfl
  have hfloat : ∀ {v n}, floatParam fl n val = .ok v → ∀ u, (fl.strtod val).getD u = v :=
    fun hv u => by
      rw [floatParam_ok hv]
      rfl
  rcases ite_ok h with ⟨hkey, h⟩ | ⟨hdcuid, h⟩
  · obtain ⟨v, hv, rfl⟩ := map_ok h
    rw [eq_of_beq hkey, ← hint hv (uninit fl).dcuid]
    rfl
  rcases ite_ok h with ⟨hkey, h⟩ | ⟨hdatarate, h⟩
  · obtain ⟨v, hv, rfl⟩ := map_ok h
    have hrate : (intOf val).getD (uninit fl).datarate = v := by
      rw [rateParam_ok hv]
      rfl
    rw [eq_of_beq hkey, ← hrate]
    rfl
  rcases ite_ok h with ⟨hkey, h⟩ | ⟨hacquire, h⟩
  · obtain ⟨v, hv, rfl⟩ := map_ok h
    rw [eq_of_beq hkey, ← hint hv (uninit fl).acquire]
    rfl
  rcases ite_ok h with ⟨hkey, h⟩ | ⟨hifoid, h⟩
  · obtain ⟨v, hv, rfl⟩ := map_ok h
    rw [eq_of_beq hkey, ← hint hv (uninit fl).ifoid]
    rfl
  rcases ite_ok h with ⟨hkey, h⟩ | ⟨hrmid, h⟩
  · obtain ⟨v, hv, rfl⟩ := map_ok h
    rw [eq_of_beq hkey, ← hint hv (uninit fl).rmid]
    rfl
  rcases ite_ok h with ⟨hkey, h⟩ | ⟨hdatatype, h⟩
  · obtain ⟨v, hv, rfl⟩ := map_ok h
    rw [eq_of_beq hkey, ← hint hv (uninit fl).datatype]
    rfl
  rcases ite_ok h with ⟨hkey, h⟩ | ⟨hchnnum, h⟩
  · obtain ⟨v, hv, rfl⟩ := map_ok h
    rw [eq_of_beq hkey, ← hint hv (uninit fl).chnnum]
    rfl
  rcases ite_ok h with ⟨hkey, h⟩ | ⟨hgain, h⟩
  · obtain ⟨v, hv, rfl⟩ := map_ok h
    rw [eq_of_beq hkey, ← hfloat hv (uninit fl).gain]
    rfl
  rcases ite_ok h with ⟨hkey, h⟩ | ⟨hslope, h⟩
  · obtain ⟨v, hv, rfl⟩ := map_ok h
    rw [eq_of_beq hkey, ← hfloat hv (uninit fl).slope]
    rfl
  rcases ite_ok h with ⟨hkey, h⟩ | ⟨hoffset, h⟩
  · obtain ⟨v, hv, rfl⟩ := map_ok h
    rw [eq_of_beq hkey, ← hfloat hv (uninit fl).offset]
    rfl
  rcases ite_ok h with ⟨hkey, h⟩ | ⟨hunits, h⟩
  · cases h
    rcases (Bool.or_eq_true ..).mp hkey with hkey | hkey
    · rw [eq_of_beq hkey]
      rfl
    · obtain ⟨htwo, hkey⟩ := (Bool.and_eq_true ..).mp hkey
      rw [eq_of_beq hkey, eq_of_beq htwo]
      rfl
  rcases ite_ok h with ⟨hkey, h⟩ | ⟨hsystem, h⟩
  · cases h
    rw [eq_of_beq hkey]
    rfl
  -- the line assigns nothing
  cases h
  have hne : ∀ {word : List Char}, ¬ (key == word) = true → key ≠ word := fun hnot heq =>
    hnot (beq_iff_eq.mpr heq)
  apply ChanParam.ext
  · exact (if_neg (hne hdcuid)).symm
  · exact (if_neg (hne hdatarate)).symm
  · exact (if_neg (hne hacquire)).symm
  · exact (if_neg (hne hifoid)).symm
  · exact (if_neg (hne hrmid)).symm
  · exact (if_neg (hne hdatatype)).symm
  · exact (if_neg (hne hchnnum)).symm
  · rfl
  · exact (if_neg (hne hgain)).symm
  · exact (if_neg (hne hslope)).symm
  · exact (if_neg (hne hoffset)).symm
  · refine (if_neg ?_).symm
    rintro (heq | ⟨heq, htwo⟩)
    · exact hunits ((Bool.or_eq_true ..).mpr (Or.inl (beq_iff_eq.mpr heq)))
    · exact hunits ((Bool.or_eq_true ..).mpr (Or.inr ((Bool.and_eq_true ..).mpr
        ⟨beq_iff_eq.mpr htwo, beq_iff_eq.mpr heq⟩)))
  · exact (if_neg (hne hsystem)).symm

/-! ## The parser -/

variable [DecidableEq F] {env : ParamEnv F} {s t : ParamState F} {line : List Char}
  {pieces : List (List Char)} {own dflt : List Assign}

/-- What the checksum and the archive file leave as it is. -/
structure SameRecords (s t : ParamState F) : Prop where
  channel : t.channel = s.channel
  deflt : t.deflt = s.deflt
  current : t.current = s.current
  calls : t.calls = s.calls

omit [DecidableEq F] in
theorem putArchive_same (h : putArchive env s line = .ok t) : SameRecords s t := by
  unfold putArchive at h
  split at h
  · cases h
    exact ⟨rfl, rfl, rfl, rfl⟩
  · obtain ⟨-, h⟩ | ⟨-, h⟩ := ite_ok h
    · cases h
      exact ⟨rfl, rfl, rfl, rfl⟩
    · cases h

/-- A section that assigns `own`, behind a default section that assigns `dflt`. -/
structure InSection (fl : FloatOps F) (testpoint : ℤ) (s : ParamState F) (own dflt : List Assign) :
    Prop where
  current : s.current = fieldsOf fl testpoint own
  deflt : s.deflt = fieldsOf fl testpoint dflt

omit [DecidableEq F] in
theorem InSection.sectionLine (h : InSection fl testpoint s own dflt)
    (hline : sectionLine fl env testpoint s line = .ok t) :
    InSection fl testpoint t (own ++ (assignment line).toList) dflt ∧ t.channel = s.channel ∧
      t.calls = s.calls := by
  unfold Drv.sectionLine at hline
  obtain ⟨u, hput, hset⟩ := bind_ok hline
  have hsame := putArchive_same hput
  have hcurrent : u.current = fieldsOf fl testpoint own := hsame.current.trans h.current
  have hdeflt : u.deflt = fieldsOf fl testpoint dflt := hsame.deflt.trans h.deflt
  cases hassign : assignment line with
  | none =>
    rw [hassign] at hset
    cases hset
    rw [Option.toList_none, List.append_nil]
    exact ⟨⟨hcurrent, hdeflt⟩, hsame.channel, hsame.calls⟩
  | some p =>
    obtain ⟨id, val⟩ := p
    rw [hassign] at hset
    obtain ⟨c, hparam, rfl⟩ := map_ok hset
    rw [Option.toList_some]
    refine ⟨⟨?_, hdeflt⟩, hsame.channel, hsame.calls⟩
    rw [fieldsOf_snoc, ← hcurrent]
    exact setParam_ok hparam

/-- The parameters that the parser passes. -/
def passedParam (fl : FloatOps F) (testpoint : ℤ) (own dflt : List Assign) : ChanParam F :=
  withDefaults fl testpoint (fieldsOf fl testpoint own) (fieldsOf fl testpoint dflt)

def passedCalls (fl : FloatOps F) (testpoint : ℤ) (dflt : List Assign)
    (secs : List ConfigSection) : List (Call F) :=
  (visits dflt secs).map fun v => (v.1.name, passedParam fl testpoint v.1.assigns v.2)

theorem InSection.closeSection (h : InSection fl testpoint s own dflt) (rest : List ConfigSection)
    (hclose : closeSection fl env testpoint s = .ok t) :
    ∃ dflt', t.deflt = fieldsOf fl testpoint dflt' ∧
      s.calls ++ passedCalls fl testpoint dflt (⟨s.channel, own⟩ :: rest)
        = t.calls ++ passedCalls fl testpoint dflt' rest := by
  unfold Drv.closeSection at hclose
  unfold passedCalls
  rw [visits]
  obtain ⟨hdefault, hclose⟩ | ⟨hnot, hclose⟩ := ite_ok hclose
  · cases hclose
    rw [if_pos (show ConfigSection.isDefault ⟨s.channel, own⟩ = true from hdefault)]
    exact ⟨own, h.current, rfl⟩
  · obtain ⟨-, hclose⟩ | ⟨-, hclose⟩ := ite_ok hclose
    · cases hclose
      rw [if_neg (show ¬ ConfigSection.isDefault ⟨s.channel, own⟩ = true from hnot)]
      refine ⟨dflt, h.deflt, ?_⟩
      rw [List.map_cons, passedParam, ← h.current, ← h.deflt, List.append_assoc]
      rfl
    · cases hclose

theorem sectionLoop_calls (hs : InSection fl testpoint s own dflt)
    (hnul : ∀ piece ∈ pieces, '\x00' ∉ piece)
    (h : sectionLoop fl env testpoint s pieces = .ok t) :
    t.calls = s.calls ++ passedCalls fl testpoint dflt
      (⟨s.channel, own ++ (splitSections (keptPieces pieces)).1⟩ ::
        (splitSections (keptPieces pieces)).2) := by
  have hlast : ∀ {u v : ParamState F} {own dflt}, InSection fl testpoint u own dflt →
      closeSection fl env testpoint u = .ok v →
      v.calls = u.calls ++ passedCalls fl testpoint dflt [⟨u.channel, own⟩] := by
    intro u v own dflt hu hclose
    obtain ⟨dflt', -, hcalls⟩ := hu.closeSection [] hclose
    rw [hcalls]
    exact (List.append_nil _).symm
  induction pieces generalizing s own dflt with
  | nil =>
    rw [keptPieces, splitSections, List.append_nil]
    exact hlast hs h
  | cons piece rest ih =>
    obtain ⟨hpiece, hrest⟩ := List.forall_mem_cons.mp hnul
    rw [sectionLoop, cString_eq hpiece] at h
    rw [keptPieces]
    obtain ⟨hhead, h⟩ | ⟨hhead, h⟩ := ite_ok h
    · obtain ⟨heof, h⟩ | ⟨heof, h⟩ := ite_ok h
      · rw [if_pos ⟨hhead, heof⟩, splitSections, List.append_nil]
        exact hlast hs h
      · obtain ⟨u, hput, h⟩ := bind_ok h
        obtain ⟨v, hclose, h⟩ := bind_ok h
        have hsame := putArchive_same hput
        have hu : InSection fl testpoint (addLine u piece) own dflt :=
          ⟨hsame.current.trans hs.current, hsame.deflt.trans hs.deflt⟩
        obtain ⟨dflt', hdeflt, hcalls⟩ := hu.closeSection
          (⟨channelName piece, (splitSections (keptPieces rest)).1⟩ ::
            (splitSections (keptPieces rest)).2) hclose
        have hloop := ih (s := { v with channel := channelName piece, current := uninit fl })
          ⟨fieldsOf_nil.symm, hdeflt⟩ hrest h
        rw [List.nil_append] at hloop
        rw [if_neg fun hc => heof hc.2, splitSections, if_pos hhead, List.append_nil, hloop]
        show v.calls ++ _ = _
        rw [← hcalls]
        show u.calls ++ passedCalls fl testpoint dflt (⟨u.channel, own⟩ :: _) = _
        rw [hsame.calls, hsame.channel]
    · obtain ⟨u, hline, h⟩ := bind_ok h
      obtain ⟨hu, hchannel, hcalls⟩ := hs.sectionLine hline
      rw [if_neg fun hc => hhead hc.1, splitSections, if_neg hhead, ← List.append_assoc]
      have hloop := ih hu hrest h
      rw [hcalls, hchannel] at hloop
      exact hloop

theorem firstSection_calls (hdeflt : s.deflt = uninit fl) (hcalls : s.calls = [])
    (hnul : ∀ piece ∈ pieces, '\x00' ∉ piece)
    (h : firstSection fl env testpoint s pieces = .ok t) :
    t.calls = passedCalls fl testpoint [] (splitSections (keptPieces pieces)).2 := by
  induction pieces generalizing s with
  | nil => cases h
  | cons piece rest ih =>
    obtain ⟨hpiece, hrest⟩ := List.forall_mem_cons.mp hnul
    rw [firstSection, cString_eq hpiece] at h
    obtain ⟨u, hput, h⟩ := bind_ok h
    have hsame := putArchive_same hput
    rw [keptPieces]
    obtain ⟨hhead, h⟩ | ⟨hhead, h⟩ := ite_ok h
    · obtain ⟨-, h⟩ | ⟨heof, h⟩ := ite_ok h
      · cases h
      · have hloop := @sectionLoop_calls F fl testpoint _ env
          { addLine u piece with
            linenum := s.linenum + 1
            channel := channelName piece
            current := uninit fl } _ _ [] []
          ⟨fieldsOf_nil.symm, (hsame.deflt.trans hdeflt).trans fieldsOf_nil.symm⟩ hrest h
        rw [if_neg fun hc => heof hc.2, splitSections, if_pos hhead, hloop]
        show u.calls ++ _ = _
        rw [hsame.calls, hcalls]
        rfl
    · rw [if_neg fun hc => hhead hc.1, splitSections, if_neg hhead]
      exact ih (s := { addLine u piece with linenum := s.linenum + 1 })
        (hsame.deflt.trans hdeflt) (hsame.calls.trans hcalls) hrest h

/-! ## Values that stand for none -/

/-- A field whose value for "not set" is `unset`: neither does the section assign this value where
another one would take its place, nor the default section where a last resort would. -/
def Kept {β : Type} (unset last : β) (own dflt : Option β) : Prop :=
  (own = some unset → (∀ v, dflt = some v → v = unset) ∧ last = unset) ∧
    (own = none → dflt = some unset → last = unset)

/-- A field that has no default. -/
def KeptAlone {β : Type} (unset : β) (own dflt : Option β) : Prop :=
  own = none → ∀ v, dflt = some v → v = unset

/-- A text field of 32 characters. -/
def KeptText (unset : List Char) (own dflt : Option (List Char)) : Prop :=
  (∀ v, own = some v → v.length ≤ 32) ∧ (own = none → ∀ v, dflt = some v → v.length ≤ 32) ∧
    (own = some unset → ∀ v, dflt = some v → v = unset)

theorem setdefault_self {β : Type} [DecidableEq β] (u x : β) : setdefault u x u = x := by
  unfold setdefault
  split
  · next h => exact h.symm
  · rfl

theorem kept_iff {β : Type} [DecidableEq β] (unset last : β) (own dflt : Option β) :
    setdefault unset (setdefault unset (own.getD unset) (dflt.getD unset)) last
      = inherited own dflt last ↔ Kept unset last own dflt := by
  unfold setdefault inherited Kept
  cases own with
  | none =>
    cases dflt with
    | none => simp
    | some d =>
      by_cases hd : d = unset
      · subst hd
        simp
      · simp [hd]
  | some v =>
    by_cases hv : v = unset
    · subst hv
      cases dflt with
      | none => simp
      | some d =>
        by_cases hd : d = v
        · subst hd
          simp
        · simp [hd]
    · simp [hv]

theorem keptAlone_iff {β : Type} [DecidableEq β] (unset : β) (own dflt : Option β) :
    own.getD unset = inherited own dflt unset ↔ KeptAlone unset own dflt := by
  unfold inherited KeptAlone
  cases own with
  | none =>
    cases dflt with
    | none => simp
    | some d => simp [eq_comm]
  | some v => simp

theorem keptText_iff {unset : List Char} (hunset : unset.length < 32)
    (own dflt : Option (List Char)) :
    setdefault unset ((own.map (List.take 32)).getD unset) ((dflt.map (List.take 32)).getD unset)
      = inherited own dflt unset ↔ KeptText unset own dflt := by
  have htake : ∀ v : List Char, v.take 32 = v ↔ v.length ≤ 32 := fun v => List.take_eq_self_iff v
  have hlong : ∀ v : List Char, v.take 32 = unset → v = unset := by
    intro v hv
    have hlength := congrArg List.length hv
    rw [List.length_take] at hlength
    rw [← hv]
    exact ((htake v).mpr (by omega)).symm
  have hshort : unset.take 32 = unset := (htake unset).mpr (by omega)
  unfold setdefault inherited KeptText
  cases own with
  | none =>
    cases dflt with
    | none => simp
    | some d => simp [htake]
  | some v =>
    by_cases hv : v = unset
    · subst hv
      cases dflt with
      | none =>
        have hle : v.length ≤ 32 := by omega
        simp [hle]
      | some d =>
        simp only [Option.map_some, Option.getD_some, hshort, if_true, Option.some.injEq,
          reduceCtorEq, false_implies, true_and, forall_eq']
        constructor
        · intro hd
          exact ⟨by omega, fun _ => hlong d hd⟩
        · rintro ⟨-, hd⟩
          rw [hd trivial, hshort]
    · have hne : v.take 32 ≠ unset := fun h => hv (hlong v h)
      simp [hv, hne, htake]

/-- A section passes its own values and the inherited ones. -/
structure Inherits (fl : FloatOps F) (testpoint : ℤ) (own dflt : List Assign) : Prop where
  dcuid : Kept (-1) (lastResort fl testpoint).dcuid (assigned ["dcuid".toList] intOf own)
    (assigned ["dcuid".toList] intOf dflt)
  datarate : Kept (-1) (-1) (assigned ["datarate".toList] intOf own)
    (assigned ["datarate".toList] intOf dflt)
  acquire : Kept (-1) (-1) (assigned ["acquire".toList] intOf own)
    (assigned ["acquire".toList] intOf dflt)
  ifoid : Kept (-1) (-1) (assigned ["ifoid".toList] intOf own)
    (assigned ["ifoid".toList] intOf dflt)
  rmid : KeptAlone (-1) (assigned ["rmid".toList] intOf own)
    (assigned ["rmid".toList] intOf dflt)
  datatype : Kept (-1) (-1) (assigned ["datatype".toList] intOf own)
    (assigned ["datatype".toList] intOf dflt)
  chnnum : Kept 0 0 (assigned ["chnnum".toList] intOf own)
    (assigned ["chnnum".toList] intOf dflt)
  gain : Kept fl.uninitGain (lastResort fl testpoint).gain
    (assigned ["gain".toList] fl.strtod own) (assigned ["gain".toList] fl.strtod dflt)
  slope : Kept fl.uninitSlope (lastResort fl testpoint).slope
    (assigned ["slope".toList] fl.strtod own) (assigned ["slope".toList] fl.strtod dflt)
  offset : Kept fl.uninitOffset (lastResort fl testpoint).offset
    (assigned ["offset".toList] fl.strtod own) (assigned ["offset".toList] fl.strtod dflt)
  units : KeptText "none".toList (assigned (unitsIds testpoint) some own)
    (assigned (unitsIds testpoint) some dflt)
  system : KeptText "none".toList (assigned ["system".toList] some own)
    (assigned ["system".toList] some dflt)

/-- `setdefault` twice, the second time with what replaces the values of `uninit`. -/
theorem withDefaults_eq (c d : ChanParam F) {u l : ChanParam F} (hu : u = uninit fl)
    (hl : l = lastResort fl testpoint) :
    withDefaults fl testpoint c d =
      { dcuid := setdefault u.dcuid (setdefault u.dcuid c.dcuid d.dcuid) l.dcuid
        datarate := setdefault u.datarate (setdefault u.datarate c.datarate d.datarate) u.datarate
        acquire := setdefault u.acquire (setdefault u.acquire c.acquire d.acquire) u.acquire
        ifoid := setdefault u.ifoid (setdefault u.ifoid c.ifoid d.ifoid) u.ifoid
        rmid := c.rmid
        datatype := setdefault u.datatype (setdefault u.datatype c.datatype d.datatype) u.datatype
        chnnum := setdefault u.chnnum (setdefault u.chnnum c.chnnum d.chnnum) u.chnnum
        testpoint
        gain := setdefault u.gain (setdefault u.gain c.gain d.gain) l.gain
        slope := setdefault u.slope (setdefault u.slope c.slope d.slope) l.slope
        offset := setdefault u.offset (setdefault u.offset c.offset d.offset) l.offset
        units := setdefault u.units c.units d.units
        system := setdefault u.system c.system d.system } := by
  rw [hu, hl]
  unfold withDefaults lastResort
  by_cases h : testpoint ≠ 0
  · simp only [if_pos h, setdefault_self]
  · simp only [if_neg h, setdefault_self]

theorem passedParam_iff (own dflt : List Assign) :
    passedParam fl testpoint own dflt = expectedParam fl testpoint own dflt ↔
      Inherits fl testpoint own dflt := by
  have hresort : (lastResort fl testpoint).units = "none".toList ∧
      (lastResort fl testpoint).system = "none".toList ∧
      (lastResort fl testpoint).datarate = -1 ∧ (lastResort fl testpoint).acquire = -1 ∧
      (lastResort fl testpoint).ifoid = -1 ∧ (lastResort fl testpoint).rmid = -1 ∧
      (lastResort fl testpoint).datatype = -1 ∧ (lastResort fl testpoint).chnnum = 0 := by
    unfold lastResort
    split
    · exact ⟨rfl, rfl, rfl, rfl, rfl, rfl, rfl, rfl⟩
    · exact ⟨rfl, rfl, rfl, rfl, rfl, rfl, rfl, rfl⟩
  obtain ⟨hunits, hsystem, hdatarate, hacquire, hifoid, hrmid, hdatatype, hchnnum⟩ := hresort
  have hnone : "none".toList.length < 32 := by decide
  unfold passedParam expectedParam
  rw [withDefaults_eq _ _ rfl rfl, ChanParam.ext_iff]
  dsimp only
  rw [hunits, hsystem, hdatarate, hacquire, hifoid, hrmid, hdatatype, hchnnum]
  constructor
  · rintro ⟨h1, h2, h3, h4, h5, h6, h7, -, h8, h9, h10, h11, h12⟩
    exact ⟨(kept_iff ..).mp h1, (kept_iff ..).mp h2, (kept_iff ..).mp h3, (kept_iff ..).mp h4,
      (keptAlone_iff ..).mp h5, (kept_iff ..).mp h6, (kept_iff ..).mp h7, (kept_iff ..).mp h8,
      (kept_iff ..).mp h9, (kept_iff ..).mp h10, (keptText_iff hnone ..).mp h11,
      (keptText_iff hnone ..).mp h12⟩
  · rintro ⟨h1, h2, h3, h4, h5, h6, h7, h8, h9, h10, h11, h12⟩
    exact ⟨(kept_iff ..).mpr h1, (kept_iff ..).mpr h2, (kept_iff ..).mpr h3, (kept_iff ..).mpr h4,
      (keptAlone_iff ..).mpr h5, (kept_iff ..).mpr h6, (kept_iff ..).mpr h7, rfl,
      (kept_iff ..).mpr h8, (kept_iff ..).mpr h9, (kept_iff ..).mpr h10,
      (keptText_iff hnone ..).mpr h11, (keptText_iff hnone ..).mpr h12⟩

/-! ## The file -/

theorem splitSections_header (init : List (List Char)) {header : List Char}
    (hhead : header.head? = some '[') :
    (splitSections (init ++ [header])).2 = (splitSections init).2 ++ [⟨channelName header, []⟩] ∧
      (splitSections (init ++ [header])).1 = (splitSections init).1 := by
  induction init with
  | nil =>
    have hone : splitSections [header] = ([], [⟨channelName header, []⟩]) := by
      rw [splitSections, if_pos hhead]
      rfl
    rw [List.nil_append, hone]
    exact ⟨rfl, rfl⟩
  | cons piece init ih =>
    obtain ⟨hsecs, hassigns⟩ := ih
    rw [List.cons_append, splitSections, splitSections, hsecs, hassigns]
    split
    · exact ⟨rfl, rfl⟩
    · exact ⟨rfl, rfl⟩

theorem visits_snoc (dflt : List Assign) (secs : List ConfigSection) (sec : ConfigSection) :
    ∃ last, visits dflt (secs ++ [sec]) =
      visits dflt secs ++ if sec.isDefault then [] else [(sec, last)] := by
  induction secs generalizing dflt with
  | nil =>
    refine ⟨dflt, ?_⟩
    rw [List.nil_append, visits, visits, visits, List.nil_append]
    split
    · rfl
    · rfl
  | cons first secs ih =>
    rw [List.cons_append, visits, visits]
    split
    · exact ih first.assigns
    · obtain ⟨last, hlast⟩ := ih dflt
      exact ⟨last, by rw [hlast, List.cons_append]⟩

theorem passedCalls_iff (file : List Char) :
    passedCalls fl testpoint [] (sections file) = expectedCalls fl testpoint file ↔
      ∀ v ∈ visits [] (sections file), Inherits fl testpoint v.1.assigns v.2 := by
  unfold passedCalls expectedCalls
  rw [List.map_inj_left]
  apply forall_congr'
  intro v
  apply imp_congr_right
  intro _
  rw [Prod.mk.injEq, passedParam_iff]
  exact and_iff_right rfl

/-- The callback is called for the sections with their own values and the inherited ones just when
no section but a default one is lost at the end of the file, and no section assigns a value that
stands for none where another one takes its place. -/
theorem parseConfigFile_calls_iff (fl : FloatOps F) (env : ParamEnv F) (testpoint : ℤ)
    (file : List Char) (hnul : '\x00' ∉ file) (crc : BitVec 32) (calls : List (Call F))
    (h : parseConfigFile fl env testpoint (some file) = .ok (crc, calls)) :
    calls = expectedCalls fl testpoint file ↔
      (∀ before header, HeaderAtEnd file before header →
        sameWord (channelName header) "default".toList = true) ∧
      ∀ v ∈ visits [] (sections file), Inherits fl testpoint v.1.assigns v.2 := by
  have hcalls : calls =
      passedCalls fl testpoint [] (splitSections (keptPieces (configLines file))).2 := by
    unfold parseConfigFile at h
    obtain ⟨-, h⟩ | ⟨-, h⟩ := ite_ok h
    · cases h
    · obtain ⟨s, hparse, hresult⟩ := map_ok h
      cases hresult
      exact firstSection_calls rfl rfl (nul_notMem_configLines hnul) hparse
  obtain ⟨hkept, hnone⟩ | ⟨init, header, hlines, hkept, hend, hunique⟩ := keptPieces_file file
  · rw [hkept] at hcalls
    rw [hcalls, show (splitSections (configLines file)).2 = sections file from rfl,
      passedCalls_iff]
    exact (and_iff_right fun before header hend => absurd hend (hnone before header)).symm
  · have hhead := hend.head
    have hsections : sections file = (splitSections init).2 ++ [⟨channelName header, []⟩] := by
      rw [sections, hlines]
      exact (splitSections_header init hhead).1
    obtain ⟨last, hvisits⟩ := visits_snoc [] (splitSections init).2 ⟨channelName header, []⟩
    rw [← hsections] at hvisits
    rw [hkept] at hcalls
    by_cases hdefault : sameWord (channelName header) "default".toList = true
    · have hisDefault : ConfigSection.isDefault ⟨channelName header, []⟩ = true := hdefault
      rw [if_pos hisDefault, List.append_nil] at hvisits
      have hsame : calls = passedCalls fl testpoint [] (sections file) := by
        rw [hcalls, passedCalls, passedCalls, hvisits]
      rw [hsame, passedCalls_iff]
      refine (and_iff_right fun before header' hend' => ?_).symm
      rw [(hunique before header' hend').2]
      exact hdefault
    · -- a call is missing
      refine iff_of_false ?_ fun hall => hdefault (hall.1 _ _ hend)
      intro heq
      have hnotDefault : ¬ConfigSection.isDefault ⟨channelName header, []⟩ = true := hdefault
      rw [if_neg hnotDefault] at hvisits
      have hlength := congrArg List.length heq
      rw [hcalls, passedCalls, expectedCalls, hvisits, List.length_map, List.length_map,
        List.length_append, List.length_singleton] at hlength
      omega

end Inherit

/-- A section that takes its gain from the default section. -/
theorem parseConfigFile_calls_gain :
    ∃ crc calls, parseConfigFile integerOps plainEnv 0 (some "[default]\ngain=2\n[a]\n".toList)
        = .ok (crc, calls) ∧
      (calls = expectedCalls integerOps 0 "[default]\ngain=2\n[a]\n".toList ↔
        (∀ before header, HeaderAtEnd "[default]\ngain=2\n[a]\n".toList before header →
          sameWord (channelName header) "default".toList = true) ∧
        ∀ v ∈ visits [] (sections "[default]\ngain=2\n[a]\n".toList),
          Inherits integerOps 0 v.1.assigns v.2) :=
  ⟨_, _, rfl, parseConfigFile_calls_iff integerOps plainEnv 0 _ (by decide) _ _ rfl⟩

/-- `rmid` has no default. -/
theorem parseConfigFile_calls_rmid :
    ∃ crc calls, parseConfigFile integerOps plainEnv 0 (some "[default]\nrmid=5\n[a]\n".toList)
        = .ok (crc, calls) ∧
      calls ≠ expectedCalls integerOps 0 "[default]\nrmid=5\n[a]\n".toList :=
  ⟨_, _, rfl, by decide +kernel⟩

end AdvLigoRts.Drv
