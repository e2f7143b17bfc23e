import AdvLigoRts.Lib.FramedLoop
import AdvLigoRts.Seq.SdfCheckTheorems
import AdvLigoRts.Seq.SdfTablesRuns

/-!
# Accepting and reverting what the check lists

The operators mark entries of a table that `spChecker` filled. `modifyTable` takes the live values
of the accepted ones as set points and changes the monitoring of others, and `resetSelectedValues`
writes the set points of the ones to revert to the database. Both find the channels of an entry
again: by name, or, for a filter, from the two indices in `sigNum`.
-/

namespace AdvLigoRts.Seq

open PvLib

variable {K : Type}

/-! ## Reverting -/

/-- `CHFLAG_REVERT_BIT`. -/
def SetErrTable.revert (e : SetErrTable K) : Bool := e.chFlag &&& 2 ≠ 0

/-- The set point of a channel, as it is written to the database. -/
def CdsCdTable.putValue (fp : Doubles K) (cd : CdsCdTable K) : SdfData K :=
  if cd.datatype = .num then .chval (cd.data.asChval fp) else .strval (cd.data.asStrval fp)

/-- What `resetSelectedValues` has done: the values written, with the indices of their channels, and
`sn1`, which stays from one entry to the next. -/
structure ResetState (K : Type) where
  writes : List (ℕ × SdfData K)
  sn1 : ℕ

/-- The body of the loop of `resetSelectedValues`. -/
def resetSelectedValue (fp : Doubles K) (s : SdfState K) (r : ResetState K) (e : SetErrTable K) :
    ResetState K :=
  if e.revert then
    let packed := sdfMaxTsize < e.sigNum
    let sn1 := if packed then e.sigNum / sdfMaxTsize else r.sn1
    let sn := if packed then e.sigNum % sdfMaxTsize else e.sigNum
    let writes := r.writes ++ [(sn, (s.cdTable sn).putValue fp)]
    ⟨if sn1 ≠ 0 then writes ++ [(sn1, .chval ((s.cdTable sn1).data.asChval fp))] else writes, sn1⟩
  else r

/-- `resetSelectedValues`: what is written to the database. -/
def resetSelectedValues (fp : Doubles K) (s : SdfState K) (modTable : List (SetErrTable K)) :
    List (ℕ × SdfData K) :=
  (modTable.foldl (resetSelectedValue fp s) ⟨[], 0⟩).writes

/-! ## What the operators ask for -/

/-- An entry with some of its marks set. -/
structure Flagged (e e' : SetErrTable K) : Prop where
  entry : e' = { e with chFlag := e'.chFlag }
  flags : e'.chFlag < 16
  oneWay : ¬(e'.accept = true ∧ e'.revert = true)

/-- The channels of an entry. -/
def Covers (s : SdfState K) (e : SetErrTable K) (c : ℕ) : Prop :=
  ChannelLine s c e ∨ ∃ i, FilterLine s i e ∧ s.SwitchOf i c

/-- The live value of a channel in its entry. -/
def liveData (e : SetErrTable K) (cd : CdsCdTable K) : SdfData K :=
  if cd.datatype = .num then .chval e.liveval else .strval e.liveset

/-- From `s` to `t`, what the table `T` asks for was done and nothing else. -/
structure AcceptedExactly (fp : Doubles K) (T : List (SetErrTable K)) (s t : SdfState K) :
    Prop where
  channel : ∀ e ∈ T, e.accept = true → ∀ ii, ChannelLine s ii e →
    (t.cdTable ii).data = liveData e (s.cdTable ii) ∧ (t.cdTable ii).initialized = true
  filter : ∀ e ∈ T, e.accept = true → ∀ i, FilterLine s i e →
    (t.cdTable (s.filterTable i).sw.1).data = .chval (fp.ofUnsigned e.sw.1) ∧
    (t.cdTable (s.filterTable i).sw.2).data = .chval (fp.ofUnsigned e.sw.2) ∧
    (∀ c, s.SwitchOf i c → (t.cdTable c).initialized = true) ∧ (t.filterTable i).init = true
  channelMask : ∀ e ∈ T, e.monitor = true → ∀ ii, ChannelLine s ii e →
    (t.cdTable ii).mask = if (s.cdTable ii).mask ≠ 0 then 0 else ~~~0
  filterMask : ∀ e ∈ T, e.monitor = true → ∀ i, FilterLine s i e →
    (∀ c, s.SwitchOf i c → (t.cdTable c).mask = s.filterMasks i) ∧
    (t.filterTable i).mask = s.filterMasks i
  value : ∀ c < s.chNum, (∀ e ∈ T, e.accept = true → ¬Covers s e c) →
    (t.cdTable c).data = (s.cdTable c).data ∧
    (t.cdTable c).initialized = (s.cdTable c).initialized
  monitoring : ∀ c < s.chNum,
    (∀ e ∈ T, e.monitor = true ∨ e.accept = true ∧ (∃ i, FilterLine s i e) → ¬Covers s e c) →
    (t.cdTable c).mask = (s.cdTable c).mask

/-- What is written are the set points of the channels whose entries are to be reverted. -/
def RevertedExactly (fp : Doubles K) (T : List (SetErrTable K)) (s : SdfState K)
    (writes : List (ℕ × SdfData K)) : Prop :=
  ∀ c v, (c, v) ∈ writes ↔
    ∃ e ∈ T, e.revert = true ∧ Covers s e c ∧ v = (s.cdTable c).putValue fp

/-! ## The tables -/

/-- The tables as the program makes them from a database: the names of the channels differ, each
filter has two switch channels, which are numbers, and only switch channels know a filter. -/
structure SdfState.Arranged (s : SdfState K) : Prop where
  paired : s.Paired
  distinct : ∀ c < s.chNum, ∀ d < s.chNum, (s.cdTable c).chname = (s.cdTable d).chname → c = d
  two : ∀ i < s.fmNum, (s.filterTable i).sw.1 ≠ (s.filterTable i).sw.2
  numbers : ∀ i < s.fmNum, ∀ c, s.SwitchOf i c → (s.cdTable c).datatype = .num
  unnumbered : ∀ c < s.chNum, (s.cdTable c).filterswitch = 0 → (s.cdTable c).filterNum = -1

/-- No channel has the name that a filter has in the tables for the operators, no filter is left
marked whose switch channels have different masks, and the indices of the switch channels of each
filter are found again in `sigNum`. -/
structure SdfState.Unambiguous (s : SdfState K) : Prop where
  names : ∀ i < s.fmNum, ∀ c < s.chNum, (s.cdTable c).chname ≠ (s.filterTable i).tmpname
  marks : ∀ i < s.fmNum, (s.filterTable i).newSet = true →
    (s.cdTable (s.filterTable i).sw.1).mask = (s.cdTable (s.filterTable i).sw.2).mask
  packing : ∀ i < s.fmNum, (s.filterTable i).sw.2 ≠ 0 ∧ (s.filterTable i).sw ≠ (0, 1)

/-- The same for what a table asks for: the names of the filters that are selected, the marks of the
others, and the indices of those to revert. -/
structure Undisturbed (T : List (SetErrTable K)) (s : SdfState K) : Prop where
  names : ∀ e ∈ T, e.selected = true → ∀ i, FilterLine s i e →
    ∀ c < s.chNum, (s.cdTable c).chname ≠ e.chname
  marks : ∀ i < s.fmNum, (s.filterTable i).newSet = true →
    (∀ e ∈ T, e.selected = true → ¬FilterLine s i e) →
    (s.cdTable (s.filterTable i).sw.1).mask = (s.cdTable (s.filterTable i).sw.2).mask
  packing : ∀ e ∈ T, e.revert = true → ∀ i, FilterLine s i e →
    (s.filterTable i).sw.2 ≠ 0 ∧ (s.filterTable i).sw ≠ (0, 1)

/-- A table whose entries are for filters and channels, each of them for other channels. -/
structure CheckedTable (s : SdfState K) (T : List (SetErrTable K)) : Prop where
  line : ∀ e ∈ T, (∃ i, FilterLine s i e) ∨ ∃ ii, ChannelLine s ii e
  flags : ∀ e ∈ T, e.chFlag < 16
  apart : T.Pairwise fun e e' => ∀ c, Covers s e c → ¬Covers s e' c

end AdvLigoRts.Seq
