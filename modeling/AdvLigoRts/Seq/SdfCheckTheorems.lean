import AdvLigoRts.Seq.SdfCheck
import AdvLigoRts.Seq.SdfRestore
import Mathlib.Data.List.Forall2

/-!
# What the check of the set points reports

With live values in range each step of `spChecker` is a step of a scan over the filters and the
channels.
-/

namespace AdvLigoRts.Seq

open PvLib

variable {K : Type}

/-! ## Reports -/

/-- What an entry of a table can be for. -/
inductive CheckItem where
  | filter (i : ℕ)
  | channel (ii : ℕ)
deriving DecidableEq

/-- The filters, and then the channels. -/
def SdfState.items (s : SdfState K) : List CheckItem :=
  (List.range s.fmNum).map .filter ++ (List.range s.chNum).map .channel

def CheckItem.name (s : SdfState K) : CheckItem → List Char
  | .filter i => (s.filterTable i).tmpname
  | .channel ii => (s.cdTable ii).chname

/-- An entry is for an item, and has its index. -/
def Shows (live : LiveValues K) (s : SdfState K) : CheckItem → SetErrTable K → Prop
  | .filter i, e => FilterLine s i e ∧ e.sw = liveSwitches live (s.filterTable i)
  | .channel ii, e => ChannelLine s ii e

def SwitchesInRange (live : LiveValues K) (f : FilterTable) : Prop :=
  live.int f.swname.1 ≤ 0xffff ∧ live.int f.swname.2 ≤ 0xffff

/-- The initialised filter differs in one of the bits `m`. -/
def filterDiffers (live : LiveValues K) (m : BitVec 32) (f : FilterTable) : Bool :=
  f.init && decide ((refVal live f ^^^ f.swreq) &&& m ≠ 0)

def monitoredBits (monitorAll : Bool) (f : FilterTable) : BitVec 32 :=
  if monitorAll then allSwstatBits else f.mask

section Reports

variable (fp : Doubles K) (live : LiveValues K) (s : SdfState K) (monitorAll : Bool)
  (wcstring : Option (List Char))

def CheckItem.differs [BEq K] : CheckItem → Bool
  | .filter i => filterDiffers live (monitoredBits monitorAll (s.filterTable i)) (s.filterTable i)
  | .channel ii =>
    decide ((s.cdTable ii).filterswitch = 0) && (s.cdTable ii).initialized &&
      (monitorAll || decide ((s.cdTable ii).mask ≠ 0)) && liveDiffers fp live (s.cdTable ii)

def SdfState.differences [BEq K] : List CheckItem :=
  s.items.filter (CheckItem.differs fp live s monitorAll)

/-- The check counts all differences, and has one entry for each of those that are asked for. -/
structure ReportsDifferences [BEq K] (c : CheckState K) : Prop where
  total : c.totalDiffs = (s.differences fp live monitorAll).length
  entries : ∃ items, List.Forall₂ (Shows live s) items c.entries ∧
    items.Perm ((s.differences fp live monitorAll).filter fun x => wcMatches wcstring (x.name s))

/-- As many initialised filters differ under their own masks as in all bits, and among those that
are asked for they are the same ones. -/
structure MasksSuffice : Prop where
  count : ((List.range s.fmNum).filter fun i =>
      filterDiffers live (s.filterTable i).mask (s.filterTable i)).length =
    ((List.range s.fmNum).filter fun i =>
      filterDiffers live allSwstatBits (s.filterTable i)).length
  named : ∀ i < s.fmNum, wcMatches wcstring (s.filterTable i).tmpname = true →
    filterDiffers live (s.filterTable i).mask (s.filterTable i) =
      filterDiffers live allSwstatBits (s.filterTable i)

def CheckItem.test [BEq K] : CheckItem → Bool
  | .filter i => filterTest live monitorAll (s.filterTable i)
  | .channel ii =>
    channelMonitored monitorAll (s.cdTable ii) && liveDiffers fp live (s.cdTable ii)

end Reports

variable {fp : Doubles K} {live : LiveValues K} {s : SdfState K} {monitorAll : Bool}
  {wcstring : Option (List Char)} {listAll : Bool} {c : CheckState K} {items : List CheckItem}

/-! ## Entries -/

namespace CheckState

@[simp] theorem entries_setEntry (e : SetErrTable K) : (c.setEntry e).entries = c.entries := by
  refine List.map_congr_left fun k hk => ?_
  exact Function.update_of_ne (ne_of_lt (List.mem_range.mp hk)) _ _

theorem entries_push (e : SetErrTable K) : (c.push e).entries = c.entries ++ [e] := by
  show (List.range (c.errCnt + 1)).map (c.setEntry e).setErrTable = _
  rw [List.range_succ, List.map_append]
  have hlast : (c.setEntry e).setErrTable c.errCnt = e := Function.update_self ..
  exact congrArg₂ (· ++ ·) (entries_setEntry e) (by rw [List.map_singleton, hlast])

end CheckState

/-- The entry of an item tells which it is. -/
theorem shows_leftUnique : Relator.LeftUnique (Shows live s) := by
  intro x y e hx hy
  cases x with
  | filter i =>
    cases y with
    | filter j =>
      have hij : (i : ℤ) = j := hx.1.filtNum.symm.trans hy.1.filtNum
      rw [Int.ofNat_inj.mp hij]
    | channel jj =>
      have hne : (i : ℤ) = -1 := hx.1.filtNum.symm.trans hy.filtNum
      omega
  | channel ii =>
    cases y with
    | filter j =>
      have hne : (j : ℤ) = -1 := hy.1.filtNum.symm.trans hx.filtNum
      omega
    | channel jj => rw [hx.sigNum.symm.trans hy.sigNum]

/-- The error table lists these items. -/
structure Lists (live : LiveValues K) (s : SdfState K) (items : List CheckItem)
    (c : CheckState K) : Prop where
  errCnt : c.errCnt = items.length
  entries : List.Forall₂ (Shows live s) items c.entries

namespace Lists

theorem nil (setErrTable : ℕ → SetErrTable K) (n : ℕ) : Lists live s [] ⟨setErrTable, 0, n⟩ :=
  ⟨rfl, .nil⟩

theorem count (h : Lists live s items c) (n : ℕ) :
    Lists live s items { c with totalDiffs := n } := ⟨h.errCnt, h.entries⟩

theorem setEntry (h : Lists live s items c) (e : SetErrTable K) :
    Lists live s items (c.setEntry e) :=
  ⟨h.errCnt, by rw [CheckState.entries_setEntry]; exact h.entries⟩

theorem push (h : Lists live s items c) {x : CheckItem} {e : SetErrTable K}
    (hx : Shows live s x e) : Lists live s (items ++ [x]) (c.push e) := by
  constructor
  · show c.errCnt + 1 = _
    rw [List.length_append, h.errCnt, List.length_singleton]
  · rw [CheckState.entries_push]
    exact List.rel_append h.entries (.cons hx .nil)

theorem report (h : Lists live s items c) {x : CheckItem} {hit shown : Bool}
    {line : SetErrTable K → SetErrTable K} (hline : ∀ old, Shows live s x (line old)) :
    Lists live s (if shown then items ++ [x] else items) (c.report hit shown line) ∧
      (c.report hit shown line).totalDiffs = if hit then c.totalDiffs + 1 else c.totalDiffs := by
  have hcount : Lists live s items
      (if hit then { c with totalDiffs := c.totalDiffs + 1 } else c) := by
    split
    · exact h.count _
    · exact h
  have htotal : (if hit then { c with totalDiffs := c.totalDiffs + 1 } else c).totalDiffs =
      if hit then c.totalDiffs + 1 else c.totalDiffs := by split <;> rfl
  unfold CheckState.report
  dsimp only
  cases shown with
  | true => exact ⟨hcount.push (hline _), htotal⟩
  | false => exact ⟨hcount, htotal⟩

end Lists

/-! ## Steps -/

theorem checkOverrange_of_le {swname : List Char} {sw : ℕ} {rval : BitVec 32} (h : rval ≤ 0xffff) :
    checkOverrange fp swname sw rval c = c := if_neg (BitVec.not_lt.mpr h)

variable (fp monitorAll wcstring listAll) in
/-- What the loop over the filters does for one of them. -/
theorem checkFilterSwitch_spec {ii : ℕ} (hii : ii < s.fmNum)
    (hrange : SwitchesInRange live (s.filterTable ii)) (h : Lists live s items c) :
    let hit := filterTest live monitorAll (s.filterTable ii) && decide (items.length < sdfErrTsize)
    let c' := checkFilterSwitch fp live s monitorAll wcstring listAll c ii
    Lists live s
        (if (hit || listAll) && wcMatches wcstring (s.filterTable ii).tmpname then
          items ++ [.filter ii]
        else items) c' ∧
      c'.totalDiffs = if hit then c.totalDiffs + 1 else c.totalDiffs := by
  intro hit
  have hline : ∀ old, Shows live s (.filter ii) (filterEntry fp live s ii old) :=
    fun old => ⟨⟨hii, rfl, rfl, rfl⟩, rfl⟩
  have h1 : Lists live s items (c.setEntry { c.entry with filtNum := -1 }) := h.setEntry _
  unfold checkFilterSwitch
  dsimp only
  rw [checkOverrange_of_le hrange.1, checkOverrange_of_le hrange.2, h1.errCnt]
  exact h1.report hline

variable (fp monitorAll wcstring listAll) in
/-- What the loop over the channels does for one of them. -/
theorem checkChannel_spec [BEq K] {ii : ℕ} (hii : ii < s.chNum) (h : Lists live s items c) :
    let cd := s.cdTable ii
    let looked := (decide (items.length < sdfErrTsize) && channelMonitored monitorAll cd) ||
      (listAll && decide (cd.filterswitch = 0))
    let hit := looked && (liveDiffers fp live cd || listAll)
    let c' := checkChannel fp live s monitorAll wcstring listAll c ii
    Lists live s (if hit && wcMatches wcstring cd.chname then items ++ [.channel ii] else items)
        c' ∧
      c'.totalDiffs = if hit then c.totalDiffs + 1 else c.totalDiffs := by
  intro cd looked
  have hstep : checkChannel fp live s monitorAll wcstring listAll c ii =
      if looked then
        c.report (liveDiffers fp live cd || listAll)
          ((liveDiffers fp live cd || listAll) && wcMatches wcstring cd.chname)
          (channelEntry fp live s ii)
      else c := by
    unfold checkChannel
    rw [h.errCnt]
  dsimp only
  rw [hstep]
  cases hlooked : looked with
  | false => exact ⟨h, rfl⟩
  | true =>
    have hswitch : cd.filterswitch = 0 := by
      have hor : (decide (items.length < sdfErrTsize) && channelMonitored monitorAll cd) = true ∨
          (listAll && decide (cd.filterswitch = 0)) = true := (Bool.or_eq_true _ _).mp hlooked
      unfold channelMonitored at hor
      simp only [Bool.and_eq_true, decide_eq_true_eq] at hor
      rcases hor with hor | hor
      · exact hor.2.2
      · exact hor.2
    have hline : ∀ old, Shows live s (.channel ii) (channelEntry fp live s ii old) :=
      fun old => ⟨hii, hswitch, rfl, rfl, rfl⟩
    rw [Bool.true_and]
    exact h.report hline

/-! ## The loops -/

def Scanned (live : LiveValues K) (s : SdfState K) (a : Scan CheckItem) (c : CheckState K) : Prop :=
  Lists live s a.listed c ∧ c.totalDiffs = a.counted

theorem scanned_step {a : Scan CheckItem} {hit shown : CheckItem → Bool} {x : CheckItem}
    (h : c.totalDiffs = a.counted) {c' : CheckState K}
    (hlists : Lists live s
      (if (hit x && decide (a.listed.length < sdfErrTsize)) && shown x then a.listed ++ [x]
        else a.listed) c')
    (htotal : c'.totalDiffs =
      if hit x && decide (a.listed.length < sdfErrTsize) then c.totalDiffs + 1
      else c.totalDiffs) :
    Scanned live s (a.step sdfErrTsize hit shown x) c' := by
  unfold Scan.step
  by_cases hx : a.listed.length < sdfErrTsize ∧ hit x = true
  · rw [if_pos hx]
    rw [hx.2, decide_eq_true hx.1, Bool.true_and] at hlists htotal
    rw [Bool.true_and] at hlists
    exact ⟨hlists, by rw [htotal, if_pos rfl, h]⟩
  · have hnot : (hit x && decide (a.listed.length < sdfErrTsize)) = false := by
      rw [Bool.eq_false_iff, ne_eq, Bool.and_eq_true, decide_eq_true_eq]
      exact fun hand => hx hand.symm
    rw [if_neg hx]
    rw [hnot, Bool.false_and] at hlists
    rw [hnot] at htotal
    exact ⟨hlists, htotal.trans h⟩

variable [BEq K]

variable (fp monitorAll wcstring) in
/-- `spChecker` is a scan of the items. -/
theorem spChecker_scanned (hrange : ∀ i < s.fmNum, SwitchesInRange live (s.filterTable i))
    (setErrTable : ℕ → SetErrTable K) :
    Scanned live s
      (Scan.run sdfErrTsize (CheckItem.test fp live s monitorAll)
        (fun x => wcMatches wcstring (x.name s)) s.items)
      (spChecker fp live s monitorAll wcstring false setErrTable) := by
  unfold Scan.run SdfState.items spChecker checkFilterSwitches
  rw [List.foldl_append, List.foldl_map, List.foldl_map]
  refine List.foldl_rel (List.foldl_rel ⟨.nil _ _, rfl⟩ ?_) ?_
  · rintro i hi a c ⟨hlists, htotal⟩
    obtain ⟨hlists', htotal'⟩ := checkFilterSwitch_spec fp monitorAll wcstring false
      (List.mem_range.mp hi) (hrange i (List.mem_range.mp hi)) hlists
    rw [Bool.or_false] at hlists'
    exact scanned_step htotal hlists' htotal'
  · rintro ii hii a c ⟨hlists, htotal⟩
    obtain ⟨hlists', htotal'⟩ := checkChannel_spec fp monitorAll wcstring false
      (List.mem_range.mp hii) hlists
    have hhit : (((decide (a.listed.length < sdfErrTsize) &&
          channelMonitored monitorAll (s.cdTable ii)) ||
          (false && decide ((s.cdTable ii).filterswitch = 0))) &&
          (liveDiffers fp live (s.cdTable ii) || false)) =
        ((CheckItem.channel ii).test fp live s monitorAll &&
          decide (a.listed.length < sdfErrTsize)) := by
      rw [Bool.false_and, Bool.or_false, Bool.or_false, Bool.and_assoc, Bool.and_comm]
      rfl
    rw [hhit] at hlists' htotal'
    exact scanned_step htotal hlists' htotal'

/-! ## The tests -/

theorem xor_and_ne_zero {w : ℕ} (x y m : BitVec w) :
    (x ^^^ y) &&& m ≠ 0 ↔ x &&& m ≠ y &&& m := by
  have hdistrib : (x ^^^ y) &&& m = (x &&& m) ^^^ (y &&& m) := by
    ext k hk
    simp only [BitVec.getElem_and, BitVec.getElem_xor]
    cases x[k] <;> cases y[k] <;> cases m[k] <;> rfl
  rw [hdistrib]
  exact not_congr BitVec.xor_eq_zero_iff

omit [BEq K] in
theorem filterTest_eq (f : FilterTable) :
    filterTest live monitorAll f = filterDiffers live f.mask f := by
  have hxor := xor_and_ne_zero (refVal live f) f.swreq f.mask
  unfold filterTest filterDiffers
  rw [Bool.eq_iff_iff]
  simp only [Bool.and_eq_true, Bool.or_eq_true, decide_eq_true_eq, hxor]
  constructor
  · rintro ⟨⟨hne, -⟩, hinit⟩
    exact ⟨hinit, hne⟩
  · rintro ⟨hinit, hne⟩
    refine ⟨⟨hne, .inl fun hzero => hne ?_⟩, hinit⟩
    rw [hzero]
    exact BitVec.and_zero.trans BitVec.and_zero.symm

theorem test_channel (ii : ℕ) : (CheckItem.channel ii).test fp live s monitorAll =
    (CheckItem.channel ii).differs fp live s monitorAll := by
  unfold CheckItem.test CheckItem.differs channelMonitored
  cases monitorAll <;> cases (s.cdTable ii).initialized <;>
    simp [Bool.and_comm, Bool.and_left_comm, Bool.and_assoc]

theorem test_filter (i : ℕ) : (CheckItem.filter i).test fp live s monitorAll =
    filterDiffers live (s.filterTable i).mask (s.filterTable i) := filterTest_eq _

omit [BEq K] in
theorem length_filter_items (p : CheckItem → Bool) :
    (s.items.filter p).length =
      ((List.range s.fmNum).filter fun i => p (.filter i)).length +
        ((List.range s.chNum).filter fun ii => p (.channel ii)).length := by
  unfold SdfState.items
  rw [List.filter_append, List.length_append, List.filter_map, List.filter_map, List.length_map,
    List.length_map]
  rfl

omit [BEq K] in
theorem mem_items {x : CheckItem} : x ∈ s.items ↔
    (∃ i < s.fmNum, x = .filter i) ∨ ∃ ii < s.chNum, x = .channel ii := by
  unfold SdfState.items
  simp only [List.mem_append, List.mem_map, List.mem_range, eq_comm (b := x)]

/-- The tests find as much as there is to find, and the same among what is asked for, exactly if the
masks suffice where everything is to be monitored. -/
theorem tests_iff :
    ((s.items.filter (CheckItem.test fp live s monitorAll)).length =
        (s.differences fp live monitorAll).length ∧
      ∀ x ∈ s.items, wcMatches wcstring (x.name s) = true →
        x.test fp live s monitorAll = x.differs fp live s monitorAll) ↔
    (monitorAll = true → MasksSuffice live s wcstring) := by
  unfold SdfState.differences
  rw [length_filter_items, length_filter_items]
  simp only [test_channel, test_filter, Nat.add_right_cancel_iff]
  cases hall : monitorAll with
  | false =>
    have hsame : ∀ i, (CheckItem.filter i).differs fp live s false =
        filterDiffers live (s.filterTable i).mask (s.filterTable i) := fun _ => rfl
    simp only [hsame]
    refine ⟨fun _ h => absurd h Bool.false_ne_true, fun _ => ⟨trivial, fun x hx _ => ?_⟩⟩
    rcases mem_items.mp hx with ⟨i, -, rfl⟩ | ⟨ii, -, rfl⟩
    · exact test_filter i
    · exact test_channel ii
  | true =>
    have hsame : ∀ i, (CheckItem.filter i).differs fp live s true =
        filterDiffers live allSwstatBits (s.filterTable i) := fun _ => rfl
    simp only [hsame]
    constructor
    · rintro ⟨hcount, hnamed⟩ -
      exact ⟨hcount, fun i hi hw =>
        (test_filter i).symm.trans (hnamed _ (mem_items.mpr (.inl ⟨i, hi, rfl⟩)) hw)⟩
    · intro h
      obtain ⟨hcount, hnamed⟩ := h trivial
      refine ⟨hcount, fun x hx hw => ?_⟩
      rcases mem_items.mp hx with ⟨i, hi, rfl⟩ | ⟨ii, -, rfl⟩
      · exact (test_filter i).trans (hnamed i hi hw)
      · exact test_channel ii

/-! ## The reports -/

/-- Two filters of a list agree where a third one holds if their results there have the same
elements. -/
theorem filter_and_perm_iff {α : Type*} {l : List α} {p q r : α → Bool} :
    (l.filter fun x => p x && r x).Perm ((l.filter q).filter r) ↔
      ∀ x ∈ l, r x = true → p x = q x := by
  constructor
  · intro h x hx hr
    have hmem := h.mem_iff (a := x)
    simp only [List.mem_filter, Bool.and_eq_true, hx, hr, and_true, true_and] at hmem
    exact Bool.eq_iff_iff.mpr hmem
  · intro h
    rw [List.filter_filter]
    refine List.Perm.of_eq (List.filter_congr fun x hx => ?_)
    cases hr : r x with
    | false => rw [Bool.and_false, Bool.false_and]
    | true => rw [Bool.and_true, Bool.true_and, h x hx hr]

theorem reports_iff_tests (hrange : ∀ i < s.fmNum, SwitchesInRange live (s.filterTable i))
    (hfew : (s.differences fp live monitorAll).length < sdfErrTsize)
    (setErrTable : ℕ → SetErrTable K) :
    ReportsDifferences fp live s monitorAll wcstring
        (spChecker fp live s monitorAll wcstring false setErrTable) ↔
      (s.items.filter (CheckItem.test fp live s monitorAll)).length =
          (s.differences fp live monitorAll).length ∧
        ∀ x ∈ s.items, wcMatches wcstring (x.name s) = true →
          x.test fp live s monitorAll = x.differs fp live s monitorAll := by
  obtain ⟨hlists, htotal⟩ := spChecker_scanned fp monitorAll wcstring hrange setErrTable
  have hcount : (spChecker fp live s monitorAll wcstring false setErrTable).totalDiffs =
        (s.differences fp live monitorAll).length ↔
      (s.items.filter (CheckItem.test fp live s monitorAll)).length =
        (s.differences fp live monitorAll).length := by
    rw [htotal]
    exact Scan.run_counted_iff hfew
  have hlisted : (s.items.filter (CheckItem.test fp live s monitorAll)).length =
        (s.differences fp live monitorAll).length →
      (Scan.run sdfErrTsize (CheckItem.test fp live s monitorAll)
        (fun x => wcMatches wcstring (x.name s)) s.items).listed =
      s.items.filter fun x => x.test fp live s monitorAll && wcMatches wcstring (x.name s) :=
    fun h => (Scan.run_of_room (by rw [h]; exact hfew)).1
  constructor
  · rintro ⟨hsum, items, hshows, hperm⟩
    have hnum := hcount.mp hsum
    have hitems := shows_leftUnique.forall₂ hshows hlists.entries
    rw [hitems, hlisted hnum] at hperm
    exact ⟨hnum, filter_and_perm_iff.mp hperm⟩
  · rintro ⟨hnum, htests⟩
    refine ⟨hcount.mpr hnum, _, hlists.entries, ?_⟩
    rw [hlisted hnum]
    exact filter_and_perm_iff.mpr htests

/-- The check of the set points reports every difference, and nothing else, exactly if it is not to
monitor everything or the masks of the filters suffice for that. -/
theorem spChecker_reports_iff (fp : Doubles K) (live : LiveValues K) (s : SdfState K)
    (monitorAll : Bool) (wcstring : Option (List Char)) (setErrTable : ℕ → SetErrTable K)
    (hrange : ∀ i < s.fmNum, SwitchesInRange live (s.filterTable i))
    (hfew : (s.differences fp live monitorAll).length < sdfErrTsize) :
    ReportsDifferences fp live s monitorAll wcstring
        (spChecker fp live s monitorAll wcstring false setErrTable) ↔
      (monitorAll = true → MasksSuffice live s wcstring) :=
  (reports_iff_tests hrange hfew setErrTable).trans tests_iff

/-! ## Example checks -/

/-- A number that is as it should be, and a filter whose first switch is not, with the bits of the
filter that are monitored. -/
def checkedFilter (mask : BitVec 32) : SdfState ℕ where
  chNum := 3
  cdTable ii :=
    match ii with
    | 0 => ⟨"X1:A_GAIN".toList, .num, .chval 7, ~~~0, true, 0, -1⟩
    | 1 => ⟨"X1:A_SW1S".toList, .num, .chval 0, mask, true, 1, 0⟩
    | _ => ⟨"X1:A_SW2S".toList, .num, .chval 0, mask, true, 2, -1⟩
  fmNum := 1
  filterTable _ := ⟨"X1:A_".toList, 0, (1, 2), false, true, mask⟩
  filterMasks _ := mask

def switchedOn : LiveValues ℕ where
  num name := if name = "X1:A_GAIN".toList then 7 else 16
  str _ := []
  int name := if name = "X1:A_SW1S".toList then 16 else 0
  text _ := []

def emptyErrTable (_ : ℕ) : SetErrTable ℕ := ⟨[], [], 0, 0, 0, 0, (0, 0)⟩

theorem switchedOn_inRange (mask : BitVec 32) :
    ∀ i < (checkedFilter mask).fmNum,
      SwitchesInRange switchedOn ((checkedFilter mask).filterTable i) := by
  intro i _
  show switchedOn.int "X1:A_SW1S".toList ≤ 0xffff ∧ switchedOn.int "X1:A_SW2S".toList ≤ 0xffff
  decide

theorem spChecker_reports_iff_masked :
    ReportsDifferences smallDoubles switchedOn (checkedFilter allSwstatBits) true none
      (spChecker smallDoubles switchedOn (checkedFilter allSwstatBits) true none false
        emptyErrTable) := by
  refine (spChecker_reports_iff smallDoubles switchedOn (checkedFilter allSwstatBits) true none
    emptyErrTable (switchedOn_inRange _) (by decide +kernel)).mpr fun _ => ?_
  constructor
  · decide +kernel
  · intro i hi _
    obtain rfl : i = 0 := Nat.lt_one_iff.mp hi
    rfl

/-- Everything is to be monitored, and the filter differs, but its own mask is zero. -/
theorem unmonitored_filter_missed :
    (∀ i < (checkedFilter 0).fmNum, SwitchesInRange switchedOn ((checkedFilter 0).filterTable i)) ∧
      ((checkedFilter 0).differences smallDoubles switchedOn true).length < sdfErrTsize ∧
      ¬ReportsDifferences smallDoubles switchedOn (checkedFilter 0) true none
        (spChecker smallDoubles switchedOn (checkedFilter 0) true none false emptyErrTable) := by
  refine ⟨switchedOn_inRange 0, by decide +kernel, fun h => ?_⟩
  have htotal := h.total
  revert htotal
  decide +kernel

end AdvLigoRts.Seq
