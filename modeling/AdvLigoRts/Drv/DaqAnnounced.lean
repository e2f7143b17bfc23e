import AdvLigoRts.Drv.DaqBlockWrites
import Mathlib.Tactic.Ring

/-!
# The announced lists

A block is announced with the list for the network, which `updateNet` copies from the slots one
block after the look at the GDS tables.
-/

namespace AdvLigoRts.Drv

open PvLib

/-! ## The signals of numbers -/

section Signal

variable {K : Type} [Zero K]

/-- The value of the signal that a number denotes: of a test point of a filter module, another
test point, the excitation of a filter module or another excitation. -/
def signal (daqRange : DaqRange) (s : DaqState K) (inp : DaqCall K) (num : ℕ) : K :=
  if daqRange.filtTpMin ≤ num ∧ num < daqRange.filtTpMax then
    let fmNum := (num - daqRange.filtTpMin) / daqNumFmTp
    match (num - daqRange.filtTpMin) % daqNumFmTp with
    | 0 => inp.filterInput fmNum
    | 1 => inp.inputTestpoint fmNum
    | 2 => inp.testpoint fmNum
    | _ => 0
  else if daqRange.xTpMin ≤ num ∧ num < daqRange.xTpMax then
    inp.pFloatData (num - daqRange.xTpMin)
  else if daqRange.filtExMin ≤ num ∧ num < daqRange.filtExMax then
    s.exciteInput (num - daqRange.filtExMin)
  else if daqRange.xExMin ≤ num ∧ num < daqRange.xExMax then
    s.excSignal (num - daqRange.xExMin)
  else 0

/-- The entry reads the signal of the number. -/
def EntryFor (K : Type) [Zero K] (daqRange : DaqRange) (num : ℕ) (lt : DaqLkupTable) : Prop :=
  ∀ (s : DaqState K) (inp : DaqCall K), readSignal s inp lt = signal daqRange s inp num

end Signal

/-- The ranges of the controllers, with the excitations before the test points. -/
structure RangesOk (daqRange : DaqRange) : Prop where
  filtTp : daqRange.filtTpMax = daqRange.filtTpMin + daqRange.filtTpSize
  filtEx : daqRange.filtExMax = daqRange.filtExMin + daqRange.filtExSize
  xTp : daqRange.xTpMin = daqRange.filtTpMax
  xEx : daqRange.xExMin = daqRange.filtExMax
  xExLe : daqRange.xExMin ≤ daqRange.xExMax
  apart : daqRange.xExMax ≤ daqRange.filtTpMin

theorem rangesOk_controllerRange {filtExMin filtTpMin maxModules : ℕ}
    (h : filtExMin + maxModules + gdsMaxNfmExc ≤ filtTpMin) :
    RangesOk (controllerRange filtExMin filtTpMin maxModules) :=
  ⟨rfl, rfl, rfl, rfl, Nat.le_add_right _ _, h⟩

section Run

variable {K : Type} {B : DaqBuild K} {sysRate : ℕ} {daqRange : DaqRange}
variable {s t : DaqState K} {inp : DaqCall K} {inps : List (DaqCall K)} {n i slot tpn : ℕ}
/-! ## Numbers that stay -/

/-- Every number in these slots is found in the lists when its slot is looked at. -/
def AllFound (s : DaqState K) : GdsLists → List ℕ → Prop
  | _, [] => True
  | l, i :: is =>
    if s.tpNum i = 0 then AllFound s l is
    else (inTheLists s.excTable (s.tpNum i) i l).1 = true ∧
      AllFound s (inTheLists s.excTable (s.tpNum i) i l).2 is

theorem allFound_of_zero {l : GdsLists} {is : List ℕ} (h : ∀ i ∈ is, s.tpNum i = 0) :
    AllFound s l is := by
  induction is with
  | nil => trivial
  | cons i is ih =>
    unfold AllFound
    rw [if_pos (h i List.mem_cons_self)]
    exact ih fun j hj => h j (List.mem_cons_of_mem i hj)

theorem AllFound.congr {l : GdsLists} {is : List ℕ} (h : AllFound s l is)
    (htpNum : t.tpNum = s.tpNum) (hexc : t.excTable = s.excTable) : AllFound t l is := by
  induction is generalizing l with
  | nil => trivial
  | cons i is ih =>
    unfold AllFound at h ⊢
    rw [htpNum, hexc]
    split
    · rename_i hzero
      rw [if_pos hzero] at h
      exact ih h
    · rename_i hzero
      rw [if_neg hzero] at h
      exact ⟨h.1, ih h.2⟩

variable [Zero K]

/-! ## New entries -/

theorem selectTp_cases (hrange : RangesOk daqRange) (s : DaqState K) (slot tpn : ℕ) :
    selectTp daqRange s slot tpn = s ∨ ∃ lt, selectTp daqRange s slot tpn = s.putSlot slot tpn lt ∧
      ∀ old, (lt old).decFactor = 1 ∧ EntryFor K daqRange tpn (lt old) := by
  have hsize := hrange.filtTp
  unfold selectTp
  dsimp only
  split
  · rename_i hfm
    refine Or.inr ⟨_, rfl, fun old => ⟨rfl, fun t inp => ?_⟩⟩
    have hsys : (tpn - daqRange.filtTpMin) / daqRange.filtTpSize = 0 :=
      Nat.div_eq_of_lt (by omega)
    rcases hrem : (tpn - daqRange.filtTpMin) % daqNumFmTp with _ | _ | _ | k
    all_goals simp only [readSignal, signal, if_pos hfm, hsys, Nat.zero_mul, Nat.sub_zero, hrem]
  · rename_i hfm
    split
    · rename_i hx
      refine Or.inr ⟨_, rfl, fun old => ⟨rfl, fun t inp => ?_⟩⟩
      unfold readSignal signal
      rw [if_neg hfm, if_pos hx]
    · exact Or.inl rfl

theorem selectExc_cases (hrange : RangesOk daqRange) (s : DaqState K) (slot tpn ii : ℕ) :
    selectExc daqRange s slot tpn ii = s ∨ ∃ exc lt, selectExc daqRange s slot tpn ii =
        ({ s with excTable := exc } : DaqState K).putSlot slot tpn lt ∧
      ∀ old, (lt old).decFactor = 1 ∧ EntryFor K daqRange tpn (lt old) := by
  obtain ⟨htp, hfilt, hxtp, hxex, hle, hapart⟩ := hrange
  unfold selectExc
  dsimp only
  split
  · rename_i hfm
    refine Or.inr ⟨_, _, rfl, fun old => ⟨rfl, fun t inp => ?_⟩⟩
    have hmod : (tpn - daqRange.filtExMin) % daqRange.filtExSize = tpn - daqRange.filtExMin :=
      Nat.mod_eq_of_lt (by omega)
    unfold readSignal signal
    rw [if_neg (by omega), if_neg (by omega), if_pos hfm, hmod]
  · rename_i hfm
    split
    · rename_i hx
      refine Or.inr ⟨_, _, rfl, fun old => ⟨rfl, fun t inp => ?_⟩⟩
      unfold readSignal signal
      rw [if_neg (by omega), if_neg (by omega), if_neg hfm, if_pos hx]
    · exact Or.inl rfl

/-! ## Slots -/

/-- The first `n` slots hold all numbers, each with an entry of floats for it. -/
structure SlotsDescribed (daqRange : DaqRange) (n : ℕ) (s : DaqState K) : Prop where
  bound : n ≤ daqGdsMaxTpAllowed
  used : ∀ i < daqGdsMaxTpAllowed, s.tpNum i ≠ 0 → i < n
  decFactor : ∀ i < n, (slotEntry s i).decFactor = 1
  dataType : ∀ i < n, (s.dataInfo.tp (s.dataInfo.numChans + i)).dataType = daqDatatypeFloat
  denotes : ∀ i < n, s.tpNum i ≠ 0 → EntryFor K daqRange (s.tpNum i) (slotEntry s i)

theorem setFloat_dataType (info : DaqInfoBlock) (i j : ℕ) :
    ((info.setFloat (info.numChans + i)).tp (info.numChans + j)).dataType =
      if j = i then daqDatatypeFloat else (info.tp (info.numChans + j)).dataType := by
  unfold DaqInfoBlock.setFloat
  by_cases hj : j = i
  · subst hj
    simp
  · have hne : info.numChans + j ≠ info.numChans + i := by omega
    simp [hj]

theorem SlotsDescribed.deselectSlot (h : SlotsDescribed daqRange n s) (i : ℕ) :
    SlotsDescribed daqRange n (deselectSlot s i) := by
  have hentry := slotEntry_deselectSlot s i
  have htpNum := deselectSlot_tpNum s i
  have hinfo := deselectSlot_dataInfo s i
  constructor
  case bound => exact h.bound
  case used =>
    intro j hj hne
    have hji : j ≠ i := fun heq => hne (by simp [htpNum, heq])
    rw [htpNum, Function.update_of_ne hji] at hne
    exact h.used j hj hne
  case decFactor =>
    intro j hj
    rw [hentry]
    split
    · rfl
    · exact h.decFactor j hj
  case dataType =>
    intro j hj
    rw [hinfo]
    refine (setFloat_dataType s.dataInfo i j).trans ?_
    split
    · rfl
    · exact h.dataType j hj
  case denotes =>
    intro j hj hne
    have hji : j ≠ i := fun heq => hne (by simp [htpNum, heq])
    rw [htpNum, Function.update_of_ne hji] at hne
    rw [hentry, if_neg hji, htpNum, Function.update_of_ne hji]
    exact h.denotes j hj hne

omit [Zero K] in
theorem used_putSlot (hused : ∀ i < daqGdsMaxTpAllowed, s.tpNum i ≠ 0 → i < n) :
    ∀ i < daqGdsMaxTpAllowed, Function.update s.tpNum slot tpn i ≠ 0 → i < max n (slot + 1) := by
  intro i hi hne
  by_cases his : i = slot
  · omega
  · rw [Function.update_of_ne his] at hne
    exact lt_max_of_lt_left (hused i hi hne)

theorem SlotsDescribed.putSlot (h : SlotsDescribed daqRange n s)
    (hslot : emptySlot s.tpNum = some slot) {lt : DaqLkupTable → DaqLkupTable}
    (hlt : ∀ old, (lt old).decFactor = 1 ∧ EntryFor K daqRange tpn (lt old)) :
    SlotsDescribed daqRange (max n (slot + 1)) (s.putSlot slot tpn lt) := by
  obtain ⟨hbound, -, -⟩ := emptySlot_eq_some.mp hslot
  have hle := emptySlot_le h.used hslot
  have htpNum : (s.putSlot slot tpn lt).tpNum = Function.update s.tpNum slot tpn := rfl
  constructor
  case bound => exact max_le h.bound hbound
  case used => exact used_putSlot h.used
  case decFactor =>
    intro j hj
    rw [slotEntry_putSlot]
    split
    · exact (hlt _).1
    · exact h.decFactor j (by omega)
  case dataType =>
    intro j hj
    refine (setFloat_dataType s.dataInfo slot j).trans ?_
    split
    · rfl
    · exact h.dataType j (by omega)
  case denotes =>
    intro j hj hne
    rw [slotEntry_putSlot]
    rw [htpNum] at hne ⊢
    by_cases hjs : j = slot
    · rw [if_pos hjs, hjs, Function.update_self]
      exact (hlt _).2
    · rw [if_neg hjs, Function.update_of_ne hjs]
      rw [Function.update_of_ne hjs] at hne
      exact h.denotes j (by omega) hne

variable (sysRate) in
/-- The slots after the look at the GDS tables, before they are counted. -/
theorem SlotsDescribed.updateSlots (h : SlotsDescribed daqRange n s)
    (hrange : RangesOk daqRange) (inp : DaqCall K) :
    ∃ k, SlotsDescribed daqRange k (updateSlots sysRate daqRange s inp) := by
  refine updateSlots_induction (fun s => ∃ k, SlotsDescribed daqRange k s) ?_ ?_ ?_ ⟨n, h⟩
  · rintro s i - ⟨k, hk⟩ -
    exact ⟨k, hk.deselectSlot i⟩
  · rintro s slot tpn ⟨k, hk⟩ - hslot
    rcases selectTp_cases hrange s slot tpn with hsame | ⟨lt, hput, hlt⟩
    · rw [hsame]
      exact ⟨k, hk⟩
    · rw [hput]
      exact ⟨_, hk.putSlot hslot hlt⟩
  · rintro s slot tpn ii ⟨k, hk⟩ - hslot
    rcases selectExc_cases hrange s slot tpn ii with hsame | ⟨exc, lt, hput, hlt⟩
    · rw [hsame]
      exact ⟨k, hk⟩
    · have hexc : SlotsDescribed daqRange k ({ s with excTable := exc } : DaqState K) :=
        { hk with }
      rw [hput]
      exact ⟨_, hexc.putSlot hslot hlt⟩

/-! ## The look at the GDS tables -/

theorem foldl_deselect_allFound {l : GdsLists} {is : List ℕ} (h : AllFound s l is) :
    (is.foldl deselect (s, l)).1 = s := by
  induction is generalizing l with
  | nil => rfl
  | cons i is ih =>
    rw [List.foldl_cons, deselect]
    unfold AllFound at h
    by_cases hzero : s.tpNum i = 0
    · rw [if_pos hzero] at h
      rw [if_pos hzero]
      exact ih h
    · rw [if_neg hzero] at h
      rw [if_neg hzero]
      dsimp only
      rw [if_pos h.1]
      exact ih h.2

omit [Zero K] in
theorem ne_emptySlot (hslot : emptySlot s.tpNum = some slot) (hi : s.tpNum i ≠ 0) : i ≠ slot := by
  rintro rfl
  exact hi (emptySlot_eq_some.mp hslot).2.1

theorem selectTp_keeps (hrange : RangesOk daqRange) (hslot : emptySlot s.tpNum = some slot)
    (hi : s.tpNum i ≠ 0) : (selectTp daqRange s slot tpn).tpNum i = s.tpNum i := by
  rcases selectTp_cases hrange s slot tpn with hsame | ⟨lt, hput, -⟩
  · rw [hsame]
  · rw [hput]
    exact Function.update_of_ne (ne_emptySlot hslot hi) _ _

theorem selectExc_keeps (hrange : RangesOk daqRange) (hslot : emptySlot s.tpNum = some slot)
    (hi : s.tpNum i ≠ 0) (ii : ℕ) : (selectExc daqRange s slot tpn ii).tpNum i = s.tpNum i := by
  rcases selectExc_cases hrange s slot tpn ii with hsame | ⟨exc, lt, hput, -⟩
  · rw [hsame]
  · rw [hput]
    exact Function.update_of_ne (ne_emptySlot hslot hi) _ _

theorem updateSlots_keeps (hrange : RangesOk daqRange)
    (hfound : AllFound s (gdsLists sysRate inp) (List.range daqGdsMaxTpAllowed))
    (hi : s.tpNum i ≠ 0) : (updateSlots sysRate daqRange s inp).tpNum i = s.tpNum i := by
  unfold updateSlots
  dsimp only
  rw [foldl_deselect_allFound hfound]
  refine selectNew_induction (fun t => t.tpNum i = s.tpNum i) ?_ ?_ rfl _
  · intro t slot tpn ht _ hslot
    exact (selectTp_keeps hrange hslot (ht ▸ hi)).trans ht
  · intro t slot tpn ii ht _ hslot
    exact (selectExc_keeps hrange hslot (ht ▸ hi) ii).trans ht

/-! ## The lists for the network -/

/-- The list for the network names numbers that are in their slots, and the sizes are those of
the channels and slots. -/
structure AnnounceOk (sysRate : ℕ) (daqRange : DaqRange) (s : DaqState K) : Prop where
  layout : LayoutOk sysRate s
  slots : SlotsDescribed daqRange s.validTp s
  valid : s.validTp = numTps s.tpNum daqGdsMaxTpAllowed
  chans : s.totalChans = s.dataInfo.numChans + s.validTp
  offset : ∀ i < s.validTp, (slotEntry s i).offset = s.tpStart + sysRate * 4 * i
  totalSize : s.xferInfo.totalSize = s.xferInfo.crcLength + s.validTp * sysRate * 4
  totalSizeNet : s.xferInfo.totalSizeNet = s.xferInfo.crcLength + s.validTpNet * sysRate * 4
  net_le : s.validTpNet ≤ s.validTp
  net : ∀ j < s.validTpNet, s.tpNumNet j ≠ 0 → s.tpNum j = s.tpNumNet j

theorem AnnounceOk.rowsOk (h : AnnounceOk sysRate daqRange s) : RowsOk sysRate s :=
  ⟨h.chans, h.slots.decFactor, h.slots.dataType, h.offset⟩

theorem AnnounceOk.updateNet (h : AnnounceOk sysRate daqRange s) :
    AnnounceOk sysRate daqRange (updateNet s) :=
  { h with
    layout := { h.layout with }
    slots := { h.slots with }
    totalSizeNet := h.totalSize
    net_le := le_rfl
    net := fun _ hj _ => (if_pos hj).symm }

theorem AnnounceOk.announce (h : AnnounceOk sysRate daqRange s) :
    AnnounceOk sysRate daqRange (announce s) :=
  { h with layout := { h.layout with }, slots := { h.slots with } }

theorem AnnounceOk.congr (h : AnnounceOk sysRate daqRange s) (hs : SameBlock s t) :
    AnnounceOk sysRate daqRange t := by
  have hentry : ∀ i, slotEntry t i = slotEntry s i := by
    intro i
    unfold slotEntry
    rw [hs.localTable, hs.dataInfo]
  constructor
  case layout => exact h.layout.congr hs
  case slots =>
    constructor
    all_goals simp only [hentry, hs.validTp, hs.tpNum, hs.dataInfo]
    case bound => exact h.slots.bound
    case used => exact h.slots.used
    case decFactor => exact h.slots.decFactor
    case dataType => exact h.slots.dataType
    case denotes => exact h.slots.denotes
  all_goals simp only [hentry, hs.validTp, hs.validTpNet, hs.tpNum, hs.tpNumNet, hs.totalChans,
    hs.dataInfo, hs.xferInfo, hs.tpStart]
  case valid => exact h.valid
  case chans => exact h.chans
  case offset => exact h.offset
  case totalSize => exact h.totalSize
  case totalSizeNet => exact h.totalSizeNet
  case net_le => exact h.net_le
  case net => exact h.net

/-- A configuration is loaded while no slot is in use. -/
theorem AnnounceOk.reconfigure {pInfo : DaqInfoBlock} (h : AnnounceOk sysRate daqRange s)
    (hacc : Accepted B sysRate daqRange s pInfo) (hnone : s.validTp = 0) :
    AnnounceOk sysRate daqRange (reconfigure B sysRate daqRange s pInfo) := by
  obtain ⟨info, x, lt, hist, start, total, hupdate, hloaded⟩ := reconfigure_eq hacc
  have hnet := Nat.le_zero.mp (hnone ▸ h.net_le)
  have hvalid : (Drv.reconfigure B sysRate daqRange s pInfo).validTp = 0 := by rw [hupdate, ← hnone]
  have hvalidNet : (Drv.reconfigure B sysRate daqRange s pInfo).validTpNet = 0 := by
    rw [hupdate, ← hnet]
  have htpNum : (Drv.reconfigure B sysRate daqRange s pInfo).tpNum = s.tpNum := by rw [hupdate]
  constructor
  case layout => exact hloaded.layoutOk
  case slots =>
    rw [hvalid]
    constructor
    case bound => exact Nat.zero_le _
    case used =>
      intro i hi hne
      rw [htpNum] at hne
      have hlt := h.slots.used i hi hne
      omega
    all_goals exact fun i hi => absurd hi (Nat.not_lt_zero i)
  case valid => rw [hvalid, htpNum, ← hnone, h.valid]
  case chans => rw [hvalid, hloaded.totalChans, Nat.add_zero]
  case offset =>
    rw [hvalid]
    exact fun i hi => absurd hi (Nat.not_lt_zero i)
  case totalSize => simp [hvalid, hloaded.xfer.totalSize, hloaded.xfer.crcLength]
  case totalSizeNet => simp [hvalidNet, hloaded.xfer.totalSizeNet, hloaded.xfer.crcLength]
  case net_le => rw [hvalid, hvalidNet]
  case net =>
    rw [hvalidNet]
    exact fun i hi => absurd hi (Nat.not_lt_zero i)

/-- The look at the GDS tables, when every number in a slot is still in its list. -/
theorem AnnounceOk.checkTps (h : AnnounceOk sysRate daqRange s) (hrange : RangesOk daqRange)
    (hfound : AllFound s (gdsLists sysRate inp) (List.range daqGdsMaxTpAllowed)) :
    AnnounceOk sysRate daqRange (checkTps sysRate daqRange s inp) := by
  have hlayout := h.layout.checkTps daqRange inp
  have hkeeps := fun i => updateSlots_keeps (i := i) hrange hfound
  obtain ⟨k, hk⟩ := h.slots.updateSlots sysRate hrange inp
  obtain ⟨_, _, _, _, _, _, hupdate, -⟩ :=
    slotChange_updateSlots sysRate daqRange s inp
  have hnet : (updateSlots sysRate daqRange s inp).validTpNet = s.validTpNet := by rw [hupdate]
  have hnetNum : (updateSlots sysRate daqRange s inp).tpNumNet = s.tpNumNet := by rw [hupdate]
  have hxfer : (updateSlots sysRate daqRange s inp).xferInfo = s.xferInfo := by rw [hupdate]
  clear hupdate
  unfold Drv.checkTps at hlayout ⊢
  generalize updateSlots sysRate daqRange s inp = u at *
  rw [countTps_eq] at hlayout ⊢
  have hle : numTps u.tpNum daqGdsMaxTpAllowed ≤ k := numTps_le_of hk.used
  have hentry : ∀ i < numTps u.tpNum daqGdsMaxTpAllowed,
      withOffsets sysRate u (numTps u.tpNum daqGdsMaxTpAllowed) (u.dataInfo.numChans + i) =
        { slotEntry u i with offset := u.tpStart + sysRate * 4 * i } := by
    intro i hi
    unfold withOffsets
    rw [if_pos (by omega), Nat.add_sub_cancel_left]
    rfl
  constructor
  case layout => exact hlayout
  case slots =>
    constructor
    case bound => exact numTps_le _ _
    case used => exact fun i hi hne => lt_numTps hi hne
    case decFactor =>
      intro i hi
      unfold slotEntry
      dsimp only
      rw [hentry i hi]
      exact hk.decFactor i (lt_of_lt_of_le hi hle)
    case dataType => exact fun i hi => hk.dataType i (lt_of_lt_of_le hi hle)
    case denotes =>
      intro i hi hne
      unfold slotEntry
      dsimp only
      rw [hentry i hi]
      exact hk.denotes i (lt_of_lt_of_le hi hle) hne
  case valid | chans => rfl
  case offset =>
    intro i hi
    unfold slotEntry
    dsimp only
    rw [hentry i hi]
  case totalSize => rfl
  case totalSizeNet =>
    dsimp only
    rw [hxfer, hnet, h.totalSizeNet]
  case net_le =>
    dsimp only
    rw [hnet]
    refine h.net_le.trans ?_
    rw [h.valid]
    refine numTps_mono fun i _ hne => ?_
    rw [hkeeps i hne]
    exact hne
  case net =>
    intro j hj hne
    dsimp only at hj hne ⊢
    rw [hnet] at hj
    rw [hnetNum] at hne ⊢
    have hslot := h.net j hj hne
    rw [hkeeps j (hslot ▸ hne), hslot]

/-- At the start no slot is in use. -/
theorem TablesLoaded.announceOk {pInfo : DaqInfoBlock} (h : TablesLoaded sysRate s pInfo t)
    (hstart : Connected sysRate t) : AnnounceOk sysRate daqRange t := by
  have hnone : ∀ i, ¬ i < t.validTp := by
    rw [hstart.validTp]
    exact Nat.not_lt_zero
  have hnoneNet : ∀ i, ¬ i < t.validTpNet := by
    rw [hstart.validTpNet]
    exact Nat.not_lt_zero
  constructor
  case layout => exact h.layoutOk
  case slots =>
    constructor
    case bound =>
      rw [hstart.validTp]
      exact Nat.zero_le _
    case used => exact fun i hi hne => absurd (hstart.tpNum i hi) hne
    all_goals exact fun i hi => absurd hi (hnone i)
  case valid =>
    rw [hstart.validTp]
    exact (Nat.le_zero.mp (numTps_le_of fun i hi hne => absurd (hstart.tpNum i hi) hne)).symm
  case chans => rw [hstart.validTp, h.totalChans, Nat.add_zero]
  case offset => exact fun i hi => absurd hi (hnone i)
  case totalSize => simp [hstart.validTp, h.xfer.totalSize, h.xfer.crcLength]
  case totalSizeNet => simp [hstart.validTpNet, h.xfer.totalSizeNet, h.xfer.crcLength]
  case net_le => rw [hstart.validTp, hstart.validTpNet]
  case net => exact fun j hj => absurd hj (hnoneNet j)

/-! ## Runs -/

variable [Add K] [Sub K] [Mul K]

/-- The cycle ends a block in which the GDS tables are looked at. -/
def ChecksTps (sysRate : ℕ) (s : DaqState K) : Prop :=
  (s.daqSlot + 1) % sysRate = sysRate - 1 ∧ (s.daqBlockNum + 1) % daqNumDataBlocks = 15

instance (s : DaqState K) : Decidable (ChecksTps sysRate s) :=
  inferInstanceAs (Decidable (_ ∧ _))

/-- If slots are in use, their entries fit in the table, the two ways to add up the sizes of the
channels agree, and nothing else is written behind the channels. -/
def TpsBehind (sysRate : ℕ) (s : DaqState K) : Prop :=
  s.validTp = 0 ∨ (s.dataInfo.numChans + s.validTp ≤ dcuMaxChannels ∧
    daqDataLength s.dataInfo = chanOffset sysRate s.dataInfo s.dataInfo.numChans ∧
    TpsApart sysRate s.dataInfo)

/-- A cycle after which the announced lists are right. -/
structure AnnounceStep (B : DaqBuild K) (sysRate : ℕ) (daqRange : DaqRange) (s : DaqState K)
    (inp : DaqCall K) : Prop where
  reconfig : Reconfigures sysRate s inp → Accepted B sysRate daqRange s inp.pInfo ∧ s.validTp = 0
  found : ChecksTps sysRate s →
    AllFound s (gdsLists sysRate inp) (List.range daqGdsMaxTpAllowed)
  behind : TpsBehind sysRate s

theorem AnnounceOk.daqWrite (h : AnnounceOk sysRate daqRange s) (hrange : RangesOk daqRange)
    (hstep : AnnounceStep B sysRate daqRange s inp) :
    AnnounceOk sysRate daqRange (daqWrite B sysRate daqRange s inp) := by
  obtain ⟨hsame, hslot, -, -⟩ := cycleBody_spec B sysRate s inp
  have hbody : AnnounceOk sysRate daqRange (cycleBody B sysRate s inp) := h.congr hsame
  rw [daqWrite_eq]
  by_cases hlast : (cycleBody B sysRate s inp).daqSlot = sysRate - 1
  · have hann := hbody.announce
    have hnum : (Drv.announce (cycleBody B sysRate s inp)).daqBlockNum =
        (s.daqBlockNum + 1) % daqNumDataBlocks := by
      rw [Drv.announce, hsame.daqBlockNum]
    rw [if_pos hlast, endBlock_eq, hnum]
    rw [hslot] at hlast
    split
    · rename_i hcheck
      exact hann.checkTps hrange ((hstep.found ⟨hlast, hcheck⟩).congr hsame.tpNum hsame.excTable)
    · split
      · rename_i hzero
        refine AnnounceOk.updateNet ?_
        split
        · rename_i hnew
          obtain ⟨hacc, hnone⟩ := hstep.reconfig ⟨hlast, hzero, hnew⟩
          have hacc' : Accepted B sysRate daqRange (cycleBody B sysRate s inp) inp.pInfo :=
            hacc.congr hsame
          exact hann.reconfigure hacc' (hsame.validTp.trans hnone)
        · exact hann
      · exact hann
  · rw [if_neg hlast]
    exact hbody

/-- The run of cycles after which the announced lists are right. -/
def AnnounceRun (B : DaqBuild K) (sysRate : ℕ) (daqRange : DaqRange) (s : DaqState K)
    (inps : List (DaqCall K)) : Prop :=
  StepsMeet (daqWrite B sysRate daqRange) (AnnounceStep B sysRate daqRange) s inps

theorem cycles_pWriteBuffer {block : List (DaqCall K)} (hslot : s.daqSlot = sysRate - 1)
    (hlen : block.length = sysRate) (hpos : 0 < sysRate) (inps : List (DaqCall K)) :
    (cycles B sysRate daqRange s (block ++ inps)).pWriteBuffer =
      bufSize * (cycles B sysRate daqRange s (block ++ inps)).daqXmitBlockNum := by
  have hend : ∀ (t : DaqState K) (inp : DaqCall K),
      (endBlock B sysRate daqRange t inp).pWriteBuffer =
        bufSize * (endBlock B sysRate daqRange t inp).daqXmitBlockNum := by
    intro t inp
    have hpub := samePublished_endBlock B sysRate daqRange t inp
    rw [hpub.pWriteBuffer, hpub.daqXmitBlockNum]
    rfl
  induction inps using List.reverseRecOn with
  | nil =>
    rcases List.eq_nil_or_concat' block with rfl | ⟨as, inp, rfl⟩
    · exact absurd hlen hpos.ne
    · rw [List.append_nil, cycles_block hslot (by simpa using hlen) inp]
      exact hend _ _
  | append_singleton inps inp ih =>
    rw [← List.append_assoc, cycles_append]
    generalize cycles B sysRate daqRange s (block ++ inps) = t at ih
    show (Drv.daqWrite B sysRate daqRange t inp).pWriteBuffer =
      bufSize * (Drv.daqWrite B sysRate daqRange t inp).daqXmitBlockNum
    rw [daqWrite_eq]
    split
    · exact hend _ _
    · have hsame := (cycleBody_spec B sysRate t inp).1
      rw [hsame.pWriteBuffer, hsame.daqXmitBlockNum]
      exact ih

variable (B sysRate) in
/-- The indicator of excitations is not in the low bits of the number of test points. -/
theorem cycleBody_validEx (s : DaqState K) (inp : DaqCall K) :
    (cycleBody B sysRate s inp).validEx % 256 = 0 := by
  have hset : feErrorExcSet % 256 = 0 := by decide
  have hfold : ∀ (l : List ℕ) (t : DaqState K), t.validEx % 256 = 0 →
      (l.foldl (readExc inp) t).validEx % 256 = 0 := by
    intro l
    induction l with
    | nil => exact fun t ht => ht
    | cons ii l ih =>
      intro t ht
      refine ih _ ?_
      unfold readExc
      dsimp only
      split
      · split
        · split
          · exact hset
          · exact ht
        · split
          · exact hset
          · exact ht
      · exact ht
  unfold cycleBody readExcs
  dsimp only
  split
  all_goals exact hfold _ _ rfl

/-- The block is announced with a list that describes it: behind `crc` bytes each number that is
not 0 has the values of its signal at the cycles. -/
def Described (B : DaqBuild K) (sysRate : ℕ) (daqRange : DaqRange) (s : DaqState K)
    (block : List (DaqCall K)) : Prop :=
  let t := cycles B sysRate daqRange s block
  let c := t.dipc.cycle
  let n := t.tpPtr.count % 256
  ∃ crc : ℕ, t.dipc.bpCrc c = crc ∧ t.dipc.dataBlockSize = crc + 4 * sysRate * n ∧
    ∀ j < n, t.tpPtr.tpNum j ≠ 0 → ∀ as inp bs, block = as ++ inp :: bs →
      bytesAt t.mem (bufSize * c + crc + 4 * sysRate * j + 4 * as.length) 4 =
        leBytes 4 (B.toFloat
          (signal daqRange (cycles B sysRate daqRange s as) inp (t.tpPtr.tpNum j)))

theorem AnnounceOk.described (h : AnnounceOk sysRate daqRange s) (hslot : s.daqSlot = sysRate - 1)
    (hbuffer : s.pWriteBuffer = bufSize * s.daqXmitBlockNum) (hbehind : TpsBehind sysRate s)
    {block : List (DaqCall K)} (hlen : block.length = sysRate) (hpos : 0 < sysRate) :
    Described B sysRate daqRange s block := by
  rcases List.eq_nil_or_concat' block with rfl | ⟨pre, last, rfl⟩
  · exact absurd hlen hpos.ne
  have hpre : pre.length < sysRate := by
    rw [List.length_append, List.length_singleton] at hlen
    omega
  have hsame : SameBlock s (cycleBody B sysRate (cycles B sysRate daqRange s pre) last) :=
    (cycles_within _ _ hslot hpre).1.trans (cycleBody_spec _ _ _ _).1
  have hex := cycleBody_validEx B sysRate (cycles B sysRate daqRange s pre) last
  have hpub := samePublished_endBlock B sysRate daqRange
    (cycleBody B sysRate (cycles B sysRate daqRange s pre) last) last
  rw [← cycles_block hslot (by simpa using hlen) last] at hpub
  generalize cycleBody B sysRate (cycles B sysRate daqRange s pre) last = u at hsame hex hpub
  -- what is announced, in terms of the state at the start of the block
  have hcycle : (cycles B sysRate daqRange s (pre ++ [last])).dipc.cycle = s.daqXmitBlockNum := by
    rw [hpub.dipc, Drv.announce, hsame.daqXmitBlockNum]
  have hcrc : (cycles B sysRate daqRange s (pre ++ [last])).dipc.bpCrc s.daqXmitBlockNum =
      daqDataLength s.dataInfo := by
    rw [hpub.dipc, Drv.announce, hsame.daqXmitBlockNum, hsame.xferInfo, ← h.layout.crcLength]
    exact Function.update_self _ _ _
  have hsize : (cycles B sysRate daqRange s (pre ++ [last])).dipc.dataBlockSize =
      s.xferInfo.totalSizeNet := by
    rw [hpub.dipc, Drv.announce, hsame.xferInfo]
  have hnet : s.validTpNet < 256 := by
    have hbound := h.net_le.trans h.slots.bound
    unfold daqGdsMaxTpAllowed at hbound
    omega
  have hcount : (cycles B sysRate daqRange s (pre ++ [last])).tpPtr.count % 256 =
      s.validTpNet := by
    rw [hpub.tpPtr, Drv.announce, hsame.validTpNet]
    show (s.validTpNet ||| u.validEx) % 2 ^ 8 = s.validTpNet
    rw [Nat.or_mod_two_pow, show u.validEx % 2 ^ 8 = 0 from hex, Nat.or_zero]
    exact Nat.mod_eq_of_lt hnet
  unfold Described
  dsimp only
  rw [hcycle, hcount]
  refine ⟨daqDataLength s.dataInfo, hcrc, ?_, fun j hj hne as inp bs hblock => ?_⟩
  · rw [hsize, h.totalSizeNet, h.layout.crcLength]
    ring
  · have hvalid : j < s.validTp := lt_of_lt_of_le hj h.net_le
    have hnum : (cycles B sysRate daqRange s (pre ++ [last])).tpPtr.tpNum j = s.tpNumNet j := by
      rw [hpub.tpPtr, Drv.announce, hsame.validTp, hsame.tpNumNet]
      exact if_pos hvalid
    rw [hnum] at hne ⊢
    have hslotNum := h.net j hj hne
    rcases hbehind with hnone | ⟨-, hlength, hapart⟩
    · omega
    · rw [hblock] at hlen
      have hread := bytesAt_sample B daqRange hslot h.rowsOk h.layout hapart
        hvalid hlen
      rw [hblock]
      have hdenotes := h.slots.denotes j hvalid (hslotNum ▸ hne)
      rw [hdenotes, hslotNum] at hread
      have haddr : bufSize * s.daqXmitBlockNum + daqDataLength s.dataInfo + 4 * sysRate * j +
          4 * as.length = s.pWriteBuffer + (s.tpStart + sysRate * 4 * j) + as.length * 4 := by
        rw [hbuffer, hlength, h.layout.tpStart]
        ring
      rw [haddr]
      exact hread

/-- Every announced block but the first is described by its list, in every run in which no
configuration is loaded while slots are in use, no number leaves its slot, and nothing else is
written behind the channels while slots are in use. -/
theorem announced_blocks_described (B : DaqBuild K) (sysRate filtExMin filtTpMin : ℕ)
    (hpos : 0 < sysRate) (daqRange : DaqRange)
    (hrange : daqRange = controllerRange filtExMin filtTpMin B.maxModules)
    (hapart : filtExMin + B.maxModules + gdsMaxNfmExc ≤ filtTpMin) (s0 s1 : DaqState K)
    (pInfo : DaqInfoBlock) (hconnect : daqConnect B sysRate daqRange s0 pInfo = some s1)
    (first inps block : List (DaqCall K)) (n : ℕ) (hfirst : first.length = sysRate)
    (hinps : inps.length = n * sysRate) (hblock : block.length = sysRate)
    (hrun : AnnounceRun B sysRate daqRange s1 (first ++ inps ++ block)) :
    Described B sysRate daqRange (cycles B sysRate daqRange s1 (first ++ inps)) block := by
  obtain ⟨hloaded, hstart, -, -⟩ := daqConnect_ok hconnect
  have hranges : RangesOk daqRange := by
    rw [hrange]
    exact rangesOk_controllerRange hapart
  have hok : AnnounceOk sysRate daqRange s1 := hloaded.announceOk hstart
  obtain ⟨hbefore, hlast⟩ := stepsMeet_append.mp hrun
  have hall : AnnounceOk sysRate daqRange (cycles B sysRate daqRange s1 (first ++ inps)) :=
    foldl_invariant (AnnounceOk sysRate daqRange) (fun s inp hs hstep => hs.daqWrite hranges hstep)
      hok hbefore
  have hslot : (cycles B sysRate daqRange s1 (first ++ inps)).daqSlot = sysRate - 1 := by
    refine cycles_blocks (n := n + 1) hpos hstart.daqSlot ?_
    rw [List.length_append, hfirst, hinps, Nat.succ_mul, Nat.add_comm]
  have hbehind : TpsBehind sysRate (cycles B sysRate daqRange s1 (first ++ inps)) := by
    cases block with
    | nil => exact absurd hblock hpos.ne
    | cons inp block => exact hlast.1.behind
  exact hall.described hslot (cycles_pWriteBuffer hstart.daqSlot hfirst hpos inps) hbehind hblock
    hpos

end Run

/-- A call with the test point 10001 in its table. -/
def tpCall : DaqCall ℤ :=
  { quietCall with gdsTp := fun table i => if table = 3 ∧ i = 0 then 10001 else 0 }

/-- A call after which the test point is not in its table any more, and its signal is 1. -/
def lastCall : DaqCall ℤ := { quietCall with filterInput := fun _ => 1 }

/-- The state before the cycle `k` of a run with the test point. -/
def tpState (k : ℕ) : DaqState ℤ :=
  cycles plainBuild 1 plainRange ((started 1 [⟨10002, daqDatatypeFloat, 16⟩]).get rfl)
    (List.replicate k tpCall)

theorem announceStep_tpState {k : ℕ} (hk : k < 18) :
    AnnounceStep plainBuild 1 plainRange (tpState k) tpCall := by
  have hcheck : ∀ k < 18, ChecksTps 1 (tpState k) →
      ∀ i ∈ List.range daqGdsMaxTpAllowed, (tpState k).tpNum i = 0 := by decide +kernel
  have hroom : ∀ k < 18,
      (tpState k).dataInfo.numChans + (tpState k).validTp ≤ dcuMaxChannels ∧
        daqDataLength (tpState k).dataInfo =
          chanOffset 1 (tpState k).dataInfo (tpState k).dataInfo.numChans ∧
        epicsLength (tpState k).dataInfo 1 ≤
          chanOffset 1 (tpState k).dataInfo (tpState k).dataInfo.numChans := by decide +kernel
  obtain ⟨hfits, hlength, hepics⟩ := hroom k hk
  refine ⟨fun h => absurd h.2.2 (by decide), fun h => allFound_of_zero (hcheck k hk h), ?_⟩
  refine Or.inr ⟨hfits, hlength, ⟨fun i _ d hd hpos _ => ?_, hepics⟩⟩
  omega

theorem announced_blocks_described_one_tp :
    ∃ s, started 1 [⟨10002, daqDatatypeFloat, 16⟩] = some s ∧
      (cycles plainBuild 1 plainRange s (List.replicate 18 tpCall)).tpPtr.tpNum 0 = 10001 ∧
      Described plainBuild 1 plainRange
        (cycles plainBuild 1 plainRange s ([tpCall] ++ List.replicate 16 tpCall)) [tpCall] := by
  have hstart : started 1 [⟨10002, daqDatatypeFloat, 16⟩] =
      some ((started 1 [⟨10002, daqDatatypeFloat, 16⟩]).get rfl) := (Option.some_get _).symm
  refine ⟨_, hstart, by decide +kernel, ?_⟩
  refine announced_blocks_described plainBuild 1 gds16kExcMin gds16kTpMin (by decide) plainRange rfl
    (by decide) bootState _ (plainInfo [⟨10002, daqDatatypeFloat, 16⟩]) hstart [tpCall]
    (List.replicate 16 tpCall) [tpCall] 16 rfl rfl rfl ?_
  exact stepsMeet_replicate (n := 18) fun k hk => announceStep_tpState hk

/-- The test point is taken from its table at the end of a second. -/
theorem cleared_number_announced :
    ∃ s, started 1 [⟨10002, daqDatatypeFloat, 16⟩] = some s ∧
      ¬ Described plainBuild 1 plainRange
        (cycles plainBuild 1 plainRange s (List.replicate 31 tpCall ++ [quietCall]))
          [lastCall] := by
  refine ⟨(started 1 [⟨10002, daqDatatypeFloat, 16⟩]).get rfl, (Option.some_get _).symm, ?_⟩
  rintro ⟨crc, hcrc, -, hdata⟩
  have hvalue := hdata 0 (by decide +kernel) (by decide +kernel) [] lastCall [] rfl
  have hlength : crc = 48 := by
    have hannounced : (48 : ℤ) = crc := Eq.trans (by decide +kernel) hcrc
    omega
  subst hlength
  revert hvalue
  decide +kernel

end AdvLigoRts.Drv
