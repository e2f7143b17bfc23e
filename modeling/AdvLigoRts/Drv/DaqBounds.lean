import AdvLigoRts.Drv.DaqSlots

/-!
# The bounds of the tables

`daqLib.c` keeps its tables in arrays of `DCU_MAX_CHANNELS` entries, and checks the number of
channels only.
-/

namespace AdvLigoRts.Drv

open PvLib

/-- A use of an array at an index, or a division by a number. -/
inductive Access where
  | localTable (i : ℤ)
  | tp (i : ℤ)
  | dHistory (i : ℤ)
  | divide (d : ℤ)
deriving DecidableEq

/-- The index is in the array, or the divisor is not zero. -/
def Access.Ok : Access → Prop
  | .localTable i | .tp i | .dHistory i => 0 ≤ i ∧ i < dcuMaxChannels
  | .divide d => d ≠ 0

/-! ## The connection -/

/-- The body of the loop of `loadLocalTable`, up to the tests of the test point number. -/
def loadChannelAccesses (sysRate : ℕ) (daqRange : DaqRange) (info : DaqInfoBlock) (ii : ℕ) :
    List Access :=
  let rate := (info.tp ii).dataRate / daqNumDataBlocks
  let tpnum := (info.tp ii).tpnum
  if rate > sysRate then [.tp ii]
  else [.tp ii, .divide rate, .localTable ii, .divide (sysRate / rate : ℕ),
      .localTable (ii + 1)] ++
    if daqRange.filtTpMin ≤ tpnum ∧ tpnum < daqRange.filtTpMax then [.divide daqRange.filtTpSize]
    else []

/-- `daqWrite` with `DAQ_CONNECT`: the histories are cleared, and `daqConfig` and
`loadLocalTable` go through the channels. -/
def connectAccesses (sysRate : ℕ) (daqRange : DaqRange) (info : DaqInfoBlock) : List Access :=
  ((List.range dcuMaxChannels).map fun ii => .dHistory ii) ++
    ((List.range info.numChans).map fun ii => .tp ii) ++ [.divide sysRate, .localTable 0] ++
    (List.range info.numChans).flatMap (loadChannelAccesses sysRate daqRange info)

/-! ## A cycle -/

section Cycle

variable {K : Type} (sysRate : ℕ) (daqRange : DaqRange) (numChans : ℤ)

/-- The channel `ii` in the loop that writes the samples. -/
def sampleAccesses (s : DaqState K) (ii : ℕ) : List Access :=
  let decFactor := (s.localTable ii).decFactor
  [.localTable ii, .tp ii, .divide decFactor] ++
    if (s.dataInfo.tp ii).dataType ≠ daqDatatype32BitUint then
      if decFactor ∈ [2, 4, 8, 16, 32, 64, 128, 256] then [.dHistory ii] else []
    else if decFactor ≠ 1 then [.dHistory ii] else []

/-- The slots that `totalChans` counts. -/
def slotsCounted (s : DaqState K) : ℕ := s.totalChans - s.dataInfo.numChans

/-- The loops over all channels and over the slots of the excitations. -/
def writeAccesses (s : DaqState K) : List Access :=
  .divide sysRate :: (List.range (numChans + slotsCounted s).toNat).flatMap (sampleAccesses s) ++
    (List.range (slotsCounted s)).map fun i => .localTable (numChans + i)

/-- The body of the loop that clears deselected numbers. -/
def deselectAccesses (s : DaqState K × GdsLists) (i : ℕ) : List Access :=
  if s.1.tpNum i = 0 ∨ (inTheLists s.1.excTable (s.1.tpNum i) i s.2).1 then []
  else [.localTable (numChans + i), .tp (numChans + i)]

/-- The number at the place `p` of the lists comes to the slot. -/
def selectAccesses (l : GdsLists) (slot p : ℕ) : List Access :=
  let tpn := l.place p
  let put (divisions : List Access) : List Access :=
    [.localTable (numChans + slot), .tp (numChans + slot)] ++ divisions
  if p ≥ daqGdsMaxTpAllowed then
    if daqRange.filtExMin ≤ tpn ∧ tpn < daqRange.filtExMax then put [.divide daqRange.filtExSize]
    else if daqRange.xExMin ≤ tpn ∧ tpn < daqRange.xExMax then put [] else []
  else if daqRange.filtTpMin ≤ tpn ∧ tpn < daqRange.filtTpMax then
    put [.divide daqRange.filtTpSize]
  else if daqRange.xTpMin ≤ tpn ∧ tpn < daqRange.xTpMax then put [] else []

/-- The loop that puts new numbers into empty slots. -/
def selectNewAccesses (l : GdsLists) (s : DaqState K) : List ℕ → List Access
  | [] => []
  | p :: is =>
    if l.place p = 0 then selectNewAccesses l s is
    else
      match emptySlot s.tpNum with
      | none => []
      | some slot => selectAccesses daqRange numChans l slot p ++
          selectNewAccesses l (selectAt daqRange l s slot p) is

variable [Zero K]

/-- The look at the GDS tables: both passes over the slots, and the offsets. -/
def checkAccesses (s : DaqState K) (inp : DaqCall K) : List Access :=
  let slots := List.range daqGdsMaxTpAllowed
  let r := slots.foldl deselect (s, gdsLists sysRate inp)
  foldlLog (deselectAccesses numChans) deselect (s, gdsLists sysRate inp) slots ++
    selectNewAccesses daqRange numChans r.2 r.1 (List.range (2 * daqGdsMaxTpAllowed)) ++
    (List.range (checkTps sysRate daqRange s inp).validTp).map fun i => .localTable (numChans + i)

variable [Add K] [Sub K] [Mul K]

/-- A cycle in which no configuration is loaded. -/
def cycleAccesses (B : DaqBuild K) (s : DaqState K) (inp : DaqCall K) : List Access :=
  writeAccesses sysRate numChans s ++
    if ChecksTps sysRate s then
      checkAccesses sysRate daqRange numChans (announce (cycleBody B sysRate s inp)) inp
    else []

/-- No index is outside its array and no divisor is zero, at the connection and in every run after
it in which no configuration is loaded. -/
def StaysInBounds (B : DaqBuild K) (s : DaqState K) : Prop :=
  (∀ a ∈ connectAccesses sysRate daqRange s.dataInfo, a.Ok) ∧
    ∀ inps : List (DaqCall K), (∀ inp ∈ inps, inp.reconfig ≠ 1) →
      StepsMeet (daqWrite B sysRate daqRange)
        (fun s inp => ∀ a ∈ cycleAccesses sysRate daqRange numChans B s inp, a.Ok) s inps

end Cycle

/-! ## Slots -/

section Bounds

variable {K : Type} {B : DaqBuild K} {sysRate filtExMin filtTpMin : ℕ} {daqRange : DaqRange}
variable {s t s0 s1 : DaqState K} {inp : DaqCall K} {l : GdsLists} {i j k n p slot tpn : ℕ}
variable {numChans : ℤ}

/-- The first `n` slots hold all numbers, and no decimation factor among them is zero. -/
structure SlotsDivide (n : ℕ) (s : DaqState K) : Prop where
  bound : n ≤ daqGdsMaxTpAllowed
  used : ∀ i < daqGdsMaxTpAllowed, s.tpNum i ≠ 0 → i < n
  decFactor : ∀ i < n, (slotEntry s i).decFactor ≠ 0

theorem SlotsDivide.putSlot (h : SlotsDivide n s) (hslot : emptySlot s.tpNum = some slot)
    {e : ℕ → DaqExc} {lt : DaqLkupTable → DaqLkupTable} (hlt : ∀ old, (lt old).decFactor = 1) :
    SlotsDivide (max n (slot + 1))
      (({ s with excTable := e } : DaqState K).putSlot slot tpn lt) := by
  obtain ⟨hbound, -, -⟩ := emptySlot_eq_some.mp hslot
  have hle := emptySlot_le h.used hslot
  constructor
  case bound => exact max_le h.bound hbound
  case used => exact used_putSlot h.used
  case decFactor =>
    intro j hj
    rw [slotEntry_putSlot]
    split
    · rw [hlt]
      exact one_ne_zero
    · exact h.decFactor j (by omega)

theorem SlotsDivide.selectTp (h : SlotsDivide n s) (hslot : emptySlot s.tpNum = some slot) :
    ∃ n, SlotsDivide n (selectTp daqRange s slot tpn) := by
  unfold Drv.selectTp
  dsimp only
  split
  · exact ⟨_, h.putSlot (e := s.excTable) hslot fun _ => rfl⟩
  · split
    · exact ⟨_, h.putSlot (e := s.excTable) hslot fun _ => rfl⟩
    · exact ⟨n, h⟩

theorem SlotsDivide.selectExc (h : SlotsDivide n s) (hslot : emptySlot s.tpNum = some slot)
    (ii : ℕ) : ∃ n, SlotsDivide n (selectExc daqRange s slot tpn ii) := by
  unfold Drv.selectExc
  dsimp only
  split
  · exact ⟨_, h.putSlot hslot fun _ => rfl⟩
  · split
    · exact ⟨_, h.putSlot hslot fun _ => rfl⟩
    · exact ⟨n, h⟩

structure BoundsOk (n : ℕ) (s : DaqState K) : Prop where
  numChans : s.dataInfo.numChans = n
  channels : ∀ k < n, (s.localTable k).decFactor ≠ 0
  slots : SlotsDivide (slotsCounted s) s

theorem BoundsOk.congr (h : BoundsOk n s) (htpNum : t.tpNum = s.tpNum)
    (htable : t.localTable = s.localTable) (hinfo : t.dataInfo = s.dataInfo)
    (htotal : t.totalChans = s.totalChans) : BoundsOk n t := by
  obtain ⟨hchans, hchannels, hbound, hused, hdec⟩ := h
  refine ⟨?_, ?_, ?_, ?_, ?_⟩
  all_goals simp only [slotsCounted, slotEntry, htpNum, htable, hinfo, htotal]
  all_goals assumption

theorem BoundsOk.decFactor (h : BoundsOk n s) (hk : k < n + slotsCounted s) :
    (s.localTable k).decFactor ≠ 0 := by
  by_cases hkn : k < n
  · exact h.channels k hkn
  · have hslot := h.slots.decFactor (k - n) (by omega)
    rw [slotEntry, h.numChans, Nat.add_sub_cancel' (not_lt.mp hkn)] at hslot
    exact hslot

variable [Zero K]

theorem SlotsDivide.deselectSlot (h : SlotsDivide n s) (i : ℕ) :
    SlotsDivide n (deselectSlot s i) := by
  constructor
  case bound => exact h.bound
  case used =>
    intro j hj hne
    rw [deselectSlot_tpNum] at hne
    have hji : j ≠ i := fun heq => hne (by simp [heq])
    rw [Function.update_of_ne hji] at hne
    exact h.used j hj hne
  case decFactor =>
    intro j hj
    rw [slotEntry_deselectSlot]
    split
    · exact one_ne_zero
    · exact h.decFactor j hj

/-- The look at the lists. -/
theorem BoundsOk.checkTps (h : BoundsOk n s) (inp : DaqCall K) :
    BoundsOk n (checkTps sysRate daqRange s inp) := by
  obtain ⟨k, hk⟩ : ∃ k, SlotsDivide k (updateSlots sysRate daqRange s inp) := by
    refine updateSlots_induction (fun s => ∃ k, SlotsDivide k s) ?_ ?_ ?_ ⟨_, h.slots⟩
    · rintro s i - ⟨k, hk⟩ -
      exact ⟨k, hk.deselectSlot i⟩
    · rintro s slot tpn ⟨k, hk⟩ - hslot
      exact hk.selectTp hslot
    · rintro s slot tpn ii ⟨k, hk⟩ - hslot
      exact hk.selectExc hslot ii
  obtain ⟨_, _, _, _, _, _, hupdate, hchannels⟩ := slotChange_updateSlots sysRate daqRange s inp
  have hchans : (updateSlots sysRate daqRange s inp).dataInfo.numChans = n := by
    rw [hupdate, ← h.numChans]
  have hsame : ∀ i < n, (updateSlots sysRate daqRange s inp).localTable i = s.localTable i := by
    intro i hi
    rw [hupdate]
    exact (hchannels i (h.numChans.symm ▸ hi)).1
  unfold Drv.checkTps
  generalize updateSlots sysRate daqRange s inp = u at hk hchans hsame
  rw [countTps_eq]
  have hdec : ∀ k, (withOffsets sysRate u (numTps u.tpNum daqGdsMaxTpAllowed) k).decFactor =
      (u.localTable k).decFactor := by
    intro k
    unfold withOffsets
    split
    · rfl
    · rfl
  have hcount : numTps u.tpNum daqGdsMaxTpAllowed ≤ k := numTps_le_of hk.used
  constructor
  case numChans => exact hchans
  case channels =>
    intro i hi
    dsimp only
    rw [hdec, hsame i hi]
    exact h.channels i hi
  case slots =>
    rw [slotsCounted, Nat.add_sub_cancel_left]
    constructor
    case bound => exact numTps_le _ _
    case used => exact fun i hi hne => lt_numTps hi hne
    case decFactor =>
      intro i hi
      unfold slotEntry
      dsimp only
      rw [hdec]
      exact hk.decFactor i (lt_of_lt_of_le hi hcount)

/-! ## Within the bounds -/

/-- The code divides by the size of a range for a number in it only. -/
structure SizesOk (daqRange : DaqRange) : Prop where
  filtTp : ∀ n, daqRange.filtTpMin ≤ n ∧ n < daqRange.filtTpMax → daqRange.filtTpSize ≠ 0
  filtEx : ∀ n, daqRange.filtExMin ≤ n ∧ n < daqRange.filtExMax → daqRange.filtExSize ≠ 0

theorem sizesOk_controllerRange (filtExMin filtTpMin maxModules : ℕ) :
    SizesOk (controllerRange filtExMin filtTpMin maxModules) := by
  constructor
  case filtTp =>
    intro n hn
    show maxModules * 3 ≠ 0
    have hlt : n < filtTpMin + maxModules * 3 := hn.2
    have hle : filtTpMin ≤ n := hn.1
    omega
  case filtEx =>
    intro n hn
    show maxModules ≠ 0
    have hlt : n < filtExMin + maxModules := hn.2
    have hle : filtExMin ≤ n := hn.1
    omega

/-- The indexes of an entry behind the channels. -/
theorem slotAccesses_ok (hroom : n + daqGdsMaxTpAllowed ≤ dcuMaxChannels)
    (hi : i < daqGdsMaxTpAllowed) : 0 ≤ (n + i : ℤ) ∧ (n + i : ℤ) < dcuMaxChannels := by
  omega

theorem loadChannelAccesses_ok {info : DaqInfoBlock} (hsizes : SizesOk daqRange)
    (hload : (info.tp k).dataRate / daqNumDataBlocks ≤ sysRate)
    (hrate : daqNumDataBlocks ≤ (info.tp k).dataRate) (hk : k + 1 < dcuMaxChannels) :
    ∀ a ∈ loadChannelAccesses sysRate daqRange info k, a.Ok := by
  have hpos : 0 < (info.tp k).dataRate / daqNumDataBlocks := Nat.div_pos hrate (by decide)
  have hdec : 0 < sysRate / ((info.tp k).dataRate / daqNumDataBlocks) := Nat.div_pos hload hpos
  unfold loadChannelAccesses
  dsimp only
  rw [if_neg (not_lt.mpr hload)]
  intro a ha
  rcases List.mem_append.mp ha with ha | ha
  · simp only [List.mem_cons, List.not_mem_nil, or_false] at ha
    rcases ha with rfl | rfl | rfl | rfl | rfl
    · exact ⟨by omega, by omega⟩
    · exact Int.natCast_ne_zero.mpr hpos.ne'
    · exact ⟨by omega, by omega⟩
    · exact Int.natCast_ne_zero.mpr hdec.ne'
    · exact ⟨by omega, by omega⟩
  · split at ha
    · rename_i hfm
      rw [List.mem_singleton.mp ha]
      exact Int.natCast_ne_zero.mpr (hsizes.filtTp _ hfm)
    · exact absurd ha List.not_mem_nil

theorem connectAccesses_ok {info : DaqInfoBlock} (hsizes : SizesOk daqRange) (hpos : 0 < sysRate)
    (hload : ∀ k < info.numChans, (info.tp k).dataRate / daqNumDataBlocks ≤ sysRate)
    (hrate : ∀ k < info.numChans, daqNumDataBlocks ≤ (info.tp k).dataRate)
    (hroom : info.numChans < dcuMaxChannels) :
    ∀ a ∈ connectAccesses sysRate daqRange info, a.Ok := by
  intro a ha
  unfold connectAccesses at ha
  simp only [List.mem_append, List.mem_map, List.mem_range, List.mem_cons, List.not_mem_nil,
    or_false, List.mem_flatMap] at ha
  rcases ha with ((⟨ii, hii, rfl⟩ | ⟨ii, hii, rfl⟩) | rfl | rfl) | ⟨ii, hii, ha⟩
  · exact ⟨by omega, by omega⟩
  · exact ⟨by omega, by omega⟩
  · exact Int.natCast_ne_zero.mpr hpos.ne'
  · exact ⟨le_rfl, by decide⟩
  · exact loadChannelAccesses_ok hsizes (hload ii hii) (hrate ii hii) (by omega) a ha

omit [Zero K] in
theorem writeAccesses_ok (h : BoundsOk n s) (hpos : 0 < sysRate)
    (hroom : n + daqGdsMaxTpAllowed ≤ dcuMaxChannels) :
    ∀ a ∈ writeAccesses sysRate n s, a.Ok := by
  have hcounted := h.slots.bound
  intro a ha
  unfold writeAccesses at ha
  rw [List.cons_append, List.mem_cons, List.mem_append, List.mem_flatMap, List.mem_map] at ha
  rcases ha with rfl | ⟨ii, hii, ha⟩ | ⟨i, hi, rfl⟩
  · exact Int.natCast_ne_zero.mpr hpos.ne'
  · rw [List.mem_range] at hii
    have hlt : ii < n + slotsCounted s := by omega
    have hindex : 0 ≤ (ii : ℤ) ∧ (ii : ℤ) < dcuMaxChannels := by omega
    unfold sampleAccesses at ha
    rcases List.mem_append.mp ha with ha | ha
    · simp only [List.mem_cons, List.not_mem_nil, or_false] at ha
      rcases ha with rfl | rfl | rfl
      · exact hindex
      · exact hindex
      · exact Int.natCast_ne_zero.mpr (h.decFactor hlt)
    · have hhistory : a = .dHistory ii := by
        split at ha
        · split at ha
          · exact List.mem_singleton.mp ha
          · exact absurd ha List.not_mem_nil
        · split at ha
          · exact List.mem_singleton.mp ha
          · exact absurd ha List.not_mem_nil
      rw [hhistory]
      exact hindex
  · rw [List.mem_range] at hi
    exact slotAccesses_ok hroom (lt_of_lt_of_le hi hcounted)

omit [Zero K] in
theorem selectAccesses_ok (hsizes : SizesOk daqRange)
    (hroom : n + daqGdsMaxTpAllowed ≤ dcuMaxChannels) (hslot : slot < daqGdsMaxTpAllowed) :
    ∀ a ∈ selectAccesses daqRange n l slot p, a.Ok := by
  have hindex := slotAccesses_ok hroom hslot
  -- the entry is used, with or without a division
  have hput : ∀ divisions : List Access, (∀ a ∈ divisions, a.Ok) →
      ∀ a ∈ [.localTable (n + slot), .tp (n + slot)] ++ divisions, a.Ok := by
    intro divisions hdivisions a ha
    rcases List.mem_append.mp ha with ha | ha
    · simp only [List.mem_cons, List.not_mem_nil, or_false] at ha
      rcases ha with rfl | rfl
      · exact hindex
      · exact hindex
    · exact hdivisions a ha
  have hnone : ∀ a ∈ ([] : List Access), a.Ok := fun a ha => absurd ha List.not_mem_nil
  unfold selectAccesses
  dsimp only
  split
  · split
    · rename_i hfm
      refine hput _ fun a ha => ?_
      rw [List.mem_singleton.mp ha]
      exact Int.natCast_ne_zero.mpr (hsizes.filtEx _ hfm)
    · split
      · exact hput _ hnone
      · exact hnone
  · split
    · rename_i hfm
      refine hput _ fun a ha => ?_
      rw [List.mem_singleton.mp ha]
      exact Int.natCast_ne_zero.mpr (hsizes.filtTp _ hfm)
    · split
      · exact hput _ hnone
      · exact hnone

omit [Zero K] in
theorem selectNewAccesses_ok (hsizes : SizesOk daqRange)
    (hroom : n + daqGdsMaxTpAllowed ≤ dcuMaxChannels) (is : List ℕ) (s : DaqState K) :
    ∀ a ∈ selectNewAccesses daqRange n l s is, a.Ok := by
  induction is generalizing s with
  | nil => exact fun a ha => absurd ha List.not_mem_nil
  | cons p is ih =>
    unfold selectNewAccesses
    split
    · exact ih s
    · split
      · exact fun a ha => absurd ha List.not_mem_nil
      · rename_i slot hslot
        obtain ⟨hbound, -, -⟩ := emptySlot_eq_some.mp hslot
        exact List.forall_mem_append.mpr ⟨selectAccesses_ok hsizes hroom hbound, ih _⟩

theorem checkAccesses_ok (hsizes : SizesOk daqRange)
    (hroom : n + daqGdsMaxTpAllowed ≤ dcuMaxChannels) (s : DaqState K) (inp : DaqCall K) :
    ∀ a ∈ checkAccesses sysRate daqRange n s inp, a.Ok := by
  unfold checkAccesses
  dsimp only
  refine List.forall_mem_append.mpr ⟨List.forall_mem_append.mpr ⟨?_, ?_⟩, ?_⟩
  · refine forall_mem_foldlLog.mpr (stepsMeet_of_forall _ fun r i hi a ha => ?_)
    have hindex := slotAccesses_ok hroom (List.mem_range.mp hi)
    unfold deselectAccesses at ha
    split at ha
    · exact absurd ha List.not_mem_nil
    · simp only [List.mem_cons, List.not_mem_nil, or_false] at ha
      rcases ha with rfl | rfl
      · exact hindex
      · exact hindex
  · exact selectNewAccesses_ok hsizes hroom _ _
  · intro a ha
    obtain ⟨i, hi, rfl⟩ := List.mem_map.mp ha
    have hle : (checkTps sysRate daqRange s inp).validTp ≤ daqGdsMaxTpAllowed := by
      unfold checkTps
      generalize updateSlots sysRate daqRange s inp = u
      rw [countTps_eq]
      exact numTps_le u.tpNum daqGdsMaxTpAllowed
    exact slotAccesses_ok hroom (lt_of_lt_of_le (List.mem_range.mp hi) hle)

variable [Add K] [Sub K] [Mul K]

theorem BoundsOk.daqWrite (h : BoundsOk n s) (hrec : inp.reconfig ≠ 1) :
    BoundsOk n (daqWrite B sysRate daqRange s inp) := by
  refine daqWrite_induction (BoundsOk n) (fun s inp hs => ?_) (fun s hs => ?_) ?_
    (fun s inp hs => hs.checkTps inp) (fun s hs => ?_) h
  · have hsame := (cycleBody_spec B sysRate s inp).1
    exact hs.congr hsame.tpNum hsame.localTable hsame.dataInfo hsame.totalChans
  · exact hs.congr rfl rfl rfl rfl
  · exact fun _ hnew => absurd hnew.2.2 hrec
  · exact hs.congr rfl rfl rfl rfl

theorem BoundsOk.accesses_ok (h : BoundsOk n s) (hsizes : SizesOk daqRange) (hpos : 0 < sysRate)
    (hroom : n + daqGdsMaxTpAllowed ≤ dcuMaxChannels) (inp : DaqCall K) :
    ∀ a ∈ cycleAccesses sysRate daqRange n B s inp, a.Ok := by
  unfold cycleAccesses
  refine List.forall_mem_append.mpr ⟨writeAccesses_ok h hpos hroom, ?_⟩
  split
  · exact checkAccesses_ok hsizes hroom _ _
  · exact fun a ha => absurd ha List.not_mem_nil

theorem BoundsOk.run (h : BoundsOk n s) (hsizes : SizesOk daqRange) (hpos : 0 < sysRate)
    (hroom : n + daqGdsMaxTpAllowed ≤ dcuMaxChannels) {inps : List (DaqCall K)}
    (hrec : ∀ inp ∈ inps, inp.reconfig ≠ 1) :
    StepsMeet (Drv.daqWrite B sysRate daqRange)
      (fun s inp => ∀ a ∈ cycleAccesses sysRate daqRange n B s inp, a.Ok) s inps :=
  stepsMeet_imp (BoundsOk n) (P := fun _ inp => inp.reconfig ≠ 1)
    (fun _ inp hs hstep => ⟨hs.accesses_ok hsizes hpos hroom inp, hs.daqWrite hstep⟩) h
    (stepsMeet_of_forall s fun _ inp hinp => hrec inp hinp)

/-! ## All slots in use -/

/-- A call at which all is zero but the requested test points, the numbers from `first` on. -/
def requestCall (K : Type) [Zero K] (pInfo : DaqInfoBlock) (first : ℕ) : DaqCall K where
  filterInput _ := 0
  inputTestpoint _ := 0
  testpoint _ := 0
  pFloatData _ := 0
  pEpics _ := 0
  fmSettings _ _ := 0
  swReq _ := 0
  swMask _ := 0
  output16Hz _ := 0
  output _ := 0
  swStatus _ := 0
  excStatus _ _ := 0
  excData _ _ _ := 0
  gdsTp table i := if 2 ≤ table then first + i else 0
  reconfig := 0
  pInfo := pInfo

omit [Add K] [Sub K] [Mul K] in
theorem place_requestCall (pInfo : DaqInfoBlock) (first : ℕ) (hi : i < daqGdsMaxTpAllowed) :
    (gdsLists sysRate (requestCall K pInfo first)).place i = first + i := by
  rw [GdsLists.place_tpnum _ hi]
  exact if_pos (Nat.le_add_right _ _)

omit [Add K] [Sub K] [Mul K] in
theorem foldl_deselect_of_zero {is : List ℕ} (h : ∀ i ∈ is, s.tpNum i = 0) :
    is.foldl deselect (s, l) = (s, l) := by
  induction is with
  | nil => rfl
  | cons i is ih =>
    rw [List.foldl_cons, deselect, if_pos (h i List.mem_cons_self)]
    exact ih fun j hj => h j (List.mem_cons_of_mem i hj)

omit [Zero K] [Add K] [Sub K] [Mul K] in
/-- The loop has come to the place `j`, and the slots before are in use: every further slot gets
the number of its place. -/
theorem mem_selectNewAccesses (hl : ∀ i < daqGdsMaxTpAllowed, l.place i ≠ 0 ∧
      ¬ (daqRange.filtTpMin ≤ l.place i ∧ l.place i < daqRange.filtTpMax) ∧
      daqRange.xTpMin ≤ l.place i ∧ l.place i < daqRange.xTpMax)
    (hs : ∀ i < daqGdsMaxTpAllowed, s.tpNum i ≠ 0 ↔ i < j) (hjk : j ≤ k)
    (hk : k < daqGdsMaxTpAllowed) (is : List ℕ) :
    .localTable (numChans + k) ∈
      selectNewAccesses daqRange numChans l s (List.range' j (k + 1 - j) ++ is) := by
  induction hd : k - j generalizing s j with
  | zero =>
    have hj : j = k := by omega
    subst hj
    obtain ⟨hne, hfm, hx⟩ := hl j hk
    have hslot : emptySlot s.tpNum = some j :=
      emptySlot_eq_some.mpr ⟨hk, not_not.mp ((hs j hk).not.mpr (lt_irrefl j)),
        fun i hi => (hs i (by omega)).mpr hi⟩
    have hone : j + 1 - j = 1 := by omega
    rw [hone]
    show _ ∈ selectNewAccesses daqRange numChans l s (j :: is)
    unfold selectNewAccesses
    rw [if_neg hne, hslot]
    refine List.mem_append_left _ ?_
    unfold selectAccesses
    dsimp only
    rw [if_neg (not_le.mpr hk), if_neg hfm, if_pos hx]
    exact List.mem_append_left _ List.mem_cons_self
  | succ d ih =>
    have hj : j < daqGdsMaxTpAllowed := by omega
    obtain ⟨hne, hfm, hx⟩ := hl j hj
    have hslot : emptySlot s.tpNum = some j :=
      emptySlot_eq_some.mpr ⟨hj, not_not.mp ((hs j hj).not.mpr (lt_irrefl j)),
        fun i hi => (hs i (by omega)).mpr hi⟩
    have hlist : List.range' j (k + 1 - j) = j :: List.range' (j + 1) (k + 1 - (j + 1)) := by
      rw [show k + 1 - j = k + 1 - (j + 1) + 1 by omega, List.range'_succ]
    rw [hlist, List.cons_append]
    unfold selectNewAccesses
    rw [if_neg hne, hslot]
    refine List.mem_append_right _ (ih (fun i hi => ?_) (by omega) (by omega))
    -- the slot has got the number of the place
    have htpNum : (selectAt daqRange l s j j).tpNum = Function.update s.tpNum j (l.place j) := by
      unfold selectAt selectTp
      rw [if_neg (not_le.mpr hj), if_neg hfm, if_pos hx]
      rfl
    rw [htpNum]
    by_cases hij : i = j
    · rw [hij, Function.update_self]
      exact iff_of_true hne (Nat.lt_succ_self j)
    · rw [Function.update_of_ne hij, hs i hi]
      omega

omit [Add K] [Sub K] [Mul K] in
/-- The look at 64 test points, when no slot is in use. -/
theorem mem_checkAccesses {pInfo : DaqInfoBlock}
    (hrange : daqRange = controllerRange filtExMin filtTpMin n)
    (hs : ∀ i < daqGdsMaxTpAllowed, s.tpNum i = 0) (hk : k < daqGdsMaxTpAllowed) :
    .localTable (numChans + k) ∈ checkAccesses sysRate daqRange numChans s
      (requestCall K pInfo (daqRange.xTpMin + 1)) := by
  have hplace : ∀ i < daqGdsMaxTpAllowed,
      (gdsLists sysRate (requestCall K pInfo (daqRange.xTpMin + 1))).place i =
        daqRange.xTpMin + 1 + i := fun i hi => place_requestCall pInfo _ hi
  unfold checkAccesses
  dsimp only
  rw [foldl_deselect_of_zero fun i hi => hs i (List.mem_range.mp hi)]
  refine List.mem_append_left _ (List.mem_append_right _ ?_)
  have hsplit : List.range (2 * daqGdsMaxTpAllowed) =
      List.range' 0 (k + 1 - 0) ++ List.range' (k + 1) (2 * daqGdsMaxTpAllowed - (k + 1)) := by
    rw [List.range_eq_range', Nat.sub_zero]
    have happend := List.range'_append_1 (s := 0) (m := k + 1)
      (n := 2 * daqGdsMaxTpAllowed - (k + 1))
    rw [Nat.zero_add, Nat.add_sub_cancel' (by omega)] at happend
    exact happend.symm
  rw [hsplit]
  refine mem_selectNewAccesses (fun i hi => ?_) (fun i hi => ?_) (Nat.zero_le k) hk _
  · rw [hplace i hi]
    have hmin : daqRange.filtTpMax = daqRange.xTpMin := by rw [hrange]; rfl
    have hmax : daqRange.xTpMax = daqRange.xTpMin + 500 := by rw [hrange]; rfl
    unfold daqGdsMaxTpAllowed at hi
    omega
  · exact iff_of_false (not_not.mpr (hs i hi)) (Nat.not_lt_zero i)

/-- The number of a block, from the start of another one. -/
theorem cycles_blocks_daqBlockNum {inps : List (DaqCall K)} (hpos : 0 < sysRate)
    (hslot : s.daqSlot = sysRate - 1) (hnum : s.daqBlockNum < daqNumDataBlocks)
    (hlen : inps.length = n * sysRate) :
    (cycles B sysRate daqRange s inps).daqBlockNum = (s.daqBlockNum + n) % daqNumDataBlocks := by
  induction n generalizing inps with
  | zero =>
    rw [Nat.zero_mul, List.length_eq_zero_iff] at hlen
    rw [hlen]
    exact (Nat.mod_eq_of_lt hnum).symm
  | succ n ih =>
    rw [Nat.succ_mul] at hlen
    obtain ⟨as, block, rfl, has, hblock⟩ : ∃ as block, inps = as ++ block ∧
        as.length = n * sysRate ∧ block.length = sysRate :=
      ⟨_, _, (List.take_append_drop (n * sysRate) inps).symm, by simp [hlen], by simp [hlen]⟩
    rcases List.eq_nil_or_concat' block with rfl | ⟨pre, last, rfl⟩
    · exact absurd hblock hpos.ne
    rw [List.length_append, List.length_singleton] at hblock
    have hstart : (cycles B sysRate daqRange s as).daqSlot = sysRate - 1 :=
      cycles_blocks hpos hslot has
    have hpre := (cycles_within B daqRange hstart (by omega : pre.length < sysRate)).1
    have hpub := samePublished_endBlock B sysRate daqRange (cycleBody B sysRate
      (cycles B sysRate daqRange (cycles B sysRate daqRange s as) pre) last) last
    rw [← cycles_block hstart hblock last] at hpub
    rw [cycles_append, hpub.daqBlockNum, announce,
      (cycleBody_spec B sysRate _ last).1.daqBlockNum, hpre.daqBlockNum, ih has, Nat.mod_add_mod]
    rfl

/-- The first look after the connection: until then no slot is in use. -/
theorem exists_first_check (hpos : 0 < sysRate) (hstart : Connected sysRate s)
    (hrec : inp.reconfig ≠ 1) : ∃ m,
      ChecksTps sysRate (cycles B sysRate daqRange s (List.replicate m inp)) ∧
      ∀ i < daqGdsMaxTpAllowed,
        (cycles B sysRate daqRange s (List.replicate m inp)).tpNum i = 0 := by
  have hexists : ∃ m, ChecksTps sysRate (cycles B sysRate daqRange s (List.replicate m inp)) := by
    refine ⟨15 * sysRate + (sysRate - 1), ?_⟩
    rw [List.replicate_add, cycles_append]
    have hblocks : (List.replicate (15 * sysRate) inp).length = 15 * sysRate :=
      List.length_replicate
    have hslot : (cycles B sysRate daqRange s (List.replicate (15 * sysRate) inp)).daqSlot =
        sysRate - 1 := cycles_blocks hpos hstart.daqSlot hblocks
    have hnum : (cycles B sysRate daqRange s (List.replicate (15 * sysRate) inp)).daqBlockNum =
        14 := by
      rw [cycles_blocks_daqBlockNum hpos hstart.daqSlot (by rw [hstart.daqBlockNum]; decide)
        hblocks, hstart.daqBlockNum]
      rfl
    obtain ⟨hsame, hnext⟩ := cycles_within B daqRange hslot
      (by rw [List.length_replicate]; omega : (List.replicate (sysRate - 1) inp).length < sysRate)
    rw [List.length_replicate] at hnext
    refine ⟨hnext, ?_⟩
    rw [hsame.daqBlockNum, hnum]
    rfl
  refine ⟨Nat.find hexists, Nat.find_spec hexists, ?_⟩
  -- the slots are unchanged by every cycle before
  suffices hbefore : ∀ j ≤ Nat.find hexists, ∀ i < daqGdsMaxTpAllowed,
      (cycles B sysRate daqRange s (List.replicate j inp)).tpNum i = 0 from
    hbefore _ le_rfl
  intro j
  induction j with
  | zero => exact fun _ => hstart.tpNum
  | succ j ih =>
    intro hj
    have hnot : ¬ ChecksTps sysRate (cycles B sysRate daqRange s (List.replicate j inp)) :=
      Nat.find_min hexists hj
    have hzero := ih (by omega)
    have hsame := (cycleBody_spec B sysRate
      (cycles B sysRate daqRange s (List.replicate j inp)) inp).1.tpNum
    rw [List.replicate_succ', cycles_append]
    show ∀ i < daqGdsMaxTpAllowed, (daqWrite B sysRate daqRange
      (cycles B sysRate daqRange s (List.replicate j inp)) inp).tpNum i = 0
    generalize cycles B sysRate daqRange s (List.replicate j inp) = t at *
    obtain hend | hend | hend := daqWrite_of_not_checks B daqRange hnot
      fun hnew => hrec hnew.2.2
    all_goals rw [hend]
    all_goals intro i hi
    all_goals exact (congrFun hsame i).trans (hzero i hi)

/-- Some run uses the entries of all slots. -/
theorem slot_accessed (B : DaqBuild K) (numChans : ℤ) (hpos : 0 < sysRate)
    (hrange : daqRange = controllerRange filtExMin filtTpMin n) (hstart : Connected sysRate s)
    (pInfo : DaqInfoBlock) (hk : k < daqGdsMaxTpAllowed) : ∃ m,
      .localTable (numChans + k) ∈ cycleAccesses sysRate daqRange numChans B
        (cycles B sysRate daqRange s
          (List.replicate m (requestCall K pInfo (daqRange.xTpMin + 1))))
        (requestCall K pInfo (daqRange.xTpMin + 1)) := by
  have hrec : (requestCall K pInfo (daqRange.xTpMin + 1)).reconfig ≠ 1 := zero_ne_one
  obtain ⟨m, hcheck, hzero⟩ := exists_first_check (B := B) hpos hstart hrec
  refine ⟨m, ?_⟩
  unfold cycleAccesses
  rw [if_pos hcheck]
  refine List.mem_append_right _ (mem_checkAccesses hrange (fun i hi => ?_) hk)
  generalize cycles B sysRate daqRange s
    (List.replicate m (requestCall K pInfo (daqRange.xTpMin + 1))) = t at hzero ⊢
  have hsame := (cycleBody_spec B sysRate t (requestCall K pInfo (daqRange.xTpMin + 1))).1.tpNum
  exact (congrFun hsame i).trans (hzero i hi)

theorem StaysInBounds.slots (h : StaysInBounds sysRate daqRange numChans B s) (hpos : 0 < sysRate)
    (hrange : daqRange = controllerRange filtExMin filtTpMin n) (hstart : Connected sysRate s)
    (hk : k < daqGdsMaxTpAllowed) : 0 ≤ numChans + k ∧ numChans + k < dcuMaxChannels := by
  obtain ⟨m, hmem⟩ := slot_accessed B numChans hpos hrange hstart s.dataInfo hk
  have hrun := h.2 (List.replicate m (requestCall K s.dataInfo (daqRange.xTpMin + 1)) ++
    [requestCall K s.dataInfo (daqRange.xTpMin + 1)]) (fun inp hinp => ?_)
  · exact (stepsMeet_append.mp hrun).2.1 _ hmem
  · rw [← List.replicate_succ'] at hinp
    rw [List.eq_of_mem_replicate hinp]
    exact zero_ne_one

omit [Zero K] [Add K] [Sub K] [Mul K] in
/-- The divisor of the decimation factor is not zero. -/
theorem rate_of_connectAccesses {info : DaqInfoBlock}
    (h : ∀ a ∈ connectAccesses sysRate daqRange info, a.Ok) (hk : k < info.numChans) :
    daqNumDataBlocks ≤ (info.tp k).dataRate := by
  have hchannel : ∀ a ∈ loadChannelAccesses sysRate daqRange info k, a.Ok := fun a ha =>
    h a (List.mem_append_right _ (List.mem_flatMap.mpr ⟨k, List.mem_range.mpr hk, ha⟩))
  have hne : (info.tp k).dataRate / daqNumDataBlocks ≠ 0 := by
    unfold loadChannelAccesses at hchannel
    dsimp only at hchannel
    split at hchannel
    · omega
    · have hdivide := hchannel (.divide ((info.tp k).dataRate / daqNumDataBlocks : ℕ))
        (List.mem_append_left _ (by simp))
      exact Int.natCast_ne_zero.mp hdivide
  by_contra hlt
  exact hne (Nat.div_eq_of_lt (not_le.mp hlt))

omit [Add K] [Sub K] [Mul K] in
/-- What is accepted has no rate above that of the front end. -/
theorem daqConnect_rate {pInfo : DaqInfoBlock}
    (h : daqConnect B sysRate daqRange s pInfo = some t) :
    ∀ k < t.dataInfo.numChans, (t.dataInfo.tp k).dataRate / daqNumDataBlocks ≤ sysRate := by
  unfold daqConnect at h
  split at h
  · cases h
  · rename_i info len hconfig
    split at h
    · cases h
    · rename_i x table hload
      cases h
      refine foldlM_range_invariant (fun n _ => ∀ k < n,
        (info.tp k).dataRate / daqNumDataBlocks ≤ sysRate) ?_
        (fun k hk => absurd hk (Nat.not_lt_zero k)) hload
      rintro n - s t hbefore hok k hk
      by_cases hkn : k = n
      · subst hkn
        unfold loadChannel at hok
        dsimp only at hok
        split at hok
        · cases hok
        · rename_i hle
          exact not_lt.mp hle
      · exact hbefore k (by omega)

omit [Add K] [Sub K] [Mul K] in
theorem daqConnect_of_accepted {pInfo : DaqInfoBlock} (h : Accepted B sysRate daqRange s pInfo) :
    ∃ t, daqConnect B sysRate daqRange s pInfo = some t := by
  obtain ⟨info, len, x, table, hconfig, -, hload⟩ := h
  unfold daqConnect
  rw [hconfig]
  dsimp only
  rw [hload]
  exact ⟨_, rfl⟩

/-- A configuration that is accepted keeps all indexes in the tables and divides by nothing but
non-zero numbers, whatever is requested, if and only if it has at most 448 channels, each with a
rate of 16 at least. -/
theorem staysInBounds_iff (B : DaqBuild K) (sysRate filtExMin filtTpMin : ℕ) (hpos : 0 < sysRate)
    (daqRange : DaqRange) (hrange : daqRange = controllerRange filtExMin filtTpMin B.maxModules)
    (s0 s1 : DaqState K) (pInfo : DaqInfoBlock) (numChans : ℤ)
    (hchans : pInfo.numChans = numChans.toNat)
    (hconnect : daqConnect B sysRate daqRange s0 pInfo = some s1) :
    StaysInBounds sysRate daqRange numChans B s1 ↔
      0 ≤ numChans ∧ numChans + daqGdsMaxTpAllowed ≤ dcuMaxChannels ∧
        ∀ k < pInfo.numChans, daqNumDataBlocks ≤ (pInfo.tp k).dataRate := by
  obtain ⟨hloaded, hstart, -, -⟩ := daqConnect_ok hconnect
  have hnum := hloaded.config.numChans
  have htp : ∀ k < pInfo.numChans, s1.dataInfo.tp k = pInfo.tp k := fun k hk =>
    (hloaded.config.tp k).trans (if_pos hk)
  constructor
  · intro h
    have hfirst := h.slots hpos hrange hstart (by decide : 0 < daqGdsMaxTpAllowed)
    have hlast := h.slots hpos hrange hstart (by decide : 63 < daqGdsMaxTpAllowed)
    refine ⟨by omega, ?_, fun k hk => ?_⟩
    · unfold daqGdsMaxTpAllowed
      omega
    · rw [← htp k hk]
      exact rate_of_connectAccesses h.1 (hnum.symm ▸ hk)
  · rintro ⟨hnonneg, hroom, hrate⟩
    have hcast : numChans = pInfo.numChans := by omega
    have hsizes : SizesOk daqRange := hrange ▸ sizesOk_controllerRange _ _ _
    have hload := daqConnect_rate hconnect
    have hrate' : ∀ k < s1.dataInfo.numChans, daqNumDataBlocks ≤ (s1.dataInfo.tp k).dataRate := by
      intro k hk
      rw [hnum] at hk
      rw [htp k hk]
      exact hrate k hk
    have hroom' : pInfo.numChans + daqGdsMaxTpAllowed ≤ dcuMaxChannels := by omega
    have hok : BoundsOk pInfo.numChans s1 := by
      have hnone : slotsCounted s1 = 0 := by
        rw [slotsCounted, hloaded.totalChans, Nat.sub_self]
      refine ⟨hnum, fun k hk => ?_, ?_⟩
      · rw [← hnum] at hk
        rw [hloaded.table.decFactor k hk]
        exact (Nat.div_pos (hload k hk) (Nat.div_pos (hrate' k hk) (by decide))).ne'
      · rw [hnone]
        exact ⟨Nat.zero_le _, fun i hi hne => absurd (hstart.tpNum i hi) hne,
          fun i hi => absurd hi (Nat.not_lt_zero i)⟩
    rw [hcast]
    refine ⟨connectAccesses_ok hsizes hpos hload hrate' ?_, fun inps hrec => ?_⟩
    · unfold daqGdsMaxTpAllowed at hroom'
      omega
    · exact hok.run hsizes hpos hroom' hrec

end Bounds

theorem staysInBounds_iff_one_channel :
    ∃ s, started 1 [⟨10001, daqDatatypeFloat, 16⟩] = some s ∧
      StaysInBounds 1 plainRange 1 plainBuild s := by
  have hstart : started 1 [⟨10001, daqDatatypeFloat, 16⟩] =
      some ((started 1 [⟨10001, daqDatatypeFloat, 16⟩]).get rfl) := (Option.some_get _).symm
  exact ⟨_, hstart, (staysInBounds_iff plainBuild 1 gds16kExcMin gds16kTpMin (by decide) plainRange
    rfl bootState _ (plainInfo [⟨10001, daqDatatypeFloat, 16⟩]) 1 rfl hstart).mpr (by decide)⟩

theorem plainInfo_replicate {n k : ℕ} (tp : DaqTp) (hk : k < n) :
    (plainInfo (List.replicate n tp)).tp k = tp := by
  show (List.replicate n tp).getD k ⟨0, 0, 0⟩ = tp
  rw [List.getD_eq_getElem?_getD, List.getElem?_replicate, if_pos hk]
  rfl

/-- A configuration of equal channels is accepted. -/
theorem started_replicate {n : ℕ} (hn : n ≤ dcuMaxChannels) :
    ∃ s, started 1 (List.replicate n ⟨10001, daqDatatypeFloat, 16⟩) = some s ∧ Connected 1 s := by
  have hnum : (plainInfo (List.replicate n ⟨10001, daqDatatypeFloat, 16⟩)).numChans = n :=
    List.length_replicate
  have haccepted : Accepted plainBuild 1 plainRange bootState
      (plainInfo (List.replicate n ⟨10001, daqDatatypeFloat, 16⟩)) := by
    have hepics : 0 < 11 := by decide
    refine accepted_of_channels (hnum.le.trans hn) hepics (fun k hk => ?_) fun k hk => ?_
    · rw [plainInfo_replicate _ (hnum ▸ hk)]
      exact le_rfl
    · rw [plainInfo_replicate _ (hnum ▸ hk)]
      decide
  obtain ⟨s, hs⟩ := daqConnect_of_accepted haccepted
  exact ⟨s, hs, (daqConnect_ok hs).2.1⟩

/-- With 449 channels and 64 test points the last slot is behind the tables; with a rate of 8 the
loader divides by zero. -/
theorem accepted_out_of_bounds :
    (∃ s, started 1 (List.replicate 449 ⟨10001, daqDatatypeFloat, 16⟩) = some s ∧
      ¬ StaysInBounds 1 plainRange 449 plainBuild s) ∧
    ∃ s, started 1 [⟨10001, daqDatatypeFloat, 8⟩] = some s ∧
      ¬ StaysInBounds 1 plainRange 1 plainBuild s := by
  constructor
  · obtain ⟨s, hs, hstart⟩ := started_replicate (n := 449) (by decide)
    refine ⟨s, hs, fun h => ?_⟩
    have hlast := (h.slots (by decide) rfl hstart (by decide : 63 < daqGdsMaxTpAllowed)).2
    unfold dcuMaxChannels at hlast
    omega
  · refine ⟨(started 1 [⟨10001, daqDatatypeFloat, 8⟩]).get rfl, (Option.some_get _).symm, ?_⟩
    intro h
    exact absurd (rate_of_connectAccesses h.1 (k := 0) (by decide +kernel)) (by decide +kernel)

end AdvLigoRts.Drv
