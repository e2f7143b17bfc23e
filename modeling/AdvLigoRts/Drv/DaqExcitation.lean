import AdvLigoRts.Drv.DaqCycle

/-!
# Excitations are switched off

`excOf` is the excitation that an entry of the table drives, and `drive` its value. Every excitation
that is not zero belongs to an entry of a slot, and every such entry to the number of its slot
(`SlotsOk`).
-/

namespace AdvLigoRts.Drv

open PvLib

/-- The excitation that an entry drives: its source and place. -/
def excOf (lt : DaqLkupTable) : Option (DaqSrc × ℕ) :=
  if lt.type.isExc then some (lt.type, lt.fmNum) else none

/-- The first number of the excitations of a source. -/
def excMin (daqRange : DaqRange) : DaqSrc → ℕ
  | .nfmExc => daqRange.xExMin
  | _ => daqRange.filtExMin

section Run

variable {K : Type} {B : DaqBuild K} {sysRate : ℕ} {daqRange : DaqRange}
variable {s t : DaqState K} {inp : DaqCall K} {inps : List (DaqCall K)} {n i slot tpn : ℕ}
variable {src : DaqSrc} {m : ℕ}

/-- The entry of the slot `i`. -/
def slotEntry (s : DaqState K) (i : ℕ) : DaqLkupTable := s.localTable (s.dataInfo.numChans + i)

/-- The place that gets an entry for a number. -/
theorem slotEntry_putSlot (s : DaqState K) (slot tpn : ℕ) (lt : DaqLkupTable → DaqLkupTable)
    (j : ℕ) : slotEntry (s.putSlot slot tpn lt) j =
      if j = slot then lt (slotEntry s slot) else slotEntry s j := by
  by_cases hj : j = slot
  · subst hj
    rw [if_pos rfl]
    exact Function.update_self _ _ _
  · rw [if_neg hj]
    exact Function.update_of_ne (by simpa [DaqState.putSlot, DaqInfoBlock.setFloat] using hj) _ _

/-- The entries that a configuration with `numChans` channels brings to the slots drive the same
excitations as the entries there. -/
def ExcKept (s : DaqState K) (numChans : ℕ) : Prop :=
  ∀ i < s.validTp, excOf (s.localTable (numChans + i)) = excOf (slotEntry s i)

/-- As many channels as before: the entries of the slots stay in their places. -/
theorem excKept_same {numChans : ℕ} (h : numChans = s.dataInfo.numChans) :
    ExcKept s numChans := by
  intro i _
  rw [h, slotEntry]

theorem ExcKept.congr {numChans : ℕ} (h : ExcKept s numChans) (hsame : SameBlock s t) :
    ExcKept t numChans := by
  unfold ExcKept slotEntry at h ⊢
  rw [hsame.validTp, hsame.localTable, hsame.dataInfo]
  exact h

variable [Zero K]

/-- The value of an excitation. -/
def drive (s : DaqState K) : DaqSrc → ℕ → K
  | .fmExc => s.exciteInput
  | .nfmExc => s.excSignal
  | _ => fun _ => 0

/-- The first `n` slots hold all numbers and all excitations. -/
structure SlotsOk (daqRange : DaqRange) (n : ℕ) (s : DaqState K) : Prop where
  bound : n ≤ daqGdsMaxTpAllowed
  used : ∀ i < daqGdsMaxTpAllowed, s.tpNum i ≠ 0 → i < n
  entry : ∀ i < n, ∀ src m, excOf (slotEntry s i) = some (src, m) →
    s.tpNum i = excMin daqRange src + m ∧ (s.excTable i).fmNum = m
  driven : ∀ src m, drive s src m ≠ 0 → ∃ i < n, excOf (slotEntry s i) = some (src, m)

/-! ## Slots -/

theorem drive_deselectSlot (s : DaqState K) (i : ℕ) (src : DaqSrc) (m : ℕ) :
    drive (deselectSlot s i) src m =
      if (excOf (slotEntry s i)).map Prod.fst = some src ∧ m = (s.excTable i).fmNum then 0
      else drive s src m := by
  unfold deselectSlot
  dsimp only
  cases htype : (s.localTable (s.dataInfo.numChans + i)).type
  all_goals cases src
  all_goals simp [drive, excOf, slotEntry, htype, DaqSrc.isExc, Function.update_apply]

theorem deselectSlot_eq (s : DaqState K) (i : ℕ) : ∃ exciteInput excSignal,
    deselectSlot s i = { s with
      exciteInput := exciteInput
      excSignal := excSignal
      excTable := (deselectSlot s i).excTable
      tpNum := Function.update s.tpNum i 0
      localTable := Function.update s.localTable (s.dataInfo.numChans + i) (slotEntry s i).clear
      dataInfo := s.dataInfo.setFloat (s.dataInfo.numChans + i) } ∧
    ∀ j, ((deselectSlot s i).excTable j).fmNum = (s.excTable j).fmNum := by
  have hexc : ∀ j, (Function.update s.excTable i { s.excTable i with sigNum := 0 } j).fmNum =
      (s.excTable j).fmNum := by
    intro j
    by_cases hj : j = i
    · subst hj
      rw [Function.update_self]
    · rw [Function.update_of_ne hj]
  unfold deselectSlot
  dsimp only
  split
  · exact ⟨_, _, rfl, hexc⟩
  · exact ⟨_, _, rfl, hexc⟩
  · exact ⟨_, _, rfl, fun _ => rfl⟩

theorem deselectSlot_tpNum (s : DaqState K) (i : ℕ) :
    (deselectSlot s i).tpNum = Function.update s.tpNum i 0 := by
  obtain ⟨_, _, hupdate, -⟩ := deselectSlot_eq s i
  rw [hupdate]

theorem deselectSlot_dataInfo (s : DaqState K) (i : ℕ) :
    (deselectSlot s i).dataInfo = s.dataInfo.setFloat (s.dataInfo.numChans + i) := by
  obtain ⟨_, _, hupdate, -⟩ := deselectSlot_eq s i
  rw [hupdate]

theorem slotEntry_deselectSlot (s : DaqState K) (i j : ℕ) :
    slotEntry (deselectSlot s i) j = if j = i then (slotEntry s i).clear else slotEntry s j := by
  obtain ⟨e, x, hupdate, -⟩ := deselectSlot_eq s i
  rw [hupdate]
  by_cases hj : j = i
  · subst hj
    rw [if_pos rfl]
    exact Function.update_self _ _ _
  · rw [if_neg hj]
    exact Function.update_of_ne (by simpa [DaqInfoBlock.setFloat] using hj) _ _

theorem SlotsOk.deselectSlot (h : SlotsOk daqRange n s) (hi : i < n) :
    SlotsOk daqRange n (deselectSlot s i) := by
  obtain ⟨_, _, -, hfm⟩ := deselectSlot_eq s i
  have hentry := slotEntry_deselectSlot s i
  have htpNum := deselectSlot_tpNum s i
  have hclear : excOf (slotEntry s i).clear = none := rfl
  constructor
  case bound => exact h.bound
  case used =>
    intro j hj hne
    rw [htpNum] at hne
    have hji : j ≠ i := fun heq => hne (by simp [heq])
    rw [Function.update_of_ne hji] at hne
    exact h.used j hj hne
  case entry =>
    intro j hj src m hexc
    rw [hentry] at hexc
    have hji : j ≠ i := by
      rintro rfl
      rw [if_pos rfl, hclear] at hexc
      exact absurd hexc (by simp)
    rw [if_neg hji] at hexc
    rw [htpNum, Function.update_of_ne hji, hfm]
    exact h.entry j hj src m hexc
  case driven =>
    intro src m hne
    rw [drive_deselectSlot] at hne
    split at hne
    · exact absurd rfl hne
    rename_i hother
    obtain ⟨j, hj, hexc⟩ := h.driven src m hne
    refine ⟨j, hj, ?_⟩
    have hji : j ≠ i := by
      rintro rfl
      exact hother ⟨by rw [hexc]; rfl, ((h.entry j hj src m hexc).2).symm⟩
    rw [hentry, if_neg hji]
    exact hexc

theorem SlotsOk.fill (h : SlotsOk daqRange n s) (hmin : ∀ src, 0 < excMin daqRange src)
    (hslot : emptySlot s.tpNum = some slot) (htpNum : t.tpNum = Function.update s.tpNum slot tpn)
    (hentry : ∀ j, j ≠ slot → slotEntry t j = slotEntry s j)
    (htable : ∀ j, j ≠ slot → t.excTable j = s.excTable j)
    (hdrive : drive t = drive s)
    (hnew : ∀ src m, excOf (slotEntry t slot) = some (src, m) →
      tpn = excMin daqRange src + m ∧ (t.excTable slot).fmNum = m) :
    SlotsOk daqRange (max n (slot + 1)) t := by
  obtain ⟨hbound, hzero, -⟩ := emptySlot_eq_some.mp hslot
  have hle := emptySlot_le h.used hslot
  constructor
  case bound => exact max_le h.bound hbound
  case used =>
    intro j hj hne
    by_cases hjs : j = slot
    · omega
    · rw [htpNum, Function.update_of_ne hjs] at hne
      have hjn := h.used j hj hne
      omega
  case entry =>
    intro j hj src m hexc
    rw [htpNum]
    by_cases hjs : j = slot
    · subst hjs
      rw [Function.update_self]
      exact hnew src m hexc
    · rw [hentry j hjs] at hexc
      rw [Function.update_of_ne hjs, htable j hjs]
      exact h.entry j (by omega) src m hexc
  case driven =>
    intro src m hne
    rw [hdrive] at hne
    obtain ⟨j, hj, hexc⟩ := h.driven src m hne
    refine ⟨j, by omega, ?_⟩
    have hjs : j ≠ slot := by
      rintro rfl
      have hnum := (h.entry j hj src m hexc).1
      have hpos := hmin src
      omega
    rw [hentry j hjs]
    exact hexc

theorem SlotsOk.selectTp (h : SlotsOk daqRange n s) (hmin : ∀ src, 0 < excMin daqRange src)
    (hslot : emptySlot s.tpNum = some slot) :
    ∃ n, SlotsOk daqRange n (selectTp daqRange s slot tpn) := by
  -- both kinds of test points are put into the slot without an excitation
  have hput : ∀ lt : DaqLkupTable → DaqLkupTable, excOf (lt (slotEntry s slot)) = none →
      SlotsOk daqRange (max n (slot + 1)) (s.putSlot slot tpn lt) := by
    intro lt hnone
    refine h.fill hmin hslot rfl (fun j hj => ?_) (fun _ _ => rfl) rfl fun src m hexc => ?_
    · rw [slotEntry_putSlot, if_neg hj]
    · rw [slotEntry_putSlot, if_pos rfl, hnone] at hexc
      exact absurd hexc (by simp)
  unfold Drv.selectTp
  dsimp only
  split
  · exact ⟨_, hput _ rfl⟩
  · split
    · exact ⟨_, hput _ rfl⟩
    · exact ⟨n, h⟩

theorem SlotsOk.selectExc (h : SlotsOk daqRange n s) (hmin : ∀ src, 0 < excMin daqRange src)
    (hsize : daqRange.filtExMax = daqRange.filtExMin + daqRange.filtExSize)
    (hslot : emptySlot s.tpNum = some slot) (ii : ℕ) :
    ∃ n, SlotsOk daqRange n (selectExc daqRange s slot tpn ii) := by
  have hput : ∀ (exc : DaqExc) (lt : DaqLkupTable → DaqLkupTable) (src : DaqSrc),
      excOf (lt (slotEntry s slot)) = some (src, exc.fmNum) →
      tpn = excMin daqRange src + exc.fmNum →
      SlotsOk daqRange (max n (slot + 1))
        (({ s with excTable := Function.update s.excTable slot exc } : DaqState K).putSlot
          slot tpn lt) := by
    intro exc lt src hexc hnum
    refine h.fill hmin hslot rfl (fun j hj => ?_) (fun j hj => ?_) rfl fun src' m hexc' => ?_
    · exact (slotEntry_putSlot _ _ _ _ _).trans (if_neg hj)
    · exact Function.update_of_ne hj _ _
    · rw [slotEntry_putSlot, if_pos rfl] at hexc'
      obtain ⟨rfl, rfl⟩ := Prod.mk.inj (Option.some.inj (hexc.symm.trans hexc'))
      refine ⟨hnum, ?_⟩
      show (Function.update s.excTable slot exc slot).fmNum = exc.fmNum
      rw [Function.update_self]
  unfold Drv.selectExc
  dsimp only
  split
  · rename_i hfm
    have hmod : (tpn - daqRange.filtExMin) % daqRange.filtExSize = tpn - daqRange.filtExMin :=
      Nat.mod_eq_of_lt (by omega)
    refine ⟨_, hput _ _ .fmExc rfl ?_⟩
    rw [hmod]
    exact (Nat.add_sub_cancel' hfm.1).symm
  · split
    · rename_i hx
      exact ⟨_, hput _ _ .nfmExc rfl (Nat.add_sub_cancel' hx.1).symm⟩
    · exact ⟨n, h⟩

/-- The look at the GDS tables keeps the excitations with their numbers. -/
theorem SlotsOk.checkTps (h : SlotsOk daqRange n s) (hmin : ∀ src, 0 < excMin daqRange src)
    (hsize : daqRange.filtExMax = daqRange.filtExMin + daqRange.filtExSize) (inp : DaqCall K) :
    SlotsOk daqRange (checkTps sysRate daqRange s inp).validTp
      (checkTps sysRate daqRange s inp) := by
  obtain ⟨k, hk⟩ : ∃ k, SlotsOk daqRange k (updateSlots sysRate daqRange s inp) := by
    refine updateSlots_induction (fun s => ∃ k, SlotsOk daqRange k s) ?_ ?_ ?_ ⟨n, h⟩
    · rintro s i hi ⟨k, hk⟩ hne
      exact ⟨k, hk.deselectSlot (hk.used i hi hne)⟩
    · rintro s slot tpn ⟨k, hk⟩ - hslot
      exact hk.selectTp hmin hslot
    · rintro s slot tpn ii ⟨k, hk⟩ - hslot
      exact hk.selectExc hmin hsize hslot ii
  unfold Drv.checkTps
  generalize updateSlots sysRate daqRange s inp = u at hk
  rw [countTps_eq]
  have hentry : ∀ j, excOf (withOffsets sysRate u (numTps u.tpNum daqGdsMaxTpAllowed)
      (u.dataInfo.numChans + j)) = excOf (slotEntry u j) := by
    intro j
    unfold withOffsets
    split
    · rfl
    · rfl
  have hle : numTps u.tpNum daqGdsMaxTpAllowed ≤ k := numTps_le_of hk.used
  constructor
  case bound => exact numTps_le _ _
  case used => exact fun i hi hne => lt_numTps hi hne
  case entry =>
    intro j hj src m hexc
    exact hk.entry j (lt_of_lt_of_le hj hle) src m ((hentry j).symm.trans hexc)
  case driven =>
    intro src m hne
    obtain ⟨j, hj, hexc⟩ := hk.driven src m hne
    have hnum := (hk.entry j hj src m hexc).1
    have hpos := hmin src
    refine ⟨j, lt_numTps (lt_of_lt_of_le hj hk.bound) (by omega), ?_⟩
    exact (hentry j).trans hexc

/-! ## A run -/

/-- The slots hold the excitations, and no entry behind them is read. -/
structure ExcOk (daqRange : DaqRange) (s : DaqState K) : Prop where
  slots : SlotsOk daqRange s.validTp s
  chans : s.totalChans ≤ s.dataInfo.numChans + s.validTp

variable (inp) in
theorem drive_readExc (s : DaqState K) (ii : ℕ) : ∃ value, ∀ src m,
    drive (readExc inp s ii) src m =
      if excOf (s.localTable ii) = some (src, m) then value else drive s src m := by
  refine ⟨if inp.excStatus s.excBlockNum (s.localTable ii).sigNum = 0 then
    inp.excData s.excBlockNum (s.localTable ii).sigNum s.excSlot else 0, fun src m => ?_⟩
  unfold readExc
  dsimp only
  by_cases hset : inp.excStatus s.excBlockNum (s.localTable ii).sigNum = 0
  all_goals cases htype : (s.localTable ii).type
  all_goals cases src
  all_goals simp [drive, excOf, htype, hset, DaqSrc.isExc, Function.update_apply, eq_comm]

variable (daqRange inp n) in
theorem SlotsOk.foldl_readExc (h : SlotsOk daqRange n s) {l : List ℕ}
    (hl : ∀ ii ∈ l, s.dataInfo.numChans ≤ ii ∧ ii < s.dataInfo.numChans + n) :
    SlotsOk daqRange n (l.foldl (readExc inp) s) := by
  induction l generalizing s with
  | nil => exact h
  | cons ii l ih =>
    obtain ⟨v, e, x, hstep⟩ := readExc_eq inp s ii
    obtain ⟨value, hdrive⟩ := drive_readExc inp s ii
    obtain ⟨hlow, hhigh⟩ := hl ii List.mem_cons_self
    rw [List.foldl_cons]
    refine ih (s := readExc inp s ii) ?_ (fun jj hjj => ?_)
    · constructor
      case bound => exact h.bound
      case used =>
        rw [hstep]
        exact h.used
      case entry =>
        rw [hstep]
        exact h.entry
      case driven =>
        intro src m hne
        have hsame : ∀ i, slotEntry (readExc inp s ii) i = slotEntry s i := by
          intro i
          rw [hstep]
          rfl
        simp only [hsame]
        rw [hdrive] at hne
        by_cases hexc : excOf (s.localTable ii) = some (src, m)
        · refine ⟨ii - s.dataInfo.numChans, by omega, ?_⟩
          rw [slotEntry, Nat.add_sub_cancel' hlow]
          exact hexc
        · rw [if_neg hexc] at hne
          exact h.driven src m hne
    · rw [hstep]
      exact hl jj (List.mem_cons_of_mem ii hjj)

theorem ExcOk.reconfigure {pInfo : DaqInfoBlock} (h : ExcOk daqRange s)
    (hacc : Accepted B sysRate daqRange s pInfo) (hkept : ExcKept s pInfo.numChans) :
    ExcOk daqRange (reconfigure B sysRate daqRange s pInfo) := by
  obtain ⟨info, x, lt, hist, start, total, hupdate, hloaded⟩ := reconfigure_eq hacc
  -- behind the channels only an offset is new in the table
  have hentry : ∀ i < s.validTp,
      excOf (slotEntry (Drv.reconfigure B sysRate daqRange s pInfo) i) = excOf (slotEntry s i) := by
    intro i hi
    rw [slotEntry, ← hkept i hi, ← hloaded.config.numChans]
    rcases Nat.eq_zero_or_pos i with rfl | hpos
    · rw [Nat.add_zero, hloaded.table.next]
      rfl
    · rw [hloaded.table.rest _ (by omega)]
  have hvalid : (Drv.reconfigure B sysRate daqRange s pInfo).validTp = s.validTp := by
    rw [hupdate]
  refine ⟨?_, by rw [hloaded.totalChans]; exact Nat.le_add_right _ _⟩
  rw [hvalid]
  constructor
  case bound => exact h.slots.bound
  case used =>
    rw [hupdate]
    exact h.slots.used
  case entry =>
    intro i hi src m hexc
    have hold := h.slots.entry i hi src m ((hentry i hi).symm.trans hexc)
    rw [hupdate]
    exact hold
  case driven =>
    intro src m hne
    rw [hupdate] at hne
    obtain ⟨i, hi, hexc⟩ := h.slots.driven src m hne
    exact ⟨i, hi, (hentry i hi).trans hexc⟩

variable [Add K] [Sub K] [Mul K]

theorem ExcOk.cycleBody (h : ExcOk daqRange s) (inp : DaqCall K) :
    ExcOk daqRange (cycleBody B sysRate s inp) := by
  have hsame := (cycleBody_spec B sysRate s inp).1
  refine ⟨?_, ?_⟩
  · have hread := SlotsOk.foldl_readExc daqRange inp s.validTp
      (s := { writeCycle B sysRate s inp with
        excSlot := (s.excSlot + 1) % sysRate, validEx := 0 })
      { h.slots with }
      (l := List.range' s.dataInfo.numChans (s.totalChans - s.dataInfo.numChans)) (fun ii hii => by
        obtain ⟨j, hj, rfl⟩ := List.mem_range'.mp hii
        have hchans := h.chans
        show s.dataInfo.numChans ≤ _ ∧ _ < s.dataInfo.numChans + s.validTp
        omega)
    rw [hsame.validTp]
    unfold Drv.cycleBody readExcs
    dsimp only
    split
    · exact { hread with }
    · exact hread
  · rw [hsame.totalChans, hsame.dataInfo, hsame.validTp]
    exact h.chans

/-- Every reconfiguration of a run is accepted and keeps the excitations of the slots. -/
def ExcKeptRun (B : DaqBuild K) (sysRate : ℕ) (daqRange : DaqRange) (s : DaqState K)
    (inps : List (DaqCall K)) : Prop :=
  StepsMeet (daqWrite B sysRate daqRange)
    (fun s inp => Reconfigures sysRate s inp →
      Accepted B sysRate daqRange s inp.pInfo ∧ ExcKept s inp.pInfo.numChans) s inps

theorem ExcOk.daqWrite (h : ExcOk daqRange s) (hmin : ∀ src, 0 < excMin daqRange src)
    (hsize : daqRange.filtExMax = daqRange.filtExMin + daqRange.filtExSize)
    (hkept : Reconfigures sysRate s inp →
      Accepted B sysRate daqRange s inp.pInfo ∧ ExcKept s inp.pInfo.numChans) :
    ExcOk daqRange (daqWrite B sysRate daqRange s inp) := by
  refine daqWrite_induction (ExcOk daqRange) (fun s inp hs => hs.cycleBody inp) ?_ ?_ ?_ ?_ h
  · exact fun s hs => ⟨{ hs.slots with }, hs.chans⟩
  · intro hann hreconf
    obtain ⟨hacc, hsameExc⟩ := hkept hreconf
    have hsame := (cycleBody_spec B sysRate s inp).1
    have haccepted : Accepted B sysRate daqRange (Drv.cycleBody B sysRate s inp) inp.pInfo :=
      hacc.congr hsame
    have hkept' : ExcKept (Drv.cycleBody B sysRate s inp) inp.pInfo.numChans :=
      hsameExc.congr hsame
    exact hann.reconfigure haccepted hkept'
  · intro s inp hs
    refine ⟨hs.slots.checkTps hmin hsize inp, ?_⟩
    rw [checkTps, countTps_eq]
  · exact fun s hs => ⟨{ hs.slots with }, hs.chans⟩

/-- An excitation whose number is in no slot is zero, in every state of a run whose
reconfigurations keep the excitations of the slots. -/
theorem excitations_cleared (B : DaqBuild K) (sysRate filtExMin filtTpMin : ℕ)
    (hmin : 0 < filtExMin) (daqRange : DaqRange)
    (hrange : daqRange = controllerRange filtExMin filtTpMin B.maxModules) (s0 s1 : DaqState K)
    (hfm : ∀ m, s0.exciteInput m = 0) (hnfm : ∀ m, s0.excSignal m = 0) (pInfo : DaqInfoBlock)
    (hconnect : daqConnect B sysRate daqRange s0 pInfo = some s1) (inps : List (DaqCall K))
    (hkept : ExcKeptRun B sysRate daqRange s1 inps) :
    let s := cycles B sysRate daqRange s1 inps
    (∀ m, (∀ i < daqGdsMaxTpAllowed, s.tpNum i ≠ daqRange.filtExMin + m) →
        s.exciteInput m = 0) ∧
      ∀ m, (∀ i < daqGdsMaxTpAllowed, s.tpNum i ≠ daqRange.xExMin + m) → s.excSignal m = 0 := by
  intro s
  obtain ⟨hloaded, hstart, hexcite, hsignal⟩ := daqConnect_ok hconnect
  have hpos : ∀ src, 0 < excMin daqRange src := by
    intro src
    rw [hrange]
    cases src
    all_goals simp [excMin, controllerRange]; omega
  have hsize : daqRange.filtExMax = daqRange.filtExMin + daqRange.filtExSize := by
    rw [hrange]
    rfl
  have hfirst : ExcOk daqRange s1 := by
    refine ⟨⟨?_, ?_, ?_, ?_⟩, hloaded.totalChans.le.trans (Nat.le_add_right _ _)⟩
    · rw [hstart.validTp]
      exact Nat.zero_le _
    · exact fun i hi hne => absurd (hstart.tpNum i hi) hne
    · intro i hi
      rw [hstart.validTp] at hi
      exact absurd hi (Nat.not_lt_zero i)
    · intro src m hne
      refine absurd ?_ hne
      cases src
      case fmExc => exact (congrFun hexcite m).trans (hfm m)
      case nfmExc => exact (congrFun hsignal m).trans (hnfm m)
      all_goals rfl
  have hall : ExcOk daqRange s := foldl_invariant (ExcOk daqRange)
    (fun s inp hs hstep => hs.daqWrite hpos hsize hstep) hfirst hkept
  -- the slot of an excitation that is not zero has its number
  have hnum : ∀ src m, (∀ i < daqGdsMaxTpAllowed, s.tpNum i ≠ excMin daqRange src + m) →
      drive s src m = 0 := by
    intro src m hnone
    by_contra hne
    obtain ⟨i, hi, hexc⟩ := hall.slots.driven src m hne
    exact hnone i (lt_of_lt_of_le hi hall.slots.bound) (hall.slots.entry i hi src m hexc).1
  exact ⟨hnum .fmExc, hnum .nfmExc⟩

end Run

/-- A call with the excitation 1 in its table, and 1 as its data. -/
def excitedCall : DaqCall ℤ :=
  { quietCall with
    gdsTp := fun table i => if table = 1 ∧ i = 0 then 1 else 0
    excStatus := fun _ _ => 0
    excData := fun _ _ _ => 1 }

/-- The call in which also a configuration with these channels is loaded. -/
def excitedReconfig (chans : List DaqTp) : DaqCall ℤ :=
  { excitedCall with reconfig := 1, pInfo := plainInfo chans }

/-- Cycles of a block each: the excitation is selected, a configuration is loaded, and at the end
of the next second the excitation is deselected. -/
def excitedRun (chans : List DaqTp) : List (DaqCall ℤ) :=
  List.replicate 16 excitedCall ++ excitedReconfig chans ::
    (List.replicate 14 excitedCall ++ [quietCall])

theorem stepsMeet_excitedRun {chans : List DaqTp} {P : DaqState ℤ → DaqCall ℤ → Prop}
    (s : DaqState ℤ)
    (h : P (cycles plainBuild 1 plainRange s (List.replicate 16 excitedCall))
      (excitedReconfig chans)) :
    StepsMeet (daqWrite plainBuild 1 plainRange) (fun s inp => Reconfigures 1 s inp → P s inp) s
      (excitedRun chans) := by
  have hquiet : ∀ inps : List (DaqCall ℤ), (∀ inp ∈ inps, inp.reconfig = 0) → ∀ s,
      StepsMeet (daqWrite plainBuild 1 plainRange)
        (fun s inp => Reconfigures 1 s inp → P s inp) s inps := by
    intro inps hnone s
    refine stepsMeet_of_forall s fun s inp hinp hreconf => ?_
    exact absurd (hreconf.2.2.symm.trans (hnone inp hinp)) (by decide)
  refine stepsMeet_append.mpr ⟨hquiet _ ?_ s, fun _ => h, hquiet _ ?_ _⟩
  · intro inp hinp
    rw [List.eq_of_mem_replicate hinp]
    rfl
  · intro inp hinp
    rcases List.mem_append.mp hinp with hexcited | hlast
    · rw [List.eq_of_mem_replicate hexcited]
      rfl
    · rw [List.mem_singleton.mp hlast]
      rfl

theorem excitations_cleared_same_channels :
    ∃ s, started 1 [⟨10001, daqDatatypeFloat, 16⟩] = some s ∧
      (cycles plainBuild 1 plainRange s
        (excitedRun [⟨10002, daqDatatypeFloat, 16⟩])).exciteInput 0 = 0 := by
  have haccepted : ∀ s : DaqState ℤ, Accepted plainBuild 1 plainRange s
      (plainInfo [⟨10002, daqDatatypeFloat, 16⟩]) :=
    fun s => accepted_of_channels (by decide) (by decide) (by decide) (by decide)
  have hstart : started 1 [⟨10001, daqDatatypeFloat, 16⟩] =
      some ((started 1 [⟨10001, daqDatatypeFloat, 16⟩]).get rfl) := (Option.some_get _).symm
  have hcleared := excitations_cleared plainBuild 1 gds16kExcMin gds16kTpMin (by decide) plainRange
    rfl bootState _ (fun _ => rfl) (fun _ => rfl) (plainInfo [⟨10001, daqDatatypeFloat, 16⟩])
    hstart (excitedRun [⟨10002, daqDatatypeFloat, 16⟩])
    (stepsMeet_excitedRun _ ⟨haccepted _, excKept_same (by decide +kernel)⟩)
  exact ⟨_, hstart, hcleared.1 0 (by decide +kernel)⟩

/-- A channel is added while the excitation is selected: its value stays. -/
theorem reconfigured_excitation_stays :
    ∃ s, started 1 [⟨10001, daqDatatypeFloat, 16⟩] = some s ∧
      AcceptedRun plainBuild 1 plainRange s
        (excitedRun [⟨10001, daqDatatypeFloat, 16⟩, ⟨10002, daqDatatypeFloat, 16⟩]) ∧
      let t := cycles plainBuild 1 plainRange s
        (excitedRun [⟨10001, daqDatatypeFloat, 16⟩, ⟨10002, daqDatatypeFloat, 16⟩])
      t.exciteInput 0 = 1 ∧ ∀ i < daqGdsMaxTpAllowed, t.tpNum i ≠ plainRange.filtExMin + 0 := by
  have haccepted : ∀ s : DaqState ℤ, Accepted plainBuild 1 plainRange s
      (plainInfo [⟨10001, daqDatatypeFloat, 16⟩, ⟨10002, daqDatatypeFloat, 16⟩]) :=
    fun s => accepted_of_channels (by decide) (by decide) (by decide) (by decide)
  have hrun : ∀ s, AcceptedRun plainBuild 1 plainRange s
      (excitedRun [⟨10001, daqDatatypeFloat, 16⟩, ⟨10002, daqDatatypeFloat, 16⟩]) :=
    fun s => stepsMeet_excitedRun s (haccepted _)
  exact ⟨_, rfl, hrun _, by decide +kernel, by decide +kernel⟩

end AdvLigoRts.Drv
