import AdvLigoRts.Drv.DaqLayoutTheorems
import AdvLigoRts.Drv.DaqExcitation

/-!
# The writes of a block

`blockWrites` are all writes to the buffer in some cycles, and the memory behind these cycles is
what they leave (`mem_cycles`). In a cycle each selected test point writes its sample behind those
of the cycles before.
-/

namespace AdvLigoRts.Drv

open PvLib

section Run

variable {K : Type} {B : DaqBuild K} {sysRate : ℕ} {daqRange : DaqRange}
variable {s t u : DaqState K} {inp : DaqCall K} {inps block : List (DaqCall K)} {i j d n : ℕ}

/-! ## Rows of test points -/

/-- The entries of the slots are floats of all cycles, one slot behind the other. -/
structure RowsOk (sysRate : ℕ) (s : DaqState K) : Prop where
  chans : s.totalChans = s.dataInfo.numChans + s.validTp
  decFactor : ∀ i < s.validTp, (slotEntry s i).decFactor = 1
  dataType : ∀ i < s.validTp,
    (s.dataInfo.tp (s.dataInfo.numChans + i)).dataType = daqDatatypeFloat
  offset : ∀ i < s.validTp, (slotEntry s i).offset = s.tpStart + sysRate * 4 * i

/-- Behind the channels nothing is written but the test points: the samples of channels after the
first cycle and the EPICS data end before. -/
structure TpsApart (sysRate : ℕ) (info : DaqInfoBlock) : Prop where
  inside : ∀ i < info.numChans, ∀ d < sysRate, 0 < d → d % chanDec sysRate (info.tp i) = 0 →
    chanOffset sysRate info i +
        sampleIndex (info.tp i).dataType (chanDec sysRate (info.tp i)) d *
          sampleSize (info.tp i).dataType + sampleSize (info.tp i).dataType ≤
      chanOffset sysRate info info.numChans
  epics : epicsLength info sysRate ≤ chanOffset sysRate info info.numChans

theorem RowsOk.congr (h : RowsOk sysRate s) (hs : SameBlock s t) : RowsOk sysRate t := by
  have hentry : ∀ i, slotEntry t i = slotEntry s i := by
    intro i
    unfold slotEntry
    rw [hs.localTable, hs.dataInfo]
  constructor
  all_goals simp only [hentry, hs.dataInfo, hs.tpStart, hs.totalChans, hs.validTp]
  case chans => exact h.chans
  case decFactor => exact h.decFactor
  case dataType => exact h.dataType
  case offset => exact h.offset

/-! ## The end of a block -/

/-- Nothing that others read has changed. -/
structure SamePublished (s t : DaqState K) : Prop where
  mem : t.mem = s.mem
  dipc : t.dipc = s.dipc
  tpPtr : t.tpPtr = s.tpPtr
  daqBlockNum : t.daqBlockNum = s.daqBlockNum
  daqXmitBlockNum : t.daqXmitBlockNum = s.daqXmitBlockNum
  pWriteBuffer : t.pWriteBuffer = s.pWriteBuffer

theorem SamePublished.refl (s : DaqState K) : SamePublished s s :=
  ⟨rfl, rfl, rfl, rfl, rfl, rfl⟩

theorem SamePublished.trans (h : SamePublished s t) (h' : SamePublished t u) :
    SamePublished s u :=
  ⟨h'.mem.trans h.mem, h'.dipc.trans h.dipc, h'.tpPtr.trans h.tpPtr,
    h'.daqBlockNum.trans h.daqBlockNum, h'.daqXmitBlockNum.trans h.daqXmitBlockNum,
    h'.pWriteBuffer.trans h.pWriteBuffer⟩

variable [Zero K]

theorem samePublished_reconfigure (s : DaqState K) (pInfo : DaqInfoBlock) :
    SamePublished s (reconfigure B sysRate daqRange s pInfo) := by
  unfold reconfigure
  dsimp only
  split
  all_goals split
  all_goals exact ⟨rfl, rfl, rfl, rfl, rfl, rfl⟩

variable (sysRate daqRange) in
theorem samePublished_checkTps (s : DaqState K) (inp : DaqCall K) :
    SamePublished s (checkTps sysRate daqRange s inp) := by
  obtain ⟨_, _, _, _, _, _, hupdate, -⟩ :=
    slotChange_updateSlots sysRate daqRange s inp
  rw [checkTps, hupdate, countTps_eq]
  exact ⟨rfl, rfl, rfl, rfl, rfl, rfl⟩

variable (B sysRate daqRange) in
theorem samePublished_endBlock (s : DaqState K) (inp : DaqCall K) :
    SamePublished (announce s) (endBlock B sysRate daqRange s inp) :=
  endBlock_induction (SamePublished (announce s)) (SamePublished.refl _)
    (fun h _ _ => h.trans (samePublished_reconfigure _ _))
    (fun _ h => h.trans (samePublished_checkTps _ _ _ inp))
    (fun _ h => { h with })

/-- The look at the GDS tables and the change of the configuration are in different blocks. -/
theorem endBlock_eq (s : DaqState K) (inp : DaqCall K) :
    endBlock B sysRate daqRange s inp =
      if (announce s).daqBlockNum = 15 then checkTps sysRate daqRange (announce s) inp
      else if (announce s).daqBlockNum = 0 then
        updateNet (if inp.reconfig = 1 then
          reconfigure B sysRate daqRange (announce s) inp.pInfo else announce s)
      else announce s := by
  unfold endBlock
  dsimp only
  by_cases hzero : (announce s).daqBlockNum = 0
  · have hreconf : (if inp.reconfig = 1 ∧ (announce s).daqBlockNum = 0 then
        reconfigure B sysRate daqRange (announce s) inp.pInfo else announce s) =
        if inp.reconfig = 1 then reconfigure B sysRate daqRange (announce s) inp.pInfo
        else announce s := by simp only [hzero, and_true]
    have hnum : (if inp.reconfig = 1 then reconfigure B sysRate daqRange (announce s) inp.pInfo
        else announce s).daqBlockNum = 0 := by
      split
      · rw [(samePublished_reconfigure (announce s) inp.pInfo).daqBlockNum, hzero]
      · exact hzero
    have hno : (0 : ℕ) ≠ 15 := by decide
    rw [hreconf, hnum, hzero, if_neg hno, if_neg hno, if_pos rfl, hnum, if_pos rfl]
  · have hreconf : (if inp.reconfig = 1 ∧ (announce s).daqBlockNum = 0 then
        reconfigure B sysRate daqRange (announce s) inp.pInfo else announce s) = announce s :=
      if_neg fun h => hzero h.2
    rw [hreconf]
    by_cases hcheck : (announce s).daqBlockNum = 15
    · have hchecked := (samePublished_checkTps sysRate daqRange
        (announce s) inp).daqBlockNum
      rw [if_pos hcheck, hchecked, if_neg hzero, if_pos hcheck]
    · rw [if_neg hcheck, if_neg hzero, if_neg hcheck, if_neg hzero]

/-! ## All writes of a block -/

/-- The sample of the slot `j` at the cycle `d` of a block. -/
def slotWrite (B : DaqBuild K) (sysRate : ℕ) (t : DaqState K) (inp : DaqCall K) (j d : ℕ) :
    Write where
  addr := t.pWriteBuffer + (t.tpStart + sysRate * 4 * j) + d * 4
  bytes := leBytes 4 (B.toFloat (readSignal t inp (slotEntry t j)))

theorem slotWrite_apart {t' : DaqState K} {inp' : DaqCall K} {j' d' : ℕ}
    (hbase : t'.pWriteBuffer = t.pWriteBuffer) (hstart : t'.tpStart = t.tpStart)
    (hd : d < sysRate) (hd' : d' < sysRate) (hne : j' ≠ j ∨ d' ≠ d) :
    (slotWrite B sysRate t' inp' j' d').stop ≤ (slotWrite B sysRate t inp j d).addr ∨
      (slotWrite B sysRate t inp j d).stop ≤ (slotWrite B sysRate t' inp' j' d').addr := by
  simp only [slotWrite, Write.stop, length_leBytes, hbase, hstart]
  rcases Nat.lt_trichotomy j' j with hlt | heq | hgt
  · have hrows := Nat.mul_le_mul_left (sysRate * 4) (Nat.succ_le_of_lt hlt)
    rw [Nat.mul_succ] at hrows
    omega
  · subst heq
    omega
  · have hrows := Nat.mul_le_mul_left (sysRate * 4) (Nat.succ_le_of_lt hgt)
    rw [Nat.mul_succ] at hrows
    omega

variable [Add K] [Sub K] [Mul K]

def cycleWrites (B : DaqBuild K) (sysRate : ℕ) (s : DaqState K)
    (inp : DaqCall K) : List Write :=
  channelWrites B (atSlot sysRate s) inp ++ (epicsWrites B (atSlot sysRate s) inp).1

/-- The writes of the cycles to the buffer. -/
def blockWrites (B : DaqBuild K) (sysRate : ℕ) (daqRange : DaqRange) :
    DaqState K → List (DaqCall K) → List Write
  | _, [] => []
  | s, inp :: inps => cycleWrites B sysRate s inp ++
      blockWrites B sysRate daqRange (daqWrite B sysRate daqRange s inp) inps

theorem blockWrites_append (s : DaqState K) (as bs : List (DaqCall K)) :
    blockWrites B sysRate daqRange s (as ++ bs) = blockWrites B sysRate daqRange s as ++
      blockWrites B sysRate daqRange (cycles B sysRate daqRange s as) bs := by
  induction as generalizing s with
  | nil => rfl
  | cons a as ih =>
    rw [List.cons_append, blockWrites, blockWrites, ih, List.append_assoc]
    rfl

variable (daqRange) in
theorem mem_daqWrite (s : DaqState K) (inp : DaqCall K) :
    (daqWrite B sysRate daqRange s inp).mem = applyWrites s.mem (cycleWrites B sysRate s inp) := by
  rw [daqWrite_eq]
  split
  · rw [(samePublished_endBlock _ _ _ _ _).mem]
    exact (cycleBody_spec _ _ s inp).2.2.1
  · exact (cycleBody_spec _ _ s inp).2.2.1

theorem mem_cycles (s : DaqState K) (inps : List (DaqCall K)) :
    (cycles B sysRate daqRange s inps).mem =
      applyWrites s.mem (blockWrites B sysRate daqRange s inps) := by
  induction inps generalizing s with
  | nil => rfl
  | cons inp inps ih =>
    rw [blockWrites, applyWrites_append, ← mem_daqWrite daqRange]
    exact ih _

theorem mem_blockWrites {w : Write} (h : w ∈ blockWrites B sysRate daqRange s inps) :
    ∃ as inp bs, inps = as ++ inp :: bs ∧
      w ∈ cycleWrites B sysRate (cycles B sysRate daqRange s as) inp := by
  induction inps generalizing s with
  | nil => exact absurd h List.not_mem_nil
  | cons inp inps ih =>
    rcases List.mem_append.mp h with hhead | htail
    · exact ⟨[], inp, inps, rfl, hhead⟩
    · obtain ⟨as, inp', bs, rfl, hw⟩ := ih htail
      exact ⟨inp :: as, inp', bs, rfl, hw⟩

/-! ## The samples of test points -/

/-- An entry of floats that is not decimated writes a sample in every cycle. -/
theorem channelStep_float (t : DaqState K) (inp : DaqCall K) {ii : ℕ}
    (hdec : (t.localTable ii).decFactor = 1)
    (htype : (t.dataInfo.tp ii).dataType = daqDatatypeFloat) :
    (channelStep B t inp ii).2 = some
      { addr := t.pWriteBuffer + (t.localTable ii).offset + t.daqSlot * 4
        bytes := leBytes 4 (B.toFloat (readSignal t inp (t.localTable ii))) } := by
  have hdecimate : ∀ x h, decimate B 1 x h = (x, h) := fun x h => if_neg (by decide)
  have htypes : daqDatatypeFloat ≠ daqDatatype32BitUint ∧
      daqDatatypeFloat ≠ daqDatatype16BitInt ∧ daqDatatypeFloat ≠ daqDatatype32BitInt ∧
      daqDatatypeFloat ≠ daqDatatypeDouble := by decide
  simp [channelStep, hdec, htype, hdecimate, sampleIndex, sampleSize, sampleBytes, htypes,
    Nat.mod_one]

variable (B inp) in
theorem RowsOk.channelStep (h : RowsOk sysRate t) (hd : t.daqSlot = d) (hj : j < t.validTp) :
    (channelStep B t inp (t.dataInfo.numChans + j)).2 = some (slotWrite B sysRate t inp j d) := by
  rw [channelStep_float t inp (h.decFactor j hj) (h.dataType j hj), hd]
  have hoffset := h.offset j hj
  unfold slotEntry at hoffset
  rw [hoffset]
  rfl

/-- The samples of a channel after the first cycle end before the test points. -/
theorem TpsApart.channelStep (h : TpsApart sysRate t.dataInfo) (hlayout : LayoutOk sysRate t)
    (hd : t.daqSlot < sysRate) (hpos : 0 < t.daqSlot) (hi : i < t.dataInfo.numChans) {w : Write}
    (hw : (channelStep B t inp i).2 = some w) : w.stop ≤ t.pWriteBuffer + t.tpStart := by
  have hrange := channelStep_range (B := B) t inp i
  rw [hw, Option.map_some, sampleRange, hlayout.decFactor i hi, hlayout.offset i hi] at hrange
  split at hrange
  · rename_i hdec
    have hinside := h.inside i hi t.daqSlot hd hpos hdec
    rw [Option.some.injEq, writeRange, Prod.mk.injEq] at hrange
    rw [Write.stop, hlayout.tpStart]
    omega
  · cases hrange

/-- The writes of a cycle up to that of an entry, and those behind it. -/
theorem channelWrites_split {k : ℕ} {w : Write} (hk : k < t.totalChans)
    (hw : (channelStep B t inp k).2 = some w) : ∃ pre post,
      channelWrites B t inp = pre ++ w :: post ∧ ∀ w' ∈ post, ∃ ii, k < ii ∧
        ii < t.totalChans ∧ (channelStep B t inp ii).2 = some w' := by
  obtain ⟨m, hm⟩ : ∃ m, t.totalChans = k + 1 + m := ⟨t.totalChans - (k + 1), by omega⟩
  refine ⟨(List.range k).filterMap fun ii => (channelStep B t inp ii).2,
    ((List.range m).map (k + 1 + ·)).filterMap fun ii => (channelStep B t inp ii).2, ?_, ?_⟩
  · unfold channelWrites
    rw [hm, List.range_add, List.filterMap_append, List.range_succ, List.filterMap_append,
      List.filterMap_cons, hw, List.filterMap_nil, List.append_assoc, List.singleton_append]
  · intro w' hw'
    obtain ⟨ii, hii, hstep⟩ := List.mem_filterMap.mp hw'
    obtain ⟨x, hx, rfl⟩ := List.mem_map.mp hii
    have hxm := List.mem_range.mp hx
    exact ⟨k + 1 + x, by omega, by omega, hstep⟩

variable (B daqRange) in
/-- The state at which the samples of a cycle of a block are taken. -/
theorem within_block (hslot : s.daqSlot = sysRate - 1) (hlen : inps.length < sysRate) :
    SameBlock s (atSlot sysRate (cycles B sysRate daqRange s inps)) ∧
      (atSlot sysRate (cycles B sysRate daqRange s inps)).daqSlot = inps.length := by
  obtain ⟨hsame, hnext⟩ := cycles_within B daqRange hslot hlen
  exact ⟨hsame.trans (sameBlock_atSlot _ _), hnext⟩

/-- What is written at a slot `d` of a block: samples of the slots, or bytes before the test
points, but for the channels at the first one. -/
theorem channelStep_cases (hrows : RowsOk sysRate s) (hlayout : LayoutOk sysRate s)
    (hapart : TpsApart sysRate s.dataInfo) (hsame : SameBlock s t) (hd : t.daqSlot = d)
    (hlt : d < sysRate) {ii : ℕ} (hii : ii < s.totalChans) {w : Write}
    (hw : (channelStep B t inp ii).2 = some w) (hlate : 0 < d ∨ s.dataInfo.numChans ≤ ii) :
    w.stop ≤ s.pWriteBuffer + s.tpStart ∨
      ∃ j, s.dataInfo.numChans + j = ii ∧ w = slotWrite B sysRate t inp j d := by
  have hchans : t.dataInfo.numChans = s.dataInfo.numChans := by rw [hsame.dataInfo]
  by_cases hchan : ii < s.dataInfo.numChans
  · left
    have hapart' : TpsApart sysRate t.dataInfo := by
      rw [hsame.dataInfo]
      exact hapart
    rw [← hsame.pWriteBuffer, ← hsame.tpStart]
    exact hapart'.channelStep (hlayout.congr hsame) (by omega) (by omega) (by omega) hw
  · right
    have hj : ii - s.dataInfo.numChans < t.validTp := by
      rw [hrows.chans] at hii
      rw [hsame.validTp]
      omega
    refine ⟨ii - s.dataInfo.numChans, by omega, ?_⟩
    have hstep := (hrows.congr hsame).channelStep B inp hd hj
    rw [hchans, Nat.add_sub_cancel' (by omega), hw] at hstep
    exact Option.some.inj hstep

variable (B daqRange inp) in
/-- The EPICS data of a cycle end before the test points. -/
theorem epicsWrites_below (hslot : s.daqSlot = sysRate - 1) (hlayout : LayoutOk sysRate s)
    (hapart : TpsApart sysRate s.dataInfo) (hlen : inps.length < sysRate) {w : Write}
    (hw : w ∈ (epicsWrites B (atSlot sysRate (cycles B sysRate daqRange s inps)) inp).1) :
    w.stop ≤ s.pWriteBuffer + s.tpStart := by
  have hstop := (epicsWrites_within hslot hlayout.copied hlen inp).stop_le hw
  have hmono : epicsLength s.dataInfo (inps.length + 1) ≤ epicsLength s.dataInfo sysRate :=
    epicsLength_mono _ hlen
  have hepics := hapart.epics
  rw [hlayout.tpStart]
  omega

variable (B daqRange) in
theorem bytesAt_sample (hslot : s.daqSlot = sysRate - 1) (hrows : RowsOk sysRate s)
    (hlayout : LayoutOk sysRate s) (hapart : TpsApart sysRate s.dataInfo) (hj : j < s.validTp)
    {as bs : List (DaqCall K)} (hlen : (as ++ inp :: bs).length = sysRate) :
    bytesAt (cycles B sysRate daqRange s (as ++ inp :: bs)).mem
        (s.pWriteBuffer + (s.tpStart + sysRate * 4 * j) + as.length * 4) 4 =
      leBytes 4 (B.toFloat (readSignal (atSlot sysRate (cycles B sysRate daqRange s as)) inp
        (slotEntry s j))) := by
  rw [List.length_append, List.length_cons] at hlen
  have hfirst : as.length < sysRate := by omega
  obtain ⟨hsame, hd⟩ := within_block B daqRange hslot hfirst
  have hepics := fun w => epicsWrites_below B daqRange inp (w := w)
    hslot hlayout hapart hfirst
  generalize ht : atSlot sysRate (cycles B sysRate daqRange s as) = t at hsame hd hepics
  have hrows' := hrows.congr hsame
  have hchans : t.dataInfo.numChans = s.dataInfo.numChans := by rw [hsame.dataInfo]
  have hentry : slotEntry t j = slotEntry s j := by
    unfold slotEntry
    rw [hsame.localTable, hsame.dataInfo]
  have hw : (Drv.channelStep B t inp (s.dataInfo.numChans + j)).2 =
      some (slotWrite B sysRate t inp j as.length) := by
    rw [← hchans]
    exact hrows'.channelStep _ _ hd (by rw [hsame.validTp]; exact hj)
  have htotal := hrows.chans
  have hsameTotal := hsame.totalChans
  obtain ⟨pre, post, hsplit, hpost⟩ := channelWrites_split (k := s.dataInfo.numChans + j)
    (by omega) hw
  have haddr : (slotWrite B sysRate t inp j as.length).addr =
      s.pWriteBuffer + (s.tpStart + sysRate * 4 * j) + as.length * 4 := by
    rw [slotWrite, hsame.pWriteBuffer, hsame.tpStart]
  -- what is written later lies before the test points or is another sample
  have hlater : ∀ w' ∈ post ++ (epicsWrites B t inp).1 ++ blockWrites B sysRate daqRange
      (cycles B sysRate daqRange s (as ++ [inp])) bs,
      w'.stop ≤ (slotWrite B sysRate t inp j as.length).addr ∨
        (slotWrite B sysRate t inp j as.length).stop ≤ w'.addr := by
    intro w' hw'
    rcases List.mem_append.mp hw' with hthis | hnext
    · rcases List.mem_append.mp hthis with hchan | hin
      · obtain ⟨ii, hlt, hii, hstep⟩ := hpost w' hchan
        rcases channelStep_cases hrows hlayout hapart hsame hd hfirst (by omega) hstep
          (Or.inr (by omega)) with hbelow | ⟨j', hj', rfl⟩
        · left
          omega
        · exact slotWrite_apart rfl rfl hfirst hfirst (Or.inl (by omega))
      · have hbelow := hepics w' hin
        left
        omega
    · obtain ⟨cs, inp', ds, rfl, hcycle⟩ := mem_blockWrites hnext
      rw [List.length_append, List.length_cons] at hlen
      have hstate : cycles B sysRate daqRange (cycles B sysRate daqRange s (as ++ [inp])) cs =
          cycles B sysRate daqRange s (as ++ inp :: cs) := by
        rw [← cycles_append, List.append_assoc, List.singleton_append]
      rw [hstate] at hcycle
      have hlen' : (as ++ inp :: cs).length < sysRate := by
        rw [List.length_append, List.length_cons]
        omega
      have hlong : as.length < (as ++ inp :: cs).length := by
        rw [List.length_append, List.length_cons]
        omega
      obtain ⟨hsame', hd'⟩ := within_block B daqRange hslot hlen'
      rcases List.mem_append.mp hcycle with hchan | hin
      · obtain ⟨ii, hmem, hstep⟩ := List.mem_filterMap.mp hchan
        have hii := List.mem_range.mp hmem
        rw [hsame'.totalChans] at hii
        rcases channelStep_cases hrows hlayout hapart hsame' hd' hlen' hii hstep
          (Or.inl (by omega)) with hbelow | ⟨j', -, rfl⟩
        · left
          omega
        · exact slotWrite_apart (hsame'.pWriteBuffer.trans hsame.pWriteBuffer.symm)
            (hsame'.tpStart.trans hsame.tpStart.symm) hfirst hlen' (Or.inr (by omega))
      · have hbelow := epicsWrites_below _ _ _ hslot hlayout hapart hlen' hin
        left
        omega
  have hwrites : blockWrites B sysRate daqRange s (as ++ inp :: bs) =
      (blockWrites B sysRate daqRange s as ++ pre) ++ slotWrite B sysRate t inp j as.length ::
        (post ++ (epicsWrites B t inp).1 ++ blockWrites B sysRate daqRange
          (cycles B sysRate daqRange s (as ++ [inp])) bs) := by
    have hstate : daqWrite B sysRate daqRange (cycles B sysRate daqRange s as) inp =
        cycles B sysRate daqRange s (as ++ [inp]) := by
      rw [cycles_append]
      rfl
    rw [blockWrites_append, blockWrites, cycleWrites, ht, hsplit, hstate]
    simp only [List.append_assoc, List.cons_append]
  rw [mem_cycles, hwrites, ← haddr]
  have hread := applyWrites_last s.mem
    (blockWrites B sysRate daqRange s as ++ pre) hlater
  rw [slotWrite, length_leBytes] at hread
  rw [slotWrite, hread, hentry]

end Run

end AdvLigoRts.Drv
