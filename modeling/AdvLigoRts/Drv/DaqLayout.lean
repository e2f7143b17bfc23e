import AdvLigoRts.Drv.DaqWrite
import AdvLigoRts.Lib.FallibleLoop

/-!
# The layout of a DAQ block

`daqConfig` and `loadLocalTable` add up the same sizes in two ways. `chanOffset` is where a
channel starts; `TableLoaded` says that the table holds the channels of a configuration.
-/

namespace AdvLigoRts.Drv

open PvLib

/-! ## Sizes -/

/-- The decimation factor of a channel. -/
def chanDec (sysRate : ℕ) (tp : DaqTp) : ℕ := sysRate / (tp.dataRate / daqNumDataBlocks)

/-- The samples of a channel in a block. -/
def chanSamples (sysRate : ℕ) (tp : DaqTp) : ℕ := sysRate / chanDec sysRate tp

/-- Where the region of the channel `i` starts. -/
def chanOffset (sysRate : ℕ) (info : DaqInfoBlock) (i : ℕ) : ℕ :=
  4 * info.numEpicsTotal + ((List.range i).map fun k =>
    chanSamples sysRate (info.tp k) * daqDataTypeSize (info.tp k).dataType).sum

variable {sysRate : ℕ} {info pInfo old : DaqInfoBlock} {i j k n : ℕ}

@[simp] theorem chanOffset_zero : chanOffset sysRate info 0 = 4 * info.numEpicsTotal := by
  simp [chanOffset]

theorem chanOffset_succ : chanOffset sysRate info (i + 1) = chanOffset sysRate info i +
    chanSamples sysRate (info.tp i) * daqDataTypeSize (info.tp i).dataType := by
  simp [chanOffset, List.range_succ, Nat.add_assoc]

theorem chanOffset_mono (h : i ≤ j) : chanOffset sysRate info i ≤ chanOffset sysRate info j := by
  induction h with
  | refl => exact le_rfl
  | step _ ih =>
    rw [chanOffset_succ]
    omega

/-- The bytes of DAQ data, as `daqConfig` counts them. -/
def daqDataLength (info : DaqInfoBlock) : ℕ :=
  4 * info.numEpicsTotal + ((List.range info.numChans).map fun k =>
    daqDataTypeSize (info.tp k).dataType * (info.tp k).dataRate / daqNumDataBlocks).sum

theorem foldl_add_eq_sum (f : ℕ → ℕ) (l : List ℕ) (a : ℕ) :
    l.foldl (fun a k => a + f k) a = a + (l.map f).sum := by
  induction l generalizing a with
  | nil => rfl
  | cons k l ih => rw [List.foldl_cons, ih, List.map_cons, List.sum_cons, Nat.add_assoc]

/-- The bytes of EPICS integers that are copied. -/
def copiedInts (info : DaqInfoBlock) : ℕ :=
  if info.cpyepics2times then info.cpyIntSize.1 + info.cpyIntSize.2 else info.cpyIntSize.1

/-- What `daqConfig` leaves. -/
structure Configured (old pInfo info : DaqInfoBlock) : Prop where
  bound : pInfo.numChans ≤ dcuMaxChannels
  numChans : info.numChans = pInfo.numChans
  numEpicsInts : info.numEpicsInts = pInfo.numEpicsInts
  numEpicsFloats : info.numEpicsFloats = pInfo.numEpicsFloats
  numEpicsTotal : info.numEpicsTotal = pInfo.numEpicsTotal
  copied : copiedInts info = 4 * info.numEpicsInts
  tp : ∀ k, info.tp k = if k < pInfo.numChans then pInfo.tp k else old.tp k

theorem daqConfig_ok {maxModules cdsEpicsOutInts len : ℕ}
    (h : daqConfig maxModules cdsEpicsOutInts old pInfo = some (info, len)) :
    Configured old pInfo info ∧ len = daqDataLength info := by
  unfold daqConfig at h
  split at h
  · cases h
  · rename_i hbound
    rw [Option.some.injEq, Prod.mk.injEq] at h
    obtain ⟨rfl, rfl⟩ := h
    refine ⟨⟨not_lt.mp hbound, rfl, rfl, rfl, rfl, ?_, fun k => rfl⟩, foldl_add_eq_sum _ _ _⟩
    unfold copiedInts
    dsimp only
    split
    · -- in two parts, of which the second is not empty
      rename_i htwice
      have hpart := (decide_eq_true_iff.mp htwice).2
      omega
    · exact Nat.mul_comm _ _

/-! ## The table -/

/-- The entries of the first `n` channels are in the table, from the table `old`. -/
structure TableLoaded (sysRate : ℕ) (info : DaqInfoBlock) (old table : ℕ → DaqLkupTable) (n : ℕ) :
    Prop where
  decFactor : ∀ i < n, (table i).decFactor = chanDec sysRate (info.tp i)
  offset : ∀ i ≤ n, (table i).offset = chanOffset sysRate info i
  next : table n = { old n with offset := chanOffset sysRate info n }
  rest : ∀ i > n, table i = old i

theorem setSource_same {daqRange : DaqRange} {tpnum : ℕ} {lt lt' : DaqLkupTable}
    (h : setSource daqRange tpnum lt = some lt') :
    lt'.decFactor = lt.decFactor ∧ lt'.offset = lt.offset := by
  unfold setSource at h
  iterate 4
    split at h
    · cases h
      exact ⟨rfl, rfl⟩
  cases h

/-- One of the ranges holds the number. -/
def DaqRange.Holds (r : DaqRange) (tpnum : ℕ) : Prop :=
  (r.filtTpMin ≤ tpnum ∧ tpnum < r.filtTpMax) ∨ (r.filtExMin ≤ tpnum ∧ tpnum < r.filtExMax) ∨
    (r.xTpMin ≤ tpnum ∧ tpnum < r.xTpMax) ∨ (r.xExMin ≤ tpnum ∧ tpnum < r.xExMax)

instance (r : DaqRange) (tpnum : ℕ) : Decidable (r.Holds tpnum) :=
  inferInstanceAs (Decidable (_ ∨ _ ∨ _ ∨ _))

theorem setSource_eq_none {r : DaqRange} {tpnum : ℕ} {lt : DaqLkupTable} :
    setSource r tpnum lt = none ↔ ¬ r.Holds tpnum := by
  unfold setSource DaqRange.Holds
  dsimp only
  split
  · simp_all
  · split
    · simp_all
    · split
      · simp_all
      · split
        · simp_all
        · simp_all

/-- What the loop of `loadLocalTable` leaves besides the table. -/
structure XferLoaded (sysRate : ℕ) (info : DaqInfoBlock) (len : ℤ) (x : DaqXferInfo) (n : ℕ) :
    Prop where
  crcLength : x.crcLength = len
  totalSize : x.totalSize = len
  totalSizeNet : x.totalSizeNet = len
  offsetAccum : x.offsetAccum = chanOffset sysRate info n

theorem loadChannel_ok {daqRange : DaqRange} {old : ℕ → DaqLkupTable} {len : ℤ}
    {s t : DaqXferInfo × (ℕ → DaqLkupTable)} (hx : XferLoaded sysRate info len s.1 n)
    (ht : TableLoaded sysRate info old s.2 n)
    (h : loadChannel sysRate info daqRange s n = .ok t) :
    XferLoaded sysRate info len t.1 (n + 1) ∧
      TableLoaded sysRate info old t.2 (n + 1) := by
  unfold loadChannel at h
  dsimp only at h
  split at h
  · cases h
  · split at h
    · cases h
    · rename_i lt hsource
      obtain ⟨hdec, hoffset⟩ := setSource_same hsource
      rw [Except.ok.injEq] at h
      subst h
      have hnext : s.1.offsetAccum + sysRate / (sysRate / ((info.tp n).dataRate /
          daqNumDataBlocks)) * daqDataTypeSize (info.tp n).dataType =
          chanOffset sysRate info (n + 1) := by
        rw [chanOffset_succ, hx.offsetAccum]
        rfl
      refine ⟨⟨hx.crcLength, hx.totalSize, hx.totalSizeNet, hnext⟩, ?_⟩
      constructor
      case decFactor =>
        intro i hi
        by_cases hin : i = n
        · subst hin
          simp [hdec, chanDec]
        · have hlt : i < n := by omega
          have hne : i ≠ n + 1 := by omega
          simp [hin, hne, ht.decFactor i hlt]
      case offset =>
        intro i hi
        by_cases hin : i = n
        · subst hin
          simp [hoffset, ht.offset]
        · by_cases hin1 : i = n + 1
          · subst hin1
            simp [hnext]
          · simp [hin, hin1, ht.offset i (by omega)]
      case next => simp [hnext, ht.rest]
      case rest =>
        intro i hi
        have hne : i ≠ n := by omega
        have hne1 : i ≠ n + 1 := by omega
        simp [hne, hne1, ht.rest i (by omega)]

theorem loadLocalTable_ok {daqRange : DaqRange} {old table : ℕ → DaqLkupTable}
    {x y : DaqXferInfo} {crc : ℕ}
    (h : loadLocalTable sysRate x old info daqRange crc = .ok (y, table)) :
    XferLoaded sysRate info x.crcLength y info.numChans ∧
      TableLoaded sysRate info old table info.numChans := by
  refine foldlM_range_invariant (fun n s => XferLoaded sysRate info x.crcLength s.1 n ∧
    TableLoaded sysRate info old s.2 n) ?_ ⟨?_, ?_⟩ h
  · rintro n - s t ⟨hx, ht⟩ hok
    exact loadChannel_ok hx ht hok
  · exact ⟨rfl, rfl, rfl, by simp⟩
  · constructor
    case decFactor => exact fun i hi => absurd hi (Nat.not_lt_zero i)
    case offset =>
      intro i hi
      obtain rfl := Nat.le_zero.mp hi
      simp
    case next => simp
    case rest =>
      intro i hi
      have hne : i ≠ 0 := by omega
      simp [hne]

end AdvLigoRts.Drv
