import AdvLigoRts.PubSub.RecvBuffer

/-!
# What the receive buffer passes on

Two facts about `receive_buffer`. For messages that fit, the slot of a key holds exactly the
messages of that key, one behind the other, and `process_slice_at` passes them on (`Collected`).
-/

namespace AdvLigoRts.PubSub

open BufferEntry

/-! ## The loop over the models -/

/-- The number of models a slot holds. -/
def BufferEntry.count (e : BufferEntry) : ℕ := e.ifoData.header.dcuTotalModels

/-- The headers that `ingest` does not skip. -/
def storable (hs : List DaqMsgHeader) : List DaqMsgHeader := hs.filter fun h => h.dcuId ≠ 0

/-- The bytes that belong to some headers. -/
def totalSize (hs : List DaqMsgHeader) : ℕ := (hs.map DaqMsgHeader.blockSize).sum

/-- All that the loop of `ingest` does to the counts and origins, however it ends. -/
structure Stored (key : GpsKey) (hs : List DaqMsgHeader) (e : BufferEntry)
    (r : Bool × BufferEntry) : Prop where
  latest_eq : r.2.latest = e.latest
  count_le : e.count ≤ r.2.count
  origin_old : ∀ i < e.count, r.2.origin i = e.origin i
  origin_new : ∀ i, e.count ≤ i → i < r.2.count → r.2.origin i = key
  finished_iff : r.1 = true ↔ storable hs = [] ∨
    (e.count + (storable hs).length ≤ daqTransitMaxDcu ∧
      e.data + totalSize (storable hs) ≤ daqTransitDcDataBlockSize)
  count_lt_iff : e.count < r.2.count ↔ e.count < daqTransitMaxDcu ∧
    ∃ h, (storable hs).head? = some h ∧ e.data + h.blockSize ≤ daqTransitDcDataBlockSize

theorem stored_ingestModels (key : GpsKey) (timestamp : ℤ) (input : DaqMultiDcuData)
    (hs : List DaqMsgHeader) (inputData : ℕ) (e : BufferEntry) :
    Stored key hs e (ingestModels key timestamp input hs inputData e) := by
  induction hs generalizing inputData e with
  | nil =>
    refine ⟨rfl, le_refl _, fun _ _ => rfl, fun i h h' => ?_, ?_, ?_⟩
    · exact absurd h' (not_lt.mpr h)
    · simp [ingestModels, storable]
    · simp [ingestModels, storable]
  | cons h hs ih =>
    unfold ingestModels
    by_cases hid : h.dcuId = 0
    · -- the header is skipped
      rw [if_pos hid]
      have hskip : storable (h :: hs) = storable hs := by simp [storable, hid]
      obtain ⟨h1, h2, h3, h4, h5, h6⟩ := ih inputData e
      exact ⟨h1, h2, h3, h4, hskip ▸ h5, hskip ▸ h6⟩
    · rw [if_neg hid]
      have hkeep : storable (h :: hs) = h :: storable hs := by simp [storable, hid]
      have hsize : totalSize (h :: storable hs) = h.blockSize + totalSize (storable hs) := by
        simp [totalSize]
      by_cases hfull : e.ifoData.header.dcuTotalModels ≥ daqTransitMaxDcu
      · rw [if_pos hfull]
        -- the slot has all the models it can hold
        have hfull' : daqTransitMaxDcu ≤ e.count := hfull
        refine ⟨rfl, le_refl _, fun _ _ => rfl, fun i h h' => absurd h' (not_lt.mpr h), ?_, ?_⟩
        · simp only [hkeep, List.length_cons, reduceCtorEq, false_or, false_iff, Bool.false_eq_true]
          omega
        · simp only [lt_self_iff_false, false_iff]
          omega
      · rw [if_neg hfull]
        have hroom : e.count < daqTransitMaxDcu := not_le.mp hfull
        simp only
        set e₁ := e.putHeader e.ifoData.header.dcuTotalModels h with he₁
        have hdata : e₁.data = e.data := rfl
        have hcount : e₁.count = e.count := rfl
        by_cases hend : e₁.data + h.blockSize > daqTransitDcDataBlockSize
        · rw [if_pos hend]
          refine ⟨rfl, le_refl _, fun _ _ => rfl, fun i h h' => absurd h' (not_lt.mpr h), ?_, ?_⟩
          · simp only [hkeep, hsize, reduceCtorEq, false_or, false_iff, Bool.false_eq_true]
            omega
          · simp only [hkeep, List.head?_cons, Option.some.injEq, exists_eq_left', hcount,
              lt_self_iff_false, false_iff]
            omega
        · rw [if_neg hend]
          obtain ⟨h1, h2, h3, h4, h5, h6⟩ := ih (inputData + h.blockSize)
            (e₁.putBlock key timestamp input inputData h.blockSize)
          set e₂ := e₁.putBlock key timestamp input inputData h.blockSize with he₂
          have hcount₂ : e₂.count = e.count + 1 := rfl
          have hdata₂ : e₂.data = e.data + h.blockSize := rfl
          have horigin : e₂.origin = Function.update e.origin e.count key := rfl
          refine ⟨h1, by omega, fun i hi => ?_, fun i hi hi' => ?_, ?_, ?_⟩
          · rw [h3 i (by omega), horigin, Function.update_of_ne (by omega)]
          · by_cases hi₂ : i = e.count
            · rw [h3 i (by omega), horigin, hi₂, Function.update_self]
            · exact h4 i (by omega) hi'
          · rw [h5, hkeep, hsize, hcount₂, hdata₂]
            simp only [List.length_cons, reduceCtorEq, false_or]
            constructor
            · rintro (hnil | ⟨hlen, htot⟩)
              · simp only [hnil, totalSize, List.length_nil, List.map_nil, List.sum_nil]
                omega
              · omega
            · rintro ⟨hlen, htot⟩
              exact .inr ⟨by omega, by omega⟩
          · simp only [hkeep, List.head?_cons, Option.some.injEq, exists_eq_left']
            omega

/-! ## Times kept apart -/

/-- All models a slot shows came with messages of the key it shows. -/
def NoMixing (e : BufferEntry) : Prop := ∀ i < e.count, e.origin i = e.latest

/-- The message is newer than the slot, its first block fits, and not all of it does. -/
def Torn (e : BufferEntry) (input : DaqMultiDcuData) : Prop :=
  e.latest < keyOf input ∧
  (∃ h, (storable input.models).head? = some h ∧ h.blockSize ≤ daqTransitDcDataBlockSize) ∧
  (daqTransitMaxDcu < (storable input.models).length ∨
    daqTransitDcDataBlockSize < totalSize (storable input.models))

variable {e : BufferEntry} {input : DaqMultiDcuData}

/-- The part of `ingest` after the comparison keeps the times apart if the slot already has
the message's key. -/
theorem noMixing_accept_same (h : NoMixing e) (t : Tracking) (timestamp : ℤ)
    (hkey : keyOf input = e.latest) : NoMixing (e.accept t timestamp input).1 := by
  have hst := stored_ingestModels (keyOf input) timestamp input input.models 0
    { e with lastInjestion := timestamp }
  have hall : ∀ i < (ingestModels (keyOf input) timestamp input input.models 0
      { e with lastInjestion := timestamp }).2.count,
      (ingestModels (keyOf input) timestamp input input.models 0
        { e with lastInjestion := timestamp }).2.origin i = e.latest := by
    intro i hi
    rcases Nat.lt_or_ge i e.count with hlt | hge
    · rw [hst.origin_old i hlt]
      exact h i hlt
    · rw [hst.origin_new i hge hi, hkey]
  unfold accept
  simp only
  split
  · rename_i e' he'
    rw [he'] at hall
    intro i hi
    exact (hall i hi).trans hkey.symm
  · rename_i e' he'
    rw [he'] at hall hst
    intro i hi
    exact (hall i hi).trans hst.latest_eq.symm

/-- On a slot just cleared for a newer key, it mixes times exactly when it stores something
and returns early. -/
theorem noMixing_accept_newer (t : Tracking) (timestamp : ℤ) (hcount : e.count = 0)
    (hdata : e.data = 0) (hkey : e.latest < keyOf input) :
    NoMixing (e.accept t timestamp input).1 ↔ ¬ Torn e input := by
  have hst := stored_ingestModels (keyOf input) timestamp input input.models 0
    { e with lastInjestion := timestamp }
  unfold accept
  simp only
  generalize he : ({ e with lastInjestion := timestamp } : BufferEntry) = e₁ at hst ⊢
  have hcount₁ : e₁.count = 0 := he ▸ hcount
  have hdata₁ : e₁.data = 0 := he ▸ hdata
  have hlatest₁ : e₁.latest = e.latest := he ▸ rfl
  have hfin := hst.finished_iff
  have hsome := hst.count_lt_iff
  have hnew := hst.origin_new
  simp only [hcount₁, hdata₁, Nat.zero_add, Nat.zero_le, forall_const] at hfin hsome hnew
  have hmax : 0 < daqTransitMaxDcu := by decide
  split
  · rename_i e' he'
    rw [he'] at hfin hnew
    -- the loop ran to its end, so everything fitted
    have hfits := hfin.mp rfl
    refine iff_of_true (fun i hi => hnew i hi) ?_
    rintro ⟨-, ⟨h, hhead, -⟩, hover⟩
    rcases hfits with hnil | hfits
    · rw [hnil] at hhead
      cases hhead
    · omega
  · rename_i e' he'
    rw [he'] at hfin hnew hsome hst
    -- it returned early, so the old key stays; whether it shows depends on the first block
    have hover : ¬ ((storable input.models).length ≤ daqTransitMaxDcu ∧
        totalSize (storable input.models) ≤ daqTransitDcDataBlockSize) := by
      intro hfits
      have := hfin.mpr (.inr hfits)
      cases this
    have htorn : Torn e input ↔ 0 < e'.count := by
      rw [hsome]
      exact ⟨fun ht => ⟨hmax, ht.2.1⟩, fun hs => ⟨hkey, hs.2, by omega⟩⟩
    rw [htorn]
    constructor
    · intro hno hpos
      have hzero := hno 0 hpos
      rw [hnew 0 hpos, hst.latest_eq, hlatest₁] at hzero
      exact absurd hzero hkey.ne'
    · intro hzero i hi
      exact absurd (Nat.zero_lt_of_lt hi) hzero

/-- One message, from a slot that keeps times apart. -/
theorem noMixing_ingest (h : NoMixing e) (t : Tracking) (timestamp : ℤ)
    (input : DaqMultiDcuData) : NoMixing (e.ingest t timestamp input).1 ↔ ¬ Torn e input := by
  unfold ingest
  split
  · rename_i hnewer
    exact noMixing_accept_newer _ timestamp (e := { e.clear with firstInjestion := timestamp })
      rfl rfl hnewer
  · rename_i hnot
    have htorn : ¬ Torn e input := fun ht => hnot ht.1
    split
    · exact iff_of_true h htorn
    · rename_i hnot'
      have hkey : keyOf input = e.latest := le_antisymm (not_lt.mp hnot) (not_lt.mp hnot')
      exact iff_of_true (noMixing_accept_same h t timestamp hkey) htorn

/-- The slot after a sequence of `buffer_entry::ingest` calls. -/
def BufferEntry.ingestAll (msgs : List (ℤ × DaqMultiDcuData)) : BufferEntry × Tracking :=
  msgs.foldl (fun s m => s.1.ingest s.2 m.1 m.2) (.start, {})

theorem ingestAll_take_succ {msgs : List (ℤ × DaqMultiDcuData)} {n : ℕ} (hn : n < msgs.length) :
    (ingestAll (msgs.take (n + 1))).1 = ((ingestAll (msgs.take n)).1.ingest
      (ingestAll (msgs.take n)).2 msgs[n].1 msgs[n].2).1 := by
  rw [List.take_succ_eq_append_getElem hn, ingestAll, List.foldl_append]
  rfl

/-- What a slot shows is all of one time, to `process_if` as well. -/
def OneTime (e : BufferEntry) : Prop :=
  NoMixing e ∧ ∀ k d, (e.processIf k).1 = some d →
    ∀ i < d.header.dcuTotalModels, e.origin i = k

theorem oneTime_iff : OneTime e ↔ NoMixing e := by
  refine ⟨And.left, fun h => ⟨h, fun k d hd i hi => ?_⟩⟩
  unfold processIf at hd
  split at hd
  · cases hd
  · rename_i hk
    cases hd
    exact (h i hi).trans (not_not.mp hk).symm

/-- Over every sequence of messages, of any size: the slot shows blocks of one time only, in
every state, if and only if no message was newer than the slot when it came, fitted with its
first block and did not fit as a whole. -/
theorem one_time_iff_not_torn (msgs : List (ℤ × DaqMultiDcuData)) :
    (∀ n ≤ msgs.length, OneTime (ingestAll (msgs.take n)).1) ↔
      ∀ n (hn : n < msgs.length), ¬ Torn (ingestAll (msgs.take n)).1 msgs[n].2 := by
  simp only [oneTime_iff]
  constructor
  · intro h n hn
    rw [← noMixing_ingest (h n hn.le) (ingestAll (msgs.take n)).2 msgs[n].1, ←
      ingestAll_take_succ hn]
    exact h (n + 1) hn
  · intro h n
    induction n with
    | zero =>
      intro _ i hi
      exact absurd hi (Nat.not_lt_zero i)
    | succ n ih =>
      intro hn
      rw [ingestAll_take_succ hn]
      exact (noMixing_ingest (ih (Nat.le_of_succ_le hn)) _ _ _).mpr (h n hn)

private def twoModels (timeSec : UInt32) (secondSize : UInt32) : DaqMultiDcuData where
  header :=
    { dcuTotalModels := 2
      fullDataBlockSize := 8
      dcuheader := fun i =>
        if i = 0 then { dcuId := 5, timeSec := timeSec, dataBlockSize := 8 }
        else { dcuId := 6, timeSec := timeSec, dataBlockSize := secondSize } }
  dataBlock := fun _ => 1

/-- A message of second 11 whose second block cannot fit leaves its first block in a slot
that still shows second 10. -/
theorem oversized_message_mixes_times :
    ¬ OneTime (ingestAll [(0, twoModels 10 8), (1, twoModels 11 0xffffffff)]).1 := by
  rw [oneTime_iff]
  intro h
  have hzero := h 0 (by decide +kernel)
  revert hzero
  decide +kernel

/-! ## Reassembly of one key -/

/-- `d` holds exactly the given messages: their headers and their payloads, one behind the
other, and the counts of both. -/
structure Collected (d : DaqMultiDcuData) (ms : List DaqMultiDcuData) : Prop where
  models_eq : d.models = ms.flatMap DaqMultiDcuData.models
  count_eq : d.header.dcuTotalModels = (ms.flatMap DaqMultiDcuData.models).length
  size_eq : d.header.fullDataBlockSize = (ms.flatMap DaqMultiDcuData.payload).length
  data_eq : d.slice 0 d.header.fullDataBlockSize = ms.flatMap DaqMultiDcuData.payload

/-- A slot that holds exactly the given messages, with the write pointer behind them. -/
structure Holds (e : BufferEntry) (ms : List DaqMultiDcuData) : Prop where
  collected : Collected e.ifoData ms
  data_eq : e.data = e.ifoData.header.fullDataBlockSize

theorem length_slice (d : DaqMultiDcuData) (pos n : ℕ) : (d.slice pos n).length = n := by
  simp [DaqMultiDcuData.slice]

theorem length_payload (d : DaqMultiDcuData) : d.payload.length = totalSize d.models :=
  length_slice ..

theorem slice_add (d : DaqMultiDcuData) (pos n m : ℕ) :
    d.slice pos (n + m) = d.slice pos n ++ d.slice (pos + n) m := by
  simp [DaqMultiDcuData.slice, List.range_add, Nat.add_assoc]

theorem slice_congr {d d' : DaqMultiDcuData} {pos pos' n : ℕ}
    (h : ∀ j < n, d.dataBlock (pos + j) = d'.dataBlock (pos' + j)) :
    d.slice pos n = d'.slice pos' n :=
  List.map_congr_left fun j hj => h j (List.mem_range.mp hj)

theorem models_putBlock_putHeader (e : BufferEntry) (key : GpsKey) (timestamp : ℤ)
    (input : DaqMultiDcuData) (inputData : ℕ) (h : DaqMsgHeader) :
    let e' := (e.putHeader e.count h).putBlock key timestamp input inputData h.blockSize
    e'.ifoData.models = e.ifoData.models ++ [h] ∧
      e'.ifoData.slice 0 e'.data
        = e.ifoData.slice 0 e.data ++ input.slice inputData h.blockSize := by
  refine ⟨?_, ?_⟩
  · have hold : ∀ i ∈ List.range e.count,
        Function.update e.ifoData.header.dcuheader e.count h i = e.ifoData.header.dcuheader i := by
      intro i hi
      rw [Function.update_of_ne (List.mem_range.mp hi).ne]
    simp only [DaqMultiDcuData.models, putBlock, putHeader, List.range_succ, List.map_append]
    rw [← show e.count = e.ifoData.header.dcuTotalModels from rfl, List.map_congr_left hold]
    simp
  · have hdata : (e.putHeader e.count h).data = e.data := rfl
    simp only [putBlock, hdata]
    rw [slice_add]
    congr 1
    · -- below the write pointer nothing changes
      refine slice_congr fun j hj => ?_
      simp only [Nat.zero_add, putHeader]
      rw [if_neg (by omega)]
    · refine slice_congr fun j hj => ?_
      simp only [Nat.zero_add, putHeader]
      rw [if_pos ⟨by omega, by omega⟩, Nat.add_sub_cancel_left]

/-- The loop of `ingest` stores all models of a message when they fit. -/
theorem ingestModels_of_fits (key : GpsKey) (timestamp : ℤ) (input : DaqMultiDcuData)
    {hs : List DaqMsgHeader} (inputData : ℕ) (e : BufferEntry)
    (hid : ∀ h ∈ hs, h.dcuId ≠ 0) (hcount : e.count + hs.length ≤ daqTransitMaxDcu)
    (hsize : e.data + totalSize hs ≤ daqTransitDcDataBlockSize)
    (hdata : e.data = e.ifoData.header.fullDataBlockSize) :
    ∃ e', ingestModels key timestamp input hs inputData e = (true, e') ∧
      e'.latest = e.latest ∧ e'.data = e.data + totalSize hs ∧
      e'.data = e'.ifoData.header.fullDataBlockSize ∧
      e'.ifoData.models = e.ifoData.models ++ hs ∧
      e'.ifoData.slice 0 e'.data
        = e.ifoData.slice 0 e.data ++ input.slice inputData (totalSize hs) := by
  induction hs generalizing inputData e with
  | nil => exact ⟨e, rfl, rfl, by simp [totalSize], hdata, by simp,
      by simp [totalSize, DaqMultiDcuData.slice]⟩
  | cons h hs ih =>
    have htotal : totalSize (h :: hs) = h.blockSize + totalSize hs := by simp [totalSize]
    rw [List.length_cons] at hcount
    rw [htotal] at hsize
    obtain ⟨hmodels, hslice⟩ := models_putBlock_putHeader e key timestamp input inputData h
    have hroom : ¬ e.ifoData.header.dcuTotalModels ≥ daqTransitMaxDcu := by
      change ¬ e.count ≥ _
      omega
    have hend : ¬ (e.putHeader e.ifoData.header.dcuTotalModels h).data + h.blockSize
        > daqTransitDcDataBlockSize := by
      change ¬ e.data + h.blockSize > _
      omega
    unfold ingestModels
    rw [if_neg (hid h List.mem_cons_self), if_neg hroom]
    simp only
    rw [if_neg hend]
    change ∃ e', ingestModels key timestamp input hs _
      ((e.putHeader e.count h).putBlock key timestamp input inputData h.blockSize) = _ ∧ _
    set e₂ := (e.putHeader e.count h).putBlock key timestamp input inputData h.blockSize with he₂
    have hcount₂ : e₂.count = e.count + 1 := rfl
    have hdata₂ : e₂.data = e.data + h.blockSize := rfl
    -- the sum of `unsigned int`s cannot wrap for what fits a slot
    have hfull₂ : e₂.data = e₂.ifoData.header.fullDataBlockSize := by
      have hval : e₂.ifoData.header.fullDataBlockSize
          = (e.ifoData.header.fullDataBlockSize + h.blockSize) % 2 ^ 32 := rfl
      have hcap : daqTransitDcDataBlockSize < 2 ^ 32 := by decide
      rw [hval, hdata₂, ← hdata, Nat.mod_eq_of_lt (by omega)]
    obtain ⟨e', hrun, hlatest, hdata', hfull', hmodels', hslice'⟩ :=
      ih (inputData + h.blockSize) e₂
        (fun h' hh' => hid h' (List.mem_cons_of_mem _ hh')) (by omega) (by omega) hfull₂
    refine ⟨e', hrun, hlatest.trans rfl, by omega, hfull', ?_, ?_⟩
    · rw [hmodels', hmodels, List.append_assoc, List.singleton_append]
    · rw [hslice', hslice, htotal, slice_add, List.append_assoc]

/-- A message as senders form it. -/
structure WellFormed (input : DaqMultiDcuData) : Prop where
  models_pos : 0 < input.header.dcuTotalModels
  models_le : input.header.dcuTotalModels ≤ daqTransitMaxDcu
  cycle_lt : (input.header.dcuheader 0).cycle.toNat < maxCycle
  dcuId_ne : ∀ h ∈ input.models, h.dcuId ≠ 0

def FitSlot (ms : List DaqMultiDcuData) : Prop :=
  (ms.flatMap DaqMultiDcuData.models).length ≤ daqTransitMaxDcu ∧
    (ms.flatMap DaqMultiDcuData.payload).length ≤ daqTransitDcDataBlockSize

variable {ms : List DaqMultiDcuData}

theorem Holds.accept (h : Holds e ms) (t : Tracking) (timestamp : ℤ) (hwf : WellFormed input)
    (hfit : FitSlot (ms ++ [input])) :
    Holds (e.accept t timestamp input).1 (ms ++ [input]) ∧
      (e.accept t timestamp input).1.latest = keyOf input := by
  obtain ⟨hmodels, hcount, hsize, hdata⟩ := h.collected
  have hptr := h.data_eq
  simp only [FitSlot, List.flatMap_append, List.flatMap_cons, List.flatMap_nil, List.append_nil,
    List.length_append, length_payload] at hfit
  have hcount' : e.count + input.models.length ≤ daqTransitMaxDcu := by
    rw [BufferEntry.count, hcount]
    exact hfit.1
  have hsize' : e.data + totalSize input.models ≤ daqTransitDcDataBlockSize := by
    rw [hptr, hsize]
    exact hfit.2
  obtain ⟨e', hrun, -, hdata', hfull', hmodels', hslice'⟩ :=
    ingestModels_of_fits (keyOf input) timestamp input 0 { e with lastInjestion := timestamp }
      hwf.dcuId_ne hcount' hsize' hptr
  unfold BufferEntry.accept
  simp only [hrun]
  refine ⟨⟨⟨?_, ?_, ?_, ?_⟩, hfull'⟩, trivial⟩
  · simp [hmodels', hmodels]
  · have hlen := congrArg List.length hmodels'
    simp only [DaqMultiDcuData.models, List.length_map, List.length_range, List.length_append]
      at hlen
    simp [hlen, hcount, DaqMultiDcuData.models]
  · rw [← hfull', hdata', hptr, hsize]
    simp [length_payload]
  · rw [← hfull', hslice', hptr, hdata]
    simp [DaqMultiDcuData.payload, totalSize]

/-- A slot just cleared holds nothing. -/
theorem holds_of_empty (hcount : e.count = 0) (hdata : e.data = 0)
    (hsize : e.ifoData.header.fullDataBlockSize = 0) : Holds e [] := by
  have hcount' : e.ifoData.header.dcuTotalModels = 0 := hcount
  refine ⟨⟨?_, ?_, ?_, ?_⟩, hdata.trans hsize.symm⟩
  · simp [DaqMultiDcuData.models, hcount']
  · simp [hcount']
  · simp [hsize]
  · simp [hsize, DaqMultiDcuData.slice]

/-! ## Every sequence of operations -/

def inSlot (N j : ℕ) (m : DaqMultiDcuData) : Bool := decide (ReceiveBuffer.slotOf N m = j)

def ofKey (k : GpsKey) (m : DaqMultiDcuData) : Bool := decide (keyOf m = k)

/-- What a slot is after the messages `ms` have come to it: it shows the largest key of them
and holds the messages of that key. -/
structure SlotOk (ms : List DaqMultiDcuData) (e : BufferEntry) : Prop where
  le_latest : ∀ m ∈ ms, keyOf m ≤ e.latest
  latest_mem : e.latest = .zero ∨ ∃ m ∈ ms, keyOf m = e.latest
  holds : Holds e (ms.filter (ofKey e.latest))

theorem slotOk_start : SlotOk [] .start :=
  ⟨fun _ hm => absurd hm List.not_mem_nil, .inl rfl, holds_of_empty rfl rfl rfl⟩

theorem SlotOk.ingest (h : SlotOk ms e) (t : Tracking) (timestamp : ℤ) (hwf : WellFormed input)
    (hfit : FitSlot ((ms ++ [input]).filter (ofKey (keyOf input)))) :
    SlotOk (ms ++ [input]) (e.ingest t timestamp input).1 := by
  have hself : [input].filter (ofKey (keyOf input)) = [input] := by simp [ofKey]
  rw [List.filter_append, hself] at hfit
  unfold BufferEntry.ingest
  split
  · rename_i hnewer
    -- no message so far has the new key, so the cleared slot is what they leave of it
    have hnone : ms.filter (ofKey (keyOf input)) = [] := by
      refine List.filter_eq_nil_iff.mpr fun m hm hk => ?_
      have hk' : keyOf m = keyOf input := of_decide_eq_true hk
      exact absurd (h.le_latest m hm) (not_le.mpr (hk' ▸ hnewer))
    rw [hnone] at hfit
    obtain ⟨hholds, hlatest⟩ :=
      (holds_of_empty (e := { e.clear with firstInjestion := timestamp }) rfl rfl rfl).accept
        { t with span := e.lastInjestion - e.firstInjestion } timestamp hwf hfit
    refine ⟨fun m hm => ?_, ?_, ?_⟩
    · rw [hlatest]
      rcases List.mem_append.mp hm with hm | hm
      · exact (h.le_latest m hm).trans hnewer.le
      · rw [List.mem_singleton.mp hm]
    · exact .inr ⟨input, by simp, hlatest.symm⟩
    · rw [hlatest, List.filter_append, hnone, hself]
      exact hholds
  · rename_i hnot
    split
    · rename_i holder
      -- an older message is discarded, and none of the slot's key
      have hno : [input].filter (ofKey e.latest) = [] := by simp [ofKey, holder.ne]
      refine ⟨fun m hm => ?_, ?_, ?_⟩
      · rcases List.mem_append.mp hm with hm | hm
        · exact h.le_latest m hm
        · rw [List.mem_singleton.mp hm]
          exact holder.le
      · refine h.latest_mem.imp id ?_
        rintro ⟨m, hm, hk⟩
        exact ⟨m, List.mem_append_left _ hm, hk⟩
      · rw [List.filter_append, hno, List.append_nil]
        exact h.holds
    · rename_i hnot'
      have hkey : keyOf input = e.latest := le_antisymm (not_lt.mp hnot) (not_lt.mp hnot')
      obtain ⟨hholds, hlatest⟩ := h.holds.accept t timestamp hwf (hkey ▸ hfit)
      rw [hkey] at hlatest hself
      refine ⟨fun m hm => ?_, ?_, ?_⟩
      · rw [hlatest]
        rcases List.mem_append.mp hm with hm | hm
        · exact h.le_latest m hm
        · rw [List.mem_singleton.mp hm, hkey]
      · exact .inr ⟨input, by simp, hlatest ▸ hkey⟩
      · rw [hlatest, List.filter_append, hself]
        exact hholds

/-- Processing a slot does not change what it holds. -/
theorem SlotOk.processIf (h : SlotOk ms e) (k : GpsKey) : SlotOk ms (e.processIf k).2 := by
  unfold BufferEntry.processIf
  split
  · exact h
  · exact ⟨h.le_latest, h.latest_mem, h.holds.collected, h.holds.data_eq⟩

theorem slotOf_eq {m : DaqMultiDcuData} (hwf : WellFormed m) (N : ℕ) :
    ReceiveBuffer.slotOf N m = cycleToIndex N (keyOf m).cycle := by
  have hlt : (m.header.dcuheader 0).cycle < 16 := by
    simpa [UInt32.lt_iff_toNat_lt, maxCycle] using hwf.cycle_lt
  rw [keyOf, GpsKey.cycle_ofTime _ hlt, ReceiveBuffer.slotOf]

theorem filter_inSlot_ofKey (hms : ∀ m ∈ ms, WellFormed m) (N : ℕ) (k : GpsKey) :
    (ms.filter (inSlot N (cycleToIndex N k.cycle))).filter (ofKey k)
      = ms.filter (ofKey k) := by
  rw [List.filter_filter]
  refine List.filter_congr fun m hm => ?_
  by_cases hmk : keyOf m = k
  · simp [inSlot, ofKey, slotOf_eq (hms m hm), hmk]
  · simp [ofKey, hmk]

/-- The messages of each key fit one slot. -/
def FitSlots (ms : List DaqMultiDcuData) : Prop := ∀ k, FitSlot (ms.filter (ofKey k))

theorem FitSlot.of_append {ms' : List DaqMultiDcuData} (h : FitSlot (ms ++ ms')) : FitSlot ms := by
  simp only [FitSlot, List.flatMap_append, List.length_append] at h ⊢
  omega

theorem messages_append (as bs : List RecvAction) :
    messages (as ++ bs) = messages as ++ messages bs := by
  simp [messages]

/-- After any sequence of operations every slot is what its messages make of it. -/
theorem slotOk_execAll {N : ℕ} {as : List RecvAction} (hwf : ∀ m ∈ messages as, WellFormed m)
    (hfit : FitSlots (messages as)) (j : ℕ) :
    SlotOk ((messages as).filter (inSlot N j)) ((ReceiveBuffer.execAll N as).buffer j) := by
  induction as using List.reverseRecOn with
  | nil => exact slotOk_start
  | append_singleton as a ih =>
    rw [messages_append] at hwf hfit ⊢
    have hwf' : ∀ m ∈ messages as, WellFormed m := fun m hm =>
      hwf m (List.mem_append_left _ hm)
    have hfit' : FitSlots (messages as) := fun k => by
      have hk := hfit k
      rw [List.filter_append] at hk
      exact hk.of_append
    have hih := ih hwf' hfit'
    have hexec : ReceiveBuffer.execAll N (as ++ [a])
        = (ReceiveBuffer.execAll N as).exec N a := by
      simp [ReceiveBuffer.execAll]
    rw [hexec]
    cases a with
    | ingest timestamp input =>
      have hin : WellFormed input := hwf input (by simp [messages])
      have hok : ReceiveBuffer.malformed input = false := by
        have h1 := hin.models_pos
        have h2 := hin.models_le
        have h3 := hin.cycle_lt
        simp only [ReceiveBuffer.malformed, decide_eq_false_iff_not]
        omega
      simp only [ReceiveBuffer.exec, ReceiveBuffer.ingest, hok]
      by_cases hj : ReceiveBuffer.slotOf N input = j
      · have hmine : (messages [.ingest timestamp input]).filter (inSlot N j) = [input] := by
          simp [messages, inSlot, hj]
        rw [List.filter_append, hmine]
        subst hj
        simp only [Bool.false_eq_true, if_false, Function.update_self]
        refine hih.ingest _ timestamp hin ?_
        rw [List.filter_append, slotOf_eq hin, filter_inSlot_ofKey hwf', ← List.filter_append]
        exact hfit (keyOf input)
      · have hother : (messages [.ingest timestamp input]).filter (inSlot N j) = [] := by
          simp [messages, inSlot, hj]
        rw [List.filter_append, hother, List.append_nil]
        simp only [Bool.false_eq_true, if_false, Function.update_of_ne (Ne.symm hj)]
        exact hih
    | processSliceAt k =>
      have hnone : messages [.processSliceAt k] = [] := rfl
      rw [hnone, List.append_nil]
      simp only [ReceiveBuffer.exec, ReceiveBuffer.processSliceAt]
      by_cases hj : cycleToIndex N k.cycle = j
      · subst hj
        rw [Function.update_self]
        exact hih.processIf k
      · rw [Function.update_of_ne (Ne.symm hj)]
        exact hih

/-- What `process_slice_at( k )` owes after a sequence of operations: its callback runs when a
message of key `k` came and none of a larger key did in the same slot, and is then given
exactly the messages of key `k`, in order of arrival. -/
def Reassembles (N : ℕ) (as : List RecvAction) (k : GpsKey) : Prop :=
  (((ReceiveBuffer.execAll N as).processSliceAt N k).1.isSome = true ↔
    (∃ m ∈ messages as, keyOf m = k) ∧
      ∀ m ∈ messages as, ReceiveBuffer.slotOf N m = cycleToIndex N k.cycle → keyOf m ≤ k) ∧
  ∀ d, ((ReceiveBuffer.execAll N as).processSliceAt N k).1 = some d →
    Collected d ((messages as).filter (ofKey k))

/-- Over every sequence of well-formed messages that fit, `process_slice_at` does what it owes
for every key, except for the key 0 while nothing has come to its slot: the slot was
constructed with that key, so the callback runs on no data. -/
theorem process_slice_reassembles {N : ℕ} {as : List RecvAction}
    (hwf : ∀ m ∈ messages as, WellFormed m) (hfit : FitSlots (messages as)) (k : GpsKey) :
    Reassembles N as k ↔ k ≠ .zero ∨
      ∃ m ∈ messages as, ReceiveBuffer.slotOf N m = cycleToIndex N k.cycle := by
  have hok := slotOk_execAll (N := N) hwf hfit (cycleToIndex N k.cycle)
  unfold Reassembles
  simp only [ReceiveBuffer.processSliceAt]
  generalize (ReceiveBuffer.execAll N as).buffer (cycleToIndex N k.cycle) = e at hok ⊢
  have hin : ∀ m, m ∈ (messages as).filter (inSlot N (cycleToIndex N k.cycle)) ↔
      m ∈ messages as ∧ ReceiveBuffer.slotOf N m = cycleToIndex N k.cycle := by
    intro m
    simp [inSlot]
  -- the callback runs exactly when the slot shows the key
  have hruns : (e.processIf k).1.isSome = true ↔ e.latest = k := by
    unfold BufferEntry.processIf
    by_cases hk : k = e.latest
    · simp [hk]
    · simpa [hk] using Ne.symm hk
  have hcontent : ∀ d, (e.processIf k).1 = some d →
      Collected d ((messages as).filter (ofKey k)) := by
    intro d hd
    have hlatest : e.latest = k := hruns.mp (by simp [hd])
    have hcoll := hok.holds.collected
    rw [hlatest, filter_inSlot_ofKey hwf] at hcoll
    have hde : d = e.ifoData := by
      simp only [BufferEntry.processIf, hlatest, ne_eq, not_true_eq_false, if_false,
        Option.some.injEq] at hd
      exact hd.symm
    exact hde ▸ hcoll
  rw [and_iff_left hcontent, hruns]
  constructor
  · intro hiff
    by_contra hno
    rw [not_or, not_not] at hno
    obtain ⟨hzero, hnone⟩ := hno
    have hlatest : e.latest = k := by
      rcases hok.latest_mem with hz | ⟨m, hm, -⟩
      · rw [hz, hzero]
      · exact absurd ⟨m, (hin m).mp hm⟩ hnone
    obtain ⟨⟨m, hm, hmk⟩, -⟩ := hiff.mp hlatest
    exact hnone ⟨m, hm, by rw [slotOf_eq (hwf m hm), hmk]⟩
  · intro hcond
    constructor
    · intro hlatest
      refine ⟨?_, fun m hm hs => hlatest ▸ hok.le_latest m ((hin m).mpr ⟨hm, hs⟩)⟩
      rcases hok.latest_mem with hz | ⟨m, hm, hmk⟩
      · -- the slot shows key 0, so whatever came to it has key 0
        rcases hcond with hne | ⟨m, hm, hs⟩
        · exact absurd (hlatest.symm.trans hz) hne
        · have hle := hok.le_latest m ((hin m).mpr ⟨hm, hs⟩)
          exact ⟨m, hm, (le_antisymm hle (hz ▸ GpsKey.zero_le _)).trans hlatest⟩
      · exact ⟨m, ((hin m).mp hm).1, hmk.trans hlatest⟩
    · rintro ⟨⟨m, hm, hmk⟩, hmax⟩
      have hs : ReceiveBuffer.slotOf N m = cycleToIndex N k.cycle := by
        rw [slotOf_eq (hwf m hm), hmk]
      have hle : k ≤ e.latest := hmk ▸ hok.le_latest m ((hin m).mpr ⟨hm, hs⟩)
      refine le_antisymm ?_ hle
      rcases hok.latest_mem with hz | ⟨m', hm', hmk'⟩
      · exact hz ▸ GpsKey.zero_le k
      · obtain ⟨hm'', hs'⟩ := (hin m').mp hm'
        exact hmk' ▸ hmax m' hm'' hs'

/-- A message with one model of four bytes. -/
private def oneModel (timeSec cycle : UInt32) : DaqMultiDcuData where
  header :=
    { dcuTotalModels := 1
      fullDataBlockSize := 4
      dcuheader := fun _ =>
        { dcuId := 5, timeSec := timeSec, cycle := cycle, dataBlockSize := 4 } }
  dataBlock := fun j => UInt8.ofNat j

/-- Second 0, cycle 1 is all that has come; the callback runs for cycle 0 all the same. -/
theorem callback_runs_without_message :
    ¬ Reassembles 4 [.ingest 0 (oneModel 0 1)] .zero := by
  rintro ⟨hruns, -⟩
  obtain ⟨⟨m, hm, hk⟩, -⟩ := hruns.mp (by decide +kernel)
  obtain rfl : m = oneModel 0 1 := by simpa [messages] using hm
  revert hk
  decide +kernel

theorem wellFormed_oneModel {timeSec cycle : UInt32} (h : cycle.toNat < maxCycle) :
    WellFormed (oneModel timeSec cycle) :=
  ⟨by simp [oneModel], by simp [oneModel, daqTransitMaxDcu], h,
    by simp [oneModel, DaqMultiDcuData.models]⟩

/-- Two senders of one cycle, the second after the cycle of the next slot has begun. -/
private def twoSenders : List RecvAction :=
  [.ingest 0 (oneModel 10 4), .ingest 1 (oneModel 10 5), .ingest 2 (oneModel 10 4)]

theorem process_slice_reassembles_twoSenders :
    Reassembles 4 twoSenders (.ofTime 10 4) := by
  have hmsgs : messages twoSenders = [oneModel 10 4, oneModel 10 5, oneModel 10 4] := rfl
  refine (process_slice_reassembles ?_ ?_ _).mpr (.inl (by decide))
  · intro m hm
    rw [hmsgs] at hm
    simp only [List.mem_cons, List.not_mem_nil, or_false] at hm
    rcases hm with rfl | rfl | rfl <;> exact wellFormed_oneModel (by decide)
  · intro k
    have hlen : ((messages twoSenders).filter (ofKey k)).length ≤ 3 := by
      rw [hmsgs]
      exact List.length_filter_le _ _
    have hall : ∀ m ∈ (messages twoSenders).filter (ofKey k),
        m.models.length = 1 ∧ m.payload.length = 4 := by
      intro m hm
      have hm' := (List.mem_filter.mp hm).1
      rw [hmsgs] at hm'
      simp only [List.mem_cons, List.not_mem_nil, or_false] at hm'
      rcases hm' with rfl | rfl | rfl <;> decide +kernel
    have hbound : ∀ ms : List DaqMultiDcuData,
        (∀ m ∈ ms, m.models.length = 1 ∧ m.payload.length = 4) →
        (ms.flatMap DaqMultiDcuData.models).length = ms.length ∧
          (ms.flatMap DaqMultiDcuData.payload).length = 4 * ms.length := by
      intro ms
      induction ms with
      | nil => simp
      | cons m ms ih =>
        intro h
        obtain ⟨h1, h2⟩ := h m List.mem_cons_self
        obtain ⟨h3, h4⟩ := ih fun m' hm' => h m' (List.mem_cons_of_mem _ hm')
        simp only [List.flatMap_cons, List.length_append, List.length_cons, h1, h2, h3, h4]
        omega
    obtain ⟨h1, h2⟩ := hbound _ hall
    unfold FitSlot
    rw [h1, h2]
    simp only [daqTransitMaxDcu, daqTransitDcDataBlockSize, daqTransitMaxDcByteSec,
      daqNumDataBlocks]
    omega

end AdvLigoRts.PubSub
