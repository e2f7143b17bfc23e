import AdvLigoRts.PubSub.RecvBufferTheorems

/-!
# The payloads in the receive buffer

A message carries the payloads of its models one behind the other, whatever their `dcuId`.
-/

namespace AdvLigoRts.PubSub

open BufferEntry

/-! ## Where the models of a message go -/

/-- The number of models in front of model `i` that are not skipped. -/
def slotIndex (input : DaqMultiDcuData) (i : ℕ) : ℕ := (storable (input.models.take i)).length

/-- The bytes of the models in front of model `i` that are skipped. -/
def skippedSize (input : DaqMultiDcuData) (i : ℕ) : ℕ :=
  totalSize ((input.models.take i).filter fun h => h.dcuId = 0)

/-- The slot that the models of a message are added to: a newer message clears it. -/
def BufferEntry.opened (e : BufferEntry) (input : DaqMultiDcuData) : BufferEntry :=
  if keyOf input > e.latest then e.clear else e

/-- Model `i` is one that the loop gets to and has room for. -/
def Copies (e : BufferEntry) (input : DaqMultiDcuData) (i : ℕ) : Prop :=
  i < input.header.dcuTotalModels ∧ (input.header.dcuheader i).dcuId ≠ 0 ∧
    e.count + slotIndex input i < daqTransitMaxDcu ∧
    e.data + totalSize (storable (input.models.take (i + 1))) ≤ daqTransitDcDataBlockSize

/-- Each header that the message added to the slot `e` has the payload of its model at its own
offset. -/
def KeepsPayloads (e : BufferEntry) (input : DaqMultiDcuData) (r : BufferEntry) : Prop :=
  ∀ k, e.count ≤ k → k < r.count →
    ∃ i < input.header.dcuTotalModels, e.count + slotIndex input i = k ∧
      (input.header.dcuheader i).dcuId ≠ 0 ∧
      r.ifoData.header.dcuheader k = input.header.dcuheader i ∧
      r.ifoData.slice (r.ifoData.offset k) (input.header.dcuheader i).blockSize =
        input.slice (input.offset i) (input.header.dcuheader i).blockSize

theorem length_models (d : DaqMultiDcuData) : d.models.length = d.header.dcuTotalModels := by
  rw [DaqMultiDcuData.models, List.length_map, List.length_range]

theorem getElem?_models {d : DaqMultiDcuData} {i : ℕ} (hi : i < d.header.dcuTotalModels) :
    d.models[i]? = some (d.header.dcuheader i) := by
  rw [DaqMultiDcuData.models, List.getElem?_map, List.getElem?_range hi, Option.map_some]

theorem totalSize_append (as bs : List DaqMsgHeader) :
    totalSize (as ++ bs) = totalSize as + totalSize bs := by
  rw [totalSize, List.map_append, List.sum_append]
  rfl

theorem offset_eq (input : DaqMultiDcuData) (i : ℕ) :
    input.offset i = totalSize (storable (input.models.take i)) + skippedSize input i := by
  show totalSize (input.models.take i) = _
  unfold skippedSize storable
  induction input.models.take i with
  | nil => rfl
  | cons h hs ih =>
    have hcons : ∀ l, totalSize (h :: l) = h.blockSize + totalSize l := totalSize_append [h]
    by_cases hid : h.dcuId = 0
    · simp only [List.filter_cons, hid, hcons, ih, ne_eq, not_true_eq_false, decide_false,
        Bool.false_eq_true, if_false, decide_true, if_true]
      omega
    · simp only [List.filter_cons, hid, hcons, ih, ne_eq, not_false_eq_true, decide_false,
        Bool.false_eq_true, if_false, decide_true, if_true]
      omega

theorem filter_take {α : Type} {p : α → Bool} {l : List α} {a : α} {i : ℕ} (ha : l[i]? = some a)
    (hp : p a = true) :
    (l.filter p).take ((l.take i).filter p).length = (l.take i).filter p ∧
      (l.filter p)[((l.take i).filter p).length]? = some a ∧
      (l.take (i + 1)).filter p = (l.take i).filter p ++ [a] := by
  obtain ⟨hi, rfl⟩ := List.getElem?_eq_some_iff.mp ha
  have hsplit : l.filter p = (l.take i).filter p ++ (l[i] :: (l.drop (i + 1)).filter p) := by
    conv_lhs => rw [← List.take_append_drop i l, List.drop_eq_getElem_cons hi]
    rw [List.filter_append, List.filter_cons, if_pos hp]
  refine ⟨?_, ?_, ?_⟩
  · rw [hsplit, List.take_left']
    rfl
  · rw [hsplit, List.getElem?_append_right (le_refl _), Nat.sub_self]
    rfl
  · rw [List.take_succ_eq_append_getElem hi, List.filter_append, List.filter_cons, if_pos hp]
    rfl

theorem exists_of_filter {α : Type} {p : α → Bool} {l : List α} {j : ℕ}
    (hj : j < (l.filter p).length) :
    ∃ i a, l[i]? = some a ∧ p a = true ∧ ((l.take i).filter p).length = j := by
  induction l generalizing j with
  | nil => simp at hj
  | cons b l ih =>
    by_cases hb : p b = true
    · cases j with
      | zero => exact ⟨0, b, rfl, hb, rfl⟩
      | succ j =>
        rw [List.filter_cons, if_pos hb, List.length_cons] at hj
        obtain ⟨i, a, hi, ha, hlen⟩ := ih (Nat.lt_of_succ_lt_succ hj)
        refine ⟨i + 1, a, hi, ha, ?_⟩
        rw [List.take_succ_cons, List.filter_cons, if_pos hb, List.length_cons, hlen]
    · rw [List.filter_cons, if_neg hb] at hj
      obtain ⟨i, a, hi, ha, hlen⟩ := ih hj
      refine ⟨i + 1, a, hi, ha, ?_⟩
      rw [List.take_succ_cons, List.filter_cons, if_neg hb, hlen]

/-! ## The loop -/

/-- What the loop over the headers `hs`, with the read pointer at `inputData`, does to a slot: it
adds the first `m` that are not skipped, and their bytes as the read pointer finds them. -/
structure Copied (input : DaqMultiDcuData) (hs : List DaqMsgHeader) (inputData : ℕ)
    (e r : BufferEntry) (m : ℕ) : Prop where
  models_eq : r.ifoData.models = e.ifoData.models ++ (storable hs).take m
  data_eq : r.data = e.data + totalSize ((storable hs).take m)
  old : ∀ x < e.data, r.ifoData.dataBlock x = e.ifoData.dataBlock x
  new : ∀ x < totalSize ((storable hs).take m),
    r.ifoData.dataBlock (e.data + x) = input.dataBlock (inputData + x)
  lt_iff : ∀ j, j < m ↔ j < (storable hs).length ∧ e.count + j < daqTransitMaxDcu ∧
    e.data + totalSize ((storable hs).take (j + 1)) ≤ daqTransitDcDataBlockSize

/-- The loop stops at the first model. -/
theorem copied_none {input : DaqMultiDcuData} {hs : List DaqMsgHeader} {inputData : ℕ}
    {e r : BufferEntry} (hmodels : r.ifoData.models = e.ifoData.models) (hdata : r.data = e.data)
    (hblock : r.ifoData.dataBlock = e.ifoData.dataBlock)
    (hstop : ∀ h, (storable hs).head? = some h →
      daqTransitMaxDcu ≤ e.count ∨ daqTransitDcDataBlockSize < e.data + h.blockSize) :
    Copied input hs inputData e r 0 where
  models_eq := by rw [hmodels, List.take_zero, List.append_nil]
  data_eq := hdata
  old := fun x _ => congrFun hblock x
  new := fun x hx => absurd hx (Nat.not_lt_zero x)
  lt_iff := by
    intro j
    refine ⟨fun h => absurd h (Nat.not_lt_zero j), fun ⟨hj, hcount, hsize⟩ => ?_⟩
    cases hst : storable hs with
    | nil => simp [hst] at hj
    | cons h st =>
      have hcons : totalSize (h :: st.take j) = h.blockSize + totalSize (st.take j) :=
        totalSize_append [h] _
      rw [hst, List.take_succ_cons, hcons] at hsize
      rcases hstop h (by rw [hst]; rfl) with hfull | hlarge
      · omega
      · omega

theorem exists_copied (key : GpsKey) (timestamp : ℤ) (input : DaqMultiDcuData)
    (hs : List DaqMsgHeader) (inputData : ℕ) (e : BufferEntry) :
    ∃ m, Copied input hs inputData e (ingestModels key timestamp input hs inputData e).2 m := by
  induction hs generalizing inputData e with
  | nil => exact ⟨0, copied_none rfl rfl rfl (fun h hnil => nomatch hnil)⟩
  | cons h hs ih =>
    unfold ingestModels
    by_cases hid : h.dcuId = 0
    · -- the header is skipped, and the read pointer stays where it is
      rw [if_pos hid]
      obtain ⟨m, hcopied⟩ := ih inputData e
      have hskip : storable (h :: hs) = storable hs := by simp [storable, hid]
      exact ⟨m, hskip ▸ hcopied.models_eq, hskip ▸ hcopied.data_eq, hcopied.old,
        hskip ▸ hcopied.new, hskip ▸ hcopied.lt_iff⟩
    · rw [if_neg hid]
      have hkeep : storable (h :: hs) = h :: storable hs := by simp [storable, hid]
      have hsize : ∀ l, totalSize (h :: l) = h.blockSize + totalSize l := totalSize_append [h]
      by_cases hfull : e.ifoData.header.dcuTotalModels ≥ daqTransitMaxDcu
      · rw [if_pos hfull]
        exact ⟨0, copied_none rfl rfl rfl fun _ _ => Or.inl hfull⟩
      · rw [if_neg hfull]
        have hroom : e.count < daqTransitMaxDcu := not_le.mp hfull
        dsimp only
        by_cases hend : (e.putHeader e.ifoData.header.dcuTotalModels h).data + h.blockSize >
            daqTransitDcDataBlockSize
        · rw [if_pos hend]
          -- the header is there, but it is not counted
          refine ⟨0, copied_none ?_ rfl rfl ?_⟩
          · apply List.map_congr_left
            intro i hi
            exact Function.update_of_ne (List.mem_range.mp hi).ne _ _
          · intro h' hhead
            rw [hkeep, List.head?_cons, Option.some.injEq] at hhead
            subst hhead
            exact Or.inr hend
        · rw [if_neg hend]
          have hfits : e.data + h.blockSize ≤ daqTransitDcDataBlockSize := not_lt.mp hend
          obtain ⟨hmodels, -⟩ := models_putBlock_putHeader e key timestamp input inputData h
          obtain ⟨m, hcopied⟩ := ih (inputData + h.blockSize)
            ((e.putHeader e.count h).putBlock key timestamp input inputData h.blockSize)
          refine ⟨m + 1, ?_, ?_, ?_, ?_, ?_⟩
          · show (ingestModels key timestamp input hs _
              ((e.putHeader e.count h).putBlock key timestamp input inputData
                h.blockSize)).2.ifoData.models = _
            rw [hcopied.models_eq, hmodels, hkeep, List.take_succ_cons, List.append_assoc]
            rfl
          · show (ingestModels key timestamp input hs _
              ((e.putHeader e.count h).putBlock key timestamp input inputData
                h.blockSize)).2.data = _
            rw [hcopied.data_eq, hkeep, List.take_succ_cons, hsize, ← Nat.add_assoc]
            rfl
          · intro x hx
            have hbefore := hcopied.old x (by show x < e.data + h.blockSize; omega)
            refine hbefore.trans ?_
            show (if e.data ≤ x ∧ x < e.data + h.blockSize then _ else _) = _
            rw [if_neg (by omega)]
            rfl
          · intro x hx
            rw [hkeep, List.take_succ_cons, hsize] at hx
            by_cases hxh : x < h.blockSize
            · have hbefore := hcopied.old (e.data + x)
                (by show e.data + x < e.data + h.blockSize; omega)
              refine hbefore.trans ?_
              show (if e.data ≤ e.data + x ∧ e.data + x < e.data + h.blockSize then
                input.dataBlock (inputData + (e.data + x - e.data)) else _) = _
              rw [if_pos (by omega), Nat.add_sub_cancel_left]
            · have hafter := hcopied.new (x - h.blockSize) (by omega)
              have hsrc : inputData + h.blockSize + (x - h.blockSize) = inputData + x := by omega
              have hdst : e.data + h.blockSize + (x - h.blockSize) = e.data + x := by omega
              rw [hsrc] at hafter
              rw [← hafter, ← hdst]
              rfl
          · intro j
            cases j with
            | zero =>
              have hone : totalSize ((h :: storable hs).take 1) = h.blockSize := hsize []
              rw [hkeep, hone, List.length_cons]
              exact ⟨fun _ => ⟨Nat.succ_pos _, hroom, hfits⟩, fun _ => Nat.succ_pos m⟩
            | succ j =>
              rw [Nat.succ_lt_succ_iff, hcopied.lt_iff j, hkeep, List.length_cons,
                List.take_succ_cons, hsize]
              show _ ∧ e.count + 1 + j < _ ∧ e.data + h.blockSize + _ ≤ _ ↔ _
              omega

section Positions

variable {input : DaqMultiDcuData} {e r : BufferEntry} {i i' j m : ℕ}

/-- What stands in front of a model that is not skipped. -/
theorem storable_take (hi : i < input.header.dcuTotalModels)
    (hid : (input.header.dcuheader i).dcuId ≠ 0) :
    (storable input.models).take (slotIndex input i) = storable (input.models.take i) ∧
      (storable input.models)[slotIndex input i]? = some (input.header.dcuheader i) ∧
      storable (input.models.take (i + 1)) =
        storable (input.models.take i) ++ [input.header.dcuheader i] :=
  filter_take (getElem?_models hi) (by simpa using hid)

theorem slotIndex_lt (hi : i < input.header.dcuTotalModels)
    (hid : (input.header.dcuheader i).dcuId ≠ 0) (hlt : i < i') :
    slotIndex input i < slotIndex input i' := by
  obtain ⟨-, -, hnext⟩ := storable_take hi hid
  have hle : slotIndex input (i + 1) ≤ slotIndex input i' := by
    unfold slotIndex storable
    apply List.Sublist.length_le
    apply List.Sublist.filter
    exact (List.take_prefix_take_left hlt).sublist
  rw [slotIndex, hnext, List.length_append, List.length_singleton] at hle
  exact hle

theorem slotIndex_inj (hi : i < input.header.dcuTotalModels)
    (hid : (input.header.dcuheader i).dcuId ≠ 0) (hi' : i' < input.header.dcuTotalModels)
    (hid' : (input.header.dcuheader i').dcuId ≠ 0) (h : slotIndex input i = slotIndex input i') :
    i = i' := by
  rcases lt_trichotomy i i' with hlt | heq | hgt
  · exact absurd h (slotIndex_lt hi hid hlt).ne
  · exact heq
  · exact absurd h (slotIndex_lt hi' hid' hgt).ne'

theorem Copied.copies_iff (h : Copied input input.models 0 e r m)
    (hi : i < input.header.dcuTotalModels) (hid : (input.header.dcuheader i).dcuId ≠ 0) :
    Copies e input i ↔ slotIndex input i < m := by
  obtain ⟨htake, hget, hnext⟩ := storable_take hi hid
  obtain ⟨hlt, hhead⟩ := List.getElem?_eq_some_iff.mp hget
  have hsucc : (storable input.models).take (slotIndex input i + 1) =
      storable (input.models.take (i + 1)) := by
    rw [List.take_succ_eq_append_getElem hlt, htake, hhead, hnext]
  rw [h.lt_iff, hsucc]
  exact ⟨fun hc => ⟨hlt, hc.2.2⟩, fun hc => ⟨hi, hid, hc.2⟩⟩

theorem Copied.count_eq (h : Copied input input.models 0 e r m) : r.count = e.count + m := by
  have hlen := congrArg List.length h.models_eq
  have hle : m ≤ (storable input.models).length := by
    by_contra hlt
    exact absurd ((h.lt_iff _).mp (not_le.mp hlt)).1 (lt_irrefl _)
  rw [List.length_append, length_models, length_models, List.length_take, min_eq_left hle] at hlen
  exact hlen

/-- The write pointer of a slot stands behind the payloads of its models. -/
def BufferEntry.Sized (e : BufferEntry) : Prop := e.data = totalSize e.ifoData.models

theorem Copied.copied_model (h : Copied input input.models 0 e r m) (hsized : e.Sized)
    (hi : Copies e input i) :
    r.ifoData.header.dcuheader (e.count + slotIndex input i) = input.header.dcuheader i ∧
      r.ifoData.slice (r.ifoData.offset (e.count + slotIndex input i))
          (input.header.dcuheader i).blockSize =
        input.slice (input.offset i - skippedSize input i)
          (input.header.dcuheader i).blockSize := by
  obtain ⟨htake, hget, hnext⟩ := storable_take hi.1 hi.2.1
  have hlt : slotIndex input i < m := (h.copies_iff hi.1 hi.2.1).mp hi
  have hlen : e.ifoData.models.length = e.count := length_models _
  constructor
  · have hmodel : r.ifoData.models[e.count + slotIndex input i]? =
        some (input.header.dcuheader i) := by
      rw [h.models_eq, List.getElem?_append_right (by omega), hlen, Nat.add_sub_cancel_left,
        List.getElem?_take_of_lt hlt, hget]
    have hcount : e.count + slotIndex input i < r.ifoData.header.dcuTotalModels := by
      show _ < r.count
      rw [h.count_eq]
      omega
    rw [getElem?_models hcount] at hmodel
    exact Option.some.inj hmodel
  · have hoffset : r.ifoData.offset (e.count + slotIndex input i) =
        e.data + totalSize (storable (input.models.take i)) := by
      show totalSize (r.ifoData.models.take _) = _
      rw [h.models_eq, ← hlen, List.take_length_add_append, totalSize_append, List.take_take,
        min_eq_left hlt.le, htake, ← hsized]
    have hsource : input.offset i - skippedSize input i =
        totalSize (storable (input.models.take i)) := by
      rw [offset_eq, Nat.add_sub_cancel]
    have hinside : totalSize (storable (input.models.take i)) +
        (input.header.dcuheader i).blockSize ≤ totalSize ((storable input.models).take m) := by
      obtain ⟨hlt', hhead⟩ := List.getElem?_eq_some_iff.mp hget
      have hsplit : (storable input.models).take m = (storable input.models).take
          (slotIndex input i + 1) ++
            ((storable input.models).take m).drop (slotIndex input i + 1) := by
        conv_lhs => rw [← List.take_append_drop (slotIndex input i + 1)
          ((storable input.models).take m), List.take_take, min_eq_left hlt]
      rw [hsplit, List.take_succ_eq_append_getElem hlt', htake, hhead, totalSize_append,
        totalSize_append]
      exact Nat.le_add_right _ _
    rw [hoffset, hsource]
    apply slice_congr
    intro x hx
    rw [Nat.add_assoc, h.new _ (by omega), Nat.zero_add]

theorem Copied.keepsPayloads_iff (h : Copied input input.models 0 e r m) (hsized : e.Sized) :
    KeepsPayloads e input r ↔ ∀ i, Copies e input i →
      input.slice (input.offset i - skippedSize input i) (input.header.dcuheader i).blockSize =
        input.slice (input.offset i) (input.header.dcuheader i).blockSize := by
  constructor
  · intro hkeeps i hi
    have hlt : slotIndex input i < m := (h.copies_iff hi.1 hi.2.1).mp hi
    obtain ⟨i', hi', hindex, hid', -, hslice⟩ := hkeeps (e.count + slotIndex input i)
      (Nat.le_add_right _ _) (by rw [h.count_eq]; omega)
    obtain rfl : i' = i := slotIndex_inj hi' hid' hi.1 hi.2.1 (by omega)
    rw [← (h.copied_model hsized hi).2, hslice]
  · intro halign k hk hkr
    rw [h.count_eq] at hkr
    obtain ⟨hj, -⟩ := (h.lt_iff (k - e.count)).mp (by omega)
    obtain ⟨i, a, ha, hp, hindex⟩ := exists_of_filter hj
    have hi : i < input.header.dcuTotalModels := by
      rw [← length_models]
      exact (List.getElem?_eq_some_iff.mp ha).1
    rw [getElem?_models hi, Option.some.injEq] at ha
    have hid : (input.header.dcuheader i).dcuId ≠ 0 := by
      rw [ha]
      simpa using hp
    have hindex' : slotIndex input i = k - e.count := hindex
    have hcopies : Copies e input i := (h.copies_iff hi hid).mpr (by omega)
    have hk' : e.count + slotIndex input i = k := by omega
    obtain ⟨hheader, hslice⟩ := h.copied_model hsized hcopies
    rw [hk'] at hheader hslice
    exact ⟨i, hi, hk', hid, hheader, hslice.trans (halign i hcopies)⟩

theorem Copied.sized (h : Copied input input.models 0 e r m) (hsized : e.Sized) : r.Sized := by
  show r.data = totalSize r.ifoData.models
  rw [h.data_eq, h.models_eq, totalSize_append, ← hsized]

end Positions

/-! ## Every slot -/

theorem BufferEntry.Sized.opened {e : BufferEntry} (h : e.Sized) (input : DaqMultiDcuData) :
    (e.opened input).Sized := by
  unfold BufferEntry.opened
  split
  · rfl
  · exact h

/-- A message that is not older than the slot goes through the loop on the slot it opens. -/
theorem ingest_of_not_older {e : BufferEntry} (t : Tracking) (timestamp : ℤ)
    {input : DaqMultiDcuData} (hkey : ¬ keyOf input < e.latest) :
    ∃ e₀ : BufferEntry, ∃ r, e₀.ifoData = (e.opened input).ifoData ∧
      e₀.data = (e.opened input).data ∧
      r = (ingestModels (keyOf input) timestamp input input.models 0 e₀).2 ∧
      (e.ingest t timestamp input).1.ifoData = r.ifoData ∧
      (e.ingest t timestamp input).1.data = r.data := by
  have haccept : ∀ (e₀ : BufferEntry) (t : Tracking),
      (e₀.accept t timestamp input).1.ifoData = (ingestModels (keyOf input) timestamp input
          input.models 0 { e₀ with lastInjestion := timestamp }).2.ifoData ∧
        (e₀.accept t timestamp input).1.data = (ingestModels (keyOf input) timestamp input
          input.models 0 { e₀ with lastInjestion := timestamp }).2.data := by
    intro e₀ t
    unfold BufferEntry.accept
    dsimp only
    split
    · rename_i e' hrun
      rw [hrun]
      exact ⟨rfl, rfl⟩
    · rename_i e' hrun
      rw [hrun]
      exact ⟨rfl, rfl⟩
  unfold BufferEntry.ingest BufferEntry.opened
  by_cases hnewer : keyOf input > e.latest
  · rw [if_pos hnewer, if_pos hnewer]
    obtain ⟨hifo, hdata⟩ := haccept { e.clear with firstInjestion := timestamp }
      { t with span := e.lastInjestion - e.firstInjestion }
    exact ⟨{ e.clear with firstInjestion := timestamp, lastInjestion := timestamp }, _, rfl, rfl,
      rfl, hifo, hdata⟩
  · rw [if_neg hnewer, if_neg hnewer, if_neg hkey]
    obtain ⟨hifo, hdata⟩ := haccept e t
    exact ⟨{ e with lastInjestion := timestamp }, _, rfl, rfl, rfl, hifo, hdata⟩

/-- The loop of a message that is not older than the slot, seen from the slot it opens. -/
theorem exists_copied_ingest {e : BufferEntry} (t : Tracking) (timestamp : ℤ)
    {input : DaqMultiDcuData} (hkey : ¬ keyOf input < e.latest) :
    ∃ m, Copied input input.models 0 (e.opened input) (e.ingest t timestamp input).1 m := by
  obtain ⟨e₀, r, hifo₀, hdata₀, rfl, hifo, hdata⟩ := ingest_of_not_older t timestamp hkey
  obtain ⟨m, h⟩ := exists_copied (keyOf input) timestamp input input.models 0 e₀
  have hcount : e₀.count = (e.opened input).count := by
    rw [BufferEntry.count, hifo₀]
    rfl
  refine ⟨m, ?_, ?_, ?_, ?_, ?_⟩
  · rw [hifo, h.models_eq, hifo₀]
  · rw [hdata, h.data_eq, hdata₀]
  · rw [hifo, ← hifo₀, ← hdata₀]
    exact h.old
  · rw [hifo, ← hdata₀]
    exact h.new
  · rw [← hcount, ← hdata₀]
    exact h.lt_iff

theorem BufferEntry.Sized.ingest {e : BufferEntry} (h : e.Sized) (t : Tracking) (timestamp : ℤ)
    (input : DaqMultiDcuData) : (e.ingest t timestamp input).1.Sized := by
  by_cases hkey : keyOf input < e.latest
  · unfold BufferEntry.ingest
    rw [if_neg (not_lt.mpr hkey.le), if_pos hkey]
    exact h
  · obtain ⟨m, hcopied⟩ := exists_copied_ingest t timestamp hkey
    exact hcopied.sized (h.opened input)

theorem BufferEntry.Sized.processIf {e : BufferEntry} (h : e.Sized) (processKey : GpsKey) :
    (e.processIf processKey).2.Sized := by
  unfold BufferEntry.processIf
  split
  · exact h
  · exact h

/-- The write pointers after any sequence of operations. -/
theorem sized_execAll (N : ℕ) (as : List RecvAction) (j : ℕ) :
    ((ReceiveBuffer.execAll N as).buffer j).Sized := by
  unfold ReceiveBuffer.execAll
  induction as using List.reverseRecOn generalizing j with
  | nil => rfl
  | append_singleton as a ih =>
    rw [List.foldl_append, List.foldl_cons, List.foldl_nil]
    generalize as.foldl (ReceiveBuffer.exec N) .start = b at ih
    cases a with
    | ingest timestamp input =>
      unfold ReceiveBuffer.exec ReceiveBuffer.ingest
      dsimp only
      split
      · exact ih j
      · by_cases hj : j = ReceiveBuffer.slotOf N input
        · subst hj
          simp only [Function.update_self]
          exact (ih _).ingest _ _ _
        · simp only [Function.update_of_ne hj]
          exact ih j
    | processSliceAt processKey =>
      show (Function.update b.buffer _ _ j).Sized
      by_cases hj : j = cycleToIndex N processKey.cycle
      · subst hj
        rw [Function.update_self]
        exact (ih _).processIf processKey
      · rw [Function.update_of_ne hj]
        exact ih j

/-- Every model that a message adds to a slot has its own payload exactly if the payload of each
of them equals the bytes that stand before it by the size of the skipped models. -/
theorem payloads_kept_iff (N : ℕ) (as : List RecvAction) (j : ℕ) (t : Tracking) (timestamp : ℤ)
    (input : DaqMultiDcuData) :
    let e := (ReceiveBuffer.execAll N as).buffer j
    KeepsPayloads (e.opened input) input (e.ingest t timestamp input).1 ↔
      (¬ keyOf input < e.latest → ∀ i, Copies (e.opened input) input i →
        input.slice (input.offset i - skippedSize input i) (input.header.dcuheader i).blockSize =
          input.slice (input.offset i) (input.header.dcuheader i).blockSize) := by
  intro e
  have h : e.Sized := sized_execAll N as j
  by_cases hkey : keyOf input < e.latest
  · -- an older message is discarded
    have hsame : (e.ingest t timestamp input).1 = e.opened input := by
      unfold BufferEntry.ingest BufferEntry.opened
      rw [if_neg (not_lt.mpr hkey.le), if_neg (not_lt.mpr hkey.le), if_pos hkey]
    rw [hsame]
    exact ⟨fun _ hnot => absurd hkey hnot, fun _ k hk hkr => absurd hkr (not_lt.mpr hk)⟩
  · obtain ⟨m, hcopied⟩ := exists_copied_ingest t timestamp hkey
    rw [hcopied.keepsPayloads_iff (h.opened input)]
    exact ⟨fun h _ => h, fun h => h hkey⟩

/-- A model without a `dcuId` that has a byte, and one with a `dcuId` that has another. -/
def skippedThenStored : DaqMultiDcuData where
  header :=
    { dcuTotalModels := 2
      fullDataBlockSize := 2
      dcuheader := fun i =>
        { dcuId := if i = 0 then 0 else 5, timeSec := 10, dataBlockSize := 1 } }
  dataBlock := fun j => if j = 0 then 7 else 9

/-- The model with the `dcuId` is given the byte of the other one. -/
theorem skipped_payload_shifts_next :
    ¬ KeepsPayloads (BufferEntry.start.opened skippedThenStored) skippedThenStored
      (BufferEntry.start.ingest {} 0 skippedThenStored).1 := by
  intro hkeeps
  obtain ⟨i, hi, -, hid, -, hslice⟩ := hkeeps 0 (by decide +kernel) (by decide +kernel)
  have hone : i = 1 := by
    have hlt : i < 2 := hi
    rcases Nat.lt_or_ge i 1 with hzero | hge
    · obtain rfl : i = 0 := by omega
      exact absurd rfl hid
    · omega
  subst hone
  revert hslice
  decide +kernel

end AdvLigoRts.PubSub
