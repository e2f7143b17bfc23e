import AdvLigoRts.Daqd.CircMarking
import AdvLigoRts.Lib.Splice

/-!
# Assembly of a block from sixteen parts

`put16th_dpscattered` stores part `k` of every vector at `dest_vec_idx + vec_len * k` and its status
in word `1 + k` of the status area, whose word 0 collects the statuses.
-/

namespace AdvLigoRts.Daqd

open PvLib CircBuffer

/-! ## The areas of a vector -/

/-- Where the parts of a vector and their statuses go. -/
structure Dest where
  destVecIdx : ℕ
  vecLen : ℕ
  destStatusIdx : ℕ
deriving DecidableEq, Repr

namespace Dest

/-- The sixteen parts, and the seventeen words of status if there is a status area. -/
def areas (d : Dest) : List (ℕ × ℕ) :=
  (d.destVecIdx, 16 * d.vecLen) ::
    if d.destStatusIdx = noStatus then [] else [(d.destStatusIdx, 17 * 4)]

/-- The two areas of a block. -/
def view (d : Dest) (data : List UInt8) : List UInt8 × List UInt8 :=
  (slice data d.destVecIdx (16 * d.vecLen),
    if d.destStatusIdx = noStatus then [] else slice data d.destStatusIdx (17 * 4))

end Dest

/-- Two ranges, given by offset and length, without a common byte. -/
def Apart (a a' : ℕ × ℕ) : Prop := a.1 + a.2 ≤ a'.1 ∨ a'.1 + a'.2 ≤ a.1

instance (a a' : ℕ × ℕ) : Decidable (Apart a a') := inferInstanceAs (Decidable (_ ∨ _))

theorem Apart.symm {a a' : ℕ × ℕ} (h : Apart a a') : Apart a' a := Or.symm h

/-! ## One vector -/

@[simp] theorem length_statusBytes (status : BitVec 32) : (statusBytes status).length = 4 := by
  simp [statusBytes]

/-- Or-ing the bytes of two words. -/
theorem zipWith_statusBytes (a b : BitVec 32) :
    List.zipWith (· ||| ·) (statusBytes a) (statusBytes b) = statusBytes (a ||| b) := by
  unfold statusBytes
  rw [List.zipWith_map, List.zipWith_self]
  apply List.map_congr_left
  intro j _
  rw [← UInt8.ofBitVec_or, BitVec.ushiftRight_or_distrib, BitVec.setWidth_or]

theorem length_swapGroups {k n : ℕ} {src : List UInt8} (h : k * n ≤ src.length) :
    (swapGroups k n src).length = k * n := by
  induction n with
  | zero => rfl
  | succ n ih =>
    have hlast : (((src.drop (k * n)).take k).reverse).length = k := by
      rw [List.length_reverse]
      exact length_slice (by rw [← Nat.mul_succ]; exact h)
    have hfirst := ih ((Nat.mul_le_mul_left k n.le_succ).trans h)
    unfold swapGroups at *
    rw [List.range_succ, List.flatMap_append, List.length_append, hfirst, List.flatMap_singleton,
      hlast, Nat.mul_succ]

namespace CircBuffer.PutDpvec

variable (zeroBadData : Bool) (k : ℕ) (v : PutDpvec)

def dest : Dest := ⟨v.destVecIdx, v.vecLen, v.destStatusIdx⟩

/-- The body of the loop of `put16th_dpscattered`. -/
def store (data : List UInt8) : List UInt8 :=
  v.storeStatus k (memcpy data (v.destVecIdx + v.vecLen * k) (v.payload zeroBadData))

/-- What the body does to the status area. -/
def storeArea (area : List UInt8) : List UInt8 :=
  splice
    (splice area 0 (if k = 0 then statusBytes v.status
      else List.zipWith (· ||| ·) (slice area 0 4) (statusBytes v.status)))
    (4 * (1 + k)) (statusBytes v.status)

/-- What the body does to the areas of the vector. -/
def storeView (w : List UInt8 × List UInt8) : List UInt8 × List UInt8 :=
  (splice w.1 (v.vecLen * k) (v.payload zeroBadData),
    if v.destStatusIdx = noStatus then [] else v.storeArea k w.2)

/-- A part of the data in the block: what is stored for it, and behind that what was there. -/
def part (old : List UInt8) : List UInt8 :=
  v.payload zeroBadData ++ old.drop (v.payload zeroBadData).length

variable {zeroBadData k v}

variable (zeroBadData) in
theorem length_payload_le (hsrc : v.vecLen ≤ v.src.length) :
    (v.payload zeroBadData).length ≤ v.vecLen := by
  have htwo := Nat.mul_div_le v.vecLen 2
  have hfour := Nat.mul_div_le v.vecLen 4
  unfold payload
  split
  · rw [List.length_replicate]
  · split
    · rw [length_swapGroups (by omega)]
      exact htwo
    · split
      · rw [length_swapGroups (by omega)]
        exact hfour
      · rw [List.length_take]
        omega

/-- Nothing is swapped, or the groups make up the whole vector. -/
def WholeGroups (v : PutDpvec) : Prop := v.bsw = 2 ∨ v.bsw = 4 → v.bsw ∣ v.vecLen

variable (zeroBadData) in
theorem length_payload (hsrc : v.vecLen ≤ v.src.length) (hgroups : v.WholeGroups) :
    (v.payload zeroBadData).length = v.vecLen := by
  unfold payload
  split
  · rw [List.length_replicate]
  · split
    · rename_i htwo
      have hdvd := hgroups (Or.inl htwo)
      rw [htwo] at hdvd
      have hmul := Nat.mul_div_cancel' hdvd
      rw [length_swapGroups (by omega), hmul]
    · split
      · rename_i hfour
        have hdvd := hgroups (Or.inr hfour)
        rw [hfour] at hdvd
        have hmul := Nat.mul_div_cancel' hdvd
        rw [length_swapGroups (by omega), hmul]
      · rw [List.length_take]
        omega

/-- The stores of a vector lie in its areas, and these inside the block. -/
structure Fits (v : PutDpvec) (k : ℕ) (size : ℕ) : Prop where
  lt : k < 16
  src : v.vecLen ≤ v.src.length
  inside : ∀ a ∈ v.dest.areas, a.1 + a.2 ≤ size

theorem Fits.data_inside {size : ℕ} (h : v.Fits k size) : v.destVecIdx + 16 * v.vecLen ≤ size :=
  h.inside _ List.mem_cons_self

variable (zeroBadData) in
theorem Fits.part_le {size : ℕ} (h : v.Fits k size) :
    v.vecLen * k + (v.payload zeroBadData).length ≤ 16 * v.vecLen := by
  have hlen := length_payload_le zeroBadData h.src
  have hmul := Nat.mul_le_mul_left v.vecLen (Nat.succ_le_of_lt h.lt)
  rw [Nat.mul_succ] at hmul
  omega

theorem Fits.status_inside {size : ℕ} (h : v.Fits k size) (hs : v.destStatusIdx ≠ noStatus) :
    v.destStatusIdx + 17 * 4 ≤ size := by
  apply h.inside (v.destStatusIdx, 17 * 4)
  rw [Dest.areas, dest, if_neg hs]
  exact List.mem_cons_of_mem _ List.mem_cons_self

/-- The body as stores of slices. -/
theorem store_eq (zeroBadData : Bool) (k : ℕ) (v : PutDpvec) (data : List UInt8) :
    v.store zeroBadData k data =
      let copied := splice data (v.destVecIdx + v.vecLen * k) (v.payload zeroBadData)
      if v.destStatusIdx = noStatus then copied
      else splice
        (splice copied v.destStatusIdx (if k = 0 then statusBytes v.status
          else List.zipWith (· ||| ·) (slice copied v.destStatusIdx 4) (statusBytes v.status)))
        (v.destStatusIdx + 4 * (1 + k)) (statusBytes v.status) := by
  unfold store storeStatus
  by_cases hk : k = 0
  · simp only [hk, if_true]
    rfl
  · simp only [hk, if_false]
    rfl

theorem length_summary (k : ℕ) (status : BitVec 32) (area : List UInt8) (off : ℕ)
    (h : off + 4 ≤ area.length) :
    (if k = 0 then statusBytes status
      else List.zipWith (· ||| ·) (slice area off 4) (statusBytes status)).length = 4 := by
  split
  · exact length_statusBytes status
  · rw [List.length_zipWith, length_slice h, length_statusBytes, Nat.min_self]

variable (zeroBadData) in
theorem length_store_of_le {data : List UInt8} (hk : k < 16) (hsrc : v.vecLen ≤ v.src.length)
    (hdata : v.destVecIdx + v.vecLen * k + v.vecLen ≤ data.length)
    (hstatus : v.destStatusIdx ≠ noStatus → v.destStatusIdx + 17 * 4 ≤ data.length) :
    (v.store zeroBadData k data).length = data.length := by
  have hpayload := length_payload_le zeroBadData hsrc
  have hcopied : (splice data (v.destVecIdx + v.vecLen * k) (v.payload zeroBadData)).length =
      data.length := length_splice (by omega)
  rw [store_eq]
  dsimp only
  split
  · exact hcopied
  · rename_i hs
    have hin := hstatus hs
    generalize splice data (v.destVecIdx + v.vecLen * k) (v.payload zeroBadData) = copied at *
    have hsummary := length_summary k v.status copied v.destStatusIdx (by omega)
    rw [length_splice, length_splice, hcopied]
    · omega
    · rw [length_splice (by omega), length_statusBytes]
      omega

variable (zeroBadData) in
theorem length_store {data : List UInt8} (h : v.Fits k data.length) :
    (v.store zeroBadData k data).length = data.length := by
  have hdata := h.data_inside
  have hmul := Nat.mul_le_mul_left v.vecLen (Nat.succ_le_of_lt h.lt)
  rw [Nat.mul_succ] at hmul
  exact length_store_of_le zeroBadData h.lt h.src (by omega) h.status_inside

/-- The words of the status array leave what lies outside it alone. -/
theorem slice_store_outside {data : List UInt8} (h : v.Fits k data.length) {off n : ℕ}
    (hout : v.destStatusIdx ≠ noStatus →
      off + n ≤ v.destStatusIdx ∨ v.destStatusIdx + 17 * 4 ≤ off) :
    slice (v.store zeroBadData k data) off n =
      slice (splice data (v.destVecIdx + v.vecLen * k) (v.payload zeroBadData)) off n := by
  have hpart := h.part_le zeroBadData
  have hdata := h.data_inside
  have hlt := h.lt
  have hcopied : (splice data (v.destVecIdx + v.vecLen * k) (v.payload zeroBadData)).length =
      data.length := length_splice (by omega)
  rw [store_eq]
  dsimp only
  split
  · rfl
  · rename_i hs
    have hstatus := h.status_inside hs
    have hapart := hout hs
    generalize splice data (v.destVecIdx + v.vecLen * k) (v.payload zeroBadData) = copied at *
    have hsummary := length_summary k v.status copied v.destStatusIdx (by omega)
    rw [slice_splice_outside, slice_splice_outside]
    · omega
    · omega
    · rw [length_splice (by omega), length_statusBytes]
      omega
    · rw [length_statusBytes]
      omega

variable (zeroBadData) in
theorem slice_store_of_apart {data : List UInt8} (h : v.Fits k data.length) {a : ℕ × ℕ}
    (ha : ∀ b ∈ v.dest.areas, Apart a b) :
    slice (v.store zeroBadData k data) a.1 a.2 = slice data a.1 a.2 := by
  have hpart := h.part_le zeroBadData
  have hdata := h.data_inside
  have hapart : a.1 + a.2 ≤ v.destVecIdx ∨ v.destVecIdx + 16 * v.vecLen ≤ a.1 :=
    ha _ List.mem_cons_self
  rw [slice_store_outside h, slice_splice_outside (by omega) (by omega)]
  intro hs
  apply ha (v.destStatusIdx, 17 * 4)
  rw [Dest.areas, dest, if_neg hs]
  exact List.mem_cons_of_mem _ List.mem_cons_self

theorem slice_store_data {data : List UInt8} (h : v.Fits k data.length)
    (hapart : v.dest.areas.Pairwise Apart) :
    slice (v.store zeroBadData k data) v.destVecIdx (16 * v.vecLen) =
      splice (slice data v.destVecIdx (16 * v.vecLen)) (v.vecLen * k) (v.payload zeroBadData) := by
  rw [slice_store_outside h, slice_splice_inside h.data_inside (h.part_le zeroBadData)]
  intro hs
  rwa [Dest.areas, dest, if_neg hs, List.pairwise_pair] at hapart

theorem slice_store_status {data : List UInt8} (h : v.Fits k data.length)
    (hapart : v.dest.areas.Pairwise Apart) (hs : v.destStatusIdx ≠ noStatus) :
    slice (v.store zeroBadData k data) v.destStatusIdx (17 * 4) =
      v.storeArea k (slice data v.destStatusIdx (17 * 4)) := by
  have hpart := h.part_le zeroBadData
  have hdata := h.data_inside
  have hstatus := h.status_inside hs
  have hlt := h.lt
  have hcopied : (splice data (v.destVecIdx + v.vecLen * k) (v.payload zeroBadData)).length =
      data.length := length_splice (by omega)
  rw [Dest.areas, dest, if_neg hs, List.pairwise_pair] at hapart
  have hout : v.destVecIdx + 16 * v.vecLen ≤ v.destStatusIdx ∨
      v.destStatusIdx + 17 * 4 ≤ v.destVecIdx := hapart
  have hslice : slice (splice data (v.destVecIdx + v.vecLen * k) (v.payload zeroBadData))
      v.destStatusIdx (17 * 4) = slice data v.destStatusIdx (17 * 4) :=
    slice_splice_outside (by omega) (by omega)
  rw [store_eq, storeArea, ← hslice]
  dsimp only
  rw [if_neg hs]
  generalize splice data (v.destVecIdx + v.vecLen * k) (v.payload zeroBadData) = copied at *
  have hsummary := length_summary k v.status copied v.destStatusIdx (by omega)
  have hword : slice (slice copied v.destStatusIdx (17 * 4)) 0 4 = slice copied v.destStatusIdx 4 :=
    slice_slice (by omega)
  have hhead : ∀ ys : List UInt8, ys.length = 4 →
      slice (splice copied v.destStatusIdx ys) v.destStatusIdx (17 * 4) =
        splice (slice copied v.destStatusIdx (17 * 4)) 0 ys := by
    intro ys hys
    show slice (splice copied (v.destStatusIdx + 0) ys) _ _ = _
    exact slice_splice_inside (by omega) (by omega)
  rw [hword, slice_splice_inside, hhead _ hsummary]
  · rw [length_splice (by omega)]
    omega
  · rw [length_statusBytes]
    omega

theorem view_store {data : List UInt8} (h : v.Fits k data.length)
    (hapart : v.dest.areas.Pairwise Apart) :
    v.dest.view (v.store zeroBadData k data) = v.storeView zeroBadData k (v.dest.view data) := by
  unfold Dest.view storeView
  by_cases hs : v.destStatusIdx = noStatus
  · simp only [dest, hs, if_true]
    rw [slice_store_data h hapart]
  · simp only [dest, hs, if_false]
    rw [slice_store_data h hapart, slice_store_status h hapart hs]

theorem view_store_of_apart {d : Dest} {data : List UInt8} (h : v.Fits k data.length)
    (hapart : ∀ a ∈ d.areas, ∀ b ∈ v.dest.areas, Apart a b) :
    d.view (v.store zeroBadData k data) = d.view data := by
  have hdata := slice_store_of_apart zeroBadData h
    (hapart (d.destVecIdx, 16 * d.vecLen) List.mem_cons_self)
  unfold Dest.view
  rw [hdata]
  by_cases hs : d.destStatusIdx = noStatus
  · rw [if_pos hs, if_pos hs]
  · have hmem : (d.destStatusIdx, 17 * 4) ∈ d.areas := by
      rw [Dest.areas, if_neg hs]
      exact List.mem_cons_of_mem _ List.mem_cons_self
    rw [if_neg hs, if_neg hs, slice_store_of_apart zeroBadData h (hapart _ hmem)]

end CircBuffer.PutDpvec

/-! ## One call -/

/-- The loop of `put16th_dpscattered`, without the length. -/
def storeAll (zeroBadData : Bool) (k : ℕ) (data : List UInt8) (pv : List PutDpvec) : List UInt8 :=
  pv.foldl (fun data v => v.store zeroBadData k data) data

theorem storeDpvecs_eq (zeroBadData : Bool) (k : ℕ) (data : List UInt8) (pv : List PutDpvec) :
    storeDpvecs zeroBadData k data pv =
      (storeAll zeroBadData k data pv, (pv.map PutDpvec.vecLen).sum) := by
  have hloop : ∀ dlen, pv.foldl (fun acc v => ((v.store zeroBadData k acc.1, acc.2 + v.vecLen) :
      List UInt8 × ℕ)) (data, dlen) =
      (storeAll zeroBadData k data pv, dlen + (pv.map PutDpvec.vecLen).sum) := by
    induction pv generalizing data with
    | nil => exact fun dlen => rfl
    | cons v pv ih =>
      intro dlen
      rw [List.foldl_cons, ih, List.map_cons, List.sum_cons, ← Nat.add_assoc]
      rfl
  have hzero := hloop 0
  rw [Nat.zero_add] at hzero
  exact hzero

section

variable {zeroBadData : Bool} {k : ℕ} {data : List UInt8} {pv : List PutDpvec}

theorem length_storeAll (h : ∀ v ∈ pv, v.Fits k data.length) :
    (storeAll zeroBadData k data pv).length = data.length := by
  induction pv generalizing data with
  | nil => rfl
  | cons v pv ih =>
    have hlen := PutDpvec.length_store zeroBadData (h v List.mem_cons_self)
    have hfits : ∀ v' ∈ pv, v'.Fits k (v.store zeroBadData k data).length := fun v' hv' =>
      hlen ▸ h v' (List.mem_cons_of_mem v hv')
    exact (ih hfits).trans hlen

theorem view_storeAll_of_apart {d : Dest} (h : ∀ v ∈ pv, v.Fits k data.length)
    (hapart : ∀ v ∈ pv, ∀ a ∈ d.areas, ∀ b ∈ v.dest.areas, Apart a b) :
    d.view (storeAll zeroBadData k data pv) = d.view data := by
  induction pv generalizing data with
  | nil => rfl
  | cons v pv ih =>
    have hv := h v List.mem_cons_self
    have hlen := PutDpvec.length_store zeroBadData hv
    have hfits : ∀ v' ∈ pv, v'.Fits k (v.store zeroBadData k data).length := fun v' hv' =>
      hlen ▸ h v' (List.mem_cons_of_mem v hv')
    have hrest := ih hfits fun v' hv' => hapart v' (List.mem_cons_of_mem v hv')
    exact hrest.trans (PutDpvec.view_store_of_apart hv (hapart v List.mem_cons_self))

variable (zeroBadData) in
/-- Every vector finds its own areas as the call found them. -/
theorem view_storeAll (h : ∀ v ∈ pv, v.Fits k data.length)
    (hapart : (pv.flatMap fun v => v.dest.areas).Pairwise Apart) {i : ℕ} {v : PutDpvec}
    (hv : pv[i]? = some v) :
    v.dest.view (storeAll zeroBadData k data pv) =
      v.storeView zeroBadData k (v.dest.view data) := by
  induction pv generalizing data i with
  | nil => cases hv
  | cons v' pv ih =>
    rw [List.flatMap_cons, List.pairwise_append] at hapart
    obtain ⟨hself, hrest, hcross⟩ := hapart
    have hv' := h v' List.mem_cons_self
    have hlen := PutDpvec.length_store zeroBadData hv'
    have hfits : ∀ w ∈ pv, w.Fits k (v'.store zeroBadData k data).length := fun w hw =>
      hlen ▸ h w (List.mem_cons_of_mem v' hw)
    cases i with
    | zero =>
      obtain rfl : v' = v := Option.some.inj hv
      -- the vectors after it store elsewhere
      have hlater : v'.dest.view (storeAll zeroBadData k (v'.store zeroBadData k data) pv) =
          v'.dest.view (v'.store zeroBadData k data) :=
        view_storeAll_of_apart hfits fun w hw a ha b hb =>
          hcross a ha b (List.mem_flatMap.mpr ⟨w, hw, hb⟩)
      exact hlater.trans (PutDpvec.view_store hv' hself)
    | succ i =>
      rw [List.getElem?_cons_succ] at hv
      have hmem := List.mem_of_getElem? hv
      have hearlier : v.dest.view (v'.store zeroBadData k data) = v.dest.view data :=
        PutDpvec.view_store_of_apart hv' fun a ha b hb =>
          (hcross b hb a (List.mem_flatMap.mpr ⟨v, hmem, ha⟩)).symm
      have hrec := ih hfits hrest hv
      rw [hearlier] at hrec
      exact hrec

end

/-! ## One vector in all calls -/

/-- What one vector is in the calls, one after the other, each with the setting
`daqd.zero_bad_data` at that time. -/
abbrev Column := List (Bool × PutDpvec)

namespace Column

/-- What the calls do to the areas of the vector. -/
def store (col : Column) (w : List UInt8 × List UInt8) : List UInt8 × List UInt8 :=
  col.zipIdx.foldl (fun w x => x.1.2.storeView x.1.1 x.2 w) w

/-- The parts one after the other. -/
def parts (len : ℕ) (old : List UInt8) (col : Column) : List UInt8 :=
  col.zipIdx.flatMap fun x => x.1.2.part x.1.1 (slice old (len * x.2) len)

/-- All statuses or-ed together. -/
def summary (col : Column) : BitVec 32 := col.foldl (fun status x => status ||| x.2.status) 0

variable {col : Column} {len : ℕ}

theorem store_snoc (col : Column) (x : Bool × PutDpvec) (w : List UInt8 × List UInt8) :
    Column.store (col ++ [x]) w = x.2.storeView x.1 col.length (Column.store col w) := by
  unfold Column.store
  rw [List.zipIdx_append, List.foldl_append, Nat.zero_add]
  rfl

theorem parts_snoc (len : ℕ) (old : List UInt8) (col : Column) (x : Bool × PutDpvec) :
    Column.parts len old (col ++ [x]) =
      Column.parts len old col ++ x.2.part x.1 (slice old (len * col.length) len) := by
  unfold Column.parts
  rw [List.zipIdx_append, List.flatMap_append, Nat.zero_add]
  congr 1
  exact List.flatMap_singleton _ _

theorem store_data (old area : List UInt8) (hcol : ∀ x ∈ col, x.2.vecLen = len ∧
    len ≤ x.2.src.length) (hlen : col.length ≤ 16) (hold : old.length = 16 * len) :
    (Column.parts len old col).length = len * col.length ∧
      (Column.store col (old, area)).1 = Column.parts len old col ++
        old.drop (len * col.length) := by
  induction col using List.reverseRecOn with
  | nil => exact ⟨rfl, rfl⟩
  | append_singleton col x ih =>
    rw [List.length_append, List.length_singleton] at hlen
    obtain ⟨hparts, hstore⟩ := ih (fun y hy => hcol y (List.mem_append_left _ hy)) (by omega)
    obtain ⟨hvec, hsrc⟩ := hcol x (List.mem_append_right _ (List.mem_singleton_self x))
    have hpayload := x.2.length_payload_le x.1 (hvec ▸ hsrc)
    rw [hvec] at hpayload
    have hroom : len * col.length + len ≤ old.length := by
      rw [hold, ← Nat.mul_succ, Nat.mul_comm 16]
      exact Nat.mul_le_mul_left len hlen
    have hslice := length_slice hroom
    -- what lies behind the part that is stored now
    have hrest : (old.drop (len * col.length)).drop (x.2.payload x.1).length =
        (slice old (len * col.length) len).drop (x.2.payload x.1).length ++
          old.drop (len * (col.length + 1)) := by
      rw [← List.drop_append_of_le_length (by omega), Nat.mul_succ, ← List.drop_drop, slice,
        List.take_append_drop]
    rw [parts_snoc, store_snoc, PutDpvec.storeView, hstore, List.length_append, List.length_append,
      List.length_singleton, hparts, hvec]
    constructor
    · rw [PutDpvec.part, List.length_append, List.length_drop, hslice, Nat.mul_succ]
      omega
    · rw [← hparts, splice_behind, hparts, hrest, PutDpvec.part, List.append_assoc,
        List.append_assoc]

/-- Payloads that fill their parts leave nothing of what was there. -/
theorem parts_eq_flatMap {old : List UInt8} (hcol : ∀ x ∈ col, x.2.vecLen = len ∧
    len ≤ x.2.src.length) (hgroups : ∀ x ∈ col, x.2.WholeGroups) :
    Column.parts len old col = col.flatMap fun x => x.2.payload x.1 := by
  induction col using List.reverseRecOn with
  | nil => rfl
  | append_singleton col x ih =>
    have hx : x ∈ col ++ [x] := List.mem_append_right _ (List.mem_singleton_self x)
    obtain ⟨hvec, hsrc⟩ := hcol x hx
    have hpayload := x.2.length_payload x.1 (hvec ▸ hsrc) (hgroups x hx)
    have hdrop : (slice old (len * col.length) len).drop (x.2.payload x.1).length = [] := by
      apply List.drop_eq_nil_of_le
      rw [hpayload, hvec, slice, List.length_take]
      exact Nat.min_le_left _ _
    rw [parts_snoc, ih (fun y hy => hcol y (List.mem_append_left _ hy))
      (fun y hy => hgroups y (List.mem_append_left _ hy)), PutDpvec.part, hdrop, List.append_nil,
      List.flatMap_append, List.flatMap_singleton]

theorem summary_snoc (col : Column) (x : Bool × PutDpvec) :
    Column.summary (col ++ [x]) = Column.summary col ||| x.2.status := by
  unfold Column.summary
  rw [List.foldl_append]
  rfl

theorem store_status (old area : List UInt8) (hcol : ∀ x ∈ col, x.2.destStatusIdx ≠ noStatus)
    (hlen : col.length ≤ 16) (harea : area.length = 17 * 4) :
    let stored := (Column.store col (old, area)).2
    stored.length = 17 * 4 ∧
      (0 < col.length → slice stored 0 4 = statusBytes (Column.summary col)) ∧
        ∀ k x, col[k]? = some x → slice stored (4 * (1 + k)) 4 = statusBytes x.2.status := by
  induction col using List.reverseRecOn with
  | nil =>
    refine ⟨harea, fun h => absurd h (Nat.lt_irrefl 0), fun k x hx => ?_⟩
    cases hx
  | append_singleton col x ih =>
    rw [List.length_append, List.length_singleton] at hlen
    obtain ⟨harea', hsummary, hword⟩ :=
      ih (fun y hy => hcol y (List.mem_append_left _ hy)) (by omega)
    have hs := hcol x (List.mem_append_right _ (List.mem_singleton_self x))
    dsimp only at *
    rw [store_snoc, PutDpvec.storeView, if_neg hs, PutDpvec.storeArea]
    generalize (Column.store col (old, area)).2 = stored at *
    -- word 0 of the area
    have hzero : (if col.length = 0 then statusBytes x.2.status
        else List.zipWith (· ||| ·) (slice stored 0 4) (statusBytes x.2.status)) =
          statusBytes (Column.summary (col ++ [x])) := by
      rw [summary_snoc]
      by_cases hfirst : col.length = 0
      · rw [if_pos hfirst, List.length_eq_zero_iff.mp hfirst]
        show _ = statusBytes (0#32 ||| x.2.status)
        rw [BitVec.zero_or]
      · rw [if_neg hfirst, hsummary (Nat.pos_of_ne_zero hfirst), zipWith_statusBytes]
    rw [hzero]
    have hfour := length_statusBytes (Column.summary (col ++ [x]))
    have hown := length_statusBytes x.2.status
    have hfits : 0 + (statusBytes (Column.summary (col ++ [x]))).length ≤ stored.length := by omega
    have hlength := length_splice hfits
    refine ⟨?_, fun _ => ?_, fun k y hy => ?_⟩
    · rw [length_splice (by omega), hlength, harea']
    · rw [slice_splice_outside (by omega) (by omega), ← hfour]
      exact slice_splice_self hfits
    · by_cases hk : k < col.length
      · rw [List.getElem?_append_left hk] at hy
        rw [slice_splice_outside (by omega) (by omega), slice_splice_outside hfits (by omega),
          hword k y hy]
      · have hlt := (List.getElem?_eq_some_iff.mp hy).1
        rw [List.length_append, List.length_singleton] at hlt
        obtain rfl : k = col.length := by omega
        rw [List.getElem?_concat_length] at hy
        obtain rfl := Option.some.inj hy
        have hword' : 4 * (1 + col.length) + (statusBytes x.2.status).length ≤
            (splice stored 0 (statusBytes (Column.summary (col ++ [x])))).length := by omega
        have hself := slice_splice_self hword'
        rw [hown] at hself
        exact hself

end Column

/-! ## Sixteen calls -/

/-- A call of `put16th_dpscattered`, with the setting `daqd.zero_bad_data` at that time. -/
structure Put16th where
  zeroBadData : Bool
  pv : List PutDpvec
  prop : Option BlockProp

def Put16th.call (p : Put16th) : PutCall := .put16thDpscattered p.zeroBadData p.pv p.prop

/-- What the calls store in a block. -/
structure Assembly where
  data : List UInt8
  bytes : ℤ
  prop16th : ℕ → BlockProp

def Block.assembly (blk : Block) : Assembly := ⟨blk.data, blk.bytes, blk.prop16th⟩

/-- What one call does to it, when it is call `k` for the block. -/
def Put16th.store (puts k : ℕ) (p : Put16th) (a : Assembly) : Assembly where
  data := storeAll p.zeroBadData k a.data p.pv
  bytes := toInt ((if k = 0 then 0 else a.bytes) + (p.pv.map PutDpvec.vecLen).sum)
  prop16th := Function.update a.prop16th k { p.prop.getD (a.prop16th k) with seqNum := puts }

theorem assembly_fill16th (b : CircBuffer) (p : Put16th) :
    ((b.fill16th (fun dst => storeDpvecs p.zeroBadData b.nextBlockIn16th dst p.pv) p.prop).block
      b.nextBlockIn).assembly =
        p.store b.puts b.nextBlockIn16th (b.block b.nextBlockIn).assembly := by
  unfold CircBuffer.fill16th CircBuffer.modifyBlock Put16th.store Block.assembly
  simp only [storeDpvecs_eq, Function.update_self]
  by_cases hk : b.nextBlockIn16th = 0
  · simp only [hk, if_true, zero_add]
    rfl
  · simp only [hk, if_false]
    rfl

/-- What the calls do, one after the other. -/
def assemble (puts : ℕ) (old : Assembly) (ps : List Put16th) : Assembly :=
  ps.zipIdx.foldl (fun a x => x.1.store puts x.2 a) old

theorem assemble_snoc (puts : ℕ) (old : Assembly) (ps : List Put16th) (p : Put16th) :
    assemble puts old (ps ++ [p]) = p.store puts ps.length (assemble puts old ps) := by
  unfold assemble
  rw [List.zipIdx_append, List.foldl_append, Nat.zero_add]
  rfl

/-- What vector `i` is in the calls. -/
def column (ps : List Put16th) (i : ℕ) : Column :=
  ps.filterMap fun p => p.pv[i]?.map fun v => (p.zeroBadData, v)

/-- The calls put the vectors in the same places of a block of `size` bytes, all apart, and read
inside the sources. -/
structure Laid (size : ℕ) (layout : List Dest) (ps : List Put16th) : Prop where
  same : ∀ p ∈ ps, p.pv.map PutDpvec.dest = layout
  apart : (layout.flatMap Dest.areas).Pairwise Apart
  inside : ∀ a ∈ layout.flatMap Dest.areas, a.1 + a.2 ≤ size
  src : ∀ p ∈ ps, ∀ v ∈ p.pv, v.vecLen ≤ v.src.length

namespace Laid

variable {size puts : ℕ} {layout : List Dest} {old : Assembly} {ps : List Put16th}

theorem of_append {qs : List Put16th} (h : Laid size layout (ps ++ qs)) : Laid size layout ps where
  same p hp := h.same p (List.mem_append_left qs hp)
  apart := h.apart
  inside := h.inside
  src p hp := h.src p (List.mem_append_left qs hp)

theorem fits (h : Laid size layout ps) {p : Put16th} (hp : p ∈ ps) {k : ℕ} (hk : k < 16) :
    ∀ v ∈ p.pv, v.Fits k size := by
  intro v hv
  refine ⟨hk, h.src p hp v hv, fun a ha => h.inside a ?_⟩
  rw [← h.same p hp]
  exact List.mem_flatMap.mpr ⟨v.dest, List.mem_map_of_mem hv, ha⟩

theorem getElem_dest (h : Laid size layout ps) {p : Put16th} (hp : p ∈ ps) {i : ℕ} {d : Dest}
    (hd : layout[i]? = some d) : ∃ v, p.pv[i]? = some v ∧ v.dest = d := by
  rw [← h.same p hp, List.getElem?_map] at hd
  exact Option.map_eq_some_iff.mp hd

variable (puts) in
theorem length_data (h : Laid size layout ps) (hlen : ps.length ≤ 16)
    (hsize : old.data.length = size) : (assemble puts old ps).data.length = size := by
  induction ps using List.reverseRecOn with
  | nil => exact hsize
  | append_singleton ps p ih =>
    rw [List.length_append, List.length_singleton] at hlen
    have hprev := ih h.of_append (by omega)
    have hp : p ∈ ps ++ [p] := List.mem_append_right _ (List.mem_singleton_self p)
    have hfits := h.fits hp (show ps.length < 16 by omega)
    rw [assemble_snoc, Put16th.store, length_storeAll (hprev ▸ hfits), hprev]

variable (puts) in
/-- Every vector finds in its areas what the earlier calls stored for it. -/
theorem view_assemble (h : Laid size layout ps) (hlen : ps.length ≤ 16)
    (hsize : old.data.length = size) {i : ℕ} {d : Dest} (hd : layout[i]? = some d) :
    (column ps i).length = ps.length ∧ (∀ x ∈ column ps i, x.2.dest = d) ∧
      d.view (assemble puts old ps).data = Column.store (column ps i) (d.view old.data) := by
  induction ps using List.reverseRecOn with
  | nil =>
    refine ⟨rfl, fun x hx => ?_, rfl⟩
    cases hx
  | append_singleton ps p ih =>
    rw [List.length_append, List.length_singleton] at hlen
    obtain ⟨hlength, hdest, hview⟩ := ih h.of_append (by omega)
    have hp : p ∈ ps ++ [p] := List.mem_append_right _ (List.mem_singleton_self p)
    obtain ⟨v, hv, rfl⟩ := h.getElem_dest hp hd
    have hcolumn : column (ps ++ [p]) i = column ps i ++ [(p.zeroBadData, v)] := by
      unfold column
      rw [List.filterMap_append]
      congr 1
      simp only [List.filterMap_cons, hv, Option.map_some, List.filterMap_nil]
    have hprev := h.of_append.length_data puts (by omega) hsize
    have hapart := h.apart
    rw [← h.same p hp, List.flatMap_map] at hapart
    have hfits : ∀ w ∈ p.pv, w.Fits ps.length (assemble puts old ps).data.length :=
      hprev ▸ h.fits hp (by omega)
    have hone := view_storeAll p.zeroBadData hfits hapart hv
    rw [hcolumn, List.length_append, List.length_append, hlength]
    refine ⟨rfl, fun x hx => ?_, ?_⟩
    · rcases List.mem_append.mp hx with hx | hx
      · exact hdest x hx
      · rw [List.mem_singleton.mp hx]
    · rw [assemble_snoc, Column.store_snoc, hlength, ← hview]
      exact hone

theorem bytes_assemble (h : Laid size layout ps) (hne : ps ≠ []) :
    (assemble puts old ps).bytes = toInt (ps.length * (layout.map Dest.vecLen).sum : ℕ) := by
  induction ps using List.reverseRecOn with
  | nil => exact absurd rfl hne
  | append_singleton ps p ih =>
    have hp : p ∈ ps ++ [p] := List.mem_append_right _ (List.mem_singleton_self p)
    have hsum : (p.pv.map PutDpvec.vecLen).sum = (layout.map Dest.vecLen).sum := by
      rw [← h.same p hp, List.map_map]
      rfl
    rw [assemble_snoc, Put16th.store, hsum, List.length_append, List.length_singleton]
    dsimp only
    by_cases hfirst : ps = []
    · rw [hfirst]
      simp
    · have hpos := List.length_pos_iff.mpr hfirst
      rw [if_neg (by omega), ih h.of_append hfirst]
      unfold toInt
      rw [Int.bmod_add_bmod, Nat.succ_mul]
      push_cast
      rfl

end Laid

theorem prop16th_assemble (puts : ℕ) (old : Assembly) (ps : List Put16th) (k : ℕ) :
    (assemble puts old ps).prop16th k =
      match ps[k]? with
      | some p => { p.prop.getD (old.prop16th k) with seqNum := puts }
      | none => old.prop16th k := by
  induction ps using List.reverseRecOn with
  | nil => rfl
  | append_singleton ps p ih =>
    rw [assemble_snoc, Put16th.store]
    dsimp only
    by_cases hk : k = ps.length
    · subst hk
      rw [Function.update_self, ih, List.getElem?_concat_length,
        List.getElem?_eq_none (le_refl _)]
    · rw [Function.update_of_ne hk, ih]
      by_cases hlt : k < ps.length
      · rw [List.getElem?_append_left hlt]
      · rw [List.getElem?_eq_none (by omega), List.getElem?_eq_none (by simp; omega)]

/-- What the finished block holds of vectors that were put in the places `layout`. -/
structure Assembled (puts : ℕ) (layout : List Dest) (ps : List Put16th) (old blk : Assembly) :
    Prop where
  /-- The parts in order, each followed by what its payload did not cover. -/
  parts : ∀ i d, layout[i]? = some d → slice blk.data d.destVecIdx (16 * d.vecLen) =
    Column.parts d.vecLen (slice old.data d.destVecIdx (16 * d.vecLen)) (column ps i)
  /-- The concatenation, where the length is a multiple of `bsw` or nothing is swapped. -/
  concat : ∀ i d, layout[i]? = some d → (∀ x ∈ column ps i, x.2.WholeGroups) →
    slice blk.data d.destVecIdx (16 * d.vecLen) = (column ps i).flatMap fun x => x.2.payload x.1
  summary : ∀ i d, layout[i]? = some d → d.destStatusIdx ≠ noStatus →
    slice blk.data d.destStatusIdx 4 = statusBytes (column ps i).summary
  status : ∀ i d k x, layout[i]? = some d → d.destStatusIdx ≠ noStatus →
    (column ps i)[k]? = some x →
    slice blk.data (d.destStatusIdx + 4 * (1 + k)) 4 = statusBytes x.2.status
  bytes : blk.bytes = toInt (16 * (layout.map Dest.vecLen).sum : ℕ)
  prop16th : ∀ k p, ps[k]? = some p →
    blk.prop16th k = { p.prop.getD (old.prop16th k) with seqNum := puts }

theorem Laid.assembled {size puts : ℕ} {layout : List Dest} {ps : List Put16th} {old : Assembly}
    (h : Laid size layout ps) (hlen : ps.length = 16) (hsize : old.data.length = size) :
    Assembled puts layout ps old (assemble puts old ps) := by
  have hsrc : ∀ i d, layout[i]? = some d → ∀ x ∈ column ps i, x.2.vecLen = d.vecLen ∧
      d.vecLen ≤ x.2.src.length := by
    intro i d hd x hx
    have hdest := (h.view_assemble puts hlen.le hsize hd).2.1 x hx
    obtain ⟨p, hp, hmap⟩ := List.mem_filterMap.mp hx
    obtain ⟨v, hv, rfl⟩ := Option.map_eq_some_iff.mp hmap
    have hle := h.src p hp v (List.mem_of_getElem? hv)
    have hvec : v.vecLen = d.vecLen := congrArg Dest.vecLen hdest
    exact ⟨hvec, hvec ▸ hle⟩
  have hinside : ∀ i (d : Dest), layout[i]? = some d → ∀ a ∈ d.areas, a.1 + a.2 ≤ size :=
    fun i d hd a ha => h.inside a (List.mem_flatMap.mpr ⟨d, List.mem_of_getElem? hd, ha⟩)
  have hparts : ∀ i d, layout[i]? = some d →
      slice (assemble puts old ps).data d.destVecIdx (16 * d.vecLen) =
        Column.parts d.vecLen (slice old.data d.destVecIdx (16 * d.vecLen)) (column ps i) := by
    intro i d hd
    obtain ⟨hcol, -, hview⟩ := h.view_assemble puts hlen.le hsize hd
    have harea := length_slice (hsize ▸ hinside i d hd _ List.mem_cons_self)
    obtain ⟨-, hdata⟩ := Column.store_data _ (d.view old.data).2 (hsrc i d hd) (by omega) harea
    have hrest : (slice old.data d.destVecIdx (16 * d.vecLen)).drop
        (d.vecLen * (column ps i).length) = [] := by
      apply List.drop_eq_nil_of_le
      rw [harea, hcol, hlen, Nat.mul_comm]
    rw [hrest, List.append_nil] at hdata
    rw [← hdata]
    exact congrArg Prod.fst hview
  have hstored : ∀ i d, layout[i]? = some d → d.destStatusIdx ≠ noStatus →
      slice (assemble puts old ps).data d.destStatusIdx (17 * 4) =
        (Column.store (column ps i) (d.view old.data)).2 ∧
      (slice old.data d.destStatusIdx (17 * 4)).length = 17 * 4 := by
    intro i d hd hs
    obtain ⟨-, -, hview⟩ := h.view_assemble puts hlen.le hsize hd
    have hview := congrArg Prod.snd hview
    rw [Dest.view, if_neg hs] at hview
    refine ⟨hview, length_slice (hsize ▸ hinside i d hd (d.destStatusIdx, 17 * 4) ?_)⟩
    rw [Dest.areas, if_neg hs]
    exact List.mem_cons_of_mem _ List.mem_cons_self
  have hwords : ∀ i d, layout[i]? = some d → d.destStatusIdx ≠ noStatus →
      slice (assemble puts old ps).data d.destStatusIdx 4 = statusBytes (column ps i).summary ∧
      ∀ k x, (column ps i)[k]? = some x →
        slice (assemble puts old ps).data (d.destStatusIdx + 4 * (1 + k)) 4 =
          statusBytes x.2.status := by
    intro i d hd hs
    obtain ⟨hcol, hdest, -⟩ := h.view_assemble puts hlen.le hsize hd
    obtain ⟨hview, harea⟩ := hstored i d hd hs
    have hnone : ∀ x ∈ column ps i, x.2.destStatusIdx ≠ noStatus := by
      intro x hx
      have hstatus : x.2.destStatusIdx = d.destStatusIdx :=
        congrArg Dest.destStatusIdx (hdest x hx)
      rw [hstatus]
      exact hs
    rw [Dest.view, if_neg hs] at hview
    obtain ⟨-, hsummary, hword⟩ := Column.store_status
      (slice old.data d.destVecIdx (16 * d.vecLen)) _ hnone (by omega) harea
    rw [← hview] at hsummary hword
    constructor
    · rw [← hsummary (by omega)]
      exact (slice_slice (p := 0) (by omega)).symm
    · intro k x hx
      have hk := (List.getElem?_eq_some_iff.mp hx).1
      rw [← hword k x hx]
      exact (slice_slice (by omega)).symm
  refine ⟨hparts, fun i d hd hgroups => ?_, fun i d hd hs => (hwords i d hd hs).1,
    fun i d k x hd hs => (hwords i d hd hs).2 k x, ?_, fun k p hp => ?_⟩
  · rw [hparts i d hd]
    exact Column.parts_eq_flatMap (hsrc i d hd) hgroups
  · rw [h.bytes_assemble (fun hnil => by rw [hnil] at hlen; cases hlen), hlen]
  · rw [prop16th_assemble, hp]

end AdvLigoRts.Daqd
