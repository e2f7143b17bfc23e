import AdvLigoRts.Lib.Splice
import AdvLigoRts.Nds.RawMinuteTrendSpans

/-!
# The blocks of a raw minute trend

`Blocks` reads an image as blocks, one for each run of minutes: a header, and an area for each
signal. The writes into the image are the headers and one cell for each stored minute of a signal,
and no two of them meet (`cells_apart`).
-/

namespace AdvLigoRts.Nds

open PvLib

/-! ## Requests -/

/-- The name is that of a channel, a dot and a known suffix. -/
structure Signal.WellNamed (s : Signal) : Prop where
  dot : ∃ file sfx, s.name = file ++ '.' :: sfx ∧ '.' ∉ file ∧ '.' ∉ sfx
  suffix : (chOffset s.sfx).isSome

variable (files : TrendFiles) (signals : List Signal) (w : ℕ → ℕ → Prop)

/-- The file of the signal has the record of minute `g`, and the window lets it through. -/
def Stored (s : Signal) (g : ℕ) : Prop :=
  ∃ recs r, s.fileName.bind files = some recs ∧ r ∈ recs ∧ r.gps.toNat = g ∧ w recs.length g

/-- Some requested file has a record of minute `g` in the window. -/
def Requested (g : ℕ) : Prop := ∃ s ∈ signals, Stored files w s g

/-- The reversed field of the record of minute `g`, or zeros if there is none in the window. -/
def shown [∀ n g, Decidable (w n g)] (s : Signal) (g : ℕ) : List UInt8 :=
  let stored := (s.fileName.bind files).bind fun recs =>
    recs.find? fun r => r.gps.toNat = g ∧ w recs.length g
  match stored with
  | some r => (r.field ((chOffset s.sfx).getD 0) s.type.bps).reverse
  | none => List.replicate s.type.bps 0

/-- The big-endian word at `o`. -/
def wordAt (image : List UInt8) (o : ℕ) : ℕ :=
  (slice image o 4).foldl (fun n b => n * 256 + b.toNat) 0

/-- The block of a run of minutes at `o`; its first word has the length as `lengthWord` leaves
it. -/
structure BlockAt (value : Signal → ℕ → List UInt8) (lengthWord : ℕ → ℕ) (image : List UInt8)
    (o : ℕ) (r : Span) : Prop where
  fits : o + 20 + r.len * transmissionBlockSize signals ≤ image.length
  length : wordAt image o = lengthWord (16 + r.len * transmissionBlockSize signals)
  period : wordAt image (o + 4) = r.len * 60
  gps : wordAt image (o + 8) = r.first
  areas : ∀ k s, signals[k]? = some s → ∀ j < r.len,
    slice image (o + 20 + r.len * transmissionBlockSize (signals.take k) + j * s.type.bps)
      s.type.bps = value s (r.first + j * 60)

/-- The image is the blocks of these runs, one behind the other. -/
def Blocks (value : Signal → ℕ → List UInt8) (lengthWord : ℕ → ℕ) (image : List UInt8) :
    ℕ → List Span → Prop
  | o, [] => o = image.length
  | o, r :: rs => BlockAt signals value lengthWord image o r ∧
      Blocks value lengthWord image (o + 20 + r.len * transmissionBlockSize signals) rs

/-- The image is the blocks of the maximal runs of the minutes that are asked for, with their
fields. -/
def RightBlocks (start stop : ℕ) (image : List UInt8) : Prop :=
  ∃ runs, MaximalRuns 60 (Requested files signals (window start stop)) runs ∧
    Blocks signals (shown files (window start stop)) id image 0 runs

/-- The search and the scan let the minutes through that are asked for, as far as it shows, and no
run of minutes is too long for its header. -/
structure TrendFits (start stop : ℕ) : Prop where
  minutes : ∀ g, Requested files signals (window32 start stop) g ↔
    Requested files signals (window start stop) g
  fields : ∀ s ∈ signals, ∀ g, Requested files signals (window start stop) g →
    shown files (window32 start stop) s g = shown files (window start stop) s g
  length : ∀ first len, (∀ j < len, Requested files signals (window start stop) (first + j * 60)) →
    16 + len * transmissionBlockSize signals < 2 ^ 32

variable {files signals w} {value value' : Signal → ℕ → List UInt8} {image : List UInt8} {o : ℕ}
  {rs rs' : List Span} {s : Signal} {g k : ℕ}

/-! ## Blocks -/

theorem Blocks.unique {wrap wrap' : ℕ → ℕ} (h : Blocks signals value wrap image o rs)
    (h' : Blocks signals value' wrap' image o rs') : rs = rs' := by
  induction rs generalizing o rs' with
  | nil =>
    obtain rfl : o = image.length := h
    cases rs' with
    | nil => rfl
    | cons r' rs' =>
      have := h'.1.fits
      omega
  | cons r rs ih =>
    cases rs' with
    | nil =>
      obtain rfl : o = image.length := h'
      have := h.1.fits
      omega
    | cons r' rs' =>
      have hperiod := h.1.period.symm.trans h'.1.period
      have hsame : r = r' := by
        obtain ⟨first, len⟩ := r
        obtain ⟨first', len'⟩ := r'
        have hfirst : first = first' := h.1.gps.symm.trans h'.1.gps
        have hlen : len = len' := by
          dsimp only at hperiod
          omega
        rw [hfirst, hlen]
      subst hsame
      rw [ih h.2 h'.2]

theorem blocks_iff (h : Blocks signals value' (· % 2 ^ 32) image o rs) :
    Blocks signals value id image o rs ↔
      ∀ r ∈ rs, 16 + r.len * transmissionBlockSize signals < 2 ^ 32 ∧
        ∀ s ∈ signals, ∀ j < r.len, value' s (r.first + j * 60) = value s (r.first + j * 60) := by
  induction rs generalizing o with
  | nil => exact iff_of_true h (fun r hr => absurd hr List.not_mem_nil)
  | cons r rs ih =>
    obtain ⟨hblock, hrest⟩ := h
    rw [Blocks, ih hrest, List.forall_mem_cons]
    apply and_congr_left
    intro _
    constructor
    · intro hid
      have hlength := hid.length.symm.trans hblock.length
      refine ⟨?_, fun s hs j hj => ?_⟩
      · have := Nat.mod_lt (16 + r.len * transmissionBlockSize signals) (by decide : 0 < 2 ^ 32)
        dsimp only [id] at hlength
        omega
      · obtain ⟨k, hk⟩ := List.mem_iff_getElem?.mp hs
        rw [← hblock.areas k s hk j hj, ← hid.areas k s hk j hj]
    · rintro ⟨hlt, hvalues⟩
      refine ⟨hblock.fits, ?_, hblock.period, hblock.gps, fun k s hk j hj => ?_⟩
      · rw [hblock.length]
        exact Nat.mod_eq_of_lt hlt
      · rw [← hvalues s (List.mem_of_getElem? hk) j hj]
        exact hblock.areas k s hk j hj

theorem rightBlocks_iff {start stop : ℕ} {runs : List Span}
    (hruns : MaximalRuns 60 (Requested files signals (window32 start stop)) runs)
    (h : Blocks signals (shown files (window32 start stop)) (· % 2 ^ 32) image 0 runs) :
    RightBlocks files signals start stop image ↔ TrendFits files signals start stop := by
  have hstep : 0 < 60 := by decide
  constructor
  · rintro ⟨runs', hruns', hblocks⟩
    obtain rfl := hblocks.unique h
    have hall := (blocks_iff h).mp hblocks
    refine ⟨fun g => (hruns.covers g).trans (hruns'.covers g).symm, fun s hs g hg => ?_,
      fun first len hlen => ?_⟩
    · obtain ⟨r, hr, j, hj, rfl⟩ := (hruns'.covers g).mp hg
      exact (hall r hr).2 s hs j hj
    · rcases Nat.eq_zero_or_pos len with rfl | hpos
      · omega
      · obtain ⟨r, hr, i, -, hle⟩ := @MaximalRuns.inside _ _ _ ⟨first, len⟩ hruns' hstep hpos (by
          rintro g ⟨j, hj, rfl⟩
          exact hlen j hj)
        have hmul := Nat.mul_le_mul_right (transmissionBlockSize signals)
          (show len ≤ r.len from (Nat.le_add_left len i).trans hle)
        have := (hall r hr).1
        omega
  · intro hfits
    refine ⟨runs, ⟨hruns.nonempty, hruns.apart, fun g => ?_⟩, (blocks_iff h).mpr fun r hr => ?_⟩
    · rw [← hfits.minutes, hruns.covers]
    · have hpoints : ∀ j < r.len, Requested files signals (window start stop) (r.first + j * 60) :=
        fun j hj => (hfits.minutes _).mp ((hruns.covers _).mpr ⟨r, hr, j, hj, rfl⟩)
      exact ⟨hfits.length r.first r.len hpoints,
        fun s hs j hj => hfits.fields s hs _ (hpoints j hj)⟩

/-! ## Fields -/

theorem byteswap_field (r : RawTrendRec) (offset : ℕ) (type : DataType) :
    byteswap (r.field offset type.bps) = (r.field offset type.bps).reverse := by
  have hlen : (r.field offset type.bps).length = type.bps := by simp [RawTrendRec.field]
  unfold byteswap
  rw [hlen]
  cases type with
  | undefined => rfl
  | _ => exact if_pos (by decide)

theorem length_shown [∀ n g, Decidable (w n g)] : (shown files w s g).length = s.type.bps := by
  unfold shown
  dsimp only
  split
  · simp [RawTrendRec.field]
  · simp

theorem shown_of_not_stored [∀ n g, Decidable (w n g)] (h : ¬ Stored files w s g) :
    shown files w s g = List.replicate s.type.bps 0 := by
  unfold shown
  dsimp only
  split
  case h_1 r hr =>
    obtain ⟨recs, hrecs, hfind⟩ := Option.bind_eq_some_iff.mp hr
    have hsome := List.find?_some hfind
    have hin := of_decide_eq_true hsome
    exact absurd ⟨recs, r, hrecs, List.mem_of_find?_eq_some hfind, hin⟩ h
  case h_2 => rfl

theorem shown_of_mem [∀ n g, Decidable (w n g)] {recs : List RawTrendRec} {r : RawTrendRec}
    (hrecs : s.fileName.bind files = some recs) (hfile : TrendFile recs) (hr : r ∈ recs)
    (hw : w recs.length r.gps.toNat) :
    shown files w s r.gps.toNat = (r.field ((chOffset s.sfx).getD 0) s.type.bps).reverse := by
  have hfind : (recs.find? fun r' => decide (r'.gps.toNat = r.gps.toNat ∧
      w recs.length r.gps.toNat)) = some r := by
    cases hfound : recs.find? fun r' => decide (r'.gps.toNat = r.gps.toNat ∧
        w recs.length r.gps.toNat) with
    | none =>
      have hno := List.find?_eq_none.mp hfound r hr
      exact absurd (decide_eq_true ⟨rfl, hw⟩) hno
    | some r' =>
      have hsome := List.find?_some hfound
      rw [hfile.unique (List.mem_of_find?_eq_some hfound) hr (of_decide_eq_true hsome).1]
  unfold shown
  rw [hrecs]
  dsimp only [Option.bind_some]
  rw [hfind]

/-! ## Places -/

theorem blockSize_take_succ (hk : signals[k]? = some s) :
    transmissionBlockSize (signals.take (k + 1)) =
      transmissionBlockSize (signals.take k) + s.type.bps := by
  unfold transmissionBlockSize
  rw [List.take_add_one, hk, List.map_append, List.sum_append]
  simp

theorem blockSize_take_le (hk : k ≤ k') :
    transmissionBlockSize (signals.take k) ≤ transmissionBlockSize (signals.take k') := by
  unfold transmissionBlockSize
  rw [← Nat.sub_add_cancel hk, Nat.add_comm, List.take_add, List.map_append, List.sum_append]
  exact Nat.le_add_right _ _

/-- Where minute `q` of signal `k` is in the block of `m`. -/
def cellAddr (signals : List Signal) (m : MappingSpan) (k : ℕ) (s : Signal) (q : ℕ) : ℕ :=
  m.imageOffs + transmissionBlockSize (signals.take k) * m.length + s.type.bps * q

/-- Spans with their places, each behind the block of the one before it. -/
structure Placed (signals : List Signal) (size : ℕ) (ms : List MappingSpan) : Prop where
  header : ∀ m ∈ ms, 20 ≤ m.imageOffs
  inside : ∀ m ∈ ms, m.imageOffs + m.length * transmissionBlockSize signals ≤ size
  apart : ms.Pairwise fun m m' =>
    m.imageOffs + m.length * transmissionBlockSize signals + 20 ≤ m'.imageOffs

variable {size : ℕ} {ms : List MappingSpan} {m m' : MappingSpan} {s' : Signal} {q q' k' : ℕ}

theorem area_le (hk : signals[k]? = some s) (m : MappingSpan) (hq : q < m.length) :
    cellAddr signals m k s q + s.type.bps ≤
      m.imageOffs + transmissionBlockSize (signals.take (k + 1)) * m.length := by
  have hmul := Nat.mul_le_mul_left s.type.bps (show q + 1 ≤ m.length from hq)
  rw [blockSize_take_succ hk, Nat.add_mul]
  unfold cellAddr
  rw [Nat.mul_add, Nat.mul_one] at hmul
  omega

theorem cell_le (hk : signals[k]? = some s) (m : MappingSpan) (hq : q < m.length) :
    cellAddr signals m k s q + s.type.bps ≤
      m.imageOffs + m.length * transmissionBlockSize signals := by
  have hle := @blockSize_take_le signals (k + 1) signals.length
    (List.getElem?_eq_some_iff.mp hk).1
  rw [List.take_length] at hle
  have hmul := Nat.mul_le_mul_right m.length hle
  have harea := area_le hk m hq
  rw [Nat.mul_comm m.length]
  omega

/-- Different cells do not meet. -/
theorem cells_apart (hms : Placed signals size ms) (hm : m ∈ ms) (hm' : m' ∈ ms)
    (hk : signals[k]? = some s) (hk' : signals[k']? = some s') (hq : q < m.length)
    (hq' : q' < m'.length) :
    (m = m' ∧ k = k' ∧ q = q') ∨
      cellAddr signals m k s q + s.type.bps ≤ cellAddr signals m' k' s' q' ∨
      cellAddr signals m' k' s' q' + s'.type.bps ≤ cellAddr signals m k s q := by
  have hle := cell_le hk m hq
  have hle' := cell_le hk' m' hq'
  have hstart : m.imageOffs ≤ cellAddr signals m k s q := by
    unfold cellAddr
    omega
  have hstart' : m'.imageOffs ≤ cellAddr signals m' k' s' q' := by
    unfold cellAddr
    omega
  rcases pairwise_cases hms.apart hm hm' with rfl | hbefore | hbehind
  · rcases Nat.lt_trichotomy k k' with hlt | rfl | hlt
    · have harea := area_le hk m hq
      have hmul := Nat.mul_le_mul_right m.length (@blockSize_take_le signals (k + 1) k' hlt)
      refine .inr (.inl ?_)
      unfold cellAddr at *
      omega
    · rw [hk] at hk'
      obtain rfl := Option.some.inj hk'
      unfold cellAddr
      rcases Nat.lt_trichotomy q q' with hlt | rfl | hlt
      · have hmul := Nat.mul_le_mul_left s.type.bps (show q + 1 ≤ q' from hlt)
        rw [Nat.mul_add, Nat.mul_one] at hmul
        exact .inr (.inl (by omega))
      · exact .inl ⟨rfl, rfl, rfl⟩
      · have hmul := Nat.mul_le_mul_left s.type.bps (show q' + 1 ≤ q from hlt)
        rw [Nat.mul_add, Nat.mul_one] at hmul
        exact .inr (.inr (by omega))
    · have harea := area_le hk' m hq'
      have hmul := Nat.mul_le_mul_right m.length (@blockSize_take_le signals (k' + 1) k hlt)
      refine .inr (.inr ?_)
      unfold cellAddr at *
      omega
  · exact .inr (.inl (by omega))
  · exact .inr (.inr (by omega))

/-! ## Headers -/

theorem fillHeaders_spec {ps : List DataSpan} {seqNum : ℕ} (hsize : o +
    (ps.map DataSpan.length).sum * transmissionBlockSize signals + 20 * ps.length ≤ size) :
    (fillHeaders (transmissionBlockSize signals) ps o seqNum).2.map MappingSpan.toDataSpan = ps ∧
    (∀ m ∈ (fillHeaders (transmissionBlockSize signals) ps o seqNum).2, o + 20 ≤ m.imageOffs) ∧
    Placed signals size (fillHeaders (transmissionBlockSize signals) ps o seqNum).2 ∧
    ∀ w ∈ (fillHeaders (transmissionBlockSize signals) ps o seqNum).1,
      w.bytes.length = 20 ∧ ∃ m ∈ (fillHeaders (transmissionBlockSize signals) ps o seqNum).2,
        w.addr + 20 = m.imageOffs := by
  induction ps generalizing o seqNum with
  | nil => exact ⟨rfl, nofun, ⟨nofun, nofun, List.Pairwise.nil⟩, nofun⟩
  | cons p ps ih =>
    rw [List.map_cons, List.sum_cons, List.length_cons, Nat.add_mul] at hsize
    have hspec := @ih (o + 5 * 4 + p.length * transmissionBlockSize signals) (seqNum + 1) (by omega)
    rw [fillHeaders]
    generalize fillHeaders (transmissionBlockSize signals) ps
      (o + 5 * 4 + p.length * transmissionBlockSize signals) (seqNum + 1) = rest at hspec ⊢
    obtain ⟨hspans, hlow, hplaced, hheaders⟩ := hspec
    refine ⟨by rw [List.map_cons, hspans], ?_, ⟨?_, ?_, ?_⟩, ?_⟩
    · refine List.forall_mem_cons.mpr ⟨le_rfl, fun m hm => ?_⟩
      have := hlow m hm
      omega
    · refine List.forall_mem_cons.mpr ⟨?_, hplaced.header⟩
      show 20 ≤ o + 5 * 4
      omega
    · refine List.forall_mem_cons.mpr ⟨?_, hplaced.inside⟩
      show o + 5 * 4 + p.length * transmissionBlockSize signals ≤ size
      omega
    · refine List.pairwise_cons.mpr ⟨fun m hm => ?_, hplaced.apart⟩
      have := hlow m hm
      show o + 5 * 4 + p.length * transmissionBlockSize signals + 20 ≤ m.imageOffs
      omega
    · refine List.forall_mem_cons.mpr ⟨⟨by simp [headerBytes, netWord], ?_⟩, fun w hw => ?_⟩
      · exact ⟨_, List.mem_cons_self, rfl⟩
      · obtain ⟨hlen, m, hm, haddr⟩ := hheaders w hw
        exact ⟨hlen, m, List.mem_cons_of_mem _ hm, haddr⟩

theorem fillHeaders_apart {ps : List DataSpan} {seqNum : ℕ} {tbs : ℕ} :
    (∀ w ∈ (fillHeaders tbs ps o seqNum).1, o ≤ w.addr) ∧
      (fillHeaders tbs ps o seqNum).1.Pairwise fun w w' => w.stop ≤ w'.addr := by
  induction ps generalizing o seqNum with
  | nil => exact ⟨nofun, List.Pairwise.nil⟩
  | cons p ps ih =>
    obtain ⟨hlow, hapart⟩ := @ih (o + 5 * 4 + p.length * tbs) (seqNum + 1)
    rw [fillHeaders]
    refine ⟨List.forall_mem_cons.mpr ⟨le_rfl, fun w hw => ?_⟩,
      List.pairwise_cons.mpr ⟨fun w hw => ?_, hapart⟩⟩
    · have := hlow w hw
      omega
    · have := hlow w hw
      have hlen : (headerBytes tbs p seqNum).length = 20 := by simp [headerBytes, netWord]
      show o + (headerBytes tbs p seqNum).length ≤ w.addr
      rw [hlen]
      omega

theorem header_cell_apart (hms : Placed signals size ms) (hm : m ∈ ms) (hm' : m' ∈ ms)
    (hk : signals[k]? = some s) (hq : q < m.length) {addr : ℕ} (haddr : addr + 20 = m'.imageOffs) :
    addr + 20 ≤ cellAddr signals m k s q ∨ cellAddr signals m k s q + s.type.bps ≤ addr := by
  have hle := cell_le hk m hq
  have hstart : m.imageOffs ≤ cellAddr signals m k s q := by
    unfold cellAddr
    omega
  rcases pairwise_cases hms.apart hm hm' with rfl | hbefore | hbehind
  · exact .inl (by omega)
  · exact .inr (by omega)
  · exact .inl (by omega)

/-! ## Cells -/

structure CellWrites (files : TrendFiles) (signals : List Signal) (w : ℕ → ℕ → Prop)
    [∀ n g, Decidable (w n g)] (ms : List MappingSpan) (copies : List Write) : Prop where
  cell : ∀ c ∈ copies, ∃ m ∈ ms, ∃ k s, signals[k]? = some s ∧ ∃ q < m.length,
    Stored files w s (m.gps + q * 60) ∧
      c = ⟨cellAddr signals m k s q, shown files w s (m.gps + q * 60)⟩
  stored : ∀ m ∈ ms, ∀ k s, signals[k]? = some s → ∀ q < m.length,
    Stored files w s (m.gps + q * 60) →
      ⟨cellAddr signals m k s q, shown files w s (m.gps + q * 60)⟩ ∈ copies

theorem bytesAt_applyWrites_of_same {mem : ℕ → UInt8} {ws : List Write} {c : Write} (hc : c ∈ ws)
    (h : ∀ c' ∈ ws, c' = c ∨ c'.stop ≤ c.addr ∨ c.stop ≤ c'.addr) :
    bytesAt (applyWrites mem ws) c.addr c.bytes.length = c.bytes := by
  induction ws generalizing mem with
  | nil => exact absurd hc List.not_mem_nil
  | cons c' ws ih =>
    obtain ⟨-, hrest⟩ := List.forall_mem_cons.mp h
    by_cases hin : c ∈ ws
    · rw [applyWrites_cons]
      exact ih hin hrest
    · obtain rfl : c = c' := (List.mem_cons.mp hc).resolve_right hin
      have hlast := applyWrites_last mem [] fun c' hc' =>
        (hrest c' hc').resolve_left fun heq => hin (heq ▸ hc')
      exact hlast

section Cells

variable [∀ n g, Decidable (w n g)] {copies headers : List Write} {mem : ℕ → UInt8}

theorem cell_bytes (hms : Placed signals size ms) (hcopies : CellWrites files signals w ms copies)
    (hheaders : ∀ c ∈ headers, c.bytes.length = 20 ∧ ∃ m ∈ ms, c.addr + 20 = m.imageOffs)
    (hm : m ∈ ms) (hk : signals[k]? = some s) (hq : q < m.length) :
    bytesAt (applyWrites (fun _ => 0) (headers ++ copies)) (cellAddr signals m k s q) s.type.bps =
      shown files w s (m.gps + q * 60) := by
  have hheader : ∀ c ∈ headers,
      c.stop ≤ cellAddr signals m k s q ∨ cellAddr signals m k s q + s.type.bps ≤ c.addr := by
    intro c hc
    obtain ⟨hlen, m', hm', haddr⟩ := hheaders c hc
    unfold Write.stop
    rw [hlen]
    exact header_cell_apart hms hm hm' hk hq haddr
  by_cases hstored : Stored files w s (m.gps + q * 60)
  · have hmem := hcopies.stored m hm k s hk q hq hstored
    have hsame := @bytesAt_applyWrites_of_same (fun _ => 0) (headers ++ copies) _
      (List.mem_append_right _ hmem) ?_
    · rw [length_shown] at hsame
      exact hsame
    · intro c hc
      unfold Write.stop
      dsimp only
      rw [length_shown]
      rcases List.mem_append.mp hc with hc | hc
      · exact .inr (hheader c hc)
      · obtain ⟨m', hm', k', s', hk', q', hq', -, rfl⟩ := hcopies.cell c hc
        rcases cells_apart hms hm hm' hk hk' hq hq' with ⟨rfl, rfl, rfl⟩ | hbefore | hbehind
        · rw [hk] at hk'
          rw [Option.some.inj hk']
          exact .inl rfl
        · exact .inr (.inr hbefore)
        · refine .inr (.inl ?_)
          rw [length_shown]
          exact hbehind
  · rw [shown_of_not_stored hstored, bytesAt_applyWrites_of_miss]
    · simp [bytesAt]
    · intro c hc
      rcases List.mem_append.mp hc with hc | hc
      · exact hheader c hc
      · obtain ⟨m', hm', k', s', hk', q', hq', hstored', rfl⟩ := hcopies.cell c hc
        unfold Write.stop
        dsimp only
        rw [length_shown]
        rcases cells_apart hms hm hm' hk hk' hq hq' with ⟨rfl, rfl, rfl⟩ | hbefore | hbehind
        · rw [hk] at hk'
          rw [← Option.some.inj hk'] at hstored'
          exact absurd hstored' hstored
        · exact .inr hbefore
        · exact .inl hbehind

theorem header_bytes (hms : Placed signals size ms) (hcopies : CellWrites files signals w ms copies)
    (hheaders : ∀ c ∈ headers, c.bytes.length = 20 ∧ ∃ m ∈ ms, c.addr + 20 = m.imageOffs)
    (hapart : headers.Pairwise fun c c' => c.stop ≤ c'.addr) {c : Write} (hc : c ∈ headers) :
    bytesAt (applyWrites mem (headers ++ copies)) c.addr 20 = c.bytes := by
  obtain ⟨hlen, m, hm, haddr⟩ := hheaders c hc
  rw [← hlen]
  apply bytesAt_applyWrites_of_same (List.mem_append_left _ hc)
  intro c' hc'
  rcases List.mem_append.mp hc' with hc' | hc'
  · rcases pairwise_cases hapart hc' hc with rfl | hbefore | hbehind
    · exact .inl rfl
    · exact .inr (.inl hbefore)
    · exact .inr (.inr hbehind)
  · obtain ⟨m', hm', k', s', hk', q', hq', -, rfl⟩ := hcopies.cell c' hc'
    unfold Write.stop
    dsimp only
    rw [length_shown, hlen]
    exact .inr (header_cell_apart hms hm' hm hk' hq' haddr).symm

end Cells

/-! ## Words -/

theorem wordAt_netWord {n : ℕ} {pre post : List UInt8}
    (h : slice image o 20 = pre ++ netWord n ++ post) {a : ℕ} (ha : pre.length = a)
    (hle : a + 4 ≤ 20) : wordAt image (o + a) = n % 2 ^ 32 := by
  have hslice : slice image (o + a) 4 = netWord n := by
    rw [← slice_slice (show a + 4 ≤ 20 from hle), h, slice, List.append_assoc, ← ha,
      List.drop_left]
    rfl
  have hbyte : ∀ x, (UInt8.ofNat x).toNat = x % 256 := fun x => UInt8.toNat_ofNat'
  unfold wordAt
  rw [hslice, netWord]
  simp only [List.foldl_cons, List.foldl_nil, hbyte]
  omega

theorem slice_bytesAt (mem : ℕ → UInt8) {a n : ℕ} (h : a + n ≤ size) :
    slice (bytesAt mem 0 size) a n = bytesAt mem a n := by
  apply List.ext_getElem?
  intro i
  rw [slice_getElem?]
  by_cases hi : i < n
  · rw [if_pos hi]
    unfold bytesAt
    rw [List.getElem?_map, List.getElem?_map, List.getElem?_range (by omega),
      List.getElem?_range hi]
    simp
  · rw [if_neg hi]
    unfold bytesAt
    rw [List.getElem?_map, List.getElem?_eq_none (by rw [List.length_range]; omega)]
    rfl

/-! ## The image -/

section Image

variable [∀ n g, Decidable (w n g)] {mem : ℕ → UInt8}

theorem blocks_of_bytes {ps : List DataSpan} {seqNum : ℕ}
    (hsize : o + (ps.map DataSpan.length).sum * transmissionBlockSize signals + 20 * ps.length
      = size)
    (hshort : ∀ p ∈ ps, p.gps < 2 ^ 32 ∧ p.length * 60 < 2 ^ 32)
    (hheaders : ∀ c ∈ (fillHeaders (transmissionBlockSize signals) ps o seqNum).1,
      bytesAt mem c.addr 20 = c.bytes)
    (hcells : ∀ m ∈ (fillHeaders (transmissionBlockSize signals) ps o seqNum).2, ∀ k s,
      signals[k]? = some s → ∀ q < m.length,
        bytesAt mem (cellAddr signals m k s q) s.type.bps = value s (m.gps + q * 60)) :
    Blocks signals value (· % 2 ^ 32) (bytesAt mem 0 size) o (ps.map DataSpan.run) := by
  induction ps generalizing o seqNum with
  | nil =>
    rw [List.map_nil, List.sum_nil, List.length_nil] at hsize
    show o = _
    rw [length_bytesAt]
    omega
  | cons p ps ih =>
    rw [List.map_cons, List.sum_cons, List.length_cons, Nat.add_mul] at hsize
    rw [fillHeaders] at hheaders hcells
    obtain ⟨hheader, hheaders⟩ := List.forall_mem_cons.mp hheaders
    obtain ⟨hcell, hcells⟩ := List.forall_mem_cons.mp hcells
    obtain ⟨hp, hshort⟩ := List.forall_mem_cons.mp hshort
    have hslice : slice (bytesAt mem 0 size) o 20 =
        headerBytes (transmissionBlockSize signals) p seqNum := by
      rw [slice_bytesAt mem (by omega)]
      exact hheader
    rw [List.map_cons]
    refine ⟨⟨?_, ?_, ?_, ?_, fun k s hk j hj => ?_⟩, ih ?_ hshort hheaders hcells⟩
    · rw [length_bytesAt]
      show o + 20 + p.length * transmissionBlockSize signals ≤ size
      omega
    · exact @wordAt_netWord _ _ _ [] _ hslice 0 rfl (by decide)
    · have hword := @wordAt_netWord _ _ (p.length * 60)
        (netWord (4 * 4 + p.length * transmissionBlockSize signals))
        (netWord p.gps ++ netWord 0 ++ netWord seqNum)
        (by rw [hslice, headerBytes]; simp only [List.append_assoc]) 4 rfl (by decide)
      exact hword.trans (Nat.mod_eq_of_lt hp.2)
    · have hword := @wordAt_netWord _ _ p.gps
        (netWord (4 * 4 + p.length * transmissionBlockSize signals) ++ netWord (p.length * 60))
        (netWord 0 ++ netWord seqNum)
        (by rw [hslice, headerBytes]; simp only [List.append_assoc]) 8 rfl (by decide)
      exact hword.trans (Nat.mod_eq_of_lt hp.1)
    · have haddr : o + 20 + p.run.len * transmissionBlockSize (signals.take k) + j * s.type.bps =
          cellAddr signals ⟨p, o + 5 * 4⟩ k s j := by
        unfold cellAddr
        rw [Nat.mul_comm j, Nat.mul_comm p.run.len]
        rfl
      have hle : _ ≤ o + 5 * 4 + p.length * transmissionBlockSize signals :=
        cell_le hk ⟨p, o + 5 * 4⟩ hj
      rw [haddr, slice_bytesAt mem (by omega)]
      exact hcell k s hk j hj
    · show o + 20 + p.length * transmissionBlockSize signals + _ + _ = _
      omega

end Image

end AdvLigoRts.Nds
