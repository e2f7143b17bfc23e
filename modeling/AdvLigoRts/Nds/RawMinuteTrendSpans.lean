import AdvLigoRts.Nds.RawMinuteTrend

/-!
# The spans of the trend files

`fileSpans_spec`: the spans of a file are the maximal runs of the minutes that `window32` lets
through, and they are where the file has these minutes. `unitedSpans_spec`: the united spans are
the maximal runs of the minutes of all files.
-/

namespace AdvLigoRts.Nds

open PvLib

/-- The records of a file follow each other, on full minutes. -/
structure TrendFile (recs : List RawTrendRec) : Prop where
  nonempty : recs ≠ []
  ascending : recs.Pairwise fun r r' => r.gps.toNat < r'.gps.toNat
  minutes : ∀ r ∈ recs, r.gps.toNat ≠ 0 ∧ 60 ∣ r.gps.toNat

/-- The minutes that are asked for. -/
def window (start stop : ℕ) (_structs g : ℕ) : Prop := start < g + 30 ∧ g < stop

/-- The minutes of a file of `structs` records that the search and the scan let through. -/
def window32 (start stop : ℕ) (structs g : ℕ) : Prop :=
  start % 2 ^ 32 < g + 30 ∧ g < stop % 2 ^ 32 ∧
    ¬ (g = 4294967280 ∧ (structs = 1 ∧ 14 ≤ start % 2 ^ 32 ∨ 4294967280 < start % 2 ^ 32))

instance (start stop structs g : ℕ) : Decidable (window start stop structs g) :=
  inferInstanceAs (Decidable (_ ∧ _))

instance (start stop structs g : ℕ) : Decidable (window32 start stop structs g) :=
  inferInstanceAs (Decidable (_ ∧ _))

def DataSpan.run (d : DataSpan) : Span := ⟨d.gps, d.length⟩

/-- The records that a span stands for are at its place in the file. -/
def DataSpan.InFile (recs : List RawTrendRec) (d : DataSpan) : Prop :=
  ∀ j < d.length, ∃ r, recs[d.offs + j]? = some r ∧ r.gps.toNat = d.gps + j * 60

/-- The stamps of the records with numbers from `lo` up to `k`. -/
def StampIn (recs : List RawTrendRec) (lo k g : ℕ) : Prop :=
  ∃ i r, lo ≤ i ∧ i < k ∧ recs[i]? = some r ∧ r.gps.toNat = g

@[simp] theorem DataSpan.run_first (d : DataSpan) : d.run.first = d.gps := rfl

@[simp] theorem DataSpan.run_stop (d : DataSpan) : d.run.stop 60 = d.endGps := rfl

variable {recs rs : List RawTrendRec} {gps endGps : UInt32} {start stop lo k g : ℕ}

/-! ## Records -/

variable {r : RawTrendRec}

theorem TrendFile.step (h : TrendFile recs) {i j : ℕ} {r' : RawTrendRec} (hij : i < j)
    (hi : recs[i]? = some r) (hj : recs[j]? = some r') : r.gps.toNat + 60 ≤ r'.gps.toNat := by
  obtain ⟨hilt, rfl⟩ := List.getElem?_eq_some_iff.mp hi
  obtain ⟨hjlt, rfl⟩ := List.getElem?_eq_some_iff.mp hj
  have hlt := List.pairwise_iff_getElem.mp h.ascending i j hilt hjlt hij
  obtain ⟨-, a, ha⟩ := h.minutes _ (List.getElem_mem hilt)
  obtain ⟨-, b, hb⟩ := h.minutes _ (List.getElem_mem hjlt)
  omega

theorem TrendFile.unique (h : TrendFile recs) {r' : RawTrendRec} (hr : r ∈ recs) (hr' : r' ∈ recs)
    (heq : r.gps.toNat = r'.gps.toNat) : r = r' := by
  obtain ⟨i, hi⟩ := List.mem_iff_getElem?.mp hr
  obtain ⟨j, hj⟩ := List.mem_iff_getElem?.mp hr'
  rcases Nat.lt_trichotomy i j with hlt | rfl | hlt
  · have := h.step hlt hi hj
    omega
  · exact Option.some.inj (hi.symm.trans hj)
  · have := h.step hlt hj hi
    omega

theorem stampAt_eq {i : ℕ} (h : recs[i]? = some r) : stampAt recs i = r.gps := by
  rw [stampAt, h]
  rfl

theorem exists_rec {i : ℕ} (h : i < recs.length) : ∃ r, recs[i]? = some r :=
  ⟨recs[i], List.getElem?_eq_getElem h⟩

/-! ## The search -/

/-- The search lets the record through. -/
def Passes (gps : UInt32) (structs g : ℕ) : Prop :=
  gps.toNat < g + 30 ∧
    ¬ (g = 4294967280 ∧ (structs = 1 ∧ 14 ≤ gps.toNat ∨ 4294967280 < gps.toNat))

theorem lt_add_thirty (gps s : UInt32) :
    gps < s + 30 ↔ gps.toNat < (s.toNat + 30) % 2 ^ 32 := by
  rw [UInt32.lt_iff_toNat_lt, UInt32.toNat_add]
  rfl

/-- What holds of the range that is left to search. -/
structure Searching (gps : UInt32) (recs : List RawTrendRec) (first structs : ℕ) : Prop where
  pos : 0 < structs
  le : first + structs ≤ recs.length
  below : ∀ i r, i < first → recs[i]? = some r → r.gps.toNat + 30 ≤ gps.toNat
  above : ∀ i r, first + structs ≤ i → recs[i]? = some r → gps.toNat ≤ r.gps.toNat
  last : structs = 1 → recs.length = 1 ∨ first + 1 < recs.length ∨
    ∃ r, recs[first]? = some r ∧ r.gps.toNat < gps.toNat

theorem Searching.passes_iff (h : TrendFile recs) {first : ℕ} (hs : Searching gps recs first 1)
    (hr : recs[first]? = some r) : Passes gps recs.length r.gps.toNat ↔ gps < r.gps + 30 := by
  have hmem := List.mem_of_getElem? hr
  obtain ⟨-, a, ha⟩ := h.minutes r hmem
  have hword := r.gps.toNat_lt
  rw [lt_add_thirty, Passes]
  by_cases hmax : r.gps.toNat = 4294967280
  · -- it is the last record
    have hlast : ¬ first + 1 < recs.length := by
      intro hlt
      obtain ⟨r', hr'⟩ := exists_rec hlt
      have hstep := h.step (Nat.lt_succ_self first) hr hr'
      have := r'.gps.toNat_lt
      omega
    rw [hmax]
    rcases hs.last rfl with hone | hlt | ⟨r', hr', hlt⟩
    · omega
    · exact absurd hlt hlast
    · rw [hr] at hr'
      obtain rfl := Option.some.inj hr'
      have hle := hs.le
      omega
  · omega

theorem findOffs_spec (h : TrendFile recs) {depth first structs : ℕ} (hdepth : structs ≤ depth)
    (hs : Searching gps recs first structs) :
    ∃ lo, findOffs gps recs depth first structs = some lo ∧ lo ≤ recs.length ∧
      ∀ i r, recs[i]? = some r → (lo ≤ i ↔ Passes gps recs.length r.gps.toNat) := by
  induction depth generalizing first structs with
  | zero =>
    have := hs.pos
    omega
  | succ depth ih =>
    have hle := hs.le
    have hpos := hs.pos
    rw [findOffs]
    by_cases hone : structs = 1
    · subst hone
      obtain ⟨r, hr⟩ := exists_rec (show first < recs.length by omega)
      have hpasses := hs.passes_iff h hr
      rw [if_pos rfl, stampAt_eq (show recs[first + 1 / 2]? = some r from hr)]
      have hbelow : ∀ i r', i < first → recs[i]? = some r' →
          ¬ Passes gps recs.length r'.gps.toNat := by
        intro i r' hi hr' hpass
        have := hs.below i r' hi hr'
        have := hpass.1
        omega
      have habove : ∀ i r', first < i → recs[i]? = some r' →
          Passes gps recs.length r'.gps.toNat := by
        intro i r' hi hr'
        have hge := hs.above i r' hi hr'
        obtain ⟨hilt, -⟩ := List.getElem?_eq_some_iff.mp hr'
        have := r'.gps.toNat_lt
        obtain ⟨-, a, ha⟩ := h.minutes r' (List.mem_of_getElem? hr')
        refine ⟨by omega, fun hmax => ?_⟩
        omega
      by_cases hlt : gps < r.gps + 30
      · rw [if_pos hlt]
        refine ⟨first, rfl, by omega, fun i r' hr' => ?_⟩
        rcases Nat.lt_trichotomy i first with hi | rfl | hi
        · exact iff_of_false (by omega) (hbelow i r' hi hr')
        · rw [hr] at hr'
          obtain rfl := Option.some.inj hr'
          exact iff_of_true le_rfl (hpasses.mpr hlt)
        · exact iff_of_true hi.le (habove i r' hi hr')
      · rw [if_neg hlt]
        refine ⟨first + 1, rfl, by omega, fun i r' hr' => ?_⟩
        rcases Nat.lt_trichotomy i first with hi | rfl | hi
        · exact iff_of_false (by omega) (hbelow i r' hi hr')
        · rw [hr] at hr'
          obtain rfl := Option.some.inj hr'
          exact iff_of_false (by omega) fun hpass => hlt (hpasses.mp hpass)
        · exact iff_of_true hi (habove i r' hi hr')
    · obtain ⟨r, hr⟩ := exists_rec (show first + structs / 2 < recs.length by omega)
      rw [if_neg hone, stampAt_eq hr]
      apply ih (by omega)
      by_cases hgt : gps > r.gps
      · rw [if_pos hgt]
        have hgt' : r.gps.toNat < gps.toNat := UInt32.lt_iff_toNat_lt.mp hgt
        refine ⟨by omega, by omega, fun i r' hi hr' => ?_, fun i r' hi hr' => ?_, fun _ => ?_⟩
        · have := h.step hi hr' hr
          omega
        · exact hs.above i r' (by omega) hr'
        · exact .inr (.inr ⟨r, hr, hgt'⟩)
      · rw [if_neg hgt]
        have hle' : gps.toNat ≤ r.gps.toNat := Nat.le_of_not_lt fun hlt =>
          hgt (UInt32.lt_iff_toNat_lt.mpr hlt)
        refine ⟨by omega, by omega, hs.below, fun i r' hi hr' => ?_, fun hhalf => ?_⟩
        · rcases Nat.lt_or_eq_of_le (show first + structs / 2 ≤ i by omega) with hlt | rfl
          · have := h.step hlt hr hr'
            omega
          · rw [hr] at hr'
            obtain rfl := Option.some.inj hr'
            exact hle'
        · exact .inr (.inl (by omega))

/-! ## The scan -/

/-- The spans are those of the minutes, and lie in the file. -/
structure SpansOf (recs : List RawTrendRec) (minutes : ℕ → Prop) (dvec : List DataSpan) : Prop where
  runs : MaximalRuns 60 minutes (dvec.map DataSpan.run)
  inFile : ∀ d ∈ dvec, d.InFile recs

theorem stampIn_succ (hle : lo ≤ k) (hr : recs[k]? = some r) :
    StampIn recs lo (k + 1) g ↔ StampIn recs lo k g ∨ r.gps.toNat = g := by
  constructor
  · rintro ⟨i, r', hlo, hlt, hr', hg⟩
    rcases Nat.lt_succ_iff_lt_or_eq.mp hlt with hlt | rfl
    · exact .inl ⟨i, r', hlo, hlt, hr', hg⟩
    · rw [hr] at hr'
      rw [Option.some.inj hr']
      exact .inr hg
  · rintro (⟨i, r', hlo, hlt, hr', hg⟩ | hg)
    · exact ⟨i, r', hlo, by omega, hr', hg⟩
    · exact ⟨k, r, hle, Nat.lt_succ_self k, hr, hg⟩

variable {dvec : List DataSpan} {ds : DataSpan}

theorem checkIn_eq (hne : ds.gps ≠ 0) (hapart : ∀ d ∈ dvec, d.endGps ≤ ds.gps) :
    checkIn dvec ds = dvec ++ [ds] := by
  have hback : ¬ (dvec.getLast?.map DataSpan.endGps).getD 0 > ds.gps := by
    cases hlast : dvec.getLast? with
    | none => exact Nat.not_lt_zero _
    | some d => exact Nat.not_lt.mpr (hapart d (List.mem_of_getLast? hlast))
  unfold checkIn
  dsimp only
  rw [if_neg hback, if_pos hne]

variable {minutes : ℕ → Prop}

/-- A record behind the current span begins a new one. -/
theorem SpansOf.snoc {minutes' : ℕ → Prop} (h : SpansOf recs minutes dvec)
    (hr : recs[k]? = some r) (hbehind : ∀ d ∈ dvec, d.endGps < r.gps.toNat)
    (hminutes : ∀ g, minutes' g ↔ minutes g ∨ r.gps.toNat = g) :
    SpansOf recs minutes' (dvec ++ [⟨k, r.gps.toNat, 1⟩]) := by
  obtain ⟨⟨hpos, hapart, hcovers⟩, hin⟩ := h
  refine ⟨⟨?_, ?_, fun g => ?_⟩, ?_⟩
  · rw [List.map_append, List.forall_mem_append]
    exact ⟨hpos, List.forall_mem_singleton.mpr Nat.one_pos⟩
  · rw [List.map_append, List.pairwise_append]
    refine ⟨hapart, List.pairwise_singleton _ _, fun s hs t ht => ?_⟩
    obtain ⟨d, hd, rfl⟩ := List.mem_map.mp hs
    rw [List.mem_singleton.mp ht]
    exact hbehind d hd
  · rw [hminutes, hcovers, List.map_append]
    constructor
    · rintro (⟨s, hs, hg⟩ | rfl)
      · exact ⟨s, List.mem_append_left _ hs, hg⟩
      · exact ⟨_, List.mem_append_right _ (List.mem_singleton_self _), 0, Nat.one_pos, by simp⟩
    · rintro ⟨s, hs, hg⟩
      rcases List.mem_append.mp hs with hs | hs
      · exact .inl ⟨s, hs, hg⟩
      · rw [List.mem_singleton.mp hs] at hg
        obtain ⟨j, hj, rfl⟩ := hg
        obtain rfl : j = 0 := Nat.lt_one_iff.mp hj
        exact .inr (by simp)
  · rw [List.forall_mem_append]
    refine ⟨hin, List.forall_mem_singleton.mpr fun j hj => ?_⟩
    obtain rfl : j = 0 := Nat.lt_one_iff.mp hj
    exact ⟨r, hr, by simp⟩

theorem SpansOf.prolong {minutes' : ℕ → Prop} (h : SpansOf recs minutes (dvec ++ [ds]))
    (hr : recs[ds.offs + ds.length]? = some r) (hnext : r.gps.toNat = ds.endGps)
    (hminutes : ∀ g, minutes' g ↔ minutes g ∨ r.gps.toNat = g) :
    SpansOf recs minutes' (dvec ++ [{ ds with length := ds.length + 1 }]) := by
  obtain ⟨⟨hpos, hapart, hcovers⟩, hin⟩ := h
  rw [List.map_append] at hpos hapart hcovers
  rw [List.forall_mem_append] at hpos hin
  rw [List.pairwise_append] at hapart
  have hlast := List.forall_mem_singleton.mp hin.2
  refine ⟨⟨?_, ?_, fun g => ?_⟩, ?_⟩
  · rw [List.map_append, List.forall_mem_append]
    exact ⟨hpos.1, List.forall_mem_singleton.mpr (Nat.succ_pos _)⟩
  · rw [List.map_append, List.pairwise_append]
    refine ⟨hapart.1, List.pairwise_singleton _ _, fun s hs t ht => ?_⟩
    rw [List.mem_singleton.mp ht]
    exact hapart.2.2 s hs ds.run (List.mem_singleton_self _)
  · rw [hminutes, hcovers, List.map_append]
    constructor
    · rintro (⟨s, hs, hg⟩ | rfl)
      · rcases List.mem_append.mp hs with hs | hs
        · exact ⟨s, List.mem_append_left _ hs, hg⟩
        · rw [List.mem_singleton.mp hs] at hg
          obtain ⟨j, hj, rfl⟩ := hg
          exact ⟨_, List.mem_append_right _ (List.mem_singleton_self _), j, Nat.lt_succ_of_lt hj,
            rfl⟩
      · exact ⟨_, List.mem_append_right _ (List.mem_singleton_self _), ds.length,
          Nat.lt_succ_self _, hnext⟩
    · rintro ⟨s, hs, hg⟩
      rcases List.mem_append.mp hs with hs | hs
      · exact .inl ⟨s, List.mem_append_left _ hs, hg⟩
      · rw [List.mem_singleton.mp hs] at hg
        obtain ⟨j, hj, rfl⟩ := hg
        rcases Nat.lt_succ_iff_lt_or_eq.mp hj with hj | rfl
        · exact .inl ⟨ds.run, List.mem_append_right _ (List.mem_singleton_self _), j, hj, rfl⟩
        · exact .inr hnext
  · rw [List.forall_mem_append]
    refine ⟨hin.1, List.forall_mem_singleton.mpr fun j hj => ?_⟩
    rcases Nat.lt_succ_iff_lt_or_eq.mp hj with hj | rfl
    · exact hlast j hj
    · exact ⟨r, hr, hnext⟩

theorem SpansOf.apart (h : SpansOf recs minutes (dvec ++ [ds])) :
    ∀ d ∈ dvec, d.endGps < ds.gps := by
  have hapart := h.runs.apart
  rw [List.map_append, List.pairwise_append] at hapart
  intro d hd
  exact hapart.2.2 d.run (List.mem_map_of_mem hd) ds.run (List.mem_singleton_self _)

theorem SpansOf.endGps_le (h : SpansOf recs minutes (dvec ++ [ds])) (hfile : TrendFile recs)
    (hr : recs[ds.offs + ds.length]? = some r) : ds.endGps ≤ r.gps.toNat := by
  have hmem : ds ∈ dvec ++ [ds] := List.mem_append_right _ (List.mem_singleton_self _)
  have hpos : 0 < ds.length := h.runs.nonempty ds.run (List.mem_map_of_mem hmem)
  obtain ⟨r', hr', hgps⟩ := h.inFile ds hmem (ds.length - 1) (by omega)
  have hstep := hfile.step (show ds.offs + (ds.length - 1) < ds.offs + ds.length by omega) hr' hr
  unfold DataSpan.endGps pointPeriod
  omega

theorem scanSpans_spec (h : TrendFile recs) (hrs : recs.drop k = rs) (hlo : lo ≤ k)
    (hne : ds.gps ≠ 0) (hk : ds.offs + ds.length = k)
    (hspans : SpansOf recs (StampIn recs lo k) (dvec ++ [ds])) :
    ∃ m, k ≤ m ∧ SpansOf recs (StampIn recs lo m) (scanSpans endGps rs k dvec ds) ∧
      ∀ i r, k ≤ i → recs[i]? = some r → (i < m ↔ r.gps.toNat < endGps.toNat) := by
  have hcheck : checkIn dvec ds = dvec ++ [ds] :=
    checkIn_eq hne fun d hd => (hspans.apart d hd).le
  induction rs generalizing k dvec ds with
  | nil =>
    rw [scanSpans, hcheck]
    refine ⟨k, le_rfl, hspans, fun i r hi hr => ?_⟩
    have hlen := List.drop_eq_nil_iff.mp hrs
    obtain ⟨hlt, -⟩ := List.getElem?_eq_some_iff.mp hr
    omega
  | cons r rs ih =>
    have hr : recs[k]? = some r := by
      rw [← List.head?_drop, hrs]
      rfl
    have hrest : recs.drop (k + 1) = rs := by
      rw [← List.tail_drop, hrs]
      rfl
    have hle := hspans.endGps_le h (hk ▸ hr)
    rw [scanSpans]
    by_cases hend : r.gps ≥ endGps
    · rw [if_pos hend, hcheck]
      have hend' : endGps.toNat ≤ r.gps.toNat := UInt32.le_iff_toNat_le.mp hend
      refine ⟨k, le_rfl, hspans, fun i r' hi hr' => ?_⟩
      rcases Nat.lt_or_eq_of_le hi with hlt | rfl
      · have := h.step hlt hr hr'
        omega
      · rw [hr] at hr'
        obtain rfl := Option.some.inj hr'
        omega
    · have hend' : r.gps.toNat < endGps.toNat := Nat.lt_of_not_le fun hge =>
        hend (UInt32.le_iff_toNat_le.mpr hge)
      have hfirst : ∀ m, k + 1 ≤ m →
          (∀ i r, k + 1 ≤ i → recs[i]? = some r → (i < m ↔ r.gps.toNat < endGps.toNat)) →
          ∀ i r, k ≤ i → recs[i]? = some r → (i < m ↔ r.gps.toNat < endGps.toNat) := by
        intro m hm hall i r' hi hr'
        rcases Nat.lt_or_eq_of_le hi with hlt | rfl
        · exact hall i r' hlt hr'
        · rw [hr] at hr'
          obtain rfl := Option.some.inj hr'
          exact iff_of_true hm hend'
      rw [if_neg hend, if_neg hne]
      by_cases hgap : r.gps.toNat ≠ ds.endGps
      · -- a new span
        rw [if_pos hgap, hcheck]
        have hbehind : ∀ d ∈ dvec ++ [ds], d.endGps < r.gps.toNat := by
          intro d hd
          rcases List.mem_append.mp hd with hd | hd
          · have := hspans.apart d hd
            have : ds.gps ≤ ds.endGps := Nat.le_add_right _ _
            omega
          · rw [List.mem_singleton.mp hd]
            omega
        have hsnoc := hspans.snoc hr hbehind fun g => stampIn_succ hlo hr
        have hne' : r.gps.toNat ≠ 0 := (h.minutes r (List.mem_of_getElem? hr)).1
        obtain ⟨m, hm, hresult, hall⟩ := ih hrest (by omega) hne' rfl hsnoc
          (checkIn_eq hne' fun d hd => (hbehind d hd).le)
        exact ⟨m, by omega, hresult, hfirst m hm hall⟩
      · -- the span goes on
        rw [if_neg hgap]
        have hlong := hspans.prolong (hk ▸ hr) (not_not.mp hgap) fun g => stampIn_succ hlo hr
        obtain ⟨m, hm, hresult, hall⟩ := ih hrest (by omega)
          (show ({ ds with length := ds.length + 1 } : DataSpan).gps ≠ 0 from hne)
          (show ds.offs + (ds.length + 1) = k + 1 by omega) hlong
          (checkIn_eq hne fun d hd => (hspans.apart d hd).le)
        exact ⟨m, by omega, hresult, hfirst m hm hall⟩

theorem fileSpans_spec (h : TrendFile recs) (start stop : ℕ) :
    ∃ dvec, fileSpans (.ofNat start) (.ofNat stop) recs = some dvec ∧
      SpansOf recs (fun g => ∃ r ∈ recs, r.gps.toNat = g ∧ window32 start stop recs.length g)
        dvec := by
  have hstart : (UInt32.ofNat start).toNat = start % 2 ^ 32 := UInt32.toNat_ofNat'
  have hstop : (UInt32.ofNat stop).toNat = stop % 2 ^ 32 := UInt32.toNat_ofNat'
  have hpos := List.length_pos_iff.mpr h.nonempty
  obtain ⟨lo, hfind, hlo, hpass⟩ := @findOffs_spec recs (.ofNat start) h recs.length 0 recs.length
    le_rfl
    ⟨hpos, by omega, fun i r hi => absurd hi (Nat.not_lt_zero i),
      fun i r hi hr => by
        obtain ⟨hlt, -⟩ := List.getElem?_eq_some_iff.mp hr
        omega,
      fun hone => .inl hone⟩
  unfold Passes at hpass
  rw [hstart] at hpass
  -- what the scan is to find
  have hwindow : ∀ m, (∀ i r, lo ≤ i → recs[i]? = some r →
        (i < m ↔ r.gps.toNat < (UInt32.ofNat stop).toNat)) → ∀ g, StampIn recs lo m g ↔
      ∃ r ∈ recs, r.gps.toNat = g ∧ window32 start stop recs.length g := by
    intro m hm g
    constructor
    · rintro ⟨i, r, hi, hlt, hr, rfl⟩
      have hleft := (hpass i r hr).mp hi
      have hright := (hm i r hi hr).mp hlt
      rw [hstop] at hright
      exact ⟨r, List.mem_of_getElem? hr, rfl, hleft.1, hright, hleft.2⟩
    · rintro ⟨r, hr, rfl, hleft, hright, hmax⟩
      obtain ⟨i, hi⟩ := List.mem_iff_getElem?.mp hr
      have hle := (hpass i r hi).mpr ⟨hleft, hmax⟩
      rw [← hstop] at hright
      exact ⟨i, r, hle, (hm i r hle hi).mpr hright, hi, rfl⟩
  have hcongr : ∀ {m dvec}, (∀ g, StampIn recs lo m g ↔
      ∃ r ∈ recs, r.gps.toNat = g ∧ window32 start stop recs.length g) →
      SpansOf recs (StampIn recs lo m) dvec → SpansOf recs
        (fun g => ∃ r ∈ recs, r.gps.toNat = g ∧ window32 start stop recs.length g) dvec := by
    intro m dvec heq hspans
    refine ⟨⟨hspans.runs.nonempty, hspans.runs.apart, fun g => ?_⟩, hspans.inFile⟩
    rw [← heq, hspans.runs.covers]
  have hnone : SpansOf recs (StampIn recs lo lo) [] := by
    refine ⟨⟨nofun, List.Pairwise.nil, fun g => ?_⟩, nofun⟩
    refine iff_of_false ?_ (by rintro ⟨s, hs, -⟩; exact absurd hs List.not_mem_nil)
    rintro ⟨i, r, hi, hlt, -⟩
    omega
  unfold fileSpans
  rw [hfind, Option.map_some]
  refine ⟨_, rfl, ?_⟩
  split
  case isTrue hall =>
    refine hcongr (hwindow lo fun i r hi hr => ?_) hnone
    obtain ⟨hlt, -⟩ := List.getElem?_eq_some_iff.mp hr
    omega
  case isFalse hsome =>
    obtain ⟨r, hr⟩ := exists_rec (show lo < recs.length by omega)
    have hdrop : recs.drop lo = r :: recs.drop (lo + 1) := by
      obtain ⟨hlt, rfl⟩ := List.getElem?_eq_some_iff.mp hr
      exact List.drop_eq_getElem_cons hlt
    rw [hdrop, scanSpans]
    by_cases hend : r.gps ≥ UInt32.ofNat stop
    · have hend' := UInt32.le_iff_toNat_le.mp hend
      rw [if_pos hend]
      refine hcongr (hwindow lo fun i r' hi hr' => ?_) hnone
      rcases Nat.lt_or_eq_of_le hi with hlt | rfl
      · have := h.step hlt hr hr'
        omega
      · rw [hr] at hr'
        obtain rfl := Option.some.inj hr'
        omega
    · have hend' : r.gps.toNat < (UInt32.ofNat stop).toNat := Nat.lt_of_not_le fun hge =>
        hend (UInt32.le_iff_toNat_le.mpr hge)
      rw [if_neg hend, if_pos rfl]
      have hne : r.gps.toNat ≠ 0 := (h.minutes r (List.mem_of_getElem? hr)).1
      have hone := hnone.snoc hr nofun fun g => stampIn_succ le_rfl hr
      obtain ⟨m, hm, hresult, hbelow⟩ :=
        @scanSpans_spec recs _ (.ofNat stop) lo (lo + 1) [] _ h rfl (Nat.le_succ lo) hne rfl hone
      refine hcongr (hwindow m fun i r' hi hr' => ?_) hresult
      rcases Nat.lt_or_eq_of_le hi with hlt | rfl
      · exact hbelow i r' hlt hr'
      · rw [hr] at hr'
        obtain rfl := Option.some.inj hr'
        exact iff_of_true hm hend'

/-! ## The files of a request -/

variable {files : TrendFiles} {names : List (List Char)}

theorem dataSpanMap_spec (start stop : ℕ)
    (hfiles : ∀ name ∈ names, ∀ recs, files name = some recs → TrendFile recs) :
    ∃ spanMap, dataSpanMap (.ofNat start) (.ofNat stop) files names = some spanMap ∧
      ∀ name dvec, (name, dvec) ∈ spanMap ↔ name ∈ names ∧ dvec ≠ [] ∧
        ∃ recs, files name = some recs ∧
          fileSpans (.ofNat start) (.ofNat stop) recs = some dvec := by
  induction names with
  | nil => exact ⟨[], rfl, fun name dvec => by simp⟩
  | cons first names ih =>
    obtain ⟨hfirst, hrest⟩ := List.forall_mem_cons.mp hfiles
    obtain ⟨rest, heq, hmem⟩ := ih hrest
    rw [dataSpanMap]
    cases hfile : files first with
    | none =>
      refine ⟨rest, heq, fun name dvec => ?_⟩
      rw [hmem, List.mem_cons]
      constructor
      · rintro ⟨hname, hrest⟩
        exact ⟨.inr hname, hrest⟩
      · rintro ⟨rfl | hname, hne, recs, hrecs, hspans⟩
        · rw [hfile] at hrecs
          cases hrecs
        · exact ⟨hname, hne, recs, hrecs, hspans⟩
    | some recs =>
      obtain ⟨dvec, hdvec, -⟩ := fileSpans_spec (hfirst recs hfile) start stop
      dsimp only
      rw [hdvec, heq]
      refine ⟨_, rfl, fun name dvec' => ?_⟩
      have hhead : (name = first ∧ dvec' ≠ [] ∧ ∃ recs, files name = some recs ∧
          fileSpans (.ofNat start) (.ofNat stop) recs = some dvec') ↔
          dvec ≠ [] ∧ (name, dvec') = (first, dvec) := by
        constructor
        · rintro ⟨rfl, hne, recs', hrecs, hspans⟩
          rw [hfile] at hrecs
          obtain rfl := Option.some.inj hrecs
          rw [hdvec] at hspans
          obtain rfl := Option.some.inj hspans
          exact ⟨hne, rfl⟩
        · rintro ⟨hne, heq⟩
          obtain ⟨rfl, rfl⟩ := Prod.mk.inj heq
          exact ⟨rfl, hne, recs, hfile, hdvec⟩
      rw [List.mem_cons, or_and_right, hhead, ← hmem]
      split
      case isTrue hnil => simp [hnil]
      case isFalse hne => simp [hne]

/-! ## Union -/

section Union

variable {spanMap : List (List Char × List DataSpan)}

theorem mem_summarySpans {d : DataSpan} :
    d ∈ summarySpans spanMap ↔ ∃ e ∈ spanMap, d ∈ e.2 := by
  have hfold : ∀ dsl, d ∈ spanMap.foldl
      (fun dsl p => List.merge dsl p.2 fun a b => decide (a.gps ≤ b.gps)) dsl ↔
      d ∈ dsl ∨ ∃ e ∈ spanMap, d ∈ e.2 := by
    induction spanMap with
    | nil => simp
    | cons e spanMap ih =>
      intro dsl
      rw [List.foldl_cons, ih, List.mem_merge, List.exists_mem_cons_iff, or_assoc]
  unfold summarySpans
  rw [hfold]
  simp

theorem summarySpans_sorted (h : ∀ e ∈ spanMap, e.2.Pairwise fun a b => a.gps ≤ b.gps) :
    (summarySpans spanMap).Pairwise fun a b => a.gps ≤ b.gps := by
  have hfold : ∀ dsl : List DataSpan, (dsl.Pairwise fun a b => a.gps ≤ b.gps) →
      (spanMap.foldl (fun dsl p => List.merge dsl p.2 fun a b => decide (a.gps ≤ b.gps))
        dsl).Pairwise fun a b => a.gps ≤ b.gps := by
    induction spanMap with
    | nil => exact fun dsl hdsl => hdsl
    | cons e spanMap ih =>
      obtain ⟨he, hrest⟩ := List.forall_mem_cons.mp h
      intro dsl hdsl
      rw [List.foldl_cons]
      apply ih hrest
      have hmerge := @List.pairwise_merge _ (fun a b : DataSpan => decide (a.gps ≤ b.gps))
        (fun a b c hab hbc => by simp only [decide_eq_true_eq] at *; omega)
        (fun a b => by simp only [Bool.or_eq_true, decide_eq_true_eq]; omega) dsl e.2
        (hdsl.imp fun hab => decide_eq_true hab) (he.imp fun hab => decide_eq_true hab)
      exact hmerge.imp fun hab => of_decide_eq_true hab
  exact hfold [] List.Pairwise.nil

theorem DataSpan.run_extend (s t : DataSpan) : (s.extend t).run = s.run.extend 60 t.run := by
  unfold DataSpan.extend Span.extend
  dsimp only
  split
  case isTrue hgt =>
    show Span.mk s.gps ((t.endGps - s.gps) / pointPeriod) =
      Span.mk s.gps (max s.length ((t.endGps - s.gps) / pointPeriod))
    rw [max_eq_right (Nat.le_of_lt hgt)]
  case isFalse hle =>
    show Span.mk s.gps s.length =
      Span.mk s.gps (max s.length ((t.endGps - s.gps) / pointPeriod))
    rw [max_eq_left (Nat.le_of_not_lt hle)]

theorem DataSpan.extend_gps (s t : DataSpan) : (s.extend t).gps = s.gps :=
  congrArg Span.first (DataSpan.run_extend s t)

theorem uniteSpans_eq {ps united : List DataSpan} {cur : DataSpan} (hcur : cur.gps ≠ 0)
    (hps : ∀ p ∈ ps, p.gps ≠ 0) :
    (uniteSpans ps united cur).map DataSpan.run =
      united.map DataSpan.run ++ unite 60 cur.run (ps.map DataSpan.run) := by
  induction ps generalizing united cur with
  | nil =>
    rw [uniteSpans, if_pos hcur, List.map_append]
    rfl
  | cons p ps ih =>
    obtain ⟨hp, hrest⟩ := List.forall_mem_cons.mp hps
    rw [uniteSpans, if_neg hcur, List.map_cons, unite]
    by_cases hmeet : p.gps ≤ cur.endGps
    · rw [if_pos hmeet, if_pos (show p.run.first ≤ cur.run.stop 60 from hmeet),
        ← DataSpan.run_extend,
        ih (by rwa [DataSpan.extend_gps]) hrest]
    · rw [if_neg hmeet, if_neg (show ¬ p.run.first ≤ cur.run.stop 60 from hmeet), ih hp hrest,
        List.map_append, List.append_assoc]
      rfl

theorem unitedSpans_spec
    (hsorted : ∀ e ∈ spanMap, e.2.Pairwise fun a b => a.gps ≤ b.gps)
    (haligned : ∀ e ∈ spanMap, ∀ d ∈ e.2, d.gps ≠ 0 ∧ 60 ∣ d.gps ∧ 0 < d.length) :
    MaximalRuns 60 (fun g => ∃ e ∈ spanMap, ∃ d ∈ e.2, d.run.Has 60 g)
      ((unitedSpans spanMap).map DataSpan.run) := by
  have hpoints : ∀ g, (∃ e ∈ spanMap, ∃ d ∈ e.2, d.run.Has 60 g) ↔
      ∃ s ∈ (summarySpans spanMap).map DataSpan.run, s.Has 60 g := by
    intro g
    simp only [List.mem_map, exists_exists_and_eq_and, mem_summarySpans]
    constructor
    · rintro ⟨e, he, d, hd, hg⟩
      exact ⟨d, ⟨e, he, hd⟩, hg⟩
    · rintro ⟨d, ⟨e, he, hd⟩, hg⟩
      exact ⟨e, he, d, hd, hg⟩
  have hall : ∀ d ∈ summarySpans spanMap, d.gps ≠ 0 ∧ 60 ∣ d.gps ∧ 0 < d.length := by
    intro d hd
    obtain ⟨e, he, hd⟩ := mem_summarySpans.mp hd
    exact haligned e he d hd
  have hsummary := summarySpans_sorted hsorted
  unfold unitedSpans
  cases hlist : summarySpans spanMap with
  | nil =>
    rw [hlist] at hpoints
    refine ⟨nofun, List.Pairwise.nil, fun g => ?_⟩
    rw [hpoints]
    rfl
  | cons p ps =>
    rw [hlist] at hall hsummary hpoints
    obtain ⟨hp, hps⟩ := List.forall_mem_cons.mp hall
    rw [uniteSpans, if_pos rfl, uniteSpans_eq hp.1 fun d hd => (hps d hd).1, List.map_nil,
      List.nil_append]
    have hunite := (@unite_spec 60 (by decide) p.run (ps.map DataSpan.run) ?_ ?_).2
    · refine ⟨hunite.nonempty, hunite.apart, fun g => ?_⟩
      rw [hpoints, ← hunite.covers]
      rfl
    · intro s hs
      rw [← List.map_cons (f := DataSpan.run)] at hs
      obtain ⟨d, hd, rfl⟩ := List.mem_map.mp hs
      exact (hall d hd).2
    · rw [← List.map_cons (f := DataSpan.run), List.pairwise_map]
      exact hsummary

end Union

end AdvLigoRts.Nds
