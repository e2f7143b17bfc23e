import AdvLigoRts.Nds.RawMinuteTrendImage
import Mathlib.Data.List.Dedup

/-!
# What a raw minute trend request sends

The copies of a request fill the cells of the minutes that are let through (`copyFiles_spec`), so
that the image is the blocks of these minutes. `rawMinuteTrend_blocks_iff` says when they are the
blocks that are asked for.
-/

namespace AdvLigoRts.Nds

open PvLib

variable {files : TrendFiles} {signals : List Signal} {s : Signal} {recs : List RawTrendRec}
  {chans : List Channel} {c : Channel} {d : DataSpan} {ds : List DataSpan} {m m' : MappingSpan}
  {ms : List MappingSpan} {w : Write} {k : ℕ}

/-! ## Names -/

theorem takeWhile_file {file rest : List Char} (h : '.' ∉ file) :
    (file ++ '.' :: rest).takeWhile (fun c => c != '.') = file := by
  have hall : ∀ c ∈ file, (c != '.') = true := by
    intro c hc
    rw [bne_iff_ne]
    intro heq
    exact h (heq ▸ hc)
  rw [List.takeWhile_append_of_pos hall, List.takeWhile_cons_of_neg (by simp), List.append_nil]

theorem Signal.fileName_eq {file sfx : List Char} (hname : s.name = file ++ '.' :: sfx)
    (hfile : '.' ∉ file) : s.fileName = some file := by
  rw [Signal.fileName, if_pos (by simp [hname]), hname, takeWhile_file hfile]

theorem Signal.WellNamed.fileName_isSome (h : s.WellNamed) : ∃ file, s.fileName = some file := by
  obtain ⟨file, sfx, hname, hfile, -⟩ := h.dot
  exact ⟨file, s.fileName_eq hname hfile⟩

theorem mem_fileSet {name : List Char} :
    name ∈ fileSet (signals.filterMap Signal.fileName) ↔ ∃ s ∈ signals, s.fileName = some name := by
  rw [fileSet, List.mem_insertionSort, List.mem_dedup, List.mem_filterMap]

theorem mem_channelNumbers {name : List Char} :
    k ∈ channelNumbers signals name ↔ ∃ s, signals[k]? = some s ∧ s.fileName = some name := by
  rw [channelNumbers, List.mem_filter, List.mem_range, decide_eq_true_eq, Option.bind_eq_some_iff]
  constructor
  · exact fun h => h.2
  · rintro ⟨s, hs, hname⟩
    exact ⟨(List.getElem?_eq_some_iff.mp hs).1, s, hs, hname⟩

/-- What is kept of signal `k`. -/
def channelAt (signals : List Signal) (k : ℕ) (s : Signal) : Channel :=
  ⟨s.type.bps, (chOffset s.sfx).getD 0, transmissionBlockSize (signals.take k)⟩

theorem channels_spec {ks : List ℕ}
    (h : ∀ k ∈ ks, ∃ s, signals[k]? = some s ∧ (chOffset s.sfx).isSome) :
    ∃ chans, channels signals ks = some chans ∧
      ∀ c, c ∈ chans ↔ ∃ k ∈ ks, ∃ s, signals[k]? = some s ∧ c = channelAt signals k s := by
  induction ks with
  | nil => exact ⟨[], rfl, by simp⟩
  | cons k ks ih =>
    obtain ⟨⟨s, hs, hsome⟩, hrest⟩ := List.forall_mem_cons.mp h
    obtain ⟨chans, hchans, hmem⟩ := ih hrest
    obtain ⟨offset, hoffset⟩ := Option.isSome_iff_exists.mp hsome
    have hchannel : channelOf signals k = some (channelAt signals k s) := by
      rw [channelOf, hs, channelAt]
      dsimp only
      rw [hoffset]
      rfl
    refine ⟨channelAt signals k s :: chans, ?_, fun c => ?_⟩
    · rw [channels, hchannel, hchans]
    · rw [List.mem_cons, hmem, List.exists_mem_cons_iff]
      apply or_congr_left
      constructor
      · rintro rfl
        exact ⟨s, hs, rfl⟩
      · rintro ⟨s', hs', rfl⟩
        rw [hs] at hs'
        rw [Option.some.inj hs']

/-! ## Copies -/

/-- The copies of one span for one channel: the minutes of the span, at their places. -/
theorem mem_copyPoints (hfile : TrendFile recs) (hin : d.InFile recs)
    (hinside : d.run.Inside 60 m.run) :
    w ∈ copyPoints recs c d m ↔ ∃ q < m.length, d.run.Has 60 (m.gps + q * 60) ∧
      ∃ r ∈ recs, r.gps.toNat = m.gps + q * 60 ∧
        w = ⟨m.imageOffs + c.imageOffset * m.length + c.bytes * q,
          byteswap (r.field c.offset c.bytes)⟩ := by
  obtain ⟨i, hi, hle⟩ := hinside
  dsimp only [DataSpan.run] at hi hle
  have hskip : (d.gps - m.gps) / 60 = i := by omega
  have hplace : ∀ p, m.imageOffs + c.imageOffset * m.length + c.bytes * i + p * c.bytes =
      m.imageOffs + c.imageOffset * m.length + c.bytes * (i + p) := by
    intro p
    rw [Nat.mul_add, Nat.mul_comm p, ← Nat.add_assoc]
  have hpoint : ∀ p, m.gps + (i + p) * 60 = d.gps + p * 60 := by
    intro p
    omega
  unfold copyPoints
  rw [List.mem_filterMap]
  constructor
  · rintro ⟨p, hp, hw⟩
    rw [List.mem_range] at hp
    obtain ⟨r, hr, rfl⟩ := Option.map_eq_some_iff.mp hw
    obtain ⟨r', hr', hgps⟩ := hin p hp
    rw [hr] at hr'
    obtain rfl := Option.some.inj hr'
    refine ⟨i + p, by omega, ?_, r, List.mem_of_getElem? hr, ?_, ?_⟩
    · rw [hpoint]
      exact ⟨p, hp, rfl⟩
    · rw [hpoint, hgps]
    · rw [hskip, hplace]
  · rintro ⟨q, hq, ⟨p, hp, hg⟩, r, hr, hgps, rfl⟩
    have hqp : q = i + p := by
      dsimp only [DataSpan.run] at hg
      omega
    obtain ⟨r', hr', hgps'⟩ := hin p hp
    have hsame : r' = r := by
      apply hfile.unique (List.mem_of_getElem? hr') hr
      rw [hgps', hgps, hqp, hpoint]
    refine ⟨p, List.mem_range.mpr hp, ?_⟩
    rw [hr', hskip, hplace, hqp, hsame]
    rfl

theorem inside_bounds (h : d.run.Inside 60 m.run) : m.gps ≤ d.gps ∧ d.endGps ≤ m.endGps := by
  obtain ⟨i, hi, hle⟩ := h
  dsimp only [DataSpan.run] at hi hle
  unfold DataSpan.endGps pointPeriod
  omega

/-- A span is inside one mapping span only. -/
theorem inside_unique (hms : ms.Pairwise fun m m' => m.endGps < m'.gps) (hm : m ∈ ms)
    (hm' : m' ∈ ms) (h : d.run.Inside 60 m.run) (h' : d.run.Inside 60 m'.run) : m = m' := by
  have hbounds := inside_bounds h
  have hbounds' := inside_bounds h'
  have hle : d.gps ≤ d.endGps := Nat.le_add_right _ _
  rcases pairwise_cases hms hm hm' with heq | hlt | hlt
  · exact heq
  · omega
  · omega

/-- The mapping span that is found for a span is the one it is inside. -/
theorem dropWhile_inside (hms : ms.Pairwise fun m m' => m.endGps < m'.gps) (hm : m ∈ ms)
    (hpos : 0 < d.length) (h : d.run.Inside 60 m.run) :
    ∃ pre post, ms = pre ++ m :: post ∧ (∀ m' ∈ pre, m'.endGps < d.gps) ∧
      ms.dropWhile (fun m => decide (d.gps > m.endGps)) = m :: post := by
  obtain ⟨pre, post, rfl⟩ := List.append_of_mem hm
  have hbounds := inside_bounds h
  have hpre : ∀ m' ∈ pre, m'.endGps < d.gps := by
    intro m' hm'
    have := (List.pairwise_append.mp hms).2.2 m' hm' m List.mem_cons_self
    omega
  refine ⟨pre, post, rfl, hpre, ?_⟩
  have hnot : ¬ d.gps > m.endGps := by
    have hlt : d.gps < d.endGps := by
      unfold DataSpan.endGps pointPeriod
      omega
    omega
  rw [List.dropWhile_append_of_pos fun m' hm' => decide_eq_true (hpre m' hm'),
    List.dropWhile_cons_of_neg (by simpa using hnot)]

/-- The copies of a file. -/
theorem mem_copySpans (hms : ms.Pairwise fun m m' => m.endGps < m'.gps)
    (hds : ds.Pairwise fun d d' => d.endGps < d'.gps)
    (hin : ∀ d ∈ ds, 0 < d.length ∧ ∃ m ∈ ms, d.run.Inside 60 m.run) :
    w ∈ copySpans recs chans ds ms ↔ ∃ d ∈ ds, ∃ m ∈ ms, d.run.Inside 60 m.run ∧
      ∃ c ∈ chans, w ∈ copyPoints recs c d m := by
  induction ds generalizing ms with
  | nil => simp [copySpans]
  | cons d ds ih =>
    obtain ⟨⟨hpos, m, hm, hinside⟩, hrest⟩ := List.forall_mem_cons.mp hin
    obtain ⟨hbehind, hds⟩ := List.pairwise_cons.mp hds
    obtain ⟨pre, post, rfl, hpre, hdrop⟩ := dropWhile_inside hms hm hpos hinside
    -- the spans behind are not inside those that were passed
    have hback : ∀ d' ∈ ds, ∀ m' ∈ pre ++ m :: post, d'.run.Inside 60 m'.run → m' ∈ m :: post := by
      intro d' hd' m' hm' hinside'
      rcases List.mem_append.mp hm' with hm' | hm'
      · have := hpre m' hm'
        have := hbehind d' hd'
        have := inside_bounds hinside'
        have : d.gps ≤ d.endGps := Nat.le_add_right _ _
        have : d'.gps ≤ d'.endGps := Nat.le_add_right _ _
        omega
      · exact hm'
    have hloop := @ih (m :: post) (List.pairwise_append.mp hms).2.1 hds fun d' hd' => by
      obtain ⟨hpos', m', hm', hinside'⟩ := hrest d' hd'
      exact ⟨hpos', m', hback d' hd' m' hm' hinside', hinside'⟩
    rw [copySpans, hdrop]
    dsimp only
    rw [List.mem_append, hloop, List.mem_flatMap, List.exists_mem_cons_iff]
    apply or_congr
    · constructor
      · rintro ⟨c, hc, hw⟩
        exact ⟨m, hm, hinside, c, hc, hw⟩
      · rintro ⟨m', hm', hinside', c, hc, hw⟩
        rw [inside_unique hms hm hm' hinside hinside']
        exact ⟨c, hc, hw⟩
    · constructor
      · rintro ⟨d', hd', m', hm', hrest'⟩
        exact ⟨d', hd', m', List.mem_append_right _ hm', hrest'⟩
      · rintro ⟨d', hd', m', hm', hinside', hrest'⟩
        exact ⟨d', hd', m', hback d' hd' m' hm' hinside', hinside', hrest'⟩

theorem copyFiles_eq {spanMap : List (List Char × List DataSpan)}
    (h : ∀ e ∈ spanMap, ∃ recs chans, files e.1 = some recs ∧
      channels signals (channelNumbers signals e.1) = some chans) :
    ∃ copies, copyFiles files signals ms spanMap = some copies ∧
      ∀ w, w ∈ copies ↔ ∃ e ∈ spanMap, ∃ recs chans, files e.1 = some recs ∧
        channels signals (channelNumbers signals e.1) = some chans ∧
          w ∈ copySpans recs chans e.2 ms := by
  induction spanMap with
  | nil => exact ⟨[], rfl, by simp⟩
  | cons e spanMap ih =>
    obtain ⟨⟨recs, chans, hrecs, hchans⟩, hrest⟩ := List.forall_mem_cons.mp h
    obtain ⟨copies, hcopies, hmem⟩ := ih hrest
    obtain ⟨name, dvec⟩ := e
    refine ⟨copySpans recs chans dvec ms ++ copies, ?_, fun w => ?_⟩
    · rw [copyFiles, hrecs, hchans, hcopies]
    · rw [List.mem_append, hmem, List.exists_mem_cons_iff]
      apply or_congr_left
      constructor
      · intro hw
        exact ⟨recs, chans, hrecs, hchans, hw⟩
      · rintro ⟨recs', chans', hrecs', hchans', hw⟩
        rw [hrecs] at hrecs'
        rw [hchans] at hchans'
        rw [Option.some.inj hrecs', Option.some.inj hchans']
        exact hw

/-! ## The spans of a request -/

/-- A request for signals with names and files of the right form. -/
structure TrendRequest (files : TrendFiles) (signals : List Signal) : Prop where
  named : ∀ s ∈ signals, s.WellNamed
  filed : ∀ s ∈ signals, ∀ recs, s.fileName.bind files = some recs → TrendFile recs

/-- The spans of the files of a request are those of the minutes that are let through. -/
structure SpanMapOk (files : TrendFiles) (signals : List Signal) (start stop : ℕ)
    (spanMap : List (List Char × List DataSpan)) : Prop where
  entry : ∀ e ∈ spanMap, (∃ s ∈ signals, s.fileName = some e.1) ∧
    ∃ recs, files e.1 = some recs ∧ TrendFile recs ∧ SpansOf recs
      (fun g => ∃ r ∈ recs, r.gps.toNat = g ∧ window32 start stop recs.length g) e.2
  stored : ∀ s ∈ signals, ∀ g, Stored files (window32 start stop) s g →
    ∃ e ∈ spanMap, s.fileName = some e.1 ∧ ∃ d ∈ e.2, d.run.Has 60 g

section Request

variable {start stop : ℕ} {spanMap : List (List Char × List DataSpan)}

theorem dataSpanMap_ok (h : TrendRequest files signals) (start stop : ℕ) :
    ∃ spanMap, dataSpanMap (.ofNat start) (.ofNat stop) files
        (fileSet (signals.filterMap Signal.fileName)) = some spanMap ∧
      SpanMapOk files signals start stop spanMap := by
  have hfile : ∀ name ∈ fileSet (signals.filterMap Signal.fileName), ∀ recs,
      files name = some recs → TrendFile recs := by
    intro name hname recs hrecs
    obtain ⟨s, hs, hsname⟩ := mem_fileSet.mp hname
    apply h.filed s hs recs
    rw [hsname]
    exact hrecs
  obtain ⟨spanMap, hmap, hmem⟩ := dataSpanMap_spec start stop hfile
  refine ⟨spanMap, hmap, ⟨?_, ?_⟩⟩
  · rintro ⟨name, dvec⟩ he
    obtain ⟨hname, -, recs, hrecs, hspans⟩ := (hmem name dvec).mp he
    have htrend := hfile name hname recs hrecs
    obtain ⟨dvec', hdvec, hok⟩ := fileSpans_spec htrend start stop
    rw [hspans] at hdvec
    obtain rfl := Option.some.inj hdvec
    exact ⟨mem_fileSet.mp hname, recs, hrecs, htrend, hok⟩
  · intro s hs g hg
    obtain ⟨recs, r, hrecs, hr, hgps, hw⟩ := hg
    obtain ⟨name, hname, hrecs'⟩ := Option.bind_eq_some_iff.mp hrecs
    obtain ⟨dvec, hdvec, hok⟩ := fileSpans_spec (h.filed s hs recs hrecs) start stop
    obtain ⟨t, ht, hhas⟩ := (hok.runs.covers g).mp ⟨r, hr, hgps, hw⟩
    obtain ⟨d, hd, rfl⟩ := List.mem_map.mp ht
    have hset : name ∈ fileSet (signals.filterMap Signal.fileName) := mem_fileSet.mpr ⟨s, hs, hname⟩
    have hentry := (hmem name dvec).mpr ⟨hset, List.ne_nil_of_mem hd, recs, hrecs', hdvec⟩
    exact ⟨(name, dvec), hentry, hname, d, hd, hhas⟩

theorem SpanMapOk.minutes (h : SpanMapOk files signals start stop spanMap) (g : ℕ) :
    (∃ e ∈ spanMap, ∃ d ∈ e.2, d.run.Has 60 g) ↔
      Requested files signals (window32 start stop) g := by
  constructor
  · rintro ⟨e, he, d, hd, hg⟩
    obtain ⟨⟨s, hs, hname⟩, recs, hrecs, -, hspans⟩ := h.entry e he
    obtain ⟨r, hr, hgps, hw⟩ :=
      (hspans.runs.covers g).mpr ⟨d.run, List.mem_map_of_mem hd, hg⟩
    refine ⟨s, hs, recs, r, ?_, hr, hgps, hw⟩
    rw [hname]
    exact hrecs
  · rintro ⟨s, hs, hg⟩
    obtain ⟨e, he, -, d, hd, hhas⟩ := h.stored s hs g hg
    exact ⟨e, he, d, hd, hhas⟩

theorem SpansOf.spans {minutes : ℕ → Prop} (h : SpansOf recs minutes ds) (hfile : TrendFile recs) :
    (ds.Pairwise fun d d' => d.endGps < d'.gps) ∧
      ∀ d ∈ ds, d.gps ≠ 0 ∧ 60 ∣ d.gps ∧ 0 < d.length := by
  refine ⟨List.pairwise_map.mp h.runs.apart, fun d hd => ?_⟩
  have hpos : 0 < d.length := h.runs.nonempty d.run (List.mem_map_of_mem hd)
  obtain ⟨r, hr, hgps⟩ := h.inFile d hd 0 hpos
  rw [Nat.zero_mul, Nat.add_zero] at hgps
  obtain ⟨hne, hdvd⟩ := hfile.minutes r (List.mem_of_getElem? hr)
  rw [hgps] at hne hdvd
  exact ⟨hne, hdvd, hpos⟩

theorem SpanMapOk.united (h : SpanMapOk files signals start stop spanMap) :
    MaximalRuns 60 (Requested files signals (window32 start stop))
      ((unitedSpans spanMap).map DataSpan.run) := by
  have hunited := @unitedSpans_spec spanMap ?_ ?_
  · refine ⟨hunited.nonempty, hunited.apart, fun g => ?_⟩
    rw [← h.minutes, hunited.covers]
  · intro e he
    obtain ⟨-, recs, -, hfile, hspans⟩ := h.entry e he
    apply (hspans.spans hfile).1.imp
    intro d d' hlt
    exact (Nat.le_add_right d.gps _).trans hlt.le
  · intro e he
    obtain ⟨-, recs, -, hfile, hspans⟩ := h.entry e he
    exact (hspans.spans hfile).2

theorem copyFiles_spec (hrequest : TrendRequest files signals)
    (h : SpanMapOk files signals start stop spanMap)
    (hms : ms.map MappingSpan.toDataSpan = unitedSpans spanMap) :
    ∃ copies, copyFiles files signals ms spanMap = some copies ∧
      CellWrites files signals (window32 start stop) ms copies := by
  have hunited := h.united
  rw [← hms, List.map_map] at hunited
  have hapart : ms.Pairwise fun m m' => m.endGps < m'.gps := List.pairwise_map.mp hunited.apart
  have hchannels : ∀ name, ∃ chans, channels signals (channelNumbers signals name) = some chans ∧
      ∀ c, c ∈ chans ↔ ∃ k ∈ channelNumbers signals name, ∃ s, signals[k]? = some s ∧
        c = channelAt signals k s := by
    intro name
    apply channels_spec
    intro k hk
    obtain ⟨s, hs, -⟩ := mem_channelNumbers.mp hk
    exact ⟨s, hs, (hrequest.named s (List.mem_of_getElem? hs)).suffix⟩
  have hinside : ∀ e ∈ spanMap, ∀ d ∈ e.2, 0 < d.length ∧ ∃ m ∈ ms, d.run.Inside 60 m.run := by
    intro e he d hd
    obtain ⟨-, recs, -, hfile, hspans⟩ := h.entry e he
    have hpos := ((hspans.spans hfile).2 d hd).2.2
    obtain ⟨t, ht, hin⟩ := hunited.inside (by decide) (s := d.run) hpos fun g hg =>
      (h.minutes g).mp ⟨e, he, d, hd, hg⟩
    obtain ⟨m, hm, rfl⟩ := List.mem_map.mp ht
    exact ⟨hpos, m, hm, hin⟩
  obtain ⟨copies, hcopies, hmem⟩ := @copyFiles_eq files signals ms spanMap fun e he => by
    obtain ⟨-, recs, hrecs, -⟩ := h.entry e he
    obtain ⟨chans, hchans, -⟩ := hchannels e.1
    exact ⟨recs, chans, hrecs, hchans⟩
  refine ⟨copies, hcopies, ⟨fun w hw => ?_, fun m hm k s hk q hq hstored => ?_⟩⟩
  · obtain ⟨e, he, recs, chans, hrecs, hchans, hw⟩ := (hmem w).mp hw
    obtain ⟨-, recs', hrecs', hfile, hspans⟩ := h.entry e he
    rw [hrecs] at hrecs'
    obtain rfl := Option.some.inj hrecs'
    obtain ⟨d, hd, m, hm, hin, c, hc, hw⟩ :=
      (mem_copySpans hapart (hspans.spans hfile).1 (hinside e he)).mp hw
    obtain ⟨chans', hchans', hchan⟩ := hchannels e.1
    rw [hchans] at hchans'
    obtain rfl := Option.some.inj hchans'
    obtain ⟨k, hk, s, hs, rfl⟩ := (hchan c).mp hc
    obtain ⟨s', hs', hname⟩ := mem_channelNumbers.mp hk
    rw [hs] at hs'
    obtain rfl := Option.some.inj hs'
    obtain ⟨q, hq, hhas, r, hr, hgps, rfl⟩ :=
      (mem_copyPoints hfile (hspans.inFile d hd) hin).mp hw
    obtain ⟨r', hr', hgps', hwindow⟩ :=
      (hspans.runs.covers _).mpr ⟨d.run, List.mem_map_of_mem hd, hhas⟩
    have hbind : s.fileName.bind files = some recs := by
      rw [hname]
      exact hrecs
    have hshown := @shown_of_mem files (window32 start stop) s _ recs r hbind hfile hr
      (by rw [hgps]; exact hwindow)
    rw [hgps] at hshown
    refine ⟨m, hm, k, s, hs, q, hq, ⟨recs, r', hbind, hr', hgps', hwindow⟩, ?_⟩
    rw [hshown, ← byteswap_field]
    rfl
  · obtain ⟨e, he, hname, d, hd, hhas⟩ := h.stored s (List.mem_of_getElem? hk) _ hstored
    obtain ⟨-, recs, hrecs, hfile, hspans⟩ := h.entry e he
    obtain ⟨chans, hchans, hchan⟩ := hchannels e.1
    obtain ⟨hpos, m', hm', hin⟩ := hinside e he d hd
    have hbind : s.fileName.bind files = some recs := by
      rw [hname]
      exact hrecs
    obtain ⟨r, hr, hgps, hwindow⟩ :=
      (hspans.runs.covers _).mpr ⟨d.run, List.mem_map_of_mem hd, hhas⟩
    -- the minute is in one block only
    have hsame : m' = m := by
      have hbounds := inside_bounds hin
      have hd' := hhas.lt_stop
      rw [DataSpan.run_first, DataSpan.run_stop] at hd'
      have hend : m.gps + q * 60 + 60 ≤ m.endGps := by
        unfold DataSpan.endGps pointPeriod
        omega
      rcases pairwise_cases hapart hm' hm with heq | hlt | hlt
      · exact heq
      · omega
      · omega
    rw [hsame] at hin
    have hshown := @shown_of_mem files (window32 start stop) s _ recs r hbind hfile hr
      (by rw [hgps]; exact hwindow)
    rw [hgps] at hshown
    apply (hmem _).mpr
    refine ⟨e, he, recs, chans, hrecs, hchans, ?_⟩
    apply (mem_copySpans hapart (hspans.spans hfile).1 (hinside e he)).mpr
    refine ⟨d, hd, m, hm, hin, channelAt signals k s, (hchan _).mpr ⟨k, ?_, s, hk, rfl⟩, ?_⟩
    · exact mem_channelNumbers.mpr ⟨s, hk, hname⟩
    · apply (mem_copyPoints hfile (hspans.inFile d hd) hin).mpr
      refine ⟨q, hq, hhas, r, hr, hgps, ?_⟩
      rw [hshown, ← byteswap_field]
      rfl

/-- The first minute and the period of a block fit into its header. -/
theorem SpanMapOk.short (hrequest : TrendRequest files signals)
    (h : SpanMapOk files signals start stop spanMap) (hd : d ∈ unitedSpans spanMap) :
    d.gps < 2 ^ 32 ∧ d.length * 60 < 2 ^ 32 := by
  have hunited := h.united
  have hpos : 0 < d.length := hunited.nonempty d.run (List.mem_map_of_mem hd)
  have hstamp : ∀ j < d.length, d.gps + j * 60 < 2 ^ 32 ∧ 60 ≤ d.gps + j * 60 := by
    intro j hj
    obtain ⟨s, hs, recs, r, hrecs, hr, hgps, -⟩ :=
      (hunited.covers (d.gps + j * 60)).mpr ⟨d.run, List.mem_map_of_mem hd, j, hj, rfl⟩
    obtain ⟨hne, hdvd⟩ := (hrequest.filed s hs recs hrecs).minutes r hr
    have hword := r.gps.toNat_lt
    rw [hgps] at hne hdvd hword
    exact ⟨hword, Nat.le_of_dvd (Nat.pos_of_ne_zero hne) hdvd⟩
  have hfirst := hstamp 0 hpos
  have hlast := hstamp (d.length - 1) (by omega)
  omega

theorem blockImage_blocks (hrequest : TrendRequest files signals)
    (h : SpanMapOk files signals start stop spanMap) (seqNum : ℕ) :
    let united := unitedSpans spanMap
    let tbs := transmissionBlockSize signals
    let headers := fillHeaders tbs united 0 seqNum
    ∃ copies, copyFiles files signals headers.2 spanMap = some copies ∧
      Blocks signals (shown files (window32 start stop)) (· % 2 ^ 32)
        (blockImage (imageSize tbs united) (headers.1 ++ copies)) 0 (united.map DataSpan.run) := by
  intro united tbs headers
  have hsize : 0 + (united.map DataSpan.length).sum * tbs + 20 * united.length =
      imageSize tbs united := by
    unfold imageSize
    omega
  obtain ⟨hspans, -, hplaced, hheaders⟩ := @fillHeaders_spec signals 0 _ united seqNum hsize.le
  obtain ⟨copies, hcopies, hcells⟩ := copyFiles_spec hrequest h hspans
  refine ⟨copies, hcopies, ?_⟩
  apply blocks_of_bytes hsize
  · intro d hd
    exact h.short hrequest hd
  · intro c hc
    exact header_bytes hplaced hcells hheaders fillHeaders_apart.2 hc
  · intro m hm k s hk q hq
    exact cell_bytes hplaced hcells hheaders hm hk hq

end Request

/-- A raw minute trend request sends the blocks of the minutes that are asked for, with their
fields, just when the search lets these minutes through and no run of them is too long. -/
theorem rawMinuteTrend_blocks_iff (files : TrendFiles) (signals : List Signal)
    (h : TrendRequest files signals) (start stop seqNum : ℕ) (written : List UInt8 → ℤ) :
    ∃ ok image, rawMinuteTrend files signals start stop seqNum written = some (ok, image) ∧
      (RightBlocks files signals start stop image ↔ TrendFits files signals start stop) := by
  have hnames : ¬ (signals.any fun s => s.fileName.isNone) = true := by
    intro hany
    obtain ⟨s, hs, hnone⟩ := List.any_eq_true.mp hany
    obtain ⟨file, hfile⟩ := (h.named s hs).fileName_isSome
    rw [hfile] at hnone
    cases hnone
  obtain ⟨spanMap, hmap, hok⟩ := dataSpanMap_ok h start stop
  obtain ⟨copies, hcopies, hblocks⟩ := blockImage_blocks h hok seqNum
  unfold rawMinuteTrend
  dsimp only
  rw [if_neg hnames, hmap, Option.bind_some]
  split
  case isTrue hempty =>
    have hunited : unitedSpans spanMap = [] := by
      rcases hempty with rfl | hsize
      · rfl
      · unfold imageSize at hsize
        exact List.eq_nil_of_length_eq_zero (by omega)
    refine ⟨true, [], rfl, rightBlocks_iff hok.united ?_⟩
    rw [hunited]
    rfl
  case isFalse =>
    rw [hcopies]
    exact ⟨_, _, rfl, rightBlocks_iff hok.united hblocks⟩

def minuteRec (gps : UInt32) : RawTrendRec := ⟨gps, fun _ => 7⟩

/-- The signals `A.n` and `A.mean`, whose file has a gap. -/
def gapSignals : List Signal :=
  [⟨['A', '.', 'n'], .int32⟩, ⟨['A', '.', 'm', 'e', 'a', 'n'], .double64⟩]

def gapFiles : TrendFiles := fun name =>
  if name = ['A'] then some [minuteRec 60, minuteRec 180] else none

theorem gapRequest : TrendRequest gapFiles gapSignals := by
  refine ⟨?_, ?_⟩
  · intro s hs
    rcases List.mem_cons.mp hs with rfl | hs
    · exact ⟨⟨['A'], ['n'], rfl, by simp, by simp⟩, rfl⟩
    · rw [List.mem_singleton.mp hs]
      exact ⟨⟨['A'], ['m', 'e', 'a', 'n'], rfl, by simp, by simp⟩, rfl⟩
  · intro s hs recs hrecs
    obtain ⟨name, -, hrecs⟩ := Option.bind_eq_some_iff.mp hrecs
    unfold gapFiles at hrecs
    split at hrecs
    · cases hrecs
      exact ⟨nofun, by decide, by decide⟩
    · cases hrecs

/-- Two blocks of one minute. -/
theorem rawMinuteTrend_blocks_gap :
    ∃ ok image, rawMinuteTrend gapFiles gapSignals 60 200 0 (fun image => image.length) =
        some (ok, image) ∧
      (RightBlocks gapFiles gapSignals 60 200 image ↔ TrendFits gapFiles gapSignals 60 200) :=
  rawMinuteTrend_blocks_iff gapFiles gapSignals gapRequest 60 200 0 _

/-- The signal `A.n`, whose file ends with the last minute of a word. -/
def lastSignals : List Signal := [⟨['A', '.', 'n'], .int32⟩]

def lastFiles : TrendFiles := fun _ => some [minuteRec 4294967280]

/-- The sum of the search wraps, and nothing is sent. -/
theorem rawMinuteTrend_wraps :
    ∃ ok image, rawMinuteTrend lastFiles lastSignals 14 4294967295 0 (fun image => image.length) =
        some (ok, image) ∧
      ¬ RightBlocks lastFiles lastSignals 14 4294967295 image := by
  refine ⟨true, [], rfl, ?_⟩
  rintro ⟨runs, hruns, hblocks⟩
  have hminute : Requested lastFiles lastSignals (window 14 4294967295) 4294967280 :=
    ⟨_, List.mem_singleton_self _, _, _, rfl, List.mem_singleton_self _, rfl, by decide⟩
  obtain ⟨r, hr, -⟩ := (hruns.covers _).mp hminute
  cases runs with
  | nil => exact absurd hr List.not_mem_nil
  | cons r runs =>
    have hfits := hblocks.1.fits
    rw [List.length_nil] at hfits
    omega

end AdvLigoRts.Nds
