import AdvLigoRts.Daqd.TrendBlock
import Mathlib.Algebra.Order.Ring.Nat
import Mathlib.Algebra.Ring.Int.Defs
import Mathlib.Data.List.Nodup
import Mathlib.Data.List.Range

/-!
# `trender_c::minute_trend`

The thread takes one block of second trend data in a turn of its loop and puts a block into `mtb`
when the minute is full. The number of blocks of `mtb` is `SECPERMIN`, which `start_trend` sees to.
The properties of a minute are kept in a variable that is declared inside the loop: it is another
variable in each turn, which begins with what its place on the stack holds. That is what the turn
before left there, unless other code has written to the place since.
-/

namespace AdvLigoRts.Daqd

/-- `SECPERMIN`, which is `tblen`. -/
def secPerMin : ℕ := 60

/-- The members of `trender_c` that `minute_trend` reads, and `sqrt`. -/
structure MinuteTrender (R : Type) where
  numChannels : ℕ
  dataType : ℕ → DaqDataT
  sqrt : R → R

/-- What a turn takes from `tb`, `none` for a block of no bytes, and what other code has written to
the place of the variable `prop` since the turn before. -/
structure MinuteTurn (R : Type) where
  gps : ℕ
  btr : Option (ℕ → TrendBlock R)
  overwritten : Option ℕ

/-- Entries of `ttb` and `npoints`. -/
structure MinutePoint (R : Type) where
  ttb : TrendBlock R
  npoints : ℕ

/-- A block that is put into `mtb`. -/
structure MinutePut (R : Type) where
  gps : ℕ
  ttb : ℕ → TrendBlock R

/-- The local variables between two turns, what the place of `prop.gps` holds, and what has been
put. -/
structure MinuteState (R : Type) where
  nc : ℕ
  prop : ℕ
  points : ℕ → MinutePoint R
  puts : List (MinutePut R)
  /-- The empty block has been put, and the thread has returned. -/
  eof : Bool

section

variable {R : Type} [Add R] [Mul R] [Div R] [Zero R] [NatCast R]

/-- What the loop over the channels does for a channel whose member is `k`. -/
def addSecond (k : TrendMember) (p : MinutePoint R) (btr : TrendBlock R) : MinutePoint R :=
  if btr.n = 0 then p
  else if p.npoints = 0 then
    { ttb := { btr with rms := btr.rms * btr.rms }
      npoints := p.npoints + 1 }
  else
    { ttb :=
        { min :=
            if TrendUnion.Lt k btr.min p.ttb.min then .assign k p.ttb.min btr.min
            else p.ttb.min
          max :=
            if TrendUnion.Lt k p.ttb.max btr.max then .assign k p.ttb.max btr.max
            else p.ttb.max
          n := p.ttb.n + btr.n
          rms := p.ttb.rms + btr.rms * btr.rms
          mean := p.ttb.mean + btr.mean }
      npoints := p.npoints + 1 }

/-- The division at the end of a minute. -/
def finishPoint (sqrt : R → R) (p : MinutePoint R) : MinutePoint R :=
  if p.npoints = 0 then p
  else
    { p with
      ttb :=
        { p.ttb with
          rms := sqrt (p.ttb.rms / (p.npoints : R))
          mean := p.ttb.mean / (p.npoints : R) } }

/-- `nc` once `prop` is set: a new minute may begin in the middle. -/
def turnNc (s : MinuteState R) (gps : ℕ) : ℕ := if s.nc = 0 then gps % secPerMin else s.nc

/-- `prop.gps`, which is set where a new minute begins, and aligned. -/
def turnGps (s : MinuteState R) (gps : ℕ) (overwritten : Option ℕ) : ℕ :=
  if s.nc = 0 then gps - gps % secPerMin else overwritten.getD s.prop

/-- The storage behind the loop over the channels; a new minute begins with an empty one. -/
def turnPoints (c : MinuteTrender R) (s : MinuteState R) (btr : ℕ → TrendBlock R) :
    ℕ → MinutePoint R :=
  let points := if s.nc = 0 then fun _ => ⟨.zero, 0⟩ else s.points
  fun j =>
    if j < c.numChannels then addSecond (.ofType (c.dataType j)) (points j) (btr j) else points j

/-- The loop over the channels at the end of a minute. -/
def finishPoints (c : MinuteTrender R) (points : ℕ → MinutePoint R) : ℕ → MinutePoint R := fun j =>
  if j < c.numChannels then finishPoint c.sqrt (points j) else points j

/-- A turn that takes data. -/
def secondTurn (c : MinuteTrender R) (s : MinuteState R) (gps : ℕ) (overwritten : Option ℕ)
    (btr : ℕ → TrendBlock R) : MinuteState R :=
  let points := turnPoints c s btr
  let prop := turnGps s gps overwritten
  if turnNc s gps + 1 = secPerMin then
    let points := finishPoints c points
    { s with
      nc := 0
      prop
      points
      puts := s.puts ++ [⟨prop, fun j => (points j).ttb⟩] }
  else { s with nc := turnNc s gps + 1, prop, points }

def minuteTurn (c : MinuteTrender R) (s : MinuteState R) (t : MinuteTurn R) : MinuteState R :=
  if s.eof then s
  else
    match t.btr with
    | none => { s with eof := true }
    | some btr => secondTurn c s t.gps t.overwritten btr

/-- The thread as it starts its loop, with whatever is on its stack. -/
def MinuteState.start (stack : ℕ) : MinuteState R := ⟨0, stack, fun _ => ⟨.zero, 0⟩, [], false⟩

/-- The loop, for the turns that it takes. -/
def minuteTrend (c : MinuteTrender R) (stack : ℕ) (turns : List (MinuteTurn R)) : MinuteState R :=
  turns.foldl (minuteTurn c) (.start stack)

end

/-- Turns for `n` seconds of data, the first of which is second `g`. -/
def secondTurns {R : Type} (g n : ℕ) (btr : ℕ → ℕ → TrendBlock R) (overwritten : ℕ → Option ℕ) :
    List (MinuteTurn R) :=
  (List.range n).map fun i => ⟨g + i, some (btr i), overwritten i⟩

/-! ## Whole minutes -/

open PvLib

section

variable {R : Type} [Add R] [Mul R] [Div R] [Zero R] [NatCast R]

/-! ## What a trend is of -/

/-- The blocks with data for channel `j` among those of some seconds. -/
def goodBlocks (btr : ℕ → ℕ → TrendBlock R) (j : ℕ) (seconds : List ℕ) : List (TrendBlock R) :=
  (seconds.map fun i => btr i j).filter fun b => b.n ≠ 0

def totalPoints (good : List (TrendBlock R)) : ℤ := (good.map fun x => x.n.toInt).sum

/-- The block is the trend of the blocks `good`. -/
structure TrendOver (k : TrendMember) (sqrt : R → R) (good : List (TrendBlock R))
    (b : TrendBlock R) : Prop where
  empty : good = [] → b = .zero
  n : b.n.toInt = totalPoints good
  min : good ≠ [] → Extremal (TrendUnion.LtBits k) (good.map fun x => x.min.bits k) (b.min.bits k)
  max : good ≠ [] →
    Extremal (fun x y => TrendUnion.LtBits k y x) (good.map fun x => x.max.bits k) (b.max.bits k)
  rms : good ≠ [] →
    b.rms = sqrt (leftSum (good.map fun x => x.rms * x.rms) / (good.length : R))
  mean : good ≠ [] → b.mean = leftSum (good.map fun x => x.mean) / (good.length : R)

/-- The seconds of a stream from second `g` that lie in the minute from `gps`. -/
def receivedIn (g n gps : ℕ) : List ℕ :=
  (List.range n).filter fun i => gps ≤ g + i ∧ g + i < gps + secPerMin

/-- Each block that was put is that of a whole minute, and they follow each other. -/
structure CoversMinutes (c : MinuteTrender R) (g n : ℕ) (btr : ℕ → ℕ → TrendBlock R)
    (puts : List (MinutePut R)) : Prop where
  aligned : ∀ p ∈ puts, p.gps % secPerMin = 0
  covers : ∀ p ∈ puts, ∀ j < c.numChannels,
    TrendOver (.ofType (c.dataType j)) c.sqrt (goodBlocks btr j (receivedIn g n p.gps)) (p.ttb j)
  spaced : puts.IsChain fun p q => q.gps = p.gps + secPerMin

/-- The variable `prop` of turn `i`, which ends a minute, begins with what turn `b`, which began
the minute, left in its own. -/
def PropKept (c : MinuteTrender R) (stack g n : ℕ) (btr : ℕ → ℕ → TrendBlock R)
    (overwritten : ℕ → Option ℕ) : Prop :=
  ∀ i < n, (g + i + 1) % secPerMin = 0 →
    ∀ b < i, b = 0 ∨ (g + b) % secPerMin = 0 → (g + b) / secPerMin = (g + i) / secPerMin →
      (overwritten i).getD (minuteTrend c stack (secondTurns g i btr overwritten)).prop =
        (minuteTrend c stack (secondTurns g (b + 1) btr overwritten)).prop

/-- The number is one of an `int`. -/
def IsInt (x : ℤ) : Prop := -2 ^ 31 ≤ x ∧ x < 2 ^ 31

/-- For each minute that is over and each channel, the number of points is an `int`. -/
def CountsFit (c : MinuteTrender R) (g n : ℕ) (btr : ℕ → ℕ → TrendBlock R) : Prop :=
  ∀ i < n, (g + i + 1) % secPerMin = 0 → ∀ j < c.numChannels,
    IsInt (totalPoints (goodBlocks btr j (receivedIn g n (g + i - (g + i) % secPerMin))))

/-! ## One channel -/

/-- What the storage of a channel holds of the blocks `good`. -/
structure Gathered (k : TrendMember) (good : List (TrendBlock R)) (p : MinutePoint R) : Prop where
  npoints : p.npoints = good.length
  empty : good = [] → p.ttb = .zero
  n : p.ttb.n = leftSum (good.map fun x => x.n)
  min : good ≠ [] →
    Extremal (TrendUnion.LtBits k) (good.map fun x => x.min.bits k) (p.ttb.min.bits k)
  max : good ≠ [] →
    Extremal (fun x y => TrendUnion.LtBits k y x) (good.map fun x => x.max.bits k)
      (p.ttb.max.bits k)
  rms : p.ttb.rms = leftSum (good.map fun x => x.rms * x.rms)
  mean : p.ttb.mean = leftSum (good.map fun x => x.mean)

/-- The extremum after one more value, which is taken if it is better. -/
theorem extremal_assign {lt : ℕ → ℕ → Prop} (hlt : StrictLess lt) {k : TrendMember} {l : List ℕ}
    {m next : TrendUnion} (h : Extremal lt l (m.bits k)) {better : Prop} [Decidable better]
    (hbetter : better ↔ lt (next.bits k) (m.bits k)) :
    Extremal lt (l ++ [next.bits k])
      (TrendUnion.bits (if better then .assign k m next else m) k) := by
  by_cases hb : better
  · rw [if_pos hb, TrendUnion.bits_assign]
    exact h.snoc_of_lt hlt (hbetter.mp hb)
  · rw [if_neg hb]
    exact h.snoc_of_not_lt fun hless => hb (hbetter.mpr hless)

omit [Div R] [NatCast R] in
theorem gathered_nil (k : TrendMember) : Gathered k [] (⟨.zero, 0⟩ : MinutePoint R) :=
  ⟨rfl, fun _ => rfl, rfl, fun h => absurd rfl h, fun h => absurd rfl h, rfl, rfl⟩

omit [Div R] [NatCast R] in
theorem Gathered.first {k : TrendMember} {p : MinutePoint R} (h : Gathered k [] p)
    {btr : TrendBlock R} (hn : btr.n ≠ 0) : Gathered k [btr] (addSecond k p btr) := by
  have hp : p.npoints = 0 := h.npoints
  have hadd : addSecond k p btr =
      { ttb := { btr with rms := btr.rms * btr.rms }, npoints := p.npoints + 1 } := by
    unfold addSecond
    rw [if_neg hn, if_pos hp]
  rw [hadd]
  exact
    { npoints := by rw [hp]; rfl
      empty := fun hnil => absurd hnil (List.cons_ne_nil btr [])
      n := rfl
      min := fun _ => extremal_singleton (TrendUnion.strictLess_ltBits k) _
      max := fun _ => extremal_singleton (TrendUnion.strictLess_ltBits k).flip _
      rms := rfl
      mean := rfl }

omit [Div R] [NatCast R] in
theorem Gathered.later {k : TrendMember} {good : List (TrendBlock R)} {p : MinutePoint R}
    (h : Gathered k good p) (hgood : good ≠ []) {btr : TrendBlock R} (hn : btr.n ≠ 0) :
    Gathered k (good ++ [btr]) (addSecond k p btr) := by
  have hp : p.npoints ≠ 0 := by
    rw [h.npoints]
    exact fun hlen => hgood (List.length_eq_zero_iff.mp hlen)
  have hmap : ∀ {α : Type} (f : TrendBlock R → α),
      (good ++ [btr]).map f = good.map f ++ [f btr] := fun f => by
    rw [List.map_append, List.map_singleton]
  have hne : ∀ {α : Type} (f : TrendBlock R → α), good.map f ≠ [] :=
    fun f hnil => hgood (List.map_eq_nil_iff.mp hnil)
  unfold addSecond
  rw [if_neg hn, if_neg hp]
  exact
    { npoints := by
        show p.npoints + 1 = _
        rw [h.npoints, List.length_append, List.length_singleton]
      empty := fun hnil => absurd hnil (by simp)
      n := by
        rw [hmap, leftSum_snoc (hne _), ← h.n]
      min := fun _ => by
        rw [hmap]
        exact extremal_assign (TrendUnion.strictLess_ltBits k) (h.min hgood) Iff.rfl
      max := fun _ => by
        rw [hmap]
        exact extremal_assign (TrendUnion.strictLess_ltBits k).flip (h.max hgood) Iff.rfl
      rms := by
        rw [hmap, leftSum_snoc (hne _), ← h.rms]
      mean := by
        rw [hmap, leftSum_snoc (hne _), ← h.mean] }

omit [Div R] [NatCast R] in
theorem gathered_foldl (k : TrendMember) (bs : List (TrendBlock R)) :
    Gathered k (bs.filter fun b => b.n ≠ 0) (bs.foldl (addSecond k) ⟨.zero, 0⟩) := by
  induction bs using List.reverseRecOn with
  | nil => exact gathered_nil k
  | append_singleton bs b ih =>
    rw [List.foldl_append, List.filter_append]
    show Gathered k _ (addSecond k (bs.foldl (addSecond k) ⟨.zero, 0⟩) b)
    by_cases hn : b.n = 0
    · have hskip : [b].filter (fun b => b.n ≠ 0) = [] := by simp [hn]
      have hsame : addSecond k (bs.foldl (addSecond k) ⟨.zero, 0⟩) b =
          bs.foldl (addSecond k) ⟨.zero, 0⟩ := if_pos hn
      rw [hskip, hsame, List.append_nil]
      exact ih
    · have hkeep : [b].filter (fun b => b.n ≠ 0) = [b] := by simp [hn]
      rw [hkeep]
      by_cases hgood : bs.filter (fun b => b.n ≠ 0) = []
      · rw [hgood] at ih ⊢
        exact ih.first hn
      · exact ih.later hgood hn

/-- A sum of numbers of 32 bits is right up to multiples of `2^32`. -/
theorem toInt_leftSum (l : List Int32) :
    (leftSum l).toInt = (l.map Int32.toInt).sum.bmod (2 ^ 32) := by
  induction l using List.reverseRecOn with
  | nil => rfl
  | append_singleton l x ih =>
    rw [List.map_append, List.sum_append, List.map_singleton, List.sum_singleton]
    by_cases hl : l = []
    · subst hl
      show x.toInt = (0 + x.toInt).bmod (2 ^ 32)
      rw [zero_add]
      exact (Int32.toInt_bmod_size x).symm
    · rw [leftSum_snoc hl, Int32.toInt_add, ih, Int.bmod_add_bmod]

theorem Gathered.trendOver {k : TrendMember} {good : List (TrendBlock R)} {p : MinutePoint R}
    (h : Gathered k good p) (sqrt : R → R)
    (hfit : IsInt (totalPoints good)) :
    TrendOver k sqrt good (finishPoint sqrt p).ttb := by
  have hn : p.ttb.n.toInt = totalPoints good := by
    rw [h.n, toInt_leftSum, List.map_map]
    exact Int.bmod_eq_of_le hfit.1 hfit.2
  by_cases hgood : good = []
  · have hp : p.npoints = 0 := by rw [h.npoints, hgood]; rfl
    unfold finishPoint
    rw [if_pos hp]
    exact ⟨h.empty, hn, h.min, h.max, fun hne => absurd hgood hne, fun hne => absurd hgood hne⟩
  · have hp : p.npoints ≠ 0 := by
      rw [h.npoints]
      exact fun hlen => hgood (List.length_eq_zero_iff.mp hlen)
    unfold finishPoint
    rw [if_neg hp]
    exact
      { empty := fun hnil => absurd hnil hgood
        n := hn
        min := h.min
        max := h.max
        rms := fun _ => by
          rw [← h.rms, ← h.npoints]
        mean := fun _ => by
          rw [← h.mean, ← h.npoints] }

/-! ## A stream of seconds -/

/-- The seconds of the stream that lie in the minute of second `i`, up to it. -/
def minuteSeconds (g i : ℕ) : List ℕ :=
  (List.range (i + 1)).filter fun s => (g + s) / secPerMin = (g + i) / secPerMin

theorem minuteSeconds_zero (g : ℕ) : minuteSeconds g 0 = [0] := by
  unfold minuteSeconds
  simp

theorem minuteSeconds_succ_of_mod {g i : ℕ} (h : (g + (i + 1)) % secPerMin = 0) :
    minuteSeconds g (i + 1) = [i + 1] := by
  unfold minuteSeconds
  have hold : (List.range (i + 1)).filter
      (fun s => (g + s) / secPerMin = (g + (i + 1)) / secPerMin) = [] := by
    rw [List.filter_eq_nil_iff]
    intro s hs
    have hs' : s < i + 1 := List.mem_range.mp hs
    rw [decide_eq_true_eq]
    simp only [secPerMin] at h ⊢
    omega
  rw [List.range_succ, List.filter_append, hold]
  simp

theorem minuteSeconds_succ {g i : ℕ} (h : (g + (i + 1)) % secPerMin ≠ 0) :
    minuteSeconds g (i + 1) = minuteSeconds g i ++ [i + 1] := by
  unfold minuteSeconds
  have hsame : (g + (i + 1)) / secPerMin = (g + i) / secPerMin := by
    simp only [secPerMin] at h ⊢
    omega
  rw [List.range_succ, List.filter_append, hsame]
  simp [hsame]

theorem receivedIn_eq {g n i : ℕ} (hi : i < n) (hend : (g + i + 1) % secPerMin = 0) :
    receivedIn g n (g + i - (g + i) % secPerMin) = minuteSeconds g i := by
  obtain ⟨m, rfl⟩ : ∃ m, n = i + 1 + m := ⟨n - (i + 1), by omega⟩
  unfold receivedIn minuteSeconds
  have hlater : ((List.range m).map fun k => i + 1 + k).filter (fun s =>
      decide (g + i - (g + i) % secPerMin ≤ g + s ∧
        g + s < g + i - (g + i) % secPerMin + secPerMin)) = [] := by
    rw [List.filter_eq_nil_iff]
    intro s hs
    obtain ⟨k, -, rfl⟩ := List.mem_map.mp hs
    rw [decide_eq_true_eq]
    simp only [secPerMin] at hend ⊢
    omega
  rw [List.range_add, List.filter_append, hlater, List.append_nil]
  apply List.filter_congr
  intro s hs
  have hs' : s < i + 1 := List.mem_range.mp hs
  rw [decide_eq_decide]
  simp only [secPerMin] at hend ⊢
  omega

variable (c : MinuteTrender R) (stack g : ℕ) (btr : ℕ → ℕ → TrendBlock R)
variable (overwritten : ℕ → Option ℕ)

/-- What the place of `prop.gps` holds after `n` seconds. -/
def propAfter : ℕ → ℕ
  | 0 => stack
  | n + 1 =>
    if n = 0 ∨ (g + n) % secPerMin = 0 then g + n - (g + n) % secPerMin
    else (overwritten n).getD (propAfter n)

/-- The storage behind the turn for second `i`. -/
def pointsAfter (i : ℕ) : ℕ → MinutePoint R := fun j =>
  if j < c.numChannels then
    ((minuteSeconds g i).map fun s => btr s j).foldl (addSecond (.ofType (c.dataType j)))
      ⟨.zero, 0⟩
  else ⟨.zero, 0⟩

/-- The block that is put for the minute that second `i` ends. -/
def minutePut (i : ℕ) : MinutePut R where
  gps := propAfter stack g overwritten (i + 1)
  ttb := fun j => (finishPoints c (pointsAfter c g btr i) j).ttb

/-- The blocks that are put for the first `n` seconds. -/
def minutePuts (n : ℕ) : List (MinutePut R) :=
  ((List.range n).filter fun i => (g + i + 1) % secPerMin = 0).map
    (minutePut c stack g btr overwritten)

/-- The state after `n` seconds. -/
structure MinuteAfter (n : ℕ) (s : MinuteState R) : Prop where
  running : s.eof = false
  nc : s.nc = if n = 0 then 0 else (g + n) % secPerMin
  prop : s.prop = propAfter stack g overwritten n
  points : s.nc ≠ 0 → s.points = pointsAfter c g btr (n - 1)
  puts : s.puts = minutePuts c stack g btr overwritten n

theorem minutePuts_succ (n : ℕ) : minutePuts c stack g btr overwritten (n + 1) =
    minutePuts c stack g btr overwritten n ++
      if (g + n + 1) % secPerMin = 0 then [minutePut c stack g btr overwritten n] else [] := by
  unfold minutePuts
  rw [List.range_succ, List.filter_append, List.map_append]
  by_cases hend : (g + n + 1) % secPerMin = 0
  · rw [if_pos hend]
    simp [hend]
  · rw [if_neg hend]
    simp [hend]

section

variable {c stack g btr overwritten} {n : ℕ} {s : MinuteState R}
  (h : MinuteAfter c stack g btr overwritten n s)

include h

theorem MinuteAfter.nc_eq_zero : s.nc = 0 ↔ n = 0 ∨ (g + n) % secPerMin = 0 := by
  rw [h.nc]
  by_cases hn : n = 0
  · rw [if_pos hn]
    exact ⟨fun _ => Or.inl hn, fun _ => rfl⟩
  · rw [if_neg hn]
    exact ⟨Or.inr, fun hor => hor.resolve_left hn⟩

theorem MinuteAfter.turnNc_eq : turnNc s (g + n) = (g + n) % secPerMin := by
  unfold turnNc
  by_cases h0 : s.nc = 0
  · exact if_pos h0
  · have hn : n ≠ 0 := fun hn => h0 (h.nc_eq_zero.mpr (Or.inl hn))
    rw [if_neg h0, h.nc, if_neg hn]

theorem MinuteAfter.turnGps_eq :
    turnGps s (g + n) (overwritten n) = propAfter stack g overwritten (n + 1) := by
  unfold turnGps propAfter
  rw [h.prop]
  exact if_congr h.nc_eq_zero rfl rfl

/-- Adding second `n` to what there is. -/
theorem MinuteAfter.turnPoints_eq : turnPoints c s (btr n) = pointsAfter c g btr n := by
  ext1 j
  unfold turnPoints pointsAfter
  by_cases hj : j < c.numChannels
  · rw [if_pos hj, if_pos hj]
    by_cases h0 : s.nc = 0
    · have hseconds : minuteSeconds g n = [n] := by
        cases n with
        | zero => exact minuteSeconds_zero g
        | succ m =>
          exact minuteSeconds_succ_of_mod ((h.nc_eq_zero.mp h0).resolve_left (Nat.succ_ne_zero m))
      rw [if_pos h0, hseconds]
      rfl
    · have hnew := h.nc_eq_zero.not.mp h0
      obtain ⟨m, rfl⟩ := Nat.exists_eq_succ_of_ne_zero fun hn => hnew (Or.inl hn)
      have hmod : (g + (m + 1)) % secPerMin ≠ 0 := fun hz => hnew (Or.inr hz)
      have hold : s.points j = pointsAfter c g btr m j := congrFun (h.points h0) j
      rw [if_neg h0, hold, Nat.succ_eq_add_one, minuteSeconds_succ hmod, List.map_append,
        List.foldl_append]
      unfold pointsAfter
      rw [if_pos hj]
      rfl
  · rw [if_neg hj, if_neg hj]
    by_cases h0 : s.nc = 0
    · rw [if_pos h0]
    · rw [if_neg h0, h.points h0]
      exact if_neg hj

theorem MinuteAfter.step :
    MinuteAfter c stack g btr overwritten (n + 1)
      (secondTurn c s (g + n) (overwritten n) (btr n)) := by
  have hends : (g + n) % secPerMin + 1 = secPerMin ↔ (g + n + 1) % secPerMin = 0 := by
    simp only [secPerMin]
    omega
  unfold secondTurn
  rw [h.turnNc_eq, h.turnPoints_eq, h.turnGps_eq]
  by_cases hend : (g + n) % secPerMin + 1 = secPerMin
  · rw [if_pos hend]
    exact
      { running := h.running
        nc := by
          rw [if_neg (Nat.succ_ne_zero n)]
          exact (hends.mp hend).symm
        prop := rfl
        points := fun hne => absurd rfl hne
        puts := by
          rw [minutePuts_succ, if_pos (hends.mp hend), ← h.puts]
          rfl }
  · rw [if_neg hend]
    exact
      { running := h.running
        nc := by
          rw [if_neg (Nat.succ_ne_zero n)]
          show (g + n) % secPerMin + 1 = (g + n + 1) % secPerMin
          have hpos := hends.not.mp hend
          simp only [secPerMin] at hend hpos ⊢
          omega
        prop := rfl
        points := fun _ => rfl
        puts := by
          rw [minutePuts_succ, if_neg (hends.not.mp hend), List.append_nil]
          exact h.puts }

end

theorem minuteTrend_after (n : ℕ) :
    MinuteAfter c stack g btr overwritten n
      (minuteTrend c stack (secondTurns g n btr overwritten)) := by
  induction n with
  | zero => exact ⟨rfl, rfl, rfl, fun h => absurd rfl h, rfl⟩
  | succ n ih =>
    have hrun : minuteTrend c stack (secondTurns g (n + 1) btr overwritten) =
        minuteTurn c (minuteTrend c stack (secondTurns g n btr overwritten))
          ⟨g + n, some (btr n), overwritten n⟩ := by
      unfold minuteTrend secondTurns
      rw [List.range_succ, List.map_append, List.foldl_append]
      rfl
    have hturn : minuteTurn c (minuteTrend c stack (secondTurns g n btr overwritten))
          ⟨g + n, some (btr n), overwritten n⟩ =
        secondTurn c (minuteTrend c stack (secondTurns g n btr overwritten)) (g + n)
          (overwritten n) (btr n) := by
      unfold minuteTurn
      rw [ih.running]
      rfl
    rw [hrun, hturn]
    exact ih.step

/-! ## Whole minutes -/

theorem mem_minutePuts {n : ℕ} {p : MinutePut R} :
    p ∈ minutePuts c stack g btr overwritten n ↔
      ∃ i < n, (g + i + 1) % secPerMin = 0 ∧ minutePut c stack g btr overwritten i = p := by
  unfold minutePuts
  simp [and_assoc]

variable {c stack g btr overwritten}

/-- The place of `prop.gps` holds the right number behind each turn that ends a minute. -/
def PropAligned (stack g n : ℕ) (overwritten : ℕ → Option ℕ) : Prop :=
  ∀ i < n, (g + i + 1) % secPerMin = 0 →
    propAfter stack g overwritten (i + 1) = g + i - (g + i) % secPerMin

/-- A variable that is kept holds what the first turn of the minute has set and aligned. -/
theorem propKept_iff_aligned {n : ℕ} :
    PropKept c stack g n btr overwritten ↔ PropAligned stack g n overwritten := by
  have hstate : ∀ m, (minuteTrend c stack (secondTurns g m btr overwritten)).prop =
      propAfter stack g overwritten m := fun m =>
        (minuteTrend_after c stack g btr overwritten m).prop
  have hfirst : ∀ b, b = 0 ∨ (g + b) % secPerMin = 0 →
      propAfter stack g overwritten (b + 1) = g + b - (g + b) % secPerMin := fun b hb => if_pos hb
  have hlater : ∀ i, ¬ (i = 0 ∨ (g + i) % secPerMin = 0) →
      propAfter stack g overwritten (i + 1) =
        (overwritten i).getD (propAfter stack g overwritten i) := fun i hi => if_neg hi
  unfold PropKept
  simp only [hstate]
  constructor
  · intro hkept i hi hend
    by_cases hnew : i = 0 ∨ (g + i) % secPerMin = 0
    · exact hfirst i hnew
    · -- the minute was begun by turn 0 or 59 turns before
      obtain ⟨b, hb, hbegins, hminute⟩ : ∃ b < i, (b = 0 ∨ (g + b) % secPerMin = 0) ∧
          (g + b) / secPerMin = (g + i) / secPerMin := by
        refine ⟨i - 59, ?_⟩
        simp only [secPerMin] at hnew hend ⊢
        omega
      rw [hlater i hnew, hkept i hi hend b hb hbegins hminute, hfirst b hbegins]
      simp only [secPerMin] at hminute ⊢
      omega
  · intro haligned i hi hend b hb hbegins hminute
    have hnew : ¬ (i = 0 ∨ (g + i) % secPerMin = 0) := by
      simp only [secPerMin] at hend ⊢
      omega
    rw [← hlater i hnew, haligned i hi hend, hfirst b hbegins]
    simp only [secPerMin] at hminute ⊢
    omega

/-- Where nothing else writes to its place in the course of a minute, it holds the beginning of the
minute behind every turn. -/
theorem propAfter_of_not_overwritten {n : ℕ}
    (hfree : ∀ i < n, 0 < i → (g + i) % secPerMin ≠ 0 → overwritten i = none) {i : ℕ} (hi : i < n) :
    propAfter stack g overwritten (i + 1) = g + i - (g + i) % secPerMin := by
  induction i with
  | zero => exact if_pos (Or.inl rfl)
  | succ i ih =>
    by_cases hnew : (g + (i + 1)) % secPerMin = 0
    · exact if_pos (Or.inr hnew)
    · have hlater : propAfter stack g overwritten (i + 1 + 1) =
          (overwritten (i + 1)).getD (propAfter stack g overwritten (i + 1)) :=
        if_neg (by omega)
      rw [hlater, hfree (i + 1) hi (Nat.succ_pos i) hnew, Option.getD_none, ih (by omega)]
      simp only [secPerMin] at hnew ⊢
      omega

theorem minutePut_trendOver {n i : ℕ} (hfit : CountsFit c g n btr) (hi : i < n)
    (hend : (g + i + 1) % secPerMin = 0) {j : ℕ} (hj : j < c.numChannels) :
    TrendOver (.ofType (c.dataType j)) c.sqrt
      (goodBlocks btr j (receivedIn g n (g + i - (g + i) % secPerMin)))
      ((minutePut c stack g btr overwritten i).ttb j) := by
  have hput : (minutePut c stack g btr overwritten i).ttb j =
      (finishPoint c.sqrt (((minuteSeconds g i).map fun s => btr s j).foldl
        (addSecond (.ofType (c.dataType j))) ⟨.zero, 0⟩)).ttb := by
    show (finishPoints c (pointsAfter c g btr i) j).ttb = _
    unfold finishPoints pointsAfter
    rw [if_pos hj, if_pos hj]
  have htotal := hfit i hi hend j hj
  rw [hput]
  rw [receivedIn_eq hi hend] at htotal ⊢
  exact (gathered_foldl _ _).trendOver c.sqrt htotal

theorem minutePuts_spaced (n : ℕ) (hkept : PropAligned stack g n overwritten) :
    (minutePuts c stack g btr overwritten n).IsChain (fun p q => q.gps = p.gps + secPerMin) ∧
      ∀ p ∈ (minutePuts c stack g btr overwritten n).getLast?,
        p.gps + secPerMin = g + n - (g + n) % secPerMin := by
  induction n with
  | zero => exact ⟨List.isChain_nil, fun p hp => absurd hp (Option.not_mem_none p)⟩
  | succ n ih =>
    obtain ⟨hchain, hlast⟩ := ih fun i hi => hkept i (Nat.lt_succ_of_lt hi)
    rw [minutePuts_succ]
    by_cases hend : (g + n + 1) % secPerMin = 0
    · have hgps : (minutePut c stack g btr overwritten n).gps = _ :=
        hkept n (Nat.lt_succ_self n) hend
      rw [if_pos hend]
      constructor
      · rw [List.isChain_append]
        refine ⟨hchain, List.isChain_singleton _, fun p hp q hq => ?_⟩
        rw [List.head?_singleton, Option.mem_some_iff] at hq
        rw [← hq, hgps, hlast p hp]
      · intro p hp
        rw [List.getLast?_append, List.getLast?_singleton, Option.some_or,
          Option.mem_some_iff] at hp
        rw [← hp, hgps]
        simp only [secPerMin] at hend ⊢
        omega
    · rw [if_neg hend, List.append_nil]
      refine ⟨hchain, fun p hp => ?_⟩
      rw [hlast p hp]
      simp only [secPerMin] at hend ⊢
      omega

theorem coversMinutes_of_aligned {n : ℕ} (hkept : PropAligned stack g n overwritten)
    (hfit : CountsFit c g n btr) :
    CoversMinutes c g n btr (minuteTrend c stack (secondTurns g n btr overwritten)).puts := by
  rw [(minuteTrend_after c stack g btr overwritten n).puts]
  have hgps : ∀ i < n, (g + i + 1) % secPerMin = 0 →
      (minutePut c stack g btr overwritten i).gps = g + i - (g + i) % secPerMin :=
    hkept
  exact
    { aligned := by
        intro p hp
        obtain ⟨i, hi, hend, rfl⟩ := (mem_minutePuts c stack g btr overwritten).mp hp
        rw [hgps i hi hend]
        exact Nat.mod_eq_zero_of_dvd (Nat.dvd_sub_mod _)
      covers := by
        intro p hp j hj
        obtain ⟨i, hi, hend, rfl⟩ := (mem_minutePuts c stack g btr overwritten).mp hp
        rw [hgps i hi hend]
        exact minutePut_trendOver hfit hi hend hj
      spaced := (minutePuts_spaced n hkept).1 }

/-! ## Where `prop` is not kept -/

def onePoint : TrendBlock R := { (TrendBlock.zero : TrendBlock R) with n := 1 }

/-- The blocks have data in second `i` only. -/
def onlySecond (i : ℕ) : ℕ → ℕ → TrendBlock R := fun s _ => if s = i then onePoint else .zero

omit [Add R] [Mul R] [Div R] [NatCast R] in
theorem goodBlocks_onlySecond (i j : ℕ) (seconds : List ℕ) :
    goodBlocks (onlySecond i : ℕ → ℕ → TrendBlock R) j seconds =
      List.replicate (seconds.count i) onePoint := by
  induction seconds with
  | nil => rfl
  | cons s seconds ih =>
    have hcons : goodBlocks (onlySecond i : ℕ → ℕ → TrendBlock R) j (s :: seconds) =
        if s = i then onePoint :: goodBlocks (onlySecond i) j seconds
        else goodBlocks (onlySecond i) j seconds := by
      show List.filter _ ((if s = i then onePoint else TrendBlock.zero) :: _) = _
      by_cases hs : s = i
      · rw [if_pos hs, if_pos hs]
        exact List.filter_cons_of_pos rfl
      · rw [if_neg hs, if_neg hs]
        exact List.filter_cons_of_neg Bool.false_ne_true
    rw [hcons, ih, List.count_cons]
    by_cases hs : s = i
    · rw [if_pos hs, if_pos (beq_iff_eq.mpr hs)]
      rfl
    · rw [if_neg hs, if_neg fun h => hs (beq_iff_eq.mp h)]
      rfl

omit [Add R] [Mul R] [Div R] [NatCast R] in
theorem totalPoints_onlySecond (i j : ℕ) (seconds : List ℕ) :
    totalPoints (goodBlocks (onlySecond i : ℕ → ℕ → TrendBlock R) j seconds) =
      seconds.count i := by
  rw [goodBlocks_onlySecond]
  unfold totalPoints
  rw [List.map_replicate, List.sum_replicate]
  show seconds.count i • (1 : ℤ) = _
  rw [nsmul_eq_mul, mul_one]

omit [Add R] [Mul R] [Div R] [NatCast R] in
theorem countsFit_onlySecond (c : MinuteTrender R) (g n i : ℕ) :
    CountsFit c g n (onlySecond i) := by
  intro k _ _ j _
  rw [totalPoints_onlySecond]
  unfold IsInt
  have hnodup : (receivedIn g n (g + k - (g + k) % secPerMin)).Nodup :=
    List.nodup_range.filter _
  have hcount := List.nodup_iff_count_le_one.mp hnodup i
  omega

/-- If every data gives whole minutes, `prop` is right where it is put. -/
theorem aligned_of_coversMinutes {n : ℕ} (hchannels : 0 < c.numChannels)
    (hcovers : ∀ btr : ℕ → ℕ → TrendBlock R, CountsFit c g n btr →
      CoversMinutes c g n btr (minuteTrend c stack (secondTurns g n btr overwritten)).puts) :
    PropAligned stack g n overwritten := by
  intro i hi hend
  have hall := hcovers (onlySecond i) (countsFit_onlySecond c g n i)
  rw [(minuteTrend_after c stack g (onlySecond i) overwritten n).puts] at hall
  have hmem : minutePut c stack g (onlySecond i) overwritten i ∈
      minutePuts c stack g (onlySecond i) overwritten n :=
    (mem_minutePuts c stack g _ overwritten).mpr ⟨i, hi, hend, rfl⟩
  have hgps : (minutePut c stack g (onlySecond i) overwritten i).gps =
    propAfter stack g overwritten (i + 1) := rfl
  have haligned := hall.aligned _ hmem
  have htrend := (hall.covers _ hmem 0 hchannels).n
  -- the block that is put has one point, which is that of second `i`
  have hown : ((minutePut c stack g (onlySecond i) overwritten i).ttb 0).n.toInt = _ :=
    (minutePut_trendOver (countsFit_onlySecond c g n i) hi hend hchannels).n
  rw [totalPoints_onlySecond] at htrend hown
  have hin : i ∈ receivedIn g n (g + i - (g + i) % secPerMin) := by
    unfold receivedIn
    rw [List.mem_filter, List.mem_range, decide_eq_true_eq]
    simp only [secPerMin] at hend ⊢
    omega
  have hpos := List.count_pos_iff.mpr hin
  rw [hgps] at haligned htrend
  have hin' : i ∈ receivedIn g n (propAfter stack g overwritten (i + 1)) := by
    apply List.count_pos_iff.mp
    rw [hown] at htrend
    omega
  unfold receivedIn at hin'
  rw [List.mem_filter, List.mem_range, decide_eq_true_eq] at hin'
  simp only [secPerMin] at hend haligned hin' ⊢
  omega

/-- Where `prop` is kept from the turn that begins a minute to the one that ends it, the blocks that
are put are those of whole minutes; and only there, whatever the data. It is kept if nothing else
writes to its place in the course of a minute. -/
theorem minute_trend_covers_minutes (c : MinuteTrender R) (stack g n : ℕ)
    (overwritten : ℕ → Option ℕ) :
    (∀ btr, CountsFit c g n btr → PropKept c stack g n btr overwritten →
      CoversMinutes c g n btr (minuteTrend c stack (secondTurns g n btr overwritten)).puts) ∧
    (0 < c.numChannels →
      (∀ btr, CountsFit c g n btr →
        CoversMinutes c g n btr (minuteTrend c stack (secondTurns g n btr overwritten)).puts) →
      ∀ btr, PropKept c stack g n btr overwritten) ∧
    ((∀ i < n, 0 < i → (g + i) % secPerMin ≠ 0 → overwritten i = none) →
      ∀ btr, PropKept c stack g n btr overwritten) :=
  ⟨fun _ hfit hkept => coversMinutes_of_aligned (propKept_iff_aligned.mp hkept) hfit,
    fun hchannels hcovers _ =>
      propKept_iff_aligned.mpr (aligned_of_coversMinutes hchannels hcovers),
    fun hfree _ => propKept_iff_aligned.mpr fun _ hi _ => propAfter_of_not_overwritten hfree hi⟩

end

def oneChannel : MinuteTrender ℤ := ⟨1, fun _ => .int32, id⟩

/-- From the middle of a minute on, where other code writes to the place of `prop` between
minutes only. -/
theorem minute_trend_covers_two_minutes :
    CoversMinutes oneChannel 90 100 (onlySecond 70)
        (minuteTrend oneChannel 1 (secondTurns 90 100 (onlySecond 70) fun i =>
          if (90 + i) % 60 = 0 then some 1 else none)).puts ∧
      PropKept oneChannel 1 90 100 (onlySecond 3) fun i =>
        if (90 + i) % 60 = 0 then some 1 else none := by
  obtain ⟨hcovers, hkept, hfree⟩ := minute_trend_covers_minutes oneChannel 1 90 100 fun i =>
    if (90 + i) % 60 = 0 then some 1 else none
  have hall := hfree fun i _ _ hmid => if_neg hmid
  exact ⟨hcovers _ (countsFit_onlySecond _ _ _ _) (hall _),
    hkept Nat.one_pos (fun btr hfit => hcovers btr hfit (hall btr)) _⟩

/-- A whole minute, before the end of which other code writes to the place of `prop`. -/
theorem minute_trend_prop_lost :
    ¬ CoversMinutes oneChannel 1200000000 60 (onlySecond 0)
      (minuteTrend oneChannel 0
        (secondTurns 1200000000 60 (onlySecond 0) fun _ => some 1)).puts := by
  intro h
  have hgps : (minuteTrend oneChannel 0 (secondTurns 1200000000 60 (onlySecond 0)
      fun _ => some 1)).puts.map MinutePut.gps = [1] := by
    decide +kernel
  obtain ⟨p, hp, hone⟩ := List.mem_map.mp (hgps ▸ List.mem_singleton_self 1)
  have haligned := h.aligned p hp
  rw [hone] at haligned
  exact absurd haligned (by decide)

end AdvLigoRts.Daqd
