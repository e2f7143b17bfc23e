import AdvLigoRts.Gds.TconvTheorems
import Mathlib.Order.Monotone.Basic

/-!
# UTC a second at a time

`Utc.next` is the second after a second of the Gregorian calendar, and an inserted second is second
60 of the last minute of its day.
-/

namespace AdvLigoRts.Gds

/-! ## The calendar -/

def Utc.nextDay (utc : Utc) : Utc :=
  let lastOfMonth := utc.mday = daysInMonth (utc.year + 1900) utc.mon
  { sec := 0
    min := 0
    hour := 0
    mday := if lastOfMonth then 1 else utc.mday + 1
    mon := if lastOfMonth then if utc.mon = 11 then 0 else utc.mon + 1 else utc.mon
    year := if lastOfMonth ∧ utc.mon = 11 then utc.year + 1 else utc.year
    wday := (utc.wday + 1) % 7
    yday := if lastOfMonth ∧ utc.mon = 11 then 0 else utc.yday + 1 }

/-- The next second of the calendar. -/
def Utc.next (utc : Utc) : Utc :=
  if utc.sec < 59 then { utc with sec := utc.sec + 1 }
  else if utc.min < 59 then { utc with sec := 0, min := utc.min + 1 }
  else if utc.hour < 23 then { utc with sec := 0, min := 0, hour := utc.hour + 1 }
  else utc.nextDay

def Utc.LastMinute (utc : Utc) : Prop := utc.hour = 23 ∧ utc.min = 59

/-- An entry of the table has this TAI second for its transition. -/
def IsTransition (leaps : List Leap) (tai : ℤ) : Prop := ∃ leap ∈ leaps, leap.transition = tai

/-! ## Years and months -/

/-- A year begins where the one before it ends. -/
theorem dayNumber_succ {y : ℤ} (hy : 1 ≤ y) : dayNumber (y + 1) 0 = dayNumber y (yearLength y) := by
  have hleaps := leapsThruEndOf_succ hy
  unfold dayNumber
  rw [show y + 1 - 1 = y by omega]
  omega

theorem dayNumber_year_le {y : ℤ} (hy : 1 ≤ y) (n : ℕ) :
    dayNumber y (yearLength y) ≤ dayNumber (y + 1 + n) 0 := by
  induction n with
  | zero =>
    rw [← dayNumber_succ hy]
    simp
  | succ n ih =>
    have hstep := dayNumber_succ (y := y + 1 + n) (by omega)
    have hlen := yearLength_bounds (y + 1 + n)
    have hadd : ∀ d, dayNumber (y + 1 + n) d = dayNumber (y + 1 + n) 0 + d := by
      intro d
      unfold dayNumber
      omega
    rw [hadd] at hstep
    rw [show y + 1 + ((n + 1 : ℕ) : ℤ) = y + 1 + n + 1 by push_cast; omega]
    omega

theorem dayNumber_lt {y y' d d' : ℤ} (hy : 1 ≤ y) (hlt : y < y') (hd : d < yearLength y)
    (hd' : 0 ≤ d') : dayNumber y d < dayNumber y' d' := by
  obtain ⟨n, rfl⟩ : ∃ n : ℕ, y' = y + 1 + n := ⟨(y' - y - 1).toNat, by omega⟩
  have hle := dayNumber_year_le hy n
  calc dayNumber y d < dayNumber y (yearLength y) := by unfold dayNumber; omega
    _ ≤ dayNumber (y + 1 + n) 0 := hle
    _ ≤ dayNumber (y + 1 + n) d' := by unfold dayNumber; omega

theorem dayNumber_inj {y y' d d' : ℤ} (hy : 1 ≤ y) (hy' : 1 ≤ y') (hd : 0 ≤ d ∧ d < yearLength y)
    (hd' : 0 ≤ d' ∧ d' < yearLength y') (h : dayNumber y d = dayNumber y' d') :
    y' = y ∧ d' = d := by
  have hyear : y' = y := by
    rcases lt_trichotomy y y' with hlt | heq | hgt
    · exact absurd h (dayNumber_lt hy hlt hd.2 hd'.1).ne
    · exact heq.symm
    · exact absurd h.symm (dayNumber_lt hy' hgt hd'.2 hd.1).ne
  subst hyear
  unfold dayNumber at h
  exact ⟨rfl, by omega⟩

theorem monYday_lt : ∀ leap : Bool, ∀ a < 13, ∀ b < a, monYday leap b < monYday leap a := by
  decide

theorem monthLoop_eq {leap : Bool} {days : ℤ} {mon : ℕ} (hmon : mon ≤ 11) (h0 : 0 ≤ days)
    (hlo : monYday leap mon ≤ days) (hhi : days < monYday leap (mon + 1))
    (hlen : days < monYday leap 12) : monthLoop leap days 11 = mon := by
  obtain ⟨hle, hlo', hhi'⟩ := monthLoop_spec 11 h0 hlen
  have hmono : ∀ a b, a < 13 → b ≤ a → monYday leap b ≤ monYday leap a := by
    intro a b ha hb
    rcases Nat.lt_or_eq_of_le hb with hlt | heq
    · exact (monYday_lt leap a ha b hlt).le
    · rw [heq]
  rcases lt_trichotomy (monthLoop leap days 11) mon with hlt | heq | hgt
  · have := hmono mon (monthLoop leap days 11 + 1) (by omega) hlt
    omega
  · exact heq
  · have := hmono (monthLoop leap days 11) (mon + 1) (by omega) hgt
    omega

/-! ## The second after a second -/

/-- Second `tt`, counted from 1972 without leap seconds, on day `yday` of year `y`. -/
def utcAt (tt extra y yday : ℤ) : Utc :=
  { sec := tt % 60 + extra
    min := tt / 60 % 60
    hour := tt % secsPerDay / 3600
    mday := yday - monYday (isLeap y) (monthLoop (isLeap y) yday 11) + 1
    mon := monthLoop (isLeap y) yday 11
    year := y - 1900
    wday := (6 + tt / secsPerDay) % 7
    yday := yday }

theorem next_same_day {tt y yday : ℤ} (h : tt % secsPerDay ≠ secsPerDay - 1) :
    (utcAt tt 0 y yday).next = utcAt (tt + 1) 0 y yday := by
  rw [secsPerDay_eq] at h
  unfold Utc.next utcAt
  rw [secsPerDay_eq]
  have hday : (tt + 1) / 86400 = tt / 86400 := by omega
  have hhour : (tt + 1) % 86400 = tt % 86400 + 1 := by omega
  rw [hday, hhour]
  dsimp only
  split
  · next hsec =>
    have hmin : (tt + 1) / 60 = tt / 60 := by omega
    congr 1 <;> omega
  split
  · congr 1 <;> omega
  split
  · congr 1 <;> omega
  · omega

theorem lastMinute_utcAt {tt extra y yday : ℤ} (h : tt % secsPerDay = secsPerDay - 1) :
    (utcAt tt extra y yday).LastMinute ∧ (utcAt tt extra y yday).sec = 59 + extra := by
  rw [secsPerDay_eq] at h
  unfold Utc.LastMinute utcAt
  rw [secsPerDay_eq]
  dsimp only
  omega

theorem nextDay_utcAt {tt extra y yday y' yday' : ℤ} (h : tt % secsPerDay = secsPerDay - 1)
    (hy : 1 ≤ y) (hy' : 1 ≤ y') (hyday : 0 ≤ yday ∧ yday < yearLength y)
    (hyday' : 0 ≤ yday' ∧ yday' < yearLength y') (hnext : dayNumber y' yday' = dayNumber y yday + 1)
    : (utcAt tt extra y yday).nextDay = utcAt (tt + 1) 0 y' yday' := by
  have hmonth := monthLoop_spec 11 hyday.1 (by rw [monYday_twelve]; exact hyday.2)
  have hlen := monYday_succ (y := y) (by omega) (monthLoop (isLeap y) yday 11) (by omega)
  have htwelve := monYday_twelve (y := y)
  rw [secsPerDay_eq] at h
  have hsec : (tt + 1) % 60 = 0 ∧ (tt + 1) / 60 % 60 = 0 ∧ (tt + 1) % 86400 / 3600 = 0 ∧
      (6 + (tt + 1) / 86400) % 7 = ((6 + tt / 86400) % 7 + 1) % 7 := by omega
  obtain ⟨hs, hm, hh, hw⟩ := hsec
  unfold Utc.nextDay utcAt
  rw [secsPerDay_eq]
  simp only [hs, hm, hh, hw, Int.add_zero, show y - 1900 + 1900 = y by omega]
  generalize hmon : monthLoop (isLeap y) yday 11 = mon at *
  have hlast : yday - monYday (isLeap y) mon + 1 = daysInMonth y mon ↔
      yday + 1 = monYday (isLeap y) (mon + 1) := by omega
  have heleven : ((mon : ℕ) : ℤ) = 11 ↔ mon = 11 := by omega
  simp only [hlast, heleven]
  by_cases hend : yday + 1 = monYday (isLeap y) (mon + 1)
  · by_cases hdec : mon = 11
    · -- the year ends
      subst hdec
      have hlastday : yday + 1 = yearLength y := by
        rw [hend, ← htwelve]
      have hstart : dayNumber y (yearLength y) = dayNumber y yday + 1 := by
        unfold dayNumber
        omega
      have hbounds := yearLength_bounds (y + 1)
      obtain ⟨hy1, hd1⟩ := dayNumber_inj (y := y + 1) (d := 0) (by omega) hy'
        ⟨le_rfl, by omega⟩ hyday' (by rw [hnext, dayNumber_succ hy, hstart])
      subst hy1 hd1
      have hjan : monthLoop (isLeap (y + 1)) 0 11 = 0 := by cases isLeap (y + 1) <;> decide
      have hzero : monYday (isLeap (y + 1)) 0 = 0 := by cases isLeap (y + 1) <;> rfl
      rw [hjan, hzero]
      simp only [hend, if_true, and_self]
      congr 1
      omega
    · -- the month ends
      have hlt := monYday_lt (isLeap y) 12 (by omega) (mon + 1) (by omega)
      have hlt' := monYday_lt (isLeap y) (mon + 2) (by omega) (mon + 1) (by omega)
      obtain ⟨rfl, rfl⟩ := dayNumber_inj hy hy' (d := yday + 1) ⟨by omega, by omega⟩ hyday'
        (by rw [hnext]; unfold dayNumber; omega)
      have hmon' : monthLoop (isLeap y') (yday + 1) 11 = mon + 1 :=
        monthLoop_eq (by omega) (by omega) (by omega) (by rw [hend]; exact hlt') (by omega)
      rw [hmon']
      simp only [hend, hdec, if_true, if_false, and_false]
      congr 1
      · omega
  · -- the month goes on
    have hle : monYday (isLeap y) (mon + 1) ≤ monYday (isLeap y) 12 := by
      rcases Nat.lt_or_eq_of_le hmonth.1 with hlt | heq
      · exact (monYday_lt (isLeap y) 12 (by omega) (mon + 1) (by omega)).le
      · rw [heq]
    obtain ⟨rfl, rfl⟩ := dayNumber_inj hy hy' (d := yday + 1) ⟨by omega, by omega⟩ hyday'
      (by rw [hnext]; unfold dayNumber; omega)
    have hmon' : monthLoop (isLeap y') (yday + 1) 11 = mon :=
      monthLoop_eq (by omega) (by omega) (by omega) (by omega) (by omega)
    rw [hmon']
    simp only [hend, if_false, false_and]
    congr 1
    omega

/-! ## The leap seconds of two seconds in a row -/

section LeapTable

variable {leaps : List Leap} {day : ℕ → ℤ}

theorem isTransition_iff (h : Shape leaps day) {tai : ℤ} :
    IsTransition leaps tai ↔ ∃ i < leaps.length, tai = offsTai + day i * secsPerDay + i := by
  have hget : ∀ i (hi : i < leaps.length), leaps[i] = leaps.getD i default :=
    fun i hi => (List.getD_eq_getElem _ _ hi).symm
  constructor
  · rintro ⟨leap, hmem, htai⟩
    obtain ⟨i, hi, rfl⟩ := List.mem_iff_getElem.mp hmem
    rw [hget i hi, h.entry i hi] at htai
    exact ⟨i, hi, htai.symm⟩
  · rintro ⟨i, hi, htai⟩
    refine ⟨leaps[i], List.getElem_mem hi, ?_⟩
    rw [hget i hi, h.entry i hi]
    exact htai.symm

theorem not_isTransition_of_past (h : Shape leaps day) {tai : ℤ} {c : ℕ}
    (hpast : ∀ i < leaps.length, day i * secsPerDay ≤ tai - offsTai - c ↔ i < c) :
    ¬ IsTransition leaps tai := by
  rw [isTransition_iff h]
  rintro ⟨i, hi, htai⟩
  have := hpast i hi
  omega

/-- The second after `tt` is an inserted one, or it is `tt + 1`. -/
theorem leapAt_next (h : Shape leaps day) {tai : ℤ} (htai : offsTai < tai) :
    ∃ tt extra tt' extra' : ℤ, leapAt leaps tai = (tai - offsTai - tt, extra) ∧
      leapAt leaps (tai + 1) = (tai + 1 - offsTai - tt', extra') ∧ 0 ≤ tt ∧ tt ≤ tai ∧
      (extra = 0 ∨ extra = 1 ∧ tt % secsPerDay = secsPerDay - 1) ∧
      ((IsTransition leaps (tai + 1) ∧ extra = 0 ∧ extra' = 1 ∧ tt' = tt ∧
          tt % secsPerDay = secsPerDay - 1) ∨
        (¬ IsTransition leaps (tai + 1) ∧ extra' = 0 ∧ tt' = tt + 1)) := by
  have hday := secsPerDay_eq
  have hoffs := offsTai_eq
  rcases leapAt_spec h htai with ⟨c, hc, hleap, h0, hpast⟩ | ⟨i, hi, hleap, hpos, heq⟩
  · rcases leapAt_spec h (show offsTai < tai + 1 by omega) with
      ⟨c', hc', hleap', h0', hpast'⟩ | ⟨i, hi, hleap', hpos, heq⟩
    · -- no entry lies between the two
      have hcc : c' = c := by
        rcases lt_trichotomy c c' with hlt | hc | hgt
        · have := hpast c (by omega)
          have := hpast' c (by omega)
          omega
        · exact hc.symm
        · have := hpast c' (by omega)
          have := hpast' c' (by omega)
          omega
      subst hcc
      refine ⟨tai - offsTai - c', 0, tai + 1 - offsTai - c', 0, ?_, ?_, h0, by omega,
        Or.inl rfl, Or.inr ⟨not_isTransition_of_past h hpast', rfl, by omega⟩⟩
      · rw [hleap]
        congr 1
        omega
      · rw [hleap']
        congr 1
        omega
    · -- the next second is the one that entry `i` inserts
      have hci : c = i := by
        rcases lt_trichotomy c i with hlt | hc | hgt
        · have := hpast c (by omega)
          have := h.increasing c i hlt hi
          rw [hday] at *
          omega
        · exact hc
        · have := hpast i hi
          omega
      subst hci
      refine ⟨tai - offsTai - c, 0, tai - offsTai - c, 1, ?_, ?_, h0, by omega, Or.inl rfl,
        Or.inl ⟨(isTransition_iff h).mpr ⟨c, hi, heq⟩, rfl, rfl, rfl, ?_⟩⟩
      · rw [hleap]
        congr 1
        omega
      · rw [hleap']
        congr 1
        omega
      · rw [hday] at heq ⊢
        omega
  · rcases leapAt_spec h (show offsTai < tai + 1 by omega) with
      ⟨c, hc, hleap', h0', hpast'⟩ | ⟨j, hj, hleap', hpos', heq'⟩
    · -- `tai` is inserted, and the day begins
      have hci : c = i + 1 := by
        rcases lt_trichotomy c (i + 1) with hlt | hc | hgt
        · have := hpast' i hi
          omega
        · exact hc
        · have := hpast' (i + 1) (by omega)
          have := h.increasing i (i + 1) (by omega) (by omega)
          rw [hday] at *
          omega
      subst hci
      refine ⟨tai - offsTai - (i + 1), 1, tai - offsTai - i, 0, ?_, ?_, ?_, by omega,
        Or.inr ⟨rfl, ?_⟩, Or.inr ⟨not_isTransition_of_past h hpast', rfl, by omega⟩⟩
      · rw [hleap]
        congr 1
        omega
      · rw [hleap']
        congr 1
        push_cast
        omega
      · rw [hday] at heq
        omega
      · rw [hday] at heq ⊢
        omega
    · -- two inserted seconds are a day apart
      have hij : i ≠ j := by
        rintro rfl
        omega
      rcases Nat.lt_or_gt_of_ne hij with hlt | hgt
      · have := h.increasing i j hlt hj
        rw [hday] at *
        omega
      · have := h.increasing j i hgt hi
        rw [hday] at *
        omega

end LeapTable

/-- `TAItoUTC` gives the seconds in the order of the calendar. -/
theorem taiToUtc_succ (leaps : List Leap) (hshape : BuiltInShape leaps) (t : ℕ) (ht : t < 2 ^ 40) :
    ∃ utc utc', taiToUtc leaps t = some utc ∧ taiToUtc leaps (t + 1) = some utc' ∧
      (utc'.sec = 60 ↔ IsTransition leaps (t + 1 + taiAtGpsZero)) ∧
      (IsTransition leaps (t + 1 + taiAtGpsZero) →
        utc.LastMinute ∧ utc.sec = 59 ∧ utc' = { utc with sec := 60 }) ∧
      (utc.sec = 60 → utc.LastMinute ∧ utc' = utc.nextDay) ∧
      (¬ IsTransition leaps (t + 1 + taiAtGpsZero) → utc' = utc.next) := by
  obtain ⟨day, hnonneg, hincreasing, hentry⟩ := hshape
  have hs : Shape leaps day := ⟨hnonneg, hincreasing, hentry⟩
  have hzero : taiAtGpsZero = 694656019 := rfl
  have hoffs := offsTai_eq
  have hday := secsPerDay_eq
  have ht' : (t : ℤ) < 2 ^ 40 := by exact_mod_cast ht
  obtain ⟨tt, extra, tt', extra', hleap, hleap', h0, hmax, hextra, hnext⟩ :=
    @leapAt_next _ _ hs (t + taiAtGpsZero) (by omega)
  rw [show (t : ℤ) + taiAtGpsZero + 1 = t + 1 + taiAtGpsZero by omega] at hleap' hnext
  have hnext' : tt' = tt ∨ tt' = tt + 1 := by omega
  obtain ⟨y, yday, hy, hnumber, hyday0, hyday1, hutc⟩ :=
    @taiToUtc_eq _ _ _ _ tt hleap (by omega) (by omega) h0 (by omega)
  obtain ⟨y', yday', hy', hnumber', hyday0', hyday1', hutc'⟩ :=
    @taiToUtc_eq _ _ _ _ tt' hleap' (by omega) (by omega) (by omega) (by omega)
  refine ⟨utcAt tt extra y yday, utcAt tt' extra' y' yday', hutc, hutc', ?_⟩
  rcases hnext with ⟨htrans, rfl, rfl, rfl, hlast⟩ | ⟨hnot, rfl, rfl⟩
  · -- the day is the same
    obtain ⟨rfl, rfl⟩ := dayNumber_inj hy hy' ⟨hyday0, hyday1⟩ ⟨hyday0', hyday1'⟩
      (by rw [hnumber, hnumber'])
    obtain ⟨hminute, hsec⟩ := @lastMinute_utcAt _ 0 y' yday' hlast
    obtain ⟨-, hsec'⟩ := @lastMinute_utcAt _ 1 y' yday' hlast
    have hinserted : utcAt tt' 1 y' yday' = { utcAt tt' 0 y' yday' with sec := 60 } := by
      rw [show (60 : ℤ) = (utcAt tt' 1 y' yday').sec from hsec'.symm]
      rfl
    refine ⟨iff_of_true hsec' htrans, fun _ => ⟨hminute, by omega, hinserted⟩, ?_,
      fun h => absurd htrans h⟩
    intro h60
    omega
  · have hsec' : (utcAt (tt + 1) 0 y' yday').sec ≠ 60 := by
      show (tt + 1) % 60 + 0 ≠ 60
      omega
    refine ⟨iff_of_false hsec' hnot, fun h => absurd h hnot, ?_⟩
    by_cases hlast : tt % secsPerDay = secsPerDay - 1
    · -- midnight
      have hnumber1 : dayNumber y' yday' = dayNumber y yday + 1 := by
        rw [hnumber, hnumber', hday]
        rw [hday] at hlast
        omega
      have hnextDay := @nextDay_utcAt _ extra _ _ _ _ hlast hy hy' ⟨hyday0, hyday1⟩
        ⟨hyday0', hyday1'⟩ hnumber1
      obtain ⟨hminute, hsec⟩ := @lastMinute_utcAt _ extra y yday hlast
      refine ⟨fun _ => ⟨hminute, hnextDay.symm⟩, fun _ => ?_⟩
      unfold Utc.LastMinute at hminute
      unfold Utc.next
      rw [if_neg (by omega), if_neg (by omega), if_neg (by omega), hnextDay]
    · have hzero : extra = 0 := by omega
      subst hzero
      obtain ⟨rfl, rfl⟩ := dayNumber_inj hy hy' ⟨hyday0, hyday1⟩ ⟨hyday0', hyday1'⟩
        (by rw [hnumber, hnumber', hday]; rw [hday] at hlast; omega)
      refine ⟨fun h60 => ?_, fun _ => (next_same_day hlast).symm⟩
      have : tt % 60 + 0 = 60 := h60
      omega

/-- The leap second at the end of 2016, from the second before it. -/
theorem taiToUtc_succ_2016 :
    ∃ utc utc', taiToUtc builtInLeaps (1167264016 : ℕ) = some utc ∧
      taiToUtc builtInLeaps ((1167264016 : ℕ) + 1) = some utc' ∧
      (utc'.sec = 60 ↔ IsTransition builtInLeaps ((1167264016 : ℕ) + 1 + taiAtGpsZero)) ∧
      (IsTransition builtInLeaps ((1167264016 : ℕ) + 1 + taiAtGpsZero) →
        utc.LastMinute ∧ utc.sec = 59 ∧ utc' = { utc with sec := 60 }) ∧
      (utc.sec = 60 → utc.LastMinute ∧ utc' = utc.nextDay) ∧
      (¬ IsTransition builtInLeaps ((1167264016 : ℕ) + 1 + taiAtGpsZero) → utc' = utc.next) :=
  taiToUtc_succ builtInLeaps builtInShape_builtInLeaps 1167264016 (by decide)

/-! ## The order of times -/

/-- The date and time of day come before those of `utc'`. -/
def Utc.Before (utc utc' : Utc) : Prop :=
  utc.year < utc'.year ∨ utc.year = utc'.year ∧ (utc.mon < utc'.mon ∨ utc.mon = utc'.mon ∧
    (utc.mday < utc'.mday ∨ utc.mday = utc'.mday ∧ (utc.hour < utc'.hour ∨ utc.hour = utc'.hour ∧
      (utc.min < utc'.min ∨ utc.min = utc'.min ∧ utc.sec < utc'.sec))))

theorem monthLoop_mono {y yday yday' : ℤ} (h0 : 0 ≤ yday) (hlt : yday < yday')
    (hlen : yday' < yearLength y) :
    monthLoop (isLeap y) yday 11 ≤ monthLoop (isLeap y) yday' 11 := by
  obtain ⟨hmon, hlow, -⟩ := @monthLoop_spec (isLeap y) yday 11 h0 (by rw [monYday_twelve]; omega)
  obtain ⟨-, -, hhigh⟩ :=
    @monthLoop_spec (isLeap y) yday' 11 (by omega) (by rw [monYday_twelve]; exact hlen)
  by_contra hle
  have hnext : monthLoop (isLeap y) yday' 11 + 1 ≤ monthLoop (isLeap y) yday 11 := not_le.mp hle
  rcases Nat.lt_or_eq_of_le hnext with h | h
  · have := monYday_lt (isLeap y) _ (by omega) _ h
    omega
  · rw [← h] at hlow
    omega

/-- An inserted second belongs to the last one of its day. -/
theorem utcAt_before {tt tt' extra extra' y y' yday yday' : ℤ} (hy' : 1 ≤ y')
    (hyday : 0 ≤ yday ∧ yday < yearLength y) (hyday' : 0 ≤ yday' ∧ yday' < yearLength y')
    (hnumber : dayNumber y yday = tt / secsPerDay)
    (hnumber' : dayNumber y' yday' = tt' / secsPerDay)
    (hextra : extra = 0 ∨ extra = 1 ∧ tt % secsPerDay = secsPerDay - 1) (hextra' : 0 ≤ extra')
    (h : tt < tt' ∨ tt = tt' ∧ extra < extra') :
    (utcAt tt extra y yday).Before (utcAt tt' extra' y' yday') := by
  rw [secsPerDay_eq] at *
  unfold Utc.Before utcAt
  rw [secsPerDay_eq]
  dsimp only
  rcases lt_trichotomy y y' with hlt | rfl | hgt
  · exact Or.inl (by omega)
  · refine Or.inr ⟨rfl, ?_⟩
    unfold dayNumber at hnumber hnumber'
    rcases Int.lt_or_le yday yday' with hlt | hle
    · rcases Nat.lt_or_eq_of_le (monthLoop_mono hyday.1 hlt hyday'.2) with hmon | hmon
      · exact Or.inl (by omega)
      · exact Or.inr ⟨by rw [hmon], Or.inl (by rw [hmon]; omega)⟩
    · obtain rfl : yday' = yday := by omega
      exact Or.inr ⟨rfl, Or.inr ⟨rfl, by omega⟩⟩
  · have := dayNumber_lt hy' hgt hyday'.2 hyday.1
    omega

/-- A GPS time in a calendar without leap seconds. -/
def plainSecond (leaps : List Leap) (n : ℕ) : ℤ :=
  n + taiAtGpsZero - offsTai - (leapAt leaps (n + taiAtGpsZero)).1

/-- Whether the second is inserted behind that one. -/
def inserted (leaps : List Leap) (n : ℕ) : ℤ := (leapAt leaps (n + taiAtGpsZero)).2

theorem plainSecond_spec (hs : Shape leaps day) (n : ℕ) :
    (0 ≤ plainSecond leaps n ∧ plainSecond leaps n ≤ n + taiAtGpsZero ∧
      (inserted leaps n = 0 ∨
        inserted leaps n = 1 ∧ plainSecond leaps n % secsPerDay = secsPerDay - 1)) ∧
      2 * plainSecond leaps n + inserted leaps n <
        2 * plainSecond leaps (n + 1) + inserted leaps (n + 1) := by
  have hzero : taiAtGpsZero = 694656019 := rfl
  have hoffs := offsTai_eq
  obtain ⟨tt, extra, tt', extra', hleap, hleap', hspec⟩ :=
    @leapAt_next _ _ hs (n + taiAtGpsZero) (by omega)
  have hcast : ((n + 1 : ℕ) : ℤ) + taiAtGpsZero = n + taiAtGpsZero + 1 := by push_cast; ring
  simp only [plainSecond, inserted, hcast, hleap, hleap', sub_sub_cancel]
  omega

/-- `TAItoUTC` keeps the order of times, leap seconds included. -/
theorem taiToUtc_keeps_order (leaps : List Leap) (hshape : BuiltInShape leaps) (s t : ℕ)
    (hst : s < t) (ht : t < 2 ^ 40) :
    ∃ utc utc', taiToUtc leaps s = some utc ∧ taiToUtc leaps t = some utc' ∧ utc.Before utc' := by
  obtain ⟨day, hnonneg, hincreasing, hentry⟩ := hshape
  have hspec := @plainSecond_spec leaps day ⟨hnonneg, hincreasing, hentry⟩
  have hlt : 2 * plainSecond leaps s + inserted leaps s <
      2 * plainSecond leaps t + inserted leaps t :=
    strictMono_nat_of_lt_succ (fun n => (hspec n).2) hst
  have hzero : taiAtGpsZero = 694656019 := rfl
  have hoffs := offsTai_eq
  have hday := secsPerDay_eq
  obtain ⟨⟨hs0, hs1, hs2⟩, -⟩ := hspec s
  obtain ⟨⟨ht0, ht1, ht2⟩, -⟩ := hspec t
  obtain ⟨y, yday, -, hnumber, hyday0, hyday1, hutc⟩ :=
    @taiToUtc_eq leaps s _ (inserted leaps s) (plainSecond leaps s) rfl rfl (by omega) hs0
      (by omega)
  obtain ⟨y', yday', hy', hnumber', hyday0', hyday1', hutc'⟩ :=
    @taiToUtc_eq leaps t _ (inserted leaps t) (plainSecond leaps t) rfl rfl (by omega) ht0
      (by omega)
  refine ⟨_, _, hutc, hutc', ?_⟩
  exact utcAt_before hy' ⟨hyday0, hyday1⟩ ⟨hyday0', hyday1'⟩ hnumber hnumber' hs2
    (by omega) (by omega)

/-- Across the leap second at the end of 2016. -/
theorem taiToUtc_keeps_order_2016 : ∃ utc utc', taiToUtc builtInLeaps (1167264016 : ℕ) = some utc ∧
    taiToUtc builtInLeaps (1167264018 : ℕ) = some utc' ∧ utc.Before utc' :=
  taiToUtc_keeps_order builtInLeaps builtInShape_builtInLeaps 1167264016 1167264018 (by decide)
    (by decide)

end AdvLigoRts.Gds
