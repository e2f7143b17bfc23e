import Mathlib.Algebra.Order.Ring.Int
import Mathlib.Tactic.Ring

/-!
# Conversion between GPS time and UTC

`TAItoUTC` and `UTCtoTAI` of gds/tconv.c, over any leap second table. Division is C's, which
rounds towards zero. All quantities stay far below the bounds of `long` and `int` for times
below 2^40, so that they are integers here.
-/

namespace AdvLigoRts.Gds

def secsPerHour : ℤ := 60 * 60

def secsPerDay : ℤ := secsPerHour * 24

def isLeap (year : ℤ) : Bool :=
  year.tmod 4 = 0 ∧ (year.tmod 100 ≠ 0 ∨ year.tmod 400 = 0)

def leapsThruEndOf (y : ℤ) : ℤ := y.tdiv 4 - y.tdiv 100 + y.tdiv 400

def offsYear : ℤ := 1972

def offsTai : ℤ := ((72 - 58) * 365 + 3) * secsPerDay + 10

def offsWday : ℤ := 6

def taiAtGpsZero : ℤ := 694656019

/-- How many days come before each month. -/
def monYday (leap : Bool) (mon : ℕ) : ℤ :=
  if leap then [0, 31, 60, 91, 121, 152, 182, 213, 244, 274, 305, 335, 366].getD mon 0
  else [0, 31, 59, 90, 120, 151, 181, 212, 243, 273, 304, 334, 365].getD mon 0

/-- `leap_t`. -/
structure Leap where
  transition : ℤ
  change : ℤ
deriving DecidableEq, Repr, Inhabited

/-- `utc_t`, a `struct tm`. -/
structure Utc where
  sec : ℤ
  min : ℤ
  hour : ℤ
  mday : ℤ
  mon : ℤ
  year : ℤ
  wday : ℤ
  yday : ℤ
deriving DecidableEq, Repr

/-- The 27 entries of the built-in table. -/
def builtInLeaps : List Leap :=
  [⟨offsTai + 182 * secsPerDay, 1⟩,
    ⟨offsTai + (365 + 1) * secsPerDay + 1, 2⟩,
    ⟨offsTai + (2 * 365 + 1) * secsPerDay + 2, 3⟩,
    ⟨offsTai + (3 * 365 + 1) * secsPerDay + 3, 4⟩,
    ⟨offsTai + (4 * 365 + 1) * secsPerDay + 4, 5⟩,
    ⟨offsTai + (5 * 365 + 2) * secsPerDay + 5, 6⟩,
    ⟨offsTai + (6 * 365 + 2) * secsPerDay + 6, 7⟩,
    ⟨offsTai + (7 * 365 + 2) * secsPerDay + 7, 8⟩,
    ⟨offsTai + (8 * 365 + 2) * secsPerDay + 8, 9⟩,
    ⟨offsTai + (9 * 365 + 3 + 181) * secsPerDay + 9, 10⟩,
    ⟨offsTai + (10 * 365 + 3 + 181) * secsPerDay + 10, 11⟩,
    ⟨offsTai + (11 * 365 + 3 + 181) * secsPerDay + 11, 12⟩,
    ⟨offsTai + (13 * 365 + 4 + 181) * secsPerDay + 12, 13⟩,
    ⟨offsTai + (16 * 365 + 4) * secsPerDay + 13, 14⟩,
    ⟨offsTai + (18 * 365 + 5) * secsPerDay + 14, 15⟩,
    ⟨offsTai + (19 * 365 + 5) * secsPerDay + 15, 16⟩,
    ⟨offsTai + (20 * 365 + 5 + 182) * secsPerDay + 16, 17⟩,
    ⟨offsTai + (21 * 365 + 6 + 181) * secsPerDay + 17, 18⟩,
    ⟨offsTai + (22 * 365 + 6 + 181) * secsPerDay + 18, 19⟩,
    ⟨offsTai + (24 * 365 + 6) * secsPerDay + 19, 20⟩,
    ⟨offsTai + (25 * 365 + 7 + 181) * secsPerDay + 20, 21⟩,
    ⟨offsTai + (27 * 365 + 7) * secsPerDay + 21, 22⟩,
    ⟨offsTai + (34 * 365 + 9) * secsPerDay + 22, 23⟩,
    ⟨offsTai + (37 * 365 + 10) * secsPerDay + 23, 24⟩,
    ⟨offsTai + (40 * 365 + 10 + 182) * secsPerDay + 24, 25⟩,
    ⟨offsTai + (43 * 365 + 11 + 181) * secsPerDay + 25, 26⟩,
    ⟨offsTai + (45 * 365 + 12) * secsPerDay + 26, 27⟩]

/-! ## From TAI to UTC -/

variable (leaps : List Leap)

/-- The backward search for the last transition not after `t`, from entry `i` down. -/
def findLeap (t : ℤ) : ℕ → Option ℕ
  | 0 => none
  | i + 1 => if t < (leaps.getD i default).transition then findLeap t i else some i

/-- The loop that looks for more leap seconds right before entry `i`. -/
def leapExtraSecs : ℕ → ℤ → ℤ
  | 0, extra => extra
  | i + 1, extra =>
    if (leaps.getD (i + 1) default).transition = (leaps.getD i default).transition + 1 ∧
        (leaps.getD (i + 1) default).change = (leaps.getD i default).change + 1 then
      leapExtraSecs i (extra + 1)
    else extra

/-- `leap_correction` and `leap_extra_secs` of `TAItoUTC`. -/
def leapAt (t : ℤ) : ℤ × ℤ :=
  match findLeap leaps t leaps.length with
  | none => (0, 0)
  | some i =>
    let leap := leaps.getD i default
    if t = leap.transition ∧
        ((i = 0 ∧ leap.change > 0) ∨ leap.change > (leaps.getD (i - 1) default).change) then
      (leap.change, leapExtraSecs leaps i 1)
    else (leap.change, 0)

/-- `while (rem < 0)`, of which one turn is enough after a division by a day. -/
def raiseRem (days rem : ℤ) : ℤ × ℤ :=
  if rem < 0 then raiseRem (days - 1) (rem + secsPerDay) else (days, rem)
termination_by (-rem).toNat
decreasing_by simp only [secsPerDay, secsPerHour]; omega

/-- `while (rem >= SECS_PER_DAY)`. -/
def lowerRem (days rem : ℤ) : ℤ × ℤ :=
  if rem ≥ secsPerDay then lowerRem (days + 1) (rem - secsPerDay) else (days, rem)
termination_by rem.toNat
decreasing_by simp only [secsPerDay, secsPerHour] at *; omega

def yearLength (y : ℤ) : ℤ := if isLeap y then 366 else 365

/-- The loop that guesses the year; `none` when `fuel` turns are not enough. -/
def yearLoop : ℕ → ℤ → ℤ → Option (ℤ × ℤ)
  | 0, _, _ => none
  | fuel + 1, y, days =>
    if days < 0 ∨ days ≥ yearLength y then
      let yg := y + days.tdiv 365 - (if days.tmod 365 < 0 then 1 else 0)
      let days := days - ((yg - y) * 365 + leapsThruEndOf (yg - 1) - leapsThruEndOf (y - 1))
      yearLoop fuel yg days
    else some (y, days)

/-- The loop that finds the month, from `mon` down. -/
def monthLoop (leap : Bool) (days : ℤ) : ℕ → ℕ
  | 0 => 0
  | mon + 1 => if days < monYday leap (mon + 1) then monthLoop leap days mon else mon + 1

def taiToUtc (t : ℤ) : Option Utc :=
  let t := t + taiAtGpsZero
  if t < offsTai then none
  else
    let (leapCorrection, extraSecs) := leapAt leaps t
    let tt := t - offsTai - leapCorrection
    let (days, rem) := raiseRem (tt.tdiv secsPerDay) (tt.tmod secsPerDay)
    let (days, rem) := lowerRem days rem
    let hour := rem.tdiv secsPerHour
    let rem := rem.tmod secsPerHour
    let wday := (offsWday + days).tmod 7
    match yearLoop (days.natAbs + 4) offsYear days with
    | none => none
    | some (y, yday) =>
      let mon := monthLoop (isLeap y) yday 11
      some
        { sec := rem.tmod 60 + extraSecs
          min := rem.tdiv 60
          hour := hour
          mday := yday - monYday (isLeap y) mon + 1
          mon := mon
          year := y - 1900
          wday := if wday < 0 then wday + 7 else wday
          yday := yday }

/-! ## From UTC to TAI -/

/-- The forward loop of `UTCtoTAI` over the entries from the current one on. -/
def leapLoop (tai extraSecs : ℤ) : List Leap → ℤ → ℤ
  | [], correction => correction
  | leap :: rest, correction =>
    if (extraSecs > 0 ∧ tai + correction - extraSecs > leap.transition) ∨
        (extraSecs = 0 ∧ tai + correction ≥ leap.transition) then
      leapLoop tai extraSecs rest leap.change
    else correction

def utcToTai (utc : Utc) : ℤ :=
  let monRemainder := utc.mon.tmod 12
  let monYears := utc.mon.tdiv 12
  let (monRemainder, monYears) :=
    if monRemainder < 0 then (monRemainder + 12, monYears - 1) else (monRemainder, monYears)
  let year := utc.year + monYears + 1900
  let ydays := monYday (isLeap year) monRemainder.toNat + utc.mday - 1
  let days := ydays + 365 * (year - offsYear) + leapsThruEndOf (year - 1)
    - leapsThruEndOf (offsYear - 1)
  if days < 0 then 0
  else
    let tai := days * secsPerDay + offsTai + utc.hour * secsPerHour + utc.min * 60 + utc.sec
    let extraSecs := if utc.sec > 59 then utc.sec - 59 else 0
    tai + leapLoop tai extraSecs leaps 0 - taiAtGpsZero

/-! ## What the two are for -/

/-- A table of the built-in shape: entry `i` changes the offset to `i + 1` at the inserted
second before the day `day i`, counted from the first of January 1972, and the days
increase. -/
def BuiltInShape (leaps : List Leap) : Prop :=
  ∃ day : ℕ → ℤ, (∀ i < leaps.length, 0 ≤ day i) ∧
    (∀ i j, i < j → j < leaps.length → day i < day j) ∧
    ∀ i < leaps.length, leaps.getD i default = ⟨offsTai + day i * secsPerDay + i, i + 1⟩

/-- The length of a month of the Gregorian calendar. -/
def daysInMonth (year mon : ℤ) : ℤ :=
  if mon = 1 then
    if 4 ∣ year ∧ (¬ 100 ∣ year ∨ 400 ∣ year) then 29 else 28
  else if mon = 3 ∨ mon = 5 ∨ mon = 8 ∨ mon = 10 then 30
  else 31

/-- The fields are in range, the date exists, and `yday` counts the days of the year before
it. -/
structure Utc.Valid (utc : Utc) : Prop where
  hour : 0 ≤ utc.hour ∧ utc.hour < 24
  min : 0 ≤ utc.min ∧ utc.min < 60
  sec : 0 ≤ utc.sec ∧ utc.sec ≤ 60
  mon : 0 ≤ utc.mon ∧ utc.mon < 12
  mday : 1 ≤ utc.mday ∧ utc.mday ≤ daysInMonth (utc.year + 1900) utc.mon
  yday : utc.yday = ((List.range utc.mon.toNat).map fun m : ℕ =>
    daysInMonth (utc.year + 1900) m).sum + utc.mday - 1

end AdvLigoRts.Gds
