import Tadmor.Model.AmountText
import Tadmor.Model.Calendar
import Tadmor.Theory.DecimalText

/-!
# The dates that fill in a form

The client computes dates as days counted from 1970, by the rules of its language: a month or a day outside the year or
the month moves on to the next or back to the one before.
-/

open Banking (Text)

/-- The digits of `n`, filled with zeros to `width`. -/
def padded (width n : ℕ) : Text := (Nat.toDigits 10 n).leftpad width '0'

/-- `YYYY-MM-DD` -/
def Date.text (d : Date) : Text := padded 4 d.year ++ '-' :: padded 2 d.month ++ '-' :: padded 2 d.day

namespace Web

/-! ### Days and years -/

def inLeapYear (y : ℤ) : Bool := y % 4 = 0 && (y % 100 ≠ 0 || y % 400 = 0)

/-- The length of the month `m`, counted from 0 -/
def monthLength (y : ℤ) (m : ℕ) : ℤ :=
  if m = 1 then if inLeapYear y then 29 else 28
  else if m = 3 ∨ m = 5 ∨ m = 8 ∨ m = 10 then 30
  else 31

/-- The days of the months before `m` -/
def daysBefore (y : ℤ) : ℕ → ℤ
  | 0 => 0
  | m + 1 => daysBefore y m + monthLength y m

/-- `DayFromYear(y)` -/
def dayFromYear (y : ℤ) : ℤ := 365 * (y - 1970) + (y - 1969) / 4 - (y - 1901) / 100 + (y - 1601) / 400

/-- The largest of the years from `y` to `y + k` that has begun on the day `n`. -/
def latestYear (n : ℤ) : ℕ → ℤ → ℤ
  | 0, y => y
  | k + 1, y => if dayFromYear (y + 1) ≤ n then latestYear n k (y + 1) else y

/-- `YearFromTime`; 400 years have 146097 days. -/
def yearFromDay (n : ℤ) : ℤ := latestYear n 399 (1600 + 400 * ((n + 135140) / 146097))

/-- The largest of the months up to `m` that has begun on the day `within` the year. -/
def latestMonth (y within : ℤ) : ℕ → ℕ
  | 0 => 0
  | m + 1 => if daysBefore y (m + 1) ≤ within then m + 1 else latestMonth y within m

/-! ### `Date` -/

/-- `MakeDay(year, month, date)` -/
def makeDay (year month date : ℤ) : ℤ :=
  let ym := year + month / 12
  let mn := (month % 12).toNat
  dayFromYear ym + daysBefore ym mn + date - 1

/-- `Date.UTC(year, month, date)` in days; there are 10 ^ 8 days on either side of 1970. -/
def utc (year month date : ℤ) : Option ℤ :=
  let yr := if 0 ≤ year ∧ year ≤ 99 then 1900 + year else year
  let day := makeDay yr month date
  if day.natAbs ≤ 10 ^ 8 then some day else none

/-- Years of more than four digits have a sign. -/
def isoYear (y : ℤ) : Text :=
  if 0 ≤ y ∧ y ≤ 9999 then padded 4 y.toNat else (if y < 0 then '-' else '+') :: padded 6 y.natAbs

/-- `toISOString()` -/
def toISOString (day : ℤ) : Text :=
  let y := yearFromDay day
  let within := day - dayFromYear y
  let m := latestMonth y within 11
  isoYear y ++ '-' :: padded 2 (m + 1) ++ '-' :: padded 2 (within - daysBefore y m + 1).toNat ++ "T00:00:00.000Z".toList

/-! ### `dates.ts` -/

/-- `Number` of digits; the API sends nothing else between the hyphens. -/
def number (s : Text) : Option ℤ := if s.all Char.isDigit then some (numeral s) else none

def parts (date : Text) : Option (ℤ × ℤ × ℤ) :=
  match date.splitOn '-' with
  | y :: m :: d :: _ => do
    let y ← number y
    let m ← number m
    let d ← number d
    some (y, m, d)
  | _ => none

def format (t : ℤ) : Text := (toISOString t).take 10

/-- There is no text for a day out of range: `toISOString` throws. -/
def endOfYearFrom (start : Text) : Option Text := do
  let (y, m, d) ← parts start
  let t ← utc (y + 1) (m - 1) (d - 1)
  some (format t)

end Web
