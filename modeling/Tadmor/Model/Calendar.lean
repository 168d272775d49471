import Mathlib.Algebra.GroupWithZero.Nat
import Mathlib.Data.Nat.Notation
import Mathlib.Order.Nat
import Mathlib.Order.Lattice

/-!
# Calendar dates

Dates of the proleptic Gregorian calendar, ordered by year, month and day, with the date arithmetic the queries use:
the bounds of a calendar month, the next day, and the last day of a year that starts on a given day.
-/

def isLeap (y : ℕ) : Bool := y % 4 = 0 && (y % 100 ≠ 0 || y % 400 = 0)

def daysInMonth (y m : ℕ) : ℕ :=
  if m = 2 then if isLeap y then 29 else 28
  else if m = 4 ∨ m = 6 ∨ m = 9 ∨ m = 11 then 30
  else 31

theorem daysInMonth_pos (y m : ℕ) : 1 ≤ daysInMonth y m := by
  unfold daysInMonth
  split
  · split <;> decide
  · split <;> decide

theorem daysInMonth_le (y m : ℕ) : daysInMonth y m ≤ 31 := by
  unfold daysInMonth
  split
  · split <;> decide
  · split <;> decide

structure Date where
  year : ℕ
  month : ℕ
  day : ℕ
  valid : 1 ≤ month ∧ month ≤ 12 ∧ 1 ≤ day ∧ day ≤ daysInMonth year month := by decide
deriving DecidableEq

namespace Date

/-- Orders dates; consecutive dates need not have consecutive ranks. -/
def rank (d : Date) : ℕ := (d.year * 12 + (d.month - 1)) * 31 + (d.day - 1)

theorem rank_injective : Function.Injective rank := by
  rintro ⟨y, m, d, h⟩ ⟨y', m', d', h'⟩ e
  have h₁ := daysInMonth_le y m
  have h₂ := daysInMonth_le y' m'
  simp only [rank] at e
  obtain ⟨rfl, rfl, rfl⟩ : y = y' ∧ m = m' ∧ d = d' := by omega
  rfl

instance : LinearOrder Date := LinearOrder.lift' rank rank_injective

theorem le_iff {a b : Date} : a ≤ b ↔ a.rank ≤ b.rank := Iff.rfl
theorem lt_iff {a b : Date} : a < b ↔ a.rank < b.rank := Iff.rfl

/-- `date_trunc('month', d)` -/
def monthStart (d : Date) : Date := ⟨d.year, d.month, 1, d.valid.1, d.valid.2.1, le_rfl, daysInMonth_pos _ _⟩

/-- `date_trunc('month', d) + interval '1 month - 1 day'` -/
def monthEnd (d : Date) : Date :=
  ⟨d.year, d.month, daysInMonth d.year d.month, d.valid.1, d.valid.2.1, daysInMonth_pos _ _, le_rfl⟩

theorem monthStart_le (d : Date) : d.monthStart ≤ d := by
  have h := d.valid
  simp only [le_iff, rank, monthStart]
  omega

theorem le_monthEnd (d : Date) : d ≤ d.monthEnd := by
  have h := d.valid
  simp only [le_iff, rank, monthEnd]
  omega

/-- `d + 1` -/
def next (d : Date) : Date :=
  if h : d.day < daysInMonth d.year d.month then
    ⟨d.year, d.month, d.day + 1, d.valid.1, d.valid.2.1, by omega, h⟩
  else if h' : d.month < 12 then
    ⟨d.year, d.month + 1, 1, by omega, h', le_rfl, daysInMonth_pos _ _⟩
  else ⟨d.year + 1, 1, 1, le_rfl, by decide, le_rfl, daysInMonth_pos _ _⟩

theorem lt_next (d : Date) : d < d.next := by
  have h := d.valid
  have h₁ := daysInMonth_le d.year d.month
  rw [lt_iff]
  unfold next
  split
  · simp only [rank]
    omega
  · split
    · simp only [rank]
      omega
    · simp only [rank]
      omega

/-- `d + interval '1 year'`: the same day one year later, or the last day of February. -/
def addYear (d : Date) : Date :=
  if h : d.day ≤ daysInMonth (d.year + 1) d.month then
    ⟨d.year + 1, d.month, d.day, d.valid.1, d.valid.2.1, d.valid.2.2.1, h⟩
  else ⟨d.year + 1, d.month, daysInMonth (d.year + 1) d.month, d.valid.1, d.valid.2.1, daysInMonth_pos _ _, le_rfl⟩

/-- `d - interval '1 day'`; year 0 has no day before its first. -/
def prev (d : Date) : Date :=
  if h : 1 < d.day then
    ⟨d.year, d.month, d.day - 1, d.valid.1, d.valid.2.1, by omega, by have := d.valid; omega⟩
  else if h' : 1 < d.month then
    ⟨d.year, d.month - 1, daysInMonth d.year (d.month - 1), by omega, by have := d.valid; omega,
      daysInMonth_pos _ _, le_rfl⟩
  else ⟨d.year - 1, 12, 31, by decide, by decide, by decide, by simp [daysInMonth]⟩

/-- The number of days since the first of January of year 0, for `date - date`. -/
def dayNumber (d : Date) : ℕ :=
  365 * d.year + (d.year + 3) / 4 - (d.year + 99) / 100 + (d.year + 399) / 400 +
    ((List.range (d.month - 1)).map fun m => daysInMonth d.year (m + 1)).sum + (d.day - 1)

example : (⟨2027, 1, 1, by decide⟩ : Date).dayNumber = (⟨2026, 12, 31, by decide⟩ : Date).dayNumber + 1 := by decide

/-- `n` in decimal, filled with zeros to `width` digits. -/
def pad (width n : ℕ) : String :=
  String.ofList (List.replicate (width - (Nat.toDigits 10 n).length) '0' ++ Nat.toDigits 10 n)

/-- `to_char(d, 'YYYY-MM')` -/
def yearMonth (d : Date) : String := pad 4 d.year ++ "-" ++ pad 2 d.month

example : (⟨2026, 6, 15, by decide⟩ : Date).yearMonth = "2026-06" := by decide +kernel

end Date
