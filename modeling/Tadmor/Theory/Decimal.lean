import Mathlib.Algebra.Order.Field.Basic
import Mathlib.Tactic.Positivity
import Tadmor.Store.RoundingError

/-!
# Exact decimals

A decimal is an integer and a scale.  Sums and products are exact and a division truncates.  `RoundsTo x m` says that
`m` is the integer nearest to `x`, ties away from zero; there is exactly one, and `roundDiv` computes it.
-/

/-! ### Rounding -/

/-- The nearest integer, of two as near the one farther from zero. -/
def RoundsTo (x : ℚ) (m : ℤ) : Prop := |x - m| ≤ 1 / 2 ∧ (|x - m| = 1 / 2 → |x| < |(m : ℚ)|)

theorem RoundsTo.neg {x : ℚ} {m : ℤ} (h : RoundsTo x m) : RoundsTo (-x) (-m) := by
  have e : -x - ((-m : ℤ) : ℚ) = -(x - m) := by
    rw [Int.cast_neg]
    ring
  rw [RoundsTo, e, abs_neg, abs_neg, Int.cast_neg, abs_neg]
  exact h

/-- A tie is not halfway to the smaller one. -/
theorem RoundsTo.le_of_nonneg {x : ℚ} {m n : ℤ} (hx : 0 ≤ x) (hm : RoundsTo x m) (hn : RoundsTo x n) : m ≤ n := by
  by_contra hlt
  have hle : n + 1 ≤ m := by omega
  have hle : (n : ℚ) + 1 ≤ m := by exact_mod_cast hle
  obtain ⟨hm₁, -⟩ := abs_le.1 hm.1
  obtain ⟨-, hn₂⟩ := abs_le.1 hn.1
  -- both are as near, and the smaller one is nearer to zero
  have hx' : x - n = 1 / 2 := by linarith
  have htie : |x - n| = 1 / 2 := by rw [hx', abs_of_pos (by norm_num)]
  have hlt := hn.2 htie
  rw [abs_of_nonneg hx] at hlt
  rcases abs_cases (n : ℚ) with ⟨h, -⟩ | ⟨h, hneg⟩
  · linarith
  · have hn1 : n ≤ -1 := by
      have : (n : ℚ) < 0 := hneg
      have : n < 0 := by exact_mod_cast this
      omega
    have hn1 : (n : ℚ) ≤ -1 := by exact_mod_cast hn1
    linarith

theorem RoundsTo.unique {x : ℚ} {m n : ℤ} (hm : RoundsTo x m) (hn : RoundsTo x n) : m = n := by
  rcases le_total 0 x with hx | hx
  · exact le_antisymm (hm.le_of_nonneg hx hn) (hn.le_of_nonneg hx hm)
  · have hx' : 0 ≤ -x := by linarith
    have h₁ := hm.neg.le_of_nonneg hx' hn.neg
    have h₂ := hn.neg.le_of_nonneg hx' hm.neg
    omega

theorem roundsTo_roundDiv_natCast (m : ℕ) {b : ℕ} (hb : 0 < b) : RoundsTo ((m : ℤ) / (b : ℚ)) (roundDiv m b) := by
  have hpos : (0 : ℚ) < b := by exact_mod_cast hb
  have habs := abs_roundDiv_sub m hb
  rw [abs_sub_comm] at habs
  refine ⟨habs, fun htie => ?_⟩
  -- the quotient is above the half below, so a tie is the half above
  have hlt : (m : ℚ) / b - roundDiv m b < 1 / 2 := by
    rw [roundDiv_natCast m hb, sub_lt_iff_lt_add, div_lt_iff₀ hpos]
    have hd := Nat.lt_div_mul_add (a := 2 * m + b) (show 0 < 2 * b by omega)
    have hd : (2 : ℚ) * m + b < ((2 * m + b) / (2 * b) : ℕ) * (2 * b) + 2 * b := by exact_mod_cast hd
    rw [Int.cast_natCast]
    linarith
  rw [Int.cast_natCast] at htie ⊢
  rcases abs_cases ((m : ℚ) / b - roundDiv m b) with ⟨h, -⟩ | ⟨h, -⟩
  · linarith
  · have hx : (0 : ℚ) ≤ m / b := by positivity
    have he : (roundDiv m b : ℚ) = m / b + 1 / 2 := by linarith
    rw [he, abs_of_nonneg hx, abs_of_nonneg (by linarith)]
    linarith

theorem roundsTo_roundDiv (a : ℤ) {b : ℕ} (hb : 0 < b) : RoundsTo (a / b) (roundDiv a b) := by
  by_cases ha : 0 ≤ a
  · obtain ⟨m, rfl⟩ := Int.eq_ofNat_of_zero_le ha
    exact roundsTo_roundDiv_natCast m hb
  · obtain ⟨m, hm⟩ := Int.eq_ofNat_of_zero_le (show 0 ≤ -a by omega)
    obtain rfl : a = -m := by omega
    rw [roundDiv_neg, Int.cast_neg, neg_div]
    exact (roundsTo_roundDiv_natCast m hb).neg

/-! ### Decimals -/

/-- The number `coeff * 10 ^ (-scale)`. -/
@[ext] structure Decimal where
  coeff : ℤ
  scale : ℕ
deriving DecidableEq

namespace Decimal

variable {a b : Decimal}

def toRat (d : Decimal) : ℚ := d.coeff / 10 ^ d.scale

/-- The coefficient at a scale no smaller than that of the decimal. -/
def coeffAt (d : Decimal) (s : ℕ) : ℤ := d.coeff * 10 ^ (s - d.scale)

def ofInt (n : ℤ) : Decimal := ⟨n, 0⟩

def abs (d : Decimal) : Decimal := ⟨d.coeff.natAbs, d.scale⟩

def sign (d : Decimal) : Decimal := ofInt d.coeff.sign

def add (a b : Decimal) : Decimal := ⟨a.coeffAt (max a.scale b.scale) + b.coeffAt (max a.scale b.scale), max a.scale b.scale⟩

def mul (a b : Decimal) : Decimal := ⟨a.coeff * b.coeff, a.scale + b.scale⟩

instance : Add Decimal := ⟨add⟩
instance : Mul Decimal := ⟨mul⟩

/-- The quotient truncated toward zero; there is none by zero. -/
def div (a b : Decimal) : Option Decimal :=
  if b.coeff = 0 then none
  else some (ofInt ((a.coeffAt (max a.scale b.scale)).tdiv (b.coeffAt (max a.scale b.scale))))

/-- Rounded to `s` places, or filled up to them. -/
def round (s : ℕ) (d : Decimal) : Decimal :=
  ⟨if d.scale ≤ s then d.coeffAt s else roundDiv d.coeff (10 ^ (d.scale - s)), s⟩

/-- Cut off behind `s` places, or filled up to them. -/
def trunc (s : ℕ) (d : Decimal) : Decimal :=
  ⟨if d.scale ≤ s then d.coeffAt s else d.coeff.tdiv (10 ^ (d.scale - s)), s⟩

@[simp] theorem abs_coeff : a.abs.coeff = a.coeff.natAbs := rfl
@[simp] theorem abs_scale : a.abs.scale = a.scale := rfl
@[simp] theorem ofInt_coeff (n : ℤ) : (ofInt n).coeff = n := rfl
@[simp] theorem ofInt_scale (n : ℤ) : (ofInt n).scale = 0 := rfl
@[simp] theorem sign_coeff : a.sign.coeff = a.coeff.sign := rfl
@[simp] theorem sign_scale : a.sign.scale = 0 := rfl
@[simp] theorem mul_coeff : (a * b).coeff = a.coeff * b.coeff := rfl
@[simp] theorem mul_scale : (a * b).scale = a.scale + b.scale := rfl
@[simp] theorem add_scale : (a + b).scale = max a.scale b.scale := rfl

theorem add_coeff : (a + b).coeff = a.coeffAt (max a.scale b.scale) + b.coeffAt (max a.scale b.scale) := rfl

theorem toRat_eq_zero : a.toRat = 0 ↔ a.coeff = 0 := by
  rw [toRat, div_eq_zero_iff]
  simp

theorem toRat_eq_coeffAt {s : ℕ} (h : a.scale ≤ s) : a.toRat = a.coeffAt s / 10 ^ s := by
  have hs : (10 : ℚ) ^ s = 10 ^ (s - a.scale) * 10 ^ a.scale := by rw [← pow_add, Nat.sub_add_cancel h]
  have hne : (10 : ℚ) ^ (s - a.scale) ≠ 0 := by positivity
  rw [toRat, coeffAt, hs, Int.cast_mul, Int.cast_pow, Int.cast_ofNat, mul_comm, mul_div_mul_left _ _ hne]

theorem natAbs_coeffAt (d : Decimal) (s : ℕ) : (d.coeffAt s).natAbs = d.coeff.natAbs * 10 ^ (s - d.scale) := by
  rw [coeffAt, Int.natAbs_mul, Int.natAbs_pow]
  rfl

theorem sign_coeffAt (d : Decimal) (s : ℕ) : (d.coeffAt s).sign = d.coeff.sign := by
  have hpos : (0 : ℤ) < 10 ^ (s - d.scale) := by positivity
  rw [coeffAt, Int.sign_mul, Int.sign_eq_one_of_pos hpos, mul_one]

/-- A quotient is that of the coefficients at a common scale. -/
theorem toRat_div_toRat (a b : Decimal) : a.toRat / b.toRat =
    a.coeffAt (max a.scale b.scale) / b.coeffAt (max a.scale b.scale) := by
  have hne : (10 : ℚ) ^ max a.scale b.scale ≠ 0 := by positivity
  rw [toRat_eq_coeffAt (le_max_left a.scale b.scale), toRat_eq_coeffAt (le_max_right a.scale b.scale),
    div_div_div_cancel_right₀ hne]

@[simp] theorem toRat_ofInt (n : ℤ) : (ofInt n).toRat = n := by simp [ofInt, toRat]

/-- Rounding to `s` places is rounding the number of units of the last place. -/
theorem roundsTo_round (s : ℕ) (d : Decimal) : RoundsTo (d.toRat * 10 ^ s) (d.round s).coeff := by
  rw [round]
  split
  · rename_i h
    have hne : (10 : ℚ) ^ s ≠ 0 := by positivity
    rw [toRat_eq_coeffAt h, div_mul_cancel₀ _ hne]
    exact ⟨by simp, fun h => by simp at h⟩
  · rename_i h
    have hs : (10 : ℚ) ^ d.scale = 10 ^ (d.scale - s) * 10 ^ s := by rw [← pow_add, Nat.sub_add_cancel (by omega)]
    have hne : (10 : ℚ) ^ s ≠ 0 := by positivity
    have hround := roundsTo_roundDiv d.coeff (show 0 < 10 ^ (d.scale - s) by positivity)
    rw [Nat.cast_pow, Nat.cast_ofNat] at hround
    rwa [toRat, hs, div_mul_eq_mul_div, mul_div_mul_right _ _ hne]

end Decimal
