import Mathlib.Algebra.BigOperators.Group.List.Basic
import Mathlib.Algebra.Order.BigOperators.Group.List
import Mathlib.Algebra.Order.Field.Basic
import Mathlib.Algebra.Order.Field.Rat
import Mathlib.Tactic.FieldSimp
import Mathlib.Tactic.GCongr
import Tadmor.Store.Rounding

/-!
# The error of rounding

A rounded quotient is at most a half away from the quotient, so a sum of rounded quotients is at most half the number
of its terms away from the sum of the quotients.
-/

theorem roundDiv_within_natCast (m : ℕ) {b : ℕ} (hb : 0 < b) :
    2 * m ≤ 2 * (((2 * m + b) / (2 * b)) * b) + b ∧ 2 * (((2 * m + b) / (2 * b)) * b) ≤ 2 * m + b := by
  have hd := Nat.div_add_mod (2 * m + b) (2 * b)
  have hr := Nat.mod_lt (2 * m + b) (show 0 < 2 * b by omega)
  have hq : 2 * (((2 * m + b) / (2 * b)) * b) = 2 * b * ((2 * m + b) / (2 * b)) := by ring
  omega

/-- A rounded quotient, times the divisor, is at most half a divisor away. -/
theorem roundDiv_within (a : ℤ) {b : ℕ} (hb : 0 < b) :
    2 * a ≤ 2 * (roundDiv a b * b) + b ∧ 2 * (roundDiv a b * b) ≤ 2 * a + b := by
  have hnat : ∀ m : ℕ, 2 * (m : ℤ) ≤ 2 * (roundDiv m b * b) + b ∧ 2 * (roundDiv m b * b) ≤ 2 * m + b := by
    intro m
    rw [roundDiv_natCast m hb]
    exact_mod_cast roundDiv_within_natCast m hb
  by_cases ha : 0 ≤ a
  · obtain ⟨m, rfl⟩ := Int.eq_ofNat_of_zero_le ha
    exact hnat m
  · obtain ⟨m, hm⟩ := Int.eq_ofNat_of_zero_le (show 0 ≤ -a by omega)
    obtain rfl : a = -m := by omega
    obtain ⟨h₁, h₂⟩ := hnat m
    rw [roundDiv_neg, neg_mul]
    constructor
    · omega
    · omega

theorem abs_roundDiv_sub (a : ℤ) {b : ℕ} (hb : 0 < b) : |(roundDiv a b : ℚ) - a / b| ≤ 1 / 2 := by
  obtain ⟨h₁, h₂⟩ := roundDiv_within a hb
  have hpos : (0 : ℚ) < b := by exact_mod_cast hb
  have h₁ : 2 * (a : ℚ) ≤ 2 * (roundDiv a b * b) + b := by exact_mod_cast h₁
  have h₂ : 2 * ((roundDiv a b : ℚ) * b) ≤ 2 * a + b := by exact_mod_cast h₂
  have e : (roundDiv a b : ℚ) - a / b = (roundDiv a b * b - a) / b := by field_simp
  rw [e, abs_div, abs_of_pos hpos, div_le_iff₀ hpos, abs_le]
  constructor
  · linarith
  · linarith

/-- The error of a sum is at most a half for each term. -/
theorem abs_sum_roundDiv_sub (l : List ℤ) {b : ℕ} (hb : 0 < b) :
    |((l.map fun a => roundDiv a b).sum : ℚ) - l.sum / b| ≤ l.length / 2 := by
  induction l with
  | nil => simp
  | cons a l ih =>
    have ha := abs_roundDiv_sub a hb
    rw [List.map_cons, List.sum_cons, List.sum_cons, List.length_cons, Int.cast_add, Int.cast_add, Nat.cast_succ,
      add_div]
    have e : (roundDiv a b : ℚ) + (l.map fun a => roundDiv a b).sum - (a / b + l.sum / b) =
        (roundDiv a b - a / b) + ((l.map fun a => roundDiv a b).sum - l.sum / b) := by ring
    rw [e]
    calc |((roundDiv a b : ℚ) - a / b) + ((l.map fun a => roundDiv a b).sum - l.sum / b)|
        ≤ |(roundDiv a b : ℚ) - a / b| + |((l.map fun a => roundDiv a b).sum : ℚ) - l.sum / b| := abs_add_le _ _
      _ ≤ 1 / 2 + l.length / 2 := add_le_add ha ih
      _ = (l.length + 1) / 2 := by ring
