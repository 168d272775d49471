import Mathlib.Algebra.Order.Ring.Int
import Mathlib.Data.Nat.Notation
import Mathlib.Tactic.Linarith
import Mathlib.Tactic.Ring

/-!
# Rounding decimals

`roundDiv a b` is `a / b` rounded to the nearest integer, halves away from zero.
-/

def roundDiv (a : ℤ) (b : ℕ) : ℤ := a.sign * ((2 * a.natAbs + b) / (2 * b) : ℕ)

@[simp] theorem roundDiv_zero (b : ℕ) : roundDiv 0 b = 0 := by simp [roundDiv]

theorem roundDiv_neg (a : ℤ) (b : ℕ) : roundDiv (-a) b = -roundDiv a b := by simp [roundDiv]

theorem roundDiv_nonneg {a : ℤ} (h : 0 ≤ a) (b : ℕ) : 0 ≤ roundDiv a b :=
  mul_nonneg (Int.sign_nonneg_iff.2 h) (Int.natCast_nonneg _)

/-- Rounding a whole number changes nothing. -/
theorem roundDiv_mul_self (a : ℤ) {b : ℕ} (h : 0 < b) : roundDiv (a * b) b = a := by
  have e : (2 * (a * b).natAbs + b) / (2 * b) = a.natAbs := by
    rw [Int.natAbs_mul, Int.natAbs_natCast]
    apply Nat.div_eq_of_lt_le
    · nlinarith
    · nlinarith
  have hs : (a * (b : ℤ)).sign = a.sign := by
    rw [Int.sign_mul, Int.sign_natCast_of_ne_zero (Nat.pos_iff_ne_zero.1 h), mul_one]
  rw [roundDiv, e, hs, Int.sign_mul_natAbs]

theorem roundDiv_natCast (m : ℕ) {b : ℕ} (h : 0 < b) : roundDiv m b = ((2 * m + b) / (2 * b) : ℕ) := by
  rcases Nat.eq_zero_or_pos m with rfl | hm
  · have hz : (2 * 0 + b) / (2 * b) = 0 := Nat.div_eq_of_lt (by omega)
    rw [hz]
    exact roundDiv_zero b
  · rw [roundDiv, Int.natAbs_natCast, Int.sign_natCast_of_ne_zero (by omega), one_mul]

theorem roundDiv_mono {a c : ℤ} (h : a ≤ c) (b : ℕ) : roundDiv a b ≤ roundDiv c b := by
  have hnat : ∀ m n : ℕ, m ≤ n → roundDiv m b ≤ roundDiv n b := by
    intro m n hmn
    rcases b.eq_zero_or_pos with rfl | hb
    · simp [roundDiv]
    · rw [roundDiv_natCast m hb, roundDiv_natCast n hb]
      exact Int.ofNat_le.2 (Nat.div_le_div_right (by omega))
  obtain ⟨m, rfl | rfl⟩ := a.eq_nat_or_neg
  · obtain ⟨n, rfl⟩ := Int.eq_ofNat_of_zero_le ((Int.natCast_nonneg m).trans h)
    exact hnat m n (Int.ofNat_le.1 h)
  · obtain ⟨n, rfl | rfl⟩ := c.eq_nat_or_neg
    · have hm := roundDiv_nonneg (Int.natCast_nonneg m) b
      have hn := roundDiv_nonneg (Int.natCast_nonneg n) b
      rw [roundDiv_neg]
      omega
    · rw [roundDiv_neg, roundDiv_neg]
      exact neg_le_neg (hnat n m (by omega))

theorem roundDiv_nonpos {a : ℤ} (h : a ≤ 0) (b : ℕ) : roundDiv a b ≤ 0 := by
  have hneg := roundDiv_nonneg (show 0 ≤ -a by omega) b
  rw [roundDiv_neg] at hneg
  omega

/-- A factor that does not change a number by half or more does not change a smaller one so. -/
theorem roundDiv_mul_eq_of_le {x t r : ℤ} {b : ℕ} (hb : 0 < b) (hx : 0 ≤ x) (hle : x ≤ t) (ht : 0 < t)
    (h : roundDiv (t * r) b = t) : roundDiv (x * r) b = x := by
  have hr : 0 < r := by
    by_contra hnot
    have hnonpos := roundDiv_nonpos (mul_nonpos_of_nonneg_of_nonpos ht.le (not_lt.1 hnot)) b
    omega
  obtain ⟨r, rfl⟩ := Int.eq_ofNat_of_zero_le hr.le
  obtain ⟨n, rfl⟩ := Int.eq_ofNat_of_zero_le ht.le
  obtain ⟨m, rfl⟩ := Int.eq_ofNat_of_zero_le hx
  rw [← Nat.cast_mul, roundDiv_natCast _ hb, Nat.cast_inj, Nat.div_eq_iff (by omega)] at h ⊢
  have hmn : m ≤ n := by exact_mod_cast hle
  have hn2 : n * (2 * b) = 2 * (n * b) := by ring
  have hm2 : m * (2 * b) = 2 * (m * b) := by ring
  -- the change is proportional to the number
  rcases Nat.le_total r b with hr | hr
  · obtain ⟨k, rfl⟩ := Nat.exists_eq_add_of_le hr
    have hmul : m * k ≤ n * k := Nat.mul_le_mul_right k hmn
    have hm : m * (r + k) = m * r + m * k := Nat.mul_add ..
    have hn : n * (r + k) = n * r + n * k := Nat.mul_add ..
    omega
  · obtain ⟨k, rfl⟩ := Nat.exists_eq_add_of_le hr
    have hmul : m * k ≤ n * k := Nat.mul_le_mul_right k hmn
    have hm : m * (b + k) = m * b + m * k := Nat.mul_add ..
    have hn : n * (b + k) = n * b + n * k := Nat.mul_add ..
    omega

/-- The remainder of the truncated quotient tells which way to round. -/
theorem roundDiv_natCast_mod (m : ℕ) {b : ℕ} (hb : 0 < b) :
    roundDiv m b = if b ≤ m % b * 2 then ((m / b : ℕ) : ℤ) + 1 else (m / b : ℕ) := by
  have hm := Nat.div_add_mod m b
  have hr := Nat.mod_lt m hb
  have e : 2 * m + b = 2 * b * (m / b) + (2 * (m % b) + b) := by
    rw [mul_assoc]
    omega
  rw [roundDiv_natCast m hb, e, Nat.mul_add_div (by omega)]
  split
  · have hone : (2 * (m % b) + b) / (2 * b) = 1 := Nat.div_eq_of_lt_le (by omega) (by omega)
    rw [hone, Nat.cast_add, Nat.cast_one]
  · have hzero : (2 * (m % b) + b) / (2 * b) = 0 := Nat.div_eq_of_lt (by omega)
    rw [hzero, Nat.add_zero]

/-- Rounding truncates when the remainder is less than half. -/
theorem roundDiv_eq_tdiv_iff (a : ℤ) {b : ℕ} (hb : 0 < b) : roundDiv a b = a.tdiv b ↔ 2 * (a.natAbs % b) < b := by
  have hnat : ∀ m : ℕ, roundDiv m b = (m : ℤ).tdiv b ↔ 2 * (m % b) < b := by
    intro m
    rw [roundDiv_natCast_mod m hb, ← Int.ofNat_tdiv]
    split
    · omega
    · omega
  by_cases ha : 0 ≤ a
  · obtain ⟨m, rfl⟩ := Int.eq_ofNat_of_zero_le ha
    exact hnat m
  · obtain ⟨m, hm⟩ := Int.eq_ofNat_of_zero_le (show 0 ≤ -a by omega)
    obtain rfl : a = -m := by omega
    rw [roundDiv_neg, Int.neg_tdiv, neg_inj, Int.natAbs_neg]
    exact hnat m

/-- Rounding does not depend on the unit. -/
theorem roundDiv_mul_right (n : ℤ) (b : ℕ) {c : ℕ} (hc : 0 < c) : roundDiv (n * c) (b * c) = roundDiv n b := by
  have hs : (n * (c : ℤ)).sign = n.sign := by
    rw [Int.sign_mul, Int.sign_natCast_of_ne_zero (by omega), mul_one]
  have e : (2 * (n * (c : ℤ)).natAbs + b * c) / (2 * (b * c)) = (2 * n.natAbs + b) / (2 * b) := by
    rw [Int.natAbs_mul, Int.natAbs_natCast, ← mul_assoc, ← mul_assoc, ← add_mul]
    exact Nat.mul_div_mul_right _ _ hc
  rw [roundDiv, roundDiv, hs, e]

/-! ### Rounding two numbers -/

/-- A half of `b` lies above `n` and not above `m`. -/
def HalfBetween (b n m : ℕ) : Prop := ∃ j, 2 * n < b * (2 * j + 1) ∧ b * (2 * j + 1) ≤ 2 * m

theorem not_halfBetween_self (b n : ℕ) : ¬HalfBetween b n n := fun ⟨_, h₁, h₂⟩ => absurd h₁ (by omega)

/-- A unit more has a half on the way. -/
theorem halfBetween_of_add_le {b n m : ℕ} (hb : 0 < b) (h : n + b ≤ m) : HalfBetween b n m := by
  refine ⟨(2 * n + b) / (2 * b), ?_, ?_⟩
  · have hlt := Nat.lt_div_mul_add (a := 2 * n + b) (show 0 < 2 * b by omega)
    nlinarith
  · have hle := Nat.div_mul_le_self (2 * n + b) (2 * b)
    nlinarith

/-- Two numbers round differently when a half is between them. -/
theorem roundDiv_eq_roundDiv_iff {b n m : ℕ} (hb : 0 < b) (h : n ≤ m) :
    roundDiv n b = roundDiv m b ↔ ¬HalfBetween b n m := by
  have hlt := Nat.lt_div_mul_add (a := 2 * n + b) (show 0 < 2 * b by omega)
  rw [roundDiv_natCast n hb, roundDiv_natCast m hb, Nat.cast_inj]
  constructor
  · rintro heq ⟨j, hn, hm⟩
    have hj : (2 * n + b) / (2 * b) < j + 1 := (Nat.div_lt_iff_lt_mul (by omega)).2 (by nlinarith)
    have hj' : j + 1 ≤ (2 * m + b) / (2 * b) := (Nat.le_div_iff_mul_le (by omega)).2 (by nlinarith)
    omega
  · intro hnone
    have hle : (2 * n + b) / (2 * b) ≤ (2 * m + b) / (2 * b) := Nat.div_le_div_right (by omega)
    by_contra hne
    have hsucc : (2 * n + b) / (2 * b) + 1 ≤ (2 * m + b) / (2 * b) := by omega
    have hmul := (Nat.le_div_iff_mul_le (show 0 < 2 * b by omega)).1 hsucc
    exact hnone ⟨(2 * n + b) / (2 * b), by nlinarith, by nlinarith⟩

theorem roundDiv_sign_mul_eq_iff {s : ℤ} {b n m : ℕ} (hs : s = 1 ∨ s = -1) (hb : 0 < b) (h : n ≤ m) :
    roundDiv (s * n) b = roundDiv (s * m) b ↔ ¬HalfBetween b n m := by
  rw [← roundDiv_eq_roundDiv_iff hb h]
  rcases hs with rfl | rfl
  · rw [one_mul, one_mul]
  · rw [neg_one_mul, neg_one_mul, roundDiv_neg, roundDiv_neg, neg_inj]

/-! ### Rounding twice -/

/-- Rounding `n` first to multiples of `2 * a` carries it over a half of `2 * h`. -/
def RoundsTwice (a h : ℕ) (n : ℤ) : Prop := h ≤ n.natAbs % (2 * h) + a ∧ n.natAbs % (2 * h) < h

instance (a h : ℕ) (n : ℤ) : Decidable (RoundsTwice a h n) := inferInstanceAs (Decidable (_ ∧ _))

theorem RoundsTwice.neg {a h : ℕ} {n : ℤ} : RoundsTwice a h (-n) ↔ RoundsTwice a h n := by
  rw [RoundsTwice, RoundsTwice, Int.natAbs_neg]

/-- Only the remainder decides whether `a` carries. -/
theorem add_div_carry (m : ℕ) {a h : ℕ} (hh : 0 < h) (ha : a ≤ h) :
    (m + a + h) / (2 * h) = (m + h) / (2 * h) + if RoundsTwice a h m then 1 else 0 := by
  have hc : RoundsTwice a h m ↔ h ≤ m % (2 * h) + a ∧ m % (2 * h) < h := by rw [RoundsTwice, Int.natAbs_natCast]
  have hr := Nat.mod_lt m (show 0 < 2 * h by omega)
  have hadd : ∀ k, (m + k) / (2 * h) = (m % (2 * h) + k) / (2 * h) + m / (2 * h) := by
    intro k
    have hd := Nat.div_add_mod m (2 * h)
    calc (m + k) / (2 * h) = (2 * h * (m / (2 * h)) + (m % (2 * h) + k)) / (2 * h) := by rw [← Nat.add_assoc, hd]
      _ = (m % (2 * h) + k) / (2 * h) + m / (2 * h) := by rw [Nat.mul_add_div (by omega), Nat.add_comm]
  rw [Nat.add_assoc, hadd, hadd]
  by_cases hcarry : RoundsTwice a h m
  · have hm := hc.1 hcarry
    have h₀ : (m % (2 * h) + h) / (2 * h) = 0 := Nat.div_eq_of_lt (by omega)
    have h₁ : (m % (2 * h) + (a + h)) / (2 * h) = 1 := Nat.div_eq_of_lt_le (by omega) (by omega)
    rw [if_pos hcarry, h₀, h₁]
    omega
  · have hm := mt hc.2 hcarry
    have he : (m % (2 * h) + (a + h)) / (2 * h) = (m % (2 * h) + h) / (2 * h) := by
      by_cases hlt : m % (2 * h) < h
      · have h₀ : (m % (2 * h) + h) / (2 * h) = 0 := Nat.div_eq_of_lt (by omega)
        have h₁ : (m % (2 * h) + (a + h)) / (2 * h) = 0 := Nat.div_eq_of_lt (by omega)
        rw [h₀, h₁]
      · have h₀ : (m % (2 * h) + h) / (2 * h) = 1 := Nat.div_eq_of_lt_le (by omega) (by omega)
        have h₁ : (m % (2 * h) + (a + h)) / (2 * h) = 1 := Nat.div_eq_of_lt_le (by omega) (by omega)
        rw [h₀, h₁]
    rw [if_neg hcarry, he, Nat.add_zero]

theorem roundDiv_roundDiv_natCast (m : ℕ) {a b : ℕ} (ha : 0 < a) (hb : 0 < b) :
    roundDiv (roundDiv m (2 * a)) (2 * b) =
      roundDiv m (2 * (2 * a * b)) + if RoundsTwice a (2 * a * b) m then 1 else 0 := by
  have hab : a ≤ 2 * a * b := by nlinarith
  have e₁ : (2 * m + 2 * a) / (2 * (2 * a)) = (m + a) / (2 * a) := by
    rw [← Nat.mul_add]
    exact Nat.mul_div_mul_left _ _ (by omega)
  have e₂ : (2 * ((m + a) / (2 * a)) + 2 * b) / (2 * (2 * b)) = (m + a + 2 * a * b) / (2 * (2 * a * b)) := by
    have hmul : (m + a) / (2 * a) + b = (m + a + 2 * a * b) / (2 * a) := (Nat.add_mul_div_left _ _ (by omega)).symm
    rw [← Nat.mul_add, Nat.mul_div_mul_left _ _ (by omega), hmul, Nat.div_div_eq_div_mul]
    congr 1
    ring
  have e₃ : (2 * m + 2 * (2 * a * b)) / (2 * (2 * (2 * a * b))) = (m + 2 * a * b) / (2 * (2 * a * b)) := by
    rw [← Nat.mul_add]
    exact Nat.mul_div_mul_left _ _ (by omega)
  rw [roundDiv_natCast _ (by omega), roundDiv_natCast _ (by omega), roundDiv_natCast _ (by omega), e₁, e₂, e₃,
    add_div_carry m (by omega) hab]
  split
  · push_cast
    rfl
  · push_cast
    rfl

/-- Two roundings in a row are one rounding, up to the carry. -/
theorem roundDiv_roundDiv (n : ℤ) {a b : ℕ} (ha : 0 < a) (hb : 0 < b) :
    roundDiv (roundDiv n (2 * a)) (2 * b) =
      roundDiv n (2 * (2 * a * b)) + if RoundsTwice a (2 * a * b) n then (if 0 ≤ n then 1 else -1) else 0 := by
  by_cases hn : 0 ≤ n
  · obtain ⟨m, rfl⟩ := Int.eq_ofNat_of_zero_le hn
    rw [if_pos hn]
    exact roundDiv_roundDiv_natCast m ha hb
  · obtain ⟨m, hm⟩ := Int.eq_ofNat_of_zero_le (show 0 ≤ -n by omega)
    obtain rfl : n = -m := by omega
    rw [if_neg hn, roundDiv_neg, roundDiv_neg, roundDiv_neg, roundDiv_roundDiv_natCast m ha hb]
    simp only [RoundsTwice.neg]
    split
    · ring
    · ring
