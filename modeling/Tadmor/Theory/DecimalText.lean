import Mathlib.Data.List.TakeWhile
import Tadmor.Theory.Decimal

/-!
# Decimals as text

A `Spelling` is a decimal as it is written: an optional sign, digits, and optionally a point and more digits, with a
digit at least.  Its text determines it, and `spell` finds it.
-/

/-! ### Digits -/

/-- The number that the digits spell. -/
def numeral (cs : List Char) : ℕ := Nat.ofDigitChars 10 cs 0

theorem numeral_append (xs ys : List Char) : numeral (xs ++ ys) = numeral xs * 10 ^ ys.length + numeral ys := by
  rw [numeral, Nat.ofDigitChars_append, Nat.ofDigitChars_eq_ofDigitChars_zero, mul_comm]
  rfl

theorem numeral_cons (c : Char) (cs : List Char) :
    numeral (c :: cs) = (c.toNat - '0'.toNat) * 10 ^ cs.length + numeral cs := by
  rw [numeral, Nat.ofDigitChars_cons, Nat.ofDigitChars_eq_ofDigitChars_zero, mul_zero, zero_add, mul_comm]
  rfl

theorem numeral_replicate (n : ℕ) : numeral (List.replicate n '0') = 0 := by
  rw [numeral, Nat.ofDigitChars_replicate_zero, mul_zero]

theorem numeral_digitChar {n : ℕ} (h : n < 10) : numeral [n.digitChar] = n := by
  rw [numeral, Nat.ofDigitChars_cons_digitChar_of_lt_ten h, Nat.ofDigitChars_nil, mul_zero, zero_add]

theorem numeral_toDigits (n : ℕ) : numeral (Nat.toDigits 10 n) = n := Nat.ofDigitChars_ten_toDigits

theorem isDigit_bounds {c : Char} (h : c.isDigit = true) : 48 ≤ c.toNat ∧ c.toNat ≤ 57 := by
  simp only [Char.isDigit, Bool.and_eq_true, decide_eq_true_eq] at h
  exact ⟨h.1, h.2⟩

theorem numeral_lt {cs : List Char} (h : ∀ c ∈ cs, c.isDigit = true) : numeral cs < 10 ^ cs.length := by
  induction cs with
  | nil => simp [numeral]
  | cons c cs ih =>
    have hc := isDigit_bounds (h c (List.mem_cons_self ..))
    have ih := ih fun d hd => h d (List.mem_cons_of_mem _ hd)
    have hz : '0'.toNat = 48 := rfl
    have hle : (c.toNat - 48) * 10 ^ cs.length ≤ 9 * 10 ^ cs.length := Nat.mul_le_mul_right _ (by omega)
    rw [numeral_cons, hz, List.length_cons, pow_succ]
    omega

/-- Digits spell zero when all are zeros. -/
theorem numeral_eq_zero {cs : List Char} (h : ∀ c ∈ cs, c.isDigit = true) : numeral cs = 0 ↔ ∀ c ∈ cs, c = '0' := by
  induction cs with
  | nil => simp [numeral]
  | cons c cs ih =>
    have hc := isDigit_bounds (h c (List.mem_cons_self ..))
    have ih := ih fun d hd => h d (List.mem_cons_of_mem _ hd)
    have hpow : 10 ^ cs.length ≠ 0 := by positivity
    rw [numeral_cons, Nat.add_eq_zero_iff, Nat.mul_eq_zero, or_iff_left hpow, ih, List.forall_mem_cons]
    refine and_congr_left fun _ => ?_
    have hz : '0'.toNat = 48 := rfl
    constructor
    · intro hle
      exact Char.toNat_inj.1 (by omega)
    · rintro rfl
      rfl

/-- The last `k` digits of a number. -/
def places : ℕ → ℕ → List Char
  | 0, _ => []
  | k + 1, n => places k (n / 10) ++ [(n % 10).digitChar]

theorem length_places (k n : ℕ) : (places k n).length = k := by
  induction k generalizing n with
  | zero => rfl
  | succ k ih => rw [places, List.length_append, ih, List.length_singleton]

theorem isDigit_of_mem_places {k n : ℕ} {c : Char} (h : c ∈ places k n) : c.isDigit = true := by
  induction k generalizing n with
  | zero => cases h
  | succ k ih =>
    rw [places, List.mem_append, List.mem_singleton] at h
    rcases h with h | rfl
    · exact ih h
    · rw [Nat.isDigit_digitChar]
      exact decide_eq_true (Nat.mod_lt n (by omega))

theorem numeral_places (k n : ℕ) : numeral (places k n) = n % 10 ^ k := by
  induction k generalizing n with
  | zero => rw [pow_zero, Nat.mod_one]; rfl
  | succ k ih =>
    rw [places, numeral_append, ih, numeral_digitChar (Nat.mod_lt n (by omega)), List.length_singleton, pow_one,
      pow_succ', Nat.mod_mul]
    ring

/-- The digits of a number are those of a quotient and the last ones, when it has that many. -/
theorem leftpad_toDigits (k n : ℕ) :
    (Nat.toDigits 10 n).leftpad (k + 1) '0' = Nat.toDigits 10 (n / 10 ^ k) ++ places k n := by
  induction k generalizing n with
  | zero =>
    have hpos := Nat.length_toDigits_pos (b := 10) (n := n)
    have hz : 0 + 1 - (Nat.toDigits 10 n).length = 0 := by omega
    rw [List.leftpad, hz, pow_zero, Nat.div_one, places]
    simp
  | succ k ih =>
    have hdiv : n / 10 ^ (k + 1) = n / 10 / 10 ^ k := by rw [pow_succ', Nat.div_div_eq_div_mul]
    rw [places, hdiv, ← List.append_assoc, ← ih]
    by_cases hn : n < 10
    · have hz : n / 10 = 0 := Nat.div_eq_of_lt hn
      rw [Nat.toDigits_of_lt_base hn, hz, Nat.toDigits_zero, Nat.mod_eq_of_lt hn, List.leftpad, List.leftpad]
      simp only [List.length_singleton, Nat.add_sub_cancel]
      rw [← List.replicate_succ', List.append_cancel_right_eq]
    · rw [Nat.toDigits_of_base_le (by omega) (by omega), List.leftpad, List.leftpad, ← List.append_assoc]
      simp only [List.length_append, List.length_singleton, Nat.add_sub_add_right]

/-! ### Spellings -/

/-- A decimal as it is written; `frac` is there when the point is. -/
@[ext] structure Spelling where
  neg : Bool
  whole : List Char
  frac : Option (List Char)
  digits : ∀ c ∈ whole ++ frac.getD [], c.isDigit = true
  nonempty : whole ++ frac.getD [] ≠ []

namespace Spelling

/-- The point with the digits behind it. -/
def point (p : Spelling) : List Char := p.frac.elim [] fun f => '.' :: f

def text (p : Spelling) : List Char := (if p.neg then ['-'] else []) ++ (p.whole ++ p.point)

def value (p : Spelling) : Decimal :=
  ⟨(if p.neg then -1 else 1) * numeral (p.whole ++ p.frac.getD []), (p.frac.getD []).length⟩

theorem value_eq_zero {p : Spelling} : p.value.toRat = 0 ↔ ∀ c ∈ p.whole ++ p.frac.getD [], c = '0' := by
  have hsign : (if p.neg then -1 else 1 : ℤ) ≠ 0 := by
    split
    · decide
    · decide
  rw [Decimal.toRat_eq_zero, value, mul_eq_zero, or_iff_right hsign, Int.natCast_eq_zero, numeral_eq_zero p.digits]

/-! ### Cutting at a place -/

def sgn (p : Spelling) : ℤ := if p.neg then -1 else 1

theorem sgn_eq (p : Spelling) : p.sgn = 1 ∨ p.sgn = -1 := by
  rw [sgn]
  split
  · exact .inr rfl
  · exact .inl rfl

theorem natAbs_sgn_mul (p : Spelling) (n : ℕ) : (p.sgn * (n : ℤ)).natAbs = n := by
  rcases p.sgn_eq with h | h
  · rw [h, one_mul, Int.natAbs_natCast]
  · rw [h, neg_one_mul, Int.natAbs_neg, Int.natAbs_natCast]

/-- The number that the digits down to the place `s` spell. -/
def cut (s : ℕ) (p : Spelling) : ℕ := numeral (p.whole ++ ((p.frac.getD []).rightpad s '0').take s)

theorem cut_of_le {s : ℕ} {p : Spelling} (h : (p.frac.getD []).length ≤ s) :
    p.cut s = numeral (p.whole ++ p.frac.getD []) * 10 ^ (s - (p.frac.getD []).length) := by
  have hlen : ((p.frac.getD []).rightpad s '0').length ≤ s := by
    rw [List.length_rightpad]
    omega
  rw [cut, List.take_of_length_le hlen, List.rightpad, ← List.append_assoc, numeral_append, numeral_replicate,
    List.length_replicate, Nat.add_zero]

/-- The digits behind the place `s` are the remainder. -/
theorem numeral_eq_cut {s : ℕ} {p : Spelling} (h : s < (p.frac.getD []).length) :
    numeral (p.whole ++ p.frac.getD []) =
      p.cut s * 10 ^ ((p.frac.getD []).length - s) + numeral ((p.frac.getD []).drop s) := by
  have hpad : (p.frac.getD []).rightpad s '0' = p.frac.getD [] := by
    rw [List.rightpad, Nat.sub_eq_zero_of_le (by omega), List.replicate_zero, List.append_nil]
  rw [cut, hpad, ← List.length_drop, ← numeral_append, List.append_assoc, List.take_append_drop]

theorem numeral_drop_lt {s : ℕ} {p : Spelling} :
    numeral ((p.frac.getD []).drop s) < 10 ^ ((p.frac.getD []).length - s) := by
  rw [← List.length_drop]
  exact numeral_lt fun c hc => p.digits c (List.mem_append_right _ (List.mem_of_mem_drop hc))

/-- To truncate a decimal is to cut its text. -/
theorem coeff_trunc (s : ℕ) (p : Spelling) :
    (p.value.trunc s).coeff = p.sgn * (p.cut s : ℤ) := by
  rw [Decimal.trunc, value, ← sgn]
  by_cases h : (p.frac.getD []).length ≤ s
  · rw [if_pos h, Decimal.coeffAt, cut_of_le h, mul_assoc]
    push_cast
    rfl
  · have hpow : 0 < 10 ^ ((p.frac.getD []).length - s) := by positivity
    have hdiv : numeral (p.whole ++ p.frac.getD []) / 10 ^ ((p.frac.getD []).length - s) = p.cut s := by
      rw [numeral_eq_cut (s := s) (by omega), mul_comm, Nat.mul_add_div hpow, Nat.div_eq_of_lt numeral_drop_lt,
        Nat.add_zero]
    have hcast : ((10 : ℤ) ^ ((p.frac.getD []).length - s)) = ((10 ^ ((p.frac.getD []).length - s) : ℕ) : ℤ) := by
      rw [Int.natCast_pow]
      rfl
    rw [if_neg h, ← hdiv, hcast]
    rcases p.sgn_eq with hs | hs
    · rw [hs, one_mul, one_mul, ← Int.ofNat_tdiv]
    · rw [hs, neg_one_mul, neg_one_mul, Int.neg_tdiv, ← Int.ofNat_tdiv]

/-- Rounding keeps the sign and does not come nearer to zero than truncating. -/
theorem exists_coeff_round (s : ℕ) (p : Spelling) :
    ∃ m : ℕ, (p.value.round s).coeff = p.sgn * (m : ℤ) ∧ p.cut s ≤ m := by
  by_cases h : (p.frac.getD []).length ≤ s
  · have htrunc : (p.value.round s).coeff = (p.value.trunc s).coeff := (if_pos h).trans (if_pos h).symm
    exact ⟨p.cut s, htrunc.trans (p.coeff_trunc s), le_rfl⟩
  · have hpow : 0 < 10 ^ ((p.frac.getD []).length - s) := by positivity
    have hround : (p.value.round s).coeff =
        roundDiv (p.sgn * numeral (p.whole ++ p.frac.getD [])) (10 ^ ((p.frac.getD []).length - s)) := if_neg h
    refine ⟨(2 * numeral (p.whole ++ p.frac.getD []) + 10 ^ ((p.frac.getD []).length - s)) /
      (2 * 10 ^ ((p.frac.getD []).length - s)), ?_, ?_⟩
    · rw [hround, ← roundDiv_natCast _ hpow]
      rcases p.sgn_eq with hs | hs
      · rw [hs, one_mul, one_mul]
      · rw [hs, neg_one_mul, neg_one_mul, roundDiv_neg]
    · rw [numeral_eq_cut (s := s) (by omega), Nat.le_div_iff_mul_le (by omega)]
      nlinarith

/-- Rounding to `s` places truncates when the digit behind them is below 5. -/
theorem round_eq_trunc_iff {s : ℕ} {p : Spelling} :
    p.value.round s = p.value.trunc s ↔ ∀ c, (p.frac.getD [])[s]? = some c → c.toNat < '5'.toNat := by
  have hpow : 0 < 10 ^ ((p.frac.getD []).length - s) := by positivity
  have hcast : (10 : ℤ) ^ ((p.frac.getD []).length - s) = ((10 ^ ((p.frac.getD []).length - s) : ℕ) : ℤ) := by
    rw [Int.natCast_pow]
    rfl
  rw [Decimal.ext_iff, and_iff_left (show (p.value.round s).scale = (p.value.trunc s).scale from rfl), Decimal.round,
    Decimal.trunc, value]
  by_cases h : (p.frac.getD []).length ≤ s
  · rw [if_pos h, if_pos h, List.getElem?_eq_none h]
    exact iff_of_true rfl fun c hc => by cases hc
  · have hlt : s < (p.frac.getD []).length := by omega
    have hdrop := List.drop_eq_getElem_cons hlt
    have hlen : (p.frac.getD []).length - s = (p.frac.getD []).length - (s + 1) + 1 := by omega
    have hrest := numeral_drop_lt (s := s + 1) (p := p)
    have hd := isDigit_bounds (p.digits _ (List.mem_append_right _ (List.getElem_mem hlt)))
    rw [if_neg h, if_neg h, hcast, roundDiv_eq_tdiv_iff _ hpow, ← sgn, natAbs_sgn_mul, numeral_eq_cut hlt,
      Nat.mul_add_mod_self_right, Nat.mod_eq_of_lt numeral_drop_lt, hdrop, numeral_cons, List.length_drop, hlen, pow_succ,
      List.getElem?_eq_getElem hlt]
    have h0 : '0'.toNat = 48 := rfl
    have h5 : '5'.toNat = 53 := rfl
    rw [h0, h5]
    constructor
    · intro hhalf c hc
      obtain rfl := Option.some.inj hc
      by_contra hge
      have hmul : 5 * 10 ^ ((p.frac.getD []).length - (s + 1)) ≤
          ((p.frac.getD [])[s].toNat - 48) * 10 ^ ((p.frac.getD []).length - (s + 1)) :=
        Nat.mul_le_mul_right _ (by omega)
      omega
    · intro hfive
      have h5 := hfive _ rfl
      have hmul : ((p.frac.getD [])[s].toNat - 48) * 10 ^ ((p.frac.getD []).length - (s + 1)) ≤
          4 * 10 ^ ((p.frac.getD []).length - (s + 1)) := Nat.mul_le_mul_right _ (by omega)
      omega

/-- The characters of a text are its digits, and the sign and the point if they are there. -/
theorem forall_mem_text {p : Spelling} {P : Char → Prop} (hsign : P '-') (hpoint : P '.') :
    (∀ c ∈ p.text, P c) ↔ ∀ c ∈ p.whole ++ p.frac.getD [], P c := by
  have hs : ∀ c ∈ (if p.neg then ['-'] else []), P c := by
    intro c hc
    split at hc
    · rw [List.mem_singleton.1 hc]
      exact hsign
    · cases hc
  have hp : (∀ c ∈ p.point, P c) ↔ ∀ c ∈ p.frac.getD [], P c := by
    rw [point]
    cases p.frac with
    | none => rfl
    | some f => simp [hpoint]
  rw [text, List.forall_mem_append, and_iff_right hs, List.forall_mem_append, List.forall_mem_append, hp]

/-- The spelling of these parts, if they are one. -/
def ofParts (neg : Bool) (whole : List Char) (frac : Option (List Char)) : Option Spelling :=
  if h : (whole ++ frac.getD []).all Char.isDigit = true ∧ whole ++ frac.getD [] ≠ [] then
    some ⟨neg, whole, frac, List.all_eq_true.1 h.1, h.2⟩
  else none

theorem ofParts_eq_some {neg : Bool} {whole : List Char} {frac : Option (List Char)} {p : Spelling} :
    ofParts neg whole frac = some p ↔ p.neg = neg ∧ p.whole = whole ∧ p.frac = frac := by
  rw [ofParts]
  constructor
  · intro h
    split at h
    · obtain rfl := Option.some.inj h
      exact ⟨rfl, rfl, rfl⟩
    · cases h
  · rintro ⟨rfl, rfl, rfl⟩
    exact dif_pos ⟨List.all_eq_true.2 p.digits, p.nonempty⟩

/-- Reads the text after the sign. -/
def ofBody (neg : Bool) (body : List Char) : Option Spelling :=
  match body.dropWhile Char.isDigit with
  | [] => ofParts neg (body.takeWhile Char.isDigit) none
  | c :: f => if c = '.' then ofParts neg (body.takeWhile Char.isDigit) (some f) else none

theorem ofBody_eq_some {neg : Bool} {body : List Char} {p : Spelling} :
    ofBody neg body = some p ↔ p.neg = neg ∧ p.whole ++ p.point = body := by
  constructor
  · intro h
    have hsplit := List.takeWhile_append_dropWhile (p := Char.isDigit) (l := body)
    rw [ofBody] at h
    cases hd : body.dropWhile Char.isDigit with
    | nil =>
      rw [hd] at h hsplit
      obtain ⟨hneg, hwhole, hfrac⟩ := ofParts_eq_some.1 h
      rw [point, hwhole, hfrac]
      exact ⟨hneg, hsplit⟩
    | cons c f =>
      rw [hd] at h hsplit
      by_cases hc : c = '.'
      · obtain ⟨hneg, hwhole, hfrac⟩ := ofParts_eq_some.1 ((if_pos hc).symm.trans h)
        rw [point, hwhole, hfrac, ← hc]
        exact ⟨hneg, hsplit⟩
      · cases (if_neg hc).symm.trans h
  · rintro ⟨rfl, rfl⟩
    have hwhole : ∀ c ∈ p.whole, c.isDigit = true := fun c hc => p.digits c (List.mem_append_left _ hc)
    have hpoint : p.point.takeWhile Char.isDigit = [] := by
      rw [point]
      cases p.frac with
      | none => rfl
      | some f => rfl
    rw [ofBody, List.dropWhile_append_of_pos hwhole, List.takeWhile_append_of_pos hwhole, hpoint, List.append_nil, point]
    cases hf : p.frac with
    | none => exact ofParts_eq_some.2 ⟨rfl, rfl, hf⟩
    | some f => exact ofParts_eq_some.2 ⟨rfl, rfl, hf⟩

/-- What follows the sign does not start with one. -/
theorem head?_body (p : Spelling) : (p.whole ++ p.point).head? ≠ some '-' := by
  obtain ⟨neg, whole, frac, hd, hne⟩ := p
  cases whole with
  | nil =>
    cases frac with
    | none => simp [point]
    | some f => simp [point]
  | cons c whole =>
    have hc := hd c (by simp)
    simp only [List.cons_append, List.head?_cons, ne_eq, Option.some.injEq]
    rintro rfl
    cases hc

end Spelling

/-- The spelling of a text. -/
def spell : List Char → Option Spelling
  | [] => none
  | c :: cs => if c = '-' then Spelling.ofBody true cs else Spelling.ofBody false (c :: cs)

theorem spell_eq_some {cs : List Char} {p : Spelling} : spell cs = some p ↔ p.text = cs := by
  have hhead := p.head?_body
  cases cs with
  | nil =>
    refine ⟨fun h => (by cases h), fun h => absurd h ?_⟩
    rw [Spelling.text, List.append_eq_nil_iff, List.append_eq_nil_iff]
    rintro ⟨-, hwhole, hpoint⟩
    refine p.nonempty ?_
    rw [hwhole, List.nil_append]
    cases hf : p.frac with
    | none => rfl
    | some f =>
      rw [Spelling.point, hf] at hpoint
      cases hpoint
  | cons c cs =>
    rw [spell, Spelling.text]
    by_cases hc : c = '-'
    · rw [if_pos hc, Spelling.ofBody_eq_some]
      cases hn : p.neg with
      | false =>
        simp only [Bool.false_eq_true, false_and, if_false, List.nil_append, false_iff]
        intro hbody
        rw [hbody, List.head?_cons, hc] at hhead
        exact hhead rfl
      | true => simp [hc]
    · rw [if_neg hc, Spelling.ofBody_eq_some]
      cases hn : p.neg with
      | false => simp
      | true =>
        simp only [Bool.true_eq_false, false_and, if_true, List.cons_append, List.nil_append, List.cons.injEq, false_iff,
          not_and]
        exact fun h => absurd h.symm hc

theorem Spelling.text_injective : Function.Injective Spelling.text := by
  intro p q h
  exact Option.some.inj ((spell_eq_some.2 rfl).symm.trans (spell_eq_some.2 h.symm))

/-! ### The text of a decimal -/

namespace Decimal

/-- All the places of the scale are written, and a digit at least before the point. -/
def spelling (d : Decimal) : Spelling where
  neg := d.coeff < 0
  whole := Nat.toDigits 10 (d.coeff.natAbs / 10 ^ d.scale)
  frac := if d.scale = 0 then none else some (places d.scale d.coeff.natAbs)
  digits := by
    intro c hc
    rcases List.mem_append.1 hc with hc | hc
    · exact Nat.isDigit_of_mem_toDigits (by omega) (by omega) hc
    · split at hc
      · cases hc
      · exact isDigit_of_mem_places hc
  nonempty := fun h => Nat.toDigits_ne_nil (List.append_eq_nil_iff.1 h).1

def text (d : Decimal) : List Char := d.spelling.text

theorem getD_frac_spelling (d : Decimal) : d.spelling.frac.getD [] = places d.scale d.coeff.natAbs := by
  show (if d.scale = 0 then none else some (places d.scale d.coeff.natAbs)).getD [] = _
  by_cases h : d.scale = 0
  · rw [if_pos h, h]
    rfl
  · rw [if_neg h]
    rfl

theorem value_spelling (d : Decimal) : d.spelling.value = d := by
  have hnum : numeral (d.spelling.whole ++ d.spelling.frac.getD []) = d.coeff.natAbs := by
    rw [getD_frac_spelling, numeral_append, length_places, numeral_places]
    exact (congrArg (· * 10 ^ d.scale + _) (numeral_toDigits _)).trans (Nat.div_add_mod' _ _)
  have hsign : (if decide (d.coeff < 0) then -1 else 1) * (d.coeff.natAbs : ℤ) = d.coeff := by
    by_cases hneg : d.coeff < 0
    · rw [if_pos (decide_eq_true hneg)]
      omega
    · rw [if_neg (mt of_decide_eq_true hneg)]
      omega
  rw [Spelling.value, hnum, getD_frac_spelling, length_places]
  exact Decimal.ext hsign rfl

theorem text_injective : Function.Injective text := by
  intro a b h
  rw [← value_spelling a, ← value_spelling b, Spelling.text_injective h]

end Decimal
