import Tadmor.Model.LinePreview

/-!
# The preview against the stored amounts

The client truncates a text behind the fourth place and the column rounds it.  From then on both compute alike, so the
preview of a line shows what is stored unless the ten-thousandths that the client loses carry a product over a half.
-/

namespace Preview

open Banking (Text amountRE numericIn)

/-! ### The client's arithmetic -/

theorem roundDivBigint_eq (n : ℤ) {d : ℕ} (hd : 0 < d) : roundDivBigint n d = roundDiv n d := by
  by_cases hn : 0 ≤ n
  · obtain ⟨m, rfl⟩ := Int.eq_ofNat_of_zero_le hn
    rw [roundDivBigint, roundDiv_natCast_mod m hd, ← Int.ofNat_tdiv, ← Int.ofNat_tmod]
    have hneg : ¬-(((m % d : ℕ) : ℤ) * 2) ≥ d := by omega
    simp only [if_neg hneg]
    by_cases h : d ≤ m % d * 2
    · rw [if_pos h, if_pos (by omega)]
    · rw [if_neg h, if_neg (by omega)]
  · obtain ⟨m, hm⟩ := Int.eq_ofNat_of_zero_le (show 0 ≤ -n by omega)
    obtain rfl : n = -m := by omega
    rw [roundDivBigint, roundDiv_neg, roundDiv_natCast_mod m hd, Int.neg_tdiv, Int.neg_tmod, ← Int.ofNat_tdiv,
      ← Int.ofNat_tmod]
    have hpos : ¬-((m % d : ℕ) : ℤ) * 2 ≥ d := by omega
    simp only [if_neg hpos]
    by_cases h : d ≤ m % d * 2
    · rw [if_pos h, if_pos (by omega)]
      omega
    · rw [if_neg h, if_neg (by omega)]

/-- The digits of an amount, filled up to five, are split before the last four. -/
theorem fromUnits_eq (n : ℤ) : fromUnits n = (Decimal.mk n 4).text := by
  have hlen : (Nat.toDigits 10 (n.natAbs / 10 ^ 4) ++ places 4 n.natAbs).length - 4 =
      (Nat.toDigits 10 (n.natAbs / 10 ^ 4)).length := by
    rw [List.length_append, length_places, Nat.add_sub_cancel]
  rw [fromUnits, scale, leftpad_toDigits]
  simp only [hlen]
  rw [List.take_left, List.drop_left, List.append_assoc]
  by_cases hn : n < 0
  · have htext : (Decimal.mk n 4).text = ['-'] ++ _ := congrArg (· ++ _) (if_pos (decide_eq_true hn))
    rw [if_pos hn, htext]
    rfl
  · have htext : (Decimal.mk n 4).text = [] ++ _ := congrArg (· ++ _) (if_neg (mt of_decide_eq_true hn))
    rw [if_neg hn, htext]
    rfl

theorem point_notMem {cs : List Char} (h : ∀ c ∈ cs, c.isDigit = true) : '.' ∉ cs := fun hm => by
  have hd := h _ hm
  cases hd

/-- Splitting at the points finds the parts of the text. -/
theorem splitOn_body (p : Spelling) :
    (p.whole ++ p.point).splitOn '.' = p.whole :: (p.frac.elim [] fun f => [f]) := by
  have hwhole := point_notMem fun c hc => p.digits c (List.mem_append_left _ hc)
  have hfrac := point_notMem fun c hc => p.digits c (List.mem_append_right p.whole hc)
  rw [Spelling.point]
  cases hf : p.frac with
  | none =>
    show (p.whole ++ []).splitOn '.' = [p.whole]
    rw [List.append_nil, List.splitOn_eq_singleton hwhole]
  | some f =>
    rw [hf] at hfrac
    have hfrac : '.' ∉ f := hfrac
    show (p.whole ++ '.' :: f).splitOn '.' = [p.whole, f]
    rw [List.splitOn_append_cons_self_of_not_mem hwhole, List.splitOn_eq_singleton hfrac]

theorem toUnits_text (p : Spelling) : toUnits p.text = (p.value.trunc 4).coeff := by
  have hparts : ∀ t, t = p.whole ++ p.point →
      numeral ((t.splitOn '.').headD [] ++ (((t.splitOn '.')[1]?.getD []).rightpad scale '0').take scale) = p.cut 4 := by
    rintro t rfl
    rw [splitOn_body]
    cases hf : p.frac with
    | none => rw [Spelling.cut, hf]; rfl
    | some f => rw [Spelling.cut, hf]; rfl
  rw [Spelling.coeff_trunc, Spelling.sgn, toUnits, Spelling.text]
  cases hneg : p.neg with
  | false =>
    simp only [Bool.false_eq_true, if_false, List.nil_append, if_neg p.head?_body, one_mul]
    rw [hparts _ rfl]
  | true =>
    simp only [if_true, List.cons_append, List.nil_append, List.head?_cons, List.drop_succ_cons, List.drop_zero]
    rw [hparts _ rfl, neg_one_mul]

/-! ### What the client loses -/

/-- The ten-thousandths of a text, without what is behind them. -/
def truncated (s : Text) : ℕ := (spell s).elim 0 fun p => (p.value.trunc 4).coeff.natAbs

/-- The ten-thousandths of a text when what is behind them is rounded. -/
def rounded (s : Text) : ℕ := (spell s).elim 0 fun p => (p.value.round 4).coeff.natAbs

/-- The difference carries neither product over a half of its last place. -/
structure LineText.Hidden (t : LineText) : Prop where
  subtotal : ¬HalfBetween (10 ^ 4) (truncated t.quantity * truncated t.unitPrice)
    (rounded t.quantity * rounded t.unitPrice)
  tax : ¬HalfBetween (10 ^ 10) (truncated t.quantity * truncated t.unitPrice * truncated t.taxRate)
    (rounded t.quantity * rounded t.unitPrice * rounded t.taxRate)

theorem truncated_text (p : Spelling) : truncated p.text = p.cut 4 := by
  have hp : spell p.text = some p := spell_eq_some.2 rfl
  rw [truncated, hp, ← Spelling.natAbs_sgn_mul p (p.cut 4), ← Spelling.coeff_trunc]
  rfl

/-- Client and column read a text with the same sign, and the client not farther from zero. -/
theorem toUnits_numericColumn {s d : Text} {precision : ℕ} {n : ℤ} (hs : amountRE s = true)
    (h : numericColumn precision (orDefault s d) = .ok n) :
    ∃ e : ℤ, (e = 1 ∨ e = -1) ∧ toUnits s = e * truncated s ∧ n = e * rounded s ∧ truncated s ≤ rounded s := by
  obtain ⟨p, hp⟩ := Option.isSome_iff_exists.1 hs
  obtain rfl := spell_eq_some.1 hp
  have hne : p.text ≠ [] := by
    rintro hnil
    rw [hnil] at hp
    cases hp
  obtain ⟨m, hm, hle⟩ := p.exists_coeff_round 4
  have hround : rounded p.text = m := by
    rw [rounded, hp, Option.elim_some, hm, Spelling.natAbs_sgn_mul]
  rw [numericColumn, orDefault, if_neg hne, numericIn, hp] at h
  obtain ⟨v, hv, h⟩ := Except.bind_eq_ok_iff.1 h
  obtain ⟨-, -, h⟩ := Except.bind_eq_ok_iff.1 h
  have hval : v = p.value := by
    dsimp only at hv
    split at hv
    · exact (Except.ok.inj hv).symm
    · cases hv
  rw [hval] at h
  refine ⟨p.sgn, p.sgn_eq, ?_, ?_, ?_⟩
  · rw [toUnits_text, Spelling.coeff_trunc, truncated_text]
  · rw [← Except.ok.inj h, hm, hround]
  · rw [truncated_text, hround]
    exact hle

theorem mul_eq_sign {a b : ℤ} (ha : a = 1 ∨ a = -1) (hb : b = 1 ∨ b = -1) : a * b = 1 ∨ a * b = -1 := by
  rcases ha with rfl | rfl
  · rw [one_mul]
    exact hb
  · rcases hb with rfl | rfl
    · exact .inr rfl
    · exact .inl rfl

theorem mul_signed (a b : ℤ) (m n : ℕ) : a * m * (b * n) = a * b * (m * n : ℕ) := by
  rw [mul_mul_mul_comm, Nat.cast_mul]

theorem fromUnits_inj {a b : ℤ} : fromUnits a = (Decimal.mk b 4).text ↔ a = b := by
  rw [fromUnits_eq, Decimal.text_injective.eq_iff, Decimal.mk.injEq, and_iff_left rfl]

/-! ### Lines -/

/-- The preview of a line shows the amounts that are stored exactly when the loss is hidden. -/
theorem lineAmounts_eq_stored_iff {t : LineText} {l₀ l : NewDocLine} (hq : amountRE t.quantity = true)
    (hp : amountRE t.unitPrice = true) (hr : amountRE t.taxRate = true) (h : t.typed l₀ = .ok l)
    (docId id lineNo : ℕ) :
    lineAmounts t.quantity t.unitPrice t.taxRate = some (stored (l.row docId id lineNo)) ↔ t.Hidden := by
  obtain ⟨quantity, hquantity, h⟩ := Except.bind_eq_ok_iff.1 h
  obtain ⟨unitPrice, hunitPrice, h⟩ := Except.bind_eq_ok_iff.1 h
  obtain ⟨taxRate, htaxRate, h⟩ := Except.bind_eq_ok_iff.1 h
  obtain rfl := Except.ok.inj h
  obtain ⟨a, ha, hqu, hqc, hqle⟩ := toUnits_numericColumn hq hquantity
  obtain ⟨b, hb, hpu, hpc, hple⟩ := toUnits_numericColumn hp hunitPrice
  obtain ⟨c, hc, hru, hrc, hrle⟩ := toUnits_numericColumn hr htaxRate
  have hall : [t.quantity, t.unitPrice, t.taxRate].all amountRE = true := by
    rw [List.all_cons, List.all_cons, List.all_cons, hq, hp, hr]
    rfl
  have hab := mul_eq_sign ha hb
  have hle := Nat.mul_le_mul hqle hple
  -- the signs of the factors come out of the products
  have hsub : roundDivBigint (toUnits t.quantity * toUnits t.unitPrice) (10 ^ 4 : ℕ) =
      roundDiv (quantity * unitPrice) (10 ^ 4) ↔ ¬HalfBetween (10 ^ 4)
        (truncated t.quantity * truncated t.unitPrice) (rounded t.quantity * rounded t.unitPrice) := by
    rw [roundDivBigint_eq _ (by positivity), hqu, hpu, hqc, hpc, mul_signed, mul_signed]
    exact roundDiv_sign_mul_eq_iff hab (by positivity) hle
  have htax : roundDivBigint (toUnits t.quantity * toUnits t.unitPrice * toUnits t.taxRate) (10 ^ 10 : ℕ) =
      roundDiv (quantity * unitPrice * taxRate) (10 ^ 10) ↔ ¬HalfBetween (10 ^ 10)
        (truncated t.quantity * truncated t.unitPrice * truncated t.taxRate)
        (rounded t.quantity * rounded t.unitPrice * rounded t.taxRate) := by
    rw [roundDivBigint_eq _ (by positivity), hqu, hpu, hru, hqc, hpc, hrc, mul_signed, mul_signed, mul_signed,
      mul_signed]
    exact roundDiv_sign_mul_eq_iff (mul_eq_sign hab hc) (by positivity) (Nat.mul_le_mul hle hrle)
  rw [lineAmounts, if_pos hall, Option.some_inj, stored, LineAmounts.mk.injEq, fromUnits_inj, fromUnits_inj, fromUnits_inj]
  constructor
  · rintro ⟨h₁, h₂, -⟩
    exact ⟨hsub.1 h₁, htax.1 h₂⟩
  · rintro ⟨h₁, h₂⟩
    have e₁ := hsub.2 h₁
    have e₂ := htax.2 h₂
    exact ⟨e₁, e₂, congrArg₂ (· + ·) e₁ e₂⟩

/-- The loss of a quantity of 1.00005 is hidden at a price of a tenth. -/
theorem lineAmounts_eq_stored_iff_tenth :
    lineAmounts ['1', '.', '0', '0', '0', '0', '5'] ['.', '1'] ['0'] =
      some (stored (({ quantity := 10001, unitPrice := 1000 } : NewDocLine).row 1 2 1)) := by
  have hq : truncated ['1', '.', '0', '0', '0', '0', '5'] = 10000 ∧
      rounded ['1', '.', '0', '0', '0', '0', '5'] = 10001 := by decide +kernel
  have hp : truncated ['.', '1'] = 1000 ∧ rounded ['.', '1'] = 1000 := by decide +kernel
  have hr : truncated ['0'] = 0 ∧ rounded ['0'] = 0 := by decide +kernel
  have htyped : LineText.typed ⟨['1', '.', '0', '0', '0', '0', '5'], ['.', '1'], ['0']⟩ {} =
      .ok { quantity := 10001, unitPrice := 1000 } := by decide +kernel
  refine (lineAmounts_eq_stored_iff (by decide +kernel) (by decide +kernel) (by decide +kernel) htyped 1 2 1).2 ⟨?_, ?_⟩
  · rw [hq.1, hq.2, hp.1, hp.2]
    rintro ⟨j, h₁, h₂⟩
    omega
  · rw [hr.1, hr.2, mul_zero, mul_zero]
    exact not_halfBetween_self _ _

/-- It shows at a price of one: the preview is 1.0000, and 1.0001 is stored. -/
theorem lineAmounts_drops_place : ¬∀ (t : LineText) (l₀ l : NewDocLine) (docId id lineNo : ℕ),
    amountRE t.quantity = true → amountRE t.unitPrice = true → amountRE t.taxRate = true → t.typed l₀ = .ok l →
    fits (l.row docId id lineNo).lineSubtotal = true → fits (l.row docId id lineNo).taxAmount = true →
    fits (l.row docId id lineNo).lineTotal = true →
    lineAmounts t.quantity t.unitPrice t.taxRate = some (stored (l.row docId id lineNo)) := by
  intro hall
  have heq := hall ⟨['1', '.', '0', '0', '0', '0', '5'], ['1'], ['0']⟩ {} { quantity := 10001, unitPrice := 10000 } 1 2 1
    (by decide +kernel) (by decide +kernel) (by decide +kernel) (by decide +kernel) (by decide +kernel)
    (by decide +kernel) (by decide +kernel)
  exact absurd heq (by decide +kernel)

/-! ### The fifth place -/

/-- No digit of 5 or more follows the fourth place. -/
def FifthLow (s : Text) : Prop := ∀ p, spell s = some p → ∀ c, (p.frac.getD [])[4]? = some c → c.toNat < '5'.toNat

theorem truncated_le_rounded (s : Text) : truncated s ≤ rounded s := by
  cases hs : spell s with
  | none => rw [truncated, rounded, hs]; rfl
  | some p =>
    obtain ⟨m, hm, hle⟩ := p.exists_coeff_round 4
    rw [truncated, rounded, hs, Option.elim_some, Option.elim_some, hm, Spelling.coeff_trunc, Spelling.natAbs_sgn_mul,
      Spelling.natAbs_sgn_mul]
    exact hle

theorem truncated_eq_rounded_iff {s : Text} : truncated s = rounded s ↔ FifthLow s := by
  cases hs : spell s with
  | none =>
    rw [truncated, rounded, hs]
    exact iff_of_true rfl fun p hp => by rw [hs] at hp; cases hp
  | some p =>
    have hlow : FifthLow s ↔ p.value.round 4 = p.value.trunc 4 := by
      rw [Spelling.round_eq_trunc_iff]
      refine ⟨fun h => h p hs, fun h q hq => ?_⟩
      rw [hs] at hq
      obtain rfl := Option.some.inj hq
      exact h
    obtain ⟨m, hm, -⟩ := p.exists_coeff_round 4
    rw [hlow, truncated, rounded, hs, Option.elim_some, Option.elim_some]
    constructor
    · intro heq
      rw [hm, Spelling.coeff_trunc, Spelling.natAbs_sgn_mul, Spelling.natAbs_sgn_mul] at heq
      refine Decimal.ext ?_ rfl
      rw [hm, Spelling.coeff_trunc, heq]
    · intro heq
      rw [heq]

theorem LineText.hidden_of_fifthLow {t : LineText} (hq : FifthLow t.quantity) (hp : FifthLow t.unitPrice)
    (hr : FifthLow t.taxRate) : t.Hidden := by
  constructor
  · rw [truncated_eq_rounded_iff.2 hq, truncated_eq_rounded_iff.2 hp]
    exact not_halfBetween_self _ _
  · rw [truncated_eq_rounded_iff.2 hq, truncated_eq_rounded_iff.2 hp, truncated_eq_rounded_iff.2 hr]
    exact not_halfBetween_self _ _

/-- Nothing is hidden in a line of at least 1 unit, at a price of at least 1 and for at least 100. -/
theorem LineText.Hidden.fifthLow {t : LineText} (h : t.Hidden) (hq : 10 ^ 4 ≤ truncated t.quantity)
    (hp : 10 ^ 4 ≤ truncated t.unitPrice) (hqp : 10 ^ 10 ≤ truncated t.quantity * truncated t.unitPrice) :
    FifthLow t.quantity ∧ FifthLow t.unitPrice ∧ FifthLow t.taxRate := by
  have hqle := truncated_le_rounded t.quantity
  have hple := truncated_le_rounded t.unitPrice
  have hrle := truncated_le_rounded t.taxRate
  have hsub := mt (halfBetween_of_add_le (by positivity)) h.subtotal
  have htax := mt (halfBetween_of_add_le (by positivity)) h.tax
  have hqeq : truncated t.quantity = rounded t.quantity := by
    by_contra hne
    have hlt : truncated t.quantity + 1 ≤ rounded t.quantity := by omega
    have hmul := Nat.mul_le_mul hlt hple
    rw [Nat.add_mul] at hmul
    omega
  have hpeq : truncated t.unitPrice = rounded t.unitPrice := by
    by_contra hne
    have hlt : truncated t.unitPrice + 1 ≤ rounded t.unitPrice := by omega
    have hmul := Nat.mul_le_mul hqle hlt
    rw [Nat.mul_add] at hmul
    omega
  have hreq : truncated t.taxRate = rounded t.taxRate := by
    by_contra hne
    have hlt : truncated t.taxRate + 1 ≤ rounded t.taxRate := by omega
    have hmul := Nat.mul_le_mul (Nat.mul_le_mul hqle hple) hlt
    rw [Nat.mul_add] at hmul
    omega
  exact ⟨truncated_eq_rounded_iff.1 hqeq, truncated_eq_rounded_iff.1 hpeq, truncated_eq_rounded_iff.1 hreq⟩

end Preview
