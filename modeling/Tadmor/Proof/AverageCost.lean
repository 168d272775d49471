import Tadmor.Model.StockViews
import Tadmor.Proof.Shipping

/-!
# Average costs are exact quotients, rounded once

`div_round4` truncates one quotient of absolute values and restores the signs.  That is the exact quotient rounded to
four places, halves away from zero, whatever the scales of its operands.
-/

/-- The numeric is the multiple of 0.0001 nearest to `x`, ties away from zero. -/
def NearestMultiple (x : ℚ) (r : Option Decimal) : Prop :=
  ∃ q m, r = some q ∧ q.toRat = (m : ℤ) / 10 ^ 4 ∧ RoundsTo (x * 10 ^ 4) m

/-- The quantity and value of the movements, and the value over the quantity rounded once. -/
structure StockTotals.Exact (t : StockTotals) (ms : List StockMovement) : Prop where
  qty : t.qtyOnHand = (ms.map (·.quantity)).sum
  value : t.valueOnHand = (ms.map (·.totalCost)).sum
  empty : t.qtyOnHand = 0 → ∃ q, t.avgUnitCost = some q ∧ q.toRat = 0
  average : t.qtyOnHand ≠ 0 → NearestMultiple (t.valueOnHand / t.qtyOnHand) t.avgUnitCost

/-! ### The quotient -/

section

variable {n d : Decimal}

/-- Only the coefficients at the common scale matter. -/
theorem divRound4_coeffAt (hd : d.coeff ≠ 0) : Numeric.divRound4 n d =
    some ⟨divRound4 (n.coeffAt (max n.scale d.scale)) (d.coeffAt (max n.scale d.scale)), 4⟩ := by
  have hmax : max (max n.scale d.scale) d.scale = max n.scale d.scale := max_eq_left (le_max_right ..)
  -- the numerator and the denominator of the truncated quotient
  have hnum : n.abs * .ofInt 20000 + d.abs =
      ⟨((n.coeffAt (max n.scale d.scale)).natAbs * 20000 + (d.coeffAt (max n.scale d.scale)).natAbs : ℕ),
        max n.scale d.scale⟩ := by
    ext
    · simp only [Decimal.add_coeff, Decimal.coeffAt, Decimal.mul_coeff, Decimal.mul_scale, Decimal.abs_coeff,
        Decimal.abs_scale, Decimal.ofInt_coeff, Decimal.ofInt_scale, Nat.add_zero, Int.natAbs_mul, Int.natAbs_pow]
      push_cast
      ring
    · simp
  have hden : (Decimal.ofInt 2 * d.abs).coeffAt (max n.scale d.scale) =
      (2 * (d.coeffAt (max n.scale d.scale)).natAbs : ℕ) := by
    rw [Decimal.natAbs_coeffAt, Decimal.coeffAt]
    simp only [Decimal.mul_coeff, Decimal.mul_scale, Decimal.abs_coeff, Decimal.abs_scale, Decimal.ofInt_coeff,
      Decimal.ofInt_scale, Nat.zero_add]
    push_cast
    ring
  have hne : (Decimal.ofInt 2 * d.abs).coeff ≠ 0 := by
    rw [Decimal.mul_coeff, Decimal.ofInt_coeff, Decimal.abs_coeff]
    omega
  have hscale : (Decimal.ofInt 2 * d.abs).scale = d.scale := Nat.zero_add _
  rw [Numeric.divRound4, hnum, Decimal.div, if_neg hne, hscale, hmax, hden, Decimal.coeffAt, Nat.sub_self, pow_zero,
    mul_one, Option.map_some, ← Int.ofNat_tdiv, divRound4, Decimal.sign_coeffAt, Decimal.sign_coeffAt]
  congr 1
  ext
  · simp
  · simp

/-- `div_round4` is the exact quotient, rounded once. -/
theorem divRound4_nearest (hd : d.toRat ≠ 0) : NearestMultiple (n.toRat / d.toRat) (Numeric.divRound4 n d) := by
  have hd : d.coeff ≠ 0 := fun h => hd (Decimal.toRat_eq_zero.2 h)
  have hD : d.coeffAt (max n.scale d.scale) ≠ 0 := by
    rw [← Int.natAbs_ne_zero, Decimal.natAbs_coeffAt]
    exact Nat.mul_ne_zero (Int.natAbs_ne_zero.2 hd) (by positivity)
  refine ⟨_, _, divRound4_coeffAt hd, rfl, ?_⟩
  rw [Decimal.toRat_div_toRat]
  generalize n.coeffAt (max n.scale d.scale) = N
  generalize d.coeffAt (max n.scale d.scale) = D at hD ⊢
  have hround := roundsTo_roundDiv (N * 10 ^ 4 * D.sign) (Int.natAbs_pos.2 hD)
  rwa [← divRound4_eq hD, div_natAbs_sign hD, mul_div_right_comm] at hround

end

/-! ### The views -/

theorem mem_groupStock {κ : Type} [DecidableEq κ] {key : StockMovement → κ} {ms : List StockMovement}
    {x : κ × StockTotals} : x ∈ groupStock key ms ↔
      (∃ m ∈ ms, key m = x.1) ∧ x.2 = stockTotals (ms.filter fun m => key m = x.1) := by
  rw [groupStock, List.mem_map]
  constructor
  · rintro ⟨k, hk, rfl⟩
    exact ⟨List.mem_map.1 (List.mem_dedup.1 hk), rfl⟩
  · rintro ⟨hk, hx⟩
    exact ⟨x.1, List.mem_dedup.2 (List.mem_map.2 hk), Prod.ext rfl hx.symm⟩

theorem stockTotals_average {ms : List StockMovement} (h : (stockTotals ms).qtyOnHand ≠ 0) :
    (stockTotals ms).avgUnitCost =
      Numeric.divRound4 ⟨(stockTotals ms).valueOnHand, 4⟩ ⟨(stockTotals ms).qtyOnHand, 4⟩ := if_pos h

theorem stockTotals_exact (ms : List StockMovement) : (stockTotals ms).Exact ms := by
  refine ⟨rfl, rfl, fun h => ⟨.ofInt 0, if_neg (not_not.2 h), Decimal.toRat_ofInt 0⟩, fun h => ?_⟩
  have hscale : ∀ x : ℤ, (⟨x, 4⟩ : Decimal).toRat = x / 10 ^ 4 := fun _ => rfl
  have hne : (⟨(stockTotals ms).qtyOnHand, 4⟩ : Decimal).toRat ≠ 0 := fun e => h (Decimal.toRat_eq_zero.1 e)
  have hten : (10 : ℚ) ^ 4 ≠ 0 := by norm_num
  have hdiv := divRound4_nearest (n := ⟨(stockTotals ms).valueOnHand, 4⟩) hne
  rw [hscale, hscale, div_div_div_cancel_right₀ hten] at hdiv
  rwa [← stockTotals_average h] at hdiv

/-- A row for each group of movements, with the totals of the group. -/
def ExactTotals {κ : Type} [DecidableEq κ] (key : StockMovement → κ) (ms : List StockMovement)
    (view : List (κ × StockTotals)) : Prop :=
  (view.map Prod.fst).Nodup ∧ (∀ k, k ∈ view.map Prod.fst ↔ ∃ m ∈ ms, key m = k) ∧
    ∀ x ∈ view, x.2.Exact (ms.filter fun m => key m = x.1)

theorem exactTotals_groupStock {κ : Type} [DecidableEq κ] (key : StockMovement → κ) (ms : List StockMovement) :
    ExactTotals key ms (groupStock key ms) := by
  have hfst : (groupStock key ms).map Prod.fst = (ms.map key).dedup := by
    rw [groupStock, List.map_map]
    exact List.map_id _
  refine ⟨hfst ▸ List.nodup_dedup _, fun k => ?_, fun x hx => ?_⟩
  · rw [hfst, List.mem_dedup, List.mem_map]
  · rw [(mem_groupStock.1 hx).2]
    exact stockTotals_exact _

/-- The rounded quotients of `div_round4`, and the average costs of the views that rest on it. -/
theorem divRound4_exact : (∀ n d : Decimal, d.toRat ≠ 0 → NearestMultiple (n.toRat / d.toRat) (Numeric.divRound4 n d)) ∧
    ∀ db : DB, ExactTotals (fun m => (m.productId, m.warehouseId)) db.movements.rows db.stockOnHand ∧
      ExactTotals (·.productId) db.movements.rows db.stockValuation :=
  ⟨fun _ _ hd => divRound4_nearest hd, fun _ => ⟨exactTotals_groupStock _ _, exactTotals_groupStock _ _⟩⟩

/-- A tie between operands of different scales, rounded away from zero. -/
theorem divRound4_exact_tie : Numeric.divRound4 ⟨-25, 5⟩ ⟨5, 0⟩ = some ⟨-1, 4⟩ ∧
    NearestMultiple ((⟨-25, 5⟩ : Decimal).toRat / (⟨5, 0⟩ : Decimal).toRat) (Numeric.divRound4 ⟨-25, 5⟩ ⟨5, 0⟩) :=
  ⟨by decide, divRound4_exact.1 ⟨-25, 5⟩ ⟨5, 0⟩ (by norm_num [Decimal.toRat])⟩

/-- The average cost that a shipment takes is that of the view. -/
theorem avgUnitCost_stockOnHand {db : DB} {x : (ℕ × ℕ) × StockTotals} (hx : x ∈ db.stockOnHand)
    (hqty : x.2.qtyOnHand ≠ 0) : x.2.avgUnitCost = some ⟨db.avgUnitCost x.1.1 x.1.2, 4⟩ := by
  obtain ⟨-, hx⟩ := mem_groupStock.1 hx
  have hfilter : (db.movements.rows.filter fun m => (m.productId, m.warehouseId) = x.1) =
      db.movements.rows.filter fun m => m.productId = x.1.1 && m.warehouseId = x.1.2 := by
    refine List.filter_congr fun m _ => ?_
    rw [← Bool.decide_and, decide_eq_decide, Prod.ext_iff]
  rw [hfilter] at hx
  rw [hx] at hqty ⊢
  rw [stockTotals_average hqty, divRound4_coeffAt hqty, max_self, Decimal.coeffAt, Decimal.coeffAt, Nat.sub_self, pow_zero,
    mul_one, mul_one]
  congr 2
  exact (if_neg hqty).symm
