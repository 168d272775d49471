import Mathlib.Algebra.BigOperators.Ring.List
import Tadmor.Proof.Lifecycle
import Tadmor.Store.RoundingError

/-!
# Shipping at the moving average

A shipment takes each quantity from stock at the average cost of what is there.  It succeeds if and only if no average
is negative and every cost fits, and it leaves the average of the rest as it is, up to the rounding of the average and
of each cost.
-/

/-! ### The average -/

/-- The movements of a product in a warehouse. -/
def stockOf (ms : List StockMovement) (product warehouse : ℕ) : List StockMovement :=
  ms.filter fun m => m.productId = product && m.warehouseId = warehouse

namespace DB

def stock (db : DB) (product warehouse : ℕ) : List StockMovement := stockOf db.movements.rows product warehouse

/-- `qty_on_hand` -/
def qtyOnHand (db : DB) (product warehouse : ℕ) : ℤ := ((db.stock product warehouse).map (·.quantity)).sum

/-- `value_on_hand` -/
def valueOnHand (db : DB) (product warehouse : ℕ) : ℤ := ((db.stock product warehouse).map (·.totalCost)).sum

/-- Quantity and value have opposite signs, and the value is enough for the average not to round to 0. -/
def NegativeAverage (db : DB) (product warehouse : ℕ) : Prop :=
  db.valueOnHand product warehouse * db.qtyOnHand product warehouse < 0 ∧
    |db.qtyOnHand product warehouse| ≤ 20000 * |db.valueOnHand product warehouse|

instance (db : DB) (product warehouse : ℕ) : Decidable (db.NegativeAverage product warehouse) :=
  inferInstanceAs (Decidable (_ ∧ _))

end DB

theorem divRound4_eq {n d : ℤ} (hd : d ≠ 0) : divRound4 n d = roundDiv (n * 10 ^ 4 * d.sign) d.natAbs := by
  have hsign : (n * 10 ^ 4 * d.sign).sign = n.sign * d.sign := by
    have hten : (10 ^ 4 : ℤ).sign = 1 := rfl
    rw [Int.sign_mul, Int.sign_mul, Int.sign_sign, hten, mul_one]
  have habs : (n * 10 ^ 4 * d.sign).natAbs = n.natAbs * 10 ^ 4 := by
    rw [Int.natAbs_mul, Int.natAbs_mul, Int.natAbs_sign_of_ne_zero hd, mul_one]
    rfl
  have hnum : 2 * (n.natAbs * 10 ^ 4) + d.natAbs = n.natAbs * 20000 + d.natAbs := by ring
  rw [roundDiv, hsign, habs, hnum, divRound4]

theorem divRound4_neg_iff {n d : ℤ} (hd : d ≠ 0) : divRound4 n d < 0 ↔ n * d < 0 ∧ |d| ≤ 20000 * |n| := by
  have hpos : 0 < d.natAbs := Int.natAbs_pos.2 hd
  have hle : |d| ≤ 20000 * |n| ↔ 0 < (n.natAbs * 20000 + d.natAbs) / (2 * d.natAbs) := by
    rw [Int.abs_eq_natAbs, Int.abs_eq_natAbs, Nat.div_pos_iff]
    omega
  rw [hle, divRound4, ← Int.sign_mul]
  generalize (n.natAbs * 20000 + d.natAbs) / (2 * d.natAbs) = k
  rcases lt_trichotomy (n * d) 0 with h | h | h
  · rw [Int.sign_eq_neg_one_of_neg h]
    omega
  · rw [h]
    simp
  · rw [Int.sign_eq_one_of_pos h]
    omega

/-- The quotient that `div_round4` rounds. -/
theorem div_natAbs_sign {n d : ℤ} (hd : d ≠ 0) :
    ((n * 10 ^ 4 * d.sign : ℤ) : ℚ) / (d.natAbs : ℕ) = n * 10 ^ 4 / d := by
  obtain ⟨m, rfl | rfl⟩ := d.eq_nat_or_neg
  · have hm : m ≠ 0 := by omega
    rw [Int.sign_natCast_of_ne_zero hm, Int.natAbs_natCast]
    push_cast
    ring
  · have hm : m ≠ 0 := by omega
    rw [Int.sign_neg, Int.sign_natCast_of_ne_zero hm, Int.natAbs_neg, Int.natAbs_natCast]
    push_cast
    rw [div_neg]
    ring

theorem abs_divRound4_sub (n : ℤ) {d : ℤ} (hd : d ≠ 0) : |(divRound4 n d : ℚ) - n * 10 ^ 4 / d| ≤ 1 / 2 := by
  have h := abs_roundDiv_sub (n * 10 ^ 4 * d.sign) (Int.natAbs_pos.2 hd)
  rwa [← divRound4_eq hd, div_natAbs_sign hd] at h

theorem avgUnitCost_eq (db : DB) (product warehouse : ℕ) : db.avgUnitCost product warehouse =
    if db.qtyOnHand product warehouse = 0 then 0
    else divRound4 (db.valueOnHand product warehouse) (db.qtyOnHand product warehouse) := rfl

theorem avgUnitCost_neg_iff {db : DB} {product warehouse : ℕ} :
    db.avgUnitCost product warehouse < 0 ↔ db.NegativeAverage product warehouse := by
  rw [avgUnitCost_eq, DB.NegativeAverage]
  by_cases hq : db.qtyOnHand product warehouse = 0
  · simp [hq]
  · rw [if_neg hq]
    exact divRound4_neg_iff hq

/-! ### Inserting movements -/

theorem checkMovements_eq_ok {db : DB} {n : ℕ} {xs : List (MovementInput × Side × ℕ)} :
    checkMovements db (movementRows n xs) = .ok () ↔ ∀ x ∈ xs, (x.1.row 0 none).check db = .ok () := by
  induction xs generalizing n with
  | nil => exact iff_of_true rfl fun x hx => absurd hx List.not_mem_nil
  | cons x xs ih =>
    have hcons : checkMovements db (movementRows n (x :: xs)) = .ok () ↔
        (x.1.row 0 none).check db = .ok () ∧ checkMovements db (movementRows (n + 1) xs) = .ok () := by
      show ((x.1.row n (some x.2)).check db >>= fun _ => checkMovements db (movementRows (n + 1) xs)) = .ok () ↔ _
      rw [Except.bind_eq_ok_iff]
      exact ⟨fun ⟨_, h₁, h₂⟩ => ⟨h₁, h₂⟩, fun ⟨h₁, h₂⟩ => ⟨(), h₁, h₂⟩⟩
    rw [hcons, ih, List.forall_mem_cons]

theorem run_insertMovements_rows {select : DB → List (MovementInput × Side × ℕ)} {v w : Env DB Err} {ids : List ℕ}
    (h : (insertMovements select).run v = .ok (ids, w)) :
    ∃ n, v.seq ≤ n ∧ (∀ x ∈ select v.db, (x.1.row 0 none).check v.db = .ok ()) ∧
      ids = (movementRows n (select v.db)).map (·.id) ∧
      w.db = { v.db with movements := v.db.movements.insertAll (movementRows n (select v.db)) } := by
  obtain ⟨o, ho, rfl, rfl⟩ := Prog.run_exec_ok.1 h
  simp only [Except.bind_eq_ok_iff, Except.ok.injEq] at ho
  obtain ⟨u, hc, rfl⟩ := ho
  exact ⟨v.seq + v.gaps 0, Nat.le_add_right .., checkMovements_eq_ok.1 hc, rfl, rfl⟩

theorem exists_run_insertMovements {select : DB → List (MovementInput × Side × ℕ)} {v : Env DB Err}
    (h : ∀ x ∈ select v.db, (x.1.row 0 none).check v.db = .ok ()) :
    ∃ n w, (insertMovements select).run v = .ok ((movementRows n (select v.db)).map (·.id), w) ∧
      w.checks = v.checks := by
  let rows := movementRows (v.seq + v.gaps 0) (select v.db)
  let o : Outcome DB Lock Err (List ℕ) :=
    { res := rows.map (·.id), used := rows.length,
      act := fun d => { d with movements := d.movements.insertAll rows } }
  refine ⟨v.seq + v.gaps 0, v.after o, Prog.run_exec_ok.2 ⟨o, ?_, rfl, rfl⟩, List.append_nil _⟩
  show (checkMovements v.db rows >>= fun _ => .ok o) = .ok o
  rw [checkMovements_eq_ok.2 h]
  rfl

theorem run_requireOpenOrder_of {side : Side} {id : ℕ} {v : Env DB Err} {o : Doc}
    (ho : v.db.docOf side.order id = some o) (hs : o.status = .opened) :
    (requireOpenOrder side id).run v = .ok ((), v.tick) := by
  refine Prog.run_bind_ok.2 ⟨o.status, v.tick, Prog.run_query_ok.2 ⟨?_, rfl⟩, Prog.run_require_ok.2 ⟨?_, rfl⟩⟩
  · rw [ho]
  · exact decide_eq_true hs

/-! ### The movements of a shipment -/

/-- What `ShipSalesOrder` inserts for a quantity of an order line. -/
def DB.shipment (db : DB) (input : MoveInput) (x : DocLine × ℤ) : MovementInput :=
  { productId := x.1.productId.getD 0, warehouseId := input.warehouseId, movementType := .issue,
    movementDate := input.movementDate, quantity := -x.2,
    unitCost := db.avgUnitCost (x.1.productId.getD 0) input.warehouseId }

def DB.shipments (db : DB) (id : ℕ) (input : MoveInput) : List (MovementInput × Side × ℕ) :=
  (db.picked .sales id input.lines).map fun x => (db.shipment input x, .sales, x.1.id)

theorem shipSalesOrder_eq (id : ℕ) (input : MoveInput) : ShipSalesOrder id input = (do
    requireOpenOrder .sales id
    let ids ← insertMovements fun db => db.shipments id input
    Prog.require (ids ≠ []) (.orders .nothingToFulfil s!"orders: {DocKind.salesOrder.noun} {id}")
    pure ids) := rfl

/-- What a shipment of an open order inserts. -/
theorem run_ship_rows {id : ℕ} {input : MoveInput} {v w : Env DB Err} {ids : List ℕ}
    (h : (ShipSalesOrder id input).run v = .ok (ids, w)) :
    ∃ n, v.seq ≤ n ∧ (∀ x ∈ v.db.shipments id input, (x.1.row 0 none).check v.db = .ok ()) ∧
      ids = (movementRows n (v.db.shipments id input)).map (·.id) ∧
      w.db = { v.db with movements := v.db.movements.insertAll (movementRows n (v.db.shipments id input)) } := by
  rw [shipSalesOrder_eq] at h
  obtain ⟨u₁, v₁, h₁, h⟩ := Prog.run_bind_ok.1 h
  obtain ⟨e₁, hseq, -⟩ := run_requireOpenOrder h₁
  obtain ⟨ids', v₂, h₂, h⟩ := Prog.run_bind_ok.1 h
  obtain ⟨u₃, v₃, h₃, h'⟩ := Prog.run_bind_ok.1 h
  obtain ⟨-, rfl⟩ := Prog.run_require_ok.1 h₃
  obtain ⟨rfl, rfl⟩ := Prog.run_pure_ok.1 h'
  obtain ⟨n, hn, hc, hids, hdb⟩ := run_insertMovements_rows h₂
  rw [e₁] at hc hids hdb
  exact ⟨n, hseq.trans hn, hc, hids, hdb⟩

theorem exists_commit_ship {id : ℕ} {input : MoveInput} {s : Store DB} {o : Doc} (gaps : ℕ → ℕ)
    (ho : s.db.docOf .salesOrder id = some o) (hs : o.status = .opened) (hne : s.db.picked .sales id input.lines ≠ [])
    (hc : ∀ x ∈ s.db.shipments id input, (x.1.row 0 none).check s.db = .ok ()) :
    ∃ ids s', (ShipSalesOrder id input).commit gaps s = .ok (ids, s') := by
  have h₁ : (requireOpenOrder .sales id).run ⟨gaps, s.seq, s.db, []⟩ = .ok ((), Env.tick ⟨gaps, s.seq, s.db, []⟩) :=
    run_requireOpenOrder_of ho hs
  obtain ⟨n, w, h₂, hchecks⟩ : ∃ n w, (insertMovements fun db => db.shipments id input).run
      (Env.tick ⟨gaps, s.seq, s.db, []⟩) = .ok ((movementRows n (s.db.shipments id input)).map (·.id), w) ∧
        w.checks = [] := exists_run_insertMovements hc
  have hids : (movementRows n (s.db.shipments id input)).map (·.id) ≠ [] := by
    rw [Ne, List.map_eq_nil_iff]
    cases hx : s.db.shipments id input with
    | nil => exact absurd (List.map_eq_nil_iff.1 hx) hne
    | cons x xs => exact List.cons_ne_nil _ _
  refine ⟨(movementRows n (s.db.shipments id input)).map (·.id), ⟨w.db, w.seq⟩,
    Prog.commit_eq_ok.2 ⟨w, ?_, ?_, rfl⟩⟩
  · rw [shipSalesOrder_eq]
    refine Prog.run_bind_ok.2 ⟨_, _, h₁, Prog.run_bind_ok.2 ⟨_, _, h₂, Prog.run_bind_ok.2 ⟨(), w, ?_, ?_⟩⟩⟩
    · exact Prog.run_require_ok.2 ⟨decide_eq_true hids, rfl⟩
    · exact Prog.run_pure_ok.2 ⟨rfl, rfl⟩
  · rw [hchecks]
    rfl

/-! ### Shipping succeeds -/

/-- Taking a quantity of an order line from stock has a unit cost that is not negative, and costs that fit. -/
structure DB.CostFits (db : DB) (warehouse : ℕ) (x : DocLine × ℤ) : Prop where
  average : ¬db.NegativeAverage (x.1.productId.getD 0) warehouse
  unitCost : fits (db.avgUnitCost (x.1.productId.getD 0) warehouse) = true
  totalCost : fits (roundDiv (x.2 * db.avgUnitCost (x.1.productId.getD 0) warehouse) (10 ^ 4)) = true

instance (db : DB) (warehouse : ℕ) (x : DocLine × ℤ) : Decidable (db.CostFits warehouse x) :=
  decidable_of_iff (_ ∧ _ ∧ _) ⟨fun ⟨h₁, h₂, h₃⟩ => ⟨h₁, h₂, h₃⟩, fun ⟨h₁, h₂, h₃⟩ => ⟨h₁, h₂, h₃⟩⟩

/-- A request picks no more of a line than is left of it. -/
theorem le_of_mem_pick {req : List LineQty} {left : DocLine → ℤ} {ls : List DocLine} {x : DocLine × ℤ}
    (h : x ∈ pick req left ls) : x.2 ≤ left x.1 := by
  obtain ⟨h, -⟩ := List.mem_filter.1 h
  obtain ⟨l, hl, hx⟩ := List.mem_flatMap.1 h
  unfold pickLine at hx
  split at hx
  · obtain rfl := List.mem_singleton.1 hx
    exact le_rfl
  · split at hx
    · obtain rfl := List.mem_singleton.1 hx
      exact min_le_left _ _
    · obtain ⟨r, -, rfl⟩ := List.mem_map.1 hx
      exact min_le_left _ _

/-- Something is picked of a line that is asked for and has something left. -/
theorem exists_mem_pick {req : List LineQty} {left : DocLine → ℤ} {ls : List DocLine} {l : DocLine} (hl : l ∈ ls)
    (hleft : 0 < left l) (hreq : req = [] ∨ ∃ r ∈ req, r.orderLineId = l.id ∧ 0 < r.quantity) :
    pick req left ls ≠ [] := by
  have hmem : ∃ q, 0 < q ∧ (l, q) ∈ pickLine req left l := by
    unfold pickLine
    rcases hreq with rfl | ⟨r, hr, hid, hq⟩
    · exact ⟨left l, hleft, List.mem_singleton.2 rfl⟩
    · have hne : req ≠ [] := List.ne_nil_of_mem hr
      have hr' : r ∈ req.filter fun r => r.orderLineId = l.id := List.mem_filter.2 ⟨hr, decide_eq_true hid⟩
      refine ⟨min (left l) r.quantity, lt_min hleft hq, ?_⟩
      rw [if_neg hne]
      cases hf : req.filter fun r => r.orderLineId = l.id with
      | nil =>
        rw [hf] at hr'
        cases hr'
      | cons y ys => exact List.mem_map.2 ⟨r, hf ▸ hr', rfl⟩
  obtain ⟨q, hpos, hq⟩ := hmem
  exact List.ne_nil_of_mem (List.mem_filter.2 ⟨List.mem_flatMap.2 ⟨l, hl, hq⟩, decide_eq_true hpos⟩)

/-- What is picked of an order line is positive and fits. -/
theorem fits_of_picked {db : DB} (hd : db.DocsOk) (hm : db.MovesOk) {id : ℕ} {req : List LineQty} {o : Doc}
    (ho : db.docOf .salesOrder id = some o) {x : DocLine × ℤ} (hx : x ∈ db.picked .sales id req) :
    0 < x.2 ∧ fits x.2 = true := by
  obtain ⟨hline, hpos⟩ : db.OrderLine .sales x.1 o ∧ 0 < x.2 := orderLine_of_picked ho hx
  obtain ⟨hq, hfit⟩ := hd.ordered x.1 hline.line o hline.order hline.ofOrder (hline.kind ▸ Side.sales.order_isOrder)
  have hmoved : 0 ≤ db.moved .sales x.1.id := by
    rw [moved_eq_sum]
    exact List.sum_nonneg fun q hq => (hm.positive .sales x.1.id q hq).le
  have hle : x.2 ≤ db.toMove .sales x.1 := le_of_mem_pick hx
  have hleft : db.toMove .sales x.1 ≤ x.1.quantity := by
    unfold DB.toMove
    split
    · omega
    · omega
  rw [fits, decide_eq_true_eq] at hfit ⊢
  exact ⟨hpos, by omega⟩

/-- The row of a shipment passes its checks if and only if its cost does. -/
theorem check_shipment {db : DB} (hd : db.DocsOk) (hm : db.MovesOk) {id : ℕ} {input : MoveInput} {o : Doc}
    (ho : db.docOf .salesOrder id = some o) (hw : (db.warehouses.find? input.warehouseId).isSome = true)
    {x : DocLine × ℤ} (hx : x ∈ db.picked .sales id input.lines) :
    ((db.shipment input x).row 0 none).check db = .ok () ↔ db.CostFits input.warehouseId x := by
  obtain ⟨hpos, hfit⟩ := fits_of_picked hd hm ho hx
  have hmov : db.isMovable x.1 = true := (List.mem_filter.1 (mem_of_mem_pick hx).1).2
  obtain ⟨p, hp, htracked⟩ := (Option.any_eq_true ..).1 hmov
  rw [Bool.and_eq_true] at htracked
  obtain ⟨k, hk, hp⟩ := Option.bind_eq_some_iff.1 hp
  have hproduct : db.productOk (x.1.productId.getD 0) = .ok () := by
    rw [hk, DB.productOk, Option.getD_some, hp]
    simp only [htracked.1, htracked.2]
    rfl
  have hfound : (db.products.find? (x.1.productId.getD 0)).isSome = true := by
    rw [hk, Option.getD_some, hp]
    rfl
  have htotal : ((db.shipment input x).row 0 none).totalCost =
      -roundDiv (x.2 * db.avgUnitCost (x.1.productId.getD 0) input.warehouseId) (10 ^ 4) := by
    rw [← roundDiv_neg, ← neg_mul]
    rfl
  simp only [StockMovement.check, Except.bind_eq_ok_iff, ensure_eq_ok, exists_const, Bool.and_eq_true,
    decide_eq_true_eq, htotal, fits_neg]
  constructor
  · rintro ⟨-, -, ⟨⟨-, hunit⟩, htotal⟩, -, hcost, -⟩
    exact ⟨fun hneg => not_lt.2 hcost (avgUnitCost_neg_iff.2 hneg), hunit, htotal⟩
  · rintro ⟨haverage, hunit, htotal⟩
    have hcost : 0 ≤ db.avgUnitCost (x.1.productId.getD 0) input.warehouseId :=
      not_lt.1 fun hneg => haverage (avgUnitCost_neg_iff.1 hneg)
    refine ⟨(), hproduct, ⟨⟨(fits_neg x.2).trans hfit, hunit⟩, htotal⟩, ?_, hcost, ?_, hfound, hw⟩
    · show -x.2 ≠ 0
      omega
    · exact decide_eq_true (show -x.2 < 0 by omega)

/-- A product of which ten pieces were received at a dollar. -/
def received : List Op := ordered ++ [.createMovement ⟨14, 15, .receipt, march5, 10 * 10 ^ 4, dollars 1⟩]

/-- The number of which `x` counts the units of 0.0001. -/
def decimal (x : ℤ) : ℚ := x / 10 ^ 4

/-- The rounding of the average counts for each unit taken, the rounding of a cost for each movement. -/
theorem average_error {V Q S T A k : ℚ} (hQ : Q ≠ 0) (hS : S ≤ 0) (hA : |A - V * 10 ^ 4 / Q| ≤ 1 / 2)
    (hT : |T - S * A / 10 ^ 4| ≤ k / 2) :
    |(V + T) / 10 ^ 4 - V / 10 ^ 4 * (Q / 10 ^ 4 - -S / 10 ^ 4) / (Q / 10 ^ 4)| ≤ 0.00005 * (-S / 10 ^ 4 + k) := by
  have e : (V + T) / 10 ^ 4 - V / 10 ^ 4 * (Q / 10 ^ 4 - -S / 10 ^ 4) / (Q / 10 ^ 4) =
      ((T - S * A / 10 ^ 4) + S / 10 ^ 4 * (A - V * 10 ^ 4 / Q)) / 10 ^ 4 := by
    field_simp
    ring
  have hunits : |S / 10 ^ 4 * (A - V * 10 ^ 4 / Q)| ≤ -S / 10 ^ 4 * (1 / 2) := by
    have hs : |S / 10 ^ 4| = -S / 10 ^ 4 := by
      rw [abs_div, abs_of_nonpos hS]
      norm_num
    rw [abs_mul, hs]
    exact mul_le_mul_of_nonneg_left hA (div_nonneg (by linarith) (by norm_num))
  have hsum := abs_add_le (T - S * A / 10 ^ 4) (S / 10 ^ 4 * (A - V * 10 ^ 4 / Q))
  rw [e, abs_div, abs_of_pos (show (0 : ℚ) < 10 ^ 4 by norm_num), div_le_iff₀ (by norm_num)]
  linarith

/-- The cost of what is taken at one unit cost. -/
theorem abs_sum_totalCost_sub {ms : List StockMovement} {cost : ℤ} (h : ∀ m ∈ ms, m.unitCost = cost) :
    |(((ms.map (·.totalCost)).sum : ℤ) : ℚ) - ((ms.map (·.quantity)).sum : ℤ) * cost / 10 ^ 4| ≤
      (ms.length : ℚ) / 2 := by
  have hround := abs_sum_roundDiv_sub (ms.map fun m => m.quantity * cost) (show 0 < 10 ^ 4 by norm_num)
  have hcosts : (ms.map fun m => m.quantity * cost).map (fun a => roundDiv a (10 ^ 4)) = ms.map (·.totalCost) := by
    rw [List.map_map]
    refine List.map_congr_left fun m hm => ?_
    rw [Function.comp_apply, ← h m hm]
    rfl
  rw [hcosts, List.length_map, List.sum_map_mul_right, Int.cast_mul, Nat.cast_pow, Nat.cast_ofNat] at hround
  exact hround

/-- A shipment takes every quantity at the average of its product. -/
theorem unitCost_of_shipped {db : DB} {id n : ℕ} {input : MoveInput} {m : StockMovement}
    (h : m ∈ movementRows n (db.shipments id input)) :
    m.unitCost = db.avgUnitCost m.productId m.warehouseId ∧ m.movementType = .issue ∧ m.quantity < 0 := by
  have hrow : ∀ xs n, m ∈ movementRows n xs → ∃ k, ∃ x ∈ xs, m = x.1.row k (some x.2) := by
    intro xs
    induction xs with
    | nil => exact fun n hm => absurd hm List.not_mem_nil
    | cons y xs ih =>
      intro n hm
      rcases List.mem_cons.1 hm with rfl | hm
      · exact ⟨n, y, List.mem_cons_self .., rfl⟩
      · obtain ⟨k, x, hx, e⟩ := ih (n + 1) hm
        exact ⟨k, x, List.mem_cons_of_mem _ hx, e⟩
  obtain ⟨k, y, hy, rfl⟩ := hrow _ n h
  obtain ⟨x, hx, rfl⟩ := List.mem_map.1 hy
  have hpos : 0 < x.2 := (mem_of_mem_pick hx).2
  exact ⟨rfl, rfl, show -x.2 < 0 by omega⟩

/-- Whatever a request to ship takes of a product with stock, the value on hand is what the average of before makes of
the rest, up to half a unit of 0.0001 for each piece taken and for each movement. -/
theorem ship_keeps_average {s s' : Store DB} (hs : Reachable s) {id : ℕ} {input : MoveInput} {gaps : ℕ → ℕ}
    {ids : List ℕ} (hc : (ShipSalesOrder id input).commit gaps s = .ok (ids, s')) :
    ∃ rows, s'.db.movements.rows = s.db.movements.rows ++ rows ∧ ids = rows.map (·.id) ∧
      (∀ m ∈ rows, m.movementType = .issue ∧ m.quantity < 0) ∧
      ∀ product warehouse q, 0 < s.db.qtyOnHand product warehouse →
        q = -((stockOf rows product warehouse).map (·.quantity)).sum →
        |decimal (s'.db.valueOnHand product warehouse) - decimal (s.db.valueOnHand product warehouse) *
            (decimal (s.db.qtyOnHand product warehouse) - decimal q) / decimal (s.db.qtyOnHand product warehouse)| ≤
          0.00005 * (decimal q + (stockOf rows product warehouse).length) ∧
        (q = s.db.qtyOnHand product warehouse → s'.db.qtyOnHand product warehouse = 0 ∧
          |decimal (s'.db.valueOnHand product warehouse)| ≤
            0.00005 * (decimal q + (stockOf rows product warehouse).length)) := by
  obtain ⟨w, hrun, -, rfl⟩ := Prog.commit_eq_ok.1 hc
  obtain ⟨n, hn, -, hids, hdb⟩ := run_ship_rows hrun
  have hfree := (hs.fresh.movements.mono hn).allFree (map_id_movementRows n (s.db.shipments id input))
  have hrows : w.db.movements.rows = s.db.movements.rows ++ movementRows n (s.db.shipments id input) := by
    rw [hdb]
    exact Table.rows_insertAll hfree
  generalize hr : movementRows n (s.db.shipments id input) = rows at hids hrows
  have hrow (m : StockMovement) (hm : m ∈ rows) := unitCost_of_shipped (hr ▸ hm : m ∈ movementRows n _)
  refine ⟨rows, hrows, hids, fun m hm => (hrow m hm).2, fun product warehouse q hQ hq => ?_⟩
  have hstock : w.db.stock product warehouse = s.db.stock product warehouse ++ stockOf rows product warehouse := by
    unfold DB.stock stockOf
    rw [hrows, List.filter_append]
  have hvalue : w.db.valueOnHand product warehouse =
      s.db.valueOnHand product warehouse + ((stockOf rows product warehouse).map (·.totalCost)).sum := by
    rw [DB.valueOnHand, hstock, List.map_append, List.sum_append]
    rfl
  have hqty : w.db.qtyOnHand product warehouse = s.db.qtyOnHand product warehouse - q := by
    rw [DB.qtyOnHand, hstock, List.map_append, List.sum_append, hq, sub_neg_eq_add]
    rfl
  have hcost : ∀ m ∈ stockOf rows product warehouse, m.unitCost = s.db.avgUnitCost product warehouse := by
    intro m hm
    obtain ⟨hm, hp⟩ := List.mem_filter.1 hm
    rw [Bool.and_eq_true, decide_eq_true_eq, decide_eq_true_eq] at hp
    rw [(hrow m hm).1, hp.1, hp.2]
  have hneg : ((stockOf rows product warehouse).map (·.quantity)).sum ≤ 0 := by
    refine (List.sum_le_card_nsmul _ 0 fun x hx => ?_).trans_eq (nsmul_zero _)
    obtain ⟨m, hm, rfl⟩ := List.mem_map.1 hx
    exact (hrow m (List.mem_filter.1 hm).1).2.2.le
  have hround := abs_sum_totalCost_sub hcost
  have havg : s.db.avgUnitCost product warehouse =
      divRound4 (s.db.valueOnHand product warehouse) (s.db.qtyOnHand product warehouse) := by
    rw [avgUnitCost_eq, if_neg hQ.ne']
  have hA := abs_divRound4_sub (s.db.valueOnHand product warehouse) hQ.ne'
  rw [← havg] at hA
  have hbound := average_error (show ((s.db.qtyOnHand product warehouse : ℤ) : ℚ) ≠ 0 by exact_mod_cast hQ.ne')
    (show ((((stockOf rows product warehouse).map (·.quantity)).sum : ℤ) : ℚ) ≤ 0 by exact_mod_cast hneg) hA hround
  have hq' : (q : ℚ) = -(((stockOf rows product warehouse).map (·.quantity)).sum : ℤ) := by exact_mod_cast hq
  have hv : (w.db.valueOnHand product warehouse : ℚ) = s.db.valueOnHand product warehouse +
      (((stockOf rows product warehouse).map (·.totalCost)).sum : ℤ) := by exact_mod_cast hvalue
  rw [← hq', ← hv] at hbound
  refine ⟨hbound, fun hall => ⟨by rw [hqty, hall, sub_self], ?_⟩⟩
  have hzero : (s.db.qtyOnHand product warehouse : ℚ) / 10 ^ 4 - q / 10 ^ 4 = 0 := by
    rw [hall, sub_self]
  rw [hzero, mul_zero, zero_div, sub_zero] at hbound
  exact hbound

/-- Three pieces of the ten that cost a dollar each are shipped: seven dollars are left. -/
theorem ship_keeps_average_received : ∃ s s' : Store DB, s.db.qtyOnHand 14 15 = 10 * 10 ^ 4 ∧
    s'.db.valueOnHand 14 15 = dollars 7 ∧ ∃ rows, s'.db.movements.rows = s.db.movements.rows ++ rows ∧
      |decimal (s'.db.valueOnHand 14 15) - decimal (s.db.valueOnHand 14 15) * (decimal (s.db.qtyOnHand 14 15) -
          decimal (-((stockOf rows 14 15).map (·.quantity)).sum)) / decimal (s.db.qtyOnHand 14 15)| ≤
        0.00005 * (decimal (-((stockOf rows 14 15).map (·.quantity)).sum) + (stockOf rows 14 15).length) := by
  obtain ⟨s, hs, hp⟩ := exists_reachable received
    (p := fun s => s.db.qtyOnHand 14 15 = 10 * 10 ^ 4 &&
      ((ShipSalesOrder 16 ⟨15, march6, [⟨17, 3 * 10 ^ 4⟩]⟩).commit (fun _ => 0) s).toOption.any fun x =>
        x.2.db.valueOnHand 14 15 = dollars 7)
    (by decide +kernel)
  simp only [Bool.and_eq_true, decide_eq_true_eq, Option.any_eq_true] at hp
  obtain ⟨hqty, ⟨ids, s'⟩, hc, hvalue⟩ := hp
  have hc : (ShipSalesOrder 16 ⟨15, march6, [⟨17, 3 * 10 ^ 4⟩]⟩).commit (fun _ => 0) s = .ok (ids, s') := by
    revert hc
    cases (ShipSalesOrder 16 ⟨15, march6, [⟨17, 3 * 10 ^ 4⟩]⟩).commit (fun _ => 0) s with
    | error e =>
      intro h
      cases h
    | ok x => exact fun h => congrArg _ (Option.some.inj h)
  obtain ⟨rows, hrows, -, -, hbound⟩ := ship_keeps_average hs hc
  exact ⟨s, s', hqty, hvalue, rows, hrows, (hbound 14 15 _ (by rw [hqty]; norm_num) rfl).1⟩
