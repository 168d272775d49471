import Mathlib.Data.List.Dedup
import Tadmor.Model.Orders
import Tadmor.Theory.Decimal

/-!
# Stock on hand

`div_round4` on numerics of any scale, and the views that total the stock movements with their average costs.
-/

namespace Numeric

/-- `div_round4` -/
def divRound4 (n d : Decimal) : Option Decimal :=
  ((n.abs * .ofInt 20000 + d.abs).div (.ofInt 2 * d.abs)).map fun q => n.sign * d.sign * q * ⟨1, 4⟩

end Numeric

/-- The columns of `stock_on_hand` and `stock_valuation` for a group of movements. -/
structure StockTotals where
  qtyOnHand : ℤ
  valueOnHand : ℤ
  avgUnitCost : Option Decimal
deriving DecidableEq

def stockTotals (ms : List StockMovement) : StockTotals :=
  let qty := (ms.map (·.quantity)).sum
  let value := (ms.map (·.totalCost)).sum
  { qtyOnHand := qty
    valueOnHand := value
    avgUnitCost := if qty ≠ 0 then Numeric.divRound4 ⟨value, 4⟩ ⟨qty, 4⟩ else some (.ofInt 0) }

/-- `GROUP BY key` -/
def groupStock {κ : Type} [DecidableEq κ] (key : StockMovement → κ) (ms : List StockMovement) : List (κ × StockTotals) :=
  (ms.map key).dedup.map fun k => (k, stockTotals (ms.filter fun m => key m = k))

namespace DB

/-- `stock_on_hand`, by product and warehouse -/
def stockOnHand (db : DB) : List ((ℕ × ℕ) × StockTotals) :=
  groupStock (fun m => (m.productId, m.warehouseId)) db.movements.rows

/-- `stock_valuation`, by product -/
def stockValuation (db : DB) : List (ℕ × StockTotals) := groupStock (·.productId) db.movements.rows

end DB
