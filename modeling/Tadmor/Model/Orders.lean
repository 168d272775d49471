import Tadmor.Model.YearEnd

/-!
# Orders

The order lifecycle, and fulfilment: invoices and bills created from an open order, goods received and shipped
against it.  Fulfilled quantities are read back from the lines and movements that carry the order line.
-/

/-! ### Lifecycle -/

/-- `statusOf` -/
def orderStatus (side : Side) (id : ℕ) : Txn DocStatus := Prog.query fun db =>
  match db.docOf side.order id with
  | none => .error (.orders .notFound s!"orders: {side.order.noun} {id}")
  | some o => .ok o.status

def Doc.withStatus (d : Doc) (status : DocStatus) : Doc := { d with status }

def confirm (side : Side) (id : ℕ) : Txn Unit := do
  let status ← orderStatus side id
  Prog.require (status = .draft) (.orders .notDraft s!"orders: {side.order.noun} {id}")
  let lines ← Prog.read fun db => (db.linesOfDoc id).length
  Prog.require (lines ≠ 0) (.orders .noLines s!"orders: {side.order.noun} {id}")
  updateDocRow side.order id (·.withStatus .opened)

def closeOrder (side : Side) (id : ℕ) : Txn Unit := do
  let status ← orderStatus side id
  Prog.require (status = .opened) (.orders .notOpen s!"orders: {side.order.noun} {id}")
  updateDocRow side.order id (·.withStatus .closed)

/-- The quantity shipped or received against an order line: movements out of stock count as shipped. -/
def DB.moved (db : DB) (side : Side) (orderLineId : ℕ) : ℤ :=
  let qty := ((db.movements.rows.filter fun m => m.source = some (side, orderLineId)).map (·.quantity)).sum
  match side with
  | .sales => -qty
  | .purchase => qty

def DB.anyFulfilled (db : DB) (side : Side) (id : ℕ) : Bool :=
  (db.linesOfDoc id).any fun l => 0 < db.fulfilled l.id || 0 < db.moved side l.id

def cancel (side : Side) (id : ℕ) : Txn Unit := do
  let status ← orderStatus side id
  match status with
  | .draft => updateDocRow side.order id (·.withStatus .cancelled)
  | .opened => do
    let fulfilled ← Prog.read fun db => db.anyFulfilled side id
    Prog.require (!fulfilled) (.orders .fulfilled s!"orders: {side.order.noun} {id}")
    updateDocRow side.order id (·.withStatus .cancelled)
  | s => .throw (.orders .notOpen s!"orders: {side.order.noun} {id} is {s.text}")

def ConfirmSalesOrder := confirm .sales
def ConfirmPurchaseOrder := confirm .purchase
def CloseSalesOrder := closeOrder .sales
def ClosePurchaseOrder := closeOrder .purchase
def CancelSalesOrder := cancel .sales
def CancelPurchaseOrder := cancel .purchase

/-! ### Fulfilment -/

/-- A requested quantity of an order line. -/
structure LineQty where
  orderLineId : ℕ
  quantity : ℤ
deriving DecidableEq

/-- The quantities to fulfil: all that is left if nothing is requested, otherwise what is requested of each line, up
to what is left.  A line requested twice is picked twice. -/
def pickLine (req : List LineQty) (left : DocLine → ℤ) (l : DocLine) : List (DocLine × ℤ) :=
  if req = [] then [(l, left l)]
  else
    match req.filter fun r => r.orderLineId = l.id with
    | [] => [(l, min (left l) 0)]
    | rs => rs.map fun r => (l, min (left l) r.quantity)

def pick (req : List LineQty) (left : DocLine → ℤ) (lines : List DocLine) : List (DocLine × ℤ) :=
  (lines.flatMap (pickLine req left)).filter fun x => 0 < x.2

/-- `qty_to_invoice`, `qty_to_bill` -/
def DB.toInvoice (db : DB) (l : DocLine) : ℤ := max (l.quantity - db.fulfilled l.id) 0

def DB.tracked (db : DB) (l : DocLine) : Bool :=
  (l.productId.bind db.products.find?).any fun p => p.trackInventory

/-- `qty_to_ship`, `qty_to_receive` -/
def DB.toMove (db : DB) (side : Side) (l : DocLine) : ℤ :=
  if db.tracked l then max (l.quantity - db.moved side l.id) 0 else 0

/-- What `Create…From…Order` reads: the open order. -/
def openOrder (side : Side) (id : ℕ) (db : DB) : Option Doc :=
  (db.docOf side.order id).filter (·.status = .opened)

/-- `notFoundOrNotOpen` -/
def notFoundOrNotOpen {α : Type} (side : Side) (id : ℕ) : Txn α := do
  let status ← orderStatus side id
  .throw (.orders .notOpen s!"orders: {side.order.noun} {id} is {status.text}")

structure FromOrderInput where
  number : String
  date : Date
  dueDate : Option Date := none
  lines : List LineQty := []
deriving DecidableEq

def FromOrderInput.header (input : FromOrderInput) (o : Doc) : DocInput :=
  { number := input.number, partyId := o.partyId, date := input.date, dueDate := input.dueDate,
    currencyCode := o.currencyCode }

/-- The line that invoices `qty` of the order line `l`. -/
def DocLine.fulfil (l : DocLine) (qty : ℤ) : NewDocLine :=
  { productId := l.productId, description := l.description, quantity := qty, unitPrice := l.unitPrice,
    accountId := l.accountId, taxCode := l.taxCode, taxRate := l.taxRate, orderLineId := some l.id }

/-- The lines of an order in the order of their ids. -/
def DB.orderLines (db : DB) (id : ℕ) : List DocLine :=
  (db.linesOfDoc id).insertionSort fun l m => l.id ≤ m.id

def numberFrom (i : ℕ) : List (DocLine × ℤ) → List (ℕ × NewDocLine)
  | [] => []
  | (l, qty) :: xs => (i, l.fulfil qty) :: numberFrom (i + 1) xs

def fromOrder (side : Side) (id : ℕ) (input : FromOrderInput) : Txn ℕ := do
  match ← Prog.read (openOrder side id) with
  | none => notFoundOrNotOpen side id
  | some o => do
    let docId ← insertHeader side.invoice (input.header o)
    let n ← insertDocLines side.invoice docId fun db => numberFrom 1 (pick input.lines db.toInvoice (db.orderLines id))
    Prog.require (n ≠ 0) (.orders .nothingToFulfil s!"orders: {side.order.noun} {id}")
    pure docId

def CreateInvoiceFromSalesOrder := fromOrder .sales
def CreateBillFromPurchaseOrder := fromOrder .purchase

structure MoveInput where
  warehouseId : ℕ
  movementDate : Date
  lines : List LineQty := []
deriving DecidableEq

def requireOpenOrder (side : Side) (id : ℕ) : Txn Unit := do
  let status ← orderStatus side id
  Prog.require (status = .opened) (.orders .notOpen s!"orders: {side.order.noun} {id}")

def DB.isMovable (db : DB) (l : DocLine) : Bool :=
  (l.productId.bind db.products.find?).any fun p => p.trackInventory && p.isActive

def checkMovements (db : DB) : List StockMovement → Except Err Unit
  | [] => .ok ()
  | m :: ms => do
    m.check db
    checkMovements db ms

/-- The movements of a fulfilment, numbered from `n`. -/
def movementRows : ℕ → List (MovementInput × Side × ℕ) → List StockMovement
  | _, [] => []
  | n, (input, source) :: xs => input.row n (some source) :: movementRows (n + 1) xs

/-- `INSERT INTO stock_movements` of the rows that `select` finds; returns their ids. -/
def insertMovements (select : DB → List (MovementInput × Side × ℕ)) : Txn (List ℕ) := Prog.exec fun n db => do
  let rows := movementRows n (select db)
  checkMovements db rows
  .ok {
    res := rows.map (·.id)
    used := rows.length
    act := fun d => { d with movements := d.movements.insertAll rows } }

def ReceivePurchaseOrder (id : ℕ) (input : MoveInput) : Txn (List ℕ) := do
  requireOpenOrder .purchase id
  let rate ← Prog.read fun db => (db.docOf .purchaseOrder id).bind fun o => db.rateFor o.currencyCode input.movementDate
  match rate with
  | none => .throw (.orders .noExchangeRate s!"orders: {DocKind.purchaseOrder.noun} {id}")
  | some rate => do
    let ids ← insertMovements fun db =>
      (pick input.lines (db.toMove .purchase) ((db.linesOfDoc id).filter db.isMovable)).map fun x =>
        ({ productId := x.1.productId.getD 0, warehouseId := input.warehouseId, movementType := .receipt,
           movementDate := input.movementDate, quantity := x.2, unitCost := toBase x.1.unitPrice rate },
          .purchase, x.1.id)
    Prog.require (ids ≠ []) (.orders .nothingToFulfil s!"orders: {DocKind.purchaseOrder.noun} {id}")
    pure ids

/-- `div_round4` -/
def divRound4 (n d : ℤ) : ℤ := n.sign * d.sign * ((n.natAbs * 20000 + d.natAbs) / (2 * d.natAbs) : ℕ)

/-- `avg_unit_cost` of `stock_on_hand`, and 0 without stock. -/
def DB.avgUnitCost (db : DB) (product warehouse : ℕ) : ℤ :=
  let ms := db.movements.rows.filter fun m => m.productId = product && m.warehouseId = warehouse
  let qty := (ms.map (·.quantity)).sum
  if qty = 0 then 0 else divRound4 (ms.map (·.totalCost)).sum qty

def ShipSalesOrder (id : ℕ) (input : MoveInput) : Txn (List ℕ) := do
  requireOpenOrder .sales id
  let ids ← insertMovements fun db =>
    (pick input.lines (db.toMove .sales) ((db.linesOfDoc id).filter db.isMovable)).map fun x =>
      ({ productId := x.1.productId.getD 0, warehouseId := input.warehouseId, movementType := .issue,
         movementDate := input.movementDate, quantity := -x.2,
         unitCost := db.avgUnitCost (x.1.productId.getD 0) input.warehouseId },
        .sales, x.1.id)
  Prog.require (ids ≠ []) (.orders .nothingToFulfil s!"orders: {DocKind.salesOrder.noun} {id}")
  pure ids
