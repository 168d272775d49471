import Tadmor.Model.Documents

/-!
# Payments and stock movements

Creating, editing and deleting them.  A payment is edited and deleted only as a draft.  A stock movement has no
status: it is a draft while it has no entry, and one that fulfils an order is not edited.
-/

/-! ### Payments -/

structure PaymentInput where
  partyId : ℕ
  date : Date
  currencyCode : String
  amount : ℤ
  cashAccountId : Option ℕ := none
deriving DecidableEq

/-- The constraints of a payment row with the fields of `input`. -/
def DB.paymentCheck (db : DB) (side : Side) (input : PaymentInput) : Except Err Unit := do
  ensure (fits input.amount) (.sql .numericValueOutOfRange "amount")
  ensure (0 < input.amount) (.sql .checkViolation "amount_check")
  ensure (db.partyOf side input.partyId).isSome (.sql .foreignKeyViolation "party_id_fkey")
  ensure (input.currencyCode ∈ currencies) (.sql .foreignKeyViolation "currency_code_fkey")
  ensure (refOk db.accounts input.cashAccountId) (.sql .foreignKeyViolation "account_id_fkey")

def PaymentInput.row (input : PaymentInput) (side : Side) (id : ℕ) : Payment :=
  { id, side, partyId := input.partyId, date := input.date, currencyCode := input.currencyCode,
    amount := input.amount, cashAccountId := input.cashAccountId }

def createPayment (side : Side) (input : PaymentInput) : Txn ℕ := Prog.exec fun n db => do
  db.paymentCheck side input
  .ok { res := n, used := 1, act := fun d => { d with payments := d.payments.insert (input.row side n) } }

def draftPayment (side : Side) (p : Payment) : Bool := p.side = side && p.status = .draft

/-- The fields an update of a payment writes. -/
def Payment.edited (p : Payment) (input : PaymentInput) : Payment :=
  { p with partyId := input.partyId, date := input.date, currencyCode := input.currencyCode,
           amount := input.amount, cashAccountId := input.cashAccountId }

def updatePaymentRow (side : Side) (id : ℕ) (input : PaymentInput) : Txn ℕ := Prog.exec fun _ db => do
  let ks := db.payments.hit id (draftPayment side)
  if ks = [] then .ok { res := 0 }
  else
    db.paymentCheck side input
    .ok {
      res := ks.length
      act := fun d => { d with payments := d.payments.update ks (·.edited input) }
      locks := ks.map (.write .payment) }

def updatePayment (side : Side) (id : ℕ) (input : PaymentInput) : Txn Unit := do
  let n ← updatePaymentRow side id input
  if n = 0 then notFoundOrNotDraft side.payment id fun db => (db.paymentOf side id).map (·.status) else pure ()

/-- `DELETE FROM` a payment; its applications cascade. -/
def deletePaymentRow (side : Side) (id : ℕ) : Txn ℕ := Prog.exec fun _ db =>
  let ks := db.payments.hit id (draftPayment side)
  if ks = [] then .ok { res := 0 }
  else
    let isOwn := fun a : Application => a.settler = .payment && a.settlerId = id
    let as := db.applications.keysWhere isOwn
    .ok {
      res := ks.length
      act := fun d => { d with payments := d.payments.erase ks, applications := d.applications.erase as }
      locks := ks.map (.delete .payment) ++ as.map (.delete .application)
      checks := (db.applications.rows.filter isOwn).map fun a => DB.applicationCheck a true }

def deletePayment (side : Side) (id : ℕ) : Txn Unit := do
  let n ← deletePaymentRow side id
  if n = 0 then notFoundOrNotDraft side.payment id fun db => (db.paymentOf side id).map (·.status) else pure ()

def CreateCustomerPayment := createPayment .sales
def CreateSupplierPayment := createPayment .purchase
def UpdateCustomerPayment := updatePayment .sales
def UpdateSupplierPayment := updatePayment .purchase
def DeleteCustomerPayment := deletePayment .sales
def DeleteSupplierPayment := deletePayment .purchase

/-! ### Stock movements -/

/-- `movementDate` is the date of the request, or the current date if it gives none. -/
structure MovementInput where
  productId : ℕ
  warehouseId : ℕ
  movementType : MovementType
  movementDate : Date
  quantity : ℤ
  unitCost : ℤ := 0
deriving DecidableEq

def MovementInput.row (input : MovementInput) (id : ℕ) (source : Option (Side × ℕ)) : StockMovement :=
  { id, productId := input.productId, warehouseId := input.warehouseId, movementDate := input.movementDate,
    movementType := input.movementType, quantity := input.quantity, unitCost := input.unitCost, source }

/-- `trg_stock_movement_product_ok` -/
def DB.productOk (db : DB) (product : ℕ) : Except Err Unit :=
  match db.products.find? product with
  | none => .ok ()
  | some p => do
    ensure p.trackInventory (.sql .raiseException s!"product {product} is not inventory-tracked")
    ensure p.isActive (.sql .raiseException s!"product {product} is inactive")

/-- `stock_movements_sign` -/
def MovementType.signOk : MovementType → ℤ → Bool
  | .receipt, q => 0 < q
  | .transferIn, q => 0 < q
  | .issue, q => q < 0
  | .transferOut, q => q < 0
  | .adjustment, _ => true

/-- The trigger, the constraints and the foreign keys of a row of `stock_movements`. -/
def StockMovement.check (db : DB) (m : StockMovement) : Except Err Unit := do
  db.productOk m.productId
  ensure (fits m.quantity && fits m.unitCost && fits m.totalCost) (.sql .numericValueOutOfRange "stock_movements")
  ensure (m.quantity ≠ 0) (.sql .checkViolation "stock_movements_quantity_check")
  ensure (0 ≤ m.unitCost) (.sql .checkViolation "stock_movements_unit_cost_check")
  ensure (m.movementType.signOk m.quantity) (.sql .checkViolation "stock_movements_sign")
  ensure (db.products.find? m.productId).isSome (.sql .foreignKeyViolation "stock_movements_product_id_fkey")
  ensure (db.warehouses.find? m.warehouseId).isSome (.sql .foreignKeyViolation "stock_movements_warehouse_id_fkey")

def CreateStockMovement (input : MovementInput) : Txn ℕ := Prog.exec fun n db => do
  (input.row n none).check db
  .ok { res := n, used := 1, act := fun d => { d with movements := d.movements.insert (input.row n none) } }

/-- `stockMovementWriteError`: why a guarded write of a movement matched no row. -/
def stockMovementWriteError {α : Type} (id : ℕ) (forUpdate : Bool) : Txn α := do
  match ← Prog.read fun db => db.movements.find? id with
  | none => .throw (.documents .notFound s!"documents: stock movement {id}")
  | some m =>
    if m.journalEntryId.isSome then .throw (.documents .notDraft s!"documents: stock movement {id} is posted")
    else if forUpdate && m.source.isSome then
      .throw (.documents .orderLinked s!"documents: stock movement {id}")
    else .throw (.documents .notFound s!"documents: stock movement {id}")

/-- The fields an update of a movement writes. -/
def StockMovement.edited (m : StockMovement) (input : MovementInput) : StockMovement :=
  { m with productId := input.productId, warehouseId := input.warehouseId, movementType := input.movementType,
           movementDate := input.movementDate, quantity := input.quantity, unitCost := input.unitCost }

def updateMovementRow (id : ℕ) (input : MovementInput) : Txn ℕ := Prog.exec fun _ db => do
  let ks := db.movements.hit id fun m => m.journalEntryId = none && m.source = none
  if ks = [] then .ok { res := 0 }
  else
    (input.row id none).check db
    .ok {
      res := ks.length
      act := fun d => { d with movements := d.movements.update ks (·.edited input) }
      locks := ks.map (.write .movement) }

def UpdateStockMovement (id : ℕ) (input : MovementInput) : Txn Unit := do
  let n ← updateMovementRow id input
  if n = 0 then stockMovementWriteError id true else pure ()

def deleteMovementRow (id : ℕ) : Txn ℕ := Prog.exec fun _ db =>
  let ks := db.movements.hit id fun m => m.journalEntryId = none
  .ok {
    res := ks.length
    act := fun d => { d with movements := d.movements.erase ks }
    locks := ks.map (.delete .movement) }

def DeleteStockMovement (id : ℕ) : Txn Unit := do
  let n ← deleteMovementRow id
  if n = 0 then stockMovementWriteError id false else pure ()
