import Tadmor.Model.Apply

/-!
# Unposting

A posted document's entry is reversed and the document goes back to draft.  An invoice, bill or credit note with
applications is refused; a payment's applications are deleted, their exchange differences reversed first.
-/

def Doc.unposted (d : Doc) : Doc := { d with status := .draft, journalEntryId := none, periodId := none }

def Payment.unposted (p : Payment) : Payment := { p with status := .draft, journalEntryId := none, periodId := none }

theorem Payment.unposted_id (p : Payment) : p.unposted.id = p.id := rfl

def StockMovement.unlinked (m : StockMovement) : StockMovement := { m with journalEntryId := none, periodId := none }

/-- `postedEntryOf` -/
def postedEntryOf (noun : String) (id : ℕ) (find : DB → Option (DocStatus × Option ℕ)) : Txn ℕ :=
  Prog.query fun db =>
    match find db with
    | none => .error (.posting .notFound s!"posting: {noun} {id}")
    | some (.posted, some je) => .ok je
    | some _ => .error (.posting .notPosted s!"posting: {noun} {id}")

/-- The application is to the invoice or bill, or of the credit note. -/
def Application.involves (kind : DocKind) (id : ℕ) (a : Application) : Bool :=
  a.side.invoice = kind && a.docId = id || a.settler = .creditNote && a.side.creditNote = kind && a.settlerId = id

def unpostDoc (kind : DocKind) (id : ℕ) : Txn ℕ := do
  let je ← postedEntryOf kind.noun id fun db => (db.docOf kind id).map fun d => (d.status, d.journalEntryId)
  let hasApps ← Prog.read fun db => db.applications.rows.any (Application.involves kind id)
  Prog.require (!hasApps) (.posting .hasApplications s!"posting: {kind.noun} {id}")
  let rev ← reverseEntry je
  updateDocRow kind id Doc.unposted
  pure rev

def UnpostSalesInvoice := unpostDoc .salesInvoice
def UnpostPurchaseBill := unpostDoc .purchaseBill
def UnpostSalesCreditNote := unpostDoc .salesCreditNote
def UnpostPurchaseCreditNote := unpostDoc .purchaseCreditNote

/-- The applications of a payment. -/
def ownApplication (side : Side) (id : ℕ) (a : Application) : Bool :=
  a.side = side && a.settler = .payment && a.settlerId = id

def reverseEach : List ℕ → Txn Unit
  | [] => pure ()
  | e :: es => do
    let _ ← reverseEntry e
    reverseEach es

def reverseApplicationFX (side : Side) (id : ℕ) : Txn Unit := do
  let entries ← Prog.read fun db =>
    (db.applications.rows.filter (ownApplication side id)).filterMap (·.fxJournalEntryId)
  reverseEach entries

def deleteApplications (side : Side) (id : ℕ) : Txn Unit := Prog.exec fun _ db =>
  let ks := db.applications.keysWhere (ownApplication side id)
  .ok {
    res := ()
    act := fun d => { d with applications := d.applications.erase ks }
    locks := ks.map (.delete .application)
    checks := (db.applications.rows.filter (ownApplication side id)).map fun a => DB.applicationCheck a true }

def unpostPayment (side : Side) (id : ℕ) : Txn ℕ := do
  let je ← postedEntryOf side.payment id fun db => (db.paymentOf side id).map fun p => (p.status, p.journalEntryId)
  let rev ← reverseEntry je
  reverseApplicationFX side id
  deleteApplications side id
  updatePaymentById side id Payment.unposted
  pure rev

def UnpostCustomerPayment := unpostPayment .sales
def UnpostSupplierPayment := unpostPayment .purchase

def UnpostStockMovement (id : ℕ) : Txn ℕ := do
  let je ← Prog.query fun db =>
    match db.movements.find? id with
    | none => .error (.posting .notFound s!"posting: stock movement {id}")
    | some m =>
      match m.journalEntryId with
      | none => .error (.posting .notPosted s!"posting: stock movement {id}")
      | some je => .ok je
  let rev ← reverseEntry je
  updateMovementById id StockMovement.unlinked
  pure rev
