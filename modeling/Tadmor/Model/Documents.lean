import Tadmor.Model.Journal

/-!
# Draft documents

Creating, editing and deleting documents.  A document is edited and deleted only as a draft, by the WHERE clause of
the write.  Triggers keep the totals of a draft document equal to the sums of its lines, and check deferred that
fulfilment lines fit their order and that no document or settler is over-applied.
-/

namespace DB

def docOf (db : DB) (kind : DocKind) (id : ℕ) : Option Doc := (db.docs.find? id).filter (·.kind = kind)

def partyOf (db : DB) (side : Side) (id : ℕ) : Option Party := (db.parties.find? id).filter (·.side = side)

def paymentOf (db : DB) (side : Side) (id : ℕ) : Option Payment := (db.payments.find? id).filter (·.side = side)

def linesOfDoc (db : DB) (id : ℕ) : List DocLine := db.docLines.rows.filter fun l => l.docId = id

/-! ### Applications -/

/-- `invoice_amount_settled` and `bill_amount_settled` -/
def amountSettled (db : DB) (docId : ℕ) : ℤ :=
  ((db.applications.rows.filter fun a => a.docId = docId).map (·.amountApplied)).sum

/-- The sum of the applications of one payment or credit note. -/
def amountApplied (db : DB) (settler : SettlerKind) (settlerId : ℕ) : ℤ :=
  ((db.applications.rows.filter fun a => a.settler = settler && a.settlerId = settlerId).map (·.amountApplied)).sum

end DB

/-- What the application queries read of a payment or credit note. -/
structure Settler where
  partyId : ℕ
  currencyCode : String
  amount : ℤ
  date : Date
  status : DocStatus
  journalEntryId : Option ℕ
deriving DecidableEq

def Payment.toSettler (p : Payment) : Settler :=
  { partyId := p.partyId, currencyCode := p.currencyCode, amount := p.amount, date := p.date, status := p.status,
    journalEntryId := p.journalEntryId }

def Doc.toSettler (d : Doc) : Settler :=
  { partyId := d.partyId, currencyCode := d.currencyCode, amount := d.total, date := d.date, status := d.status,
    journalEntryId := d.journalEntryId }

def DB.settlerOf (db : DB) (side : Side) : SettlerKind → ℕ → Option Settler
  | .payment, id => (db.paymentOf side id).map Payment.toSettler
  | .creditNote, id => (db.docOf side.creditNote id).map Doc.toSettler

/-- A settler and the document it settles belong to the same party and have the same currency. -/
def sameParty : Option Settler → Option Doc → Except Err Unit
  | some s, some d => do
    ensure (s.partyId = d.partyId) (.sql .raiseException "belong to different parties")
    ensure (s.currencyCode = d.currencyCode) (.sql .raiseException "are in different currencies")
  | _, _ => .ok ()

/-- The deferred check of an application row; `deleted` tells a deletion from an insertion or update. -/
def DB.applicationCheck (a : Application) (deleted : Bool) (db : DB) : Except Err Unit := do
  let settler := db.settlerOf a.side a.settler a.settlerId
  let doc := db.docOf a.side.invoice a.docId
  if deleted then .ok () else sameParty settler doc
  ensure (settler.all fun s => db.amountApplied a.settler a.settlerId ≤ s.amount)
    (.sql .raiseException s!"settler {a.settlerId} over-applied")
  ensure (doc.all fun d => db.amountSettled a.docId ≤ d.total)
    (.sql .raiseException s!"{a.side.invoice.noun} {a.docId} over-applied")

/-! ### Lines -/

/-- A line of a request; what is omitted has these defaults. -/
structure DocLineInput where
  productId : Option ℕ := none
  description : String := ""
  quantity : ℤ := 10 ^ 4
  unitPrice : ℤ := 0
  accountId : Option ℕ := none
  taxCode : Option String := none
  taxRate : ℤ := 0
deriving DecidableEq

/-- A line to insert; only the lines of a fulfilment have an order line. -/
structure NewDocLine extends DocLineInput where
  orderLineId : Option ℕ := none
deriving DecidableEq

def NewDocLine.row (l : NewDocLine) (docId id lineNo : ℕ) : DocLine :=
  { id, docId, lineNo, productId := l.productId, description := l.description, quantity := l.quantity,
    unitPrice := l.unitPrice, accountId := l.accountId, taxCode := l.taxCode, taxRate := l.taxRate,
    orderLineId := l.orderLineId }

/-- A reference that is set must be to a row that is there. -/
def refOk {α κ : Type} [Keyed α κ] [DecidableEq κ] (t : Table α) (ref : Option κ) : Bool :=
  ref.all fun k => (t.find? k).isSome

/-- The checks and foreign keys of a document line. -/
def DocLine.check (db : DB) (kind : DocKind) (l : DocLine) : Except Err Unit := do
  ensure (fits l.quantity && fits l.unitPrice && l.taxRate.natAbs < 10 ^ 7 && fits l.lineSubtotal &&
    fits l.taxAmount && fits l.lineTotal) (.sql .numericValueOutOfRange "lines")
  ensure (if kind.isOrder then 0 < l.quantity else l.quantity ≠ 0) (.sql .checkViolation "lines_quantity_check")
  ensure (0 ≤ l.taxRate) (.sql .checkViolation "lines_tax_rate_check")
  ensure (db.docLines.rows.all fun m => m.docId ≠ l.docId || m.lineNo ≠ l.lineNo)
    (.sql .uniqueViolation "lines_line_no_uq")
  ensure (db.docOf kind l.docId).isSome (.sql .foreignKeyViolation "lines_doc_id_fkey")
  ensure (refOk db.products l.productId) (.sql .foreignKeyViolation "lines_product_id_fkey")
  ensure (refOk db.accounts l.accountId) (.sql .foreignKeyViolation "lines_account_id_fkey")
  ensure (refOk db.taxCodes l.taxCode) (.sql .foreignKeyViolation "lines_tax_code_fkey")
  ensure (refOk db.docLines l.orderLineId) (.sql .foreignKeyViolation "lines_order_line_id_fkey")

/-- The quantity of an order line on the documents that are not void. -/
def DB.fulfilled (db : DB) (orderLineId : ℕ) : ℤ :=
  ((db.docLines.rows.filter fun m =>
    m.orderLineId = some orderLineId && (db.docs.find? m.docId).any fun d => d.status ≠ .void).map (·.quantity)).sum

/-- An order line with its order. -/
def DB.orderLine (db : DB) (orderLineId : ℕ) : Option (DocLine × Doc) :=
  (db.docLines.find? orderLineId).bind fun ol => (db.docs.find? ol.docId).map fun o => (ol, o)

/-- The deferred check of an invoice or bill line: the order it fulfils is open, has the same party and currency,
and is not over-invoiced. -/
def DB.orderCheck (l : DocLine) (db : DB) : Except Err Unit :=
  match l.orderLineId with
  | none => .ok ()
  | some k =>
    match db.orderLine k with
    | none => .ok ()
    | some (ol, o) => do
      ensure (o.status = .opened) (.sql .raiseException s!"{o.kind.noun} {o.number} is {o.status.text}")
      ensure ((db.docs.find? l.docId).all fun d => o.partyId = d.partyId)
        (.sql .raiseException "belong to different parties")
      ensure ((db.docs.find? l.docId).all fun d => o.currencyCode = d.currencyCode)
        (.sql .raiseException "are in different currencies")
      ensure (db.fulfilled k ≤ ol.quantity)
        (.sql .raiseException s!"{o.kind.noun} {o.number} line over-fulfilled")

def Doc.withTotals (d : Doc) (subtotal taxTotal total : ℤ) : Doc := { d with subtotal, taxTotal, total }

/-- What the recompute triggers do to the header of `docId` once the lines are `lines`: nothing unless it is a
draft. -/
def DB.recompute (db : DB) (docId : ℕ) (lines : Table DocLine) : Except Err (Table Doc → Table Doc) := do
  let ls := lines.rows.filter fun l => l.docId = docId
  let subtotal := (ls.map DocLine.lineSubtotal).sum
  let taxTotal := (ls.map DocLine.taxAmount).sum
  let total := (ls.map DocLine.lineTotal).sum
  let draft := db.docs.hit docId (·.status = .draft)
  ensure (draft = [] || fits subtotal && fits taxTotal && fits total) (.sql .numericValueOutOfRange "total")
  .ok fun docs => docs.update draft (·.withTotals subtotal taxTotal total)

/-- The rows of `ls`, numbered from `n`. -/
def numberRows (docId : ℕ) : ℕ → List (ℕ × NewDocLine) → List DocLine
  | _, [] => []
  | n, (lineNo, l) :: ls => l.row docId n lineNo :: numberRows docId (n + 1) ls

def checkRows (db : DB) (kind : DocKind) : List DocLine → Except Err Unit
  | [] => .ok ()
  | l :: ls => do
    l.check db kind
    checkRows db kind ls

/-- `INSERT INTO` the lines of `docId`, with the numbers of the lines; returns how many rows it inserted. -/
def insertDocLines (kind : DocKind) (docId : ℕ) (select : DB → List (ℕ × NewDocLine)) : Txn ℕ :=
  Prog.exec fun n db => do
    let rows := numberRows docId n (select db)
    checkRows db kind rows
    ensure ((rows.map (·.lineNo)).Nodup) (.sql .uniqueViolation "lines_line_no_uq")
    if rows = [] then .ok { res := 0 }
    else
      let recompute ← db.recompute docId (db.docLines.insertAll rows)
      .ok {
        res := rows.length
        used := rows.length
        act := fun d => { d with docLines := d.docLines.insertAll rows, docs := recompute d.docs }
        locks := .keyShare .doc docId :: (db.docs.hit docId (·.status = .draft)).map (.write .doc)
        checks := rows.map DB.orderCheck }

/-- The loop of the `insert…Lines` functions: one INSERT a line. -/
def insertLinesOf (kind : DocKind) (docId : ℕ) : ℕ → List DocLineInput → Txn Unit
  | _, [] => pure ()
  | i, l :: ls => do
    let _ ← insertDocLines kind docId fun _ => [(i + 1, { toDocLineInput := l })]
    insertLinesOf kind docId (i + 1) ls

/-- `DELETE FROM` the lines of `docId`. -/
def deleteDocLines (docId : ℕ) : Txn Unit := Prog.exec fun _ db => do
  let ks := db.docLines.keysWhere fun l => l.docId = docId
  ensure (db.docLines.rows.all fun l => l.orderLineId.all fun k => k ∉ ks)
    (.sql .foreignKeyViolation "lines_order_line_id_fkey")
  if ks = [] then .ok { res := () }
  else
    let recompute ← db.recompute docId (db.docLines.erase ks)
    .ok {
      res := ()
      act := fun d => { d with docLines := d.docLines.erase ks, docs := recompute d.docs }
      locks := ks.map (.delete .docLine) ++ (db.docs.hit docId (·.status = .draft)).map (.write .doc) }

/-! ### Headers -/

structure DocInput where
  number : String
  partyId : ℕ
  date : Date
  dueDate : Option Date := none
  currencyCode : String
  lines : List DocLineInput := []
deriving DecidableEq

/-- The scope of the uniqueness of a number: bills and purchase credit notes number by supplier. -/
def DocKind.numberScope (kind : DocKind) (party : ℕ) : Option ℕ :=
  match kind with
  | .purchaseBill => some party
  | .purchaseCreditNote => some party
  | _ => none

def DB.numberTaken (db : DB) (kind : DocKind) (docId : ℕ) (input : DocInput) : Bool :=
  db.docs.rows.any fun d => d.id ≠ docId && d.kind = kind && d.number = input.number &&
    kind.numberScope d.partyId = kind.numberScope input.partyId

/-- The constraints of a header row with the fields of `input`. -/
def DB.headerCheck (db : DB) (kind : DocKind) (docId : ℕ) (input : DocInput) : Except Err Unit := do
  ensure (kind.isCreditNote || input.dueDate.all fun due => input.date ≤ due)
    (.sql .checkViolation "due_after_date")
  ensure (!db.numberTaken kind docId input) (.sql .uniqueViolation "number_uq")
  ensure (db.partyOf kind.side input.partyId).isSome (.sql .foreignKeyViolation "party_id_fkey")
  ensure (input.currencyCode ∈ currencies) (.sql .foreignKeyViolation "currency_code_fkey")

def DocInput.lock (input : DocInput) (kind : DocKind) : Lock :=
  .docNumber kind (kind.numberScope input.partyId) input.number

def DocInput.header (input : DocInput) (kind : DocKind) (id : ℕ) : Doc :=
  { id, kind, number := input.number, partyId := input.partyId, date := input.date,
    dueDate := if kind.isCreditNote then none else input.dueDate, currencyCode := input.currencyCode }

def insertHeader (kind : DocKind) (input : DocInput) : Txn ℕ := Prog.exec fun n db => do
  db.headerCheck kind n input
  .ok {
    res := n
    used := 1
    act := fun d => { d with docs := d.docs.insert (input.header kind n) }
    locks := [input.lock kind] }

def createDoc (kind : DocKind) (input : DocInput) : Txn ℕ := do
  let id ← insertHeader kind input
  insertLinesOf kind id 0 input.lines
  pure id

/-- The header fields an update writes. -/
def Doc.edited (d : Doc) (kind : DocKind) (input : DocInput) : Doc :=
  { d with number := input.number, partyId := input.partyId, date := input.date,
           dueDate := if kind.isCreditNote then none else input.dueDate, currencyCode := input.currencyCode }

def draftDoc (kind : DocKind) (d : Doc) : Bool := d.kind = kind && d.status = .draft

/-- `notFoundOrNotDraft`: why a write guarded by the draft status matched no row. -/
def notFoundOrNotDraft {α : Type} (noun : String) (id : ℕ) (statusOf : DB → Option DocStatus) : Txn α := do
  match ← Prog.read statusOf with
  | none => .throw (.documents .notFound s!"documents: {noun} {id}")
  | some status => .throw (.documents .notDraft s!"documents: {noun} {id} is {status.text}")

def updateHeader (kind : DocKind) (docId : ℕ) (input : DocInput) : Txn ℕ := Prog.exec fun _ db => do
  let ks := db.docs.hit docId (draftDoc kind)
  if ks = [] then .ok { res := 0 }
  else
    db.headerCheck kind docId input
    .ok {
      res := ks.length
      act := fun d => { d with docs := d.docs.update ks (·.edited kind input) }
      locks := input.lock kind :: ks.map (.write .doc) }

/-- The documents that order fulfilment creates: their update looks for fulfilment lines first. -/
def refuseOrderLinked (kind : DocKind) (docId : ℕ) : Txn Unit :=
  if kind.isInvoice then do
    let linked ← Prog.read fun db => (db.linesOfDoc docId).any fun l => l.orderLineId.isSome
    Prog.require (!linked) (.documents .orderLinked s!"documents: {kind.noun} {docId}")
  else pure ()

def updateDoc (kind : DocKind) (docId : ℕ) (input : DocInput) : Txn Unit := do
  refuseOrderLinked kind docId
  let n ← updateHeader kind docId input
  if n = 0 then notFoundOrNotDraft kind.noun docId fun db => (db.docOf kind docId).map (·.status)
  else do
    deleteDocLines docId
    insertLinesOf kind docId 0 input.lines

/-- `DELETE FROM` a header; its lines, and the applications of a credit note, cascade. -/
def deleteHeader (kind : DocKind) (docId : ℕ) : Txn ℕ := Prog.exec fun _ db => do
  let ks := db.docs.hit docId (draftDoc kind)
  if ks = [] then .ok { res := 0 }
  else
    let ls := db.docLines.keysWhere fun l => l.docId = docId
    let isOwn := fun a : Application => a.settler = .creditNote && a.settlerId = docId && kind = a.side.creditNote
    let as := db.applications.keysWhere isOwn
    ensure (db.docLines.rows.all fun l => l.docId = docId || l.orderLineId.all fun k => k ∉ ls)
      (.sql .foreignKeyViolation "lines_order_line_id_fkey")
    ensure (db.applications.rows.all fun a => a.docId ≠ docId)
      (.sql .foreignKeyViolation "applications_doc_id_fkey")
    .ok {
      res := ks.length
      act := fun d => { d with docs := d.docs.erase ks, docLines := d.docLines.erase ls,
                               applications := d.applications.erase as }
      locks := ks.map (.delete .doc) ++ ls.map (.delete .docLine) ++ as.map (.delete .application)
      checks := (db.applications.rows.filter isOwn).map fun a => DB.applicationCheck a true }

def deleteDoc (kind : DocKind) (docId : ℕ) : Txn Unit := do
  let n ← deleteHeader kind docId
  if n = 0 then notFoundOrNotDraft kind.noun docId fun db => (db.docOf kind docId).map (·.status)
  else pure ()

def CreateSalesInvoice := createDoc .salesInvoice
def CreatePurchaseBill := createDoc .purchaseBill
def CreateSalesCreditNote := createDoc .salesCreditNote
def CreatePurchaseCreditNote := createDoc .purchaseCreditNote
def CreateSalesOrder := createDoc .salesOrder
def CreatePurchaseOrder := createDoc .purchaseOrder

def UpdateSalesInvoice := updateDoc .salesInvoice
def UpdatePurchaseBill := updateDoc .purchaseBill
def UpdateSalesCreditNote := updateDoc .salesCreditNote
def UpdatePurchaseCreditNote := updateDoc .purchaseCreditNote
def UpdateSalesOrder := updateDoc .salesOrder
def UpdatePurchaseOrder := updateDoc .purchaseOrder

def DeleteSalesInvoice := deleteDoc .salesInvoice
def DeletePurchaseBill := deleteDoc .purchaseBill
def DeleteSalesCreditNote := deleteDoc .salesCreditNote
def DeletePurchaseCreditNote := deleteDoc .purchaseCreditNote
def DeleteSalesOrder := deleteDoc .salesOrder
def DeletePurchaseOrder := deleteDoc .purchaseOrder
