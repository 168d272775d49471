import Tadmor.Model.Payments

/-!
# Posting

Posting a document inserts an entry and its lines and links the document to the entry.  The four documents with
lines share `postDoc`, the two payments `postPayment`; each names the values it applies them to.
-/

/-- `UPDATE` of the header `id` by primary key. -/
def updateDocRow (kind : DocKind) (id : ℕ) (f : Doc → Doc) (hf : ∀ d, (f d).id = d.id := by intro; rfl) : Txn Unit :=
  Prog.exec fun _ db =>
    let ks := db.docs.hit id (·.kind = kind)
    .ok {
      res := ()
      act := fun d => { d with docs := d.docs.update ks f hf }
      locks := ks.map (.write .doc) }

/-- `UPDATE` of the payment `id` by primary key. -/
def updatePaymentById (side : Side) (id : ℕ) (f : Payment → Payment)
    (hf : ∀ p, (f p).id = p.id := by intro; rfl) : Txn Unit :=
  Prog.exec fun _ db =>
    let ks := db.payments.hit id (·.side = side)
    .ok {
      res := ()
      act := fun d => { d with payments := d.payments.update ks f hf }
      locks := ks.map (.write .payment) }

/-- The product trigger on the row that `f` makes of the movement `id`. -/
def DB.movementOk (db : DB) (id : ℕ) (f : StockMovement → StockMovement) : Except Err Unit :=
  match db.movements.find? id with
  | none => .ok ()
  | some m => db.productOk (f m).productId

/-- `UPDATE` of the movement `id` by primary key. -/
def updateMovementById (id : ℕ) (f : StockMovement → StockMovement)
    (hf : ∀ m, (f m).id = m.id := by intro; rfl) : Txn Unit :=
  Prog.exec fun _ db => do
    let ks := db.movements.hit id fun _ => true
    db.movementOk id f
    .ok {
      res := ()
      act := fun d => { d with movements := d.movements.update ks f hf }
      locks := ks.map (.write .movement) }

def Doc.posted (d : Doc) (je period : ℕ) : Doc :=
  { d with status := .posted, journalEntryId := some je, periodId := some period }

def Payment.posted (p : Payment) (je period : ℕ) : Payment :=
  { p with status := .posted, journalEntryId := some je, periodId := some period }

def StockMovement.linked (m : StockMovement) (je period : ℕ) : StockMovement :=
  { m with journalEntryId := some je, periodId := some period }

/-! ### Documents with lines -/

/-- What tells the postings of the four documents apart. -/
structure PostSpec where
  kind : DocKind
  entryMemo : String
  productAccount : Product → Option ℕ
  missing : String
  detailMemo : String
  taxMemo : String
  /-- The detail lines are credits, the control line a debit with number 1; otherwise the other way round and the
  control line comes last. -/
  creditsDetails : Bool

def salesInvoicePost : PostSpec :=
  { kind := .salesInvoice, entryMemo := "Sales invoice ", productAccount := Product.revenueAccountId,
    missing := "revenue", detailMemo := "Revenue", taxMemo := "Sales tax", creditsDetails := true }

def purchaseBillPost : PostSpec :=
  { kind := .purchaseBill, entryMemo := "Purchase bill ", productAccount := Product.inventoryAccountId,
    missing := "expense/inventory", detailMemo := "Expense", taxMemo := "Input tax", creditsDetails := false }

def salesCreditNotePost : PostSpec :=
  { kind := .salesCreditNote, entryMemo := "Sales credit note ", productAccount := Product.revenueAccountId,
    missing := "revenue", detailMemo := "Revenue credited", taxMemo := "Sales tax credited",
    creditsDetails := false }

def purchaseCreditNotePost : PostSpec :=
  { kind := .purchaseCreditNote, entryMemo := "Purchase credit note ",
    productAccount := Product.inventoryAccountId, missing := "expense/inventory",
    detailMemo := "Expense credited", taxMemo := "Input tax credited", creditsDetails := true }

/-- The order of account ids, nulls last. -/
def accountLE : Option ℕ → Option ℕ → Bool
  | some a, some b => a ≤ b
  | _, none => true
  | none, some _ => false

/-- `SELECT account, sum(amount) … GROUP BY account HAVING sum(amount) <> 0 ORDER BY account` -/
def groupSums (xs : List (Option ℕ × ℤ)) : List (Option ℕ × ℤ) :=
  (((xs.map Prod.fst).dedup.insertionSort fun a b => accountLE a b = true).map fun k =>
    (k, ((xs.filter fun x => x.1 = k).map Prod.snd).sum)).filter fun x => x.2 ≠ 0

/-- The account of a detail line: its own, or that of its product. -/
def PostSpec.detailAccount (spec : PostSpec) (db : DB) (l : DocLine) : Option ℕ :=
  l.accountId.or ((l.productId.bind db.products.find?).bind spec.productAccount)

def DB.taxAccount (db : DB) (l : DocLine) : Option ℕ :=
  (l.taxCode.bind db.taxCodes.find?).bind (·.taxAccountId)

/-- The amounts of the detail lines of the entry with their accounts and memos: one for each account, then one for
each tax account. -/
def PostSpec.amounts (spec : PostSpec) (db : DB) (id : ℕ) : List (Option ℕ × ℤ × String) :=
  let lines := db.linesOfDoc id
  let detail := groupSums (lines.map fun l => (spec.detailAccount db l, l.lineSubtotal))
  let taxed := lines.filter fun l => l.taxAmount ≠ 0 && (l.taxCode.bind db.taxCodes.find?).isSome
  let tax := groupSums (taxed.map fun l => (db.taxAccount l, l.taxAmount))
  (detail.map fun x => (x.1, x.2, spec.detailMemo)) ++ tax.map fun x => (x.1, x.2, spec.taxMemo)

/-- `round(amount * rate, 4)` -/
def toBase (amount rate : ℤ) : ℤ := roundDiv (amount * rate) (10 ^ 8)

def detailLines (creditsDetails : Bool) (rate : ℤ) : ℕ → List (Option ℕ × ℤ × String) → List NewLine
  | _, [] => []
  | lineNo, (account, amount, memo) :: xs =>
    (if creditsDetails then NewLine.signed lineNo account (-amount) (-toBase amount rate) memo
      else NewLine.signed lineNo account amount (toBase amount rate) memo) ::
      detailLines creditsDetails rate (lineNo + 1) xs

def DB.entryRate (db : DB) (je : ℕ) : ℤ := ((db.entries.find? je).map (·.exchangeRate)).getD 0

def PostSpec.details (spec : PostSpec) (id je : ℕ) (db : DB) : List NewLine :=
  detailLines spec.creditsDetails (db.entryRate je) (if spec.creditsDetails then 2 else 1) (spec.amounts db id)

/-- A document with its party. -/
def DB.docParty (db : DB) (kind : DocKind) (id : ℕ) : Option (Doc × Party) :=
  (db.docOf kind id).bind fun d => (db.partyOf kind.side d.partyId).map fun c => (d, c)

/-- The line on the control account for the gross total; its base amount balances the entry. -/
def PostSpec.control (spec : PostSpec) (id je : ℕ) (db : DB) : List NewLine :=
  match db.docParty spec.kind id with
  | none => []
  | some (d, c) =>
    let lines := db.linesOf je
    let base := (lines.map fun l => l.baseDebit - l.baseCredit).sum
    if spec.creditsDetails then
      [{ lineNo := 1, accountId := c.controlAccountId, debit := d.total, credit := 0,
         memo := spec.kind.side.controlMemo, baseDebit := -base, baseCredit := 0 }]
    else
      [{ lineNo := (lines.map (·.lineNo)).foldr max 0 + 1, accountId := c.controlAccountId, debit := 0,
         credit := d.total, memo := spec.kind.side.controlMemo, baseDebit := 0, baseCredit := base }]

/-- What `Post…` reads of the header. -/
structure DocHeader where
  status : DocStatus
  currency : String
  date : Date
  number : String
  control : Option ℕ
  hasTotal : Bool
deriving DecidableEq

def PostSpec.header (spec : PostSpec) (id : ℕ) (db : DB) : Except Err DocHeader :=
  match db.docParty spec.kind id with
  | none => .error (.posting .notFound s!"posting: {spec.kind.noun} {id}")
  | some (d, c) =>
    .ok { status := d.status, currency := d.currencyCode, date := d.date, number := d.number,
          control := c.controlAccountId, hasTotal := 0 < d.total }

/-- The lines whose amount would have no account. -/
def PostSpec.missingDetail (spec : PostSpec) (id : ℕ) (db : DB) : ℕ :=
  (db.linesOfDoc id).countP fun l => l.lineSubtotal ≠ 0 && spec.detailAccount db l = none

def missingTax (id : ℕ) (db : DB) : ℕ :=
  (db.linesOfDoc id).countP fun l => l.taxAmount ≠ 0 && db.taxAccount l = none

def postDoc (spec : PostSpec) (id : ℕ) : Txn ℕ := do
  let h ← Prog.query (spec.header id)
  Prog.require (h.status = .draft) (.posting .notDraft s!"posting: {spec.kind.noun} {id}")
  Prog.require h.hasTotal (.posting .nothingToPost s!"posting: {spec.kind.noun} {id}")
  Prog.require h.control.isSome (.posting .missingAccount s!"posting: {spec.kind.noun} {id}: {spec.kind.side.control}")
  let bad ← Prog.read (spec.missingDetail id)
  Prog.require (bad = 0)
    (.posting .missingAccount s!"posting: {spec.kind.noun} {id}: {bad} line(s) missing an account: {spec.missing}")
  let bad ← Prog.read (missingTax id)
  Prog.require (bad = 0)
    (.posting .missingAccount s!"posting: {spec.kind.noun} {id}: taxed line(s) missing a tax account")
  let period ← periodForDate h.date
  let je ← createEntry h.date period h.currency (spec.entryMemo ++ h.number) h.number
  insertLines je (spec.details id je)
  insertLines je (spec.control id je)
  updateDocRow spec.kind id (·.posted je period)
  pure je

def PostSalesInvoice := postDoc salesInvoicePost
def PostPurchaseBill := postDoc purchaseBillPost
def PostSalesCreditNote := postDoc salesCreditNotePost
def PostPurchaseCreditNote := postDoc purchaseCreditNotePost

/-! ### Payments -/

/-- What `Post…Payment` reads of the payment. -/
structure PaymentHeader where
  status : DocStatus
  currency : String
  date : Date
  control : Option ℕ
  cash : Option ℕ
  hasAmount : Bool
deriving DecidableEq

def DB.paymentParty (db : DB) (side : Side) (id : ℕ) : Option (Payment × Party) :=
  (db.paymentOf side id).bind fun p => (db.partyOf side p.partyId).map fun c => (p, c)

def paymentHeader (side : Side) (id : ℕ) (db : DB) : Except Err PaymentHeader :=
  match db.paymentParty side id with
  | none => .error (.posting .notFound s!"posting: {side.payment} {id}")
  | some (p, c) =>
    .ok { status := p.status, currency := p.currencyCode, date := p.date, control := c.controlAccountId,
          cash := p.cashAccountId, hasAmount := 0 < p.amount }

def paymentMemo : Side → String
  | .sales => "Customer payment"
  | .purchase => "Supplier payment"

def cashNoun : Side → String
  | .sales => "deposit account"
  | .purchase => "payment account"

/-- The cash line of a payment: a debit of 1 for a receipt, a credit of 2 for a payment made. -/
def cashLine (side : Side) (id je : ℕ) (db : DB) : List NewLine :=
  match db.paymentOf side id with
  | none => []
  | some p =>
    match side with
    | .sales => [{ lineNo := 1, accountId := p.cashAccountId, debit := p.amount, credit := 0,
                   memo := "Cash received", baseDebit := toBase p.amount (db.entryRate je), baseCredit := 0 }]
    | .purchase => [{ lineNo := 2, accountId := p.cashAccountId, debit := 0, credit := p.amount,
                      memo := "Cash paid", baseDebit := 0, baseCredit := toBase p.amount (db.entryRate je) }]

/-- The control line of a payment, on the other side of the cash line. -/
def paymentControl (side : Side) (id je : ℕ) (db : DB) : List NewLine :=
  match db.paymentParty side id with
  | none => []
  | some (p, c) =>
    match side with
    | .sales => [{ lineNo := 2, accountId := c.controlAccountId, debit := 0, credit := p.amount,
                   memo := Side.sales.controlMemo, baseDebit := 0,
                   baseCredit := toBase p.amount (db.entryRate je) }]
    | .purchase => [{ lineNo := 1, accountId := c.controlAccountId, debit := p.amount, credit := 0,
                      memo := Side.purchase.controlMemo, baseDebit := toBase p.amount (db.entryRate je),
                      baseCredit := 0 }]

/-- The debit, inserted first. -/
def firstLine (side : Side) (id je : ℕ) : DB → List NewLine :=
  match side with
  | .sales => cashLine .sales id je
  | .purchase => paymentControl .purchase id je

def secondLine (side : Side) (id je : ℕ) : DB → List NewLine :=
  match side with
  | .sales => paymentControl .sales id je
  | .purchase => cashLine .purchase id je

def postPayment (side : Side) (id : ℕ) : Txn ℕ := do
  let h ← Prog.query (paymentHeader side id)
  Prog.require (h.status = .draft) (.posting .notDraft s!"posting: {side.payment} {id}")
  Prog.require h.hasAmount (.posting .nothingToPost s!"posting: {side.payment} {id}")
  Prog.require h.cash.isSome (.posting .missingAccount s!"posting: {side.payment} {id}: {cashNoun side}")
  Prog.require h.control.isSome (.posting .missingAccount s!"posting: {side.payment} {id}: {side.control}")
  let period ← periodForDate h.date
  let je ← createEntry h.date period h.currency (paymentMemo side) ""
  insertLines je (firstLine side id je)
  insertLines je (secondLine side id je)
  updatePaymentById side id (·.posted je period)
  pure je

def PostCustomerPayment := postPayment .sales
def PostSupplierPayment := postPayment .purchase

/-! ### Stock movements -/

def DB.movementProduct (db : DB) (id : ℕ) : Option (StockMovement × Product) :=
  (db.movements.find? id).bind fun m => (db.products.find? m.productId).map fun p => (m, p)

def movementHeader (id : ℕ) (db : DB) : Except Err (StockMovement × Product) :=
  match db.movementProduct id with
  | none => .error (.posting .notFound s!"posting: stock movement {id}")
  | some mp => .ok mp

/-- A line of a movement's entry; costs are in base already. -/
def costLine (lineNo : ℕ) (account : Option ℕ) (debit credit : ℤ) (memo : String) : NewLine :=
  { lineNo, accountId := account, debit, credit, memo, baseDebit := debit, baseCredit := credit }

def PostInventoryIssue (id : ℕ) : Txn ℕ := do
  let (m, p) ← Prog.query (movementHeader id)
  Prog.require (m.journalEntryId = none) (.posting .alreadyPosted s!"posting: stock movement {id}")
  Prog.require (m.movementType = .issue)
    (.posting .notPostable s!"posting: stock movement {id}: only 'issue' movements post COGS")
  Prog.require (m.totalCost ≠ 0) (.posting .nothingToPost s!"posting: stock movement {id}")
  Prog.require (p.cogsAccountId.isSome && p.inventoryAccountId.isSome)
    (.posting .missingAccount s!"posting: stock movement {id}: product COGS/inventory account")
  let period ← periodForDate m.movementDate
  let currency ← Prog.read fun db => db.settings.baseCurrency
  let je ← createEntry m.movementDate period currency "Inventory issue" ""
  insertLines je fun db =>
    match db.movementProduct id with
    | none => []
    | some (m, p) => [costLine 1 p.cogsAccountId |m.totalCost| 0 "Cost of goods sold"]
  insertLines je fun db =>
    match db.movementProduct id with
    | none => []
    | some (m, p) => [costLine 2 p.inventoryAccountId 0 |m.totalCost| "Inventory"]
  updateMovementById id (·.linked je period)
  pure je

def PostInventoryReceipt (id creditAccountID : ℕ) : Txn ℕ := do
  let (m, p) ← Prog.query (movementHeader id)
  Prog.require (m.journalEntryId = none) (.posting .alreadyPosted s!"posting: stock movement {id}")
  Prog.require (m.movementType = .receipt)
    (.posting .notPostable s!"posting: stock movement {id}: only 'receipt' movements post an inventory receipt")
  Prog.require (m.totalCost ≠ 0) (.posting .nothingToPost s!"posting: stock movement {id}")
  Prog.require p.inventoryAccountId.isSome
    (.posting .missingAccount s!"posting: stock movement {id}: product inventory account")
  let postable ← Prog.query fun db =>
    match db.accounts.find? creditAccountID with
    | none => .error (.posting .missingAccount s!"posting: credit account {creditAccountID}")
    | some a => .ok (a.isPostable && a.isActive)
  Prog.require postable
    (.posting .missingAccount s!"posting: credit account {creditAccountID} is not postable/active")
  let period ← periodForDate m.movementDate
  let currency ← Prog.read fun db => db.settings.baseCurrency
  let je ← createEntry m.movementDate period currency "Inventory receipt" ""
  insertLines je fun db =>
    match db.movementProduct id with
    | none => []
    | some (m, p) => [costLine 1 p.inventoryAccountId m.totalCost 0 "Inventory"]
  insertLines je fun db =>
    match db.movements.find? id with
    | none => []
    | some m => [costLine 2 (some creditAccountID) 0 m.totalCost "Goods received not invoiced"]
  updateMovementById id (·.linked je period)
  pure je

def PostStockMovement (id creditAccountID : ℕ) : Txn ℕ := do
  let movementType ← Prog.query fun db =>
    match db.movements.find? id with
    | none => .error (.posting .notFound s!"posting: stock movement {id}")
    | some m => .ok m.movementType
  match movementType with
  | .issue => PostInventoryIssue id
  | .receipt =>
    if creditAccountID = 0 then
      .throw (.posting .missingAccount
        s!"posting: stock movement {id}: a credit account is required to post a receipt")
    else PostInventoryReceipt id creditAccountID
  | t => .throw (.posting .notPostable s!"posting: stock movement {id}: type {t.text} is not postable to the GL")
