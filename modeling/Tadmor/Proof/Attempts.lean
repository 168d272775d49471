import Tadmor.Model.Handlers
import Tadmor.Proof.Closing
import Tadmor.Proof.Rows
import Tadmor.Store.Weakest

/-!
# What a ledger request comes to insert

The lines that a request inserts once its own checks have passed, as far as the state it starts from tells, and
whether another trigger or key refuses it.  These two decide whether the answer is a server fault.
-/

/-! ### Lines -/

/-- The account, the amounts and the sides of the line pass the checks. -/
def NewLine.accepted (db : DB) (l : NewLine) : Bool := l.accountId.any fun a => (l.row 0 0 a).valid && db.takes a

def NewLine.inRange (l : NewLine) : Bool := fits l.debit && fits l.credit && fits l.baseDebit && fits l.baseCredit

/-- The amounts of the lines of an entry and their sums are in range. -/
def inRange (ls : List NewLine) : Bool :=
  ls.all NewLine.inRange && fits (ls.map (·.debit)).sum && fits (ls.map (·.baseDebit)).sum

/-- The checks accept the lines of an entry and their sums. -/
def DB.accepts (db : DB) (ls : List NewLine) : Bool := ls.all (NewLine.accepted db) && inRange ls

/-! ### The calendar -/

/-- No period has the name of the month or shares a day with it. -/
def DB.monthFree (db : DB) (fy : FiscalYear) (date : Date) : Bool :=
  db.periods.rows.all fun q =>
    !(q.fiscalYearId = fy.id && q.name = date.yearMonth) &&
      !(q.startDate ≤ min date.monthEnd fy.endDate && max date.monthStart fy.startDate ≤ q.endDate)

/-- An open period covers the date or can be created for it. -/
def DB.canPost (db : DB) (date : Date) : Bool :=
  (db.openPeriod date).isSome || !db.covered date && (db.openYear date).any fun fy => db.monthFree fy date

/-! ### Postings -/

/-- The control line of a document after the detail lines. -/
def PostSpec.controlLine (spec : PostSpec) (d : Doc) (c : Party) (details : List NewLine) : NewLine :=
  let base := (details.map fun l => l.baseDebit - l.baseCredit).sum
  if spec.creditsDetails then
    { lineNo := 1, accountId := c.controlAccountId, debit := d.total, credit := 0,
      memo := spec.kind.side.controlMemo, baseDebit := -base, baseCredit := 0 }
  else
    { lineNo := (details.map (·.lineNo)).foldr max 0 + 1, accountId := c.controlAccountId, debit := 0,
      credit := d.total, memo := spec.kind.side.controlMemo, baseDebit := 0, baseCredit := base }

/-- The lines of the entry of a document at a rate. -/
def PostSpec.plan (spec : PostSpec) (db : DB) (d : Doc) (c : Party) (rate : ℤ) : List NewLine :=
  let details := detailLines spec.creditsDetails rate (if spec.creditsDetails then 2 else 1) (spec.amounts db d.id)
  details ++ [spec.controlLine d c details]

def PostSpec.attempt (spec : PostSpec) (db : DB) (id : ℕ) : Option (List NewLine) :=
  (db.docParty spec.kind id).bind fun x =>
    if x.1.status = .draft ∧ 0 < x.1.total ∧ x.2.controlAccountId.isSome ∧ spec.missingDetail id db = 0 ∧
        missingTax id db = 0 ∧ db.canPost x.1.date then
      (db.rateFor x.1.currencyCode x.1.date).map (spec.plan db x.1 x.2)
    else none

/-- The lines of the entry of a payment at a rate. -/
def paymentPlan (side : Side) (p : Payment) (c : Party) (rate : ℤ) : List NewLine :=
  match side with
  | .sales =>
    [{ lineNo := 1, accountId := p.cashAccountId, debit := p.amount, credit := 0, memo := "Cash received",
       baseDebit := toBase p.amount rate, baseCredit := 0 },
     { lineNo := 2, accountId := c.controlAccountId, debit := 0, credit := p.amount, memo := Side.sales.controlMemo,
       baseDebit := 0, baseCredit := toBase p.amount rate }]
  | .purchase =>
    [{ lineNo := 1, accountId := c.controlAccountId, debit := p.amount, credit := 0,
       memo := Side.purchase.controlMemo, baseDebit := toBase p.amount rate, baseCredit := 0 },
     { lineNo := 2, accountId := p.cashAccountId, debit := 0, credit := p.amount, memo := "Cash paid",
       baseDebit := 0, baseCredit := toBase p.amount rate }]

def paymentAttempt (side : Side) (db : DB) (id : ℕ) : Option (List NewLine) :=
  (db.paymentParty side id).bind fun x =>
    if x.1.status = .draft ∧ 0 < x.1.amount ∧ x.1.cashAccountId.isSome ∧ x.2.controlAccountId.isSome ∧
        db.canPost x.1.date then
      (db.rateFor x.1.currencyCode x.1.date).map (paymentPlan side x.1 x.2)
    else none

/-- The lines of the entry of a movement; a receipt is credited to `account`. -/
def movementPlan (db : DB) (m : StockMovement) (p : Product) (account : ℕ) : Option (List NewLine) :=
  match m.movementType with
  | .issue =>
    if p.cogsAccountId.isSome && p.inventoryAccountId.isSome then
      some [costLine 1 p.cogsAccountId |m.totalCost| 0 "Cost of goods sold",
        costLine 2 p.inventoryAccountId 0 |m.totalCost| "Inventory"]
    else none
  | .receipt =>
    if account ≠ 0 ∧ p.inventoryAccountId.isSome ∧ db.takes account then
      some [costLine 1 p.inventoryAccountId m.totalCost 0 "Inventory",
        costLine 2 (some account) 0 m.totalCost "Goods received not invoiced"]
    else none
  | _ => none

def movementAttempt (db : DB) (id account : ℕ) : Option (List NewLine) :=
  (db.movementProduct id).bind fun x =>
    if x.1.journalEntryId = none ∧ x.1.totalCost ≠ 0 ∧ db.canPost x.1.movementDate then
      movementPlan db x.1 x.2 account
    else none

/-! ### Applications -/

/-- The exchange differences without an entry once the settler is applied. -/
def DB.fxDiffs (db : DB) (side : Side) (settler : SettlerKind) (id : ℕ) : List ℤ :=
  ((db.applications.rows ++ applicationRows side settler id 0 (db.allocation side settler id)).filter fun a =>
    a.side = side && a.settler = settler && a.settlerId = id && a.fxJournalEntryId = none).filterMap fun a =>
      (db.candidate a).map (·.diff)

/-- The settler that is applied. -/
def DB.applying (db : DB) (side : Side) (settler : SettlerKind) (id : ℕ) : Option Settler :=
  (db.settlerOf side settler id).filter fun s => s.status = .posted

/-- The control account of the party of a settler. -/
def DB.controlOf (db : DB) (side : Side) (s : Settler) : Option ℕ :=
  (db.partyOf side s.partyId).bind (·.controlAccountId)

def fxAttempts (db : DB) (side : Side) (settler : SettlerKind) (id : ℕ) : List (List NewLine) :=
  match (db.applying side settler id).bind fun s => if db.canPost s.date then db.controlOf side s else none,
    db.settings.fxGainLossAccountId with
  | some party, some fx => (db.fxDiffs side settler id).map (fxPlan side party fx)
  | _, _ => []

/-- The settler is applied again to a document that it has an application to. -/
def DB.appliesAgain (db : DB) (side : Side) (settler : SettlerKind) (id : ℕ) : Bool :=
  (db.allocation side settler id).any fun x => db.applications.rows.any fun a =>
    a.side = side && a.settler = settler && a.settlerId = id && a.docId = x.1

/-- The applications of the settler are refused, or their query does not scan. -/
def DB.applyRaises (db : DB) (side : Side) (settler : SettlerKind) (id : ℕ) : Bool :=
  (db.applying side settler id).any fun s =>
    db.appliesAgain side settler id || db.fxDiffs side settler id ≠ [] && (db.controlOf side s).isNone

/-! ### Reversals -/

/-- The entry is neither reversed nor matched to a bank statement. -/
def DB.unreversed (db : DB) (je : ℕ) : Bool :=
  !(db.entries.rows.any fun x => x.reversesEntryId = some je) && !db.matchedOn je

/-- The checks of `reverseEntry` pass. -/
def DB.reversible (db : DB) (je : ℕ) : Bool :=
  (db.entries.find? je).any fun e => db.unreversed je && db.canPost e.entryDate

def DB.mirrored (db : DB) (je : ℕ) : List NewLine := (db.linesOf je).map JournalLine.mirror

def DB.reversal (db : DB) (je : ℕ) : List (List NewLine) := if db.reversible je then [db.mirrored je] else []

/-- The entry of a posted document that no application involves. -/
def DB.unpostable (db : DB) (kind : DocKind) (id : ℕ) : Option ℕ :=
  (db.docOf kind id).bind fun d =>
    if d.status = .posted ∧ ¬db.applications.rows.any (Application.involves kind id) then d.journalEntryId else none

/-- The reversals of the entries of a payment, the exchange differences last: they are of the same date. -/
def paymentReversals (db : DB) (side : Side) (id : ℕ) : List (List NewLine) :=
  match (db.paymentOf side id).bind fun p => if p.status = .posted then p.journalEntryId else none with
  | none => []
  | some je =>
    if db.reversible je then db.mirrored je :: ((db.fxEntries side id).takeWhile db.unreversed).map db.mirrored else []

/-! ### The year end -/

/-- The checks of `CloseFiscalYear` pass. -/
def DB.mayClose (db : DB) (id retained : ℕ) : Option FiscalYear :=
  (db.years.find? id).filter fun fy =>
    fy.status = .opened &&
      !(db.years.rows.any fun y => y.id ≠ id && y.status = .opened && y.startDate < fy.startDate) &&
      (db.accounts.find? retained).any fun a => a.isPostable && a.isActive && a.accountType = .equity

/-- The period belongs to a closed year. -/
def DB.lockedPeriod (db : DB) (p : AccountingPeriod) : Bool :=
  db.years.rows.any fun fy => fy.id = p.fiscalYearId && fy.status = .closed

def closeAttempts (db : DB) (id retained : ℕ) : List (List NewLine) :=
  match db.mayClose id retained with
  | none => []
  | some fy =>
    if db.balances fy.endDate ≠ [] ∧ ((db.coveringPeriod fy.endDate).isSome ∨ db.canPost fy.endDate) then
      [closingLines fy.endDate retained fy.name db]
    else []

/-- The sweep opens a closed period of a closed year. -/
def DB.closeRaises (db : DB) (id retained : ℕ) : Bool :=
  (db.mayClose id retained).any fun fy => db.balances fy.endDate ≠ [] &&
    (db.coveringPeriod fy.endDate).any fun p => p.status = .closed && db.lockedPeriod p

/-- The closing entry of the year when the checks of `ReopenFiscalYear` pass. -/
def DB.mayReopen (db : DB) (id : ℕ) : Option ℕ :=
  (db.years.find? id).bind fun fy =>
    if fy.status = .closed ∧ ¬db.years.rows.any fun y => y.status = .closed && fy.startDate < y.startDate then
      fy.closingEntryId
    else none

/-- The year is open again. -/
def DB.openedYear (db : DB) (id : ℕ) : DB :=
  { db with years := db.years.update [id] (fun y => { y with status := .opened, closingEntryId := none }) fun _ => rfl }

/-- The closed period of the entry. -/
def DB.closedPeriodOf (db : DB) (je : ℕ) : List ℕ :=
  match db.entries.find? je with
  | none => []
  | some e => db.periods.hit e.periodId (·.status = .closed)

/-- The year and the period of its closing entry are open again. -/
def DB.reopened (db : DB) (id je : ℕ) : DB :=
  { db.openedYear id with
    periods := db.periods.update (db.closedPeriodOf je) (fun p => { p with status := .opened }) fun _ => rfl }

/-- The period of the closing entry belongs to another year that is closed. -/
def DB.reopenRaises (db : DB) (id : ℕ) : Bool :=
  (db.mayReopen id).any fun je => db.periods.rows.any fun p =>
    p.id ∈ db.closedPeriodOf je && (db.openedYear id).lockedPeriod p

/-! ### Requests -/

/-- The lines of the entries that a request comes to insert: none once one of its own checks refuses it. -/
def Op.attempts (db : DB) : Op → List (List NewLine)
  | .postDoc kind id => (kind.spec.attempt db id).toList
  | .postPayment side id => (paymentAttempt side db id).toList
  | .postMovement id account => (movementAttempt db id account).toList
  | .autoApply side settler id => fxAttempts db side settler id
  | .unpostInvoice side id => (db.unpostable side.invoice id).toList.flatMap db.reversal
  | .unpostCreditNote side id => (db.unpostable side.creditNote id).toList.flatMap db.reversal
  | .unpostPayment side id => paymentReversals db side id
  | .unpostMovement id => ((db.movements.find? id).bind (·.journalEntryId)).toList.flatMap db.reversal
  | .closeFiscalYear id retained => closeAttempts db id retained
  | .reopenFiscalYear id => (db.mayReopen id).toList.flatMap fun je => (db.reopened id je).reversal je
  | _ => []

/-- The product of the movement is no longer tracked, or inactive. -/
def DB.movementRaises (db : DB) (id : ℕ) : Bool :=
  (db.movementProduct id).any fun x => !(x.2.trackInventory && x.2.isActive)

/-- Another trigger or key refuses the request. -/
def Op.raises (db : DB) : Op → Bool
  | .postMovement id account => (movementAttempt db id account).isSome && db.movementRaises id
  | .unpostMovement id => !(Op.unpostMovement id).attempts db = [] && db.movementRaises id
  | .autoApply side settler id => db.applyRaises side settler id
  | .closeFiscalYear id retained => db.closeRaises id retained
  | .reopenFiscalYear id => db.reopenRaises id
  | _ => false
