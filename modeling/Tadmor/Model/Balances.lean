import Tadmor.Model.System

/-!
# Balances

The balance views of invoices, bills and credit notes, and the amounts of the payment queries.
-/

inductive PaymentStatus where
  | void
  | paid
  | partly
  | unpaid
deriving DecidableEq

def PaymentStatus.text : PaymentStatus → String
  | void => "void"
  | paid => "paid"
  | partly => "partial"
  | unpaid => "unpaid"

/-- A row of `sales_invoice_balances` or `purchase_bill_balances`. -/
structure InvoiceBalance where
  amountApplied : ℤ
  balance : ℤ
  paymentStatus : PaymentStatus
deriving DecidableEq

inductive ApplicationStatus where
  | void
  | applied
  | partly
  | opened
deriving DecidableEq

def ApplicationStatus.text : ApplicationStatus → String
  | void => "void"
  | applied => "applied"
  | partly => "partial"
  | opened => "open"

/-- A row of `sales_credit_note_balances` or `purchase_credit_note_balances`. -/
structure CreditNoteBalance where
  amountApplied : ℤ
  balance : ℤ
  applicationStatus : ApplicationStatus
deriving DecidableEq

namespace DB

/-- The applications to `docId` of the posted settlers of one kind. -/
def appliedBy (db : DB) (side : Side) (settler : SettlerKind) (docId : ℕ) : ℤ :=
  ((db.applications.rows.filter fun a => a.side = side && a.settler = settler && a.docId = docId &&
    (db.settlerOf side settler a.settlerId).any fun s => s.status = .posted).map (·.amountApplied)).sum

def invoiceBalance (db : DB) (side : Side) (d : Doc) : InvoiceBalance :=
  let payments := db.appliedBy side .payment d.id
  let notes := db.appliedBy side .creditNote d.id
  { amountApplied := payments + notes
    balance := d.total - payments - notes
    paymentStatus :=
      if d.status = .void then .void
      else if 0 < d.total ∧ d.total - payments - notes ≤ 0 then .paid
      else if 0 < payments + notes then .partly
      else .unpaid }

/-- The applications of a note count whatever its status. -/
def creditNoteBalance (db : DB) (d : Doc) : CreditNoteBalance :=
  let applied := db.amountApplied .creditNote d.id
  { amountApplied := applied
    balance := d.total - applied
    applicationStatus :=
      if d.status = .void then .void
      else if 0 < d.total ∧ d.total - applied ≤ 0 then .applied
      else if 0 < applied then .partly
      else .opened }

/-- The unapplied amount that `customerPaymentsSQL` and `supplierPaymentsSQL` report. -/
def unapplied (db : DB) (p : Payment) : ℤ := p.amount - db.amountApplied .payment p.id

/-! ### Subledger and ledger -/

/-- The invoices, bills and credit notes of a party in one currency. -/
def partyDocs (db : DB) (side : Side) (party : ℕ) (currency : String) : List Doc :=
  db.docs.rows.filter fun d =>
    d.kind.side = side && !d.kind.isOrder && d.partyId = party && d.currencyCode = currency

def partyPayments (db : DB) (side : Side) (party : ℕ) (currency : String) : List Payment :=
  db.payments.rows.filter fun p => p.side = side && p.partyId = party && p.currencyCode = currency

/-- What the views report of a party: open invoices less unapplied payments and open credit notes. -/
def subledger (db : DB) (side : Side) (party : ℕ) (currency : String) : ℤ :=
  (((db.partyDocs side party currency).filter fun d => d.kind = side.invoice && d.status = .posted).map
      fun d => (db.invoiceBalance side d).balance).sum
    - (((db.partyPayments side party currency).filter fun p => p.status = .posted).map db.unapplied).sum
    - (((db.partyDocs side party currency).filter fun d => d.kind = side.creditNote && d.status = .posted).map
      fun d => (db.creditNoteBalance d).balance).sum

/-- The entry is no reversal and not reversed. -/
def isUnreversed (db : DB) (je : ℕ) : Bool :=
  ((db.entries.find? je).any fun e => e.reversesEntryId = none) &&
    db.entries.rows.all fun r => r.reversesEntryId ≠ some je

/-- A document or payment of the party links the entry. -/
def isOfParty (db : DB) (side : Side) (party : ℕ) (currency : String) (je : ℕ) : Bool :=
  ((db.partyDocs side party currency).any fun d => d.journalEntryId = some je) ||
    (db.partyPayments side party currency).any fun p => p.journalEntryId = some je

/-- Debit less credit of the control-account lines of some entries. -/
def controlNet (db : DB) (side : Side) (entry : ℕ → Bool) : ℤ :=
  ((db.lines.rows.filter fun l => l.memo = side.controlMemo && entry l.journalEntryId).map
    fun l => l.debit - l.credit).sum

/-- What the ledger says of a party. -/
def ledger (db : DB) (side : Side) (party : ℕ) (currency : String) : ℤ :=
  db.controlNet side fun je => db.isUnreversed je && db.isOfParty side party currency je

end DB

/-- What a party owes is a debit on the sales side and a credit on the purchase side. -/
def Side.sign : Side → ℤ
  | .sales => 1
  | .purchase => -1
