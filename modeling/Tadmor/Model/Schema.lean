import Tadmor.Model.Calendar
import Tadmor.Store.ReadCommitted
import Tadmor.Store.Rounding
import Tadmor.Store.Table

/-!
# The schema

The tables of the migrations, as far as the modelled queries use their columns.  Money and quantities are integers
in units of 0.0001 (`numeric(19,4)`), exchange rates in units of 0.00000001 (`numeric(19,8)`), tax rates in units of
0.0001 percent (`numeric(7,4)`).

Identity columns of all tables draw from one sequence.  Tables that mirror each other are one table with a column
that tells them apart: the six documents with lines (`DocKind`), the parties and the payments (`Side`), the four
application tables (`Side` and `SettlerKind`).
-/

inductive Side where
  | sales
  | purchase
deriving DecidableEq

/-- The documents with lines. -/
inductive DocKind where
  | salesInvoice
  | purchaseBill
  | salesCreditNote
  | purchaseCreditNote
  | salesOrder
  | purchaseOrder
deriving DecidableEq

namespace DocKind

def side : DocKind → Side
  | salesInvoice => .sales
  | purchaseBill => .purchase
  | salesCreditNote => .sales
  | purchaseCreditNote => .purchase
  | salesOrder => .sales
  | purchaseOrder => .purchase

def noun : DocKind → String
  | salesInvoice => "sales invoice"
  | purchaseBill => "purchase bill"
  | salesCreditNote => "sales credit note"
  | purchaseCreditNote => "purchase credit note"
  | salesOrder => "sales order"
  | purchaseOrder => "purchase order"

def isOrder : DocKind → Bool
  | salesOrder => true
  | purchaseOrder => true
  | _ => false

/-- The documents that payments and credit notes settle. -/
def isInvoice : DocKind → Bool
  | salesInvoice => true
  | purchaseBill => true
  | _ => false

def isCreditNote : DocKind → Bool
  | salesCreditNote => true
  | purchaseCreditNote => true
  | _ => false

end DocKind

namespace Side

/-- The document a settler of this side settles. -/
def invoice : Side → DocKind
  | sales => .salesInvoice
  | purchase => .purchaseBill

def creditNote : Side → DocKind
  | sales => .salesCreditNote
  | purchase => .purchaseCreditNote

def order : Side → DocKind
  | sales => .salesOrder
  | purchase => .purchaseOrder

/-- The noun of a payment of this side. -/
def payment : Side → String
  | sales => "customer payment"
  | purchase => "supplier payment"

/-- The account a party of this side carries, in the words of the messages. -/
def control : Side → String
  | sales => "customer A/R account"
  | purchase => "supplier A/P account"

/-- The memo of a control-account line. -/
def controlMemo : Side → String
  | sales => "Accounts receivable"
  | purchase => "Accounts payable"

end Side

inductive SettlerKind where
  | payment
  | creditNote
deriving DecidableEq

/-- `draft`, `posted` and `void` of documents that post, `draft`, `open`, `closed` and `cancelled` of orders. -/
inductive DocStatus where
  | draft
  | posted
  | void
  | opened
  | closed
  | cancelled
deriving DecidableEq

def DocStatus.text : DocStatus → String
  | draft => "draft"
  | posted => "posted"
  | void => "void"
  | opened => "open"
  | closed => "closed"
  | cancelled => "cancelled"

/-- The status of fiscal years and accounting periods. -/
inductive BookStatus where
  | opened
  | closed
deriving DecidableEq

inductive AccountType where
  | asset
  | liability
  | equity
  | revenue
  | expense
deriving DecidableEq

inductive MovementType where
  | receipt
  | issue
  | adjustment
  | transferIn
  | transferOut
deriving DecidableEq

def MovementType.text : MovementType → String
  | receipt => "receipt"
  | issue => "issue"
  | adjustment => "adjustment"
  | transferIn => "transfer_in"
  | transferOut => "transfer_out"

inductive StatementStatus where
  | opened
  | reconciled
deriving DecidableEq

def StatementStatus.text : StatementStatus → String
  | opened => "open"
  | reconciled => "reconciled"

/-! ### Rows -/

structure Account where
  id : ℕ
  code : String
  accountType : AccountType
  isPostable : Bool := true
  isActive : Bool := true
  isCash : Bool := false
  parentId : Option ℕ := none
deriving DecidableEq

structure ExchangeRate where
  currencyCode : String
  rateDate : Date
  rate : ℤ
deriving DecidableEq

structure FiscalYear where
  id : ℕ
  name : String
  startDate : Date
  endDate : Date
  status : BookStatus := .opened
  closingEntryId : Option ℕ := none
deriving DecidableEq

structure AccountingPeriod where
  id : ℕ
  fiscalYearId : ℕ
  name : String
  startDate : Date
  endDate : Date
  status : BookStatus := .opened
deriving DecidableEq

structure JournalEntry where
  id : ℕ
  entryDate : Date
  periodId : ℕ
  currencyCode : String
  exchangeRate : ℤ
  memo : String
  reference : Option String := none
  status : DocStatus := .posted
  reversesEntryId : Option ℕ := none
  isClosing : Bool := false
deriving DecidableEq

structure JournalLine where
  id : ℕ
  journalEntryId : ℕ
  lineNo : ℕ
  accountId : ℕ
  debit : ℤ
  credit : ℤ
  memo : String
  baseDebit : ℤ
  baseCredit : ℤ
deriving DecidableEq

/-- A customer or supplier with its control account. -/
structure Party where
  id : ℕ
  side : Side
  controlAccountId : Option ℕ
deriving DecidableEq

structure Product where
  id : ℕ
  revenueAccountId : Option ℕ
  inventoryAccountId : Option ℕ
  cogsAccountId : Option ℕ
  trackInventory : Bool := false
  isActive : Bool := true
deriving DecidableEq

structure TaxCode where
  code : String
  taxAccountId : Option ℕ
deriving DecidableEq

structure Warehouse where
  id : ℕ
deriving DecidableEq

/-- A document with lines.  `dueDate` is also the expected ship or receipt date of an order. -/
structure Doc where
  id : ℕ
  kind : DocKind
  number : String
  partyId : ℕ
  date : Date
  dueDate : Option Date
  currencyCode : String
  status : DocStatus := .draft
  periodId : Option ℕ := none
  journalEntryId : Option ℕ := none
  subtotal : ℤ := 0
  taxTotal : ℤ := 0
  total : ℤ := 0
deriving DecidableEq

/-- A line of a document.  `accountId` is the revenue or expense account the line names itself. -/
structure DocLine where
  id : ℕ
  docId : ℕ
  lineNo : ℕ
  productId : Option ℕ
  description : String
  quantity : ℤ
  unitPrice : ℤ
  accountId : Option ℕ
  taxCode : Option String
  taxRate : ℤ
  orderLineId : Option ℕ := none
deriving DecidableEq

namespace DocLine

/-- `round(quantity * unit_price, 4)` -/
def lineSubtotal (l : DocLine) : ℤ := roundDiv (l.quantity * l.unitPrice) (10 ^ 4)

/-- `round(quantity * unit_price * tax_rate * 0.01, 4)` -/
def taxAmount (l : DocLine) : ℤ := roundDiv (l.quantity * l.unitPrice * l.taxRate) (10 ^ 10)

def lineTotal (l : DocLine) : ℤ := l.lineSubtotal + l.taxAmount

end DocLine

structure Payment where
  id : ℕ
  side : Side
  partyId : ℕ
  date : Date
  currencyCode : String
  amount : ℤ
  cashAccountId : Option ℕ
  status : DocStatus := .draft
  periodId : Option ℕ := none
  journalEntryId : Option ℕ := none
deriving DecidableEq

/-- An amount of a payment or credit note applied to an invoice or bill. -/
structure Application where
  id : ℕ
  side : Side
  settler : SettlerKind
  settlerId : ℕ
  docId : ℕ
  amountApplied : ℤ
  fxJournalEntryId : Option ℕ := none
deriving DecidableEq

/-- `sourceId` is the order line a movement fulfils: `source_type` is set exactly when it is. -/
structure StockMovement where
  id : ℕ
  productId : ℕ
  warehouseId : ℕ
  movementDate : Date
  movementType : MovementType
  quantity : ℤ
  unitCost : ℤ
  source : Option (Side × ℕ) := none
  periodId : Option ℕ := none
  journalEntryId : Option ℕ := none
deriving DecidableEq

/-- `round(quantity * unit_cost, 4)` -/
def StockMovement.totalCost (m : StockMovement) : ℤ := roundDiv (m.quantity * m.unitCost) (10 ^ 4)

structure BankStatement where
  id : ℕ
  accountId : ℕ
  openingBalance : ℤ
  closingBalance : ℤ
  status : StatementStatus := .opened
deriving DecidableEq

structure BankStatementLine where
  id : ℕ
  statementId : ℕ
  lineNo : ℕ
  txnDate : Date
  amount : ℤ
  journalLineId : Option ℕ := none
deriving DecidableEq

structure GlSettings where
  baseCurrency : String
  fxGainLossAccountId : Option ℕ
deriving DecidableEq

instance : Keyed Account ℕ := ⟨Account.id⟩
instance : Keyed ExchangeRate (String × Date) := ⟨fun r => (r.currencyCode, r.rateDate)⟩
instance : Keyed FiscalYear ℕ := ⟨FiscalYear.id⟩
instance : Keyed AccountingPeriod ℕ := ⟨AccountingPeriod.id⟩
instance : Keyed JournalEntry ℕ := ⟨JournalEntry.id⟩
instance : Keyed JournalLine ℕ := ⟨JournalLine.id⟩
instance : Keyed Party ℕ := ⟨Party.id⟩
instance : Keyed Product ℕ := ⟨Product.id⟩
instance : Keyed TaxCode String := ⟨TaxCode.code⟩
instance : Keyed Warehouse ℕ := ⟨Warehouse.id⟩
instance : Keyed Doc ℕ := ⟨Doc.id⟩
instance : Keyed DocLine ℕ := ⟨DocLine.id⟩
instance : Keyed Payment ℕ := ⟨Payment.id⟩
instance : Keyed Application ℕ := ⟨Application.id⟩
instance : Keyed StockMovement ℕ := ⟨StockMovement.id⟩
instance : Keyed BankStatement ℕ := ⟨BankStatement.id⟩
instance : Keyed BankStatementLine ℕ := ⟨BankStatementLine.id⟩

/-! ### The database -/

structure DB where
  accounts : Table Account
  settings : GlSettings
  rates : Table ExchangeRate
  years : Table FiscalYear
  periods : Table AccountingPeriod
  entries : Table JournalEntry
  lines : Table JournalLine
  parties : Table Party
  products : Table Product
  taxCodes : Table TaxCode
  warehouses : Table Warehouse
  docs : Table Doc
  docLines : Table DocLine
  payments : Table Payment
  applications : Table Application
  movements : Table StockMovement
  statements : Table BankStatement
  statementLines : Table BankStatementLine

/-- The currencies the migrations insert; no operation adds one. -/
def currencies : List String := ["USD", "EUR", "GBP", "CAD", "AUD", "JPY"]

/-! ### Errors -/

namespace Posting

inductive Sentinel where
  | notFound
  | notDraft
  | notPosted
  | alreadyPosted
  | alreadyReversed
  | hasApplications
  | notPostable
  | noOpenPeriod
  | missingAccount
  | nothingToPost
  | yearNotOpen
  | yearNotClosed
  | priorYearOpen
  | laterYearClosed
  | bankMatched
  | noExchangeRate
deriving DecidableEq

end Posting

namespace Documents

inductive Sentinel where
  | notFound
  | notDraft
  | orderLinked
deriving DecidableEq

end Documents

namespace Orders

inductive Sentinel where
  | notFound
  | notDraft
  | notOpen
  | noLines
  | fulfilled
  | nothingToFulfil
  | noExchangeRate
deriving DecidableEq

end Orders

namespace Banking

inductive Sentinel where
  | notFound
  | notOpen
  | notReconciled
  | alreadyMatched
  | unmatchedLines
  | unbalanced
  | badCSV
deriving DecidableEq

end Banking

inductive SqlState where
  | notNullViolation
  | uniqueViolation
  | foreignKeyViolation
  | checkViolation
  | exclusionViolation
  | numericValueOutOfRange
  | datetimeFieldOverflow
  | invalidTextRepresentation
  | characterNotInRepertoire
  | raiseException
deriving DecidableEq

/-- A sentinel error with the text it is wrapped in, an error of the database with the constraint it names or the
message it raises, or a value that does not scan into the variable it is read to. -/
inductive Err where
  | posting (e : Posting.Sentinel) (text : String)
  | documents (e : Documents.Sentinel) (text : String)
  | orders (e : Orders.Sentinel) (text : String)
  | banking (e : Banking.Sentinel) (text : String)
  | master (text : String)
  | sql (state : SqlState) (text : String)
  | scan (column : String)
deriving DecidableEq

/-! ### Locks -/

/-- The relations whose rows are locked. -/
inductive LockRel where
  | year
  | period
  | doc
  | payment
  | application
  | movement
  | statement
  | statementLine
  | docLine
deriving DecidableEq

/-- `write` is the lock of an UPDATE that leaves the key alone, `delete` that of a DELETE, `keyShare` that of a
foreign-key check.  The others stand for an entry in a unique or exclusion index that is not yet committed. -/
inductive Lock where
  | write (r : LockRel) (id : ℕ)
  | delete (r : LockRel) (id : ℕ)
  | keyShare (r : LockRel) (id : ℕ)
  | docNumber (kind : DocKind) (party : Option ℕ) (number : String)
  | yearName (name : String)
  | periodName (year : ℕ) (name : String)
  | periodRange (startDate endDate : Date)
  | applied (settlerId docId : ℕ)
  | matched (journalLineId : ℕ)
  | lineNo (statementId lineNo : ℕ)
deriving DecidableEq

def Lock.conflict : Lock → Lock → Bool
  | .write r i, .write r' i' => r = r' && i = i'
  | .write r i, .delete r' i' => r = r' && i = i'
  | .delete r i, .write r' i' => r = r' && i = i'
  | .delete r i, .delete r' i' => r = r' && i = i'
  | .delete r i, .keyShare r' i' => r = r' && i = i'
  | .keyShare r i, .delete r' i' => r = r' && i = i'
  | .docNumber k p n, .docNumber k' p' n' => k = k' && p = p' && n = n'
  | .yearName n, .yearName n' => n = n'
  | .periodName y n, .periodName y' n' => y = y' && n = n'
  | .periodRange a b, .periodRange a' b' => a ≤ b' && a' ≤ b
  | .applied s d, .applied s' d' => s = s' && d = d'
  | .matched l, .matched l' => l = l'
  | .lineNo s n, .lineNo s' n' => s = s' && n = n'
  | _, _ => false

theorem Lock.conflict_comm (a b : Lock) : a.conflict b = b.conflict a := by
  cases a <;> cases b <;> simp only [Lock.conflict, eq_comm]
  rw [Bool.and_comm]

instance : Locking Lock := ⟨Lock.conflict, Lock.conflict_comm⟩

/-- A transaction of the application. -/
abbrev Txn (α : Type) : Type 1 := Prog DB Lock Err α

/-- The range of `numeric(19,4)` and, for rates, of `numeric(19,8)`. -/
def fits (x : ℤ) : Bool := x.natAbs < 10 ^ 19

theorem fits_neg (x : ℤ) : fits (-x) = fits x := by
  rw [fits, fits, Int.natAbs_neg]

theorem fits_zero : fits 0 = true := rfl
