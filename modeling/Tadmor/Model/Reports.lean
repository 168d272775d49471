import Tadmor.Model.System

/-!
# Financial statements

The trial balance, the profit and loss statement, the balance sheet and the cash-flow statement, in base currency.  A report casts its sums to
`numeric(19,4)`, so it fails when one of them does not fit.
-/

def overflow : Err := .sql .numericValueOutOfRange "numeric field overflow"

/-- The cast `::numeric(19,4)`. -/
def numeric (x : ℤ) : Except Err ℤ := if fits x then .ok x else .error overflow

namespace JournalEntry

/-- Posted, and dated on or before `asOf` if it is given. -/
def upTo (e : JournalEntry) (asOf : Option Date) : Bool := e.status = .posted && asOf.all (e.entryDate ≤ ·)

/-- Posted, and dated in the range. -/
def within (e : JournalEntry) (fromDate toDate : Option Date) : Bool := fromDate.all (· ≤ e.entryDate) && e.upTo toDate

/-- Posted, and dated before `fromDate`, which is given. -/
def before (e : JournalEntry) (fromDate : Option Date) : Bool := e.status = .posted && fromDate.any (e.entryDate < ·)

end JournalEntry

namespace DB

/-- `sum` over the lines of the entries and accounts that satisfy the conditions. -/
def lineSum (db : DB) (entry : JournalEntry → Bool) (account : Account → Bool) (amount : JournalLine → ℤ) : ℤ :=
  ((db.lines.rows.filter fun l =>
    (db.entries.find? l.journalEntryId).any entry && (db.accounts.find? l.accountId).any account).map amount).sum

/-- The lines of an account in the entries that satisfy the condition. -/
def accountLines (db : DB) (entry : JournalEntry → Bool) (a : Account) : List JournalLine :=
  db.lines.rows.filter fun l => (db.entries.find? l.journalEntryId).any entry && l.accountId = a.id

/-- `ORDER BY code` -/
def accountsByCode (db : DB) : List Account := db.accounts.rows.insertionSort fun a b => a.code ≤ b.code

end DB

/-- `base_debit - base_credit` -/
def JournalLine.net (l : JournalLine) : ℤ := l.baseDebit - l.baseCredit

/-! ### Trial balance -/

structure TrialBalanceRow where
  accountId : ℕ
  code : String
  accountType : AccountType
  totalDebit : ℤ
  totalCredit : ℤ
  balance : ℤ
deriving DecidableEq

/-- A row of the view `trial_balance`. -/
def DB.trialBalanceRow (db : DB) (a : Account) : TrialBalanceRow :=
  let ls := db.accountLines (·.status = .posted) a
  { accountId := a.id
    code := a.code
    accountType := a.accountType
    totalDebit := (ls.map (·.baseDebit)).sum
    totalCredit := (ls.map (·.baseCredit)).sum
    balance := (ls.map JournalLine.net).sum }

def castTrialBalance : List TrialBalanceRow → Except Err (List TrialBalanceRow)
  | [] => .ok []
  | r :: rs => do
    let _ ← numeric r.totalDebit
    let _ ← numeric r.totalCredit
    let _ ← numeric r.balance
    let rs ← castTrialBalance rs
    .ok (r :: rs)

def TrialBalance (db : DB) : Except Err (List TrialBalanceRow) :=
  castTrialBalance (db.accountsByCode.map db.trialBalanceRow)

/-! ### Profit and loss -/

/-- The amount of an account on a statement. -/
structure AccountActivityRow where
  accountId : ℕ
  code : String
  accountType : AccountType
  amount : ℤ
deriving DecidableEq

/-- The accounts that satisfy the condition and have lines in the entries that do, each with the sum over these
lines. -/
def DB.activity (db : DB) (entry : JournalEntry → Bool) (account : Account → Bool)
    (amount : Account → JournalLine → ℤ) : List AccountActivityRow :=
  db.accountsByCode.filterMap fun a =>
    if account a then
      match db.accountLines entry a with
      | [] => none
      | l :: ls =>
        some { accountId := a.id, code := a.code, accountType := a.accountType
               amount := ((l :: ls).map (amount a)).sum }
    else none

def castActivity : List AccountActivityRow → Except Err (List AccountActivityRow)
  | [] => .ok []
  | r :: rs => do
    let _ ← numeric r.amount
    let rs ← castActivity rs
    .ok (r :: rs)

def AccountType.isBalanceSheet : AccountType → Bool
  | .asset => true
  | .liability => true
  | .equity => true
  | _ => false

def AccountType.isIncome : AccountType → Bool
  | .revenue => true
  | .expense => true
  | _ => false

/-- Closing entries do not count as income. -/
def JournalEntry.earning (e : JournalEntry) (fromDate toDate : Option Date) : Bool :=
  e.within fromDate toDate && !e.isClosing

/-- Credit-positive for revenue, debit-positive for expenses. -/
def incomeAmount (a : Account) (l : JournalLine) : ℤ := if a.accountType = .revenue then -l.net else l.net

def ProfitAndLoss (fromDate toDate : Option Date) (db : DB) : Except Err (List AccountActivityRow) :=
  castActivity (db.activity (·.earning fromDate toDate) (·.accountType.isIncome) incomeAmount)

/-! ### Balance sheet -/

/-- The sum of the rows of one type. -/
def rowTotal (rows : List AccountActivityRow) (t : AccountType) : ℤ :=
  ((rows.filter fun r => r.accountType = t).map (·.amount)).sum

structure BalanceSheet where
  rows : List AccountActivityRow
  currentEarnings : ℤ
deriving DecidableEq

/-- Debit-positive for assets, credit-positive for liabilities and equity. -/
def sheetAmount (a : Account) (l : JournalLine) : ℤ := if a.accountType = .asset then l.net else -l.net

def BalanceSheetAsOf (asOf : Option Date) (db : DB) : Except Err BalanceSheet := do
  let rows ← castActivity (db.activity (·.upTo asOf) (·.accountType.isBalanceSheet) sheetAmount)
  let currentEarnings ← numeric (db.lineSum (·.upTo asOf) (·.accountType.isIncome) fun l => -l.net)
  .ok { rows, currentEarnings }

/-! ### Cash flow -/

structure CashFlow where
  netIncome : ℤ
  rows : List AccountActivityRow
  netCashFlow : ℤ
  openingCash : ℤ
  closingCash : ℤ
deriving DecidableEq

def CashFlowStatement (fromDate toDate : Option Date) (db : DB) : Except Err CashFlow := do
  let netIncome ← numeric (db.lineSum (·.earning fromDate toDate) (·.accountType.isIncome) fun l => -l.net)
  let rows ← castActivity (db.activity (·.earning fromDate toDate)
    (fun a => !a.isCash && a.accountType.isBalanceSheet) fun _ l => -l.net)
  let openingCash ← numeric (db.lineSum (·.before fromDate) (·.isCash) JournalLine.net)
  let netCashFlow ← numeric (db.lineSum (·.within fromDate toDate) (·.isCash) JournalLine.net)
  let closingCash ← numeric (db.lineSum (·.upTo toDate) (·.isCash) JournalLine.net)
  .ok { netIncome, rows, netCashFlow, openingCash, closingCash }
