import Mathlib.Data.Prod.Lex
import Tadmor.Model.Reports

/-!
# Account ledgers and journal entries

The posted lines of an account in entry order, and a journal entry with its lines: what the statements are drilled
down to.  Amounts are columns of type `numeric(19,4)`, so their casts to it change nothing.
-/

/-- A posted line on an account's ledger. -/
structure LedgerRow where
  journalEntryId : ℕ
  entryDate : Date
  reference : Option String
  memo : String
  currency : String
  debit : ℤ
  credit : ℤ
  baseDebit : ℤ
  baseCredit : ℤ
deriving DecidableEq

/-- The columns of a line joined with its entry. -/
def ledgerRow (x : JournalEntry × JournalLine) : LedgerRow where
  journalEntryId := x.1.id
  entryDate := x.1.entryDate
  reference := x.1.reference
  memo := x.2.memo
  currency := x.1.currencyCode
  debit := x.2.debit
  credit := x.2.credit
  baseDebit := x.2.baseDebit
  baseCredit := x.2.baseCredit

/-- `ORDER BY je.entry_date, je.id, jl.line_no` -/
def ledgerKey (x : JournalEntry × JournalLine) : Date ×ₗ ℕ ×ₗ ℕ :=
  toLex (x.1.entryDate, toLex (x.1.id, x.2.lineNo))

namespace DB

/-- The lines of an account joined with the entries that satisfy the condition. -/
def joined (db : DB) (entry : JournalEntry → Bool) (account : ℕ) : List (JournalEntry × JournalLine) :=
  (db.lines.rows.filter (·.accountId = account)).filterMap fun l =>
    ((db.entries.find? l.journalEntryId).filter entry).map fun e => (e, l)

def ledgerRows (db : DB) (account : ℕ) (fromDate toDate : Option Date) : List LedgerRow :=
  ((db.joined (·.within fromDate toDate) account).insertionSort fun x y => ledgerKey x ≤ ledgerKey y).map ledgerRow

end DB

/-- Nothing if there is no such account. -/
def AccountLedger (account : ℕ) (fromDate toDate : Option Date) (db : DB) : Option (List LedgerRow) :=
  if (db.accounts.find? account).isSome then some (db.ledgerRows account fromDate toDate) else none

/-- A line of an entry with its account. -/
structure JournalEntryLine where
  lineNo : ℕ
  accountId : ℕ
  accountCode : String
  memo : String
  debit : ℤ
  credit : ℤ
  baseDebit : ℤ
  baseCredit : ℤ
deriving DecidableEq

def journalEntryLine (a : Account) (l : JournalLine) : JournalEntryLine where
  lineNo := l.lineNo
  accountId := l.accountId
  accountCode := a.code
  memo := l.memo
  debit := l.debit
  credit := l.credit
  baseDebit := l.baseDebit
  baseCredit := l.baseCredit

/-- An entry with all of its lines, in the order of their numbers. -/
def JournalEntryByID (id : ℕ) (db : DB) : Option (JournalEntry × List JournalEntryLine) :=
  (db.entries.find? id).map fun e =>
    (e, ((db.linesOf id).insertionSort fun l m => l.lineNo ≤ m.lineNo).filterMap fun l =>
      (db.accounts.find? l.accountId).map fun a => journalEntryLine a l)
