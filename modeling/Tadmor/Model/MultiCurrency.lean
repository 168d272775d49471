import Tadmor.Model.Reports

/-!
# Migration 000018

The ledger at schema 17 and the migration that gives it a base currency.  At schema 17 entries have a currency and no
rate, lines have no base amounts, and the trial balance sums debits and credits whatever their currency.

Only the tables the migration reads or writes are here.  Every posting of the program inserts posted entries with
their lines, and none edits or deletes one; the calendar, which limits the dates of entries, is left out.
-/

namespace Schema17

structure JournalEntry where
  id : ℕ
  entryDate : Date
  periodId : ℕ
  currencyCode : String
  memo : String
  reference : Option String := none
  status : DocStatus := .posted
  reversesEntryId : Option ℕ := none
  isClosing : Bool := false
deriving DecidableEq

structure JournalLine where
  id : ℕ
  journalEntryId : ℕ
  lineNo : ℕ
  accountId : ℕ
  debit : ℤ
  credit : ℤ
  memo : String
deriving DecidableEq

instance : Keyed JournalEntry ℕ := ⟨JournalEntry.id⟩
instance : Keyed JournalLine ℕ := ⟨JournalLine.id⟩

structure DB where
  accounts : Table Account
  entries : Table JournalEntry
  lines : Table JournalLine

abbrev Txn (α : Type) := Prog DB Lock Err α

namespace DB

def linesOf (db : DB) (je : ℕ) : List JournalLine := db.lines.rows.filter fun l => l.journalEntryId = je

/-- `accounting_assert_entry_balanced` as 000004 has it -/
def entryBalanced (je : ℕ) (db : DB) : Except Err Unit :=
  match db.entries.find? je with
  | none => .ok ()
  | some e =>
    if e.status ≠ .posted then .ok ()
    else
      let ls := db.linesOf je
      let debit := (ls.map (·.debit)).sum
      let credit := (ls.map (·.credit)).sum
      if !(fits debit && fits credit) then .error (.sql .numericValueOutOfRange "accounting_assert_entry_balanced")
      else if debit = 0 ∧ credit = 0 then
        .error (.sql .raiseException s!"journal entry {je} is posted but has no lines")
      else if debit ≠ credit then .error (.sql .raiseException s!"journal entry {je} is unbalanced")
      else .ok ()

/-- `trg_journal_lines_account_ok` and the foreign key of the account -/
def accountOk (db : DB) (account : ℕ) : Except Err Unit :=
  match db.accounts.find? account with
  | none => .error (.sql .foreignKeyViolation "journal_lines_account_id_fkey")
  | some a => do
    ensure a.isPostable (.sql .raiseException s!"account {account} is a summary account and cannot be posted to")
    ensure a.isActive (.sql .raiseException s!"account {account} is inactive")

def accountCheck (db : DB) (id : ℕ) (input : AccountInput) : Except Err Unit := do
  ensure (!input.isCash || input.accountType = .asset) (.sql .checkViolation "accounts_is_cash_asset_check")
  ensure (input.parentId ≠ some id) (.sql .checkViolation "accounts_no_self_parent")
  ensure (db.accounts.rows.all fun a => a.id = id || a.code ≠ input.code) (.sql .uniqueViolation "accounts_code_key")
  ensure (refOk db.accounts input.parentId) (.sql .foreignKeyViolation "accounts_parent_id_fkey")

end DB

/-! ### Operations -/

def CreateAccount (input : AccountInput) : Txn Unit := Prog.exec fun n db => do
  db.accountCheck n input
  .ok { res := (), used := 1, act := fun d => { d with accounts := d.accounts.insert (input.row n) } }

def UpdateAccount (id : ℕ) (input : AccountInput) : Txn Unit := Prog.exec fun _ db => do
  ensure (db.accounts.find? id).isSome (.master "not found")
  db.accountCheck id input
  .ok { res := (), act := fun d => { d with accounts := d.accounts.update [id] (·.edited input) (Account.key_edited input) } }

/-- A line to insert; a query may find no account for it. -/
structure NewLine where
  lineNo : ℕ
  accountId : Option ℕ
  debit : ℤ
  credit : ℤ
  memo : String
deriving DecidableEq

def NewLine.row (je id account : ℕ) (l : NewLine) : JournalLine :=
  { id, journalEntryId := je, lineNo := l.lineNo, accountId := account, debit := l.debit, credit := l.credit,
    memo := l.memo }

/-- The trigger and the checks of a row of `journal_lines`. -/
def JournalLine.check (db : DB) (l : JournalLine) : Except Err Unit := do
  ensure (fits l.debit && fits l.credit) (.sql .numericValueOutOfRange "journal_lines")
  db.accountOk l.accountId
  ensure (0 ≤ l.debit && 0 ≤ l.credit) (.sql .checkViolation "journal_lines_nonneg")
  ensure (decide (l.debit = 0) != decide (l.credit = 0)) (.sql .checkViolation "journal_lines_one_side")

/-- The rows of `ls`, numbered from `n`, each checked. -/
def newRows (db : DB) (je : ℕ) : ℕ → List NewLine → Except Err (List JournalLine)
  | _, [] => .ok []
  | n, l :: ls =>
    match l.accountId with
    | none => .error (.sql .notNullViolation "account_id")
    | some account => do
      (l.row je n account).check db
      let rows ← newRows db je (n + 1) ls
      .ok (l.row je n account :: rows)

/-- An entry and its lines, as a posting, a reversal or a year-end close inserts them. -/
structure NewEntry where
  entryDate : Date
  periodId : ℕ
  currencyCode : String
  memo : String
  reference : Option String := none
  reversesEntryId : Option ℕ := none
  isClosing : Bool := false
  lines : List NewLine

def NewEntry.row (e : NewEntry) (id : ℕ) : JournalEntry :=
  { id, entryDate := e.entryDate, periodId := e.periodId, currencyCode := e.currencyCode, memo := e.memo,
    reference := e.reference, reversesEntryId := e.reversesEntryId, isClosing := e.isClosing }

def insertEntry (e : NewEntry) : Txn ℕ := Prog.exec fun n _ => do
  ensure (e.currencyCode ∈ currencies) (.sql .foreignKeyViolation "journal_entries_currency_code_fkey")
  .ok {
    res := n
    used := 1
    act := fun d => { d with entries := d.entries.insert (e.row n) }
    checks := [DB.entryBalanced n] }

def insertLines (je : ℕ) (ls : List NewLine) : Txn Unit := Prog.exec fun n db => do
  let rows ← newRows db je n ls
  ensure ((rows.map (·.lineNo)).Nodup ∧ ∀ l ∈ rows, ∀ m ∈ db.lines.rows, m.journalEntryId = je → m.lineNo ≠ l.lineNo)
    (.sql .uniqueViolation "journal_lines_line_no_uq")
  .ok {
    res := ()
    used := rows.length
    act := fun d => { d with lines := d.lines.insertAll rows }
    checks := rows.map fun _ => DB.entryBalanced je }

def post : List NewEntry → Txn Unit
  | [] => pure ()
  | e :: es => do
    let je ← insertEntry e
    insertLines je e.lines
    post es

inductive Op where
  | createAccount (input : AccountInput)
  | updateAccount (id : ℕ) (input : AccountInput)
  | post (es : List NewEntry)

def transaction : Op → Txn Unit
  | .createAccount input => CreateAccount input
  | .updateAccount id input => UpdateAccount id input
  | .post es => post es

/-- The starter chart of accounts. -/
def seeded : Store DB where
  seq := 12
  db := {
    accounts := ⟨[
      { id := 1, code := "1000", accountType := .asset, isCash := true },
      { id := 2, code := "1100", accountType := .asset },
      { id := 3, code := "1200", accountType := .asset },
      { id := 4, code := "2000", accountType := .liability },
      { id := 5, code := "2100", accountType := .liability },
      { id := 6, code := "3000", accountType := .equity },
      { id := 7, code := "3100", accountType := .equity },
      { id := 8, code := "4000", accountType := .revenue },
      { id := 9, code := "5000", accountType := .expense },
      { id := 10, code := "6000", accountType := .expense },
      { id := 11, code := "2150", accountType := .liability }], by decide⟩
    entries := .empty
    lines := .empty }

/-- The ledgers that operations executed one after another can reach. -/
inductive Reachable : Store DB → Prop where
  | start : Reachable seeded
  | step {s s' : Store DB} {op : Op} {gaps : ℕ → ℕ} (h : Reachable s)
      (hs : (transaction op).commit gaps s = .ok ((), s')) : Reachable s'

/-- The lines of an account in posted entries. -/
def DB.accountLines (db : DB) (a : Account) : List JournalLine :=
  db.lines.rows.filter fun l => (db.entries.find? l.journalEntryId).any (·.status = .posted) && l.accountId = a.id

/-- A row of the view `trial_balance` of 000004. -/
def DB.trialBalanceRow (db : DB) (a : Account) : TrialBalanceRow :=
  let ls := db.accountLines a
  { accountId := a.id
    code := a.code
    accountType := a.accountType
    totalDebit := (ls.map (·.debit)).sum
    totalCredit := (ls.map (·.credit)).sum
    balance := (ls.map fun l => l.debit - l.credit).sum }

/-! ### What the migration reads -/

/-- The currency of most entries, the first in the alphabet if there are several. -/
def DB.predominant (db : DB) : Option String :=
  let cs := db.entries.rows.map (·.currencyCode)
  (cs.dedup.insertionSort fun a b => cs.count b < cs.count a ∨ cs.count a = cs.count b ∧ a ≤ b).head?

def DB.baseCurrency (db : DB) : String := db.predominant.getD "USD"

def DB.hasFxAccount (db : DB) : Bool := db.accounts.rows.any (·.code = "7000")

end Schema17

/-! ### The migration -/

/-- The row with the columns 000018 adds at their defaults. -/
def alterEntry (e : Schema17.JournalEntry) : JournalEntry :=
  { id := e.id, entryDate := e.entryDate, periodId := e.periodId, currencyCode := e.currencyCode,
    exchangeRate := 10 ^ 8, memo := e.memo, reference := e.reference, status := e.status,
    reversesEntryId := e.reversesEntryId, isClosing := e.isClosing }

def alterLine (l : Schema17.JournalLine) : JournalLine :=
  { id := l.id, journalEntryId := l.journalEntryId, lineNo := l.lineNo, accountId := l.accountId, debit := l.debit,
    credit := l.credit, memo := l.memo, baseDebit := 0, baseCredit := 0 }

/-- `INSERT INTO accounts ... ON CONFLICT (code) DO NOTHING`; `n` is the id it draws. -/
def seedAccounts (n : ℕ) (db : Schema17.DB) : Table Account :=
  if db.hasFxAccount then db.accounts else db.accounts.insert { id := n, code := "7000", accountType := .expense }

/-- The ledger after the seed of the settings and the `ALTER TABLE`s, before the backfill.  The tables that neither
the migration nor the trial balance reads are left empty. -/
def alterTables (n : ℕ) (db : Schema17.DB) : DB where
  accounts := seedAccounts n db
  settings := ⟨db.baseCurrency, if db.hasFxAccount then none else some n⟩
  rates := .empty
  years := .empty
  periods := .empty
  entries := db.entries.map alterEntry
  lines := db.lines.map alterLine
  parties := .empty
  products := .empty
  taxCodes := .empty
  warehouses := .empty
  docs := .empty
  docLines := .empty
  payments := .empty
  applications := .empty
  movements := .empty
  statements := .empty
  statementLines := .empty

/-- `SET base_debit = debit, base_credit = credit` -/
def JournalLine.inBase (l : JournalLine) : JournalLine := { l with baseDebit := l.debit, baseCredit := l.credit }

theorem JournalLine.key_inBase (l : JournalLine) : Keyed.key l.inBase = Keyed.key l := rfl

/-- `UPDATE journal_lines`: the row trigger and the checks run for every line, the deferred balance check for its
entry. -/
def backfill : Txn Unit := Prog.exec fun _ db => do
  passAll (db.lines.rows.map fun l db => l.inBase.check db) db
  .ok {
    res := ()
    act := fun d => { d with lines := d.lines.map JournalLine.inBase }
    checks := db.lines.rows.map fun l => DB.entryBalanced l.journalEntryId }

/-- The migration, in the one transaction that `applyOne` runs it in. -/
def multiCurrency (s : Store Schema17.DB) : Except Err (Store DB) := do
  ensure (s.db.baseCurrency ∈ currencies) (.sql .foreignKeyViolation "gl_settings_base_currency_fkey")
  let (_, s') ← backfill.commit (fun _ => 0) ⟨alterTables s.seq s.db, s.seq + 1⟩
  .ok s'
