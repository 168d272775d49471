import Mathlib.Data.List.Dedup
import Mathlib.Data.List.MinMax
import Mathlib.Data.List.Sort
import Tadmor.Model.Schema

/-!
# Journal entries

What every posting shares: the open period of a date, the rate of a currency, the insertion of an entry and of its
lines with the checks and triggers of the two tables, and the reversal of an entry.
-/

/-- Fails with `e` unless `b`. -/
def ensure (b : Bool) (e : Err) : Except Err Unit := if b then .ok () else .error e

@[simp] theorem ensure_eq_ok {b : Bool} {e : Err} {u : Unit} : ensure b e = .ok u ↔ b = true := by
  cases b <;> simp [ensure]

/-- The key `k` if its row is there and satisfies `p`: the rows that `WHERE id = k AND p` selects. -/
def Table.hit {α κ : Type} [Keyed α κ] [DecidableEq κ] (t : Table α) (k : κ) (p : α → Bool) : List κ :=
  match t.find? k with
  | some a => if p a then [k] else []
  | none => []

/-! ### Periods -/

namespace DB

def openPeriod (db : DB) (date : Date) : Option AccountingPeriod :=
  (db.periods.rows.filter fun p => p.startDate ≤ date && date ≤ p.endDate && p.status = .opened).argmin (·.id)

def covered (db : DB) (date : Date) : Bool :=
  db.periods.rows.any fun p => p.startDate ≤ date && date ≤ p.endDate

/-- The open fiscal year, the earliest if there are several, that covers `date`. -/
def openYear (db : DB) (date : Date) : Option FiscalYear :=
  (db.years.rows.filter fun fy => fy.startDate ≤ date && date ≤ fy.endDate && fy.status = .opened).argmin
    (·.startDate.rank)

/-- A period of the same year and name. -/
def periodNameTaken (db : DB) (p : AccountingPeriod) : Bool :=
  db.periods.rows.any fun q => q.id ≠ p.id && q.fiscalYearId = p.fiscalYearId && q.name = p.name

def periodOverlaps (db : DB) (p : AccountingPeriod) : Bool :=
  db.periods.rows.any fun q => q.id ≠ p.id && q.startDate ≤ p.endDate && p.startDate ≤ q.endDate

end DB

/-- The locks of a period row that is not yet committed. -/
def AccountingPeriod.locks (p : AccountingPeriod) : List Lock :=
  [.periodRange p.startDate p.endDate, .periodName p.fiscalYearId p.name]

/-- The period that `periodForDate` creates for `date` in the year `fy`. -/
def monthPeriod (id : ℕ) (fy : FiscalYear) (date : Date) : AccountingPeriod :=
  { id, fiscalYearId := fy.id, name := date.yearMonth, startDate := max date.monthStart fy.startDate,
    endDate := min date.monthEnd fy.endDate }

def insertMonth (date : Date) : Txn Unit := Prog.exec fun n db =>
  match db.openYear date with
  | none => .ok { res := () }
  | some fy =>
    let p := monthPeriod n fy date
    -- ON CONFLICT DO NOTHING
    if db.periodNameTaken p || db.periodOverlaps p then .ok { res := (), used := 1 }
    else .ok { res := (), used := 1, act := fun d => { d with periods := d.periods.insert p }, locks := p.locks }

def periodForDate (date : Date) : Txn ℕ := do
  match ← Prog.read fun db => db.openPeriod date with
  | some p => pure p.id
  | none =>
    let covered ← Prog.read fun db => db.covered date
    Prog.require (!covered) (.posting .noOpenPeriod "")
    insertMonth date
    match ← Prog.read fun db => db.openPeriod date with
    | some p => pure p.id
    | none => .throw (.posting .noOpenPeriod "")

/-! ### Entries -/

namespace DB

/-- The rate an entry in `currency` at `date` converts to base at: the latest one on or before `date`, 1 for the
base currency itself. -/
def rateFor (db : DB) (currency : String) (date : Date) : Option ℤ :=
  if currency = db.settings.baseCurrency then some (10 ^ 8)
  else ((db.rates.rows.filter fun r => r.currencyCode = currency && r.rateDate ≤ date).argmax
    (·.rateDate.rank)).map (·.rate)

def linesOf (db : DB) (je : ℕ) : List JournalLine := db.lines.rows.filter fun l => l.journalEntryId = je

/-- `trg_journal_entries_period_open` -/
def periodOpen (db : DB) (period : ℕ) : Except Err Unit :=
  ensure (!db.periods.rows.any fun p => p.id = period && p.status = .closed)
    (.sql .raiseException s!"accounting period {period} is closed")

/-- `accounting_assert_entry_balanced`, the deferred check of entries and lines. -/
def entryBalanced (je : ℕ) (db : DB) : Except Err Unit :=
  match db.entries.find? je with
  | none => .ok ()
  | some e =>
    if e.status ≠ .posted then .ok ()
    else
      let ls := db.linesOf je
      let debit := (ls.map (·.debit)).sum
      let credit := (ls.map (·.credit)).sum
      let baseDebit := (ls.map (·.baseDebit)).sum
      let baseCredit := (ls.map (·.baseCredit)).sum
      if !(fits debit && fits credit && fits baseDebit && fits baseCredit) then
        .error (.sql .numericValueOutOfRange "accounting_assert_entry_balanced")
      else if debit = 0 ∧ credit = 0 then
        .error (.sql .raiseException s!"journal entry {je} is posted but has no lines")
      else if debit ≠ credit then .error (.sql .raiseException s!"journal entry {je} is unbalanced")
      else if baseDebit ≠ baseCredit then
        .error (.sql .raiseException s!"journal entry {je} is unbalanced in base currency")
      else .ok ()

end DB

/-- `INSERT INTO journal_entries`; `e` carries the id the statement draws. -/
def insertEntry (db : DB) (e : JournalEntry) : Except Err (Outcome DB Lock Err ℕ) := do
  db.periodOpen e.periodId
  ensure (0 < e.exchangeRate) (.sql .checkViolation "journal_entries_rate_positive")
  ensure (db.periods.find? e.periodId).isSome (.sql .foreignKeyViolation "journal_entries_period_id_fkey")
  ensure (e.currencyCode ∈ currencies) (.sql .foreignKeyViolation "journal_entries_currency_code_fkey")
  .ok {
    res := e.id
    used := 1
    act := fun d => { d with entries := d.entries.insert e }
    locks := [.keyShare .period e.periodId]
    checks := [DB.entryBalanced e.id] }

def createEntry (date : Date) (period : ℕ) (currency memo reference : String) : Txn ℕ := Prog.exec fun n db =>
  match db.rateFor currency date with
  | none => .error (.posting .noExchangeRate s!"currency {currency}")
  | some rate =>
    insertEntry db {
      id := n, entryDate := date, periodId := period, currencyCode := currency, exchangeRate := rate, memo,
      reference := some reference }

/-! ### Lines -/

/-- A line to insert; a query may find no account for it. -/
structure NewLine where
  lineNo : ℕ
  accountId : Option ℕ
  debit : ℤ
  credit : ℤ
  memo : String
  baseDebit : ℤ
  baseCredit : ℤ
deriving DecidableEq

/-- The line whose debit less credit is `amount`. -/
def NewLine.signed (lineNo : ℕ) (accountId : Option ℕ) (amount base : ℤ) (memo : String) : NewLine :=
  { lineNo, accountId, debit := max amount 0, credit := max (-amount) 0, memo,
    baseDebit := max base 0, baseCredit := max (-base) 0 }

def NewLine.row (je id account : ℕ) (l : NewLine) : JournalLine :=
  { id, journalEntryId := je, lineNo := l.lineNo, accountId := account, debit := l.debit, credit := l.credit,
    memo := l.memo, baseDebit := l.baseDebit, baseCredit := l.baseCredit }

/-- `trg_journal_lines_account_ok` and the foreign key of the account. -/
def DB.accountOk (db : DB) (account : ℕ) : Except Err Unit :=
  match db.accounts.find? account with
  | none => .error (.sql .foreignKeyViolation "journal_lines_account_id_fkey")
  | some a => do
    ensure a.isPostable (.sql .raiseException s!"account {account} is a summary account and cannot be posted to")
    ensure a.isActive (.sql .raiseException s!"account {account} is inactive")

/-- The trigger and the checks of a row of `journal_lines`. -/
def JournalLine.check (db : DB) (l : JournalLine) : Except Err Unit := do
  ensure (fits l.debit && fits l.credit && fits l.baseDebit && fits l.baseCredit)
    (.sql .numericValueOutOfRange "journal_lines")
  db.accountOk l.accountId
  ensure (0 ≤ l.debit && 0 ≤ l.credit) (.sql .checkViolation "journal_lines_nonneg")
  ensure (decide (l.debit = 0) != decide (l.credit = 0)) (.sql .checkViolation "journal_lines_one_side")
  ensure (0 ≤ l.baseDebit && 0 ≤ l.baseCredit) (.sql .checkViolation "journal_lines_base_nonneg")
  ensure ((l.baseDebit = 0 || 0 < l.debit) && (l.baseCredit = 0 || 0 < l.credit))
    (.sql .checkViolation "journal_lines_base_side")

/-- The rows of `ls`, numbered from `n`, each checked. -/
def newRows (db : DB) (je : ℕ) : ℕ → List NewLine → Except Err (List JournalLine)
  | _, [] => .ok []
  | n, l :: ls =>
    match l.accountId with
    | none => .error (.sql .notNullViolation "account_id")
    | some account => do
      (l.row je n account).check db
      let rows ← newRows db je (n + 1) ls
      .ok (l.row je n account :: rows)

/-- `INSERT INTO journal_lines` of the rows that `select` finds. -/
def insertLines (je : ℕ) (select : DB → List NewLine) : Txn Unit := Prog.exec fun n db => do
  let rows ← newRows db je n (select db)
  ensure ((rows.map (·.lineNo)).Nodup ∧ ∀ l ∈ rows, ∀ m ∈ db.lines.rows, m.journalEntryId = je → m.lineNo ≠ l.lineNo)
    (.sql .uniqueViolation "journal_lines_line_no_uq")
  .ok {
    res := ()
    used := rows.length
    act := fun d => { d with lines := d.lines.insertAll rows }
    checks := rows.map fun _ => DB.entryBalanced je }

/-! ### Reversal -/

/-- The reversal of `e`: the same date, currency, rate and closing flag. -/
def JournalEntry.reversal (e : JournalEntry) (id : ℕ) (date : Date) (period : ℕ) (currency : String) :
    JournalEntry :=
  { id, entryDate := date, periodId := period, currencyCode := currency, exchangeRate := e.exchangeRate,
    memo := s!"Reversal of journal entry {e.id}", reversesEntryId := some e.id, isClosing := e.isClosing }

/-- A line with debit and credit swapped. -/
def JournalLine.mirror (l : JournalLine) : NewLine :=
  { lineNo := l.lineNo, accountId := some l.accountId, debit := l.credit, credit := l.debit, memo := l.memo,
    baseDebit := l.baseCredit, baseCredit := l.baseDebit }

def DB.matchedOn (db : DB) (je : ℕ) : Bool :=
  db.statementLines.rows.any fun b =>
    match b.journalLineId with
    | none => false
    | some jl => (db.lines.find? jl).any fun l => l.journalEntryId = je

def reverseEntry (origID : ℕ) : Txn ℕ := do
  let (date, currency) ← Prog.query fun db =>
    match db.entries.find? origID with
    | none => .error (.posting .notFound s!"posting: journal entry {origID}")
    | some e => .ok (e.entryDate, e.currencyCode)
  let already ← Prog.read fun db => db.entries.rows.any fun e => e.reversesEntryId = some origID
  Prog.require (!already) (.posting .alreadyReversed s!"posting: journal entry {origID}")
  let matched ← Prog.read fun db => db.matchedOn origID
  Prog.require (!matched) (.posting .bankMatched s!"posting: journal entry {origID}")
  let period ← periodForDate date
  let rev ← Prog.exec fun n db =>
    match db.entries.find? origID with
    | none => .error (.posting .notFound s!"posting: journal entry {origID}")
    | some e => insertEntry db (e.reversal n date period currency)
  insertLines rev fun db => (db.linesOf origID).map JournalLine.mirror
  pure rev
