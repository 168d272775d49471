import Tadmor.Model.Unpost

/-!
# The year-end close

Closing a fiscal year posts an entry that zeroes every revenue and expense account, closes the year and its periods
and creates the next year.  Reopening it reverses the entry.
-/

/-- `UPDATE accounting_periods SET status` of the rows that `select` finds; a period of a closed year may not be
open. -/
def setPeriods (status : BookStatus) (select : DB → List ℕ) : Txn Unit := Prog.exec fun _ db => do
  let ks := select db
  ensure (status = .closed || db.periods.rows.all fun p =>
      p.id ∉ ks || !db.years.rows.any fun fy => fy.id = p.fiscalYearId && fy.status = .closed)
    (.sql .raiseException "fiscal year is closed; its periods cannot be open")
  .ok {
    res := ()
    act := fun d => { d with periods := d.periods.update ks fun p => { p with status } }
    locks := ks.map (.write .period) }

def updateYear (id : ℕ) (f : FiscalYear → FiscalYear) (hf : ∀ y, (f y).id = y.id := by intro; rfl) : Txn Unit :=
  Prog.exec fun _ db =>
    let ks := db.years.hit id fun _ => true
    .ok {
      res := ()
      act := fun d => { d with years := d.years.update ks f hf }
      locks := ks.map (.write .year) }

/-- A line that the sweep of the years up to `endDate` counts: posted, and on a revenue or expense account. -/
def DB.swept (db : DB) (endDate : Date) (l : JournalLine) : Bool :=
  ((db.entries.find? l.journalEntryId).any fun e => e.status = .posted && e.entryDate ≤ endDate) &&
    (db.accounts.find? l.accountId).any fun a => a.accountType = .revenue || a.accountType = .expense

/-- `balancesSQL`: the revenue and expense balances that are not zero. -/
def DB.balances (db : DB) (endDate : Date) : List (Option ℕ × ℤ) :=
  groupSums ((db.lines.rows.filter (db.swept endDate)).map fun l => (some l.accountId, l.baseDebit - l.baseCredit))

def closingLinesFrom (retained : ℕ) (name : String) (total : ℤ) : ℕ → List (Option ℕ × ℤ) → List NewLine
  | lineNo, [] =>
    if total = 0 then []
    else [NewLine.signed lineNo (some retained) total total ("Net income (loss) for " ++ name)]
  | lineNo, (account, bal) :: xs =>
    NewLine.signed lineNo account (-bal) (-bal) "Year-end close" ::
      closingLinesFrom retained name total (lineNo + 1) xs

/-- One line for each balance on its balancing side, then the retained-earnings line. -/
def closingLines (endDate : Date) (retained : ℕ) (name : String) (db : DB) : List NewLine :=
  let bal := db.balances endDate
  closingLinesFrom retained name (bal.map Prod.snd).sum 1 bal

def DB.coveringPeriod (db : DB) (date : Date) : Option AccountingPeriod :=
  (db.periods.rows.filter fun p => p.startDate ≤ date && date ≤ p.endDate).argmin (·.id)

/-- The period the closing entry lands in: the one covering the last day, reopened if it is closed. -/
def closingPeriod (endDate : Date) : Txn ℕ := do
  match ← Prog.read fun db => db.coveringPeriod endDate with
  | none => periodForDate endDate
  | some p =>
    if p.status = .closed then do
      setPeriods .opened fun db => db.periods.hit p.id fun _ => true
      pure p.id
    else pure p.id

def postClosing (name : String) (endDate : Date) (retained : ℕ) : Txn ℕ := do
  let currency ← Prog.read fun db => db.settings.baseCurrency
  let period ← closingPeriod endDate
  let je ← Prog.exec fun n db => insertEntry db
    { id := n, entryDate := endDate, periodId := period, currencyCode := currency, exchangeRate := 10 ^ 8,
      memo := "Year-end close " ++ name, reference := some name, isClosing := true }
  insertLines je (closingLines endDate retained name)
  pure je

/-- Posts the closing entry if there is a balance to sweep. -/
def postSweep (toSweep : ℕ) (name : String) (endDate : Date) (retained : ℕ) : Txn (Option ℕ) :=
  if 0 < toSweep then do
    let je ← postClosing name endDate retained
    pure (some je)
  else pure none

/-- The year that follows a year ending on `endDate`, named after its last calendar year. -/
def nextYear (id : ℕ) (endDate : Date) : FiscalYear :=
  { id, name := "FY" ++ Date.pad 4 endDate.next.addYear.prev.year, startDate := endDate.next,
    endDate := endDate.next.addYear.prev }

def insertNextYear (endDate : Date) : Txn (Option ℕ) := Prog.exec fun n db =>
  if db.years.rows.any fun y => y.startDate ≤ endDate.next && endDate.next ≤ y.endDate then .ok { res := none }
  else
    let fy := nextYear n endDate
    -- ON CONFLICT (name) DO NOTHING
    if db.years.rows.any fun y => y.name = fy.name then .ok { res := none, used := 1 }
    else do
      ensure (fy.startDate ≤ fy.endDate) (.sql .checkViolation "fiscal_years_dates")
      .ok {
        res := some n
        used := 1
        act := fun d => { d with years := d.years.insert fy }
        locks := [.yearName fy.name] }

structure CloseResult where
  closingEntryId : Option ℕ
  nextFiscalYearId : Option ℕ
deriving DecidableEq

def CloseFiscalYear (id retained : ℕ) : Txn CloseResult := do
  let fy ← Prog.query fun db =>
    match db.years.find? id with
    | none => .error (.posting .notFound s!"posting: fiscal year {id}")
    | some fy => .ok fy
  Prog.require (fy.status = .opened) (.posting .yearNotOpen ("posting: fiscal year " ++ fy.name))
  let priorOpen ← Prog.read fun db => db.years.rows.any fun y =>
    y.id ≠ id && y.status = .opened && (db.years.find? id).any fun fy => y.startDate < fy.startDate
  Prog.require (!priorOpen) (.posting .priorYearOpen ("posting: fiscal year " ++ fy.name))
  let accountOK ← Prog.query fun db =>
    match db.accounts.find? retained with
    | none => .error (.posting .missingAccount s!"posting: retained-earnings account {retained}")
    | some a => .ok (a.isPostable && a.isActive && a.accountType = .equity)
  Prog.require accountOK
    (.posting .missingAccount
      s!"posting: retained-earnings account {retained} must be a postable, active equity account")
  let toSweep ← Prog.read fun db => (db.balances fy.endDate).length
  let closingEntry ← postSweep toSweep fy.name fy.endDate retained
  setPeriods .closed fun db => db.periods.keysWhere fun p => p.fiscalYearId = id && p.status = .opened
  updateYear id fun y => { y with status := .closed, closingEntryId := closingEntry }
  let next ← insertNextYear fy.endDate
  pure { closingEntryId := closingEntry, nextFiscalYearId := next }

def ReopenFiscalYear (id : ℕ) : Txn (Option ℕ) := do
  let fy ← Prog.query fun db =>
    match db.years.find? id with
    | none => .error (.posting .notFound s!"posting: fiscal year {id}")
    | some fy => .ok fy
  Prog.require (fy.status = .closed) (.posting .yearNotClosed ("posting: fiscal year " ++ fy.name))
  let laterClosed ← Prog.read fun db => db.years.rows.any fun y =>
    y.status = .closed && (db.years.find? id).any fun fy => fy.startDate < y.startDate
  Prog.require (!laterClosed) (.posting .laterYearClosed ("posting: fiscal year " ++ fy.name))
  updateYear id fun y => { y with status := .opened, closingEntryId := none }
  match fy.closingEntryId with
  | none => pure none
  | some je => do
    setPeriods .opened fun db =>
      match db.entries.find? je with
      | none => []
      | some e => db.periods.hit e.periodId (·.status = .closed)
    let rev ← reverseEntry je
    pure (some rev)
