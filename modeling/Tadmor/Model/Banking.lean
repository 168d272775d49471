import Mathlib.Data.Prod.Lex
import Tadmor.Model.Orders

/-!
# Bank reconciliation

Bank statements, their lines and the matching of lines to journal lines.  A journal line is matched at most once, and
only while its statement is open.
-/

/-- `statementStatus`, then `requireOpen` -/
def requireOpen (id : ℕ) : Txn Unit := do
  let status ← Prog.query fun db =>
    match db.statements.find? id with
    | none => .error (.banking .notFound s!"banking: statement {id}")
    | some s => .ok s.status
  Prog.require (status = .opened) (.banking .notOpen s!"banking: statement {id} is {status.text}")

structure StatementInput where
  accountId : ℕ
  openingBalance : ℤ
  closingBalance : ℤ
deriving DecidableEq

/-- The part of `trg_bank_statements_check` about the account of a row. -/
def DB.cashOk (db : DB) (account : ℕ) : Except Err Unit :=
  ensure (!db.accounts.rows.any fun a => a.id = account && !(a.isPostable && a.isActive && a.isCash))
    (.sql .raiseException s!"account {account} is not a postable, active cash account")

def DB.statementCheck (db : DB) (s : StatementInput) : Except Err Unit := do
  ensure (fits s.openingBalance && fits s.closingBalance) (.sql .numericValueOutOfRange "bank_statements")
  db.cashOk s.accountId
  ensure (db.accounts.find? s.accountId).isSome (.sql .foreignKeyViolation "bank_statements_account_id_fkey")

def StatementInput.row (s : StatementInput) (id : ℕ) : BankStatement :=
  { id, accountId := s.accountId, openingBalance := s.openingBalance, closingBalance := s.closingBalance }

def CreateStatement (input : StatementInput) : Txn ℕ := Prog.exec fun n db => do
  db.statementCheck input
  .ok { res := n, used := 1, act := fun d => { d with statements := d.statements.insert (input.row n) } }

def BankStatement.edited (s : BankStatement) (input : StatementInput) : BankStatement :=
  { s with accountId := input.accountId, openingBalance := input.openingBalance,
           closingBalance := input.closingBalance }

def DB.hasMatched (db : DB) (statement : ℕ) : Bool :=
  db.statementLines.rows.any fun l => l.statementId = statement && l.journalLineId.isSome

def DB.isReconciled (db : DB) (statement : ℕ) : Bool :=
  db.statements.rows.any fun s => s.id = statement && s.status = .reconciled

def UpdateStatement (id : ℕ) (input : StatementInput) : Txn Unit := do
  requireOpen id
  Prog.exec fun _ db => do
    let ks := db.statements.hit id fun _ => true
    if ks = [] then .ok { res := () }
    else
      ensure (!db.isReconciled id)
        (.sql .raiseException s!"bank statement {id} is reconciled and cannot be modified")
      db.statementCheck input
      ensure ((db.statements.find? id).all fun s => s.accountId = input.accountId || !db.hasMatched id)
        (.sql .raiseException s!"bank statement {id} has matched lines")
      .ok {
        res := ()
        act := fun d => { d with statements := d.statements.update ks (·.edited input) }
        locks := ks.map (.write .statement) }

/-- `DELETE FROM bank_statements`; the lines cascade. -/
def DeleteStatement (id : ℕ) : Txn Unit := do
  requireOpen id
  Prog.exec fun _ db => do
    let ks := db.statements.hit id fun _ => true
    let ls := db.statementLines.keysWhere fun l => l.statementId = id
    ensure (!db.isReconciled id)
      (.sql .raiseException s!"bank statement {id} is reconciled and cannot be deleted")
    .ok {
      res := ()
      act := fun d => { d with statements := d.statements.erase ks, statementLines := d.statementLines.erase ls }
      locks := ks.map (.delete .statement) ++ ls.map (.delete .statementLine) }

structure StatementLineInput where
  txnDate : Date
  amount : ℤ
deriving DecidableEq

def StatementLineInput.row (l : StatementLineInput) (statementId id lineNo : ℕ) : BankStatementLine :=
  { id, statementId, lineNo, txnDate := l.txnDate, amount := l.amount }

/-- `trg_bank_statement_lines_check` for a row with the match `journalLine`; a missing statement passes. -/
def DB.statementLineCheck (db : DB) (statement : ℕ) (amount : ℤ) (journalLine : Option ℕ) : Except Err Unit :=
  match db.statements.find? statement with
  | none => .ok ()
  | some s => do
    ensure (s.status = .opened) (.sql .raiseException s!"bank statement {statement} is reconciled")
    match journalLine with
    | none => .ok ()
    | some k =>
      match db.lines.find? k with
      | none => .error (.sql .raiseException s!"journal line {k} does not belong to a posted entry")
      | some l => do
        ensure ((db.entries.find? l.journalEntryId).any fun e => e.status = .posted)
          (.sql .raiseException s!"journal line {k} does not belong to a posted entry")
        ensure (l.accountId = s.accountId) (.sql .raiseException s!"journal line {k} is not on the statement's account")
        ensure (l.debit - l.credit = amount)
          (.sql .raiseException s!"journal line {k} amount does not equal statement line amount")

def DB.nextLineNo (db : DB) (statement : ℕ) : ℕ :=
  ((db.statementLines.rows.filter fun l => l.statementId = statement).map (·.lineNo)).foldr max 0 + 1

def AddLine (statement : ℕ) (input : StatementLineInput) : Txn ℕ := do
  requireOpen statement
  -- the INSERT numbers the line from its snapshot, which is older than its constraints when it has to wait
  let lineNo ← Prog.read fun db => db.nextLineNo statement
  Prog.exec fun n db => do
    ensure (fits input.amount) (.sql .numericValueOutOfRange "bank_statement_lines")
    db.statementLineCheck statement input.amount none
    ensure (input.amount ≠ 0) (.sql .checkViolation "bank_statement_lines_amount_check")
    ensure (db.statementLines.rows.all fun l => l.statementId ≠ statement || l.lineNo ≠ lineNo)
      (.sql .uniqueViolation "bank_statement_lines_line_no_uq")
    ensure (db.statements.find? statement).isSome (.sql .foreignKeyViolation "bank_statement_lines_statement_id_fkey")
    .ok {
      res := n
      used := 1
      act := fun d => { d with statementLines := d.statementLines.insert (input.row statement n lineNo) }
      locks := [.lineNo statement lineNo, .keyShare .statement statement] }

/-- `ImportCSV` after parsing: appends the lines one at a time. -/
def addLines (statement : ℕ) : List StatementLineInput → Txn Unit
  | [] => pure ()
  | l :: ls => do
    let _ ← AddLine statement l
    addLines statement ls

/-- `lineStatement`: the open statement of a line. -/
def lineStatement (lineId : ℕ) : Txn ℕ := do
  let (id, status) ← Prog.query fun db =>
    match (db.statementLines.find? lineId).bind fun l => db.statements.find? l.statementId with
    | none => .error (.banking .notFound s!"banking: statement line {lineId}")
    | some s => .ok (s.id, s.status)
  Prog.require (status = .opened) (.banking .notOpen s!"banking: statement {id} is {status.text}")
  pure id

/-- The trigger on the row that a match makes of the line `lineId`. -/
def DB.matchCheck (db : DB) (lineId : ℕ) (journalLine : Option ℕ) : Except Err Unit :=
  match db.statementLines.find? lineId with
  | none => .ok ()
  | some l => db.statementLineCheck l.statementId l.amount journalLine

def DeleteLine (lineId : ℕ) : Txn Unit := do
  let _ ← lineStatement lineId
  Prog.exec fun _ db => do
    let ks := db.statementLines.hit lineId fun _ => true
    db.matchCheck lineId none
    .ok {
      res := ()
      act := fun d => { d with statementLines := d.statementLines.erase ks }
      locks := ks.map (.delete .statementLine) }

def BankStatementLine.matched (l : BankStatementLine) (journalLineId : Option ℕ) : BankStatementLine :=
  { l with journalLineId }

/-- `UPDATE bank_statement_lines SET journal_line_id` of the keys `ks`, all with the one match. -/
def setMatch (db : DB) (lineId : ℕ) (ks : List ℕ) (journalLine : Option ℕ) :
    Except Err (Outcome DB Lock Err ℕ) := do
  if ks = [] then .ok { res := 0 }
  else
    db.matchCheck lineId journalLine
    ensure (journalLine.all fun k => db.statementLines.rows.all fun l => l.id ∈ ks || l.journalLineId ≠ some k)
      (.sql .uniqueViolation "bank_statement_lines_journal_line_uq")
    .ok {
      res := ks.length
      act := fun d => { d with statementLines := d.statementLines.update ks (·.matched journalLine) }
      locks := ks.map (.write .statementLine) ++ journalLine.toList.map .matched }

def MatchLine (lineId journalLineId : ℕ) : Txn Unit := do
  let _ ← lineStatement lineId
  let n ← Prog.exec fun _ db =>
    setMatch db lineId (db.statementLines.hit lineId (·.journalLineId = none)) (some journalLineId)
  Prog.require (n ≠ 0) (.banking .alreadyMatched s!"banking: statement line {lineId}")

def UnmatchLine (lineId : ℕ) : Txn Unit := do
  let _ ← lineStatement lineId
  let _ ← Prog.exec fun _ db => setMatch db lineId (db.statementLines.hit lineId fun _ => true) none

/-- The journal line that `AutoMatch` picks for a statement line: unmatched, on the account, with the amount; the
closest date first. -/
def DB.matchFor (db : DB) (lineId : ℕ) : Option ℕ :=
  (db.statementLines.find? lineId).bind fun l => (db.statements.find? l.statementId).bind fun s =>
    ((db.lines.rows.filterMap fun jl => (db.entries.find? jl.journalEntryId).bind fun je =>
      if je.status = .posted ∧ jl.accountId = s.accountId ∧ jl.debit - jl.credit = l.amount ∧
          (db.statementLines.rows.all fun used => used.journalLineId ≠ some jl.id) = true
      then some (((je.entryDate.dayNumber : ℤ) - l.txnDate.dayNumber).natAbs, jl.id) else none).argmin
        (toLex : ℕ × ℕ → ℕ ×ₗ ℕ)).map Prod.snd

def autoMatchLine (lineId : ℕ) : Txn ℕ := Prog.exec fun _ db =>
  match db.matchFor lineId with
  | none => .ok { res := 0 }
  | some k => setMatch db lineId [lineId] (some k)

def autoMatchLines : List ℕ → Txn ℕ
  | [] => pure 0
  | l :: ls => do
    let n ← autoMatchLine l
    let m ← autoMatchLines ls
    pure (n + m)

def AutoMatch (statement : ℕ) : Txn ℕ := do
  requireOpen statement
  let lines ← Prog.read fun db =>
    ((db.statementLines.rows.filter fun l => l.statementId = statement && l.journalLineId = none).insertionSort
      fun l m => l.lineNo ≤ m.lineNo).map (·.id)
  autoMatchLines lines

def DB.unmatched (db : DB) (statement : ℕ) : ℕ :=
  db.statementLines.rows.countP fun l => l.statementId = statement && l.journalLineId = none

def DB.balances? (db : DB) (statement : ℕ) : Bool :=
  (db.statements.find? statement).any fun s =>
    s.openingBalance + ((db.statementLines.rows.filter fun l => l.statementId = statement).map (·.amount)).sum =
      s.closingBalance

def DB.accountOfOk (db : DB) (statement : ℕ) : Except Err Unit :=
  match db.statements.find? statement with
  | none => .ok ()
  | some s => db.cashOk s.accountId

def setStatementStatus (id : ℕ) (status : StatementStatus) : Txn Unit := Prog.exec fun _ db => do
  let ks := db.statements.hit id fun _ => true
  ensure (status = .opened || !db.isReconciled id)
    (.sql .raiseException s!"bank statement {id} is reconciled and cannot be modified")
  db.accountOfOk id
  ensure (status = .opened || db.unmatched id = 0) (.sql .raiseException s!"bank statement {id} has unmatched lines")
  ensure (status = .opened || db.balances? id) (.sql .raiseException s!"bank statement {id} does not balance")
  .ok {
    res := ()
    act := fun d => { d with statements := d.statements.update ks fun s => { s with status } }
    locks := ks.map (.write .statement) }

def Reconcile (id : ℕ) : Txn Unit := do
  requireOpen id
  let (unmatched, balances) ← Prog.query fun db =>
    match db.statements.find? id with
    | none => .error (.scan "no rows in result set")
    | some _ => .ok (db.unmatched id, db.balances? id)
  Prog.require (unmatched = 0) (.banking .unmatchedLines s!"banking: statement {id} has {unmatched} unmatched lines")
  Prog.require balances (.banking .unbalanced s!"banking: statement {id}")
  setStatementStatus id .reconciled

def Reopen (id : ℕ) : Txn Unit := do
  let status ← Prog.query fun db =>
    match db.statements.find? id with
    | none => .error (.banking .notFound s!"banking: statement {id}")
    | some s => .ok s.status
  Prog.require (status = .reconciled) (.banking .notReconciled s!"banking: statement {id} is {status.text}")
  setStatementStatus id .opened
