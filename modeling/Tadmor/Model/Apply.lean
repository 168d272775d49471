import Tadmor.Model.Posting
import Tadmor.Theory.Allocation

/-!
# Applying payments and credit notes

A settler's unapplied remainder is allocated across the open invoices or bills of its party, oldest first.  An
application whose two documents were posted at different rates gets an entry for the exchange difference.  The four
`AutoApply…` functions are `autoApply` at a side and a kind of settler.
-/

def settlerNoun : Side → SettlerKind → String
  | side, .payment => side.payment
  | side, .creditNote => side.creditNote.noun

/-! ### Allocation -/

/-- The order in which open documents are settled. -/
def oldestFirst (d e : Doc) : Bool := d.date < e.date || (d.date = e.date && d.id ≤ e.id)

/-- What can still be applied to a document. -/
def DB.available (db : DB) (d : Doc) : ℤ := d.total - db.amountSettled d.id

/-- The open documents a settler can be applied to, in order, with what is available on each. -/
def DB.openDocs (db : DB) (side : Side) (s : Settler) : List (ℕ × ℤ) :=
  ((db.docs.rows.filter fun d => d.kind = side.invoice && d.partyId = s.partyId &&
      d.currencyCode = s.currencyCode && d.status = .posted && 0 < db.available d).insertionSort
    fun d e => oldestFirst d e = true).map fun d => (d.id, db.available d)

/-- What is left of a settler. -/
def DB.remaining (db : DB) (settler : SettlerKind) (id : ℕ) (s : Settler) : ℤ :=
  s.amount - db.amountApplied settler id

def DB.allocation (db : DB) (side : Side) (settler : SettlerKind) (id : ℕ) : List (ℕ × ℤ) :=
  match db.settlerOf side settler id with
  | none => []
  | some s => allocate (db.remaining settler id s) (db.openDocs side s)

/-- The application rows of an allocation, numbered from `n`. -/
def applicationRows (side : Side) (settler : SettlerKind) (id : ℕ) : ℕ → List (ℕ × ℤ) → List Application
  | _, [] => []
  | n, (docId, amount) :: xs =>
    { id := n, side, settler, settlerId := id, docId, amountApplied := amount } ::
      applicationRows side settler id (n + 1) xs

/-- The trigger and the constraints of an application row. -/
def Application.check (db : DB) (a : Application) : Except Err Unit := do
  ensure (fits a.amountApplied) (.sql .numericValueOutOfRange "amount_applied")
  ensure ((db.settlerOf a.side a.settler a.settlerId).any fun s => s.status = .posted)
    (.sql .raiseException s!"{settlerNoun a.side a.settler} {a.settlerId}: applications require a posted document")
  ensure ((db.docOf a.side.invoice a.docId).any fun d => d.status = .posted)
    (.sql .raiseException s!"{a.side.invoice.noun} {a.docId}: applications require a posted document")
  ensure (0 < a.amountApplied) (.sql .checkViolation "amount_applied_check")
  ensure (db.applications.rows.all fun b =>
      !(b.side = a.side && b.settler = a.settler && b.settlerId = a.settlerId && b.docId = a.docId))
    (.sql .uniqueViolation "applications_uq")

def checkApplications (db : DB) : List Application → Except Err Unit
  | [] => .ok ()
  | a :: as => do
    a.check db
    checkApplications db as

def Settler.rel : SettlerKind → LockRel
  | .payment => .payment
  | .creditNote => .doc

/-- `INSERT INTO` the applications; returns them. -/
def insertApplications (side : Side) (settler : SettlerKind) (id : ℕ) : Txn (List (ℕ × ℤ)) :=
  Prog.exec fun n db => do
    let shares := db.allocation side settler id
    let rows := applicationRows side settler id n shares
    checkApplications db rows
    .ok {
      res := shares
      used := rows.length
      act := fun d => { d with applications := d.applications.insertAll rows }
      locks := rows.flatMap fun a => [.applied id a.docId, .keyShare (Settler.rel settler) id, .keyShare .doc a.docId]
      checks := rows.map fun a => DB.applicationCheck a false }

/-! ### Exchange differences -/

structure Candidate where
  appId : ℕ
  number : String
  partyAccount : Option ℕ
  date : Date
  diff : ℤ
deriving DecidableEq

/-- `round(applied * settler rate, 4) - round(applied * document rate, 4)`, when the two documents have entries. -/
def DB.fxDiff (db : DB) (s : Settler) (d : Doc) (applied : ℤ) : Option ℤ :=
  (s.journalEntryId.bind db.entries.find?).bind fun jes =>
    (d.journalEntryId.bind db.entries.find?).map fun jed =>
      toBase applied jes.exchangeRate - toBase applied jed.exchangeRate

/-- The application `a` of a settler as a candidate for an entry. -/
def DB.candidate (db : DB) (a : Application) : Option Candidate :=
  (db.settlerOf a.side a.settler a.settlerId).bind fun s =>
    (db.partyOf a.side s.partyId).bind fun c =>
      (db.docOf a.side.invoice a.docId).bind fun d =>
        (db.fxDiff s d a.amountApplied).bind fun diff =>
          if diff = 0 then none
          else some { appId := a.id, number := d.number, partyAccount := c.controlAccountId, date := s.date, diff }

def DB.candidates (db : DB) (side : Side) (settler : SettlerKind) (id : ℕ) : List Candidate :=
  (db.applications.rows.filter fun a => a.side = side && a.settler = settler && a.settlerId = id &&
    a.fxJournalEntryId = none).filterMap db.candidate

def fxMemo : Side → String
  | .sales => "Exchange difference on settlement of invoice "
  | .purchase => "Exchange difference on settlement of bill "

/-- Positive values debit the control account; on the A/P side a positive difference is a loss. -/
def fxSign : Side → ℤ
  | .sales => 1
  | .purchase => -1

def Application.withFx (a : Application) (je : ℕ) : Application := { a with fxJournalEntryId := some je }

/-- `UPDATE … SET fx_journal_entry_id` of an application; its deferred check runs again. -/
def linkFx (appId je : ℕ) : Txn Unit := Prog.exec fun _ db =>
  let ks := db.applications.hit appId fun _ => true
  .ok {
    res := ()
    act := fun d => { d with applications := d.applications.update ks (·.withFx je) }
    locks := ks.map (.write .application)
    checks := (db.applications.find? appId).toList.map fun a => DB.applicationCheck a false }

def postFx (side : Side) (base : String) (partyAccount fxAccount : ℕ) (c : Candidate) : Txn Unit := do
  let period ← periodForDate c.date
  let je ← createEntry c.date period base (fxMemo side ++ c.number) c.number
  let v := c.diff * fxSign side
  insertLines je fun _ => [NewLine.signed 1 (some partyAccount) v v "Settlement revaluation"]
  insertLines je fun _ => [NewLine.signed 2 (some fxAccount) (-v) (-v) "Exchange gain (loss)"]
  linkFx c.appId je

def postEach (side : Side) (base : String) (fxAccount : ℕ) : List (ℕ × Candidate) → Txn Unit
  | [] => pure ()
  | (account, c) :: cs => do
    postFx side base account fxAccount c
    postEach side base fxAccount cs

/-- The candidates scan into variables that a null account does not fit. -/
def scanCandidates : List Candidate → Except Err (List (ℕ × Candidate))
  | [] => .ok []
  | c :: cs =>
    match c.partyAccount with
    | none => .error (.scan "party account")
    | some account => do
      let cs ← scanCandidates cs
      .ok ((account, c) :: cs)

def postSettlementFX (side : Side) (settler : SettlerKind) (id : ℕ) : Txn Unit := do
  let cands ← Prog.query fun db => scanCandidates (db.candidates side settler id)
  if cands = [] then pure ()
  else do
    let settings ← Prog.read (·.settings)
    match settings.fxGainLossAccountId with
    | none => .throw (.posting .missingAccount "posting: exchange gain/loss account is not configured in settings")
    | some fxAccount => postEach side settings.baseCurrency fxAccount cands

def autoApply (side : Side) (settler : SettlerKind) (id : ℕ) : Txn (List (ℕ × ℤ)) := do
  let status ← Prog.query fun db =>
    match db.settlerOf side settler id with
    | none => .error (.posting .notFound s!"posting: {settlerNoun side settler} {id}")
    | some s => .ok s.status
  Prog.require (status = .posted) (.posting .notPosted s!"posting: {settlerNoun side settler} {id}")
  let apps ← insertApplications side settler id
  postSettlementFX side settler id
  pure apps

def AutoApplyCustomerPayment := autoApply .sales .payment
def AutoApplySupplierPayment := autoApply .purchase .payment
def AutoApplySalesCreditNote := autoApply .sales .creditNote
def AutoApplyPurchaseCreditNote := autoApply .purchase .creditNote
