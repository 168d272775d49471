import Tadmor.Model.Master

/-!
# The system

The operations of the API as transactions, the database that the migrations leave behind, and the states that
operations executed one after another can reach.  An operation that fails leaves the database as it was.
-/

/-- The documents with lines that post. -/
inductive PostedKind where
  | salesInvoice
  | purchaseBill
  | salesCreditNote
  | purchaseCreditNote
deriving DecidableEq

def PostedKind.spec : PostedKind → PostSpec
  | salesInvoice => salesInvoicePost
  | purchaseBill => purchaseBillPost
  | salesCreditNote => salesCreditNotePost
  | purchaseCreditNote => purchaseCreditNotePost

inductive Op where
  | createDoc (kind : DocKind) (input : DocInput)
  | updateDoc (kind : DocKind) (id : ℕ) (input : DocInput)
  | deleteDoc (kind : DocKind) (id : ℕ)
  | createPayment (side : Side) (input : PaymentInput)
  | updatePayment (side : Side) (id : ℕ) (input : PaymentInput)
  | deletePayment (side : Side) (id : ℕ)
  | createMovement (input : MovementInput)
  | updateMovement (id : ℕ) (input : MovementInput)
  | deleteMovement (id : ℕ)
  | postDoc (kind : PostedKind) (id : ℕ)
  | postPayment (side : Side) (id : ℕ)
  | postMovement (id creditAccountID : ℕ)
  | autoApply (side : Side) (settler : SettlerKind) (id : ℕ)
  | unpostInvoice (side : Side) (id : ℕ)
  | unpostCreditNote (side : Side) (id : ℕ)
  | unpostPayment (side : Side) (id : ℕ)
  | unpostMovement (id : ℕ)
  | closeFiscalYear (id retained : ℕ)
  | reopenFiscalYear (id : ℕ)
  | confirmOrder (side : Side) (id : ℕ)
  | closeOrder (side : Side) (id : ℕ)
  | cancelOrder (side : Side) (id : ℕ)
  | fromOrder (side : Side) (id : ℕ) (input : FromOrderInput)
  | receive (id : ℕ) (input : MoveInput)
  | ship (id : ℕ) (input : MoveInput)
  | createStatement (input : StatementInput)
  | updateStatement (id : ℕ) (input : StatementInput)
  | deleteStatement (id : ℕ)
  | addLines (statement : ℕ) (lines : List StatementLineInput)
  | deleteLine (id : ℕ)
  | matchLine (id journalLineId : ℕ)
  | unmatchLine (id : ℕ)
  | autoMatch (statement : ℕ)
  | reconcile (id : ℕ)
  | reopenStatement (id : ℕ)
  | createAccount (input : AccountInput)
  | updateAccount (id : ℕ) (input : AccountInput)
  | createParty (side : Side) (controlAccountId : Option ℕ)
  | updateParty (side : Side) (id : ℕ) (controlAccountId : Option ℕ)
  | createProduct (input : ProductInput)
  | updateProduct (id : ℕ) (input : ProductInput)
  | createTaxCode (code : String) (taxAccountId : Option ℕ)
  | updateTaxCode (code : String) (taxAccountId : Option ℕ)
  | createWarehouse
  | updateSettings (input : GlSettings)
  | createExchangeRate (currency : String) (date : Date) (rate : ℤ)
  | updateExchangeRate (currency : String) (date : Date) (rate : ℤ)
  | deleteExchangeRate (currency : String) (date : Date)
  | createFiscalYear (input : FiscalYearInput)
  | updateFiscalYear (id : ℕ) (input : FiscalYearInput)
  | createPeriod (input : PeriodInput)
  | updatePeriod (id : ℕ) (input : PeriodInput)

/-- Runs `p` for its effect. -/
def void {α : Type} (p : Txn α) : Txn Unit := p >>= fun _ => pure ()

/-- The transaction of an operation. -/
def transaction : Op → Txn Unit
  | .createDoc kind input => void (createDoc kind input)
  | .updateDoc kind id input => updateDoc kind id input
  | .deleteDoc kind id => deleteDoc kind id
  | .createPayment side input => void (createPayment side input)
  | .updatePayment side id input => updatePayment side id input
  | .deletePayment side id => deletePayment side id
  | .createMovement input => void (CreateStockMovement input)
  | .updateMovement id input => UpdateStockMovement id input
  | .deleteMovement id => DeleteStockMovement id
  | .postDoc kind id => void (postDoc kind.spec id)
  | .postPayment side id => void (postPayment side id)
  | .postMovement id creditAccountID => void (PostStockMovement id creditAccountID)
  | .autoApply side settler id => void (autoApply side settler id)
  | .unpostInvoice side id => void (unpostDoc side.invoice id)
  | .unpostCreditNote side id => void (unpostDoc side.creditNote id)
  | .unpostPayment side id => void (unpostPayment side id)
  | .unpostMovement id => void (UnpostStockMovement id)
  | .closeFiscalYear id retained => void (CloseFiscalYear id retained)
  | .reopenFiscalYear id => void (ReopenFiscalYear id)
  | .confirmOrder side id => confirm side id
  | .closeOrder side id => closeOrder side id
  | .cancelOrder side id => cancel side id
  | .fromOrder side id input => void (fromOrder side id input)
  | .receive id input => void (ReceivePurchaseOrder id input)
  | .ship id input => void (ShipSalesOrder id input)
  | .createStatement input => void (CreateStatement input)
  | .updateStatement id input => UpdateStatement id input
  | .deleteStatement id => DeleteStatement id
  | .addLines statement lines => addLines statement lines
  | .deleteLine id => DeleteLine id
  | .matchLine id journalLineId => MatchLine id journalLineId
  | .unmatchLine id => UnmatchLine id
  | .autoMatch statement => void (AutoMatch statement)
  | .reconcile id => Reconcile id
  | .reopenStatement id => Reopen id
  | .createAccount input => void (CreateAccount input)
  | .updateAccount id input => UpdateAccount id input
  | .createParty side controlAccountId => void (createParty side controlAccountId)
  | .updateParty side id controlAccountId => updateParty side id controlAccountId
  | .createProduct input => void (CreateProduct input)
  | .updateProduct id input => UpdateProduct id input
  | .createTaxCode code taxAccountId => CreateTaxCode code taxAccountId
  | .updateTaxCode code taxAccountId => UpdateTaxCode code taxAccountId
  | .createWarehouse => void CreateWarehouse
  | .updateSettings input => UpdateSettings input
  | .createExchangeRate currency date rate => CreateExchangeRate currency date rate
  | .updateExchangeRate currency date rate => UpdateExchangeRate currency date rate
  | .deleteExchangeRate currency date => DeleteExchangeRate currency date
  | .createFiscalYear input => void (CreateFiscalYear input)
  | .updateFiscalYear id input => UpdateFiscalYear id input
  | .createPeriod input => void (CreateAccountingPeriod input)
  | .updatePeriod id input => UpdateAccountingPeriod id input

/-- The database after the migrations: the starter chart of accounts, the tax codes and the settings. -/
def seeded : Store DB where
  seq := 13
  db := {
    accounts := ⟨[
      { id := 1, code := "1000", accountType := .asset, isCash := true },
      { id := 2, code := "1100", accountType := .asset },
      { id := 3, code := "1200", accountType := .asset },
      { id := 4, code := "2000", accountType := .liability },
      { id := 5, code := "2100", accountType := .liability },
      { id := 6, code := "3000", accountType := .equity },
      { id := 7, code := "3100", accountType := .equity },
      { id := 8, code := "4000", accountType := .revenue },
      { id := 9, code := "5000", accountType := .expense },
      { id := 10, code := "6000", accountType := .expense },
      { id := 11, code := "2150", accountType := .liability },
      { id := 12, code := "7000", accountType := .expense }], by decide⟩
    settings := ⟨"USD", some 12⟩
    rates := .empty
    years := .empty
    periods := .empty
    entries := .empty
    lines := .empty
    parties := .empty
    products := .empty
    taxCodes := ⟨[⟨"STD", some 5⟩, ⟨"ZERO", none⟩, ⟨"EXEMPT", none⟩], by decide⟩
    warehouses := .empty
    docs := .empty
    docLines := .empty
    payments := .empty
    applications := .empty
    movements := .empty
    statements := .empty
    statementLines := .empty }

/-- One operation, run alone. -/
def Step (s s' : Store DB) : Prop := ∃ op gaps, (transaction op).commit gaps s = .ok ((), s')

/-- The states that operations executed one after another can reach. -/
inductive Reachable : Store DB → Prop where
  | start : Reachable seeded
  | step {s s' : Store DB} (h : Reachable s) (hs : Step s s') : Reachable s'

/-- An invariant of the seeded database and of steps is an invariant of the reachable states. -/
theorem Reachable.invariant {I : Store DB → Prop} (h0 : I seeded)
    (hstep : ∀ s s', Reachable s → I s → Step s s' → I s') {s : Store DB} (h : Reachable s) : I s := by
  induction h with
  | start => exact h0
  | step h hs ih => exact hstep _ _ h ih hs

/-- Runs from `s`, in which every operation satisfies `P` in the state it starts from. -/
inductive Runs (P : Store DB → Op → Prop) (s : Store DB) : Store DB → Prop where
  | refl : Runs P s s
  | step {s' s'' : Store DB} {op : Op} {gaps : ℕ → ℕ} (h : Runs P s s') (hp : P s' op)
      (hs : (transaction op).commit gaps s' = .ok ((), s'')) : Runs P s s''

theorem Runs.reachable {P : Store DB → Op → Prop} {s s' : Store DB} (hr : Runs P s s') (h : Reachable s) :
    Reachable s' := by
  induction hr with
  | refl => exact h
  | step _ _ hs ih => exact ih.step ⟨_, _, hs⟩

/-- The operations `ops` executed one after another, from `s`. -/
def execute : List Op → Store DB → Except Err (Store DB)
  | [], s => .ok s
  | op :: ops, s => do
    let (_, s') ← (transaction op).commit (fun _ => 0) s
    execute ops s'

theorem reachable_execute {ops : List Op} {s s' : Store DB} (h : Reachable s) (hs : execute ops s = .ok s') :
    Reachable s' := by
  induction ops generalizing s with
  | nil =>
    cases hs
    exact h
  | cons op ops ih =>
    simp only [execute, Except.bind_eq_ok_iff] at hs
    obtain ⟨⟨u, s₁⟩, h₁, hs⟩ := hs
    exact ih (h.step ⟨op, _, h₁⟩) hs

/-- A state that the operations `ops` reach. -/
theorem exists_reachable (ops : List Op) {p : Store DB → Bool} (h : (execute ops seeded).toOption.any p = true) :
    ∃ s, Reachable s ∧ p s = true := by
  obtain ⟨s, hs, hp⟩ := (Option.any_eq_true ..).1 h
  cases hx : execute ops seeded with
  | error e =>
    rw [hx] at hs
    cases hs
  | ok s' =>
    rw [hx] at hs
    cases hs
    exact ⟨s, reachable_execute .start hx, hp⟩

/-- The operations `ops` executed one after another, as long as each satisfies `p` in the state it starts from. -/
def executeIf (p : Store DB → Op → Bool) : List Op → Store DB → Option (Store DB)
  | [], s => some s
  | op :: ops, s =>
    if p s op then (((transaction op).commit (fun _ => 0) s).toOption).bind fun x => executeIf p ops x.2 else none

theorem Runs.mono {P Q : Store DB → Op → Prop} (hPQ : ∀ s op, P s op → Q s op) {s s' : Store DB} (h : Runs P s s') :
    Runs Q s s' := by
  induction h with
  | refl => exact .refl
  | step _ hp hs ih => exact ih.step (hPQ _ _ hp) hs

theorem Runs.trans {P : Store DB → Op → Prop} {s₁ s₂ s₃ : Store DB} (h : Runs P s₁ s₂) (h' : Runs P s₂ s₃) :
    Runs P s₁ s₃ := by
  induction h' with
  | refl => exact h
  | step _ hp hs ih => exact ih.step hp hs

theorem runs_executeIf {p : Store DB → Op → Bool} {ops : List Op} {s s' : Store DB}
    (h : executeIf p ops s = some s') : Runs (fun s op => p s op = true) s s' := by
  induction ops generalizing s with
  | nil =>
    cases h
    exact .refl
  | cons op ops ih =>
    unfold executeIf at h
    split at h
    · rename_i hp
      obtain ⟨⟨u, s₁⟩, h₁, h⟩ := Option.bind_eq_some_iff.1 h
      have hc : (transaction op).commit (fun _ => 0) s = .ok (u, s₁) := by
        cases hx : (transaction op).commit (fun _ => 0) s with
        | error e =>
          rw [hx] at h₁
          cases h₁
        | ok x =>
          rw [hx] at h₁
          exact congrArg Except.ok (Option.some.inj h₁)
      exact (Runs.refl.step hp hc).trans (ih h)
    · cases h

/-- A run of the operations `ops` from a state that the operations `pre` reach. -/
theorem exists_runs (pre ops : List Op) {p : Store DB → Op → Bool} {q : Store DB → Store DB → Bool}
    (h : (execute pre seeded).toOption.any fun s => (executeIf p ops s).any (q s)) :
    ∃ s s', Reachable s ∧ Runs (fun s op => p s op = true) s s' ∧ q s s' = true := by
  obtain ⟨s, hs, hq⟩ := exists_reachable pre h
  obtain ⟨s', hs', hq⟩ := (Option.any_eq_true ..).1 hq
  exact ⟨s, s', hs, runs_executeIf hs', hq⟩

/-- The requests `ops` sent at once, each a transaction of its own. -/
def race {ι : Type} (s : Store DB) (ops : ι → Op) : Sys ι DB Lock Err Unit := Sys.start s fun i => transaction (ops i)

/-! ### A small business

Where the runs on fixed inputs start: the year 2026 (13), a customer (14) and an invoice of 100 dollars (15). -/

def day (m d : ℕ) (h : 1 ≤ m ∧ m ≤ 12 ∧ 1 ≤ d ∧ d ≤ daysInMonth 2026 m := by decide) : Date := ⟨2026, m, d, h⟩

def yearStart : Date := day 1 1

def march5 : Date := day 3 5

def march6 : Date := day 3 6

def yearEnd : Date := day 12 31

def dollars (n : ℤ) : ℤ := n * 10 ^ 4

def invoiceInput (number : String) (amount : ℤ) : DocInput :=
  { number, partyId := 14, date := day 3 5, currencyCode := "USD",
    lines := [{ accountId := some 8, unitPrice := dollars amount }] }

def opening : List Op := [
  .createFiscalYear ⟨"FY2026", day 1 1, day 12 31⟩,
  .createParty .sales (some 2),
  .createDoc .salesInvoice (invoiceInput "I1" 100)]

def paymentInput (amount : ℤ) : PaymentInput :=
  { partyId := 14, date := day 3 6, currencyCode := "USD", amount := dollars amount, cashAccountId := some 1 }
