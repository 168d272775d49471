import Tadmor.Proof.Statements

/-!
# What a statement can do to the ledger

The accounts, the calendar, the journal and the bank statements change one statement at a time.  Every statement of
every operation makes one of the changes below, with what it has checked.  The invariants of these tables are proved
from the changes, one case a change.
-/

def DB.DocRowOk (db : DB) (d : Doc) : Prop :=
  d.currencyCode ∈ currencies ∧ fits d.total = true ∧ (db.partyOf d.kind.side d.partyId).isSome = true

def DB.PaymentRowOk (db : DB) (p : Payment) : Prop :=
  p.currencyCode ∈ currencies ∧ (db.partyOf p.side p.partyId).isSome = true

structure StockMovement.RowOk (m : StockMovement) : Prop where
  fits : fits m.totalCost = true
  moved : m.quantity ≠ 0
  cost : 0 ≤ m.unitCost
  sign : m.movementType.signOk m.quantity = true
  period : m.journalEntryId = none → m.periodId = none

/-- The checks of the rates, the settings, the documents, the payments and the movements, as far as the postings rely
on them. -/
def DB.RowsOk (db : DB) : Prop :=
  (∀ r ∈ db.rates, 0 < r.rate) ∧ db.settings.baseCurrency ∈ currencies ∧ (∀ d ∈ db.docs, db.DocRowOk d) ∧
    (∀ p ∈ db.payments, db.PaymentRowOk p) ∧ ∀ m ∈ db.movements, m.RowOk

/-- The checks of a document line, but for its number, its header and its order line. -/
structure DocLine.RowOk (products : Table Product) (accounts : Table Account) (taxCodes : Table TaxCode) (l : DocLine) :
    Prop where
  amounts : (fits l.quantity && fits l.unitPrice && l.taxRate.natAbs < 10 ^ 7 && fits l.lineSubtotal &&
    fits l.taxAmount && fits l.lineTotal) = true
  taxRate : 0 ≤ l.taxRate
  product : refOk products l.productId = true
  account : refOk accounts l.accountId = true
  taxCode : refOk taxCodes l.taxCode = true

def DB.DocLinesOk (db : DB) : Prop := ∀ l ∈ db.docLines, l.RowOk db.products db.accounts db.taxCodes

/-- The accounts, the calendar, the journal and the bank statements are those of `db`; the other rows are as sound as
those of `db`. -/
structure SameLedger (db db' : DB) : Prop where
  accounts : db'.accounts = db.accounts
  years : db'.years = db.years
  periods : db'.periods = db.periods
  entries : db'.entries = db.entries
  lines : db'.lines = db.lines
  statements : db'.statements = db.statements
  statementLines : db'.statementLines = db.statementLines
  docLines : db.DocLinesOk → db'.DocLinesOk
  rows : db.RowsOk → db'.RowsOk

theorem SameLedger.refl (db : DB) : SameLedger db db := ⟨rfl, rfl, rfl, rfl, rfl, rfl, rfl, fun h => h, fun h => h⟩

theorem DB.DocRowOk.congr {db db' : DB} {d d' : Doc} (h : db.DocRowOk d) (hp : db'.parties = db.parties)
    (hc : d'.currencyCode = d.currencyCode) (ht : d'.total = d.total) (hk : d'.kind = d.kind)
    (hid : d'.partyId = d.partyId) : db'.DocRowOk d' := by
  unfold DB.DocRowOk DB.partyOf
  rw [hp, hc, ht, hk, hid]
  exact h

theorem DB.PaymentRowOk.congr {db db' : DB} {p p' : Payment} (h : db.PaymentRowOk p) (hp : db'.parties = db.parties)
    (hc : p'.currencyCode = p.currencyCode) (hs : p'.side = p.side) (hid : p'.partyId = p.partyId) :
    db'.PaymentRowOk p' := by
  unfold DB.PaymentRowOk DB.partyOf
  rw [hp, hc, hs, hid]
  exact h

theorem refOk_mono {α κ : Type} [Keyed α κ] [DecidableEq κ] {t t' : Table α} {ref : Option κ}
    (h : ∀ k, (t.find? k).isSome = true → (t'.find? k).isSome = true) (hr : refOk t ref = true) : refOk t' ref = true := by
  cases ref with
  | none => rfl
  | some k => exact h k hr

/-- No line comes unchecked, and no row that a line refers to goes away. -/
theorem DB.DocLinesOk.mono {db db' : DB} (h : db.DocLinesOk)
    (hl : ∀ l ∈ db'.docLines, l ∈ db.docLines ∨ l.RowOk db.products db.accounts db.taxCodes)
    (hp : ∀ k, (db.products.find? k).isSome = true → (db'.products.find? k).isSome = true)
    (ha : ∀ k, (db.accounts.find? k).isSome = true → (db'.accounts.find? k).isSome = true)
    (ht : ∀ k, (db.taxCodes.find? k).isSome = true → (db'.taxCodes.find? k).isSome = true) : db'.DocLinesOk := by
  intro l hm
  obtain ⟨hamounts, hrate, hproduct, haccount, htax⟩ := (hl l hm).elim (h l) id
  exact ⟨hamounts, hrate, refOk_mono hp hproduct, refOk_mono ha haccount, refOk_mono ht htax⟩

theorem docLineCheck_row {db : DB} {kind : DocKind} {l : DocLine} {u : Unit} (h : l.check db kind = .ok u) :
    l.RowOk db.products db.accounts db.taxCodes := by
  simp only [DocLine.check, Except.bind_eq_ok_iff, ensure_eq_ok, exists_const, decide_eq_true_eq] at h
  obtain ⟨hamounts, -, hrate, -, -, hproduct, haccount, htax, -⟩ := h
  exact ⟨hamounts, hrate, hproduct, haccount, htax⟩

theorem checkRows_row {db : DB} {kind : DocKind} {ls : List DocLine} {u : Unit} (h : checkRows db kind ls = .ok u) :
    ∀ l ∈ ls, l.RowOk db.products db.accounts db.taxCodes := by
  induction ls with
  | nil => exact fun l hl => absurd hl List.not_mem_nil
  | cons x ls ih =>
    obtain ⟨u', hx, hxs⟩ := Except.bind_eq_ok_iff.1 h
    intro l hl
    rcases List.mem_cons.1 hl with rfl | hl
    · exact docLineCheck_row hx
    · exact ih hxs l hl

/-- A change of the documents. -/
theorem DB.RowsOk.docs {db db' : DB} (h : db.RowsOk) (hd : ∀ d ∈ db'.docs, d ∈ db.docs ∨ db.DocRowOk d)
    (hr : db'.rates = db.rates) (hs : db'.settings = db.settings) (hp : db'.payments = db.payments)
    (hm : db'.movements = db.movements) (hc : db'.parties = db.parties) : db'.RowsOk := by
  unfold DB.RowsOk
  rw [hr, hs, hp, hm]
  exact ⟨h.1, h.2.1, fun d hd' => ((hd d hd').elim (h.2.2.1 d) id).congr hc rfl rfl rfl rfl,
    fun p hp' => (h.2.2.2.1 p hp').congr hc rfl rfl rfl, h.2.2.2.2⟩

/-- A change of the payments. -/
theorem DB.RowsOk.payments {db db' : DB} (h : db.RowsOk)
    (hp : ∀ p ∈ db'.payments, p ∈ db.payments ∨ db.PaymentRowOk p)
    (hr : db'.rates = db.rates) (hs : db'.settings = db.settings) (hd : db'.docs = db.docs)
    (hm : db'.movements = db.movements) (hc : db'.parties = db.parties) : db'.RowsOk := by
  unfold DB.RowsOk
  rw [hr, hs, hd, hm]
  exact ⟨h.1, h.2.1, fun d hd' => (h.2.2.1 d hd').congr hc rfl rfl rfl rfl,
    fun p hp' => ((hp p hp').elim (h.2.2.2.1 p) id).congr hc rfl rfl rfl, h.2.2.2.2⟩

/-- A change of the movements. -/
theorem DB.RowsOk.movements {db db' : DB} (h : db.RowsOk)
    (hm : ∀ m ∈ db'.movements, m ∈ db.movements ∨ m.RowOk) (hr : db'.rates = db.rates)
    (hs : db'.settings = db.settings) (hd : db'.docs = db.docs) (hp : db'.payments = db.payments)
    (hc : db'.parties = db.parties) : db'.RowsOk := by
  unfold DB.RowsOk
  rw [hr, hs, hd, hp]
  exact ⟨h.1, h.2.1, fun d hd' => (h.2.2.1 d hd').congr hc rfl rfl rfl rfl,
    fun p hp' => (h.2.2.2.1 p hp').congr hc rfl rfl rfl, fun m hm' => (hm m hm').elim (h.2.2.2.2 m) id⟩

/-- A change of the rates. -/
theorem DB.RowsOk.rates {db db' : DB} (h : db.RowsOk) (hr : ∀ r ∈ db'.rates, r ∈ db.rates ∨ 0 < r.rate)
    (hs : db'.settings = db.settings) (hd : db'.docs = db.docs) (hp : db'.payments = db.payments)
    (hm : db'.movements = db.movements) (hc : db'.parties = db.parties) : db'.RowsOk := by
  unfold DB.RowsOk
  rw [hs, hd, hp, hm]
  exact ⟨fun r hr' => (hr r hr').elim (h.1 r) id, h.2.1, fun d hd' => (h.2.2.1 d hd').congr hc rfl rfl rfl rfl,
    fun p hp' => (h.2.2.2.1 p hp').congr hc rfl rfl rfl, h.2.2.2.2⟩

/-- A change of the parties: none goes away. -/
theorem DB.RowsOk.parties {db db' : DB} (h : db.RowsOk) (hr : db'.rates = db.rates) (hs : db'.settings = db.settings)
    (hd : db'.docs = db.docs) (hp : db'.payments = db.payments) (hm : db'.movements = db.movements)
    (hc : ∀ side id, (db.partyOf side id).isSome = true → (db'.partyOf side id).isSome = true) : db'.RowsOk := by
  unfold DB.RowsOk
  rw [hr, hs, hd, hp, hm]
  refine ⟨h.1, h.2.1, fun d hm => ?_, fun p hm => ?_, h.2.2.2.2⟩
  · obtain ⟨hcur, hfit, hparty⟩ := h.2.2.1 d hm
    exact ⟨hcur, hfit, hc _ _ hparty⟩
  · obtain ⟨hcur, hparty⟩ := h.2.2.2.1 p hm
    exact ⟨hcur, hc _ _ hparty⟩

theorem headerCheck_row {db : DB} {kind : DocKind} {id : ℕ} {input : DocInput} {u : Unit}
    (h : db.headerCheck kind id input = .ok u) :
    input.currencyCode ∈ currencies ∧ (db.partyOf kind.side input.partyId).isSome = true := by
  simp only [DB.headerCheck, Except.bind_eq_ok_iff, ensure_eq_ok, exists_const, decide_eq_true_eq] at h
  exact ⟨h.2.2.2, h.2.2.1⟩

theorem paymentCheck_row {db : DB} {side : Side} {input : PaymentInput} {u : Unit}
    (h : db.paymentCheck side input = .ok u) :
    input.currencyCode ∈ currencies ∧ (db.partyOf side input.partyId).isSome = true := by
  simp only [DB.paymentCheck, Except.bind_eq_ok_iff, ensure_eq_ok, exists_const, decide_eq_true_eq] at h
  exact ⟨h.2.2.2.1, h.2.2.1⟩

theorem movementCheck_row {db : DB} {m : StockMovement} {u : Unit} (h : m.check db = .ok u)
    (hp : m.journalEntryId = none → m.periodId = none) : m.RowOk := by
  simp only [StockMovement.check, Except.bind_eq_ok_iff, ensure_eq_ok, exists_const, decide_eq_true_eq,
    Bool.and_eq_true] at h
  obtain ⟨u₁, hproduct, hfits, hmoved, hcost, hsign, -⟩ := h
  exact ⟨hfits.2, hmoved, hcost, hsign, hp⟩

theorem movementRows_ok {db : DB} {n : ℕ} {xs : List (MovementInput × Side × ℕ)} {u : Unit}
    (h : checkMovements db (movementRows n xs) = .ok u) : ∀ m ∈ movementRows n xs, m.RowOk := by
  induction xs generalizing n with
  | nil => exact fun m hm => absurd hm List.not_mem_nil
  | cons x xs ih =>
    obtain ⟨u', hx, hxs⟩ := Except.bind_eq_ok_iff.1 h
    intro m hm
    rcases List.mem_cons.1 hm with rfl | hm
    · exact movementCheck_row hx fun _ => rfl
    · exact ih hxs m hm

theorem rateCheck_pos {rate : ℤ} {u : Unit} (h : rateCheck rate = .ok u) : 0 < rate := by
  simp only [rateCheck, Except.bind_eq_ok_iff, ensure_eq_ok, exists_const, decide_eq_true_eq] at h
  exact h.2

/-- The totals that are stored in a draft fit. -/
theorem recompute_rowsOk {db : DB} {id : ℕ} {lines : Table DocLine} {f : Table Doc → Table Doc}
    (h : db.recompute id lines = .ok f) (hi : db.RowsOk) :
    ∀ d ∈ f db.docs, d ∈ db.docs ∨ db.DocRowOk d := by
  simp only [DB.recompute, Except.bind_eq_ok_iff, ensure_eq_ok, exists_const, Except.ok.injEq] at h
  obtain ⟨hfit, rfl⟩ := h
  intro d hd
  rcases Table.mem_update_cases (by intro; rfl) hd with ⟨hd, -⟩ | ⟨x, hx, hk, rfl⟩
  · exact .inl hd
  · right
    rw [Bool.or_eq_true, decide_eq_true_eq] at hfit
    rcases hfit with hnil | hfit
    · rw [hnil] at hk
      exact absurd hk List.not_mem_nil
    · obtain ⟨hcur, -, hparty⟩ := hi.2.2.1 x hx
      exact ⟨hcur, (Bool.and_eq_true_iff.1 hfit).2, hparty⟩

/-- No period of `ks` belongs to a closed year. -/
def DB.Unlocked (db : DB) (ks : List ℕ) : Prop :=
  ∀ p ∈ db.periods, p.id ∈ ks → ∀ y ∈ db.years, y.id = p.fiscalYearId → y.status = .opened

/-- The statement line `lineId` may be matched to the journal line `k`. -/
structure DB.MayMatch (db : DB) (lineId k : ℕ) : Prop where
  check : db.matchCheck lineId (some k) = .ok ()
  unique : ∀ l ∈ db.statementLines, l.id ≠ lineId → l.journalLineId ≠ some k

/-- What a statement of the operation changes, run on `db` with the sequence at `n`, and the checks it defers. -/
inductive Change (n : ℕ) (db : DB) : Op → DB → List (DB → Except Err Unit) → Prop where
  | elsewhere {op : Op} {db' : DB} {cs : List (DB → Except Err Unit)} (h : SameLedger db db') : Change n db op db' cs
  | month {op : Op} (date : Date) {fy : FiscalYear} (hfy : db.openYear date = some fy)
      (hover : db.periodOverlaps (monthPeriod n fy date) = false) :
      Change n db op { db with periods := db.periods.insert (monthPeriod n fy date) } []
  | openPeriods {op : Op} (ks : List ℕ) (h : db.Unlocked ks) :
      Change n db op { db with
        periods := db.periods.update ks (fun p => { p with status := .opened }) fun _ => rfl } []
  | closePeriods (id retained : ℕ) : Change n db (.closeFiscalYear id retained) { db with
        periods := db.periods.update (db.periods.keysWhere fun p => p.fiscalYearId = id && p.status = .opened)
          (fun p => { p with status := .closed }) fun _ => rfl } []
  | closeYear (id retained : ℕ) (closing : Option ℕ) : Change n db (.closeFiscalYear id retained) { db with
        years := db.years.update (db.years.hit id fun _ => true)
          (fun y => { y with status := .closed, closingEntryId := closing }) fun _ => rfl } []
  | reopenYear (id : ℕ) : Change n db (.reopenFiscalYear id) { db with
        years := db.years.update (db.years.hit id fun _ => true)
          (fun y => { y with status := .opened, closingEntryId := none }) fun _ => rfl } []
  | newYear (input : FiscalYearInput) (h : db.yearCheck n input = .ok ()) :
      Change n db (.createFiscalYear input) { db with years := db.years.insert (input.row n) } []
  | nextYear (id retained : ℕ) (endDate : Date)
      (hd : (nextYear n endDate).startDate ≤ (nextYear n endDate).endDate) :
      Change n db (.closeFiscalYear id retained) { db with years := db.years.insert (nextYear n endDate) } []
  | editYear (id : ℕ) (input : FiscalYearInput) (h : db.yearCheck id input = .ok ()) :
      Change n db (.updateFiscalYear id input) { db with
        years := db.years.update (db.years.hit id fun _ => true) (·.edited input) fun _ => rfl } []
  | newPeriod (input : PeriodInput) (h : db.periodCheck (input.row n .opened) = .ok ()) :
      Change n db (.createPeriod input) { db with periods := db.periods.insert (input.row n .opened) } []
  | editPeriod (id : ℕ) (input : PeriodInput) (h : db.periodCheck (input.row id input.status) = .ok ()) :
      Change n db (.updatePeriod id input) { db with
        periods := db.periods.update (db.periods.hit id fun _ => true) (fun p => input.row p.id input.status)
          fun _ => rfl } []
  | entry {op : Op} (e : JournalEntry) (hid : e.id = n) (hs : e.status = .posted) (hr : 0 < e.exchangeRate)
      (hc : e.currencyCode ∈ currencies) : Change n db op { db with entries := db.entries.insert e }
      [DB.entryBalanced e.id]
  | lines {op : Op} (je : ℕ) {ls : List NewLine} {rows : List JournalLine} (h : newRows db je n ls = .ok rows)
      (hn : (rows.map (·.lineNo)).Nodup) (hu : ∀ l ∈ rows, ∀ m ∈ db.lines, m.journalEntryId = je → m.lineNo ≠ l.lineNo) :
      Change n db op { db with lines := db.lines.insertAll rows } (rows.map fun _ => DB.entryBalanced je)
  | newAccount (input : AccountInput) (h : db.accountCheck n input = .ok ()) :
      Change n db (.createAccount input) { db with accounts := db.accounts.insert (input.row n) } []
  | editAccount (id : ℕ) (input : AccountInput) (h : db.accountCheck id input = .ok ()) :
      Change n db (.updateAccount id input) { db with
        accounts := db.accounts.update (db.accounts.hit id fun _ => true) (·.edited input) fun _ => rfl } []
  | newStatement (input : StatementInput) (h : db.statementCheck input = .ok ()) :
      Change n db (.createStatement input) { db with statements := db.statements.insert (input.row n) } []
  | editStatement (id : ℕ) (input : StatementInput) (hr : db.isReconciled id = false)
      (hm : (db.statements.find? id).all fun s => s.accountId = input.accountId || !db.hasMatched id) :
      Change n db (.updateStatement id input) { db with
        statements := db.statements.update (db.statements.hit id fun _ => true) (·.edited input) fun _ => rfl } []
  | deleteStatement (id : ℕ) (hr : db.isReconciled id = false) : Change n db (.deleteStatement id) { db with
        statements := db.statements.erase (db.statements.hit id fun _ => true)
        statementLines := db.statementLines.erase (db.statementLines.keysWhere fun l => l.statementId = id) } []
  | addLine (statement lineNo : ℕ) (all : List StatementLineInput) (input : StatementLineInput)
      (h : db.statementLineCheck statement input.amount none = .ok ()) (hs : (db.statements.find? statement).isSome) :
      Change n db (.addLines statement all) { db with
        statementLines := db.statementLines.insert (input.row statement n lineNo) } []
  | deleteLine (id : ℕ) (h : db.matchCheck id none = .ok ()) : Change n db (.deleteLine id) { db with
        statementLines := db.statementLines.erase (db.statementLines.hit id fun _ => true) } []
  | matchLine (id k : ℕ) (h : db.MayMatch id k) : Change n db (.matchLine id k) { db with
        statementLines := db.statementLines.update [id] (·.matched (some k)) fun _ => rfl } []
  | unmatchLine (id : ℕ) (h : db.matchCheck id none = .ok ()) : Change n db (.unmatchLine id) { db with
        statementLines := db.statementLines.update [id] (·.matched none) fun _ => rfl } []
  | autoMatch (statement id k : ℕ) (hk : db.matchFor id = some k) (h : db.MayMatch id k) :
      Change n db (.autoMatch statement) { db with
        statementLines := db.statementLines.update [id] (·.matched (some k)) fun _ => rfl } []
  | reconcile (id : ℕ) (hu : db.unmatched id = 0) (hb : db.balances? id) : Change n db (.reconcile id) { db with
        statements := db.statements.update (db.statements.hit id fun _ => true)
          (fun s => { s with status := .reconciled }) fun _ => rfl } []
  | reopen (id : ℕ) : Change n db (.reopenStatement id) { db with
        statements := db.statements.update (db.statements.hit id fun _ => true)
          (fun s => { s with status := .opened }) fun _ => rfl } []

theorem Change.same (n : ℕ) (db : DB) (op : Op) (cs : List (DB → Except Err Unit)) : Change n db op db cs :=
  .elsewhere (.refl db)

/-- The statement makes one of the changes. -/
def Changes (op : Op) {β : Type} (r : ℕ → DB → Except Err (Outcome DB Lock Err β)) : Prop :=
  ∀ n db o, r n db = .ok o → Change n db op (o.act db) o.checks

abbrev AllChange (op : Op) {α : Type} (p : Txn α) : Prop := p.All (Changes op)

section programs

variable {op : Op}

/-- A statement that stays elsewhere. -/
theorem changes_of_same {β : Type} {r : ℕ → DB → Except Err (Outcome DB Lock Err β)}
    (h : ∀ n db o, r n db = .ok o → SameLedger db (o.act db)) : Changes op r :=
  fun n db o ho => .elsewhere (h n db o ho)

theorem allChange_read {α : Type} (f : DB → α) : AllChange op (Prog.read f) :=
  Prog.all_exec <| changes_of_same fun n db o ho => by
    cases ho
    exact .refl db

theorem allChange_query {α : Type} (f : DB → Except Err α) : AllChange op (Prog.query f) :=
  Prog.all_exec <| changes_of_same fun n db o ho => by
    rcases hf : f db with e | a
    · rw [hf] at ho
      cases ho
    · rw [hf] at ho
      cases ho
      exact .refl db

theorem AllChange.void {α : Type} {p : Txn α} (h : AllChange op p) : AllChange op (void p) :=
  h.bind fun _ => Prog.all_pure _

theorem AllChange.affected {p : Txn ℕ} (h : AllChange op p) : AllChange op (affected p) :=
  h.bind fun _ => Prog.all_require _ _

/-! ### The journal and its periods -/

theorem allChange_periodForDate (date : Date) : AllChange op (periodForDate date) := by
  refine (allChange_read _).bind fun p => ?_
  split
  · exact Prog.all_pure _
  · refine (allChange_read _).bind fun c => (Prog.all_require _ _).bind fun _ =>
      Prog.All.bind (Prog.all_exec fun n db o ho => ?_) fun _ => (allChange_read _).bind fun p => ?_
    · split at ho
      · cases ho
        exact .same ..
      · rename_i fy hfy
        dsimp only at ho
        split at ho
        · cases ho
          exact .same ..
        · rename_i hfree
          cases ho
          simp only [Bool.or_eq_true, not_or, Bool.not_eq_true] at hfree
          exact .month date hfy hfree.2
    · split
      · exact Prog.all_pure _
      · exact Prog.all_throw _

theorem changes_insertEntry {n : ℕ} {db : DB} {e : JournalEntry} {o : Outcome DB Lock Err ℕ} (hid : e.id = n)
    (hs : e.status = .posted) (ho : insertEntry db e = .ok o) : Change n db op (o.act db) o.checks := by
  simp only [insertEntry, Except.bind_eq_ok_iff, ensure_eq_ok, exists_const, decide_eq_true_eq, Except.ok.injEq] at ho
  obtain ⟨-, -, hr, -, hc, rfl⟩ := ho
  exact .entry e hid hs hr hc

theorem allChange_createEntry (date : Date) (period : ℕ) (currency memo reference : String) :
    AllChange op (createEntry date period currency memo reference) :=
  Prog.all_exec fun n db o ho => by
    split at ho
    · cases ho
    · exact changes_insertEntry rfl rfl ho

theorem allChange_insertLines (je : ℕ) (select : DB → List NewLine) : AllChange op (insertLines je select) :=
  Prog.all_exec fun n db o ho => by
    simp only [Except.bind_eq_ok_iff, ensure_eq_ok, exists_const, decide_eq_true_eq, Except.ok.injEq] at ho
    obtain ⟨rows, hr, ⟨hn, hu⟩, rfl⟩ := ho
    exact .lines je hr hn hu

theorem allChange_reverseEntry (origID : ℕ) : AllChange op (reverseEntry origID) := by
  refine (allChange_query _).bind fun x => (allChange_read _).bind fun _ => (Prog.all_require _ _).bind fun _ =>
    (allChange_read _).bind fun _ => (Prog.all_require _ _).bind fun _ => (allChange_periodForDate _).bind fun p =>
    Prog.All.bind (Prog.all_exec fun n db o ho => ?_) fun rev => (allChange_insertLines _ _).bind fun _ =>
    Prog.all_pure _
  split at ho
  · cases ho
  · exact changes_insertEntry rfl rfl ho

/-! ### Documents, payments, movements -/

theorem allChange_insertDocLines (kind : DocKind) (docId : ℕ) (select : DB → List (ℕ × NewDocLine)) :
    AllChange op (insertDocLines kind docId select) :=
  Prog.all_exec <| changes_of_same fun n db o ho => by
    simp only [Except.bind_eq_ok_iff] at ho
    obtain ⟨u, hrows, -, -, ho⟩ := ho
    split at ho
    · cases ho
      exact .refl db
    · simp only [Except.bind_eq_ok_iff, Except.ok.injEq] at ho
      obtain ⟨f, hf, rfl⟩ := ho
      refine ⟨rfl, rfl, rfl, rfl, rfl, rfl, rfl, fun h => ?_, fun h => h.docs (recompute_rowsOk hf h) rfl rfl rfl rfl rfl⟩
      exact h.mono (fun l hl => (Table.mem_of_mem_insertAll hl).imp_right (checkRows_row hrows l)) (fun _ hk => hk)
        (fun _ hk => hk) fun _ hk => hk

theorem allChange_insertLinesOf (kind : DocKind) (docId i : ℕ) (ls : List DocLineInput) :
    AllChange op (insertLinesOf kind docId i ls) := by
  induction ls generalizing i with
  | nil => exact Prog.all_pure _
  | cons l ls ih => exact (allChange_insertDocLines _ _ _).bind fun _ => ih _

theorem allChange_deleteDocLines (docId : ℕ) : AllChange op (deleteDocLines docId) :=
  Prog.all_exec <| changes_of_same fun n db o ho => by
    simp only [Except.bind_eq_ok_iff] at ho
    obtain ⟨-, -, ho⟩ := ho
    split at ho
    · cases ho
      exact .refl db
    · simp only [Except.bind_eq_ok_iff, Except.ok.injEq] at ho
      obtain ⟨f, hf, rfl⟩ := ho
      exact ⟨rfl, rfl, rfl, rfl, rfl, rfl, rfl, fun h l hl => h l (Table.mem_erase.1 hl).1,
        fun h => h.docs (recompute_rowsOk hf h) rfl rfl rfl rfl rfl⟩

theorem allChange_insertHeader (kind : DocKind) (input : DocInput) : AllChange op (insertHeader kind input) :=
  Prog.all_exec <| changes_of_same fun n db o ho => by
    simp only [Except.bind_eq_ok_iff, Except.ok.injEq] at ho
    obtain ⟨u, hc, rfl⟩ := ho
    refine ⟨rfl, rfl, rfl, rfl, rfl, rfl, rfl, fun h => h, fun h => ?_⟩
    refine h.docs (fun d hd => ?_) rfl rfl rfl rfl rfl
    rcases Table.mem_of_mem_insert hd with hd | rfl
    · exact .inl hd
    · obtain ⟨hcur, hparty⟩ := headerCheck_row hc
      exact .inr ⟨hcur, rfl, hparty⟩

theorem allChange_notFoundOrNotDraft {α : Type} (noun : String) (id : ℕ) (f : DB → Option DocStatus) :
    AllChange op (notFoundOrNotDraft (α := α) noun id f) := by
  refine (allChange_read _).bind fun s => ?_
  split
  · exact Prog.all_throw _
  · exact Prog.all_throw _

theorem allChange_updateHeader (kind : DocKind) (docId : ℕ) (input : DocInput) :
    AllChange op (updateHeader kind docId input) :=
  Prog.all_exec <| changes_of_same fun n db o ho => by
    dsimp only at ho
    split at ho
    · cases ho
      exact .refl db
    · simp only [Except.bind_eq_ok_iff, Except.ok.injEq] at ho
      obtain ⟨u, hc, rfl⟩ := ho
      refine ⟨rfl, rfl, rfl, rfl, rfl, rfl, rfl, fun h => h, fun h => ?_⟩
      refine h.docs (fun d hd => ?_) rfl rfl rfl rfl rfl
      rcases Table.mem_update_cases (by intro; rfl) hd with ⟨hd, -⟩ | ⟨x, hx, hk, rfl⟩
      · exact .inl hd
      · obtain ⟨hcur, hparty⟩ := headerCheck_row hc
        obtain ⟨hid, y, hy, hdraft⟩ := Table.mem_hit.1 hk
        obtain rfl : x = y := Option.some.inj ((Table.find?_key hx).symm.trans (hid ▸ hy))
        rw [draftDoc, Bool.and_eq_true, decide_eq_true_eq] at hdraft
        exact .inr ⟨hcur, (h.2.2.1 x hx).2.1, hdraft.1.symm ▸ hparty⟩

theorem allChange_updateDoc (kind : DocKind) (docId : ℕ) (input : DocInput) :
    AllChange op (updateDoc kind docId input) := by
  refine Prog.All.bind ?_ fun _ => (allChange_updateHeader _ _ _).bind fun n => ?_
  · unfold refuseOrderLinked
    split
    · exact (allChange_read _).bind fun _ => Prog.all_require _ _
    · exact Prog.all_pure _
  · split
    · exact allChange_notFoundOrNotDraft _ _ _
    · exact (allChange_deleteDocLines _).bind fun _ => allChange_insertLinesOf _ _ _ _

theorem allChange_deleteDoc (kind : DocKind) (docId : ℕ) : AllChange op (deleteDoc kind docId) := by
  refine Prog.All.bind (Prog.all_exec <| changes_of_same fun n db o ho => ?_) fun n => ?_
  · dsimp only at ho
    split at ho
    · cases ho
      exact .refl db
    · simp only [Except.bind_eq_ok_iff, Except.ok.injEq] at ho
      obtain ⟨-, -, -, -, rfl⟩ := ho
      exact ⟨rfl, rfl, rfl, rfl, rfl, rfl, rfl, fun h l hl => h l (Table.mem_erase.1 hl).1,
        fun h => h.docs (fun d hd => .inl (Table.mem_erase.1 hd).1) rfl rfl rfl rfl rfl⟩
  · split
    · exact allChange_notFoundOrNotDraft _ _ _
    · exact Prog.all_pure _

theorem allChange_createPayment (side : Side) (input : PaymentInput) : AllChange op (createPayment side input) :=
  Prog.all_exec <| changes_of_same fun n db o ho => by
    simp only [Except.bind_eq_ok_iff, Except.ok.injEq] at ho
    obtain ⟨u, hc, rfl⟩ := ho
    refine ⟨rfl, rfl, rfl, rfl, rfl, rfl, rfl, fun h => h, fun h => ?_⟩
    refine h.payments (fun p hp => ?_) rfl rfl rfl rfl rfl
    rcases Table.mem_of_mem_insert hp with hp | rfl
    · exact .inl hp
    · exact .inr (paymentCheck_row hc)

theorem allChange_updatePayment (side : Side) (id : ℕ) (input : PaymentInput) :
    AllChange op (updatePayment side id input) := by
  refine Prog.All.bind (Prog.all_exec <| changes_of_same fun n db o ho => ?_) fun n => ?_
  · dsimp only at ho
    split at ho
    · cases ho
      exact .refl db
    · simp only [Except.bind_eq_ok_iff, Except.ok.injEq] at ho
      obtain ⟨u, hc, rfl⟩ := ho
      refine ⟨rfl, rfl, rfl, rfl, rfl, rfl, rfl, fun h => h, fun h => ?_⟩
      refine h.payments (fun p hp => ?_) rfl rfl rfl rfl rfl
      rcases Table.mem_update_cases (by intro; rfl) hp with ⟨hp, -⟩ | ⟨x, hx, hk, rfl⟩
      · exact .inl hp
      · obtain ⟨hcur, hparty⟩ := paymentCheck_row hc
        obtain ⟨hid, y, hy, hdraft⟩ := Table.mem_hit.1 hk
        obtain rfl : x = y := Option.some.inj ((Table.find?_key hx).symm.trans (hid ▸ hy))
        rw [draftPayment, Bool.and_eq_true, decide_eq_true_eq] at hdraft
        exact .inr ⟨hcur, hdraft.1.symm ▸ hparty⟩
  · split
    · exact allChange_notFoundOrNotDraft _ _ _
    · exact Prog.all_pure _

theorem allChange_deletePayment (side : Side) (id : ℕ) : AllChange op (deletePayment side id) := by
  refine Prog.All.bind (Prog.all_exec <| changes_of_same fun n db o ho => ?_) fun n => ?_
  · dsimp only at ho
    split at ho
    · cases ho
      exact .refl db
    · cases ho
      exact ⟨rfl, rfl, rfl, rfl, rfl, rfl, rfl, fun h => h, fun h => h.payments (fun p hp => .inl (Table.mem_erase.1 hp).1) rfl rfl rfl rfl rfl⟩
  · split
    · exact allChange_notFoundOrNotDraft _ _ _
    · exact Prog.all_pure _

theorem allChange_createMovement (input : MovementInput) : AllChange op (CreateStockMovement input) :=
  Prog.all_exec <| changes_of_same fun n db o ho => by
    simp only [Except.bind_eq_ok_iff, Except.ok.injEq] at ho
    obtain ⟨u, hc, rfl⟩ := ho
    refine ⟨rfl, rfl, rfl, rfl, rfl, rfl, rfl, fun h => h, fun h => h.movements (fun m hm => ?_) rfl rfl rfl rfl rfl⟩
    rcases Table.mem_of_mem_insert hm with hm | rfl
    · exact .inl hm
    · exact .inr (movementCheck_row hc fun _ => rfl)

theorem allChange_stockMovementWriteError {α : Type} (id : ℕ) (b : Bool) :
    AllChange op (stockMovementWriteError (α := α) id b) := by
  refine (allChange_read _).bind fun m => ?_
  split
  · exact Prog.all_throw _
  · split
    · exact Prog.all_throw _
    · split
      · exact Prog.all_throw _
      · exact Prog.all_throw _

theorem allChange_updateMovement (id : ℕ) (input : MovementInput) : AllChange op (UpdateStockMovement id input) := by
  refine Prog.All.bind (Prog.all_exec <| changes_of_same fun n db o ho => ?_) fun n => ?_
  · dsimp only at ho
    split at ho
    · cases ho
      exact .refl db
    · simp only [Except.bind_eq_ok_iff, Except.ok.injEq] at ho
      obtain ⟨u, hc, rfl⟩ := ho
      refine ⟨rfl, rfl, rfl, rfl, rfl, rfl, rfl, fun h => h, fun h => h.movements (fun m hm => ?_) rfl rfl rfl rfl rfl⟩
      rcases Table.mem_update_cases (by intro; rfl) hm with ⟨hm, -⟩ | ⟨x, hx, -, rfl⟩
      · exact .inl hm
      · obtain ⟨hfits, hmoved, hcost, hsign, -⟩ := movementCheck_row hc fun _ => rfl
        exact .inr ⟨hfits, hmoved, hcost, hsign, (h.2.2.2.2 x hx).period⟩
  · split
    · exact allChange_stockMovementWriteError _ _
    · exact Prog.all_pure _

theorem allChange_deleteMovement (id : ℕ) : AllChange op (DeleteStockMovement id) := by
  refine Prog.All.bind (Prog.all_exec <| changes_of_same fun n db o ho => ?_) fun n => ?_
  · cases ho
    exact ⟨rfl, rfl, rfl, rfl, rfl, rfl, rfl, fun h => h, fun h =>
      h.movements (fun m hm => .inl (Table.mem_erase.1 hm).1) rfl rfl rfl rfl rfl⟩
  · split
    · exact allChange_stockMovementWriteError _ _
    · exact Prog.all_pure _

/-! ### Posting, applying, unposting -/

/-- The change of a header leaves its currency, its total and its party. -/
theorem allChange_updateDocRow (kind : DocKind) (id : ℕ) (f : Doc → Doc) (hf : ∀ d, (f d).id = d.id)
    (hk : ∀ d, ((f d).currencyCode, (f d).total, (f d).kind, (f d).partyId) =
      (d.currencyCode, d.total, d.kind, d.partyId) := by exact fun _ => rfl) :
    AllChange op (updateDocRow kind id f hf) :=
  Prog.all_exec <| changes_of_same fun n db o ho => by
    cases ho
    refine ⟨rfl, rfl, rfl, rfl, rfl, rfl, rfl, fun h => h, fun h => h.docs (fun d hd => .inr ?_) rfl rfl rfl rfl rfl⟩
    rcases Table.mem_update_cases (by exact hf) hd with ⟨hd, -⟩ | ⟨x, hx, -, rfl⟩
    · exact h.2.2.1 d hd
    · have := hk x
      simp only [Prod.mk.injEq] at this
      exact (h.2.2.1 x hx).congr rfl this.1 this.2.1 this.2.2.1 this.2.2.2

/-- The change of a payment leaves its currency and its party. -/
theorem allChange_updatePaymentById (side : Side) (id : ℕ) (f : Payment → Payment) (hf : ∀ p, (f p).id = p.id)
    (hk : ∀ p, ((f p).currencyCode, (f p).side, (f p).partyId) = (p.currencyCode, p.side, p.partyId) := by
      exact fun _ => rfl) :
    AllChange op (updatePaymentById side id f hf) :=
  Prog.all_exec <| changes_of_same fun n db o ho => by
    cases ho
    refine ⟨rfl, rfl, rfl, rfl, rfl, rfl, rfl, fun h => h, fun h => h.payments (fun p hp => .inr ?_) rfl rfl rfl rfl rfl⟩
    rcases Table.mem_update_cases (by exact hf) hp with ⟨hp, -⟩ | ⟨x, hx, -, rfl⟩
    · exact h.2.2.2.1 p hp
    · have := hk x
      simp only [Prod.mk.injEq] at this
      exact (h.2.2.2.1 x hx).congr rfl this.1 this.2.1 this.2.2

/-- The change of a movement links it to an entry, or unlinks it. -/
theorem allChange_updateMovementById (id : ℕ) (f : StockMovement → StockMovement) (hf : ∀ m, (f m).id = m.id)
    (hk : ∀ m : StockMovement, m.RowOk → (f m).RowOk := by
      exact fun _ h => ⟨h.fits, h.moved, h.cost, h.sign, fun e => by first | rfl | cases e⟩) :
    AllChange op (updateMovementById id f hf) :=
  Prog.all_exec <| changes_of_same fun n db o ho => by
    simp only [Except.bind_eq_ok_iff, Except.ok.injEq] at ho
    obtain ⟨-, -, rfl⟩ := ho
    refine ⟨rfl, rfl, rfl, rfl, rfl, rfl, rfl, fun h => h, fun h => h.movements (fun m hm => ?_) rfl rfl rfl rfl rfl⟩
    rcases Table.mem_update_cases (by exact hf) hm with ⟨hm, -⟩ | ⟨x, hx, -, rfl⟩
    · exact .inl hm
    · exact .inr (hk x (h.2.2.2.2 x hx))

theorem allChange_postDoc (spec : PostSpec) (id : ℕ) : AllChange op (postDoc spec id) :=
  (allChange_query _).bind fun _ => (Prog.all_require _ _).bind fun _ => (Prog.all_require _ _).bind fun _ =>
  (Prog.all_require _ _).bind fun _ => (allChange_read _).bind fun _ => (Prog.all_require _ _).bind fun _ =>
  (allChange_read _).bind fun _ => (Prog.all_require _ _).bind fun _ => (allChange_periodForDate _).bind fun _ =>
  (allChange_createEntry _ _ _ _ _).bind fun _ => (allChange_insertLines _ _).bind fun _ =>
  (allChange_insertLines _ _).bind fun _ => (allChange_updateDocRow _ _ _ _).bind fun _ => Prog.all_pure _

theorem allChange_postPayment (side : Side) (id : ℕ) : AllChange op (postPayment side id) :=
  (allChange_query _).bind fun _ => (Prog.all_require _ _).bind fun _ => (Prog.all_require _ _).bind fun _ =>
  (Prog.all_require _ _).bind fun _ => (Prog.all_require _ _).bind fun _ => (allChange_periodForDate _).bind fun _ =>
  (allChange_createEntry _ _ _ _ _).bind fun _ => (allChange_insertLines _ _).bind fun _ =>
  (allChange_insertLines _ _).bind fun _ => (allChange_updatePaymentById _ _ _ _).bind fun _ => Prog.all_pure _

theorem allChange_postInventoryIssue (id : ℕ) : AllChange op (PostInventoryIssue id) :=
  (allChange_query _).bind fun _ => (Prog.all_require _ _).bind fun _ => (Prog.all_require _ _).bind fun _ =>
  (Prog.all_require _ _).bind fun _ => (Prog.all_require _ _).bind fun _ => (allChange_periodForDate _).bind fun _ =>
  (allChange_read _).bind fun _ => (allChange_createEntry _ _ _ _ _).bind fun _ =>
  (allChange_insertLines _ _).bind fun _ => (allChange_insertLines _ _).bind fun _ =>
  (allChange_updateMovementById _ _ _).bind fun _ => Prog.all_pure _

theorem allChange_postInventoryReceipt (id account : ℕ) : AllChange op (PostInventoryReceipt id account) :=
  (allChange_query _).bind fun _ => (Prog.all_require _ _).bind fun _ => (Prog.all_require _ _).bind fun _ =>
  (Prog.all_require _ _).bind fun _ => (Prog.all_require _ _).bind fun _ => (allChange_query _).bind fun _ =>
  (Prog.all_require _ _).bind fun _ => (allChange_periodForDate _).bind fun _ => (allChange_read _).bind fun _ =>
  (allChange_createEntry _ _ _ _ _).bind fun _ => (allChange_insertLines _ _).bind fun _ =>
  (allChange_insertLines _ _).bind fun _ => (allChange_updateMovementById _ _ _).bind fun _ => Prog.all_pure _

theorem allChange_postMovement (id account : ℕ) : AllChange op (PostStockMovement id account) := by
  refine (allChange_query _).bind fun t => ?_
  split
  · exact allChange_postInventoryIssue _
  · split
    · exact Prog.all_throw _
    · exact allChange_postInventoryReceipt _ _
  · exact Prog.all_throw _

theorem allChange_insertApplications (side : Side) (settler : SettlerKind) (id : ℕ) :
    AllChange op (insertApplications side settler id) :=
  Prog.all_exec <| changes_of_same fun n db o ho => by
    simp only [Except.bind_eq_ok_iff, Except.ok.injEq] at ho
    obtain ⟨-, -, rfl⟩ := ho
    exact ⟨rfl, rfl, rfl, rfl, rfl, rfl, rfl, fun h => h, fun h => h⟩

theorem allChange_postFx (side : Side) (base : String) (account fx : ℕ) (c : Candidate) :
    AllChange op (postFx side base account fx c) := by
  refine (allChange_periodForDate _).bind fun _ => (allChange_createEntry _ _ _ _ _).bind fun _ =>
    (allChange_insertLines _ _).bind fun _ => (allChange_insertLines _ _).bind fun _ =>
    Prog.all_exec <| changes_of_same fun n db o ho => ?_
  cases ho
  exact ⟨rfl, rfl, rfl, rfl, rfl, rfl, rfl, fun h => h, fun h => h⟩

theorem allChange_postEach (side : Side) (base : String) (fx : ℕ) (cs : List (ℕ × Candidate)) :
    AllChange op (postEach side base fx cs) := by
  induction cs with
  | nil => exact Prog.all_pure _
  | cons c cs ih => exact (allChange_postFx _ _ _ _ _).bind fun _ => ih

theorem allChange_autoApply (side : Side) (settler : SettlerKind) (id : ℕ) :
    AllChange op (autoApply side settler id) := by
  refine (allChange_query _).bind fun _ => (Prog.all_require _ _).bind fun _ =>
    (allChange_insertApplications _ _ _).bind fun _ => Prog.All.bind ?_ fun _ => Prog.all_pure _
  refine (allChange_query _).bind fun cs => ?_
  split
  · exact Prog.all_pure _
  · refine (allChange_read _).bind fun s => ?_
    split
    · exact Prog.all_throw _
    · exact allChange_postEach _ _ _ _

theorem allChange_unpostDoc (kind : DocKind) (id : ℕ) : AllChange op (unpostDoc kind id) :=
  (allChange_query _).bind fun _ => (allChange_read _).bind fun _ => (Prog.all_require _ _).bind fun _ =>
  (allChange_reverseEntry _).bind fun _ => (allChange_updateDocRow _ _ _ _).bind fun _ => Prog.all_pure _

theorem allChange_reverseEach (es : List ℕ) : AllChange op (reverseEach es) := by
  induction es with
  | nil => exact Prog.all_pure _
  | cons e es ih => exact (allChange_reverseEntry e).bind fun _ => ih

theorem allChange_unpostPayment (side : Side) (id : ℕ) : AllChange op (unpostPayment side id) := by
  refine (allChange_query _).bind fun _ => (allChange_reverseEntry _).bind fun _ =>
    Prog.All.bind ((allChange_read _).bind fun _ => allChange_reverseEach _) fun _ =>
    Prog.All.bind (Prog.all_exec <| changes_of_same fun n db o ho => ?_) fun _ =>
    (allChange_updatePaymentById _ _ _ _).bind fun _ => Prog.all_pure _
  cases ho
  exact ⟨rfl, rfl, rfl, rfl, rfl, rfl, rfl, fun h => h, fun h => h⟩

theorem allChange_unpostMovement (id : ℕ) : AllChange op (UnpostStockMovement id) :=
  (allChange_query _).bind fun _ => (allChange_reverseEntry _).bind fun _ =>
  (allChange_updateMovementById _ _ _).bind fun _ => Prog.all_pure _

/-! ### The year end -/

/-- Periods are opened only in open years. -/
theorem allChange_setPeriods_opened (select : DB → List ℕ) : AllChange op (setPeriods .opened select) :=
  Prog.all_exec fun n db o ho => by
    simp only [Except.bind_eq_ok_iff, ensure_eq_ok, exists_const, Except.ok.injEq] at ho
    obtain ⟨hu, rfl⟩ := ho
    refine .openPeriods _ fun p hp hk y hy hyp => ?_
    simp only [reduceCtorEq, decide_false, Bool.false_or, List.all_eq_true] at hu
    have hnot := hu p hp
    simp only [hk, not_true_eq_false, decide_false, Bool.false_or, Bool.not_eq_true', List.any_eq_false] at hnot
    have hy' := hnot y hy
    cases hs : y.status with
    | opened => rfl
    | closed => simp [hyp, hs] at hy'

theorem allChange_closingPeriod (endDate : Date) : AllChange op (closingPeriod endDate) := by
  refine (allChange_read _).bind fun p => ?_
  split
  · exact allChange_periodForDate _
  · split
    · exact (allChange_setPeriods_opened _).bind fun _ => Prog.all_pure _
    · exact Prog.all_pure _

theorem allChange_postSweep (toSweep : ℕ) (name : String) (endDate : Date) (retained : ℕ) :
    AllChange op (postSweep toSweep name endDate retained) := by
  unfold postSweep
  split
  · refine Prog.All.bind ((allChange_read _).bind fun _ => (allChange_closingPeriod _).bind fun _ =>
      Prog.All.bind (Prog.all_exec fun n db o ho => ?_) fun _ => (allChange_insertLines _ _).bind fun _ =>
      Prog.all_pure _) fun _ => Prog.all_pure _
    exact changes_insertEntry rfl rfl ho
  · exact Prog.all_pure _

theorem allChange_insertNextYear (id retained : ℕ) (endDate : Date) :
    AllChange (.closeFiscalYear id retained) (insertNextYear endDate) :=
  Prog.all_exec fun n db o ho => by
    dsimp only at ho
    split at ho
    · cases ho
      exact .same ..
    · split at ho
      · cases ho
        exact .same ..
      · simp only [Except.bind_eq_ok_iff, ensure_eq_ok, exists_const, Except.ok.injEq, decide_eq_true_eq] at ho
        obtain ⟨hd, rfl⟩ := ho
        exact .nextYear id retained endDate hd

/-- The statement that closes the periods of a year. -/
theorem allChange_closePeriods (id retained : ℕ) : AllChange (.closeFiscalYear id retained)
    (setPeriods .closed fun db => db.periods.keysWhere fun p => p.fiscalYearId = id && p.status = .opened) :=
  Prog.all_exec fun n db o ho => by
    simp only [Except.bind_eq_ok_iff, Except.ok.injEq] at ho
    obtain ⟨-, -, rfl⟩ := ho
    exact .closePeriods id retained

theorem allChange_closeYear (id retained : ℕ) (closing : Option ℕ) : AllChange (.closeFiscalYear id retained)
    (updateYear id fun y => { y with status := .closed, closingEntryId := closing }) :=
  Prog.all_exec fun n db o ho => by
    cases ho
    exact .closeYear id retained closing

theorem allChange_closeFiscalYear (id retained : ℕ) :
    AllChange (.closeFiscalYear id retained) (CloseFiscalYear id retained) :=
  (allChange_query _).bind fun _ => (Prog.all_require _ _).bind fun _ => (allChange_read _).bind fun _ =>
  (Prog.all_require _ _).bind fun _ => (allChange_query _).bind fun _ => (Prog.all_require _ _).bind fun _ =>
  (allChange_read _).bind fun _ => (allChange_postSweep _ _ _ _).bind fun _ =>
  (allChange_closePeriods id retained).bind fun _ => (allChange_closeYear id retained _).bind fun _ =>
  (allChange_insertNextYear id retained _).bind fun _ => Prog.all_pure _

theorem allChange_reopenYear (id : ℕ) : AllChange (.reopenFiscalYear id)
    (updateYear id fun y => { y with status := .opened, closingEntryId := none }) :=
  Prog.all_exec fun n db o ho => by
    cases ho
    exact .reopenYear id

theorem allChange_reopenFiscalYear (id : ℕ) : AllChange (.reopenFiscalYear id) (ReopenFiscalYear id) := by
  refine (allChange_query _).bind fun fy => (Prog.all_require _ _).bind fun _ => (allChange_read _).bind fun _ =>
    (Prog.all_require _ _).bind fun _ => (allChange_reopenYear id).bind fun _ => ?_
  split
  · exact Prog.all_pure _
  · exact (allChange_setPeriods_opened _).bind fun _ => (allChange_reverseEntry _).bind fun _ => Prog.all_pure _

/-! ### Orders -/

theorem allChange_confirm (side : Side) (id : ℕ) : AllChange op (confirm side id) :=
  (allChange_query _).bind fun _ => (Prog.all_require _ _).bind fun _ => (allChange_read _).bind fun _ =>
  (Prog.all_require _ _).bind fun _ => allChange_updateDocRow _ _ _ _

theorem allChange_closeOrder (side : Side) (id : ℕ) : AllChange op (closeOrder side id) :=
  (allChange_query _).bind fun _ => (Prog.all_require _ _).bind fun _ => allChange_updateDocRow _ _ _ _

theorem allChange_cancel (side : Side) (id : ℕ) : AllChange op (cancel side id) := by
  refine (allChange_query _).bind fun s => ?_
  split
  · exact allChange_updateDocRow _ _ _ _
  · exact (allChange_read _).bind fun _ => (Prog.all_require _ _).bind fun _ => allChange_updateDocRow _ _ _ _
  · exact Prog.all_throw _

theorem allChange_fromOrder (side : Side) (id : ℕ) (input : FromOrderInput) :
    AllChange op (fromOrder side id input) := by
  refine (allChange_read _).bind fun o => ?_
  split
  · exact (allChange_query _).bind fun _ => Prog.all_throw _
  · exact (allChange_insertHeader _ _).bind fun _ => (allChange_insertDocLines _ _ _).bind fun _ =>
      (Prog.all_require _ _).bind fun _ => Prog.all_pure _

theorem allChange_insertMovements (select : DB → List (MovementInput × Side × ℕ)) :
    AllChange op (insertMovements select) :=
  Prog.all_exec <| changes_of_same fun n db o ho => by
    simp only [Except.bind_eq_ok_iff, Except.ok.injEq] at ho
    obtain ⟨u, hc, rfl⟩ := ho
    refine ⟨rfl, rfl, rfl, rfl, rfl, rfl, rfl, fun h => h, fun h => h.movements (fun m hm => ?_) rfl rfl rfl rfl rfl⟩
    rcases Table.mem_of_mem_insertAll hm with hm | hm
    · exact .inl hm
    · exact .inr (movementRows_ok hc m hm)

theorem allChange_requireOpenOrder (side : Side) (id : ℕ) : AllChange op (requireOpenOrder side id) :=
  (allChange_query _).bind fun _ => Prog.all_require _ _

theorem allChange_receive (id : ℕ) (input : MoveInput) : AllChange op (ReceivePurchaseOrder id input) := by
  refine (allChange_requireOpenOrder _ _).bind fun _ => (allChange_read _).bind fun rate => ?_
  split
  · exact Prog.all_throw _
  · exact (allChange_insertMovements _).bind fun _ => (Prog.all_require _ _).bind fun _ => Prog.all_pure _

theorem allChange_ship (id : ℕ) (input : MoveInput) : AllChange op (ShipSalesOrder id input) :=
  (allChange_requireOpenOrder _ _).bind fun _ => (allChange_insertMovements _).bind fun _ =>
  (Prog.all_require _ _).bind fun _ => Prog.all_pure _

/-! ### Bank reconciliation -/

theorem allChange_requireOpen (id : ℕ) : AllChange op (requireOpen id) :=
  (allChange_query _).bind fun _ => Prog.all_require _ _

theorem allChange_lineStatement (id : ℕ) : AllChange op (lineStatement id) :=
  (allChange_query _).bind fun _ => (Prog.all_require _ _).bind fun _ => Prog.all_pure _

theorem allChange_createStatement (input : StatementInput) :
    AllChange (.createStatement input) (CreateStatement input) :=
  Prog.all_exec fun n db o ho => by
    simp only [Except.bind_eq_ok_iff, Except.ok.injEq] at ho
    obtain ⟨u, h, rfl⟩ := ho
    exact .newStatement input h

theorem allChange_updateStatement (id : ℕ) (input : StatementInput) :
    AllChange (.updateStatement id input) (UpdateStatement id input) := by
  refine (allChange_requireOpen id).bind fun _ => Prog.all_exec fun n db o ho => ?_
  dsimp only at ho
  split at ho
  · cases ho
    exact .same ..
  · simp only [Except.bind_eq_ok_iff, ensure_eq_ok, exists_const, Except.ok.injEq, Bool.not_eq_true'] at ho
    obtain ⟨hr, -, -, hm, rfl⟩ := ho
    exact .editStatement id input hr hm

theorem allChange_deleteStatement (id : ℕ) : AllChange (.deleteStatement id) (DeleteStatement id) := by
  refine (allChange_requireOpen id).bind fun _ => Prog.all_exec fun n db o ho => ?_
  simp only [Except.bind_eq_ok_iff, ensure_eq_ok, exists_const, Except.ok.injEq, Bool.not_eq_true'] at ho
  obtain ⟨hr, rfl⟩ := ho
  exact .deleteStatement id hr

theorem allChange_addLines (statement : ℕ) (all ls : List StatementLineInput) :
    AllChange (.addLines statement all) (addLines statement ls) := by
  induction ls with
  | nil => exact Prog.all_pure _
  | cons l ls ih =>
    refine Prog.All.bind ((allChange_requireOpen _).bind fun _ => (allChange_read _).bind fun _ =>
      Prog.all_exec fun n db o ho => ?_) fun _ => ih
    simp only [Except.bind_eq_ok_iff, ensure_eq_ok, exists_const, Except.ok.injEq] at ho
    obtain ⟨-, u, h, -, -, hs, rfl⟩ := ho
    exact .addLine statement _ all l h hs

theorem allChange_deleteLine (id : ℕ) : AllChange (.deleteLine id) (DeleteLine id) := by
  refine (allChange_lineStatement _).bind fun _ => Prog.all_exec fun n db o ho => ?_
  simp only [Except.bind_eq_ok_iff, Except.ok.injEq] at ho
  obtain ⟨u, h, rfl⟩ := ho
  exact .deleteLine id h

/-- What the match of one line has checked, and what it changes. -/
theorem setMatch_eq_ok {db : DB} {lineId : ℕ} {journalLine : Option ℕ} {o : Outcome DB Lock Err ℕ}
    (ho : setMatch db lineId [lineId] journalLine = .ok o) :
    db.matchCheck lineId journalLine = .ok () ∧
      (∀ k, journalLine = some k → ∀ l ∈ db.statementLines, l.id ≠ lineId → l.journalLineId ≠ some k) ∧
      o.act db = { db with
        statementLines := db.statementLines.update [lineId] (·.matched journalLine) fun _ => rfl } ∧
      o.checks = [] := by
  simp only [setMatch, List.cons_ne_nil, if_false, Except.bind_eq_ok_iff, ensure_eq_ok, exists_const, Except.ok.injEq] at ho
  obtain ⟨u, h, hu, rfl⟩ := ho
  refine ⟨h, ?_, rfl, rfl⟩
  rintro k rfl l hl hne
  simp only [Option.all_some, List.all_eq_true, List.mem_singleton, Bool.or_eq_true, decide_eq_true_eq] at hu
  exact (hu l hl).resolve_left hne

theorem setMatch_nil {db : DB} {lineId : ℕ} {journalLine : Option ℕ} {o : Outcome DB Lock Err ℕ}
    (ho : setMatch db lineId [] journalLine = .ok o) : o.act db = db := by
  cases ho
  rfl

/-- The keys a match by primary key updates. -/
theorem hit_cases (db : DB) (lineId : ℕ) (p : BankStatementLine → Bool) :
    db.statementLines.hit lineId p = [] ∨ db.statementLines.hit lineId p = [lineId] := by
  unfold Table.hit
  split
  · split
    · exact .inr rfl
    · exact .inl rfl
  · exact .inl rfl

theorem allChange_matchLine (id k : ℕ) : AllChange (.matchLine id k) (MatchLine id k) := by
  refine (allChange_lineStatement _).bind fun _ => (Prog.all_exec fun n db o ho => ?_).bind fun _ =>
    Prog.all_require _ _
  rcases hit_cases db id (·.journalLineId = none) with h | h
  · change setMatch db id _ _ = _ at ho
    rw [h] at ho
    rw [setMatch_nil ho]
    exact .same ..
  · change setMatch db id _ _ = _ at ho
    rw [h] at ho
    obtain ⟨hc, hu, he, hch⟩ := setMatch_eq_ok ho
    rw [he, hch]
    exact .matchLine id k ⟨hc, hu k rfl⟩

theorem allChange_unmatchLine (id : ℕ) : AllChange (.unmatchLine id) (UnmatchLine id) := by
  refine (allChange_lineStatement _).bind fun _ => (Prog.all_exec fun n db o ho => ?_).bind fun _ =>
    Prog.all_pure _
  rcases hit_cases db id fun _ => true with h | h
  · change setMatch db id _ _ = _ at ho
    rw [h] at ho
    rw [setMatch_nil ho]
    exact .same ..
  · change setMatch db id _ _ = _ at ho
    rw [h] at ho
    obtain ⟨hc, -, he, hch⟩ := setMatch_eq_ok ho
    rw [he, hch]
    exact .unmatchLine id hc

theorem allChange_autoMatchLines (statement : ℕ) (ls : List ℕ) :
    AllChange (.autoMatch statement) (autoMatchLines ls) := by
  induction ls with
  | nil => exact Prog.all_pure _
  | cons l ls ih =>
    refine Prog.All.bind (Prog.all_exec fun n db o ho => ?_) fun _ => ih.bind fun _ => Prog.all_pure _
    split at ho
    · cases ho
      exact .same ..
    · rename_i k hk
      obtain ⟨hc, hu, he, hch⟩ := setMatch_eq_ok ho
      rw [he, hch]
      exact .autoMatch statement l k hk ⟨hc, hu k rfl⟩

theorem allChange_autoMatch (statement : ℕ) : AllChange (.autoMatch statement) (AutoMatch statement) :=
  (allChange_requireOpen _).bind fun _ => (allChange_read _).bind fun _ => allChange_autoMatchLines _ _

theorem allChange_reconcile (id : ℕ) : AllChange (.reconcile id) (Reconcile id) := by
  refine (allChange_requireOpen _).bind fun _ => (allChange_query _).bind fun _ => (Prog.all_require _ _).bind fun _ =>
    (Prog.all_require _ _).bind fun _ => Prog.all_exec fun n db o ho => ?_
  simp only [Except.bind_eq_ok_iff, ensure_eq_ok, exists_const, Except.ok.injEq] at ho
  obtain ⟨-, -, -, hu, hb, rfl⟩ := ho
  exact .reconcile id (by simpa using hu) (by simpa using hb)

theorem allChange_reopen (id : ℕ) : AllChange (.reopenStatement id) (Reopen id) := by
  refine (allChange_query _).bind fun _ => (Prog.all_require _ _).bind fun _ => Prog.all_exec fun n db o ho => ?_
  simp only [Except.bind_eq_ok_iff, Except.ok.injEq] at ho
  obtain ⟨-, -, -, -, -, -, -, -, rfl⟩ := ho
  exact .reopen id

/-! ### Master data and the calendar -/

theorem allChange_createAccount (input : AccountInput) : AllChange (.createAccount input) (CreateAccount input) :=
  Prog.all_exec fun n db o ho => by
    simp only [Except.bind_eq_ok_iff, Except.ok.injEq] at ho
    obtain ⟨u, h, rfl⟩ := ho
    exact .newAccount input h

theorem allChange_updateAccount (id : ℕ) (input : AccountInput) :
    AllChange (.updateAccount id input) (UpdateAccount id input) :=
  AllChange.affected <| Prog.all_exec fun n db o ho => by
    dsimp only at ho
    split at ho
    · cases ho
      exact .same ..
    · simp only [Except.bind_eq_ok_iff, Except.ok.injEq] at ho
      obtain ⟨u, h, rfl⟩ := ho
      exact .editAccount id input h

theorem allChange_createParty (side : Side) (account : Option ℕ) : AllChange op (createParty side account) :=
  Prog.all_exec <| changes_of_same fun n db o ho => by
    simp only [Except.bind_eq_ok_iff, Except.ok.injEq] at ho
    obtain ⟨-, -, rfl⟩ := ho
    refine ⟨rfl, rfl, rfl, rfl, rfl, rfl, rfl, fun h => h, fun h => h.parties rfl rfl rfl rfl rfl fun side' id hp => ?_⟩
    obtain ⟨c, hc⟩ := Option.isSome_iff_exists.1 hp
    obtain ⟨hfind, hside⟩ := Option.filter_eq_some_iff.1 hc
    have hm := Table.mem_insert_of_mem (a := { id := n, side, controlAccountId := account }) (Table.mem_of_find? hfind)
    have hfind' : (db.parties.insert { id := n, side, controlAccountId := account }).find? id = some c :=
      Table.find?_eq_some.2 ⟨hm, Table.key_of_find? hfind⟩
    exact Option.isSome_iff_exists.2 ⟨c, Option.filter_eq_some_iff.2 ⟨hfind', hside⟩⟩

theorem allChange_updateParty (side : Side) (id : ℕ) (account : Option ℕ) :
    AllChange op (updateParty side id account) :=
  AllChange.affected <| Prog.all_exec <| changes_of_same fun n db o ho => by
    simp only [Except.bind_eq_ok_iff, Except.ok.injEq] at ho
    obtain ⟨-, -, rfl⟩ := ho
    refine ⟨rfl, rfl, rfl, rfl, rfl, rfl, rfl, fun h => h, fun h => h.parties rfl rfl rfl rfl rfl fun side' id' hp => ?_⟩
    obtain ⟨c, hc⟩ := Option.isSome_iff_exists.1 hp
    obtain ⟨hfind, hside⟩ := Option.filter_eq_some_iff.1 hc
    have hfind' := Table.find?_update (f := fun c : Party => { c with controlAccountId := account }) (fun _ => rfl)
      db.parties (db.parties.hit id (·.side = side)) id'
    rw [hfind, Option.map_some] at hfind'
    refine Option.isSome_iff_exists.2 ⟨_, Option.filter_eq_some_iff.2 ⟨hfind', ?_⟩⟩
    split
    · exact hside
    · exact hside

theorem allChange_createProduct (input : ProductInput) : AllChange op (CreateProduct input) :=
  Prog.all_exec <| changes_of_same fun n db o ho => by
    simp only [Except.bind_eq_ok_iff, Except.ok.injEq] at ho
    obtain ⟨-, -, rfl⟩ := ho
    exact ⟨rfl, rfl, rfl, rfl, rfl, rfl, rfl, fun h => h.mono (fun _ hl => .inl hl) (fun k hk => Table.isSome_find?_insert (.inl hk)) (fun _ hk => hk) fun _ hk => hk,
      fun h => h⟩

theorem allChange_updateProduct (id : ℕ) (input : ProductInput) : AllChange op (UpdateProduct id input) :=
  AllChange.affected <| Prog.all_exec <| changes_of_same fun n db o ho => by
    dsimp only at ho
    split at ho
    · cases ho
      exact .refl db
    · simp only [Except.bind_eq_ok_iff, Except.ok.injEq] at ho
      obtain ⟨-, -, rfl⟩ := ho
      exact ⟨rfl, rfl, rfl, rfl, rfl, rfl, rfl, fun h => h.mono (fun _ hl => .inl hl) (fun k hk => Table.isSome_find?_update (by intro; rfl) hk) (fun _ hk => hk) fun _ hk => hk,
        fun h => h⟩

theorem allChange_createTaxCode (code : String) (account : Option ℕ) : AllChange op (CreateTaxCode code account) :=
  Prog.all_exec <| changes_of_same fun n db o ho => by
    simp only [Except.bind_eq_ok_iff, Except.ok.injEq] at ho
    obtain ⟨-, -, -, -, rfl⟩ := ho
    exact ⟨rfl, rfl, rfl, rfl, rfl, rfl, rfl, fun h => h.mono (fun _ hl => .inl hl) (fun _ hk => hk) (fun _ hk => hk) fun k hk => Table.isSome_find?_insert (.inl hk),
      fun h => h⟩

theorem allChange_updateTaxCode (code : String) (account : Option ℕ) : AllChange op (UpdateTaxCode code account) :=
  AllChange.affected <| Prog.all_exec <| changes_of_same fun n db o ho => by
    simp only [Except.bind_eq_ok_iff, Except.ok.injEq] at ho
    obtain ⟨-, -, rfl⟩ := ho
    exact ⟨rfl, rfl, rfl, rfl, rfl, rfl, rfl, fun h => h.mono (fun _ hl => .inl hl) (fun _ hk => hk) (fun _ hk => hk) fun k hk => Table.isSome_find?_update (by intro; rfl) hk,
      fun h => h⟩

theorem allChange_createWarehouse : AllChange op CreateWarehouse :=
  Prog.all_exec <| changes_of_same fun n db o ho => by
    cases ho
    exact ⟨rfl, rfl, rfl, rfl, rfl, rfl, rfl, fun h => h, fun h => h⟩

theorem allChange_updateSettings (input : GlSettings) : AllChange op (UpdateSettings input) := by
  refine (allChange_read _).bind fun _ => (Prog.all_require _ _).bind fun _ => Prog.all_exec <|
    changes_of_same fun n db o ho => ?_
  simp only [Except.bind_eq_ok_iff, ensure_eq_ok, exists_const, decide_eq_true_eq, Except.ok.injEq] at ho
  obtain ⟨-, hb, -, rfl⟩ := ho
  exact ⟨rfl, rfl, rfl, rfl, rfl, rfl, rfl, fun h => h, fun h => ⟨h.1, hb, h.2.2⟩⟩

theorem allChange_createExchangeRate (currency : String) (date : Date) (rate : ℤ) :
    AllChange op (CreateExchangeRate currency date rate) :=
  Prog.all_exec <| changes_of_same fun n db o ho => by
    simp only [Except.bind_eq_ok_iff, Except.ok.injEq] at ho
    obtain ⟨u, hc, -, -, -, -, rfl⟩ := ho
    refine ⟨rfl, rfl, rfl, rfl, rfl, rfl, rfl, fun h => h, fun h => ?_⟩
    refine h.rates (fun r hr => ?_) rfl rfl rfl rfl rfl
    rcases Table.mem_of_mem_insert hr with hr | rfl
    · exact .inl hr
    · exact .inr (rateCheck_pos hc)

theorem allChange_updateExchangeRate (currency : String) (date : Date) (rate : ℤ) :
    AllChange op (UpdateExchangeRate currency date rate) :=
  AllChange.affected <| Prog.all_exec <| changes_of_same fun n db o ho => by
    dsimp only at ho
    split at ho
    · cases ho
      exact .refl db
    · simp only [Except.bind_eq_ok_iff, Except.ok.injEq] at ho
      obtain ⟨u, hc, rfl⟩ := ho
      refine ⟨rfl, rfl, rfl, rfl, rfl, rfl, rfl, fun h => h, fun h => ?_⟩
      refine h.rates (fun r hr => ?_) rfl rfl rfl rfl rfl
      rcases Table.mem_update_cases (by intro; rfl) hr with ⟨hr, -⟩ | ⟨x, -, -, rfl⟩
      · exact .inl hr
      · exact .inr (rateCheck_pos hc)

theorem allChange_deleteExchangeRate (currency : String) (date : Date) :
    AllChange op (DeleteExchangeRate currency date) :=
  AllChange.affected <| Prog.all_exec <| changes_of_same fun n db o ho => by
    cases ho
    exact ⟨rfl, rfl, rfl, rfl, rfl, rfl, rfl, fun h => h, fun h => h.rates (fun r hr => .inl (Table.mem_erase.1 hr).1) rfl rfl rfl rfl rfl⟩

theorem yearCheck_dates {db : DB} {id : ℕ} {input : FiscalYearInput} (h : db.yearCheck id input = .ok ()) :
    input.startDate ≤ input.endDate := by
  simp only [DB.yearCheck, Except.bind_eq_ok_iff, ensure_eq_ok, exists_const, decide_eq_true_eq] at h
  exact h.1

theorem allChange_createFiscalYear (input : FiscalYearInput) :
    AllChange (.createFiscalYear input) (CreateFiscalYear input) :=
  Prog.all_exec fun n db o ho => by
    simp only [Except.bind_eq_ok_iff, Except.ok.injEq] at ho
    obtain ⟨u, h, rfl⟩ := ho
    exact .newYear input h

theorem allChange_updateFiscalYear (id : ℕ) (input : FiscalYearInput) :
    AllChange (.updateFiscalYear id input) (UpdateFiscalYear id input) :=
  AllChange.affected <| Prog.all_exec fun n db o ho => by
    dsimp only at ho
    split at ho
    · cases ho
      exact .same ..
    · simp only [Except.bind_eq_ok_iff, Except.ok.injEq] at ho
      obtain ⟨u, h, rfl⟩ := ho
      exact .editYear id input h

theorem allChange_createPeriod (input : PeriodInput) : AllChange (.createPeriod input) (CreateAccountingPeriod input) :=
  Prog.all_exec fun n db o ho => by
    simp only [Except.bind_eq_ok_iff, Except.ok.injEq] at ho
    obtain ⟨u, h, rfl⟩ := ho
    exact .newPeriod input h

theorem allChange_updatePeriod (id : ℕ) (input : PeriodInput) :
    AllChange (.updatePeriod id input) (UpdateAccountingPeriod id input) :=
  AllChange.affected <| Prog.all_exec fun n db o ho => by
    dsimp only at ho
    split at ho
    · cases ho
      exact .same ..
    · simp only [Except.bind_eq_ok_iff, Except.ok.injEq] at ho
      obtain ⟨u, h, rfl⟩ := ho
      exact .editPeriod id input h

end programs

/-! ### All operations -/

/-- Every statement of every operation makes one of the changes. -/
theorem allChange_transaction (op : Op) : AllChange op (transaction op) := by
  cases op with
  | createDoc kind input =>
    exact ((allChange_insertHeader _ _).bind fun _ => (allChange_insertLinesOf _ _ _ _).bind fun _ =>
      Prog.all_pure _).bind fun _ => Prog.all_pure _
  | updateDoc kind id input => exact allChange_updateDoc _ _ _
  | deleteDoc kind id => exact allChange_deleteDoc _ _
  | createPayment side input => exact (allChange_createPayment _ _).void
  | updatePayment side id input => exact allChange_updatePayment _ _ _
  | deletePayment side id => exact allChange_deletePayment _ _
  | createMovement input => exact (allChange_createMovement _).void
  | updateMovement id input => exact allChange_updateMovement _ _
  | deleteMovement id => exact allChange_deleteMovement _
  | postDoc kind id => exact (allChange_postDoc _ _).void
  | postPayment side id => exact (allChange_postPayment _ _).void
  | postMovement id account => exact (allChange_postMovement _ _).void
  | autoApply side settler id => exact (allChange_autoApply _ _ _).void
  | unpostInvoice side id => exact (allChange_unpostDoc _ _).void
  | unpostCreditNote side id => exact (allChange_unpostDoc _ _).void
  | unpostPayment side id => exact (allChange_unpostPayment _ _).void
  | unpostMovement id => exact (allChange_unpostMovement _).void
  | closeFiscalYear id retained => exact (allChange_closeFiscalYear _ _).void
  | reopenFiscalYear id => exact (allChange_reopenFiscalYear _).void
  | confirmOrder side id => exact allChange_confirm _ _
  | closeOrder side id => exact allChange_closeOrder _ _
  | cancelOrder side id => exact allChange_cancel _ _
  | fromOrder side id input => exact (allChange_fromOrder _ _ _).void
  | receive id input => exact (allChange_receive _ _).void
  | ship id input => exact (allChange_ship _ _).void
  | createStatement input => exact (allChange_createStatement _).void
  | updateStatement id input => exact allChange_updateStatement _ _
  | deleteStatement id => exact allChange_deleteStatement _
  | addLines statement lines => exact allChange_addLines _ _ _
  | deleteLine id => exact allChange_deleteLine _
  | matchLine id line => exact allChange_matchLine _ _
  | unmatchLine id => exact allChange_unmatchLine _
  | autoMatch statement => exact (allChange_autoMatch _).void
  | reconcile id => exact allChange_reconcile _
  | reopenStatement id => exact allChange_reopen _
  | createAccount input => exact (allChange_createAccount _).void
  | updateAccount id input => exact allChange_updateAccount _ _
  | createParty side account => exact (allChange_createParty _ _).void
  | updateParty side id account => exact allChange_updateParty _ _ _
  | createProduct input => exact (allChange_createProduct _).void
  | updateProduct id input => exact allChange_updateProduct _ _
  | createTaxCode code account => exact allChange_createTaxCode _ _
  | updateTaxCode code account => exact allChange_updateTaxCode _ _
  | createWarehouse => exact allChange_createWarehouse.void
  | updateSettings input => exact allChange_updateSettings _
  | createExchangeRate currency date rate => exact allChange_createExchangeRate _ _ _
  | updateExchangeRate currency date rate => exact allChange_updateExchangeRate _ _ _
  | deleteExchangeRate currency date => exact allChange_deleteExchangeRate _ _
  | createFiscalYear input => exact (allChange_createFiscalYear _).void
  | updateFiscalYear id input => exact allChange_updateFiscalYear _ _
  | createPeriod input => exact (allChange_createPeriod _).void
  | updatePeriod id input => exact allChange_updatePeriod _ _

/-- What every change keeps, a run keeps. -/
theorem run_changes {α : Type} {op : Op} {p : Txn α} (hp : AllChange op p) (hf : AllFresh p)
    {I : DB → List (DB → Except Err Unit) → Prop}
    (hstep : ∀ {n db cs db' cs'}, Fresh n db → I db cs → Change n db op db' cs' → I db' (cs ++ cs'))
    {v w : Env DB Err} {a : α} (h : p.run v = .ok (a, w)) (hv : Fresh v.seq v.db) (hi : I v.db v.checks) :
    I w.db w.checks := by
  induction p generalizing v with
  | pure b =>
    cases h
    exact hi
  | throw e => cases h
  | stmt r k ih =>
    unfold Prog.run at h
    have hv' : Fresh (v.seq + v.gaps 0) v.db := hv.mono _ _ _ (Nat.le_add_right ..)
    rcases hr : r (v.seq + v.gaps 0) v.db with e | o
    · simp [hr] at h
    · rw [hr] at h
      exact ih o.res (hp.2 _) (hf.2 _) h (hf.1 _ _ o hv' hr) (hstep hv' hi (hp.1 _ _ o hr))

/-- The same for an operation that commits. -/
theorem commit_changes {op : Op} {I : DB → List (DB → Except Err Unit) → Prop}
    (hstep : ∀ {n db cs db' cs'}, Fresh n db → I db cs → Change n db op db' cs' → I db' (cs ++ cs'))
    {gaps : ℕ → ℕ} {s s' : Store DB} (h : (transaction op).commit gaps s = .ok ((), s')) (hs : Fresh s.seq s.db)
    (hi : I s.db []) : ∃ cs, I s'.db cs ∧ ∀ c ∈ cs, c s'.db = .ok () := by
  obtain ⟨v, hrun, hpass, rfl⟩ := Prog.commit_eq_ok.1 h
  exact ⟨v.checks, run_changes (allChange_transaction op) (allFresh_transaction op) hstep hrun hs hi,
    passAll_eq_ok.1 hpass⟩
