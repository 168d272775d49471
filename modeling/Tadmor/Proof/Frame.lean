import Tadmor.Proof.Fresh

/-!
# Operations outside the books

Bank reconciliation, master data and the calendar do not touch the journal, the documents or the links between
them.
-/

/-- The closing entry of a closed fiscal year. -/
def DB.closingOf (db : DB) (id : ℕ) : Option ℕ :=
  ((db.years.find? id).filter (·.status = .closed)).bind (·.closingEntryId)

/-- The journal, the documents and the links are those of `db`. -/
structure SameBooks (db db' : DB) : Prop where
  entries : db'.entries = db.entries
  lines : db'.lines = db.lines
  docs : db'.docs = db.docs
  docLines : db'.docLines = db.docLines
  payments : db'.payments = db.payments
  applications : db'.applications = db.applications
  movements : db'.movements = db.movements
  closing : ∀ id, db'.closingOf id = db.closingOf id

theorem SameBooks.refl (db : DB) : SameBooks db db := ⟨rfl, rfl, rfl, rfl, rfl, rfl, rfl, fun _ => rfl⟩

theorem SameBooks.trans {a b c : DB} (h : SameBooks a b) (h' : SameBooks b c) : SameBooks a c where
  entries := h'.entries.trans h.entries
  lines := h'.lines.trans h.lines
  docs := h'.docs.trans h.docs
  docLines := h'.docLines.trans h.docLines
  payments := h'.payments.trans h.payments
  applications := h'.applications.trans h.applications
  movements := h'.movements.trans h.movements
  closing := fun id => (h'.closing id).trans (h.closing id)

/-- The statement leaves the books alone and keeps the ids fresh. -/
def Outside {β : Type} (r : ℕ → DB → Except Err (Outcome DB Lock Err β)) : Prop :=
  ∀ n db o, Fresh n db → r n db = .ok o →
    SameBooks db (o.act db) ∧ (o.act db).years.Below (n + o.used) ∧ (o.act db).periods.Below (n + o.used)

abbrev AllOutside {α : Type} (p : Txn α) : Prop := p.All Outside

theorem Outside.keepsFresh {β : Type} {r : ℕ → DB → Except Err (Outcome DB Lock Err β)} (hr : Outside r) :
    KeepsFresh r := by
  intro n db o h ho
  obtain ⟨hs, hy, hp⟩ := hr n db o h ho
  have h' := h.mono n (n + o.used) db (Nat.le_add_right ..)
  exact ⟨hy, hp, hs.entries ▸ h'.entries, hs.lines ▸ h'.lines, hs.docs ▸ h'.docs, hs.docLines ▸ h'.docLines,
    hs.payments ▸ h'.payments, hs.applications ▸ h'.applications, hs.movements ▸ h'.movements⟩

theorem AllOutside.allFresh {α : Type} {p : Txn α} (h : AllOutside p) : AllFresh p :=
  h.imp fun _ hr => hr.keepsFresh

/-- A program of such statements leaves the books alone. -/
theorem AllOutside.sameBooks {α : Type} {p : Txn α} (hp : AllOutside p) {v w : Env DB Err} {a : α}
    (h : p.run v = .ok (a, w)) (hv : Fresh v.seq v.db) : SameBooks v.db w.db := by
  have keeps : p.All (Prog.Keeps fun n db => Fresh n db ∧ SameBooks v.db db) :=
    hp.imp fun r hr n db o hn ho =>
      ⟨hr.keepsFresh n db o hn.1 ho, hn.2.trans (hr n db o hn.1 ho).1⟩
  exact (Prog.run_keeps (fun n m db hnm hn => ⟨hn.1.mono n m db hnm, hn.2⟩) keeps h ⟨hv, .refl _⟩).2

/-! ### Statements -/

/-- The tables of the books and of the calendar. -/
def DB.books (db : DB) : Table JournalEntry × Table JournalLine × Table Doc × Table DocLine × Table Payment ×
    Table Application × Table StockMovement × Table FiscalYear × Table AccountingPeriod :=
  (db.entries, db.lines, db.docs, db.docLines, db.payments, db.applications, db.movements, db.years, db.periods)

/-- A statement that changes neither the books nor the calendar. -/
theorem outside_of_eq {β : Type} {r : ℕ → DB → Except Err (Outcome DB Lock Err β)}
    (h : ∀ n db o, r n db = .ok o → (o.act db).books = db.books) : Outside r := by
  intro n db o hn ho
  have e := h n db o ho
  simp only [DB.books, Prod.mk.injEq] at e
  obtain ⟨he, hl, hd, hdl, hp, ha, hm, hy, hper⟩ := e
  have hn' := hn.mono n (n + o.used) db (Nat.le_add_right ..)
  exact ⟨⟨he, hl, hd, hdl, hp, ha, hm, fun id => by rw [DB.closingOf, hy]; rfl⟩, hy ▸ hn'.years, hper ▸ hn'.periods⟩

theorem allOutside_read {α : Type} (f : DB → α) : AllOutside (Prog.read f) :=
  Prog.all_exec <| outside_of_eq fun n db o ho => by
    cases ho
    rfl

theorem allOutside_query {α : Type} (f : DB → Except Err α) : AllOutside (Prog.query f) :=
  Prog.all_exec <| outside_of_eq fun n db o ho => by
    rcases hf : f db with e | a
    · rw [hf] at ho
      cases ho
    · rw [hf] at ho
      cases ho
      rfl

theorem allOutside_affected {t : Txn ℕ} (h : AllOutside t) : AllOutside (affected t) :=
  h.bind fun _ => Prog.all_require _ _

theorem allOutside_void {α : Type} {t : Txn α} (h : AllOutside t) : AllOutside (void t) :=
  h.bind fun _ => Prog.all_pure _

/-! ### Bank reconciliation -/

theorem allOutside_createStatement (input : StatementInput) : AllOutside (CreateStatement input) :=
  Prog.all_exec <| outside_of_eq fun n db o ho => by
    simp only [Except.bind_eq_ok_iff, Except.ok.injEq] at ho
    obtain ⟨-, -, rfl⟩ := ho
    rfl

theorem allOutside_requireOpen (id : ℕ) : AllOutside (requireOpen id) :=
  (allOutside_query _).bind fun _ => Prog.all_require _ _

theorem allOutside_updateStatement (id : ℕ) (input : StatementInput) : AllOutside (UpdateStatement id input) := by
  refine (allOutside_requireOpen id).bind fun _ => Prog.all_exec <| outside_of_eq fun n db o ho => ?_
  dsimp only at ho
  split at ho
  · cases ho
    rfl
  · simp only [Except.bind_eq_ok_iff, Except.ok.injEq] at ho
    obtain ⟨-, -, -, -, -, -, rfl⟩ := ho
    rfl

theorem allOutside_deleteStatement (id : ℕ) : AllOutside (DeleteStatement id) := by
  refine (allOutside_requireOpen id).bind fun _ => Prog.all_exec <| outside_of_eq fun n db o ho => ?_
  simp only [Except.bind_eq_ok_iff, Except.ok.injEq] at ho
  obtain ⟨-, -, rfl⟩ := ho
  rfl

theorem allOutside_addLine (statement : ℕ) (input : StatementLineInput) : AllOutside (AddLine statement input) := by
  refine (allOutside_requireOpen _).bind fun _ => (allOutside_read _).bind fun _ =>
    Prog.all_exec <| outside_of_eq fun n db o ho => ?_
  simp only [Except.bind_eq_ok_iff, Except.ok.injEq] at ho
  obtain ⟨-, -, -, -, -, -, -, -, -, -, rfl⟩ := ho
  rfl

theorem allOutside_addLines (statement : ℕ) (ls : List StatementLineInput) : AllOutside (addLines statement ls) := by
  induction ls with
  | nil => exact Prog.all_pure _
  | cons l ls ih => exact (allOutside_addLine _ _).bind fun _ => ih

theorem allOutside_lineStatement (id : ℕ) : AllOutside (lineStatement id) :=
  (allOutside_query _).bind fun _ => (Prog.all_require _ _).bind fun _ => Prog.all_pure _

theorem allOutside_deleteLine (id : ℕ) : AllOutside (DeleteLine id) := by
  refine (allOutside_lineStatement _).bind fun _ => Prog.all_exec <| outside_of_eq fun n db o ho => ?_
  simp only [Except.bind_eq_ok_iff, Except.ok.injEq] at ho
  obtain ⟨-, -, rfl⟩ := ho
  rfl

theorem outside_setMatch (lineId : ℕ) (ks : DB → List ℕ) (journalLine : DB → Option ℕ) :
    Outside fun _ db => setMatch db lineId (ks db) (journalLine db) :=
  outside_of_eq fun n db o ho => by
    unfold setMatch at ho
    split at ho
    · cases ho
      rfl
    · simp only [Except.bind_eq_ok_iff, Except.ok.injEq] at ho
      obtain ⟨-, -, -, -, rfl⟩ := ho
      rfl

theorem allOutside_matchLine (id journalLineId : ℕ) : AllOutside (MatchLine id journalLineId) :=
  (allOutside_lineStatement _).bind fun _ => (Prog.all_exec (outside_setMatch _ _ _)).bind fun _ =>
  Prog.all_require _ _

theorem allOutside_unmatchLine (id : ℕ) : AllOutside (UnmatchLine id) :=
  (allOutside_lineStatement _).bind fun _ => (Prog.all_exec (outside_setMatch _ _ _)).bind fun _ => Prog.all_pure _

theorem allOutside_autoMatchLines (ls : List ℕ) : AllOutside (autoMatchLines ls) := by
  induction ls with
  | nil => exact Prog.all_pure _
  | cons l ls ih =>
    refine Prog.All.bind (Prog.all_exec fun n db o hn ho => ?_) fun _ => ih.bind fun _ => Prog.all_pure _
    split at ho
    · cases ho
      exact ⟨.refl db, hn.years, hn.periods⟩
    · rename_i k _
      exact outside_setMatch l (fun _ => [l]) (fun _ => some k) n db o hn ho

theorem allOutside_autoMatch (statement : ℕ) : AllOutside (AutoMatch statement) :=
  (allOutside_requireOpen _).bind fun _ => (allOutside_read _).bind fun _ => allOutside_autoMatchLines _

theorem allOutside_setStatementStatus (id : ℕ) (status : StatementStatus) :
    AllOutside (setStatementStatus id status) :=
  Prog.all_exec <| outside_of_eq fun n db o ho => by
    simp only [Except.bind_eq_ok_iff, Except.ok.injEq] at ho
    obtain ⟨-, -, -, -, -, -, -, -, rfl⟩ := ho
    rfl

theorem allOutside_reconcile (id : ℕ) : AllOutside (Reconcile id) :=
  (allOutside_requireOpen _).bind fun _ => (allOutside_query _).bind fun _ => (Prog.all_require _ _).bind fun _ =>
  (Prog.all_require _ _).bind fun _ => allOutside_setStatementStatus _ _

theorem allOutside_reopen (id : ℕ) : AllOutside (Reopen id) :=
  (allOutside_query _).bind fun _ => (Prog.all_require _ _).bind fun _ => allOutside_setStatementStatus _ _

/-! ### Master data -/

theorem allOutside_createAccount (input : AccountInput) : AllOutside (CreateAccount input) :=
  Prog.all_exec <| outside_of_eq fun n db o ho => by
    simp only [Except.bind_eq_ok_iff, Except.ok.injEq] at ho
    obtain ⟨-, -, rfl⟩ := ho
    rfl

theorem allOutside_updateAccount (id : ℕ) (input : AccountInput) : AllOutside (UpdateAccount id input) :=
  allOutside_affected <| Prog.all_exec <| outside_of_eq fun n db o ho => by
    dsimp only at ho
    split at ho
    · cases ho
      rfl
    · simp only [Except.bind_eq_ok_iff, Except.ok.injEq] at ho
      obtain ⟨-, -, rfl⟩ := ho
      rfl

theorem allOutside_createParty (side : Side) (account : Option ℕ) : AllOutside (createParty side account) :=
  Prog.all_exec <| outside_of_eq fun n db o ho => by
    simp only [Except.bind_eq_ok_iff, Except.ok.injEq] at ho
    obtain ⟨-, -, rfl⟩ := ho
    rfl

theorem allOutside_updateParty (side : Side) (id : ℕ) (account : Option ℕ) :
    AllOutside (updateParty side id account) :=
  allOutside_affected <| Prog.all_exec <| outside_of_eq fun n db o ho => by
    simp only [Except.bind_eq_ok_iff, Except.ok.injEq] at ho
    obtain ⟨-, -, rfl⟩ := ho
    rfl

theorem allOutside_createProduct (input : ProductInput) : AllOutside (CreateProduct input) :=
  Prog.all_exec <| outside_of_eq fun n db o ho => by
    simp only [Except.bind_eq_ok_iff, Except.ok.injEq] at ho
    obtain ⟨-, -, rfl⟩ := ho
    rfl

theorem allOutside_updateProduct (id : ℕ) (input : ProductInput) : AllOutside (UpdateProduct id input) :=
  allOutside_affected <| Prog.all_exec <| outside_of_eq fun n db o ho => by
    dsimp only at ho
    split at ho
    · cases ho
      rfl
    · simp only [Except.bind_eq_ok_iff, Except.ok.injEq] at ho
      obtain ⟨-, -, rfl⟩ := ho
      rfl

theorem allOutside_createTaxCode (code : String) (account : Option ℕ) : AllOutside (CreateTaxCode code account) :=
  Prog.all_exec <| outside_of_eq fun n db o ho => by
    simp only [Except.bind_eq_ok_iff, Except.ok.injEq] at ho
    obtain ⟨-, -, -, -, rfl⟩ := ho
    rfl

theorem allOutside_updateTaxCode (code : String) (account : Option ℕ) : AllOutside (UpdateTaxCode code account) :=
  allOutside_affected <| Prog.all_exec <| outside_of_eq fun n db o ho => by
    simp only [Except.bind_eq_ok_iff, Except.ok.injEq] at ho
    obtain ⟨-, -, rfl⟩ := ho
    rfl

theorem allOutside_createWarehouse : AllOutside CreateWarehouse :=
  Prog.all_exec <| outside_of_eq fun n db o ho => by
    cases ho
    rfl

theorem allOutside_updateSettings (input : GlSettings) : AllOutside (UpdateSettings input) := by
  refine (allOutside_read _).bind fun _ => (Prog.all_require _ _).bind fun _ => Prog.all_exec <|
    outside_of_eq fun n db o ho => ?_
  simp only [Except.bind_eq_ok_iff, Except.ok.injEq] at ho
  obtain ⟨-, -, -, -, -, -, rfl⟩ := ho
  rfl

theorem allOutside_createExchangeRate (currency : String) (date : Date) (rate : ℤ) :
    AllOutside (CreateExchangeRate currency date rate) :=
  Prog.all_exec <| outside_of_eq fun n db o ho => by
    simp only [Except.bind_eq_ok_iff, Except.ok.injEq] at ho
    obtain ⟨-, -, -, -, -, -, rfl⟩ := ho
    rfl

theorem allOutside_updateExchangeRate (currency : String) (date : Date) (rate : ℤ) :
    AllOutside (UpdateExchangeRate currency date rate) :=
  allOutside_affected <| Prog.all_exec <| outside_of_eq fun n db o ho => by
    dsimp only at ho
    split at ho
    · cases ho
      rfl
    · simp only [Except.bind_eq_ok_iff, Except.ok.injEq] at ho
      obtain ⟨-, -, rfl⟩ := ho
      rfl

theorem allOutside_deleteExchangeRate (currency : String) (date : Date) :
    AllOutside (DeleteExchangeRate currency date) :=
  allOutside_affected <| Prog.all_exec <| outside_of_eq fun n db o ho => by
    cases ho
    rfl

/-! ### The calendar -/

theorem closing_insert {db : DB} {y : FiscalYear} (ht : db.years.Free y.id) (hy : y.status = .opened) (id : ℕ) :
    { db with years := db.years.insert y }.closingOf id = db.closingOf id := by
  simp only [DB.closingOf, Table.find?_insert ht]
  split
  · rename_i e
    simp [Table.free_iff_find?.1 (e ▸ ht : db.years.Free id), hy]
  · rfl

theorem closing_update {db : DB} {ks : List ℕ} {f : FiscalYear → FiscalYear}
    (hf : ∀ y, Keyed.key (f y) = Keyed.key y) {id : ℕ}
    (h : id ∈ ks → ∀ y, (f y).status = y.status ∧ (f y).closingEntryId = y.closingEntryId) :
    { db with years := db.years.update ks f hf }.closingOf id = db.closingOf id := by
  simp only [DB.closingOf, Table.find?_update]
  cases db.years.find? id with
  | none => rfl
  | some y =>
    by_cases hk : id ∈ ks
    · simp [hk, Option.filter, h hk y]
      split
      · exact (h hk y).2
      · rfl
    · simp [hk]

theorem allOutside_createFiscalYear (input : FiscalYearInput) : AllOutside (CreateFiscalYear input) :=
  Prog.all_exec fun n db o hn ho => by
    simp only [Except.bind_eq_ok_iff, Except.ok.injEq] at ho
    obtain ⟨-, -, rfl⟩ := ho
    exact ⟨⟨rfl, rfl, rfl, rfl, rfl, rfl, rfl, closing_insert (hn.years.free le_rfl) rfl⟩, hn.years.insert rfl,
      hn.periods.mono (Nat.le_succ n)⟩

theorem allOutside_updateFiscalYear (id : ℕ) (input : FiscalYearInput) : AllOutside (UpdateFiscalYear id input) :=
  allOutside_affected <| Prog.all_exec fun n db o hn ho => by
    dsimp only at ho
    split at ho
    · cases ho
      exact ⟨.refl db, hn.years, hn.periods⟩
    · simp only [Except.bind_eq_ok_iff, Except.ok.injEq] at ho
      obtain ⟨-, -, rfl⟩ := ho
      exact ⟨⟨rfl, rfl, rfl, rfl, rfl, rfl, rfl, fun _ => closing_update (by intro _; rfl) fun _ _ => ⟨rfl, rfl⟩⟩,
        hn.years.update _ (by intro _; rfl), hn.periods⟩

theorem allOutside_createPeriod (input : PeriodInput) : AllOutside (CreateAccountingPeriod input) :=
  Prog.all_exec fun n db o hn ho => by
    simp only [Except.bind_eq_ok_iff, Except.ok.injEq] at ho
    obtain ⟨-, -, rfl⟩ := ho
    exact ⟨⟨rfl, rfl, rfl, rfl, rfl, rfl, rfl, fun _ => rfl⟩, hn.years.mono (Nat.le_succ n), hn.periods.insert rfl⟩

theorem allOutside_updatePeriod (id : ℕ) (input : PeriodInput) : AllOutside (UpdateAccountingPeriod id input) :=
  allOutside_affected <| Prog.all_exec fun n db o hn ho => by
    dsimp only at ho
    split at ho
    · cases ho
      exact ⟨.refl db, hn.years, hn.periods⟩
    · simp only [Except.bind_eq_ok_iff, Except.ok.injEq] at ho
      obtain ⟨-, -, rfl⟩ := ho
      exact ⟨⟨rfl, rfl, rfl, rfl, rfl, rfl, rfl, fun _ => rfl⟩, hn.years, hn.periods.update _ (by intro _; rfl)⟩

/-! ### All operations -/

/-- Every operation keeps the ids fresh. -/
theorem allFresh_transaction (op : Op) : AllFresh (transaction op) := by
  cases op with
  | createDoc kind input =>
    exact ((allFresh_insertHeader _ _).bind fun _ => (allFresh_insertLinesOf _ _ _ _).bind fun _ =>
      Prog.all_pure _).bind fun _ => Prog.all_pure _
  | updateDoc kind id input => exact allFresh_updateDoc _ _ _
  | deleteDoc kind id => exact allFresh_deleteDoc _ _
  | createPayment side input => exact (allFresh_createPayment _ _).bind fun _ => Prog.all_pure _
  | updatePayment side id input => exact allFresh_updatePayment _ _ _
  | deletePayment side id => exact allFresh_deletePayment _ _
  | createMovement input => exact (allFresh_createMovement _).bind fun _ => Prog.all_pure _
  | updateMovement id input => exact allFresh_updateMovement _ _
  | deleteMovement id => exact allFresh_deleteMovement _
  | postDoc kind id => exact (allFresh_postDoc _ _).bind fun _ => Prog.all_pure _
  | postPayment side id => exact (allFresh_postPayment _ _).bind fun _ => Prog.all_pure _
  | postMovement id account => exact (allFresh_postMovement _ _).bind fun _ => Prog.all_pure _
  | autoApply side settler id => exact (allFresh_autoApply _ _ _).bind fun _ => Prog.all_pure _
  | unpostInvoice side id => exact (allFresh_unpostDoc _ _).bind fun _ => Prog.all_pure _
  | unpostCreditNote side id => exact (allFresh_unpostDoc _ _).bind fun _ => Prog.all_pure _
  | unpostPayment side id => exact (allFresh_unpostPayment _ _).bind fun _ => Prog.all_pure _
  | unpostMovement id => exact (allFresh_unpostMovement _).bind fun _ => Prog.all_pure _
  | closeFiscalYear id retained => exact (allFresh_closeFiscalYear _ _).bind fun _ => Prog.all_pure _
  | reopenFiscalYear id => exact (allFresh_reopenFiscalYear _).bind fun _ => Prog.all_pure _
  | confirmOrder side id => exact allFresh_confirm _ _
  | closeOrder side id => exact allFresh_closeOrder _ _
  | cancelOrder side id => exact allFresh_cancel _ _
  | fromOrder side id input => exact (allFresh_fromOrder _ _ _).bind fun _ => Prog.all_pure _
  | receive id input => exact (allFresh_receive _ _).bind fun _ => Prog.all_pure _
  | ship id input => exact (allFresh_ship _ _).bind fun _ => Prog.all_pure _
  | createStatement input => exact (allOutside_void (allOutside_createStatement _)).allFresh
  | updateStatement id input => exact (allOutside_updateStatement _ _).allFresh
  | deleteStatement id => exact (allOutside_deleteStatement _).allFresh
  | addLines statement lines => exact (allOutside_addLines _ _).allFresh
  | deleteLine id => exact (allOutside_deleteLine _).allFresh
  | matchLine id line => exact (allOutside_matchLine _ _).allFresh
  | unmatchLine id => exact (allOutside_unmatchLine _).allFresh
  | autoMatch statement => exact (allOutside_void (allOutside_autoMatch _)).allFresh
  | reconcile id => exact (allOutside_reconcile _).allFresh
  | reopenStatement id => exact (allOutside_reopen _).allFresh
  | createAccount input => exact (allOutside_void (allOutside_createAccount _)).allFresh
  | updateAccount id input => exact (allOutside_updateAccount _ _).allFresh
  | createParty side account => exact (allOutside_void (allOutside_createParty _ _)).allFresh
  | updateParty side id account => exact (allOutside_updateParty _ _ _).allFresh
  | createProduct input => exact (allOutside_void (allOutside_createProduct _)).allFresh
  | updateProduct id input => exact (allOutside_updateProduct _ _).allFresh
  | createTaxCode code account => exact (allOutside_createTaxCode _ _).allFresh
  | updateTaxCode code account => exact (allOutside_updateTaxCode _ _).allFresh
  | createWarehouse => exact (allOutside_void allOutside_createWarehouse).allFresh
  | updateSettings input => exact (allOutside_updateSettings _).allFresh
  | createExchangeRate currency date rate => exact (allOutside_createExchangeRate _ _ _).allFresh
  | updateExchangeRate currency date rate => exact (allOutside_updateExchangeRate _ _ _).allFresh
  | deleteExchangeRate currency date => exact (allOutside_deleteExchangeRate _ _).allFresh
  | createFiscalYear input => exact (allOutside_void (allOutside_createFiscalYear _)).allFresh
  | updateFiscalYear id input => exact (allOutside_updateFiscalYear _ _).allFresh
  | createPeriod input => exact (allOutside_void (allOutside_createPeriod _)).allFresh
  | updatePeriod id input => exact (allOutside_updatePeriod _ _).allFresh
