import Tadmor.Proof.Frame

/-!
# Statements that leave the ledger alone

Most operations never write an entry, a line or an account, whatever state their changes are replayed on.
-/

/-- The tables that the financial statements are made from. -/
def DB.reported (db : DB) : Table JournalEntry × Table JournalLine × Table Account := (db.entries, db.lines, db.accounts)

/-- On every state the statement's change leaves the ledger, whatever state it was computed on. -/
def Quiet {β : Type} (r : ℕ → DB → Except Err (Outcome DB Lock Err β)) : Prop :=
  ∀ n db o, r n db = .ok o → ∀ d, (o.act d).reported = d.reported

abbrev AllQuiet {α : Type} (p : Txn α) : Prop := p.All Quiet

theorem quiet_read {α : Type} (f : DB → α) : AllQuiet (Prog.read f) :=
  Prog.all_exec fun n db o ho d => by
    cases ho
    rfl

theorem quiet_query {α : Type} (f : DB → Except Err α) : AllQuiet (Prog.query f) :=
  Prog.all_exec fun n db o ho d => by
    cases hf : f db with
    | error e => simp [hf, Except.map] at ho
    | ok a =>
      simp only [hf, Except.map, Except.ok.injEq] at ho
      cases ho
      rfl

theorem quiet_affected {t : Txn ℕ} (h : AllQuiet t) : AllQuiet (affected t) := h.bind fun _ => Prog.all_require _ _

theorem quiet_void {α : Type} {t : Txn α} (h : AllQuiet t) : AllQuiet (void t) := h.bind fun _ => Prog.all_pure _

/-! ### The calendar -/

theorem quiet_insertMonth (date : Date) : AllQuiet (insertMonth date) :=
  Prog.all_exec fun n db o ho d => by
    split at ho
    · cases ho
      rfl
    · dsimp only at ho
      split at ho <;> cases ho <;> rfl

theorem quiet_periodForDate (date : Date) : AllQuiet (periodForDate date) := by
  refine (quiet_read _).bind fun p => ?_
  split
  · exact Prog.all_pure _
  · refine (quiet_read _).bind fun c => (Prog.all_require _ _).bind fun _ => (quiet_insertMonth date).bind fun _ =>
      (quiet_read _).bind fun p => ?_
    split
    · exact Prog.all_pure _
    · exact Prog.all_throw _

theorem quiet_setPeriods (status : BookStatus) (select : DB → List ℕ) : AllQuiet (setPeriods status select) :=
  Prog.all_exec fun n db o ho d => by
    simp only [Except.bind_eq_ok_iff, Except.ok.injEq] at ho
    obtain ⟨-, -, rfl⟩ := ho
    rfl

theorem quiet_updateYear (id : ℕ) (f : FiscalYear → FiscalYear) (hf : ∀ y, (f y).id = y.id) :
    AllQuiet (updateYear id f hf) :=
  Prog.all_exec fun n db o ho d => by
    cases ho
    rfl

theorem quiet_closingPeriod (endDate : Date) : AllQuiet (closingPeriod endDate) := by
  refine (quiet_read _).bind fun p => ?_
  split
  · exact quiet_periodForDate _
  · split
    · exact (quiet_setPeriods _ _).bind fun _ => Prog.all_pure _
    · exact Prog.all_pure _

theorem quiet_insertNextYear (endDate : Date) : AllQuiet (insertNextYear endDate) :=
  Prog.all_exec fun n db o ho d => by
    dsimp only at ho
    split at ho
    · cases ho
      rfl
    · split at ho
      · cases ho
        rfl
      · simp only [Except.bind_eq_ok_iff, Except.ok.injEq] at ho
        obtain ⟨-, -, rfl⟩ := ho
        rfl

theorem quiet_createFiscalYear (input : FiscalYearInput) : AllQuiet (CreateFiscalYear input) :=
  Prog.all_exec fun n db o ho d => by
    simp only [Except.bind_eq_ok_iff, Except.ok.injEq] at ho
    obtain ⟨-, -, rfl⟩ := ho
    rfl

theorem quiet_updateFiscalYear (id : ℕ) (input : FiscalYearInput) : AllQuiet (UpdateFiscalYear id input) :=
  quiet_affected <| Prog.all_exec fun n db o ho d => by
    dsimp only at ho
    split at ho
    · cases ho
      rfl
    · simp only [Except.bind_eq_ok_iff, Except.ok.injEq] at ho
      obtain ⟨-, -, rfl⟩ := ho
      rfl

theorem quiet_createPeriod (input : PeriodInput) : AllQuiet (CreateAccountingPeriod input) :=
  Prog.all_exec fun n db o ho d => by
    simp only [Except.bind_eq_ok_iff, Except.ok.injEq] at ho
    obtain ⟨-, -, rfl⟩ := ho
    rfl

theorem quiet_updatePeriod (id : ℕ) (input : PeriodInput) : AllQuiet (UpdateAccountingPeriod id input) :=
  quiet_affected <| Prog.all_exec fun n db o ho d => by
    dsimp only at ho
    split at ho
    · cases ho
      rfl
    · simp only [Except.bind_eq_ok_iff, Except.ok.injEq] at ho
      obtain ⟨-, -, rfl⟩ := ho
      rfl

/-! ### Documents, payments, movements -/

theorem quiet_insertDocLines (kind : DocKind) (docId : ℕ) (select : DB → List (ℕ × NewDocLine)) :
    AllQuiet (insertDocLines kind docId select) :=
  Prog.all_exec fun n db o ho d => by
    simp only [Except.bind_eq_ok_iff] at ho
    obtain ⟨-, -, -, -, ho⟩ := ho
    split at ho
    · cases ho
      rfl
    · simp only [Except.bind_eq_ok_iff, Except.ok.injEq] at ho
      obtain ⟨f, -, rfl⟩ := ho
      rfl

theorem quiet_insertLinesOf (kind : DocKind) (docId i : ℕ) (ls : List DocLineInput) :
    AllQuiet (insertLinesOf kind docId i ls) := by
  induction ls generalizing i with
  | nil => exact Prog.all_pure _
  | cons l ls ih => exact (quiet_insertDocLines _ _ _).bind fun _ => ih _

theorem quiet_deleteDocLines (docId : ℕ) : AllQuiet (deleteDocLines docId) :=
  Prog.all_exec fun n db o ho d => by
    simp only [Except.bind_eq_ok_iff] at ho
    obtain ⟨-, -, ho⟩ := ho
    split at ho
    · cases ho
      rfl
    · simp only [Except.bind_eq_ok_iff, Except.ok.injEq] at ho
      obtain ⟨f, -, rfl⟩ := ho
      rfl

theorem quiet_insertHeader (kind : DocKind) (input : DocInput) : AllQuiet (insertHeader kind input) :=
  Prog.all_exec fun n db o ho d => by
    simp only [Except.bind_eq_ok_iff, Except.ok.injEq] at ho
    obtain ⟨-, -, rfl⟩ := ho
    rfl

theorem quiet_notFoundOrNotDraft {α : Type} (noun : String) (id : ℕ) (f : DB → Option DocStatus) :
    AllQuiet (notFoundOrNotDraft (α := α) noun id f) := by
  refine (quiet_read _).bind fun s => ?_
  split
  · exact Prog.all_throw _
  · exact Prog.all_throw _

theorem quiet_createDoc (kind : DocKind) (input : DocInput) : AllQuiet (createDoc kind input) :=
  (quiet_insertHeader _ _).bind fun _ => (quiet_insertLinesOf _ _ _ _).bind fun _ => Prog.all_pure _

theorem quiet_updateDoc (kind : DocKind) (docId : ℕ) (input : DocInput) : AllQuiet (updateDoc kind docId input) := by
  refine Prog.All.bind ?_ fun _ => Prog.All.bind (Prog.all_exec fun n db o ho d => ?_) fun n => ?_
  · unfold refuseOrderLinked
    split
    · exact (quiet_read _).bind fun _ => Prog.all_require _ _
    · exact Prog.all_pure _
  · dsimp only at ho
    split at ho
    · cases ho
      rfl
    · simp only [Except.bind_eq_ok_iff, Except.ok.injEq] at ho
      obtain ⟨-, -, rfl⟩ := ho
      rfl
  · split
    · exact quiet_notFoundOrNotDraft _ _ _
    · exact (quiet_deleteDocLines _).bind fun _ => quiet_insertLinesOf _ _ _ _

theorem quiet_deleteDoc (kind : DocKind) (docId : ℕ) : AllQuiet (deleteDoc kind docId) := by
  refine Prog.All.bind (Prog.all_exec fun n db o ho d => ?_) fun n => ?_
  · dsimp only at ho
    split at ho
    · cases ho
      rfl
    · simp only [Except.bind_eq_ok_iff, Except.ok.injEq] at ho
      obtain ⟨-, -, -, -, rfl⟩ := ho
      rfl
  · split
    · exact quiet_notFoundOrNotDraft _ _ _
    · exact Prog.all_pure _

theorem quiet_createPayment (side : Side) (input : PaymentInput) : AllQuiet (createPayment side input) :=
  Prog.all_exec fun n db o ho d => by
    simp only [Except.bind_eq_ok_iff, Except.ok.injEq] at ho
    obtain ⟨-, -, rfl⟩ := ho
    rfl

theorem quiet_updatePayment (side : Side) (id : ℕ) (input : PaymentInput) :
    AllQuiet (updatePayment side id input) := by
  refine Prog.All.bind (Prog.all_exec fun n db o ho d => ?_) fun n => ?_
  · dsimp only at ho
    split at ho
    · cases ho
      rfl
    · simp only [Except.bind_eq_ok_iff, Except.ok.injEq] at ho
      obtain ⟨-, -, rfl⟩ := ho
      rfl
  · split
    · exact quiet_notFoundOrNotDraft _ _ _
    · exact Prog.all_pure _

theorem quiet_deletePayment (side : Side) (id : ℕ) : AllQuiet (deletePayment side id) := by
  refine Prog.All.bind (Prog.all_exec fun n db o ho d => ?_) fun n => ?_
  · dsimp only at ho
    split at ho <;> cases ho <;> rfl
  · split
    · exact quiet_notFoundOrNotDraft _ _ _
    · exact Prog.all_pure _

theorem quiet_createMovement (input : MovementInput) : AllQuiet (CreateStockMovement input) :=
  Prog.all_exec fun n db o ho d => by
    simp only [Except.bind_eq_ok_iff, Except.ok.injEq] at ho
    obtain ⟨-, -, rfl⟩ := ho
    rfl

theorem quiet_stockMovementWriteError {α : Type} (id : ℕ) (b : Bool) :
    AllQuiet (stockMovementWriteError (α := α) id b) := by
  refine (quiet_read _).bind fun m => ?_
  split
  · exact Prog.all_throw _
  · split
    · exact Prog.all_throw _
    · split
      · exact Prog.all_throw _
      · exact Prog.all_throw _

theorem quiet_updateMovement (id : ℕ) (input : MovementInput) : AllQuiet (UpdateStockMovement id input) := by
  refine Prog.All.bind (Prog.all_exec fun n db o ho d => ?_) fun n => ?_
  · dsimp only at ho
    split at ho
    · cases ho
      rfl
    · simp only [Except.bind_eq_ok_iff, Except.ok.injEq] at ho
      obtain ⟨-, -, rfl⟩ := ho
      rfl
  · split
    · exact quiet_stockMovementWriteError _ _
    · exact Prog.all_pure _

theorem quiet_deleteMovement (id : ℕ) : AllQuiet (DeleteStockMovement id) := by
  refine Prog.All.bind (Prog.all_exec fun n db o ho d => ?_) fun n => ?_
  · cases ho
    rfl
  · split
    · exact quiet_stockMovementWriteError _ _
    · exact Prog.all_pure _

/-! ### Links and applications -/

theorem quiet_updateDocRow (kind : DocKind) (id : ℕ) (f : Doc → Doc) (hf : ∀ d, (f d).id = d.id) :
    AllQuiet (updateDocRow kind id f hf) :=
  Prog.all_exec fun n db o ho d => by
    cases ho
    rfl

theorem quiet_updatePaymentById (side : Side) (id : ℕ) (f : Payment → Payment) (hf : ∀ p, (f p).id = p.id) :
    AllQuiet (updatePaymentById side id f hf) :=
  Prog.all_exec fun n db o ho d => by
    cases ho
    rfl

theorem quiet_updateMovementById (id : ℕ) (f : StockMovement → StockMovement) (hf : ∀ m, (f m).id = m.id) :
    AllQuiet (updateMovementById id f hf) :=
  Prog.all_exec fun n db o ho d => by
    simp only [Except.bind_eq_ok_iff, Except.ok.injEq] at ho
    obtain ⟨-, -, rfl⟩ := ho
    rfl

theorem quiet_insertApplications (side : Side) (settler : SettlerKind) (id : ℕ) :
    AllQuiet (insertApplications side settler id) :=
  Prog.all_exec fun n db o ho d => by
    simp only [Except.bind_eq_ok_iff, Except.ok.injEq] at ho
    obtain ⟨-, -, rfl⟩ := ho
    rfl

theorem quiet_linkFx (appId je : ℕ) : AllQuiet (linkFx appId je) :=
  Prog.all_exec fun n db o ho d => by
    cases ho
    rfl

theorem quiet_deleteApplications (side : Side) (id : ℕ) : AllQuiet (deleteApplications side id) :=
  Prog.all_exec fun n db o ho d => by
    cases ho
    rfl

/-! ### Orders -/

theorem quiet_confirm (side : Side) (id : ℕ) : AllQuiet (confirm side id) :=
  (quiet_query _).bind fun _ => (Prog.all_require _ _).bind fun _ => (quiet_read _).bind fun _ =>
  (Prog.all_require _ _).bind fun _ => quiet_updateDocRow _ _ _ _

theorem quiet_closeOrder (side : Side) (id : ℕ) : AllQuiet (closeOrder side id) :=
  (quiet_query _).bind fun _ => (Prog.all_require _ _).bind fun _ => quiet_updateDocRow _ _ _ _

theorem quiet_cancel (side : Side) (id : ℕ) : AllQuiet (cancel side id) := by
  refine (quiet_query _).bind fun s => ?_
  split
  · exact quiet_updateDocRow _ _ _ _
  · exact (quiet_read _).bind fun _ => (Prog.all_require _ _).bind fun _ => quiet_updateDocRow _ _ _ _
  · exact Prog.all_throw _

theorem quiet_fromOrder (side : Side) (id : ℕ) (input : FromOrderInput) : AllQuiet (fromOrder side id input) := by
  refine (quiet_read _).bind fun o => ?_
  split
  · exact (quiet_query _).bind fun _ => Prog.all_throw _
  · exact (quiet_insertHeader _ _).bind fun _ => (quiet_insertDocLines _ _ _).bind fun _ =>
      (Prog.all_require _ _).bind fun _ => Prog.all_pure _

theorem quiet_insertMovements (select : DB → List (MovementInput × Side × ℕ)) : AllQuiet (insertMovements select) :=
  Prog.all_exec fun n db o ho d => by
    simp only [Except.bind_eq_ok_iff, Except.ok.injEq] at ho
    obtain ⟨-, -, rfl⟩ := ho
    rfl

theorem quiet_requireOpenOrder (side : Side) (id : ℕ) : AllQuiet (requireOpenOrder side id) :=
  (quiet_query _).bind fun _ => Prog.all_require _ _

theorem quiet_receive (id : ℕ) (input : MoveInput) : AllQuiet (ReceivePurchaseOrder id input) := by
  refine (quiet_requireOpenOrder _ _).bind fun _ => (quiet_read _).bind fun rate => ?_
  split
  · exact Prog.all_throw _
  · exact (quiet_insertMovements _).bind fun _ => (Prog.all_require _ _).bind fun _ => Prog.all_pure _

theorem quiet_ship (id : ℕ) (input : MoveInput) : AllQuiet (ShipSalesOrder id input) :=
  (quiet_requireOpenOrder _ _).bind fun _ => (quiet_insertMovements _).bind fun _ =>
  (Prog.all_require _ _).bind fun _ => Prog.all_pure _

/-! ### Bank reconciliation -/

theorem quiet_createStatement (input : StatementInput) : AllQuiet (CreateStatement input) :=
  Prog.all_exec fun n db o ho d => by
    simp only [Except.bind_eq_ok_iff, Except.ok.injEq] at ho
    obtain ⟨-, -, rfl⟩ := ho
    rfl

theorem quiet_requireOpen (id : ℕ) : AllQuiet (requireOpen id) := (quiet_query _).bind fun _ => Prog.all_require _ _

theorem quiet_updateStatement (id : ℕ) (input : StatementInput) : AllQuiet (UpdateStatement id input) := by
  refine (quiet_requireOpen id).bind fun _ => Prog.all_exec fun n db o ho d => ?_
  dsimp only at ho
  split at ho
  · cases ho
    rfl
  · simp only [Except.bind_eq_ok_iff, Except.ok.injEq] at ho
    obtain ⟨-, -, -, -, -, -, rfl⟩ := ho
    rfl

theorem quiet_deleteStatement (id : ℕ) : AllQuiet (DeleteStatement id) := by
  refine (quiet_requireOpen id).bind fun _ => Prog.all_exec fun n db o ho d => ?_
  simp only [Except.bind_eq_ok_iff, Except.ok.injEq] at ho
  obtain ⟨-, -, rfl⟩ := ho
  rfl

theorem quiet_addLine (statement : ℕ) (input : StatementLineInput) : AllQuiet (AddLine statement input) := by
  refine (quiet_requireOpen _).bind fun _ => (quiet_read _).bind fun _ => Prog.all_exec fun n db o ho d => ?_
  simp only [Except.bind_eq_ok_iff, Except.ok.injEq] at ho
  obtain ⟨-, -, -, -, -, -, -, -, -, -, rfl⟩ := ho
  rfl

theorem quiet_addLines (statement : ℕ) (ls : List StatementLineInput) : AllQuiet (addLines statement ls) := by
  induction ls with
  | nil => exact Prog.all_pure _
  | cons l ls ih => exact (quiet_addLine _ _).bind fun _ => ih

theorem quiet_lineStatement (id : ℕ) : AllQuiet (lineStatement id) :=
  (quiet_query _).bind fun _ => (Prog.all_require _ _).bind fun _ => Prog.all_pure _

theorem quiet_deleteLine (id : ℕ) : AllQuiet (DeleteLine id) := by
  refine (quiet_lineStatement _).bind fun _ => Prog.all_exec fun n db o ho d => ?_
  simp only [Except.bind_eq_ok_iff, Except.ok.injEq] at ho
  obtain ⟨-, -, rfl⟩ := ho
  rfl

theorem quiet_setMatch (lineId : ℕ) (ks : DB → List ℕ) (journalLine : DB → Option ℕ) :
    Quiet fun _ db => setMatch db lineId (ks db) (journalLine db) := by
  intro n db o ho d
  change setMatch db lineId (ks db) (journalLine db) = .ok o at ho
  unfold setMatch at ho
  split at ho
  · cases ho
    rfl
  · simp only [Except.bind_eq_ok_iff, Except.ok.injEq] at ho
    obtain ⟨-, -, -, -, rfl⟩ := ho
    rfl

theorem quiet_matchLine (id journalLineId : ℕ) : AllQuiet (MatchLine id journalLineId) :=
  (quiet_lineStatement _).bind fun _ => (Prog.all_exec (quiet_setMatch _ _ _)).bind fun _ => Prog.all_require _ _

theorem quiet_unmatchLine (id : ℕ) : AllQuiet (UnmatchLine id) :=
  (quiet_lineStatement _).bind fun _ => (Prog.all_exec (quiet_setMatch _ _ _)).bind fun _ => Prog.all_pure _

theorem quiet_autoMatchLines (ls : List ℕ) : AllQuiet (autoMatchLines ls) := by
  induction ls with
  | nil => exact Prog.all_pure _
  | cons l ls ih =>
    refine Prog.All.bind (Prog.all_exec fun n db o ho d => ?_) fun _ => ih.bind fun _ => Prog.all_pure _
    split at ho
    · cases ho
      rfl
    · rename_i k _
      exact quiet_setMatch l (fun _ => [l]) (fun _ => some k) n db o ho d

theorem quiet_autoMatch (statement : ℕ) : AllQuiet (AutoMatch statement) :=
  (quiet_requireOpen _).bind fun _ => (quiet_read _).bind fun _ => quiet_autoMatchLines _

theorem quiet_setStatementStatus (id : ℕ) (status : StatementStatus) : AllQuiet (setStatementStatus id status) :=
  Prog.all_exec fun n db o ho d => by
    simp only [Except.bind_eq_ok_iff, Except.ok.injEq] at ho
    obtain ⟨-, -, -, -, -, -, -, -, rfl⟩ := ho
    rfl

theorem quiet_reconcile (id : ℕ) : AllQuiet (Reconcile id) :=
  (quiet_requireOpen _).bind fun _ => (quiet_query _).bind fun _ => (Prog.all_require _ _).bind fun _ =>
  (Prog.all_require _ _).bind fun _ => quiet_setStatementStatus _ _

theorem quiet_reopen (id : ℕ) : AllQuiet (Reopen id) :=
  (quiet_query _).bind fun _ => (Prog.all_require _ _).bind fun _ => quiet_setStatementStatus _ _

/-! ### Master data -/

theorem quiet_createParty (side : Side) (account : Option ℕ) : AllQuiet (createParty side account) :=
  Prog.all_exec fun n db o ho d => by
    simp only [Except.bind_eq_ok_iff, Except.ok.injEq] at ho
    obtain ⟨-, -, rfl⟩ := ho
    rfl

theorem quiet_updateParty (side : Side) (id : ℕ) (account : Option ℕ) : AllQuiet (updateParty side id account) :=
  quiet_affected <| Prog.all_exec fun n db o ho d => by
    simp only [Except.bind_eq_ok_iff, Except.ok.injEq] at ho
    obtain ⟨-, -, rfl⟩ := ho
    rfl

theorem quiet_createProduct (input : ProductInput) : AllQuiet (CreateProduct input) :=
  Prog.all_exec fun n db o ho d => by
    simp only [Except.bind_eq_ok_iff, Except.ok.injEq] at ho
    obtain ⟨-, -, rfl⟩ := ho
    rfl

theorem quiet_updateProduct (id : ℕ) (input : ProductInput) : AllQuiet (UpdateProduct id input) :=
  quiet_affected <| Prog.all_exec fun n db o ho d => by
    dsimp only at ho
    split at ho
    · cases ho
      rfl
    · simp only [Except.bind_eq_ok_iff, Except.ok.injEq] at ho
      obtain ⟨-, -, rfl⟩ := ho
      rfl

theorem quiet_createTaxCode (code : String) (account : Option ℕ) : AllQuiet (CreateTaxCode code account) :=
  Prog.all_exec fun n db o ho d => by
    simp only [Except.bind_eq_ok_iff, Except.ok.injEq] at ho
    obtain ⟨-, -, -, -, rfl⟩ := ho
    rfl

theorem quiet_updateTaxCode (code : String) (account : Option ℕ) : AllQuiet (UpdateTaxCode code account) :=
  quiet_affected <| Prog.all_exec fun n db o ho d => by
    simp only [Except.bind_eq_ok_iff, Except.ok.injEq] at ho
    obtain ⟨-, -, rfl⟩ := ho
    rfl

theorem quiet_createWarehouse : AllQuiet CreateWarehouse :=
  Prog.all_exec fun n db o ho d => by
    cases ho
    rfl

theorem quiet_updateSettings (input : GlSettings) : AllQuiet (UpdateSettings input) := by
  refine (quiet_read _).bind fun _ => (Prog.all_require _ _).bind fun _ => Prog.all_exec fun n db o ho d => ?_
  simp only [Except.bind_eq_ok_iff, Except.ok.injEq] at ho
  obtain ⟨-, -, -, -, -, -, rfl⟩ := ho
  rfl

theorem quiet_createExchangeRate (currency : String) (date : Date) (rate : ℤ) :
    AllQuiet (CreateExchangeRate currency date rate) :=
  Prog.all_exec fun n db o ho d => by
    simp only [Except.bind_eq_ok_iff, Except.ok.injEq] at ho
    obtain ⟨-, -, -, -, -, -, rfl⟩ := ho
    rfl

theorem quiet_updateExchangeRate (currency : String) (date : Date) (rate : ℤ) :
    AllQuiet (UpdateExchangeRate currency date rate) :=
  quiet_affected <| Prog.all_exec fun n db o ho d => by
    dsimp only at ho
    split at ho
    · cases ho
      rfl
    · simp only [Except.bind_eq_ok_iff, Except.ok.injEq] at ho
      obtain ⟨-, -, rfl⟩ := ho
      rfl

theorem quiet_deleteExchangeRate (currency : String) (date : Date) : AllQuiet (DeleteExchangeRate currency date) :=
  quiet_affected <| Prog.all_exec fun n db o ho d => by
    cases ho
    rfl
