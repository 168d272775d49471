import Tadmor.Model.System

/-!
# Identity numbers

The ids of all rows are below the identity sequence, so an inserted row is new to its table.  Every statement keeps
this, whatever the program it is part of.
-/

structure Fresh (n : ℕ) (db : DB) : Prop where
  years : db.years.Below n
  periods : db.periods.Below n
  entries : db.entries.Below n
  lines : db.lines.Below n
  docs : db.docs.Below n
  docLines : db.docLines.Below n
  payments : db.payments.Below n
  applications : db.applications.Below n
  movements : db.movements.Below n

theorem Fresh.mono (n m : ℕ) (db : DB) (h : n ≤ m) (hf : Fresh n db) : Fresh m db where
  years := hf.years.mono h
  periods := hf.periods.mono h
  entries := hf.entries.mono h
  lines := hf.lines.mono h
  docs := hf.docs.mono h
  docLines := hf.docLines.mono h
  payments := hf.payments.mono h
  applications := hf.applications.mono h
  movements := hf.movements.mono h

/-! ### Rows numbered from the sequence -/

theorem newRows_eq_ok {db : DB} {je n : ℕ} {ls : List NewLine} {rows : List JournalLine}
    (h : newRows db je n ls = .ok rows) : rows.map (·.id) = List.range' n rows.length := by
  induction ls generalizing n rows with
  | nil =>
    cases h
    rfl
  | cons l ls ih =>
    unfold newRows at h
    split at h
    · cases h
    · simp only [Except.bind_eq_ok_iff] at h
      obtain ⟨-, -, rows', h', h⟩ := h
      cases h
      simp [ih h', List.range'_succ, NewLine.row]

theorem map_id_numberRows (docId n : ℕ) (ls : List (ℕ × NewDocLine)) :
    (numberRows docId n ls).map (·.id) = List.range' n (numberRows docId n ls).length := by
  induction ls generalizing n with
  | nil => rfl
  | cons l ls ih => simp [numberRows, ih, List.range'_succ, NewDocLine.row]

theorem map_id_applicationRows (side : Side) (settler : SettlerKind) (id n : ℕ) (xs : List (ℕ × ℤ)) :
    (applicationRows side settler id n xs).map (·.id) =
      List.range' n (applicationRows side settler id n xs).length := by
  induction xs generalizing n with
  | nil => rfl
  | cons x xs ih => simp [applicationRows, ih, List.range'_succ]

theorem map_id_movementRows (n : ℕ) (xs : List (MovementInput × Side × ℕ)) :
    (movementRows n xs).map (·.id) = List.range' n (movementRows n xs).length := by
  induction xs generalizing n with
  | nil => rfl
  | cons x xs ih => simp [movementRows, ih, List.range'_succ, MovementInput.row]

/-! ### Statements -/

/-- A statement that keeps the ids fresh. -/
abbrev KeepsFresh {β : Type} (r : ℕ → DB → Except Err (Outcome DB Lock Err β)) : Prop := Prog.Keeps Fresh r

/-- A program of such statements. -/
abbrev AllFresh {α : Type} (p : Txn α) : Prop := p.All KeepsFresh

theorem allFresh_read {α : Type} (f : DB → α) : AllFresh (Prog.read f) :=
  Prog.all_exec fun n db o h ho => by
    cases ho
    exact h

theorem allFresh_query {α : Type} (f : DB → Except Err α) : AllFresh (Prog.query f) :=
  Prog.all_exec fun n db o h ho => by
    rcases hf : f db with e | a
    · rw [hf] at ho
      cases ho
    · rw [hf] at ho
      cases ho
      exact h

theorem allFresh_insertMonth (date : Date) : AllFresh (insertMonth date) :=
  Prog.all_exec fun n db o h ho => by
    split at ho
    · cases ho
      exact h
    · dsimp only at ho
      split at ho
      · cases ho
        exact h.mono n (n + 1) db (Nat.le_succ n)
      · cases ho
        exact { h.mono n (n + 1) db (Nat.le_succ n) with periods := h.periods.insert rfl }

theorem allFresh_periodForDate (date : Date) : AllFresh (periodForDate date) := by
  refine (allFresh_read _).bind fun p => ?_
  split
  · exact Prog.all_pure _
  · refine (allFresh_read _).bind fun c => (Prog.all_require _ _).bind fun _ =>
      (allFresh_insertMonth date).bind fun _ => (allFresh_read _).bind fun p => ?_
    split
    · exact Prog.all_pure _
    · exact Prog.all_throw _

/-- `insertEntry` of an entry numbered from the sequence. -/
theorem keepsFresh_insertEntry {n : ℕ} {db : DB} {e : JournalEntry} {o : Outcome DB Lock Err ℕ} (he : e.id = n)
    (h : Fresh n db) (ho : insertEntry db e = .ok o) : Fresh (n + o.used) (o.act db) := by
  simp only [insertEntry, Except.bind_eq_ok_iff, ensure_eq_ok, exists_const, Except.ok.injEq] at ho
  obtain ⟨-, -, -, -, -, rfl⟩ := ho
  exact { h.mono n (n + 1) db (Nat.le_succ n) with entries := h.entries.insert he }

theorem allFresh_createEntry (date : Date) (period : ℕ) (currency memo reference : String) :
    AllFresh (createEntry date period currency memo reference) :=
  Prog.all_exec fun n db o h ho => by
    split at ho
    · cases ho
    · exact keepsFresh_insertEntry rfl h ho

theorem allFresh_insertLines (je : ℕ) (select : DB → List NewLine) : AllFresh (insertLines je select) :=
  Prog.all_exec fun n db o h ho => by
    simp only [Except.bind_eq_ok_iff, ensure_eq_ok, exists_const, Except.ok.injEq] at ho
    obtain ⟨rows, hr, -, rfl⟩ := ho
    exact { h.mono n _ db (Nat.le_add_right ..) with lines := h.lines.insertAll (newRows_eq_ok hr) }

theorem allFresh_reverseEntry (origID : ℕ) : AllFresh (reverseEntry origID) := by
  refine (allFresh_query _).bind fun x => (allFresh_read _).bind fun _ => (Prog.all_require _ _).bind fun _ =>
    (allFresh_read _).bind fun _ => (Prog.all_require _ _).bind fun _ => (allFresh_periodForDate _).bind fun p =>
    Prog.All.bind ?_ fun rev => (allFresh_insertLines _ _).bind fun _ => Prog.all_pure _
  refine Prog.all_exec fun n db o h ho => ?_
  split at ho
  · cases ho
  · exact keepsFresh_insertEntry rfl h ho

/-! ### Documents, payments, movements -/

theorem keepsFresh_recompute {n : ℕ} {db d : DB} {docId : ℕ} {ls : Table DocLine} {f : Table Doc → Table Doc}
    (hf : db.recompute docId ls = .ok f) (h : d.docs.Below n) : (f d.docs).Below n := by
  simp only [DB.recompute, Except.bind_eq_ok_iff, ensure_eq_ok, exists_const, Except.ok.injEq] at hf
  obtain ⟨-, rfl⟩ := hf
  exact h.update _ (by intro _; rfl)

theorem allFresh_insertDocLines (kind : DocKind) (docId : ℕ) (select : DB → List (ℕ × NewDocLine)) :
    AllFresh (insertDocLines kind docId select) :=
  Prog.all_exec fun n db o h ho => by
    simp only [Except.bind_eq_ok_iff, ensure_eq_ok, exists_const] at ho
    obtain ⟨-, -, -, ho⟩ := ho
    split at ho
    · cases ho
      exact h
    · simp only [Except.bind_eq_ok_iff, Except.ok.injEq] at ho
      obtain ⟨f, hf, rfl⟩ := ho
      have h' := h.mono n (n + (numberRows docId n (select db)).length) db (Nat.le_add_right ..)
      exact { h' with docs := keepsFresh_recompute hf h'.docs
                      docLines := h.docLines.insertAll (map_id_numberRows ..) }

theorem allFresh_insertLinesOf (kind : DocKind) (docId i : ℕ) (ls : List DocLineInput) :
    AllFresh (insertLinesOf kind docId i ls) := by
  induction ls generalizing i with
  | nil => exact Prog.all_pure _
  | cons l ls ih => exact (allFresh_insertDocLines _ _ _).bind fun _ => ih _

theorem allFresh_deleteDocLines (docId : ℕ) : AllFresh (deleteDocLines docId) :=
  Prog.all_exec fun n db o h ho => by
    simp only [Except.bind_eq_ok_iff, ensure_eq_ok, exists_const] at ho
    obtain ⟨-, ho⟩ := ho
    split at ho
    · cases ho
      exact h
    · simp only [Except.bind_eq_ok_iff, Except.ok.injEq] at ho
      obtain ⟨f, hf, rfl⟩ := ho
      exact { h with docs := keepsFresh_recompute hf h.docs, docLines := h.docLines.erase }

theorem allFresh_insertHeader (kind : DocKind) (input : DocInput) : AllFresh (insertHeader kind input) :=
  Prog.all_exec fun n db o h ho => by
    simp only [Except.bind_eq_ok_iff, Except.ok.injEq] at ho
    obtain ⟨-, -, rfl⟩ := ho
    exact { h.mono n (n + 1) db (Nat.le_succ n) with docs := h.docs.insert rfl }

theorem allFresh_notFoundOrNotDraft {α : Type} (noun : String) (id : ℕ) (f : DB → Option DocStatus) :
    AllFresh (notFoundOrNotDraft (α := α) noun id f) := by
  refine (allFresh_read _).bind fun s => ?_
  split
  · exact Prog.all_throw _
  · exact Prog.all_throw _

theorem allFresh_updateHeader (kind : DocKind) (docId : ℕ) (input : DocInput) :
    AllFresh (updateHeader kind docId input) :=
  Prog.all_exec fun n db o h ho => by
    dsimp only at ho
    split at ho
    · cases ho
      exact h
    · simp only [Except.bind_eq_ok_iff, Except.ok.injEq] at ho
      obtain ⟨-, -, rfl⟩ := ho
      exact { h with docs := h.docs.update _ (by intro _; rfl) }

theorem allFresh_updateDoc (kind : DocKind) (docId : ℕ) (input : DocInput) :
    AllFresh (updateDoc kind docId input) := by
  refine Prog.All.bind ?_ fun _ => (allFresh_updateHeader _ _ _).bind fun n => ?_
  · unfold refuseOrderLinked
    split
    · exact (allFresh_read _).bind fun _ => Prog.all_require _ _
    · exact Prog.all_pure _
  · split
    · exact allFresh_notFoundOrNotDraft _ _ _
    · exact (allFresh_deleteDocLines _).bind fun _ => allFresh_insertLinesOf _ _ _ _

theorem allFresh_deleteDoc (kind : DocKind) (docId : ℕ) : AllFresh (deleteDoc kind docId) := by
  refine Prog.All.bind (Prog.all_exec fun n db o h ho => ?_) fun n => ?_
  · dsimp only at ho
    split at ho
    · cases ho
      exact h
    · simp only [Except.bind_eq_ok_iff, ensure_eq_ok, exists_const, Except.ok.injEq] at ho
      obtain ⟨-, -, rfl⟩ := ho
      exact { h with docs := h.docs.erase, docLines := h.docLines.erase, applications := h.applications.erase }
  · split
    · exact allFresh_notFoundOrNotDraft _ _ _
    · exact Prog.all_pure _

theorem allFresh_createPayment (side : Side) (input : PaymentInput) : AllFresh (createPayment side input) :=
  Prog.all_exec fun n db o h ho => by
    simp only [Except.bind_eq_ok_iff, Except.ok.injEq] at ho
    obtain ⟨-, -, rfl⟩ := ho
    exact { h.mono n (n + 1) db (Nat.le_succ n) with payments := h.payments.insert rfl }

theorem allFresh_updatePayment (side : Side) (id : ℕ) (input : PaymentInput) :
    AllFresh (updatePayment side id input) := by
  refine Prog.All.bind (Prog.all_exec fun n db o h ho => ?_) fun n => ?_
  · dsimp only at ho
    split at ho
    · cases ho
      exact h
    · simp only [Except.bind_eq_ok_iff, Except.ok.injEq] at ho
      obtain ⟨-, -, rfl⟩ := ho
      exact { h with payments := h.payments.update _ (by intro _; rfl) }
  · split
    · exact allFresh_notFoundOrNotDraft _ _ _
    · exact Prog.all_pure _

theorem allFresh_deletePayment (side : Side) (id : ℕ) : AllFresh (deletePayment side id) := by
  refine Prog.All.bind (Prog.all_exec fun n db o h ho => ?_) fun n => ?_
  · dsimp only at ho
    split at ho
    · cases ho
      exact h
    · cases ho
      exact { h with payments := h.payments.erase, applications := h.applications.erase }
  · split
    · exact allFresh_notFoundOrNotDraft _ _ _
    · exact Prog.all_pure _

theorem allFresh_createMovement (input : MovementInput) : AllFresh (CreateStockMovement input) :=
  Prog.all_exec fun n db o h ho => by
    simp only [Except.bind_eq_ok_iff, Except.ok.injEq] at ho
    obtain ⟨-, -, rfl⟩ := ho
    exact { h.mono n (n + 1) db (Nat.le_succ n) with movements := h.movements.insert rfl }

theorem allFresh_stockMovementWriteError {α : Type} (id : ℕ) (b : Bool) :
    AllFresh (stockMovementWriteError (α := α) id b) := by
  refine (allFresh_read _).bind fun m => ?_
  split
  · exact Prog.all_throw _
  · split
    · exact Prog.all_throw _
    · split
      · exact Prog.all_throw _
      · exact Prog.all_throw _

theorem allFresh_updateMovement (id : ℕ) (input : MovementInput) : AllFresh (UpdateStockMovement id input) := by
  refine Prog.All.bind (Prog.all_exec fun n db o h ho => ?_) fun n => ?_
  · dsimp only at ho
    split at ho
    · cases ho
      exact h
    · simp only [Except.bind_eq_ok_iff, Except.ok.injEq] at ho
      obtain ⟨-, -, rfl⟩ := ho
      exact { h with movements := h.movements.update _ (by intro _; rfl) }
  · split
    · exact allFresh_stockMovementWriteError _ _
    · exact Prog.all_pure _

theorem allFresh_deleteMovement (id : ℕ) : AllFresh (DeleteStockMovement id) := by
  refine Prog.All.bind (Prog.all_exec fun n db o h ho => ?_) fun n => ?_
  · cases ho
    exact { h with movements := h.movements.erase }
  · split
    · exact allFresh_stockMovementWriteError _ _
    · exact Prog.all_pure _

/-! ### Posting, applying, unposting -/

theorem allFresh_updateDocRow (kind : DocKind) (id : ℕ) (f : Doc → Doc) (hf : ∀ d, (f d).id = d.id) :
    AllFresh (updateDocRow kind id f hf) :=
  Prog.all_exec fun n db o h ho => by
    cases ho
    exact { h with docs := h.docs.update _ hf }

theorem allFresh_updatePaymentById (side : Side) (id : ℕ) (f : Payment → Payment) (hf : ∀ p, (f p).id = p.id) :
    AllFresh (updatePaymentById side id f hf) :=
  Prog.all_exec fun n db o h ho => by
    cases ho
    exact { h with payments := h.payments.update _ hf }

theorem allFresh_updateMovementById (id : ℕ) (f : StockMovement → StockMovement) (hf : ∀ m, (f m).id = m.id) :
    AllFresh (updateMovementById id f hf) :=
  Prog.all_exec fun n db o h ho => by
    simp only [Except.bind_eq_ok_iff, Except.ok.injEq] at ho
    obtain ⟨-, -, rfl⟩ := ho
    exact { h with movements := h.movements.update _ hf }

theorem allFresh_postDoc (spec : PostSpec) (id : ℕ) : AllFresh (postDoc spec id) :=
  (allFresh_query _).bind fun _ => (Prog.all_require _ _).bind fun _ => (Prog.all_require _ _).bind fun _ =>
  (Prog.all_require _ _).bind fun _ => (allFresh_read _).bind fun _ => (Prog.all_require _ _).bind fun _ =>
  (allFresh_read _).bind fun _ => (Prog.all_require _ _).bind fun _ => (allFresh_periodForDate _).bind fun _ =>
  (allFresh_createEntry _ _ _ _ _).bind fun _ => (allFresh_insertLines _ _).bind fun _ =>
  (allFresh_insertLines _ _).bind fun _ => (allFresh_updateDocRow _ _ _ _).bind fun _ => Prog.all_pure _

theorem allFresh_postPayment (side : Side) (id : ℕ) : AllFresh (postPayment side id) :=
  (allFresh_query _).bind fun _ => (Prog.all_require _ _).bind fun _ => (Prog.all_require _ _).bind fun _ =>
  (Prog.all_require _ _).bind fun _ => (Prog.all_require _ _).bind fun _ => (allFresh_periodForDate _).bind fun _ =>
  (allFresh_createEntry _ _ _ _ _).bind fun _ => (allFresh_insertLines _ _).bind fun _ =>
  (allFresh_insertLines _ _).bind fun _ => (allFresh_updatePaymentById _ _ _ _).bind fun _ => Prog.all_pure _

theorem allFresh_postInventoryIssue (id : ℕ) : AllFresh (PostInventoryIssue id) :=
  (allFresh_query _).bind fun _ => (Prog.all_require _ _).bind fun _ => (Prog.all_require _ _).bind fun _ =>
  (Prog.all_require _ _).bind fun _ => (Prog.all_require _ _).bind fun _ => (allFresh_periodForDate _).bind fun _ =>
  (allFresh_read _).bind fun _ => (allFresh_createEntry _ _ _ _ _).bind fun _ => (allFresh_insertLines _ _).bind fun _ =>
  (allFresh_insertLines _ _).bind fun _ => (allFresh_updateMovementById _ _ _).bind fun _ => Prog.all_pure _

theorem allFresh_postInventoryReceipt (id account : ℕ) : AllFresh (PostInventoryReceipt id account) :=
  (allFresh_query _).bind fun _ => (Prog.all_require _ _).bind fun _ => (Prog.all_require _ _).bind fun _ =>
  (Prog.all_require _ _).bind fun _ => (Prog.all_require _ _).bind fun _ => (allFresh_query _).bind fun _ =>
  (Prog.all_require _ _).bind fun _ => (allFresh_periodForDate _).bind fun _ => (allFresh_read _).bind fun _ =>
  (allFresh_createEntry _ _ _ _ _).bind fun _ => (allFresh_insertLines _ _).bind fun _ =>
  (allFresh_insertLines _ _).bind fun _ => (allFresh_updateMovementById _ _ _).bind fun _ => Prog.all_pure _

theorem allFresh_postMovement (id account : ℕ) : AllFresh (PostStockMovement id account) := by
  refine (allFresh_query _).bind fun t => ?_
  split
  · exact allFresh_postInventoryIssue _
  · split
    · exact Prog.all_throw _
    · exact allFresh_postInventoryReceipt _ _
  · exact Prog.all_throw _

theorem allFresh_insertApplications (side : Side) (settler : SettlerKind) (id : ℕ) :
    AllFresh (insertApplications side settler id) :=
  Prog.all_exec fun n db o h ho => by
    simp only [Except.bind_eq_ok_iff, Except.ok.injEq] at ho
    obtain ⟨-, -, rfl⟩ := ho
    exact { h.mono n _ db (Nat.le_add_right ..) with
      applications := h.applications.insertAll (map_id_applicationRows ..) }

theorem allFresh_postFx (side : Side) (base : String) (account fx : ℕ) (c : Candidate) :
    AllFresh (postFx side base account fx c) := by
  refine (allFresh_periodForDate _).bind fun _ => (allFresh_createEntry _ _ _ _ _).bind fun _ =>
    (allFresh_insertLines _ _).bind fun _ => (allFresh_insertLines _ _).bind fun _ =>
    Prog.all_exec fun n db o h ho => ?_
  cases ho
  exact { h with applications := h.applications.update _ (by intro _; rfl) }

theorem allFresh_postEach (side : Side) (base : String) (fx : ℕ) (cs : List (ℕ × Candidate)) :
    AllFresh (postEach side base fx cs) := by
  induction cs with
  | nil => exact Prog.all_pure _
  | cons c cs ih => exact (allFresh_postFx _ _ _ _ _).bind fun _ => ih

theorem allFresh_autoApply (side : Side) (settler : SettlerKind) (id : ℕ) :
    AllFresh (autoApply side settler id) := by
  refine (allFresh_query _).bind fun _ => (Prog.all_require _ _).bind fun _ =>
    (allFresh_insertApplications _ _ _).bind fun _ => Prog.All.bind ?_ fun _ => Prog.all_pure _
  refine (allFresh_query _).bind fun cs => ?_
  split
  · exact Prog.all_pure _
  · refine (allFresh_read _).bind fun s => ?_
    split
    · exact Prog.all_throw _
    · exact allFresh_postEach _ _ _ _

theorem allFresh_unpostDoc (kind : DocKind) (id : ℕ) : AllFresh (unpostDoc kind id) :=
  (allFresh_query _).bind fun _ => (allFresh_read _).bind fun _ => (Prog.all_require _ _).bind fun _ =>
  (allFresh_reverseEntry _).bind fun _ => (allFresh_updateDocRow _ _ _ _).bind fun _ => Prog.all_pure _

theorem allFresh_reverseEach (es : List ℕ) : AllFresh (reverseEach es) := by
  induction es with
  | nil => exact Prog.all_pure _
  | cons e es ih => exact (allFresh_reverseEntry e).bind fun _ => ih

theorem allFresh_unpostPayment (side : Side) (id : ℕ) : AllFresh (unpostPayment side id) := by
  refine (allFresh_query _).bind fun _ => (allFresh_reverseEntry _).bind fun _ =>
    Prog.All.bind ((allFresh_read _).bind fun _ => allFresh_reverseEach _) fun _ =>
    Prog.All.bind (Prog.all_exec fun n db o h ho => ?_) fun _ =>
    (allFresh_updatePaymentById _ _ _ _).bind fun _ => Prog.all_pure _
  cases ho
  exact { h with applications := h.applications.erase }

theorem allFresh_unpostMovement (id : ℕ) : AllFresh (UnpostStockMovement id) :=
  (allFresh_query _).bind fun _ => (allFresh_reverseEntry _).bind fun _ =>
  (allFresh_updateMovementById _ _ _).bind fun _ => Prog.all_pure _

/-! ### The calendar -/

theorem allFresh_setPeriods (status : BookStatus) (select : DB → List ℕ) : AllFresh (setPeriods status select) :=
  Prog.all_exec fun n db o h ho => by
    simp only [Except.bind_eq_ok_iff, ensure_eq_ok, exists_const, Except.ok.injEq] at ho
    obtain ⟨-, rfl⟩ := ho
    exact { h with periods := h.periods.update _ (by intro _; rfl) }

theorem allFresh_updateYear (id : ℕ) (f : FiscalYear → FiscalYear) (hf : ∀ y, (f y).id = y.id) :
    AllFresh (updateYear id f hf) :=
  Prog.all_exec fun n db o h ho => by
    cases ho
    exact { h with years := h.years.update _ hf }

theorem allFresh_closingPeriod (endDate : Date) : AllFresh (closingPeriod endDate) := by
  refine (allFresh_read _).bind fun p => ?_
  split
  · exact allFresh_periodForDate _
  · split
    · exact (allFresh_setPeriods _ _).bind fun _ => Prog.all_pure _
    · exact Prog.all_pure _

theorem allFresh_postSweep (toSweep : ℕ) (name : String) (endDate : Date) (retained : ℕ) :
    AllFresh (postSweep toSweep name endDate retained) := by
  unfold postSweep
  split
  · refine Prog.All.bind ((allFresh_read _).bind fun _ => (allFresh_closingPeriod _).bind fun _ =>
      Prog.All.bind (Prog.all_exec fun n db o h ho => ?_) fun _ => (allFresh_insertLines _ _).bind fun _ =>
      Prog.all_pure _) fun _ => Prog.all_pure _
    exact keepsFresh_insertEntry rfl h ho
  · exact Prog.all_pure _

theorem allFresh_insertNextYear (endDate : Date) : AllFresh (insertNextYear endDate) :=
  Prog.all_exec fun n db o h ho => by
    dsimp only at ho
    split at ho
    · cases ho
      exact h
    · split at ho
      · cases ho
        exact h.mono n (n + 1) db (Nat.le_succ n)
      · simp only [Except.bind_eq_ok_iff, ensure_eq_ok, exists_const, Except.ok.injEq] at ho
        obtain ⟨-, rfl⟩ := ho
        exact { h.mono n (n + 1) db (Nat.le_succ n) with years := h.years.insert rfl }

theorem allFresh_closeFiscalYear (id retained : ℕ) : AllFresh (CloseFiscalYear id retained) :=
  (allFresh_query _).bind fun _ => (Prog.all_require _ _).bind fun _ => (allFresh_read _).bind fun _ =>
  (Prog.all_require _ _).bind fun _ => (allFresh_query _).bind fun _ => (Prog.all_require _ _).bind fun _ =>
  (allFresh_read _).bind fun _ => (allFresh_postSweep _ _ _ _).bind fun _ => (allFresh_setPeriods _ _).bind fun _ =>
  (allFresh_updateYear _ _ _).bind fun _ => (allFresh_insertNextYear _).bind fun _ => Prog.all_pure _

theorem allFresh_reopenFiscalYear (id : ℕ) : AllFresh (ReopenFiscalYear id) := by
  refine (allFresh_query _).bind fun fy => (Prog.all_require _ _).bind fun _ => (allFresh_read _).bind fun _ =>
    (Prog.all_require _ _).bind fun _ => (allFresh_updateYear _ _ _).bind fun _ => ?_
  split
  · exact Prog.all_pure _
  · exact (allFresh_setPeriods _ _).bind fun _ => (allFresh_reverseEntry _).bind fun _ => Prog.all_pure _

/-! ### Orders -/

theorem allFresh_confirm (side : Side) (id : ℕ) : AllFresh (confirm side id) :=
  (allFresh_query _).bind fun _ => (Prog.all_require _ _).bind fun _ => (allFresh_read _).bind fun _ =>
  (Prog.all_require _ _).bind fun _ => allFresh_updateDocRow _ _ _ _

theorem allFresh_closeOrder (side : Side) (id : ℕ) : AllFresh (closeOrder side id) :=
  (allFresh_query _).bind fun _ => (Prog.all_require _ _).bind fun _ => allFresh_updateDocRow _ _ _ _

theorem allFresh_cancel (side : Side) (id : ℕ) : AllFresh (cancel side id) := by
  refine (allFresh_query _).bind fun s => ?_
  split
  · exact allFresh_updateDocRow _ _ _ _
  · exact (allFresh_read _).bind fun _ => (Prog.all_require _ _).bind fun _ => allFresh_updateDocRow _ _ _ _
  · exact Prog.all_throw _

theorem allFresh_fromOrder (side : Side) (id : ℕ) (input : FromOrderInput) : AllFresh (fromOrder side id input) := by
  refine (allFresh_read _).bind fun o => ?_
  split
  · exact (allFresh_query _).bind fun _ => Prog.all_throw _
  · exact (allFresh_insertHeader _ _).bind fun _ => (allFresh_insertDocLines _ _ _).bind fun _ =>
      (Prog.all_require _ _).bind fun _ => Prog.all_pure _

theorem allFresh_insertMovements (select : DB → List (MovementInput × Side × ℕ)) :
    AllFresh (insertMovements select) :=
  Prog.all_exec fun n db o h ho => by
    simp only [Except.bind_eq_ok_iff, Except.ok.injEq] at ho
    obtain ⟨-, -, rfl⟩ := ho
    exact { h.mono n _ db (Nat.le_add_right ..) with movements := h.movements.insertAll (map_id_movementRows ..) }

theorem allFresh_requireOpenOrder (side : Side) (id : ℕ) : AllFresh (requireOpenOrder side id) :=
  (allFresh_query _).bind fun _ => Prog.all_require _ _

theorem allFresh_receive (id : ℕ) (input : MoveInput) : AllFresh (ReceivePurchaseOrder id input) := by
  refine (allFresh_requireOpenOrder _ _).bind fun _ => (allFresh_read _).bind fun rate => ?_
  split
  · exact Prog.all_throw _
  · exact (allFresh_insertMovements _).bind fun _ => (Prog.all_require _ _).bind fun _ => Prog.all_pure _

theorem allFresh_ship (id : ℕ) (input : MoveInput) : AllFresh (ShipSalesOrder id input) :=
  (allFresh_requireOpenOrder _ _).bind fun _ => (allFresh_insertMovements _).bind fun _ =>
  (Prog.all_require _ _).bind fun _ => Prog.all_pure _
