import Tadmor.Proof.Closing
import Tadmor.Proof.Linking

/-!
# What an operation can do to the books

Every operation that succeeds has one of these effects.  The invariants are proved from the effects, not from the
operations.
-/

/-- The operation closes the open year `id`, which has a balance to sweep, with an entry of the year's last day. -/
structure Closes (op : Op) (id : ℕ) (db : DB) (e : JournalEntry) : Prop where
  op : ∃ retained, op = .closeFiscalYear id retained
  year : ∃ fy, db.years.find? id = some fy ∧ fy.status = .opened ∧ e.entryDate = fy.endDate
  sweep : db.balances e.entryDate ≠ []
  calendar : db.CanClose e.entryDate

/-- The operation that unposts a document of the kind. -/
def PostedKind.unpost : PostedKind → ℕ → Op
  | salesInvoice => .unpostInvoice .sales
  | purchaseBill => .unpostInvoice .purchase
  | salesCreditNote => .unpostCreditNote .sales
  | purchaseCreditNote => .unpostCreditNote .purchase

/-- What the operation `op` does to the books; new rows are numbered from `lo` on. -/
inductive Effect (lo : ℕ) : Op → DB → DB → Prop where
  | outside {op : Op} {db db' : DB} (h : SameBooks db db') : Effect lo op db db'
  | docEdit {op : Op} {db db' : DB} (id : ℕ) (h : DocEdit id db db') (hl : DocsEdit id db db') : Effect lo op db db'
  | paymentEdit {op : Op} {db db' : DB} (id : ℕ) (h : PaymentEdit id db db') : Effect lo op db db'
  | movementEdit {op : Op} {db db' : DB} (h : MovementEdit db db') (hm : MovesEdit op db db') : Effect lo op db db'
  | postDoc {db mid : DB} (kind : PostedKind) (id : ℕ) {d : Doc} {e : JournalEntry}
      {rows : List JournalLine} (hd : db.docOf kind.spec.kind id = some d) (hs : d.status = .draft) (ht : 0 < d.total)
      (hw : Wrote lo db mid e rows) (he : e.reversesEntryId = none) (hdate : e.entryDate = d.date)
      (hcur : e.currencyCode = d.currencyCode)
      (hc : HasControl kind.spec.kind.side rows (if kind.spec.creditsDetails then d.total else 0)
        (if kind.spec.creditsDetails then 0 else d.total)) (hpost : db.Posted e.entryDate mid) :
      Effect lo (.postDoc kind id) db { mid with docs := db.docs.update [id] (·.posted e.id e.periodId) fun _ => rfl }
  | postPayment {db mid : DB} (side : Side) (id : ℕ) {p : Payment} {e : JournalEntry}
      {rows : List JournalLine} (hp : db.paymentOf side id = some p) (hs : p.status = .draft) (ht : 0 < p.amount)
      (hw : Wrote lo db mid e rows) (he : e.reversesEntryId = none) (hdate : e.entryDate = p.date)
      (hcur : e.currencyCode = p.currencyCode) (hc : HasControl side rows p.controlDebit p.controlCredit)
      (hpost : db.Posted e.entryDate mid) :
      Effect lo (.postPayment side id) db { mid with
        payments := db.payments.update [id] (·.posted e.id e.periodId) fun _ => rfl }
  | postMovement {account : ℕ} {db mid : DB} (id : ℕ) {m : StockMovement} {e : JournalEntry} {rows : List JournalLine}
      (hm : db.movements.find? id = some m) (hj : m.journalEntryId = none) (hw : Wrote lo db mid e rows)
      (he : e.reversesEntryId = none) (hpost : db.Posted e.entryDate mid) (hdate : e.entryDate = m.movementDate) :
      Effect lo (.postMovement id account) db { mid with
        movements := db.movements.update [id] (·.linked e.id e.periodId) fun _ => rfl }
  | autoApply {db db' : DB} (side : Side) (settler : SettlerKind) (id n : ℕ) (hn : lo ≤ n)
      (hc : checkApplications db (applicationRows side settler id n (db.allocation side settler id)) = .ok ())
      (hfree : db.applications.AllFree (applicationRows side settler id n (db.allocation side settler id)))
      (hfx : FxPosted lo (db.FxOf side settler id) { db with
        applications := db.applications.insertAll (applicationRows side settler id n (db.allocation side settler id)) }
        db')
      (hch : ∀ a ∈ applicationRows side settler id n (db.allocation side settler id),
        db'.applicationCheck a false = .ok ()) : Effect lo (.autoApply side settler id) db db'
  | unpostDoc {op : Op} {kind : PostedKind} {id : ℕ} {db mid : DB} {d : Doc} {e r : JournalEntry}
      {rows : List JournalLine} (hd : db.docOf kind.spec.kind id = some d) (hs : d.status = .posted)
      (hj : d.journalEntryId = some e.id) (happs : ∀ a ∈ db.applications, a.involves kind.spec.kind id = false)
      (hr : Reversed lo db mid e r rows) (hop : op = kind.unpost id) (hpost : db.Posted r.entryDate mid) :
      Effect lo op db { mid with docs := db.docs.update [id] Doc.unposted fun _ => rfl }
  | unpostPayment {side : Side} {id je : ℕ} {db mid : DB} {p : Payment} (hp : db.paymentOf side id = some p)
      (hs : p.status = .posted) (hj : p.journalEntryId = some je)
      (hr : ReversedAll lo (je :: db.fxEntries side id) db mid) :
      Effect lo (.unpostPayment side id) db { mid with
        applications := db.applications.erase (db.applications.keysWhere (ownApplication side id))
        payments := db.payments.update [id] Payment.unposted fun _ => rfl }
  | unpostMovement {id : ℕ} {db mid : DB} {m : StockMovement} {e r : JournalEntry} {rows : List JournalLine}
      (hm : db.movements.find? id = some m) (hj : m.journalEntryId = some e.id) (hr : Reversed lo db mid e r rows)
      (hpost : db.Posted r.entryDate mid) :
      Effect lo (.unpostMovement id) db { mid with
        movements := db.movements.update [id] StockMovement.unlinked fun _ => rfl }
  | closeEmpty {op : Op} {db db' : DB} (id : ℕ) (hopen : db.closingOf id = none) (h : ClosedYear id none db db') :
      Effect lo op db db'
  | closeYear {op : Op} {db mid db' : DB} (id : ℕ) {e : JournalEntry} {rows : List JournalLine}
      (hopen : db.closingOf id = none) (hw : Wrote lo db mid e rows) (he : e.reversesEntryId = none)
      (h : ClosedYear id (some e.id) mid db') (hclose : Closes op id db e) : Effect lo op db db'
  | reopenYear {op : Op} {db mid db' : DB} (id : ℕ) {e r : JournalEntry} {rows : List JournalLine}
      (hc : db.closingOf id = some e.id) (hmid : mid = { db with years := mid.years, periods := mid.periods })
      (hlink : ∀ k, mid.closingOf k = if k = id then none else db.closingOf k) (hr : Reversed lo mid db' e r rows)
      (hop : op = .reopenFiscalYear id) : Effect lo op db db'

/-! ### Every operation has an effect -/

theorem closingOf_eq {db : DB} {id : ℕ} {fy : FiscalYear} (h : db.years.find? id = some fy) :
    db.closingOf id = if fy.status = .closed then fy.closingEntryId else none := by
  rw [DB.closingOf, h]
  by_cases hc : fy.status = .closed
  · simp [Option.filter, hc]
  · simp [Option.filter, hc]

/-- An operation whose transaction stays outside the books. -/
theorem Effect.of_allOutside {op : Op} {v w : Env DB Err} (h : (transaction op).run v = .ok ((), w))
    (hv : Fresh v.seq v.db) (hp : AllOutside (transaction op)) : Effect v.seq op v.db w.db :=
  .outside (hp.sameBooks h hv)

theorem run_void {α : Type} {p : Txn α} {v w : Env DB Err} (h : (void p).run v = .ok ((), w)) :
    ∃ a, p.run v = .ok (a, w) := by
  obtain ⟨a, v₁, h₁, h⟩ := Prog.run_bind_ok.1 h
  obtain ⟨-, rfl⟩ := Prog.run_pure_ok.1 h
  exact ⟨a, h₁⟩

theorem run_closeYear_effect {id retained : ℕ} {res : CloseResult} {v w : Env DB Err}
    (h : (CloseFiscalYear id retained).run v = .ok (res, w)) (hv : Fresh v.seq v.db) :
    Effect v.seq (.closeFiscalYear id retained) v.db w.db := by
  obtain ⟨fy, u, hg, hdb, hseq, -, h⟩ := run_closeFiscalYear h
  have hnone : v.db.closingOf id = none := by
    rw [closingOf_eq hg.year, hg.opened]
    rfl
  obtain ⟨closing, mid, hc, hcase⟩ := run_closeRest h (hdb ▸ hv.mono _ _ _ hseq) (hdb ▸ hg.year)
  rcases hcase with ⟨-, rfl, rfl⟩ | ⟨je, period, rows, rfl, hw, -, hsweep, hcan⟩
  · rw [hdb] at hc
    exact .closeEmpty id hnone hc
  · rw [hdb] at hw hsweep hcan
    exact .closeYear id hnone (hw.mono hseq) rfl hc ⟨⟨retained, rfl⟩, ⟨fy, hg.year, hg.opened, rfl⟩, hsweep, hcan⟩

theorem run_reopenYear_effect {id : ℕ} {rev : Option ℕ} {v w : Env DB Err}
    (h : (ReopenFiscalYear id).run v = .ok (rev, w)) (hv : Fresh v.seq v.db) :
    Effect v.seq (.reopenFiscalYear id) v.db w.db := by
  obtain ⟨fy, mid, hfy, hclosed, -, hmid, -, hlink, ⟨hnone, hdb⟩ | ⟨e, r, rows, hsome, hr⟩⟩ := run_reopenFiscalYear h hv
  · -- without a closing entry nothing of the books changes
    refine .outside ?_
    rw [hdb, hmid]
    refine ⟨rfl, rfl, rfl, rfl, rfl, rfl, rfl, fun k => ?_⟩
    have hk := hlink k
    rw [hmid] at hk
    refine hk.trans ?_
    split
    · rename_i e
      rw [e, closingOf_eq hfy, if_pos hclosed, hnone]
    · rfl
  · exact .reopenYear id ((closingOf_eq hfy).trans (by rw [if_pos hclosed, hsome])) hmid hlink hr rfl

theorem run_effect (op : Op) {v w : Env DB Err} (h : (transaction op).run v = .ok ((), w)) (hv : Fresh v.seq v.db)
    (hpass : passAll w.checks w.db = .ok ()) : Effect v.seq op v.db w.db := by
  have outside := Effect.of_allOutside h hv
  cases op with
  | createDoc kind input =>
    obtain ⟨id, h⟩ := run_void h
    exact .docEdit id (run_createDoc h hv) (docsEdit_createDoc h hv)
  | updateDoc kind id input => exact .docEdit id (run_updateDoc h hv) (docsEdit_updateDoc h hv)
  | deleteDoc kind id => exact .docEdit id (run_deleteDoc h) (docsEdit_deleteDoc h)
  | createPayment side input =>
    obtain ⟨id, h⟩ := run_void h
    exact .paymentEdit id (run_createPayment h hv)
  | updatePayment side id input => exact .paymentEdit id (run_updatePayment h)
  | deletePayment side id => exact .paymentEdit id (run_deletePayment h)
  | createMovement input =>
    obtain ⟨id, h⟩ := run_void h
    obtain ⟨hm, hk, hold⟩ := run_createMovement h hv
    exact .movementEdit hm (.fewer hk hold)
  | updateMovement id input =>
    obtain ⟨hm, hk, hold⟩ := run_updateMovement h
    exact .movementEdit hm (.fewer hk hold)
  | deleteMovement id =>
    obtain ⟨hm, hk, hold⟩ := run_deleteMovement h
    exact .movementEdit hm (.fewer hk hold)
  | postDoc kind id =>
    obtain ⟨je, h⟩ := run_void h
    obtain ⟨d, c, period, rate, mid, rows, hdc, hs, ht, -, hw, hc, hdb, hpost⟩ := run_postDoc kind.ok h hv
    rw [hdb]
    exact .postDoc kind id (docParty_eq_some.1 hdc).1 hs ht hw rfl rfl rfl hc hpost
  | postPayment side id =>
    obtain ⟨je, h⟩ := run_void h
    obtain ⟨p, period, rate, mid, rows, hp, hs, ht, -, hw, hc, hdb, hpost⟩ := run_postPayment h hv
    rw [hdb]
    exact .postPayment side id hp hs ht hw rfl rfl rfl hc hpost
  | postMovement id account =>
    obtain ⟨je, h⟩ := run_void h
    obtain ⟨m, period, rate, memo, mid, rows, hm, hj, hw, hdb, hpost⟩ := run_postMovement h hv
    rw [hdb]
    exact .postMovement id hm hj hw rfl hpost rfl
  | autoApply side settler id =>
    obtain ⟨shares, h⟩ := run_void h
    obtain ⟨n, hn, rfl, hc, hfree, hfx, hch⟩ := run_autoApply h hv
    exact .autoApply side settler id n hn hc hfree hfx fun a ha => passAll_eq_ok.1 hpass _ (hch a ha)
  | unpostInvoice side id =>
    obtain ⟨rev, h⟩ := run_void h
    obtain ⟨d, e, r, rows, mid, hd, hs, hj, happs, hr, hdb, hpost⟩ := run_unpostDoc h hv
    rw [hdb]
    cases side with
    | sales => exact @Effect.unpostDoc _ _ .salesInvoice id v.db mid d e r rows hd hs hj happs hr rfl hpost
    | purchase => exact @Effect.unpostDoc _ _ .purchaseBill id v.db mid d e r rows hd hs hj happs hr rfl hpost
  | unpostCreditNote side id =>
    obtain ⟨rev, h⟩ := run_void h
    obtain ⟨d, e, r, rows, mid, hd, hs, hj, happs, hr, hdb, hpost⟩ := run_unpostDoc h hv
    rw [hdb]
    cases side with
    | sales => exact @Effect.unpostDoc _ _ .salesCreditNote id v.db mid d e r rows hd hs hj happs hr rfl hpost
    | purchase => exact @Effect.unpostDoc _ _ .purchaseCreditNote id v.db mid d e r rows hd hs hj happs hr rfl hpost
  | unpostPayment side id =>
    obtain ⟨rev, h⟩ := run_void h
    obtain ⟨p, je, mid, hp, hs, hj, hr, hdb⟩ := run_unpostPayment h hv
    rw [hdb]
    exact .unpostPayment hp hs hj hr
  | unpostMovement id =>
    obtain ⟨rev, h⟩ := run_void h
    obtain ⟨m, e, r, rows, mid, hm, hj, hr, hdb, hpost⟩ := run_unpostMovement h hv
    rw [hdb]
    exact .unpostMovement hm hj hr hpost
  | closeFiscalYear id retained =>
    obtain ⟨res, h⟩ := run_void h
    exact run_closeYear_effect h hv
  | reopenFiscalYear id =>
    obtain ⟨rev, h⟩ := run_void h
    exact run_reopenYear_effect h hv
  | confirmOrder side id => exact .docEdit id (run_confirm h) (docsEdit_confirm h)
  | closeOrder side id => exact .docEdit id (run_closeOrder h) (docsEdit_closeOrder h)
  | cancelOrder side id => exact .docEdit id (run_cancel h) (docsEdit_cancel h)
  | fromOrder side id input =>
    obtain ⟨docId, h⟩ := run_void h
    exact .docEdit docId (run_fromOrder h hv) (docsEdit_fromOrder h hv hpass)
  | receive id input =>
    obtain ⟨ids, h⟩ := run_void h
    obtain ⟨hm, hk⟩ := run_receive h hv
    exact .movementEdit hm hk
  | ship id input =>
    obtain ⟨ids, h⟩ := run_void h
    obtain ⟨hm, hk⟩ := run_ship h hv
    exact .movementEdit hm hk
  | createStatement input => exact outside (allOutside_void (allOutside_createStatement _))
  | updateStatement id input => exact outside (allOutside_updateStatement _ _)
  | deleteStatement id => exact outside (allOutside_deleteStatement _)
  | addLines statement lines => exact outside (allOutside_addLines _ _)
  | deleteLine id => exact outside (allOutside_deleteLine _)
  | matchLine id line => exact outside (allOutside_matchLine _ _)
  | unmatchLine id => exact outside (allOutside_unmatchLine _)
  | autoMatch statement => exact outside (allOutside_void (allOutside_autoMatch _))
  | reconcile id => exact outside (allOutside_reconcile _)
  | reopenStatement id => exact outside (allOutside_reopen _)
  | createAccount input => exact outside (allOutside_void (allOutside_createAccount _))
  | updateAccount id input => exact outside (allOutside_updateAccount _ _)
  | createParty side account => exact outside (allOutside_void (allOutside_createParty _ _))
  | updateParty side id account => exact outside (allOutside_updateParty _ _ _)
  | createProduct input => exact outside (allOutside_void (allOutside_createProduct _))
  | updateProduct id input => exact outside (allOutside_updateProduct _ _)
  | createTaxCode code account => exact outside (allOutside_createTaxCode _ _)
  | updateTaxCode code account => exact outside (allOutside_updateTaxCode _ _)
  | createWarehouse => exact outside (allOutside_void allOutside_createWarehouse)
  | updateSettings input => exact outside (allOutside_updateSettings _)
  | createExchangeRate currency date rate => exact outside (allOutside_createExchangeRate _ _ _)
  | updateExchangeRate currency date rate => exact outside (allOutside_updateExchangeRate _ _ _)
  | deleteExchangeRate currency date => exact outside (allOutside_deleteExchangeRate _ _)
  | createFiscalYear input => exact outside (allOutside_void (allOutside_createFiscalYear _))
  | updateFiscalYear id input => exact outside (allOutside_updateFiscalYear _ _)
  | createPeriod input => exact outside (allOutside_void (allOutside_createPeriod _))
  | updatePeriod id input => exact outside (allOutside_updatePeriod _ _)
