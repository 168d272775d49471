import Tadmor.Proof.Ownership

/-!
# Header, lines and entry agree

The totals of a document are the sums of its lines, the entry of a posted one has its date, its currency and its
total on the control line, and only its own unpost changes it.
-/

/-! ### Totals -/

theorem DB.TotalsOk.congr {db db' : DB} {d d' : Doc} (h : db.TotalsOk d) (hid : d'.id = d.id)
    (hlines : db'.linesOfDoc d.id = db.linesOfDoc d.id) (hs : d'.subtotal = d.subtotal) (ht : d'.taxTotal = d.taxTotal)
    (htotal : d'.total = d.total) : db'.TotalsOk d' := by
  unfold DB.TotalsOk
  rw [hid, hlines, hs, ht, htotal]
  exact h

theorem DB.DocsOk.of_same {db db' : DB} (h : db.DocsOk) (hd : db'.docs = db.docs) (hl : db'.docLines = db.docLines) :
    db'.DocsOk := by
  refine ⟨hd ▸ hl ▸ h.lines, fun d hm => ?_, hd ▸ hl ▸ h.ordered⟩
  exact (h.totals d (hd ▸ hm)).congr rfl (by unfold DB.linesOfDoc; rw [hl]) rfl rfl rfl

/-- A change of one document that leaves its kind and its totals. -/
theorem DB.DocsOk.update {db db' : DB} (h : db.DocsOk) {id : ℕ} {f : Doc → Doc} (hf : ∀ d, (f d).id = d.id)
    (hk : ∀ d, (f d).kind = d.kind) (hd : db'.docs = db.docs.update [id] f hf) (hl : db'.docLines = db.docLines)
    (hs : ∀ d, (f d).subtotal = d.subtotal ∧ (f d).taxTotal = d.taxTotal ∧ (f d).total = d.total) : db'.DocsOk := by
  have hlines : ∀ k, db'.linesOfDoc k = db.linesOfDoc k := fun k => by
    unfold DB.linesOfDoc
    rw [hl]
  refine ⟨fun l hm => ?_, fun d hm => ?_, fun l hm d hd' hid hord => ?_⟩
  · rw [hl] at hm
    obtain ⟨d, hdm, hdl⟩ := h.lines l hm
    obtain ⟨d', hd', hkey⟩ := Table.exists_mem_update hf [id] hdm
    exact ⟨d', hd ▸ hd', hkey.trans hdl⟩
  · rw [hd, Table.mem_update hf] at hm
    obtain ⟨d₀, hd₀, rfl⟩ := hm
    split
    · exact (h.totals d₀ hd₀).congr (hf d₀) (hlines _) (hs d₀).1 (hs d₀).2.1 (hs d₀).2.2
    · exact (h.totals d₀ hd₀).congr rfl (hlines _) rfl rfl rfl
  · rw [hl] at hm
    rw [hd, Table.mem_update hf] at hd'
    obtain ⟨d₀, hd₀, rfl⟩ := hd'
    refine h.ordered l hm d₀ hd₀ ?_ ?_
    · split at hid
      · exact (hf d₀).symm.trans hid
      · exact hid
    · split at hord
      · exact hk d₀ ▸ hord
      · exact hord

theorem Effect.docsOk {lo : ℕ} {op : Op} {db db' : DB} (h : Effect lo op db db') (ho : db.DocsOk) : db'.DocsOk := by
  cases h with
  | outside h => exact ho.of_same h.docs h.docLines
  | docEdit id h => exact h.totals ho
  | paymentEdit id h => exact ho.of_same (by rw [h.eq]) (by rw [h.eq])
  | movementEdit h => exact ho.of_same (by rw [h.eq]) (by rw [h.eq])
  | postDoc kind id hd hs ht hw =>
    exact ho.update (by intro; rfl) (by intro; rfl) rfl (by rw [hw.eq]) fun _ => ⟨rfl, rfl, rfl⟩
  | postPayment side id hp hs ht hw => exact ho.of_same (by rw [hw.eq]) (by rw [hw.eq])
  | postMovement id hm hj hw => exact ho.of_same (by rw [hw.eq]) (by rw [hw.eq])
  | autoApply side settler id n hn hc hfree hfx hch => exact ho.of_same (by rw [hfx.eq]) (by rw [hfx.eq])
  | unpostDoc hd hs hj happs hr =>
    exact ho.update (by intro; rfl) (by intro; rfl) rfl (by rw [hr.wrote.eq]) fun _ => ⟨rfl, rfl, rfl⟩
  | unpostPayment hp hs hj hr => exact ho.of_same (by rw [hr.eq]) (by rw [hr.eq])
  | unpostMovement hm hj hr => exact ho.of_same (by rw [hr.wrote.eq]) (by rw [hr.wrote.eq])
  | closeEmpty id hopen h => exact ho.of_same (by rw [h.eq]) (by rw [h.eq])
  | closeYear id hopen hw he h => exact ho.of_same (by rw [h.eq, hw.eq]) (by rw [h.eq, hw.eq])
  | reopenYear id hc hmid hlink hr => exact ho.of_same (by rw [hr.wrote.eq, hmid]) (by rw [hr.wrote.eq, hmid])

theorem Reachable.docsOk {s : Store DB} (h : Reachable s) : s.db.DocsOk := by
  refine h.of_effects ⟨fun l hl => ?_, fun d hd => ?_, fun l hl => ?_⟩ fun _ _ _ _ hi he => he.docsOk hi
  · exact absurd hl (Table.not_mem_empty l)
  · exact absurd hd (Table.not_mem_empty d)
  · exact absurd hl (Table.not_mem_empty l)

/-! ### The frame of a posted document -/

/-- `op` is the unpost of the document `d`. -/
def Op.Unposts (op : Op) (d : Doc) : Prop := ∃ kind : PostedKind, d.kind = kind.spec.kind ∧ op = kind.unpost d.id

def Op.UnpostsPayment (op : Op) (p : Payment) : Prop := op = .unpostPayment p.side p.id

/-- Only its own unpost changes a posted document or its lines. -/
theorem Effect.doc_frame {lo : ℕ} {op : Op} {db db' : DB} (h : Effect lo op db db') {d : Doc} (hd : d ∈ db.docs)
    (hs : d.status = .posted) (hop : ¬op.Unposts d) : d ∈ db'.docs ∧ db'.linesOfDoc d.id = db.linesOfDoc d.id := by
  have hf : db.docs.find? d.id = some d := Table.find?_key hd
  have same : db'.docs = db.docs → db'.docLines = db.docLines →
      d ∈ db'.docs ∧ db'.linesOfDoc d.id = db.linesOfDoc d.id := fun h₁ h₂ => by
    unfold DB.linesOfDoc
    rw [h₁, h₂]
    exact ⟨hd, rfl⟩
  have update : ∀ {id : ℕ} {f : Doc → Doc} (hf : ∀ d, (f d).id = d.id), d.id ≠ id →
      d ∈ db.docs.update [id] f hf := fun {id f} hf' hne =>
    Table.mem_of_find? ((Table.find?_update_of_notMem hf' (by simpa using hne)).trans hf)
  cases h with
  | outside h => exact same h.docs h.docLines
  | docEdit id h =>
    have hne : d.id ≠ id := fun e => h.old d (e ▸ hf) hs
    exact ⟨Table.mem_of_find? ((h.others _ hne).trans hf), h.otherLines _ hne⟩
  | paymentEdit id h => exact same (by rw [h.eq]) (by rw [h.eq])
  | movementEdit h => exact same (by rw [h.eq]) (by rw [h.eq])
  | postDoc kind id hd' hs' ht hw =>
    refine ⟨update (by intro; rfl) fun e => ?_, by unfold DB.linesOfDoc; rw [hw.eq]⟩
    have := Option.some.inj (hf.symm.trans (e ▸ (docOf_eq_some.1 hd').1))
    rw [this, hs'] at hs
    cases hs
  | postPayment side id hp hs' ht hw => exact same (by rw [hw.eq]) (by rw [hw.eq])
  | postMovement id hm hj hw => exact same (by rw [hw.eq]) (by rw [hw.eq])
  | autoApply side settler id n hn hc hfree hfx hch => exact same (by rw [hfx.eq]) (by rw [hfx.eq])
  | @unpostDoc op kind id db mid d' e r rows hd' hs' hj happs hr hop' =>
    refine ⟨update (by intro; rfl) fun e => hop ⟨kind, ?_, e ▸ hop'⟩, by unfold DB.linesOfDoc; rw [hr.wrote.eq]⟩
    obtain ⟨hf', hk⟩ := docOf_eq_some.1 hd'
    rwa [Option.some.inj (hf.symm.trans (e ▸ hf'))]
  | unpostPayment hp hs hj hr => exact same (by rw [hr.eq]) (by rw [hr.eq])
  | unpostMovement hm hj hr => exact same (by rw [hr.wrote.eq]) (by rw [hr.wrote.eq])
  | closeEmpty id hopen h => exact same (by rw [h.eq]) (by rw [h.eq])
  | closeYear id hopen hw he h => exact same (by rw [h.eq, hw.eq]) (by rw [h.eq, hw.eq])
  | reopenYear id hc hmid hlink hr => exact same (by rw [hr.wrote.eq, hmid]) (by rw [hr.wrote.eq, hmid])

theorem Effect.payment_frame {lo : ℕ} {op : Op} {db db' : DB} (h : Effect lo op db db') {p : Payment}
    (hp : p ∈ db.payments) (hs : p.status = .posted) (hop : ¬op.UnpostsPayment p) : p ∈ db'.payments := by
  have hf : db.payments.find? p.id = some p := Table.find?_key hp
  have same : db'.payments = db.payments → p ∈ db'.payments := fun h => by rwa [h]
  have update : ∀ {id : ℕ} {f : Payment → Payment} (hf : ∀ p, (f p).id = p.id), p.id ≠ id →
      p ∈ db.payments.update [id] f hf := fun {id f} hf' hne =>
    Table.mem_of_find? ((Table.find?_update_of_notMem hf' (by simpa using hne)).trans hf)
  cases h with
  | outside h => exact same h.payments
  | docEdit id h => exact same (by rw [h.eq])
  | paymentEdit id h =>
    have hne : p.id ≠ id := fun e => h.old p (e ▸ hf) hs
    exact Table.mem_of_find? ((h.others _ hne).trans hf)
  | movementEdit h => exact same (by rw [h.eq])
  | postDoc kind id hd' hs' ht hw => exact same (by rw [hw.eq])
  | postPayment side id hp' hs' ht hw =>
    refine update (by intro; rfl) fun e => ?_
    have := Option.some.inj (hf.symm.trans (e ▸ (paymentOf_eq_some.1 hp').1))
    rw [this, hs'] at hs
    cases hs
  | postMovement id hm hj hw => exact same (by rw [hw.eq])
  | autoApply side settler id n hn hc hfree hfx hch => exact same (by rw [hfx.eq])
  | unpostDoc hd' hs' hj happs hr => exact same (by rw [hr.wrote.eq])
  | @unpostPayment side id je db mid p' hp' hs' hj hr =>
    refine update (by intro; rfl) fun e => hop ?_
    obtain ⟨hf', hk⟩ := paymentOf_eq_some.1 hp'
    have hpp := Option.some.inj (hf.symm.trans (e ▸ hf'))
    rw [Op.UnpostsPayment, e, hpp, hk]
  | unpostMovement hm hj hr => exact same (by rw [hr.wrote.eq])
  | closeEmpty id hopen h => exact same (by rw [h.eq])
  | closeYear id hopen hw he h => exact same (by rw [h.eq, hw.eq])
  | reopenYear id hc hmid hlink hr => exact same (by rw [hr.wrote.eq, hmid])

/-! ### Entries -/

/-- The posting table: invoices and supplier credits debit the control account, bills and credit notes credit it. -/
def Doc.controlDebit (d : Doc) : ℤ :=
  match d.kind with
  | .salesInvoice => d.total
  | .purchaseCreditNote => d.total
  | _ => 0

def Doc.controlCredit (d : Doc) : ℤ :=
  match d.kind with
  | .purchaseBill => d.total
  | .salesCreditNote => d.total
  | _ => 0

/-- The entry `je` has this date and currency, and one control line with these amounts. -/
def DB.EntryIs (db : DB) (je : ℕ) (date : Date) (currency : String) (side : Side) (debit credit : ℤ) : Prop :=
  ∃ e ∈ db.entries, e.id = je ∧ e.entryDate = date ∧ e.currencyCode = currency ∧
    HasControl side (db.linesOf je) debit credit

/-- The entry that a document links is the one the posting table asks for. -/
def DB.DocEntryOk (db : DB) (d : Doc) : Prop := ∀ je, d.journalEntryId = some je →
  db.EntryIs je d.date d.currencyCode d.kind.side d.controlDebit d.controlCredit

def DB.PaymentEntryOk (db : DB) (p : Payment) : Prop := ∀ je, p.journalEntryId = some je →
  db.EntryIs je p.date p.currencyCode p.side p.controlDebit p.controlCredit

structure EntriesOk (db : DB) : Prop where
  docs : ∀ d ∈ db.docs, d.status = .posted → db.DocEntryOk d
  payments : ∀ p ∈ db.payments, p.status = .posted → db.PaymentEntryOk p

theorem Grown.entryIs {db db' : DB} (h : Grown db db') {je : ℕ} {date : Date} {currency : String} {side : Side}
    {debit credit : ℤ} (he : db.EntryIs je date currency side debit credit) :
    db'.EntryIs je date currency side debit credit := by
  obtain ⟨e, hm, rfl, hdate, hcur, hc⟩ := he
  exact ⟨e, h.mem hm, rfl, hdate, hcur, by rwa [h.linesOf hm]⟩

/-- The journal grows, and every posted document and payment was there before or has its entry. -/
theorem EntriesOk.grow {db db' : DB} (h : EntriesOk db) (hg : Grown db db')
    (hd : ∀ d ∈ db'.docs, d.status = .posted → d ∈ db.docs ∨ db'.DocEntryOk d)
    (hp : ∀ p ∈ db'.payments, p.status = .posted → p ∈ db.payments ∨ db'.PaymentEntryOk p) : EntriesOk db' := by
  refine ⟨fun d hm hs je hj => ?_, fun p hm hs je hj => ?_⟩
  · rcases hd d hm hs with hm | hnew
    · exact hg.entryIs (h.docs d hm hs je hj)
    · exact hnew je hj
  · rcases hp p hm hs with hm | hnew
    · exact hg.entryIs (h.payments p hm hs je hj)
    · exact hnew je hj

theorem PostedKind.control_eq {kind : PostedKind} {d : Doc} (hk : d.kind = kind.spec.kind) :
    (if kind.spec.creditsDetails then d.total else 0) = d.controlDebit ∧
      (if kind.spec.creditsDetails then 0 else d.total) = d.controlCredit := by
  unfold Doc.controlDebit Doc.controlCredit
  rw [hk]
  cases kind <;> exact ⟨rfl, rfl⟩

theorem Effect.entriesOk {lo : ℕ} {op : Op} {db db' : DB} (h : Effect lo op db db') (hj : JournalOk db)
    (ho : EntriesOk db) : EntriesOk db' := by
  have hg := h.journaled.grown
  have docs_same : db'.docs = db.docs → ∀ d ∈ db'.docs, d.status = .posted → d ∈ db.docs ∨ db'.DocEntryOk d :=
    fun e d hm _ => .inl (e ▸ hm)
  have payments_same : db'.payments = db.payments → ∀ p ∈ db'.payments, p.status = .posted →
      p ∈ db.payments ∨ db'.PaymentEntryOk p :=
    fun e p hm _ => .inl (e ▸ hm)
  cases h with
  | outside h => exact ho.grow hg (docs_same h.docs) (payments_same h.payments)
  | docEdit id h =>
    refine ho.grow hg (fun d hm hs => .inl ?_) (payments_same (by rw [h.eq]))
    have hf : _ = some d := Table.find?_key hm
    have hne : d.id ≠ id := fun e => h.new d (e ▸ hf) hs
    exact Table.mem_of_find? ((h.others _ hne).symm.trans hf)
  | paymentEdit id h =>
    refine ho.grow hg (docs_same (by rw [h.eq])) fun p hm hs => .inl ?_
    have hf : _ = some p := Table.find?_key hm
    have hne : p.id ≠ id := fun e => h.new p (e ▸ hf) hs
    exact Table.mem_of_find? ((h.others _ hne).symm.trans hf)
  | movementEdit h => exact ho.grow hg (docs_same (by rw [h.eq])) (payments_same (by rw [h.eq]))
  | @postDoc db mid kind id d e rows hd hs ht hw he hdate hcur hc =>
    refine ho.grow hg (fun x hm hx => ?_) (payments_same (by rw [hw.eq]))
    obtain ⟨hf, hk⟩ := docOf_eq_some.1 hd
    rcases (Table.mem_update_singleton (by intro; rfl) hf).1 hm with rfl | ⟨-, hm⟩
    · right
      rintro je hje
      obtain rfl : e.id = je := Option.some.inj hje
      refine ⟨e, hw.mem_entries.2 (.inr rfl), rfl, hdate, hcur, ?_⟩
      have hlines := hw.linesOf hj
      obtain ⟨h₁, h₂⟩ := PostedKind.control_eq hk
      rw [h₁, h₂, ← hk] at hc
      exact hlines.symm ▸ hc
    · exact .inl hm
  | @postPayment db mid side id p e rows hp hs ht hw he hdate hcur hc =>
    refine ho.grow hg (docs_same (by rw [hw.eq])) fun x hm hx => ?_
    obtain ⟨hf, hk⟩ := paymentOf_eq_some.1 hp
    rcases (Table.mem_update_singleton (by intro; rfl) hf).1 hm with rfl | ⟨-, hm⟩
    · right
      rintro je hje
      obtain rfl : e.id = je := Option.some.inj hje
      refine ⟨e, hw.mem_entries.2 (.inr rfl), rfl, hdate, hcur, ?_⟩
      have hlines := hw.linesOf hj
      rw [← hk] at hc
      exact hlines.symm ▸ hc
    · exact .inl hm
  | postMovement id hm hj hw => exact ho.grow hg (docs_same (by rw [hw.eq])) (payments_same (by rw [hw.eq]))
  | autoApply side settler id n hn hc hfree hfx hch =>
    exact ho.grow hg (docs_same (by rw [hfx.eq])) (payments_same (by rw [hfx.eq]))
  | unpostDoc hd hs hj happs hr =>
    refine ho.grow hg (fun x hm hx => .inl ?_) (payments_same (by rw [hr.wrote.eq]))
    rcases (Table.mem_update_singleton (by intro; rfl) (docOf_eq_some.1 hd).1).1 hm with rfl | ⟨-, hm⟩
    · cases hx
    · exact hm
  | unpostPayment hp hs hj hr =>
    refine ho.grow hg (docs_same (by rw [hr.eq])) fun x hm hx => .inl ?_
    rcases (Table.mem_update_singleton (by intro; rfl) (paymentOf_eq_some.1 hp).1).1 hm with rfl | ⟨-, hm⟩
    · cases hx
    · exact hm
  | unpostMovement hm hj hr =>
    exact ho.grow hg (docs_same (by rw [hr.wrote.eq])) (payments_same (by rw [hr.wrote.eq]))
  | closeEmpty id hopen h => exact ho.grow hg (docs_same (by rw [h.eq])) (payments_same (by rw [h.eq]))
  | closeYear id hopen hw he h =>
    exact ho.grow hg (docs_same (by rw [h.eq, hw.eq])) (payments_same (by rw [h.eq, hw.eq]))
  | reopenYear id hc hmid hlink hr =>
    exact ho.grow hg (docs_same (by rw [hr.wrote.eq, hmid])) (payments_same (by rw [hr.wrote.eq, hmid]))

theorem Reachable.entriesOk {s : Store DB} (h : Reachable s) : EntriesOk s.db := by
  refine h.of_effects ⟨fun d hd => ?_, fun p hp => ?_⟩ fun _ _ _ hr hi he => he.entriesOk hr.journalOk hi
  · exact absurd hd (Table.not_mem_empty d)
  · exact absurd hp (Table.not_mem_empty p)

/-- Header, lines and entry agree, for every document and payment of the state. -/
structure DB.Agrees (db : DB) : Prop where
  totals : ∀ d ∈ db.docs, d.subtotal = ((db.linesOfDoc d.id).map DocLine.lineSubtotal).sum ∧
    d.taxTotal = ((db.linesOfDoc d.id).map DocLine.taxAmount).sum ∧
    d.total = ((db.linesOfDoc d.id).map DocLine.lineTotal).sum
  docs : ∀ d ∈ db.docs, d.status = .posted → ∃ je, d.journalEntryId = some je ∧
    db.EntryIs je d.date d.currencyCode d.kind.side d.controlDebit d.controlCredit
  payments : ∀ p ∈ db.payments, p.status = .posted → ∃ je, p.journalEntryId = some je ∧
    db.EntryIs je p.date p.currencyCode p.side p.controlDebit p.controlCredit

theorem Reachable.agrees {s : Store DB} (h : Reachable s) : s.db.Agrees := by
  refine ⟨h.docsOk.totals, fun d hd hs => ?_, fun p hp hs => ?_⟩
  · obtain ⟨je, hj⟩ := Option.isSome_iff_exists.1 ((h.linkOk.docs _ d (Table.find?_key hd)).1 hs)
    exact ⟨je, hj, h.entriesOk.docs d hd hs je hj⟩
  · obtain ⟨je, hj⟩ := Option.isSome_iff_exists.1 ((h.linkOk.payments _ p (Table.find?_key hp)).1 hs)
    exact ⟨je, hj, h.entriesOk.payments p hp hs je hj⟩

/-- Header, lines and entry agree in a reachable state, and a posted document stays as it is until its own unpost. -/
theorem header_lines_entry_agree {s : Store DB} (h : Reachable s) :
    s.db.Agrees ∧ ∀ op gaps s', (transaction op).commit gaps s = .ok ((), s') →
      (∀ d ∈ s.db.docs, d.status = .posted → ¬op.Unposts d →
        d ∈ s'.db.docs ∧ s'.db.linesOfDoc d.id = s.db.linesOfDoc d.id) ∧
      ∀ p ∈ s.db.payments, p.status = .posted → ¬op.UnpostsPayment p → p ∈ s'.db.payments := by
  refine ⟨h.agrees, fun op gaps s' hc => ?_⟩
  have heff := (commit_effect hc h.fresh).1
  exact ⟨fun d hd hs hop => heff.doc_frame hd hs hop, fun p hp hs hop => heff.payment_frame hp hs hop⟩

/-- A posted invoice and a posted payment. -/
theorem header_lines_entry_agree_posted : ∃ s : Store DB,
    (s.db.docs.rows.map (·.status), s.db.payments.rows.map (·.status)) = ([.posted], [.posted]) ∧
    s.db.Agrees ∧ ∀ op gaps s', (transaction op).commit gaps s = .ok ((), s') →
      (∀ d ∈ s.db.docs, d.status = .posted → ¬op.Unposts d →
        d ∈ s'.db.docs ∧ s'.db.linesOfDoc d.id = s.db.linesOfDoc d.id) ∧
      ∀ p ∈ s.db.payments, p.status = .posted → ¬op.UnpostsPayment p → p ∈ s'.db.payments := by
  obtain ⟨s, hs, hp⟩ := exists_reachable
    (opening ++ [.postDoc .salesInvoice 15, .createPayment .sales (paymentInput 60), .postPayment .sales 21])
    (p := fun s => (s.db.docs.rows.map (·.status), s.db.payments.rows.map (·.status)) = ([.posted], [.posted]))
    (by decide +kernel)
  exact ⟨s, of_decide_eq_true hp, header_lines_entry_agree hs⟩
