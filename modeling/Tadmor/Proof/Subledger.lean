import Tadmor.Proof.Agreement
import Tadmor.Proof.Balances
import Mathlib.Algebra.BigOperators.Ring.List
import Mathlib.Tactic.Ring

/-!
# The subledger ties to the ledger

Both sides are the totals of a party's posted documents less what it has paid: on the ledger by the control lines, on
the views because every application counts once for the document and once for the settler.
-/

section party

variable {db : DB} {side : Side} {party : ℕ} {currency : String}

theorem mem_partyDocs {d : Doc} : d ∈ db.partyDocs side party currency ↔
    d ∈ db.docs ∧ d.kind.side = side ∧ d.kind.isOrder = false ∧ d.partyId = party ∧ d.currencyCode = currency := by
  simp [DB.partyDocs, and_assoc]

theorem mem_partyPayments {p : Payment} : p ∈ db.partyPayments side party currency ↔
    p ∈ db.payments ∧ p.side = side ∧ p.partyId = party ∧ p.currencyCode = currency := by
  simp [DB.partyPayments, and_assoc]

/-! ### Applications, counted at both ends -/

/-- Whether one of the documents is the one the application settles. -/
theorem pairwise_docId {l : List Doc} (hl : l.Sublist db.docs.rows) (as : List Application) :
    l.Pairwise fun d e => ∀ a ∈ as, (decide (a.docId = d.id) && decide (a.docId = e.id)) = false := by
  have hn : (l.map (·.id)).Nodup := db.docs.nodup.sublist (hl.map _)
  refine (List.pairwise_map.1 hn).imp fun hne a _ => ?_
  simpa using fun h₁ h₂ => hne (h₁.symm.trans h₂)

theorem sum_amountSettled {l : List Doc} (hl : l.Sublist db.docs.rows) :
    (l.map fun d => db.amountSettled d.id).sum =
      ((db.applications.rows.filter fun a => l.any fun d => a.docId = d.id).map (·.amountApplied)).sum :=
  (sum_filter_any (pairwise_docId hl _)).symm

theorem sum_amountApplied {α : Type} {key : α → ℕ} {l : List α} (hn : (l.map key).Nodup) (k : SettlerKind) :
    (l.map fun x => db.amountApplied k (key x)).sum =
      ((db.applications.rows.filter fun a => l.any fun x => a.settler = k && a.settlerId = key x).map
        (·.amountApplied)).sum := by
  refine (sum_filter_any ?_).symm
  refine (List.pairwise_map.1 hn).imp fun hne a _ => ?_
  simpa using fun _ h₁ _ h₂ => hne (h₁.symm.trans h₂)

/-- What is applied to the posted invoices of a party comes from its posted payments and credit notes. -/
theorem SettledOk.sum_settled (h : SettledOk db) (side : Side) (party : ℕ) (currency : String) :
    (((db.partyDocs side party currency).filter fun d => d.kind = side.invoice && d.status = .posted).map
        fun d => db.amountSettled d.id).sum =
      (((db.partyPayments side party currency).filter fun p => p.status = .posted).map
        fun p => db.amountApplied .payment p.id).sum +
      (((db.partyDocs side party currency).filter fun d => d.kind = side.creditNote && d.status = .posted).map
        fun d => db.amountApplied .creditNote d.id).sum := by
  have hdocs : ∀ p : Doc → Bool, ((db.partyDocs side party currency).filter p).Sublist db.docs.rows := fun p =>
    List.filter_sublist.trans List.filter_sublist
  have hpays : ∀ p : Payment → Bool, ((db.partyPayments side party currency).filter p).Sublist db.payments.rows :=
    fun p => List.filter_sublist.trans List.filter_sublist
  have hpn : ∀ p, (((db.partyPayments side party currency).filter p).map Payment.id).Nodup := fun p =>
    db.payments.nodup.sublist ((hpays p).map _)
  have hdn : ∀ p, (((db.partyDocs side party currency).filter p).map Doc.id).Nodup := fun p =>
    db.docs.nodup.sublist ((hdocs p).map _)
  rw [sum_amountSettled (hdocs _), sum_amountApplied (hpn _), sum_amountApplied (hdn _)]
  refine sum_filter_or fun a ha => ?_
  obtain ⟨s, d, hsd⟩ := h.settles a ha
  obtain ⟨hfd, hkd⟩ := docOf_eq_some.1 hsd.doc
  have hinv : ((db.partyDocs side party currency).filter fun d => d.kind = side.invoice && d.status = .posted).any
      (fun d => a.docId = d.id) = decide (a.side = side ∧ d.partyId = party ∧ d.currencyCode = currency) := by
    rw [Bool.eq_iff_iff, List.any_eq_true, decide_eq_true_iff]
    constructor
    · rintro ⟨d', hd', hid⟩
      obtain ⟨hd', hp'⟩ := List.mem_filter.1 hd'
      obtain ⟨hm, -, -, hparty, hcur⟩ := mem_partyDocs.1 hd'
      simp only [Bool.and_eq_true, decide_eq_true_eq] at hp' hid
      obtain rfl : d = d' := Option.some.inj (hfd.symm.trans (hid ▸ Table.find?_key hm))
      exact ⟨side_of_invoice (hkd.symm.trans hp'.1), hparty, hcur⟩
    · rintro ⟨rfl, rfl, rfl⟩
      obtain ⟨hm, hid⟩ := Table.find?_eq_some.1 hfd
      refine ⟨d, List.mem_filter.2 ⟨mem_partyDocs.2 ⟨hm, ?_, ?_, rfl, rfl⟩, by simp [hkd, hsd.docPosted]⟩,
        decide_eq_true hid.symm⟩
      · rw [hkd]
        cases a.side <;> rfl
      · rw [hkd]
        cases a.side <;> rfl
  rw [hinv]
  cases hk : a.settler with
  | payment =>
    have hs := hsd.settler
    rw [hk] at hs
    obtain ⟨p, hp, rfl⟩ := settlerOf_payment.1 hs
    obtain ⟨hfp, hsp⟩ := paymentOf_eq_some.1 hp
    have hpay : ((db.partyPayments side party currency).filter fun p => p.status = .posted).any
        (fun p => decide (SettlerKind.payment = .payment) && decide (a.settlerId = p.id)) =
          decide (a.side = side ∧ d.partyId = party ∧ d.currencyCode = currency) := by
      rw [Bool.eq_iff_iff, List.any_eq_true, decide_eq_true_iff, ← hsd.party, ← hsd.currency, ← hsp]
      constructor
      · rintro ⟨p', hp', hid⟩
        obtain ⟨hp', -⟩ := List.mem_filter.1 hp'
        obtain ⟨hm, hrest⟩ := mem_partyPayments.1 hp'
        simp only [decide_true, Bool.true_and, decide_eq_true_eq] at hid
        obtain rfl : p = p' := Option.some.inj (hfp.symm.trans (hid ▸ Table.find?_key hm))
        exact hrest
      · rintro hrest
        obtain ⟨hm, hid⟩ := Table.find?_eq_some.1 hfp
        have hpost : p.status = .posted := hsd.settlerPosted
        exact ⟨p, List.mem_filter.2 ⟨mem_partyPayments.2 ⟨hm, hrest⟩, by simp [hpost]⟩, by simp [show a.settlerId = p.id from hid.symm]⟩
    rw [hpay]
    simp
  | creditNote =>
    have hs := hsd.settler
    rw [hk] at hs
    obtain ⟨n, hn, rfl⟩ := settlerOf_creditNote.1 hs
    obtain ⟨hfn, hkn⟩ := docOf_eq_some.1 hn
    have hnote : ((db.partyDocs side party currency).filter fun d => d.kind = side.creditNote && d.status = .posted).any
        (fun d => decide (SettlerKind.creditNote = .creditNote) && decide (a.settlerId = d.id)) =
          decide (a.side = side ∧ d.partyId = party ∧ d.currencyCode = currency) := by
      rw [Bool.eq_iff_iff, List.any_eq_true, decide_eq_true_iff, ← hsd.party, ← hsd.currency]
      constructor
      · rintro ⟨n', hn', hid⟩
        obtain ⟨hn', hk'⟩ := List.mem_filter.1 hn'
        obtain ⟨hm, -, -, hrest⟩ := mem_partyDocs.1 hn'
        simp only [decide_true, Bool.true_and, Bool.and_eq_true, decide_eq_true_eq] at hid hk'
        obtain rfl : n = n' := Option.some.inj (hfn.symm.trans (hid ▸ Table.find?_key hm))
        exact ⟨side_of_creditNote (hkn.symm.trans hk'.1), hrest⟩
      · rintro ⟨rfl, hrest⟩
        obtain ⟨hm, hid⟩ := Table.find?_eq_some.1 hfn
        have hpost : n.status = .posted := hsd.settlerPosted
        refine ⟨n, List.mem_filter.2 ⟨mem_partyDocs.2 ⟨hm, ?_, ?_, hrest⟩, by simp [hkn, hpost]⟩,
          by simp [show a.settlerId = n.id from hid.symm]⟩
        · rw [hkn]
          cases a.side <;> rfl
        · rw [hkn]
          cases a.side <;> rfl
    rw [hnote]
    simp

/-! ### The views -/

/-- What the views report is the totals of the posted documents less those of the posted payments. -/
theorem subledger_eq (h : SettledOk db) : db.subledger side party currency =
    (((db.partyDocs side party currency).filter fun d => d.kind = side.invoice && d.status = .posted).map
        fun d => d.total).sum
      - (((db.partyPayments side party currency).filter fun p => p.status = .posted).map fun p => p.amount).sum
      - (((db.partyDocs side party currency).filter fun d => d.kind = side.creditNote && d.status = .posted).map
        fun d => d.total).sum := by
  have hbal : ((db.partyDocs side party currency).filter fun d => d.kind = side.invoice && d.status = .posted).map
      (fun d => (db.invoiceBalance side d).balance) =
        ((db.partyDocs side party currency).filter fun d => d.kind = side.invoice && d.status = .posted).map
          fun d => d.total - db.amountSettled d.id := by
    refine List.map_congr_left fun d hd => ?_
    obtain ⟨hd, hk⟩ := List.mem_filter.1 hd
    simp only [Bool.and_eq_true, decide_eq_true_eq] at hk
    rw [invoiceBalance_balance, h.amountSettled_eq (mem_partyDocs.1 hd).1 hk.1]
  have hsum := h.sum_settled side party currency
  unfold DB.subledger
  rw [hbal]
  have hpay := sum_map_sub ((db.partyPayments side party currency).filter fun p => p.status = .posted)
    (fun p => p.amount) fun p => db.amountApplied .payment p.id
  have hnote := sum_map_sub
    ((db.partyDocs side party currency).filter fun d => d.kind = side.creditNote && d.status = .posted)
    (fun d => d.total) fun d => db.amountApplied .creditNote d.id
  have hinv := sum_map_sub
    ((db.partyDocs side party currency).filter fun d => d.kind = side.invoice && d.status = .posted)
    (fun d => d.total) fun d => db.amountSettled d.id
  rw [show db.unapplied = fun p => p.amount - db.amountApplied .payment p.id from rfl]
  simp only [DB.creditNoteBalance]
  omega

/-! ### The ledger -/

/-- The control-account lines of a side. -/
def DB.controlLines (db : DB) (side : Side) : List JournalLine := db.lines.rows.filter fun l => l.memo = side.controlMemo

theorem controlNet_eq (side : Side) (entry : ℕ → Bool) : db.controlNet side entry =
    (((db.controlLines side).filter fun l => entry l.journalEntryId).map fun l => l.debit - l.credit).sum := by
  rw [DB.controlLines, List.filter_filter, DB.controlNet]
  simp only [Bool.and_comm]

theorem controlNet_congr {side : Side} {p q : ℕ → Bool} (h : ∀ l ∈ db.lines, p l.journalEntryId = q l.journalEntryId) :
    db.controlNet side p = db.controlNet side q := by
  unfold DB.controlNet
  rw [List.filter_congr fun l hl => by rw [h l hl]]

/-- What an owner links is neither a reversal nor reversed. -/
theorem isUnreversed_of_link (hb : db.book.Sound) {o : Owner} {je : ℕ} (h : db.link o = some je) :
    db.isUnreversed je = true := by
  obtain ⟨hn, hrev, -⟩ := hb.live_of_link h
  rw [DB.isUnreversed, Bool.and_eq_true]
  constructor
  · obtain ⟨e, he, hre⟩ := Option.map_eq_some_iff.1 hn
    simp [he, hre]
  · rw [List.all_eq_true]
    intro r hr
    have := hrev r.id
    rw [show db.book.entry r.id = _ from reversals_key hr] at this
    simpa using this

theorem link_doc {d : Doc} (hd : d ∈ db.docs) : db.link (.doc d.id) = d.journalEntryId := by
  have hf : db.docs.find? d.id = some d := Table.find?_key hd
  rw [DB.link, hf]
  rfl

theorem link_payment {p : Payment} (hp : p ∈ db.payments) : db.link (.payment p.id) = p.journalEntryId := by
  have hf : db.payments.find? p.id = some p := Table.find?_key hp
  rw [DB.link, hf]
  rfl

/-- No entry has two owners, so the ledger of a party is the sum over its documents and payments. -/
theorem ledger_eq (hb : db.book.Sound) : db.ledger side party currency =
    ((db.partyDocs side party currency).map fun d => db.controlNet side fun je => d.journalEntryId = some je).sum +
      ((db.partyPayments side party currency).map fun p =>
        db.controlNet side fun je => p.journalEntryId = some je).sum := by
  have hdoc : ∀ d ∈ db.partyDocs side party currency, db.link (.doc d.id) = d.journalEntryId := fun d hd =>
    link_doc (mem_partyDocs.1 hd).1
  have hpay : ∀ p ∈ db.partyPayments side party currency, db.link (.payment p.id) = p.journalEntryId := fun p hp =>
    link_payment (mem_partyPayments.1 hp).1
  have hlive : db.ledger side party currency = db.controlNet side (db.isOfParty side party currency) := by
    refine controlNet_congr fun l _ => ?_
    rw [Bool.and_eq_right_iff_imp]
    intro h
    rcases Bool.or_eq_true_iff.1 h with h | h
    · obtain ⟨d, hd, hj⟩ := List.any_eq_true.1 h
      exact isUnreversed_of_link hb ((hdoc d hd).trans (of_decide_eq_true hj))
    · obtain ⟨p, hp, hj⟩ := List.any_eq_true.1 h
      exact isUnreversed_of_link hb ((hpay p hp).trans (of_decide_eq_true hj))
  simp only [hlive, controlNet_eq]
  rw [← sum_filter_any, ← sum_filter_any]
  · refine sum_filter_or fun l _ => ⟨rfl, ?_⟩
    rw [Bool.and_eq_false_iff, or_iff_not_imp_left, Bool.not_eq_false, List.any_eq_true, List.any_eq_false]
    rintro ⟨d, hd, hj⟩ p hp hj'
    have := hb.inj (.payment p.id) (.doc d.id) l.journalEntryId ((hpay p hp).trans (of_decide_eq_true hj'))
      ((hdoc d hd).trans (of_decide_eq_true hj))
    cases this
  · have hn : ((db.partyPayments side party currency).map Payment.id).Nodup :=
      db.payments.nodup.sublist (List.filter_sublist.map _)
    refine (List.pairwise_map.1 hn).imp_of_mem fun hp hq hne l _ => ?_
    rw [Bool.and_eq_false_iff, or_iff_not_imp_left, Bool.not_eq_false, decide_eq_true_iff, decide_eq_false_iff_not]
    intro hj hj'
    exact hne (Owner.payment.inj (hb.inj _ _ l.journalEntryId ((hpay _ hq).trans hj') ((hpay _ hp).trans hj)))
  · have hn : ((db.partyDocs side party currency).map Doc.id).Nodup :=
      db.docs.nodup.sublist (List.filter_sublist.map _)
    refine (List.pairwise_map.1 hn).imp_of_mem fun hp hq hne l _ => ?_
    rw [Bool.and_eq_false_iff, or_iff_not_imp_left, Bool.not_eq_false, decide_eq_true_iff, decide_eq_false_iff_not]
    intro hj hj'
    exact hne (Owner.doc.inj (hb.inj _ _ l.journalEntryId ((hdoc _ hq).trans hj') ((hdoc _ hp).trans hj)))

theorem controlNet_entry (side : Side) (je : ℕ) : (db.controlNet side fun k => k = je) =
    (((db.linesOf je).filter fun l => l.memo = side.controlMemo).map fun l => l.debit - l.credit).sum := by
  rw [DB.linesOf, List.filter_filter, DB.controlNet]

/-- What a posted document or payment contributes to the ledger. -/
theorem controlNet_of_entryIs {je : ℕ} {date : Date} {debit credit : ℤ}
    (h : db.EntryIs je date currency side debit credit) :
    (db.controlNet side fun k => some je = some k) = debit - credit := by
  obtain ⟨e, -, -, -, -, l, hl, rfl, rfl⟩ := h
  have hcongr : (db.controlNet side fun k => some je = some k) = db.controlNet side fun k => k = je :=
    controlNet_congr fun l _ => by simp [eq_comm]
  rw [hcongr, controlNet_entry, hl]
  simp

theorem controlNet_none (side : Side) : (db.controlNet side fun k => none = some k) = 0 :=
  sum_filter_eq_zero fun l _ => by simp

theorem controlNet_doc (hl : LinkOk db) (he : EntriesOk db) {d : Doc} (hd : d ∈ db.partyDocs side party currency) :
    (db.controlNet side fun je => d.journalEntryId = some je) = side.sign *
      ((if d.kind = side.invoice && d.status = .posted then d.total else 0) -
        if d.kind = side.creditNote && d.status = .posted then d.total else 0) := by
  obtain ⟨hm, hside, horder, -⟩ := mem_partyDocs.1 hd
  have hf : db.docs.find? d.id = some d := Table.find?_key hm
  by_cases hs : d.status = .posted
  · obtain ⟨je, hj⟩ := Option.isSome_iff_exists.1 ((hl.docs _ d hf).1 hs)
    have hentry := he.docs d hm hs je hj
    rw [hside] at hentry
    rw [hj, controlNet_of_entryIs hentry]
    subst hside
    unfold Doc.controlDebit Doc.controlCredit
    cases hk : d.kind with
    | salesInvoice => simp [hs, DocKind.side, Side.sign, Side.invoice, Side.creditNote]
    | purchaseBill => simp [hs, DocKind.side, Side.sign, Side.invoice, Side.creditNote]
    | salesCreditNote => simp [hs, DocKind.side, Side.sign, Side.invoice, Side.creditNote]
    | purchaseCreditNote => simp [hs, DocKind.side, Side.sign, Side.invoice, Side.creditNote]
    | salesOrder => simp [hk, DocKind.isOrder] at horder
    | purchaseOrder => simp [hk, DocKind.isOrder] at horder
  · rw [hl.none_of_not_posted hf hs, controlNet_none]
    simp [hs]

theorem controlNet_payment (hl : LinkOk db) (he : EntriesOk db) {p : Payment}
    (hp : p ∈ db.partyPayments side party currency) :
    (db.controlNet side fun je => p.journalEntryId = some je) =
      -side.sign * if p.status = .posted then p.amount else 0 := by
  obtain ⟨hm, hside, -⟩ := mem_partyPayments.1 hp
  have hf : db.payments.find? p.id = some p := Table.find?_key hm
  by_cases hs : p.status = .posted
  · obtain ⟨je, hj⟩ := Option.isSome_iff_exists.1 ((hl.payments _ p hf).1 hs)
    have hentry := he.payments p hm hs je hj
    rw [hside] at hentry
    rw [hj, controlNet_of_entryIs hentry]
    unfold Payment.controlDebit Payment.controlCredit
    rw [hside]
    cases side <;> simp [hs, Side.sign]
  · rw [hl.payment_none hf hs, controlNet_none]
    simp [hs]

theorem ledger_eq_sign_mul (hl : LinkOk db) (hb : db.book.Sound) (he : EntriesOk db) (hset : SettledOk db) :
    db.ledger side party currency = side.sign * db.subledger side party currency := by
  have hdocs : ((db.partyDocs side party currency).map fun d =>
      db.controlNet side fun je => d.journalEntryId = some je).sum = side.sign *
        ((((db.partyDocs side party currency).filter fun d => d.kind = side.invoice && d.status = .posted).map
            fun d => d.total).sum -
          (((db.partyDocs side party currency).filter fun d => d.kind = side.creditNote && d.status = .posted).map
            fun d => d.total).sum) := by
    rw [List.map_congr_left fun d hd => controlNet_doc hl he hd, List.sum_map_mul_left, sum_map_sub, sum_map_filter,
      sum_map_filter]
  have hpays : ((db.partyPayments side party currency).map fun p =>
      db.controlNet side fun je => p.journalEntryId = some je).sum = -side.sign *
        (((db.partyPayments side party currency).filter fun p => p.status = .posted).map fun p => p.amount).sum := by
    rw [List.map_congr_left fun p hp => controlNet_payment hl he hp, List.sum_map_mul_left, sum_map_filter]
    simp
  rw [ledger_eq hb, subledger_eq hset, hdocs, hpays]
  ring

/-! ### Reversed entries -/

theorem sum_mirrors {ls rows : List JournalLine} (h : List.Forall₂ JournalLine.Mirrors ls rows) :
    ((rows.filter fun l => l.memo = side.controlMemo).map fun l => l.debit - l.credit).sum =
      -((ls.filter fun l => l.memo = side.controlMemo).map fun l => l.debit - l.credit).sum := by
  induction h with
  | nil => rfl
  | @cons l m ls rows hm _ ih =>
    rw [List.filter_cons, List.filter_cons, hm.memo]
    split
    · rw [List.map_cons, List.map_cons, List.sum_cons, List.sum_cons, ih, hm.debit, hm.credit]
      ring
    · exact ih

/-- An entry and its reversal add up to zero on the control accounts. -/
theorem controlNet_reversed (hj : JournalOk db) (side : Side) {e r : JournalEntry} (he : e ∈ db.entries)
    (hr : r ∈ db.entries) (hre : r.reversesEntryId = some e.id) :
    (db.controlNet side fun k => k = e.id) + (db.controlNet side fun k => k = r.id) = 0 := by
  obtain ⟨e', he', hid, hm⟩ := hj.mirrored r hr e.id hre
  obtain rfl : e' = e := Table.key_inj he' he hid
  rw [controlNet_entry, controlNet_entry, sum_mirrors hm.lines, add_neg_cancel]

end party

/-- For every party and currency the ledger says what the views say, and reversed entries do not count. -/
theorem subledger_ties {s : Store DB} (h : Reachable s) (side : Side) :
    (∀ party currency, s.db.ledger side party currency = side.sign * s.db.subledger side party currency) ∧
      ∀ e ∈ s.db.entries, ∀ r ∈ s.db.entries, r.reversesEntryId = some e.id →
        (s.db.controlNet side fun k => k = e.id) + (s.db.controlNet side fun k => k = r.id) = 0 :=
  ⟨fun _ _ => ledger_eq_sign_mul h.linkOk h.book_sound h.entriesOk h.settledOk,
    fun _ he _ hr hre => controlNet_reversed h.journalOk side he hr hre⟩

/-- An invoice of 100 dollars and a payment of 60, unposted and posted again, and applied. -/
theorem subledger_ties_partly_paid :
    ∃ s : Store DB, (s.db.entries.rows.length, s.db.ledger .sales 14 "USD") = (4, dollars 40) ∧
      (∀ party currency, s.db.ledger .sales party currency = Side.sales.sign * s.db.subledger .sales party currency) ∧
      ∀ e ∈ s.db.entries, ∀ r ∈ s.db.entries, r.reversesEntryId = some e.id →
        (s.db.controlNet .sales fun k => k = e.id) + (s.db.controlNet .sales fun k => k = r.id) = 0 := by
  obtain ⟨s, hs, hp⟩ := exists_reachable
    (opening ++ [.postDoc .salesInvoice 15, .createPayment .sales (paymentInput 60), .postPayment .sales 21,
      .unpostPayment .sales 21, .postPayment .sales 21, .autoApply .sales .payment 21])
    (p := fun s => (s.db.entries.rows.length, s.db.ledger .sales 14 "USD") = (4, dollars 40)) (by decide +kernel)
  exact ⟨s, of_decide_eq_true hp, subledger_ties hs .sales⟩
