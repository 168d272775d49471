import Tadmor.Proof.Residual

/-!
# A payment that settles a document in full

One payment of exactly the total is applied to an invoice or bill.  The exchange difference converts the total once at
each rate; the control line of the document balances its other lines, which were converted one by one.  The control
account ends at zero in base when these lines convert to as much as the total does.
-/

/-! ### Definitions -/

/-- The payment settles the invoice or bill alone and in full, and `account` is the control account of their entries and
of the exchange difference. -/
structure DB.FullySettles (db : DB) (account : ℕ) (p : Payment) (d : Doc) (a : Application) : Prop where
  doc : d ∈ db.docs
  docPosted : d.status = .posted
  invoice : d.kind = p.side.invoice
  payment : p ∈ db.payments
  paymentPosted : p.status = .posted
  application : a ∈ db.applications
  ends : a.side = p.side ∧ a.settler = .payment ∧ a.settlerId = p.id ∧ a.docId = d.id
  full : p.amount = d.total ∧ a.amountApplied = d.total
  docControl : ∀ l ∈ db.entryLines d.journalEntryId, l.memo = p.side.controlMemo → l.accountId = account
  paymentControl : ∀ l ∈ db.entryLines p.journalEntryId, l.memo = p.side.controlMemo → l.accountId = account
  revaluation : ∀ l ∈ db.entryLines a.fxJournalEntryId, l.memo = revaluationMemo → l.accountId = account

/-- Base debit less base credit on the account. -/
def DB.accountNet (db : DB) (account : ℕ) (je : Option ℕ) : ℤ :=
  (((db.entryLines je).filter fun l => l.accountId = account).map JournalLine.net).sum

/-- What the lines of an entry on other accounts come to in base, each converted on its own. -/
def DB.offset (db : DB) (account : ℕ) (je : Option ℕ) : ℤ :=
  (((db.entryLines je).filter fun l => l.accountId ≠ account).map fun l =>
    toBase (l.credit - l.debit) ((je.map db.entryRate).getD 0)).sum

/-- The difference between `amount` at the rates of the two entries. -/
def DB.rateGap (db : DB) (amount : ℤ) (je je' : Option ℕ) : ℤ :=
  toBase amount ((je.map db.entryRate).getD 0) - toBase amount ((je'.map db.entryRate).getD 0)

/-- What the settlement leaves on the account in base: the conversions of what is on other accounts, and the difference of
the total at the two rates, unless the exchange gain is itself on the account. -/
def DB.settlementGap (db : DB) (account : ℕ) (p : Payment) (d : Doc) (a : Application) : ℤ :=
  db.offset account d.journalEntryId + db.offset account p.journalEntryId +
    if ∃ l ∈ db.entryLines a.fxJournalEntryId, l.memo ≠ revaluationMemo ∧ l.accountId = account then 0
    else p.side.sign * db.rateGap d.total p.journalEntryId d.journalEntryId

/-- The total of the document, converted line by line; the control line apart. -/
def DB.convertedLines (db : DB) (side : Side) (d : Doc) : ℤ :=
  (((db.entryLines d.journalEntryId).filter fun l => l.memo ≠ side.controlMemo).map fun l =>
    toBase (l.credit - l.debit) ((d.journalEntryId.map db.entryRate).getD 0)).sum

/-- The total of the document, converted at once. -/
def DB.convertedTotal (db : DB) (side : Side) (d : Doc) : ℤ :=
  side.sign * toBase d.total ((d.journalEntryId.map db.entryRate).getD 0)

/-- The account carries no line but the control lines. -/
structure DB.OnlyControl (db : DB) (account : ℕ) (p : Payment) (d : Doc) (a : Application) : Prop where
  doc : ∀ l ∈ db.entryLines d.journalEntryId, l.accountId = account → l.memo = p.side.controlMemo
  payment : ∀ l ∈ db.entryLines p.journalEntryId, l.accountId = account → l.memo = p.side.controlMemo
  exchange : ∀ l ∈ db.entryLines a.fxJournalEntryId, l.accountId = account → l.memo = revaluationMemo

/-! ### The entries -/

variable {s : Store DB} {account : ℕ} {p : Payment} {d : Doc} {a : Application}

/-- An entry whose lines off the account are converted. -/
theorem accountNet_eq_offset {db : DB} {e : JournalEntry} (he : e ∈ db.entries) (hs : e.status = .posted)
    (hb : DB.entryBalanced e.id db = .ok ())
    (hconv : ∀ l ∈ db.linesOf e.id, l.accountId ≠ account → l.Converted (db.entryRate e.id)) :
    db.accountNet account (some e.id) = db.offset account (some e.id) := by
  have hzero := (linesOf_balance he hs hb).2
  have hsplit := sum_filter_not (db.linesOf e.id) (fun l => l.accountId = account) JournalLine.net hzero
  have hoff : (db.linesOf e.id).filter (fun l => !decide (l.accountId = account)) =
      (db.linesOf e.id).filter fun l => l.accountId ≠ account := by
    congr 1
    funext l
    simp
  rw [DB.accountNet, DB.entryLines, hsplit, hoff, DB.offset, DB.entryLines, List.sum_neg, List.map_map]
  congr 1
  refine List.map_congr_left fun l hl => ?_
  obtain ⟨hl, hne⟩ := List.mem_filter.1 hl
  have hnet : l.net = toBase (l.debit - l.credit) (db.entryRate e.id) := hconv l hl (of_decide_eq_true hne)
  rw [Function.comp_apply, hnet, ← toBase_neg, neg_sub]
  rfl

theorem DB.FullySettles.settles (h : s.db.FullySettles account p d a) (hs : Reachable s) :
    s.db.Settles a p.toSettler d := by
  obtain ⟨x, d', hsd⟩ := hs.settledOk.settles a h.application
  obtain ⟨hside, hk, hid, hdoc⟩ := h.ends
  have hd : s.db.docs.find? d.id = some d := Table.find?_key h.doc
  have hp : s.db.payments.find? p.id = some p := Table.find?_key h.payment
  have hx := hsd.settler
  rw [hk, settlerOf_payment] at hx
  obtain ⟨q, hq, rfl⟩ := hx
  obtain rfl : q = p := Option.some.inj ((paymentOf_eq_some.1 hq).1.symm.trans (hid ▸ hp))
  obtain rfl : d' = d := Option.some.inj ((docOf_eq_some.1 hsd.doc).1.symm.trans (hdoc ▸ hd))
  exact hsd

theorem DB.FullySettles.doc_net (h : s.db.FullySettles account p d a) (hs : Reachable s) :
    s.db.accountNet account d.journalEntryId = s.db.offset account d.journalEntryId := by
  obtain ⟨je, hje, e, he, rfl, -⟩ := hs.agrees.docs d h.doc h.docPosted
  have hcontrol := h.docControl
  rw [hje] at hcontrol ⊢
  refine accountNet_eq_offset he (hs.ledgerOk.posted e he) (hs.entryBalanced e.id) fun l hl hne => ?_
  refine hs.exchangeOk.docs d h.doc h.docPosted e.id hje l hl fun hmemo => hne (hcontrol l hl ?_)
  rw [hmemo, h.invoice, side_invoice]

theorem DB.FullySettles.payment_net (h : s.db.FullySettles account p d a) (hs : Reachable s) :
    s.db.accountNet account p.journalEntryId = s.db.offset account p.journalEntryId := by
  obtain ⟨je, hje, e, he, rfl, -⟩ := hs.agrees.payments p h.payment h.paymentPosted
  rw [hje]
  exact accountNet_eq_offset he (hs.ledgerOk.posted e he) (hs.entryBalanced e.id) fun l hl _ =>
    hs.exchangeOk.payments p h.payment h.paymentPosted e.id hje l hl

/-- The exchange difference of the settlement. -/
theorem DB.FullySettles.exchanged (h : s.db.FullySettles account p d a) (hs : Reachable s) :
    match a.fxJournalEntryId with
    | none => s.db.rateGap d.total p.journalEntryId d.journalEntryId = 0
    | some je => s.db.Revalues je p.date (p.side.sign * s.db.rateGap d.total p.journalEntryId d.journalEntryId) := by
  obtain ⟨diff, hdiff, hfx⟩ := hs.exchangeOk.applications a h.application _ d (h.settles hs)
  obtain ⟨e, he, e', he', hje, hje', rfl⟩ := fxDiff_eq_some.1 hdiff
  have hp : p.journalEntryId = some e.id := hje
  have hgap : s.db.rateGap d.total p.journalEntryId d.journalEntryId =
      toBase a.amountApplied e.exchangeRate - toBase a.amountApplied e'.exchangeRate := by
    rw [DB.rateGap, hp, hje', h.full.2]
    simp only [Option.map_some, Option.getD_some]
    rw [entryRate_of_mem he, entryRate_of_mem he']
  rw [← hgap, h.ends.1, fxSign_eq] at hfx
  cases ha : a.fxJournalEntryId with
  | none =>
    rw [ha] at hfx
    exact hfx
  | some je =>
    rw [ha, mul_comm] at hfx
    exact hfx

theorem DB.FullySettles.exchange_net (h : s.db.FullySettles account p d a) (hs : Reachable s) :
    s.db.accountNet account a.fxJournalEntryId =
      if ∃ l ∈ s.db.entryLines a.fxJournalEntryId, l.memo ≠ revaluationMemo ∧ l.accountId = account then 0
      else p.side.sign * s.db.rateGap d.total p.journalEntryId d.journalEntryId := by
  have hfx := h.exchanged hs
  have haccount := h.revaluation
  cases ha : a.fxJournalEntryId with
  | none =>
    rw [ha] at hfx
    have hgap : s.db.rateGap d.total p.journalEntryId d.journalEntryId = 0 := hfx
    rw [hgap, mul_zero, ite_self]
    rfl
  | some je =>
    rw [ha] at hfx haccount
    obtain ⟨l, m, hlines, hl, hlv, hm, hmv⟩ := DB.Revalues.lines hfx
    rw [DB.entryLines, hlines] at haccount
    have hla := haccount l (List.mem_cons_self ..) hl
    rw [DB.accountNet, DB.entryLines, hlines]
    by_cases hma : m.accountId = account
    · rw [if_pos ⟨m, by simp, hm, hma⟩]
      simp [hla, hma, hlv, hmv]
    · rw [if_neg]
      · simp [hla, hma, hlv]
      · rintro ⟨x, hx, hxm, hxa⟩
        rcases List.mem_cons.1 hx with rfl | hx
        · exact hxm hl
        · obtain rfl := List.mem_singleton.1 hx
          exact hma hxa

/-- What the three entries leave on the control account. -/
theorem DB.FullySettles.net_eq (h : s.db.FullySettles account p d a) (hs : Reachable s) :
    s.db.accountNet account d.journalEntryId + s.db.accountNet account p.journalEntryId +
      s.db.accountNet account a.fxJournalEntryId = s.db.settlementGap account p d a := by
  rw [h.doc_net hs, h.payment_net hs, h.exchange_net hs]
  rfl

/-! ### Without other lines on the account -/

theorem offset_of_onlyControl {db : DB} (h : db.OnlyControl account p d a)
    (hcontrol : ∀ l ∈ db.entryLines d.journalEntryId, l.memo = p.side.controlMemo → l.accountId = account) :
    db.offset account d.journalEntryId = db.convertedLines p.side d := by
  rw [DB.offset, DB.convertedLines]
  congr 2
  refine List.filter_congr fun l hl => ?_
  rw [decide_eq_decide, not_iff_not]
  exact ⟨h.doc l hl, hcontrol l hl⟩

theorem DB.FullySettles.payment_net_of_onlyControl (h : s.db.FullySettles account p d a) (hs : Reachable s)
    (honly : s.db.OnlyControl account p d a) : s.db.accountNet account p.journalEntryId =
      -(p.side.sign * toBase d.total ((p.journalEntryId.map s.db.entryRate).getD 0)) := by
  obtain ⟨je, hje, e, he, rfl, -, -, l, hl, hdebit, hcredit⟩ := hs.agrees.payments p h.payment h.paymentPosted
  have hcontrol := h.paymentControl
  have hother := honly.payment
  rw [hje] at hcontrol hother ⊢
  have hfilter : ((s.db.linesOf e.id).filter fun l => l.accountId = account) = [l] := by
    rw [← hl]
    refine List.filter_congr fun l hl => ?_
    rw [decide_eq_decide]
    exact ⟨hother l hl, hcontrol l hl⟩
  have hmem : l ∈ s.db.linesOf e.id := List.mem_of_mem_filter (hl ▸ List.mem_singleton_self l)
  have hnet : l.net = toBase (l.debit - l.credit) (s.db.entryRate e.id) :=
    hs.exchangeOk.payments p h.payment h.paymentPosted e.id hje l hmem
  rw [DB.accountNet, DB.entryLines, hfilter, List.map_singleton, List.sum_singleton, hnet, hdebit, hcredit,
    Payment.control_eq rfl, h.full.1]
  cases p.side with
  | sales =>
    simp only [Side.sign, one_mul, toBase_neg]
    rfl
  | purchase =>
    simp only [Side.sign, Int.reduceNeg, neg_mul, one_mul, neg_neg]
    rfl

/-- What is left is the difference between the two conversions of the total. -/
theorem DB.FullySettles.gap_of_onlyControl (h : s.db.FullySettles account p d a) (hs : Reachable s)
    (honly : s.db.OnlyControl account p d a) :
    s.db.settlementGap account p d a = s.db.convertedLines p.side d - s.db.convertedTotal p.side d := by
  have hnone : ¬∃ l ∈ s.db.entryLines a.fxJournalEntryId, l.memo ≠ revaluationMemo ∧ l.accountId = account := by
    rintro ⟨l, hl, hmemo, haccount⟩
    exact hmemo (honly.exchange l hl haccount)
  rw [DB.settlementGap, if_neg hnone, offset_of_onlyControl honly h.docControl, ← h.payment_net hs,
    h.payment_net_of_onlyControl hs honly, DB.rateGap, DB.convertedTotal]
  ring

/-- The control account ends at zero in base exactly when the conversions cancel; if it has no other lines, exactly when
the lines of the document convert to as much as its total. -/
theorem full_settlement_clears_iff (hs : Reachable s) (h : s.db.FullySettles account p d a) :
    (s.db.accountNet account d.journalEntryId + s.db.accountNet account p.journalEntryId +
        s.db.accountNet account a.fxJournalEntryId = 0 ↔ s.db.settlementGap account p d a = 0) ∧
      (s.db.OnlyControl account p d a →
        (s.db.accountNet account d.journalEntryId + s.db.accountNet account p.journalEntryId +
          s.db.accountNet account a.fxJournalEntryId = 0 ↔
            s.db.convertedLines p.side d = s.db.convertedTotal p.side d)) := by
  rw [h.net_eq hs]
  refine ⟨Iff.rfl, fun honly => ?_⟩
  rw [h.gap_of_onlyControl hs honly, sub_eq_zero]

/-! ### Examples -/

instance {db : DB} : Decidable (db.FullySettles account p d a) :=
  decidable_of_iff
    ((d ∈ db.docs.rows ∧ d.status = .posted ∧ d.kind = p.side.invoice) ∧ (p ∈ db.payments.rows ∧ p.status = .posted) ∧
      a ∈ db.applications.rows ∧ (a.side = p.side ∧ a.settler = .payment ∧ a.settlerId = p.id ∧ a.docId = d.id) ∧
      (p.amount = d.total ∧ a.amountApplied = d.total) ∧
      (∀ l ∈ db.entryLines d.journalEntryId, l.memo = p.side.controlMemo → l.accountId = account) ∧
      (∀ l ∈ db.entryLines p.journalEntryId, l.memo = p.side.controlMemo → l.accountId = account) ∧
      ∀ l ∈ db.entryLines a.fxJournalEntryId, l.memo = revaluationMemo → l.accountId = account)
    ⟨fun ⟨⟨h₁, h₂, h₃⟩, ⟨h₄, h₅⟩, h₆, h₇, h₈, h₉, h₁₀, h₁₁⟩ => ⟨h₁, h₂, h₃, h₄, h₅, h₆, h₇, h₈, h₉, h₁₀, h₁₁⟩,
      fun ⟨h₁, h₂, h₃, h₄, h₅, h₆, h₇, h₈, h₉, h₁₀, h₁₁⟩ => ⟨⟨h₁, h₂, h₃⟩, ⟨h₄, h₅⟩, h₆, h₇, h₈, h₉, h₁₀, h₁₁⟩⟩

instance {db : DB} : Decidable (db.OnlyControl account p d a) :=
  decidable_of_iff
    ((∀ l ∈ db.entryLines d.journalEntryId, l.accountId = account → l.memo = p.side.controlMemo) ∧
      (∀ l ∈ db.entryLines p.journalEntryId, l.accountId = account → l.memo = p.side.controlMemo) ∧
      ∀ l ∈ db.entryLines a.fxJournalEntryId, l.accountId = account → l.memo = revaluationMemo)
    ⟨fun ⟨h₁, h₂, h₃⟩ => ⟨h₁, h₂, h₃⟩, fun ⟨h₁, h₂, h₃⟩ => ⟨h₁, h₂, h₃⟩⟩

/-- An invoice in euros, and a payment of `amount` at another rate that is applied to it. -/
def euroPaid (lines : List DocLineInput) (amount : ℤ) (id : ℕ) : List Op := [
  .createFiscalYear ⟨"FY2026", yearStart, yearEnd⟩,
  .createParty .sales (some 2),
  .createExchangeRate "EUR" march5 110000000,
  .createExchangeRate "EUR" march6 120000000,
  .createDoc .salesInvoice { number := "I1", partyId := 14, date := march5, currencyCode := "EUR", lines },
  .postDoc .salesInvoice 15,
  .createPayment .sales
    { partyId := 14, date := march6, currencyCode := "EUR", amount, cashAccountId := some 1 },
  .postPayment .sales id,
  .autoApply .sales .payment id]

theorem exists_settled {db : DB} {q : Payment → Doc → Application → Prop} [∀ p d a, Decidable (q p d a)]
    (h : (db.payments.rows.any fun p => db.docs.rows.any fun d => db.applications.rows.any fun a => q p d a) = true) :
    ∃ p d a, q p d a := by
  obtain ⟨p, -, h⟩ := List.any_eq_true.1 h
  obtain ⟨d, -, h⟩ := List.any_eq_true.1 h
  obtain ⟨a, -, h⟩ := List.any_eq_true.1 h
  exact ⟨p, d, a, of_decide_eq_true h⟩

/-- Two lines of 10.0005 euros convert to 22.0012, their total to 22.0011. -/
theorem full_settlement_leaves_unit : ∃ (s : Store DB) (p : Payment) (d : Doc) (a : Application), Reachable s ∧
    d.currencyCode = "EUR" ∧ s.db.FullySettles 2 p d a ∧ s.db.OnlyControl 2 p d a ∧
      s.db.accountNet 2 d.journalEntryId + s.db.accountNet 2 p.journalEntryId +
        s.db.accountNet 2 a.fxJournalEntryId ≠ 0 := by
  obtain ⟨s, hs, h⟩ := exists_reachable
    (euroPaid [{ accountId := some 8, unitPrice := 100005 }, { accountId := some 9, unitPrice := 100005 }] 200010 23)
    (p := fun s => s.db.payments.rows.any fun p => s.db.docs.rows.any fun d => s.db.applications.rows.any fun a =>
      d.currencyCode = "EUR" ∧ s.db.FullySettles 2 p d a ∧ s.db.OnlyControl 2 p d a ∧
        s.db.accountNet 2 d.journalEntryId + s.db.accountNet 2 p.journalEntryId +
          s.db.accountNet 2 a.fxJournalEntryId ≠ 0) (by decide +kernel)
  obtain ⟨p, d, a, h⟩ := exists_settled h
  exact ⟨s, p, d, a, hs, h⟩

/-- One line of 100 euros, invoiced at 1.1 and paid at 1.2. -/
theorem full_settlement_clears_line : ∃ (s : Store DB) (p : Payment) (d : Doc) (a : Application), Reachable s ∧
    s.db.rateGap d.total p.journalEntryId d.journalEntryId = dollars 10 ∧
      s.db.accountNet 2 d.journalEntryId + s.db.accountNet 2 p.journalEntryId +
        s.db.accountNet 2 a.fxJournalEntryId = 0 := by
  obtain ⟨s, hs, h⟩ := exists_reachable
    (euroPaid [{ accountId := some 8, unitPrice := dollars 100 }] (dollars 100) 21)
    (p := fun s => s.db.payments.rows.any fun p => s.db.docs.rows.any fun d => s.db.applications.rows.any fun a =>
      s.db.FullySettles 2 p d a ∧ s.db.OnlyControl 2 p d a ∧
        s.db.rateGap d.total p.journalEntryId d.journalEntryId = dollars 10 ∧
        s.db.convertedLines p.side d = s.db.convertedTotal p.side d) (by decide +kernel)
  obtain ⟨p, d, a, hfull, honly, hgap, hclear⟩ := exists_settled h
  exact ⟨s, p, d, a, hs, hgap, ((full_settlement_clears_iff hs hfull).2 honly).2 hclear⟩
