import Tadmor.Proof.Drafts

/-!
# What the operations on posted documents do

Posting, applying, unposting and the year end: which entries a run that does not fail has written, what it has
linked and what it has read.
-/

/-- `rows` has one line with the control memo of `side`, and it carries `debit` and `credit`. -/
def HasControl (side : Side) (rows : List JournalLine) (debit credit : ℤ) : Prop :=
  ∃ l, rows.filter (fun l => l.memo = side.controlMemo) = [l] ∧ l.debit = debit ∧ l.credit = credit

theorem HasControl.append {side : Side} (rows : List JournalLine) (l : JournalLine)
    (hrows : ∀ l ∈ rows, l.memo ≠ side.controlMemo) (hl : l.memo = side.controlMemo) :
    HasControl side (rows ++ [l]) l.debit l.credit := by
  refine ⟨l, ?_, rfl, rfl⟩
  have hnone : rows.filter (fun l => l.memo = side.controlMemo) = [] := by
    rw [List.filter_eq_nil_iff]
    intro l hl
    simpa using hrows l hl
  rw [List.filter_append, hnone]
  simp [hl]

theorem HasControl.cons {side : Side} (l : JournalLine) (rows : List JournalLine)
    (hrows : ∀ l ∈ rows, l.memo ≠ side.controlMemo) (hl : l.memo = side.controlMemo) :
    HasControl side (l :: rows) l.debit l.credit := by
  refine ⟨l, ?_, rfl, rfl⟩
  have hnone : rows.filter (fun l => l.memo = side.controlMemo) = [] := by
    rw [List.filter_eq_nil_iff]
    intro l hl
    simpa using hrows l hl
  rw [List.filter_cons, hnone]
  simp [hl]

/-- What the rows take over from the lines. -/
theorem forall₂_becomes_map {β : Type} {je : ℕ} {ls : List NewLine} {rows : List JournalLine}
    (h : List.Forall₂ (NewLine.Becomes je) ls rows) {f : NewLine → β} {g : JournalLine → β}
    (hfg : ∀ (l : NewLine) id account, g (l.row je id account) = f l) : rows.map g = ls.map f := by
  induction h with
  | nil => rfl
  | cons hb _ ih =>
    obtain ⟨id, account, -, rfl⟩ := hb
    rw [List.map_cons, List.map_cons, ih, hfg]

theorem forall₂_becomes_memo {je : ℕ} {ls : List NewLine} {rows : List JournalLine}
    (h : List.Forall₂ (NewLine.Becomes je) ls rows) : rows.map (·.memo) = ls.map (·.memo) :=
  forall₂_becomes_map h fun _ _ _ => rfl

theorem forall₂_becomes_singleton {je : ℕ} {l : NewLine} {rows : List JournalLine}
    (h : List.Forall₂ (NewLine.Becomes je) [l] rows) :
    ∃ id account, l.accountId = some account ∧ rows = [l.row je id account] := by
  cases h with
  | cons hb ht =>
    cases ht
    obtain ⟨id, account, ha, rfl⟩ := hb
    exact ⟨id, account, ha, rfl⟩

/-! ### Documents with lines -/

/-- The four specifications: their documents post, and the memos of detail lines differ from the control memo. -/
structure PostSpec.Ok (spec : PostSpec) : Prop where
  detail : spec.detailMemo ≠ spec.kind.side.controlMemo
  tax : spec.taxMemo ≠ spec.kind.side.controlMemo

theorem PostedKind.ok (kind : PostedKind) : kind.spec.Ok := by
  cases kind <;> exact ⟨by decide, by decide⟩

theorem detailLines_memo {b : Bool} {rate : ℤ} {n : ℕ} {xs : List (Option ℕ × ℤ × String)} :
    (detailLines b rate n xs).map (·.memo) = xs.map (·.2.2) := by
  induction xs generalizing n with
  | nil => rfl
  | cons x xs ih =>
    obtain ⟨account, amount, memo⟩ := x
    rw [detailLines, List.map_cons, ih, List.map_cons]
    cases b <;> rfl

theorem PostSpec.Ok.details_memo {spec : PostSpec} (hs : spec.Ok) {id je n : ℕ} {rate : ℤ} {db : DB}
    {rows : List JournalLine}
    (h : List.Forall₂ (NewLine.Becomes je) (detailLines spec.creditsDetails rate n (spec.amounts db id)) rows) :
    ∀ l ∈ rows, l.memo ≠ spec.kind.side.controlMemo := by
  intro l hl
  have hm : l.memo ∈ (spec.amounts db id).map (·.2.2) := by
    have e := forall₂_becomes_memo h
    rw [detailLines_memo] at e
    exact e ▸ List.mem_map_of_mem hl
  simp only [PostSpec.amounts, List.map_append, List.map_map, List.mem_append, List.mem_map, Function.comp_apply] at hm
  rcases hm with ⟨x, -, e⟩ | ⟨x, -, e⟩
  · exact e ▸ hs.detail
  · exact e ▸ hs.tax

theorem docParty_eq_some {db : DB} {kind : DocKind} {id : ℕ} {d : Doc} {c : Party} :
    db.docParty kind id = some (d, c) ↔ db.docOf kind id = some d ∧ db.partyOf kind.side d.partyId = some c := by
  simp only [DB.docParty, Option.bind_eq_some_iff, Option.map_eq_some_iff, Prod.mk.injEq]
  constructor
  · rintro ⟨d', hd, c', hc, rfl, rfl⟩
    exact ⟨hd, hc⟩
  · rintro ⟨hd, hc⟩
    exact ⟨d, hd, c, hc, rfl, rfl⟩

theorem PostSpec.header_eq_ok {spec : PostSpec} {id : ℕ} {db : DB} {h : DocHeader} :
    spec.header id db = .ok h ↔ ∃ d c, db.docParty spec.kind id = some (d, c) ∧
      h = { status := d.status, currency := d.currencyCode, date := d.date, number := d.number,
            control := c.controlAccountId, hasTotal := 0 < d.total } := by
  unfold PostSpec.header
  split
  · rename_i hn
    simp [hn]
  · rename_i d c hs
    simp [hs, eq_comm]

/-- The control line of a document with its party; its base amount balances the lines there are. -/
theorem PostSpec.control_eq {spec : PostSpec} {id : ℕ} (je : ℕ) {db : DB} {d : Doc} {c : Party}
    (h : db.docParty spec.kind id = some (d, c)) :
    ∃ l, spec.control id je db = [l] ∧ l.accountId = c.controlAccountId ∧ l.memo = spec.kind.side.controlMemo ∧
      l.debit = (if spec.creditsDetails then d.total else 0) ∧ l.credit = (if spec.creditsDetails then 0 else d.total) ∧
      l.baseDebit = (if spec.creditsDetails then -((db.linesOf je).map fun l => l.baseDebit - l.baseCredit).sum else 0) ∧
      l.baseCredit = (if spec.creditsDetails then 0 else ((db.linesOf je).map fun l => l.baseDebit - l.baseCredit).sum) := by
  unfold PostSpec.control
  rw [h]
  cases hc : spec.creditsDetails with
  | true => exact ⟨_, rfl, rfl, rfl, rfl, rfl, rfl, rfl⟩
  | false => exact ⟨_, rfl, rfl, rfl, rfl, rfl, rfl, rfl⟩

/-- What a posting inserts: the detail lines of the document as it was, at the rate of the entry, and one control line
that is made of the document and of these lines. -/
structure DocPosted (spec : PostSpec) (id je : ℕ) (lo : ℕ) (db mid : DB) (d : Doc) (c : Party) (period : ℕ) (rate : ℤ)
    (before : DB) (details : List JournalLine) (l : NewLine) (row : JournalLine) : Prop where
  doc : db.docParty spec.kind id = some (d, c)
  draft : d.status = .draft
  total : 0 < d.total
  rate_eq : db.rateFor d.currencyCode d.date = some rate
  rate_pos : 0 < rate
  written : Wrote lo db before (entryOf je d.date period d.currencyCode rate (spec.entryMemo ++ d.number) d.number)
    details
  became : List.Forall₂ (NewLine.Becomes je)
    (detailLines spec.creditsDetails rate (if spec.creditsDetails then 2 else 1) (spec.amounts db id)) details
  control : spec.control id je before = [l]
  row_eq : ∃ lid account, l.accountId = some account ∧ row = l.row je lid account
  wrote : Wrote lo db mid (entryOf je d.date period d.currencyCode rate (spec.entryMemo ++ d.number) d.number)
    (details ++ [row])

theorem entryRate_insertEntry {je : ℕ} {db db' : DB} {e : JournalEntry} (he : e.id = je)
    (hfree : db.entries.Free e.id) (h : db'.entries = db.entries.insert e) : db'.entryRate je = e.exchangeRate := by
  have hfind : db'.entries.find? je = some e := by
    rw [h, ← he]
    exact Table.find?_key ((Table.mem_insert hfree).2 (.inr rfl))
  rw [DB.entryRate, hfind]
  rfl

theorem details_insertEntry {spec : PostSpec} {id je : ℕ} {db db' : DB} {e : JournalEntry} (he : e.id = je)
    (hfree : db.entries.Free e.id) (h : db' = { db with periods := db'.periods, entries := db.entries.insert e }) :
    spec.details id je db' = detailLines spec.creditsDetails e.exchangeRate (if spec.creditsDetails then 2 else 1)
      (spec.amounts db id) := by
  rw [PostSpec.details, entryRate_insertEntry he hfree (by rw [h]), h]
  rfl

theorem run_postDoc_lines {spec : PostSpec} {id je : ℕ} {v w : Env DB Err}
    (h : (postDoc spec id).run v = .ok (je, w)) (hv : Fresh v.seq v.db) :
    ∃ d c period rate before details l row mid,
      DocPosted spec id je v.seq v.db mid d c period rate before details l row ∧
      w.db = { mid with docs := v.db.docs.update [id] (·.posted je period) } ∧ v.db.Posted d.date mid := by
  simp only [postDoc, Prog.run_query_bind_ok, Prog.run_read_bind_ok, Prog.run_require_bind_ok] at h
  obtain ⟨hd, hh, hdraft, htotal, -, -, -, h⟩ := h
  obtain ⟨d, c, hdc, rfl⟩ := PostSpec.header_eq_ok.1 hh
  obtain ⟨period, v₁, h₁, h⟩ := Prog.run_bind_ok.1 h
  obtain ⟨je', v₂, h₂, h⟩ := Prog.run_bind_ok.1 h
  obtain ⟨u₃, v₃, h₃, h⟩ := Prog.run_bind_ok.1 h
  obtain ⟨u₄, v₄, h₄, h⟩ := Prog.run_bind_ok.1 h
  obtain ⟨u₅, v₅, h₅, h⟩ := Prog.run_bind_ok.1 h
  obtain ⟨rfl, rfl⟩ := Prog.run_pure_ok.1 h
  have hv₁ := (allFresh_periodForDate _).run h₁ hv.tick.tick.tick
  obtain ⟨hp, -, -⟩ := run_periodForDate h₁
  obtain ⟨rate, rows₁, rows₂, hrate, hpos, -, hr₁, hr₂, hdb₂, hw₁, hw, hps⟩ := run_entry hv₁ h₂ h₃ h₄
  have hlo := (Env.le_tick_seq v).trans <| (Env.le_tick_seq _).trans <| (Env.le_tick_seq _).trans (Prog.run_seq_le h₁)
  have hdc₃ : v₃.db.docParty spec.kind id = some (d, c) := by
    rw [hw₁.eq, hp.eq]
    exact hdc
  have hdet : spec.details id je v₂.db = detailLines spec.creditsDetails rate (if spec.creditsDetails then 2 else 1)
      (spec.amounts v.db id) := by
    have hfree := hw₁.free
    rw [hp.eq] at hdb₂ hfree
    refine details_insertEntry rfl hfree ?_
    rw [hdb₂]
  obtain ⟨l, hl, -⟩ := PostSpec.control_eq je hdc₃
  rw [hl] at hr₂
  rw [hdet] at hr₁
  obtain ⟨lid, account, hacc, rfl⟩ := forall₂_becomes_singleton hr₂
  rw [hp.eq] at hrate
  refine ⟨d, c, period, rate, v₃.db, rows₁, l, l.row je lid account, v₄.db,
    ⟨hdc, of_decide_eq_true hdraft, of_decide_eq_true htotal, hrate, hpos, hp.wrote (hw₁.mono hlo), hr₁, hl,
      ⟨lid, account, hacc, rfl⟩, hp.wrote (hw.mono hlo)⟩, ?_,
    (run_periodForDate_posted h₁).congr hps (by rw [hw.eq])⟩
  obtain ⟨hd, hk⟩ := docOf_eq_some.1 (docParty_eq_some.1 hdc).1
  have hdocs : v₄.db.docs = v.db.docs := by
    rw [hw.eq, hp.eq]
    rfl
  rw [(run_updateDocRow h₅).1, hdocs, Table.hit_of_find? hd (by simpa using hk)]

/-- The party of a document is the same after an entry is written. -/
theorem Wrote.docParty {lo : ℕ} {db db' : DB} {e : JournalEntry} {rows : List JournalLine}
    (h : Wrote lo db db' e rows) (kind : DocKind) (id : ℕ) : db'.docParty kind id = db.docParty kind id := by
  rw [h.eq]
  rfl

theorem DocPosted.hasControl {spec : PostSpec} (hs : spec.Ok) {id je lo period : ℕ} {db mid before : DB} {d : Doc}
    {c : Party} {rate : ℤ} {details : List JournalLine} {l : NewLine} {row : JournalLine}
    (h : DocPosted spec id je lo db mid d c period rate before details l row) :
    HasControl spec.kind.side (details ++ [row]) (if spec.creditsDetails then d.total else 0)
      (if spec.creditsDetails then 0 else d.total) := by
  obtain ⟨l', hl, -, hm, hdeb, hcred, -⟩ := PostSpec.control_eq je ((h.written.docParty _ _).trans h.doc)
  obtain rfl : l' = l := by simpa using hl.symm.trans h.control
  obtain ⟨lid, account, -, hrow⟩ := h.row_eq
  have := HasControl.append details (l'.row je lid account) (hs.details_memo h.became) hm
  rwa [hrow, ← hdeb, ← hcred]

theorem run_postDoc {spec : PostSpec} {id je : ℕ} {v w : Env DB Err} (hs : spec.Ok)
    (h : (postDoc spec id).run v = .ok (je, w)) (hv : Fresh v.seq v.db) :
    ∃ d c period rate mid rows, v.db.docParty spec.kind id = some (d, c) ∧ d.status = .draft ∧ 0 < d.total ∧
      v.db.rateFor d.currencyCode d.date = some rate ∧
      Wrote v.seq v.db mid
        (entryOf je d.date period d.currencyCode rate (spec.entryMemo ++ d.number) d.number) rows ∧
      HasControl spec.kind.side rows (if spec.creditsDetails then d.total else 0)
        (if spec.creditsDetails then 0 else d.total) ∧
      w.db = { mid with docs := v.db.docs.update [id] (·.posted je period) } ∧ v.db.Posted d.date mid := by
  obtain ⟨d, c, period, rate, before, details, l, row, mid, hp, hw, hpost⟩ := run_postDoc_lines h hv
  exact ⟨d, c, period, rate, mid, details ++ [row], hp.doc, hp.draft, hp.total, hp.rate_eq, hp.wrote, hp.hasControl hs,
    hw, hpost⟩

/-! ### Payments -/

theorem paymentOf_eq_some {db : DB} {side : Side} {id : ℕ} {p : Payment} :
    db.paymentOf side id = some p ↔ db.payments.find? id = some p ∧ p.side = side := by
  simp [DB.paymentOf, Option.filter_eq_some_iff]

theorem paymentParty_eq_some {db : DB} {side : Side} {id : ℕ} {p : Payment} {c : Party} :
    db.paymentParty side id = some (p, c) ↔ db.paymentOf side id = some p ∧ db.partyOf side p.partyId = some c := by
  simp only [DB.paymentParty, Option.bind_eq_some_iff, Option.map_eq_some_iff, Prod.mk.injEq]
  constructor
  · rintro ⟨p', hp, c', hc, rfl, rfl⟩
    exact ⟨hp, hc⟩
  · rintro ⟨hp, hc⟩
    exact ⟨p, hp, c, hc, rfl, rfl⟩

theorem paymentHeader_eq_ok {side : Side} {id : ℕ} {db : DB} {h : PaymentHeader} :
    paymentHeader side id db = .ok h ↔ ∃ p c, db.paymentParty side id = some (p, c) ∧
      h = { status := p.status, currency := p.currencyCode, date := p.date, control := c.controlAccountId,
            cash := p.cashAccountId, hasAmount := 0 < p.amount } := by
  unfold paymentHeader
  split
  · rename_i hn
    simp [hn]
  · rename_i p c hs
    simp [hs, eq_comm]

/-- What the control line of a payment carries on the debit side. -/
def Payment.controlDebit (p : Payment) : ℤ :=
  match p.side with
  | .sales => 0
  | .purchase => p.amount

def Payment.controlCredit (p : Payment) : ℤ :=
  match p.side with
  | .sales => p.amount
  | .purchase => 0

theorem paymentControl_eq {side : Side} {id : ℕ} (je : ℕ) {db : DB} {p : Payment} {c : Party}
    (h : db.paymentParty side id = some (p, c)) :
    ∃ l, paymentControl side id je db = [l] ∧ l.memo = side.controlMemo ∧ l.debit = p.controlDebit ∧
      l.credit = p.controlCredit := by
  have hside : p.side = side := (paymentOf_eq_some.1 (paymentParty_eq_some.1 h).1).2
  unfold paymentControl Payment.controlDebit Payment.controlCredit
  rw [h, hside]
  cases side with
  | sales => exact ⟨_, rfl, rfl, rfl, rfl⟩
  | purchase => exact ⟨_, rfl, rfl, rfl, rfl⟩

theorem cashLine_eq {side : Side} {id : ℕ} (je : ℕ) {db : DB} {p : Payment} (h : db.paymentOf side id = some p) :
    ∃ l, cashLine side id je db = [l] ∧ l.memo ≠ side.controlMemo := by
  unfold cashLine
  rw [h]
  cases side with
  | sales => exact ⟨_, rfl, by simp [Side.controlMemo]⟩
  | purchase => exact ⟨_, rfl, by simp [Side.controlMemo]⟩

theorem run_updatePaymentById {side : Side} {id : ℕ} {f : Payment → Payment} {hf : ∀ p, (f p).id = p.id}
    {v w : Env DB Err} {u : Unit} (h : (updatePaymentById side id f hf).run v = .ok (u, w)) :
    w.db = { v.db with payments := v.db.payments.update (v.db.payments.hit id (·.side = side)) f hf } ∧
      w.checks = v.checks := by
  obtain ⟨o, ho, -, rfl⟩ := Prog.run_exec_ok.1 h
  cases ho
  exact ⟨rfl, List.append_nil _⟩

/-- The two lines of a payment, in the order of their insertion. -/
theorem paymentLines_hasControl {side : Side} {id je : ℕ} {db₁ db₂ : DB} {p : Payment} {c : Party}
    {rows₁ rows₂ : List JournalLine} (h₁ : db₁.paymentParty side id = some (p, c))
    (h₂ : db₂.paymentParty side id = some (p, c))
    (hr₁ : List.Forall₂ (NewLine.Becomes je) (firstLine side id je db₁) rows₁)
    (hr₂ : List.Forall₂ (NewLine.Becomes je) (secondLine side id je db₂) rows₂) :
    HasControl side (rows₁ ++ rows₂) p.controlDebit p.controlCredit := by
  cases side with
  | sales =>
    obtain ⟨cash, hcash, hcm⟩ := cashLine_eq je (paymentParty_eq_some.1 h₁).1
    obtain ⟨l, hl, hm, hd, hc⟩ := paymentControl_eq je h₂
    rw [firstLine, hcash] at hr₁
    rw [secondLine, hl] at hr₂
    obtain ⟨i, a, -, rfl⟩ := forall₂_becomes_singleton hr₁
    obtain ⟨i', a', -, rfl⟩ := forall₂_becomes_singleton hr₂
    have := HasControl.append [cash.row je i a] (l.row je i' a') (fun l hl => List.mem_singleton.1 hl ▸ hcm) hm
    rwa [← hd, ← hc]
  | purchase =>
    obtain ⟨cash, hcash, hcm⟩ := cashLine_eq je (paymentParty_eq_some.1 h₂).1
    obtain ⟨l, hl, hm, hd, hc⟩ := paymentControl_eq je h₁
    rw [firstLine, hl] at hr₁
    rw [secondLine, hcash] at hr₂
    obtain ⟨i, a, -, rfl⟩ := forall₂_becomes_singleton hr₁
    obtain ⟨i', a', -, rfl⟩ := forall₂_becomes_singleton hr₂
    have := HasControl.cons (l.row je i a) [cash.row je i' a'] (fun l hl => List.mem_singleton.1 hl ▸ hcm) hm
    rwa [← hd, ← hc]

theorem run_postPayment_lines {side : Side} {id je : ℕ} {v w : Env DB Err}
    (h : (postPayment side id).run v = .ok (je, w)) (hv : Fresh v.seq v.db) :
    ∃ p c period rate mid db₁ db₂ rows₁ rows₂, v.db.paymentParty side id = some (p, c) ∧ p.status = .draft ∧
      0 < p.amount ∧ v.db.rateFor p.currencyCode p.date = some rate ∧
      db₁.paymentParty side id = some (p, c) ∧ db₁.entryRate je = rate ∧
      db₂.paymentParty side id = some (p, c) ∧ db₂.entryRate je = rate ∧
      List.Forall₂ (NewLine.Becomes je) (firstLine side id je db₁) rows₁ ∧
      List.Forall₂ (NewLine.Becomes je) (secondLine side id je db₂) rows₂ ∧
      Wrote v.seq v.db mid (entryOf je p.date period p.currencyCode rate (paymentMemo side) "") (rows₁ ++ rows₂) ∧
      w.db = { mid with payments := v.db.payments.update [id] (·.posted je period) } ∧ v.db.Posted p.date mid := by
  simp only [postPayment, Prog.run_query_bind_ok, Prog.run_require_bind_ok] at h
  obtain ⟨hd, hh, hdraft, hamount, -, -, h⟩ := h
  obtain ⟨p, c, hpc, rfl⟩ := paymentHeader_eq_ok.1 hh
  obtain ⟨period, v₁, h₁, h⟩ := Prog.run_bind_ok.1 h
  obtain ⟨je', v₂, h₂, h⟩ := Prog.run_bind_ok.1 h
  obtain ⟨u₃, v₃, h₃, h⟩ := Prog.run_bind_ok.1 h
  obtain ⟨u₄, v₄, h₄, h⟩ := Prog.run_bind_ok.1 h
  obtain ⟨u₅, v₅, h₅, h⟩ := Prog.run_bind_ok.1 h
  obtain ⟨rfl, rfl⟩ := Prog.run_pure_ok.1 h
  have hv₁ := (allFresh_periodForDate _).run h₁ hv.tick
  obtain ⟨hp, -, -⟩ := run_periodForDate h₁
  obtain ⟨rate, rows₁, rows₂, hrate, -, -, hr₁, hr₂, hdb₂, hw₁, hw, hperiods⟩ := run_entry hv₁ h₂ h₃ h₄
  have hpc₂ : v₂.db.paymentParty side id = some (p, c) := by
    rw [hdb₂, hp.eq]
    exact hpc
  have hpc₃ : v₃.db.paymentParty side id = some (p, c) := by
    rw [hw₁.eq, hp.eq]
    exact hpc
  have hpid := (paymentParty_eq_some.1 hpc).1
  refine ⟨p, c, period, rate, v₄.db, v₂.db, v₃.db, rows₁, rows₂, hpc, of_decide_eq_true hdraft,
    of_decide_eq_true hamount, ?_, hpc₂, entryRate_insertEntry rfl hw₁.free (by rw [hdb₂]), hpc₃,
    entryRate_insertEntry rfl hw₁.free (by rw [hw₁.eq]), hr₁, hr₂, ?_, ?_,
    (run_periodForDate_posted h₁).congr hperiods (by rw [hw.eq])⟩
  · rwa [hp.eq] at hrate
  · exact hp.wrote (hw.mono ((Env.le_tick_seq v).trans (Prog.run_seq_le h₁)))
  · obtain ⟨hf, hs⟩ := paymentOf_eq_some.1 hpid
    have hps : v₄.db.payments = v.db.payments := by
      rw [hw.eq, hp.eq]
      rfl
    rw [(run_updatePaymentById h₅).1, hps, Table.hit_of_find? hf (by simpa using hs)]

theorem run_postPayment {side : Side} {id je : ℕ} {v w : Env DB Err} (h : (postPayment side id).run v = .ok (je, w))
    (hv : Fresh v.seq v.db) :
    ∃ p period rate mid rows, v.db.paymentOf side id = some p ∧ p.status = .draft ∧ 0 < p.amount ∧
      v.db.rateFor p.currencyCode p.date = some rate ∧
      Wrote v.seq v.db mid (entryOf je p.date period p.currencyCode rate (paymentMemo side) "") rows ∧
      HasControl side rows p.controlDebit p.controlCredit ∧
      w.db = { mid with payments := v.db.payments.update [id] (·.posted je period) } ∧ v.db.Posted p.date mid := by
  obtain ⟨p, c, period, rate, mid, db₁, db₂, rows₁, rows₂, hpc, hs, ha, hrate, hpc₁, -, hpc₂, -, hr₁, hr₂, hw, hdb,
    hpost⟩ := run_postPayment_lines h hv
  exact ⟨p, period, rate, mid, _, (paymentParty_eq_some.1 hpc).1, hs, ha, hrate, hw,
    paymentLines_hasControl hpc₁ hpc₂ hr₁ hr₂, hdb, hpost⟩

/-! ### Stock movements -/

theorem run_updateMovementById {id : ℕ} {f : StockMovement → StockMovement} {hf : ∀ m, (f m).id = m.id}
    {v w : Env DB Err} {u : Unit} {m : StockMovement} (h : (updateMovementById id f hf).run v = .ok (u, w))
    (hm : v.db.movements.find? id = some m) :
    w.db = { v.db with movements := v.db.movements.update [id] f hf } ∧ w.checks = v.checks := by
  obtain ⟨o, ho, -, rfl⟩ := Prog.run_exec_ok.1 h
  simp only [Except.bind_eq_ok_iff, Except.ok.injEq] at ho
  obtain ⟨-, -, rfl⟩ := ho
  rw [Env.after_db, Env.after_checks]
  dsimp only
  rw [Table.hit_of_find? hm rfl]
  exact ⟨rfl, List.append_nil _⟩

/-- A movement without an entry gets one. -/
def MovementPosted (lo id je : ℕ) (db db' : DB) : Prop :=
  ∃ m period rate memo mid rows, db.movements.find? id = some m ∧ m.journalEntryId = none ∧
    Wrote lo db mid (entryOf je m.movementDate period db.settings.baseCurrency rate memo "") rows ∧
    db' = { mid with movements := db.movements.update [id] (·.linked je period) } ∧ db.Posted m.movementDate mid

theorem MovementPosted.mono {lo lo' id je : ℕ} {db db' : DB} (h : MovementPosted lo id je db db') (hlo : lo' ≤ lo) :
    MovementPosted lo' id je db db' := by
  obtain ⟨m, period, rate, memo, mid, rows, hm, hj, hw, e, hpost⟩ := h
  exact ⟨m, period, rate, memo, mid, rows, hm, hj, hw.mono hlo, e, hpost⟩

theorem movementHeader_eq_ok {id : ℕ} {db : DB} {x : StockMovement × Product} :
    movementHeader id db = .ok x ↔ db.movementProduct id = some x := by
  unfold movementHeader
  cases db.movementProduct id with
  | none => simp
  | some y => simp

theorem find?_of_movementProduct {db : DB} {id : ℕ} {m : StockMovement} {p : Product}
    (h : db.movementProduct id = some (m, p)) : db.movements.find? id = some m := by
  simp only [DB.movementProduct, Option.bind_eq_some_iff, Option.map_eq_some_iff, Prod.mk.injEq] at h
  obtain ⟨m', hm, p', -, rfl, rfl⟩ := h
  exact hm

/-- The statements that the two postings of a movement end with. -/
theorem run_movementEntry_lines {id je : ℕ} {m : StockMovement} {memo : String} {s₁ s₂ : ℕ → DB → List NewLine}
    {v w : Env DB Err} (hv : Fresh v.seq v.db) (hm : v.db.movements.find? id = some m)
    (h : (do
      let period ← periodForDate m.movementDate
      let currency ← Prog.read fun db => db.settings.baseCurrency
      let je ← createEntry m.movementDate period currency memo ""
      insertLines je (s₁ je)
      insertLines je (s₂ je)
      updateMovementById id (·.linked je period)
      pure je : Txn ℕ).run v = .ok (je, w)) :
    ∃ period rate mid db₁ db₂ rows₁ rows₂, db₁.movementProduct id = v.db.movementProduct id ∧
      db₂.movementProduct id = v.db.movementProduct id ∧ List.Forall₂ (NewLine.Becomes je) (s₁ je db₁) rows₁ ∧
      List.Forall₂ (NewLine.Becomes je) (s₂ je db₂) rows₂ ∧
      Wrote v.seq v.db mid (entryOf je m.movementDate period v.db.settings.baseCurrency rate memo "")
        (rows₁ ++ rows₂) ∧
      w.db = { mid with movements := v.db.movements.update [id] (·.linked je period) } ∧
      v.db.Posted m.movementDate mid := by
  obtain ⟨period, v₁, h₁, h⟩ := Prog.run_bind_ok.1 h
  rw [Prog.run_read_bind_ok] at h
  obtain ⟨je', v₂, h₂, h⟩ := Prog.run_bind_ok.1 h
  obtain ⟨u₃, v₃, h₃, h⟩ := Prog.run_bind_ok.1 h
  obtain ⟨u₄, v₄, h₄, h⟩ := Prog.run_bind_ok.1 h
  obtain ⟨u₅, v₅, h₅, h⟩ := Prog.run_bind_ok.1 h
  obtain ⟨rfl, rfl⟩ := Prog.run_pure_ok.1 h
  have hv₁ := (allFresh_periodForDate _).run h₁ hv
  obtain ⟨hp, -, -⟩ := run_periodForDate h₁
  have hset : v₁.db.settings = v.db.settings := by rw [hp.eq]
  rw [hset] at h₂
  obtain ⟨rate, rows₁, rows₂, -, -, -, hr₁, hr₂, hdb₂, hw₁, hw, hps⟩ := run_entry hv₁.tick h₂ h₃ h₄
  have hms : v₄.db.movements = v.db.movements := by rw [hw.eq, Env.tick_db, hp.eq]
  refine ⟨period, rate, v₄.db, v₂.db, v₃.db, rows₁, rows₂, ?_, ?_, hr₁, hr₂,
    hp.wrote (hw.mono ((Prog.run_seq_le h₁).trans (Env.le_tick_seq v₁))), ?_,
    (run_periodForDate_posted h₁).congr hps (by rw [hw.eq, Env.tick_db])⟩
  · rw [hdb₂, Env.tick_db, hp.eq]
    rfl
  · rw [hw₁.eq, Env.tick_db, hp.eq]
    rfl
  · rw [(run_updateMovementById h₅ (hms ▸ hm)).1, hms]

theorem run_movementEntry {id je : ℕ} {m : StockMovement} {memo : String} {s₁ s₂ : ℕ → DB → List NewLine}
    {v w : Env DB Err} (hv : Fresh v.seq v.db) (hm : v.db.movements.find? id = some m) (hj : m.journalEntryId = none)
    (h : (do
      let period ← periodForDate m.movementDate
      let currency ← Prog.read fun db => db.settings.baseCurrency
      let je ← createEntry m.movementDate period currency memo ""
      insertLines je (s₁ je)
      insertLines je (s₂ je)
      updateMovementById id (·.linked je period)
      pure je : Txn ℕ).run v = .ok (je, w)) : MovementPosted v.seq id je v.db w.db := by
  obtain ⟨period, rate, mid, -, -, rows₁, rows₂, -, -, -, -, hw, e, hpost⟩ := run_movementEntry_lines hv hm h
  exact ⟨m, period, rate, memo, mid, _, hm, hj, hw, e, hpost⟩

theorem run_postInventoryIssue {id je : ℕ} {v w : Env DB Err} (h : (PostInventoryIssue id).run v = .ok (je, w))
    (hv : Fresh v.seq v.db) : MovementPosted v.seq id je v.db w.db := by
  simp only [PostInventoryIssue, Prog.run_query_bind_ok] at h
  obtain ⟨⟨m, p⟩, hmp, h⟩ := h
  simp only [Prog.run_require_bind_ok] at h
  obtain ⟨hj, -, -, -, h⟩ := h
  exact (run_movementEntry hv.tick (find?_of_movementProduct (movementHeader_eq_ok.1 hmp))
    (of_decide_eq_true hj) h).mono (Env.le_tick_seq v)

theorem run_postInventoryReceipt {id account je : ℕ} {v w : Env DB Err}
    (h : (PostInventoryReceipt id account).run v = .ok (je, w)) (hv : Fresh v.seq v.db) :
    MovementPosted v.seq id je v.db w.db := by
  simp only [PostInventoryReceipt, Prog.run_query_bind_ok] at h
  obtain ⟨⟨m, p⟩, hmp, h⟩ := h
  simp only [Prog.run_require_bind_ok, Prog.run_query_bind_ok] at h
  obtain ⟨hj, -, -, -, b, -, -, h⟩ := h
  exact (run_movementEntry hv.tick.tick (find?_of_movementProduct (movementHeader_eq_ok.1 hmp))
    (of_decide_eq_true hj) h).mono ((Env.le_tick_seq v).trans (Env.le_tick_seq _))

theorem run_postMovement {id account je : ℕ} {v w : Env DB Err}
    (h : (PostStockMovement id account).run v = .ok (je, w)) (hv : Fresh v.seq v.db) :
    MovementPosted v.seq id je v.db w.db := by
  simp only [PostStockMovement, Prog.run_query_bind_ok] at h
  obtain ⟨t, -, h⟩ := h
  split at h
  · exact (run_postInventoryIssue h hv.tick).mono (Env.le_tick_seq v)
  · split at h
    · exact absurd h Prog.run_throw_ok
    · exact (run_postInventoryReceipt h hv.tick).mono (Env.le_tick_seq v)
  · exact absurd h Prog.run_throw_ok
