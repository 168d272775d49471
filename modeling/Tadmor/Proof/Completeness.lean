import Tadmor.Proof.DoublePost
import Tadmor.Proof.UnpostAnswers

/-!
# When a posting that passes its checks succeeds

The checks of a posting leave one thing to the tables: the base amount of the control line, a net of amounts that are
rounded one by one, may come out negative.
-/

variable {spec : PostSpec} {db : DB} {d : Doc} {c : Party} {rate : ℤ} {id : ℕ}

/-! ### The accounts of the entry -/

/-- Every amount of the entry is on an account and is not zero. -/
theorem PostSpec.amounts_account (hd : spec.missingDetail id db = 0) (ht : missingTax id db = 0) :
    ∀ x ∈ spec.amounts db id, x.1.isSome = true ∧ x.2.1 ≠ 0 := by
  have hdetail := List.countP_eq_zero.1 hd
  have htax := List.countP_eq_zero.1 ht
  intro x hx
  simp only [PostSpec.amounts] at hx
  rcases List.mem_append.1 hx with hx | hx
  · obtain ⟨y, hy, rfl⟩ := List.mem_map.1 hx
    obtain ⟨hne, z, hz, hkey, hz0⟩ := exists_of_mem_groupSums hy
    obtain ⟨l, hl, rfl⟩ := List.mem_map.1 hz
    refine ⟨?_, hne⟩
    have := hdetail l hl
    simp only [Bool.and_eq_true, decide_eq_true_eq, not_and] at this
    exact Option.isSome_iff_ne_none.2 (hkey ▸ this hz0)
  · obtain ⟨y, hy, rfl⟩ := List.mem_map.1 hx
    obtain ⟨hne, z, hz, hkey, hz0⟩ := exists_of_mem_groupSums hy
    obtain ⟨l, hl, rfl⟩ := List.mem_map.1 hz
    refine ⟨?_, hne⟩
    have := htax l (List.mem_filter.1 hl).1
    simp only [Bool.and_eq_true, decide_eq_true_eq, not_and] at this
    exact Option.isSome_iff_ne_none.2 (hkey ▸ this hz0)

/-! ### The lines that the tables accept -/

/-- The line of an amount passes the checks when it is in range. -/
theorem valid_signed {n je lid account : ℕ} {a : Option ℕ} {amount : ℤ} {memo : String} (hr : 0 < rate)
    (hne : amount ≠ 0) (hrange : (NewLine.signed n a amount (toBase amount rate) memo).inRange = true) :
    ((NewLine.signed n a amount (toBase amount rate) memo).row je lid account).valid = true := by
  have hpos : 0 < toBase amount rate → 0 < amount := toBase_pos hr
  have hneg : 0 < -toBase amount rate → 0 < -amount := fun h => toBase_pos hr (by rwa [toBase_neg])
  simp only [NewLine.inRange, Bool.and_eq_true] at hrange
  rw [JournalLine.valid_iff]
  refine ⟨hrange, ⟨le_max_right .., le_max_right ..⟩, ?_, ⟨le_max_right .., le_max_right ..⟩, ?_, ?_⟩
  · show max amount 0 = 0 ↔ max (-amount) 0 ≠ 0
    omega
  · show max (toBase amount rate) 0 = 0 ∨ 0 < max amount 0
    omega
  · show max (-toBase amount rate) 0 = 0 ∨ 0 < max (-amount) 0
    omega

/-- The amounts of the document, converted and rounded one by one, in total. -/
def PostSpec.convertedTotal (spec : PostSpec) (db : DB) (id : ℕ) (rate : ℤ) : ℤ :=
  ((spec.amounts db id).map fun x => toBase x.2.1 rate).sum

theorem base_detailLines {b : Bool} {n : ℕ} {xs : List (Option ℕ × ℤ × String)} :
    ((detailLines b rate n xs).map fun l => l.baseDebit - l.baseCredit).sum =
      if b then -(xs.map fun x => toBase x.2.1 rate).sum else (xs.map fun x => toBase x.2.1 rate).sum := by
  have hnet : ∀ (n : ℕ) (account : Option ℕ) (amount base : ℤ) (memo : String),
      (NewLine.signed n account amount base memo).baseDebit - (NewLine.signed n account amount base memo).baseCredit =
        base := fun n account amount base memo => by
    show max base 0 - max (-base) 0 = base
    omega
  induction xs generalizing n with
  | nil => cases b <;> rfl
  | cons x xs ih =>
    obtain ⟨account, amount, memo⟩ := x
    rw [detailLines, List.map_cons, List.sum_cons, ih, List.map_cons, List.sum_cons]
    cases b with
    | false => simp only [Bool.false_eq_true, if_false, hnet]
    | true =>
      simp only [if_true, hnet]
      omega

/-- The line of one of the amounts. -/
theorem mem_detailLines {b : Bool} {n : ℕ} {xs : List (Option ℕ × ℤ × String)} {l : NewLine}
    (h : l ∈ detailLines b rate n xs) :
    ∃ k, ∃ x ∈ xs, l = NewLine.signed k x.1 (if b then -x.2.1 else x.2.1)
      (toBase (if b then -x.2.1 else x.2.1) rate) x.2.2 := by
  induction xs generalizing n with
  | nil => exact absurd h List.not_mem_nil
  | cons x xs ih =>
    obtain ⟨account, amount, memo⟩ := x
    rcases List.mem_cons.1 h with rfl | h
    · refine ⟨n, _, List.mem_cons_self .., ?_⟩
      cases b with
      | false => rfl
      | true => simp only [if_true, toBase_neg]
    · obtain ⟨k, x, hx, rfl⟩ := ih h
      exact ⟨k, x, List.mem_cons_of_mem _ hx, rfl⟩

theorem PostSpec.accountId_controlLine (spec : PostSpec) (details : List NewLine) :
    (spec.controlLine d c details).accountId = c.controlAccountId := by
  unfold PostSpec.controlLine
  split <;> rfl

/-- The control line in range is valid if and only if its base amount is not negative. -/
theorem PostSpec.valid_controlLine (spec : PostSpec) {je lid account : ℕ} {details : List NewLine} {base : ℤ}
    (hpos : 0 < d.total) (hrange : (spec.controlLine d c details).inRange = true)
    (hbase : (details.map fun l => l.baseDebit - l.baseCredit).sum = if spec.creditsDetails then -base else base) :
    ((spec.controlLine d c details).row je lid account).valid = true ↔ 0 ≤ base := by
  have hfits : ((fits ((spec.controlLine d c details).row je lid account).debit = true ∧
      fits ((spec.controlLine d c details).row je lid account).credit = true) ∧
      fits ((spec.controlLine d c details).row je lid account).baseDebit = true) ∧
      fits ((spec.controlLine d c details).row je lid account).baseCredit = true := by
    simp only [NewLine.inRange, Bool.and_eq_true] at hrange
    exact hrange
  rw [JournalLine.valid_iff, and_iff_right hfits]
  unfold PostSpec.controlLine
  rw [hbase]
  cases spec.creditsDetails with
  | false =>
    simp only [Bool.false_eq_true, if_false, NewLine.row]
    constructor
    · rintro ⟨-, -, ⟨-, h⟩, -⟩
      exact h
    · intro h
      exact ⟨⟨le_refl 0, hpos.le⟩, iff_of_true trivial hpos.ne', ⟨le_refl 0, h⟩, .inl trivial, .inr hpos⟩
  | true =>
    simp only [if_true, NewLine.row, neg_neg]
    constructor
    · rintro ⟨-, -, ⟨h, -⟩, -⟩
      exact h
    · intro h
      exact ⟨⟨hpos.le, le_refl 0⟩, iff_of_false hpos.ne' (not_not_intro rfl), ⟨h, le_refl 0⟩, .inr hpos, .inl trivial⟩

/-- All accounts of the lines can be posted to. -/
def DB.TakesAll (db : DB) (ls : List NewLine) : Prop := ∀ l ∈ ls, ∀ a, l.accountId = some a → db.takes a = true

/-- The lines of a document on accounts that can be posted to, in range, are accepted if and only if the base amount of
the control line is not negative. -/
theorem PostSpec.accepts_plan (hr : 0 < rate) (hd : spec.missingDetail d.id db = 0) (ht : missingTax d.id db = 0)
    (hpos : 0 < d.total) (hc : c.controlAccountId.isSome = true)
    (htakes : db.TakesAll (spec.plan db d c rate)) (hrange : inRange (spec.plan db d c rate) = true) :
    db.accepts (spec.plan db d c rate) = true ↔ 0 ≤ spec.convertedTotal db d.id rate := by
  have hall : ∀ l ∈ spec.plan db d c rate, l.inRange = true := by
    simp only [inRange, Bool.and_eq_true, List.all_eq_true] at hrange
    exact hrange.1.1
  have hlines := fun l (hl : l ∈ detailLines spec.creditsDetails rate (if spec.creditsDetails then 2 else 1)
    (spec.amounts db d.id)) => mem_detailLines hl
  have hbase : ((detailLines spec.creditsDetails rate (if spec.creditsDetails then 2 else 1)
      (spec.amounts db d.id)).map fun l => l.baseDebit - l.baseCredit).sum = _ := base_detailLines
  rw [DB.accepts, hrange, Bool.and_true]
  unfold DB.TakesAll at htakes
  unfold PostSpec.plan at hall htakes ⊢
  generalize detailLines spec.creditsDetails rate (if spec.creditsDetails then 2 else 1) (spec.amounts db d.id) =
    details at hall htakes hlines hbase ⊢
  have hdetails : ∀ l ∈ details, l.accepted db = true := by
    intro l hl
    have hrangel := hall l (List.mem_append_left _ hl)
    have htakesl := htakes l (List.mem_append_left _ hl)
    obtain ⟨k, x, hx, rfl⟩ := hlines l hl
    obtain ⟨hsome, hne⟩ := spec.amounts_account hd ht x hx
    obtain ⟨a, ha⟩ := Option.isSome_iff_exists.1 hsome
    have haccount : (NewLine.signed k x.1 (if spec.creditsDetails then -x.2.1 else x.2.1)
      (toBase (if spec.creditsDetails then -x.2.1 else x.2.1) rate) x.2.2).accountId = some a := ha
    rw [NewLine.accepted, haccount, Option.any_some, Bool.and_eq_true]
    refine ⟨valid_signed hr ?_ hrangel, htakesl a ha⟩
    split
    · exact neg_ne_zero.2 hne
    · exact hne
  have hmem := List.mem_append_right details (List.mem_singleton_self (spec.controlLine d c details))
  obtain ⟨control, hcontrol⟩ := Option.isSome_iff_exists.1 hc
  have haccount := (spec.accountId_controlLine (d := d) (c := c) details).trans hcontrol
  rw [List.all_append, Bool.and_eq_true, List.all_eq_true, and_iff_right hdetails, List.all_cons, List.all_nil,
    Bool.and_true, NewLine.accepted, haccount, Option.any_some, htakes _ hmem control haccount, Bool.and_true]
  exact spec.valid_controlLine hpos (hall _ hmem) hbase

/-! ### Posting is complete up to the control line -/

/-- The documented checks of a posting pass. -/
structure PostSpec.Ready (spec : PostSpec) (db : DB) (id : ℕ) (d : Doc) (c : Party) (rate : ℤ) : Prop where
  doc : db.docParty spec.kind id = some (d, c)
  draft : d.status = .draft
  total : 0 < d.total
  control : c.controlAccountId.isSome = true
  detail : spec.missingDetail id db = 0
  tax : missingTax id db = 0
  period : db.canPost d.date = true
  rate : db.rateFor d.currencyCode d.date = some rate

theorem PostSpec.Ready.attempt (h : spec.Ready db id d c rate) : spec.attempt db id = some (spec.plan db d c rate) := by
  rw [PostSpec.attempt, h.doc, Option.bind_some, if_pos ⟨h.draft, h.total, h.control, h.detail, h.tax, h.period⟩, h.rate]
  rfl

/-- The post of the document succeeds, with lines that pass the checks of the tables and balance. -/
def PostedKind.Completes (kind : PostedKind) (id : ℕ) (gaps : ℕ → ℕ) (s : Store DB) : Prop :=
  ∃ s' je, (transaction (.postDoc kind id)).commit gaps s = .ok ((), s') ∧ s'.db.IsPosted je (.doc kind id) = true ∧
    (∀ l ∈ s'.db.linesOf je, l.valid = true) ∧ DB.entryBalanced je s'.db = .ok ()

/-- A document that passes the checks, with accounts that can be posted to and amounts in range, is posted if and only
if its converted amounts do not sum to a negative number. -/
theorem post_succeeds_iff {kind : PostedKind} {s : Store DB} (hs : Reachable s) (gaps : ℕ → ℕ)
    (h : kind.spec.Ready s.db id d c rate)
    (htakes : s.db.TakesAll (kind.spec.plan s.db d c rate)) (hrange : inRange (kind.spec.plan s.db d c rate) = true) :
    kind.Completes id gaps s ↔ 0 ≤ kind.spec.convertedTotal s.db id rate := by
  have hid : d.id = id := by
    obtain ⟨d', hdoc, hd⟩ := Option.bind_eq_some_iff.1 h.doc
    obtain ⟨c', -, hc⟩ := Option.map_eq_some_iff.1 hd
    cases hc
    exact Table.key_of_find? (docOf_eq_some.1 hdoc).1
  have hdecided : Decided _ _ (transaction (.postDoc kind id)) gaps s := (wp_postDoc (hs.steady gaps) hs.docsOk).void.commit
  rw [h.attempt, Option.all_some] at hdecided
  have haccepts := kind.spec.accepts_plan (rateFor_pos hs.rowsChecked.rows h.rate) (hid ▸ h.detail) (hid ▸ h.tax) h.total
    h.control htakes hrange
  rw [hid] at haccepts
  constructor
  · rintro ⟨s', je, hcommit, -⟩
    by_contra hneg
    obtain ⟨e, he, -⟩ := hdecided.faults (by simp) (mt haccepts.1 hneg)
    rw [hcommit] at he
    cases he
  · intro hpos
    obtain ⟨⟨u, s'⟩, hcommit⟩ := hdecided.succeeds (by simp) (haccepts.2 hpos)
    have hs' : Reachable s' := hs.step ⟨_, gaps, hcommit⟩
    obtain ⟨-, e, -, hposted⟩ := commit_posts (t := .doc kind id) rfl hcommit hs.fresh
    exact ⟨s', e.id, hcommit, hposted, fun l hl => hs'.rowsChecked.valid l (List.mem_filter.1 hl).1,
      hs'.entryBalanced e.id⟩

/-- The hypotheses of a complete posting, decided. -/
def PostSpec.readyAt (spec : PostSpec) (id : ℕ) (rate : ℤ) (db : DB) : Bool :=
  (db.docParty spec.kind id).any fun x =>
    x.1.status = .draft ∧ 0 < x.1.total ∧ x.2.controlAccountId.isSome ∧ spec.missingDetail id db = 0 ∧
      missingTax id db = 0 ∧ db.canPost x.1.date ∧ db.rateFor x.1.currencyCode x.1.date = some rate ∧
      (∀ l ∈ spec.plan db x.1 x.2 rate, l.accountId.all db.takes) ∧ inRange (spec.plan db x.1 x.2 rate)

theorem PostSpec.exists_ready (h : spec.readyAt id rate db = true) :
    ∃ d c, spec.Ready db id d c rate ∧ db.TakesAll (spec.plan db d c rate) ∧ inRange (spec.plan db d c rate) = true := by
  obtain ⟨⟨d, c⟩, hdoc, h⟩ := (Option.any_eq_true ..).1 h
  obtain ⟨hs, ht, hc, hd, htax, hp, hr, hacc, hrange⟩ := of_decide_eq_true h
  refine ⟨d, c, ⟨hdoc, hs, ht, hc, hd, htax, hp, hr⟩, fun l hl a ha => ?_, hrange⟩
  have := hacc l hl
  rw [ha] at this
  exact this

/-- An invoice of 100 dollars. -/
theorem post_succeeds_iff_opening : ∃ s : Store DB, s.db.IsDraft (.doc .salesInvoice 15) = true ∧
    (PostedKind.salesInvoice.Completes 15 (fun _ => 0) s ↔ 0 ≤ salesInvoicePost.convertedTotal s.db 15 (10 ^ 8)) := by
  obtain ⟨s, hs, hp⟩ := exists_reachable opening (p := fun s =>
    s.db.IsDraft (.doc .salesInvoice 15) = true ∧ salesInvoicePost.readyAt 15 (10 ^ 8) s.db = true) (by decide +kernel)
  obtain ⟨hdraft, hready⟩ := of_decide_eq_true hp
  obtain ⟨d, c, h, htakes, hrange⟩ := PostSpec.exists_ready hready
  exact ⟨s, hdraft, post_succeeds_iff hs _ h htakes hrange⟩

/-- An invoice over 0.0004, 0.0004 and -0.0005 euros on three accounts. -/
def fractions : DocInput :=
  { number := "I1", partyId := 14, date := march5, currencyCode := "EUR",
    lines := [{ accountId := some 8, unitPrice := 4 }, { accountId := some 9, unitPrice := 4 },
      { accountId := some 10, unitPrice := -5 }] }

/-- At a rate of 0.1 the invoice comes to 0.0003 euros, but its lines to 0, 0 and -0.0001 dollars. -/
theorem post_incomplete : ¬∀ s : Store DB, Reachable s → ∀ (kind : PostedKind) (id : ℕ) (gaps : ℕ → ℕ) (d : Doc)
    (c : Party) (rate : ℤ), kind.spec.Ready s.db id d c rate → s.db.TakesAll (kind.spec.plan s.db d c rate) →
      inRange (kind.spec.plan s.db d c rate) = true → kind.Completes id gaps s := by
  intro hall
  obtain ⟨s, hs, hp⟩ := exists_reachable
    [.createFiscalYear ⟨"FY2026", yearStart, yearEnd⟩, .createParty .sales (some 2),
      .createExchangeRate "EUR" march5 (10 ^ 7), .createDoc .salesInvoice fractions]
    (p := fun s => salesInvoicePost.readyAt 15 (10 ^ 7) s.db = true ∧
      ((transaction (.postDoc .salesInvoice 15)).commit (fun _ => 0) s).toOption.isSome = false) (by decide +kernel)
  obtain ⟨hready, hfails⟩ := of_decide_eq_true hp
  obtain ⟨d, c, h, htakes, hrange⟩ := PostSpec.exists_ready hready
  obtain ⟨s', je, hcommit, -⟩ := hall s hs .salesInvoice 15 (fun _ => 0) d c _ h htakes hrange
  rw [hcommit] at hfails
  cases hfails
