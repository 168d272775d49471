import Mathlib.Data.Multiset.Filter
import Mathlib.Data.Finset.Image
import Tadmor.Proof.Ledger
import Tadmor.Proof.RoundTrip

/-!
# What the entry of a document says

The entry of a document has one line for each account and each tax account on which the document's lines do not
cancel, and one control line.  The content is stated from the document; the posting computes it by grouping.
-/

/-- What a line of an entry says; the rest of the line is its place in the entry. -/
structure Content where
  account : ℕ
  debit : ℤ
  credit : ℤ
  baseDebit : ℤ
  baseCredit : ℤ
deriving DecidableEq

def JournalLine.content (l : JournalLine) : Content := ⟨l.accountId, l.debit, l.credit, l.baseDebit, l.baseCredit⟩

/-- The content of the lines of an entry, as a multiset. -/
def DB.content (db : DB) (je : ℕ) : Multiset Content := ((db.linesOf je).map JournalLine.content : List Content)

/-- An amount on the credit or on the debit side of an account. -/
def onSide (credit : Bool) (account : ℕ) (amount base : ℤ) : Content :=
  if credit then ⟨account, 0, amount, 0, base⟩ else ⟨account, amount, 0, base, 0⟩

/-- The line of a net amount: its absolute value, on the other side if it is negative. -/
def netLine (credit : Bool) (rate : ℤ) (account : ℕ) (net : ℤ) : Content :=
  onSide (if net < 0 then !credit else credit) account |net| (toBase |net| rate)

/-! ### Nets -/

section nets

variable {ι : Type} (account : ι → Option ℕ) (amount : ι → ℤ) (xs : List ι)

/-- The net amount on the account `a`. -/
def netOn (a : ℕ) : ℤ := ((xs.filter fun x => account x = some a).map amount).sum

/-- The accounts with a net amount. -/
def accountsOf : Finset ℕ := (xs.filterMap account).toFinset.filter fun a => netOn account amount xs a ≠ 0

/-- One line for each account with a net amount. -/
def netLines (credit : Bool) (rate : ℤ) : Multiset Content :=
  (accountsOf account amount xs).val.map fun a => netLine credit rate a (netOn account amount xs a)

end nets

/-! ### The four documents -/

namespace PostedKind

/-- The detail lines of an invoice and of a supplier's credit note are credits, the others debits. -/
def detailsCredit : PostedKind → Bool
  | salesInvoice => true
  | purchaseBill => false
  | salesCreditNote => false
  | purchaseCreditNote => true

/-- The account that a product gives its lines. -/
def fallback : PostedKind → Product → Option ℕ
  | salesInvoice, p => p.revenueAccountId
  | salesCreditNote, p => p.revenueAccountId
  | purchaseBill, p => p.inventoryAccountId
  | purchaseCreditNote, p => p.inventoryAccountId

def lineAccount (kind : PostedKind) (db : DB) (l : DocLine) : Option ℕ :=
  match l.accountId with
  | some a => some a
  | none => (l.productId.bind db.products.find?).bind kind.fallback

def details (kind : PostedKind) (db : DB) (d : Doc) (rate : ℤ) : Multiset Content :=
  netLines (kind.lineAccount db) (·.lineSubtotal) (db.linesOfDoc d.id) kind.detailsCredit rate +
    netLines db.taxAccount (·.taxAmount) (db.linesOfDoc d.id) kind.detailsCredit rate

/-- The net base amount of the detail lines, on their side. -/
def detailsBase (kind : PostedKind) (db : DB) (d : Doc) (rate : ℤ) : ℤ :=
  ((kind.details db d rate).map fun x =>
    if kind.detailsCredit then x.baseCredit - x.baseDebit else x.baseDebit - x.baseCredit).sum

/-- The content of the entry of the document `d`: the detail lines, and the total on the other side of the control
account. -/
def content (kind : PostedKind) (db : DB) (d : Doc) (control : ℕ) (rate : ℤ) : Multiset Content :=
  onSide (!kind.detailsCredit) control d.total (kind.detailsBase db d rate) ::ₘ kind.details db d rate

end PostedKind

theorem PostedKind.spec_creditsDetails (kind : PostedKind) : kind.spec.creditsDetails = kind.detailsCredit := by
  cases kind <;> rfl

theorem PostedKind.spec_detailAccount (kind : PostedKind) (db : DB) : kind.spec.detailAccount db = kind.lineAccount db := by
  funext l
  unfold PostSpec.detailAccount PostedKind.lineAccount
  cases l.accountId with
  | some a => rfl
  | none =>
    have hf : kind.spec.productAccount = kind.fallback := by
      funext p
      cases kind <;> rfl
    rw [hf]
    rfl

/-! ### Grouped sums -/

theorem mem_groupSums {xs : List (Option ℕ × ℤ)} {x : Option ℕ × ℤ} :
    x ∈ groupSums xs ↔ x.2 = ((xs.filter fun y => y.1 = x.1).map Prod.snd).sum ∧ x.2 ≠ 0 := by
  unfold groupSums
  rw [List.mem_filter, List.mem_map]
  constructor
  · rintro ⟨⟨k, -, rfl⟩, hz⟩
    exact ⟨rfl, of_decide_eq_true hz⟩
  · rintro ⟨hsum, hz⟩
    refine ⟨⟨x.1, ?_, Prod.ext rfl hsum.symm⟩, decide_eq_true hz⟩
    rw [(List.perm_insertionSort _ _).mem_iff, List.mem_dedup]
    by_contra hk
    have hnone : xs.filter (fun y => y.1 = x.1) = [] := by
      rw [List.filter_eq_nil_iff]
      intro y hy e
      exact hk (List.mem_map.2 ⟨y, hy, of_decide_eq_true e⟩)
    rw [hnone] at hsum
    exact hz hsum

theorem exists_of_mem_groupSums {xs : List (Option ℕ × ℤ)} {x : Option ℕ × ℤ} (h : x ∈ groupSums xs) :
    x.2 ≠ 0 ∧ ∃ y ∈ xs, y.1 = x.1 ∧ y.2 ≠ 0 := by
  obtain ⟨hsum, hne⟩ := mem_groupSums.1 h
  refine ⟨hne, ?_⟩
  by_contra hno
  refine hne (hsum.trans (List.sum_eq_zero fun z hz => ?_))
  obtain ⟨y, hy, rfl⟩ := List.mem_map.1 hz
  obtain ⟨hy, hk⟩ := List.mem_filter.1 hy
  by_contra hz
  exact hno ⟨y, hy, of_decide_eq_true hk, hz⟩

theorem nodup_groupSums (xs : List (Option ℕ × ℤ)) : (groupSums xs).Nodup := by
  have hn : ((xs.map Prod.fst).dedup.insertionSort fun a b => accountLE a b = true).Nodup :=
    (List.perm_insertionSort _ _).nodup_iff.2 (List.nodup_dedup _)
  refine List.Nodup.filter _ (hn.map fun a b e => ?_)
  exact congrArg Prod.fst e

theorem mem_accountsOf {ι : Type} {account : ι → Option ℕ} {amount : ι → ℤ} {xs : List ι} {a : ℕ} :
    a ∈ accountsOf account amount xs ↔ netOn account amount xs a ≠ 0 := by
  rw [accountsOf, Finset.mem_filter, List.mem_toFinset, and_iff_right_iff_imp]
  intro hz
  by_contra hk
  have hnone : xs.filter (fun x => account x = some a) = [] := by
    rw [List.filter_eq_nil_iff]
    intro x hx e
    exact hk (List.mem_filterMap.2 ⟨x, hx, of_decide_eq_true e⟩)
  rw [netOn, hnone] at hz
  exact hz rfl

/-- Grouping finds the accounts with a net amount; groups without an account are dropped. -/
theorem coe_groupSums {ι : Type} {account : ι → Option ℕ} {amount : ι → ℤ} {xs : List ι} {ys : List (Option ℕ × ℤ)}
    (h : ∀ a, ((ys.filter fun y => y.1 = some a).map Prod.snd).sum = netOn account amount xs a) :
    (((groupSums ys).filterMap fun y => y.1.map fun a => (a, y.2) : List (ℕ × ℤ)) : Multiset (ℕ × ℤ)) =
      (accountsOf account amount xs).val.map fun a => (a, netOn account amount xs a) := by
  refine (Multiset.Nodup.ext ?_ ?_).2 fun x => ?_
  · rw [Multiset.coe_nodup]
    refine (nodup_groupSums ys).filterMap fun y y' x hy hy' => ?_
    obtain ⟨a, ha, rfl⟩ := Option.mem_map.1 hy
    obtain ⟨a', ha', e⟩ := Option.mem_map.1 hy'
    rw [Prod.mk.injEq] at e
    exact Prod.ext (ha.trans (e.1 ▸ ha'.symm)) e.2.symm
  · exact (accountsOf account amount xs).nodup.map fun a b e => congrArg Prod.fst e
  · obtain ⟨a, v⟩ := x
    rw [Multiset.mem_coe, List.mem_filterMap, Multiset.mem_map]
    constructor
    · rintro ⟨y, hy, e⟩
      obtain ⟨b, hb, e⟩ := Option.map_eq_some_iff.1 e
      obtain ⟨hsum, hz⟩ := mem_groupSums.1 hy
      rw [Prod.mk.injEq] at e
      obtain ⟨rfl, rfl⟩ := e
      rw [hb, h] at hsum
      exact ⟨b, mem_accountsOf.2 (hsum ▸ hz), by rw [hsum]⟩
    · rintro ⟨b, hb, e⟩
      rw [Prod.mk.injEq] at e
      obtain ⟨rfl, rfl⟩ := e
      exact ⟨(some b, _), mem_groupSums.2 ⟨(h b).symm, mem_accountsOf.1 hb⟩, rfl⟩

/-! ### The lines that a posting inserts -/

/-- The content of the row that a line becomes. -/
def NewLine.content (l : NewLine) : Option Content :=
  l.accountId.map fun a => ⟨a, l.debit, l.credit, l.baseDebit, l.baseCredit⟩

theorem forall₂_becomes_content {je : ℕ} {ls : List NewLine} {rows : List JournalLine}
    (h : List.Forall₂ (NewLine.Becomes je) ls rows) : rows.map JournalLine.content = ls.filterMap NewLine.content := by
  induction h with
  | nil => rfl
  | cons hb _ ih =>
    obtain ⟨id, account, ha, rfl⟩ := hb
    rw [List.map_cons, ih, List.filterMap_cons_some (b := ⟨account, _, _, _, _⟩) (by rw [NewLine.content, ha]; rfl)]
    rfl

theorem toBase_neg (amount rate : ℤ) : toBase (-amount) rate = -toBase amount rate := by
  rw [toBase, toBase, neg_mul, roundDiv_neg]

theorem toBase_nonneg {amount rate : ℤ} (ha : 0 ≤ amount) (hr : 0 < rate) : 0 ≤ toBase amount rate :=
  roundDiv_nonneg (mul_nonneg ha hr.le) _

theorem toBase_pos {amount rate : ℤ} (hr : 0 < rate) (h : 0 < toBase amount rate) : 0 < amount := by
  by_contra ha
  have := toBase_nonneg (show 0 ≤ -amount by omega) hr
  rw [toBase_neg] at this
  omega

/-- The two ways in which the source tells the sides apart are the net line. -/
theorem content_signed {rate : ℤ} (hr : 0 < rate) (credit : Bool) (n : ℕ) (account : Option ℕ) (net : ℤ) (memo : String) :
    (if credit then NewLine.signed n account (-net) (-toBase net rate) memo
      else NewLine.signed n account net (toBase net rate) memo).content =
      account.map fun a => netLine credit rate a net := by
  cases account with
  | none => cases credit <;> rfl
  | some a =>
    by_cases hneg : net < 0
    · have hb := toBase_nonneg (show 0 ≤ -net by omega) hr
      have habs : |net| = -net := abs_of_neg hneg
      have hbase := toBase_neg net rate
      cases credit with
      | true =>
        simp only [NewLine.content, NewLine.signed, netLine, onSide, hneg, habs, if_true, Option.map_some,
          Bool.not_true, Bool.false_eq_true, if_false, Option.some.injEq, Content.mk.injEq, true_and]
        omega
      | false =>
        simp only [NewLine.content, NewLine.signed, netLine, onSide, hneg, habs, if_true, Option.map_some,
          Bool.not_false, Bool.false_eq_true, if_false, Option.some.injEq, Content.mk.injEq, true_and]
        omega
    · have hb := toBase_nonneg (show 0 ≤ net by omega) hr
      have habs : |net| = net := abs_of_nonneg (by omega)
      cases credit with
      | true =>
        simp only [NewLine.content, NewLine.signed, netLine, onSide, hneg, habs, if_true, Option.map_some,
          if_false, Option.some.injEq, Content.mk.injEq, true_and]
        omega
      | false =>
        simp only [NewLine.content, NewLine.signed, netLine, onSide, hneg, habs, Option.map_some,
          Bool.false_eq_true, if_false, Option.some.injEq, Content.mk.injEq, true_and]
        omega

theorem content_detailLines {rate : ℤ} (hr : 0 < rate) (credit : Bool) (n : ℕ) (xs : List (Option ℕ × ℤ × String)) :
    (detailLines credit rate n xs).filterMap NewLine.content =
      xs.filterMap fun x => x.1.map fun a => netLine credit rate a x.2.1 := by
  induction xs generalizing n with
  | nil => rfl
  | cons x xs ih =>
    obtain ⟨account, amount, memo⟩ := x
    rw [detailLines, List.filterMap_cons, List.filterMap_cons, ih, content_signed hr]

theorem coe_groupLines {ι : Type} {account : ι → Option ℕ} {amount : ι → ℤ} {xs : List ι} {ys : List (Option ℕ × ℤ)}
    (credit : Bool) (rate : ℤ) (memo : String)
    (h : ∀ a, ((ys.filter fun y => y.1 = some a).map Prod.snd).sum = netOn account amount xs a) :
    ((((groupSums ys).map fun y => (y.1, y.2, memo)).filterMap fun x => x.1.map fun a => netLine credit rate a x.2.1 :
      List Content) : Multiset Content) = netLines account amount xs credit rate := by
  have e : (((groupSums ys).map fun y => (y.1, y.2, memo)).filterMap fun x => x.1.map fun a => netLine credit rate a x.2.1) =
      ((groupSums ys).filterMap fun y => y.1.map fun a => (a, y.2)).map fun p => netLine credit rate p.1 p.2 := by
    rw [List.filterMap_map, List.map_filterMap]
    congr 1
    funext y
    rw [Option.map_map]
    rfl
  rw [e, ← Multiset.map_coe, coe_groupSums h, Multiset.map_map]
  rfl

theorem netOn_map {ι : Type} (account : ι → Option ℕ) (amount : ι → ℤ) (xs : List ι) (a : ℕ) :
    (((xs.map fun x => (account x, amount x)).filter fun y => y.1 = some a).map Prod.snd).sum =
      netOn account amount xs a := by
  rw [List.filter_map, List.map_map]
  rfl

/-- Lines without an amount or without an account do not count. -/
theorem netOn_filter {ι : Type} {account : ι → Option ℕ} {amount : ι → ℤ} {p : ι → Bool} {xs : List ι}
    (hp : ∀ x ∈ xs, p x = false → amount x = 0 ∨ account x = none) (a : ℕ) :
    netOn account amount (xs.filter p) a = netOn account amount xs a := by
  induction xs with
  | nil => rfl
  | cons x xs ih =>
    have ih := ih fun y hy => hp y (List.mem_cons_of_mem _ hy)
    unfold netOn at ih ⊢
    by_cases hx : p x = true
    · rw [List.filter_cons_of_pos hx, List.filter_cons, List.filter_cons]
      split
      · rw [List.map_cons, List.sum_cons, List.map_cons, List.sum_cons, ih]
      · exact ih
    · rw [List.filter_cons_of_neg hx, ih, List.filter_cons]
      split
      · rename_i ha
        rcases hp x (List.mem_cons_self ..) (by simpa using hx) with hz | hn
        · rw [List.map_cons, List.sum_cons, hz, zero_add]
        · rw [hn] at ha
          cases of_decide_eq_true ha
      · rfl

theorem taxAccount_of_taxed {db : DB} {l : DocLine}
    (h : (l.taxAmount ≠ 0 && (l.taxCode.bind db.taxCodes.find?).isSome) = false) :
    l.taxAmount = 0 ∨ db.taxAccount l = none := by
  by_cases hz : l.taxAmount = 0
  · exact .inl hz
  · right
    cases ht : l.taxCode.bind db.taxCodes.find? with
    | none => rw [DB.taxAccount, ht]; rfl
    | some t => simp [hz, ht] at h

/-- The detail lines that a posting inserts say what the document says. -/
theorem PostedKind.coe_details {kind : PostedKind} {db : DB} {d : Doc} {rate : ℤ} (hr : 0 < rate) (n : ℕ) :
    (((detailLines kind.spec.creditsDetails rate n (kind.spec.amounts db d.id)).filterMap NewLine.content :
      List Content) : Multiset Content) = kind.details db d rate := by
  rw [content_detailLines hr, PostSpec.amounts, List.filterMap_append, ← Multiset.coe_add, kind.spec_creditsDetails,
    kind.spec_detailAccount, PostedKind.details]
  congr 1
  · exact coe_groupLines _ _ _ fun a => netOn_map ..
  · refine coe_groupLines _ _ _ fun a => ?_
    rw [netOn_map, netOn_filter fun x _ hx => taxAccount_of_taxed hx]

/-! ### The entry -/

theorem DB.docOf_id {db : DB} {kind : DocKind} {id : ℕ} {d : Doc} (h : db.docOf kind id = some d) : d.id = id :=
  (Table.find?_eq_some.1 (docOf_eq_some.1 h).1).2

section

variable {kind : PostedKind} {id je lo period : ℕ} {db mid before : DB} {d : Doc} {c : Party} {rate : ℤ}
  {details : List JournalLine} {l : NewLine} {row : JournalLine}

theorem DocPosted.coe_details (h : DocPosted kind.spec id je lo db mid d c period rate before details l row) :
    (details.map JournalLine.content : Multiset Content) = kind.details db d rate := by
  rw [forall₂_becomes_content h.became, ← DB.docOf_id (docParty_eq_some.1 h.doc).1]
  exact PostedKind.coe_details h.rate_pos _

/-- What the detail lines of the entry add to the base amount of the control line. -/
theorem DocPosted.sum_base (h : DocPosted kind.spec id je lo db mid d c period rate before details l row)
    (ho : JournalOk db) :
    ((before.linesOf je).map fun l => l.baseDebit - l.baseCredit).sum =
      ((kind.details db d rate).map fun x => x.baseDebit - x.baseCredit).sum := by
  have hl : before.linesOf je = details := h.written.linesOf ho
  rw [hl, ← h.coe_details, Multiset.map_coe, Multiset.sum_coe, List.map_map]
  rfl

theorem DocPosted.content_control (h : DocPosted kind.spec id je lo db mid d c period rate before details l row)
    (ho : JournalOk db) : ∃ control, c.controlAccountId = some control ∧
      row.content = onSide (!kind.detailsCredit) control d.total (kind.detailsBase db d rate) := by
  obtain ⟨l', hl, hacc, -, hdeb, hcred, hbd, hbc⟩ :=
    PostSpec.control_eq je ((h.written.docParty _ _).trans h.doc)
  obtain rfl : l' = l := by simpa using hl.symm.trans h.control
  obtain ⟨lid, account, ha, hrow⟩ := h.row_eq
  refine ⟨account, hacc.symm.trans ha, ?_⟩
  have hcontent : row.content = ⟨account, l'.debit, l'.credit, l'.baseDebit, l'.baseCredit⟩ := by
    rw [hrow]
    rfl
  rw [hcontent, hdeb, hcred, hbd, hbc, h.sum_base ho, kind.spec_creditsDetails, PostedKind.detailsBase]
  cases kind.detailsCredit with
  | true =>
    simp only [if_true, Bool.not_true, onSide, Bool.false_eq_true, if_false]
    rw [← Multiset.sum_map_neg]
    simp only [neg_sub]
  | false => rfl

theorem DocPosted.content (h : DocPosted kind.spec id je lo db mid d c period rate before details l row)
    (ho : JournalOk db) : ∃ control, c.controlAccountId = some control ∧
      mid.content je = kind.content db d control rate := by
  obtain ⟨control, hc, hrow⟩ := h.content_control ho
  have hl : mid.linesOf je = details ++ [row] := h.wrote.linesOf ho
  refine ⟨control, hc, ?_⟩
  rw [DB.content, hl, List.map_append, ← Multiset.coe_add, h.coe_details, List.map_singleton, Multiset.coe_singleton,
    hrow, add_comm, Multiset.singleton_add]
  rfl

end

/-- The lines of an entry balance in the entry's currency and in base. -/
structure Balances (ls : Multiset Content) : Prop where
  amount : (ls.map Content.debit).sum = (ls.map Content.credit).sum
  base : (ls.map Content.baseDebit).sum = (ls.map Content.baseCredit).sum

theorem DB.balances_content {db : DB} {e : JournalEntry} (he : e ∈ db.entries) (hs : e.status = .posted)
    (h : DB.entryBalanced e.id db = .ok ()) : Balances (db.content e.id) := by
  have hsum : ∀ f : Content → ℤ, ((db.content e.id).map f).sum = ((db.linesOf e.id).map (f ∘ JournalLine.content)).sum := by
    intro f
    rw [DB.content, Multiset.map_coe, Multiset.sum_coe, List.map_map]
  obtain ⟨h₁, h₂⟩ := entryBalanced_eq_ok he hs h
  exact ⟨by rw [hsum, hsum]; exact h₁, by rw [hsum, hsum]; exact h₂⟩

/-- Posting a document writes the entry that the document says, and it balances. -/
theorem entry_content {kind : PostedKind} {id : ℕ} {gaps : ℕ → ℕ} {s s' : Store DB} (hs : Reachable s)
    (h : (transaction (.postDoc kind id)).commit gaps s = .ok ((), s')) :
    ∃ d c control rate je, s.db.docOf kind.spec.kind id = some d ∧ d.status = .draft ∧
      s.db.partyOf kind.spec.kind.side d.partyId = some c ∧ c.controlAccountId = some control ∧
      s.db.rateFor d.currencyCode d.date = some rate ∧ s.db.entries.Free je ∧
      (s'.db.docOf kind.spec.kind id).bind (·.journalEntryId) = some je ∧
      s'.db.content je = kind.content s.db d control rate ∧ Balances (s'.db.content je) := by
  have hs' : Reachable s' := hs.step ⟨_, gaps, h⟩
  obtain ⟨v, hrun, -, rfl⟩ := Prog.commit_eq_ok.1 h
  obtain ⟨je, hrun⟩ := run_void hrun
  obtain ⟨d, c, period, rate, before, details, l, row, mid, hp, hdb, -⟩ := run_postDoc_lines hrun hs.fresh
  obtain ⟨hdoc, hparty⟩ := docParty_eq_some.1 hp.doc
  obtain ⟨control, hc, hcontent⟩ := hp.content hs.journalOk
  have hlines : v.db.content je = mid.content je := by rw [hdb]; rfl
  refine ⟨d, c, control, rate, je, hdoc, hp.draft, hparty, hc, hp.rate_eq, hp.wrote.free, ?_, hlines.trans hcontent, ?_⟩
  · obtain ⟨hfind, hk⟩ := docOf_eq_some.1 hdoc
    have hfind' : v.db.docs.find? id = some (d.posted je period) := by
      rw [hdb]
      exact Table.find?_update_self (f := (·.posted je period)) (fun _ => rfl) hfind
    rw [docOf_eq_some.2 ⟨hfind', hk⟩]
    rfl
  · have he : entryOf je d.date period d.currencyCode rate (kind.spec.entryMemo ++ d.number) d.number ∈ v.db.entries := by
      rw [hdb]
      exact hp.wrote.mem_entries.2 (.inr rfl)
    exact DB.balances_content he rfl (hs'.entryBalanced je)

/-- Two lines on one account, a discount, a line on the tax account and two that cancel. -/
def euroDiscount : DocInput :=
  { number := "I1", partyId := 14, date := march5, currencyCode := "EUR",
    lines := [
      { accountId := some 8, unitPrice := dollars 100 },
      { accountId := some 8, unitPrice := dollars 50, taxCode := some "STD", taxRate := dollars 10 },
      { accountId := some 5, unitPrice := dollars 30 },
      { accountId := some 9, unitPrice := dollars 40, quantity := -10 ^ 4 },
      { accountId := some 10, unitPrice := dollars 20 },
      { accountId := some 10, unitPrice := -dollars 20 }] }

theorem entry_content_discount : ∃ s s' : Store DB, ∃ je,
    (s'.db.linesOf je).map JournalLine.content = [
      ⟨5, 0, dollars 30, 0, dollars 33⟩, ⟨8, 0, dollars 150, 0, dollars 165⟩, ⟨9, dollars 40, 0, dollars 44, 0⟩,
      ⟨5, 0, dollars 5, 0, 55000⟩, ⟨2, dollars 145, 0, 1595000, 0⟩] ∧
    ∃ d control rate, s'.db.content je = PostedKind.salesInvoice.content s.db d control rate ∧
      Balances (s'.db.content je) := by
  obtain ⟨s, hs, h⟩ := exists_reachable [
      .createFiscalYear ⟨"FY2026", yearStart, yearEnd⟩,
      .createParty .sales (some 2),
      .createExchangeRate "EUR" march5 110000000,
      .createDoc .salesInvoice euroDiscount]
    (p := commits (.postDoc .salesInvoice 15) fun s' =>
      ((s'.db.docOf .salesInvoice 15).bind (·.journalEntryId)).any fun je =>
        decide ((s'.db.linesOf je).map JournalLine.content = [
          ⟨5, 0, dollars 30, 0, dollars 33⟩, ⟨8, 0, dollars 150, 0, dollars 165⟩, ⟨9, dollars 40, 0, dollars 44, 0⟩,
          ⟨5, 0, dollars 5, 0, 55000⟩, ⟨2, dollars 145, 0, 1595000, 0⟩])) (by decide +kernel)
  obtain ⟨s', h, hq⟩ := of_commits h
  obtain ⟨je, hje, hq⟩ := (Option.any_eq_true ..).1 hq
  obtain ⟨d, c, control, rate, je', -, -, -, -, -, -, hlink, hcontent, hbal⟩ := entry_content hs h
  obtain rfl : je = je' := Option.some.inj (hje.symm.trans hlink)
  exact ⟨s, s', je, of_decide_eq_true hq, d, control, rate, hcontent, hbal⟩
