import Tadmor.Proof.RoundTrip
import Tadmor.Proof.Sweep

/-!
# What a close does to the balances

The closing entry takes every revenue and expense balance to the retained earnings and touches no other account.  It
does not count as income, so no profit and loss statement changes, and what it takes from the current earnings of a
balance sheet it puts on the account of the retained earnings.
-/

namespace DB

/-- The revenue and expense balances on the date, added up. -/
def incomeBalance (db : DB) (date : Date) : ℤ :=
  ((db.accounts.rows.filter (·.accountType.isIncome)).map fun a => db.balanceAt a date).sum

/-- Current earnings and the balance of the account `retained` as a balance sheet has them, before its casts. -/
def earnings (db : DB) (asOf : Option Date) (retained : ℕ) : ℤ :=
  (((db.activity (·.upTo asOf) (·.accountType.isBalanceSheet) sheetAmount).filter fun r =>
      r.accountId = retained).map (·.amount)).sum +
    db.lineSum (·.upTo asOf) (·.accountType.isIncome) fun l => -l.net

end DB

/-- Current earnings and the balance of the account `retained` as the balance sheet reports them. -/
def BalanceSheet.earnings (bs : BalanceSheet) (retained : ℕ) : ℤ :=
  ((bs.rows.filter fun r => r.accountId = retained).map (·.amount)).sum + bs.currentEarnings

/-- `e` is the closing entry of the date and balanced in both currencies. -/
structure DB.ClosingEntry (db : DB) (date : Date) (e : JournalEntry) : Prop where
  isClosing : e.isClosing = true
  entryDate : e.entryDate = date
  posted : e.status = .posted
  balanced : ((db.linesOf e.id).map (·.debit)).sum = ((db.linesOf e.id).map (·.credit)).sum
  balancedBase : ((db.linesOf e.id).map (·.baseDebit)).sum = ((db.linesOf e.id).map (·.baseCredit)).sum

/-- What the close of a year that ends on `date` does to the balances. -/
structure ClosedBalances (date : Date) (retained : ℕ) (db db' : DB) : Prop where
  swept : db'.SweptOn date
  netIncome : ∀ a ∈ db.accounts, a.id = retained → db'.balanceAt a date = db.balanceAt a date + db.incomeBalance date
  others : ∀ a ∈ db.accounts, a.id ≠ retained → a.accountType.isIncome = false →
    ∀ date, db'.balanceAt a date = db.balanceAt a date
  entries : (db.SweptOn date ∧ db'.entries.rows = db.entries.rows ∧ db'.lines.rows = db.lines.rows) ∨
    (¬db.SweptOn date ∧ ∃ e ls, db'.entries.rows = db.entries.rows ++ [e] ∧ db'.lines.rows = db.lines.rows ++ ls ∧
      (∀ l ∈ ls, l.journalEntryId = e.id) ∧ db'.ClosingEntry date e)
  profitAndLoss : ∀ fromDate toDate, ProfitAndLoss fromDate toDate db' = ProfitAndLoss fromDate toDate db
  earnings : ∀ asOf, db'.earnings asOf retained = db.earnings asOf retained

/-! ### The amounts of the statements -/

theorem lineSum_isIncome (db : DB) (entry : JournalEntry → Bool) :
    (db.lineSum entry (·.accountType.isIncome) fun l => -l.net) =
      -((db.accounts.rows.filter (·.accountType.isIncome)).map fun a =>
        ((db.accountLines entry a).map JournalLine.net).sum).sum := by
  rw [lineSum_neg, sum_accountLines]

theorem lineSum_account {db : DB} {entry : JournalEntry → Bool} {account : Account → Bool} {w : JournalLine → ℤ}
    {a : Account} (ha : a ∈ db.accounts) (hacc : ∀ b ∈ db.accounts, account b = true ↔ b = a) :
    db.lineSum entry account w = ((db.accountLines entry a).map w).sum := by
  unfold DB.lineSum DB.accountLines
  congr 2
  refine List.filter_congr fun l _ => ?_
  congr 1
  by_cases hl : l.accountId = a.id
  · have hfind : db.accounts.find? l.accountId = some a := hl ▸ Table.find?_key ha
    rw [hfind, Option.any_some, (hacc a ha).2 rfl, decide_eq_true hl]
  · rw [decide_eq_false hl, Option.any_eq_false]
    intro b hb
    rw [Bool.eq_false_iff]
    intro hc
    obtain rfl := (hacc b (Table.mem_of_find? hb)).1 hc
    exact hl (Table.key_of_find? hb).symm

/-- The earnings of a balance sheet are sums over the lines of the accounts. -/
theorem earnings_eq {db : DB} {asOf : Option Date} {a : Account} (ha : a ∈ db.accounts)
    (hs : a.accountType = .equity) : db.earnings asOf a.id =
      -((db.accountLines (·.upTo asOf) a).map JournalLine.net).sum -
        ((db.accounts.rows.filter (·.accountType.isIncome)).map fun b =>
          ((db.accountLines (·.upTo asOf) b).map JournalLine.net).sum).sum := by
  have hid (b : Account) (hb : b ∈ db.accounts) (he : (b.id = a.id)) : b = a := Table.key_inj hb ha he
  have hrow : (((db.activity (·.upTo asOf) (·.accountType.isBalanceSheet) sheetAmount).filter fun r =>
      r.accountId = a.id).map (·.amount)).sum =
        db.lineSum (·.upTo asOf) (fun b => b.accountType.isBalanceSheet && b.id = a.id) (fun l => -l.net) :=
    sum_activity (q := fun b => b.id = a.id) (fun _ _ => rfl) fun b hb _ hq => by
      rw [hid b hb (of_decide_eq_true hq)]
      funext l
      rw [sheetAmount, hs, if_neg (by decide)]
  have hline : db.lineSum (·.upTo asOf) (fun b => b.accountType.isBalanceSheet && b.id = a.id) (fun l => -l.net) =
      ((db.accountLines (·.upTo asOf) a).map fun l => -l.net).sum := by
    refine lineSum_account ha fun b hb => ?_
    rw [Bool.and_eq_true, decide_eq_true_eq]
    constructor
    · exact fun h => hid b hb h.2
    · rintro rfl
      exact ⟨by rw [hs]; rfl, rfl⟩
  have hneg : ((db.accountLines (·.upTo asOf) a).map fun l => -l.net).sum =
      -((db.accountLines (·.upTo asOf) a).map JournalLine.net).sum := by
    simpa using sum_map_sub (db.accountLines (·.upTo asOf) a) (fun _ => 0) JournalLine.net
  rw [DB.earnings, hrow, hline, hneg, lineSum_isIncome]
  ring

theorem activity_congr {db db' : DB} {entry : JournalEntry → Bool} {account : Account → Bool}
    {amount : Account → JournalLine → ℤ} (ha : db'.accounts = db.accounts)
    (h : ∀ a, db'.accountLines entry a = db.accountLines entry a) :
    db'.activity entry account amount = db.activity entry account amount := by
  unfold DB.activity DB.accountsByCode
  rw [ha]
  simp only [h]

/-! ### The close -/

/-- Without a balance to sweep no balance changes. -/
theorem ClosedBalances.of_swept {date : Date} {retained : ℕ} {db : DB} (h : db.SweptOn date) :
    ClosedBalances date retained db db := by
  refine ⟨h, fun a _ _ => ?_, fun _ _ _ _ _ => rfl, .inl ⟨h, rfl, rfl⟩, fun _ _ => rfl, fun _ => rfl⟩
  have hzero : db.incomeBalance date = 0 := by
    refine List.sum_eq_zero fun x hx => ?_
    obtain ⟨b, hb, rfl⟩ := List.mem_map.1 hx
    obtain ⟨hm, hi⟩ := List.mem_filter.1 hb
    exact h b hm hi
  rw [hzero, add_zero]

section closing

variable {lo : ℕ} {db mid : DB} {je period retained : ℕ} {date : Date} {currency name : String}
  {rows : List JournalLine} (hw : Wrote lo db mid (closingEntry je date period currency name) rows) (ho : JournalOk db)
  (hr : List.Forall₂ (NewLine.Becomes je) (closingLines date retained name
    (db.withEntry (closingEntry je date period currency name))) rows)

include hw ho hr

/-- What the closing entry adds to the lines of an account. -/
theorem sum_accountLines_closing (entry : JournalEntry → Bool) (a : Account) :
    ((mid.accountLines entry a).map JournalLine.net).sum = ((db.accountLines entry a).map JournalLine.net).sum +
      if entry (closingEntry je date period currency name) then
        (if a.id = retained then db.incomeBalance date else 0) -
          (((db.balances date).filter fun x => x.1 = some a.id).map Prod.snd).sum else 0 := by
  rw [hw.sum_accountLines ho, sum_closing hw ho hr, total_balances]
  rfl

/-- The closing entry takes from the income accounts what it puts on the retained earnings. -/
theorem earnings_closing {r : Account} (hra : db.accounts.find? retained = some r) (hs : r.accountType = .equity)
    (asOf : Option Date) : mid.earnings asOf retained = db.earnings asOf retained := by
  have hacc : mid.accounts = db.accounts := by rw [hw.eq]
  have hm : r ∈ db.accounts := Table.mem_of_find? hra
  obtain rfl : r.id = retained := Table.key_of_find? hra
  have hi : r.accountType.isIncome = false := by rw [hs]; rfl
  rw [earnings_eq (hacc ▸ hm) hs, earnings_eq hm hs, sum_accountLines_closing hw ho hr, if_pos rfl,
    sum_balances_other hm hi, sub_zero, hacc]
  have hincome : ((db.accounts.rows.filter (·.accountType.isIncome)).map fun b =>
      ((mid.accountLines (·.upTo asOf) b).map JournalLine.net).sum) =
        (db.accounts.rows.filter (·.accountType.isIncome)).map fun b =>
          ((db.accountLines (·.upTo asOf) b).map JournalLine.net).sum -
            if (closingEntry je date period currency name).upTo asOf then db.balanceAt b date else 0 := by
    refine List.map_congr_left fun b hb => ?_
    obtain ⟨hbm, hbi⟩ := List.mem_filter.1 hb
    rw [sum_accountLines_closing hw ho hr, if_neg (ne_of_equity ⟨r, hra, hs⟩ hbm hbi), sum_balances hbm hbi, zero_sub]
    split <;> ring
  rw [hincome, sum_map_sub]
  split
  · unfold DB.incomeBalance
    ring
  · simp

theorem ClosedBalances.of_wrote {r : Account} (hra : db.accounts.find? retained = some r)
    (hs : r.accountType = .equity) (hne : db.balances date ≠ []) (hb : DB.entryBalanced je mid = .ok ()) :
    ClosedBalances date retained db mid := by
  have hacc : mid.accounts = db.accounts := by rw [hw.eq]
  have hup : (closingEntry je date period currency name).upTo (some date) = true := by
    simp [JournalEntry.upTo, closingEntry]
  have hi : r.accountType.isIncome = false := by rw [hs]; rfl
  refine ⟨hw.sweptOn ho hr ⟨r, hra, hs⟩, fun a ha hid => ?_, fun a ha hid hai d => ?_, .inr ⟨?_, ?_⟩, fun f t => ?_,
    earnings_closing hw ho hr hra hs⟩
  · obtain rfl : a = r := by
      subst hid
      exact Option.some.inj ((Table.find?_key ha).symm.trans hra)
    have hsum := sum_accountLines_closing hw ho hr (·.upTo (some date)) a
    rwa [if_pos hup, if_pos hid, sum_balances_other ha hi, sub_zero] at hsum
  · have hsum := sum_accountLines_closing hw ho hr (·.upTo (some d)) a
    rwa [if_neg hid, sum_balances_other ha hai, sub_zero, ite_self, add_zero] at hsum
  · exact fun h => hne (balances_eq_nil.2 h)
  · have hpost := entryBalanced_eq_ok (hw.mem_entries.2 (.inr rfl)) rfl hb
    refine ⟨closingEntry je date period currency name, rows, ?_, ?_, hw.own, rfl, rfl, rfl, hpost.1, hpost.2⟩
    · rw [hw.eq]
      exact Table.rows_insert hw.free
    · rw [hw.eq]
      exact Table.rows_insertAll hw.linesFree
  · -- the closing entry is no income
    have hnot : (closingEntry je date period currency name).earning f t = false := by
      simp [JournalEntry.earning, closingEntry]
    unfold ProfitAndLoss
    rw [activity_congr hacc fun a => by rw [hw.accountLines ho, hnot]; exact List.append_nil _]

end closing

/-- Fiscal years and periods have no balances. -/
theorem ClosedBalances.calendar {date : Date} {retained : ℕ} {db mid : DB} (h : ClosedBalances date retained db mid)
    (periods : Table AccountingPeriod) (years : Table FiscalYear) :
    ClosedBalances date retained db { mid with periods, years } :=
  ⟨h.swept, h.netIncome, h.others, h.entries.imp_right fun ⟨hne, e, ls, he, hl, ho, hc⟩ =>
    ⟨hne, e, ls, he, hl, ho, hc.isClosing, hc.entryDate, hc.posted, hc.balanced, hc.balancedBase⟩, h.profitAndLoss,
    h.earnings⟩

theorem earnings_of_balanceSheet {asOf : Option Date} {db : DB} {bs : BalanceSheet}
    (h : BalanceSheetAsOf asOf db = .ok bs) (retained : ℕ) : bs.earnings retained = db.earnings asOf retained := by
  unfold BalanceSheetAsOf at h
  rcases castActivity_cases (db.activity (·.upTo asOf) (·.accountType.isBalanceSheet) sheetAmount) with hr | hr
  · rw [hr] at h
    cases h
  · rcases numeric_cases (db.lineSum (·.upTo asOf) (·.accountType.isIncome) fun l => -l.net) with he | he
    · rw [hr, he] at h
      cases h
    · rw [hr, he] at h
      cases h
      rfl

/-- Whenever an open fiscal year is closed, the closing entry takes its income to the retained earnings and changes
nothing else; balance sheets report the same earnings before and after. -/
theorem close_balances {id retained : ℕ} {gaps : ℕ → ℕ} {s s' : Store DB} {fy : FiscalYear} (h : Reachable s)
    (hfy : s.db.years.find? id = some fy) (hc : (transaction (.closeFiscalYear id retained)).commit gaps s = .ok ((), s')) :
    ClosedBalances fy.endDate retained s.db s'.db ∧
      ∀ asOf bs bs', BalanceSheetAsOf asOf s.db = .ok bs → BalanceSheetAsOf asOf s'.db = .ok bs' →
        bs'.earnings retained = bs.earnings retained := by
  have hbal := (h.step ⟨_, _, hc⟩).entryBalanced
  have hclosed : ClosedBalances fy.endDate retained s.db s'.db := by
    obtain ⟨w, hrun, -, rfl⟩ := Prog.commit_eq_ok.1 hc
    obtain ⟨res, hrun⟩ := run_void hrun
    obtain ⟨fy', u, hg, hdb, hseq, -, hrun⟩ := run_closeFiscalYear hrun
    change u.db = s.db at hdb
    obtain rfl : fy' = fy := Option.some.inj (hg.year.symm.trans hfy)
    obtain ⟨r, hra, hs⟩ := hg.account
    obtain ⟨closing, mid, hyear, hcase⟩ := run_closeRest hrun (hdb ▸ h.fresh.mono _ _ _ hseq) (hdb ▸ hfy)
    rw [hdb] at hcase
    rw [hyear.eq]
    refine ClosedBalances.calendar ?_ _ _
    rcases hcase with ⟨hnone, -, rfl⟩ | ⟨je, period, rows, -, hw, hr, hne, -⟩
    · exact .of_swept (balances_eq_nil.1 hnone)
    · refine .of_wrote hw h.journalOk hr hra hs hne ?_
      rw [← hbal je, hyear.eq]
      rfl
  refine ⟨hclosed, fun asOf bs bs' hbs hbs' => ?_⟩
  rw [earnings_of_balanceSheet hbs, earnings_of_balanceSheet hbs']
  exact hclosed.earnings asOf

/-- The year of the posted invoice: 100 dollars go from its revenue account to the retained earnings. -/
theorem close_balances_invoice : ∃ s s' : Store DB, s.db.incomeBalance yearEnd = dollars (-100) ∧
    s'.db.entries.rows.length = s.db.entries.rows.length + 1 ∧ ClosedBalances yearEnd 7 s.db s'.db ∧
      ∀ asOf bs bs', BalanceSheetAsOf asOf s.db = .ok bs → BalanceSheetAsOf asOf s'.db = .ok bs' →
        bs'.earnings 7 = bs.earnings 7 := by
  obtain ⟨s, hs, hp⟩ := exists_reachable (opening ++ [.postDoc .salesInvoice 15])
    (p := fun s => s.db.incomeBalance yearEnd = dollars (-100) &&
      s.db.years.find? 13 = some ⟨13, "FY2026", day 1 1, yearEnd, .opened, none⟩ &&
      commits (.closeFiscalYear 13 7) (fun s' => s'.db.entries.rows.length = s.db.entries.rows.length + 1) s)
    (by decide +kernel)
  simp only [Bool.and_eq_true, decide_eq_true_eq] at hp
  obtain ⟨⟨hincome, hfy⟩, hcommit⟩ := hp
  obtain ⟨s', hc, hlen⟩ := of_commits hcommit
  exact ⟨s, s', hincome, of_decide_eq_true hlen, close_balances hs hfy hc⟩
