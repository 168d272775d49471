import Tadmor.Model.ReportPages
import Tadmor.Proof.LedgerHistory
import Tadmor.Proof.LinePreview

/-!
# The report pages foot

The client reads the texts of the API as the numbers they were written from, so its totals are the texts of the sums
(`sumAmounts_amountText`).  So the footers of the pages agree in every state that concurrent requests can lead to
(`report_pages_foot`), and the running balances of a ledger end with the balance of the trial balance
(`ledger_page_ends`).
-/

open Preview (toUnits fromUnits)

/-! ### Amounts as texts -/

theorem toUnits_amountText (x : ℤ) : toUnits (amountText x) = x := by
  have h : toUnits (amountText x) = ((Decimal.mk x 4).trunc 4).coeff := by
    rw [← Decimal.value_spelling (Decimal.mk x 4)]
    exact Preview.toUnits_text _
  rw [h, Decimal.trunc]
  simp [Decimal.coeffAt]

theorem amountText_inj {x y : ℤ} : amountText x = amountText y ↔ x = y := by
  constructor
  · intro h
    have hu := congrArg toUnits h
    rwa [toUnits_amountText, toUnits_amountText] at hu
  · exact fun h => congrArg _ h

namespace Web

theorem foldl_toUnits (xs : List ℤ) (n : ℤ) :
    (xs.map amountText).foldl (fun total v => total + toUnits v) n = n + xs.sum := by
  induction xs generalizing n with
  | nil => simp
  | cons x xs ih =>
    rw [List.map_cons, List.foldl_cons, toUnits_amountText, ih, List.sum_cons, add_assoc]

/-- The sum of texts is the text of the sum. -/
theorem sumAmounts_amountText (xs : List ℤ) : sumAmounts (xs.map amountText) = amountText xs.sum := by
  rw [sumAmounts, foldl_toUnits, zero_add]
  exact Preview.fromUnits_eq _

theorem negateAmount_amountText (x : ℤ) : negateAmount (amountText x) = amountText (-x) := by
  rw [negateAmount, toUnits_amountText]
  exact Preview.fromUnits_eq _

theorem sumAmounts_pair (x y : ℤ) : sumAmounts [amountText x, amountText y] = amountText (x + y) := by
  simpa using sumAmounts_amountText [x, y]

end Web

/-! ### The pages of a database -/

section pages

variable {db : DB} {fromDate toDate : Option Date}

/-- The rows of a section, as the page filters them. -/
theorem section_json {rows : List AccountActivityRow} (t : AccountType) :
    ((rows.map AccountActivityRow.json).filter (·.accountType = t)).map (·.amount) =
      ((rows.filter fun r => r.accountType = t).map (·.amount)).map amountText := by
  rw [List.filter_map, List.map_map, List.map_map]
  rfl

/-- The footer of the trial balance. -/
theorem trialBalance_foots (hok : db.LedgerOk) (hb : ∀ je, DB.entryBalanced je db = .ok ())
    {rows : List TrialBalanceRow} (h : TrialBalance db = .ok rows) :
    (Web.trialBalance (rows.map TrialBalanceRow.json)).totalDebit =
      (Web.trialBalance (rows.map TrialBalanceRow.json)).totalCredit ∧
        (Web.trialBalance (rows.map TrialBalanceRow.json)).balance = "0.0000".toList := by
  have hsum : (rows.map (·.totalDebit)).sum = (rows.map (·.totalCredit)).sum := by
    rcases trialBalance_balances hok hb with he | ⟨rows', hrows', hsum⟩
    · rw [h] at he
      cases he
    · rw [h] at hrows'
      cases hrows'
      exact hsum
  have hrow : ∀ r ∈ rows, r.balance = r.totalDebit - r.totalCredit := by
    intro r hr
    rw [castTrialBalance_eq h] at hr
    obtain ⟨a, -, rfl⟩ := List.mem_map.1 hr
    exact sum_map_sub _ _ _
  have hbalance : (rows.map (·.balance)).sum = 0 := by
    rw [List.map_congr_left hrow, sum_map_sub, hsum, sub_self]
  have hcolumn : ∀ amount : TrialBalanceRow → ℤ,
      Web.sumAmounts (rows.map fun r => amountText (amount r)) = amountText (rows.map amount).sum := by
    intro amount
    rw [← Web.sumAmounts_amountText, List.map_map]
    rfl
  simp only [Web.trialBalance, List.map_map]
  refine ⟨(hcolumn (·.totalDebit)).trans (Eq.trans ?_ (hcolumn (·.totalCredit)).symm), (hcolumn (·.balance)).trans ?_⟩
  · rw [hsum]
  · rw [hbalance]
    decide +kernel

/-- Both sides of the balance sheet. -/
theorem balanceSheet_foots (hok : db.LedgerOk) (hb : ∀ je, DB.entryBalanced je db = .ok ()) {asOf : Option Date}
    {bs : BalanceSheet} (h : BalanceSheetAsOf asOf db = .ok bs) :
    (Web.balanceSheet bs.json).totalAssets = (Web.balanceSheet bs.json).liabilitiesAndEquity := by
  have hsum : rowTotal bs.rows .asset =
      rowTotal bs.rows .liability + rowTotal bs.rows .equity + bs.currentEarnings := by
    rcases balanceSheet_balances hok hb asOf with he | ⟨bs', hbs', hsum⟩
    · rw [h] at he
      cases he
    · rw [h] at hbs'
      cases hbs'
      exact hsum
  have hequity : ((bs.rows.filter fun r => r.accountType = .equity).map (·.amount)).map amountText ++
      [amountText bs.currentEarnings] =
        ((bs.rows.filter fun r => r.accountType = .equity).map (·.amount) ++ [bs.currentEarnings]).map amountText := by
    rw [List.map_append]
    rfl
  unfold Web.balanceSheet BalanceSheet.json
  dsimp only
  rw [section_json, section_json, section_json, hequity, Web.sumAmounts_amountText, Web.sumAmounts_amountText,
    Web.sumAmounts_amountText, Web.sumAmounts_pair, List.sum_append]
  refine congrArg _ (hsum.trans ?_)
  unfold rowTotal
  simp only [List.sum_singleton]
  omega

theorem rowTotal_revenue {entry : JournalEntry → Bool} :
    rowTotal (db.activity entry (·.accountType.isIncome) incomeAmount) .revenue =
      db.lineSum entry (fun a => a.accountType = .revenue) fun l => -l.net := by
  refine (sum_activity (q := fun a => a.accountType = .revenue) (w := fun l => -l.net) (fun _ _ => rfl)
    fun a _ _ hp => ?_).trans ?_
  · funext l
    exact if_pos (of_decide_eq_true hp)
  · congr 1
    funext a
    cases a.accountType <;> rfl

theorem rowTotal_expense {entry : JournalEntry → Bool} :
    rowTotal (db.activity entry (·.accountType.isIncome) incomeAmount) .expense =
      db.lineSum entry (fun a => a.accountType = .expense) JournalLine.net := by
  refine (sum_activity (q := fun a => a.accountType = .expense) (w := JournalLine.net) (fun _ _ => rfl)
    fun a _ _ hp => ?_).trans ?_
  · funext l
    refine if_neg fun hrevenue => ?_
    rw [of_decide_eq_true hp] at hrevenue
    cases hrevenue
  · congr 1
    funext a
    cases a.accountType <;> rfl

/-- The net income of the profit and loss is the one that the cash flow of the same dates starts from. -/
theorem profitAndLoss_netIncome {rows : List AccountActivityRow} {cf : CashFlow}
    {activity : ℕ → Api.CashFlowActivity} (h : ProfitAndLoss fromDate toDate db = .ok rows)
    (hcf : CashFlowStatement fromDate toDate db = .ok cf) :
    (Web.profitAndLoss (rows.map AccountActivityRow.json)).netIncome = (cf.json activity).netIncome := by
  have hrows := castActivity_eq h
  have htotal : rowTotal rows .revenue - rowTotal rows .expense = cf.netIncome := by
    rw [hrows, (cashFlow_parts hcf).1, rowTotal_revenue, rowTotal_expense, lineSum_neg, lineSum_neg, sub_eq_add_neg,
      ← neg_add]
    refine congrArg _ (lineSum_or fun a => ?_).symm
    cases a.accountType <;> exact ⟨rfl, rfl⟩
  unfold Web.profitAndLoss CashFlow.json
  dsimp only
  rw [section_json, section_json, Web.sumAmounts_amountText, Web.sumAmounts_amountText, Web.negateAmount_amountText,
    Web.sumAmounts_pair, ← sub_eq_add_neg]
  exact congrArg _ htotal

theorem sum_by_activity {α : Type} (rows : List α) (activity : α → Api.CashFlowActivity) (amount : α → ℤ) :
    ((rows.filter (activity · = .operating)).map amount).sum +
      ((rows.filter (activity · = .investing)).map amount).sum +
      ((rows.filter (activity · = .financing)).map amount).sum = (rows.map amount).sum := by
  induction rows with
  | nil => rfl
  | cons r rows ih =>
    rw [List.filter_cons, List.filter_cons, List.filter_cons, List.map_cons, List.sum_cons, ← ih]
    cases h : activity r with
    | operating =>
      simp
      omega
    | investing =>
      simp
      omega
    | financing =>
      simp
      omega

/-- The sections of the cash flow, and the cash that the range opens and closes with. -/
theorem cashFlow_foots (hok : db.LedgerOk) (hb : ∀ je, DB.entryBalanced je db = .ok ())
    (hrange : ∀ f ∈ fromDate, ∀ t ∈ toDate, f ≤ t) (activity : ℕ → Api.CashFlowActivity) {cf : CashFlow}
    (h : CashFlowStatement fromDate toDate db = .ok cf) :
    Web.sumAmounts [(cf.json activity).openingCash, (cf.json activity).netCashFlow] = (cf.json activity).closingCash ∧
    (Web.sumAmounts [(Web.cashFlow (cf.json activity)).operatingTotal, (Web.cashFlow (cf.json activity)).investingTotal,
      (Web.cashFlow (cf.json activity)).financingTotal] = (cf.json activity).netCashFlow ↔
        db.closingCash fromDate toDate = 0) := by
  have hsum : cf.netIncome + (cf.rows.map (·.amount)).sum + db.closingCash fromDate toDate = cf.netCashFlow ∧
      cf.openingCash + cf.netCashFlow = cf.closingCash := by
    rcases cashFlowStatement_cases hok hb hrange with he | ⟨cf', hcf', hsum⟩
    · rw [h] at he
      cases he
    · rw [h] at hcf'
      cases hcf'
      exact hsum
  have hsection : ∀ x : Api.CashFlowActivity, ((cf.json activity).rows.filter (·.activity = x)).map (·.amount) =
      ((cf.rows.filter fun r => activity r.accountId = x).map (·.amount)).map amountText := by
    intro x
    rw [CashFlow.json, List.filter_map, List.map_map, List.map_map]
    rfl
  have hoperating : (Web.cashFlow (cf.json activity)).operatingTotal = amountText
      (cf.netIncome + ((cf.rows.filter fun r => activity r.accountId = .operating).map (·.amount)).sum) := by
    rw [← List.sum_cons, ← Web.sumAmounts_amountText, List.map_cons, ← hsection]
    rfl
  have hinvesting : (Web.cashFlow (cf.json activity)).investingTotal = amountText
      ((cf.rows.filter fun r => activity r.accountId = .investing).map (·.amount)).sum := by
    rw [← Web.sumAmounts_amountText, ← hsection]
    rfl
  have hfinancing : (Web.cashFlow (cf.json activity)).financingTotal = amountText
      ((cf.rows.filter fun r => activity r.accountId = .financing).map (·.amount)).sum := by
    rw [← Web.sumAmounts_amountText, ← hsection]
    rfl
  have hparts := sum_by_activity cf.rows (fun r => activity r.accountId) (·.amount)
  have htriple := fun x y z => Web.sumAmounts_amountText [x, y, z]
  simp only [List.map_cons, List.map_nil, List.sum_cons, List.sum_nil, add_zero] at htriple
  rw [hoperating, hinvesting, hfinancing, htriple]
  constructor
  · exact (Web.sumAmounts_pair _ _).trans (congrArg _ hsum.2)
  · refine amountText_inj.trans ?_
    omega

theorem sum_entryLines (hok : db.LedgerOk) {id : ℕ} {e : JournalEntry} {ls : List JournalEntryLine}
    (h : JournalEntryByID id db = some (e, ls)) {text : JournalEntryLine → ℤ} {amount : JournalLine → ℤ}
    (hamount : ∀ a l, text (journalEntryLine a l) = amount l) :
    (ls.map text).sum = ((db.linesOf id).map amount).sum := by
  obtain ⟨x, -, he⟩ := Option.map_eq_some_iff.1 h
  cases he
  rw [((List.perm_insertionSort (fun l m : JournalLine => l.lineNo ≤ m.lineNo) (db.linesOf id)).map amount).sum_eq.symm]
  have hin : ∀ l ∈ (db.linesOf id).insertionSort fun l m => l.lineNo ≤ m.lineNo, l ∈ db.lines := fun l hl =>
    (List.mem_filter.1 ((List.mem_insertionSort _).1 hl)).1
  generalize (db.linesOf id).insertionSort (fun l m => l.lineNo ≤ m.lineNo) = lines at hin
  induction lines with
  | nil => rfl
  | cons l lines ih =>
    obtain ⟨a, ha⟩ := Option.isSome_iff_exists.1 (hok.account l (hin l (List.mem_cons_self ..)))
    rw [List.filterMap_cons, ha, Option.map_some, List.map_cons, List.map_cons, List.sum_cons, List.sum_cons, hamount,
      ih fun m hm => hin m (List.mem_cons_of_mem _ hm)]

/-- The footer of a journal entry, in both currencies. -/
theorem journalEntry_foots (hok : db.LedgerOk) (hb : ∀ je, DB.entryBalanced je db = .ok ()) {id : ℕ} {e : JournalEntry}
    {ls : List JournalEntryLine} (h : JournalEntryByID id db = some (e, ls)) :
    (Web.journalEntry (ls.map JournalEntryLine.json)).debit = (Web.journalEntry (ls.map JournalEntryLine.json)).credit ∧
      (Web.journalEntry (ls.map JournalEntryLine.json)).baseDebit =
        (Web.journalEntry (ls.map JournalEntryLine.json)).baseCredit := by
  have hcolumn : ∀ amount : JournalEntryLine → ℤ,
      Web.sumAmounts (ls.map fun l => amountText (amount l)) = amountText (ls.map amount).sum := by
    intro amount
    rw [← Web.sumAmounts_amountText, List.map_map]
    rfl
  obtain ⟨x, hx, he⟩ := Option.map_eq_some_iff.1 h
  have hxe : x = e := congrArg Prod.fst he
  obtain ⟨hmem, hid⟩ := Table.find?_eq_some.1 hx
  have hid : x.id = id := hid
  obtain ⟨hsum, hbase⟩ := entryBalanced_eq_ok hmem (hok.posted x hmem) (hb x.id)
  rw [hid] at hsum hbase
  simp only [Web.journalEntry, List.map_map]
  constructor
  · refine (hcolumn (·.debit)).trans (Eq.trans (congrArg _ ?_) (hcolumn (·.credit)).symm)
    rw [sum_entryLines hok h fun _ _ => rfl, sum_entryLines hok h fun _ _ => rfl]
    exact hsum
  · refine (hcolumn (·.baseDebit)).trans (Eq.trans (congrArg _ ?_) (hcolumn (·.baseCredit)).symm)
    rw [sum_entryLines hok h fun _ _ => rfl, sum_entryLines hok h fun _ _ => rfl]
    exact hbase

/-! ### The page of a ledger -/

/-- The balance after a row is the sum of the rows up to it. -/
theorem balances_json (rows : List LedgerRow) (n : ℤ) (k : ℕ) :
    (Web.balances (amountText n) (rows.map LedgerRow.json))[k]? =
      if k < rows.length then some (amountText (n + ((rows.take (k + 1)).map LedgerRow.net).sum)) else none := by
  induction rows generalizing n k with
  | nil => rfl
  | cons r rows ih =>
    have hnext : Web.sumAmounts [amountText n, r.json.baseDebit, Web.negateAmount r.json.baseCredit] =
        amountText (n + r.net) := by
      have htriple := Web.sumAmounts_amountText [n, r.baseDebit, -r.baseCredit]
      simp only [List.map_cons, List.map_nil, List.sum_cons, List.sum_nil, add_zero, ← sub_eq_add_neg] at htriple
      rw [LedgerRow.json, Web.negateAmount_amountText]
      exact htriple
    rw [List.map_cons, Web.balances, hnext]
    cases k with
    | zero => simp
    | succ k =>
      rw [List.getElem?_cons_succ, ih]
      simp [add_assoc]

/-- The totals are those of the base amounts, whether or not the page shows these apart. -/
theorem ledgerTotals_json (rows : List LedgerRow) :
    (Web.accountLedger (rows.map LedgerRow.json)).totalDebit = amountText (rows.map (·.baseDebit)).sum ∧
      (Web.accountLedger (rows.map LedgerRow.json)).totalCredit = amountText (rows.map (·.baseCredit)).sum := by
  have hbase : ∀ r ∈ rows, (if Web.hasFx (rows.map LedgerRow.json) then r.json.baseDebit else r.json.debit) =
      amountText r.baseDebit ∧
        (if Web.hasFx (rows.map LedgerRow.json) then r.json.baseCredit else r.json.credit) =
          amountText r.baseCredit := by
    intro r hr
    cases hfx : Web.hasFx (rows.map LedgerRow.json) with
    | true => exact ⟨rfl, rfl⟩
    | false =>
      have hno := List.any_eq_false.1 hfx r.json (List.mem_map_of_mem hr)
      simp only [ne_eq, Bool.or_eq_true, decide_eq_true_eq, not_or, not_not] at hno
      exact hno
  unfold Web.accountLedger
  dsimp only
  rw [← Web.sumAmounts_amountText, ← Web.sumAmounts_amountText, List.map_map, List.map_map, List.map_map, List.map_map]
  exact ⟨congrArg _ (List.map_congr_left fun r hr => (hbase r hr).1),
    congrArg _ (List.map_congr_left fun r hr => (hbase r hr).2)⟩

theorem length_balances (running : List Char) (rows : List Api.Amounts) :
    (Web.balances running rows).length = rows.length := by
  induction rows generalizing running with
  | nil => rfl
  | cons r rows ih => rw [Web.balances, List.length_cons, ih, List.length_cons]

/-- The last balance, where an empty ledger has the balance zero. -/
theorem balance_json (rows : List LedgerRow) : (Web.accountLedger (rows.map LedgerRow.json)).balance.getD
    "0.0000".toList = amountText (rows.map LedgerRow.net).sum := by
  have hzero : amountText 0 = "0.0000".toList := by decide +kernel
  unfold Web.accountLedger
  dsimp only
  rw [List.getLast?_eq_getElem?, length_balances, List.length_map, ← hzero, balances_json]
  cases rows with
  | nil => rfl
  | cons r rows => simp

end pages

/-- The page of a ledger shows after each row the sum of the rows up to it, and without dates it ends with the row of
the account on the trial balance. -/
theorem ledger_page_ends (db : DB) {a : Account} (ha : a ∈ db.accounts) (fromDate toDate : Option Date) :
    ∃ rows, AccountLedger a.id fromDate toDate db = some rows ∧
      (∀ k, (Web.accountLedger (rows.map LedgerRow.json)).balances[k]? =
        if k < rows.length then some (amountText ((rows.take (k + 1)).map LedgerRow.net).sum) else none) ∧
      ∀ tb, fromDate = none → toDate = none → TrialBalance db = .ok tb → ∃ r ∈ tb, r.accountId = a.id ∧
        (Web.accountLedger (rows.map LedgerRow.json)).totalDebit = r.json.totalDebit ∧
        (Web.accountLedger (rows.map LedgerRow.json)).totalCredit = r.json.totalCredit ∧
        (Web.accountLedger (rows.map LedgerRow.json)).balance.getD "0.0000".toList = r.json.balance := by
  refine ⟨_, accountLedger_eq ha, fun k => ?_, ?_⟩
  · have hzero : amountText 0 = "0.0000".toList := by decide +kernel
    unfold Web.accountLedger
    dsimp only
    rw [← hzero, balances_json]
    simp only [zero_add]
  · rintro tb rfl rfl htb
    obtain ⟨r, hr, hid, hdebit, hcredit, hbalance⟩ := exists_trialBalanceRow ha htb
    refine ⟨r, hr, hid, ?_, ?_, ?_⟩
    · rw [(ledgerTotals_json _).1, ← hdebit]
      rfl
    · rw [(ledgerTotals_json _).2, ← hcredit]
      rfl
    · rw [balance_json, ← hbalance]
      rfl

/-- The receivables after the posting of an invoice. -/
theorem ledger_page_ends_posted : ∃ s : Store DB, Reachable s ∧ ∃ rows, AccountLedger 2 none none s.db = some rows ∧
    (Web.accountLedger (rows.map LedgerRow.json)).balances = ["100.0000".toList] ∧
    ∀ tb, TrialBalance s.db = .ok tb → ∃ r ∈ tb, r.accountId = 2 ∧
      (Web.accountLedger (rows.map LedgerRow.json)).balance.getD "0.0000".toList = r.json.balance := by
  obtain ⟨s, hs, hp⟩ := exists_reachable (opening ++ [.postDoc .salesInvoice 15]) (p := fun s =>
    (s.db.accounts.find? 2).isSome && (AccountLedger 2 none none s.db).any fun rows =>
      decide ((Web.accountLedger (rows.map LedgerRow.json)).balances = ["100.0000".toList])) (by decide +kernel)
  obtain ⟨hacct, hrows⟩ := Bool.and_eq_true_iff.1 hp
  obtain ⟨a, ha⟩ := Option.isSome_iff_exists.1 hacct
  obtain ⟨hmem, hid⟩ := Table.find?_eq_some.1 ha
  have hid : a.id = 2 := hid
  obtain ⟨rows, hledger, -, htb⟩ := ledger_page_ends s.db hmem none none
  rw [hid] at hledger htb
  rw [hledger] at hrows
  refine ⟨s, hs, rows, hledger, of_decide_eq_true hrows, fun tb h => ?_⟩
  obtain ⟨r, hr, hrid, -, -, hbalance⟩ := htb tb rfl rfl h
  exact ⟨r, hr, hrid, hbalance⟩

section run

variable {ι : Type} [DecidableEq ι] [Fintype ι] {s : Store DB}

/-- Whatever requests run at the same time, the pages of the reports foot, to the last digit that they show. -/
theorem report_pages_foot (h : Reachable s) (ops : ι → Op) (is : List ι) :
    (∀ rows, TrialBalance ((race s ops).runSchedule is).db = .ok rows →
      (Web.trialBalance (rows.map TrialBalanceRow.json)).totalDebit =
        (Web.trialBalance (rows.map TrialBalanceRow.json)).totalCredit ∧
          (Web.trialBalance (rows.map TrialBalanceRow.json)).balance = "0.0000".toList) ∧
    (∀ asOf bs, BalanceSheetAsOf asOf ((race s ops).runSchedule is).db = .ok bs →
      (Web.balanceSheet bs.json).totalAssets = (Web.balanceSheet bs.json).liabilitiesAndEquity) ∧
    (∀ id e ls, JournalEntryByID id ((race s ops).runSchedule is).db = some (e, ls) →
      (Web.journalEntry (ls.map JournalEntryLine.json)).debit =
        (Web.journalEntry (ls.map JournalEntryLine.json)).credit ∧
          (Web.journalEntry (ls.map JournalEntryLine.json)).baseDebit =
            (Web.journalEntry (ls.map JournalEntryLine.json)).baseCredit) ∧
    ∀ fromDate toDate, (∀ f ∈ fromDate, ∀ t ∈ toDate, f ≤ t) → ∀ (activity : ℕ → Api.CashFlowActivity) cf,
      CashFlowStatement fromDate toDate ((race s ops).runSchedule is).db = .ok cf →
      (∀ rows, ProfitAndLoss fromDate toDate ((race s ops).runSchedule is).db = .ok rows →
        (Web.profitAndLoss (rows.map AccountActivityRow.json)).netIncome = (cf.json activity).netIncome) ∧
      Web.sumAmounts [(cf.json activity).openingCash, (cf.json activity).netCashFlow] =
        (cf.json activity).closingCash ∧
      (Web.sumAmounts [(Web.cashFlow (cf.json activity)).operatingTotal,
        (Web.cashFlow (cf.json activity)).investingTotal, (Web.cashFlow (cf.json activity)).financingTotal] =
          (cf.json activity).netCashFlow ↔ ((race s ops).runSchedule is).db.closingCash fromDate toDate = 0) := by
  have hbooks := ((numbered_race h ops).run journal_numbering is).1.db
  refine ⟨fun rows hrows => trialBalance_foots hbooks.ledger hbooks.balanced hrows,
    fun asOf bs hbs => balanceSheet_foots hbooks.ledger hbooks.balanced hbs,
    fun id e ls he => journalEntry_foots hbooks.ledger hbooks.balanced he,
    fun fromDate toDate hrange activity cf hcf => ⟨fun rows hrows => profitAndLoss_netIncome hrows hcf, ?_⟩⟩
  exact cashFlow_foots hbooks.ledger hbooks.balanced hrange activity hcf

end run

/-- The footers after the invoice that is posted twice at the same time. -/
theorem report_pages_foot_twice : ∃ s : Store DB, Reachable s ∧
    let σ := (race s postTwice).runSchedule (1 :: (List.replicate 14 0 ++ List.replicate 14 1))
    ∃ rows, TrialBalance σ.db = .ok rows ∧
      (Web.trialBalance (rows.map TrialBalanceRow.json)).totalCredit = "200.0000".toList ∧
      (Web.trialBalance (rows.map TrialBalanceRow.json)).totalDebit =
        (Web.trialBalance (rows.map TrialBalanceRow.json)).totalCredit ∧
      ∀ cf rows, CashFlowStatement (some yearStart) (some yearEnd) σ.db = .ok cf →
        ProfitAndLoss (some yearStart) (some yearEnd) σ.db = .ok rows →
        (Web.profitAndLoss (rows.map AccountActivityRow.json)).netIncome = (cf.json fun _ => .operating).netIncome := by
  obtain ⟨s, hs, hp⟩ := exists_reachable opening (p := fun s =>
    ((TrialBalance ((race s postTwice).runSchedule
      (1 :: (List.replicate 14 0 ++ List.replicate 14 1))).db).toOption.any fun rows =>
        decide ((Web.trialBalance (rows.map TrialBalanceRow.json)).totalCredit = "200.0000".toList)))
          (by decide +kernel)
  obtain ⟨htrial, -, -, hcash⟩ := report_pages_foot hs postTwice (1 :: (List.replicate 14 0 ++ List.replicate 14 1))
  refine ⟨s, hs, ?_⟩
  cases htb : TrialBalance ((race s postTwice).runSchedule
      (1 :: (List.replicate 14 0 ++ List.replicate 14 1))).db with
  | error e =>
    rw [htb] at hp
    cases hp
  | ok rows =>
    rw [htb] at hp
    refine ⟨rows, htb, of_decide_eq_true hp, (htrial rows htb).1, fun cf pl hcf hpl => ?_⟩
    refine (hcash (some yearStart) (some yearEnd) ?_ (fun _ => .operating) cf hcf).1 pl hpl
    intro f hf t ht
    cases hf
    cases ht
    decide
