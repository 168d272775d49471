import Mathlib.Algebra.BigOperators.Ring.List
import Tadmor.Model.AccountLedger
import Tadmor.Proof.Reports
import Tadmor.Theory.SortedLists

/-!
# The statements and the ledgers they are drilled down to

Every amount of a statement is the signed sum of the rows that the ledger of its account shows for the same dates
(`statements_are_ledger_sums`).  The ledger of a range is that of its first part followed by that of the rest, so the
statements of adjacent ranges add up (`ranges_add_up`).
-/

theorem Date.next_le_iff {d d' : Date} : d.next ≤ d' ↔ d < d' := by
  refine ⟨(Date.lt_next d).trans_le, fun h => ?_⟩
  have hd := d.valid
  have hd' := d'.valid
  have h₁ := daysInMonth_le d.year d.month
  have h₂ := daysInMonth_le d'.year d'.month
  rw [Date.lt_iff] at h
  rw [Date.le_iff]
  simp only [Date.rank] at h
  unfold Date.next
  split
  · simp only [Date.rank]
    omega
  · rename_i hlast
    have hmonth : d.year * 12 + d.month < d'.year * 12 + d'.month := by
      by_contra hle
      -- the dates are of one month, and `d` is its last day
      have hym : d'.year = d.year ∧ d'.month = d.month := by omega
      rw [hym.1, hym.2] at hd' h
      omega
    split
    · simp only [Date.rank]
      omega
    · simp only [Date.rank]
      omega

variable {db : DB} {account : ℕ} {entry : JournalEntry → Bool} {fromDate toDate : Option Date}

/-! ### Joined rows -/

instance : Std.Total fun x y : JournalEntry × JournalLine => ledgerKey x ≤ ledgerKey y := ⟨fun _ _ => le_total ..⟩

instance : IsTrans (JournalEntry × JournalLine) fun x y => ledgerKey x ≤ ledgerKey y := ⟨fun _ _ _ => le_trans⟩

theorem mem_joined {x : JournalEntry × JournalLine} : x ∈ db.joined entry account ↔
    x.2 ∈ db.lines ∧ x.2.accountId = account ∧ db.entries.find? x.2.journalEntryId = some x.1 ∧ entry x.1 = true := by
  unfold DB.joined
  simp only [List.mem_filterMap, List.mem_filter, Option.map_eq_some_iff, Option.filter_eq_some_iff, decide_eq_true_eq]
  constructor
  · rintro ⟨l, ⟨hl, ha⟩, e, ⟨he, hp⟩, rfl⟩
    exact ⟨hl, ha, he, hp⟩
  · rintro ⟨hl, ha, he, hp⟩
    exact ⟨x.2, ⟨hl, ha⟩, x.1, ⟨he, hp⟩, rfl⟩

/-- A condition on the entries more. -/
theorem filter_joined {p : JournalEntry × JournalLine → Bool} {entry' : JournalEntry → Bool}
    (h : ∀ e ∈ db.entries, ∀ l ∈ db.lines, l.journalEntryId = e.id → entry' e = (entry e && p (e, l))) :
    (db.joined entry account).filter p = db.joined entry' account := by
  unfold DB.joined
  rw [List.filter_filterMap]
  refine List.filterMap_congr fun l hl => ?_
  have hl := (List.mem_filter.1 hl).1
  cases he : db.entries.find? l.journalEntryId with
  | none => rfl
  | some e =>
    obtain ⟨hmem, hid⟩ := Table.find?_eq_some.1 he
    have hp := h e hmem l hl hid.symm
    rw [Option.filter_some, Option.filter_some, hp]
    cases hentry : entry e with
    | false => rfl
    | true => cases hpe : p (e, l) <;> simp [hpe]

theorem map_joined {a : Account} (ha : a.id = account) :
    (db.joined entry account).map (·.2) = db.accountLines entry a := by
  have hguard : (fun l : JournalLine => (((db.entries.find? l.journalEntryId).filter entry).map fun e => (e, l)).map
      (·.2)) = Option.guard fun l => (db.entries.find? l.journalEntryId).any entry := by
    funext l
    unfold Option.guard
    beta_reduce
    cases db.entries.find? l.journalEntryId with
    | none => rfl
    | some e => cases hentry : entry e <;> simp [Option.filter_some, hentry]
  unfold DB.joined DB.accountLines
  rw [List.map_filterMap, hguard, List.filterMap_eq_filter, List.filter_filter, ha]

theorem map_filter_joined (entry : JournalEntry → Bool) {a : Account} (ha : a.id = account)
    {p : JournalEntry × JournalLine → Bool} {entry' : JournalEntry → Bool}
    (h : ∀ e ∈ db.entries, ∀ l ∈ db.lines, l.journalEntryId = e.id → entry' e = (entry e && p (e, l))) :
    ((db.joined entry account).filter p).map (·.2) = db.accountLines entry' a := by
  rw [filter_joined h, map_joined ha]

/-! ### Ledgers -/

theorem mem_ledgerRows {r : LedgerRow} : r ∈ db.ledgerRows account fromDate toDate ↔
    ∃ e ∈ db.entries, ∃ l ∈ db.lines, l.journalEntryId = e.id ∧ l.accountId = account ∧
      e.within fromDate toDate = true ∧ ledgerRow (e, l) = r := by
  unfold DB.ledgerRows
  simp only [List.mem_map, List.mem_insertionSort, mem_joined, Prod.exists]
  constructor
  · rintro ⟨e, l, ⟨hl, ha, he, hw⟩, hr⟩
    obtain ⟨he, hid⟩ := Table.find?_eq_some.1 he
    exact ⟨e, he, l, hl, hid.symm, ha, hw, hr⟩
  · rintro ⟨e, he, l, hl, hid, ha, hw, hr⟩
    exact ⟨e, l, ⟨hl, ha, Table.find?_eq_some.2 ⟨he, hid.symm⟩, hw⟩, hr⟩

/-- The ledger of a range is that up to a day of it, followed by that from the next day on. -/
theorem ledgerRows_cut {m : Date} (hf : ∀ f ∈ fromDate, f ≤ m) (ht : ∀ t ∈ toDate, m ≤ t) :
    db.ledgerRows account fromDate toDate =
      db.ledgerRows account fromDate (some m) ++ db.ledgerRows account (some m.next) toDate := by
  unfold DB.ledgerRows
  rw [List.insertionSort_cut (p := fun x => decide (x.1.entryDate ≤ m)), List.map_append]
  · congr 3
    · refine filter_joined fun e _ l _ _ => ?_
      simp only [JournalEntry.within, JournalEntry.upTo, Option.all_some]
      by_cases hm : e.entryDate ≤ m
      · have htall : toDate.all (e.entryDate ≤ ·) = true := by
          cases toDate with
          | none => rfl
          | some t => simpa using hm.trans (ht t rfl)
        simp [hm, htall]
      · simp [hm]
    · refine filter_joined fun e _ l _ _ => ?_
      simp only [JournalEntry.within, JournalEntry.upTo, Option.all_some]
      by_cases hm : e.entryDate ≤ m
      · simp [hm, Date.next_le_iff]
      · have hfall : fromDate.all (· ≤ e.entryDate) = true := by
          cases fromDate with
          | none => rfl
          | some f => simpa using (hf f rfl).trans (not_le.1 hm).le
        simp [hm, hfall, Date.next_le_iff, not_le.1 hm]
  · intro x _ y _ hx hy
    have hlt : x.1.entryDate < y.1.entryDate := (of_decide_eq_true hx).trans_lt (not_le.1 (of_decide_eq_false hy))
    have hkey : ledgerKey x < ledgerKey y := Prod.Lex.toLex_lt_toLex.2 (.inl hlt)
    exact ⟨hkey.le, not_le.2 hkey⟩

/-! ### Statements -/

/-- `base_debit - base_credit` -/
def LedgerRow.net (r : LedgerRow) : ℤ := r.baseDebit - r.baseCredit

/-- The rows of entries that are neither year-end closes nor their reversals. -/
def DB.earned (db : DB) (rows : List LedgerRow) : List LedgerRow :=
  rows.filter fun r => !(db.entries.find? r.journalEntryId).any (·.isClosing)

/-- The amount that a statement shows for an account, if it shows the account. -/
def amountOf (rows : List AccountActivityRow) (account : ℕ) : Option ℤ :=
  (rows.find? fun r => r.accountId = account).map (·.amount)

/-- What becomes of a list of rows on a statement: their signed sum, or nothing where there are none. -/
def summed (sign : ℤ) (rows : List LedgerRow) : Option ℤ :=
  if rows = [] then none else some (sign * (rows.map LedgerRow.net).sum)

/-- The ledger in another order, and without the entries. -/
theorem ledgerRows_perm {a : Account} (ha : a.id = account) :
    ((db.ledgerRows account fromDate toDate).map LedgerRow.net).Perm
      ((db.accountLines (·.within fromDate toDate) a).map JournalLine.net) := by
  unfold DB.ledgerRows
  rw [← map_joined ha, List.map_map, List.map_map]
  exact (List.perm_insertionSort ..).map _

theorem earned_perm {a : Account} (ha : a.id = account) :
    ((db.earned (db.ledgerRows account fromDate toDate)).map LedgerRow.net).Perm
      ((db.accountLines (·.earning fromDate toDate) a).map JournalLine.net) := by
  unfold DB.earned DB.ledgerRows
  rw [List.filter_map, List.map_map, ← map_filter_joined (·.within fromDate toDate) ha
    (p := fun x => !(db.entries.find? x.1.id).any (·.isClosing)), List.map_map]
  · exact ((List.perm_insertionSort ..).filter _).map _
  · intro e he l _ hid
    have hfind : db.entries.find? e.id = some e := Table.find?_eq_some.2 ⟨he, rfl⟩
    rw [hfind]
    rfl

theorem mem_activity {account : Account → Bool} {amount : Account → JournalLine → ℤ} {r : AccountActivityRow} :
    r ∈ db.activity entry account amount ↔ ∃ a ∈ db.accounts, account a = true ∧ db.accountLines entry a ≠ [] ∧
      r = ⟨a.id, a.code, a.accountType, ((db.accountLines entry a).map (amount a)).sum⟩ := by
  unfold DB.activity DB.accountsByCode
  rw [List.mem_filterMap]
  refine exists_congr fun a => ?_
  rw [List.mem_insertionSort]
  refine and_congr_right fun _ => ?_
  cases hacc : account a with
  | false => simp
  | true =>
    cases db.accountLines entry a with
    | nil => simp
    | cons l ls => simp [eq_comm]

/-- A statement shows an account once, with the sum of its lines. -/
theorem amountOf_activity {account : Account → Bool} {amount : Account → JournalLine → ℤ} {a : Account} {sign : ℤ}
    {rows : List LedgerRow} (ha : a ∈ db.accounts) (hsign : ∀ l, amount a l = sign * l.net)
    (hrows : (rows.map LedgerRow.net).Perm ((db.accountLines entry a).map JournalLine.net)) :
    amountOf (db.activity entry account amount) a.id = if account a then summed sign rows else none := by
  have hempty : db.accountLines entry a = [] ↔ rows = [] := by
    rw [← List.length_eq_zero_iff, ← List.length_eq_zero_iff, ← List.length_map JournalLine.net, ← hrows.length_eq,
      List.length_map]
  have hsum : ((db.accountLines entry a).map (amount a)).sum = sign * (rows.map LedgerRow.net).sum := by
    rw [hrows.sum_eq, funext hsign, List.sum_map_mul_left]
  have hrow : ∀ r ∈ db.activity entry account amount, r.accountId = a.id →
      account a = true ∧ rows ≠ [] ∧ r.amount = sign * (rows.map LedgerRow.net).sum := by
    intro r hr hid
    obtain ⟨b, hb, hacc, hne, rfl⟩ := mem_activity.1 hr
    obtain rfl : b = a := Table.key_inj hb ha hid
    exact ⟨hacc, fun h => hne (hempty.2 h), hsum⟩
  unfold amountOf summed
  cases hfind : (db.activity entry account amount).find? fun r => r.accountId = a.id with
  | some r =>
    obtain ⟨hacc, hne, hamount⟩ := hrow r (List.mem_of_find?_eq_some hfind) (by simpa using List.find?_some hfind)
    simp [hacc, hne, hamount]
  | none =>
    have hnone := List.find?_eq_none.1 hfind
    by_cases hacc : account a = true
    · by_cases hne : rows = []
      · simp [hne]
      · exact absurd (decide_eq_true rfl) (hnone _ (mem_activity.2 ⟨a, ha, hacc, fun h => hne (hempty.1 h), rfl⟩))
    · simp [hacc]

/-- The sign in which profit and loss shows an account. -/
def AccountType.incomeSign (t : AccountType) : ℤ := if t = .revenue then -1 else 1

/-- The sign in which the balance sheet shows an account. -/
def AccountType.sheetSign (t : AccountType) : ℤ := if t = .asset then 1 else -1

theorem incomeAmount_eq (a : Account) (l : JournalLine) : incomeAmount a l = a.accountType.incomeSign * l.net := by
  unfold incomeAmount AccountType.incomeSign
  split <;> omega

theorem sheetAmount_eq (a : Account) (l : JournalLine) : sheetAmount a l = a.accountType.sheetSign * l.net := by
  unfold sheetAmount AccountType.sheetSign
  split <;> omega

theorem castActivity_eq {rs rs' : List AccountActivityRow} (h : castActivity rs = .ok rs') : rs' = rs := by
  rcases castActivity_cases rs with he | he
  · rw [he] at h
    cases h
  · rw [he] at h
    cases h
    rfl

theorem castTrialBalance_eq {rs rs' : List TrialBalanceRow} (h : castTrialBalance rs = .ok rs') : rs' = rs := by
  rcases castTrialBalance_cases rs with he | he
  · rw [he] at h
    cases h
  · rw [he] at h
    cases h
    rfl

theorem numeric_eq {x y : ℤ} (h : numeric x = .ok y) : y = x := by
  rcases numeric_cases x with he | he
  · rw [he] at h
    cases h
  · rw [he] at h
    cases h
    rfl

theorem cashFlow_parts {cf : CashFlow} (h : CashFlowStatement fromDate toDate db = .ok cf) :
    cf.netIncome = db.lineSum (·.earning fromDate toDate) (·.accountType.isIncome) (fun l => -l.net) ∧
    cf.rows = db.activity (·.earning fromDate toDate) (fun a => !a.isCash && a.accountType.isBalanceSheet)
      (fun _ l => -l.net) ∧
    cf.openingCash = db.lineSum (·.before fromDate) (·.isCash) JournalLine.net ∧
    cf.netCashFlow = db.lineSum (·.within fromDate toDate) (·.isCash) JournalLine.net ∧
    cf.closingCash = db.lineSum (·.upTo toDate) (·.isCash) JournalLine.net := by
  unfold CashFlowStatement at h
  simp only [Except.bind_eq_ok_iff] at h
  obtain ⟨_, hn, rows, hrows, x, hx, y, hy, z, hz, h⟩ := h
  cases h
  exact ⟨numeric_eq hn, castActivity_eq hrows, numeric_eq hx, numeric_eq hy, numeric_eq hz⟩

/-- The sum over the cash accounts of their lines. -/
theorem lineSum_cash_ledgers (fromDate toDate : Option Date) :
    db.lineSum (·.within fromDate toDate) (·.isCash) JournalLine.net =
      ((db.accounts.rows.filter (·.isCash)).map fun a =>
        ((db.ledgerRows a.id fromDate toDate).map LedgerRow.net).sum).sum := by
  rw [← sum_accountLines]
  refine congrArg List.sum (List.map_congr_left fun a _ => ?_)
  exact (ledgerRows_perm rfl).sum_eq.symm

theorem amountOf_profitAndLoss {a : Account} (ha : a ∈ db.accounts) {rows : List AccountActivityRow}
    (h : ProfitAndLoss fromDate toDate db = .ok rows) : amountOf rows a.id =
      if a.accountType.isIncome then
        summed a.accountType.incomeSign (db.earned (db.ledgerRows a.id fromDate toDate)) else none := by
  rw [castActivity_eq h]
  exact amountOf_activity ha (incomeAmount_eq a) (earned_perm rfl)

theorem amountOf_balanceSheet {a : Account} (ha : a ∈ db.accounts) {asOf : Option Date} {bs : BalanceSheet}
    (h : BalanceSheetAsOf asOf db = .ok bs) : amountOf bs.rows a.id =
      if a.accountType.isBalanceSheet then summed a.accountType.sheetSign (db.ledgerRows a.id none asOf) else none := by
  simp only [BalanceSheetAsOf, Except.bind_eq_ok_iff] at h
  obtain ⟨rows, hrows, x, -, h⟩ := h
  cases h
  rw [castActivity_eq hrows]
  exact amountOf_activity ha (sheetAmount_eq a) (ledgerRows_perm rfl)

theorem amountOf_cashFlow {a : Account} (ha : a ∈ db.accounts) {cf : CashFlow}
    (h : CashFlowStatement fromDate toDate db = .ok cf) : amountOf cf.rows a.id =
      if !a.isCash && a.accountType.isBalanceSheet then
        summed (-1) (db.earned (db.ledgerRows a.id fromDate toDate)) else none := by
  rw [(cashFlow_parts h).2.1]
  exact amountOf_activity ha (by simp) (earned_perm rfl)

theorem accountLedger_eq {a : Account} (ha : a ∈ db.accounts) :
    AccountLedger a.id fromDate toDate db = some (db.ledgerRows a.id fromDate toDate) := by
  have hfind : db.accounts.find? a.id = some a := Table.find?_key ha
  refine if_pos ?_
  rw [hfind]
  rfl

/-- The row of an account on the trial balance against its whole ledger. -/
theorem exists_trialBalanceRow {a : Account} (ha : a ∈ db.accounts) {rows : List TrialBalanceRow}
    (h : TrialBalance db = .ok rows) : ∃ r ∈ rows, r.accountId = a.id ∧
      r.totalDebit = ((db.ledgerRows a.id none none).map (·.baseDebit)).sum ∧
      r.totalCredit = ((db.ledgerRows a.id none none).map (·.baseCredit)).sum ∧
        r.balance = ((db.ledgerRows a.id none none).map LedgerRow.net).sum := by
  rw [castTrialBalance_eq h]
  have hmem : db.trialBalanceRow a ∈ db.accountsByCode.map db.trialBalanceRow :=
    List.mem_map_of_mem ((List.mem_insertionSort _).2 ha)
  have hlines : db.accountLines (·.status = .posted) a = (db.joined (·.within none none) a.id).map (·.2) := by
    rw [map_joined rfl]
    congr 1
    funext e
    simp [JournalEntry.within, JournalEntry.upTo]
  have hperm := (List.perm_insertionSort (fun x y => ledgerKey x ≤ ledgerKey y)
    (db.joined (·.within none none) a.id)).symm
  refine ⟨_, hmem, rfl, ?_, ?_, ?_⟩
  · simp only [DB.trialBalanceRow, hlines, DB.ledgerRows, List.map_map]
    exact (hperm.map _).sum_eq
  · simp only [DB.trialBalanceRow, hlines, DB.ledgerRows, List.map_map]
    exact (hperm.map _).sum_eq
  · simp only [DB.trialBalanceRow, hlines, DB.ledgerRows, List.map_map]
    exact (hperm.map _).sum_eq

/-- Each statement against the ledger of an account for the same dates.  Profit and loss and the rows of the cash flow
leave out year-end closes; the cash lines of the cash flow do not. -/
theorem statements_are_ledger_sums (db : DB) {a : Account} (ha : a ∈ db.accounts) (fromDate toDate : Option Date) :
    ∃ ledger, AccountLedger a.id fromDate toDate db = some ledger ∧
      (∀ rows, ProfitAndLoss fromDate toDate db = .ok rows → amountOf rows a.id =
        if a.accountType.isIncome then summed a.accountType.incomeSign (db.earned ledger) else none) ∧
      (∀ bs, fromDate = none → BalanceSheetAsOf toDate db = .ok bs → amountOf bs.rows a.id =
        if a.accountType.isBalanceSheet then summed a.accountType.sheetSign ledger else none) ∧
      (∀ rows, fromDate = none → toDate = none → TrialBalance db = .ok rows → ∃ r ∈ rows, r.accountId = a.id ∧
        r.totalDebit = (ledger.map (·.baseDebit)).sum ∧ r.totalCredit = (ledger.map (·.baseCredit)).sum ∧
          r.balance = (ledger.map LedgerRow.net).sum) ∧
      ∀ cf, CashFlowStatement fromDate toDate db = .ok cf → amountOf cf.rows a.id =
          (if !a.isCash && a.accountType.isBalanceSheet then summed (-1) (db.earned ledger) else none) ∧
        cf.netCashFlow = ((db.accounts.rows.filter (·.isCash)).map fun c =>
          ((db.ledgerRows c.id fromDate toDate).map LedgerRow.net).sum).sum := by
  refine ⟨_, accountLedger_eq ha, fun _ h => amountOf_profitAndLoss ha h, ?_, ?_, ?_⟩
  · rintro bs rfl h
    exact amountOf_balanceSheet ha h
  · rintro rows rfl rfl h
    exact exists_trialBalanceRow ha h
  · intro cf h
    refine ⟨amountOf_cashFlow ha h, ?_⟩
    rw [(cashFlow_parts h).2.2.2.1]
    exact lineSum_cash_ledgers _ _

/-- The revenue of the posted invoice. -/
theorem statements_are_ledger_sums_posted : ∃ s : Store DB, Reachable s ∧
    ∃ a ∈ s.db.accounts, a.id = 8 ∧ ∃ ledger, AccountLedger a.id none none s.db = some ledger ∧
      ∀ rows, ProfitAndLoss none none s.db = .ok rows → amountOf rows a.id =
        if a.accountType.isIncome then summed a.accountType.incomeSign (s.db.earned ledger) else none := by
  obtain ⟨s, hs, hp⟩ := exists_reachable (opening ++ [.postDoc .salesInvoice 15])
    (p := fun s => (s.db.accounts.find? 8).isSome) (by decide +kernel)
  obtain ⟨a, ha⟩ := Option.isSome_iff_exists.1 hp
  obtain ⟨hmem, hid⟩ := Table.find?_eq_some.1 ha
  obtain ⟨ledger, hledger, hincome, -⟩ := statements_are_ledger_sums s.db hmem none none
  exact ⟨s, hs, a, hmem, hid, ledger, hledger, hincome⟩

/-! ### Adjacent ranges -/

theorem summed_append (sign : ℤ) (l l' : List LedgerRow) :
    (summed sign (l ++ l')).getD 0 = (summed sign l).getD 0 + (summed sign l').getD 0 ∧
      ((summed sign (l ++ l')).isSome ↔ (summed sign l).isSome ∨ (summed sign l').isSome) := by
  unfold summed
  cases l with
  | nil => simp
  | cons r l =>
    cases l' with
    | nil => simp
    | cons r' l' => simp [mul_add, add_assoc]

/-- A row of two adjacent ranges, where a statement without the row shows zero. -/
def AddsUp (whole first rest : Option ℤ) : Prop :=
  whole.getD 0 = first.getD 0 + rest.getD 0 ∧ (whole.isSome ↔ first.isSome ∨ rest.isSome)

theorem addsUp_ite (p : Bool) (sign : ℤ) (l l' : List LedgerRow) :
    AddsUp (if p then summed sign (l ++ l') else none) (if p then summed sign l else none)
      (if p then summed sign l' else none) := by
  cases p with
  | true => exact summed_append sign l l'
  | false => exact ⟨rfl, by simp⟩

theorem earned_append (l l' : List LedgerRow) : db.earned (l ++ l') = db.earned l ++ db.earned l' :=
  List.filter_append ..

section cut

variable {m : Date} (hf : ∀ f ∈ fromDate, f ≤ m) (ht : ∀ t ∈ toDate, m ≤ t)

include hf ht in
theorem lineSum_cut {q : JournalEntry → Bool} {account : Account → Bool} {amount : JournalLine → ℤ} :
    db.lineSum (fun e => e.within fromDate toDate && q e) account amount =
      db.lineSum (fun e => e.within fromDate (some m) && q e) account amount +
        db.lineSum (fun e => e.within (some m.next) toDate && q e) account amount := by
  refine lineSum_or_entry fun e => ?_
  simp only [JournalEntry.within, JournalEntry.upTo, Option.all_some]
  by_cases hm : e.entryDate ≤ m
  · have htall : toDate.all (e.entryDate ≤ ·) = true := by
      cases toDate with
      | none => rfl
      | some t => simpa using hm.trans (ht t rfl)
    simp [hm, htall, Date.next_le_iff]
  · have hfall : fromDate.all (· ≤ e.entryDate) = true := by
      cases fromDate with
      | none => rfl
      | some f => simpa using (hf f rfl).trans (not_le.1 hm).le
    simp [hm, hfall, Date.next_le_iff, not_le.1 hm]

end cut
