import Tadmor.Model.Reports
import Tadmor.Proof.Ledger
import Tadmor.Theory.Counting

/-!
# The financial statements

The sums of a statement are sums over lines, one for each class of accounts.  Every line is in one class, and the
lines of an entry add up to zero.
-/

/-! ### Sums over lines -/

section sums

variable {db : DB} {entry : JournalEntry → Bool}

theorem any_find? {α κ : Type} [Keyed α κ] [DecidableEq κ] (t : Table α) (k : κ) (p : α → Bool) :
    (t.find? k).any p = (t.rows.filter p).any fun a => k = Keyed.key a := by
  rw [Bool.eq_iff_iff, Option.any_eq_true, List.any_eq_true]
  constructor
  · rintro ⟨a, ha, hp⟩
    exact ⟨a, List.mem_filter.2 ⟨Table.mem_of_find? ha, hp⟩, decide_eq_true (Table.key_of_find? ha).symm⟩
  · rintro ⟨a, ha, hk⟩
    obtain ⟨hm, hp⟩ := List.mem_filter.1 ha
    obtain rfl := of_decide_eq_true hk
    exact ⟨a, Table.find?_key hm, hp⟩

/-- Two rows of a table do not share a key. -/
theorem pairwise_key_ne {α κ : Type} [Keyed α κ] [DecidableEq κ] (t : Table α) (p : α → Bool) :
    (t.rows.filter p).Pairwise fun a b => Keyed.key a ≠ Keyed.key b :=
  (List.pairwise_map.1 t.nodup).filter _

/-- The sums of the accounts add up to the sum over their lines. -/
theorem sum_accountLines (account : Account → Bool) (amount : JournalLine → ℤ) :
    ((db.accounts.rows.filter account).map fun a => ((db.accountLines entry a).map amount).sum).sum =
      db.lineSum entry account amount := by
  have hpair : (db.accounts.rows.filter account).Pairwise fun a b => ∀ l ∈ db.lines.rows,
      (((db.entries.find? l.journalEntryId).any entry && l.accountId = a.id) &&
        ((db.entries.find? l.journalEntryId).any entry && l.accountId = b.id)) = false := by
    refine (pairwise_key_ne db.accounts account).imp fun {a b} hne l _ => ?_
    by_cases ha : l.accountId = a.id
    · have hb : l.accountId ≠ b.id := fun e => hne (ha.symm.trans e)
      simp [hb]
    · simp [ha]
  unfold DB.lineSum DB.accountLines
  rw [← sum_filter_any hpair]
  congr 2
  refine List.filter_congr fun l _ => ?_
  rw [any_find? db.accounts]
  cases (db.entries.find? l.journalEntryId).any entry with
  | false => simp
  | true =>
    simp only [Bool.true_and]
    rfl

/-- Classes of accounts that exclude each other. -/
theorem lineSum_or {account p q : Account → Bool} {amount : JournalLine → ℤ}
    (h : ∀ a, account a = (p a || q a) ∧ (p a && q a) = false) :
    db.lineSum entry account amount = db.lineSum entry p amount + db.lineSum entry q amount := by
  refine sum_filter_or fun l _ => ?_
  cases db.accounts.find? l.accountId with
  | none => simp
  | some a =>
    obtain ⟨h₁, h₂⟩ := h a
    cases (db.entries.find? l.journalEntryId).any entry with
    | false => simp
    | true =>
      simp only [Option.any_some, Bool.true_and]
      exact ⟨h₁, h₂⟩

/-- Sets of entries that exclude each other. -/
theorem lineSum_or_entry {account : Account → Bool} {e₁ e₂ : JournalEntry → Bool} {amount : JournalLine → ℤ}
    (h : ∀ e, entry e = (e₁ e || e₂ e) ∧ (e₁ e && e₂ e) = false) :
    db.lineSum entry account amount = db.lineSum e₁ account amount + db.lineSum e₂ account amount := by
  refine sum_filter_or fun l _ => ?_
  cases db.entries.find? l.journalEntryId with
  | none => simp
  | some e =>
    obtain ⟨h₁, h₂⟩ := h e
    cases (db.accounts.find? l.accountId).any account with
    | false => simp
    | true =>
      simp only [Option.any_some, Bool.and_true]
      exact ⟨h₁, h₂⟩

theorem lineSum_neg {account : Account → Bool} {amount : JournalLine → ℤ} :
    (db.lineSum entry account fun l => -amount l) = -db.lineSum entry account amount := by
  unfold DB.lineSum
  have h := sum_map_sub (db.lines.rows.filter fun l =>
    (db.entries.find? l.journalEntryId).any entry && (db.accounts.find? l.accountId).any account) (fun _ => 0) amount
  simpa using h

/-- Every class of entries balances. -/
theorem lineSum_eq_zero (hok : db.LedgerOk) (hb : ∀ je, DB.entryBalanced je db = .ok ()) :
    (db.lineSum entry (fun _ => true) JournalLine.net) = 0 := by
  have hpair : (db.entries.rows.filter entry).Pairwise fun a b => ∀ l ∈ db.lines.rows,
      (decide (l.journalEntryId = a.id) && decide (l.journalEntryId = b.id)) = false := by
    refine (pairwise_key_ne db.entries entry).imp fun {a b} hne l _ => ?_
    by_cases ha : l.journalEntryId = a.id
    · have hb : l.journalEntryId ≠ b.id := fun e => hne (ha.symm.trans e)
      simp [hb]
    · simp [ha]
  have hsum : db.lineSum entry (fun _ => true) JournalLine.net =
      ((db.entries.rows.filter entry).map fun e => ((db.linesOf e.id).map JournalLine.net).sum).sum := by
    unfold DB.linesOf
    rw [← sum_filter_any (r := fun (e : JournalEntry) (l : JournalLine) => decide (l.journalEntryId = e.id)) hpair]
    unfold DB.lineSum
    congr 2
    refine List.filter_congr fun l hl => ?_
    obtain ⟨a, ha⟩ := Option.isSome_iff_exists.1 (hok.account l hl)
    rw [any_find?, ha, Option.any_some, Bool.and_true]
    rfl
  rw [hsum]
  have hzero : ∀ x ∈ (db.entries.rows.filter entry).map fun e => ((db.linesOf e.id).map JournalLine.net).sum, x = 0 := by
    intro x hx
    obtain ⟨e, he, rfl⟩ := List.mem_map.1 hx
    have hm : e ∈ db.entries := (List.mem_filter.1 he).1
    obtain ⟨-, hbase⟩ := entryBalanced_eq_ok hm (hok.posted e hm) (hb e.id)
    unfold JournalLine.net
    rw [sum_map_sub, hbase, sub_self]
  exact List.sum_eq_zero hzero

/-! ### Rows -/

/-- The rows that satisfy `p` add up to the sum over the lines of the accounts that have such rows. -/
theorem sum_activity {account : Account → Bool} {amount : Account → JournalLine → ℤ} {p : AccountActivityRow → Bool}
    {q : Account → Bool} {w : JournalLine → ℤ} (hq : ∀ a x, p ⟨a.id, a.code, a.accountType, x⟩ = q a)
    (hw : ∀ a ∈ db.accounts, account a = true → q a = true → amount a = w) :
    (((db.activity entry account amount).filter p).map (·.amount)).sum =
      db.lineSum entry (fun a => account a && q a) w := by
  rw [← sum_accountLines]
  have hsorted : db.accountsByCode.Perm db.accounts.rows := List.perm_insertionSort _ _
  rw [((hsorted.filter fun a => account a && q a).map _).sum_eq.symm]
  unfold DB.activity
  have hmem : ∀ a ∈ db.accountsByCode, a ∈ db.accounts := fun a ha => hsorted.mem_iff.1 ha
  generalize db.accountsByCode = as at hmem
  induction as with
  | nil => rfl
  | cons a as ih =>
    have ih := ih fun b hb => hmem b (List.mem_cons_of_mem _ hb)
    rw [List.filterMap_cons, List.filter_cons]
    cases ha : account a with
    | false => simpa using ih
    | true =>
      cases hp : q a with
      | false =>
        cases hls : db.accountLines entry a with
        | nil => simpa [hls] using ih
        | cons l ls => simpa [hls, hq, hp] using ih
      | true =>
        cases hls : db.accountLines entry a with
        | nil => simpa [hls] using ih
        | cons l ls => simpa [hls, hq, hp, hw a (hmem a (List.mem_cons_self ..)) ha hp] using ih

theorem rowTotal_asset : rowTotal (db.activity entry (·.accountType.isBalanceSheet) sheetAmount) .asset =
    db.lineSum entry (fun a => a.accountType = .asset) JournalLine.net := by
  refine (sum_activity (q := fun a => a.accountType = .asset) (w := JournalLine.net) (fun _ _ => rfl)
    fun a _ _ hp => ?_).trans ?_
  · funext l
    exact if_pos (of_decide_eq_true hp)
  · congr 1
    funext a
    cases a.accountType <;> rfl

theorem rowTotal_of_credit {t : AccountType} (ht : t = .liability ∨ t = .equity) :
    rowTotal (db.activity entry (·.accountType.isBalanceSheet) sheetAmount) t =
      -db.lineSum entry (fun a => a.accountType = t) JournalLine.net := by
  rw [← lineSum_neg]
  refine (sum_activity (q := fun a => a.accountType = t) (w := fun l => -l.net) (fun _ _ => rfl)
    fun a _ _ hp => ?_).trans ?_
  · funext l
    refine if_neg fun hasset => ?_
    rw [of_decide_eq_true hp] at hasset
    rcases ht with rfl | rfl <;> cases hasset
  · congr 1
    funext a
    rcases ht with rfl | rfl <;> cases a.accountType <;> rfl

end sums

/-! ### Casts -/

theorem numeric_cases (x : ℤ) : numeric x = .error overflow ∨ numeric x = .ok x := by
  unfold numeric
  split
  · exact .inr rfl
  · exact .inl rfl

theorem castActivity_cases (rs : List AccountActivityRow) :
    castActivity rs = .error overflow ∨ castActivity rs = .ok rs := by
  induction rs with
  | nil => exact .inr rfl
  | cons r rs ih =>
    unfold castActivity
    rcases numeric_cases r.amount with h | h
    · exact .inl (by rw [h]; rfl)
    · rcases ih with ih | ih
      · exact .inl (by rw [h, ih]; rfl)
      · exact .inr (by rw [h, ih]; rfl)

theorem castTrialBalance_cases (rs : List TrialBalanceRow) :
    castTrialBalance rs = .error overflow ∨ castTrialBalance rs = .ok rs := by
  induction rs with
  | nil => exact .inr rfl
  | cons r rs ih =>
    unfold castTrialBalance
    rcases numeric_cases r.totalDebit with h₁ | h₁
    · exact .inl (by rw [h₁]; rfl)
    · rcases numeric_cases r.totalCredit with h₂ | h₂
      · exact .inl (by rw [h₁, h₂]; rfl)
      · rcases numeric_cases r.balance with h₃ | h₃
        · exact .inl (by rw [h₁, h₂, h₃]; rfl)
        · rcases ih with ih | ih
          · exact .inl (by rw [h₁, h₂, h₃, ih]; rfl)
          · exact .inr (by rw [h₁, h₂, h₃, ih]; rfl)

/-! ### The books balance -/

section balance

variable {db : DB} (hok : db.LedgerOk) (hb : ∀ je, DB.entryBalanced je db = .ok ())

include hok hb

/-- The balance-sheet accounts and the income accounts balance each other. -/
theorem lineSum_balanceSheet (entry : JournalEntry → Bool) :
    db.lineSum entry (·.accountType.isBalanceSheet) JournalLine.net =
      -db.lineSum entry (·.accountType.isIncome) JournalLine.net := by
  have hsplit : db.lineSum entry (fun _ => true) JournalLine.net =
      db.lineSum entry (·.accountType.isBalanceSheet) JournalLine.net +
        db.lineSum entry (·.accountType.isIncome) JournalLine.net :=
    lineSum_or fun a => by cases a.accountType <;> exact ⟨rfl, rfl⟩
  rw [lineSum_eq_zero hok hb] at hsplit
  omega

theorem balanceSheet_balances (asOf : Option Date) :
    BalanceSheetAsOf asOf db = .error overflow ∨ ∃ bs, BalanceSheetAsOf asOf db = .ok bs ∧
      rowTotal bs.rows .asset = rowTotal bs.rows .liability + rowTotal bs.rows .equity + bs.currentEarnings := by
  unfold BalanceSheetAsOf
  rcases castActivity_cases (db.activity (·.upTo asOf) (·.accountType.isBalanceSheet) sheetAmount) with hr | hr
  · exact .inl (by rw [hr]; rfl)
  · rcases numeric_cases (db.lineSum (·.upTo asOf) (·.accountType.isIncome) fun l => -l.net) with he | he
    · exact .inl (by rw [hr, he]; rfl)
    · refine .inr ⟨_, by rw [hr, he]; rfl, ?_⟩
      dsimp only
      have h₁ : db.lineSum (·.upTo asOf) (·.accountType.isBalanceSheet) JournalLine.net =
          db.lineSum (·.upTo asOf) (fun a => a.accountType = .asset) JournalLine.net +
            db.lineSum (·.upTo asOf) (fun a => a.accountType = .liability || a.accountType = .equity) JournalLine.net :=
        lineSum_or fun a => by cases a.accountType <;> exact ⟨rfl, rfl⟩
      have h₂ : db.lineSum (·.upTo asOf) (fun a => a.accountType = .liability || a.accountType = .equity)
          JournalLine.net = db.lineSum (·.upTo asOf) (fun a => a.accountType = .liability) JournalLine.net +
            db.lineSum (·.upTo asOf) (fun a => a.accountType = .equity) JournalLine.net :=
        lineSum_or fun a => by cases a.accountType <;> exact ⟨rfl, rfl⟩
      have h₃ := lineSum_balanceSheet hok hb (·.upTo asOf)
      rw [rowTotal_asset, rowTotal_of_credit (.inl rfl), rowTotal_of_credit (.inr rfl), lineSum_neg]
      omega

theorem trialBalance_balances : TrialBalance db = .error overflow ∨ ∃ rows, TrialBalance db = .ok rows ∧
    (rows.map (·.totalDebit)).sum = (rows.map (·.totalCredit)).sum := by
  unfold TrialBalance
  rcases castTrialBalance_cases (db.accountsByCode.map db.trialBalanceRow) with h | h
  · exact .inl h
  · refine .inr ⟨_, h, ?_⟩
    -- in any order the rows add up to the sum over all lines
    have hsum : ∀ amount : JournalLine → ℤ, (db.accountsByCode.map fun a =>
        ((db.accountLines (·.status = .posted) a).map amount).sum).sum =
          db.lineSum (·.status = .posted) (fun _ => true) amount := by
      intro amount
      rw [← sum_accountLines, List.filter_eq_self.2 fun _ _ => rfl]
      exact ((List.perm_insertionSort _ _).map _).sum_eq
    have hnet : db.lineSum (·.status = .posted) (fun _ => true) JournalLine.net = 0 := lineSum_eq_zero hok hb
    have hsub : db.lineSum (·.status = .posted) (fun _ => true) JournalLine.net =
        db.lineSum (·.status = .posted) (fun _ => true) (·.baseDebit) -
          db.lineSum (·.status = .posted) (fun _ => true) (·.baseCredit) := sum_map_sub _ _ _
    rw [List.map_map, List.map_map]
    have hd := hsum (·.baseDebit)
    have hc := hsum (·.baseCredit)
    change (db.accountsByCode.map fun a => ((db.accountLines (·.status = .posted) a).map (·.baseDebit)).sum).sum =
      (db.accountsByCode.map fun a => ((db.accountLines (·.status = .posted) a).map (·.baseCredit)).sum).sum
    rw [hd, hc]
    omega

end balance

/-- In every reachable state every balance sheet balances, every posted entry balances in both currencies, and the
trial balance balances; a report fails only when an amount does not fit its column. -/
theorem books_balance {s : Store DB} (h : Reachable s) :
    (∀ asOf, BalanceSheetAsOf asOf s.db = .error overflow ∨ ∃ bs, BalanceSheetAsOf asOf s.db = .ok bs ∧
      rowTotal bs.rows .asset = rowTotal bs.rows .liability + rowTotal bs.rows .equity + bs.currentEarnings) ∧
    (∀ e ∈ s.db.entries, e.status = .posted →
      ((s.db.linesOf e.id).map (·.debit)).sum = ((s.db.linesOf e.id).map (·.credit)).sum ∧
        ((s.db.linesOf e.id).map (·.baseDebit)).sum = ((s.db.linesOf e.id).map (·.baseCredit)).sum) ∧
    (TrialBalance s.db = .error overflow ∨ ∃ rows, TrialBalance s.db = .ok rows ∧
      (rows.map (·.totalDebit)).sum = (rows.map (·.totalCredit)).sum) :=
  ⟨balanceSheet_balances h.ledgerOk h.entryBalanced,
    fun _ he hs => entryBalanced_eq_ok he hs (h.entryBalanced _), trialBalance_balances h.ledgerOk h.entryBalanced⟩

/-- The posted invoice: receivables of 100 dollars, all of it earnings. -/
theorem books_balance_posted : ∃ s : Store DB, Reachable s ∧
    BalanceSheetAsOf none s.db = .ok ⟨[⟨2, "1100", .asset, dollars 100⟩], dollars 100⟩ ∧
    ∀ e ∈ s.db.entries, e.status = .posted →
      ((s.db.linesOf e.id).map (·.debit)).sum = ((s.db.linesOf e.id).map (·.credit)).sum ∧
        ((s.db.linesOf e.id).map (·.baseDebit)).sum = ((s.db.linesOf e.id).map (·.baseCredit)).sum := by
  obtain ⟨s, hs, hp⟩ := exists_reachable (opening ++ [.postDoc .salesInvoice 15])
    (p := fun s => (BalanceSheetAsOf none s.db).toOption = some ⟨[⟨2, "1100", .asset, dollars 100⟩], dollars 100⟩)
    (by decide +kernel)
  refine ⟨s, hs, ?_, (books_balance hs).2.1⟩
  have h := of_decide_eq_true hp
  cases hb : BalanceSheetAsOf none s.db with
  | error e =>
    rw [hb] at h
    cases h
  | ok bs =>
    rw [hb] at h
    exact congrArg Except.ok (Option.some.inj h)

/-! ### Cash flow -/

section cash

variable {db : DB} {fromDate toDate : Option Date}

/-- Classes that the accounts of the table do not tell apart. -/
theorem lineSum_congr {entry : JournalEntry → Bool} {p q : Account → Bool} {amount : JournalLine → ℤ}
    (h : ∀ a ∈ db.accounts, p a = q a) : db.lineSum entry p amount = db.lineSum entry q amount := by
  unfold DB.lineSum
  congr 2
  refine List.filter_congr fun l _ => ?_
  cases ha : db.accounts.find? l.accountId with
  | none => rfl
  | some a => rw [Option.any_some, Option.any_some, h a (Table.mem_of_find? ha)]

/-- The lines of closing entries, and of their reversals, on cash accounts. -/
def DB.closingCash (db : DB) (fromDate toDate : Option Date) : ℤ :=
  db.lineSum (fun e => e.within fromDate toDate && e.isClosing) (·.isCash) JournalLine.net

/-- Income, the other balance-sheet accounts and cash balance each other; closing entries are in none of them. -/
theorem lineSum_cash (hok : db.LedgerOk) (hb : ∀ je, DB.entryBalanced je db = .ok ()) (entry : JournalEntry → Bool) :
    db.lineSum entry (·.isCash) JournalLine.net =
      -db.lineSum entry (·.accountType.isIncome) JournalLine.net -
        db.lineSum entry (fun a => !a.isCash && a.accountType.isBalanceSheet) JournalLine.net := by
  have hcash : db.lineSum entry (·.isCash) JournalLine.net =
      db.lineSum entry (fun a => a.isCash && a.accountType.isBalanceSheet) JournalLine.net :=
    lineSum_congr fun a ha => by
      cases hc : a.isCash with
      | false => rfl
      | true => rw [hok.cash a ha hc]; rfl
  have hsplit : db.lineSum entry (·.accountType.isBalanceSheet) JournalLine.net =
      db.lineSum entry (fun a => a.isCash && a.accountType.isBalanceSheet) JournalLine.net +
        db.lineSum entry (fun a => !a.isCash && a.accountType.isBalanceSheet) JournalLine.net :=
    lineSum_or fun a => by cases a.isCash <;> cases a.accountType.isBalanceSheet <;> exact ⟨rfl, rfl⟩
  have hsheet := lineSum_balanceSheet hok hb entry
  omega

/-- The cash before a range and the cash of the range are the cash at its end. -/
theorem cash_before_within (hrange : ∀ f ∈ fromDate, ∀ t ∈ toDate, f ≤ t) (account : Account → Bool)
    (amount : JournalLine → ℤ) : db.lineSum (·.upTo toDate) account amount =
      db.lineSum (·.before fromDate) account amount + db.lineSum (·.within fromDate toDate) account amount := by
  refine lineSum_or_entry fun e => ?_
  cases fromDate with
  | none => simp [JournalEntry.before, JournalEntry.within]
  | some f =>
    simp only [JournalEntry.before, JournalEntry.within, JournalEntry.upTo, Option.any_some, Option.all_some]
    by_cases hlt : e.entryDate < f
    · -- the whole range is later
      have hto : toDate.all (e.entryDate ≤ ·) = true := by
        rw [Option.all_eq_true]
        exact fun t ht => decide_eq_true (hlt.le.trans (hrange f rfl t ht))
      simp [hlt, not_le.2 hlt, hto]
    · simp [hlt, not_lt.1 hlt]

theorem cashFlowStatement_cases (hok : db.LedgerOk) (hb : ∀ je, DB.entryBalanced je db = .ok ())
    (hrange : ∀ f ∈ fromDate, ∀ t ∈ toDate, f ≤ t) :
    CashFlowStatement fromDate toDate db = .error overflow ∨ ∃ cf, CashFlowStatement fromDate toDate db = .ok cf ∧
      cf.netIncome + (cf.rows.map (·.amount)).sum + db.closingCash fromDate toDate = cf.netCashFlow ∧
      cf.openingCash + cf.netCashFlow = cf.closingCash := by
  unfold CashFlowStatement
  rcases numeric_cases (db.lineSum (·.earning fromDate toDate) (·.accountType.isIncome) fun l => -l.net) with h₁ | h₁
  · exact .inl (by rw [h₁]; rfl)
  rcases castActivity_cases (db.activity (·.earning fromDate toDate)
    (fun a => !a.isCash && a.accountType.isBalanceSheet) fun _ l => -l.net) with h₂ | h₂
  · exact .inl (by rw [h₁, h₂]; rfl)
  rcases numeric_cases (db.lineSum (·.before fromDate) (·.isCash) JournalLine.net) with h₃ | h₃
  · exact .inl (by rw [h₁, h₂, h₃]; rfl)
  rcases numeric_cases (db.lineSum (·.within fromDate toDate) (·.isCash) JournalLine.net) with h₄ | h₄
  · exact .inl (by rw [h₁, h₂, h₃, h₄]; rfl)
  rcases numeric_cases (db.lineSum (·.upTo toDate) (·.isCash) JournalLine.net) with h₅ | h₅
  · exact .inl (by rw [h₁, h₂, h₃, h₄, h₅]; rfl)
  refine .inr ⟨_, by rw [h₁, h₂, h₃, h₄, h₅]; rfl, ?_, (cash_before_within hrange _ _).symm⟩
  dsimp only
  have hrows : (((db.activity (·.earning fromDate toDate) (fun a => !a.isCash && a.accountType.isBalanceSheet)
      fun _ l => -l.net).filter fun _ => true).map (·.amount)).sum =
        db.lineSum (·.earning fromDate toDate) (fun a => (!a.isCash && a.accountType.isBalanceSheet) && true)
          fun l => -l.net := sum_activity (p := fun _ => true) (fun _ _ => rfl) fun _ _ _ _ => rfl
  simp only [Bool.and_true, List.filter_true] at hrows
  have hsplit : db.lineSum (·.within fromDate toDate) (·.isCash) JournalLine.net =
      db.lineSum (·.earning fromDate toDate) (·.isCash) JournalLine.net + db.closingCash fromDate toDate := by
    refine lineSum_or_entry fun e => ?_
    unfold JournalEntry.earning
    cases e.within fromDate toDate <;> cases e.isClosing <;> exact ⟨rfl, rfl⟩
  have hcash := lineSum_cash hok hb (·.earning fromDate toDate)
  rw [hrows, lineSum_neg, lineSum_neg]
  omega

end cash

/-- In every reachable state a cash-flow statement that does not overflow satisfies both identities if and only if the
closing entries in its range, and their reversals, leave nothing on accounts that are cash accounts now. -/
theorem cash_flow_identities_iff {s : Store DB} (h : Reachable s) (fromDate toDate : Option Date)
    (hrange : ∀ f ∈ fromDate, ∀ t ∈ toDate, f ≤ t) :
    CashFlowStatement fromDate toDate s.db = .error overflow ∨
      ∃ cf, CashFlowStatement fromDate toDate s.db = .ok cf ∧
        ((cf.netIncome + (cf.rows.map (·.amount)).sum = cf.netCashFlow ∧
          cf.openingCash + cf.netCashFlow = cf.closingCash) ↔ s.db.closingCash fromDate toDate = 0) := by
  rcases cashFlowStatement_cases h.ledgerOk h.entryBalanced hrange with he | ⟨cf, hcf, hnet, hclosing⟩
  · exact .inl he
  · refine .inr ⟨cf, hcf, ?_⟩
    constructor
    · rintro ⟨hid, -⟩
      omega
    · intro hz
      exact ⟨by omega, hclosing⟩

/-- The posted invoice, paid in full, and the close of its year, which touches no cash account. -/
theorem cash_flow_identities_iff_closed : ∃ s : Store DB, Reachable s ∧ s.db.closingCash none none = 0 ∧
    ∃ cf, CashFlowStatement none none s.db = .ok cf ∧
      ((cf.netIncome + (cf.rows.map (·.amount)).sum = cf.netCashFlow ∧
        cf.openingCash + cf.netCashFlow = cf.closingCash) ↔ s.db.closingCash none none = 0) := by
  obtain ⟨s, hs, hp⟩ := exists_reachable (opening ++ [.postDoc .salesInvoice 15,
      .createPayment .sales (paymentInput 100), .postPayment .sales 21, .closeFiscalYear 13 7])
    (p := fun s => s.db.closingCash none none = 0 ∧ (CashFlowStatement none none s.db).toOption.isSome)
    (by decide +kernel)
  obtain ⟨hz, hsome⟩ := of_decide_eq_true hp
  refine ⟨s, hs, hz, ?_⟩
  rcases cash_flow_identities_iff hs none none (by simp) with he | hcf
  · rw [he] at hsome
    cases hsome
  · exact hcf

/-- The year of the invoice is closed, then its revenue account is made a cash account: the closing entry's line on it
counts as cash and as nothing else. -/
theorem cash_flow_identity_fails : ¬∀ s : Store DB, Reachable s → ∀ fromDate toDate : Option Date,
    (∀ f ∈ fromDate, ∀ t ∈ toDate, f ≤ t) → ∀ cf, CashFlowStatement fromDate toDate s.db = .ok cf →
      cf.netIncome + (cf.rows.map (·.amount)).sum = cf.netCashFlow ∧
        cf.openingCash + cf.netCashFlow = cf.closingCash := by
  obtain ⟨s, hs, hp⟩ := exists_reachable (opening ++ [.postDoc .salesInvoice 15, .closeFiscalYear 13 7,
      .updateAccount 8 ⟨"4000", .asset, true, true, true, none⟩])
    (p := fun s => (CashFlowStatement none none s.db).toOption =
      some ⟨0, [⟨2, "1100", .asset, dollars (-100)⟩], 0, 0, 0⟩)
    (by decide +kernel)
  intro hall
  cases hcf : CashFlowStatement none none s.db with
  | error e =>
    rw [hcf] at hp
    cases of_decide_eq_true hp
  | ok cf =>
    rw [hcf] at hp
    obtain rfl := Option.some.inj (of_decide_eq_true hp)
    have hid := (hall s hs none none (by simp) _ hcf).1
    revert hid
    decide
