import Tadmor.Proof.Calendar
import Tadmor.Proof.CloseBalances
import Tadmor.Proof.EntryContent
import Tadmor.Proof.YearEndAnswers

/-!
# When a year can be closed

A close that passes its checks still writes a line on every account with a balance and opens the period of the last
day.  The accounts may have been deactivated since, and the period may belong to another year: a closed one, which
keeps it shut, or an open one, which leaves it open.
-/

/-! ### The closing lines that the tables accept -/

section balances

variable {db : DB} {date : Date}

/-- The sweep has a line for the accounts of revenue and expense that have a balance. -/
theorem mem_balances {x : Option ℕ × ℤ} : x ∈ db.balances date ↔
    ∃ a ∈ db.accounts, a.accountType.isIncome = true ∧ db.balanceAt a date ≠ 0 ∧ x = (some a.id, db.balanceAt a date) := by
  obtain ⟨k, b⟩ := x
  constructor
  · intro h
    obtain ⟨hsum, hne⟩ := mem_groupSums.1 h
    have hfilter : (((db.balances date).filter fun y => y.1 = k).map Prod.snd).sum = b :=
      (sum_groupSums _ k).trans hsum.symm
    by_cases hk : ∃ a ∈ db.accounts, a.accountType.isIncome = true ∧ k = some a.id
    · obtain ⟨a, ha, hi, rfl⟩ := hk
      have hb : (((db.balances date).filter fun x => x.1 = some a.id).map Prod.snd).sum = db.balanceAt a date :=
        sum_balances ha hi
      rw [hfilter] at hb
      exact ⟨a, ha, hi, hb ▸ hne, by rw [hb]⟩
    · obtain ⟨-, y, hy, hyk, -⟩ := exists_of_mem_groupSums h
      obtain ⟨l, hl, rfl⟩ := List.mem_map.1 hy
      have hs := (List.mem_filter.1 hl).2
      rw [DB.swept, Bool.and_eq_true] at hs
      obtain ⟨a, ha, ht⟩ := (Option.any_eq_true ..).1 hs.2
      have hid : a.id = l.accountId := Table.key_of_find? ha
      refine absurd ⟨a, Table.mem_of_find? ha, ?_, ?_⟩ hk
      · cases hat : a.accountType <;> simp_all [AccountType.isIncome]
      · exact hyk.symm.trans (by rw [hid])
  · rintro ⟨a, ha, hi, hne, rfl, rfl⟩
    exact mem_groupSums.2 ⟨(sum_balances ha hi).symm.trans (sum_groupSums _ _), hne⟩

/-- Sums over the sweep are sums over the accounts of revenue and expense. -/
theorem sum_map_balances (f : ℤ → ℤ) (h0 : f 0 = 0) : ((db.balances date).map fun x => f x.2).sum =
    ((db.accounts.rows.filter (·.accountType.isIncome)).map fun a => f (db.balanceAt a date)).sum := by
  have hn : (db.accounts.rows.filter (·.accountType.isIncome)).Nodup := db.accounts.nodup.of_map.filter _
  have hperm : (db.balances date).Perm
      (((db.accounts.rows.filter (·.accountType.isIncome)).filter fun a => db.balanceAt a date ≠ 0).map fun a =>
        (some a.id, db.balanceAt a date)) := by
    refine (List.perm_ext_iff_of_nodup (nodup_groupSums _) ?_).2 fun x => ?_
    · refine (List.nodup_map_iff_inj_on (hn.filter _)).2 fun a ha b hb e => ?_
      have hid : a.id = b.id := Option.some.inj (congrArg Prod.fst e)
      have ham : a ∈ db.accounts := (List.mem_filter.1 (List.mem_filter.1 ha).1).1
      exact Table.key_inj ham (List.mem_filter.1 (List.mem_filter.1 hb).1).1 hid
    · refine mem_balances.trans ?_
      simp only [List.mem_map, List.mem_filter, decide_eq_true_eq]
      constructor
      · rintro ⟨a, ha, hi, hne, rfl⟩
        exact ⟨a, ⟨⟨ha, hi⟩, hne⟩, rfl⟩
      · rintro ⟨a, ⟨⟨ha, hi⟩, hne⟩, rfl⟩
        exact ⟨a, ha, hi, hne, rfl⟩
  rw [(hperm.map _).sum_eq, List.map_map, sum_map_filter]
  congr 1
  refine List.map_congr_left fun a _ => ?_
  by_cases hz : db.balanceAt a date = 0
  · simp [hz, h0]
  · simp [hz]

end balances

/-- What the closing lines of the date debit in total. -/
def DB.sweptDebits (db : DB) (date : Date) : ℤ :=
  ((db.accounts.rows.filter (·.accountType.isIncome)).map fun a => max (-db.balanceAt a date) 0).sum +
    max (db.incomeBalance date) 0

/-- The accounts with a balance take postings, and the balances and their totals are in range. -/
structure DB.Sweepable (db : DB) (date : Date) : Prop where
  accounts : ∀ a ∈ db.accounts, a.accountType.isIncome = true → db.balanceAt a date ≠ 0 → db.takes a.id = true
  amounts : ∀ a ∈ db.accounts, a.accountType.isIncome = true → fits (db.balanceAt a date) = true
  total : fits (db.incomeBalance date) = true
  debits : fits (db.sweptDebits date) = true

section accepted

variable {db : DB} {date : Date} {retained : ℕ} {name : String}

/-- One side of an amount is zero, the other is the amount. -/
theorem fits_sides {x : ℤ} : (fits (max x 0) = true ∧ fits (max (-x) 0) = true) ↔ fits x = true := by
  rcases le_total x 0 with h | h
  · rw [max_eq_right h, max_eq_left (neg_nonneg.2 h), fits_neg, and_iff_right fits_zero]
  · rw [max_eq_left h, max_eq_right (neg_nonpos.2 h), and_iff_left fits_zero]

/-- A line in base currency on one side. -/
theorem accepted_signed {n account : ℕ} {amount : ℤ} {memo : String} (hne : amount ≠ 0) :
    (NewLine.signed n (some account) amount amount memo).accepted db = true ↔
      fits amount = true ∧ db.takes account = true := by
  rw [NewLine.accepted, show (NewLine.signed n (some account) amount amount memo).accountId = some account from rfl,
    Option.any_some, Bool.and_eq_true, JournalLine.valid_iff]
  refine and_congr_left fun _ => ?_
  constructor
  · rintro ⟨⟨⟨⟨hd, hc⟩, -⟩, -⟩, -⟩
    exact fits_sides.1 ⟨hd, hc⟩
  · intro h
    obtain ⟨hd, hc⟩ := fits_sides.2 h
    refine ⟨⟨⟨⟨hd, hc⟩, hd⟩, hc⟩, ⟨le_max_right .., le_max_right ..⟩, ?_, ⟨le_max_right .., le_max_right ..⟩, ?_, ?_⟩
    · show max amount 0 = 0 ↔ max (-amount) 0 ≠ 0
      omega
    · show max amount 0 = 0 ∨ 0 < max amount 0
      omega
    · show max (-amount) 0 = 0 ∨ 0 < max (-amount) 0
      omega

theorem inRange_signed {n : ℕ} {account : Option ℕ} {amount : ℤ} {memo : String} (h : fits amount = true) :
    (NewLine.signed n account amount amount memo).inRange = true := by
  obtain ⟨hd, hc⟩ := fits_sides.2 h
  simp only [NewLine.inRange, NewLine.signed, hd, hc, Bool.and_self]

/-- The closing lines are accepted one by one if the swept accounts take postings and the amounts are in range. -/
theorem all_accepted_closingLinesFrom {total : ℤ} {n : ℕ} {bal : List (Option ℕ × ℤ)}
    (hr : db.takes retained = true) (hb : ∀ x ∈ bal, ∃ a, x.1 = some a ∧ x.2 ≠ 0) :
    (closingLinesFrom retained name total n bal).all (NewLine.accepted db) = true ↔
      (∀ x ∈ bal, fits x.2 = true ∧ x.1.all db.takes = true) ∧ fits total = true := by
  induction bal generalizing n with
  | nil =>
    unfold closingLinesFrom
    by_cases ht : total = 0
    · simp [ht, fits_zero]
    · rw [if_neg ht, List.all_cons, List.all_nil, Bool.and_true, accepted_signed ht]
      simp [hr]
  | cons x bal ih =>
    obtain ⟨account, b⟩ := x
    obtain ⟨a, rfl, hne⟩ := hb _ (List.mem_cons_self ..)
    rw [closingLinesFrom, List.all_cons, Bool.and_eq_true, accepted_signed (neg_ne_zero.2 hne), fits_neg,
      ih fun y hy => hb y (List.mem_cons_of_mem _ hy), List.forall_mem_cons]
    exact and_assoc.symm

theorem debits_closingLinesFrom {total : ℤ} {n : ℕ} {bal : List (Option ℕ × ℤ)} :
    ((closingLinesFrom retained name total n bal).map (·.debit)).sum =
      (bal.map fun x => max (-x.2) 0).sum + max total 0 := by
  induction bal generalizing n with
  | nil =>
    unfold closingLinesFrom
    by_cases ht : total = 0
    · simp [ht]
    · simp [ht, NewLine.signed]
  | cons x bal ih =>
    obtain ⟨account, b⟩ := x
    rw [closingLinesFrom, List.map_cons, List.sum_cons, ih, List.map_cons, List.sum_cons, add_assoc]
    rfl

/-- A closing line is in range if its amount is. -/
theorem inRange_of_mem_closingLinesFrom {total : ℤ} {n : ℕ} {bal : List (Option ℕ × ℤ)}
    (hb : ∀ x ∈ bal, fits x.2 = true) (ht : fits total = true) {l : NewLine}
    (h : l ∈ closingLinesFrom retained name total n bal) : l.inRange = true := by
  induction bal generalizing n with
  | nil =>
    unfold closingLinesFrom at h
    split at h
    · cases h
    · obtain rfl := List.mem_singleton.1 h
      exact inRange_signed ht
  | cons x bal ih =>
    obtain ⟨account, b⟩ := x
    rcases List.mem_cons.1 h with rfl | h
    · exact inRange_signed ((fits_neg b).trans (hb _ (List.mem_cons_self ..)))
    · exact ih (fun y hy => hb y (List.mem_cons_of_mem _ hy)) h

/-- The tables accept the closing lines if and only if the accounts with a balance take postings and the balances and
their totals are in range. -/
theorem accepts_closingLines (hr : db.takes retained = true) :
    db.accepts (closingLines date retained name db) = true ↔ db.Sweepable date := by
  have htotal : ((db.balances date).map Prod.snd).sum = db.incomeBalance date := total_balances db date
  have hacc : (closingLinesFrom retained name (db.incomeBalance date) 1 (db.balances date)).all (NewLine.accepted db) =
      true ↔ _ := all_accepted_closingLinesFrom hr fun x hx => by
      obtain ⟨a, -, -, hne, rfl⟩ := mem_balances.1 hx
      exact ⟨a.id, rfl, hne⟩
  have hdebits : ((closingLinesFrom retained name (db.incomeBalance date) 1 (db.balances date)).map (·.debit)).sum =
      db.sweptDebits date := by
    rw [debits_closingLinesFrom, sum_map_balances (fun b => max (-b) 0) (by simp)]
    rfl
  have hbase : (closingLinesFrom retained name (db.incomeBalance date) 1 (db.balances date)).map (·.baseDebit) =
      (closingLinesFrom retained name (db.incomeBalance date) 1 (db.balances date)).map (·.debit) :=
    List.map_congr_left fun l hl => (mem_closingLinesFrom hl).2.2.1
  unfold closingLines
  dsimp only
  rw [htotal, DB.accepts, inRange, hbase, hdebits, Bool.and_eq_true, Bool.and_eq_true, Bool.and_eq_true, hacc]
  constructor
  · rintro ⟨⟨hbal, htot⟩, ⟨-, hsum⟩, -⟩
    refine ⟨fun a ha hi hne => ?_, fun a ha hi => ?_, htot, hsum⟩
    · exact (hbal _ (mem_balances.2 ⟨a, ha, hi, hne, rfl⟩)).2
    · by_cases hz : db.balanceAt a date = 0
      · rw [hz]
        exact fits_zero
      · exact (hbal _ (mem_balances.2 ⟨a, ha, hi, hz, rfl⟩)).1
  · intro h
    have hamounts : ∀ x ∈ db.balances date, fits x.2 = true := fun x hx => by
      obtain ⟨a, ha, hi, -, rfl⟩ := mem_balances.1 hx
      exact h.amounts a ha hi
    refine ⟨⟨fun x hx => ⟨hamounts x hx, ?_⟩, h.total⟩, ⟨List.all_eq_true.2 fun l hl => ?_, h.debits⟩, h.debits⟩
    · obtain ⟨a, ha, hi, hne, rfl⟩ := mem_balances.1 hx
      exact h.accounts a ha hi hne
    · exact inRange_of_mem_closingLinesFrom hamounts h.total hl

end accepted

/-! ### The documented preconditions of a close -/

section

variable {db : DB} {id retained : ℕ} {fy : FiscalYear} {s : Store DB} {gaps : ℕ → ℕ}

theorem takes_of_mayClose (h : db.mayClose id retained = some fy) : db.takes retained = true := by
  obtain ⟨-, hok⟩ := Option.filter_eq_some_iff.1 h
  obtain ⟨a, ha, hok⟩ := (Option.any_eq_true ..).1 (Bool.and_eq_true_iff.1 hok).2
  rw [Bool.and_eq_true] at hok
  rw [DB.takes, ha]
  exact hok.1

/-- The year is open and no earlier year is, the account is a postable, active equity account, and a period covers the
last day or one can be created. -/
def DB.mayCloseOn (db : DB) (id retained : ℕ) : Prop :=
  ∃ fy, db.mayClose id retained = some fy ∧ db.canSweep fy.endDate

/-- The close of a year does what its preconditions promise. -/
structure ClosesAsDocumented (id retained : ℕ) (gaps : ℕ → ℕ) (s : Store DB) : Prop where
  succeeds : s.db.mayCloseOn id retained → ∃ s', (transaction (.closeFiscalYear id retained)).commit gaps s = .ok ((), s')
  fails : ¬s.db.mayCloseOn id retained → ∃ e, (transaction (.closeFiscalYear id retained)).commit gaps s = .error e
  unchanged : ∀ e, (transaction (.closeFiscalYear id retained)).commit gaps s = .error e →
    (handle (.closeFiscalYear id retained) gaps s).2 = s

/-- A year that may be closed with something to sweep has a period that may be opened and accounts that may be written
to; one with nothing to sweep has a period all the same. -/
def DB.ClosesSoundly (db : DB) (id retained : ℕ) : Prop :=
  ∀ fy, db.mayClose id retained = some fy →
    if db.balances fy.endDate = [] then db.canSweep fy.endDate
    else db.canSweep fy.endDate → db.coveredLocked fy.endDate = false ∧ db.Sweepable fy.endDate

/-- Exactly when a year can be closed. -/
theorem commit_closeFiscalYear_iff (hs : Reachable s) :
    (∃ s', (transaction (.closeFiscalYear id retained)).commit gaps s = .ok ((), s')) ↔
      ∃ fy, s.db.mayClose id retained = some fy ∧ (s.db.balances fy.endDate ≠ [] →
        s.db.canSweep fy.endDate ∧ s.db.coveredLocked fy.endDate = false ∧ s.db.Sweepable fy.endDate) := by
  have hdecided : Decided _ _ (transaction (.closeFiscalYear id retained)) gaps s :=
    (wp_closeFiscalYear (hs.steady gaps)).void.commit
  have hiff := hdecided.commit_iff
  have hunit : (∃ s', (transaction (.closeFiscalYear id retained)).commit gaps s = .ok ((), s')) ↔
      ∃ x, (transaction (.closeFiscalYear id retained)).commit gaps s = .ok x :=
    ⟨fun ⟨s', h⟩ => ⟨_, h⟩, fun ⟨x, h⟩ => ⟨x.2, h⟩⟩
  rw [hunit, hiff]
  show ¬s.db.closeRefused id retained ∧ s.db.closeSound id retained ↔ _
  constructor
  · rintro ⟨hno, hsound⟩
    cases hmay : s.db.mayClose id retained with
    | none => exact absurd (.inl hmay) hno
    | some fy =>
      refine ⟨fy, rfl, fun hbal => ?_⟩
      obtain ⟨hl, hacc⟩ := (closeSound_iff hmay).1 hsound hbal
      have hsweep : s.db.canSweep fy.endDate := by
        by_contra hsweep
        exact hno ((closeRefused_iff hmay).2 ⟨hbal, hsweep, hl⟩)
      exact ⟨hsweep, hl, (accepts_closingLines (takes_of_mayClose hmay)).1 (hacc hsweep)⟩
  · rintro ⟨fy, hmay, h⟩
    refine ⟨fun hno => ?_, (closeSound_iff hmay).2 fun hbal => ?_⟩
    · obtain ⟨hbal, hsweep, -⟩ := (closeRefused_iff hmay).1 hno
      exact hsweep (h hbal).1
    · obtain ⟨-, hl, hsw⟩ := h hbal
      exact ⟨hl, fun _ => (accepts_closingLines (takes_of_mayClose hmay)).2 hsw⟩

/-- The close of a year does what its preconditions promise if and only if the period and the accounts of the sweep may
be written to. -/
theorem close_as_documented_iff (hs : Reachable s) :
    ClosesAsDocumented id retained gaps s ↔ s.db.ClosesSoundly id retained := by
  have hiff : (∃ s', (transaction (.closeFiscalYear id retained)).commit gaps s = .ok ((), s')) ↔ _ :=
    commit_closeFiscalYear_iff hs
  have herror : (∃ e, (transaction (.closeFiscalYear id retained)).commit gaps s = .error e) ↔
      ¬∃ s', (transaction (.closeFiscalYear id retained)).commit gaps s = .ok ((), s') := by
    cases (transaction (.closeFiscalYear id retained)).commit gaps s with
    | error e => simp
    | ok x =>
      obtain ⟨u, s'⟩ := x
      simp
  constructor
  · intro h fy hmay
    split
    · rename_i hbal
      by_contra hsweep
      have hfails := h.fails fun ⟨fy', hmay', hsweep'⟩ => hsweep (Option.some.inj (hmay.symm.trans hmay') ▸ hsweep')
      exact herror.1 hfails (hiff.2 ⟨fy, hmay, fun hne => absurd hbal hne⟩)
    · rename_i hbal
      intro hsweep
      obtain ⟨fy', hmay', hok⟩ := hiff.1 (h.succeeds ⟨fy, hmay, hsweep⟩)
      obtain rfl := Option.some.inj (hmay.symm.trans hmay')
      exact (hok hbal).2
  · intro h
    refine ⟨fun ⟨fy, hmay, hsweep⟩ => hiff.2 ⟨fy, hmay, fun hbal => ⟨hsweep, ?_⟩⟩, fun hno => herror.2 fun hok => ?_,
      fun e he => ?_⟩
    · have hsound := h fy hmay
      rw [if_neg hbal] at hsound
      exact hsound hsweep
    · obtain ⟨fy, hmay, hok⟩ := hiff.1 hok
      have hsound := h fy hmay
      by_cases hbal : s.db.balances fy.endDate = []
      · rw [if_pos hbal] at hsound
        exact hno ⟨fy, hmay, hsound⟩
      · exact hno ⟨fy, hmay, (hok hbal).1⟩
    · rw [handle, he]

theorem mayCloseOn_iff : db.mayCloseOn id retained ↔
    ((db.mayClose id retained).any fun fy => decide (db.canSweep fy.endDate)) = true := by
  rw [Option.any_eq_true]
  simp only [DB.mayCloseOn, decide_eq_true_eq]

end

/-- The year of the posted invoice. -/
theorem close_as_documented_invoice : ∃ s : Store DB, s.db.mayCloseOn 13 7 ∧ s.db.balances yearEnd = [(some 8, dollars (-100))] ∧
    (ClosesAsDocumented 13 7 (fun _ => 0) s ↔ s.db.ClosesSoundly 13 7) := by
  obtain ⟨s, hs, hp⟩ := exists_reachable (opening ++ [.postDoc .salesInvoice 15])
    (p := fun s => ((s.db.mayClose 13 7).any fun fy => decide (s.db.canSweep fy.endDate)) &&
      s.db.balances yearEnd = [(some 8, dollars (-100))]) (by decide +kernel)
  rw [Bool.and_eq_true] at hp
  exact ⟨s, mayCloseOn_iff.2 hp.1, of_decide_eq_true hp.2, close_as_documented_iff hs⟩

/-- The revenue account of the posted invoice is deactivated before the close. -/
theorem close_deactivated_account : ¬∀ s : Store DB, Reachable s → ∀ id retained gaps,
    ClosesAsDocumented id retained gaps s := by
  intro hall
  obtain ⟨s, hs, hp⟩ := exists_reachable
    (opening ++ [.postDoc .salesInvoice 15, .updateAccount 8 ⟨"4000", .revenue, true, false, false, none⟩])
    (p := fun s => ((s.db.mayClose 13 7).any fun fy => decide (s.db.canSweep fy.endDate)) &&
      !((transaction (.closeFiscalYear 13 7)).commit (fun _ => 0) s).toOption.isSome) (by decide +kernel)
  rw [Bool.and_eq_true] at hp
  obtain ⟨s', hc⟩ := (hall s hs 13 7 fun _ => 0).succeeds (mayCloseOn_iff.2 hp.1)
  rw [hc] at hp
  cases hp.2

/-! ### The periods after a close -/

/-- The period with the status. -/
def AccountingPeriod.withStatus (p : AccountingPeriod) (status : BookStatus) : AccountingPeriod := { p with status }

section periods

variable {endDate : Date} {id retained period : ℕ} {name : String} {v w : Env DB Err} {p : AccountingPeriod}

theorem find?_setPeriods {status : BookStatus} {select : DB → List ℕ} {u : Unit}
    (h : (setPeriods status select).run v = .ok (u, w)) (k : ℕ) :
    w.db.periods.find? k =
      (v.db.periods.find? k).map fun p => if k ∈ select v.db then p.withStatus status else p := by
  rw [(run_setPeriods h).1]
  exact Table.find?_update (f := fun p : AccountingPeriod => p.withStatus status) (fun _ => rfl) _ _ _

theorem find?_periodFor {n : ℕ} {db db' : DB} (hf : Fresh n db) (h : PeriodFor endDate n db db') {k : ℕ}
    (hp : db.periods.find? k = some p) : db'.periods.find? k = some p := by
  rcases h with rfl | ⟨m, fy, hm, -, -, -, -, rfl⟩
  · exact hp
  · have hfree : db.periods.Free (monthPeriod m fy endDate).id := hf.periods.free hm
    refine (Table.find?_insert_of_ne fun e => ?_).trans hp
    exact hfree p (Table.mem_of_find? hp) ((Table.key_of_find? hp).trans e.symm)

/-- The period of the closing entry is open, the others are as they were. -/
theorem find?_closingPeriod (h : (closingPeriod endDate).run v = .ok (period, w)) (hv : Fresh v.seq v.db)
    (hp : p ∈ v.db.periods) : w.db.periods.find? p.id =
      some (if v.db.coveringPeriod endDate = some p then p.withStatus .opened else p) := by
  have hfind : v.db.periods.find? p.id = some p := Table.find?_key hp
  rw [closingPeriod, Prog.run_read_bind_ok] at h
  cases hc : v.db.coveringPeriod endDate with
  | none =>
    rw [hc] at h
    obtain ⟨hfor, -⟩ := run_periodForDate h
    rw [if_neg (Option.some_ne_none p).symm]
    exact find?_periodFor hv.tick hfor hfind
  | some q =>
    obtain ⟨hq, -⟩ := coveringPeriod_eq_some hc
    have hfindq : v.tick.db.periods.find? q.id = some q := Table.find?_key hq
    rw [hc] at h
    dsimp only at h
    split at h
    · obtain ⟨u, v₁, h₁, h⟩ := Prog.run_bind_ok.1 h
      obtain ⟨-, rfl⟩ := Prog.run_pure_ok.1 h
      rw [find?_setPeriods h₁, Table.hit_of_find? hfindq rfl, show v.tick.db.periods.find? p.id = some p from hfind,
        Option.map_some]
      by_cases hid : p.id = q.id
      · obtain rfl := Table.key_inj hp hq hid
        rw [if_pos rfl, if_pos (List.mem_singleton_self _)]
      · rw [if_neg fun hm => hid (List.mem_singleton.1 hm), if_neg fun e => hid (by rw [Option.some.inj e])]
    · rename_i hs
      obtain ⟨-, rfl⟩ := Prog.run_pure_ok.1 h
      rw [Env.tick_db, hfind]
      by_cases hpq : q = p
      · have hopen : q.status = .opened := by
          cases hst : q.status with
          | opened => rfl
          | closed => exact absurd hst hs
        rw [if_pos (congrArg some hpq), ← hpq, AccountingPeriod.withStatus, ← hopen]
      · rw [if_neg fun e => hpq (Option.some.inj e)]

theorem find?_postSweep {toSweep : ℕ} {closing : Option ℕ}
    (h : (postSweep toSweep name endDate retained).run v = .ok (closing, w)) (hv : Fresh v.seq v.db)
    (hp : p ∈ v.db.periods) : w.db.periods.find? p.id =
      some (if 0 < toSweep ∧ v.db.coveringPeriod endDate = some p then p.withStatus .opened else p) := by
  unfold postSweep at h
  split at h
  · rename_i hpos
    obtain ⟨je, v₁, h₁, h⟩ := Prog.run_bind_ok.1 h
    obtain ⟨-, rfl⟩ := Prog.run_pure_ok.1 h
    rw [postClosing_eq, Prog.run_read_bind_ok] at h₁
    obtain ⟨period, v₂, h₂, h₁⟩ := Prog.run_bind_ok.1 h₁
    obtain ⟨je', v₃, h₃, h₁⟩ := Prog.run_bind_ok.1 h₁
    obtain ⟨u₄, v₄, h₄, h₁⟩ := Prog.run_bind_ok.1 h₁
    obtain ⟨-, rfl⟩ := Prog.run_pure_ok.1 h₁
    obtain ⟨-, hdb₃⟩ := run_insertClosing h₃
    obtain ⟨n, rows, -, -, hdb₄, -⟩ := run_insertLines h₄
    have hperiods : w.db.periods = v₂.db.periods := by rw [hdb₄, hdb₃]
    rw [hperiods, find?_closingPeriod h₂ hv.tick hp, Env.tick_db]
    simp only [hpos, true_and]
  · rename_i hpos
    obtain ⟨-, rfl⟩ := Prog.run_pure_ok.1 h
    rw [if_neg fun hc => hpos hc.1]
    exact Table.find?_key hp

/-- The status that the close of the year `id`, which ends on `date`, leaves a period with: the period of the closing
entry is opened before the periods of the year are closed. -/
def DB.statusAfterClose (db : DB) (id : ℕ) (date : Date) (p : AccountingPeriod) : BookStatus :=
  if p.fiscalYearId = id then .closed
  else if db.balances date ≠ [] ∧ db.coveringPeriod date = some p then .opened
  else p.status

theorem find?_closeRest {fy : FiscalYear} {res : CloseResult} (h : (closeRest id retained fy).run v = .ok (res, w))
    (hv : Fresh v.seq v.db) (hp : p ∈ v.db.periods) :
    w.db.periods.find? p.id = some (p.withStatus (v.db.statusAfterClose id fy.endDate p)) := by
  rw [closeRest, Prog.run_read_bind_ok] at h
  obtain ⟨closing, v₁, h₁, h⟩ := Prog.run_bind_ok.1 h
  obtain ⟨u₂, v₂, h₂, h⟩ := Prog.run_bind_ok.1 h
  obtain ⟨u₃, v₃, h₃, h⟩ := Prog.run_bind_ok.1 h
  obtain ⟨next, v₄, h₄, h⟩ := Prog.run_bind_ok.1 h
  obtain ⟨-, rfl⟩ := Prog.run_pure_ok.1 h
  have hv₁ := (allFresh_postSweep _ _ _ _).run h₁ hv.tick
  have hv₃ := (allFresh_updateYear _ _ _).run h₃ ((allFresh_setPeriods _ _).run h₂ hv₁)
  have hperiods : w.db.periods = v₂.db.periods := by
    rw [(run_insertNextYear h₄ hv₃).1]
    obtain ⟨o, ho, -, rfl⟩ := Prog.run_exec_ok.1 h₃
    cases ho
    rfl
  have hfind := find?_postSweep h₁ hv.tick hp
  rw [hperiods, find?_setPeriods h₂, hfind, Option.map_some, Env.tick_db]
  simp only [List.length_pos_iff] at hfind ⊢
  have hmem : ∀ q : AccountingPeriod, v₁.db.periods.find? p.id = some q →
      (p.id ∈ v₁.db.periods.keysWhere (fun p => p.fiscalYearId = id && p.status = .opened) ↔
        q.fiscalYearId = id ∧ q.status = .opened) := fun q hq => by
    have hkey : q.id = p.id := Table.key_of_find? hq
    rw [← hkey]
    refine (Table.mem_keysWhere (Table.mem_of_find? hq)).trans ?_
    rw [Bool.and_eq_true, decide_eq_true_eq, decide_eq_true_eq]
  rw [Env.tick_db] at hfind
  congr 1
  unfold DB.statusAfterClose
  by_cases hsweep : v.db.balances fy.endDate ≠ [] ∧ v.db.coveringPeriod fy.endDate = some p
  · rw [if_pos hsweep] at hfind
    simp only [if_pos hsweep, hmem _ hfind]
    by_cases hid : p.fiscalYearId = id
    · rw [if_pos hid, if_pos ⟨hid, rfl⟩]
      rfl
    · rw [if_neg hid, if_neg fun hc => hid hc.1]
  · rw [if_neg hsweep] at hfind
    simp only [if_neg hsweep, hmem _ hfind]
    by_cases hid : p.fiscalYearId = id
    · rw [if_pos hid]
      cases hs : p.status with
      | opened => rw [if_pos ⟨hid, rfl⟩]
      | closed =>
        rw [if_neg fun hc => by cases hc.2]
        rw [AccountingPeriod.withStatus, ← hs]
    · rw [if_neg hid, if_neg fun hc => hid hc.1]
      rfl

end periods

/-- What the close of the year `id` promises of the periods: closed ones stay closed, those of the year are closed, the
others are as they were. -/
structure PeriodsKept (id : ℕ) (db db' : DB) : Prop where
  closed : ∀ p ∈ db.periods, p.status = .closed → ∃ p' ∈ db'.periods, p'.id = p.id ∧ p'.status = .closed
  ofYear : ∀ p' ∈ db'.periods, p'.fiscalYearId = id → p'.status = .closed
  others : ∀ p ∈ db.periods, p.fiscalYearId ≠ id → ∃ p' ∈ db'.periods, p'.id = p.id ∧ p'.status = p.status

/-- There is something to sweep, into a closed period of another year. -/
def DB.sweepsElsewhere (db : DB) (id : ℕ) (date : Date) : Prop :=
  db.balances date ≠ [] ∧ ∃ p, db.coveringPeriod date = some p ∧ p.status = .closed ∧ p.fiscalYearId ≠ id

/-- A close opens no period if and only if it does not sweep into a closed period of another year. -/
theorem close_opens_no_period_iff {id retained : ℕ} {gaps : ℕ → ℕ} {s s' : Store DB} {fy : FiscalYear}
    (hs : Reachable s) (hfy : s.db.years.find? id = some fy)
    (hc : (transaction (.closeFiscalYear id retained)).commit gaps s = .ok ((), s')) :
    PeriodsKept id s.db s'.db ↔ ¬s.db.sweepsElsewhere id fy.endDate := by
  have hafter : ∀ p ∈ s.db.periods, s'.db.periods.find? p.id =
      some (p.withStatus (s.db.statusAfterClose id fy.endDate p)) := by
    obtain ⟨w, hrun, -, rfl⟩ := Prog.commit_eq_ok.1 hc
    obtain ⟨res, hrun⟩ := run_void hrun
    obtain ⟨fy', u, hg, hdb, hseq, -, hrun⟩ := run_closeFiscalYear hrun
    change u.db = s.db at hdb
    obtain rfl : fy' = fy := Option.some.inj (hg.year.symm.trans hfy)
    intro p hp
    rw [← hdb]
    exact find?_closeRest hrun (hdb ▸ hs.fresh.mono _ _ _ hseq) (hdb ▸ hp)
  have hunique : ∀ p ∈ s.db.periods, ∀ p' ∈ s'.db.periods, p'.id = p.id →
      p'.status = s.db.statusAfterClose id fy.endDate p := fun p hp p' hp' hid => by
    obtain rfl := Option.some.inj ((Table.find?_key hp').symm.trans ((congrArg s'.db.periods.find? hid).trans (hafter p hp)))
    rfl
  constructor
  · rintro h ⟨hbal, p, hcov, hclosed, hne⟩
    have hp := (coveringPeriod_eq_some hcov).1
    obtain ⟨p', hp', hid, hs'⟩ := h.closed p hp hclosed
    have hstatus := hunique p hp p' hp' hid
    rw [DB.statusAfterClose, if_neg hne, if_pos ⟨hbal, hcov⟩, hs'] at hstatus
    cases hstatus
  · intro hno
    have hkept : ∀ p ∈ s.db.periods, p.fiscalYearId ≠ id → s.db.statusAfterClose id fy.endDate p = p.status := by
      intro p hp hne
      rw [DB.statusAfterClose, if_neg hne]
      split
      · rename_i hsweep
        cases hst : p.status with
        | opened => rfl
        | closed => exact absurd ⟨hsweep.1, p, hsweep.2, hst, hne⟩ hno
      · rfl
    refine ⟨fun p hp hst => ?_, commit_close_periods hc hs.fresh, fun p hp hne => ?_⟩
    · refine ⟨_, Table.mem_of_find? (hafter p hp), rfl, ?_⟩
      show s.db.statusAfterClose id fy.endDate p = .closed
      by_cases hid : p.fiscalYearId = id
      · exact if_pos hid
      · exact (hkept p hp hid).trans hst
    · exact ⟨_, Table.mem_of_find? (hafter p hp), rfl, hkept p hp hne⟩

def december2026 (year : ℕ) (status : BookStatus) : PeriodInput := ⟨year, "2026-12", day 12 1, yearEnd, status⟩

/-- December is a closed period of the year itself. -/
theorem close_opens_no_period_own : ∃ s s' : Store DB,
    s.db.periods.rows.map (fun p => (p.name, p.status)) = [("2026-12", .closed), ("2026-03", .opened)] ∧
    s'.db.periods.rows.map (fun p => (p.name, p.status)) = [("2026-12", .closed), ("2026-03", .closed)] ∧
    (PeriodsKept 13 s.db s'.db ↔ ¬s.db.sweepsElsewhere 13 yearEnd) := by
  obtain ⟨s, hs, hp⟩ := exists_reachable
    ([.createFiscalYear ⟨"FY2026", yearStart, yearEnd⟩, .createParty .sales (some 2),
      .createDoc .salesInvoice (invoiceInput "I1" 100), .createPeriod (december2026 13 .opened),
      .updatePeriod 17 (december2026 13 .closed), .postDoc .salesInvoice 15])
    (p := fun s => s.db.years.find? 13 = some ⟨13, "FY2026", yearStart, yearEnd, .opened, none⟩ &&
      s.db.periods.rows.map (fun p => (p.name, p.status)) = [("2026-12", .closed), ("2026-03", .opened)] &&
      commits (.closeFiscalYear 13 7) (fun s' =>
        s'.db.periods.rows.map (fun p => (p.name, p.status)) = [("2026-12", .closed), ("2026-03", .closed)]) s)
    (by decide +kernel)
  simp only [Bool.and_eq_true, decide_eq_true_eq] at hp
  obtain ⟨⟨hfy, hnames⟩, hcommit⟩ := hp
  obtain ⟨s', hc, hnames'⟩ := of_commits hcommit
  have hiff := close_opens_no_period_iff hs hfy hc
  exact ⟨s, s', hnames, of_decide_eq_true hnames', hiff⟩

def fiscalYear2027 : FiscalYearInput := ⟨"FY2027", ⟨2027, 1, 1, by decide⟩, ⟨2027, 12, 31, by decide⟩⟩

/-- December 2026 is a closed period of the year 2027. -/
theorem close_opens_period : ¬∀ s s' : Store DB, Reachable s → ∀ id retained gaps,
    (transaction (.closeFiscalYear id retained)).commit gaps s = .ok ((), s') → PeriodsKept id s.db s'.db := by
  intro hall
  obtain ⟨s, hs, hp⟩ := exists_reachable
    (opening ++ [.createFiscalYear fiscalYear2027, .createPeriod (december2026 17 .opened),
      .updatePeriod 18 (december2026 17 .closed), .postDoc .salesInvoice 15])
    (p := fun s => commits (.closeFiscalYear 13 7) (fun s' =>
      s.db.periods.rows.any (fun p => p.id = 18 && p.status = .closed) &&
        s'.db.periods.rows.all fun p => p.id ≠ 18 || p.status = .opened) s)
    (by decide +kernel)
  obtain ⟨s', hc, hst⟩ := of_commits hp
  simp only [Bool.and_eq_true, List.any_eq_true, List.all_eq_true, decide_eq_true_eq, Bool.or_eq_true] at hst
  obtain ⟨⟨p, hp, hid, hclosed⟩, hopen⟩ := hst
  obtain ⟨p', hp', hid', hclosed'⟩ := (hall s s' hs 13 7 _ hc).closed p hp hclosed
  rcases hopen p' hp' with hne | ho
  · exact hne (hid'.trans hid)
  · rw [hclosed'] at ho
    cases ho
