import Tadmor.Proof.YearClose
import Tadmor.Proof.YearOrder

/-!
# Closing and reopening a year

The reversal of the closing entry takes back what the entry swept, so the balances and statements are those before the
close, and the next close computes the same lines.
-/

/-! ### What the sweep depends on -/

instance : Std.Total fun a b => accountLE a b = true where
  total a b := by
    cases a with
    | none => cases b <;> simp [accountLE]
    | some a =>
      cases b with
      | none => simp [accountLE]
      | some b => simpa [accountLE] using le_total a b

instance : IsTrans (Option ℕ) fun a b => accountLE a b = true where
  trans a b c hab hbc := by
    cases a with
    | none => cases b <;> cases c <;> simp_all [accountLE]
    | some a =>
      cases b with
      | none => cases c <;> simp_all [accountLE]
      | some b =>
        cases c with
        | none => simp [accountLE]
        | some c => simp_all [accountLE]; omega

theorem accountLE_antisymm {a b : Option ℕ} (hab : accountLE a b = true) (hba : accountLE b a = true) : a = b := by
  cases a with
  | none => cases b <;> simp_all [accountLE]
  | some a =>
    cases b with
    | none => simp [accountLE] at hab hba
    | some b =>
      simp only [accountLE, decide_eq_true_eq] at hab hba
      rw [le_antisymm hab hba]

theorem pairwise_groupSums (xs : List (Option ℕ × ℤ)) : (groupSums xs).Pairwise fun a b => accountLE a.1 b.1 = true := by
  refine List.Pairwise.filter _ (List.pairwise_map.2 ?_)
  exact List.pairwise_insertionSort (fun a b => accountLE a b = true) _

/-- The sweep depends on the balances only. -/
theorem balances_congr {db db' : DB} {date : Date} (ha : db'.accounts = db.accounts)
    (hb : ∀ a ∈ db.accounts, db'.balanceAt a date = db.balanceAt a date) : db'.balances date = db.balances date := by
  have hmem : ∀ x, x ∈ db'.balances date ↔ x ∈ db.balances date := by
    intro x
    rw [mem_balances, mem_balances, ha]
    constructor
    · rintro ⟨a, ham, hi, hne, rfl⟩
      rw [hb a ham] at hne ⊢
      exact ⟨a, ham, hi, hne, rfl⟩
    · rintro ⟨a, ham, hi, hne, rfl⟩
      rw [← hb a ham] at hne ⊢
      exact ⟨a, ham, hi, hne, rfl⟩
  have hperm : (db'.balances date).Perm (db.balances date) :=
    (List.perm_ext_iff_of_nodup (nodup_groupSums _) (nodup_groupSums _)).2 hmem
  refine hperm.eq_of_pairwise (fun x y hx hy hxy hyx => ?_) (pairwise_groupSums _) (pairwise_groupSums _)
  -- both rows are in order of the account, which determines the balance
  have hk := accountLE_antisymm hxy hyx
  obtain ⟨a, ham, -, -, rfl⟩ := mem_balances.1 ((hmem x).1 hx)
  obtain ⟨b, hbm, -, -, rfl⟩ := mem_balances.1 hy
  obtain rfl := Table.key_inj ham hbm (Option.some.inj hk)
  rfl

theorem sweepable_congr {db db' : DB} {date : Date} (ha : db'.accounts = db.accounts)
    (hb : ∀ a ∈ db.accounts, db'.balanceAt a date = db.balanceAt a date) (h : db.Sweepable date) : db'.Sweepable date := by
  have hmap : ∀ f : ℤ → ℤ, ((db'.accounts.rows.filter (·.accountType.isIncome)).map fun a => f (db'.balanceAt a date)) =
      (db.accounts.rows.filter (·.accountType.isIncome)).map fun a => f (db.balanceAt a date) := fun f => by
    rw [ha]
    exact List.map_congr_left fun a hm => by rw [hb a (List.mem_filter.1 hm).1]
  have htotal : db'.incomeBalance date = db.incomeBalance date := congrArg List.sum (hmap id)
  refine ⟨fun a ham hi hne => ?_, fun a ham hi => ?_, htotal ▸ h.total, ?_⟩
  · rw [ha] at ham
    rw [hb a ham] at hne
    rw [DB.takes, ha]
    exact h.accounts a ham hi hne
  · rw [ha] at ham
    rw [hb a ham]
    exact h.amounts a ham hi
  · rw [DB.sweptDebits, hmap fun b => max (-b) 0, htotal]
    exact h.debits

/-! ### The statements -/

/-- The balances of the accounts, the profit and loss statements and the cash-flow statements are the same. -/
structure SameStatements (db db' : DB) : Prop where
  balance : ∀ a ∈ db.accounts, ∀ date, db'.balanceAt a date = db.balanceAt a date
  profitAndLoss : ∀ fromDate toDate, ProfitAndLoss fromDate toDate db' = ProfitAndLoss fromDate toDate db
  cashFlow : ∀ fromDate toDate, CashFlowStatement fromDate toDate db' = CashFlowStatement fromDate toDate db

/-- Only the calendar differs. -/
def DB.SameButCalendar (db db' : DB) : Prop := db' = { db with periods := db'.periods, years := db'.years }

theorem DB.SameButCalendar.trans {a b c : DB} (h : a.SameButCalendar b) (h' : b.SameButCalendar c) :
    a.SameButCalendar c := by
  unfold DB.SameButCalendar at h h' ⊢
  rw [h', h]

theorem SameStatements.calendar {db db' : DB} (h : db.SameButCalendar db') : SameStatements db db' := by
  rw [h]
  exact ⟨fun _ _ _ => rfl, fun _ _ => rfl, fun _ _ => rfl⟩

theorem lineSum_net_congr {db db' : DB} {entry : JournalEntry → Bool} (ha : db'.accounts = db.accounts)
    (h : ∀ a, ((db'.accountLines entry a).map JournalLine.net).sum = ((db.accountLines entry a).map JournalLine.net).sum)
    (account : Account → Bool) : db'.lineSum entry account JournalLine.net = db.lineSum entry account JournalLine.net := by
  rw [← sum_accountLines, ← sum_accountLines, ha]
  simp only [h]

section reversed

variable {lo lo' : ℕ} {db mid mid' db' : DB} {e r : JournalEntry} {rows rows' : List JournalLine}
  (hw : Wrote lo db mid e rows) (ho : JournalOk db) (he : e.reversesEntryId = none) (hmid : mid.SameButCalendar mid')
  (hr : Reversed lo' mid' db' e r rows')

include hw ho he hmid

theorem journalOk_closed : JournalOk mid' :=
  ((hw.journaled he).trans (.of_same (by rw [hmid]) (by rw [hmid]))).ok ho

include hr

theorem accountLines_reversed (entry : JournalEntry → Bool) (a : Account) : db'.accountLines entry a =
    (db.accountLines entry a ++ if entry e then rows.filter fun l => l.accountId = a.id else []) ++
      if entry r then rows'.filter fun l => l.accountId = a.id else [] := by
  have hcal : mid'.accountLines entry a = mid.accountLines entry a := by
    rw [hmid]
    rfl
  rw [hr.wrote.accountLines (journalOk_closed hw ho he hmid), hcal, hw.accountLines ho]

/-- An entry and its reversal add up to nothing where both count. -/
theorem sum_accountLines_reversed {entry : JournalEntry → Bool} (hentry : entry r = entry e) (a : Account) :
    ((db'.accountLines entry a).map JournalLine.net).sum = ((db.accountLines entry a).map JournalLine.net).sum := by
  have hlines : mid'.linesOf e.id = rows := by
    rw [hmid]
    exact hw.linesOf ho
  have hmirror := forall₂_mirrors hr.mirror
  rw [hlines] at hmirror
  have hnet : ∀ l m : JournalLine, JournalLine.Mirrors l m → m.net = -l.net := by
    intro l m h
    rw [JournalLine.net, JournalLine.net, h.baseDebit, h.baseCredit]
    omega
  have hsum := @sum_of_mirrors JournalLine.net a.id true hnet _ _ hmirror
  simp only [Bool.and_true] at hsum
  rw [accountLines_reversed hw ho he hmid hr, hentry]
  split
  · rw [List.map_append, List.sum_append, List.map_append, List.sum_append, hsum]
    omega
  · rw [List.append_nil, List.append_nil]

theorem accountLines_reversed_of_closing (hc : e.isClosing = true) (fromDate toDate : Option Date) (a : Account) :
    db'.accountLines (·.earning fromDate toDate) a = db.accountLines (·.earning fromDate toDate) a := by
  have hrc : r.isClosing = true := by
    rw [hr.reversal]
    exact hc
  have hee : e.earning fromDate toDate = false := by rw [JournalEntry.earning, hc, Bool.not_true, Bool.and_false]
  have hre : r.earning fromDate toDate = false := by rw [JournalEntry.earning, hrc, Bool.not_true, Bool.and_false]
  rw [accountLines_reversed hw ho he hmid hr, hee, hre]
  simp

/-- A closing entry and its reversal leave the statements as they were. -/
theorem SameStatements.of_reversed (hs : e.status = .posted) (hc : e.isClosing = true) : SameStatements db db' := by
  have hacc : db'.accounts = db.accounts := by rw [hr.wrote.eq, hmid, hw.eq]
  have hdate : r.entryDate = e.entryDate := by rw [hr.reversal]; rfl
  have hstatus : r.status = e.status := by rw [hr.reversal, hs]; rfl
  have hup : ∀ asOf, r.upTo asOf = e.upTo asOf := fun asOf => by
    rw [JournalEntry.upTo, JournalEntry.upTo, hdate, hstatus]
  have hwithin : ∀ f t, r.within f t = e.within f t := fun f t => by
    rw [JournalEntry.within, JournalEntry.within, hdate, hup]
  have hbefore : ∀ f, r.before f = e.before f := fun f => by
    rw [JournalEntry.before, JournalEntry.before, hdate, hstatus]
  have hearning := accountLines_reversed_of_closing hw ho he hmid hr hc
  have hactivity : ∀ f t account amount, db'.activity (·.earning f t) account amount =
      db.activity (·.earning f t) account amount := fun f t account amount => activity_congr hacc (hearning f t)
  refine ⟨fun a _ date => sum_accountLines_reversed hw ho he hmid hr (hup _) a, fun f t => ?_, fun f t => ?_⟩
  · unfold ProfitAndLoss
    rw [hactivity]
  · unfold CashFlowStatement
    rw [hactivity, lineSum_neg, lineSum_neg, lineSum_net_congr hacc fun a => by rw [hearning],
      lineSum_net_congr hacc fun a => sum_accountLines_reversed hw ho he hmid hr (hbefore f) a,
      lineSum_net_congr hacc fun a => sum_accountLines_reversed hw ho he hmid hr (hwithin f t) a,
      lineSum_net_congr hacc fun a => sum_accountLines_reversed hw ho he hmid hr (hup t) a]

end reversed

/-! ### The period of the closing entry -/

/-- Only the edit of a period changes its dates or its year. -/
theorem Change.period {n k : ℕ} {db db' : DB} {op : Op} {cs : List (DB → Except Err Unit)} {p : AccountingPeriod}
    (h : Change n db op db' cs) (hop : ∀ id input, op ≠ .updatePeriod id input)
    (hp : ∃ status, db.periods.find? k = some (p.withStatus status)) :
    ∃ status, db'.periods.find? k = some (p.withStatus status) := by
  obtain ⟨status, hp⟩ := hp
  have hinsert : ∀ q, ∃ status, (db.periods.insert q).find? k = some (p.withStatus status) := fun q => by
    by_cases hq : db.periods.Free q.id
    · refine ⟨status, (Table.find?_insert_of_ne fun e => ?_).trans hp⟩
      exact hq _ (Table.mem_of_find? hp) ((Table.key_of_find? hp).trans e.symm)
    · rw [Table.insert_of_not_free hq]
      exact ⟨status, hp⟩
  have hupdate : ∀ ks status', ∃ status, (db.periods.update ks (fun p => { p with status := status' }) fun _ => rfl).find? k =
      some (p.withStatus status) := fun ks status' => by
    rw [Table.find?_update (f := fun p : AccountingPeriod => { p with status := status' }) (fun _ => rfl), hp,
      Option.map_some]
    split
    · exact ⟨status', rfl⟩
    · exact ⟨status, rfl⟩
  cases h with
  | elsewhere h => exact ⟨status, h.periods ▸ hp⟩
  | month date hfy hover => exact hinsert _
  | openPeriods ks hu => exact hupdate _ _
  | closePeriods id retained => exact hupdate _ _
  | newPeriod input h => exact hinsert _
  | editPeriod id input h => exact absurd rfl (hop id input)
  | _ => exact ⟨status, hp⟩

theorem commit_period {op : Op} {gaps : ℕ → ℕ} {s s' : Store DB} {k : ℕ} {p : AccountingPeriod}
    (hc : (transaction op).commit gaps s = .ok ((), s')) (hs : Fresh s.seq s.db)
    (hop : ∀ id input, op ≠ .updatePeriod id input) (hp : s.db.periods.find? k = some p) :
    ∃ status, s'.db.periods.find? k = some (p.withStatus status) := by
  obtain ⟨cs, h, -⟩ := commit_changes (I := fun db _ => ∃ status, db.periods.find? k = some (p.withStatus status))
    (fun _ hi hc => hc.period hop hi) hc hs ⟨p.status, hp⟩
  exact h

section closed

variable {endDate : Date} {id retained period : ℕ} {name : String} {v w : Env DB Err}

theorem covers_closingPeriod (h : (closingPeriod endDate).run v = .ok (period, w)) (hv : Fresh v.seq v.db) :
    ∃ p, w.db.periods.find? period = some p ∧ p.Covers endDate := by
  have hall := fun p hp => find?_closingPeriod (p := p) h hv hp
  rw [closingPeriod, Prog.run_read_bind_ok] at h
  cases hc : v.db.coveringPeriod endDate with
  | none =>
    rw [hc] at h
    obtain ⟨-, -, p, hopen, rfl⟩ := run_periodForDate h
    obtain ⟨hm, -, hcov⟩ := openPeriod_eq_some hopen
    exact ⟨p, Table.find?_key hm, hcov⟩
  | some q =>
    obtain ⟨hq, hcov⟩ := coveringPeriod_eq_some hc
    have hfind := hall q hq
    rw [hc, if_pos rfl] at hfind
    rw [hc] at h
    dsimp only at h
    split at h
    · obtain ⟨u, v₁, h₁, h⟩ := Prog.run_bind_ok.1 h
      obtain ⟨rfl, rfl⟩ := Prog.run_pure_ok.1 h
      exact ⟨_, hfind, hcov⟩
    · obtain ⟨rfl, rfl⟩ := Prog.run_pure_ok.1 h
      exact ⟨_, hfind, hcov⟩

/-- The period of an entry that the sweep writes covers the last day. -/
theorem covers_postSweep {toSweep : ℕ} {closing : Option ℕ}
    (h : (postSweep toSweep name endDate retained).run v = .ok (closing, w)) (hv : Fresh v.seq v.db) :
    ∀ e ∈ w.db.entries, e ∈ v.db.entries ∨ ∃ p, w.db.periods.find? e.periodId = some p ∧ p.Covers endDate := by
  intro e he
  unfold postSweep at h
  split at h
  · obtain ⟨je, v₁, h₁, h⟩ := Prog.run_bind_ok.1 h
    obtain ⟨-, rfl⟩ := Prog.run_pure_ok.1 h
    rw [postClosing_eq, Prog.run_read_bind_ok] at h₁
    obtain ⟨period, v₂, h₂, h₁⟩ := Prog.run_bind_ok.1 h₁
    obtain ⟨je', v₃, h₃, h₁⟩ := Prog.run_bind_ok.1 h₁
    obtain ⟨u₄, v₄, h₄, h₁⟩ := Prog.run_bind_ok.1 h₁
    obtain ⟨-, rfl⟩ := Prog.run_pure_ok.1 h₁
    obtain ⟨-, hdb₃⟩ := run_insertClosing h₃
    obtain ⟨n, rows, -, -, hdb₄, -⟩ := run_insertLines h₄
    have hentries : w.db.entries = v.db.entries.insert (closingEntry je' endDate period v.db.settings.baseCurrency name) := by
      rw [hdb₄, hdb₃, (run_closingPeriod h₂).1, Env.tick_db]
    have hperiods : w.db.periods = v₂.db.periods := by rw [hdb₄, hdb₃]
    rw [hentries] at he
    rcases Table.mem_of_mem_insert he with he | rfl
    · exact .inl he
    · rw [hperiods]
      exact .inr (covers_closingPeriod h₂ hv.tick)
  · obtain ⟨-, rfl⟩ := Prog.run_pure_ok.1 h
    exact .inl he

theorem covers_closeRest {fy : FiscalYear} {res : CloseResult} (h : (closeRest id retained fy).run v = .ok (res, w))
    (hv : Fresh v.seq v.db) :
    ∀ e ∈ w.db.entries, e ∈ v.db.entries ∨ ∃ p, w.db.periods.find? e.periodId = some p ∧ p.Covers fy.endDate := by
  rw [closeRest, Prog.run_read_bind_ok] at h
  obtain ⟨closing, v₁, h₁, h⟩ := Prog.run_bind_ok.1 h
  obtain ⟨u₂, v₂, h₂, h⟩ := Prog.run_bind_ok.1 h
  obtain ⟨u₃, v₃, h₃, h⟩ := Prog.run_bind_ok.1 h
  obtain ⟨next, v₄, h₄, h⟩ := Prog.run_bind_ok.1 h
  obtain ⟨-, rfl⟩ := Prog.run_pure_ok.1 h
  have hv₁ := (allFresh_postSweep _ _ _ _).run h₁ hv.tick
  have hv₃ := (allFresh_updateYear _ _ _).run h₃ ((allFresh_setPeriods _ _).run h₂ hv₁)
  have hyear : v₃.db.entries = v₂.db.entries ∧ v₃.db.periods = v₂.db.periods := by
    obtain ⟨o, ho, -, rfl⟩ := Prog.run_exec_ok.1 h₃
    cases ho
    exact ⟨rfl, rfl⟩
  have hentries : w.db.entries = v₁.db.entries := by rw [(run_insertNextYear h₄ hv₃).1, hyear.1, (run_setPeriods h₂).1]
  have hperiods : w.db.periods = v₂.db.periods := by rw [(run_insertNextYear h₄ hv₃).1, hyear.2]
  intro e he
  rw [hentries] at he
  rcases covers_postSweep h₁ hv.tick e he with he | ⟨p, hp, hcov⟩
  · exact .inl he
  · refine .inr ?_
    rw [hperiods, find?_setPeriods h₂, hp, Option.map_some]
    split
    · exact ⟨_, rfl, hcov⟩
    · exact ⟨_, rfl, hcov⟩

end closed

/-! ### The close -/

/-- The line without its own id and that of its entry. -/
def JournalLine.unnumbered (l : JournalLine) : JournalLine := { l with id := 0, journalEntryId := 0 }

/-- The lines of the closing entry that the year is linked to. -/
def DB.closingContent (db : DB) (id : ℕ) : Option (List JournalLine) :=
  (db.closingOf id).map fun je => (db.linesOf je).map JournalLine.unnumbered

/-- The lines that the sweep of the date writes. -/
def DB.sweepContent (db : DB) (date : Date) (retained : ℕ) (name : String) : Option (List JournalLine) :=
  if db.balances date = [] then none
  else some ((closingLines date retained name db).map fun l => l.row 0 0 (l.accountId.getD 0))

theorem mayClose_eq_some {db : DB} {id retained : ℕ} {fy : FiscalYear} : db.mayClose id retained = some fy ↔
    db.years.find? id = some fy ∧ fy.status = .opened ∧
      (∀ y ∈ db.years, y.id ≠ id → y.status = .opened → fy.startDate ≤ y.startDate) ∧
      ((db.accounts.find? retained).any fun a => a.isPostable && a.isActive && a.accountType = .equity) = true := by
  rw [DB.mayClose, Option.filter_eq_some_iff, Bool.and_eq_true, Bool.and_eq_true, decide_eq_true_eq, Bool.not_eq_true',
    List.any_eq_false]
  simp only [Bool.and_eq_true, decide_eq_true_eq, not_and, not_lt, and_assoc]
  rfl

theorem unnumbered_becomes {je : ℕ} {ls : List NewLine} {rows : List JournalLine}
    (h : List.Forall₂ (NewLine.Becomes je) ls rows) :
    rows.map JournalLine.unnumbered = ls.map fun l => l.row 0 0 (l.accountId.getD 0) := by
  induction h with
  | nil => rfl
  | cons hb _ ih =>
    obtain ⟨id, account, ha, rfl⟩ := hb
    rw [List.map_cons, List.map_cons, ih, ha]
    rfl

section commit

variable {id retained : ℕ} {gaps gaps' : ℕ → ℕ} {s s₁ s₂ : Store DB} {fy : FiscalYear}

/-- What the close of a year has done. -/
theorem commit_closed (hs : Reachable s) (hmay : s.db.mayClose id retained = some fy)
    (hc : (transaction (.closeFiscalYear id retained)).commit gaps s = .ok ((), s₁)) :
    ∃ closing mid, ClosedYear id closing mid s₁.db ∧
      ((s.db.balances fy.endDate = [] ∧ closing = none ∧ mid = s.db) ∨ ∃ je period rows p, closing = some je ∧
        Wrote s.seq s.db mid (closingEntry je fy.endDate period s.db.settings.baseCurrency fy.name) rows ∧
        List.Forall₂ (NewLine.Becomes je) (closingLines fy.endDate retained fy.name s.db) rows ∧
        s.db.balances fy.endDate ≠ [] ∧ s₁.db.periods.find? period = some p ∧ p.Covers fy.endDate) := by
  obtain ⟨w, hrun, -, rfl⟩ := Prog.commit_eq_ok.1 hc
  obtain ⟨res, hrun⟩ := run_void hrun
  obtain ⟨fy', u, hg, hdb, hseq, -, hrun⟩ := run_closeFiscalYear hrun
  change u.db = s.db at hdb
  obtain rfl : fy' = fy := Option.some.inj (hg.year.symm.trans (mayClose_eq_some.1 hmay).1)
  have hu : Fresh u.seq u.db := hdb ▸ hs.fresh.mono _ _ _ hseq
  obtain ⟨closing, mid, hclosed, hcase⟩ := run_closeRest hrun hu (hdb ▸ hg.year)
  have hcovers := covers_closeRest hrun hu
  rw [hdb] at hcase hcovers
  refine ⟨closing, mid, hclosed, ?_⟩
  rcases hcase with hempty | ⟨je, period, rows, hje, hw, hr, hbal, -⟩
  · exact .inl hempty
  · rw [closingLines_withEntry (show s.db = { s.db with periods := s.db.periods } from rfl) hs.journalOk hw.free] at hr
    have he : closingEntry je fy'.endDate period s.db.settings.baseCurrency fy'.name ∈ w.db.entries := by
      rw [hclosed.eq]
      exact hw.mem_entries.2 (.inr rfl)
    rcases hcovers _ he with hold | ⟨p, hp, hcov⟩
    · exact absurd rfl (hw.free _ hold)
    · exact .inr ⟨je, period, rows, p, hje, hw.mono hseq, hr, hbal, hp, hcov⟩

/-- The closing entry has the lines of the sweep. -/
theorem commit_closingContent (hs : Reachable s) (hmay : s.db.mayClose id retained = some fy)
    (hc : (transaction (.closeFiscalYear id retained)).commit gaps s = .ok ((), s₁)) :
    s₁.db.closingContent id = s.db.sweepContent fy.endDate retained fy.name := by
  obtain ⟨closing, mid, hclosed, hcase⟩ := commit_closed hs hmay hc
  have hlink : s₁.db.closingOf id = closing := (hclosed.link id).trans (if_pos rfl)
  rw [DB.closingContent, DB.sweepContent, hlink]
  rcases hcase with ⟨hbal, rfl, -⟩ | ⟨je, period, rows, p, rfl, hw, hr, hbal, -⟩
  · rw [if_pos hbal]
    rfl
  · have hlines : s₁.db.linesOf je = rows := by
      rw [hclosed.eq]
      exact hw.linesOf hs.journalOk
    rw [if_neg hbal, Option.map_some, hlines]
    exact congrArg some (unnumbered_becomes hr)

/-- The year can be closed again once it is reopened. -/
theorem mayClose_reopened (hs : Reachable s) (hmay : s.db.mayClose id retained = some fy) {closing : Option ℕ} {mid : DB}
    (hclosed : ClosedYear id closing mid s₁.db) (hyears : mid.years = s.db.years) (hacc : s₂.db.accounts = s.db.accounts)
    (hmid : s₂.db.years = s₁.db.years.update [id] (fun y => { y with status := .opened, closingEntryId := none })
      (fun _ => rfl)) :
    s₂.db.mayClose id retained = some { fy with status := .opened, closingEntryId := none } := by
  obtain ⟨hfy, hopen, hprior, haccount⟩ := mayClose_eq_some.1 hmay
  have hkey : ∀ y : FiscalYear, Keyed.key ({ y with status := .opened, closingEntryId := none } : FiscalYear) =
      Keyed.key y := fun _ => rfl
  obtain ⟨x, hx, hcases⟩ := hclosed.years
  obtain rfl : x = fy := Option.some.inj (hx.symm.trans (hyears ▸ hfy))
  have hid : x.id = id := Table.key_of_find? hfy
  obtain ⟨y, hy, hyc⟩ := hclosed.closed
  obtain rfl : y = { x with status := .closed, closingEntryId := closing } := by
    rcases hcases y (Table.mem_of_find? hy) with ⟨-, hne⟩ | rfl | ⟨ho, -⟩
    · exact absurd (Table.key_of_find? hy) hne
    · rfl
    · rw [hyc] at ho
      cases ho
  refine mayClose_eq_some.2 ⟨?_, rfl, fun z hz hne ho => ?_, by rw [hacc]; exact haccount⟩
  · have hself := Table.find?_update_self hkey hy
    rw [hmid]
    exact hself
  · rw [hmid] at hz
    rcases (Table.mem_update_singleton hkey hy).1 hz with rfl | ⟨-, hz⟩
    · exact absurd hid hne
    · rcases hcases z hz with ⟨hold, -⟩ | rfl | ⟨-, hstart⟩
      · exact hprior z (hyears ▸ hold) hne ho
      · exact absurd hid hne
      · have hdates := hs.yearsDated x (Table.mem_of_find? hfy)
        rw [hstart]
        exact hdates.trans x.endDate.lt_next.le

/-- What the reopening of a closed year has done. -/
theorem commit_reopened (hs : Reachable s₁) {closing : Option ℕ} (hclosing : s₁.db.closingOf id = closing)
    (hr : (transaction (.reopenFiscalYear id)).commit gaps' s₁ = .ok ((), s₂)) :
    ∃ mid, s₁.db.SameButCalendar mid ∧
      s₂.db.years = s₁.db.years.update [id] (fun y => { y with status := .opened, closingEntryId := none }) (fun _ => rfl) ∧
      ((closing = none ∧ s₂.db = mid) ∨ ∃ e r rows, closing = some e.id ∧ Reversed s₁.seq mid s₂.db e r rows) := by
  obtain ⟨w, hrun, -, rfl⟩ := Prog.commit_eq_ok.1 hr
  obtain ⟨rev, hrun⟩ := run_void hrun
  obtain ⟨fy, mid, hfy, hclosed, -, hmid, hyears, -, hcase⟩ := run_reopenFiscalYear hrun hs.fresh
  have hlink : s₁.db.closingOf id = fy.closingEntryId := by
    rw [DB.closingOf, hfy, Option.filter_some, if_pos (decide_eq_true hclosed)]
    rfl
  rw [← hclosing, hlink]
  refine ⟨mid, ?_, ?_, hcase⟩
  · rw [DB.SameButCalendar, hmid]
  · rcases hcase with ⟨-, hdb⟩ | ⟨e, r, rows, -, hrev⟩
    · rw [hdb]
      exact hyears
    · rw [hrev.wrote.eq]
      exact hyears

/-- The period of the closing entry is no closed period of a closed year once the year is reopened. -/
theorem unlocked_reopened (hs : Reachable s₁) (hs' : Reachable s₂) {date : Date} {e : JournalEntry} {p : AccountingPeriod}
    (hclosing : s₁.db.closingOf id = some e.id) (he : s₁.db.entries.find? e.id = some e)
    (hp : s₁.db.periods.find? e.periodId = some p) (hcov : p.Covers date)
    (hyears : s₂.db.years = s₁.db.years.update [id] (fun y => { y with status := .opened, closingEntryId := none })
      (fun _ => rfl))
    (hr : (transaction (.reopenFiscalYear id)).commit gaps' s₁ = .ok ((), s₂)) :
    (s₂.db.coveringPeriod date).isSome = true ∧ s₂.db.coveredLocked date = false := by
  obtain ⟨status, hp'⟩ := commit_period hr hs.fresh (fun _ _ h => by cases h) hp
  have hm' : p.withStatus status ∈ s₂.db.periods := Table.mem_of_find? hp'
  have hcov' : (p.withStatus status).Covers date := hcov
  have hdecided : Decided _ _ (transaction (.reopenFiscalYear id)) gaps' s₁ :=
    (wp_reopenFiscalYear (hs.steady gaps')).void.commit
  obtain ⟨hrefused, -, hraises⟩ := hdecided.commit_iff.1 ⟨_, hr⟩
  have hmay : s₁.db.mayReopen id = some e.id := by
    rw [mayReopen_eq]
    cases hre : s₁.db.reopening id with
    | none => exact absurd (.inl hre) hrefused
    | some fy =>
      obtain ⟨hfy, hok⟩ := Option.filter_eq_some_iff.1 hre
      rw [DB.closingOf, hfy, Option.filter_some, if_pos (Bool.and_eq_true_iff.1 hok).1] at hclosing
      exact hclosing
  constructor
  · rw [DB.coveringPeriod]
    refine argmin_isSome (a := p.withStatus status) (List.mem_filter.2 ⟨hm', ?_⟩)
    rw [Bool.and_eq_true, decide_eq_true_eq, decide_eq_true_eq]
    exact hcov'
  · rw [DB.coveredLocked, Option.any_eq_false]
    intro q hq
    obtain ⟨hqm, hqcov⟩ := coveringPeriod_eq_some hq
    obtain rfl := hs'.calendar.2 q hqm _ hm' date hqcov hcov'
    rw [Bool.eq_false_iff]
    intro hlocked
    obtain ⟨-, hl⟩ := Bool.and_eq_true_iff.1 hlocked
    obtain ⟨y, hy, hyl⟩ := List.any_eq_true.1 hl
    obtain ⟨hid, hyc⟩ := Bool.and_eq_true_iff.1 hyl
    have hkey : ∀ y : FiscalYear, Keyed.key ({ y with status := .opened, closingEntryId := none } : FiscalYear) =
        Keyed.key y := fun _ => rfl
    have hy₁ : y ∈ s₁.db.years := by
      rw [hyears] at hy
      rcases Table.mem_update_cases hkey hy with ⟨hy, -⟩ | ⟨x, -, -, rfl⟩
      · exact hy
      · cases of_decide_eq_true hyc
    have hpm := Table.mem_of_find? hp
    have hpc := hs.calendar.1 p hpm y hy₁ (of_decide_eq_true hid) (of_decide_eq_true hyc)
    -- so the reopening would have opened a period of a closed year
    refine Bool.eq_false_iff.1 hraises ((Option.any_eq_true ..).2 ⟨e.id, hmay, List.any_eq_true.2 ⟨p, hpm, ?_⟩⟩)
    rw [Bool.and_eq_true, decide_eq_true_eq]
    have hy₂ : y ∈ (s₁.db.openedYear id).years := by
      rw [hyears] at hy
      exact hy
    refine ⟨?_, List.any_eq_true.2 ⟨y, hy₂, hyl⟩⟩
    rw [DB.closedPeriodOf, he]
    exact Table.mem_hit.2 ⟨Table.key_of_find? hp, p, hp, decide_eq_true hpc⟩

theorem sweepContent_congr {db db' : DB} {date : Date} {name : String} (h : db'.balances date = db.balances date) :
    db'.sweepContent date retained name = db.sweepContent date retained name := by
  unfold DB.sweepContent closingLines
  rw [h]

/-- After the reopening of the year `id`, which was closed from `s` to `s₁`, everything but the journal and the calendar
is as in `s`, and so are the statements; another close writes the same lines. -/
structure ReopensTo (id retained : ℕ) (s s₁ s₂ : Store DB) : Prop where
  statements : SameStatements s.db s₂.db
  year : ∃ fy, s₂.db.years.find? id = some fy ∧ fy.status = .opened ∧ fy.closingEntryId = none
  others : s₂.db = { s.db with
    entries := s₂.db.entries, lines := s₂.db.lines, periods := s₂.db.periods, years := s₂.db.years }
  again : ∀ gaps, ∃ s₃, (transaction (.closeFiscalYear id retained)).commit gaps s₂ = .ok ((), s₃) ∧
    s₃.db.closingContent id = s₁.db.closingContent id

/-- Closing a year and reopening it restores the balances, the statements and the documents, and the year can be closed
again with the same lines. -/
theorem close_reopen_round_trip (hs : Reachable s)
    (hc : (transaction (.closeFiscalYear id retained)).commit gaps s = .ok ((), s₁))
    (hr : (transaction (.reopenFiscalYear id)).commit gaps' s₁ = .ok ((), s₂)) : ReopensTo id retained s s₁ s₂ := by
  have hs₁ : Reachable s₁ := hs.step ⟨_, _, hc⟩
  have hs₂ : Reachable s₂ := hs₁.step ⟨_, _, hr⟩
  obtain ⟨fy, hmay, hsound⟩ := (commit_closeFiscalYear_iff hs).1 ⟨s₁, hc⟩
  obtain ⟨closing, mid, hclosed, hcase⟩ := commit_closed hs hmay hc
  have hlink : s₁.db.closingOf id = closing := (hclosed.link id).trans (if_pos rfl)
  obtain ⟨mid', hmid', hyears, hcase'⟩ := commit_reopened hs₁ hlink hr
  have hcal : mid.SameButCalendar s₁.db := hclosed.eq
  have hall : SameStatements s.db s₂.db ∧ s₂.db = { s.db with
        entries := s₂.db.entries, lines := s₂.db.lines, periods := s₂.db.periods, years := s₂.db.years } ∧
      mid.years = s.db.years ∧ (s.db.balances fy.endDate ≠ [] →
        (s₂.db.coveringPeriod fy.endDate).isSome = true ∧ s₂.db.coveredLocked fy.endDate = false) := by
    rcases hcase with ⟨hbal, rfl, rfl⟩ | ⟨je, period, rows, p, rfl, hw, hb, hbal, hp, hcov⟩
    · obtain ⟨-, rfl⟩ | ⟨e, r, rows, he, -⟩ := hcase'
      · have hsame := hcal.trans hmid'
        refine ⟨.calendar hsame, ?_, rfl, fun hne => absurd hbal hne⟩
        rw [hsame]
      · cases he
    · obtain ⟨he, -⟩ | ⟨e, r, rows', he, hrev⟩ := hcase'
      · cases he
      · have hfind : s₁.db.entries.find? je =
            some (closingEntry je fy.endDate period s.db.settings.baseCurrency fy.name) := by
          rw [hclosed.eq]
          exact hw.find?
        have hold := hrev.old
        rw [hmid', ← Option.some.inj he] at hold
        obtain rfl := Option.some.inj (hold.symm.trans hfind)
        refine ⟨.of_reversed hw hs.journalOk rfl (hcal.trans hmid') hrev rfl rfl, ?_, by rw [hw.eq], fun _ => ?_⟩
        · rw [hrev.wrote.eq, hcal.trans hmid', hw.eq]
        · exact unlocked_reopened (e := closingEntry je fy.endDate period s.db.settings.baseCurrency fy.name) hs₁ hs₂
            hlink hfind hp hcov hyears hr
  obtain ⟨hstate, hothers, hmidyears, hperiod⟩ := hall
  have hacc : s₂.db.accounts = s.db.accounts := by rw [hothers]
  have hbalance : ∀ a ∈ s.db.accounts, s₂.db.balanceAt a fy.endDate = s.db.balanceAt a fy.endDate :=
    fun a ha => hstate.balance a ha _
  have hbalances := balances_congr hacc hbalance
  have hmay₂ := mayClose_reopened hs hmay hclosed hmidyears hacc hyears
  refine ⟨hstate, ⟨_, (mayClose_eq_some.1 hmay₂).1, rfl, rfl⟩, hothers, fun gaps => ?_⟩
  obtain ⟨s₃, hc₃⟩ : ∃ s₃, (transaction (.closeFiscalYear id retained)).commit gaps s₂ = .ok ((), s₃) :=
    (commit_closeFiscalYear_iff hs₂).2 ⟨_, hmay₂, fun hne => by
    have hne' : s.db.balances fy.endDate ≠ [] := hbalances ▸ hne
    obtain ⟨hcovered, hunlocked⟩ := hperiod hne'
    exact ⟨.inl hcovered, hunlocked, sweepable_congr hacc hbalance (hsound hne').2.2⟩⟩
  refine ⟨s₃, hc₃, ?_⟩
  rw [commit_closingContent hs₂ hmay₂ hc₃, commit_closingContent hs hmay hc]
  exact sweepContent_congr hbalances

end commit

/-- The year of the posted invoice: the sweep has two lines, before and after the reopening. -/
theorem close_reopen_round_trip_invoice : ∃ s s₁ s₂ : Store DB,
    (s₁.db.closingContent 13).map List.length = some 2 ∧ s₂.db.entries.rows.length = s.db.entries.rows.length + 2 ∧
      ReopensTo 13 7 s s₁ s₂ := by
  obtain ⟨s, hs, hp⟩ := exists_reachable (opening ++ [.postDoc .salesInvoice 15])
    (p := fun s => commits (.closeFiscalYear 13 7) (fun s₁ => (s₁.db.closingContent 13).map List.length = some 2 &&
      commits (.reopenFiscalYear 13) (fun s₂ => s₂.db.entries.rows.length = s.db.entries.rows.length + 2) s₁) s)
    (by decide +kernel)
  obtain ⟨s₁, hc, hp⟩ := of_commits hp
  rw [Bool.and_eq_true] at hp
  obtain ⟨s₂, hr, hlen⟩ := of_commits hp.2
  exact ⟨s, s₁, s₂, of_decide_eq_true hp.1, of_decide_eq_true hlen, close_reopen_round_trip hs hc hr⟩
