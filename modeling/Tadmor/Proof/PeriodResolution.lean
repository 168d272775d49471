import Tadmor.Proof.Calendar
import Tadmor.Proof.Answers

/-!
# Period resolution

The period of a date is the open one that covers it.  Without any, the month of the date is created in the earliest
open year that covers it, clipped to the year, unless it shares a date with a period or the year has a period of its
name.
-/

/-- The error of a date without a period. -/
def Err.IsNoPeriod (e : Err) : Prop := ∃ text, e = .posting .noOpenPeriod text

/-- The month of the date, clipped to the year, shares no date with a period. -/
def DB.MonthApart (db : DB) (fy : FiscalYear) (date : Date) : Prop :=
  ∀ q ∈ db.periods, ∀ x, max date.monthStart fy.startDate ≤ x → x ≤ min date.monthEnd fy.endDate → ¬q.Covers x

/-- The month also has a name that no period of the year has. -/
structure DB.MonthFits (db : DB) (fy : FiscalYear) (date : Date) : Prop where
  apart : db.MonthApart fy date
  name : ∀ q ∈ db.periods, q.fiscalYearId = fy.id → q.name ≠ date.yearMonth

/-- The open year that covers the date, the earliest to start. -/
structure DB.EarliestYear (db : DB) (date : Date) (fy : FiscalYear) : Prop where
  mem : fy ∈ db.years
  opened : fy.status = .opened
  covers : fy.Covers date
  earliest : ∀ y ∈ db.years, y.status = .opened → y.Covers date → fy.startDate ≤ y.startDate

/-- The month is created if it fits. -/
structure MonthCreated (date : Date) (fy : FiscalYear) (v : Env DB Err) : Prop where
  fits : v.db.MonthFits fy date → ∃ n w, (periodForDate date).run v = .ok (n, w) ∧ v.db.periods.Free n ∧
    w.db = { v.db with periods := v.db.periods.insert (monthPeriod n fy date) }
  unfit : ¬v.db.MonthFits fy date → ∃ e, (periodForDate date).run v = .error e ∧ e.IsNoPeriod

/-- How the period of a date is resolved. -/
structure PeriodResolved (date : Date) (v : Env DB Err) : Prop where
  opened : ∀ p ∈ v.db.periods, p.status = .opened → p.Covers date →
    ∃ w, (periodForDate date).run v = .ok (p.id, w) ∧ w.db = v.db
  shut : ∀ p ∈ v.db.periods, p.status = .closed → p.Covers date →
    ∃ e, (periodForDate date).run v = .error e ∧ e.IsNoPeriod
  created : (∀ p ∈ v.db.periods, ¬p.Covers date) → (∃ y ∈ v.db.years, y.status = .opened ∧ y.Covers date) →
    ∃ fy, v.db.EarliestYear date fy ∧ MonthCreated date fy v
  refused : (∀ p ∈ v.db.periods, ¬p.Covers date) → (∀ y ∈ v.db.years, y.status = .opened → ¬y.Covers date) →
    ∃ e, (periodForDate date).run v = .error e ∧ e.IsNoPeriod
  kept : ∀ n w, (periodForDate date).run v = .ok (n, w) → w.db = { v.db with periods := w.db.periods } ∧
    (∀ p ∈ v.db.periods, p ∈ w.db.periods) ∧ w.db.PeriodsDisjoint

/-! ### Years and months -/

section

variable {db : DB} {date : Date} {fy : FiscalYear}

theorem earliestYear_of_openYear (h : db.openYear date = some fy) : db.EarliestYear date fy := by
  obtain ⟨hm, hstart, hend, hopen⟩ := openYear_eq_some h
  refine ⟨hm, hopen, ⟨hstart, hend⟩, fun y hy ho hc => ?_⟩
  have hmem : y ∈ db.years.rows.filter fun fy => fy.startDate ≤ date && date ≤ fy.endDate && fy.status = .opened := by
    rw [List.mem_filter, Bool.and_eq_true, Bool.and_eq_true, decide_eq_true_eq, decide_eq_true_eq, decide_eq_true_eq]
    exact ⟨hy, hc, ho⟩
  exact List.le_of_mem_argmin hmem h

theorem openYear_eq_none : db.openYear date = none ↔ ∀ y ∈ db.years, y.status = .opened → ¬y.Covers date := by
  rw [DB.openYear, List.argmin_eq_none, List.filter_eq_nil_iff]
  refine forall₂_congr fun y _ => ?_
  rw [Bool.and_eq_true, Bool.and_eq_true, decide_eq_true_eq, decide_eq_true_eq, decide_eq_true_eq, FiscalYear.Covers]
  tauto

/-- The test of the conflict constraints. -/
theorem monthFree_iff (hne : ∀ p ∈ db.periods, p.startDate ≤ p.endDate) (hc : fy.Covers date) :
    db.monthFree fy date = true ↔ db.MonthFits fy date := by
  have hmonth : max date.monthStart fy.startDate ≤ min date.monthEnd fy.endDate :=
    (max_le date.monthStart_le hc.1).trans (le_min date.le_monthEnd hc.2)
  rw [DB.monthFree, List.all_eq_true]
  simp only [Bool.and_eq_true, Bool.not_eq_true', Bool.and_eq_false_iff, decide_eq_false_iff_not]
  constructor
  · intro h
    refine ⟨fun q hq x hx hx' hcov => ?_, fun q hq hid hname => ?_⟩
    · rcases (h q hq).2 with ho | ho
      · exact ho (hcov.1.trans hx')
      · exact ho (hx.trans hcov.2)
    · rcases (h q hq).1 with ho | ho
      · exact ho hid
      · exact ho hname
  · intro h q hq
    constructor
    · by_cases hid : q.fiscalYearId = fy.id
      · exact .inr (h.name q hq hid)
      · exact .inl hid
    · by_contra hno
      rw [not_or, not_not, not_not] at hno
      -- the later of the two first days is in both
      refine h.apart q hq (max q.startDate (max date.monthStart fy.startDate)) (le_max_right ..) ?_ ⟨le_max_left .., ?_⟩
      · exact max_le hno.1 hmonth
      · exact max_le (hne q hq) hno.2

theorem openPeriod_of_disjoint (hd : db.PeriodsDisjoint) {p : AccountingPeriod} (hp : p ∈ db.periods)
    (ho : p.status = .opened) (hc : p.Covers date) : db.openPeriod date = some p := by
  cases h : db.openPeriod date with
  | none =>
    rw [DB.openPeriod, List.argmin_eq_none, List.filter_eq_nil_iff] at h
    refine absurd ?_ (h p hp)
    rw [Bool.and_eq_true, Bool.and_eq_true, decide_eq_true_eq, decide_eq_true_eq, decide_eq_true_eq]
    exact ⟨hc, ho⟩
  | some q =>
    obtain ⟨hq, -, hqc⟩ := openPeriod_eq_some h
    rw [hd q hq p hp date hqc hc]

theorem covered_eq_false : db.covered date = false ↔ ∀ p ∈ db.periods, ¬p.Covers date := by
  rw [DB.covered, List.any_eq_false]
  refine forall₂_congr fun p _ => ?_
  rw [Bool.and_eq_true, decide_eq_true_eq, decide_eq_true_eq]
  rfl

theorem openPeriod_eq_none_of_not_covered (h : ∀ p ∈ db.periods, ¬p.Covers date) : db.openPeriod date = none := by
  rw [Option.eq_none_iff_forall_ne_some]
  intro p hp
  obtain ⟨hm, -, hc⟩ := openPeriod_eq_some hp
  exact h p hm hc

end

/-! ### The resolution -/

section

variable {date : Date} {v : Env DB Err}

/-- An open period that covers the date is its period. -/
theorem run_periodForDate_opened {p : AccountingPeriod} (hopen : v.db.openPeriod date = some p) :
    ∃ w, (periodForDate date).run v = .ok (p.id, w) ∧ w.db = v.db := by
  have hwp : (periodForDate date).wp (fun _ => False) (fun n w => n = p.id ∧ w.db = v.db) v := by
    unfold periodForDate
    rw [Prog.wp_read_bind, hopen]
    exact ⟨rfl, rfl⟩
  obtain ⟨herr, hok⟩ := Prog.wp_iff_run.1 hwp
  cases hr : (periodForDate date).run v with
  | error e => exact (herr e hr).elim
  | ok x =>
    obtain ⟨n, w⟩ := x
    obtain ⟨hn, hw⟩ := hok n w hr
    rw [hn]
    exact ⟨w, rfl, hw⟩

/-- A date that may not be posted to has no period. -/
theorem run_periodForDate_error (hb : v.db.periods.Below v.seq) (h : v.db.canPost date = false) :
    ∃ e, (periodForDate date).run v = .error e ∧ e.IsNoPeriod := by
  cases hr : (periodForDate date).run v with
  | error e => exact ⟨e, rfl, Prog.Throws.run_error (throws_periodForDate (fun m => ⟨m, rfl⟩) date) hr⟩
  | ok x =>
    obtain ⟨n, w⟩ := x
    obtain ⟨hp, -, p, hopen, -⟩ := run_periodForDate hr
    rw [canPost_of_periodFor hb hp hopen] at h
    cases h

/-- The period of a date that no period covers, when one is created. -/
theorem run_periodForDate_created (hb : v.db.periods.Below v.seq) (hno : ∀ p ∈ v.db.periods, ¬p.Covers date)
    {fy : FiscalYear} (hfy : v.db.openYear date = some fy) (hfree : v.db.monthFree fy date = true) :
    ∃ n w, (periodForDate date).run v = .ok (n, w) ∧ v.db.periods.Free n ∧
      w.db = { v.db with periods := v.db.periods.insert (monthPeriod n fy date) } := by
  have hcan : v.db.canPost date = true := by
    rw [DB.canPost, covered_eq_false.2 hno, hfy, Option.any_some, hfree, Bool.not_false, Bool.and_self, Bool.or_true]
  cases hr : (periodForDate date).run v with
  | error e => exact ((Prog.wp_iff_run.1 (wp_periodForDate_of_canPost hb hcan)).1 e hr).elim
  | ok x =>
    obtain ⟨n, w⟩ := x
    obtain ⟨hp, -, p, hopen, hid⟩ := run_periodForDate hr
    obtain ⟨hm, -, hc⟩ := openPeriod_eq_some hopen
    rcases hp with hdb | ⟨k, fy', hk, -, hfy', -, -, hdb⟩
    · rw [hdb] at hm
      exact absurd hc (hno p hm)
    · obtain rfl := Option.some.inj (hfy.symm.trans hfy')
      rw [hdb] at hm
      have hpm : p = monthPeriod k fy date := by
        rcases Table.mem_of_mem_insert hm with hm | rfl
        · exact absurd hc (hno p hm)
        · rfl
      obtain rfl : k = n := by rw [← hid, hpm]; rfl
      exact ⟨k, w, rfl, hb.free hk, hdb⟩

/-- In every calendar of disjoint periods the period of a date is resolved as specified. -/
theorem periodForDate_resolved (hd : v.db.PeriodsDisjoint) (hne : ∀ p ∈ v.db.periods, p.startDate ≤ p.endDate)
    (hb : v.db.periods.Below v.seq) : PeriodResolved date v := by
  refine ⟨fun p hp ho hc => ?_, fun p hp hs hc => ?_, fun hno hyear => ?_, fun hno hyear => ?_, fun n w hr => ?_⟩
  · have hopen := openPeriod_of_disjoint hd hp ho hc
    exact run_periodForDate_opened hopen
  · refine run_periodForDate_error hb ?_
    have hcov : v.db.covered date = true := by
      rw [← Bool.not_eq_false, covered_eq_false]
      exact fun hno => hno p hp hc
    have hopen : v.db.openPeriod date = none := by
      rw [Option.eq_none_iff_forall_ne_some]
      intro q hq
      obtain ⟨hqm, hqo, hqc⟩ := openPeriod_eq_some hq
      rw [hd q hqm p hp date hqc hc, hs] at hqo
      cases hqo
    rw [DB.canPost, hopen, hcov]
    rfl
  · cases hfy : v.db.openYear date with
    | none =>
      obtain ⟨y, hy, ho, hc⟩ := hyear
      exact absurd hc (openYear_eq_none.1 hfy y hy ho)
    | some fy =>
      have hearliest := earliestYear_of_openYear hfy
      have hfree := monthFree_iff hne hearliest.covers
      refine ⟨fy, hearliest, fun h => run_periodForDate_created hb hno hfy (hfree.2 h), fun h => ?_⟩
      refine run_periodForDate_error hb ?_
      rw [← hfree, Bool.not_eq_true] at h
      rw [DB.canPost, openPeriod_eq_none_of_not_covered hno, hfy, Option.any_some, h, Bool.and_false]
      rfl
  · refine run_periodForDate_error hb ?_
    rw [DB.canPost, openPeriod_eq_none_of_not_covered hno, openYear_eq_none.2 hyear, Option.any_none, Bool.and_false]
    rfl
  · obtain ⟨hp, -⟩ := run_periodForDate hr
    refine ⟨hp.eq, fun p hm => ?_, ?_⟩
    · rcases hp with hdb | ⟨k, fy, -, -, -, -, -, hdb⟩
      · rw [hdb]
        exact hm
      · rw [hdb]
        exact Table.mem_insert_of_mem hm
    · rcases hp with hdb | ⟨k, fy, hk, -, -, -, hover, hdb⟩
      · rw [hdb]
        exact hd
      · rw [hdb]
        exact hd.insert hover (hb.free hk)

/-- A calendar with a period of two weeks, where the rest of March is not created. -/
theorem periodForDate_resolved_twoWeeks : ∃ s : Store DB, Reachable s ∧ s.db.periods ≠ .empty ∧
    PeriodResolved march5 ⟨fun _ => 0, s.seq, s.db, []⟩ := by
  obtain ⟨s, hs, hp⟩ := exists_reachable
    [.createFiscalYear ⟨"FY2026", yearStart, yearEnd⟩, .createPeriod ⟨13, "Early", yearStart, day 1 14, .opened⟩]
    (p := fun s => s.db.periods.rows.length = 1 && s.db.periods.rows.all fun p => p.startDate ≤ p.endDate)
    (by decide +kernel)
  simp only [Bool.and_eq_true, decide_eq_true_eq, List.all_eq_true] at hp
  obtain ⟨hlen, hne⟩ := hp
  refine ⟨s, hs, fun h => ?_, periodForDate_resolved hs.calendar.2 hne hs.fresh.periods⟩
  rw [h] at hlen
  cases hlen

/-- April is the period "2026-03", so March is not created. -/
theorem periodForDate_name_taken : ¬∀ s : Store DB, Reachable s → ∀ date fy, (∀ p ∈ s.db.periods, ¬p.Covers date) →
    s.db.EarliestYear date fy → s.db.MonthApart fy date →
    ∃ n w, (periodForDate date).run ⟨fun _ => 0, s.seq, s.db, []⟩ = .ok (n, w) := by
  intro hall
  obtain ⟨s, hs, hp⟩ := exists_reachable
    [.createFiscalYear ⟨"FY2026", yearStart, yearEnd⟩, .createPeriod ⟨13, "2026-03", day 4 1, day 4 30, .opened⟩]
    (p := fun s => s.db.years.rows = [⟨13, "FY2026", yearStart, yearEnd, .opened, none⟩] &&
      s.db.periods.rows = [⟨14, 13, "2026-03", day 4 1, day 4 30, .opened⟩]) (by decide +kernel)
  simp only [Bool.and_eq_true, decide_eq_true_eq] at hp
  obtain ⟨hyears, hperiods⟩ := hp
  have hyear : ∀ y ∈ s.db.years, y = ⟨13, "FY2026", yearStart, yearEnd, .opened, none⟩ := by
    intro y hy
    exact List.mem_singleton.1 (hyears ▸ hy)
  have hperiod : ∀ p ∈ s.db.periods, p = ⟨14, 13, "2026-03", day 4 1, day 4 30, .opened⟩ := by
    intro p hp
    exact List.mem_singleton.1 (hperiods ▸ hp)
  have hno : ∀ p ∈ s.db.periods, ¬p.Covers march5 := by
    rintro p hp ⟨hstart, -⟩
    rw [hperiod p hp] at hstart
    exact absurd hstart (by decide)
  have hm : (⟨13, "FY2026", yearStart, yearEnd, .opened, none⟩ : FiscalYear) ∈ s.db.years := by
    show _ ∈ s.db.years.rows
    rw [hyears]
    exact List.mem_singleton_self _
  obtain ⟨n, w, hr⟩ := hall s hs march5 _ hno
    ⟨hm, rfl, ⟨by decide, by decide⟩, fun y hy _ _ => by rw [hyear y hy]⟩ fun q hq x _ hx hc => by
      rw [hperiod q hq] at hc
      exact absurd (hc.1.trans (hx.trans (min_le_left ..))) (by decide)
  obtain ⟨e, he, -⟩ : ∃ e, (periodForDate march5).run ⟨fun _ => 0, s.seq, s.db, []⟩ = .error e ∧ e.IsNoPeriod :=
    run_periodForDate_error hs.fresh.periods (by
    rw [DB.canPost, openPeriod_eq_none_of_not_covered hno, covered_eq_false.2 hno, DB.openYear, hyears]
    show DB.monthFree s.db ⟨13, "FY2026", yearStart, yearEnd, .opened, none⟩ march5 = false
    rw [DB.monthFree, hperiods]
    decide)
  rw [hr] at he
  cases he

end
