import Tadmor.Proof.Changes
import Tadmor.Proof.Journal

/-!
# The calendar

No two periods share a date, and the periods of a closed year are closed.  Both hold after every statement, except
that a close marks its year closed in one statement and its periods in another.
-/

/-- No two periods share a date. -/
def DB.PeriodsDisjoint (db : DB) : Prop :=
  ∀ p ∈ db.periods, ∀ q ∈ db.periods, ∀ date, p.Covers date → q.Covers date → p = q

/-- Every period of a closed year is closed, but for the year that `op` is closing. -/
def DB.PeriodsShut (op : Op) (db : DB) : Prop :=
  ∀ p ∈ db.periods, ∀ y ∈ db.years, y.id = p.fiscalYearId → y.status = .closed →
    p.status = .closed ∨ ∃ retained, op = .closeFiscalYear y.id retained

/-! ### Disjoint periods -/

theorem DB.PeriodsDisjoint.insert {db : DB} {p : AccountingPeriod} (h : db.PeriodsDisjoint)
    (hover : db.periodOverlaps p = false) (hfree : db.periods.Free p.id) :
    { db with periods := db.periods.insert p }.PeriodsDisjoint := by
  intro a ha b hb date hca hcb
  rcases Table.mem_of_mem_insert ha with ha' | rfl
  · rcases Table.mem_of_mem_insert hb with hb' | rfl
    · exact h a ha' b hb' date hca hcb
    · exact absurd hca (not_covers_of_not_overlaps hover ha' (hfree a ha') hcb)
  · rcases Table.mem_of_mem_insert hb with hb' | rfl
    · exact absurd hcb (not_covers_of_not_overlaps hover hb' (hfree b hb') hca)
    · rfl

/-- An update that keeps the dates keeps the periods disjoint. -/
theorem DB.PeriodsDisjoint.update {db : DB} {ks : List ℕ} {f : AccountingPeriod → AccountingPeriod}
    (h : db.PeriodsDisjoint) (hf : ∀ p, (f p).id = p.id)
    (hd : ∀ p, (f p).startDate = p.startDate ∧ (f p).endDate = p.endDate) :
    { db with periods := db.periods.update ks f hf }.PeriodsDisjoint := by
  have hcov : ∀ {b : AccountingPeriod} {date : Date}, b ∈ db.periods.update ks f hf → b.Covers date →
      ∃ a ∈ db.periods, a.Covers date ∧ a.id = b.id := by
    intro b date hb hc
    rcases Table.mem_update_cases hf hb with ⟨hb, -⟩ | ⟨a, ha, -, rfl⟩
    · exact ⟨b, hb, hc, rfl⟩
    · refine ⟨a, ha, ?_, (hf a).symm⟩
      rw [AccountingPeriod.Covers, (hd a).1, (hd a).2] at hc
      exact hc
  intro a ha b hb date hca hcb
  obtain ⟨a', ha', hca', ea⟩ := hcov ha hca
  obtain ⟨b', hb', hcb', eb⟩ := hcov hb hcb
  have e : a' = b' := h a' ha' b' hb' date hca' hcb'
  exact Table.key_inj ha hb (ea.symm.trans ((congrArg (·.id) e).trans eb))

/-- So does an edit of one period that overlaps no other. -/
theorem DB.PeriodsDisjoint.edit {db : DB} {id : ℕ} {input : PeriodInput} (h : db.PeriodsDisjoint)
    (hover : db.periodOverlaps (input.row id input.status) = false) :
    { db with
      periods := db.periods.update (db.periods.hit id fun _ => true) (fun p => input.row p.id input.status)
        fun _ => rfl }.PeriodsDisjoint := by
  have hkey : ∀ p : AccountingPeriod, Keyed.key (input.row p.id input.status) = Keyed.key p := fun _ => rfl
  have hcase : ∀ b ∈ db.periods.update (db.periods.hit id fun _ => true) (fun p => input.row p.id input.status) hkey,
      (b ∈ db.periods ∧ b.id ≠ id) ∨ b = input.row id input.status := by
    intro b hb
    rcases Table.mem_update_cases hkey hb with ⟨hm, hk⟩ | ⟨a, ha, hk, rfl⟩
    · refine .inl ⟨hm, fun e => hk ?_⟩
      subst e
      exact Table.mem_hit.2 ⟨rfl, b, Table.find?_key hm, rfl⟩
    · obtain ⟨e, -⟩ := Table.mem_hit.1 hk
      exact .inr (by rw [show a.id = id from e])
  intro a ha b hb date hca hcb
  rcases hcase a ha with ⟨ha', hne⟩ | rfl
  · rcases hcase b hb with ⟨hb', -⟩ | rfl
    · exact h a ha' b hb' date hca hcb
    · exact absurd hca (not_covers_of_not_overlaps hover ha' hne hcb)
  · rcases hcase b hb with ⟨hb', hne⟩ | rfl
    · exact absurd hcb (not_covers_of_not_overlaps hover hb' hne hca)
    · rfl

/-! ### Closed years -/

theorem periodCheck_eq_ok {db : DB} {p : AccountingPeriod} (h : db.periodCheck p = .ok ()) :
    (p.status = .opened → ∀ y ∈ db.years, y.id = p.fiscalYearId → y.status = .opened) ∧
      p.startDate ≤ p.endDate ∧ db.periodOverlaps p = false := by
  simp only [DB.periodCheck, Except.bind_eq_ok_iff, ensure_eq_ok, exists_const, Bool.or_eq_true, decide_eq_true_eq,
    Bool.not_eq_true', List.any_eq_false, Bool.and_eq_true, not_and] at h
  obtain ⟨hy, hd, -, ho, -⟩ := h
  refine ⟨fun hs y hm hid => ?_, hd, ho⟩
  rcases hy with hy | hy
  · rw [hs] at hy
    cases hy
  · cases he : y.status with
    | opened => rfl
    | closed => exact absurd he (hy y hm hid)

/-- Changes of the periods that open none in a closed year. -/
theorem DB.PeriodsShut.of_periods {op : Op} {db db' : DB} (h : db.PeriodsShut op) (hy : db'.years = db.years)
    (hp : ∀ p ∈ db'.periods, p.status = .opened → (∃ q ∈ db.periods, q.fiscalYearId = p.fiscalYearId ∧ q.status = .opened) ∨
      ∀ y ∈ db.years, y.id = p.fiscalYearId → y.status = .opened) : db'.PeriodsShut op := by
  intro p hpm y hym hid hc
  rw [hy] at hym
  cases hs : p.status with
  | closed => exact .inl rfl
  | opened =>
    rcases hp p hpm hs with ⟨q, hq, hfy, hqs⟩ | hopen
    · rcases h q hq y hym (hid.trans hfy.symm) hc with hqc | hop
      · rw [hqs] at hqc
        cases hqc
      · exact .inr hop
    · rw [hopen y hym hid] at hc
      cases hc

/-- Changes of the years that close none but the one `op` is closing. -/
theorem DB.PeriodsShut.of_years {op : Op} {db db' : DB} (h : db.PeriodsShut op) (hp : db'.periods = db.periods)
    (hy : ∀ y ∈ db'.years, y.status = .closed →
      (∃ x ∈ db.years, x.id = y.id ∧ x.status = .closed) ∨ ∃ retained, op = .closeFiscalYear y.id retained) :
    db'.PeriodsShut op := by
  intro p hpm y hym hid hc
  rw [hp] at hpm
  rcases hy y hym hc with ⟨x, hx, hxid, hxc⟩ | hop
  · rw [← hxid]
    exact h p hpm x hx (hxid.trans hid) hxc
  · exact .inr hop

theorem DB.PeriodsShut.new_year {op : Op} {db : DB} {y : FiscalYear} (h : db.PeriodsShut op) (hs : y.status = .opened) :
    { db with years := db.years.insert y }.PeriodsShut op := by
  refine h.of_years rfl fun z hz hc => ?_
  rcases Table.mem_of_mem_insert hz with hz | rfl
  · exact .inl ⟨z, hz, rfl, hc⟩
  · rw [hs] at hc
    cases hc

theorem Change.periodsShut {n : ℕ} {db db' : DB} {op : Op} {cs : List (DB → Except Err Unit)}
    (h : Change n db op db' cs) (hi : db.PeriodsShut op) : db'.PeriodsShut op := by
  cases h with
  | elsewhere h => exact hi.of_periods h.years fun p hp hs => .inl ⟨p, h.periods ▸ hp, rfl, hs⟩
  | month date hfy hover =>
    refine hi.of_periods rfl fun p hp hs => ?_
    rcases Table.mem_of_mem_insert hp with hp | rfl
    · exact .inl ⟨p, hp, rfl, hs⟩
    · obtain ⟨hm, -, -, ho⟩ := openYear_eq_some hfy
      refine .inr fun y hy hid => ?_
      rw [Table.key_inj hy hm hid]
      exact ho
  | openPeriods ks hu =>
    refine hi.of_periods rfl fun p hp hs => ?_
    rcases Table.mem_update_cases (by intro; rfl) hp with ⟨hp, -⟩ | ⟨q, hq, hk, rfl⟩
    · exact .inl ⟨p, hp, rfl, hs⟩
    · exact .inr fun y hy hid => hu q hq hk y hy hid
  | closePeriods id retained =>
    refine hi.of_periods rfl fun p hp hs => ?_
    rcases Table.mem_update_cases (by intro; rfl) hp with ⟨hp, -⟩ | ⟨q, hq, hk, rfl⟩
    · exact .inl ⟨p, hp, rfl, hs⟩
    · cases hs
  | closeYear id retained closing =>
    refine hi.of_years rfl fun y hy hc => ?_
    rcases Table.mem_update_cases (by intro; rfl) hy with ⟨hy, -⟩ | ⟨x, hx, hk, rfl⟩
    · exact .inl ⟨y, hy, rfl, hc⟩
    · obtain ⟨e, -⟩ := Table.mem_hit.1 hk
      exact .inr ⟨retained, by rw [show x.id = id from e]⟩
  | reopenYear id =>
    refine hi.of_years rfl fun y hy hc => ?_
    rcases Table.mem_update_cases (by intro; rfl) hy with ⟨hy, -⟩ | ⟨x, hx, hk, rfl⟩
    · exact .inl ⟨y, hy, rfl, hc⟩
    · cases hc
  | newYear input h => exact hi.new_year rfl
  | nextYear id retained endDate hd => exact hi.new_year rfl
  | editYear id input hd =>
    refine hi.of_years rfl fun y hy hc => ?_
    rcases Table.mem_update_cases (by intro; rfl) hy with ⟨hy, -⟩ | ⟨x, hx, hk, rfl⟩
    · exact .inl ⟨y, hy, rfl, hc⟩
    · exact .inl ⟨x, hx, rfl, hc⟩
  | newPeriod input h =>
    refine hi.of_periods rfl fun p hp hs => ?_
    rcases Table.mem_of_mem_insert hp with hp | rfl
    · exact .inl ⟨p, hp, rfl, hs⟩
    · exact .inr ((periodCheck_eq_ok h).1 hs)
  | editPeriod id input h =>
    refine hi.of_periods rfl fun p hp hs => ?_
    have hkey : ∀ p : AccountingPeriod, Keyed.key (input.row p.id input.status) = Keyed.key p := fun _ => rfl
    rcases Table.mem_update_cases hkey hp with ⟨hp, -⟩ | ⟨q, hq, hk, rfl⟩
    · exact .inl ⟨p, hp, rfl, hs⟩
    · exact .inr ((periodCheck_eq_ok h).1 hs)
  | _ => exact hi

theorem Change.periodsDisjoint {n : ℕ} {db db' : DB} {op : Op} {cs : List (DB → Except Err Unit)}
    (h : Change n db op db' cs) (hf : Fresh n db) (hi : db.PeriodsDisjoint) : db'.PeriodsDisjoint := by
  cases h with
  | elsewhere h =>
    unfold DB.PeriodsDisjoint
    rw [h.periods]
    exact hi
  | month date hfy hover => exact hi.insert hover (hf.periods.free le_rfl)
  | openPeriods ks hu => exact hi.update _ fun _ => ⟨rfl, rfl⟩
  | closePeriods id retained => exact hi.update _ fun _ => ⟨rfl, rfl⟩
  | newPeriod input h => exact hi.insert (periodCheck_eq_ok h).2.2 (hf.periods.free le_rfl)
  | editPeriod id input h => exact hi.edit (periodCheck_eq_ok h).2.2
  | _ => exact hi

/-! ### Runs -/

/-- Every period of a closed year is closed. -/
def DB.PeriodsLocked (db : DB) : Prop :=
  ∀ p ∈ db.periods, ∀ y ∈ db.years, y.id = p.fiscalYearId → y.status = .closed → p.status = .closed

theorem commit_periodsShut {op : Op} {gaps : ℕ → ℕ} {s s' : Store DB}
    (h : (transaction op).commit gaps s = .ok ((), s')) (hs : Fresh s.seq s.db) (hi : s.db.PeriodsLocked)
    (hd : s.db.PeriodsDisjoint) : s'.db.PeriodsShut op ∧ s'.db.PeriodsDisjoint := by
  obtain ⟨cs, hboth, -⟩ := commit_changes (I := fun db _ => db.PeriodsShut op ∧ db.PeriodsDisjoint)
    (fun hf hi hc => ⟨hc.periodsShut hi.1, hc.periodsDisjoint hf hi.2⟩) h hs
    ⟨fun p hp y hy hid hc => .inl (hi p hp y hy hid hc), hd⟩
  exact hboth

/-- A close leaves no open period in the year it closes. -/
theorem commit_close_periods {id retained : ℕ} {gaps : ℕ → ℕ} {s s' : Store DB}
    (h : (transaction (.closeFiscalYear id retained)).commit gaps s = .ok ((), s')) (hs : Fresh s.seq s.db) :
    ∀ p ∈ s'.db.periods, p.fiscalYearId = id → p.status = .closed := by
  obtain ⟨v, hrun, -, rfl⟩ := Prog.commit_eq_ok.1 h
  obtain ⟨res, hrun⟩ := run_void hrun
  obtain ⟨fy, u, hg, hdb, hseq, -, hrest⟩ := run_closeFiscalYear hrun
  have hu : Fresh u.seq u.db := hdb ▸ hs.mono _ _ _ hseq
  obtain ⟨closing, mid, hclosed, -⟩ := run_closeRest hrest hu (hdb ▸ hg.year)
  exact hclosed.periods

theorem commit_periodsLocked {op : Op} {gaps : ℕ → ℕ} {s s' : Store DB}
    (h : (transaction op).commit gaps s = .ok ((), s')) (hs : Fresh s.seq s.db) (hi : s.db.PeriodsLocked)
    (hd : s.db.PeriodsDisjoint) : s'.db.PeriodsLocked ∧ s'.db.PeriodsDisjoint := by
  obtain ⟨hshut, hdis⟩ := commit_periodsShut h hs hi hd
  refine ⟨fun p hp y hy hid hc => ?_, hdis⟩
  rcases hshut p hp y hy hid hc with hpc | ⟨retained, rfl⟩
  · exact hpc
  · exact commit_close_periods h hs p hp hid.symm

theorem Reachable.calendar {s : Store DB} (h : Reachable s) : s.db.PeriodsLocked ∧ s.db.PeriodsDisjoint := by
  refine h.invariant (I := fun s => s.db.PeriodsLocked ∧ s.db.PeriodsDisjoint) ⟨?_, ?_⟩ fun s s' hr hi hs => ?_
  · exact fun p hp => absurd hp (Table.not_mem_empty p)
  · exact fun p hp => absurd hp (Table.not_mem_empty p)
  · obtain ⟨op, gaps, hc⟩ := hs
    exact commit_periodsLocked hc hr.fresh hi.1 hi.2

/-- In every reachable state the periods of a closed fiscal year are closed, and no two periods share a date. -/
theorem closed_year_periods_closed {s : Store DB} (h : Reachable s) :
    (∀ p ∈ s.db.periods, ∀ y ∈ s.db.years, y.id = p.fiscalYearId → y.status = .closed → p.status = .closed) ∧
      ∀ p ∈ s.db.periods, ∀ q ∈ s.db.periods, ∀ date, p.Covers date → q.Covers date → p = q :=
  h.calendar

/-- The invoice of March and the close of its year: the months of March and December, both closed. -/
theorem closed_year_periods_closed_2026 : ∃ s : Store DB, Reachable s ∧
    s.db.years.rows.map (·.status) = [.closed, .opened] ∧
    s.db.periods.rows.map (fun p => (p.name, p.fiscalYearId)) = [("2026-03", 13), ("2026-12", 13)] ∧
    ∀ p ∈ s.db.periods, ∀ y ∈ s.db.years, y.id = p.fiscalYearId → y.status = .closed → p.status = .closed := by
  obtain ⟨s, hs, hp⟩ := exists_reachable (opening ++ [.postDoc .salesInvoice 15, .closeFiscalYear 13 7])
    (p := fun s => s.db.years.rows.map (·.status) = [.closed, .opened] ∧
      s.db.periods.rows.map (fun p => (p.name, p.fiscalYearId)) = [("2026-03", 13), ("2026-12", 13)])
    (by decide +kernel)
  obtain ⟨hyears, hperiods⟩ := of_decide_eq_true hp
  exact ⟨s, hs, hyears, hperiods, (closed_year_periods_closed hs).1⟩
