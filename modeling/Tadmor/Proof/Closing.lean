import Tadmor.Proof.Settling

/-!
# What the year end does

Closing a fiscal year writes at most one entry, the closing entry, and links the year to it; reopening it reverses
that entry and removes the link.
-/

/-! ### Statements -/

theorem run_setPeriods {status : BookStatus} {select : DB → List ℕ} {v w : Env DB Err} {u : Unit}
    (h : (setPeriods status select).run v = .ok (u, w)) :
    w.db = { v.db with periods := v.db.periods.update (select v.db) (fun p => { p with status }) fun _ => rfl } ∧
      w.checks = v.checks := by
  obtain ⟨o, ho, -, rfl⟩ := Prog.run_exec_ok.1 h
  simp only [Except.bind_eq_ok_iff, ensure_eq_ok, exists_const, Except.ok.injEq] at ho
  obtain ⟨-, rfl⟩ := ho
  exact ⟨rfl, List.append_nil _⟩

/-- A period that is opened belongs to no closed year. -/
theorem run_setPeriods_opened {select : DB → List ℕ} {v w : Env DB Err} {u : Unit}
    (h : (setPeriods .opened select).run v = .ok (u, w)) {p : AccountingPeriod} (hp : p ∈ v.db.periods)
    (hk : p.id ∈ select v.db) {y : FiscalYear} (hy : y ∈ v.db.years) (hid : y.id = p.fiscalYearId) :
    y.status = .opened := by
  obtain ⟨o, ho, -, rfl⟩ := Prog.run_exec_ok.1 h
  simp only [Except.bind_eq_ok_iff, ensure_eq_ok, exists_const] at ho
  obtain ⟨hc, -⟩ := ho
  simp only [reduceCtorEq, decide_false, Bool.false_or, List.all_eq_true, Bool.or_eq_true, decide_eq_true_eq,
    Bool.not_eq_true', List.any_eq_false, Bool.and_eq_true, not_and] at hc
  have hno := (hc p hp).resolve_left (not_not.2 hk) y hy hid
  cases hs : y.status with
  | opened => rfl
  | closed => exact absurd hs hno

theorem run_updateYear {id : ℕ} {f : FiscalYear → FiscalYear} {hf : ∀ y, (f y).id = y.id} {y : FiscalYear}
    {v w : Env DB Err} {u : Unit} (h : (updateYear id f hf).run v = .ok (u, w)) (hy : v.db.years.find? id = some y) :
    w.db = { v.db with years := v.db.years.update [id] f hf } ∧ w.checks = v.checks := by
  obtain ⟨o, ho, -, rfl⟩ := Prog.run_exec_ok.1 h
  cases ho
  rw [Env.after_db, Env.after_checks, Table.hit_of_find? hy rfl]
  exact ⟨rfl, List.append_nil _⟩

/-- `insertNextYear` adds at most one year, which is open. -/
theorem run_insertNextYear {endDate : Date} {next : Option ℕ} {v w : Env DB Err}
    (h : (insertNextYear endDate).run v = .ok (next, w)) (hv : Fresh v.seq v.db) :
    w.db = { v.db with years := w.db.years } ∧ (∀ y ∈ v.db.years, y ∈ w.db.years) ∧
      (∀ k, w.db.closingOf k = v.db.closingOf k) ∧
      ∀ y ∈ w.db.years, y ∈ v.db.years ∨ y.status = .opened ∧ y.startDate = endDate.next := by
  obtain ⟨o, ho, -, rfl⟩ := Prog.run_exec_ok.1 h
  dsimp only at ho
  split at ho
  · cases ho
    exact ⟨rfl, fun y hy => hy, fun _ => rfl, fun y hy => .inl hy⟩
  · split at ho
    · cases ho
      exact ⟨rfl, fun y hy => hy, fun _ => rfl, fun y hy => .inl hy⟩
    · simp only [Except.bind_eq_ok_iff, ensure_eq_ok, exists_const, Except.ok.injEq] at ho
      obtain ⟨-, rfl⟩ := ho
      have hfree : v.db.years.Free (nextYear (v.seq + v.gaps 0) endDate).id := hv.years.free (Nat.le_add_right ..)
      refine ⟨rfl, fun y hy => (Table.mem_insert hfree).2 (.inl hy), closing_insert hfree rfl, fun y hy => ?_⟩
      rcases Table.mem_of_mem_insert hy with hy | rfl
      · exact .inl hy
      · exact .inr ⟨rfl, rfl⟩

/-- The calendar lets a closing entry have the date: it lets any posting, or a period of an open year covers it. -/
def DB.CanClose (db : DB) (date : Date) : Prop :=
  db.OpenOn date ∨ ∃ p ∈ db.periods, p.Covers date ∧ ∀ y ∈ db.years, y.id = p.fiscalYearId → y.status = .opened

theorem coveringPeriod_eq_some {db : DB} {date : Date} {p : AccountingPeriod} (h : db.coveringPeriod date = some p) :
    p ∈ db.periods ∧ p.Covers date := by
  have hm := List.argmin_mem h
  simp only [List.mem_filter, Bool.and_eq_true, decide_eq_true_eq] at hm
  exact hm

theorem run_closingPeriod {endDate : Date} {period : ℕ} {v w : Env DB Err}
    (h : (closingPeriod endDate).run v = .ok (period, w)) :
    w.db = { v.db with periods := w.db.periods } ∧ v.db.CanClose endDate := by
  rw [closingPeriod, Prog.run_read_bind_ok] at h
  split at h
  · obtain ⟨hp, -⟩ := run_periodForDate h
    refine ⟨?_, .inl (run_periodForDate_posted h).date⟩
    rw [hp.eq]
    rfl
  · rename_i p hp
    obtain ⟨hm, hc⟩ := coveringPeriod_eq_some hp
    split at h
    · obtain ⟨u, v₁, h₁, h⟩ := Prog.run_bind_ok.1 h
      obtain ⟨-, rfl⟩ := Prog.run_pure_ok.1 h
      refine ⟨by rw [(run_setPeriods h₁).1]; rfl, .inr ⟨p, hm, hc, fun y hy hid => ?_⟩⟩
      exact run_setPeriods_opened h₁ hm (Table.mem_hit.2 ⟨rfl, p, Table.find?_key hm, rfl⟩) hy hid
    · rename_i hs
      obtain ⟨-, rfl⟩ := Prog.run_pure_ok.1 h
      refine ⟨rfl, .inl (.inl ⟨p, hm, ?_, hc⟩)⟩
      cases he : p.status with
      | opened => rfl
      | closed => exact absurd he hs

/-- The closing entry. -/
def closingEntry (id : ℕ) (endDate : Date) (period : ℕ) (currency name : String) : JournalEntry :=
  { id, entryDate := endDate, periodId := period, currencyCode := currency, exchangeRate := 10 ^ 8,
    memo := "Year-end close " ++ name, reference := some name, isClosing := true }

/-- The insertion of the closing entry. -/
def insertClosing (endDate : Date) (period : ℕ) (currency name : String) : Txn ℕ := Prog.exec fun n db =>
  insertEntry db (closingEntry n endDate period currency name)

theorem allFresh_insertClosing (endDate : Date) (period : ℕ) (currency name : String) :
    AllFresh (insertClosing endDate period currency name) :=
  Prog.all_exec fun _ _ _ h ho => keepsFresh_insertEntry rfl h ho

theorem run_insertClosing {endDate : Date} {period je : ℕ} {currency name : String} {v w : Env DB Err}
    (h : (insertClosing endDate period currency name).run v = .ok (je, w)) :
    v.seq ≤ je ∧
      w.db = { v.db with entries := v.db.entries.insert (closingEntry je endDate period currency name) } := by
  obtain ⟨o, ho, rfl, rfl⟩ := Prog.run_exec_ok.1 h
  obtain ⟨-, rfl⟩ := insertEntry_eq_ok.1 ho
  exact ⟨Nat.le_add_right .., rfl⟩

theorem postClosing_eq (name : String) (endDate : Date) (retained : ℕ) :
    postClosing name endDate retained = (do
      let currency ← Prog.read fun db => db.settings.baseCurrency
      let period ← closingPeriod endDate
      let je ← insertClosing endDate period currency name
      insertLines je (closingLines endDate retained name)
      pure je) := rfl

/-- The state the closing lines are computed from: `db` with the entry, which has no lines yet. -/
def DB.withEntry (db : DB) (e : JournalEntry) : DB := { db with entries := db.entries.insert e }

/-- The sweep writes the closing entry. -/
theorem run_postClosing {name : String} {endDate : Date} {retained je : ℕ} {v w : Env DB Err}
    (h : (postClosing name endDate retained).run v = .ok (je, w)) (hv : Fresh v.seq v.db) :
    ∃ period rows, Wrote v.seq v.db w.db (closingEntry je endDate period v.db.settings.baseCurrency name) rows ∧
      List.Forall₂ (NewLine.Becomes je) (closingLines endDate retained name
        (v.db.withEntry (closingEntry je endDate period v.db.settings.baseCurrency name))) rows ∧
      v.db.CanClose endDate := by
  rw [postClosing_eq, Prog.run_read_bind_ok] at h
  obtain ⟨period, v₁, h₁, h⟩ := Prog.run_bind_ok.1 h
  obtain ⟨je', v₂, h₂, h⟩ := Prog.run_bind_ok.1 h
  obtain ⟨u₃, v₃, h₃, h⟩ := Prog.run_bind_ok.1 h
  obtain ⟨rfl, rfl⟩ := Prog.run_pure_ok.1 h
  obtain ⟨hp, hcan⟩ := run_closingPeriod h₁
  rw [Env.tick_db] at hp
  have hv₁ := (allFresh_closingPeriod _).run h₁ hv.tick
  obtain ⟨hle, hdb₂⟩ := run_insertClosing h₂
  obtain ⟨rows, hr, hw, -⟩ :=
    (Wrote.of_insertEntry (e := closingEntry je endDate period v.db.settings.baseCurrency name) hv₁ hle hdb₂).lines
      ((allFresh_insertClosing _ _ _ _).run h₂ hv₁) h₃
  refine ⟨period, rows, ?_, ?_, hcan⟩
  · have hle' : v.seq ≤ v₁.seq := (Env.le_tick_seq v).trans (Prog.run_seq_le h₁)
    have he := hw.eq
    have hf := hw.free
    have hl := hw.linesFree
    rw [hp] at he hf hl
    exact ⟨hle'.trans hw.new, he, hf, hl, hw.own⟩
  · rw [hdb₂, hp] at hr
    exact hr

theorem run_postSweep {toSweep retained : ℕ} {name : String} {endDate : Date} {closing : Option ℕ} {v w : Env DB Err}
    (h : (postSweep toSweep name endDate retained).run v = .ok (closing, w)) (hv : Fresh v.seq v.db) :
    (toSweep = 0 ∧ closing = none ∧ w.db = v.db) ∨
    ∃ je period rows, 0 < toSweep ∧ closing = some je ∧
      Wrote v.seq v.db w.db (closingEntry je endDate period v.db.settings.baseCurrency name) rows ∧
      List.Forall₂ (NewLine.Becomes je) (closingLines endDate retained name
        (v.db.withEntry (closingEntry je endDate period v.db.settings.baseCurrency name))) rows ∧
      v.db.CanClose endDate := by
  unfold postSweep at h
  split at h
  · rename_i hpos
    obtain ⟨je, v₁, h₁, h⟩ := Prog.run_bind_ok.1 h
    obtain ⟨rfl, rfl⟩ := Prog.run_pure_ok.1 h
    obtain ⟨period, rows, hw, hr, hcan⟩ := run_postClosing h₁ hv
    exact .inr ⟨je, period, rows, hpos, rfl, hw, hr, hcan⟩
  · rename_i hpos
    obtain ⟨rfl, rfl⟩ := Prog.run_pure_ok.1 h
    exact .inl ⟨Nat.eq_zero_of_not_pos hpos, rfl, rfl⟩

/-! ### The close -/

theorem FiscalYear.id_close (closing : Option ℕ) (y : FiscalYear) :
    ({ y with status := .closed, closingEntryId := closing } : FiscalYear).id = y.id := rfl

/-- What `CloseFiscalYear` does from the counting of the balances on. -/
def closeRest (id retained : ℕ) (fy : FiscalYear) : Txn CloseResult := do
  let toSweep ← Prog.read fun db => (db.balances fy.endDate).length
  let closingEntry ← postSweep toSweep fy.name fy.endDate retained
  setPeriods .closed fun db => db.periods.keysWhere fun p => p.fiscalYearId = id && p.status = .opened
  updateYear id (fun y => { y with status := .closed, closingEntryId := closingEntry }) (FiscalYear.id_close closingEntry)
  let next ← insertNextYear fy.endDate
  pure { closingEntryId := closingEntry, nextFiscalYearId := next }

/-- The year `id` of `db` was closed with the closing entry `closing`: only the calendar differs between `mid`, which
has the entry, and `db'`. -/
structure ClosedYear (id : ℕ) (closing : Option ℕ) (mid db' : DB) : Prop where
  eq : db' = { mid with periods := db'.periods, years := db'.years }
  link : ∀ k, db'.closingOf k = if k = id then closing else mid.closingOf k
  closed : ∃ y, db'.years.find? id = some y ∧ y.status = .closed
  periods : ∀ p ∈ db'.periods, p.fiscalYearId = id → p.status = .closed
  years : ∃ x, mid.years.find? id = some x ∧ ∀ y ∈ db'.years, (y ∈ mid.years ∧ y.id ≠ id) ∨
    y = { x with status := .closed, closingEntryId := closing } ∨ y.status = .opened ∧ y.startDate = x.endDate.next

theorem periods_closed {t : Table AccountingPeriod} {id : ℕ} :
    ∀ p ∈ t.update (t.keysWhere fun p => p.fiscalYearId = id && p.status = .opened)
      (fun p => { p with status := .closed }) fun _ => rfl, p.fiscalYearId = id → p.status = .closed := by
  intro p hp hid
  have hkey : ∀ p : AccountingPeriod, Keyed.key { p with status := .closed } = Keyed.key p := fun _ => rfl
  obtain ⟨q, hq, rfl⟩ := (Table.mem_update hkey).1 hp
  split
  · rfl
  · rename_i hk
    rw [Table.mem_keysWhere hq] at hk
    rw [if_neg (by rwa [Table.mem_keysWhere hq])] at hid
    cases hs : q.status with
    | opened => simp [hid, hs] at hk
    | closed => rfl

theorem run_closeRest {id retained : ℕ} {fy : FiscalYear} {res : CloseResult} {v w : Env DB Err}
    (h : (closeRest id retained fy).run v = .ok (res, w)) (hv : Fresh v.seq v.db)
    (hfy : v.db.years.find? id = some fy) :
    ∃ closing mid, ClosedYear id closing mid w.db ∧
      ((v.db.balances fy.endDate = [] ∧ closing = none ∧ mid = v.db) ∨
        ∃ je period rows, closing = some je ∧
          Wrote v.seq v.db mid (closingEntry je fy.endDate period v.db.settings.baseCurrency fy.name) rows ∧
          List.Forall₂ (NewLine.Becomes je) (closingLines fy.endDate retained fy.name
            (v.db.withEntry (closingEntry je fy.endDate period v.db.settings.baseCurrency fy.name))) rows ∧
          v.db.balances fy.endDate ≠ [] ∧ v.db.CanClose fy.endDate) := by
  rw [closeRest, Prog.run_read_bind_ok] at h
  obtain ⟨closing, v₁, h₁, h⟩ := Prog.run_bind_ok.1 h
  obtain ⟨u₂, v₂, h₂, h⟩ := Prog.run_bind_ok.1 h
  obtain ⟨u₃, v₃, h₃, h⟩ := Prog.run_bind_ok.1 h
  obtain ⟨next, v₄, h₄, h⟩ := Prog.run_bind_ok.1 h
  obtain ⟨rfl, rfl⟩ := Prog.run_pure_ok.1 h
  have hv₁ := (allFresh_postSweep _ _ _ _).run h₁ hv.tick
  have hv₃ := (allFresh_updateYear _ _ _).run h₃ ((allFresh_setPeriods _ _).run h₂ hv₁)
  have hmid := run_postSweep h₁ hv.tick
  have hyears : v₁.db.years = v.db.years := by
    rcases hmid with ⟨-, -, e⟩ | ⟨je, period, rows, -, -, hw, -⟩
    · rw [e, Env.tick_db]
    · rw [hw.eq, Env.tick_db]
  obtain ⟨e₂, -⟩ := run_setPeriods h₂
  have hfy₂ : v₂.db.years.find? id = some fy := by
    rw [e₂]
    exact hyears ▸ hfy
  obtain ⟨e₃, -⟩ := run_updateYear h₃ hfy₂
  obtain ⟨e₄, hmem, hlink, hnew⟩ := run_insertNextYear h₄ hv₃
  have hkey : ∀ y : FiscalYear, Keyed.key ({ y with status := .closed, closingEntryId := closing } : FiscalYear) =
      Keyed.key y := fun _ => rfl
  have hfind : v₃.db.years.find? id = some { fy with status := .closed, closingEntryId := closing } := by
    rw [e₃]
    exact Table.find?_update_self hkey hfy₂
  refine ⟨closing, v₁.db, ⟨?_, fun k => ?_, ?_, ?_, fy, hyears ▸ hfy, fun y hy => ?_⟩, ?_⟩
  · rw [e₄, e₃, e₂]
  · rw [hlink]
    split
    · rename_i hk
      rw [hk, DB.closingOf, hfind]
      rfl
    · rename_i hk
      rw [e₃, closing_update hkey fun hm => absurd (List.mem_singleton.1 hm) hk, e₂]
      rfl
  · exact ⟨_, Table.find?_eq_some.2 ⟨hmem _ (Table.mem_of_find? hfind), Table.key_of_find? hfind⟩, rfl⟩
  · rw [e₄, e₃, e₂]
    exact periods_closed
  · rcases hnew y hy with hy | ⟨hs, hstart⟩
    · rw [e₃] at hy
      rcases (Table.mem_update_singleton hkey hfy₂).1 hy with rfl | ⟨hne, hy⟩
      · exact .inr (.inl rfl)
      · rw [e₂] at hy
        exact .inl ⟨hy, hne⟩
    · exact .inr (.inr ⟨hs, hstart⟩)
  · rcases hmid with ⟨hz, hc, e⟩ | ⟨je, period, rows, hpos, hc, hw, hr, hcan⟩
    · exact .inl ⟨List.length_eq_zero_iff.1 hz, hc, by rw [e, Env.tick_db]⟩
    · exact .inr ⟨je, period, rows, hc, hw.mono (Env.le_tick_seq v), hr, List.length_pos_iff.1 hpos, hcan⟩

/-- What the guards of `CloseFiscalYear` have read. -/
structure CloseGuards (id retained : ℕ) (fy : FiscalYear) (db : DB) : Prop where
  year : db.years.find? id = some fy
  opened : fy.status = .opened
  account : ∃ a, db.accounts.find? retained = some a ∧ a.accountType = .equity
  prior : ∀ y ∈ db.years, y.status = .opened → fy.startDate ≤ y.startDate

theorem run_closeFiscalYear {id retained : ℕ} {res : CloseResult} {v w : Env DB Err}
    (h : (CloseFiscalYear id retained).run v = .ok (res, w)) :
    ∃ fy u, CloseGuards id retained fy v.db ∧ u.db = v.db ∧ v.seq ≤ u.seq ∧ u.checks = v.checks ∧
      (closeRest id retained fy).run u = .ok (res, w) := by
  simp only [CloseFiscalYear, Prog.run_query_bind_ok] at h
  obtain ⟨fy, hfy, h⟩ := h
  split at hfy
  · cases hfy
  · rename_i fy' hfind
    cases hfy
    rw [Prog.run_require_bind_ok, Prog.run_read_bind_ok, Prog.run_require_bind_ok, Prog.run_query_bind_ok] at h
    obtain ⟨hopen, hprior, ok, hok, h⟩ := h
    rw [Prog.run_require_bind_ok] at h
    obtain ⟨hb, h⟩ := h
    refine ⟨fy, v.tick.tick.tick, ⟨hfind, of_decide_eq_true hopen, ?_, fun y hy hs => ?_⟩, rfl,
      (Env.le_tick_seq v).trans ((Env.le_tick_seq _).trans (Env.le_tick_seq _)), rfl, h⟩
    · split at hok
      · cases hok
      · rename_i a ha
        cases hok
        simp only [Bool.and_eq_true, decide_eq_true_eq] at hb
        exact ⟨a, ha, hb.2⟩
    · rw [Bool.not_eq_true', List.any_eq_false] at hprior
      by_cases hid : y.id = id
      · have hfy : v.db.years.find? id = some y := hid ▸ Table.find?_key hy
        obtain rfl : fy = y := Option.some.inj (hfind.symm.trans hfy)
        exact le_rfl
      · have hno := hprior y hy
        have hfind' : v.tick.db.years.find? id = some fy := hfind
        simp only [hfind', hid, hs, ne_eq, not_false_eq_true, decide_true, Bool.true_and, Option.any_some,
          decide_eq_true_eq, not_lt] at hno
        exact hno

/-! ### Reopening -/

theorem run_reopenFiscalYear {id : ℕ} {rev : Option ℕ} {v w : Env DB Err}
    (h : (ReopenFiscalYear id).run v = .ok (rev, w)) (hv : Fresh v.seq v.db) :
    ∃ fy mid, v.db.years.find? id = some fy ∧ fy.status = .closed ∧
      (∀ y ∈ v.db.years, y.status = .closed → y.startDate ≤ fy.startDate) ∧
      mid = { v.db with years := mid.years, periods := mid.periods } ∧
      mid.years = v.db.years.update [id] (fun y => { y with status := .opened, closingEntryId := none }) (fun _ => rfl) ∧
      (∀ k, mid.closingOf k = if k = id then none else v.db.closingOf k) ∧
      ((fy.closingEntryId = none ∧ w.db = mid) ∨
        ∃ e r rows, fy.closingEntryId = some e.id ∧ Reversed v.seq mid w.db e r rows) := by
  simp only [ReopenFiscalYear, Prog.run_query_bind_ok] at h
  obtain ⟨fy, hfy, h⟩ := h
  split at hfy
  · cases hfy
  · rename_i fy' hfind
    cases hfy
    rw [Prog.run_require_bind_ok, Prog.run_read_bind_ok, Prog.run_require_bind_ok] at h
    obtain ⟨hclosed, hlater, h⟩ := h
    obtain ⟨u₁, v₁, h₁, h⟩ := Prog.run_bind_ok.1 h
    have hfind' : v.tick.tick.db.years.find? id = some fy := hfind
    have hlast : ∀ y ∈ v.db.years, y.status = .closed → y.startDate ≤ fy.startDate := by
      intro y hy hs
      rw [Bool.not_eq_true', List.any_eq_false] at hlater
      have hno := hlater y hy
      have hfind₁ : v.tick.db.years.find? id = some fy := hfind
      simp only [hfind₁, hs, decide_true, Bool.true_and, Option.any_some, decide_eq_true_eq, not_lt] at hno
      exact hno
    obtain ⟨e₁, -⟩ := run_updateYear h₁ hfind'
    have hkey : ∀ y : FiscalYear, Keyed.key ({ y with status := .opened, closingEntryId := none } : FiscalYear) =
        Keyed.key y := fun _ => rfl
    have hlink : ∀ k, v₁.db.closingOf k = if k = id then none else v.db.closingOf k := by
      intro k
      rw [e₁]
      split
      · rename_i hk
        rw [hk, DB.closingOf, Table.find?_update_self hkey hfind']
        rfl
      · rename_i hk
        exact closing_update hkey fun hm => absurd (List.mem_singleton.1 hm) hk
    have hv₁ := (allFresh_updateYear _ _ _).run h₁ hv.tick.tick
    split at h
    · rename_i hnone
      obtain ⟨-, rfl⟩ := Prog.run_pure_ok.1 h
      exact ⟨fy, w.db, hfind, of_decide_eq_true hclosed, hlast, by rw [e₁]; rfl, by rw [e₁]; rfl, hlink,
        .inl ⟨hnone, rfl⟩⟩
    · rename_i je hsome
      obtain ⟨u₂, v₂, h₂, h⟩ := Prog.run_bind_ok.1 h
      obtain ⟨rev', v₃, h₃, h⟩ := Prog.run_bind_ok.1 h
      obtain ⟨-, rfl⟩ := Prog.run_pure_ok.1 h
      obtain ⟨e₂, -⟩ := run_setPeriods h₂
      obtain ⟨e, r, rows, rfl, -, hr, -⟩ := run_reverseEntry h₃ ((allFresh_setPeriods _ _).run h₂ hv₁)
      have hle : v.seq ≤ v₂.seq := (Env.le_tick_seq v).trans <| (Env.le_tick_seq _).trans <|
        (Prog.run_seq_le h₁).trans (Prog.run_seq_le h₂)
      refine ⟨fy, v₂.db, hfind, of_decide_eq_true hclosed, hlast, by rw [e₂, e₁]; rfl, by rw [e₂, e₁]; rfl, fun k => ?_,
        .inr ⟨e, r, rows, hsome, hr.mono hle⟩⟩
      rw [← hlink, e₂]
      rfl
