import Mathlib.Algebra.Order.BigOperators.Group.List
import Tadmor.Proof.UnpostAnswers

/-!
# The answers to closing and reopening a year

The lines of a closing entry balance, so only their accounts and amounts decide.  A period of a closed year is not
opened; the other statements of a close and of a reopening do not fail.
-/

variable {C : (DB → Except Err Unit) → Prop} {v w : Env DB Err} {E : Err → Prop}

/-! ### Statements -/

/-- One of the periods belongs to a closed year. -/
def DB.anyLocked (db : DB) (ks : List ℕ) : Bool := db.periods.rows.any fun p => p.id ∈ ks && db.lockedPeriod p

/-- The statement fails only if it opens a period of a closed year. -/
theorem wp_openPeriods (select : DB → List ℕ) :
    (setPeriods .opened select).wp (fun e => ¬e.Answered ∧ v.db.anyLocked (select v.db) = true)
      (fun _ _ => v.db.anyLocked (select v.db) = false) v := by
  have hcheck : (BookStatus.opened = .closed || v.db.periods.rows.all fun p =>
      p.id ∉ select v.db || !v.db.years.rows.any fun fy => fy.id = p.fiscalYearId && fy.status = .closed) =
        !v.db.anyLocked (select v.db) := by
    rw [DB.anyLocked, List.not_any_eq_all_not]
    simp [DB.lockedPeriod]
  unfold setPeriods
  rw [Prog.wp_exec]
  dsimp only
  rw [hcheck]
  cases v.db.anyLocked (select v.db) with
  | true =>
    refine ⟨fun e he => ?_, fun o ho => by cases ho⟩
    cases he
    exact ⟨Err.IsSql.not_answered ⟨_, _, rfl⟩, rfl⟩
  | false =>
    exact ⟨fun _ he => (by cases he), fun _ _ => rfl⟩

theorem wp_closePeriods {select : DB → List ℕ} : (setPeriods .closed select).wp E (fun _ _ => True) v := by
  unfold setPeriods
  rw [Prog.wp_exec]
  exact ⟨fun _ he => (by cases he), fun _ _ => trivial⟩

theorem wp_updateYear {id : ℕ} {f : FiscalYear → FiscalYear} {hf : ∀ y, (f y).id = y.id} :
    (updateYear id f hf).wp E (fun _ _ => True) v := by
  unfold updateYear
  rw [Prog.wp_exec]
  exact ⟨fun _ he => (by cases he), fun _ _ => trivial⟩

/-- The deferred checks of what holds between two entries pass. -/
theorem Steady.ends {A S : Prop} (h : Steady (fun _ => False) v) (ha : ¬A) (hs : S) : ¬A ∧ Ends S v :=
  ⟨ha, .of_passes hs (h.passes fun _ hfalse => hfalse.elim)⟩

/-- A part of a request that writes to the calendar only. -/
theorem Steady.calendar {α : Type} {p : Txn α} {a : α} (h : Steady C v) (op : Op) (hp : AllChange op p)
    (hf : AllFresh p) (hr : p.run v = .ok (a, w))
    (hdb : w.db = { v.db with periods := w.db.periods, years := w.db.years }) (hc : w.checks = v.checks) : Steady C w :=
  h.aside op hp hf hr (by rw [hdb]) (by rw [hdb]) fun _ hm => .inl (hc ▸ hm)

/-! ### Closing lines -/

section closingLines

variable {retained : ℕ} {name : String} {total : ℤ} {n : ℕ} {bal : List (Option ℕ × ℤ)}

theorem lineNo_closingLinesFrom : (closingLinesFrom retained name total n bal).map (·.lineNo) =
    List.range' n (bal.length + if total = 0 then 0 else 1) := by
  induction bal generalizing n with
  | nil =>
    unfold closingLinesFrom
    by_cases ht : total = 0
    · simp [ht]
    · simp [ht, NewLine.signed]
  | cons x bal ih =>
    obtain ⟨account, b⟩ := x
    rw [closingLinesFrom, List.map_cons, ih, List.length_cons, Nat.add_right_comm, List.range'_succ]
    rfl

/-- A line of a closing entry is on one side, with its amount as base amount. -/
theorem mem_closingLinesFrom {l : NewLine} (h : l ∈ closingLinesFrom retained name total n bal) :
    0 ≤ l.debit ∧ 0 ≤ l.credit ∧ l.baseDebit = l.debit ∧ l.baseCredit = l.credit := by
  induction bal generalizing n with
  | nil =>
    unfold closingLinesFrom at h
    split at h
    · cases h
    · obtain rfl := List.mem_singleton.1 h
      exact ⟨le_max_right .., le_max_right .., rfl, rfl⟩
  | cons x bal ih =>
    obtain ⟨account, b⟩ := x
    rcases List.mem_cons.1 h with rfl | h
    · exact ⟨le_max_right .., le_max_right .., rfl, rfl⟩
    · exact ih h

theorem net_closingLinesFrom : ((closingLinesFrom retained name total n bal).map (·.debit)).sum -
    ((closingLinesFrom retained name total n bal).map (·.credit)).sum = total - (bal.map Prod.snd).sum := by
  induction bal generalizing n with
  | nil =>
    unfold closingLinesFrom
    by_cases ht : total = 0
    · simp [ht]
    · simp [ht, NewLine.signed]
  | cons x bal ih =>
    obtain ⟨account, b⟩ := x
    have hb : max (-b) 0 - max (- -b) 0 = -b := max_zero_sub_max_neg_zero_eq_self (-b)
    have ih := ih (n := n + 1)
    simp only [closingLinesFrom, NewLine.signed, List.map_cons, List.sum_cons]
    omega

theorem tallies_closingLines {db : DB} {date : Date} (h : db.balances date ≠ []) :
    Tallies (closingLines date retained name db) := by
  obtain ⟨⟨account, b⟩, bal, hbal⟩ := List.exists_cons_of_ne_nil h
  have hb : b ≠ 0 := by
    have hm : (account, b) ∈ db.balances date := hbal ▸ List.mem_cons_self ..
    exact of_decide_eq_true (List.mem_filter.1 hm).2
  unfold closingLines
  rw [hbal]
  dsimp only
  set total := (((account, b) :: bal).map Prod.snd).sum with htotal
  have hnet : ((closingLinesFrom retained name total 1 ((account, b) :: bal)).map (·.debit)).sum -
      ((closingLinesFrom retained name total 1 ((account, b) :: bal)).map (·.credit)).sum = _ := net_closingLinesFrom
  rw [← htotal, sub_self, sub_eq_zero] at hnet
  have hmem : ∀ l ∈ closingLinesFrom retained name total 1 ((account, b) :: bal), _ := fun l hl => mem_closingLinesFrom hl
  refine ⟨fun hzero => ?_, hnet, ?_⟩
  · have hzero' := hnet.symm.trans hzero
    have hhead : NewLine.signed 1 account (-b) (-b) "Year-end close" ∈
        closingLinesFrom retained name total 1 ((account, b) :: bal) := List.mem_cons_self ..
    have hd := List.all_zero_of_le_zero_le_of_sum_eq_zero
      (fun x hx => by obtain ⟨l, hl, rfl⟩ := List.mem_map.1 hx; exact (hmem l hl).1) hzero (List.mem_map_of_mem hhead)
    have hc := List.all_zero_of_le_zero_le_of_sum_eq_zero
      (fun x hx => by obtain ⟨l, hl, rfl⟩ := List.mem_map.1 hx; exact (hmem l hl).2.1) hzero' (List.mem_map_of_mem hhead)
    simp only [NewLine.signed] at hd hc
    omega
  · rw [List.map_congr_left fun l hl => (hmem l hl).2.2.1, List.map_congr_left fun l hl => (hmem l hl).2.2.2]
    exact hnet

end closingLines

/-! ### Closing -/

theorem Date.le_prev_addYear (d : Date) : d ≤ d.addYear.prev := by
  have h := d.valid
  have h₁ := daysInMonth_le d.year d.month
  have h₂ := daysInMonth_pos (d.year + 1) d.month
  rw [Date.le_iff]
  unfold Date.addYear
  split
  · unfold Date.prev
    dsimp only
    split_ifs
    · simp only [Date.rank]
      omega
    · simp only [Date.rank]
      omega
    · simp only [Date.rank]
      omega
  · unfold Date.prev
    dsimp only
    split_ifs
    · simp only [Date.rank]
      omega
    · simp only [Date.rank]
      omega
    · simp only [Date.rank]
      omega

theorem wp_insertNextYear {endDate : Date} : (insertNextYear endDate).wp E (fun _ w => w.checks = v.checks) v := by
  have hdates : (nextYear (v.seq + v.gaps 0) endDate).startDate ≤ (nextYear (v.seq + v.gaps 0) endDate).endDate :=
    Date.le_prev_addYear _
  unfold insertNextYear
  rw [Prog.wp_exec]
  dsimp only
  split
  · exact ⟨fun _ he => (by cases he), fun _ ho => (by cases ho; exact List.append_nil _)⟩
  · split
    · exact ⟨fun _ he => (by cases he), fun _ ho => (by cases ho; exact List.append_nil _)⟩
    · rw [decide_eq_true hdates]
      exact ⟨fun _ he => (by cases he), fun _ ho => (by cases ho; exact List.append_nil _)⟩

/-- What `CloseFiscalYear` does after the sweep. -/
def closeCalendar (id : ℕ) (endDate : Date) (closing : Option ℕ) : Txn CloseResult := do
  setPeriods .closed fun db => db.periods.keysWhere fun p => p.fiscalYearId = id && p.status = .opened
  updateYear id (fun y => { y with status := .closed, closingEntryId := closing }) (FiscalYear.id_close closing)
  let next ← insertNextYear endDate
  pure { closingEntryId := closing, nextFiscalYearId := next }

/-- It does not fail, and leaves the journal as it is. -/
theorem wp_closeCalendar {id : ℕ} {endDate : Date} {closing : Option ℕ} {fy : FiscalYear} (hv : Fresh v.seq v.db)
    (hfy : v.db.years.find? id = some fy) : (closeCalendar id endDate closing).wp E (fun _ w =>
      w.db = { v.db with periods := w.db.periods, years := w.db.years } ∧ w.checks = v.checks) v := by
  unfold closeCalendar
  rw [Prog.wp_bind]
  refine wp_closePeriods.mono fun u v₁ h₁ _ => ?_
  obtain ⟨hdb₁, hc₁⟩ := run_setPeriods h₁
  have hfy₁ : v₁.db.years.find? id = some fy := by
    rw [hdb₁]
    exact hfy
  rw [Prog.wp_bind]
  refine wp_updateYear.mono fun u v₂ h₂ _ => ?_
  obtain ⟨hdb₂, hc₂⟩ := run_updateYear h₂ hfy₁
  have hv₂ := (allFresh_updateYear _ _ _).run h₂ ((allFresh_setPeriods _ _).run h₁ hv)
  rw [Prog.wp_bind]
  refine wp_insertNextYear.mono fun next v₃ h₃ hc₃ => ?_
  obtain ⟨hdb₃, -⟩ := run_insertNextYear h₃ hv₂
  refine ⟨?_, hc₃.trans (hc₂.trans hc₁)⟩
  rw [hdb₃, hdb₂, hdb₁]

theorem allChange_closeCalendar (id retained : ℕ) (endDate : Date) (closing : Option ℕ) :
    AllChange (.closeFiscalYear id retained) (closeCalendar id endDate closing) :=
  (allChange_closePeriods id retained).bind fun _ => (allChange_closeYear id retained _).bind fun _ =>
  (allChange_insertNextYear id retained _).bind fun _ => Prog.all_pure _

theorem allFresh_closeCalendar (id : ℕ) (endDate : Date) (closing : Option ℕ) :
    AllFresh (closeCalendar id endDate closing) :=
  (allFresh_setPeriods _ _).bind fun _ => (allFresh_updateYear _ _ _).bind fun _ =>
  (allFresh_insertNextYear _).bind fun _ => Prog.all_pure _

/-- The period that covers the date is closed, and of a closed year. -/
def DB.coveredLocked (db : DB) (date : Date) : Bool :=
  (db.coveringPeriod date).any fun p => p.status = .closed && db.lockedPeriod p

/-- There is a period for the closing entry, or one can be created. -/
def DB.canSweep (db : DB) (date : Date) : Prop := (db.coveringPeriod date).isSome = true ∨ db.canPost date = true

instance (db : DB) (date : Date) : Decidable (db.canSweep date) := inferInstanceAs (Decidable (_ ∨ _))

theorem anyLocked_singleton {db : DB} {p : AccountingPeriod} (hm : p ∈ db.periods) :
    db.anyLocked [p.id] = db.lockedPeriod p := by
  rw [DB.anyLocked, Bool.eq_iff_iff, List.any_eq_true]
  constructor
  · rintro ⟨q, hq, h⟩
    obtain ⟨hid, hl⟩ := Bool.and_eq_true_iff.1 h
    rwa [Table.key_inj hm hq (List.mem_singleton.1 (of_decide_eq_true hid)).symm]
  · intro h
    refine ⟨p, hm, ?_⟩
    rw [h, decide_eq_true (List.mem_singleton_self _), Bool.true_and]

theorem wp_closingPeriod {date : Date} {Q : ℕ → Env DB Err → Prop} (hv : Steady C v)
    (hrefuse : ¬v.db.canSweep date → v.db.coveredLocked date = false → ∀ e, e.Answered → E e)
    (hfault : v.db.coveredLocked date = true → ∀ e, ¬e.Answered → E e)
    (h : ∀ period w, v.db.canSweep date → v.db.coveredLocked date = false → SamePeriodsApart v w → Steady C w →
      w.db.HasOpen period → Q period w) : (closingPeriod date).wp E Q v := by
  unfold closingPeriod
  rw [Prog.wp_read_bind]
  cases hc : v.db.coveringPeriod date with
  | none =>
    have hunlocked : v.db.coveredLocked date = false := by
      rw [DB.coveredLocked, hc]
      rfl
    refine wp_periodForDate hv.tick (fun hno => hrefuse ?_ hunlocked) fun period w hcan hp hw hopen => ?_
    · rintro (hsome | hcan)
      · rw [hc] at hsome
        cases hsome
      · exact Bool.eq_false_iff.1 hno hcan
    · exact h period w (.inr hcan) hunlocked ⟨hp.eq, (Env.le_tick_seq v).trans hp.seq, hp.checks⟩ hw hopen
  | some p =>
    obtain ⟨hm, -⟩ := coveringPeriod_eq_some hc
    have hsweep : v.db.canSweep date := .inl (by rw [hc]; rfl)
    have hlocked : v.db.coveredLocked date = (p.status = .closed && v.db.lockedPeriod p) := by
      rw [DB.coveredLocked, hc, Option.any_some]
    dsimp only
    by_cases hs : p.status = .closed
    · have hfind : v.tick.db.periods.find? p.id = some p := Table.find?_key hm
      have hselect : v.tick.db.anyLocked (v.tick.db.periods.hit p.id fun _ => true) = v.db.coveredLocked date := by
        rw [Table.hit_of_find? hfind rfl, hlocked, decide_eq_true hs, Bool.true_and]
        exact anyLocked_singleton hm
      obtain ⟨herr, hok⟩ := Prog.wp_iff_run.1
        (wp_openPeriods (v := v.tick) fun db => db.periods.hit p.id fun _ => true)
      rw [if_pos hs, Prog.wp_bind, Prog.wp_iff_run]
      refine ⟨fun e he => ?_, fun u w hr => ?_⟩
      · obtain ⟨hne, hl⟩ := herr e he
        exact hfault (hselect.symm.trans hl) e hne
      · have hl := hok u w hr
        obtain ⟨hdb, hchecks⟩ := run_setPeriods hr
        have hw : Steady C w :=
          hv.tick.calendar .createWarehouse (allChange_setPeriods_opened _) (allFresh_setPeriods _ _) hr
            (by rw [hdb]) hchecks
        refine h p.id w hsweep (hselect.symm.trans hl) ⟨by rw [hdb]; rfl, ?_, hchecks⟩ hw ⟨{ p with status := .opened }, ?_, rfl⟩
        · exact (Env.le_tick_seq v).trans (Prog.run_seq_le hr)
        · rw [hdb, Table.hit_of_find? hfind rfl]
          exact Table.find?_update_self (f := fun p : AccountingPeriod => { p with status := .opened }) (fun _ => rfl) hfind
    · rw [if_neg hs, Prog.wp_pure]
      refine h p.id v.tick hsweep ?_ ⟨rfl, Env.le_tick_seq v, rfl⟩ hv.tick ⟨p, Table.find?_key hm, ?_⟩
      · rw [hlocked, decide_eq_false hs, Bool.false_and]
      · cases hp : p.status with
        | opened => rfl
        | closed => exact absurd hp hs

/-- The closing lines do not depend on the periods and on an entry without lines. -/
theorem closingLines_withEntry {db db' : DB} {e : JournalEntry} {date : Date} {retained : ℕ} {name : String}
    (hdb : db' = { db with periods := db'.periods }) (ho : JournalOk db') (hf : db'.entries.Free e.id) :
    closingLines date retained name (db'.withEntry e) = closingLines date retained name db := by
  have hbal : db'.balances date = db.balances date := by
    rw [hdb]
    rfl
  unfold closingLines
  rw [balances_withEntry ho hf, hbal]

/-- The sweep and the calendar, when there is a balance. -/
theorem wp_sweep {id retained : ℕ} {fy : FiscalYear} (hv : Steady (fun _ => False) v)
    (hfy : v.db.years.find? id = some fy) (hbal : v.db.balances fy.endDate ≠ []) {A S : Prop}
    (hA : A ↔ ¬v.db.canSweep fy.endDate ∧ v.db.coveredLocked fy.endDate = false)
    (hS : S ↔ v.db.coveredLocked fy.endDate = false ∧
      (v.db.canSweep fy.endDate → v.db.accepts (closingLines fy.endDate retained fy.name v.db) = true)) :
    Decides A S (do
      let je ← postClosing fy.name fy.endDate retained
      closeCalendar id fy.endDate (some je)) v := by
  rw [Decides, Prog.wp_bind, postClosing_eq, Prog.wp_read_bind, Prog.wp_bind]
  refine wp_closingPeriod hv.tick (fun hno hl e he => .refused (hA.2 ⟨hno, hl⟩) he) (fun hl e he => ?_)
    fun period v₁ hsweep hl hp hv₁ hopen => ?_
  · refine .fault (fun h => ?_) (fun h => ?_) he
    · exact Bool.eq_false_iff.1 (hA.1 h).2 hl
    · exact Bool.eq_false_iff.1 (hS.1 h).1 hl
  have hnot : ¬A := fun h => (hA.1 h).1 hsweep
  rw [Prog.wp_bind]
  refine wp_insertEntry (f := fun n => closingEntry n fy.endDate period v.db.settings.baseCurrency fy.name) hv₁
    (fun _ => rfl) (fun _ => rfl) (fun _ => rfl) (fun _ => hopen) (fun _ => by norm_num [closingEntry])
    (fun _ => hv.rows.rows.2.1) fun je v₂ hw hdb₂ => ?_
  have hselect : closingLines fy.endDate retained fy.name v₂.db = closingLines fy.endDate retained fy.name v.db := by
    rw [hdb₂]
    exact closingLines_withEntry hp.eq hv₁.journal hw.wrote.free
  have haccepts : ∀ ls, v₁.db.accepts ls = v.db.accepts ls := accepts_congr hp.accounts
  rw [Prog.wp_bind]
  refine wp_insertLines (e := closingEntry je fy.endDate period v.db.settings.baseCurrency fy.name) hw hselect ?_
    (fun hno e he => .fault hnot (fun h => ?_) he) fun hacc rows v₃ hb hw₃ => ?_
  · rw [List.map_nil, List.nil_append, closingLines, lineNo_closingLinesFrom]
    exact List.nodup_range'
  · have hok := (haccepts _).trans ((hS.1 h).2 hsweep)
    exact hno (all_accepted_of_accepts hok)
  · have hfy₃ : v₃.db.years.find? id = some fy := by
      rw [hw₃.wrote.eq, hp.eq]
      exact hfy
    rw [Prog.wp_pure]
    refine (wp_closeCalendar hw₃.fresh hfy₃).mono fun res w hr hq => ⟨hnot, ?_⟩
    have hiff : v₁.db.accepts (closingLines fy.endDate retained fy.name v.db) = true ↔ S := by
      rw [haccepts, hS]
      exact ⟨fun h => ⟨hl, fun _ => h⟩, fun h => h.2 hsweep⟩
    rw [← propext hiff]
    exact hw₃.ends rfl ((hw₃.wrote.journaled rfl).ok hv₁.journal) hb (tallies_closingLines hbal) hacc
      (allChange_closeCalendar id retained _ _) (allFresh_closeCalendar _ _ _) hr (by rw [hq.1]) (by rw [hq.1]) hq.2

/-- A check of the close of a year refuses it, or there is no period for its closing entry. -/
def DB.closeRefused (db : DB) (id retained : ℕ) : Prop :=
  db.mayClose id retained = none ∨ ∃ fy, db.mayClose id retained = some fy ∧ db.balances fy.endDate ≠ [] ∧
    ¬db.canSweep fy.endDate ∧ db.coveredLocked fy.endDate = false

def DB.closeSound (db : DB) (id retained : ℕ) : Prop :=
  (∀ ls ∈ (Op.closeFiscalYear id retained).attempts db, db.accepts ls = true) ∧ db.closeRaises id retained = false

section

variable {db : DB} {id retained : ℕ} {fy : FiscalYear}

theorem closeRefused_iff (h : db.mayClose id retained = some fy) : db.closeRefused id retained ↔
    db.balances fy.endDate ≠ [] ∧ ¬db.canSweep fy.endDate ∧ db.coveredLocked fy.endDate = false := by
  constructor
  · rintro (hno | ⟨fy', hfy, hrefused⟩)
    · rw [h] at hno
      cases hno
    · obtain rfl := Option.some.inj (h.symm.trans hfy)
      exact hrefused
  · intro hrefused
    exact .inr ⟨fy, h, hrefused⟩

theorem closeSound_iff (h : db.mayClose id retained = some fy) : db.closeSound id retained ↔
    (db.balances fy.endDate ≠ [] → db.coveredLocked fy.endDate = false ∧
      (db.canSweep fy.endDate → db.accepts (closingLines fy.endDate retained fy.name db) = true)) := by
  have hattempts : (Op.closeFiscalYear id retained).attempts db =
      if db.balances fy.endDate ≠ [] ∧ db.canSweep fy.endDate then [closingLines fy.endDate retained fy.name db]
      else [] := by
    show closeAttempts db id retained = _
    rw [closeAttempts, h]
    rfl
  have hraises : db.closeRaises id retained = (decide (db.balances fy.endDate ≠ []) && db.coveredLocked fy.endDate) := by
    rw [DB.closeRaises, h]
    rfl
  rw [DB.closeSound, hattempts, hraises]
  by_cases hbal : db.balances fy.endDate = []
  · simp [hbal]
  · by_cases hsweep : db.canSweep fy.endDate
    · simp [hbal, hsweep, and_comm]
    · simp [hbal, hsweep]

end

theorem wp_closeRest {id retained : ℕ} {fy : FiscalYear} (hv : Steady (fun _ => False) v)
    (hfy : v.db.years.find? id = some fy) (h : v.db.mayClose id retained = some fy) :
    Decides (v.db.closeRefused id retained) (v.db.closeSound id retained) (closeRest id retained fy) v := by
  show Decides _ _ (do
    let toSweep ← Prog.read fun db => (db.balances fy.endDate).length
    let closing ← postSweep toSweep fy.name fy.endDate retained
    closeCalendar id fy.endDate closing) v
  rw [Decides, Prog.wp_read_bind]
  by_cases hbal : v.db.balances fy.endDate = []
  · have hnot : ¬v.db.closeRefused id retained := fun hno => ((closeRefused_iff h).1 hno).1 hbal
    have hsound : v.db.closeSound id retained := (closeSound_iff h).2 fun hne => absurd hbal hne
    rw [hbal]
    refine (wp_closeCalendar (v := v.tick) hv.tick.fresh hfy).mono fun res w hr hq => ?_
    have hw : Steady (fun _ => False) w := hv.tick.calendar (.closeFiscalYear id retained)
      (allChange_closeCalendar id retained _ _) (allFresh_closeCalendar _ _ _) hr hq.1 hq.2
    exact hw.ends hnot hsound
  · rw [postSweep, if_pos (List.length_pos_iff.2 hbal)]
    have hsweep : Decides (v.db.closeRefused id retained) (v.db.closeSound id retained) (do
        let je ← postClosing fy.name fy.endDate retained
        closeCalendar id fy.endDate (some je)) v.tick := by
      refine wp_sweep hv.tick hfy hbal ?_ ?_
      · rw [closeRefused_iff h]
        exact and_iff_right hbal
      · rw [closeSound_iff h]
        exact ⟨fun hs => hs hbal, fun hs _ => hs⟩
    rw [Decides, Prog.wp_bind] at hsweep
    exact Prog.wp_bind.2 (Prog.wp_bind.2 hsweep)

theorem wp_closeFiscalYear {id retained : ℕ} (hv : Steady (fun _ => False) v) :
    Decides (v.db.closeRefused id retained) (v.db.closeSound id retained) (CloseFiscalYear id retained) v := by
  unfold CloseFiscalYear
  rw [Decides, Prog.wp_query_bind]
  cases hfind : v.db.years.find? id with
  | none =>
    refine ⟨fun e he => ?_, fun _ he => (by cases he)⟩
    cases he
    exact .refused (.inl (by rw [DB.mayClose, hfind]; rfl)) (answered_posting _ _)
  | some fy =>
    refine ⟨fun _ he => (by cases he), fun x hx => ?_⟩
    obtain rfl := Except.ok.inj hx
    have hmay : v.db.mayClose id retained = if (fy.status = .opened &&
        !(v.db.years.rows.any fun y => y.id ≠ id && y.status = .opened && y.startDate < fy.startDate) &&
        (v.db.accounts.find? retained).any fun a => a.isPostable && a.isActive && a.accountType = .equity) = true
          then some fy else none := by
      rw [DB.mayClose, hfind, Option.filter_some]
    have hprior : (v.tick.db.years.rows.any fun y => y.id ≠ id && y.status = .opened &&
        (v.tick.db.years.find? id).any fun fy => y.startDate < fy.startDate) =
          v.db.years.rows.any fun y => y.id ≠ id && y.status = .opened && y.startDate < fy.startDate := by
      rw [Env.tick_db, hfind]
      rfl
    rw [Prog.wp_require_bind]
    refine ⟨fun hf => .refused (.inl ?_) (answered_posting _ _), fun hopen => ?_⟩
    · rw [hmay, hf, Bool.false_and, Bool.false_and, if_neg Bool.false_ne_true]
    rw [Prog.wp_read_bind, hprior, Prog.wp_require_bind]
    refine ⟨fun hf => .refused (.inl ?_) (answered_posting _ _), fun hfirst => ?_⟩
    · rw [hmay, hf, Bool.and_false, Bool.false_and, if_neg Bool.false_ne_true]
    rw [Prog.wp_query_bind]
    cases ha : v.db.accounts.find? retained with
    | none =>
      have ha' : v.tick.tick.db.accounts.find? retained = none := ha
      rw [ha']
      refine ⟨fun e he => ?_, fun _ he => (by cases he)⟩
      cases he
      refine .refused (.inl ?_) (answered_posting _ _)
      rw [hmay, ha, Option.any_none, Bool.and_false, if_neg Bool.false_ne_true]
    | some a =>
      have ha' : v.tick.tick.db.accounts.find? retained = some a := ha
      rw [ha']
      refine ⟨fun _ he => (by cases he), fun b hb => ?_⟩
      obtain rfl := Except.ok.inj hb
      rw [Prog.wp_require_bind]
      refine ⟨fun hf => .refused (.inl ?_) (answered_posting _ _), fun hok => ?_⟩
      · rw [hmay, ha, Option.any_some, hf, Bool.and_false, if_neg Bool.false_ne_true]
      · rw [hopen, hfirst, ha, Option.any_some, hok, Bool.and_self, Bool.and_self, if_pos rfl] at hmay
        exact wp_closeRest hv.tick.tick.tick hfind hmay

/-! ### Reopening -/

/-- The year when the checks of `ReopenFiscalYear` before its first update pass. -/
def DB.reopening (db : DB) (id : ℕ) : Option FiscalYear := (db.years.find? id).filter fun fy =>
  fy.status = .closed && !db.years.rows.any fun y => y.status = .closed && fy.startDate < y.startDate

theorem mayReopen_eq (db : DB) (id : ℕ) : db.mayReopen id = (db.reopening id).bind (·.closingEntryId) := by
  rw [DB.mayReopen, DB.reopening]
  cases db.years.find? id with
  | none => rfl
  | some fy =>
    have hchecks : (fy.status = .closed ∧ ¬db.years.rows.any fun y => y.status = .closed && fy.startDate < y.startDate) ↔
        (fy.status = .closed && !db.years.rows.any fun y => y.status = .closed && fy.startDate < y.startDate) = true := by
      rw [Bool.and_eq_true, decide_eq_true_eq, Bool.not_eq_true', Bool.not_eq_true]
    rw [Option.bind_some, Option.filter_some]
    by_cases h : fy.status = .closed ∧ ¬db.years.rows.any fun y => y.status = .closed && fy.startDate < y.startDate
    · rw [if_pos h, if_pos (hchecks.1 h)]
      rfl
    · rw [if_neg h, if_neg (mt hchecks.2 h)]
      rfl

/-- A check of the reopening of a year refuses it, of its own or of the reversal. -/
def DB.reopenRefused (db : DB) (id : ℕ) : Prop :=
  db.reopening id = none ∨ db.reopenRaises id = false ∧
    ∃ je, db.mayReopen id = some je ∧ (db.reopened id je).reversible je = false

def DB.reopenSound (db : DB) (id : ℕ) : Prop :=
  (∀ ls ∈ (Op.reopenFiscalYear id).attempts db, db.accepts ls = true) ∧ db.reopenRaises id = false

/-- Once the checks pass, the period and the closing entry decide. -/
theorem reopenRefused_iff {db : DB} {id je : ℕ} {fy : FiscalYear} (h : db.reopening id = some fy)
    (hje : fy.closingEntryId = some je) :
    db.reopenRefused id ↔ db.reopenRaises id = false ∧ (db.reopened id je).reversible je = false := by
  have hmay : db.mayReopen id = some je := by rw [mayReopen_eq, h, Option.bind_some, hje]
  constructor
  · rintro (hno | ⟨hraises, je', hje', hno⟩)
    · rw [h] at hno
      cases hno
    · obtain rfl := Option.some.inj (hmay.symm.trans hje')
      exact ⟨hraises, hno⟩
  · rintro ⟨hraises, hno⟩
    exact .inr ⟨hraises, je, hmay, hno⟩

theorem reopenSound_iff {db : DB} {id je : ℕ} {fy : FiscalYear} (h : db.reopening id = some fy)
    (hje : fy.closingEntryId = some je) : db.reopenSound id ↔ db.reopenRaises id = false ∧
      ((db.reopened id je).reversible je = true → db.accepts ((db.reopened id je).mirrored je) = true) := by
  have hmay : db.mayReopen id = some je := by rw [mayReopen_eq, h, Option.bind_some, hje]
  have hattempts : (Op.reopenFiscalYear id).attempts db = (db.reopened id je).reversal je := by
    show (db.mayReopen id).toList.flatMap _ = _
    rw [hmay]
    exact List.append_nil _
  rw [DB.reopenSound, hattempts, DB.reversal, and_comm]
  by_cases hrev : (db.reopened id je).reversible je = true
  · rw [if_pos hrev]
    simp [hrev]
  · rw [if_neg hrev]
    simp [hrev]

/-- The reopening of a year that has a closing entry, once the year is open. -/
theorem wp_reopenEntry {db : DB} {id je : ℕ} {fy : FiscalYear} (hv : Steady (fun _ => False) v)
    (hdb : v.db = db.openedYear id) (hfy : db.reopening id = some fy) (hje : fy.closingEntryId = some je) :
    (do
      setPeriods .opened fun db => db.closedPeriodOf je
      let rev ← reverseEntry je
      pure (some rev) : Txn (Option ℕ)).wp (Verdict (db.reopenRefused id) (db.reopenSound id))
        (fun _ w => ¬db.reopenRefused id ∧ Ends (db.reopenSound id) w) v := by
  have hraises : v.db.anyLocked (v.db.closedPeriodOf je) = db.reopenRaises id := by
    rw [DB.reopenRaises, mayReopen_eq, hfy, Option.bind_some, hje, Option.any_some, hdb]
    rfl
  rw [reopenRefused_iff hfy hje, reopenSound_iff hfy hje, Prog.wp_bind, Prog.wp_iff_run]
  obtain ⟨herr, hok⟩ := Prog.wp_iff_run.1 (wp_openPeriods (v := v) fun db => db.closedPeriodOf je)
  refine ⟨fun e he => ?_, fun u w hr => ?_⟩
  · obtain ⟨hne, hlocked⟩ := herr e he
    rw [hraises] at hlocked
    exact .fault (fun h => Bool.eq_false_iff.1 h.1 hlocked) (fun h => Bool.eq_false_iff.1 h.1 hlocked) hne
  · have hunlocked := hok u w hr
    rw [hraises] at hunlocked
    obtain ⟨hdb', hc⟩ := run_setPeriods hr
    have hw : Steady (fun _ => False) w :=
      hv.calendar (.reopenFiscalYear id) (allChange_setPeriods_opened _) (allFresh_setPeriods _ _) hr (by rw [hdb']) hc
    have hreopened : w.db = db.reopened id je := by
      rw [hdb', hdb]
      rfl
    have haccepts : ∀ ls, w.db.accepts ls = db.accepts ls := accepts_congr (by rw [hreopened]; rfl)
    rw [Prog.wp_bind, ← hreopened]
    refine wp_reverseEntry hw (fun hno err he => .refused ⟨hunlocked, hno⟩ he) (fun hrev hno err he => ?_)
      fun r w' hrev hacc hr' hw' => ?_
    · refine .fault (fun h => Bool.eq_false_iff.1 h.2 hrev) (fun h => ?_) he
      rw [haccepts] at hno
      exact Bool.eq_false_iff.1 hno (h.2 hrev)
    · rw [haccepts] at hacc
      exact hw'.ends (fun h => Bool.eq_false_iff.1 h.2 hrev) ⟨hunlocked, fun _ => hacc⟩

theorem wp_reopenFiscalYear {id : ℕ} (hv : Steady (fun _ => False) v) :
    Decides (v.db.reopenRefused id) (v.db.reopenSound id) (ReopenFiscalYear id) v := by
  unfold ReopenFiscalYear
  rw [Decides, Prog.wp_query_bind]
  cases hfind : v.db.years.find? id with
  | none =>
    refine ⟨fun e he => ?_, fun _ he => (by cases he)⟩
    cases he
    exact .refused (.inl (by rw [DB.reopening, hfind]; rfl)) (answered_posting _ _)
  | some fy =>
    refine ⟨fun _ he => (by cases he), fun x hx => ?_⟩
    obtain rfl := Except.ok.inj hx
    have hreopening : v.db.reopening id = if (fy.status = .closed &&
        !v.db.years.rows.any fun y => y.status = .closed && fy.startDate < y.startDate) = true then some fy else none := by
      rw [DB.reopening, hfind, Option.filter_some]
    have hlater : (v.tick.db.years.rows.any fun y => y.status = .closed &&
        (v.tick.db.years.find? id).any fun fy => fy.startDate < y.startDate) =
          v.db.years.rows.any fun y => y.status = .closed && fy.startDate < y.startDate := by
      rw [Env.tick_db, hfind]
      rfl
    rw [Prog.wp_require_bind]
    refine ⟨fun hf => .refused (.inl ?_) (answered_posting _ _), fun hclosed => ?_⟩
    · rw [hreopening, hf, Bool.false_and, if_neg Bool.false_ne_true]
    rw [Prog.wp_read_bind, hlater, Prog.wp_require_bind]
    refine ⟨fun hf => .refused (.inl ?_) (answered_posting _ _), fun hlast => ?_⟩
    · rw [hreopening, hf, Bool.and_false, if_neg Bool.false_ne_true]
    rw [hclosed, hlast, Bool.and_self, if_pos rfl] at hreopening
    rw [Prog.wp_bind]
    refine wp_updateYear.mono fun u w hr _ => ?_
    obtain ⟨hdb, hc⟩ := run_updateYear hr (show v.tick.tick.db.years.find? id = some fy from hfind)
    have hw : Steady (fun _ => False) w :=
      hv.tick.tick.calendar (.reopenFiscalYear id) (allChange_reopenYear id) (allFresh_updateYear _ _ _) hr
        (by rw [hdb]) hc
    cases hje : fy.closingEntryId with
    | some je => exact wp_reopenEntry hw hdb hreopening hje
    | none =>
      have hmay : v.db.mayReopen id = none := by rw [mayReopen_eq, hreopening, Option.bind_some, hje]
      refine hw.ends ?_ ⟨?_, by rw [DB.reopenRaises, hmay]; rfl⟩
      · rintro (h | ⟨-, je, h, -⟩)
        · rw [hreopening] at h
          cases h
        · rw [hmay] at h
          cases h
      · show ∀ ls ∈ (v.db.mayReopen id).toList.flatMap _, _
        rw [hmay]
        exact fun _ hls => absurd hls List.not_mem_nil
