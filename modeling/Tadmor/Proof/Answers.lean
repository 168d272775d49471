import Tadmor.Proof.Attempts
import Tadmor.Proof.RoundTrip

/-!
# The answers to ledger requests

A request is answered with a server fault only if a line that it comes to insert is not accepted or another trigger
or key refuses it: the other constraints hold in every reachable state.
-/

/-- The error is mapped to a client error. -/
def Err.Answered (e : Err) : Prop := postingStatus e = 404 ∨ postingStatus e = 409 ∨ postingStatus e = 422

theorem answered_posting (e : Posting.Sentinel) (text : String) : (Err.posting e text).Answered := by
  show e.status = 404 ∨ e.status = 409 ∨ e.status = 422
  cases e <;> decide

/-- The errors of constraints and triggers are not. -/
theorem Err.IsSql.not_answered {e : Err} (h : e.IsSql) : ¬e.Answered := by
  obtain ⟨code, message, rfl⟩ := h
  show ¬(500 = 404 ∨ 500 = 409 ∨ 500 = 422)
  decide

/-- What a finished run comes to when its deferred checks are made: they pass if and only if `S` holds, and otherwise
fail with errors that are not mapped. -/
def Ends (S : Prop) (w : Env DB Err) : Prop :=
  (∀ c ∈ w.checks, ∀ e, c w.db = .error e → ¬e.Answered) ∧ ((∀ c ∈ w.checks, c w.db = .ok ()) ↔ S)

theorem Ends.of_passes {S : Prop} {w : Env DB Err} (hs : S) (h : ∀ c ∈ w.checks, c w.db = .ok ()) : Ends S w := by
  refine ⟨fun c hc e he => ?_, iff_of_true h hs⟩
  rw [h c hc] at he
  cases he

/-- The error of a request that its own checks refuse if `A` holds, and otherwise only the tables unless `S` does. -/
def Verdict (A S : Prop) (e : Err) : Prop := A ∧ e.Answered ∨ ¬A ∧ ¬S ∧ ¬e.Answered

theorem Verdict.refused {A S : Prop} {e : Err} (ha : A) (he : e.Answered) : Verdict A S e := .inl ⟨ha, he⟩

theorem Verdict.fault {A S : Prop} {e : Err} (ha : ¬A) (hs : ¬S) (he : ¬e.Answered) : Verdict A S e :=
  .inr ⟨ha, hs, he⟩

/-- Up to its deferred checks, `p` is refused by its own checks if and only if `A` holds, and otherwise by the tables
unless `S` does. -/
def Decides {α : Type} (A S : Prop) (p : Txn α) (v : Env DB Err) : Prop :=
  p.wp (Verdict A S) (fun _ w => ¬A ∧ Ends S w) v

/-- The three ways a request ends. -/
structure Decided {α : Type} (A S : Prop) (p : Txn α) (gaps : ℕ → ℕ) (s : Store DB) : Prop where
  refused : A → ∃ e, p.commit gaps s = .error e ∧ e.Answered
  succeeds : ¬A → S → ∃ x, p.commit gaps s = .ok x
  faults : ¬A → ¬S → ∃ e, p.commit gaps s = .error e ∧ ¬e.Answered

theorem Decides.commit {A S : Prop} {α : Type} {p : Txn α} {gaps : ℕ → ℕ} {s : Store DB}
    (h : Decides A S p ⟨gaps, s.seq, s.db, []⟩) : Decided A S p gaps s := by
  obtain ⟨herr, hok⟩ := Prog.wp_iff_run.1 h
  cases hr : p.run ⟨gaps, s.seq, s.db, []⟩ with
  | error e =>
    have hcommit : p.commit gaps s = .error e := by
      unfold Prog.commit
      rw [hr]
    rcases herr e hr with ⟨ha, he⟩ | ⟨ha, hs, he⟩
    · exact ⟨fun _ => ⟨e, hcommit, he⟩, fun h => absurd ha h, fun h => absurd ha h⟩
    · exact ⟨fun h => absurd h ha, fun _ h => absurd h hs, fun _ _ => ⟨e, hcommit, he⟩⟩
  | ok x =>
    obtain ⟨a, w⟩ := x
    obtain ⟨ha, hne, hiff⟩ := hok a w hr
    cases hp : passAll w.checks w.db with
    | ok u =>
      have hcommit : p.commit gaps s = .ok (a, ⟨w.db, w.seq⟩) := by
        unfold Prog.commit
        rw [hr]
        dsimp only
        rw [hp]
      exact ⟨fun h => absurd h ha, fun _ _ => ⟨_, hcommit⟩, fun _ h => absurd (hiff.1 (passAll_eq_ok.1 hp)) h⟩
    | error e =>
      have hcommit : p.commit gaps s = .error e := by
        unfold Prog.commit
        rw [hr]
        dsimp only
        rw [hp]
      obtain ⟨c, hc, he⟩ := Prog.exists_of_passAll_error hp
      refine ⟨fun h => absurd h ha, fun _ h => ?_, fun _ _ => ⟨e, hcommit, hne c hc e he⟩⟩
      rw [hiff.2 h c hc] at he
      cases he

theorem Decided.commit_iff {A S : Prop} {α : Type} {p : Txn α} {gaps : ℕ → ℕ} {s : Store DB} (h : Decided A S p gaps s) :
    (∃ x, p.commit gaps s = .ok x) ↔ ¬A ∧ S := by
  constructor
  · rintro ⟨x, hx⟩
    constructor
    · intro ha
      obtain ⟨e, he, -⟩ := h.refused ha
      rw [hx] at he
      cases he
    · by_contra hno
      by_cases ha : A
      · obtain ⟨e, he, -⟩ := h.refused ha
        rw [hx] at he
        cases he
      · obtain ⟨e, he, -⟩ := h.faults ha hno
        rw [hx] at he
        cases he
  · rintro ⟨ha, hok⟩
    exact h.succeeds ha hok

theorem Decides.congr {A A' S S' : Prop} {α : Type} {p : Txn α} {v : Env DB Err} (h : Decides A S p v) (hA : A ↔ A')
    (hS : ¬A → (S ↔ S')) : Decides A' S' p v := by
  obtain ⟨herr, hok⟩ := Prog.wp_iff_run.1 h
  refine Prog.wp_iff_run.2 ⟨fun e he => ?_, fun a w hr => ?_⟩
  · rcases herr e he with ⟨ha, he⟩ | ⟨ha, hs, he⟩
    · exact .refused (hA.1 ha) he
    · exact .fault (mt hA.2 ha) (mt (hS ha).2 hs) he
  · obtain ⟨ha, hne, hiff⟩ := hok a w hr
    exact ⟨mt hA.2 ha, hne, hiff.trans (hS ha)⟩

theorem Decides.void {A S : Prop} {α : Type} {p : Txn α} {v : Env DB Err} (h : Decides A S p v) :
    Decides A S (void p) v :=
  Prog.wp_bind.2 h

/-! ### Between two entries -/

/-- What holds of a running request between two entries; `C` are the checks it has deferred besides those of its
entries. -/
structure Steady (C : (DB → Except Err Unit) → Prop) (v : Env DB Err) : Prop where
  fresh : Fresh v.seq v.db
  journal : JournalOk v.db
  ledger : v.db.LedgerOk
  rows : v.db.RowsChecked
  balanced : ∀ je, DB.entryBalanced je v.db = .ok ()
  checks : ∀ c ∈ v.checks, (∃ je, c = DB.entryBalanced je) ∨ C c

variable {C : (DB → Except Err Unit) → Prop} {v w : Env DB Err}

theorem Reachable.steady {s : Store DB} (h : Reachable s) (gaps : ℕ → ℕ) : Steady C ⟨gaps, s.seq, s.db, []⟩ where
  fresh := h.fresh
  journal := h.journalOk
  ledger := h.ledgerOk
  rows := h.rowsChecked
  balanced := h.entryBalanced
  checks := fun _ hc => absurd hc List.not_mem_nil

theorem Steady.tick (h : Steady C v) : Steady C v.tick :=
  ⟨h.fresh.tick, h.journal, h.ledger, h.rows, h.balanced, h.checks⟩

theorem Steady.passes (h : Steady C v) (hC : ∀ c, C c → c v.db = .ok ()) : ∀ c ∈ v.checks, c v.db = .ok () := by
  intro c hc
  rcases h.checks c hc with ⟨je, rfl⟩ | hc
  · exact h.balanced je
  · exact hC c hc

/-- The rows are sound after any part of a request. -/
theorem Steady.run {α : Type} {p : Txn α} {a : α} (h : Steady C v) (op : Op) (hp : AllChange op p) (hf : AllFresh p)
    (hr : p.run v = .ok (a, w)) : Fresh w.seq w.db ∧ w.db.LedgerOk ∧ w.db.RowsChecked := by
  refine ⟨hf.run hr h.fresh, ?_⟩
  exact run_changes (I := fun db _ => db.LedgerOk ∧ db.RowsChecked) hp hf
    (fun hf hi hc => ⟨hc.ledgerOk hf hi.1, hc.rowsChecked hf hi.2⟩) hr h.fresh ⟨h.ledger, h.rows⟩

/-- A part of a request that leaves the journal as it is. -/
theorem Steady.aside {α : Type} {p : Txn α} {a : α} (h : Steady C v) (op : Op) (hp : AllChange op p)
    (hf : AllFresh p) (hr : p.run v = .ok (a, w)) (he : w.db.entries = v.db.entries) (hl : w.db.lines = v.db.lines)
    (hc : ∀ c ∈ w.checks, c ∈ v.checks ∨ C c) : Steady C w := by
  obtain ⟨hfresh, hledger, hrows⟩ := h.run op hp hf hr
  refine ⟨hfresh, ?_, hledger, hrows, fun je => ?_, fun c hm => ?_⟩
  · exact (Journaled.of_same he hl).ok h.journal
  · refine (entryBalanced_congr (by rw [he]) ?_).trans (h.balanced je)
    unfold DB.linesOf
    rw [hl]
  · rcases hc c hm with hm | hm
    · exact h.checks c hm
    · exact .inr hm

/-! ### Balanced lines -/

/-- The deferred check of an entry with the lines `ls`, the ranges of the credits apart. -/
structure Tallies (ls : List NewLine) : Prop where
  moved : (ls.map (·.debit)).sum ≠ 0
  equal : (ls.map (·.debit)).sum = (ls.map (·.credit)).sum
  baseEqual : (ls.map (·.baseDebit)).sum = (ls.map (·.baseCredit)).sum

/-- The check of an entry passes for lines that are in range and balance. -/
theorem entryBalanced_of_lines {db : DB} {je : ℕ} {ls : List NewLine}
    (h : List.Forall₂ (NewLine.Becomes je) ls (db.linesOf je)) (hr : inRange ls = true) (hb : Tallies ls) :
    DB.entryBalanced je db = .ok () := by
  unfold DB.entryBalanced
  cases db.entries.find? je with
  | none => rfl
  | some e =>
    dsimp only
    rw [forall₂_becomes_map h (f := (·.debit)) (g := (·.debit)) fun _ _ _ => rfl,
      forall₂_becomes_map h (f := (·.credit)) (g := (·.credit)) fun _ _ _ => rfl,
      forall₂_becomes_map h (f := (·.baseDebit)) (g := (·.baseDebit)) fun _ _ _ => rfl,
      forall₂_becomes_map h (f := (·.baseCredit)) (g := (·.baseCredit)) fun _ _ _ => rfl]
    simp only [inRange, Bool.and_eq_true] at hr
    obtain ⟨⟨-, hd⟩, hbd⟩ := hr
    rw [← hb.equal, ← hb.baseEqual, hd, hbd]
    simp [hb.moved]

/-! ### Statements -/

/-- An open period has the id. -/
def DB.HasOpen (db : DB) (period : ℕ) : Prop := ∃ p, db.periods.find? period = some p ∧ p.status = .opened

theorem hasOpen_of_openPeriod {db : DB} {date : Date} {p : AccountingPeriod} (h : db.openPeriod date = some p) :
    db.HasOpen p.id := by
  obtain ⟨hm, hs, -⟩ := openPeriod_eq_some h
  exact ⟨p, Table.find?_key hm, hs⟩

theorem DB.HasOpen.periodOpen {db : DB} {period : ℕ} (h : db.HasOpen period) : db.periodOpen period = .ok () := by
  obtain ⟨p, hp, hs⟩ := h
  rw [DB.periodOpen, ensure_eq_ok, Bool.not_eq_true', List.any_eq_false]
  intro q hq hc
  simp only [Bool.and_eq_true, decide_eq_true_eq] at hc
  have hfind : db.periods.find? period = some q := hc.1 ▸ Table.find?_key hq
  obtain rfl := Option.some.inj (hp.symm.trans hfind)
  rw [hs] at hc
  cases hc.2

/-- An entry of an open period. -/
theorem insertEntry_ok {db : DB} {e : JournalEntry} (hp : db.HasOpen e.periodId) (hr : 0 < e.exchangeRate)
    (hc : e.currencyCode ∈ currencies) : ∃ o, insertEntry db e = .ok o := by
  refine ⟨_, insertEntry_eq_ok.2 ⟨⟨hp.periodOpen, hr, ?_, hc⟩, rfl⟩⟩
  obtain ⟨p, hp, -⟩ := hp
  rw [hp]
  rfl

/-- Nothing but the periods has changed. -/
structure SamePeriodsApart (v w : Env DB Err) : Prop where
  eq : w.db = { v.db with periods := w.db.periods }
  seq : v.seq ≤ w.seq
  checks : w.checks = v.checks

theorem SamePeriodsApart.accounts (h : SamePeriodsApart v w) : w.db.accounts = v.db.accounts := by
  rw [h.eq]

/-- A date that `periodForDate` finds a period for can be posted to. -/
theorem canPost_of_periodFor {date : Date} {db db' : DB} {n : ℕ} (hf : db.periods.Below n) (h : PeriodFor date n db db')
    {p : AccountingPeriod} (hp : db'.openPeriod date = some p) : db.canPost date = true := by
  unfold DB.canPost
  rcases h with rfl | ⟨k, fy, hk, hcov, hfy, hname, hover, -⟩
  · rw [hp]
    rfl
  · rw [hcov, hfy, Option.any_some, Bool.not_false, Bool.true_and, Bool.or_eq_true]
    right
    rw [DB.monthFree, List.all_eq_true]
    intro q hq
    have hne : q.id ≠ k := hf.free hk q hq
    simp only [DB.periodNameTaken, List.any_eq_false, Bool.and_eq_true, decide_eq_true_eq, not_and] at hname
    simp only [DB.periodOverlaps, List.any_eq_false, Bool.and_eq_true, decide_eq_true_eq, not_and] at hover
    simp only [Bool.and_eq_true, Bool.not_eq_true', Bool.and_eq_false_iff, decide_eq_false_iff_not]
    constructor
    · by_cases hy : q.fiscalYearId = fy.id
      · exact .inr (hname q hq ⟨hne, hy⟩)
      · exact .inl hy
    · by_cases ho : q.startDate ≤ min date.monthEnd fy.endDate
      · exact .inr (hover q hq ⟨hne, ho⟩)
      · exact .inl ho

/-- No period stands in the way of the month that is created. -/
theorem monthPeriod_free {db : DB} {fy : FiscalYear} {date : Date} {n : ℕ} (h : db.monthFree fy date = true) :
    (db.periodNameTaken (monthPeriod n fy date) || db.periodOverlaps (monthPeriod n fy date)) = false := by
  rw [DB.monthFree, List.all_eq_true] at h
  rw [Bool.or_eq_false_iff, DB.periodNameTaken, DB.periodOverlaps, List.any_eq_false, List.any_eq_false]
  constructor
  · intro q hq ht
    obtain ⟨hname, -⟩ := Bool.and_eq_true_iff.1 (h q hq)
    simp only [monthPeriod, Bool.and_eq_true] at ht
    simp [of_decide_eq_true ht.1.2, of_decide_eq_true ht.2] at hname
  · intro q hq ht
    obtain ⟨-, hover⟩ := Bool.and_eq_true_iff.1 (h q hq)
    simp only [monthPeriod, Bool.and_eq_true] at ht
    simp [of_decide_eq_true ht.1.2, of_decide_eq_true ht.2] at hover

/-- The month that is created covers the date. -/
theorem openPeriod_insertMonth {db : DB} {date : Date} {n k : ℕ} {fy : FiscalYear} (hf : db.periods.Below n) (hk : n ≤ k)
    (hfy : db.openYear date = some fy) :
    (({ db with periods := db.periods.insert (monthPeriod k fy date) } : DB).openPeriod date).isSome := by
  obtain ⟨-, hstart, hend, -⟩ := openYear_eq_some hfy
  have hmem : monthPeriod k fy date ∈ db.periods.insert (monthPeriod k fy date) :=
    (Table.mem_insert (hf.free hk)).2 (.inr rfl)
  rw [Option.isSome_iff_ne_none, DB.openPeriod, ne_eq, List.argmin_eq_none, List.filter_eq_nil_iff, not_forall]
  refine ⟨monthPeriod k fy date, fun h => h hmem ?_⟩
  have hcovers : (monthPeriod k fy date).Covers date :=
    ⟨max_le date.monthStart_le hstart, le_min date.le_monthEnd hend⟩
  rw [decide_eq_true hcovers.1, decide_eq_true hcovers.2]
  rfl

/-- A date that can be posted to has a period, or one is created. -/
theorem wp_periodForDate_of_canPost {date : Date} (hv : v.db.periods.Below v.seq) (h : v.db.canPost date = true) :
    (periodForDate date).wp (fun _ => False) (fun _ _ => True) v := by
  unfold periodForDate
  rw [Prog.wp_read_bind]
  cases ho : v.db.openPeriod date with
  | some p => trivial
  | none =>
    rw [DB.canPost, ho, Option.isSome_none, Bool.false_or, Bool.and_eq_true, Bool.not_eq_true'] at h
    obtain ⟨hcov, hyear⟩ := h
    obtain ⟨fy, hfy, hfree⟩ := (Option.any_eq_true ..).1 hyear
    dsimp only
    rw [Prog.wp_read_bind, Prog.wp_require_bind]
    have hcov' : (!(v.tick.db.covered date)) = true := by
      rw [Bool.not_eq_true']
      exact hcov
    refine ⟨fun hc => ?_, fun _ => ?_⟩
    · rw [hcov'] at hc
      cases hc
    · rw [Prog.wp_bind, insertMonth, Prog.wp_exec]
      have hfree' : (v.tick.tick.db.periodNameTaken (monthPeriod (v.tick.tick.seq + v.tick.tick.gaps 0) fy date) ||
          v.tick.tick.db.periodOverlaps (monthPeriod (v.tick.tick.seq + v.tick.tick.gaps 0) fy date)) = false :=
        monthPeriod_free hfree
      have hfy' : v.tick.tick.db.openYear date = some fy := hfy
      rw [hfy']
      dsimp only
      rw [if_neg (Bool.eq_false_iff.1 hfree')]
      refine ⟨fun e he => ?_, fun o ho' => ?_⟩
      · cases he
      · obtain rfl := Except.ok.inj ho'
        rw [Prog.wp_read_bind]
        have hbelow := hv.mono ((Env.le_tick_seq v).trans (Env.le_tick_seq v.tick))
        have hopen := openPeriod_insertMonth hbelow (k := v.tick.tick.seq + v.tick.tick.gaps 0) (Nat.le_add_right ..) hfy
        split
        · trivial
        · rename_i hnone
          exact absurd (Option.isSome_iff_ne_none.1 hopen) (not_not_intro hnone)

theorem wp_periodForDate {date : Date} {Q : ℕ → Env DB Err → Prop} {E : Err → Prop} (hv : Steady C v)
    (herr : v.db.canPost date = false → ∀ e, e.Answered → E e)
    (h : ∀ period w, v.db.canPost date = true → SamePeriodsApart v w → Steady C w → w.db.HasOpen period → Q period w) :
    (periodForDate date).wp E Q v := by
  rw [Prog.wp_iff_run]
  constructor
  · intro e he
    cases hc : v.db.canPost date with
    | true => exact ((Prog.wp_iff_run.1 (wp_periodForDate_of_canPost hv.fresh.periods hc)).1 e he).elim
    | false =>
      exact herr hc e (Prog.Throws.run_error (throws_periodForDate (fun _ => answered_posting _ _) date) he)
  · intro period w hr
    obtain ⟨hp, hc, p, hopen, rfl⟩ := run_periodForDate hr
    refine h _ w (canPost_of_periodFor hv.fresh.periods hp hopen) ⟨hp.eq, Prog.run_seq_le hr, hc⟩ ?_ (hasOpen_of_openPeriod hopen)
    refine hv.aside .createWarehouse (allChange_periodForDate _) (allFresh_periodForDate _) hr ?_ ?_ fun c hm => ?_
    · rw [hp.eq]
    · rw [hp.eq]
    · exact .inl (hc ▸ hm)

/-! ### Writing an entry -/

/-- Since `v₀` the entry `e` was inserted, with the lines `rows` so far. -/
structure Writing (C : (DB → Except Err Unit) → Prop) (v₀ : Env DB Err) (e : JournalEntry) (rows : List JournalLine)
    (v : Env DB Err) : Prop where
  before : Steady C v₀
  wrote : Wrote v₀.seq v₀.db v.db e rows
  fresh : Fresh v.seq v.db
  ledger : v.db.LedgerOk
  rowsOk : v.db.RowsChecked
  deferred : DB.entryBalanced e.id ∈ v.checks
  checks : ∀ c ∈ v.checks, c ∈ v₀.checks ∨ c = DB.entryBalanced e.id

variable {v₀ : Env DB Err} {e : JournalEntry} {rows : List JournalLine} {E : Err → Prop}

/-- An entry is complete when its lines balance. -/
theorem Writing.steady {ls : List NewLine} (h : Writing C v₀ e rows v) (hj : JournalOk v.db)
    (hl : List.Forall₂ (NewLine.Becomes e.id) ls rows) (hr : inRange ls = true) (hb : Tallies ls) : Steady C v := by
  refine ⟨h.fresh, hj, h.ledger, h.rowsOk, fun je => ?_, fun c hc => ?_⟩
  · by_cases hje : e.id = je
    · subst hje
      have hlines : List.Forall₂ (NewLine.Becomes e.id) ls (v.db.linesOf e.id) := by
        rwa [h.wrote.linesOf h.before.journal]
      exact entryBalanced_of_lines hlines hr hb
    · refine (entryBalanced_congr ?_ ?_).trans (h.before.balanced je)
      · rw [h.wrote.eq]
        exact Table.find?_insert_of_ne hje
      · rw [h.wrote.eq]
        exact linesOf_insertAll h.wrote.linesFree fun l hl' => h.wrote.own l hl' ▸ hje
  · rcases h.checks c hc with hc | rfl
    · exact h.before.checks c hc
    · exact .inl ⟨e.id, rfl⟩

theorem rateFor_pos {db : DB} (h : db.RowsOk) {currency : String} {date : Date} {rate : ℤ}
    (hr : db.rateFor currency date = some rate) : 0 < rate := by
  unfold DB.rateFor at hr
  split at hr
  · obtain rfl := Option.some.inj hr
    norm_num
  · obtain ⟨r, hm, rfl⟩ := Option.map_eq_some_iff.1 hr
    exact h.1 r (List.mem_filter.1 (List.argmax_mem hm)).1

/-- The insertion of an entry does not fail in an open period. -/
theorem wp_insertEntry {r : ℕ → DB → Except Err (Outcome DB Lock Err ℕ)} {f : ℕ → JournalEntry}
    {Q : ℕ → Env DB Err → Prop} (hv : Steady C v) (hr : ∀ n, r n v.db = insertEntry v.db (f n)) (hid : ∀ n, (f n).id = n)
    (hs : ∀ n, (f n).status = .posted) (hp : ∀ n, v.db.HasOpen (f n).periodId) (hpos : ∀ n, 0 < (f n).exchangeRate)
    (hc : ∀ n, (f n).currencyCode ∈ currencies)
    (h : ∀ n w, Writing C v (f n) [] w → w.db = { v.db with entries := v.db.entries.insert (f n) } → Q n w) :
    (Prog.exec r).wp E Q v := by
  rw [Prog.wp_exec, hr]
  obtain ⟨o, ho⟩ := insertEntry_ok (hp (v.seq + v.gaps 0)) (hpos _) (hc _)
  rw [ho]
  refine ⟨fun e he => ?_, fun o' ho' => ?_⟩
  · cases he
  · obtain rfl : o = o' := by simpa using ho'
    have hn : v.seq ≤ v.seq + v.gaps 0 := Nat.le_add_right ..
    have hfresh := hv.fresh.mono _ _ _ hn
    have hchange : Change _ v.db .createWarehouse (o.act v.db) o.checks := changes_insertEntry (hid _) (hs _) ho
    have hwriting : Writing C v (f (v.seq + v.gaps 0)) [] (v.after o) := by
      refine ⟨hv, ?_, keepsFresh_insertEntry (hid _) hfresh ho, hchange.ledgerOk hfresh hv.ledger,
        hchange.rowsChecked hfresh hv.rows, ?_, ?_⟩
      · obtain ⟨-, rfl⟩ := insertEntry_eq_ok.1 ho
        exact Wrote.of_insertEntry hv.fresh (hn.trans_eq (hid _).symm) rfl
      · obtain ⟨-, rfl⟩ := insertEntry_eq_ok.1 ho
        exact List.mem_append_right _ (List.mem_singleton_self _)
      · obtain ⟨-, rfl⟩ := insertEntry_eq_ok.1 ho
        exact fun c hm => (List.mem_append.1 hm).imp_right List.mem_singleton.1
    obtain ⟨-, rfl⟩ := insertEntry_eq_ok.1 ho
    exact (congrArg (fun k => Q k _) (hid (v.seq + v.gaps 0))).mpr (h _ _ hwriting rfl)

theorem wp_createEntry {date : Date} {period : ℕ} {currency memo reference : String} {Q : ℕ → Env DB Err → Prop}
    (hv : Steady C v) (hp : v.db.HasOpen period) (hc : currency ∈ currencies)
    (h : ∀ rate n w, v.db.rateFor currency date = some rate → 0 < rate →
      Writing C v (entryOf n date period currency rate memo reference) [] w →
      w.db = { v.db with entries := v.db.entries.insert (entryOf n date period currency rate memo reference) } →
      Q n w) (herr : v.db.rateFor currency date = none → ∀ e, e.Answered → E e) :
    (createEntry date period currency memo reference).wp E Q v := by
  unfold createEntry
  cases hrate : v.db.rateFor currency date with
  | none =>
    rw [Prog.wp_exec, hrate]
    refine ⟨fun e he => ?_, fun o ho => ?_⟩
    · cases he
      exact herr hrate _ (answered_posting _ _)
    · cases ho
  | some rate =>
    have hpos := rateFor_pos hv.rows.rows hrate
    refine wp_insertEntry (f := fun n => entryOf n date period currency rate memo reference) hv (fun n => ?_)
      (fun n => rfl) (fun n => rfl) (fun n => hp) (fun n => hpos) (fun n => hc) fun n w hw hdb => h rate n w hrate hpos hw hdb
    rw [hrate]
    rfl

theorem newRows_ok {db : DB} {ls : List NewLine} (h : ∀ l ∈ ls, l.accepted db = true) (je n : ℕ) :
    ∃ rows, newRows db je n ls = .ok rows := by
  induction ls generalizing n with
  | nil => exact ⟨[], rfl⟩
  | cons l ls ih =>
    obtain ⟨rows, hrows⟩ := ih (fun x hx => h x (List.mem_cons_of_mem _ hx)) (n + 1)
    obtain ⟨a, ha, hok⟩ := (Option.any_eq_true ..).1 (h l (List.mem_cons_self ..))
    have hcheck : (l.row je n a).check db = .ok () := check_eq_ok.2 (Bool.and_eq_true_iff.1 hok)
    refine ⟨l.row je n a :: rows, ?_⟩
    rw [newRows, ha]
    dsimp only
    rw [hcheck, hrows]
    rfl

theorem accepted_congr {db db' : DB} (h : db'.accounts = db.accounts) (l : NewLine) : l.accepted db' = l.accepted db := by
  unfold NewLine.accepted DB.takes
  rw [h]

theorem accepted_of_newRows {db : DB} {je n : ℕ} {ls : List NewLine} {rows : List JournalLine}
    (h : newRows db je n ls = .ok rows) : ∀ l ∈ ls, l.accepted db = true := by
  induction ls generalizing n rows with
  | nil => exact fun l hl => absurd hl List.not_mem_nil
  | cons x ls ih =>
    unfold newRows at h
    split at h
    · cases h
    · rename_i account ha
      simp only [Except.bind_eq_ok_iff, Except.ok.injEq] at h
      obtain ⟨u, hc, rows', h', rfl⟩ := h
      intro l hl
      rcases List.mem_cons.1 hl with rfl | hl
      · rw [NewLine.accepted, ha, Option.any_some, Bool.and_eq_true]
        exact check_eq_ok.1 hc
      · exact ih h' l hl

/-- The insertion of lines that have numbers of their own fails only if one is not accepted. -/
theorem wp_insertLines {select : DB → List NewLine} {ls : List NewLine} {Q : Unit → Env DB Err → Prop}
    (hw : Writing C v₀ e rows v) (hls : select v.db = ls) (hnum : (rows.map (·.lineNo) ++ ls.map (·.lineNo)).Nodup)
    (herr : (¬∀ l ∈ ls, l.accepted v₀.db = true) → ∀ e, ¬e.Answered → E e)
    (h : (∀ l ∈ ls, l.accepted v₀.db = true) → ∀ more w, List.Forall₂ (NewLine.Becomes e.id) ls more →
      Writing C v₀ e (rows ++ more) w → Q () w) :
    (insertLines e.id select).wp E Q v := by
  have hcongr : ∀ l : NewLine, l.accepted v.db = l.accepted v₀.db := accepted_congr (by rw [hw.wrote.eq])
  have hfail : (insertLines e.id select).wp (fun _ => ¬∀ l ∈ ls, l.accepted v₀.db = true) (fun _ _ => True) v := by
    unfold insertLines
    rw [Prog.wp_exec, hls]
    refine ⟨fun e' he hacc => ?_, fun _ _ => trivial⟩
    obtain ⟨more, hmore⟩ := newRows_ok (fun l hl => (hcongr l).trans (hacc l hl)) e.id (v.seq + v.gaps 0)
    have hnos : more.map (·.lineNo) = ls.map (·.lineNo) :=
      forall₂_becomes_map (newRows_forall₂ hmore) fun _ _ _ => rfl
    rw [← hnos, List.nodup_append] at hnum
    obtain ⟨-, hn, hdisj⟩ := hnum
    have hok : ensure ((more.map (·.lineNo)).Nodup ∧
        ∀ l ∈ more, ∀ m ∈ v.db.lines.rows, m.journalEntryId = e.id → m.lineNo ≠ l.lineNo)
        (.sql .uniqueViolation "journal_lines_line_no_uq") = .ok () := by
      refine ensure_eq_ok.2 (decide_eq_true ⟨hn, fun l hl m hm hje => ?_⟩)
      have hmem : m ∈ v.db.linesOf e.id := List.mem_filter.2 ⟨hm, decide_eq_true hje⟩
      rw [hw.wrote.linesOf hw.before.journal] at hmem
      exact hdisj _ (List.mem_map_of_mem hmem) _ (List.mem_map_of_mem hl)
    rw [hmore] at he
    change (ensure _ _ >>= fun _ => _) = Except.error e' at he
    rw [hok] at he
    cases he
  rw [Prog.wp_iff_run]
  constructor
  · intro e' he
    refine herr ((Prog.wp_iff_run.1 hfail).1 e' he) e' ?_
    exact Prog.Throws.run_error (throws_insertLines (fun _ hsql => hsql.not_answered) _ _) he
  · intro u w hr
    obtain ⟨n, rows', -, hrows', -⟩ := run_insertLines hr
    obtain ⟨more, hb, hw', hc⟩ := hw.wrote.lines hw.fresh hr
    rw [hls] at hb
    have hfresh := (allFresh_insertLines _ _).run hr hw.fresh
    obtain ⟨hledger, hrows⟩ := run_changes (I := fun db _ => db.LedgerOk ∧ db.RowsChecked)
      (show AllChange .createWarehouse _ from allChange_insertLines _ _) (allFresh_insertLines _ _)
      (fun hf hi hc => ⟨hc.ledgerOk hf hi.1, hc.rowsChecked hf hi.2⟩) hr hw.fresh ⟨hw.ledger, hw.rowsOk⟩
    have hacc : ∀ l ∈ ls, l.accepted v₀.db = true := fun l hl =>
      (hcongr l).symm.trans (accepted_of_newRows hrows' l (hls ▸ hl))
    refine h hacc more w hb ⟨hw.before, hw', hfresh, hledger, hrows, ?_, fun c hm => ?_⟩
    · rw [hc]
      exact List.mem_append_left _ hw.deferred
    · rw [hc, List.mem_append] at hm
      rcases hm with hm | hm
      · exact hw.checks c hm
      · obtain ⟨l, -, rfl⟩ := List.mem_map.1 hm
        exact .inr rfl

/-! ### Ending -/

theorem inRange_of_accepted {db : DB} {l : NewLine} (h : l.accepted db = true) : l.inRange = true := by
  obtain ⟨a, -, hok⟩ := (Option.any_eq_true ..).1 h
  simp only [JournalLine.valid, Bool.and_eq_true] at hok
  obtain ⟨⟨⟨⟨⟨hfits, -⟩, -⟩, -⟩, -⟩, -⟩ := hok
  simp only [NewLine.inRange, Bool.and_eq_true]
  exact hfits

/-- For lines that are accepted, the check of their entry is one of the range of the sums. -/
theorem inRange_of_entryBalanced {db db₀ : DB} {je : ℕ} {x : JournalEntry} {ls : List NewLine}
    (hx : db.entries.find? je = some x) (hs : x.status = .posted)
    (h : List.Forall₂ (NewLine.Becomes je) ls (db.linesOf je)) (hacc : ∀ l ∈ ls, l.accepted db₀ = true)
    (hok : DB.entryBalanced je db = .ok ()) : inRange ls = true := by
  unfold DB.entryBalanced at hok
  rw [hx] at hok
  dsimp only at hok
  rw [if_neg (not_not_intro hs), forall₂_becomes_map h (f := (·.debit)) (g := (·.debit)) fun _ _ _ => rfl,
    forall₂_becomes_map h (f := (·.baseDebit)) (g := (·.baseDebit)) fun _ _ _ => rfl] at hok
  by_cases hfits : fits (ls.map (·.debit)).sum = true ∧ fits (ls.map (·.baseDebit)).sum = true
  · simp only [inRange, Bool.and_eq_true, List.all_eq_true]
    exact ⟨⟨fun l hl => inRange_of_accepted (hacc l hl), hfits.1⟩, hfits.2⟩
  · rw [if_pos] at hok
    · cases hok
    · rw [Bool.not_eq_true', Bool.eq_false_iff]
      simp only [ne_eq, Bool.and_eq_true]
      exact fun hall => hfits ⟨hall.1.1.1, hall.1.2⟩

/-- A request ends with a part that leaves the entry and its lines as they were inserted. -/
theorem Writing.ends {ls : List NewLine} {α : Type} {p : Txn α} {a : α} (h : Writing (fun _ => False) v₀ e rows v)
    (hs : e.status = .posted) (hj : JournalOk v.db) (hl : List.Forall₂ (NewLine.Becomes e.id) ls rows) (hb : Tallies ls)
    (hacc : ∀ l ∈ ls, l.accepted v₀.db = true) {op : Op} (hp : AllChange op p) (hf : AllFresh p)
    (hr : p.run v = .ok (a, w)) (he : w.db.entries = v.db.entries) (hl' : w.db.lines = v.db.lines)
    (hc : w.checks = v.checks) : Ends (v₀.db.accepts ls = true) w := by
  have haccepts : v₀.db.accepts ls = inRange ls := by
    rw [DB.accepts, List.all_eq_true.2 hacc, Bool.true_and]
  by_cases hrange : inRange ls = true
  · have hsteady := (h.steady hj hl hrange hb).aside op hp hf hr he hl' fun c hm => .inl (hc ▸ hm)
    exact .of_passes (haccepts.trans hrange) (hsteady.passes fun c hfalse => hfalse.elim)
  · refine ⟨fun c hm e' he' => ?_, iff_of_false (fun hpass => ?_) fun hok => hrange (haccepts.symm.trans hok)⟩
    · rcases h.checks c (hc ▸ hm) with hm | rfl
      · rcases h.before.checks c hm with ⟨je, rfl⟩ | hfalse
        · exact (isSql_of_entryBalanced he').not_answered
        · exact hfalse.elim
      · exact (isSql_of_entryBalanced he').not_answered
    · have hlines : w.db.linesOf e.id = rows := by
        unfold DB.linesOf
        rw [hl']
        exact h.wrote.linesOf h.before.journal
      have hfind : w.db.entries.find? e.id = some e := by
        rw [he]
        exact h.wrote.find?
      exact hrange (inRange_of_entryBalanced hfind hs (hlines.symm ▸ hl) hacc (hpass _ (hc ▸ h.deferred)))

/-! ### Entries of two inserts -/

theorem accepts_congr {db db' : DB} (h : db'.accounts = db.accounts) (ls : List NewLine) :
    db'.accepts ls = db.accepts ls := by
  unfold DB.accepts
  rw [show NewLine.accepted db' = NewLine.accepted db from funext (accepted_congr h)]

theorem all_accepted_of_accepts {db : DB} {ls : List NewLine} (h : db.accepts ls = true) :
    ∀ l ∈ ls, l.accepted db = true :=
  List.all_eq_true.1 (Bool.and_eq_true_iff.1 h).1

/-- The lines of an entry that are inserted by two statements. -/
theorem wp_insertTwice {α : Type} {s₁ s₂ : DB → List NewLine} {xs ys : List NewLine} {k : Txn α}
    {Q : α → Env DB Err → Prop} (hw : Writing C v₀ e [] v) (h₁ : s₁ v.db = xs)
    (h₂ : ∀ rows w, List.Forall₂ (NewLine.Becomes e.id) xs rows → Writing C v₀ e rows w → s₂ w.db = ys)
    (hnum : ((xs ++ ys).map (·.lineNo)).Nodup)
    (herr : (¬∀ l ∈ xs ++ ys, l.accepted v₀.db = true) → ∀ e, ¬e.Answered → E e)
    (h : (∀ l ∈ xs ++ ys, l.accepted v₀.db = true) → ∀ rows w, List.Forall₂ (NewLine.Becomes e.id) (xs ++ ys) rows →
      Writing C v₀ e rows w → k.wp E Q w) :
    (do insertLines e.id s₁; insertLines e.id s₂; k).wp E Q v := by
  rw [List.map_append] at hnum
  rw [Prog.wp_bind]
  refine wp_insertLines hw h₁ (List.nodup_append.1 hnum).1 (fun hxs => herr fun hall => hxs fun l hl => ?_) ?_
  · exact hall l (List.mem_append_left _ hl)
  · intro hxs rows w hr hw'
    have hnos : rows.map (·.lineNo) = xs.map (·.lineNo) := forall₂_becomes_map hr fun _ _ _ => rfl
    rw [Prog.wp_bind]
    refine wp_insertLines hw' (h₂ _ _ hr hw') (by rwa [List.nil_append, hnos]) (fun hys => herr fun hall => hys fun l hl => ?_) ?_
    · exact hall l (List.mem_append_right _ hl)
    · intro hys more w' hm hw''
      exact h (fun l hl => (List.mem_append.1 hl).elim (hxs l) (hys l)) _ _ (List.rel_append hr hm) hw''

/-- A request that ends with an update of another table. -/
theorem Writing.wp_ends {ls : List NewLine} {p : Txn Unit} {n : ℕ} {A S : Prop}
    (hA : ¬A) (h : Writing (fun _ => False) v₀ e rows v) (hs : e.status = .posted) (hrev : e.reversesEntryId = none)
    (hl : List.Forall₂ (NewLine.Becomes e.id) ls rows) (hb : Tallies ls) (hacc : ∀ l ∈ ls, l.accepted v₀.db = true)
    (op : Op) (hp : AllChange op p) (hf : AllFresh p) (hS : p.wp E (fun _ _ => v₀.db.accepts ls = true ↔ S) v)
    (hrun : ∀ w, p.run v = .ok ((), w) →
      w.db.entries = v.db.entries ∧ w.db.lines = v.db.lines ∧ w.checks = v.checks) :
    (do p; pure n).wp E (fun _ w => ¬A ∧ Ends S w) v := by
  rw [Prog.wp_bind]
  refine hS.mono fun u w hr hiff => ?_
  obtain ⟨he, hlines, hc⟩ := hrun w hr
  rw [Prog.wp_pure, ← propext hiff]
  refine ⟨hA, ?_⟩
  exact h.ends hs ((h.wrote.journaled hrev).ok h.before.journal) hl hb hacc hp hf hr he hlines hc
