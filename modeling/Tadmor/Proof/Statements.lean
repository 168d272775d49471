import Tadmor.Proof.Frame

/-!
# What the shared statements do

For each statement that posting, unposting and the year end share, what a run of it that does not fail changes and
what it has checked.
-/

theorem AllFresh.run {α : Type} {p : Txn α} (hp : AllFresh p) {v w : Env DB Err} {a : α}
    (h : p.run v = .ok (a, w)) (hv : Fresh v.seq v.db) : Fresh w.seq w.db :=
  Prog.run_keeps Fresh.mono hp h hv

theorem Fresh.tick {v : Env DB Err} (hv : Fresh v.seq v.db) : Fresh v.tick.seq v.tick.db :=
  hv.mono _ _ _ (Env.le_tick_seq v)

/-! ### Rows by primary key -/

namespace Table

variable {α κ : Type} [Keyed α κ] [DecidableEq κ] {t : Table α} {k : κ} {p : α → Bool}

theorem mem_hit {k' : κ} : k' ∈ t.hit k p ↔ k' = k ∧ ∃ a, t.find? k = some a ∧ p a = true := by
  unfold hit
  cases h : t.find? k with
  | none => simp
  | some a =>
    by_cases hp : p a = true
    · simp [hp]
    · simp [hp]

theorem hit_of_find? {a : α} (h : t.find? k = some a) (hp : p a = true) : t.hit k p = [k] := by
  simp [hit, h, hp]

theorem hit_ne_nil (h : t.hit k p ≠ []) : t.hit k p = [k] ∧ ∃ a, t.find? k = some a ∧ p a = true := by
  unfold hit at h ⊢
  cases hf : t.find? k with
  | none => simp [hf] at h
  | some a =>
    by_cases hp : p a = true
    · exact ⟨by simp [hp], a, rfl, hp⟩
    · simp [hf, hp] at h

end Table

/-! ### Periods -/

def AccountingPeriod.Covers (p : AccountingPeriod) (date : Date) : Prop := p.startDate ≤ date ∧ date ≤ p.endDate

def FiscalYear.Covers (y : FiscalYear) (date : Date) : Prop := y.startDate ≤ date ∧ date ≤ y.endDate

/-- The calendar lets a posting have the date: an open period covers it, or no period and an open year. -/
def DB.OpenOn (db : DB) (date : Date) : Prop :=
  (∃ p ∈ db.periods, p.status = .opened ∧ p.Covers date) ∨
    (∀ p ∈ db.periods, ¬p.Covers date) ∧ ∃ y ∈ db.years, y.status = .opened ∧ y.Covers date

theorem DB.OpenOn.congr {db db' : DB} {date : Date} (h : db'.OpenOn date) (hp : db'.periods = db.periods)
    (hy : db'.years = db.years) : db.OpenOn date := by
  unfold DB.OpenOn at *
  rwa [hp, hy] at h

/-- Between `db` and `db'` something of the date was posted: the calendar let it, and lets nothing more since. -/
structure DB.Posted (db : DB) (date : Date) (db' : DB) : Prop where
  date : db.OpenOn date
  less : ∀ d, db'.OpenOn d → db.OpenOn d

theorem DB.Posted.congr {a b b' : DB} {date : Date} (h : a.Posted date b) (hp : b'.periods = b.periods)
    (hy : b'.years = b.years) : a.Posted date b' :=
  ⟨h.date, fun d hd => h.less d (hd.congr hp hy)⟩

theorem openYear_eq_some {db : DB} {date : Date} {fy : FiscalYear} (h : db.openYear date = some fy) :
    fy ∈ db.years ∧ fy.startDate ≤ date ∧ date ≤ fy.endDate ∧ fy.status = .opened := by
  have hm := List.argmin_mem h
  simp only [List.mem_filter, Bool.and_eq_true, decide_eq_true_eq] at hm
  exact ⟨hm.1, hm.2.1.1, hm.2.1.2, hm.2.2⟩

theorem openPeriod_eq_some {db : DB} {date : Date} {p : AccountingPeriod} (h : db.openPeriod date = some p) :
    p ∈ db.periods ∧ p.status = .opened ∧ p.Covers date := by
  have hm := List.argmin_mem h
  simp only [List.mem_filter, Bool.and_eq_true, decide_eq_true_eq] at hm
  exact ⟨hm.1, hm.2.2, hm.2.1⟩

/-- A period that overlaps no other shares no date with one. -/
theorem not_covers_of_not_overlaps {db : DB} {p q : AccountingPeriod} (h : db.periodOverlaps p = false)
    (hq : q ∈ db.periods) (hne : q.id ≠ p.id) {date : Date} (hp : p.Covers date) : ¬q.Covers date := by
  intro hc
  simp only [DB.periodOverlaps, List.any_eq_false, Table.mem_rows] at h
  have hno := h q hq
  simp only [ne_eq, hne, not_false_eq_true, decide_true, Bool.true_and, Bool.and_eq_true, decide_eq_true_eq,
    not_and, not_le] at hno
  exact absurd (hp.1.trans hc.2) (not_le.2 (hno (hc.1.trans hp.2)))

/-- `periodForDate` leaves the periods as they are, or creates the month of `date`. -/
def PeriodFor (date : Date) (lo : ℕ) (db db' : DB) : Prop :=
  db' = db ∨ ∃ n fy, lo ≤ n ∧ db.covered date = false ∧ db.openYear date = some fy ∧
    db.periodNameTaken (monthPeriod n fy date) = false ∧ db.periodOverlaps (monthPeriod n fy date) = false ∧
    db' = { db with periods := db.periods.insert (monthPeriod n fy date) }

theorem PeriodFor.eq {date : Date} {lo : ℕ} {db db' : DB} (h : PeriodFor date lo db db') :
    db' = { db with periods := db'.periods } := by
  rcases h with rfl | ⟨n, fy, -, -, -, -, -, rfl⟩
  · rfl
  · rfl

/-- The month that `periodForDate` creates opens no date that was not open. -/
theorem PeriodFor.less {date : Date} {lo : ℕ} {db db' : DB} (h : PeriodFor date lo db db') {d : Date}
    (hd : db'.OpenOn d) : db.OpenOn d := by
  rcases h with rfl | ⟨n, fy, -, -, hfy, -, hover, rfl⟩
  · exact hd
  obtain ⟨hm, -, -, hopen⟩ := openYear_eq_some hfy
  rcases hd with ⟨p, hp, hs, hc⟩ | ⟨hno, hy⟩
  · rcases Table.mem_of_mem_insert hp with hold | rfl
    · exact .inl ⟨p, hold, hs, hc⟩
    · by_cases hold : monthPeriod n fy date ∈ db.periods
      · exact .inl ⟨_, hold, hs, hc⟩
      · -- no period of `db` covers a day of the month
        refine .inr ⟨fun q hq => not_covers_of_not_overlaps hover hq (fun e => ?_) hc, fy, hm, hopen, ?_⟩
        · have hmem : Keyed.key (monthPeriod n fy date) ∈ db.periods.rows.map Keyed.key := List.mem_map.2 ⟨q, hq, e⟩
          have hsame : db.periods.insert (monthPeriod n fy date) = db.periods := by
            rw [Table.insert, dif_pos hmem]
          exact hold (hsame ▸ hp)
        · exact ⟨(le_max_right _ _).trans hc.1, hc.2.trans (min_le_right _ _)⟩
  · exact .inr ⟨fun p hp => hno p (Table.mem_insert_of_mem hp), hy⟩

theorem run_insertMonth {date : Date} {v w : Env DB Err} {u : Unit}
    (h : (insertMonth date).run v = .ok (u, w)) (hc : v.db.covered date = false) :
    PeriodFor date v.seq v.db w.db ∧ w.checks = v.checks := by
  obtain ⟨o, ho, -, rfl⟩ := Prog.run_exec_ok.1 h
  split at ho
  · cases ho
    exact ⟨.inl rfl, List.append_nil _⟩
  · rename_i fy hfy
    dsimp only at ho
    split at ho
    · cases ho
      exact ⟨.inl rfl, List.append_nil _⟩
    · rename_i hfree
      cases ho
      simp only [Bool.or_eq_true, not_or, Bool.not_eq_true] at hfree
      exact ⟨.inr ⟨_, fy, Nat.le_add_right .., hc, hfy, hfree.1, hfree.2, rfl⟩, List.append_nil _⟩

theorem run_periodForDate {date : Date} {v w : Env DB Err} {period : ℕ}
    (h : (periodForDate date).run v = .ok (period, w)) :
    PeriodFor date v.seq v.db w.db ∧ w.checks = v.checks ∧
      ∃ p, w.db.openPeriod date = some p ∧ p.id = period := by
  obtain ⟨p, v₁, h₁, h⟩ := Prog.run_bind_ok.1 h
  obtain ⟨hp, rfl⟩ := Prog.run_read_ok.1 h₁
  split at h
  · rename_i p
    obtain ⟨rfl, rfl⟩ := Prog.run_pure_ok.1 h
    exact ⟨.inl rfl, rfl, p, hp.symm, rfl⟩
  · obtain ⟨c, v₂, h₂, h⟩ := Prog.run_bind_ok.1 h
    obtain ⟨hc, rfl⟩ := Prog.run_read_ok.1 h₂
    obtain ⟨u₃, v₃, h₃, h⟩ := Prog.run_bind_ok.1 h
    obtain ⟨hc', rfl⟩ := Prog.run_require_ok.1 h₃
    obtain ⟨u₄, v₄, h₄, h⟩ := Prog.run_bind_ok.1 h
    obtain ⟨p', v₅, h₅, h⟩ := Prog.run_bind_ok.1 h
    obtain ⟨hp', rfl⟩ := Prog.run_read_ok.1 h₅
    have hcov : v.db.covered date = false := by simpa [hc] using hc'
    obtain ⟨hm, hch⟩ := run_insertMonth h₄ hcov
    split at h
    · rename_i p'
      obtain ⟨rfl, rfl⟩ := Prog.run_pure_ok.1 h
      refine ⟨?_, hch, p', hp'.symm, rfl⟩
      rcases hm with e | ⟨n, fy, hn, rest⟩
      · exact .inl e
      · exact .inr ⟨n, fy, ((Env.le_tick_seq v).trans (Env.le_tick_seq _)).trans hn, rest⟩
    · exact absurd h Prog.run_throw_ok

theorem run_periodForDate_posted {date : Date} {v w : Env DB Err} {period : ℕ}
    (h : (periodForDate date).run v = .ok (period, w)) : v.db.Posted date w.db := by
  obtain ⟨hp, -, p, hopen, -⟩ := run_periodForDate h
  obtain ⟨hm, hs, hc⟩ := openPeriod_eq_some hopen
  exact ⟨hp.less (.inl ⟨p, hm, hs, hc⟩), fun d => hp.less⟩

/-! ### Entries -/

theorem insertEntry_eq_ok {db : DB} {e : JournalEntry} {o : Outcome DB Lock Err ℕ} :
    insertEntry db e = .ok o ↔
      (db.periodOpen e.periodId = .ok () ∧ 0 < e.exchangeRate ∧ (db.periods.find? e.periodId).isSome ∧
        e.currencyCode ∈ currencies) ∧
      o = { res := e.id, used := 1, act := fun d => { d with entries := d.entries.insert e }
            locks := [.keyShare .period e.periodId], checks := [DB.entryBalanced e.id] } := by
  simp only [insertEntry, Except.bind_eq_ok_iff, ensure_eq_ok, exists_const, Except.ok.injEq, decide_eq_true_eq]
  constructor
  · rintro ⟨u, h₁, h₂, h₃, h₄, rfl⟩
    exact ⟨⟨h₁, h₂, h₃, h₄⟩, rfl⟩
  · rintro ⟨⟨h₁, h₂, h₃, h₄⟩, rfl⟩
    exact ⟨(), h₁, h₂, h₃, h₄, rfl⟩

/-- What `createEntry` inserts. -/
def entryOf (id : ℕ) (date : Date) (period : ℕ) (currency : String) (rate : ℤ) (memo reference : String) :
    JournalEntry :=
  { id, entryDate := date, periodId := period, currencyCode := currency, exchangeRate := rate, memo,
    reference := some reference }

theorem run_createEntry {date : Date} {period : ℕ} {currency memo reference : String} {v w : Env DB Err} {je : ℕ}
    (h : (createEntry date period currency memo reference).run v = .ok (je, w)) :
    ∃ rate, v.db.rateFor currency date = some rate ∧ 0 < rate ∧ v.seq ≤ je ∧ v.db.periodOpen period = .ok () ∧
      w.db = { v.db with entries := v.db.entries.insert (entryOf je date period currency rate memo reference) } ∧
      w.checks = v.checks ++ [DB.entryBalanced je] := by
  obtain ⟨o, ho, rfl, rfl⟩ := Prog.run_exec_ok.1 h
  split at ho
  · cases ho
  · rename_i rate hrate
    obtain ⟨⟨hp, hpos, -⟩, rfl⟩ := insertEntry_eq_ok.1 ho
    exact ⟨rate, hrate, hpos, Nat.le_add_right .., hp, rfl, rfl⟩

/-! ### Lines -/

theorem run_insertLines {je : ℕ} {select : DB → List NewLine} {v w : Env DB Err} {u : Unit}
    (h : (insertLines je select).run v = .ok (u, w)) :
    ∃ n rows, v.seq ≤ n ∧ newRows v.db je n (select v.db) = .ok rows ∧
      w.db = { v.db with lines := v.db.lines.insertAll rows } ∧
      w.checks = v.checks ++ rows.map fun _ => DB.entryBalanced je := by
  obtain ⟨o, ho, -, rfl⟩ := Prog.run_exec_ok.1 h
  simp only [Except.bind_eq_ok_iff, ensure_eq_ok, exists_const, Except.ok.injEq] at ho
  obtain ⟨rows, hr, -, rfl⟩ := ho
  exact ⟨_, rows, Nat.le_add_right .., hr, rfl, rfl⟩

/-- The line that `l` becomes once it is in the table. -/
def NewLine.Becomes (je : ℕ) (l : NewLine) (row : JournalLine) : Prop :=
  ∃ id account, l.accountId = some account ∧ row = l.row je id account

/-- The rows are the lines, one for one. -/
theorem newRows_forall₂ {db : DB} {je n : ℕ} {ls : List NewLine} {rows : List JournalLine}
    (h : newRows db je n ls = .ok rows) : List.Forall₂ (NewLine.Becomes je) ls rows := by
  induction ls generalizing n rows with
  | nil =>
    cases h
    exact .nil
  | cons l ls ih =>
    unfold newRows at h
    split at h
    · cases h
    · rename_i account ha
      simp only [Except.bind_eq_ok_iff, Except.ok.injEq] at h
      obtain ⟨-, -, rows', h', rfl⟩ := h
      exact .cons ⟨n, account, ha, rfl⟩ (ih h')

theorem newRows_entry {db : DB} {je n : ℕ} {ls : List NewLine} {rows : List JournalLine}
    (h : newRows db je n ls = .ok rows) : ∀ l ∈ rows, l.journalEntryId = je := by
  have := newRows_forall₂ h
  clear h
  induction this with
  | nil => intro l hl; cases hl
  | cons hb _ ih =>
    intro l hl
    obtain ⟨id, account, -, rfl⟩ := hb
    rcases List.mem_cons.1 hl with rfl | hl
    · rfl
    · exact ih l hl

/-! ### An entry with its lines -/

/-- Between `db` and `db'` the entry `e` and its lines `rows` were inserted; otherwise only periods changed. -/
structure Wrote (lo : ℕ) (db db' : DB) (e : JournalEntry) (rows : List JournalLine) : Prop where
  new : lo ≤ e.id
  eq : db' = { db with periods := db'.periods, entries := db.entries.insert e, lines := db.lines.insertAll rows }
  free : db.entries.Free e.id
  linesFree : db.lines.AllFree rows
  own : ∀ l ∈ rows, l.journalEntryId = e.id

theorem PeriodFor.wrote {date : Date} {n lo : ℕ} {db₀ db db' : DB} {e : JournalEntry} {rows : List JournalLine}
    (hp : PeriodFor date n db₀ db) (h : Wrote lo db db' e rows) : Wrote lo db₀ db' e rows := by
  have e₀ := hp.eq
  refine ⟨h.new, ?_, ?_, ?_, h.own⟩
  · rw [h.eq, e₀]
  · have := h.free
    rwa [e₀] at this
  · have := h.linesFree
    rwa [e₀] at this

theorem Wrote.of_insertEntry {v : Env DB Err} {db' : DB} {e : JournalEntry} (hv : Fresh v.seq v.db)
    (hn : v.seq ≤ e.id) (h : db' = { v.db with entries := v.db.entries.insert e }) : Wrote v.seq v.db db' e [] := by
  refine ⟨hn, ?_, hv.entries.free hn, ⟨List.nodup_nil, fun a ha => absurd ha List.not_mem_nil⟩,
    fun l hl => absurd hl List.not_mem_nil⟩
  rw [h]
  rfl

theorem Wrote.lines {lo : ℕ} {db : DB} {e : JournalEntry} {rows : List JournalLine} {v w : Env DB Err}
    {select : DB → List NewLine} {u : Unit} (hw : Wrote lo db v.db e rows) (hv : Fresh v.seq v.db)
    (h : (insertLines e.id select).run v = .ok (u, w)) :
    ∃ more, List.Forall₂ (NewLine.Becomes e.id) (select v.db) more ∧ Wrote lo db w.db e (rows ++ more) ∧
      w.checks = v.checks ++ more.map fun _ => DB.entryBalanced e.id := by
  obtain ⟨n, more, hn, hr, hdb, hch⟩ := run_insertLines h
  have hl : v.db.lines = db.lines.insertAll rows := by rw [hw.eq]
  have hfree : v.db.lines.AllFree more := (hv.lines.mono hn).allFree (newRows_eq_ok hr)
  refine ⟨more, newRows_forall₂ hr, ⟨hw.new, ?_, hw.free, ?_, fun l hl => ?_⟩, hch⟩
  · rw [hdb, hl, ← Table.insertAll_append, hw.eq]
  · exact hw.linesFree.append (hl ▸ hfree)
  · rcases List.mem_append.1 hl with hl | hl
    · exact hw.own l hl
    · exact newRows_entry hr l hl

theorem Wrote.mono {lo lo' : ℕ} {db db' : DB} {e : JournalEntry} {rows : List JournalLine}
    (h : Wrote lo db db' e rows) (hlo : lo' ≤ lo) : Wrote lo' db db' e rows :=
  { h with new := hlo.trans h.new }

/-- An entry and two inserts of lines, as the postings make them. -/
theorem run_entry {date : Date} {period : ℕ} {currency memo reference : String} {s₁ s₂ : DB → List NewLine}
    {v v₁ v₂ v₃ : Env DB Err} {je : ℕ} {u₁ u₂ : Unit} (hv : Fresh v.seq v.db)
    (h : (createEntry date period currency memo reference).run v = .ok (je, v₁))
    (h₁ : (insertLines je s₁).run v₁ = .ok (u₁, v₂)) (h₂ : (insertLines je s₂).run v₂ = .ok (u₂, v₃)) :
    ∃ rate rows₁ rows₂, v.db.rateFor currency date = some rate ∧ 0 < rate ∧ v.db.periodOpen period = .ok () ∧
      List.Forall₂ (NewLine.Becomes je) (s₁ v₁.db) rows₁ ∧ List.Forall₂ (NewLine.Becomes je) (s₂ v₂.db) rows₂ ∧
      v₁.db = { v.db with entries := v.db.entries.insert (entryOf je date period currency rate memo reference) } ∧
      Wrote v.seq v.db v₂.db (entryOf je date period currency rate memo reference) rows₁ ∧
      Wrote v.seq v.db v₃.db (entryOf je date period currency rate memo reference) (rows₁ ++ rows₂) ∧
      v₃.db.periods = v.db.periods := by
  obtain ⟨rate, hrate, hpos, hje, hp, hdb, -⟩ := run_createEntry h
  have hv₁ := (allFresh_createEntry _ _ _ _ _).run h hv
  have hw := Wrote.of_insertEntry (e := entryOf je date period currency rate memo reference) hv hje hdb
  obtain ⟨rows₁, hr₁, hw₁, -⟩ := hw.lines hv₁ h₁
  obtain ⟨rows₂, hr₂, hw₂, -⟩ := hw₁.lines ((allFresh_insertLines _ _).run h₁ hv₁) h₂
  obtain ⟨_, _, -, -, e₁, -⟩ := run_insertLines h₁
  obtain ⟨_, _, -, -, e₂, -⟩ := run_insertLines h₂
  exact ⟨rate, rows₁, rows₂, hrate, hpos, hp, hr₁, hr₂, hdb, hw₁, hw₂, by rw [e₂, e₁, hdb]⟩

/-! ### Reversal -/

/-- The insertion of the reversal. -/
def insertReversal (origID : ℕ) (date : Date) (period : ℕ) (currency : String) : Txn ℕ := Prog.exec fun n db =>
  match db.entries.find? origID with
  | none => .error (.posting .notFound s!"posting: journal entry {origID}")
  | some e => insertEntry db (e.reversal n date period currency)

theorem allFresh_insertReversal (origID : ℕ) (date : Date) (period : ℕ) (currency : String) :
    AllFresh (insertReversal origID date period currency) :=
  Prog.all_exec fun n db o h ho => by
    split at ho
    · cases ho
    · exact keepsFresh_insertEntry rfl h ho

theorem run_insertReversal {origID period r : ℕ} {date : Date} {currency : String} {v w : Env DB Err}
    (h : (insertReversal origID date period currency).run v = .ok (r, w)) :
    ∃ e, v.db.entries.find? origID = some e ∧ v.seq ≤ r ∧ v.db.periodOpen period = .ok () ∧
      w.db = { v.db with entries := v.db.entries.insert (e.reversal r date period currency) } := by
  obtain ⟨o, ho, rfl, rfl⟩ := Prog.run_exec_ok.1 h
  split at ho
  · cases ho
  · rename_i e he
    obtain ⟨⟨hp, -⟩, rfl⟩ := insertEntry_eq_ok.1 ho
    exact ⟨e, he, Nat.le_add_right .., hp, rfl⟩

/-- What `reverseEntry` does once it has read the entry's date and currency. -/
def reverseRest (origID : ℕ) (date : Date) (currency : String) : Txn ℕ := do
  let already ← Prog.read fun db => db.entries.rows.any fun e => e.reversesEntryId = some origID
  Prog.require (!already) (.posting .alreadyReversed s!"posting: journal entry {origID}")
  let matched ← Prog.read fun db => db.matchedOn origID
  Prog.require (!matched) (.posting .bankMatched s!"posting: journal entry {origID}")
  let period ← periodForDate date
  let rev ← insertReversal origID date period currency
  insertLines rev fun db => (db.linesOf origID).map JournalLine.mirror
  pure rev

/-- What `reverseEntry` reads first. -/
def reverseHeader (origID : ℕ) (db : DB) : Except Err (Date × String) :=
  match db.entries.find? origID with
  | none => .error (.posting .notFound s!"posting: journal entry {origID}")
  | some e => .ok (e.entryDate, e.currencyCode)

theorem reverseEntry_eq (origID : ℕ) :
    reverseEntry origID = Prog.query (reverseHeader origID) >>= fun x => reverseRest origID x.1 x.2 := rfl

/-- Between `db` and `db'` the entry `e` was reversed by `r` with the lines `rows`. -/
structure Reversed (lo : ℕ) (db db' : DB) (e r : JournalEntry) (rows : List JournalLine) : Prop where
  old : db.entries.find? e.id = some e
  unreversed : ∀ x ∈ db.entries, x.reversesEntryId ≠ some e.id
  unmatched : db.matchedOn e.id = false
  wrote : Wrote lo db db' r rows
  reversal : r = e.reversal r.id e.entryDate r.periodId e.currencyCode
  mirror : List.Forall₂ (NewLine.Becomes r.id) ((db.linesOf e.id).map JournalLine.mirror) rows

theorem Reversed.mono {lo lo' : ℕ} {db db' : DB} {e r : JournalEntry} {rows : List JournalLine}
    (h : Reversed lo db db' e r rows) (hlo : lo' ≤ lo) : Reversed lo' db db' e r rows :=
  { h with wrote := h.wrote.mono hlo }

theorem run_reverseRest {origID rev : ℕ} {date : Date} {currency : String} {v w : Env DB Err}
    (h : (reverseRest origID date currency).run v = .ok (rev, w)) (hv : Fresh v.seq v.db)
    (hhead : ∀ e, v.db.entries.find? origID = some e → e.entryDate = date ∧ e.currencyCode = currency) :
    ∃ e r rows, e.id = origID ∧ r.id = rev ∧ Reversed v.seq v.db w.db e r rows ∧ v.db.Posted r.entryDate w.db := by
  obtain ⟨already, v₁, h₁, h⟩ := Prog.run_bind_ok.1 h
  obtain ⟨rfl, rfl⟩ := Prog.run_read_ok.1 h₁
  obtain ⟨u₂, v₂, h₂, h⟩ := Prog.run_bind_ok.1 h
  obtain ⟨hal, rfl⟩ := Prog.run_require_ok.1 h₂
  obtain ⟨m, v₃, h₃, h⟩ := Prog.run_bind_ok.1 h
  obtain ⟨rfl, rfl⟩ := Prog.run_read_ok.1 h₃
  obtain ⟨u₄, v₄, h₄, h⟩ := Prog.run_bind_ok.1 h
  obtain ⟨hm, rfl⟩ := Prog.run_require_ok.1 h₄
  obtain ⟨period, v₅, h₅, h⟩ := Prog.run_bind_ok.1 h
  obtain ⟨id, v₆, h₆, h⟩ := Prog.run_bind_ok.1 h
  obtain ⟨u₇, v₇, h₇, h⟩ := Prog.run_bind_ok.1 h
  obtain ⟨rfl, rfl⟩ := Prog.run_pure_ok.1 h
  have hv₄ : Fresh v.tick.tick.seq v.tick.tick.db := hv.tick.tick
  have hv₅ := (allFresh_periodForDate _).run h₅ hv₄
  obtain ⟨hp, -, -⟩ := run_periodForDate h₅
  obtain ⟨e, he, hle, -, hdb₆⟩ := run_insertReversal h₆
  rw [hp.eq] at he
  obtain ⟨rfl, rfl⟩ := hhead e he
  obtain rfl := Table.key_of_find? he
  obtain ⟨rows, hr, hw, -⟩ := (Wrote.of_insertEntry hv₅ hle hdb₆).lines ((allFresh_insertReversal _ _ _ _).run h₆ hv₅) h₇
  have hl : v₆.db.linesOf e.id = v.db.linesOf e.id := by
    rw [hdb₆, hp.eq]
    rfl
  have hle : v.seq ≤ v₅.seq := ((Env.le_tick_seq v).trans (Env.le_tick_seq _)).trans (Prog.run_seq_le h₅)
  obtain ⟨_, _, -, -, e₇, -⟩ := run_insertLines h₇
  refine ⟨e, _, rows, rfl, rfl, ⟨he, fun x hx => ?_, ?_, hp.wrote (hw.mono hle), rfl, hl ▸ hr⟩,
    (run_periodForDate_posted h₅).congr (by rw [e₇, hdb₆]) (by rw [e₇, hdb₆])⟩
  · simp only [Bool.not_eq_eq_eq_not, Bool.not_true, List.any_eq_false, decide_eq_true_eq] at hal
    exact hal x hx
  · rw [Bool.not_eq_true'] at hm
    exact hm

theorem run_reverseEntry {origID rev : ℕ} {v w : Env DB Err} (h : (reverseEntry origID).run v = .ok (rev, w))
    (hv : Fresh v.seq v.db) :
    ∃ e r rows, e.id = origID ∧ r.id = rev ∧ Reversed v.seq v.db w.db e r rows ∧ v.db.Posted r.entryDate w.db := by
  rw [reverseEntry_eq] at h
  obtain ⟨x, v₁, h₁, h⟩ := Prog.run_bind_ok.1 h
  obtain ⟨hx, rfl⟩ := Prog.run_query_ok.1 h₁
  obtain ⟨e, r, rows, he, hr, hrev, hpost⟩ := run_reverseRest h hv.tick fun e he => by
    rw [Env.tick_db] at he
    rw [reverseHeader, he] at hx
    cases hx
    exact ⟨rfl, rfl⟩
  exact ⟨e, r, rows, he, hr, hrev.mono (Env.le_tick_seq v), hpost⟩
