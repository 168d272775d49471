import Tadmor.Proof.CSVGrammar
import Tadmor.Proof.Bank
import Tadmor.Store.Weakest
import Tadmor.Theory.Counting

/-!
# An import adds all lines or none

What the parser accepts the database can still refuse: a date of year 0, an amount that rounds to zero or is out of
range, a text it does not store.  The lines are inserted one at a time, and one that is refused undoes the others.
-/

namespace Banking

/-- The amount is rounded to `m` in units of 0.0001, and is other than zero and in range. -/
structure StoredAmount (s : Text) (m : ℤ) : Prop where
  spelled : ∃ p : Spelling, p.text = s ∧ p.value.scale ≤ 16383 ∧ RoundsTo (p.value.toRat * 10 ^ 4) m
  nonzero : m ≠ 0
  inRange : |m| < 10 ^ 15 * 10 ^ 4

/-- The texts have no character that the database does not store. -/
def StoredText (l : LineInput) : Prop := ∀ s, s = l.description ∨ some s = l.reference → Char.ofNat 0 ∉ s

/-- The line can be stored. -/
structure Storable (l : LineInput) : Prop where
  date : ∃ date : Date, IsDate l.txnDate date ∧ 1 ≤ date.year
  amount : ∃ m, StoredAmount l.amount m
  text : StoredText l

/-- The row of a line of the statement. -/
structure StoredAs (statement : ℕ) (l : LineInput) (row : BankStatementLine) : Prop where
  statement : row.statementId = statement
  date : IsDate l.txnDate row.txnDate
  amount : StoredAmount l.amount row.amount
  unmatched : row.journalLineId = none

/-- The lines are appended as the rows `new`, in their order and numbered after all others. -/
structure Appended (statement : ℕ) (ls : List LineInput) (new : List BankStatementLine) (db db' : DB) : Prop where
  rows : db'.statementLines.rows = db.statementLines.rows ++ new
  lines : List.Forall₂ (StoredAs statement) ls new
  order : new.Pairwise fun l m => l.lineNo < m.lineNo
  later : ∀ l ∈ new, ∀ x ∈ db.statementLinesOf statement, x.lineNo < l.lineNo
  rest : db' = { db with statementLines := db'.statementLines }

/-- What an import accepts. -/
def Acceptable (readAll : CSVReader) (csvText : Text) : Prop :=
  ∃ ls, parseCSV readAll csvText = .ok ls ∧ ls ≠ [] ∧ ∀ l ∈ ls, Storable l

/-- The answer to the import of a text. -/
structure ImportAnswered (readAll : CSVReader) (st : BankStatement) (csvText : Text) (gaps : ℕ → ℕ) (s : Store DB) :
    Prop where
  accepted : Acceptable readAll csvText → ∃ ls new s', parseCSV readAll csvText = .ok ls ∧
    importBankStatement readAll st.id csvText gaps s = ((200, some ls.length), s') ∧ Appended st.id ls new s.db s'.db
  refused : ¬Acceptable readAll csvText →
    importBankStatement readAll st.id csvText gaps s = ((422, none), s)

/-! ### The casts -/

section

variable {l : LineInput} {row : StatementLineInput}

theorem fits_iff_abs_lt {x : ℤ} : fits x = true ↔ |x| < 10 ^ 15 * 10 ^ 4 := by
  rw [fits, decide_eq_true_eq, Int.abs_eq_natAbs]
  omega

theorem dateIn_eq_ok {s : Text} {date : Date} : dateIn s = .ok date ↔ IsDate s date ∧ 1 ≤ date.year := by
  rw [dateIn, ← parseDate_eq_some]
  cases parseDate s with
  | none => simp
  | some d =>
    by_cases hd : d.year = 0
    · simp only [hd, if_true]
      constructor
      · intro h
        cases h
      · rintro ⟨hdate, hyear⟩
        obtain rfl := Option.some.inj hdate
        omega
    · simp only [hd, if_false, Except.ok.injEq, Option.some.injEq]
      constructor
      · rintro rfl
        exact ⟨rfl, by omega⟩
      · exact And.left

theorem numericIn_eq_ok {s : Text} {x : Decimal} :
    numericIn s = .ok x ↔ ∃ p : Spelling, p.text = s ∧ p.value.scale ≤ 16383 ∧ x = p.value := by
  rw [numericIn]
  cases hs : spell s with
  | none =>
    refine ⟨fun h => (by cases h), ?_⟩
    rintro ⟨p, hp, -⟩
    rw [spell_eq_some.2 hp] at hs
    cases hs
  | some p =>
    obtain rfl := spell_eq_some.1 hs
    have hunique : ∀ q : Spelling, q.text = p.text → q = p := fun q hq => Spelling.text_injective hq
    by_cases hscale : p.value.scale ≤ 16383
    · simp only [hscale, if_true, Except.ok.injEq]
      constructor
      · rintro rfl
        exact ⟨p, rfl, hscale, rfl⟩
      · rintro ⟨q, hq, -, rfl⟩
        rw [hunique q hq]
    · simp only [hscale, if_false]
      refine ⟨fun h => (by cases h), ?_⟩
      rintro ⟨q, hq, hle, -⟩
      rw [hunique q hq] at hle
      exact absurd hle hscale

theorem storedText_iff : StoredText l ↔ textIn l.description = .ok () ∧ textIn (l.reference.getD []) = .ok () := by
  have htext : ∀ s, textIn s = .ok () ↔ Char.ofNat 0 ∉ s := by
    intro s
    rw [textIn, ensure_eq_ok, List.all_eq_true]
    simp only [decide_eq_true_eq]
    exact ⟨fun h hm => h _ hm rfl, fun h c hc e => h (e ▸ hc)⟩
  rw [htext, htext, StoredText]
  constructor
  · intro h
    refine ⟨h _ (.inl rfl), ?_⟩
    cases hr : l.reference with
    | none => exact List.not_mem_nil
    | some r => exact h r (.inr hr.symm)
  · rintro ⟨hd, hr⟩ s (rfl | hs)
    · exact hd
    · rwa [← hs] at hr

/-- What the casts of a line give. -/
theorem typed_eq_ok : l.typed = .ok row ↔ (IsDate l.txnDate row.txnDate ∧ 1 ≤ row.txnDate.year) ∧ StoredText l ∧
    ∃ p : Spelling, p.text = l.amount ∧ p.value.scale ≤ 16383 ∧ RoundsTo (p.value.toRat * 10 ^ 4) row.amount := by
  rw [storedText_iff]
  simp only [LineInput.typed, Except.bind_eq_ok_iff, dateIn_eq_ok, numericIn_eq_ok]
  constructor
  · rintro ⟨date, hdate, u, hd, u', hr, x, ⟨p, hp, hscale, rfl⟩, he⟩
    obtain rfl := Except.ok.inj he
    exact ⟨hdate, ⟨hd, hr⟩, p, hp, hscale, Decimal.roundsTo_round 4 p.value⟩
  · rintro ⟨hdate, ⟨hd, hr⟩, p, hp, hscale, hround⟩
    refine ⟨row.txnDate, hdate, (), hd, (), hr, p.value, ⟨p, hp, hscale, rfl⟩, ?_⟩
    rw [(Decimal.roundsTo_round 4 p.value).unique hround]

/-- The casts of a line succeed on what the database stores. -/
theorem storable_iff : Storable l ↔ ∃ row, l.typed = .ok row ∧ fits row.amount = true ∧ row.amount ≠ 0 := by
  constructor
  · rintro ⟨⟨date, hdate⟩, ⟨m, hspelled, hne, hrange⟩, htext⟩
    exact ⟨⟨date, m⟩, typed_eq_ok.2 ⟨hdate, htext, hspelled⟩, fits_iff_abs_lt.2 hrange, hne⟩
  · rintro ⟨row, hrow, hfits, hne⟩
    obtain ⟨hdate, htext, hspelled⟩ := typed_eq_ok.1 hrow
    exact ⟨⟨_, hdate⟩, ⟨_, hspelled, hne, fits_iff_abs_lt.1 hfits⟩, htext⟩

end

/-! ### The insert of a line -/

section

variable {st : BankStatement} {v : Env DB Err} {l : LineInput} {row : StatementLineInput}

theorem status_bind {α β : Type} {x : Except Err α} {f : α → Except Err β}
    (hx : ∀ e, x = .error e → status e = 422) (hf : ∀ a e, f a = .error e → status e = 422) :
    ∀ e, (x >>= f) = .error e → status e = 422 := by
  intro e h
  rcases Except.bind_eq_error_iff.1 h with h | ⟨a, -, h⟩
  · exact hx e h
  · exact hf a e h

theorem status_ensure {b : Bool} {e : Err} (he : status e = 422) :
    ∀ e', ensure b e = .error e' → status e' = 422 := by
  intro e' h
  cases b with
  | true => cases h
  | false =>
    obtain rfl := Except.error.inj h
    exact he

/-- The database refuses a line with a status of 422. -/
theorem status_typed : ∀ e, l.typed = .error e → status e = 422 := by
  refine status_bind ?_ fun _ => status_bind (status_ensure rfl) fun _ => status_bind (status_ensure rfl) fun _ =>
    status_bind ?_ fun _ e h => (by cases h)
  · intro e h
    rw [dateIn] at h
    split at h
    · obtain rfl := Except.error.inj h
      rfl
    · split at h
      · obtain rfl := Except.error.inj h
        rfl
      · cases h
  · intro e h
    rw [numericIn] at h
    split at h
    · obtain rfl := Except.error.inj h
      rfl
    · split at h
      · cases h
      · obtain rfl := Except.error.inj h
        rfl

theorem wp_requireOpen {α : Type} {E : Err → Prop} {Q : α → Env DB Err → Prop} {k : Unit → Txn α}
    (hst : v.db.statements.find? st.id = some st) (ho : st.status = .opened) (h : (k ()).wp E Q v.tick) :
    (requireOpen st.id >>= k).wp E Q v := by
  rw [requireOpen, Prog.bind_assoc, Prog.wp_query_bind, hst]
  refine ⟨fun e he => (by cases he), fun a ha => ?_⟩
  obtain rfl := Except.ok.inj ha
  exact Prog.wp_require_bind.2 ⟨fun hn => absurd ho (of_decide_eq_false hn), fun _ => h⟩

/-- The number of a new line is that of no other. -/
theorem lt_nextLineNo {db : DB} {statement : ℕ} : ∀ x ∈ db.statementLinesOf statement, x.lineNo < db.nextLineNo statement :=
  fun _ hx => Nat.lt_succ_of_le (le_foldr_max _ (List.mem_map_of_mem hx))

theorem ensure_ne_error {b : Bool} {e e' : Err} (h : b = true) : ensure b e ≠ .error e' := by
  rw [ensure, if_pos h]
  exact fun h => (by cases h)

/-- The INSERT of a line fails on an amount only. -/
theorem wp_AddLine (row : StatementLineInput) (hst : v.db.statements.find? st.id = some st) (ho : st.status = .opened) :
    (AddLine st.id row).wp (fun e => status e = 422 ∧ ¬(fits row.amount = true ∧ row.amount ≠ 0))
      (fun _ w => (fits row.amount = true ∧ row.amount ≠ 0) ∧ w.checks = v.checks ∧ ∃ n, v.seq ≤ n ∧ n < w.seq ∧
        w.db = { v.db with
          statementLines := v.db.statementLines.insert (row.row st.id n (v.db.nextLineNo st.id)) }) v := by
  refine wp_requireOpen hst ho ?_
  rw [Prog.wp_read_bind, Prog.wp_exec]
  have hcheck : v.db.statementLineCheck st.id row.amount none = .ok () := by
    rw [DB.statementLineCheck, hst]
    show (ensure _ _ >>= fun _ => _) = _
    rw [ensure, if_pos (decide_eq_true ho)]
    rfl
  have hunique : (v.db.statementLines.rows.all fun l =>
      l.statementId ≠ st.id || l.lineNo ≠ v.db.nextLineNo st.id) = true := by
    rw [List.all_eq_true]
    intro x hx
    rw [Bool.or_eq_true, decide_eq_true_eq, decide_eq_true_eq]
    by_cases hid : x.statementId = st.id
    · have := lt_nextLineNo x (List.mem_filter.2 ⟨hx, decide_eq_true hid⟩)
      exact .inr (by omega)
    · exact .inl hid
  have hsome : (v.db.statements.find? st.id).isSome = true := hst ▸ rfl
  constructor
  · intro e he
    rcases Except.bind_eq_error_iff.1 he with h | ⟨u, hfits, he⟩
    · exact ⟨status_ensure rfl e h, fun hok => ensure_ne_error hok.1 h⟩
    rcases Except.bind_eq_error_iff.1 he with h | ⟨u, -, he⟩
    · cases hcheck.symm.trans h
    rcases Except.bind_eq_error_iff.1 he with h | ⟨u, hne, he⟩
    · exact ⟨status_ensure rfl e h, fun hok => ensure_ne_error (decide_eq_true hok.2) h⟩
    rcases Except.bind_eq_error_iff.1 he with h | ⟨u, -, he⟩
    · exact absurd h (ensure_ne_error hunique)
    rcases Except.bind_eq_error_iff.1 he with h | ⟨u, -, he⟩
    · exact absurd h (ensure_ne_error hsome)
    · cases he
  · intro o ho
    simp only [Except.bind_eq_ok_iff, ensure_eq_ok, exists_const, decide_eq_true_eq, Except.ok.injEq] at ho
    obtain ⟨hfits, -, -, hne, -, -, rfl⟩ := ho
    have hseq : v.seq ≤ v.tick.tick.seq + v.tick.tick.gaps 0 := by
      simp only [Env.tick]
      omega
    exact ⟨⟨hfits, hne⟩, List.append_nil _, _, hseq, Nat.lt_succ_self _, rfl⟩

/-- The row of an inserted line. -/
theorem appended_cons {ls : List LineInput} {new : List BankStatementLine} {db db₁ db' : DB} {n : ℕ}
    (hfree : db.statementLines.Free n) (hstored : StoredAs st.id l (row.row st.id n (db.nextLineNo st.id)))
    (hdb : db₁ = { db with statementLines := db.statementLines.insert (row.row st.id n (db.nextLineNo st.id)) })
    (h : Appended st.id ls new db₁ db') :
    Appended st.id (l :: ls) (row.row st.id n (db.nextLineNo st.id) :: new) db db' := by
  have hrows : db₁.statementLines.rows = db.statementLines.rows ++ [row.row st.id n (db.nextLineNo st.id)] := by
    rw [hdb]
    exact Table.rows_insert hfree
  refine ⟨?_, .cons hstored h.lines, List.pairwise_cons.2 ⟨fun x hx => ?_, h.order⟩, ?_, ?_⟩
  · rw [h.rows, hrows, List.append_assoc]
    rfl
  · refine h.later x hx _ (List.mem_filter.2 ⟨?_, decide_eq_true rfl⟩)
    rw [hrows]
    exact List.mem_append_right _ (List.mem_singleton_self _)
  · rintro x hx y hy
    rcases List.mem_cons.1 hx with rfl | hx
    · exact lt_nextLineNo y hy
    · refine h.later x hx y (List.mem_filter.2 ⟨?_, (List.mem_filter.1 hy).2⟩)
      rw [hrows]
      exact List.mem_append_left _ (List.mem_filter.1 hy).1
  · rw [h.rest, hdb]

/-- `AddLine` of the texts inserts what can be stored and refuses the rest. -/
theorem wp_addLine (hst : v.db.statements.find? st.id = some st) (ho : st.status = .opened) :
    (addLine st.id l).wp (fun e => status e = 422 ∧ ¬Storable l)
      (fun _ w => Storable l ∧ w.checks = v.checks ∧ ∃ n row, v.seq ≤ n ∧ n < w.seq ∧
        StoredAs st.id l (StatementLineInput.row row st.id n (v.db.nextLineNo st.id)) ∧
        w.db = { v.db with
          statementLines := v.db.statementLines.insert (row.row st.id n (v.db.nextLineNo st.id)) }) v := by
  rw [addLine]
  cases hr : l.typed with
  | error e =>
    refine wp_requireOpen hst ho ⟨status_typed e hr, fun hs => ?_⟩
    obtain ⟨row, hrow, -⟩ := storable_iff.1 hs
    rw [hr] at hrow
    cases hrow
  | ok row =>
    obtain ⟨herr, hok⟩ := Prog.wp_iff_run.1 (wp_AddLine row hst ho)
    refine Prog.wp_iff_run.2 ⟨fun e he => ?_, fun a w hw => ?_⟩
    · obtain ⟨hstatus, hbad⟩ := herr e he
      refine ⟨hstatus, fun hs => ?_⟩
      obtain ⟨row', hrow, hgood⟩ := storable_iff.1 hs
      obtain rfl := Except.ok.inj (hr.symm.trans hrow)
      exact hbad hgood
    · obtain ⟨hgood, hchecks, n, hle, hlt, hdb⟩ := hok a w hw
      obtain ⟨⟨hdate, -⟩, -, hspelled⟩ := typed_eq_ok.1 hr
      exact ⟨storable_iff.2 ⟨row, hr, hgood⟩, hchecks, n, row, hle, hlt,
        ⟨rfl, hdate, ⟨hspelled, hgood.2, fits_iff_abs_lt.1 hgood.1⟩, rfl⟩, hdb⟩

/-- The lines are inserted up to the first that cannot be stored. -/
theorem wp_addLineInputs (ls : List LineInput) (hst : v.db.statements.find? st.id = some st) (ho : st.status = .opened)
    (hb : v.db.statementLines.Below v.seq) :
    (addLineInputs st.id ls).wp (fun e => status e = 422 ∧ ∃ l ∈ ls, ¬Storable l)
      (fun _ w => (∀ l ∈ ls, Storable l) ∧ w.checks = v.checks ∧ ∃ new, Appended st.id ls new v.db w.db) v := by
  induction ls generalizing v with
  | nil =>
    refine ⟨fun l hl => absurd hl List.not_mem_nil, rfl, [], (List.append_nil _).symm, .nil, .nil, ?_, rfl⟩
    exact fun l hl => absurd hl List.not_mem_nil
  | cons l ls ih =>
    rw [addLineInputs, Prog.wp_bind]
    obtain ⟨herr, hok⟩ := Prog.wp_iff_run.1 (wp_addLine (l := l) hst ho)
    refine Prog.wp_iff_run.2 ⟨fun e he => ?_, fun a v₁ hv₁ => ?_⟩
    · obtain ⟨hstatus, hbad⟩ := herr e he
      exact ⟨hstatus, l, List.mem_cons_self .., hbad⟩
    · obtain ⟨hstorable, hchecks, n, row, hle, hlt, hstored, hdb⟩ := hok a v₁ hv₁
      have hfree : v.db.statementLines.Free n := hb.free hle
      have hst₁ : v₁.db.statements.find? st.id = some st := by
        rw [hdb]
        exact hst
      have hb₁ : v₁.db.statementLines.Below v₁.seq := by
        rw [hdb]
        exact ((hb.mono hle).insert rfl).mono hlt
      obtain ⟨herr, hok⟩ := Prog.wp_iff_run.1 (ih hst₁ hb₁)
      refine Prog.wp_iff_run.2 ⟨fun e he => ?_, fun u w hw => ?_⟩
      · obtain ⟨hstatus, x, hx, hbad⟩ := herr e he
        exact ⟨hstatus, x, List.mem_cons_of_mem _ hx, hbad⟩
      · obtain ⟨hall, hc, new, hnew⟩ := hok u w hw
        exact ⟨List.forall_mem_cons.2 ⟨hstorable, hall⟩, hc.trans hchecks, _, appended_cons hfree hstored hdb hnew⟩

/-! ### The request -/

/-- The parser refuses a record with a status of 422. -/
theorem status_parseRecord {i : ℕ} {record : List Text} :
    ∀ e, parseRecord i record = .error e → status e = 422 := by
  have hfields : ∀ {date description amount : Text} {reference : Option Text},
      ∀ e, parseFields i date description amount reference = .error e → status e = 422 := by
    intro date description amount reference
    rw [parseFields]
    cases parseDate date with
    | none =>
      intro e h
      dsimp only at h
      split at h
      · cases h
      · obtain rfl := Except.error.inj h
        rfl
    | some d =>
      exact status_bind (status_ensure rfl) fun _ => status_bind (status_ensure rfl) fun _ =>
        status_bind (status_ensure rfl) fun _ e h => (by cases h)
  intro e h
  rw [parseRecord] at h
  split at h
  · cases h
  · split at h
    · exact hfields e h
    · exact hfields e h
    · obtain rfl := Except.error.inj h
      rfl

theorem status_parseRecords {i : ℕ} {records : List (List Text)} :
    ∀ e, parseRecords i records = .error e → status e = 422 := by
  induction records generalizing i with
  | nil => exact fun e h => (by cases h)
  | cons record records ih =>
    exact status_bind status_parseRecord fun _ => status_bind ih fun _ e h => (by cases h)

theorem status_parseCSV {readAll : CSVReader} {csvText : Text} :
    ∀ e, parseCSV readAll csvText = .error e → status e = 422 := by
  intro e h
  rw [parseCSV] at h
  split at h
  · obtain rfl := Except.error.inj h
    rfl
  · exact status_parseRecords e h

theorem wp_ImportCSV (readAll : CSVReader) (csvText : Text) (hst : v.db.statements.find? st.id = some st)
    (ho : st.status = .opened) (hb : v.db.statementLines.Below v.seq) :
    (ImportCSV readAll st.id csvText).wp (fun e => status e = 422 ∧ ¬Acceptable readAll csvText)
      (fun n w => Acceptable readAll csvText ∧ w.checks = v.checks ∧ ∃ ls new, parseCSV readAll csvText = .ok ls ∧
        n = ls.length ∧ Appended st.id ls new v.db w.db) v := by
  rw [ImportCSV]
  cases hp : parseCSV readAll csvText with
  | error e =>
    refine ⟨status_parseCSV e hp, ?_⟩
    rintro ⟨ls, hls, -⟩
    rw [hp] at hls
    cases hls
  | ok ls =>
    have hunique : ∀ ls', parseCSV readAll csvText = .ok ls' → ls' = ls := fun ls' h => Except.ok.inj (h.symm.trans hp)
    refine Prog.wp_require_bind.2 ⟨fun hn => ⟨rfl, ?_⟩, fun hne => ?_⟩
    · rintro ⟨ls', hls', hne, -⟩
      rw [hunique ls' hls'] at hne
      exact of_decide_eq_false hn hne
    · rw [Prog.wp_bind]
      obtain ⟨herr, hok⟩ := Prog.wp_iff_run.1 (wp_addLineInputs ls hst ho hb)
      refine Prog.wp_iff_run.2 ⟨fun e he => ?_, fun u w hw => ?_⟩
      · obtain ⟨hstatus, l, hl, hbad⟩ := herr e he
        refine ⟨hstatus, ?_⟩
        rintro ⟨ls', hls', -, hall⟩
        rw [hunique ls' hls'] at hall
        exact hbad (hall l hl)
      · obtain ⟨hall, hc, new, hnew⟩ := hok u w hw
        exact ⟨⟨ls, hp, of_decide_eq_true hne, hall⟩, hc, ls, new, rfl, rfl, hnew⟩

section

variable {readAll : CSVReader} {csvText : Text} {gaps : ℕ → ℕ} {s : Store DB} (hst : st ∈ s.db.statements)
  (ho : st.status = .opened) (hb : s.db.statementLines.Below s.seq) (hne : csvText ≠ [])

include hst ho hb hne

theorem importBankStatement_refused (h : ¬Acceptable readAll csvText) :
    importBankStatement readAll st.id csvText gaps s = ((422, none), s) := by
  obtain ⟨herr, hok⟩ := Prog.wp_iff_run.1
    (wp_ImportCSV (v := ⟨gaps, s.seq, s.db, []⟩) readAll csvText (Table.find?_key hst) ho hb)
  rw [importBankStatement, if_neg hne, Prog.commit]
  cases hr : (ImportCSV readAll st.id csvText).run ⟨gaps, s.seq, s.db, []⟩ with
  | error e =>
    show ((status e, none), s) = _
    rw [(herr e hr).1]
  | ok x => exact absurd (hok x.1 x.2 hr).1 h

theorem importBankStatement_accepted (h : Acceptable readAll csvText) : ∃ ls new s',
    parseCSV readAll csvText = .ok ls ∧
      importBankStatement readAll st.id csvText gaps s = ((200, some ls.length), s') ∧
      Appended st.id ls new s.db s'.db := by
  obtain ⟨herr, hok⟩ := Prog.wp_iff_run.1
    (wp_ImportCSV (v := ⟨gaps, s.seq, s.db, []⟩) readAll csvText (Table.find?_key hst) ho hb)
  rw [importBankStatement, if_neg hne, Prog.commit]
  cases hr : (ImportCSV readAll st.id csvText).run ⟨gaps, s.seq, s.db, []⟩ with
  | error e => exact absurd h (herr e hr).2
  | ok x =>
    obtain ⟨n, w⟩ := x
    obtain ⟨-, hc, ls, new, hp, rfl, hnew⟩ := hok n w hr
    dsimp only
    rw [hc]
    exact ⟨ls, new, _, hp, rfl, hnew⟩

/-- An import into an open statement adds all lines of the text or none. -/
theorem importBankStatement_all_or_nothing : ImportAnswered readAll st csvText gaps s :=
  ⟨importBankStatement_accepted hst ho hb hne, importBankStatement_refused hst ho hb hne⟩

end

end

/-! ### Statements with a gap -/

/-- A statement whose first line was deleted. -/
def gapped : List Op := [.createStatement ⟨1, 0, dollars 100⟩,
  .addLines 13 [⟨march5, dollars 30⟩, ⟨march6, dollars 20⟩], .deleteLine 14]

theorem exists_gapped : ∃ s : Store DB, Reachable s ∧ s.db.statementLines.rows.map (·.lineNo) = [2] ∧
    (⟨13, 1, 0, dollars 100, .opened⟩ : BankStatement) ∈ s.db.statements := by
  obtain ⟨s, hs, hp⟩ := exists_reachable gapped
    (p := fun s => s.db.statementLines.rows.map (·.lineNo) = [2] &&
      s.db.statements.find? 13 = some ⟨13, 1, 0, dollars 100, .opened⟩)
    (by decide +kernel)
  simp only [Bool.and_eq_true, decide_eq_true_eq] at hp
  exact ⟨s, hs, hp.1, Table.mem_of_find? hp.2⟩

/-- The text of a line and the record it is read as. -/
def csvLine (l : LineInput) : Text := l.txnDate ++ ',' :: (l.description ++ ',' :: l.amount)

def readsLine (l : LineInput) : CSVReader := fun _ => .ok [[l.txnDate, l.description, l.amount]]

theorem importBankStatement_all_or_nothing_gapped : ∃ s : Store DB, ∃ st ∈ s.db.statements,
    s.db.statementLines.rows.map (·.lineNo) = [2] ∧
    Acceptable (readsLine transfer) (csvLine transfer) ∧
    ImportAnswered (readsLine transfer) st (csvLine transfer) (fun _ => 0) s := by
  obtain ⟨s, hs, hnos, hst⟩ := exists_gapped
  refine ⟨s, _, hst, hnos, ?_, importBankStatement_all_or_nothing hst rfl hs.statementLines_below (by decide +kernel)⟩
  refine ⟨[transfer], ?_, List.cons_ne_nil _ _, ?_⟩
  · decide +kernel
  · rw [List.forall_mem_singleton]
    exact storable_iff.2 ⟨⟨⟨2026, 6, 10, by decide⟩, dollars 100⟩, by decide +kernel, by decide +kernel, by decide⟩

/-! ### What the date and the amount do not show -/

/-- The date and the rounded amount are ones that the database stores. -/
structure DatedAmount (l : LineInput) : Prop where
  date : ∃ date : Date, IsDate l.txnDate date ∧ 1 ≤ date.year
  amount : ∃ p : Spelling, p.text = l.amount ∧ ∃ m, RoundsTo (p.value.toRat * 10 ^ 4) m ∧ m ≠ 0 ∧ |m| < 10 ^ 15 * 10 ^ 4

theorem dropWhile_eq_self {p : Char → Bool} {s : Text} (h : ∀ c ∈ s, p c = false) : s.dropWhile p = s := by
  cases s with
  | nil => rfl
  | cons c s => exact List.dropWhile_cons_of_neg (by simp [h c (List.mem_cons_self ..)])

theorem trim_eq_self {p : Char → Bool} {s : Text} (h : ∀ c ∈ s, p c = false) : trim p s = s := by
  rw [trim, dropWhile_eq_self h, dropWhile_eq_self (by simpa using h), List.reverse_reverse]

/-- One with 16384 places. -/
def longOne : Spelling where
  neg := false
  whole := ['1']
  frac := some (List.replicate 16384 '0')
  digits := by
    intro c hc
    rw [Option.getD_some, List.mem_append, List.mem_singleton, List.mem_replicate] at hc
    rcases hc with rfl | ⟨-, rfl⟩
    · rfl
    · rfl
  nonempty := List.cons_ne_nil _ _

theorem longOne_value : longOne.value = ⟨10 ^ 16384, 16384⟩ := by
  have hone : numeral ['1'] = 1 := rfl
  have hnum : numeral (['1'] ++ List.replicate 16384 '0') = 10 ^ 16384 := by
    rw [numeral_append, numeral_replicate, List.length_replicate, hone, Nat.one_mul, Nat.add_zero]
  rw [Spelling.value]
  show Decimal.mk (1 * (numeral (['1'] ++ List.replicate 16384 '0') : ℤ)) (List.replicate 16384 '0').length = _
  rw [hnum, List.length_replicate, one_mul, Nat.cast_pow, Nat.cast_ofNat]

def withNul : LineInput := { transfer with description := [Char.ofNat 0] }

def withPlaces : LineInput := { transfer with amount := longOne.text }

theorem isSpace_of_isDigit {c : Char} (h : c.isDigit = true) : isSpace c = false := by
  obtain ⟨hlo, hhi⟩ := isDigit_bounds h
  rw [isSpace, Bool.or_eq_false_iff, Bool.and_eq_false_iff, decide_eq_false_iff_not, decide_eq_false_iff_not]
  refine ⟨fun hm => ?_, .inl (by omega)⟩
  simp only [List.mem_cons, List.not_mem_nil, or_false] at hm
  omega

theorem trimSpace_text (p : Spelling) : trimSpace p.text = p.text :=
  trim_eq_self ((Spelling.forall_mem_text (by decide) (by decide)).2 fun c hc => isSpace_of_isDigit (p.digits c hc))

theorem isData_of_trimmed {l : LineInput} (href : l.reference = none) (hd : trimSpace l.txnDate = l.txnDate)
    (ht : trimSpace l.description = l.description) (ha : trimSpace l.amount = l.amount)
    (hdate : ∃ date, IsDate l.txnDate date) (hne : l.description ≠ []) (hamount : IsAmount l.amount) :
    parseCSV (readsLine l) (csvLine l) = .ok [l] := by
  refine parseRecords_eq_ok.2 (.inl (.cons ⟨⟨_, _, _, [], rfl, Nat.zero_le _, hd.symm, ht.symm, ha.symm, ?_⟩, hdate, hne,
    hamount⟩ .nil))
  exact reference_eq_none.1 href.symm

theorem not_acceptable {readAll : CSVReader} {csvText : Text} {l : LineInput}
    (hp : parseCSV readAll csvText = .ok [l]) (hl : ¬Storable l) : ¬Acceptable readAll csvText := by
  rintro ⟨ls, hls, -, hall⟩
  obtain rfl := Except.ok.inj (hp.symm.trans hls)
  exact hl (hall l (List.mem_singleton_self _))

/-- The date and the amount of a line do not decide: a text with a null character is refused, and so is an amount with
more than 16383 places. -/
theorem import_refuses_datedAmount : ∃ s : Store DB, Reachable s ∧ ∃ st ∈ s.db.statements, st.status = .opened ∧
    ∀ l ∈ [withNul, withPlaces], parseCSV (readsLine l) (csvLine l) = .ok [l] ∧ DatedAmount l ∧
      importBankStatement (readsLine l) st.id (csvLine l) (fun _ => 0) s = ((422, none), s) := by
  obtain ⟨s, hs, -, hst⟩ := exists_gapped
  have hrefused : ∀ l : LineInput, parseCSV (readsLine l) (csvLine l) = .ok [l] → ¬Storable l → csvLine l ≠ [] →
      importBankStatement (readsLine l) 13 (csvLine l) (fun _ => 0) s = ((422, none), s) :=
    fun l hp hl hne => importBankStatement_refused hst rfl hs.statementLines_below hne (not_acceptable hp hl)
  have htyped : LineInput.typed { withNul with description := [] } = .ok ⟨⟨2026, 6, 10, by decide⟩, dollars 100⟩ := by
    decide +kernel
  obtain ⟨hdate, -, p, hp, -, hround⟩ := typed_eq_ok.1 htyped
  have hcomma : ∀ l : LineInput, csvLine l ≠ [] := fun l h => by
    rw [csvLine, List.append_eq_nil_iff] at h
    cases h.2
  refine ⟨s, hs, _, hst, rfl, fun l hl => ?_⟩
  rcases List.mem_cons.1 hl with rfl | hl
  · have hparse : parseCSV (readsLine withNul) (csvLine withNul) = .ok [withNul] := by decide +kernel
    refine ⟨hparse, ⟨⟨_, hdate⟩, p, hp, _, hround, by decide, by decide⟩, hrefused _ hparse (fun h => ?_) (hcomma _)⟩
    exact h.text _ (.inl rfl) (List.mem_singleton_self _)
  · obtain rfl := List.mem_singleton.1 hl
    have hone : longOne.value.toRat = 1 := by
      rw [longOne_value, Decimal.toRat, Int.cast_pow, Int.cast_ofNat]
      exact div_self (pow_ne_zero _ (by norm_num))
    have hamount : RoundsTo (longOne.value.toRat * 10 ^ 4) (dollars 1) := by
      rw [hone]
      have hexact : (1 : ℚ) * 10 ^ 4 = (dollars 1 : ℤ) := by norm_num [dollars]
      rw [hexact]
      exact ⟨by simp, fun h => by simp at h⟩
    have hparse : parseCSV (readsLine withPlaces) (csvLine withPlaces) = .ok [withPlaces] := by
      refine isData_of_trimmed rfl (by decide +kernel) (by decide +kernel) (trimSpace_text _) ⟨_, hdate.1⟩
        (by decide +kernel) ⟨longOne, rfl, ?_⟩
      rw [hone]
      exact one_ne_zero
    refine ⟨hparse, ⟨⟨_, hdate⟩, longOne, rfl, _, hamount, by decide, by decide⟩,
      hrefused _ hparse (fun h => ?_) (hcomma _)⟩
    obtain ⟨q, ⟨r, hr, hscale, -⟩, -⟩ := h.amount
    rw [Spelling.text_injective hr, longOne_value] at hscale
    have hlong : 16384 ≤ 16383 := hscale
    omega

end Banking
