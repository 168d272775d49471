import Tadmor.Proof.Changes
import Tadmor.Proof.Journal

/-!
# Bank reconciliation

A match is checked when it is written: against the account of the statement, the amount of the line and the other
matches.  Nothing changes these afterwards, and nothing changes a reconciled statement but its reopening.
-/

/-- The lines of a statement. -/
def DB.statementLinesOf (db : DB) (id : ℕ) : List BankStatementLine :=
  db.statementLines.rows.filter fun l => l.statementId = id

/-- The journal line `k` is a line of a posted entry, on the account of the statement of `l`, with the amount of
`l`. -/
def DB.Backs (db : DB) (k : ℕ) (l : BankStatementLine) : Prop :=
  ∃ st ∈ db.statements, st.id = l.statementId ∧ ∃ jl ∈ db.lines, jl.id = k ∧
    (∃ e ∈ db.entries, e.id = jl.journalEntryId ∧ e.status = .posted) ∧
    jl.accountId = st.accountId ∧ jl.debit - jl.credit = l.amount

/-- All lines of the statement are matched, and they lead from its opening to its closing balance. -/
def DB.Reconciles (db : DB) (st : BankStatement) : Prop :=
  (∀ l ∈ db.statementLinesOf st.id, l.journalLineId ≠ none) ∧
    st.openingBalance + ((db.statementLinesOf st.id).map (·.amount)).sum = st.closingBalance

structure DB.BankOk (db : DB) : Prop where
  statement : ∀ l ∈ db.statementLines, ∃ st ∈ db.statements, st.id = l.statementId
  backed : ∀ l ∈ db.statementLines, ∀ k, l.journalLineId = some k → db.Backs k l
  unique : ∀ l ∈ db.statementLines, ∀ m ∈ db.statementLines, ∀ k, l.journalLineId = some k →
    m.journalLineId = some k → l = m

/-! ### What a trigger has checked -/

theorem isReconciled_eq_false {db : DB} {id : ℕ} (h : db.isReconciled id = false) {st : BankStatement}
    (hst : st ∈ db.statements) (hid : st.id = id) : st.status = .opened := by
  simp only [DB.isReconciled, List.any_eq_false, Bool.and_eq_true, decide_eq_true_eq, not_and] at h
  cases hs : st.status with
  | opened => rfl
  | reconciled => exact absurd hs (h st hst hid)

/-- A line is written only while its statement is open. -/
theorem statementLineCheck_open {db : DB} {statement : ℕ} {amount : ℤ} {k : Option ℕ}
    (h : db.statementLineCheck statement amount k = .ok ()) {st : BankStatement} (hst : st ∈ db.statements)
    (hid : st.id = statement) : st.status = .opened := by
  have hfind : db.statements.find? statement = some st := hid ▸ Table.find?_key hst
  simp only [DB.statementLineCheck, hfind, Except.bind_eq_ok_iff, ensure_eq_ok, decide_eq_true_eq] at h
  obtain ⟨-, hs, -⟩ := h
  exact hs

theorem matchCheck_open {db : DB} {l : BankStatementLine} {k : Option ℕ} (h : db.matchCheck l.id k = .ok ())
    (hl : l ∈ db.statementLines) {st : BankStatement} (hst : st ∈ db.statements) (hid : st.id = l.statementId) :
    st.status = .opened := by
  have hfind : db.statementLines.find? l.id = some l := Table.find?_key hl
  simp only [DB.matchCheck, hfind] at h
  exact statementLineCheck_open h hst hid

/-- A match is with a line that backs the statement line. -/
theorem matchCheck_backs {db : DB} {l : BankStatementLine} {k : ℕ} (h : db.matchCheck l.id (some k) = .ok ())
    (hl : l ∈ db.statementLines) {st : BankStatement} (hst : st ∈ db.statements) (hid : st.id = l.statementId) :
    db.Backs k l := by
  have hfind : db.statementLines.find? l.id = some l := Table.find?_key hl
  have hfind' : db.statements.find? l.statementId = some st := hid ▸ Table.find?_key hst
  simp only [DB.matchCheck, hfind, DB.statementLineCheck, hfind', Except.bind_eq_ok_iff] at h
  obtain ⟨-, -, h⟩ := h
  split at h
  · cases h
  · rename_i jl hjl
    simp only [Except.bind_eq_ok_iff, ensure_eq_ok, exists_const, decide_eq_true_eq, Option.any_eq_true] at h
    obtain ⟨⟨e, he, hes⟩, hacc, hamt⟩ := h
    exact ⟨st, hst, hid, jl, Table.mem_of_find? hjl, Table.key_of_find? hjl,
      ⟨e, Table.mem_of_find? he, Table.key_of_find? he, hes⟩, hacc, hamt⟩

/-! ### Matches -/

theorem DB.Backs.mono {db db' : DB} {k : ℕ} {l : BankStatementLine} (h : db.Backs k l)
    (hst : ∀ st ∈ db.statements, st.id = l.statementId →
      ∃ st' ∈ db'.statements, st'.id = st.id ∧ st'.accountId = st.accountId)
    (hl : ∀ x ∈ db.lines, x ∈ db'.lines) (he : ∀ x ∈ db.entries, x ∈ db'.entries) : db'.Backs k l := by
  obtain ⟨st, hm, hid, jl, hjl, hk, ⟨e, hem, hee, hes⟩, hacc, hamt⟩ := h
  obtain ⟨st', hm', hid', hacc'⟩ := hst st hm hid
  exact ⟨st', hm', hid'.trans hid, jl, hl jl hjl, hk, ⟨e, he e hem, hee, hes⟩, hacc.trans hacc'.symm, hamt⟩

/-- Changes of the journal add rows. -/
theorem DB.BankOk.of_journal {db db' : DB} (h : db.BankOk) (hs : db'.statements = db.statements)
    (hsl : db'.statementLines = db.statementLines) (hl : ∀ x ∈ db.lines, x ∈ db'.lines)
    (he : ∀ x ∈ db.entries, x ∈ db'.entries) : db'.BankOk := by
  refine ⟨?_, fun l hm k hk => ?_, ?_⟩
  · rw [hs, hsl]
    exact h.statement
  · rw [hsl] at hm
    exact (h.backed l hm k hk).mono (fun st hst _ => ⟨st, hs ▸ hst, rfl, rfl⟩) hl he
  · rw [hsl]
    exact h.unique

/-- Changes of statements that keep them, and the accounts of those with matches. -/
theorem DB.BankOk.of_statements {db : DB} {ts : Table BankStatement} (h : db.BankOk)
    (hst : ∀ st ∈ db.statements, ∃ st' ∈ ts, st'.id = st.id ∧
      (st'.accountId = st.accountId ∨ ∀ l ∈ db.statementLines, l.statementId = st.id → l.journalLineId = none)) :
    { db with statements := ts }.BankOk := by
  refine ⟨fun l hl => ?_, fun l hl k hk => ?_, h.unique⟩
  · obtain ⟨st, hm, hid⟩ := h.statement l hl
    obtain ⟨st', hm', hid', -⟩ := hst st hm
    exact ⟨st', hm', hid'.trans hid⟩
  · refine (h.backed l hl k hk).mono (fun st hm hid => ?_) (fun _ hx => hx) fun _ hx => hx
    obtain ⟨st', hm', hid', hacc | hnone⟩ := hst st hm
    · exact ⟨st', hm', hid', hacc⟩
    · rw [hnone l hl hid.symm] at hk
      cases hk

/-- An update of statements that keeps the accounts. -/
theorem DB.BankOk.update_statements {db : DB} {ks : List ℕ} {f : BankStatement → BankStatement} (h : db.BankOk)
    (hf : ∀ st, (f st).id = st.id) (ha : ∀ st, (f st).accountId = st.accountId) :
    { db with statements := db.statements.update ks f hf }.BankOk := by
  refine h.of_statements fun st hst => ⟨_, (Table.mem_update hf).2 ⟨st, hst, rfl⟩, ?_⟩
  split
  · exact ⟨hf st, .inl (ha st)⟩
  · exact ⟨rfl, .inl rfl⟩

/-- Changes of the lines of statements: each line is an old one, or a new one that is unmatched or backed. -/
theorem DB.BankOk.of_lines {db : DB} {ts : Table BankStatementLine} (h : db.BankOk)
    (hst : ∀ l ∈ ts, ∃ st ∈ db.statements, st.id = l.statementId)
    (hl : ∀ l ∈ ts, ∀ k, l.journalLineId = some k → l ∈ db.statementLines ∨
      (db.Backs k l ∧ ∀ m ∈ ts, m.journalLineId = some k → m = l)) : { db with statementLines := ts }.BankOk := by
  refine ⟨hst, fun l hm k hk => ?_, fun l hm m hm' k hk hk' => ?_⟩
  · rcases hl l hm k hk with hold | ⟨hb, -⟩
    · exact h.backed l hold k hk
    · exact hb
  · rcases hl l hm k hk with hold | ⟨-, hu⟩
    · rcases hl m hm' k hk' with hold' | ⟨-, hu⟩
      · exact h.unique l hold m hold' k hk hk'
      · exact hu l hm hk
    · exact (hu m hm' hk').symm

/-- The match of one line. -/
theorem DB.BankOk.match {db : DB} {id k : ℕ} (h : db.BankOk) (hk : db.MayMatch id k) :
    { db with statementLines := db.statementLines.update [id] (·.matched (some k)) fun _ => rfl }.BankOk := by
  have hkey : ∀ l : BankStatementLine, Keyed.key (l.matched (some k)) = Keyed.key l := fun _ => rfl
  refine h.of_lines (fun l hl => ?_) fun l hl k' hk' => ?_
  · rcases Table.mem_update_cases hkey hl with ⟨hl, -⟩ | ⟨x, hx, -, rfl⟩
    · exact h.statement l hl
    · exact h.statement x hx
  · rcases Table.mem_update_cases hkey hl with ⟨hl, -⟩ | ⟨x, hx, hid, rfl⟩
    · exact .inl hl
    · right
      obtain rfl : k = k' := Option.some.inj hk'
      have hxid : x.id = id := List.mem_singleton.1 hid
      obtain ⟨st, hst, hstid⟩ := h.statement x hx
      have hb : db.Backs k x := matchCheck_backs (hxid ▸ hk.check) hx hst hstid
      refine ⟨hb, fun m hm hmk => ?_⟩
      rcases Table.mem_update_cases hkey hm with ⟨hm, hne⟩ | ⟨y, hy, hyid, rfl⟩
      · exact absurd hmk (hk.unique m hm fun e => hne (List.mem_singleton.2 e))
      · rw [Table.key_inj hy hx ((List.mem_singleton.1 hyid).trans hxid.symm)]

theorem Change.bankOk {n : ℕ} {db db' : DB} {op : Op} {cs : List (DB → Except Err Unit)}
    (h : Change n db op db' cs) (hf : Fresh n db) (hi : db.BankOk) : db'.BankOk := by
  cases h with
  | elsewhere h =>
    exact hi.of_journal h.statements h.statementLines (fun x hx => h.lines ▸ hx) fun x hx => h.entries ▸ hx
  | entry e hid hs => exact hi.of_journal rfl rfl (fun _ hx => hx) fun _ hx => Table.mem_insert_of_mem hx
  | lines je hr =>
    exact hi.of_journal rfl rfl (fun x hx => (Table.mem_insertAll (hf.lines.allFree (newRows_eq_ok hr))).2 (.inl hx))
      fun _ hx => hx
  | newStatement input h =>
    exact hi.of_statements fun st hst => ⟨st, Table.mem_insert_of_mem hst, rfl, .inl rfl⟩
  | editStatement id input hr hm =>
    have hkey : ∀ st : BankStatement, Keyed.key (st.edited input) = Keyed.key st := fun _ => rfl
    refine hi.of_statements fun st hst => ⟨_, (Table.mem_update hkey).2 ⟨st, hst, rfl⟩, ?_⟩
    split
    · rename_i hk
      refine ⟨rfl, ?_⟩
      obtain ⟨hid, -⟩ := Table.mem_hit.1 hk
      have hfind : db.statements.find? id = some st := hid ▸ Table.find?_key hst
      simp only [hfind, Option.all_some, Bool.or_eq_true, decide_eq_true_eq, Bool.not_eq_true'] at hm
      rcases hm with hacc | hnone
      · exact .inl hacc.symm
      · right
        intro l hl hls
        simp only [DB.hasMatched, List.any_eq_false, Bool.and_eq_true, decide_eq_true_eq, not_and] at hnone
        have := hnone l hl (hls.trans hid)
        simpa using this
    · exact ⟨rfl, .inl rfl⟩
  | deleteStatement id hr =>
    have hgone : ∀ l ∈ db.statementLines.erase (db.statementLines.keysWhere fun l => l.statementId = id),
        l ∈ db.statementLines ∧ l.statementId ≠ id := by
      intro l hl
      obtain ⟨hm, hne⟩ := Table.mem_erase_keysWhere.1 hl
      exact ⟨hm, of_decide_eq_false hne⟩
    have hkeep : ∀ st ∈ db.statements, st.id ≠ id → st ∈ db.statements.erase (db.statements.hit id fun _ => true) :=
      fun st hst hne => Table.mem_erase.2 ⟨hst, fun hk => hne (Table.mem_hit.1 hk).1⟩
    refine ⟨fun l hl => ?_, fun l hl k hk => ?_, fun l hl m hm k hk hk' => ?_⟩
    · obtain ⟨hl, hne⟩ := hgone l hl
      obtain ⟨st, hst, hid⟩ := hi.statement l hl
      exact ⟨st, hkeep st hst (hid ▸ hne), hid⟩
    · obtain ⟨hl, hne⟩ := hgone l hl
      refine (hi.backed l hl k hk).mono (fun st hst hid => ⟨st, hkeep st hst (hid ▸ hne), rfl, rfl⟩) (fun _ hx => hx)
        fun _ hx => hx
    · exact hi.unique l (hgone l hl).1 m (hgone m hm).1 k hk hk'
  | addLine statement lineNo all input h hs =>
    refine hi.of_lines (fun l hl => ?_) fun l hl k hk => ?_
    · rcases Table.mem_of_mem_insert hl with hl | rfl
      · exact hi.statement l hl
      · obtain ⟨st, hst⟩ := Option.isSome_iff_exists.1 hs
        exact ⟨st, Table.mem_of_find? hst, Table.key_of_find? hst⟩
    · rcases Table.mem_of_mem_insert hl with hl | rfl
      · exact .inl hl
      · cases hk
  | deleteLine id h =>
    exact hi.of_lines (fun l hl => hi.statement l (Table.mem_erase.1 hl).1)
      fun l hl _ _ => .inl (Table.mem_erase.1 hl).1
  | matchLine id k h => exact hi.match h
  | autoMatch statement id k hk h => exact hi.match h
  | unmatchLine id h =>
    refine hi.of_lines (fun l hl => ?_) fun l hl k hk => ?_
    · rcases Table.mem_update_cases (by intro; rfl) hl with ⟨hl, -⟩ | ⟨x, hx, -, rfl⟩
      · exact hi.statement l hl
      · exact hi.statement x hx
    · rcases Table.mem_update_cases (by intro; rfl) hl with ⟨hl, -⟩ | ⟨x, hx, -, rfl⟩
      · exact .inl hl
      · cases hk
  | reconcile id hu hb => exact hi.update_statements _ fun _ => rfl
  | reopen id => exact hi.update_statements _ fun _ => rfl
  | _ => exact hi.of_journal rfl rfl (fun _ hx => hx) fun _ hx => hx

/-! ### Reconciled statements -/

/-- The statement and its lines are as they were. -/
def DB.SameStatement (st : BankStatement) (db db' : DB) : Prop :=
  st ∈ db'.statements ∧ db'.statementLinesOf st.id = db.statementLinesOf st.id

theorem DB.SameStatement.of_same {db db' : DB} {st : BankStatement} (hst : st ∈ db.statements)
    (hs : db'.statements = db.statements) (hl : db'.statementLines = db.statementLines) : DB.SameStatement st db db' := by
  refine ⟨hs ▸ hst, ?_⟩
  unfold DB.statementLinesOf
  rw [hl]

/-- An update of the lines of another statement. -/
theorem statementLinesOf_update {db : DB} {lineId id : ℕ} {k : Option ℕ}
    (h : ∀ l ∈ db.statementLines, l.id = lineId → l.statementId ≠ id) :
    { db with statementLines := db.statementLines.update [lineId] (·.matched k) fun _ => rfl }.statementLinesOf id =
      db.statementLinesOf id := by
  show ((_ : List BankStatementLine).map _).filter _ = _
  rw [List.filter_map]
  refine (List.map_congr_left fun l hl => ?_).trans ((List.map_id _).trans (List.filter_congr fun l hl => ?_))
  · obtain ⟨hm, hid⟩ := List.mem_filter.1 hl
    refine if_neg fun hk => ?_
    have hne := h l hm (List.mem_singleton.1 hk)
    simp only [Function.comp_apply, hk, if_true] at hid
    exact hne (of_decide_eq_true hid)
  · simp only [Function.comp_apply]
    split
    · rfl
    · rfl

/-- Only its reopening changes a reconciled statement or its lines. -/
theorem Change.sameStatement {n : ℕ} {db db' : DB} {op : Op} {cs : List (DB → Except Err Unit)} {st : BankStatement}
    (h : Change n db op db' cs) (hst : st ∈ db.statements) (hs : st.status = .reconciled)
    (hop : op ≠ .reopenStatement st.id) : DB.SameStatement st db db' := by
  -- no line of the statement passes the trigger
  have hno : ∀ {id : ℕ} {k : Option ℕ}, db.matchCheck id k = .ok () → ∀ l ∈ db.statementLines, l.id = id →
      l.statementId ≠ st.id := by
    rintro _ k hc l hl rfl e
    have := matchCheck_open hc hl hst e.symm
    rw [hs] at this
    cases this
  cases h with
  | elsewhere h => exact .of_same hst h.statements h.statementLines
  | newStatement input h => exact ⟨Table.mem_insert_of_mem hst, rfl⟩
  | editStatement id input hr hm =>
    refine ⟨(Table.mem_update (by intro; rfl)).2 ⟨st, hst, if_neg fun hk => ?_⟩, rfl⟩
    have := isReconciled_eq_false hr hst (Table.mem_hit.1 hk).1
    rw [hs] at this
    cases this
  | deleteStatement id hr =>
    have hne : st.id ≠ id := by
      intro e
      have := isReconciled_eq_false hr hst e
      rw [hs] at this
      cases this
    refine ⟨Table.mem_erase.2 ⟨hst, fun hk => hne (Table.mem_hit.1 hk).1⟩, ?_⟩
    show ((_ : List BankStatementLine).filter _).filter _ = _
    rw [List.filter_filter]
    refine List.filter_congr fun l hl => ?_
    by_cases hid : l.statementId = st.id
    · have hk : Keyed.key l ∉ db.statementLines.keysWhere fun l => l.statementId = id := by
        rw [Table.mem_keysWhere hl]
        simpa [hid] using hne
      simp [hid, hk]
    · simp [hid]
  | addLine statement lineNo all input h hsome =>
    refine ⟨hst, ?_⟩
    have hne : statement ≠ st.id := by
      rintro rfl
      have := statementLineCheck_open h hst rfl
      rw [hs] at this
      cases this
    show (db.statementLines.insert _).rows.filter _ = _
    unfold Table.insert
    split
    · rfl
    · show (_ ++ [_]).filter _ = _
      rw [List.filter_append, List.filter_singleton]
      simp [StatementLineInput.row, hne, DB.statementLinesOf]
  | deleteLine id h =>
    refine ⟨hst, ?_⟩
    show ((_ : List BankStatementLine).filter _).filter _ = _
    rw [List.filter_filter]
    refine List.filter_congr fun l hl => ?_
    by_cases hid : l.statementId = st.id
    · have hk : Keyed.key l ∉ db.statementLines.hit id fun _ => true :=
        fun hk => hno h l hl (Table.mem_hit.1 hk).1 hid
      simp [hid, hk]
    · simp [hid]
  | matchLine id k h => exact ⟨hst, statementLinesOf_update (hno h.check)⟩
  | autoMatch statement id k hk h => exact ⟨hst, statementLinesOf_update (hno h.check)⟩
  | unmatchLine id h => exact ⟨hst, statementLinesOf_update (hno h)⟩
  | reconcile id hu hb =>
    refine ⟨(Table.mem_update (by intro; rfl)).2 ⟨st, hst, ?_⟩, rfl⟩
    split
    · rw [← hs]
    · rfl
  | reopen id =>
    refine ⟨(Table.mem_update (by intro; rfl)).2 ⟨st, hst, if_neg fun hk => hop ?_⟩, rfl⟩
    rw [show st.id = id from (Table.mem_hit.1 hk).1]
  | _ => exact .of_same hst rfl rfl

theorem DB.Reconciles.of_same {db db' : DB} {st : BankStatement} (h : db.Reconciles st)
    (hl : db'.statementLinesOf st.id = db.statementLinesOf st.id) : db'.Reconciles st := by
  unfold DB.Reconciles
  rw [hl]
  exact h

/-- A statement that is reconciled after a change was so before, with the same lines, or the change reconciled it. -/
theorem Change.reconciled_cases {n : ℕ} {db db' : DB} {op : Op} {cs : List (DB → Except Err Unit)} {st : BankStatement}
    (h : Change n db op db' cs) (hst : st ∈ db'.statements) (hs : st.status = .reconciled) :
    (st ∈ db.statements ∧ db'.statementLinesOf st.id = db.statementLinesOf st.id) ∨
      (db.unmatched st.id = 0 ∧ db.balances? st.id ∧ db'.statementLines = db.statementLines ∧
        ∃ x, db.statements.find? st.id = some x ∧ st = { x with status := .reconciled }) := by
  have hlines : st ∈ db.statements → op ≠ .reopenStatement st.id →
      db'.statementLinesOf st.id = db.statementLinesOf st.id := fun hm hop => (h.sameStatement hm hs hop).2
  cases h with
  | elsewhere h => exact .inl ⟨h.statements ▸ hst, by unfold DB.statementLinesOf; rw [h.statementLines]⟩
  | newStatement input h =>
    rcases Table.mem_of_mem_insert hst with hst | rfl
    · exact .inl ⟨hst, rfl⟩
    · cases hs
  | editStatement id input hr hm =>
    rcases Table.mem_update_cases (by intro; rfl) hst with ⟨hst, -⟩ | ⟨x, hx, hk, rfl⟩
    · exact .inl ⟨hst, rfl⟩
    · have hopen := isReconciled_eq_false hr hx (Table.mem_hit.1 hk).1
      exact absurd (hopen.symm.trans hs) (by decide)
  | deleteStatement id hr =>
    have hst := (Table.mem_erase.1 hst).1
    exact .inl ⟨hst, hlines hst (by nofun)⟩
  | reconcile id hu hb =>
    rcases Table.mem_update_cases (by intro; rfl) hst with ⟨hst, -⟩ | ⟨x, hx, hk, rfl⟩
    · exact .inl ⟨hst, rfl⟩
    · have hid : x.id = id := (Table.mem_hit.1 hk).1
      subst hid
      exact .inr ⟨hu, hb, rfl, x, Table.find?_key hx, rfl⟩
  | reopen id =>
    rcases Table.mem_update_cases (by intro; rfl) hst with ⟨hst, -⟩ | ⟨x, -, -, rfl⟩
    · exact .inl ⟨hst, rfl⟩
    · cases hs
  | addLine => exact .inl ⟨hst, hlines hst (by nofun)⟩
  | deleteLine => exact .inl ⟨hst, hlines hst (by nofun)⟩
  | matchLine => exact .inl ⟨hst, hlines hst (by nofun)⟩
  | autoMatch => exact .inl ⟨hst, hlines hst (by nofun)⟩
  | unmatchLine => exact .inl ⟨hst, hlines hst (by nofun)⟩
  | _ => exact .inl ⟨hst, rfl⟩

/-- Every reconciled statement reconciles. -/
def DB.AllReconcile (db : DB) : Prop := ∀ st ∈ db.statements, st.status = .reconciled → db.Reconciles st

theorem Change.allReconcile {n : ℕ} {db db' : DB} {op : Op} {cs : List (DB → Except Err Unit)}
    (h : Change n db op db' cs) (hi : db.AllReconcile) : db'.AllReconcile := by
  intro st hst hs
  rcases h.reconciled_cases hst hs with ⟨hold, hsame⟩ | ⟨hu, hb, hl, x, hx, rfl⟩
  · exact (hi st hold hs).of_same hsame
  · have hsame : db'.statementLinesOf x.id = db.statementLinesOf x.id := by
      unfold DB.statementLinesOf
      rw [hl]
    have hrec : db.Reconciles { x with status := .reconciled } := by
      refine ⟨fun l hl hnone => ?_, ?_⟩
      · obtain ⟨hm, hid⟩ := List.mem_filter.1 hl
        have := List.countP_eq_zero.1 hu l hm
        simp only [Bool.and_eq_true, decide_eq_true_eq, not_and] at this
        exact this (of_decide_eq_true hid) hnone
      · simp only [DB.balances?, hx, Option.any_some, decide_eq_true_eq] at hb
        exact hb
    exact hrec.of_same hsame

/-! ### Runs -/

theorem commit_bank {op : Op} {gaps : ℕ → ℕ} {s s' : Store DB} (h : (transaction op).commit gaps s = .ok ((), s'))
    (hs : Fresh s.seq s.db) (hi : s.db.BankOk) (hr : s.db.AllReconcile) : s'.db.BankOk ∧ s'.db.AllReconcile := by
  obtain ⟨-, hboth, -⟩ := commit_changes (I := fun db _ => db.BankOk ∧ db.AllReconcile)
    (fun hf hi hc => ⟨hc.bankOk hf hi.1, hc.allReconcile hi.2⟩) h hs ⟨hi, hr⟩
  exact hboth

theorem Reachable.bank {s : Store DB} (h : Reachable s) : s.db.BankOk ∧ s.db.AllReconcile := by
  refine h.invariant (I := fun s => s.db.BankOk ∧ s.db.AllReconcile) ⟨⟨?_, ?_, ?_⟩, ?_⟩
    fun s s' hr hi ⟨op, gaps, hc⟩ => commit_bank hc hr.fresh hi.1 hi.2
  · exact fun l hl => absurd hl (Table.not_mem_empty l)
  · exact fun l hl => absurd hl (Table.not_mem_empty l)
  · exact fun l hl => absurd hl (Table.not_mem_empty l)
  · exact fun st hst => absurd hst (Table.not_mem_empty st)

/-- A reconciled statement stays as it is, operation by operation, until it is reopened. -/
theorem commit_sameStatement {op : Op} {gaps : ℕ → ℕ} {s s' : Store DB} {st : BankStatement}
    (h : (transaction op).commit gaps s = .ok ((), s')) (hs : Fresh s.seq s.db) (hst : st ∈ s.db.statements)
    (hr : st.status = .reconciled) (hop : op ≠ .reopenStatement st.id) : DB.SameStatement st s.db s'.db := by
  obtain ⟨-, hsame, -⟩ := commit_changes (I := fun db _ => DB.SameStatement st s.db db)
    (fun hf hi hc => by
      obtain ⟨hm, hl⟩ := hc.sameStatement hi.1 hr hop
      exact ⟨hm, hl.trans hi.2⟩) h hs ⟨hst, rfl⟩
  exact hsame

theorem Runs.sameStatement {s s' : Store DB} {st : BankStatement} (hs : Reachable s) (hst : st ∈ s.db.statements)
    (hr : st.status = .reconciled) (hrun : Runs (fun _ op => op ≠ .reopenStatement st.id) s s') :
    DB.SameStatement st s.db s'.db := by
  induction hrun with
  | refl => exact ⟨hst, rfl⟩
  | step hrun hop hc ih =>
    obtain ⟨hm, hl⟩ := commit_sameStatement hc (hrun.reachable hs).fresh ih.1 hr hop
    exact ⟨hm, hl.trans ih.2⟩

/-- In every reachable state a matched statement line points at a line of a posted entry on the account of its
statement with its amount, no journal line backs two of them, and a reconciled statement has all lines matched and
balances; it and its lines stay the same until it is reopened. -/
theorem bank_matches_truthful {s : Store DB} (h : Reachable s) :
    (∀ l ∈ s.db.statementLines, ∀ k, l.journalLineId = some k → s.db.Backs k l) ∧
    (∀ l ∈ s.db.statementLines, ∀ m ∈ s.db.statementLines, ∀ k, l.journalLineId = some k →
      m.journalLineId = some k → l = m) ∧
    ∀ st ∈ s.db.statements, st.status = .reconciled → s.db.Reconciles st ∧
      ∀ s', Runs (fun _ op => op ≠ .reopenStatement st.id) s s' →
        st ∈ s'.db.statements ∧ s'.db.statementLinesOf st.id = s.db.statementLinesOf st.id ∧ s'.db.Reconciles st := by
  obtain ⟨hok, hrec⟩ := h.bank
  refine ⟨hok.backed, hok.unique, fun st hst hs => ⟨hrec st hst hs, fun s' hrun => ?_⟩⟩
  obtain ⟨hm, hl⟩ := Runs.sameStatement h hst hs hrun
  exact ⟨hm, hl, (hrec st hst hs).of_same hl⟩

/-- The invoice is paid and the bank line of the payment matched and reconciled, then the invoice is unposted: the
statement (25) keeps its line. -/
theorem bank_matches_truthful_reconciled : ∃ s s' : Store DB, Reachable s ∧
    s'.db.entries.rows.length = s.db.entries.rows.length + 1 ∧ ∃ st ∈ s.db.statements, st.status = .reconciled ∧
      s.db.Reconciles st ∧ (s.db.statementLinesOf st.id).map (·.journalLineId) = [some 23] ∧
      s'.db.statementLinesOf st.id = s.db.statementLinesOf st.id ∧ s'.db.Reconciles st := by
  obtain ⟨s, s', hs, hrun, hq⟩ := exists_runs
    (opening ++ [.postDoc .salesInvoice 15, .createPayment .sales (paymentInput 100), .postPayment .sales 21,
      .createStatement ⟨1, 0, dollars 100⟩, .addLines 25 [⟨day 3 6, dollars 100⟩], .autoMatch 25, .reconcile 25])
    [.unpostInvoice .sales 15] (p := fun _ op => match op with | .reopenStatement _ => false | _ => true)
    (q := fun s s' => s'.db.entries.rows.length = s.db.entries.rows.length + 1 ∧
      (s.db.statements.find? 25).any (·.status = .reconciled) ∧
      (s.db.statementLinesOf 25).map (·.journalLineId) = [some 23]) (by decide +kernel)
  obtain ⟨hnew, hst, hlines⟩ := of_decide_eq_true hq
  obtain ⟨st, hfind, hr⟩ := (Option.any_eq_true ..).1 hst
  have hid : st.id = 25 := Table.key_of_find? hfind
  have hm := Table.mem_of_find? hfind
  obtain ⟨hrec, hfrozen⟩ := (bank_matches_truthful hs).2.2 st hm (of_decide_eq_true hr)
  obtain ⟨-, hsame, hrec'⟩ := hfrozen s' (hrun.mono fun s op h e => by rw [e] at h; cases h)
  exact ⟨s, s', hs, hnew, st, hm, of_decide_eq_true hr, hrec, by rw [hid]; exact hlines, hsame, hrec'⟩

/-! ### Ids of lines -/

/-- Only added lines have new ids. -/
theorem Change.statementLine_ids {n : ℕ} {db db' : DB} {op : Op} {cs : List (DB → Except Err Unit)}
    (h : Change n db op db' cs) (hop : ∀ statement ls, op ≠ .addLines statement ls) {l : BankStatementLine}
    (hl : l ∈ db'.statementLines) : ∃ x ∈ db.statementLines, x.id = l.id := by
  have hupdate : ∀ (ks : List ℕ) (k : Option ℕ),
      l ∈ db.statementLines.update ks (·.matched k) (fun _ => rfl) → ∃ x ∈ db.statementLines, x.id = l.id := by
    intro ks k hm
    rcases Table.mem_update_cases (by intro; rfl) hm with ⟨hm, -⟩ | ⟨x, hx, -, rfl⟩
    · exact ⟨l, hm, rfl⟩
    · exact ⟨x, hx, rfl⟩
  cases h with
  | elsewhere h => exact ⟨l, h.statementLines ▸ hl, rfl⟩
  | deleteStatement id hr => exact ⟨l, (Table.mem_erase.1 hl).1, rfl⟩
  | addLine statement lineNo all input h hs => exact absurd rfl (hop statement all)
  | deleteLine id h => exact ⟨l, (Table.mem_erase.1 hl).1, rfl⟩
  | matchLine id k h => exact hupdate _ _ hl
  | autoMatch statement id k hk h => exact hupdate _ _ hl
  | unmatchLine id h => exact hupdate _ _ hl
  | _ => exact ⟨l, hl, rfl⟩

theorem keeps_below_addLines (statement : ℕ) (ls : List StatementLineInput) :
    (addLines statement ls).All (Prog.Keeps fun n db => db.statementLines.Below n) := by
  have hread : ∀ {α : Type} (f : DB → Except Err α),
      (Prog.query f : Txn α).All (Prog.Keeps fun n db => db.statementLines.Below n) := by
    intro α f
    refine Prog.all_exec fun n db o h ho => ?_
    cases hf : f db with
    | error e =>
      rw [hf] at ho
      cases ho
    | ok a =>
      rw [hf] at ho
      cases ho
      exact h
  induction ls with
  | nil => exact Prog.all_pure _
  | cons l ls ih =>
    refine Prog.All.bind (Prog.All.bind ((hread _).bind fun _ => Prog.all_require _ _) fun _ =>
      Prog.All.bind (Prog.all_exec fun n db o h ho => ?_) fun _ => Prog.all_exec fun n db o h ho => ?_) fun _ => ih
    · cases ho
      exact h
    · simp only [Except.bind_eq_ok_iff, ensure_eq_ok, exists_const, Except.ok.injEq] at ho
      obtain ⟨-, -, -, -, -, -, rfl⟩ := ho
      exact h.insert rfl

/-- The ids of the lines are below the sequence. -/
theorem Reachable.statementLines_below {s : Store DB} (h : Reachable s) : s.db.statementLines.Below s.seq := by
  refine h.invariant (I := fun s => s.db.statementLines.Below s.seq) (fun l hl => absurd hl (Table.not_mem_empty l))
    fun s s' hr hi ⟨op, gaps, hc⟩ => ?_
  obtain ⟨v, hrun, -, rfl⟩ := Prog.commit_eq_ok.1 hc
  by_cases hop : ∃ statement ls, op = .addLines statement ls
  · obtain ⟨statement, ls, rfl⟩ := hop
    exact Prog.run_keeps (fun _ _ _ hle hb => hb.mono hle) (keeps_below_addLines statement ls) hrun hi
  · obtain ⟨-, hids, -⟩ := commit_changes
      (I := fun db _ => ∀ l ∈ db.statementLines, ∃ x ∈ s.db.statementLines, x.id = l.id)
      (fun _ hi hc l hl => by
        obtain ⟨y, hy, hid⟩ := hc.statementLine_ids (fun st ls e => hop ⟨st, ls, e⟩) hl
        obtain ⟨x, hx, hxid⟩ := hi y hy
        exact ⟨x, hx, hxid.trans hid⟩) hc hr.fresh fun l hl => ⟨l, hl, rfl⟩
    intro l hl
    obtain ⟨x, hx, hid⟩ := hids l hl
    show l.id < v.seq
    rw [← hid]
    exact (hi x hx).trans_le (Prog.run_seq_le hrun)
