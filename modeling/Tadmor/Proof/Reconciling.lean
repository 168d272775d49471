import Tadmor.Proof.Statements
import Tadmor.Store.Interference

/-!
# Reconciling while others write

`Reconcile` reads the lines and writes the statement, the operations on lines read the statement and write lines, and
their row locks do not conflict.  The statement is really reconciled as long as neither side commits between the last
statement of the other and its commit.  Changes of the header conflict with `Reconcile` on the lock of the statement.
-/

/-- Whatever is there under the id is open. -/
def DB.OpenAt (db : DB) (id : ℕ) : Prop := ∀ st, db.statements.find? id = some st → st.status = .opened

/-- Every line of the statement is matched, and the statement adds up. -/
def DB.Adds (db : DB) (id : ℕ) : Prop := db.unmatched id = 0 ∧ db.balances? id = true

theorem DB.OpenAt.congr {db db' : DB} {id : ℕ} (h : db.OpenAt id) (hs : db'.statements = db.statements) :
    db'.OpenAt id := by
  unfold DB.OpenAt
  rw [hs]
  exact h

theorem DB.Adds.congr {db db' : DB} {id : ℕ} (h : db.Adds id) (hs : db'.statements = db.statements)
    (hl : db'.statementLines = db.statementLines) : db'.Adds id := by
  unfold DB.Adds DB.unmatched DB.balances?
  rw [hs, hl]
  exact h

/-- The line that the operation deletes or unmatches. -/
def Op.bankLine : Op → Option ℕ
  | .deleteLine id => some id
  | .unmatchLine id => some id
  | _ => none

def Op.writesLines : Op → Bool
  | .addLines _ _ => true
  | .deleteLine _ => true
  | .unmatchLine _ => true
  | _ => false

def Op.reconciles : Op → Bool
  | .reconcile _ => true
  | _ => false

/-- One of the operations on the statement `id`; a line it names is one of the statement's. -/
def Op.OnStatement (op : Op) (db : DB) (id : ℕ) : Prop :=
  op = .reconcile id ∨ (∃ lines, op = .addLines id lines) ∨ (∃ input, op = .updateStatement id input) ∨
    ∃ l, (op = .deleteLine l ∨ op = .unmatchLine l) ∧ ∀ x ∈ db.statementLines, x.id = l → x.statementId = id

/-! ### Programs that write lines -/

section programs

variable (T : DB → Prop) (id : ℕ)

/-- The last statement of the program that runs finds the statement open. -/
def Recheck : Txn Unit → Prop
  | .pure _ => True
  | .throw _ => True
  | .stmt r k => ∀ n db o, T db → r n db = .ok o → ((k o.res).isPure = true → db.OpenAt id) ∧ Recheck (k o.res)

/-- The program writes nothing but lines, keeps `T`, and finds the statement open where it writes and thereafter. -/
def WritesLines : Txn Unit → Prop
  | .pure _ => True
  | .throw _ => True
  | .stmt r k => ∀ n db o, T db → r n db = .ok o →
    (∀ d, (o.act d).statements = d.statements) ∧ (∀ d, T d → T (o.act d)) ∧
    ((∀ d, (o.act d).statementLines = d.statementLines) ∨ db.OpenAt id ∧ Recheck T id (k o.res)) ∧ WritesLines (k o.res)

variable {T id}

theorem writesLines_query {α : Type} {f : DB → Except Err α} {k : α → Txn Unit} (h : ∀ a, WritesLines T id (k a)) :
    WritesLines T id (Prog.query f >>= k) := by
  intro n db o _ ho
  cases hf : f db with
  | error e => simp [hf, Except.map] at ho
  | ok a =>
    simp only [hf, Except.map, Except.ok.injEq] at ho
    cases ho
    exact ⟨fun _ => rfl, fun _ h => h, .inl fun _ => rfl, h a⟩

theorem writesLines_require {b : Bool} {e : Err} {k : Unit → Txn Unit} (h : WritesLines T id (k ())) :
    WritesLines T id (Prog.require b e >>= k) := by
  cases b with
  | false => trivial
  | true => exact h

theorem writesLines_requireOpen {k : Unit → Txn Unit} (h : WritesLines T id (k ())) (s : ℕ) :
    WritesLines T id (requireOpen s >>= k) := by
  rw [requireOpen, Prog.bind_assoc]
  exact writesLines_query fun _ => writesLines_require h

theorem writesLines_lineStatement {k : ℕ → Txn Unit} (h : ∀ s, WritesLines T id (k s)) (line : ℕ) :
    WritesLines T id (lineStatement line >>= k) := by
  rw [lineStatement, Prog.bind_assoc]
  refine writesLines_query fun x => ?_
  show WritesLines T id ((Prog.require _ _ >>= fun _ => pure x.1) >>= k)
  rw [Prog.bind_assoc]
  exact writesLines_require (h x.1)

theorem recheck_query {α : Type} {f : DB → Except Err α} {k : α → Txn Unit} (hp : ∀ a, (k a).isPure = false)
    (h : ∀ a, Recheck T id (k a)) : Recheck T id (Prog.query f >>= k) := by
  intro n db o _ ho
  cases hf : f db with
  | error e => simp [hf, Except.map] at ho
  | ok a =>
    simp only [hf, Except.map, Except.ok.injEq] at ho
    cases ho
    exact ⟨fun hpure => absurd ((hp a).symm.trans hpure) Bool.false_ne_true, h a⟩

/-! ### Adding lines -/

/-- The INSERT of `AddLine`. -/
def insertLine (statement : ℕ) (input : StatementLineInput) (lineNo : ℕ) : Txn ℕ := Prog.exec fun n db => do
  ensure (fits input.amount) (.sql .numericValueOutOfRange "bank_statement_lines")
  db.statementLineCheck statement input.amount none
  ensure (input.amount ≠ 0) (.sql .checkViolation "bank_statement_lines_amount_check")
  ensure (db.statementLines.rows.all fun l => l.statementId ≠ statement || l.lineNo ≠ lineNo)
    (.sql .uniqueViolation "bank_statement_lines_line_no_uq")
  ensure (db.statements.find? statement).isSome (.sql .foreignKeyViolation "bank_statement_lines_statement_id_fkey")
  .ok {
    res := n
    used := 1
    act := fun d => { d with statementLines := d.statementLines.insert (input.row statement n lineNo) }
    locks := [.lineNo statement lineNo, .keyShare .statement statement] }

theorem addLines_cons (statement : ℕ) (l : StatementLineInput) (ls : List StatementLineInput) :
    addLines statement (l :: ls) = (requireOpen statement >>= fun _ => Prog.read (·.nextLineNo statement) >>= fun n =>
      insertLine statement l n >>= fun _ => addLines statement ls) := by
  rw [addLines, AddLine, Prog.bind_assoc]
  rfl

theorem openAt_of_check {db : DB} {amount : ℤ} {journalLine : Option ℕ}
    (h : db.statementLineCheck id amount journalLine = .ok ()) : db.OpenAt id := by
  intro st hst
  simp only [DB.statementLineCheck, hst, Except.bind_eq_ok_iff, ensure_eq_ok, exists_const, decide_eq_true_eq] at h
  exact h.1

theorem insertLine_eq_ok {input : StatementLineInput} {lineNo n : ℕ} {db : DB} {o : Outcome DB Lock Err ℕ}
    {r : ℕ → DB → Except Err (Outcome DB Lock Err ℕ)} (hr : insertLine id input lineNo = Prog.exec r)
    (ho : r n db = .ok o) : db.OpenAt id ∧
      o.act = fun d => { d with statementLines := d.statementLines.insert (input.row id n lineNo) } := by
  cases hr
  simp only [Except.bind_eq_ok_iff, ensure_eq_ok, exists_const, Except.ok.injEq] at ho
  obtain ⟨-, u, hc, -, -, -, rfl⟩ := ho
  exact ⟨openAt_of_check hc, rfl⟩

theorem recheck_insertLine {input : StatementLineInput} {lineNo : ℕ} {k : ℕ → Txn Unit}
    (h : ∀ n, Recheck T id (k n)) : Recheck T id (insertLine id input lineNo >>= k) := fun _ _ _ _ ho =>
  ⟨fun _ => (insertLine_eq_ok rfl ho).1, h _⟩

theorem recheck_addLines (ls : List StatementLineInput) : Recheck T id (addLines id ls) := by
  induction ls with
  | nil => trivial
  | cons l ls ih =>
    rw [addLines_cons, requireOpen, Prog.bind_assoc]
    have hnext : ∀ n, Recheck T id (insertLine id l n >>= fun _ => addLines id ls) := fun _ =>
      recheck_insertLine fun _ => ih
    have hread : Recheck T id (Prog.read (·.nextLineNo id) >>= fun n => insertLine id l n >>= fun _ => addLines id ls) :=
      recheck_query (f := fun db => .ok (db.nextLineNo id)) (fun _ => rfl) hnext
    refine recheck_query (fun status => ?_) fun status => ?_
    · by_cases hs : status = .opened
      · simp only [hs, decide_true]
        rfl
      · simp only [hs, decide_false]
        rfl
    · by_cases hs : status = .opened
      · simp only [hs, decide_true]
        exact hread
      · simp only [hs, decide_false]
        trivial

/-- The writes keep `T`; a new line is one of the statement's. -/
structure KeepsLines (T : DB → Prop) (id : ℕ) : Prop where
  insert : ∀ d, T d → ∀ x : BankStatementLine, x.statementId = id →
    T { d with statementLines := d.statementLines.insert x }
  erase : ∀ d, T d → ∀ ks, T { d with statementLines := d.statementLines.erase ks }
  matched : ∀ d, T d → ∀ ks, T { d with statementLines := d.statementLines.update ks (·.matched none) fun _ => rfl }

theorem writesLines_addLines (hT : KeepsLines T id) (ls : List StatementLineInput) :
    WritesLines T id (addLines id ls) := by
  induction ls with
  | nil => trivial
  | cons l ls ih =>
    rw [addLines_cons]
    refine writesLines_requireOpen (writesLines_query (f := fun db => .ok (db.nextLineNo id)) fun n => ?_) id
    intro m db o _ ho
    obtain ⟨hopen, hact⟩ := insertLine_eq_ok rfl ho
    refine ⟨fun d => ?_, fun d hd => ?_, .inr ⟨hopen, recheck_addLines ls⟩, ih⟩
    · rw [hact]
    · rw [hact]
      exact hT.insert d hd _ rfl

/-! ### Deleting and unmatching a line -/

/-- The trigger of a line that is there, and so is one of the statement's. -/
theorem openAt_of_matchCheck {line : ℕ} {db : DB} {x : BankStatementLine} (hx : db.statementLines.find? line = some x)
    (hs : x.statementId = id) (h : db.matchCheck line none = .ok ()) : db.OpenAt id := by
  rw [DB.matchCheck, hx] at h
  have hc : db.statementLineCheck x.statementId x.amount none = .ok () := h
  rw [hs] at hc
  exact openAt_of_check hc

theorem writesLines_deleteLine (hT : KeepsLines T id) {line : ℕ}
    (hline : ∀ d, T d → ∀ x ∈ d.statementLines, x.id = line → x.statementId = id) :
    WritesLines T id (DeleteLine line) := by
  refine writesLines_lineStatement (fun _ => ?_) line
  intro n db o ht ho
  simp only [Except.bind_eq_ok_iff, Except.ok.injEq] at ho
  obtain ⟨u, hc, rfl⟩ := ho
  refine ⟨fun _ => rfl, fun d hd => hT.erase d hd _, ?_, trivial⟩
  cases hf : db.statementLines.find? line with
  | none =>
    have hnil : (db.statementLines.hit line fun _ => true) = [] := by simp [Table.hit, hf]
    left
    intro d
    show d.statementLines.erase _ = _
    rw [hnil, Table.erase_nil]
  | some x =>
    right
    exact ⟨openAt_of_matchCheck hf (hline db ht x (Table.mem_of_find? hf) (Table.key_of_find? hf)) hc, trivial⟩

theorem writesLines_unmatchLine (hT : KeepsLines T id) {line : ℕ}
    (hline : ∀ d, T d → ∀ x ∈ d.statementLines, x.id = line → x.statementId = id) :
    WritesLines T id (UnmatchLine line) := by
  refine writesLines_lineStatement (fun _ => ?_) line
  intro n db o ht ho
  change setMatch db line _ _ = _ at ho
  unfold setMatch at ho
  split at ho
  · cases ho
    exact ⟨fun _ => rfl, fun _ hd => hd, .inl fun _ => rfl, trivial⟩
  · rename_i hne
    simp only [Except.bind_eq_ok_iff, ensure_eq_ok, exists_const, Except.ok.injEq] at ho
    obtain ⟨u, hc, -, rfl⟩ := ho
    obtain ⟨-, x, hf, -⟩ := Table.hit_ne_nil hne
    refine ⟨fun _ => rfl, fun d hd => hT.matched d hd _, .inr ⟨?_, trivial⟩, trivial⟩
    exact openAt_of_matchCheck hf (hline db ht x (Table.mem_of_find? hf) (Table.key_of_find? hf)) hc

/-! ### Programs that write the header -/

/-- The program writes at most once, at its end, under the lock of the statement, and then `Q` holds of the change and
of the state it was computed on. -/
def WritesHeader (id : ℕ) (Q : (DB → DB) → DB → Prop) : Txn Unit → Prop
  | .pure _ => True
  | .throw _ => True
  | .stmt r k => ∀ n db o, r n db = .ok o → o.act = (fun d => d) ∧ WritesHeader id Q (k o.res) ∨
    (k o.res).isPure = true ∧ .write .statement id ∈ o.locks ∧ Q o.act db

theorem writesHeader_query {Q : (DB → DB) → DB → Prop} {α : Type} {f : DB → Except Err α} {k : α → Txn Unit}
    (h : ∀ a, WritesHeader id Q (k a)) : WritesHeader id Q (Prog.query f >>= k) := by
  intro n db o ho
  cases hf : f db with
  | error e => simp [hf, Except.map] at ho
  | ok a =>
    simp only [hf, Except.map, Except.ok.injEq] at ho
    cases ho
    exact .inl ⟨rfl, h a⟩

theorem writesHeader_require {Q : (DB → DB) → DB → Prop} {b : Bool} {e : Err} {k : Unit → Txn Unit}
    (h : WritesHeader id Q (k ())) : WritesHeader id Q (Prog.require b e >>= k) := by
  cases b with
  | false => trivial
  | true => exact h

theorem writesHeader_requireOpen {Q : (DB → DB) → DB → Prop} {k : Unit → Txn Unit} (h : WritesHeader id Q (k ()))
    (s : ℕ) : WritesHeader id Q (requireOpen s >>= k) := by
  rw [requireOpen, Prog.bind_assoc]
  exact writesHeader_query fun _ => writesHeader_require h

/-- What `Reconcile` does to the header. -/
def setReconciled (id : ℕ) (d : DB) : DB :=
  { d with statements := d.statements.update [id] (fun s => { s with status := .reconciled }) fun _ => rfl }

theorem writesHeader_reconcile : WritesHeader id (fun act db => act = setReconciled id ∧ db.Adds id) (Reconcile id) := by
  refine writesHeader_requireOpen ?_ id
  refine writesHeader_query fun x => writesHeader_require (writesHeader_require ?_)
  intro n db o ho
  simp only [Except.bind_eq_ok_iff, ensure_eq_ok, exists_const, Except.ok.injEq] at ho
  obtain ⟨-, -, -, hu, hb, rfl⟩ := ho
  have hb : db.balances? id = true := by simpa using hb
  obtain ⟨st, hst, -⟩ := (Option.any_eq_true ..).1 hb
  have hhit : (db.statements.hit id fun _ => true) = [id] := Table.hit_of_find? hst rfl
  refine .inr ⟨rfl, ?_, ?_, by simpa using hu, hb⟩
  · show Lock.write .statement id ∈ List.map (.write .statement) (db.statements.hit id fun _ => true)
    rw [hhit]
    exact List.mem_singleton.2 rfl
  · funext d
    show ({ d with statements := d.statements.update (db.statements.hit id fun _ => true) _ _ } : DB) = _
    simp only [hhit]
    rfl

/-- What `UpdateStatement` does to the header. -/
theorem BankStatement.key_edited (input : StatementInput) (s : BankStatement) : Keyed.key (s.edited input) = Keyed.key s := rfl

def editHeader (id : ℕ) (input : StatementInput) (d : DB) : DB :=
  { d with statements := d.statements.update [id] (·.edited input) (BankStatement.key_edited input) }

theorem writesHeader_updateStatement (input : StatementInput) :
    WritesHeader id (fun act db => act = editHeader id input ∧ db.OpenAt id) (UpdateStatement id input) := by
  refine writesHeader_requireOpen ?_ id
  intro n db o ho
  dsimp only at ho
  split at ho
  · cases ho
    exact .inl ⟨rfl, trivial⟩
  · rename_i hne
    simp only [Except.bind_eq_ok_iff, ensure_eq_ok, exists_const, Except.ok.injEq] at ho
    obtain ⟨hr, -, -, -, rfl⟩ := ho
    obtain ⟨hhit, st, hst, -⟩ := Table.hit_ne_nil hne
    refine .inr ⟨rfl, ?_, ?_, fun st' hst' => ?_⟩
    · show Lock.write .statement id ∈ List.map (.write .statement) (db.statements.hit id fun _ => true)
      rw [hhit]
      exact List.mem_singleton.2 rfl
    · funext d
      show ({ d with statements := d.statements.update (db.statements.hit id fun _ => true) _ _ } : DB) = _
      simp only [hhit]
      rfl
    · cases hs : st'.status with
      | opened => rfl
      | reconciled =>
        have hrec : db.isReconciled id = true := List.any_eq_true.2
          ⟨st', Table.mem_of_find? hst', by simp [hs, show st'.id = id from Table.key_of_find? hst']⟩
        rw [hrec] at hr
        cases hr

end programs

/-! ### Assertions -/

section assertions

variable {T : DB → Prop} {id : ℕ} {d : DB} {ls : List Lock} {act : DB → DB} {q : Txn Unit}

/-- A transaction that writes lines: it has written none yet, or the last of its statements finds the statement open
and after that it still is. -/
structure LinesAt (T : DB → Prop) (id : ℕ) (d : DB) (act : DB → DB) (q : Txn Unit) : Prop where
  statements : ∀ x, (act x).statements = x.statements
  keeps : ∀ x, T x → T (act x)
  prog : WritesLines T id q
  checked : (∀ x, (act x).statementLines = x.statementLines) ∨ Recheck T id q ∧ (q.isPure = true → d.OpenAt id)

/-- A transaction that writes the header: it has written nothing yet, or it is done, holds the lock of the statement
and `Q` holds of its change and the committed state. -/
def HeaderAt (id : ℕ) (Q : (DB → DB) → DB → Prop) (d : DB) (ls : List Lock) (act : DB → DB) (q : Txn Unit) : Prop :=
  act = (fun d => d) ∧ WritesHeader id Q q ∨ q.isPure = true ∧ .write .statement id ∈ ls ∧ Q act d

variable {β : Type} {n : ℕ} {o : Outcome DB Lock Err β} {r : ℕ → DB → Except Err (Outcome DB Lock Err β)}
  {k : β → Txn Unit} {Q : (DB → DB) → DB → Prop}

theorem LinesAt.stmt (h : LinesAt T id d act (.stmt r k)) (ht : T d) (ho : r n (act d) = .ok o) :
    LinesAt T id d (o.act ∘ act) (k o.res) := by
  obtain ⟨hs, hk, hw, hprog⟩ := h.prog n (act d) o (h.keeps d ht) ho
  have hopen : (act d).OpenAt id → d.OpenAt id := fun ho => ho.congr (h.statements d).symm
  refine ⟨fun x => (hs _).trans (h.statements x), fun x hx => hk _ (h.keeps x hx), hprog, ?_⟩
  rcases h.checked with hnone | ⟨hre, -⟩
  · rcases hw with hnone' | ⟨hat, hre⟩
    · exact .inl fun x => (hnone' _).trans (hnone x)
    · exact .inr ⟨hre, fun _ => hopen hat⟩
  · obtain ⟨hat, hre⟩ := hre n (act d) o (h.keeps d ht) ho
    exact .inr ⟨hre, fun hp => hopen (hat hp)⟩

theorem HeaderAt.stmt (h : HeaderAt id Q d ls act (.stmt r k)) (ho : r n (act d) = .ok o) :
    HeaderAt id Q d (ls ++ o.locks) (o.act ∘ act) (k o.res) := by
  rcases h with ⟨rfl, hw⟩ | ⟨hp, -⟩
  · rcases hw n d o ho with ⟨he, hw⟩ | ⟨hp, hl, hq⟩
    · left
      rw [he]
      exact ⟨rfl, hw⟩
    · exact .inr ⟨hp, List.mem_append_right _ hl, hq⟩
  · cases hp

/-- Two transactions do not both hold the lock of the statement. -/
theorem HeaderAt.of_exclusive {Q' : (DB → DB) → DB → Prop} {ls' : List Lock} {act' : DB → DB} {q' : Txn Unit}
    (h : HeaderAt id Q d ls act q) (h' : HeaderAt id Q' d ls' act' q')
    (hex : ∀ l ∈ ls, ∀ l' ∈ ls', Locking.conflict l l' = false) :
    act' = (fun d => d) ∨ act = (fun d => d) ∧ WritesHeader id Q q := by
  rcases h with h | ⟨-, hl, -⟩
  · exact .inr h
  · rcases h' with ⟨he, -⟩ | ⟨-, hl', -⟩
    · exact .inl he
    · have hc : (Lock.write .statement id).conflict (.write .statement id) = false := hex _ hl _ hl'
      simp [Lock.conflict] at hc

/-- What is known of the committed states: the named lines are the statement's, and if it is reconciled it adds up. -/
def Sound (T : DB → Prop) (id : ℕ) (d : DB) : Prop :=
  T d ∧ ∀ st, d.statements.find? id = some st → st.status = .reconciled → d.Adds id

theorem sound_of_openAt (ht : T d) (h : d.OpenAt id) : Sound T id d := by
  refine ⟨ht, fun st hst hs => ?_⟩
  rw [h st hst] at hs
  cases hs

theorem LinesAt.commit {u : Unit} (h : LinesAt T id d act (.pure u)) (hs : Sound T id d) : Sound T id (act d) := by
  rcases h.checked with hnone | ⟨-, hopen⟩
  · refine ⟨h.keeps d hs.1, fun st hst hrec => ?_⟩
    rw [h.statements] at hst
    exact (hs.2 st hst hrec).congr (h.statements d) (hnone d)
  · exact sound_of_openAt (h.keeps d hs.1) ((hopen rfl).congr (h.statements d))

theorem find?_header {f : BankStatement → BankStatement} (hf : ∀ s, (f s).id = s.id) {st : BankStatement}
    (h : (d.statements.update [id] f hf).find? id = some st) : ∃ x, d.statements.find? id = some x ∧ st = f x := by
  rw [Table.find?_update, Option.map_eq_some_iff] at h
  obtain ⟨x, hx, rfl⟩ := h
  exact ⟨x, hx, by simp⟩

/-- Reconciling changes neither the lines nor the balances. -/
theorem adds_setReconciled (h : d.Adds id) : (setReconciled id d).Adds id := by
  refine ⟨h.1, ?_⟩
  obtain ⟨st, hst, hb⟩ := (Option.any_eq_true ..).1 h.2
  have hkey : ∀ s : BankStatement, Keyed.key ({ s with status := .reconciled } : BankStatement) = Keyed.key s :=
    fun _ => rfl
  refine (Option.any_eq_true ..).2 ⟨_, Table.find?_update_self hkey hst, hb⟩

theorem openAt_editHeader {input : StatementInput} (h : d.OpenAt id) : (editHeader id input d).OpenAt id := by
  intro st hst
  obtain ⟨x, hx, rfl⟩ := find?_header (by intro; rfl) hst
  exact h x hx

end assertions

/-! ### The outline -/

section outline

variable {ι : Type} {ops : ι → Op} {id : ℕ}

/-- The lines that the operations name are lines of the statement. -/
def Named (ops : ι → Op) (id : ℕ) (d : DB) : Prop :=
  ∀ i, ∀ x ∈ d.statementLines, (ops i).bankLine = some x.id → x.statementId = id

theorem keepsLines_named : KeepsLines (Named ops id) id := by
  refine ⟨fun d h x hx i y hy hl => ?_, fun d h ks i y hy hl => ?_, fun d h ks i y hy hl => ?_⟩
  · rcases Table.mem_of_mem_insert hy with hy | rfl
    · exact h i y hy hl
    · exact hx
  · exact h i y (Table.mem_erase.1 hy).1 hl
  · rcases Table.mem_update_cases (by intro; rfl) hy with ⟨hy, -⟩ | ⟨z, hz, -, rfl⟩
    · exact h i y hy hl
    · exact h i z hz hl

/-- One reconciles, the other writes lines. -/
def clash (ops : ι → Op) (i j : ι) : Bool :=
  (ops i).reconciles && (ops j).writesLines || (ops i).writesLines && (ops j).reconciles

/-- The assertion about a transaction that runs `op`. -/
def bankAt (T : DB → Prop) (id : ℕ) (op : Op) (d : DB) (ls : List Lock) (act : DB → DB) (q : Txn Unit) : Prop :=
  match op with
  | .reconcile _ => HeaderAt id (fun act db => act = setReconciled id ∧ db.Adds id) d ls act q
  | .updateStatement _ input => HeaderAt id (fun act db => act = editHeader id input ∧ db.OpenAt id) d ls act q
  | _ => LinesAt T id d act q

/-- The three kinds of operations on the statement. -/
theorem Op.OnStatement.cases {op : Op} {db : DB} (h : op.OnStatement db id) :
    op = .reconcile id ∨ (∃ input, op = .updateStatement id input) ∨
      op.writesLines = true ∧ ∀ T d ls act q, bankAt T id op d ls act q = LinesAt T id d act q := by
  rcases h with rfl | ⟨lines, rfl⟩ | ⟨input, rfl⟩ | ⟨l, rfl | rfl, -⟩
  · exact .inl rfl
  · exact .inr (.inr ⟨rfl, fun _ _ _ _ _ => rfl⟩)
  · exact .inr (.inl ⟨input, rfl⟩)
  · exact .inr (.inr ⟨rfl, fun _ _ _ _ _ => rfl⟩)
  · exact .inr (.inr ⟨rfl, fun _ _ _ _ _ => rfl⟩)

theorem bankAt_start {s : Store DB} (hops : ∀ i, (ops i).OnStatement s.db id) (i : ι) :
    bankAt (Named ops id) id (ops i) s.db [] (fun d => d) (transaction (ops i)) := by
  have hlines : ∀ {p : Txn Unit}, WritesLines (Named ops id) id p → LinesAt (Named ops id) id s.db (fun d => d) p :=
    fun hp => ⟨fun _ => rfl, fun _ h => h, hp, .inl fun _ => rfl⟩
  have hname : ∀ l, (ops i).bankLine = some l → ∀ d, Named ops id d → ∀ x ∈ d.statementLines, x.id = l →
      x.statementId = id := fun l hl d hd x hx hid => hd i x hx (hid ▸ hl)
  rcases hops i with e | ⟨lines, e⟩ | ⟨input, e⟩ | ⟨l, e | e, -⟩
  · rw [e]
    exact .inl ⟨rfl, writesHeader_reconcile⟩
  · rw [e]
    exact hlines (writesLines_addLines keepsLines_named lines)
  · rw [e]
    exact .inl ⟨rfl, writesHeader_updateStatement input⟩
  · have hl := hname l (by rw [e]; rfl)
    rw [e]
    exact hlines (writesLines_deleteLine keepsLines_named hl)
  · have hl := hname l (by rw [e]; rfl)
    rw [e]
    exact hlines (writesLines_unmatchLine keepsLines_named hl)

theorem bank_outline [DecidableEq ι] [Fintype ι] {s : Store DB} (hops : ∀ i, (ops i).OnStatement s.db id) :
    Sys.Outline (clash ops) (Sound (Named ops id) id) fun i => bankAt (Named ops id) id (ops i) where
  stmt := by
    intro i d ls act β n o r k hG h ho
    rcases (hops i).cases with e | ⟨input, e⟩ | ⟨-, hl⟩
    · rw [e] at h ⊢
      exact HeaderAt.stmt h ho
    · rw [e] at h ⊢
      exact HeaderAt.stmt h ho
    · rw [hl] at h ⊢
      exact h.stmt hG.1 ho
  commit := by
    intro i d ls act u hG h
    rcases (hops i).cases with e | ⟨input, e⟩ | ⟨-, hl⟩
    · rw [e] at h
      rcases h with ⟨rfl, -⟩ | ⟨-, -, rfl, hadds⟩
      · exact hG
      · exact ⟨hG.1, fun _ _ _ => adds_setReconciled hadds⟩
    · rw [e] at h
      rcases h with ⟨rfl, -⟩ | ⟨-, -, rfl, hopen⟩
      · exact hG
      · exact sound_of_openAt (show Named ops id (editHeader id input d) from hG.1) (openAt_editHeader hopen)
    · rw [hl] at h
      exact h.commit hG
  others := by
    intro i j d ls act q ls' act' u hij hG h h' hex hclash
    have hheader : ∀ {Q Q' : (DB → DB) → DB → Prop}, HeaderAt id Q d ls act q →
        HeaderAt id Q' d ls' act' (.pure u) → HeaderAt id Q (act' d) ls act q := by
      intro Q Q' h h'
      rcases h.of_exclusive h' hex with rfl | h
      · exact h
      · exact .inl h
    rcases (hops i).cases with ei | ⟨input, ei⟩ | ⟨hwi, hli⟩
    · rw [ei] at h ⊢
      rcases (hops j).cases with ej | ⟨input', ej⟩ | ⟨hwj, hlj⟩
      · rw [ej] at h'
        exact hheader h h'
      · rw [ej] at h'
        exact hheader h h'
      · -- the statement was not yet written to when the lines are committed
        have hp := hclash (by simp [clash, ei, hwj, Op.reconciles])
        rcases h with h | ⟨hp', -⟩
        · exact .inl h
        · rw [hp] at hp'
          cases hp'
    · rw [ei] at h ⊢
      rcases (hops j).cases with ej | ⟨input', ej⟩ | ⟨hwj, hlj⟩
      · rw [ej] at h'
        exact hheader h h'
      · rw [ej] at h'
        exact hheader h h'
      · rw [hlj] at h'
        rcases h with h | ⟨hp, hl, hact, hopen⟩
        · exact .inl h
        · exact .inr ⟨hp, hl, hact, hopen.congr (h'.statements d)⟩
    · rw [hli] at h ⊢
      refine { h with checked := h.checked.imp_right fun ⟨hre, hopen⟩ => ⟨hre, fun hp => ?_⟩ }
      rcases (hops j).cases with ej | ⟨input', ej⟩ | ⟨hwj, hlj⟩
      · -- a statement that runs later finds the statement reconciled
        have hp' := hclash (by simp [clash, ej, hwi, Op.reconciles])
        rw [hp] at hp'
        cases hp'
      · rw [ej] at h'
        rcases h' with ⟨rfl, -⟩ | ⟨-, -, rfl, -⟩
        · exact hopen hp
        · exact openAt_editHeader (hopen hp)
      · rw [hlj] at h'
        exact (hopen hp).congr (h'.statements d)

/-- Operations run at once on an open statement.  If `Reconcile` and an operation on lines never commit between the
last statement of the other and its commit, then whenever the statement is reconciled, every line of it is matched and
it adds up. -/
theorem reconciled_adds_up [DecidableEq ι] [Fintype ι] {s : Store DB}
    (hopen : (s.db.statements.find? id).any (·.status = .opened) = true)
    (hops : ∀ i, (ops i).OnStatement s.db id) {is : List ι} (ha : Sys.Along (Sys.Apart (clash ops)) (race s ops) is)
    {db : DB} (hdb : ((race s ops).runSchedule is).db = db) {st : BankStatement}
    (hst : db.statements.find? id = some st) (hrec : st.status = .reconciled) :
    (∀ l ∈ db.statementLines, l.statementId = id → l.journalLineId ≠ none) ∧
      st.openingBalance + ((db.statementLines.rows.filter fun l => l.statementId = id).map (·.amount)).sum =
        st.closingBalance := by
  have hnamed : Named ops id s.db := by
    intro i x hx hl
    rcases hops i with e | ⟨lines, e⟩ | ⟨input, e⟩ | ⟨l, e | e, hmem⟩
    · rw [e] at hl
      cases hl
    · rw [e] at hl
      cases hl
    · rw [e] at hl
      cases hl
    · rw [e] at hl
      exact hmem x hx (Option.some.inj hl).symm
    · rw [e] at hl
      exact hmem x hx (Option.some.inj hl).symm
  have hat : s.db.OpenAt id := by
    intro st hst
    rw [hst] at hopen
    exact of_decide_eq_true hopen
  have hinv := (Sys.Inv.start (G := Sound (Named ops id) id) (sound_of_openAt hnamed hat) (bankAt_start hops)).run
    (bank_outline hops) ha
  subst hdb
  obtain ⟨hu, hb⟩ := hinv.db.2 st hst hrec
  refine ⟨fun l hl hid hnone => ?_, ?_⟩
  · have := List.countP_eq_zero.1 hu l hl
    simp [hid, hnone] at this
  · have hb : _ := hb
    rw [DB.balances?] at hb
    obtain ⟨x, hx, hb⟩ := (Option.any_eq_true ..).1 hb
    obtain rfl : st = x := Option.some.inj (hst.symm.trans hx)
    exact of_decide_eq_true hb

end outline

/-- `Reconcile` of the first statement, and a request to add a line to it. -/
def reconcileOrAdd (i : Fin 2) : Op :=
  if i.val = 0 then .reconcile 13 else .addLines 13 [⟨march5, dollars 100⟩]

theorem reconcileOrAdd_onStatement (db : DB) (i : Fin 2) : (reconcileOrAdd i).OnStatement db 13 := by
  unfold reconcileOrAdd
  split
  · exact .inl rfl
  · exact .inr (.inl ⟨_, rfl⟩)

/-- `Reconcile` commits before the line is inserted, and the line is refused. -/
theorem reconciled_adds_up_refused : ∃ s : Store DB, Reachable s ∧
    ((race s reconcileOrAdd).runSchedule [1, 0, 0, 0, 0, 0, 1, 1]).db.isReconciled 13 = true ∧
    ∀ l ∈ ((race s reconcileOrAdd).runSchedule [1, 0, 0, 0, 0, 0, 1, 1]).db.statementLines, l.statementId = 13 →
      l.journalLineId ≠ none := by
  obtain ⟨s, hs, hp⟩ := exists_reachable [.createStatement ⟨1, 0, 0⟩] (p := fun s =>
    (s.db.statements.find? 13).any (·.status = .opened) = true ∧
    Sys.Along (Sys.Apart (clash reconcileOrAdd)) (race s reconcileOrAdd) [1, 0, 0, 0, 0, 0, 1, 1] ∧
    (((race s reconcileOrAdd).runSchedule [1, 0, 0, 0, 0, 0, 1, 1]).db.statements.find? 13).any
      (·.status = .reconciled) = true) (by decide +kernel)
  obtain ⟨hopen, hrun, hrec⟩ := of_decide_eq_true hp
  obtain ⟨st, hst, hrec⟩ := (Option.any_eq_true ..).1 hrec
  have hrec : st.status = .reconciled := of_decide_eq_true hrec
  refine ⟨s, hs, List.any_eq_true.2 ⟨st, Table.mem_of_find? hst, ?_⟩,
    (reconciled_adds_up hopen (reconcileOrAdd_onStatement _) hrun rfl hst hrec).1⟩
  simp [hrec, show st.id = 13 from Table.key_of_find? hst]

/-- The line is inserted and committed between the last statement of `Reconcile` and its commit. -/
theorem reconciled_with_unmatched : ¬∀ s : Store DB, Reachable s → ∀ id,
    (s.db.statements.find? id).any (·.status = .opened) = true → ∀ ops : Fin 2 → Op,
    (∀ i, (ops i).OnStatement s.db id) → ∀ (is : List (Fin 2)) (db : DB), ((race s ops).runSchedule is).db = db →
    ∀ st, db.statements.find? id = some st → st.status = .reconciled →
      (∀ l ∈ db.statementLines, l.statementId = id → l.journalLineId ≠ none) ∧
        st.openingBalance + ((db.statementLines.rows.filter fun l => l.statementId = id).map (·.amount)).sum =
          st.closingBalance := by
  intro hall
  obtain ⟨s, hs, hp⟩ := exists_reachable [.createStatement ⟨1, 0, 0⟩] (p := fun s =>
    (s.db.statements.find? 13).any (·.status = .opened) = true ∧
    (((race s reconcileOrAdd).runSchedule [0, 0, 0, 1, 1, 1, 1, 1, 0, 0]).db.statements.find? 13).any
      (·.status = .reconciled) = true ∧
    (((race s reconcileOrAdd).runSchedule [0, 0, 0, 1, 1, 1, 1, 1, 0, 0]).db.statementLines.rows.any fun l =>
      l.statementId = 13 && l.journalLineId = none) = true) (by decide +kernel)
  obtain ⟨hopen, hrec, hline⟩ := of_decide_eq_true hp
  obtain ⟨st, hst, hrec⟩ := (Option.any_eq_true ..).1 hrec
  obtain ⟨l, hl, hline⟩ := List.any_eq_true.1 hline
  rw [Bool.and_eq_true, decide_eq_true_eq, decide_eq_true_eq] at hline
  exact (hall s hs 13 hopen reconcileOrAdd (reconcileOrAdd_onStatement _) _ _ rfl st hst (of_decide_eq_true hrec)).1
    l hl hline.1 hline.2
