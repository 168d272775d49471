import Tadmor.Proof.Ledger

/-!
# What the tables have checked

The checks of the rows hold of every row there is: rates are positive, currencies are those of the table, and the
amounts of every journal line are in range and on one side.  The numbers of an entry's lines are different.
-/

/-- The checks of a row of `journal_lines`, the account apart. -/
def JournalLine.valid (l : JournalLine) : Bool :=
  (fits l.debit && fits l.credit && fits l.baseDebit && fits l.baseCredit) && (0 ≤ l.debit && 0 ≤ l.credit) &&
    (decide (l.debit = 0) != decide (l.credit = 0)) && (0 ≤ l.baseDebit && 0 ≤ l.baseCredit) &&
    ((l.baseDebit = 0 || 0 < l.debit) && (l.baseCredit = 0 || 0 < l.credit))

theorem JournalLine.valid_iff {l : JournalLine} : l.valid = true ↔
    (((fits l.debit = true ∧ fits l.credit = true) ∧ fits l.baseDebit = true) ∧ fits l.baseCredit = true) ∧
      (0 ≤ l.debit ∧ 0 ≤ l.credit) ∧ (l.debit = 0 ↔ l.credit ≠ 0) ∧ (0 ≤ l.baseDebit ∧ 0 ≤ l.baseCredit) ∧
      (l.baseDebit = 0 ∨ 0 < l.debit) ∧ (l.baseCredit = 0 ∨ 0 < l.credit) := by
  have hside : (decide (l.debit = 0) != decide (l.credit = 0)) = true ↔ (l.debit = 0 ↔ l.credit ≠ 0) := by
    by_cases hd : l.debit = 0
    · by_cases hc : l.credit = 0
      · simp [hd, hc]
      · simp [hd, hc]
    · by_cases hc : l.credit = 0
      · simp [hd, hc]
      · simp [hd, hc]
  simp only [JournalLine.valid, Bool.and_eq_true, Bool.or_eq_true, decide_eq_true_eq, hside, and_assoc]

/-- The account can be posted to. -/
def DB.takes (db : DB) (account : ℕ) : Bool := (db.accounts.find? account).any fun a => a.isPostable && a.isActive

theorem accountOk_eq_ok {db : DB} {account : ℕ} {u : Unit} :
    db.accountOk account = .ok u ↔ db.takes account = true := by
  unfold DB.accountOk DB.takes
  cases db.accounts.find? account with
  | none => simp
  | some a => simp [Except.bind_eq_ok_iff]

theorem check_eq_ok {db : DB} {l : JournalLine} {u : Unit} :
    l.check db = .ok u ↔ l.valid = true ∧ db.takes l.accountId = true := by
  simp only [JournalLine.check, JournalLine.valid, Except.bind_eq_ok_iff, ensure_eq_ok, exists_const, accountOk_eq_ok,
    Bool.and_eq_true]
  tauto

/-- The rows of the table and of the tables that the postings read have passed their checks. -/
structure DB.RowsChecked (db : DB) : Prop where
  rows : db.RowsOk
  docLines : db.DocLinesOk
  rate : ∀ e ∈ db.entries, 0 < e.exchangeRate
  currency : ∀ e ∈ db.entries, e.currencyCode ∈ currencies
  valid : ∀ l ∈ db.lines, l.valid = true
  numbered : ∀ je, ((db.linesOf je).map (·.lineNo)).Nodup

theorem newRows_valid {db : DB} {je n : ℕ} {ls : List NewLine} {rows : List JournalLine}
    (h : newRows db je n ls = .ok rows) : ∀ l ∈ rows, l.valid = true ∧ db.takes l.accountId = true := by
  induction ls generalizing n rows with
  | nil =>
    cases h
    exact fun l hl => absurd hl List.not_mem_nil
  | cons x ls ih =>
    unfold newRows at h
    split at h
    · cases h
    · simp only [Except.bind_eq_ok_iff, Except.ok.injEq] at h
      obtain ⟨u, hc, rows', h', rfl⟩ := h
      intro l hl
      rcases List.mem_cons.1 hl with rfl | hl
      · exact check_eq_ok.1 hc
      · exact ih h' l hl

/-- The lines of the entry that `rows` are inserted for. -/
theorem linesOf_insertAll_self {db : DB} {rows : List JournalLine} {je : ℕ} (hfree : db.lines.AllFree rows)
    (h : ∀ l ∈ rows, l.journalEntryId = je) :
    { db with lines := db.lines.insertAll rows }.linesOf je = db.linesOf je ++ rows := by
  show ((db.lines.insertAll rows).rows.filter fun l => l.journalEntryId = je) = _
  rw [Table.rows_insertAll hfree, List.filter_append]
  congr 1
  exact List.filter_eq_self.2 fun l hl => decide_eq_true (h l hl)

theorem Change.rowsChecked {n : ℕ} {db db' : DB} {op : Op} {cs : List (DB → Except Err Unit)}
    (h : Change n db op db' cs) (hf : Fresh n db) (hi : db.RowsChecked) : db'.RowsChecked := by
  cases h with
  | elsewhere h =>
    refine ⟨h.rows hi.rows, h.docLines hi.docLines, ?_, ?_, ?_, fun je => ?_⟩
    · rw [h.entries]
      exact hi.rate
    · rw [h.entries]
      exact hi.currency
    · rw [h.lines]
      exact hi.valid
    · unfold DB.linesOf
      rw [h.lines]
      exact hi.numbered je
  | entry e hid hs hr hc =>
    refine ⟨hi.rows, hi.docLines, fun x hx => ?_, fun x hx => ?_, hi.valid, hi.numbered⟩
    · rcases Table.mem_of_mem_insert hx with hx | rfl
      · exact hi.rate x hx
      · exact hr
    · rcases Table.mem_of_mem_insert hx with hx | rfl
      · exact hi.currency x hx
      · exact hc
  | lines je hr hn hu =>
    rename_i ls rows
    have hfree : db.lines.AllFree rows := hf.lines.allFree (newRows_eq_ok hr)
    have hje := newRows_entry hr
    refine ⟨hi.rows, hi.docLines, hi.rate, hi.currency, fun l hl => ?_, fun je' => ?_⟩
    · rcases (Table.mem_insertAll hfree).1 hl with hl | hl
      · exact hi.valid l hl
      · exact (newRows_valid hr l hl).1
    · by_cases hk : je' = je
      · rw [hk, linesOf_insertAll_self hfree hje, List.map_append, List.nodup_append]
        refine ⟨hi.numbered je, hn, fun a ha b hb => ?_⟩
        obtain ⟨m, hm, rfl⟩ := List.mem_map.1 ha
        obtain ⟨l, hl, rfl⟩ := List.mem_map.1 hb
        obtain ⟨hm, hmje⟩ := List.mem_filter.1 hm
        exact hu l hl m hm (of_decide_eq_true hmje)
      · rw [linesOf_insertAll hfree fun l hl e => hk (e.symm.trans (hje l hl))]
        exact hi.numbered je'
  | newAccount input =>
    have hlines : { db with accounts := db.accounts.insert (input.row n) }.DocLinesOk :=
      hi.docLines.mono (fun _ hl => .inl hl) (fun _ hk => hk) (fun k hk => Table.isSome_find?_insert (.inl hk)) fun _ hk => hk
    exact ⟨hi.rows, hlines, hi.rate, hi.currency, hi.valid, hi.numbered⟩
  | editAccount id input =>
    have hlines : { db with
        accounts := db.accounts.update (db.accounts.hit id fun _ => true) (·.edited input) fun _ => rfl }.DocLinesOk :=
      hi.docLines.mono (fun _ hl => .inl hl) (fun _ hk => hk)
        (fun k hk => Table.isSome_find?_update (Account.key_edited input) hk) fun _ hk => hk
    exact ⟨hi.rows, hlines, hi.rate, hi.currency, hi.valid, hi.numbered⟩
  | _ => exact ⟨hi.rows, hi.docLines, hi.rate, hi.currency, hi.valid, hi.numbered⟩

theorem rowsChecked_seeded : seeded.db.RowsChecked := by
  refine ⟨⟨fun r hr => ?_, by decide, fun d hd => ?_, fun p hp => ?_, fun m hm => ?_⟩, fun l hl => ?_, fun e he => ?_,
    fun e he => ?_, fun l hl => ?_, fun je => List.nodup_nil⟩
  · exact absurd hr (Table.not_mem_empty r)
  · exact absurd hd (Table.not_mem_empty d)
  · exact absurd hp (Table.not_mem_empty p)
  · exact absurd hm (Table.not_mem_empty m)
  · exact absurd hl (Table.not_mem_empty l)
  · exact absurd he (Table.not_mem_empty e)
  · exact absurd he (Table.not_mem_empty e)
  · exact absurd hl (Table.not_mem_empty l)

theorem Reachable.rowsChecked {s : Store DB} (h : Reachable s) : s.db.RowsChecked := by
  refine h.invariant (I := fun s => s.db.RowsChecked) rowsChecked_seeded fun s s' hr hi ⟨op, gaps, hc⟩ => ?_
  obtain ⟨-, hok, -⟩ :=
    commit_changes (I := fun db _ => db.RowsChecked) (fun hf hi hc => hc.rowsChecked hf hi) hc hr.fresh hi
  exact hok
