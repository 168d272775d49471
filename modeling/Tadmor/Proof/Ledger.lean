import Tadmor.Proof.Changes
import Tadmor.Proof.Journal

/-!
# The ledger

Every entry is posted and balanced in both currencies, every line is on an account, and a cash account is an asset.
That an entry balances is checked when the transaction commits: every statement that adds an entry or a line defers
the check of the entry.
-/

structure DB.LedgerOk (db : DB) : Prop where
  posted : ∀ e ∈ db.entries, e.status = .posted
  account : ∀ l ∈ db.lines, (db.accounts.find? l.accountId).isSome
  cash : ∀ a ∈ db.accounts, a.isCash → a.accountType = .asset

/-! ### Balanced entries -/

/-- The check of an entry reads the entry and its lines. -/
theorem entryBalanced_congr {db db' : DB} {je : ℕ} (he : db'.entries.find? je = db.entries.find? je)
    (hl : db'.linesOf je = db.linesOf je) : DB.entryBalanced je db' = DB.entryBalanced je db := by
  unfold DB.entryBalanced
  rw [he, hl]

/-- Lines of other entries. -/
theorem linesOf_insertAll {db : DB} {rows : List JournalLine} {je : ℕ} (hfree : db.lines.AllFree rows)
    (h : ∀ l ∈ rows, l.journalEntryId ≠ je) :
    { db with lines := db.lines.insertAll rows }.linesOf je = db.linesOf je := by
  have hnone : rows.filter (fun l => l.journalEntryId = je) = [] := by
    rw [List.filter_eq_nil_iff]
    intro l hl e
    exact h l hl (of_decide_eq_true e)
  show ((db.lines.insertAll rows).rows.filter fun l => l.journalEntryId = je) = _
  rw [Table.rows_insertAll hfree, List.filter_append, hnone, List.append_nil]
  rfl

/-- Every entry is balanced, or its check is deferred. -/
def DB.BalancedBut (cs : List (DB → Except Err Unit)) (db : DB) : Prop :=
  ∀ je, DB.entryBalanced je ∈ cs ∨ DB.entryBalanced je db = .ok ()

/-- An entry that a statement leaves alone. -/
theorem DB.BalancedBut.keep {cs cs' : List (DB → Except Err Unit)} {db db' : DB} {je : ℕ} (h : db.BalancedBut cs)
    (he : db'.entries.find? je = db.entries.find? je) (hl : db'.linesOf je = db.linesOf je) :
    DB.entryBalanced je ∈ cs ++ cs' ∨ DB.entryBalanced je db' = .ok () := by
  rcases h je with hc | hb
  · exact .inl (List.mem_append_left _ hc)
  · exact .inr ((entryBalanced_congr he hl).trans hb)

theorem Change.balancedBut {n : ℕ} {db db' : DB} {op : Op} {cs cs' : List (DB → Except Err Unit)}
    (h : Change n db op db' cs') (hf : Fresh n db) (hi : db.BalancedBut cs) : db'.BalancedBut (cs ++ cs') := by
  intro je
  cases h with
  | elsewhere h => exact hi.keep (by rw [h.entries]) (by unfold DB.linesOf; rw [h.lines])
  | entry e hid hs =>
    by_cases hje : e.id = je
    · subst hje
      exact .inl (List.mem_append_right _ (List.mem_singleton.2 rfl))
    · exact hi.keep (Table.find?_insert_of_ne hje) rfl
  | @lines _ je' ls rows hr =>
    by_cases hje : ∃ l ∈ rows, l.journalEntryId = je
    · obtain ⟨l, hl, rfl⟩ := hje
      rw [newRows_entry hr l hl]
      exact .inl (List.mem_append_right _ (List.mem_map.2 ⟨l, hl, rfl⟩))
    · have hfree : db.lines.AllFree rows := hf.lines.allFree (newRows_eq_ok hr)
      exact hi.keep rfl (linesOf_insertAll hfree fun l hl e => hje ⟨l, hl, e⟩)
  | _ => exact hi.keep rfl rfl

theorem entryBalanced_seeded (je : ℕ) : DB.entryBalanced je seeded.db = .ok () := rfl

theorem Reachable.entryBalanced {s : Store DB} (h : Reachable s) (je : ℕ) : DB.entryBalanced je s.db = .ok () := by
  refine h.invariant (I := fun s => ∀ je, DB.entryBalanced je s.db = .ok ()) entryBalanced_seeded
    (fun s s' hr hi hs => ?_) je
  obtain ⟨op, gaps, hc⟩ := hs
  obtain ⟨cs, hbut, hpass⟩ := commit_changes (I := fun db cs => db.BalancedBut cs)
    (fun hf hi hc => hc.balancedBut hf hi) hc hr.fresh fun je => .inr (hi je)
  intro je
  rcases hbut je with hmem | hb
  · exact hpass _ hmem
  · exact hb

/-- What the check has checked of a posted entry. -/
theorem entryBalanced_eq_ok {db : DB} {e : JournalEntry} (he : e ∈ db.entries) (hs : e.status = .posted)
    (h : DB.entryBalanced e.id db = .ok ()) :
    ((db.linesOf e.id).map (·.debit)).sum = ((db.linesOf e.id).map (·.credit)).sum ∧
      ((db.linesOf e.id).map (·.baseDebit)).sum = ((db.linesOf e.id).map (·.baseCredit)).sum := by
  have hfind : db.entries.find? e.id = some e := Table.find?_key he
  simp only [DB.entryBalanced, hfind, hs, ne_eq, not_true_eq_false, if_false] at h
  split at h
  · cases h
  · split at h
    · cases h
    · split at h
      · cases h
      · rename_i hd
        split at h
        · cases h
        · rename_i hb
          exact ⟨not_not.1 hd, not_not.1 hb⟩

/-! ### Accounts -/

/-- The accounts of `db` are still there. -/
def KeepsAccounts (db db' : DB) : Prop := ∀ k, (db.accounts.find? k).isSome → (db'.accounts.find? k).isSome

theorem newRows_account {db : DB} {je n : ℕ} {ls : List NewLine} {rows : List JournalLine}
    (h : newRows db je n ls = .ok rows) : ∀ l ∈ rows, (db.accounts.find? l.accountId).isSome := by
  induction ls generalizing n rows with
  | nil =>
    cases h
    exact fun l hl => absurd hl List.not_mem_nil
  | cons x ls ih =>
    unfold newRows at h
    split at h
    · cases h
    · rename_i account ha
      simp only [Except.bind_eq_ok_iff, Except.ok.injEq] at h
      obtain ⟨u, hc, rows', h', rfl⟩ := h
      intro l hl
      rcases List.mem_cons.1 hl with rfl | hl
      · simp only [JournalLine.check, Except.bind_eq_ok_iff] at hc
        obtain ⟨-, -, u, hok, -⟩ := hc
        unfold DB.accountOk at hok
        split at hok
        · cases hok
        · rename_i a hfind
          rw [hfind]
          rfl
      · exact ih h' l hl

/-- Statements that add no line. -/
theorem DB.LedgerOk.of_lines {db db' : DB} (h : db.LedgerOk) (hp : ∀ e ∈ db'.entries, e.status = .posted)
    (hl : db'.lines = db.lines) (ha : KeepsAccounts db db') (hc : ∀ a ∈ db'.accounts, a.isCash → a.accountType = .asset) :
    db'.LedgerOk :=
  ⟨hp, fun l hm => ha _ (h.account l (hl ▸ hm)), hc⟩

/-- Statements that touch neither the journal nor the accounts. -/
theorem DB.LedgerOk.of_same {db db' : DB} (h : db.LedgerOk) (he : db'.entries = db.entries) (hl : db'.lines = db.lines)
    (ha : db'.accounts = db.accounts) : db'.LedgerOk := by
  refine h.of_lines ?_ hl (fun k hk => ha ▸ hk) ?_
  · rw [he]
    exact h.posted
  · rw [ha]
    exact h.cash

theorem accountCheck_cash {db : DB} {id : ℕ} {input : AccountInput} (h : db.accountCheck id input = .ok ()) :
    input.isCash → input.accountType = .asset := by
  simp only [DB.accountCheck, Except.bind_eq_ok_iff, ensure_eq_ok, exists_const, Bool.or_eq_true, Bool.not_eq_true',
    decide_eq_true_eq] at h
  intro hc
  rcases h.1 with h | h
  · rw [hc] at h
    cases h
  · exact h

theorem Change.ledgerOk {n : ℕ} {db db' : DB} {op : Op} {cs : List (DB → Except Err Unit)}
    (h : Change n db op db' cs) (hf : Fresh n db) (hi : db.LedgerOk) : db'.LedgerOk := by
  cases h with
  | elsewhere h => exact hi.of_same h.entries h.lines h.accounts
  | entry e hid hs =>
    refine hi.of_lines (fun x hx => ?_) rfl (fun k hk => hk) hi.cash
    rcases Table.mem_of_mem_insert hx with hx | rfl
    · exact hi.posted x hx
    · exact hs
  | lines je hr =>
    refine ⟨hi.posted, fun l hl => ?_, hi.cash⟩
    rcases (Table.mem_insertAll (hf.lines.allFree (newRows_eq_ok hr))).1 hl with hl | hl
    · exact hi.account l hl
    · exact newRows_account hr l hl
  | newAccount input h =>
    refine hi.of_lines hi.posted rfl (fun k hk => ?_) fun a ha => ?_
    · exact Table.isSome_find?_insert (.inl hk)
    · rcases Table.mem_of_mem_insert ha with ha | rfl
      · exact hi.cash a ha
      · exact accountCheck_cash h
  | editAccount id input h =>
    refine hi.of_lines hi.posted rfl (fun k hk => ?_) fun a ha => ?_
    · exact Table.isSome_find?_update (Account.key_edited input) hk
    · rcases Table.mem_update_cases (by intro; rfl) ha with ⟨ha, -⟩ | ⟨x, -, -, rfl⟩
      · exact hi.cash a ha
      · exact accountCheck_cash h
  | _ => exact hi.of_same rfl rfl rfl

theorem ledgerOk_seeded : seeded.db.LedgerOk := by
  refine ⟨fun e he => absurd he (Table.not_mem_empty e), fun l hl => absurd hl (Table.not_mem_empty l), ?_⟩
  have : ∀ a ∈ seeded.db.accounts.rows, a.isCash → a.accountType = .asset := by decide
  exact this

theorem Reachable.ledgerOk {s : Store DB} (h : Reachable s) : s.db.LedgerOk := by
  refine h.invariant (I := fun s => s.db.LedgerOk) ledgerOk_seeded fun s s' hr hi ⟨op, gaps, hc⟩ => ?_
  obtain ⟨-, hok, -⟩ := commit_changes (I := fun db _ => db.LedgerOk) (fun hf hi hc => hc.ledgerOk hf hi) hc hr.fresh hi
  exact hok
