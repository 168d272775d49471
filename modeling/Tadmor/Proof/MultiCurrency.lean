import Tadmor.Model.MultiCurrency
import Tadmor.Proof.Ledger

/-!
# Migration 000018

The backfill rewrites every journal line, so the account trigger runs for every line of history.  The migration
succeeds exactly when every account with a line is still active and postable, and then every posted entry balances in
base currency and the trial balance is what it was.
-/

namespace Schema17

/-! ### What the tables accept -/

structure JournalLine.Ok (accounts : Table Account) (l : JournalLine) : Prop where
  fits : fits l.debit = true ∧ fits l.credit = true
  nonneg : 0 ≤ l.debit ∧ 0 ≤ l.credit
  oneSide : (decide (l.debit = 0) != decide (l.credit = 0)) = true
  account : (accounts.find? l.accountId).isSome = true

structure DB.Sound (n : ℕ) (db : DB) : Prop where
  below : db.entries.Below n
  lines : ∀ l ∈ db.lines, l.Ok db.accounts
  currencies : ∀ e ∈ db.entries, e.currencyCode ∈ currencies

/-- Every entry is balanced, or has its check deferred. -/
def DB.Checked (db : DB) (checks : List (DB → Except Err Unit)) : Prop :=
  ∀ e ∈ db.entries, DB.entryBalanced e.id db = .ok () ∨ DB.entryBalanced e.id ∈ checks

theorem JournalLine.Ok.of_check {db : DB} {l : JournalLine} (h : l.check db = .ok ()) :
    l.Ok db.accounts := by
  simp only [check, Except.bind_eq_ok_iff, ensure_eq_ok, exists_const, Bool.and_eq_true, decide_eq_true_eq] at h
  obtain ⟨hfits, _, hacc, hneg, hside⟩ := h
  refine ⟨hfits, hneg, by simpa using hside, ?_⟩
  unfold DB.accountOk at hacc
  cases hf : db.accounts.find? l.accountId with
  | none =>
    rw [hf] at hacc
    cases hacc
  | some a => rfl

theorem of_newRows {db : DB} {je n : ℕ} {ls : List NewLine} {rows : List JournalLine}
    (h : newRows db je n ls = .ok rows) : ∀ l ∈ rows, l.journalEntryId = je ∧ l.Ok db.accounts := by
  induction ls generalizing n rows with
  | nil =>
    cases h
    simp
  | cons l ls ih =>
    unfold newRows at h
    split at h
    · cases h
    · simp only [Except.bind_eq_ok_iff] at h
      obtain ⟨u, hcheck, rows', hrows, h⟩ := h
      cases h
      intro r hr
      rcases List.mem_cons.1 hr with rfl | hr
      · exact ⟨rfl, .of_check hcheck⟩
      · exact ih hrows r hr

/-! ### The operations -/

theorem filter_insertAll {α κ : Type} [Keyed α κ] [DecidableEq κ] {t : Table α} {as : List α} {p : α → Bool}
    (h : ∀ a ∈ as, p a = false) : (t.insertAll as).rows.filter p = t.rows.filter p := by
  induction as generalizing t with
  | nil => rfl
  | cons a as ih =>
    rw [Table.insertAll_cons, ih fun b hb => h b (List.mem_cons_of_mem _ hb)]
    by_cases hf : t.Free (Keyed.key a)
    · rw [Table.rows_insert hf, List.filter_append, List.filter_cons_of_neg (by simp [h a]), List.filter_nil,
        List.append_nil]
    · rw [Table.insert_of_not_free hf]

/-- The check of an entry reads the entry and its lines. -/
theorem entryBalanced_congr {db db' : DB} {je : ℕ} (he : db'.entries.find? je = db.entries.find? je)
    (hl : db'.linesOf je = db.linesOf je) : DB.entryBalanced je db' = DB.entryBalanced je db := by
  unfold DB.entryBalanced
  rw [he, hl]

/-- An entry with its check deferred, and then the rest of the transaction. -/
theorem run_insertEntry {e : NewEntry} {v w : Env DB Err} {je : ℕ} (h : (insertEntry e).run v = .ok (je, w))
    (hs : v.db.Sound v.seq) (hc : v.db.Checked v.checks) :
    w.db.Sound w.seq ∧ w.db.Checked w.checks ∧ DB.entryBalanced je ∈ w.checks := by
  obtain ⟨o, ho, rfl, rfl⟩ := Prog.run_exec_ok.1 h
  simp only [Except.bind_eq_ok_iff, ensure_eq_ok, exists_const, decide_eq_true_eq] at ho
  obtain ⟨hcur, ho⟩ := ho
  cases ho
  have hbelow : v.db.entries.Below (v.seq + v.gaps 0) := hs.below.mono (Nat.le_add_right ..)
  refine ⟨⟨hbelow.insert rfl, hs.lines, fun a ha => ?_⟩, fun a ha => ?_, ?_⟩
  · rcases Table.mem_of_mem_insert ha with ha | rfl
    · exact hs.currencies a ha
    · exact hcur
  · rw [Env.after_checks]
    rcases Table.mem_of_mem_insert ha with ha | rfl
    · have hne : v.seq + v.gaps 0 ≠ a.id := ((hbelow a ha).ne).symm
      refine (hc a ha).imp (fun hb => ?_) fun hb => List.mem_append_left _ hb
      have hfind : (v.db.entries.insert (e.row (v.seq + v.gaps 0))).find? a.id = v.db.entries.find? a.id :=
        Table.find?_insert_of_ne hne
      exact Eq.trans (entryBalanced_congr hfind rfl) hb
    · exact .inr (List.mem_append_right _ (List.mem_singleton_self _))
  · exact List.mem_append_right _ (List.mem_singleton_self _)

theorem run_insertLines {je : ℕ} {ls : List NewLine} {v w : Env DB Err} {u : Unit}
    (h : (insertLines je ls).run v = .ok (u, w)) (hs : v.db.Sound v.seq) (hc : v.db.Checked v.checks)
    (hje : DB.entryBalanced je ∈ v.checks) : w.db.Sound w.seq ∧ w.db.Checked w.checks := by
  obtain ⟨o, ho, -, rfl⟩ := Prog.run_exec_ok.1 h
  simp only [Except.bind_eq_ok_iff, ensure_eq_ok, exists_const] at ho
  obtain ⟨rows, hrows, -, ho⟩ := ho
  cases ho
  have hok := of_newRows hrows
  refine ⟨⟨hs.below.mono (v.le_after_seq _), fun l hl => ?_, hs.currencies⟩, fun a ha => ?_⟩
  · rcases Table.mem_of_mem_insertAll hl with hl | hl
    · exact hs.lines l hl
    · exact (hok l hl).2
  · rw [Env.after_checks]
    by_cases hae : a.id = je
    · subst hae
      exact .inr (List.mem_append_left _ hje)
    · refine (hc a ha).imp (fun hb => ?_) fun hb => List.mem_append_left _ hb
      have hlines : (v.db.lines.insertAll rows).rows.filter (fun l => l.journalEntryId = a.id) = v.db.linesOf a.id :=
        filter_insertAll fun l hl => decide_eq_false fun e => hae (e.symm.trans (hok l hl).1)
      exact Eq.trans (b := DB.entryBalanced a.id v.db) (entryBalanced_congr rfl hlines) hb

theorem run_post {es : List NewEntry} {v w : Env DB Err} {u : Unit} (h : (post es).run v = .ok (u, w))
    (hs : v.db.Sound v.seq) (hc : v.db.Checked v.checks) : w.db.Sound w.seq ∧ w.db.Checked w.checks := by
  induction es generalizing v with
  | nil =>
    obtain ⟨-, rfl⟩ := Prog.run_pure_ok.1 h
    exact ⟨hs, hc⟩
  | cons e es ih =>
    obtain ⟨je, v₁, h₁, h⟩ := Prog.run_bind_ok.1 h
    obtain ⟨_, v₂, h₂, h⟩ := Prog.run_bind_ok.1 h
    obtain ⟨hs₁, hc₁, hje⟩ := run_insertEntry h₁ hs hc
    obtain ⟨hs₂, hc₂⟩ := run_insertLines h₂ hs₁ hc₁ hje
    exact ih h hs₂ hc₂

/-- The operations on accounts keep every account. -/
theorem DB.Sound.accounts {n m : ℕ} {db : DB} (h : db.Sound n) (hm : n ≤ m) {t : Table Account}
    (ht : ∀ k, (db.accounts.find? k).isSome = true → (t.find? k).isSome = true) :
    ({ db with accounts := t } : DB).Sound m :=
  ⟨h.below.mono hm, fun l hl =>
    let hok := h.lines l hl
    ⟨hok.fits, hok.nonneg, hok.oneSide, ht _ hok.account⟩, h.currencies⟩

theorem run_transaction {op : Op} {v w : Env DB Err} {u : Unit} (h : (transaction op).run v = .ok (u, w))
    (hs : v.db.Sound v.seq) (hc : v.db.Checked v.checks) : w.db.Sound w.seq ∧ w.db.Checked w.checks := by
  cases op with
  | createAccount input =>
    obtain ⟨o, ho, -, rfl⟩ := Prog.run_exec_ok.1 h
    simp only [Except.bind_eq_ok_iff] at ho
    obtain ⟨_, -, ho⟩ := ho
    cases ho
    refine ⟨hs.accounts (v.le_after_seq _) fun k hk => ?_, fun e he => ?_⟩
    · obtain ⟨a, ha⟩ := Option.isSome_iff_exists.1 hk
      obtain rfl : a.id = k := Table.key_of_find? ha
      exact Option.isSome_iff_exists.2 ⟨a, Table.find?_key (Table.mem_insert_of_mem (Table.mem_of_find? ha))⟩
    · rw [Env.after_checks, List.append_nil]
      exact hc e he
  | updateAccount id input =>
    obtain ⟨o, ho, -, rfl⟩ := Prog.run_exec_ok.1 h
    simp only [Except.bind_eq_ok_iff] at ho
    obtain ⟨_, -, _, -, ho⟩ := ho
    cases ho
    refine ⟨hs.accounts (v.le_after_seq _) fun k hk => ?_, fun e he => ?_⟩
    · have hkey : ∀ a : Account, Keyed.key (a.edited input) = Keyed.key a := fun _ => rfl
      show ((v.db.accounts.update [id] (·.edited input) hkey).find? k).isSome = true
      rw [Table.find?_update, Option.isSome_map]
      exact hk
    · rw [Env.after_checks, List.append_nil]
      exact hc e he
  | post es => exact run_post h hs hc

/-- The rows are sound and every entry is balanced. -/
def Valid (s : Store DB) : Prop := s.db.Sound s.seq ∧ ∀ e ∈ s.db.entries, DB.entryBalanced e.id s.db = .ok ()

theorem Reachable.valid {s : Store DB} (h : Reachable s) : Valid s := by
  induction h with
  | start =>
    refine ⟨⟨fun e he => ?_, fun l hl => ?_, fun e he => ?_⟩, fun e he => ?_⟩
    all_goals cases ‹_ ∈ _›
  | step _ hs ih =>
    obtain ⟨w, hrun, hpass, rfl⟩ := Prog.commit_eq_ok.1 hs
    obtain ⟨hsound, hchecked⟩ := run_transaction hrun ih.1 fun e he => .inl (ih.2 e he)
    refine ⟨hsound, fun e he => ?_⟩
    rcases hchecked e he with hb | hb
    · exact hb
    · exact passAll_eq_ok.1 hpass _ hb

theorem exists_reachable (ops : List Op) {p : Store DB → Bool}
    (h : (Prog.commitAll transaction ops seeded).toOption.any p = true) : ∃ s, Reachable s ∧ p s = true :=
  Prog.exists_commitAll (fun _ _ _ hs hc => .step hs hc) .start ops h

/-- A sale of 100 euros for cash. -/
def sale : Op := .post [{
  entryDate := march5, periodId := 1, currencyCode := "EUR", memo := "Sale",
  lines := [⟨1, some 1, dollars 100, 0, ""⟩, ⟨2, some 8, 0, dollars 100, ""⟩] }]

end Schema17

/-! ### The migrated ledger -/

/-- Every account with a line is active and postable. -/
def Schema17.DB.AccountsOpen (db : Schema17.DB) : Prop :=
  ∀ l ∈ db.lines, (db.accounts.find? l.accountId).any (fun a => a.isPostable && a.isActive) = true

instance (db : Schema17.DB) : Decidable db.AccountsOpen :=
  inferInstanceAs (Decidable (∀ l ∈ db.lines.rows, (db.accounts.find? l.accountId).any _ = true))

/-- Posted entries balance in base currency, and the accounts have the trial balance they had. -/
def Migrated (s : Store Schema17.DB) (s' : Store DB) : Prop :=
  (∀ e ∈ s'.db.entries, e.status = .posted →
    ((s'.db.linesOf e.id).map (·.baseDebit)).sum = ((s'.db.linesOf e.id).map (·.baseCredit)).sum) ∧
  ∀ a ∈ s.db.accounts, a ∈ s'.db.accounts ∧ s'.db.trialBalanceRow a = s.db.trialBalanceRow a

section migration

variable {n : ℕ} {db : Schema17.DB}

/-- A line after the backfill. -/
def baseLine (l : Schema17.JournalLine) : JournalLine := (alterLine l).inBase

/-- The ledger after the backfill. -/
def backfilled (n : ℕ) (db : Schema17.DB) : DB :=
  { alterTables n db with lines := (alterTables n db).lines.map JournalLine.inBase JournalLine.key_inBase }

theorem rows_backfilled : (backfilled n db).lines.rows = db.lines.rows.map baseLine := List.map_map

theorem mem_seedAccounts {a : Account} (h : a ∈ db.accounts) : a ∈ seedAccounts n db := by
  unfold seedAccounts
  split
  · exact h
  · exact Table.mem_insert_of_mem h

theorem find?_seedAccounts {k : ℕ} (h : (db.accounts.find? k).isSome = true) :
    (seedAccounts n db).find? k = db.accounts.find? k := by
  obtain ⟨a, ha⟩ := Option.isSome_iff_exists.1 h
  obtain rfl : a.id = k := Table.key_of_find? ha
  have hm : a ∈ seedAccounts n db := mem_seedAccounts (Table.mem_of_find? ha)
  rw [ha]
  exact Table.find?_key hm

/-- Of the checks of a line only the trigger on its account may fail. -/
theorem check_baseLine {l : Schema17.JournalLine} (h : l.Ok db.accounts) :
    (baseLine l).check (alterTables n db) = .ok () ↔
      (db.accounts.find? l.accountId).any (fun a => a.isPostable && a.isActive) = true := by
  have hacc : (alterTables n db).accountOk l.accountId = .ok () ↔
      (db.accounts.find? l.accountId).any (fun a => a.isPostable && a.isActive) = true := by
    have hf : (alterTables n db).accounts.find? l.accountId = db.accounts.find? l.accountId :=
      find?_seedAccounts h.account
    obtain ⟨a, ha⟩ := Option.isSome_iff_exists.1 h.account
    rw [DB.accountOk, hf, ha]
    simp only [Except.bind_eq_ok_iff, ensure_eq_ok, exists_const, Option.any_some, Bool.and_eq_true]
  have hside : ((l.debit = 0 || 0 < l.debit) && (l.credit = 0 || 0 < l.credit)) = true := by
    have hnonneg := h.nonneg
    simp only [Bool.and_eq_true, Bool.or_eq_true, decide_eq_true_eq]
    omega
  rw [JournalLine.check]
  simp only [Except.bind_eq_ok_iff, ensure_eq_ok, exists_const, baseLine, alterLine, JournalLine.inBase, h.fits,
    h.nonneg, hacc, Bool.and_self, decide_true, true_and]
  exact and_iff_left ⟨h.oneSide, hside⟩

theorem linesOf_backfilled (je : ℕ) : (backfilled n db).linesOf je = (db.linesOf je).map baseLine := by
  unfold DB.linesOf Schema17.DB.linesOf
  rw [rows_backfilled, List.filter_map]
  rfl

theorem sum_baseDebit (ls : List Schema17.JournalLine) :
    ((ls.map baseLine).map (·.baseDebit)).sum = (ls.map (·.debit)).sum := by
  rw [List.map_map]
  rfl

theorem sum_baseCredit (ls : List Schema17.JournalLine) :
    ((ls.map baseLine).map (·.baseCredit)).sum = (ls.map (·.credit)).sum := by
  rw [List.map_map]
  rfl

theorem sum_debit (ls : List Schema17.JournalLine) :
    ((ls.map baseLine).map (·.debit)).sum = (ls.map (·.debit)).sum := by
  rw [List.map_map]
  rfl

theorem sum_credit (ls : List Schema17.JournalLine) :
    ((ls.map baseLine).map (·.credit)).sum = (ls.map (·.credit)).sum := by
  rw [List.map_map]
  rfl

theorem find?_backfilled (je : ℕ) : (backfilled n db).entries.find? je = (db.entries.find? je).map alterEntry := by
  have hkey : ∀ e : Schema17.JournalEntry, Keyed.key (alterEntry e) = Keyed.key e := fun _ => rfl
  exact Table.find?_map hkey _ _

/-- What was balanced is balanced in base currency. -/
theorem entryBalanced_backfilled {je : ℕ} (h : Schema17.DB.entryBalanced je db = .ok ()) :
    DB.entryBalanced je (backfilled n db) = .ok () := by
  unfold DB.entryBalanced
  unfold Schema17.DB.entryBalanced at h
  rw [find?_backfilled]
  cases he : db.entries.find? je with
  | none => rfl
  | some e =>
    rw [he] at h
    simp only [Option.map_some, linesOf_backfilled, sum_baseDebit, sum_baseCredit, sum_debit, sum_credit] at h ⊢
    show (if e.status ≠ .posted then _ else _) = _
    split
    · rfl
    · rename_i hst
      rw [if_neg hst] at h
      split at h
      · cases h
      · rename_i hfits
        split at h
        · cases h
        · rename_i hzero
          split at h
          · cases h
          · rename_i hne
            have hfits' := hfits
            simp only [Bool.not_eq_true', Bool.not_eq_false, Bool.and_eq_true] at hfits'
            rw [if_neg (by simp [hfits']), if_neg hzero, if_neg hne, if_neg hne]

theorem trialBalanceRow_backfilled (a : Account) :
    (backfilled n db).trialBalanceRow a = db.trialBalanceRow a := by
  have hlines : (backfilled n db).accountLines (·.status = .posted) a = (db.accountLines a).map baseLine := by
    unfold DB.accountLines Schema17.DB.accountLines
    rw [rows_backfilled, List.filter_map]
    congr 1
    apply List.filter_congr
    intro l _
    show (((backfilled n db).entries.find? l.journalEntryId).any _ && _) = _
    rw [find?_backfilled, Option.any_map]
    rfl
  have hnet : ((db.accountLines a).map baseLine).map JournalLine.net =
      (db.accountLines a).map fun l => l.debit - l.credit := List.map_map
  unfold DB.trialBalanceRow Schema17.DB.trialBalanceRow
  dsimp only
  rw [hlines, hnet, sum_baseDebit, sum_baseCredit]

end migration

/-! ### The result -/

theorem balanced_of_mem {db : Schema17.DB} (h : ∀ e ∈ db.entries, Schema17.DB.entryBalanced e.id db = .ok ()) (je : ℕ) :
    Schema17.DB.entryBalanced je db = .ok () := by
  cases he : db.entries.find? je with
  | none => rw [Schema17.DB.entryBalanced, he]
  | some e =>
    obtain rfl : e.id = je := Table.key_of_find? he
    exact h e (Table.mem_of_find? he)

theorem baseCurrency_mem {db : Schema17.DB} (h : ∀ e ∈ db.entries, e.currencyCode ∈ currencies) :
    db.baseCurrency ∈ currencies := by
  unfold Schema17.DB.baseCurrency
  cases hp : db.predominant with
  | none => decide
  | some c =>
    have hc := List.mem_of_head? hp
    rw [List.mem_insertionSort, List.mem_dedup, List.mem_map] at hc
    obtain ⟨e, he, rfl⟩ := hc
    exact h e he

/-- The migration commits when every line and every entry with a line pass their checks. -/
theorem multiCurrency_eq_ok {s : Store Schema17.DB} (hs : s.db.Sound s.seq) {s' : Store DB} :
    multiCurrency s = .ok s' ↔ (∀ l ∈ s.db.lines, (baseLine l).check (alterTables s.seq s.db) = .ok ()) ∧
      (∀ l ∈ s.db.lines, DB.entryBalanced l.journalEntryId (backfilled s.seq s.db) = .ok ()) ∧
      s' = ⟨backfilled s.seq s.db, s.seq + 1⟩ := by
  have hcur : decide (s.db.baseCurrency ∈ currencies) = true := decide_eq_true (baseCurrency_mem hs.currencies)
  have hrows : (alterTables s.seq s.db).lines.rows = s.db.lines.rows.map alterLine := rfl
  have hchecks : passAll ((alterTables s.seq s.db).lines.rows.map fun l db => l.inBase.check db)
      (alterTables s.seq s.db) = .ok () ↔ ∀ l ∈ s.db.lines, (baseLine l).check (alterTables s.seq s.db) = .ok () := by
    simp only [passAll_eq_ok, hrows, List.forall_mem_map]
    rfl
  have hdeferred : passAll ((alterTables s.seq s.db).lines.rows.map fun l => DB.entryBalanced l.journalEntryId)
      (backfilled s.seq s.db) = .ok () ↔
        ∀ l ∈ s.db.lines, DB.entryBalanced l.journalEntryId (backfilled s.seq s.db) = .ok () := by
    simp only [passAll_eq_ok, hrows, List.forall_mem_map]
    rfl
  rw [← hchecks, ← hdeferred]
  constructor
  · intro h
    obtain ⟨_, -, h⟩ := Except.bind_eq_ok_iff.1 h
    obtain ⟨⟨_, s₁⟩, hcommit, h⟩ := Except.bind_eq_ok_iff.1 h
    obtain ⟨w, hrun, hdef, rfl⟩ := Prog.commit_eq_ok.1 hcommit
    obtain ⟨o, ho, -, rfl⟩ := Prog.run_exec_ok.1 hrun
    obtain ⟨_, hpass, ho⟩ := Except.bind_eq_ok_iff.1 ho
    cases ho
    cases h
    exact ⟨hpass, hdef, rfl⟩
  · rintro ⟨hpass, hdef, rfl⟩
    refine Except.bind_eq_ok_iff.2 ⟨(), ensure_eq_ok.2 hcur, Except.bind_eq_ok_iff.2 ⟨((), _), ?_, rfl⟩⟩
    exact Prog.commit_eq_ok.2 ⟨_, Prog.run_exec_ok.2 ⟨_, Except.bind_eq_ok_iff.2 ⟨(), hpass, rfl⟩, rfl, rfl⟩, hdef, rfl⟩

/-- The migration applies, as promised, to a ledger exactly when every account with a line is active and postable. -/
theorem multiCurrency_applies {s : Store Schema17.DB} (h : Schema17.Reachable s) :
    (∃ s', multiCurrency s = .ok s' ∧ Migrated s s') ↔ s.db.AccountsOpen := by
  obtain ⟨hs, hb⟩ := h.valid
  constructor
  · rintro ⟨s', hs', -⟩ l hl
    exact (check_baseLine (hs.lines l hl)).1 (((multiCurrency_eq_ok hs).1 hs').1 l hl)
  · intro hopen
    have hbal : ∀ je, DB.entryBalanced je (backfilled s.seq s.db) = .ok () :=
      fun je => entryBalanced_backfilled (balanced_of_mem hb je)
    refine ⟨_, (multiCurrency_eq_ok hs).2 ⟨fun l hl => ?_, fun l hl => ?_, rfl⟩, fun e he hp => ?_, fun a ha => ?_⟩
    · exact (check_baseLine (hs.lines l hl)).2 (hopen l hl)
    · exact hbal _
    · exact (entryBalanced_eq_ok he hp (hbal _)).2
    · exact ⟨mem_seedAccounts ha, trialBalanceRow_backfilled a⟩

/-- A ledger in euros. -/
theorem multiCurrency_applies_euros : ∃ s, Schema17.Reachable s ∧ s.db.baseCurrency = "EUR" ∧
    ∃ s', multiCurrency s = .ok s' ∧ Migrated s s' := by
  obtain ⟨s, hs, hp⟩ := Schema17.exists_reachable [Schema17.sale]
    (p := fun s => s.db.baseCurrency = "EUR" ∧ s.db.AccountsOpen) (by decide +kernel)
  obtain ⟨hcur, hopen⟩ := of_decide_eq_true hp
  exact ⟨s, hs, hcur, (multiCurrency_applies hs).2 hopen⟩

/-- The revenue account is deactivated after the sale. -/
theorem multiCurrency_fails : ¬∀ s, Schema17.Reachable s → ∃ s', multiCurrency s = .ok s' ∧ Migrated s s' := by
  intro h
  obtain ⟨s, hs, hp⟩ := Schema17.exists_reachable
    [Schema17.sale, .updateAccount 8 ⟨"4000", .revenue, true, false, false, none⟩]
    (p := fun s => (multiCurrency s).toOption.isNone) (by decide +kernel)
  obtain ⟨s', hs', -⟩ := h s hs
  rw [hs'] at hp
  cases hp
