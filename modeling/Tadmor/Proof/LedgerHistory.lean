import Tadmor.Proof.AccountLedger
import Tadmor.Proof.ConcurrentBooks

/-!
# What a ledger has shown it always shows

While requests run at the same time, a ledger only gains rows, each of a new entry, and an entry is shown with the same
lines for ever.
-/

/-- A line of an entry without the code of its account, which may be edited. -/
def JournalEntryLine.bare (l : JournalEntryLine) : JournalEntryLine := { l with accountCode := "" }

/-- The shown line of an entry that a ledger row is of. -/
structure LineOf (account : ℕ) (r : LedgerRow) (l : JournalEntryLine) : Prop where
  account : l.accountId = account
  memo : l.memo = r.memo
  debit : l.debit = r.debit
  credit : l.credit = r.credit
  baseDebit : l.baseDebit = r.baseDebit
  baseCredit : l.baseCredit = r.baseCredit

variable {db db' : DB} {account : ℕ} {fromDate toDate : Option Date}

theorem joined_grown (hg : Grown db db') (hj : JournalOk db) (entry : JournalEntry → Bool) :
    (db.joined entry account).Sublist (db'.joined entry account) := by
  obtain ⟨ls, hls, -⟩ := hg.lines
  unfold DB.joined
  rw [hls, List.filter_append, List.filterMap_append]
  refine List.Sublist.trans ?_ (List.sublist_append_left ..)
  rw [List.filterMap_congr fun l hl => ?_]
  obtain ⟨e, he, hid⟩ := hj.owned l (List.mem_filter.1 hl).1
  have hfind : db.entries.find? l.journalEntryId = some e := Table.find?_eq_some.2 ⟨he, hid⟩
  rw [hfind, hg.find? hfind]

/-- Later a ledger shows the same rows and maybe others, of entries that were not there. -/
theorem ledgerRows_grown (account : ℕ) (fromDate toDate : Option Date) (hg : Grown db db') (hj : JournalOk db) :
    (db.ledgerRows account fromDate toDate).Sublist (db'.ledgerRows account fromDate toDate) ∧
      ∀ r ∈ db'.ledgerRows account fromDate toDate, db.entries.find? r.journalEntryId = none ∨
        r ∈ db.ledgerRows account fromDate toDate := by
  refine ⟨(List.insertionSort_sublist (joined_grown hg hj _)).map _, fun r hr => ?_⟩
  obtain ⟨e, he, l, hl, hid, ha, hw, rfl⟩ := mem_ledgerRows.1 hr
  cases hfind : db.entries.find? e.id with
  | none => exact .inl hfind
  | some x =>
    obtain ⟨hx, hxid⟩ := Table.find?_eq_some.1 hfind
    obtain rfl : x = e := Table.key_inj (hg.mem hx) he hxid
    have hmem : l ∈ db.linesOf x.id := by
      rw [← hg.linesOf hx]
      exact List.mem_filter.2 ⟨hl, decide_eq_true hid⟩
    exact .inr (mem_ledgerRows.2 ⟨x, hx, l, (List.mem_filter.1 hmem).1, hid, ha, hw, rfl⟩)

/-- The lines of an entry with their accounts, in the order of their numbers. -/
theorem entryLines_bare (h : db.LedgerOk) (ls : List JournalLine) (hls : ∀ l ∈ ls, l ∈ db.lines) :
    (ls.filterMap fun l => (db.accounts.find? l.accountId).map fun a => journalEntryLine a l).map
        JournalEntryLine.bare =
      ls.map fun l => ⟨l.lineNo, l.accountId, "", l.memo, l.debit, l.credit, l.baseDebit, l.baseCredit⟩ := by
  induction ls with
  | nil => rfl
  | cons l ls ih =>
    obtain ⟨a, ha⟩ := Option.isSome_iff_exists.1 (h.account l (hls l (List.mem_cons_self ..)))
    rw [List.filterMap_cons, ha, Option.map_some, List.map_cons, List.map_cons,
      ih fun m hm => hls m (List.mem_cons_of_mem _ hm)]
    rfl

/-- An entry is shown later as it was, but for the codes of its accounts. -/
theorem journalEntry_grown (hg : Grown db db') (h : db.LedgerOk) (h' : db'.LedgerOk) {id : ℕ} {e : JournalEntry}
    {ls : List JournalEntryLine} (he : JournalEntryByID id db = some (e, ls)) :
    ∃ ls', JournalEntryByID id db' = some (e, ls') ∧ ls'.map JournalEntryLine.bare = ls.map JournalEntryLine.bare := by
  obtain ⟨x, hx, he⟩ := Option.map_eq_some_iff.1 he
  cases he
  obtain ⟨hmem, hid⟩ := Table.find?_eq_some.1 hx
  have hlines : db'.linesOf id = db.linesOf id := by
    rw [← hid]
    exact hg.linesOf hmem
  have hin : ∀ l ∈ (db.linesOf id).insertionSort fun l m => l.lineNo ≤ m.lineNo, l ∈ db.lines := fun l hl =>
    (List.mem_filter.1 ((List.mem_insertionSort _).1 hl)).1
  have hin' : ∀ l ∈ (db'.linesOf id).insertionSort fun l m => l.lineNo ≤ m.lineNo, l ∈ db'.lines := fun l hl =>
    (List.mem_filter.1 ((List.mem_insertionSort _).1 hl)).1
  refine ⟨_, Option.map_eq_some_iff.2 ⟨e, hg.find? hx, rfl⟩, ?_⟩
  rw [entryLines_bare h' _ hin', entryLines_bare h _ hin, hlines]

/-- A row of a ledger opens the entry it is of, and one of the entry's lines is the row. -/
theorem ledgerRow_opens (h : db.LedgerOk) {r : LedgerRow} (hr : r ∈ db.ledgerRows account fromDate toDate) :
    ∃ e ls, JournalEntryByID r.journalEntryId db = some (e, ls) ∧ e.status = .posted ∧ e.entryDate = r.entryDate ∧
      e.currencyCode = r.currency ∧ ∃ l ∈ ls, LineOf account r l := by
  obtain ⟨e, he, l, hl, hid, ha, hw, rfl⟩ := mem_ledgerRows.1 hr
  have hfind : db.entries.find? e.id = some e := Table.find?_key he
  obtain ⟨a, hacc⟩ := Option.isSome_iff_exists.1 (h.account l hl)
  refine ⟨e, _, Option.map_eq_some_iff.2 ⟨e, hfind, rfl⟩, h.posted e he, rfl, rfl, journalEntryLine a l, ?_, ?_⟩
  · refine List.mem_filterMap.2 ⟨l, (List.mem_insertionSort _).2 ?_, by rw [hacc]; rfl⟩
    exact List.mem_filter.2 ⟨hl, decide_eq_true hid⟩
  · exact ⟨ha, rfl, rfl, rfl, rfl, rfl⟩

section run

variable {ι : Type} [DecidableEq ι] [Fintype ι] {s : Store DB}

/-- Two committed states of a run in which requests race, the second one at the same time as the first or later. -/
theorem concurrent_ledgers_grow (h : Reachable s) (ops : ι → Op) (is js : List ι) (account : ℕ)
    (fromDate toDate : Option Date) (rows : List LedgerRow)
    (hrows : AccountLedger account fromDate toDate ((race s ops).runSchedule is).db = some rows) :
    (∃ rows', AccountLedger account fromDate toDate ((race s ops).runSchedule (is ++ js)).db = some rows' ∧
      rows.Sublist rows' ∧ ∀ r ∈ rows', r ∈ rows ∨
        JournalEntryByID r.journalEntryId ((race s ops).runSchedule is).db = none) ∧
    ∀ r ∈ rows, ∃ e ls, JournalEntryByID r.journalEntryId ((race s ops).runSchedule is).db = some (e, ls) ∧
      e.status = .posted ∧ e.entryDate = r.entryDate ∧ e.currencyCode = r.currency ∧ (∃ l ∈ ls, LineOf account r l) ∧
        ∃ ls', JournalEntryByID r.journalEntryId ((race s ops).runSchedule (is ++ js)).db = some (e, ls') ∧
          ls'.map JournalEntryLine.bare = ls.map JournalEntryLine.bare := by
  have hrun := ((numbered_race h ops).run journal_numbering is).1
  have hlater := (hrun.run journal_numbering js)
  rw [Sys.runSchedule_append]
  obtain ⟨hg, haccounts⟩ := hlater.2
  unfold AccountLedger at hrows ⊢
  split at hrows
  · rename_i hsome
    cases hrows
    obtain ⟨hsub, hnew⟩ := ledgerRows_grown account fromDate toDate hg hrun.db.journal
    refine ⟨⟨_, if_pos (haccounts _ hsome), hsub, fun r hr => ?_⟩, fun r hr => ?_⟩
    · rcases hnew r hr with hnone | hmem
      · exact .inr (by rw [JournalEntryByID, hnone]; rfl)
      · exact .inl hmem
    · obtain ⟨e, ls, he, hposted, hdate, hcur, hl⟩ := ledgerRow_opens hrun.db.ledger hr
      exact ⟨e, ls, he, hposted, hdate, hcur, hl, journalEntry_grown hg hrun.db.ledger hlater.1.db.ledger he⟩
  · cases hrows

end run

/-- The receivables while the invoice is posted twice: the row that the first request leaves stays. -/
theorem concurrent_ledgers_grow_twice : ∃ s : Store DB, Reachable s ∧
    ∃ rows, AccountLedger 2 none none ((race s postTwice).runSchedule (List.replicate 14 0)).db = some rows ∧
      rows.length = 1 ∧ ∃ rows', AccountLedger 2 none none
        ((race s postTwice).runSchedule (List.replicate 14 0 ++ List.replicate 14 1)).db = some rows' ∧
          rows.Sublist rows' := by
  obtain ⟨s, hs, hp⟩ := exists_reachable opening (p := fun s =>
    (AccountLedger 2 none none ((race s postTwice).runSchedule (List.replicate 14 0)).db).any fun rows =>
      rows.length = 1) (by decide +kernel)
  obtain ⟨rows, hrows, hlen⟩ := (Option.any_eq_true ..).1 hp
  obtain ⟨⟨rows', hrows', hsub, -⟩, -⟩ := concurrent_ledgers_grow hs postTwice (List.replicate 14 0)
    (List.replicate 14 1) 2 none none rows hrows
  exact ⟨s, hs, rows, hrows, of_decide_eq_true hlen, rows', hrows', hsub⟩
