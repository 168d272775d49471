import Tadmor.Model.Balances
import Tadmor.Proof.Bank
import Tadmor.Proof.Ownership

/-!
# Matches and reversals

An entry with a matched line is not reversed, and no statement but a match adds a match.  So a bank line stays
matched to a line of a live entry as long as it was matched to one.
-/

namespace DB

/-- The entry of the journal line is neither reversed nor a reversal. -/
def isLiveLine (db : DB) (k : ℕ) : Bool := (db.lines.find? k).all fun jl => db.isUnreversed jl.journalEntryId

/-- The unmatched lines of a statement, in the order `AutoMatch` takes them. -/
def unmatchedLines (db : DB) (statement : ℕ) : List ℕ :=
  ((db.statementLines.rows.filter fun l => l.statementId = statement && l.journalLineId = none).insertionSort
    fun l m => l.lineNo ≤ m.lineNo).map (·.id)

/-- The bank line is matched to the journal line. -/
def withMatch (db : DB) (lineId k : ℕ) : DB :=
  { db with statementLines := db.statementLines.update [lineId] (·.matched (some k)) fun _ => rfl }

/-- The journal lines that come first for the lines, each taken before the next one is looked up. -/
def firstMatches (db : DB) : List ℕ → List ℕ
  | [] => []
  | l :: ls =>
    match db.matchFor l with
    | none => db.firstMatches ls
    | some k => k :: (db.withMatch l k).firstMatches ls

/-- The journal line that a request names for a match, and those that come first when the lines of a statement are
matched, belong to live entries. -/
def matchesLive (db : DB) : Op → Bool
  | .matchLine _ k => db.isLiveLine k
  | .autoMatch statement => (db.firstMatches (db.unmatchedLines statement)).all db.isLiveLine
  | _ => true

/-- Every match is with a line of a live entry. -/
def MatchedLive (db : DB) : Prop :=
  ∀ l ∈ db.statementLines, ∀ k, l.journalLineId = some k → db.isLiveLine k = true

end DB

theorem isUnreversed_eq_true {db : DB} {je : ℕ} : db.isUnreversed je = true ↔
    (∃ e ∈ db.entries, e.id = je ∧ e.reversesEntryId = none) ∧ ∀ r ∈ db.entries, r.reversesEntryId ≠ some je := by
  simp only [DB.isUnreversed, Bool.and_eq_true, Option.any_eq_true, decide_eq_true_eq, List.all_eq_true, Table.find?_eq_some,
    and_assoc]
  rfl

/-! ### What adds a match -/

/-- A match that a change did not find was made by a request to match. -/
theorem Change.match_cases {n : ℕ} {db db' : DB} {op : Op} {cs : List (DB → Except Err Unit)}
    (h : Change n db op db' cs) {l : BankStatementLine} (hl : l ∈ db'.statementLines) {k : ℕ}
    (hk : l.journalLineId = some k) : (∃ x ∈ db.statementLines, x.journalLineId = some k) ∨
      (∃ id, op = .matchLine id k) ∨ ∃ statement, op = .autoMatch statement := by
  cases h with
  | elsewhere h => exact .inl ⟨l, h.statementLines ▸ hl, hk⟩
  | deleteStatement id hr => exact .inl ⟨l, (Table.mem_erase.1 hl).1, hk⟩
  | addLine statement lineNo all input h hs =>
    rcases Table.mem_of_mem_insert hl with hl | rfl
    · exact .inl ⟨l, hl, hk⟩
    · cases hk
  | deleteLine id h => exact .inl ⟨l, (Table.mem_erase.1 hl).1, hk⟩
  | matchLine id k' h =>
    rcases Table.mem_update_cases (by intro; rfl) hl with ⟨hl, -⟩ | ⟨x, -, -, rfl⟩
    · exact .inl ⟨l, hl, hk⟩
    · obtain rfl : k' = k := Option.some.inj hk
      exact .inr (.inl ⟨id, rfl⟩)
  | unmatchLine id h =>
    rcases Table.mem_update_cases (by intro; rfl) hl with ⟨hl, -⟩ | ⟨x, -, -, rfl⟩
    · exact .inl ⟨l, hl, hk⟩
    · cases hk
  | autoMatch statement id k' hk' h => exact .inr (.inr ⟨statement, rfl⟩)
  | _ => exact .inl ⟨l, hl, hk⟩

theorem commit_match_cases {op : Op} {gaps : ℕ → ℕ} {s s' : Store DB}
    (h : (transaction op).commit gaps s = .ok ((), s')) (hs : Fresh s.seq s.db) {l : BankStatementLine}
    (hl : l ∈ s'.db.statementLines) {k : ℕ} (hk : l.journalLineId = some k) :
    (∃ x ∈ s.db.statementLines, x.journalLineId = some k) ∨ (∃ id, op = .matchLine id k) ∨
      ∃ statement, op = .autoMatch statement := by
  obtain ⟨-, hall, -⟩ := commit_changes
    (I := fun db _ => ∀ l ∈ db.statementLines, ∀ k, l.journalLineId = some k →
      (∃ x ∈ s.db.statementLines, x.journalLineId = some k) ∨ (∃ id, op = .matchLine id k) ∨
        ∃ statement, op = .autoMatch statement)
    (fun _ hi hc l hl k hk => by
      rcases hc.match_cases hl hk with ⟨x, hx, hxk⟩ | hnew
      · exact hi x hx k hxk
      · exact .inr hnew) h hs fun l hl k hk => .inl ⟨l, hl, hk⟩
  exact hall l hl k hk

/-! ### What is reversed -/

theorem matchedOn_eq_false {db : DB} {je : ℕ} (h : db.matchedOn je = false) {l : BankStatementLine}
    (hl : l ∈ db.statementLines) {k : ℕ} (hk : l.journalLineId = some k) {jl : JournalLine}
    (hjl : db.lines.find? k = some jl) : jl.journalEntryId ≠ je := by
  simp only [DB.matchedOn, List.any_eq_false] at h
  have hno := h l hl
  simp only [hk, hjl, Option.any_some, decide_eq_true_eq] at hno
  exact hno

/-- The reversals of `db'` that are not in `db` are of entries without a match in `db`. -/
def DB.UnmatchedReversals (db db' : DB) : Prop :=
  ∀ r ∈ db'.entries, r ∈ db.entries ∨ ∀ o, r.reversesEntryId = some o → db.matchedOn o = false

theorem DB.UnmatchedReversals.of_same {db db' : DB} (h : db'.entries = db.entries) : db.UnmatchedReversals db' :=
  fun _ hr => .inl (h ▸ hr)

theorem Wrote.unmatchedReversals {lo : ℕ} {db db' : DB} {e : JournalEntry} {rows : List JournalLine}
    (hw : Wrote lo db db' e rows) (he : e.reversesEntryId = none) : db.UnmatchedReversals db' := by
  intro r hr
  rcases hw.mem_entries.1 hr with hr | rfl
  · exact .inl hr
  · right
    intro o ho
    rw [he] at ho
    cases ho

theorem Reversed.unmatchedReversals {lo : ℕ} {db db' : DB} {e r : JournalEntry} {rows : List JournalLine}
    (h : Reversed lo db db' e r rows) : db.UnmatchedReversals db' := by
  intro x hx
  rcases h.wrote.mem_entries.1 hx with hx | rfl
  · exact .inl hx
  · right
    intro o ho
    rw [h.reversal] at ho
    obtain rfl : e.id = o := Option.some.inj ho
    exact h.unmatched

/-- Lines that are there keep their entries, so what is unmatched once it has more lines was unmatched before. -/
theorem matchedOn_of_grown {db mid : DB} (hg : Grown db mid) (hl : mid.statementLines = db.statementLines) {je : ℕ}
    (h : mid.matchedOn je = false) : db.matchedOn je = false := by
  simp only [DB.matchedOn, List.any_eq_false] at h ⊢
  intro l hm
  have hno := h l (hl ▸ hm)
  cases hk : l.journalLineId with
  | none => simp
  | some k =>
    simp only [hk] at hno ⊢
    cases hjl : db.lines.find? k with
    | none => simp
    | some jl =>
      obtain ⟨ls, hls, -⟩ := hg.lines
      have hmem : jl ∈ mid.lines := by
        rw [← Table.mem_rows, hls]
        exact List.mem_append_left _ (Table.mem_of_find? hjl)
      have hfind : mid.lines.find? k = some jl := Table.find?_eq_some.2 ⟨hmem, Table.key_of_find? hjl⟩
      rw [hfind] at hno
      exact hno

theorem DB.UnmatchedReversals.trans {a b c : DB} (h : a.UnmatchedReversals b) (h' : b.UnmatchedReversals c)
    (hg : Grown a b) (hl : b.statementLines = a.statementLines) : a.UnmatchedReversals c := by
  intro r hr
  rcases h' r hr with hr | hno
  · exact h r hr
  · exact .inr fun o ho => matchedOn_of_grown hg hl (hno o ho)

theorem FxPosted.unmatchedReversals {lo : ℕ} {own : JournalEntry → Application → Prop} {db db' : DB} (h : FxPosted lo own db db') :
    db.UnmatchedReversals db' := by
  induction h with
  | nil db => exact .of_same rfl
  | cons hw he ha hfx _ _ _ ih =>
    exact (hw.unmatchedReversals he).trans ih hw.grown (by rw [hw.eq])

theorem ReversedAll.unmatchedReversals {lo : ℕ} {es : List ℕ} {db db' : DB} (h : ReversedAll lo es db db') :
    db.UnmatchedReversals db' := by
  induction h with
  | nil db => exact .of_same rfl
  | cons h _ _ ih => exact h.unmatchedReversals.trans ih h.journaled.grown (by rw [h.wrote.eq])

theorem Effect.unmatchedReversals {lo : ℕ} {op : Op} {db db' : DB} (h : Effect lo op db db') :
    db.UnmatchedReversals db' := by
  cases h with
  | outside h => exact .of_same h.entries
  | docEdit id h => exact .of_same (by rw [h.eq])
  | paymentEdit id h => exact .of_same (by rw [h.eq])
  | movementEdit h => exact .of_same (by rw [h.eq])
  | postDoc kind id hd hs ht hw he => exact hw.unmatchedReversals he
  | postPayment side id hp hs ht hw he => exact hw.unmatchedReversals he
  | postMovement id hm hj hw he => exact hw.unmatchedReversals he
  | autoApply side settler id n hn hc hfree hfx hch => exact hfx.unmatchedReversals
  | unpostDoc hd hs hj happs hr => exact hr.unmatchedReversals
  | unpostPayment hp hs hj hr => exact hr.unmatchedReversals
  | unpostMovement hm hj hr => exact hr.unmatchedReversals
  | closeEmpty id hopen h => exact .of_same (by rw [h.eq])
  | closeYear id hopen hw he h =>
    have := hw.unmatchedReversals he
    intro r hr
    rw [h.eq] at hr
    exact this r hr
  | reopenYear id hc hmid hlink hr =>
    obtain ⟨ys, ps, rfl⟩ : ∃ ys ps, _ = { db with years := ys, periods := ps } := ⟨_, _, hmid⟩
    exact hr.unmatchedReversals

theorem Grown.mem_lines {db db' : DB} (hg : Grown db db') {l : JournalLine} (hl : l ∈ db.lines) : l ∈ db'.lines := by
  obtain ⟨ls, hls, -⟩ := hg.lines
  rw [← Table.mem_rows, hls]
  exact List.mem_append_left _ hl

/-- The entry of a line that a bank line is matched to is not reversed. -/
theorem commit_isLiveLine {op : Op} {gaps : ℕ → ℕ} {s s' : Store DB}
    (h : (transaction op).commit gaps s = .ok ((), s')) (hs : Reachable s) {l : BankStatementLine}
    (hl : l ∈ s.db.statementLines) {k : ℕ} (hk : l.journalLineId = some k) (hlive : s.db.isLiveLine k = true) :
    s'.db.isLiveLine k = true := by
  obtain ⟨-, -, -, jl, hjl, hid, -⟩ := hs.bank.1.backed l hl k hk
  have heff := (commit_effect h hs.fresh).1
  have hg := heff.journaled.grown
  have hfind : s.db.lines.find? k = some jl := Table.find?_eq_some.2 ⟨hjl, hid⟩
  have hfind' : s'.db.lines.find? k = some jl := Table.find?_eq_some.2 ⟨hg.mem_lines hjl, hid⟩
  rw [DB.isLiveLine, hfind, Option.all_some, isUnreversed_eq_true] at hlive
  rw [DB.isLiveLine, hfind', Option.all_some, isUnreversed_eq_true]
  obtain ⟨⟨e, he, hee, hn⟩, hrev⟩ := hlive
  refine ⟨⟨e, hg.mem he, hee, hn⟩, fun r hr hre => ?_⟩
  rcases heff.unmatchedReversals r hr with hr | hno
  · exact hrev r hr hre
  · exact matchedOn_eq_false (hno _ hre) hl hk hfind rfl

/-! ### What is matched -/

/-- The matches after a run of `AutoMatch` over the lines were there before, or are those that come first. -/
theorem run_autoMatchLines {ls : List ℕ} {v w : Env DB Err} {n : ℕ} (h : (autoMatchLines ls).run v = .ok (n, w))
    {l : BankStatementLine} (hl : l ∈ w.db.statementLines) {k : ℕ} (hk : l.journalLineId = some k) :
    (∃ x ∈ v.db.statementLines, x.journalLineId = some k) ∨ k ∈ v.db.firstMatches ls := by
  induction ls generalizing v n with
  | nil =>
    obtain ⟨-, rfl⟩ := Prog.run_pure_ok.1 h
    exact .inl ⟨l, hl, hk⟩
  | cons i ls ih =>
    obtain ⟨a, v₁, h₁, h⟩ := Prog.run_bind_ok.1 h
    obtain ⟨b, v₂, h₂, h⟩ := Prog.run_bind_ok.1 h
    obtain ⟨-, rfl⟩ := Prog.run_pure_ok.1 h
    obtain ⟨o, ho, -, rfl⟩ := Prog.run_exec_ok.1 h₁
    have hrest := ih h₂
    cases hf : v.db.matchFor i with
    | none =>
      rw [hf] at ho
      cases ho
      rw [DB.firstMatches, hf]
      exact hrest
    | some j =>
      rw [hf] at ho
      obtain ⟨-, -, hact, -⟩ := setMatch_eq_ok ho
      have hdb : (v.after o).db = v.db.withMatch i j := hact
      rw [hdb] at hrest
      simp only [DB.firstMatches, hf, List.mem_cons]
      rcases hrest with ⟨x, hx, hxk⟩ | hmem
      · rcases Table.mem_update_cases (by intro; rfl) hx with ⟨hx, -⟩ | ⟨y, -, -, rfl⟩
        · exact .inl ⟨x, hx, hxk⟩
        · exact .inr (.inl (Option.some.inj hxk).symm)
      · exact .inr (.inr hmem)

theorem run_requireOpen_db {id : ℕ} {v w : Env DB Err} {u : Unit} (h : (requireOpen id).run v = .ok (u, w)) :
    w.db = v.db := by
  obtain ⟨status, -, h⟩ := Prog.run_query_bind_ok.1 h
  obtain ⟨-, rfl⟩ := Prog.run_require_ok.1 h
  rfl

theorem commit_autoMatch {statement : ℕ} {gaps : ℕ → ℕ} {s s' : Store DB}
    (h : (transaction (.autoMatch statement)).commit gaps s = .ok ((), s')) {l : BankStatementLine}
    (hl : l ∈ s'.db.statementLines) {k : ℕ} (hk : l.journalLineId = some k) :
    (∃ x ∈ s.db.statementLines, x.journalLineId = some k) ∨
      k ∈ s.db.firstMatches (s.db.unmatchedLines statement) := by
  obtain ⟨v, hrun, -, rfl⟩ := Prog.commit_eq_ok.1 h
  obtain ⟨n, hrun⟩ := run_void hrun
  obtain ⟨u, v₁, h₁, hrun⟩ := Prog.run_bind_ok.1 hrun
  have hrun := run_autoMatchLines (Prog.run_read_bind_ok.1 hrun) hl hk
  have hdb : v₁.tick.db = s.db := run_requireOpen_db h₁
  rwa [hdb, show v₁.db = s.db from hdb] at hrun

/-- A line that a bank line is matched to after an operation was matched before, or the request may match it. -/
theorem commit_matched {op : Op} {gaps : ℕ → ℕ} {s s' : Store DB} (h : (transaction op).commit gaps s = .ok ((), s'))
    (hs : Fresh s.seq s.db) (hop : s.db.matchesLive op = true) {l : BankStatementLine}
    (hl : l ∈ s'.db.statementLines) {k : ℕ} (hk : l.journalLineId = some k) :
    (∃ x ∈ s.db.statementLines, x.journalLineId = some k) ∨ s.db.isLiveLine k = true ∧ SameBooks s.db s'.db := by
  have outside : Effect s.seq op s.db s'.db := (commit_effect h hs).1
  rcases commit_match_cases h hs hl hk with hold | ⟨id, rfl⟩ | ⟨statement, rfl⟩
  · exact .inl hold
  · obtain ⟨v, hrun, -, rfl⟩ := Prog.commit_eq_ok.1 h
    exact .inr ⟨hop, (allOutside_matchLine _ _).sameBooks hrun hs⟩
  · rcases commit_autoMatch h hl hk with hold | hfirst
    · exact .inl hold
    · obtain ⟨v, hrun, -, rfl⟩ := Prog.commit_eq_ok.1 h
      exact .inr ⟨List.all_eq_true.1 hop k hfirst, (allOutside_void (allOutside_autoMatch _)).sameBooks hrun hs⟩

theorem isLiveLine_congr {db db' : DB} (h : SameBooks db db') (k : ℕ) : db'.isLiveLine k = db.isLiveLine k := by
  simp only [DB.isLiveLine, DB.isUnreversed, h.lines, h.entries]

theorem commit_matchedLive {op : Op} {gaps : ℕ → ℕ} {s s' : Store DB}
    (h : (transaction op).commit gaps s = .ok ((), s')) (hs : Reachable s) (hop : s.db.matchesLive op = true)
    (hi : s.db.MatchedLive) : s'.db.MatchedLive := by
  intro l hl k hk
  rcases commit_matched h hs.fresh hop hl hk with ⟨x, hx, hxk⟩ | ⟨hlive, hsame⟩
  · exact commit_isLiveLine h hs hx hxk (hi x hx k hxk)
  · rw [isLiveLine_congr hsame]
    exact hlive

theorem Runs.matchedLive {s : Store DB} (h : Runs (fun s op => s.db.matchesLive op = true) seeded s) :
    s.db.MatchedLive := by
  induction h with
  | refl => exact fun l hl => absurd hl (Table.not_mem_empty l)
  | step hrun hop hc ih => exact commit_matchedLive hc (hrun.reachable .start) hop ih

/-- The journal line belongs to an entry that one owner stands behind: neither reversed nor a reversal. -/
def DB.OnLiveEntry (db : DB) (k : ℕ) : Prop :=
  ∃ jl ∈ db.lines, jl.id = k ∧ ∃ e ∈ db.entries, e.id = jl.journalEntryId ∧ db.Live e

/-- An entry that is neither reversed nor a reversal is live. -/
theorem live_of_isUnreversed {s : Store DB} (h : Reachable s) {je : ℕ} (hu : s.db.isUnreversed je = true) :
    ∃ e ∈ s.db.entries, e.id = je ∧ s.db.Live e := by
  obtain ⟨⟨e, he, rfl, hn⟩, hrev⟩ := isUnreversed_eq_true.1 hu
  obtain ⟨c, hc, -⟩ := h.journalOwned.classes e he
  cases c with
  | live => exact ⟨e, he, rfl, hc⟩
  | reversed =>
    obtain ⟨-, -, r, ⟨hr, hre⟩, -⟩ := hc
    exact absurd hre (hrev r hr)
  | reversal =>
    obtain ⟨⟨x, -, -, hm⟩, -⟩ := hc
    have := hm.reverses
    rw [hn] at this
    cases this

/-- As long as no request matches a line of a reversed entry or of a reversal, every bank line that is matched is
matched to a line of an entry that its one owner is posted through. -/
theorem matched_lines_live {s : Store DB} (h : Runs (fun s op => s.db.matchesLive op = true) seeded s) :
    ∀ l ∈ s.db.statementLines, ∀ k, l.journalLineId = some k → s.db.OnLiveEntry k := by
  intro l hl k hk
  have hs := h.reachable .start
  obtain ⟨-, -, -, jl, hjl, hid, -⟩ := hs.bank.1.backed l hl k hk
  have hlive := h.matchedLive l hl k hk
  rw [DB.isLiveLine, Table.find?_eq_some.2 ⟨hjl, hid⟩, Option.all_some] at hlive
  exact ⟨jl, hjl, hid, live_of_isUnreversed hs hlive⟩

/-- A payment of the invoice, posted, unposted and posted again, and the bank line of it. -/
def repaid : List Op := opening ++ [.postDoc .salesInvoice 15, .createPayment .sales (paymentInput 100),
  .postPayment .sales 21, .createStatement ⟨1, 0, dollars 100⟩, .unpostPayment .sales 21, .postPayment .sales 21,
  .addLines 25 [⟨march6, dollars 100⟩]]

/-- The bank line is matched to the cash line of the second entry, and the statement reconciled. -/
theorem matched_lines_live_repaid : ∃ s : Store DB,
    s.db.statementLines.rows.map (·.journalLineId) = [some 30] ∧
      ∀ l ∈ s.db.statementLines, ∀ k, l.journalLineId = some k → s.db.OnLiveEntry k := by
  have hany : (executeIf (fun s op => s.db.matchesLive op) (repaid ++ [.matchLine 32 30, .reconcile 25]) seeded).any
      fun s => s.db.statementLines.rows.map (·.journalLineId) = [some 30] := by decide +kernel
  obtain ⟨s, hs, hl⟩ := (Option.any_eq_true ..).1 hany
  exact ⟨s, of_decide_eq_true hl, matched_lines_live (runs_executeIf hs)⟩

/-- Matched automatically, the bank line takes the cash line of the first entry, the reversed one, which has the lowest
id of those that fit. -/
theorem matched_to_reversed : ¬∀ s : Store DB, Reachable s → ∀ l ∈ s.db.statementLines, ∀ k,
    l.journalLineId = some k → s.db.OnLiveEntry k := by
  obtain ⟨s, hs, hp⟩ := exists_reachable (repaid ++ [.autoMatch 25, .reconcile 25])
    (p := fun s => (s.db.statementLines.rows.map (·.journalLineId) = [some 23] ∧
      (s.db.lines.find? 23).map (·.journalEntryId) = some 22) ∧
      s.db.entries.rows.any fun r => r.reversesEntryId = some 22) (by decide +kernel)
  obtain ⟨⟨hl, hjl⟩, hr⟩ := of_decide_eq_true hp
  obtain ⟨l, hmem, hk⟩ := List.mem_map.1 (hl ▸ List.mem_singleton.2 rfl)
  obtain ⟨r, hrm, hre⟩ := List.any_eq_true.1 hr
  intro hall
  obtain ⟨jl, hjlm, hid, e, -, hee, -, hnone, -⟩ := hall s hs l hmem 23 hk
  have hfind : s.db.lines.find? 23 = some jl := Table.find?_eq_some.2 ⟨hjlm, hid⟩
  rw [hfind] at hjl
  have hentry : e.id = 22 := hee.trans (Option.some.inj hjl)
  exact hnone r hrm (hentry ▸ of_decide_eq_true hre)
