import Tadmor.Proof.Matching
import Tadmor.Theory.GreedyMatching

/-!
# Auto-match is greedy

Every line takes the nearest of the journal lines that are still unclaimed.  So of every amount as many lines are
matched as there are lines to match on the side that has fewer, and a second run finds nothing to match.
-/

/-- The posted lines on the account of the statement that no bank line is matched to. -/
def DB.unclaimed (db : DB) (st : BankStatement) : List JournalLine :=
  db.lines.rows.filter fun jl => ((db.entries.find? jl.journalEntryId).any fun je => je.status = .posted) &&
    jl.accountId = st.accountId && db.statementLines.rows.all fun used => used.journalLineId ≠ some jl.id

/-- The journal line has the amount of the bank line. -/
def SameAmount (l : BankStatementLine) (jl : JournalLine) : Prop := jl.debit - jl.credit = l.amount

/-- The days from the bank line to the entry of the journal line. -/
def DB.daysApart (db : DB) (l : BankStatementLine) (jl : JournalLine) : ℕ :=
  (db.entries.find? jl.journalEntryId).elim 0 fun je => ((je.entryDate.dayNumber : ℤ) - l.txnDate.dayNumber).natAbs

/-- The entry of `b` has the nearer date, or the same distance and `b` the lower id. -/
def DB.Nearer (db : DB) (l : BankStatementLine) (b c : JournalLine) : Prop :=
  db.daysApart l b < db.daysApart l c ∨ db.daysApart l b = db.daysApart l c ∧ b.id ≤ c.id

/-- The unmatched lines of the statement, in their order. -/
structure DB.Unmatched (db : DB) (st : BankStatement) (ls : List BankStatementLine) : Prop where
  mem : ∀ l, l ∈ ls ↔ l ∈ db.statementLines ∧ l.statementId = st.id ∧ l.journalLineId = none
  order : ls.Pairwise fun l m => l.lineNo ≤ m.lineNo
  nodup : ls.Nodup

/-- The lines `ls` take the journal lines that `pick` gives them, `n` in all, and leave `left`. -/
structure AutoMatched (st : BankStatement) (ls : List BankStatementLine) (pick : BankStatementLine → Option JournalLine)
    (left : List JournalLine) (db db' : DB) (n : ℕ) : Prop where
  greedy : Greedy SameAmount db.Nearer pick (db.unclaimed st) ls left
  count : n = ls.countP fun l => (pick l).isSome
  rows : db'.statementLines.rows = db.statementLines.rows.map fun l =>
    if l ∈ ls then l.matched ((pick l).map (·.id)) else l
  rest : db' = { db with statementLines := db'.statementLines }

/-- What the request does in `s`: the greedy matching of the unmatched lines, as many of each amount as there are on
both sides, and nothing when it is sent again. -/
def MatchesGreedily (st : BankStatement) (s : Store DB) : Prop :=
  ∀ gaps gaps' : ℕ → ℕ, ∃ ls pick n s', s.db.Unmatched st ls ∧ (AutoMatch st.id).commit gaps s = .ok (n, s') ∧
    AutoMatched st ls pick (s'.db.unclaimed st) s.db s'.db n ∧
    (∀ amount : ℤ, (ls.countP fun l => l.amount = amount && (pick l).isSome) =
      min (ls.countP fun l => l.amount = amount)
        ((s.db.unclaimed st).countP fun jl => jl.debit - jl.credit = amount)) ∧
    ∃ s'', (AutoMatch st.id).commit gaps' s' = .ok (0, s'') ∧ s''.db = s'.db

/-! ### The candidates -/

section

variable {db : DB} {st : BankStatement} {l : BankStatementLine} {jl : JournalLine}

theorem mem_unclaimed : jl ∈ db.unclaimed st ↔ jl ∈ db.lines ∧
    (∃ je, db.entries.find? jl.journalEntryId = some je ∧ je.status = .posted) ∧ jl.accountId = st.accountId ∧
      ∀ used ∈ db.statementLines, used.journalLineId ≠ some jl.id := by
  rw [DB.unclaimed, List.mem_filter, Bool.and_eq_true, Bool.and_eq_true, Option.any_eq_true, List.all_eq_true]
  simp only [decide_eq_true_eq, and_assoc]
  rfl

theorem nodup_unclaimed : (db.unclaimed st).Nodup := (List.Nodup.of_map _ db.lines.nodup).filter _

/-- The ranked candidates of the subquery. -/
theorem mem_ranked {x : ℕ × ℕ} : (x ∈ db.lines.rows.filterMap fun jl =>
    (db.entries.find? jl.journalEntryId).bind fun je =>
      if je.status = .posted ∧ jl.accountId = st.accountId ∧ jl.debit - jl.credit = l.amount ∧
          (db.statementLines.rows.all fun used => used.journalLineId ≠ some jl.id) = true
      then some (((je.entryDate.dayNumber : ℤ) - l.txnDate.dayNumber).natAbs, jl.id) else none) ↔
    ∃ jl ∈ db.unclaimed st, SameAmount l jl ∧ x = (db.daysApart l jl, jl.id) := by
  rw [List.mem_filterMap]
  refine exists_congr fun jl => ?_
  rw [mem_unclaimed, DB.daysApart]
  cases hje : db.entries.find? jl.journalEntryId with
  | none => simp
  | some je =>
    simp only [Option.bind_some, Option.ite_none_right_eq_some, Option.some.injEq, exists_eq_left', Option.elim_some,
      List.all_eq_true, decide_eq_true_eq, SameAmount, eq_comm (a := x)]
    constructor
    · rintro ⟨hm, ⟨hs, ha, hamt, hu⟩, hx⟩
      exact ⟨⟨hm, hs, ha, hu⟩, hamt, hx⟩
    · rintro ⟨⟨hm, hs, ha, hu⟩, hamt, hx⟩
      exact ⟨hm, ⟨hs, ha, hamt, hu⟩, hx⟩

variable (hl : db.statementLines.find? l.id = some l) (hst : db.statements.find? l.statementId = some st)

include hl hst

theorem matchFor_eq_none (h : db.matchFor l.id = none) : ∀ c ∈ db.unclaimed st, ¬SameAmount l c := by
  intro c hc hamt
  rw [DB.matchFor, hl, Option.bind_some, hst, Option.bind_some, Option.map_eq_none_iff, List.argmin_eq_none] at h
  have hmem := mem_ranked.2 ⟨c, hc, hamt, rfl⟩
  rw [h] at hmem
  cases hmem

/-- What `AutoMatch` picks for a line. -/
theorem matchFor_eq_some {k : ℕ} (h : db.matchFor l.id = some k) : ∃ jl ∈ db.unclaimed st, jl.id = k ∧
    SameAmount l jl ∧ ∀ c ∈ db.unclaimed st, SameAmount l c → db.Nearer l jl c := by
  rw [DB.matchFor, hl, Option.bind_some, hst, Option.bind_some, Option.map_eq_some_iff] at h
  obtain ⟨x, hx, rfl⟩ := h
  obtain ⟨jl, hjl, hamt, hxe⟩ := mem_ranked.1 (List.argmin_mem hx)
  rw [hxe] at hx ⊢
  refine ⟨jl, hjl, rfl, hamt, fun c hc hca => ?_⟩
  exact Prod.Lex.le_iff.1 (List.le_of_mem_argmin (mem_ranked.2 ⟨c, hc, hca, rfl⟩) hx)

/-- The trigger accepts an unclaimed line with the amount. -/
theorem matchCheck_unclaimed (ho : st.status = .opened) (hjl : jl ∈ db.unclaimed st) (hamt : SameAmount l jl) :
    db.matchCheck l.id (some jl.id) = .ok () := by
  obtain ⟨hm, ⟨je, hje, hs⟩, hacc, -⟩ := mem_unclaimed.1 hjl
  have hfind : db.lines.find? jl.id = some jl := Table.find?_key hm
  simp only [DB.matchCheck, hl, DB.statementLineCheck, hst, hfind, hje, Except.bind_eq_ok_iff, ensure_eq_ok,
    exists_const, decide_eq_true_eq, Option.any_some]
  exact ⟨ho, hs, hacc, hamt⟩

end

/-! ### One line -/

section

variable {v : Env DB Err} {st : BankStatement} {l : BankStatementLine} {jl : JournalLine}

/-- A match claims its journal line. -/
theorem unclaimed_withMatch {db : DB} (hl : l ∈ db.statementLines) (hn : l.journalLineId = none)
    (hjl : jl ∈ db.unclaimed st) : (db.withMatch l.id jl.id).unclaimed st = (db.unclaimed st).erase jl := by
  have hkey : ∀ x : BankStatementLine, Keyed.key (x.matched (some jl.id)) = Keyed.key x := fun _ => rfl
  have hself : l.matched (some jl.id) ∈ (db.withMatch l.id jl.id).statementLines :=
    (Table.mem_update hkey).2 ⟨l, hl, if_pos (List.mem_singleton_self _)⟩
  rw [nodup_unclaimed.erase_eq_filter]
  conv_rhs => rw [DB.unclaimed, List.filter_filter]
  refine List.filter_congr fun c hc => ?_
  rw [Bool.eq_iff_iff]
  simp only [Bool.and_eq_true, List.all_eq_true, decide_eq_true_eq, bne_iff_ne]
  constructor
  · rintro ⟨hp, hu⟩
    refine ⟨?_, hp, fun x hx hxc => ?_⟩
    · rintro rfl
      exact hu _ hself rfl
    · by_cases hid : x.id = l.id
      · rw [Table.key_inj hx hl hid, hn] at hxc
        cases hxc
      · exact hu x ((Table.mem_update hkey).2 ⟨x, hx, if_neg fun h => hid (List.mem_singleton.1 h)⟩) hxc
  · rintro ⟨hne, hp, hu⟩
    refine ⟨hp, fun y hy hyc => ?_⟩
    rcases Table.mem_update_cases hkey hy with ⟨hy, -⟩ | ⟨x, hx, -, rfl⟩
    · exact hu y hy hyc
    · exact hne (Table.key_inj hc (mem_unclaimed.1 hjl).1 (Option.some.inj hyc).symm)

theorem run_autoMatchLine_none (h : v.db.matchFor l.id = none) :
    ∃ w, (autoMatchLine l.id).run v = .ok (0, w) ∧ w.db = v.db ∧ w.checks = v.checks := by
  refine ⟨_, Prog.run_exec_ok.2 ⟨{ res := 0 }, ?_, rfl, rfl⟩, rfl, List.append_nil _⟩
  rw [h]

theorem run_autoMatchLine_some (hl : l ∈ v.db.statementLines) (hst : v.db.statements.find? l.statementId = some st)
    (ho : st.status = .opened) (h : v.db.matchFor l.id = some jl.id) (hjl : jl ∈ v.db.unclaimed st)
    (hamt : SameAmount l jl) : ∃ w, (autoMatchLine l.id).run v = .ok (1, w) ∧ w.db = v.db.withMatch l.id jl.id ∧
      w.checks = v.checks := by
  have hcheck := matchCheck_unclaimed (Table.find?_key hl) hst ho hjl hamt
  have hunique : (v.db.statementLines.rows.all fun x => x.id ∈ [l.id] || x.journalLineId ≠ some jl.id) = true := by
    rw [List.all_eq_true]
    intro x hx
    rw [Bool.or_eq_true, decide_eq_true_eq, decide_eq_true_eq]
    exact .inr ((mem_unclaimed.1 hjl).2.2.2 x hx)
  obtain ⟨o, ho, hres⟩ : ∃ o, setMatch v.db l.id [l.id] (some jl.id) = .ok o ∧ o.res = 1 := by
    rw [setMatch, if_neg (List.cons_ne_nil _ _), hcheck]
    simp only [Option.all_some, hunique]
    exact ⟨_, rfl, rfl⟩
  obtain ⟨-, -, hact, hchecks⟩ := setMatch_eq_ok ho
  have hrun : (autoMatchLine l.id).run v = .ok (1, v.after o) := by
    refine Prog.run_exec_ok.2 ⟨o, ?_, hres.symm, rfl⟩
    rw [h]
    exact ho
  refine ⟨v.after o, hrun, hact, ?_⟩
  show v.checks ++ o.checks = v.checks
  rw [hchecks, List.append_nil]

end

/-! ### The visit -/

theorem BankStatementLine.matched_none {l : BankStatementLine} (h : l.journalLineId = none) : l.matched none = l := by
  obtain ⟨id, statementId, lineNo, txnDate, amount, journalLineId⟩ := l
  obtain rfl : journalLineId = none := h
  rfl

section

variable {v : Env DB Err} {st : BankStatement} {l : BankStatementLine}

/-- The lines to visit are unmatched lines of the statement. -/
def DB.Visits (db : DB) (st : BankStatement) (ls : List BankStatementLine) : Prop :=
  ∀ l ∈ ls, l ∈ db.statementLines ∧ l.statementId = st.id ∧ l.journalLineId = none

theorem DB.Visits.withMatch {db : DB} {ls : List BankStatementLine} (h : db.Visits st (l :: ls))
    (hnd : (l :: ls).Nodup) (k : ℕ) : (db.withMatch l.id k).Visits st ls := by
  intro x hx
  obtain ⟨hm, hrest⟩ := h x (List.mem_cons_of_mem _ hx)
  have hkey : ∀ y : BankStatementLine, Keyed.key (y.matched (some k)) = Keyed.key y := fun _ => rfl
  refine ⟨(Table.mem_update hkey).2 ⟨x, hm, if_neg fun hid => ?_⟩, hrest⟩
  have hxl : x = l := Table.key_inj hm (h l (List.mem_cons_self ..)).1 (List.mem_singleton.1 hid)
  exact (List.nodup_cons.1 hnd).1 (hxl ▸ hx)

/-- The match of the first line, then those of the others. -/
theorem rows_withMatch {db : DB} {ls : List BankStatementLine} (h : db.Visits st (l :: ls)) (hnd : (l :: ls).Nodup)
    (jl : JournalLine) (pick : BankStatementLine → Option JournalLine) :
    ((db.withMatch l.id jl.id).statementLines.rows.map fun x =>
      if x ∈ ls then x.matched ((pick x).map (·.id)) else x) =
    db.statementLines.rows.map fun x => if x ∈ l :: ls then
      x.matched ((Function.update pick l (some jl) x).map (·.id)) else x := by
  show (db.statementLines.rows.map _).map _ = _
  rw [List.map_map]
  refine List.map_congr_left fun x hx => ?_
  rw [Function.comp_apply]
  by_cases hxl : x = l
  · subst hxl
    have hno : x.matched (some jl.id) ∉ ls := fun hm => by
      have := (h _ (List.mem_cons_of_mem _ hm)).2.2
      cases this
    have hid : Keyed.key x ∈ [x.id] := List.mem_singleton_self _
    rw [if_pos hid, if_neg hno, if_pos (List.mem_cons_self ..), Function.update_self, Option.map_some]
  · have hid : Keyed.key x ∉ [l.id] := fun hid =>
      hxl (Table.key_inj hx (h l (List.mem_cons_self ..)).1 (List.mem_singleton.1 hid))
    rw [if_neg hid, Function.update_of_ne hxl]
    simp only [List.mem_cons, hxl, false_or]

theorem update_of_mem {ls : List BankStatementLine} {pick : BankStatementLine → Option JournalLine} (hl : l ∉ ls)
    (m : Option JournalLine) {x : BankStatementLine} (hx : x ∈ ls) : Function.update pick l m x = pick x := by
  refine Function.update_of_ne ?_ ..
  rintro rfl
  exact hl hx

theorem countP_update {ls : List BankStatementLine} {pick : BankStatementLine → Option JournalLine} (hl : l ∉ ls)
    (m : Option JournalLine) : ((l :: ls).countP fun x => (Function.update pick l m x).isSome) =
      (if m.isSome then 1 else 0) + ls.countP fun x => (pick x).isSome := by
  rw [List.countP_cons, Function.update_self, add_comm]
  congr 1
  refine List.countP_congr fun x hx => ?_
  rw [update_of_mem hl m hx]

theorem run_autoMatchLines_greedy {ls : List BankStatementLine} (hst : v.db.statements.find? st.id = some st)
    (ho : st.status = .opened) (hls : v.db.Visits st ls) (hnd : ls.Nodup) : ∃ n w pick,
      (autoMatchLines (ls.map (·.id))).run v = .ok (n, w) ∧ w.checks = v.checks ∧
        AutoMatched st ls pick (w.db.unclaimed st) v.db w.db n := by
  induction ls generalizing v with
  | nil =>
    refine ⟨0, v, fun _ => none, Prog.run_pure_ok.2 ⟨rfl, rfl⟩, rfl, .nil _, rfl, ?_, rfl⟩
    simp
  | cons l ls ih =>
    obtain ⟨hl, hid, hn⟩ := hls l (List.mem_cons_self ..)
    have hfind : v.db.statementLines.find? l.id = some l := Table.find?_key hl
    have hst' : v.db.statements.find? l.statementId = some st := hid ▸ hst
    have hnotin := (List.nodup_cons.1 hnd).1
    cases hf : v.db.matchFor l.id with
    | none =>
      obtain ⟨v₁, h₁, hdb, hchecks⟩ := run_autoMatchLine_none hf
      have hvisits : v₁.db.Visits st ls := by
        rw [hdb]
        exact fun x hx => hls x (List.mem_cons_of_mem _ hx)
      obtain ⟨n, w, pick, h₂, hc, hm⟩ := ih (hdb ▸ hst) hvisits (List.nodup_cons.1 hnd).2
      rw [hdb] at hm
      refine ⟨0 + n, w, Function.update pick l none, ?_, hc.trans hchecks, ?_, ?_, ?_, hm.rest⟩
      · exact Prog.run_bind_ok.2 ⟨_, _, h₁, Prog.run_bind_ok.2 ⟨_, _, h₂, rfl⟩⟩
      · exact .skip (Function.update_self ..) (matchFor_eq_none hfind hst' hf) (hm.greedy.congr fun x hx => update_of_mem hnotin none hx)
      · rw [countP_update hnotin, hm.count]
        rfl
      · rw [hm.rows]
        refine List.map_congr_left fun x _ => ?_
        by_cases hxl : x = l
        · subst hxl
          rw [if_neg hnotin, if_pos (List.mem_cons_self ..), Function.update_self, Option.map_none,
            BankStatementLine.matched_none hn]
        · rw [Function.update_of_ne hxl]
          simp only [List.mem_cons, hxl, false_or]
    | some k =>
      obtain ⟨jl, hjl, rfl, hamt, hbest⟩ := matchFor_eq_some hfind hst' hf
      obtain ⟨v₁, h₁, hdb, hchecks⟩ := run_autoMatchLine_some hl hst' ho hf hjl hamt
      have hvisits : v₁.db.Visits st ls := hdb ▸ hls.withMatch hnd jl.id
      obtain ⟨n, w, pick, h₂, hc, hm⟩ := ih (hdb ▸ hst) hvisits (List.nodup_cons.1 hnd).2
      rw [hdb] at hm
      refine ⟨1 + n, w, Function.update pick l (some jl), ?_, hc.trans hchecks, ?_, ?_, ?_, hm.rest⟩
      · exact Prog.run_bind_ok.2 ⟨_, _, h₁, Prog.run_bind_ok.2 ⟨_, _, h₂, rfl⟩⟩
      · refine .take (Function.update_self ..) hjl hamt hbest ?_
        have hgreedy := hm.greedy.congr fun x hx => update_of_mem hnotin (some jl) hx
        rwa [unclaimed_withMatch hl hn hjl] at hgreedy
      · rw [countP_update hnotin, hm.count]
        rfl
      · rw [hm.rows, rows_withMatch hls hnd]

end

/-! ### The request -/

section

variable {st : BankStatement}

/-- The query for the lines to visit. -/
theorem exists_unmatched (db : DB) (st : BankStatement) :
    ∃ ls, db.Unmatched st ls ∧ db.unmatchedLines st.id = ls.map (·.id) := by
  refine ⟨_, ⟨fun l => ?_, ?_, ?_⟩, rfl⟩
  · rw [List.mem_insertionSort, List.mem_filter, Bool.and_eq_true, decide_eq_true_eq, decide_eq_true_eq]
    rfl
  · have : Std.Total fun l m : BankStatementLine => l.lineNo ≤ m.lineNo := ⟨fun l m => le_total l.lineNo m.lineNo⟩
    have : IsTrans BankStatementLine fun l m => l.lineNo ≤ m.lineNo := ⟨fun _ _ _ => le_trans⟩
    exact List.pairwise_insertionSort _ _
  · exact (List.perm_insertionSort _ _).nodup_iff.2 ((List.Nodup.of_map _ db.statementLines.nodup).filter _)

theorem run_autoMatch {v : Env DB Err} (hst : st ∈ v.db.statements) (ho : st.status = .opened) :
    ∃ ls pick n w, v.db.Unmatched st ls ∧ (AutoMatch st.id).run v = .ok (n, w) ∧ w.checks = v.checks ∧
      AutoMatched st ls pick (w.db.unclaimed st) v.db w.db n := by
  have hfind : v.db.statements.find? st.id = some st := Table.find?_key hst
  obtain ⟨ls, hls, hids⟩ := exists_unmatched v.db st
  obtain ⟨n, w, pick, hrun, hc, hm⟩ := run_autoMatchLines_greedy (v := v.tick.tick) hfind ho (fun l => (hls.mem l).1)
    hls.nodup
  refine ⟨ls, pick, n, w, hls, ?_, hc, hm⟩
  rw [← hids] at hrun
  refine Prog.run_bind_ok.2 ⟨(), v.tick, ?_, Prog.run_read_bind_ok.2 hrun⟩
  refine Prog.run_query_bind_ok.2 ⟨st.status, ?_, Prog.run_require_ok.2 ⟨decide_eq_true ho, rfl⟩⟩
  rw [hfind]

/-- The lines that a visit leaves unmatched are those that it gave nothing. -/
theorem AutoMatched.unmatched {ls ls' : List BankStatementLine} {pick : BankStatementLine → Option JournalLine}
    {left : List JournalLine} {db db' : DB} {n : ℕ} (h : AutoMatched st ls pick left db db' n)
    (hls : db.Unmatched st ls) (hls' : db'.Unmatched st ls') : ∀ l ∈ ls', l ∈ ls ∧ pick l = none := by
  intro l hl
  obtain ⟨hm, hid, hn⟩ := (hls'.mem l).1 hl
  rw [← Table.mem_rows, h.rows] at hm
  obtain ⟨x, hx, rfl⟩ := List.mem_map.1 hm
  by_cases hxl : x ∈ ls
  · rw [if_pos hxl] at hn ⊢
    have hnone : pick x = none := Option.map_eq_none_iff.1 hn
    rw [hnone, Option.map_none, BankStatementLine.matched_none ((hls.mem x).1 hxl).2.2]
    exact ⟨hxl, hnone⟩
  · rw [if_neg hxl] at hid hn
    exact absurd ((hls.mem x).2 ⟨hx, hid, hn⟩) hxl

/-- A visit of lines that no unclaimed journal line fits changes nothing. -/
theorem AutoMatched.none {ls : List BankStatementLine} {pick : BankStatementLine → Option JournalLine}
    {left : List JournalLine} {db db' : DB} {n : ℕ} (h : AutoMatched st ls pick left db db' n)
    (hls : db.Unmatched st ls) (hno : ∀ l ∈ ls, ∀ jl ∈ db.unclaimed st, ¬SameAmount l jl) : n = 0 ∧ db' = db := by
  have hpick : ∀ l ∈ ls, pick l = Option.none := by
    intro l hl
    cases hp : pick l with
    | none => rfl
    | some jl =>
      obtain ⟨hmem, hamt⟩ := h.greedy.fits_of_pick hl hp
      exact absurd hamt (hno l hl jl hmem)
  constructor
  · rw [h.count, List.countP_eq_zero]
    intro l hl
    rw [hpick l hl]
    simp
  · have hrows : db'.statementLines.rows = db.statementLines.rows := by
      rw [h.rows]
      refine (List.map_congr_left fun x _ => ?_).trans (List.map_id _)
      by_cases hx : x ∈ ls
      · rw [if_pos hx, hpick x hx, Option.map_none, BankStatementLine.matched_none ((hls.mem x).1 hx).2.2]
        rfl
      · exact if_neg hx
    rw [h.rest, Table.ext_rows hrows]

/-- Auto-match is the greedy matching of the unmatched lines, and takes all it can of every amount. -/
theorem autoMatch_greedy {s : Store DB} (hst : st ∈ s.db.statements) (ho : st.status = .opened) :
    MatchesGreedily st s := by
  intro gaps gaps'
  obtain ⟨ls, pick, n, w, hls, hrun, hc, hm⟩ := run_autoMatch (v := ⟨gaps, s.seq, s.db, []⟩) hst ho
  have hst' : st ∈ w.db.statements := by
    rw [hm.rest]
    exact hst
  obtain ⟨ls', pick', n', w', hls', hrun', hc', hm'⟩ := run_autoMatch (v := ⟨gaps', w.seq, w.db, []⟩) hst' ho
  refine ⟨ls, pick, n, ⟨w.db, w.seq⟩, hls, Prog.commit_eq_ok.2 ⟨w, hrun, by rw [hc]; rfl, rfl⟩, hm, fun amount => ?_, ?_⟩
  · exact hm.greedy.countP_eq (fun _ _ => Iff.rfl) amount
  · have hdone : ∀ l ∈ ls', ∀ jl ∈ w.db.unclaimed st, ¬SameAmount l jl := by
      intro l hl jl hjl
      obtain ⟨hmem, hnone⟩ := hm.unmatched hls hls' l hl
      exact hm.greedy.not_fits hmem hnone hjl
    obtain ⟨rfl, hdb⟩ := hm'.none hls' hdone
    exact ⟨⟨w'.db, w'.seq⟩, Prog.commit_eq_ok.2 ⟨w', hrun', by rw [hc']; rfl, rfl⟩, hdb⟩

/-- Two cash lines as near to the bank line, and the one that reverses the first. -/
theorem autoMatch_greedy_repaid : ∃ s : Store DB, ∃ st ∈ s.db.statements,
    (s.db.unclaimed st).map (·.id) = [23, 27, 30] ∧ MatchesGreedily st s := by
  obtain ⟨s, -, hp⟩ := exists_reachable repaid
    (p := fun s => s.db.statements.find? 25 = some ⟨25, 1, 0, dollars 100, .opened⟩ &&
      (s.db.unclaimed ⟨25, 1, 0, dollars 100, .opened⟩).map (·.id) = [23, 27, 30]) (by decide +kernel)
  simp only [Bool.and_eq_true, decide_eq_true_eq] at hp
  obtain ⟨hfind, hids⟩ := hp
  have hst := Table.mem_of_find? hfind
  exact ⟨s, _, hst, hids, autoMatch_greedy hst rfl⟩

end
