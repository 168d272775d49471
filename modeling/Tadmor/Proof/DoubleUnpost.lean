import Tadmor.Proof.DoublePost
import Tadmor.Proof.NetEffect
import Tadmor.Proof.Unposting
import Tadmor.Proof.YearEndAnswers
import Tadmor.Store.FirstWins

/-!
# Concurrent reversals of one entry

An unposting tests whether the entry is reversed and then reverses it, without a lock.  If no commit of an unposting
becomes visible while another one stands in between, the entry is reversed once.  The reopening of a year locks the
year before the test, so that its closing entry is reversed once in any case.
-/

/-- The request has been done already, says the error: with the sentinel `c`, or for the entry. -/
def Err.Repeats (c : Posting.Sentinel) (e : Err) : Prop :=
  ∃ text, e = .posting c text ∨ e = .posting .alreadyReversed text

theorem Err.Repeats.sentinel (c : Posting.Sentinel) (text : String) : Err.Repeats c (.posting c text) :=
  ⟨text, .inl rfl⟩

theorem Err.Repeats.reversed (c : Posting.Sentinel) (text : String) : Err.Repeats c (.posting .alreadyReversed text) :=
  ⟨text, .inr rfl⟩

variable {c : Posting.Sentinel} {d d' : DB} {e : JournalEntry} {je : ℕ} {v w : Env DB Err}

/-! ### A second reversal -/

/-- The entry is there, and reversed. -/
def DB.reversedBy (db : DB) (je : ℕ) : Bool := db.entries.rows.any fun r => r.reversesEntryId = some je

theorem Reversed.reversedBy {lo : ℕ} {r : JournalEntry} {rows : List JournalLine} (h : Reversed lo d d' e r rows) :
    d'.reversedBy e.id = true := by
  refine List.any_eq_true.2 ⟨r, h.wrote.mem_entries.2 (.inr rfl), decide_eq_true ?_⟩
  rw [h.reversal]
  rfl

/-- The first of several reversals. -/
theorem ReversedAll.head {lo : ℕ} {es : List ℕ} (h : ReversedAll lo (je :: es) d d') :
    ∃ e, d.entries.find? je = some e ∧ d'.entries.find? je = some e ∧ d'.reversedBy je = true := by
  cases h with
  | @cons _ mid _ e r rows _ h _ hs =>
    obtain ⟨r', hr', hre⟩ := List.any_eq_true.1 h.reversedBy
    exact ⟨e, h.old, hs.journaled.grown.find? (h.wrote.grown.find? h.old),
      List.any_eq_true.2 ⟨r', hs.journaled.grown.mem hr', hre⟩⟩

theorem wp_reverseRest_again {date : Date} {currency : String} (h : v.db.reversedBy je = true) :
    (reverseRest je date currency).wp (Err.Repeats c) (fun _ _ => False) v := by
  unfold reverseRest
  rw [Prog.wp_read_bind, Prog.wp_require_bind]
  refine ⟨fun _ => .reversed c _, fun hno => ?_⟩
  rw [Bool.not_eq_true'] at hno
  exact (Bool.false_ne_true (hno.symm.trans h)).elim

theorem wp_reverseEntry_again {α : Type} {k : ℕ → Txn α} (he : v.db.entries.find? je = some e)
    (h : v.db.reversedBy je = true) : (reverseEntry je >>= k).wp (Err.Repeats c) (fun _ _ => False) v := by
  rw [reverseEntry_eq, Prog.wp_bind, Prog.wp_query_bind, reverseHeader, he]
  refine ⟨fun _ he => (by cases he), fun x hx => ?_⟩
  cases hx
  have hv : v.tick.db.reversedBy je = true := h
  exact (wp_reverseRest_again hv).mono fun _ _ _ hfalse => hfalse.elim

/-- Up to the check for a reversal, a reversal that has begun on `d` fails on `d'`, where the entry is reversed. -/
theorem failsFrom_reverseEntry {α : Type} {k : ℕ → Txn α} (he : d.entries.find? je = some e)
    (he' : d'.entries.find? je = some e) (h : d'.reversedBy je = true) :
    (reverseEntry je >>= k).FailsFrom (Err.Repeats c) d d' 2 := by
  rw [reverseEntry_eq, Prog.bind_assoc]
  refine .query_bind (fun gaps n => ?_) fun x hx => ?_
  · have hwp : (reverseEntry je >>= k).wp (Err.Repeats c) (fun _ _ => False) ⟨gaps, n, d', []⟩ :=
      wp_reverseEntry_again he' h
    rwa [reverseEntry_eq, Prog.bind_assoc] at hwp
  · rw [reverseHeader, he] at hx
    cases hx
    unfold reverseRest
    rw [Prog.bind_assoc]
    intro gaps n
    have hwp : (reverseRest je e.entryDate e.currencyCode >>= k).wp (Err.Repeats c) (fun _ _ => False)
        ⟨gaps, n, d', []⟩ :=
      Prog.wp_bind.2 ((wp_reverseRest_again h).mono fun _ _ _ hfalse => hfalse.elim)
    unfold reverseRest at hwp
    rwa [Prog.bind_assoc] at hwp

/-! ### A second unposting -/

variable {gaps : ℕ → ℕ} {s s' : Store DB}

theorem failsFrom_unpostDoc {kind : DocKind} {id : ℕ} (hs : Fresh s.seq s.db)
    (h : (void (unpostDoc kind id)).commit gaps s = .ok ((), s')) :
    (void (unpostDoc kind id)).FailsFrom (Err.Repeats .notPosted) s.db s'.db 4 := by
  obtain ⟨v, hrun, -, rfl⟩ := Prog.commit_eq_ok.1 h
  obtain ⟨rev, hrun⟩ := run_void hrun
  obtain ⟨d, e, r, rows, mid, hd, hp, hj, happs, hr, hdb, -⟩ := run_unpostDoc hrun hs
  have hold : s.db.entries.find? e.id = some e := hr.old
  have hnew : v.db.entries.find? e.id = some e := by
    rw [hdb]
    exact hr.wrote.grown.find? hold
  have hreversed : v.db.reversedBy e.id = true := by
    rw [hdb]
    exact hr.reversedBy
  have hnone : v.db.applications.rows.any (Application.involves kind id) = false := by
    rw [hdb, hr.wrote.eq, List.any_eq_false]
    exact fun a ha => Bool.eq_false_iff.1 (happs a ha)
  have hdraft : v.db.docOf kind id = some d.unposted := by
    obtain ⟨hf, hk⟩ := docOf_eq_some.1 hd
    have hkey : ∀ d : Doc, Keyed.key d.unposted = Keyed.key d := fun _ => rfl
    rw [docOf_eq_some, hdb]
    exact ⟨Table.find?_update_self hkey hf, hk⟩
  unfold void unpostDoc postedEntryOf
  simp only [Prog.bind_assoc]
  refine .query_bind (fun gaps n => ?_) fun je hje => ?_
  · rw [Prog.wp_query_bind]
    refine ⟨fun e he => ?_, fun je hje => ?_⟩
    · dsimp only at he
      rw [hdraft] at he
      cases he
      exact .sentinel _ _
    · dsimp only at hje
      rw [hdraft] at hje
      cases hje
  · have hje' : je = e.id := by
      rw [hd, Option.map_some, hp, hj] at hje
      cases hje
      rfl
    subst hje'
    refine .read_bind (fun gaps n => ?_) ?_
    · rw [Prog.wp_read_bind, Prog.wp_require_bind]
      refine ⟨fun hf => ?_, fun _ => wp_reverseEntry_again hnew hreversed⟩
      rw [Bool.not_eq_false'] at hf
      exact absurd hf (Bool.eq_false_iff.1 hnone)
    · have hno : s.db.applications.rows.any (Application.involves kind id) = false :=
        List.any_eq_false.2 fun a ha => Bool.eq_false_iff.1 (happs a ha)
      rw [hno]
      exact failsFrom_reverseEntry hold hnew hreversed

theorem failsFrom_unpostPayment {side : Side} {id : ℕ} (hs : Fresh s.seq s.db)
    (h : (void (unpostPayment side id)).commit gaps s = .ok ((), s')) :
    (void (unpostPayment side id)).FailsFrom (Err.Repeats .notPosted) s.db s'.db 3 := by
  obtain ⟨v, hrun, -, rfl⟩ := Prog.commit_eq_ok.1 h
  obtain ⟨rev, hrun⟩ := run_void hrun
  obtain ⟨p, je, mid, hp, hpost, hj, hall, hdb⟩ := run_unpostPayment hrun hs
  obtain ⟨e, hold, hmid, hreversed⟩ := hall.head
  have hnew : v.db.entries.find? je = some e := by
    rw [hdb]
    exact hmid
  have hreversed : v.db.reversedBy je = true := by
    rw [hdb]
    exact hreversed
  have hdraft : v.db.paymentOf side id = some p.unposted := by
    obtain ⟨hf, hside⟩ := paymentOf_eq_some.1 hp
    have hkey : ∀ p : Payment, Keyed.key p.unposted = Keyed.key p := fun _ => rfl
    rw [paymentOf_eq_some, hdb]
    exact ⟨Table.find?_update_self hkey hf, hside⟩
  unfold void unpostPayment postedEntryOf
  simp only [Prog.bind_assoc]
  refine .query_bind (fun gaps n => ?_) fun je' hje => ?_
  · rw [Prog.wp_query_bind]
    refine ⟨fun e he => ?_, fun je' hje => ?_⟩
    · dsimp only at he
      rw [hdraft] at he
      cases he
      exact .sentinel _ _
    · dsimp only at hje
      rw [hdraft] at hje
      cases hje
  · have hje' : je' = je := by
      have hp : s.db.paymentOf side id = some p := hp
      rw [hp, Option.map_some, hpost, hj] at hje
      cases hje
      rfl
    subst hje'
    exact failsFrom_reverseEntry hold hnew hreversed

theorem failsFrom_unpostMovement {id : ℕ} (hs : Fresh s.seq s.db)
    (h : (void (UnpostStockMovement id)).commit gaps s = .ok ((), s')) :
    (void (UnpostStockMovement id)).FailsFrom (Err.Repeats .notPosted) s.db s'.db 3 := by
  obtain ⟨v, hrun, -, rfl⟩ := Prog.commit_eq_ok.1 h
  obtain ⟨rev, hrun⟩ := run_void hrun
  obtain ⟨m, e, r, rows, mid, hm, hj, hr, hdb, -⟩ := run_unpostMovement hrun hs
  have hold : s.db.entries.find? e.id = some e := hr.old
  have hnew : v.db.entries.find? e.id = some e := by
    rw [hdb]
    exact hr.wrote.grown.find? hold
  have hreversed : v.db.reversedBy e.id = true := by
    rw [hdb]
    exact hr.reversedBy
  have hunlinked : v.db.movements.find? id = some m.unlinked := by
    have hkey : ∀ m : StockMovement, Keyed.key m.unlinked = Keyed.key m := fun _ => rfl
    rw [hdb]
    exact Table.find?_update_self hkey hm
  unfold void UnpostStockMovement
  simp only [Prog.bind_assoc]
  refine .query_bind (fun gaps n => ?_) fun je' hje => ?_
  · rw [Prog.wp_query_bind]
    refine ⟨fun e he => ?_, fun je' hje => ?_⟩
    · dsimp only at he
      rw [hunlinked] at he
      cases he
      exact .sentinel _ _
    · dsimp only at hje
      rw [hunlinked] at hje
      cases hje
  · have hje' : je' = e.id := by
      have hm : s.db.movements.find? id = some m := hm
      rw [hm] at hje
      dsimp only at hje
      rw [hj] at hje
      cases hje
      rfl
    subst hje'
    exact failsFrom_reverseEntry hold hnew hreversed

/-! ### A second reopening -/

/-- A period that is open stays open when an entry is reversed. -/
theorem run_reverseEntry_open {r k : ℕ} (h : (reverseEntry je).run v = .ok (r, w)) (hv : Fresh v.seq v.db)
    (hopen : ∀ p ∈ v.db.periods, p.id = k → p.status = .opened) :
    ∀ p ∈ w.db.periods, p.id = k → p.status = .opened := by
  have hchange : AllChange (.unpostMovement 0) (reverseEntry je) := allChange_reverseEntry je
  refine run_changes (I := fun db _ => ∀ p ∈ db.periods, p.id = k → p.status = .opened) hchange
    (allFresh_reverseEntry je) (fun {n db cs db' cs'} _ hi hc => ?_) h hv hopen
  cases hc with
  | elsewhere h => exact h.periods ▸ hi
  | month date hfy hover =>
    intro p hp hk
    rcases Table.mem_of_mem_insert hp with hp | rfl
    · exact hi p hp hk
    · rfl
  | openPeriods ks hu =>
    intro p hp hk
    rcases Table.mem_update_cases (by intro; rfl) hp with ⟨hp, -⟩ | ⟨q, hq, -, rfl⟩
    · exact hi p hp hk
    · rfl
  | _ => exact hi

/-- The closing entry has no closed period once the year is open. -/
theorem run_reopenFiscalYear_open {id : ℕ} {rev : Option ℕ} {fy : FiscalYear}
    (h : (ReopenFiscalYear id).run v = .ok (rev, w)) (hv : Fresh v.seq v.db) (hfy : v.db.years.find? id = some fy) (hje : fy.closingEntryId = some je) :
    w.db.closedPeriodOf je = [] := by
  simp only [ReopenFiscalYear, Prog.run_query_bind_ok, hfy, Except.ok.injEq, exists_eq_left', hje] at h
  rw [Prog.run_require_bind_ok, Prog.run_read_bind_ok, Prog.run_require_bind_ok] at h
  obtain ⟨-, -, h⟩ := h
  obtain ⟨u₁, v₁, h₁, h⟩ := Prog.run_bind_ok.1 h
  obtain ⟨u₂, v₂, h₂, h⟩ := Prog.run_bind_ok.1 h
  obtain ⟨rev', v₃, h₃, h⟩ := Prog.run_bind_ok.1 h
  obtain ⟨-, rfl⟩ := Prog.run_pure_ok.1 h
  have hv₂ := (allFresh_setPeriods _ _).run h₂ ((allFresh_updateYear _ _ _).run h₁ hv.tick.tick)
  obtain ⟨e₂, -⟩ := run_setPeriods h₂
  obtain ⟨e, r, rows, rfl, -, hr, -⟩ := run_reverseEntry h₃ hv₂
  have hold : v₁.db.entries.find? e.id = some e := by
    have hold := hr.old
    rwa [e₂] at hold
  have hopen : ∀ p ∈ v₂.db.periods, p.id = e.periodId → p.status = .opened := by
    rw [e₂]
    intro p hp hk
    rcases Table.mem_update_cases (by intro; rfl) hp with ⟨hp, hnot⟩ | ⟨q, -, -, rfl⟩
    · cases hs : p.status with
      | opened => rfl
      | closed =>
        refine absurd ?_ hnot
        rw [hold]
        exact Table.mem_hit.2 ⟨hk, p, Table.find?_eq_some.2 ⟨hp, hk⟩, decide_eq_true hs⟩
    · rfl
  have hopen' := run_reverseEntry_open h₃ hv₂ hopen
  rw [DB.closedPeriodOf, hr.wrote.grown.find? hr.old, List.eq_nil_iff_forall_not_mem]
  intro k hk
  obtain ⟨rfl, p, hp, hclosed⟩ := Table.mem_hit.1 hk
  have hclosed : p.status = .closed := of_decide_eq_true hclosed
  rw [hopen' p (Table.mem_of_find? hp) (Table.key_of_find? hp)] at hclosed
  cases hclosed

theorem run_reopenFiscalYear_years {id : ℕ} {rev : Option ℕ} (h : (ReopenFiscalYear id).run v = .ok (rev, w))
    (hv : Fresh v.seq v.db) :
    w.db.years =
      v.db.years.update [id] (fun y => { y with status := .opened, closingEntryId := none }) (fun _ => rfl) := by
  obtain ⟨fy, mid, -, -, -, -, hyears, -, ⟨-, hdb⟩ | ⟨e, r, rows, -, hr⟩⟩ := run_reopenFiscalYear h hv
  · rw [hdb]
    exact hyears
  · rw [hr.wrote.eq]
    exact hyears

theorem wp_reopenFiscalYear_again {id : ℕ} {fy : FiscalYear} (hfy : v.db.years.find? id = some fy)
    (hopen : fy.status = .opened) :
    (void (ReopenFiscalYear id)).wp (Err.Repeats .yearNotClosed) (fun _ _ => False) v := by
  unfold void ReopenFiscalYear
  simp only [Prog.bind_assoc]
  rw [Prog.wp_query_bind]
  refine ⟨fun err he => ?_, fun y hy => ?_⟩
  · rw [hfy] at he
    cases he
  · rw [hfy] at hy
    cases hy
    rw [Prog.wp_require_bind, hopen]
    exact ⟨fun _ => .sentinel _ _, fun hno => by cases hno⟩

/-- A year that is open again. -/
theorem fails_reopenFiscalYear {id : ℕ} (hs : Fresh s.seq s.db)
    (h : (void (ReopenFiscalYear id)).commit gaps s = .ok ((), s')) :
    (void (ReopenFiscalYear id)).FailsFrom (Err.Repeats .yearNotClosed) s.db s'.db 1 := by
  obtain ⟨v, hrun, -, rfl⟩ := Prog.commit_eq_ok.1 h
  obtain ⟨rev, hrun⟩ := run_void hrun
  obtain ⟨fy, -, hfy, -⟩ := run_reopenFiscalYear hrun hs
  have hopen : v.db.years.find? id = some { fy with status := .opened, closingEntryId := none } := by
    have hkey : ∀ y : FiscalYear, Keyed.key ({ y with status := .opened, closingEntryId := none } : FiscalYear) =
        Keyed.key y := fun _ => rfl
    rw [run_reopenFiscalYear_years hrun hs]
    exact Table.find?_update_self hkey hfy
  exact fun gaps n => wp_reopenFiscalYear_again hopen rfl

/-- A year that is open again, with the periods of its closing entry. -/
theorem failsFrom_reopenFiscalYear {id : ℕ} {fy : FiscalYear} (hs : Fresh s.seq s.db)
    (hfy : s.db.years.find? id = some fy) (hje : fy.closingEntryId = some je)
    (h : (void (ReopenFiscalYear id)).commit gaps s = .ok ((), s')) :
    (void (ReopenFiscalYear id)).FailsFrom (Err.Repeats .yearNotClosed) s.db s'.db 3 := by
  obtain ⟨v, hrun, -, rfl⟩ := Prog.commit_eq_ok.1 h
  obtain ⟨rev, hrun⟩ := run_void hrun
  have hperiods := run_reopenFiscalYear_open hrun hs hfy hje
  obtain ⟨fy', mid, hfy', hclosed, hlast, -, -, -, ⟨hnone, -⟩ | ⟨e, r, rows, hsome, hr⟩⟩ := run_reopenFiscalYear hrun hs
  all_goals obtain rfl := Option.some.inj (hfy.symm.trans hfy')
  · rw [hje] at hnone
    cases hnone
  obtain rfl := Option.some.inj (hje.symm.trans hsome)
  have hkey : ∀ y : FiscalYear, Keyed.key ({ y with status := .opened, closingEntryId := none } : FiscalYear) =
      Keyed.key y := fun _ => rfl
  have hnew : v.db.entries.find? e.id = some e := hr.wrote.grown.find? hr.old
  have hyears := run_reopenFiscalYear_years hrun hs
  have hopen : v.db.years.find? id = some { fy with status := .opened, closingEntryId := none } := by
    rw [hyears]
    exact Table.find?_update_self hkey hfy
  have hlater : (v.db.years.rows.any fun y => y.status = .closed &&
      (v.db.years.find? id).any fun fy => fy.startDate < y.startDate) = false := by
    rw [List.any_eq_false]
    intro y hy hlater
    rw [hopen, Option.any_some, Bool.and_eq_true, decide_eq_true_eq, decide_eq_true_eq] at hlater
    rw [hyears] at hy
    rcases Table.mem_update_cases hkey hy with ⟨hy, -⟩ | ⟨q, -, -, rfl⟩
    · exact absurd hlater.2 (not_lt.2 (hlast y hy hlater.1))
    · cases hlater.1
  have hearlier : (s.db.years.rows.any fun y => y.status = .closed &&
      (s.db.years.find? id).any fun fy => fy.startDate < y.startDate) = false := by
    rw [List.any_eq_false]
    intro y hy hlater
    rw [hfy, Option.any_some, Bool.and_eq_true, decide_eq_true_eq, decide_eq_true_eq] at hlater
    exact absurd hlater.2 (not_lt.2 (hlast y hy hlater.1))
  -- from the update of the year on
  have hrest : ∀ gaps n, (updateYear id (fun y => { y with status := .opened, closingEntryId := none }) >>= fun _ =>
      setPeriods .opened (fun db => db.closedPeriodOf e.id) >>= fun _ =>
        reverseEntry e.id >>= fun _ => (pure () : Txn Unit)).wp (Err.Repeats .yearNotClosed) (fun _ _ => False)
          ⟨gaps, n, v.db, []⟩ := by
    intro gaps n
    rw [Prog.wp_bind]
    refine wp_updateYear.mono fun u w hu _ => ?_
    obtain ⟨hdb, -⟩ := run_updateYear hu hopen
    have hnone : w.db.closedPeriodOf e.id = [] := by
      rw [hdb]
      exact hperiods
    rw [Prog.wp_bind, Prog.wp_iff_run]
    obtain ⟨herr, -⟩ := Prog.wp_iff_run.1 (wp_openPeriods (v := w) fun db => db.closedPeriodOf e.id)
    refine ⟨fun err he => ?_, fun u' w' hp => ?_⟩
    · obtain ⟨-, hlocked⟩ := herr err he
      rw [hnone, DB.anyLocked] at hlocked
      simp at hlocked
    · obtain ⟨hdb', -⟩ := run_setPeriods hp
      refine wp_reverseEntry_again (e := e) ?_ ?_
      · rw [hdb', hdb]
        exact hnew
      · rw [hdb', hdb]
        exact hr.reversedBy
  have hagain : ∀ gaps n, (void (ReopenFiscalYear id)).wp (Err.Repeats .yearNotClosed) (fun _ _ => False)
      ⟨gaps, n, v.db, []⟩ := fun gaps n => wp_reopenFiscalYear_again hopen rfl
  unfold void ReopenFiscalYear at hagain ⊢
  simp only [Prog.bind_assoc] at hagain ⊢
  refine .query_bind hagain fun fy' hread => ?_
  · have hread : (.ok fy : Except Err FiscalYear) = .ok fy' := by
      rw [hfy] at hread
      exact hread
    cases hread
    rw [decide_eq_true hclosed, hje]
    simp only [Prog.bind_assoc]
    refine .read_bind (fun gaps n => ?_) ?_
    · rw [Prog.wp_read_bind, Prog.wp_require_bind]
      refine ⟨fun hf => ?_, fun _ => hrest _ _⟩
      rw [Bool.not_eq_false'] at hf
      exact (Bool.false_ne_true (hlater.symm.trans hf)).elim
    · rw [hearlier]
      exact hrest

/-! ### Runs -/

/-- A request that reverses entries: the unposting of `t`, or the reopening of a year. -/
inductive Undo where
  | unpost (t : Postable)
  | reopen (id : ℕ)

namespace Undo

def op : Undo → Op
  | unpost t => t.unpost
  | reopen id => .reopenFiscalYear id

/-- The sentinel of the second request. -/
def refusal : Undo → Posting.Sentinel
  | unpost _ => .notPosted
  | reopen _ => .yearNotClosed

/-- The row lock of the year keeps the second reopening from the entry that the first one reverses. -/
def guarded (db : DB) : Undo → Bool
  | unpost _ => false
  | reopen id => (db.years.find? id).any (·.closingEntryId.isSome)

/-- The number of statements up to the one that tells whether the request comes too late. -/
def tests (db : DB) : Undo → ℕ
  | unpost (.doc _ _) => 4
  | unpost _ => 3
  | reopen id => if (reopen id).guarded db then 3 else 1

/-- Where a commit becomes visible, no other request has made its test and goes on. -/
def Undisturbed {ι : Type} (u : Undo) (db : DB) (σ : Sys ι DB Lock Err Unit) (x : ι) : Prop :=
  u.guarded db = true ∨ Sys.NoCommitInside (fun _ pc _ => u.tests db ≤ pc) σ x

instance {ι : Type} [DecidableEq ι] [Fintype ι] (u : Undo) (db : DB) (σ : Sys ι DB Lock Err Unit) (x : ι) :
    Decidable (u.Undisturbed db σ x) := by
  unfold Undisturbed
  infer_instance

end Undo

theorem failsFrom_undo {u : Undo} (hs : Fresh s.seq s.db) (h : (transaction u.op).commit gaps s = .ok ((), s')) :
    (transaction u.op).FailsFrom (Err.Repeats u.refusal) s.db s'.db (u.tests s.db) := by
  cases u with
  | unpost t =>
    cases t with
    | doc kind id =>
      rw [show (Undo.unpost (.doc kind id)).op = kind.unpost id from rfl, transaction_unpost] at *
      exact failsFrom_unpostDoc hs h
    | payment side id => exact failsFrom_unpostPayment hs h
    | movement id => exact failsFrom_unpostMovement hs h
  | reopen id =>
    rw [Undo.tests]
    cases hg : (Undo.reopen id).guarded s.db with
    | true =>
      obtain ⟨fy, hfy, hsome⟩ := (Option.any_eq_true ..).1 hg
      obtain ⟨je, hje⟩ := Option.isSome_iff_exists.1 hsome
      exact failsFrom_reopenFiscalYear hs hfy hje h
    | false => exact fails_reopenFiscalYear hs h

/-- Whether a request succeeds alone does not depend on the gaps. -/
theorem undo_commits {u : Undo} {gaps' : ℕ → ℕ} {x : Unit × Store DB} {err : Err} (hs : Reachable s)
    (h : (transaction u.op).commit gaps s = .ok x) : (transaction u.op).commit gaps' s ≠ .error err := by
  have hdecided : ∃ A S, ∀ gaps, Decided A S (transaction u.op) gaps s := by
    cases u with
    | unpost t =>
      cases t with
      | doc kind id =>
        rw [show (Undo.unpost (.doc kind id)).op = kind.unpost id from rfl, transaction_unpost]
        exact ⟨s.db.reversed (s.db.unpostable kind.spec.kind id) = none,
          s.db.acceptsReversal (s.db.unpostable kind.spec.kind id) = true,
          fun gaps => (wp_unpostDoc (hs.steady gaps)).void.commit⟩
      | payment side id => exact ⟨_, _, fun gaps => (wp_unpostPayment hs gaps).void.commit⟩
      | movement id =>
        exact ⟨s.db.reversed (s.db.movementLink id) = none,
          s.db.acceptsReversal (s.db.movementLink id) = true ∧ s.db.movementRaises id = false,
          fun gaps => (wp_unpostMovement (hs.steady gaps)).void.commit⟩
    | reopen id =>
      exact ⟨s.db.reopenRefused id, s.db.reopenSound id, fun gaps => (wp_reopenFiscalYear (hs.steady gaps)).void.commit⟩
  obtain ⟨A, S, hdecided⟩ := hdecided
  obtain ⟨y, hy⟩ := (hdecided gaps').commit_iff.2 ((hdecided gaps).commit_iff.1 ⟨x, h⟩)
  rw [hy]
  exact fun he => by cases he

/-- At most one entry reverses `je`, and the two come to nothing on every account. -/
structure DB.ReversedOnce (db : DB) (je : ℕ) : Prop where
  once : ∀ r ∈ db.entries, ∀ r' ∈ db.entries, r.reversesEntryId = some je → r'.reversesEntryId = some je → r' = r
  base : ∀ r ∈ db.entries, r.reversesEntryId = some je → ∀ account,
    db.netOf [je, r.id] (fun _ => true) JournalLine.net account = 0
  txn : ∀ r ∈ db.entries, r.reversesEntryId = some je → ∀ account,
    db.netOf [je, r.id] (fun _ => true) (fun l => l.debit - l.credit) account = 0

theorem Reachable.reversedOnce (h : Reachable s) (k : ℕ) : s.db.ReversedOnce k := by
  have hnet : ∀ (amount : JournalLine → ℤ), (∀ l m, JournalLine.Mirrors l m → amount m = -amount l) →
      ∀ r ∈ s.db.entries, r.reversesEntryId = some k → ∀ account,
        s.db.netOf [k, r.id] (fun _ => true) amount account = 0 := by
    intro amount hamount r hr hre account
    obtain ⟨e, he, rfl, hmirror⟩ := h.journalOk.mirrored r hr k hre
    have hne : e.id ≠ r.id := by
      intro hid
      have horiginal := h.book_sound.original e.id r.id (reversals_eq_some.2 ⟨r, hr, rfl, hre⟩)
      obtain ⟨e', he', hid', hnone⟩ := reversals_eq_some.1 horiginal
      rw [Table.key_inj he' hr (hid'.trans hid), hre] at hnone
      cases hnone
    have hfe : s.db.entries.find? e.id = some e := Table.find?_key he
    have hfr : s.db.entries.find? r.id = some r := Table.find?_key hr
    rw [netOf_cons (by simpa using hne), netOf_singleton hfe, netOf_singleton hfr, sum_of_mirrors hamount hmirror.lines]
    omega
  refine ⟨fun r hr r' hr' hre hre' => ?_, hnet _ fun l m hm => ?_, hnet _ fun l m hm => ?_⟩
  · exact Table.key_inj hr' hr (h.book_sound.once k r.id r'.id (reversals_eq_some.2 ⟨r, hr, rfl, hre⟩)
      (reversals_eq_some.2 ⟨r', hr', rfl, hre'⟩))
  · rw [JournalLine.net, JournalLine.net, hm.baseDebit, hm.baseCredit]
    omega
  · rw [hm.debit, hm.credit]
    omega

section runs

variable {ι : Type} [DecidableEq ι] [Fintype ι] {ops : ι → Op} {u : Undo}

/-- A reopening that has got to its reversal holds the row of the year. -/
theorem reopen_locks {id : ℕ} {fy : FiscalYear} (hfy : s.db.years.find? id = some fy) {n m : ℕ}
    {t : Tx DB Lock Err Unit} (h : (Tx.start (void (ReopenFiscalYear id))).Alone s.db n m t) :
    (∃ e, t = .aborted e) ∨ (∃ pc act ls cs q, t = .running pc act ls cs q ∧ pc < 3) ∨
      Lock.write .year id ∈ t.locks := by
  unfold Tx.start void ReopenFiscalYear at h
  simp only [Prog.bind_assoc] at h
  rcases h.query_bind with rfl | ⟨e, -, rfl⟩ | ⟨n₁, fy', -, -, h⟩
  · exact .inr (.inl ⟨_, _, _, _, _, rfl, by omega⟩)
  · exact .inl ⟨_, rfl⟩
  rcases h.require_bind with ⟨-, rfl | rfl⟩ | ⟨-, h⟩
  · exact .inr (.inl ⟨_, _, _, _, _, rfl, by omega⟩)
  · exact .inl ⟨_, rfl⟩
  rcases h.read_bind with rfl | ⟨n₂, -, h⟩
  · exact .inr (.inl ⟨_, _, _, _, _, rfl, by omega⟩)
  rcases h.require_bind with ⟨-, rfl | rfl⟩ | ⟨-, h⟩
  · exact .inr (.inl ⟨_, _, _, _, _, rfl, by omega⟩)
  · exact .inl ⟨_, rfl⟩
  rcases h.of_stmt with rfl | ⟨n₃, e, -, -, rfl⟩ | ⟨n₃, o, -, ho, h⟩
  · exact .inr (.inl ⟨_, _, _, _, _, rfl, by omega⟩)
  · exact .inl ⟨_, rfl⟩
  rcases h.locks with haborted | hlocks
  · exact .inl haborted
  · refine .inr (.inr (hlocks _ (List.mem_append_right _ ?_)))
    cases ho
    exact List.mem_map.2 ⟨id, Table.mem_hit.2 ⟨rfl, fy, hfy, rfl⟩, rfl⟩

omit [DecidableEq ι] [Fintype ι] in
/-- Beside the first request that commits, one that has not made its test is doomed. -/
theorem undo_doomed (h : Reachable s) {σ : Sys ι DB Lock Err Unit} (hops : ∀ i, ops i = u.op)
    (hun : Sys.Unseen s (fun i => transaction (ops i)) σ) {x y : ι} {act : DB → DB} {ls : List Lock}
    (hx : σ.tx x = .checked act ls ())
    (hy : (∃ e, σ.tx y = .aborted e) ∨ ∃ pc act ls cs q, σ.tx y = .running pc act ls cs q ∧ pc < u.tests s.db) :
    (σ.tx y).Doomed (Err.Repeats u.refusal) (act s.db) := by
  obtain ⟨gaps, s', hcommit, hdb, -⟩ := hun.commit hx
  rw [hops x] at hcommit
  rcases hy with ⟨e, he⟩ | ⟨pc, act', ls', cs, q, hq, hpc⟩
  · obtain ⟨gaps', hfail⟩ := hun.fails he
    rw [hops y] at hfail
    exact (undo_commits h hcommit hfail).elim
  · have halone := hun.alone y
    rw [hq, hops y] at halone
    rw [hq, ← hdb]
    exact halone.doomed (failsFrom_undo h.fresh hcommit) hpc

/-- Concurrent reversals of one entry.  If no commit becomes visible while another request has made its test and has
not finished, then every entry is reversed at most once, and one request has committed or none has. -/
theorem reversed_once (h : Reachable s) (hops : ∀ i, ops i = u.op) {is : List ι}
    (ha : Sys.Along (u.Undisturbed s.db) (race s ops) is) (hfin : ((race s ops).runSchedule is).allFinished = true) :
    (∀ k, ((race s ops).runSchedule is).db.ReversedOnce k) ∧
      (Sys.OneCommits (Err.Repeats u.refusal) s (fun i => transaction (ops i)) ((race s ops).runSchedule is) ∨
        Sys.NoneCommits s (fun i => transaction (ops i)) ((race s ops).runSchedule is)) := by
  have hends : Sys.OneCommits (Err.Repeats u.refusal) s (fun i => transaction (ops i)) ((race s ops).runSchedule is) ∨
      Sys.NoneCommits s (fun i => transaction (ops i)) ((race s ops).runSchedule is) := by
    refine Sys.first_wins ha hfin fun σ x act ls a hun hP hx y hne => undo_doomed h hops hun hx ?_
    rcases hP with hg | hP
    · cases u with
      | unpost t => cases hg
      | reopen id =>
        obtain ⟨fy, hfy, -⟩ := (Option.any_eq_true ..).1 hg
        have hlocks : ∀ i, _ := fun i => reopen_locks hfy (hops i ▸ hun.alone i)
        rw [show (Undo.reopen id).tests s.db = 3 from if_pos hg]
        rcases hlocks y with haborted | hrunning | hly
        · exact .inl haborted
        · exact .inr hrunning
        · rcases hlocks x with ⟨e, he⟩ | ⟨_, _, _, _, _, he, -⟩ | hlx
          · rw [hx] at he
            cases he
          · rw [hx] at he
            cases he
          · have hno := hun.exclusive x y (Ne.symm hne) _ hlx _ hly
            simp [Locking.conflict, Lock.conflict] at hno
    · have hin := hP (by rw [hx]; rfl) y hne
      cases hty : σ.tx y with
      | running pc act' ls' cs q =>
        rw [hty] at hin
        have hpc : ¬u.tests s.db ≤ pc := of_decide_eq_false hin
        exact .inr ⟨pc, act', ls', cs, q, rfl, by omega⟩
      | checked act' ls' a =>
        rw [hty] at hin
        cases hin
      | committed a => exact absurd hty hun.not_committed
      | aborted e => exact .inl ⟨e, rfl⟩
  refine ⟨fun k => ?_, hends⟩
  rcases hends with ⟨x, a, gaps, s', -, hc, hdb, -⟩ | ⟨hdb, -⟩
  · have hs' : Reachable s' := h.step ⟨_, _, hc⟩
    rw [← hdb]
    exact hs'.reversedOnce k
  · rw [hdb]
    exact h.reversedOnce k

end runs

section examples

attribute [local instance] neZero_two

/-- The invoice of a customer, posted. -/
def postedInvoice : Postable := .doc .salesInvoice 15

def unpostTwice (_ : Fin 2) : Op := postedInvoice.unpost

/-- The second request starts when the first has finished. -/
def inTurn : List (Fin 2) := List.replicate 14 0 ++ List.replicate 14 1

/-- The first request reverses the entry, the second one fails. -/
theorem reversed_once_serial : ∃ s : Store DB, s.db.IsPosted 18 postedInvoice = true ∧
    let σ := (race s unpostTwice).runSchedule inTurn
    σ.db.reversedBy 18 = true ∧ (∀ k, σ.db.ReversedOnce k) ∧
      (Sys.OneCommits (Err.Repeats .notPosted) s (fun i => transaction (unpostTwice i)) σ ∨
        Sys.NoneCommits s (fun i => transaction (unpostTwice i)) σ) := by
  obtain ⟨s, hs, hp⟩ := exists_reachable (opening ++ [.postDoc .salesInvoice 15]) (p := fun s =>
    s.db.IsPosted 18 postedInvoice = true ∧
    ((race s unpostTwice).runSchedule inTurn).db.reversedBy 18 = true ∧
    Sys.Along ((Undo.unpost postedInvoice).Undisturbed s.db) (race s unpostTwice) inTurn ∧
    ((race s unpostTwice).runSchedule inTurn).allFinished = true) (by decide +kernel)
  obtain ⟨hpost, hrev, hrun, hfin⟩ := of_decide_eq_true hp
  exact ⟨s, hpost, hrev, reversed_once (u := .unpost postedInvoice) hs (fun _ => rfl) hrun hfin⟩

/-- Both requests find no reversal; the second one reverses the entry again when the first has committed. -/
theorem reversed_twice : ¬∀ s : Store DB, Reachable s → ∀ t je, s.db.IsPosted je t = true → ∀ ops : Fin 2 → Op,
    (∀ i, ops i = t.unpost) → ∀ is, ((race s ops).runSchedule is).allFinished = true →
      ((race s ops).runSchedule is).db.ReversedOnce je := by
  intro hall
  obtain ⟨s, hs, hp⟩ := exists_reachable (opening ++ [.postDoc .salesInvoice 15]) (p := fun s =>
    s.db.IsPosted 18 postedInvoice = true ∧
    ((race s unpostTwice).runSchedule (List.replicate 4 1 ++ inTurn)).allFinished = true ∧
    (((race s unpostTwice).runSchedule (List.replicate 4 1 ++ inTurn)).db.entries.rows.filter
      fun r => r.reversesEntryId = some 18).map (·.id) = [21, 24]) (by decide +kernel)
  obtain ⟨hpost, hfin, hids⟩ := of_decide_eq_true hp
  obtain ⟨hunique, -, -⟩ := hall s hs _ _ hpost unpostTwice (fun _ => rfl) _ hfin
  have hmem : ∀ id ∈ [21, 24], ∃ r ∈ ((race s unpostTwice).runSchedule (List.replicate 4 1 ++ inTurn)).db.entries,
      r.reversesEntryId = some 18 ∧ r.id = id := by
    intro id hid
    rw [← hids] at hid
    obtain ⟨r, hr, rfl⟩ := List.mem_map.1 hid
    obtain ⟨hr, hre⟩ := List.mem_filter.1 hr
    exact ⟨r, hr, of_decide_eq_true hre, rfl⟩
  obtain ⟨r, hr, hre, hid⟩ := hmem 21 (by simp)
  obtain ⟨r', hr', hre', hid'⟩ := hmem 24 (by simp)
  rw [hunique r hr r' hr' hre hre', hid] at hid'
  cases hid'

end examples
