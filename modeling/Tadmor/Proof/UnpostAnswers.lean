import Tadmor.Proof.PostAnswers

/-!
# The answers to unpostings

The reversal of an entry inserts the lines of the entry again, with debits and credits swapped.  They balance and are
in range as the entry did and was, so that only an account that takes no postings any more stands in the way.
-/

variable {C : (DB → Except Err Unit) → Prop} {v w : Env DB Err} {E : Err → Prop}

/-! ### Mirrored lines -/

/-- The entry is posted and balanced, with sums in range. -/
theorem sums_of_entryBalanced {db : DB} {je : ℕ} {e : JournalEntry} (he : db.entries.find? je = some e)
    (hs : e.status = .posted) (h : DB.entryBalanced je db = .ok ()) :
    (fits ((db.linesOf je).map (·.debit)).sum = true ∧ fits ((db.linesOf je).map (·.baseDebit)).sum = true) ∧
      ((db.linesOf je).map (·.debit)).sum ≠ 0 ∧
      ((db.linesOf je).map (·.debit)).sum = ((db.linesOf je).map (·.credit)).sum ∧
      ((db.linesOf je).map (·.baseDebit)).sum = ((db.linesOf je).map (·.baseCredit)).sum := by
  unfold DB.entryBalanced at h
  rw [he] at h
  dsimp only at h
  rw [if_neg (not_not_intro hs)] at h
  split_ifs at h with hfits hzero hne hbase
  rw [Bool.not_eq_true', Bool.not_eq_false] at hfits
  simp only [Bool.and_eq_true] at hfits
  rw [not_not] at hne hbase
  refine ⟨⟨hfits.1.1.1, hfits.1.2⟩, fun hz => hzero ⟨hz, hne ▸ hz⟩, hne, hbase⟩

theorem map_mirrored {β : Type} {db : DB} {je : ℕ} {f : NewLine → β} {g : JournalLine → β}
    (h : ∀ l : JournalLine, f l.mirror = g l) : (db.mirrored je).map f = (db.linesOf je).map g := by
  rw [DB.mirrored, List.map_map]
  exact List.map_congr_left fun l _ => h l

theorem tallies_mirrored {db : DB} {je : ℕ} {e : JournalEntry} (he : db.entries.find? je = some e)
    (hs : e.status = .posted) (h : DB.entryBalanced je db = .ok ()) : Tallies (db.mirrored je) := by
  obtain ⟨-, hmoved, hequal, hbase⟩ := sums_of_entryBalanced he hs h
  have hd : (db.mirrored je).map (·.debit) = (db.linesOf je).map (·.credit) := map_mirrored fun _ => rfl
  have hc : (db.mirrored je).map (·.credit) = (db.linesOf je).map (·.debit) := map_mirrored fun _ => rfl
  have hbd : (db.mirrored je).map (·.baseDebit) = (db.linesOf je).map (·.baseCredit) := map_mirrored fun _ => rfl
  have hbc : (db.mirrored je).map (·.baseCredit) = (db.linesOf je).map (·.baseDebit) := map_mirrored fun _ => rfl
  refine ⟨?_, ?_, ?_⟩
  · rw [hd, ← hequal]
    exact hmoved
  · rw [hd, hc, hequal]
  · rw [hbd, hbc, hbase]

/-- A line that has passed the checks passes them with its sides swapped. -/
theorem valid_mirror {l : JournalLine} (h : l.valid = true) (je id account : ℕ) :
    (l.mirror.row je id account).valid = true := by
  simp only [JournalLine.valid, JournalLine.mirror, NewLine.row, Bool.and_eq_true] at h ⊢
  obtain ⟨⟨⟨⟨⟨⟨⟨h₁, h₂⟩, h₃⟩, h₄⟩, h₅, h₆⟩, h₇⟩, h₈, h₉⟩, h₁₀, h₁₁⟩ := h
  refine ⟨⟨⟨⟨⟨⟨⟨h₂, h₁⟩, h₄⟩, h₃⟩, h₆, h₅⟩, ?_⟩, h₉, h₈⟩, h₁₁, h₁₀⟩
  rw [bne_iff_ne] at h₇ ⊢
  exact h₇.symm

theorem inRange_mirrored {db : DB} {je : ℕ} {e : JournalEntry} (he : db.entries.find? je = some e)
    (hs : e.status = .posted) (h : DB.entryBalanced je db = .ok ()) (hv : ∀ l ∈ db.lines, l.valid = true) :
    inRange (db.mirrored je) = true := by
  obtain ⟨⟨hfd, hfbd⟩, -, hequal, hbase⟩ := sums_of_entryBalanced he hs h
  have hd : (db.mirrored je).map (·.debit) = (db.linesOf je).map (·.credit) := map_mirrored fun _ => rfl
  have hbd : (db.mirrored je).map (·.baseDebit) = (db.linesOf je).map (·.baseCredit) := map_mirrored fun _ => rfl
  rw [inRange, hd, hbd, ← hequal, ← hbase, hfd, hfbd, Bool.and_true, Bool.and_true, DB.mirrored, List.all_map,
    List.all_eq_true]
  intro l hl
  have hvalid := hv l (List.mem_filter.1 hl).1
  simp only [JournalLine.valid, Bool.and_eq_true] at hvalid
  obtain ⟨⟨⟨⟨⟨⟨⟨h₁, h₂⟩, h₃⟩, h₄⟩, -⟩, -⟩, -⟩, -⟩ := hvalid
  simp only [Function.comp_apply, NewLine.inRange, JournalLine.mirror, Bool.and_eq_true]
  exact ⟨⟨⟨h₂, h₁⟩, h₄⟩, h₃⟩

/-- A reversal is accepted if and only if the accounts of the entry can still be posted to. -/
theorem accepts_mirrored {db : DB} {je : ℕ} {e : JournalEntry} (he : db.entries.find? je = some e)
    (hs : e.status = .posted) (h : DB.entryBalanced je db = .ok ()) (hv : ∀ l ∈ db.lines, l.valid = true) :
    db.accepts (db.mirrored je) = (db.linesOf je).all fun l => db.takes l.accountId := by
  have haccepted : ∀ l ∈ db.linesOf je, l.mirror.accepted db = db.takes l.accountId := fun l hl => by
    rw [NewLine.accepted, JournalLine.mirror, Option.any_some]
    exact (congrArg (· && _) (valid_mirror (hv l (List.mem_filter.1 hl).1) 0 0 l.accountId)).trans (Bool.true_and _)
  rw [DB.accepts, inRange_mirrored he hs h hv, Bool.and_true, DB.mirrored, List.all_map, Bool.eq_iff_iff,
    List.all_eq_true, List.all_eq_true]
  exact forall₂_congr fun l hl => by rw [Function.comp_apply, haccepted l hl]

/-! ### Reversals -/

/-- The reversal of an entry that may be reversed fails only if an account takes no postings any more. -/
theorem wp_reverseEntry {je : ℕ} {Q : ℕ → Env DB Err → Prop} (hv : Steady C v)
    (hrefuse : v.db.reversible je = false → ∀ err, err.Answered → E err)
    (hfault : v.db.reversible je = true → v.db.accepts (v.db.mirrored je) = false → ∀ err, ¬err.Answered → E err)
    (h : ∀ r w, v.db.reversible je = true → v.db.accepts (v.db.mirrored je) = true →
      (reverseEntry je).run v = .ok (r, w) → Steady C w → Q r w) : (reverseEntry je).wp E Q v := by
  have hrun : (reverseEntry je).wp E
      (fun _ w => v.db.reversible je = true ∧ v.db.accepts (v.db.mirrored je) = true ∧ Steady C w) v := by
    rw [reverseEntry_eq, Prog.wp_query_bind, reverseHeader]
    cases he : v.db.entries.find? je with
    | none =>
      refine ⟨fun e' he' => ?_, fun _ he => by cases he⟩
      cases he'
      exact hrefuse (by rw [DB.reversible, he]; rfl) _ (answered_posting _ _)
    | some e =>
      refine ⟨fun _ he => (by cases he), fun x hx => ?_⟩
      obtain rfl := (Except.ok.inj hx).symm
      have hrev : v.db.reversible je = (v.db.unreversed je && v.db.canPost e.entryDate) := by
        rw [DB.reversible, he, Option.any_some]
      unfold reverseRest
      simp only [Prog.wp_read_bind, Prog.wp_require_bind]
      refine ⟨fun hf => hrefuse ?_ _ (answered_posting _ _), fun hnew =>
        ⟨fun hf => hrefuse ?_ _ (answered_posting _ _), fun hmatch => ?_⟩⟩
      · rw [hrev, DB.unreversed, Bool.and_assoc]
        exact Bool.and_eq_false_iff.2 (.inl hf)
      · rw [hrev, DB.unreversed]
        exact Bool.and_eq_false_iff.2 (.inl (Bool.and_eq_false_iff.2 (.inr hf)))
      · have hunreversed : v.db.unreversed je = true := by
          rw [DB.unreversed, Bool.and_eq_true]
          exact ⟨hnew, hmatch⟩
        have hmem := Table.mem_of_find? he
        have hid : e.id = je := Table.key_of_find? he
        have hposted := hv.ledger.posted e hmem
        rw [Prog.wp_bind]
        refine wp_periodForDate hv.tick.tick.tick (fun hcan err herr => hrefuse ?_ err herr)
          fun period w₁ hcan hp hv₁ hopen => ?_
        · rw [hrev, show v.db.canPost e.entryDate = false from hcan, Bool.and_false]
        have hok : v.db.reversible je = true := by
          rw [hrev, hunreversed, show v.db.canPost e.entryDate = true from hcan, Bool.and_true]
        have he₁ : w₁.db.entries.find? je = some e := by
          rw [hp.eq]
          exact he
        have hlines : ∀ je, w₁.db.linesOf je = v.db.linesOf je := fun je => by
          rw [hp.eq]
          rfl
        rw [Prog.wp_bind]
        refine wp_insertEntry (f := fun n => e.reversal n e.entryDate period e.currencyCode) hv₁ (fun n => ?_)
          (fun _ => rfl) (fun _ => rfl) (fun _ => hopen) (fun _ => hv.rows.rate e hmem)
          (fun _ => hv.rows.currency e hmem) fun n w₂ hw hdb => ?_
        · rw [he₁]
        rw [Prog.wp_bind]
        have hselect : (fun db : DB => (db.linesOf je).map JournalLine.mirror) w₂.db = v.db.mirrored je := by
          show (w₂.db.linesOf je).map JournalLine.mirror = (v.db.linesOf je).map JournalLine.mirror
          rw [hdb, ← hlines je]
          rfl
        have haccepted : ∀ l : NewLine, l.accepted w₁.db = l.accepted v.db := accepted_congr hp.accounts
        refine wp_insertLines (e := e.reversal n e.entryDate period e.currencyCode) hw hselect ?_
          (fun hno => hfault hok ?_) fun hacc more w₃ hb hw₃ => ?_
        · rw [List.map_nil, List.nil_append, map_mirrored (g := (·.lineNo)) fun _ => rfl]
          exact hv.rows.numbered je
        · rw [Bool.eq_false_iff]
          exact fun haccepts => hno fun l hl => (haccepted l).trans (all_accepted_of_accepts haccepts l hl)
        · have hrange := inRange_mirrored he hposted (hv.balanced je) hv.rows.valid
          have haccepts : v.db.accepts (v.db.mirrored je) = true := by
            rw [DB.accepts, hrange, Bool.and_true, List.all_eq_true]
            exact fun l hl => (haccepted l).symm.trans (hacc l hl)
          have hreversed : Reversed w₁.seq w₁.db w₃.db e (e.reversal n e.entryDate period e.currencyCode) more := by
            refine ⟨hid.symm ▸ he₁, fun x hx => ?_, ?_, hw₃.wrote, rfl, ?_⟩
            · rw [hp.eq] at hx
              rw [Bool.not_eq_true', List.any_eq_false] at hnew
              exact hid.symm ▸ fun h => hnew x hx (decide_eq_true h)
            · rw [Bool.not_eq_true'] at hmatch
              rw [hid, hp.eq]
              exact hmatch
            · rw [hlines, hid]
              exact hb
          refine ⟨hok, haccepts, hw₃.steady (hreversed.journaled.ok hv₁.journal) hb hrange ?_⟩
          exact tallies_mirrored he hposted (hv.balanced je)
  exact hrun.mono fun r w hr hq => h r w hq.1 hq.2.1 hr hq.2.2

/-! ### Documents -/

/-- The entry that a document or movement is linked to, if it may be reversed. -/
def DB.reversed (db : DB) (link : Option ℕ) : Option ℕ := link.filter db.reversible

/-- The reversal is accepted. -/
def DB.acceptsReversal (db : DB) (link : Option ℕ) : Bool := (db.reversed link).all fun je => db.accepts (db.mirrored je)

theorem reversed_of_reversible {db : DB} {je : ℕ} (h : db.reversible je = true) : db.reversed (some je) = some je := by
  rw [DB.reversed, Option.filter_some, if_pos h]

theorem reversed_ne_none {db : DB} {je : ℕ} (h : db.reversible je = true) : db.reversed (some je) ≠ none := by
  rw [reversed_of_reversible h]
  exact Option.some_ne_none je

theorem reversed_eq_none {db : DB} {je : ℕ} (h : db.reversible je = false) : db.reversed (some je) = none := by
  rw [DB.reversed, Option.filter_some, if_neg (Bool.eq_false_iff.1 h)]

/-- The reversal of a linked entry, and an update of another table. -/
theorem decides_reverse {je : ℕ} {p : Txn Unit} (hv : Steady (fun _ => False) v) (op : Op) (hp : AllChange op p)
    (hf : AllFresh p) {S : Prop}
    (hE : ∀ r w, v.db.reversible je = true → (reverseEntry je).run v = .ok (r, w) →
      p.wp (Verdict (v.db.reversed (some je) = none) S) (fun _ _ => v.db.acceptsReversal (some je) = true → S) w)
    (hS : S → v.db.acceptsReversal (some je) = true)
    (hrun : ∀ r w, (reverseEntry je).run v = .ok (r, w) → ∀ w', p.run w = .ok ((), w') →
      w'.db.entries = w.db.entries ∧ w'.db.lines = w.db.lines ∧ w'.checks = w.checks) :
    Decides (v.db.reversed (some je) = none) S (do let rev ← reverseEntry je; p; pure rev : Txn ℕ) v := by
  unfold Decides
  rw [Prog.wp_bind]
  refine wp_reverseEntry hv (fun hno err he => .refused (reversed_eq_none hno) he) (fun hok hno err he => ?_)
    fun r w hok hacc hr hw => ?_
  · refine .fault (reversed_ne_none hok) (fun hs => ?_) he
    have := hS hs
    rw [DB.acceptsReversal, reversed_of_reversible hok, Option.all_some, hno] at this
    cases this
  · rw [Prog.wp_bind]
    refine (hE r w hok hr).mono fun u w' hr' hs => ?_
    obtain ⟨he, hl, hc⟩ := hrun r w hr w' hr'
    refine ⟨reversed_ne_none hok, .of_passes (hs ?_) ?_⟩
    · rw [DB.acceptsReversal, reversed_of_reversible hok, Option.all_some, hacc]
    · exact (hw.aside op hp hf hr' he hl fun c hm => .inl (hc ▸ hm)).passes fun c hfalse => hfalse.elim

theorem wp_postedEntryOf {noun : String} {id : ℕ} {find : DB → Option (DocStatus × Option ℕ)} {Q : ℕ → Env DB Err → Prop}
    (hnone : (∀ je, find v.db ≠ some (.posted, some je)) → ∀ err, err.Answered → E err)
    (h : ∀ je, find v.db = some (.posted, some je) → Q je v.tick) : (postedEntryOf noun id find).wp E Q v := by
  rw [postedEntryOf, Prog.wp_query]
  constructor
  · intro e he
    split at he
    · rename_i hf
      cases he
      exact hnone (fun je hje => by rw [hf] at hje; cases hje) _ (answered_posting _ _)
    · cases he
    · rename_i hne hf
      cases he
      exact hnone (fun je hje => hne je (Option.some.inj (hf.symm.trans hje))) _ (answered_posting _ _)
  · intro je he
    split at he
    · cases he
    · rename_i hf
      cases he
      exact h _ hf
    · cases he

theorem unpostable_eq_some {db : DB} {kind : DocKind} {id je : ℕ} :
    db.unpostable kind id = some je ↔
      (db.docOf kind id).map (fun d => (d.status, d.journalEntryId)) = some (.posted, some je) ∧
        db.applications.rows.any (Application.involves kind id) = false := by
  simp only [DB.unpostable, Option.bind_eq_some_iff, Option.map_eq_some_iff, Prod.mk.injEq]
  constructor
  · rintro ⟨d, hd, h⟩
    split at h
    · rename_i hok
      exact ⟨⟨d, hd, hok.1, h⟩, by simpa using hok.2⟩
    · cases h
  · rintro ⟨⟨d, hd, hs, hje⟩, hno⟩
    refine ⟨d, hd, ?_⟩
    rw [if_pos ⟨hs, by simpa using hno⟩, hje]

theorem wp_unpostDoc {kind : DocKind} {id : ℕ} (hv : Steady (fun _ => False) v) :
    Decides (v.db.reversed (v.db.unpostable kind id) = none) (v.db.acceptsReversal (v.db.unpostable kind id) = true)
      (unpostDoc kind id) v := by
  have herr : ∀ e : Err, e.Answered → v.db.unpostable kind id = none →
      Verdict (v.db.reversed (v.db.unpostable kind id) = none)
        (v.db.acceptsReversal (v.db.unpostable kind id) = true) e := fun e he h => .refused (by rw [h]; rfl) he
  unfold unpostDoc
  rw [Decides, Prog.wp_bind]
  refine wp_postedEntryOf (fun hno e he => herr e he ?_) fun je hje => ?_
  · rw [Option.eq_none_iff_forall_ne_some]
    exact fun je h => hno je (unpostable_eq_some.1 h).1
  · rw [Prog.wp_read_bind, Prog.wp_require_bind]
    refine ⟨fun hf => herr _ (answered_posting _ _) ?_, fun hno => ?_⟩
    · rw [Option.eq_none_iff_forall_ne_some]
      intro je' h
      rw [Bool.not_eq_false'] at hf
      exact Bool.eq_false_iff.1 (unpostable_eq_some.1 h).2 hf
    · rw [unpostable_eq_some.2 ⟨hje, by simpa using hno⟩]
      refine decides_reverse hv.tick.tick (.unpostInvoice .sales id) (allChange_updateDocRow _ _ _ _)
        (allFresh_updateDocRow _ _ _ _) (fun r w hok hr => ?_) (fun h => h) fun r w hr w' hr' => ?_
      · exact Prog.Throws.wp (Prog.throws_exec fun _ _ => Prog.fails_never rfl rfl) fun _ _ _ h => h
      · obtain ⟨hdb, hch⟩ := run_updateDocRow hr'
        rw [hdb]
        exact ⟨rfl, rfl, hch⟩

/-! ### Stock movements -/

def DB.movementLink (db : DB) (id : ℕ) : Option ℕ := (db.movements.find? id).bind (·.journalEntryId)

theorem wp_unpostMovement {id : ℕ} (hv : Steady (fun _ => False) v) :
    Decides (v.db.reversed (v.db.movementLink id) = none)
      (v.db.acceptsReversal (v.db.movementLink id) = true ∧ v.db.movementRaises id = false) (UnpostStockMovement id) v := by
  unfold UnpostStockMovement
  rw [Decides, Prog.wp_query_bind]
  cases hm : v.db.movements.find? id with
  | none =>
    refine ⟨fun e he => ?_, fun _ he => nomatch he⟩
    cases he
    exact .refused (by rw [DB.movementLink, hm]; rfl) (answered_posting _ _)
  | some m =>
    dsimp only
    cases hje : m.journalEntryId with
    | none =>
      refine ⟨fun e he => ?_, fun _ he => nomatch he⟩
      cases he
      exact .refused (by rw [DB.movementLink, hm, Option.bind_some, hje]; rfl) (answered_posting _ _)
    | some je =>
      refine ⟨fun _ he => (nomatch he), fun je' he => ?_⟩
      obtain rfl := Except.ok.inj he
      rw [DB.movementLink, hm, Option.bind_some, hje]
      have hkeep : ∀ r w, (reverseEntry je).run v.tick = .ok (r, w) →
          w.db.movements.find? id = some m ∧ w.db.movementRaises id = v.db.movementRaises id := fun r w hr => by
        obtain ⟨e, r', rows, -, -, hrev, -⟩ := run_reverseEntry hr hv.fresh.tick
        rw [hrev.wrote.eq]
        exact ⟨hm, rfl⟩
      refine decides_reverse hv.tick (.unpostMovement id) (allChange_updateMovementById _ _ _)
        (allFresh_updateMovementById _ _ _) (fun r w hok hr => Prog.wp_iff_run.2 ⟨fun e he => ?_, fun u w' hr' hacc => ?_⟩)
        (fun h => h.1) fun r w hr w' hr' => ?_
      · obtain ⟨hne, hraise⟩ := (Prog.wp_iff_run.1 (wp_updateMovementById (f := StockMovement.unlinked) (fun _ => rfl) fun _ => rfl)).1 e he
        refine .fault (reversed_ne_none hok) (fun hs => ?_) hne
        rw [(hkeep r w hr).2, hs.2] at hraise
        cases hraise
      · have := (Prog.wp_iff_run.1 (wp_updateMovementById (f := StockMovement.unlinked) (fun _ => rfl) fun _ => rfl)).2 u w' hr'
        exact ⟨hacc, (hkeep r w hr).2 ▸ this⟩
      · obtain ⟨hdb, hch⟩ := run_updateMovementById hr' (hkeep r w hr).1
        rw [hdb]
        exact ⟨rfl, rfl, hch⟩
