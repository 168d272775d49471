import Tadmor.Proof.Effects

/-!
# The journal only grows

No effect changes or removes an entry or a line, new lines belong to new entries, and a reversal is the mirror of
the entry it reverses.
-/

/-- `m` is the line `l` with debit and credit swapped. -/
structure JournalLine.Mirrors (l m : JournalLine) : Prop where
  lineNo : m.lineNo = l.lineNo
  accountId : m.accountId = l.accountId
  memo : m.memo = l.memo
  debit : m.debit = l.credit
  credit : m.credit = l.debit
  baseDebit : m.baseDebit = l.baseCredit
  baseCredit : m.baseCredit = l.baseDebit

/-- `r` reverses `e`, with the same date, currency, rate and closing flag and every line swapped. -/
structure DB.MirrorOf (db : DB) (e r : JournalEntry) : Prop where
  reverses : r.reversesEntryId = some e.id
  entryDate : r.entryDate = e.entryDate
  currencyCode : r.currencyCode = e.currencyCode
  exchangeRate : r.exchangeRate = e.exchangeRate
  isClosing : r.isClosing = e.isClosing
  lines : List.Forall₂ JournalLine.Mirrors (db.linesOf e.id) (db.linesOf r.id)

structure JournalOk (db : DB) : Prop where
  owned : ∀ l ∈ db.lines, ∃ e ∈ db.entries, e.id = l.journalEntryId
  mirrored : ∀ r ∈ db.entries, ∀ o, r.reversesEntryId = some o → ∃ e ∈ db.entries, e.id = o ∧ db.MirrorOf e r

/-- From `db` to `db'` entries and lines are only added, and no line to an entry of `db`. -/
structure Grown (db db' : DB) : Prop where
  entries : db.entries.rows <+: db'.entries.rows
  lines : ∃ ls, db'.lines.rows = db.lines.rows ++ ls ∧ ∀ l ∈ ls, db.entries.Free l.journalEntryId

theorem Grown.mem {db db' : DB} (h : Grown db db') {e : JournalEntry} (he : e ∈ db.entries) : e ∈ db'.entries :=
  h.entries.subset he

theorem Grown.find? {db db' : DB} (h : Grown db db') {je : ℕ} {e : JournalEntry} (he : db.entries.find? je = some e) :
    db'.entries.find? je = some e := by
  rw [Table.find?_eq_some] at *
  exact ⟨h.mem he.1, he.2⟩

theorem Grown.linesOf {db db' : DB} (h : Grown db db') {e : JournalEntry} (he : e ∈ db.entries) :
    db'.linesOf e.id = db.linesOf e.id := by
  obtain ⟨ls, hls, hfree⟩ := h.lines
  have hnone : ls.filter (fun l => l.journalEntryId = e.id) = [] := by
    rw [List.filter_eq_nil_iff]
    intro l hl hje
    exact hfree l hl e he (of_decide_eq_true hje).symm
  rw [DB.linesOf, hls, List.filter_append, hnone, List.append_nil]
  rfl

theorem Grown.of_same {db db' : DB} (he : db'.entries = db.entries) (hl : db'.lines = db.lines) : Grown db db' :=
  ⟨he ▸ List.prefix_refl _, [], by rw [hl, List.append_nil], fun l hl => absurd hl List.not_mem_nil⟩

theorem Grown.trans {a b c : DB} (h : Grown a b) (h' : Grown b c) : Grown a c := by
  obtain ⟨ls, hls, hfree⟩ := h.lines
  obtain ⟨ls', hls', hfree'⟩ := h'.lines
  refine ⟨h.entries.trans h'.entries, ls ++ ls', by rw [hls', hls, List.append_assoc], fun l hl => ?_⟩
  rcases List.mem_append.1 hl with hl | hl
  · exact hfree l hl
  · exact fun e he => hfree' l hl e (h.mem he)

/-- The journal only grows, and stays in order. -/
structure Journaled (db db' : DB) : Prop where
  grown : Grown db db'
  ok : JournalOk db → JournalOk db'

theorem Journaled.trans {a b c : DB} (h : Journaled a b) (h' : Journaled b c) : Journaled a c :=
  ⟨h.grown.trans h'.grown, fun ho => h'.ok (h.ok ho)⟩

theorem Journaled.of_same {db db' : DB} (he : db'.entries = db.entries) (hl : db'.lines = db.lines) :
    Journaled db db' := by
  refine ⟨.of_same he hl, fun h => ⟨?_, fun r hr o ho => ?_⟩⟩
  · rw [he, hl]
    exact h.owned
  · rw [he] at hr ⊢
    obtain ⟨e, hem, heo, hm⟩ := h.mirrored r hr o ho
    refine ⟨e, hem, heo, hm.reverses, hm.entryDate, hm.currencyCode, hm.exchangeRate, hm.isClosing, ?_⟩
    unfold DB.linesOf
    rw [hl]
    exact hm.lines

theorem Journaled.after_same {a b c : DB} (h : Journaled b c) (he : b.entries = a.entries) (hl : b.lines = a.lines) :
    Journaled a c :=
  (Journaled.of_same he hl).trans h

section wrote

variable {lo : ℕ} {db db' : DB} {e : JournalEntry} {rows : List JournalLine}

theorem Wrote.mem_entries (h : Wrote lo db db' e rows) {x : JournalEntry} :
    x ∈ db'.entries ↔ x ∈ db.entries ∨ x = e := by
  rw [h.eq]
  exact Table.mem_insert h.free

theorem Wrote.find? (h : Wrote lo db db' e rows) : db'.entries.find? e.id = some e :=
  Table.find?_key (h.mem_entries.2 (.inr rfl))

theorem Wrote.grown (h : Wrote lo db db' e rows) : Grown db db' := by
  refine ⟨?_, rows, ?_, fun l hl => ?_⟩
  · rw [h.eq]
    exact (Table.rows_insert h.free).symm ▸ List.prefix_append ..
  · rw [h.eq]
    exact Table.rows_insertAll h.linesFree
  · rw [h.own l hl]
    exact h.free

/-- The lines of the new entry are the new lines. -/
theorem Wrote.linesOf (h : Wrote lo db db' e rows) (ho : JournalOk db) : db'.linesOf e.id = rows := by
  have hnone : db.lines.rows.filter (fun l => l.journalEntryId = e.id) = [] := by
    rw [List.filter_eq_nil_iff]
    intro l hl hje
    obtain ⟨x, hx, hxl⟩ := ho.owned l hl
    exact h.free x hx (hxl.trans (of_decide_eq_true hje))
  have hall : rows.filter (fun l => l.journalEntryId = e.id) = rows :=
    List.filter_eq_self.2 fun l hl => decide_eq_true (h.own l hl)
  have hrows : db'.lines.rows = db.lines.rows ++ rows := by
    rw [h.eq]
    exact Table.rows_insertAll h.linesFree
  rw [DB.linesOf, hrows, List.filter_append, hnone, hall, List.nil_append]

theorem Wrote.owned (h : Wrote lo db db' e rows) (ho : JournalOk db) :
    ∀ l ∈ db'.lines, ∃ x ∈ db'.entries, x.id = l.journalEntryId := by
  intro l hl
  rw [h.eq] at hl
  rcases (Table.mem_insertAll h.linesFree).1 hl with hl | hl
  · obtain ⟨x, hx, hxl⟩ := ho.owned l hl
    exact ⟨x, h.mem_entries.2 (.inl hx), hxl⟩
  · exact ⟨e, h.mem_entries.2 (.inr rfl), (h.own l hl).symm⟩

/-- A mirror stays one as the journal grows. -/
theorem Grown.mirrorOf {x r : JournalEntry} (h : Grown db db') (hx : x ∈ db.entries) (hr : r ∈ db.entries)
    (hm : db.MirrorOf x r) : db'.MirrorOf x r :=
  { hm with lines := by rw [h.linesOf hx, h.linesOf hr]; exact hm.lines }

/-- An entry that reverses none. -/
theorem Wrote.journaled (h : Wrote lo db db' e rows) (he : e.reversesEntryId = none) : Journaled db db' := by
  refine ⟨h.grown, fun ho => ⟨h.owned ho, fun r hr o hro => ?_⟩⟩
  rcases h.mem_entries.1 hr with hr | rfl
  · obtain ⟨x, hx, hxo, hm⟩ := ho.mirrored r hr o hro
    exact ⟨x, h.mem_entries.2 (.inl hx), hxo, h.grown.mirrorOf hx hr hm⟩
  · rw [he] at hro
    cases hro

end wrote

theorem forall₂_mirrors {je : ℕ} {ls rows : List JournalLine}
    (h : List.Forall₂ (NewLine.Becomes je) (ls.map JournalLine.mirror) rows) :
    List.Forall₂ JournalLine.Mirrors ls rows := by
  induction ls generalizing rows with
  | nil =>
    cases h
    exact .nil
  | cons l ls ih =>
    cases h with
    | cons hb ht =>
      obtain ⟨id, account, ha, rfl⟩ := hb
      cases ha
      exact .cons ⟨rfl, rfl, rfl, rfl, rfl, rfl, rfl⟩ (ih ht)

theorem Reversed.journaled {lo : ℕ} {db db' : DB} {e r : JournalEntry} {rows : List JournalLine}
    (h : Reversed lo db db' e r rows) : Journaled db db' := by
  have hw := h.wrote
  refine ⟨hw.grown, fun ho => ⟨hw.owned ho, fun r' hr o hro => ?_⟩⟩
  have hold := Table.mem_of_find? h.old
  rcases hw.mem_entries.1 hr with hr | rfl
  · obtain ⟨x, hx, hxo, hm⟩ := ho.mirrored r' hr o hro
    exact ⟨x, hw.mem_entries.2 (.inl hx), hxo, hw.grown.mirrorOf hx hr hm⟩
  · have he : o = e.id := by
      rw [h.reversal] at hro
      exact (Option.some.inj hro).symm
    refine ⟨e, hw.mem_entries.2 (.inl hold), he.symm, ?_⟩
    refine ⟨?_, ?_, ?_, ?_, ?_, ?_⟩
    · rw [h.reversal]
      rfl
    · rw [h.reversal]
      rfl
    · rw [h.reversal]
      rfl
    · rw [h.reversal]
      rfl
    · rw [h.reversal]
      rfl
    · rw [hw.grown.linesOf hold, hw.linesOf ho]
      exact forall₂_mirrors h.mirror

theorem FxPosted.journaled {lo : ℕ} {own : JournalEntry → Application → Prop} {db db' : DB} (h : FxPosted lo own db db') :
    Journaled db db' := by
  induction h with
  | nil db => exact .of_same rfl rfl
  | cons hw he ha hfx _ _ _ ih => exact (hw.journaled he).trans (ih.after_same rfl rfl)

theorem ReversedAll.journaled {lo : ℕ} {es : List ℕ} {db db' : DB} (h : ReversedAll lo es db db') :
    Journaled db db' := by
  induction h with
  | nil db => exact .of_same rfl rfl
  | cons h _ _ ih => exact h.journaled.trans ih

/-- Every effect leaves the entries and lines there are as they are. -/
theorem Effect.journaled {lo : ℕ} {op : Op} {db db' : DB} (h : Effect lo op db db') : Journaled db db' := by
  cases h with
  | outside h => exact .of_same h.entries h.lines
  | docEdit id h => exact .of_same (by rw [h.eq]) (by rw [h.eq])
  | paymentEdit id h => exact .of_same (by rw [h.eq]) (by rw [h.eq])
  | movementEdit h => exact .of_same (by rw [h.eq]) (by rw [h.eq])
  | postDoc kind id hd hs ht hw he => exact (hw.journaled he).trans (.of_same rfl rfl)
  | postPayment side id hp hs ht hw he => exact (hw.journaled he).trans (.of_same rfl rfl)
  | postMovement id hm hj hw he => exact (hw.journaled he).trans (.of_same rfl rfl)
  | autoApply side settler id n hn hc hfree hfx hch => exact hfx.journaled.after_same rfl rfl
  | unpostDoc hd hs hj happs hr => exact hr.journaled.trans (.of_same rfl rfl)
  | unpostPayment hp hs hj hr => exact hr.journaled.trans (.of_same rfl rfl)
  | unpostMovement hm hj hr => exact hr.journaled.trans (.of_same rfl rfl)
  | closeEmpty id hopen h => exact .of_same (by rw [h.eq]) (by rw [h.eq])
  | closeYear id hopen hw he h => exact (hw.journaled he).trans (.of_same (by rw [h.eq]) (by rw [h.eq]))
  | reopenYear id hc hmid hlink hr => exact hr.journaled.after_same (by rw [hmid]) (by rw [hmid])

/-! ### Reachable states -/

theorem commit_effect {op : Op} {gaps : ℕ → ℕ} {s s' : Store DB} (h : (transaction op).commit gaps s = .ok ((), s'))
    (hs : Fresh s.seq s.db) : Effect s.seq op s.db s'.db ∧ Fresh s'.seq s'.db := by
  obtain ⟨v, hrun, hpass, rfl⟩ := Prog.commit_eq_ok.1 h
  exact ⟨run_effect op hrun hs hpass, (allFresh_transaction op).run hrun hs⟩

theorem fresh_seeded : Fresh seeded.seq seeded.db := by
  constructor <;> exact fun a ha => absurd ha (Table.not_mem_empty a)

theorem Reachable.fresh {s : Store DB} (h : Reachable s) : Fresh s.seq s.db :=
  h.invariant (I := fun s => Fresh s.seq s.db) fresh_seeded fun _ _ _ hf ⟨_, _, hs⟩ => (commit_effect hs hf).2

/-- An invariant of the seeded database and of effects is one of the reachable states. -/
theorem Reachable.of_effects {I : DB → Prop} (h0 : I seeded.db)
    (hstep : ∀ s op db', Reachable s → I s.db → Effect s.seq op s.db db' → I db') {s : Store DB} (h : Reachable s) :
    I s.db :=
  h.invariant (I := fun s => I s.db) h0 fun s _ hr hi ⟨op, _, hs⟩ =>
    hstep s op _ hr hi (commit_effect hs hr.fresh).1

theorem journalOk_seeded : JournalOk seeded.db :=
  ⟨fun l hl => absurd hl (Table.not_mem_empty l), fun r hr => absurd hr (Table.not_mem_empty r)⟩

theorem Reachable.journalOk {s : Store DB} (h : Reachable s) : JournalOk s.db :=
  h.of_effects journalOk_seeded fun _ _ _ _ hi he => he.journaled.ok hi
