import Tadmor.Model.Reports
import Tadmor.Proof.Ownership
import Tadmor.Theory.Counting

/-!
# What a set of entries adds up to

The net effect of some entries on an account.  Reversing an entry takes its net effect back, in base and in the
currency of the entry, as of every date.
-/

/-- The entries of `db'` that `db` has not. -/
def DB.newEntries (db db' : DB) : List ℕ := (db'.entries.rows.map (·.id)).filter fun je => (db.entries.find? je).isNone

/-- The net effect on an account of the entries `es` that satisfy `p`. -/
def DB.netOf (db : DB) (es : List ℕ) (p : JournalEntry → Bool) (amount : JournalLine → ℤ) (account : ℕ) : ℤ :=
  ((db.lines.rows.filter fun l => l.accountId = account && l.journalEntryId ∈ es &&
    (db.entries.find? l.journalEntryId).any p).map amount).sum

/-! ### New entries -/

theorem DB.mem_newEntries {db db' : DB} {x : ℕ} :
    x ∈ db.newEntries db' ↔ (∃ e ∈ db'.entries, e.id = x) ∧ db.entries.Free x := by
  rw [DB.newEntries, List.mem_filter, List.mem_map, Table.free_iff_find?, Option.isNone_iff_eq_none]
  rfl

theorem newEntries_of_same {db db' : DB} (h : db'.entries = db.entries) {x : ℕ} : x ∉ db.newEntries db' := by
  intro hx
  obtain ⟨⟨e, he, hid⟩, hfree⟩ := DB.mem_newEntries.1 hx
  exact hfree e (h ▸ he) hid

theorem Wrote.mem_newEntries {lo : ℕ} {db db' : DB} {e : JournalEntry} {rows : List JournalLine}
    (h : Wrote lo db db' e rows) {x : ℕ} : x ∈ db.newEntries db' ↔ x = e.id := by
  rw [DB.mem_newEntries]
  constructor
  · rintro ⟨⟨y, hy, rfl⟩, hfree⟩
    rcases h.mem_entries.1 hy with hy | rfl
    · exact absurd rfl (hfree y hy)
    · rfl
  · rintro rfl
    exact ⟨⟨e, h.mem_entries.2 (.inr rfl), rfl⟩, h.free⟩

/-- What is new after two steps was new after one of them. -/
theorem Grown.mem_newEntries {a b c : DB} (hb : Grown a b) (hc : Grown b c) {x : ℕ} :
    x ∈ a.newEntries c ↔ x ∈ a.newEntries b ∨ x ∈ b.newEntries c := by
  simp only [DB.mem_newEntries]
  constructor
  · rintro ⟨⟨e, he, rfl⟩, hfree⟩
    by_cases h : ∃ y ∈ b.entries, y.id = e.id
    · exact .inl ⟨h, hfree⟩
    · exact .inr ⟨⟨e, he, rfl⟩, fun y hy hid => h ⟨y, hy, hid⟩⟩
  · rintro (⟨⟨e, he, rfl⟩, hfree⟩ | ⟨he, hfree⟩)
    · exact ⟨⟨e, hc.mem he, rfl⟩, hfree⟩
    · exact ⟨he, fun y hy => hfree y (hb.mem hy)⟩

/-! ### Sums over entries -/

section net

variable {p : JournalEntry → Bool} {amount : JournalLine → ℤ} {account : ℕ}

/-- Only what is in the list counts, once. -/
theorem netOf_congr {db : DB} {es es' : List ℕ} (h : ∀ x, x ∈ es ↔ x ∈ es') :
    db.netOf es p amount account = db.netOf es' p amount account := by
  simp only [DB.netOf, h]

theorem netOf_nil {db : DB} : db.netOf [] p amount account = 0 := by
  simp [DB.netOf]

theorem netOf_cons {db : DB} {es : List ℕ} {je : ℕ} (h : je ∉ es) :
    db.netOf (je :: es) p amount account = db.netOf [je] p amount account + db.netOf es p amount account := by
  refine sum_filter_or fun l _ => ?_
  by_cases hje : l.journalEntryId = je
  · simp [hje, h]
  · simp [hje]

theorem netOf_singleton {db : DB} {je : ℕ} {e : JournalEntry} (he : db.entries.find? je = some e) :
    db.netOf [je] p amount account =
      (((db.linesOf je).filter fun l => l.accountId = account && p e).map amount).sum := by
  rw [DB.netOf, DB.linesOf, List.filter_filter]
  congr 2
  apply List.filter_congr
  intro l _
  by_cases hje : l.journalEntryId = je
  · simp [hje, he]
  · simp [hje]

/-- The net effect of entries there are does not change. -/
theorem Grown.netOf {db db' : DB} (hg : Grown db db') {es : List ℕ} (hes : ∀ je ∈ es, ∃ e ∈ db.entries, e.id = je) :
    db'.netOf es p amount account = db.netOf es p amount account := by
  obtain ⟨ls, hls, hfree⟩ := hg.lines
  have hnew : ls.filter (fun l => l.accountId = account && l.journalEntryId ∈ es &&
      (db'.entries.find? l.journalEntryId).any p) = [] := by
    rw [List.filter_eq_nil_iff]
    intro l hl hc
    simp only [Bool.and_eq_true, decide_eq_true_eq] at hc
    obtain ⟨e, he, hid⟩ := hes _ hc.1.2
    exact hfree l hl e he hid
  rw [DB.netOf, DB.netOf, hls, List.filter_append, hnew, List.append_nil]
  congr 2
  apply List.filter_congr
  intro l _
  by_cases hl : l.journalEntryId ∈ es
  · obtain ⟨e, he, hid⟩ := hes _ hl
    have hf : db.entries.find? l.journalEntryId = some e := Table.find?_eq_some.2 ⟨he, hid⟩
    rw [hf, hg.find? hf]
  · simp [hl]

/-- With a new entry its lines come in. -/
theorem Wrote.netOf {lo : ℕ} {db db' : DB} {e : JournalEntry} {rows : List JournalLine} (h : Wrote lo db db' e rows)
    (ho : JournalOk db) (es : List ℕ) : db'.netOf (e.id :: es) p amount account = db.netOf es p amount account +
      ((rows.filter fun l => l.accountId = account && p e).map amount).sum := by
  have hrows : db'.lines.rows = db.lines.rows ++ rows := by
    rw [h.eq]
    exact Table.rows_insertAll h.linesFree
  rw [DB.netOf, hrows, List.filter_append, List.map_append, List.sum_append]
  congr 3
  · apply List.filter_congr
    intro l hl
    obtain ⟨x, hx, hid⟩ := ho.owned l hl
    have hne : l.journalEntryId ≠ e.id := fun heq => h.free x hx (hid.trans heq)
    have hf : db.entries.find? l.journalEntryId = some x := Table.find?_eq_some.2 ⟨hx, hid⟩
    rw [hf, h.grown.find? hf]
    simp [hne]
  · apply List.filter_congr
    intro l hl
    rw [h.own l hl, h.find?]
    simp

theorem sum_of_mirrors {b : Bool} (hamount : ∀ l m, JournalLine.Mirrors l m → amount m = -amount l)
    {ls rows : List JournalLine} (h : List.Forall₂ JournalLine.Mirrors ls rows) :
    ((rows.filter fun l => l.accountId = account && b).map amount).sum =
      -((ls.filter fun l => l.accountId = account && b).map amount).sum := by
  induction h with
  | nil => rfl
  | @cons l m ls rows hm _ ih =>
    rw [List.filter_cons, List.filter_cons, hm.accountId]
    split
    · rw [List.map_cons, List.map_cons, List.sum_cons, List.sum_cons, ih, hamount l m hm]
      omega
    · exact ih

/-- The entries `es` count no more once they have been reversed. -/
theorem ReversedAll.netOf {lo : ℕ} {es : List ℕ} {db db' : DB} (h : ReversedAll lo es db db') (ho : JournalOk db)
    (hp : ∀ e r : JournalEntry, r.entryDate = e.entryDate → r.currencyCode = e.currencyCode → p r = p e)
    (hamount : ∀ l m, JournalLine.Mirrors l m → amount m = -amount l) (hn : es.Nodup)
    (hes : ∀ je ∈ es, ∃ e ∈ db.entries, e.id = je) (all : List ℕ) :
    db'.netOf (all ++ db.newEntries db') p amount account =
      db.netOf all p amount account - db.netOf es p amount account := by
  induction h generalizing all with
  | nil db =>
    rw [netOf_nil, sub_zero]
    exact netOf_congr fun x => by rw [List.mem_append, or_iff_left (newEntries_of_same rfl)]
  | @cons db mid db' e r rows es h hpost hs ih =>
    rw [List.nodup_cons] at hn
    have hj := h.journaled
    have hold : ∀ je ∈ es, ∃ x ∈ db.entries, x.id = je := fun je hje => hes je (List.mem_cons_of_mem _ hje)
    -- the reversal goes with the entries counted so far, the rest is the induction hypothesis
    have hrest := ih (hj.ok ho) hn.2 (fun je hje => (hold je hje).imp fun x hx => ⟨hj.grown.mem hx.1, hx.2⟩)
      (r.id :: all)
    rw [h.wrote.netOf ho, hj.grown.netOf hold, hp e r (by rw [h.reversal]; rfl) (by rw [h.reversal]; rfl),
      sum_of_mirrors hamount (forall₂_mirrors h.mirror), ← netOf_singleton h.old] at hrest
    have hnew : db'.netOf (all ++ db.newEntries db') p amount account =
        db'.netOf (r.id :: all ++ mid.newEntries db') p amount account := by
      refine netOf_congr fun x => ?_
      rw [List.mem_append, hj.grown.mem_newEntries hs.journaled.grown, h.wrote.mem_newEntries, List.mem_append,
        List.mem_cons]
      tauto
    rw [netOf_cons hn.1, hnew, hrest]
    omega

end net
