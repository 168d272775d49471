import Tadmor.Proof.DoubleUnpost
import Tadmor.Proof.JournalSteps
import Tadmor.Proof.Reports
import Tadmor.Store.Identities

/-!
# The books under concurrent requests

Whatever requests run at the same time, and in whatever order their statements and commits come, the committed
journal stays in order: entries and lines are only added, every entry balances, and every reversal mirrors the entry it
reverses.  No lock is needed for that.  A transaction adds lines only to entries it has inserted itself, and the checks
deferred to its commit see all of these lines; the identity numbers keep the rows of two transactions apart.
-/

/-- The journal is in order and every entry of it balances. -/
structure DB.BooksOk (db : DB) : Prop where
  journal : JournalOk db
  ledger : db.LedgerOk
  balanced : ∀ je, DB.entryBalanced je db = .ok ()

/-- The numbers of the entries and of the lines. -/
def DB.journalIds (db : DB) : Set ℕ := {m | (∃ e ∈ db.entries, e.id = m) ∨ ∃ l ∈ db.lines, l.id = m}

/-- The journal only grows, and no account goes away. -/
def DB.Extends (db db' : DB) : Prop := Grown db db' ∧ KeepsAccounts db db'

/-- `act` appends the entries `es` and the lines `ls` to the journal of any state; `d` is the committed one. -/
structure Appended (d : DB) (own : Set ℕ) (act : DB → DB) (es : List JournalEntry) (ls : List JournalLine) : Prop where
  entries : ∀ x, (act x).entries = x.entries.insertAll es
  lines : ∀ x, (act x).lines = x.lines.insertAll ls
  accounts : AccountsKept act
  entryIds : (es.map (·.id)).Nodup
  lineIds : (ls.map (·.id)).Nodup
  ownEntries : ∀ e ∈ es, e.id ∈ own
  ownLines : ∀ l ∈ ls, l.id ∈ own
  posted : ∀ e ∈ es, e.status = .posted
  owner : ∀ l ∈ ls, ∃ e ∈ es, e.id = l.journalEntryId
  account : ∀ l ∈ ls, ((act d).accounts.find? l.accountId).isSome

section appended

variable {d d' : DB} {own : Set ℕ} {act : DB → DB} {es : List JournalEntry} {ls : List JournalLine}

theorem Appended.entriesFree (h : Appended d own act es ls) (hown : ∀ m ∈ own, m ∉ d.journalIds) :
    d.entries.AllFree es := by
  refine ⟨h.entryIds, fun e he a ha hk => ?_⟩
  exact hown e.id (h.ownEntries e he) (.inl ⟨a, ha, hk⟩)

theorem Appended.linesFree (h : Appended d own act es ls) (hown : ∀ m ∈ own, m ∉ d.journalIds) :
    d.lines.AllFree ls := by
  refine ⟨h.lineIds, fun l hl a ha hk => ?_⟩
  exact hown l.id (h.ownLines l hl) (.inr ⟨a, ha, hk⟩)

theorem Appended.mem_entries (h : Appended d own act es ls) (hown : ∀ m ∈ own, m ∉ d.journalIds) {e : JournalEntry} :
    e ∈ (act d).entries ↔ e ∈ d.entries ∨ e ∈ es := by
  rw [h.entries]
  exact Table.mem_insertAll (h.entriesFree hown)

theorem Appended.mem_lines (h : Appended d own act es ls) (hown : ∀ m ∈ own, m ∉ d.journalIds) {l : JournalLine} :
    l ∈ (act d).lines ↔ l ∈ d.lines ∨ l ∈ ls := by
  rw [h.lines]
  exact Table.mem_insertAll (h.linesFree hown)

theorem Appended.linesOf (h : Appended d own act es ls) (hown : ∀ m ∈ own, m ∉ d.journalIds) (je : ℕ) :
    (act d).linesOf je = d.linesOf je ++ ls.filter fun l => l.journalEntryId = je := by
  unfold DB.linesOf
  rw [h.lines, Table.rows_insertAll (h.linesFree hown), List.filter_append]

/-- The committed entries have the lines they had. -/
theorem Appended.linesOf_old (h : Appended d own act es ls) (hown : ∀ m ∈ own, m ∉ d.journalIds) {e : JournalEntry}
    (he : e ∈ d.entries) : (act d).linesOf e.id = d.linesOf e.id := by
  have hnone : ls.filter (fun l => l.journalEntryId = e.id) = [] := by
    rw [List.filter_eq_nil_iff]
    intro l hl hje
    obtain ⟨x, hx, hxl⟩ := h.owner l hl
    have hid : e.id = x.id := (of_decide_eq_true hje).symm.trans hxl.symm
    exact hown x.id (h.ownEntries x hx) (.inl ⟨e, he, hid⟩)
  rw [h.linesOf hown, hnone, List.append_nil]

/-- The lines of an entry of the transaction are its own. -/
theorem Appended.linesOf_own (h : Appended d own act es ls) (hown : ∀ m ∈ own, m ∉ d.journalIds) (ho : JournalOk d)
    {e : JournalEntry} (he : e ∈ es) : (act d).linesOf e.id = ls.filter fun l => l.journalEntryId = e.id := by
  have hnone : d.linesOf e.id = [] := by
    unfold DB.linesOf
    rw [List.filter_eq_nil_iff]
    intro l hl hje
    obtain ⟨x, hx, hxl⟩ := ho.owned l hl
    exact hown e.id (h.ownEntries e he) (.inl ⟨x, hx, hxl.trans (of_decide_eq_true hje)⟩)
  rw [h.linesOf hown, hnone, List.nil_append]

theorem Appended.grown (h : Appended d own act es ls) (hown : ∀ m ∈ own, m ∉ d.journalIds) : Grown d (act d) := by
  refine ⟨?_, ls, ?_, fun l hl e he hk => ?_⟩
  · rw [h.entries, Table.rows_insertAll (h.entriesFree hown)]
    exact List.prefix_append ..
  · rw [h.lines, Table.rows_insertAll (h.linesFree hown)]
  · obtain ⟨x, hx, hxl⟩ := h.owner l hl
    exact hown x.id (h.ownEntries x hx) (.inl ⟨e, he, hk.trans hxl.symm⟩)

end appended

/-! ### Entries that later changes leave alone -/

/-- The entries of `db` are entries of `db'` with the same lines. -/
def DB.Within (db db' : DB) : Prop := ∀ e ∈ db.entries, e ∈ db'.entries ∧ db'.linesOf e.id = db.linesOf e.id

theorem DB.Within.find? {db db' : DB} (h : db.Within db') {e : JournalEntry} {k : ℕ}
    (he : db.entries.find? k = some e) : db'.entries.find? k = some e := by
  obtain ⟨hm, hk⟩ := Table.find?_eq_some.1 he
  exact Table.find?_eq_some.2 ⟨(h e hm).1, hk⟩

/-- The reversal `r` mirrors an entry. -/
def DB.Mirrored (db : DB) (r : JournalEntry) : Prop :=
  ∀ k, r.reversesEntryId = some k → ∃ e ∈ db.entries, e.id = k ∧ db.MirrorOf e r

theorem DB.Mirrored.mono {db db' : DB} (hw : db.Within db') {r : JournalEntry} (hr : r ∈ db.entries)
    (h : db.Mirrored r) : db'.Mirrored r := by
  intro k hk
  obtain ⟨e, he, hid, hm⟩ := h k hk
  obtain ⟨he', hl⟩ := hw e he
  exact ⟨e, he', hid, { hm with lines := by rw [hl, (hw r hr).2]; exact hm.lines }⟩

/-- Lines of an entry that neither is the reversal nor is reversed by it. -/
theorem DB.Mirrored.insertAll {db : DB} {rows : List JournalLine} {r : JournalEntry} {je : ℕ} (h : db.Mirrored r)
    (hfree : db.lines.AllFree rows) (hje : ∀ l ∈ rows, l.journalEntryId = je) (hr : r.id ≠ je)
    (hk : ∀ k, r.reversesEntryId = some k → k ≠ je) : { db with lines := db.lines.insertAll rows }.Mirrored r := by
  intro k hrev
  obtain ⟨e, he, hid, hm⟩ := h k hrev
  have hother : ∀ x, x ≠ je → { db with lines := db.lines.insertAll rows }.linesOf x = db.linesOf x :=
    fun x hx => linesOf_insertAll hfree fun l hl hlx => hx (hlx.symm.trans (hje l hl))
  refine ⟨e, he, hid, { hm with lines := ?_ }⟩
  rw [hother e.id (hid ▸ hk k hrev), hother r.id hr]
  exact hm.lines

/-- The lines of a reversal that has none yet. -/
theorem JournalEntry.Reverses.mirrorOf {db : DB} {rows : List JournalLine} {e r : JournalEntry} (h : r.Reverses e)
    (hfree : db.lines.AllFree rows) (hje : ∀ l ∈ rows, l.journalEntryId = r.id) (hne : e.id ≠ r.id)
    (hnone : db.linesOf r.id = []) (hm : List.Forall₂ JournalLine.Mirrors (db.linesOf e.id) rows) :
    { db with lines := db.lines.insertAll rows }.MirrorOf e r := by
  refine ⟨h.reverses, h.entryDate, h.currencyCode, h.exchangeRate, h.isClosing, ?_⟩
  have hself : rows.filter (fun l => l.journalEntryId = r.id) = rows :=
    List.filter_eq_self.2 fun l hl => decide_eq_true (hje l hl)
  have hnew : { db with lines := db.lines.insertAll rows }.linesOf r.id = db.linesOf r.id ++ rows := by
    show (db.lines.insertAll rows).rows.filter _ = _
    rw [Table.rows_insertAll hfree, List.filter_append, hself]
    rfl
  rw [linesOf_insertAll hfree fun l hl hle => hne (hle.symm.trans (hje l hl)), hnew, hnone]
  exact hm

theorem DB.within_insert {d : DB} {e : JournalEntry} (h : d.entries.Free e.id) :
    d.Within { d with entries := d.entries.insert e } :=
  fun _ hx => ⟨(Table.mem_insert h).2 (.inl hx), rfl⟩

theorem DB.Within.balanced {db db' : DB} (hw : db.Within db') {e : JournalEntry} (he : e ∈ db.entries)
    (h : DB.entryBalanced e.id db = .ok ()) : DB.entryBalanced e.id db' = .ok () := by
  obtain ⟨he', hl⟩ := hw e he
  have hfind : db'.entries.find? e.id = db.entries.find? e.id := (Table.find?_key he').trans (Table.find?_key he).symm
  rw [entryBalanced_congr hfind hl, h]

theorem Appended.within {d d' : DB} {own : Set ℕ} {act : DB → DB} {es : List JournalEntry} {ls : List JournalLine}
    (h : Appended d own act es ls) (h' : Appended d' own act es ls) (hown : ∀ m ∈ own, m ∉ d.journalIds)
    (hown' : ∀ m ∈ own, m ∉ d'.journalIds) (hg : Grown d d') (ho : JournalOk d) (ho' : JournalOk d') :
    (act d).Within (act d') := by
  intro e he
  rcases (h.mem_entries hown).1 he with he | he
  · refine ⟨(h'.mem_entries hown').2 (.inl (hg.mem he)), ?_⟩
    rw [h'.linesOf_old hown' (hg.mem he), h.linesOf_old hown he, hg.linesOf he]
  · refine ⟨(h'.mem_entries hown').2 (.inr he), ?_⟩
    rw [h'.linesOf_own hown' ho' he, h.linesOf_own hown ho he]

/-! ### What holds of a transaction -/

/-- What the stage says of the state `db` that a transaction sees and of the rows it has written. -/
def Stage.Holds (db : DB) (es : List JournalEntry) (ls : List JournalLine) : Stage → Prop
  | .idle => True
  | .lining je => (∃ e ∈ es, e.id = je) ∧ ∀ r ∈ es, ∀ k, r.reversesEntryId = some k → r.id ≠ je ∧ k ≠ je
  | .read e => db.entries.find? e.id = some e
  | .reversing e r => db.entries.find? e.id = some e ∧ r ∈ es ∧ r.Reverses e ∧ (∀ l ∈ ls, l.journalEntryId ≠ r.id) ∧
      ∀ x ∈ es, ∀ k, x.reversesEntryId = some k → k ≠ r.id

/-- The reversals whose lines are there mirror their entries. -/
def Stage.Mirrors (db : DB) (es : List JournalEntry) (st : Stage) : Prop :=
  ∀ r ∈ es, (∀ e, st ≠ .reversing e r) → db.Mirrored r

/-- What holds of a transaction that has drawn the numbers `own`. -/
def JournalLoc (d : DB) (own : Set ℕ) : Tx DB Lock Err Unit → Prop
  | .running _ act _ cs q => ∃ es ls st, Appended d own act es ls ∧ st.Holds (act d) es ls ∧
      st.Mirrors (act d) es ∧ (∀ e ∈ es, DB.entryBalanced e.id ∈ cs) ∧ Journals st q
  | .checked act _ _ => ∃ es ls, Appended d own act es ls ∧ (∀ r ∈ es, (act d).Mirrored r) ∧
      ∀ e ∈ es, DB.entryBalanced e.id (act d) = .ok ()
  | _ => True

theorem Stage.Holds.seen {db : DB} {es : List JournalEntry} {ls : List JournalLine} {st : Stage}
    (h : st.Holds db es ls) : st.Seen db := by
  cases st with
  | read e => exact h
  | idle => trivial
  | lining je => trivial
  | reversing e r => trivial

theorem Stage.Holds.mono {db db' : DB} {es : List JournalEntry} {ls : List JournalLine} {st : Stage}
    (h : st.Holds db es ls) (hw : db.Within db') : st.Holds db' es ls := by
  cases st with
  | idle => trivial
  | lining je => exact h
  | read e => exact hw.find? h
  | reversing e r => exact ⟨hw.find? h.1, h.2⟩

/-- The change of the committed state by another transaction. -/
theorem JournalLoc.others {d d' : DB} {own : Set ℕ} {t : Tx DB Lock Err Unit} (hd : d.BooksOk) (hd' : d'.BooksOk)
    (he : d.Extends d') (hown : ∀ m ∈ own, m ∉ d.journalIds ∧ m ∉ d'.journalIds) (h : JournalLoc d own t) :
    JournalLoc d' own t := by
  have hown₁ : ∀ m ∈ own, m ∉ d.journalIds := fun m hm => (hown m hm).1
  have hown₂ : ∀ m ∈ own, m ∉ d'.journalIds := fun m hm => (hown m hm).2
  have happ : ∀ {act es ls}, Appended d own act es ls → Appended d' own act es ls := fun h =>
    { h with account := fun l hl => h.accounts.mono _ _ he.2 _ (h.account l hl) }
  cases t with
  | running pc act locks cs q =>
    obtain ⟨es, ls, st, ha, hst, hm, hc, hj⟩ := h
    have hw := ha.within (happ ha) hown₁ hown₂ he.1 hd.journal hd'.journal
    refine ⟨es, ls, st, happ ha, hst.mono hw, fun r hr hne => ?_, hc, hj⟩
    exact (hm r hr hne).mono hw ((ha.mem_entries hown₁).2 (.inr hr))
  | checked act locks a =>
    obtain ⟨es, ls, ha, hm, hb⟩ := h
    have hw := ha.within (happ ha) hown₁ hown₂ he.1 hd.journal hd'.journal
    refine ⟨es, ls, happ ha, fun r hr => ?_, fun e hee => ?_⟩
    · exact (hm r hr).mono hw ((ha.mem_entries hown₁).2 (.inr hr))
    · exact hw.balanced ((ha.mem_entries hown₁).2 (.inr hee)) (hb e hee)
  | committed a => trivial
  | aborted e => trivial

/-- The commit. -/
theorem JournalLoc.commit {d : DB} {own : Set ℕ} {act : DB → DB} {locks : List Lock} {a : Unit} (hd : d.BooksOk)
    (hown : ∀ m ∈ own, m ∉ d.journalIds) (h : JournalLoc d own (.checked act locks a)) :
    (act d).BooksOk ∧ d.Extends (act d) ∧ ∀ m ∈ (act d).journalIds, m ∈ d.journalIds ∨ m ∈ own := by
  obtain ⟨es, ls, ha, hm, hb⟩ := h
  have hgrown := ha.grown hown
  have hwithin : d.Within (act d) := fun e he => ⟨hgrown.mem he, ha.linesOf_old hown he⟩
  refine ⟨⟨⟨?_, ?_⟩, ⟨?_, ?_, ?_⟩, ?_⟩, ⟨hgrown, ha.accounts.keeps d⟩, ?_⟩
  · -- the lines are owned
    intro l hl
    rcases (ha.mem_lines hown).1 hl with hl | hl
    · obtain ⟨e, he, hel⟩ := hd.journal.owned l hl
      exact ⟨e, hgrown.mem he, hel⟩
    · obtain ⟨e, he, hel⟩ := ha.owner l hl
      exact ⟨e, (ha.mem_entries hown).2 (.inr he), hel⟩
  · -- the reversals mirror their entries
    intro r hr k hk
    rcases (ha.mem_entries hown).1 hr with hr | hr
    · exact DB.Mirrored.mono hwithin hr (hd.journal.mirrored r hr) k hk
    · exact hm r hr k hk
  · intro e he
    exact ((ha.mem_entries hown).1 he).elim (hd.ledger.posted e) (ha.posted e)
  · intro l hl
    rcases (ha.mem_lines hown).1 hl with hl | hl
    · exact ha.accounts.keeps d _ (hd.ledger.account l hl)
    · exact ha.account l hl
  · exact ha.accounts.cash d hd.ledger.cash
  · -- an entry of the transaction has passed its check; another number is no entry, or an old one
    intro je
    cases hfind : (act d).entries.find? je with
    | none =>
      unfold DB.entryBalanced
      rw [hfind]
    | some e =>
      obtain ⟨he, rfl⟩ := Table.find?_eq_some.1 hfind
      rcases (ha.mem_entries hown).1 he with he | he
      · exact hwithin.balanced he (hd.balanced e.id)
      · exact hb e he
  · rintro m (⟨e, he, rfl⟩ | ⟨l, hl, rfl⟩)
    · exact ((ha.mem_entries hown).1 he).imp (fun he => .inl ⟨e, he, rfl⟩) (ha.ownEntries e)
    · exact ((ha.mem_lines hown).1 hl).imp (fun hl => .inr ⟨l, hl, rfl⟩) (ha.ownLines l)

/-! ### Statements -/

section stmt

variable {d : DB} {own own' : Set ℕ} {act : DB → DB} {es : List JournalEntry} {ls : List JournalLine} {n : ℕ}

/-- The numbers that a transaction sees in the journal have been drawn before. -/
theorem Appended.lt_of_mem (h : Appended d own act es ls) (hd : ∀ m ∈ d.journalIds, m < n)
    (hown : ∀ m ∈ own, m < n ∧ m ∉ d.journalIds) : ∀ m ∈ (act d).journalIds, m < n := by
  have hnew : ∀ m ∈ own, m ∉ d.journalIds := fun m hm => (hown m hm).2
  rintro m (⟨e, he, rfl⟩ | ⟨l, hl, rfl⟩)
  · rcases (h.mem_entries hnew).1 he with he | he
    · exact hd _ (.inl ⟨e, he, rfl⟩)
    · exact (hown _ (h.ownEntries e he)).1
  · rcases (h.mem_lines hnew).1 hl with hl | hl
    · exact hd _ (.inr ⟨l, hl, rfl⟩)
    · exact (hown _ (h.ownLines l hl)).1

/-- A statement that appends nothing. -/
theorem Appended.quiet (h : Appended d own act es ls) {f : DB → DB} (he : ∀ x, (f x).entries = x.entries)
    (hl : ∀ x, (f x).lines = x.lines) (ha : AccountsKept f) (hsub : ∀ m ∈ own, m ∈ own') :
    Appended d own' (f ∘ act) es ls :=
  { entries := fun x => (he _).trans (h.entries x)
    lines := fun x => (hl _).trans (h.lines x)
    accounts := ha.comp h.accounts
    entryIds := h.entryIds
    lineIds := h.lineIds
    ownEntries := fun e he => hsub _ (h.ownEntries e he)
    ownLines := fun l hl => hsub _ (h.ownLines l hl)
    posted := h.posted
    owner := h.owner
    account := fun l hl => ha.keeps _ _ (h.account l hl) }

/-- A statement that inserts the entry `e`, whose number is new. -/
theorem Appended.entry (h : Appended d own act es ls) {e : JournalEntry} (hown : ∀ m ∈ own, m < e.id)
    (hs : e.status = .posted) (hsub : ∀ m ∈ own, m ∈ own') (he : e.id ∈ own') :
    Appended d own' ((fun x => { x with entries := x.entries.insert e }) ∘ act) (es ++ [e]) ls :=
  { entries := fun x => by
      show (act x).entries.insert e = _
      rw [h.entries, Table.insertAll_append]
      rfl
    lines := h.lines
    accounts := .comp (f := fun x : DB => { x with entries := x.entries.insert e }) (.of_eq fun _ => rfl) h.accounts
    entryIds := by
      rw [List.map_append, List.nodup_append]
      refine ⟨h.entryIds, by simp, fun x hx y hy => ?_⟩
      obtain ⟨a, ha, rfl⟩ := List.mem_map.1 hx
      rw [List.map_singleton, List.mem_singleton] at hy
      have := hown a.id (h.ownEntries a ha)
      omega
    lineIds := h.lineIds
    ownEntries := fun x hx => by
      rcases List.mem_append.1 hx with hx | hx
      · exact hsub _ (h.ownEntries x hx)
      · rwa [List.mem_singleton.1 hx]
    ownLines := fun l hl => hsub _ (h.ownLines l hl)
    posted := fun x hx => by
      rcases List.mem_append.1 hx with hx | hx
      · exact h.posted x hx
      · rwa [List.mem_singleton.1 hx]
    owner := fun l hl => by
      obtain ⟨x, hx, hxl⟩ := h.owner l hl
      exact ⟨x, List.mem_append_left _ hx, hxl⟩
    account := h.account }

/-- A statement that inserts lines of an entry of the transaction, with new numbers. -/
theorem Appended.rows (h : Appended d own act es ls) {rows : List JournalLine} (hown : ∀ m ∈ own, m < n)
    (hids : rows.map (·.id) = List.range' n rows.length) (hje : ∀ l ∈ rows, ∃ e ∈ es, e.id = l.journalEntryId)
    (ha : ∀ l ∈ rows, ((act d).accounts.find? l.accountId).isSome) (hsub : ∀ m ∈ own, m ∈ own')
    (hnew : ∀ m, n ≤ m → m < n + rows.length → m ∈ own') :
    Appended d own' ((fun x => { x with lines := x.lines.insertAll rows }) ∘ act) es (ls ++ rows) := by
  have hmem : ∀ l ∈ rows, n ≤ l.id ∧ l.id < n + rows.length := by
    intro l hl
    have hl' : l.id ∈ List.range' n rows.length := hids ▸ List.mem_map_of_mem hl
    simpa using List.mem_range'_1.1 hl'
  refine ⟨h.entries, fun x => ?_,
    .comp (f := fun x : DB => { x with lines := x.lines.insertAll rows }) (.of_eq fun _ => rfl) h.accounts, h.entryIds, ?_,
    fun e he => hsub _ (h.ownEntries e he), fun l hl => ?_, h.posted, fun l hl => ?_, fun l hl => ?_⟩
  · show (act x).lines.insertAll rows = _
    rw [h.lines, Table.insertAll_append]
  · rw [List.map_append, List.nodup_append]
    refine ⟨h.lineIds, hids ▸ List.nodup_range', fun x hx y hy => ?_⟩
    obtain ⟨a, ha, rfl⟩ := List.mem_map.1 hx
    obtain ⟨b, hb, rfl⟩ := List.mem_map.1 hy
    have := hown a.id (h.ownLines a ha)
    have := hmem b hb
    omega
  · rcases List.mem_append.1 hl with hl | hl
    · exact hsub _ (h.ownLines l hl)
    · exact hnew _ (hmem l hl).1 (hmem l hl).2
  · exact (List.mem_append.1 hl).elim (h.owner l) (hje l)
  · exact (List.mem_append.1 hl).elim (h.account l) (ha l)

/-- An entry that a reversal of the transaction reverses was there before. -/
theorem Appended.reversed_lt (h : Appended d own act es ls) (hd : ∀ m ∈ d.journalIds, m < n)
    (hown : ∀ m ∈ own, m < n ∧ m ∉ d.journalIds) {x : JournalEntry} (hm : (act d).Mirrored x) :
    ∀ k, x.reversesEntryId = some k → k < n := by
  intro k hk
  obtain ⟨e, he, rfl, -⟩ := hm k hk
  exact h.lt_of_mem hd hown _ (.inl ⟨e, he, rfl⟩)

end stmt

/-- A statement. -/
theorem JournalLoc.stmt {d : DB} {own : Set ℕ} {pc n : ℕ} {act : DB → DB} {locks : List Lock}
    {cs : List (DB → Except Err Unit)} {β : Type} {r : ℕ → DB → Except Err (Outcome DB Lock Err β)} {k : β → Txn Unit}
    {o : Outcome DB Lock Err β} (hd : d.BooksOk) (hbelow : ∀ m ∈ d.journalIds, m < n)
    (hown : ∀ m ∈ own, m < n ∧ m ∉ d.journalIds) (h : JournalLoc d own (.running pc act locks cs (.stmt r k)))
    (ho : r n (act d) = .ok o) :
    JournalLoc d {m | m ∈ own ∨ n ≤ m ∧ m < n + o.used}
      (.running (pc + 1) (o.act ∘ act) (locks ++ o.locks) (cs ++ o.checks) (k o.res)) := by
  obtain ⟨es, ls, st, ha, hst, hm, hc, hj⟩ := h
  obtain ⟨es', rows, st', hw, hj'⟩ := hj n (act d) o hst.seen ho
  have hlt := ha.lt_of_mem hbelow hown
  have hown₁ : ∀ m ∈ own, m < n := fun m hm => (hown m hm).1
  have hown₂ : ∀ m ∈ own, m ∉ d.journalIds := fun m hm => (hown m hm).2
  have hsub : ∀ m ∈ own, m ∈ {m | m ∈ own ∨ n ≤ m ∧ m < n + o.used} := fun m hm => .inl hm
  have hview : ∀ x ∈ es, x ∈ (act d).entries := fun x hx => (ha.mem_entries hown₂).2 (.inr hx)
  have hc' : ∀ e ∈ es, DB.entryBalanced e.id ∈ cs ++ o.checks := fun e he => List.mem_append_left _ (hc e he)
  cases hw with
  | quiet hset he hl hacc =>
    have hwithin : (act d).Within (o.act (act d)) := fun e hee => by
      refine ⟨he (act d) ▸ hee, ?_⟩
      unfold DB.linesOf
      rw [hl]
    exact ⟨es, ls, st, ha.quiet he hl hacc hsub, hst.mono hwithin,
      fun x hx hne => (hm x hx hne).mono hwithin (hview x hx), hc', hj'⟩
  | find e hready he hact =>
    refine ⟨es, ls, _, ha.quiet (fun x => ?_) (fun x => ?_) (.of_eq fun x => ?_) hsub, ?_, fun x hx _ => ?_, hc', hj'⟩
    · rw [hact]; rfl
    · rw [hact]; rfl
    · rw [hact]; rfl
    · rw [hact]; exact he
    · rw [hact]
      refine hm x hx fun e hstage => ?_
      rw [hstage] at hready
      cases hready
  | entry e hready hid hused hs hrev hact hchk =>
    subst hid
    rw [hact]
    have hwithin := DB.within_insert (d := act d) (e := e) fun x hx => (hlt _ (.inl ⟨x, hx, rfl⟩)).ne
    have hmem : ∀ x ∈ es ++ [e], x ∈ es ∨ x = e := fun x hx => by simpa using hx
    have hall : ∀ x ∈ es, (act d).Mirrored x := fun x hx => hm x hx fun y hstage => by
      rw [hstage] at hready
      cases hready
    refine ⟨es ++ [e], ls, .lining e.id, ha.entry hown₁ hs hsub ?_, ⟨⟨e, by simp, rfl⟩, fun x hx k hk => ?_⟩,
      fun x hx _ => ?_, fun x hx => ?_, hj'⟩
    · exact .inr ⟨le_rfl, by omega⟩
    · -- the entry is new, so it is neither a reversal nor reversed
      rcases hmem x hx with hx | rfl
      · exact ⟨(hlt _ (.inl ⟨x, hview x hx, rfl⟩)).ne, (ha.reversed_lt hbelow hown (hall x hx) k hk).ne⟩
      · rw [hrev] at hk
        cases hk
    · rcases hmem x hx with hx | rfl
      · exact (hall x hx).mono hwithin (hview x hx)
      · intro k hk
        rw [hrev] at hk
        cases hk
    · rcases hmem x hx with hx | rfl
      · exact hc' x hx
      · exact List.mem_append_right _ hchk
  | @lines je _ hids hused hje hacc hact =>
    rw [hact]
    obtain ⟨⟨e, he, hid⟩, hne⟩ := hst
    have hfree : (act d).lines.AllFree rows := Table.Below.allFree (fun l hl => hlt _ (.inr ⟨l, hl, rfl⟩)) hids
    refine ⟨es, ls ++ rows, .lining je, ha.rows hown₁ hids (fun l hl => ⟨e, he, hid.trans (hje l hl).symm⟩) hacc hsub ?_,
      ⟨⟨e, he, hid⟩, hne⟩, fun x hx _ => ?_, hc', hj'⟩
    · exact fun m h₁ h₂ => .inr ⟨h₁, hused ▸ h₂⟩
    · have hx' := hm x hx fun y hstage => by cases hstage
      by_cases hrev : ∃ k, x.reversesEntryId = some k
      · obtain ⟨k, hk⟩ := hrev
        exact hx'.insertAll hfree hje (hne x hx k hk).1 fun k hk => (hne x hx k hk).2
      · exact fun k hk => absurd ⟨k, hk⟩ hrev
  | reversal e x hid hused hs hx hact hchk =>
    subst hid
    rw [hact]
    have hwithin := DB.within_insert (d := act d) (e := x) fun y hy => (hlt _ (.inl ⟨y, hy, rfl⟩)).ne
    have hmem : ∀ y ∈ es ++ [x], y ∈ es ∨ y = x := fun y hy => by simpa using hy
    have hall : ∀ y ∈ es, (act d).Mirrored y := fun y hy => hm y hy fun z hstage => by cases hstage
    refine ⟨es ++ [x], ls, .reversing e x, ha.entry hown₁ hs hsub ?_,
      ⟨hwithin.find? hst, by simp, hx, fun l hl => ?_, fun y hy k hk => ?_⟩, fun y hy hne => ?_, fun y hy => ?_, hj'⟩
    · exact .inr ⟨le_rfl, by omega⟩
    · obtain ⟨y, hy, hyl⟩ := ha.owner l hl
      exact hyl ▸ (hlt _ (.inl ⟨y, hview y hy, rfl⟩)).ne
    · rcases hmem y hy with hy | rfl
      · exact (ha.reversed_lt hbelow hown (hall y hy) k hk).ne
      · rw [hx.reverses] at hk
        exact Option.some.inj hk ▸ (hlt _ (.inl ⟨e, Table.mem_of_find? hst, rfl⟩)).ne
    · rcases hmem y hy with hy | rfl
      · exact (hall y hy).mono hwithin (hview y hy)
      · exact absurd rfl (hne e)
    · rcases hmem y hy with hy | rfl
      · exact hc' y hy
      · exact List.mem_append_right _ hchk
  | mirror e x _ hids hused hje hacc hmir hact =>
    rw [hact]
    obtain ⟨he, hx, hrev, hnone, hne⟩ := hst
    have hfree : (act d).lines.AllFree rows := Table.Below.allFree (fun l hl => hlt _ (.inr ⟨l, hl, rfl⟩)) hids
    refine ⟨es, ls ++ rows, .idle, ha.rows hown₁ hids (fun l hl => ⟨x, hx, (hje l hl).symm⟩) hacc hsub ?_, trivial,
      fun y hy _ => ?_, hc', hj'⟩
    · exact fun m h₁ h₂ => .inr ⟨h₁, hused ▸ h₂⟩
    · by_cases hyx : y.id = x.id
      · -- the reversal itself: the new lines are all its lines
        obtain rfl : y = x := List.inj_on_of_nodup_map ha.entryIds hy hx hyx
        intro k hk
        have hek : e.id = k := by
          rw [hrev.reverses] at hk
          exact Option.some.inj hk
        have hempty : (act d).linesOf y.id = [] := by
          rw [ha.linesOf_own hown₂ hd.journal hx, List.filter_eq_nil_iff]
          exact fun l hl hle => hnone l hl (of_decide_eq_true hle)
        exact ⟨e, Table.mem_of_find? he, hek, hrev.mirrorOf hfree hje (hek ▸ hne y hy k hk) hempty hmir⟩
      · have hy' := hm y hy fun z hstage => by
          cases hstage
          exact hyx rfl
        exact hy'.insertAll hfree hje hyx (hne y hy)

/-! ### Runs -/

theorem JournalLoc.check {d : DB} {own : Set ℕ} {pc : ℕ} {act : DB → DB} {locks : List Lock}
    {cs : List (DB → Except Err Unit)} {a : Unit} (h : JournalLoc d own (.running pc act locks cs (.pure a)))
    (hpass : passAll cs (act d) = .ok ()) : JournalLoc d own (.checked act locks a) := by
  obtain ⟨es, ls, st, ha, -, hm, hc, hj⟩ := h
  refine ⟨es, ls, ha, fun r hr => hm r hr fun e hstage => ?_, fun e he => passAll_eq_ok.1 hpass _ (hc e he)⟩
  rw [hstage] at hj
  exact hj

theorem DB.Extends.trans {a b c : DB} (h : a.Extends b) (h' : b.Extends c) : a.Extends c :=
  ⟨h.1.trans h'.1, fun k hk => h'.2 k (h.2 k hk)⟩

theorem journal_numbering :
    Sys.Numbering (L := Lock) (ε := Err) (α := Unit) DB.journalIds DB.BooksOk DB.Extends JournalLoc where
  refl := fun _ => ⟨.of_same rfl rfl, fun _ hk => hk⟩
  trans := DB.Extends.trans
  stmt := fun hd hbelow hown h ho => h.stmt hd hbelow hown ho
  check := fun _ _ h hpass => h.check hpass
  commit := fun hd hown h => h.commit hd hown
  others := fun hd hd' he hown h => h.others hd hd' he hown

/-- The requests start with an empty change. -/
theorem journalLoc_start (d : DB) (op : Op) : JournalLoc d ∅ (Tx.start (transaction op)) := by
  refine ⟨[], [], .idle, ?_, trivial, fun r hr => absurd hr List.not_mem_nil, fun e he => absurd he List.not_mem_nil,
    journals_transaction op⟩
  exact ⟨fun x => rfl, fun x => rfl, .of_eq fun _ => rfl, List.nodup_nil, List.nodup_nil,
    fun e he => absurd he List.not_mem_nil, fun l hl => absurd hl List.not_mem_nil,
    fun e he => absurd he List.not_mem_nil, fun l hl => absurd hl List.not_mem_nil,
    fun l hl => absurd hl List.not_mem_nil⟩

theorem Reachable.booksOk {s : Store DB} (h : Reachable s) : s.db.BooksOk := ⟨h.journalOk, h.ledgerOk, h.entryBalanced⟩

section run

variable {ι : Type} [DecidableEq ι] [Fintype ι] {s : Store DB}

omit [DecidableEq ι] [Fintype ι] in
theorem numbered_race (h : Reachable s) (ops : ι → Op) :
    Sys.Numbered DB.journalIds DB.BooksOk JournalLoc (race s ops) := by
  refine .start h.booksOk (fun m hm => ?_) fun i => journalLoc_start _ _
  rcases hm with ⟨e, he, rfl⟩ | ⟨l, hl, rfl⟩
  · exact h.fresh.entries e he
  · exact h.fresh.lines l hl

/-- Whatever requests run at the same time, in whatever order their statements and commits come, every committed state
has books that balance: each balance sheet, each entry in both currencies, the trial balance, and the cash of a range
between what there was before it and what there is after it. -/
theorem concurrent_books_balance (h : Reachable s) (ops : ι → Op) (is : List ι) :
    (∀ asOf, BalanceSheetAsOf asOf ((race s ops).runSchedule is).db = .error overflow ∨
      ∃ bs, BalanceSheetAsOf asOf ((race s ops).runSchedule is).db = .ok bs ∧
        rowTotal bs.rows .asset = rowTotal bs.rows .liability + rowTotal bs.rows .equity + bs.currentEarnings) ∧
    (∀ e ∈ ((race s ops).runSchedule is).db.entries, e.status = .posted ∧
      ((((race s ops).runSchedule is).db.linesOf e.id).map (·.debit)).sum =
        ((((race s ops).runSchedule is).db.linesOf e.id).map (·.credit)).sum ∧
      ((((race s ops).runSchedule is).db.linesOf e.id).map (·.baseDebit)).sum =
        ((((race s ops).runSchedule is).db.linesOf e.id).map (·.baseCredit)).sum) ∧
    (TrialBalance ((race s ops).runSchedule is).db = .error overflow ∨
      ∃ rows, TrialBalance ((race s ops).runSchedule is).db = .ok rows ∧
        (rows.map (·.totalDebit)).sum = (rows.map (·.totalCredit)).sum) ∧
    ∀ fromDate toDate, (∀ f ∈ fromDate, ∀ t ∈ toDate, f ≤ t) →
      CashFlowStatement fromDate toDate ((race s ops).runSchedule is).db = .error overflow ∨
        ∃ cf, CashFlowStatement fromDate toDate ((race s ops).runSchedule is).db = .ok cf ∧
          cf.openingCash + cf.netCashFlow = cf.closingCash := by
  have hbooks := ((numbered_race h ops).run journal_numbering is).1.db
  refine ⟨balanceSheet_balances hbooks.ledger hbooks.balanced, fun e he => ?_,
    trialBalance_balances hbooks.ledger hbooks.balanced, fun fromDate toDate hrange => ?_⟩
  · have hs := hbooks.ledger.posted e he
    exact ⟨hs, entryBalanced_eq_ok he hs (hbooks.balanced e.id)⟩
  · rcases cashFlowStatement_cases hbooks.ledger hbooks.balanced hrange with he | ⟨cf, hcf, -, hclosing⟩
    · exact .inl he
    · exact .inr ⟨cf, hcf, hclosing⟩

/-- The invoice that is posted twice at the same time: the books show it twice, and balance. -/
theorem concurrent_books_balance_twice : ∃ s : Store DB, Reachable s ∧
    let σ := (race s postTwice).runSchedule (1 :: (List.replicate 14 0 ++ List.replicate 14 1))
    BalanceSheetAsOf none σ.db = .ok ⟨[⟨2, "1100", .asset, dollars 200⟩], dollars 200⟩ ∧
      ∀ e ∈ σ.db.entries, e.status = .posted ∧
        ((σ.db.linesOf e.id).map (·.debit)).sum = ((σ.db.linesOf e.id).map (·.credit)).sum ∧
        ((σ.db.linesOf e.id).map (·.baseDebit)).sum = ((σ.db.linesOf e.id).map (·.baseCredit)).sum := by
  obtain ⟨s, hs, hp⟩ := exists_reachable opening (p := fun s =>
    (BalanceSheetAsOf none ((race s postTwice).runSchedule
      (1 :: (List.replicate 14 0 ++ List.replicate 14 1))).db).toOption =
        some ⟨[⟨2, "1100", .asset, dollars 200⟩], dollars 200⟩) (by decide +kernel)
  have h := of_decide_eq_true hp
  refine ⟨s, hs, ?_, (concurrent_books_balance hs postTwice _).2.1⟩
  cases hb : BalanceSheetAsOf none ((race s postTwice).runSchedule
      (1 :: (List.replicate 14 0 ++ List.replicate 14 1))).db with
  | error e =>
    rw [hb] at h
    cases h
  | ok bs =>
    rw [hb] at h
    exact congrArg Except.ok (Option.some.inj h)

/-- In every run of requests at the same time the journal is append-only from each committed state to each later one,
lines are added only to new entries, no account goes away, and every committed reversal mirrors the entry it reverses,
line by line. -/
theorem concurrent_journal_append_only (h : Reachable s) (ops : ι → Op) (is js : List ι) :
    ((race s ops).runSchedule is).db.Extends ((race s ops).runSchedule (is ++ js)).db ∧
      JournalOk ((race s ops).runSchedule is).db := by
  have hrun := ((numbered_race h ops).run journal_numbering is).1
  rw [Sys.runSchedule_append]
  exact ⟨(hrun.run journal_numbering js).2, hrun.db.journal⟩

end run

/-- The invoice that is unposted twice at the same time: both reversals mirror its entry. -/
theorem concurrent_journal_append_only_twice : ∃ s : Store DB, Reachable s ∧
    let σ := (race s unpostTwice).runSchedule (List.replicate 4 1 ++ inTurn)
    (σ.db.entries.rows.filter fun r => r.reversesEntryId = some 18).length = 2 ∧ s.db.Extends σ.db ∧
      ∀ r ∈ σ.db.entries, ∀ k, r.reversesEntryId = some k → ∃ e ∈ σ.db.entries, e.id = k ∧ σ.db.MirrorOf e r := by
  obtain ⟨s, hs, hp⟩ := exists_reachable (opening ++ [.postDoc .salesInvoice 15]) (p := fun s =>
    (((race s unpostTwice).runSchedule (List.replicate 4 1 ++ inTurn)).db.entries.rows.filter
      fun r => r.reversesEntryId = some 18).length = 2) (by decide +kernel)
  have hall := concurrent_journal_append_only hs unpostTwice (List.replicate 4 1 ++ inTurn) []
  rw [List.append_nil] at hall
  exact ⟨s, hs, of_decide_eq_true hp, (concurrent_journal_append_only hs unpostTwice [] _).1, hall.2.mirrored⟩
