import Tadmor.Proof.Statements

/-!
# Editing drafts

Creating, editing and deleting a document, payment or movement, and the lifecycle of orders, change one row that is
not posted, and its lines.  The totals of a document stay the sums of its lines.
-/

namespace DB

/-- The stored totals are the sums of the stored lines. -/
def TotalsOk (db : DB) (d : Doc) : Prop :=
  d.subtotal = ((db.linesOfDoc d.id).map DocLine.lineSubtotal).sum ∧
  d.taxTotal = ((db.linesOfDoc d.id).map DocLine.taxAmount).sum ∧
  d.total = ((db.linesOfDoc d.id).map DocLine.lineTotal).sum

/-- Every line has a document, every document the totals of its lines, and every order line a quantity that fits. -/
structure DocsOk (db : DB) : Prop where
  lines : ∀ l ∈ db.docLines, ∃ d ∈ db.docs, d.id = l.docId
  totals : ∀ d ∈ db.docs, db.TotalsOk d
  ordered : ∀ l ∈ db.docLines, ∀ d ∈ db.docs, d.id = l.docId → d.kind.isOrder = true →
    0 < l.quantity ∧ fits l.quantity = true

theorem DocsOk.linesOfDoc {db : DB} (h : db.DocsOk) {id : ℕ} (hid : db.docs.Free id) : db.linesOfDoc id = [] := by
  rw [DB.linesOfDoc, List.filter_eq_nil_iff]
  intro l hl e
  obtain ⟨d, hd, hdl⟩ := h.lines l hl
  exact hid d hd (hdl.trans (by simpa using e))

end DB

/-- Only the document `id`, which is not posted, changes, and its lines only while it is a draft. -/
structure DocEdit (id : ℕ) (db db' : DB) : Prop where
  eq : db' = { db with docs := db'.docs, docLines := db'.docLines, applications := db'.applications }
  others : ∀ k, k ≠ id → db'.docs.find? k = db.docs.find? k
  otherLines : ∀ k, k ≠ id → db'.linesOfDoc k = db.linesOfDoc k
  old : ∀ d, db.docs.find? id = some d → d.status ≠ .posted
  new : ∀ d, db'.docs.find? id = some d → d.status ≠ .posted
  link : ∀ d je, db'.docs.find? id = some d → d.journalEntryId = some je →
    (db.docs.find? id).bind (·.journalEntryId) = some je
  apps : (∀ a ∈ db.applications, a.settler = .creditNote → a.settlerId ≠ id) → db'.applications = db.applications
  totals : db.DocsOk → db'.DocsOk
  frozen : ∀ d, db.docs.find? id = some d → d.status ≠ .draft →
    (∃ d', db'.docs.find? id = some d' ∧ d' = d.withStatus d'.status ∧ d'.status ≠ .draft) ∧
      db'.linesOfDoc id = db.linesOfDoc id

theorem DocEdit.refl {id : ℕ} {db : DB} (h : ∀ d, db.docs.find? id = some d → d.status ≠ .posted) :
    DocEdit id db db where
  eq := rfl
  others := fun _ _ => rfl
  otherLines := fun _ _ => rfl
  old := h
  new := h
  link := fun d je hd hje => by rw [hd, Option.bind_some, hje]
  apps := fun _ => rfl
  totals := fun h => h
  frozen := fun d hd hs => ⟨⟨d, hd, rfl, hs⟩, rfl⟩

theorem DocEdit.trans {id : ℕ} {a b c : DB} (h : DocEdit id a b) (h' : DocEdit id b c) : DocEdit id a c where
  eq := by rw [h'.eq, h.eq]
  others := fun k hk => (h'.others k hk).trans (h.others k hk)
  otherLines := fun k hk => (h'.otherLines k hk).trans (h.otherLines k hk)
  old := h.old
  new := h'.new
  link := fun d je hd hje => by
    obtain ⟨d', hd', hje'⟩ := Option.bind_eq_some_iff.1 (h'.link d je hd hje)
    exact h.link d' je hd' hje'
  apps := fun ha => (h'.apps (h.apps ha ▸ ha)).trans (h.apps ha)
  totals := fun ho => h'.totals (h.totals ho)
  frozen := fun d hd hs => by
    obtain ⟨⟨x, hx, hxd, hxs⟩, hl⟩ := h.frozen d hd hs
    obtain ⟨⟨y, hy, hyx, hys⟩, hl'⟩ := h'.frozen x hx hxs
    refine ⟨⟨y, hy, ?_, hys⟩, hl'.trans hl⟩
    rw [hyx, hxd]
    rfl

/-! ### Changing the header -/

/-- A change of the header `id` that keeps its totals. -/
theorem DocEdit.header {id : ℕ} {db : DB} {d : Doc} {f : Doc → Doc} (hf : ∀ d, Keyed.key (f d) = Keyed.key d)
    (hd : db.docs.find? id = some d) (ho : d.status ≠ .posted) (hn : (f d).status ≠ .posted)
    (hdraft : d.status ≠ .draft → f d = d.withStatus (f d).status ∧ (f d).status ≠ .draft) (hk : (f d).kind = d.kind)
    (hje : (f d).journalEntryId = d.journalEntryId)
    (ht : (f d).subtotal = d.subtotal ∧ (f d).taxTotal = d.taxTotal ∧ (f d).total = d.total) :
    DocEdit id db { db with docs := db.docs.update [id] f hf } where
  eq := rfl
  others := fun k hk => Table.find?_update_of_notMem hf (by simpa using hk)
  otherLines := fun _ _ => rfl
  old := fun d' hd' => by
    rw [hd] at hd'
    cases hd'
    exact ho
  new := fun d' hd' => by
    rw [Table.find?_update_self hf hd] at hd'
    cases hd'
    exact hn
  link := fun d' je hd' h => by
    rw [Table.find?_update_self hf hd] at hd'
    cases hd'
    rw [hd, Option.bind_some, ← hje, h]
  apps := fun _ => rfl
  totals := fun h => by
    have hself : ∀ x ∈ db.docs, Keyed.key x ∈ [id] → x = d := fun x hx hk =>
      Option.some.inj ((Table.find?_key hx).symm.trans ((List.mem_singleton.1 hk : Keyed.key x = id) ▸ hd))
    refine ⟨fun l hl => ?_, fun d' hd' => ?_, fun l hl d' hd' hid hord => ?_⟩
    · obtain ⟨x, hx, hxl⟩ := h.lines l hl
      obtain ⟨y, hy, hyx⟩ := Table.exists_mem_update hf _ hx
      exact ⟨y, hy, hyx.trans hxl⟩
    · obtain ⟨x, hx, rfl⟩ := (Table.mem_update hf).1 hd'
      split
      · rename_i hin
        obtain rfl := hself x hx hin
        have hx' := h.totals x hx
        have hid : (f x).id = x.id := hf x
        rw [DB.TotalsOk, hid, ht.1, ht.2.1, ht.2.2]
        exact hx'
      · exact h.totals x hx
    · obtain ⟨x, hx, rfl⟩ := (Table.mem_update hf).1 hd'
      by_cases hin : Keyed.key x ∈ [id]
      · rw [if_pos hin] at hid hord
        obtain rfl := hself x hx hin
        exact h.ordered l hl x hx ((hf x).symm.trans hid) (hk ▸ hord)
      · rw [if_neg hin] at hid hord
        exact h.ordered l hl x hx hid hord
  frozen := fun d' hd' hs => by
    obtain rfl : d = d' := Option.some.inj (hd.symm.trans hd')
    exact ⟨⟨f d, Table.find?_update_self hf hd, hdraft hs⟩, rfl⟩

/-! ### Changing the lines -/

/-- A document with the sums of the lines of `id` as totals. -/
def Doc.recomputed (lines : Table DocLine) (id : ℕ) (d : Doc) : Doc :=
  d.withTotals (((lines.rows.filter fun l => l.docId = id).map DocLine.lineSubtotal).sum)
    (((lines.rows.filter fun l => l.docId = id).map DocLine.taxAmount).sum)
    (((lines.rows.filter fun l => l.docId = id).map DocLine.lineTotal).sum)

/-- The totals that `recompute` stores in a draft. -/
theorem recompute_eq_ok {db : DB} {id : ℕ} {lines : Table DocLine} {f : Table Doc → Table Doc}
    (h : db.recompute id lines = .ok f) (docs : Table Doc) :
    f docs = docs.update (db.docs.hit id (·.status = .draft)) (Doc.recomputed lines id) fun _ => rfl := by
  simp only [DB.recompute, Except.bind_eq_ok_iff, ensure_eq_ok, exists_const, Except.ok.injEq] at h
  obtain ⟨-, rfl⟩ := h
  rfl

/-- A change of the lines of the draft `id`, with the totals recomputed. -/
theorem DocEdit.lines {id : ℕ} {db : DB} {d : Doc} {lines : Table DocLine} {f : Table Doc → Table Doc}
    (hf : db.recompute id lines = .ok f) (hd : db.docs.find? id = some d) (hdraft : d.status = .draft)
    (hother : ∀ k, k ≠ id → lines.rows.filter (fun l => l.docId = k) = db.linesOfDoc k)
    (hown : ∀ l ∈ lines, l ∈ db.docLines ∨
      l.docId = id ∧ (d.kind.isOrder = true → 0 < l.quantity ∧ fits l.quantity = true)) :
    DocEdit id db { db with docLines := lines, docs := f db.docs } ∧
      ∃ d', (f db.docs).find? id = some d' ∧ d'.status = .draft := by
  have hks : db.docs.hit id (·.status = .draft) = [id] := Table.hit_of_find? hd (by simpa using hdraft)
  rw [recompute_eq_ok hf, hks]
  have hkey : ∀ d : Doc, Keyed.key (d.recomputed lines id) = Keyed.key d := fun _ => rfl
  have hself := Table.find?_update_self hkey hd
  refine ⟨⟨rfl, fun k hk => Table.find?_update_of_notMem hkey (by simpa using hk), hother, fun d' hd' => ?_,
    fun d' hd' => ?_, fun d' je hd' hje => ?_, fun _ => rfl, fun h => ⟨fun l hl => ?_, fun d' hd' => ?_,
    fun l hl d' hd' hid hord => ?_⟩, fun d' hd' hs => ?_⟩, _, hself, hdraft⟩
  · rw [hd] at hd'
    cases hd'
    simp [hdraft]
  · rw [hself] at hd'
    cases hd'
    simp [Doc.recomputed, Doc.withTotals, hdraft]
  · rw [hself] at hd'
    cases hd'
    rw [hd]
    exact hje
  · have hl' : ∃ x ∈ db.docs, x.id = l.docId := by
      rcases hown l hl with hl | ⟨hl, -⟩
      · exact h.lines l hl
      · exact ⟨d, Table.mem_of_find? hd, (Table.key_of_find? hd).trans hl.symm⟩
    obtain ⟨x, hx, hxl⟩ := hl'
    obtain ⟨y, hy, hyx⟩ := Table.exists_mem_update hkey _ hx
    exact ⟨y, hy, hyx.trans hxl⟩
  · obtain ⟨x, hx, rfl⟩ := (Table.mem_update hkey).1 hd'
    by_cases hk : x.id = id
    · have hk' : Keyed.key x ∈ [id] := List.mem_singleton.2 hk
      subst hk
      rw [if_pos hk']
      exact ⟨rfl, rfl, rfl⟩
    · have hk' : Keyed.key x ∉ [id] := fun e => hk (List.mem_singleton.1 e)
      rw [if_neg hk']
      have := h.totals x hx
      rwa [DB.TotalsOk, ← hother _ hk] at this
  · obtain ⟨x, hx, rfl⟩ := (Table.mem_update hkey).1 hd'
    have hxid : x.id = l.docId := by
      split at hid
      · exact hid
      · exact hid
    have hxord : x.kind.isOrder = true := by
      split at hord
      · exact hord
      · exact hord
    rcases hown l hl with hl | ⟨hl, hpos⟩
    · exact h.ordered l hl x hx hxid hxord
    · have hfind : db.docs.find? id = some x := hl ▸ hxid ▸ Table.find?_key hx
      obtain rfl : d = x := Option.some.inj (hd.symm.trans hfind)
      exact hpos hxord
  · rw [hd] at hd'
    cases hd'
    exact absurd hdraft hs

/-! ### Statements on documents -/

def DB.Drafted (db : DB) (id : ℕ) : Prop := ∃ d, db.docs.find? id = some d ∧ d.status = .draft

theorem DB.Drafted.edit {db : DB} {id : ℕ} (h : db.Drafted id) : DocEdit id db db := by
  obtain ⟨d, hd, hs⟩ := h
  refine .refl fun d' hd' => ?_
  rw [hd] at hd'
  cases hd'
  simp [hs]

/-- A new document without lines. -/
theorem DocEdit.insert {db : DB} {d : Doc} (hfree : db.docs.Free d.id) (hs : d.status = .draft)
    (hje : d.journalEntryId = none) (ht : d.subtotal = 0 ∧ d.taxTotal = 0 ∧ d.total = 0) :
    DocEdit d.id db { db with docs := db.docs.insert d } where
  eq := rfl
  others := fun k hk => Table.find?_insert_of_ne (Ne.symm hk)
  otherLines := fun _ _ => rfl
  old := fun d' hd' => by
    rw [Table.free_iff_find?.1 hfree] at hd'
    cases hd'
  new := fun d' hd' => by
    obtain rfl := Option.some.inj ((Table.find?_insert_self hfree).symm.trans hd')
    simp [hs]
  link := fun d' je hd' hje' => by
    obtain rfl := Option.some.inj ((Table.find?_insert_self hfree).symm.trans hd')
    rw [hje] at hje'
    cases hje'
  apps := fun _ => rfl
  totals := fun h => by
    refine ⟨fun l hl => ?_, fun d' hd' => ?_, fun l hl d' hd' hid hord => ?_⟩
    · obtain ⟨x, hx, hxl⟩ := h.lines l hl
      exact ⟨x, (Table.mem_insert hfree).2 (.inl hx), hxl⟩
    · rcases (Table.mem_insert hfree).1 hd' with hd' | rfl
      · exact h.totals d' hd'
      · have : db.linesOfDoc d'.id = [] := h.linesOfDoc hfree
        show d'.subtotal = ((db.linesOfDoc d'.id).map _).sum ∧ d'.taxTotal = ((db.linesOfDoc d'.id).map _).sum ∧
          d'.total = ((db.linesOfDoc d'.id).map _).sum
        simpa [this] using ht
    · rcases (Table.mem_insert hfree).1 hd' with hd' | rfl
      · exact h.ordered l hl d' hd' hid hord
      · obtain ⟨x, hx, hxl⟩ := h.lines l hl
        exact absurd (hxl.trans hid.symm) (hfree x hx)
  frozen := fun d' hd' => by
    rw [Table.free_iff_find?.1 hfree] at hd'
    cases hd'

theorem run_insertHeader {kind : DocKind} {input : DocInput} {v w : Env DB Err} {id : ℕ}
    (h : (insertHeader kind input).run v = .ok (id, w)) (hv : Fresh v.seq v.db) :
    DocEdit id v.db w.db ∧ w.db.Drafted id := by
  obtain ⟨o, ho, rfl, rfl⟩ := Prog.run_exec_ok.1 h
  simp only [Except.bind_eq_ok_iff, Except.ok.injEq] at ho
  obtain ⟨-, -, rfl⟩ := ho
  have hfree : v.db.docs.Free (input.header kind (v.seq + v.gaps 0)).id := hv.docs.free (Nat.le_add_right ..)
  exact ⟨.insert hfree rfl rfl ⟨rfl, rfl, rfl⟩, _, Table.find?_insert_self hfree, rfl⟩

theorem docId_numberRows {docId n : ℕ} {ls : List (ℕ × NewDocLine)} : ∀ l ∈ numberRows docId n ls, l.docId = docId := by
  induction ls generalizing n with
  | nil => intro l hl; cases hl
  | cons x ls ih =>
    intro l hl
    rcases List.mem_cons.1 hl with rfl | hl
    · rfl
    · exact ih l hl

theorem checkRows_eq_ok {db : DB} {kind : DocKind} {ls : List DocLine} (h : checkRows db kind ls = .ok ()) :
    ∀ l ∈ ls, l.check db kind = .ok () := by
  induction ls with
  | nil => exact fun l hl => absurd hl List.not_mem_nil
  | cons x ls ih =>
    simp only [checkRows, Except.bind_eq_ok_iff] at h
    obtain ⟨u, hx, h⟩ := h
    intro l hl
    rcases List.mem_cons.1 hl with rfl | hl
    · exact hx
    · exact ih h l hl

/-- A line of an order has a quantity that fits. -/
theorem quantity_of_check {db : DB} {kind : DocKind} {l : DocLine} (h : l.check db kind = .ok ()) {d : Doc}
    (hd : db.docs.find? l.docId = some d) (ho : d.kind.isOrder = true) :
    0 < l.quantity ∧ fits l.quantity = true := by
  simp only [DocLine.check, Except.bind_eq_ok_iff, ensure_eq_ok, exists_const, Bool.and_eq_true] at h
  obtain ⟨hfit, hq, -, -, hdoc, -⟩ := h
  obtain ⟨x, hx⟩ := Option.isSome_iff_exists.1 hdoc
  obtain ⟨hx, hk⟩ := Option.filter_eq_some_iff.1 hx
  obtain rfl : d = x := Option.some.inj (hd.symm.trans hx)
  rw [← of_decide_eq_true hk, ho, if_pos rfl] at hq
  exact ⟨of_decide_eq_true hq, hfit.1.1.1.1.1⟩

theorem run_insertDocLines {kind : DocKind} {docId k : ℕ} {select : DB → List (ℕ × NewDocLine)} {v w : Env DB Err}
    (h : (insertDocLines kind docId select).run v = .ok (k, w)) (hv : Fresh v.seq v.db) (hd : v.db.Drafted docId) :
    DocEdit docId v.db w.db ∧ w.db.Drafted docId := by
  obtain ⟨o, ho, -, rfl⟩ := Prog.run_exec_ok.1 h
  simp only [Except.bind_eq_ok_iff, ensure_eq_ok, exists_const] at ho
  obtain ⟨u, hc, -, ho⟩ := ho
  split at ho
  · cases ho
    exact ⟨hd.edit, hd⟩
  · simp only [Except.bind_eq_ok_iff, Except.ok.injEq] at ho
    obtain ⟨f, hf, rfl⟩ := ho
    have hfree := (hv.docLines.mono (Nat.le_add_right _ (v.gaps 0))).allFree
      (map_id_numberRows docId (v.seq + v.gaps 0) (select v.db))
    obtain ⟨d, hd, hs⟩ := hd
    refine DocEdit.lines hf hd hs (fun k hk => ?_) fun l hl => ?_
    · have hnone : (numberRows docId (v.seq + v.gaps 0) (select v.db)).filter (fun l => l.docId = k) = [] := by
        rw [List.filter_eq_nil_iff]
        intro l hl
        simpa [docId_numberRows l hl] using Ne.symm hk
      rw [Table.rows_insertAll hfree, List.filter_append, hnone, List.append_nil]
      rfl
    · refine ((Table.mem_insertAll hfree).1 hl).imp id fun hl => ?_
      have hid := docId_numberRows l hl
      exact ⟨hid, quantity_of_check (checkRows_eq_ok hc l hl) (hid ▸ hd)⟩

theorem run_insertLinesOf {kind : DocKind} {docId i : ℕ} {ls : List DocLineInput} {v w : Env DB Err} {u : Unit}
    (h : (insertLinesOf kind docId i ls).run v = .ok (u, w)) (hv : Fresh v.seq v.db) (hd : v.db.Drafted docId) :
    DocEdit docId v.db w.db := by
  induction ls generalizing i v with
  | nil =>
    obtain ⟨-, rfl⟩ := Prog.run_pure_ok.1 h
    exact hd.edit
  | cons l ls ih =>
    obtain ⟨k, v₁, h₁, h⟩ := Prog.run_bind_ok.1 h
    obtain ⟨he, hd₁⟩ := run_insertDocLines h₁ hv hd
    exact he.trans (ih h (Prog.run_keeps Fresh.mono (allFresh_insertDocLines _ _ _) h₁ hv) hd₁)

/-- Deleting the lines of one document leaves those of the others. -/
theorem filter_erase_docLines {db : DB} {docId k : ℕ} (hk : k ≠ docId) :
    ((db.docLines.erase (db.docLines.keysWhere fun l => l.docId = docId)).rows.filter fun l => l.docId = k) =
      db.linesOfDoc k := by
  rw [Table.erase, DB.linesOfDoc, List.filter_filter]
  apply List.filter_congr
  intro l hl
  by_cases e : l.docId = k
  · have : Keyed.key l ∉ db.docLines.keysWhere fun l => l.docId = docId := by
      rw [Table.mem_keysWhere hl]
      simpa [e] using hk
    simp [e, this]
  · simp [e]

theorem run_deleteDocLines {docId : ℕ} {v w : Env DB Err} {u : Unit}
    (h : (deleteDocLines docId).run v = .ok (u, w)) (hd : v.db.Drafted docId) :
    DocEdit docId v.db w.db ∧ w.db.Drafted docId := by
  obtain ⟨o, ho, -, rfl⟩ := Prog.run_exec_ok.1 h
  simp only [Except.bind_eq_ok_iff, ensure_eq_ok, exists_const] at ho
  obtain ⟨-, ho⟩ := ho
  split at ho
  · cases ho
    exact ⟨hd.edit, hd⟩
  · simp only [Except.bind_eq_ok_iff, Except.ok.injEq] at ho
    obtain ⟨f, hf, rfl⟩ := ho
    obtain ⟨d, hd, hs⟩ := hd
    exact DocEdit.lines hf hd hs (fun k hk => filter_erase_docLines hk) fun l hl => .inl (Table.mem_erase.1 hl).1

/-- The draft that `WHERE id = docId AND status = 'draft'` selects. -/
theorem draft_of_hit {db : DB} {kind : DocKind} {docId : ℕ} (h : db.docs.hit docId (draftDoc kind) ≠ []) :
    db.docs.hit docId (draftDoc kind) = [docId] ∧
      ∃ d, db.docs.find? docId = some d ∧ d.kind = kind ∧ d.status = .draft := by
  obtain ⟨hk, d, hd, hp⟩ := Table.hit_ne_nil h
  simp only [draftDoc, Bool.and_eq_true, decide_eq_true_eq] at hp
  exact ⟨hk, d, hd, hp⟩

theorem run_updateHeader {kind : DocKind} {docId k : ℕ} {input : DocInput} {v w : Env DB Err}
    (h : (updateHeader kind docId input).run v = .ok (k, w)) (hk : k ≠ 0) :
    DocEdit docId v.db w.db ∧ w.db.Drafted docId := by
  obtain ⟨o, ho, rfl, rfl⟩ := Prog.run_exec_ok.1 h
  dsimp only at ho
  split at ho
  · cases ho
    exact absurd rfl hk
  · rename_i hne
    simp only [Except.bind_eq_ok_iff, Except.ok.injEq] at ho
    obtain ⟨-, -, rfl⟩ := ho
    obtain ⟨hks, d, hd, -, hs⟩ := draft_of_hit hne
    rw [Env.after_db]
    simp only [hks]
    have hkey : ∀ d : Doc, Keyed.key (d.edited kind input) = Keyed.key d := fun _ => rfl
    exact ⟨.header hkey hd (by simp [hs]) (by simp [Doc.edited, hs]) (fun hn => absurd hs hn) rfl rfl ⟨rfl, rfl, rfl⟩,
      _, Table.find?_update_self hkey hd, hs⟩

theorem run_deleteHeader {kind : DocKind} {docId k : ℕ} {v w : Env DB Err}
    (h : (deleteHeader kind docId).run v = .ok (k, w)) (hk : k ≠ 0) : DocEdit docId v.db w.db := by
  obtain ⟨o, ho, rfl, rfl⟩ := Prog.run_exec_ok.1 h
  dsimp only at ho
  split at ho
  · cases ho
    exact absurd rfl hk
  · rename_i hne
    simp only [Except.bind_eq_ok_iff, ensure_eq_ok, exists_const, Except.ok.injEq] at ho
    obtain ⟨-, -, rfl⟩ := ho
    obtain ⟨hks, d, hd, -, hs⟩ := draft_of_hit hne
    rw [Env.after_db]
    simp only [hks]
    have hgone : (v.db.docs.erase [docId]).find? docId = none := by simp [Table.find?_erase]
    refine ⟨rfl, fun k hk => by simp [Table.find?_erase, hk], fun k hk => filter_erase_docLines hk,
      fun d' hd' => ?_, fun d' hd' => ?_, fun d' je hd' => ?_, fun ha => ?_, fun ho => ⟨fun l hl => ?_, fun d' hd' => ?_,
      fun l hl d' hd' hid hord => ?_⟩, fun d' hd' hn => ?_⟩
    · rw [hd] at hd'
      cases hd'
      simp [hs]
    · rw [hgone] at hd'
      cases hd'
    · rw [hgone] at hd'
      cases hd'
    · refine Table.erase_keysWhere_of_false fun a ha' => ?_
      have := ha a ha'
      simp only [Bool.and_eq_false_iff, decide_eq_false_iff_not]
      exact .inl (or_iff_not_imp_left.2 fun hs => this (not_not.1 hs))
    · obtain ⟨hl', hne⟩ := Table.mem_erase_keysWhere.1 hl
      obtain ⟨x, hx, hxl⟩ := ho.lines l hl'
      refine ⟨x, Table.mem_erase.2 ⟨hx, ?_⟩, hxl⟩
      simpa [hxl, Keyed.key] using hne
    · obtain ⟨hd', hne⟩ := Table.mem_erase.1 hd'
      have hne' : d'.id ≠ docId := fun e => hne (List.mem_singleton.2 e)
      have := ho.totals d' hd'
      rwa [DB.TotalsOk, ← filter_erase_docLines hne'] at this
    · exact ho.ordered l (Table.mem_erase.1 hl).1 d' (Table.mem_erase.1 hd').1 hid hord
    · rw [hd] at hd'
      cases hd'
      exact absurd hs hn

/-! ### Operations on documents -/

theorem run_createDoc {kind : DocKind} {input : DocInput} {v w : Env DB Err} {id : ℕ}
    (h : (createDoc kind input).run v = .ok (id, w)) (hv : Fresh v.seq v.db) : DocEdit id v.db w.db := by
  obtain ⟨id', v₁, h₁, h⟩ := Prog.run_bind_ok.1 h
  obtain ⟨u, v₂, h₂, h⟩ := Prog.run_bind_ok.1 h
  obtain ⟨rfl, rfl⟩ := Prog.run_pure_ok.1 h
  obtain ⟨he, hd⟩ := run_insertHeader h₁ hv
  exact he.trans (run_insertLinesOf h₂ (Prog.run_keeps Fresh.mono (allFresh_insertHeader _ _) h₁ hv) hd)

theorem run_refuseOrderLinked {kind : DocKind} {docId : ℕ} {v w : Env DB Err} {u : Unit}
    (h : (refuseOrderLinked kind docId).run v = .ok (u, w)) : w.db = v.db ∧ v.seq ≤ w.seq := by
  refine ⟨?_, Prog.run_seq_le h⟩
  unfold refuseOrderLinked at h
  split at h
  · obtain ⟨b, v₁, h₁, h⟩ := Prog.run_bind_ok.1 h
    obtain ⟨-, rfl⟩ := Prog.run_read_ok.1 h₁
    obtain ⟨-, rfl⟩ := Prog.run_require_ok.1 h
    rfl
  · obtain ⟨-, rfl⟩ := Prog.run_pure_ok.1 h
    rfl

theorem not_run_notFoundOrNotDraft {α : Type} {noun : String} {id : ℕ} {f : DB → Option DocStatus} {v w : Env DB Err}
    {a : α} : ¬ (notFoundOrNotDraft noun id f).run v = .ok (a, w) := by
  intro h
  obtain ⟨s, v₁, -, h⟩ := Prog.run_bind_ok.1 h
  split at h
  · exact Prog.run_throw_ok h
  · exact Prog.run_throw_ok h

theorem run_updateDoc {kind : DocKind} {docId : ℕ} {input : DocInput} {v w : Env DB Err} {u : Unit}
    (h : (updateDoc kind docId input).run v = .ok (u, w)) (hv : Fresh v.seq v.db) : DocEdit docId v.db w.db := by
  obtain ⟨u₁, v₁, h₁, h⟩ := Prog.run_bind_ok.1 h
  obtain ⟨k, v₂, h₂, h⟩ := Prog.run_bind_ok.1 h
  obtain ⟨hdb, hseq⟩ := run_refuseOrderLinked h₁
  have hv₁ : Fresh v₁.seq v₁.db := hdb ▸ hv.mono _ _ _ hseq
  split at h
  · exact absurd h not_run_notFoundOrNotDraft
  · rename_i hk
    obtain ⟨u₃, v₃, h₃, h⟩ := Prog.run_bind_ok.1 h
    obtain ⟨he₂, hd₂⟩ := run_updateHeader h₂ hk
    obtain ⟨he₃, hd₃⟩ := run_deleteDocLines h₃ hd₂
    have hv₃ := Prog.run_keeps Fresh.mono (allFresh_deleteDocLines _) h₃
      (Prog.run_keeps Fresh.mono (allFresh_updateHeader _ _ _) h₂ hv₁)
    exact hdb ▸ he₂.trans (he₃.trans (run_insertLinesOf h hv₃ hd₃))

theorem run_deleteDoc {kind : DocKind} {docId : ℕ} {v w : Env DB Err} {u : Unit}
    (h : (deleteDoc kind docId).run v = .ok (u, w)) : DocEdit docId v.db w.db := by
  obtain ⟨k, v₁, h₁, h⟩ := Prog.run_bind_ok.1 h
  split at h
  · exact absurd h not_run_notFoundOrNotDraft
  · rename_i hk
    obtain ⟨-, rfl⟩ := Prog.run_pure_ok.1 h
    exact run_deleteHeader h₁ hk

/-! ### Orders -/

theorem docOf_eq_some {db : DB} {kind : DocKind} {id : ℕ} {d : Doc} :
    db.docOf kind id = some d ↔ db.docs.find? id = some d ∧ d.kind = kind := by
  simp [DB.docOf, Option.filter_eq_some_iff]

theorem run_orderStatus {side : Side} {id : ℕ} {v w : Env DB Err} {s : DocStatus}
    (h : (orderStatus side id).run v = .ok (s, w)) :
    (∃ d, v.db.docOf side.order id = some d ∧ d.status = s) ∧ w.db = v.db := by
  obtain ⟨hs, rfl⟩ := Prog.run_query_ok.1 h
  refine ⟨?_, rfl⟩
  split at hs
  · cases hs
  · rename_i d hd
    cases hs
    exact ⟨d, hd, rfl⟩

theorem run_updateDocRow {kind : DocKind} {id : ℕ} {f : Doc → Doc} {hf : ∀ d, (f d).id = d.id} {v w : Env DB Err}
    {u : Unit} (h : (updateDocRow kind id f hf).run v = .ok (u, w)) :
    w.db = { v.db with docs := v.db.docs.update (v.db.docs.hit id (·.kind = kind)) f hf } ∧ w.checks = v.checks := by
  obtain ⟨o, ho, -, rfl⟩ := Prog.run_exec_ok.1 h
  cases ho
  exact ⟨rfl, List.append_nil _⟩

/-- A new status of an order that is not posted. -/
theorem run_withStatus {kind : DocKind} {id : ℕ} {s : DocStatus} {d : Doc} {v w : Env DB Err} {u : Unit}
    (h : (updateDocRow kind id (·.withStatus s)).run v = .ok (u, w)) (hs : s ≠ .posted) (hs' : s ≠ .draft)
    (hd : v.db.docOf kind id = some d) (ho : d.status ≠ .posted) : DocEdit id v.db w.db := by
  rw [(run_updateDocRow h).1]
  obtain ⟨hd, hk⟩ := docOf_eq_some.1 hd
  rw [Table.hit_of_find? hd (by simpa using hk)]
  exact .header _ hd ho hs (fun _ => ⟨rfl, hs'⟩) rfl rfl ⟨rfl, rfl, rfl⟩

theorem run_confirm {side : Side} {id : ℕ} {v w : Env DB Err} {u : Unit}
    (h : (confirm side id).run v = .ok (u, w)) : DocEdit id v.db w.db := by
  obtain ⟨s, v₁, h₁, h⟩ := Prog.run_bind_ok.1 h
  obtain ⟨u₂, v₂, h₂, h⟩ := Prog.run_bind_ok.1 h
  obtain ⟨n, v₃, h₃, h⟩ := Prog.run_bind_ok.1 h
  obtain ⟨u₄, v₄, h₄, h⟩ := Prog.run_bind_ok.1 h
  obtain ⟨⟨d, hd, hs⟩, e₁⟩ := run_orderStatus h₁
  obtain ⟨hdraft, rfl⟩ := Prog.run_require_ok.1 h₂
  obtain ⟨-, rfl⟩ := Prog.run_read_ok.1 h₃
  obtain ⟨-, rfl⟩ := Prog.run_require_ok.1 h₄
  rw [← e₁] at hd ⊢
  rw [of_decide_eq_true hdraft] at hs
  exact run_withStatus (v := v₂.tick) h (by simp) (by simp) hd (by simp [hs])

theorem run_closeOrder {side : Side} {id : ℕ} {v w : Env DB Err} {u : Unit}
    (h : (closeOrder side id).run v = .ok (u, w)) : DocEdit id v.db w.db := by
  obtain ⟨s, v₁, h₁, h⟩ := Prog.run_bind_ok.1 h
  obtain ⟨u₂, v₂, h₂, h'⟩ := Prog.run_bind_ok.1 h
  obtain ⟨⟨d, hd, hs⟩, e₁⟩ := run_orderStatus h₁
  obtain ⟨hopen, rfl⟩ := Prog.run_require_ok.1 h₂
  rw [← e₁] at hd ⊢
  rw [of_decide_eq_true hopen] at hs
  exact run_withStatus (v := v₂) h' (by simp) (by simp) hd (by simp [hs])

theorem run_cancel {side : Side} {id : ℕ} {v w : Env DB Err} {u : Unit}
    (h : (cancel side id).run v = .ok (u, w)) : DocEdit id v.db w.db := by
  obtain ⟨s, v₁, h₁, h⟩ := Prog.run_bind_ok.1 h
  obtain ⟨⟨d, hd, hs⟩, e₁⟩ := run_orderStatus h₁
  rw [← e₁] at hd ⊢
  split at h
  · exact run_withStatus (v := v₁) h (by simp) (by simp) hd (by simp [hs])
  · obtain ⟨b, v₂, h₂, h⟩ := Prog.run_bind_ok.1 h
    obtain ⟨u₃, v₃, h₃, h⟩ := Prog.run_bind_ok.1 h
    obtain ⟨-, rfl⟩ := Prog.run_read_ok.1 h₂
    obtain ⟨-, rfl⟩ := Prog.run_require_ok.1 h₃
    exact run_withStatus (v := v₁.tick) h (by simp) (by simp) hd (by simp [hs])
  · exact absurd h Prog.run_throw_ok

theorem run_fromOrder {side : Side} {id docId : ℕ} {input : FromOrderInput} {v w : Env DB Err}
    (h : (fromOrder side id input).run v = .ok (docId, w)) (hv : Fresh v.seq v.db) : DocEdit docId v.db w.db := by
  obtain ⟨o, v₁, h₁, h⟩ := Prog.run_bind_ok.1 h
  obtain ⟨-, rfl⟩ := Prog.run_read_ok.1 h₁
  have hv₁ : Fresh v.tick.seq v.tick.db := hv.mono _ _ _ (Env.le_tick_seq v)
  split at h
  · obtain ⟨s, v₂, -, h⟩ := Prog.run_bind_ok.1 h
    exact absurd h Prog.run_throw_ok
  · obtain ⟨id', v₂, h₂, h⟩ := Prog.run_bind_ok.1 h
    obtain ⟨n, v₃, h₃, h⟩ := Prog.run_bind_ok.1 h
    obtain ⟨u₄, v₄, h₄, h'⟩ := Prog.run_bind_ok.1 h
    obtain ⟨-, rfl⟩ := Prog.run_require_ok.1 h₄
    obtain ⟨rfl, rfl⟩ := Prog.run_pure_ok.1 h'
    obtain ⟨he, hd⟩ := run_insertHeader h₂ hv₁
    exact he.trans (run_insertDocLines h₃ (Prog.run_keeps Fresh.mono (allFresh_insertHeader _ _) h₂ hv₁) hd).1

/-! ### Payments -/

/-- Only the payment `id`, which is not posted, changes. -/
structure PaymentEdit (id : ℕ) (db db' : DB) : Prop where
  eq : db' = { db with payments := db'.payments, applications := db'.applications }
  others : ∀ k, k ≠ id → db'.payments.find? k = db.payments.find? k
  old : ∀ p, db.payments.find? id = some p → p.status ≠ .posted
  new : ∀ p, db'.payments.find? id = some p → p.status ≠ .posted
  link : ∀ p je, db'.payments.find? id = some p → p.journalEntryId = some je →
    (db.payments.find? id).bind (·.journalEntryId) = some je
  period : ∀ p n, db'.payments.find? id = some p → p.periodId = some n →
    (db.payments.find? id).bind (·.periodId) = some n
  amount : ∀ p, db'.payments.find? id = some p → 0 < p.amount
  apps : (∀ a ∈ db.applications, a.settler = .payment → a.settlerId ≠ id) → db'.applications = db.applications

theorem amount_pos_of_paymentCheck {db : DB} {side : Side} {input : PaymentInput} {u : Unit}
    (h : db.paymentCheck side input = .ok u) : 0 < input.amount := by
  simp only [DB.paymentCheck, Except.bind_eq_ok_iff, ensure_eq_ok] at h
  obtain ⟨-, -, -, hpos, -⟩ := h
  simpa using hpos

theorem run_createPayment {side : Side} {input : PaymentInput} {v w : Env DB Err} {id : ℕ}
    (h : (createPayment side input).run v = .ok (id, w)) (hv : Fresh v.seq v.db) : PaymentEdit id v.db w.db := by
  obtain ⟨o, ho, rfl, rfl⟩ := Prog.run_exec_ok.1 h
  simp only [Except.bind_eq_ok_iff, Except.ok.injEq] at ho
  obtain ⟨u, hc, rfl⟩ := ho
  have hfree : v.db.payments.Free (input.row side (v.seq + v.gaps 0)).id := hv.payments.free (Nat.le_add_right ..)
  have hself := Table.find?_insert_self hfree
  refine ⟨rfl, fun k hk => Table.find?_insert_of_ne (Ne.symm hk), fun p hp => ?_, fun p hp => ?_,
    fun p je hp hje => ?_, fun p n hp hn => ?_, fun p hp => ?_, fun _ => rfl⟩
  · have := (Table.free_iff_find?.1 hfree).symm.trans hp
    cases this
  · obtain rfl := Option.some.inj (hself.symm.trans hp)
    simp [PaymentInput.row]
  · obtain rfl := Option.some.inj (hself.symm.trans hp)
    cases hje
  · obtain rfl := Option.some.inj (hself.symm.trans hp)
    cases hn
  · obtain rfl := Option.some.inj (hself.symm.trans hp)
    exact amount_pos_of_paymentCheck hc

theorem draftPayment_of_hit {db : DB} {side : Side} {id : ℕ} (h : db.payments.hit id (draftPayment side) ≠ []) :
    db.payments.hit id (draftPayment side) = [id] ∧ ∃ p, db.payments.find? id = some p ∧ p.status = .draft := by
  obtain ⟨hk, p, hp, hd⟩ := Table.hit_ne_nil h
  simp only [draftPayment, Bool.and_eq_true, decide_eq_true_eq] at hd
  exact ⟨hk, p, hp, hd.2⟩

theorem run_updatePayment {side : Side} {id : ℕ} {input : PaymentInput} {v w : Env DB Err} {u : Unit}
    (h : (updatePayment side id input).run v = .ok (u, w)) : PaymentEdit id v.db w.db := by
  obtain ⟨k, v₁, h₁, h⟩ := Prog.run_bind_ok.1 h
  obtain ⟨o, ho, rfl, rfl⟩ := Prog.run_exec_ok.1 h₁
  split at h
  · exact absurd h not_run_notFoundOrNotDraft
  rename_i hk
  obtain ⟨-, rfl⟩ := Prog.run_pure_ok.1 h
  dsimp only at ho
  split at ho
  · cases ho
    exact absurd rfl hk
  · rename_i hne
    simp only [Except.bind_eq_ok_iff, Except.ok.injEq] at ho
    obtain ⟨u, hc, rfl⟩ := ho
    obtain ⟨hks, p, hp, hs⟩ := draftPayment_of_hit hne
    rw [Env.after_db]
    simp only [hks]
    have hkey : ∀ p : Payment, Keyed.key (p.edited input) = Keyed.key p := fun _ => rfl
    have hself := Table.find?_update_self hkey hp
    refine ⟨rfl, fun k hk => Table.find?_update_of_notMem hkey (by simpa using hk), fun p' hp' => ?_,
      fun p' hp' => ?_, fun p' je hp' hje => ?_, fun p' n hp' hn => ?_, fun p' hp' => ?_, fun _ => rfl⟩
    · rw [hp] at hp'
      cases hp'
      simp [hs]
    · rw [hself] at hp'
      cases hp'
      simp [Payment.edited, hs]
    · rw [hself] at hp'
      cases hp'
      rw [hp]
      exact hje
    · rw [hself] at hp'
      cases hp'
      rw [hp]
      exact hn
    · rw [hself] at hp'
      cases hp'
      exact amount_pos_of_paymentCheck hc

theorem run_deletePayment {side : Side} {id : ℕ} {v w : Env DB Err} {u : Unit}
    (h : (deletePayment side id).run v = .ok (u, w)) : PaymentEdit id v.db w.db := by
  obtain ⟨k, v₁, h₁, h⟩ := Prog.run_bind_ok.1 h
  obtain ⟨o, ho, rfl, rfl⟩ := Prog.run_exec_ok.1 h₁
  split at h
  · exact absurd h not_run_notFoundOrNotDraft
  rename_i hk
  obtain ⟨-, rfl⟩ := Prog.run_pure_ok.1 h
  dsimp only at ho
  split at ho
  · cases ho
    exact absurd rfl hk
  · rename_i hne
    cases ho
    obtain ⟨hks, p, hp, hs⟩ := draftPayment_of_hit hne
    rw [Env.after_db]
    simp only [hks]
    have hgone : (v.db.payments.erase [id]).find? id = none := by simp [Table.find?_erase]
    refine ⟨rfl, fun k hk => by simp [Table.find?_erase, hk], fun p' hp' => ?_, fun p' hp' => ?_,
      fun p' je hp' => ?_, fun p' n hp' => ?_, fun p' hp' => ?_, fun ha => ?_⟩
    · rw [hp] at hp'
      cases hp'
      simp [hs]
    · rw [hgone] at hp'
      cases hp'
    · rw [hgone] at hp'
      cases hp'
    · rw [hgone] at hp'
      cases hp'
    · rw [hgone] at hp'
      cases hp'
    · refine Table.erase_keysWhere_of_false fun a ha' => ?_
      simpa using ha a ha'

/-! ### Stock movements -/

/-- Only movements without an entry change, and none gets one. -/
structure MovementEdit (db db' : DB) : Prop where
  eq : db' = { db with movements := db'.movements }
  link : ∀ k, (db'.movements.find? k).bind (·.journalEntryId) = (db.movements.find? k).bind (·.journalEntryId)

/-- The quantity of a movement, counted as shipped or received. -/
def StockMovement.counted (side : Side) (m : StockMovement) : ℤ :=
  match side with
  | .sales => -m.quantity
  | .purchase => m.quantity

/-- The quantities of the movements linked to an order line. -/
def DB.moves (db : DB) (side : Side) (orderLineId : ℕ) : List ℤ :=
  (db.movements.rows.filter fun m => m.source = some (side, orderLineId)).map (·.counted side)

/-- What a request takes of the lines of an order. -/
def DB.picked (db : DB) (side : Side) (id : ℕ) (req : List LineQty) : List (DocLine × ℤ) :=
  pick req (db.toMove side) ((db.linesOfDoc id).filter db.isMovable)

/-- The order and the quantities that a request ships or receives. -/
def Op.fulfils : Op → Option (Side × ℕ × List LineQty)
  | .receive id input => some (.purchase, id, input.lines)
  | .ship id input => some (.sales, id, input.lines)
  | _ => none

/-- `m` is a new receipt of the order line `l` of the order `o`, at the unit price of the line and the rate of the
date. -/
structure DB.Receives (db : DB) (op : Op) (o : Doc) (l : DocLine) (m : StockMovement) : Prop where
  type : m.movementType = .receipt
  cost : ∃ input rate, op = .receive o.id input ∧ db.rateFor o.currencyCode input.movementDate = some rate ∧
    m.unitCost = toBase l.unitPrice rate

/-- `m` is a new movement of a line of the order `o`. -/
structure DB.MovesLine (db : DB) (op : Op) (side : Side) (o : Doc) (m : StockMovement) : Prop where
  unposted : m.journalEntryId = none
  line : ∃ l ∈ db.linesOfDoc o.id, m.source = some (side, l.id) ∧ (side = .purchase → db.Receives op o l m)

/-- What the operation does to the movements linked to order lines: it adds none, or those of a request for an open
order. -/
inductive MovesEdit (op : Op) (db db' : DB) : Prop where
  | fewer (h : ∀ side k, (db'.moves side k).Sublist (db.moves side k))
      (hold : ∀ m ∈ db'.movements, m.source ≠ none → m ∈ db.movements)
  | fulfil {side : Side} {id : ℕ} {req : List LineQty} (hop : op.fulfils = some (side, id, req)) {o : Doc}
      (ho : db.docOf side.order id = some o) (hs : o.status = .opened)
      (h : ∀ side' k, db'.moves side' k = db.moves side' k ++
        if side' = side then ((db.picked side id req).filter fun x => x.1.id = k).map Prod.snd else [])
      (hnew : ∀ m ∈ db'.movements, m ∈ db.movements ∨ db.MovesLine op side o m)

theorem moves_congr {db db' : DB} (h : db'.movements = db.movements) (side : Side) (k : ℕ) :
    db'.moves side k = db.moves side k := by rw [DB.moves, h, DB.moves]

/-- A change of rows that keeps which of them are taken, and what is taken of each. -/
theorem map_filter_map {α β : Type} {l : List α} {g : α → α} {p : α → Bool} {c : α → β} (hp : ∀ a ∈ l, p (g a) = p a)
    (hc : ∀ a ∈ l, p a = true → c (g a) = c a) : ((l.map g).filter p).map c = (l.filter p).map c := by
  have hfilter : l.filter (p ∘ g) = l.filter p := List.filter_congr hp
  rw [List.filter_map, List.map_map, hfilter]
  refine List.map_congr_left fun a ha => ?_
  obtain ⟨ha, hpa⟩ := List.mem_filter.1 ha
  exact hc a ha hpa

/-- A change of movements that keeps what is linked and how much. -/
theorem moves_update {db db' : DB} {ks : List ℕ} {f : StockMovement → StockMovement} (hf : ∀ m, (f m).id = m.id)
    (hm : db'.movements = db.movements.update ks f hf)
    (h : ∀ m ∈ db.movements, m.id ∈ ks → (f m).source = m.source ∧ (m.source = none ∨ (f m).quantity = m.quantity))
    (side : Side) (k : ℕ) :
    db'.moves side k = db.moves side k := by
  rw [DB.moves, hm]
  refine map_filter_map (fun m hm => ?_) fun m hm hs => ?_
  · by_cases hk : m.id ∈ ks
    · rw [if_pos (show Keyed.key m ∈ ks from hk), (h m hm hk).1]
    · rw [if_neg (show Keyed.key m ∉ ks from hk)]
  · by_cases hk : m.id ∈ ks
    · rw [if_pos (show Keyed.key m ∈ ks from hk)]
      rcases (h m hm hk).2 with hn | hq
      · rw [hn] at hs
        cases of_decide_eq_true hs
      · unfold StockMovement.counted
        rw [hq]
    · rw [if_neg (show Keyed.key m ∉ ks from hk)]

/-- New movements come after the old ones. -/
theorem moves_insertAll {db : DB} {ms : List StockMovement} (hfree : db.movements.AllFree ms) (side : Side) (k : ℕ) :
    { db with movements := db.movements.insertAll ms }.moves side k = db.moves side k ++
      (ms.filter fun m => m.source = some (side, k)).map (·.counted side) := by
  show ((db.movements.insertAll ms).rows.filter _).map _ = _
  rw [Table.rows_insertAll hfree, List.filter_append, List.map_append]
  rfl

theorem run_createMovement {input : MovementInput} {v w : Env DB Err} {id : ℕ}
    (h : (CreateStockMovement input).run v = .ok (id, w)) (hv : Fresh v.seq v.db) :
    MovementEdit v.db w.db ∧ (∀ side k, (w.db.moves side k).Sublist (v.db.moves side k)) ∧
      ∀ m ∈ w.db.movements, m.source ≠ none → m ∈ v.db.movements := by
  obtain ⟨o, ho, rfl, rfl⟩ := Prog.run_exec_ok.1 h
  simp only [Except.bind_eq_ok_iff, Except.ok.injEq] at ho
  obtain ⟨-, -, rfl⟩ := ho
  have hfree : v.db.movements.Free (Keyed.key (input.row (v.seq + v.gaps 0) none)) := hv.movements.free (Nat.le_add_right ..)
  refine ⟨⟨rfl, fun k => ?_⟩, fun side k => ?_, fun m hm hs => ?_⟩
  · rw [Env.after_db, Table.find?_insert hfree]
    split
    · rename_i e
      rw [← e, Table.free_iff_find?.1 hfree]
      rfl
    · rfl
  · -- the new movement is linked to no order line
    show ((v.db.movements.insert _).rows.filter _ |>.map _).Sublist _
    rw [Table.rows_insert hfree, List.filter_append, List.filter_singleton]
    simp [MovementInput.row, DB.moves]
  · rcases (Table.mem_insert hfree).1 hm with hm | rfl
    · exact hm
    · exact absurd rfl hs

theorem mem_movementRows {n : ℕ} {xs : List (MovementInput × Side × ℕ)} :
    ∀ m ∈ movementRows n xs, ∃ x ∈ xs, m = x.1.row m.id (some x.2) := by
  induction xs generalizing n with
  | nil => intro m hm; cases hm
  | cons x xs ih =>
    intro m hm
    rcases List.mem_cons.1 hm with rfl | hm
    · exact ⟨x, List.mem_cons_self .., rfl⟩
    · obtain ⟨y, hy, h⟩ := ih m hm
      exact ⟨y, List.mem_cons_of_mem _ hy, h⟩

theorem movementRows_unlinked {n : ℕ} {xs : List (MovementInput × Side × ℕ)} :
    ∀ m ∈ movementRows n xs, m.journalEntryId = none := by
  intro m hm
  obtain ⟨x, -, h⟩ := mem_movementRows m hm
  rw [h]
  rfl

/-- New movements have no entry. -/
theorem link_insertAll {t : Table StockMovement} {ms : List StockMovement} (hfree : t.AllFree ms)
    (hms : ∀ m ∈ ms, m.journalEntryId = none) (k : ℕ) :
    ((t.insertAll ms).find? k).bind (·.journalEntryId) = (t.find? k).bind (·.journalEntryId) := by
  by_cases hk : ∃ m ∈ ms, m.id = k
  · obtain ⟨m, hm, rfl⟩ := hk
    have hmem : m ∈ t.insertAll ms := (Table.mem_insertAll hfree).2 (.inr hm)
    have e₁ : (t.insertAll ms).find? m.id = some m := Table.find?_key hmem
    have e₂ : t.find? m.id = none := Table.free_iff_find?.1 (hfree.2 m hm)
    rw [e₁, e₂]
    exact hms m hm
  · rw [Table.find?_insertAll_of_ne fun m hm e => hk ⟨m, hm, e⟩]

theorem filter_movementRows {n : ℕ} {xs : List (MovementInput × Side × ℕ)} (side : Side) (k : ℕ) :
    ((movementRows n xs).filter fun m => m.source = some (side, k)).map (·.counted side) =
      (xs.filter fun x => x.2 = (side, k)).map fun x => (x.1.row 0 none).counted side := by
  induction xs generalizing n with
  | nil => rfl
  | cons x xs ih =>
    obtain ⟨input, source⟩ := x
    simp only [movementRows, List.filter_cons, MovementInput.row, Option.some.injEq]
    split
    · rw [List.map_cons, List.map_cons, ih]
      rfl
    · exact ih

theorem run_insertMovements {select : DB → List (MovementInput × Side × ℕ)} {v w : Env DB Err} {ids : List ℕ}
    (h : (insertMovements select).run v = .ok (ids, w)) (hv : Fresh v.seq v.db) :
    MovementEdit v.db w.db ∧ (∀ side k, w.db.moves side k = v.db.moves side k ++
      ((select v.db).filter fun x => x.2 = (side, k)).map fun x => (x.1.row 0 none).counted side) ∧
      ∀ m ∈ w.db.movements, m ∈ v.db.movements ∨ ∃ x ∈ select v.db, m = x.1.row m.id (some x.2) := by
  obtain ⟨o, ho, -, rfl⟩ := Prog.run_exec_ok.1 h
  simp only [Except.bind_eq_ok_iff, Except.ok.injEq] at ho
  obtain ⟨-, -, rfl⟩ := ho
  have hfree := (hv.movements.mono (Nat.le_add_right _ (v.gaps 0))).allFree (map_id_movementRows _ (select v.db))
  refine ⟨⟨rfl, fun k => link_insertAll hfree movementRows_unlinked k⟩, fun side k => ?_, fun m hm => ?_⟩
  · rw [← filter_movementRows (n := v.seq + v.gaps 0)]
    exact moves_insertAll hfree side k
  · exact ((Table.mem_insertAll hfree).1 hm).imp id (mem_movementRows m)

theorem not_run_stockMovementWriteError {α : Type} {id : ℕ} {b : Bool} {v w : Env DB Err} {a : α} :
    ¬ (stockMovementWriteError id b).run v = .ok (a, w) := by
  intro h
  obtain ⟨m, v₁, -, h⟩ := Prog.run_bind_ok.1 h
  split at h
  · exact Prog.run_throw_ok h
  · split at h
    · exact Prog.run_throw_ok h
    · split at h
      · exact Prog.run_throw_ok h
      · exact Prog.run_throw_ok h

theorem run_updateMovement {id : ℕ} {input : MovementInput} {v w : Env DB Err} {u : Unit}
    (h : (UpdateStockMovement id input).run v = .ok (u, w)) :
    MovementEdit v.db w.db ∧ (∀ side k, (w.db.moves side k).Sublist (v.db.moves side k)) ∧
      ∀ m ∈ w.db.movements, m.source ≠ none → m ∈ v.db.movements := by
  obtain ⟨k, v₁, h₁, h⟩ := Prog.run_bind_ok.1 h
  obtain ⟨o, ho, rfl, rfl⟩ := Prog.run_exec_ok.1 h₁
  split at h
  · exact absurd h not_run_stockMovementWriteError
  obtain ⟨-, rfl⟩ := Prog.run_pure_ok.1 h
  dsimp only at ho
  split at ho
  · cases ho
    exact ⟨⟨rfl, fun _ => rfl⟩, fun _ _ => List.Sublist.refl _, fun _ hm _ => hm⟩
  · simp only [Except.bind_eq_ok_iff, Except.ok.injEq] at ho
    obtain ⟨-, -, rfl⟩ := ho
    have hkey : ∀ m : StockMovement, Keyed.key (m.edited input) = Keyed.key m := fun _ => rfl
    refine ⟨⟨rfl, fun k => ?_⟩, fun side k => ?_, fun m hm hs => ?_⟩
    · refine (congrArg (·.bind (·.journalEntryId)) (Table.find?_update hkey _ _ k)).trans ?_
      cases v.db.movements.find? k with
      | none => rfl
      | some m =>
        simp only [Option.map_some, Option.bind_some]
        split <;> rfl
    · -- the movements that an edit selects are linked to no order line
      have hsame : ∀ m ∈ v.db.movements, m.id ∈ v.db.movements.hit id (fun m => m.journalEntryId = none && m.source = none) →
          (m.edited input).source = m.source ∧ (m.source = none ∨ (m.edited input).quantity = m.quantity) := by
        intro m hm hk
        obtain ⟨rfl, x, hx, hp⟩ := Table.mem_hit.1 hk
        obtain rfl : m = x := Option.some.inj ((Table.find?_key hm).symm.trans hx)
        simp only [Bool.and_eq_true, decide_eq_true_eq] at hp
        exact ⟨rfl, .inl hp.2⟩
      exact (congrArg (List.Sublist · _) (moves_update (by intro; rfl) rfl hsame side k)).mpr (List.Sublist.refl _)
    · rcases Table.mem_update_cases hkey hm with ⟨hm, -⟩ | ⟨x, hx, hk, rfl⟩
      · exact hm
      · obtain ⟨rfl, y, hy, hp⟩ := Table.mem_hit.1 hk
        obtain rfl : x = y := Option.some.inj ((Table.find?_key hx).symm.trans hy)
        simp only [Bool.and_eq_true, decide_eq_true_eq] at hp
        exact absurd hp.2 hs

theorem run_deleteMovement {id : ℕ} {v w : Env DB Err} {u : Unit}
    (h : (DeleteStockMovement id).run v = .ok (u, w)) :
    MovementEdit v.db w.db ∧ (∀ side k, (w.db.moves side k).Sublist (v.db.moves side k)) ∧
      ∀ m ∈ w.db.movements, m.source ≠ none → m ∈ v.db.movements := by
  obtain ⟨k, v₁, h₁, h⟩ := Prog.run_bind_ok.1 h
  obtain ⟨o, ho, rfl, rfl⟩ := Prog.run_exec_ok.1 h₁
  split at h
  · exact absurd h not_run_stockMovementWriteError
  obtain ⟨-, rfl⟩ := Prog.run_pure_ok.1 h
  cases ho
  refine ⟨⟨rfl, fun k => ?_⟩, fun side k => ?_, fun m hm _ => (Table.mem_erase.1 hm).1⟩
  · simp only [Env.after_db, Table.find?_erase]
    split
    · rename_i hk
      obtain ⟨rfl, m, hm, hje⟩ := Table.mem_hit.1 hk
      rw [hm]
      simpa using (of_decide_eq_true hje).symm
    · rfl
  · exact (List.filter_sublist.filter _).map _

/-- The rows of a request for the order are its picks. -/
theorem filter_picked {xs : List (DocLine × ℤ)} {side side' : Side} {k : ℕ} {f : DocLine × ℤ → MovementInput}
    (hf : ∀ x, ((f x).row 0 none).counted side = x.2) :
    ((xs.map fun x => (f x, side, x.1.id)).filter fun x => x.2 = (side', k)).map
        (fun x => (x.1.row 0 none).counted side') =
      if side' = side then (xs.filter fun x => x.1.id = k).map Prod.snd else [] := by
  rw [List.filter_map, List.map_map]
  by_cases hs : side' = side
  · subst hs
    rw [if_pos rfl]
    refine (List.map_congr_left fun x _ => hf x).trans (congrArg _ (List.filter_congr fun x _ => ?_))
    simp
  · rw [if_neg hs, List.map_eq_nil_iff, List.filter_eq_nil_iff]
    intro x _ hx
    simp only [Function.comp_apply, decide_eq_true_eq, Prod.mk.injEq] at hx
    exact hs hx.1.symm

theorem fst_of_mem_pickLine {req : List LineQty} {left : DocLine → ℤ} {l : DocLine} {x : DocLine × ℤ}
    (h : x ∈ pickLine req left l) : x.1 = l := by
  unfold pickLine at h
  split at h
  · rw [List.mem_singleton.1 h]
  · split at h
    · rw [List.mem_singleton.1 h]
    · obtain ⟨r, -, rfl⟩ := List.mem_map.1 h
      rfl

theorem mem_of_mem_pick {req : List LineQty} {left : DocLine → ℤ} {ls : List DocLine} {x : DocLine × ℤ}
    (h : x ∈ pick req left ls) : x.1 ∈ ls ∧ 0 < x.2 := by
  obtain ⟨h, hpos⟩ := List.mem_filter.1 h
  obtain ⟨l, hl, hx⟩ := List.mem_flatMap.1 h
  exact ⟨fst_of_mem_pickLine hx ▸ hl, of_decide_eq_true hpos⟩

theorem run_requireOpenOrder {side : Side} {id : ℕ} {v w : Env DB Err} {u : Unit}
    (h : (requireOpenOrder side id).run v = .ok (u, w)) :
    w.db = v.db ∧ v.seq ≤ w.seq ∧ ∃ o, v.db.docOf side.order id = some o ∧ o.status = .opened := by
  obtain ⟨s, v₁, h₁, hreq⟩ := Prog.run_bind_ok.1 h
  obtain ⟨⟨o, ho, hs⟩, e₁⟩ := run_orderStatus h₁
  obtain ⟨hopen, rfl⟩ := Prog.run_require_ok.1 hreq
  exact ⟨e₁, Prog.run_seq_le h₁, o, ho, hs.trans (of_decide_eq_true hopen)⟩

theorem run_receive {id : ℕ} {input : MoveInput} {v w : Env DB Err} {ids : List ℕ}
    (h : (ReceivePurchaseOrder id input).run v = .ok (ids, w)) (hv : Fresh v.seq v.db) :
    MovementEdit v.db w.db ∧ MovesEdit (.receive id input) v.db w.db := by
  obtain ⟨u₁, v₁, h₁, h⟩ := Prog.run_bind_ok.1 h
  obtain ⟨rate, v₂, h₂, h⟩ := Prog.run_bind_ok.1 h
  obtain ⟨hrate, rfl⟩ := Prog.run_read_ok.1 h₂
  obtain ⟨e₁, hseq, o, ho, hs⟩ := run_requireOpenOrder h₁
  have hv₂ : Fresh v₁.tick.seq v₁.tick.db :=
    Env.tick_db v₁ ▸ e₁ ▸ hv.mono _ _ _ (hseq.trans (Env.le_tick_seq v₁))
  split at h
  · exact absurd h Prog.run_throw_ok
  · rename_i rate
    obtain ⟨ids', v₄, h₄, h⟩ := Prog.run_bind_ok.1 h
    obtain ⟨u₅, v₅, h₅, h'⟩ := Prog.run_bind_ok.1 h
    obtain ⟨-, rfl⟩ := Prog.run_require_ok.1 h₅
    obtain ⟨-, rfl⟩ := Prog.run_pure_ok.1 h'
    obtain ⟨hm, hmoves, hrows⟩ := run_insertMovements h₄ hv₂
    rw [Env.tick_db, e₁] at hm hmoves hrows
    have hid : o.id = id := Table.key_of_find? (docOf_eq_some.1 ho).1
    have hrate' : v.db.rateFor o.currencyCode input.movementDate = some rate := by
      rw [e₁, show v.db.docOf .purchaseOrder id = some o from ho, Option.bind_some] at hrate
      exact hrate.symm
    refine ⟨hm, .fulfil rfl ho hs (fun side' k => (hmoves side' k).trans (congrArg _ (filter_picked fun _ => rfl)))
      fun m hm => (hrows m hm).imp_right fun ⟨x, hx, hxm⟩ => ?_⟩
    obtain ⟨y, hy, rfl⟩ := List.mem_map.1 hx
    obtain ⟨hline, -⟩ := mem_of_mem_pick hy
    rw [hxm]
    refine ⟨rfl, y.1, hid.symm ▸ (List.mem_filter.1 hline).1, rfl, fun _ => ⟨rfl, input, rate, by rw [hid], hrate', rfl⟩⟩

theorem run_ship {id : ℕ} {input : MoveInput} {v w : Env DB Err} {ids : List ℕ}
    (h : (ShipSalesOrder id input).run v = .ok (ids, w)) (hv : Fresh v.seq v.db) :
    MovementEdit v.db w.db ∧ MovesEdit (.ship id input) v.db w.db := by
  obtain ⟨u₁, v₁, h₁, h⟩ := Prog.run_bind_ok.1 h
  obtain ⟨e₁, hseq, o, ho, hs⟩ := run_requireOpenOrder h₁
  obtain ⟨ids', v₄, h₄, h⟩ := Prog.run_bind_ok.1 h
  obtain ⟨u₅, v₅, h₅, h'⟩ := Prog.run_bind_ok.1 h
  obtain ⟨-, rfl⟩ := Prog.run_require_ok.1 h₅
  obtain ⟨-, rfl⟩ := Prog.run_pure_ok.1 h'
  obtain ⟨hm, hmoves, hrows⟩ := run_insertMovements h₄ (e₁ ▸ hv.mono _ _ _ hseq)
  rw [e₁] at hm hmoves hrows
  have hid : o.id = id := Table.key_of_find? (docOf_eq_some.1 ho).1
  refine ⟨hm, .fulfil rfl ho hs (fun side' k => (hmoves side' k).trans (congrArg _ (filter_picked fun x => neg_neg x.2)))
    fun m hm => (hrows m hm).imp_right fun ⟨x, hx, hxm⟩ => ?_⟩
  obtain ⟨y, hy, rfl⟩ := List.mem_map.1 hx
  obtain ⟨hline, -⟩ := mem_of_mem_pick hy
  rw [hxm]
  exact ⟨rfl, y.1, hid.symm ▸ (List.mem_filter.1 hline).1, rfl, fun hs => nomatch hs⟩
