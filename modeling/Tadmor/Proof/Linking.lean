import Tadmor.Proof.Drafts

/-!
# Order links

What the operations on documents do to orders and to the lines that fulfil them: a draft is edited, an order moves to
its next status, or an open order is invoiced.  Only the last links lines.
-/

/-- The moves of an order: it is confirmed, then closed, or cancelled before that. -/
inductive OrderMove : DocStatus → DocStatus → Prop where
  | confirm : OrderMove .draft .opened
  | close : OrderMove .opened .closed
  | cancelDraft : OrderMove .draft .cancelled
  | cancelOpen : OrderMove .opened .cancelled

/-- The order line that a line fulfils is one of the order `id`, with its price and its account. -/
def DB.Fulfils (db : DB) (id : ℕ) (l : DocLine) : Prop :=
  0 < l.quantity ∧ ∃ ol ∈ db.linesOfDoc id, l.orderLineId = some ol.id ∧ l.unitPrice = ol.unitPrice ∧
    l.accountId = ol.accountId

/-- What an operation on documents does: it edits the draft `id`, moves the order `id`, or invoices an open order with
the new document `id`. -/
inductive DocsEdit (id : ℕ) (db db' : DB) : Prop where
  | draft (old : ∀ d, db.docs.find? id = some d → d.status = .draft)
      (new : ∀ d, db'.docs.find? id = some d → d.status = .draft)
      (kind : ∀ d d', db.docs.find? id = some d → db'.docs.find? id = some d' → d'.kind = d.kind)
      (unlinked : db.DocsOk → ∀ l ∈ db'.docLines, l.docId = id → l.orderLineId = none)
  | move {side : Side} {d : Doc} {s : DocStatus} (hd : db.docOf side.order id = some d) (hm : OrderMove d.status s)
      (hfree : d.status = .opened → s = .cancelled → db.anyFulfilled side id = false)
      (h : db' = { db with docs := db.docs.update [id] (·.withStatus s) fun _ => rfl })
  | invoice {side : Side} {order : ℕ} {o d : Doc} {ls : List DocLine} (ho : db.docOf side.order order = some o)
      (hs : o.status = .opened) (hfree : db.docs.Free id) (hd : db'.docs.find? id = some d) (hdraft : d.status = .draft)
      (hk : d.kind = side.invoice) (hp : d.partyId = o.partyId) (hc : d.currencyCode = o.currencyCode)
      (hl : db'.docLines.rows = db.docLines.rows ++ ls) (hls : ∀ l ∈ ls, l.docId = id ∧ db.Fulfils order l)
      (hcheck : ∀ l ∈ ls, DB.orderCheck l db' = .ok ())

/-! ### Statements -/

/-- The document `id` has new totals at most. -/
def SameHeader (id : ℕ) (db db' : DB) : Prop :=
  ∀ d, db.docs.find? id = some d → ∃ a b c, db'.docs.find? id = some (d.withTotals a b c)

theorem SameHeader.refl (id : ℕ) (db : DB) : SameHeader id db db := fun d hd => ⟨d.subtotal, d.taxTotal, d.total, hd⟩

theorem SameHeader.trans {id : ℕ} {a b c : DB} (h : SameHeader id a b) (h' : SameHeader id b c) : SameHeader id a c := by
  intro d hd
  obtain ⟨x, y, z, hd⟩ := h d hd
  obtain ⟨x', y', z', hd⟩ := h' _ hd
  exact ⟨x', y', z', hd⟩

theorem SameHeader.recompute {id : ℕ} {db : DB} {lines : Table DocLine} {f : Table Doc → Table Doc}
    (h : db.recompute id lines = .ok f) : SameHeader id db { db with docLines := lines, docs := f db.docs } := by
  intro d hd
  have hkey : ∀ d : Doc, Keyed.key (d.recomputed lines id) = Keyed.key d := fun _ => rfl
  show ∃ a b c, (f db.docs).find? id = _
  rw [recompute_eq_ok h, Table.find?_update hkey, hd, Option.map_some]
  split
  · exact ⟨_, _, _, rfl⟩
  · exact ⟨d.subtotal, d.taxTotal, d.total, rfl⟩

theorem run_insertDocLines_rows {kind : DocKind} {docId k : ℕ} {select : DB → List (ℕ × NewDocLine)} {v w : Env DB Err}
    (h : (insertDocLines kind docId select).run v = .ok (k, w)) (hv : Fresh v.seq v.db) :
    SameHeader docId v.db w.db ∧ ∃ n, w.db.docLines.rows = v.db.docLines.rows ++ numberRows docId n (select v.db) ∧
      w.checks = v.checks ++ (numberRows docId n (select v.db)).map DB.orderCheck := by
  obtain ⟨o, ho, -, rfl⟩ := Prog.run_exec_ok.1 h
  simp only [Except.bind_eq_ok_iff, ensure_eq_ok, exists_const] at ho
  obtain ⟨u, hc, -, ho⟩ := ho
  split at ho
  · rename_i hnil
    cases ho
    refine ⟨.refl _ _, v.seq + v.gaps 0, ?_, ?_⟩
    · rw [hnil, List.append_nil]
      rfl
    · rw [hnil]
      rfl
  · simp only [Except.bind_eq_ok_iff, Except.ok.injEq] at ho
    obtain ⟨f, hf, rfl⟩ := ho
    have hfree := (hv.docLines.mono (Nat.le_add_right _ (v.gaps 0))).allFree
      (map_id_numberRows docId (v.seq + v.gaps 0) (select v.db))
    exact ⟨.recompute hf, _, Table.rows_insertAll hfree, rfl⟩

theorem orderLineId_numberRows {docId n : ℕ} {ls : List (ℕ × NewDocLine)} :
    ∀ l ∈ numberRows docId n ls, ∃ x ∈ ls, l.quantity = x.2.quantity ∧ l.orderLineId = x.2.orderLineId ∧
      l.unitPrice = x.2.unitPrice ∧ l.accountId = x.2.accountId := by
  induction ls generalizing n with
  | nil => intro l hl; cases hl
  | cons x ls ih =>
    intro l hl
    rcases List.mem_cons.1 hl with rfl | hl
    · exact ⟨x, List.mem_cons_self .., rfl, rfl, rfl, rfl⟩
    · obtain ⟨y, hy, h⟩ := ih l hl
      exact ⟨y, List.mem_cons_of_mem _ hy, h⟩

/-- The lines of a request fulfil no order. -/
theorem run_insertLinesOf_rows {kind : DocKind} {docId i : ℕ} {ls : List DocLineInput} {v w : Env DB Err} {u : Unit}
    (h : (insertLinesOf kind docId i ls).run v = .ok (u, w)) (hv : Fresh v.seq v.db) :
    SameHeader docId v.db w.db ∧
      ∃ rows, w.db.docLines.rows = v.db.docLines.rows ++ rows ∧ ∀ l ∈ rows, l.orderLineId = none := by
  induction ls generalizing i v with
  | nil =>
    obtain ⟨-, rfl⟩ := Prog.run_pure_ok.1 h
    exact ⟨.refl _ _, [], (List.append_nil _).symm, fun l hl => absurd hl List.not_mem_nil⟩
  | cons l ls ih =>
    obtain ⟨k, v₁, h₁, h⟩ := Prog.run_bind_ok.1 h
    obtain ⟨hh₁, n, hr₁, -⟩ := run_insertDocLines_rows h₁ hv
    obtain ⟨hh, rows, hr, hnone⟩ := ih h (Prog.run_keeps Fresh.mono (allFresh_insertDocLines _ _ _) h₁ hv)
    refine ⟨hh₁.trans hh, _, by rw [hr, hr₁, List.append_assoc], fun m hm => ?_⟩
    rcases List.mem_append.1 hm with hm | hm
    · obtain ⟨x, hx, -, hlink, -⟩ := orderLineId_numberRows m hm
      rw [hlink, List.mem_singleton.1 hx]
    · exact hnone m hm

theorem run_deleteDocLines_rows {docId : ℕ} {v w : Env DB Err} {u : Unit}
    (h : (deleteDocLines docId).run v = .ok (u, w)) :
    SameHeader docId v.db w.db ∧ ∀ l ∈ w.db.docLines, l.docId ≠ docId := by
  obtain ⟨o, ho, -, rfl⟩ := Prog.run_exec_ok.1 h
  simp only [Except.bind_eq_ok_iff, ensure_eq_ok, exists_const] at ho
  obtain ⟨-, ho⟩ := ho
  split at ho
  · rename_i hnil
    cases ho
    refine ⟨.refl _ _, fun l hl e => ?_⟩
    have hmem : l.id ∈ v.db.docLines.keysWhere fun l => l.docId = docId := (Table.mem_keysWhere hl).2 (decide_eq_true e)
    rw [hnil] at hmem
    cases hmem
  · simp only [Except.bind_eq_ok_iff, Except.ok.injEq] at ho
    obtain ⟨f, hf, rfl⟩ := ho
    refine ⟨.recompute hf, fun l hl e => ?_⟩
    exact (Table.mem_erase.1 hl).2 ((Table.mem_keysWhere (Table.mem_erase.1 hl).1).2 (decide_eq_true e))

/-! ### Operations -/

theorem run_insertHeader_doc {kind : DocKind} {input : DocInput} {v w : Env DB Err} {id : ℕ}
    (h : (insertHeader kind input).run v = .ok (id, w)) (hv : Fresh v.seq v.db) :
    v.db.docs.Free id ∧ w.db = { v.db with docs := v.db.docs.insert (input.header kind id) } ∧ w.checks = v.checks ∧
      w.db.docs.find? id = some (input.header kind id) := by
  obtain ⟨o, ho, rfl, rfl⟩ := Prog.run_exec_ok.1 h
  simp only [Except.bind_eq_ok_iff, Except.ok.injEq] at ho
  obtain ⟨-, -, rfl⟩ := ho
  have hfree : v.db.docs.Free (input.header kind (v.seq + v.gaps 0)).id := hv.docs.free (Nat.le_add_right ..)
  exact ⟨hfree, rfl, List.append_nil _, Table.find?_insert_self hfree⟩

theorem docsEdit_createDoc {kind : DocKind} {input : DocInput} {v w : Env DB Err} {id : ℕ}
    (h : (createDoc kind input).run v = .ok (id, w)) (hv : Fresh v.seq v.db) : DocsEdit id v.db w.db := by
  obtain ⟨id', v₁, h₁, h⟩ := Prog.run_bind_ok.1 h
  obtain ⟨u, v₂, h₂, h⟩ := Prog.run_bind_ok.1 h
  obtain ⟨rfl, rfl⟩ := Prog.run_pure_ok.1 h
  obtain ⟨hfree, hdb, -, hfind⟩ := run_insertHeader_doc h₁ hv
  obtain ⟨hh, rows, hrows, hnone⟩ := run_insertLinesOf_rows h₂ (Prog.run_keeps Fresh.mono (allFresh_insertHeader _ _) h₁ hv)
  obtain ⟨a, b, c, hfind'⟩ := hh _ hfind
  have hgone := Table.free_iff_find?.1 hfree
  refine .draft (fun d hd => ?_) (fun d hd => ?_) (fun d d' hd => ?_) fun ho l hl hid => ?_
  · rw [hgone] at hd
    cases hd
  · rw [hfind'] at hd
    cases hd
    rfl
  · rw [hgone] at hd
    cases hd
  · have hl : l ∈ v.db.docLines.rows ++ rows := by
      rw [hdb] at hrows
      exact hrows ▸ hl
    rcases List.mem_append.1 hl with hl | hl
    · obtain ⟨d, hd, hdl⟩ := ho.lines l hl
      exact absurd (hdl.trans hid) (hfree d hd)
    · exact hnone l hl

theorem docsEdit_updateDoc {kind : DocKind} {docId : ℕ} {input : DocInput} {v w : Env DB Err} {u : Unit}
    (h : (updateDoc kind docId input).run v = .ok (u, w)) (hv : Fresh v.seq v.db) : DocsEdit docId v.db w.db := by
  obtain ⟨u₁, v₁, h₁, h⟩ := Prog.run_bind_ok.1 h
  obtain ⟨k, v₂, h₂, h⟩ := Prog.run_bind_ok.1 h
  obtain ⟨hdb, hseq⟩ := run_refuseOrderLinked h₁
  have hv₁ : Fresh v₁.seq v₁.db := hdb ▸ hv.mono _ _ _ hseq
  split at h
  · exact absurd h not_run_notFoundOrNotDraft
  · rename_i hk
    obtain ⟨u₃, v₃, h₃, h⟩ := Prog.run_bind_ok.1 h
    have hv₂ := Prog.run_keeps Fresh.mono (allFresh_updateHeader _ _ _) h₂ hv₁
    obtain ⟨hh₃, hgone⟩ := run_deleteDocLines_rows h₃
    obtain ⟨hh, rows, hrows, hnone⟩ :=
      run_insertLinesOf_rows h (Prog.run_keeps Fresh.mono (allFresh_deleteDocLines _) h₃ hv₂)
    obtain ⟨d, hd, hdk, hs, hd₂⟩ : ∃ d, v₁.db.docs.find? docId = some d ∧ d.kind = kind ∧ d.status = .draft ∧
        v₂.db.docs.find? docId = some (d.edited kind input) := by
      obtain ⟨o, ho, rfl, rfl⟩ := Prog.run_exec_ok.1 h₂
      dsimp only at ho
      split at ho
      · cases ho
        exact absurd rfl hk
      · rename_i hne
        simp only [Except.bind_eq_ok_iff, Except.ok.injEq] at ho
        obtain ⟨-, -, rfl⟩ := ho
        obtain ⟨hks, d, hd, hdk, hs⟩ := draft_of_hit hne
        refine ⟨d, hd, hdk, hs, ?_⟩
        simp only [Env.after_db, hks]
        exact Table.find?_update_self (f := (·.edited kind input)) (fun _ => rfl) hd
    obtain ⟨a, b, c, hd'⟩ := hh₃.trans hh _ hd₂
    rw [hdb] at hd
    refine .draft (fun x hx => ?_) (fun x hx => ?_) (fun x y hx hy => ?_) fun _ l hl hid => ?_
    · obtain rfl := Option.some.inj (hd.symm.trans hx)
      exact hs
    · obtain rfl := Option.some.inj (hd'.symm.trans hx)
      exact hs
    · obtain rfl := Option.some.inj (hd.symm.trans hx)
      obtain rfl := Option.some.inj (hd'.symm.trans hy)
      rfl
    · have hl : l ∈ v₃.db.docLines.rows ++ rows := hrows ▸ hl
      rcases List.mem_append.1 hl with hl | hl
      · exact absurd hid (hgone l hl)
      · exact hnone l hl

theorem docsEdit_deleteDoc {kind : DocKind} {docId : ℕ} {v w : Env DB Err} {u : Unit}
    (h : (deleteDoc kind docId).run v = .ok (u, w)) : DocsEdit docId v.db w.db := by
  obtain ⟨k, v₁, h₁, h⟩ := Prog.run_bind_ok.1 h
  split at h
  · exact absurd h not_run_notFoundOrNotDraft
  · rename_i hk
    obtain ⟨-, rfl⟩ := Prog.run_pure_ok.1 h
    obtain ⟨o, ho, rfl, rfl⟩ := Prog.run_exec_ok.1 h₁
    dsimp only at ho
    split at ho
    · cases ho
      exact absurd rfl hk
    · rename_i hne
      simp only [Except.bind_eq_ok_iff, ensure_eq_ok, exists_const, Except.ok.injEq] at ho
      obtain ⟨-, -, rfl⟩ := ho
      obtain ⟨hks, d, hd, -, hs⟩ := draft_of_hit hne
      have hgone : (v.db.docs.erase [docId]).find? docId = none := by simp [Table.find?_erase]
      rw [Env.after_db]
      simp only [hks]
      refine .draft (fun x hx => ?_) (fun x hx => ?_) (fun x y _ hy => ?_) fun _ l hl hid => ?_
      · obtain rfl := Option.some.inj (hd.symm.trans hx)
        exact hs
      · rw [hgone] at hx
        cases hx
      · rw [hgone] at hy
        cases hy
      · have hno := (Table.mem_erase_keysWhere.1 hl).2
        simp [hid] at hno

theorem docsEdit_withStatus {side : Side} {id : ℕ} {s : DocStatus} {d : Doc} {v w : Env DB Err} {u : Unit}
    (h : (updateDocRow side.order id (·.withStatus s)).run v = .ok (u, w)) (hd : v.db.docOf side.order id = some d)
    (hm : OrderMove d.status s)
    (hfree : d.status = .opened → s = .cancelled → v.db.anyFulfilled side id = false) : DocsEdit id v.db w.db := by
  refine .move hd hm hfree ?_
  obtain ⟨hfind, hk⟩ := docOf_eq_some.1 hd
  rw [(run_updateDocRow h).1, Table.hit_of_find? hfind (by simpa using hk)]

theorem docsEdit_confirm {side : Side} {id : ℕ} {v w : Env DB Err} {u : Unit}
    (h : (confirm side id).run v = .ok (u, w)) : DocsEdit id v.db w.db := by
  obtain ⟨s, v₁, h₁, h⟩ := Prog.run_bind_ok.1 h
  obtain ⟨u₂, v₂, h₂, h⟩ := Prog.run_bind_ok.1 h
  obtain ⟨n, v₃, h₃, h⟩ := Prog.run_bind_ok.1 h
  obtain ⟨u₄, v₄, h₄, h⟩ := Prog.run_bind_ok.1 h
  obtain ⟨⟨d, hd, hs⟩, e₁⟩ := run_orderStatus h₁
  obtain ⟨hdraft, rfl⟩ := Prog.run_require_ok.1 h₂
  obtain ⟨-, rfl⟩ := Prog.run_read_ok.1 h₃
  obtain ⟨-, rfl⟩ := Prog.run_require_ok.1 h₄
  rw [← e₁] at hd ⊢
  have hs := hs.trans (of_decide_eq_true hdraft)
  exact docsEdit_withStatus (v := v₂.tick) h hd (hs ▸ .confirm) (fun _ hc => nomatch hc)

theorem docsEdit_closeOrder {side : Side} {id : ℕ} {v w : Env DB Err} {u : Unit}
    (h : (closeOrder side id).run v = .ok (u, w)) : DocsEdit id v.db w.db := by
  obtain ⟨s, v₁, h₁, h⟩ := Prog.run_bind_ok.1 h
  obtain ⟨u₂, v₂, h₂, h'⟩ := Prog.run_bind_ok.1 h
  obtain ⟨⟨d, hd, hs⟩, e₁⟩ := run_orderStatus h₁
  obtain ⟨hopen, rfl⟩ := Prog.run_require_ok.1 h₂
  rw [← e₁] at hd ⊢
  have hs := hs.trans (of_decide_eq_true hopen)
  exact docsEdit_withStatus (v := v₂) h' hd (hs ▸ .close) (fun _ hc => nomatch hc)

theorem docsEdit_cancel {side : Side} {id : ℕ} {v w : Env DB Err} {u : Unit}
    (h : (cancel side id).run v = .ok (u, w)) : DocsEdit id v.db w.db := by
  obtain ⟨s, v₁, h₁, h⟩ := Prog.run_bind_ok.1 h
  obtain ⟨⟨d, hd, hs⟩, e₁⟩ := run_orderStatus h₁
  rw [← e₁] at hd ⊢
  split at h
  · exact docsEdit_withStatus (v := v₁) h hd (hs ▸ .cancelDraft) fun ho => absurd (hs.symm.trans ho) (by simp)
  · obtain ⟨b, v₂, h₂, h⟩ := Prog.run_bind_ok.1 h
    obtain ⟨u₃, v₃, h₃, h⟩ := Prog.run_bind_ok.1 h
    obtain ⟨rfl, rfl⟩ := Prog.run_read_ok.1 h₂
    obtain ⟨hfree, rfl⟩ := Prog.run_require_ok.1 h₃
    exact docsEdit_withStatus (v := v₁.tick) h hd (hs ▸ .cancelOpen) fun _ _ => by simpa using hfree
  · exact absurd h Prog.run_throw_ok

theorem mem_numberFrom {i : ℕ} {xs : List (DocLine × ℤ)} :
    ∀ y ∈ numberFrom i xs, ∃ x ∈ xs, y.2.quantity = x.2 ∧ y.2.orderLineId = some x.1.id ∧
      y.2.unitPrice = x.1.unitPrice ∧ y.2.accountId = x.1.accountId := by
  induction xs generalizing i with
  | nil => intro y hy; cases hy
  | cons x xs ih =>
    intro y hy
    rcases List.mem_cons.1 hy with rfl | hy
    · exact ⟨x, List.mem_cons_self .., rfl, rfl, rfl, rfl⟩
    · obtain ⟨x', hx', h⟩ := ih y hy
      exact ⟨x', List.mem_cons_of_mem _ hx', h⟩

/-- The lines of an invoice fulfil lines of the order. -/
theorem fulfils_of_mem_numberRows {db : DB} {id docId n i : ℕ} {req : List LineQty} {left : DocLine → ℤ} :
    ∀ r ∈ numberRows docId n (numberFrom i (pick req left (db.orderLines id))),
      r.docId = docId ∧ db.Fulfils id r := by
  intro r hr
  obtain ⟨y, hy, hq, hlink, hprice, haccount⟩ := orderLineId_numberRows r hr
  obtain ⟨x, hx, hxq, hxl, hxprice, hxaccount⟩ := mem_numberFrom y hy
  obtain ⟨hpick, hpos⟩ := List.mem_filter.1 hx
  obtain ⟨l, hl, hxol⟩ := List.mem_flatMap.1 hpick
  refine ⟨docId_numberRows r hr, ?_, x.1, ?_, hlink.trans hxl, hprice.trans hxprice, haccount.trans hxaccount⟩
  · rw [hq, hxq]
    exact of_decide_eq_true hpos
  · have hl : l ∈ db.linesOfDoc id := (List.perm_insertionSort _ _).mem_iff.1 hl
    exact fst_of_mem_pickLine hxol ▸ hl

theorem docsEdit_fromOrder {side : Side} {id docId : ℕ} {input : FromOrderInput} {v w : Env DB Err}
    (h : (fromOrder side id input).run v = .ok (docId, w)) (hv : Fresh v.seq v.db)
    (hpass : passAll w.checks w.db = .ok ()) : DocsEdit docId v.db w.db := by
  obtain ⟨o, v₁, h₁, h⟩ := Prog.run_bind_ok.1 h
  obtain ⟨rfl, rfl⟩ := Prog.run_read_ok.1 h₁
  have hv₁ : Fresh v.tick.seq v.tick.db := hv.mono _ _ _ (Env.le_tick_seq v)
  split at h
  · obtain ⟨s, v₂, -, h⟩ := Prog.run_bind_ok.1 h
    exact absurd h Prog.run_throw_ok
  · rename_i o ho
    obtain ⟨ho, hs⟩ := Option.filter_eq_some_iff.1 ho
    obtain ⟨id', v₂, h₂, h⟩ := Prog.run_bind_ok.1 h
    obtain ⟨n, v₃, h₃, h⟩ := Prog.run_bind_ok.1 h
    obtain ⟨u₄, v₄, h₄, h'⟩ := Prog.run_bind_ok.1 h
    obtain ⟨-, rfl⟩ := Prog.run_require_ok.1 h₄
    obtain ⟨rfl, rfl⟩ := Prog.run_pure_ok.1 h'
    obtain ⟨hfree, hdb, hch, hfind⟩ := run_insertHeader_doc h₂ hv₁
    obtain ⟨hh, m, hrows, hchecks⟩ :=
      run_insertDocLines_rows h₃ (Prog.run_keeps Fresh.mono (allFresh_insertHeader _ _) h₂ hv₁)
    obtain ⟨a, b, c, hfind'⟩ := hh _ hfind
    rw [hdb] at hrows hchecks
    refine .invoice ho (of_decide_eq_true hs) hfree hfind' rfl rfl rfl rfl hrows (fun l hl => ?_) fun l hl => ?_
    · exact fulfils_of_mem_numberRows l hl
    · refine passAll_eq_ok.1 hpass _ ?_
      rw [hchecks]
      exact List.mem_append_right _ (List.mem_map_of_mem hl)
