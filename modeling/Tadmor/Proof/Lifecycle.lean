import Tadmor.Proof.Fulfilment

/-!
# The lifecycle of orders

An order is confirmed, then closed, or it is cancelled before that.  From its confirmation on it stays as it is.  Only
confirmed orders have links, and the linked lines fit the order: the party, the currency and the quantity.
-/

/-- The order has been confirmed and not cancelled. -/
def Confirmed (s : DocStatus) : Prop := s = .opened ∨ s = .closed

/-- Orders are never posted, other documents are drafts or posted, and none is void. -/
def Doc.StatusOk (d : Doc) : Prop :=
  if d.kind.isOrder then d.status = .draft ∨ Confirmed d.status ∨ d.status = .cancelled
  else d.status = .draft ∨ d.status = .posted

theorem Doc.StatusOk.of_draft {d : Doc} (h : d.status = .draft) : d.StatusOk := by
  unfold Doc.StatusOk
  split
  · exact .inl h
  · exact .inl h

theorem Doc.StatusOk.not_void {d : Doc} (h : d.StatusOk) : d.status ≠ .void := by
  unfold Doc.StatusOk Confirmed at h
  split at h
  · rcases h with h | (h | h) | h <;> simp [h]
  · rcases h with h | h <;> simp [h]

/-- The quantities of the lines that fulfil an order line. -/
def DB.links (db : DB) (k : ℕ) : List ℤ := (db.docLines.rows.filter fun m => m.orderLineId = some k).map (·.quantity)

/-- The line `m` fulfils the line `l` of the order `o`, and its document is of the same party and currency. -/
structure DB.LinkedTo (db : DB) (m l : DocLine) (o : Doc) (side : Side) : Prop where
  positive : 0 < m.quantity
  order : db.OrderLine side l o
  confirmed : Confirmed o.status
  doc : ∃ d ∈ db.docs, d.id = m.docId ∧ d.kind = side.invoice ∧ d.partyId = o.partyId ∧ d.currencyCode = o.currencyCode

/-- The lines that fulfil orders are linked to confirmed orders, and fit them. -/
structure DB.LinksOk (db : DB) : Prop where
  status : ∀ d ∈ db.docs, d.StatusOk
  linked : ∀ m ∈ db.docLines, ∀ k, m.orderLineId = some k → ∃ side l o, db.LinkedTo m l o side ∧ l.id = k
  within : ∀ side l o, db.OrderLine side l o → (db.links l.id).sum ≤ l.quantity

/-- The movements of orders are positive and linked to confirmed orders. -/
structure DB.MovesOk (db : DB) : Prop where
  positive : ∀ side k, ∀ q ∈ db.moves side k, 0 < q
  linked : ∀ side k, db.moves side k ≠ [] → ∃ l o, db.OrderLine side l o ∧ l.id = k ∧ Confirmed o.status

/-! ### Links -/

theorem DB.mem_links {db : DB} {k : ℕ} {q : ℤ} :
    q ∈ db.links k ↔ ∃ m ∈ db.docLines, m.orderLineId = some k ∧ m.quantity = q := by
  simp [DB.links, and_assoc]

theorem DB.links_eq_nil {db : DB} {k : ℕ} : db.links k = [] ↔ ∀ m ∈ db.docLines, m.orderLineId ≠ some k := by
  simp [DB.links, List.filter_eq_nil_iff]

theorem DB.LinksOk.positive {db : DB} (h : db.LinksOk) {k : ℕ} : ∀ q ∈ db.links k, 0 < q := by
  intro q hq
  obtain ⟨m, hm, hk, rfl⟩ := DB.mem_links.1 hq
  obtain ⟨side, l, o, hl, -⟩ := h.linked m hm k hk
  exact hl.positive

/-- The documents of linked lines are not void, so all of them count. -/
theorem fulfilled_eq_sum {db : DB} (hs : ∀ d ∈ db.docs, d.StatusOk)
    (hl : ∀ m ∈ db.docLines, ∀ k, m.orderLineId = some k → ∃ side l o, db.LinkedTo m l o side ∧ l.id = k) (k : ℕ) :
    db.fulfilled k = (db.links k).sum := by
  refine congrArg (fun ls : List DocLine => (ls.map (·.quantity)).sum) (List.filter_congr fun m hm => ?_)
  by_cases hk : m.orderLineId = some k
  · obtain ⟨side, l, o, ⟨-, -, -, d, hd, hid, -⟩, -⟩ := hl m hm k hk
    have hfind : db.docs.find? m.docId = some d := hid ▸ Table.find?_key hd
    simp [hk, hfind, (hs d hd).not_void]
  · simp [hk]

theorem DB.LinksOk.fulfilled {db : DB} (h : db.LinksOk) (k : ℕ) : db.fulfilled k = (db.links k).sum :=
  fulfilled_eq_sum h.status h.linked k

theorem pos_sum_of_ne_nil {qs : List ℤ} (hne : qs ≠ []) (h : ∀ q ∈ qs, 0 < q) : 0 < qs.sum := by
  cases qs with
  | nil => exact absurd rfl hne
  | cons q qs =>
    have hq := h q (List.mem_cons_self ..)
    have hqs : 0 ≤ qs.sum := List.sum_nonneg fun x hx => (h x (List.mem_cons_of_mem _ hx)).le
    rw [List.sum_cons]
    omega

/-- If every linked line was there before, no order line has more links. -/
theorem sum_links_le {db db' : DB} {k : ℕ} (hlines : ∀ m ∈ db'.docLines, m.orderLineId ≠ none → m ∈ db.docLines)
    (hpos : ∀ q ∈ db.links k, 0 < q) : (db'.links k).sum ≤ (db.links k).sum := by
  have hnodup : (db'.docLines.rows.filter fun m => m.orderLineId = some k).Nodup := db'.docLines.nodup.of_map.filter _
  have hsub : (db'.docLines.rows.filter fun m => m.orderLineId = some k) ⊆
      db.docLines.rows.filter fun m => m.orderLineId = some k := by
    intro m hm
    obtain ⟨hm, hk⟩ := List.mem_filter.1 hm
    refine List.mem_filter.2 ⟨hlines m hm ?_, hk⟩
    rw [of_decide_eq_true hk]
    simp
  obtain ⟨ms, hperm, hms⟩ := hnodup.subperm hsub
  have hperm : (ms.map (·.quantity)).sum = (db'.links k).sum := (hperm.map _).sum_eq
  rw [← hperm]
  exact (hms.map _).sum_le_sum fun q hq => (hpos q hq).le

/-- Lines that fulfil orders only disappear, and orders that have some stay as they are. -/
theorem DB.LinksOk.mono {db db' : DB} (h : db.LinksOk) (hstatus : ∀ d ∈ db'.docs, d.StatusOk)
    (hlines : ∀ m ∈ db'.docLines, m.orderLineId ≠ none → m ∈ db.docLines)
    (hdoc : ∀ m ∈ db'.docLines, m.orderLineId ≠ none → ∀ d ∈ db.docs, d.id = m.docId →
      ∃ d' ∈ db'.docs, d'.id = m.docId ∧ d'.kind = d.kind ∧ d'.partyId = d.partyId ∧ d'.currencyCode = d.currencyCode)
    (hkeep : ∀ side l o, db.OrderLine side l o → Confirmed o.status → db.links l.id ≠ [] →
      ∃ o', db'.OrderLine side l o' ∧ Confirmed o'.status ∧ o'.partyId = o.partyId ∧ o'.currencyCode = o.currencyCode)
    (hpos : ∀ side l o, db'.OrderLine side l o → 0 < l.quantity) : db'.LinksOk := by
  have hlinked : ∀ m ∈ db'.docLines, ∀ k, m.orderLineId = some k →
      ∃ side l o x, db.LinkedTo m l x side ∧ db'.LinkedTo m l o side ∧ l.id = k := by
    intro m hm k hk
    have hne : m.orderLineId ≠ none := by simp [hk]
    have hm' := hlines m hm hne
    obtain ⟨side, l, o, hl, rfl⟩ := h.linked m hm' k hk
    obtain ⟨o', ho', hconf, hp, hc⟩ := hkeep side l o hl.order hl.confirmed fun e => DB.links_eq_nil.1 e m hm' hk
    obtain ⟨d, hd, hid, hdk, hdp, hdc⟩ := hl.doc
    obtain ⟨d', hd', hid', hdk', hdp', hdc'⟩ := hdoc m hm hne d hd hid
    exact ⟨side, l, o', o, hl, ⟨hl.positive, ho', hconf, d', hd', hid', hdk'.trans hdk, hdp'.trans (hdp.trans hp.symm),
      hdc'.trans (hdc.trans hc.symm)⟩, rfl⟩
  refine ⟨hstatus, fun m hm k hk => ?_, fun side l o ho => ?_⟩
  · obtain ⟨side, l, o, x, -, hl, hid⟩ := hlinked m hm k hk
    exact ⟨side, l, o, hl, hid⟩
  · by_cases hne : db'.links l.id = []
    · rw [hne]
      exact (hpos side l o ho).le
    · obtain ⟨q, hq⟩ := List.exists_mem_of_ne_nil _ hne
      obtain ⟨m, hm, hk, -⟩ := DB.mem_links.1 hq
      -- the order line that the link is of is this one
      obtain ⟨side', l', o', x, hold, hnew, hid⟩ := hlinked m hm l.id hk
      obtain rfl : l' = l := Table.key_inj hnew.order.line ho.line hid
      exact (sum_links_le hlines h.positive).trans (h.within side' l' x hold.order)

theorem DB.MovesOk.mono {db db' : DB} (h : db.MovesOk)
    (hmoves : ∀ side k, (db'.moves side k).Sublist (db.moves side k))
    (hkeep : ∀ side l o, db.OrderLine side l o → Confirmed o.status → db.moves side l.id ≠ [] →
      ∃ o', db'.OrderLine side l o' ∧ Confirmed o'.status) : db'.MovesOk := by
  refine ⟨fun side k q hq => h.positive side k q ((hmoves side k).subset hq), fun side k hne => ?_⟩
  have hne' : db.moves side k ≠ [] := fun e => hne (List.sublist_nil.1 (e ▸ hmoves side k))
  obtain ⟨l, o, ho, rfl, hc⟩ := h.linked side k hne'
  obtain ⟨o', ho', hc'⟩ := hkeep side l o ho hc hne'
  exact ⟨l, o', ho', rfl, hc'⟩

/-! ### Edits of documents -/

section edits

variable {db db' : DB} {id : ℕ}

theorem doc_eq_of_id {x d : Doc} (hx : x ∈ db.docs) (hd : db.docs.find? id = some d) (e : x.id = id) : x = d := by
  subst e
  exact Option.some.inj ((Table.find?_key hx).symm.trans hd)

theorem DocEdit.mem_of_ne (h : DocEdit id db db') {d : Doc} (hne : d.id ≠ id) : d ∈ db'.docs ↔ d ∈ db.docs := by
  have hk := h.others d.id hne
  constructor
  · intro hd
    exact Table.mem_of_find? (hk.symm.trans (Table.find?_key hd))
  · intro hd
    exact Table.mem_of_find? (hk.trans (Table.find?_key hd))

theorem DocEdit.line_of_ne (h : DocEdit id db db') {l : DocLine} (hne : l.docId ≠ id) :
    l ∈ db'.docLines ↔ l ∈ db.docLines := by
  have hmem : ∀ db : DB, l ∈ db.docLines ↔ l ∈ db.linesOfDoc l.docId := fun db =>
    ⟨fun hl => List.mem_filter.2 ⟨hl, decide_eq_true rfl⟩, fun hl => (List.mem_filter.1 hl).1⟩
  rw [hmem db', h.otherLines l.docId hne, ← hmem db]

/-- Orders other than the edited document keep their lines. -/
theorem DocEdit.orderLine_of_ne (h : DocEdit id db db') {side : Side} {l : DocLine} {o : Doc} (hne : o.id ≠ id) :
    db'.OrderLine side l o ↔ db.OrderLine side l o := by
  constructor
  · intro ho
    exact ⟨(h.line_of_ne (ho.ofOrder ▸ hne)).1 ho.line, (h.mem_of_ne hne).1 ho.order, ho.ofOrder, ho.kind⟩
  · intro ho
    exact ⟨(h.line_of_ne (ho.ofOrder ▸ hne)).2 ho.line, (h.mem_of_ne hne).2 ho.order, ho.ofOrder, ho.kind⟩

theorem DocEdit.moves (h : DocEdit id db db') (side : Side) (k : ℕ) : db'.moves side k = db.moves side k := by
  have hm : db'.movements = db.movements := by rw [h.eq]
  exact moves_congr hm side k

/-- Editing a draft. -/
theorem DB.LinksOk.draft (hi : db.LinksOk) (h : DocEdit id db db') (ho : db.DocsOk)
    (old : ∀ d, db.docs.find? id = some d → d.status = .draft) (new : ∀ d, db'.docs.find? id = some d → d.status = .draft)
    (unlinked : ∀ l ∈ db'.docLines, l.docId = id → l.orderLineId = none) : db'.LinksOk := by
  have hne : ∀ m ∈ db'.docLines, m.orderLineId ≠ none → m.docId ≠ id := fun m hm hl e => hl (unlinked m hm e)
  refine hi.mono (fun d hd => ?_) (fun m hm hl => (h.line_of_ne (hne m hm hl)).1 hm) (fun m hm hl d hd hid => ?_)
    (fun side l o hlo hc _ => ?_) fun side l o hlo => (h.totals ho).quantity_pos hlo
  · by_cases hid : d.id = id
    · exact .of_draft (new d (hid ▸ Table.find?_key hd))
    · exact hi.status d ((h.mem_of_ne hid).1 hd)
  · exact ⟨d, (h.mem_of_ne (hid ▸ hne m hm hl)).2 hd, hid, rfl, rfl, rfl⟩
  · have hoid : o.id ≠ id := by
      intro e
      have := old o (e ▸ Table.find?_key hlo.order)
      rw [this] at hc
      rcases hc with hc | hc <;> cases hc
    exact ⟨o, (h.orderLine_of_ne hoid).2 hlo, hc, rfl, rfl⟩

theorem DB.MovesOk.draft (hi : db.MovesOk) (h : DocEdit id db db')
    (old : ∀ d, db.docs.find? id = some d → d.status = .draft) : db'.MovesOk := by
  refine hi.mono (fun side k => h.moves side k ▸ List.Sublist.refl _) fun side l o hlo hc _ => ?_
  have hoid : o.id ≠ id := by
    intro e
    have := old o (e ▸ Table.find?_key hlo.order)
    rw [this] at hc
    rcases hc with hc | hc <;> cases hc
  exact ⟨o, (h.orderLine_of_ne hoid).2 hlo, hc⟩

/-- An order that has links or movements is not cancelled. -/
theorem not_cancelled {side : Side} {l : DocLine} {o : Doc} (hi : db.LinksOk) (hm : db.MovesOk)
    (hl : db.OrderLine side l o) (h : db.links l.id ≠ [] ∨ db.moves side l.id ≠ []) :
    db.anyFulfilled side o.id = true := by
  refine List.any_eq_true.2 ⟨l, List.mem_filter.2 ⟨hl.line, decide_eq_true hl.ofOrder.symm⟩, ?_⟩
  rw [Bool.or_eq_true, decide_eq_true_eq, decide_eq_true_eq, hi.fulfilled, moved_eq_sum]
  rcases h with h | h
  · exact .inl (pos_sum_of_ne_nil h hi.positive)
  · exact .inr (pos_sum_of_ne_nil h (hm.positive side l.id))

theorem OrderMove.not_confirmed {s t : DocStatus} (h : OrderMove s t) (hs : Confirmed s) (ht : ¬Confirmed t) :
    s = .opened ∧ t = .cancelled := by
  cases h with
  | confirm => exact absurd (.inl rfl) ht
  | close => exact absurd (.inr rfl) ht
  | cancelDraft => rcases hs with hs | hs <;> cases hs
  | cancelOpen => exact ⟨rfl, rfl⟩

theorem OrderMove.statusOk {s t : DocStatus} (h : OrderMove s t) : t = .draft ∨ Confirmed t ∨ t = .cancelled := by
  cases h with
  | confirm => exact .inr (.inl (.inl rfl))
  | close => exact .inr (.inl (.inr rfl))
  | cancelDraft => exact .inr (.inr rfl)
  | cancelOpen => exact .inr (.inr rfl)

/-- What becomes of a confirmed order with links or movements when an order moves. -/
theorem orderLine_move {side side' : Side} {d o : Doc} {s : DocStatus} {l : DocLine} (hi : db.LinksOk) (hm : db.MovesOk)
    (hd : db.docOf side.order id = some d) (hmove : OrderMove d.status s)
    (hfree : d.status = .opened → s = .cancelled → db.anyFulfilled side id = false)
    (h : db' = { db with docs := db.docs.update [id] (·.withStatus s) fun _ => rfl })
    (hl : db.OrderLine side' l o) (hc : Confirmed o.status) (hne : db.links l.id ≠ [] ∨ db.moves side' l.id ≠ []) :
    ∃ o', db'.OrderLine side' l o' ∧ Confirmed o'.status ∧ o'.partyId = o.partyId ∧ o'.currencyCode = o.currencyCode := by
  have hkey : ∀ d : Doc, Keyed.key (d.withStatus s) = Keyed.key d := fun _ => rfl
  obtain ⟨hfind, hk⟩ := docOf_eq_some.1 hd
  subst h
  by_cases hid : o.id = id
  · obtain rfl := doc_eq_of_id hl.order hfind hid
    subst hid
    have hside : side' = side := by
      have := hl.kind.symm.trans hk
      cases side' <;> cases side <;> first | rfl | cases this
    subst hside
    refine ⟨o.withStatus s, ⟨hl.line, ?_, hl.ofOrder, hl.kind⟩, ?_, rfl, rfl⟩
    · exact (Table.mem_update_singleton hkey hfind).2 (.inl rfl)
    · by_contra hconf
      obtain ⟨ho, hs⟩ := hmove.not_confirmed hc hconf
      have := hfree ho hs
      rw [not_cancelled hi hm hl hne] at this
      cases this
  · exact ⟨o, ⟨hl.line, (Table.mem_update_singleton hkey hfind).2 (.inr ⟨hid, hl.order⟩), hl.ofOrder, hl.kind⟩, hc, rfl,
      rfl⟩

theorem DB.LinksOk.move {side : Side} {d : Doc} {s : DocStatus} (hi : db.LinksOk) (hm : db.MovesOk) (ho : db'.DocsOk)
    (hd : db.docOf side.order id = some d) (hmove : OrderMove d.status s)
    (hfree : d.status = .opened → s = .cancelled → db.anyFulfilled side id = false)
    (h : db' = { db with docs := db.docs.update [id] (·.withStatus s) fun _ => rfl }) : db'.LinksOk := by
  have hkey : ∀ d : Doc, Keyed.key (d.withStatus s) = Keyed.key d := fun _ => rfl
  have hdocs : db'.docs = db.docs.update [id] (·.withStatus s) hkey := by rw [h]
  obtain ⟨hfind, hk⟩ := docOf_eq_some.1 hd
  refine hi.mono (fun x hx => ?_) (fun m hml _ => ?_) (fun m _ _ x hx hid => ?_)
    (fun side' l o hl hc hne => orderLine_move hi hm hd hmove hfree h hl hc (.inl hne)) fun _ _ _ hl => ho.quantity_pos hl
  · rw [hdocs] at hx
    rcases (Table.mem_update_singleton hkey hfind).1 hx with rfl | ⟨-, hx⟩
    · have hord : (d.withStatus s).kind.isOrder = true := by
        show d.kind.isOrder = true
        rw [hk, side.order_isOrder]
      unfold Doc.StatusOk
      rw [if_pos hord]
      exact hmove.statusOk
    · exact hi.status x hx
  · rw [h] at hml
    exact hml
  · rw [hdocs]
    by_cases hx' : x.id = id
    · obtain rfl := doc_eq_of_id hx hfind hx'
      exact ⟨x.withStatus s, (Table.mem_update_singleton hkey hfind).2 (.inl rfl), hid, rfl, rfl, rfl⟩
    · exact ⟨x, (Table.mem_update_singleton hkey hfind).2 (.inr ⟨hx', hx⟩), hid, rfl, rfl, rfl⟩

theorem DB.MovesOk.move {side : Side} {d : Doc} {s : DocStatus} (hi : db.LinksOk) (hm : db.MovesOk)
    (hd : db.docOf side.order id = some d) (hmove : OrderMove d.status s)
    (hfree : d.status = .opened → s = .cancelled → db.anyFulfilled side id = false)
    (h : db' = { db with docs := db.docs.update [id] (·.withStatus s) fun _ => rfl }) : db'.MovesOk := by
  have hmoves : db'.movements = db.movements := by rw [h]
  refine hm.mono (fun side k => moves_congr hmoves side k ▸ List.Sublist.refl _) fun side' l o hl hc hne => ?_
  obtain ⟨o', ho', hc', -⟩ := orderLine_move hi hm hd hmove hfree h hl hc (.inr hne)
  exact ⟨o', ho', hc'⟩

/-- Invoicing an open order: the deferred checks of the new lines have passed. -/
theorem DB.LinksOk.invoice {side : Side} {order : ℕ} {o d : Doc} {ls : List DocLine} (hi : db.LinksOk)
    (h : DocEdit id db db') (hord : db.docOf side.order order = some o) (hs : o.status = .opened) (hfree : db.docs.Free id)
    (hd : db'.docs.find? id = some d) (hdraft : d.status = .draft) (hk : d.kind = side.invoice) (hp : d.partyId = o.partyId) (hc : d.currencyCode = o.currencyCode)
    (hl : db'.docLines.rows = db.docLines.rows ++ ls) (hls : ∀ l ∈ ls, l.docId = id ∧ db.Fulfils order l)
    (hcheck : ∀ l ∈ ls, DB.orderCheck l db' = .ok ()) : db'.LinksOk := by
  have hmem : ∀ m, m ∈ db'.docLines ↔ m ∈ db.docLines ∨ m ∈ ls := fun m => by
    rw [← Table.mem_rows, hl, List.mem_append, Table.mem_rows]
  have hold : ∀ x ∈ db.docs, x.id ≠ id ∧ x ∈ db'.docs := fun x hx =>
    ⟨hfree x hx, (h.mem_of_ne (hfree x hx)).2 hx⟩
  have horder : ∀ ol ∈ db.linesOfDoc order, db'.OrderLine side ol o := by
    intro ol hol
    obtain ⟨hfind, hok⟩ := docOf_eq_some.1 hord
    obtain ⟨hom, hoid⟩ := Table.find?_eq_some.1 hfind
    obtain ⟨hol, hdoc⟩ := List.mem_filter.1 hol
    exact ⟨(hmem ol).2 (.inl hol), (hold o hom).2, hoid.trans (of_decide_eq_true hdoc).symm, hok⟩
  have hstatus : ∀ x ∈ db'.docs, x.StatusOk := by
    intro x hx
    by_cases hid : x.id = id
    · obtain rfl := doc_eq_of_id hx hd hid
      exact .of_draft hdraft
    · exact hi.status x ((h.mem_of_ne hid).1 hx)
  have hlinked : ∀ m ∈ db'.docLines, ∀ k, m.orderLineId = some k → ∃ side l o, db'.LinkedTo m l o side ∧ l.id = k := by
    intro m hm k hmk
    rcases (hmem m).1 hm with hm | hm
    · obtain ⟨side', l, x, hlt, hid⟩ := hi.linked m hm k hmk
      obtain ⟨y, hy, hyid, hy'⟩ := hlt.doc
      have hxne := (hold x hlt.order.order).1
      exact ⟨side', l, x, ⟨hlt.positive, (h.orderLine_of_ne hxne).2 hlt.order, hlt.confirmed, y, (hold y hy).2, hyid,
        hy'⟩, hid⟩
    · obtain ⟨hdoc, hpos, ol, hol, hlink, -⟩ := hls m hm
      exact ⟨side, ol, o, ⟨hpos, horder ol hol, .inl hs, d, Table.mem_of_find? hd, (Table.key_of_find? hd).trans hdoc.symm,
        hk, hp, hc⟩, Option.some.inj (hlink.symm.trans hmk)⟩
  refine ⟨hstatus, hlinked, fun side' l x hx => ?_⟩
  by_cases hnew : ∃ m ∈ ls, m.orderLineId = some l.id
  · -- the check of the new line compares all the links with what is ordered
    obtain ⟨m, hm, hml⟩ := hnew
    have hline : db'.docLines.find? l.id = some l := Table.find?_key hx.line
    have hdoc : db'.docs.find? l.docId = some x := hx.ofOrder ▸ Table.find?_key hx.order
    have hpass := hcheck m hm
    simp only [DB.orderCheck, hml, DB.orderLine, hline, hdoc, Option.bind_some, Option.map_some, Except.bind_eq_ok_iff,
      ensure_eq_ok, exists_const, decide_eq_true_eq] at hpass
    rw [← fulfilled_eq_sum hstatus hlinked]
    exact hpass.2.2.2
  · have hxid : x.id ≠ id := by
      intro e
      obtain rfl := doc_eq_of_id hx.order hd e
      have := hx.kind.symm.trans hk
      cases side' <;> cases side <;> cases this
    have hnone : ls.filter (fun m => m.orderLineId = some l.id) = [] := by
      rw [List.filter_eq_nil_iff]
      intro m hm e
      exact hnew ⟨m, hm, of_decide_eq_true e⟩
    have hlinks : db'.links l.id = db.links l.id := by
      rw [DB.links, hl, List.filter_append, hnone, List.append_nil]
      rfl
    rw [hlinks]
    exact hi.within side' l x ((h.orderLine_of_ne hxid).1 hx)

theorem DB.MovesOk.invoice (hm : db.MovesOk) (h : DocEdit id db db') (hfree : db.docs.Free id) : db'.MovesOk := by
  refine hm.mono (fun side k => h.moves side k ▸ List.Sublist.refl _) fun side l o hlo hc _ => ?_
  exact ⟨o, (h.orderLine_of_ne (hfree o hlo.order)).2 hlo, hc⟩

theorem DocsEdit.linksOk (h : DocsEdit id db db') (he : DocEdit id db db') (ho : db.DocsOk) (hi : db.LinksOk)
    (hm : db.MovesOk) : db'.LinksOk ∧ db'.MovesOk := by
  cases h with
  | draft old new kind unlinked => exact ⟨hi.draft he ho old new (unlinked ho), hm.draft he old⟩
  | move hd hmove hfree h =>
    exact ⟨hi.move hm (he.totals ho) hd hmove hfree h, hm.move hi hd hmove hfree h⟩
  | invoice hord hs hfree hd hdraft hk hp hc hl hls hcheck =>
    exact ⟨hi.invoice he hord hs hfree hd hdraft hk hp hc hl hls hcheck, hm.invoice he hfree⟩

end edits

/-! ### Every operation -/

theorem DB.LinksOk.of_same {db db' : DB} (h : db.LinksOk) (hd : db'.docs = db.docs) (hl : db'.docLines = db.docLines)
    (hpos : ∀ side l o, db'.OrderLine side l o → 0 < l.quantity) : db'.LinksOk :=
  h.mono (hd ▸ h.status) (fun _ hm _ => hl ▸ hm) (fun _ _ _ d hm hid => ⟨d, hd ▸ hm, hid, rfl, rfl, rfl⟩)
    (fun _ _ o ho hc _ => ⟨o, ho.of_same hd hl, hc, rfl, rfl⟩) hpos

theorem DB.MovesOk.of_same {db db' : DB} (h : db.MovesOk) (hd : db'.docs = db.docs) (hl : db'.docLines = db.docLines)
    (hmoves : ∀ side k, (db'.moves side k).Sublist (db.moves side k)) : db'.MovesOk :=
  h.mono hmoves fun _ _ o ho hc _ => ⟨o, ho.of_same hd hl, hc⟩

/-- Posting and unposting change the status of a document that is no order. -/
theorem DB.LinksOk.document {db db' : DB} (h : db.LinksOk) {id : ℕ} {d : Doc} {f : Doc → Doc}
    (hf : ∀ d, (f d).id = d.id) (hd : db.docs.find? id = some d) (hk : d.kind.isOrder = false)
    (hdocs : db'.docs = db.docs.update [id] f hf) (hl : db'.docLines = db.docLines)
    (hsame : (f d).kind = d.kind ∧ (f d).partyId = d.partyId ∧ (f d).currencyCode = d.currencyCode)
    (hs : (f d).status = .draft ∨ (f d).status = .posted)
    (hpos : ∀ side l o, db'.OrderLine side l o → 0 < l.quantity) : db'.LinksOk := by
  refine h.mono (fun x hx => ?_) (fun m hm _ => hl ▸ hm) (fun m _ _ x hx hid => ?_)
    (fun side l o ho hc _ => ⟨o, ho.of_update hd hk hdocs hl, hc, rfl, rfl⟩) hpos
  · rw [hdocs] at hx
    rcases (Table.mem_update_singleton hf hd).1 hx with rfl | ⟨-, hx⟩
    · unfold Doc.StatusOk
      rw [hsame.1, hk]
      exact hs
    · exact h.status x hx
  · rw [hdocs]
    by_cases hx' : x.id = id
    · obtain rfl := doc_eq_of_id hx hd hx'
      exact ⟨f x, (Table.mem_update_singleton hf hd).2 (.inl rfl), (hf x).trans hid, hsame⟩
    · exact ⟨x, (Table.mem_update_singleton hf hd).2 (.inr ⟨hx', hx⟩), hid, rfl, rfl, rfl⟩

theorem DB.MovesOk.fulfil {db db' : DB} (h : db.MovesOk) {side : Side} {id : ℕ} {req : List LineQty} {o : Doc}
    (ho : db.docOf side.order id = some o) (hs : o.status = .opened)
    (hmoves : ∀ side' k, db'.moves side' k = db.moves side' k ++
      if side' = side then ((db.picked side id req).filter fun x => x.1.id = k).map Prod.snd else [])
    (hd : db'.docs = db.docs) (hl : db'.docLines = db.docLines) : db'.MovesOk := by
  have hnew : ∀ side' k, ∀ q ∈ (if side' = side then ((db.picked side id req).filter fun x => x.1.id = k).map Prod.snd
      else []), 0 < q ∧ ∃ l, db'.OrderLine side' l o ∧ l.id = k := by
    intro side' k q hq
    split at hq
    · rename_i hside
      subst hside
      obtain ⟨x, hx, rfl⟩ := List.mem_map.1 hq
      obtain ⟨hx, hk⟩ := List.mem_filter.1 hx
      obtain ⟨hxo, hpos⟩ := orderLine_of_picked ho hx
      exact ⟨hpos, x.1, hxo.of_same hd hl, of_decide_eq_true hk⟩
    · cases hq
  refine ⟨fun side' k q hq => ?_, fun side' k hne => ?_⟩
  · rw [hmoves] at hq
    rcases List.mem_append.1 hq with hq | hq
    · exact h.positive side' k q hq
    · exact (hnew side' k q hq).1
  · obtain ⟨q, hq⟩ := List.exists_mem_of_ne_nil _ hne
    rw [hmoves] at hq
    rcases List.mem_append.1 hq with hq | hq
    · obtain ⟨l, x, hx, hk, hc⟩ := h.linked side' k (List.ne_nil_of_mem hq)
      exact ⟨l, x, hx.of_same hd hl, hk, hc⟩
    · obtain ⟨-, l, hx, hk⟩ := hnew side' k q hq
      exact ⟨l, o, hx, hk, .inl hs⟩

theorem MovesEdit.movesOk {op : Op} {db db' : DB} (h : MovesEdit op db db') (hd : db'.docs = db.docs)
    (hl : db'.docLines = db.docLines) (hm : db.MovesOk) : db'.MovesOk := by
  cases h with
  | fewer h hold => exact hm.of_same hd hl h
  | fulfil hop ho hs h hnew => exact hm.fulfil ho hs h hd hl

theorem Effect.linksOk {lo : ℕ} {op : Op} {db db' : DB} (h : Effect lo op db db') (ho : db.DocsOk) (hi : db.LinksOk)
    (hm : db.MovesOk) : db'.LinksOk ∧ db'.MovesOk := by
  have hpos : ∀ side l o, db'.OrderLine side l o → 0 < l.quantity := fun _ _ _ hlo => (h.docsOk ho).quantity_pos hlo
  have outside : db'.docs = db.docs → db'.docLines = db.docLines → db'.movements = db.movements →
      db'.LinksOk ∧ db'.MovesOk := fun hd hl hmov =>
    ⟨hi.of_same hd hl hpos, hm.of_same hd hl fun side k => moves_congr hmov side k ▸ List.Sublist.refl _⟩
  have document : ∀ {id : ℕ} {d : Doc} {f : Doc → Doc} (hf : ∀ d, (f d).id = d.id), db.docs.find? id = some d →
      d.kind.isOrder = false → db'.docs = db.docs.update [id] f hf → db'.docLines = db.docLines →
      db'.movements = db.movements →
      (f d).kind = d.kind ∧ (f d).partyId = d.partyId ∧ (f d).currencyCode = d.currencyCode →
      (f d).status = .draft ∨ (f d).status = .posted → db'.LinksOk ∧ db'.MovesOk := fun hf hd hk hdocs hl hmov hsame hs =>
    ⟨hi.document hf hd hk hdocs hl hsame hs hpos, hm.mono (fun side k => moves_congr hmov side k ▸ List.Sublist.refl _)
      fun side l o hlo hc _ => ⟨o, hlo.of_update hd hk hdocs hl, hc⟩⟩
  have movement : ∀ {id : ℕ} {f : StockMovement → StockMovement} (hf : ∀ m, (f m).id = m.id),
      (∀ m, (f m).source = m.source ∧ (f m).quantity = m.quantity) → db'.docs = db.docs → db'.docLines = db.docLines →
      db'.movements = db.movements.update [id] f hf → db'.LinksOk ∧ db'.MovesOk := fun hf hsame hd hl hmov => by
    refine ⟨hi.of_same hd hl hpos, hm.of_same hd hl fun side k => ?_⟩
    rw [moves_update hf hmov (fun m _ _ => ⟨(hsame m).1, .inr (hsame m).2⟩)]
  cases h with
  | outside h => exact outside h.docs h.docLines h.movements
  | docEdit id h hl => exact hl.linksOk h ho hi hm
  | paymentEdit id h => exact outside (by rw [h.eq]) (by rw [h.eq]) (by rw [h.eq])
  | movementEdit h hmov =>
    have hd : db'.docs = db.docs := by rw [h.eq]
    have hl : db'.docLines = db.docLines := by rw [h.eq]
    exact ⟨hi.of_same hd hl hpos, hmov.movesOk hd hl hm⟩
  | postDoc kind id hd hs ht hw =>
    obtain ⟨hd, hk⟩ := docOf_eq_some.1 hd
    exact document (by intro; rfl) hd (hk ▸ kind.not_isOrder) rfl (by rw [hw.eq]) (by rw [hw.eq]) ⟨rfl, rfl, rfl⟩ (.inr rfl)
  | postPayment side id hp hs ht hw => exact outside (by rw [hw.eq]) (by rw [hw.eq]) (by rw [hw.eq])
  | postMovement id hm hj hw => exact movement (by intro; rfl) (by intro; exact ⟨rfl, rfl⟩) (by rw [hw.eq]) (by rw [hw.eq]) rfl
  | autoApply side settler id n hn hc hfree hfx hch => exact outside (by rw [hfx.eq]) (by rw [hfx.eq]) (by rw [hfx.eq])
  | unpostDoc hd hs hj happs hr =>
    obtain ⟨hd, hk⟩ := docOf_eq_some.1 hd
    exact document (by intro; rfl) hd (hk ▸ PostedKind.not_isOrder _) rfl (by rw [hr.wrote.eq]) (by rw [hr.wrote.eq])
      ⟨rfl, rfl, rfl⟩ (.inl rfl)
  | unpostPayment hp hs hj hr => exact outside (by rw [hr.eq]) (by rw [hr.eq]) (by rw [hr.eq])
  | unpostMovement hm hj hr =>
    exact movement (by intro; rfl) (by intro; exact ⟨rfl, rfl⟩) (by rw [hr.wrote.eq]) (by rw [hr.wrote.eq]) rfl
  | closeEmpty id hopen h => exact outside (by rw [h.eq]) (by rw [h.eq]) (by rw [h.eq])
  | closeYear id hopen hw he h => exact outside (by rw [h.eq, hw.eq]) (by rw [h.eq, hw.eq]) (by rw [h.eq, hw.eq])
  | reopenYear id hc hmid hlink hr =>
    exact outside (by rw [hr.wrote.eq, hmid]) (by rw [hr.wrote.eq, hmid]) (by rw [hr.wrote.eq, hmid])

theorem Reachable.linksOk {s : Store DB} (h : Reachable s) : s.db.LinksOk ∧ s.db.MovesOk := by
  refine h.of_effects (I := fun db => db.LinksOk ∧ db.MovesOk) ⟨⟨fun d hd => ?_, fun m hm => ?_, fun side l o ho => ?_⟩,
    ⟨fun side k q hq => ?_, fun side k hne => absurd rfl hne⟩⟩ fun s op db' hs hi he => he.linksOk hs.docsOk hi.1 hi.2
  · exact absurd hd (Table.not_mem_empty d)
  · exact absurd hm (Table.not_mem_empty m)
  · exact absurd ho.line (Table.not_mem_empty l)
  · cases hq

/-! ### Orders over time -/

/-- An order of `db'` is new and a draft, or it is one of `db` that has not moved or has moved once. -/
def OrdersMove (db db' : DB) : Prop :=
  ∀ (side : Side) (id : ℕ) (o' : Doc), db'.docOf side.order id = some o' →
    (db.docOf side.order id = none ∧ o'.status = .draft) ∨
      ∃ o, db.docOf side.order id = some o ∧ (o'.status = o.status ∨ OrderMove o.status o'.status)

/-- An order that is no draft in `db` is in `db'` as it was, with its lines, but for its status, which is not that of a
draft. -/
def OrdersKept (db db' : DB) : Prop :=
  ∀ (side : Side) (id : ℕ) (o : Doc), db.docOf side.order id = some o → o.status ≠ .draft →
    ∃ s, s ≠ .draft ∧ db'.docOf side.order id = some (o.withStatus s) ∧ db'.linesOfDoc id = db.linesOfDoc id

theorem OrdersKept.trans {a b c : DB} (h : OrdersKept a b) (h' : OrdersKept b c) : OrdersKept a c := by
  intro side id o ho hs
  obtain ⟨s, hne, hb, hlines⟩ := h side id o ho hs
  obtain ⟨s', hne', hc, hlines'⟩ := h' side id _ hb hne
  exact ⟨s', hne', hc, hlines'.trans hlines⟩

theorem OrdersMove.of_same {db db' : DB} (h : ∀ side id, db'.docOf (Side.order side) id = db.docOf side.order id) :
    OrdersMove db db' := by
  intro side id o' ho'
  exact .inr ⟨o', (h side id).symm.trans ho', .inl rfl⟩

theorem OrdersKept.of_same {db db' : DB} (h : ∀ side id, db'.docOf (Side.order side) id = db.docOf side.order id)
    (hl : db'.docLines = db.docLines) : OrdersKept db db' := by
  intro side id o ho hs
  refine ⟨o.status, hs, (h side id).trans ho, ?_⟩
  unfold DB.linesOfDoc
  rw [hl]

/-- A change of a document that is no order. -/
theorem docOf_order_update {db : DB} {id : ℕ} {d : Doc} (hd : db.docs.find? id = some d) (hk : d.kind.isOrder = false)
    {f : Doc → Doc} (hf : ∀ d, (f d).id = d.id) (hfk : (f d).kind = d.kind) (side : Side) (k : ℕ) :
    { db with docs := db.docs.update [id] f hf }.docOf side.order k = db.docOf side.order k := by
  by_cases hid : k = id
  · have hne : d.kind ≠ side.order := by
      intro e
      rw [e, side.order_isOrder] at hk
      cases hk
    have hself : (db.docs.update [id] f hf).find? id = some (f d) := Table.find?_update_self hf hd
    subst hid
    show ((db.docs.update [k] f hf).find? k).filter _ = (db.docs.find? k).filter _
    rw [hself, hd, Option.filter_some, Option.filter_some, hfk, decide_eq_false hne]
    rfl
  · have hother : (db.docs.update [id] f hf).find? k = db.docs.find? k :=
      Table.find?_update_of_notMem hf (by simpa using hid)
    exact congrArg (Option.filter _) hother

/-- An operation edits one document, or leaves the orders and all lines as they are. -/
theorem Effect.orders {lo : ℕ} {op : Op} {db db' : DB} (h : Effect lo op db db') :
    (∃ id, DocEdit id db db' ∧ DocsEdit id db db') ∨
      (∀ side id, db'.docOf (Side.order side) id = db.docOf side.order id) ∧ db'.docLines = db.docLines := by
  have outside : db'.docs = db.docs → db'.docLines = db.docLines → (∃ id, DocEdit id db db' ∧ DocsEdit id db db') ∨
      (∀ side id, db'.docOf (Side.order side) id = db.docOf side.order id) ∧ db'.docLines = db.docLines := fun hd hl =>
    .inr ⟨fun side id => by rw [DB.docOf, hd, DB.docOf], hl⟩
  cases h with
  | outside h => exact outside h.docs h.docLines
  | docEdit id h hl => exact .inl ⟨id, h, hl⟩
  | paymentEdit id h => exact outside (by rw [h.eq]) (by rw [h.eq])
  | movementEdit h hmov => exact outside (by rw [h.eq]) (by rw [h.eq])
  | postDoc kind id hd hs ht hw =>
    obtain ⟨hd, hk⟩ := docOf_eq_some.1 hd
    exact .inr ⟨docOf_order_update (f := (·.posted _ _)) hd (hk ▸ kind.not_isOrder) (fun _ => rfl) rfl, by rw [hw.eq]⟩
  | postPayment side id hp hs ht hw => exact outside (by rw [hw.eq]) (by rw [hw.eq])
  | postMovement id hm hj hw => exact outside (by rw [hw.eq]) (by rw [hw.eq])
  | autoApply side settler id n hn hc hfree hfx hch => exact outside (by rw [hfx.eq]) (by rw [hfx.eq])
  | unpostDoc hd hs hj happs hr =>
    obtain ⟨hd, hk⟩ := docOf_eq_some.1 hd
    exact .inr ⟨docOf_order_update (f := Doc.unposted) hd (hk ▸ PostedKind.not_isOrder _) (fun _ => rfl) rfl,
      by rw [hr.wrote.eq]⟩
  | unpostPayment hp hs hj hr => exact outside (by rw [hr.eq]) (by rw [hr.eq])
  | unpostMovement hm hj hr => exact outside (by rw [hr.wrote.eq]) (by rw [hr.wrote.eq])
  | closeEmpty id hopen h => exact outside (by rw [h.eq]) (by rw [h.eq])
  | closeYear id hopen hw he h => exact outside (by rw [h.eq, hw.eq]) (by rw [h.eq, hw.eq])
  | reopenYear id hc hmid hlink hr => exact outside (by rw [hr.wrote.eq, hmid]) (by rw [hr.wrote.eq, hmid])

theorem DocEdit.docOf_of_ne {id : ℕ} {db db' : DB} (h : DocEdit id db db') {k : ℕ} (hk : k ≠ id) (kind : DocKind) :
    db'.docOf kind k = db.docOf kind k := by
  rw [DB.docOf, h.others k hk, DB.docOf]

theorem DocEdit.ordersKept {id : ℕ} {db db' : DB} (h : DocEdit id db db') : OrdersKept db db' := by
  intro side k o ho hs
  by_cases hk : k = id
  · subst hk
    obtain ⟨hfind, hkind⟩ := docOf_eq_some.1 ho
    obtain ⟨⟨o', hfind', hsame, hs'⟩, hlines⟩ := h.frozen o hfind hs
    exact ⟨o'.status, hs', docOf_eq_some.2 ⟨hfind'.trans (congrArg some hsame), hkind⟩, hlines⟩
  · exact ⟨o.status, hs, (h.docOf_of_ne hk _).trans ho, h.otherLines k hk⟩

theorem DocsEdit.ordersMove {id : ℕ} {db db' : DB} (h : DocsEdit id db db') (he : DocEdit id db db') :
    OrdersMove db db' := by
  intro side k o' ho'
  by_cases hk : k = id
  · subst hk
    obtain ⟨hfind', hkind'⟩ := docOf_eq_some.1 ho'
    cases h with
    | draft old new kind _ =>
      have hdraft := new o' hfind'
      cases hfind : db.docs.find? k with
      | none =>
        left
        rw [DB.docOf, hfind]
        exact ⟨rfl, hdraft⟩
      | some d =>
        right
        exact ⟨d, docOf_eq_some.2 ⟨hfind, (kind d o' hfind hfind').symm.trans hkind'⟩, .inl (hdraft.trans (old d hfind).symm)⟩
    | @move _ d s hd hmove _ h =>
      obtain ⟨hfind, -⟩ := docOf_eq_some.1 hd
      have hself : db'.docs.find? k = some (d.withStatus s) := by
        rw [h]
        exact Table.find?_update_self (f := (·.withStatus s)) (fun _ => rfl) hfind
      obtain rfl : o' = d.withStatus s := Option.some.inj (hfind'.symm.trans hself)
      exact .inr ⟨d, docOf_eq_some.2 ⟨hfind, hkind'⟩, .inr hmove⟩
    | @invoice side' _ _ d _ _ _ _ hd _ hkind =>
      obtain rfl : o' = d := Option.some.inj (hfind'.symm.trans hd)
      have := hkind'.symm.trans hkind
      cases side <;> cases side' <;> cases this
  · exact .inr ⟨o', (he.docOf_of_ne hk _).symm.trans ho', .inl rfl⟩

theorem Step.ordersMove {s s' : Store DB} (hs : Reachable s) (h : Step s s') :
    OrdersMove s.db s'.db ∧ OrdersKept s.db s'.db := by
  obtain ⟨op, gaps, h⟩ := h
  rcases (commit_effect h hs.fresh).1.orders with ⟨id, he, hl⟩ | ⟨hd, hl⟩
  · exact ⟨hl.ordersMove he, he.ordersKept⟩
  · exact ⟨.of_same hd, .of_same hd hl⟩

/-- From its confirmation on an order stays as it is, whatever operations follow. -/
theorem ordersKept_of_steps {s s' : Store DB} (hs : Reachable s) (h : Relation.ReflTransGen Step s s') :
    OrdersKept s.db s'.db ∧ Reachable s' := by
  induction h with
  | refl => exact ⟨.of_same (fun _ _ => rfl) rfl, hs⟩
  | tail _ hstep ih =>
    obtain ⟨hkept, hr⟩ := ih
    exact ⟨hkept.trans (hstep.ordersMove hr).2, hr.step hstep⟩

/-- What holds of the orders in every state. -/
structure DB.OrdersSound (db : DB) : Prop where
  /-- A draft or cancelled order has no linked lines and no linked movements. -/
  unlinked : ∀ side l o, db.OrderLine side l o → o.status = .draft ∨ o.status = .cancelled →
    (∀ m ∈ db.docLines, m.orderLineId ≠ some l.id) ∧ ∀ m ∈ db.movements, m.source ≠ some (side, l.id)
  within : ∀ side l o, db.OrderLine side l o → db.fulfilled l.id ≤ l.quantity
  /-- A linked line is on an invoice or bill of the order's party and currency. -/
  fitting : ∀ side l o, db.OrderLine side l o → ∀ m ∈ db.docLines, m.orderLineId = some l.id →
    ∃ d ∈ db.docs, d.id = m.docId ∧ d.kind = side.invoice ∧ d.partyId = o.partyId ∧ d.currencyCode = o.currencyCode

theorem DB.OrderLine.unique {db : DB} {side side' : Side} {l l' : DocLine} {o o' : Doc} (h : db.OrderLine side l o)
    (h' : db.OrderLine side' l' o') (hid : l'.id = l.id) : side' = side ∧ l' = l ∧ o' = o := by
  obtain rfl : l' = l := Table.key_inj h'.line h.line hid
  obtain rfl : o' = o := Table.key_inj h'.order h.order (h'.ofOrder.trans h.ofOrder.symm)
  have := h'.kind.symm.trans h.kind
  refine ⟨?_, rfl, rfl⟩
  cases side' <;> cases side <;> first | rfl | cases this

theorem DB.LinksOk.ordersSound {db : DB} (hi : db.LinksOk) (hm : db.MovesOk) : db.OrdersSound := by
  refine ⟨fun side l o ho hs => ⟨fun m hml hk => ?_, fun m hmov hsrc => ?_⟩, fun side l o ho => ?_,
    fun side l o ho m hml hk => ?_⟩
  · obtain ⟨side', l', o', hl, hid⟩ := hi.linked m hml l.id hk
    obtain ⟨-, -, rfl⟩ := ho.unique hl.order hid
    rcases hl.confirmed with hc | hc <;> rcases hs with hs | hs <;> cases hc.symm.trans hs
  · have hne : db.moves side l.id ≠ [] :=
      List.ne_nil_of_mem (List.mem_map_of_mem (List.mem_filter.2 ⟨hmov, decide_eq_true hsrc⟩))
    obtain ⟨l', o', ho', hid, hconf⟩ := hm.linked side l.id hne
    obtain ⟨-, -, rfl⟩ := ho.unique ho' hid
    rcases hconf with hc | hc <;> rcases hs with hs | hs <;> cases hc.symm.trans hs
  · rw [hi.fulfilled]
    exact hi.within side l o ho
  · obtain ⟨side', l', o', hl, hid⟩ := hi.linked m hml l.id hk
    obtain ⟨rfl, -, rfl⟩ := ho.unique hl.order hid
    exact hl.doc

/-- The order lifecycle. -/
theorem order_lifecycle {s : Store DB} (hs : Reachable s) :
    s.db.OrdersSound ∧ (∀ s', Step s s' → OrdersMove s.db s'.db) ∧
      ∀ s', Relation.ReflTransGen Step s s' → OrdersKept s.db s'.db :=
  ⟨hs.linksOk.1.ordersSound hs.linksOk.2, fun _ h => (h.ordersMove hs).1, fun _ h => (ordersKept_of_steps hs h).1⟩

/-- Six of ten pieces are invoiced, the invoice is posted, and the order is closed. -/
theorem order_lifecycle_invoiced : ∃ s : Store DB, s.db.fulfilled 17 = 6 * 10 ^ 4 ∧
    (s.db.docOf .salesOrder 16).map (·.status) = some .closed ∧ s.db.OrdersSound ∧
    (∀ s', Step s s' → OrdersMove s.db s'.db) ∧ ∀ s', Relation.ReflTransGen Step s s' → OrdersKept s.db s'.db := by
  obtain ⟨s, hs, h⟩ := exists_reachable (ordered ++ [
      .createFiscalYear ⟨"FY2026", yearStart, yearEnd⟩,
      .fromOrder .sales 16 ⟨"I1", march6, none, [⟨17, 6 * 10 ^ 4⟩]⟩,
      .postDoc .salesInvoice 19,
      .closeOrder .sales 16])
    (p := fun s => s.db.fulfilled 17 = 6 * 10 ^ 4 ∧ (s.db.docOf .salesOrder 16).map (·.status) = some .closed)
    (by decide +kernel)
  obtain ⟨hq, hc⟩ := of_decide_eq_true h
  exact ⟨s, hq, hc, order_lifecycle hs⟩
