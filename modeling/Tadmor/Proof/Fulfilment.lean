import Tadmor.Proof.Agreement
import Tadmor.Proof.Ownership

/-!
# Shipping and receiving

Nothing but a request to ship or receive links a movement to an order line, and a line whose order has left the draft
stays as it was ordered.  So an order line is over-fulfilled only by one request that lists it more than once.
-/

/-! ### What a request takes of a line -/

/-- The positive quantities that a request lists for the line. -/
def requested (req : List LineQty) (lineId : ℕ) : List ℤ :=
  (req.filter fun r => r.orderLineId = lineId && 0 < r.quantity).map (·.quantity)

/-- The request lists the line once at most, or no more than is left of it. -/
def Modest (req : List LineQty) (lineId : ℕ) (left : ℤ) : Prop :=
  (requested req lineId).length ≤ 1 ∨ left = 0 ∨ (requested req lineId).sum ≤ left

instance (req : List LineQty) (lineId : ℕ) (left : ℤ) : Decidable (Modest req lineId left) :=
  inferInstanceAs (Decidable (_ ∨ _ ∨ _))

theorem sum_map_min_le {l : List ℤ} {left : ℤ} : (l.map (min left)).sum ≤ l.sum := by
  induction l with
  | nil => exact le_refl _
  | cons x l ih =>
    rw [List.map_cons, List.sum_cons, List.sum_cons]
    have := min_le_right left x
    omega

/-- What is taken of one line. -/
def takenOf (req : List LineQty) (left : DocLine → ℤ) (l : DocLine) : List ℤ :=
  ((pickLine req left l).filter fun x => 0 < x.2).map Prod.snd

theorem takenOf_cons {r : LineQty} {rs req : List LineQty} {left : DocLine → ℤ} {l : DocLine} (hreq : req ≠ [])
    (h : req.filter (fun r => r.orderLineId = l.id) = r :: rs) (hleft : 0 < left l) :
    takenOf req left l = (requested req l.id).map (min (left l)) := by
  rw [takenOf, pickLine, if_neg hreq, h]
  show (((r :: rs).map _).filter _).map _ = _
  rw [← h, List.filter_map, List.map_map, requested, List.map_map, List.filter_filter]
  refine congrArg (List.map _) (List.filter_congr fun x _ => ?_)
  simp only [Function.comp_apply, lt_min_iff, hleft, true_and]
  exact Bool.and_comm ..

/-- A modest request takes no more of a line than is left. -/
theorem sum_takenOf_le {req : List LineQty} {left : DocLine → ℤ} {l : DocLine} (hleft : 0 ≤ left l)
    (h : Modest req l.id (left l)) : (takenOf req left l).sum ≤ left l := by
  by_cases hreq : req = []
  · rw [takenOf, pickLine, if_pos hreq, List.filter_singleton]
    by_cases hpos : 0 < left l
    · simp [hpos]
    · simpa [hpos] using hleft
  cases hrs : req.filter fun r => r.orderLineId = l.id with
  | nil =>
    rw [takenOf, pickLine, if_neg hreq, hrs]
    have hno : ¬0 < min (left l) 0 := by omega
    simpa [hno] using hleft
  | cons r rs =>
    rcases hleft.lt_or_eq with hpos | hzero
    · rw [takenOf_cons hreq hrs hpos]
      rcases h with hlen | hzero | hsum
      · cases hq : requested req l.id with
        | nil => simpa using hleft
        | cons q qs =>
          rw [hq, List.length_cons] at hlen
          obtain rfl : qs = [] := List.length_eq_zero_iff.1 (by omega)
          simp
      · omega
      · exact sum_map_min_le.trans hsum
    · -- nothing is left, so nothing positive is picked
      have hnone : takenOf req left l = [] := by
        rw [takenOf, pickLine, if_neg hreq, hrs, List.map_eq_nil_iff, List.filter_eq_nil_iff]
        intro x hx
        obtain ⟨r', -, rfl⟩ := List.mem_map.1 hx
        simp [← hzero]
      rw [hnone]
      exact hleft

/-- Of lines with different ids a request takes what it takes of each. -/
theorem filter_pick {req : List LineQty} {left : DocLine → ℤ} {ls : List DocLine} (hn : (ls.map (·.id)).Nodup)
    {l : DocLine} (hl : l ∈ ls) :
    ((pick req left ls).filter fun x => x.1.id = l.id).map Prod.snd = takenOf req left l := by
  induction ls with
  | nil => cases hl
  | cons m ls ih =>
    rw [List.map_cons, List.nodup_cons] at hn
    rw [pick, List.flatMap_cons, List.filter_append, List.filter_append, List.map_append]
    have hown : ∀ {y : DocLine}, y.id = l.id → ((pickLine req left y).filter fun x => 0 < x.2).filter (fun x => x.1.id = l.id) =
        (pickLine req left y).filter fun x => 0 < x.2 := by
      intro y hy
      refine List.filter_eq_self.2 fun x hx => ?_
      rw [fst_of_mem_pickLine (List.mem_filter.1 hx).1]
      exact decide_eq_true hy
    have hother : ∀ {y : DocLine}, y.id ≠ l.id → ((pickLine req left y).filter fun x => 0 < x.2).filter (fun x => x.1.id = l.id) =
        [] := by
      intro y hy
      refine List.filter_eq_nil_iff.2 fun x hx => ?_
      rw [fst_of_mem_pickLine (List.mem_filter.1 hx).1]
      simpa using hy
    rcases List.mem_cons.1 hl with rfl | hl
    · have hrest : ((ls.flatMap (pickLine req left)).filter fun x => 0 < x.2).filter (fun x => x.1.id = l.id) = [] := by
        refine List.filter_eq_nil_iff.2 fun x hx he => ?_
        obtain ⟨y, hy, hxy⟩ := List.mem_flatMap.1 (List.mem_filter.1 hx).1
        rw [fst_of_mem_pickLine hxy] at he
        exact hn.1 (List.mem_map.2 ⟨y, hy, of_decide_eq_true he⟩)
      rw [hown rfl, hrest, List.map_nil, List.append_nil, takenOf]
    · have hne : m.id ≠ l.id := fun e => hn.1 (List.mem_map.2 ⟨l, hl, e.symm⟩)
      rw [hother hne, List.map_nil, List.nil_append]
      exact ih hn.2 hl

/-! ### Order lines and what is linked to them -/

/-- `l` is a line of the order `o` of the side. -/
structure DB.OrderLine (db : DB) (side : Side) (l : DocLine) (o : Doc) : Prop where
  line : l ∈ db.docLines
  order : o ∈ db.docs
  ofOrder : o.id = l.docId
  kind : o.kind = side.order

/-- What is linked to an order line is positive and of an order that is no draft, and no more than is ordered. -/
structure DB.FulfilOk (db : DB) : Prop where
  positive : ∀ side k, ∀ q ∈ db.moves side k, 0 < q
  ordered : ∀ side k, db.moves side k ≠ [] → ∃ l o, db.OrderLine side l o ∧ l.id = k ∧ o.status ≠ .draft
  within : ∀ side l o, db.OrderLine side l o → (db.moves side l.id).sum ≤ l.quantity

theorem moved_eq_sum (db : DB) (side : Side) (k : ℕ) : db.moved side k = (db.moves side k).sum := by
  cases side with
  | sales =>
    show -(List.map _ _).sum = _
    rw [List.sum_neg, List.map_map]
    rfl
  | purchase => rfl

/-- What is left of a line that is not over-fulfilled. -/
theorem toMove_cases {db : DB} {side : Side} {l : DocLine} (h : (db.moves side l.id).sum ≤ l.quantity) :
    0 ≤ db.toMove side l ∧ (db.moves side l.id).sum + db.toMove side l ≤ l.quantity := by
  unfold DB.toMove
  rw [moved_eq_sum]
  split
  · omega
  · omega

/-- Orders that are there stay, out of the draft once they are out of it; the others have no linked movements. -/
theorem DB.FulfilOk.mono {db db' : DB} (h : db.FulfilOk)
    (hmoves : ∀ side k, (db'.moves side k).Sublist (db.moves side k))
    (hkeep : ∀ side l o, db.OrderLine side l o → o.status ≠ .draft →
      ∃ o', db'.OrderLine side l o' ∧ o'.status ≠ .draft)
    (hpos : ∀ side l o, db'.OrderLine side l o → 0 < l.quantity) : db'.FulfilOk := by
  have hordered : ∀ side k, db'.moves side k ≠ [] →
      ∃ l o o', db.OrderLine side l o ∧ db'.OrderLine side l o' ∧ l.id = k ∧ o'.status ≠ .draft := by
    intro side k hne
    have hne' : db.moves side k ≠ [] := fun e => hne (List.sublist_nil.1 (e ▸ hmoves side k))
    obtain ⟨l, o, ho, hk, hs⟩ := h.ordered side k hne'
    obtain ⟨o', ho', hs'⟩ := hkeep side l o ho hs
    exact ⟨l, o, o', ho, ho', hk, hs'⟩
  refine ⟨fun side k q hq => h.positive side k q ((hmoves side k).subset hq), fun side k hne => ?_,
    fun side l o ho => ?_⟩
  · obtain ⟨l, -, o', -, ho', hk, hs'⟩ := hordered side k hne
    exact ⟨l, o', ho', hk, hs'⟩
  · by_cases hne : db'.moves side l.id = []
    · rw [hne]
      exact (hpos side l o ho).le
    · -- the line that the movements are linked to is this one
      obtain ⟨m, x, y, hx, hy, hid, -⟩ := hordered side l.id hne
      obtain rfl : m = l := Table.key_inj hy.line ho.line hid
      have hle := h.within side m x hx
      have hsum : (db'.moves side m.id).sum ≤ (db.moves side m.id).sum :=
        (hmoves side m.id).sum_le_sum fun q hq => (h.positive side m.id q hq).le
      omega

/-! ### Steps -/

theorem Side.order_isOrder (side : Side) : side.order.isOrder = true := by
  cases side <;> rfl

theorem DB.DocsOk.quantity_pos {db : DB} (h : db.DocsOk) {side : Side} {l : DocLine} {o : Doc}
    (ho : db.OrderLine side l o) : 0 < l.quantity :=
  (h.ordered l ho.line o ho.order ho.ofOrder (ho.kind ▸ side.order_isOrder)).1

theorem DB.OrderLine.of_same {db db' : DB} {side : Side} {l : DocLine} {o : Doc} (h : db.OrderLine side l o)
    (hd : db'.docs = db.docs) (hl : db'.docLines = db.docLines) : db'.OrderLine side l o :=
  ⟨hl ▸ h.line, hd ▸ h.order, h.ofOrder, h.kind⟩

/-- A change of one document that is no order. -/
theorem DB.OrderLine.of_update {db db' : DB} {side : Side} {l : DocLine} {o : Doc} (h : db.OrderLine side l o) {id : ℕ}
    {d : Doc} (hd : db.docs.find? id = some d) (hk : d.kind.isOrder = false) {f : Doc → Doc} {hf : ∀ d, (f d).id = d.id}
    (hdocs : db'.docs = db.docs.update [id] f hf) (hl : db'.docLines = db.docLines) : db'.OrderLine side l o := by
  refine ⟨hl ▸ h.line, hdocs ▸ (Table.mem_update hf).2 ⟨o, h.order, if_neg fun hmem => ?_⟩, h.ofOrder, h.kind⟩
  have hid : o.id = id := List.mem_singleton.1 hmem
  obtain rfl : o = d := Option.some.inj ((hid ▸ Table.find?_key h.order : db.docs.find? id = some o).symm.trans hd)
  rw [h.kind, side.order_isOrder] at hk
  cases hk

/-- An order that is no draft keeps its lines when a document is edited. -/
theorem DB.OrderLine.of_docEdit {db db' : DB} {side : Side} {l : DocLine} {o : Doc} (h : db.OrderLine side l o)
    (hs : o.status ≠ .draft) {id : ℕ} (he : DocEdit id db db') : ∃ o', db'.OrderLine side l o' ∧ o'.status ≠ .draft := by
  have hline : ∀ {k : ℕ}, db'.linesOfDoc k = db.linesOfDoc k → l.docId = k → l ∈ db'.docLines := by
    rintro k hk rfl
    have hmem : l ∈ db.linesOfDoc l.docId := List.mem_filter.2 ⟨h.line, decide_eq_true rfl⟩
    rw [← hk] at hmem
    exact (List.mem_filter.1 hmem).1
  have hfind : db.docs.find? o.id = some o := Table.find?_key h.order
  by_cases hid : o.id = id
  · subst hid
    obtain ⟨⟨d', hd', hk, hs'⟩, hlines⟩ := he.frozen o hfind hs
    obtain ⟨hm, hid'⟩ := Table.find?_eq_some.1 hd'
    exact ⟨d', ⟨hline hlines h.ofOrder.symm, hm, hid'.trans h.ofOrder, (congrArg Doc.kind hk).trans h.kind⟩, hs'⟩
  · have hfind' : db'.docs.find? o.id = some o := (he.others _ hid).trans hfind
    exact ⟨o, ⟨hline (he.otherLines _ hid) h.ofOrder.symm, Table.mem_of_find? hfind', h.ofOrder, h.kind⟩, hs⟩

/-- What a request picks is positive and of lines of the order. -/
theorem orderLine_of_picked {db : DB} {side : Side} {id : ℕ} {req : List LineQty} {o : Doc}
    (ho : db.docOf side.order id = some o) {x : DocLine × ℤ} (hx : x ∈ db.picked side id req) :
    db.OrderLine side x.1 o ∧ 0 < x.2 := by
  obtain ⟨hfind, hkind⟩ := docOf_eq_some.1 ho
  obtain ⟨hom, hoid⟩ := Table.find?_eq_some.1 hfind
  obtain ⟨hpicked, hpos⟩ := mem_of_mem_pick hx
  obtain ⟨hmem, hdoc⟩ := List.mem_filter.1 (List.mem_filter.1 hpicked).1
  exact ⟨⟨hmem, hom, hoid.trans (of_decide_eq_true hdoc).symm, hkind⟩, hpos⟩

/-- What a request that is modest at each line of the order picks of a line fits into what is left of it. -/
theorem sum_picked_le {db : DB} {side : Side} {id : ℕ} {req : List LineQty} {l : DocLine} (hl : l ∈ db.docLines)
    (hle : (db.moves side l.id).sum ≤ l.quantity)
    (hreq : ∀ l ∈ (db.linesOfDoc id).filter db.isMovable, Modest req l.id (db.toMove side l)) :
    (db.moves side l.id).sum + (((db.picked side id req).filter fun x => x.1.id = l.id).map Prod.snd).sum ≤ l.quantity := by
  have hsub : ((db.linesOfDoc id).filter db.isMovable).Sublist db.docLines.rows :=
    List.filter_sublist.trans List.filter_sublist
  have hnodup : (((db.linesOfDoc id).filter db.isMovable).map (·.id)).Nodup := db.docLines.nodup.sublist (hsub.map _)
  by_cases hmem : l ∈ (db.linesOfDoc id).filter db.isMovable
  · have htaken : ((db.picked side id req).filter fun y => y.1.id = l.id).map Prod.snd = takenOf req (db.toMove side) l :=
      filter_pick hnodup hmem
    obtain ⟨hleft, hroom⟩ := toMove_cases hle
    have := sum_takenOf_le hleft (hreq l hmem)
    rw [htaken]
    omega
  · -- a line that the request does not pick from
    have hnone : (db.picked side id req).filter (fun y => y.1.id = l.id) = [] := by
      refine List.filter_eq_nil_iff.2 fun y hy he => hmem ?_
      have hline : y.1 ∈ db.docLines := hsub.subset (mem_of_mem_pick hy).1
      obtain rfl : y.1 = l := Table.key_inj hline hl (of_decide_eq_true he)
      exact (mem_of_mem_pick hy).1
    rw [hnone]
    simpa using hle

/-- A request for an open order that is modest at each of its lines. -/
theorem DB.FulfilOk.fulfil {db db' : DB} (h : db.FulfilOk) {side : Side} {id : ℕ} {req : List LineQty} {o : Doc}
    (ho : db.docOf side.order id = some o) (hs : o.status = .opened)
    (hmoves : ∀ side' k, db'.moves side' k = db.moves side' k ++
      if side' = side then ((db.picked side id req).filter fun x => x.1.id = k).map Prod.snd else [])
    (hd : db'.docs = db.docs) (hl : db'.docLines = db.docLines)
    (hreq : ∀ l ∈ (db.linesOfDoc id).filter db.isMovable, Modest req l.id (db.toMove side l)) : db'.FulfilOk := by
  have horder : ∀ {x : DocLine × ℤ}, x ∈ db.picked side id req → db.OrderLine side x.1 o := fun hx =>
    (orderLine_of_picked ho hx).1
  refine ⟨fun side' k q hq => ?_, fun side' k hne => ?_, fun side' l x hx => ?_⟩
  · rw [hmoves] at hq
    rcases List.mem_append.1 hq with hq | hq
    · exact h.positive side' k q hq
    · split at hq
      · obtain ⟨y, hy, rfl⟩ := List.mem_map.1 hq
        exact (mem_of_mem_pick (List.mem_filter.1 hy).1).2
      · cases hq
  · by_cases hold : db.moves side' k = []
    · rw [hmoves, hold, List.nil_append] at hne
      split at hne
      · rename_i hside
        subst hside
        obtain ⟨q, hq⟩ := List.exists_mem_of_ne_nil _ hne
        obtain ⟨y, hy, -⟩ := List.mem_map.1 hq
        obtain ⟨hy, hk⟩ := List.mem_filter.1 hy
        exact ⟨y.1, o, (horder hy).of_same hd hl, of_decide_eq_true hk, by simp [hs]⟩
      · exact absurd rfl hne
    · obtain ⟨l, x, hx, hk, hs'⟩ := h.ordered side' k hold
      exact ⟨l, x, hx.of_same hd hl, hk, hs'⟩
  · have hx : db.OrderLine side' l x := hx.of_same hd.symm hl.symm
    have hle := h.within side' l x hx
    rw [hmoves, List.sum_append]
    split
    · rename_i hside
      subst hside
      exact sum_picked_le hx.line hle hreq
    · simpa using hle

namespace DB

/-- A request to ship or receive lists no line of the order more than once, or no more than is left of it. -/
def requestsModest (db : DB) (op : Op) : Bool :=
  op.fulfils.all fun (side, id, req) =>
    ((db.linesOfDoc id).filter db.isMovable).all fun l => Modest req l.id (db.toMove side l)

end DB

theorem MovesEdit.fulfilOk {op : Op} {db db' : DB} (h : MovesEdit op db db') (hd : db'.docs = db.docs)
    (hl : db'.docLines = db.docLines) (hi : db.FulfilOk) (ho : db.DocsOk) (hop : db.requestsModest op = true) :
    db'.FulfilOk := by
  cases h with
  | fewer h hold =>
    refine hi.mono h (fun side l o hlo hs => ⟨o, hlo.of_same hd hl, hs⟩) fun side l o hlo => ?_
    exact ho.quantity_pos (hlo.of_same hd.symm hl.symm)
  | fulfil hfulfils hdoc hs h hnew =>
    rw [DB.requestsModest, hfulfils, Option.all_some, List.all_eq_true] at hop
    exact hi.fulfil hdoc hs h hd hl fun l hm => of_decide_eq_true (hop l hm)

theorem Effect.fulfilOk {lo : ℕ} {op : Op} {db db' : DB} (h : Effect lo op db db') (hi : db.FulfilOk) (ho : db.DocsOk)
    (hop : db.requestsModest op = true) : db'.FulfilOk := by
  have hpos : ∀ side l o, db'.OrderLine side l o → 0 < l.quantity := fun _ _ _ hlo => (h.docsOk ho).quantity_pos hlo
  have outside : db'.docs = db.docs → db'.docLines = db.docLines → db'.movements = db.movements → db'.FulfilOk :=
    fun hd hl hm => hi.mono (fun side k => moves_congr hm side k ▸ List.Sublist.refl _)
      (fun side l o hlo hs => ⟨o, hlo.of_same hd hl, hs⟩) hpos
  have document : ∀ {id : ℕ} {d : Doc} {f : Doc → Doc} (hf : ∀ d, (f d).id = d.id), db.docs.find? id = some d →
      d.kind.isOrder = false → db'.docs = db.docs.update [id] f hf → db'.docLines = db.docLines →
      db'.movements = db.movements → db'.FulfilOk := fun hf hd hk hdocs hl hm =>
    hi.mono (fun side k => moves_congr hm side k ▸ List.Sublist.refl _)
      (fun side l o hlo hs => ⟨o, hlo.of_update hd hk hdocs hl, hs⟩) hpos
  have movement : ∀ {id : ℕ} {f : StockMovement → StockMovement} (hf : ∀ m, (f m).id = m.id),
      (∀ m, (f m).source = m.source ∧ (f m).quantity = m.quantity) → db'.docs = db.docs → db'.docLines = db.docLines →
      db'.movements = db.movements.update [id] f hf → db'.FulfilOk := fun {id f} hf hsame hd hl hm => by
    refine hi.mono (fun side k => ?_) (fun side l o hlo hs => ⟨o, hlo.of_same hd hl, hs⟩) hpos
    rw [moves_update hf hm (fun m _ _ => ⟨(hsame m).1, .inr (hsame m).2⟩)]
  cases h with
  | outside h => exact outside h.docs h.docLines h.movements
  | docEdit id h =>
    refine hi.mono (fun side k => ?_) (fun side l o hlo hs => hlo.of_docEdit hs h) hpos
    have hm : db'.movements = db.movements := by rw [h.eq]
    exact moves_congr hm side k ▸ List.Sublist.refl _
  | paymentEdit id h => exact outside (by rw [h.eq]) (by rw [h.eq]) (by rw [h.eq])
  | movementEdit h hm => exact hm.fulfilOk (by rw [h.eq]) (by rw [h.eq]) hi ho hop
  | postDoc kind id hd hs ht hw =>
    obtain ⟨hd, hk⟩ := docOf_eq_some.1 hd
    exact document (by intro; rfl) hd (hk ▸ kind.not_isOrder) rfl (by rw [hw.eq]) (by rw [hw.eq])
  | postPayment side id hp hs ht hw => exact outside (by rw [hw.eq]) (by rw [hw.eq]) (by rw [hw.eq])
  | postMovement id hm hj hw => exact movement (by intro; rfl) (by intro; exact ⟨rfl, rfl⟩) (by rw [hw.eq]) (by rw [hw.eq]) rfl
  | autoApply side settler id n hn hc hfree hfx hch => exact outside (by rw [hfx.eq]) (by rw [hfx.eq]) (by rw [hfx.eq])
  | unpostDoc hd hs hj happs hr =>
    obtain ⟨hd, hk⟩ := docOf_eq_some.1 hd
    exact document (by intro; rfl) hd (hk ▸ PostedKind.not_isOrder _) rfl (by rw [hr.wrote.eq]) (by rw [hr.wrote.eq])
  | unpostPayment hp hs hj hr => exact outside (by rw [hr.eq]) (by rw [hr.eq]) (by rw [hr.eq])
  | unpostMovement hm hj hr =>
    exact movement (by intro; rfl) (by intro; exact ⟨rfl, rfl⟩) (by rw [hr.wrote.eq]) (by rw [hr.wrote.eq]) rfl
  | closeEmpty id hopen h => exact outside (by rw [h.eq]) (by rw [h.eq]) (by rw [h.eq])
  | closeYear id hopen hw he h => exact outside (by rw [h.eq, hw.eq]) (by rw [h.eq, hw.eq]) (by rw [h.eq, hw.eq])
  | reopenYear id hc hmid hlink hr =>
    exact outside (by rw [hr.wrote.eq, hmid]) (by rw [hr.wrote.eq, hmid]) (by rw [hr.wrote.eq, hmid])

/-! ### Runs -/

theorem Runs.fulfilOk {s : Store DB} (h : Runs (fun s op => s.db.requestsModest op = true) seeded s) :
    s.db.FulfilOk := by
  induction h with
  | refl =>
    refine ⟨fun side k q hq => ?_, fun side k hne => absurd rfl hne, fun side l o ho => ?_⟩
    · cases hq
    · exact absurd ho.line (Table.not_mem_empty l)
  | step hrun hop hc ih =>
    have hs := hrun.reachable .start
    exact (commit_effect hc hs.fresh).1.fulfilOk ih hs.docsOk hop

/-- As long as no request lists an order line more than once with more than is left of it, no order line is shipped or
received beyond what is ordered. -/
theorem moved_le_quantity {s : Store DB} (h : Runs (fun s op => s.db.requestsModest op = true) seeded s) :
    ∀ side l o, s.db.OrderLine side l o → s.db.moved side l.id ≤ l.quantity := by
  intro side l o ho
  rw [moved_eq_sum]
  exact h.fulfilOk.within side l o ho

def orderInput : DocInput :=
  { number := "S1", partyId := 13, date := march5, currencyCode := "USD",
    lines := [{ productId := some 14, quantity := 10 * 10 ^ 4, unitPrice := dollars 7 }] }

/-- An open sales order (16) for ten pieces of a product, on the line 17. -/
def ordered : List Op := [
  .createParty .sales (some 2),
  .createProduct ⟨some 8, some 3, some 9, true, true⟩,
  .createWarehouse,
  .createDoc .salesOrder orderInput,
  .confirmOrder .sales 16]

/-- Six pieces are shipped, then the four that are left. -/
theorem moved_le_quantity_shipped : ∃ s : Store DB, s.db.moved .sales 17 = 10 * 10 ^ 4 ∧
    ∀ side l o, s.db.OrderLine side l o → s.db.moved side l.id ≤ l.quantity := by
  have hany : (executeIf (fun s op => s.db.requestsModest op) (ordered ++
      [.ship 16 ⟨15, march6, [⟨17, 6 * 10 ^ 4⟩]⟩, .ship 16 ⟨15, day 3 7, [⟨17, 9 * 10 ^ 4⟩]⟩]) seeded).any
      fun s => s.db.moved .sales 17 = 10 * 10 ^ 4 := by decide +kernel
  obtain ⟨s, hs, hmoved⟩ := (Option.any_eq_true ..).1 hany
  exact ⟨s, of_decide_eq_true hmoved, moved_le_quantity (runs_executeIf hs)⟩

def twice : MoveInput := ⟨15, march6, [⟨17, 10 * 10 ^ 4⟩, ⟨17, 10 * 10 ^ 4⟩]⟩

/-- One request that lists the line twice ships twenty pieces of the ten that were ordered. -/
theorem shipped_twice : ¬∀ s : Store DB, Reachable s → ∀ side l o, s.db.OrderLine side l o →
    s.db.moved side l.id ≤ l.quantity := by
  obtain ⟨s, hs, hp⟩ := exists_reachable
    (ordered ++ [.ship 16 twice])
    (p := fun s => s.db.moved .sales 17 = 20 * 10 ^ 4 ∧
      (s.db.docLines.find? 17).any (fun l => l.quantity = 10 * 10 ^ 4 ∧ l.docId = 16) ∧
      (s.db.docs.find? 16).any (·.kind = .salesOrder))
    (by decide +kernel)
  obtain ⟨hmoved, hline, horder⟩ := of_decide_eq_true hp
  obtain ⟨l, hl, hq⟩ := (Option.any_eq_true ..).1 hline
  obtain ⟨o, ho, hk⟩ := (Option.any_eq_true ..).1 horder
  obtain ⟨hq, hdoc⟩ := of_decide_eq_true hq
  obtain ⟨hlm, hlid⟩ := Table.find?_eq_some.1 hl
  obtain ⟨hom, hoid⟩ := Table.find?_eq_some.1 ho
  intro hall
  have hle := hall s hs .sales l o ⟨hlm, hom, hoid.trans hdoc.symm, of_decide_eq_true hk⟩
  rw [show l.id = 17 from hlid, hmoved, hq] at hle
  omega
