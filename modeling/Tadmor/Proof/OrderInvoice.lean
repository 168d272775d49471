import Tadmor.Proof.Rows
import Tadmor.Proof.Shipping

/-!
# Invoices and bills of orders

What a request takes of an order line is what is left of it, or what it asks for if that is less.  The document that is
created has the lines that something is taken of, and nothing else is left of them; without the document everything is
left again.
-/

/-! ### What a request takes -/

/-- What a request takes of an order line; a request that names no line takes all that is left. -/
def DB.share (db : DB) (req : List LineQty) (l : DocLine) : ℤ :=
  if req = [] then db.toInvoice l
  else min (db.toInvoice l) (((req.find? fun r => r.orderLineId = l.id).map (·.quantity)).getD 0)

/-- The lines that something is taken of, by their ids. -/
def DB.shares (db : DB) (id : ℕ) (req : List LineQty) : List (DocLine × ℤ) :=
  ((db.orderLines id).map fun l => (l, db.share req l)).filter fun x => 0 < x.2

variable {db : DB} {id : ℕ} {req : List LineQty}

theorem share_le {l : DocLine} : db.share req l ≤ db.toInvoice l := by
  rw [DB.share]
  split
  · exact le_rfl
  · exact min_le_left _ _

theorem toInvoice_nonneg {l : DocLine} : 0 ≤ db.toInvoice l := le_max_right _ _

/-- A request that names every line once at most picks at most once of a line. -/
theorem pickLine_eq (hreq : (req.map (·.orderLineId)).Nodup) (l : DocLine) :
    pickLine req db.toInvoice l = [(l, db.share req l)] := by
  rw [pickLine, DB.share]
  by_cases hnil : req = []
  · rw [if_pos hnil, if_pos hnil]
  · rw [if_neg hnil, if_neg hnil]
    have hfind : req.find? (fun r => r.orderLineId = l.id) = (req.filter fun r => r.orderLineId = l.id).head? := by
      rw [List.head?_filter]
    rw [hfind]
    cases hrs : req.filter fun r => r.orderLineId = l.id with
    | nil => rfl
    | cons r rs =>
      -- a second request of the line would have the same id
      have hsub : ((r :: rs).map (·.orderLineId)).Sublist (req.map (·.orderLineId)) := hrs ▸ List.filter_sublist.map _
      have hall : ∀ x ∈ r :: rs, x.orderLineId = l.id := by
        intro x hx
        rw [← hrs] at hx
        exact of_decide_eq_true (List.mem_filter.1 hx).2
      cases rs with
      | nil => rfl
      | cons r' rs =>
        have hr := hall r (List.mem_cons_self ..)
        have hr' := hall r' (List.mem_cons_of_mem _ (List.mem_cons_self ..))
        have hn := hreq.sublist hsub
        rw [List.map_cons, List.map_cons, hr, hr', List.nodup_cons] at hn
        exact absurd (List.mem_cons_self ..) hn.1

theorem pick_eq_shares (hreq : (req.map (·.orderLineId)).Nodup) :
    pick req db.toInvoice (db.orderLines id) = db.shares id req := by
  have hmap : (db.orderLines id).flatMap (pickLine req db.toInvoice) =
      (db.orderLines id).map fun l => (l, db.share req l) := by
    rw [← List.flatMap_singleton' (l := (db.orderLines id).map _), List.flatMap_map]
    exact congrArg (fun f => (db.orderLines id).flatMap f) (funext fun l => pickLine_eq hreq l)
  rw [pick, hmap]
  rfl

theorem mem_orderLines {l : DocLine} : l ∈ db.orderLines id ↔ l ∈ db.linesOfDoc id :=
  (List.perm_insertionSort _ _).mem_iff

theorem mem_shares {x : DocLine × ℤ} :
    x ∈ db.shares id req ↔ x.1 ∈ db.linesOfDoc id ∧ x.2 = db.share req x.1 ∧ 0 < x.2 := by
  obtain ⟨l, q⟩ := x
  rw [DB.shares, List.mem_filter, List.mem_map, decide_eq_true_eq]
  constructor
  · rintro ⟨⟨l', hl, he⟩, hpos⟩
    obtain ⟨rfl, rfl⟩ := Prod.mk.inj he
    exact ⟨mem_orderLines.1 hl, rfl, hpos⟩
  · intro ⟨hl, hq, hpos⟩
    exact ⟨⟨l, mem_orderLines.2 hl, Prod.ext rfl hq.symm⟩, hpos⟩

/-- The lines of an order come with increasing ids. -/
theorem orderLines_sorted (db : DB) (id : ℕ) : (db.orderLines id).Pairwise fun l m => l.id < m.id := by
  have hle : (db.orderLines id).Pairwise fun l m => l.id ≤ m.id :=
    List.pairwise_insertionSort (fun l m : DocLine => l.id ≤ m.id) _
  have hnodup : ((db.orderLines id).map (·.id)).Nodup := by
    rw [DB.orderLines, ((List.perm_insertionSort _ _).map _).nodup_iff]
    exact db.docLines.nodup.sublist (List.filter_sublist.map _)
  rw [List.Nodup, List.pairwise_map] at hnodup
  exact (hle.and hnodup).imp fun ⟨h₁, h₂⟩ => lt_of_le_of_ne h₁ h₂

/-! ### The lines of the document -/

/-- The line of the document `docId` that takes `x.2` of the order line `x.1`. -/
def invoiceLine (docId id lineNo : ℕ) (x : DocLine × ℤ) : DocLine :=
  { id, docId, lineNo, productId := x.1.productId, description := x.1.description, quantity := x.2,
    unitPrice := x.1.unitPrice, accountId := x.1.accountId, taxCode := x.1.taxCode, taxRate := x.1.taxRate,
    orderLineId := some x.1.id }

/-- The lines of the document, numbered from 1. -/
def invoiceLines (docId n : ℕ) (xs : List (DocLine × ℤ)) : List DocLine :=
  xs.zipIdx.map fun y => invoiceLine docId (n + y.2) (y.2 + 1) y.1

theorem numberRows_numberFrom (docId n : ℕ) (xs : List (DocLine × ℤ)) (i : ℕ) :
    numberRows docId (n + i) (numberFrom (i + 1) xs) =
      (xs.zipIdx i).map fun y => invoiceLine docId (n + y.2) (y.2 + 1) y.1 := by
  induction xs generalizing i with
  | nil => rfl
  | cons x xs ih =>
    rw [List.zipIdx_cons, List.map_cons, ← ih (i + 1)]
    rfl

variable {docId n : ℕ} {xs : List (DocLine × ℤ)}

theorem numberRows_eq_invoiceLines : numberRows docId n (numberFrom 1 xs) = invoiceLines docId n xs :=
  numberRows_numberFrom docId n xs 0

theorem map_lineNo_invoiceLines : (invoiceLines docId n xs).map (·.lineNo) = List.range' 1 xs.length := by
  rw [invoiceLines, List.map_map, List.range'_eq_map_range]
  show xs.zipIdx.map ((fun i => i + 1) ∘ Prod.snd) = _
  rw [← List.map_map, List.zipIdx_map_snd, List.range_eq_range']
  exact List.map_congr_left fun i _ => Nat.add_comm i 1

theorem mem_invoiceLines {l : DocLine} (h : l ∈ invoiceLines docId n xs) :
    ∃ i lineNo, ∃ x ∈ xs, l = invoiceLine docId i lineNo x := by
  obtain ⟨y, hy, rfl⟩ := List.mem_map.1 h
  have hx : y.1 ∈ xs.zipIdx.map Prod.fst := List.mem_map_of_mem hy
  rw [List.zipIdx_map_fst] at hx
  exact ⟨_, _, y.1, hx, rfl⟩

/-- What is computed of the quantity and the order line alone is computed of `xs`. -/
theorem map_invoiceLines {β : Type} {f : DocLine → β} {g : DocLine × ℤ → β}
    (h : ∀ i lineNo x, f (invoiceLine docId i lineNo x) = g x) : (invoiceLines docId n xs).map f = xs.map g := by
  have hfst : xs.zipIdx.map (g ∘ Prod.fst) = xs.map g := by rw [← List.map_map, List.zipIdx_map_fst]
  rw [← hfst, invoiceLines, List.map_map]
  exact List.map_congr_left fun y _ => h _ _ y.1

theorem invoiceLines_eq_nil : invoiceLines docId n xs = [] ↔ xs = [] := by
  rw [invoiceLines, List.map_eq_nil_iff, List.zipIdx_eq_nil_iff]

/-- The lines of the document that fulfil the order line `k`. -/
theorem map_quantity_invoiceLines (k : ℕ) :
    ((invoiceLines docId n xs).filter fun l => l.orderLineId = some k).map (·.quantity) =
      (xs.filter fun x => x.1.id = k).map Prod.snd := by
  have hfilter : (xs.zipIdx.filter fun y => y.1.1.id = k).map Prod.fst = xs.filter fun x => x.1.id = k := by
    conv_rhs => rw [← List.zipIdx_map_fst 0 xs]
    rw [List.filter_map]
    rfl
  rw [← hfilter, List.map_map, invoiceLines, List.filter_map, List.map_map]
  refine congrArg (List.map _) (List.filter_congr fun y _ => ?_)
  exact decide_eq_decide.2 (Option.some_inj (a := y.1.1.id) (b := k))

/-! ### A new document -/

/-- The database with the document `d` of the lines `ls`. -/
def DB.withDoc (db : DB) (d : Doc) (ls : List DocLine) : DB :=
  { db with docs := db.docs.insert d, docLines := db.docLines.insertAll ls }

/-- A document that is no void, of new lines of its own. -/
structure DB.NewDoc (db : DB) (d : Doc) (ls : List DocLine) : Prop where
  free : db.docs.Free d.id
  freeLines : db.docLines.AllFree ls
  own : ∀ l ∈ ls, l.docId = d.id
  status : d.status ≠ .void

section newDoc

variable {d : Doc} {ls : List DocLine}

theorem DB.NewDoc.docLines (h : db.NewDoc d ls) : (db.withDoc d ls).docLines.rows = db.docLines.rows ++ ls :=
  Table.rows_insertAll h.freeLines

theorem DB.NewDoc.find? (h : db.NewDoc d ls) : (db.withDoc d ls).docs.find? d.id = some d :=
  Table.find?_insert_self h.free

theorem DB.NewDoc.find?_of_ne {k : ℕ} (hk : k ≠ d.id) : (db.withDoc d ls).docs.find? k = db.docs.find? k :=
  Table.find?_insert_of_ne (Ne.symm hk)

/-- The document of a line that was there is not the new one. -/
theorem DB.NewDoc.ne (h : db.NewDoc d ls) (ho : db.DocsOk) {l : DocLine} (hl : l ∈ db.docLines) : l.docId ≠ d.id := by
  obtain ⟨x, hx, hid⟩ := ho.lines l hl
  exact hid ▸ h.free x hx

theorem DB.NewDoc.linesOfDoc (h : db.NewDoc d ls) (ho : db.DocsOk) : (db.withDoc d ls).linesOfDoc d.id = ls := by
  have hold : db.docLines.rows.filter (fun l => l.docId = d.id) = [] := ho.linesOfDoc h.free
  have hnew : ls.filter (fun l => l.docId = d.id) = ls := List.filter_eq_self.2 fun l hl => decide_eq_true (h.own l hl)
  rw [DB.linesOfDoc, h.docLines, List.filter_append, hold, hnew, List.nil_append]

theorem DB.NewDoc.linesOfDoc_of_ne (h : db.NewDoc d ls) {k : ℕ} (hk : k ≠ d.id) :
    (db.withDoc d ls).linesOfDoc k = db.linesOfDoc k := by
  have hnew : ls.filter (fun l => l.docId = k) = [] := by
    rw [List.filter_eq_nil_iff]
    intro l hl e
    exact hk ((of_decide_eq_true e).symm.trans (h.own l hl))
  rw [DB.linesOfDoc, h.docLines, List.filter_append, hnew, List.append_nil]
  rfl

/-- What the new lines fulfil is added. -/
theorem DB.NewDoc.fulfilled (h : db.NewDoc d ls) (ho : db.DocsOk) (k : ℕ) : (db.withDoc d ls).fulfilled k =
    db.fulfilled k + ((ls.filter fun l => l.orderLineId = some k).map (·.quantity)).sum := by
  have hold : db.docLines.rows.filter (fun m => m.orderLineId = some k &&
      ((db.withDoc d ls).docs.find? m.docId).any fun x => x.status ≠ .void) =
      db.docLines.rows.filter fun m => m.orderLineId = some k && (db.docs.find? m.docId).any fun x => x.status ≠ .void := by
    refine List.filter_congr fun m hm => ?_
    rw [DB.NewDoc.find?_of_ne (h.ne ho hm)]
  have hnew : ls.filter (fun m => m.orderLineId = some k &&
      ((db.withDoc d ls).docs.find? m.docId).any fun x => x.status ≠ .void) =
      ls.filter fun m => m.orderLineId = some k := by
    refine List.filter_congr fun m hm => ?_
    rw [h.own m hm, h.find?, Option.any_some, decide_eq_true h.status, Bool.and_true]
  rw [DB.fulfilled, h.docLines, List.filter_append, hold, hnew, List.map_append, List.sum_append]
  rfl

theorem DB.NewDoc.toInvoice (h : db.NewDoc d []) (ho : db.DocsOk) (l : DocLine) :
    (db.withDoc d []).toInvoice l = db.toInvoice l := by
  have hsum : (db.withDoc d []).fulfilled l.id = db.fulfilled l.id + 0 := h.fulfilled ho l.id
  rw [DB.toInvoice, hsum, add_zero]
  rfl

end newDoc

/-- What the document takes of an order line. -/
theorem sum_pick (hreq : (req.map (·.orderLineId)).Nodup) {l : DocLine} (hl : l ∈ db.docLines) :
    (((db.shares id req).filter fun x => x.1.id = l.id).map Prod.snd).sum =
      if l.docId = id then max (db.share req l) 0 else 0 := by
  by_cases hid : l.docId = id
  · rw [if_pos hid]
    have hmem : l ∈ db.orderLines id := mem_orderLines.2 (List.mem_filter.2 ⟨hl, decide_eq_true hid⟩)
    have hnodup : ((db.orderLines id).map (·.id)).Nodup := by
      rw [List.Nodup, List.pairwise_map]
      exact (orderLines_sorted db id).imp fun h => h.ne
    rw [← pick_eq_shares hreq, filter_pick hnodup hmem, takenOf, pickLine_eq hreq, List.filter_singleton]
    by_cases hpos : 0 < db.share req l
    · simp [hpos, hpos.le]
    · simp [hpos, not_lt.1 hpos]
  · rw [if_neg hid]
    have hnone : (db.shares id req).filter (fun x => x.1.id = l.id) = [] := by
      rw [List.filter_eq_nil_iff]
      intro x hx e
      obtain ⟨hline, hdoc⟩ := List.mem_filter.1 (mem_shares.1 hx).1
      obtain rfl : x.1 = l := Table.key_inj hline hl (of_decide_eq_true e)
      exact hid (of_decide_eq_true hdoc)
    rw [hnone]
    rfl

/-- The remainders drop by what the document takes. -/
theorem DB.NewDoc.toInvoice_shares {d : Doc} (h : db.NewDoc d (invoiceLines docId n (db.shares id req)))
    (ho : db.DocsOk) (hreq : (req.map (·.orderLineId)).Nodup) {l : DocLine} (hl : l ∈ db.docLines) :
    (db.withDoc d (invoiceLines docId n (db.shares id req))).toInvoice l =
      db.toInvoice l - if l.docId = id then max (db.share req l) 0 else 0 := by
  have hsum := h.fulfilled ho l.id
  rw [map_quantity_invoiceLines, sum_pick hreq hl] at hsum
  have hle : db.share req l ≤ db.toInvoice l := share_le
  rw [DB.toInvoice, hsum]
  rw [DB.toInvoice] at hle ⊢
  split
  · omega
  · omega

/-! ### The checks -/

/-- Both numbers are on the same side of 0, the first no further from it. -/
def TowardZero (x y : ℤ) : Prop := 0 ≤ x ∧ x ≤ y ∨ y ≤ x ∧ x ≤ 0

theorem fits_of_towardZero {x y : ℤ} (h : TowardZero x y) (hy : fits y = true) : fits x = true := by
  rw [fits, decide_eq_true_eq] at hy ⊢
  rcases h with ⟨h₁, h₂⟩ | ⟨h₁, h₂⟩
  · omega
  · omega

/-- The amounts of a smaller quantity are smaller, all on the side of the unit price. -/
theorem amounts_within {l : DocLine} (hrate : 0 ≤ l.taxRate) {q : ℤ} (hq : 0 ≤ q) (hle : q ≤ l.quantity) (i k : ℕ) :
    TowardZero (invoiceLine docId i k (l, q)).lineSubtotal l.lineSubtotal ∧
      TowardZero (invoiceLine docId i k (l, q)).taxAmount l.taxAmount ∧
      TowardZero (invoiceLine docId i k (l, q)).lineTotal l.lineTotal := by
  show TowardZero (roundDiv (q * l.unitPrice) _) (roundDiv (l.quantity * l.unitPrice) _) ∧
    TowardZero (roundDiv (q * l.unitPrice * l.taxRate) _) (roundDiv (l.quantity * l.unitPrice * l.taxRate) _) ∧
    TowardZero (roundDiv (q * l.unitPrice) _ + roundDiv (q * l.unitPrice * l.taxRate) _)
      (roundDiv (l.quantity * l.unitPrice) _ + roundDiv (l.quantity * l.unitPrice * l.taxRate) _)
  have hzero (b : ℕ) : roundDiv 0 b = 0 := roundDiv_zero b
  rcases le_total 0 l.unitPrice with hp | hp
  · have h₀ : 0 ≤ q * l.unitPrice := mul_nonneg hq hp
    have h₁ : q * l.unitPrice ≤ l.quantity * l.unitPrice := mul_le_mul_of_nonneg_right hle hp
    have hs₀ := roundDiv_nonneg h₀ (10 ^ 4)
    have hs₁ := roundDiv_mono h₁ (10 ^ 4)
    have ht₀ := roundDiv_nonneg (mul_nonneg h₀ hrate) (10 ^ 10)
    have ht₁ := roundDiv_mono (mul_le_mul_of_nonneg_right h₁ hrate) (10 ^ 10)
    exact ⟨.inl ⟨hs₀, hs₁⟩, .inl ⟨ht₀, ht₁⟩, .inl ⟨add_nonneg hs₀ ht₀, add_le_add hs₁ ht₁⟩⟩
  · have h₀ : q * l.unitPrice ≤ 0 := mul_nonpos_of_nonneg_of_nonpos hq hp
    have h₁ : l.quantity * l.unitPrice ≤ q * l.unitPrice := mul_le_mul_of_nonpos_right hle hp
    have hs₀ := (roundDiv_mono h₀ (10 ^ 4)).trans_eq (hzero _)
    have hs₁ := roundDiv_mono h₁ (10 ^ 4)
    have ht₀ := (roundDiv_mono (mul_nonpos_of_nonpos_of_nonneg h₀ hrate) (10 ^ 10)).trans_eq (hzero _)
    have ht₁ := roundDiv_mono (mul_le_mul_of_nonneg_right h₁ hrate) (10 ^ 10)
    exact ⟨.inr ⟨hs₁, hs₀⟩, .inr ⟨ht₁, ht₀⟩, .inr ⟨add_le_add hs₁ ht₁, add_nonpos hs₀ ht₀⟩⟩

theorem amounts_fit {l : DocLine} (h : l.RowOk db.products db.accounts db.taxCodes) {q : ℤ} (hq : 0 ≤ q)
    (hle : q ≤ l.quantity) (i k : ℕ) :
    (fits (invoiceLine docId i k (l, q)).quantity && fits (invoiceLine docId i k (l, q)).unitPrice &&
      (invoiceLine docId i k (l, q)).taxRate.natAbs < 10 ^ 7 && fits (invoiceLine docId i k (l, q)).lineSubtotal &&
      fits (invoiceLine docId i k (l, q)).taxAmount && fits (invoiceLine docId i k (l, q)).lineTotal) = true := by
  have hall := h.amounts
  simp only [Bool.and_eq_true] at hall ⊢
  obtain ⟨⟨⟨⟨⟨hqty, hprice⟩, hrate⟩, hsub⟩, htax⟩, htotal⟩ := hall
  obtain ⟨h₁, h₂, h₃⟩ : TowardZero (invoiceLine docId i k (l, q)).lineSubtotal _ ∧ _ ∧ _ :=
    amounts_within h.taxRate hq hle i k
  exact ⟨⟨⟨⟨⟨fits_of_towardZero (.inl ⟨hq, hle⟩) hqty, hprice⟩, hrate⟩, fits_of_towardZero h₁ hsub⟩,
    fits_of_towardZero h₂ htax⟩, fits_of_towardZero h₃ htotal⟩

theorem checkRows_iff {kind : DocKind} {ls : List DocLine} :
    checkRows db kind ls = .ok () ↔ ∀ l ∈ ls, l.check db kind = .ok () := by
  refine ⟨checkRows_eq_ok, fun h => ?_⟩
  induction ls with
  | nil => rfl
  | cons l ls ih =>
    rw [List.forall_mem_cons] at h
    exact Except.bind_eq_ok_iff.2 ⟨(), h.1, ih h.2⟩

/-- What is taken of a line fits into what is left of it. -/
theorem share_bounds (hi : db.LinksOk) {x : DocLine × ℤ} (hx : x ∈ db.shares id req) :
    0 < x.2 ∧ x.2 ≤ x.1.quantity ∧ db.fulfilled x.1.id + x.2 ≤ x.1.quantity := by
  obtain ⟨-, hq, hpos⟩ := mem_shares.1 hx
  have hle : x.2 ≤ db.toInvoice x.1 := hq.trans_le share_le
  have hfulfilled : 0 ≤ db.fulfilled x.1.id := by
    rw [hi.fulfilled]
    exact List.sum_nonneg fun q hq => (hi.positive q hq).le
  rw [DB.toInvoice] at hle
  exact ⟨hpos, by omega, by omega⟩

section checks

variable {side : Side} {o d : Doc}

theorem Side.invoice_not_isOrder (side : Side) : side.invoice.isOrder = false := by
  cases side <;> rfl

/-- The lines of the document pass their checks. -/
theorem check_invoiceLine (ho : db.DocsOk) (hi : db.LinksOk) (hl : db.DocLinesOk) (hfree : db.docs.Free d.id)
    (hk : d.kind = side.invoice) {x : DocLine × ℤ} (hx : x ∈ db.shares id req) (i k : ℕ) :
    (invoiceLine d.id i k x).check (db.withDoc d []) side.invoice = .ok () := by
  obtain ⟨hpos, hle, -⟩ := share_bounds hi hx
  have hline : x.1 ∈ db.docLines := (List.mem_filter.1 (mem_shares.1 hx).1).1
  have hrow := hl x.1 hline
  have hdoc : (db.withDoc d []).docOf side.invoice d.id = some d := docOf_eq_some.2 ⟨Table.find?_insert_self hfree, hk⟩
  have hnumber : db.docLines.rows.all (fun m => m.docId ≠ d.id || m.lineNo ≠ k) = true := by
    rw [List.all_eq_true]
    intro m hm
    obtain ⟨y, hy, hid⟩ := ho.lines m hm
    have hne : m.docId ≠ d.id := hid ▸ hfree y hy
    rw [decide_eq_true hne, Bool.true_or]
  have hlink : refOk db.docLines (some x.1.id) = true := by
    have hfind : db.docLines.find? x.1.id = some x.1 := Table.find?_key hline
    rw [refOk, Option.all_some, hfind]
    rfl
  simp only [DocLine.check, Except.bind_eq_ok_iff, ensure_eq_ok, exists_const, Side.invoice_not_isOrder]
  refine ⟨amounts_fit hrow hpos.le hle i k, ?_, decide_eq_true hrow.taxRate, hnumber, ?_, hrow.product, hrow.account,
    hrow.taxCode, hlink⟩
  · exact decide_eq_true hpos.ne'
  · show ((db.withDoc d []).docOf side.invoice d.id).isSome = true
    rw [hdoc]
    rfl

/-- The lines of the document pass their deferred checks: the order is open, and what they take is left of it. -/
theorem orderCheck_invoiceLine (ho : db.DocsOk) (hi : db.LinksOk) (hreq : (req.map (·.orderLineId)).Nodup)
    (hord : db.docOf side.order id = some o) (hopen : o.status = .opened) (hp : d.partyId = o.partyId)
    (hc : d.currencyCode = o.currencyCode) (hnew : db.NewDoc d (invoiceLines d.id n (db.shares id req)))
    {x : DocLine × ℤ} (hx : x ∈ db.shares id req) (i k : ℕ) :
    DB.orderCheck (invoiceLine d.id i k x) (db.withDoc d (invoiceLines d.id n (db.shares id req))) = .ok () := by
  obtain ⟨hpos, -, hle⟩ := share_bounds hi hx
  obtain ⟨hmem, hq, -⟩ := mem_shares.1 hx
  obtain ⟨hline, hdoc⟩ := List.mem_filter.1 hmem
  have hdoc : x.1.docId = id := of_decide_eq_true hdoc
  have hfind : (db.withDoc d (invoiceLines d.id n (db.shares id req))).docLines.find? x.1.id = some x.1 := by
    refine (Table.find?_insertAll_of_ne fun l hl e => ?_).trans (Table.find?_key hline)
    exact hnew.freeLines.2 l hl x.1 hline e.symm
  have horder : (db.withDoc d (invoiceLines d.id n (db.shares id req))).docs.find? x.1.docId = some o := by
    rw [DB.NewDoc.find?_of_ne (hnew.ne ho hline), hdoc]
    exact (docOf_eq_some.1 hord).1
  have hfulfilled : (db.withDoc d (invoiceLines d.id n (db.shares id req))).fulfilled x.1.id ≤ x.1.quantity := by
    rw [hnew.fulfilled ho, map_quantity_invoiceLines, sum_pick hreq hline, if_pos hdoc, ← hq, max_eq_left hpos.le]
    exact hle
  have hlink : (invoiceLine d.id i k x).orderLineId = some x.1.id := rfl
  have hown : (invoiceLine d.id i k x).docId = d.id := rfl
  simp only [DB.orderCheck, DB.orderLine, hlink, hown, hfind, horder, hnew.find?, Option.bind_some, Option.map_some,
    Except.bind_eq_ok_iff, ensure_eq_ok, exists_const, Option.all_some, decide_eq_true_eq]
  exact ⟨hopen, hp.symm, hc.symm, hfulfilled⟩

/-- The header of the document can be stored: it is not due before its date, and its number is not in use. -/
structure DB.HeaderFits (db : DB) (side : Side) (o : Doc) (input : FromOrderInput) : Prop where
  due : ∀ due ∈ input.dueDate, input.date ≤ due
  unused : ∀ d ∈ db.docs, d.kind = side.invoice → d.number = input.number →
    side.invoice.numberScope d.partyId ≠ side.invoice.numberScope o.partyId

theorem headerCheck_iff {input : FromOrderInput} (hrow : db.DocRowOk o) (hk : o.kind = side.order)
    (hfree : db.docs.Free docId) :
    db.headerCheck side.invoice docId (input.header o) = .ok () ↔ db.HeaderFits side o input := by
  obtain ⟨hcurrency, -, hparty⟩ := hrow
  have hside : o.kind.side = side.invoice.side := by
    rw [hk]
    cases side <;> rfl
  have hcredit : side.invoice.isCreditNote = false := by
    cases side <;> rfl
  have hdue : (side.invoice.isCreditNote || input.dueDate.all fun due => input.date ≤ due) = true ↔
      ∀ due ∈ input.dueDate, input.date ≤ due := by
    rw [hcredit, Bool.false_or, Option.all_eq_true]
    simp only [decide_eq_true_eq]
    exact Iff.rfl
  have htaken : (!db.numberTaken side.invoice docId (input.header o)) = true ↔
      ∀ d ∈ db.docs, d.kind = side.invoice → d.number = input.number →
        side.invoice.numberScope d.partyId ≠ side.invoice.numberScope o.partyId := by
    rw [Bool.not_eq_true', DB.numberTaken, List.any_eq_false]
    refine forall₂_congr fun d hd => ?_
    have hid : d.id ≠ docId := hfree d hd
    simp only [Bool.and_eq_true, decide_eq_true_eq, not_and, and_imp, ne_eq, hid, not_false_eq_true, true_imp_iff]
    exact Iff.rfl
  rw [hside] at hparty
  simp only [DB.headerCheck, Except.bind_eq_ok_iff, ensure_eq_ok, exists_const]
  constructor
  · rintro ⟨h₁, h₂, -⟩
    exact ⟨hdue.1 h₁, htaken.1 h₂⟩
  · rintro ⟨h₁, h₂⟩
    exact ⟨hdue.2 h₁, htaken.2 h₂, hparty, decide_eq_true hcurrency⟩

end checks

/-! ### Creating the document -/

/-- The totals of the lines are in range. -/
def TotalsFit (ls : List DocLine) : Prop :=
  fits (ls.map DocLine.lineSubtotal).sum = true ∧ fits (ls.map DocLine.taxAmount).sum = true ∧
    fits (ls.map DocLine.lineTotal).sum = true

instance (ls : List DocLine) : Decidable (TotalsFit ls) := inferInstanceAs (Decidable (_ ∧ _))

/-- The document with the totals of the lines. -/
def Doc.totalling (d : Doc) (ls : List DocLine) : Doc :=
  d.withTotals (ls.map DocLine.lineSubtotal).sum (ls.map DocLine.taxAmount).sum (ls.map DocLine.lineTotal).sum

/-- The order line of `x` with the quantity that is taken. -/
def ofQuantity (x : DocLine × ℤ) : DocLine := { x.1 with quantity := x.2 }

theorem totalsFit_invoiceLines : TotalsFit (invoiceLines docId n xs) ↔ TotalsFit (xs.map ofQuantity) := by
  have hmap : ∀ f : DocLine → ℤ, (∀ i k x, f (invoiceLine docId i k x) = f (ofQuantity x)) →
      (invoiceLines docId n xs).map f = (xs.map ofQuantity).map f := by
    intro f hf
    rw [map_invoiceLines hf, List.map_map]
    rfl
  rw [TotalsFit, TotalsFit, hmap _ fun _ _ _ => rfl, hmap _ fun _ _ _ => rfl, hmap _ fun _ _ _ => rfl]

section create

variable {side : Side} {o d : Doc} {ls : List DocLine} {input : FromOrderInput}

theorem DB.NewDoc.totalling (h : db.NewDoc d ls) : db.NewDoc (d.totalling ls) ls :=
  ⟨h.free, h.freeLines, h.own, h.status⟩

theorem DB.NewDoc.hit (h : db.NewDoc d ls) (hs : d.status = .draft) :
    (db.withDoc d []).docs.hit d.id (·.status = .draft) = [d.id] :=
  Table.hit_of_find? (Table.find?_insert_self h.free) (decide_eq_true hs)

/-- Recomputing the new document stores its totals. -/
theorem recompute_withDoc (h : db.NewDoc d ls) (ho : db.DocsOk) (hs : d.status = .draft)
    {f : Table Doc → Table Doc} (hf : (db.withDoc d []).recompute d.id (db.docLines.insertAll ls) = .ok f) :
    f (db.docs.insert d) = db.docs.insert (d.totalling ls) := by
  have hlines : (db.docLines.insertAll ls).rows.filter (fun l => l.docId = d.id) = ls := h.linesOfDoc ho
  have hself : Doc.recomputed (db.docLines.insertAll ls) d.id d = d.totalling ls := by
    rw [Doc.recomputed, hlines]
    rfl
  rw [recompute_eq_ok hf, h.hit hs]
  refine Table.ext_rows ?_
  have hold : ((db.docs.insert d).update [d.id] (Doc.recomputed (db.docLines.insertAll ls) d.id) fun _ => rfl).rows =
      db.docs.rows ++ [d.totalling ls] := by
    show (db.docs.insert d).rows.map _ = _
    rw [Table.rows_insert h.free, List.map_append]
    refine congrArg₂ _ ?_ ?_
    · refine (List.map_congr_left fun x hx => if_neg ?_).trans (List.map_id _)
      exact fun e => h.free x hx (List.mem_singleton.1 e)
    · have hkey : Keyed.key d ∈ [d.id] := List.mem_singleton.2 rfl
      rw [List.map_singleton, if_pos hkey, hself]
  exact hold.trans (Table.rows_insert h.totalling.free).symm

theorem recompute_withDoc_iff (h : db.NewDoc d ls) (ho : db.DocsOk) (hs : d.status = .draft) :
    (∃ f, (db.withDoc d []).recompute d.id (db.docLines.insertAll ls) = .ok f) ↔ TotalsFit ls := by
  have hlines : (db.docLines.insertAll ls).rows.filter (fun l => l.docId = d.id) = ls := h.linesOfDoc ho
  simp only [DB.recompute, Except.bind_eq_ok_iff, ensure_eq_ok, exists_const, hlines, h.hit hs, TotalsFit]
  simp [and_assoc]

theorem headerCheck_of_run {kind : DocKind} {header : DocInput} {v w : Env DB Err}
    (h : (insertHeader kind header).run v = .ok (docId, w)) : v.db.headerCheck kind docId header = .ok () := by
  obtain ⟨o, ho, rfl, -⟩ := Prog.run_exec_ok.1 h
  simp only [Except.bind_eq_ok_iff, Except.ok.injEq] at ho
  obtain ⟨u, hc, rfl⟩ := ho
  exact hc

/-- New rows of the new document, numbered from `n`. -/
theorem newDoc_numberRows {select : List (ℕ × NewDocLine)} (hfree : db.docs.Free d.id) (hs : d.status = .draft)
    (hn : db.docLines.Below n) : db.NewDoc d (numberRows d.id n select) :=
  ⟨hfree, hn.allFree (map_id_numberRows d.id n select), docId_numberRows, by simp [hs]⟩

theorem run_insertDocLines_doc {kind : DocKind} {k : ℕ} {select : DB → List (ℕ × NewDocLine)} {v w : Env DB Err}
    (h : (insertDocLines kind d.id select).run v = .ok (k, w)) (hk : k ≠ 0) (hv : Fresh v.seq v.db)
    (hdb : v.db = db.withDoc d []) (hfree : db.docs.Free d.id) (ho : db.DocsOk) (hs : d.status = .draft) :
    ∃ n, numberRows d.id n (select v.db) ≠ [] ∧ db.NewDoc d (numberRows d.id n (select v.db)) ∧
      TotalsFit (numberRows d.id n (select v.db)) ∧
      w.db = db.withDoc (d.totalling (numberRows d.id n (select v.db))) (numberRows d.id n (select v.db)) ∧
      w.checks = v.checks ++ (numberRows d.id n (select v.db)).map DB.orderCheck := by
  obtain ⟨gaps, seq, db₁, checks⟩ := v
  obtain rfl : db₁ = db.withDoc d [] := hdb
  obtain ⟨x, hx, rfl, rfl⟩ := Prog.run_exec_ok.1 h
  simp only [Except.bind_eq_ok_iff, ensure_eq_ok, exists_const] at hx
  obtain ⟨u, -, -, hx⟩ := hx
  split at hx
  · cases hx
    exact absurd rfl hk
  · rename_i hne
    simp only [Except.bind_eq_ok_iff, Except.ok.injEq] at hx
    obtain ⟨f, hf, rfl⟩ := hx
    have hbelow : db.docLines.Below (seq + gaps 0) := hv.docLines.mono (Nat.le_add_right ..)
    have hnew : db.NewDoc d (numberRows d.id (seq + gaps 0) (select (db.withDoc d []))) :=
      newDoc_numberRows hfree hs hbelow
    have hdocs := recompute_withDoc hnew ho hs hf
    refine ⟨seq + gaps 0, hne, hnew, (recompute_withDoc_iff hnew ho hs).1 ⟨f, hf⟩, ?_, rfl⟩
    exact congrArg (fun docs : Table Doc => ({ db with
      docs := docs, docLines := db.docLines.insertAll (numberRows d.id (seq + gaps 0) (select (db.withDoc d []))) } : DB))
      hdocs

/-- Rows that pass their checks, with totals in range, are inserted. -/
theorem exists_run_insertDocLines {kind : DocKind} {select : DB → List (ℕ × NewDocLine)} {v : Env DB Err}
    (hv : Fresh v.seq v.db) (hdb : v.db = db.withDoc d []) (hfree : db.docs.Free d.id) (ho : db.DocsOk)
    (hs : d.status = .draft) (hc : ∀ n, checkRows v.db kind (numberRows d.id n (select v.db)) = .ok ())
    (hnodup : ∀ n, ((numberRows d.id n (select v.db)).map (·.lineNo)).Nodup)
    (hne : ∀ n, numberRows d.id n (select v.db) ≠ []) (hfits : ∀ n, TotalsFit (numberRows d.id n (select v.db))) :
    ∃ k w, (insertDocLines kind d.id select).run v = .ok (k, w) ∧ k ≠ 0 := by
  obtain ⟨gaps, seq, db₁, checks⟩ := v
  obtain rfl : db₁ = db.withDoc d [] := hdb
  have hbelow : db.docLines.Below (seq + gaps 0) := hv.docLines.mono (Nat.le_add_right ..)
  have hnew : db.NewDoc d (numberRows d.id (seq + gaps 0) (select (db.withDoc d []))) :=
    newDoc_numberRows hfree hs hbelow
  obtain ⟨f, hf⟩ := (recompute_withDoc_iff hnew ho hs).2 (hfits _)
  let rows := numberRows d.id (seq + gaps 0) (select (db.withDoc d []))
  let x : Outcome DB Lock Err ℕ :=
    { res := rows.length, used := rows.length,
      act := fun a => { a with docLines := a.docLines.insertAll rows, docs := f a.docs },
      locks := .keyShare .doc d.id :: ((db.withDoc d []).docs.hit d.id (·.status = .draft)).map (.write .doc),
      checks := rows.map DB.orderCheck }
  have hlen : rows.length ≠ 0 := fun e => hne _ (List.length_eq_zero_iff.1 e)
  refine ⟨rows.length, _, Prog.run_exec_ok.2 ⟨x, ?_, rfl, rfl⟩, hlen⟩
  simp only [Except.bind_eq_ok_iff, ensure_eq_ok, exists_const]
  refine ⟨(), hc _, decide_eq_true (hnodup _), ?_⟩
  rw [if_neg (hne _), Except.bind_eq_ok_iff]
  exact ⟨f, hf, rfl⟩

/-- A document without lines leaves as much of the order. -/
theorem pick_withDoc (hfree : db.docs.Free d.id) (hs : d.status = .draft) (ho : db.DocsOk) :
    pick req (db.withDoc d []).toInvoice ((db.withDoc d []).orderLines id) =
      pick req db.toInvoice (db.orderLines id) := by
  have hnil : db.NewDoc d [] :=
    ⟨hfree, ⟨List.nodup_nil, fun l hl => absurd hl List.not_mem_nil⟩, fun l hl => absurd hl List.not_mem_nil, by simp [hs]⟩
  have hleft : (db.withDoc d []).toInvoice = db.toInvoice := funext fun l => hnil.toInvoice ho l
  rw [hleft]
  rfl

theorem run_fromOrder_doc {v w : Env DB Err} (h : (fromOrder side id input).run v = .ok (docId, w))
    (hv : Fresh v.seq v.db) (hdocs : v.db.DocsOk) (ho : v.db.docOf side.order id = some o) :
    v.db.docs.Free docId ∧ v.db.headerCheck side.invoice docId (input.header o) = .ok () ∧
      pick input.lines v.db.toInvoice (v.db.orderLines id) ≠ [] ∧
      ∃ n, let rows := invoiceLines docId n (pick input.lines v.db.toInvoice (v.db.orderLines id))
        let doc := ((input.header o).header side.invoice docId).totalling rows
        v.db.NewDoc doc rows ∧ TotalsFit rows ∧ w.db = v.db.withDoc doc rows ∧
          w.checks = v.checks ++ rows.map DB.orderCheck := by
  have h := Prog.run_read_bind_ok.1 h
  split at h
  · obtain ⟨s, v₂, -, h⟩ := Prog.run_bind_ok.1 h
    exact absurd h Prog.run_throw_ok
  · rename_i o' hopen
    obtain rfl : o' = o := Option.some.inj ((Option.filter_eq_some_iff.1 hopen).1.symm.trans ho)
    obtain ⟨id', v₁, h₁, h⟩ := Prog.run_bind_ok.1 h
    obtain ⟨k, v₂, h₂, h⟩ := Prog.run_bind_ok.1 h
    obtain ⟨u, v₃, h₃, h'⟩ := Prog.run_bind_ok.1 h
    obtain ⟨hk, rfl⟩ := Prog.run_require_ok.1 h₃
    obtain ⟨rfl, rfl⟩ := Prog.run_pure_ok.1 h'
    have hv₁ : Fresh v.tick.seq v.tick.db := hv.mono _ _ _ (Env.le_tick_seq v)
    obtain ⟨hfree, hdb, hchecks, -⟩ := run_insertHeader_doc h₁ hv₁
    have hpick : pick input.lines v₁.db.toInvoice (v₁.db.orderLines id) =
        pick input.lines v.db.toInvoice (v.db.orderLines id) := by
      rw [hdb]
      exact pick_withDoc (d := (input.header o').header side.invoice docId) hfree rfl hdocs
    obtain ⟨n, hne, hnew, hfits, hw, hcs⟩ := run_insertDocLines_doc (d := (input.header o').header side.invoice docId)
      h₂ (of_decide_eq_true hk) (Prog.run_keeps Fresh.mono (allFresh_insertHeader _ _) h₁ hv₁) hdb hfree hdocs rfl
    rw [hpick, numberRows_eq_invoiceLines] at hne hnew hfits hw hcs
    refine ⟨hfree, headerCheck_of_run (v := v.tick) h₁, fun e => hne (invoiceLines_eq_nil.2 e), n, hnew.totalling, hfits, hw, ?_⟩
    rw [hcs, hchecks]
    rfl

/-- The lines that the request takes of an open order are stored in a new document. -/
theorem exists_run_fromOrder {v : Env DB Err} (hv : Fresh v.seq v.db) (hdocs : v.db.DocsOk) (hi : v.db.LinksOk)
    (hl : v.db.DocLinesOk) (hrow : v.db.DocRowOk o) (ho : v.db.docOf side.order id = some o) (hs : o.status = .opened)
    (hreq : (input.lines.map (·.orderLineId)).Nodup) (hheader : v.db.HeaderFits side o input)
    (hne : v.db.shares id input.lines ≠ []) (hfits : TotalsFit ((v.db.shares id input.lines).map ofQuantity)) :
    ∃ docId w, (fromOrder side id input).run v = .ok (docId, w) := by
  have hopen : openOrder side id v.db = some o := Option.filter_eq_some_iff.2 ⟨ho, decide_eq_true hs⟩
  have hv₁ : Fresh v.tick.seq v.tick.db := hv.mono _ _ _ (Env.le_tick_seq v)
  have hfree : v.db.docs.Free (v.tick.seq + v.tick.gaps 0) := hv₁.docs.free (Nat.le_add_right ..)
  have hcheck : v.db.headerCheck side.invoice (v.tick.seq + v.tick.gaps 0) (input.header o) = .ok () :=
    (headerCheck_iff hrow (docOf_eq_some.1 ho).2 hfree).2 hheader
  obtain ⟨docId, v₁, h₁⟩ : ∃ docId v₁, (insertHeader side.invoice (input.header o)).run v.tick = .ok (docId, v₁) :=
    ⟨_, _, Prog.run_exec_ok.2 ⟨_, Except.bind_eq_ok_iff.2 ⟨(), hcheck, rfl⟩, rfl, rfl⟩⟩
  obtain ⟨hfree, hdb, -, -⟩ := run_insertHeader_doc h₁ hv₁
  have hselect : ∀ n, numberRows docId n (numberFrom 1 (pick input.lines v₁.db.toInvoice (v₁.db.orderLines id))) =
      invoiceLines docId n (v.db.shares id input.lines) := by
    intro n
    rw [numberRows_eq_invoiceLines, ← pick_eq_shares hreq, hdb]
    exact congrArg _ (pick_withDoc (d := (input.header o).header side.invoice docId) hfree rfl hdocs)
  have hrows : ∀ n, checkRows v₁.db side.invoice (invoiceLines docId n (v.db.shares id input.lines)) = .ok () := by
    intro n
    rw [checkRows_iff, hdb]
    intro l hmem
    obtain ⟨i, lineNo, x, hx, rfl⟩ := mem_invoiceLines hmem
    exact check_invoiceLine (d := (input.header o).header side.invoice docId) hdocs hi hl hfree rfl hx i lineNo
  have hnumbers : ∀ n, ((invoiceLines docId n (v.db.shares id input.lines)).map (·.lineNo)).Nodup := by
    intro n
    rw [map_lineNo_invoiceLines]
    exact List.nodup_range'
  have hfresh := Prog.run_keeps Fresh.mono (allFresh_insertHeader _ _) h₁ hv₁
  obtain ⟨k, w, h₂, hk⟩ : ∃ k w, (insertDocLines side.invoice docId fun db =>
      numberFrom 1 (pick input.lines db.toInvoice (db.orderLines id))).run v₁ = .ok (k, w) ∧ k ≠ 0 := by
    refine exists_run_insertDocLines (d := (input.header o).header side.invoice docId) hfresh hdb hfree hdocs rfl
      (fun n => (hselect n).symm ▸ hrows n) (fun n => (hselect n).symm ▸ hnumbers n) (fun n => ?_) fun n => ?_
    · exact (hselect n).symm ▸ fun e => hne (invoiceLines_eq_nil.1 e)
    · exact (hselect n).symm ▸ totalsFit_invoiceLines.2 hfits
  refine ⟨docId, w, Prog.run_read_bind_ok.2 ?_⟩
  rw [hopen]
  refine Prog.run_bind_ok.2 ⟨docId, v₁, h₁, Prog.run_bind_ok.2 ⟨k, w, h₂, ?_⟩⟩
  exact Prog.run_bind_ok.2 ⟨(), w, Prog.run_require_ok.2 ⟨decide_eq_true hk, rfl⟩, Prog.run_pure_ok.2 ⟨rfl, rfl⟩⟩

end create

/-! ### Deleting the document -/

section delete

variable {side : Side} {d : Doc} {ls : List DocLine}

/-- Without the document the database is the one it was created in. -/
theorem DB.NewDoc.erase (h : db.NewDoc d ls) (ho : db.DocsOk) : { db.withDoc d ls with
    docs := (db.withDoc d ls).docs.erase [d.id],
    docLines := (db.withDoc d ls).docLines.erase ((db.withDoc d ls).docLines.keysWhere fun m => m.docId = d.id) } = db := by
  have hdocs : (db.withDoc d ls).docs.erase [d.id] = db.docs := Table.erase_insert h.free
  have hlines : (db.withDoc d ls).docLines.erase ((db.withDoc d ls).docLines.keysWhere fun m => m.docId = d.id) =
      db.docLines :=
    Table.erase_keysWhere_insertAll h.freeLines (fun l hl => decide_eq_false (h.ne ho hl))
      fun l hl => decide_eq_true (h.own l hl)
  rw [hdocs, hlines]
  rfl

/-- No line of another document fulfils a line of the new one. -/
theorem DB.NewDoc.unlinked (h : db.NewDoc d ls) (ho : db.DocsOk) (hi : db.LinksOk) :
    (db.withDoc d ls).docLines.rows.all (fun l => l.docId = d.id || l.orderLineId.all fun k =>
      k ∉ (db.withDoc d ls).docLines.keysWhere fun m => m.docId = d.id) = true := by
  rw [List.all_eq_true, h.docLines]
  intro l hl
  rcases List.mem_append.1 hl with hl | hl
  · have hall : (l.orderLineId.all fun k =>
        k ∉ (db.withDoc d ls).docLines.keysWhere fun m => m.docId = d.id) = true := by
      rw [Option.all_eq_true]
      refine fun k hk => decide_eq_true fun hmem => ?_
      obtain ⟨side, ol, o, hlt, rfl⟩ := hi.linked l hl k hk
      have hol : ol ∈ (db.withDoc d ls).docLines := (Table.mem_insertAll h.freeLines).2 (.inl hlt.order.line)
      exact h.ne ho hlt.order.line (of_decide_eq_true ((Table.mem_keysWhere hol).1 hmem))
    rw [hall, Bool.or_true]
  · rw [decide_eq_true (h.own l hl), Bool.true_or]

theorem exists_commit_delete {s : Store DB} (hnew : db.NewDoc d ls) (hdb : s.db = db.withDoc d ls)
    (hk : d.kind = side.invoice) (hs : d.status = .draft) (ho : db.DocsOk) (hi : db.LinksOk)
    (happs : ∀ a ∈ db.applications, a.docId ≠ d.id) (gaps : ℕ → ℕ) :
    ∃ s', (deleteDoc side.invoice d.id).commit gaps s = .ok ((), s') ∧ s'.db = db := by
  obtain ⟨db₁, seq⟩ := s
  obtain rfl : db₁ = db.withDoc d ls := hdb
  have hhit : (db.withDoc d ls).docs.hit d.id (draftDoc side.invoice) = [d.id] := by
    refine Table.hit_of_find? hnew.find? ?_
    rw [draftDoc, decide_eq_true hk, decide_eq_true hs, Bool.and_self]
  let isOwn : Application → Bool := fun a =>
    a.settler = .creditNote && a.settlerId = d.id && side.invoice = a.side.creditNote
  have hown : ∀ a ∈ db.applications, isOwn a = false := by
    intro a _
    have hkind : side.invoice ≠ a.side.creditNote := by
      cases side <;> cases a.side <;> simp [Side.invoice, Side.creditNote]
    show (_ && decide _) = false
    rw [decide_eq_false hkind, Bool.and_false]
  have hnone : db.applications.rows.filter isOwn = [] := List.filter_eq_nil_iff.2 fun a ha => by simp [hown a ha]
  have hkept : db.applications.erase (db.applications.keysWhere isOwn) = db.applications :=
    Table.erase_keysWhere_of_false hown
  have hunsettled : (db.applications.rows.all fun a => a.docId ≠ d.id) = true :=
    List.all_eq_true.2 fun a ha => decide_eq_true (happs a ha)
  let x : Outcome DB Lock Err ℕ :=
    { res := 1
      act := fun b => { b with
        docs := b.docs.erase [d.id],
        docLines := b.docLines.erase ((db.withDoc d ls).docLines.keysWhere fun m => m.docId = d.id),
        applications := b.applications.erase (db.applications.keysWhere isOwn) }
      locks := [d.id].map (.delete .doc) ++
        ((db.withDoc d ls).docLines.keysWhere fun m => m.docId = d.id).map (.delete .docLine) ++
        (db.applications.keysWhere isOwn).map (.delete .application)
      checks := (db.applications.rows.filter isOwn).map fun a => DB.applicationCheck a true }
  have h₁ : (deleteHeader side.invoice d.id).run ⟨gaps, seq, db.withDoc d ls, []⟩ =
      .ok (1, Env.after ⟨gaps, seq, db.withDoc d ls, []⟩ x) := by
    refine Prog.run_exec_ok.2 ⟨x, ?_, rfl, rfl⟩
    simp only [hhit, reduceIte, List.cons_ne_nil, Except.bind_eq_ok_iff, ensure_eq_ok, exists_const]
    exact ⟨hnew.unlinked ho hi, hunsettled, rfl⟩
  have hact : x.act (db.withDoc d ls) = db := by
    refine Eq.trans ?_ (hnew.erase ho)
    exact congrArg (fun t : Table Application => { db.withDoc d ls with
      docs := (db.withDoc d ls).docs.erase [d.id],
      docLines := (db.withDoc d ls).docLines.erase ((db.withDoc d ls).docLines.keysWhere fun m => m.docId = d.id),
      applications := t }) hkept
  have hpass : passAll x.checks (x.act (db.withDoc d ls)) = .ok () := by
    show passAll ((db.applications.rows.filter isOwn).map _) _ = .ok ()
    rw [hnone]
    rfl
  have hrun : (deleteDoc side.invoice d.id).run ⟨gaps, seq, db.withDoc d ls, []⟩ =
      .ok ((), Env.after ⟨gaps, seq, db.withDoc d ls, []⟩ x) :=
    Prog.run_bind_ok.2 ⟨1, _, h₁, Prog.run_pure_ok.2 ⟨rfl, rfl⟩⟩
  exact ⟨_, Prog.commit_eq_ok.2 ⟨_, hrun, hpass, rfl⟩, hact⟩

end delete

/-! ### Fulfilment by document -/

/-- The document `docId` takes the shares of the order `o`, one line each. -/
structure DB.InvoicedBy (db db' : DB) (side : Side) (o : Doc) (input : FromOrderInput) (docId : ℕ) : Prop where
  header : ∃ d, db'.docOf side.invoice docId = some d ∧ d.status = .draft ∧ d.number = input.number ∧
    d.partyId = o.partyId ∧ d.date = input.date ∧ d.dueDate = input.dueDate ∧ d.currencyCode = o.currencyCode
  lines : ∃ n, db'.linesOfDoc docId = invoiceLines docId n (db.shares o.id input.lines)
  others : ∀ k, k ≠ docId → db'.docs.find? k = db.docs.find? k ∧ db'.linesOfDoc k = db.linesOfDoc k

/-- What a request that succeeds stores. -/
theorem exists_withDoc {s s' : Store DB} (hs : Reachable s) {side : Side} {id docId : ℕ} {o : Doc}
    {input : FromOrderInput} {gaps : ℕ → ℕ} (ho : s.db.docOf side.order id = some o)
    (hreq : (input.lines.map (·.orderLineId)).Nodup)
    (hc : (fromOrder side id input).commit gaps s = .ok (docId, s')) :
    s.db.HeaderFits side o input ∧ s.db.shares id input.lines ≠ [] ∧
      TotalsFit ((s.db.shares id input.lines).map ofQuantity) ∧
      ∃ n, let rows := invoiceLines docId n (s.db.shares id input.lines)
        let d := ((input.header o).header side.invoice docId).totalling rows
        s.db.NewDoc d rows ∧ s'.db = s.db.withDoc d rows := by
  obtain ⟨w, hrun, -, rfl⟩ := Prog.commit_eq_ok.1 hc
  obtain ⟨hfree, hcheck, hne, n, hnew, hfits, hdb, -⟩ := run_fromOrder_doc hrun hs.fresh hs.docsOk ho
  obtain ⟨hfind, hk⟩ := docOf_eq_some.1 ho
  have hrow : s.db.DocRowOk o := hs.rowsChecked.rows.2.2.1 o (Table.mem_of_find? hfind)
  simp only [pick_eq_shares hreq] at hne hnew hfits hdb
  exact ⟨(headerCheck_iff hrow hk hfree).1 hcheck, hne, totalsFit_invoiceLines.1 hfits, n, hnew, hdb⟩

section fulfilment

variable {s s' : Store DB} {side : Side} {o : Doc} {input : FromOrderInput} {gaps : ℕ → ℕ}

theorem commit_void {α : Type} {p : Txn α} {a : α} (h : p.commit gaps s = .ok (a, s')) :
    (void p).commit gaps s = .ok ((), s') := by
  obtain ⟨w, hrun, hpass, rfl⟩ := Prog.commit_eq_ok.1 h
  exact Prog.commit_eq_ok.2 ⟨w, Prog.run_bind_ok.2 ⟨a, w, hrun, Prog.run_pure_ok.2 ⟨rfl, rfl⟩⟩, hpass, rfl⟩

theorem exists_commit_fromOrder (hs : Reachable s) (ho : s.db.docOf side.order id = some o)
    (hopen : o.status = .opened) (hreq : (input.lines.map (·.orderLineId)).Nodup)
    (hheader : s.db.HeaderFits side o input) (hne : s.db.shares id input.lines ≠ [])
    (hfits : TotalsFit ((s.db.shares id input.lines).map ofQuantity)) :
    ∃ docId s', (fromOrder side id input).commit gaps s = .ok (docId, s') := by
  have hi := hs.linksOk.1
  have hrow : s.db.DocRowOk o := hs.rowsChecked.rows.2.2.1 o (Table.mem_of_find? (docOf_eq_some.1 ho).1)
  obtain ⟨docId, w, hrun⟩ : ∃ docId w, (fromOrder side id input).run ⟨gaps, s.seq, s.db, []⟩ = .ok (docId, w) :=
    exists_run_fromOrder hs.fresh hs.docsOk hi hs.rowsChecked.docLines hrow ho hopen hreq hheader hne hfits
  refine ⟨docId, ⟨w.db, w.seq⟩, Prog.commit_eq_ok.2 ⟨w, hrun, ?_, rfl⟩⟩
  obtain ⟨-, -, -, n, hnew, -, hdb, hchecks⟩ := run_fromOrder_doc hrun hs.fresh hs.docsOk ho
  simp only [pick_eq_shares hreq] at hnew hdb hchecks
  rw [passAll_eq_ok, hchecks, hdb]
  intro c hc
  obtain ⟨l, hl, rfl⟩ := List.mem_map.1 hc
  obtain ⟨i, k, x, hx, rfl⟩ := mem_invoiceLines hl
  exact orderCheck_invoiceLine (d := ((input.header o).header side.invoice docId).totalling _) hs.docsOk hi hreq ho hopen
    rfl rfl hnew hx i k

/-- Nothing is left of the order. -/
theorem commit_fromOrder_of_done (hs : Reachable s) (ho : s.db.docOf side.order id = some o)
    (hdone : ∀ l ∈ s.db.linesOfDoc id, s.db.toInvoice l = 0) (input : FromOrderInput) (gaps : ℕ → ℕ) :
    ∃ e, (fromOrder side id input).commit gaps s = .error e := by
  cases hc : (fromOrder side id input).commit gaps s with
  | error e => exact ⟨e, rfl⟩
  | ok x =>
    obtain ⟨docId, s'⟩ := x
    obtain ⟨w, hrun, -, -⟩ := Prog.commit_eq_ok.1 hc
    obtain ⟨-, -, hne, -⟩ := run_fromOrder_doc hrun hs.fresh hs.docsOk ho
    obtain ⟨x, hx⟩ := List.exists_mem_of_ne_nil _ hne
    have hle : x.2 ≤ s.db.toInvoice x.1 := le_of_mem_pick hx
    obtain ⟨hmem, hpos⟩ := mem_of_mem_pick hx
    rw [hdone x.1 (mem_orderLines.1 hmem)] at hle
    omega

/-- Nothing is asked for that is left. -/
theorem commit_fromOrder_of_nil (hs : Reachable s) (ho : s.db.docOf side.order id = some o)
    (hopen : o.status = .opened) (hreq : (input.lines.map (·.orderLineId)).Nodup)
    (hheader : s.db.HeaderFits side o input) (hnil : s.db.shares id input.lines = []) :
    (fromOrder side id input).commit gaps s =
      .error (.orders .nothingToFulfil s!"orders: {side.order.noun} {id}") := by
  let v : Env DB Err := Env.tick ⟨gaps, s.seq, s.db, []⟩
  have hv : Fresh v.seq v.db := hs.fresh.mono _ _ _ (Nat.le_add_right ..)
  have hdoc : openOrder side id s.db = some o := Option.filter_eq_some_iff.2 ⟨ho, decide_eq_true hopen⟩
  have hrow : s.db.DocRowOk o := hs.rowsChecked.rows.2.2.1 o (Table.mem_of_find? (docOf_eq_some.1 ho).1)
  have hcheck : s.db.headerCheck side.invoice (v.seq + v.gaps 0) (input.header o) = .ok () :=
    (headerCheck_iff hrow (docOf_eq_some.1 ho).2 (hv.docs.free (Nat.le_add_right ..))).2 hheader
  obtain ⟨docId, v₁, h₁⟩ : ∃ docId v₁, (insertHeader side.invoice (input.header o)).run v = .ok (docId, v₁) :=
    ⟨_, _, Prog.run_exec_ok.2 ⟨_, Except.bind_eq_ok_iff.2 ⟨(), hcheck, rfl⟩, rfl, rfl⟩⟩
  obtain ⟨hfree, hdb, -, -⟩ := run_insertHeader_doc h₁ hv
  have hpick : pick input.lines v₁.db.toInvoice (v₁.db.orderLines id) = [] := by
    rw [hdb, ← hnil, ← pick_eq_shares hreq]
    exact pick_withDoc (d := (input.header o).header side.invoice docId) hfree rfl hs.docsOk
  obtain ⟨w, h₂⟩ : ∃ w, (insertDocLines side.invoice docId fun db =>
      numberFrom 1 (pick input.lines db.toInvoice (db.orderLines id))).run v₁ = .ok (0, w) := by
    refine ⟨_, Prog.run_exec_ok.2 ⟨{ res := 0 }, ?_, rfl, rfl⟩⟩
    simp only [hpick]
    rfl
  have h₀ : (Prog.read (openOrder side id) : Txn (Option Doc)).run ⟨gaps, s.seq, s.db, []⟩ = .ok (some o, v) :=
    Prog.run_read_ok.2 ⟨hdoc.symm, rfl⟩
  have hrun : (fromOrder side id input).run ⟨gaps, s.seq, s.db, []⟩ =
      .error (.orders .nothingToFulfil s!"orders: {side.order.noun} {id}") := by
    rw [fromOrder, Prog.run_bind, h₀]
    show (insertHeader side.invoice (input.header o) >>= _).run v = _
    rw [Prog.run_bind, h₁]
    show (insertDocLines side.invoice docId _ >>= _).run v₁ = _
    rw [Prog.run_bind, h₂]
    rfl
  rw [Prog.commit, hrun]

end fulfilment

def sixPieces : FromOrderInput := { number := "I1", date := march6, lines := [⟨17, 6 * 10 ^ 4⟩] }
