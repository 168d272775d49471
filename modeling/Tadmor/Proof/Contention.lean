import Tadmor.Proof.Lifecycle
import Tadmor.Store.CriticalSection
import Tadmor.Store.Rely

/-!
# Concurrent requests on an order

Whether an order may be fulfilled or cancelled depends on its status, on the lines that invoice it and on the movements
that fulfil it, and a request reads and changes these without a lock that the others respect.  Only invoices are
checked again before the commit.  An order is safe as long as no commit changes what another request has read.
-/

/-- What requests on an order read and change. -/
inductive OrderPart where
  | status
  | links
  | moves

/-- What others rely on and the request changes.  A closed order is as good as an open one to those who found it open. -/
def Op.changes : Op → List OrderPart
  | .fromOrder .. => [.links]
  | .ship .. => [.moves]
  | .receive .. => [.moves]
  | .cancelOrder .. => [.status]
  | _ => []

/-- From where on a request relies on a part: what an invoice rests on is read again by the deferred checks. -/
def Op.reads : Op → OrderPart → Reading
  | .fromOrder .., .status => .deferred
  | .fromOrder .., .links => .deferred
  | .ship .., .status => .after 1
  | .ship .., .moves => .after 2
  | .receive .., .status => .after 1
  | .receive .., .moves => .after 3
  | .cancelOrder .., .links => .after 2
  | .cancelOrder .., .moves => .after 2
  | _, _ => .never

/-- A request to invoice or bill, ship or receive, close or cancel the order. -/
def Op.OnOrder (side : Side) (id : ℕ) : Op → Prop
  | .fromOrder s i _ => s = side ∧ i = id
  | .ship i _ => side = .sales ∧ i = id
  | .receive i _ => side = .purchase ∧ i = id
  | .closeOrder s i => s = side ∧ i = id
  | .cancelOrder s i => s = side ∧ i = id
  | _ => False

/-- No line of the order is invoiced, shipped or received beyond what is ordered, and nothing is linked to the order if
it is cancelled. -/
structure DB.OrderSafe (db : DB) (side : Side) (id : ℕ) : Prop where
  invoiced : ∀ l ∈ db.linesOfDoc id, db.fulfilled l.id ≤ l.quantity
  moved : ∀ l ∈ db.linesOfDoc id, db.moved side l.id ≤ l.quantity
  unlinked : ∀ o, db.docOf side.order id = some o → o.status = .cancelled → ∀ l ∈ db.linesOfDoc id,
    (∀ m ∈ db.docLines, m.orderLineId ≠ some l.id) ∧ ∀ m ∈ db.movements, m.source ≠ some (side, l.id)

/-! ### The state of an order -/

/-- Positive quantities that add up to no more than the total. -/
def Within (qs : List ℤ) (total : ℤ) : Prop := (∀ q ∈ qs, 0 < q) ∧ qs.sum ≤ total

theorem Within.append {qs rs : List ℤ} {total : ℤ} (h : ∀ q ∈ qs, 0 < q) (h' : ∀ q ∈ rs, 0 < q)
    (hle : (qs ++ rs).sum ≤ total) : Within (qs ++ rs) total := by
  refine ⟨fun q hq => ?_, hle⟩
  rcases List.mem_append.1 hq with hq | hq
  · exact h q hq
  · exact h' q hq

namespace DB

variable (side : Side) (id : ℕ) (ls : List DocLine)

/-- The order is not cancelled. -/
def Alive (db : DB) : Prop := ∀ o, db.docOf side.order id = some o → o.status ≠ .cancelled

/-- Nothing is linked to the lines. -/
def Untouched (db : DB) : Prop := ∀ l ∈ ls, db.links l.id = [] ∧ db.moves side l.id = []

def LinksWithin (db : DB) : Prop := ∀ l ∈ ls, Within (db.links l.id) l.quantity

def MovesWithin (db : DB) : Prop := ∀ l ∈ ls, Within (db.moves side l.id) l.quantity

/-- Linked lines are on documents that are there, and no document is void. -/
structure Counted (db : DB) : Prop where
  status : ∀ d ∈ db.docs, d.status ≠ .void
  docs : ∀ m ∈ db.docLines, m.orderLineId ≠ none → (db.docs.find? m.docId).isSome = true

/-- What holds of an order, with the lines `ls`, in every committed state. -/
structure OrderInv (db : DB) : Prop where
  order : ∃ o, db.docOf side.order id = some o ∧ o.status ≠ .draft
  lines : db.linesOfDoc id = ls
  counted : db.Counted
  links : db.LinksWithin ls
  moves : db.MovesWithin side ls
  free : db.Alive side id ∨ db.Untouched side ls

variable {side id ls} {db db' : DB}

theorem Counted.fulfilled (h : db.Counted) (k : ℕ) : db.fulfilled k = (db.links k).sum := by
  refine congrArg (fun ls : List DocLine => (ls.map (·.quantity)).sum) (List.filter_congr fun m hm => ?_)
  by_cases hk : m.orderLineId = some k
  · obtain ⟨d, hd⟩ := Option.isSome_iff_exists.1 (h.docs m hm (by simp [hk]))
    simp [hk, hd, h.status d (Table.mem_of_find? hd)]
  · simp [hk]

theorem OrderInv.orderSafe (h : db.OrderInv side id ls) : db.OrderSafe side id := by
  have hmem : ∀ l ∈ db.linesOfDoc id, l ∈ ls := fun l hl => h.lines ▸ hl
  refine ⟨fun l hl => ?_, fun l hl => ?_, fun o ho hs l hl => ?_⟩
  · rw [h.counted.fulfilled]
    exact (h.links l (hmem l hl)).2
  · rw [moved_eq_sum]
    exact (h.moves l (hmem l hl)).2
  · rcases h.free with halive | hfree
    · exact absurd hs (halive o ho)
    · obtain ⟨hlinks, hmoves⟩ := hfree l (hmem l hl)
      refine ⟨links_eq_nil.1 hlinks, fun m hm hsrc => ?_⟩
      have : m.counted side ∈ db.moves side l.id :=
        List.mem_map_of_mem (List.mem_filter.2 ⟨hm, decide_eq_true hsrc⟩)
      rw [hmoves] at this
      cases this

theorem Alive.congr (h : db.Alive side id) (hd : db'.docs = db.docs) : db'.Alive side id := by
  unfold Alive
  rw [show db'.docOf side.order id = db.docOf side.order id from docOf_congr (by rw [hd])]
  exact h

theorem links_congr (h : db'.docLines = db.docLines) (k : ℕ) : db'.links k = db.links k := by rw [links, h, links]

theorem Untouched.congr (h : db.Untouched side ls) (hl : db'.docLines = db.docLines)
    (hm : db'.movements = db.movements) : db'.Untouched side ls := fun l hl' => by
  rw [links_congr hl, moves_congr hm]
  exact h l hl'

theorem LinksWithin.congr (h : db.LinksWithin ls) (hl : db'.docLines = db.docLines) : db'.LinksWithin ls :=
  fun l hl' => by
    rw [links_congr hl]
    exact h l hl'

theorem MovesWithin.congr (h : db.MovesWithin side ls) (hm : db'.movements = db.movements) : db'.MovesWithin side ls :=
  fun l hl' => by
    rw [moves_congr hm]
    exact h l hl'

end DB

/-! ### Closing and cancelling -/

/-- The order `id` has a new status. -/
def DB.setStatus (id : ℕ) (s : DocStatus) (db : DB) : DB :=
  { db with docs := db.docs.update [id] (·.withStatus s) fun _ => rfl }

section requests

variable {side : Side} {id : ℕ} {ls : List DocLine} {db db' : DB}

/-- A new status of an order leaves everything else. -/
theorem DB.OrderInv.setStatus (h : db.OrderInv side id ls) {s : DocStatus} (hs : s = .closed ∨ s = .cancelled)
    (hfree : s = .cancelled → db.Untouched side ls) : (db.setStatus id s).OrderInv side id ls := by
  have hkey : ∀ d : Doc, Keyed.key (d.withStatus s) = Keyed.key d := fun _ => rfl
  obtain ⟨o, ho, -⟩ := h.order
  obtain ⟨hfind, hk⟩ := docOf_eq_some.1 ho
  have hself : (db.setStatus id s).docs.find? id = some (o.withStatus s) :=
    Table.find?_update_self (f := fun d : Doc => d.withStatus s) hkey hfind
  refine ⟨⟨o.withStatus s, docOf_eq_some.2 ⟨hself, hk⟩, ?_⟩, h.lines, ⟨fun d hd => ?_, fun m hm hne => ?_⟩, h.links,
    h.moves, ?_⟩
  · rcases hs with rfl | rfl <;> exact fun e => nomatch e
  · rcases (Table.mem_update_singleton hkey hfind).1 hd with rfl | ⟨-, hd⟩
    · rcases hs with rfl | rfl <;> exact fun e => nomatch e
    · exact h.counted.status d hd
  · show ((db.docs.update [id] (·.withStatus s) hkey).find? m.docId).isSome = true
    rw [Table.find?_update hkey, Option.isSome_map]
    exact h.counted.docs m hm hne
  · rcases hs with rfl | rfl
    · left
      intro o' ho'
      obtain rfl : o' = o.withStatus .closed := Option.some.inj ((docOf_eq_some.1 ho').1.symm.trans hself)
      exact fun e => nomatch e
    · exact .inr (hfree rfl)

theorem DB.OrderInv.hit (h : db.OrderInv side id ls) : db.docs.hit id (·.kind = side.order) = [id] := by
  obtain ⟨o, ho, -⟩ := h.order
  obtain ⟨hfind, hk⟩ := docOf_eq_some.1 ho
  exact Table.hit_of_find? hfind (decide_eq_true hk)

/-- What a request that finds nothing fulfilled has read. -/
theorem DB.OrderInv.untouched (h : db.OrderInv side id ls) (hf : db.anyFulfilled side id = false) :
    db.Untouched side ls := by
  intro l hl
  rw [DB.anyFulfilled, List.any_eq_false] at hf
  have hno := hf l (h.lines.symm ▸ hl)
  rw [Bool.not_eq_true, Bool.or_eq_false_iff, decide_eq_false_iff_not, decide_eq_false_iff_not, h.counted.fulfilled,
    moved_eq_sum] at hno
  refine ⟨?_, ?_⟩
  · by_contra hne
    exact hno.1 (pos_sum_of_ne_nil hne (h.links l hl).1)
  · by_contra hne
    exact hno.2 (pos_sum_of_ne_nil hne (h.moves l hl).1)

variable {P F : ℕ → DB → Prop} {W : DB → (DB → DB) → Prop} {n pc : ℕ}

/-- A program that begins by reading the status. -/
theorem writesOnce_orderStatus {k : DocStatus → Txn Unit} (hpc : pc < n)
    (h : ∀ d o, DB.OrderInv side id ls d → d.docOf side.order id = some o →
      ((∃ e, k o.status = .throw e) ∨ F (pc + 1) d) ∧ (k o.status).WritesOnce (DB.OrderInv side id ls) P F W n (pc + 1)) :
    (orderStatus side id >>= k).WritesOnce (DB.OrderInv side id ls) P F W n pc := by
  refine Prog.WritesOnce.query hpc fun d s hG _ _ hs => ?_
  split at hs
  · cases hs
  · rename_i o ho
    cases hs
    exact h d o hG ho

/-- The new status is written last. -/
theorem writesOnce_setStatus {s : DocStatus} (hW : ∀ d, F n d → W d (DB.setStatus id s)) :
    (updateDocRow side.order id (·.withStatus s)).WritesOnce (DB.OrderInv side id ls) P F W n n := by
  show (Prog.exec _ >>= pure).WritesOnce _ _ _ _ _ _
  refine Prog.WritesOnce.write (fun _ => rfl) fun m d o hG _ hF ho => ?_
  cases ho
  have hkey : ∀ x : Doc, (x.withStatus s).id = x.id := fun _ => rfl
  have hact : (fun x : DB => { x with docs := x.docs.update (d.docs.hit id (·.kind = side.order)) (·.withStatus s) hkey }) =
      DB.setStatus id s := by
    rw [hG.hit]
    rfl
  exact hact ▸ hW d hF

theorem writesOnce_closeOrder :
    (closeOrder side id).WritesOnce (DB.OrderInv side id ls) P (fun _ _ => True)
      (fun _ act => act = DB.setStatus id .closed) 1 0 := by
  refine writesOnce_orderStatus Nat.one_pos fun d o _ _ => ⟨.inr trivial, ?_⟩
  by_cases hs : o.status = .opened
  · simp only [hs, decide_true]
    exact writesOnce_setStatus fun _ _ => rfl
  · simp only [hs, decide_false]
    trivial

/-- A request that cancels an open order finds nothing fulfilled, then writes. -/
theorem writesOnce_cancel :
    (cancel side id).WritesOnce (DB.OrderInv side id ls) P (fun pc d => 2 ≤ pc → d.Untouched side ls)
      (fun d act => d.Untouched side ls ∧ act = DB.setStatus id .cancelled) 2 0 := by
  refine writesOnce_orderStatus (by decide) fun d o hG ho => ⟨.inr fun h => absurd h (by decide), ?_⟩
  have hdraft : o.status ≠ .draft := by
    obtain ⟨o', ho', hs⟩ := hG.order
    rwa [Option.some.inj (ho.symm.trans ho')]
  generalize o.status = s at hdraft
  cases s with
  | draft => exact absurd rfl hdraft
  | opened =>
    refine Prog.WritesOnce.read (by decide) fun d hG _ _ => ?_
    cases hf : d.anyFulfilled side id with
    | true => exact ⟨.inl ⟨_, rfl⟩, trivial⟩
    | false => exact ⟨.inr fun _ => hG.untouched hf, writesOnce_setStatus fun _ hu => ⟨hu le_rfl, rfl⟩⟩
  | closed => trivial
  | cancelled => trivial
  | posted => trivial
  | void => trivial

/-! ### Shipping and receiving -/

/-- The change of an INSERT of movements. -/
def DB.addMovements (ms : List StockMovement) (db : DB) : DB := { db with movements := db.movements.insertAll ms }

theorem moves_addMovements (db : DB) (ms : List StockMovement) (k : ℕ) :
    ∃ bs : List StockMovement, bs.Sublist ms ∧ (db.addMovements ms).moves side k = db.moves side k ++
      (bs.filter fun m => m.source = some (side, k)).map (·.counted side) := by
  obtain ⟨bs, hbs, hrows⟩ := Table.exists_rows_insertAll db.movements ms
  refine ⟨bs, hbs, ?_⟩
  show ((db.movements.insertAll ms).rows.filter _).map _ = _
  rw [hrows, List.filter_append, List.map_append]
  rfl

/-- A modest request moves no more than what is left of each line. -/
theorem movesWithin_addMovements (h : db.OrderInv side id ls) {req : List LineQty} {f : DocLine × ℤ → MovementInput}
    (hf : ∀ x, ((f x).row 0 none).counted side = x.2) (m : ℕ)
    (hreq : ∀ l ∈ (db.linesOfDoc id).filter db.isMovable, Modest req l.id (db.toMove side l)) :
    (db.addMovements (movementRows m ((db.picked side id req).map fun x => (f x, side, x.1.id)))).MovesWithin side ls := by
  intro l hl
  obtain ⟨bs, hbs, hmoves⟩ := @moves_addMovements side db
    (movementRows m ((db.picked side id req).map fun x => (f x, side, x.1.id))) l.id
  have hpicked := @filter_movementRows m ((db.picked side id req).map fun x => (f x, side, x.1.id)) side l.id
  rw [filter_picked hf, if_pos rfl] at hpicked
  have hsub := (hbs.filter fun m => m.source = some (side, l.id)).map (·.counted side)
  rw [hpicked] at hsub
  have hpos : ∀ q ∈ ((db.picked side id req).filter fun x => x.1.id = l.id).map Prod.snd, 0 < q := by
    intro q hq
    obtain ⟨x, hx, rfl⟩ := List.mem_map.1 hq
    exact (mem_of_mem_pick (List.mem_filter.1 hx).1).2
  have hline : l ∈ db.docLines := (List.mem_filter.1 (h.lines.symm ▸ hl : l ∈ db.linesOfDoc id)).1
  have hroom := sum_picked_le hline (h.moves l hl).2 hreq
  have hle := hsub.sum_le_sum fun q hq => (hpos q hq).le
  rw [hmoves]
  refine .append (h.moves l hl).1 (fun q hq => hpos q (hsub.subset hq)) ?_
  rw [List.sum_append]
  omega

/-- The order is not cancelled, and the movements to insert fit its lines. -/
def Moved (side : Side) (id : ℕ) (ls : List DocLine) (d : DB) (act : DB → DB) : Prop :=
  d.Alive side id ∧ ∃ ms, act = DB.addMovements ms ∧ (d.addMovements ms).MovesWithin side ls

theorem DB.OrderInv.moved (h : db.OrderInv side id ls) {act : DB → DB} (hm : Moved side id ls db act) :
    (act db).OrderInv side id ls := by
  obtain ⟨halive, ms, rfl, hwithin⟩ := hm
  exact ⟨h.order, h.lines, ⟨h.counted.status, h.counted.docs⟩, h.links, hwithin, .inl halive⟩

theorem Moved.congr {act : DB → DB} (h : Moved side id ls db act) (halive : db'.Alive side id)
    (hm : db'.movements = db.movements) : Moved side id ls db' act := by
  obtain ⟨-, ms, rfl, hwithin⟩ := h
  refine ⟨halive, ms, rfl, hwithin.congr ?_⟩
  show db'.movements.insertAll ms = db.movements.insertAll ms
  rw [hm]

/-- What a request to ship or receive knows after so many statements: the order was open. -/
def Opened (side : Side) (id : ℕ) (pc : ℕ) (d : DB) : Prop := 1 ≤ pc → d.Alive side id

theorem writesOnce_requireOpenOrder {k : Unit → Txn Unit} (hn : 0 < n)
    (h : (k ()).WritesOnce (DB.OrderInv side id ls) P (Opened side id) W n 1) :
    (requireOpenOrder side id >>= k).WritesOnce (DB.OrderInv side id ls) P (Opened side id) W n 0 := by
  rw [requireOpenOrder, Prog.bind_assoc]
  refine writesOnce_orderStatus hn fun d o _ ho => ?_
  by_cases hs : o.status = .opened
  · simp only [hs, decide_true]
    refine ⟨.inr fun _ o' ho' => ?_, h⟩
    rw [← Option.some.inj (ho.symm.trans ho'), hs]
    exact fun e => nomatch e
  · simp only [hs, decide_false]
    exact ⟨.inl ⟨_, rfl⟩, trivial⟩

/-- The INSERT of a request to ship or receive. -/
theorem writesOnce_insertMovements {req : List LineQty} {f : DB → DocLine × ℤ → MovementInput}
    (hf : ∀ d x, ((f d x).row 0 none).counted side = x.2) (hn : 0 < n)
    (hP : ∀ d, P n d → ∀ l ∈ (d.linesOfDoc id).filter d.isMovable, Modest req l.id (d.toMove side l)) {e : Err} :
    (insertMovements (fun d => (d.picked side id req).map fun x => (f d x, side, x.1.id)) >>= fun ids =>
        Prog.require (ids ≠ []) e >>= fun _ => (pure ids : Txn (List ℕ)) >>= fun _ => pure ()).WritesOnce
      (DB.OrderInv side id ls) P (Opened side id) (Moved side id ls) n n := by
  refine Prog.WritesOnce.write (fun ids => ?_) fun m d o hG hd hF ho => ?_
  · by_cases hids : ids = []
    · simp only [hids, ne_eq, not_true_eq_false, decide_false]
      rfl
    · simp only [hids, ne_eq, not_false_eq_true, decide_true]
      rfl
  · simp only [Except.bind_eq_ok_iff, Except.ok.injEq] at ho
    obtain ⟨-, -, rfl⟩ := ho
    exact ⟨hF hn, _, rfl, movesWithin_addMovements hG (hf d) m (hP d hd)⟩

theorem writesOnce_ship {input : MoveInput}
    (hP : ∀ d, P 1 d → ∀ l ∈ (d.linesOfDoc id).filter d.isMovable, Modest input.lines l.id (d.toMove .sales l)) :
    (transaction (.ship id input)).WritesOnce (DB.OrderInv .sales id ls) P (Opened .sales id) (Moved .sales id ls) 1 0 := by
  simp only [transaction, void, ShipSalesOrder, Prog.bind_assoc]
  refine writesOnce_requireOpenOrder Nat.one_pos (writesOnce_insertMovements (fun d x => ?_) Nat.one_pos hP)
  exact neg_neg x.2

theorem writesOnce_receive {input : MoveInput}
    (hP : ∀ d, P 2 d → ∀ l ∈ (d.linesOfDoc id).filter d.isMovable, Modest input.lines l.id (d.toMove .purchase l)) :
    (transaction (.receive id input)).WritesOnce (DB.OrderInv .purchase id ls) P (Opened .purchase id)
      (Moved .purchase id ls) 2 0 := by
  simp only [transaction, void, ReceivePurchaseOrder, Prog.bind_assoc]
  refine writesOnce_requireOpenOrder Nat.two_pos (Prog.WritesOnce.read (by decide) fun d _ _ hF => ?_)
  refine ⟨.inr fun _ => hF le_rfl, ?_⟩
  split
  · trivial
  · rename_i rate _
    simp only [Prog.bind_assoc]
    refine writesOnce_insertMovements (fun d x => ?_) Nat.two_pos hP
    rfl

/-! ### Invoicing -/

/-- The change of a request that invoices the order: a new document with the lines `rows`. -/
structure AddsLines (id : ℕ) (rows : List DocLine) (act : DB → DB) : Prop where
  docLines : ∀ d, (act d).docLines = d.docLines.insertAll rows
  movements : ∀ d, (act d).movements = d.movements
  order : ∀ d, (act d).docs.find? id = d.docs.find? id
  counted : ∀ d, d.Counted → (act d).Counted

/-- What the new lines are: they fulfil lines of the order. -/
structure Invoices (id : ℕ) (ls rows : List DocLine) : Prop where
  nonempty : rows ≠ []
  lines : ∀ r ∈ rows, r.docId ≠ id ∧ 0 < r.quantity ∧ ∃ l ∈ ls, r.orderLineId = some l.id

/-- The document and its lines, whatever state they are inserted into. -/
theorem addsLines {docId : ℕ} {rows : List DocLine} {hdr : Doc} {ks : List ℕ} {f : Doc → Doc} {hf : ∀ d, (f d).id = d.id}
    (hid : hdr.id = docId) (hdraft : hdr.status = .draft) (hne : docId ≠ id) (hks : ∀ k ∈ ks, k = docId)
    (hstatus : ∀ d, (f d).status = d.status) (hrows : ∀ r ∈ rows, r.docId = docId) :
    AddsLines id rows fun d =>
      { d with docLines := d.docLines.insertAll rows, docs := (d.docs.insert hdr).update ks f hf } := by
  refine ⟨fun _ => rfl, fun _ => rfl, fun d => ?_, fun d hd => ⟨fun x hx => ?_, fun m hm hlink => ?_⟩⟩
  · show ((d.docs.insert hdr).update ks f hf).find? id = _
    rw [Table.find?_update_of_notMem hf fun hk => hne (hks id hk).symm]
    exact Table.find?_insert_of_ne fun e => hne (hid.symm.trans e)
  · obtain ⟨y, hy, rfl⟩ := (Table.mem_update hf).1 hx
    have hy' : y.status ≠ .void := by
      rcases Table.mem_of_mem_insert hy with hy | rfl
      · exact hd.status y hy
      · rw [hdraft]
        exact fun e => nomatch e
    split
    · rwa [hstatus]
    · exact hy'
  · show (((d.docs.insert hdr).update ks f hf).find? m.docId).isSome = true
    rw [Table.find?_update hf, Option.isSome_map]
    refine Table.isSome_find?_insert ?_
    obtain ⟨bs, hbs, hall⟩ := Table.exists_rows_insertAll d.docLines rows
    have hm : m ∈ d.docLines.rows ++ bs := hall ▸ hm
    rcases List.mem_append.1 hm with hm | hm
    · exact .inl (hd.docs m hm hlink)
    · exact .inr (hid.trans (hrows m (hbs.subset hm)).symm)

/-- The INSERT of the lines of an invoice. -/
theorem insertDocLines_eq_exec (kind : DocKind) (docId : ℕ) (select : DB → List (ℕ × NewDocLine)) :
    ∃ r, insertDocLines kind docId select = Prog.exec r ∧ ∀ m db o, r m db = .ok o →
      o.res = 0 ∨ numberRows docId m (select db) ≠ [] ∧
        o.checks = (numberRows docId m (select db)).map DB.orderCheck ∧
        ∃ lines ks, (∀ k ∈ ks, k = docId) ∧ o.act = fun d => { d with
          docLines := d.docLines.insertAll (numberRows docId m (select db))
          docs := d.docs.update ks (Doc.recomputed lines docId) fun _ => rfl } := by
  refine ⟨_, rfl, fun m db o ho => ?_⟩
  simp only [Except.bind_eq_ok_iff, ensure_eq_ok, exists_const] at ho
  obtain ⟨-, -, -, ho⟩ := ho
  split at ho
  · cases ho
    exact .inl rfl
  · rename_i hne
    simp only [Except.bind_eq_ok_iff, Except.ok.injEq] at ho
    obtain ⟨f, hf, rfl⟩ := ho
    refine .inr ⟨hne, rfl, db.docLines.insertAll (numberRows docId m (select db)),
      db.docs.hit docId (·.status = .draft), fun k hk => (Table.mem_hit.1 hk).1, ?_⟩
    funext d
    exact congrArg (fun docs => { d with docLines := d.docLines.insertAll (numberRows docId m (select db)), docs := docs })
      (recompute_eq_ok hf d.docs)

/-- A request that has run all its statements has written an invoice of the order. -/
theorem invoices_of_prefix {lo pc : ℕ} {locks : List Lock} {act : DB → DB} {cs : List (DB → Except Err Unit)} {u : Unit}
    {input : FromOrderInput} (hlo : id < lo)
    (h : (transaction (.fromOrder side id input)).Prefix (DB.OrderInv side id ls) lo pc locks act cs (.pure u)) :
    ∃ rows, AddsLines id rows act ∧ Invoices id ls rows ∧ ∀ r ∈ rows, DB.orderCheck r ∈ cs := by
  simp only [transaction, void, fromOrder, Prog.bind_assoc] at h
  rcases h.read_bind with ⟨-, -, -, -, hq⟩ | ⟨pc, d, -, hd, h⟩
  · cases hq
  cases ho : openOrder side id d with
  | none =>
    rw [ho] at h
    simp only [notFoundOrNotOpen, orderStatus, Prog.bind_assoc] at h
    rcases h.query_bind with ⟨-, -, -, -, hq⟩ | ⟨pc, d', s, -, -, -, h⟩
    · cases hq
    · obtain ⟨-, -, hq⟩ := h.throw
      cases hq
  | some o =>
    rw [ho] at h
    simp only [Prog.bind_assoc] at h
    rcases h.exec_bind with ⟨-, -, -, -, hq⟩ | ⟨pc, d₁, n₁, o₁, locks, act₁, cs₁, -, -, hn, ho₁, -, hact₁, hcs₁, h⟩
    · cases hq
    simp only [Except.bind_eq_ok_iff, Except.ok.injEq] at ho₁
    obtain ⟨-, -, rfl⟩ := ho₁
    obtain ⟨r, hr, hspec⟩ := insertDocLines_eq_exec side.invoice n₁ fun db =>
      numberFrom 1 (pick input.lines db.toInvoice (db.orderLines id))
    simp only [hr] at h
    rcases h.exec_bind with ⟨-, -, -, -, hq⟩ | ⟨pc, d₂, n₂, o₂, locks, act₂, cs₂, -, hd₂, -, ho₂, -, hact₂, hcs₂, h⟩
    · cases hq
    obtain ⟨d₃, hd₃, rfl⟩ := hd₂
    rcases h.require_bind with ⟨-, -, -, hq⟩ | ⟨hres, h⟩
    · cases hq
    obtain ⟨-, rfl, rfl, -⟩ := h.pure
    rcases hspec _ _ _ ho₂ with hzero | ⟨hne, hchecks, lines, ks, hks, hact⟩
    · simp [hzero] at hres
    have hid : n₁ ≠ id := by omega
    subst hact₁ hcs₁ hact₂ hcs₂
    refine ⟨_, ?_, ⟨hne, fun r hr => ?_⟩, fun r hr => ?_⟩
    · rw [hact]
      exact addsLines rfl rfl hid hks (fun _ => rfl) docId_numberRows
    · obtain ⟨hdoc, hpos, l, hl, hlink⟩ := fulfils_of_mem_numberRows r hr
      exact ⟨hdoc ▸ hid, hpos, l, hd₃.lines ▸ hl, hlink.1⟩
    · rw [hchecks]
      simpa using ⟨r, hr, rfl⟩

theorem links_insertAll (db : DB) (rows : List DocLine) (k : ℕ) :
    ∃ bs : List DocLine, bs.Sublist rows ∧ { db with docLines := db.docLines.insertAll rows }.links k =
      db.links k ++ (bs.filter fun m => m.orderLineId = some k).map (·.quantity) := by
  obtain ⟨bs, hbs, hrows⟩ := Table.exists_rows_insertAll db.docLines rows
  refine ⟨bs, hbs, ?_⟩
  show ((db.docLines.insertAll rows).rows.filter _).map _ = _
  rw [hrows, List.filter_append, List.map_append]
  rfl

/-- The order is not cancelled, and the lines to insert fit the order. -/
def Invoiced (side : Side) (id : ℕ) (ls : List DocLine) (d : DB) (act : DB → DB) : Prop :=
  d.Alive side id ∧ ∃ rows, AddsLines id rows act ∧ Invoices id ls rows ∧
    { d with docLines := d.docLines.insertAll rows }.LinksWithin ls

theorem Invoiced.congr {act : DB → DB} (h : Invoiced side id ls db act) (halive : db'.Alive side id)
    (hl : db'.docLines = db.docLines) : Invoiced side id ls db' act := by
  obtain ⟨-, rows, hact, hrows, hwithin⟩ := h
  refine ⟨halive, rows, hact, hrows, hwithin.congr ?_⟩
  show db'.docLines.insertAll rows = db.docLines.insertAll rows
  rw [hl]

theorem docOf_of_addsLines {rows : List DocLine} {act : DB → DB} (h : AddsLines id rows act) (d : DB) (kind : DocKind) :
    (act d).docOf kind id = d.docOf kind id := by rw [DB.docOf, h.order, DB.docOf]

/-- The deferred check of a line that fulfils a line of the order. -/
theorem DB.OrderInv.checked (h : db.OrderInv side id ls) {rows : List DocLine} {act : DB → DB}
    (hact : AddsLines id rows act) {r l : DocLine} (hl : l ∈ ls) (hlink : r.orderLineId = some l.id)
    (hr : DB.orderCheck r (act db) = .ok ()) : db.Alive side id ∧ (act db).fulfilled l.id ≤ l.quantity := by
  obtain ⟨o, ho, -⟩ := h.order
  obtain ⟨hmem, hdoc⟩ := List.mem_filter.1 (h.lines.symm ▸ hl : l ∈ db.linesOfDoc id)
  obtain ⟨bs, -, hall⟩ := Table.exists_rows_insertAll db.docLines rows
  have hline : l ∈ (act db).docLines := by
    rw [hact.docLines]
    exact (hall ▸ List.mem_append_left bs hmem : l ∈ (db.docLines.insertAll rows).rows)
  have hfind : (act db).orderLine l.id = some (l, o) := by
    have hl : (act db).docLines.find? l.id = some l := Table.find?_key hline
    rw [DB.orderLine, hl, Option.bind_some, of_decide_eq_true hdoc, hact.order, (docOf_eq_some.1 ho).1]
    rfl
  simp only [DB.orderCheck, hlink, hfind, Except.bind_eq_ok_iff, ensure_eq_ok, exists_const, decide_eq_true_eq] at hr
  obtain ⟨hs, -, -, hle⟩ := hr
  refine ⟨fun o' ho' => ?_, hle⟩
  rw [← Option.some.inj (ho.symm.trans ho'), hs]
  intro e
  cases e

/-- Once its checks have passed, an invoice fits the order. -/
theorem DB.OrderInv.invoices (h : db.OrderInv side id ls) {rows : List DocLine} {act : DB → DB}
    (hact : AddsLines id rows act) (hrows : Invoices id ls rows)
    (hchecks : ∀ r ∈ rows, DB.orderCheck r (act db) = .ok ()) : Invoiced side id ls db act := by
  have hcounted : (act db).Counted := hact.counted db h.counted
  refine ⟨?_, rows, hact, hrows, fun l hl => ?_⟩
  · obtain ⟨r, hr⟩ := List.exists_mem_of_ne_nil _ hrows.nonempty
    obtain ⟨-, -, l, hl, hlink⟩ := hrows.lines r hr
    exact (h.checked hact hl hlink (hchecks r hr)).1
  · obtain ⟨bs, hbs, hlinks⟩ := links_insertAll db rows l.id
    rw [hlinks]
    have hpos : ∀ q ∈ (bs.filter fun m => m.orderLineId = some l.id).map (·.quantity), 0 < q := by
      intro q hq
      obtain ⟨r, hr, rfl⟩ := List.mem_map.1 hq
      exact (hrows.lines r (hbs.subset (List.mem_filter.1 hr).1)).2.1
    refine .append (h.links l hl).1 hpos ?_
    by_cases hnone : bs.filter (fun m => m.orderLineId = some l.id) = []
    · rw [hnone, List.map_nil, List.append_nil]
      exact (h.links l hl).2
    · obtain ⟨r, hr⟩ := List.exists_mem_of_ne_nil _ hnone
      obtain ⟨hr, hlink⟩ := List.mem_filter.1 hr
      have hle := (h.checked hact hl (of_decide_eq_true hlink) (hchecks r (hbs.subset hr))).2
      have hsame : (act db).links l.id = { db with docLines := db.docLines.insertAll rows }.links l.id :=
        DB.links_congr (hact.docLines db) l.id
      rwa [hcounted.fulfilled, hsame, hlinks] at hle

theorem DB.OrderInv.invoiced (h : db.OrderInv side id ls) {act : DB → DB} (hi : Invoiced side id ls db act) :
    (act db).OrderInv side id ls := by
  obtain ⟨halive, rows, hact, hrows, hwithin⟩ := hi
  obtain ⟨o, ho, hs⟩ := h.order
  refine ⟨⟨o, (docOf_of_addsLines hact db _).trans ho, hs⟩, ?_, hact.counted db h.counted, hwithin.congr (hact.docLines db),
    h.moves.congr (hact.movements db), .inl fun o' ho' => halive o' ((docOf_of_addsLines hact db _).symm.trans ho')⟩
  obtain ⟨bs, hbs, hall⟩ := Table.exists_rows_insertAll db.docLines rows
  have hnone : bs.filter (fun l => l.docId = id) = [] := by
    refine List.filter_eq_nil_iff.2 fun r hr he => ?_
    exact (hrows.lines r (hbs.subset hr)).1 (of_decide_eq_true he)
  rw [DB.linesOfDoc, hact.docLines, hall, List.filter_append, hnone, List.append_nil]
  exact h.lines

/-! ### Runs -/

/-- A request that is about to ship or receive lists no line more than once, or no more than is left of it. -/
def ModestAt (op : Op) (n : ℕ) (pc : ℕ) (d : DB) : Prop := pc = n → d.requestsModest op = true

/-- What is known of a request on the order. -/
def Op.At (side : Side) (id : ℕ) (ls : List DocLine) (lo : ℕ) (d : DB) (t : Tx DB Lock Err Unit) (op : Op) : Prop :=
  match op with
  | .fromOrder .. =>
    match t with
    | .running pc act locks cs q => (transaction op).Prefix (DB.OrderInv side id ls) lo pc locks act cs q
    | .checked act _ _ => Invoiced side id ls d act
    | _ => True
  | .ship .. => t.WritesOnce (DB.OrderInv side id ls) (ModestAt op 1) (Opened side id) (Moved side id ls) 1 d
  | .receive .. => t.WritesOnce (DB.OrderInv side id ls) (ModestAt op 2) (Opened side id) (Moved side id ls) 2 d
  | .closeOrder .. =>
    t.WritesOnce (DB.OrderInv side id ls) (fun _ _ => True) (fun _ _ => True) (fun _ act => act = DB.setStatus id .closed)
      1 d
  | .cancelOrder .. =>
    t.WritesOnce (DB.OrderInv side id ls) (fun _ _ => True) (fun pc d => 2 ≤ pc → d.Untouched side ls)
      (fun d act => d.Untouched side ls ∧ act = DB.setStatus id .cancelled) 2 d
  | _ => False

/-- What the commit of a request leaves alone. -/
structure Op.Leaves (side : Side) (id : ℕ) (op : Op) (d d' : DB) : Prop where
  alive : .status ∉ op.changes → d.Alive side id → d'.Alive side id
  links : .links ∉ op.changes → d'.docLines = d.docLines
  moves : .moves ∉ op.changes → d'.movements = d.movements

variable {lo : ℕ} {op : Op}

theorem DB.OrderInv.alive_closed (h : db.OrderInv side id ls) : (db.setStatus id .closed).Alive side id := by
  obtain ⟨o, ho, -⟩ := h.order
  obtain ⟨hfind, -⟩ := docOf_eq_some.1 ho
  have hself : (db.setStatus id .closed).docs.find? id = some (o.withStatus .closed) :=
    Table.find?_update_self (f := fun d : Doc => d.withStatus .closed) (fun _ => rfl) hfind
  intro o' ho'
  obtain rfl : o' = o.withStatus .closed := Option.some.inj ((docOf_eq_some.1 ho').1.symm.trans hself)
  exact fun e => nomatch e

/-- The commit of a request. -/
theorem Op.At.commit {act : DB → DB} {locks : List Lock} {u : Unit} (hd : db.OrderInv side id ls)
    (h : op.At side id ls lo db (.checked act locks u)) :
    (act db).OrderInv side id ls ∧ op.Leaves side id db (act db) := by
  have hid : act = (fun d => d) → (act db).OrderInv side id ls ∧ op.Leaves side id db (act db) := by
    rintro rfl
    exact ⟨hd, fun _ h => h, fun _ => rfl, fun _ => rfl⟩
  cases op with
  | fromOrder s i input =>
    have hi : Invoiced side id ls db act := h
    obtain ⟨halive, rows, hact, -⟩ := hi
    refine ⟨hd.invoiced h, fun _ _ o ho => ?_, fun hno => absurd (List.mem_singleton.2 rfl) hno, fun _ => hact.movements db⟩
    exact halive o ((docOf_of_addsLines hact db _).symm.trans ho)
  | ship i input =>
    rcases h with hact | hm
    · exact hid hact
    · refine ⟨hd.moved hm, ?_⟩
      obtain ⟨-, ms, rfl, -⟩ := hm
      exact ⟨fun _ h => h, fun _ => rfl, fun hno => absurd (List.mem_singleton.2 rfl) hno⟩
  | receive i input =>
    rcases h with hact | hm
    · exact hid hact
    · refine ⟨hd.moved hm, ?_⟩
      obtain ⟨-, ms, rfl, -⟩ := hm
      exact ⟨fun _ h => h, fun _ => rfl, fun hno => absurd (List.mem_singleton.2 rfl) hno⟩
  | closeOrder s i =>
    rcases h with hact | rfl
    · exact hid hact
    · exact ⟨hd.setStatus (.inl rfl) (fun e => nomatch e), fun _ _ => hd.alive_closed, fun _ => rfl, fun _ => rfl⟩
  | cancelOrder s i =>
    rcases h with hact | ⟨hfree, rfl⟩
    · exact hid hact
    · exact ⟨hd.setStatus (.inr rfl) fun _ => hfree, fun hno => absurd (List.mem_singleton.2 rfl) hno, fun _ => rfl,
        fun _ => rfl⟩
  | _ => exact False.elim h

/-- A commit that leaves alone what the request relies on. -/
theorem Op.At.others {t : Tx DB Lock Err Unit} (h : op.At side id ls lo db t) {other : Op}
    (hl : other.Leaves side id db db') (hk : ∀ k ∈ other.changes, (op.reads k).relies t = false) :
    op.At side id ls lo db' t := by
  have keep : ∀ k, (op.reads k).relies t = true → k ∉ other.changes := by
    intro k hr hmem
    rw [hk k hmem] at hr
    cases hr
  cases op with
  | fromOrder s i input =>
    cases t with
    | running pc act locks cs q => exact h
    | checked act locks a =>
      have hi : Invoiced side id ls db act := h
      exact hi.congr (hl.alive (keep .status rfl) hi.1) (hl.links (keep .links rfl))
    | committed a => trivial
    | aborted e => trivial
  | ship i input =>
    unfold Op.At at h ⊢
    refine h.mono (fun m hm hF h1 => ?_) fun hr act hW => ?_
    · exact hl.alive (keep .status (Reading.relies_of_le h1 hm)) (hF h1)
    · exact hW.congr (hl.alive (keep .status (Reading.relies_of_le (by decide) hr)) hW.1) (hl.moves (keep .moves hr))
  | receive i input =>
    unfold Op.At at h ⊢
    refine h.mono (fun m hm hF h1 => ?_) fun hr act hW => ?_
    · exact hl.alive (keep .status (Reading.relies_of_le h1 hm)) (hF h1)
    · exact hW.congr (hl.alive (keep .status (Reading.relies_of_le (by decide) hr)) hW.1) (hl.moves (keep .moves hr))
  | closeOrder s i =>
    unfold Op.At at h ⊢
    exact h.mono (fun _ _ h => h) fun _ _ h => h
  | cancelOrder s i =>
    have hfree : (Reading.after 2).relies t = true → db.Untouched side ls → db'.Untouched side ls := fun hr hu =>
      hu.congr (hl.links (keep .links hr)) (hl.moves (keep .moves hr))
    unfold Op.At at h ⊢
    refine h.mono (fun m hm hF h2 => ?_) fun hr act hW => ?_
    · exact hfree (Reading.relies_of_le h2 hm) (hF h2)
    · exact ⟨hfree (Reading.relies_of_le (by decide) hr) hW.1, hW.2⟩
  | _ => exact False.elim h

/-- What a request to ship or receive lists is modest at each line of the order. -/
theorem modest_of_requestsModest {req : List LineQty} (hop : op.fulfils = some (side, id, req))
    (h : db.requestsModest op = true) :
    ∀ l ∈ (db.linesOfDoc id).filter db.isMovable, Modest req l.id (db.toMove side l) := by
  rw [DB.requestsModest, hop, Option.all_some, List.all_eq_true] at h
  exact fun l hl => of_decide_eq_true (h l hl)

theorem Op.At.start (hop : op.OnOrder side id) : op.At side id ls lo db (Tx.start (transaction op)) := by
  have hnever : ∀ {d : DB}, Opened side id 0 d := fun h => absurd h (by decide)
  cases op with
  | fromOrder s i input => exact Prog.Prefix.start
  | ship i input =>
    obtain ⟨rfl, rfl⟩ := hop
    exact .start hnever (writesOnce_ship fun d hd => modest_of_requestsModest rfl (hd rfl))
  | receive i input =>
    obtain ⟨rfl, rfl⟩ := hop
    exact .start hnever (writesOnce_receive fun d hd => modest_of_requestsModest rfl (hd rfl))
  | closeOrder s i =>
    obtain ⟨rfl, rfl⟩ := hop
    exact Tx.WritesOnce.start (d := db) trivial writesOnce_closeOrder
  | cancelOrder s i =>
    obtain ⟨rfl, rfl⟩ := hop
    exact .start (fun h => absurd h (by decide)) writesOnce_cancel
  | _ => exact False.elim hop

/-- A request that is about to insert movements is modest. -/
def Op.modest (op : Op) (d : DB) (t : Tx DB Lock Err Unit) : Prop :=
  (op.reads .moves).next t = true → d.requestsModest op = true

instance (op : Op) (d : DB) (t : Tx DB Lock Err Unit) : Decidable (op.modest d t) :=
  inferInstanceAs (Decidable (_ → _))

theorem relying {ι : Type} {ops : ι → Op} (hops : ∀ i, (ops i).OnOrder side id) (hlo : id < lo) :
    Sys.Relying (fun i => (ops i).reads) (fun i => (ops i).changes) (fun i => (ops i).modest) lo
      (DB.OrderInv side id ls) (fun i d t => (ops i).At side id ls lo d t) where
  stmt := by
    intro i d pc act locks cs β n o r k hG h hpre hn ho
    have hop := hops i
    generalize ops i = op at h hpre hop
    cases op with
    | fromOrder s j input => exact Prog.Prefix.stmt h hG hn ho
    | ship j input =>
      unfold Op.At at h ⊢
      exact h.stmt hG (fun hpc => hpre (decide_eq_true (by omega))) ho
    | receive j input =>
      unfold Op.At at h ⊢
      exact h.stmt hG (fun hpc => hpre (decide_eq_true (by omega))) ho
    | closeOrder s j =>
      unfold Op.At at h ⊢
      exact h.stmt hG trivial ho
    | cancelOrder s j =>
      unfold Op.At at h ⊢
      exact h.stmt hG trivial ho
    | _ => exact False.elim h
  check := by
    intro i d pc act locks cs u hG h hpass
    have hop := hops i
    generalize ops i = op at h hop
    cases op with
    | fromOrder s j input =>
      obtain ⟨rfl, rfl⟩ := hop
      obtain ⟨rows, hact, hrows, hchecks⟩ := invoices_of_prefix hlo h
      exact hG.invoices hact hrows fun r hr => passAll_eq_ok.1 hpass _ (hchecks r hr)
    | ship j input =>
      unfold Op.At at h ⊢
      exact h.check
    | receive j input =>
      unfold Op.At at h ⊢
      exact h.check
    | closeOrder s j =>
      unfold Op.At at h ⊢
      exact h.check
    | cancelOrder s j =>
      unfold Op.At at h ⊢
      exact h.check
    | _ => exact False.elim h
  commit := fun hG h => (h.commit hG).1
  others := fun hG h h' hk => h.others (h'.commit hG).2 hk

end requests

/-- No commit changes what another request has read and relies on, and a request that is about to ship or receive
lists no line more than once, or no more than is left of it. -/
def FulfilmentSteps {ι : Type} (ops : ι → Op) (σ : Sys ι DB Lock Err Unit) (i : ι) : Prop :=
  Sys.Undisturbed (fun i => (ops i).reads) (fun i => (ops i).changes) σ i ∧ (ops i).modest σ.db (σ.tx i)

instance {ι : Type} [DecidableEq ι] [Fintype ι] (ops : ι → Op) (σ : Sys ι DB Lock Err Unit) (i : ι) :
    Decidable (FulfilmentSteps ops σ i) :=
  inferInstanceAs (Decidable (_ ∧ _))

/-- An open order that is not shipped or received beyond what is ordered. -/
theorem orderInv_of_opened {s : Store DB} (h : Reachable s) {side : Side} {id : ℕ} {o : Doc}
    (ho : s.db.docOf side.order id = some o) (hs : o.status = .opened)
    (hmoved : ∀ l ∈ s.db.linesOfDoc id, s.db.moved side l.id ≤ l.quantity) :
    s.db.OrderInv side id (s.db.linesOfDoc id) := by
  obtain ⟨hlinks, hmoves⟩ := h.linksOk
  obtain ⟨hfind, hk⟩ := docOf_eq_some.1 ho
  obtain ⟨hom, hoid⟩ := Table.find?_eq_some.1 hfind
  refine ⟨⟨o, ho, by simp [hs]⟩, rfl, ⟨fun d hd => (hlinks.status d hd).not_void, fun m hm hne => ?_⟩, fun l hl => ?_,
    fun l hl => ?_, .inl fun o' ho' => ?_⟩
  · obtain ⟨k, hk⟩ := Option.ne_none_iff_exists'.1 hne
    obtain ⟨_, _, _, ⟨-, -, -, d, hd, hid, -⟩, -⟩ := hlinks.linked m hm k hk
    rw [← hid]
    exact Option.isSome_iff_exists.2 ⟨d, Table.find?_key hd⟩
  · obtain ⟨hmem, hdoc⟩ := List.mem_filter.1 hl
    exact ⟨hlinks.positive, hlinks.within side l o ⟨hmem, hom, hoid.trans (of_decide_eq_true hdoc).symm, hk⟩⟩
  · exact ⟨hmoves.positive side l.id, moved_eq_sum s.db side l.id ▸ hmoved l hl⟩
  · rw [← Option.some.inj (ho.symm.trans ho'), hs]
    exact fun e => nomatch e

/-- Six pieces are invoiced and four shipped, while the order is closed. -/
def invoiceShipClose : Fin 3 → Op
  | 0 => .fromOrder .sales 16 ⟨"I1", march6, none, [⟨17, 6 * 10 ^ 4⟩]⟩
  | 1 => .ship 16 ⟨15, march6, [⟨17, 4 * 10 ^ 4⟩]⟩
  | 2 => .closeOrder .sales 16

def takingTurns : List (Fin 3) := [0, 1, 2, 0, 1, 2, 0, 1, 0, 1, 2, 0, 2]

/-- What two requests on an open order can come to. -/
def TwoRequests (s : Store DB) (side : Side) (id : ℕ) (db : DB) : Prop :=
  Reachable s ∧ (∃ o, s.db.docOf side.order id = some o ∧ o.status = .opened) ∧
    ∃ (ops : Fin 2 → Op) (is : List (Fin 2)), (∀ i, (ops i).OnOrder side id) ∧ db = ((race s ops).runSchedule is).db

def invoiceBoth (i : Fin 2) : Op := .fromOrder .sales 16 ⟨if i.val = 0 then "I1" else "I2", march6, none, []⟩

def shipBoth (_ : Fin 2) : Op := .ship 16 ⟨15, march6, []⟩

def cancelInvoice : Fin 2 → Op
  | 0 => .cancelOrder .sales 16
  | 1 => .fromOrder .sales 16 ⟨"I1", march6, none, []⟩
