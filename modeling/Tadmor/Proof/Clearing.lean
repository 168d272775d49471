import Tadmor.Proof.Exchange
import Tadmor.Proof.Lifecycle
import Tadmor.Proof.Movements

/-!
# Goods received and billed

The receipts of purchase order lines credit an account that the bills of the lines debit.  A receipt rounds the unit
cost to the base currency and then the product with the quantity; a bill rounds the products and then converts their
sum.  In a run at one exchange rate the two sides are sums of these roundings.
-/

/-! ### Definitions -/

/-- The movement is of one of the purchase order lines `ks`. -/
def StockMovement.receives (ks : List ℕ) (m : StockMovement) : Bool := m.source.any fun x => x.1 = .purchase && x.2 ∈ ks

/-- The line bills one of the order lines `ks`. -/
def DocLine.bills (ks : List ℕ) (l : DocLine) : Bool := l.orderLineId.any (· ∈ ks)

namespace DB

def receipts (db : DB) (ks : List ℕ) : List StockMovement := db.movements.rows.filter (·.receives ks)

/-- The lines of the document that bill the order lines. -/
def billing (db : DB) (ks : List ℕ) (d : Doc) : List DocLine := (db.linesOfDoc d.id).filter (·.bills ks)

def billsOf (db : DB) (ks : List ℕ) : List Doc := db.docs.rows.filter fun d => db.billing ks d ≠ []

/-- What an entry credits to the account, in base. -/
def credited (db : DB) (account je : ℕ) : ℤ := (((db.linesOf je).filter (·.accountId = account)).map (·.baseCredit)).sum

def debited (db : DB) (account je : ℕ) : ℤ := (((db.linesOf je).filter (·.accountId = account)).map (·.baseDebit)).sum

/-- What the entries of the receipts credit to the account. -/
def receivedOn (db : DB) (ks : List ℕ) (account : ℕ) : ℤ :=
  ((db.receipts ks).map fun m => (m.journalEntryId.map (db.credited account)).getD 0).sum

/-- What the entries of the bills debit to the account. -/
def billedOn (db : DB) (ks : List ℕ) (account : ℕ) : ℤ :=
  ((db.billsOf ks).map fun d => (d.journalEntryId.map (db.debited account)).getD 0).sum

/-- The unit price of an order line. -/
def orderPrice (db : DB) (k : ℕ) : ℤ := ((db.docLines.find? k).map (·.unitPrice)).getD 0

/-- What the quantity of a receipt costs: the unit price is converted, then the product is rounded. -/
def receiptCost (db : DB) (rate : ℤ) (m : StockMovement) : ℤ :=
  roundDiv (m.quantity * toBase ((m.source.map fun x => db.orderPrice x.2).getD 0) rate) (10 ^ 4)

/-- What the quantities of a bill cost: the products are rounded, then their sum is converted. -/
def billCost (db : DB) (ks : List ℕ) (rate : ℤ) (d : Doc) : ℤ :=
  toBase ((db.billing ks d).map fun l =>
    roundDiv (l.quantity * (l.orderLineId.map db.orderPrice).getD 0) (10 ^ 4)).sum rate

/-- The roundings of the receipts and those of the bills come to the same. -/
def RoundsAlike (db : DB) (ks : List ℕ) (rate : ℤ) : Prop :=
  ((db.receipts ks).map (db.receiptCost rate)).sum = ((db.billsOf ks).map (db.billCost ks rate)).sum

instance (db : DB) (ks : List ℕ) (rate : ℤ) : Decidable (db.RoundsAlike ks rate) :=
  inferInstanceAs (Decidable (_ = _))

/-- The document is converted at the rate, and of what it has on the account every line bills one of the order lines,
which are on the account. -/
structure BillsOn (db : DB) (ks : List ℕ) (account : ℕ) (rate : ℤ) (d : Doc) : Prop where
  converted : db.rateFor d.currencyCode d.date = some rate
  ordered : ∀ k ∈ ks, ∀ l ∈ db.docLines.find? k, l.accountId = some account
  only : ∀ l ∈ db.linesOfDoc d.id, PostedKind.purchaseBill.lineAccount db l = some account → l.bills ks = true
  untaxed : ∀ l ∈ db.linesOfDoc d.id, db.taxAccount l ≠ some account

instance (db : DB) (ks : List ℕ) (account : ℕ) (rate : ℤ) (d : Doc) : Decidable (db.BillsOn ks account rate d) :=
  decidable_of_iff (_ ∧ _ ∧ _ ∧ _) ⟨fun ⟨h₁, h₂, h₃, h₄⟩ => ⟨h₁, h₂, h₃, h₄⟩, fun ⟨h₁, h₂, h₃, h₄⟩ => ⟨h₁, h₂, h₃, h₄⟩⟩

/-- The order lines are received at the rate, their receipts are posted to the account, and their bills are posted at
the rate and to the account. -/
def clearsOn (db : DB) (ks : List ℕ) (account : ℕ) (rate : ℤ) : Op → Bool
  | .receive id input => (∃ l ∈ db.linesOfDoc id, l.id ∈ ks) → ∀ o ∈ db.docOf .purchaseOrder id,
      db.rateFor o.currencyCode input.movementDate = some rate
  | .postMovement id credit => ∀ m ∈ db.movements.find? id, m.receives ks = true → credit = account
  | .postDoc .purchaseBill id => ∀ d ∈ db.docOf .purchaseBill id, db.billing ks d ≠ [] → db.BillsOn ks account rate d
  | _ => true

/-- The order lines are fully received and fully billed, and every receipt and every bill is posted. -/
structure ReceivedAndBilled (db : DB) (ks : List ℕ) : Prop where
  line : ∀ k ∈ ks, ∃ l ∈ db.docLines.find? k, (db.docOf .purchaseOrder l.docId).isSome = true ∧
    db.moved .purchase k = l.quantity ∧ db.fulfilled k = l.quantity
  receipts : ∀ m ∈ db.receipts ks, m.journalEntryId ≠ none
  bills : ∀ d ∈ db.billsOf ks, d.status = .posted

instance (db : DB) (ks : List ℕ) : Decidable (db.ReceivedAndBilled ks) :=
  decidable_of_iff (_ ∧ _ ∧ _) ⟨fun ⟨h₁, h₂, h₃⟩ => ⟨h₁, h₂, h₃⟩, fun ⟨h₁, h₂, h₃⟩ => ⟨h₁, h₂, h₃⟩⟩

end DB

/-! ### What stays -/

section steps

variable {lo : ℕ} {op : Op} {db db' : DB}

theorem OrdersKept.line (h : OrdersKept db db') {side : Side} {l : DocLine} {o : Doc} (hl : db.OrderLine side l o)
    (hs : o.status ≠ .draft) : l ∈ db'.docLines := by
  have hf : db.docs.find? o.id = some o := Table.find?_key hl.order
  obtain ⟨s, -, -, hlines⟩ := h side o.id o (docOf_eq_some.2 ⟨hf, hl.kind⟩) hs
  have hmem : l ∈ db.linesOfDoc o.id := List.mem_filter.2 ⟨hl.line, decide_eq_true hl.ofOrder.symm⟩
  rw [← hlines] at hmem
  exact (List.mem_filter.1 hmem).1

theorem Confirmed.ne_draft {s : DocStatus} (h : Confirmed s) : s ≠ .draft := by
  rintro rfl
  rcases h with h | h <;> cases h

theorem Effect.ordersKept (h : Effect lo op db db') : OrdersKept db db' := by
  rcases h.orders with ⟨id, he, -⟩ | ⟨hd, hl⟩
  · exact he.ordersKept
  · exact .of_same hd hl

/-- A document that is posted keeps its lines. -/
theorem Effect.linesOfDoc (h : Effect lo op db db') {d : Doc} (hd : d ∈ db.docs) (hs : d.status = .posted) :
    db'.linesOfDoc d.id = db.linesOfDoc d.id := by
  rcases h.orders with ⟨id, he, -⟩ | ⟨-, hl⟩
  · have hne : d.id ≠ id := fun e => he.old d (e ▸ Table.find?_key hd) hs
    exact he.otherLines d.id hne
  · rw [DB.linesOfDoc, hl, DB.linesOfDoc]

/-- A linked movement that an operation leaves was there, is a new one of an order line, has been posted, or has been
unposted. -/
theorem Effect.movements (h : Effect lo op db db') {m : StockMovement} (hm : m ∈ db'.movements) (hs : m.source ≠ none) :
    m ∈ db.movements ∨ (∃ side o, o.status = .opened ∧ db.docOf side.order o.id = some o ∧ db.MovesLine op side o m) ∨
      (∃ x ∈ db.movements, m = x.unlinked) ∨
        ∃ account, ∃ x ∈ db.movements, ∃ je period, op = .postMovement x.id account ∧ m = x.linked je period := by
  have same : db'.movements = db.movements → m ∈ db.movements := fun e => e ▸ hm
  cases h with
  | outside h => exact .inl (same h.movements)
  | docEdit id h => exact .inl (same (by rw [h.eq]))
  | paymentEdit id h => exact .inl (same (by rw [h.eq]))
  | movementEdit h hmov =>
    cases hmov with
    | fewer hfew hold => exact .inl (hold m hm hs)
    | @fulfil side id req hop o ho hopen hmoves hnew =>
      have hid : o.id = id := Table.key_of_find? (docOf_eq_some.1 ho).1
      exact (hnew m hm).imp_right fun hl => .inl ⟨side, o, hopen, hid.symm ▸ ho, hl⟩
  | postDoc kind id hx hdraft ht hw => exact .inl (same (by rw [hw.eq]))
  | postPayment side id hx hdraft ht hw => exact .inl (same (by rw [hw.eq]))
  | @postMovement account _ mid id x e rows hx hj hw =>
    rcases (Table.mem_update_singleton (by intro; rfl) hx).1 hm with rfl | ⟨-, hm⟩
    · have hid : x.id = id := Table.key_of_find? hx
      exact .inr (.inr (.inr ⟨account, x, Table.mem_of_find? hx, _, _, by rw [hid], rfl⟩))
    · exact .inl hm
  | autoApply side settler id n hn hc hfree hfx hch => exact .inl (same (by rw [hfx.eq]))
  | unpostDoc hx hx' hj happs hr => exact .inl (same (by rw [hr.wrote.eq]))
  | unpostPayment hx hx' hj hr => exact .inl (same (by rw [hr.eq]))
  | unpostMovement hx hj hr =>
    rcases (Table.mem_update_singleton (by intro; rfl) hx).1 hm with rfl | ⟨-, hm⟩
    · exact .inr (.inr (.inl ⟨_, Table.mem_of_find? hx, rfl⟩))
    · exact .inl hm
  | closeEmpty id hopen h => exact .inl (same (by rw [h.eq]))
  | closeYear id hopen hw he h => exact .inl (same (by rw [h.eq, hw.eq]))
  | reopenYear id hc hmid hlink hr => exact .inl (same (by rw [hr.wrote.eq, hmid]))

end steps

/-! ### Linked lines -/

/-- A line that fulfils an order line has its price and its account. -/
def DB.LinesCopied (db : DB) : Prop :=
  ∀ m ∈ db.docLines, ∀ l ∈ db.docLines, m.orderLineId = some l.id → m.unitPrice = l.unitPrice ∧ m.accountId = l.accountId

theorem DB.LinesCopied.step {lo : ℕ} {op : Op} {db db' : DB} (hi : db.LinesCopied) (hlinks : db.LinksOk) (ho : db.DocsOk)
    (h : Effect lo op db db') : db'.LinesCopied := by
  -- a line that was there is linked to a line that stays
  have old : ∀ m ∈ db.docLines, ∀ l ∈ db'.docLines, m.orderLineId = some l.id →
      m.unitPrice = l.unitPrice ∧ m.accountId = l.accountId := by
    intro m hm l hl hlink
    obtain ⟨side, x, o, hx, hid⟩ := hlinks.linked m hm l.id hlink
    have hx' : x ∈ db'.docLines := h.ordersKept.line hx.order hx.confirmed.ne_draft
    obtain rfl : x = l := Table.key_inj hx' hl hid
    exact hi m hm x hx.order.line hlink
  rcases h.orders with ⟨id, he, hedit⟩ | ⟨-, hl⟩
  · intro m hm l hl hlink
    cases hedit with
    | draft _ _ _ unlinked =>
      have hne : m.docId ≠ id := by
        intro e
        rw [unlinked ho m hm e] at hlink
        cases hlink
      exact old m ((he.line_of_ne hne).1 hm) l hl hlink
    | move _ _ _ hdb =>
      rw [hdb] at hm
      exact old m hm l hl hlink
    | @invoice side order o d ls hord _ hfree _ _ _ _ _ hlines hls =>
      have hmem : ∀ x, x ∈ db'.docLines ↔ x ∈ db.docLines ∨ x ∈ ls := fun x => by
        rw [← Table.mem_rows, hlines, List.mem_append, Table.mem_rows]
      rcases (hmem m).1 hm with hm | hm
      · exact old m hm l hl hlink
      · obtain ⟨-, -, ol, hol, hlink', hcopy⟩ := hls m hm
        have hol' : ol ∈ db'.docLines := (hmem ol).2 (.inl (List.mem_filter.1 hol).1)
        obtain rfl : ol = l := Table.key_inj hol' hl (Option.some.inj (hlink'.symm.trans hlink))
        exact hcopy
  · intro m hm
    rw [hl] at hm
    exact old m hm

theorem Reachable.linesCopied {s : Store DB} (h : Reachable s) : s.db.LinesCopied := by
  refine h.of_effects (I := DB.LinesCopied) (fun m hm => ?_) fun s op db' hs hi he => hi.step hs.linksOk.1 hs.docsOk he
  exact absurd hm (Table.not_mem_empty m)

/-! ### Accounts of an entry -/

/-- The lines of a content that are on the account. -/
def onAccount (a : ℕ) (c : Multiset Content) : Multiset Content := c.filter fun x => x.account = a

theorem credited_eq (db : DB) (account je : ℕ) :
    db.credited account je = ((onAccount account (db.content je)).map Content.baseCredit).sum := by
  rw [onAccount, DB.content, Multiset.filter_coe, Multiset.map_coe, Multiset.sum_coe, List.filter_map, List.map_map]
  rfl

theorem debited_eq (db : DB) (account je : ℕ) :
    db.debited account je = ((onAccount account (db.content je)).map Content.baseDebit).sum := by
  rw [onAccount, DB.content, Multiset.filter_coe, Multiset.map_coe, Multiset.sum_coe, List.filter_map, List.map_map]
  rfl

theorem netLine_account (credit : Bool) (rate : ℤ) (a : ℕ) (net : ℤ) : (netLine credit rate a net).account = a := by
  have hside : ∀ (b : Bool) (amount base : ℤ), (onSide b a amount base).account = a := by
    intro b amount base
    cases b <;> rfl
  exact hside _ _ _

/-- Of the lines of the nets, at most one is on an account. -/
theorem onAccount_netLines {ι : Type} (account : ι → Option ℕ) (amount : ι → ℤ) (xs : List ι) (credit : Bool) (rate : ℤ)
    (a : ℕ) : onAccount a (netLines account amount xs credit rate) =
      if netOn account amount xs a = 0 then 0 else {netLine credit rate a (netOn account amount xs a)} := by
  have hfilter : (accountsOf account amount xs).val.filter (fun b => b = a) =
      if netOn account amount xs a = 0 then 0 else {a} := by
    rw [Multiset.filter_eq', Multiset.count_eq_of_nodup (accountsOf account amount xs).nodup]
    by_cases hz : netOn account amount xs a = 0
    · have hmem : a ∉ (accountsOf account amount xs).val := fun h => mem_accountsOf.1 h hz
      rw [if_pos hz, if_neg hmem, Multiset.replicate_zero]
    · have hmem : a ∈ (accountsOf account amount xs).val := mem_accountsOf.2 hz
      rw [if_neg hz, if_pos hmem, Multiset.replicate_one]
  rw [onAccount, netLines, Multiset.filter_map]
  simp only [Function.comp_def, netLine_account, hfilter]
  split
  · rfl
  · exact Multiset.map_singleton _ _

/-! ### What a posting credits and debits -/

/-- The entry of a receipt credits the account of the request with the cost. -/
theorem commit_postMovement_credited {id account : ℕ} {gaps : ℕ → ℕ} {s s' : Store DB} (hs : Reachable s)
    (h : (transaction (.postMovement id account)).commit gaps s = .ok ((), s')) {m : StockMovement} {je period : ℕ}
    (hm : s.db.movements.find? id = some m) (htype : m.movementType = .receipt)
    (hm' : s'.db.movements.find? id = some (m.linked je period)) :
    s'.db.credited account je = m.totalCost ∧ 0 < m.totalCost := by
  have hdecided : Decided (movementAttempt s.db id account = none) (MovementSound s.db id account)
      (transaction (.postMovement id account)) gaps s := (wp_postMovement (hs.steady gaps)).void.commit
  have hattempt : movementAttempt s.db id account ≠ none := (hdecided.commit_iff.1 ⟨_, h⟩).1
  obtain ⟨v, hrun, hv⟩ := run_of_commit h
  obtain ⟨je', hrun⟩ := run_void hrun
  obtain ⟨p, hmp⟩ : ∃ p, s.db.movementProduct id = some (m, p) := by
    cases hmp : s.db.movementProduct id with
    | none =>
      rw [movementAttempt, hmp] at hattempt
      exact absurd rfl hattempt
    | some x =>
      obtain rfl : m = x.1 := Option.some.inj (hm.symm.trans (find?_of_movementProduct hmp))
      exact ⟨x.2, rfl⟩
  have hcost : m.totalCost ≠ 0 := by
    intro hz
    rw [movementAttempt_eq hmp, if_neg fun hc => hc.2.1 hz] at hattempt
    exact hattempt rfl
  have hnonneg := totalCost_nonneg (hs.rowsChecked.rows.2.2.2.2 m (Table.mem_of_find? hm)) htype
  obtain ⟨ls, period', rate, memo, mid, rows, hplan, hrows, hw, hdb⟩ := run_postMovement_lines hrun hs.fresh hmp
  have hje : je' = je := by
    have hfind : v.db.movements.find? id = some (m.linked je' period') := by
      rw [hdb]
      exact Table.find?_update_self (f := fun m : StockMovement => m.linked je' period') (fun _ => rfl) hm
    rw [hv, hm'] at hfind
    exact (Option.some.inj (congrArg StockMovement.journalEntryId (Option.some.inj hfind))).symm
  subst hje
  have hlines : s'.db.linesOf je' = rows := by
    rw [← hv, hdb]
    exact hw.linesOf hs.journalOk
  refine ⟨?_, by omega⟩
  rw [credited_eq, DB.content, hlines, forall₂_becomes_content hrows]
  simp only [movementPlan, htype] at hplan
  split at hplan
  · rename_i hc
    obtain ⟨inventory, hi⟩ := Option.isSome_iff_exists.1 hc.2.1
    obtain rfl := Option.some.inj hplan
    rw [hi]
    by_cases e : inventory = account
    · simp [onAccount, NewLine.content, costLine, e]
    · simp [onAccount, NewLine.content, costLine, e]
  · cases hplan

/-- What a bill debits an account with that is no tax account of its lines. -/
theorem debited_content {db : DB} {d : Doc} {control account : ℕ} {rate net : ℤ}
    (htax : ∀ l ∈ db.linesOfDoc d.id, db.taxAccount l ≠ some account)
    (hnet : netOn (PostedKind.purchaseBill.lineAccount db) (·.lineSubtotal) (db.linesOfDoc d.id) account = net)
    (hnonneg : 0 ≤ net) :
    ((onAccount account (PostedKind.purchaseBill.content db d control rate)).map Content.baseDebit).sum =
      toBase net rate := by
  have htaxNet : netOn db.taxAccount (·.taxAmount) (db.linesOfDoc d.id) account = 0 := by
    have hnil : (db.linesOfDoc d.id).filter (fun l => db.taxAccount l = some account) = [] := by
      rw [List.filter_eq_nil_iff]
      exact fun l hl e => htax l hl (of_decide_eq_true e)
    rw [netOn, hnil]
    rfl
  -- the control line is a credit
  have hcontrol : ∀ base, ((onAccount account {onSide (!PostedKind.purchaseBill.detailsCredit) control d.total base}).map
      Content.baseDebit).sum = 0 := by
    intro base
    rw [onAccount, Multiset.filter_singleton]
    split
    · rw [Multiset.map_singleton, Multiset.sum_singleton]
      rfl
    · rfl
  have hadd : ∀ c c', ((onAccount account (c + c')).map Content.baseDebit).sum =
      ((onAccount account c).map Content.baseDebit).sum + ((onAccount account c').map Content.baseDebit).sum := by
    intro c c'
    rw [onAccount, Multiset.filter_add, Multiset.map_add, Multiset.sum_add]
    rfl
  rw [PostedKind.content, ← Multiset.singleton_add, PostedKind.details, hadd, hadd, hcontrol, onAccount_netLines,
    onAccount_netLines, hnet, htaxNet, if_pos rfl, Multiset.map_zero, Multiset.sum_zero, add_zero, zero_add]
  by_cases hz : net = 0
  · rw [if_pos hz, hz, toBase, zero_mul]
    rfl
  · rw [if_neg hz, Multiset.map_singleton, Multiset.sum_singleton, netLine, if_neg (not_lt.2 hnonneg),
      abs_of_nonneg hnonneg]
    rfl

/-- The entry of a bill debits the account with what the lines on the account come to. -/
theorem commit_postDoc_debited {id account : ℕ} {gaps : ℕ → ℕ} {s s' : Store DB} (hs : Reachable s)
    (h : (transaction (.postDoc .purchaseBill id)).commit gaps s = .ok ((), s')) {d d' : Doc} {je : ℕ} {rate net : ℤ}
    (hd : s.db.docOf .purchaseBill id = some d) (hrate : s.db.rateFor d.currencyCode d.date = some rate)
    (htax : ∀ l ∈ s.db.linesOfDoc d.id, s.db.taxAccount l ≠ some account)
    (hnet : netOn (PostedKind.purchaseBill.lineAccount s.db) (·.lineSubtotal) (s.db.linesOfDoc d.id) account = net)
    (hnonneg : 0 ≤ net) (hd' : s'.db.docs.find? id = some d') (hje : d'.journalEntryId = some je) :
    s'.db.debited account je = toBase net rate := by
  obtain ⟨v, hrun, hv⟩ := run_of_commit h
  obtain ⟨je', hrun⟩ := run_void hrun
  obtain ⟨x, c, period, rate', before, details, l, row, mid, hp, hdb, -⟩ := run_postDoc_lines hrun hs.fresh
  obtain rfl : x = d := Option.some.inj ((docParty_eq_some.1 hp.doc).1.symm.trans hd)
  obtain rfl : rate' = rate := Option.some.inj (hp.rate_eq.symm.trans hrate)
  obtain ⟨control, -, hcontent⟩ : ∃ control, c.controlAccountId = some control ∧
      mid.content je' = PostedKind.purchaseBill.content s.db x control rate' := DocPosted.content hp hs.journalOk
  have hje : je' = je := by
    have hfind : v.db.docs.find? id = some (x.posted je' period) := by
      rw [hdb]
      exact Table.find?_update_self (f := (·.posted je' period)) (fun _ => rfl) (docOf_eq_some.1 hd).1
    rw [hv, hd'] at hfind
    rw [Option.some.inj hfind] at hje
    exact Option.some.inj hje
  have hlines : s'.db.content je = mid.content je := by
    rw [← hv, hdb]
    rfl
  rw [debited_eq, hlines, ← hje, hcontent]
  exact debited_content htax hnet hnonneg

/-! ### The invariant -/

variable {ks : List ℕ} {account : ℕ} {rate : ℤ}

theorem receives_iff {m : StockMovement} : m.receives ks = true ↔ ∃ k ∈ ks, m.source = some (.purchase, k) := by
  cases hs : m.source with
  | none => simp [StockMovement.receives, hs]
  | some x =>
    obtain ⟨side, k⟩ := x
    cases side <;> simp [StockMovement.receives, hs]

theorem bills_iff {l : DocLine} : l.bills ks = true ↔ ∃ k ∈ ks, l.orderLineId = some k := by
  cases hl : l.orderLineId with
  | none => simp [DocLine.bills, hl]
  | some k => simp [DocLine.bills, hl]

theorem orderPrice_eq {db : DB} {l : DocLine} (hl : l ∈ db.docLines) : db.orderPrice l.id = l.unitPrice := by
  have hf : db.docLines.find? l.id = some l := Table.find?_key hl
  rw [DB.orderPrice, hf]
  rfl

/-- In a run at the rate: the receipts cost the converted price, their entries credit the account with the cost, and the
entries of the bills debit it with the converted sum of the lines. -/
structure DB.Cleared (db : DB) (ks : List ℕ) (account : ℕ) (rate : ℤ) : Prop where
  cost : ∀ m ∈ db.movements, ∀ k ∈ ks, m.source = some (.purchase, k) →
    m.movementType = .receipt ∧ 0 < rate ∧ m.unitCost = toBase (db.orderPrice k) rate
  credit : ∀ m ∈ db.movements, m.receives ks = true → ∀ je, m.journalEntryId = some je →
    db.credited account je = m.totalCost ∧ 0 < m.totalCost
  debit : ∀ d ∈ db.docs, d.kind = .purchaseBill → d.status = .posted → db.billing ks d ≠ [] → ∀ je,
    d.journalEntryId = some je → 0 ≤ ((db.billing ks d).map (·.lineSubtotal)).sum →
      db.debited account je = toBase ((db.billing ks d).map (·.lineSubtotal)).sum rate

theorem Reachable.entry_of_link {s : Store DB} (h : Reachable s) {o : Owner} {je : ℕ} (hl : s.db.link o = some je) :
    ∃ e ∈ s.db.entries, e.id = je := by
  obtain ⟨e, he, hid, -⟩ := reversals_eq_some.1 (h.book_sound.live_of_link hl).1
  exact ⟨e, he, hid⟩

section step

variable {op : Op} {gaps : ℕ → ℕ} {s s' : Store DB}

/-- The order line of a linked movement keeps its price. -/
theorem orderPrice_kept (hs : Reachable s) (heff : Effect s.seq op s.db s'.db) {m : StockMovement}
    (hm : m ∈ s.db.movements) {k : ℕ} (hk : m.source = some (.purchase, k)) :
    s'.db.orderPrice k = s.db.orderPrice k := by
  have hne : s.db.moves .purchase k ≠ [] :=
    List.ne_nil_of_mem (List.mem_map_of_mem (List.mem_filter.2 ⟨hm, decide_eq_true hk⟩))
  obtain ⟨l, o, ho, rfl, hc⟩ := hs.linksOk.2.linked .purchase k hne
  rw [orderPrice_eq (heff.ordersKept.line ho hc.ne_draft), orderPrice_eq ho.line]

theorem DB.Cleared.cost_step (hi : s.db.Cleared ks account rate) (hs : Reachable s) (hop : s.db.clearsOn ks account rate op = true)
    (heff : Effect s.seq op s.db s'.db) : ∀ m ∈ s'.db.movements, ∀ k ∈ ks, m.source = some (.purchase, k) →
      m.movementType = .receipt ∧ 0 < rate ∧ m.unitCost = toBase (s'.db.orderPrice k) rate := by
  have old : ∀ m ∈ s.db.movements, ∀ k ∈ ks, m.source = some (.purchase, k) →
      m.movementType = .receipt ∧ 0 < rate ∧ m.unitCost = toBase (s'.db.orderPrice k) rate := by
    intro m hm k hk hsrc
    rw [orderPrice_kept hs heff hm hsrc]
    exact hi.cost m hm k hk hsrc
  intro m hm k hk hsrc
  rcases heff.movements hm (by simp [hsrc]) with
    hm | ⟨side, o, hopen, ho, hnew⟩ | ⟨x, hx, rfl⟩ | ⟨credit, x, hx, je, period, -, rfl⟩
  · exact old m hm k hk hsrc
  · -- a new receipt of the order line
    obtain ⟨l, hl, hsrc', hrec⟩ := hnew.line
    obtain ⟨rfl, rfl⟩ := Prod.mk.inj (Option.some.inj (hsrc'.symm.trans hsrc))
    obtain ⟨htype, input, r, rfl, hr, hcost⟩ := hrec rfl
    obtain rfl : r = rate := Option.some.inj (hr.symm.trans (of_decide_eq_true hop ⟨l, hl, hk⟩ o ho))
    obtain ⟨hlm, hdoc⟩ := List.mem_filter.1 hl
    obtain ⟨hfo, hko⟩ := docOf_eq_some.1 ho
    have hline : s.db.OrderLine .purchase l o := ⟨hlm, Table.mem_of_find? hfo, (of_decide_eq_true hdoc).symm, hko⟩
    have hkeep : l ∈ s'.db.docLines := heff.ordersKept.line hline (by simp [hopen])
    rw [orderPrice_eq hkeep]
    exact ⟨htype, rateFor_pos hs.rowsChecked.rows hr, hcost⟩
  · exact old x hx k hk hsrc
  · exact old x hx k hk hsrc

theorem DB.Cleared.credit_step (hi : s.db.Cleared ks account rate) (hs : Reachable s)
    (hop : s.db.clearsOn ks account rate op = true) (h : (transaction op).commit gaps s = .ok ((), s')) :
    ∀ m ∈ s'.db.movements, m.receives ks = true → ∀ je, m.journalEntryId = some je →
      s'.db.credited account je = m.totalCost ∧ 0 < m.totalCost := by
  have heff := (commit_effect h hs.fresh).1
  intro m hm hrec je hje
  obtain ⟨k, hk, hsrc⟩ := receives_iff.1 hrec
  rcases heff.movements hm (by simp [hsrc]) with
    hm' | ⟨side, o, hopen, ho, hnew⟩ | ⟨x, hx, rfl⟩ | ⟨credit, x, hx, je', period, rfl, rfl⟩
  · have hlink : s.db.link (.movement m.id) = some je := by
      have hf : s.db.movements.find? m.id = some m := Table.find?_key hm'
      rw [DB.link, hf]
      exact hje
    obtain ⟨e, he, rfl⟩ := hs.entry_of_link hlink
    rw [DB.credited, heff.journaled.grown.linesOf he]
    exact hi.credit m hm' hrec e.id hje
  · rw [hnew.unposted] at hje
    cases hje
  · cases hje
  · -- the receipt has just been posted
    obtain rfl : je' = je := Option.some.inj hje
    have hf : s.db.movements.find? x.id = some x := Table.find?_key hx
    have hcredit : credit = account := of_decide_eq_true hop x hf hrec
    subst hcredit
    have hcredited := commit_postMovement_credited (m := x) hs h hf (hi.cost x hx k hk hsrc).1 (Table.find?_key hm)
    exact hcredited

/-- The lines of a bill that are on the account are those that bill the order lines. -/
theorem DB.BillsOn.net {db : DB} {d : Doc} (h : db.BillsOn ks account rate d) (hlinks : db.LinksOk)
    (hcopy : db.LinesCopied) : netOn (PostedKind.purchaseBill.lineAccount db) (·.lineSubtotal) (db.linesOfDoc d.id) account =
      ((db.billing ks d).map (·.lineSubtotal)).sum := by
  rw [netOn, DB.billing]
  refine congrArg (fun ls : List DocLine => (ls.map (·.lineSubtotal)).sum) (List.filter_congr fun m hm => ?_)
  have hml : m ∈ db.docLines := (List.mem_filter.1 hm).1
  rw [Bool.eq_iff_iff, decide_eq_true_eq]
  constructor
  · exact h.only m hm
  · intro hb
    obtain ⟨k, hk, hlink⟩ := bills_iff.1 hb
    obtain ⟨side, l, o, hl, rfl⟩ := hlinks.linked m hml k hlink
    have hfind : db.docLines.find? l.id = some l := Table.find?_key hl.order.line
    have haccount := (hcopy m hml l hl.order.line hlink).2.trans (h.ordered l.id hk l hfind)
    rw [PostedKind.lineAccount, haccount]

theorem DB.Cleared.debit_step (hi : s.db.Cleared ks account rate) (hs : Reachable s)
    (hop : s.db.clearsOn ks account rate op = true) (h : (transaction op).commit gaps s = .ok ((), s')) :
    ∀ d ∈ s'.db.docs, d.kind = .purchaseBill → d.status = .posted → s'.db.billing ks d ≠ [] → ∀ je,
      d.journalEntryId = some je → 0 ≤ ((s'.db.billing ks d).map (·.lineSubtotal)).sum →
        s'.db.debited account je = toBase ((s'.db.billing ks d).map (·.lineSubtotal)).sum rate := by
  have heff := (commit_effect h hs.fresh).1
  intro d hd hkind hposted hne je hje hnonneg
  rcases heff.posted_docs hd hposted with hold | ⟨kind, x, rfl, hx, hdraft⟩
  · have hbilling : s'.db.billing ks d = s.db.billing ks d := by
      rw [DB.billing, heff.linesOfDoc hold hposted, DB.billing]
    have hlink : s.db.link (.doc d.id) = some je := by
      have hf : s.db.docs.find? d.id = some d := Table.find?_key hold
      rw [DB.link, hf]
      exact hje
    obtain ⟨e, he, rfl⟩ := hs.entry_of_link hlink
    rw [hbilling] at hne hnonneg ⊢
    rw [DB.debited, heff.journaled.grown.linesOf he]
    exact hi.debit d hold hkind hposted hne e.id hje hnonneg
  · -- the bill has just been posted
    obtain ⟨v, hrun, hv⟩ := run_of_commit h
    obtain ⟨je', hrun⟩ := run_void hrun
    obtain ⟨y, c, period, rate', before, details, l, row, mid, hp, hdb, -⟩ := run_postDoc_lines hrun hs.fresh
    have hfind := (docOf_eq_some.1 (docParty_eq_some.1 hp.doc).1).1
    obtain ⟨rfl, hkx⟩ : y = x ∧ x.kind = kind.spec.kind := by
      obtain ⟨hfx, hkx⟩ := docOf_eq_some.1 hx
      exact ⟨Option.some.inj (hfind.symm.trans hfx), hkx⟩
    have hd' : s'.db.docs.find? d.id = some (y.posted je' period) := by
      rw [← hv, hdb]
      exact Table.find?_update_self (f := (·.posted je' period)) (fun _ => rfl) hfind
    have hfd : s'.db.docs.find? d.id = some d := Table.find?_key hd
    obtain rfl : d = y.posted je' period := Option.some.inj (hfd.symm.trans hd')
    have hk : kind = .purchaseBill := by
      have : kind.spec.kind = .purchaseBill := hkx.symm.trans hkind
      cases kind <;> first | rfl | cases this
    subst hk
    have hbilling : s'.db.billing ks (y.posted je' period) = s.db.billing ks y := by
      have hlines : s'.db.docLines = s.db.docLines := by
        rw [← hv, hdb]
        show mid.docLines = _
        rw [hp.wrote.eq]
      rw [DB.billing, DB.linesOfDoc, hlines]
      rfl
    rw [hbilling] at hne hnonneg ⊢
    have hbills := of_decide_eq_true hop y hx hne
    exact commit_postDoc_debited hs h hx hbills.converted hbills.untaxed (hbills.net hs.linksOk.1 hs.linesCopied)
      hnonneg hfd hje

end step

theorem Runs.cleared {s : Store DB} (h : Runs (fun s op => s.db.clearsOn ks account rate op = true) seeded s) :
    s.db.Cleared ks account rate := by
  induction h with
  | refl =>
    refine ⟨fun m hm => ?_, fun m hm => ?_, fun d hd => ?_⟩
    · exact absurd hm (Table.not_mem_empty m)
    · exact absurd hm (Table.not_mem_empty m)
    · exact absurd hd (Table.not_mem_empty d)
  | step hrun hop hc ih =>
    have hs := hrun.reachable .start
    exact ⟨ih.cost_step hs hop (commit_effect hc hs.fresh).1, ih.credit_step hs hop hc, ih.debit_step hs hop hc⟩

/-! ### Clearing -/

theorem DB.ReceivedAndBilled.orderLine {db : DB} (h : db.ReceivedAndBilled ks) {k : ℕ} (hk : k ∈ ks) :
    ∃ l o, db.OrderLine .purchase l o ∧ l.id = k ∧ db.moved .purchase k = l.quantity := by
  obtain ⟨l, hl, ho, hmoved, -⟩ := h.line k hk
  obtain ⟨o, ho⟩ := Option.isSome_iff_exists.1 ho
  obtain ⟨hf, hkind⟩ := docOf_eq_some.1 ho
  exact ⟨l, o, ⟨Table.mem_of_find? hl, Table.mem_of_find? hf, Table.key_of_find? hf, hkind⟩, Table.key_of_find? hl, hmoved⟩

section clearing

variable {s : Store DB}

/-- A receipt of the order lines costs something, so they have a price. -/
theorem orderPrice_pos (hs : Reachable s) (hi : s.db.Cleared ks account rate) (hc : s.db.ReceivedAndBilled ks)
    {k : ℕ} (hk : k ∈ ks) : 0 < s.db.orderPrice k := by
  obtain ⟨l, o, ho, hid, hmoved⟩ := hc.orderLine hk
  have hq : 0 < l.quantity := hs.docsOk.quantity_pos ho
  have hne : s.db.moves .purchase k ≠ [] := by
    intro hnil
    rw [moved_eq_sum, hnil, List.sum_nil] at hmoved
    omega
  obtain ⟨q, hq⟩ := List.exists_mem_of_ne_nil _ hne
  obtain ⟨m, hm, -⟩ := List.mem_map.1 hq
  obtain ⟨hm, hsrc⟩ := List.mem_filter.1 hm
  have hsrc : m.source = some (.purchase, k) := of_decide_eq_true hsrc
  have hrec : m.receives ks = true := receives_iff.2 ⟨k, hk, hsrc⟩
  obtain ⟨je, hje⟩ := Option.ne_none_iff_exists'.1 (hc.receipts m (List.mem_filter.2 ⟨hm, hrec⟩))
  obtain ⟨-, hpos⟩ := hi.credit m hm hrec je hje
  obtain ⟨-, hrate, hcost⟩ := hi.cost m hm k hk hsrc
  have hunit : 0 < m.unitCost := by
    have hnonneg := (hs.rowsChecked.rows.2.2.2.2 m hm).cost
    by_contra hle
    have hz : m.unitCost = 0 := by omega
    rw [StockMovement.totalCost, hz, mul_zero] at hpos
    exact absurd hpos (by decide)
  rw [hcost] at hunit
  exact toBase_pos hrate hunit

/-- The receipts credit what they cost. -/
theorem receivedOn_eq (hi : s.db.Cleared ks account rate) (hc : s.db.ReceivedAndBilled ks) :
    s.db.receivedOn ks account = ((s.db.receipts ks).map (s.db.receiptCost rate)).sum := by
  refine congrArg List.sum (List.map_congr_left fun m hm => ?_)
  obtain ⟨hmem, hrec⟩ := List.mem_filter.1 hm
  obtain ⟨je, hje⟩ := Option.ne_none_iff_exists'.1 (hc.receipts m hm)
  obtain ⟨k, hk, hsrc⟩ := receives_iff.1 hrec
  obtain ⟨-, -, hcost⟩ := hi.cost m hmem k hk hsrc
  rw [hje, Option.map_some, Option.getD_some, (hi.credit m hmem hrec je hje).1, DB.receiptCost, hsrc,
    StockMovement.totalCost, hcost]
  rfl

/-- The bills debit what they cost. -/
theorem billedOn_eq (hs : Reachable s) (hi : s.db.Cleared ks account rate) (hc : s.db.ReceivedAndBilled ks) :
    s.db.billedOn ks account = ((s.db.billsOf ks).map (s.db.billCost ks rate)).sum := by
  refine congrArg List.sum (List.map_congr_left fun d hd => ?_)
  obtain ⟨hmem, hne⟩ := List.mem_filter.1 hd
  have hne : s.db.billing ks d ≠ [] := of_decide_eq_true hne
  have hposted := hc.bills d hd
  have hfd : s.db.docs.find? d.id = some d := Table.find?_key hmem
  obtain ⟨je, hje⟩ := Option.isSome_iff_exists.1 ((hs.linkOk.docs d.id d hfd).1 hposted)
  -- a line of the bill has a quantity, and the price of the order line
  have hline : ∀ m ∈ s.db.billing ks d, ∃ k ∈ ks, m.orderLineId = some k ∧ m.unitPrice = s.db.orderPrice k ∧
      0 < m.quantity ∧ d.kind = .purchaseBill := by
    intro m hm
    obtain ⟨hml, hb⟩ := List.mem_filter.1 hm
    obtain ⟨hmem', hdoc⟩ := List.mem_filter.1 hml
    obtain ⟨k, hk, hlink⟩ := bills_iff.1 hb
    obtain ⟨side, l, o, hl, rfl⟩ := hs.linksOk.1.linked m hmem' k hlink
    obtain ⟨l', o', ho', hid, -⟩ := hc.orderLine hk
    obtain ⟨rfl, -, -⟩ := ho'.unique hl.order hid.symm
    obtain ⟨x, hx, hxid, hxk, -⟩ := hl.doc
    obtain rfl : x = d := Table.key_inj hx hmem (hxid.trans (of_decide_eq_true hdoc))
    refine ⟨l.id, hk, hlink, ?_, hl.positive, hxk⟩
    rw [orderPrice_eq hl.order.line]
    exact (hs.linesCopied m hmem' l hl.order.line hlink).1
  obtain ⟨m₀, hm₀⟩ := List.exists_mem_of_ne_nil _ hne
  obtain ⟨-, -, -, -, -, hkind⟩ := hline m₀ hm₀
  have hnonneg : 0 ≤ ((s.db.billing ks d).map (·.lineSubtotal)).sum := by
    refine List.sum_nonneg fun x hx => ?_
    obtain ⟨m, hm, rfl⟩ := List.mem_map.1 hx
    obtain ⟨k, hk, -, hprice, hq, -⟩ := hline m hm
    have hpos := orderPrice_pos hs hi hc hk
    rw [← hprice] at hpos
    exact roundDiv_nonneg (mul_nonneg hq.le hpos.le) _
  rw [hje, Option.map_some, Option.getD_some, hi.debit d hmem hkind hposted hne je hje hnonneg, DB.billCost]
  refine congrArg (fun x => toBase (List.sum x) rate) (List.map_congr_left fun m hm => ?_)
  obtain ⟨k, -, hlink, hprice, -⟩ := hline m hm
  rw [DocLine.lineSubtotal, hlink, hprice]
  rfl

end clearing

/-- Once the order lines are received and billed at one rate, the account is cleared if and only if the roundings of the
receipts and those of the bills come to the same. -/
theorem grni_clears_iff {s : Store DB} (h : Runs (fun s op => s.db.clearsOn ks account rate op = true) seeded s)
    (hc : s.db.ReceivedAndBilled ks) :
    s.db.receivedOn ks account = s.db.billedOn ks account ↔ s.db.RoundsAlike ks rate := by
  have hs := h.reachable .start
  rw [receivedOn_eq h.cleared hc, billedOn_eq hs h.cleared hc]
  rfl

/-- An open purchase order (17) for a hundred pieces at 1 EUR, on the line 18. -/
def euroOrder (rate : ℤ) : List Op := [
  .createFiscalYear ⟨"FY2026", yearStart, yearEnd⟩,
  .createParty .purchase (some 4),
  .createProduct ⟨some 8, some 3, some 9, true, true⟩,
  .createWarehouse,
  .createExchangeRate "EUR" march5 rate,
  .createDoc .purchaseOrder
    { number := "P1", partyId := 14, date := march5, currencyCode := "EUR",
      lines := [
        { productId := some 15, quantity := 100 * 10 ^ 4, unitPrice := dollars 1, accountId := some 11 }] },
  .confirmOrder .purchase 17]

/-- At 1.10 the order is received in two parts and billed in two others, and the account is cleared. -/
theorem grni_clears_iff_exact : ∃ s : Store DB, s.db.receivedOn [18] 11 = dollars 110 ∧ s.db.RoundsAlike [18] 110000000 ∧
    (s.db.receivedOn [18] 11 = s.db.billedOn [18] 11 ↔ s.db.RoundsAlike [18] 110000000) := by
  have hany : (executeIf (fun s op => s.db.clearsOn [18] 11 110000000 op) (euroOrder 110000000 ++ [
      .receive 17 ⟨16, march6, [⟨18, 60 * 10 ^ 4⟩]⟩, .receive 17 ⟨16, march6, []⟩,
      .postMovement 19 11, .postMovement 20 11,
      .fromOrder .purchase 17 ⟨"B1", march6, none, [⟨18, 30 * 10 ^ 4⟩]⟩, .fromOrder .purchase 17 ⟨"B2", march6, none, []⟩,
      .postDoc .purchaseBill 28, .postDoc .purchaseBill 30]) seeded).any fun s =>
        s.db.receivedOn [18] 11 = dollars 110 ∧ s.db.RoundsAlike [18] 110000000 ∧ s.db.ReceivedAndBilled [18] := by
    decide +kernel
  obtain ⟨s, hs, h⟩ := (Option.any_eq_true ..).1 hany
  obtain ⟨hreceived, halike, hc⟩ := of_decide_eq_true h
  exact ⟨s, hreceived, halike, grni_clears_iff (runs_executeIf hs) hc⟩

/-- At 1.23456789 the receipt of a hundred pieces at 1 EUR credits 123.46, and their bill debits 123.4568. -/
theorem grni_not_cleared : ¬∀ (ks : List ℕ) (account : ℕ) (rate : ℤ) (s : Store DB),
    Runs (fun s op => s.db.clearsOn ks account rate op = true) seeded s → s.db.ReceivedAndBilled ks →
      s.db.receivedOn ks account = s.db.billedOn ks account := by
  intro hall
  have hany : (executeIf (fun s op => s.db.clearsOn [18] 11 123456789 op) (euroOrder 123456789 ++ [
      .receive 17 ⟨16, march6, []⟩, .postMovement 19 11, .fromOrder .purchase 17 ⟨"B1", march6, none, []⟩,
      .postDoc .purchaseBill 24]) seeded).any fun s =>
        s.db.receivedOn [18] 11 = 1234600 ∧ s.db.billedOn [18] 11 = 1234568 ∧ s.db.ReceivedAndBilled [18] := by
    decide +kernel
  obtain ⟨s, hs, h⟩ := (Option.any_eq_true ..).1 hany
  obtain ⟨hreceived, hbilled, hc⟩ := of_decide_eq_true h
  have heq := hall [18] 11 123456789 s (runs_executeIf hs) hc
  rw [hreceived, hbilled] at heq
  omega
