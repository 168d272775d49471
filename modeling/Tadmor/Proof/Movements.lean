import Tadmor.Proof.DoublePost
import Tadmor.Proof.UnpostAnswers

/-!
# Posting and unposting a stock movement

A movement that passes the checks is posted unless its product is no longer tracked or active: the trigger of new
movements also runs when a movement is linked to its entry.
-/

variable {id account je : ℕ} {m : StockMovement} {p : Product} {db : DB} {v w : Env DB Err}

/-! ### The entry -/

/-- The lines that a posting of a movement has written are those of the plan. -/
theorem run_postInventoryIssue_lines (account : ℕ) (h : (PostInventoryIssue id).run v = .ok (je, w)) (hv : Fresh v.seq v.db)
    (hmp : v.db.movementProduct id = some (m, p)) :
    ∃ ls period rate memo mid rows, movementPlan v.db m p account = some ls ∧
      List.Forall₂ (NewLine.Becomes je) ls rows ∧
      Wrote v.seq v.db mid (entryOf je m.movementDate period v.db.settings.baseCurrency rate memo "") rows ∧
      w.db = { mid with movements := v.db.movements.update [id] (·.linked je period) } := by
  simp only [PostInventoryIssue, Prog.run_query_bind_ok] at h
  obtain ⟨x, hx, h⟩ := h
  obtain rfl := Option.some.inj ((movementHeader_eq_ok.1 hx).symm.trans hmp)
  simp only [Prog.run_require_bind_ok] at h
  obtain ⟨-, htype, -, haccounts, h⟩ := h
  obtain ⟨period, rate, mid, db₁, db₂, rows₁, rows₂, h₁, h₂, hr₁, hr₂, hw, hdb, -⟩ :=
    run_movementEntry_lines hv.tick (find?_of_movementProduct hmp) h
  rw [h₁.trans hmp] at hr₁
  rw [h₂.trans hmp] at hr₂
  refine ⟨_, period, rate, _, mid, _, ?_, List.rel_append hr₁ hr₂, hw.mono (Env.le_tick_seq v), hdb⟩
  rw [movementPlan, of_decide_eq_true htype]
  dsimp only
  rw [if_pos haccounts]
  rfl

theorem run_postInventoryReceipt_lines (h : (PostInventoryReceipt id account).run v = .ok (je, w))
    (hv : Fresh v.seq v.db) (hmp : v.db.movementProduct id = some (m, p)) (haccount : account ≠ 0) :
    ∃ ls period rate memo mid rows, movementPlan v.db m p account = some ls ∧
      List.Forall₂ (NewLine.Becomes je) ls rows ∧
      Wrote v.seq v.db mid (entryOf je m.movementDate period v.db.settings.baseCurrency rate memo "") rows ∧
      w.db = { mid with movements := v.db.movements.update [id] (·.linked je period) } := by
  simp only [PostInventoryReceipt, Prog.run_query_bind_ok] at h
  obtain ⟨x, hx, h⟩ := h
  obtain rfl := Option.some.inj ((movementHeader_eq_ok.1 hx).symm.trans hmp)
  simp only [Prog.run_require_bind_ok, Prog.run_query_bind_ok] at h
  obtain ⟨-, htype, -, hinventory, postable, hpostable, hopen, h⟩ := h
  have htakes : v.db.takes account = true := by
    rw [DB.takes]
    cases ha : v.db.accounts.find? account with
    | none =>
      have : v.tick.db.accounts.find? account = none := ha
      rw [this] at hpostable
      cases hpostable
    | some a =>
      have : v.tick.db.accounts.find? account = some a := ha
      rw [this] at hpostable
      cases hpostable
      exact hopen
  obtain ⟨period, rate, mid, db₁, db₂, rows₁, rows₂, h₁, h₂, hr₁, hr₂, hw, hdb, -⟩ :=
    run_movementEntry_lines hv.tick.tick (find?_of_movementProduct hmp) h
  rw [h₁.trans hmp] at hr₁
  rw [find?_of_movementProduct (h₂.trans hmp)] at hr₂
  refine ⟨_, period, rate, _, mid, _, ?_, List.rel_append hr₁ hr₂,
    hw.mono ((Env.le_tick_seq v).trans (Env.le_tick_seq _)), hdb⟩
  rw [movementPlan, of_decide_eq_true htype]
  dsimp only
  rw [if_pos ⟨haccount, hinventory, htakes⟩]
  rfl

theorem run_postMovement_lines (h : (PostStockMovement id account).run v = .ok (je, w)) (hv : Fresh v.seq v.db)
    (hmp : v.db.movementProduct id = some (m, p)) :
    ∃ ls period rate memo mid rows, movementPlan v.db m p account = some ls ∧
      List.Forall₂ (NewLine.Becomes je) ls rows ∧
      Wrote v.seq v.db mid (entryOf je m.movementDate period v.db.settings.baseCurrency rate memo "") rows ∧
      w.db = { mid with movements := v.db.movements.update [id] (·.linked je period) } := by
  simp only [PostStockMovement, Prog.run_query_bind_ok] at h
  obtain ⟨t, -, h⟩ := h
  split at h
  · obtain ⟨ls, period, rate, memo, mid, rows, hplan, hr, hw, hdb⟩ :=
      run_postInventoryIssue_lines account h hv.tick hmp
    exact ⟨ls, period, rate, memo, mid, rows, hplan, hr, hw.mono (Env.le_tick_seq v), hdb⟩
  · split at h
    · exact absurd h Prog.run_throw_ok
    · rename_i hne
      obtain ⟨ls, period, rate, memo, mid, rows, hplan, hr, hw, hdb⟩ :=
        run_postInventoryReceipt_lines h hv.tick hmp hne
      exact ⟨ls, period, rate, memo, mid, rows, hplan, hr, hw.mono (Env.le_tick_seq v), hdb⟩
  · exact absurd h Prog.run_throw_ok

/-! ### Checks -/

/-- The accounts that the movement debits and credits: an issue its costs of goods sold and its inventory, a receipt its
inventory and the account of the request. -/
def MovementSides (m : StockMovement) (p : Product) (account debit credit : ℕ) : Prop :=
  match m.movementType with
  | .issue => p.cogsAccountId = some debit ∧ p.inventoryAccountId = some credit
  | .receipt => p.inventoryAccountId = some debit ∧ credit = account ∧ account ≠ 0
  | _ => False

instance (debit credit : ℕ) : Decidable (MovementSides m p account debit credit) :=
  match h : m.movementType with
  | .issue => decidable_of_iff (p.cogsAccountId = some debit ∧ p.inventoryAccountId = some credit)
      (by rw [MovementSides, h])
  | .receipt => decidable_of_iff (p.inventoryAccountId = some debit ∧ credit = account ∧ account ≠ 0)
      (by rw [MovementSides, h])
  | .transferIn => .isFalse (by rw [MovementSides, h]; exact not_false)
  | .transferOut => .isFalse (by rw [MovementSides, h]; exact not_false)
  | .adjustment => .isFalse (by rw [MovementSides, h]; exact not_false)

/-- The documented checks of the posting of a movement pass, and its accounts take postings. -/
structure MovementReady (db : DB) (id account : ℕ) (m : StockMovement) (p : Product) (debit credit : ℕ) : Prop where
  movement : db.movementProduct id = some (m, p)
  unposted : m.journalEntryId = none
  cost : m.totalCost ≠ 0
  period : db.canPost m.movementDate = true
  sides : MovementSides m p account debit credit
  debitOpen : db.takes debit = true
  creditOpen : db.takes credit = true

variable {debit credit : ℕ}

theorem totalCost_nonneg (h : m.RowOk) (htype : m.movementType = .receipt) : 0 ≤ m.totalCost := by
  have hsign := h.sign
  rw [htype] at hsign
  have hq : 0 < m.quantity := of_decide_eq_true hsign
  exact roundDiv_nonneg (mul_nonneg hq.le h.cost) _

/-- The two lines of a movement that is ready. -/
theorem MovementReady.plan (h : MovementReady db id account m p debit credit) (hm : m.RowOk) :
    ∃ memo memo', movementPlan db m p account =
      some [costLine 1 (some debit) |m.totalCost| 0 memo, costLine 2 (some credit) 0 |m.totalCost| memo'] := by
  have hsides := h.sides
  unfold MovementSides at hsides
  unfold movementPlan
  cases htype : m.movementType with
  | issue =>
    rw [htype] at hsides
    obtain ⟨hcogs, hinventory⟩ := hsides
    refine ⟨"Cost of goods sold", "Inventory", ?_⟩
    dsimp only
    rw [hcogs, hinventory]
    exact if_pos rfl
  | receipt =>
    rw [htype] at hsides
    obtain ⟨hinventory, rfl, hne⟩ := hsides
    refine ⟨"Inventory", "Goods received not invoiced", ?_⟩
    dsimp only
    rw [hinventory, if_pos ⟨hne, rfl, h.creditOpen⟩, abs_of_nonneg (totalCost_nonneg hm htype)]
  | transferIn =>
    rw [htype] at hsides
    exact hsides.elim
  | transferOut =>
    rw [htype] at hsides
    exact hsides.elim
  | adjustment =>
    rw [htype] at hsides
    exact hsides.elim

theorem MovementReady.attempt (h : MovementReady db id account m p debit credit) :
    movementAttempt db id account = movementPlan db m p account := by
  rw [movementAttempt, h.movement, Option.bind_some, if_pos ⟨h.unposted, h.cost, h.period⟩]

theorem fits_abs {x : ℤ} (h : fits x = true) : fits |x| = true := by
  rw [fits, decide_eq_true_eq, Int.natAbs_abs]
  exact of_decide_eq_true h

/-- The lines of a cost that fits are accepted on accounts that take postings. -/
theorem accepts_costLines {cost : ℤ} {memo memo' : String} (hcost : 0 < cost) (hfits : fits cost = true)
    (hd : db.takes debit = true) (hc : db.takes credit = true) :
    db.accepts [costLine 1 (some debit) cost 0 memo, costLine 2 (some credit) 0 cost memo'] = true := by
  have hzero := fits_zero
  have hdebit : (costLine 1 (some debit) cost 0 memo).accepted db = true := by
    rw [NewLine.accepted, show (costLine 1 (some debit) cost 0 memo).accountId = some debit from rfl, Option.any_some,
      hd, Bool.and_true, JournalLine.valid_iff]
    exact ⟨⟨⟨⟨hfits, hzero⟩, hfits⟩, hzero⟩, ⟨hcost.le, le_refl 0⟩, iff_of_false hcost.ne' (not_not_intro rfl),
      ⟨hcost.le, le_refl 0⟩, .inr hcost, .inl rfl⟩
  have hcredit : (costLine 2 (some credit) 0 cost memo').accepted db = true := by
    rw [NewLine.accepted, show (costLine 2 (some credit) 0 cost memo').accountId = some credit from rfl,
      Option.any_some, hc, Bool.and_true, JournalLine.valid_iff]
    exact ⟨⟨⟨⟨hzero, hfits⟩, hzero⟩, hfits⟩, ⟨le_refl 0, hcost.le⟩, iff_of_true rfl hcost.ne',
      ⟨le_refl 0, hcost.le⟩, .inl rfl, .inr hcost⟩
  have hrange : inRange [costLine 1 (some debit) cost 0 memo, costLine 2 (some credit) 0 cost memo'] = true := by
    simp [inRange, NewLine.inRange, costLine, hfits, hzero]
  rw [DB.accepts, hrange, Bool.and_true, List.all_cons, hdebit, List.all_cons, hcredit]
  rfl

/-! ### Posting -/

/-- The movement is posted: linked to an entry with the cost on the two sides, and otherwise as it was. -/
def MovementPosts (id account : ℕ) (m : StockMovement) (debit credit : ℕ) (gaps : ℕ → ℕ) (s : Store DB) : Prop :=
  ∃ s' je period, (transaction (.postMovement id account)).commit gaps s = .ok ((), s') ∧
    s'.db.movements.find? id = some (m.linked je period) ∧
    (s'.db.linesOf je).map JournalLine.content =
      [⟨debit, |m.totalCost|, 0, |m.totalCost|, 0⟩, ⟨credit, 0, |m.totalCost|, 0, |m.totalCost|⟩]

theorem MovementReady.posts_iff {s : Store DB} (hs : Reachable s) (gaps : ℕ → ℕ)
    (h : MovementReady s.db id account m p debit credit) :
    MovementPosts id account m debit credit gaps s ↔ p.trackInventory = true ∧ p.isActive = true := by
  have hfind := find?_of_movementProduct h.movement
  have hm : m.RowOk := hs.rowsChecked.rows.2.2.2.2 m (Table.mem_of_find? hfind)
  obtain ⟨memo, memo', hplan⟩ := h.plan hm
  have hcost : 0 < |m.totalCost| := abs_pos.2 h.cost
  have hattempt := h.attempt.trans hplan
  have hraises : s.db.movementRaises id = !(p.trackInventory && p.isActive) := by
    rw [DB.movementRaises, h.movement, Option.any_some]
  obtain ⟨hne, hsound⟩ := decided_movement hattempt
  have hdecided : Decided (movementAttempt s.db id account = none) (MovementSound s.db id account)
      (transaction (.postMovement id account)) gaps s := (wp_postMovement (hs.steady gaps)).void.commit
  have hiff : MovementSound s.db id account ↔ p.trackInventory = true ∧ p.isActive = true := by
    rw [hsound, accepts_costLines hcost (fits_abs hm.fits) h.debitOpen h.creditOpen, hraises, Bool.not_eq_false',
      Bool.and_eq_true]
    exact and_iff_right rfl
  rw [← hiff]
  constructor
  · rintro ⟨s', je, period, hcommit, -⟩
    by_contra hno
    obtain ⟨e, he, -⟩ := hdecided.faults hne hno
    rw [hcommit] at he
    cases he
  · intro hok
    obtain ⟨⟨u, s'⟩, hcommit⟩ := hdecided.succeeds hne hok
    obtain ⟨v, hrun, -, rfl⟩ := Prog.commit_eq_ok.1 hcommit
    obtain ⟨je, hrun⟩ := run_void hrun
    obtain ⟨ls, period, rate, memo₁, mid, rows, hls, hr, hw, hdb⟩ := run_postMovement_lines hrun hs.fresh h.movement
    obtain rfl := Option.some.inj (hls.symm.trans hplan)
    refine ⟨_, je, period, hcommit, ?_, ?_⟩
    · rw [hdb]
      exact Table.find?_update_self (f := fun m : StockMovement => m.linked je period) (fun _ => rfl) hfind
    · have hlines : v.db.linesOf je = rows := by
        rw [hdb]
        exact hw.linesOf hs.journalOk
      rw [hlines, forall₂_becomes_content hr]
      rfl

/-! ### Unposting -/

theorem unlinked_linked (hm : m.RowOk) (hj : m.journalEntryId = none) (je period : ℕ) :
    (m.linked je period).unlinked = m := by
  have hp := hm.period hj
  cases m
  cases hj
  cases hp
  rfl

/-- The unposting of the movement succeeds and makes it the movement `m` that it was before it was posted. -/
def MovementRestored (id : ℕ) (m : StockMovement) (gaps : ℕ → ℕ) (s : Store DB) : Prop :=
  ∃ s', (transaction (.unpostMovement id)).commit gaps s = .ok ((), s') ∧ s'.db.movements.find? id = some m

theorem movement_restored_iff {s : Store DB} (hs : Reachable s) (gaps : ℕ → ℕ) {period : ℕ} (hm : m.RowOk)
    (hj : m.journalEntryId = none) (hfind : s.db.movements.find? id = some (m.linked je period))
    (hp : s.db.products.find? m.productId = some p) (hrev : s.db.reversible je = true)
    (htakes : ∀ l ∈ s.db.linesOf je, s.db.takes l.accountId = true) :
    MovementRestored id m gaps s ↔ p.trackInventory = true ∧ p.isActive = true := by
  have hlink : s.db.movementLink id = some je := by
    rw [DB.movementLink, hfind]
    rfl
  have hraises : s.db.movementRaises id = !(p.trackInventory && p.isActive) := by
    rw [DB.movementRaises, DB.movementProduct, hfind]
    show ((s.db.products.find? m.productId).map _).any _ = _
    rw [hp]
    rfl
  obtain ⟨e, he, -⟩ := (Option.any_eq_true ..).1 hrev
  have haccepts : s.db.accepts (s.db.mirrored je) = true := by
    rw [accepts_mirrored he (hs.ledgerOk.posted e (Table.mem_of_find? he)) (hs.entryBalanced je) hs.rowsChecked.valid,
      List.all_eq_true]
    exact htakes
  have hdecided : Decided (s.db.reversed (s.db.movementLink id) = none)
      (s.db.acceptsReversal (s.db.movementLink id) = true ∧ s.db.movementRaises id = false)
      (transaction (.unpostMovement id)) gaps s := (wp_unpostMovement (hs.steady gaps)).void.commit
  rw [hlink, DB.acceptsReversal, reversed_of_reversible hrev, Option.all_some, haccepts, hraises] at hdecided
  have hiff : p.trackInventory = true ∧ p.isActive = true ↔
      true = true ∧ (!(p.trackInventory && p.isActive)) = false := by simp
  rw [hiff]
  constructor
  · rintro ⟨s', hcommit, -⟩
    by_contra hno
    obtain ⟨e, he, -⟩ := hdecided.faults (Option.some_ne_none je) hno
    rw [hcommit] at he
    cases he
  · intro hok
    obtain ⟨⟨u, s'⟩, hcommit⟩ := hdecided.succeeds (Option.some_ne_none je) hok
    obtain ⟨v, hrun, -, rfl⟩ := Prog.commit_eq_ok.1 hcommit
    obtain ⟨rev, hrun⟩ := run_void hrun
    obtain ⟨m', e', r, rows, mid, hm', -, -, hdb, -⟩ := run_unpostMovement hrun hs.fresh
    refine ⟨_, hcommit, ?_⟩
    rw [hdb, ← unlinked_linked hm hj je period]
    exact Table.find?_update_self (f := StockMovement.unlinked) (fun _ => rfl) hfind

/-- A movement that passes the checks is posted with its cost on both sides, and restored by its unposting, if and only
if its product is tracked and active. -/
theorem movement_posts_iff {s : Store DB} (hs : Reachable s) (gaps : ℕ → ℕ)
    (h : MovementReady s.db id account m p debit credit) :
    (MovementPosts id account m debit credit gaps s ↔ p.trackInventory = true ∧ p.isActive = true) ∧
      ∀ (t : Store DB) (gaps : ℕ → ℕ) (je period : ℕ) (q : Product), Reachable t →
        t.db.movements.find? id = some (m.linked je period) → t.db.products.find? m.productId = some q →
        t.db.reversible je = true → (∀ l ∈ t.db.linesOf je, t.db.takes l.accountId = true) →
        (MovementRestored id m gaps t ↔ q.trackInventory = true ∧ q.isActive = true) := by
  refine ⟨h.posts_iff hs gaps, fun t gaps je period q ht hfind hq hrev htakes => ?_⟩
  have hm : m.RowOk := hs.rowsChecked.rows.2.2.2.2 m (Table.mem_of_find? (find?_of_movementProduct h.movement))
  exact movement_restored_iff ht gaps hm h.unposted hfind hq hrev htakes

/-- The checks, decided. -/
def movementReadyAt (id account debit credit : ℕ) (db : DB) : Bool :=
  (db.movementProduct id).any fun x =>
    x.1.journalEntryId = none ∧ x.1.totalCost ≠ 0 ∧ db.canPost x.1.movementDate ∧
      MovementSides x.1 x.2 account debit credit ∧ db.takes debit ∧ db.takes credit

theorem exists_movementReady (h : movementReadyAt id account debit credit db = true) :
    ∃ m p, MovementReady db id account m p debit credit := by
  obtain ⟨⟨m, p⟩, hmp, h⟩ := (Option.any_eq_true ..).1 h
  obtain ⟨hj, hcost, hperiod, hsides, hd, hc⟩ := of_decide_eq_true h
  exact ⟨m, p, hmp, hj, hcost, hperiod, hsides, hd, hc⟩

/-- A receipt (16) of ten pieces at 3 dollars. -/
def stocked : List Op := [
  .createFiscalYear ⟨"FY2026", yearStart, yearEnd⟩,
  .createProduct ⟨some 8, some 3, some 9, true, true⟩,
  .createWarehouse,
  .createMovement { productId := 14, warehouseId := 15, movementType := .receipt, movementDate := march5,
                    quantity := 10 * 10 ^ 4, unitCost := dollars 3 }]

theorem movement_posts_iff_stocked : ∃ (s : Store DB) (m : StockMovement) (p : Product), m.totalCost = dollars 30 ∧
    (MovementPosts 16 11 m 3 11 (fun _ => 0) s ↔ p.trackInventory = true ∧ p.isActive = true) := by
  obtain ⟨s, hs, hp⟩ := exists_reachable stocked (p := fun s => movementReadyAt 16 11 3 11 s.db &&
    (s.db.movementProduct 16).all fun x => x.1.totalCost = dollars 30) (by decide +kernel)
  obtain ⟨hready, hcost⟩ := Bool.and_eq_true_iff.1 hp
  obtain ⟨m, p, h⟩ := exists_movementReady hready
  rw [h.movement] at hcost
  exact ⟨s, m, p, of_decide_eq_true hcost, (movement_posts_iff hs _ h).1⟩

/-- The product is no longer tracked when its receipt is posted. -/
theorem movement_not_posted : ¬∀ s : Store DB, Reachable s → ∀ (id account : ℕ) (m : StockMovement) (p : Product)
    (debit credit : ℕ) (gaps : ℕ → ℕ), MovementReady s.db id account m p debit credit →
      MovementPosts id account m debit credit gaps s := by
  intro hall
  obtain ⟨s, hs, hp⟩ := exists_reachable (stocked ++ [.updateProduct 14 ⟨some 8, some 3, some 9, false, true⟩])
    (p := fun s => movementReadyAt 16 11 3 11 s.db &&
      (s.db.movementProduct 16).all fun x => x.2.trackInventory = false) (by decide +kernel)
  obtain ⟨hready, htrack⟩ := Bool.and_eq_true_iff.1 hp
  obtain ⟨m, p, h⟩ := exists_movementReady hready
  rw [h.movement] at htrack
  have := ((h.posts_iff hs fun _ => 0).1 (hall s hs 16 11 m p 3 11 _ h)).1
  rw [of_decide_eq_true htrack] at this
  cases this
