import Tadmor.Proof.Exchange

/-!
# Auto-apply is a walk over the open documents

The query computes every share from the sum of the documents before it.  What an auto-apply creates is what a walk over
the open documents of the party, oldest first, creates, and an auto-apply that follows it at once does nothing.
-/

/-! ### The open documents -/

variable {db : DB} {side : Side} {settler : SettlerKind} {id : ℕ} {x : Settler}

/-- What can be applied to the document by a settler of the side. -/
structure DB.OpenFor (db : DB) (side : Side) (x : Settler) (d : Doc) : Prop where
  mem : d ∈ db.docs
  invoice : d.kind = side.invoice
  party : d.partyId = x.partyId
  currency : d.currencyCode = x.currencyCode
  posted : d.status = .posted
  available : 0 < db.available d

/-- Earlier, or of the same date and a smaller id. -/
def Doc.Before (d e : Doc) : Prop := d.date < e.date ∨ d.date = e.date ∧ d.id < e.id

theorem oldestFirst_iff {d e : Doc} : oldestFirst d e = true ↔ d.date < e.date ∨ d.date = e.date ∧ d.id ≤ e.id := by
  simp [oldestFirst]

theorem oldestFirst_total : Std.Total fun d e : Doc => oldestFirst d e = true := by
  constructor
  intro d e
  simp only [oldestFirst_iff]
  rcases lt_trichotomy d.date e.date with h | h | h
  · exact .inl (.inl h)
  · rcases le_total d.id e.id with hid | hid
    · exact .inl (.inr ⟨h, hid⟩)
    · exact .inr (.inr ⟨h.symm, hid⟩)
  · exact .inr (.inl h)

theorem oldestFirst_trans : IsTrans Doc fun d e => oldestFirst d e = true := by
  constructor
  intro d e f hde hef
  rw [oldestFirst_iff] at *
  rcases hde with hde | ⟨hde, hid⟩
  · rcases hef with hef | ⟨hef, -⟩
    · exact .inl (hde.trans hef)
    · exact .inl (hef ▸ hde)
  · rcases hef with hef | ⟨hef, hid'⟩
    · exact .inl (hde ▸ hef)
    · exact .inr ⟨hde.trans hef, hid.trans hid'⟩

/-- The open documents in the order of their dates and ids are those of the query. -/
theorem openDocs_eq {ds : List Doc} (hmem : ∀ d, d ∈ ds ↔ db.OpenFor side x d) (hsorted : ds.Pairwise Doc.Before) :
    db.openDocs side x = ds.map fun d => (d.id, db.available d) := by
  have := oldestFirst_total
  have := oldestFirst_trans
  unfold DB.openDocs
  generalize hl : (db.docs.rows.filter fun d => d.kind = side.invoice && d.partyId = x.partyId &&
    d.currencyCode = x.currencyCode && d.status = .posted && 0 < db.available d) = l
  have hopen : ∀ d, d ∈ l ↔ db.OpenFor side x d := by
    intro d
    rw [← hl, List.mem_filter]
    simp only [Bool.and_eq_true, decide_eq_true_eq, Table.mem_rows]
    constructor
    · rintro ⟨hm, ⟨⟨⟨hk, hp⟩, hc⟩, hs⟩, ha⟩
      exact ⟨hm, hk, hp, hc, hs, ha⟩
    · rintro ⟨hm, hk, hp, hc, hs, ha⟩
      exact ⟨hm, ⟨⟨⟨hk, hp⟩, hc⟩, hs⟩, ha⟩
  have hln : l.Nodup := hl ▸ (List.Nodup.of_map _ db.docs.nodup).filter _
  have hdn : ds.Nodup := hsorted.imp fun h e => by
    subst e
    rcases h with h | ⟨-, h⟩
    · exact lt_irrefl _ h
    · exact lt_irrefl _ h
  have hperm : (l.insertionSort fun d e => oldestFirst d e = true).Perm ds :=
    (List.perm_insertionSort _ l).trans ((List.perm_ext_iff_of_nodup hln hdn).2 fun d => by rw [hopen, hmem])
  congr 1
  have hds : ds.Pairwise fun d e => oldestFirst d e = true := hsorted.imp fun h => by
    rw [oldestFirst_iff]
    exact h.imp id fun h => ⟨h.1, h.2.le⟩
  refine hperm.eq_of_pairwise (fun d e hd he hde hed => ?_) (List.pairwise_insertionSort _ l) hds
  · -- two documents, each not after the other
    have hd := ((hopen d).1 ((List.perm_insertionSort _ l).mem_iff.1 hd)).mem
    have he := ((hmem e).1 he).mem
    rw [oldestFirst_iff] at hde hed
    refine Table.key_inj hd he ?_
    rcases hde with hde | ⟨hde, hid⟩
    · rcases hed with hed | ⟨hed, -⟩
      · exact absurd hde (lt_asymm hed)
      · exact absurd (hed ▸ hde) (lt_irrefl _)
    · rcases hed with hed | ⟨-, hid'⟩
      · exact absurd (hde ▸ hed) (lt_irrefl _)
      · exact le_antisymm hid hid'

/-! ### The new applications -/

theorem map_core_applicationRows (n : ℕ) (xs : List (ℕ × ℤ)) :
    (applicationRows side settler id n xs).map Application.core = applicationRows side settler id n xs := by
  induction xs generalizing n with
  | nil => rfl
  | cons y xs ih =>
    rw [applicationRows, List.map_cons, ih]
    rfl

theorem sum_applicationRows_doc (docId n : ℕ) (xs : List (ℕ × ℤ)) :
    (((applicationRows side settler id n xs).filter fun a => a.docId = docId).map (·.amountApplied)).sum =
      ((xs.filter fun y => y.1 = docId).map Prod.snd).sum := by
  induction xs generalizing n with
  | nil => rfl
  | cons y xs ih =>
    obtain ⟨k, amount⟩ := y
    rw [applicationRows]
    by_cases hk : k = docId
    · rw [List.filter_cons_of_pos (by simpa using hk), List.filter_cons_of_pos (by simpa using hk), List.map_cons,
        List.map_cons, List.sum_cons, List.sum_cons, ih]
    · rw [List.filter_cons_of_neg (by simpa using hk), List.filter_cons_of_neg (by simpa using hk), ih]

theorem sum_applicationRows_settler (n : ℕ) (xs : List (ℕ × ℤ)) :
    (((applicationRows side settler id n xs).filter fun a => a.settler = settler && a.settlerId = id).map
      (·.amountApplied)).sum = (xs.map Prod.snd).sum := by
  induction xs generalizing n with
  | nil => rfl
  | cons y xs ih =>
    rw [applicationRows, List.filter_cons_of_pos (by simp), List.map_cons, List.map_cons, List.sum_cons, List.sum_cons,
      ih]

/-- What the settler gives to the documents, walking them in order. -/
def DB.walkOver (db : DB) (settler : SettlerKind) (id : ℕ) (x : Settler) (ds : List Doc) : List (ℕ × ℤ) :=
  walk (db.remaining settler id x) (ds.map fun d => (d.id, db.available d))

theorem SettledOk.remaining_nonneg (h : SettledOk db) (hx : db.settlerOf side settler id = some x)
    (hp : x.status = .posted) : 0 ≤ db.remaining settler id x :=
  sub_nonneg.2 (h.settler side settler id x hx hp)

theorem allocation_eq_walkOver (h : SettledOk db) (hx : db.settlerOf side settler id = some x) (hp : x.status = .posted)
    {ds : List Doc} (hmem : ∀ d, d ∈ ds ↔ db.OpenFor side x d) (hsorted : ds.Pairwise Doc.Before) :
    db.allocation side settler id = db.walkOver settler id x ds := by
  rw [DB.allocation, hx, DB.walkOver, ← openDocs_eq hmem hsorted]
  refine allocate_eq_walk (h.remaining_nonneg hx hp) fun y hy => ?_
  rw [openDocs_eq hmem hsorted] at hy
  obtain ⟨d, hd, rfl⟩ := List.mem_map.1 hy
  exact ((hmem d).1 hd).available.le

/-- The books of settlement after an auto-apply. -/
structure AppliedTo (side : Side) (settler : SettlerKind) (id n : ℕ) (shares : List (ℕ × ℤ)) (db db' : DB) : Prop where
  docs : db'.docs = db.docs
  payments : db'.payments = db.payments
  created : db'.applications.rows.map Application.core =
    db.applications.rows.map Application.core ++ applicationRows side settler id n shares
  settled : ∀ docId, db'.amountSettled docId =
    db.amountSettled docId + ((shares.filter fun y => y.1 = docId).map Prod.snd).sum
  applied : db'.amountApplied settler id = db.amountApplied settler id + (shares.map Prod.snd).sum

theorem commit_autoApply_created {s s' : Store DB} {gaps : ℕ → ℕ} (hs : Reachable s)
    (h : (transaction (.autoApply side settler id)).commit gaps s = .ok ((), s')) :
    ∃ x n, s.db.settlerOf side settler id = some x ∧ x.status = .posted ∧
      AppliedTo side settler id n (s.db.allocation side settler id) s.db s'.db := by
  obtain ⟨v, hrun, hv⟩ := run_of_commit h
  obtain ⟨shares, hrun⟩ := run_void hrun
  obtain ⟨n, -, rfl, -, hfree, hfx, -⟩ := run_autoApply hrun hs.fresh
  have hx : ∃ x, s.db.settlerOf side settler id = some x ∧ x.status = .posted := by
    simp only [autoApply, Prog.run_query_bind_ok, Prog.run_require_bind_ok] at hrun
    obtain ⟨status, hq, hposted, -⟩ := hrun
    split at hq
    · cases hq
    · rename_i x hx
      cases hq
      exact ⟨x, hx, of_decide_eq_true hposted⟩
  obtain ⟨x, hx, hposted⟩ := hx
  rw [hv] at hfx
  refine ⟨x, n, hx, hposted, by rw [hfx.eq], by rw [hfx.eq], ?_, fun docId => ?_, ?_⟩
  · rw [hfx.core]
    refine (congrArg (List.map Application.core) (Table.rows_insertAll hfree)).trans ?_
    rw [List.map_append, map_core_applicationRows]
  · rw [amountSettled_core hfx.core]
    refine (amountSettled_insertAll hfree docId).trans ?_
    rw [sum_applicationRows_doc]
  · rw [amountApplied_core hfx.core]
    refine (amountApplied_insertAll hfree settler id).trans ?_
    rw [sum_applicationRows_settler]

theorem AppliedTo.settlerOf {n : ℕ} {shares : List (ℕ × ℤ)} {db' : DB} (h : AppliedTo side settler id n shares db db')
    (k : ℕ) : db'.settlerOf side settler k = db.settlerOf side settler k := by
  cases settler with
  | payment => exact settlerOf_congr_payment (by rw [h.payments])
  | creditNote => exact settlerOf_congr_creditNote (by rw [h.docs])

/-- A document gets at least each of its shares. -/
theorem AppliedTo.le_settled {n : ℕ} {shares : List (ℕ × ℤ)} {db' : DB} (h : AppliedTo side settler id n shares db db')
    (hpos : ∀ y ∈ shares, 0 < y.2) {y : ℕ × ℤ} (hy : y ∈ shares) :
    db.amountSettled y.1 + y.2 ≤ db'.amountSettled y.1 := by
  rw [h.settled]
  have hmem : y.2 ∈ (shares.filter fun z => z.1 = y.1).map Prod.snd :=
    List.mem_map_of_mem (List.mem_filter.2 ⟨hy, decide_eq_true rfl⟩)
  have hle := List.single_le_sum (fun z hz => by
    obtain ⟨w, hw, rfl⟩ := List.mem_map.1 hz
    exact (hpos w (List.mem_filter.1 hw).1).le) _ hmem
  omega

theorem AppliedTo.settled_mono {n : ℕ} {shares : List (ℕ × ℤ)} {db' : DB} (h : AppliedTo side settler id n shares db db')
    (hpos : ∀ y ∈ shares, 0 < y.2) (docId : ℕ) : db.amountSettled docId ≤ db'.amountSettled docId := by
  rw [h.settled]
  have hnonneg : 0 ≤ ((shares.filter fun y => y.1 = docId).map Prod.snd).sum := by
    refine List.sum_nonneg fun z hz => ?_
    obtain ⟨w, hw, rfl⟩ := List.mem_map.1 hz
    exact (hpos w (List.mem_filter.1 hw).1).le
  omega

/-! ### The second auto-apply -/

/-- With nothing to allocate and no exchange difference to post, an auto-apply succeeds and does nothing. -/
theorem exists_commit_autoApply_nothing {s : Store DB} (hx : s.db.settlerOf side settler id = some x)
    (hp : x.status = .posted) (halloc : s.db.allocation side settler id = [])
    (hcands : s.db.candidates side settler id = []) (gaps : ℕ → ℕ) :
    ∃ s', (transaction (.autoApply side settler id)).commit gaps s = .ok ((), s') ∧ s'.db = s.db := by
  set v : Env DB Err := ⟨gaps, s.seq, s.db, []⟩
  have hinsert : ∃ w, (insertApplications side settler id).run v.tick = .ok ([], w) ∧ w.db = s.db ∧ w.checks = [] := by
    refine ⟨_, Prog.run_exec_ok.2 ⟨⟨[], 0, fun d => d, [], []⟩, ?_, rfl, rfl⟩, rfl, rfl⟩
    have hnothing : v.tick.db.allocation side settler id = [] := halloc
    simp only [hnothing]
    rfl
  obtain ⟨w, hw, hdb, hchecks⟩ := hinsert
  have hrun : (autoApply side settler id).run v = .ok ([], w.tick) := by
    simp only [autoApply, Prog.run_query_bind_ok, Prog.run_require_bind_ok]
    refine ⟨.posted, ?_, by rfl, ?_⟩
    · have hx : v.db.settlerOf side settler id = some x := hx
      rw [hx, ← hp]
    · refine Prog.run_bind_ok.2 ⟨_, _, hw, Prog.run_bind_ok.2 ⟨(), w.tick, ?_, Prog.run_pure_ok.2 ⟨rfl, rfl⟩⟩⟩
      simp only [postSettlementFX, Prog.run_query_bind_ok]
      refine ⟨[], ?_, ?_⟩
      · rw [hdb, hcands]
        rfl
      · rw [if_pos rfl]
        exact Prog.run_pure_ok.2 ⟨rfl, rfl⟩
  refine ⟨⟨w.tick.db, w.tick.seq⟩, Prog.commit_eq_ok.2 ⟨w.tick, ?_, ?_, rfl⟩, hdb⟩
  · exact Prog.run_bind_ok.2 ⟨_, _, hrun, Prog.run_pure_ok.2 ⟨rfl, rfl⟩⟩
  · show passAll w.checks w.db = .ok ()
    rw [hchecks]
    rfl

/-- In a reachable state, an application without an entry is no candidate for one after an auto-apply of its settler. -/
theorem candidates_eq_nil {s : Store DB} (hs : Reachable s) : s.db.candidates side settler id = [] := by
  rw [List.eq_nil_iff_forall_not_mem]
  intro c hc
  obtain ⟨a, ha, -, hfx, hac⟩ := mem_candidates.1 hc
  obtain ⟨y, d, hsd⟩ := hs.settledOk.settles a ha
  obtain ⟨diff, hdiff, hzero⟩ := hs.exchangeOk.applications a ha y d hsd
  rw [hfx] at hzero
  have hz : diff = 0 := hzero
  simp only [DB.candidate, hsd.settler, hsd.doc, hdiff, hz, Option.bind_some, if_true, Option.bind_eq_some_iff,
    reduceCtorEq, and_false, exists_false] at hac

/-- Without open documents, or with nothing left of the settler, there is nothing to allocate. -/
theorem allocation_eq_nil (h : SettledOk db) (hx : db.settlerOf side settler id = some x) (hp : x.status = .posted)
    (hnone : db.remaining settler id x = 0 ∨ ∀ d, ¬db.OpenFor side x d) : db.allocation side settler id = [] := by
  rw [DB.allocation, hx]
  dsimp only
  rcases hnone with hzero | hnone
  · have hpos : ∀ y ∈ db.openDocs side x, 0 ≤ y.2 := by
      intro y hy
      obtain ⟨d, hd, rfl⟩ := List.mem_map.1 hy
      have hd := (List.mem_filter.1 ((List.perm_insertionSort _ _).mem_iff.1 hd)).2
      simp only [Bool.and_eq_true, decide_eq_true_eq] at hd
      exact hd.2.le
    rw [allocate_eq_walk (h.remaining_nonneg hx hp) hpos, hzero, walk_zero]
  · have hopen : db.openDocs side x = ([] : List Doc).map fun d => (d.id, db.available d) :=
      openDocs_eq (fun d => ⟨fun hd => absurd hd List.not_mem_nil, fun hd => absurd hd (hnone d)⟩) .nil
    rw [hopen]
    rfl

/-! ### The walk -/

/-- The auto-apply from `s` to `s'` has walked the documents `ds` with what was left of the settler. -/
structure Walked (side : Side) (settler : SettlerKind) (id : ℕ) (x : Settler) (ds : List Doc) (s s' : Store DB) :
    Prop where
  created : ∃ n, s'.db.applications.rows.map Application.core = s.db.applications.rows.map Application.core ++
    applicationRows side settler id n (s.db.walkOver settler id x ds)
  sum : ((s.db.walkOver settler id x ds).map Prod.snd).sum =
    min (s.db.remaining settler id x) (ds.map s.db.available).sum
  filled : ∀ y ∈ (s.db.walkOver settler id x ds).dropLast, ∃ d ∈ ds, y = (d.id, s.db.available d) ∧ s'.db.available d = 0
  others : ∀ docId, docId ∉ (s.db.walkOver settler id x ds).map Prod.fst →
    s'.db.amountSettled docId = s.db.amountSettled docId
  again : ∀ gaps, ∃ s'', (transaction (.autoApply side settler id)).commit gaps s' = .ok ((), s'') ∧ s''.db = s'.db

/-- After a walk with enough for all, no document is open. -/
theorem AppliedTo.not_openFor {n : ℕ} {db' : DB} {ds : List Doc} (hmem : ∀ d, d ∈ ds ↔ db.OpenFor side x d)
    (h : AppliedTo side settler id n (ds.map fun d => (d.id, db.available d)) db db') (d : Doc) :
    ¬db'.OpenFor side x d := by
  have hpos : ∀ y ∈ ds.map fun d => (d.id, db.available d), 0 < y.2 := by
    intro y hy
    obtain ⟨d, hd, rfl⟩ := List.mem_map.1 hy
    exact ((hmem d).1 hd).available
  intro hopen
  have havail := hopen.available
  unfold DB.available at havail
  by_cases hd : db.OpenFor side x d
  · have hle := h.le_settled hpos (List.mem_map_of_mem ((hmem d).2 hd))
    simp only [DB.available] at hle
    omega
  · have hmono := h.settled_mono hpos d.id
    refine hd ⟨h.docs ▸ hopen.mem, hopen.invoice, hopen.party, hopen.currency, hopen.posted, ?_⟩
    rw [DB.available]
    omega

/-- Auto-apply is a walk over the open documents of the settler's party and currency, oldest first. -/
theorem auto_apply_walks {s s' : Store DB} {gaps : ℕ → ℕ} (hs : Reachable s)
    (h : (transaction (.autoApply side settler id)).commit gaps s = .ok ((), s')) :
    ∃ x, s.db.settlerOf side settler id = some x ∧ x.status = .posted ∧
      ∀ ds : List Doc, (∀ d, d ∈ ds ↔ s.db.OpenFor side x d) → ds.Pairwise Doc.Before →
        Walked side settler id x ds s s' := by
  have hs' : Reachable s' := hs.step ⟨_, gaps, h⟩
  obtain ⟨x, n, hx, hp, happlied⟩ := commit_autoApply_created hs h
  refine ⟨x, hx, hp, fun ds hmem hsorted => ?_⟩
  rw [allocation_eq_walkOver hs.settledOk hx hp hmem hsorted] at happlied
  have hr := hs.settledOk.remaining_nonneg hx hp
  have havail : ∀ y ∈ ds.map fun d => (d.id, s.db.available d), 0 < y.2 := by
    intro y hy
    obtain ⟨d, hd, rfl⟩ := List.mem_map.1 hy
    exact ((hmem d).1 hd).available
  have hwalk := allocate_eq_walk hr fun y hy => (havail y hy).le
  have hpos : ∀ y ∈ s.db.walkOver settler id x ds, 0 < y.2 := by
    intro y hy
    rw [DB.walkOver, ← hwalk] at hy
    exact pos_of_mem_allocate hy
  have hsum : ((s.db.walkOver settler id x ds).map Prod.snd).sum =
      min (s.db.remaining settler id x) (ds.map s.db.available).sum := by
    rw [DB.walkOver, ← hwalk, sum_allocate hr fun y hy => (havail y hy).le, List.map_map]
    rfl
  have hx' : s'.db.settlerOf side settler id = some x := (happlied.settlerOf id).trans hx
  refine ⟨⟨n, happlied.created⟩, hsum, fun y hy => ?_, fun docId hdoc => ?_, fun gaps' => ?_⟩
  · obtain ⟨d, hd, rfl⟩ := List.mem_map.1 (mem_of_mem_dropLast_walk hy)
    refine ⟨d, hd, rfl, ?_⟩
    have hopen := (hmem d).1 hd
    have hle := happlied.le_settled hpos (List.dropLast_subset _ hy)
    have htotal := hs'.settledOk.doc side.invoice d.id d
      (docOf_eq_some.2 ⟨happlied.docs ▸ Table.find?_key hopen.mem, hopen.invoice⟩) hopen.posted
    simp only [DB.available] at hle ⊢
    omega
  · rw [happlied.settled, List.filter_eq_nil_iff.2 fun y hy e => hdoc ?_, List.map_nil, List.sum_nil, add_zero]
    exact of_decide_eq_true e ▸ List.mem_map_of_mem hy
  · refine exists_commit_autoApply_nothing hx' hp (allocation_eq_nil hs'.settledOk hx' hp ?_) (candidates_eq_nil hs')
      gaps'
    rcases le_total (s.db.remaining settler id x) (ds.map s.db.available).sum with hle | hle
    · left
      rw [min_eq_left hle] at hsum
      rw [DB.remaining, happlied.applied, hsum, DB.remaining]
      omega
    · right
      have hall : s.db.walkOver settler id x ds = ds.map fun d => (d.id, s.db.available d) := by
        refine walk_of_sum_le havail ?_
        rw [List.map_map]
        exact hle
      rw [hall] at happlied
      exact happlied.not_openFor hmem

instance : Decidable (db.OpenFor side x d) :=
  decidable_of_iff (d ∈ db.docs.rows ∧ d.kind = side.invoice ∧ d.partyId = x.partyId ∧ d.currencyCode = x.currencyCode ∧
      d.status = .posted ∧ 0 < db.available d)
    ⟨fun ⟨h₁, h₂, h₃, h₄, h₅, h₆⟩ => ⟨h₁, h₂, h₃, h₄, h₅, h₆⟩, fun ⟨h₁, h₂, h₃, h₄, h₅, h₆⟩ => ⟨h₁, h₂, h₃, h₄, h₅, h₆⟩⟩

instance : DecidableRel Doc.Before := fun d e =>
  inferInstanceAs (Decidable (d.date < e.date ∨ d.date = e.date ∧ d.id < e.id))

/-- Two invoices of one date, of 100 and 50 dollars, and a payment of 120. -/
def sameDay : List Op := opening ++ [
  .postDoc .salesInvoice 15,
  .createDoc .salesInvoice (invoiceInput "I2" 50),
  .postDoc .salesInvoice 21,
  .createPayment .sales (paymentInput 120),
  .postPayment .sales 26]

/-- The first is paid in full, and 20 dollars are left for the second. -/
theorem auto_apply_walks_same_day : ∃ (s s' : Store DB) (x : Settler), Reachable s ∧
    s.db.walkOver .payment 26 x s.db.docs.rows = [(15, dollars 100), (21, dollars 20)] ∧
      Walked .sales .payment 26 x s.db.docs.rows s s' := by
  obtain ⟨s, hs, h⟩ := exists_reachable sameDay (p := fun s =>
    ((s.db.settlerOf .sales .payment 26).any fun x =>
      s.db.walkOver .payment 26 x s.db.docs.rows = [(15, dollars 100), (21, dollars 20)] ∧
        ∀ d ∈ s.db.docs.rows, s.db.OpenFor .sales x d) &&
      (decide (s.db.docs.rows.Pairwise Doc.Before) &&
        commits (.autoApply .sales .payment 26) (fun _ => true) s)) (by decide +kernel)
  simp only [Bool.and_eq_true, decide_eq_true_eq, Option.any_eq_true] at h
  obtain ⟨⟨x, hx, hwalk, hopen⟩, hsorted, h⟩ := h
  obtain ⟨s', hc, -⟩ := of_commits h
  obtain ⟨y, hy, -, hwalked⟩ := auto_apply_walks hs hc
  obtain rfl : y = x := Option.some.inj (hy.symm.trans hx)
  exact ⟨s, s', y, hs, hwalk, hwalked _ (fun d => ⟨hopen d, fun hd => hd.mem⟩) hsorted⟩
