import Tadmor.Proof.ApplyAnswers
import Tadmor.Proof.YearClose

/-!
# When an auto-apply works

With its accounts and a period at hand, an auto-apply can still fail on a constraint: where the walk over the open
documents comes to one that the settler has an application to.
-/

variable {db : DB} {side : Side} {settler : SettlerKind} {id : ℕ} {x : Settler} {d : Doc}

/-! ### How far the walk gets -/

theorem exists_openDocs (db : DB) (side : Side) (x : Settler) :
    ∃ ds : List Doc, (∀ d, d ∈ ds ↔ db.OpenFor side x d) ∧ ds.Pairwise Doc.Before := by
  have := oldestFirst_total
  have := oldestFirst_trans
  set l := db.docs.rows.filter fun d => db.OpenFor side x d with hl
  have hmem : ∀ d, d ∈ l ↔ db.OpenFor side x d := fun d => by
    rw [hl, List.mem_filter, decide_eq_true_eq, Table.mem_rows, and_iff_right_of_imp (·.mem)]
  have hn : l.Nodup := (List.Nodup.of_map _ db.docs.nodup).filter _
  refine ⟨l.insertionSort fun d e => oldestFirst d e = true, fun d => ?_, ?_⟩
  · rw [(List.perm_insertionSort _ l).mem_iff, hmem]
  · refine ((List.pairwise_insertionSort _ l).and ((List.perm_insertionSort _ l).nodup_iff.2 hn)).imp_of_mem
      fun {d e} hd he h => ?_
    have hd := ((hmem d).1 ((List.perm_insertionSort _ l).mem_iff.1 hd)).mem
    have he := ((hmem e).1 ((List.perm_insertionSort _ l).mem_iff.1 he)).mem
    exact (oldestFirst_iff.1 h.1).imp_right fun ho =>
      ⟨ho.1, lt_of_le_of_ne ho.2 fun hid => h.2 (Table.key_inj hd he hid)⟩

/-- What is available on the open documents before `d`. -/
def DB.availableBefore (db : DB) (side : Side) (x : Settler) (d : Doc) : ℤ :=
  ((db.docs.rows.filter fun e => db.OpenFor side x e ∧ e.Before d).map db.available).sum

/-- The walk of the settler comes to the open document. -/
def DB.Reaches (db : DB) (side : Side) (settler : SettlerKind) (id : ℕ) (x : Settler) (d : Doc) : Prop :=
  db.OpenFor side x d ∧ db.availableBefore side x d < db.remaining settler id x

/-- What a document that the walk comes to can take of what the documents before it leave. -/
def DB.shareOf (db : DB) (side : Side) (settler : SettlerKind) (id : ℕ) (x : Settler) (d : Doc) : ℤ :=
  min (db.available d) (db.remaining settler id x - db.availableBefore side x d)

/-- What is available on all open documents. -/
def DB.totalAvailable (db : DB) (side : Side) (x : Settler) : ℤ :=
  ((db.docs.rows.filter fun d => db.OpenFor side x d).map db.available).sum

theorem perm_openDocs {ds : List Doc} (hmem : ∀ d, d ∈ ds ↔ db.OpenFor side x d) (hsorted : ds.Pairwise Doc.Before) :
    ds.Perm (db.docs.rows.filter fun d => db.OpenFor side x d) := by
  refine (List.perm_ext_iff_of_nodup (hsorted.imp ?_) ((List.Nodup.of_map _ db.docs.nodup).filter _)).2 fun d => ?_
  · rintro d e h rfl
    exact h.elim (lt_irrefl _) fun h => lt_irrefl _ h.2
  · rw [hmem, List.mem_filter, decide_eq_true_eq, Table.mem_rows, and_iff_right_of_imp (·.mem)]

theorem Doc.Before.not_symm {d e : Doc} (h : d.Before e) : ¬e.Before d := by
  rintro (h' | ⟨h', hid'⟩)
  · rcases h with h | ⟨h, -⟩
    · exact lt_asymm h h'
    · exact lt_irrefl _ (h ▸ h')
  · rcases h with h | ⟨-, hid⟩
    · exact lt_irrefl _ (h' ▸ h)
    · exact lt_asymm hid hid'

/-- The documents that the walk comes to before `d` are those before it. -/
theorem availableBefore_eq {before after : List Doc} (hmem : ∀ e, e ∈ before ++ d :: after ↔ db.OpenFor side x e)
    (hsorted : (before ++ d :: after).Pairwise Doc.Before) :
    db.availableBefore side x d = (before.map db.available).sum := by
  obtain ⟨-, hafter, hcross⟩ := List.pairwise_append.1 hsorted
  have hfirst : (before ++ d :: after).filter (fun e => e.Before d) = before := by
    have hself : ¬d.Before d := fun h => h.not_symm h
    rw [List.filter_append, List.filter_cons_of_neg (by simpa using hself), List.filter_eq_self.2 fun e he =>
      decide_eq_true (hcross e he d (List.mem_cons_self ..)), List.filter_eq_nil_iff.2 fun e he h =>
        ((List.pairwise_cons.1 hafter).1 e he).not_symm (of_decide_eq_true h), List.append_nil]
  have hperm := (perm_openDocs hmem hsorted).filter fun e => decide (e.Before d)
  rw [hfirst, List.filter_filter] at hperm
  rw [DB.availableBefore, (hperm.map db.available).sum_eq]
  simp only [Bool.decide_and, Bool.and_comm]

theorem mem_allocation_iff (hx : db.settlerOf side settler id = some x) {y : ℕ × ℤ} :
    y ∈ db.allocation side settler id ↔
      ∃ d, db.Reaches side settler id x d ∧ y = (d.id, db.shareOf side settler id x d) := by
  obtain ⟨ds, hmem, hsorted⟩ := exists_openDocs db side x
  have hpos : ∀ z ∈ ds.map fun d => (d.id, db.available d), 0 < z.2 := by
    intro z hz
    obtain ⟨d, hd, rfl⟩ := List.mem_map.1 hz
    exact ((hmem d).1 hd).available
  have hsnd : ∀ l : List Doc, (l.map fun d => (d.id, db.available d)).map Prod.snd = l.map db.available := fun l => by
    rw [List.map_map]
    rfl
  rw [allocation_eq hx, openDocs_eq hmem hsorted, mem_allocate_iff hpos]
  constructor
  · rintro ⟨before, a, after, hds, hlt, hy⟩
    obtain ⟨l₁, l₂, rfl, rfl, h₂⟩ := List.map_eq_append_iff.1 hds
    obtain ⟨d, l₃, rfl, hd, rfl⟩ := List.map_eq_cons_iff.1 h₂
    obtain ⟨hid, rfl⟩ := Prod.mk.inj hd
    rw [hsnd, ← availableBefore_eq hmem hsorted] at hlt hy
    exact ⟨d, ⟨(hmem d).1 (List.mem_append_right _ (List.mem_cons_self ..)), hlt⟩, Prod.ext hid.symm hy⟩
  · rintro ⟨d, ⟨hd, hlt⟩, rfl⟩
    dsimp only
    rw [DB.shareOf]
    obtain ⟨l₁, l₂, rfl⟩ := List.append_of_mem ((hmem d).2 hd)
    rw [availableBefore_eq hmem hsorted] at hlt ⊢
    refine ⟨l₁.map fun d => (d.id, db.available d), db.available d, l₂.map fun d => (d.id, db.available d), ?_, ?_, ?_⟩
    · rw [List.map_append, List.map_cons]
    · rwa [hsnd]
    · rw [hsnd]

/-- What is applied in all is the smaller of what is left of the settler and of what is available. -/
theorem sum_allocation (h : SettledOk db) (hx : db.settlerOf side settler id = some x) (hp : x.status = .posted) :
    ((db.allocation side settler id).map Prod.snd).sum =
      min (db.remaining settler id x) (db.totalAvailable side x) := by
  obtain ⟨ds, hmem, hsorted⟩ := exists_openDocs db side x
  rw [allocation_eq hx, sum_allocate (h.remaining_nonneg hx hp) fun y hy => ?_, openDocs_eq hmem hsorted, List.map_map,
    DB.totalAvailable, ← ((perm_openDocs hmem hsorted).map db.available).sum_eq]
  · rfl
  · obtain ⟨d, hd, rfl⟩ := mem_openDocs.1 hy
    exact hd.available.le

/-! ### Exchange differences -/

/-- The accounts of an exchange difference take postings, so that only its amount decides. -/
theorem accepts_fxPlan_iff {party fx : ℕ} {diff : ℤ} (hparty : db.takes party = true) (hfx : db.takes fx = true)
    (hne : diff ≠ 0) : db.accepts (fxPlan side party fx diff) = true ↔ fits diff = true := by
  have hfits : fits (diff * fxSign side) = fits diff := by
    cases side with
    | sales => rw [fxSign, mul_one]
    | purchase => rw [fxSign, mul_neg_one, fits_neg]
  have hsigned : diff * fxSign side ≠ 0 := by
    cases side with
    | sales => rwa [fxSign, mul_one]
    | purchase => rwa [fxSign, mul_neg_one, neg_ne_zero]
  rw [accepts_fxPlan, fxPlan]
  simp only [List.forall_mem_cons, List.not_mem_nil, false_implies, implies_true, and_true]
  rw [accepted_signed hsigned, accepted_signed (neg_ne_zero.2 hsigned), fits_neg, hfits, and_iff_left hparty,
    and_iff_left hfx, and_self_iff]

/-- The differences of an auto-apply are those of the shares of the walk: the earlier applications have their entries. -/
theorem mem_fxDiffs {s : Store DB} (hs : Reachable s) (hx : s.db.settlerOf side settler id = some x)
    (hp : x.status = .posted) {diff : ℤ} : diff ∈ s.db.fxDiffs side settler id ↔
      ∃ d, s.db.Reaches side settler id x d ∧ diff ≠ 0 ∧
        s.db.fxDiff x d (s.db.shareOf side settler id x d) = some diff := by
  have hsettles : ∀ {a : Application} {d : Doc}, a.side = side → a.settler = settler → a.settlerId = id →
      s.db.OpenFor side x d → d.id = a.docId → s.db.Settles a x d := by
    rintro a d rfl rfl rfl hd hid
    exact ⟨hx, docOf_eq_some.2 ⟨hid ▸ Table.find?_key hd.mem, hd.invoice⟩, hp, hd.posted, hd.party.symm, hd.currency.symm⟩
  have hold : (s.db.applications.rows.filter fun a => a.side = side && a.settler = settler && a.settlerId = id &&
      a.fxJournalEntryId = none).filterMap (fun a => (s.db.candidate a).map (·.diff)) = [] := by
    have hnil : s.db.candidates side settler id = [] := candidates_eq_nil hs
    rw [DB.candidates] at hnil
    rw [← List.map_filterMap, hnil]
    rfl
  rw [DB.fxDiffs, List.filter_append, List.filterMap_append, hold, List.nil_append, List.mem_filterMap]
  constructor
  · rintro ⟨a, ha, hdiff⟩
    obtain ⟨h₁, h₂, h₃, -, hmem⟩ := mem_applicationRows (List.mem_filter.1 ha).1
    obtain ⟨d, hd, hshare⟩ := (mem_allocation_iff hx).1 hmem
    obtain ⟨hid, hamount⟩ := Prod.mk.inj hshare
    have hsd := hsettles h₁ h₂ h₃ hd.1 hid.symm
    obtain ⟨diff', hdiff'⟩ := hs.agrees.exists_fxDiff hsd a.amountApplied
    obtain ⟨c, hc, rfl⟩ := Option.map_eq_some_iff.1 hdiff
    obtain ⟨-, heq⟩ := (candidate_eq hs.rowsChecked.rows hsd hdiff').2 c hc
    obtain ⟨-, -, hne⟩ := of_candidate hsd.settler hc
    exact ⟨d, hd, hne, by rw [heq, ← hdiff', hamount]⟩
  · rintro ⟨d, hd, hne, hdiff⟩
    have hshare : (d.id, s.db.shareOf side settler id x d) ∈ s.db.allocation side settler id :=
      (mem_allocation_iff hx).2 ⟨d, hd, rfl⟩
    obtain ⟨a, ha, hrow⟩ := exists_applicationRow hshare 0
    obtain ⟨hid, hamount⟩ := Prod.mk.inj hrow
    obtain ⟨h₁, h₂, h₃, hfx, -⟩ := mem_applicationRows ha
    have hsd := hsettles h₁ h₂ h₃ hd.1 hid.symm
    rw [← hamount] at hdiff
    refine ⟨a, List.mem_filter.2 ⟨ha, by simp [h₁, h₂, h₃, hfx]⟩, ?_⟩
    obtain ⟨hnone, hsome⟩ := candidate_eq hs.rowsChecked.rows hsd hdiff
    cases hc : s.db.candidate a with
    | none => exact absurd (hnone hc) hne
    | some c => rw [Option.map_some, (hsome c hc).2]

/-! ### The auto-apply -/

/-- The accounts and the period that an exchange difference needs are there. -/
structure DB.ApplyReady (db : DB) (side : Side) (x : Settler) (party fx : ℕ) : Prop where
  gainLoss : db.settings.fxGainLossAccountId = some fx
  gainLossTakes : db.takes fx = true
  control : db.controlOf side x = some party
  controlTakes : db.takes party = true
  period : db.canPost x.date = true

/-- The auto-apply succeeds, and applies the smaller of what is left of the settler and of what is available. -/
def AutoApplies (side : Side) (settler : SettlerKind) (id : ℕ) (x : Settler) (gaps : ℕ → ℕ) (s : Store DB) : Prop :=
  ∃ s', (transaction (.autoApply side settler id)).commit gaps s = .ok ((), s') ∧
    s'.db.amountApplied settler id = s.db.amountApplied settler id +
      min (s.db.remaining settler id x) (s.db.totalAvailable side x)

/-- With its accounts and a period at hand, an auto-apply works if and only if its walk comes to no document that the
settler has an application to already, and no exchange difference is out of range. -/
theorem auto_apply_works_iff {s : Store DB} (hs : Reachable s) (hx : s.db.settlerOf side settler id = some x)
    (hp : x.status = .posted) {party fx : ℕ} (hready : s.db.ApplyReady side x party fx) (gaps : ℕ → ℕ) :
    AutoApplies side settler id x gaps s ↔ ∀ d, s.db.Reaches side settler id x d →
      (∀ a ∈ s.db.applications, ¬(a.OfSettler side settler id ∧ a.docId = d.id)) ∧
        ∀ diff, s.db.fxDiff x d (s.db.shareOf side settler id x d) = some diff → fits diff = true := by
  have happlying : s.db.applying side settler id = some x := by
    rw [DB.applying, hx, Option.filter_some, decide_eq_true hp]
    rfl
  have hdecided : Decided _ _ (transaction (.autoApply side settler id)) gaps s := (wp_autoApply hs gaps).void.commit
  have hnot : ¬s.db.applyRefused side settler id := fun h => by
    obtain ⟨-, -, -, hnone | hno⟩ := (applyRefused_iff happlying).1 h
    · rw [hready.gainLoss] at hnone
      cases hnone
    · exact Bool.eq_false_iff.1 hno hready.period
  have hcommit : AutoApplies side settler id x gaps s ↔ s.db.applySound side settler id := by
    constructor
    · rintro ⟨s', hc, -⟩
      exact (hdecided.commit_iff.1 ⟨_, hc⟩).2
    · intro hsound
      obtain ⟨⟨u, s'⟩, hc⟩ := hdecided.succeeds hnot hsound
      obtain ⟨x', n, hx', -, happlied⟩ := commit_autoApply_created hs hc
      exact ⟨s', hc, by rw [happlied.applied, sum_allocation hs.settledOk hx hp]⟩
  rw [hcommit, applySound_iff happlying, appliesAgain_eq_false]
  constructor
  · rintro ⟨hnew, -, haccepts⟩ d hd
    refine ⟨hnew _ ((mem_allocation_iff hx).2 ⟨d, hd, rfl⟩), fun diff hdiff => ?_⟩
    by_cases hzero : diff = 0
    · rw [hzero]
      exact fits_zero
    · exact (accepts_fxPlan_iff hready.controlTakes hready.gainLossTakes hzero).1
        (haccepts party fx hready.control hready.gainLoss hready.period diff ((mem_fxDiffs hs hx hp).2 ⟨d, hd, hzero, hdiff⟩))
  · intro hall
    refine ⟨fun y hy => ?_, fun _ hnone => ?_, fun party' fx' hparty hfx _ diff hdiff => ?_⟩
    · obtain ⟨d, hd, rfl⟩ := (mem_allocation_iff hx).1 hy
      exact (hall d hd).1
    · rw [hready.control] at hnone
      cases hnone
    · obtain rfl := Option.some.inj (hready.control.symm.trans hparty)
      obtain rfl := Option.some.inj (hready.gainLoss.symm.trans hfx)
      obtain ⟨d, hd, hne, hdiff⟩ := (mem_fxDiffs hs hx hp).1 hdiff
      exact (accepts_fxPlan_iff hready.controlTakes hready.gainLossTakes hne).2 ((hall d hd).2 diff hdiff)

/-- The accounts and the period of an auto-apply of a posted settler are there. -/
def DB.readyFor (db : DB) (side : Side) (settler : SettlerKind) (id : ℕ) : Bool :=
  (db.settlerOf side settler id).any fun x => x.status = .posted &&
    (db.settings.fxGainLossAccountId.any db.takes && ((db.controlOf side x).any db.takes && db.canPost x.date))

theorem exists_applyReady (h : db.readyFor side settler id = true) : ∃ x party fx,
    db.settlerOf side settler id = some x ∧ x.status = .posted ∧ db.ApplyReady side x party fx := by
  obtain ⟨x, hx, h⟩ := (Option.any_eq_true ..).1 h
  simp only [Bool.and_eq_true, decide_eq_true_eq] at h
  obtain ⟨hp, hfx, hparty, hcan⟩ := h
  obtain ⟨fx, hfx, htakes⟩ := (Option.any_eq_true ..).1 hfx
  obtain ⟨party, hparty, htakes'⟩ := (Option.any_eq_true ..).1 hparty
  exact ⟨x, party, fx, hx, hp, hfx, htakes, hparty, htakes', hcan⟩

/-- A payment of 60 euros for an invoice of 100, at another rate. -/
theorem auto_apply_works_iff_euro : ∃ (s : Store DB) (x : Settler) (party fx : ℕ),
    s.db.settlerOf .sales .payment 21 = some x ∧ x.status = .posted ∧ s.db.ApplyReady .sales x party fx ∧
      (AutoApplies .sales .payment 21 x (fun _ => 0) s ↔ ∀ d, s.db.Reaches .sales .payment 21 x d →
        (∀ a ∈ s.db.applications, ¬(a.OfSettler .sales .payment 21 ∧ a.docId = d.id)) ∧
          ∀ diff, s.db.fxDiff x d (s.db.shareOf .sales .payment 21 x d) = some diff → fits diff = true) := by
  obtain ⟨s, hs, h⟩ := exists_reachable (euroOpening ++ [.postPayment .sales 21])
    (p := fun s => s.db.readyFor .sales .payment 21) (by decide +kernel)
  obtain ⟨x, party, fx, hx, hp, hready⟩ := exists_applyReady h
  exact ⟨s, x, party, fx, hx, hp, hready, auto_apply_works_iff hs hx hp hready fun _ => 0⟩

/-- An invoice of 100 dollars is paid with 80 and then with 20 of 60, and the first payment is unposted: the second
payment cannot be applied to what is open again. -/
theorem auto_apply_again_fails : ¬∀ s : Store DB, Reachable s → ∀ (side : Side) (settler : SettlerKind) (id : ℕ)
    (x : Settler) (party fx : ℕ) (gaps : ℕ → ℕ), s.db.settlerOf side settler id = some x → x.status = .posted →
      s.db.ApplyReady side x party fx → AutoApplies side settler id x gaps s := by
  intro hall
  obtain ⟨s, hs, h⟩ := exists_reachable (opening ++ [
      .postDoc .salesInvoice 15,
      .createPayment .sales (paymentInput 80),
      .postPayment .sales 21,
      .autoApply .sales .payment 21,
      .createPayment .sales (paymentInput 60),
      .postPayment .sales 26,
      .autoApply .sales .payment 26,
      .unpostPayment .sales 21])
    (p := fun s => s.db.readyFor .sales .payment 26 &&
      !((transaction (.autoApply .sales .payment 26)).commit (fun _ => 0) s).toOption.isSome) (by decide +kernel)
  rw [Bool.and_eq_true, Bool.not_eq_true'] at h
  obtain ⟨hready, hfails⟩ := h
  obtain ⟨x, party, fx, hx, hp, hready⟩ := exists_applyReady hready
  obtain ⟨s', hc, -⟩ := hall s hs .sales .payment 26 x party fx (fun _ => 0) hx hp hready
  rw [hc] at hfails
  cases hfails
