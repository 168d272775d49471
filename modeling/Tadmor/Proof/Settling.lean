import Tadmor.Proof.Postings

/-!
# What applying and unposting do

The application rows and the exchange-difference entries that an auto-apply writes, and the reversals, deletions and
unlinkings of an unpost.
-/

/-! ### Applications -/

theorem checkApplications_eq_ok {db : DB} {rows : List Application} {u : Unit} :
    checkApplications db rows = .ok u ↔ ∀ a ∈ rows, a.check db = .ok () := by
  induction rows with
  | nil => simp [checkApplications]
  | cons a rows ih =>
    simp only [checkApplications, Except.bind_eq_ok_iff, ih, List.mem_cons, forall_eq_or_imp]
    constructor
    · rintro ⟨u', h, hs⟩
      exact ⟨h, hs⟩
    · rintro ⟨h, hs⟩
      exact ⟨(), h, hs⟩

theorem run_insertApplications {side : Side} {settler : SettlerKind} {id : ℕ} {shares : List (ℕ × ℤ)}
    {v w : Env DB Err} (h : (insertApplications side settler id).run v = .ok (shares, w)) :
    ∃ n, v.seq ≤ n ∧ shares = v.db.allocation side settler id ∧
      checkApplications v.db (applicationRows side settler id n shares) = .ok () ∧
      w.db = { v.db with applications := v.db.applications.insertAll (applicationRows side settler id n shares) } ∧
      w.checks = v.checks ++
        (applicationRows side settler id n shares).map fun a => DB.applicationCheck a false := by
  obtain ⟨o, ho, rfl, rfl⟩ := Prog.run_exec_ok.1 h
  simp only [Except.bind_eq_ok_iff, Except.ok.injEq] at ho
  obtain ⟨u, hc, rfl⟩ := ho
  exact ⟨_, Nat.le_add_right .., rfl, hc, rfl, rfl⟩

/-- What an application row of an auto-apply is. -/
theorem mem_applicationRows {side : Side} {settler : SettlerKind} {id n : ℕ} {xs : List (ℕ × ℤ)} {a : Application}
    (h : a ∈ applicationRows side settler id n xs) :
    a.side = side ∧ a.settler = settler ∧ a.settlerId = id ∧ a.fxJournalEntryId = none ∧
      (a.docId, a.amountApplied) ∈ xs := by
  induction xs generalizing n with
  | nil => cases h
  | cons x xs ih =>
    rcases List.mem_cons.1 h with rfl | h
    · exact ⟨rfl, rfl, rfl, rfl, List.mem_cons_self ..⟩
    · obtain ⟨h₁, h₂, h₃, h₄, h₅⟩ := ih h
      exact ⟨h₁, h₂, h₃, h₄, List.mem_cons_of_mem _ h₅⟩

/-! ### Exchange differences -/

/-- From `db`, entries are written one after another, each for an application of the settler that has none. -/
inductive FxPosted (lo : ℕ) (own : JournalEntry → Application → Prop) : DB → DB → Prop where
  | nil (db : DB) : FxPosted lo own db db
  | cons {db mid db' : DB} {e : JournalEntry} {rows : List JournalLine} {a : Application}
      (hw : Wrote lo db mid e rows) (he : e.reversesEntryId = none) (ha : db.applications.find? a.id = some a)
      (hfx : a.fxJournalEntryId = none) (hown : own e a) (hpost : db.Posted e.entryDate mid)
      (h : FxPosted lo own { mid with applications := db.applications.update [a.id] (·.withFx e.id) fun _ => rfl } db') :
      FxPosted lo own db db'

/-- The application is one of the settler. -/
def Application.OfSettler (side : Side) (settler : SettlerKind) (id : ℕ) (a : Application) : Prop :=
  a.side = side ∧ a.settler = settler ∧ a.settlerId = id

/-- The entry may be one for the application: the application is one of the settler, the date the settler's. -/
def DB.FxOf (db : DB) (side : Side) (settler : SettlerKind) (id : ℕ) (e : JournalEntry) (a : Application) : Prop :=
  a.OfSettler side settler id ∧ ∃ s, db.settlerOf side settler id = some s ∧ e.entryDate = s.date

/-- The application of the candidate exists, has no entry and may have one of the candidate's date. -/
def DB.Unlinked (db : DB) (own : JournalEntry → Application → Prop) (c : Candidate) : Prop :=
  ∃ a, db.applications.find? c.appId = some a ∧ a.fxJournalEntryId = none ∧ ∀ e, e.entryDate = c.date → own e a

theorem FxPosted.eq {lo : ℕ} {own : JournalEntry → Application → Prop} {db db' : DB} (h : FxPosted lo own db db') :
    db' = { db with periods := db'.periods, entries := db'.entries, lines := db'.lines,
                    applications := db'.applications } := by
  induction h with
  | nil db => rfl
  | cons hw _ _ _ _ _ _ ih => rw [ih, hw.eq]

theorem run_linkFx {appId je : ℕ} {a : Application} {v w : Env DB Err} {u : Unit}
    (h : (linkFx appId je).run v = .ok (u, w)) (ha : v.db.applications.find? appId = some a) :
    w.db = { v.db with applications := v.db.applications.update [appId] (·.withFx je) fun _ => rfl } := by
  obtain ⟨o, ho, -, rfl⟩ := Prog.run_exec_ok.1 h
  cases ho
  rw [Env.after_db, Table.hit_of_find? ha rfl]

/-- The lines of the entry of an exchange difference. -/
def fxPlan (side : Side) (party fx : ℕ) (diff : ℤ) : List NewLine :=
  [NewLine.signed 1 (some party) (diff * fxSign side) (diff * fxSign side) "Settlement revaluation",
    NewLine.signed 2 (some fx) (-(diff * fxSign side)) (-(diff * fxSign side)) "Exchange gain (loss)"]

theorem run_postFx_lines {side : Side} {base : String} {account fx : ℕ} {c : Candidate} {a : Application}
    {v w : Env DB Err} {u : Unit} (h : (postFx side base account fx c).run v = .ok (u, w)) (hv : Fresh v.seq v.db)
    (ha : v.db.applications.find? c.appId = some a) :
    ∃ e rows mid, Wrote v.seq v.db mid e rows ∧
      List.Forall₂ (NewLine.Becomes e.id) (fxPlan side account fx c.diff) rows ∧ e.reversesEntryId = none ∧
      e.entryDate = c.date ∧ v.db.Posted e.entryDate mid ∧
      w.db = { mid with applications := v.db.applications.update [c.appId] (·.withFx e.id) fun _ => rfl } := by
  obtain ⟨period, v₁, h₁, h⟩ := Prog.run_bind_ok.1 h
  obtain ⟨je, v₂, h₂, h⟩ := Prog.run_bind_ok.1 h
  obtain ⟨u₃, v₃, h₃, h⟩ := Prog.run_bind_ok.1 h
  obtain ⟨u₄, v₄, h₄, h⟩ := Prog.run_bind_ok.1 h
  have hv₁ := (allFresh_periodForDate _).run h₁ hv
  obtain ⟨hp, -, -⟩ := run_periodForDate h₁
  obtain ⟨rate, rows₁, rows₂, -, -, -, hr₁, hr₂, -, -, hw, hps⟩ := run_entry hv₁ h₂ h₃ h₄
  have happs : v₄.db.applications = v.db.applications := by rw [hw.eq, hp.eq]
  refine ⟨_, _, v₄.db, hp.wrote (hw.mono (Prog.run_seq_le h₁)), List.rel_append hr₁ hr₂, rfl, rfl,
    (run_periodForDate_posted h₁).congr hps (by rw [hw.eq]), ?_⟩
  rw [run_linkFx h (happs ▸ ha), happs]
  rfl

theorem run_postFx {side : Side} {base : String} {account fx : ℕ} {c : Candidate} {a : Application}
    {v w : Env DB Err} {u : Unit} (h : (postFx side base account fx c).run v = .ok (u, w)) (hv : Fresh v.seq v.db)
    (ha : v.db.applications.find? c.appId = some a) :
    ∃ e rows mid, Wrote v.seq v.db mid e rows ∧ e.reversesEntryId = none ∧ e.entryDate = c.date ∧
      v.db.Posted e.entryDate mid ∧
      w.db = { mid with applications := v.db.applications.update [c.appId] (·.withFx e.id) fun _ => rfl } := by
  obtain ⟨e, rows, mid, hw, -, he⟩ := run_postFx_lines h hv ha
  exact ⟨e, rows, mid, hw, he⟩

theorem unlinked_update {own : JournalEntry → Application → Prop} {db mid : DB} {appId : ℕ} {c : Candidate} {je : ℕ}
    (hk : c.appId ≠ appId) (h : db.Unlinked own c) :
    DB.Unlinked { mid with applications := db.applications.update [appId] (·.withFx je) fun _ => rfl } own c := by
  obtain ⟨a, ha, hfx⟩ := h
  have hkey : ∀ a : Application, Keyed.key (a.withFx je) = Keyed.key a := fun _ => rfl
  exact ⟨a, (Table.find?_update_of_notMem hkey (by simpa using hk)).trans ha, hfx⟩

theorem FxPosted.mono {lo lo' : ℕ} {own : JournalEntry → Application → Prop} {db db' : DB} (h : FxPosted lo own db db')
    (hlo : lo' ≤ lo) : FxPosted lo' own db db' := by
  induction h with
  | nil db => exact .nil db
  | cons hw he ha hfx hown hpost _ ih => exact .cons (hw.mono hlo) he ha hfx hown hpost ih

theorem run_postEach {side : Side} {base : String} {fx : ℕ} {cs : List (ℕ × Candidate)}
    {own : JournalEntry → Application → Prop} {v w : Env DB Err} {u : Unit}
    (h : (postEach side base fx cs).run v = .ok (u, w)) (hv : Fresh v.seq v.db)
    (hn : (cs.map (·.2.appId)).Nodup) (hc : ∀ c ∈ cs, v.db.Unlinked own c.2) :
    FxPosted v.seq own v.db w.db := by
  induction cs generalizing v with
  | nil =>
    obtain ⟨-, rfl⟩ := Prog.run_pure_ok.1 h
    exact .nil _
  | cons c cs ih =>
    obtain ⟨u₁, v₁, h₁, h⟩ := Prog.run_bind_ok.1 h
    rw [List.map_cons, List.nodup_cons] at hn
    obtain ⟨a, ha, hfx, hown⟩ := hc c (List.mem_cons_self ..)
    obtain ⟨e, rows, mid, hw, he, hdate, hpost, hdb⟩ := run_postFx h₁ hv ha
    have hrest : FxPosted v₁.seq own v₁.db w.db := by
      refine ih h ((allFresh_postFx _ _ _ _ _).run h₁ hv) hn.2 fun c' hc' => ?_
      rw [hdb]
      refine unlinked_update (fun e => hn.1 ?_) (hc c' (List.mem_cons_of_mem _ hc'))
      exact e ▸ List.mem_map_of_mem hc'
    have hid : a.id = c.2.appId := Table.key_of_find? ha
    refine .cons hw he (hid ▸ ha) hfx (hown e hdate) hpost ?_
    rw [hid, ← hdb]
    exact hrest.mono (Prog.run_seq_le h₁)

/-- The rows that `filterMap` keeps, in order. -/
theorem sublist_filterMap {α β γ : Type} {f : α → Option β} {g : β → γ} {k : α → γ}
    (h : ∀ a b, f a = some b → g b = k a) (l : List α) : ((l.filterMap f).map g).Sublist (l.map k) := by
  induction l with
  | nil => exact .slnil
  | cons a l ih =>
    rw [List.filterMap_cons]
    cases hf : f a with
    | none => exact ih.cons _
    | some b =>
      rw [List.map_cons, List.map_cons, h a b hf]
      exact ih.cons_cons _

theorem appId_of_candidate {db : DB} {a : Application} {c : Candidate} (h : db.candidate a = some c) :
    c.appId = a.id := by
  simp only [DB.candidate, Option.bind_eq_some_iff] at h
  obtain ⟨s, -, p, -, d, -, diff, -, h⟩ := h
  split at h
  · cases h
  · cases h
    rfl

theorem date_of_candidate {db : DB} {a : Application} {c : Candidate} (h : db.candidate a = some c) :
    ∃ s, db.settlerOf a.side a.settler a.settlerId = some s ∧ c.date = s.date := by
  simp only [DB.candidate, Option.bind_eq_some_iff] at h
  obtain ⟨s, hs, p, -, d, -, diff, -, h⟩ := h
  split at h
  · cases h
  · cases h
    exact ⟨s, hs, rfl⟩

theorem nodup_candidates (db : DB) (side : Side) (settler : SettlerKind) (id : ℕ) :
    ((db.candidates side settler id).map (·.appId)).Nodup := by
  refine (sublist_filterMap (fun a c h => appId_of_candidate h) _).nodup ?_
  exact db.applications.nodup.sublist (List.filter_sublist.map _)

theorem unlinked_of_mem_candidates {db : DB} {side : Side} {settler : SettlerKind} {id : ℕ} {c : Candidate}
    (h : c ∈ db.candidates side settler id) : db.Unlinked (db.FxOf side settler id) c := by
  obtain ⟨a, ha, hc⟩ := List.mem_filterMap.1 h
  obtain ⟨ha, hp⟩ := List.mem_filter.1 ha
  simp only [Bool.and_eq_true, decide_eq_true_eq] at hp
  obtain ⟨⟨⟨hside, hkind⟩, hid⟩, hfx⟩ := hp
  refine ⟨a, appId_of_candidate hc ▸ Table.find?_key ha, hfx, fun e he => ⟨⟨hside, hkind, hid⟩, ?_⟩⟩
  obtain ⟨s, hs, hdate⟩ := date_of_candidate hc
  rw [hside, hkind, hid] at hs
  exact ⟨s, hs, he.trans hdate⟩

theorem scanCandidates_eq_ok {cs : List Candidate} {xs : List (ℕ × Candidate)} (h : scanCandidates cs = .ok xs) :
    xs.map (·.2) = cs := by
  induction cs generalizing xs with
  | nil =>
    cases h
    rfl
  | cons c cs ih =>
    unfold scanCandidates at h
    split at h
    · cases h
    · simp only [Except.bind_eq_ok_iff, Except.ok.injEq] at h
      obtain ⟨ys, hys, rfl⟩ := h
      rw [List.map_cons, ih hys]

theorem run_postSettlementFX {side : Side} {settler : SettlerKind} {id : ℕ} {v w : Env DB Err} {u : Unit}
    (h : (postSettlementFX side settler id).run v = .ok (u, w)) (hv : Fresh v.seq v.db) :
    FxPosted v.seq (v.db.FxOf side settler id) v.db w.db := by
  simp only [postSettlementFX, Prog.run_query_bind_ok] at h
  obtain ⟨cs, hcs, h⟩ := h
  have hmap := scanCandidates_eq_ok hcs
  split at h
  · obtain ⟨-, rfl⟩ := Prog.run_pure_ok.1 h
    exact .nil _
  · rw [Prog.run_read_bind_ok] at h
    split at h
    · exact absurd h Prog.run_throw_ok
    · refine (run_postEach h hv.tick.tick ?_ fun c hc => ?_).mono ((Env.le_tick_seq v).trans (Env.le_tick_seq _))
      · have := nodup_candidates v.db side settler id
        rwa [← hmap, List.map_map] at this
      · exact unlinked_of_mem_candidates (hmap ▸ List.mem_map_of_mem hc)

/-- What an auto-apply does: it inserts the rows of the allocation, then writes the entries. -/
theorem run_autoApply {side : Side} {settler : SettlerKind} {id : ℕ} {shares : List (ℕ × ℤ)} {v w : Env DB Err}
    (h : (autoApply side settler id).run v = .ok (shares, w)) (hv : Fresh v.seq v.db) :
    ∃ n, v.seq ≤ n ∧ shares = v.db.allocation side settler id ∧
      checkApplications v.db (applicationRows side settler id n shares) = .ok () ∧
      v.db.applications.AllFree (applicationRows side settler id n shares) ∧
      FxPosted v.seq (v.db.FxOf side settler id)
        { v.db with applications := v.db.applications.insertAll (applicationRows side settler id n shares) } w.db ∧
      ∀ a ∈ applicationRows side settler id n shares, DB.applicationCheck a false ∈ w.checks := by
  simp only [autoApply, Prog.run_query_bind_ok, Prog.run_require_bind_ok] at h
  obtain ⟨status, -, -, h⟩ := h
  obtain ⟨shares', v₁, h₁, h⟩ := Prog.run_bind_ok.1 h
  obtain ⟨u₂, v₂, h₂, h⟩ := Prog.run_bind_ok.1 h
  obtain ⟨rfl, rfl⟩ := Prog.run_pure_ok.1 h
  obtain ⟨n, hn, hshares, hc, hdb, hch⟩ := run_insertApplications h₁
  have hfx := run_postSettlementFX h₂ ((allFresh_insertApplications _ _ _).run h₁ hv.tick)
  have hle := (Env.le_tick_seq v).trans (Prog.run_seq_le h₁)
  refine ⟨n, (Env.le_tick_seq v).trans hn, hshares, hc,
    (hv.applications.mono ((Env.le_tick_seq v).trans hn)).allFree (map_id_applicationRows ..), ?_, fun a ha => ?_⟩
  · rw [hdb] at hfx
    exact hfx.mono hle
  · obtain ⟨cs, hcs⟩ := Prog.run_checks_prefix h₂
    rw [hcs, hch]
    exact List.mem_append_left _ (List.mem_append_right _ (List.mem_map_of_mem ha))

/-! ### Unposting -/

theorem run_postedEntryOf {noun : String} {id je : ℕ} {find : DB → Option (DocStatus × Option ℕ)} {v w : Env DB Err}
    (h : (postedEntryOf noun id find).run v = .ok (je, w)) : find v.db = some (.posted, some je) ∧ w = v.tick := by
  obtain ⟨hs, rfl⟩ := Prog.run_query_ok.1 h
  refine ⟨?_, rfl⟩
  split at hs
  · cases hs
  · rename_i je' hf
    cases hs
    exact hf
  · cases hs

theorem run_unpostDoc {kind : DocKind} {id rev : ℕ} {v w : Env DB Err} (h : (unpostDoc kind id).run v = .ok (rev, w))
    (hv : Fresh v.seq v.db) :
    ∃ d e r rows mid, v.db.docOf kind id = some d ∧ d.status = .posted ∧ d.journalEntryId = some e.id ∧
      (∀ a ∈ v.db.applications, a.involves kind id = false) ∧ Reversed v.seq v.db mid e r rows ∧
      w.db = { mid with docs := v.db.docs.update [id] Doc.unposted fun _ => rfl } ∧ v.db.Posted r.entryDate mid := by
  obtain ⟨je, v₁, h₁, h⟩ := Prog.run_bind_ok.1 h
  obtain ⟨hf, rfl⟩ := run_postedEntryOf h₁
  obtain ⟨d, hd, hp⟩ := Option.map_eq_some_iff.1 hf
  rw [Prog.run_read_bind_ok, Prog.run_require_bind_ok] at h
  obtain ⟨happs, h⟩ := h
  obtain ⟨rev', v₂, h₂, h⟩ := Prog.run_bind_ok.1 h
  obtain ⟨u₃, v₃, h₃, h⟩ := Prog.run_bind_ok.1 h
  obtain ⟨rfl, rfl⟩ := Prog.run_pure_ok.1 h
  obtain ⟨e, r, rows, rfl, -, hr, hpost⟩ := run_reverseEntry h₂ hv.tick.tick
  simp only [Prod.mk.injEq] at hp
  refine ⟨d, e, r, rows, v₂.db, hd, hp.1, hp.2, fun a ha => ?_,
    hr.mono ((Env.le_tick_seq v).trans (Env.le_tick_seq _)), ?_, hpost⟩
  · simp only [Bool.not_eq_eq_eq_not, Bool.not_true, List.any_eq_false, Bool.not_eq_true] at happs
    exact happs a ha
  · obtain ⟨hfd, hk⟩ := docOf_eq_some.1 hd
    have hdocs : v₂.db.docs = v.db.docs := by rw [hr.wrote.eq, Env.tick_db, Env.tick_db]
    rw [(run_updateDocRow h₃).1, hdocs, Table.hit_of_find? hfd (by simpa using hk)]

/-- The entries `es` are reversed one after another. -/
inductive ReversedAll (lo : ℕ) : List ℕ → DB → DB → Prop where
  | nil (db : DB) : ReversedAll lo [] db db
  | cons {db mid db' : DB} {e r : JournalEntry} {rows : List JournalLine} {es : List ℕ}
      (h : Reversed lo db mid e r rows) (hpost : db.Posted r.entryDate mid) (hs : ReversedAll lo es mid db') :
      ReversedAll lo (e.id :: es) db db'

theorem ReversedAll.mono {lo lo' : ℕ} {es : List ℕ} {db db' : DB} (h : ReversedAll lo es db db') (hlo : lo' ≤ lo) :
    ReversedAll lo' es db db' := by
  induction h with
  | nil db => exact .nil db
  | cons h hpost _ ih => exact .cons (h.mono hlo) hpost ih

/-- Reversals leave everything but the journal and the periods. -/
theorem ReversedAll.eq {lo : ℕ} {es : List ℕ} {db db' : DB} (h : ReversedAll lo es db db') :
    db' = { db with periods := db'.periods, entries := db'.entries, lines := db'.lines } := by
  induction h with
  | nil db => rfl
  | cons h _ _ ih => rw [ih, h.wrote.eq]

theorem run_reverseEach {es : List ℕ} {v w : Env DB Err} {u : Unit} (h : (reverseEach es).run v = .ok (u, w))
    (hv : Fresh v.seq v.db) : ReversedAll v.seq es v.db w.db := by
  induction es generalizing v with
  | nil =>
    obtain ⟨-, rfl⟩ := Prog.run_pure_ok.1 h
    exact .nil _
  | cons e es ih =>
    obtain ⟨rev, v₁, h₁, h₂⟩ := Prog.run_bind_ok.1 h
    obtain ⟨x, r, rows, rfl, -, hr, hpost⟩ := run_reverseEntry h₁ hv
    exact .cons hr hpost ((ih h₂ ((allFresh_reverseEntry _).run h₁ hv)).mono (Prog.run_seq_le h₁))

/-- The exchange-difference entries of a payment's applications. -/
def DB.fxEntries (db : DB) (side : Side) (id : ℕ) : List ℕ :=
  (db.applications.rows.filter (ownApplication side id)).filterMap (·.fxJournalEntryId)

theorem run_unpostPayment {side : Side} {id rev : ℕ} {v w : Env DB Err}
    (h : (unpostPayment side id).run v = .ok (rev, w)) (hv : Fresh v.seq v.db) :
    ∃ p je mid, v.db.paymentOf side id = some p ∧ p.status = .posted ∧ p.journalEntryId = some je ∧
      ReversedAll v.seq (je :: v.db.fxEntries side id) v.db mid ∧
      w.db = { mid with
        applications := v.db.applications.erase (v.db.applications.keysWhere (ownApplication side id))
        payments := v.db.payments.update [id] Payment.unposted fun _ => rfl } := by
  obtain ⟨je, v₁, h₁, h⟩ := Prog.run_bind_ok.1 h
  obtain ⟨hf, rfl⟩ := run_postedEntryOf h₁
  obtain ⟨p, hp, hs⟩ := Option.map_eq_some_iff.1 hf
  obtain ⟨rev', v₂, h₂, h⟩ := Prog.run_bind_ok.1 h
  obtain ⟨u₃, v₃, h₃, h⟩ := Prog.run_bind_ok.1 h
  obtain ⟨u₄, v₄, h₄, h⟩ := Prog.run_bind_ok.1 h
  obtain ⟨u₅, v₅, h₅, h⟩ := Prog.run_bind_ok.1 h
  obtain ⟨rfl, rfl⟩ := Prog.run_pure_ok.1 h
  simp only [Prod.mk.injEq] at hs
  obtain ⟨e, r, rows, rfl, -, hr, hpost⟩ := run_reverseEntry h₂ hv.tick
  have hv₂ := (allFresh_reverseEntry _).run h₂ hv.tick
  rw [reverseApplicationFX, Prog.run_read_bind_ok] at h₃
  have hall := run_reverseEach h₃ hv₂.tick
  have happs₂ : v₂.db.applications = v.db.applications := by rw [hr.wrote.eq, Env.tick_db]
  rw [Env.tick_db, happs₂] at hall
  have hle : v.seq ≤ v₂.tick.seq := (Env.le_tick_seq v).trans ((Prog.run_seq_le h₂).trans (Env.le_tick_seq _))
  have hrev : ReversedAll v.seq (e.id :: v.db.fxEntries side id) v.db v₃.db :=
    .cons (hr.mono (Env.le_tick_seq v)) hpost (hall.mono hle)
  refine ⟨p, e.id, v₃.db, hp, hs.1, hs.2, hrev, ?_⟩
  obtain ⟨o, ho, -, rfl⟩ := Prog.run_exec_ok.1 h₄
  cases ho
  obtain ⟨hfp, hside⟩ := paymentOf_eq_some.1 hp
  have hdb := hrev.eq
  rw [(run_updatePaymentById h₅).1]
  simp only [Env.after_db]
  have hps : v₃.db.payments = v.db.payments := by rw [hdb]
  have happs : v₃.db.applications = v.db.applications := by rw [hdb]
  rw [hps, happs, Table.hit_of_find? hfp (by simpa using hside)]

theorem run_unpostMovement {id rev : ℕ} {v w : Env DB Err} (h : (UnpostStockMovement id).run v = .ok (rev, w))
    (hv : Fresh v.seq v.db) :
    ∃ m e r rows mid, v.db.movements.find? id = some m ∧ m.journalEntryId = some e.id ∧
      Reversed v.seq v.db mid e r rows ∧
      w.db = { mid with movements := v.db.movements.update [id] StockMovement.unlinked fun _ => rfl } ∧
      v.db.Posted r.entryDate mid := by
  simp only [UnpostStockMovement, Prog.run_query_bind_ok] at h
  obtain ⟨je, hf, h⟩ := h
  split at hf
  · cases hf
  · rename_i m hm
    split at hf
    · cases hf
    · rename_i hje
      cases hf
      obtain ⟨rev', v₁, h₁, h⟩ := Prog.run_bind_ok.1 h
      obtain ⟨u₂, v₂, h₂, h⟩ := Prog.run_bind_ok.1 h
      obtain ⟨rfl, rfl⟩ := Prog.run_pure_ok.1 h
      obtain ⟨e, r, rows, rfl, -, hr, hpost⟩ := run_reverseEntry h₁ hv.tick
      have hms : v₁.db.movements = v.db.movements := by rw [hr.wrote.eq, Env.tick_db]
      refine ⟨m, e, r, rows, v₁.db, hm, hje, hr.mono (Env.le_tick_seq v), ?_, hpost⟩
      rw [(run_updateMovementById h₂ (hms ▸ hm)).1, hms]
