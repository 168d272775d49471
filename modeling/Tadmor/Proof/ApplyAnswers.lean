import Tadmor.Proof.Balances
import Tadmor.Proof.Greedy
import Tadmor.Proof.Unposting

/-!
# When an auto-apply succeeds

The walk over the open documents keeps within what is left of the settler and of each document, so the constraints of
its applications hold, but for one: a settler may have an application to a document already.  Once the applications are
inserted, the entries of the exchange differences decide.
-/

variable {db : DB} {side : Side} {settler : SettlerKind} {id n : ℕ} {x : Settler} {v w : Env DB Err}

/-! ### The open documents of a walk -/

theorem mem_openDocs {y : ℕ × ℤ} :
    y ∈ db.openDocs side x ↔ ∃ d, db.OpenFor side x d ∧ y = (d.id, db.available d) := by
  simp only [DB.openDocs, List.mem_map, (List.perm_insertionSort _ _).mem_iff, List.mem_filter, Bool.and_eq_true,
    decide_eq_true_eq, Table.mem_rows]
  constructor
  · rintro ⟨d, ⟨hm, ⟨⟨⟨hk, hp⟩, hc⟩, hs⟩, ha⟩, rfl⟩
    exact ⟨d, ⟨hm, hk, hp, hc, hs, ha⟩, rfl⟩
  · rintro ⟨d, ⟨hm, hk, hp, hc, hs, ha⟩, rfl⟩
    exact ⟨d, ⟨hm, ⟨⟨⟨hk, hp⟩, hc⟩, hs⟩, ha⟩, rfl⟩

theorem nodup_openDocs (db : DB) (side : Side) (x : Settler) : ((db.openDocs side x).map Prod.fst).Nodup := by
  rw [DB.openDocs, List.map_map]
  exact ((List.perm_insertionSort _ _).map _).nodup_iff.2 (db.docs.nodup.sublist (List.filter_sublist.map _))

theorem allocation_eq (hx : db.settlerOf side settler id = some x) :
    db.allocation side settler id = allocate (db.remaining settler id x) (db.openDocs side x) := by
  rw [DB.allocation, hx]

/-- A share is of an open document and at most what is available on it. -/
theorem exists_of_mem_allocation (hx : db.settlerOf side settler id = some x) {y : ℕ × ℤ}
    (hy : y ∈ db.allocation side settler id) : ∃ d, db.OpenFor side x d ∧ d.id = y.1 ∧ 0 < y.2 ∧ y.2 ≤ db.available d := by
  rw [allocation_eq hx] at hy
  obtain ⟨a, ha, hle⟩ := exists_of_mem_allocate hy
  obtain ⟨d, hd, he⟩ := mem_openDocs.1 ha
  obtain ⟨hid, rfl⟩ := Prod.mk.inj he
  exact ⟨d, hd, hid.symm, pos_of_mem_allocate hy, hle⟩

/-! ### The constraints of the applications -/

theorem isSql_of_applicationRow {a : Application} {e : Err} (h : a.check db = .error e) : e.IsSql := by
  refine isSql_of_bind h isSql_of_ensure fun _ h => ?_
  refine isSql_of_bind h isSql_of_ensure fun _ h => ?_
  refine isSql_of_bind h isSql_of_ensure fun _ h => ?_
  exact isSql_of_bind h isSql_of_ensure fun _ => isSql_of_ensure

theorem isSql_of_checkApplications {rows : List Application} {e : Err} (h : checkApplications db rows = .error e) :
    e.IsSql := by
  induction rows with
  | nil => cases h
  | cons a rows ih => exact isSql_of_bind h isSql_of_applicationRow fun _ => ih

/-- A row of the walk passes the constraints unless the settler has an application to the document. -/
theorem check_allocated (h : SettledOk db) (hrows : db.RowsOk) (hx : db.settlerOf side settler id = some x)
    (hp : x.status = .posted) {a : Application}
    (ha : a ∈ applicationRows side settler id n (db.allocation side settler id)) :
    a.check db = .ok () ↔ ∀ b ∈ db.applications, ¬(b.OfSettler side settler id ∧ b.docId = a.docId) := by
  obtain ⟨rfl, rfl, rfl, -, hmem⟩ := mem_applicationRows ha
  obtain ⟨d, hd, hid, hpos, hle⟩ := exists_of_mem_allocation hx hmem
  have hdoc : db.docOf a.side.invoice a.docId = some d :=
    docOf_eq_some.2 ⟨(congrArg db.docs.find? hid.symm).trans (Table.find?_key hd.mem), hd.invoice⟩
  have hfits : fits a.amountApplied = true := by
    have htotal := (hrows.2.2.1 d hd.mem).2.1
    have hnonneg := h.amountSettled_nonneg d.id
    simp only [DB.available] at hle
    rw [fits, decide_eq_true_eq] at htotal ⊢
    have hpos : 0 < a.amountApplied := hpos
    have hle : a.amountApplied ≤ d.total - db.amountSettled d.id := hle
    omega
  have hpos : 0 < a.amountApplied := hpos
  simp only [Application.check, Except.bind_eq_ok_iff, ensure_eq_ok, hfits, hx, hdoc, Option.any_some, hp, hd.posted,
    decide_true, decide_eq_true hpos, exists_const, true_and, List.all_eq_true, Bool.not_eq_true', Bool.and_eq_false_iff,
    decide_eq_false_iff_not, Table.mem_rows, Application.OfSettler, not_and]
  refine forall₂_congr fun b _ => ?_
  tauto

theorem appliesAgain_eq_false : db.appliesAgain side settler id = false ↔
    ∀ y ∈ db.allocation side settler id, ∀ b ∈ db.applications, ¬(b.OfSettler side settler id ∧ b.docId = y.1) := by
  simp only [DB.appliesAgain, List.any_eq_false, List.any_eq_true, Table.mem_rows, Bool.and_eq_true, decide_eq_true_eq,
    not_exists, not_and, Application.OfSettler, and_imp]

/-- The share of every row is one of the walk. -/
theorem exists_applicationRow {y : ℕ × ℤ} {xs : List (ℕ × ℤ)} (hy : y ∈ xs) (n : ℕ) :
    ∃ a ∈ applicationRows side settler id n xs, (a.docId, a.amountApplied) = y := by
  induction xs generalizing n with
  | nil => cases hy
  | cons z xs ih =>
    rcases List.mem_cons.1 hy with rfl | hy
    · exact ⟨_, List.mem_cons_self .., rfl⟩
    · obtain ⟨a, ha, hshare⟩ := ih hy (n + 1)
      exact ⟨a, List.mem_cons_of_mem _ ha, hshare⟩

/-- The applications of a walk pass their constraints unless the settler applies again. -/
theorem checkApplications_iff (h : SettledOk db) (hrows : db.RowsOk) (hx : db.settlerOf side settler id = some x)
    (hp : x.status = .posted) (n : ℕ) :
    checkApplications db (applicationRows side settler id n (db.allocation side settler id)) = .ok () ↔
      db.appliesAgain side settler id = false := by
  rw [checkApplications_eq_ok, appliesAgain_eq_false]
  constructor
  · intro hall y hy
    obtain ⟨a, ha, hshare⟩ := exists_applicationRow hy n
    rw [← hshare]
    exact (check_allocated h hrows hx hp ha).1 (hall a ha)
  · intro hall a ha
    obtain ⟨-, -, -, -, hmem⟩ := mem_applicationRows ha
    exact (check_allocated h hrows hx hp ha).2 (hall _ hmem)

/-- The books with the applications of the walk. -/
def DB.walked (db : DB) (side : Side) (settler : SettlerKind) (id n : ℕ) : DB :=
  { db with applications :=
      db.applications.insertAll (applicationRows side settler id n (db.allocation side settler id)) }

/-- Neither the settler nor a document gets more applications than it has room for. -/
theorem applicationCheck_walked (h : SettledOk db) (hx : db.settlerOf side settler id = some x) (hp : x.status = .posted)
    (hfree : db.applications.AllFree (applicationRows side settler id n (db.allocation side settler id)))
    {a : Application} (ha : a ∈ applicationRows side settler id n (db.allocation side settler id)) :
    (db.walked side settler id n).applicationCheck a false = .ok () := by
  obtain ⟨rfl, rfl, rfl, -, hmem⟩ := mem_applicationRows ha
  obtain ⟨d, hd, hid, -, -⟩ := exists_of_mem_allocation hx hmem
  have hid : d.id = a.docId := hid
  have hdoc : db.docOf a.side.invoice a.docId = some d :=
    docOf_eq_some.2 ⟨(congrArg db.docs.find? hid.symm).trans (Table.find?_key hd.mem), hd.invoice⟩
  have hnonneg : ∀ y ∈ db.openDocs a.side x, 0 ≤ y.2 := by
    intro y hy
    obtain ⟨e, he, rfl⟩ := mem_openDocs.1 hy
    exact he.available.le
  have hset : (db.walked a.side a.settler a.settlerId n).settlerOf a.side a.settler a.settlerId = some x := hx
  refine (applicationCheck_eq_ok hset hdoc).2 ⟨⟨hd.party.symm, hd.currency.symm⟩, ?_, ?_⟩
  · have hsum := sum_allocate (h.remaining_nonneg hx hp) hnonneg
    rw [← allocation_eq hx] at hsum
    have hle : ((db.allocation a.side a.settler a.settlerId).map Prod.snd).sum ≤
        db.remaining a.settler a.settlerId x := hsum ▸ min_le_left _ _
    refine (amountApplied_insertAll hfree a.settler a.settlerId).trans_le ?_
    rw [sum_applicationRows_settler]
    rw [DB.remaining] at hle
    omega
  · have hle : (((db.allocation a.side a.settler a.settlerId).filter fun y => y.1 = a.docId).map Prod.snd).sum ≤
        db.available d := by
      rw [allocation_eq hx]
      exact sum_filter_allocate_le (nodup_openDocs db a.side x) (mem_openDocs.2 ⟨d, hd, by rw [hid]⟩) hd.available.le
    refine (amountSettled_insertAll hfree a.docId).trans_le ?_
    rw [sum_applicationRows_doc]
    rw [DB.available, hid] at hle
    omega

theorem SettledOk.walked (h : SettledOk db) (hrows : db.RowsOk) (hx : db.settlerOf side settler id = some x)
    (hp : x.status = .posted)
    (hfree : db.applications.AllFree (applicationRows side settler id n (db.allocation side settler id)))
    (hnew : db.appliesAgain side settler id = false) : SettledOk (db.walked side settler id n) :=
  h.apply hfree (checkApplications_eq_ok.1 ((checkApplications_iff h hrows hx hp n).2 hnew)) rfl rfl rfl
    fun _ ha => applicationCheck_walked h hx hp hfree ha

/-- In settled books every application passes its deferred check. -/
theorem SettledOk.applicationCheck (h : SettledOk db) {a : Application} (ha : a ∈ db.applications) :
    db.applicationCheck a false = .ok () := by
  obtain ⟨y, d, hsd⟩ := h.settles a ha
  exact (applicationCheck_eq_ok hsd.settler hsd.doc).2 ⟨⟨hsd.party, hsd.currency⟩,
    h.settler _ _ _ _ hsd.settler hsd.settlerPosted, h.doc _ _ _ hsd.doc hsd.docPosted⟩

/-- A deferred check that the books pass: that of an application. -/
def DB.Rechecked (db : DB) (c : DB → Except Err Unit) : Prop :=
  ∃ a : Application, db.applicationCheck a false = .ok () ∧ c = DB.applicationCheck a false

theorem Steady.mono {C C' : (DB → Except Err Unit) → Prop} (h : Steady C v) (hC : ∀ c, C c → C' c) : Steady C' v :=
  ⟨h.fresh, h.journal, h.ledger, h.rows, h.balanced, fun c hc => (h.checks c hc).imp_right (hC c)⟩

/-- The applications of a walk are inserted unless the settler applies again. -/
theorem wp_insertApplications {E : Err → Prop} {Q : List (ℕ × ℤ) → Env DB Err → Prop}
    (hv : Steady (fun _ => False) v) (hset : SettledOk v.db) (hx : v.db.settlerOf side settler id = some x)
    (hp : x.status = .posted)
    (hfault : v.db.appliesAgain side settler id = true → ∀ e, ¬e.Answered → E e)
    (h : ∀ n w, v.db.appliesAgain side settler id = false → w.db = v.db.walked side settler id n →
      v.db.applications.AllFree (applicationRows side settler id n (v.db.allocation side settler id)) →
      SettledOk w.db → Steady w.db.Rechecked w → Q (v.db.allocation side settler id) w) :
    (insertApplications side settler id).wp E Q v := by
  have herr : (insertApplications side settler id).wp E (fun _ _ => True) v := by
    rw [insertApplications, Prog.wp_exec]
    refine ⟨fun e he => ?_, fun _ _ => trivial⟩
    rcases Except.bind_eq_error_iff.1 he with he | ⟨-, -, he⟩
    · refine hfault ?_ e (isSql_of_checkApplications he).not_answered
      by_contra hnew
      rw [(checkApplications_iff hset hv.rows.rows hx hp _).2 (Bool.eq_false_iff.2 hnew)] at he
      cases he
    · cases he
  refine Prog.wp_iff_run.2 ⟨(Prog.wp_iff_run.1 herr).1, ?_⟩
  intro shares w hr
  obtain ⟨n, hn, rfl, hc, hdb, hch⟩ := run_insertApplications hr
  have hfree := (hv.fresh.applications.mono hn).allFree
    (map_id_applicationRows side settler id n (v.db.allocation side settler id))
  have hnew := (checkApplications_iff hset hv.rows.rows hx hp n).1 hc
  have hset' : SettledOk w.db := hdb ▸ hset.walked hv.rows.rows hx hp hfree hnew
  refine h n w hnew hdb hfree hset' ?_
  refine (hv.mono fun _ hfalse => hfalse.elim).aside (.autoApply side settler id) (allChange_insertApplications _ _ _)
    (allFresh_insertApplications _ _ _) hr (by rw [hdb]) (by rw [hdb]) fun c hm => ?_
  rw [hch, List.mem_append] at hm
  rcases hm with hm | hm
  · exact .inl hm
  · obtain ⟨a, ha, rfl⟩ := List.mem_map.1 hm
    refine .inr ⟨a, ?_, rfl⟩
    rw [hdb]
    exact applicationCheck_walked hset hx hp hfree ha

/-! ### The entry of an exchange difference -/

section postFx

variable {party fx : ℕ} {diff : ℤ} {base : String} {c : Candidate} {E : Err → Prop}
  {C : (DB → Except Err Unit) → Prop}

theorem nodup_fxPlan : ((fxPlan side party fx diff).map (·.lineNo)).Nodup := by
  simp [fxPlan, NewLine.signed]

theorem tallies_fxPlan (h : diff ≠ 0) : Tallies (fxPlan side party fx diff) := by
  have hne : diff * fxSign side ≠ 0 := by
    cases side with
    | sales => simpa [fxSign] using h
    | purchase => simpa [fxSign] using h
  have hsum : max (diff * fxSign side) 0 + max (-(diff * fxSign side)) 0 ≠ 0 := by omega
  refine ⟨?_, ?_, ?_⟩
  · simpa [fxPlan, NewLine.signed] using hsum
  · simp [fxPlan, NewLine.signed, add_comm]
  · simp [fxPlan, NewLine.signed, add_comm]

/-- The two lines have the same range. -/
theorem inRange_fxPlan (h : ∀ l ∈ fxPlan side party fx diff, l.inRange = true) :
    inRange (fxPlan side party fx diff) = true := by
  have h₁ := h _ (List.mem_cons_self ..)
  rw [inRange, List.all_eq_true.2 h, Bool.true_and, Bool.and_eq_true]
  simp only [NewLine.inRange, NewLine.signed, Bool.and_eq_true] at h₁
  obtain ⟨⟨⟨hd, hc⟩, -⟩, -⟩ := h₁
  generalize hv : diff * fxSign side = value at hd hc
  have hsum : fits (max value 0 + max (-value) 0) = true := by
    rcases le_total value 0 with hle | hle
    · rwa [max_eq_right hle, zero_add]
    · rwa [max_eq_right (neg_nonpos.2 hle), add_zero]
  simp only [fxPlan, NewLine.signed, hv, List.map_cons, List.map_nil, List.sum_cons, List.sum_nil, add_zero]
  exact ⟨hsum, hsum⟩

theorem accepts_fxPlan : db.accepts (fxPlan side party fx diff) = true ↔
    ∀ l ∈ fxPlan side party fx diff, l.accepted db = true := by
  refine ⟨all_accepted_of_accepts, fun h => ?_⟩
  rw [DB.accepts, List.all_eq_true.2 h, inRange_fxPlan fun l hl => inRange_of_accepted (h l hl)]
  rfl

theorem allChange_linkFx {op : Op} (appId je : ℕ) : AllChange op (linkFx appId je) :=
  Prog.all_exec <| changes_of_same fun n db o ho => by
    cases ho
    exact ⟨rfl, rfl, rfl, rfl, rfl, rfl, rfl, fun h => h, fun h => h⟩

theorem allFresh_linkFx (appId je : ℕ) : AllFresh (linkFx appId je) :=
  Prog.all_exec fun n db o h ho => by
    cases ho
    exact { h with applications := h.applications.update _ (by intro _; rfl) }

/-- The link is written, and the application is checked again. -/
theorem wp_linkFx {a : Application} {je : ℕ} (hv : Steady C v) (ha : v.db.applications.find? c.appId = some a)
    (hC : C (DB.applicationCheck a false)) : (linkFx c.appId je).wp E (fun _ w => Steady C w) v := by
  have hany : (linkFx c.appId je).wp E (fun _ _ => True) v := by
    rw [linkFx, Prog.wp_exec]
    refine ⟨fun e he => ?_, fun _ _ => trivial⟩
    cases he
  refine hany.mono fun u w hr _ => ?_
  have hdb := run_linkFx hr ha
  obtain ⟨o, ho, -, rfl⟩ := Prog.run_exec_ok.1 hr
  cases ho
  refine hv.aside (.autoApply .sales .payment 0) (allChange_linkFx _ _) (allFresh_linkFx _ _) hr (by rw [hdb])
    (by rw [hdb]) fun c hm => ?_
  rcases List.mem_append.1 hm with hm | hm
  · exact .inl hm
  · simp only [ha, Option.toList_some, List.map_cons, List.map_nil, List.mem_singleton] at hm
    exact .inr (hm ▸ hC)

theorem rateFor_base (db : DB) (date : Date) : db.rateFor db.settings.baseCurrency date = some (10 ^ 8) := by
  rw [DB.rateFor, if_pos rfl]

/-- The entry of an exchange difference leaves an open period of its date. -/
theorem openPeriod_of_run_postFx {u : Unit} {a : Application} (h : (postFx side base party fx c).run v = .ok (u, w))
    (hv : Fresh v.seq v.db) (ha : v.db.applications.find? c.appId = some a) :
    (w.db.openPeriod c.date).isSome = true := by
  obtain ⟨period, v₁, h₁, h⟩ := Prog.run_bind_ok.1 h
  obtain ⟨je, v₂, h₂, h⟩ := Prog.run_bind_ok.1 h
  obtain ⟨u₃, v₃, h₃, h⟩ := Prog.run_bind_ok.1 h
  obtain ⟨u₄, v₄, h₄, h⟩ := Prog.run_bind_ok.1 h
  obtain ⟨hp, -, p, hopen, -⟩ := run_periodForDate h₁
  obtain ⟨rate, rows₁, rows₂, -, -, -, -, -, -, -, hw, hps⟩ := run_entry ((allFresh_periodForDate _).run h₁ hv) h₂ h₃ h₄
  have happs : v₄.db.applications = v.db.applications := by rw [hw.eq, hp.eq]
  have hsame : w.db.openPeriod c.date = v₁.db.openPeriod c.date := by
    rw [run_linkFx h (happs ▸ ha)]
    unfold DB.openPeriod
    rw [hps]
  rw [hsame, hopen]
  rfl

/-- The entry is refused without a period for its date, and fails if its lines are not accepted. -/
theorem wp_postFx {a : Application} {Q : Unit → Env DB Err → Prop} (hv : Steady C v)
    (hbase : v.db.settings.baseCurrency = base) (ha : v.db.applications.find? c.appId = some a)
    (hC : C (DB.applicationCheck a false)) (hdiff : c.diff ≠ 0)
    (hrefuse : v.db.canPost c.date = false → ∀ e, e.Answered → E e)
    (hfault : v.db.canPost c.date = true → v.db.accepts (fxPlan side party fx c.diff) = false → ∀ e, ¬e.Answered → E e)
    (h : ∀ w, v.db.canPost c.date = true → v.db.accepts (fxPlan side party fx c.diff) = true →
      (postFx side base party fx c).run v = .ok ((), w) → Steady C w → Q () w) :
    (postFx side base party fx c).wp E Q v := by
  have hrun : (postFx side base party fx c).wp E (fun _ w => v.db.canPost c.date = true ∧
      v.db.accepts (fxPlan side party fx c.diff) = true ∧ Steady C w) v := by
    rw [postFx, Prog.wp_bind]
    refine wp_periodForDate hv hrefuse fun period v₁ hcan hp hv₁ hopen => ?_
    have hbase₁ : v₁.db.settings.baseCurrency = base := by
      rw [hp.eq]
      exact hbase
    have happs : v₁.db.applications = v.db.applications := by rw [hp.eq]
    rw [Prog.wp_bind]
    refine wp_createEntry hv₁ hopen (hbase₁ ▸ hv₁.rows.rows.2.1) (fun rate n v₂ hrate hpos hw hdb => ?_) fun hnone => ?_
    · refine wp_insertTwice (e := entryOf n c.date period base rate (fxMemo side ++ c.number) c.number) hw rfl
        (fun _ _ _ _ => rfl) nodup_fxPlan (fun hno e he => hfault hcan (Bool.eq_false_iff.2 fun hok => hno ?_) e he)
        fun hacc rows v₃ hr hw₃ => ?_
      · exact fun l hl => (accepted_congr hp.accounts l).trans (accepts_fxPlan.1 hok l hl)
      · have hacc : ∀ l ∈ fxPlan side party fx c.diff, l.accepted v₁.db = true := hacc
        have hsteady : Steady C v₃ := hw₃.steady ((hw₃.wrote.journaled rfl).ok hv₁.journal) hr
          (inRange_fxPlan fun l hl => inRange_of_accepted (hacc l hl)) (tallies_fxPlan hdiff)
        have ha₃ : v₃.db.applications.find? c.appId = some a := by
          rw [hw₃.wrote.eq]
          exact happs ▸ ha
        refine (wp_linkFx hsteady ha₃ hC).mono fun u w _ hw => ⟨hcan, ?_, hw⟩
        exact accepts_fxPlan.2 fun l hl => (accepted_congr hp.accounts l).symm.trans (hacc l hl)
    · rw [← hbase₁, rateFor_base] at hnone
      cases hnone
  exact hrun.mono fun u w hr hq => h w hq.1 hq.2.1 hr hq.2.2

/-- The entries are posted one after another. -/
theorem wp_postEach {date : Date} {cs : List (ℕ × Candidate)} {Q : Unit → Env DB Err → Prop} (hv : Steady C v)
    (hbase : v.db.settings.baseCurrency = base) (hn : (cs.map (·.2.appId)).Nodup)
    (hdate : ∀ x ∈ cs, x.2.date = date ∧ x.2.diff ≠ 0)
    (happ : ∀ x ∈ cs, ∃ a, v.db.applications.find? x.2.appId = some a ∧ C (DB.applicationCheck a false))
    (hrefuse : cs ≠ [] → v.db.canPost date = false → ∀ e, e.Answered → E e)
    (hfault : v.db.canPost date = true → (∃ x ∈ cs, v.db.accepts (fxPlan side x.1 fx x.2.diff) = false) →
      ∀ e, ¬e.Answered → E e)
    (h : ∀ w, (cs ≠ [] → v.db.canPost date = true) → (∀ x ∈ cs, v.db.accepts (fxPlan side x.1 fx x.2.diff) = true) →
      (postEach side base fx cs).run v = .ok ((), w) → Steady C w → Q () w) :
    (postEach side base fx cs).wp E Q v := by
  have hrun : (postEach side base fx cs).wp E (fun _ w => (cs ≠ [] → v.db.canPost date = true) ∧
      (∀ x ∈ cs, v.db.accepts (fxPlan side x.1 fx x.2.diff) = true) ∧ Steady C w) v := by
    clear h
    induction cs generalizing v with
    | nil => exact ⟨fun hne => absurd rfl hne, fun x hx => absurd hx List.not_mem_nil, hv⟩
    | cons y cs ih =>
      rw [List.map_cons, List.nodup_cons] at hn
      obtain ⟨hydate, hydiff⟩ := hdate y (List.mem_cons_self ..)
      obtain ⟨a, ha, hC⟩ := happ y (List.mem_cons_self ..)
      rw [postEach, Prog.wp_bind]
      refine wp_postFx hv hbase ha hC hydiff (fun hno => hrefuse (List.cons_ne_nil _ _) (hydate ▸ hno))
        (fun hcan hno => hfault (hydate ▸ hcan) ⟨y, List.mem_cons_self .., hno⟩) fun v₁ hcan hacc hr hv₁ => ?_
      have hcan₁ : v₁.db.canPost date = true :=
        hydate ▸ canPost_of_openPeriod (openPeriod_of_run_postFx hr hv.fresh ha)
      obtain ⟨e, rows, mid, hw, -, -, -, hdb⟩ := run_postFx hr hv.fresh ha
      have haccounts : v₁.db.accounts = v.db.accounts := by rw [hdb, hw.eq]
      have haccepts : ∀ ls, v₁.db.accepts ls = v.db.accepts ls := accepts_congr haccounts
      have hrest := ih hv₁ (by rw [hdb, hw.eq]; exact hbase) hn.2 (fun x hx => hdate x (List.mem_cons_of_mem _ hx))
        (fun x hx => ?_) (fun _ hno => by rw [hcan₁] at hno; cases hno) fun _ hno e he => ?_
      · refine hrest.mono fun u w _ hq => ⟨fun _ => hydate ▸ hcan, fun x hx => ?_, hq.2.2⟩
        rcases List.mem_cons.1 hx with rfl | hx
        · exact hacc
        · exact (haccepts _).symm.trans (hq.2.1 x hx)
      · obtain ⟨b, hb, hCb⟩ := happ x (List.mem_cons_of_mem _ hx)
        have hne : x.2.appId ∉ [y.2.appId] := fun hm =>
          hn.1 (List.mem_singleton.1 hm ▸ List.mem_map_of_mem (f := (·.2.appId)) hx)
        refine ⟨b, ?_, hCb⟩
        rw [hdb]
        exact (Table.find?_update_of_notMem (f := (·.withFx e.id)) (fun _ => rfl) hne).trans hb
      · obtain ⟨x, hx, hno⟩ := hno
        exact hfault (hydate ▸ hcan) ⟨x, List.mem_cons_of_mem _ hx, (haccepts _).symm.trans hno⟩ e he
  exact hrun.mono fun u w hr hq => h w hq.1 hq.2.1 hr hq.2.2

end postFx

/-! ### The candidates after the walk -/

/-- What a candidate is: it has the account of the party and the date of the settler. -/
theorem of_candidate {a : Application} {c : Candidate} (hx : db.settlerOf a.side a.settler a.settlerId = some x)
    (h : db.candidate a = some c) : c.partyAccount = db.controlOf a.side x ∧ c.date = x.date ∧ c.diff ≠ 0 := by
  simp only [DB.candidate, hx, Option.bind_some, Option.bind_eq_some_iff] at h
  obtain ⟨p, hp, d, -, diff, -, h⟩ := h
  split at h
  · cases h
  · rename_i hne
    obtain rfl := Option.some.inj h
    rw [DB.controlOf, hp]
    exact ⟨rfl, rfl, hne⟩

theorem of_mem_candidates {c : Candidate} (hx : db.settlerOf side settler id = some x)
    (h : c ∈ db.candidates side settler id) : c.partyAccount = db.controlOf side x ∧ c.date = x.date ∧ c.diff ≠ 0 := by
  obtain ⟨a, -, ⟨rfl, rfl, rfl⟩, -, hc⟩ := mem_candidates.1 h
  exact of_candidate hx hc

theorem scanCandidates_of_account {cs : List Candidate} {account : ℕ} (h : ∀ c ∈ cs, c.partyAccount = some account) :
    scanCandidates cs = .ok (cs.map fun c => (account, c)) := by
  induction cs with
  | nil => rfl
  | cons c cs ih =>
    rw [scanCandidates, h c (List.mem_cons_self ..)]
    dsimp only
    rw [ih fun x hx => h x (List.mem_cons_of_mem _ hx)]
    rfl

theorem scanCandidates_of_none {c : Candidate} {cs : List Candidate} (h : c.partyAccount = none) :
    scanCandidates (c :: cs) = .error (.scan "party account") := by
  rw [scanCandidates, h]

theorem diffs_applicationRows (n m : ℕ) (xs : List (ℕ × ℤ)) :
    (applicationRows side settler id n xs).filterMap (fun a => (db.candidate a).map (·.diff)) =
      (applicationRows side settler id m xs).filterMap fun a => (db.candidate a).map (·.diff) := by
  induction xs generalizing n m with
  | nil => rfl
  | cons y xs ih =>
    have hsame : ∀ k k' : ℕ, (db.candidate ⟨k, side, settler, id, y.1, y.2, none⟩).map (·.diff) =
        (db.candidate ⟨k', side, settler, id, y.1, y.2, none⟩).map (·.diff) := by
      intro k k'
      simp only [DB.candidate, Option.map_bind, Function.comp_def, apply_ite (Option.map Candidate.diff), Option.map_some,
        Option.map_none]
    rw [applicationRows, applicationRows, List.filterMap_cons, List.filterMap_cons, hsame n m, ih (n + 1) (m + 1)]

/-- The differences of the candidates once the applications are inserted. -/
theorem diffs_walked
    (hfree : db.applications.AllFree (applicationRows side settler id n (db.allocation side settler id))) :
    ((db.walked side settler id n).candidates side settler id).map (·.diff) = db.fxDiffs side settler id := by
  have hall : ∀ m, (applicationRows side settler id m (db.allocation side settler id)).filter (fun a => a.side = side &&
      a.settler = settler && a.settlerId = id && a.fxJournalEntryId = none) =
        applicationRows side settler id m (db.allocation side settler id) := by
    intro m
    refine List.filter_eq_self.2 fun a ha => ?_
    obtain ⟨h₁, h₂, h₃, h₄, -⟩ := mem_applicationRows ha
    simp [h₁, h₂, h₃, h₄]
  rw [DB.candidates, DB.fxDiffs, List.map_filterMap, DB.walked, Table.rows_insertAll hfree, List.filter_append,
    List.filter_append, List.filterMap_append, List.filterMap_append, hall n, hall 0]
  exact congrArg _ (diffs_applicationRows n 0 _)

/-! ### The answer -/

/-- A check of an auto-apply refuses it: the settler is not posted, or an exchange difference cannot be posted for lack of
its account or of a period. -/
def DB.applyRefused (db : DB) (side : Side) (settler : SettlerKind) (id : ℕ) : Prop :=
  db.applying side settler id = none ∨ ∃ x, db.applying side settler id = some x ∧
    db.appliesAgain side settler id = false ∧ db.fxDiffs side settler id ≠ [] ∧ db.controlOf side x ≠ none ∧
      (db.settings.fxGainLossAccountId = none ∨ db.canPost x.date = false)

def DB.applySound (db : DB) (side : Side) (settler : SettlerKind) (id : ℕ) : Prop :=
  (∀ ls ∈ (Op.autoApply side settler id).attempts db, db.accepts ls = true) ∧ db.applyRaises side settler id = false

section

variable (h : db.applying side settler id = some x)
include h

theorem applyRefused_iff : db.applyRefused side settler id ↔ db.appliesAgain side settler id = false ∧
    db.fxDiffs side settler id ≠ [] ∧ db.controlOf side x ≠ none ∧
      (db.settings.fxGainLossAccountId = none ∨ db.canPost x.date = false) := by
  constructor
  · rintro (hno | ⟨y, hy, hrefused⟩)
    · rw [h] at hno
      cases hno
    · obtain rfl := Option.some.inj (h.symm.trans hy)
      exact hrefused
  · intro hrefused
    exact .inr ⟨x, h, hrefused⟩

theorem applySound_iff : db.applySound side settler id ↔ db.appliesAgain side settler id = false ∧
    (db.fxDiffs side settler id ≠ [] → db.controlOf side x ≠ none) ∧
      ∀ party fx, db.controlOf side x = some party → db.settings.fxGainLossAccountId = some fx →
        db.canPost x.date = true → ∀ diff ∈ db.fxDiffs side settler id, db.accepts (fxPlan side party fx diff) = true := by
  have hraises : db.applyRaises side settler id = (db.appliesAgain side settler id ||
      db.fxDiffs side settler id ≠ [] && (db.controlOf side x).isNone) := by
    rw [DB.applyRaises, h, Option.any_some]
  have hattempts : ∀ ls, ls ∈ (Op.autoApply side settler id).attempts db ↔ ∃ party fx, db.controlOf side x = some party ∧
      db.settings.fxGainLossAccountId = some fx ∧ db.canPost x.date = true ∧
        ∃ diff ∈ db.fxDiffs side settler id, fxPlan side party fx diff = ls := by
    intro ls
    show ls ∈ fxAttempts db side settler id ↔ _
    rw [fxAttempts, h, Option.bind_some]
    cases db.canPost x.date with
    | false => simp
    | true =>
      cases db.controlOf side x with
      | none => simp
      | some party =>
        cases db.settings.fxGainLossAccountId with
        | none => simp
        | some fx => simp
  rw [DB.applySound, hraises, Bool.or_eq_false_iff, and_left_comm]
  refine and_congr_right fun _ => ?_
  rw [and_comm]
  refine and_congr ?_ ?_
  · rw [Bool.and_eq_false_iff, decide_eq_false_iff_not, not_not, Option.isNone_eq_false_iff, Option.isSome_iff_ne_none]
    tauto
  · constructor
    · intro hall party fx hparty hfx hcan diff hdiff
      exact hall _ ((hattempts _).2 ⟨party, fx, hparty, hfx, hcan, diff, hdiff, rfl⟩)
    · intro hall ls hls
      obtain ⟨party, fx, hparty, hfx, hcan, diff, hdiff, rfl⟩ := (hattempts ls).1 hls
      exact hall party fx hparty hfx hcan diff hdiff

end

section answer

variable {E : Err → Prop} {C : (DB → Except Err Unit) → Prop}

/-- The entries of the exchange differences: what refuses them, and what fails. -/
theorem wp_postSettlementFX {Q : Unit → Env DB Err → Prop} (hv : Steady C v)
    (hx : v.db.settlerOf side settler id = some x) (hC : ∀ a ∈ v.db.applications, C (DB.applicationCheck a false))
    {diffs : List ℤ} (hdiffs : (v.db.candidates side settler id).map (·.diff) = diffs)
    (hrefuse : diffs ≠ [] → v.db.controlOf side x ≠ none →
      (v.db.settings.fxGainLossAccountId = none ∨ v.db.canPost x.date = false) → ∀ e, e.Answered → E e)
    (hscan : diffs ≠ [] → v.db.controlOf side x = none → ∀ e, ¬e.Answered → E e)
    (hfault : ∀ party fx, diffs ≠ [] → v.db.controlOf side x = some party → v.db.settings.fxGainLossAccountId = some fx →
      v.db.canPost x.date = true → (∃ diff ∈ diffs, v.db.accepts (fxPlan side party fx diff) = false) →
        ∀ e, ¬e.Answered → E e)
    (h : ∀ w, (diffs = [] ∨ ∃ party fx, v.db.controlOf side x = some party ∧ v.db.settings.fxGainLossAccountId = some fx ∧
        v.db.canPost x.date = true ∧ ∀ diff ∈ diffs, v.db.accepts (fxPlan side party fx diff) = true) →
      (postSettlementFX side settler id).run v = .ok ((), w) → Steady C w → Q () w) :
    (postSettlementFX side settler id).wp E Q v := by
  have hrun : (postSettlementFX side settler id).wp E (fun _ w => (diffs = [] ∨ ∃ party fx,
      v.db.controlOf side x = some party ∧ v.db.settings.fxGainLossAccountId = some fx ∧ v.db.canPost x.date = true ∧
        ∀ diff ∈ diffs, v.db.accepts (fxPlan side party fx diff) = true) ∧ Steady C w) v := by
    subst hdiffs
    have hof := fun c hc => of_mem_candidates (c := c) hx hc
    have hn := nodup_candidates v.db side settler id
    have happ : ∀ c ∈ v.db.candidates side settler id,
        ∃ a, v.db.applications.find? c.appId = some a ∧ C (DB.applicationCheck a false) := by
      intro c hc
      obtain ⟨a, ha, -⟩ := unlinked_of_mem_candidates hc
      exact ⟨a, ha, hC a (Table.mem_of_find? ha)⟩
    rw [postSettlementFX, Prog.wp_query_bind]
    generalize v.db.candidates side settler id = cands at hof hn happ hrefuse hscan hfault ⊢
    cases hcontrol : v.db.controlOf side x with
    | none =>
      cases cands with
      | nil =>
        refine ⟨fun e he => (by cases he), fun cs hcs => ?_⟩
        obtain rfl := Except.ok.inj hcs
        exact ⟨.inl rfl, hv.tick⟩
      | cons c cands =>
        rw [scanCandidates_of_none ((hof c (List.mem_cons_self ..)).1.trans hcontrol)]
        refine ⟨fun e he => ?_, fun cs hcs => by cases hcs⟩
        obtain rfl := Except.error.inj he
        refine hscan (List.cons_ne_nil _ _) hcontrol _ ?_
        show ¬(500 = 404 ∨ 500 = 409 ∨ 500 = 422)
        decide
    | some party =>
      rw [scanCandidates_of_account fun c hc => (hof c hc).1.trans hcontrol]
      refine ⟨fun e he => (by cases he), fun cs hcs => ?_⟩
      obtain rfl := Except.ok.inj hcs
      split
      · rename_i hnil
        exact ⟨.inl (by rw [List.map_eq_nil_iff] at hnil ⊢; exact hnil), hv.tick⟩
      · rename_i hne
        have hne : cands ≠ [] := fun hnil => hne (by rw [hnil]; rfl)
        have hne' : cands.map (·.diff) ≠ [] := fun hnil => hne (List.map_eq_nil_iff.1 hnil)
        have hsome : v.db.controlOf side x ≠ none := hcontrol ▸ Option.some_ne_none party
        rw [Prog.wp_read_bind]
        cases hfx : v.db.settings.fxGainLossAccountId with
        | none =>
          have hfx' : v.tick.db.settings.fxGainLossAccountId = none := hfx
          rw [hfx']
          exact hrefuse hne' hsome (.inl hfx) _ (answered_posting _ _)
        | some fx =>
          have hfx' : v.tick.db.settings.fxGainLossAccountId = some fx := hfx
          rw [hfx']
          have hids : ((cands.map fun c => (party, c)).map (·.2.appId)) = cands.map (·.appId) := by rw [List.map_map]; rfl
          have hdate : ∀ y ∈ cands.map fun c => (party, c), y.2.date = x.date ∧ y.2.diff ≠ 0 := by
            intro y hy
            obtain ⟨c, hc, rfl⟩ := List.mem_map.1 hy
            exact (hof c hc).2
          refine wp_postEach hv.tick.tick rfl (hids ▸ hn) hdate (fun y hy => ?_)
            (fun _ hno => hrefuse hne' hsome (.inr hno)) (fun hcan hno => ?_) fun w hcan hacc _ hw => ?_
          · obtain ⟨c, hc, rfl⟩ := List.mem_map.1 hy
            exact happ c hc
          · obtain ⟨y, hy, hno⟩ := hno
            obtain ⟨c, hc, rfl⟩ := List.mem_map.1 hy
            exact hfault party fx hne' hcontrol hfx hcan ⟨c.diff, List.mem_map_of_mem hc, hno⟩
          · refine ⟨.inr ⟨party, fx, rfl, rfl, hcan fun hnil => hne (List.map_eq_nil_iff.1 hnil), fun diff hdiff => ?_⟩, hw⟩
            obtain ⟨c, hc, rfl⟩ := List.mem_map.1 hdiff
            exact hacc (party, c) (List.mem_map_of_mem hc)
  exact hrun.mono fun u w hr hq => h w hq.1 hr hq.2

/-- Deferred checks of applications pass after the entries of the exchange differences. -/
theorem Steady.passes_fxPosted {lo : ℕ} {own : JournalEntry → Application → Prop} (hw : Steady db.Rechecked w)
    (h : FxPosted lo own db w.db) : ∀ c ∈ w.checks, c w.db = .ok () := by
  refine hw.passes fun c hc => ?_
  obtain ⟨a, ha, rfl⟩ := hc
  have heq := h.eq
  have hset : w.db.settlerOf a.side a.settler a.settlerId = db.settlerOf a.side a.settler a.settlerId := by rw [heq]; rfl
  have hdoc : w.db.docOf a.side.invoice a.docId = db.docOf a.side.invoice a.docId := by rw [heq]; rfl
  rw [DB.applicationCheck, hset, hdoc, amountApplied_core h.core, amountSettled_core h.core]
  exact ha

/-- Once it has passed its own checks, an auto-apply fails only if the settler applies again, the party has no control
account for an exchange difference, or the entry of one is not accepted. -/
theorem wp_autoApply {s : Store DB} (hs : Reachable s) (gaps : ℕ → ℕ) :
    Decides (s.db.applyRefused side settler id) (s.db.applySound side settler id) (autoApply side settler id)
      ⟨gaps, s.seq, s.db, []⟩ := by
  have hv : Steady (fun _ => False) (⟨gaps, s.seq, s.db, []⟩ : Env DB Err) := hs.steady gaps
  rw [Decides, autoApply, Prog.wp_query_bind]
  cases hx : s.db.settlerOf side settler id with
  | none =>
    have hnone : s.db.applying side settler id = none := by rw [DB.applying, hx]; rfl
    refine ⟨fun e he => ?_, fun _ h => (by cases h)⟩
    cases he
    exact .refused (.inl hnone) (answered_posting _ _)
  | some x =>
    refine ⟨fun _ he => (by cases he), fun status h => ?_⟩
    obtain rfl := Except.ok.inj h
    rw [Prog.wp_require_bind]
    refine ⟨fun hf => .refused (.inl ?_) (answered_posting _ _), fun hp => ?_⟩
    · rw [DB.applying, hx, Option.filter_some, hf]
      rfl
    have happlying : s.db.applying side settler id = some x := by
      rw [DB.applying, hx, Option.filter_some, hp]
      rfl
    have hrefused := applyRefused_iff happlying
    have hsound := applySound_iff happlying
    rw [Prog.wp_bind]
    refine wp_insertApplications hv.tick hs.settledOk hx (of_decide_eq_true hp) (fun hagain e he => ?_)
      fun n w hnew hdb hfree hset hw => ?_
    · have hagain : s.db.appliesAgain side settler id = true := hagain
      exact .fault (fun h => Bool.eq_false_iff.1 (hrefused.1 h).1 hagain)
        (fun h => Bool.eq_false_iff.1 (hsound.1 h).1 hagain) he
    have hnew : s.db.appliesAgain side settler id = false := hnew
    have hdb : w.db = s.db.walked side settler id n := hdb
    have hdiffs : (w.db.candidates side settler id).map (·.diff) = s.db.fxDiffs side settler id := by
      rw [hdb]
      exact diffs_walked hfree
    rw [Prog.wp_bind]
    refine wp_postSettlementFX hw (x := x) (by rw [hdb]; exact hx) (fun a ha => ⟨a, hset.applicationCheck ha, rfl⟩) hdiffs
      ?_ ?_ ?_ fun w₂ hok hr hw₂ => ?_
    · rw [hdb]
      exact fun hne hsome hno e he => .refused (hrefused.2 ⟨hnew, hne, hsome, hno⟩) he
    · rw [hdb]
      exact fun hne hnone e he => .fault (fun h => (hrefused.1 h).2.2.1 hnone) (fun h => (hsound.1 h).2.1 hne hnone) he
    · rw [hdb]
      intro party fx hne hparty hfx hcan hno e he
      obtain ⟨diff, hdiff, hno⟩ := hno
      refine .fault (fun h => ?_) (fun h => ?_) he
      · rcases (hrefused.1 h).2.2.2 with hno | hno
        · exact Option.some_ne_none _ (hfx.symm.trans hno)
        · exact Bool.eq_false_iff.1 hno hcan
      · exact Bool.eq_false_iff.1 hno ((hsound.1 h).2.2 party fx hparty hfx hcan diff hdiff)
    · have hposted := run_postSettlementFX hr hw.fresh
      rw [Prog.wp_pure]
      rw [hdb] at hok
      refine ⟨fun h => ?_, .of_passes (hsound.2 ⟨hnew, fun hne => ?_, fun party fx hparty hfx hcan diff hdiff => ?_⟩)
        (hw₂.passes_fxPosted hposted)⟩
      · obtain ⟨-, hne, -, hno⟩ := hrefused.1 h
        rcases hok with hnil | ⟨party, fx, -, hfx, hcan, -⟩
        · exact hne hnil
        · rcases hno with hno | hno
          · exact Option.some_ne_none _ (hfx.symm.trans hno)
          · exact Bool.eq_false_iff.1 hno hcan
      · rcases hok with hnil | ⟨party, fx, hparty, -⟩
        · exact absurd hnil hne
        · exact fun hnone => Option.some_ne_none _ (hparty.symm.trans hnone)
      · rcases hok with hnil | ⟨party', fx', hparty', hfx', -, hacc⟩
        · rw [hnil] at hdiff
          cases hdiff
        · obtain rfl := Option.some.inj (hparty.symm.trans hparty')
          obtain rfl := Option.some.inj (hfx.symm.trans hfx')
          exact hacc diff hdiff

end answer
