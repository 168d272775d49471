import Tadmor.Model.Balances
import Tadmor.Proof.Journal
import Tadmor.Theory.Counting

/-!
# Settlement

An application links a posted settler with a posted document of the same party and currency, and neither is applied
beyond its amount.
-/

/-! ### Applications up to their entry -/

/-- An application without its entry. -/
def Application.core (a : Application) : Application := { a with fxJournalEntryId := none }

/-- Writing exchange-difference entries changes nothing else in the applications. -/
theorem FxPosted.core {lo : ℕ} {own : JournalEntry → Application → Prop} {db db' : DB} (h : FxPosted lo own db db') :
    db'.applications.rows.map Application.core = db.applications.rows.map Application.core := by
  induction h with
  | nil db => rfl
  | cons hw he ha hfx _ _ _ ih =>
    rw [ih]
    show ((_ : List Application).map _).map _ = _
    rw [List.map_map]
    apply List.map_congr_left
    intro b _
    simp only [Function.comp_apply]
    split
    · rfl
    · rfl

section core

variable {db db' : DB} (hcore : db'.applications.rows.map Application.core = db.applications.rows.map Application.core)
include hcore

theorem exists_core {a : Application} (ha : a ∈ db'.applications) : ∃ b ∈ db.applications, b.core = a.core := by
  have : a.core ∈ db.applications.rows.map Application.core := hcore ▸ List.mem_map_of_mem ha
  obtain ⟨b, hb, e⟩ := List.mem_map.1 this
  exact ⟨b, hb, e⟩

/-- A sum over applications that does not look at the entries. -/
theorem sum_core (p : Application → Bool) (hp : ∀ a, p a = p a.core) :
    ((db'.applications.rows.filter p).map (·.amountApplied)).sum =
      ((db.applications.rows.filter p).map (·.amountApplied)).sum := by
  have key : ∀ l : List Application, (l.filter p).map (·.amountApplied) =
      ((l.map Application.core).filter p).map (·.amountApplied) := by
    intro l
    induction l with
    | nil => rfl
    | cons a l ih =>
      rw [List.map_cons, List.filter_cons, List.filter_cons, ← hp a]
      split
      · rw [List.map_cons, List.map_cons, ih]
        rfl
      · exact ih
  rw [key db'.applications.rows, hcore, ← key]

theorem amountSettled_core (docId : ℕ) : db'.amountSettled docId = db.amountSettled docId :=
  sum_core hcore _ fun _ => rfl

theorem amountApplied_core (settler : SettlerKind) (id : ℕ) : db'.amountApplied settler id = db.amountApplied settler id :=
  sum_core hcore _ fun _ => rfl

end core

/-! ### The invariant -/

/-- The application links a posted settler and a posted document of the same party and currency. -/
structure DB.Settles (db : DB) (a : Application) (s : Settler) (d : Doc) : Prop where
  settler : db.settlerOf a.side a.settler a.settlerId = some s
  doc : db.docOf a.side.invoice a.docId = some d
  settlerPosted : s.status = .posted
  docPosted : d.status = .posted
  party : s.partyId = d.partyId
  currency : s.currencyCode = d.currencyCode

theorem DB.Settles.of_core {db : DB} {a b : Application} {s : Settler} {d : Doc} (h : db.Settles a s d)
    (e : a.core = b.core) : db.Settles b s d := by
  have h₁ : a.side = b.side := congrArg (·.side) e
  have h₂ : a.settler = b.settler := congrArg (·.settler) e
  have h₃ : a.settlerId = b.settlerId := congrArg (·.settlerId) e
  have h₄ : a.docId = b.docId := congrArg (·.docId) e
  exact ⟨h₁ ▸ h₂ ▸ h₃ ▸ h.settler, h₁ ▸ h₄ ▸ h.doc, h.settlerPosted, h.docPosted, h.party, h.currency⟩

structure SettledOk (db : DB) : Prop where
  positive : ∀ a ∈ db.applications, 0 < a.amountApplied
  settles : ∀ a ∈ db.applications, ∃ s d, db.Settles a s d
  settler : ∀ side k id s, db.settlerOf side k id = some s → s.status = .posted → db.amountApplied k id ≤ s.amount
  doc : ∀ kind id d, db.docOf kind id = some d → d.status = .posted → db.amountSettled id ≤ d.total

theorem settlerOf_payment {db : DB} {side : Side} {id : ℕ} {s : Settler} :
    db.settlerOf side .payment id = some s ↔ ∃ p, db.paymentOf side id = some p ∧ p.toSettler = s :=
  Option.map_eq_some_iff

theorem settlerOf_creditNote {db : DB} {side : Side} {id : ℕ} {s : Settler} :
    db.settlerOf side .creditNote id = some s ↔ ∃ d, db.docOf side.creditNote id = some d ∧ d.toSettler = s :=
  Option.map_eq_some_iff

theorem SettledOk.not_mem_doc {db : DB} (h : SettledOk db) {id : ℕ} (hid : ∀ d, db.docs.find? id = some d → d.status ≠ .posted)
    {a : Application} (ha : a ∈ db.applications) : a.docId ≠ id := by
  rintro rfl
  obtain ⟨s, d, hsd⟩ := h.settles a ha
  exact hid d (docOf_eq_some.1 hsd.doc).1 hsd.docPosted

theorem SettledOk.not_mem_creditNote {db : DB} (h : SettledOk db) {id : ℕ}
    (hid : ∀ d, db.docs.find? id = some d → d.status ≠ .posted) {a : Application} (ha : a ∈ db.applications)
    (hk : a.settler = .creditNote) : a.settlerId ≠ id := by
  rintro rfl
  obtain ⟨s, d, hsd⟩ := h.settles a ha
  have hs := hsd.settler
  rw [hk, settlerOf_creditNote] at hs
  obtain ⟨n, hn, rfl⟩ := hs
  exact hid n (docOf_eq_some.1 hn).1 hsd.settlerPosted

theorem SettledOk.not_mem_payment {db : DB} (h : SettledOk db) {id : ℕ}
    (hid : ∀ p, db.payments.find? id = some p → p.status ≠ .posted) {a : Application} (ha : a ∈ db.applications)
    (hk : a.settler = .payment) : a.settlerId ≠ id := by
  rintro rfl
  obtain ⟨s, d, hsd⟩ := h.settles a ha
  have hs := hsd.settler
  rw [hk, settlerOf_payment] at hs
  obtain ⟨p, hp, rfl⟩ := hs
  exact hid p (paymentOf_eq_some.1 hp).1 hsd.settlerPosted

/-! ### Lookups -/

theorem docOf_unique {db : DB} {k k' : DocKind} {id : ℕ} {d d' : Doc} (h : db.docOf k id = some d)
    (h' : db.docOf k' id = some d') : d = d' :=
  Option.some.inj ((docOf_eq_some.1 h).1.symm.trans (docOf_eq_some.1 h').1)

theorem settlerOf_unique {db : DB} {side side' : Side} {k : SettlerKind} {id : ℕ} {s s' : Settler}
    (h : db.settlerOf side k id = some s) (h' : db.settlerOf side' k id = some s') : s = s' := by
  cases k with
  | payment =>
    obtain ⟨p, hp, rfl⟩ := settlerOf_payment.1 h
    obtain ⟨p', hp', rfl⟩ := settlerOf_payment.1 h'
    rw [Option.some.inj ((paymentOf_eq_some.1 hp).1.symm.trans (paymentOf_eq_some.1 hp').1)]
  | creditNote =>
    obtain ⟨d, hd, rfl⟩ := settlerOf_creditNote.1 h
    obtain ⟨d', hd', rfl⟩ := settlerOf_creditNote.1 h'
    rw [docOf_unique hd hd']

theorem docOf_congr {db db' : DB} {kind : DocKind} {id : ℕ} (h : db'.docs.find? id = db.docs.find? id) :
    db'.docOf kind id = db.docOf kind id := by
  rw [DB.docOf, h]
  rfl

theorem paymentOf_congr {db db' : DB} {side : Side} {id : ℕ} (h : db'.payments.find? id = db.payments.find? id) :
    db'.paymentOf side id = db.paymentOf side id := by
  rw [DB.paymentOf, h]
  rfl

theorem settlerOf_congr_payment {db db' : DB} {side : Side} {id : ℕ}
    (h : db'.payments.find? id = db.payments.find? id) :
    db'.settlerOf side .payment id = db.settlerOf side .payment id := by
  rw [DB.settlerOf, paymentOf_congr h]
  rfl

theorem settlerOf_congr_creditNote {db db' : DB} {side : Side} {id : ℕ} (h : db'.docs.find? id = db.docs.find? id) :
    db'.settlerOf side .creditNote id = db.settlerOf side .creditNote id := by
  rw [DB.settlerOf, docOf_congr h]
  rfl

/-! ### Preservation -/

section frame

variable {db db' : DB}

/-- The books of settlement move from `db` to `db'`: applications keep their two ends, and whoever is newly posted has
none. -/
structure SettlementFrame (db db' : DB) : Prop where
  core : db'.applications.rows.map Application.core = db.applications.rows.map Application.core
  settlers : ∀ a ∈ db.applications,
    db'.settlerOf a.side a.settler a.settlerId = db.settlerOf a.side a.settler a.settlerId
  docs : ∀ a ∈ db.applications, db'.docOf a.side.invoice a.docId = db.docOf a.side.invoice a.docId
  newSettler : ∀ side k id s, db'.settlerOf side k id = some s → s.status = .posted →
    db.settlerOf side k id = some s ∨ 0 ≤ s.amount ∧ ∀ a ∈ db.applications, a.settler = k → a.settlerId ≠ id
  newDoc : ∀ kind id d, db'.docOf kind id = some d → d.status = .posted →
    db.docOf kind id = some d ∨ 0 ≤ d.total ∧ ∀ a ∈ db.applications, a.docId ≠ id

theorem SettlementFrame.of_same (hd : db'.docs = db.docs) (hp : db'.payments = db.payments)
    (hc : db'.applications.rows.map Application.core = db.applications.rows.map Application.core) :
    SettlementFrame db db' := by
  have hdoc : ∀ kind id, db'.docOf kind id = db.docOf kind id := fun kind id => docOf_congr (by rw [hd])
  have hset : ∀ side k id, db'.settlerOf side k id = db.settlerOf side k id := by
    intro side k id
    cases k with
    | payment => exact settlerOf_congr_payment (by rw [hp])
    | creditNote => exact settlerOf_congr_creditNote (by rw [hd])
  exact ⟨hc, fun a _ => hset _ _ _, fun a _ => hdoc _ _, fun side k id s h _ => .inl (hset side k id ▸ h),
    fun kind id d h _ => .inl (hdoc kind id ▸ h)⟩

/-- Only the document `id` changes, and it has no applications. -/
theorem SettlementFrame.of_doc (id : ℕ) (hp : db'.payments = db.payments)
    (hc : db'.applications.rows.map Application.core = db.applications.rows.map Application.core)
    (others : ∀ k, k ≠ id → db'.docs.find? k = db.docs.find? k)
    (new : ∀ d, db'.docs.find? id = some d → d.status = .posted → 0 ≤ d.total)
    (hdoc : ∀ a ∈ db.applications, a.docId ≠ id)
    (hnote : ∀ a ∈ db.applications, a.settler = .creditNote → a.settlerId ≠ id) : SettlementFrame db db' := by
  refine ⟨hc, fun a ha => ?_, fun a ha => docOf_congr (others _ (hdoc a ha)), fun side k i s h hs => ?_,
    fun kind i d h hs => ?_⟩
  · cases hk : a.settler with
    | payment => exact settlerOf_congr_payment (by rw [hp])
    | creditNote => exact settlerOf_congr_creditNote (others _ (hnote a ha hk))
  · cases k with
    | payment => exact .inl ((settlerOf_congr_payment (by rw [hp])).symm.trans h)
    | creditNote =>
      by_cases hi : i = id
      · subst hi
        obtain ⟨d, hd, rfl⟩ := settlerOf_creditNote.1 h
        exact .inr ⟨new d (docOf_eq_some.1 hd).1 hs, hnote⟩
      · exact .inl ((settlerOf_congr_creditNote (others i hi)).symm.trans h)
  · by_cases hi : i = id
    · subst hi
      exact .inr ⟨new d (docOf_eq_some.1 h).1 hs, hdoc⟩
    · exact .inl ((docOf_congr (others i hi)).symm.trans h)

/-- Only the payment `id` changes, and it has no applications. -/
theorem SettlementFrame.of_payment (id : ℕ) (hd : db'.docs = db.docs)
    (hc : db'.applications.rows.map Application.core = db.applications.rows.map Application.core)
    (others : ∀ k, k ≠ id → db'.payments.find? k = db.payments.find? k)
    (new : ∀ p, db'.payments.find? id = some p → p.status = .posted → 0 ≤ p.amount)
    (hpay : ∀ a ∈ db.applications, a.settler = .payment → a.settlerId ≠ id) : SettlementFrame db db' := by
  have hdoc : ∀ kind i, db'.docOf kind i = db.docOf kind i := fun kind i => docOf_congr (by rw [hd])
  refine ⟨hc, fun a ha => ?_, fun a ha => hdoc _ _, fun side k i s h hs => ?_, fun kind i d h hs =>
    .inl (hdoc kind i ▸ h)⟩
  · cases hk : a.settler with
    | payment => exact settlerOf_congr_payment (others _ (hpay a ha hk))
    | creditNote => exact settlerOf_congr_creditNote (by rw [hd])
  · cases k with
    | payment =>
      by_cases hi : i = id
      · subst hi
        obtain ⟨p, hp, rfl⟩ := settlerOf_payment.1 h
        exact .inr ⟨new p (paymentOf_eq_some.1 hp).1 hs, hpay⟩
      · exact .inl ((settlerOf_congr_payment (others i hi)).symm.trans h)
    | creditNote => exact .inl ((settlerOf_congr_creditNote (by rw [hd])).symm.trans h)

theorem SettledOk.frame (h : SettledOk db) (hf : SettlementFrame db db') : SettledOk db' := by
  refine ⟨fun a ha => ?_, fun a ha => ?_, fun side k id s hs hp => ?_, fun kind id d hd hp => ?_⟩
  · obtain ⟨b, hb, e⟩ := exists_core hf.core ha
    have := h.positive b hb
    have he : b.amountApplied = a.amountApplied := congrArg (·.amountApplied) e
    rwa [← he]
  · obtain ⟨b, hb, e⟩ := exists_core hf.core ha
    obtain ⟨s, d, hsd⟩ := h.settles b hb
    have hb' : db'.Settles b s d :=
      { hsd with settler := (hf.settlers b hb).trans hsd.settler, doc := (hf.docs b hb).trans hsd.doc }
    exact ⟨s, d, hb'.of_core e⟩
  · rw [amountApplied_core hf.core]
    rcases hf.newSettler side k id s hs hp with hs | ⟨h0, hnone⟩
    · exact h.settler side k id s hs hp
    · refine (sum_filter_eq_zero fun a ha => ?_).trans_le h0
      simpa using hnone a ha
  · rw [amountSettled_core hf.core]
    rcases hf.newDoc kind id d hd hp with hd | ⟨h0, hnone⟩
    · exact h.doc kind id d hd hp
    · refine (sum_filter_eq_zero fun a ha => ?_).trans_le h0
      simpa using hnone a ha

end frame

/-! ### Applying -/

theorem amount_of_check {db : DB} {a : Application} (h : a.check db = .ok ()) :
    0 < a.amountApplied ∧ (∃ s, db.settlerOf a.side a.settler a.settlerId = some s ∧ s.status = .posted) ∧
      ∃ d, db.docOf a.side.invoice a.docId = some d ∧ d.status = .posted := by
  simp only [Application.check, Except.bind_eq_ok_iff, ensure_eq_ok, Option.any_eq_true, decide_eq_true_eq] at h
  obtain ⟨-, -, -, hs, -, hd, -, hpos, -⟩ := h
  exact ⟨hpos, hs, hd⟩

/-- What the deferred check of a row says. -/
theorem applicationCheck_eq_ok {db : DB} {a : Application} {s : Settler} {d : Doc}
    (hs : db.settlerOf a.side a.settler a.settlerId = some s) (hd : db.docOf a.side.invoice a.docId = some d) :
    db.applicationCheck a false = .ok () ↔ (s.partyId = d.partyId ∧ s.currencyCode = d.currencyCode) ∧
      db.amountApplied a.settler a.settlerId ≤ s.amount ∧ db.amountSettled a.docId ≤ d.total := by
  simp [DB.applicationCheck, hs, hd, sameParty, Except.bind_eq_ok_iff, and_assoc]

section insert

variable {db : DB} {rows : List Application} (hfree : db.applications.AllFree rows)
include hfree

theorem amountApplied_insertAll (k : SettlerKind) (id : ℕ) :
    DB.amountApplied { db with applications := db.applications.insertAll rows } k id = db.amountApplied k id +
      ((rows.filter fun a => a.settler = k && a.settlerId = id).map (·.amountApplied)).sum := by
  rw [DB.amountApplied, Table.rows_insertAll hfree, List.filter_append, List.map_append, List.sum_append]
  rfl

theorem amountSettled_insertAll (id : ℕ) :
    DB.amountSettled { db with applications := db.applications.insertAll rows } id = db.amountSettled id +
      ((rows.filter fun a => a.docId = id).map (·.amountApplied)).sum := by
  rw [DB.amountSettled, Table.rows_insertAll hfree, List.filter_append, List.map_append, List.sum_append]
  rfl

end insert

/-- New applications that pass their checks, at once and deferred. -/
theorem SettledOk.apply {db db' : DB} (h : SettledOk db) {rows : List Application} (hfree : db.applications.AllFree rows)
    (hc : ∀ a ∈ rows, a.check db = .ok ()) (hdocs : db'.docs = db.docs) (hpays : db'.payments = db.payments)
    (hcore : db'.applications.rows.map Application.core =
      (db.applications.insertAll rows).rows.map Application.core)
    (hch : ∀ a ∈ rows, db'.applicationCheck a false = .ok ()) : SettledOk db' := by
  have hdoc : ∀ kind id, db'.docOf kind id = db.docOf kind id := fun kind id => docOf_congr (by rw [hdocs])
  have hset : ∀ side k id, db'.settlerOf side k id = db.settlerOf side k id := by
    intro side k id
    cases k with
    | payment => exact settlerOf_congr_payment (by rw [hpays])
    | creditNote => exact settlerOf_congr_creditNote (by rw [hdocs])
  have hcore' : db'.applications.rows.map Application.core =
      (DB.applications { db with applications := db.applications.insertAll rows }).rows.map Application.core := hcore
  -- what the deferred check says of a new row
  have hnew : ∀ a ∈ rows, ∃ s d, db'.Settles a s d ∧ db'.amountApplied a.settler a.settlerId ≤ s.amount ∧
      db'.amountSettled a.docId ≤ d.total := by
    intro a ha
    obtain ⟨-, ⟨s, hs, hsp⟩, d, hd, hdp⟩ := amount_of_check (hc a ha)
    rw [← hset] at hs
    rw [← hdoc] at hd
    obtain ⟨⟨hp, hcur⟩, hle, hle'⟩ := (applicationCheck_eq_ok hs hd).1 (hch a ha)
    exact ⟨s, d, ⟨hs, hd, hsp, hdp, hp, hcur⟩, hle, hle'⟩
  refine ⟨fun a ha => ?_, fun a ha => ?_, fun side k id s hs hp => ?_, fun kind id d hd hp => ?_⟩
  · obtain ⟨b, hb, e⟩ := exists_core hcore' ha
    have he : b.amountApplied = a.amountApplied := congrArg (·.amountApplied) e
    rw [← he]
    rcases (Table.mem_insertAll hfree).1 hb with hb | hb
    · exact h.positive b hb
    · exact (amount_of_check (hc b hb)).1
  · obtain ⟨b, hb, e⟩ := exists_core hcore' ha
    have hb' : ∃ s d, db'.Settles b s d := by
      rcases (Table.mem_insertAll hfree).1 hb with hb | hb
      · obtain ⟨s, d, hsd⟩ := h.settles b hb
        exact ⟨s, d, { hsd with settler := (hset ..).trans hsd.settler, doc := (hdoc ..).trans hsd.doc }⟩
      · obtain ⟨s, d, hsd, -⟩ := hnew b hb
        exact ⟨s, d, hsd⟩
    obtain ⟨s, d, hsd⟩ := hb'
    exact ⟨s, d, hsd.of_core e⟩
  · by_cases hex : ∃ a ∈ rows, a.settler = k ∧ a.settlerId = id
    · obtain ⟨a, ha, rfl, rfl⟩ := hex
      obtain ⟨s', d, hsd, hle, -⟩ := hnew a ha
      rwa [settlerOf_unique hs hsd.settler]
    · rw [amountApplied_core hcore',
        amountApplied_insertAll hfree, sum_filter_eq_zero, add_zero]
      · exact h.settler side k id s (hset .. ▸ hs) hp
      · intro a ha
        simpa using fun e e' => hex ⟨a, ha, e, e'⟩
  · by_cases hex : ∃ a ∈ rows, a.docId = id
    · obtain ⟨a, ha, rfl⟩ := hex
      obtain ⟨s, d', hsd, -, hle⟩ := hnew a ha
      rwa [docOf_unique hd hsd.doc]
    · rw [amountSettled_core hcore',
        amountSettled_insertAll hfree, sum_filter_eq_zero, add_zero]
      · exact h.doc kind id d (hdoc .. ▸ hd) hp
      · intro a ha
        simpa using fun e => hex ⟨a, ha, e⟩

/-! ### Taking applications away -/

theorem sum_filter_erase {t : Table Application} {p q : Application → Bool} (h : ∀ a ∈ t, 0 < a.amountApplied) :
    (((t.erase (t.keysWhere q)).rows.filter p).map (·.amountApplied)).sum ≤
      ((t.rows.filter p).map (·.amountApplied)).sum := by
  apply List.Sublist.sum_le_sum
  · exact (List.filter_sublist.filter p).map _
  · intro x hx
    obtain ⟨a, ha, rfl⟩ := List.mem_map.1 hx
    exact (h a (List.mem_of_mem_filter ha)).le

/-- Without some of its applications. -/
theorem SettledOk.erase {db : DB} (h : SettledOk db) (q : Application → Bool) :
    SettledOk { db with applications := db.applications.erase (db.applications.keysWhere q) } := by
  refine ⟨fun a ha => h.positive a (Table.mem_erase_keysWhere.1 ha).1, fun a ha => ?_, fun side k id s hs hp => ?_,
    fun kind id d hd hp => ?_⟩
  · obtain ⟨s, d, hsd⟩ := h.settles a (Table.mem_erase_keysWhere.1 ha).1
    exact ⟨s, d, ⟨hsd.settler, hsd.doc, hsd.settlerPosted, hsd.docPosted, hsd.party, hsd.currency⟩⟩
  · refine le_trans ?_ (h.settler side k id s hs hp)
    exact sum_filter_erase h.positive
  · refine le_trans ?_ (h.doc kind id d hd hp)
    exact sum_filter_erase h.positive

/-! ### Effects -/

theorem side_of_invoice {s s' : Side} (h : s.invoice = s'.invoice) : s = s' := by
  cases s <;> cases s' <;> first | rfl | cases h

theorem side_of_creditNote {s s' : Side} (h : s.creditNote = s'.creditNote) : s = s' := by
  cases s <;> cases s' <;> first | rfl | cases h

theorem involves_eq_false {kind : DocKind} {id : ℕ} {a : Application} : a.involves kind id = false ↔
    (a.side.invoice = kind → a.docId ≠ id) ∧ (a.settler = .creditNote → a.side.creditNote = kind → a.settlerId ≠ id) := by
  simp [Application.involves]

theorem Effect.settledOk {lo : ℕ} {op : Op} {db db' : DB} (h : Effect lo op db db') (hset : SettledOk db) :
    SettledOk db' := by
  cases h with
  | outside h => exact hset.frame (.of_same h.docs h.payments (by rw [h.applications]))
  | docEdit id h =>
    have happs := h.apps fun a ha => hset.not_mem_creditNote h.old ha
    exact hset.frame (.of_doc _ (by rw [h.eq]) (by rw [happs]) h.others (fun d hd hs => absurd hs (h.new d hd))
      (fun a ha => hset.not_mem_doc h.old ha) fun a ha => hset.not_mem_creditNote h.old ha)
  | paymentEdit id h =>
    have happs := h.apps fun a ha => hset.not_mem_payment h.old ha
    exact hset.frame (.of_payment _ (by rw [h.eq]) (by rw [happs]) h.others (fun p hp hs => absurd hs (h.new p hp))
      fun a ha => hset.not_mem_payment h.old ha)
  | movementEdit h => exact hset.frame (.of_same (by rw [h.eq]) (by rw [h.eq]) (by rw [h.eq]))
  | postDoc kind id hd hs ht hw =>
    obtain ⟨hd, -⟩ := docOf_eq_some.1 hd
    have hold : ∀ x, db.docs.find? id = some x → x.status ≠ .posted := fun x hx => by
      obtain rfl := Option.some.inj (hd.symm.trans hx)
      simp [hs]
    refine hset.frame (.of_doc id (by rw [hw.eq]) (by rw [hw.eq]) (fun k hk => ?_) (fun x hx _ => ?_)
      (fun a ha => hset.not_mem_doc hold ha) fun a ha => hset.not_mem_creditNote hold ha)
    · exact Table.find?_update_of_notMem (by intro; rfl) (by simpa using hk)
    · obtain rfl := Option.some.inj ((Table.find?_update_self (by intro; rfl) hd).symm.trans hx)
      exact ht.le
  | postPayment side id hp hs ht hw =>
    obtain ⟨hp, -⟩ := paymentOf_eq_some.1 hp
    have hold : ∀ x, db.payments.find? id = some x → x.status ≠ .posted := fun x hx => by
      obtain rfl := Option.some.inj (hp.symm.trans hx)
      simp [hs]
    refine hset.frame (.of_payment id (by rw [hw.eq]) (by rw [hw.eq]) (fun k hk => ?_) (fun x hx _ => ?_)
      fun a ha => hset.not_mem_payment hold ha)
    · exact Table.find?_update_of_notMem (by intro; rfl) (by simpa using hk)
    · obtain rfl := Option.some.inj ((Table.find?_update_self (by intro; rfl) hp).symm.trans hx)
      exact ht.le
  | postMovement id hm hj hw => exact hset.frame (.of_same (by rw [hw.eq]) (by rw [hw.eq]) (by rw [hw.eq]))
  | autoApply side settler id n hn hc hfree hfx hch =>
    exact hset.apply hfree (checkApplications_eq_ok.1 hc) (by rw [hfx.eq]) (by rw [hfx.eq]) hfx.core hch
  | @unpostDoc op kind id db mid d e r rows hd hs hj happs hr =>
    obtain ⟨hf, hk⟩ := docOf_eq_some.1 hd
    have hw := hr.wrote
    refine hset.frame (.of_doc id (by rw [hw.eq]) (by rw [hw.eq]) (fun k hk => ?_) (fun x hx hp => ?_)
      (fun a ha hid => ?_) fun a ha hn hid => ?_)
    · exact Table.find?_update_of_notMem (by intro; rfl) (by simpa using hk)
    · obtain rfl := Option.some.inj ((Table.find?_update_self (by intro; rfl) hf).symm.trans hx)
      cases hp
    · -- an application to it would be of its side
      obtain ⟨s, d', hsd⟩ := hset.settles a ha
      have hd' := hsd.doc
      rw [hid] at hd'
      obtain rfl := docOf_unique hd hd'
      exact ((involves_eq_false.1 (happs a ha)).1 ((docOf_eq_some.1 hd').2.symm.trans hk)) hid
    · obtain ⟨s, d', hsd⟩ := hset.settles a ha
      have hs' := hsd.settler
      rw [hn, hid] at hs'
      obtain ⟨c, hc, -⟩ := settlerOf_creditNote.1 hs'
      obtain rfl := docOf_unique hd hc
      exact (involves_eq_false.1 (happs a ha)).2 hn ((docOf_eq_some.1 hc).2.symm.trans hk) hid
  | @unpostPayment side id je db mid p hp hs hj hr =>
    obtain ⟨hf, hside⟩ := paymentOf_eq_some.1 hp
    refine (hset.erase (ownApplication side id)).frame (.of_payment id (by rw [hr.eq]) rfl (fun k hk => ?_)
      (fun x hx hs => ?_) fun a ha hk hid => ?_)
    · exact Table.find?_update_of_notMem (by intro; rfl) (by simpa using hk)
    · obtain rfl := Option.some.inj ((Table.find?_update_self (by intro; rfl) hf).symm.trans hx)
      cases hs
    · obtain ⟨ha, hown⟩ := Table.mem_erase_keysWhere.1 ha
      obtain ⟨s, d, hsd⟩ := hset.settles a ha
      have hs' := hsd.settler
      rw [hk, hid] at hs'
      obtain ⟨q, hq, -⟩ := settlerOf_payment.1 hs'
      obtain ⟨hq, hqs⟩ := paymentOf_eq_some.1 hq
      obtain rfl := Option.some.inj (hf.symm.trans hq)
      simp [ownApplication, hk, hid, ← hqs, hside] at hown
  | unpostMovement hm hj hr =>
    have hw := hr.wrote
    exact hset.frame (.of_same (by rw [hw.eq]) (by rw [hw.eq]) (by rw [hw.eq]))
  | closeEmpty id hopen h => exact hset.frame (.of_same (by rw [h.eq]) (by rw [h.eq]) (by rw [h.eq]))
  | closeYear id hopen hw he h =>
    exact hset.frame (.of_same (by rw [h.eq, hw.eq]) (by rw [h.eq, hw.eq]) (by rw [h.eq, hw.eq]))
  | reopenYear id hc hmid hlink hr =>
    have hw := hr.wrote
    exact hset.frame (.of_same (by rw [hw.eq, hmid]) (by rw [hw.eq, hmid]) (by rw [hw.eq, hmid]))

theorem Reachable.settledOk {s : Store DB} (h : Reachable s) : SettledOk s.db := by
  refine h.of_effects ?_ fun _ _ _ _ hi he => he.settledOk hi
  refine ⟨fun a ha => absurd ha (Table.not_mem_empty a), fun a ha => absurd ha (Table.not_mem_empty a),
    fun side k id s hs => ?_, fun kind id d hd => ?_⟩
  · cases k <;> cases hs
  · cases hd
