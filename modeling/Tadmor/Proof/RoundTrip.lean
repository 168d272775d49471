import Tadmor.Proof.Agreement
import Tadmor.Proof.NetEffect
import Tadmor.Proof.Settlement

/-!
# Posting, applying and unposting a payment

An unpost takes back everything that posting the payment and applying it wrote: the entries add up to zero, the
applications are gone, the documents are as open as before, and the payment is the draft it was.
-/

/-! ### Runs -/

/-- The operation posts, applies or unposts the payment. -/
def Op.OnPayment (op : Op) (side : Side) (id : ℕ) : Prop :=
  op = .postPayment side id ∨ op = .autoApply side .payment id ∨ op = .unpostPayment side id

/-- The operation changes the posted document or what is applied to it. -/
def Op.Touches (op : Op) (db : DB) (docId : ℕ) : Prop :=
  match op with
  | .unpostInvoice _ id => id = docId
  | .unpostCreditNote _ id => id = docId
  | .autoApply side settler id => ∃ share ∈ db.allocation side settler id, share.1 = docId
  | .unpostPayment side id => ∃ a ∈ db.applications, ownApplication side id a = true ∧ a.docId = docId
  | _ => False

/-- From `s` the payment is posted and then applied any number of times, among other operations that touch none of
the documents `docs`; `es` are the entries that the operations on the payment have written. -/
inductive PaidRun (side : Side) (id : ℕ) (docs : ℕ → Prop) (s : Store DB) : Store DB → List ℕ → Prop where
  | post {s' : Store DB} {gaps : ℕ → ℕ} (hs : (transaction (.postPayment side id)).commit gaps s = .ok ((), s')) :
      PaidRun side id docs s s' (s.db.newEntries s'.db)
  | apply {s' s'' : Store DB} {es : List ℕ} {gaps : ℕ → ℕ} (h : PaidRun side id docs s s' es)
      (hs : (transaction (.autoApply side .payment id)).commit gaps s' = .ok ((), s'')) :
      PaidRun side id docs s s'' (es ++ s'.db.newEntries s''.db)
  | other {s' s'' : Store DB} {es : List ℕ} {op : Op} {gaps : ℕ → ℕ} (h : PaidRun side id docs s s' es)
      (hop : ¬op.OnPayment side id) (ht : ∀ docId, docs docId → ¬op.Touches s'.db docId)
      (hs : (transaction op).commit gaps s' = .ok ((), s'')) : PaidRun side id docs s s'' es

theorem PaidRun.reachable {side : Side} {id : ℕ} {docs : ℕ → Prop} {s s' : Store DB} {es : List ℕ}
    (h : PaidRun side id docs s s' es) (hs : Reachable s) : Reachable s' := by
  induction h with
  | post hc => exact hs.step ⟨_, _, hc⟩
  | apply _ hc ih => exact ih.step ⟨_, _, hc⟩
  | other _ _ _ hc ih => exact ih.step ⟨_, _, hc⟩

/-! ### The entries of a payment -/

section entries

variable {side : Side} {id : ℕ} {db db' mid : DB}

theorem ownApplication_iff {a : Application} :
    ownApplication side id a = true ↔ a.OfSettler side .payment id := by
  simp [ownApplication, Application.OfSettler, and_assoc]

theorem DB.mem_fxEntries {x : ℕ} :
    x ∈ db.fxEntries side id ↔ ∃ a ∈ db.applications, a.OfSettler side .payment id ∧ a.fxJournalEntryId = some x := by
  simp only [DB.fxEntries, List.mem_filterMap, List.mem_filter, ownApplication_iff, and_assoc]
  rfl

/-- An entry linked to an application of the payment. -/
theorem mem_fxEntries_withFx {a : Application} {je : ℕ} (ha : db.applications.find? a.id = some a)
    (hfx : a.fxJournalEntryId = none)
    (happs : mid.applications = db.applications.update [a.id] (·.withFx je) fun _ => rfl) {x : ℕ} :
    x ∈ mid.fxEntries side id ↔ x ∈ db.fxEntries side id ∨ a.OfSettler side .payment id ∧ x = je := by
  have hkey : ∀ a : Application, Keyed.key (a.withFx je) = Keyed.key a := fun _ => rfl
  simp only [DB.mem_fxEntries, happs]
  constructor
  · rintro ⟨b, hb, hown, hbx⟩
    rcases (Table.mem_update_singleton hkey ha).1 hb with rfl | ⟨-, hb⟩
    · exact .inr ⟨hown, (Option.some.inj hbx).symm⟩
    · exact .inl ⟨b, hb, hown, hbx⟩
  · rintro (⟨b, hb, hown, hbx⟩ | ⟨hown, rfl⟩)
    · refine ⟨b, (Table.mem_update_singleton hkey ha).2 (.inr ⟨?_, hb⟩), hown, hbx⟩
      intro hid
      rw [Table.key_inj hb (Table.mem_of_find? ha) hid, hfx] at hbx
      cases hbx
    · exact ⟨a.withFx x, (Table.mem_update_singleton hkey ha).2 (.inl rfl), hown, rfl⟩

/-- Applying the payment links to its applications just the entries it writes. -/
theorem FxPosted.mem_fxEntries {lo : ℕ} {own : JournalEntry → Application → Prop} (h : FxPosted lo own db db')
    (hown : ∀ e a, own e a → a.OfSettler side .payment id) {x : ℕ} :
    x ∈ db'.fxEntries side id ↔ x ∈ db.fxEntries side id ∨ x ∈ db.newEntries db' := by
  induction h with
  | nil db => exact (or_iff_left (newEntries_of_same rfl)).symm
  | @cons db mid db' e rows a hw he ha hfx ho hpost h ih =>
    have hg : Journaled mid db' := h.journaled.after_same rfl rfl
    rw [ih, mem_fxEntries_withFx ha hfx rfl, and_iff_right (hown e a ho), hw.grown.mem_newEntries hg.grown, hw.mem_newEntries,
      or_assoc]
    rfl

/-- Applying something else leaves them. -/
theorem FxPosted.mem_fxEntries_of_ne {lo : ℕ} {own : JournalEntry → Application → Prop} (h : FxPosted lo own db db')
    (hown : ∀ e a, own e a → ¬a.OfSettler side .payment id) {x : ℕ} :
    x ∈ db'.fxEntries side id ↔ x ∈ db.fxEntries side id := by
  induction h with
  | nil db => rfl
  | @cons db mid db' e rows a hw he ha hfx ho hpost h ih =>
    rw [ih, mem_fxEntries_withFx ha hfx rfl]
    exact or_iff_left fun hx => hown e a ho hx.1

/-- An application has no entry when it is inserted. -/
theorem mem_fxEntries_insertAll {side' : Side} {settler : SettlerKind} {id' n : ℕ} {shares : List (ℕ × ℤ)}
    (hfree : db.applications.AllFree (applicationRows side' settler id' n shares)) {x : ℕ} :
    x ∈ DB.fxEntries { db with applications := db.applications.insertAll (applicationRows side' settler id' n shares) }
      side id ↔ x ∈ db.fxEntries side id := by
  simp only [DB.mem_fxEntries]
  constructor
  · rintro ⟨a, ha, hown, hx⟩
    rcases (Table.mem_insertAll hfree).1 ha with ha | ha
    · exact ⟨a, ha, hown, hx⟩
    · rw [(mem_applicationRows ha).2.2.2.1] at hx
      cases hx
  · rintro ⟨a, ha, hown, hx⟩
    exact ⟨a, (Table.mem_insertAll hfree).2 (.inl ha), hown, hx⟩

theorem fxEntries_congr (h : db'.applications = db.applications) : db'.fxEntries side id = db.fxEntries side id := by
  unfold DB.fxEntries
  rw [h]

theorem OfSettler.unique {side' : Side} {settler settler' : SettlerKind} {id' : ℕ} {a : Application}
    (h : a.OfSettler side settler id) (h' : a.OfSettler side' settler' id') :
    side' = side ∧ settler' = settler ∧ id' = id :=
  ⟨h'.1.symm.trans h.1, h'.2.1.symm.trans h.2.1, h'.2.2.symm.trans h.2.2⟩

end entries

/-! ### What an operation does to the applications -/

inductive Applies (lo : ℕ) : Op → DB → DB → Prop where
  | same {op : Op} {db db' : DB} (h : db'.applications = db.applications) : Applies lo op db db'
  | apply {db db' : DB} (side : Side) (settler : SettlerKind) (id n : ℕ)
      (hfree : db.applications.AllFree (applicationRows side settler id n (db.allocation side settler id)))
      (hfx : FxPosted lo (db.FxOf side settler id) { db with
        applications := db.applications.insertAll (applicationRows side settler id n (db.allocation side settler id)) }
        db') : Applies lo (.autoApply side settler id) db db'
  | unpost {db db' : DB} (side : Side) (id : ℕ)
      (h : db'.applications = db.applications.erase (db.applications.keysWhere (ownApplication side id))) :
      Applies lo (.unpostPayment side id) db db'

theorem Effect.applies {lo : ℕ} {op : Op} {db db' : DB} (h : Effect lo op db db') (hset : SettledOk db) :
    Applies lo op db db' := by
  cases h with
  | outside h => exact .same h.applications
  | docEdit id h => exact .same (h.apps fun a ha hk => hset.not_mem_creditNote h.old ha hk)
  | paymentEdit id h => exact .same (h.apps fun a ha hk => hset.not_mem_payment h.old ha hk)
  | movementEdit h => exact .same (by rw [h.eq])
  | postDoc kind id hd hs ht hw => exact .same (by rw [hw.eq])
  | postPayment side id hp hs ht hw => exact .same (by rw [hw.eq])
  | postMovement id hm hj hw => exact .same (by rw [hw.eq])
  | autoApply side settler id n hn hc hfree hfx hch => exact .apply side settler id n hfree hfx
  | unpostDoc hd hs hj happs hr => exact .same (by rw [hr.wrote.eq])
  | unpostPayment hp hs hj hr => exact .unpost _ _ rfl
  | unpostMovement hm hj hr => exact .same (by rw [hr.wrote.eq])
  | closeEmpty id hopen h => exact .same (by rw [h.eq])
  | closeYear id hopen hw he h => exact .same (by rw [h.eq, hw.eq])
  | reopenYear id hc hmid hlink hr => exact .same (by rw [hr.wrote.eq, hmid])

section applies

variable {side : Side} {id lo : ℕ} {op : Op} {db db' : DB}

/-- An operation on something else leaves the entries of the payment's applications. -/
theorem Applies.mem_fxEntries (h : Applies lo op db db') (hop : ¬op.OnPayment side id) {x : ℕ} :
    x ∈ db'.fxEntries side id ↔ x ∈ db.fxEntries side id := by
  cases h with
  | same h => rw [fxEntries_congr h]
  | apply side' settler id' n hfree hfx =>
    rw [hfx.mem_fxEntries_of_ne fun e a ho hown => hop ?_, mem_fxEntries_insertAll hfree]
    obtain ⟨rfl, rfl, rfl⟩ := OfSettler.unique hown ho.1
    exact .inr (.inl rfl)
  | unpost side' id' h =>
    simp only [DB.mem_fxEntries, h, Table.mem_erase_keysWhere]
    constructor
    · rintro ⟨a, ⟨ha, -⟩, hown, hx⟩
      exact ⟨a, ha, hown, hx⟩
    · rintro ⟨a, ha, hown, hx⟩
      refine ⟨a, ⟨ha, ?_⟩, hown, hx⟩
      rw [Bool.eq_false_iff]
      intro ho
      obtain ⟨rfl, -, rfl⟩ := OfSettler.unique hown (ownApplication_iff.1 ho)
      exact hop (.inr (.inr rfl))

/-- What settlers other than the payment have applied to a document. -/
def DB.settledByOthers (db : DB) (side : Side) (id docId : ℕ) : ℤ :=
  ((db.applications.rows.filter fun a => a.docId = docId && !ownApplication side id a).map (·.amountApplied)).sum

theorem settledByOthers_congr {docId : ℕ} (h : db'.applications = db.applications) :
    db'.settledByOthers side id docId = db.settledByOthers side id docId := by
  unfold DB.settledByOthers
  rw [h]

/-- New applications that are the payment's own or on other documents do not count. -/
theorem FxPosted.settledByOthers {own : JournalEntry → Application → Prop} {rows : List Application} {docId : ℕ}
    (hfree : db.applications.AllFree rows)
    (h : FxPosted lo own { db with applications := db.applications.insertAll rows } db')
    (hrows : ∀ a ∈ rows, a.docId = docId → ownApplication side id a = true) :
    db'.settledByOthers side id docId = db.settledByOthers side id docId := by
  have hnone : rows.filter (fun a => a.docId = docId && !ownApplication side id a) = [] := by
    rw [List.filter_eq_nil_iff]
    intro a ha
    simpa using hrows a ha
  rw [DB.settledByOthers, sum_core h.core _ fun _ => rfl]
  show (((db.applications.insertAll rows).rows.filter _).map _).sum = _
  rw [Table.rows_insertAll hfree, List.filter_append, hnone, List.append_nil]
  rfl

theorem Applies.settledByOthers {docId : ℕ} (h : Applies lo op db db')
    (hop : op.OnPayment side id ∨ ¬op.Touches db docId) :
    db'.settledByOthers side id docId = db.settledByOthers side id docId := by
  cases h with
  | same h => exact settledByOthers_congr h
  | apply side' settler id' n hfree hfx =>
    refine hfx.settledByOthers hfree fun a ha hid => ?_
    obtain ⟨h₁, h₂, h₃, -, hmem⟩ := mem_applicationRows ha
    rcases hop with (hop | hop | hop) | hop
    · cases hop
    · cases hop
      exact ownApplication_iff.2 ⟨h₁, h₂, h₃⟩
    · cases hop
    · exact absurd ⟨_, hmem, hid⟩ hop
  | unpost side' id' h =>
    rw [DB.settledByOthers, h, Table.rows_erase_keysWhere, List.filter_filter]
    congr 2
    apply List.filter_congr
    intro a ha
    by_cases hown : ownApplication side' id' a = true
    · rcases hop with (hop | hop | hop) | hop
      · cases hop
      · cases hop
      · cases hop
        simp [hown]
      · have hne : a.docId ≠ docId := fun hid => hop ⟨a, ha, hown, hid⟩
        simp [hne]
    · simp [hown]

end applies

/-! ### The payment -/

/-- A payment that is not posted has no period. -/
theorem Effect.unposted_period {lo : ℕ} {op : Op} {db db' : DB} (h : Effect lo op db db')
    (hp : ∀ p ∈ db.payments, p.status ≠ .posted → p.periodId = none) :
    ∀ p ∈ db'.payments, p.status ≠ .posted → p.periodId = none := by
  have same : db'.payments = db.payments → ∀ p ∈ db'.payments, p.status ≠ .posted → p.periodId = none :=
    fun e => e ▸ hp
  cases h with
  | outside h => exact same h.payments
  | docEdit id h => exact same (by rw [h.eq])
  | paymentEdit id h =>
    intro p hm hs
    have hf := Table.find?_key hm
    by_cases hid : p.id = id
    · rw [Option.eq_none_iff_forall_ne_some]
      intro n hn
      obtain ⟨q, hq, hqn⟩ := Option.bind_eq_some_iff.1 (h.period p n (hid ▸ hf) hn)
      rw [hp q (Table.mem_of_find? hq) (h.old q hq)] at hqn
      cases hqn
    · exact hp p (Table.mem_of_find? ((h.others _ hid).symm.trans hf)) hs
  | movementEdit h => exact same (by rw [h.eq])
  | postDoc kind id hd hs ht hw => exact same (by rw [hw.eq])
  | postPayment side id hf hs ht hw =>
    intro p hm hp'
    obtain ⟨q, hq, rfl⟩ := (Table.mem_update (by intro; rfl)).1 hm
    split at hp'
    · exact absurd rfl hp'
    · rename_i hk
      rw [if_neg hk]
      exact hp q hq hp'
  | postMovement id hm hj hw => exact same (by rw [hw.eq])
  | autoApply side settler id n hn hc hfree hfx hch => exact same (by rw [hfx.eq])
  | unpostDoc hd hs hj happs hr => exact same (by rw [hr.wrote.eq])
  | unpostPayment hf hs hj hr =>
    intro p hm hp'
    obtain ⟨q, hq, rfl⟩ := (Table.mem_update (by intro; rfl)).1 hm
    split at hp'
    · rename_i hk
      rw [if_pos hk]
      rfl
    · rename_i hk
      rw [if_neg hk]
      exact hp q hq hp'
  | unpostMovement hm hj hr => exact same (by rw [hr.wrote.eq])
  | closeEmpty id hopen h => exact same (by rw [h.eq])
  | closeYear id hopen hw he h => exact same (by rw [h.eq, hw.eq])
  | reopenYear id hc hmid hlink hr => exact same (by rw [hr.wrote.eq, hmid])

theorem Reachable.unposted_period {s : Store DB} (h : Reachable s) :
    ∀ p ∈ s.db.payments, p.status ≠ .posted → p.periodId = none := by
  refine h.of_effects (fun p hp => ?_) fun _ _ _ _ hi he => he.unposted_period hi
  exact absurd hp (Table.not_mem_empty p)

/-- Unposting a draft that was posted gives the draft. -/
theorem unposted_posted {p : Payment} (hs : p.status = .draft) (hj : p.journalEntryId = none) (hper : p.periodId = none)
    (je period : ℕ) : (p.posted je period).unposted = p := by
  cases p
  simp only at hs hj hper
  subst hs hj hper
  rfl

/-! ### Along a run -/

theorem run_of_commit {op : Op} {gaps : ℕ → ℕ} {s s' : Store DB} (h : (transaction op).commit gaps s = .ok ((), s')) :
    ∃ v : Env DB Err, (transaction op).run ⟨gaps, s.seq, s.db, []⟩ = .ok ((), v) ∧ v.db = s'.db := by
  obtain ⟨v, hrun, -, rfl⟩ := Prog.commit_eq_ok.1 h
  exact ⟨v, hrun, rfl⟩

/-- After a run from `before`: the payment is posted, `es` are its entry and those of its applications, and the
documents `docs` are settled by others as much as before. -/
structure PaidState (side : Side) (id : ℕ) (p : Payment) (docs : ℕ → Prop) (before db : DB) (es : List ℕ) : Prop where
  payment : ∃ je period, db.paymentOf side id = some (p.posted je period) ∧
    ∀ x, x ∈ es ↔ x = je ∨ x ∈ db.fxEntries side id
  docs : ∀ d ∈ before.docs, d.status = .posted → docs d.id →
    d ∈ db.docs ∧ db.settledByOthers side id d.id = before.amountSettled d.id

section run

variable {side : Side} {id : ℕ} {p : Payment} {docs : ℕ → Prop} {s s' s'' : Store DB} {es : List ℕ} {gaps : ℕ → ℕ}

/-- A draft has no applications. -/
theorem not_ofSettler_of_draft {db : DB} (hset : SettledOk db) (hp : db.paymentOf side id = some p)
    (hs : p.status = .draft) {a : Application} (ha : a ∈ db.applications) : ¬a.OfSettler side .payment id := by
  rintro ⟨-, hk, hid⟩
  refine hset.not_mem_payment (fun q hq => ?_) ha hk hid
  obtain rfl := Option.some.inj ((paymentOf_eq_some.1 hp).1.symm.trans hq)
  simp [hs]

theorem settledByOthers_of_draft {db : DB} (hset : SettledOk db) (hp : db.paymentOf side id = some p)
    (hs : p.status = .draft) (docId : ℕ) : db.settledByOthers side id docId = db.amountSettled docId := by
  unfold DB.settledByOthers DB.amountSettled
  congr 2
  apply List.filter_congr
  intro a ha
  have hown : ownApplication side id a = false := by
    rw [Bool.eq_false_iff]
    exact fun ho => not_ofSettler_of_draft hset hp hs ha (ownApplication_iff.1 ho)
  simp [hown]

/-- The documents that an operation does not touch stay as they are. -/
theorem PaidState.docs_step {before : DB} {op : Op} (hs : Reachable s)
    (hc : (transaction op).commit gaps s = .ok ((), s'))
    (hop : op.OnPayment side id ∨ ∀ docId, docs docId → ¬op.Touches s.db docId) {d : Doc} (hd : d.status = .posted)
    (hdocs : docs d.id)
    (h : d ∈ s.db.docs ∧ s.db.settledByOthers side id d.id = before.amountSettled d.id) :
    d ∈ s'.db.docs ∧ s'.db.settledByOthers side id d.id = before.amountSettled d.id := by
  have heff := (commit_effect hc hs.fresh).1
  have hop' : op.OnPayment side id ∨ ¬op.Touches s.db d.id := hop.imp_right fun ht => ht d.id hdocs
  have hun : ¬op.Unposts d := by
    rintro ⟨kind, -, rfl⟩
    rcases hop' with (hop | hop | hop) | hop
    · cases kind <;> cases hop
    · cases kind <;> cases hop
    · cases kind <;> cases hop
    · exact hop (by cases kind <;> rfl)
  exact ⟨(heff.doc_frame h.1 hd hun).1, ((heff.applies hs.settledOk).settledByOthers hop').trans h.2⟩

theorem PaidState.post (hs : Reachable s) (hp : s.db.paymentOf side id = some p) (hdraft : p.status = .draft)
    (hc : (transaction (.postPayment side id)).commit gaps s = .ok ((), s')) :
    PaidState side id p docs s.db s'.db (s.db.newEntries s'.db) := by
  refine ⟨?_, fun d hd hposted hdocs => docs_step hs hc (.inl (.inl rfl)) hposted hdocs
    ⟨hd, settledByOthers_of_draft hs.settledOk hp hdraft _⟩⟩
  obtain ⟨v, hrun, hv⟩ := run_of_commit hc
  obtain ⟨je, hrun⟩ := run_void hrun
  obtain ⟨q, period, rate, mid, rows, hq, -, -, -, hw, -, hdb, -⟩ := run_postPayment hrun hs.fresh
  obtain rfl : p = q := Option.some.inj (hp.symm.trans hq)
  rw [← hv, hdb]
  obtain ⟨hf, hside⟩ := paymentOf_eq_some.1 hp
  have hkey : ∀ q : Payment, Keyed.key (q.posted je period) = Keyed.key q := fun _ => rfl
  refine ⟨je, period, paymentOf_eq_some.2 ⟨Table.find?_update_self hkey hf, hside⟩, fun x => ?_⟩
  have hfx : x ∉ s.db.fxEntries side id := by
    rw [DB.mem_fxEntries]
    rintro ⟨a, ha, hown, -⟩
    exact not_ofSettler_of_draft hs.settledOk hp hdraft ha hown
  have happs : mid.applications = s.db.applications := by rw [hw.eq]
  rw [← fxEntries_congr happs] at hfx
  exact (hw.mem_newEntries (x := x)).trans (or_iff_left hfx).symm

theorem PaidState.apply {before : DB} (h : PaidState side id p docs before s.db es) (hs : Reachable s)
    (hc : (transaction (.autoApply side .payment id)).commit gaps s = .ok ((), s')) :
    PaidState side id p docs before s'.db (es ++ s.db.newEntries s'.db) := by
  refine ⟨?_, fun d hd hposted hdocs =>
    docs_step hs hc (.inl (.inr (.inl rfl))) hposted hdocs (h.docs d hd hposted hdocs)⟩
  obtain ⟨je, period, hp, hes⟩ := h.payment
  obtain ⟨v, hrun, hv⟩ := run_of_commit hc
  obtain ⟨shares, hrun⟩ := run_void hrun
  obtain ⟨n, -, -, -, hfree, hfx, -⟩ := run_autoApply hrun hs.fresh
  rw [hv] at hfx
  refine ⟨je, period, ?_, fun x => ?_⟩
  · rw [hfx.eq]
    exact hp
  · rw [hfx.mem_fxEntries fun e a ho => ho.1, mem_fxEntries_insertAll hfree, List.mem_append, hes, or_assoc]
    rfl

theorem PaidState.other {before : DB} {op : Op} (h : PaidState side id p docs before s.db es) (hs : Reachable s)
    (hop : ¬op.OnPayment side id) (ht : ∀ docId, docs docId → ¬op.Touches s.db docId)
    (hc : (transaction op).commit gaps s = .ok ((), s')) : PaidState side id p docs before s'.db es := by
  refine ⟨?_, fun d hd hposted hdocs => docs_step hs hc (.inr ht) hposted hdocs (h.docs d hd hposted hdocs)⟩
  obtain ⟨je, period, hp, hes⟩ := h.payment
  have heff := (commit_effect hc hs.fresh).1
  obtain ⟨hf, hside⟩ := paymentOf_eq_some.1 hp
  have hunpost : ¬op.UnpostsPayment (p.posted je period) := by
    intro hu
    rw [Op.UnpostsPayment, hside, show (p.posted je period).id = id from Table.key_of_find? hf] at hu
    exact hop (.inr (.inr hu))
  have hm := heff.payment_frame (Table.mem_of_find? hf) rfl hunpost
  refine ⟨je, period, paymentOf_eq_some.2 ⟨Table.find?_eq_some.2 ⟨hm, Table.key_of_find? hf⟩, hside⟩, fun x => ?_⟩
  rw [(heff.applies hs.settledOk).mem_fxEntries hop, hes]

theorem PaidRun.state (hs : Reachable s) (hp : s.db.paymentOf side id = some p) (hdraft : p.status = .draft)
    (h : PaidRun side id docs s s' es) : PaidState side id p docs s.db s'.db es := by
  induction h with
  | post hc => exact .post hs hp hdraft hc
  | apply h hc ih => exact ih.apply (h.reachable hs) hc
  | other h hop ht hc ih => exact ih.other (h.reachable hs) hop ht hc

end run

/-! ### Posting again -/

/-- The error is one of the database. -/
def Err.IsSql (e : Err) : Prop := ∃ code message, e = .sql code message

theorem isSql_of_ensure {b : Bool} {code : SqlState} {message : String} {e : Err}
    (h : ensure b (.sql code message) = .error e) : e.IsSql := by
  cases b with
  | false =>
    cases h
    exact ⟨_, _, rfl⟩
  | true => cases h

theorem isSql_of_bind {α β : Type} {x : Except Err α} {f : α → Except Err β} {e : Err} (h : x >>= f = .error e)
    (hx : x = .error e → e.IsSql) (hf : ∀ a, f a = .error e → e.IsSql) : e.IsSql := by
  rcases Except.bind_eq_error_iff.1 h with h | ⟨a, -, h⟩
  · exact hx h
  · exact hf a h

theorem isSql_of_entryBalanced {je : ℕ} {db : DB} {e : Err} (h : DB.entryBalanced je db = .error e) : e.IsSql := by
  unfold DB.entryBalanced at h
  split at h
  · cases h
  · dsimp only at h
    split_ifs at h
    all_goals
      cases h
      exact ⟨_, _, rfl⟩

theorem isSql_of_accountOk {db : DB} {account : ℕ} {e : Err} (h : db.accountOk account = .error e) : e.IsSql := by
  unfold DB.accountOk at h
  split at h
  · cases h
    exact ⟨_, _, rfl⟩
  · exact isSql_of_bind h isSql_of_ensure fun _ => isSql_of_ensure

theorem isSql_of_lineCheck {db : DB} {l : JournalLine} {e : Err} (h : l.check db = .error e) : e.IsSql := by
  refine isSql_of_bind h isSql_of_ensure fun _ h => ?_
  refine isSql_of_bind h isSql_of_accountOk fun _ h => ?_
  refine isSql_of_bind h isSql_of_ensure fun _ h => ?_
  refine isSql_of_bind h isSql_of_ensure fun _ h => ?_
  exact isSql_of_bind h isSql_of_ensure fun _ => isSql_of_ensure

theorem isSql_of_newRows {db : DB} {je n : ℕ} {ls : List NewLine} {e : Err} (h : newRows db je n ls = .error e) :
    e.IsSql := by
  induction ls generalizing n with
  | nil => cases h
  | cons l ls ih =>
    unfold newRows at h
    split at h
    · cases h
      exact ⟨_, _, rfl⟩
    · refine isSql_of_bind h isSql_of_lineCheck fun _ h => ?_
      refine isSql_of_bind h ih fun rows h => ?_
      cases h

section throws

variable {E : Err → Prop} (hE : ∀ e : Err, e.IsSql → E e)
include hE

theorem insertEntry_fails {db : DB} {x : JournalEntry} :
    (∀ e, insertEntry db x = .error e → E e) ∧
      ∀ o, insertEntry db x = .ok o → ∀ c ∈ o.checks, ∀ db' e, c db' = .error e → E e := by
  refine ⟨fun e h => hE e ?_, fun o ho c hc db' e he => hE e ?_⟩
  · refine isSql_of_bind h isSql_of_ensure fun _ h => ?_
    refine isSql_of_bind h isSql_of_ensure fun _ h => ?_
    refine isSql_of_bind h isSql_of_ensure fun _ h => ?_
    refine isSql_of_bind h isSql_of_ensure fun _ h => ?_
    cases h
  · obtain ⟨-, rfl⟩ := insertEntry_eq_ok.1 ho
    rw [List.mem_singleton.1 hc] at he
    exact isSql_of_entryBalanced he

theorem throws_createEntry (hrate : ∀ m, E (.posting .noExchangeRate m)) (date : Date) (period : ℕ)
    (currency memo reference : String) : (createEntry date period currency memo reference).Throws E := by
  refine Prog.throws_exec fun n db => ?_
  cases hr : db.rateFor currency date with
  | none =>
    refine ⟨fun e h => ?_, fun o h => ?_⟩
    · cases h
      exact hrate _
    · cases h
  | some rate => exact insertEntry_fails hE

theorem throws_insertLines (je : ℕ) (select : DB → List NewLine) : (insertLines je select).Throws E := by
  refine Prog.throws_exec fun n db => ⟨fun e h => hE e ?_, fun o h c hc db' e he => hE e ?_⟩
  · refine isSql_of_bind h isSql_of_newRows fun _ h => ?_
    refine isSql_of_bind h isSql_of_ensure fun _ h => ?_
    cases h
  · simp only [Except.bind_eq_ok_iff, ensure_eq_ok, exists_const, Except.ok.injEq] at h
    obtain ⟨rows, -, -, rfl⟩ := h
    obtain ⟨-, -, rfl⟩ := List.mem_map.1 hc
    exact isSql_of_entryBalanced he

omit hE in
theorem throws_periodForDate (hper : ∀ m, E (.posting .noOpenPeriod m)) (date : Date) :
    (periodForDate date).Throws E := by
  refine (Prog.throws_read _).bind fun p => ?_
  cases p with
  | some p => exact Prog.throws_pure _
  | none =>
    refine (Prog.throws_read _).bind fun covered => (Prog.throws_require fun _ => hper _).bind fun _ => ?_
    refine Prog.Throws.bind (Prog.throws_exec fun n db => ?_) fun _ => (Prog.throws_read _).bind fun p => ?_
    · split
      · exact Prog.fails_never rfl rfl
      · dsimp only
        split
        · exact Prog.fails_never rfl rfl
        · exact Prog.fails_never rfl rfl
    · cases p with
      | some p => exact Prog.throws_pure _
      | none => exact hper _

end throws

theorem throws_updatePaymentById {E : Err → Prop} (side : Side) (id : ℕ) (f : Payment → Payment)
    (hf : ∀ p, (f p).id = p.id) : (updatePaymentById side id f hf).Throws E :=
  Prog.throws_exec fun _ _ => Prog.fails_never rfl rfl

/-- Posting a draft is not refused for its status. -/
theorem postPayment_not_notDraft {side : Side} {id : ℕ} {s : Store DB} {p : Payment}
    (hp : s.db.paymentOf side id = some p) (hs : p.status = .draft) (gaps : ℕ → ℕ) (m : String) :
    (transaction (.postPayment side id)).commit gaps s ≠ .error (.posting .notDraft m) := by
  intro h
  rw [show transaction (.postPayment side id) = void (postPayment side id) from rfl, void, postPayment,
    Prog.bind_assoc] at h
  cases hh : paymentHeader side id s.db with
  | error e =>
    rw [Prog.commit_query_bind_error hh] at h
    unfold paymentHeader at hh
    split at hh
    · cases hh
      cases h
    · cases hh
  | ok a =>
    rw [Prog.commit_query_bind hh] at h
    obtain ⟨q, c, hqc, rfl⟩ := paymentHeader_eq_ok.1 hh
    obtain rfl := Option.some.inj (hp.symm.trans (paymentParty_eq_some.1 hqc).1)
    have hE : ∀ e : Err, e.IsSql → ∀ m, e ≠ .posting .notDraft m := by
      rintro e ⟨code, message, rfl⟩ m he
      cases he
    refine Prog.Throws.commit (E := fun e => ∀ m, e ≠ .posting .notDraft m) ?_ h m rfl
    refine Prog.Throws.bind ?_ fun _ => Prog.throws_pure _
    refine (Prog.throws_require fun hd => ?_).bind fun _ => ?_
    · exact absurd hs (of_decide_eq_false hd)
    refine (Prog.throws_require fun _ m he => by cases he).bind fun _ => ?_
    refine (Prog.throws_require fun _ m he => by cases he).bind fun _ => ?_
    refine (Prog.throws_require fun _ m he => by cases he).bind fun _ => ?_
    refine (throws_periodForDate (fun m m' he => by cases he) _).bind fun period => ?_
    refine (throws_createEntry hE (fun m m' he => by cases he) _ _ _ _ _).bind fun je => ?_
    refine (throws_insertLines hE _ _).bind fun _ => (throws_insertLines hE _ _).bind fun _ => ?_
    exact (throws_updatePaymentById _ _ _ _).bind fun _ => Prog.throws_pure _

/-! ### The round trip -/

/-- The entries that an unpost reverses exist and are distinct. -/
theorem unpost_entries {db : DB} {side : Side} {id je : ℕ} {p : Payment} (hb : db.book.Sound)
    (hp : db.paymentOf side id = some p) (hj : p.journalEntryId = some je) :
    (je :: db.fxEntries side id).Nodup ∧ ∀ x ∈ je :: db.fxEntries side id, ∃ e ∈ db.entries, e.id = x := by
  have hlinks := map_link_paymentOwners hp hj
  have hlink : ∀ o ∈ db.paymentOwners side id, ∃ x ∈ je :: db.fxEntries side id, db.link o = some x := by
    intro o ho
    have hm : db.link o ∈ (je :: db.fxEntries side id).map some := hlinks ▸ List.mem_map_of_mem ho
    obtain ⟨x, hx, he⟩ := List.mem_map.1 hm
    exact ⟨x, hx, he.symm⟩
  constructor
  · have hn : ((db.paymentOwners side id).map db.link).Nodup := by
      refine (nodup_paymentOwners db side id).map_on fun o ho o' _ he => ?_
      obtain ⟨x, -, hx⟩ := hlink o ho
      exact hb.inj o' o x (he.symm.trans hx) hx
    rw [hlinks] at hn
    exact List.Nodup.of_map _ hn
  · intro x hx
    have hm : some x ∈ (db.paymentOwners side id).map db.link := hlinks ▸ List.mem_map_of_mem hx
    obtain ⟨o, -, ho⟩ := List.mem_map.1 hm
    obtain ⟨e, he, hid, -⟩ := reversals_eq_some.1 (hb.live o x ho)
    exact ⟨e, he, hid⟩

/-- What an unpost of the payment leaves: `p` is the draft that was posted in `before`, the run led to `last`, the
unpost to `after`, and `es` are the entries that the operations on the payment have written. -/
structure Unwound (side : Side) (id : ℕ) (p : Payment) (docs : ℕ → Prop) (before last after : Store DB)
    (es : List ℕ) : Prop where
  base : ∀ account date, after.db.netOf es (fun e => e.entryDate ≤ date) JournalLine.net account = 0
  txn : ∀ account currency date,
    after.db.netOf es (fun e => e.currencyCode = currency && e.entryDate ≤ date) (fun l => l.debit - l.credit)
      account = 0
  applications : ∀ a ∈ after.db.applications, ownApplication side id a = false
  settled : ∀ d, after.db.available d = d.total - last.db.settledByOthers side id d.id
  available : ∀ d ∈ before.db.docs, d.status = .posted → docs d.id →
    d ∈ after.db.docs ∧ after.db.available d = before.db.available d
  payment : after.db.paymentOf side id = some p
  repost : ∀ gaps m, (transaction (.postPayment side id)).commit gaps after ≠ .error (.posting .notDraft m)

/-- Unposting a payment takes back what posting and applying it did. -/
theorem payment_round_trip {side : Side} {id : ℕ} {docs : ℕ → Prop} {p : Payment} {s s' s'' : Store DB} {es : List ℕ}
    {gaps : ℕ → ℕ} (hs : Reachable s) (hp : s.db.paymentOf side id = some p) (hdraft : p.status = .draft)
    (hrun : PaidRun side id docs s s' es)
    (hunpost : (transaction (.unpostPayment side id)).commit gaps s' = .ok ((), s'')) :
    Unwound side id p docs s s' s'' (es ++ s'.db.newEntries s''.db) := by
  have hs' := hrun.reachable hs
  have hstate := hrun.state hs hp hdraft
  obtain ⟨je, period, hp', hes⟩ := hstate.payment
  obtain ⟨v, hv, hdb⟩ := run_of_commit hunpost
  obtain ⟨rev, hv⟩ := run_void hv
  obtain ⟨q, je', mid, hq, -, hj, hr, hw⟩ := run_unpostPayment hv hs'.fresh
  obtain rfl : q = p.posted je period := Option.some.inj (hq.symm.trans hp')
  obtain rfl : je = je' := Option.some.inj hj
  rw [hdb] at hw
  obtain ⟨hf, hside⟩ := paymentOf_eq_some.1 hp'
  obtain ⟨hn, hexists⟩ := unpost_entries hs'.book_sound hp' rfl
  have hnet : ∀ (f : JournalEntry → Bool) (amount : JournalLine → ℤ) (account : ℕ),
      (∀ e r : JournalEntry, r.entryDate = e.entryDate → r.currencyCode = e.currencyCode → f r = f e) →
      (∀ l m, JournalLine.Mirrors l m → amount m = -amount l) →
      s''.db.netOf (es ++ s'.db.newEntries s''.db) f amount account = 0 := by
    intro f amount account hfe hamount
    have hsame : s'.db.netOf es f amount account = s'.db.netOf (je :: s'.db.fxEntries side id) f amount account :=
      netOf_congr fun x => by rw [hes, List.mem_cons]
    have hall : mid.netOf (es ++ s'.db.newEntries mid) f amount account = _ :=
      hr.netOf hs'.journalOk hfe hamount hn hexists es
    rw [hsame, sub_self] at hall
    rw [hw]
    exact hall
  have hsettled : ∀ docId, s''.db.amountSettled docId = s'.db.settledByOthers side id docId := by
    intro docId
    rw [hw]
    unfold DB.amountSettled DB.settledByOthers
    rw [Table.rows_erase_keysWhere, List.filter_filter]
  have hpay : s''.db.paymentOf side id = some p := by
    have hkey : ∀ q : Payment, Keyed.key q.unposted = Keyed.key q := fun _ => rfl
    have hold := (paymentOf_eq_some.1 hp).1
    have hback := unposted_posted hdraft (hs.linkOk.payment_none hold (by simp [hdraft]))
      (hs.unposted_period p (Table.mem_of_find? hold) (by simp [hdraft])) je period
    rw [hw, paymentOf_eq_some]
    refine ⟨?_, (paymentOf_eq_some.1 hp).2⟩
    rw [← hback]
    exact Table.find?_update_self hkey hf
  refine ⟨fun account date => ?_, fun account currency date => ?_, fun a ha => ?_, fun d => ?_,
    fun d hd hposted hdocs => ?_, hpay, fun gaps m => postPayment_not_notDraft hpay hdraft gaps m⟩
  · refine hnet _ _ _ (fun e r hdate _ => by rw [hdate]) fun l m hm => ?_
    rw [JournalLine.net, JournalLine.net, hm.baseDebit, hm.baseCredit]
    omega
  · refine hnet _ _ _ (fun e r hdate hcur => by rw [hdate, hcur]) fun l m hm => ?_
    rw [hm.debit, hm.credit]
    omega
  · rw [hw] at ha
    exact (Table.mem_erase_keysWhere.1 ha).2
  · rw [DB.available, hsettled]
  · obtain ⟨hm, hothers⟩ := hstate.docs d hd hposted hdocs
    refine ⟨?_, ?_⟩
    · rw [hw, hr.eq]
      exact hm
    · rw [DB.available, DB.available, hsettled, hothers]

/-- The operation succeeds and leads to a state that satisfies `q`. -/
def commits (op : Op) (q : Store DB → Bool) (s : Store DB) : Bool :=
  ((transaction op).commit (fun _ => 0) s).toOption.any fun x => q x.2

theorem of_commits {op : Op} {q : Store DB → Bool} {s : Store DB} (h : commits op q s = true) :
    ∃ s', (transaction op).commit (fun _ => 0) s = .ok ((), s') ∧ q s' = true := by
  obtain ⟨x, hx, hq⟩ := (Option.any_eq_true ..).1 h
  refine ⟨x.2, ?_, hq⟩
  cases hc : (transaction op).commit (fun _ => 0) s with
  | error e =>
    rw [hc] at hx
    cases hx
  | ok y =>
    rw [hc] at hx
    cases hx
    rfl

def euroInvoice : DocInput :=
  { number := "I1", partyId := 14, date := march5, currencyCode := "EUR",
    lines := [{ accountId := some 8, unitPrice := dollars 100 }] }

/-- A posted invoice of 100 euros and a draft payment of 60, at another rate. -/
def euroOpening : List Op := [
  .createFiscalYear ⟨"FY2026", yearStart, yearEnd⟩,
  .createParty .sales (some 2),
  .createExchangeRate "EUR" march5 110000000,
  .createExchangeRate "EUR" march6 120000000,
  .createDoc .salesInvoice euroInvoice,
  .postDoc .salesInvoice 15,
  .createPayment .sales
    { partyId := 14, date := march6, currencyCode := "EUR", amount := dollars 60, cashAccountId := some 1 }]

/-- The payment is posted and applied, the rate changes, and the payment is unposted. -/
theorem payment_round_trip_euro : ∃ (p : Payment) (s s' s'' : Store DB) (es : List ℕ),
    (s'.db.docs.rows.map s'.db.available, es.length) = ([dollars 40], 4) ∧
      Unwound .sales 21 p (fun docId => docId = 15) s s' s'' es := by
  obtain ⟨s, hs, h⟩ := exists_reachable euroOpening (p := fun s =>
    ((s.db.paymentOf .sales 21).any fun p => p.status = .draft) &&
      commits (.postPayment .sales 21) (fun s₁ => commits (.autoApply .sales .payment 21) (fun s₂ =>
        commits (.updateExchangeRate "EUR" (day 3 6) 130000000) (fun s₃ =>
          commits (.unpostPayment .sales 21) (fun s₄ => decide ((s₃.db.docs.rows.map s₃.db.available,
            ((s.db.newEntries s₁.db ++ s₁.db.newEntries s₂.db) ++ s₃.db.newEntries s₄.db).length) =
              ([dollars 40], 4))) s₃) s₂) s₁) s)
    (by decide +kernel)
  rw [Bool.and_eq_true] at h
  obtain ⟨hp, h⟩ := h
  obtain ⟨p, hp, hdraft⟩ := (Option.any_eq_true ..).1 hp
  obtain ⟨s₁, h₁, h⟩ := of_commits h
  obtain ⟨s₂, h₂, h⟩ := of_commits h
  obtain ⟨s₃, h₃, h⟩ := of_commits h
  obtain ⟨s₄, h₄, h⟩ := of_commits h
  have hother : ¬(Op.updateExchangeRate "EUR" (day 3 6) 130000000).OnPayment .sales 21 := by
    rintro (e | e | e) <;> cases e
  have hrun : PaidRun .sales 21 (fun docId => docId = 15) s s₃ (s.db.newEntries s₁.db ++ s₁.db.newEntries s₂.db) :=
    .other (.apply (.post h₁) h₂) hother (fun _ _ ht => ht) h₃
  exact ⟨p, s, s₃, s₄, _, of_decide_eq_true h, payment_round_trip hs hp (of_decide_eq_true hdraft) hrun h₄⟩
