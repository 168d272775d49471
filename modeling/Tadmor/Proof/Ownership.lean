import Tadmor.Proof.Settlement
import Tadmor.Theory.Book

/-!
# Who owns an entry

The journal with its links is a book: posting adds an entry and links it, unposting reverses the linked entry.
Every effect is a run of such steps, so the book of a reachable state is sound.
-/

/-! ### Status and link -/

/-- A document or payment is posted exactly when it has an entry; orders are never posted. -/
structure LinkOk (db : DB) : Prop where
  docs : ∀ k d, db.docs.find? k = some d → (d.status = .posted ↔ d.journalEntryId.isSome = true)
  kinds : ∀ k d, db.docs.find? k = some d → d.status = .posted → d.kind.isOrder = false
  payments : ∀ k p, db.payments.find? k = some p → (p.status = .posted ↔ p.journalEntryId.isSome = true)

theorem LinkOk.of_same {db db' : DB} (h : LinkOk db) (hd : db'.docs = db.docs) (hp : db'.payments = db.payments) :
    LinkOk db' := ⟨hd ▸ h.docs, hd ▸ h.kinds, hp ▸ h.payments⟩

theorem LinkOk.none_of_not_posted {db : DB} (h : LinkOk db) {k : ℕ} {d : Doc} (hd : db.docs.find? k = some d)
    (hs : d.status ≠ .posted) : d.journalEntryId = none := by
  have := mt (h.docs k d hd).2 hs
  simpa using this

theorem LinkOk.payment_none {db : DB} (h : LinkOk db) {k : ℕ} {p : Payment} (hp : db.payments.find? k = some p)
    (hs : p.status ≠ .posted) : p.journalEntryId = none := by
  have := mt (h.payments k p hp).2 hs
  simpa using this

/-- The edited document has no entry, before and after. -/
theorem DocEdit.link_eq {id : ℕ} {db db' : DB} (h : DocEdit id db db') (hl : LinkOk db) (k : ℕ) :
    (db'.docs.find? k).bind (·.journalEntryId) = (db.docs.find? k).bind (·.journalEntryId) := by
  by_cases hk : k = id
  · subst hk
    have hold : (db.docs.find? k).bind (·.journalEntryId) = none := by
      cases hd : db.docs.find? k with
      | none => rfl
      | some d => exact hl.none_of_not_posted hd (h.old d hd)
    rw [hold]
    cases hd : db'.docs.find? k with
    | none => rfl
    | some d =>
      rw [Option.bind_some, Option.eq_none_iff_forall_ne_some]
      intro je hje
      have := h.link d je hd hje
      rw [hold] at this
      cases this
  · rw [h.others k hk]

theorem PaymentEdit.link_eq {id : ℕ} {db db' : DB} (h : PaymentEdit id db db') (hl : LinkOk db) (k : ℕ) :
    (db'.payments.find? k).bind (·.journalEntryId) = (db.payments.find? k).bind (·.journalEntryId) := by
  by_cases hk : k = id
  · subst hk
    have hold : (db.payments.find? k).bind (·.journalEntryId) = none := by
      cases hp : db.payments.find? k with
      | none => rfl
      | some p => exact hl.payment_none hp (h.old p hp)
    rw [hold]
    cases hp : db'.payments.find? k with
    | none => rfl
    | some p =>
      rw [Option.bind_some, Option.eq_none_iff_forall_ne_some]
      intro je hje
      have := h.link p je hp hje
      rw [hold] at this
      cases this
  · rw [h.others k hk]

theorem DocEdit.linkOk {id : ℕ} {db db' : DB} (h : DocEdit id db db') (hl : LinkOk db) : LinkOk db' := by
  have hps : db'.payments = db.payments := by rw [h.eq]
  refine ⟨fun k d hd => ?_, fun k d hd hs => ?_, hps ▸ hl.payments⟩
  · by_cases hk : k = id
    · subst hk
      have hnone : d.journalEntryId = none := by
        have := h.link_eq hl k
        rw [hd, Option.bind_some] at this
        rw [this]
        cases hd₀ : db.docs.find? k with
        | none => rfl
        | some d₀ => exact hl.none_of_not_posted hd₀ (h.old d₀ hd₀)
      simp [hnone, h.new d hd]
    · exact hl.docs k d (h.others k hk ▸ hd)
  · by_cases hk : k = id
    · subst hk
      exact absurd hs (h.new d hd)
    · exact hl.kinds k d (h.others k hk ▸ hd) hs

theorem PaymentEdit.linkOk {id : ℕ} {db db' : DB} (h : PaymentEdit id db db') (hl : LinkOk db) : LinkOk db' := by
  have hds : db'.docs = db.docs := by rw [h.eq]
  refine ⟨hds ▸ hl.docs, hds ▸ hl.kinds, fun k p hp => ?_⟩
  by_cases hk : k = id
  · subst hk
    have hnone : p.journalEntryId = none := by
      have := h.link_eq hl k
      rw [hp, Option.bind_some] at this
      rw [this]
      cases hp₀ : db.payments.find? k with
      | none => rfl
      | some p₀ => exact hl.payment_none hp₀ (h.old p₀ hp₀)
    simp [hnone, h.new p hp]
  · exact hl.payments k p (h.others k hk ▸ hp)

/-- A change of one document that keeps status and link in step. -/
theorem LinkOk.update_doc {db db' : DB} (h : LinkOk db) {id : ℕ} {d : Doc} {f : Doc → Doc} (hf : ∀ d, (f d).id = d.id)
    (hd : db.docs.find? id = some d) (hdocs : db'.docs = db.docs.update [id] f hf)
    (hp : db'.payments = db.payments) (hs : (f d).status = .posted ↔ (f d).journalEntryId.isSome = true)
    (hk : (f d).status = .posted → (f d).kind.isOrder = false) : LinkOk db' := by
  refine ⟨fun k x hx => ?_, fun k x hx => ?_, hp ▸ h.payments⟩
  · rw [hdocs, Table.find?_update_singleton hf hd] at hx
    rcases hx with ⟨-, rfl⟩ | ⟨-, hx⟩
    · exact hs
    · exact h.docs k x hx
  · rw [hdocs, Table.find?_update_singleton hf hd] at hx
    rcases hx with ⟨-, rfl⟩ | ⟨-, hx⟩
    · exact hk
    · exact h.kinds k x hx

theorem LinkOk.update_payment {db db' : DB} (h : LinkOk db) {id : ℕ} {p : Payment} {f : Payment → Payment}
    (hf : ∀ p, (f p).id = p.id) (hp : db.payments.find? id = some p)
    (hps : db'.payments = db.payments.update [id] f hf) (hd : db'.docs = db.docs)
    (hs : (f p).status = .posted ↔ (f p).journalEntryId.isSome = true) : LinkOk db' := by
  refine ⟨hd ▸ h.docs, hd ▸ h.kinds, fun k x hx => ?_⟩
  rw [hps, Table.find?_update_singleton hf hp] at hx
  rcases hx with ⟨-, rfl⟩ | ⟨-, hx⟩
  · exact hs
  · exact h.payments k x hx

theorem PostedKind.not_isOrder (kind : PostedKind) : kind.spec.kind.isOrder = false := by
  cases kind <;> rfl

theorem Effect.linkOk {lo : ℕ} {op : Op} {db db' : DB} (h : Effect lo op db db') (hl : LinkOk db) : LinkOk db' := by
  cases h with
  | outside h => exact hl.of_same h.docs h.payments
  | docEdit id h => exact h.linkOk hl
  | paymentEdit id h => exact h.linkOk hl
  | movementEdit h => exact hl.of_same (by rw [h.eq]) (by rw [h.eq])
  | postDoc kind id hd hs ht hw =>
    obtain ⟨hd, hk⟩ := docOf_eq_some.1 hd
    exact hl.update_doc (by intro; rfl) hd rfl (by rw [hw.eq]) (by simp [Doc.posted]) fun _ => hk ▸ kind.not_isOrder
  | postPayment side id hp hs ht hw =>
    exact hl.update_payment (by intro; rfl) (paymentOf_eq_some.1 hp).1 rfl (by rw [hw.eq]) (by simp [Payment.posted])
  | postMovement id hm hj hw => exact hl.of_same (by rw [hw.eq]) (by rw [hw.eq])
  | autoApply side settler id n hn hc hfree hfx hch => exact hl.of_same (by rw [hfx.eq]) (by rw [hfx.eq])
  | unpostDoc hd hs hj happs hr =>
    exact hl.update_doc (by intro; rfl) (docOf_eq_some.1 hd).1 rfl (by rw [hr.wrote.eq]) (by simp [Doc.unposted])
      (by simp [Doc.unposted])
  | unpostPayment hp hs hj hr =>
    exact hl.update_payment (by intro; rfl) (paymentOf_eq_some.1 hp).1 rfl (by rw [hr.eq]) (by simp [Payment.unposted])
  | unpostMovement hm hj hr => exact hl.of_same (by rw [hr.wrote.eq]) (by rw [hr.wrote.eq])
  | closeEmpty id hopen h => exact hl.of_same (by rw [h.eq]) (by rw [h.eq])
  | closeYear id hopen hw he h => exact hl.of_same (by rw [h.eq, hw.eq]) (by rw [h.eq, hw.eq])
  | reopenYear id hc hmid hlink hr => exact hl.of_same (by rw [hr.wrote.eq, hmid]) (by rw [hr.wrote.eq, hmid])

theorem Reachable.linkOk {s : Store DB} (h : Reachable s) : LinkOk s.db :=
  h.of_effects ⟨fun _ _ h => absurd h Table.find?_empty_ne, fun _ _ h => absurd h Table.find?_empty_ne,
    fun _ _ h => absurd h Table.find?_empty_ne⟩ fun _ _ _ _ hi he => he.linkOk hi

/-! ### The book of a database -/

/-- What can stand behind an entry. -/
inductive Owner where
  | doc (id : ℕ)
  | payment (id : ℕ)
  | movement (id : ℕ)
  | application (id : ℕ)
  | year (id : ℕ)
deriving DecidableEq

namespace DB

/-- The entry an owner links. -/
def link (db : DB) : Owner → Option ℕ
  | .doc id => (db.docs.find? id).bind (·.journalEntryId)
  | .payment id => (db.payments.find? id).bind (·.journalEntryId)
  | .movement id => (db.movements.find? id).bind (·.journalEntryId)
  | .application id => (db.applications.find? id).bind (·.fxJournalEntryId)
  | .year id => db.closingOf id

/-- Which entries there are, and what they reverse. -/
def reversals (db : DB) (je : ℕ) : Option (Option ℕ) := (db.entries.find? je).map (·.reversesEntryId)

def book (db : DB) : Book Owner ℕ := ⟨db.reversals, db.link⟩

theorem link_congr {db : DB} {L : Owner → Option ℕ}
    (hd : ∀ k, (db.docs.find? k).bind (·.journalEntryId) = L (.doc k))
    (hp : ∀ k, (db.payments.find? k).bind (·.journalEntryId) = L (.payment k))
    (hm : ∀ k, (db.movements.find? k).bind (·.journalEntryId) = L (.movement k))
    (ha : ∀ k, (db.applications.find? k).bind (·.fxJournalEntryId) = L (.application k))
    (hy : ∀ k, db.closingOf k = L (.year k)) : db.link = L := by
  funext o
  cases o with
  | doc k => exact hd k
  | payment k => exact hp k
  | movement k => exact hm k
  | application k => exact ha k
  | year k => exact hy k

end DB

theorem reversals_insert {db mid : DB} {e : JournalEntry} (hfree : db.entries.Free e.id)
    (hm : mid.entries = db.entries.insert e) :
    mid.reversals = Function.update db.reversals e.id (some e.reversesEntryId) := by
  funext k
  unfold DB.reversals
  rw [hm, Table.find?_insert hfree]
  by_cases hk : k = e.id
  · subst hk
    simp [Keyed.key]
  · simp [Keyed.key, hk, Ne.symm hk]

theorem reversals_free {db : DB} {je : ℕ} (h : db.entries.Free je) : db.reversals je = none := by
  rw [DB.reversals, Table.free_iff_find?.1 h]
  rfl

section steps

variable {lo : ℕ} {db mid db' : DB} {e r : JournalEntry} {rows : List JournalLine} {o : Owner}

/-- Writing an entry and linking it is a post. -/
theorem book_post (hw : Wrote lo db mid e rows) (he : e.reversesEntryId = none) (ho : db.link o = none)
    (hent : db'.entries = mid.entries) (hlink : db'.link = Function.update db.link o (some e.id)) :
    Book.Steps db.book db'.book := by
  have hrev : db'.reversals = Function.update db.reversals e.id (some none) := by
    rw [reversals_insert hw.free (hent.trans (by rw [hw.eq])), he]
  have hbook : db'.book = db.book.post o e.id := by
    rw [DB.book, hrev, hlink]
    rfl
  rw [hbook]
  exact .single (.post (reversals_free hw.free) ho)

/-- Reversing the entry that an owner links, and removing the link, is a reversal. -/
theorem book_reverse (hr : Reversed lo db mid e r rows) (ho : db.link o = some e.id) (hent : db'.entries = mid.entries)
    (hlink : db'.link = Function.update db.link o none) : Book.Steps db.book db'.book := by
  have hw := hr.wrote
  have hrev : db'.reversals = Function.update db.reversals r.id (some (some e.id)) := by
    rw [reversals_insert hw.free (hent.trans (by rw [hw.eq])), hr.reversal]
    rfl
  have hbook : db'.book = db.book.reverse o e.id r.id := by
    rw [DB.book, hrev, hlink]
    rfl
  rw [hbook]
  exact .single (.reverse ho (reversals_free hw.free))

theorem book_same (hent : db'.entries = db.entries) (hlink : db'.link = db.link) :
    Book.Steps db.book db'.book := by
  have hbook : db'.book = db.book := by
    unfold DB.book
    rw [hlink]
    unfold DB.reversals
    rw [hent]
  rw [hbook]

theorem closingOf_congr (h : db'.years = db.years) (k : ℕ) : db'.closingOf k = db.closingOf k := by
  unfold DB.closingOf
  rw [h]

end steps

/-! ### Each effect is a run of steps -/

/-- The link of a row after one row of a table was updated. -/
theorem bind_find?_update {α : Type} [Keyed α ℕ] {t : Table α} {id : ℕ} {a : α} {f : α → α} {g : α → Option ℕ}
    (h : t.find? id = some a) (k : ℕ) (hf : ∀ a, Keyed.key (f a) = Keyed.key a := by intro; rfl) :
    ((t.update [id] f hf).find? k).bind g = if k = id then g (f a) else (t.find? k).bind g := by
  split
  · rename_i hk
    rw [hk, Table.find?_update_self hf h, Option.bind_some]
  · rename_i hk
    rw [Table.find?_update_of_notMem hf (by simpa using hk)]

theorem update_apply_of {α β : Type} [DecidableEq α] {f : α → β} {a x : α} {b : β} :
    Function.update f a b x = if x = a then b else f x := by
  by_cases h : x = a
  · simp [h]
  · simp [h]

theorem FxPosted.steps {lo : ℕ} {own : JournalEntry → Application → Prop} {db db' : DB} (h : FxPosted lo own db db') :
    Book.Steps db.book db'.book := by
  induction h with
  | nil db => exact .refl
  | @cons db mid db' e rows a hw he ha hfx _ _ _ ih =>
    refine Relation.ReflTransGen.trans ?_ ih
    refine book_post (o := .application a.id) hw he ?_ rfl ?_
    · show (db.applications.find? a.id).bind _ = _
      rw [ha]
      exact hfx
    · refine DB.link_congr (fun k => ?_) (fun k => ?_) (fun k => ?_) (fun k => ?_) fun k => ?_
      · rw [hw.eq]; rfl
      · rw [hw.eq]; rfl
      · rw [hw.eq]; rfl
      · refine (bind_find?_update ha k).trans ?_
        rw [update_apply_of]
        simp only [Owner.application.injEq]
        rfl
      · exact closingOf_congr (by rw [hw.eq]) k

/-- Reversing the entries that the distinct owners `os` link, one after another. -/
theorem ReversedAll.steps {lo : ℕ} {es : List ℕ} {db db' : DB} (h : ReversedAll lo es db db') {os : List Owner}
    {L : Owner → Option ℕ} (hos : os.map L = es.map some) (hn : os.Nodup) :
    Book.Steps ⟨db.reversals, L⟩ ⟨db'.reversals, fun o => if o ∈ os then none else L o⟩ := by
  induction h generalizing os L with
  | nil db =>
    obtain rfl : os = [] := by simpa using hos
    simpa using Relation.ReflTransGen.refl
  | @cons db mid db' e r rows es h hpost hs ih =>
    obtain ⟨o, os, rfl, ho, hos⟩ := List.map_eq_cons_iff.1 hos
    rw [List.nodup_cons] at hn
    have hw := h.wrote
    have hrev : mid.reversals = Function.update db.reversals r.id (some (some e.id)) := by
      rw [reversals_insert hw.free (by rw [hw.eq]), h.reversal]
      rfl
    have hos' : os.map (Function.update L o none) = es.map some := by
      rw [← hos]
      apply List.map_congr_left
      intro x hx
      rw [Function.update_of_ne]
      exact fun e => hn.1 (e ▸ hx)
    have hlast : (fun x => if x ∈ o :: os then none else L x) =
        fun x => if x ∈ os then none else Function.update L o none x := by
      funext x
      by_cases hx : x = o
      · simp [hx]
      · simp [hx]
    rw [hlast]
    refine .head ?_ (ih hos' hn.2)
    have := Book.Step.reverse (b := ⟨db.reversals, L⟩) ho (reversals_free hw.free)
    rwa [Book.reverse, ← hrev] at this

/-- The owners that unposting a payment takes the links of: the payment and its applications with an entry. -/
def DB.paymentOwners (db : DB) (side : Side) (id : ℕ) : List Owner :=
  .payment id :: (db.applications.rows.filter fun a =>
    ownApplication side id a && a.fxJournalEntryId.isSome).map fun a => .application a.id

theorem map_filterMap_some {α β γ : Type} {p : α → Bool} {f : α → Option β} {g : α → γ} {L : γ → Option β} {l : List α}
    (h : ∀ a ∈ l, L (g a) = f a) :
    ((l.filter fun a => p a && (f a).isSome).map g).map L = ((l.filter p).filterMap f).map some := by
  induction l with
  | nil => rfl
  | cons a l ih =>
    have ih := ih fun b hb => h b (List.mem_cons_of_mem _ hb)
    have ha := h a (List.mem_cons_self ..)
    cases hp : p a with
    | false => simpa [hp] using ih
    | true =>
      cases hf : f a with
      | none => simpa [hp, hf] using ih
      | some b => simpa [hp, hf, ha] using ih

theorem map_link_paymentOwners {db : DB} {side : Side} {id je : ℕ} {p : Payment} (hp : db.paymentOf side id = some p)
    (hj : p.journalEntryId = some je) :
    (db.paymentOwners side id).map db.link = (je :: db.fxEntries side id).map some := by
  rw [DB.paymentOwners, List.map_cons, List.map_cons]
  congr 1
  · show (db.payments.find? id).bind _ = _
    rw [(paymentOf_eq_some.1 hp).1]
    exact hj
  · refine map_filterMap_some fun a ha => ?_
    show (db.applications.find? a.id).bind _ = _
    have : db.applications.find? a.id = some a := Table.find?_key ha
    rw [this]
    rfl

theorem nodup_paymentOwners (db : DB) (side : Side) (id : ℕ) : (db.paymentOwners side id).Nodup := by
  have hids : ((db.applications.rows.filter fun a =>
      ownApplication side id a && a.fxJournalEntryId.isSome).map (·.id)).Nodup :=
    db.applications.nodup.sublist (List.filter_sublist.map _)
  rw [DB.paymentOwners, List.nodup_cons]
  refine ⟨by simp, ?_⟩
  have := hids.map (f := Owner.application) fun a b h => by simpa using h
  rwa [List.map_map] at this

/-- The link of an application after an unpost of its payment. -/
theorem link_erase_applications {db : DB} {side : Side} {id k : ℕ} :
    ((db.applications.erase (db.applications.keysWhere (ownApplication side id))).find? k).bind (·.fxJournalEntryId) =
      if Owner.application k ∈ db.paymentOwners side id then none else db.link (.application k) := by
  have hmem : Owner.application k ∈ db.paymentOwners side id ↔
      ∃ a ∈ db.applications, (ownApplication side id a = true ∧ a.fxJournalEntryId.isSome = true) ∧ a.id = k := by
    simp [DB.paymentOwners, and_assoc]
  rw [Table.find?_erase]
  by_cases hk : k ∈ db.applications.keysWhere (ownApplication side id)
  · rw [if_pos hk, Option.bind_none]
    split
    · rfl
    · rename_i hn
      obtain ⟨a, ha, hak⟩ := List.mem_map.1 hk
      obtain ⟨ha, hown⟩ := List.mem_filter.1 ha
      have hf : db.applications.find? k = some a := Table.find?_eq_some.2 ⟨ha, hak⟩
      rw [DB.link, hf, Option.bind_some]
      by_contra hne
      exact hn (hmem.2 ⟨a, ha, ⟨hown, Option.isSome_iff_ne_none.2 fun e => hne e.symm⟩, hak⟩)
  · rw [if_neg hk]
    split
    · rename_i hm
      obtain ⟨a, ha, ⟨hown, -⟩, hak⟩ := hmem.1 hm
      exact absurd (List.mem_map.2 ⟨a, List.mem_filter.2 ⟨ha, hown⟩, hak⟩) hk
    · rfl

theorem link_insert_applications {db : DB} {side : Side} {settler : SettlerKind} {id n : ℕ} {shares : List (ℕ × ℤ)}
    (hfree : db.applications.AllFree (applicationRows side settler id n shares)) (k : ℕ) :
    ((db.applications.insertAll (applicationRows side settler id n shares)).find? k).bind (·.fxJournalEntryId) =
      (db.applications.find? k).bind (·.fxJournalEntryId) := by
  by_cases hk : ∃ a ∈ applicationRows side settler id n shares, a.id = k
  · obtain ⟨a, ha, rfl⟩ := hk
    have hnew : (db.applications.insertAll (applicationRows side settler id n shares)).find? a.id = some a :=
      Table.find?_key ((Table.mem_insertAll hfree).2 (.inr ha))
    have hold : db.applications.find? a.id = none := Table.free_iff_find?.1 (hfree.2 a ha)
    rw [hnew, hold]
    exact (mem_applicationRows ha).2.2.2.1
  · rw [Table.find?_insertAll_of_ne fun a ha e => hk ⟨a, ha, e⟩]

/-- Unposting a payment reverses its entry and those of its applications, which are gone afterwards. -/
theorem unpostPayment_steps {lo : ℕ} {db mid : DB} {side : Side} {id je : ℕ} {p : Payment}
    (hp : db.paymentOf side id = some p) (hj : p.journalEntryId = some je)
    (hr : ReversedAll lo (je :: db.fxEntries side id) db mid) :
    Book.Steps db.book (DB.book { mid with
      applications := db.applications.erase (db.applications.keysWhere (ownApplication side id))
      payments := db.payments.update [id] Payment.unposted fun _ => rfl }) := by
  have hsteps := hr.steps (map_link_paymentOwners hp hj) (nodup_paymentOwners db side id)
  have hlink : DB.link { mid with
      applications := db.applications.erase (db.applications.keysWhere (ownApplication side id))
      payments := db.payments.update [id] Payment.unposted fun _ => rfl } =
      fun o => if o ∈ db.paymentOwners side id then none else db.link o := by
    refine DB.link_congr (fun k => ?_) (fun k => ?_) (fun k => ?_) (fun k => ?_) fun k => ?_
    · rw [if_neg (by simp [DB.paymentOwners]), hr.eq]
      rfl
    · refine (bind_find?_update (paymentOf_eq_some.1 hp).1 k).trans ?_
      simp [DB.paymentOwners]
      rfl
    · rw [if_neg (by simp [DB.paymentOwners]), hr.eq]
      rfl
    · exact link_erase_applications
    · rw [if_neg (by simp [DB.paymentOwners])]
      exact closingOf_congr (by rw [hr.eq]) k
  rw [← hlink] at hsteps
  exact hsteps

/-- The reversal of a closing entry, which is written once the year is open again, as one of the year before. -/
theorem Reversed.before {lo : ℕ} {db mid db' : DB} {e r : JournalEntry} {rows : List JournalLine}
    (h : Reversed lo mid db' e r rows) (hmid : mid = { db with years := mid.years, periods := mid.periods }) :
    Reversed lo db { db' with years := db.years } e r rows := by
  obtain ⟨ys, ps, rfl⟩ : ∃ ys ps, mid = { db with years := ys, periods := ps } := ⟨_, _, hmid⟩
  have hw := h.wrote
  refine ⟨h.old, h.unreversed, h.unmatched, ⟨hw.new, ?_, hw.free, hw.linesFree, hw.own⟩, h.reversal, h.mirror⟩
  exact congrArg (fun d => { d with years := db.years }) hw.eq

/-- Every effect is a run of posts and reversals. -/
theorem Effect.steps {lo : ℕ} {op : Op} {db db' : DB} (h : Effect lo op db db') (hl : LinkOk db)
    (hset : SettledOk db) : Book.Steps db.book db'.book := by
  cases h with
  | outside h =>
    exact book_same h.entries (DB.link_congr (fun k => by rw [h.docs]; rfl) (fun k => by rw [h.payments]; rfl)
      (fun k => by rw [h.movements]; rfl) (fun k => by rw [h.applications]; rfl) h.closing)
  | docEdit id h =>
    have happs := h.apps fun a ha => hset.not_mem_creditNote h.old ha
    exact book_same (by rw [h.eq]) (DB.link_congr (h.link_eq hl) (fun k => by rw [h.eq]; rfl)
      (fun k => by rw [h.eq]; rfl) (fun k => by rw [happs]; rfl) fun k => closingOf_congr (by rw [h.eq]) k)
  | paymentEdit id h =>
    have happs := h.apps fun a ha => hset.not_mem_payment h.old ha
    exact book_same (by rw [h.eq]) (DB.link_congr (fun k => by rw [h.eq]; rfl) (h.link_eq hl)
      (fun k => by rw [h.eq]; rfl) (fun k => by rw [happs]; rfl) fun k => closingOf_congr (by rw [h.eq]) k)
  | movementEdit h =>
    exact book_same (by rw [h.eq]) (DB.link_congr (fun k => by rw [h.eq]; rfl) (fun k => by rw [h.eq]; rfl) h.link
      (fun k => by rw [h.eq]; rfl) fun k => closingOf_congr (by rw [h.eq]) k)
  | postDoc kind id hd hs ht hw he =>
    obtain ⟨hd, -⟩ := docOf_eq_some.1 hd
    refine book_post (o := .doc id) hw he ?_ rfl (DB.link_congr (fun k => ?_) (fun k => by rw [hw.eq]; rfl)
      (fun k => by rw [hw.eq]; rfl) (fun k => by rw [hw.eq]; rfl) fun k => closingOf_congr (by rw [hw.eq]) k)
    · rw [DB.link, hd]
      exact hl.none_of_not_posted hd (by simp [hs])
    · refine (bind_find?_update hd k).trans ?_
      rw [update_apply_of]
      simp only [Owner.doc.injEq]
      rfl
  | postPayment side id hp hs ht hw he =>
    obtain ⟨hp, -⟩ := paymentOf_eq_some.1 hp
    refine book_post (o := .payment id) hw he ?_ rfl (DB.link_congr (fun k => by rw [hw.eq]; rfl) (fun k => ?_)
      (fun k => by rw [hw.eq]; rfl) (fun k => by rw [hw.eq]; rfl) fun k => closingOf_congr (by rw [hw.eq]) k)
    · rw [DB.link, hp]
      exact hl.payment_none hp (by simp [hs])
    · refine (bind_find?_update hp k).trans ?_
      rw [update_apply_of]
      simp only [Owner.payment.injEq]
      rfl
  | postMovement id hm hj hw he =>
    refine book_post (o := .movement id) hw he ?_ rfl (DB.link_congr (fun k => by rw [hw.eq]; rfl)
      (fun k => by rw [hw.eq]; rfl) (fun k => ?_) (fun k => by rw [hw.eq]; rfl)
      fun k => closingOf_congr (by rw [hw.eq]) k)
    · rw [DB.link, hm]
      exact hj
    · refine (bind_find?_update hm k).trans ?_
      rw [update_apply_of]
      simp only [Owner.movement.injEq]
      rfl
  | autoApply side settler id n hn hc hfree hfx hch =>
    have h₁ := hfx.steps
    refine Relation.ReflTransGen.trans ?_ h₁
    refine book_same rfl ?_
    exact DB.link_congr (fun _ => rfl) (fun _ => rfl) (fun _ => rfl) (link_insert_applications hfree) fun _ => rfl
  | @unpostDoc op kind id db mid d e r rows hd hs hj happs hr =>
    obtain ⟨hd, -⟩ := docOf_eq_some.1 hd
    have hw := hr.wrote
    refine book_reverse (o := .doc id) hr ?_ rfl (DB.link_congr (fun k => ?_) (fun k => by rw [hw.eq]; rfl)
      (fun k => by rw [hw.eq]; rfl) (fun k => by rw [hw.eq]; rfl) fun k => closingOf_congr (by rw [hw.eq]) k)
    · rw [DB.link, hd]
      exact hj
    · refine (bind_find?_update hd k).trans ?_
      rw [update_apply_of]
      simp only [Owner.doc.injEq]
      rfl
  | unpostPayment hp hs hj hr => exact unpostPayment_steps hp hj hr
  | @unpostMovement id db mid m e r rows hm hj hr =>
    have hw := hr.wrote
    refine book_reverse (o := .movement id) hr ?_ rfl (DB.link_congr (fun k => by rw [hw.eq]; rfl)
      (fun k => by rw [hw.eq]; rfl) (fun k => ?_) (fun k => by rw [hw.eq]; rfl)
      fun k => closingOf_congr (by rw [hw.eq]) k)
    · rw [DB.link, hm]
      exact hj
    · refine (bind_find?_update hm k).trans ?_
      rw [update_apply_of]
      simp only [Owner.movement.injEq]
      rfl
  | closeEmpty id hopen h =>
    refine book_same (by rw [h.eq]) (DB.link_congr (fun k => by rw [h.eq]; rfl) (fun k => by rw [h.eq]; rfl)
      (fun k => by rw [h.eq]; rfl) (fun k => by rw [h.eq]; rfl) fun k => ?_)
    rw [h.link]
    split
    · rename_i hk
      rw [hk]
      exact hopen.symm
    · rfl
  | closeYear id hopen hw he h =>
    refine book_post (o := .year id) hw he hopen (by rw [h.eq]) (DB.link_congr (fun k => by rw [h.eq, hw.eq]; rfl)
      (fun k => by rw [h.eq, hw.eq]; rfl) (fun k => by rw [h.eq, hw.eq]; rfl) (fun k => by rw [h.eq, hw.eq]; rfl)
      fun k => ?_)
    rw [h.link, update_apply_of, closingOf_congr (show _ = db.years by rw [hw.eq])]
    simp only [Owner.year.injEq]
    rfl
  | @reopenYear op db mid db' id e r rows hc hmid hlink hr =>
    have hw := hr.wrote
    refine book_reverse (o := .year id) (hr.before hmid) hc rfl (DB.link_congr (fun k => by rw [hw.eq, hmid]; rfl)
      (fun k => by rw [hw.eq, hmid]; rfl) (fun k => by rw [hw.eq, hmid]; rfl) (fun k => by rw [hw.eq, hmid]; rfl)
      fun k => ?_)
    rw [closingOf_congr (show _ = mid.years by rw [hw.eq]), hlink, update_apply_of]
    simp only [Owner.year.injEq]
    rfl

theorem Reachable.book_sound {s : Store DB} (h : Reachable s) : s.db.book.Sound := by
  refine h.of_effects (I := fun db => db.book.Sound) ?_ fun s _ _ hr hi he =>
    hi.steps (he.steps hr.linkOk hr.settledOk)
  have hempty : seeded.db.book = ⟨fun _ => none, fun _ => none⟩ := by
    have hlink : seeded.db.link = fun _ => none := by
      funext o
      cases o <;> rfl
    rw [DB.book, hlink]
    rfl
  exact hempty ▸ Book.sound_empty

/-! ### Owners and the classes of entries -/

/-- The owner's row names the entry, and the row is one that owns: a posted invoice, bill or credit note, a posted
payment, a stock movement, an application, or a closed fiscal year. -/
inductive DB.Links (db : DB) : Owner → ℕ → Prop where
  | doc {d : Doc} {e : ℕ} (hd : d ∈ db.docs) (hk : d.kind.isOrder = false) (hs : d.status = .posted)
      (hj : d.journalEntryId = some e) : Links db (.doc d.id) e
  | payment {p : Payment} {e : ℕ} (hp : p ∈ db.payments) (hs : p.status = .posted) (hj : p.journalEntryId = some e) :
      Links db (.payment p.id) e
  | movement {m : StockMovement} {e : ℕ} (hm : m ∈ db.movements) (hj : m.journalEntryId = some e) :
      Links db (.movement m.id) e
  | application {a : Application} {e : ℕ} (ha : a ∈ db.applications) (hj : a.fxJournalEntryId = some e) :
      Links db (.application a.id) e
  | year {y : FiscalYear} {e : ℕ} (hy : y ∈ db.years) (hs : y.status = .closed) (hj : y.closingEntryId = some e) :
      Links db (.year y.id) e

theorem link_eq_some {db : DB} (hl : LinkOk db) {o : Owner} {e : ℕ} : db.link o = some e ↔ db.Links o e := by
  constructor
  · intro h
    cases o with
    | doc k =>
      obtain ⟨d, hd, hj⟩ := Option.bind_eq_some_iff.1 h
      have hs := (hl.docs k d hd).2 (by rw [hj]; rfl)
      obtain ⟨hm, rfl⟩ := Table.find?_eq_some.1 hd
      exact .doc hm (hl.kinds _ d hd hs) hs hj
    | payment k =>
      obtain ⟨p, hp, hj⟩ := Option.bind_eq_some_iff.1 h
      have hs := (hl.payments k p hp).2 (by rw [hj]; rfl)
      obtain ⟨hm, rfl⟩ := Table.find?_eq_some.1 hp
      exact .payment hm hs hj
    | movement k =>
      obtain ⟨m, hf, hj⟩ := Option.bind_eq_some_iff.1 h
      obtain ⟨hm, rfl⟩ := Table.find?_eq_some.1 hf
      exact .movement hm hj
    | application k =>
      obtain ⟨a, hf, hj⟩ := Option.bind_eq_some_iff.1 h
      obtain ⟨ha, rfl⟩ := Table.find?_eq_some.1 hf
      exact .application ha hj
    | year k =>
      obtain ⟨y, hf, hj⟩ := Option.bind_eq_some_iff.1 h
      obtain ⟨hf, hs⟩ := Option.filter_eq_some_iff.1 hf
      obtain ⟨hy, rfl⟩ := Table.find?_eq_some.1 hf
      exact .year hy (by simpa using hs) hj
  · intro h
    cases h with
    | @doc d e hd hk hs hj =>
      have hf : db.docs.find? d.id = some d := Table.find?_key hd
      rw [DB.link, hf]
      exact hj
    | @payment p e hp hs hj =>
      have hf : db.payments.find? p.id = some p := Table.find?_key hp
      rw [DB.link, hf]
      exact hj
    | @movement m e hm hj =>
      have hf : db.movements.find? m.id = some m := Table.find?_key hm
      rw [DB.link, hf]
      exact hj
    | @application a e ha hj =>
      have hf : db.applications.find? a.id = some a := Table.find?_key ha
      rw [DB.link, hf]
      exact hj
    | @year y e hy hs hj =>
      have hf : db.years.find? y.id = some y := Table.find?_key hy
      rw [DB.link, DB.closingOf, hf, Option.filter, if_pos (by simp [hs])]
      exact hj

namespace DB

variable (db : DB)

/-- Not a reversal, not reversed, and linked by exactly one owner. -/
def Live (e : JournalEntry) : Prop :=
  e.reversesEntryId = none ∧ (∀ r ∈ db.entries, r.reversesEntryId ≠ some e.id) ∧ ∃! o, db.Links o e.id

/-- An original that no owner links and exactly one entry reverses. -/
def ReversedOriginal (e : JournalEntry) : Prop :=
  e.reversesEntryId = none ∧ (∀ o, ¬db.Links o e.id) ∧ ∃! r, r ∈ db.entries ∧ r.reversesEntryId = some e.id

/-- The mirror of a reversed original, linked by no owner and reversed by nothing. -/
def ReversalEntry (r : JournalEntry) : Prop :=
  (∃ e ∈ db.entries, db.ReversedOriginal e ∧ db.MirrorOf e r) ∧ (∀ o, ¬db.Links o r.id) ∧
    ∀ x ∈ db.entries, x.reversesEntryId ≠ some r.id

end DB

inductive EntryClass where
  | live
  | reversed
  | reversal
deriving DecidableEq

def DB.HasClass (db : DB) (e : JournalEntry) : EntryClass → Prop
  | .live => db.Live e
  | .reversed => db.ReversedOriginal e
  | .reversal => db.ReversalEntry e

section classes

variable {db : DB}

theorem reversals_eq_some {je : ℕ} {x : Option ℕ} :
    db.reversals je = some x ↔ ∃ e ∈ db.entries, e.id = je ∧ e.reversesEntryId = x := by
  simp only [DB.reversals, Option.map_eq_some_iff, Table.find?_eq_some, and_assoc]
  rfl

theorem reversals_key {e : JournalEntry} (he : e ∈ db.entries) : db.reversals e.id = some e.reversesEntryId :=
  reversals_eq_some.2 ⟨e, he, rfl, rfl⟩

theorem live_of_book (hl : LinkOk db) {e : JournalEntry} (he : e ∈ db.entries) (h : db.book.Live e.id) : db.Live e := by
  obtain ⟨hn, hrev, o, ho, huniq⟩ := h
  refine ⟨?_, fun r hr hre => hrev r.id ?_, o, (link_eq_some hl).1 ho, fun o' ho' => huniq o' ((link_eq_some hl).2 ho')⟩
  · exact Option.some.inj ((reversals_key he).symm.trans hn)
  · exact (reversals_key hr).trans (congrArg some hre)

theorem reversed_of_book (hl : LinkOk db) {e : JournalEntry} (he : e ∈ db.entries) (h : db.book.Reversed e.id) :
    db.ReversedOriginal e := by
  obtain ⟨hn, hlink, k, hk, huniq⟩ := h
  obtain ⟨r, hr, rfl, hre⟩ := reversals_eq_some.1 hk
  refine ⟨?_, fun o ho => hlink o ((link_eq_some hl).2 ho), r, ⟨hr, hre⟩, fun r' ⟨hr', hre'⟩ => ?_⟩
  · exact Option.some.inj ((reversals_key he).symm.trans hn)
  · exact Table.key_inj hr' hr (huniq r'.id ((reversals_key hr').trans (congrArg some hre')))

theorem reversal_of_book (hl : LinkOk db) (hb : db.book.Sound) (hj : JournalOk db) {k : ℕ} {r : JournalEntry}
    (hr : r ∈ db.entries) (h : db.book.Reversal k r.id) : db.ReversalEntry r := by
  obtain ⟨hrk, -, hlink, hrev⟩ := h
  have hre : r.reversesEntryId = some k := Option.some.inj ((reversals_key hr).symm.trans hrk)
  obtain ⟨e, he, rfl, hm⟩ := hj.mirrored r hr k hre
  refine ⟨⟨e, he, reversed_of_book hl he (hb.reversed_of_entry hrk), hm⟩, fun o ho => hlink o ((link_eq_some hl).2 ho),
    fun x hx hxr => hrev x.id ?_⟩
  exact (reversals_key hx).trans (congrArg some hxr)

/-- An entry has one class only. -/
theorem hasClass_unique {e : JournalEntry} {c c' : EntryClass} (h : db.HasClass e c) (h' : db.HasClass e c') :
    c' = c := by
  have live_reversed : db.Live e → ¬db.ReversedOriginal e := fun h h' => by
    obtain ⟨o, ho, -⟩ := h.2.2
    exact h'.2.1 o ho
  have live_reversal : db.Live e → ¬db.ReversalEntry e := fun h h' => by
    obtain ⟨o, ho, -⟩ := h.2.2
    exact h'.2.1 o ho
  have reversed_reversal : db.ReversedOriginal e → ¬db.ReversalEntry e := fun h h' => by
    obtain ⟨x, -, -, hm⟩ := h'.1
    have := hm.reverses
    rw [h.1] at this
    cases this
  cases c with
  | live =>
    cases c' with
    | live => rfl
    | reversed => exact absurd h' (live_reversed h)
    | reversal => exact absurd h' (live_reversal h)
  | reversed =>
    cases c' with
    | live => exact absurd h (live_reversed h')
    | reversed => rfl
    | reversal => exact absurd h' (reversed_reversal h)
  | reversal =>
    cases c' with
    | live => exact absurd h (live_reversal h')
    | reversed => exact absurd h (reversed_reversal h')
    | reversal => rfl

theorem exists_class (hl : LinkOk db) (hb : db.book.Sound) (hj : JournalOk db) {e : JournalEntry}
    (he : e ∈ db.entries) : ∃ c, db.HasClass e c := by
  have hsome : (db.book.entry e.id).isSome := by
    rw [show db.book.entry e.id = _ from reversals_key he]
    rfl
  rcases hb.cases hsome with h | h | ⟨k, h⟩
  · exact ⟨.live, live_of_book hl he h⟩
  · exact ⟨.reversed, reversed_of_book hl he h⟩
  · exact ⟨.reversal, reversal_of_book hl hb hj he h⟩

theorem live_of_links (hl : LinkOk db) (hb : db.book.Sound) {o : Owner} {je : ℕ} (h : db.Links o je) :
    ∃ e ∈ db.entries, e.id = je ∧ db.Live e := by
  have hlive := hb.live_of_link ((link_eq_some hl).2 h)
  obtain ⟨e, he, rfl, -⟩ := reversals_eq_some.1 hlive.1
  exact ⟨e, he, rfl, live_of_book hl he hlive⟩

end classes

/-- Every entry has exactly one class, and a document or payment is posted exactly when it links a live
entry. -/
structure DB.JournalOwned (db : DB) : Prop where
  classes : ∀ e ∈ db.entries, ∃! c, db.HasClass e c
  docs : ∀ d ∈ db.docs, d.status = .posted ↔ ∃ e ∈ db.entries, d.journalEntryId = some e.id ∧ db.Live e
  payments : ∀ p ∈ db.payments, p.status = .posted ↔ ∃ e ∈ db.entries, p.journalEntryId = some e.id ∧ db.Live e

theorem Reachable.journalOwned {s : Store DB} (h : Reachable s) : s.db.JournalOwned := by
  have hl := h.linkOk
  have hb := h.book_sound
  refine ⟨fun e he => ?_, fun d hd => ?_, fun p hp => ?_⟩
  · obtain ⟨c, hc⟩ := exists_class hl hb h.journalOk he
    exact ⟨c, hc, fun c' hc' => hasClass_unique hc hc'⟩
  · have hf : s.db.docs.find? d.id = some d := Table.find?_key hd
    constructor
    · intro hs
      obtain ⟨je, hj⟩ := Option.isSome_iff_exists.1 ((hl.docs _ d hf).1 hs)
      obtain ⟨e, he, rfl, hlive⟩ := live_of_links hl hb (.doc hd (hl.kinds _ d hf hs) hs hj)
      exact ⟨e, he, hj, hlive⟩
    · rintro ⟨e, -, hj, -⟩
      exact (hl.docs _ d hf).2 (by rw [hj]; rfl)
  · have hf : s.db.payments.find? p.id = some p := Table.find?_key hp
    constructor
    · intro hs
      obtain ⟨je, hj⟩ := Option.isSome_iff_exists.1 ((hl.payments _ p hf).1 hs)
      obtain ⟨e, he, rfl, hlive⟩ := live_of_links hl hb (.payment hp hs hj)
      exact ⟨e, he, hj, hlive⟩
    · rintro ⟨e, -, hj, -⟩
      exact (hl.payments _ p hf).2 (by rw [hj]; rfl)

theorem Reachable.grown {s s' : Store DB} (h : Reachable s) (hs : Step s s') : Grown s.db s'.db := by
  obtain ⟨op, gaps, hc⟩ := hs
  exact (commit_effect hc h.fresh).1.journaled.grown

/-- In a reachable state the journal is owned, and no operation changes or removes an entry or a line. -/
theorem journal_ownership {s : Store DB} (h : Reachable s) :
    s.db.JournalOwned ∧ ∀ s', Step s s' →
      s.db.entries.rows <+: s'.db.entries.rows ∧ s.db.lines.rows <+: s'.db.lines.rows := by
  refine ⟨h.journalOwned, fun s' hs => ?_⟩
  obtain ⟨ls, hls, -⟩ := (h.grown hs).lines
  exact ⟨(h.grown hs).entries, ls, hls.symm⟩

/-- An invoice that is posted, unposted and posted again. -/
theorem journal_ownership_reposted : ∃ s : Store DB, s.db.entries.rows.length = 3 ∧ s.db.JournalOwned ∧
    ∀ s', Step s s' → s.db.entries.rows <+: s'.db.entries.rows ∧ s.db.lines.rows <+: s'.db.lines.rows := by
  obtain ⟨s, hs, hlen⟩ := exists_reachable
    (opening ++ [.postDoc .salesInvoice 15, .unpostInvoice .sales 15, .postDoc .salesInvoice 15])
    (p := fun s => s.db.entries.rows.length = 3) (by decide +kernel)
  exact ⟨s, of_decide_eq_true hlen, journal_ownership hs⟩
