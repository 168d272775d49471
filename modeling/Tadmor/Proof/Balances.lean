import Tadmor.Proof.Settlement

/-!
# The balance views

What the views report of a posted invoice or bill is what the allocation counts, and it lies between zero and the
total.
-/

/-! ### Positive totals -/

/-- Every payment has a positive amount, and every posted document a positive total. -/
structure PositiveOk (db : DB) : Prop where
  payments : ∀ k p, db.payments.find? k = some p → 0 < p.amount
  docs : ∀ k d, db.docs.find? k = some d → d.status = .posted → 0 < d.total

theorem PositiveOk.of_same {db db' : DB} (h : PositiveOk db) (hd : db'.docs = db.docs)
    (hp : db'.payments = db.payments) : PositiveOk db' := ⟨hp ▸ h.payments, hd ▸ h.docs⟩

theorem PositiveOk.update_doc {db db' : DB} (h : PositiveOk db) {id : ℕ} {d : Doc} {f : Doc → Doc}
    (hf : ∀ d, (f d).id = d.id) (hd : db.docs.find? id = some d) (hdocs : db'.docs = db.docs.update [id] f hf)
    (hp : db'.payments = db.payments) (ht : (f d).status = .posted → 0 < (f d).total) : PositiveOk db' := by
  refine ⟨hp ▸ h.payments, fun k x hx => ?_⟩
  rw [hdocs, Table.find?_update_singleton hf hd] at hx
  rcases hx with ⟨-, rfl⟩ | ⟨-, hx⟩
  · exact ht
  · exact h.docs k x hx

theorem PositiveOk.update_payment {db db' : DB} (h : PositiveOk db) {id : ℕ} {p : Payment} {f : Payment → Payment}
    (hf : ∀ p, (f p).id = p.id) (hp : db.payments.find? id = some p)
    (hps : db'.payments = db.payments.update [id] f hf) (hd : db'.docs = db.docs) (ht : (f p).amount = p.amount) :
    PositiveOk db' := by
  refine ⟨fun k x hx => ?_, hd ▸ h.docs⟩
  rw [hps, Table.find?_update_singleton hf hp] at hx
  rcases hx with ⟨-, rfl⟩ | ⟨-, hx⟩
  · exact ht ▸ h.payments id p hp
  · exact h.payments k x hx

theorem Effect.positiveOk {lo : ℕ} {op : Op} {db db' : DB} (h : Effect lo op db db') (hp : PositiveOk db) :
    PositiveOk db' := by
  cases h with
  | outside h => exact hp.of_same h.docs h.payments
  | docEdit id h =>
    refine ⟨by rw [h.eq]; exact hp.payments, fun k d hd hs => ?_⟩
    by_cases hk : k = id
    · exact absurd hs (h.new d (hk ▸ hd))
    · exact hp.docs k d (h.others k hk ▸ hd) hs
  | paymentEdit id h =>
    refine ⟨fun k p hf => ?_, by rw [h.eq]; exact hp.docs⟩
    by_cases hk : k = id
    · exact h.amount p (hk ▸ hf)
    · exact hp.payments k p (h.others k hk ▸ hf)
  | movementEdit h => exact hp.of_same (by rw [h.eq]) (by rw [h.eq])
  | postDoc kind id hd hs ht hw =>
    exact hp.update_doc (by intro; rfl) (docOf_eq_some.1 hd).1 rfl (by rw [hw.eq]) fun _ => ht
  | postPayment side id hf hs ht hw =>
    exact hp.update_payment (by intro; rfl) (paymentOf_eq_some.1 hf).1 rfl (by rw [hw.eq]) rfl
  | postMovement id hm hj hw => exact hp.of_same (by rw [hw.eq]) (by rw [hw.eq])
  | autoApply side settler id n hn hc hfree hfx hch => exact hp.of_same (by rw [hfx.eq]) (by rw [hfx.eq])
  | unpostDoc hd hs hj happs hr =>
    exact hp.update_doc (by intro; rfl) (docOf_eq_some.1 hd).1 rfl (by rw [hr.wrote.eq]) (by simp [Doc.unposted])
  | unpostPayment hf hs hj hr =>
    exact hp.update_payment (by intro; rfl) (paymentOf_eq_some.1 hf).1 rfl (by rw [hr.eq]) rfl
  | unpostMovement hm hj hr => exact hp.of_same (by rw [hr.wrote.eq]) (by rw [hr.wrote.eq])
  | closeEmpty id hopen h => exact hp.of_same (by rw [h.eq]) (by rw [h.eq])
  | closeYear id hopen hw he h => exact hp.of_same (by rw [h.eq, hw.eq]) (by rw [h.eq, hw.eq])
  | reopenYear id hc hmid hlink hr => exact hp.of_same (by rw [hr.wrote.eq, hmid]) (by rw [hr.wrote.eq, hmid])

theorem Reachable.positiveOk {s : Store DB} (h : Reachable s) : PositiveOk s.db :=
  h.of_effects ⟨fun _ _ h => absurd h Table.find?_empty_ne, fun _ _ h => absurd h Table.find?_empty_ne⟩ fun _ _ _ _ hi he => he.positiveOk hi

/-! ### The two notions of settled -/

section settled

variable {db : DB} (h : SettledOk db)
include h

/-- An application to an invoice is of the invoice's side and counts for the settlers of its kind. -/
theorem SettledOk.applied_eq {side : Side} {d : Doc} (hd : d ∈ db.docs) (hk : d.kind = side.invoice) {a : Application}
    (ha : a ∈ db.applications) (hid : a.docId = d.id) :
    a.side = side ∧ ∃ s, db.settlerOf side a.settler a.settlerId = some s ∧ s.status = .posted := by
  obtain ⟨s, d', hsd⟩ := h.settles a ha
  obtain ⟨hf, hk'⟩ := docOf_eq_some.1 hsd.doc
  rw [hid] at hf
  obtain rfl := Option.some.inj ((Table.find?_key hd).symm.trans hf)
  have hside := side_of_invoice (hk'.symm.trans hk)
  exact ⟨hside, s, hside ▸ hsd.settler, hsd.settlerPosted⟩

/-- The applications that drive the allocation are those that the views count. -/
theorem SettledOk.amountSettled_eq {side : Side} {d : Doc} (hd : d ∈ db.docs) (hk : d.kind = side.invoice) :
    db.amountSettled d.id = (db.invoiceBalance side d).amountApplied := by
  refine sum_filter_or fun a ha => ?_
  by_cases hid : a.docId = d.id
  · obtain ⟨hside, s, hs, hp⟩ := h.applied_eq hd hk ha hid
    cases hset : a.settler with
    | payment =>
      rw [hset] at hs
      simp [hid, hside, hs, hp]
    | creditNote =>
      rw [hset] at hs
      simp [hid, hside, hs, hp]
  · simp [hid]

theorem SettledOk.amountSettled_nonneg (id : ℕ) : 0 ≤ db.amountSettled id := by
  refine List.sum_nonneg fun x hx => ?_
  obtain ⟨a, ha, rfl⟩ := List.mem_map.1 hx
  exact (h.positive a (List.mem_of_mem_filter ha)).le

theorem SettledOk.amountSettled_eq_zero {d : Doc} (hd : d ∈ db.docs) (hs : d.status ≠ .posted) :
    db.amountSettled d.id = 0 := by
  refine sum_filter_eq_zero fun a ha => ?_
  have hid : ∀ x, db.docs.find? d.id = some x → x.status ≠ .posted := fun x hx => by
    rwa [← Option.some.inj ((Table.find?_key hd).symm.trans hx)]
  simpa using h.not_mem_doc hid ha

theorem SettledOk.note_eq_zero {d : Doc} (hd : d ∈ db.docs) (hs : d.status ≠ .posted) :
    db.amountApplied .creditNote d.id = 0 := by
  refine sum_filter_eq_zero fun a ha => ?_
  have hid : ∀ x, db.docs.find? d.id = some x → x.status ≠ .posted := fun x hx => by
    rwa [← Option.some.inj ((Table.find?_key hd).symm.trans hx)]
  simpa using h.not_mem_creditNote hid ha

theorem SettledOk.payment_eq_zero {p : Payment} (hp : p ∈ db.payments) (hs : p.status ≠ .posted) :
    db.amountApplied .payment p.id = 0 := by
  refine sum_filter_eq_zero fun a ha => ?_
  have hid : ∀ x, db.payments.find? p.id = some x → x.status ≠ .posted := fun x hx => by
    rwa [← Option.some.inj ((Table.find?_key hp).symm.trans hx)]
  simpa using h.not_mem_payment hid ha

theorem SettledOk.settled_le {d : Doc} (hd : d ∈ db.docs) (hs : d.status = .posted) :
    db.amountSettled d.id ≤ d.total :=
  h.doc d.kind d.id d (docOf_eq_some.2 ⟨Table.find?_key hd, rfl⟩) hs

theorem SettledOk.note_le {side : Side} {d : Doc} (hd : d ∈ db.docs) (hk : d.kind = side.creditNote)
    (hs : d.status = .posted) : db.amountApplied .creditNote d.id ≤ d.total :=
  h.settler side .creditNote d.id d.toSettler (settlerOf_creditNote.2 ⟨d, docOf_eq_some.2 ⟨Table.find?_key hd, hk⟩, rfl⟩) hs

theorem SettledOk.payment_le (hpos : PositiveOk db) {p : Payment} (hp : p ∈ db.payments) :
    db.amountApplied .payment p.id ≤ p.amount := by
  have hf : db.payments.find? p.id = some p := Table.find?_key hp
  by_cases hs : p.status = .posted
  · exact h.settler p.side .payment p.id p.toSettler (settlerOf_payment.2 ⟨p, paymentOf_eq_some.2 ⟨hf, rfl⟩, rfl⟩) hs
  · rw [h.payment_eq_zero hp hs]
    exact (hpos.payments _ p hf).le

end settled

/-- The balance is what the total leaves. -/
theorem invoiceBalance_balance (db : DB) (side : Side) (d : Doc) :
    (db.invoiceBalance side d).balance = d.total - (db.invoiceBalance side d).amountApplied := by
  simp only [DB.invoiceBalance]
  omega

theorem paymentStatus_paid {db : DB} {side : Side} {d : Doc} (hs : d.status = .posted) (ht : 0 < d.total)
    (hb : 0 ≤ (db.invoiceBalance side d).balance) :
    (db.invoiceBalance side d).paymentStatus = .paid ↔ (db.invoiceBalance side d).balance = 0 := by
  simp only [DB.invoiceBalance, hs, ht, true_and, if_neg (show DocStatus.posted ≠ .void by decide)] at hb ⊢
  split
  · rename_i hle
    exact ⟨fun _ => le_antisymm hle hb, fun _ => rfl⟩
  · rename_i hle
    refine ⟨fun h => ?_, fun h => absurd h.le hle⟩
    split at h <;> cases h

/-- What settlement promises of a state. -/
structure DB.Settled (db : DB) : Prop where
  positive : ∀ a ∈ db.applications, 0 < a.amountApplied
  ends : ∀ a ∈ db.applications, ∃ s d, db.Settles a s d
  document : ∀ d ∈ db.docs, if d.status = .posted then db.amountSettled d.id ≤ d.total else db.amountSettled d.id = 0
  payment : ∀ p ∈ db.payments, db.amountApplied .payment p.id ≤ p.amount
  note : ∀ side : Side, ∀ d ∈ db.docs, d.kind = side.creditNote →
    if d.status = .posted then db.amountApplied .creditNote d.id ≤ d.total else db.amountApplied .creditNote d.id = 0
  agree : ∀ side : Side, ∀ d ∈ db.docs, d.kind = side.invoice →
    db.amountSettled d.id = (db.invoiceBalance side d).amountApplied
  balance : ∀ side : Side, ∀ d ∈ db.docs, d.kind = side.invoice → d.status = .posted →
    0 ≤ (db.invoiceBalance side d).balance ∧ (db.invoiceBalance side d).balance ≤ d.total ∧
      ((db.invoiceBalance side d).paymentStatus = .paid ↔ (db.invoiceBalance side d).balance = 0)
  unapplied : ∀ p ∈ db.payments, 0 ≤ db.unapplied p
  noteUnapplied : ∀ side : Side, ∀ d ∈ db.docs, d.kind = side.creditNote → d.status = .posted →
    0 ≤ (db.creditNoteBalance d).balance

theorem settlement_invariant {s : Store DB} (h : Reachable s) : s.db.Settled := by
  have hset := h.settledOk
  have hpos := h.positiveOk
  refine ⟨hset.positive, hset.settles, fun d hd => ?_, fun p hp => hset.payment_le hpos hp, fun side d hd hk => ?_,
    fun side d hd hk => hset.amountSettled_eq hd hk, fun side d hd hk hs => ?_, fun p hp => ?_,
    fun side d hd hk hs => ?_⟩
  · split
    · exact hset.settled_le hd ‹_›
    · exact hset.amountSettled_eq_zero hd ‹_›
  · split
    · exact hset.note_le hd hk ‹_›
    · exact hset.note_eq_zero hd ‹_›
  · have hle := hset.settled_le hd hs
    have hnn := hset.amountSettled_nonneg d.id
    have hbal := invoiceBalance_balance s.db side d
    rw [hset.amountSettled_eq hd hk] at hle hnn
    have hb : 0 ≤ (s.db.invoiceBalance side d).balance := by omega
    exact ⟨hb, by omega, paymentStatus_paid hs (hpos.docs _ d (Table.find?_key hd) hs) hb⟩
  · exact sub_nonneg.2 (hset.payment_le hpos hp)
  · exact sub_nonneg.2 (hset.note_le hd hk hs)

/-- A payment of 60 dollars applied to an invoice of 100 dollars. -/
theorem settlement_invariant_partly_paid :
    ∃ s : Store DB, (s.db.docs.rows.map fun d => (s.db.invoiceBalance .sales d).balance) = [dollars 40] ∧
      s.db.Settled := by
  obtain ⟨s, hs, hp⟩ := exists_reachable
    (opening ++ [.postDoc .salesInvoice 15, .createPayment .sales (paymentInput 60), .postPayment .sales 21,
      .autoApply .sales .payment 21])
    (p := fun s => (s.db.docs.rows.map fun d => (s.db.invoiceBalance .sales d).balance) = [dollars 40])
    (by decide +kernel)
  exact ⟨s, of_decide_eq_true hp, settlement_invariant hs⟩

/-- A line of a draft note may have a negative quantity, and then nothing is left to apply. -/
theorem draft_note_unapplied_negative :
    ¬∀ s : Store DB, Reachable s → ∀ side : Side, ∀ d ∈ s.db.docs, d.kind = side.creditNote →
      0 ≤ (s.db.creditNoteBalance d).balance := by
  obtain ⟨s, hs, hp⟩ := exists_reachable
    (opening ++ [.createDoc .salesCreditNote { invoiceInput "C1" 0 with
      lines := [{ accountId := some 8, quantity := -10 ^ 4, unitPrice := dollars 50 }] }])
    (p := fun s => s.db.docs.rows.any fun d => d.kind = .salesCreditNote && (s.db.creditNoteBalance d).balance < 0)
    (by decide +kernel)
  intro hall
  obtain ⟨d, hd, hneg⟩ := List.any_eq_true.1 hp
  simp only [Bool.and_eq_true, decide_eq_true_eq] at hneg
  exact absurd (hall s hs .sales d hd hneg.1) (not_le.2 hneg.2)
