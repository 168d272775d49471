import Tadmor.Model.Reports
import Tadmor.Proof.EntryContent
import Tadmor.Proof.Rows
import Tadmor.Proof.RoundTrip

/-!
# Conversions and exchange differences

In a reachable state a line of a posted document's or payment's entry carries its amount converted at the rate of the
entry, the control line of a document apart, which balances the others.  An application between two entries of
different rates has an entry for the difference, and one without an entry has no difference.
-/

/-! ### Definitions -/

/-- The line carries in base what its amount is at the rate. -/
def JournalLine.Converted (rate : ℤ) (l : JournalLine) : Prop := l.net = toBase (l.debit - l.credit) rate

/-- The entry that a document links has converted lines, up to its control line. -/
def DB.DocConverted (db : DB) (d : Doc) : Prop := ∀ je, d.journalEntryId = some je →
  ∀ l ∈ db.linesOf je, l.memo ≠ d.kind.side.controlMemo → l.Converted (db.entryRate je)

def DB.PaymentConverted (db : DB) (p : Payment) : Prop := ∀ je, p.journalEntryId = some je →
  ∀ l ∈ db.linesOf je, l.Converted (db.entryRate je)

def revaluationMemo : String := "Settlement revaluation"

/-- The entry `je` of this date moves `value` to the control account from the one of exchange gains and losses. -/
def DB.Revalues (db : DB) (je : ℕ) (date : Date) (value : ℤ) : Prop :=
  ∃ e ∈ db.entries, e.id = je ∧ e.entryDate = date ∧
    (db.linesOf je).map (fun l => (l.memo, l.net)) = [(revaluationMemo, value), ("Exchange gain (loss)", -value)]

/-- The application of `s` to `d` has an entry for its exchange difference, or there is none. -/
def DB.Exchanged (db : DB) (a : Application) (s : Settler) (d : Doc) : Prop :=
  ∃ diff, db.fxDiff s d a.amountApplied = some diff ∧
    match a.fxJournalEntryId with
    | none => diff = 0
    | some je => db.Revalues je s.date (diff * fxSign a.side)

structure ExchangeOk (db : DB) : Prop where
  docs : ∀ d ∈ db.docs, d.status = .posted → db.DocConverted d
  payments : ∀ p ∈ db.payments, p.status = .posted → db.PaymentConverted p
  applications : ∀ a ∈ db.applications, ∀ s d, db.Settles a s d → db.Exchanged a s d

/-! ### Growth -/

theorem entryRate_of_mem {db : DB} {e : JournalEntry} (he : e ∈ db.entries) : db.entryRate e.id = e.exchangeRate := by
  have hf : db.entries.find? e.id = some e := Table.find?_key he
  rw [DB.entryRate, hf]
  rfl

theorem Grown.entryRate {db db' : DB} (h : Grown db db') {e : JournalEntry} (he : e ∈ db.entries) :
    db'.entryRate e.id = db.entryRate e.id := by
  rw [entryRate_of_mem he, entryRate_of_mem (h.mem he)]

/-- The difference of two entries that are there. -/
theorem fxDiff_eq_some {db : DB} {s : Settler} {d : Doc} {x diff : ℤ} : db.fxDiff s d x = some diff ↔
    ∃ e ∈ db.entries, ∃ e' ∈ db.entries, s.journalEntryId = some e.id ∧ d.journalEntryId = some e'.id ∧
      diff = toBase x e.exchangeRate - toBase x e'.exchangeRate := by
  simp only [DB.fxDiff, Option.bind_eq_some_iff, Option.map_eq_some_iff]
  constructor
  · rintro ⟨e, ⟨je, hje, he⟩, e', ⟨je', hje', he'⟩, rfl⟩
    have hid : e.id = je := Table.key_of_find? he
    have hid' : e'.id = je' := Table.key_of_find? he'
    exact ⟨e, Table.mem_of_find? he, e', Table.mem_of_find? he', hid ▸ hje, hid' ▸ hje', rfl⟩
  · rintro ⟨e, he, e', he', hje, hje', rfl⟩
    exact ⟨e, ⟨e.id, hje, Table.find?_key he⟩, e', ⟨e'.id, hje', Table.find?_key he'⟩, rfl⟩

theorem Grown.fxDiff {db db' : DB} (h : Grown db db') {s : Settler} {d : Doc} {x diff : ℤ}
    (hx : db.fxDiff s d x = some diff) : db'.fxDiff s d x = some diff := by
  obtain ⟨e, he, e', he', hrest⟩ := fxDiff_eq_some.1 hx
  exact fxDiff_eq_some.2 ⟨e, h.mem he, e', h.mem he', hrest⟩

theorem Grown.revalues {db db' : DB} (h : Grown db db') {je : ℕ} {date : Date} {value : ℤ}
    (hr : db.Revalues je date value) : db'.Revalues je date value := by
  obtain ⟨e, he, rfl, hdate, hlines⟩ := hr
  exact ⟨e, h.mem he, rfl, hdate, by rwa [h.linesOf he]⟩

theorem Grown.exchanged {db db' : DB} (h : Grown db db') {a : Application} {s : Settler} {d : Doc}
    (ha : db.Exchanged a s d) : db'.Exchanged a s d := by
  obtain ⟨diff, hdiff, hfx⟩ := ha
  refine ⟨diff, h.fxDiff hdiff, ?_⟩
  cases hje : a.fxJournalEntryId with
  | none =>
    rw [hje] at hfx
    exact hfx
  | some je =>
    rw [hje] at hfx
    exact h.revalues hfx

theorem Grown.docConverted {db db' : DB} (h : Grown db db') {d : Doc} (he : db.DocEntryOk d) (hd : db.DocConverted d) :
    db'.DocConverted d := by
  intro je hje
  obtain ⟨e, hm, rfl, -⟩ := he je hje
  rw [h.linesOf hm, h.entryRate hm]
  exact hd e.id hje

theorem Grown.paymentConverted {db db' : DB} (h : Grown db db') {p : Payment} (he : db.PaymentEntryOk p)
    (hp : db.PaymentConverted p) : db'.PaymentConverted p := by
  intro je hje
  obtain ⟨e, hm, rfl, -⟩ := he je hje
  rw [h.linesOf hm, h.entryRate hm]
  exact hp e.id hje

/-- The two ends of an application have entries. -/
theorem DB.Agrees.exists_fxDiff {db : DB} (h : db.Agrees) {a : Application} {s : Settler} {d : Doc}
    (ha : db.Settles a s d) (x : ℤ) : ∃ diff, db.fxDiff s d x = some diff := by
  obtain ⟨je, hje, e, he, rfl, -⟩ := h.docs d (Table.mem_of_find? (docOf_eq_some.1 ha.doc).1) ha.docPosted
  have hs : ∃ e ∈ db.entries, s.journalEntryId = some e.id := by
    have hsettler := ha.settler
    cases hk : a.settler with
    | payment =>
      rw [hk, settlerOf_payment] at hsettler
      obtain ⟨p, hp, rfl⟩ := hsettler
      obtain ⟨je, hje, e, he, rfl, -⟩ :=
        h.payments p (Table.mem_of_find? (paymentOf_eq_some.1 hp).1) ha.settlerPosted
      exact ⟨e, he, hje⟩
    | creditNote =>
      rw [hk, settlerOf_creditNote] at hsettler
      obtain ⟨n, hn, rfl⟩ := hsettler
      obtain ⟨je, hje, e, he, rfl, -⟩ := h.docs n (Table.mem_of_find? (docOf_eq_some.1 hn).1) ha.settlerPosted
      exact ⟨e, he, hje⟩
  obtain ⟨e', he', hje'⟩ := hs
  exact ⟨_, fxDiff_eq_some.2 ⟨e', he', e, he, hje', hje, rfl⟩⟩

/-! ### What an operation leaves -/

section effect

variable {lo : ℕ} {op : Op} {db db' : DB}

/-- A document that an operation leaves posted was posted, or the operation has posted it. -/
theorem Effect.posted_docs (h : Effect lo op db db') {d : Doc} (hd : d ∈ db'.docs) (hs : d.status = .posted) :
    d ∈ db.docs ∨ ∃ kind x, op = .postDoc kind d.id ∧ db.docOf kind.spec.kind d.id = some x ∧ x.status = .draft := by
  have same : db'.docs = db.docs → d ∈ db.docs ∨ ∃ kind x, op = .postDoc kind d.id ∧
      db.docOf kind.spec.kind d.id = some x ∧ x.status = .draft := fun e => .inl (e ▸ hd)
  cases h with
  | outside h => exact same h.docs
  | docEdit id h =>
    have hf : _ = some d := Table.find?_key hd
    have hne : d.id ≠ id := fun e => h.new d (e ▸ hf) hs
    exact .inl (Table.mem_of_find? ((h.others _ hne).symm.trans hf))
  | paymentEdit id h => exact same (by rw [h.eq])
  | movementEdit h => exact same (by rw [h.eq])
  | postDoc kind id hx hdraft ht hw =>
    rcases (Table.mem_update_singleton (by intro; rfl) (docOf_eq_some.1 hx).1).1 hd with rfl | ⟨-, hm⟩
    · have hid := DB.docOf_id hx
      exact .inr ⟨kind, _, by rw [← hid]; rfl, hid ▸ hx, hdraft⟩
    · exact .inl hm
  | postPayment side id hp hs ht hw => exact same (by rw [hw.eq])
  | postMovement id hm hj hw => exact same (by rw [hw.eq])
  | autoApply side settler id n hn hc hfree hfx hch => exact same (by rw [hfx.eq])
  | unpostDoc hx hx' hj happs hr =>
    rcases (Table.mem_update_singleton (by intro; rfl) (docOf_eq_some.1 hx).1).1 hd with rfl | ⟨-, hm⟩
    · cases hs
    · exact .inl hm
  | unpostPayment hp hs hj hr => exact same (by rw [hr.eq])
  | unpostMovement hm hj hr => exact same (by rw [hr.wrote.eq])
  | closeEmpty id hopen h => exact same (by rw [h.eq])
  | closeYear id hopen hw he h => exact same (by rw [h.eq, hw.eq])
  | reopenYear id hc hmid hlink hr => exact same (by rw [hr.wrote.eq, hmid])

theorem Effect.posted_payments (h : Effect lo op db db') {p : Payment} (hp : p ∈ db'.payments) (hs : p.status = .posted) :
    p ∈ db.payments ∨ ∃ side x, op = .postPayment side p.id ∧ db.paymentOf side p.id = some x ∧ x.status = .draft := by
  have same : db'.payments = db.payments → p ∈ db.payments ∨ ∃ side x, op = .postPayment side p.id ∧
      db.paymentOf side p.id = some x ∧ x.status = .draft := fun e => .inl (e ▸ hp)
  cases h with
  | outside h => exact same h.payments
  | docEdit id h => exact same (by rw [h.eq])
  | paymentEdit id h =>
    have hf : _ = some p := Table.find?_key hp
    have hne : p.id ≠ id := fun e => h.new p (e ▸ hf) hs
    exact .inl (Table.mem_of_find? ((h.others _ hne).symm.trans hf))
  | movementEdit h => exact same (by rw [h.eq])
  | postDoc kind id hx hdraft ht hw => exact same (by rw [hw.eq])
  | postPayment side id hx hdraft ht hw =>
    have hf := (paymentOf_eq_some.1 hx).1
    rcases (Table.mem_update_singleton (by intro; rfl) hf).1 hp with rfl | ⟨-, hm⟩
    · obtain rfl : _ = id := Table.key_of_find? hf
      exact .inr ⟨side, _, rfl, hx, hdraft⟩
    · exact .inl hm
  | postMovement id hm hj hw => exact same (by rw [hw.eq])
  | autoApply side settler id n hn hc hfree hfx hch => exact same (by rw [hfx.eq])
  | unpostDoc hx hx' hj happs hr => exact same (by rw [hr.wrote.eq])
  | unpostPayment hx hx' hj hr =>
    rcases (Table.mem_update_singleton (by intro; rfl) (paymentOf_eq_some.1 hx).1).1 hp with rfl | ⟨-, hm⟩
    · cases hs
    · exact .inl hm
  | unpostMovement hm hj hr => exact same (by rw [hr.wrote.eq])
  | closeEmpty id hopen h => exact same (by rw [h.eq])
  | closeYear id hopen hw he h => exact same (by rw [h.eq, hw.eq])
  | reopenYear id hc hmid hlink hr => exact same (by rw [hr.wrote.eq, hmid])

/-- Only an auto-apply writes applications. -/
theorem Effect.old_applications (h : Effect lo op db db') (hset : SettledOk db) {a : Application}
    (ha : a ∈ db'.applications) : a ∈ db.applications ∨ ∃ side settler id, op = .autoApply side settler id := by
  cases h with
  | outside h => exact .inl (h.applications ▸ ha)
  | docEdit id h =>
    rw [h.apps fun a ha => hset.not_mem_creditNote h.old ha] at ha
    exact .inl ha
  | paymentEdit id h =>
    rw [h.apps fun a ha => hset.not_mem_payment h.old ha] at ha
    exact .inl ha
  | movementEdit h =>
    rw [h.eq] at ha
    exact .inl ha
  | postDoc kind id hx hdraft ht hw =>
    rw [hw.eq] at ha
    exact .inl ha
  | postPayment side id hx hdraft ht hw =>
    rw [hw.eq] at ha
    exact .inl ha
  | postMovement id hm hj hw =>
    rw [hw.eq] at ha
    exact .inl ha
  | autoApply side settler id n hn hc hfree hfx hch => exact .inr ⟨side, settler, id, rfl⟩
  | unpostDoc hx hx' hj happs hr =>
    rw [hr.wrote.eq] at ha
    exact .inl ha
  | unpostPayment hx hx' hj hr => exact .inl (Table.mem_erase_keysWhere.1 ha).1
  | unpostMovement hm hj hr =>
    rw [hr.wrote.eq] at ha
    exact .inl ha
  | closeEmpty id hopen h =>
    rw [h.eq] at ha
    exact .inl ha
  | closeYear id hopen hw he h =>
    rw [h.eq, hw.eq] at ha
    exact .inl ha
  | reopenYear id hc hmid hlink hr =>
    rw [hr.wrote.eq, hmid] at ha
    exact .inl ha

/-- An application that was there has the ends that it had. -/
theorem Effect.settles_back (h : Effect lo op db db') (hset : SettledOk db) {a : Application} {s : Settler} {d : Doc}
    (ha : a ∈ db.applications) (hsd : db'.Settles a s d) : db.Settles a s d := by
  obtain ⟨s₀, d₀, h₀⟩ := hset.settles a ha
  have hd : d₀ = d := by
    obtain ⟨hf, -⟩ := docOf_eq_some.1 hsd.doc
    obtain ⟨hf₀, -⟩ := docOf_eq_some.1 h₀.doc
    have hid : d.id = a.docId := Table.key_of_find? hf
    rcases h.posted_docs (Table.mem_of_find? hf) hsd.docPosted with hm | ⟨kind, x, -, hx, hdraft⟩
    · have hf' : db.docs.find? d.id = some d := Table.find?_key hm
      exact Option.some.inj (hf₀.symm.trans (hid ▸ hf'))
    · rw [hid] at hx
      rw [← docOf_unique h₀.doc hx, h₀.docPosted] at hdraft
      cases hdraft
  have hs : s₀ = s := by
    have hold := h₀.settler
    have hnew := hsd.settler
    cases hk : a.settler with
    | payment =>
      rw [hk, settlerOf_payment] at hold hnew
      obtain ⟨p₀, hp₀, rfl⟩ := hold
      obtain ⟨p, hp, rfl⟩ := hnew
      obtain ⟨hf, -⟩ := paymentOf_eq_some.1 hp
      obtain ⟨hf₀, -⟩ := paymentOf_eq_some.1 hp₀
      have hid : p.id = a.settlerId := Table.key_of_find? hf
      rcases h.posted_payments (Table.mem_of_find? hf) hsd.settlerPosted with hm | ⟨side, x, -, hx, hdraft⟩
      · have hf' : db.payments.find? p.id = some p := Table.find?_key hm
        rw [Option.some.inj (hf₀.symm.trans (hid ▸ hf'))]
      · rw [hid] at hx
        obtain rfl := Option.some.inj (hf₀.symm.trans (paymentOf_eq_some.1 hx).1)
        have hposted : p₀.status = .posted := h₀.settlerPosted
        rw [hdraft] at hposted
        cases hposted
    | creditNote =>
      rw [hk, settlerOf_creditNote] at hold hnew
      obtain ⟨n₀, hn₀, rfl⟩ := hold
      obtain ⟨n, hn, rfl⟩ := hnew
      obtain ⟨hf, -⟩ := docOf_eq_some.1 hn
      obtain ⟨hf₀, -⟩ := docOf_eq_some.1 hn₀
      have hid : n.id = a.settlerId := Table.key_of_find? hf
      rcases h.posted_docs (Table.mem_of_find? hf) hsd.settlerPosted with hm | ⟨kind, x, -, hx, hdraft⟩
      · have hf' : db.docs.find? n.id = some n := Table.find?_key hm
        rw [Option.some.inj (hf₀.symm.trans (hid ▸ hf'))]
      · rw [hid] at hx
        obtain rfl := docOf_unique hn₀ hx
        have hposted : n₀.status = .posted := h₀.settlerPosted
        rw [hdraft] at hposted
        cases hposted
  rwa [← hd, ← hs]

end effect

/-! ### What a posting writes -/

theorem becomes_converted {je : ℕ} {rate : ℤ} {ls : List NewLine} {rows : List JournalLine}
    (h : List.Forall₂ (NewLine.Becomes je) ls rows)
    (hls : ∀ l ∈ ls, l.baseDebit - l.baseCredit = toBase (l.debit - l.credit) rate) :
    ∀ l ∈ rows, l.Converted rate := by
  induction h with
  | nil => exact fun l hl => absurd hl List.not_mem_nil
  | cons hb _ ih =>
    obtain ⟨id, account, -, rfl⟩ := hb
    intro l hl
    rcases List.mem_cons.1 hl with rfl | hl
    · exact hls _ (List.mem_cons_self ..)
    · exact ih (fun l hl => hls l (List.mem_cons_of_mem _ hl)) l hl

theorem detailLines_converted {b : Bool} {rate : ℤ} {n : ℕ} {xs : List (Option ℕ × ℤ × String)} :
    ∀ l ∈ detailLines b rate n xs, l.baseDebit - l.baseCredit = toBase (l.debit - l.credit) rate := by
  induction xs generalizing n with
  | nil => exact fun l hl => absurd hl List.not_mem_nil
  | cons x xs ih =>
    obtain ⟨account, amount, memo⟩ := x
    intro l hl
    rcases List.mem_cons.1 hl with rfl | hl
    · cases b with
      | true =>
        show max _ _ - max _ _ = toBase (max _ _ - max _ _) rate
        rw [max_zero_sub_max_neg_zero_eq_self, max_zero_sub_max_neg_zero_eq_self, toBase_neg]
      | false =>
        show max _ _ - max _ _ = toBase (max _ _ - max _ _) rate
        rw [max_zero_sub_max_neg_zero_eq_self, max_zero_sub_max_neg_zero_eq_self]
    · exact ih l hl

theorem DocPosted.converted {spec : PostSpec} {id je lo period : ℕ} {db mid before : DB} {d : Doc} {c : Party} {rate : ℤ}
    {details : List JournalLine} {l : NewLine} {row : JournalLine}
    (h : DocPosted spec id je lo db mid d c period rate before details l row) (ho : JournalOk db) :
    ∀ l ∈ mid.linesOf je, l.memo ≠ spec.kind.side.controlMemo → l.Converted rate := by
  have hlines : mid.linesOf je = details ++ [row] := h.wrote.linesOf ho
  obtain ⟨l', hl', -, hmemo, -⟩ := PostSpec.control_eq je ((h.written.docParty _ _).trans h.doc)
  obtain rfl : l' = l := by simpa using hl'.symm.trans h.control
  obtain ⟨lid, account, -, rfl⟩ := h.row_eq
  intro x hx hne
  rw [hlines] at hx
  rcases List.mem_append.1 hx with hx | hx
  · exact becomes_converted h.became detailLines_converted x hx
  · rw [List.mem_singleton.1 hx] at hne
    exact absurd hmemo hne

theorem cashLine_converted {side : Side} {id je : ℕ} {db : DB} :
    ∀ l ∈ cashLine side id je db, l.baseDebit - l.baseCredit = toBase (l.debit - l.credit) (db.entryRate je) := by
  intro l hl
  unfold cashLine at hl
  split at hl
  · cases hl
  · cases side with
    | sales =>
      rw [List.mem_singleton.1 hl]
      simp
    | purchase =>
      rw [List.mem_singleton.1 hl]
      simp [toBase_neg]

theorem paymentControl_converted {side : Side} {id je : ℕ} {db : DB} :
    ∀ l ∈ paymentControl side id je db,
      l.baseDebit - l.baseCredit = toBase (l.debit - l.credit) (db.entryRate je) := by
  intro l hl
  unfold paymentControl at hl
  split at hl
  · cases hl
  · cases side with
    | sales =>
      rw [List.mem_singleton.1 hl]
      simp [toBase_neg]
    | purchase =>
      rw [List.mem_singleton.1 hl]
      simp

theorem paymentLines_converted {side : Side} {id je : ℕ} {rate : ℤ} {db₁ db₂ : DB} {rows₁ rows₂ : List JournalLine}
    (h₁ : db₁.entryRate je = rate) (h₂ : db₂.entryRate je = rate)
    (hr₁ : List.Forall₂ (NewLine.Becomes je) (firstLine side id je db₁) rows₁)
    (hr₂ : List.Forall₂ (NewLine.Becomes je) (secondLine side id je db₂) rows₂) :
    ∀ l ∈ rows₁ ++ rows₂, l.Converted rate := by
  intro l hl
  cases side with
  | sales =>
    rcases List.mem_append.1 hl with hl | hl
    · exact becomes_converted hr₁ (h₁ ▸ cashLine_converted) l hl
    · exact becomes_converted hr₂ (h₂ ▸ paymentControl_converted) l hl
  | purchase =>
    rcases List.mem_append.1 hl with hl | hl
    · exact becomes_converted hr₁ (h₁ ▸ paymentControl_converted) l hl
    · exact becomes_converted hr₂ (h₂ ▸ cashLine_converted) l hl

theorem commit_postDoc_converted {kind : PostedKind} {id : ℕ} {gaps : ℕ → ℕ} {s s' : Store DB} (hs : Reachable s)
    (h : (transaction (.postDoc kind id)).commit gaps s = .ok ((), s')) {d : Doc}
    (hd : s'.db.docs.find? id = some d) : s'.db.DocConverted d := by
  obtain ⟨v, hrun, hv⟩ := run_of_commit h
  obtain ⟨je, hrun⟩ := run_void hrun
  obtain ⟨d₀, c, period, rate, before, details, l, row, mid, hp, hdb, -⟩ := run_postDoc_lines hrun hs.fresh
  rw [hv] at hdb
  obtain ⟨hf, hk⟩ := docOf_eq_some.1 (docParty_eq_some.1 hp.doc).1
  have hd' : s'.db.docs.find? id = some (d₀.posted je period) := by
    rw [hdb]
    exact Table.find?_update_self (f := (·.posted je period)) (fun _ => rfl) hf
  obtain rfl := Option.some.inj (hd'.symm.trans hd)
  intro je' hje l hl hne
  obtain rfl : je = je' := Option.some.inj hje
  have hrate : s'.db.entryRate je = rate := by
    have he := entryRate_of_mem (hp.wrote.mem_entries.2 (.inr rfl))
    rw [hdb]
    exact he
  have hl' : l ∈ mid.linesOf je := by
    rw [hdb] at hl
    exact hl
  rw [hrate]
  refine hp.converted hs.journalOk l hl' ?_
  rw [← hk]
  exact hne

theorem commit_postPayment_converted {side : Side} {id : ℕ} {gaps : ℕ → ℕ} {s s' : Store DB} (hs : Reachable s)
    (h : (transaction (.postPayment side id)).commit gaps s = .ok ((), s')) {p : Payment}
    (hp : s'.db.payments.find? id = some p) : s'.db.PaymentConverted p := by
  obtain ⟨v, hrun, hv⟩ := run_of_commit h
  obtain ⟨je, hrun⟩ := run_void hrun
  obtain ⟨p₀, c, period, rate, mid, db₁, db₂, rows₁, rows₂, hpc, -, -, -, -, h₁, -, h₂, hr₁, hr₂, hw, hdb, -⟩ :=
    run_postPayment_lines hrun hs.fresh
  rw [hv] at hdb
  have hf := (paymentOf_eq_some.1 (paymentParty_eq_some.1 hpc).1).1
  have hp' : s'.db.payments.find? id = some (p₀.posted je period) := by
    rw [hdb]
    exact Table.find?_update_self (f := (·.posted je period)) (fun _ => rfl) hf
  obtain rfl := Option.some.inj (hp'.symm.trans hp)
  intro je' hje l hl
  obtain rfl : je = je' := Option.some.inj hje
  have hrate : s'.db.entryRate je = rate := by
    have he := entryRate_of_mem (hw.mem_entries.2 (.inr rfl))
    rw [hdb]
    exact he
  have hlines : mid.linesOf je = rows₁ ++ rows₂ := hw.linesOf hs.journalOk
  have hl' : l ∈ mid.linesOf je := by
    rw [hdb] at hl
    exact hl
  rw [hrate]
  exact paymentLines_converted h₁ h₂ hr₁ hr₂ l (hlines ▸ hl')

/-! ### What an auto-apply links -/

theorem run_postFx_revalues {side : Side} {base : String} {account fx : ℕ} {c : Candidate} {a : Application}
    {v w : Env DB Err} {u : Unit} (h : (postFx side base account fx c).run v = .ok (u, w)) (hv : Fresh v.seq v.db)
    (ho : JournalOk v.db) (ha : v.db.applications.find? c.appId = some a) :
    ∃ je, w.db.applications = v.db.applications.update [c.appId] (·.withFx je) (fun _ => rfl) ∧
      w.db.Revalues je c.date (c.diff * fxSign side) ∧ Journaled v.db w.db := by
  obtain ⟨e, rows, mid, hw, hr, he, hdate, -, hdb⟩ := run_postFx_lines h hv ha
  have hlines : rows.map (fun l => (l.memo, l.net)) =
      [(revaluationMemo, c.diff * fxSign side), ("Exchange gain (loss)", -(c.diff * fxSign side))] := by
    rw [forall₂_becomes_map hr (f := fun l => (l.memo, l.baseDebit - l.baseCredit)) fun _ _ _ => rfl]
    simp only [fxPlan, List.map_cons, List.map_nil, NewLine.signed, max_zero_sub_max_neg_zero_eq_self]
    rfl
  refine ⟨e.id, by rw [hdb], ⟨e, ?_, rfl, hdate, ?_⟩, ?_⟩
  · rw [hdb]
    exact hw.mem_entries.2 (.inr rfl)
  · have hl : mid.linesOf e.id = rows := hw.linesOf ho
    rw [hdb, ← hlines, ← hl]
    rfl
  · rw [hdb]
    exact (hw.journaled he).trans (.of_same rfl rfl)

/-- Every candidate gets an entry that revalues by its difference; the other applications stay as they are. -/
theorem run_postEach_revalues {side : Side} {base : String} {fx : ℕ} {cs : List (ℕ × Candidate)}
    {v w : Env DB Err} {u : Unit} (h : (postEach side base fx cs).run v = .ok (u, w)) (hv : Fresh v.seq v.db)
    (ho : JournalOk v.db) (hn : (cs.map (·.2.appId)).Nodup)
    (hc : ∀ c ∈ cs, ∃ a, v.db.applications.find? c.2.appId = some a) :
    Journaled v.db w.db ∧
      (∀ k, k ∉ cs.map (·.2.appId) → w.db.applications.find? k = v.db.applications.find? k) ∧
      ∀ c ∈ cs, ∃ a je, v.db.applications.find? c.2.appId = some a ∧
        w.db.applications.find? c.2.appId = some (a.withFx je) ∧
        w.db.Revalues je c.2.date (c.2.diff * fxSign side) := by
  induction cs generalizing v with
  | nil =>
    obtain ⟨-, rfl⟩ := Prog.run_pure_ok.1 h
    exact ⟨.of_same rfl rfl, fun _ _ => rfl, fun c hc => absurd hc List.not_mem_nil⟩
  | cons c cs ih =>
    obtain ⟨u₁, v₁, h₁, h⟩ := Prog.run_bind_ok.1 h
    rw [List.map_cons, List.nodup_cons] at hn
    obtain ⟨a, ha⟩ := hc c (List.mem_cons_self ..)
    obtain ⟨je, happs, hrev, hj⟩ := run_postFx_revalues h₁ hv ho ha
    have hother : ∀ k, k ≠ c.2.appId → v₁.db.applications.find? k = v.db.applications.find? k := by
      intro k hk
      have hkey : ∀ a : Application, Keyed.key (a.withFx je) = Keyed.key a := fun _ => rfl
      rw [happs]
      exact Table.find?_update_of_notMem hkey (by simpa using hk)
    have hmem : ∀ c' ∈ cs, c'.2.appId ≠ c.2.appId := fun c' hc' e => hn.1 (e ▸ List.mem_map_of_mem hc')
    obtain ⟨hjw, hkeep, hlinked⟩ := ih h ((allFresh_postFx _ _ _ _ _).run h₁ hv) (hj.ok ho) hn.2 fun c' hc' => by
      rw [hother _ (hmem c' hc')]
      exact hc c' (List.mem_cons_of_mem _ hc')
    refine ⟨hj.trans hjw, fun k hk => ?_, fun c' hc' => ?_⟩
    · rw [List.map_cons, List.mem_cons, not_or] at hk
      rw [hkeep k hk.2, hother k hk.1]
    · rcases List.mem_cons.1 hc' with rfl | hc'
      · refine ⟨a, je, ha, ?_, hjw.grown.revalues hrev⟩
        rw [hkeep _ hn.1, happs]
        exact Table.find?_update_self (f := (·.withFx je)) (fun _ => rfl) ha
      · obtain ⟨a', je', ha', hw', hrev'⟩ := hlinked c' hc'
        exact ⟨a', je', (hother _ (hmem c' hc')) ▸ ha', hw', hrev'⟩

/-- After the exchange differences of a settler are posted, an application is as it was, and no candidate, or it has an
entry that revalues by its difference. -/
def DB.FxLinked (db db' : DB) (side : Side) (settler : SettlerKind) (id : ℕ) : Prop :=
  ∀ a' ∈ db'.applications, (a' ∈ db.applications ∧
      (a'.OfSettler side settler id → a'.fxJournalEntryId = none → db.candidate a' = none)) ∨
    ∃ a ∈ db.applications, ∃ c je, a.OfSettler side settler id ∧ db.candidate a = some c ∧ a' = a.withFx je ∧
      db'.Revalues je c.date (c.diff * fxSign side)

theorem mem_candidates {db : DB} {side : Side} {settler : SettlerKind} {id : ℕ} {c : Candidate} :
    c ∈ db.candidates side settler id ↔ ∃ a ∈ db.applications, a.OfSettler side settler id ∧
      a.fxJournalEntryId = none ∧ db.candidate a = some c := by
  simp only [DB.candidates, List.mem_filterMap, List.mem_filter, Bool.and_eq_true, decide_eq_true_eq, Table.mem_rows,
    Application.OfSettler, and_assoc]

theorem run_postSettlementFX_linked {side : Side} {settler : SettlerKind} {id : ℕ} {v w : Env DB Err} {u : Unit}
    (h : (postSettlementFX side settler id).run v = .ok (u, w)) (hv : Fresh v.seq v.db) (ho : JournalOk v.db) :
    v.db.FxLinked w.db side settler id ∧ Grown v.db w.db := by
  simp only [postSettlementFX, Prog.run_query_bind_ok] at h
  obtain ⟨cs, hcs, h⟩ := h
  have hmap := scanCandidates_eq_ok hcs
  have hmem : ∀ c, c ∈ cs.map (·.2) ↔ c ∈ v.db.candidates side settler id := fun c => by rw [hmap]
  split at h
  · rename_i hnil
    obtain ⟨-, rfl⟩ := Prog.run_pure_ok.1 h
    refine ⟨fun a ha => .inl ⟨ha, fun hown hfx => ?_⟩, .of_same rfl rfl⟩
    cases hc : v.db.candidate a with
    | none => rfl
    | some c =>
      have := (hmem c).2 (mem_candidates.2 ⟨a, ha, hown, hfx, hc⟩)
      rw [hnil] at this
      cases this
  · rw [Prog.run_read_bind_ok] at h
    split at h
    · exact absurd h Prog.run_throw_ok
    · have hn : (cs.map (·.2.appId)).Nodup := by
        have := nodup_candidates v.db side settler id
        rwa [← hmap, List.map_map] at this
      have hold : ∀ c ∈ cs, ∃ a ∈ v.db.applications, a.OfSettler side settler id ∧ a.fxJournalEntryId = none ∧
          v.db.candidate a = some c.2 := fun c hc => mem_candidates.1 ((hmem c.2).1 (List.mem_map_of_mem hc))
      obtain ⟨hj, hkeep, hlinked⟩ := run_postEach_revalues h hv.tick.tick ho hn fun c hc => by
        obtain ⟨a, ha, -, -, hac⟩ := hold c hc
        exact ⟨a, appId_of_candidate hac ▸ Table.find?_key ha⟩
      refine ⟨fun a' ha' => ?_, hj.grown⟩
      have hfa' : w.db.applications.find? a'.id = some a' := Table.find?_key ha'
      by_cases hcand : a'.id ∈ cs.map (·.2.appId)
      · -- the application of a candidate
        obtain ⟨c, hc, hid⟩ := List.mem_map.1 hcand
        obtain ⟨a, ha, hown, -, hac⟩ := hold c hc
        obtain ⟨b, je, hb, hb', hrev⟩ := hlinked c hc
        have hfa : v.db.applications.find? c.2.appId = some a := appId_of_candidate hac ▸ Table.find?_key ha
        obtain rfl : b = a := Option.some.inj (hb.symm.trans hfa)
        refine .inr ⟨b, ha, c.2, je, hown, hac, ?_, hrev⟩
        exact Option.some.inj (hfa'.symm.trans (hid ▸ hb'))
      · have hfa : v.db.applications.find? a'.id = some a' := (hkeep _ hcand).symm.trans hfa'
        refine .inl ⟨Table.mem_of_find? hfa, fun hown hfx => ?_⟩
        cases hc : v.db.candidate a' with
        | none => rfl
        | some c =>
          obtain ⟨x, hx, rfl⟩ :=
            List.mem_map.1 ((hmem c).2 (mem_candidates.2 ⟨a', Table.mem_of_find? hfa, hown, hfx, hc⟩))
          exact absurd (List.mem_map.2 ⟨x, hx, appId_of_candidate hc⟩) hcand

/-! ### The invariant -/

theorem DB.Settles.congr {db db' : DB} {a : Application} {s : Settler} {d : Doc} (h : db'.Settles a s d)
    (hd : db'.docs = db.docs) (hp : db'.payments = db.payments) : db.Settles a s d := by
  refine ⟨?_, (docOf_congr (by rw [hd])).symm.trans h.doc, h.settlerPosted, h.docPosted, h.party, h.currency⟩
  have hs := h.settler
  cases hk : a.settler with
  | payment =>
    rw [hk] at hs
    exact (settlerOf_congr_payment (by rw [hp])).symm.trans hs
  | creditNote =>
    rw [hk] at hs
    exact (settlerOf_congr_creditNote (by rw [hd])).symm.trans hs

/-- The candidate of an application is its difference, unless it is zero. -/
theorem candidate_eq {db : DB} (hrows : db.RowsOk) {a : Application} {s : Settler} {d : Doc} (ha : db.Settles a s d)
    {diff : ℤ} (hdiff : db.fxDiff s d a.amountApplied = some diff) :
    (db.candidate a = none → diff = 0) ∧ ∀ c, db.candidate a = some c → c.date = s.date ∧ c.diff = diff := by
  obtain ⟨hf, hk⟩ := docOf_eq_some.1 ha.doc
  have hside : d.kind.side = a.side := by
    rw [hk]
    cases a.side <;> rfl
  obtain ⟨c, hc⟩ := Option.isSome_iff_exists.1 (hrows.2.2.1 d (Table.mem_of_find? hf)).2.2
  rw [hside, ← ha.party] at hc
  rw [DB.candidate, ha.settler, Option.bind_some, hc, Option.bind_some, ha.doc, Option.bind_some, hdiff,
    Option.bind_some]
  by_cases hz : diff = 0
  · rw [if_pos hz]
    exact ⟨fun _ => hz, fun c hc => by cases hc⟩
  · rw [if_neg hz]
    refine ⟨fun h => (by cases h), fun c hc => ?_⟩
    obtain rfl := Option.some.inj hc
    exact ⟨rfl, rfl⟩

theorem commit_autoApply_exchanged {side : Side} {settler : SettlerKind} {id : ℕ} {gaps : ℕ → ℕ} {s s' : Store DB}
    (hs : Reachable s) (hok : ExchangeOk s.db)
    (h : (transaction (.autoApply side settler id)).commit gaps s = .ok ((), s')) :
    ∀ a ∈ s'.db.applications, ∀ x d, s'.db.Settles a x d → s'.db.Exchanged a x d := by
  obtain ⟨v, hrun, hv⟩ := run_of_commit h
  obtain ⟨shares, hrun⟩ := run_void hrun
  rw [← hv]
  simp only [autoApply, Prog.run_query_bind_ok, Prog.run_require_bind_ok] at hrun
  obtain ⟨status, -, -, hrun⟩ := hrun
  obtain ⟨shares', v₁, h₁, hrun⟩ := Prog.run_bind_ok.1 hrun
  obtain ⟨u₂, v₂, h₂, hrun⟩ := Prog.run_bind_ok.1 hrun
  obtain ⟨-, rfl⟩ := Prog.run_pure_ok.1 hrun
  have hfresh₁ := (allFresh_insertApplications _ _ _).run h₁ hs.fresh.tick
  obtain ⟨n, hn, -, -, hdb, -⟩ := run_insertApplications h₁
  have hfree : s.db.applications.AllFree (applicationRows side settler id n shares') :=
    (hs.fresh.applications.mono ((Env.le_tick_seq (Env.mk gaps s.seq s.db [])).trans hn)).allFree
      (map_id_applicationRows ..)
  have hdb₁ : v₁.db = { s.db with
      applications := s.db.applications.insertAll (applicationRows side settler id n shares') } := hdb
  have ho₁ : JournalOk v₁.db := (Journaled.of_same (by rw [hdb₁]) (by rw [hdb₁])).ok hs.journalOk
  obtain ⟨hlinked, hg⟩ := run_postSettlementFX_linked h₂ hfresh₁ ho₁
  have heq := (run_postSettlementFX h₂ hfresh₁).eq
  have hrows₁ : v₁.db.RowsOk := hdb₁ ▸ hs.rowsChecked.rows
  have hg₁ : Grown s.db v₁.db := .of_same (by rw [hdb₁]) (by rw [hdb₁])
  intro a ha x d hsd
  -- the two ends were there before
  have hsd₁ : v₁.db.Settles a x d := hsd.congr (by rw [heq]) (by rw [heq])
  have hsd₀ : s.db.Settles a x d := hsd₁.congr (by rw [hdb₁]) (by rw [hdb₁])
  obtain ⟨diff, hdiff⟩ := hs.agrees.exists_fxDiff hsd₀ a.amountApplied
  obtain ⟨hzero, hcand⟩ := candidate_eq hrows₁ hsd₁ (hg₁.fxDiff hdiff)
  rcases hlinked a ha with ⟨ha, hnone⟩ | ⟨b, -, c, je, hown, hbc, rfl, hrev⟩
  · rw [hdb₁] at ha
    rcases (Table.mem_insertAll hfree).1 ha with hold | hnew
    · exact (hg₁.trans hg).exchanged (hok.applications a hold x d hsd₀)
    · obtain ⟨hside, hsettler, hid, hfx, -⟩ := mem_applicationRows hnew
      refine ⟨diff, (hg₁.trans hg).fxDiff hdiff, ?_⟩
      rw [hfx]
      exact hzero (hnone ⟨hside, hsettler, hid⟩ hfx)
  · obtain ⟨hdate, hdiff'⟩ := hcand c hbc
    refine ⟨diff, (hg₁.trans hg).fxDiff hdiff, ?_⟩
    show DB.Revalues _ je x.date (diff * fxSign b.side)
    rw [← hdate, ← hdiff', hown.1]
    exact hrev

theorem ExchangeOk.step {op : Op} {gaps : ℕ → ℕ} {s s' : Store DB} (hs : Reachable s) (hok : ExchangeOk s.db)
    (h : (transaction op).commit gaps s = .ok ((), s')) : ExchangeOk s'.db := by
  obtain ⟨heff, -⟩ := commit_effect h hs.fresh
  have hg := heff.journaled.grown
  refine ⟨fun d hd hp => ?_, fun p hp hps => ?_, fun a ha x d hsd => ?_⟩
  · rcases heff.posted_docs hd hp with hold | ⟨kind, y, rfl, -, -⟩
    · exact hg.docConverted (hs.entriesOk.docs d hold hp) (hok.docs d hold hp)
    · exact commit_postDoc_converted hs h (Table.find?_key hd)
  · rcases heff.posted_payments hp hps with hold | ⟨side, y, rfl, -, -⟩
    · exact hg.paymentConverted (hs.entriesOk.payments p hold hps) (hok.payments p hold hps)
    · exact commit_postPayment_converted hs h (Table.find?_key hp)
  · rcases heff.old_applications hs.settledOk ha with hold | ⟨side, settler, id, rfl⟩
    · exact hg.exchanged (hok.applications a hold x d (heff.settles_back hs.settledOk hold hsd))
    · exact commit_autoApply_exchanged hs hok h a ha x d hsd

theorem Reachable.exchangeOk {s : Store DB} (h : Reachable s) : ExchangeOk s.db := by
  refine h.invariant (I := fun s => ExchangeOk s.db) ⟨fun d hd => ?_, fun p hp => ?_, fun a ha => ?_⟩
    fun _ _ hr hi ⟨_, _, hc⟩ => hi.step hr hc
  · exact absurd hd (Table.not_mem_empty d)
  · exact absurd hp (Table.not_mem_empty p)
  · exact absurd ha (Table.not_mem_empty a)
