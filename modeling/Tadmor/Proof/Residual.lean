import Tadmor.Proof.Exchange
import Tadmor.Store.RoundingError
import Tadmor.Theory.Netting

/-!
# What is left on the control account

Every line of an entry is rounded on its own, and so are both halves of an exchange difference.  What the entries of
fully settled documents leave on the control account in base is what these roundings add up to.
-/

/-! ### Definitions -/

/-- The lines of an entry, if there is one. -/
def DB.entryLines (db : DB) : Option ℕ → List JournalLine
  | none => []
  | some je => db.linesOf je

/-- Base debit less base credit of the lines with the memo. -/
def DB.memoNet (db : DB) (memo : String) (je : Option ℕ) : ℤ :=
  (((db.entryLines je).filter fun l => l.memo = memo).map JournalLine.net).sum

/-- The lines of an entry that are not control lines. -/
def DB.detailCount (db : DB) (side : Side) (je : Option ℕ) : ℕ :=
  ((db.entryLines je).filter fun l => l.memo ≠ side.controlMemo).length

/-- The application settles one of the documents. -/
def Application.settlesOne (D : Finset Doc) (a : Application) : Bool := a.docId ∈ D.image (·.id)

/-- The application is of one of the payments or of the credit notes among the documents. -/
def Application.settledByOne (D : Finset Doc) (P : Finset Payment) (a : Application) : Bool :=
  match a.settler with
  | .payment => a.settlerId ∈ P.image (·.id)
  | .creditNote => a.settlerId ∈ D.image (·.id)

/-- The applications that touch the set. -/
def DB.touching (db : DB) (D : Finset Doc) (P : Finset Payment) : List Application :=
  db.applications.rows.filter fun a => a.settlesOne D || a.settledByOne D P

/-- Posted documents and payments of one party in one currency, with all their applications inside, applied in full. -/
structure DB.SettledSet (db : DB) (side : Side) (party : ℕ) (currency : String) (D : Finset Doc) (P : Finset Payment) :
    Prop where
  docs : ∀ d ∈ D, d ∈ db.docs ∧ d.status = .posted ∧ d.partyId = party ∧ d.currencyCode = currency ∧
    (d.kind = side.invoice ∨ d.kind = side.creditNote)
  payments : ∀ p ∈ P, p ∈ db.payments ∧ p.status = .posted ∧ p.side = side ∧ p.partyId = party ∧
    p.currencyCode = currency
  closed : ∀ a ∈ db.applications, a.settlesOne D = a.settledByOne D P
  invoices : ∀ d ∈ D, d.kind = side.invoice → db.amountSettled d.id = d.total
  notes : ∀ d ∈ D, d.kind = side.creditNote → db.amountApplied .creditNote d.id = d.total
  paid : ∀ p ∈ P, db.amountApplied .payment p.id = p.amount

/-- The base amount of the control lines: those of the documents, of the payments and of the exchange differences. -/
def DB.residual (db : DB) (side : Side) (D : Finset Doc) (P : Finset Payment) : ℤ :=
  ∑ d ∈ D, db.memoNet side.controlMemo d.journalEntryId + ∑ p ∈ P, db.memoNet side.controlMemo p.journalEntryId +
    ((db.touching D P).map fun a => db.memoNet revaluationMemo a.fxJournalEntryId).sum

/-- How often an amount of the set is rounded. -/
def DB.roundings (db : DB) (side : Side) (D : Finset Doc) (P : Finset Payment) : ℕ :=
  ∑ d ∈ D, db.detailCount side d.journalEntryId + P.card + 2 * (db.touching D P).length

/-- The rate of an entry, if there is one. -/
def DB.rateOf (db : DB) (je : Option ℕ) : ℚ := ((je.map db.entryRate).getD 0 : ℤ) / 10 ^ 8

/-! ### The error of an entry -/

theorem fxSign_eq (side : Side) : fxSign side = side.sign := by
  cases side <;> rfl

theorem sign_mul_sign (side : Side) : side.sign * side.sign = 1 := by
  cases side <;> rfl

theorem abs_toBase_sub (x rate : ℤ) : |(toBase x rate : ℚ) - x * (rate / 10 ^ 8)| ≤ 1 / 2 := by
  have h := abs_roundDiv_sub (x * rate) (show 0 < 10 ^ 8 by norm_num)
  rw [toBase]
  push_cast at h ⊢
  rwa [mul_div_assoc] at h

/-- The lines of an entry that `p` does not pick carry the opposite of those that it picks. -/
theorem sum_filter_not {β : Type} (l : List β) (p : β → Bool) (w : β → ℤ) (h : (l.map w).sum = 0) :
    ((l.filter p).map w).sum = -((l.filter fun a => !p a).map w).sum := by
  have hsplit := sum_filter_or (l := l) (w := w) (p := fun _ => true) (q := p) (r := fun a => !p a) fun a _ => by
    cases p a <;> simp
  rw [List.filter_eq_self.2 fun _ _ => rfl, h] at hsplit
  omega

theorem linesOf_balance {db : DB} {e : JournalEntry} (he : e ∈ db.entries) (hs : e.status = .posted)
    (h : DB.entryBalanced e.id db = .ok ()) :
    ((db.linesOf e.id).map fun l => l.debit - l.credit).sum = 0 ∧ ((db.linesOf e.id).map JournalLine.net).sum = 0 := by
  obtain ⟨h₁, h₂⟩ := entryBalanced_eq_ok he hs h
  constructor
  · rw [sum_map_sub, h₁, sub_self]
  · show ((db.linesOf e.id).map fun l => l.baseDebit - l.baseCredit).sum = 0
    rw [sum_map_sub, h₂, sub_self]

/-- Converted lines are off by at most a half each. -/
theorem abs_sum_converted_sub {ls : List JournalLine} {rate : ℤ} (h : ∀ l ∈ ls, l.Converted rate) :
    |((ls.map JournalLine.net).sum : ℤ) - ((ls.map fun l => l.debit - l.credit).sum : ℤ) * ((rate : ℚ) / 10 ^ 8)| ≤
      (ls.length : ℚ) / 2 := by
  induction ls with
  | nil => simp
  | cons l ls ih =>
    have ih := ih fun m hm => h m (List.mem_cons_of_mem _ hm)
    have hl := abs_toBase_sub (l.debit - l.credit) rate
    have hnet : l.net = toBase (l.debit - l.credit) rate := h l (List.mem_cons_self ..)
    rw [List.map_cons, List.sum_cons, List.map_cons, List.sum_cons, List.length_cons, hnet]
    rw [abs_le] at hl ih ⊢
    push_cast at hl ih ⊢
    constructor
    · linarith
    · linarith

section entry

variable {db : DB} {side : Side} {e : JournalEntry}

/-- The control line of an entry whose other lines are converted. -/
theorem abs_memoNet_sub_of_details (he : e ∈ db.entries) (hs : e.status = .posted)
    (hb : DB.entryBalanced e.id db = .ok ()) {debit credit : ℤ} (hc : HasControl side (db.linesOf e.id) debit credit)
    (hconv : ∀ l ∈ db.linesOf e.id, l.memo ≠ side.controlMemo → l.Converted (db.entryRate e.id)) :
    |(db.memoNet side.controlMemo (some e.id) : ℚ) - (debit - credit : ℤ) * db.rateOf (some e.id)| ≤
      (db.detailCount side (some e.id) : ℚ) / 2 := by
  obtain ⟨h₁, h₂⟩ := linesOf_balance he hs hb
  obtain ⟨l, hl, rfl, rfl⟩ := hc
  have hnet := sum_filter_not (db.linesOf e.id) (fun l => l.memo = side.controlMemo) JournalLine.net h₂
  have hamount := sum_filter_not (db.linesOf e.id) (fun l => l.memo = side.controlMemo) (fun l => l.debit - l.credit) h₁
  have hdetails : ((db.linesOf e.id).filter fun a => !decide (a.memo = side.controlMemo)) =
      (db.linesOf e.id).filter fun l => l.memo ≠ side.controlMemo := by
    congr 1
    funext l
    simp
  have hdetail : ∀ l ∈ (db.linesOf e.id).filter fun l => l.memo ≠ side.controlMemo, l.Converted (db.entryRate e.id) := by
    intro l hl
    obtain ⟨hl, hne⟩ := List.mem_filter.1 hl
    exact hconv l hl (of_decide_eq_true hne)
  have herr := abs_sum_converted_sub hdetail
  rw [hdetails] at hnet hamount
  have hline : l.debit - l.credit =
      -(((db.linesOf e.id).filter fun l => l.memo ≠ side.controlMemo).map fun l => l.debit - l.credit).sum := by
    rw [← hamount, hl]
    simp
  rw [DB.memoNet, DB.entryLines, hnet, hline, DB.detailCount, DB.entryLines, DB.rateOf]
  rw [abs_le] at herr ⊢
  simp only [Option.map_some, Option.getD_some]
  push_cast at herr ⊢
  constructor
  · linarith
  · linarith

/-- The control line of an entry with converted lines. -/
theorem abs_memoNet_sub_of_converted {debit credit : ℤ} (hc : HasControl side (db.linesOf e.id) debit credit)
    (hconv : ∀ l ∈ db.linesOf e.id, l.Converted (db.entryRate e.id)) :
    |(db.memoNet side.controlMemo (some e.id) : ℚ) - (debit - credit : ℤ) * db.rateOf (some e.id)| ≤ 1 / 2 := by
  obtain ⟨l, hl, rfl, rfl⟩ := hc
  have hmem : l ∈ db.linesOf e.id := by
    have : l ∈ (db.linesOf e.id).filter fun l => l.memo = side.controlMemo := by
      rw [hl]
      exact List.mem_singleton_self _
    exact (List.mem_filter.1 this).1
  have hnet : l.net = toBase (l.debit - l.credit) (db.entryRate e.id) := hconv l hmem
  have herr := abs_toBase_sub (l.debit - l.credit) (db.entryRate e.id)
  rw [DB.memoNet, DB.entryLines, hl, List.map_singleton, List.sum_singleton, hnet, DB.rateOf]
  exact herr

end entry

/-! ### The error of a document, a payment and an application -/

theorem abs_sign_mul_sub (side : Side) (x y : ℚ) : |side.sign * x - y| = |x - side.sign * y| := by
  cases side with
  | sales => simp [Side.sign]
  | purchase =>
    simp only [Side.sign, Int.reduceNeg, Int.cast_neg, Int.cast_one, neg_mul, one_mul, sub_neg_eq_add]
    rw [← abs_neg, neg_sub, sub_neg_eq_add, add_comm]

theorem Doc.control_of_invoice {d : Doc} {side : Side} (h : d.kind = side.invoice) :
    d.controlDebit - d.controlCredit = side.sign * d.total := by
  unfold Doc.controlDebit Doc.controlCredit
  rw [h]
  cases side <;> simp [Side.invoice, Side.sign]

theorem Doc.control_of_creditNote {d : Doc} {side : Side} (h : d.kind = side.creditNote) :
    d.controlDebit - d.controlCredit = side.sign * -d.total := by
  unfold Doc.controlDebit Doc.controlCredit
  rw [h]
  cases side <;> simp [Side.creditNote, Side.sign]

theorem Payment.control_eq {p : Payment} {side : Side} (h : p.side = side) :
    p.controlDebit - p.controlCredit = side.sign * -p.amount := by
  unfold Payment.controlDebit Payment.controlCredit
  rw [h]
  cases side <;> simp [Side.sign]

/-- The two lines of an entry that revalues. -/
theorem DB.Revalues.lines {db : DB} {je : ℕ} {date : Date} {value : ℤ} (h : db.Revalues je date value) :
    ∃ l m, db.linesOf je = [l, m] ∧ l.memo = revaluationMemo ∧ l.net = value ∧ m.memo ≠ revaluationMemo ∧
      m.net = -value := by
  obtain ⟨e, -, rfl, -, hlines⟩ := h
  obtain ⟨l, ls, hl, h₁, h₂⟩ := List.map_eq_cons_iff.1 hlines
  obtain ⟨m, ms, rfl, h₃, h₄⟩ := List.map_eq_cons_iff.1 h₂
  obtain rfl := List.map_eq_nil_iff.1 h₄
  rw [Prod.mk.injEq] at h₁ h₃
  refine ⟨l, m, hl, h₁.1, h₁.2, ?_, h₃.2⟩
  rw [h₃.1]
  decide

theorem memoNet_of_revalues {db : DB} {je : ℕ} {date : Date} {value : ℤ} (h : db.Revalues je date value) :
    db.memoNet revaluationMemo (some je) = value := by
  obtain ⟨l, m, hlines, hl, hlv, hm, -⟩ := h.lines
  rw [DB.memoNet, DB.entryLines, hlines, List.filter_cons_of_pos (by simpa using hl),
    List.filter_cons_of_neg (by simpa using hm)]
  simpa using hlv

section settled

variable {s : Store DB} {side : Side} {party : ℕ} {currency : String} {D : Finset Doc} {P : Finset Payment}

theorem side_invoice (side : Side) : side.invoice.side = side := by
  cases side <;> rfl

theorem side_creditNote (side : Side) : side.creditNote.side = side := by
  cases side <;> rfl

/-- A posted document has an entry with its control line, and its other lines are converted. -/
theorem abs_memoNet_doc (hs : Reachable s) {d : Doc} (hd : d ∈ s.db.docs) (hp : d.status = .posted)
    (hside : d.kind.side = side) {amount : ℤ} (ha : d.controlDebit - d.controlCredit = side.sign * amount) :
    |side.sign * (s.db.memoNet side.controlMemo d.journalEntryId : ℚ) - amount * s.db.rateOf d.journalEntryId| ≤
      (s.db.detailCount side d.journalEntryId : ℚ) / 2 := by
  obtain ⟨je, hje, e, he, rfl, -, -, hc⟩ := hs.agrees.docs d hd hp
  have hconv := hs.exchangeOk.docs d hd hp e.id hje
  rw [hside] at hc hconv
  have h := abs_memoNet_sub_of_details he (hs.ledgerOk.posted e he) (hs.entryBalanced e.id) hc hconv
  rw [hje, abs_sign_mul_sub, ← mul_assoc]
  rw [ha] at h
  exact_mod_cast h

theorem abs_memoNet_payment (hs : Reachable s) {p : Payment} (hp : p ∈ s.db.payments) (hps : p.status = .posted)
    (hside : p.side = side) :
    |side.sign * (s.db.memoNet side.controlMemo p.journalEntryId : ℚ) -
      -(p.amount * s.db.rateOf p.journalEntryId)| ≤ 1 / 2 := by
  obtain ⟨je, hje, e, he, rfl, -, -, hc⟩ := hs.agrees.payments p hp hps
  have hconv := hs.exchangeOk.payments p hp hps e.id hje
  rw [hside] at hc
  have h := abs_memoNet_sub_of_converted hc hconv
  rw [Payment.control_eq hside] at h
  rw [hje, abs_sign_mul_sub, ← neg_mul, ← mul_assoc]
  exact_mod_cast h

/-- The entry of an exchange difference is off by at most a half for each of its two conversions. -/
theorem abs_memoNet_application (hs : Reachable s) {a : Application} (ha : a ∈ s.db.applications) {x : Settler} {d : Doc}
    (hsd : s.db.Settles a x d) :
    |a.side.sign * (s.db.memoNet revaluationMemo a.fxJournalEntryId : ℚ) -
      a.amountApplied * (s.db.rateOf x.journalEntryId - s.db.rateOf d.journalEntryId)| ≤ 1 := by
  obtain ⟨diff, hdiff, hfx⟩ := hs.exchangeOk.applications a ha x d hsd
  have hvalue : a.side.sign * s.db.memoNet revaluationMemo a.fxJournalEntryId = diff := by
    cases hje : a.fxJournalEntryId with
    | none =>
      rw [hje] at hfx
      have hzero : diff = 0 := hfx
      rw [hzero]
      exact mul_zero _
    | some je =>
      rw [hje] at hfx
      rw [memoNet_of_revalues hfx, fxSign_eq, mul_comm diff, ← mul_assoc, sign_mul_sign, one_mul]
  obtain ⟨e, he, e', he', hje, hje', rfl⟩ := fxDiff_eq_some.1 hdiff
  have h₁ := abs_toBase_sub a.amountApplied e.exchangeRate
  have h₂ := abs_toBase_sub a.amountApplied e'.exchangeRate
  have hvalue : (a.side.sign : ℚ) * (s.db.memoNet revaluationMemo a.fxJournalEntryId : ℚ) =
      toBase a.amountApplied e.exchangeRate - toBase a.amountApplied e'.exchangeRate := by exact_mod_cast hvalue
  rw [hvalue, hje, hje', DB.rateOf, DB.rateOf]
  simp only [Option.map_some, Option.getD_some]
  rw [entryRate_of_mem he, entryRate_of_mem he']
  rw [abs_le] at h₁ h₂ ⊢
  constructor
  · linarith
  · linarith

/-! ### The set -/

theorem settlesOne_iff {a : Application} : a.settlesOne D = true ↔ ∃ d ∈ D, d.id = a.docId := by
  simp [Application.settlesOne]

/-- The settlers of the set, by kind and id. -/
def settlerKey : Payment ⊕ Doc → SettlerKind × ℕ :=
  Sum.elim (fun p => (.payment, p.id)) fun n => (.creditNote, n.id)

theorem DB.SettledSet.touching_eq (h : s.db.SettledSet side party currency D P) :
    s.db.touching D P = s.db.applications.rows.filter (·.settlesOne D) := by
  refine List.filter_congr fun a ha => ?_
  rw [← h.closed a ha, Bool.or_self]

theorem DB.SettledSet.touching_eq' (h : s.db.SettledSet side party currency D P) :
    s.db.touching D P = s.db.applications.rows.filter (·.settledByOne D P) := by
  refine List.filter_congr fun a ha => ?_
  rw [h.closed a ha, Bool.or_self]

/-- An application that touches the set settles one of its invoices, on its side. -/
theorem DB.SettledSet.exists_invoice (h : s.db.SettledSet side party currency D P) {a : Application} {x : Settler}
    {d : Doc} (hsd : s.db.Settles a x d) (ha : a.settlesOne D = true) :
    d ∈ D ∧ d.kind = side.invoice ∧ a.side = side := by
  obtain ⟨d', hd', hid⟩ := settlesOne_iff.1 ha
  obtain ⟨hf, hk⟩ := docOf_eq_some.1 hsd.doc
  obtain ⟨hm, -, -, -, hkind⟩ := h.docs d' hd'
  have hf' : s.db.docs.find? d'.id = some d' := Table.find?_key hm
  obtain rfl : d = d' := Option.some.inj (hf.symm.trans (hid ▸ hf'))
  rcases hkind with hinv | hnote
  · exact ⟨hd', hinv, side_of_invoice (hk.symm.trans hinv)⟩
  · have : a.side.invoice = side.creditNote := hk.symm.trans hnote
    cases ha : a.side <;> cases side <;> rw [ha] at this <;> cases this

/-- Its settler is a payment of the set or one of its credit notes. -/
theorem DB.SettledSet.exists_settler (h : s.db.SettledSet side party currency D P) {a : Application} {x : Settler}
    {d : Doc} (hsd : s.db.Settles a x d) (ha : a.settledByOne D P = true) (hside : a.side = side) :
    ∃ c ∈ P.disjSum (D.filter fun d => d.kind ≠ side.invoice), settlerKey c = (a.settler, a.settlerId) ∧
      x.journalEntryId = Sum.elim (·.journalEntryId) (·.journalEntryId) c := by
  have hsettler := hsd.settler
  unfold Application.settledByOne at ha
  cases hk : a.settler with
  | payment =>
    rw [hk] at ha hsettler
    obtain ⟨p, hp, hid⟩ : ∃ p ∈ P, p.id = a.settlerId := by simpa using ha
    obtain ⟨p', hp', rfl⟩ := settlerOf_payment.1 hsettler
    have hf : s.db.payments.find? p.id = some p := Table.find?_key (h.payments p hp).1
    obtain rfl : p' = p := Option.some.inj ((paymentOf_eq_some.1 hp').1.symm.trans (hid ▸ hf))
    exact ⟨.inl p', Finset.inl_mem_disjSum.2 hp, by rw [← hid]; rfl, rfl⟩
  | creditNote =>
    rw [hk] at ha hsettler
    obtain ⟨n, hn, hid⟩ : ∃ n ∈ D, n.id = a.settlerId := by simpa using ha
    obtain ⟨n', hn', rfl⟩ := settlerOf_creditNote.1 hsettler
    obtain ⟨hf', hkind⟩ := docOf_eq_some.1 hn'
    have hf : s.db.docs.find? n.id = some n := Table.find?_key (h.docs n hn).1
    obtain rfl : n' = n := Option.some.inj (hf'.symm.trans (hid ▸ hf))
    refine ⟨.inr n', Finset.inr_mem_disjSum.2 (Finset.mem_filter.2 ⟨hn, ?_⟩), by rw [← hid]; rfl, rfl⟩
    rw [hkind, hside]
    cases side <;> decide

theorem cast_sum_filter {as : List Application} {p : Application → Bool} :
    ((as.filter p).map fun a => (a.amountApplied : ℚ)).sum = (((as.filter p).map (·.amountApplied)).sum : ℤ) := by
  rw [Int.cast_list_sum, List.map_map]
  rfl

theorem injOn_id {D : Finset Doc} (h : ∀ d ∈ D, d ∈ s.db.docs) : Set.InjOn Doc.id (D : Set Doc) :=
  fun d hd e he hid => Table.key_inj (h d hd) (h e he) hid

theorem DB.SettledSet.injOn_settlerKey (h : s.db.SettledSet side party currency D P) :
    Set.InjOn settlerKey (P.disjSum (D.filter fun d => d.kind ≠ side.invoice) : Set (Payment ⊕ Doc)) := by
  intro c hc c' hc' hkey
  rcases Finset.mem_disjSum.1 hc with ⟨p, hp, rfl⟩ | ⟨n, hn, rfl⟩
  · rcases Finset.mem_disjSum.1 hc' with ⟨p', hp', rfl⟩ | ⟨n', hn', rfl⟩
    · rw [Table.key_inj (h.payments p hp).1 (h.payments p' hp').1 (congrArg Prod.snd hkey)]
    · cases congrArg Prod.fst hkey
  · rcases Finset.mem_disjSum.1 hc' with ⟨p', hp', rfl⟩ | ⟨n', hn', rfl⟩
    · cases congrArg Prod.fst hkey
    · have hn := (Finset.mem_filter.1 hn).1
      have hn' := (Finset.mem_filter.1 hn').1
      rw [Table.key_inj (h.docs n hn).1 (h.docs n' hn').1 (congrArg Prod.snd hkey)]

/-- The set is a netting of its invoices with its payments and credit notes. -/
theorem DB.SettledSet.netted (hs : Reachable s) (h : s.db.SettledSet side party currency D P) :
    Netted (D.filter fun d => d.kind = side.invoice) (P.disjSum (D.filter fun d => d.kind ≠ side.invoice))
      (s.db.touching D P) (fun a => (a.amountApplied : ℚ)) (·.docId) (fun a => (a.settler, a.settlerId)) Doc.id
      settlerKey (fun d => (d.total : ℚ)) (fun d => s.db.rateOf d.journalEntryId)
      (Sum.elim (fun p => (p.amount : ℚ)) fun n => (n.total : ℚ))
      (fun c => s.db.rateOf (Sum.elim (·.journalEntryId) (·.journalEntryId) c))
      (fun a => s.db.rateOf ((s.db.docOf side.invoice a.docId).bind (·.journalEntryId)))
      fun a => s.db.rateOf ((s.db.settlerOf side a.settler a.settlerId).bind (·.journalEntryId)) := by
  have hlink : ∀ a ∈ s.db.touching D P, a ∈ s.db.applications ∧ a.settlesOne D = true ∧ a.settledByOne D P = true := by
    intro a ha
    have h₁ := List.mem_filter.1 (h.touching_eq ▸ ha)
    have h₂ := List.mem_filter.1 (h.touching_eq' ▸ ha)
    exact ⟨h₁.1, h₁.2, h₂.2⟩
  have hends : ∀ a ∈ s.db.touching D P, ∃ x d, s.db.Settles a x d ∧ d ∈ D ∧ d.kind = side.invoice ∧ a.side = side ∧
      ∃ c ∈ P.disjSum (D.filter fun d => d.kind ≠ side.invoice), settlerKey c = (a.settler, a.settlerId) ∧
        x.journalEntryId = Sum.elim (·.journalEntryId) (·.journalEntryId) c := by
    intro a ha
    obtain ⟨hm, hD, hP⟩ := hlink a ha
    obtain ⟨x, d, hsd⟩ := hs.settledOk.settles a hm
    obtain ⟨hd, hkind, hside⟩ := h.exists_invoice hsd hD
    exact ⟨x, d, hsd, hd, hkind, hside, h.exists_settler hsd hP hside⟩
  refine
    { debtInj := fun d hd e he hid => ?_
      creditInj := h.injOn_settlerKey
      debtEnds := fun a ha => ?_
      creditEnds := fun a ha => ?_
      debtRates := fun a ha d hd hid => ?_
      creditRates := fun a ha c hc hkey => ?_
      debts := fun d hd => ?_
      credits := fun c hc => ?_ }
  · exact injOn_id (fun d hd => (h.docs d hd).1) (Finset.mem_filter.1 hd).1 (Finset.mem_filter.1 he).1 hid
  · obtain ⟨x, d, hsd, hd, hkind, -⟩ := hends a ha
    exact ⟨d, Finset.mem_filter.2 ⟨hd, hkind⟩, DB.docOf_id hsd.doc⟩
  · obtain ⟨x, d, -, -, -, -, c, hc, hkey, -⟩ := hends a ha
    exact ⟨c, hc, hkey⟩
  · obtain ⟨hd, hkind⟩ := Finset.mem_filter.1 hd
    have hf : s.db.docs.find? d.id = some d := Table.find?_key (h.docs d hd).1
    rw [show s.db.docOf side.invoice a.docId = some d from docOf_eq_some.2 ⟨hid ▸ hf, hkind⟩]
    rfl
  · obtain ⟨x, d, hsd, -, -, hside, c', hc', hkey', hje⟩ := hends a ha
    obtain rfl := h.injOn_settlerKey hc hc' (hkey.trans hkey'.symm)
    have hx := hsd.settler
    rw [hside] at hx
    rw [hx, ← hje]
    rfl
  · obtain ⟨hd, hkind⟩ := Finset.mem_filter.1 hd
    rw [cast_sum_filter, h.touching_eq, List.filter_filter, ← h.invoices d hd hkind, DB.amountSettled]
    congr 3
    refine List.filter_congr fun a _ => ?_
    by_cases hid : a.docId = d.id
    · have : a.settlesOne D = true := settlesOne_iff.2 ⟨d, hd, hid.symm⟩
      simp [hid, this]
    · simp [hid]
  · rw [cast_sum_filter, h.touching_eq', List.filter_filter]
    rcases Finset.mem_disjSum.1 hc with ⟨p, hp, rfl⟩ | ⟨n, hn, rfl⟩
    · show _ = (p.amount : ℚ)
      rw [← h.paid p hp, DB.amountApplied]
      congr 3
      refine List.filter_congr fun a _ => ?_
      by_cases hk : a.settler = .payment
      · by_cases hid : a.settlerId = p.id
        · have : a.settledByOne D P = true := by
            rw [Application.settledByOne, hk]
            exact decide_eq_true (Finset.mem_image.2 ⟨p, hp, hid.symm⟩)
          simp [settlerKey, hk, hid, this]
        · simp [settlerKey, hk, hid]
      · simp [settlerKey, hk]
    · obtain ⟨hn, hkind⟩ := Finset.mem_filter.1 hn
      show _ = (n.total : ℚ)
      rw [← h.notes n hn ((h.docs n hn).2.2.2.2.resolve_left hkind), DB.amountApplied]
      congr 3
      refine List.filter_congr fun a _ => ?_
      by_cases hk : a.settler = .creditNote
      · by_cases hid : a.settlerId = n.id
        · have : a.settledByOne D P = true := by
            rw [Application.settledByOne, hk]
            exact decide_eq_true (Finset.mem_image.2 ⟨n, hn, hid.symm⟩)
          simp [settlerKey, hk, hid, this]
        · simp [settlerKey, hk, hid]
      · simp [settlerKey, hk]

/-- The base amount that is left on the control account is at most a half for each rounding. -/
theorem abs_residual_le (hs : Reachable s) (h : s.db.SettledSet side party currency D P) :
    |(s.db.residual side D P : ℚ) / 10 ^ 4| ≤ (0.00005 : ℚ) * s.db.roundings side D P := by
  have hdoc : ∀ d ∈ D, d.kind.side = side := fun d hd => by
    rcases (h.docs d hd).2.2.2.2 with hk | hk
    · rw [hk, side_invoice]
    · rw [hk, side_creditNote]
  have hbound := (h.netted hs).abs_sum_le
    (x := fun d => side.sign * (s.db.memoNet side.controlMemo d.journalEntryId : ℚ))
    (e := fun d => (s.db.detailCount side d.journalEntryId : ℚ) / 2)
    (y := Sum.elim (fun p => side.sign * (s.db.memoNet side.controlMemo p.journalEntryId : ℚ))
      fun n => side.sign * (s.db.memoNet side.controlMemo n.journalEntryId : ℚ))
    (g := Sum.elim (fun _ => 1 / 2) fun n => (s.db.detailCount side n.journalEntryId : ℚ) / 2)
    (z := fun a => side.sign * (s.db.memoNet revaluationMemo a.fxJournalEntryId : ℚ)) (k := 1)
    (fun d hd => ?_) (fun c hc => ?_) fun a ha => ?_
  · rw [Finset.sum_disjSum, Finset.sum_disjSum] at hbound
    have hcounts := Finset.sum_filter_add_sum_filter_not D (fun d => d.kind = side.invoice)
      fun d => (s.db.detailCount side d.journalEntryId : ℚ) / 2
    have hnets := Finset.sum_filter_add_sum_filter_not D (fun d => d.kind = side.invoice)
      fun d => side.sign * (s.db.memoNet side.controlMemo d.journalEntryId : ℚ)
    simp only [Sum.elim_inl, Sum.elim_inr, Finset.sum_const, nsmul_eq_mul, mul_one] at hbound
    have hresidual : (side.sign : ℚ) * s.db.residual side D P =
        ∑ d ∈ D, side.sign * (s.db.memoNet side.controlMemo d.journalEntryId : ℚ) +
          ∑ p ∈ P, side.sign * (s.db.memoNet side.controlMemo p.journalEntryId : ℚ) +
          ((s.db.touching D P).map fun a => side.sign * (s.db.memoNet revaluationMemo a.fxJournalEntryId : ℚ)).sum := by
      rw [DB.residual, List.sum_map_mul_left, ← Finset.mul_sum, ← Finset.mul_sum]
      push_cast [Int.cast_list_sum, List.map_map]
      rw [mul_add, mul_add]
      rfl
    have hroundings : (s.db.roundings side D P : ℚ) =
        2 * (∑ d ∈ D, (s.db.detailCount side d.journalEntryId : ℚ) / 2) + P.card + 2 * (s.db.touching D P).length := by
      have htwice : ∀ d : Doc, 2 * ((s.db.detailCount side d.journalEntryId : ℚ) / 2) =
          s.db.detailCount side d.journalEntryId := fun d => by ring
      rw [DB.roundings, Finset.mul_sum, Finset.sum_congr rfl fun d _ => htwice d]
      push_cast
      rfl
    have habs : |(s.db.residual side D P : ℚ)| = |(side.sign : ℚ) * s.db.residual side D P| := by
      cases side <;> simp [Side.sign]
    have hhalf : |(s.db.residual side D P : ℚ)| ≤ s.db.roundings side D P / 2 := by
      rw [habs, hresidual, hroundings, ← hnets, ← hcounts]
      refine le_trans (le_of_eq ?_) (hbound.trans (le_of_eq ?_))
      · congr 1
        ring
      · ring
    rw [abs_div, abs_of_pos (show (0 : ℚ) < 10 ^ 4 by norm_num), div_le_iff₀ (by norm_num)]
    linarith
  · obtain ⟨hd, hk⟩ := Finset.mem_filter.1 hd
    obtain ⟨hm, hp, -⟩ := h.docs d hd
    exact abs_memoNet_doc hs hm hp (hdoc d hd) (Doc.control_of_invoice hk)
  · rcases Finset.mem_disjSum.1 hc with ⟨p, hp, rfl⟩ | ⟨n, hn, rfl⟩
    · obtain ⟨hm, hps, hside, -⟩ := h.payments p hp
      exact abs_memoNet_payment hs hm hps hside
    · obtain ⟨hd, hk⟩ := Finset.mem_filter.1 hn
      obtain ⟨hm, hp, -, -, hkind⟩ := h.docs n hd
      have hnote := abs_memoNet_doc hs hm hp (hdoc n hd) (Doc.control_of_creditNote (hkind.resolve_left hk))
      rw [Int.cast_neg, neg_mul] at hnote
      exact hnote
  · obtain ⟨ha, hD⟩ := List.mem_filter.1 (h.touching_eq ▸ ha)
    obtain ⟨x, d, hsd⟩ := hs.settledOk.settles a ha
    obtain ⟨-, -, hside⟩ := h.exists_invoice hsd hD
    have happ := abs_memoNet_application hs ha hsd
    have hx := hsd.settler
    have hd := hsd.doc
    rw [hside] at happ hx hd
    rw [hx, hd]
    exact happ

end settled

instance {db : DB} {side : Side} {party : ℕ} {currency : String} {D : Finset Doc} {P : Finset Payment} :
    Decidable (db.SettledSet side party currency D P) :=
  decidable_of_iff
    ((∀ d ∈ D, d ∈ db.docs.rows ∧ d.status = .posted ∧ d.partyId = party ∧ d.currencyCode = currency ∧
        (d.kind = side.invoice ∨ d.kind = side.creditNote)) ∧
      (∀ p ∈ P, p ∈ db.payments.rows ∧ p.status = .posted ∧ p.side = side ∧ p.partyId = party ∧
        p.currencyCode = currency) ∧
      (∀ a ∈ db.applications.rows, a.settlesOne D = a.settledByOne D P) ∧
      (∀ d ∈ D, d.kind = side.invoice → db.amountSettled d.id = d.total) ∧
      (∀ d ∈ D, d.kind = side.creditNote → db.amountApplied .creditNote d.id = d.total) ∧
      ∀ p ∈ P, db.amountApplied .payment p.id = p.amount)
    ⟨fun ⟨h₁, h₂, h₃, h₄, h₅, h₆⟩ => ⟨h₁, h₂, h₃, h₄, h₅, h₆⟩,
      fun ⟨h₁, h₂, h₃, h₄, h₅, h₆⟩ => ⟨h₁, h₂, h₃, h₄, h₅, h₆⟩⟩

/-- An invoice of two lines of 10.0005 euros, and two payments of its total at another rate. -/
def euroSplit : List Op := [
  .createFiscalYear ⟨"FY2026", yearStart, yearEnd⟩,
  .createParty .sales (some 2),
  .createExchangeRate "EUR" march5 110000000,
  .createExchangeRate "EUR" march6 120000000,
  .createDoc .salesInvoice
    { number := "I1", partyId := 14, date := march5, currencyCode := "EUR",
      lines := [{ accountId := some 8, unitPrice := 100005 }, { accountId := some 9, unitPrice := 100005 }] },
  .postDoc .salesInvoice 15,
  .createPayment .sales
    { partyId := 14, date := march6, currencyCode := "EUR", amount := 100003, cashAccountId := some 1 },
  .createPayment .sales
    { partyId := 14, date := march6, currencyCode := "EUR", amount := 100007, cashAccountId := some 1 },
  .postPayment .sales 23,
  .postPayment .sales 24,
  .autoApply .sales .payment 23,
  .autoApply .sales .payment 24]

/-- Eight roundings leave a unit on the control account. -/
theorem abs_residual_le_split : ∃ (s : Store DB) (D : Finset Doc) (P : Finset Payment), Reachable s ∧
    s.db.SettledSet .sales 14 "EUR" D P ∧ s.db.residual .sales D P = 1 ∧ s.db.roundings .sales D P = 8 ∧
      |(s.db.residual .sales D P : ℚ) / 10 ^ 4| ≤ (0.00005 : ℚ) * s.db.roundings .sales D P := by
  obtain ⟨s, hs, h⟩ := exists_reachable euroSplit (p := fun s =>
    decide (s.db.SettledSet .sales 14 "EUR" s.db.docs.rows.toFinset s.db.payments.rows.toFinset ∧
      s.db.residual .sales s.db.docs.rows.toFinset s.db.payments.rows.toFinset = 1 ∧
      s.db.roundings .sales s.db.docs.rows.toFinset s.db.payments.rows.toFinset = 8)) (by decide +kernel)
  obtain ⟨hset, hresidual, hroundings⟩ := of_decide_eq_true h
  exact ⟨s, _, _, hs, hset, hresidual, hroundings, abs_residual_le hs hset⟩
