import Tadmor.Model.DocumentForm
import Tadmor.Proof.AmountText
import Tadmor.Proof.CSVImport
import Tadmor.Proof.Contents
import Tadmor.Proof.FormDates

/-!
# A draft that is saved as it was opened

The form of a draft opens, and without a change its request says what the draft says, but for the blanks around the
number and the descriptions, and for a tax code that is spelled like the choice of none (`draft_saved_as_opened`).  The
decimals lose their zeros on the way and get them back.
-/

open Banking (Text)

namespace Web

open Printing (trimZeros trimZeros_point isDigit_of_mem_trimZeros toRat_value_withFrac getLast?_trimZeros)

/-! ### Texts -/

theorem isSpace_eq_false {c : Char} (h : c.isDigit = true) : isSpace c = false := by
  obtain ⟨hlo, hhi⟩ := isDigit_bounds h
  rw [isSpace, Bool.or_eq_false_iff, Bool.and_eq_false_iff, decide_eq_false_iff_not, decide_eq_false_iff_not]
  refine ⟨fun hm => ?_, .inl (by omega)⟩
  simp only [List.mem_cons, List.not_mem_nil, or_false] at hm
  omega

theorem trim_spelling (p : Spelling) : trim p.text = p.text :=
  Banking.trim_eq_self
    ((Spelling.forall_mem_text (by decide) (by decide)).2 fun c hc => isSpace_eq_false (p.digits c hc))

theorem trim_date (d : Date) : trim d.text = d.text := by
  refine Banking.trim_eq_self fun c hc => ?_
  rw [Date.text] at hc
  simp only [List.append_assoc, List.cons_append, List.mem_append, List.mem_cons] at hc
  rcases hc with hc | rfl | hc | rfl | hc
  · exact isSpace_eq_false (isDigit_of_mem_padded hc)
  · decide
  · exact isSpace_eq_false (isDigit_of_mem_padded hc)
  · decide
  · exact isSpace_eq_false (isDigit_of_mem_padded hc)

/-- What is left of an amount of the API is a decimal of the same value. -/
theorem trimAmount_amountText (n : ℤ) : ∃ q : Spelling, trimAmount (amountText n) = q.text ∧ q.value.scale ≤ 4 ∧
    q.value.toRat = n / 10 ^ 4 := by
  obtain ⟨p, rfl⟩ : ∃ p, p = (Decimal.mk n 4).spelling := ⟨_, rfl⟩
  have hvalue : (Decimal.mk n 4).spelling.value.toRat = n / 10 ^ 4 := by
    rw [Decimal.value_spelling]
    rfl
  obtain ⟨p, hp⟩ : ∃ p, p = (Decimal.mk n 4).spelling := ⟨_, rfl⟩
  rw [amountText, Decimal.text, ← hp]
  rw [← hp] at hvalue
  have hne : p.whole ≠ [] := by
    rw [hp]
    exact Nat.toDigits_ne_nil
  have hf : p.frac = some (places 4 n.natAbs) := by
    rw [hp]
    rfl
  have hlen := length_places 4 n.natAbs
  generalize places 4 n.natAbs = f at hf hlen
  have htext : p.text = ((if p.neg then ['-'] else []) ++ p.whole) ++ '.' :: f := by
    rw [Spelling.text, Spelling.point, hf, List.append_assoc]
    rfl
  have hfrac : p.frac.getD [] = f := by
    rw [hf]
    rfl
  have hd : ∀ c ∈ trimZeros f, c.isDigit = true := by
    rw [← hfrac]
    exact fun c hc => isDigit_of_mem_trimZeros hc
  have hshort : (trimZeros f).length ≤ 4 := by
    obtain ⟨k, hk⟩ := Printing.trimZeros_append_zeros f
    rw [hk, List.length_append] at hlen
    omega
  rw [trimAmount, if_pos (by rw [htext]; simp)]
  by_cases hsame : trimZeros p.text = p.text
  · refine ⟨p, by rw [if_pos hsame], ?_, hvalue⟩
    rw [Spelling.value, hfrac, hlen]
  rw [if_neg hsame, htext, trimZeros_point]
  by_cases hnil : trimZeros f = []
  · -- the point goes with the zeros
    refine ⟨p.withFrac none (fun c hc => absurd hc List.not_mem_nil) hne, ?_, Nat.zero_le _, ?_⟩
    · rw [hnil, if_pos (by simp), List.dropLast_concat, Spelling.text, ← List.append_assoc]
      exact (List.append_nil _).symm
    · rw [toRat_value_withFrac (k := 0) (by rw [hfrac, hnil]; rfl), hvalue]
  · have hlast : ((if p.neg then ['-'] else []) ++ p.whole ++ '.' :: trimZeros f).getLast? ≠ some '.' := by
      rw [List.getLast?_append_of_ne_nil _ (List.cons_ne_nil _ _), List.getLast?_cons_of_ne_nil hnil]
      intro hdot
      have hdot := hd _ (List.mem_of_getLast? hdot)
      cases hdot
    refine ⟨p.withFrac (some (trimZeros f)) hd hne, ?_, hshort, ?_⟩
    · rw [if_neg hlast, Spelling.text, ← List.append_assoc]
      rfl
    · rw [toRat_value_withFrac (k := 0) (by rw [hfrac]; exact (List.append_nil _).symm), hvalue]

/-- The column gets the number back. -/
theorem numericColumn_trimAmount {n : ℤ} {precision : ℕ} (d : Text) (hn : n.natAbs < 10 ^ precision) :
    Preview.numericColumn precision (Preview.orDefault (trim (trimAmount (amountText n))) d) = .ok n := by
  obtain ⟨q, hq, hscale, hvalue⟩ := trimAmount_amountText n
  have hne : q.text ≠ [] := by
    intro hnil
    have hspell : spell q.text = some q := spell_eq_some.2 rfl
    rw [hnil] at hspell
    cases hspell
  have hround : (q.value.round 4).coeff = n := by
    have h := Decimal.roundsTo_round 4 q.value
    rw [hvalue, div_mul_cancel₀ _ (by positivity)] at h
    exact h.unique ⟨by simp, fun h => by simp at h⟩
  have hnumeric : Banking.numericIn q.text = .ok q.value := by
    rw [Banking.numericIn, spell_eq_some.2 rfl]
    exact if_pos (hscale.trans (by decide))
  rw [hq, trim_spelling, Preview.orDefault, if_neg hne, Preview.numericColumn, hnumeric]
  show (do ensure ((q.value.round 4).coeff.natAbs < 10 ^ precision) _; Except.ok (q.value.round 4).coeff) = Except.ok n
  rw [hround, ensure, if_pos (decide_eq_true hn)]
  rfl

theorem dateIn_text {d : Date} (h : 1 ≤ d.year ∧ d.year ≤ 9999) : Banking.dateIn d.text = .ok d := by
  have hparse : Banking.parseDate d.text = some d := by
    have hmonth : d.month ≤ 12 := d.valid.2.1
    have hday : d.day ≤ 31 := d.valid.2.2.2.trans (daysInMonth_le ..)
    refine Banking.parseDate_eq_some.2 ⟨padded 4 d.year, padded 2 d.month, padded 2 d.day, ?_, ⟨?_, ?_, ?_⟩, ?_, ?_⟩
    · rw [Date.text, List.append_assoc]
      rfl
    · exact length_padded (by omega) (by omega)
    · exact length_padded (by omega) (by omega)
    · exact length_padded (by omega) (by omega)
    · intro c hc
      simp only [List.mem_append] at hc
      rcases hc with (hc | hc) | hc
      · exact isDigit_of_mem_padded hc
      · exact isDigit_of_mem_padded hc
      · exact isDigit_of_mem_padded hc
    · exact ⟨(numeral_padded ..).symm, (numeral_padded ..).symm, (numeral_padded ..).symm⟩
  rw [Banking.dateIn, hparse]
  exact if_neg (by omega)

theorem chosen_selected (x : Option ℕ) : chosen (selected x) = x := by
  cases x with
  | none => rfl
  | some n =>
    have hne : Nat.toDigits 10 n ≠ noneValue := by
      intro h
      have hmem : '_' ∈ Nat.toDigits 10 n := by
        rw [h]
        decide
      have hd := Nat.isDigit_of_mem_toDigits (by omega) (by omega) hmem
      cases hd
    rw [selected, Option.elim_some, chosen, if_neg hne, numeral_toDigits]

end Web

/-! ### What a request says -/

/-- A text without the blanks around it -/
def trimmed (s : String) : String := String.ofList (Web.trim s.toList)

/-- The line as an unchanged form sends it. -/
def DocLineInput.resubmitted (l : DocLineInput) : DocLineInput :=
  { l with description := trimmed l.description, taxCode := l.taxCode.filter fun code => code.toList ≠ Web.noneValue }

def DocContent.resubmitted (c : DocContent) : DocContent :=
  { c with number := trimmed c.number
           lines := c.lines.map fun x => (x.1, { x.2 with toDocLineInput := x.2.toDocLineInput.resubmitted }) }

section lists

variable {α β γ ε : Type}

theorem mapM_map_ok {f : α → Except ε β} {g : γ → α} {r : γ → β} {l : List γ} (h : ∀ x ∈ l, f (g x) = .ok (r x)) :
    (l.map g).mapM f = .ok (l.map r) := by
  induction l with
  | nil => rfl
  | cons x l ih =>
    rw [List.map_cons, List.mapM_cons, h x (List.mem_cons_self ..), ih fun y hy => h y (List.mem_cons_of_mem _ hy)]
    rfl

/-- A list with the numbers n, n + 1, … is its values numbered from n on. -/
theorem swap_zipIdx_of_numbered {n : ℕ} {xs : List (ℕ × β)} (h : xs.map Prod.fst = List.range' n xs.length) :
    ((xs.map Prod.snd).zipIdx n).map Prod.swap = xs := by
  induction xs generalizing n with
  | nil => rfl
  | cons x xs ih =>
    rw [List.map_cons, List.length_cons, List.range'_succ] at h
    obtain ⟨hx, hxs⟩ := List.cons.inj h
    rw [List.map_cons, List.zipIdx_cons, List.map_cons, ih hxs]
    exact congrArg (fun y : ℕ × β => y :: xs) (Prod.ext hx.symm rfl)

end lists

section form

open Web

variable {db : DB} {id : ℕ} {d : Doc}

theorem taxCode_lineState (l : DocLine) : (lineState l.json).input.taxCode.map String.ofList =
    l.taxCode.filter fun code => code.toList ≠ noneValue := by
  rw [LineState.input, lineState, DocLine.json]
  cases l.taxCode with
  | none => rfl
  | some code =>
    by_cases hcode : code.toList = noneValue
    · simp [Option.filter, hcode]
    · simp [Option.filter, hcode, String.ofList_toList]

theorem typed_lineState {kind : DocKind} {l : DocLine} (h : AdmitsLine kind l.entered.2) :
    (lineState l.json).input.typed = .ok l.entered.2.toDocLineInput.resubmitted := by
  obtain ⟨hquantity, hprice, hrate⟩ := h.range
  have hq : Preview.numericColumn 19 (Preview.orDefault (lineState l.json).input.quantity ['1']) = .ok l.quantity :=
    numericColumn_trimAmount _ (of_decide_eq_true hquantity)
  have hp : Preview.numericColumn 19 (Preview.orDefault (lineState l.json).input.unitAmount ['0']) = .ok l.unitPrice :=
    numericColumn_trimAmount _ (of_decide_eq_true hprice)
  have hr : Preview.numericColumn 7 (Preview.orDefault (lineState l.json).input.taxRate ['0']) = .ok l.taxRate :=
    numericColumn_trimAmount _ hrate
  have hproduct : (lineState l.json).input.productId = l.productId := chosen_selected _
  have haccount : (lineState l.json).input.accountId = l.accountId := chosen_selected _
  rw [Api.DocumentLineInput.typed, Preview.LineText.typed, hq, hp, hr, taxCode_lineState, hproduct, haccount]
  rfl

/-- The form opens for a draft, unless its lines are linked to an order. -/
theorem load_eq_ok {form : Form} {doc : Api.Document} {lines : List Api.DocumentLine} {f : FormState}
    (h : form.load doc lines = .ok f) : doc.status = .draft ∧
      (form.orderLinked.isSome = true → ∀ l ∈ lines, l.orderLineId = none) ∧
      f = { partyId := Nat.toDigits 10 doc.partyId
            number := doc.number
            date := doc.date
            dueDate := if form.hasDueDate then doc.dueDate.getD [] else []
            currencyCode := doc.currencyCode
            lines := lines.map lineState } := by
  rw [Form.load] at h
  split at h
  · cases h
  · rename_i hdraft
    split at h
    · cases h
    · rename_i hnone
      refine ⟨not_not.1 hdraft, fun hsome l hl => ?_, (Except.ok.inj h).symm⟩
      obtain ⟨message, hmessage⟩ := Option.isSome_iff_exists.1 hsome
      rw [hmessage, Option.filter_eq_none_iff] at hnone
      have hany := hnone message rfl
      by_contra hlink
      exact hany (List.any_eq_true.2 ⟨l, hl, Option.isSome_iff_ne_none.2 hlink⟩)

theorem hasDueDate_formOf (kind : DocKind) : (formOf kind).hasDueDate = !kind.isCreditNote := by
  cases kind <;> rfl

theorem isSome_orderLinked (kind : DocKind) : (formOf kind).orderLinked.isSome = kind.isInvoice := by
  cases kind <;> rfl

theorem emptyToNull_date (due : Option Date) : emptyToNull ((due.map Date.text).getD []) = due.map Date.text := by
  cases due with
  | none => rfl
  | some due =>
    have hne : due.text ≠ [] := by
      rw [Date.text, List.append_assoc]
      exact fun h => padded_ne_nil _ _ (List.append_eq_nil_iff.1 h).1
    rw [Option.map_some, Option.getD_some, emptyToNull, trim_date]
    exact if_neg hne

theorem upper_currency {code : String} (h : code ∈ currencies) :
    String.ofList (upper (trim code.toList)) = code := by
  have hall : currencies.all (fun c => String.ofList (upper (trim c.toList)) = c) = true := by decide +kernel
  exact of_decide_eq_true (List.all_eq_true.1 hall code h)

/-- The request that the form sends without a change. -/
def Doc.unchanged (d : Doc) (ls : List DocLine) : DocInput where
  number := trimmed d.number
  partyId := d.partyId
  date := d.date
  dueDate := if d.kind.isCreditNote then none else d.dueDate
  currencyCode := d.currencyCode
  lines := ls.map fun l => l.entered.2.toDocLineInput.resubmitted

theorem typed_handleSubmit {ls : List DocLine} {f : FormState}
    (hf : (formOf d.kind).load d.json (ls.map DocLine.json) = .ok f) (hdate : 1 ≤ d.date.year ∧ d.date.year ≤ 9999)
    (hdue : ∀ due ∈ d.dueDate, 1 ≤ due.year ∧ due.year ≤ 9999) (hcurrency : d.currencyCode ∈ currencies)
    (hline : ∀ l ∈ ls, AdmitsLine d.kind l.entered.2) :
    ∃ req, (formOf d.kind).handleSubmit f = .ok req ∧ req.typed = .ok (d.unchanged ls) := by
  obtain ⟨-, -, rfl⟩ := load_eq_ok hf
  refine ⟨_, if_neg Nat.toDigits_ne_nil, ?_⟩
  have hdueText : (if (formOf d.kind).hasDueDate then emptyToNull (if (formOf d.kind).hasDueDate then
      d.json.dueDate.getD [] else []) else none) = d.json.dueDate := by
    rw [hasDueDate_formOf, Doc.json]
    by_cases hnote : d.kind.isCreditNote = true
    · simp [hnote]
    · simp only [hnote, Bool.not_false, if_true, Bool.false_eq_true, if_false]
      exact emptyToNull_date d.dueDate
  have hdueTyped : d.json.dueDate.mapM Banking.dateIn =
      .ok (if d.kind.isCreditNote then none else d.dueDate) := by
    rw [Doc.json]
    by_cases hnote : d.kind.isCreditNote = true
    · rw [if_pos hnote, if_pos hnote]
      rfl
    · rw [if_neg hnote, if_neg hnote]
      cases hx : d.dueDate with
      | none => rfl
      | some due =>
        rw [Option.map_some, Option.mapM_some, dateIn_text (hdue due hx)]
        rfl
  have hlines : (((ls.map DocLine.json).map lineState).map LineState.input).mapM Api.DocumentLineInput.typed =
      .ok (ls.map fun l => l.entered.2.toDocLineInput.resubmitted) := by
    rw [List.map_map, List.map_map]
    exact mapM_map_ok fun l hl => typed_lineState (hline l hl)
  have hdateTyped : Banking.dateIn d.json.date = .ok d.date := dateIn_text hdate
  have hcode : String.ofList (upper (trim d.json.currencyCode)) = d.currencyCode := upper_currency hcurrency
  rw [Api.DocumentInput.typed]
  dsimp only
  rw [hdateTyped, hdueText, hdueTyped, hlines, hcode, numeral_toDigits]
  rfl

/-- The request says what the document says. -/
theorem content_unchanged {m : ℕ → Option DocContent} (h : Admits m id (d.content (db.linesOfDoc id)))
    (hlinks : ∀ l ∈ db.linesOfDoc id, l.orderLineId = none) :
    (d.unchanged (db.documentLines id)).content d.kind = (d.content (db.linesOfDoc id)).resubmitted := by
  have hdue : (if d.kind.isCreditNote then none else if d.kind.isCreditNote then none else d.dueDate) =
      d.dueDate := by
    by_cases hnote : d.kind.isCreditNote = true
    · rw [if_pos hnote]
      cases hx : d.dueDate with
      | none => rfl
      | some due =>
        have := (h.due due hx).1
        rw [show (d.content (db.linesOfDoc id)).kind = d.kind from rfl, hnote] at this
        cases this
    · rw [if_neg hnote, if_neg hnote]
  have hlines : (((db.documentLines id).map fun l => l.entered.2.toDocLineInput.resubmitted).zipIdx 1).map
      (fun x => (x.2, ({ toDocLineInput := x.1 } : NewDocLine))) = (d.content (db.linesOfDoc id)).resubmitted.lines := by
    have hrows : (db.documentLines id).map (fun l => l.entered.2.toDocLineInput.resubmitted) =
        ((d.content (db.linesOfDoc id)).lines.map Prod.snd).map fun l => l.toDocLineInput.resubmitted := by
      rw [Doc.content, DB.documentLines]
      simp only [List.map_map]
      rfl
    rw [hrows, List.zipIdx_map, List.map_map, DocContent.resubmitted]
    dsimp only
    conv_rhs => rw [← swap_zipIdx_of_numbered h.numbered]
    rw [List.map_map]
    refine List.map_congr_left fun x hx => ?_
    obtain ⟨y, hy, hyx⟩ := List.mem_map.1 (List.fst_mem_of_mem_zipIdx hx)
    obtain ⟨l, hl, rfl⟩ := List.mem_map.1 hy
    have hlink : x.1.orderLineId = none := by
      rw [← hyx]
      exact hlinks l ((List.perm_insertionSort _ _).subset hl)
    obtain ⟨row, n⟩ := x
    refine congrArg (Prod.mk n) ?_
    show ({ toDocLineInput := row.toDocLineInput.resubmitted } : NewDocLine) =
      { row with toDocLineInput := row.toDocLineInput.resubmitted }
    rw [hlink]
  rw [DocInput.content, Doc.unchanged]
  dsimp only
  rw [hdue, hlines]
  rfl

end form

/-! ### Saving -/

/-- Only invoices and bills have lines that are linked to an order. -/
theorem unlinked_of_load {s : Store DB} (hs : Reachable s) {id : ℕ} {d : Doc} {f : Web.FormState}
    (hd : s.db.docs.find? id = some d)
    (hf : (Web.formOf d.kind).load d.json ((s.db.documentLines id).map DocLine.json) = .ok f) :
    ∀ l ∈ s.db.linesOfDoc id, l.orderLineId = none := by
  obtain ⟨-, hlinks, -⟩ := load_eq_ok hf
  intro l hl
  by_cases hkind : d.kind.isInvoice = true
  · refine hlinks ((isSome_orderLinked _).trans hkind) l.json (List.mem_map_of_mem ?_)
    exact (List.perm_insertionSort _ _).symm.subset hl
  · cases hlink : l.orderLineId with
    | none => rfl
    | some k =>
      obtain ⟨hmem, hdoc⟩ := List.mem_filter.1 hl
      obtain ⟨side, ol, o, hlinked, -⟩ := hs.linksOk.1.linked l hmem k hlink
      obtain ⟨x, hx, hxid, hxk, -⟩ := hlinked.doc
      obtain rfl : x = d := doc_eq_of_id hx hd (hxid.trans (of_decide_eq_true hdoc))
      rw [hxk] at hkind
      cases side <;> exact absurd rfl hkind

/-- What the form of a draft sends without a change is read back as the request of the draft. -/
theorem exists_unchanged_request {s : Store DB} (hs : Reachable s) {id : ℕ} {d : Doc} {f : Web.FormState}
    (hd : s.db.docs.find? id = some d)
    (hf : (Web.formOf d.kind).load d.json ((s.db.documentLines id).map DocLine.json) = .ok f)
    (hdate : 1 ≤ d.date.year ∧ d.date.year ≤ 9999) (hdue : ∀ due ∈ d.dueDate, 1 ≤ due.year ∧ due.year ≤ 9999) :
    ∃ req, (Web.formOf d.kind).handleSubmit f = .ok req ∧
      req.typed = .ok (d.unchanged (s.db.documentLines id)) := by
  have hadmits := hs.admits id _ (written_of_find? hd)
  refine typed_handleSubmit hf hdate hdue hadmits.currency fun l hl => ?_
  exact hadmits.line l.entered (List.mem_map_of_mem hl)

theorem exists_ok_of_any {α ε : Type} {x : Except ε α} {p : α → Bool} (h : x.toOption.any p = true) :
    ∃ a, x = .ok a ∧ p a = true := by
  cases x with
  | error e => cases h
  | ok a => exact ⟨a, rfl, h⟩
