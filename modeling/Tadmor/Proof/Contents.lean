import Tadmor.Proof.Lifecycle

/-!
# What the documents say

To those who write them, the documents are a map: a document says what it was created with or last edited to, until it
is deleted.  Every operation writes one entry of the map or leaves the map as it is (`documents_refine`), so what the
map admits into one entry holds of all of them in every state (`admitted`).
-/

/-- What a document says; the lines are in the order of their numbers. -/
structure DocContent where
  kind : DocKind
  number : String
  partyId : ℕ
  date : Date
  dueDate : Option Date
  currencyCode : String
  lines : List (ℕ × NewDocLine)
deriving DecidableEq

/-- The values of a line, behind its number. -/
def DocLine.entered (l : DocLine) : ℕ × NewDocLine :=
  (l.lineNo, { productId := l.productId, description := l.description, quantity := l.quantity, unitPrice := l.unitPrice,
               accountId := l.accountId, taxCode := l.taxCode, taxRate := l.taxRate, orderLineId := l.orderLineId })

def Doc.content (d : Doc) (ls : List DocLine) : DocContent where
  kind := d.kind
  number := d.number
  partyId := d.partyId
  date := d.date
  dueDate := d.dueDate
  currencyCode := d.currencyCode
  lines := (ls.insertionSort fun l m => l.lineNo ≤ m.lineNo).map DocLine.entered

def DB.written (db : DB) (id : ℕ) : Option DocContent := (db.docs.find? id).map (·.content (db.linesOfDoc id))

/-- What a document made of `input` says. -/
def DocInput.content (kind : DocKind) (input : DocInput) : DocContent where
  kind := kind
  number := input.number
  partyId := input.partyId
  date := input.date
  dueDate := if kind.isCreditNote then none else input.dueDate
  currencyCode := input.currencyCode
  lines := (input.lines.zipIdx 1).map fun x => (x.2, { toDocLineInput := x.1 })

/-- What an invoice or bill of the order `o` says, for the quantities `picked`. -/
def FromOrderInput.content (side : Side) (input : FromOrderInput) (o : Doc) (picked : List (DocLine × ℤ)) :
    DocContent :=
  { (input.header o).content side.invoice with lines := numberFrom 1 picked }

/-! ### What the map admits -/

def LinesFit (ls : List NewDocLine) : Prop :=
  fits (ls.map fun l => (l.row 0 0 0).lineSubtotal).sum = true ∧
    fits (ls.map fun l => (l.row 0 0 0).taxAmount).sum = true ∧
    fits (ls.map fun l => (l.row 0 0 0).lineTotal).sum = true

structure AdmitsLine (kind : DocKind) (l : NewDocLine) : Prop where
  quantity : if kind.isOrder then 0 < l.quantity else l.quantity ≠ 0
  rate : 0 ≤ l.taxRate
  range : fits l.quantity = true ∧ fits l.unitPrice = true ∧ l.taxRate.natAbs < 10 ^ 7

/-- The map admits `c` under the key `id`. -/
structure Admits (m : ℕ → Option DocContent) (id : ℕ) (c : DocContent) : Prop where
  due : ∀ due ∈ c.dueDate, c.kind.isCreditNote = false ∧ c.date ≤ due
  currency : c.currencyCode ∈ currencies
  number : ∀ k c', k ≠ id → m k = some c' → c'.kind = c.kind → c'.number = c.number →
    c.kind.numberScope c'.partyId ≠ c.kind.numberScope c.partyId
  numbered : c.lines.map Prod.fst = List.range' 1 c.lines.length
  line : ∀ x ∈ c.lines, AdmitsLine c.kind x.2
  /-- Lines that are inserted one after another fit at every one of them. -/
  fits : (∀ x ∈ c.lines, x.2.orderLineId = none) → ∀ n, LinesFit ((c.lines.take n).map Prod.snd)

/-- The operations that create, edit and delete documents. -/
def Op.writesDoc : Op → Bool
  | .createDoc _ _ => true
  | .updateDoc _ _ _ => true
  | .deleteDoc _ _ => true
  | .fromOrder _ _ _ => true
  | _ => false

/-- What an operation makes of the map: it writes one entry, or leaves the map as it is. -/
inductive Rewrites (db : DB) : Op → (ℕ → Option DocContent) → Prop where
  | create {kind : DocKind} {input : DocInput} {id : ℕ} (hnew : db.written id = none)
      (hin : Admits db.written id (input.content kind)) :
      Rewrites db (.createDoc kind input) (Function.update db.written id (some (input.content kind)))
  | edit {kind : DocKind} {id : ℕ} {input : DocInput} {d : Doc} (hd : db.docOf kind id = some d)
      (hs : d.status = .draft) (hin : Admits db.written id (input.content kind)) :
      Rewrites db (.updateDoc kind id input) (Function.update db.written id (some (input.content kind)))
  | delete {kind : DocKind} {id : ℕ} {d : Doc} (hd : db.docOf kind id = some d) (hs : d.status = .draft) :
      Rewrites db (.deleteDoc kind id) (Function.update db.written id none)
  | invoice {side : Side} {order id : ℕ} {input : FromOrderInput} {o : Doc} (ho : db.docOf side.order order = some o)
      (hs : o.status = .opened) (hnew : db.written id = none)
      (hin : Admits db.written id (input.content side o (pick input.lines db.toInvoice (db.orderLines order)))) :
      Rewrites db (.fromOrder side order input) (Function.update db.written id
        (some (input.content side o (pick input.lines db.toInvoice (db.orderLines order)))))
  | other {op : Op} (hop : op.writesDoc = false) : Rewrites db op db.written

/-- What holds of every entry that is written holds of the whole map. -/
theorem Admits.update {m : ℕ → Option DocContent} {id : ℕ} {c : DocContent} (hin : Admits m id c)
    (h : ∀ k c', m k = some c' → Admits m k c') (k : ℕ) (c' : DocContent)
    (hk : Function.update m id (some c) k = some c') : Admits (Function.update m id (some c)) k c' := by
  by_cases hid : k = id
  · subst hid
    rw [Function.update_self] at hk
    obtain rfl := Option.some.inj hk
    refine ⟨hin.due, hin.currency, fun j c' hj hc' => ?_, hin.numbered, hin.line, hin.fits⟩
    rw [Function.update_of_ne hj] at hc'
    exact hin.number j c' hj hc'
  · rw [Function.update_of_ne hid] at hk
    have hold := h k c' hk
    refine ⟨hold.due, hold.currency, fun j c'' hj hc'' hkind hnumber => ?_, hold.numbered, hold.line, hold.fits⟩
    by_cases hji : j = id
    · subst hji
      rw [Function.update_self] at hc''
      obtain rfl := Option.some.inj hc''
      have hne := hin.number k c' hid hk hkind.symm hnumber.symm
      rw [hkind] at hne
      exact Ne.symm hne
    · rw [Function.update_of_ne hji] at hc''
      exact hold.number j c'' hj hc'' hkind hnumber

theorem Admits.erase {m : ℕ → Option DocContent} {id : ℕ} (h : ∀ k c, m k = some c → Admits m k c) (k : ℕ)
    (c : DocContent) (hk : Function.update m id none k = some c) : Admits (Function.update m id none) k c := by
  have hid : k ≠ id := by
    rintro rfl
    rw [Function.update_self] at hk
    cases hk
  rw [Function.update_of_ne hid] at hk
  have hold := h k c hk
  refine ⟨hold.due, hold.currency, fun j c' hj hc' => ?_, hold.numbered, hold.line, hold.fits⟩
  by_cases hji : j = id
  · subst hji
    rw [Function.update_self] at hc'
    cases hc'
  · rw [Function.update_of_ne hji] at hc'
    exact hold.number j c' hj hc'

theorem Rewrites.admits {db : DB} {op : Op} {m : ℕ → Option DocContent} (h : Rewrites db op m)
    (hold : ∀ k c, db.written k = some c → Admits db.written k c) (k : ℕ) (c : DocContent) (hk : m k = some c) :
    Admits m k c := by
  cases h with
  | create hnew hin => exact hin.update hold k c hk
  | edit hd hs hin => exact hin.update hold k c hk
  | delete hd hs => exact Admits.erase hold k c hk
  | invoice ho hs hnew hin => exact hin.update hold k c hk
  | other hop => exact hold k c hk

/-! ### Rows and contents -/

theorem map_entered_numberRows (docId n : ℕ) (ls : List (ℕ × NewDocLine)) :
    (numberRows docId n ls).map DocLine.entered = ls := by
  induction ls generalizing n with
  | nil => rfl
  | cons x ls ih => exact congrArg (x :: ·) (ih (n + 1))

theorem linesFit_entered {ls : List DocLine} : LinesFit ((ls.map DocLine.entered).map Prod.snd) ↔
    fits (ls.map DocLine.lineSubtotal).sum = true ∧ fits (ls.map DocLine.taxAmount).sum = true ∧
      fits (ls.map DocLine.lineTotal).sum = true := by
  unfold LinesFit
  simp only [List.map_map]
  rfl

section content

variable {db db' : DB} {id : ℕ}

theorem written_congr (hd : db'.docs = db.docs) (hl : db'.docLines = db.docLines) : db'.written = db.written := by
  funext k
  rw [DB.written, DB.written, DB.linesOfDoc, hd, hl, DB.linesOfDoc]

/-- An update of what a document does not say. -/
theorem written_update {ks : List ℕ} (f : Doc → Doc) (hf : ∀ d, (f d).id = d.id)
    (hcontent : ∀ d ls, (f d).content ls = d.content ls) (hd : db'.docs = db.docs.update ks f hf)
    (hl : db'.docLines = db.docLines) : db'.written = db.written := by
  funext k
  rw [DB.written, DB.written, DB.linesOfDoc, hd, hl, Table.find?_update, Option.map_map]
  refine Option.map_congr fun d _ => ?_
  rw [Function.comp_apply]
  split
  · exact hcontent d _
  · rfl

theorem DocEdit.written_of_ne (h : DocEdit id db db') {k : ℕ} (hk : k ≠ id) : db'.written k = db.written k := by
  rw [DB.written, h.others k hk, h.otherLines k hk, DB.written]

theorem written_of_find? {d : Doc} (hd : db.docs.find? id = some d) :
    db.written id = some (d.content (db.linesOfDoc id)) := by
  rw [DB.written, hd]
  rfl

theorem SameHeader.written (h : SameHeader id db db') {d : Doc} (hd : db.docs.find? id = some d) :
    db'.written id = some (d.content (db'.linesOfDoc id)) := by
  obtain ⟨a, b, c, hd'⟩ := h d hd
  rw [written_of_find? hd']
  rfl

theorem DocEdit.written (h : DocEdit id db db') {c : Option DocContent} (hc : db'.written id = c) :
    db'.written = Function.update db.written id c := by
  funext k
  by_cases hk : k = id
  · rw [hk, Function.update_self, hc]
  · rw [Function.update_of_ne hk, h.written_of_ne hk]

theorem written_eq_none (h : db.docs.Free id) : db.written id = none := by
  rw [DB.written, Table.free_iff_find?.1 h, Option.map_none]

/-- Lines with the numbers 1, 2, … are in the order of their numbers. -/
theorem content_numbered {d : Doc} {ls : List DocLine} {n : ℕ}
    (h : (ls.map DocLine.entered).map Prod.fst = List.range' n ls.length) :
    (d.content ls).lines = ls.map DocLine.entered := by
  have hsorted : ls.Pairwise fun l m => l.lineNo ≤ m.lineNo := by
    have hnos : ls.map (·.lineNo) = List.range' n ls.length := by
      rw [← h, List.map_map]
      rfl
    have hrange : (List.range' n ls.length).Pairwise (· ≤ ·) := List.pairwise_le_range'
    rw [← hnos] at hrange
    exact List.pairwise_map.1 hrange
  exact congrArg _ hsorted.insertionSort_eq

end content

/-! ### Statements -/

section statements

variable {kind : DocKind} {docId : ℕ} {v w : Env DB Err}

theorem linesOfDoc_append {db db' : DB} {rows : List DocLine} (h : db'.docLines.rows = db.docLines.rows ++ rows)
    (hrows : ∀ l ∈ rows, l.docId = docId) : db'.linesOfDoc docId = db.linesOfDoc docId ++ rows := by
  rw [DB.linesOfDoc, h, List.filter_append, DB.linesOfDoc]
  congr 1
  exact List.filter_eq_self.2 fun l hl => decide_eq_true (hrows l hl)

/-- The totals that a draft is given are in range. -/
theorem fits_of_recompute {db : DB} {lines : Table DocLine} {f : Table Doc → Table Doc}
    (h : db.recompute docId lines = .ok f) (hd : db.Drafted docId) :
    LinesFit (((lines.rows.filter fun l => l.docId = docId).map DocLine.entered).map Prod.snd) := by
  obtain ⟨d, hd, hs⟩ := hd
  simp only [DB.recompute, Except.bind_eq_ok_iff, ensure_eq_ok, exists_const] at h
  obtain ⟨hfit, -⟩ := h
  rw [Table.hit_of_find? hd (decide_eq_true hs)] at hfit
  simp only [reduceCtorEq, decide_false, Bool.false_or, Bool.and_eq_true] at hfit
  exact linesFit_entered.2 ⟨hfit.1.1, hfit.1.2, hfit.2⟩

theorem admitsLine_of_checkRows {db : DB} {n : ℕ} {ls : List (ℕ × NewDocLine)}
    (h : checkRows db kind (numberRows docId n ls) = .ok ()) : ∀ x ∈ ls, AdmitsLine kind x.2 := by
  intro x hx
  rw [← map_entered_numberRows docId n ls] at hx
  obtain ⟨l, hl, rfl⟩ := List.mem_map.1 hx
  have hcheck := checkRows_eq_ok h l hl
  simp only [DocLine.check, Except.bind_eq_ok_iff, ensure_eq_ok, exists_const, Bool.and_eq_true,
    decide_eq_true_eq] at hcheck
  obtain ⟨hrange, hquantity, hrate, -⟩ := hcheck
  refine ⟨?_, hrate, hrange.1.1.1.1.1, hrange.1.1.1.1.2, hrange.1.1.1.2⟩
  split
  · rename_i ho
    rw [if_pos ho] at hquantity
    exact of_decide_eq_true hquantity
  · rename_i ho
    rw [if_neg ho] at hquantity
    exact of_decide_eq_true hquantity

/-- What an INSERT of lines adds to a draft. -/
theorem run_insertDocLines_entered {select : DB → List (ℕ × NewDocLine)} {k : ℕ}
    (h : (insertDocLines kind docId select).run v = .ok (k, w)) (hv : Fresh v.seq v.db) (hd : v.db.Drafted docId) :
    (∃ rows, w.db.linesOfDoc docId = v.db.linesOfDoc docId ++ rows ∧ rows.map DocLine.entered = select v.db) ∧
      (select v.db ≠ [] → LinesFit (((w.db.linesOfDoc docId).map DocLine.entered).map Prod.snd)) ∧
      ∀ x ∈ select v.db, AdmitsLine kind x.2 := by
  obtain ⟨-, n, hrows, -⟩ := run_insertDocLines_rows h hv
  refine ⟨⟨_, linesOfDoc_append hrows fun l hl => docId_numberRows l hl, map_entered_numberRows _ _ _⟩,
    fun hne => ?_, ?_⟩
  · obtain ⟨o, ho, -, rfl⟩ := Prog.run_exec_ok.1 h
    simp only [Except.bind_eq_ok_iff, ensure_eq_ok, exists_const] at ho
    obtain ⟨u, -, -, ho⟩ := ho
    split at ho
    · rename_i hnil
      have hnone : select v.db = [] := by
        rw [← map_entered_numberRows docId (v.seq + v.gaps 0) (select v.db), hnil]
        rfl
      exact absurd hnone hne
    · simp only [Except.bind_eq_ok_iff, Except.ok.injEq] at ho
      obtain ⟨f, hf, rfl⟩ := ho
      exact fits_of_recompute hf hd
  · obtain ⟨o, ho, -, rfl⟩ := Prog.run_exec_ok.1 h
    simp only [Except.bind_eq_ok_iff] at ho
    obtain ⟨u, hc, -⟩ := ho
    exact admitsLine_of_checkRows hc

/-- The lines of a request, numbered from `i + 1` on, and what the draft fits at each of them. -/
theorem run_insertLinesOf_entered {i : ℕ} {ls : List DocLineInput} {u : Unit}
    (h : (insertLinesOf kind docId i ls).run v = .ok (u, w)) (hv : Fresh v.seq v.db) (hd : v.db.Drafted docId) :
    (∃ rows, w.db.linesOfDoc docId = v.db.linesOfDoc docId ++ rows ∧
      rows.map DocLine.entered = (ls.zipIdx (i + 1)).map fun x => (x.2, { toDocLineInput := x.1 })) ∧
      (∀ n < ls.length, LinesFit (((v.db.linesOfDoc docId).map DocLine.entered).map Prod.snd ++
        (ls.take (n + 1)).map fun l => { toDocLineInput := l })) ∧
      ∀ l ∈ ls, AdmitsLine kind { toDocLineInput := l } := by
  induction ls generalizing i v with
  | nil =>
    obtain ⟨-, rfl⟩ := Prog.run_pure_ok.1 h
    exact ⟨⟨[], (List.append_nil _).symm, rfl⟩, fun n hn => absurd hn (Nat.not_lt_zero n),
      fun l hl => absurd hl List.not_mem_nil⟩
  | cons l ls ih =>
    obtain ⟨k, v₁, h₁, h⟩ := Prog.run_bind_ok.1 h
    obtain ⟨⟨rows, hrows, hentered⟩, hfit, hline⟩ := run_insertDocLines_entered h₁ hv hd
    obtain ⟨⟨rows', hrows', hentered'⟩, hfit', hline'⟩ :=
      ih h (Prog.run_keeps Fresh.mono (allFresh_insertDocLines _ _ _) h₁ hv) (run_insertDocLines h₁ hv hd).2
    refine ⟨⟨rows ++ rows', ?_, ?_⟩, fun n hn => ?_, fun x hx => ?_⟩
    · rw [hrows', hrows, List.append_assoc]
    · rw [List.map_append, hentered, hentered']
      rfl
    · have hfirst := hfit (List.cons_ne_nil _ _)
      rw [hrows, List.map_append, List.map_append, hentered] at hfirst
      cases n with
      | zero => exact hfirst
      | succ n =>
        have hrest := hfit' n (Nat.lt_of_succ_lt_succ hn)
        rw [hrows, List.map_append, List.map_append, hentered, List.append_assoc] at hrest
        exact hrest
    · rcases List.mem_cons.1 hx with rfl | hx
      · exact hline _ (List.mem_singleton_self _)
      · exact hline' x hx

end statements

/-! ### Operations -/

section operations

variable {kind : DocKind} {id : ℕ} {input : DocInput} {v w : Env DB Err}

theorem linesFit_nil : LinesFit [] := ⟨by decide, by decide, by decide⟩

theorem numbered_content : (input.content kind).lines.map Prod.fst =
    List.range' 1 (input.content kind).lines.length := by
  rw [DocInput.content, List.map_map, List.length_map, List.length_zipIdx]
  exact List.zipIdx_map_snd 1 input.lines

theorem map_snd_content : (input.content kind).lines.map Prod.snd =
    input.lines.map fun l => { toDocLineInput := l } := by
  rw [DocInput.content, List.map_map, ← List.zipIdx_map_fst 1 input.lines, List.map_map]
  simp only [List.zipIdx_map_fst]
  rfl

/-- What the constraints of a header come to. -/
theorem admits_header {ls : List (ℕ × NewDocLine)} (hh : v.db.headerCheck kind id input = .ok ())
    (hnumbered : ls.map Prod.fst = List.range' 1 ls.length)
    (hline : ∀ x ∈ ls, AdmitsLine kind x.2)
    (hfit : (∀ x ∈ ls, x.2.orderLineId = none) → ∀ n, LinesFit ((ls.take n).map Prod.snd)) :
    Admits v.db.written id { input.content kind with lines := ls } := by
  simp only [DB.headerCheck, Except.bind_eq_ok_iff, ensure_eq_ok, exists_const, Bool.or_eq_true,
    decide_eq_true_eq] at hh
  obtain ⟨hdue, hnumber, -, hcurrency⟩ := hh
  refine ⟨fun due hin => ?_, hcurrency, fun k c hk hc hkind hsame hscope => ?_, hnumbered, hline, hfit⟩
  · have hin : due ∈ if kind.isCreditNote then none else input.dueDate := hin
    split at hin
    · cases hin
    · rename_i hnote
      rcases hdue with hdue | hdue
      · exact absurd hdue hnote
      · rw [Option.mem_def.1 hin] at hdue
        exact ⟨Bool.eq_false_of_not_eq_true hnote, of_decide_eq_true hdue⟩
  · obtain ⟨d, hd, rfl⟩ := Option.map_eq_some_iff.1 hc
    obtain ⟨hmem, hid⟩ := Table.find?_eq_some.1 hd
    have htaken : v.db.numberTaken kind id input = true := by
      refine List.any_eq_true.2 ⟨d, hmem, ?_⟩
      have hid : d.id = k := hid
      have hkind : d.kind = kind := hkind
      have hsame : d.number = input.number := hsame
      have hscope : kind.numberScope d.partyId = kind.numberScope input.partyId := hscope
      simp [hid, hk, hkind, hsame, hscope]
    rw [htaken] at hnumber
    cases hnumber

/-- What the constraints of a request come to. -/
theorem admits_content (hh : v.db.headerCheck kind id input = .ok ())
    (hfit : ∀ n < input.lines.length, LinesFit ((input.lines.take (n + 1)).map fun l => { toDocLineInput := l }))
    (hline : ∀ l ∈ input.lines, AdmitsLine kind { toDocLineInput := l }) :
    Admits v.db.written id (input.content kind) := by
  show Admits v.db.written id { input.content kind with lines := (input.content kind).lines }
  refine admits_header hh numbered_content (fun x hx => ?_) fun _ n => ?_
  · obtain ⟨⟨l, i⟩, hl, rfl⟩ := List.mem_map.1 hx
    exact hline l (List.fst_mem_of_mem_zipIdx hl)
  · have htake : ((input.content kind).lines.take n).map Prod.snd =
        (input.lines.take n).map fun l => { toDocLineInput := l } := by
      rw [List.map_take, map_snd_content, List.map_take]
    rw [htake]
    cases n with
    | zero => exact linesFit_nil
    | succ n =>
      by_cases hn : n < input.lines.length
      · exact hfit n hn
      · rw [List.take_of_length_le (by omega)]
        cases hls : input.lines with
        | nil => exact linesFit_nil
        | cons l ls =>
          have hall := hfit ls.length (by rw [hls]; exact Nat.lt_succ_self _)
          rw [hls, List.take_of_length_le (by rw [List.length_cons])] at hall
          exact hall

/-- The content of the header `d` with the lines of a request. -/
theorem content_of_entered {d : Doc} {rows : List DocLine}
    (hhead : (d.content []) = { input.content kind with lines := [] })
    (hrows : rows.map DocLine.entered = (input.lines.zipIdx 1).map fun x => (x.2, { toDocLineInput := x.1 })) :
    d.content rows = input.content kind := by
  have hlen : rows.length = input.lines.length := by
    have := congrArg List.length hrows
    rwa [List.length_map, List.length_map, List.length_zipIdx] at this
  have hlines : (d.content rows).lines = (input.content kind).lines := by
    refine (content_numbered (n := 1) ?_).trans hrows
    rw [hrows, hlen, List.map_map]
    exact List.zipIdx_map_snd 1 input.lines
  have hsplit : d.content rows = { d.content [] with lines := (d.content rows).lines } := rfl
  rw [hsplit, hhead, hlines]

theorem run_createDoc_content (h : (createDoc kind input).run v = .ok (id, w)) (hv : Fresh v.seq v.db)
    (ho : v.db.DocsOk) : v.db.written id = none ∧ Admits v.db.written id (input.content kind) ∧
      w.db.written = Function.update v.db.written id (some (input.content kind)) := by
  have hedit := run_createDoc h hv
  obtain ⟨id', v₁, h₁, h⟩ := Prog.run_bind_ok.1 h
  obtain ⟨u, v₂, h₂, h⟩ := Prog.run_bind_ok.1 h
  obtain ⟨rfl, rfl⟩ := Prog.run_pure_ok.1 h
  obtain ⟨hfree, hdb, -, hfind⟩ := run_insertHeader_doc h₁ hv
  have hv₁ := Prog.run_keeps Fresh.mono (allFresh_insertHeader _ _) h₁ hv
  have hnone : v₁.db.linesOfDoc id = [] := by
    rw [hdb]
    exact ho.linesOfDoc hfree
  obtain ⟨⟨rows, hrows, hentered⟩, hfit, hline⟩ :=
    run_insertLinesOf_entered h₂ hv₁ (run_insertHeader h₁ hv).2
  rw [hnone] at hrows hfit
  have hh : v.db.headerCheck kind id input = .ok () := by
    obtain ⟨o, ho', rfl, -⟩ := Prog.run_exec_ok.1 h₁
    simp only [Except.bind_eq_ok_iff, Except.ok.injEq] at ho'
    obtain ⟨u, hcheck, rfl⟩ := ho'
    exact hcheck
  refine ⟨written_eq_none hfree, admits_content hh hfit hline, hedit.written ?_⟩
  rw [(run_insertLinesOf_rows h₂ hv₁).1.written hfind, hrows]
  exact congrArg _ (content_of_entered rfl hentered)

theorem run_updateDoc_content {u : Unit} (h : (updateDoc kind id input).run v = .ok (u, w)) (hv : Fresh v.seq v.db) :
    ∃ d, v.db.docOf kind id = some d ∧ d.status = .draft ∧ Admits v.db.written id (input.content kind) ∧
      w.db.written = Function.update v.db.written id (some (input.content kind)) := by
  have hedit := run_updateDoc h hv
  obtain ⟨u₁, v₁, h₁, h⟩ := Prog.run_bind_ok.1 h
  obtain ⟨k, v₂, h₂, h⟩ := Prog.run_bind_ok.1 h
  obtain ⟨hdb, hseq⟩ := run_refuseOrderLinked h₁
  have hv₁ : Fresh v₁.seq v₁.db := hdb ▸ hv.mono _ _ _ hseq
  split at h
  · exact absurd h not_run_notFoundOrNotDraft
  · rename_i hk
    obtain ⟨u₃, v₃, h₃, h⟩ := Prog.run_bind_ok.1 h
    have hv₂ := Prog.run_keeps Fresh.mono (allFresh_updateHeader _ _ _) h₂ hv₁
    have hv₃ := Prog.run_keeps Fresh.mono (allFresh_deleteDocLines _) h₃ hv₂
    have hdraft := (run_deleteDocLines h₃ (run_updateHeader h₂ hk).2).2
    obtain ⟨hh₃, hgone⟩ := run_deleteDocLines_rows h₃
    obtain ⟨d, hd, hdk, hs, hd₂, hcheck⟩ : ∃ d, v₁.db.docs.find? id = some d ∧ d.kind = kind ∧ d.status = .draft ∧
        v₂.db.docs.find? id = some (d.edited kind input) ∧ v₁.db.headerCheck kind id input = .ok () := by
      obtain ⟨o, ho, rfl, rfl⟩ := Prog.run_exec_ok.1 h₂
      dsimp only at ho
      split at ho
      · cases ho
        exact absurd rfl hk
      · rename_i hne
        simp only [Except.bind_eq_ok_iff, Except.ok.injEq] at ho
        obtain ⟨u, hcheck, rfl⟩ := ho
        obtain ⟨hks, d, hd, hdk, hs⟩ := draft_of_hit hne
        refine ⟨d, hd, hdk, hs, ?_, hcheck⟩
        simp only [Env.after_db, hks]
        exact Table.find?_update_self (f := (·.edited kind input)) (fun _ => rfl) hd
    have hnone : v₃.db.linesOfDoc id = [] :=
      List.filter_eq_nil_iff.2 fun l hl => by simpa using hgone l hl
    obtain ⟨⟨rows, hrows, hentered⟩, hfit, hline⟩ := run_insertLinesOf_entered h hv₃ hdraft
    rw [hnone] at hrows hfit
    rw [hdb] at hd hcheck
    refine ⟨d, docOf_eq_some.2 ⟨hd, hdk⟩, hs, admits_content hcheck hfit hline, hedit.written ?_⟩
    rw [(hh₃.trans (run_insertLinesOf_rows h hv₃).1).written hd₂, hrows]
    refine congrArg _ (content_of_entered ?_ hentered)
    unfold Doc.content Doc.edited DocInput.content
    rw [hdk]
    rfl

theorem run_deleteDoc_content {u : Unit} (h : (deleteDoc kind id).run v = .ok (u, w)) :
    ∃ d, v.db.docOf kind id = some d ∧ d.status = .draft ∧ w.db.written = Function.update v.db.written id none := by
  have hedit := run_deleteDoc h
  obtain ⟨k, v₁, h₁, h⟩ := Prog.run_bind_ok.1 h
  split at h
  · exact absurd h not_run_notFoundOrNotDraft
  · rename_i hk
    obtain ⟨-, rfl⟩ := Prog.run_pure_ok.1 h
    obtain ⟨o, ho, rfl, rfl⟩ := Prog.run_exec_ok.1 h₁
    dsimp only at ho
    split at ho
    · cases ho
      exact absurd rfl hk
    · rename_i hne
      simp only [Except.bind_eq_ok_iff, ensure_eq_ok, exists_const, Except.ok.injEq] at ho
      obtain ⟨-, -, rfl⟩ := ho
      obtain ⟨hks, d, hd, hdk, hs⟩ := draft_of_hit hne
      refine ⟨d, docOf_eq_some.2 ⟨hd, hdk⟩, hs, hedit.written ?_⟩
      refine written_eq_none (Table.free_iff_find?.2 ?_)
      simp only [Env.after_db, hks]
      simp [Table.find?_erase]

theorem numbered_numberFrom {i : ℕ} {xs : List (DocLine × ℤ)} :
    (numberFrom i xs).map Prod.fst = List.range' i (numberFrom i xs).length := by
  induction xs generalizing i with
  | nil => rfl
  | cons x xs ih =>
    rw [numberFrom, List.map_cons, ih, List.length_cons, List.range'_succ]

/-- A new header leaves open what was left to invoice. -/
theorem toInvoice_insert {db : DB} {x : Doc} (ho : db.DocsOk) (hfree : db.docs.Free x.id) (l : DocLine) :
    ({ db with docs := db.docs.insert x } : DB).toInvoice l = db.toInvoice l := by
  have hlines : ∀ m ∈ db.docLines.rows, (db.docs.insert x).find? m.docId = db.docs.find? m.docId := by
    intro m hm
    obtain ⟨d, hd, hdm⟩ := ho.lines m hm
    exact Table.find?_insert_of_ne fun he => hfree d hd (hdm.trans he.symm)
  have hfulfilled : ({ db with docs := db.docs.insert x } : DB).fulfilled l.id = db.fulfilled l.id := by
    unfold DB.fulfilled
    congr 2
    apply List.filter_congr
    intro m hm
    dsimp only
    rw [hlines m hm]
  rw [DB.toInvoice, hfulfilled, DB.toInvoice]

theorem run_fromOrder_content {side : Side} {order : ℕ} {input : FromOrderInput}
    (h : (fromOrder side order input).run v = .ok (id, w)) (hv : Fresh v.seq v.db) (ho : v.db.DocsOk) :
    ∃ o, v.db.docOf side.order order = some o ∧ o.status = .opened ∧ v.db.written id = none ∧
      Admits v.db.written id (input.content side o (pick input.lines v.db.toInvoice (v.db.orderLines order))) ∧
      w.db.written = Function.update v.db.written id
        (some (input.content side o (pick input.lines v.db.toInvoice (v.db.orderLines order)))) := by
  have hedit := run_fromOrder h hv
  obtain ⟨o, v₁, h₁, h⟩ := Prog.run_bind_ok.1 h
  obtain ⟨rfl, rfl⟩ := Prog.run_read_ok.1 h₁
  have hv₁ : Fresh v.tick.seq v.tick.db := hv.mono _ _ _ (Env.le_tick_seq v)
  split at h
  · obtain ⟨s, v₂, -, h⟩ := Prog.run_bind_ok.1 h
    exact absurd h Prog.run_throw_ok
  · rename_i o hopen
    obtain ⟨hd, hs⟩ := Option.filter_eq_some_iff.1 hopen
    obtain ⟨id', v₂, h₂, h⟩ := Prog.run_bind_ok.1 h
    obtain ⟨n, v₃, h₃, h⟩ := Prog.run_bind_ok.1 h
    obtain ⟨u₄, v₄, h₄, h'⟩ := Prog.run_bind_ok.1 h
    obtain ⟨hn, rfl⟩ := Prog.run_require_ok.1 h₄
    obtain ⟨rfl, rfl⟩ := Prog.run_pure_ok.1 h'
    obtain ⟨hfree, hdb, -, hfind⟩ := run_insertHeader_doc h₂ hv₁
    have hv₂ := Prog.run_keeps Fresh.mono (allFresh_insertHeader _ _) h₂ hv₁
    have hnone : v₂.db.linesOfDoc id = [] := by
      rw [hdb]
      exact ho.linesOfDoc hfree
    have hpick : numberFrom 1 (pick input.lines v₂.db.toInvoice (v₂.db.orderLines order)) =
        numberFrom 1 (pick input.lines v.db.toInvoice (v.db.orderLines order)) := by
      have hleft : v₂.db.toInvoice = v.db.toInvoice := by
        funext l
        rw [hdb]
        exact toInvoice_insert (x := (input.header o).header side.invoice id) ho hfree l
      rw [hleft, hdb]
      rfl
    obtain ⟨⟨rows, hrows, hentered⟩, -, hline⟩ :=
      run_insertDocLines_entered h₃ hv₂ (run_insertHeader h₂ hv₁).2
    rw [hnone, List.nil_append] at hrows
    rw [hpick] at hentered hline
    have hh : v.db.headerCheck side.invoice id (input.header o) = .ok () := by
      obtain ⟨o', ho', rfl, -⟩ := Prog.run_exec_ok.1 h₂
      simp only [Except.bind_eq_ok_iff, Except.ok.injEq] at ho'
      obtain ⟨u, hcheck, rfl⟩ := ho'
      exact hcheck
    refine ⟨o, hd, of_decide_eq_true hs, written_eq_none hfree, ?_, hedit.written ?_⟩
    · refine admits_header hh numbered_numberFrom hline fun hall n => ?_
      -- every line of an invoice of an order is linked
      have hnil : numberFrom 1 (pick input.lines v.db.toInvoice (v.db.orderLines order)) = [] := by
        refine List.eq_nil_iff_forall_not_mem.2 fun y hy => ?_
        obtain ⟨x, -, -, hlink, -⟩ := mem_numberFrom y hy
        rw [hall y hy] at hlink
        cases hlink
      rw [hnil, List.take_nil]
      exact linesFit_nil
    · rw [(run_insertDocLines_rows h₃ hv₂).1.written hfind, hrows]
      refine congrArg some ?_
      have hlines : (((input.header o).header side.invoice id).content rows).lines =
          numberFrom 1 (pick input.lines v.db.toInvoice (v.db.orderLines order)) := by
        refine (content_numbered (n := 1) ?_).trans hentered
        rw [hentered, numbered_numberFrom, ← hentered, List.length_map]
      have hsplit : ∀ d : Doc, d.content rows = { d.content [] with lines := (d.content rows).lines } := fun _ => rfl
      rw [hsplit, hlines]
      rfl

/-! ### Operations that leave the documents as they are -/

theorem written_withStatus {s : DocStatus} {u : Unit} (h : (updateDocRow kind id (·.withStatus s)).run v = .ok (u, w)) :
    w.db.written = v.db.written := by
  rw [(run_updateDocRow h).1]
  exact written_update (·.withStatus s) (fun _ => rfl) (fun _ _ => rfl) rfl rfl

theorem written_confirm {side : Side} {u : Unit} (h : (confirm side id).run v = .ok (u, w)) :
    w.db.written = v.db.written := by
  obtain ⟨s, v₁, h₁, h⟩ := Prog.run_bind_ok.1 h
  obtain ⟨u₂, v₂, h₂, h⟩ := Prog.run_bind_ok.1 h
  obtain ⟨n, v₃, h₃, h⟩ := Prog.run_bind_ok.1 h
  obtain ⟨u₄, v₄, h₄, h⟩ := Prog.run_bind_ok.1 h
  obtain ⟨-, e₁⟩ := run_orderStatus h₁
  obtain ⟨-, rfl⟩ := Prog.run_require_ok.1 h₂
  obtain ⟨-, rfl⟩ := Prog.run_read_ok.1 h₃
  obtain ⟨-, rfl⟩ := Prog.run_require_ok.1 h₄
  rw [← e₁]
  exact written_withStatus (v := v₂.tick) h

theorem written_closeOrder {side : Side} {u : Unit} (h : (closeOrder side id).run v = .ok (u, w)) :
    w.db.written = v.db.written := by
  obtain ⟨s, v₁, h₁, h⟩ := Prog.run_bind_ok.1 h
  obtain ⟨u₂, v₂, h₂, h'⟩ := Prog.run_bind_ok.1 h
  obtain ⟨-, e₁⟩ := run_orderStatus h₁
  obtain ⟨-, rfl⟩ := Prog.run_require_ok.1 h₂
  rw [← e₁]
  exact written_withStatus (v := v₂) h'

theorem written_cancel {side : Side} {u : Unit} (h : (cancel side id).run v = .ok (u, w)) :
    w.db.written = v.db.written := by
  obtain ⟨s, v₁, h₁, h⟩ := Prog.run_bind_ok.1 h
  obtain ⟨-, e₁⟩ := run_orderStatus h₁
  rw [← e₁]
  split at h
  · exact written_withStatus (v := v₁) h
  · obtain ⟨b, v₂, h₂, h⟩ := Prog.run_bind_ok.1 h
    obtain ⟨u₃, v₃, h₃, h⟩ := Prog.run_bind_ok.1 h
    obtain ⟨-, rfl⟩ := Prog.run_read_ok.1 h₂
    obtain ⟨-, rfl⟩ := Prog.run_require_ok.1 h₃
    exact written_withStatus (v := v₁.tick) h
  · exact absurd h Prog.run_throw_ok

theorem run_written {op : Op} (hop : op.writesDoc = false) (h : (transaction op).run v = .ok ((), w))
    (hv : Fresh v.seq v.db) : w.db.written = v.db.written := by
  have outside (hp : AllOutside (transaction op)) : w.db.written = v.db.written := by
    have hsame := hp.sameBooks h hv
    exact written_congr hsame.docs hsame.docLines
  cases op with
  | createDoc kind input => cases hop
  | updateDoc kind id input => cases hop
  | deleteDoc kind id => cases hop
  | fromOrder side id input => cases hop
  | createPayment side input =>
    obtain ⟨id, h⟩ := run_void h
    have hedit := run_createPayment h hv
    exact written_congr (by rw [hedit.eq]) (by rw [hedit.eq])
  | updatePayment side id input =>
    have hedit := run_updatePayment h
    exact written_congr (by rw [hedit.eq]) (by rw [hedit.eq])
  | deletePayment side id =>
    have hedit := run_deletePayment h
    exact written_congr (by rw [hedit.eq]) (by rw [hedit.eq])
  | createMovement input =>
    obtain ⟨id, h⟩ := run_void h
    obtain ⟨hm, -⟩ := run_createMovement h hv
    exact written_congr (by rw [hm.eq]) (by rw [hm.eq])
  | updateMovement id input =>
    obtain ⟨hm, -⟩ := run_updateMovement h
    exact written_congr (by rw [hm.eq]) (by rw [hm.eq])
  | deleteMovement id =>
    obtain ⟨hm, -⟩ := run_deleteMovement h
    exact written_congr (by rw [hm.eq]) (by rw [hm.eq])
  | receive id input =>
    obtain ⟨ids, h⟩ := run_void h
    obtain ⟨hm, -⟩ := run_receive h hv
    exact written_congr (by rw [hm.eq]) (by rw [hm.eq])
  | ship id input =>
    obtain ⟨ids, h⟩ := run_void h
    obtain ⟨hm, -⟩ := run_ship h hv
    exact written_congr (by rw [hm.eq]) (by rw [hm.eq])
  | postDoc kind id =>
    obtain ⟨je, h⟩ := run_void h
    obtain ⟨d, c, period, rate, mid, rows, -, -, -, -, hw, -, hdb, -⟩ := run_postDoc kind.ok h hv
    rw [hdb]
    exact written_update (·.posted je period) (fun _ => rfl) (fun _ _ => rfl) rfl (by rw [hw.eq])
  | postPayment side id =>
    obtain ⟨je, h⟩ := run_void h
    obtain ⟨p, period, rate, mid, rows, -, -, -, -, hw, -, hdb, -⟩ := run_postPayment h hv
    rw [hdb]
    exact written_congr (by rw [hw.eq]) (by rw [hw.eq])
  | postMovement id account =>
    obtain ⟨je, h⟩ := run_void h
    obtain ⟨m, period, rate, memo, mid, rows, -, -, hw, hdb, -⟩ := run_postMovement h hv
    rw [hdb]
    exact written_congr (by rw [hw.eq]) (by rw [hw.eq])
  | autoApply side settler id =>
    obtain ⟨shares, h⟩ := run_void h
    obtain ⟨n, -, -, -, -, hfx, -⟩ := run_autoApply h hv
    exact written_congr (by rw [hfx.eq]) (by rw [hfx.eq])
  | unpostInvoice side id =>
    obtain ⟨rev, h⟩ := run_void h
    obtain ⟨d, e, r, rows, mid, -, -, -, -, hr, hdb, -⟩ := run_unpostDoc h hv
    rw [hdb]
    exact written_update Doc.unposted (fun _ => rfl) (fun _ _ => rfl) rfl (by rw [hr.wrote.eq])
  | unpostCreditNote side id =>
    obtain ⟨rev, h⟩ := run_void h
    obtain ⟨d, e, r, rows, mid, -, -, -, -, hr, hdb, -⟩ := run_unpostDoc h hv
    rw [hdb]
    exact written_update Doc.unposted (fun _ => rfl) (fun _ _ => rfl) rfl (by rw [hr.wrote.eq])
  | unpostPayment side id =>
    obtain ⟨rev, h⟩ := run_void h
    obtain ⟨p, je, mid, -, -, -, hr, hdb⟩ := run_unpostPayment h hv
    rw [hdb]
    exact written_congr (by rw [hr.eq]) (by rw [hr.eq])
  | unpostMovement id =>
    obtain ⟨rev, h⟩ := run_void h
    obtain ⟨m, e, r, rows, mid, -, -, hr, hdb, -⟩ := run_unpostMovement h hv
    rw [hdb]
    exact written_congr (by rw [hr.wrote.eq]) (by rw [hr.wrote.eq])
  | closeFiscalYear id retained =>
    obtain ⟨res, h⟩ := run_void h
    obtain ⟨fy, u, hg, hdb, hseq, -, h⟩ := run_closeFiscalYear h
    obtain ⟨closing, mid, hc, hcase⟩ := run_closeRest h (hdb ▸ hv.mono _ _ _ hseq) (hdb ▸ hg.year)
    rw [← hdb]
    rcases hcase with ⟨-, rfl, rfl⟩ | ⟨je, period, rows, rfl, hw, -⟩
    · exact written_congr (by rw [hc.eq]) (by rw [hc.eq])
    · exact written_congr (by rw [hc.eq, hw.eq]) (by rw [hc.eq, hw.eq])
  | reopenFiscalYear id =>
    obtain ⟨rev, h⟩ := run_void h
    obtain ⟨fy, mid, -, -, -, hmid, -, -, ⟨-, hdb⟩ | ⟨e, r, rows, -, hr⟩⟩ := run_reopenFiscalYear h hv
    · exact written_congr (by rw [hdb, hmid]) (by rw [hdb, hmid])
    · exact written_congr (by rw [hr.wrote.eq, hmid]) (by rw [hr.wrote.eq, hmid])
  | confirmOrder side id => exact written_confirm h
  | closeOrder side id => exact written_closeOrder h
  | cancelOrder side id => exact written_cancel h
  | createStatement input => exact outside (allOutside_void (allOutside_createStatement _))
  | updateStatement id input => exact outside (allOutside_updateStatement _ _)
  | deleteStatement id => exact outside (allOutside_deleteStatement _)
  | addLines statement lines => exact outside (allOutside_addLines _ _)
  | deleteLine id => exact outside (allOutside_deleteLine _)
  | matchLine id line => exact outside (allOutside_matchLine _ _)
  | unmatchLine id => exact outside (allOutside_unmatchLine _)
  | autoMatch statement => exact outside (allOutside_void (allOutside_autoMatch _))
  | reconcile id => exact outside (allOutside_reconcile _)
  | reopenStatement id => exact outside (allOutside_reopen _)
  | createAccount input => exact outside (allOutside_void (allOutside_createAccount _))
  | updateAccount id input => exact outside (allOutside_updateAccount _ _)
  | createParty side account => exact outside (allOutside_void (allOutside_createParty _ _))
  | updateParty side id account => exact outside (allOutside_updateParty _ _ _)
  | createProduct input => exact outside (allOutside_void (allOutside_createProduct _))
  | updateProduct id input => exact outside (allOutside_updateProduct _ _)
  | createTaxCode code account => exact outside (allOutside_createTaxCode _ _)
  | updateTaxCode code account => exact outside (allOutside_updateTaxCode _ _)
  | createWarehouse => exact outside (allOutside_void allOutside_createWarehouse)
  | updateSettings input => exact outside (allOutside_updateSettings _)
  | createExchangeRate currency date rate => exact outside (allOutside_createExchangeRate _ _ _)
  | updateExchangeRate currency date rate => exact outside (allOutside_updateExchangeRate _ _ _)
  | deleteExchangeRate currency date => exact outside (allOutside_deleteExchangeRate _ _)
  | createFiscalYear input => exact outside (allOutside_void (allOutside_createFiscalYear _))
  | updateFiscalYear id input => exact outside (allOutside_updateFiscalYear _ _)
  | createPeriod input => exact outside (allOutside_void (allOutside_createPeriod _))
  | updatePeriod id input => exact outside (allOutside_updatePeriod _ _)

end operations

/-! ### Every operation -/

theorem run_rewrites {op : Op} {v w : Env DB Err} (h : (transaction op).run v = .ok ((), w)) (hv : Fresh v.seq v.db)
    (ho : v.db.DocsOk) : Rewrites v.db op w.db.written := by
  cases op with
  | createDoc kind input =>
    obtain ⟨id, h⟩ := run_void h
    obtain ⟨hnew, hin, hw⟩ := run_createDoc_content h hv ho
    rw [hw]
    exact .create hnew hin
  | updateDoc kind id input =>
    obtain ⟨d, hd, hs, hin, hw⟩ := run_updateDoc_content h hv
    rw [hw]
    exact .edit hd hs hin
  | deleteDoc kind id =>
    obtain ⟨d, hd, hs, hw⟩ := run_deleteDoc_content h
    rw [hw]
    exact .delete hd hs
  | fromOrder side order input =>
    obtain ⟨id, h⟩ := run_void h
    obtain ⟨o, hd, hs, hnew, hin, hw⟩ := run_fromOrder_content h hv ho
    rw [hw]
    exact .invoice hd hs hnew hin
  | _ =>
    rw [run_written rfl h hv]
    exact .other rfl

theorem commit_rewrites {s s' : Store DB} {op : Op} {gaps : ℕ → ℕ} (hs : Reachable s)
    (h : (transaction op).commit gaps s = .ok ((), s')) : Rewrites s.db op s'.db.written := by
  obtain ⟨w, hrun, -, rfl⟩ := Prog.commit_eq_ok.1 h
  exact run_rewrites hrun hs.fresh hs.docsOk

theorem Reachable.admits {s : Store DB} (h : Reachable s) (k : ℕ) (c : DocContent) (hk : s.db.written k = some c) :
    Admits s.db.written k c := by
  induction h generalizing k c with
  | start => cases hk
  | step hs hstep ih =>
    obtain ⟨op, gaps, hc⟩ := hstep
    exact (commit_rewrites hs hc).admits ih k c hk

/-- The operation edits or deletes the document `id`. -/
def Op.rewrites (op : Op) (id : ℕ) : Bool :=
  match op with
  | .updateDoc _ k _ => k = id
  | .deleteDoc _ k => k = id
  | _ => false

/-- An entry that is there changes by the operations that name it. -/
theorem Rewrites.keeps {db : DB} {op : Op} {m : ℕ → Option DocContent} (h : Rewrites db op m) {id : ℕ} {c : DocContent}
    (hop : op.rewrites id = false) (hc : db.written id = some c) : m id = some c := by
  cases h with
  | create hnew hin =>
    rw [Function.update_of_ne, hc]
    rintro rfl
    rw [hnew] at hc
    cases hc
  | edit hd hs hin =>
    rw [Function.update_of_ne, hc]
    exact Ne.symm (of_decide_eq_false hop)
  | delete hd hs =>
    rw [Function.update_of_ne, hc]
    exact Ne.symm (of_decide_eq_false hop)
  | invoice ho hs hnew hin =>
    rw [Function.update_of_ne, hc]
    rintro rfl
    rw [hnew] at hc
    cases hc
  | other hop => exact hc

theorem Runs.keeps {s s' : Store DB} {id : ℕ} {c : DocContent}
    (hr : Runs (fun _ op => op.rewrites id = false) s s') (hs : Reachable s) (hc : s.db.written id = some c) :
    s'.db.written id = some c := by
  induction hr with
  | refl => exact hc
  | step hr hop h ih => exact (commit_rewrites (hr.reachable hs) h).keeps hop ih
