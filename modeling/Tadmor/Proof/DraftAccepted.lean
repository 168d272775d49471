import Tadmor.Proof.DocumentForm
import Tadmor.Proof.Rows

/-!
# A draft that is saved as it was opened is accepted

An UPDATE of a draft goes through when its header and each of its lines pass the checks of the tables and no line is
linked to a line of the draft (`exists_commit_updateDoc`).  What an unchanged form sends passes them, since the draft
has passed them: only its number may be taken once the blanks around it are gone (`unchanged_draft_accepted`).
-/

section accepted

variable {kind : DocKind} {id : ℕ} {v : Env DB Err}

/-- The checks of a line that do not depend on its document. -/
def DB.LineFits (db : DB) (kind : DocKind) (l : DocLineInput) : Prop :=
  AdmitsLine kind { toDocLineInput := l } ∧
    ∀ docId n i, (NewDocLine.row { toDocLineInput := l } docId n i).RowOk db.products db.accounts db.taxCodes

/-- A line that is linked to no order passes its checks when its row and its number do. -/
theorem check_of_rowOk {db : DB} {l : DocLine} (h : l.RowOk db.products db.accounts db.taxCodes)
    (hquantity : if kind.isOrder then 0 < l.quantity else l.quantity ≠ 0)
    (hno : ∀ m ∈ db.docLines, m.docId = l.docId → m.lineNo ≠ l.lineNo)
    (hdoc : (db.docOf kind l.docId).isSome = true) (hlink : l.orderLineId = none) : l.check db kind = .ok () := by
  simp only [DocLine.check, Except.bind_eq_ok_iff, ensure_eq_ok, exists_const]
  refine ⟨h.amounts, ?_, decide_eq_true h.taxRate, List.all_eq_true.2 fun m hm => ?_, hdoc, h.product, h.account,
    h.taxCode, ?_⟩
  · split at hquantity
    · rename_i ho
      rw [if_pos ho]
      exact decide_eq_true hquantity
    · rename_i ho
      rw [if_neg ho]
      exact decide_eq_true hquantity
  · by_cases hid : m.docId = l.docId
    · simp [hno m hm hid]
    · simp [hid]
  · rw [hlink]
    rfl

/-- A statement that is accepted ends. -/
theorem exists_run_exec {α : Type} {r : ℕ → DB → Except Err (Outcome DB Lock Err α)}
    (h : ∃ o, r (v.seq + v.gaps 0) v.db = .ok o) : ∃ a w, (Prog.exec r).run v = .ok (a, w) := by
  obtain ⟨o, ho⟩ := h
  exact ⟨o.res, v.after o, Prog.run_exec_ok.2 ⟨o, ho, rfl, rfl⟩⟩

/-- The INSERT of a line that fits is accepted. -/
theorem exists_run_insertDocLine {i : ℕ} {l : DocLineInput} (hv : Fresh v.seq v.db)
    (hdoc : (v.db.docOf kind id).isSome = true) (hline : v.db.LineFits kind l)
    (hno : ∀ m ∈ v.db.docLines, m.docId = id → m.lineNo ≤ i)
    (hfit : LinesFit (((v.db.linesOfDoc id).map DocLine.entered).map Prod.snd ++ [{ toDocLineInput := l }])) :
    ∃ k w, (insertDocLines kind id fun _ => [(i + 1, { toDocLineInput := l })]).run v = .ok (k, w) := by
  set rows := numberRows id (v.seq + v.gaps 0) [(i + 1, { toDocLineInput := l })] with hnumbered
  have hcheck : checkRows v.db kind rows = .ok () := by
    refine Except.bind_eq_ok_iff.2 ⟨(), check_of_rowOk (hline.2 id _ _) hline.1.quantity (fun m hm hid => ?_) hdoc rfl,
      rfl⟩
    exact ne_of_lt (Nat.lt_succ_of_le (hno m hm hid))
  have hfree := (hv.docLines.mono (Nat.le_add_right _ (v.gaps 0))).allFree
    (map_id_numberRows id (v.seq + v.gaps 0) [(i + 1, { toDocLineInput := l })])
  have hrows : ((v.db.docLines.insertAll rows).rows.filter fun l => l.docId = id) = v.db.linesOfDoc id ++ rows := by
    rw [Table.rows_insertAll hfree, List.filter_append, DB.linesOfDoc]
    congr 1
    exact List.filter_eq_self.2 fun m hm => decide_eq_true (docId_numberRows m hm)
  have hsum : LinesFit (((v.db.linesOfDoc id ++ rows).map DocLine.entered).map Prod.snd) := by
    rw [List.map_append, List.map_append]
    exact hfit
  rw [linesFit_entered, ← hrows] at hsum
  obtain ⟨h₁, h₂, h₃⟩ := hsum
  obtain ⟨r, hr⟩ : ∃ r, v.db.recompute id (v.db.docLines.insertAll rows) = .ok r := by
    refine ⟨_, Except.bind_eq_ok_iff.2 ⟨(), ?_, rfl⟩⟩
    rw [ensure_eq_ok, h₁, h₂, h₃]
    simp
  exact exists_run_exec ⟨_, Except.bind_eq_ok_iff.2 ⟨(), hcheck, Except.bind_eq_ok_iff.2
    ⟨(), ensure_eq_ok.2 (decide_eq_true (List.nodup_singleton _)), (if_neg (List.cons_ne_nil _ _)).trans
      (Except.bind_eq_ok_iff.2 ⟨r, hr, rfl⟩)⟩⟩⟩

/-- The lines of a request that fit are accepted one after another, and leave no check that may fail. -/
theorem exists_run_insertLinesOf {i : ℕ} {ls : List DocLineInput} (hv : Fresh v.seq v.db)
    (hdoc : ∃ d, v.db.docOf kind id = some d ∧ d.status = .draft) (hline : ∀ l ∈ ls, v.db.LineFits kind l)
    (hno : ∀ m ∈ v.db.docLines, m.docId = id → m.lineNo ≤ i)
    (hfit : ∀ n < ls.length, LinesFit (((v.db.linesOfDoc id).map DocLine.entered).map Prod.snd ++
      (ls.take (n + 1)).map fun l => { toDocLineInput := l }))
    (hchecks : ∀ c ∈ v.checks, ∀ db, c db = .ok ()) :
    ∃ w, (insertLinesOf kind id i ls).run v = .ok ((), w) ∧ ∀ c ∈ w.checks, ∀ db, c db = .ok () := by
  induction ls generalizing i v with
  | nil => exact ⟨v, Prog.run_pure_ok.2 ⟨rfl, rfl⟩, hchecks⟩
  | cons l ls ih =>
    obtain ⟨d, hd, hs⟩ := hdoc
    obtain ⟨hfind, hkind⟩ := docOf_eq_some.1 hd
    have hdrafted : v.db.Drafted id := ⟨d, hfind, hs⟩
    obtain ⟨k, v₁, h₁⟩ := exists_run_insertDocLine hv (by rw [hd]; rfl) (hline l (List.mem_cons_self ..)) hno
      (hfit 0 (Nat.succ_pos _))
    have hv₁ := Prog.run_keeps Fresh.mono (allFresh_insertDocLines _ _ _) h₁ hv
    obtain ⟨hsame, n, hrows, hchecks₁⟩ := run_insertDocLines_rows h₁ hv
    obtain ⟨⟨rows, hlines, hentered⟩, -⟩ := run_insertDocLines_entered h₁ hv hdrafted
    have hedit := (run_insertDocLines h₁ hv hdrafted).1
    have hdoc₁ : ∃ d, v₁.db.docOf kind id = some d ∧ d.status = .draft := by
      obtain ⟨a, b, c, hfind₁⟩ := hsame d hfind
      exact ⟨_, docOf_eq_some.2 ⟨hfind₁, hkind⟩, hs⟩
    have hline₁ : ∀ x ∈ ls, v₁.db.LineFits kind x := by
      intro x hx
      have hfits := hline x (List.mem_cons_of_mem _ hx)
      rw [hedit.eq]
      exact hfits
    have hno₁ : ∀ m ∈ v₁.db.docLines, m.docId = id → m.lineNo ≤ i + 1 := by
      intro m hm hid
      have hm : m ∈ v₁.db.docLines.rows := hm
      rw [hrows, List.mem_append] at hm
      rcases hm with hm | hm
      · exact Nat.le_succ_of_le (hno m hm hid)
      · rw [List.mem_singleton.1 hm]
        exact le_refl _
    have hfit₁ : ∀ n < ls.length, LinesFit (((v₁.db.linesOfDoc id).map DocLine.entered).map Prod.snd ++
        (ls.take (n + 1)).map fun l => { toDocLineInput := l }) := by
      intro n hn
      rw [hlines, List.map_append, List.map_append, hentered, List.append_assoc]
      exact hfit (n + 1) (Nat.succ_lt_succ hn)
    have hchecks' : ∀ c ∈ v₁.checks, ∀ db, c db = .ok () := by
      intro c hc db
      rw [hchecks₁, List.mem_append] at hc
      rcases hc with hc | hc
      · exact hchecks c hc db
      · rw [List.mem_singleton.1 hc]
        rfl
    obtain ⟨w, hw, hall⟩ := ih hv₁ hdoc₁ hline₁ hno₁ hfit₁ hchecks'
    exact ⟨w, Prog.run_bind_ok.2 ⟨k, v₁, h₁, hw⟩, hall⟩

/-- No line is in the way of an edit when none is linked. -/
theorem exists_run_refuseOrderLinked (h : ∀ l ∈ v.db.linesOfDoc id, l.orderLineId = none) :
    ∃ w, (refuseOrderLinked kind id).run v = .ok ((), w) ∧ w.db = v.db ∧ w.checks = v.checks := by
  unfold refuseOrderLinked
  split
  · refine ⟨v.tick, Prog.run_bind_ok.2 ⟨_, _, Prog.run_read_ok.2 ⟨rfl, rfl⟩, Prog.run_require_ok.2 ⟨?_, rfl⟩⟩, rfl, rfl⟩
    rw [Bool.not_eq_true', List.any_eq_false]
    intro l hl
    rw [h l hl]
    exact Bool.false_ne_true
  · exact ⟨v, Prog.run_pure_ok.2 ⟨rfl, rfl⟩, rfl, rfl⟩

theorem exists_run_updateHeader {input : DocInput} (hdoc : ∃ d, v.db.docOf kind id = some d ∧ d.status = .draft)
    (hh : v.db.headerCheck kind id input = .ok ()) :
    ∃ w, (updateHeader kind id input).run v = .ok (1, w) ∧ w.checks = v.checks ∧
      w.db = { v.db with docs := v.db.docs.update [id] (·.edited kind input) fun _ => rfl } := by
  obtain ⟨d, hd, hs⟩ := hdoc
  obtain ⟨hfind, hkind⟩ := docOf_eq_some.1 hd
  have hhit : v.db.docs.hit id (draftDoc kind) = [id] :=
    Table.hit_of_find? hfind (by rw [draftDoc, hkind, hs]; simp)
  refine ⟨_, Prog.run_exec_ok.2 ⟨_, (if_neg ?_).trans (Except.bind_eq_ok_iff.2 ⟨(), hh, rfl⟩), ?_, rfl⟩, ?_, ?_⟩
  · rw [hhit]
    exact List.cons_ne_nil _ _
  · rw [hhit]
    rfl
  · exact List.append_nil _
  · simp only [Env.after_db, hhit]

/-- The lines of a document are deleted unless others are linked to them. -/
theorem exists_run_deleteDocLines (h : ∀ m ∈ v.db.docLines, ∀ k, m.orderLineId = some k →
    k ∉ v.db.docLines.keysWhere fun l => l.docId = id) :
    ∃ w, (deleteDocLines id).run v = .ok ((), w) ∧ w.checks = v.checks := by
  have hensure : (v.db.docLines.rows.all fun l => l.orderLineId.all fun k =>
      k ∉ v.db.docLines.keysWhere fun l => l.docId = id) = true := by
    refine List.all_eq_true.2 fun m hm => ?_
    cases hlink : m.orderLineId with
    | none => rfl
    | some k => exact decide_eq_true (h m hm k hlink)
  by_cases hks : (v.db.docLines.keysWhere fun l => l.docId = id) = []
  · refine ⟨_, Prog.run_exec_ok.2 ⟨_, Except.bind_eq_ok_iff.2 ⟨(), ensure_eq_ok.2 hensure, if_pos hks⟩, rfl, rfl⟩, ?_⟩
    exact List.append_nil _
  · have hnil : ((v.db.docLines.erase (v.db.docLines.keysWhere fun l => l.docId = id)).rows.filter
        fun l => l.docId = id) = [] := by
      refine List.filter_eq_nil_iff.2 fun l hl hid => ?_
      have hmem := Table.mem_erase.1 (show l ∈ v.db.docLines.erase _ from hl)
      exact hmem.2 ((Table.mem_keysWhere hmem.1).2 hid)
    refine ⟨_, Prog.run_exec_ok.2 ⟨_, Except.bind_eq_ok_iff.2 ⟨(), ensure_eq_ok.2 hensure, (if_neg hks).trans
      (Except.bind_eq_ok_iff.2 ⟨_, Except.bind_eq_ok_iff.2 ⟨(), ?_, rfl⟩, rfl⟩)⟩, rfl, rfl⟩, ?_⟩
    · rw [ensure_eq_ok, hnil]
      simp [fits]
    · exact List.append_nil _

end accepted

/-- No line is linked to a line of a draft. -/
theorem not_linked_to_draft {s : Store DB} (hs : Reachable s) {id : ℕ} {d : Doc} (hd : s.db.docs.find? id = some d)
    (hdraft : d.status = .draft) : ∀ m ∈ s.db.docLines, ∀ k, m.orderLineId = some k →
      k ∉ s.db.docLines.keysWhere fun l => l.docId = id := by
  intro m hm k hk hmem
  obtain ⟨side, ol, o, hl, hid⟩ := hs.linksOk.1.linked m hm k hk
  obtain ⟨x, hx, hxk⟩ := List.mem_map.1 hmem
  obtain ⟨hx, hxid⟩ := List.mem_filter.1 hx
  obtain rfl : x = ol := Table.key_inj hx hl.order.line (hxk.trans hid.symm)
  obtain rfl : o = d := doc_eq_of_id hl.order.order hd (hl.order.ofOrder.trans (of_decide_eq_true hxid))
  rcases hl.confirmed with hc | hc
  · rw [hdraft] at hc
    cases hc
  · rw [hdraft] at hc
    cases hc

/-- A draft whose lines fulfil no order accepts what passes the checks. -/
theorem exists_commit_updateDoc {s : Store DB} (hs : Reachable s) {id : ℕ} {d : Doc} {input : DocInput}
    (hd : s.db.docs.find? id = some d) (hdraft : d.status = .draft)
    (hlinks : ∀ l ∈ s.db.linesOfDoc id, l.orderLineId = none) (hh : s.db.headerCheck d.kind id input = .ok ())
    (hline : ∀ l ∈ input.lines, s.db.LineFits d.kind l)
    (hfit : ∀ n < input.lines.length, LinesFit ((input.lines.take (n + 1)).map fun l => { toDocLineInput := l }))
    (gaps : ℕ → ℕ) : ∃ s', (updateDoc d.kind id input).commit gaps s = .ok ((), s') := by
  have hdoc : s.db.docOf d.kind id = some d := docOf_eq_some.2 ⟨hd, rfl⟩
  obtain ⟨v₁, h₁, hdb₁, hc₁⟩ : ∃ w, (refuseOrderLinked d.kind id).run ⟨gaps, s.seq, s.db, []⟩ = .ok ((), w) ∧
      w.db = s.db ∧ w.checks = [] := exists_run_refuseOrderLinked hlinks
  have hv₁ : Fresh v₁.seq v₁.db := hdb₁ ▸ hs.fresh.mono _ _ _ (Prog.run_seq_le h₁)
  obtain ⟨v₂, h₂, hc₂, hdb₂⟩ := exists_run_updateHeader ⟨d, hdb₁ ▸ hdoc, hdraft⟩ (hdb₁ ▸ hh)
  have hv₂ := Prog.run_keeps Fresh.mono (allFresh_updateHeader _ _ _) h₂ hv₁
  have hfind₂ : v₂.db.docs.find? id = some (d.edited d.kind input) := by
    rw [hdb₂, hdb₁]
    exact Table.find?_update_self (f := (·.edited d.kind input)) (fun _ => rfl) hd
  have hlines₂ : v₂.db.docLines = s.db.docLines := by rw [hdb₂, hdb₁]
  obtain ⟨v₃, h₃, hc₃⟩ : ∃ w, (deleteDocLines id).run v₂ = .ok ((), w) ∧ w.checks = v₂.checks := by
    refine exists_run_deleteDocLines ?_
    rw [hlines₂]
    exact not_linked_to_draft hs hd hdraft
  have hv₃ := Prog.run_keeps Fresh.mono (allFresh_deleteDocLines _) h₃ hv₂
  obtain ⟨hsame₃, hgone⟩ := run_deleteDocLines_rows h₃
  obtain ⟨a, b, c, hfind₃⟩ := hsame₃ _ hfind₂
  have hedit₃ := (run_deleteDocLines h₃ ⟨_, hfind₂, hdraft⟩).1
  -- The old lines are gone, so the totals are those of the new lines alone and their numbers start over.
  have hnone : v₃.db.linesOfDoc id = [] := List.filter_eq_nil_iff.2 fun l hl => by simpa using hgone l hl
  have hline₃ : ∀ l ∈ input.lines, v₃.db.LineFits d.kind l := by
    rw [hedit₃.eq, hdb₂, hdb₁]
    exact hline
  obtain ⟨w, hw, hall⟩ := exists_run_insertLinesOf (i := 0) hv₃ ⟨_, docOf_eq_some.2 ⟨hfind₃, rfl⟩, hdraft⟩ hline₃
    (fun m hm hid => absurd hid (hgone m hm)) (by rw [hnone]; exact hfit)
    (by rw [hc₃, hc₂, hc₁]; exact fun c hc => absurd hc List.not_mem_nil)
  refine ⟨⟨w.db, w.seq⟩, Prog.commit_eq_ok.2 ⟨w, Prog.run_bind_ok.2 ⟨(), v₁, h₁, Prog.run_bind_ok.2 ⟨1, v₂, h₂, ?_⟩⟩,
    passAll_eq_ok.2 fun c hc => hall c hc _, rfl⟩⟩
  rw [if_neg one_ne_zero]
  exact Prog.run_bind_ok.2 ⟨(), v₃, h₃, hw⟩

/-! ### The request of an unchanged form -/

section unchanged

variable {s : Store DB} {id : ℕ} {d : Doc}

/-- A line that has passed its checks passes them again. -/
theorem lineFits_resubmitted {db : DB} {kind : DocKind} {l : DocLine} (h : AdmitsLine kind l.entered.2)
    (hrow : l.RowOk db.products db.accounts db.taxCodes) :
    db.LineFits kind l.entered.2.toDocLineInput.resubmitted := by
  refine ⟨⟨h.quantity, h.rate, h.range⟩, fun _ _ _ => ⟨hrow.amounts, hrow.taxRate, hrow.product, hrow.account, ?_⟩⟩
  have htax := hrow.taxCode
  show refOk db.taxCodes (l.taxCode.filter _) = true
  cases hcode : l.taxCode with
  | none => rfl
  | some code =>
    rw [hcode] at htax
    rw [Option.filter_some]
    split
    · exact htax
    · rfl

theorem headerCheck_unchanged (hs : Reachable s) (hd : s.db.docs.find? id = some d)
    (hnumber : trimmed d.number = d.number) (ls : List DocLine) :
    s.db.headerCheck d.kind id (d.unchanged ls) = .ok () := by
  have hadmits := hs.admits id _ (written_of_find? hd)
  obtain ⟨hcurrency, -, hparty⟩ := hs.rowsChecked.rows.2.2.1 d (Table.mem_of_find? hd)
  simp only [DB.headerCheck, Except.bind_eq_ok_iff, ensure_eq_ok, exists_const]
  refine ⟨?_, ?_, hparty, decide_eq_true hcurrency⟩
  · cases hnote : d.kind.isCreditNote with
    | true => rfl
    | false =>
      refine (Option.all_eq_true ..).2 fun due hdue => decide_eq_true (hadmits.due due ?_).2
      rw [Doc.unchanged, hnote] at hdue
      exact hdue
  · rw [Bool.not_eq_true', DB.numberTaken, List.any_eq_false]
    intro x hx htaken
    simp only [Bool.and_eq_true, decide_eq_true_eq] at htaken
    obtain ⟨⟨⟨hid, hkind⟩, hsame⟩, hscope⟩ := htaken
    have hwritten : s.db.written x.id = some (x.content (s.db.linesOfDoc x.id)) :=
      written_of_find? (Table.find?_key hx)
    exact hadmits.number x.id _ hid hwritten hkind (hsame.trans hnumber) hscope

theorem linesFit_unchanged (h : Admits s.db.written id (d.content (s.db.linesOfDoc id)))
    (hlinks : ∀ l ∈ s.db.linesOfDoc id, l.orderLineId = none) (n : ℕ) :
    LinesFit (((d.unchanged (s.db.documentLines id)).lines.take n).map fun l => { toDocLineInput := l }) := by
  have hall : ∀ x ∈ (d.content (s.db.linesOfDoc id)).lines, x.2.orderLineId = none := by
    intro x hx
    obtain ⟨l, hl, rfl⟩ := List.mem_map.1 hx
    exact hlinks l ((List.perm_insertionSort _ _).subset hl)
  have hfit := h.fits hall n
  rw [show (d.content (s.db.linesOfDoc id)).lines = (s.db.documentLines id).map DocLine.entered from rfl] at hfit
  unfold LinesFit at hfit ⊢
  rw [Doc.unchanged]
  simp only [← List.map_take, List.map_map] at hfit ⊢
  exact hfit

end unchanged
