import Tadmor.Model.ExactDivision
import Tadmor.Proof.Statements

/-!
# Migration 000020

Dividing by 100 rounds twice when the quotient is kept at 12 places, and the second rounding may then go the other
way.  The migration corrects such lines and leaves their header as it was, so the header follows only where the
corrections of its lines cancel.
-/

namespace Schema19

/-! ### The two expressions -/

theorem divScale_of_le {n : ℕ} (h : 101 * 10 ^ 16 ≤ n) : divScale n = 12 := by
  have hL : 4 ≤ Nat.log 10000 n := Nat.le_log_of_pow_le (by omega) (by omega)
  have hn : n ≠ 0 := by omega
  simp only [divScale, if_neg hn]
  rcases Nat.eq_or_lt_of_le hL with he | hlt
  · have hfirst : ¬n / 10000 ^ Nat.log 10000 n ≤ 100 := by
      rw [← he]
      omega
    rw [if_neg hfirst, ← he]
    rfl
  · split
    · omega
    · omega

theorem le_divScale {n : ℕ} (h : n < 101 * 10 ^ 16) : 14 ≤ divScale n := by
  simp only [divScale]
  rcases Nat.eq_zero_or_pos n with rfl | hn
  · decide
  · have hlog : Nat.log 10000 n < 5 := Nat.log_lt_of_lt_pow (by omega) (by omega)
    have hn0 : n ≠ 0 := by omega
    rw [if_neg hn0]
    by_cases he : Nat.log 10000 n = 4
    · have hfirst : n / 10000 ^ Nat.log 10000 n ≤ 100 := by
        rw [he]
        omega
      rw [if_pos hfirst, he]
      omega
    · split
      · omega
      · omega

/-- The quotient of the product `n` is kept at 12 places and carries over a half of the fourth. -/
def Doubly (n : ℤ) : Prop := 101 * 10 ^ 16 ≤ n.natAbs ∧ RoundsTwice 50 (5 * 10 ^ 9) n

instance (n : ℤ) : Decidable (Doubly n) := inferInstanceAs (Decidable (_ ∧ _))

theorem Doubly.ne_zero {n : ℤ} (h : Doubly n) : n ≠ 0 := by
  rintro rfl
  exact absurd h.1 (by decide)

theorem roundedQuotient_eq (n : ℤ) :
    roundedQuotient n = roundDiv n (10 ^ 10) + if Doubly n then (if 0 ≤ n then 1 else -1) else 0 := by
  unfold roundedQuotient
  by_cases h : 101 * 10 ^ 16 ≤ n.natAbs
  · have hdiv : roundDiv (n * 10 ^ 12) (10 ^ 14) = roundDiv n 100 :=
      roundDiv_mul_right n 100 (c := 10 ^ 12) (by omega)
    have htwice := roundDiv_roundDiv n (a := 50) (b := 5 * 10 ^ 7) (by omega) (by omega)
    simp only [divScale_of_le h, hdiv, Doubly, h, true_and]
    exact htwice
  · have hscale := le_divScale (not_le.1 h)
    have hdiv : roundDiv (n * 10 ^ divScale n.natAbs) (10 ^ 14) = n * 10 ^ (divScale n.natAbs - 14) := by
      obtain ⟨k, hk⟩ := Nat.exists_eq_add_of_le hscale
      rw [hk, Nat.add_sub_cancel_left, Nat.add_comm, pow_add, ← mul_assoc]
      exact roundDiv_mul_self (n * 10 ^ k) (b := 10 ^ 14) (by omega)
    have hround : roundDiv (n * 10 ^ (divScale n.natAbs - 14)) (10 ^ (divScale n.natAbs - 4)) = roundDiv n (10 ^ 10) := by
      obtain ⟨k, hk⟩ := Nat.exists_eq_add_of_le hscale
      rw [hk, Nat.add_sub_cancel_left, show 14 + k - 4 = 10 + k by omega, pow_add]
      exact roundDiv_mul_right n (10 ^ 10) (c := 10 ^ k) (by positivity)
    simp only [Doubly, h, false_and, if_false, add_zero, hdiv, hround]

theorem roundDiv_nonpos {n : ℤ} (h : n ≤ 0) (b : ℕ) : roundDiv n b ≤ 0 := by
  have hneg := roundDiv_nonneg (show 0 ≤ -n by omega) b
  rw [roundDiv_neg] at hneg
  omega

/-! ### Headers and lines -/

/-- The stored amounts are the generated ones, and fit their columns. -/
structure DocLine.Stored (l : DocLine) : Prop where
  lineSubtotal : l.lineSubtotal = roundDiv (l.quantity * l.unitPrice) (10 ^ 4)
  taxAmount : l.taxAmount = roundedQuotient (l.quantity * l.unitPrice * l.taxRate)
  lineTotal : l.lineTotal = l.lineSubtotal + l.taxAmount
  inRange : fits l.taxAmount = true ∧ fits l.lineTotal = true
  taxRate : 0 ≤ l.taxRate

/-- The header is the sum of the lines. -/
def DB.HeaderOk (db : DB) (d : Doc) : Prop :=
  d.subtotal = ((db.linesOfDoc d.id).map (·.lineSubtotal)).sum ∧
    d.taxTotal = ((db.linesOfDoc d.id).map (·.taxAmount)).sum ∧
    d.total = ((db.linesOfDoc d.id).map (·.lineTotal)).sum

def DB.HeadersOk (db : DB) : Prop := ∀ d ∈ db.docs, db.HeaderOk d

structure DB.Sound (n : ℕ) (db : DB) : Prop where
  docsBelow : db.docs.Below n
  linesBelow : db.docLines.Below n
  docOf : ∀ l ∈ db.docLines, (db.docs.find? l.docId).isSome = true
  stored : ∀ l ∈ db.docLines, l.Stored
  headers : db.HeadersOk

theorem DB.Sound.mono {n m : ℕ} {db : DB} (hnm : n ≤ m) (h : db.Sound n) : db.Sound m :=
  ⟨h.docsBelow.mono hnm, h.linesBelow.mono hnm, h.docOf, h.stored, h.headers⟩

theorem DocLine.Stored.of_check {db : DB} {kind : DocKind} {l : DocLineInput} {docId id lineNo : ℕ}
    (h : (l.row docId id lineNo).check db kind = .ok ()) : (l.row docId id lineNo).Stored := by
  simp only [check, Except.bind_eq_ok_iff, ensure_eq_ok, exists_const, Bool.and_eq_true, decide_eq_true_eq] at h
  obtain ⟨⟨⟨-, htax⟩, htotal⟩, -, hrate, -⟩ := h
  exact ⟨rfl, rfl, rfl, ⟨htax, htotal⟩, hrate⟩

theorem isDraft_eq {kind : DocKind} {docId : ℕ} {db : DB} :
    isDraft kind docId db = true ↔ ∃ d, db.docs.find? docId = some d ∧ d.kind = kind ∧ d.status = .draft := by
  simp [isDraft, Option.any_eq_true]

section recompute

variable {n docId : ℕ} {kind : DocKind} {db : DB} {lines : Table DocLine} {f : Table Doc → Table Doc}

theorem recompute_eq {d : Doc} (hd : db.docs.find? docId = some d) (hs : d.status = .draft)
    (h : db.recompute docId lines = .ok f) :
    f = fun docs => docs.update [docId] (·.withTotals
      ((lines.rows.filter fun l => l.docId = docId).map (·.lineSubtotal)).sum
      ((lines.rows.filter fun l => l.docId = docId).map (·.taxAmount)).sum
      ((lines.rows.filter fun l => l.docId = docId).map (·.lineTotal)).sum) := by
  have hhit : db.docs.hit docId (·.status = .draft) = [docId] := Table.hit_of_find? hd (decide_eq_true hs)
  simp only [DB.recompute, hhit, Except.bind_eq_ok_iff] at h
  obtain ⟨_, -, h⟩ := h
  cases h
  rfl

/-- New lines of a draft, with the header the trigger computes. -/
theorem DB.Sound.recompute {m : ℕ} (h : db.Sound n) (hnm : n ≤ m) (hdraft : isDraft kind docId db = true)
    (hf : db.recompute docId lines = .ok f) (hbelow : lines.Below m)
    (hother : ∀ k, k ≠ docId → (lines.rows.filter fun l => l.docId = k) = db.linesOfDoc k)
    (hlines : ∀ l ∈ lines, l ∈ db.docLines ∨ l.docId = docId ∧ l.Stored) :
    ({ docs := f db.docs, docLines := lines } : DB).Sound m ∧
      isDraft kind docId { docs := f db.docs, docLines := lines } = true := by
  obtain ⟨d, hd, hkind, hs⟩ := isDraft_eq.1 hdraft
  obtain rfl := recompute_eq hd hs hf
  have hkey : ∀ (x : Doc) (a b c : ℤ), Keyed.key (x.withTotals a b c) = Keyed.key x := fun _ _ _ _ => rfl
  have hid : d.id = docId := Table.key_of_find? hd
  refine ⟨⟨?_, hbelow, fun l hl => ?_, fun l hl => ?_, fun x hx => ?_⟩, ?_⟩
  · exact (h.docsBelow.update [docId] fun x => hkey x _ _ _).mono hnm
  · rw [Table.find?_update (fun x => hkey x _ _ _), Option.isSome_map]
    rcases hlines l hl with hl | ⟨rfl, -⟩
    · exact h.docOf l hl
    · rw [hd]
      rfl
  · exact (hlines l hl).elim (h.stored l) (·.2)
  · rcases (Table.mem_update_singleton (fun x => hkey x _ _ _) hd).1 hx with rfl | ⟨hne, hx⟩
    · rw [DB.HeaderOk]
      show _ = ((lines.rows.filter fun l => l.docId = d.id).map _).sum ∧
        _ = ((lines.rows.filter fun l => l.docId = d.id).map _).sum ∧
        _ = ((lines.rows.filter fun l => l.docId = d.id).map _).sum
      rw [hid]
      exact ⟨rfl, rfl, rfl⟩
    · have hl := hother x.id hne
      have hx := h.headers x hx
      rw [DB.HeaderOk] at hx ⊢
      show _ = ((lines.rows.filter fun l => l.docId = x.id).map _).sum ∧
        _ = ((lines.rows.filter fun l => l.docId = x.id).map _).sum ∧
        _ = ((lines.rows.filter fun l => l.docId = x.id).map _).sum
      rw [hl]
      exact hx
  · exact isDraft_eq.2 ⟨_, Table.find?_update_self (fun x => hkey x _ _ _) hd, hkind, hs⟩

end recompute

/-! ### The operations -/

/-- Sound, with a draft that lines may be written to. -/
def Drafting (kind : DocKind) (docId n : ℕ) (db : DB) : Prop := db.Sound n ∧ isDraft kind docId db = true

theorem keeps_insertLine (kind : DocKind) (docId lineNo : ℕ) (l : DocLineInput) :
    (insertLine kind docId lineNo l).All (Prog.Keeps (Drafting kind docId)) := by
  refine Prog.all_exec fun n db o ⟨hs, hdraft⟩ ho => ?_
  simp only [Except.bind_eq_ok_iff] at ho
  obtain ⟨_, hcheck, f, hf, ho⟩ := ho
  cases ho
  have hfree : db.docLines.Free (Keyed.key (l.row docId n lineNo)) := hs.linesBelow.free (Nat.le_refl n)
  have hrows := Table.rows_insert hfree
  refine hs.recompute (Nat.le_succ n) hdraft hf (hs.linesBelow.insert rfl) (fun k hk => ?_) fun m hm => ?_
  · rw [hrows, List.filter_append, List.filter_cons_of_neg, List.filter_nil, List.append_nil]
    · rfl
    · simpa using fun e => hk e.symm
  · refine (Table.mem_of_mem_insert hm).imp_right ?_
    rintro rfl
    exact ⟨rfl, .of_check hcheck⟩

theorem keeps_insertLinesOf (kind : DocKind) (docId i : ℕ) (ls : List DocLineInput) :
    (insertLinesOf kind docId i ls).All (Prog.Keeps (Drafting kind docId)) := by
  induction ls generalizing i with
  | nil => exact Prog.all_pure _
  | cons l ls ih => exact (keeps_insertLine kind docId (i + 1) l).bind fun _ => ih (i + 1)

theorem keeps_deleteDocLines (kind : DocKind) (docId : ℕ) :
    (deleteDocLines docId).All (Prog.Keeps (Drafting kind docId)) := by
  refine Prog.all_exec fun n db o ⟨hs, hdraft⟩ ho => ?_
  simp only [Except.bind_eq_ok_iff] at ho
  obtain ⟨f, hf, ho⟩ := ho
  cases ho
  refine hs.recompute (Nat.le_refl n) hdraft hf hs.linesBelow.erase (fun k hk => ?_) fun m hm => ?_
  · rw [Table.rows_erase_keysWhere, List.filter_filter]
    apply List.filter_congr
    intro m _
    by_cases hm : m.docId = k
    · simp [hm, hk]
    · simp [hm]
  · exact .inl (Table.mem_erase.1 hm).1

theorem drafting_mono {kind : DocKind} {docId : ℕ} (n m : ℕ) (db : DB) (h : n ≤ m) :
    Drafting kind docId n db → Drafting kind docId m db := fun ⟨hs, hd⟩ => ⟨hs.mono h, hd⟩

theorem run_createDoc {kind : DocKind} {lines : List DocLineInput} {v w : Env DB Err} {u : Unit}
    (h : (createDoc kind lines).run v = .ok (u, w)) (hs : v.db.Sound v.seq) : w.db.Sound w.seq := by
  obtain ⟨id, v₁, h₁, h⟩ := Prog.run_bind_ok.1 h
  obtain ⟨o, ho, rfl, rfl⟩ := Prog.run_exec_ok.1 h₁
  cases ho
  have hs := hs.mono (show v.seq ≤ v.seq + v.gaps 0 by omega)
  have hfree : v.db.docs.Free (Keyed.key (⟨v.seq + v.gaps 0, kind, .draft, 0, 0, 0⟩ : Doc)) :=
    hs.docsBelow.free (Nat.le_refl _)
  have hfind : v.db.docs.find? (v.seq + v.gaps 0) = none := Table.free_iff_find?.1 hfree
  -- no line can be on the new document
  have hnone : v.db.linesOfDoc (v.seq + v.gaps 0) = [] := by
    refine List.filter_eq_nil_iff.2 fun l hl => ?_
    have hsome := hs.docOf l hl
    rw [decide_eq_true_eq]
    intro e
    rw [e, hfind] at hsome
    cases hsome
  refine (Prog.run_keeps drafting_mono (keeps_insertLinesOf kind _ 0 lines) h ⟨⟨?_, ?_, ?_, hs.stored, ?_⟩, ?_⟩).1
  · exact hs.docsBelow.insert rfl
  · exact hs.linesBelow.mono (Nat.le_succ _)
  · intro l hl
    obtain ⟨d, hd⟩ := Option.isSome_iff_exists.1 (hs.docOf l hl)
    have hid : d.id = l.docId := Table.key_of_find? hd
    have hf := Table.find?_key (Table.mem_insert_of_mem (a := ⟨v.seq + v.gaps 0, kind, .draft, 0, 0, 0⟩)
      (Table.mem_of_find? hd))
    exact Option.isSome_iff_exists.2 ⟨d, hid ▸ hf⟩
  · intro d hd
    rcases Table.mem_of_mem_insert hd with hd | rfl
    · exact hs.headers d hd
    · have hnone' : (v.db.docLines.rows.filter fun l => l.docId = v.seq + v.gaps 0) = [] := hnone
      refine ⟨?_, ?_, ?_⟩
      all_goals
        show (0 : ℤ) = ((v.db.docLines.rows.filter fun l => l.docId = v.seq + v.gaps 0).map _).sum
        rw [hnone']
        rfl
  · exact isDraft_eq.2 ⟨_, Table.find?_insert_self hfree, rfl, rfl⟩

theorem run_updateDoc {kind : DocKind} {docId : ℕ} {lines : List DocLineInput} {v w : Env DB Err} {u : Unit}
    (h : (updateDoc kind docId lines).run v = .ok (u, w)) (hs : v.db.Sound v.seq) : w.db.Sound w.seq := by
  obtain ⟨hdraft, h⟩ := Prog.run_require_bind_ok.1 (Prog.run_read_bind_ok.1 h)
  have hkeeps := (keeps_deleteDocLines kind docId).bind fun _ => keeps_insertLinesOf kind docId 0 lines
  exact (Prog.run_keeps drafting_mono hkeeps h ⟨hs.mono v.le_tick_seq, hdraft⟩).1

theorem run_deleteDoc {kind : DocKind} {docId : ℕ} {v w : Env DB Err} {u : Unit}
    (h : (deleteDoc kind docId).run v = .ok (u, w)) (hs : v.db.Sound v.seq) : w.db.Sound w.seq := by
  obtain ⟨o, ho, -, rfl⟩ := Prog.run_exec_ok.1 h
  simp only [Except.bind_eq_ok_iff] at ho
  obtain ⟨_, -, ho⟩ := ho
  cases ho
  refine ⟨hs.docsBelow.erase.mono (v.le_after_seq _), hs.linesBelow.erase.mono (v.le_after_seq _), fun l hl => ?_,
    fun l hl => hs.stored l (Table.mem_erase.1 hl).1, fun d hd => ?_⟩
  · obtain ⟨hl, hne⟩ := Table.mem_erase_keysWhere.1 hl
    have hsome := hs.docOf l hl
    rw [Env.after_db, Table.find?_erase, if_neg (by simpa using hne)]
    exact hsome
  · obtain ⟨hd, hne⟩ := Table.mem_erase.1 hd
    have hlines : ((v.db.docLines.erase (v.db.docLines.keysWhere fun l => l.docId = docId)).rows.filter
        fun l => l.docId = d.id) = v.db.linesOfDoc d.id := by
      rw [Table.rows_erase_keysWhere, List.filter_filter]
      apply List.filter_congr
      intro m _
      by_cases hm : m.docId = d.id
      · have hne : d.id ≠ docId := fun e => hne (List.mem_singleton.2 e)
        simp [hm, hne]
      · simp [hm]
    have hx := hs.headers d hd
    rw [DB.HeaderOk] at hx ⊢
    rw [← hlines] at hx
    exact hx

theorem run_setStatus {docId : ℕ} {status : DocStatus} {v w : Env DB Err} {u : Unit}
    (h : (setStatus docId status).run v = .ok (u, w)) (hs : v.db.Sound v.seq) : w.db.Sound w.seq := by
  obtain ⟨o, ho, -, rfl⟩ := Prog.run_exec_ok.1 h
  cases ho
  have hkey : ∀ x : Doc, Keyed.key { x with status } = Keyed.key x := fun _ => rfl
  refine ⟨(hs.docsBelow.update [docId] hkey).mono (v.le_after_seq _), hs.linesBelow.mono (v.le_after_seq _),
    fun l hl => ?_, hs.stored, fun d hd => ?_⟩
  · show ((v.db.docs.update [docId] _ hkey).find? l.docId).isSome = true
    rw [Table.find?_update, Option.isSome_map]
    exact hs.docOf l hl
  · rcases Table.mem_update_cases hkey hd with ⟨hd, -⟩ | ⟨x, hx, -, rfl⟩
    · exact hs.headers d hd
    · exact hs.headers x hx

theorem Reachable.sound {s : Store DB} (h : Reachable s) : s.db.Sound s.seq := by
  induction h with
  | start =>
    refine ⟨fun d hd => ?_, fun l hl => ?_, fun l hl => ?_, fun l hl => ?_, fun d hd => ?_⟩
    all_goals cases ‹_ ∈ _›
  | @step s s' op gaps _ hs ih =>
    obtain ⟨w, hrun, -, rfl⟩ := Prog.commit_eq_ok.1 hs
    cases op with
    | create kind lines => exact run_createDoc hrun ih
    | update kind docId lines => exact run_updateDoc hrun ih
    | delete kind docId => exact run_deleteDoc hrun ih
    | setStatus docId status => exact run_setStatus hrun ih

theorem exists_reachable (ops : List Op) {p : Store DB → Bool}
    (h : (Prog.commitAll transaction ops ⟨⟨.empty, .empty⟩, 1⟩).toOption.any p = true) : ∃ s, Reachable s ∧ p s = true :=
  Prog.exists_commitAll (fun _ _ _ hs hc => .step hs hc) .start ops h

/-- 4299.996 at 100.0001 with 7.5001 percent tax: after its fourth place the exact tax has the digits 4999999960. -/
def carrying : DocLineInput := { quantity := 42999960, unitPrice := 1000001, taxRate := 75001 }

/-! ### The migration -/

/-- The exact product the tax of a line rounds, in units of `10 ^ (-12)` percent. -/
def DocLine.product (l : DocLine) : ℤ := l.quantity * l.unitPrice * l.taxRate

/-- The migration lowers the tax of the line by 0.0001. -/
def DocLine.roundedUp (l : DocLine) : Bool := Doubly l.product && 0 ≤ l.product

/-- The migration raises the tax of the line, which is negative, by 0.0001. -/
def DocLine.roundedDown (l : DocLine) : Bool := Doubly l.product && l.product < 0

theorem DocLine.Stored.taxAmount_eq {l : DocLine} (h : l.Stored) :
    l.taxAmount = l.exactTax + (if l.roundedUp then 1 else 0) - (if l.roundedDown then 1 else 0) := by
  have e := h.taxAmount.trans (roundedQuotient_eq l.product)
  have hx : l.exactTax = roundDiv l.product (10 ^ 10) := rfl
  rw [e, hx, roundedUp, roundedDown]
  by_cases hd : Doubly l.product
  · by_cases hn : 0 ≤ l.product
    · simp [hd, hn, not_lt.2 hn]
    · simp [hd, hn, not_le.1 hn, sub_eq_add_neg]
  · simp [hd]

theorem DocLine.Stored.reexpressed_lineTotal {l : DocLine} (h : l.Stored) :
    l.reexpressed.lineTotal = l.lineSubtotal + l.exactTax := by
  rw [h.lineSubtotal]
  rfl

/-- The new amounts fit where the old ones did: a carry only ever moved the tax away from zero. -/
theorem DocLine.Stored.fits_reexpressed {l : DocLine} (h : l.Stored) :
    (fits l.reexpressed.taxAmount && fits l.reexpressed.lineTotal) = true := by
  have htax := h.taxAmount_eq
  have hrange := h.inRange
  rw [h.lineTotal] at hrange
  have hexact : l.reexpressed.taxAmount = l.exactTax := rfl
  rw [hexact, h.reexpressed_lineTotal, Bool.and_eq_true]
  simp only [fits, decide_eq_true_eq] at hrange ⊢
  by_cases hd : Doubly l.product
  · by_cases hn : 0 ≤ l.product
    · have hsub : 0 ≤ l.lineSubtotal := by
        rw [h.lineSubtotal]
        refine roundDiv_nonneg (le_of_not_gt fun hneg => ?_) _
        exact hd.ne_zero (le_antisymm (mul_nonpos_of_nonpos_of_nonneg hneg.le h.taxRate) hn)
      have hx : 0 ≤ l.exactTax := roundDiv_nonneg hn _
      have ht : l.taxAmount = l.exactTax + 1 := by
        simpa [DocLine.roundedUp, DocLine.roundedDown, hd, hn, not_lt.2 hn] using htax
      omega
    · have hsub : l.lineSubtotal ≤ 0 := by
        rw [h.lineSubtotal]
        exact roundDiv_nonpos (le_of_not_gt fun hpos => hn (mul_nonneg hpos.le h.taxRate)) _
      have hx : l.exactTax ≤ 0 := roundDiv_nonpos (not_le.1 hn).le _
      have ht : l.taxAmount = l.exactTax - 1 := by
        simpa [DocLine.roundedUp, DocLine.roundedDown, hd, hn, not_le.1 hn] using htax
      omega
  · have ht : l.taxAmount = l.exactTax := by simpa [DocLine.roundedUp, DocLine.roundedDown, hd] using htax
    rw [← ht]
    exact hrange

theorem sum_taxAmount {ls : List DocLine} (h : ∀ l ∈ ls, l.Stored) :
    (ls.map (·.taxAmount)).sum =
      (ls.map (·.exactTax)).sum + (ls.countP (·.roundedUp) : ℤ) - (ls.countP (·.roundedDown) : ℤ) := by
  induction ls with
  | nil => rfl
  | cons l ls ih =>
    have hl := (h l (List.mem_cons_self ..)).taxAmount_eq
    have ih := ih fun m hm => h m (List.mem_cons_of_mem _ hm)
    simp only [List.map_cons, List.sum_cons, List.countP_cons, Nat.cast_add, Nat.cast_ite, Nat.cast_one, Nat.cast_zero]
    omega

theorem sum_lineTotal {ls : List DocLine} (h : ∀ l ∈ ls, l.Stored) :
    (ls.map (·.lineTotal)).sum = (ls.map (·.lineSubtotal)).sum + (ls.map (·.taxAmount)).sum := by
  induction ls with
  | nil => rfl
  | cons l ls ih =>
    have hl := (h l (List.mem_cons_self ..)).lineTotal
    have ih := ih fun m hm => h m (List.mem_cons_of_mem _ hm)
    simp only [List.map_cons, List.sum_cons]
    omega

/-- The header of a document after the migration, where only the lines have changed. -/
theorem headerOk_reexpressed {db db' : DB} {d : Doc} (hd : db.HeaderOk d)
    (hlines : db'.linesOfDoc d.id = (db.linesOfDoc d.id).map DocLine.reexpressed)
    (hs : ∀ l ∈ db.linesOfDoc d.id, l.Stored) :
    db'.HeaderOk d ↔
      (db.linesOfDoc d.id).countP (·.roundedUp) = (db.linesOfDoc d.id).countP (·.roundedDown) := by
  obtain ⟨hsub, htax, htotal⟩ := hd
  have hsum := sum_taxAmount hs
  have e₁ : ((db'.linesOfDoc d.id).map (·.lineSubtotal)).sum = ((db.linesOfDoc d.id).map (·.lineSubtotal)).sum := by
    rw [hlines, List.map_map]
    rfl
  have e₂ : ((db'.linesOfDoc d.id).map (·.taxAmount)).sum = ((db.linesOfDoc d.id).map (·.exactTax)).sum := by
    rw [hlines, List.map_map]
    rfl
  have e₃ : ((db'.linesOfDoc d.id).map (·.lineTotal)).sum =
      ((db.linesOfDoc d.id).map (·.lineSubtotal)).sum + ((db.linesOfDoc d.id).map (·.exactTax)).sum := by
    rw [hlines, List.map_map, ← List.sum_map_add]
    exact congrArg List.sum (List.map_congr_left fun l hl => (hs l hl).reexpressed_lineTotal)
  have hold := sum_lineTotal hs
  rw [DB.HeaderOk, e₁, e₂, e₃]
  omega

/-- After the migration the headers are the sums of their lines exactly when in every document as many lines were
rounded up twice as were rounded down twice. -/
theorem exactDivision_keeps_headers {s : Store DB} (h : Reachable s) :
    (∃ db', exactDivision s.db = .ok db' ∧ db'.HeadersOk) ↔ ∀ d ∈ s.db.docs,
      (s.db.linesOfDoc d.id).countP (·.roundedUp) = (s.db.linesOfDoc d.id).countP (·.roundedDown) := by
  have hs := h.sound
  have hkey : ∀ l : DocLine, Keyed.key l.reexpressed = Keyed.key l := fun _ => rfl
  have hok : exactDivision s.db = .ok { s.db with docLines := s.db.docLines.map DocLine.reexpressed hkey } := by
    have hfits : (s.db.docLines.rows.all fun l => fits l.reexpressed.taxAmount && fits l.reexpressed.lineTotal) = true :=
      List.all_eq_true.2 fun l hl => (hs.stored l hl).fits_reexpressed
    rw [exactDivision, hfits]
    rfl
  have hdoc : ∀ d ∈ s.db.docs,
      DB.HeaderOk { s.db with docLines := s.db.docLines.map DocLine.reexpressed hkey } d ↔
        (s.db.linesOfDoc d.id).countP (·.roundedUp) = (s.db.linesOfDoc d.id).countP (·.roundedDown) := by
    intro d hd
    refine headerOk_reexpressed (hs.headers d hd) ?_ fun l hl => hs.stored l (List.mem_of_mem_filter hl)
    rw [DB.linesOfDoc, DB.linesOfDoc]
    exact List.filter_map ..
  constructor
  · rintro ⟨db', hdb, hh⟩ d hd
    rw [hok] at hdb
    cases hdb
    exact (hdoc d hd).1 (hh d hd)
  · exact fun hc => ⟨_, hok, fun d hd => (hdoc d hd).2 (hc d hd)⟩

/-- Two lines that cancel: 0.0001 of tax too much on one side, and on the other. -/
theorem exactDivision_keeps_headers_cancelling : ∃ s : Store DB, (∃ d ∈ s.db.docs, d.id = 1 ∧
    (s.db.linesOfDoc 1).countP (·.roundedUp) = 1) ∧ ∃ db', exactDivision s.db = .ok db' ∧ db'.HeadersOk := by
  obtain ⟨s, hs, hp⟩ := exists_reachable [.create .salesInvoice [carrying, { carrying with quantity := -42999960 }]]
    (p := fun s => (∃ d ∈ s.db.docs.rows, d.id = 1 ∧ (s.db.linesOfDoc 1).countP (·.roundedUp) = 1) ∧
      ∀ d ∈ s.db.docs.rows,
        (s.db.linesOfDoc d.id).countP (·.roundedUp) = (s.db.linesOfDoc d.id).countP (·.roundedDown)) (by decide +kernel)
  obtain ⟨hd, hall⟩ := of_decide_eq_true hp
  exact ⟨s, hd, (exactDivision_keeps_headers hs).2 hall⟩

/-- The migration lowers the stored tax of the line, and the invoice keeps the total it had. -/
theorem exactDivision_breaks_header :
    ¬∀ s : Store DB, Reachable s → ∃ db', exactDivision s.db = .ok db' ∧ db'.HeadersOk := by
  intro h
  obtain ⟨s, hs, hp⟩ := exists_reachable [.create .salesInvoice [carrying], .setStatus 1 .posted]
    (p := fun s => (exactDivision s.db).toOption.any fun db => ∃ d ∈ db.docs.rows,
      d.taxTotal ≠ ((db.linesOfDoc d.id).map (·.taxAmount)).sum) (by decide +kernel)
  obtain ⟨db', hdb, hh⟩ := h s hs
  rw [hdb] at hp
  obtain ⟨d, hd, hne⟩ := of_decide_eq_true hp
  exact hne (hh d hd).2.1

end Schema19
