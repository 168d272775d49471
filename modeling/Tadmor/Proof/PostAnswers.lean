import Tadmor.Proof.Answers
import Tadmor.Proof.EntryContent
import Tadmor.Proof.Sweep
import Tadmor.Theory.Counting

/-!
# The answers to postings

The lines of a document's entry balance in both currencies whatever the document, so that a posting fails only when a
line is not accepted or a sum is out of range.
-/

/-! ### The lines of a document -/

theorem NewLine.net_signed (n : ℕ) (account : Option ℕ) (amount base : ℤ) (memo : String) :
    (NewLine.signed n account amount base memo).debit - (NewLine.signed n account amount base memo).credit = amount := by
  show max amount 0 - max (-amount) 0 = amount
  omega

/-- The detail lines are on the side of their amounts. -/
theorem sum_detailLines {b : Bool} {rate : ℤ} {n : ℕ} {xs : List (Option ℕ × ℤ × String)} :
    ((detailLines b rate n xs).map fun l => l.debit - l.credit).sum =
      if b then -(xs.map fun x => x.2.1).sum else (xs.map fun x => x.2.1).sum := by
  induction xs generalizing n with
  | nil => cases b <;> rfl
  | cons x xs ih =>
    obtain ⟨account, amount, memo⟩ := x
    rw [detailLines, List.map_cons, List.sum_cons, ih, List.map_cons, List.sum_cons]
    cases b with
    | false => simp only [Bool.false_eq_true, if_false, NewLine.net_signed]
    | true =>
      simp only [if_true, NewLine.net_signed]
      omega

theorem detailLines_nonneg {b : Bool} {rate : ℤ} {n : ℕ} {xs : List (Option ℕ × ℤ × String)} :
    ∀ l ∈ detailLines b rate n xs, 0 ≤ l.debit ∧ 0 ≤ l.credit := by
  induction xs generalizing n with
  | nil => exact fun l hl => absurd hl List.not_mem_nil
  | cons x xs ih =>
    obtain ⟨account, amount, memo⟩ := x
    intro l hl
    rcases List.mem_cons.1 hl with rfl | hl
    · cases b with
      | false => exact ⟨le_max_right .., le_max_right ..⟩
      | true => exact ⟨le_max_right .., le_max_right ..⟩
    · exact ih l hl

theorem lineNo_detailLines {b : Bool} {rate : ℤ} {n : ℕ} {xs : List (Option ℕ × ℤ × String)} :
    (detailLines b rate n xs).map (·.lineNo) = List.range' n xs.length := by
  induction xs generalizing n with
  | nil => rfl
  | cons x xs ih =>
    obtain ⟨account, amount, memo⟩ := x
    rw [detailLines, List.map_cons, ih, List.length_cons, List.range'_succ]
    cases b <;> rfl

/-- The amounts of the entry add up to the total of the document when every taxed line has a tax account. -/
theorem PostSpec.sum_amounts {spec : PostSpec} {db : DB} {d : Doc} (ht : db.TotalsOk d) (hm : missingTax d.id db = 0) :
    ((spec.amounts db d.id).map fun x => x.2.1).sum = d.total := by
  obtain ⟨-, -, htotal⟩ := ht
  have htax : (((db.linesOfDoc d.id).filter fun l =>
      l.taxAmount ≠ 0 && (l.taxCode.bind db.taxCodes.find?).isSome).map DocLine.taxAmount).sum =
      ((db.linesOfDoc d.id).map DocLine.taxAmount).sum := by
    rw [sum_map_filter]
    congr 1
    refine List.map_congr_left fun l hl => ?_
    split
    · rfl
    · rename_i hnot
      rcases taxAccount_of_taxed (Bool.eq_false_iff.2 hnot) with hz | hnone
      · exact hz.symm
      · have := List.countP_eq_zero.1 hm l hl
        simp only [hnone, decide_true, Bool.and_true, ne_eq, decide_eq_true_eq, not_not] at this
        exact this.symm
  simp only [PostSpec.amounts, List.map_append, List.map_map, List.sum_append]
  have hdetail := total_groupSums ((db.linesOfDoc d.id).map fun l => (spec.detailAccount db l, l.lineSubtotal))
  have htaxed := total_groupSums (((db.linesOfDoc d.id).filter fun l =>
    l.taxAmount ≠ 0 && (l.taxCode.bind db.taxCodes.find?).isSome).map fun l => (db.taxAccount l, l.taxAmount))
  rw [List.map_map] at hdetail htaxed
  rw [htotal]
  refine (congrArg₂ (· + ·) hdetail (htaxed.trans htax)).trans ?_
  exact (List.sum_map_add (f := DocLine.lineSubtotal) (g := DocLine.taxAmount)).symm

/-! ### The entry of a document -/

/-- Lines without a negative amount that cancel, one of them with a debit or credit. -/
theorem Tallies.of_nets {ls : List NewLine} (hd : ∀ l ∈ ls, 0 ≤ l.debit ∧ 0 ≤ l.credit)
    (hn : (ls.map fun l => l.debit - l.credit).sum = 0) (hb : (ls.map fun l => l.baseDebit - l.baseCredit).sum = 0)
    (hm : ∃ l ∈ ls, l.debit ≠ 0 ∨ l.credit ≠ 0) : Tallies ls := by
  rw [sum_map_sub, sub_eq_zero] at hn hb
  refine ⟨fun hz => ?_, hn, hb⟩
  obtain ⟨l, hl, hmove⟩ := hm
  have hdebit : l.debit ≤ (ls.map (·.debit)).sum :=
    List.single_le_sum (by simpa using fun x hx => (hd x hx).1) _ (List.mem_map_of_mem hl)
  have hcredit : l.credit ≤ (ls.map (·.credit)).sum :=
    List.single_le_sum (by simpa using fun x hx => (hd x hx).2) _ (List.mem_map_of_mem hl)
  rw [hz] at hdebit
  rw [← hn, hz] at hcredit
  have := hd l hl
  omega

variable {spec : PostSpec} {db : DB} {d : Doc} {c : Party} {rate : ℤ}

theorem PostSpec.tallies_plan (ht : db.TotalsOk d) (hm : missingTax d.id db = 0) (hpos : 0 < d.total) :
    Tallies (spec.plan db d c rate) := by
  have hsum := spec.sum_amounts ht hm
  have hnets : ((spec.plan db d c rate).map fun l => l.debit - l.credit).sum = 0 := by
    simp only [PostSpec.plan, List.map_append, List.sum_append, sum_detailLines, hsum, List.map_cons, List.map_nil,
      List.sum_cons, List.sum_nil, PostSpec.controlLine]
    cases spec.creditsDetails <;> simp
  have hbase : ((spec.plan db d c rate).map fun l => l.baseDebit - l.baseCredit).sum = 0 := by
    simp only [PostSpec.plan, List.map_append, List.sum_append, List.map_cons, List.map_nil, List.sum_cons,
      List.sum_nil, PostSpec.controlLine]
    cases spec.creditsDetails <;> simp
  refine .of_nets (fun l hl => ?_) hnets hbase ⟨_, List.mem_append_right _ (List.mem_singleton_self _), ?_⟩
  · rcases List.mem_append.1 hl with hl | hl
    · exact detailLines_nonneg l hl
    · rw [List.mem_singleton.1 hl, PostSpec.controlLine]
      cases spec.creditsDetails with
      | false => exact ⟨le_refl 0, hpos.le⟩
      | true => exact ⟨hpos.le, le_refl 0⟩
  · rw [PostSpec.controlLine]
    cases spec.creditsDetails with
    | false => exact .inr hpos.ne'
    | true => exact .inl hpos.ne'

/-- The numbers of the lines are different. -/
theorem PostSpec.nodup_plan : ((spec.plan db d c rate).map (·.lineNo)).Nodup := by
  rw [PostSpec.plan, List.map_append, List.nodup_append]
  refine ⟨?_, List.nodup_singleton _, fun a ha b hb => ?_⟩
  · rw [lineNo_detailLines]
    exact List.nodup_range'
  · rw [List.map_singleton, List.mem_singleton] at hb
    subst hb
    rw [PostSpec.controlLine]
    cases hc : spec.creditsDetails with
    | false =>
      rw [if_neg Bool.false_ne_true]
      exact (Nat.lt_succ_of_le (le_foldr_max a (by simpa [hc] using ha))).ne
    | true =>
      rw [if_pos rfl]
      rw [hc, lineNo_detailLines, if_pos rfl, List.mem_range'_1] at ha
      have hlt : 1 < a := ha.1
      exact hlt.ne'

/-- The control line that is inserted after the detail lines. -/
theorem PostSpec.control_of_lines {id je : ℕ} {details : List NewLine} (hdc : db.docParty spec.kind id = some (d, c))
    (h : List.Forall₂ (NewLine.Becomes je) details (db.linesOf je)) :
    spec.control id je db = [spec.controlLine d c details] := by
  have hbase : (db.linesOf je).map (fun l => l.baseDebit - l.baseCredit) =
      details.map fun l => l.baseDebit - l.baseCredit := forall₂_becomes_map h fun _ _ _ => rfl
  have hnos : (db.linesOf je).map (·.lineNo) = details.map (·.lineNo) := forall₂_becomes_map h fun _ _ _ => rfl
  rw [PostSpec.control, hdc, PostSpec.controlLine]
  dsimp only
  rw [hbase, hnos]
  split <;> rfl

/-- A posting fails with a server fault only if its entry is not accepted. -/
theorem wp_postDoc {spec : PostSpec} {id : ℕ} {v : Env DB Err} (hv : Steady (fun _ => False) v) (hd : v.db.DocsOk) :
    Decides (spec.attempt v.db id = none) ((spec.attempt v.db id).all v.db.accepts = true) (postDoc spec id) v := by
  have herr : ∀ e : Err, e.Answered → spec.attempt v.db id = none →
      Verdict (spec.attempt v.db id = none) ((spec.attempt v.db id).all v.db.accepts = true) e :=
    fun e he h => .refused h he
  unfold Decides postDoc
  rw [Prog.wp_query_bind]
  cases hdc : v.db.docParty spec.kind id with
  | none =>
    have hheader : spec.header id v.db = .error (.posting .notFound s!"posting: {spec.kind.noun} {id}") := by
      rw [PostSpec.header, hdc]
    rw [hheader]
    refine ⟨fun e he => ?_, fun _ he => nomatch he⟩
    cases he
    exact herr _ (answered_posting _ _) (by rw [PostSpec.attempt, hdc]; rfl)
  | some x =>
    obtain ⟨d, c⟩ := x
    have hheader := PostSpec.header_eq_ok.2 ⟨d, c, hdc, rfl⟩
    have hattempt : spec.attempt v.db id = if d.status = .draft ∧ 0 < d.total ∧ c.controlAccountId.isSome ∧
        spec.missingDetail id v.db = 0 ∧ missingTax id v.db = 0 ∧ v.db.canPost d.date then
          (v.db.rateFor d.currencyCode d.date).map (spec.plan v.db d c) else none := by
      rw [PostSpec.attempt, hdc]
      rfl
    rw [hheader]
    refine ⟨fun _ he => (nomatch he), fun h hh => ?_⟩
    obtain rfl := (Except.ok.inj hh).symm
    simp only [Prog.wp_require_bind, Prog.wp_read_bind]
    refine ⟨fun hf => herr _ (answered_posting _ _) ?_, fun hdraft => ⟨fun hf => herr _ (answered_posting _ _) ?_,
      fun hpos => ⟨fun hf => herr _ (answered_posting _ _) ?_, fun hcontrol => ⟨fun hf =>
        herr _ (answered_posting _ _) ?_, fun hdetail => ⟨fun hf => herr _ (answered_posting _ _) ?_, fun htax => ?_⟩⟩⟩⟩⟩
    · rw [hattempt, if_neg fun h => of_decide_eq_false hf h.1]
    · rw [hattempt, if_neg fun h => of_decide_eq_false hf h.2.1]
    · rw [hattempt, if_neg fun h => Bool.eq_false_iff.1 hf h.2.2.1]
    · rw [hattempt, if_neg fun h => of_decide_eq_false hf h.2.2.2.1]
    · rw [hattempt, if_neg fun h => of_decide_eq_false hf h.2.2.2.2.1]
    rw [Prog.wp_bind]
    refine wp_periodForDate hv.tick.tick.tick (fun hcan e he => herr e he ?_) fun period w₁ hcan hp hv₁ hopen => ?_
    · rw [hattempt, if_neg fun h => Bool.eq_false_iff.1 hcan h.2.2.2.2.2]
    rw [if_pos ⟨of_decide_eq_true hdraft, of_decide_eq_true hpos, hcontrol, of_decide_eq_true hdetail,
      of_decide_eq_true htax, hcan⟩] at hattempt
    have hrates : w₁.db.rateFor d.currencyCode d.date = v.db.rateFor d.currencyCode d.date := by
      rw [hp.eq]
      rfl
    obtain ⟨hfind, -⟩ := docOf_eq_some.1 (docParty_eq_some.1 hdc).1
    have hdoc : d ∈ v.db.docs := Table.mem_of_find? hfind
    have hid : d.id = id := Table.key_of_find? hfind
    rw [Prog.wp_bind]
    refine wp_createEntry hv₁ hopen ?_ (fun rate n w₂ hrate hrpos hw hdb => ?_) fun hnone e he => herr e he ?_
    · exact (hv.rows.rows.2.2.1 d hdoc).1
    · have hls : spec.attempt v.db id = some (spec.plan v.db d c rate) := by
        rw [hattempt, ← hrates, hrate]
        rfl
      rw [hls, Option.all_some, ← accepts_congr (show w₁.db.accounts = v.db.accounts from hp.accounts)]
      have h₁ : spec.details id n w₂.db = detailLines spec.creditsDetails rate (if spec.creditsDetails then 2 else 1)
          (spec.amounts v.db d.id) := by
        have hamounts : spec.amounts w₁.db id = spec.amounts v.db d.id := by
          rw [hp.eq, hid]
          rfl
        rw [← hamounts]
        refine details_insertEntry rfl hw.wrote.free ?_
        rw [hdb]
      have h₂ : ∀ rows w, List.Forall₂ (NewLine.Becomes n) (detailLines spec.creditsDetails rate
          (if spec.creditsDetails then 2 else 1) (spec.amounts v.db d.id)) rows →
          Writing (fun _ => False) w₁ (entryOf n d.date period d.currencyCode rate (spec.entryMemo ++ d.number) d.number)
            rows w → spec.control id n w.db = [spec.controlLine d c (detailLines spec.creditsDetails rate
              (if spec.creditsDetails then 2 else 1) (spec.amounts v.db d.id))] := by
        intro rows w hr hw
        refine PostSpec.control_of_lines ?_ ((hw.wrote.linesOf hv₁.journal).symm ▸ hr)
        rw [hw.wrote.docParty, hp.eq]
        exact hdc
      refine wp_insertTwice hw h₁ h₂ spec.nodup_plan (fun hno e he => ?_) fun hall rows w hr hw => ?_
      · exact .fault (Option.some_ne_none _) (fun hok => hno (all_accepted_of_accepts hok)) he
      · refine hw.wp_ends (Option.some_ne_none _) rfl rfl hr ?_ hall (.postDoc .salesInvoice id) (allChange_updateDocRow _ _ _ _) (allFresh_updateDocRow _ _ _ _)
          (Prog.Throws.wp (Prog.throws_exec fun _ _ => Prog.fails_never rfl rfl) fun _ _ _ => Iff.rfl) fun w hr => ?_
        · exact spec.tallies_plan (hd.totals d hdoc) (hid.symm ▸ of_decide_eq_true htax) (of_decide_eq_true hpos)
        · obtain ⟨hdb, hch⟩ := run_updateDocRow hr
          rw [hdb]
          exact ⟨rfl, rfl, hch⟩
    · rw [hattempt, ← hrates, hnone]
      rfl

/-! ### Payments -/

section payments

variable {side : Side} {p : Payment}

theorem tallies_paymentPlan (hpos : 0 < p.amount) : Tallies (paymentPlan side p c rate) := by
  cases side with
  | sales => exact ⟨by simpa [paymentPlan] using hpos.ne', by simp [paymentPlan], by simp [paymentPlan]⟩
  | purchase => exact ⟨by simpa [paymentPlan] using hpos.ne', by simp [paymentPlan], by simp [paymentPlan]⟩

theorem nodup_paymentPlan : ((paymentPlan side p c rate).map (·.lineNo)).Nodup := by
  cases side with
  | sales => simp [paymentPlan]
  | purchase => simp [paymentPlan]

theorem firstLine_eq {id je : ℕ} (hpc : db.paymentParty side id = some (p, c)) :
    firstLine side id je db = (paymentPlan side p c (db.entryRate je)).take 1 := by
  cases side with
  | sales =>
    rw [firstLine, cashLine, (paymentParty_eq_some.1 hpc).1]
    rfl
  | purchase =>
    rw [firstLine, paymentControl, hpc]
    rfl

theorem secondLine_eq {id je : ℕ} (hpc : db.paymentParty side id = some (p, c)) :
    secondLine side id je db = (paymentPlan side p c (db.entryRate je)).drop 1 := by
  cases side with
  | sales =>
    rw [secondLine, paymentControl, hpc]
    rfl
  | purchase =>
    rw [secondLine, cashLine, (paymentParty_eq_some.1 hpc).1]
    rfl

theorem Writing.entryRate {C : (DB → Except Err Unit) → Prop} {v₀ w : Env DB Err} {e : JournalEntry}
    {rows : List JournalLine} {je : ℕ} {rate : ℤ} (h : Writing C v₀ e rows w) (he : e.id = je)
    (hr : e.exchangeRate = rate) : w.db.entryRate je = rate := by
  rw [DB.entryRate, ← he, h.wrote.find?, ← hr]
  rfl

theorem Writing.paymentParty {C : (DB → Except Err Unit) → Prop} {v₀ w : Env DB Err} {e : JournalEntry}
    {rows : List JournalLine} (h : Writing C v₀ e rows w) (id : ℕ) :
    w.db.paymentParty side id = v₀.db.paymentParty side id := by
  rw [h.wrote.eq]
  rfl

end payments

theorem wp_postPayment {side : Side} {id : ℕ} {v : Env DB Err} (hv : Steady (fun _ => False) v) :
    Decides (paymentAttempt side v.db id = none) ((paymentAttempt side v.db id).all v.db.accepts = true)
      (postPayment side id) v := by
  have herr : ∀ e : Err, e.Answered → paymentAttempt side v.db id = none →
      Verdict (paymentAttempt side v.db id = none) ((paymentAttempt side v.db id).all v.db.accepts = true) e :=
    fun e he h => .refused h he
  unfold Decides postPayment
  rw [Prog.wp_query_bind]
  cases hpc : v.db.paymentParty side id with
  | none =>
    have hheader : paymentHeader side id v.db = .error (.posting .notFound s!"posting: {side.payment} {id}") := by
      rw [paymentHeader, hpc]
    rw [hheader]
    refine ⟨fun e he => ?_, fun _ he => nomatch he⟩
    cases he
    exact herr _ (answered_posting _ _) (by rw [paymentAttempt, hpc]; rfl)
  | some x =>
    obtain ⟨p, c⟩ := x
    have hheader := paymentHeader_eq_ok.2 ⟨p, c, hpc, rfl⟩
    have hattempt : paymentAttempt side v.db id = if p.status = .draft ∧ 0 < p.amount ∧ p.cashAccountId.isSome ∧
        c.controlAccountId.isSome ∧ v.db.canPost p.date then
          (v.db.rateFor p.currencyCode p.date).map (paymentPlan side p c) else none := by
      rw [paymentAttempt, hpc]
      rfl
    rw [hheader]
    refine ⟨fun _ he => (nomatch he), fun h hh => ?_⟩
    obtain rfl := (Except.ok.inj hh).symm
    simp only [Prog.wp_require_bind]
    refine ⟨fun hf => herr _ (answered_posting _ _) ?_, fun hdraft => ⟨fun hf => herr _ (answered_posting _ _) ?_,
      fun hpos => ⟨fun hf => herr _ (answered_posting _ _) ?_, fun hcash => ⟨fun hf =>
        herr _ (answered_posting _ _) ?_, fun hcontrol => ?_⟩⟩⟩⟩
    · rw [hattempt, if_neg fun h => of_decide_eq_false hf h.1]
    · rw [hattempt, if_neg fun h => of_decide_eq_false hf h.2.1]
    · rw [hattempt, if_neg fun h => Bool.eq_false_iff.1 hf h.2.2.1]
    · rw [hattempt, if_neg fun h => Bool.eq_false_iff.1 hf h.2.2.2.1]
    rw [Prog.wp_bind]
    refine wp_periodForDate hv.tick (fun hcan e he => herr e he ?_) fun period w₁ hcan hp hv₁ hopen => ?_
    · rw [hattempt, if_neg fun h => Bool.eq_false_iff.1 hcan h.2.2.2.2]
    rw [if_pos ⟨of_decide_eq_true hdraft, of_decide_eq_true hpos, hcash, hcontrol, hcan⟩] at hattempt
    have hrates : w₁.db.rateFor p.currencyCode p.date = v.db.rateFor p.currencyCode p.date := by
      rw [hp.eq]
      rfl
    have hpc₁ : w₁.db.paymentParty side id = some (p, c) := by
      rw [hp.eq]
      exact hpc
    obtain ⟨hfind, -⟩ := paymentOf_eq_some.1 (paymentParty_eq_some.1 hpc).1
    rw [Prog.wp_bind]
    refine wp_createEntry hv₁ hopen ?_ (fun rate n w₂ hrate hrpos hw hdb => ?_) fun hnone e he => herr e he ?_
    · exact (hv.rows.rows.2.2.2.1 p (Table.mem_of_find? hfind)).1
    · have hls : paymentAttempt side v.db id = some (paymentPlan side p c rate) := by
        rw [hattempt, ← hrates, hrate]
        rfl
      rw [hls, Option.all_some, ← accepts_congr (show w₁.db.accounts = v.db.accounts from hp.accounts)]
      have h₁ : firstLine side id n w₂.db = (paymentPlan side p c rate).take 1 :=
        (firstLine_eq ((hw.paymentParty id).trans hpc₁)).trans
          (congrArg (fun r => (paymentPlan side p c r).take 1) (hw.entryRate rfl rfl))
      have h₂ : ∀ rows w, List.Forall₂ (NewLine.Becomes n) ((paymentPlan side p c rate).take 1) rows →
          Writing (fun _ => False) w₁ (entryOf n p.date period p.currencyCode rate (paymentMemo side) "") rows w →
          secondLine side id n w.db = (paymentPlan side p c rate).drop 1 := fun rows w _ hw =>
        (secondLine_eq ((hw.paymentParty id).trans hpc₁)).trans
          (congrArg (fun r => (paymentPlan side p c r).drop 1) (hw.entryRate rfl rfl))
      refine wp_insertTwice hw h₁ h₂ ?_ (fun hno e he => ?_) fun hall rows w hr hw => ?_
      · rw [List.take_append_drop]
        exact nodup_paymentPlan
      · rw [List.take_append_drop] at hno
        exact .fault (Option.some_ne_none _) (fun hok => hno (all_accepted_of_accepts hok)) he
      · rw [List.take_append_drop] at hall hr
        refine hw.wp_ends (Option.some_ne_none _) rfl rfl hr (tallies_paymentPlan (of_decide_eq_true hpos)) hall (.postPayment side id)
          (allChange_updatePaymentById _ _ _ _) (allFresh_updatePaymentById _ _ _ _)
          (Prog.Throws.wp (Prog.throws_exec fun _ _ => Prog.fails_never rfl rfl) fun _ _ _ => Iff.rfl) fun w hr => ?_
        obtain ⟨hdb, hch⟩ := run_updatePaymentById hr
        rw [hdb]
        exact ⟨rfl, rfl, hch⟩
    · rw [hattempt, ← hrates, hnone]
      rfl

/-! ### Stock movements -/

section movements

variable {id : ℕ} {m : StockMovement} {p : Product} {v w : Env DB Err}

/-- The product of a movement that is updated is checked again. -/
theorem movementOk_eq_ok {f : StockMovement → StockMovement} (hf : ∀ m, (f m).productId = m.productId) :
    db.movementOk id f = .ok () ↔ db.movementRaises id = false := by
  unfold DB.movementOk DB.movementRaises DB.movementProduct
  cases db.movements.find? id with
  | none => exact iff_of_true rfl rfl
  | some m =>
    dsimp only
    rw [hf, DB.productOk]
    cases hproduct : db.products.find? m.productId with
    | none => simp [hproduct]
    | some p => simp [hproduct, Except.bind_eq_ok_iff]

theorem isSql_of_movementOk {f : StockMovement → StockMovement} {e : Err} (h : db.movementOk id f = .error e) :
    e.IsSql := by
  unfold DB.movementOk DB.productOk at h
  split at h
  · cases h
  · split at h
    · cases h
    · exact isSql_of_bind h isSql_of_ensure fun _ => isSql_of_ensure

theorem wp_updateMovementById {f : StockMovement → StockMovement} (hid : ∀ m, (f m).id = m.id)
    (hf : ∀ m, (f m).productId = m.productId) :
    (updateMovementById id f hid).wp (fun e => ¬e.Answered ∧ v.db.movementRaises id = true)
      (fun _ _ => v.db.movementRaises id = false) v := by
  unfold updateMovementById
  rw [Prog.wp_exec]
  constructor
  · intro e he
    rcases Except.bind_eq_error_iff.1 he with h | ⟨u, -, h⟩
    · refine ⟨(isSql_of_movementOk h).not_answered, ?_⟩
      rw [← Bool.not_eq_false, ← movementOk_eq_ok hf, h]
      simp
    · cases h
  · intro o ho
    obtain ⟨u, h, -⟩ := Except.bind_eq_ok_iff.1 ho
    exact (movementOk_eq_ok hf).1 h

/-- The statements that the postings of a movement end with. -/
theorem wp_movementEntry {A S : Prop} {memo : String} {s₁ s₂ : ℕ → DB → List NewLine} {x y : NewLine}
    (hv : Steady (fun _ => False) v) (hmp : v.db.movementProduct id = some (m, p))
    (h₁ : ∀ je db', db'.movementProduct id = some (m, p) → s₁ je db' = [x])
    (h₂ : ∀ je db', db'.movementProduct id = some (m, p) → s₂ je db' = [y]) (hxy : x.lineNo ≠ y.lineNo)
    (ht : Tallies [x, y]) (hcan : v.db.canPost m.movementDate = false → A)
    (hS : v.db.canPost m.movementDate = true →
      ¬A ∧ (S ↔ v.db.accepts [x, y] = true ∧ v.db.movementRaises id = false)) :
    Decides A S (do
      let period ← periodForDate m.movementDate
      let currency ← Prog.read fun db => db.settings.baseCurrency
      let je ← createEntry m.movementDate period currency memo ""
      insertLines je (s₁ je)
      insertLines je (s₂ je)
      updateMovementById id (·.linked je period)
      pure je : Txn ℕ) v := by
  unfold Decides
  rw [Prog.wp_bind]
  refine wp_periodForDate hv (fun hno e he => .refused (hcan hno) he) fun period w₁ hcan hp hv₁ hopen => ?_
  obtain ⟨hA, hS⟩ := hS hcan
  have hmp₁ : w₁.db.movementProduct id = some (m, p) := by
    rw [hp.eq]
    exact hmp
  rw [Prog.wp_read_bind, Prog.wp_bind]
  refine wp_createEntry hv₁.tick hopen hv₁.rows.rows.2.1 (fun rate n w₂ hrate hrpos hw hdb => ?_) fun hnone e he => ?_
  · have hkeep : ∀ {rows w'}, Writing (fun _ => False) w₁.tick
        (entryOf n m.movementDate period w₁.db.settings.baseCurrency rate memo "") rows w' →
        w'.db.movementProduct id = some (m, p) := fun hw => by
      rw [hw.wrote.eq]
      exact hmp₁
    have haccepts : w₁.tick.db.accepts [x, y] = v.db.accepts [x, y] := accepts_congr hp.accounts _
    refine wp_insertTwice hw (h₁ _ _ (hkeep hw)) (fun rows w' _ hw' => h₂ _ _ (hkeep hw')) (by simpa using hxy)
      (fun hno e he => .fault hA (fun hs => hno ?_) he) fun hall rows w' hr hw' => ?_
    · exact all_accepted_of_accepts (haccepts.trans (hS.1 hs).1)
    · have hmp' := hkeep hw'
      have hraises : w'.db.movementRaises id = v.db.movementRaises id := by
        unfold DB.movementRaises
        rw [hmp', hmp]
      refine hw'.wp_ends hA rfl rfl hr ht hall (.postMovement id 0) (allChange_updateMovementById _ _ _)
        (allFresh_updateMovementById _ _ _) (Prog.wp_iff_run.2 ⟨fun e he => ?_, fun u w'' hrun => ?_⟩) fun w'' hrun => ?_
      · obtain ⟨hne, hr'⟩ := (Prog.wp_iff_run.1 (wp_updateMovementById (f := (·.linked n period)) (fun _ => rfl) fun _ => rfl)).1 e he
        refine .fault hA (fun hs => ?_) hne
        rw [hraises, (hS.1 hs).2] at hr'
        cases hr'
      · have hr' := (Prog.wp_iff_run.1 (wp_updateMovementById (f := (·.linked n period)) (fun _ => rfl) fun _ => rfl)).2 u w'' hrun
        rw [hS, ← haccepts, ← hraises, hr']
        exact (and_iff_left rfl).symm
      · obtain ⟨hdb, hch⟩ := run_updateMovementById hrun (find?_of_movementProduct hmp')
        rw [hdb]
        exact ⟨rfl, rfl, hch⟩
  · have hbase : w₁.tick.db.rateFor w₁.db.settings.baseCurrency m.movementDate = some (10 ^ 8) := if_pos rfl
    rw [hbase] at hnone
    cases hnone

/-- What the answer to a posting of a movement depends on. -/
def MovementSound (db : DB) (id account : ℕ) : Prop :=
  (movementAttempt db id account).all db.accepts = true ∧
    ((movementAttempt db id account).isSome && db.movementRaises id) = false

theorem decided_movement {account : ℕ} {ls : List NewLine} (h : movementAttempt db id account = some ls) :
    movementAttempt db id account ≠ none ∧
      (MovementSound db id account ↔ db.accepts ls = true ∧ db.movementRaises id = false) := by
  unfold MovementSound
  rw [h, Option.all_some, Option.isSome_some, Bool.true_and]
  exact ⟨Option.some_ne_none _, Iff.rfl⟩

theorem movementAttempt_eq {account : ℕ} (hmp : db.movementProduct id = some (m, p)) :
    movementAttempt db id account = if m.journalEntryId = none ∧ m.totalCost ≠ 0 ∧ db.canPost m.movementDate then
      movementPlan db m p account else none := by
  rw [movementAttempt, hmp]
  rfl

theorem movementAttempt_eq_none {account : ℕ} (hmp : db.movementProduct id = some (m, p))
    (h : ¬(m.journalEntryId = none ∧ m.totalCost ≠ 0 ∧ db.canPost m.movementDate)) :
    movementAttempt db id account = none := by
  rw [movementAttempt_eq hmp, if_neg h]

/-- The two lines of a movement balance. -/
theorem tallies_costLines {a b : Option ℕ} {cost : ℤ} {memo memo' : String} (h : cost ≠ 0) :
    Tallies [costLine 1 a cost 0 memo, costLine 2 b 0 cost memo'] :=
  ⟨by simpa [costLine] using h, by simp [costLine], by simp [costLine]⟩

theorem wp_postInventoryIssue {account : ℕ} (hv : Steady (fun _ => False) v)
    (htype : ∀ m, v.db.movements.find? id = some m → m.movementType = .issue) :
    Decides (movementAttempt v.db id account = none) (MovementSound v.db id account) (PostInventoryIssue id) v := by
  have herr : ∀ e : Err, e.Answered → movementAttempt v.db id account = none →
      Verdict (movementAttempt v.db id account = none) (MovementSound v.db id account) e :=
    fun e he h => .refused h he
  unfold Decides PostInventoryIssue
  rw [Prog.wp_query_bind, movementHeader]
  cases hmp : v.db.movementProduct id with
  | none =>
    refine ⟨fun e he => ?_, fun _ he => nomatch he⟩
    cases he
    exact herr _ (answered_posting _ _) (by rw [movementAttempt, hmp]; rfl)
  | some x =>
    obtain ⟨m, p⟩ := x
    refine ⟨fun _ he => (nomatch he), fun x hx => ?_⟩
    obtain rfl := (Except.ok.inj hx).symm
    have htype' := htype m (find?_of_movementProduct hmp)
    simp only [Prog.wp_require_bind]
    refine ⟨fun hf => herr _ (answered_posting _ _) ?_, fun hj => ⟨fun hf => absurd htype' (of_decide_eq_false hf),
      fun _ => ⟨fun hf => herr _ (answered_posting _ _) ?_, fun hcost => ⟨fun hf =>
        herr _ (answered_posting _ _) ?_, fun haccounts => ?_⟩⟩⟩⟩
    · exact movementAttempt_eq_none hmp fun h => of_decide_eq_false hf h.1
    · exact movementAttempt_eq_none hmp fun h => of_decide_eq_false hf h.2.1
    · rw [movementAttempt_eq hmp, movementPlan, htype']
      dsimp only
      rw [hf]
      exact ite_self _
    · have hcost' : |m.totalCost| ≠ 0 := abs_ne_zero.2 (of_decide_eq_true hcost)
      refine wp_movementEntry (x := costLine 1 p.cogsAccountId |m.totalCost| 0 "Cost of goods sold")
        (y := costLine 2 p.inventoryAccountId 0 |m.totalCost| "Inventory") hv.tick hmp (fun je db' h => ?_) (fun je db' h => ?_) (Nat.succ_ne_self 1).symm
        (tallies_costLines hcost') (fun hno => ?_) fun hcan => decided_movement ?_
      · rw [h]
      · rw [h]
      · exact movementAttempt_eq_none hmp fun h => Bool.eq_false_iff.1 hno h.2.2
      · rw [movementAttempt_eq hmp, if_pos ⟨of_decide_eq_true hj, of_decide_eq_true hcost, hcan⟩, movementPlan, htype']
        dsimp only
        rw [if_pos haccounts]

theorem wp_postInventoryReceipt {account : ℕ} (hv : Steady (fun _ => False) v) (haccount : account ≠ 0)
    (htype : ∀ m, v.db.movements.find? id = some m → m.movementType = .receipt) :
    Decides (movementAttempt v.db id account = none) (MovementSound v.db id account)
      (PostInventoryReceipt id account) v := by
  have herr : ∀ e : Err, e.Answered → movementAttempt v.db id account = none →
      Verdict (movementAttempt v.db id account = none) (MovementSound v.db id account) e :=
    fun e he h => .refused h he
  unfold Decides PostInventoryReceipt
  rw [Prog.wp_query_bind, movementHeader]
  cases hmp : v.db.movementProduct id with
  | none =>
    refine ⟨fun e he => ?_, fun _ he => by cases he⟩
    cases he
    exact herr _ (answered_posting _ _) (by rw [movementAttempt, hmp]; rfl)
  | some x =>
    obtain ⟨m, p⟩ := x
    refine ⟨fun _ he => (by cases he), fun x hx => ?_⟩
    obtain rfl := (Except.ok.inj hx).symm
    have htype' := htype m (find?_of_movementProduct hmp)
    have hplan : movementPlan v.db m p account =
        if account ≠ 0 ∧ p.inventoryAccountId.isSome ∧ v.db.takes account then
          some [costLine 1 p.inventoryAccountId m.totalCost 0 "Inventory",
            costLine 2 (some account) 0 m.totalCost "Goods received not invoiced"]
        else none := by
      rw [movementPlan, htype']
    have hnone : ¬(account ≠ 0 ∧ p.inventoryAccountId.isSome ∧ v.db.takes account) →
        movementAttempt v.db id account = none := fun h => by
      rw [movementAttempt_eq hmp, hplan, if_neg h]
      exact ite_self _
    simp only [Prog.wp_require_bind]
    refine ⟨fun hf => herr _ (answered_posting _ _) ?_, fun hj => ⟨fun hf => absurd htype' (of_decide_eq_false hf),
      fun _ => ⟨fun hf => herr _ (answered_posting _ _) ?_, fun hcost => ⟨fun hf =>
        herr _ (answered_posting _ _) ?_, fun hinventory => ?_⟩⟩⟩⟩
    · exact movementAttempt_eq_none hmp fun h => of_decide_eq_false hf h.1
    · exact movementAttempt_eq_none hmp fun h => of_decide_eq_false hf h.2.1
    · exact hnone fun h => Bool.eq_false_iff.1 hf h.2.1
    rw [Prog.wp_query_bind]
    cases ha : v.db.accounts.find? account with
    | none =>
      rw [Env.tick_db, ha]
      refine ⟨fun e he => ?_, fun _ he => by cases he⟩
      cases he
      refine herr _ (answered_posting _ _) (hnone fun h => ?_)
      rw [DB.takes, ha] at h
      cases h.2.2
    | some a =>
      rw [Env.tick_db, ha]
      refine ⟨fun _ he => (by cases he), fun b hb => ?_⟩
      obtain rfl := (Except.ok.inj hb).symm
      have htakes : v.db.takes account = (a.isPostable && a.isActive) := by rw [DB.takes, ha, Option.any_some]
      rw [Prog.wp_require_bind]
      refine ⟨fun hf => herr _ (answered_posting _ _) (hnone fun h => ?_), fun hok => ?_⟩
      · rw [htakes, hf] at h
        cases h.2.2
      · refine wp_movementEntry (x := costLine 1 p.inventoryAccountId m.totalCost 0 "Inventory")
          (y := costLine 2 (some account) 0 m.totalCost "Goods received not invoiced") hv.tick.tick hmp (fun je db' h => ?_) (fun je db' h => ?_) (Nat.succ_ne_self 1).symm
          (tallies_costLines (of_decide_eq_true hcost)) (fun hno => ?_) fun hcan => decided_movement ?_
        · rw [h]
        · rw [find?_of_movementProduct h]
        · exact movementAttempt_eq_none hmp fun h => Bool.eq_false_iff.1 hno h.2.2
        · rw [movementAttempt_eq hmp, if_pos ⟨of_decide_eq_true hj, of_decide_eq_true hcost, hcan⟩, hplan,
            if_pos ⟨haccount, hinventory, htakes.trans hok⟩]

theorem wp_postMovement {account : ℕ} (hv : Steady (fun _ => False) v) :
    Decides (movementAttempt v.db id account = none) (MovementSound v.db id account)
      (PostStockMovement id account) v := by
  unfold Decides PostStockMovement
  rw [Prog.wp_query_bind]
  have hproduct : v.db.movements.find? id = none → movementAttempt v.db id account = none := fun h => by
    rw [movementAttempt, DB.movementProduct, h]
    rfl
  cases hm : v.db.movements.find? id with
  | none =>
    refine ⟨fun e he => ?_, fun _ he => by cases he⟩
    cases he
    exact .refused (hproduct hm) (answered_posting _ _)
  | some m =>
    refine ⟨fun _ he => (by cases he), fun t ht => ?_⟩
    obtain rfl := (Except.ok.inj ht).symm
    have hplan : (∀ p, movementPlan v.db m p account = none) → movementAttempt v.db id account = none := fun h => by
      rw [movementAttempt, DB.movementProduct, hm, Option.bind_some]
      cases v.db.products.find? m.productId with
      | none => rfl
      | some p => simp [h p]
    split
    · rename_i htype
      exact wp_postInventoryIssue hv.tick fun m' hm' => Option.some.inj (hm.symm.trans hm') ▸ htype
    · rename_i htype
      split
      · rename_i hzero
        refine .refused (hplan fun p => ?_) (answered_posting _ _)
        rw [movementPlan, htype]
        exact if_neg fun h => h.1 hzero
      · rename_i hne
        exact wp_postInventoryReceipt hv.tick hne fun m' hm' => Option.some.inj (hm.symm.trans hm') ▸ htype
    · rename_i hissue hreceipt
      refine .refused (hplan fun p => ?_) (answered_posting _ _)
      unfold movementPlan
      split
      · rename_i h
        exact absurd h hissue
      · rename_i h
        exact absurd h hreceipt
      · rfl

end movements
