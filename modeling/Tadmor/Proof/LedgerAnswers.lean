import Tadmor.Proof.ApplyAnswers
import Tadmor.Proof.YearEndAnswers

/-!
# Ledger requests and server faults

The answer to a ledger request depends on the state in three ways: its own checks refuse it, or nothing does, or a
table does.  Only in the last case the answer is the fallback of `postingStatus`, also where an amount is out of range.
-/

/-- The lines that the request comes to insert are accepted, and no other trigger or key refuses it. -/
def Op.Sound (db : DB) (op : Op) : Prop := (∀ ls ∈ op.attempts db, db.accepts ls = true) ∧ op.raises db = false

/-- An amount that the request comes to insert, or their sum over an entry, is out of range. -/
def Op.Overflows (db : DB) (op : Op) : Prop := ∃ ls ∈ op.attempts db, inRange ls = false

/-- The answer is success or one of the mapped errors, which leave the database as it is, and amounts out of range are
refused as unprocessable. -/
structure AnswersClient (op : Op) (gaps : ℕ → ℕ) (s : Store DB) : Prop where
  status : (handle op gaps s).1 ∈ [200, 404, 409, 422]
  unchanged : (handle op gaps s).1 ≠ 200 → (handle op gaps s).2 = s
  overflow : op.Overflows s.db → (handle op gaps s).1 = 422

theorem Op.Sound.not_overflows {db : DB} {op : Op} (h : op.Sound db) : ¬op.Overflows db := by
  rintro ⟨ls, hls, hout⟩
  have haccepts := h.1 ls hls
  rw [DB.accepts, hout, Bool.and_false] at haccepts
  cases haccepts

theorem handle_of_error {op : Op} {gaps : ℕ → ℕ} {s : Store DB} {e : Err}
    (h : (transaction op).commit gaps s = .error e) : (handle op gaps s).1 = postingStatus e := by
  unfold handle
  rw [h]

/-- The answer is a server fault if and only if the request is neither refused by its own checks nor sound. -/
theorem Decided.status_iff {A S : Prop} {op : Op} {gaps : ℕ → ℕ} {s : Store DB}
    (h : Decided A S (transaction op) gaps s) : (handle op gaps s).1 ∈ [200, 404, 409, 422] ↔ A ∨ S := by
  by_cases hA : A
  · obtain ⟨e, he, hstatus⟩ := h.refused hA
    refine iff_of_true ?_ (.inl hA)
    rw [handle_of_error he]
    rcases hstatus with hs | hs | hs <;> rw [hs] <;> decide
  by_cases hS : S
  · refine iff_of_true ?_ (.inr hS)
    rw [handle_eq_ok.2 (h.succeeds hA hS)]
    decide
  · obtain ⟨e, he, hstatus⟩ := h.faults hA hS
    refine iff_of_false ?_ fun h => h.elim hA hS
    rw [handle_of_error he]
    simp only [List.mem_cons, List.not_mem_nil, or_false, not_or]
    exact ⟨postingStatus_ne_ok e, fun h => hstatus (.inl h), fun h => hstatus (.inr (.inl h)),
      fun h => hstatus (.inr (.inr h))⟩

/-! ### The requests -/

section

variable {db : DB} {side : Side} {settler : SettlerKind} {id retained : ℕ}

theorem attempt_sound_iff {attempt : Option (List NewLine)} :
    attempt = none ∨ attempt.all db.accepts = true ↔ ∀ ls ∈ attempt.toList, db.accepts ls = true := by
  cases attempt <;> simp

theorem postDoc_sound_iff {kind : PostedKind} :
    kind.spec.attempt db id = none ∨ (kind.spec.attempt db id).all db.accepts = true ↔ (Op.postDoc kind id).Sound db :=
  attempt_sound_iff.trans (and_iff_left rfl).symm

theorem postPayment_sound_iff :
    paymentAttempt side db id = none ∨ (paymentAttempt side db id).all db.accepts = true ↔
      (Op.postPayment side id).Sound db :=
  attempt_sound_iff.trans (and_iff_left rfl).symm

theorem postMovement_sound_iff {account : ℕ} :
    movementAttempt db id account = none ∨ MovementSound db id account ↔ (Op.postMovement id account).Sound db := by
  show _ ↔ (∀ ls ∈ (movementAttempt db id account).toList, db.accepts ls = true) ∧
    ((movementAttempt db id account).isSome && db.movementRaises id) = false
  rw [MovementSound]
  cases movementAttempt db id account <;> simp

/-- An auto-apply that its checks refuse inserts no entry. -/
theorem autoApply_sound_iff :
    db.applyRefused side settler id ∨ db.applySound side settler id ↔ (Op.autoApply side settler id).Sound db := by
  refine or_iff_right_of_imp fun h => ?_
  rcases h with hno | ⟨x, hx, hagain, -, hcontrol, hrefused⟩
  · refine ⟨fun ls hls => ?_, by rw [DB.applyRaises, hno]; rfl⟩
    have hattempts : fxAttempts db side settler id = [] := by rw [fxAttempts, hno]; rfl
    have hls : ls ∈ fxAttempts db side settler id := hls
    rw [hattempts] at hls
    cases hls
  · refine (applySound_iff hx).2 ⟨hagain, fun _ => hcontrol, fun party fx _ hfx hcan => ?_⟩
    rcases hrefused with hnone | hno
    · rw [hfx] at hnone
      cases hnone
    · exact absurd hcan (Bool.eq_false_iff.1 hno)

/-- A close that its checks refuse inserts no closing entry. -/
theorem closeFiscalYear_sound_iff :
    db.closeRefused id retained ∨ db.closeSound id retained ↔ (Op.closeFiscalYear id retained).Sound db := by
  refine or_iff_right_of_imp fun h => ?_
  rcases h with hno | ⟨fy, hfy, hbal, hsweep, hlocked⟩
  · refine ⟨fun ls hls => ?_, by rw [DB.closeRaises, hno]; rfl⟩
    have hls : ls ∈ closeAttempts db id retained := hls
    rw [closeAttempts, hno] at hls
    cases hls
  · exact (closeSound_iff hfy).2 fun _ => ⟨hlocked, fun h => absurd h hsweep⟩

/-- A reopening that its checks refuse reverses no closing entry. -/
theorem reopenFiscalYear_sound_iff :
    db.reopenRefused id ∨ db.reopenSound id ↔ (Op.reopenFiscalYear id).Sound db := by
  refine or_iff_right_of_imp fun h => ?_
  have hattempts : ∀ ls, ls ∈ (Op.reopenFiscalYear id).attempts db ↔
      ∃ je, db.mayReopen id = some je ∧ ls ∈ (db.reopened id je).reversal je := fun ls => by
    show ls ∈ (db.mayReopen id).toList.flatMap _ ↔ _
    rw [List.mem_flatMap]
    simp only [Option.mem_toList]
  rcases h with hno | ⟨hraises, je, hje, hno⟩
  · have hmay : db.mayReopen id = none := by rw [mayReopen_eq, hno, Option.bind_none]
    refine ⟨fun ls hls => ?_, by rw [DB.reopenRaises, hmay]; rfl⟩
    obtain ⟨je, hje, -⟩ := (hattempts ls).1 hls
    rw [hmay] at hje
    cases hje
  · refine ⟨fun ls hls => ?_, hraises⟩
    obtain ⟨je', hje', hls⟩ := (hattempts ls).1 hls
    obtain rfl := Option.some.inj (hje.symm.trans hje')
    rw [DB.reversal, hno, if_neg Bool.false_ne_true] at hls
    cases hls

theorem reversal_sound_iff {link : Option ℕ} : db.reversed link = none ∨ db.acceptsReversal link = true ↔
    ∀ ls ∈ link.toList.flatMap db.reversal, db.accepts ls = true := by
  rw [DB.acceptsReversal]
  cases link with
  | none => simp [DB.reversed]
  | some je =>
    rw [Option.toList_some, List.flatMap_singleton, DB.reversal]
    by_cases h : db.reversible je = true
    · rw [reversed_of_reversible h, if_pos h]
      simp
    · rw [reversed_eq_none (Bool.eq_false_iff.2 h), if_neg h]
      simp

theorem unpostMovement_sound_iff : db.reversed (db.movementLink id) = none ∨
    db.acceptsReversal (db.movementLink id) = true ∧ db.movementRaises id = false ↔ (Op.unpostMovement id).Sound db := by
  show _ ↔ (∀ ls ∈ (db.movementLink id).toList.flatMap db.reversal, db.accepts ls = true) ∧
    (!decide ((db.movementLink id).toList.flatMap db.reversal = []) && db.movementRaises id) = false
  rw [← reversal_sound_iff]
  by_cases h : db.reversed (db.movementLink id) = none
  · have hnil : (db.movementLink id).toList.flatMap db.reversal = [] := by
      cases hlink : db.movementLink id with
      | none => rfl
      | some je =>
        rw [hlink, DB.reversed, Option.filter_some, ite_eq_right_iff] at h
        rw [Option.toList_some, List.flatMap_singleton, DB.reversal, if_neg fun hr => Option.some_ne_none je (h hr)]
    simp [h, hnil]
  · have hne : (db.movementLink id).toList.flatMap db.reversal ≠ [] := by
      obtain ⟨je, hje⟩ := Option.ne_none_iff_exists'.1 h
      obtain ⟨hlink, hr⟩ := Option.filter_eq_some_iff.1 hje
      rw [hlink, Option.toList_some, List.flatMap_singleton, DB.reversal, if_pos hr]
      exact List.cons_ne_nil _ _
    simp [h, hne]

theorem takeWhile_congr {α : Type} {p q : α → Bool} {l : List α} (h : ∀ x ∈ l, p x = q x) :
    l.takeWhile p = l.takeWhile q := by
  induction l with
  | nil => rfl
  | cons a l ih =>
    rw [List.takeWhile_cons, List.takeWhile_cons, h a (List.mem_cons_self ..),
      ih fun x hx => h x (List.mem_cons_of_mem a hx)]

theorem reversible_of_datedOn {date : Date} {es : List ℕ} {je : ℕ} (h : db.DatedOn date es) (hje : je ∈ es) :
    db.reversible je = (db.unreversed je && db.canPost date) := by
  obtain ⟨e, he, rfl, rfl⟩ := h je hje
  rw [DB.reversible, (Table.find?_eq_some.2 ⟨he, rfl⟩ : db.entries.find? e.id = some e), Option.any_some]

/-- Once the entry of a payment may be reversed, those of its exchange differences may be unless they are reversed
already: all are of one date. -/
theorem unpostPayment_sound_iff {s : Store DB} (hs : Reachable s) :
    (s.db.paymentEntries side id = [] ∨ s.db.acceptsReversals (s.db.paymentEntries side id) = true ∧
        (s.db.paymentEntries side id).all s.db.reversible = false) ∨
      s.db.acceptsReversals (s.db.paymentEntries side id) = true ↔ (Op.unpostPayment side id).Sound s.db := by
  show _ ↔ (∀ ls ∈ paymentReversals s.db side id, s.db.accepts ls = true) ∧ false = false
  rw [and_iff_left rfl]
  cases hlink : (s.db.paymentOf side id).bind fun p => if p.status = .posted then p.journalEntryId else none with
  | none =>
    rw [DB.paymentEntries, paymentReversals, hlink]
    exact iff_of_true (.inl (.inl rfl)) fun ls hls => by cases hls
  | some je =>
    obtain ⟨p, hp, hj⟩ := Option.bind_eq_some_iff.1 hlink
    split at hj
    · rename_i hpost
      have hd := datedOn_paymentEntries hs hp hpost hj
      have hes : s.db.paymentEntries side id = je :: s.db.fxEntries side id := by rw [DB.paymentEntries, hlink]
      have hrs : paymentReversals s.db side id = if s.db.reversible je then s.db.mirrored je ::
          ((s.db.fxEntries side id).takeWhile s.db.unreversed).map s.db.mirrored else [] := by
        rw [paymentReversals, hlink]
      rw [hes, hrs]
      by_cases hr : s.db.reversible je = true
      · have hcan : s.db.canPost p.date = true := by
          rw [reversible_of_datedOn hd (List.mem_cons_self ..), Bool.and_eq_true] at hr
          exact hr.2
        have htake : (s.db.fxEntries side id).takeWhile s.db.unreversed =
            (s.db.fxEntries side id).takeWhile s.db.reversible := by
          refine takeWhile_congr fun x hx => ?_
          rw [reversible_of_datedOn hd (List.mem_cons_of_mem _ hx), hcan, Bool.and_true]
        rw [if_pos hr, acceptsReversals_cons hr, htake, DB.acceptsReversals]
        simp
        tauto
      · rw [acceptsReversals_of_not_reversible (Bool.eq_false_iff.2 hr), if_neg hr]
        simp
    · cases hj

end

/-- The transaction of a ledger request is refused by its own checks or accepted by the tables if it is sound, and
otherwise neither. -/
theorem exists_decided {op : Op} {s : Store DB} (hs : Reachable s) (gaps : ℕ → ℕ) (h : op.onLedger = true) :
    ∃ A S : Prop, Decided A S (transaction op) gaps s ∧ (A ∨ S ↔ op.Sound s.db) := by
  have hv : Steady (fun _ => False) (⟨gaps, s.seq, s.db, []⟩ : Env DB Err) := hs.steady gaps
  cases op with
  | postDoc kind id => exact ⟨_, _, (wp_postDoc hv hs.docsOk).void.commit, postDoc_sound_iff⟩
  | postPayment side id => exact ⟨_, _, (wp_postPayment hv).void.commit, postPayment_sound_iff⟩
  | postMovement id account => exact ⟨_, _, (wp_postMovement hv).void.commit, postMovement_sound_iff⟩
  | autoApply side settler id => exact ⟨_, _, (wp_autoApply hs gaps).void.commit, autoApply_sound_iff⟩
  | unpostInvoice side id => exact ⟨_, _, (wp_unpostDoc hv).void.commit, reversal_sound_iff.trans (and_iff_left rfl).symm⟩
  | unpostCreditNote side id =>
    exact ⟨_, _, (wp_unpostDoc hv).void.commit, reversal_sound_iff.trans (and_iff_left rfl).symm⟩
  | unpostPayment side id => exact ⟨_, _, (wp_unpostPayment hs gaps).void.commit, unpostPayment_sound_iff hs⟩
  | unpostMovement id => exact ⟨_, _, (wp_unpostMovement hv).void.commit, unpostMovement_sound_iff⟩
  | closeFiscalYear id retained => exact ⟨_, _, (wp_closeFiscalYear hv).void.commit, closeFiscalYear_sound_iff⟩
  | reopenFiscalYear id => exact ⟨_, _, (wp_reopenFiscalYear hv).void.commit, reopenFiscalYear_sound_iff⟩
  | _ => cases h

instance (db : DB) (op : Op) : Decidable (op.Sound db) := inferInstanceAs (Decidable (_ ∧ _))

/-- An invoice over 600 000 000 000 000 euros. -/
def immense : DocInput :=
  { number := "I1", partyId := 14, date := march5, currencyCode := "EUR",
    lines := [{ accountId := some 8, unitPrice := dollars (6 * 10 ^ 14) }] }
