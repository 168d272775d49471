import Mathlib.Data.List.TakeWhile
import Tadmor.Proof.DoublePost
import Tadmor.Proof.Exchange
import Tadmor.Proof.UnpostAnswers

/-!
# When an unposting succeeds

A payment is unposted by reversals one after another: its entry, and the entries of its exchange differences, which
are of the same date.  None of them stands in the way of another.
-/

variable {C : (DB → Except Err Unit) → Prop} {v w : Env DB Err} {E : Err → Prop} {side : Side} {id je : ℕ}

/-! ### After one reversal -/

/-- A reversal leaves an open period of its date. -/
theorem openPeriod_of_run_reverseEntry {e : JournalEntry} {rev : ℕ} (h : (reverseEntry je).run v = .ok (rev, w))
    (he : v.db.entries.find? je = some e) : (w.db.openPeriod e.entryDate).isSome = true := by
  rw [reverseEntry_eq] at h
  obtain ⟨x, v₁, h₁, h⟩ := Prog.run_bind_ok.1 h
  obtain ⟨hx, rfl⟩ := Prog.run_query_ok.1 h₁
  rw [reverseHeader, he] at hx
  obtain rfl := Except.ok.inj hx
  unfold reverseRest at h
  rw [Prog.run_read_bind_ok, Prog.run_require_bind_ok] at h
  obtain ⟨-, h⟩ := h
  rw [Prog.run_read_bind_ok, Prog.run_require_bind_ok] at h
  obtain ⟨-, h⟩ := h
  obtain ⟨period, v₂, h₂, h⟩ := Prog.run_bind_ok.1 h
  obtain ⟨r, v₃, h₃, h⟩ := Prog.run_bind_ok.1 h
  obtain ⟨u, v₄, h₄, h⟩ := Prog.run_bind_ok.1 h
  obtain ⟨-, rfl⟩ := Prog.run_pure_ok.1 h
  obtain ⟨-, -, p, hp, -⟩ := run_periodForDate h₂
  obtain ⟨_, -, -, -, hdb₃⟩ := run_insertReversal h₃
  obtain ⟨_, _, -, -, hdb₄, -⟩ := run_insertLines h₄
  have hopen : w.db.openPeriod e.entryDate = v₂.db.openPeriod e.entryDate := by
    rw [hdb₄, hdb₃]
    rfl
  rw [hopen, hp]
  rfl

theorem canPost_of_openPeriod {db : DB} {date : Date} (h : (db.openPeriod date).isSome = true) :
    db.canPost date = true := by
  rw [DB.canPost, h, Bool.true_or]

section reversed

variable {lo : ℕ} {db db' : DB} {e r x : JournalEntry} {rows : List JournalLine}

/-- An entry has the same reversals after another one has been reversed. -/
theorem Reversed.unreversed_eq (h : Reversed lo db db' e r rows) (hx : x ∈ db.entries)
    (hne : x.id ≠ e.id) : db'.unreversed x.id = db.unreversed x.id := by
  have hnew : r.reversesEntryId ≠ some x.id := by
    rw [h.reversal]
    exact fun he => hne (Option.some.inj he).symm
  have hold : db'.entries.rows = db.entries.rows ++ [r] := by
    rw [h.wrote.eq]
    exact Table.rows_insert h.wrote.free
  have hmatched : db'.matchedOn x.id = db.matchedOn x.id := by
    have hlines : db'.linesOf x.id = db.linesOf x.id := h.wrote.grown.linesOf hx
    have hmem : ∀ (t : DB) (k : ℕ), (t.lines.find? k).any (fun l => l.journalEntryId = x.id) = true ↔
        ∃ l ∈ t.linesOf x.id, l.id = k := fun t k => by
      rw [Option.any_eq_true]
      constructor
      · rintro ⟨l, hl, hje⟩
        exact ⟨l, List.mem_filter.2 ⟨Table.mem_of_find? hl, hje⟩, Table.key_of_find? hl⟩
      · rintro ⟨l, hl, rfl⟩
        obtain ⟨hl, hje⟩ := List.mem_filter.1 hl
        exact ⟨l, Table.find?_key hl, hje⟩
    have hany : ∀ k, (db'.lines.find? k).any (fun l => l.journalEntryId = x.id) =
        (db.lines.find? k).any fun l => l.journalEntryId = x.id := fun k => by
      rw [Bool.eq_iff_iff, hmem, hmem, hlines]
    unfold DB.matchedOn
    rw [show db'.statementLines = db.statementLines by rw [h.wrote.eq]]
    refine congrArg (List.any _) (funext fun b => ?_)
    cases b.journalLineId with
    | none => rfl
    | some k => exact hany k
  rw [DB.unreversed, DB.unreversed, hold, List.any_append, hmatched]
  simp [hnew]

/-- The reversal of an entry does not stand in the way of that of another of the same date. -/
theorem Reversed.reversible_eq (h : Reversed lo db db' e r rows)
    (hcan : db.canPost e.entryDate = true) (hcan' : db'.canPost e.entryDate = true) (hx : x ∈ db.entries)
    (hne : x.id ≠ e.id) (hdate : x.entryDate = e.entryDate) : db'.reversible x.id = db.reversible x.id := by
  have hf : db.entries.find? x.id = some x := Table.find?_key hx
  rw [DB.reversible, DB.reversible, hf, h.wrote.grown.find? hf, Option.any_some, Option.any_some,
    h.unreversed_eq hx hne, hdate, hcan, hcan']

theorem Reversed.accepts_eq (h : Reversed lo db db' e r rows) (hx : x ∈ db.entries) :
    db'.accepts (db'.mirrored x.id) = db.accepts (db.mirrored x.id) := by
  rw [accepts_congr (by rw [h.wrote.eq]), DB.mirrored, h.wrote.grown.linesOf hx]
  rfl

end reversed

/-! ### Reversals one after another -/

/-- The reversals up to the first that is refused are accepted. -/
def DB.acceptsReversals (db : DB) (es : List ℕ) : Bool :=
  (es.takeWhile db.reversible).all fun je => db.accepts (db.mirrored je)

/-- The entries are there, and of the date. -/
def DB.DatedOn (db : DB) (date : Date) (es : List ℕ) : Prop := ∀ je ∈ es, ∃ e ∈ db.entries, e.id = je ∧ e.entryDate = date

/-- The rest of the entries is reversed as it would have been before the first. -/
theorem reversals_congr {date : Date} {es : List ℕ} {rev : ℕ} (hv : Steady C v)
    (hr : (reverseEntry je).run v = .ok (rev, w)) (hd : v.db.DatedOn date (je :: es)) (hn : (je :: es).Nodup)
    (hcan : v.db.reversible je = true) :
    (w.db.DatedOn date es ∧ es.all w.db.reversible = es.all v.db.reversible) ∧
      w.db.acceptsReversals es = v.db.acceptsReversals es := by
  obtain ⟨e, r, rows, rfl, -, hrev, -⟩ := run_reverseEntry hr hv.fresh
  obtain ⟨hnot, -⟩ := List.nodup_cons.1 hn
  have hdate : e.entryDate = date := by
    obtain ⟨e', he', hid, hdate⟩ := hd e.id (List.mem_cons_self ..)
    rwa [← Table.key_inj he' (Table.mem_of_find? hrev.old) hid]
  have hcan' : v.db.canPost e.entryDate = true := by
    rw [DB.reversible, hrev.old, Option.any_some] at hcan
    exact (Bool.and_eq_true_iff.1 hcan).2
  have hopen := canPost_of_openPeriod (openPeriod_of_run_reverseEntry hr hrev.old)
  have hsame : ∀ x ∈ es, w.db.reversible x = v.db.reversible x ∧
      w.db.accepts (w.db.mirrored x) = v.db.accepts (v.db.mirrored x) := by
    intro x hx
    obtain ⟨y, hy, rfl, hydate⟩ := hd x (List.mem_cons_of_mem _ hx)
    have hne : y.id ≠ e.id := fun h => hnot (h ▸ hx)
    exact ⟨hrev.reversible_eq hcan' hopen hy hne (hydate.trans hdate.symm), hrev.accepts_eq hy⟩
  refine ⟨⟨fun x hx => ?_, ?_⟩, ?_⟩
  · obtain ⟨y, hy, hyx⟩ := hd x (List.mem_cons_of_mem _ hx)
    exact ⟨y, hrev.wrote.grown.mem hy, hyx⟩
  · rw [Bool.eq_iff_iff, List.all_eq_true, List.all_eq_true]
    exact forall₂_congr fun x hx => by rw [(hsame x hx).1]
  · unfold DB.acceptsReversals
    clear hd hn hnot
    induction es with
    | nil => rfl
    | cons x es ih =>
      obtain ⟨h₁, h₂⟩ := hsame x (List.mem_cons_self ..)
      rw [List.takeWhile_cons, List.takeWhile_cons, h₁]
      cases v.db.reversible x with
      | false => rfl
      | true =>
        simp only [if_true, List.all_cons, h₂]
        rw [ih fun y hy => hsame y (List.mem_cons_of_mem _ hy)]

theorem acceptsReversals_cons {db : DB} {es : List ℕ} (h : db.reversible je = true) :
    db.acceptsReversals (je :: es) = (db.accepts (db.mirrored je) && db.acceptsReversals es) := by
  rw [DB.acceptsReversals, List.takeWhile_cons, if_pos h, List.all_cons]
  rfl

theorem acceptsReversals_of_not_reversible {db : DB} {es : List ℕ} (h : db.reversible je = false) :
    db.acceptsReversals (je :: es) = true := by
  rw [DB.acceptsReversals, List.takeWhile_cons, if_neg (Bool.eq_false_iff.1 h)]
  rfl

/-- The reversals fail where one may not be reversed, or is not accepted, whichever comes first. -/
theorem wp_reverseEach {date : Date} {es : List ℕ} {Q : Unit → Env DB Err → Prop} (hv : Steady C v)
    (hd : v.db.DatedOn date es) (hn : es.Nodup)
    (hrefuse : v.db.acceptsReversals es = true → es.all v.db.reversible = false → ∀ err, err.Answered → E err)
    (hfault : v.db.acceptsReversals es = false → ∀ err, ¬err.Answered → E err)
    (h : ∀ w, v.db.acceptsReversals es = true → es.all v.db.reversible = true → (reverseEach es).run v = .ok ((), w) →
      Steady C w → Q () w) : (reverseEach es).wp E Q v := by
  have hrun : (reverseEach es).wp E
      (fun _ w => v.db.acceptsReversals es = true ∧ es.all v.db.reversible = true ∧ Steady C w) v := by
    clear h
    induction es generalizing v with
    | nil => exact ⟨rfl, rfl, hv⟩
    | cons je es ih =>
      rw [reverseEach, Prog.wp_bind]
      refine wp_reverseEntry hv (fun hno err herr => ?_) (fun hok hno err herr => ?_) fun rev w hok hacc hr hw => ?_
      · exact hrefuse (acceptsReversals_of_not_reversible hno) (by rw [List.all_cons, hno, Bool.false_and]) err herr
      · exact hfault (by rw [acceptsReversals_cons hok, hno, Bool.false_and]) err herr
      · obtain ⟨⟨hdw, hall⟩, haccepts⟩ := reversals_congr hv hr hd hn hok
        rw [acceptsReversals_cons hok, hacc, Bool.true_and, List.all_cons, hok, Bool.true_and, ← hall,
          ← haccepts] at hrefuse ⊢
        rw [acceptsReversals_cons hok, hacc, Bool.true_and, ← haccepts] at hfault
        exact ih hw hdw (List.nodup_cons.1 hn).2 hrefuse hfault
  exact hrun.mono fun u w hr hq => h w hq.1 hq.2.1 hr hq.2.2

/-! ### Payments -/

/-- The entries that the unposting of a payment reverses. -/
def DB.paymentEntries (db : DB) (side : Side) (id : ℕ) : List ℕ :=
  match (db.paymentOf side id).bind fun p => if p.status = .posted then p.journalEntryId else none with
  | none => []
  | some je => je :: db.fxEntries side id

/-- The entry of a payment and those of its exchange differences are of the date of the payment. -/
theorem datedOn_paymentEntries {s : Store DB} (hs : Reachable s) {p : Payment} (hp : s.db.paymentOf side id = some p)
    (hpost : p.status = .posted) (hj : p.journalEntryId = some je) :
    s.db.DatedOn p.date (je :: s.db.fxEntries side id) := by
  intro x hx
  rcases List.mem_cons.1 hx with rfl | hx
  · obtain ⟨e, he, hid, hdate, -⟩ :=
      hs.entriesOk.payments p (Table.mem_of_find? (paymentOf_eq_some.1 hp).1) hpost x hj
    exact ⟨e, he, hid, hdate⟩
  · obtain ⟨a, ha, hown, hfx⟩ := DB.mem_fxEntries.1 hx
    obtain ⟨t, d, hsd⟩ := hs.settledOk.settles a ha
    obtain ⟨diff, -, hrev⟩ := hs.exchangeOk.applications a ha t d hsd
    rw [hfx] at hrev
    obtain ⟨e, he, hid, hdate, -⟩ := hrev
    obtain ⟨hside, hk, hsid⟩ := hown
    have hsettler := hsd.settler
    rw [hside, hk, hsid, settlerOf_payment] at hsettler
    obtain ⟨p', hp', rfl⟩ := hsettler
    obtain rfl := Option.some.inj (hp.symm.trans hp')
    exact ⟨e, he, hid, hdate⟩

/-- A payment may lose its applications. -/
theorem applicationCheck_deleted {db db' : DB} (h : SettledOk db)
    (happs : db'.applications = db.applications.erase (db.applications.keysWhere (ownApplication side id)))
    (hdocs : db'.docs = db.docs) (hpays : db'.payments = db.payments.update (db.payments.hit id (·.side = side))
      Payment.unposted fun _ => rfl) {a : Application} (ha : a ∈ db.applications) (hown : ownApplication side id a = true) :
    db'.applicationCheck a true = .ok () := by
  obtain ⟨s, d, hsd⟩ := h.settles a ha
  obtain ⟨hside, hk, hid⟩ := ownApplication_iff.1 hown
  have hsettler := hsd.settler
  rw [hside, hk, hid, settlerOf_payment] at hsettler
  obtain ⟨p, hp, rfl⟩ := hsettler
  obtain ⟨hf, hpside⟩ := paymentOf_eq_some.1 hp
  have happlied : db'.amountApplied .payment id ≤ p.amount := by
    refine le_trans ?_ (h.settler side .payment id p.toSettler (settlerOf_payment.2 ⟨p, hp, rfl⟩) hsd.settlerPosted)
    rw [DB.amountApplied, happs]
    exact sum_filter_erase h.positive
  have hsettled : db'.amountSettled a.docId ≤ d.total := by
    refine le_trans ?_ (h.doc _ a.docId d hsd.doc hsd.docPosted)
    rw [DB.amountSettled, happs]
    exact sum_filter_erase h.positive
  have hp' : db'.paymentOf side id = some p.unposted := by
    rw [paymentOf_eq_some, hpays, Table.hit_of_find? hf (by simpa using hpside)]
    exact ⟨Table.find?_update_self (f := Payment.unposted) (fun _ => rfl) hf, hpside⟩
  have hs' : db'.settlerOf a.side a.settler a.settlerId = some p.unposted.toSettler := by
    rw [hside, hk, hid]
    exact settlerOf_payment.2 ⟨_, hp', rfl⟩
  have hd' : db'.docOf a.side.invoice a.docId = some d := (docOf_congr (by rw [hdocs])).trans hsd.doc
  have hamount : p.unposted.toSettler.amount = p.amount := rfl
  rw [DB.applicationCheck, hs', hd', hk, hid]
  simp [Except.bind_eq_ok_iff, hamount, happlied, hsettled]

/-- The reversal of a payment's entry and of its exchange differences. -/
theorem wp_reversePayment {date : Date} {k : ℕ → Txn ℕ} {Q : ℕ → Env DB Err → Prop} (hv : Steady C v)
    (hd : v.db.DatedOn date (je :: v.db.fxEntries side id)) (hn : (je :: v.db.fxEntries side id).Nodup)
    (hrefuse : v.db.acceptsReversals (je :: v.db.fxEntries side id) = true →
      (je :: v.db.fxEntries side id).all v.db.reversible = false → ∀ err, err.Answered → E err)
    (hfault : v.db.acceptsReversals (je :: v.db.fxEntries side id) = false → ∀ err, ¬err.Answered → E err)
    (h : ∀ rev w, v.db.acceptsReversals (je :: v.db.fxEntries side id) = true →
      (je :: v.db.fxEntries side id).all v.db.reversible = true →
      w.db = { v.db with periods := w.db.periods, entries := w.db.entries, lines := w.db.lines } → Steady C w →
      (k rev).wp E Q w) :
    (do let rev ← reverseEntry je; reverseApplicationFX side id; k rev : Txn ℕ).wp E Q v := by
  rw [Prog.wp_bind]
  refine wp_reverseEntry hv (fun hno err herr => ?_) (fun hok hno err herr => ?_) fun rev w hok hacc hr hw => ?_
  · exact hrefuse (acceptsReversals_of_not_reversible hno) (by rw [List.all_cons, hno, Bool.false_and]) err herr
  · exact hfault (by rw [acceptsReversals_cons hok, hno, Bool.false_and]) err herr
  · obtain ⟨⟨hdw, hall⟩, haccepts⟩ := reversals_congr hv hr hd hn hok
    obtain ⟨e, r, rows, -, -, hrev, -⟩ := run_reverseEntry hr hv.fresh
    have hfx : (w.db.applications.rows.filter (ownApplication side id)).filterMap (·.fxJournalEntryId) =
        v.db.fxEntries side id := by
      rw [hrev.wrote.eq]
      rfl
    rw [acceptsReversals_cons hok, hacc, Bool.true_and, List.all_cons, hok, Bool.true_and, ← hall,
      ← haccepts] at hrefuse h
    rw [acceptsReversals_cons hok, hacc, Bool.true_and, ← haccepts] at hfault
    rw [Prog.wp_bind, reverseApplicationFX, Prog.wp_read_bind, hfx]
    refine wp_reverseEach hw.tick hdw (List.nodup_cons.1 hn).2 hrefuse hfault fun w₂ hacc hall hr₂ hw₂ => ?_
    refine h rev w₂ hacc hall ?_ hw₂
    have heq := (run_reverseEach hr₂ hw.fresh.tick).eq
    rw [heq, show w.tick.db = w.db from rfl, hrev.wrote.eq]

/-- What the unposting of a payment does after the reversals. -/
def clearPayment (side : Side) (id : ℕ) : Txn Unit := do
  deleteApplications side id
  updatePaymentById side id Payment.unposted Payment.unposted_id

theorem run_clearPayment (h : (clearPayment side id).run v = .ok ((), w)) :
    w.db = { v.db with
        applications := v.db.applications.erase (v.db.applications.keysWhere (ownApplication side id))
        payments := v.db.payments.update (v.db.payments.hit id (·.side = side)) Payment.unposted fun _ => rfl } ∧
      w.checks = v.checks ++ (v.db.applications.rows.filter (ownApplication side id)).map fun a =>
        DB.applicationCheck a true := by
  obtain ⟨u, v₁, h₁, h₂⟩ := Prog.run_bind_ok.1 h
  obtain ⟨o, ho, -, rfl⟩ := Prog.run_exec_ok.1 h₁
  cases ho
  obtain ⟨hdb, hc⟩ := run_updatePaymentById h₂
  exact ⟨hdb, hc⟩

theorem allChange_clearPayment {op : Op} : AllChange op (clearPayment side id) := by
  refine Prog.All.bind (Prog.all_exec <| changes_of_same fun n db o ho => ?_) fun _ => allChange_updatePaymentById _ _ _ _
  cases ho
  exact ⟨rfl, rfl, rfl, rfl, rfl, rfl, rfl, fun h => h, fun h => h⟩

theorem allFresh_clearPayment : AllFresh (clearPayment side id) := by
  refine Prog.All.bind (Prog.all_exec fun n db o h ho => ?_) fun _ => allFresh_updatePaymentById _ _ _ _
  cases ho
  exact { h with applications := h.applications.erase }

theorem wp_clearPayment {Q : Unit → Env DB Err → Prop} (h : ∀ w, (clearPayment side id).run v = .ok ((), w) → Q () w) :
    (clearPayment side id).wp E Q v := by
  refine Prog.wp_iff_run.2 ⟨fun e he => ?_, fun u w hr => h w hr⟩
  unfold clearPayment at he
  cases hx : (deleteApplications side id >>= fun _ => updatePaymentById side id Payment.unposted).run v with
  | ok x =>
    rw [hx] at he
    cases he
  | error e => cases hx

/-- The unposting of a payment fails where one of the reversals may not be made or is not accepted. -/
theorem wp_unpostPayment {s : Store DB} (hs : Reachable s) (gaps : ℕ → ℕ) :
    Decides (s.db.paymentEntries side id = [] ∨ s.db.acceptsReversals (s.db.paymentEntries side id) = true ∧
        (s.db.paymentEntries side id).all s.db.reversible = false)
      (s.db.acceptsReversals (s.db.paymentEntries side id) = true) (unpostPayment side id) ⟨gaps, s.seq, s.db, []⟩ := by
  have hv : Steady (fun c => ∃ a ∈ s.db.applications, ownApplication side id a = true ∧ c = DB.applicationCheck a true)
      (⟨gaps, s.seq, s.db, []⟩ : Env DB Err) := hs.steady gaps
  unfold unpostPayment
  rw [Decides, Prog.wp_bind]
  refine wp_postedEntryOf (fun hno e he => .refused (.inl ?_) he) fun je hje => ?_
  · unfold DB.paymentEntries
    split
    · rfl
    · rename_i je h
      obtain ⟨p, hp, h⟩ := Option.bind_eq_some_iff.1 h
      split at h
      · rename_i hpost
        refine absurd ?_ (hno je)
        show (s.db.paymentOf side id).map _ = _
        rw [hp, Option.map_some, hpost, h]
      · cases h
  · have hje' : (s.db.paymentOf side id).map (fun p => (p.status, p.journalEntryId)) = some (.posted, some je) := hje
    obtain ⟨p, hp, hpair⟩ := Option.map_eq_some_iff.1 hje'
    obtain ⟨hpost, hj⟩ := Prod.mk.inj hpair
    have hes : s.db.paymentEntries side id = je :: s.db.fxEntries side id := by
      rw [DB.paymentEntries, hp, Option.bind_some, if_pos hpost, hj]
    obtain ⟨hn, -⟩ := unpost_entries hs.book_sound hp hj
    rw [hes]
    refine wp_reversePayment hv.tick (datedOn_paymentEntries hs hp hpost hj) hn (fun hacc hno err herr => ?_)
      (fun hno err herr => ?_) fun rev w hacc hall hdb hw => ?_
    · exact .refused (.inr ⟨hacc, hno⟩) herr
    · exact .fault (fun h => h.elim (List.cons_ne_nil _ _) fun h => Bool.eq_false_iff.1 hno h.1)
        (Bool.eq_false_iff.1 hno) herr
    · show (do clearPayment side id; pure rev : Txn ℕ).wp _ _ w
      rw [Prog.wp_bind]
      refine wp_clearPayment fun w' hr => ⟨?_, .of_passes hacc ?_⟩
      · rintro (h | ⟨-, h⟩)
        · exact List.cons_ne_nil _ _ h
        · exact Bool.eq_false_iff.1 h hall
      · obtain ⟨hdb', hc⟩ := run_clearPayment hr
        have happs : w.db.applications = s.db.applications := by rw [hdb]; rfl
        have hpays : w.db.payments = s.db.payments := by rw [hdb]; rfl
        have hdocs : w.db.docs = s.db.docs := by rw [hdb]; rfl
        have hsteady := hw.aside (.unpostPayment side id) allChange_clearPayment allFresh_clearPayment hr
          (by rw [hdb']) (by rw [hdb']) fun c hm => ?_
        · refine hsteady.passes fun c hc => ?_
          obtain ⟨a, ha, hown, rfl⟩ := hc
          exact applicationCheck_deleted hs.settledOk (by rw [hdb', happs]) (by rw [hdb', hdocs]) (by rw [hdb', hpays])
            ha hown
        · rw [hc, List.mem_append] at hm
          rcases hm with hm | hm
          · exact .inl hm
          · obtain ⟨a, ha, rfl⟩ := List.mem_map.1 hm
            obtain ⟨ha, hown⟩ := List.mem_filter.1 ha
            exact .inr ⟨a, happs ▸ ha, hown, rfl⟩

/-! ### Unposting is complete up to the accounts and the product -/

/-- The request that unposts `t`. -/
def Postable.unpost : Postable → Op
  | .doc kind id => kind.unpost id
  | .payment side id => .unpostPayment side id
  | .movement id => .unpostMovement id

namespace DB

/-- The entries that the unposting of `t` reverses: its own and, for a payment, those of its exchange differences. -/
def undone (db : DB) (je : ℕ) : Postable → List ℕ
  | .doc _ _ => [je]
  | .payment side id => je :: db.fxEntries side id
  | .movement _ => [je]

/-- Something is applied to the invoice or bill, or the credit note to something. -/
def applied (db : DB) : Postable → Bool
  | .doc kind id => db.applications.rows.any (Application.involves kind.spec.kind id)
  | .payment _ _ => false
  | .movement _ => false

/-- The documented refusals of the unposting of `t`, which is posted with the entry `je`. -/
inductive Refuses (db : DB) (je : ℕ) (t : Postable) : Prop where
  | applied (h : db.applied t = true)
  | matched (x : ℕ) (hx : x ∈ db.undone je t) (h : db.matchedOn x = true)
  | reversed (r : JournalEntry) (hr : r ∈ db.entries) (h : r.reversesEntryId = some je)
  | noPeriod (e : JournalEntry) (he : db.entries.find? je = some e) (h : db.canPost e.entryDate = false)

/-- The accounts of the entries still take postings, and the product of a movement is still tracked and active. -/
structure Reposts (db : DB) (je : ℕ) (t : Postable) : Prop where
  accounts : ∀ x ∈ db.undone je t, ∀ l ∈ db.linesOf x, db.takes l.accountId = true
  product : ∀ id m p, t = .movement id → db.movementProduct id = some (m, p) →
    p.trackInventory = true ∧ p.isActive = true

end DB

variable {t : Postable} {s : Store DB}

theorem reversible_iff {db : DB} {e : JournalEntry} (he : db.entries.find? je = some e) : db.reversible je = true ↔
    (∀ r ∈ db.entries, r.reversesEntryId ≠ some je) ∧ db.matchedOn je = false ∧ db.canPost e.entryDate = true := by
  rw [DB.reversible, he, Option.any_some, Bool.and_eq_true, DB.unreversed, Bool.and_eq_true, Bool.not_eq_true',
    Bool.not_eq_true', List.any_eq_false, and_assoc]
  simp only [decide_eq_true_eq]
  rfl

/-- The entries that an unposting reverses are there, of the date of the first, and not reversed. -/
theorem undone_entries (hs : Reachable s) (h : s.db.IsPosted je t = true) :
    ∃ e, s.db.entries.find? je = some e ∧ ∀ x ∈ s.db.undone je t, ∃ y, s.db.entries.find? x = some y ∧
      y.entryDate = e.entryDate ∧ ∀ r ∈ s.db.entries, r.reversesEntryId ≠ some x := by
  obtain ⟨e, he, rfl, -, hlive, -⟩ := live_of_links hs.linkOk hs.book_sound (DB.links_of_isPosted h)
  have hfind : s.db.entries.find? e.id = some e := Table.find?_key he
  refine ⟨e, hfind, fun x hx => ?_⟩
  cases t with
  | doc kind id =>
    obtain rfl := List.mem_singleton.1 hx
    exact ⟨e, hfind, rfl, hlive⟩
  | movement id =>
    obtain rfl := List.mem_singleton.1 hx
    exact ⟨e, hfind, rfl, hlive⟩
  | payment side id =>
    obtain ⟨p, hp, hpost⟩ := (Option.any_eq_true ..).1 h
    simp only [Bool.and_eq_true, decide_eq_true_eq] at hpost
    have hd := datedOn_paymentEntries hs hp hpost.1 hpost.2
    obtain ⟨e', he', hid, hdate⟩ := hd e.id (List.mem_cons_self ..)
    obtain rfl := Table.key_inj he' he hid
    obtain ⟨y, hy, rfl, hydate⟩ := hd x hx
    refine ⟨y, Table.find?_key hy, hydate.trans hdate.symm, ?_⟩
    rcases List.mem_cons.1 hx with hx | hx
    · exact hx ▸ hlive
    · obtain ⟨a, ha, -, hfx⟩ := DB.mem_fxEntries.1 hx
      obtain ⟨z, hz, hzid, -, hlive', -⟩ := live_of_links hs.linkOk hs.book_sound (.application ha hfx)
      exact hzid ▸ hlive'

/-- No documented refusal applies if and only if all the entries may be reversed. -/
theorem not_refuses_iff (hs : Reachable s) (h : s.db.IsPosted je t = true) :
    ¬s.db.Refuses je t ↔ s.db.applied t = false ∧ ∀ x ∈ s.db.undone je t, s.db.reversible x = true := by
  obtain ⟨e, he, hall⟩ := undone_entries hs h
  have hmem : je ∈ s.db.undone je t := by
    cases t <;> exact List.mem_cons_self ..
  constructor
  · intro hno
    refine ⟨Bool.eq_false_iff.2 fun ha => hno (.applied ha), fun x hx => ?_⟩
    obtain ⟨y, hy, hdate, hlive⟩ := hall x hx
    refine (reversible_iff hy).2 ⟨hlive, Bool.eq_false_iff.2 fun hm => hno (.matched x hx hm), ?_⟩
    rw [hdate]
    by_contra hcan
    exact hno (.noPeriod e he (Bool.eq_false_iff.2 hcan))
  · rintro ⟨happ, hrev⟩ hr
    obtain ⟨hnot, -, hcan⟩ := (reversible_iff he).1 (hrev je hmem)
    cases hr with
    | applied h =>
      rw [happ] at h
      cases h
    | matched x hx h =>
      obtain ⟨y, hy, -⟩ := hall x hx
      rw [((reversible_iff hy).1 (hrev x hx)).2.1] at h
      cases h
    | reversed r hr h => exact hnot r hr h
    | noPeriod e' he' h =>
      obtain rfl := Option.some.inj (he.symm.trans he')
      rw [hcan] at h
      cases h

/-- The reversal of an entry of the journal is accepted if and only if its accounts still take postings. -/
theorem accepts_reversal_iff (hs : Reachable s) {e : JournalEntry} (he : s.db.entries.find? je = some e) :
    s.db.accepts (s.db.mirrored je) = true ↔ ∀ l ∈ s.db.linesOf je, s.db.takes l.accountId = true := by
  rw [accepts_mirrored he (hs.ledgerOk.posted e (Table.mem_of_find? he)) (hs.entryBalanced je) hs.rowsChecked.valid,
    List.all_eq_true]

theorem transaction_unpost (kind : PostedKind) (id : ℕ) :
    transaction (kind.unpost id) = void (unpostDoc kind.spec.kind id) := by
  cases kind <;> rfl

/-- An entry that is linked is reversed if and only if it may be and its accounts take postings. -/
theorem reversed_iff (hs : Reachable s) {e : JournalEntry} (he : s.db.entries.find? je = some e) :
    (¬s.db.reversed (some je) = none ∧ s.db.acceptsReversal (some je) = true) ↔
      s.db.reversible je = true ∧ ∀ l ∈ s.db.linesOf je, s.db.takes l.accountId = true := by
  cases hr : s.db.reversible je with
  | false =>
    rw [reversed_eq_none hr]
    simp
  | true =>
    rw [DB.acceptsReversal, reversed_of_reversible hr, Option.all_some, accepts_reversal_iff hs he]
    simp

/-- The row of the movement is written back unless its product is untracked or inactive. -/
theorem movementRaises_eq_false {db : DB} : db.movementRaises id = false ↔
    ∀ m p, db.movementProduct id = some (m, p) → p.trackInventory = true ∧ p.isActive = true := by
  unfold DB.movementRaises
  cases hmp : db.movementProduct id with
  | none => exact iff_of_true rfl fun _ _ hno => by cases hno
  | some x =>
    obtain ⟨m, p⟩ := x
    rw [Option.any_some, Bool.not_eq_false', Bool.and_eq_true]
    constructor
    · intro hok m' p' heq
      cases heq
      exact hok
    · intro hok
      exact hok m p rfl

/-- An unposting succeeds if and only if the entries may be reversed, and are accepted. -/
theorem unposts_iff (hs : Reachable s) (gaps : ℕ → ℕ) (h : s.db.IsPosted je t = true) :
    (∃ x, (transaction t.unpost).commit gaps s = .ok x) ↔
      (s.db.applied t = false ∧ ∀ x ∈ s.db.undone je t, s.db.reversible x = true) ∧ s.db.Reposts je t := by
  obtain ⟨e, he, hall⟩ := undone_entries hs h
  cases t with
  | doc kind id =>
    obtain ⟨d, hd, hp⟩ := (Option.any_eq_true ..).1 h
    simp only [Bool.and_eq_true, decide_eq_true_eq] at hp
    have hdecided : Decided (s.db.reversed (s.db.unpostable kind.spec.kind id) = none)
        (s.db.acceptsReversal (s.db.unpostable kind.spec.kind id) = true) (void (unpostDoc kind.spec.kind id)) gaps s :=
      (wp_unpostDoc (hs.steady gaps)).void.commit
    rw [← transaction_unpost] at hdecided
    rw [show Postable.unpost (.doc kind id) = kind.unpost id from rfl, hdecided.commit_iff]
    cases happ : s.db.applied (.doc kind id) with
    | true =>
      have hnone : s.db.unpostable kind.spec.kind id = none := by
        rw [Option.eq_none_iff_forall_ne_some]
        intro x hx
        exact absurd happ (Bool.eq_false_iff.1 (unpostable_eq_some.1 hx).2)
      rw [hnone]
      exact iff_of_false (fun hno => hno.1 rfl) fun hno => by cases hno.1.1
    | false =>
      have hsome : s.db.unpostable kind.spec.kind id = some je :=
        unpostable_eq_some.2 ⟨by rw [hd, Option.map_some, hp.1, hp.2], happ⟩
      rw [hsome, reversed_iff hs he]
      constructor
      · rintro ⟨hrev, htakes⟩
        refine ⟨⟨rfl, fun x hx => ?_⟩, fun x hx => ?_, fun _ _ _ hne => by cases hne⟩
        · exact List.mem_singleton.1 hx ▸ hrev
        · exact List.mem_singleton.1 hx ▸ htakes
      · rintro ⟨⟨-, hrev⟩, hrepost⟩
        exact ⟨hrev je (List.mem_cons_self ..), hrepost.accounts je (List.mem_cons_self ..)⟩
  | payment side id =>
    obtain ⟨p, hp, hpost⟩ := (Option.any_eq_true ..).1 h
    simp only [Bool.and_eq_true, decide_eq_true_eq] at hpost
    have hes : s.db.paymentEntries side id = s.db.undone je (.payment side id) := by
      rw [DB.paymentEntries, hp, Option.bind_some, if_pos hpost.1, hpost.2]
      rfl
    have hdecided : Decided _ _ (transaction (.unpostPayment side id)) gaps s := (wp_unpostPayment hs gaps).void.commit
    rw [show Postable.unpost (.payment side id) = .unpostPayment side id from rfl, hdecided.commit_iff, hes]
    generalize hxs : s.db.undone je (.payment side id) = xs at hall
    have hne : xs ≠ [] := hxs ▸ List.cons_ne_nil _ _
    have haccepts : (∀ x ∈ xs, s.db.reversible x = true) → (s.db.acceptsReversals xs = true ↔
        ∀ x ∈ xs, ∀ l ∈ s.db.linesOf x, s.db.takes l.accountId = true) := by
      intro hrev
      rw [DB.acceptsReversals, List.takeWhile_eq_self_iff.2 hrev, List.all_eq_true]
      refine forall₂_congr fun x hx => ?_
      obtain ⟨y, hy, -⟩ := hall x hx
      exact accepts_reversal_iff hs hy
    constructor
    · rintro ⟨hno, hacc⟩
      have hrev : ∀ x ∈ xs, s.db.reversible x = true := by
        by_contra hrev
        refine hno (.inr ⟨hacc, ?_⟩)
        rw [Bool.eq_false_iff, ne_eq, List.all_eq_true]
        exact hrev
      refine ⟨⟨rfl, hrev⟩, fun x hx => ?_, fun _ _ _ hne => by cases hne⟩
      exact (haccepts hrev).1 hacc x (hxs ▸ hx)
    · rintro ⟨⟨-, hrev⟩, hrepost⟩
      refine ⟨?_, (haccepts hrev).2 fun x hx => hrepost.accounts x (hxs ▸ hx)⟩
      rintro (hnil | ⟨-, hno⟩)
      · exact hne hnil
      · exact Bool.eq_false_iff.1 hno (List.all_eq_true.2 hrev)
  | movement id =>
    obtain ⟨m, hm, hj⟩ := (Option.any_eq_true ..).1 h
    have hlink : s.db.movementLink id = some je := by
      rw [DB.movementLink, hm]
      exact of_decide_eq_true hj
    have hdecided : Decided _ _ (transaction (.unpostMovement id)) gaps s :=
      (wp_unpostMovement (hs.steady gaps)).void.commit
    rw [show Postable.unpost (.movement id) = .unpostMovement id from rfl, hdecided.commit_iff, hlink, ← and_assoc,
      reversed_iff hs he, movementRaises_eq_false]
    constructor
    · rintro ⟨⟨hrev, htakes⟩, hprod⟩
      refine ⟨⟨rfl, fun x hx => ?_⟩, fun x hx => ?_, fun id' m' p' hid hmp => ?_⟩
      · exact List.mem_singleton.1 hx ▸ hrev
      · exact List.mem_singleton.1 hx ▸ htakes
      · cases hid
        exact hprod m' p' hmp
    · rintro ⟨⟨-, hrev⟩, hrepost⟩
      exact ⟨⟨hrev je (List.mem_cons_self ..), hrepost.accounts je (List.mem_cons_self ..)⟩,
        fun m' p' hmp => hrepost.product id m' p' rfl hmp⟩

/-- The unposting succeeds unless a documented refusal applies; then the database stays as it is. -/
def UnpostsUnlessRefused (t : Postable) (je : ℕ) (gaps : ℕ → ℕ) (s : Store DB) : Prop :=
  ((handle t.unpost gaps s).1 = 200 ↔ ¬s.db.Refuses je t) ∧
    (s.db.Refuses je t → (handle t.unpost gaps s).2 = s)

theorem postingStatus_ne_ok (e : Err) : postingStatus e ≠ 200 := by
  cases e with
  | posting c text =>
    show c.status ≠ 200
    cases c <;> decide
  | _ =>
    show 500 ≠ 200
    decide

theorem handle_eq_ok {op : Op} {gaps : ℕ → ℕ} {s : Store DB} :
    (handle op gaps s).1 = 200 ↔ ∃ x, (transaction op).commit gaps s = .ok x := by
  unfold handle
  cases (transaction op).commit gaps s with
  | ok x => exact iff_of_true rfl ⟨x, rfl⟩
  | error e => exact iff_of_false (postingStatus_ne_ok e) fun ⟨x, hx⟩ => nomatch hx

/-- A request that does not succeed leaves the database as it is. -/
theorem handle_store {op : Op} {gaps : ℕ → ℕ} {s : Store DB} (h : (handle op gaps s).1 ≠ 200) :
    (handle op gaps s).2 = s := by
  rw [ne_eq, handle_eq_ok] at h
  unfold handle
  cases hc : (transaction op).commit gaps s with
  | ok x => exact absurd ⟨x, hc⟩ h
  | error e => rfl

/-- An unposting is possible exactly when it is not refused if and only if it is refused, or the entries can be posted
again the other way round. -/
theorem unpost_succeeds_iff (hs : Reachable s) (gaps : ℕ → ℕ) (h : s.db.IsPosted je t = true) :
    UnpostsUnlessRefused t je gaps s ↔ s.db.Refuses je t ∨ s.db.Reposts je t := by
  have hiff : (handle t.unpost gaps s).1 = 200 ↔ ¬s.db.Refuses je t ∧ s.db.Reposts je t := by
    rw [handle_eq_ok, unposts_iff hs gaps h, not_refuses_iff hs h]
  have hstore : s.db.Refuses je t → (handle t.unpost gaps s).2 = s := fun hr =>
    handle_store fun hok => (hiff.1 hok).1 hr
  rw [UnpostsUnlessRefused, and_iff_left hstore, hiff]
  tauto

theorem unpost_succeeds_iff_opening : ∃ s : Store DB, s.db.IsPosted 18 (.doc .salesInvoice 15) = true ∧
    (UnpostsUnlessRefused (.doc .salesInvoice 15) 18 (fun _ => 0) s ↔
      s.db.Refuses 18 (.doc .salesInvoice 15) ∨ s.db.Reposts 18 (.doc .salesInvoice 15)) := by
  obtain ⟨s, hs, hp⟩ := exists_reachable (opening ++ [.postDoc .salesInvoice 15])
    (p := fun s => s.db.IsPosted 18 (.doc .salesInvoice 15)) (by decide +kernel)
  exact ⟨s, hp, unpost_succeeds_iff hs _ hp⟩

/-- The revenue account (8) of an invoice is deactivated after the invoice has been posted. -/
theorem unpost_impossible : ¬∀ s : Store DB, Reachable s → ∀ (t : Postable) (je : ℕ) (gaps : ℕ → ℕ),
    s.db.IsPosted je t = true → UnpostsUnlessRefused t je gaps s := by
  intro hall
  obtain ⟨s, hs, hp⟩ := exists_reachable
    (opening ++ [.postDoc .salesInvoice 15, .updateAccount 8 ⟨"4000", .revenue, true, false, false, none⟩])
    (p := fun s => s.db.IsPosted 18 (.doc .salesInvoice 15) = true ∧ s.db.applied (.doc .salesInvoice 15) = false ∧
      s.db.reversible 18 = true ∧ ¬(s.db.linesOf 18).all (fun l => s.db.takes l.accountId)) (by decide +kernel)
  obtain ⟨hposted, happ, hrev, htakes⟩ := of_decide_eq_true hp
  rcases (unpost_succeeds_iff hs (fun _ => 0) hposted).1 (hall s hs _ _ _ hposted) with hr | hr
  · refine (not_refuses_iff hs hposted).2 ⟨happ, fun x hx => ?_⟩ hr
    exact List.mem_singleton.1 hx ▸ hrev
  · exact htakes (List.all_eq_true.2 (hr.accounts 18 (List.mem_cons_self ..)))
