import Tadmor.Proof.DoublePost
import Tadmor.Proof.EntryContent
import Tadmor.Proof.Lifecycle
import Tadmor.Store.FirstWins

/-!
# A post beside an edit

The post of a document reads its header, then its lines, then its total, and links the entry last, without another test
of the status.  If no edit of the document becomes visible while the post stands in between, the entry says what the
document says.  The other order does no harm: both write the row of the document, and the edit tests the status there.
-/

/-- `op` updates or deletes the document. -/
def Op.Edits (op : Op) (kind : DocKind) (id : ℕ) : Prop :=
  (∃ input, op = .updateDoc kind id input) ∨ op = .deleteDoc kind id

/-- From `db` to `db'` no entry has been added, and the document is absent or a draft; or one has, which the document
links and which says what the header and the lines of `db'` give. -/
inductive Consistent (kind : PostedKind) (id : ℕ) (db db' : DB) : Prop where
  | unposted (hd : ∀ d, db'.docOf kind.spec.kind id = some d → d.status = .draft) (he : db'.entries = db.entries)
  | posted (d : Doc) (c : Party) (control : ℕ) (e : JournalEntry) (hd : db'.docOf kind.spec.kind id = some d)
      (hs : d.status = .posted) (hj : d.journalEntryId = some e.id) (he : db'.entries.rows = db.entries.rows ++ [e])
      (hdate : e.entryDate = d.date) (hcurrency : e.currencyCode = d.currencyCode)
      (hrate : db'.rateFor d.currencyCode d.date = some e.exchangeRate)
      (hparty : db'.partyOf kind.spec.kind.side d.partyId = some c) (hcontrol : c.controlAccountId = some control)
      (hcontent : db'.content e.id = kind.content db' d control e.exchangeRate)

variable {kind : PostedKind} {id : ℕ} {s s' : Store DB} {gaps : ℕ → ℕ}

theorem Consistent.of_entries {db mid db' : DB} (h : Consistent kind id mid db') (he : mid.entries = db.entries) :
    Consistent kind id db db' := by
  cases h with
  | unposted hd h => exact .unposted hd (h.trans he)
  | posted d c control e hd hs hj h hdate hcurrency hrate hparty hcontrol hcontent =>
    exact .posted d c control e hd hs hj (he ▸ h) hdate hcurrency hrate hparty hcontrol hcontent

theorem run_post_consistent {v w : Env DB Err} (h : (transaction (.postDoc kind id)).run v = .ok ((), w))
    (hv : Fresh v.seq v.db) (ho : JournalOk v.db) : Consistent kind id v.db w.db := by
  obtain ⟨je, hrun⟩ := run_void h
  obtain ⟨d, c, period, rate, before, details, l, row, mid, hp, hdb, -⟩ := run_postDoc_lines hrun hv
  obtain ⟨hdoc, hparty⟩ := docParty_eq_some.1 hp.doc
  obtain ⟨control, hc, hcontent⟩ := hp.content ho
  obtain ⟨hfind, hk⟩ := docOf_eq_some.1 hdoc
  have hfind' : w.db.docs.find? id = some (d.posted je period) := by
    rw [hdb]
    exact Table.find?_update_self (f := (·.posted je period)) (fun _ => rfl) hfind
  refine .posted (d.posted je period) c control
    (entryOf je d.date period d.currencyCode rate (kind.spec.entryMemo ++ d.number) d.number)
    (docOf_eq_some.2 ⟨hfind', hk⟩) rfl rfl ?_ rfl rfl ?_ ?_ hc ?_
  · rw [hdb, hp.wrote.eq]
    exact Table.rows_insert hp.wrote.free
  · rw [hdb, hp.wrote.eq]
    exact hp.rate_eq
  · rw [hdb, hp.wrote.eq]
    exact hparty
  · have hlines : w.db.content je = mid.content je := by rw [hdb]; rfl
    have hsame : kind.content w.db (d.posted je period) control rate = kind.content v.db d control rate := by
      rw [hdb, hp.wrote.eq]
      rfl
    exact (hlines.trans hcontent).trans hsame.symm

/-- An edit leaves no document or a draft, and writes no entry. -/
theorem commit_edit {op : Op} (hs : Reachable s) (hop : op.Edits kind.spec.kind id)
    (h : (transaction op).commit gaps s = .ok ((), s')) :
    (∀ d, s'.db.docOf kind.spec.kind id = some d → d.status = .draft) ∧ s'.db.entries = s.db.entries := by
  have hs' : Reachable s' := hs.step ⟨_, _, h⟩
  obtain ⟨v, hrun, -, rfl⟩ := Prog.commit_eq_ok.1 h
  have hedit : DocEdit id s.db v.db := by
    rcases hop with ⟨input, rfl⟩ | rfl
    · exact run_updateDoc hrun hs.fresh
    · exact run_deleteDoc hrun
  refine ⟨fun d hd => ?_, by rw [hedit.eq]⟩
  obtain ⟨hf, hk⟩ := docOf_eq_some.1 hd
  have hstatus := hs'.linksOk.1.status d (Table.mem_of_find? hf)
  rw [Doc.StatusOk, hk, if_neg (by simp [kind.not_isOrder])] at hstatus
  exact hstatus.resolve_right (hedit.new d hf)

/-! ### The edit after the post -/

/-- The statements of an edit before the one that writes the row of the document. -/
def Op.beforeWrite : Op → ℕ
  | .updateDoc kind _ _ => if kind.isInvoice then 1 else 0
  | _ => 0

section edit

variable {dk : DocKind} {op : Op} {d d' : DB}

theorem hit_draftDoc_eq_nil (h : ∀ x, d.docOf dk id = some x → x.status ≠ .draft) :
    d.docs.hit id (draftDoc dk) = [] := by
  rw [List.eq_nil_iff_forall_not_mem]
  intro k hk
  obtain ⟨rfl, x, hx, hdraft⟩ := Table.mem_hit.1 hk
  simp only [draftDoc, Bool.and_eq_true, decide_eq_true_eq] at hdraft
  exact h x (docOf_eq_some.2 ⟨hx, hdraft.1⟩) hdraft.2

/-- The write of the row finds no draft, and the edit gives up. -/
theorem stuck_write {r : ℕ → DB → Except Err (Outcome DB Lock Err ℕ)} {noun : String} {f : DB → Option DocStatus}
    {rest : Txn Unit} (h : ∀ n, r n d' = .ok { res := 0 }) :
    (Prog.exec r >>= fun n => if n = 0 then notFoundOrNotDraft noun id f else rest).Stuck d' := by
  refine .of_run fun v a w hv hrun => ?_
  obtain ⟨k, v₁, h₁, hrun⟩ := Prog.run_bind_ok.1 hrun
  obtain ⟨o, ho, rfl, -⟩ := Prog.run_exec_ok.1 h₁
  rw [hv, h] at ho
  cases ho
  exact not_run_notFoundOrNotDraft hrun

/-- An edit that has not written the row fails on a document that is posted. -/
theorem failsFrom_edit (hop : op.Edits dk id) (h : ∀ x, d'.docOf dk id = some x → x.status ≠ .draft) :
    (transaction op).FailsFrom (fun _ => True) d d' (op.beforeWrite + 1) := by
  have hhit := hit_draftDoc_eq_nil h
  rcases hop with ⟨input, rfl⟩ | rfl
  · have hwrite : ∀ rest : Txn Unit, (updateHeader dk id input >>= fun n =>
        if n = 0 then notFoundOrNotDraft dk.noun id fun db => (db.docOf dk id).map (·.status) else rest).Stuck d' :=
      fun rest => stuck_write fun n => by rw [hhit, if_pos rfl]
    show (updateDoc dk id input).FailsFrom (fun _ => True) d d' (Op.beforeWrite (.updateDoc dk id input) + 1)
    unfold updateDoc refuseOrderLinked
    rw [Op.beforeWrite]
    by_cases hinvoice : dk.isInvoice = true
    · rw [if_pos hinvoice, if_pos hinvoice, Prog.bind_assoc]
      exact .read_bind (Prog.Stuck.read (.require fun _ => hwrite _)).fails
        (.require_bind (fun _ => trivial) fun _ => (hwrite _).failsFrom)
    · rw [if_neg hinvoice, if_neg hinvoice]
      exact (hwrite _).failsFrom
  · have hwrite : (deleteDoc dk id).Stuck d' := stuck_write fun n => by rw [hhit, if_pos rfl]
    exact hwrite.failsFrom

/-- The transaction has failed, or it has run fewer than `k` statements, or it holds the row of the document. -/
def HoldsRow (k id : ℕ) (t : Tx DB Lock Err Unit) : Prop :=
  (∃ e, t = .aborted e) ∨ (∃ pc act ls cs q, t = .running pc act ls cs q ∧ pc < k) ∨
    ∃ l ∈ t.locks, Lock.conflict (.write .doc id) l = true

/-- The write of the row takes its lock. -/
theorem holdsRow_write {k pc n m : ℕ} {act : DB → DB} {ls : List Lock} {cs : List (DB → Except Err Unit)} {β : Type}
    {r : ℕ → DB → Except Err (Outcome DB Lock Err β)} {next : β → Txn Unit} {t : Tx DB Lock Err Unit}
    (h : (Tx.running pc act ls cs (Prog.exec r >>= next)).Alone d n m t) (hpc : pc < k)
    (hlock : ∀ n o, r n (act d) = .ok o → ∃ l ∈ o.locks, Lock.conflict (.write .doc id) l = true) :
    HoldsRow k id t := by
  rcases h.of_stmt with rfl | ⟨n', e, -, -, rfl⟩ | ⟨n', o, -, ho, h⟩
  · exact .inr (.inl ⟨_, _, _, _, _, rfl, hpc⟩)
  · exact .inl ⟨_, rfl⟩
  rcases h.locks with haborted | hlocks
  · exact .inl haborted
  · obtain ⟨l, hl, hc⟩ := hlock n' o ho
    exact .inr (.inr ⟨l, hlocks l (List.mem_append_right _ hl), hc⟩)

/-- An edit of a draft has written the row, or it has not come to it. -/
theorem holdsRow_edit {n m : ℕ} {t : Tx DB Lock Err Unit} (hop : op.Edits dk id) {x : Doc} (hx : d.docOf dk id = some x)
    (hdraft : x.status = .draft) (h : (Tx.start (transaction op)).Alone d n m t) :
    HoldsRow (op.beforeWrite + 1) id t := by
  have hhit : d.docs.hit id (draftDoc dk) = [id] := by
    obtain ⟨hf, hk⟩ := docOf_eq_some.1 hx
    exact Table.hit_of_find? hf (by simp [draftDoc, hk, hdraft])
  rcases hop with ⟨input, rfl⟩ | rfl
  · have hwrite : ∀ {pc k n : ℕ} {rest : Txn Unit},
        (Tx.running pc (fun d => d) [] [] (updateHeader dk id input >>= fun n =>
          if n = 0 then notFoundOrNotDraft dk.noun id fun db => (db.docOf dk id).map (·.status)
          else rest)).Alone d n m t → pc < k → HoldsRow k id t := by
      intro pc k n rest h hpc
      refine holdsRow_write h hpc fun n' o ho => ?_
      dsimp only [id_eq] at ho
      rw [hhit, if_neg (List.cons_ne_nil _ _)] at ho
      obtain ⟨-, -, ho⟩ := Except.bind_eq_ok_iff.1 ho
      cases ho
      exact ⟨.write .doc id, by simp, by simp [Lock.conflict]⟩
    have h : (Tx.start (updateDoc dk id input)).Alone d n m t := h
    unfold updateDoc refuseOrderLinked at h
    rw [Op.beforeWrite]
    by_cases hinvoice : dk.isInvoice = true
    · rw [if_pos hinvoice] at h ⊢
      rw [Prog.bind_assoc] at h
      rcases h.read_bind with rfl | ⟨n₁, -, h⟩
      · exact .inr (.inl ⟨_, _, _, _, _, rfl, by omega⟩)
      · rcases h.require_bind with ⟨-, rfl | rfl⟩ | ⟨-, h⟩
        · exact .inr (.inl ⟨_, _, _, _, _, rfl, by omega⟩)
        · exact .inl ⟨_, rfl⟩
        · exact hwrite h (by omega)
    · rw [if_neg hinvoice] at h ⊢
      exact hwrite h (by omega)
  · have h : (Tx.start (deleteDoc dk id)).Alone d n m t := h
    refine holdsRow_write h (Nat.succ_pos _) fun n' o ho => ?_
    dsimp only [id_eq] at ho
    rw [hhit, if_neg (List.cons_ne_nil _ _)] at ho
    simp only [Except.bind_eq_ok_iff] at ho
    obtain ⟨-, -, -, -, ho⟩ := ho
    cases ho
    exact ⟨.delete .doc id, by simp, by simp [Lock.conflict]⟩

end edit

/-- A post that has passed its checks has written the row of the document. -/
theorem post_locks {d : DB} {n m : ℕ} {act : DB → DB} {ls : List Lock}
    (h : (Tx.start (transaction (.postDoc kind id))).Alone d n m (.checked act ls ())) : Lock.write .doc id ∈ ls := by
  have h : (Tx.start (void (postDoc kind.spec id))).Alone d n m (.checked act ls ()) := h
  unfold Tx.start void postDoc at h
  simp only [Prog.bind_assoc] at h
  rcases h.query_bind with e | ⟨_, -, e⟩ | ⟨n₁, hd, -, hhead, h⟩
  · cases e
  · cases e
  obtain ⟨x, c, hxc, -⟩ := PostSpec.header_eq_ok.1 hhead
  rcases h.require_bind with ⟨-, e | e⟩ | ⟨-, h⟩
  · cases e
  · cases e
  rcases h.require_bind with ⟨-, e | e⟩ | ⟨-, h⟩
  · cases e
  · cases e
  rcases h.require_bind with ⟨-, e | e⟩ | ⟨-, h⟩
  · cases e
  · cases e
  rcases h.read_bind with e | ⟨n₂, -, h⟩
  · cases e
  rcases h.require_bind with ⟨-, e | e⟩ | ⟨-, h⟩
  · cases e
  · cases e
  rcases h.read_bind with e | ⟨n₃, -, h⟩
  · cases e
  rcases h.require_bind with ⟨-, e | e⟩ | ⟨-, h⟩
  · cases e
  · cases e
  -- nothing before the last statement writes a document
  obtain ⟨m₁, _, act₁, _, _, period, h₁, h⟩ := h.checked_bind
  obtain ⟨m₂, _, act₂, _, _, je, h₂, h⟩ := h.checked_bind
  obtain ⟨m₃, _, act₃, _, _, u₃, h₃, h⟩ := h.checked_bind
  obtain ⟨m₄, _, act₄, _, _, u₄, h₄, h⟩ := h.checked_bind
  obtain ⟨_, w₁, h₁, e₁, -⟩ := h₁.run_pure
  obtain ⟨_, w₂, h₂, e₂, -⟩ := h₂.run_pure
  obtain ⟨_, w₃, h₃, e₃, -⟩ := h₃.run_pure
  obtain ⟨_, w₄, h₄, e₄, -⟩ := h₄.run_pure
  obtain ⟨hperiod, -, -⟩ := run_periodForDate h₁
  obtain ⟨_, -, -, -, -, hentry, -⟩ := run_createEntry h₂
  obtain ⟨_, _, -, -, hlines, -⟩ := run_insertLines h₃
  obtain ⟨_, _, -, -, hcontrol, -⟩ := run_insertLines h₄
  have hdocs : (act₄ d).docs = d.docs := by
    rw [← e₄, hcontrol, ← e₃, hlines, ← e₂, hentry, ← e₁, hperiod.eq]
    rfl
  rcases h.of_stmt with e | ⟨_, _, -, -, e⟩ | ⟨_, o, -, ho, h⟩
  · cases e
  · cases e
  cases ho
  rcases h.locks with ⟨_, e⟩ | hlocks
  · cases e
  obtain ⟨hf, hk⟩ := docOf_eq_some.1 (docParty_eq_some.1 hxc).1
  refine hlocks _ (List.mem_append_right _ (List.mem_map.2 ⟨id, ?_, rfl⟩))
  rw [hdocs]
  exact Table.mem_hit.2 ⟨rfl, x, hf, decide_eq_true hk⟩

/-! ### Runs -/

section runs

attribute [local instance] neZero_two

variable {ops : Fin 2 → Op} {d : Doc}

/-- Where the edit's commit becomes visible, the post has not read its header, or it has failed. -/
def EditApart (σ : Sys (Fin 2) DB Lock Err Unit) (x : Fin 2) : Prop :=
  x = 1 → (σ.tx 1).isChecked = true → (σ.tx 0).inside (fun pc _ => 0 < pc) = false

instance (σ : Sys (Fin 2) DB Lock Err Unit) (x : Fin 2) : Decidable (EditApart σ x) := by
  unfold EditApart
  infer_instance

/-- The edit does not get through beside the first commit, the post's. -/
theorem edit_stuck (hd : s.db.docOf kind.spec.kind id = some d) (hdraft : d.status = .draft)
    (hpost : ops 0 = .postDoc kind id) (hedit : (ops 1).Edits kind.spec.kind id) {σ : Sys (Fin 2) DB Lock Err Unit}
    (hun : Sys.Unseen s (fun i => transaction (ops i)) σ) {act : DB → DB} {ls : List Lock}
    (hx : σ.tx 0 = .checked act ls ()) (hno : ∀ x, (act s.db).docOf kind.spec.kind id = some x → x.status ≠ .draft)
    {n : ℕ} {act' : DB → DB} {ls' : List Lock} : ¬(σ.tx 1).Alone (act s.db) σ.seq n (.checked act' ls' ()) := by
  intro hy
  have hpostAlone := hun.alone 0
  rw [hx, hpost] at hpostAlone
  have hlock := post_locks hpostAlone
  rcases holdsRow_edit hedit hd hdraft (hun.alone 1) with ⟨e, he⟩ | ⟨pc, act₁, ls₁, cs, q, hq, hpc⟩ | ⟨l, hl, hc⟩
  · rw [he] at hy
    cases hy.of_finished rfl
  · have halone := hun.alone 1
    rw [hq] at hy halone
    cases (halone.doomed (failsFrom_edit hedit hno) hpc _ _ _ hy).1
  · have hfree := hun.exclusive 0 1 (by decide) (.write .doc id) (by rw [hx]; exact hlock) l hl
    exact Bool.false_ne_true (hfree.symm.trans hc)

/-- A post of a draft beside an edit of it.  If the edit's commit does not become visible while the post has read its
header and has not finished, the document and its entry are consistent. -/
theorem post_beside_edit (h : Reachable s) (hd : s.db.docOf kind.spec.kind id = some d) (hdraft : d.status = .draft)
    (hpost : ops 0 = .postDoc kind id) (hedit : (ops 1).Edits kind.spec.kind id) {is : List (Fin 2)}
    (ha : Sys.Along EditApart (race s ops) is) : Consistent kind id s.db ((race s ops).runSchedule is).db := by
  unfold race at ha ⊢
  rcases Sys.phase_of_along ha with hun | @⟨σ₁, x, act, ls, u, hun, hP, hx, hdb, hc, hy⟩ |
    @⟨σ₁, x, y, act, act', ls, ls', u, u', n, hun, hP, hx, hne, hy, hend⟩
  · refine .unposted (fun x hx => ?_) (by rw [hun.db])
    rw [hun.db, hd] at hx
    cases hx
    exact hdraft
  · obtain ⟨gaps, s', hcommit, hdb', -⟩ := hun.commit hx
    rw [hdb, ← hdb']
    have hcases : x = 0 ∨ x = 1 := by omega
    rcases hcases with rfl | rfl
    · rw [hpost] at hcommit
      obtain ⟨v, hrun, -, rfl⟩ := Prog.commit_eq_ok.1 hcommit
      exact run_post_consistent hrun h.fresh h.journalOk
    · obtain ⟨hleft, he⟩ := commit_edit h hedit hcommit
      exact .unposted hleft he
  · obtain ⟨gaps, s', hcommit, hdb', hseq⟩ := hun.commit hx
    have hs' : Reachable s' := h.step ⟨_, _, hcommit⟩
    have hcases : x = 0 ∧ y = 1 ∨ x = 1 ∧ y = 0 := by omega
    rcases hcases with ⟨rfl, rfl⟩ | ⟨rfl, rfl⟩
    · -- the post is first
      rw [hpost] at hcommit
      obtain ⟨v, hrun, -, rfl⟩ := Prog.commit_eq_ok.1 hcommit
      refine absurd hy (edit_stuck hd hdraft hpost hedit hun hx fun x hx' => ?_)
      rw [← hdb'] at hx'
      obtain ⟨-, e, -, hp⟩ := run_posts (t := .doc kind id) rfl hrun h.fresh
      have hx' : v.db.docOf kind.spec.kind id = some x := hx'
      rw [DB.IsPosted, hx', Option.any_some, Bool.and_eq_true, decide_eq_true_eq] at hp
      rw [hp.1]
      decide
    · -- the edit is first, and the post has not read the header
      obtain ⟨hσ, -⟩ := hend fun i => by omega
      have hin := hP rfl (by rw [hx]; rfl)
      have halone := hun.alone 0
      cases htx : σ₁.tx 0 with
      | running pc act₁ ls₁ cs q =>
        rw [htx] at hin hy halone
        have hpc : ¬0 < pc := of_decide_eq_false hin
        obtain ⟨rfl, -, rfl, rfl⟩ := halone.eq_of_pc (by omega)
        obtain ⟨gaps', s₂, hfin, hs₂, -⟩ := hy.finish_checked
        obtain ⟨w, hrun, -, rfl⟩ := Prog.finish_eq_ok.1 hfin
        rw [hpost, ← hdb'] at hrun
        rw [hσ, ← hs₂]
        obtain ⟨-, he⟩ := commit_edit h hedit hcommit
        exact (run_post_consistent hrun (hs'.fresh.mono _ _ _ hseq) hs'.journalOk).of_entries he
      | checked act₁ ls₁ a =>
        rw [htx] at hin
        cases hin
      | committed a => exact absurd htx hun.not_committed
      | aborted e =>
        rw [htx] at hy
        cases hy.of_finished rfl

end runs

section examples

attribute [local instance] neZero_two

/-- A request to post the invoice, and one to edit it. -/
def postAnd (edit : Op) (i : Fin 2) : Op := if i = 0 then .postDoc .salesInvoice 15 else edit

def updateInvoice : Op := .updateDoc .salesInvoice 15 (invoiceInput "I1" 60)

def deleteInvoice : Op := .deleteDoc .salesInvoice 15

/-- The update begins first, and finds that the invoice is posted. -/
theorem post_beside_edit_interleaved : ∃ s : Store DB,
    let σ := (race s (postAnd updateInvoice)).runSchedule (1 :: (List.replicate 14 0 ++ List.replicate 14 1))
    σ.db.entries.rows.length = s.db.entries.rows.length + 1 ∧ Consistent .salesInvoice 15 s.db σ.db := by
  obtain ⟨s, hs, hp⟩ := exists_reachable opening (p := fun s =>
    (s.db.docOf .salesInvoice 15).any (·.status = .draft) = true ∧
    ((race s (postAnd updateInvoice)).runSchedule
      (1 :: (List.replicate 14 0 ++ List.replicate 14 1))).db.entries.rows.length = s.db.entries.rows.length + 1 ∧
    Sys.Along EditApart (race s (postAnd updateInvoice)) (1 :: (List.replicate 14 0 ++ List.replicate 14 1)))
    (by decide +kernel)
  obtain ⟨hdraft, hlen, hrun⟩ := of_decide_eq_true hp
  obtain ⟨d, hd, hdraft⟩ := (Option.any_eq_true ..).1 hdraft
  have hd : s.db.docOf PostedKind.salesInvoice.spec.kind 15 = some d := hd
  exact ⟨s, hlen, post_beside_edit hs hd (of_decide_eq_true hdraft) rfl (.inl ⟨_, rfl⟩) hrun⟩

/-- The deletion runs when the post has written its lines. -/
def deletedLate : List (Fin 2) := List.replicate 10 0 ++ List.replicate 14 1 ++ List.replicate 14 0

/-- The deletion becomes visible after the post has written its lines: its entry is left without a document. -/
theorem post_without_document : ¬∀ s : Store DB, Reachable s → ∀ kind id d,
    s.db.docOf (PostedKind.spec kind).kind id = some d → d.status = .draft → ∀ ops : Fin 2 → Op,
      ops 0 = .postDoc kind id → (ops 1).Edits kind.spec.kind id → ∀ is,
        ((race s ops).runSchedule is).allFinished = true →
          Consistent kind id s.db ((race s ops).runSchedule is).db := by
  intro hall
  obtain ⟨s, hs, hp⟩ := exists_reachable opening (p := fun s =>
    (s.db.docOf .salesInvoice 15).any (·.status = .draft) = true ∧
    ((race s (postAnd deleteInvoice)).runSchedule deletedLate).allFinished = true ∧
    ((race s (postAnd deleteInvoice)).runSchedule deletedLate).db.docOf .salesInvoice 15 = none ∧
    ((race s (postAnd deleteInvoice)).runSchedule deletedLate).db.entries.rows.length = s.db.entries.rows.length + 1)
    (by decide +kernel)
  obtain ⟨hdraft, hfin, hnone, hlen⟩ := of_decide_eq_true hp
  obtain ⟨d, hd, hdraft⟩ := (Option.any_eq_true ..).1 hdraft
  have hend := hall s hs .salesInvoice 15 d hd (of_decide_eq_true hdraft) (postAnd deleteInvoice) rfl (.inr rfl) _ hfin
  cases hend with
  | unposted _ he =>
    rw [he] at hlen
    omega
  | posted _ _ _ _ hd' =>
    rw [show PostedKind.salesInvoice.spec.kind = .salesInvoice from rfl, hnone] at hd'
    cases hd'

end examples
