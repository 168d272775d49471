import Tadmor.Proof.Ownership
import Tadmor.Store.CriticalSection
import Tadmor.Store.FirstCommit

/-!
# Concurrent posts of one document

The post of a document tests its status first and links the entry last, without another test.  If no commit of a post
becomes visible while another post of the document stands in between, the document is posted once.
-/

/-- What is posted by a request of its own: a document with lines, a payment or a stock movement. -/
inductive Postable where
  | doc (kind : PostedKind) (id : ℕ)
  | payment (side : Side) (id : ℕ)
  | movement (id : ℕ)
deriving DecidableEq

def Postable.owner : Postable → Owner
  | doc _ id => .doc id
  | payment _ id => .payment id
  | movement id => .movement id

/-- `op` is a request to post `t`. -/
def Op.Posts (op : Op) : Postable → Prop
  | .doc kind id => op = .postDoc kind id
  | .payment side id => op = .postPayment side id
  | .movement id => ∃ creditAccountID, op = .postMovement id creditAccountID

namespace DB

/-- `t` is there and can still be posted. -/
def IsDraft (db : DB) : Postable → Bool
  | .doc kind id => (db.docOf kind.spec.kind id).any (·.status = .draft)
  | .payment side id => (db.paymentOf side id).any (·.status = .draft)
  | .movement id => (db.movements.find? id).any (·.journalEntryId = none)

/-- `t` is posted with the entry `je`. -/
def IsPosted (db : DB) (je : ℕ) : Postable → Bool
  | .doc kind id => (db.docOf kind.spec.kind id).any fun d => d.status = .posted && d.journalEntryId = some je
  | .payment side id => (db.paymentOf side id).any fun p => p.status = .posted && p.journalEntryId = some je
  | .movement id => (db.movements.find? id).any (·.journalEntryId = some je)

/-- What is posted is not a draft. -/
theorem not_isDraft_of_isPosted {db : DB} {je : ℕ} {t : Postable} (h : db.IsPosted je t = true) : db.IsDraft t = false := by
  cases t with
  | doc kind id =>
    obtain ⟨d, hd, hp⟩ := (Option.any_eq_true ..).1 h
    simp only [Bool.and_eq_true, decide_eq_true_eq] at hp
    simp [IsDraft, hd, hp.1]
  | payment side id =>
    obtain ⟨p, hp, hpost⟩ := (Option.any_eq_true ..).1 h
    simp only [Bool.and_eq_true, decide_eq_true_eq] at hpost
    simp [IsDraft, hp, hpost.1]
  | movement id =>
    obtain ⟨m, hm, hj⟩ := (Option.any_eq_true ..).1 h
    rw [decide_eq_true_eq] at hj
    simp [IsDraft, hm, hj]

theorem links_of_isPosted {db : DB} {je : ℕ} {t : Postable} (h : db.IsPosted je t = true) : db.Links t.owner je := by
  cases t with
  | doc kind id =>
    obtain ⟨d, hd, hp⟩ := (Option.any_eq_true ..).1 h
    simp only [Bool.and_eq_true, decide_eq_true_eq] at hp
    obtain ⟨hf, hk⟩ := docOf_eq_some.1 hd
    obtain rfl : d.id = id := Table.key_of_find? hf
    exact .doc (Table.mem_of_find? hf) (hk ▸ kind.not_isOrder) hp.1 hp.2
  | payment side id =>
    obtain ⟨p, hp, hpost⟩ := (Option.any_eq_true ..).1 h
    simp only [Bool.and_eq_true, decide_eq_true_eq] at hpost
    have hf := (paymentOf_eq_some.1 hp).1
    obtain rfl : p.id = id := Table.key_of_find? hf
    exact .payment (Table.mem_of_find? hf) hpost.1 hpost.2
  | movement id =>
    obtain ⟨m, hm, hj⟩ := (Option.any_eq_true ..).1 h
    obtain rfl : m.id = id := Table.key_of_find? hm
    exact .movement (Table.mem_of_find? hm) (of_decide_eq_true hj)

end DB

/-! ### One post -/

theorem MovementPosted.posts {lo id je : ℕ} {db db' : DB} (h : MovementPosted lo id je db db') :
    db.IsDraft (.movement id) = true ∧
      ∃ e : JournalEntry, e.id = je ∧ db'.entries.rows = db.entries.rows ++ [e] ∧ db'.IsPosted e.id (.movement id) = true := by
  obtain ⟨m, period, rate, memo, mid, rows, hm, hj, hw, rfl, -⟩ := h
  have hkey : ∀ m : StockMovement, Keyed.key (m.linked je period) = Keyed.key m := fun _ => rfl
  refine ⟨by simp [DB.IsDraft, hm, hj], entryOf je m.movementDate period db.settings.baseCurrency rate memo "", rfl, ?_, ?_⟩
  · show mid.entries.rows = _
    rw [hw.eq]
    exact Table.rows_insert hw.free
  · have hf := Table.find?_update_self hkey hm
    show ((db.movements.update [id] (·.linked je period) hkey).find? id).any _ = true
    rw [hf]
    simp [StockMovement.linked, entryOf]

/-- A post that succeeds finds a draft, adds one entry and leaves the document posted with it. -/
theorem run_posts {op : Op} {t : Postable} (hop : op.Posts t) {v w : Env DB Err}
    (h : (transaction op).run v = .ok ((), w)) (hv : Fresh v.seq v.db) :
    v.db.IsDraft t = true ∧
      ∃ e, w.db.entries.rows = v.db.entries.rows ++ [e] ∧ w.db.IsPosted e.id t = true := by
  cases t with
  | doc kind id =>
    obtain rfl : op = .postDoc kind id := hop
    obtain ⟨je, h⟩ := run_void h
    obtain ⟨d, c, period, rate, mid, rows, hdc, hs, -, -, hw, -, hdb, -⟩ := run_postDoc kind.ok h hv
    have hd := (docParty_eq_some.1 hdc).1
    obtain ⟨hf, hk⟩ := docOf_eq_some.1 hd
    have hkey : ∀ d : Doc, Keyed.key (d.posted je period) = Keyed.key d := fun _ => rfl
    refine ⟨by simp [DB.IsDraft, hd, hs],
      entryOf je d.date period d.currencyCode rate (kind.spec.entryMemo ++ d.number) d.number, ?_, ?_⟩
    · rw [hdb, hw.eq]
      exact Table.rows_insert hw.free
    · have hd' : w.db.docOf kind.spec.kind id = some (d.posted je period) := by
        rw [docOf_eq_some, hdb]
        exact ⟨Table.find?_update_self hkey hf, hk⟩
      simp [DB.IsPosted, hd', Doc.posted, entryOf]
  | payment side id =>
    obtain rfl : op = .postPayment side id := hop
    obtain ⟨je, h⟩ := run_void h
    obtain ⟨p, period, rate, mid, rows, hp, hs, -, -, hw, -, hdb, -⟩ := run_postPayment h hv
    obtain ⟨hf, hside⟩ := paymentOf_eq_some.1 hp
    have hkey : ∀ p : Payment, Keyed.key (p.posted je period) = Keyed.key p := fun _ => rfl
    refine ⟨by simp [DB.IsDraft, hp, hs], entryOf je p.date period p.currencyCode rate (paymentMemo side) "", ?_, ?_⟩
    · rw [hdb, hw.eq]
      exact Table.rows_insert hw.free
    · have hp' : w.db.paymentOf side id = some (p.posted je period) := by
        rw [paymentOf_eq_some, hdb]
        exact ⟨Table.find?_update_self hkey hf, hside⟩
      simp [DB.IsPosted, hp', Payment.posted, entryOf]
  | movement id =>
    obtain ⟨account, rfl⟩ := hop
    obtain ⟨je, h⟩ := run_void h
    obtain ⟨hdraft, e, -, he, hpost⟩ := (run_postMovement h hv).posts
    exact ⟨hdraft, e, he, hpost⟩

theorem commit_posts {op : Op} {t : Postable} (hop : op.Posts t) {gaps : ℕ → ℕ} {s s' : Store DB}
    (h : (transaction op).commit gaps s = .ok ((), s')) (hs : Fresh s.seq s.db) :
    s.db.IsDraft t = true ∧ ∃ e, s'.db.entries.rows = s.db.entries.rows ++ [e] ∧ s'.db.IsPosted e.id t = true := by
  obtain ⟨v, hrun, -, rfl⟩ := Prog.commit_eq_ok.1 h
  exact run_posts hop hrun hs

/-- The post of a movement, once it has read the type of the movement. -/
theorem run_movementType {id account : ℕ} {movementType : MovementType} {v w : Env DB Err}
    (h : (void (match movementType with
      | .issue => PostInventoryIssue id
      | .receipt =>
        if account = 0 then
          .throw (.posting .missingAccount
            s!"posting: stock movement {id}: a credit account is required to post a receipt")
        else PostInventoryReceipt id account
      | t => .throw (.posting .notPostable s!"posting: stock movement {id}: type {t.text} is not postable to the GL")
      )).run v = .ok ((), w)) (hv : Fresh v.seq v.db) : v.db.IsDraft (.movement id) = true := by
  obtain ⟨je, h⟩ := run_void h
  split at h
  · exact (run_postInventoryIssue h hv).posts.1
  · split at h
    · exact absurd h Prog.run_throw_ok
    · exact (run_postInventoryReceipt h hv).posts.1
  · exact absurd h Prog.run_throw_ok

/-! ### Runs -/

section runs

variable {ι : Type} [DecidableEq ι] [Fintype ι] {s : Store DB} {ops : ι → Op} {t : Postable}

/-- The statements of a post before the one that tests whether the document is posted. -/
def Postable.before : Postable → ℕ
  | movement _ => 1
  | _ => 0

/-- A post has tested that its document is not posted. -/
def Postable.tested (t : Postable) (_ : ι) (pc : ℕ) (_ : List Lock) : Bool := t.before < pc

/-- One request has posted `t`, with the one entry that was added to those of `db`; the others have failed. -/
def PostedOnce (t : Postable) (db : DB) (σ : Sys ι DB Lock Err Unit) : Prop :=
  ∃ i e, σ.tx i = .committed () ∧ (∀ j, j ≠ i → ∃ err, σ.tx j = .aborted err) ∧
    σ.db.entries.rows = db.entries.rows ++ [e] ∧ σ.db.IsPosted e.id t = true ∧ σ.db.Live e

/-- Every request has failed, as it fails alone, and nothing has changed. -/
def NonePosted (ops : ι → Op) (s : Store DB) (σ : Sys ι DB Lock Err Unit) : Prop :=
  σ.db = s.db ∧ ∀ i, ∃ err gaps, σ.tx i = .aborted err ∧ (transaction (ops i)).commit gaps s = .error err

omit [DecidableEq ι] [Fintype ι] in
/-- A post that has not tested its document yet does not get through once the document is posted. -/
theorem post_stuck {σ : Sys ι DB Lock Err Unit} (h : Sys.Unseen s (fun i => transaction (ops i)) σ) {y : ι}
    (hop : (ops y).Posts t) (hin : (σ.tx y).inside (t.tested y) = false) {d : DB} (hd : d.IsDraft t = false)
    (hfresh : Fresh σ.seq d) {n : ℕ} {act : DB → DB} {ls : List Lock} :
    ¬(σ.tx y).Alone d σ.seq n (.checked act ls ()) := by
  intro hy
  have halone := h.alone y
  cases htx : σ.tx y with
  | running pc act' ls' cs q =>
    rw [htx] at halone hy hin
    obtain ⟨gaps, s', hfin, -⟩ := hy.finish_checked
    obtain ⟨w, hrun, -, -⟩ := Prog.finish_eq_ok.1 hfin
    have hpc : pc ≤ t.before := by simpa [Tx.inside, Postable.tested] using hin
    by_cases h0 : pc = 0
    · -- nothing has run
      obtain ⟨rfl, -, rfl, rfl⟩ := halone.eq_of_pc h0.le
      exact absurd (run_posts hop hrun hfresh).1 (by simp [hd])
    · -- the type of a movement has been read
      cases t with
      | doc kind id => exact absurd hpc (by simpa [Postable.before] using h0)
      | payment side id => exact absurd hpc (by simpa [Postable.before] using h0)
      | movement id =>
        obtain ⟨account, hop⟩ := hop
        rw [Tx.start, hop] at halone
        simp only [transaction, void, PostStockMovement, Prog.bind_assoc] at halone
        rcases halone.query_bind with e | ⟨_, _, e⟩ | ⟨n', movementType, -, -, hrest⟩
        · cases e
          exact absurd rfl h0
        · cases e
        · obtain ⟨rfl, -, rfl, rfl⟩ := hrest.eq_of_pc hpc
          exact absurd (run_movementType hrun hfresh) (by simp [hd])
  | checked act' ls' a =>
    rw [htx] at hin
    cases hin
  | committed a => exact h.not_committed htx
  | aborted e =>
    rw [htx] at hy
    cases hy.of_finished rfl

/-- Concurrent posts of one document.  If no commit becomes visible while another post has tested the document and has
not finished, then the document is posted once, or every post fails as it does alone. -/
theorem posted_once (h : Reachable s) (hops : ∀ i, (ops i).Posts t) {is : List ι}
    (ha : Sys.Along (Sys.NoCommitInside t.tested) (race s ops) is)
    (hfin : ((race s ops).runSchedule is).allFinished = true) :
    PostedOnce t s.db ((race s ops).runSchedule is) ∨ NonePosted ops s ((race s ops).runSchedule is) := by
  have hfin : ∀ i, (((race s ops).runSchedule is).tx i).finished = true := by
    simpa [Sys.allFinished] using hfin
  -- after the first commit the document is posted, and stays so
  have hposted : ∀ {σ : Sys ι DB Lock Err Unit} {x : ι} {act : DB → DB} {ls : List Lock},
      Sys.Unseen s (fun i => transaction (ops i)) σ → σ.tx x = .checked act ls () →
        ∃ e, (act s.db).entries.rows = s.db.entries.rows ++ [e] ∧ (act s.db).IsPosted e.id t = true ∧
          (act s.db).Live e ∧ Fresh σ.seq (act s.db) := by
    intro σ x act ls hσ hx
    obtain ⟨gaps, s', hc, hdb, hseq⟩ := hσ.commit hx
    obtain ⟨-, e, he, hpost⟩ := commit_posts (hops x) hc h.fresh
    have hs' : Reachable s' := h.step ⟨_, _, hc⟩
    obtain ⟨e', he', hid, hlive⟩ := live_of_links hs'.linkOk hs'.book_sound (DB.links_of_isPosted hpost)
    have hee : e' = e := Table.key_inj he' (show e ∈ s'.db.entries.rows by simp [he]) hid
    rw [← hdb]
    exact ⟨e, he, hpost, hee ▸ hlive, hs'.fresh.mono _ _ _ hseq⟩
  rcases Sys.phase_of_along ha with hun | @⟨σ₁, x, act, ls, u, hun, hP, hx, hdb, hc, hy⟩ |
    @⟨σ₁, x, y, act, act', ls, ls', u, u', n, hun, hP, hx, hne, hy, -⟩
  · right
    refine ⟨hun.db, fun i => ?_⟩
    have hfi := hfin i
    cases htx : ((race s ops).runSchedule is).tx i with
    | running pc act ls cs q =>
      rw [htx] at hfi
      cases hfi
    | checked act ls a =>
      rw [htx] at hfi
      cases hfi
    | committed a => exact absurd htx hun.not_committed
    | aborted err =>
      obtain ⟨gaps, hfail⟩ := hun.fails htx
      exact ⟨err, gaps, rfl, hfail⟩
  · left
    obtain ⟨e, he, hpost, hlive, hfresh⟩ := hposted hun hx
    refine ⟨x, e, hc, fun j hj => ?_, hdb ▸ he, hdb ▸ hpost, hdb ▸ hlive⟩
    have hfj := hfin j
    cases htx : ((race s ops).runSchedule is).tx j with
    | running pc act ls cs q =>
      rw [htx] at hfj
      cases hfj
    | checked act ls a =>
      rw [htx] at hfj
      cases hfj
    | committed a =>
      have hnot : (((race s ops).runSchedule is).tx j).isCommitted = false :=
        (hy j hj).not_committed ((hun.alone j).not_committed rfl)
      rw [htx] at hnot
      cases hnot
    | aborted err => exact ⟨err, rfl⟩
  · obtain ⟨e, -, hpost, -, hfresh⟩ := hposted hun hx
    have hin := hP (by rw [hx]; rfl) y hne
    exact absurd hy (post_stuck hun (hops y) hin (DB.not_isDraft_of_isPosted hpost) hfresh)

end runs

/-- Two requests to post the invoice. -/
def postTwice (_ : Fin 2) : Op := .postDoc .salesInvoice 15

/-- The second request starts when the first has finished, and fails. -/
theorem posted_once_serial : ∃ s : Store DB, s.db.IsDraft (.doc .salesInvoice 15) = true ∧
    let σ := (race s postTwice).runSchedule (List.replicate 14 0 ++ List.replicate 14 1)
    σ.db.entries.rows.length = 1 ∧ (PostedOnce (.doc .salesInvoice 15) s.db σ ∨ NonePosted postTwice s σ) := by
  obtain ⟨s, hs, hp⟩ := exists_reachable opening (p := fun s =>
    s.db.IsDraft (.doc .salesInvoice 15) = true ∧
    ((race s postTwice).runSchedule (List.replicate 14 0 ++ List.replicate 14 1)).db.entries.rows.length = 1 ∧
    Sys.Along (Sys.NoCommitInside (Postable.doc .salesInvoice 15).tested) (race s postTwice)
      (List.replicate 14 0 ++ List.replicate 14 1) ∧
    ((race s postTwice).runSchedule (List.replicate 14 0 ++ List.replicate 14 1)).allFinished = true) (by decide +kernel)
  obtain ⟨hdraft, hlen, hrun, hfin⟩ := of_decide_eq_true hp
  exact ⟨s, hdraft, hlen, posted_once (t := .doc .salesInvoice 15) hs (fun _ => rfl) hrun hfin⟩

/-- Both requests read that the invoice is a draft; the second one posts it again when the first has committed. -/
theorem posted_twice : ¬∀ s : Store DB, Reachable s → ∀ t, s.db.IsDraft t = true → ∀ ops : Fin 2 → Op,
    (∀ i, (ops i).Posts t) → ∀ is, ((race s ops).runSchedule is).allFinished = true →
      PostedOnce t s.db ((race s ops).runSchedule is) ∨ NonePosted ops s ((race s ops).runSchedule is) := by
  intro hall
  obtain ⟨s, hs, hp⟩ := exists_reachable opening (p := fun s =>
    s.db.IsDraft (.doc .salesInvoice 15) = true ∧
    ((race s postTwice).runSchedule (1 :: (List.replicate 14 0 ++ List.replicate 14 1))).allFinished = true ∧
    ((race s postTwice).runSchedule (1 :: (List.replicate 14 0 ++ List.replicate 14 1))).db.entries.rows.length =
      s.db.entries.rows.length + 2) (by decide +kernel)
  obtain ⟨hdraft, hfin, hlen⟩ := of_decide_eq_true hp
  rcases hall s hs _ hdraft postTwice (fun _ => rfl) _ hfin with ⟨i, e, -, -, he, -⟩ | ⟨hdb, -⟩
  · rw [he, List.length_append, List.length_singleton] at hlen
    omega
  · rw [hdb] at hlen
    omega
