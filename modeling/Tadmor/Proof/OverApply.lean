import Tadmor.Proof.Settlement
import Tadmor.Store.CriticalSection

/-!
# Concurrent auto-applies

The deferred checks of an auto-apply see the committed rows and its own.  As long as no commit becomes visible between
the checks and the commit of another transaction, they hold of the state that is committed.
-/

/-- No posted settler is applied beyond its amount, and no posted document beyond its total. -/
structure DB.WithinTotals (db : DB) : Prop where
  settler : ∀ side k id s, db.settlerOf side k id = some s → s.status = .posted → db.amountApplied k id ≤ s.amount
  doc : ∀ kind id d, db.docOf kind id = some d → d.status = .posted → db.amountSettled id ≤ d.total

/-! ### What the statements of an auto-apply change -/

/-- Documents, payments and applications are those of `db`, up to the entries of the applications. -/
structure SameCore (db db' : DB) : Prop where
  docs : db'.docs = db.docs
  payments : db'.payments = db.payments
  core : db'.applications.rows.map Application.core = db.applications.rows.map Application.core

theorem SameCore.trans {a b c : DB} (h : SameCore a b) (h' : SameCore b c) : SameCore a c :=
  ⟨h'.docs.trans h.docs, h'.payments.trans h.payments, h'.core.trans h.core⟩

/-- On every state the statement's change leaves the core, whatever state it was computed on. -/
def LeavesCore {β : Type} (r : ℕ → DB → Except Err (Outcome DB Lock Err β)) : Prop :=
  ∀ n db o, r n db = .ok o → ∀ d, SameCore d (o.act d)

abbrev AllLeaveCore {α : Type} (p : Txn α) : Prop := p.All LeavesCore

theorem leavesCore_query {α : Type} (f : DB → Except Err α) : AllLeaveCore (Prog.query f) :=
  Prog.all_exec fun n db o ho d => by
    cases hf : f db with
    | error e => simp [hf, Except.map] at ho
    | ok a =>
      simp only [hf, Except.map, Except.ok.injEq] at ho
      cases ho
      exact ⟨rfl, rfl, rfl⟩

theorem leavesCore_read {α : Type} (f : DB → α) : AllLeaveCore (Prog.read f) :=
  Prog.all_exec fun n db o ho d => by
    cases ho
    exact ⟨rfl, rfl, rfl⟩

theorem leavesCore_periodForDate (date : Date) : AllLeaveCore (periodForDate date) := by
  refine (leavesCore_read _).bind fun p => ?_
  split
  · exact Prog.all_pure _
  · refine (leavesCore_read _).bind fun c => (Prog.all_require _ _).bind fun _ =>
      Prog.All.bind (Prog.all_exec fun n db o ho d => ?_) fun _ => (leavesCore_read _).bind fun p => ?_
    · split at ho
      · cases ho
        exact ⟨rfl, rfl, rfl⟩
      · dsimp only at ho
        split at ho
        · cases ho
          exact ⟨rfl, rfl, rfl⟩
        · cases ho
          exact ⟨rfl, rfl, rfl⟩
    · split
      · exact Prog.all_pure _
      · exact Prog.all_throw _

theorem leavesCore_createEntry (date : Date) (period : ℕ) (currency memo reference : String) :
    AllLeaveCore (createEntry date period currency memo reference) :=
  Prog.all_exec fun n db o ho d => by
    split at ho
    · cases ho
    · simp only [insertEntry, Except.bind_eq_ok_iff, Except.ok.injEq] at ho
      obtain ⟨-, -, -, -, -, -, -, -, rfl⟩ := ho
      exact ⟨rfl, rfl, rfl⟩

theorem leavesCore_insertLines (je : ℕ) (select : DB → List NewLine) : AllLeaveCore (insertLines je select) :=
  Prog.all_exec fun n db o ho d => by
    simp only [Except.bind_eq_ok_iff, Except.ok.injEq] at ho
    obtain ⟨rows, -, -, -, rfl⟩ := ho
    exact ⟨rfl, rfl, rfl⟩

theorem map_core_update (t : Table Application) (ks : List ℕ) (je : ℕ) :
    (t.update ks (·.withFx je) fun _ => rfl).rows.map Application.core = t.rows.map Application.core := by
  show ((_ : List Application).map _).map _ = _
  rw [List.map_map]
  refine List.map_congr_left fun b _ => ?_
  simp only [Function.comp_apply]
  split
  · rfl
  · rfl

theorem leavesCore_postFx (side : Side) (base : String) (account fx : ℕ) (c : Candidate) :
    AllLeaveCore (postFx side base account fx c) := by
  refine (leavesCore_periodForDate _).bind fun _ => (leavesCore_createEntry _ _ _ _ _).bind fun _ =>
    (leavesCore_insertLines _ _).bind fun _ => (leavesCore_insertLines _ _).bind fun _ =>
    Prog.all_exec fun n db o ho d => ?_
  cases ho
  exact ⟨rfl, rfl, map_core_update ..⟩

theorem leavesCore_postEach (side : Side) (base : String) (fx : ℕ) (cs : List (ℕ × Candidate)) :
    AllLeaveCore (postEach side base fx cs) := by
  induction cs with
  | nil => exact Prog.all_pure _
  | cons c cs ih => exact (leavesCore_postFx _ _ _ _ _).bind fun _ => ih

theorem leavesCore_postSettlementFX (side : Side) (settler : SettlerKind) (id : ℕ) :
    AllLeaveCore (postSettlementFX side settler id) := by
  refine (leavesCore_query _).bind fun cs => ?_
  split
  · exact Prog.all_pure _
  · refine (leavesCore_read _).bind fun s => ?_
    split
    · exact Prog.all_throw _
    · exact leavesCore_postEach _ _ _ _

/-! ### The whole change of an auto-apply -/

/-- On every state the change `act` inserts the application rows `rows`, and nothing else that matters here. -/
def Inserts (rows : List Application) (act : DB → DB) : Prop :=
  ∀ d, SameCore { d with applications := d.applications.insertAll rows } (act d)

/-- The change inserted applications that were checked on a state in `D` and are to be checked again, and what is left
of the program leaves the core. -/
def Applied (D : DB → Prop) (act : DB → DB) (checks : List (DB → Except Err Unit)) (q : Txn Unit) : Prop :=
  ∃ rows, Inserts rows act ∧ (∃ d, D d ∧ ∀ a ∈ rows, a.check d = .ok ()) ∧
    (∀ a ∈ rows, DB.applicationCheck a false ∈ checks) ∧ AllLeaveCore q

theorem Applied.stmt {β : Type} {D : DB → Prop} {act : DB → DB} {checks : List (DB → Except Err Unit)}
    {r : ℕ → DB → Except Err (Outcome DB Lock Err β)} {k : β → Txn Unit} (h : Applied D act checks (.stmt r k)) {n : ℕ}
    {db : DB} {o : Outcome DB Lock Err β} (ho : r n db = .ok o) : Applied D (o.act ∘ act) (checks ++ o.checks) (k o.res) := by
  obtain ⟨rows, hact, hd, hch, hr, hk⟩ := h
  exact ⟨rows, fun d => (hact d).trans (hr n db o ho _), hd, fun a ha => List.mem_append_left _ (hch a ha), hk o.res⟩

section prefixes

variable {side : Side} {settler : SettlerKind} {settlerId lo pc : ℕ} {D : DB → Prop} {ls : List Lock} {act : DB → DB}
  {checks : List (DB → Except Err Unit)} {q : Txn Unit}

theorem applied_of_insertApplications {rest : List (ℕ × ℤ) → Txn Unit} (hrest : ∀ shares, AllLeaveCore (rest shares))
    (h : (insertApplications side settler settlerId >>= rest).Prefix D lo pc ls act checks q) :
    (act = id ∧ checks = [] ∧ q = insertApplications side settler settlerId >>= rest) ∨ Applied D act checks q := by
  induction h with
  | start => exact .inl ⟨rfl, rfl, rfl⟩
  | @stmt pc ls act checks β r k d n o _ hd hn ho ih =>
    right
    rcases ih with ⟨rfl, rfl, hq⟩ | happ
    · change Prog.stmt r k = Prog.stmt _ _ at hq
      cases hq
      simp only [Except.bind_eq_ok_iff, Except.ok.injEq] at ho
      obtain ⟨u, hc, rfl⟩ := ho
      exact ⟨_, fun d => ⟨rfl, rfl, rfl⟩, ⟨d, hd, checkApplications_eq_ok.1 hc⟩, fun a ha => List.mem_append_right _ (List.mem_map_of_mem ha), hrest _⟩
    · exact happ.stmt ho

/-- An auto-apply that has run all its statements has inserted its applications. -/
theorem applied_of_prefix {u : Unit}
    (h : (transaction (.autoApply side settler settlerId)).Prefix D lo pc ls act checks (.pure u)) :
    Applied D act checks (.pure u) := by
  simp only [transaction, void, autoApply, Prog.bind_assoc] at h
  rcases h.query_bind with ⟨-, -, -, -, hq⟩ | ⟨pc', d, a, -, -, -, h⟩
  · cases hq
  · rcases h.require_bind with ⟨-, -, -, hq⟩ | ⟨-, h⟩
    · cases hq
    · have hrest := fun shares : List (ℕ × ℤ) => (leavesCore_postSettlementFX side settler settlerId).bind
        (f := fun _ => pure shares >>= fun _ => (pure () : Txn Unit)) fun _ => trivial
      rcases applied_of_insertApplications hrest h with ⟨-, -, hq⟩ | happ
      · cases hq
      · exact happ

end prefixes

/-! ### Commits -/

theorem insert_rows_cases (t : Table Application) (a : Application) :
    (t.insert a).rows = t.rows ∨ (t.insert a).rows = t.rows ++ [a] := by
  unfold Table.insert
  split
  · exact .inl rfl
  · exact .inr rfl

/-- Rows that a sum does not count do not change it. -/
theorem sum_insertAll_of_false {p : Application → Bool} {rows : List Application} (h : ∀ a ∈ rows, p a = false)
    (t : Table Application) : (((t.insertAll rows).rows.filter p).map (·.amountApplied)).sum =
      ((t.rows.filter p).map (·.amountApplied)).sum := by
  induction rows generalizing t with
  | nil => rfl
  | cons a rows ih =>
    rw [Table.insertAll_cons, ih fun b hb => h b (List.mem_cons_of_mem _ hb)]
    rcases insert_rows_cases t a with e | e
    · rw [e]
    · rw [e, List.filter_append, List.filter_cons, h a (List.mem_cons_self ..)]
      simp

/-- If the deferred checks of an auto-apply hold of the state it commits, no total is exceeded there. -/
theorem DB.WithinTotals.commit {db d₀ : DB} (h : db.WithinTotals) {rows : List Application} {act : DB → DB}
    (hact : Inserts rows act) (hd₀ : d₀.docs = db.docs) (hp₀ : d₀.payments = db.payments)
    (hc : ∀ a ∈ rows, a.check d₀ = .ok ()) (hch : ∀ a ∈ rows, (act db).applicationCheck a false = .ok ()) :
    (act db).WithinTotals := by
  have hsame := hact db
  have hdoc : ∀ kind id, (act db).docOf kind id = db.docOf kind id := fun kind id => docOf_congr (by rw [hsame.docs])
  have hset : ∀ side k id, (act db).settlerOf side k id = db.settlerOf side k id := by
    intro side k id
    cases k with
    | payment => exact settlerOf_congr_payment (by rw [hsame.payments])
    | creditNote => exact settlerOf_congr_creditNote (by rw [hsame.docs])
  -- the bounds of the two ends of a new row
  have hnew : ∀ a ∈ rows, ∃ s d, (act db).settlerOf a.side a.settler a.settlerId = some s ∧
      (act db).docOf a.side.invoice a.docId = some d ∧ (act db).amountApplied a.settler a.settlerId ≤ s.amount ∧
      (act db).amountSettled a.docId ≤ d.total := by
    intro a ha
    obtain ⟨-, ⟨s, hs, -⟩, d, hd, -⟩ := amount_of_check (hc a ha)
    have hs' : (act db).settlerOf a.side a.settler a.settlerId = some s := by
      rw [hset, ← hs]
      cases a.settler with
      | payment => exact (settlerOf_congr_payment (by rw [hp₀])).symm
      | creditNote => exact (settlerOf_congr_creditNote (by rw [hd₀])).symm
    have hd' : (act db).docOf a.side.invoice a.docId = some d := by
      rw [hdoc, ← hd]
      exact (docOf_congr (by rw [hd₀])).symm
    obtain ⟨-, hle, hle'⟩ := (applicationCheck_eq_ok hs' hd').1 (hch a ha)
    exact ⟨s, d, hs', hd', hle, hle'⟩
  refine ⟨fun side k id s hs hp => ?_, fun kind id d hd hp => ?_⟩
  · by_cases hex : ∃ a ∈ rows, a.settler = k ∧ a.settlerId = id
    · obtain ⟨a, ha, rfl, rfl⟩ := hex
      obtain ⟨s', d, hs', -, hle, -⟩ := hnew a ha
      rwa [settlerOf_unique hs hs']
    · rw [amountApplied_core hsame.core]
      refine (sum_insertAll_of_false (fun a ha => ?_) _).trans_le (h.settler side k id s (hset .. ▸ hs) hp)
      simpa using fun e e' => hex ⟨a, ha, e, e'⟩
  · by_cases hex : ∃ a ∈ rows, a.docId = id
    · obtain ⟨a, ha, rfl⟩ := hex
      obtain ⟨s, d', -, hd', -, hle⟩ := hnew a ha
      rwa [docOf_unique hd hd']
    · rw [amountSettled_core hsame.core]
      refine (sum_insertAll_of_false (fun a ha => ?_) _).trans_le (h.doc kind id d (hdoc .. ▸ hd) hp)
      simpa using fun e => hex ⟨a, ha, e⟩

/-! ### Runs -/

section runs

variable {ι : Type} {s₀ : Store DB} {ops : ι → Op}

/-- The critical section that is empty: a transaction is inside only between its checks and its commit. -/
def noSection (_ : ι) (_ : ℕ) (_ : List Lock) : Bool := false

/-- The committed states of a history of auto-applies. -/
theorem within_of_history (hops : ∀ i, ∃ side settler settlerId, ops i = .autoApply side settler settlerId)
    (h0 : s₀.db.WithinTotals) {js : List ι} {D : DB → Prop} {s : Store DB}
    (h : History noSection (fun i => transaction (ops i)) s₀ js D s) :
    s.db.WithinTotals ∧ ∀ d, D d → d.docs = s₀.db.docs ∧ d.payments = s₀.db.payments := by
  induction h with
  | start =>
    refine ⟨h0, ?_⟩
    rintro d rfl
    exact ⟨rfl, rfl⟩
  | @commit js D s s' i hh _ hl ih =>
    obtain ⟨hwithin, hD⟩ := ih
    obtain ⟨act, checks, q, ⟨pc, ls, hpre, -, hent⟩, gaps, n, u, v, -, hrun, hpass, hdb, -⟩ := hl
    obtain ⟨side, settler, settlerId, hop⟩ := hops i
    cases q with
    | throw e => exact absurd hent id
    | stmt r k =>
      obtain ⟨_, _, _, hc⟩ := hent
      cases hc
    | pure u =>
      cases hrun
      rw [hop] at hpre
      obtain ⟨rows, hact, ⟨d, hd, hc⟩, hch, -⟩ := applied_of_prefix hpre
      obtain ⟨hs₁, hs₂⟩ := hD s.db hh.mem
      obtain ⟨hd₁, hd₂⟩ := hD d hd
      have hw := hwithin.commit hact (hd₁.trans hs₁.symm) (hd₂.trans hs₂.symm) hc fun a ha =>
        passAll_eq_ok.1 hpass _ (hch a ha)
      rw [hdb]
      refine ⟨hw, fun x hx => ?_⟩
      rcases hx with hx | rfl
      · exact hD x hx
      · exact ⟨(hact s.db).docs.trans hs₁, (hact s.db).payments.trans hs₂⟩

end runs

/-- A posted invoice of 100 dollars and two posted payments of 80. -/
def twoPayments : List Op :=
  opening ++ [.postDoc .salesInvoice 15, .createPayment .sales (paymentInput 80), .postPayment .sales 21,
    .createPayment .sales (paymentInput 80), .postPayment .sales 25]

def applyBoth (i : Fin 2) : Op := .autoApply .sales .payment (if i.val = 0 then 21 else 25)
