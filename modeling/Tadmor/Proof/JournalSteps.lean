import Tadmor.Proof.Ledger
import Tadmor.Proof.Quiet

/-!
# What a transaction writes to the journal

A transaction that writes to the journal inserts an entry and then its lines; to reverse an entry it reads it, inserts
the reversal and then the lines swapped.  Which statement may follow is said by a `Stage`, so that a transaction can be
followed statement by statement while others run.
-/

/-- Where a transaction stands: nothing is under way, lines may be added to the entry `je`, the entry `e` has been read
to be reversed, or the reversal `r` of `e` still has no lines. -/
inductive Stage where
  | idle
  | lining (je : ℕ)
  | read (e : JournalEntry)
  | reversing (e r : JournalEntry)

namespace Stage

/-- A new entry may be begun. -/
def Ready : Stage → Prop
  | idle => True
  | lining _ => True
  | _ => False

/-- No reversal waits for its lines. -/
def Settled : Stage → Prop
  | reversing .. => False
  | _ => True

theorem Ready.settled {st : Stage} (h : st.Ready) : st.Settled := by
  cases st with
  | idle => trivial
  | lining je => trivial
  | read e => trivial
  | reversing e r => cases h

/-- What is known of the state a statement reads. -/
def Seen (db : DB) : Stage → Prop
  | read e => db.entries.find? e.id = some e
  | _ => True

end Stage

/-- `r` reverses `e`, apart from the lines. -/
structure JournalEntry.Reverses (r e : JournalEntry) : Prop where
  reverses : r.reversesEntryId = some e.id
  entryDate : r.entryDate = e.entryDate
  currencyCode : r.currencyCode = e.currencyCode
  exchangeRate : r.exchangeRate = e.exchangeRate
  isClosing : r.isClosing = e.isClosing

/-! ### Accounts -/

def DB.CashOk (db : DB) : Prop := ∀ a ∈ db.accounts, a.isCash → a.accountType = .asset

/-- The change removes no account, on any state, and leaves cash accounts assets. -/
structure AccountsKept (act : DB → DB) : Prop where
  keeps : ∀ d, KeepsAccounts d (act d)
  mono : ∀ d d', KeepsAccounts d d' → KeepsAccounts (act d) (act d')
  cash : ∀ d, d.CashOk → (act d).CashOk

theorem AccountsKept.of_eq {act : DB → DB} (h : ∀ d, (act d).accounts = d.accounts) : AccountsKept act := by
  refine ⟨fun d k hk => ?_, fun d d' hd k hk => ?_, fun d hd a ha => ?_⟩
  · rwa [h]
  · rw [h] at hk ⊢
    exact hd k hk
  · rw [h] at ha
    exact hd a ha

theorem AccountsKept.comp {f g : DB → DB} (hf : AccountsKept f) (hg : AccountsKept g) : AccountsKept (f ∘ g) :=
  ⟨fun d k hk => hf.keeps _ k (hg.keeps d k hk), fun d d' hd => hf.mono _ _ (hg.mono d d' hd),
    fun d hd => hf.cash _ (hg.cash d hd)⟩

theorem accountsKept_insert {a : Account} (ha : a.isCash → a.accountType = .asset) :
    AccountsKept fun d => { d with accounts := d.accounts.insert a } := by
  refine ⟨fun d k hk => Table.isSome_find?_insert (.inl hk), fun d d' hd k hk => ?_, fun d hd x hx => ?_⟩
  · by_cases hka : Keyed.key a = k
    · exact Table.isSome_find?_insert (.inr hka)
    · refine Table.isSome_find?_insert (.inl (hd k ?_))
      rwa [Table.find?_insert_of_ne hka] at hk
  · rcases Table.mem_of_mem_insert hx with hx | rfl
    · exact hd x hx
    · exact ha

theorem accountsKept_update {ks : List ℕ} {f : Account → Account} (hf : ∀ a, Keyed.key (f a) = Keyed.key a)
    (hcash : ∀ a, (f a).isCash → (f a).accountType = .asset) :
    AccountsKept fun d => { d with accounts := d.accounts.update ks f hf } := by
  refine ⟨fun d k hk => Table.isSome_find?_update hf hk, fun d d' hd k hk => ?_, fun d hd x hx => ?_⟩
  · refine Table.isSome_find?_update hf (hd k ?_)
    rwa [Table.find?_update, Option.isSome_map] at hk
  · rcases Table.mem_update_cases hf hx with ⟨hx, -⟩ | ⟨y, -, -, rfl⟩
    · exact hd x hx
    · exact hcash y

/-! ### Statements -/

/-- What a statement run on `db` with the sequence at `n` appends to the journal, and how the stage goes on. -/
inductive Writes (n : ℕ) (db : DB) {β : Type} (o : Outcome DB Lock Err β) :
    Stage → List JournalEntry → List JournalLine → Stage → Prop where
  | quiet {st : Stage} (hst : st.Settled) (he : ∀ d, (o.act d).entries = d.entries)
      (hl : ∀ d, (o.act d).lines = d.lines) (ha : AccountsKept o.act) : Writes n db o st [] [] st
  | find {st : Stage} (e : JournalEntry) (hst : st.Ready) (he : db.entries.find? e.id = some e) (hact : o.act = id) :
      Writes n db o st [] [] (.read e)
  | entry {st : Stage} (e : JournalEntry) (hst : st.Ready) (hid : e.id = n) (hused : o.used = 1)
      (hs : e.status = .posted) (hr : e.reversesEntryId = none)
      (hact : o.act = fun d => { d with entries := d.entries.insert e }) (hc : DB.entryBalanced e.id ∈ o.checks) :
      Writes n db o st [e] [] (.lining e.id)
  | lines {je : ℕ} (rows : List JournalLine) (hids : rows.map (·.id) = List.range' n rows.length)
      (hused : o.used = rows.length) (hje : ∀ l ∈ rows, l.journalEntryId = je)
      (ha : ∀ l ∈ rows, (db.accounts.find? l.accountId).isSome)
      (hact : o.act = fun d => { d with lines := d.lines.insertAll rows }) :
      Writes n db o (.lining je) [] rows (.lining je)
  | reversal (e r : JournalEntry) (hid : r.id = n) (hused : o.used = 1) (hs : r.status = .posted)
      (hr : r.Reverses e) (hact : o.act = fun d => { d with entries := d.entries.insert r })
      (hc : DB.entryBalanced r.id ∈ o.checks) : Writes n db o (.read e) [r] [] (.reversing e r)
  | mirror (e r : JournalEntry) (rows : List JournalLine) (hids : rows.map (·.id) = List.range' n rows.length)
      (hused : o.used = rows.length) (hje : ∀ l ∈ rows, l.journalEntryId = r.id)
      (ha : ∀ l ∈ rows, (db.accounts.find? l.accountId).isSome)
      (hm : List.Forall₂ JournalLine.Mirrors (db.linesOf e.id) rows)
      (hact : o.act = fun d => { d with lines := d.lines.insertAll rows }) :
      Writes n db o (.reversing e r) [] rows .idle

/-- Every statement the program can come to writes to the journal as its stage allows, and at the end no reversal waits
for its lines. -/
def Journals {α : Type} : Stage → Txn α → Prop
  | st, .pure _ => st.Settled
  | _, .throw _ => True
  | st, .stmt r k => ∀ n db o, st.Seen db → r n db = .ok o →
      ∃ es ls st', Writes n db o st es ls st' ∧ Journals st' (k o.res)

namespace Journals

variable {α β : Type} {st : Stage}

theorem quiet_bind {p : Txn α} {k : α → Txn β} (hp : AllQuiet p) (hst : st.Settled) (hk : ∀ a, Journals st (k a)) :
    Journals st (p >>= k) := by
  induction p with
  | pure a => exact hk a
  | throw e => trivial
  | stmt r q ih =>
    intro n db o _ ho
    have hact := hp.1 n db o ho
    simp only [DB.reported, Prod.mk.injEq] at hact
    exact ⟨[], [], st, .quiet hst (fun d => (hact d).1) (fun d => (hact d).2.1) (.of_eq fun d => (hact d).2.2),
      ih o.res (hp.2 _)⟩

theorem quiet {p : Txn α} (hp : AllQuiet p) (hst : st.Settled) : Journals st p := by
  induction p with
  | pure a => exact hst
  | throw e => trivial
  | stmt r q ih =>
    intro n db o _ ho
    have hact := hp.1 n db o ho
    simp only [DB.reported, Prod.mk.injEq] at hact
    exact ⟨[], [], st, .quiet hst (fun d => (hact d).1) (fun d => (hact d).2.1) (.of_eq fun d => (hact d).2.2),
      ih o.res (hp.2 _)⟩

theorem require_bind {b : Bool} {e : Err} {k : Unit → Txn β} (hk : Journals st (k ())) :
    Journals st (Prog.require b e >>= k) := by
  cases b with
  | false => trivial
  | true => exact hk

theorem read_bind {f : DB → α} {k : α → Txn β} (hst : st.Settled) (hk : ∀ a, Journals st (k a)) :
    Journals st (Prog.read f >>= k) := quiet_bind (quiet_read f) hst hk

theorem query_bind {f : DB → Except Err α} {k : α → Txn β} (hst : st.Settled) (hk : ∀ a, Journals st (k a)) :
    Journals st (Prog.query f >>= k) := quiet_bind (quiet_query f) hst hk

/-- An insert of an entry that reverses none. -/
theorem entry_bind {r : ℕ → DB → Except Err (Outcome DB Lock Err ℕ)} {k : ℕ → Txn β} (hst : st.Ready)
    (hr : ∀ n db o, r n db = .ok o → ∃ e : JournalEntry, insertEntry db e = .ok o ∧ e.id = n ∧ e.status = .posted ∧
      e.reversesEntryId = none) (hk : ∀ je, Journals (.lining je) (k je)) : Journals st (Prog.exec r >>= k) := by
  intro n db o _ ho
  obtain ⟨e, he, hid, hs, hrev⟩ := hr n db o ho
  obtain ⟨-, rfl⟩ := insertEntry_eq_ok.1 he
  exact ⟨[e], [], .lining e.id, .entry e hst hid rfl hs hrev rfl (List.mem_singleton.2 rfl), hk e.id⟩

theorem createEntry_bind {date : Date} {period : ℕ} {currency memo reference : String} {k : ℕ → Txn β}
    (hst : st.Ready) (hk : ∀ je, Journals (.lining je) (k je)) :
    Journals st (createEntry date period currency memo reference >>= k) := by
  refine entry_bind hst (fun n db o ho => ?_) hk
  split at ho
  · cases ho
  · exact ⟨_, ho, rfl, rfl, rfl⟩

theorem insertLines_bind {je : ℕ} {select : DB → List NewLine} {k : Unit → Txn β}
    (hk : Journals (.lining je) (k ())) : Journals (.lining je) (insertLines je select >>= k) := by
  intro n db o _ ho
  simp only [Except.bind_eq_ok_iff, ensure_eq_ok, exists_const, Except.ok.injEq] at ho
  obtain ⟨rows, hr, -, rfl⟩ := ho
  exact ⟨[], rows, _, .lines rows (newRows_eq_ok hr) rfl (newRows_entry hr) (newRows_account hr) rfl, hk⟩

/-- The entry is read, the reversal inserted and then its lines, with only reads and a period in between. -/
theorem reverseEntry_bind {je : ℕ} {k : ℕ → Txn β} (hst : st.Ready) (hk : ∀ rev, Journals .idle (k rev)) :
    Journals st (reverseEntry je >>= k) := by
  rw [reverseEntry_eq, Prog.bind_assoc]
  intro n db o _ ho
  cases he : db.entries.find? je with
  | none =>
    simp only [reverseHeader, he, Except.map] at ho
    cases ho
  | some e =>
    simp only [reverseHeader, he, Except.map, Except.ok.injEq] at ho
    subst ho
    obtain rfl : e.id = je := Table.key_of_find? he
    refine ⟨[], [], .read e, .find e hst he rfl, ?_⟩
    change Journals (.read e) (reverseRest e.id e.entryDate e.currencyCode >>= k)
    simp only [reverseRest, Prog.bind_assoc]
    refine read_bind trivial fun already => require_bind ?_
    refine read_bind trivial fun matched => require_bind ?_
    refine quiet_bind (quiet_periodForDate _) trivial fun period => ?_
    intro n db o hseen ho
    change db.entries.find? e.id = some e at hseen
    simp only [hseen] at ho
    obtain ⟨-, rfl⟩ := insertEntry_eq_ok.1 ho
    refine ⟨[e.reversal n e.entryDate period e.currencyCode], [], _,
      .reversal e _ rfl rfl rfl ⟨rfl, rfl, rfl, rfl, rfl⟩ rfl (List.mem_singleton.2 rfl), ?_⟩
    intro n' db' o' _ ho'
    simp only [Except.bind_eq_ok_iff, ensure_eq_ok, exists_const, Except.ok.injEq] at ho'
    obtain ⟨rows, hr, -, rfl⟩ := ho'
    exact ⟨[], rows, .idle, .mirror e _ rows (newRows_eq_ok hr) rfl (newRows_entry hr) (newRows_account hr)
      (forall₂_mirrors (newRows_forall₂ hr)) rfl, hk _⟩

end Journals

/-! ### Operations -/

section operations

variable {α : Type} {st : Stage} (hst : st.Ready)
include hst

theorem journals_postDoc (spec : PostSpec) (id : ℕ) : Journals st (void (postDoc spec id)) := by
  simp only [void, postDoc, Prog.bind_assoc]
  refine .query_bind hst.settled fun h => .require_bind <| .require_bind <| .require_bind ?_
  refine .read_bind hst.settled fun bad => .require_bind ?_
  refine .read_bind hst.settled fun bad => .require_bind ?_
  refine .quiet_bind (quiet_periodForDate _) hst.settled fun period => .createEntry_bind hst fun je => ?_
  refine .insertLines_bind <| .insertLines_bind ?_
  exact .quiet ((quiet_updateDocRow _ _ _ _).bind fun _ => Prog.all_pure _) trivial

theorem journals_postPayment (side : Side) (id : ℕ) : Journals st (void (postPayment side id)) := by
  simp only [void, postPayment, Prog.bind_assoc]
  refine .query_bind hst.settled fun h => .require_bind <| .require_bind <| .require_bind <| .require_bind ?_
  refine .quiet_bind (quiet_periodForDate _) hst.settled fun period => .createEntry_bind hst fun je => ?_
  refine .insertLines_bind <| .insertLines_bind ?_
  exact .quiet ((quiet_updatePaymentById _ _ _ _).bind fun _ => Prog.all_pure _) trivial

theorem journals_postIssue (id : ℕ) : Journals st (void (PostInventoryIssue id)) := by
  simp only [void, PostInventoryIssue, Prog.bind_assoc]
  refine .query_bind hst.settled fun mp => .require_bind <| .require_bind <| .require_bind <| .require_bind ?_
  refine .quiet_bind (quiet_periodForDate _) hst.settled fun period => .read_bind hst.settled fun currency => ?_
  refine .createEntry_bind hst fun je => .insertLines_bind <| .insertLines_bind ?_
  exact .quiet ((quiet_updateMovementById _ _ _).bind fun _ => Prog.all_pure _) trivial

theorem journals_postReceipt (id account : ℕ) : Journals st (void (PostInventoryReceipt id account)) := by
  simp only [void, PostInventoryReceipt, Prog.bind_assoc]
  refine .query_bind hst.settled fun mp => .require_bind <| .require_bind <| .require_bind <| .require_bind ?_
  refine .query_bind hst.settled fun postable => .require_bind ?_
  refine .quiet_bind (quiet_periodForDate _) hst.settled fun period => .read_bind hst.settled fun currency => ?_
  refine .createEntry_bind hst fun je => .insertLines_bind <| .insertLines_bind ?_
  exact .quiet ((quiet_updateMovementById _ _ _).bind fun _ => Prog.all_pure _) trivial

theorem journals_postMovement (id account : ℕ) : Journals st (void (PostStockMovement id account)) := by
  simp only [void, PostStockMovement, Prog.bind_assoc]
  refine .query_bind hst.settled fun t => ?_
  split
  · exact journals_postIssue hst id
  · split
    · trivial
    · exact journals_postReceipt hst id account
  · trivial

theorem journals_postEach {side : Side} {base : String} {fx : ℕ} {cs : List (ℕ × Candidate)} {k : Unit → Txn α}
    (hk : ∀ st : Stage, st.Ready → Journals st (k ())) : Journals st (postEach side base fx cs >>= k) := by
  induction cs generalizing st with
  | nil => exact hk st hst
  | cons c cs ih =>
    simp only [postEach, postFx, Prog.bind_assoc]
    refine .quiet_bind (quiet_periodForDate _) hst.settled fun period => .createEntry_bind hst fun je => ?_
    refine .insertLines_bind <| .insertLines_bind ?_
    exact .quiet_bind (quiet_linkFx _ _) trivial fun _ => ih trivial

theorem journals_autoApply (side : Side) (settler : SettlerKind) (id : ℕ) :
    Journals st (void (autoApply side settler id)) := by
  simp only [void, autoApply, Prog.bind_assoc]
  refine .query_bind hst.settled fun status => .require_bind ?_
  refine .quiet_bind (quiet_insertApplications _ _ _) hst.settled fun shares => ?_
  simp only [postSettlementFX, Prog.bind_assoc]
  refine .query_bind hst.settled fun cands => ?_
  split
  · exact hst.settled
  · simp only [Prog.bind_assoc]
    refine .read_bind hst.settled fun settings => ?_
    split
    · trivial
    · exact journals_postEach hst fun st hst => hst.settled

theorem journals_unpostDoc (kind : DocKind) (id : ℕ) : Journals st (void (unpostDoc kind id)) := by
  simp only [void, unpostDoc, postedEntryOf, Prog.bind_assoc]
  refine .query_bind hst.settled fun je => .read_bind hst.settled fun has => .require_bind ?_
  refine .reverseEntry_bind hst fun rev => ?_
  exact .quiet ((quiet_updateDocRow _ _ _ _).bind fun _ => Prog.all_pure _) trivial

theorem journals_reverseEach {es : List ℕ} {k : Unit → Txn α} (hk : ∀ st : Stage, st.Ready → Journals st (k ())) :
    Journals st (reverseEach es >>= k) := by
  induction es generalizing st with
  | nil => exact hk st hst
  | cons e es ih =>
    simp only [reverseEach, Prog.bind_assoc]
    exact .reverseEntry_bind hst fun rev => ih trivial

theorem journals_unpostPayment (side : Side) (id : ℕ) : Journals st (void (unpostPayment side id)) := by
  simp only [void, unpostPayment, postedEntryOf, reverseApplicationFX, Prog.bind_assoc]
  refine .query_bind hst.settled fun je => .reverseEntry_bind hst fun rev => .read_bind trivial fun es => ?_
  refine journals_reverseEach (show Stage.idle.Ready from trivial) fun st hst => ?_
  exact .quiet ((quiet_deleteApplications _ _).bind fun _ => (quiet_updatePaymentById _ _ _ _).bind fun _ =>
    Prog.all_pure _) hst.settled

theorem journals_unpostMovement (id : ℕ) : Journals st (void (UnpostStockMovement id)) := by
  simp only [void, UnpostStockMovement, Prog.bind_assoc]
  refine .query_bind hst.settled fun je => .reverseEntry_bind hst fun rev => ?_
  exact .quiet ((quiet_updateMovementById _ _ _).bind fun _ => Prog.all_pure _) trivial

theorem journals_postSweep {toSweep retained : ℕ} {name : String} {endDate : Date} {k : Option ℕ → Txn α}
    (hk : ∀ st : Stage, st.Ready → ∀ je, Journals st (k je)) :
    Journals st (postSweep toSweep name endDate retained >>= k) := by
  unfold postSweep
  split
  · simp only [postClosing, Prog.bind_assoc]
    refine .read_bind hst.settled fun currency => .quiet_bind (quiet_closingPeriod _) hst.settled fun period => ?_
    refine .entry_bind hst (fun n db o ho => ⟨_, ho, rfl, rfl, rfl⟩) fun je => .insertLines_bind ?_
    exact hk (.lining je) trivial _
  · exact hk st hst none

theorem journals_closeFiscalYear (id retained : ℕ) : Journals st (void (CloseFiscalYear id retained)) := by
  simp only [void, CloseFiscalYear, Prog.bind_assoc]
  refine .query_bind hst.settled fun fy => .require_bind <| .read_bind hst.settled fun prior => .require_bind ?_
  refine .query_bind hst.settled fun ok => .require_bind <| .read_bind hst.settled fun toSweep => ?_
  refine journals_postSweep hst fun st hst closing => ?_
  exact .quiet ((quiet_setPeriods _ _).bind fun _ => (quiet_updateYear _ _ _).bind fun _ =>
    (quiet_insertNextYear _).bind fun _ => Prog.all_pure _) hst.settled

theorem journals_reopenFiscalYear (id : ℕ) : Journals st (void (ReopenFiscalYear id)) := by
  simp only [void, ReopenFiscalYear, Prog.bind_assoc]
  refine .query_bind hst.settled fun fy => .require_bind <| .read_bind hst.settled fun later => .require_bind ?_
  refine .quiet_bind (quiet_updateYear _ _ _) hst.settled fun _ => ?_
  split
  · exact hst.settled
  · simp only [Prog.bind_assoc]
    refine .quiet_bind (quiet_setPeriods _ _) hst.settled fun _ => ?_
    exact .reverseEntry_bind hst fun rev => trivial

end operations

/-- A statement that writes to no table of the journal. -/
theorem journals_accounts {α β : Type} {r : ℕ → DB → Except Err (Outcome DB Lock Err α)} {k : α → Txn β}
    (hr : ∀ n db o, r n db = .ok o → (∀ d, (o.act d).entries = d.entries) ∧ (∀ d, (o.act d).lines = d.lines) ∧
      AccountsKept o.act) (hk : ∀ a, Journals .idle (k a)) : Journals .idle (Prog.exec r >>= k) := by
  intro n db o _ ho
  obtain ⟨he, hl, ha⟩ := hr n db o ho
  exact ⟨[], [], .idle, .quiet trivial he hl ha, hk o.res⟩

theorem journals_createAccount (input : AccountInput) : Journals .idle (void (CreateAccount input)) := by
  refine journals_accounts (fun n db o ho => ?_) fun id => trivial
  simp only [Except.bind_eq_ok_iff, Except.ok.injEq] at ho
  obtain ⟨u, hcheck, rfl⟩ := ho
  exact ⟨fun d => rfl, fun d => rfl, accountsKept_insert (accountCheck_cash hcheck)⟩

theorem journals_updateAccount (id : ℕ) (input : AccountInput) : Journals .idle (UpdateAccount id input) := by
  refine journals_accounts (fun n db o ho => ?_) fun n => ?_
  · dsimp only at ho
    split at ho
    · cases ho
      exact ⟨fun d => rfl, fun d => rfl, .of_eq fun d => rfl⟩
    · simp only [Except.bind_eq_ok_iff, Except.ok.injEq] at ho
      obtain ⟨u, hcheck, rfl⟩ := ho
      exact ⟨fun d => rfl, fun d => rfl, accountsKept_update (Account.key_edited input) fun _ => accountCheck_cash hcheck⟩
  · exact .quiet (Prog.all_require _ _) trivial

theorem journals_transaction (op : Op) : Journals .idle (transaction op) := by
  have hst : Stage.Ready .idle := trivial
  have hquiet : ∀ {p : Txn Unit}, AllQuiet p → Journals .idle p := fun h => .quiet h trivial
  cases op with
  | postDoc kind id => exact journals_postDoc hst _ _
  | postPayment side id => exact journals_postPayment hst _ _
  | postMovement id account => exact journals_postMovement hst _ _
  | autoApply side settler id => exact journals_autoApply hst _ _ _
  | unpostInvoice side id => exact journals_unpostDoc hst _ _
  | unpostCreditNote side id => exact journals_unpostDoc hst _ _
  | unpostPayment side id => exact journals_unpostPayment hst _ _
  | unpostMovement id => exact journals_unpostMovement hst _
  | closeFiscalYear id retained => exact journals_closeFiscalYear hst _ _
  | reopenFiscalYear id => exact journals_reopenFiscalYear hst _
  | createAccount input => exact journals_createAccount _
  | updateAccount id input => exact journals_updateAccount _ _
  | createDoc kind input => exact hquiet (quiet_void (quiet_createDoc _ _))
  | updateDoc kind id input => exact hquiet (quiet_updateDoc _ _ _)
  | deleteDoc kind id => exact hquiet (quiet_deleteDoc _ _)
  | createPayment side input => exact hquiet (quiet_void (quiet_createPayment _ _))
  | updatePayment side id input => exact hquiet (quiet_updatePayment _ _ _)
  | deletePayment side id => exact hquiet (quiet_deletePayment _ _)
  | createMovement input => exact hquiet (quiet_void (quiet_createMovement _))
  | updateMovement id input => exact hquiet (quiet_updateMovement _ _)
  | deleteMovement id => exact hquiet (quiet_deleteMovement _)
  | confirmOrder side id => exact hquiet (quiet_confirm _ _)
  | closeOrder side id => exact hquiet (quiet_closeOrder _ _)
  | cancelOrder side id => exact hquiet (quiet_cancel _ _)
  | fromOrder side id input => exact hquiet (quiet_void (quiet_fromOrder _ _ _))
  | receive id input => exact hquiet (quiet_void (quiet_receive _ _))
  | ship id input => exact hquiet (quiet_void (quiet_ship _ _))
  | createStatement input => exact hquiet (quiet_void (quiet_createStatement _))
  | updateStatement id input => exact hquiet (quiet_updateStatement _ _)
  | deleteStatement id => exact hquiet (quiet_deleteStatement _)
  | addLines statement lines => exact hquiet (quiet_addLines _ _)
  | deleteLine id => exact hquiet (quiet_deleteLine _)
  | matchLine id line => exact hquiet (quiet_matchLine _ _)
  | unmatchLine id => exact hquiet (quiet_unmatchLine _)
  | autoMatch statement => exact hquiet (quiet_void (quiet_autoMatch _))
  | reconcile id => exact hquiet (quiet_reconcile _)
  | reopenStatement id => exact hquiet (quiet_reopen _)
  | createParty side account => exact hquiet (quiet_void (quiet_createParty _ _))
  | updateParty side id account => exact hquiet (quiet_updateParty _ _ _)
  | createProduct input => exact hquiet (quiet_void (quiet_createProduct _))
  | updateProduct id input => exact hquiet (quiet_updateProduct _ _)
  | createTaxCode code account => exact hquiet (quiet_createTaxCode _ _)
  | updateTaxCode code account => exact hquiet (quiet_updateTaxCode _ _)
  | createWarehouse => exact hquiet (quiet_void quiet_createWarehouse)
  | updateSettings input => exact hquiet (quiet_updateSettings _)
  | createExchangeRate currency date rate => exact hquiet (quiet_createExchangeRate _ _ _)
  | updateExchangeRate currency date rate => exact hquiet (quiet_updateExchangeRate _ _ _)
  | deleteExchangeRate currency date => exact hquiet (quiet_deleteExchangeRate _ _)
  | createFiscalYear input => exact hquiet (quiet_void (quiet_createFiscalYear _))
  | updateFiscalYear id input => exact hquiet (quiet_updateFiscalYear _ _)
  | createPeriod input => exact hquiet (quiet_void (quiet_createPeriod _))
  | updatePeriod id input => exact hquiet (quiet_updatePeriod _ _)
