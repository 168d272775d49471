import Tadmor.Proof.ClosedYear
import Tadmor.Proof.Sweep

/-!
# The order of the closed years

Closing looks for earlier open years and reopening for later closed ones, but a year can be created before a closed
year or moved there, and an entry can get into a closed year through another one.  Without such operations every year
before a closed one is closed, and no revenue or expense account has a balance at the end of a closed year.
-/

/-! ### What an operation does to the years and accounts -/

def Op.editsYears : Op → Bool
  | .createFiscalYear _ => true
  | .updateFiscalYear _ _ => true
  | .closeFiscalYear _ _ => true
  | .reopenFiscalYear _ => true
  | _ => false

def Op.editsAccounts : Op → Bool
  | .createAccount _ => true
  | .updateAccount _ _ => true
  | _ => false

theorem Change.years {n : ℕ} {db db' : DB} {op : Op} {cs : List (DB → Except Err Unit)} (h : Change n db op db' cs)
    (hop : op.editsYears = false) : db'.years = db.years := by
  cases h with
  | elsewhere h => exact h.years
  | closeYear => cases hop
  | reopenYear => cases hop
  | newYear => cases hop
  | nextYear => cases hop
  | editYear => cases hop
  | _ => rfl

theorem Change.accounts {n : ℕ} {db db' : DB} {op : Op} {cs : List (DB → Except Err Unit)} (h : Change n db op db' cs)
    (hop : op.editsAccounts = false) : db'.accounts = db.accounts := by
  cases h with
  | elsewhere h => exact h.accounts
  | newAccount => cases hop
  | editAccount => cases hop
  | _ => rfl

section frame

variable {op : Op} {gaps : ℕ → ℕ} {s s' : Store DB}

theorem commit_years (h : (transaction op).commit gaps s = .ok ((), s')) (hs : Fresh s.seq s.db)
    (hop : op.editsYears = false) : s'.db.years = s.db.years := by
  obtain ⟨-, hy, -⟩ := commit_changes (I := fun db _ => db.years = s.db.years)
    (fun _ hi hc => (hc.years hop).trans hi) h hs rfl
  exact hy

theorem commit_accounts (h : (transaction op).commit gaps s = .ok ((), s')) (hs : Fresh s.seq s.db)
    (hop : op.editsAccounts = false) : s'.db.accounts = s.db.accounts := by
  obtain ⟨-, ha, -⟩ := commit_changes (I := fun db _ => db.accounts = s.db.accounts)
    (fun _ hi hc => (hc.accounts hop).trans hi) h hs rfl
  exact ha

end frame

theorem run_createFiscalYear {input : FiscalYearInput} {id : ℕ} {v w : Env DB Err}
    (h : (CreateFiscalYear input).run v = .ok (id, w)) :
    ∃ n, w.db = { v.db with years := v.db.years.insert (input.row n) } := by
  obtain ⟨o, ho, -, rfl⟩ := Prog.run_exec_ok.1 h
  simp only [Except.bind_eq_ok_iff, Except.ok.injEq] at ho
  obtain ⟨-, -, rfl⟩ := ho
  exact ⟨_, rfl⟩

theorem run_updateFiscalYear {id : ℕ} {input : FiscalYearInput} {v w : Env DB Err} {u : Unit}
    (h : (UpdateFiscalYear id input).run v = .ok (u, w)) :
    ∃ fy, v.db.years.find? id = some fy ∧
      w.db = { v.db with years := v.db.years.update [id] (·.edited input) fun _ => rfl } := by
  obtain ⟨k, v₁, h₁, h⟩ := Prog.run_bind_ok.1 h
  obtain ⟨o, ho, rfl, rfl⟩ := Prog.run_exec_ok.1 h₁
  obtain ⟨hk, rfl⟩ := Prog.run_require_ok.1 h
  dsimp only at ho
  split at ho
  · cases ho
    simp at hk
  · rename_i hne
    simp only [Except.bind_eq_ok_iff, Except.ok.injEq] at ho
    obtain ⟨-, -, rfl⟩ := ho
    obtain ⟨hhit, fy, hfy, -⟩ := Table.hit_ne_nil hne
    exact ⟨fy, hfy, by rw [Env.after_db, hhit]⟩

theorem run_createAccount {input : AccountInput} {id : ℕ} {v w : Env DB Err}
    (h : (CreateAccount input).run v = .ok (id, w)) :
    ∃ n, v.db.accountCheck n input = .ok () ∧
      w.db = { v.db with accounts := v.db.accounts.insert (input.row n) } := by
  obtain ⟨o, ho, -, rfl⟩ := Prog.run_exec_ok.1 h
  simp only [Except.bind_eq_ok_iff, Except.ok.injEq] at ho
  obtain ⟨_, hcheck, rfl⟩ := ho
  exact ⟨_, hcheck, rfl⟩

theorem run_updateAccount {id : ℕ} {input : AccountInput} {v w : Env DB Err} {u : Unit}
    (h : (UpdateAccount id input).run v = .ok (u, w)) :
    ∃ a, v.db.accounts.find? id = some a ∧ v.db.accountCheck id input = .ok () ∧
      w.db = { v.db with accounts := v.db.accounts.update [id] (·.edited input) fun _ => rfl } := by
  obtain ⟨k, v₁, h₁, h⟩ := Prog.run_bind_ok.1 h
  obtain ⟨o, ho, rfl, rfl⟩ := Prog.run_exec_ok.1 h₁
  obtain ⟨hk, rfl⟩ := Prog.run_require_ok.1 h
  dsimp only at ho
  split at ho
  · cases ho
    simp at hk
  · rename_i hne
    simp only [Except.bind_eq_ok_iff, Except.ok.injEq] at ho
    obtain ⟨_, hcheck, rfl⟩ := ho
    obtain ⟨hhit, a, ha, -⟩ := Table.hit_ne_nil hne
    exact ⟨a, ha, hcheck, by rw [Env.after_db, hhit]⟩

theorem Change.yearsDated {n : ℕ} {db db' : DB} {op : Op} {cs : List (DB → Except Err Unit)} (h : Change n db op db' cs)
    (hi : ∀ y ∈ db.years, y.startDate ≤ y.endDate) : ∀ y ∈ db'.years, y.startDate ≤ y.endDate := by
  have update {ks : List ℕ} {f : FiscalYear → FiscalYear} (hf : ∀ y, (f y).id = y.id)
      (hd : ∀ y ∈ db.years, (f y).startDate ≤ (f y).endDate) :
      ∀ y ∈ db.years.update ks f hf, y.startDate ≤ y.endDate := by
    intro y hy
    rcases Table.mem_update_cases hf hy with ⟨hy, -⟩ | ⟨x, hx, -, rfl⟩
    · exact hi y hy
    · exact hd x hx
  have insert {y : FiscalYear} (hd : y.startDate ≤ y.endDate) : ∀ x ∈ db.years.insert y, x.startDate ≤ x.endDate := by
    intro x hx
    rcases Table.mem_of_mem_insert hx with hx | rfl
    · exact hi x hx
    · exact hd
  cases h with
  | elsewhere h =>
    rw [h.years]
    exact hi
  | closeYear id retained closing => exact update (by intro; rfl) hi
  | reopenYear id => exact update (by intro; rfl) hi
  | newYear input h => exact insert (yearCheck_dates h)
  | nextYear id retained endDate hd => exact insert hd
  | editYear id input h => exact update (by intro; rfl) fun _ _ => yearCheck_dates h
  | _ => exact hi

theorem Reachable.yearsDated {s : Store DB} (h : Reachable s) : ∀ y ∈ s.db.years, y.startDate ≤ y.endDate := by
  refine h.invariant (I := fun s => ∀ y ∈ s.db.years, y.startDate ≤ y.endDate)
    (fun y hy => absurd hy (Table.not_mem_empty y)) fun s s' hr hi ⟨op, gaps, hc⟩ => ?_
  obtain ⟨-, hd, -⟩ := commit_changes (I := fun db _ => ∀ y ∈ db.years, y.startDate ≤ y.endDate)
    (fun _ hi hc => hc.yearsDated hi) hc hr.fresh hi
  exact hd

/-! ### The order -/

/-- Every year that starts before a closed year is closed, and at the end of a closed year no revenue or expense
account has a balance. -/
structure DB.YearOrder (db : DB) : Prop where
  early : ∀ x ∈ db.years, ∀ y ∈ db.years, y.status = .closed → x.startDate < y.startDate → x.status = .closed
  swept : ∀ y ∈ db.years, y.status = .closed → db.SweptOn y.endDate

theorem not_closed_of_opened {y : FiscalYear} (h : y.status = .opened) : y.status ≠ .closed := by
  rw [h]
  decide

namespace DB.YearOrder

variable {db db' : DB}

/-- The closed years start no later than an open one. -/
theorem le_of_opened (h : db.YearOrder) {x y : FiscalYear} (hx : x ∈ db.years) (hs : x.status = .opened)
    (hy : y ∈ db.years) (hc : y.status = .closed) : y.startDate ≤ x.startDate := by
  by_contra hlt
  exact not_closed_of_opened hs (h.early x hx y hy hc (not_le.1 hlt))

theorem of_years (h : db.YearOrder) (hy : db'.years = db.years)
    (hs : ∀ y ∈ db.years, y.status = .closed → db'.SweptOn y.endDate) : db'.YearOrder := by
  refine ⟨?_, ?_⟩
  · rw [hy]
    exact h.early
  · rw [hy]
    exact hs

/-- A new year that is open and starts no earlier than the closed ones. -/
theorem insert (h : db.YearOrder) {y : FiscalYear} (hs : y.status = .opened)
    (hc : ∀ x ∈ db.years, x.status = .closed → x.startDate ≤ y.startDate) :
    { db with years := db.years.insert y }.YearOrder := by
  refine ⟨fun a ha b hb hbc hlt => ?_, fun z hz hzc => ?_⟩
  · rcases Table.mem_of_mem_insert hb with hb' | rfl
    · rcases Table.mem_of_mem_insert ha with ha' | rfl
      · exact h.early a ha' b hb' hbc hlt
      · exact absurd hlt (not_lt.2 (hc b hb' hbc))
    · exact absurd hbc (not_closed_of_opened hs)
  · rcases Table.mem_of_mem_insert hz with hz | rfl
    · exact h.swept z hz hzc
    · exact absurd hzc (not_closed_of_opened hs)

/-- An edit of a year.  If it is open it stays after the closed years, if it is closed it stays before the open ones
and without balances at its end. -/
theorem edit (h : db.YearOrder) {id : ℕ} {fy : FiscalYear} {input : FiscalYearInput}
    (hfy : db.years.find? id = some fy)
    (ho : fy.status = .opened → ∀ y ∈ db.years, y.status = .closed → y.startDate ≤ input.startDate)
    (hc : fy.status = .closed → (∀ y ∈ db.years, y.status = .opened → input.startDate ≤ y.startDate) ∧
      db.SweptOn input.endDate) :
    { db with years := db.years.update [id] (·.edited input) fun _ => rfl }.YearOrder := by
  have hmem : ∀ y ∈ db.years.update [id] (·.edited input) fun _ => rfl,
      y = fy.edited input ∨ y.id ≠ id ∧ y ∈ db.years := fun y hy =>
    (Table.mem_update_singleton (by intro; rfl) hfy).1 hy
  refine ⟨fun a ha b hb hbc hlt => ?_, fun z hz hzc => ?_⟩
  · rcases hmem a ha with rfl | ⟨-, ha⟩
    · rcases hmem b hb with rfl | ⟨-, hb⟩
      · exact absurd hlt (lt_irrefl _)
      · cases hs : fy.status with
        | opened => exact absurd hlt (not_lt.2 (ho hs b hb hbc))
        | closed => exact hs
    · rcases hmem b hb with rfl | ⟨-, hb⟩
      · cases has : a.status with
        | opened => exact absurd hlt (not_lt.2 ((hc hbc).1 a ha has))
        | closed => rfl
      · exact h.early a ha b hb hbc hlt
  · rcases hmem z hz with rfl | ⟨-, hz⟩
    · exact (hc hzc).2
    · exact h.swept z hz hzc

/-- The close of a year that no open year starts before. -/
theorem close (h : db.YearOrder) {id : ℕ} {fy : FiscalYear} {closing : Option ℕ} {mid : DB}
    (hclosed : ClosedYear id closing mid db') (hfy : db.years.find? id = some fy)
    (hyears : mid.years = db.years) (hprior : ∀ y ∈ db.years, y.status = .opened → fy.startDate ≤ y.startDate)
    (hs : fy.status = .opened) (hd : fy.startDate ≤ fy.endDate)
    (hsw : mid.SweptOn fy.endDate) (hold : ∀ y ∈ db.years, y.status = .closed → mid.SweptOn y.endDate) :
    db'.YearOrder := by
  obtain ⟨x, hx, hcases⟩ := hclosed.years
  rw [hyears] at hx hcases
  obtain rfl : fy = x := Option.some.inj (hfy.symm.trans hx)
  have hm := Table.mem_of_find? hfy
  have hswept : ∀ date, mid.SweptOn date → db'.SweptOn date := fun date hsw =>
    hsw.congr (by rw [hclosed.eq]) (balanceAt_congr (by rw [hclosed.eq]) (by rw [hclosed.eq]) · date)
  -- a closed year of `db'` starts no later than the year, which ends before the new one starts
  have hle : ∀ b ∈ db'.years, b.status = .closed → b.startDate ≤ fy.startDate := by
    intro b hb hbc
    rcases hcases b hb with ⟨hb, -⟩ | rfl | ⟨hbs, -⟩
    · exact h.le_of_opened hm hs hb hbc
    · exact le_rfl
    · exact absurd hbc (not_closed_of_opened hbs)
  refine ⟨fun a ha b hb hbc hlt => ?_, fun z hz hzc => ?_⟩
  · rcases hcases a ha with ⟨ha, -⟩ | rfl | ⟨-, hstart⟩
    · cases has : a.status with
      | opened => exact absurd (hlt.trans_le (hle b hb hbc)) (not_lt.2 (hprior a ha has))
      | closed => rfl
    · rfl
    · have hnext : fy.startDate < a.startDate := hstart ▸ hd.trans_lt (Date.lt_next _)
      exact absurd (hlt.trans_le (hle b hb hbc)) (not_lt.2 hnext.le)
  · rcases hcases z hz with ⟨hz, -⟩ | rfl | ⟨hzs, -⟩
    · exact hswept _ (hold z hz hzc)
    · exact hswept _ hsw
    · exact absurd hzc (not_closed_of_opened hzs)

/-- The reopening of the last closed year. -/
theorem reopen (h : db.YearOrder) {id : ℕ} {fy : FiscalYear} (hfy : db.years.find? id = some fy)
    (hlast : ∀ y ∈ db.years, y.status = .closed → y.startDate ≤ fy.startDate)
    (hy : db'.years = db.years.update [id] (fun y => { y with status := .opened, closingEntryId := none }) fun _ => rfl)
    (hold : ∀ y ∈ db.years, y.status = .closed → y.id ≠ id → db'.SweptOn y.endDate) : db'.YearOrder := by
  have hmem : ∀ y ∈ db'.years, y = { fy with status := .opened, closingEntryId := none } ∨ y.id ≠ id ∧ y ∈ db.years := by
    intro y hm
    rw [hy] at hm
    exact (Table.mem_update_singleton (by intro; rfl) hfy).1 hm
  refine ⟨fun a ha b hb hbc hlt => ?_, fun z hz hzc => ?_⟩
  · rcases hmem b hb with rfl | ⟨-, hb⟩
    · cases hbc
    · rcases hmem a ha with rfl | ⟨-, ha⟩
      · exact absurd hlt (not_lt.2 (hlast b hb hbc))
      · exact h.early a ha b hb hbc hlt
  · rcases hmem z hz with rfl | ⟨hne, hz⟩
    · cases hzc
    · exact hold z hz hzc hne

end DB.YearOrder

/-! ### Operations in order -/

def DB.closedYears (db : DB) : List FiscalYear := db.years.rows.filter (·.status = .closed)

/-- The calendar lets a posting have the date. -/
def DB.opens (db : DB) (date : Date) : Bool :=
  (db.openPeriod date).isSome || !db.covered date && (db.openYear date).isSome

/-- The operation leaves the closed years in order: no year gets before a closed one, no account gets a balance at
the end of one, and nothing is posted or reversed up to it. -/
def Op.inOrder (op : Op) (db : DB) : Bool :=
  match op with
  | .createFiscalYear input => db.closedYears.all (·.startDate ≤ input.startDate)
  | .updateFiscalYear id input => (db.years.find? id).all fun fy =>
    match fy.status with
    | .opened => db.closedYears.all (·.startDate ≤ input.startDate)
    | .closed =>
      (db.years.rows.all fun y => y.status = .closed || input.startDate ≤ y.startDate) &&
        (db.balances input.endDate).isEmpty
  | .updateAccount id input => (db.accounts.find? id).all fun a =>
    !input.accountType.isIncome || db.closedYears.all fun y => db.balanceAt a y.endDate = 0
  | .closeFiscalYear id _ => (db.years.find? id).all fun fy =>
    (db.balances fy.endDate).isEmpty || db.closedYears.all (·.endDate ≤ fy.endDate)
  | .reopenFiscalYear id => (db.dateOf (db.closingOf id)).all fun date =>
    db.closedYears.all fun y => y.id = id || y.endDate < date
  | op => (op.dates db).all fun date => !db.opens date || db.closedYears.all (·.endDate < date)

theorem all_closedYears {db : DB} {p : FiscalYear → Bool} :
    db.closedYears.all p = true ↔ ∀ y ∈ db.years, y.status = .closed → p y = true := by
  simp only [DB.closedYears, List.all_eq_true, List.mem_filter, decide_eq_true_eq, and_imp]
  exact Iff.rfl

theorem argmin_isSome {α : Type} {f : α → ℕ} {l : List α} {a : α} (h : a ∈ l) : (l.argmin f).isSome := by
  rw [Option.isSome_iff_ne_none, ne_eq, List.argmin_eq_none]
  exact List.ne_nil_of_mem h

theorem opens_of_openOn {db : DB} {date : Date} (h : db.OpenOn date) : db.opens date = true := by
  rw [DB.opens, Bool.or_eq_true, Bool.and_eq_true]
  rcases h with ⟨p, hp, hs, h₁, h₂⟩ | ⟨hno, y, hy, hs, h₁, h₂⟩
  · exact .inl (argmin_isSome (List.mem_filter.2 ⟨hp, by simp [hs, h₁, h₂]⟩))
  · refine .inr ⟨?_, argmin_isSome (List.mem_filter.2 ⟨hy, by simp [hs, h₁, h₂]⟩)⟩
    rw [Bool.not_eq_true', DB.covered, List.any_eq_false]
    intro p hp hc
    rw [Bool.and_eq_true, decide_eq_true_eq, decide_eq_true_eq] at hc
    exact hno p hp hc

section step

variable {op : Op} {gaps : ℕ → ℕ} {s s' : Store DB}

/-- New entries of later dates than the end of a closed year leave it swept. -/
theorem DB.SweptOn.commit {date : Date} (hsw : s.db.SweptOn date) (h : Reachable s)
    (hc : (transaction op).commit gaps s = .ok ((), s')) (ha : s'.db.accounts = s.db.accounts)
    (hnew : ∀ e ∈ s'.db.entries, e ∈ s.db.entries ∨ date < e.entryDate) : s'.db.SweptOn date :=
  hsw.congr ha ((commit_effect hc h.fresh).1.journaled.grown.balanceAt h.journalOk hnew)

/-- An operation that edits neither years nor accounts. -/
theorem commit_yearOrder_of_dates (h : Reachable s) (hc : (transaction op).commit gaps s = .ok ((), s'))
    (hi : s.db.YearOrder) (hy : op.editsYears = false) (ha : op.editsAccounts = false)
    (hd : ((op.dates s.db).all fun date => !s.db.opens date || s.db.closedYears.all (·.endDate < date)) = true) :
    s'.db.YearOrder := by
  refine hi.of_years (commit_years hc h.fresh hy) fun y hy' hs =>
    (hi.swept y hy' hs).commit h hc (commit_accounts hc h.fresh ha) fun e he => ?_
  rcases commit_new_entry hc h.fresh he with he | hw
  · exact .inl he
  · cases hw with
    | posts hmem hopen =>
      have hdate := List.all_eq_true.1 hd _ hmem
      rw [opens_of_openOn hopen, Bool.not_true, Bool.false_or, all_closedYears] at hdate
      exact .inr (of_decide_eq_true (hdate y hy' hs))
    | closes id retained hop =>
      subst hop
      cases hy
    | reopens id hop =>
      subst hop
      cases hy

theorem commit_createFiscalYear {input : FiscalYearInput}
    (hc : (transaction (.createFiscalYear input)).commit gaps s = .ok ((), s')) (hi : s.db.YearOrder)
    (hop : (Op.createFiscalYear input).inOrder s.db = true) : s'.db.YearOrder := by
  obtain ⟨w, hrun, -, rfl⟩ := Prog.commit_eq_ok.1 hc
  obtain ⟨id, hrun⟩ := run_void hrun
  obtain ⟨n, hdb⟩ := run_createFiscalYear hrun
  rw [hdb]
  exact hi.insert rfl fun x hx hs => of_decide_eq_true (all_closedYears.1 hop x hx hs)

theorem commit_updateFiscalYear {id : ℕ} {input : FiscalYearInput}
    (hc : (transaction (.updateFiscalYear id input)).commit gaps s = .ok ((), s')) (hi : s.db.YearOrder)
    (hop : (Op.updateFiscalYear id input).inOrder s.db = true) : s'.db.YearOrder := by
  obtain ⟨w, hrun, -, rfl⟩ := Prog.commit_eq_ok.1 hc
  obtain ⟨fy, hfy, hdb⟩ := run_updateFiscalYear hrun
  change s.db.years.find? id = some fy at hfy
  rw [hdb]
  rw [Op.inOrder, hfy, Option.all_some] at hop
  refine hi.edit hfy (fun hs => ?_) fun hs => ?_
  · rw [hs] at hop
    exact fun y hy hyc => of_decide_eq_true (all_closedYears.1 hop y hy hyc)
  · rw [hs] at hop
    simp only [Bool.and_eq_true, List.all_eq_true, Bool.or_eq_true, decide_eq_true_eq, List.isEmpty_iff] at hop
    refine ⟨fun y hy hyo => ?_, balances_eq_nil.1 hop.2⟩
    exact (hop.1 y hy).resolve_left (not_closed_of_opened hyo)

/-- A new account has no lines. -/
theorem commit_createAccount {input : AccountInput} (h : Reachable s)
    (hc : (transaction (.createAccount input)).commit gaps s = .ok ((), s')) (hi : s.db.YearOrder) :
    s'.db.YearOrder := by
  obtain ⟨w, hrun, -, rfl⟩ := Prog.commit_eq_ok.1 hc
  obtain ⟨id, hrun⟩ := run_void hrun
  obtain ⟨n, -, hdb⟩ := run_createAccount hrun
  refine hi.of_years (by rw [hdb]) fun y hy hs a ha ht => ?_
  have hbal : w.db.balanceAt a y.endDate = s.db.balanceAt a y.endDate :=
    balanceAt_congr (by rw [hdb]) (by rw [hdb]) a y.endDate
  rw [hdb] at ha
  show w.db.balanceAt a y.endDate = 0
  rw [hbal]
  by_cases hold : a ∈ s.db.accounts
  · exact hi.swept y hy hs a hold ht
  · obtain rfl : a = input.row n := (Table.mem_of_mem_insert ha).resolve_left hold
    have hfree : s.db.accounts.Free (Keyed.key (input.row n)) := by
      by_contra hf
      exact hold (Table.insert_of_not_free hf ▸ ha)
    refine sum_filter_eq_zero fun l hl => ?_
    obtain ⟨x, hx⟩ := Option.isSome_iff_exists.1 (h.ledgerOk.account l hl)
    have hne : l.accountId ≠ n := fun e => hfree x (Table.mem_of_find? hx) ((Table.key_of_find? hx).trans e)
    simp [AccountInput.row, hne]

theorem commit_updateAccount {id : ℕ} {input : AccountInput}
    (hc : (transaction (.updateAccount id input)).commit gaps s = .ok ((), s')) (hi : s.db.YearOrder)
    (hop : (Op.updateAccount id input).inOrder s.db = true) : s'.db.YearOrder := by
  obtain ⟨w, hrun, -, rfl⟩ := Prog.commit_eq_ok.1 hc
  obtain ⟨x, hx, -, hdb⟩ := run_updateAccount hrun
  change s.db.accounts.find? id = some x at hx
  rw [Op.inOrder, hx, Option.all_some, Bool.or_eq_true, Bool.not_eq_true'] at hop
  refine hi.of_years (by rw [hdb]) fun y hy hs a ha ht => ?_
  have hbal (a : Account) : w.db.balanceAt a y.endDate = s.db.balanceAt a y.endDate :=
    balanceAt_congr (by rw [hdb]) (by rw [hdb]) a y.endDate
  rw [hdb] at ha
  show w.db.balanceAt a y.endDate = 0
  rw [hbal]
  rcases (Table.mem_update_singleton (by intro; rfl) hx).1 ha with rfl | ⟨-, ha'⟩
  · have hz := all_closedYears.1 (hop.resolve_left (by rw [show input.accountType.isIncome = true from ht]; decide)) y hy hs
    exact of_decide_eq_true hz
  · exact hi.swept y hy hs a ha' ht

theorem commit_closeFiscalYear {id retained : ℕ} (h : Reachable s)
    (hc : (transaction (.closeFiscalYear id retained)).commit gaps s = .ok ((), s')) (hi : s.db.YearOrder)
    (hop : (Op.closeFiscalYear id retained).inOrder s.db = true) : s'.db.YearOrder := by
  obtain ⟨w, hrun, -, rfl⟩ := Prog.commit_eq_ok.1 hc
  obtain ⟨res, hrun⟩ := run_void hrun
  obtain ⟨fy, u, hg, hdb, hseq, -, hrun⟩ := run_closeFiscalYear hrun
  change u.db = s.db at hdb
  have hfy : s.db.years.find? id = some fy := hg.year
  obtain ⟨closing, mid, hclosed, hcase⟩ := run_closeRest hrun (hdb ▸ h.fresh.mono _ _ _ hseq) (hdb ▸ hfy)
  rw [hdb] at hcase
  rw [Op.inOrder, hfy, Option.all_some, Bool.or_eq_true, List.isEmpty_iff] at hop
  have hd := h.yearsDated fy (Table.mem_of_find? hfy)
  rcases hcase with ⟨hnone, -, rfl⟩ | ⟨je, period, rows, -, hw, hr, hsome, -⟩
  · exact hi.close hclosed hfy rfl hg.prior hg.opened hd (balances_eq_nil.1 hnone) hi.swept
  · have hsw : mid.SweptOn fy.endDate := hw.sweptOn h.journalOk hr ⟨_, hg.account.choose_spec⟩
    refine hi.close hclosed hfy (by rw [hw.eq]) hg.prior hg.opened hd hsw fun y hy hs => ?_
    -- the entry is of the end of the year, so no closed year ends later
    have hle : y.endDate ≤ fy.endDate := of_decide_eq_true (all_closedYears.1 (hop.resolve_left hsome) y hy hs)
    rcases hle.eq_or_lt with he | hlt
    · exact he ▸ hsw
    · refine (hi.swept y hy hs).congr (by rw [hw.eq]) (hw.grown.balanceAt h.journalOk fun e he => ?_)
      rcases hw.new_entry he with he | rfl
      · exact .inl he
      · exact .inr hlt

theorem commit_reopenFiscalYear {id : ℕ} (h : Reachable s)
    (hc : (transaction (.reopenFiscalYear id)).commit gaps s = .ok ((), s')) (hi : s.db.YearOrder)
    (hop : (Op.reopenFiscalYear id).inOrder s.db = true) : s'.db.YearOrder := by
  have hacc := commit_accounts hc h.fresh rfl
  have hnew := @commit_new_entry _ _ _ _ hc h.fresh
  have hkeep (y : FiscalYear) (hy : y ∈ s.db.years) (hs : y.status = .closed) (hne : y.id ≠ id) :
      s'.db.SweptOn y.endDate := by
    refine (hi.swept y hy hs).commit h hc hacc fun e he => ?_
    rcases hnew he with he | hw
    · exact .inl he
    · cases hw with
      | posts hmem => cases hmem
      | closes id' retained hop' => cases hop'
      | reopens id' hop' hdate =>
        cases hop'
        rw [Op.inOrder, hdate, Option.all_some, all_closedYears] at hop
        have hlt := hop y hy hs
        rw [Bool.or_eq_true, decide_eq_true_eq, decide_eq_true_eq] at hlt
        exact .inr (hlt.resolve_left hne)
  obtain ⟨w, hrun, -, rfl⟩ := Prog.commit_eq_ok.1 hc
  obtain ⟨rev, hrun⟩ := run_void hrun
  obtain ⟨fy, mid, hfy, -, hlast, -, hyears, -, hcase⟩ := run_reopenFiscalYear hrun h.fresh
  refine hi.reopen hfy hlast ?_ hkeep
  show w.db.years = _
  rcases hcase with ⟨-, rfl⟩ | ⟨e, r, rows, -, hr⟩
  · exact hyears
  · rw [hr.wrote.eq]
    exact hyears

theorem commit_yearOrder (h : Reachable s) (hc : (transaction op).commit gaps s = .ok ((), s')) (hi : s.db.YearOrder)
    (hop : op.inOrder s.db = true) : s'.db.YearOrder := by
  cases op with
  | createFiscalYear input => exact commit_createFiscalYear hc hi hop
  | updateFiscalYear id input => exact commit_updateFiscalYear hc hi hop
  | createAccount input => exact commit_createAccount h hc hi
  | updateAccount id input => exact commit_updateAccount hc hi hop
  | closeFiscalYear id retained => exact commit_closeFiscalYear h hc hi hop
  | reopenFiscalYear id => exact commit_reopenFiscalYear h hc hi hop
  | _ => exact commit_yearOrder_of_dates h hc hi rfl rfl hop

end step

theorem yearOrder_seeded : seeded.db.YearOrder :=
  ⟨fun x hx => absurd hx (Table.not_mem_empty x), fun y hy => absurd hy (Table.not_mem_empty y)⟩

/-- As long as every operation is in order, every fiscal year that starts before a closed one is closed, and at the
end of a closed year no revenue or expense account has a balance. -/
theorem closed_years_in_order {s : Store DB} (hr : Runs (fun s op => op.inOrder s.db = true) seeded s) :
    (∀ x ∈ s.db.years, ∀ y ∈ s.db.years, y.status = .closed → x.startDate < y.startDate → x.status = .closed) ∧
      ∀ y ∈ s.db.years, y.status = .closed → ∀ a ∈ s.db.accounts, a.accountType.isIncome = true →
        s.db.balanceAt a y.endDate = 0 := by
  have hi : s.db.YearOrder := by
    induction hr with
    | refl => exact yearOrder_seeded
    | step hrun hp hs ih => exact commit_yearOrder (hrun.reachable .start) hs ih hp
  exact ⟨hi.early, hi.swept⟩

/-- Two years are closed and the second is reopened. -/
theorem closed_years_in_order_reopened : ∃ s : Store DB,
    s.db.years.rows.map (·.status) = [.closed, .opened, .opened] ∧
    s.db.entries.rows.map (·.isClosing) = [false, true, false, true, true] ∧
    ∀ y ∈ s.db.years, y.status = .closed → ∀ a ∈ s.db.accounts, a.accountType.isIncome = true →
      s.db.balanceAt a y.endDate = 0 := by
  obtain ⟨s, hs, hq⟩ := (Option.any_eq_true ..).1
    (show (executeIf (fun s op => op.inOrder s.db) (opening ++ [.postDoc .salesInvoice 15, .closeFiscalYear 13 7,
        .createDoc .salesInvoice { invoiceInput "I2" 50 with date := ⟨2027, 2, 1, by decide⟩ },
        .postDoc .salesInvoice 26, .closeFiscalYear 25 7, .reopenFiscalYear 25]) seeded).any
      (fun s => s.db.years.rows.map (·.status) = [.closed, .opened, .opened] &&
        s.db.entries.rows.map (·.isClosing) = [false, true, false, true, true]) = true by decide +kernel)
  rw [Bool.and_eq_true] at hq
  exact ⟨s, of_decide_eq_true hq.1, of_decide_eq_true hq.2, (closed_years_in_order (runs_executeIf hs)).2⟩

def fiscalYear2025 : FiscalYearInput := ⟨"FY2025", ⟨2025, 1, 1, by decide⟩, ⟨2025, 12, 31, by decide⟩⟩

/-- The year 2026 is closed, then the year 2025 is created. -/
theorem open_before_closed : ¬∀ s : Store DB, Reachable s →
    (∀ x ∈ s.db.years, ∀ y ∈ s.db.years, y.status = .closed → x.startDate < y.startDate → x.status = .closed) ∧
      ∀ y ∈ s.db.years, y.status = .closed → ∀ a ∈ s.db.accounts, a.accountType.isIncome = true →
        s.db.balanceAt a y.endDate = 0 := by
  intro hall
  obtain ⟨s, hs, hp⟩ := exists_reachable
    (opening ++ [.postDoc .salesInvoice 15, .closeFiscalYear 13 7, .createFiscalYear fiscalYear2025])
    (p := fun s => s.db.years.rows.any fun x => x.status = .opened &&
      s.db.years.rows.any fun y => y.status = .closed && x.startDate < y.startDate) (by decide +kernel)
  simp only [List.any_eq_true, Bool.and_eq_true, decide_eq_true_eq] at hp
  obtain ⟨x, hx, hopen, y, hy, hclosed, hlt⟩ := hp
  exact not_closed_of_opened hopen ((hall s hs).1 x hx y hy hclosed hlt)
