import Tadmor.Proof.YearOrder
import Tadmor.Theory.Forest

/-!
# The chart of accounts

Accounts form a tree through their parents.  A request may give an account any parent that exists and is not the
account itself; the tree lasts as long as no account is moved below itself.
-/

namespace DB

/-- The parent of the account `k`. -/
def parentOf (db : DB) (k : ℕ) : Option ℕ := (db.accounts.find? k).bind (·.parentId)

/-- Parents are accounts, and following the parents from any account ends. -/
structure ChartOk (db : DB) : Prop where
  parents : ∀ k p, db.parentOf k = some p → (db.accounts.find? p).isSome = true
  rooted : ∀ k, Rooted db.parentOf k

/-- From every account the parents lead to an account without a parent, and no account is above itself. -/
def ChartIsTree (db : DB) : Prop :=
  ∀ a ∈ db.accounts, (∃ r ∈ db.accounts, r.parentId = none ∧ Above db.parentOf a.id r.id) ∧
    ∀ p, a.parentId = some p → ¬Above db.parentOf p a.id

theorem parentOf_of_mem {db : DB} {a : Account} (h : a ∈ db.accounts) : db.parentOf a.id = a.parentId := by
  have hf : db.accounts.find? a.id = some a := Table.find?_key h
  rw [parentOf, hf]
  rfl

theorem isSome_of_above {db : DB} (h : db.ChartOk) {k r : ℕ} (hk : (db.accounts.find? k).isSome = true)
    (hr : Above db.parentOf k r) : (db.accounts.find? r).isSome = true := by
  induction hr with
  | refl => exact hk
  | tail _ hp _ => exact h.parents _ _ hp

theorem ChartOk.isTree {db : DB} (h : db.ChartOk) : db.ChartIsTree := by
  intro a ha
  have hf : db.accounts.find? a.id = some a := Table.find?_key ha
  constructor
  · obtain ⟨r, hr, hab⟩ := (h.rooted a.id).exists_root
    obtain ⟨x, hx⟩ := Option.isSome_iff_exists.1 (isSome_of_above h (by rw [hf]; rfl) hab)
    obtain rfl : x.id = r := Table.key_of_find? hx
    have hmem := Table.mem_of_find? hx
    exact ⟨x, hmem, (parentOf_of_mem hmem).symm.trans hr, hab⟩
  · intro p hp
    exact (h.rooted a.id).not_above p ((parentOf_of_mem ha).trans hp)

theorem ChartIsTree.rooted {db : DB} (h : db.ChartIsTree) (k : ℕ) : ¬∃ p, db.parentOf k = some p ∧ Above db.parentOf p k := by
  rintro ⟨p, hp, hab⟩
  cases hk : db.accounts.find? k with
  | none =>
    rw [parentOf, hk] at hp
    cases hp
  | some a =>
    obtain rfl : a.id = k := Table.key_of_find? hk
    have hm := Table.mem_of_find? hk
    exact (h a hm).2 p ((parentOf_of_mem hm).symm.trans hp) hab

end DB

/-! ### The operations -/

theorem accountCheck_parent {db : DB} {id : ℕ} {input : AccountInput} (h : db.accountCheck id input = .ok ()) {p : ℕ}
    (hp : input.parentId = some p) : p ≠ id ∧ (db.accounts.find? p).isSome = true := by
  simp only [DB.accountCheck, Except.bind_eq_ok_iff, ensure_eq_ok, exists_const, hp, refOk, Option.all_some,
    decide_eq_true_eq] at h
  exact ⟨fun e => h.2.1 (by rw [e]), h.2.2.2⟩

section steps

variable {db db' : DB} {id : ℕ} {input : AccountInput}

theorem parentOf_insert (hfree : db.accounts.Free id) (h : db'.accounts = db.accounts.insert (input.row id)) :
    db'.parentOf = Function.update db.parentOf id input.parentId := by
  funext k
  by_cases hk : k = id
  · subst hk
    have hf : (db.accounts.insert (input.row k)).find? k = some (input.row k) := Table.find?_insert_self hfree
    rw [Function.update_self, DB.parentOf, h, hf]
    rfl
  · have hf : (db.accounts.insert (input.row id)).find? k = db.accounts.find? k :=
      Table.find?_insert_of_ne fun e => hk e.symm
    rw [Function.update_of_ne hk, DB.parentOf, h, hf]
    rfl

theorem parentOf_edit {a : Account} (ha : db.accounts.find? id = some a)
    (h : db'.accounts = db.accounts.update [id] (·.edited input) fun _ => rfl) :
    db'.parentOf = Function.update db.parentOf id input.parentId := by
  have hkey : ∀ a : Account, Keyed.key (a.edited input) = Keyed.key a := fun _ => rfl
  funext k
  by_cases hk : k = id
  · subst hk
    have hf : (db.accounts.update [k] (·.edited input) hkey).find? k = some (a.edited input) :=
      Table.find?_update_self hkey ha
    rw [Function.update_self, DB.parentOf, h, hf]
    rfl
  · have hf : (db.accounts.update [id] (·.edited input) hkey).find? k = db.accounts.find? k :=
      Table.find?_update_of_notMem hkey (by simpa using hk)
    rw [Function.update_of_ne hk, DB.parentOf, h, hf]
    rfl

/-- Giving one account another parent. -/
theorem DB.ChartOk.update (h : db.ChartOk) {o : Option ℕ} (hp : db'.parentOf = Function.update db.parentOf id o)
    (hacc : ∀ k, (db.accounts.find? k).isSome = true → (db'.accounts.find? k).isSome = true)
    (hex : ∀ p, o = some p → (db.accounts.find? p).isSome = true) (ho : ∀ p, o = some p → ¬Above db.parentOf p id) :
    db'.ChartOk := by
  refine ⟨fun k p hk => ?_, fun k => ?_⟩
  · rw [hp] at hk
    by_cases hki : k = id
    · subst hki
      rw [Function.update_self] at hk
      exact hacc p (hex p hk)
    · rw [Function.update_of_ne hki] at hk
      exact hacc p (h.parents k p hk)
  · rw [hp]
    exact rooted_update h.rooted ho k

/-- A new account is above nothing. -/
theorem DB.ChartOk.create (h : db.ChartOk) (hcheck : db.accountCheck id input = .ok ())
    (hdb : db'.accounts = db.accounts.insert (input.row id)) : db'.ChartOk := by
  by_cases hfree : db.accounts.Free id
  · have hnone : db.accounts.find? id = none := Table.free_iff_find?.1 hfree
    refine h.update (parentOf_insert hfree hdb) (fun k hk => ?_) (fun p hp => (accountCheck_parent hcheck hp).2)
      fun p hp hab => ?_
    · obtain ⟨a, ha⟩ := Option.isSome_iff_exists.1 hk
      obtain rfl : a.id = k := Table.key_of_find? ha
      have hm : a ∈ db.accounts.insert (input.row id) := Table.mem_insert_of_mem (Table.mem_of_find? ha)
      have hf : (db.accounts.insert (input.row id)).find? a.id = some a := Table.find?_key hm
      rw [hdb, hf]
      rfl
    · have hsome := DB.isSome_of_above h (accountCheck_parent hcheck hp).2 hab
      rw [hnone] at hsome
      cases hsome
  · rw [Table.insert_of_not_free hfree] at hdb
    have hp : db'.parentOf = db.parentOf := by
      unfold DB.parentOf
      rw [hdb]
    exact ⟨fun k p hk => hdb ▸ h.parents k p (hp ▸ hk), fun k => hp ▸ h.rooted k⟩

/-- The tree lasts exactly when the new parent is not below the account. -/
theorem DB.ChartOk.edit_iff (h : db.ChartOk) {a : Account} (ha : db.accounts.find? id = some a)
    (hcheck : db.accountCheck id input = .ok ())
    (hdb : db'.accounts = db.accounts.update [id] (·.edited input) fun _ => rfl) :
    db'.ChartOk ↔ ∀ p, input.parentId = some p → ¬Above db.parentOf p id := by
  have hp := parentOf_edit ha hdb
  constructor
  · intro h' p hpar hab
    have hr := h'.rooted id
    rw [hp, hpar] at hr
    exact not_rooted_update hab hr
  · refine fun ho => h.update hp (fun k hk => ?_) (fun p hpar => (accountCheck_parent hcheck hpar).2) ho
    have hkey : ∀ a : Account, Keyed.key (a.edited input) = Keyed.key a := fun _ => rfl
    rw [hdb]
    show ((db.accounts.update _ _ hkey).find? k).isSome = true
    rw [Table.find?_update, Option.isSome_map]
    exact hk

end steps

/-- The operation does not move an account below itself. -/
def Op.KeepsTree (op : Op) (db : DB) : Prop :=
  ∀ id input, op = .updateAccount id input → ∀ p, input.parentId = some p → ¬Above db.parentOf p id

theorem DB.ChartOk.commit {op : Op} {gaps : ℕ → ℕ} {s s' : Store DB}
    (h : (transaction op).commit gaps s = .ok ((), s')) (hs : Fresh s.seq s.db) (hi : s.db.ChartOk)
    (hop : op.KeepsTree s.db) : s'.db.ChartOk := by
  cases he : op.editsAccounts with
  | false =>
    have hacc := commit_accounts h hs he
    have hp : s'.db.parentOf = s.db.parentOf := by
      unfold DB.parentOf
      rw [hacc]
    exact ⟨fun k p hk => hacc ▸ hi.parents k p (hp ▸ hk), fun k => hp ▸ hi.rooted k⟩
  | true =>
    obtain ⟨w, hrun, -, rfl⟩ := Prog.commit_eq_ok.1 h
    cases op with
    | createAccount input =>
      obtain ⟨id, hrun⟩ := run_void hrun
      obtain ⟨n, hcheck, hdb⟩ := run_createAccount hrun
      exact hi.create hcheck (by rw [hdb])
    | updateAccount id input =>
      obtain ⟨a, ha, hcheck, hdb⟩ := run_updateAccount hrun
      exact (hi.edit_iff ha hcheck (by rw [hdb])).2 (hop id input rfl)
    | _ => cases he

theorem chartOk_seeded : seeded.db.ChartOk := by
  have hnone : ∀ k, seeded.db.parentOf k = none := by
    intro k
    cases hk : seeded.db.accounts.find? k with
    | none => rw [DB.parentOf, hk]; rfl
    | some a =>
      have hall : ∀ a ∈ seeded.db.accounts.rows, a.parentId = none := by decide
      rw [DB.parentOf, hk]
      exact hall a (Table.mem_of_find? hk)
  refine ⟨fun k p hk => ?_, fun k => .root (hnone k)⟩
  rw [hnone] at hk
  cases hk

/-- In every run that moves no account below itself, the accounts form a tree. -/
theorem chart_is_tree {s : Store DB} (h : Runs (fun s op => op.KeepsTree s.db) seeded s) : s.db.ChartIsTree := by
  have hok : s.db.ChartOk := by
    induction h with
    | refl => exact chartOk_seeded
    | step hr hp hs ih => exact ih.commit hs (hr.reachable .start).fresh hp
  exact hok.isTree

/-- The account an operation moves is neither the new parent, nor the parent's parent, which is a root. -/
def Op.movesBelowChild (db : DB) : Op → Bool
  | .updateAccount id input => input.parentId.all fun p =>
      decide (p ≠ id) && (db.parentOf p).any fun q => decide (q ≠ id) && (db.parentOf q).isNone
  | _ => true

theorem Op.movesBelowChild_keepsTree {db : DB} {op : Op} (h : op.movesBelowChild db = true) : op.KeepsTree db := by
  rintro id input rfl p hp hab
  simp only [Op.movesBelowChild, hp, Option.all_some, Bool.and_eq_true, decide_eq_true_eq,
    Option.any_eq_true, Option.isNone_iff_eq_none] at h
  obtain ⟨hpk, q, hq, hqk, hroot⟩ := h
  rcases hab.cases_head with rfl | ⟨c, hc, hab⟩
  · exact hpk rfl
  obtain rfl : q = c := Option.some.inj (hq.symm.trans hc)
  rcases hab.cases_head with rfl | ⟨c, hc, -⟩
  · exact hqk rfl
  · rw [hroot] at hc
    cases hc

def heading (code : String) (parentId : Option ℕ) : AccountInput := ⟨code, .expense, false, true, false, parentId⟩

/-- Accounts 13, 14 below it, and 15, which is moved below 14. -/
theorem chart_is_tree_moved : ∃ s : Store DB, s.db.parentOf 15 = some 14 ∧ s.db.ChartIsTree := by
  have h : (executeIf (fun s op => op.movesBelowChild s.db)
      [.createAccount (heading "6100" none), .createAccount (heading "6110" (some 13)),
        .createAccount (heading "6120" none), .updateAccount 15 (heading "6120" (some 14))] seeded).any
      (fun s => s.db.parentOf 15 = some 14) = true := by decide +kernel
  obtain ⟨s, hs, hp⟩ := (Option.any_eq_true ..).1 h
  exact ⟨s, of_decide_eq_true hp,
    chart_is_tree ((runs_executeIf hs).mono fun _ _ hop => Op.movesBelowChild_keepsTree hop)⟩

/-- 14 below 13, and then 13 below 14: each request checks its own edge only. -/
theorem chart_cycle : ¬∀ s, Reachable s → s.db.ChartIsTree := by
  intro h
  obtain ⟨s, hs, hp⟩ := exists_reachable [.createAccount (heading "6100" none),
    .createAccount (heading "6110" (some 13)), .updateAccount 13 (heading "6100" (some 14))]
    (p := fun s => decide (s.db.parentOf 13 = some 14 ∧ s.db.parentOf 14 = some 13)) (by decide +kernel)
  obtain ⟨h13, h14⟩ := of_decide_eq_true hp
  exact (h s hs).rooted 13 ⟨14, h13, (Above.refl _ _).head h14⟩
