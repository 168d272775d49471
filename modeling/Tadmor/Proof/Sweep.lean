import Tadmor.Proof.Journal
import Tadmor.Proof.Reports

/-!
# The sweep

The balance of an account on a date is the sum over its lines up to it.  The sweep of a close has one line for each
revenue or expense account with a balance, so afterwards none has one; entries of later dates change nothing.
-/

/-! ### Grouped sums -/

/-- One row for each key: the row of `k` has the sum of `k`. -/
theorem sum_keyed {κ : Type} [DecidableEq κ] {g : κ → ℤ} {ks : List κ} (hn : ks.Nodup) (k : κ) :
    ((((ks.map fun k' => (k', g k')).filter fun x => x.2 ≠ 0).filter fun x => x.1 = k).map Prod.snd).sum =
      if k ∈ ks then g k else 0 := by
  induction ks with
  | nil => rfl
  | cons k' ks ih =>
    obtain ⟨hk', hn⟩ := List.nodup_cons.1 hn
    have ih := ih hn
    by_cases hk : k' = k
    · subst hk
      rw [if_neg hk'] at ih
      by_cases hz : g k' = 0
      · simpa [hz] using ih
      · simpa [hz] using ih
    · have hne : k ≠ k' := fun e => hk e.symm
      by_cases hz : g k' = 0
      · simpa [hz, hk, hne] using ih
      · simpa [hz, hk, hne] using ih

theorem sum_groupSums (xs : List (Option ℕ × ℤ)) (k : Option ℕ) :
    (((groupSums xs).filter fun x => x.1 = k).map Prod.snd).sum =
      ((xs.filter fun x => x.1 = k).map Prod.snd).sum := by
  have hn : ((xs.map Prod.fst).dedup.insertionSort fun a b => accountLE a b = true).Nodup :=
    (List.perm_insertionSort _ _).nodup_iff.2 (List.nodup_dedup _)
  refine (sum_keyed (g := fun k => ((xs.filter fun x => x.1 = k).map Prod.snd).sum) hn k).trans ?_
  split
  · rfl
  · rename_i hk
    have hnone : xs.filter (fun x => x.1 = k) = [] := by
      rw [List.filter_eq_nil_iff]
      intro x hx e
      rw [(List.perm_insertionSort _ _).mem_iff, List.mem_dedup] at hk
      exact hk (List.mem_map.2 ⟨x, hx, of_decide_eq_true e⟩)
    rw [hnone]
    rfl

theorem total_groupSums (xs : List (Option ℕ × ℤ)) :
    ((groupSums xs).map Prod.snd).sum = (xs.map Prod.snd).sum := by
  unfold groupSums
  generalize hks : (xs.map Prod.fst).dedup.insertionSort (fun a b => accountLE a b = true) = ks
  have hperm : ks.Perm (xs.map Prod.fst).dedup := hks ▸ List.perm_insertionSort _ _
  have hn : ks.Nodup := hperm.nodup_iff.2 (List.nodup_dedup _)
  have hall : xs.filter (fun x => ks.any fun k => x.1 = k) = xs := by
    refine List.filter_eq_self.2 fun x hx => List.any_eq_true.2 ⟨x.1, ?_, decide_eq_true rfl⟩
    exact hperm.mem_iff.2 (List.mem_dedup.2 (List.mem_map_of_mem hx))
  have hsum := sum_filter_any (l := xs) (r := fun k x => decide (x.1 = k)) (w := Prod.snd)
    (hn.imp fun {k k'} hne x _ => by
      rw [Bool.and_eq_false_iff, decide_eq_false_iff_not, decide_eq_false_iff_not]
      by_cases hk : x.1 = k
      · exact .inr fun hk' => hne (hk.symm.trans hk')
      · exact .inl hk)
  rw [hall] at hsum
  rw [sum_map_filter, List.map_map, hsum]
  congr 1
  refine List.map_congr_left fun k _ => ?_
  by_cases hz : ((xs.filter fun x => x.1 = k).map Prod.snd).sum = 0
  · simp [hz]
  · simp [hz]

theorem groupSums_eq_nil {xs : List (Option ℕ × ℤ)} :
    groupSums xs = [] ↔ ∀ k, ((xs.filter fun x => x.1 = k).map Prod.snd).sum = 0 := by
  constructor
  · intro h k
    rw [← sum_groupSums, h]
    rfl
  · intro h
    unfold groupSums
    rw [List.filter_eq_nil_iff]
    intro x hx
    obtain ⟨k, -, rfl⟩ := List.mem_map.1 hx
    simpa using h k

/-! ### Balances -/

/-- The balance of an account over the posted entries up to the date. -/
def DB.balanceAt (db : DB) (a : Account) (date : Date) : ℤ :=
  ((db.accountLines (·.upTo (some date)) a).map JournalLine.net).sum

/-- No revenue or expense account has a balance on the date. -/
def DB.SweptOn (db : DB) (date : Date) : Prop :=
  ∀ a ∈ db.accounts, a.accountType.isIncome = true → db.balanceAt a date = 0

theorem swept_eq {db : DB} {date : Date} {a : Account} (ha : a ∈ db.accounts) (hi : a.accountType.isIncome = true)
    {l : JournalLine} (hl : l.accountId = a.id) :
    db.swept date l = (db.entries.find? l.journalEntryId).any (·.upTo (some date)) := by
  have hfind : db.accounts.find? l.accountId = some a := hl ▸ Table.find?_key ha
  have hacc : ((db.accounts.find? l.accountId).any fun a =>
      a.accountType = .revenue || a.accountType = .expense) = true := by
    rw [hfind, Option.any_some]
    cases ht : a.accountType <;> simp_all [AccountType.isIncome]
  rw [DB.swept, hacc, Bool.and_true]
  rfl

/-- What the sweep sums for an account is its balance. -/
theorem sum_balances {db : DB} {date : Date} {a : Account} (ha : a ∈ db.accounts)
    (hi : a.accountType.isIncome = true) :
    (((db.balances date).filter fun x => x.1 = some a.id).map Prod.snd).sum = db.balanceAt a date := by
  rw [DB.balances, sum_groupSums, List.filter_map, List.map_map, List.filter_filter, DB.balanceAt, DB.accountLines]
  congr 1
  refine congrArg₂ List.map rfl (List.filter_congr fun l _ => ?_)
  by_cases hl : l.accountId = a.id
  · simp [hl, swept_eq ha hi hl]
  · simp [hl]

theorem balances_eq_nil {db : DB} {date : Date} : db.balances date = [] ↔ db.SweptOn date := by
  constructor
  · intro h a ha hi
    rw [← sum_balances ha hi, h]
    rfl
  · intro h
    unfold DB.balances
    rw [groupSums_eq_nil]
    intro k
    by_cases hk : ∃ a ∈ db.accounts, a.accountType.isIncome = true ∧ k = some a.id
    · obtain ⟨a, ha, hi, rfl⟩ := hk
      rw [← sum_groupSums]
      exact (sum_balances ha hi).trans (h a ha hi)
    · -- the sweep counts no line of the key
      refine sum_filter_eq_zero fun x hx => ?_
      obtain ⟨l, hl, rfl⟩ := List.mem_map.1 hx
      rw [decide_eq_false_iff_not]
      intro e
      have hs := (List.mem_filter.1 hl).2
      rw [DB.swept, Bool.and_eq_true] at hs
      obtain ⟨a, ha, ht⟩ := (Option.any_eq_true ..).1 hs.2
      have hid : a.id = l.accountId := Table.key_of_find? ha
      refine hk ⟨a, Table.mem_of_find? ha, ?_, by rw [← e, hid]⟩
      cases hat : a.accountType <;> simp_all [AccountType.isIncome]

/-! ### Later entries -/

theorem upTo_eq_false {e : JournalEntry} {date : Date} (h : date < e.entryDate) : e.upTo (some date) = false := by
  simp [JournalEntry.upTo, h]

/-- New entries of later dates leave a balance as it is. -/
theorem Grown.balanceAt {db db' : DB} (hg : Grown db db') (ho : JournalOk db) {date : Date}
    (hnew : ∀ e ∈ db'.entries, e ∈ db.entries ∨ date < e.entryDate) (a : Account) :
    db'.balanceAt a date = db.balanceAt a date := by
  obtain ⟨ls, hls, hfree⟩ := hg.lines
  have hnone : ls.filter (fun l => (db'.entries.find? l.journalEntryId).any (·.upTo (some date)) &&
      l.accountId = a.id) = [] := by
    rw [List.filter_eq_nil_iff]
    intro l hl
    rw [Bool.and_eq_true, not_and]
    intro he
    obtain ⟨e, hf, hu⟩ := (Option.any_eq_true ..).1 he
    rcases hnew e (Table.mem_of_find? hf) with hold | hlater
    · exact absurd (Table.key_of_find? hf) (hfree l hl e hold)
    · rw [upTo_eq_false hlater] at hu
      cases hu
  have hsame : db.lines.rows.filter (fun l => (db'.entries.find? l.journalEntryId).any (·.upTo (some date)) &&
      l.accountId = a.id) = db.accountLines (·.upTo (some date)) a := by
    refine List.filter_congr fun l hl => ?_
    obtain ⟨e, he, hid⟩ := ho.owned l hl
    have hf : db.entries.find? l.journalEntryId = some e := hid ▸ Table.find?_key he
    rw [hf, hg.find? hf]
  rw [DB.balanceAt, DB.accountLines, hls, List.filter_append, hnone, List.append_nil, hsame]
  rfl

theorem balanceAt_congr {db db' : DB} (he : db'.entries = db.entries) (hl : db'.lines = db.lines) (a : Account)
    (date : Date) : db'.balanceAt a date = db.balanceAt a date := by
  unfold DB.balanceAt DB.accountLines
  rw [he, hl]

theorem DB.SweptOn.congr {db db' : DB} {date : Date} (h : db.SweptOn date) (ha : db'.accounts = db.accounts)
    (hb : ∀ a, db'.balanceAt a date = db.balanceAt a date) : db'.SweptOn date := by
  intro a ham hi
  rw [hb]
  exact h a (ha ▸ ham) hi

/-! ### The closing entry -/

/-- The closing lines take the balances back and put their total on the account of the retained earnings. -/
theorem sum_closingLinesFrom (retained : ℕ) (name : String) (total : ℤ) (k : ℕ) (bal : List (Option ℕ × ℤ)) (n : ℕ) :
    (((closingLinesFrom retained name total n bal).filter fun l => l.accountId = some k).map fun l =>
      l.baseDebit - l.baseCredit).sum =
        (if k = retained then total else 0) - ((bal.filter fun x => x.1 = some k).map Prod.snd).sum := by
  induction bal generalizing n with
  | nil =>
    unfold closingLinesFrom
    have hsigned := max_zero_sub_max_neg_zero_eq_self total
    by_cases hk : k = retained
    · subst hk
      by_cases ht : total = 0
      · simp [ht]
      · simpa [NewLine.signed, ht] using hsigned
    · have hne : retained ≠ k := fun e => hk e.symm
      by_cases ht : total = 0
      · simp [ht]
      · simp [NewLine.signed, ht, hk, hne]
  | cons x bal ih =>
    obtain ⟨account, b⟩ := x
    unfold closingLinesFrom
    by_cases ha : account = some k
    · have hsigned := max_zero_sub_max_neg_zero_eq_self (-b)
      simp only [NewLine.signed, ha, List.filter_cons, decide_true, if_true, List.map_cons, List.sum_cons, ih, hsigned]
      omega
    · simp only [NewLine.signed, ha, List.filter_cons, decide_false, Bool.false_eq_true, if_false, ih]

theorem sum_becomes {je k : ℕ} {ls : List NewLine} {rows : List JournalLine}
    (h : List.Forall₂ (NewLine.Becomes je) ls rows) :
    ((rows.filter fun l => l.accountId = k).map JournalLine.net).sum =
      ((ls.filter fun l => l.accountId = some k).map fun l => l.baseDebit - l.baseCredit).sum := by
  induction h with
  | nil => rfl
  | cons hb _ ih =>
    obtain ⟨id, account, ha, rfl⟩ := hb
    by_cases hk : account = k
    · simp [NewLine.row, JournalLine.net, ha, hk, ih]
    · simpa [NewLine.row, ha, hk] using ih

/-- An entry without lines changes no balance. -/
theorem balances_withEntry {db : DB} {e : JournalEntry} (ho : JournalOk db) (hf : db.entries.Free e.id) (date : Date) :
    (db.withEntry e).balances date = db.balances date := by
  unfold DB.balances
  congr 2
  refine List.filter_congr fun l hl => ?_
  obtain ⟨x, hx, hid⟩ := ho.owned l hl
  have hne : e.id ≠ l.journalEntryId := fun h => hf x hx (hid.trans h.symm)
  have hfind : (db.entries.insert e).find? l.journalEntryId = db.entries.find? l.journalEntryId :=
    Table.find?_insert_of_ne hne
  unfold DB.swept
  rw [show (db.withEntry e).entries = db.entries.insert e from rfl, hfind]
  rfl

/-- The lines of an account after an entry: those before, and those of the entry if it counts. -/
theorem Wrote.accountLines {lo : ℕ} {db db' : DB} {e : JournalEntry} {rows : List JournalLine}
    (h : Wrote lo db db' e rows) (ho : JournalOk db) (entry : JournalEntry → Bool) (a : Account) :
    db'.accountLines entry a =
      db.accountLines entry a ++ if entry e then rows.filter fun l => l.accountId = a.id else [] := by
  have hrows : db'.lines.rows = db.lines.rows ++ rows := by
    rw [h.eq]
    exact Table.rows_insertAll h.linesFree
  have hold : db.lines.rows.filter (fun l => (db'.entries.find? l.journalEntryId).any entry && l.accountId = a.id) =
      db.accountLines entry a := by
    refine List.filter_congr fun l hl => ?_
    obtain ⟨x, hx, hid⟩ := ho.owned l hl
    have hf : db.entries.find? l.journalEntryId = some x := hid ▸ Table.find?_key hx
    rw [hf, h.grown.find? hf]
  have hnew : rows.filter (fun l => (db'.entries.find? l.journalEntryId).any entry && l.accountId = a.id) =
      if entry e then rows.filter fun l => l.accountId = a.id else [] := by
    by_cases he : entry e = true
    · rw [if_pos he]
      refine List.filter_congr fun l hl => ?_
      rw [h.own l hl, h.find?, Option.any_some, he, Bool.true_and]
    · rw [if_neg he, List.filter_eq_nil_iff]
      intro l hl hc
      rw [h.own l hl, h.find?, Option.any_some, Bool.and_eq_true] at hc
      exact he hc.1
  rw [DB.accountLines, hrows, List.filter_append, hold, hnew]

/-- What the lines of an account add up to after an entry. -/
theorem Wrote.sum_accountLines {lo : ℕ} {db db' : DB} {e : JournalEntry} {rows : List JournalLine}
    (h : Wrote lo db db' e rows) (ho : JournalOk db) (entry : JournalEntry → Bool) (a : Account) :
    ((db'.accountLines entry a).map JournalLine.net).sum = ((db.accountLines entry a).map JournalLine.net).sum +
      if entry e then ((rows.filter fun l => l.accountId = a.id).map JournalLine.net).sum else 0 := by
  rw [h.accountLines ho, List.map_append, List.sum_append]
  split <;> rfl

/-- What the sweep sums for an account that is no income account. -/
theorem sum_balances_other {db : DB} {date : Date} {a : Account} (ha : a ∈ db.accounts)
    (hi : a.accountType.isIncome = false) :
    (((db.balances date).filter fun x => x.1 = some a.id).map Prod.snd).sum = 0 := by
  rw [DB.balances, sum_groupSums]
  refine sum_filter_eq_zero fun x hx => ?_
  obtain ⟨l, hl, rfl⟩ := List.mem_map.1 hx
  rw [decide_eq_false_iff_not]
  intro e
  have hs := (List.mem_filter.1 hl).2
  rw [DB.swept, Bool.and_eq_true] at hs
  have hfind : db.accounts.find? l.accountId = some a := Option.some.inj e ▸ Table.find?_key ha
  rw [hfind, Option.any_some] at hs
  cases ht : a.accountType <;> simp_all [AccountType.isIncome]

/-- What the sweep sums in all. -/
theorem total_balances (db : DB) (date : Date) : ((db.balances date).map Prod.snd).sum =
    ((db.accounts.rows.filter (·.accountType.isIncome)).map fun a => db.balanceAt a date).sum := by
  unfold DB.balanceAt
  rw [DB.balances, total_groupSums, sum_accountLines, List.map_map, DB.lineSum]
  congr 1
  refine congrArg₂ List.map rfl (List.filter_congr fun l _ => ?_)
  have hacc : (fun a : Account => decide (a.accountType = .revenue) || decide (a.accountType = .expense)) =
      fun a => a.accountType.isIncome := by
    funext a
    cases a.accountType <;> rfl
  rw [DB.swept, hacc]
  rfl

/-- What the closing entry adds to an account. -/
theorem sum_closing {lo : ℕ} {db db' : DB} {je period retained k : ℕ} {date : Date} {currency name : String}
    {rows : List JournalLine} (h : Wrote lo db db' (closingEntry je date period currency name) rows) (ho : JournalOk db)
    (hr : List.Forall₂ (NewLine.Becomes je) (closingLines date retained name
      (db.withEntry (closingEntry je date period currency name))) rows) :
    ((rows.filter fun l => l.accountId = k).map JournalLine.net).sum =
      (if k = retained then ((db.balances date).map Prod.snd).sum else 0) -
        (((db.balances date).filter fun x => x.1 = some k).map Prod.snd).sum := by
  have hlines := sum_becomes (k := k) hr
  unfold closingLines at hlines
  rw [balances_withEntry ho h.free] at hlines
  exact hlines.trans (sum_closingLinesFrom ..)

theorem ne_of_equity {db : DB} {retained : ℕ} (he : ∃ a, db.accounts.find? retained = some a ∧ a.accountType = .equity)
    {a : Account} (ha : a ∈ db.accounts) (hi : a.accountType.isIncome = true) : a.id ≠ retained := by
  obtain ⟨x, hx, ht⟩ := he
  intro e
  obtain rfl : a = x := Option.some.inj ((Table.find?_key ha).symm.trans ((congrArg db.accounts.find? e).trans hx))
  rw [ht] at hi
  cases hi

/-- The closing entry leaves no revenue or expense balance on its date. -/
theorem Wrote.sweptOn {lo : ℕ} {db db' : DB} {je period retained : ℕ} {date : Date} {currency name : String}
    {rows : List JournalLine} (h : Wrote lo db db' (closingEntry je date period currency name) rows) (ho : JournalOk db)
    (hr : List.Forall₂ (NewLine.Becomes je) (closingLines date retained name
      (db.withEntry (closingEntry je date period currency name))) rows)
    (he : ∃ a, db.accounts.find? retained = some a ∧ a.accountType = .equity) : db'.SweptOn date := by
  intro a ha hi
  have hacc : db'.accounts = db.accounts := by rw [h.eq]
  rw [hacc] at ha
  have hsum := h.sum_accountLines ho (·.upTo (some date)) a
  have hup : (closingEntry je date period currency name).upTo (some date) = true := by
    simp [JournalEntry.upTo, closingEntry]
  rw [if_pos hup, sum_closing h ho hr, if_neg (ne_of_equity he ha hi), sum_balances ha hi] at hsum
  unfold DB.balanceAt at hsum ⊢
  omega
