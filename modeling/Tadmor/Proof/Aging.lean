import Tadmor.Model.Aging
import Tadmor.Proof.Balances
import Tadmor.Proof.Exchange
import Tadmor.Proof.Reports

/-!
# The aging of what is owed

Every due date is in one of the buckets, so the buckets of a party sum to what it owes.  The amounts are those of the
documents, whatever their currency: they are amounts in the base currency only if the documents were posted at rates that
do not change them.
-/

/-! ### Days between dates -/

/-- The first day of a year -/
def daysToYear (y : ℕ) : ℕ := 365 * y + (y + 3) / 4 - (y + 99) / 100 + (y + 399) / 400

/-- The days of the months before `m + 1` -/
def daysToMonth (y m : ℕ) : ℕ := ((List.range m).map fun m => daysInMonth y (m + 1)).sum

theorem daysToYear_succ (y : ℕ) : daysToYear (y + 1) = daysToYear y + if isLeap y then 366 else 365 := by
  have h4 : (y + 1 + 3) / 4 = (y + 3) / 4 + if y % 4 = 0 then 1 else 0 := by split_ifs <;> omega
  have h100 : (y + 1 + 99) / 100 = (y + 99) / 100 + if y % 100 = 0 then 1 else 0 := by split_ifs <;> omega
  have h400 : (y + 1 + 399) / 400 = (y + 399) / 400 + if y % 400 = 0 then 1 else 0 := by split_ifs <;> omega
  have hle : (y + 99) / 100 ≤ 365 * y + (y + 3) / 4 := by omega
  have h₁ : y % 400 = 0 → y % 100 = 0 := by omega
  have h₂ : y % 100 = 0 → y % 4 = 0 := by omega
  simp only [daysToYear, h4, h100, h400, isLeap, Bool.and_eq_true, Bool.or_eq_true, decide_eq_true_eq]
  generalize (y + 3) / 4 = a, (y + 99) / 100 = b, (y + 399) / 400 = c at *
  split_ifs <;> simp_all <;> omega

theorem daysToYear_mono : Monotone daysToYear := by
  refine monotone_nat_of_le_succ fun y => ?_
  rw [daysToYear_succ]
  exact Nat.le_add_right _ _

theorem daysToMonth_succ (y m : ℕ) : daysToMonth y (m + 1) = daysToMonth y m + daysInMonth y (m + 1) := by
  rw [daysToMonth, daysToMonth, List.range_succ, List.map_append, List.sum_append, List.map_singleton,
    List.sum_singleton]

theorem daysToMonth_mono (y : ℕ) : Monotone (daysToMonth y) := by
  refine monotone_nat_of_le_succ fun m => ?_
  rw [daysToMonth_succ]
  exact Nat.le_add_right _ _

theorem daysToMonth_twelve (y : ℕ) : daysToMonth y 12 = if isLeap y then 366 else 365 := by
  simp only [daysToMonth, daysInMonth, List.range_succ, List.range_zero, List.nil_append, List.map_append,
    List.map_cons, List.map_nil, List.sum_append, List.sum_cons, List.sum_nil]
  cases isLeap y with
  | false => rfl
  | true => rfl

namespace Date

theorem dayNumber_eq (d : Date) : d.dayNumber = daysToYear d.year + daysToMonth d.year (d.month - 1) + (d.day - 1) := rfl

/-- A day is within its year and within its month. -/
theorem dayNumber_lt (d : Date) : d.dayNumber < daysToYear d.year + daysToMonth d.year d.month ∧
    d.dayNumber < daysToYear (d.year + 1) := by
  have hv := d.valid
  have hmonth := daysToMonth_succ d.year (d.month - 1)
  have hsucc : d.month - 1 + 1 = d.month := by omega
  have htwelve := daysToMonth_mono d.year hv.2.1
  rw [hsucc] at hmonth
  rw [dayNumber_eq, daysToYear_succ, ← daysToMonth_twelve]
  omega

theorem dayNumber_lt_of_lt {a b : Date} (h : a < b) : a.dayNumber < b.dayNumber := by
  have ha := a.dayNumber_lt
  have hva := a.valid
  have hvb := b.valid
  have hla := daysInMonth_le a.year a.month
  have hlb := daysInMonth_le b.year b.month
  rw [lt_iff, rank, rank] at h
  rw [dayNumber_eq b]
  by_cases hy : a.year < b.year
  · have hyear := daysToYear_mono (show a.year + 1 ≤ b.year by omega)
    omega
  · obtain hy : a.year = b.year := by omega
    rw [hy] at ha
    by_cases hm : a.month < b.month
    · have hmonth := daysToMonth_mono b.year (show a.month ≤ b.month - 1 by omega)
      omega
    · obtain hm : a.month = b.month := by omega
      rw [dayNumber_eq, hy, hm]
      omega

/-- The number of days has the order of the dates. -/
theorem daysSince_pos {today d : Date} : 0 < today.daysSince d ↔ d < today := by
  rw [daysSince]
  constructor
  · intro h
    by_contra hle
    rcases (not_lt.1 hle).eq_or_lt with rfl | hlt
    · omega
    · have := dayNumber_lt_of_lt hlt
      omega
  · intro h
    have := dayNumber_lt_of_lt h
    omega

end Date

/-! ### Buckets -/

namespace Bucket

/-- The bucket of a due date -/
def of (today : Date) : Option Date → Bucket
  | none => notYetDue
  | some d =>
    if today ≤ d then notYetDue
    else if today.daysSince d ≤ 30 then days1To30
    else if today.daysSince d ≤ 60 then days31To60
    else if today.daysSince d ≤ 90 then days61To90
    else daysOver90

/-- A due date satisfies the condition of its bucket and no other. -/
theorem holds_iff {today : Date} {b : Bucket} {due : Option Date} : b.holds today due = true ↔ b = of today due := by
  cases due with
  | none => cases b <;> simp [holds, of]
  | some d =>
    have hpos : 0 < today.daysSince d ↔ d < today := Date.daysSince_pos
    have hle : today ≤ d ↔ today.daysSince d ≤ 0 := by rw [← not_lt, ← hpos, not_lt]
    rw [of]
    cases b <;> simp only [holds, Option.all_some, Option.any_some, decide_eq_true_eq, Bool.and_eq_true, ← hpos, hle] <;>
      split_ifs <;> simp only [iff_true, iff_false] <;> omega

theorem existsUnique (today : Date) (due : Option Date) : ∃! b : Bucket, b.holds today due = true :=
  ⟨of today due, holds_iff.2 rfl, fun _ hb => holds_iff.1 hb⟩

end Bucket

def AgingRow.amount (r : AgingRow) : Bucket → ℤ
  | .notYetDue => r.notYetDue
  | .days1To30 => r.days1To30
  | .days31To60 => r.days31To60
  | .days61To90 => r.days61To90
  | .daysOver90 => r.daysOver90

namespace DB

variable {db : DB} {side : Side} {today : Date}

theorem mem_agedDocs {d : Doc} : d ∈ db.agedDocs side ↔ d ∈ db.docs ∧ d.kind = side.invoice ∧ d.status = .posted ∧
    0 < (db.invoiceBalance side d).balance := by
  rw [agedDocs, List.mem_filter, Table.mem_rows]
  simp only [Bool.and_eq_true, decide_eq_true_eq, and_assoc]

/-- The document counts in the bucket. -/
def InBucket (db : DB) (side : Side) (today : Date) (b : Bucket) (d : Doc) : Prop :=
  d ∈ db.agedDocs side ∧ b.holds today d.dueDate = true

/-- An open document is in one bucket, any other document in none. -/
theorem inBucket_cases {d : Doc} (hd : d ∈ db.docs) (hk : d.kind = side.invoice) :
    (d.status = .posted ∧ 0 < (db.invoiceBalance side d).balance → ∃! b, db.InBucket side today b d) ∧
      (d.status ≠ .posted ∨ (db.invoiceBalance side d).balance ≤ 0 → ∀ b, ¬db.InBucket side today b d) := by
  constructor
  · rintro ⟨hs, hb⟩
    have hopen : d ∈ db.agedDocs side := mem_agedDocs.2 ⟨hd, hk, hs, hb⟩
    obtain ⟨b, hholds, hunique⟩ := Bucket.existsUnique today d.dueDate
    exact ⟨b, ⟨hopen, hholds⟩, fun b' hb' => hunique b' hb'.2⟩
  · rintro hclosed b ⟨hopen, -⟩
    obtain ⟨-, -, hs, hb⟩ := mem_agedDocs.1 hopen
    rcases hclosed with hns | hle
    · exact hns hs
    · omega

/-- The sum over all dates is the sum over the buckets. -/
theorem agingSum_buckets (party : ℕ) : db.agingSum side party (fun _ => true) =
    db.agingSum side party (Bucket.notYetDue.holds today) + db.agingSum side party (Bucket.days1To30.holds today) +
      db.agingSum side party (Bucket.days31To60.holds today) + db.agingSum side party (Bucket.days61To90.holds today) +
      db.agingSum side party (Bucket.daysOver90.holds today) := by
  simp only [agingSum]
  induction db.agedDocs side with
  | nil => rfl
  | cons d ds ih =>
    have hholds : ∀ b, b.holds today d.dueDate = decide (b = Bucket.of today d.dueDate) := fun b => by
      rw [Bool.eq_iff_iff, Bucket.holds_iff, decide_eq_true_eq]
    by_cases hp : d.partyId = party
    · cases hb : Bucket.of today d.dueDate <;>
        simp only [List.filter_cons, hholds, hb, hp, decide_true, decide_false, Bool.and_true, Bool.and_false, if_true,
          reduceCtorEq, Bool.false_eq_true, if_false, List.map_cons, List.sum_cons] at ih ⊢ <;>
        omega
    · simp only [List.filter_cons, hp, decide_false, Bool.false_and, Bool.false_eq_true, if_false]
      exact ih

theorem agingSum_nonneg (party : ℕ) (cond : Option Date → Bool) : 0 ≤ db.agingSum side party cond := by
  refine List.sum_nonneg fun x hx => ?_
  obtain ⟨d, hd, rfl⟩ := List.mem_map.1 hx
  exact (mem_agedDocs.1 (List.mem_of_mem_filter hd)).2.2.2.le

theorem agingRow_sum (party : ℕ) : (db.agingRow side today party).notYetDue + (db.agingRow side today party).days1To30 +
    (db.agingRow side today party).days31To60 + (db.agingRow side today party).days61To90 +
    (db.agingRow side today party).daysOver90 = (db.agingRow side today party).totalOutstanding :=
  (agingSum_buckets party).symm

theorem mem_aging {r : AgingRow} : r ∈ db.aging side today ↔
    ∃ c ∈ db.parties, c.side = side ∧ (∃ d ∈ db.agedDocs side, d.partyId = c.id) ∧ r = db.agingRow side today c.id := by
  simp only [aging, List.mem_filterMap, List.mem_insertionSort, List.mem_filter, decide_eq_true_eq, Table.mem_rows]
  constructor
  · rintro ⟨c, ⟨hc, hs⟩, hr⟩
    split_ifs at hr with hany
    obtain rfl := Option.some.inj hr
    obtain ⟨d, hd, hp⟩ := List.any_eq_true.1 hany
    exact ⟨c, hc, hs, ⟨d, hd, of_decide_eq_true hp⟩, rfl⟩
  · rintro ⟨c, hc, hs, ⟨d, hd, hp⟩, rfl⟩
    exact ⟨c, ⟨hc, hs⟩, if_pos (List.any_eq_true.2 ⟨d, hd, decide_eq_true hp⟩)⟩

theorem totalOutstanding_eq {r : AgingRow} (hr : r ∈ db.aging side today) : r.totalOutstanding =
    (((db.agedDocs side).filter fun d => d.partyId = r.partyId).map fun d => (db.invoiceBalance side d).balance).sum := by
  obtain ⟨c, -, -, -, rfl⟩ := mem_aging.1 hr
  have htotal : (db.agingRow side today c.id).totalOutstanding = db.agingSum side c.id fun _ => true := rfl
  rw [htotal, agingSum]
  simp only [Bool.and_true]
  rfl

/-- Each party has one row, and they are in the order of the ids. -/
theorem aging_sorted : ((db.aging side today).map AgingRow.partyId).Pairwise (· < ·) := by
  have hle : ((db.parties.rows.filter fun c => c.side = side).insertionSort fun c c' => c.id ≤ c'.id).Pairwise
      fun c c' => c.id ≤ c'.id := List.pairwise_insertionSort ..
  have hne : ((db.parties.rows.filter fun c => c.side = side).insertionSort fun c c' => c.id ≤ c'.id).Pairwise
      fun c c' => c.id ≠ c'.id := by
    refine List.Pairwise.perm ?_ (List.perm_insertionSort ..).symm Ne.symm
    exact pairwise_key_ne db.parties fun c => decide (c.side = side)
  rw [aging, List.pairwise_map, List.pairwise_filterMap]
  refine (hle.and hne).imp fun {c c'} h r hr r' hr' => ?_
  split_ifs at hr with hc
  split_ifs at hr' with hc'
  obtain rfl := Option.some.inj hr
  obtain rfl := Option.some.inj hr'
  exact lt_of_le_of_ne h.1 h.2

end DB

/-! ### The report -/

theorem fits_of_le {x y : ℤ} (h : 0 ≤ x) (hle : x ≤ y) (hy : fits y = true) : fits x = true := by
  rw [fits, decide_eq_true_eq] at hy ⊢
  omega

theorem numeric_of_fits {x : ℤ} (h : fits x = true) : numeric x = .ok x := if_pos h

/-- The cast fails when a total does not fit; a bucket is no larger than the total. -/
theorem castAging_eq {rs : List AgingRow} (h : ∀ r ∈ rs, ∀ b, 0 ≤ r.amount b ∧ r.amount b ≤ r.totalOutstanding) :
    castAging rs = if rs.all fun r => fits r.totalOutstanding then .ok rs else .error overflow := by
  induction rs with
  | nil => rfl
  | cons r rs ih =>
    have ih := ih fun r hr => h r (List.mem_cons_of_mem _ hr)
    rw [castAging, ih, List.all_cons]
    by_cases hr : fits r.totalOutstanding = true
    · have hb : ∀ b, numeric (r.amount b) = .ok (r.amount b) := by
        intro b
        obtain ⟨hpos, hle⟩ := h r (List.mem_cons_self ..) b
        exact numeric_of_fits (fits_of_le hpos hle hr)
      have h₁ : numeric r.notYetDue = .ok r.notYetDue := hb .notYetDue
      have h₂ : numeric r.days1To30 = .ok r.days1To30 := hb .days1To30
      have h₃ : numeric r.days31To60 = .ok r.days31To60 := hb .days31To60
      have h₄ : numeric r.days61To90 = .ok r.days61To90 := hb .days61To90
      have h₅ : numeric r.daysOver90 = .ok r.daysOver90 := hb .daysOver90
      rw [numeric_of_fits hr, h₁, h₂, h₃, h₄, h₅, hr, Bool.true_and]
      split
      · rfl
      · rfl
    · have hnot : numeric r.totalOutstanding = .error overflow := if_neg hr
      have hfalse : fits r.totalOutstanding = false := Bool.eq_false_iff.2 hr
      rw [hnot, hfalse, Bool.false_and]
      rfl

theorem aging_eq (side : Side) (today : Date) (db : DB) : Aging side today db =
    if (db.aging side today).all fun r => fits r.totalOutstanding then .ok (db.aging side today)
    else .error overflow := by
  refine castAging_eq fun r hr b => ?_
  obtain ⟨c, -, -, -, rfl⟩ := DB.mem_aging.1 hr
  have hsum : (db.agingRow side today c.id).notYetDue + (db.agingRow side today c.id).days1To30 +
      (db.agingRow side today c.id).days31To60 + (db.agingRow side today c.id).days61To90 +
      (db.agingRow side today c.id).daysOver90 = (db.agingRow side today c.id).totalOutstanding :=
    DB.agingRow_sum c.id
  have hnonneg : ∀ b, 0 ≤ (db.agingRow side today c.id).amount b := fun b => by
    cases b <;> exact DB.agingSum_nonneg _ _
  have h₁ := hnonneg .notYetDue
  have h₂ := hnonneg .days1To30
  have h₃ := hnonneg .days31To60
  have h₄ := hnonneg .days61To90
  have h₅ := hnonneg .daysOver90
  refine ⟨hnonneg b, ?_⟩
  cases b <;> simp only [AgingRow.amount] at h₁ h₂ h₃ h₄ h₅ ⊢ <;> omega

/-- The buckets of a party sum to what it owes, every open document is in one of them and no other document in any, and
the parties with open documents are those of the report. -/
theorem aging_partitions {s : Store DB} (h : Reachable s) (side : Side) (today : Date) :
    (∀ r ∈ s.db.aging side today,
      r.notYetDue + r.days1To30 + r.days31To60 + r.days61To90 + r.daysOver90 = r.totalOutstanding ∧
      r.totalOutstanding = (((s.db.agedDocs side).filter fun d => d.partyId = r.partyId).map fun d =>
        (s.db.invoiceBalance side d).balance).sum ∧
      ∀ b, r.amount b = (((s.db.agedDocs side).filter fun d => d.partyId = r.partyId && b.holds today d.dueDate).map
        fun d => (s.db.invoiceBalance side d).balance).sum) ∧
      (∀ d ∈ s.db.docs, d.kind = side.invoice →
        (d.status = .posted ∧ 0 < (s.db.invoiceBalance side d).balance → ∃! b, s.db.InBucket side today b d) ∧
        (d.status ≠ .posted ∨ (s.db.invoiceBalance side d).balance ≤ 0 → ∀ b, ¬s.db.InBucket side today b d)) ∧
      (∀ party, (∃ r ∈ s.db.aging side today, r.partyId = party) ↔ ∃ d ∈ s.db.docs, d.kind = side.invoice ∧
        d.partyId = party ∧ d.status = .posted ∧ 0 < (s.db.invoiceBalance side d).balance) ∧
      ((s.db.aging side today).map AgingRow.partyId).Pairwise (· < ·) ∧
      Aging side today s.db = if (s.db.aging side today).all fun r => fits r.totalOutstanding
        then .ok (s.db.aging side today) else .error overflow := by
  refine ⟨fun r hr => ?_, fun d hd hk => DB.inBucket_cases hd hk, fun party => ?_, DB.aging_sorted, aging_eq _ _ _⟩
  · have htotal := DB.totalOutstanding_eq hr
    obtain ⟨c, -, -, -, rfl⟩ := DB.mem_aging.1 hr
    refine ⟨DB.agingRow_sum c.id, htotal, fun b => ?_⟩
    cases b <;> rfl
  · constructor
    · rintro ⟨r, hr, rfl⟩
      obtain ⟨c, -, -, ⟨d, hd, hp⟩, rfl⟩ := DB.mem_aging.1 hr
      obtain ⟨hd, hk, hs, hb⟩ := DB.mem_agedDocs.1 hd
      exact ⟨d, hd, hk, hp, hs, hb⟩
    · rintro ⟨d, hd, hk, rfl, hs, hb⟩
      obtain ⟨-, -, hparty⟩ := h.rowsChecked.rows.2.2.1 d hd
      obtain ⟨c, hc⟩ := Option.isSome_iff_exists.1 hparty
      obtain ⟨hf, hside⟩ := Option.filter_eq_some_iff.1 hc
      have hid : c.id = d.partyId := Table.key_of_find? hf
      have hside : c.side = side := by
        rw [hk] at hside
        cases side <;> exact of_decide_eq_true hside
      exact ⟨_, DB.mem_aging.2 ⟨c, Table.mem_of_find? hf, hside, ⟨d, DB.mem_agedDocs.2 ⟨hd, hk, hs, hb⟩, hid.symm⟩, rfl⟩, hid⟩

/-- The opening invoice of 100 dollars, posted and not due yet. -/
theorem aging_partitions_opening : ∃ s : Store DB,
    (s.db.aging .sales march6).map (fun r => (r.partyId, r.totalOutstanding, r.notYetDue)) =
      [(14, dollars 100, dollars 100)] ∧
    ∀ r ∈ s.db.aging .sales march6,
      r.notYetDue + r.days1To30 + r.days31To60 + r.days61To90 + r.daysOver90 = r.totalOutstanding := by
  obtain ⟨s, hs, hp⟩ := exists_reachable (opening ++ [.postDoc .salesInvoice 15])
    (p := fun s => (s.db.aging .sales march6).map (fun r => (r.partyId, r.totalOutstanding, r.notYetDue)) =
      [(14, dollars 100, dollars 100)]) (by decide +kernel)
  exact ⟨s, of_decide_eq_true hp, fun r hr => ((aging_partitions hs .sales march6).1 r hr).1⟩

/-! ### Currencies -/

/-- A rate that does not change an amount does not change a part of it. -/
theorem toBase_eq_of_le {x t rate : ℤ} (hx : 0 ≤ x) (hle : x ≤ t) (ht : 0 < t) (h : toBase t rate = t) :
    toBase x rate = x :=
  roundDiv_mul_eq_of_le (by omega) hx hle ht h

namespace DB

/-- The rate of the document's entry -/
def docRate (db : DB) (d : Doc) : ℤ := (d.journalEntryId.map db.entryRate).getD 0

/-- The operation posts no invoice or bill at a rate that changes its total. -/
def postsInBase (db : DB) : Op → Bool
  | .postDoc kind id => kind ≠ .salesInvoice && kind ≠ .purchaseBill ||
      (db.docs.find? id).all fun d => (db.rateFor d.currencyCode d.date).all fun rate => toBase d.total rate = d.total
  | _ => true

/-- No posted invoice or bill has a total that the rate of its entry changes. -/
def InvoicesInBase (db : DB) : Prop := ∀ side : Side, ∀ d ∈ db.docs, d.kind = side.invoice → d.status = .posted →
  toBase d.total (db.docRate d) = d.total

end DB

/-- A posting at such a rate, and any other operation, leaves the invoices so. -/
theorem DB.InvoicesInBase.step {op : Op} {gaps : ℕ → ℕ} {s s' : Store DB} (hs : Reachable s) (hok : s.db.InvoicesInBase)
    (h : (transaction op).commit gaps s = .ok ((), s')) (hop : s.db.postsInBase op = true) : s'.db.InvoicesInBase := by
  obtain ⟨heff, -⟩ := commit_effect h hs.fresh
  have hg := heff.journaled.grown
  intro side d hd hk hp
  rcases heff.posted_docs hd hp with hold | ⟨kind, x, rfl, hx, hdraft⟩
  · obtain ⟨je, hje, e, he, rfl, -⟩ := hs.agrees.docs d hold hp
    have hsame := hok side d hold hk hp
    rw [DB.docRate, hje, Option.map_some, Option.getD_some] at hsame ⊢
    rwa [hg.entryRate he]
  · -- the operation has posted the document, at the rate of its date
    obtain ⟨v, hrun, hv⟩ := run_of_commit h
    obtain ⟨je, hrun⟩ := run_void hrun
    obtain ⟨d₀, c, period, rate, before, details, l, row, mid, hpost, hdb, -⟩ := run_postDoc_lines hrun hs.fresh
    rw [hv] at hdb
    obtain ⟨hf, hk₀⟩ := docOf_eq_some.1 (docParty_eq_some.1 hpost.doc).1
    have hd' : s'.db.docs.find? d.id = some (d₀.posted je period) := by
      rw [hdb]
      exact Table.find?_update_self (f := (·.posted je period)) (fun _ => rfl) hf
    obtain rfl := Option.some.inj (hd'.symm.trans (Table.find?_key hd))
    have hrate : s'.db.entryRate je = rate := by
      have he := entryRate_of_mem (hpost.wrote.mem_entries.2 (.inr rfl))
      rw [hdb]
      exact he
    have hinv : ¬(kind ≠ .salesInvoice ∧ kind ≠ .purchaseBill) := by
      have hkind : kind.spec.kind = side.invoice := hk₀.symm.trans hk
      cases kind <;> cases side <;> first | (cases hkind; done) | decide
    have hbase : toBase d₀.total rate = d₀.total := by
      rw [DB.postsInBase, Bool.or_eq_true, Bool.and_eq_true, decide_eq_true_eq, decide_eq_true_eq, or_iff_right hinv, hf,
        Option.all_some, hpost.rate_eq, Option.all_some, decide_eq_true_eq] at hop
      exact hop
    have hje : (d₀.posted je period).journalEntryId = some je := rfl
    rw [DB.docRate, hje, Option.map_some, Option.getD_some, hrate]
    exact hbase

theorem Runs.invoicesInBase {s : Store DB} (h : Runs (fun s op => s.db.postsInBase op = true) seeded s) :
    s.db.InvoicesInBase := by
  induction h with
  | refl => exact fun side d hd => absurd hd (Table.not_mem_empty d)
  | step hrun hop hc ih => exact ih.step (hrun.reachable .start) hc hop

/-- As long as no invoice or bill is posted at a rate that changes its total, what a party owes is in base currency. -/
theorem aging_in_base {s : Store DB} (h : Runs (fun s op => s.db.postsInBase op = true) seeded s) (side : Side)
    (today : Date) : ∀ r ∈ s.db.aging side today, r.totalOutstanding =
      (((s.db.agedDocs side).filter fun d => d.partyId = r.partyId).map fun d =>
        toBase (s.db.invoiceBalance side d).balance (s.db.docRate d)).sum := by
  have hs := h.reachable .start
  rintro r hr
  rw [DB.totalOutstanding_eq hr]
  congr 1
  refine List.map_congr_left fun d hd => ?_
  obtain ⟨hd, hk, hp, hb⟩ := DB.mem_agedDocs.1 (List.mem_of_mem_filter hd)
  have hnonneg := hs.settledOk.amountSettled_nonneg d.id
  have hbalance := invoiceBalance_balance s.db side d
  rw [hs.settledOk.amountSettled_eq hd hk] at hnonneg
  exact (toBase_eq_of_le hb.le (by omega) (by omega) (h.invoicesInBase side d hd hk hp)).symm

/-- An invoice in euros posted at the rate 1, and 60 of its 100 euros paid. -/
theorem aging_in_base_at_par : ∃ s : Store DB,
    (s.db.aging .sales march6).map (fun r => (r.partyId, r.totalOutstanding)) = [(14, dollars 40)] ∧
    ∀ r ∈ s.db.aging .sales march6, r.totalOutstanding =
      (((s.db.agedDocs .sales).filter fun d => d.partyId = r.partyId).map fun d =>
        toBase (s.db.invoiceBalance .sales d).balance (s.db.docRate d)).sum := by
  have hany : (executeIf (fun s op => s.db.postsInBase op) [
      .createFiscalYear ⟨"FY2026", yearStart, yearEnd⟩,
      .createParty .sales (some 2),
      .createExchangeRate "EUR" march5 100000000,
      .createDoc .salesInvoice euroInvoice,
      .postDoc .salesInvoice 15,
      .createPayment .sales
        { partyId := 14, date := march6, currencyCode := "EUR", amount := dollars 60, cashAccountId := some 1 },
      .postPayment .sales 21,
      .autoApply .sales .payment 21] seeded).any fun s =>
        (s.db.aging .sales march6).map (fun r => (r.partyId, r.totalOutstanding)) = [(14, dollars 40)] := by
    decide +kernel
  obtain ⟨s, hs, h⟩ := (Option.any_eq_true ..).1 hany
  exact ⟨s, of_decide_eq_true h, aging_in_base (runs_executeIf hs) .sales march6⟩

/-- 100 euros posted at 1.1 are reported as 100, not as 110. -/
theorem aging_not_in_base : ¬∀ s : Store DB, Reachable s → ∀ (side : Side) (today : Date),
    ∀ r ∈ s.db.aging side today, r.totalOutstanding =
      (((s.db.agedDocs side).filter fun d => d.partyId = r.partyId).map fun d =>
        toBase (s.db.invoiceBalance side d).balance (s.db.docRate d)).sum := by
  intro hall
  obtain ⟨s, hs, h⟩ := exists_reachable [
      .createFiscalYear ⟨"FY2026", yearStart, yearEnd⟩,
      .createParty .sales (some 2),
      .createExchangeRate "EUR" march5 110000000,
      .createDoc .salesInvoice euroInvoice,
      .postDoc .salesInvoice 15]
    (p := fun s => (s.db.aging .sales march6).any fun r => r.totalOutstanding = dollars 100 &&
      (((s.db.agedDocs .sales).filter fun d => d.partyId = r.partyId).map fun d =>
        toBase (s.db.invoiceBalance .sales d).balance (s.db.docRate d)).sum = dollars 110) (by decide +kernel)
  obtain ⟨r, hr, h⟩ := List.any_eq_true.1 h
  simp only [Bool.and_eq_true, decide_eq_true_eq] at h
  have heq := hall s hs .sales march6 r hr
  rw [h.1, h.2] at heq
  revert heq
  decide
