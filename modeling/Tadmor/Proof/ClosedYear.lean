import Tadmor.Proof.Calendar
import Tadmor.Proof.Effects

/-!
# Closed years

What dates an operation can write entries of, and when a closed year gets no new entry.  The periods of a closed year
are closed, but nothing keeps a period of another year, or another year, away from its dates.
-/

/-! ### New entries -/

/-- The date of an entry. -/
def DB.dateOf (db : DB) (je : Option ℕ) : Option Date := (je.bind db.entries.find?).map (·.entryDate)

/-- The dates of what the operation posts and of the entries it reverses; the year end apart. -/
def Op.dates (op : Op) (db : DB) : List Date :=
  match op with
  | .postDoc kind id => ((db.docOf kind.spec.kind id).map (·.date)).toList
  | .postPayment side id => ((db.paymentOf side id).map (·.date)).toList
  | .postMovement id _ => ((db.movements.find? id).map (·.movementDate)).toList
  | .autoApply side settler id => ((db.settlerOf side settler id).map (·.date)).toList
  | .unpostInvoice side id => ((db.docOf side.invoice id).bind fun d => db.dateOf d.journalEntryId).toList
  | .unpostCreditNote side id => ((db.docOf side.creditNote id).bind fun d => db.dateOf d.journalEntryId).toList
  | .unpostPayment side id =>
    ((db.paymentOf side id).bind fun p => db.dateOf p.journalEntryId).toList ++
      (db.fxEntries side id).filterMap fun je => db.dateOf (some je)
  | .unpostMovement id => ((db.movements.find? id).bind fun m => db.dateOf m.journalEntryId).toList
  | _ => []

theorem mem_dates_unpost {kind : PostedKind} {db : DB} {d : Doc} {id : ℕ} {date : Date}
    (hd : db.docOf kind.spec.kind id = some d) (h : db.dateOf d.journalEntryId = some date) :
    date ∈ (kind.unpost id).dates db := by
  cases kind <;> exact Option.mem_toList.2 (Option.bind_eq_some_iff.2 ⟨d, hd, h⟩)

/-- The ways an operation can come to write an entry of the date. -/
inductive Op.WritesOn (op : Op) (db : DB) (date : Date) : Prop where
  | posts (h : date ∈ op.dates db) (hopen : db.OpenOn date)
  | closes (id retained : ℕ) (hop : op = .closeFiscalYear id retained) {fy : FiscalYear}
      (hfy : db.years.find? id = some fy) (hs : fy.status = .opened) (hdate : fy.endDate = date)
      (hsweep : db.balances date ≠ []) (hcan : db.CanClose date)
  | reopens (id : ℕ) (hop : op = .reopenFiscalYear id) (he : db.dateOf (db.closingOf id) = some date)

theorem dateOf_of_find? {db : DB} {je : ℕ} {e : JournalEntry} (h : db.entries.find? je = some e) :
    db.dateOf (some je) = some e.entryDate := by
  rw [DB.dateOf, Option.bind_some, h]
  rfl

theorem Wrote.new_entry {lo : ℕ} {db db' : DB} {e x : JournalEntry} {rows : List JournalLine}
    (h : Wrote lo db db' e rows) (hx : x ∈ db'.entries) : x ∈ db.entries ∨ x = e := by
  rw [h.eq] at hx
  exact Table.mem_of_mem_insert hx

/-- A reversal has the date of what it reverses. -/
theorem Reversed.new_entry {lo : ℕ} {db db' : DB} {e r x : JournalEntry} {rows : List JournalLine}
    (h : Reversed lo db db' e r rows) (hx : x ∈ db'.entries) :
    x ∈ db.entries ∨ x = r ∧ db.dateOf (some e.id) = some x.entryDate := by
  rcases h.wrote.new_entry hx with hx | rfl
  · exact .inl hx
  · have hdate : x.entryDate = e.entryDate := by
      rw [h.reversal]
      rfl
    exact .inr ⟨rfl, hdate ▸ dateOf_of_find? h.old⟩

theorem FxPosted.new_entry {lo : ℕ} {own : JournalEntry → Application → Prop} {db db' : DB}
    (h : FxPosted lo own db db') {x : JournalEntry} (hx : x ∈ db'.entries) :
    x ∈ db.entries ∨ db.OpenOn x.entryDate ∧ ∃ a, own x a := by
  induction h with
  | nil db => exact .inl hx
  | cons hw he ha hfx hown hpost _ ih =>
    rcases ih hx with hx | ⟨hopen, hx⟩
    · rcases hw.new_entry hx with hx | rfl
      · exact .inl hx
      · exact .inr ⟨hpost.date, _, hown⟩
    · exact .inr ⟨hpost.less _ hopen, hx⟩

theorem ReversedAll.new_entry {lo : ℕ} {es : List ℕ} {db db' : DB} (h : ReversedAll lo es db db') {x : JournalEntry}
    (hx : x ∈ db'.entries) :
    x ∈ db.entries ∨ db.OpenOn x.entryDate ∧ ∃ je ∈ es, db.dateOf (some je) = some x.entryDate := by
  induction h with
  | nil db => exact .inl hx
  | @cons db mid db' e r rows es h hpost _ ih =>
    have hr : db.dateOf (some e.id) = some r.entryDate := by
      have hdate : r.entryDate = e.entryDate := by
        rw [h.reversal]
        rfl
      exact hdate ▸ dateOf_of_find? h.old
    rcases ih hx with hx | ⟨hopen, je, hje, hon⟩
    · rcases h.new_entry hx with hx | ⟨rfl, hon⟩
      · exact .inl hx
      · exact .inr ⟨hpost.date, e.id, List.mem_cons_self .., hon⟩
    · refine .inr ⟨hpost.less _ hopen, ?_⟩
      obtain ⟨y, hy, hdate⟩ := Option.map_eq_some_iff.1 hon
      rw [Option.bind_some] at hy
      rcases h.wrote.new_entry (Table.mem_of_find? hy) with hold | rfl
      · have hid : y.id = je := Table.key_of_find? hy
        refine ⟨je, List.mem_cons_of_mem _ hje, ?_⟩
        rw [← hid, ← hdate]
        exact dateOf_of_find? (Table.find?_key hold)
      · exact ⟨e.id, List.mem_cons_self .., hdate ▸ hr⟩

theorem Effect.new_entry {lo : ℕ} {op : Op} {db db' : DB} (h : Effect lo op db db') {x : JournalEntry}
    (hx : x ∈ db'.entries) : x ∈ db.entries ∨ op.WritesOn db x.entryDate := by
  cases h with
  | outside h => exact .inl (h.entries ▸ hx)
  | docEdit id h =>
    rw [h.eq] at hx
    exact .inl hx
  | paymentEdit id h =>
    rw [h.eq] at hx
    exact .inl hx
  | movementEdit h =>
    rw [h.eq] at hx
    exact .inl hx
  | postDoc kind id hd hs ht hw he hdate hcur hc hpost =>
    rcases hw.new_entry hx with hx | rfl
    · exact .inl hx
    · exact .inr (.posts (by simp [Op.dates, hd, hdate]) hpost.date)
  | postPayment side id hp hs ht hw he hdate hcur hc hpost =>
    rcases hw.new_entry hx with hx | rfl
    · exact .inl hx
    · exact .inr (.posts (by simp [Op.dates, hp, hdate]) hpost.date)
  | postMovement id hm hj hw he hpost hdate =>
    rcases hw.new_entry hx with hx | rfl
    · exact .inl hx
    · exact .inr (.posts (by simp [Op.dates, hm, hdate]) hpost.date)
  | autoApply side settler id n hn hc hfree hfx hch =>
    rcases hfx.new_entry hx with hx | ⟨hopen, a, -, s, hs, hdate⟩
    · exact .inl hx
    · exact .inr (.posts (by simp [Op.dates, hs, hdate]) (hopen.congr rfl rfl))
  | @unpostDoc op kind id db mid d e r rows hd hs hj happs hr hop hpost =>
    rcases hr.new_entry hx with hx | ⟨rfl, hon⟩
    · exact .inl hx
    · exact .inr (.posts (hop ▸ mem_dates_unpost hd (hj ▸ hon)) hpost.date)
  | unpostPayment hp hs hj hr =>
    rcases hr.new_entry hx with hx | ⟨hopen, je, hje, hon⟩
    · exact .inl hx
    · refine .inr (.posts ?_ hopen)
      rw [Op.dates, List.mem_append]
      rcases List.mem_cons.1 hje with rfl | hje
      · exact .inl (by simp [hp, hj, hon])
      · exact .inr (List.mem_filterMap.2 ⟨je, hje, hon⟩)
  | unpostMovement hm hj hr hpost =>
    rcases hr.new_entry hx with hx | ⟨rfl, hon⟩
    · exact .inl hx
    · exact .inr (.posts (by simp [Op.dates, hm, hj, hon]) hpost.date)
  | closeEmpty id hopen h =>
    rw [h.eq] at hx
    exact .inl hx
  | closeYear id hopen hw he h hclose =>
    rw [h.eq] at hx
    rcases hw.new_entry hx with hx | rfl
    · exact .inl hx
    · obtain ⟨retained, hop⟩ := hclose.op
      obtain ⟨fy, hfy, hs, hdate⟩ := hclose.year
      exact .inr (.closes id retained hop hfy hs hdate.symm hclose.sweep hclose.calendar)
  | reopenYear id hc hmid hlink hr hop =>
    rcases hr.new_entry hx with hx | ⟨rfl, hon⟩
    · rw [hmid] at hx
      exact .inl hx
    · refine .inr (.reopens id hop ?_)
      rw [hmid] at hon
      rw [hc]
      exact hon

/-- A new entry has a date that the operation can write entries of. -/
theorem commit_new_entry {op : Op} {gaps : ℕ → ℕ} {s s' : Store DB}
    (h : (transaction op).commit gaps s = .ok ((), s')) (hs : Fresh s.seq s.db) {x : JournalEntry}
    (hx : x ∈ s'.db.entries) : x ∈ s.db.entries ∨ op.WritesOn s.db x.entryDate := by
  obtain ⟨v, hrun, hpass, rfl⟩ := Prog.commit_eq_ok.1 h
  exact (run_effect op hrun hs hpass).new_entry hx

/-! ### A year stays closed -/

def DB.isClosed (db : DB) (year : ℕ) : Bool := (db.years.find? year).any (·.status = .closed)

def DB.within (db : DB) (year : ℕ) (date : Date) : Bool :=
  (db.years.find? year).any fun y => y.startDate ≤ date && date ≤ y.endDate

def Op.reopens (op : Op) (year : ℕ) : Bool :=
  match op with
  | .reopenFiscalYear id => id = year
  | _ => false

theorem any_of_eq_some {α : Type} {o : Option α} {a : α} {p : α → Bool} (h : o = some a) (hp : p a = true) :
    o.any p = true := by
  rw [h]
  exact hp

theorem isClosed_update {db : DB} {ks : List ℕ} {f : FiscalYear → FiscalYear} {hf : ∀ y, (f y).id = y.id} {year : ℕ}
    (h : db.isClosed year = true) (hkeep : ∀ y : FiscalYear, y.id = year → year ∈ ks → y.status = .closed →
      (f y).status = .closed) : { db with years := db.years.update ks f hf }.isClosed year = true := by
  obtain ⟨y, hy, hs⟩ := (Option.any_eq_true ..).1 h
  have hid : y.id = year := Table.key_of_find? hy
  have hs : y.status = .closed := of_decide_eq_true hs
  refine any_of_eq_some ((Table.find?_update hf db.years ks year).trans (by rw [hy, Option.map_some])) ?_
  by_cases hk : year ∈ ks
  · rw [if_pos hk]
    exact decide_eq_true (hkeep y hid hk hs)
  · rw [if_neg hk]
    exact decide_eq_true hs

theorem isClosed_insert {n year : ℕ} {db : DB} {y : FiscalYear} (hf : Fresh n db) (h : db.isClosed year = true)
    (hid : y.id = n) : { db with years := db.years.insert y }.isClosed year = true := by
  obtain ⟨x, hx, hc⟩ := (Option.any_eq_true ..).1 h
  refine any_of_eq_some ((Table.find?_insert_of_ne fun e => ?_).trans hx) hc
  exact absurd ((Table.key_of_find? hx).trans e.symm) (hf.years.free (hid ▸ le_rfl) x (Table.mem_of_find? hx))

theorem Change.isClosed {n year : ℕ} {db db' : DB} {op : Op} {cs : List (DB → Except Err Unit)}
    (h : Change n db op db' cs) (hf : Fresh n db) (hop : op.reopens year = false) (hi : db.isClosed year = true) :
    db'.isClosed year = true := by
  cases h with
  | elsewhere h =>
    unfold DB.isClosed
    rw [h.years]
    exact hi
  | closeYear id retained closing => exact isClosed_update hi fun _ _ _ _ => rfl
  | reopenYear id =>
    refine isClosed_update hi fun y _ hk _ => ?_
    obtain ⟨rfl, -⟩ := Table.mem_hit.1 hk
    exact absurd hop (by simp [Op.reopens])
  | newYear input h => exact isClosed_insert hf hi rfl
  | nextYear id retained endDate hd => exact isClosed_insert hf hi rfl
  | editYear id input hd => exact isClosed_update hi fun _ _ _ hs => hs
  | _ => exact hi

/-- Only its reopening opens a closed year. -/
theorem commit_isClosed {op : Op} {gaps : ℕ → ℕ} {s s' : Store DB} {year : ℕ}
    (h : (transaction op).commit gaps s = .ok ((), s')) (hs : Fresh s.seq s.db) (hop : op.reopens year = false)
    (hi : s.db.isClosed year = true) : s'.db.isClosed year = true := by
  obtain ⟨-, hclosed, -⟩ := commit_changes (I := fun db _ => db.isClosed year = true)
    (fun hf hi hc => hc.isClosed hf hop hi) h hs hi
  exact hclosed

/-! ### No entry in a closed year -/

/-- An open period of another year covers the date, or no period and an open year. -/
def DB.opensElsewhere (db : DB) (year : ℕ) (date : Date) : Bool :=
  (db.periods.rows.any fun p =>
    p.fiscalYearId ≠ year && p.status = .opened && p.startDate ≤ date && date ≤ p.endDate) ||
  (db.periods.rows.all fun p => !(p.startDate ≤ date && date ≤ p.endDate)) &&
    db.years.rows.any fun y => y.status = .opened && y.startDate ≤ date && date ≤ y.endDate

/-- A period of another year covers the date, and that year is open. -/
def DB.coveredElsewhere (db : DB) (year : ℕ) (date : Date) : Bool :=
  db.periods.rows.any fun p => p.fiscalYearId ≠ year && p.startDate ≤ date && date ≤ p.endDate &&
    db.years.rows.all fun y => y.id ≠ p.fiscalYearId || y.status = .opened

/-- The operation has something to write of the date, and another year lets it. -/
def Op.reachesInto (op : Op) (db : DB) (year : ℕ) (date : Date) : Bool :=
  match op with
  | .closeFiscalYear id _ =>
    ((db.years.find? id).any fun fy => fy.status = .opened && fy.endDate = date) && !(db.balances date).isEmpty &&
      (db.opensElsewhere year date || db.coveredElsewhere year date)
  | .reopenFiscalYear id => db.dateOf (db.closingOf id) = some date
  | op => date ∈ op.dates db && db.opensElsewhere year date

theorem opensElsewhere_of_openOn {db : DB} {year : ℕ} {date : Date} (hl : db.PeriodsLocked)
    (hc : db.isClosed year = true) (h : db.OpenOn date) : db.opensElsewhere year date = true := by
  obtain ⟨y, hy, hs⟩ := (Option.any_eq_true ..).1 hc
  have hs : y.status = .closed := of_decide_eq_true hs
  simp only [DB.opensElsewhere, Bool.or_eq_true, Bool.and_eq_true, List.any_eq_true, List.all_eq_true,
    Bool.not_eq_true', Bool.and_eq_false_iff, decide_eq_true_eq, decide_eq_false_iff_not]
  rcases h with ⟨p, hp, hopen, h₁, h₂⟩ | ⟨hno, x, hx, hopen, h₁, h₂⟩
  · -- the periods of the closed year are closed
    refine .inl ⟨p, hp, ⟨⟨fun e => ?_, hopen⟩, h₁⟩, h₂⟩
    have hshut := hl p hp y (Table.mem_of_find? hy) ((Table.key_of_find? hy).trans e.symm) hs
    rw [hopen] at hshut
    cases hshut
  · refine .inr ⟨fun p hp => ?_, x, hx, ⟨hopen, h₁⟩, h₂⟩
    by_cases h : p.startDate ≤ date
    · exact .inr fun h' => hno p hp ⟨h, h'⟩
    · exact .inl h

theorem elsewhere_of_canClose {db : DB} {year : ℕ} {date : Date} (hl : db.PeriodsLocked)
    (hc : db.isClosed year = true) (h : db.CanClose date) :
    (db.opensElsewhere year date || db.coveredElsewhere year date) = true := by
  rw [Bool.or_eq_true]
  rcases h with h | ⟨p, hp, ⟨h₁, h₂⟩, hopen⟩
  · exact .inl (opensElsewhere_of_openOn hl hc h)
  · right
    obtain ⟨y, hy, hs⟩ := (Option.any_eq_true ..).1 hc
    have hs : y.status = .closed := of_decide_eq_true hs
    simp only [DB.coveredElsewhere, List.any_eq_true, Bool.and_eq_true, List.all_eq_true, Bool.or_eq_true,
      decide_eq_true_eq]
    refine ⟨p, hp, ⟨⟨fun e => ?_, h₁⟩, h₂⟩, fun x hx => ?_⟩
    · have hshut := hopen y (Table.mem_of_find? hy) ((Table.key_of_find? hy).trans e.symm)
      rw [hs] at hshut
      cases hshut
    · by_cases he : x.id = p.fiscalYearId
      · exact .inr (hopen x hx he)
      · exact .inl he

/-- What an operation writes of a date while a year is closed, another year lets it write. -/
theorem Op.WritesOn.reachesInto {op : Op} {db : DB} {year : ℕ} {date : Date} (h : op.WritesOn db date)
    (hl : db.PeriodsLocked) (hc : db.isClosed year = true) : op.reachesInto db year date = true := by
  cases h with
  | posts h hopen =>
    have helse := opensElsewhere_of_openOn hl hc hopen
    cases op with
    | closeFiscalYear id retained => cases h
    | reopenFiscalYear id => cases h
    | _ => exact Bool.and_eq_true_iff.2 ⟨decide_eq_true h, helse⟩
  | closes id retained hop hfy hs hdate hsweep hcan =>
    subst hop
    simp only [Op.reachesInto, Bool.and_eq_true, Bool.not_eq_true', List.isEmpty_eq_false_iff]
    exact ⟨⟨any_of_eq_some hfy (by rw [Bool.and_eq_true]; exact ⟨decide_eq_true hs, decide_eq_true hdate⟩), hsweep⟩,
      elsewhere_of_canClose hl hc hcan⟩
  | reopens id hop he =>
    subst hop
    exact decide_eq_true he

/-- While a fiscal year is closed and no operation reopens it, it stays closed, and no entry of a date within it is
added, as long as no operation reaches into it through another year. -/
theorem closed_year_immutable {s s' : Store DB} (h : Reachable s) {year : ℕ} {date : Date}
    (hc : s.db.isClosed year = true)
    (hr : Runs (fun s op => s.db.within year date && !op.reopens year && !op.reachesInto s.db year date) s s') :
    s'.db.isClosed year = true ∧ ∀ e ∈ s'.db.entries, e.entryDate = date → e ∈ s.db.entries := by
  induction hr with
  | refl => exact ⟨hc, fun e he _ => he⟩
  | @step s' s'' op gaps hrun hp hs ih =>
    obtain ⟨hclosed, hold⟩ := ih
    have hmid := hrun.reachable h
    simp only [Bool.and_eq_true, Bool.not_eq_true'] at hp
    obtain ⟨⟨-, hop⟩, hout⟩ := hp
    refine ⟨commit_isClosed hs hmid.fresh hop hclosed, fun e he hdate => ?_⟩
    rcases commit_new_entry hs hmid.fresh he with he | hw
    · exact hold e he hdate
    · rw [hdate] at hw
      rw [hw.reachesInto hmid.calendar.1 hclosed] at hout
      cases hout

/-- A payment of April, when the year of March and April is closed and another year has the same dates. -/
theorem closed_year_immutable_march : ∃ s s' : Store DB, s.db.isClosed 13 = true ∧ s'.db.isClosed 13 = true ∧
    s'.db.entries.rows.map (·.entryDate) = s.db.entries.rows.map (·.entryDate) ++ [day 4 10] ∧
    ∀ e ∈ s'.db.entries, e.entryDate = day 3 5 → e ∈ s.db.entries := by
  obtain ⟨s, s', h, hr, hq⟩ := exists_runs (opening ++ [.postDoc .salesInvoice 15, .closeFiscalYear 13 7])
    [.createFiscalYear ⟨"Again", day 1 1, day 12 31⟩,
      .createPayment .sales { paymentInput 100 with date := day 4 10 }, .postPayment .sales 27]
    (p := fun s op => s.db.within 13 (day 3 5) && !op.reopens 13 && !op.reachesInto s.db 13 (day 3 5))
    (q := fun s s' => s.db.isClosed 13 &&
      s'.db.entries.rows.map (·.entryDate) = s.db.entries.rows.map (·.entryDate) ++ [day 4 10])
    (by decide +kernel)
  rw [Bool.and_eq_true] at hq
  obtain ⟨hc, hdates⟩ := hq
  obtain ⟨hc', hold⟩ := closed_year_immutable h hc hr
  exact ⟨s, s', hc, hc', of_decide_eq_true hdates, hold⟩

/-- The year 2026 is closed, another year with its dates is created, and the invoice of March is posted. -/
theorem posted_in_closed_year : ¬ ∀ s s' : Store DB, Reachable s → ∀ year date, s.db.isClosed year = true →
    Runs (fun s op => s.db.within year date && !op.reopens year) s s' →
    s'.db.isClosed year = true ∧ ∀ e ∈ s'.db.entries, e.entryDate = date → e ∈ s.db.entries := by
  intro hall
  obtain ⟨s, s', h, hr, hq⟩ := exists_runs (opening ++ [.closeFiscalYear 13 7])
    [.createFiscalYear ⟨"Again", day 1 1, day 12 31⟩, .postDoc .salesInvoice 15]
    (p := fun s op => s.db.within 13 (day 3 5) && !op.reopens 13)
    (q := fun s s' => s.db.isClosed 13 && s.db.entries.rows = [] && s'.db.entries.rows.any (·.entryDate = day 3 5))
    (by decide +kernel)
  simp only [Bool.and_eq_true, List.any_eq_true, decide_eq_true_eq] at hq
  obtain ⟨⟨hc, hnone⟩, e, he, hdate⟩ := hq
  have hold : e ∈ s.db.entries.rows := (hall s s' h 13 (day 3 5) hc hr).2 e he hdate
  rw [hnone] at hold
  cases hold
