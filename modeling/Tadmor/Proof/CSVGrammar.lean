import Mathlib.Data.List.Forall2
import Tadmor.Model.BankImport

/-!
# The grammar of the CSV import

The grammar drops blank records, then a header, and asks the same of every record that is left.  The loop decides on
the header by the position of the record and after counting its fields.  It accepts what the grammar accepts unless
the header is preceded by a blank record or has another number of fields.
-/

namespace Banking

/-! ### The grammar -/

/-- The text is the date as YYYY-MM-DD. -/
def IsDate (s : Text) (date : Date) : Prop :=
  ∃ year month day : Text, s = year ++ '-' :: (month ++ '-' :: day) ∧
    (year.length = 4 ∧ month.length = 2 ∧ day.length = 2) ∧ (∀ c ∈ year ++ month ++ day, c.isDigit = true) ∧
    date.year = numeral year ∧ date.month = numeral month ∧ date.day = numeral day

/-- The text spells an amount other than zero. -/
def IsAmount (s : Text) : Prop := ∃ p : Spelling, p.text = s ∧ p.value.toRat ≠ 0

/-- A single field of white space. -/
def isBlank : List Text → Bool
  | [field] => field.all isSpace
  | _ => false

def nonblank (records : List (List Text)) : List (List Text) := records.filter fun record => !isBlank record

/-- The record has no date in its first field. -/
def Undated (record : List Text) : Prop := ∀ date, ¬IsDate (trimSpace (record.headD [])) date

/-- What the line of a record holds. -/
structure IsData (record : List Text) (l : LineInput) : Prop where
  fields : ∃ date description amount more, record = date :: description :: amount :: more ∧ more.length ≤ 1 ∧
    l.txnDate = trimSpace date ∧ l.description = trimSpace description ∧ l.amount = trimSpace amount ∧
    ∀ text, l.reference = some text ↔ ∃ field ∈ more, text = trimSpace field ∧ text ≠ []
  date : ∃ date, IsDate l.txnDate date
  description : l.description ≠ []
  amount : IsAmount l.amount

/-- The first record goes when it has no date. -/
inductive Headless : List (List Text) → List (List Text) → Prop where
  | nil : Headless [] []
  | header {record : List Text} {records : List (List Text)} (h : Undated record) :
      Headless (record :: records) records
  | data {record : List Text} {records : List (List Text)} (h : ¬Undated record) :
      Headless (record :: records) (record :: records)

/-- The grammar reads the records as these lines. -/
def Reads (records : List (List Text)) (ls : List LineInput) : Prop :=
  ∃ rest, Headless (nonblank records) rest ∧ List.Forall₂ IsData rest ls

/-- The header is preceded by a blank record or has neither 3 nor 4 fields, in a file that is otherwise sound. -/
structure Misread (records : List (List Text)) : Prop where
  header : ∃ record rest, nonblank records = record :: rest ∧ Undated record ∧ (∃ ls, List.Forall₂ IsData rest ls) ∧
    (records.head? ≠ some record ∨ record.length ≠ 3 ∧ record.length ≠ 4)

/-! ### Fields -/

theorem trim_eq_nil {p : Char → Bool} {s : Text} : trim p s = [] ↔ ∀ c ∈ s, p c = true := by
  rw [trim, List.reverse_eq_nil_iff, List.dropWhile_eq_nil_iff]
  simp only [List.mem_reverse]
  constructor
  · intro h c hc
    rw [← List.takeWhile_append_dropWhile (p := p) (l := s), List.mem_append] at hc
    rcases hc with hc | hc
    · exact List.mem_takeWhile_imp hc
    · exact h c hc
  · exact fun h c hc => h c (List.dropWhile_subset _ hc)

theorem isBlank_iff {record : List Text} :
    isBlank record = true ↔ record.length = 1 ∧ trimSpace (record.headD []) = [] := by
  rw [trimSpace, trim_eq_nil]
  match record with
  | [] => simp [isBlank]
  | [field] => simp [isBlank]
  | _ :: _ :: _ => simp [isBlank]

theorem date?_eq_some {year month day : ℕ} {date : Date} :
    date? year month day = some date ↔ date.year = year ∧ date.month = month ∧ date.day = day := by
  rw [date?]
  constructor
  · intro h
    split at h
    · obtain rfl := Option.some.inj h
      exact ⟨rfl, rfl, rfl⟩
    · cases h
  · rintro ⟨rfl, rfl, rfl⟩
    exact dif_pos date.valid

/-- The parts of a text of ten characters with the two dashes. -/
theorem split_dashes {s : Text} (hlen : s.length = 10) (h₄ : s[4]? = some '-') (h₇ : s[7]? = some '-') :
    s = s.take 4 ++ '-' :: ((s.drop 5).take 2 ++ '-' :: (s.drop 8).take 2) := by
  obtain ⟨c₀, c₁, c₂, c₃, c₄, c₅, c₆, c₇, c₈, c₉, rfl⟩ :
      ∃ c₀ c₁ c₂ c₃ c₄ c₅ c₆ c₇ c₈ c₉, s = [c₀, c₁, c₂, c₃, c₄, c₅, c₆, c₇, c₈, c₉] := by
    match s, hlen with
    | [c₀, c₁, c₂, c₃, c₄, c₅, c₆, c₇, c₈, c₉], _ => exact ⟨c₀, c₁, c₂, c₃, c₄, c₅, c₆, c₇, c₈, c₉, rfl⟩
  obtain rfl : c₄ = '-' := Option.some.inj h₄
  obtain rfl : c₇ = '-' := Option.some.inj h₇
  rfl

theorem parseDate_eq_some {s : Text} {date : Date} : parseDate s = some date ↔ IsDate s date := by
  rw [parseDate]
  constructor
  · intro h
    split at h
    · rename_i hs
      obtain ⟨hlen, h₄, h₇, hdigits⟩ := hs
      refine ⟨_, _, _, split_dashes hlen h₄ h₇, ⟨?_, ?_, ?_⟩, List.all_eq_true.1 hdigits, date?_eq_some.1 h⟩
      · rw [List.length_take, hlen]
        rfl
      · rw [List.length_take, List.length_drop, hlen]
        rfl
      · rw [List.length_take, List.length_drop, hlen]
        rfl
    · cases h
  · rintro ⟨year, month, day, rfl, ⟨hy, hm, hd⟩, hdigits, hdate⟩
    have hyear : (year ++ '-' :: (month ++ '-' :: day)).take 4 = year := by
      rw [← hy, List.take_left]
    have hrest : (year ++ '-' :: (month ++ '-' :: day)).drop 4 = '-' :: (month ++ '-' :: day) := by
      rw [← hy, List.drop_left]
    have hmonth : (year ++ '-' :: (month ++ '-' :: day)).drop 5 = month ++ '-' :: day := by
      rw [show 5 = 4 + 1 from rfl, ← List.drop_drop, hrest]
      rfl
    have hday : (year ++ '-' :: (month ++ '-' :: day)).drop 8 = day := by
      rw [show 8 = 5 + (2 + 1) from rfl, ← List.drop_drop, hmonth, ← List.drop_drop, ← hm, List.drop_left]
      rfl
    have hmonth' : (month ++ '-' :: day).take 2 = month := by rw [← hm, List.take_left]
    have hday' : day.take 2 = day := by rw [← hd, List.take_length]
    have hlen : (year ++ '-' :: (month ++ '-' :: day)).length = 10 := by
      simp only [List.length_append, List.length_cons]
      omega
    have h₄ : (year ++ '-' :: (month ++ '-' :: day))[4]? = some '-' := by
      rw [← List.head?_drop, hrest]
      rfl
    have h₇ : (year ++ '-' :: (month ++ '-' :: day))[7]? = some '-' := by
      rw [← List.head?_drop, show 7 = 5 + 2 from rfl, ← List.drop_drop, hmonth, ← hm, List.drop_left]
      rfl
    simp only [hyear, hmonth, hday, hmonth', hday']
    exact (if_pos ⟨hlen, h₄, h₇, List.all_eq_true.2 hdigits⟩).trans (date?_eq_some.2 hdate)

theorem undated_iff {record : List Text} : Undated record ↔ parseDate (trimSpace (record.headD [])) = none := by
  rw [Option.eq_none_iff_forall_ne_some]
  refine forall_congr' fun date => ?_
  rw [ne_eq, parseDate_eq_some]

/-- The tests of the amount. -/
theorem isAmount_iff {s : Text} : IsAmount s ↔ amountRE s = true ∧ trim (· ∈ ['-', '.', '0']) s ≠ [] := by
  have hzero : ∀ p : Spelling, p.value.toRat = 0 ↔ trim (· ∈ ['-', '.', '0']) p.text = [] := by
    intro p
    rw [Spelling.value_eq_zero, trim_eq_nil, Spelling.forall_mem_text (by decide) (by decide)]
    refine forall₂_congr fun c hc => ?_
    have hdigit := p.digits c hc
    rw [decide_eq_true_eq, List.mem_cons, List.mem_cons, List.mem_singleton]
    constructor
    · exact fun h => .inr (.inr h)
    · rintro (rfl | rfl | h)
      · cases hdigit
      · cases hdigit
      · exact h
  rw [amountRE, Option.isSome_iff_exists]
  constructor
  · rintro ⟨p, rfl, hne⟩
    exact ⟨⟨p, spell_eq_some.2 rfl⟩, fun h => hne ((hzero p).2 h)⟩
  · rintro ⟨⟨p, hp⟩, hne⟩
    obtain rfl := spell_eq_some.1 hp
    exact ⟨p, rfl, fun h => hne ((hzero p).1 h)⟩

/-! ### Records -/

section

variable {i : ℕ} {date description amount : Text} {reference : Option Text} {record : List Text} {l : LineInput}

theorem parseFields_eq_none :
    parseFields i date description amount reference = .ok none ↔ i = 0 ∧ parseDate date = none := by
  rw [parseFields]
  cases parseDate date with
  | none =>
    by_cases hi : i = 0
    · simp [hi]
    · simp [hi]
  | some d => simp [Except.bind_eq_ok_iff]

theorem parseFields_eq_some : parseFields i date description amount reference = .ok (some l) ↔
    (∃ d, parseDate date = some d) ∧ description ≠ [] ∧ IsAmount amount ∧
      l = { txnDate := date, description, amount, reference := reference.filter (· ≠ []) } := by
  rw [parseFields, isAmount_iff]
  cases parseDate date with
  | none =>
    by_cases hi : i = 0
    · simp [hi]
    · simp [hi]
  | some d =>
    simp only [Except.bind_eq_ok_iff, ensure_eq_ok, exists_const, decide_eq_true_eq, Except.ok.injEq, Option.some.injEq,
      exists_eq', true_and, eq_comm (b := l), and_assoc]

theorem parseRecord_blank (hb : isBlank record = true) : parseRecord i record = .ok none := if_pos (isBlank_iff.1 hb)

theorem parseRecord_of_not_blank (hb : isBlank record = false) : parseRecord i record =
    match record.map trimSpace with
    | [date, description, amount] => parseFields i date description amount none
    | [date, description, amount, reference] => parseFields i date description amount (some reference)
    | fields =>
      .error (badCSV s!"record {i + 1} has {fields.length} fields, want date,description,amount[,reference]") := by
  refine if_neg fun h => ?_
  rw [isBlank_iff.2 h] at hb
  cases hb

/-- What is not blank is skipped only as a header in the first place. -/
theorem parseRecord_skip (hb : isBlank record = false) : parseRecord i record = .ok none ↔
    i = 0 ∧ Undated record ∧ (record.length = 3 ∨ record.length = 4) := by
  rw [parseRecord_of_not_blank hb, undated_iff]
  match record with
  | [] => simp
  | [_] => simp
  | [_, _] => simp
  | [d, t, a] => simp [parseFields_eq_none]
  | [d, t, a, r] => simp [parseFields_eq_none]
  | _ :: _ :: _ :: _ :: _ :: _ => simp

theorem reference_eq_none : (none : Option Text) = l.reference ↔
    ∀ text, l.reference = some text ↔ ∃ field ∈ ([] : List Text), text = trimSpace field ∧ text ≠ [] := by
  simp [Option.eq_none_iff_forall_ne_some, eq_comm]

theorem reference_eq_filter {r : Text} : (some (trimSpace r)).filter (· ≠ []) = l.reference ↔
    ∀ text, l.reference = some text ↔ ∃ field ∈ [r], text = trimSpace field ∧ text ≠ [] := by
  rw [eq_comm, Option.ext_iff]
  refine forall_congr' fun text => ?_
  rw [Option.filter_eq_some_iff, Option.some.injEq, decide_eq_true_eq, eq_comm (a := trimSpace r)]
  simp only [List.mem_singleton, exists_eq_left]

theorem parseRecord_data (hb : isBlank record = false) : parseRecord i record = .ok (some l) ↔ IsData record l := by
  rw [parseRecord_of_not_blank hb]
  have hdata : ∀ {d t a : Text} {more : List Text} {ref : Option Text}, more.length ≤ 1 →
      (ref.filter (· ≠ []) = l.reference ↔
        ∀ text, l.reference = some text ↔ ∃ field ∈ more, text = trimSpace field ∧ text ≠ []) →
      (parseFields i (trimSpace d) (trimSpace t) (trimSpace a) ref = .ok (some l) ↔
        IsData (d :: t :: a :: more) l) := by
    intro d t a more ref hmore href
    rw [parseFields_eq_some]
    constructor
    · rintro ⟨⟨date, hdate⟩, ht, ha, rfl⟩
      exact ⟨⟨d, t, a, more, rfl, hmore, rfl, rfl, rfl, href.1 rfl⟩, ⟨date, parseDate_eq_some.1 hdate⟩, ht, ha⟩
    · rintro ⟨⟨d', t', a', more', he, -, hd, ht, ha, hr⟩, ⟨date, hdate⟩, hne, hamount⟩
      obtain ⟨rfl, rfl, rfl, rfl⟩ : d = d' ∧ t = t' ∧ a = a' ∧ more = more' := by simpa using he
      rw [← hd, ← ht, ← ha, href.2 hr]
      exact ⟨⟨date, parseDate_eq_some.2 hdate⟩, hne, hamount, rfl⟩
  match record with
  | [] => exact ⟨fun h => (by cases h), fun h => (by obtain ⟨⟨_, _, _, _, he, _⟩, _⟩ := h; cases he)⟩
  | [_] => exact ⟨fun h => (by cases h), fun h => (by obtain ⟨⟨_, _, _, _, he, _⟩, _⟩ := h; cases he)⟩
  | [_, _] => exact ⟨fun h => (by cases h), fun h => (by obtain ⟨⟨_, _, _, _, he, _⟩, _⟩ := h; cases he)⟩
  | [d, t, a] => exact hdata (Nat.zero_le _) reference_eq_none
  | [d, t, a, r] => exact hdata (le_refl _) reference_eq_filter
  | _ :: _ :: _ :: _ :: _ :: _ =>
    refine ⟨fun h => (by cases h), ?_⟩
    rintro ⟨⟨_, _, _, more, he, hmore, _⟩, _⟩
    cases he
    simp at hmore

end

/-! ### Files -/

section

variable {i : ℕ} {record : List Text} {records : List (List Text)} {ls : List LineInput}

theorem nonblank_cons_of_blank (hb : isBlank record = true) : nonblank (record :: records) = nonblank records := by
  rw [nonblank, List.filter_cons_of_neg (by simp [hb])]
  rfl

theorem nonblank_cons_of_not_blank (hb : isBlank record = false) :
    nonblank (record :: records) = record :: nonblank records := by
  rw [nonblank, List.filter_cons_of_pos (by simp [hb])]
  rfl

theorem isBlank_of_mem_nonblank (h : record ∈ nonblank records) : isBlank record = false := by
  simpa using (List.mem_filter.1 h).2

theorem IsData.not_undated {l : LineInput} (h : IsData record l) : ¬Undated record := by
  obtain ⟨⟨d, t, a, more, rfl, -, hd, -⟩, ⟨date, hdate⟩, -⟩ := h
  intro hu
  rw [hd] at hdate
  exact hu date hdate

theorem parseRecords_cons : parseRecords i (record :: records) = .ok ls ↔
    ∃ line rest, parseRecord i record = .ok line ∧ parseRecords (i + 1) records = .ok rest ∧
      line.toList ++ rest = ls := by
  simp [parseRecords, Except.bind_eq_ok_iff]

/-- After the first record every record that is not blank is data. -/
theorem parseRecords_data (hi : i ≠ 0) :
    parseRecords i records = .ok ls ↔ List.Forall₂ IsData (nonblank records) ls := by
  induction records generalizing i ls with
  | nil => simp [parseRecords, nonblank, eq_comm]
  | cons record records ih =>
    simp only [parseRecords_cons, ih (Nat.succ_ne_zero i)]
    cases hb : isBlank record with
    | true =>
      rw [nonblank_cons_of_blank hb, parseRecord_blank hb]
      simp
    | false =>
      rw [nonblank_cons_of_not_blank hb, List.forall₂_cons_left_iff]
      constructor
      · rintro ⟨line, rest, hline, hrest, rfl⟩
        cases line with
        | none => exact absurd ((parseRecord_skip hb).1 hline).1 hi
        | some l => exact ⟨l, rest, (parseRecord_data hb).1 hline, hrest, rfl⟩
      · rintro ⟨l, rest, hl, hrest, rfl⟩
        exact ⟨some l, rest, (parseRecord_data hb).2 hl, hrest, rfl⟩

/-- The file starts with a record that the loop skips as a header. -/
def Headed (records rest : List (List Text)) : Prop :=
  ∃ record, nonblank records = record :: rest ∧ Undated record ∧ records.head? = some record ∧
    (record.length = 3 ∨ record.length = 4)

/-- What the loop accepts: data, after a header in the first place. -/
theorem parseRecords_eq_ok : parseRecords 0 records = .ok ls ↔
    List.Forall₂ IsData (nonblank records) ls ∨ ∃ rest, Headed records rest ∧ List.Forall₂ IsData rest ls := by
  cases records with
  | nil => simp [parseRecords, nonblank, Headed, eq_comm]
  | cons record records =>
    simp only [parseRecords_cons, parseRecords_data (Nat.succ_ne_zero 0)]
    cases hb : isBlank record with
    | true =>
      rw [nonblank_cons_of_blank hb, parseRecord_blank hb]
      have hno : ∀ rest, ¬Headed (record :: records) rest := by
        rintro rest ⟨r, hn, -, hhead, -⟩
        obtain rfl : record = r := Option.some.inj hhead
        have := isBlank_of_mem_nonblank (hn ▸ List.mem_cons_self ..)
        rw [hb] at this
        cases this
      simp [hno]
    | false =>
      rw [nonblank_cons_of_not_blank hb, List.forall₂_cons_left_iff]
      constructor
      · rintro ⟨line, rest, hline, hrest, rfl⟩
        cases line with
        | none =>
          obtain ⟨-, hu, hlen⟩ := (parseRecord_skip hb).1 hline
          exact .inr ⟨_, ⟨record, nonblank_cons_of_not_blank hb, hu, rfl, hlen⟩, hrest⟩
        | some l => exact .inl ⟨l, rest, (parseRecord_data hb).1 hline, hrest, rfl⟩
      · rintro (⟨l, rest, hl, hrest, rfl⟩ | ⟨rest, ⟨r, hn, hu, hhead, hlen⟩, hrest⟩)
        · exact ⟨some l, rest, (parseRecord_data hb).2 hl, hrest, rfl⟩
        · rw [nonblank_cons_of_not_blank hb] at hn
          obtain ⟨rfl, rfl⟩ := List.cons.inj hn
          exact ⟨none, ls, (parseRecord_skip hb).2 ⟨rfl, hu, hlen⟩, hrest, rfl⟩

/-- What the grammar accepts: the same, with the header anywhere and of any length. -/
theorem reads_iff : Reads records ls ↔ (List.Forall₂ IsData (nonblank records) ls ∨
    ∃ record rest, nonblank records = record :: rest ∧ Undated record ∧ List.Forall₂ IsData rest ls) := by
  rw [Reads]
  generalize nonblank records = rs
  constructor
  · rintro ⟨rest, hrest, hls⟩
    cases hrest with
    | nil => exact .inl hls
    | header hu => exact .inr ⟨_, _, rfl, hu, hls⟩
    | data hu => exact .inl hls
  · rintro (hls | ⟨record, rest, rfl, hu, hls⟩)
    · cases hls with
      | nil => exact ⟨[], .nil, .nil⟩
      | cons hl hls => exact ⟨_, .data hl.not_undated, .cons hl hls⟩
    · exact ⟨rest, .header hu, hls⟩

/-- The loop accepts what the grammar accepts, and returns the same lines, unless the file is misread. -/
theorem parseRecords_iff : (∀ ls, parseRecords 0 records = .ok ls ↔ Reads records ls) ↔ ¬Misread records := by
  simp only [parseRecords_eq_ok, reads_iff]
  constructor
  · rintro hall ⟨record, rest, hn, hu, ⟨ls, hls⟩, hbad⟩
    rcases (hall ls).2 (.inr ⟨record, rest, hn, hu, hls⟩) with hdata | ⟨rest', ⟨r, hn', -, hhead, hlen⟩, -⟩
    · rw [hn] at hdata
      cases hdata with
      | cons hl _ => exact hl.not_undated hu
    · obtain ⟨rfl, -⟩ := List.cons.inj (hn.symm.trans hn')
      rcases hbad with hbad | hbad
      · exact hbad hhead
      · omega
  · intro hok ls
    refine or_congr_right ⟨?_, ?_⟩
    · rintro ⟨rest, ⟨record, hn, hu, -⟩, hls⟩
      exact ⟨record, rest, hn, hu, hls⟩
    · rintro ⟨record, rest, hn, hu, hls⟩
      refine ⟨rest, ⟨record, hn, hu, ?_, ?_⟩, hls⟩
      · by_contra hhead
        exact hok ⟨record, rest, hn, hu, ⟨ls, hls⟩, .inl hhead⟩
      · by_contra hlen
        exact hok ⟨record, rest, hn, hu, ⟨ls, hls⟩, .inr (by omega)⟩

end

def june10 : Text := ['2', '0', '2', '6', '-', '0', '6', '-', '1', '0']

def hundred : Text := ['1', '0', '0', '.', '0', '0']

def transfer : LineInput := { txnDate := june10, description := ['T'], amount := hundred }

def transferRecord : List Text := [june10, ['T'], hundred]

/-- A title of one field is no header to the loop. -/
theorem parseRecords_titled : ¬∀ records ls, parseRecords 0 records = .ok ls ↔ Reads records ls := by
  intro hall
  have hline : parseRecord 1 transferRecord = .ok (some transfer) := by decide +kernel
  have hdata := (parseRecord_data (by decide +kernel)).1 hline
  have hundated : Undated [['4', '2']] := undated_iff.2 (by decide +kernel)
  have hnonblank : nonblank [[['4', '2']], transferRecord] = [[['4', '2']], transferRecord] := by decide +kernel
  have hok := (hall _ _).2 (reads_iff.2 (.inr ⟨_, _, hnonblank, hundated, .cons hdata .nil⟩))
  have hparse : (parseRecords 0 [[['4', '2']], transferRecord]).toOption = none := by decide +kernel
  rw [hok] at hparse
  cases hparse

end Banking
