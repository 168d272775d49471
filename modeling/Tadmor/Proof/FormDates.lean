import Mathlib.Data.Int.ConditionallyCompleteOrder
import Mathlib.Tactic.Positivity
import Tadmor.Model.FormDates
import Tadmor.Model.YearEnd

/-!
# The end of a year, on the form and in the close

The client takes the day off before it adds the year, the close afterwards.  The two agree except from 29 February, where
the close has moved to 28 February first, and except for years of more than four digits, which the client writes
differently.
-/

open Banking (Text)

namespace Web

/-! ### Texts -/

theorem isDigit_of_mem_padded {w n : ℕ} {c : Char} (h : c ∈ padded w n) : c.isDigit = true := by
  rw [padded, List.leftpad, List.mem_append] at h
  rcases h with h | h
  · rw [List.eq_of_mem_replicate h]
    rfl
  · exact Nat.isDigit_of_mem_toDigits (by omega) (by omega) h

theorem numeral_padded (w n : ℕ) : numeral (padded w n) = n := by
  rw [padded, List.leftpad, numeral_append, numeral_replicate, Nat.zero_mul, Nat.zero_add, numeral_toDigits]

theorem number_padded (w n : ℕ) : number (padded w n) = some (n : ℤ) := by
  rw [number, if_pos (List.all_eq_true.2 fun c hc => isDigit_of_mem_padded hc), numeral_padded]

theorem padded_ne_nil (w n : ℕ) : padded w n ≠ [] := by
  intro h
  exact Nat.toDigits_ne_nil (List.append_eq_nil_iff.1 h).2

theorem length_padded {w n : ℕ} (hw : 0 < w) (h : n < 10 ^ w) : (padded w n).length = w := by
  have hlen : (Nat.toDigits 10 n).length ≤ w := (Nat.length_toDigits_le_iff (by omega) hw).2 h
  rw [padded, List.length_leftpad, max_eq_left hlen]

theorem hyphen_notMem_padded (w n : ℕ) : '-' ∉ padded w n := fun h => by
  have hd := isDigit_of_mem_padded h
  cases hd

theorem parts_text (d : Date) : parts d.text = some ((d.year : ℤ), (d.month : ℤ), (d.day : ℤ)) := by
  have hsplit : d.text.splitOn '-' = [padded 4 d.year, padded 2 d.month, padded 2 d.day] := by
    rw [Date.text, List.append_assoc, List.cons_append,
      List.splitOn_append_cons_self_of_not_mem (hyphen_notMem_padded _ _),
      List.splitOn_append_cons_self_of_not_mem (hyphen_notMem_padded _ _),
      List.splitOn_eq_singleton (hyphen_notMem_padded _ _)]
  rw [parts, hsplit]
  simp only [number_padded]
  rfl

/-! ### Years and months -/

theorem dayFromYear_succ (y : ℤ) : dayFromYear (y + 1) = dayFromYear y + if inLeapYear y then 366 else 365 := by
  simp only [dayFromYear, inLeapYear, Bool.and_eq_true, Bool.or_eq_true, decide_eq_true_eq]
  split_ifs <;> omega

theorem dayFromYear_strictMono : StrictMono dayFromYear := by
  refine strictMono_int_of_lt_succ fun y => ?_
  rw [dayFromYear_succ]
  split_ifs <;> omega

/-- The year of a day is the one that has begun on it while the next has not. -/
theorem year_unique {n x y : ℤ} (hx : dayFromYear x ≤ n ∧ n < dayFromYear (x + 1))
    (hy : dayFromYear y ≤ n ∧ n < dayFromYear (y + 1)) : x = y := by
  have hxy := dayFromYear_strictMono.lt_iff_lt.1 (hx.1.trans_lt hy.2)
  have hyx := dayFromYear_strictMono.lt_iff_lt.1 (hy.1.trans_lt hx.2)
  omega

theorem latestYear_spec {n : ℤ} {k : ℕ} {y : ℤ} (h : dayFromYear y ≤ n) (h' : n < dayFromYear (y + k + 1)) :
    dayFromYear (latestYear n k y) ≤ n ∧ n < dayFromYear (latestYear n k y + 1) := by
  induction k generalizing y with
  | zero =>
    rw [Nat.cast_zero, add_zero] at h'
    exact ⟨h, h'⟩
  | succ k ih =>
    rw [latestYear]
    by_cases hnext : dayFromYear (y + 1) ≤ n
    · rw [if_pos hnext]
      refine ih hnext ?_
      have hsum : y + 1 + (k : ℤ) + 1 = y + ((k + 1 : ℕ) : ℤ) + 1 := by
        push_cast
        ring
      rwa [hsum]
    · rw [if_neg hnext]
      exact ⟨h, not_le.1 hnext⟩

/-- A cycle of 400 years is found by division, and the year in it by counting. -/
theorem yearFromDay_spec (n : ℤ) : dayFromYear (yearFromDay n) ≤ n ∧ n < dayFromYear (yearFromDay n + 1) := by
  have hcycle : ∀ k, dayFromYear (1600 + 400 * k) = 146097 * k - 135140 := by
    intro k
    rw [dayFromYear]
    omega
  refine latestYear_spec ?_ ?_
  · rw [hcycle]
    omega
  · have hend : 1600 + 400 * ((n + 135140) / 146097) + ((399 : ℕ) : ℤ) + 1 =
        1600 + 400 * ((n + 135140) / 146097 + 1) := by
      push_cast
      ring
    rw [hend, hcycle]
    omega

theorem monthLength_bounds (y : ℤ) (m : ℕ) : 28 ≤ monthLength y m ∧ monthLength y m ≤ 31 := by
  rw [monthLength]
  split_ifs <;> omega

theorem daysBefore_monotone (y : ℤ) : Monotone (daysBefore y) := by
  refine monotone_nat_of_le_succ fun m => ?_
  have h := monthLength_bounds y m
  rw [daysBefore]
  omega

theorem daysBefore_twelve (y : ℤ) : daysBefore y 12 = if inLeapYear y then 366 else 365 := by
  simp only [daysBefore, monthLength]
  cases inLeapYear y with
  | false => rfl
  | true => rfl

theorem latestMonth_eq {y within : ℤ} {m k : ℕ} (hm : m ≤ k) (h : daysBefore y m ≤ within)
    (h' : within < daysBefore y (m + 1)) : latestMonth y within k = m := by
  induction k with
  | zero =>
    obtain rfl : m = 0 := by omega
    rfl
  | succ k ih =>
    rw [latestMonth]
    by_cases hk : m = k + 1
    · rw [if_pos (hk ▸ h), hk]
    · have hmono := daysBefore_monotone y (show m + 1 ≤ k + 1 by omega)
      rw [if_neg (by omega)]
      exact ih (by omega)

/-! ### Dates as days -/

def dayOf (d : Date) : ℤ := dayFromYear d.year + daysBefore d.year (d.month - 1) + d.day - 1

theorem monthLength_date (y : ℕ) {m : ℕ} (h : 1 ≤ m) : monthLength y (m - 1) = daysInMonth y m := by
  have hleap : inLeapYear y = isLeap y := by
    rw [inLeapYear, isLeap]
    congr 1
    · exact decide_eq_decide.2 (by omega)
    · congr 1
      · exact decide_eq_decide.2 (by omega)
      · exact decide_eq_decide.2 (by omega)
  rw [monthLength, daysInMonth, hleap]
  split_ifs <;> first | rfl | omega

/-- A day of a year is within it, and a day of a month within the month. -/
theorem dayOf_bounds (d : Date) :
    (dayFromYear d.year ≤ dayOf d ∧ dayOf d < dayFromYear (d.year + 1)) ∧
      daysBefore d.year (d.month - 1) ≤ dayOf d - dayFromYear d.year ∧
      dayOf d - dayFromYear d.year < daysBefore d.year (d.month - 1 + 1) := by
  have hv := d.valid
  have hlen := monthLength_date d.year hv.1
  have hpos : 0 ≤ daysBefore d.year (d.month - 1) := daysBefore_monotone d.year (Nat.zero_le (d.month - 1))
  have hle : daysBefore d.year (d.month - 1 + 1) ≤ daysBefore d.year 12 :=
    daysBefore_monotone d.year (show d.month - 1 + 1 ≤ 12 by omega)
  have hyear := dayFromYear_succ d.year
  have htwelve := daysBefore_twelve d.year
  rw [← htwelve] at hyear
  rw [daysBefore] at hle ⊢
  rw [dayOf]
  omega

/-- The text of a day begins with that of its date. -/
theorem toISOString_dayOf (d : Date) :
    toISOString (dayOf d) = isoYear d.year ++ '-' :: padded 2 d.month ++ '-' :: padded 2 d.day ++
      "T00:00:00.000Z".toList := by
  obtain ⟨hyear, hmonth⟩ := dayOf_bounds d
  have hv := d.valid
  have hy : yearFromDay (dayOf d) = d.year := year_unique (yearFromDay_spec _) hyear
  have hm : latestMonth d.year (dayOf d - dayFromYear d.year) 11 = d.month - 1 :=
    latestMonth_eq (by omega) hmonth.1 hmonth.2
  have hd : (dayOf d - dayFromYear d.year - daysBefore d.year (d.month - 1) + 1).toNat = d.day := by
    rw [dayOf]
    omega
  have hsucc : d.month - 1 + 1 = d.month := by omega
  rw [toISOString]
  simp only [hy, hm, hd, hsucc]

/-- The first ten characters are the whole date when the year has four digits. -/
theorem format_dayOf {d : Date} (h : d.year ≤ 9999) : format (dayOf d) = d.text := by
  have hv := d.valid
  have hday := daysInMonth_le d.year d.month
  have hiso : isoYear d.year = padded 4 d.year := if_pos ⟨by omega, by omega⟩
  have h4 : (padded 4 d.year).length = 4 := length_padded (by omega) (by omega)
  have hm : (padded 2 d.month).length = 2 := length_padded (by omega) (by omega)
  have hd : (padded 2 d.day).length = 2 := length_padded (by omega) (by omega)
  rw [format, toISOString_dayOf, hiso]
  refine List.take_left' ?_
  simp only [List.length_append, List.length_cons, h4, hm, hd]

/-- A longer year begins with its sign. -/
theorem format_dayOf_ne {d d' : Date} (h : 9999 < d.year) : format (dayOf d) ≠ d'.text := by
  have hhead : (format (dayOf d)).head? = some '+' := by
    have hiso : isoYear d.year = '+' :: padded 6 d.year := by
      rw [isoYear, if_neg (by omega), if_neg (by omega)]
      rfl
    rw [format, toISOString_dayOf, hiso]
    rfl
  intro heq
  obtain ⟨c, cs, hc⟩ := List.exists_cons_of_ne_nil (padded_ne_nil 4 d'.year)
  rw [heq, Date.text, hc] at hhead
  obtain rfl : c = '+' := Option.some.inj hhead
  have hd : '+' ∈ padded 4 d'.year := by
    rw [hc]
    exact List.mem_cons_self ..
  cases isDigit_of_mem_padded hd

/-! ### The end of the year -/

theorem dayOf_prev {d : Date} (h : 1 ≤ d.year) : dayOf d.prev = dayOf d - 1 := by
  have hv := d.valid
  rw [Date.prev]
  by_cases hday : 1 < d.day
  · rw [dif_pos hday]
    simp only [dayOf]
    omega
  · rw [dif_neg hday]
    by_cases hmonth : 1 < d.month
    · have hlen := monthLength_date d.year (m := d.month - 1) (by omega)
      have hdays : daysBefore d.year (d.month - 1) =
          daysBefore d.year (d.month - 1 - 1) + monthLength d.year (d.month - 1 - 1) := by
        obtain ⟨m, hm⟩ : ∃ m, d.month - 1 = m + 1 := ⟨d.month - 2, by omega⟩
        rw [hm]
        rfl
      rw [dif_pos hmonth]
      simp only [dayOf]
      omega
    · have hyear := dayFromYear_succ ((d.year - 1 : ℕ) : ℤ)
      have htwelve : daysBefore ((d.year - 1 : ℕ) : ℤ) 12 = daysBefore ((d.year - 1 : ℕ) : ℤ) 11 + 31 := rfl
      have hone : d.month - 1 = 0 := by omega
      have hsucc : ((d.year - 1 : ℕ) : ℤ) + 1 = d.year := by omega
      rw [← daysBefore_twelve, hsucc] at hyear
      rw [dif_neg hmonth]
      simp only [dayOf, hone, daysBefore]
      show dayFromYear _ + daysBefore _ 11 + 31 - 1 = _
      omega

theorem prev_next {d : Date} (h : 1 ≤ d.year) : d.prev.next = d := by
  have hv := d.valid
  refine Date.rank_injective ?_
  rw [Date.prev]
  split_ifs with hday hmonth
  · rw [Date.next, dif_pos (show d.day - 1 < daysInMonth d.year d.month by omega)]
    simp only [Date.rank]
    omega
  · rw [Date.next, dif_neg (lt_irrefl _), dif_pos (show d.month - 1 < 12 by omega)]
    simp only [Date.rank]
    omega
  · rw [Date.next, dif_neg (show ¬31 < daysInMonth (d.year - 1) 12 from not_lt.2 (daysInMonth_le _ _)), dif_neg (lt_irrefl _)]
    simp only [Date.rank]
    omega

/-- What the form shows: the client does not stop at the end of February. -/
def formEnd (d : Date) : Date := if d.month = 2 ∧ d.day = 29 then d.addYear else d.addYear.prev

/-- One year on, the month is as long, but for 29 February. -/
theorem day_le_next_year {d : Date} (h : ¬(d.month = 2 ∧ d.day = 29)) : d.day ≤ daysInMonth (d.year + 1) d.month := by
  have hv := d.valid
  rw [daysInMonth] at hv ⊢
  split_ifs at hv ⊢ <;> omega

theorem addYear_of_leap_day {d : Date} (h : d.month = 2 ∧ d.day = 29) :
    d.addYear.year = d.year + 1 ∧ d.addYear.month = 2 ∧ d.addYear.day = 28 := by
  have hv := d.valid.2.2.2
  have hleap : isLeap d.year = true := by
    by_contra hnot
    rw [daysInMonth, if_pos h.1, if_neg hnot] at hv
    omega
  have hnext : daysInMonth (d.year + 1) 2 = 28 := by
    have hnot : isLeap (d.year + 1) = false := by
      simp only [isLeap, Bool.and_eq_true, decide_eq_true_eq] at hleap
      simp only [isLeap, Bool.and_eq_false_iff, decide_eq_false_iff_not]
      omega
    rw [daysInMonth, if_pos rfl, if_neg (by rw [hnot]; decide)]
  have hlong : ¬d.day ≤ daysInMonth (d.year + 1) d.month := by
    rw [h.1, hnext]
    omega
  rw [Date.addYear, dif_neg hlong]
  refine ⟨rfl, h.1, ?_⟩
  show daysInMonth (d.year + 1) d.month = 28
  rw [h.1, hnext]

theorem makeDay_formEnd (d : Date) : makeDay (d.year + 1) (d.month - 1) (d.day - 1) = dayOf (formEnd d) := by
  have hv := d.valid
  have hdiv : ((d.month : ℤ) - 1) / 12 = 0 := by omega
  have hmod : (((d.month : ℤ) - 1) % 12).toNat = d.month - 1 := by omega
  rw [makeDay, hdiv, hmod, add_zero, formEnd]
  by_cases hfeb : d.month = 2 ∧ d.day = 29
  · obtain ⟨hy, hm, hd⟩ := addYear_of_leap_day hfeb
    rw [if_pos hfeb, dayOf, hy, hm, hd, hfeb.1, hfeb.2]
    push_cast
    ring
  · have hadd : dayOf d.addYear = dayFromYear (d.year + 1) + daysBefore (d.year + 1) (d.month - 1) + d.day - 1 := by
      rw [Date.addYear, dif_pos (day_le_next_year hfeb), dayOf]
      push_cast
      rfl
    have hpos : 1 ≤ d.addYear.year := by
      rw [Date.addYear, dif_pos (day_le_next_year hfeb)]
      exact Nat.succ_le_succ (Nat.zero_le d.year)
    rw [if_neg hfeb, dayOf_prev hpos, hadd]
    ring

theorem endOfYearFrom_text {d : Date} (h : 100 ≤ d.year + 1) :
    endOfYearFrom d.text = if (dayOf (formEnd d)).natAbs ≤ 10 ^ 8 then some (format (dayOf (formEnd d))) else none := by
  have hutc : utc ((d.year : ℤ) + 1) (d.month - 1) (d.day - 1) =
      if (dayOf (formEnd d)).natAbs ≤ 10 ^ 8 then some (dayOf (formEnd d)) else none := by
    have hyear : ¬(0 ≤ (d.year : ℤ) + 1 ∧ (d.year : ℤ) + 1 ≤ 99) := by omega
    rw [utc]
    simp only [if_neg hyear, makeDay_formEnd]
  have hform : endOfYearFrom d.text = (utc ((d.year : ℤ) + 1) (d.month - 1) (d.day - 1)).map format := by
    rw [endOfYearFrom, parts_text, Option.map_eq_bind]
    generalize utc = u
    rfl
  rw [hform, hutc]
  split_ifs
  · rfl
  · rfl

/-- The days of four-digit years are in range. -/
theorem natAbs_dayOf_le {d : Date} (h : d.year ≤ 9999) : (dayOf d).natAbs ≤ 10 ^ 8 := by
  obtain ⟨⟨hlow, hhigh⟩, -⟩ := dayOf_bounds d
  rw [dayFromYear] at hlow hhigh
  omega

/-- Where the form's year ends -/
theorem formEnd_year (d : Date) :
    (formEnd d).year = if d.month = 1 ∧ d.day = 1 then d.year else d.year + 1 := by
  have hv := d.valid
  rw [formEnd]
  by_cases hfeb : d.month = 2 ∧ d.day = 29
  · rw [if_pos hfeb, (addYear_of_leap_day hfeb).1, if_neg (by omega)]
  · rw [if_neg hfeb, Date.addYear, dif_pos (day_le_next_year hfeb), Date.prev]
    simp only
    split_ifs <;> simp only <;> omega

theorem text_ne_of_day_ne {d d' : Date} (hy : d.year = d'.year) (hm : d.month = d'.month) (hd : d.day ≠ d'.day) :
    d.text ≠ d'.text := by
  rw [Date.text, Date.text, hy, hm]
  intro h
  have hday := List.cons.inj (List.append_cancel_left h)
  exact hd (by rw [← numeral_padded 2 d.day, hday.2, numeral_padded])

/-- The form and the close agree but for leap days and years of five digits. -/
theorem endOfYearFrom_eq_iff {d : Date} (h : 1000 ≤ d.year) :
    endOfYearFrom d.text = some d.addYear.prev.text ↔
      ¬(d.month = 2 ∧ d.day = 29) ∧ (d.year < 9999 ∨ d.year = 9999 ∧ d.month = 1 ∧ d.day = 1) := by
  have hyear : (formEnd d).year ≤ 9999 ↔ d.year < 9999 ∨ d.year = 9999 ∧ d.month = 1 ∧ d.day = 1 := by
    rw [formEnd_year]
    split_ifs <;> omega
  rw [endOfYearFrom_text (by omega), ← hyear]
  by_cases hlong : 9999 < (formEnd d).year
  · -- the client's text begins with a sign, or there is none
    refine iff_of_false ?_ fun hp => by omega
    split_ifs
    · exact fun heq => format_dayOf_ne hlong (Option.some.inj heq)
    · nofun
  · have hshort : (formEnd d).year ≤ 9999 := not_lt.1 hlong
    rw [if_pos (natAbs_dayOf_le hshort), format_dayOf hshort, and_iff_left hshort, Option.some.injEq, formEnd]
    by_cases hfeb : d.month = 2 ∧ d.day = 29
    · obtain ⟨-, hm, hd⟩ := addYear_of_leap_day hfeb
      have hprev : d.addYear.prev.year = d.addYear.year ∧ d.addYear.prev.month = d.addYear.month ∧
          d.addYear.prev.day = d.addYear.day - 1 := by
        rw [Date.prev, dif_pos (by omega)]
        exact ⟨rfl, rfl, rfl⟩
      rw [if_pos hfeb]
      exact iff_of_false (text_ne_of_day_ne hprev.1.symm hprev.2.1.symm (by omega)) (not_not.2 hfeb)
    · rw [if_neg hfeb]
      exact iff_of_true rfl hfeb

/-- The form fills in the end that the close would give the year, but for a start on 29 February and for an end after the
year 9999. -/
theorem endOfYearFrom_rollForward (d : Date) (h : 1000 ≤ d.year) :
    ∃ e : Date, e.next = d ∧ ∀ id, (nextYear id e).startDate = d ∧
      (endOfYearFrom d.text = some (nextYear id e).endDate.text ↔
        ¬(d.month = 2 ∧ d.day = 29) ∧ (d.year < 9999 ∨ d.year = 9999 ∧ d.month = 1 ∧ d.day = 1)) := by
  have hnext := prev_next (d := d) (by omega)
  refine ⟨d.prev, hnext, fun id => ⟨hnext, ?_⟩⟩
  have hend : (nextYear id d.prev).endDate = d.prev.next.addYear.prev := rfl
  rw [hend, hnext]
  exact endOfYearFrom_eq_iff h

theorem endOfYearFrom_rollForward_2027 :
    endOfYearFrom "2027-01-01".toList = some "2027-12-31".toList ∧
      ∃ e : Date, e.next = ⟨2027, 1, 1, by decide⟩ ∧ ∀ id, (nextYear id e).startDate = ⟨2027, 1, 1, by decide⟩ ∧
        (endOfYearFrom (⟨2027, 1, 1, by decide⟩ : Date).text = some (nextYear id e).endDate.text ↔
          ¬((1 : ℕ) = 2 ∧ (1 : ℕ) = 29) ∧ ((2027 : ℕ) < 9999 ∨ (2027 : ℕ) = 9999 ∧ (1 : ℕ) = 1 ∧ (1 : ℕ) = 1)) :=
  ⟨by decide +kernel, endOfYearFrom_rollForward ⟨2027, 1, 1, by decide⟩ (by decide)⟩

/-- The form shows 28 February 2029 and the close stores the 27th. -/
theorem endOfYearFrom_leap_day :
    ¬ ∀ d : Date, 1000 ≤ d.year → ∀ e : Date, e.next = d → ∀ id,
      endOfYearFrom d.text = some (nextYear id e).endDate.text := by
  intro hall
  have h := hall ⟨2028, 2, 29, by decide⟩ (by decide) ⟨2028, 2, 28, by decide⟩ (by decide) 1
  have hform : endOfYearFrom (⟨2028, 2, 29, by decide⟩ : Date).text = some "2029-02-28".toList := by decide +kernel
  have hclose : (nextYear 1 ⟨2028, 2, 28, by decide⟩).endDate.text = "2029-02-27".toList := by decide +kernel
  rw [hform, hclose] at h
  revert h
  decide

end Web
