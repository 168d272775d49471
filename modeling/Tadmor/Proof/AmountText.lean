import Mathlib.Data.List.DropRight
import Tadmor.Model.AmountText
import Tadmor.Proof.LinePreview

/-!
# What a displayed amount says

Printed documents and the web client show an amount by the same text.  The zeros that are cut off or filled in stand at
the end of the fraction, and a separator stands before every third digit from the point.
-/

open Banking (Text)

/-! ### Zeros at the end of a fraction -/

/-- Zeros at the end of the fraction do not count. -/
theorem Spelling.toRat_value_zeros {p : Spelling} {t : Text} {k : ℕ} (h : p.frac.getD [] = t ++ List.replicate k '0') :
    p.value.toRat = (p.sgn * numeral (p.whole ++ t) : ℚ) / 10 ^ t.length := by
  have hpow : (10 : ℚ) ^ k ≠ 0 := by positivity
  have hlen : (t ++ List.replicate k '0').length = t.length + k := by
    rw [List.length_append, List.length_replicate]
  rw [Spelling.value, ← Spelling.sgn, Decimal.toRat, h, hlen, ← List.append_assoc, numeral_append, numeral_replicate,
    List.length_replicate, Nat.add_zero, pow_add]
  push_cast
  rw [← mul_assoc, mul_div_mul_right _ _ hpow]

/-- The decimal with another fraction. -/
def Spelling.withFrac (p : Spelling) (frac : Option Text) (hd : ∀ c ∈ frac.getD [], c.isDigit = true)
    (hne : p.whole ≠ []) : Spelling where
  neg := p.neg
  whole := p.whole
  frac := frac
  digits := List.forall_mem_append.2 ⟨fun c hc => p.digits c (List.mem_append_left _ hc), hd⟩
  nonempty := fun h => hne (List.append_eq_nil_iff.1 h).1

namespace Printing

theorem trimZeros_eq (s : Text) : trimZeros s = s.rdropWhile (· = '0') := rfl

theorem trimZeros_append_zeros (s : Text) : ∃ k, s = trimZeros s ++ List.replicate k '0' := by
  induction s using List.reverseRecOn with
  | nil => exact ⟨0, rfl⟩
  | append_singleton s c ih =>
    rw [trimZeros_eq, List.rdropWhile_concat]
    by_cases hc : c = '0'
    · obtain ⟨k, hk⟩ := ih
      refine ⟨k + 1, ?_⟩
      rw [if_pos (decide_eq_true hc), List.replicate_succ', ← List.append_assoc, ← trimZeros_eq, ← hk, hc]
    · refine ⟨0, ?_⟩
      rw [if_neg (by simpa using hc), List.replicate_zero, List.append_nil]

theorem getLast?_trimZeros (s : Text) : (trimZeros s).getLast? ≠ some '0' := by
  intro h
  have hne : s.rdropWhile (· = '0') ≠ [] := by
    rintro hnil
    rw [trimZeros_eq, hnil] at h
    cases h
  have hlast := List.rdropWhile_last_not (fun c => decide (c = '0')) s hne
  rw [trimZeros_eq, List.getLast?_eq_getLast_of_ne_nil hne, Option.some.injEq] at h
  exact hlast (decide_eq_true h)

/-- Only the zeros behind the point are cut off. -/
theorem trimZeros_point (s f : Text) : trimZeros (s ++ '.' :: f) = s ++ '.' :: trimZeros f := by
  induction f using List.reverseRecOn with
  | nil =>
    rw [trimZeros_eq, List.rdropWhile_concat_neg]
    · rfl
    · decide
  | append_singleton f c ih =>
    rw [trimZeros_eq, trimZeros_eq, ← List.cons_append, ← List.append_assoc, List.rdropWhile_concat,
      List.rdropWhile_concat]
    by_cases hc : c = '0'
    · rw [if_pos (decide_eq_true hc), if_pos (decide_eq_true hc)]
      exact ih
    · rw [if_neg (by simpa using hc), if_neg (by simpa using hc)]
      simp

theorem mem_of_mem_trimZeros {s : Text} {c : Char} (h : c ∈ trimZeros s) : c ∈ s :=
  (List.rdropWhile_prefix _ s).subset h

/-! ### The fraction -/

theorem padFrac_zeros (t : Text) : ∃ k, padFrac t = t ++ List.replicate k '0' := ⟨_, rfl⟩

theorem le_length_padFrac (t : Text) : 2 ≤ (padFrac t).length := by
  rw [padFrac, List.length_append, List.length_replicate]
  omega

/-- More than two digits are all from the fraction. -/
theorem padFrac_of_lt {t : Text} (h : 2 < (padFrac t).length) : padFrac t = t := by
  rw [padFrac, List.length_append, List.length_replicate] at h
  have hz : 2 - t.length = 0 := by omega
  rw [padFrac, hz, List.replicate_zero, List.append_nil]

/-! ### Separators -/

/-- Every fourth character from the end is a separator, and no other and not the first one. -/
def Separated (g : Text) : Prop :=
  g.head? ≠ some ',' ∧ ∀ j < g.length, g.reverse[j]? = some ',' ↔ j % 4 = 3

theorem comma_ne_of_isDigit {c : Char} (h : c.isDigit = true) : c ≠ ',' := by
  rintro rfl
  cases h

/-- The digits from the index `i` on, a separator before them if their number is a multiple of three. -/
theorem group_tail {len i : ℕ} {cs : Text} (hi : 0 < i) (hlen : i + cs.length = len) (hd : ∀ c ∈ cs, c.isDigit = true) :
    (group len i cs).length = cs.length + cs.length / 3 ∧
      ∀ j < (group len i cs).length, (group len i cs).reverse[j]? = some ',' ↔ j % 4 = 3 := by
  induction cs generalizing i with
  | nil => exact ⟨rfl, fun j hj => absurd hj (Nat.not_lt_zero j)⟩
  | cons c cs ih =>
    rw [List.length_cons] at hlen
    obtain ⟨ihlen, ih⟩ := ih (i := i + 1) (by omega) (by omega) fun d hd' => hd d (List.mem_cons_of_mem _ hd')
    have hc := comma_ne_of_isDigit (hd c (List.mem_cons_self ..))
    have hrest : len - i = cs.length + 1 := by omega
    -- the digit `c` stands behind whole groups of four and at most two digits
    have hdigit : ∀ j < (group len (i + 1) cs).length + 1,
        (c :: group len (i + 1) cs).reverse[j]? = some ',' ↔ j % 4 = 3 := by
      intro j hj
      rw [List.reverse_cons]
      by_cases hlt : j < (group len (i + 1) cs).length
      · rw [List.getElem?_append_left (by rwa [List.length_reverse])]
        exact ih j hlt
      · have hj : j = (group len (i + 1) cs).length := by omega
        rw [List.getElem?_append_right (by rw [List.length_reverse]; omega), List.length_reverse, hj, Nat.sub_self,
          List.getElem?_cons_zero, Option.some.injEq, ihlen]
        by_cases hthree : (cs.length + 1) % 3 = 0
        · exact iff_of_false hc (by omega)
        · exact iff_of_false hc (by omega)
    rw [group, hrest]
    by_cases hthree : (cs.length + 1) % 3 = 0
    · rw [if_pos ⟨hi, hthree⟩]
      refine ⟨?_, fun j hj => ?_⟩
      · simp only [List.length_cons]
        omega
      · simp only [List.length_cons] at hj
        rw [List.reverse_cons]
        by_cases hlt : j < (group len (i + 1) cs).length + 1
        · rw [List.getElem?_append_left (by simpa using hlt)]
          exact hdigit j hlt
        · have hj : j = (group len (i + 1) cs).length + 1 := by omega
          rw [List.getElem?_append_right (by simp; omega), List.length_reverse, List.length_cons, hj, Nat.sub_self]
          refine iff_of_true rfl ?_
          rw [ihlen]
          omega
    · rw [if_neg fun h => hthree h.2]
      refine ⟨?_, fun j hj => ?_⟩
      · simp only [List.length_cons]
        omega
      · rw [List.length_cons] at hj
        exact hdigit j hj

theorem filter_group {len i : ℕ} {cs : Text} (hd : ∀ c ∈ cs, c.isDigit = true) :
    (group len i cs).filter (· ≠ ',') = cs := by
  induction cs generalizing i with
  | nil => rfl
  | cons c cs ih =>
    have ih := ih (i := i + 1) fun d hd' => hd d (List.mem_cons_of_mem _ hd')
    have hc := comma_ne_of_isDigit (hd c (List.mem_cons_self ..))
    rw [group]
    split
    · rw [List.filter_cons_of_neg (by simp), List.filter_cons_of_pos (by simpa using hc), ih]
    · rw [List.filter_cons_of_pos (by simpa using hc), ih]

theorem separated_group {cs : Text} (hd : ∀ c ∈ cs, c.isDigit = true) : Separated (group cs.length 0 cs) := by
  cases cs with
  | nil => exact ⟨nofun, fun j hj => absurd hj (Nat.not_lt_zero j)⟩
  | cons c cs =>
    obtain ⟨hlen, htail⟩ := group_tail (by omega : 0 < 1) (by omega : 1 + cs.length = cs.length + 1)
      fun d hd' => hd d (List.mem_cons_of_mem _ hd')
    have hc := comma_ne_of_isDigit (hd c (List.mem_cons_self ..))
    have hgroup : group (c :: cs).length 0 (c :: cs) = c :: group (cs.length + 1) 1 cs :=
      if_neg fun h => Nat.lt_irrefl 0 h.1
    rw [hgroup]
    refine ⟨by simpa using hc, fun j hj => ?_⟩
    rw [List.length_cons] at hj
    rw [List.reverse_cons]
    by_cases hlt : j < (group (cs.length + 1) 1 cs).length
    · rw [List.getElem?_append_left (by rwa [List.length_reverse])]
      exact htail j hlt
    · have hj : j = (group (cs.length + 1) 1 cs).length := by omega
      rw [List.getElem?_append_right (by rw [List.length_reverse]; omega), List.length_reverse, hj, Nat.sub_self,
        List.getElem?_cons_zero, Option.some.injEq, hlen]
      exact iff_of_false hc (by omega)

/-! ### The parts of the text -/

theorem cutPoint_body (p : Spelling) : cutPoint (p.whole ++ p.point) = (p.whole, p.frac.getD []) := by
  have hwhole : ∀ c ∈ p.whole, decide (c ≠ '.') = true := by
    intro c hc
    have hd := Preview.point_notMem fun c hc => p.digits c (List.mem_append_left _ hc)
    exact decide_eq_true fun h => hd (h ▸ hc)
  rw [cutPoint, List.takeWhile_append_of_pos hwhole, List.dropWhile_append_of_pos hwhole, Spelling.point]
  cases p.frac with
  | none => exact Prod.ext (List.append_nil _) rfl
  | some f => exact Prod.ext (List.append_nil _) rfl

theorem formatAmount_text (p : Spelling) :
    formatAmount p.text = (if p.neg then ['-'] else []) ++ group p.whole.length 0 p.whole ++
      '.' :: padFrac (trimZeros (p.frac.getD [])) := by
  have hhead := p.head?_body
  cases hn : p.neg with
  | false =>
    have htext : p.text = p.whole ++ p.point := by rw [Spelling.text, hn]; rfl
    rw [formatAmount, htext]
    simp only [if_neg hhead, cutPoint_body]
    rfl
  | true =>
    have htext : p.text = '-' :: (p.whole ++ p.point) := by rw [Spelling.text, hn]; rfl
    rw [formatAmount, htext]
    simp only [List.head?_cons, if_true, List.drop_one, List.tail_cons, cutPoint_body]

end Printing

/-! ### The client's regular expressions -/

namespace Web

theorem isWord_of_isDigit {c : Char} (h : c.isDigit = true) : isWord c = true := by
  rw [isWord, Char.isAlphanum, h, Bool.or_true, Bool.true_or]

/-- Between digits the client separates where the server does. -/
theorem separate_eq_group {len i : ℕ} {before : Option Char} {cs : Text} (hlen : i + cs.length = len)
    (hbefore : before.any isWord = decide (0 < i)) (hd : ∀ c ∈ cs, c.isDigit = true) :
    separate before cs = Printing.group len i cs := by
  induction cs generalizing i before with
  | nil => rfl
  | cons c cs ih =>
    rw [List.length_cons] at hlen
    have hc := isWord_of_isDigit (hd c (List.mem_cons_self ..))
    have ih : separate (some c) cs = Printing.group len (i + 1) cs :=
      ih (by omega) (hc.trans (decide_eq_true (Nat.succ_pos i)).symm) fun d hd' => hd d (List.mem_cons_of_mem _ hd')
    have hall : (c :: cs).all Char.isDigit = true := List.all_eq_true.2 hd
    have hthree : threesToEnd (c :: cs) = decide ((len - i) % 3 = 0) := by
      have hrest : len - i = cs.length + 1 := by omega
      rw [threesToEnd, hall, Bool.and_true, hrest, List.length_cons]
      rfl
    have hbound : noBoundary before c = decide (0 < i) := by
      rw [noBoundary, hbefore, hc]
      simp
    rw [separate, Printing.group, hbound, hthree, ← Bool.decide_and, ih]
    simp only [decide_eq_true_eq]

theorem formatAmount_eq (p : Spelling) : formatAmount p.text = Printing.formatAmount p.text := by
  have hgroup : separate none p.whole = Printing.group p.whole.length 0 p.whole :=
    separate_eq_group (by omega) rfl fun c hc => p.digits c (List.mem_append_left _ hc)
  have hneg : p.text.head? = some '-' ↔ p.neg = true := by
    have hhead := p.head?_body
    rw [Spelling.text]
    cases p.neg with
    | false => exact iff_of_false hhead Bool.false_ne_true
    | true => exact iff_of_true rfl rfl
  have hbody : (if p.neg = true then p.text.drop 1 else p.text) = p.whole ++ p.point := by
    rw [Spelling.text]
    cases p.neg with
    | false => rfl
    | true => rfl
  have hfrac : ((p.whole ++ p.point).splitOn '.')[1]?.getD [] = p.frac.getD [] := by
    rw [Preview.splitOn_body]
    cases p.frac with
    | none => rfl
    | some f => rfl
  rw [Printing.formatAmount_text, formatAmount]
  simp only [hneg, hbody, hfrac]
  rw [Preview.splitOn_body, List.headD_cons, hgroup]
  rfl

end Web

/-! ### Values -/

namespace Printing

variable {p : Spelling}

theorem isDigit_of_mem_trimZeros {c : Char} (h : c ∈ trimZeros (p.frac.getD [])) : c.isDigit = true :=
  p.digits c (List.mem_append_right _ (mem_of_mem_trimZeros h))

/-- Two fractions that differ in zeros at the end. -/
theorem toRat_value_withFrac {frac : Option Text} {hd : ∀ c ∈ frac.getD [], c.isDigit = true} {hne : p.whole ≠ []}
    {k : ℕ} (h : frac.getD [] = trimZeros (p.frac.getD []) ++ List.replicate k '0') :
    (p.withFrac frac hd hne).value.toRat = p.value.toRat := by
  obtain ⟨l, hl⟩ := trimZeros_append_zeros (p.frac.getD [])
  rw [Spelling.toRat_value_zeros hl, Spelling.toRat_value_zeros (p := p.withFrac frac hd hne) h]
  rfl

/-- Without the separators the text is the decimal with the fraction that is shown. -/
theorem exists_amount_shown (hne : p.whole ≠ []) :
    ∃ q : Spelling, q.text = (formatAmount p.text).filter (· ≠ ',') ∧
      q.frac = some (padFrac (trimZeros (p.frac.getD []))) ∧ q.value.toRat = p.value.toRat := by
  obtain ⟨k, hk⟩ := padFrac_zeros (trimZeros (p.frac.getD []))
  have hd : ∀ c ∈ padFrac (trimZeros (p.frac.getD [])), c.isDigit = true := by
    intro c hc
    rw [hk, List.mem_append] at hc
    rcases hc with hc | hc
    · exact isDigit_of_mem_trimZeros hc
    · rw [List.eq_of_mem_replicate hc]
      rfl
  refine ⟨p.withFrac (some (padFrac (trimZeros (p.frac.getD [])))) hd hne, ?_, rfl, toRat_value_withFrac hk⟩
  have hsign : (if p.neg then ['-'] else []).filter (· ≠ ',') = if p.neg then ['-'] else [] := by
    cases p.neg with
    | false => rfl
    | true => rfl
  have hfrac : (padFrac (trimZeros (p.frac.getD []))).filter (· ≠ ',') = padFrac (trimZeros (p.frac.getD [])) :=
    List.filter_eq_self.2 fun c hc => decide_eq_true (comma_ne_of_isDigit (hd c hc))
  rw [formatAmount_text, List.filter_append, List.filter_append, hsign,
    filter_group fun c hc => p.digits c (List.mem_append_left _ hc), List.filter_cons_of_pos (by decide), hfrac,
    List.append_assoc]
  rfl

/-- Without the zeros at its end the fraction may be gone, and the point with it. -/
theorem exists_qty_shown (hne : p.whole ≠ []) :
    ∃ q : Spelling, q.text = formatQty p.text ∧ (∀ f, q.frac = some f → f ≠ [] ∧ f.getLast? ≠ some '0') ∧
      q.value.toRat = p.value.toRat := by
  have hwhole := Preview.point_notMem fun c hc => p.digits c (List.mem_append_left _ hc)
  cases hf : p.frac with
  | none =>
    have htext : p.text = (if p.neg then ['-'] else []) ++ (p.whole ++ []) := by
      rw [Spelling.text, Spelling.point, hf]
      rfl
    have hpoint : '.' ∉ p.text := by
      rw [htext, List.append_nil, List.mem_append, or_iff_left hwhole]
      cases p.neg with
      | false => decide
      | true => decide
    refine ⟨p, ?_, fun f hf' => (Option.some_ne_none f (hf'.symm.trans hf)).elim, rfl⟩
    rw [formatQty, if_neg hpoint]
  | some f =>
    have htext : p.text = ((if p.neg then ['-'] else []) ++ p.whole) ++ '.' :: f := by
      rw [Spelling.text, Spelling.point, hf, List.append_assoc]
      rfl
    have hpoint : '.' ∈ p.text := by
      rw [htext]
      simp
    have hfrac : p.frac.getD [] = f := by rw [hf]; rfl
    have hd : ∀ c ∈ trimZeros f, c.isDigit = true := by
      rw [← hfrac]
      exact fun c hc => isDigit_of_mem_trimZeros hc
    rw [formatQty, if_pos hpoint, htext, trimZeros_point]
    by_cases hnil : trimZeros f = []
    · -- the point is the last character that is left
      refine ⟨p.withFrac none (fun c hc => absurd hc List.not_mem_nil) hne, ?_,
        fun f hf' => (Option.some_ne_none f hf'.symm).elim, toRat_value_withFrac (k := 0) ?_⟩
      · rw [hnil, if_pos (by simp), List.dropLast_concat, Spelling.text, ← List.append_assoc]
        exact List.append_nil _
      · rw [hfrac, hnil]
        rfl
    · have hlast : ((if p.neg then ['-'] else []) ++ p.whole ++ '.' :: trimZeros f).getLast? ≠ some '.' := by
        rw [List.getLast?_append_of_ne_nil _ (List.cons_ne_nil _ _), List.getLast?_cons_of_ne_nil hnil]
        intro hdot
        have hdot := hd _ (List.mem_of_getLast? hdot)
        cases hdot
      refine ⟨p.withFrac (some (trimZeros f)) hd hne, ?_, ?_, toRat_value_withFrac (k := 0) ?_⟩
      · rw [if_neg hlast, Spelling.text, ← List.append_assoc]
        rfl
      · rintro f' hf'
        obtain rfl := Option.some.inj hf'
        exact ⟨hnil, getLast?_trimZeros f⟩
      · rw [hfrac, List.replicate_zero, List.append_nil]
        rfl

/-- A displayed amount, the same in both places, has separators before every third digit from the point and at least two
decimals; without the separators it is the amount, and a displayed quantity is the quantity. -/
theorem displayed_amount (p : Spelling) (hne : p.whole ≠ []) :
    formatAmount p.text = Web.formatAmount p.text ∧
      (∃ g f, formatAmount p.text = (if p.neg then ['-'] else []) ++ g ++ '.' :: f ∧
        g.filter (· ≠ ',') = p.whole ∧ Separated g ∧ 2 ≤ f.length ∧ (2 < f.length → f.getLast? ≠ some '0') ∧
        ∃ q : Spelling, q.text = (formatAmount p.text).filter (· ≠ ',') ∧ q.frac = some f ∧
          q.value.toRat = p.value.toRat) ∧
      ∃ q : Spelling, q.text = formatQty p.text ∧ (∀ f, q.frac = some f → f ≠ [] ∧ f.getLast? ≠ some '0') ∧
        q.value.toRat = p.value.toRat := by
  have hdigits : ∀ c ∈ p.whole, c.isDigit = true := fun c hc => p.digits c (List.mem_append_left _ hc)
  refine ⟨(Web.formatAmount_eq p).symm, ⟨_, _, formatAmount_text p, filter_group hdigits, separated_group hdigits,
    le_length_padFrac _, ?_, exists_amount_shown hne⟩, exists_qty_shown hne⟩
  intro hlt
  rw [padFrac_of_lt hlt]
  exact getLast?_trimZeros _

/-- `-1234567.5000` -/
def overdrawn : Spelling := ⟨true, "1234567".toList, some "5000".toList, List.all_eq_true.1 (by decide +kernel), by decide⟩

theorem displayed_amount_overdrawn :
    formatAmount overdrawn.text = "-1,234,567.50".toList ∧ formatQty overdrawn.text = "-1234567.5".toList ∧
      formatAmount overdrawn.text = Web.formatAmount overdrawn.text :=
  ⟨by decide, by decide, (displayed_amount overdrawn (by decide)).1⟩

end Printing
