import Mathlib.Algebra.Order.Ring.Rat
import Mathlib.Data.List.Chain
import Mathlib.Tactic.Linarith
import Mathlib.Tactic.NormNum
import Tadmor.Model.Printing

/-!
# What stays on the page

All places on a page are a whole number of points below its top, 715 of which are above the footer.  The rows of the
table and the totals turn the page in time; the header and the memo do not, so they stay on the page when they are short
enough.
-/

open Banking (Text)
open PDF (Font width)

namespace Printing

/-! ### Depths -/

theorem bottomY_le_iff {k : ℕ} : bottomY ≤ topY - k ↔ k ≤ 715 := by
  have hval : bottomY ≤ topY - k ↔ (k : ℚ) ≤ 71589 / 100 := by
    rw [bottomY, topY, pageH]
    constructor <;> intro h <;> linarith
  rw [hval]
  constructor
  · intro h
    by_contra hlt
    have hge : 716 ≤ k := by omega
    have hge : (716 : ℚ) ≤ k := by exact_mod_cast hge
    linarith
  · intro h
    have hle : (k : ℚ) ≤ 715 := by exact_mod_cast h
    linarith

theorem lt_bottomY_rows_iff {k : ℕ} : topY - k < bottomY + 20 ↔ 696 ≤ k := by
  have h := bottomY_le_iff (k := k + 20)
  have hval : bottomY ≤ topY - ((k + 20 : ℕ) : ℚ) ↔ bottomY + 20 ≤ topY - k := by
    push_cast
    constructor <;> intro h <;> linarith
  rw [← not_le, ← hval, h]
  omega

theorem lt_bottomY_totals_iff {k : ℕ} : topY - k < bottomY + 110 ↔ 606 ≤ k := by
  have h := bottomY_le_iff (k := k + 110)
  have hval : bottomY ≤ topY - ((k + 110 : ℕ) : ℚ) ↔ bottomY + 110 ≤ topY - k := by
    push_cast
    constructor <;> intro h <;> linarith
  rw [← not_le, ← hval, h]
  omega

theorem sub_depth {y : ℚ} {k n : ℕ} (h : y = topY - k) : y - n = topY - ((k + n : ℕ) : ℚ) := by
  rw [h]
  push_cast
  ring

/-! ### Texts above the footer -/

/-- A text is drawn at or above `b`. -/
def Draw.Above (b : ℚ) : Draw → Prop
  | text _ _ _ y _ _ => b ≤ y
  | line .. => True

instance (b : ℚ) : (draw : Draw) → Decidable (draw.Above b)
  | .text _ _ _ y _ _ => inferInstanceAs (Decidable (b ≤ y))
  | .line .. => .isTrue trivial

def Above (draws : List Draw) : Prop := ∀ draw ∈ draws, draw.Above bottomY

theorem above_nil : Above [] := fun _ h => absurd h List.not_mem_nil

theorem above_append {a b : List Draw} : Above (a ++ b) ↔ Above a ∧ Above b := List.forall_mem_append

theorem above_cons {a : Draw} {b : List Draw} : Above (a :: b) ↔ a.Above bottomY ∧ Above b := List.forall_mem_cons

theorem above_text {f : Font} {size x g : ℚ} {k : ℕ} {s : Text} :
    (Draw.text f size x (topY - k) g s).Above bottomY ↔ k ≤ 715 := bottomY_le_iff

theorem above_line {x₁ y₁ x₂ y₂ w g : ℚ} : (Draw.line x₁ y₁ x₂ y₂ w g).Above bottomY := trivial

/-! ### The sections, by their depth -/

section
variable {k : ℕ}

theorem column_snd (x : ℚ) (step : ℕ) (ss : List Text) :
    (column x (topY - k) step ss).2 = topY - ((k + step * ss.length : ℕ) : ℚ) := by
  induction ss generalizing k with
  | nil => rfl
  | cons s ss ih =>
    have h : (column x (topY - k) step (s :: ss)).2 = (column x (topY - k - step) step ss).2 := rfl
    rw [h, sub_depth rfl, ih, List.length_cons, Nat.mul_succ]
    congr 2
    omega

theorem above_column {x : ℚ} {step : ℕ} {ss : List Text} :
    Above (column x (topY - k) step ss).1 ↔ ss = [] ∨ k + step * (ss.length - 1) ≤ 715 := by
  induction ss generalizing k with
  | nil => exact iff_of_true above_nil (.inl rfl)
  | cons s ss ih =>
    have h : (column x (topY - k) step (s :: ss)).1 =
        .text .helvetica 9 x (topY - k) gray s :: (column x (topY - k - step) step ss).1 := rfl
    rw [h, above_cons, above_text, sub_depth rfl, ih]
    cases ss with
    | nil => simp
    | cons t ss =>
      simp only [List.length_cons, Nat.add_sub_cancel, reduceCtorEq, false_or, Nat.mul_add, Nat.mul_one]
      omega

theorem metaRows_snd (ms : List MetaItem) :
    (metaRows (topY - k) ms).2 = topY - ((k + 13 * ms.length : ℕ) : ℚ) := by
  induction ms generalizing k with
  | nil => rfl
  | cons m ms ih =>
    have h : (metaRows (topY - k) (m :: ms)).2 = (metaRows (topY - k - (13 : ℕ)) ms).2 := rfl
    rw [h, sub_depth rfl, ih, List.length_cons, Nat.mul_succ]
    congr 2
    omega

theorem above_metaRows {ms : List MetaItem} (h : k + 13 * ms.length ≤ 715 + 13) : Above (metaRows (topY - k) ms).1 := by
  induction ms generalizing k with
  | nil => exact above_nil
  | cons m ms ih =>
    rw [List.length_cons] at h
    have hrows : (metaRows (topY - k) (m :: ms)).1 =
        .text .helvetica 9 (rightX - 140) (topY - k) gray m.label ::
          .blackRight .helvetica 9 rightX (topY - k) m.value :: (metaRows (topY - k - (13 : ℕ)) ms).1 := rfl
    rw [hrows, above_cons, above_cons, Draw.blackRight, Draw.black, above_text, above_text, sub_depth rfl]
    exact ⟨by omega, by omega, ih (by omega)⟩

/-- The rows below the name -/
def PartyBlock.rows (b : PartyBlock) : List Text :=
  ((present b.legal).filter (· ≠ b.name)).toList ++ b.address ++ ((present b.taxID).map ("Tax ID: ".toList ++ ·)).toList

theorem partyText_eq (x size : ℚ) (b : PartyBlock) :
    partyText x (topY - k) size b = (.black .helveticaBold size x (topY - k) b.name ::
      (column x (topY - ((k + 13 : ℕ) : ℚ)) (12 : ℕ) b.rows).1,
      topY - ((k + 13 + 12 * b.rows.length : ℕ) : ℚ)) := by
  have h : partyText x (topY - k) size b = (.black .helveticaBold size x (topY - k) b.name ::
      (column x (topY - k - (13 : ℕ)) (12 : ℕ) b.rows).1, (column x (topY - k - (13 : ℕ)) (12 : ℕ) b.rows).2) := rfl
  rw [h, sub_depth rfl, column_snd]

theorem above_partyText {x size : ℚ} {b : PartyBlock} (h : k + 13 + 12 * b.rows.length ≤ 715) :
    Above (partyText x (topY - k) size b).1 := by
  rw [partyText_eq, above_cons, Draw.black, above_text, above_column]
  refine ⟨by omega, ?_⟩
  rcases Nat.eq_zero_or_pos b.rows.length with hz | hpos
  · exact .inl (List.length_eq_zero_iff.1 hz)
  · exact .inr (by omega)

theorem tableHeader_snd (label : Text) : (tableHeader (topY - k) label).2 = topY - ((k + 20 : ℕ) : ℚ) := by
  show topY - k - 6 - 14 = _
  push_cast
  ring

theorem above_tableHeader {label : Text} : Above (tableHeader (topY - k) label).1 ↔ k ≤ 715 := by
  simp only [tableHeader, above_cons, above_text, above_line, above_nil, and_true, and_self]

theorem lineRow_snd (l : DocLine) : (lineRow (topY - k) l).2 = topY - ((k + 18 : ℕ) : ℚ) := by
  show topY - k - 6 - 12 = _
  push_cast
  ring

theorem above_lineRow {l : DocLine} : Above (lineRow (topY - k) l).1 ↔ k ≤ 715 := by
  simp only [lineRow, Draw.blackRight, Draw.black, above_cons, above_text, above_line, above_nil, and_true, and_self]

/-- The depth of the totals, three rows or five -/
def DocData.totalsDepth (d : DocData) : ℕ := if d.showsApplied then 72 else 44

theorem totals_snd (d : DocData) : (totals (topY - k) d).2 = topY - ((k + d.totalsDepth : ℕ) : ℚ) := by
  have h14 : topY - (k : ℚ) - 14 - 14 - 2 - 14 = topY - ((k + 44 : ℕ) : ℚ) := by
    push_cast
    ring
  have h72 : topY - (k : ℚ) - 14 - 14 - 2 - 14 - 14 - 14 = topY - ((k + 72 : ℕ) : ℚ) := by
    push_cast
    ring
  rw [totals, DocData.totalsDepth]
  cases d.showsApplied with
  | false => exact h14
  | true => exact h72

theorem above_totals {d : DocData} (h : k + 58 ≤ 715) : Above (totals (topY - k) d).1 := by
  have h₁ : topY - (k : ℚ) - 14 = topY - ((k + 14 : ℕ) : ℚ) := sub_depth rfl
  have h₂ : topY - ((k + 14 : ℕ) : ℚ) - 14 = topY - ((k + 14 + 14 : ℕ) : ℚ) := sub_depth rfl
  have h₃ : topY - ((k + 14 + 14 : ℕ) : ℚ) - 2 = topY - ((k + 14 + 14 + 2 : ℕ) : ℚ) := sub_depth rfl
  have h₄ : topY - ((k + 14 + 14 + 2 : ℕ) : ℚ) - 14 = topY - ((k + 14 + 14 + 2 + 14 : ℕ) : ℚ) := sub_depth rfl
  have h₅ : topY - ((k + 14 + 14 + 2 + 14 : ℕ) : ℚ) - 14 = topY - ((k + 14 + 14 + 2 + 14 + 14 : ℕ) : ℚ) := sub_depth rfl
  rw [totals]
  cases d.showsApplied with
  | false =>
    simp only [total, h₁, h₂, h₃, Bool.false_eq_true, if_false, Draw.blackRight, Draw.black, above_append, above_cons,
      above_text, above_line, above_nil, and_true, true_and]
    omega
  | true =>
    simp only [total, h₁, h₂, h₃, h₄, h₅, if_true, Draw.blackRight, Draw.black, above_append, above_cons, above_text,
      above_line, above_nil, and_true, true_and]
    omega

/-- The lines that the memo is wrapped into -/
def DocData.memoLines (d : DocData) : List Text :=
  ((present d.memo).map (wrap .helvetica 9 (rightX - marginL))).getD []

def DocData.refLines (d : DocData) : List Text := ((present d.ref).map ("Reference: ".toList ++ ·)).toList

theorem length_refLines_le (d : DocData) : d.refLines.length ≤ 1 := by
  rw [DocData.refLines, Option.length_toList]
  split
  · exact Nat.le_refl 1
  · exact Nat.zero_le 1

theorem above_notes {d : DocData} (h : k ≤ 715) :
    Above (notes (topY - k) d).1 ↔
      d.memoLines = [] ∨ k + 13 * (d.refLines.length + d.memoLines.length - 1) ≤ 715 := by
  have hnotes : notes (topY - k) d = column marginL (topY - k) (13 : ℕ) (d.refLines ++ d.memoLines) := rfl
  have href := length_refLines_le d
  rw [hnotes, above_column, List.length_append]
  constructor
  · rintro (hnil | hle)
    · exact .inl (List.append_eq_nil_iff.1 hnil).2
    · exact .inr hle
  · rintro (hnil | hle)
    · rw [hnil, List.append_nil, List.length_nil]
      exact .inr (by omega)
    · exact .inr hle

end

/-! ### The front -/

def DocData.sellerDepth (d : DocData) : ℕ :=
  match d.seller with
  | some seller => 19 + 12 * seller.rows.length
  | none => 6

/-- Where the headings of the table stand on the first page -/
def DocData.headerDepth (d : DocData) : ℕ :=
  max d.sellerDepth (36 + 13 * d.metas.length) + 79 + 12 * d.party.rows.length

/-- The seller's part of the front -/
def sellerText (d : DocData) : List Draw × ℚ :=
  match d.seller with
  | some seller => partyText marginL (topY - 6) 11 seller
  | none => ([], topY - 6)

theorem sellerText_snd (d : DocData) : (sellerText d).2 = topY - (d.sellerDepth : ℚ) := by
  rw [sellerText, DocData.sellerDepth]
  cases d.seller with
  | none => rfl
  | some seller =>
    have h := congrArg Prod.snd (partyText_eq (k := 6) marginL 11 seller)
    exact h.trans (by push_cast; ring)

theorem above_sellerText {d : DocData} (h : d.sellerDepth ≤ 715) : Above (sellerText d).1 := by
  rw [sellerText]
  rw [DocData.sellerDepth] at h
  cases hs : d.seller with
  | none => exact above_nil
  | some seller =>
    rw [hs] at h
    exact above_partyText (k := 6) (by simp only at h; omega)

/-- Where the parties begin -/
def DocData.partiesDepth (d : DocData) : ℕ := max d.sellerDepth (36 + 13 * d.metas.length)

/-- The parties stand below the title, the header and the seller, whichever ends lower. -/
theorem front_eq (d : DocData) :
    front d = (.blackRight .helveticaBold 20 rightX (topY - 6) d.title :: (metaRows (topY - 36) d.metas).1 ++
      (sellerText d).1 ++ .text .helveticaBold 8 marginL (topY - ((d.partiesDepth + 28 : ℕ) : ℚ)) gray d.partyLabel ::
        (partyText marginL (topY - ((d.partiesDepth + 42 : ℕ) : ℚ)) 10 d.party).1, topY - (d.headerDepth : ℚ)) := by
  have hfront : ∀ y, y = (if (sellerText d).2 > (metaRows (topY - 36) d.metas).2 then (metaRows (topY - 36) d.metas).2
      else (sellerText d).2) → front d =
        (.blackRight .helveticaBold 20 rightX (topY - 6) d.title :: (metaRows (topY - 36) d.metas).1 ++ (sellerText d).1 ++
          .text .helveticaBold 8 marginL (y - 28) gray d.partyLabel :: (partyText marginL (y - 28 - 14) 10 d.party).1,
          (partyText marginL (y - 28 - 14) 10 d.party).2 - 24) := by
    rintro y rfl
    unfold front sellerText
    cases d.seller with
    | none => rfl
    | some seller => rfl
  have hmeta : (metaRows (topY - 36) d.metas).2 = topY - ((36 + 13 * d.metas.length : ℕ) : ℚ) := metaRows_snd (k := 36) _
  have hy : topY - (d.partiesDepth : ℚ) = if (sellerText d).2 > (metaRows (topY - 36) d.metas).2
      then (metaRows (topY - 36) d.metas).2 else (sellerText d).2 := by
    have hlower : (sellerText d).2 > (metaRows (topY - 36) d.metas).2 ↔ d.sellerDepth < 36 + 13 * d.metas.length := by
      rw [sellerText_snd, hmeta, gt_iff_lt, sub_lt_sub_iff_left, Nat.cast_lt]
    by_cases hlt : d.sellerDepth < 36 + 13 * d.metas.length
    · rw [if_pos (hlower.2 hlt), hmeta, DocData.partiesDepth, max_eq_right hlt.le]
    · rw [if_neg (mt hlower.1 hlt), sellerText_snd, DocData.partiesDepth, max_eq_left (not_lt.1 hlt)]
  have hlabel : topY - (d.partiesDepth : ℚ) - 28 = topY - ((d.partiesDepth + 28 : ℕ) : ℚ) := sub_depth rfl
  have hparty : topY - (d.partiesDepth : ℚ) - 28 - 14 = topY - ((d.partiesDepth + 42 : ℕ) : ℚ) := by
    push_cast
    ring
  rw [hfront _ hy, hparty, hlabel, partyText_eq, DocData.headerDepth, ← DocData.partiesDepth]
  refine Prod.ext rfl ?_
  · show topY - ((d.partiesDepth + 42 + 13 + 12 * d.party.rows.length : ℕ) : ℚ) - 24 = _
    push_cast
    ring

theorem above_front {d : DocData} (h : d.headerDepth ≤ 715) : Above (front d).1 := by
  have hparties : d.partiesDepth + 79 + 12 * d.party.rows.length ≤ 715 := h
  have hseller : d.sellerDepth ≤ d.partiesDepth := le_max_left _ _
  have hmetas : 36 + 13 * d.metas.length ≤ d.partiesDepth := le_max_right _ _
  rw [front_eq]
  refine above_append.2 ⟨above_append.2 ⟨above_cons.2 ⟨?_, ?_⟩, ?_⟩, above_cons.2 ⟨?_, ?_⟩⟩
  · exact above_text (k := 6) |>.2 (by omega)
  · exact above_metaRows (k := 36) (by omega)
  · exact above_sellerText (by omega)
  · exact above_text.2 (by omega)
  · exact above_partyText (by omega)

/-! ### The table -/

/-- A row and its depth -/
abbrev Row := ℕ × DocLine

def rowDraws (row : Row) : List Draw := (lineRow (topY - row.1) row.2).1

/-- What stands above the rows of the `i`-th page -/
def pageHead (d : DocData) (i : ℕ) : List Draw :=
  if i = 0 then (front d).1 ++ (tableHeader (topY - d.headerDepth) d.unitLabel).1 else (tableHeader topY d.unitLabel).1

def pageDraws (d : DocData) (i : ℕ) (rows : List Row) : List Draw := pageHead d i ++ rows.flatMap rowDraws

def tablePages (d : DocData) (table : List (List Row)) : List (List Draw) := table.mapIdx (pageDraws d)

/-- Where the next row goes below `n` rows: the first page has room down to depth 696, the other pages for 38 rows. -/
def DocData.rowsDepth (d : DocData) (n : ℕ) : ℕ :=
  let room := (713 - (d.headerDepth + 20)) / 18
  if n ≤ room then d.headerDepth + 20 + 18 * n else 20 + 18 * ((n - room - 1) % 38 + 1)

theorem rowsDepth_zero (d : DocData) : d.rowsDepth 0 = d.headerDepth + 20 := by
  rw [DocData.rowsDepth]
  exact if_pos (Nat.zero_le _)

theorem rowsDepth_succ (d : DocData) (n : ℕ) :
    d.rowsDepth (n + 1) = if 696 ≤ d.rowsDepth n then 38 else d.rowsDepth n + 18 := by
  simp only [DocData.rowsDepth]
  split_ifs <;> omega

/-- The rows are on the pages in their order, each page from the top down. -/
structure Tabled (d : DocData) (lines : List DocLine) (table : List (List Row)) (rows : List Row) (l : Layout) : Prop where
  before : l.before = tablePages d table
  page : l.page = pageDraws d table.length rows
  drawn : (table ++ [rows]).flatten.map Prod.snd = lines
  down : ∀ rs ∈ table ++ [rows], (rs.map Prod.fst).IsChain (· < ·)
  above : ∀ rs ∈ table ++ [rows], ∀ row ∈ rs, row.1 ≤ 715
  last : ∀ k ∈ (rows.map Prod.fst).getLast?, k < d.rowsDepth lines.length
  y : l.y = topY - (d.rowsDepth lines.length : ℚ)
  pageCount : l.pageCount = table.length + 1

theorem tablePages_concat (d : DocData) (table : List (List Row)) (rows : List Row) :
    tablePages d (table ++ [rows]) = tablePages d table ++ [pageDraws d table.length rows] := List.mapIdx_concat

theorem tableHeader_top (label : Text) : (tableHeader topY label).2 = topY - ((20 : ℕ) : ℚ) := by
  show topY - 6 - 14 = _
  push_cast
  ring

/-- A row joins the page, or is the first one of the next. -/
theorem Tabled.line {d : DocData} {lines : List DocLine} {table : List (List Row)} {rows : List Row} {l : Layout}
    (h : Tabled d lines table rows l) (line : DocLine) :
    ∃ table' rows', Tabled d (lines ++ [line]) table' rows' (l.line d line) := by
  have hturn : l.y < bottomY + 20 ↔ 696 ≤ d.rowsDepth lines.length := by rw [h.y, lt_bottomY_rows_iff]
  have hdepth : d.rowsDepth (lines ++ [line]).length =
      if 696 ≤ d.rowsDepth lines.length then 38 else d.rowsDepth lines.length + 18 := by
    rw [List.length_append, List.length_singleton, rowsDepth_succ]
  by_cases hfull : 696 ≤ d.rowsDepth lines.length
  · -- the row is the first on a new page
    have hline : l.line d line =
        (l.addPage.draw (tableHeader topY d.unitLabel)).draw (lineRow (tableHeader topY d.unitLabel).2 line) := by
      rw [Layout.line, if_pos (hturn.2 hfull)]
      rfl
    rw [if_pos hfull] at hdepth
    rw [hline, tableHeader_top]
    refine ⟨table ++ [rows], [(20, line)], ?_, ?_, ?_, ?_, ?_, ?_, ?_, ?_⟩
    · show l.before ++ [l.page] = _
      rw [tablePages_concat, h.before, h.page]
    · show [] ++ (tableHeader topY d.unitLabel).1 ++ (lineRow _ line).1 = _
      rw [List.nil_append, pageDraws, pageHead, if_neg (by simp)]
      simp only [List.flatMap_cons, List.flatMap_nil, List.append_nil]
      rfl
    · rw [List.flatten_append, List.map_append, h.drawn]
      rfl
    · rintro rs hrs
      rcases List.mem_append.1 hrs with hrs | hrs
      · exact h.down rs hrs
      · obtain rfl := List.mem_singleton.1 hrs
        exact List.isChain_singleton _
    · rintro rs hrs
      rcases List.mem_append.1 hrs with hrs | hrs
      · exact h.above rs hrs
      · obtain rfl := List.mem_singleton.1 hrs
        rintro row hrow
        obtain rfl := List.mem_singleton.1 hrow
        show 20 ≤ 715
        omega
    · intro k hk
      have hk : 20 = k := Option.some.inj hk
      rw [hdepth]
      omega
    · rw [hdepth]
      exact lineRow_snd line
    · show l.pageCount + 1 = _
      rw [h.pageCount, List.length_append, List.length_singleton]
  · have hline : l.line d line = l.draw (lineRow l.y line) := by rw [Layout.line, if_neg (mt hturn.1 hfull)]
    rw [if_neg hfull] at hdepth
    rw [hline, h.y]
    refine ⟨table, rows ++ [(d.rowsDepth lines.length, line)], h.before, ?_, ?_, ?_, ?_, ?_, ?_, h.pageCount⟩
    · show l.page ++ (lineRow _ line).1 = _
      rw [h.page, pageDraws, pageDraws, List.flatMap_append, List.append_assoc, List.flatMap_singleton]
      rfl
    · rw [← List.map_singleton (f := Prod.snd) (a := (d.rowsDepth lines.length, line)), ← h.drawn, ← List.map_append]
      simp only [List.flatten_append, List.flatten_singleton, List.append_assoc]
    · rintro rs hrs
      rcases List.mem_append.1 hrs with hrs | hrs
      · exact h.down rs (List.mem_append_left _ hrs)
      · obtain rfl := List.mem_singleton.1 hrs
        rw [List.map_append, List.isChain_append]
        refine ⟨h.down rows (List.mem_append_right _ (List.mem_singleton_self _)), List.isChain_singleton _, ?_⟩
        rintro a ha b hb
        obtain rfl := Option.some.inj hb
        exact h.last a ha
    · rintro rs hrs
      rcases List.mem_append.1 hrs with hrs | hrs
      · exact h.above rs (List.mem_append_left _ hrs)
      · obtain rfl := List.mem_singleton.1 hrs
        rintro row hrow
        rcases List.mem_append.1 hrow with hrow | hrow
        · exact h.above rows (List.mem_append_right _ (List.mem_singleton_self _)) row hrow
        · obtain rfl := List.mem_singleton.1 hrow
          show d.rowsDepth lines.length ≤ 715
          omega
    · rintro k hk
      rw [List.map_append, List.map_singleton, List.getLast?_concat] at hk
      obtain rfl := Option.some.inj hk
      rw [hdepth]
      omega
    · rw [hdepth]
      exact lineRow_snd line

/-- The first page with the headings of the table -/
def opened (d : DocData) : Layout :=
  let l : Layout := { before := [], page := [], y := topY, pageCount := 1 }
  let l := l.draw (front d)
  l.draw (tableHeader l.y d.unitLabel)

theorem tabled_opened (d : DocData) : Tabled d [] [] [] (opened d) := by
  have hy : (front d).2 = topY - (d.headerDepth : ℚ) := congrArg Prod.snd (front_eq d)
  have hdepth : d.rowsDepth ([] : List DocLine).length = d.headerDepth + 20 := rowsDepth_zero d
  refine ⟨rfl, ?_, rfl, ?_, ?_, nofun, ?_, rfl⟩
  · show [] ++ (front d).1 ++ (tableHeader (front d).2 d.unitLabel).1 = _
    rw [hy]
    exact (List.append_nil _).symm
  · rintro rs hrs
    obtain rfl := List.mem_singleton.1 hrs
    exact List.isChain_nil
  · rintro rs hrs
    obtain rfl := List.mem_singleton.1 hrs
    exact fun row hrow => absurd hrow List.not_mem_nil
  · show (tableHeader (front d).2 d.unitLabel).2 = _
    rw [hy, tableHeader_snd, hdepth]

theorem tabled_foldl {d : DocData} {lines rest : List DocLine} {table : List (List Row)} {rows : List Row} {l : Layout}
    (h : Tabled d lines table rows l) :
    ∃ table' rows', Tabled d (lines ++ rest) table' rows' (rest.foldl (Layout.line d) l) := by
  induction rest generalizing lines table rows l with
  | nil =>
    rw [List.append_nil]
    exact ⟨table, rows, h⟩
  | cons line rest ih =>
    obtain ⟨table', rows', hline⟩ := h.line line
    obtain ⟨table'', rows'', hrest⟩ := ih hline
    rw [List.append_assoc] at hrest
    exact ⟨table'', rows'', hrest⟩

/-! ### The totals and the notes -/

/-- Where the totals begin: on a new page when the rows end too low -/
def DocData.totalsTop (d : DocData) : ℕ :=
  if 606 ≤ d.rowsDepth d.lines.length then 0 else d.rowsDepth d.lines.length

def DocData.notesDepth (d : DocData) : ℕ := d.totalsTop + 22 + d.totalsDepth

/-- What follows the rows -/
def tail (d : DocData) : List Draw :=
  (totals (topY - ((d.totalsTop + 8 : ℕ) : ℚ)) d).1 ++ (notes (topY - (d.notesDepth : ℚ)) d).1

/-- The totals and the notes follow the rows on their page or stand on one of their own. -/
theorem exists_tabled (d : DocData) :
    ∃ table rows l, Tabled d d.lines table rows l ∧ (layout d).pageCount = (layout d).pages.length ∧
      ((layout d).pages = tablePages d (table ++ [rows]) ++ [tail d] ∨
        (layout d).pages = tablePages d table ++ [pageDraws d table.length rows ++ tail d]) := by
  obtain ⟨table, rows, h⟩ : ∃ table rows, Tabled d ([] ++ d.lines) table rows (d.lines.foldl (Layout.line d) (opened d)) :=
    tabled_foldl (tabled_opened d)
  rw [List.nil_append] at h
  refine ⟨table, rows, _, h, ?_⟩
  have hlayout : ∀ l, l = d.lines.foldl (Layout.line d) (opened d) → layout d =
      let l := if l.y < bottomY + 110 then { l.addPage with y := topY } else l
      let l := l.draw (totals (l.y - 8) d)
      l.draw (notes (l.y - 14) d) := by
    rintro l rfl
    rfl
  have hturn : (d.lines.foldl (Layout.line d) (opened d)).y < bottomY + 110 ↔ 606 ≤ d.rowsDepth d.lines.length := by
    rw [h.y, lt_bottomY_totals_iff]
  generalize d.lines.foldl (Layout.line d) (opened d) = l at *
  have htail : ∀ l' : Layout, l'.y = topY - (d.totalsTop : ℚ) →
      (totals (l'.y - 8) d).1 ++ (notes ((totals (l'.y - 8) d).2 - 14) d).1 = tail d := by
    rintro l' hy
    have h8 : topY - (d.totalsTop : ℚ) - 8 = topY - ((d.totalsTop + 8 : ℕ) : ℚ) := sub_depth rfl
    have h14 : topY - ((d.totalsTop + 8 + d.totalsDepth : ℕ) : ℚ) - 14 = topY - (d.notesDepth : ℚ) := by
      rw [DocData.notesDepth]
      push_cast
      ring
    rw [hy, h8, totals_snd, h14, tail]
  rw [hlayout l rfl]
  by_cases hlow : 606 ≤ d.rowsDepth d.lines.length
  · have htop : d.totalsTop = 0 := if_pos hlow
    have hpages := htail { l.addPage with y := topY } (by rw [htop]; exact (sub_zero _).symm)
    simp only [if_pos (hturn.2 hlow)]
    constructor
    · show l.pageCount + 1 = (l.before ++ [l.page] ++ [_]).length
      rw [h.pageCount, h.before, tablePages]
      simp only [List.length_append, List.length_mapIdx, List.length_singleton]
    · left
      show l.before ++ [l.page] ++ [[] ++ _ ++ _] = _
      rw [List.nil_append, tablePages_concat, h.before, h.page]
      exact congrArg (fun t => tablePages d table ++ [pageDraws d table.length rows] ++ [t]) hpages
  · have htop : d.totalsTop = d.rowsDepth d.lines.length := if_neg hlow
    have hpages := htail l (by rw [htop, h.y])
    simp only [if_neg (mt hturn.1 hlow)]
    constructor
    · show l.pageCount = (l.before ++ [_]).length
      rw [h.pageCount, h.before, tablePages]
      simp only [List.length_append, List.length_mapIdx, List.length_singleton]
    · right
      show l.before ++ [l.page ++ _ ++ _] = _
      rw [h.before, h.page, List.append_assoc]
      exact congrArg (fun t => tablePages d table ++ [pageDraws d table.length rows ++ t]) hpages

theorem above_pageDraws {d : DocData} {i : ℕ} {rows : List Row} (h : ∀ row ∈ rows, row.1 ≤ 715) :
    Above (pageDraws d i rows) ↔ (i = 0 → d.headerDepth ≤ 715) := by
  have hrows : Above (rows.flatMap rowDraws) := by
    rintro draw hdraw
    obtain ⟨row, hrow, hdraw⟩ := List.mem_flatMap.1 hdraw
    exact above_lineRow.2 (h row hrow) draw hdraw
  rw [pageDraws, above_append, and_iff_left hrows, pageHead]
  by_cases hi : i = 0
  · rw [if_pos hi, above_append, above_tableHeader]
    exact ⟨fun h _ => h.2, fun h => ⟨above_front (h hi), h hi⟩⟩
  · rw [if_neg hi]
    have htop : Above (tableHeader topY d.unitLabel).1 := by
      have h : Above (tableHeader (topY - (0 : ℕ)) d.unitLabel).1 := above_tableHeader.2 (by omega)
      rwa [Nat.cast_zero, sub_zero] at h
    exact iff_of_true htop fun h => absurd h hi

/-- The first page decides, since the others begin with the headings of the table. -/
theorem above_tablePages {d : DocData} {table : List (List Row)} (hne : table ≠ [])
    (h : ∀ rs ∈ table, ∀ row ∈ rs, row.1 ≤ 715) :
    (∀ page ∈ tablePages d table, Above page) ↔ d.headerDepth ≤ 715 := by
  constructor
  · intro hall
    have hpos : 0 < table.length := List.length_pos_iff.2 hne
    have hfirst := hall _ (List.mem_mapIdx.2 ⟨0, hpos, rfl⟩)
    exact (above_pageDraws (h _ (List.getElem_mem hpos))).1 hfirst rfl
  · rintro hle page hpage
    obtain ⟨i, hi, rfl⟩ := List.mem_mapIdx.1 hpage
    exact (above_pageDraws (h _ (List.getElem_mem hi))).2 fun _ => hle

theorem above_tail {d : DocData} :
    Above (tail d) ↔ d.memoLines = [] ∨ d.notesDepth + 13 * (d.refLines.length + d.memoLines.length - 1) ≤ 715 := by
  have htop : d.totalsTop ≤ 605 := by
    rw [DocData.totalsTop]
    split_ifs <;> omega
  have hdepth : d.totalsDepth ≤ 72 := by
    rw [DocData.totalsDepth]
    split <;> omega
  have hnotes : d.notesDepth ≤ 715 := by
    rw [DocData.notesDepth]
    omega
  rw [tail, above_append, above_notes hnotes, and_iff_right (above_totals (by omega))]

/-! ### The document -/

/-- The texts of the document stay above the footer, its lines are drawn once each and in their order, and the footers
count the pages. -/
structure Printed (d : DocData) : Prop where
  above : ∀ page ∈ sheets d, Above page.dropLast
  lines : ∃ table : List (List Row), table.flatten.map Prod.snd = d.lines ∧
    (∀ rows ∈ table, (rows.map Prod.fst).IsChain (· < ·)) ∧
    ((sheets d).map List.dropLast = tablePages d table ++ [tail d] ∨ ∃ init last, table = init ++ [last] ∧
      (sheets d).map List.dropLast = tablePages d init ++ [pageDraws d init.length last ++ tail d])
  footers : ∀ i (hi : i < (sheets d).length), (sheets d)[i].getLast? = some (footer d (i + 1) (sheets d).length)

theorem dropLast_sheets (d : DocData) : (sheets d).map List.dropLast = (layout d).pages := by
  refine List.ext_getElem ((List.length_map ..).trans (List.length_mapIdx ..)) fun i hi hi' => ?_
  simp only [sheets, List.getElem_map, List.getElem_mapIdx, List.dropLast_concat]

/-- A document is printed well when the headings of its table and the last line of its memo have room. -/
theorem printed_iff (d : DocData) :
    Printed d ↔ d.headerDepth ≤ 715 ∧
      (d.memoLines = [] ∨ d.notesDepth + 13 * (d.refLines.length + d.memoLines.length - 1) ≤ 715) := by
  obtain ⟨table, rows, l, h, hcount, hpages⟩ := exists_tabled d
  have hall : (∀ page ∈ sheets d, Above page.dropLast) ↔
      (∀ page ∈ tablePages d (table ++ [rows]), Above page) ∧ Above (tail d) := by
    rw [← List.forall_mem_map (f := List.dropLast) (P := Above), dropLast_sheets]
    rcases hpages with hpages | hpages
    · rw [hpages, List.forall_mem_append, List.forall_mem_singleton]
    · rw [hpages, tablePages_concat, List.forall_mem_append, List.forall_mem_append, List.forall_mem_singleton,
        List.forall_mem_singleton, above_append, and_assoc]
  rw [above_tablePages (by simp) h.above, above_tail] at hall
  constructor
  · exact fun hp => hall.1 hp.above
  · intro hroom
    refine ⟨hall.2 hroom, ⟨table ++ [rows], h.drawn, h.down, ?_⟩, ?_⟩
    · rw [dropLast_sheets]
      exact hpages.imp id fun hpages => ⟨table, rows, rfl, hpages⟩
    · intro i hi
      have hlen : (sheets d).length = (layout d).pages.length := List.length_mapIdx ..
      rw [hlen, ← hcount]
      simp only [sheets, List.getElem_mapIdx, List.getLast?_concat]

/-- An invoice with a memo of forty words, each of which needs a line -/
def longMemo : DocData where
  kind := "Invoice".toList
  number := "INV-1".toList
  status := "posted".toList
  currency := "USD".toList
  metas := []
  partyLabel := "BILL TO".toList
  party := { name := "Acme".toList, legal := none, taxID := none, address := [] }
  seller := none
  unitLabel := "UNIT PRICE".toList
  subtotal := "100.0000".toList
  taxTotal := "0.0000".toList
  total := "100.0000".toList
  applied := "0.0000".toList
  balance := "100.0000".toList
  appliedLabel := "Paid".toList
  balanceLabel := "Balance".toList
  ref := none
  memo := some ((List.replicate 40 (List.replicate 40 'W' ++ [' '])).flatten)
  lines := [⟨1, "Widget".toList, "1.0000".toList, "100.0000".toList, "0.0000".toList, "100.0000".toList⟩]

theorem not_printed_longMemo : ¬ Printed longMemo := by
  have hbelow : ∃ page ∈ sheets longMemo, ∃ draw ∈ page.dropLast, ¬ draw.Above bottomY := by
    decide +kernel
  obtain ⟨page, hpage, draw, hdraw, hbelow⟩ := hbelow
  exact fun h => hbelow (h.above page hpage draw hdraw)

end Printing
