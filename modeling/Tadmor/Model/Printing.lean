import Tadmor.Model.AmountText
import Tadmor.Model.PDF

/-!
# Printed documents

A document is laid out from the top down: `y` is where the next text goes.  What is drawn on a page is kept as a list of
drawing operations in their order.
-/

open Banking (Text)
open LiteralString (Bytes)
open PDF (Font width)

namespace Printing

/-! ### A4 in points -/

def pageW : ℚ := 59528 / 100
def pageH : ℚ := 84189 / 100

def marginL : ℚ := 54
def marginR : ℚ := 54
def rightX : ℚ := pageW - marginR
def topY : ℚ := pageH - 54

/-- Content stops here. -/
def bottomY : ℚ := 72

def numX : ℚ := marginL
def descX : ℚ := marginL + 26
def qtyX : ℚ := 360
def priceX : ℚ := 432
def taxX : ℚ := 472
def amountX : ℚ := rightX
def descMax : ℚ := qtyX - 60 - descX

def gray : ℚ := 45 / 100

/-! ### Fitting texts -/

/-- `strings.Fields` -/
def fields (s : Text) : List Text := (s.splitOnP Banking.isSpace).filter (· ≠ [])

/-- The loop that takes runes off the end, from `n` runes on. -/
def shorten (f : Font) (size max : ℚ) (r : Text) : ℕ → Text
  | 0 => []
  | n + 1 => if width f size (r.take (n + 1) ++ ['…']) > max then shorten f size max r n else r.take (n + 1)

def truncate (f : Font) (size max : ℚ) (s : Text) : Text :=
  if width f size s ≤ max then s else shorten f size max s s.length ++ ['…']

/-- A word goes on the line, or the line is full. -/
def wrapWord (f : Font) (size max : ℚ) : List Text × Text → Text → List Text × Text
  | (lines, line), word =>
    let candidate := if line ≠ [] then line ++ ' ' :: word else word
    if width f size candidate > max ∧ line ≠ [] then (lines ++ [line], word) else (lines, candidate)

def wrap (f : Font) (size max : ℚ) (s : Text) : List Text :=
  let (lines, line) := (fields s).foldl (wrapWord f size max) ([], [])
  if line ≠ [] then lines ++ [line] else lines

/-! ### What is printed -/

/-- An organization and its address -/
structure PartyBlock where
  name : Text
  legal : Option Text
  taxID : Option Text
  address : List Text

structure MetaItem where
  label : Text
  value : Text

structure DocLine where
  no : ℕ
  desc : Text
  qty : Text
  unit : Text
  taxRate : Text
  subtotal : Text

structure DocData where
  kind : Text
  number : Text
  status : Text
  currency : Text
  metas : List MetaItem
  partyLabel : Text
  party : PartyBlock
  seller : Option PartyBlock
  unitLabel : Text
  subtotal : Text
  taxTotal : Text
  total : Text
  applied : Text
  balance : Text
  appliedLabel : Text
  balanceLabel : Text
  ref : Option Text
  memo : Option Text
  lines : List DocLine

def DocData.title (d : DocData) : Text :=
  let t := d.kind.map Char.toUpper
  if d.status = "draft".toList then "DRAFT ".toList ++ t
  else if d.status = "void".toList then "VOID ".toList ++ t
  else if d.status = "cancelled".toList then "CANCELLED ".toList ++ t
  else t

/-! ### Drawing -/

inductive Draw where
  | text (f : Font) (size x y gray : ℚ) (s : Text)
  | line (x₁ y₁ x₂ y₂ width gray : ℚ)

namespace Draw

def black (f : Font) (size x y : ℚ) (s : Text) : Draw := .text f size x y 0 s

/-- The text ends at `x`. -/
def blackRight (f : Font) (size x y : ℚ) (s : Text) : Draw := black f size (x - width f size s) y s

def on (num : ℚ → Text) : Draw → PDF.Page → PDF.Page
  | text f size x y gray s => PDF.Page.textGray num f size x y gray s
  | line x₁ y₁ x₂ y₂ width gray => PDF.Page.line num x₁ y₁ x₂ y₂ width gray

end Draw

/-- `*s` where it is there and not empty -/
def present (s : Option Text) : Option Text := s.filter (· ≠ [])

/-- Texts under one another, and where the next one goes -/
def column (x y step : ℚ) : List Text → List Draw × ℚ
  | [] => ([], y)
  | s :: rest =>
    let (draws, below) := column x (y - step) step rest
    (.text .helvetica 9 x y gray s :: draws, below)

def partyText (x y nameSize : ℚ) (b : PartyBlock) : List Draw × ℚ :=
  let legal := ((present b.legal).filter (· ≠ b.name)).toList
  let taxID := ((present b.taxID).map ("Tax ID: ".toList ++ ·)).toList
  let (draws, below) := column x (y - 13) 12 (legal ++ b.address ++ taxID)
  (.black .helveticaBold nameSize x y b.name :: draws, below)

/-- The column headings, and where the first row goes -/
def tableHeader (y : ℚ) (unitLabel : Text) : List Draw × ℚ :=
  let h (x : ℚ) (label : Text) (rightAlign : Bool) : Draw :=
    .text .helveticaBold 8 (if rightAlign then x - width .helveticaBold 8 label else x) y gray label
  ([h numX "#".toList false, h descX "DESCRIPTION".toList false, h qtyX "QTY".toList true, h priceX unitLabel true,
    h taxX "TAX %".toList true, h amountX "AMOUNT".toList true,
    .line marginL (y - 6) rightX (y - 6) (8 / 10) (2 / 10)], y - 6 - 14)

/-- The label/value rows at the top right -/
def metaRows (y : ℚ) : List MetaItem → List Draw × ℚ
  | [] => ([], y)
  | m :: rest =>
    let (draws, below) := metaRows (y - 13) rest
    (.text .helvetica 9 (rightX - 140) y gray m.label :: .blackRight .helvetica 9 rightX y m.value :: draws, below)

def lineRow (y : ℚ) (l : DocLine) : List Draw × ℚ :=
  ([.text .helvetica 9 numX y gray (Nat.toDigits 10 l.no),
    .black .helvetica 9 descX y (truncate .helvetica 9 descMax l.desc),
    .blackRight .helvetica 9 qtyX y (formatQty l.qty),
    .blackRight .helvetica 9 priceX y (formatAmount l.unit),
    .blackRight .helvetica 9 taxX y (formatQty l.taxRate),
    .blackRight .helvetica 9 amountX y (formatAmount l.subtotal),
    .line marginL (y - 6) rightX (y - 6) (4 / 10) (9 / 10)], y - 6 - 12)

/-- A row of the totals -/
def total (y : ℚ) (label value : Text) (f : Font) : List Draw × ℚ :=
  ([.black f 9 400 y label, .blackRight f 9 rightX y value], y - 14)

def DocData.showsApplied (d : DocData) : Bool := d.appliedLabel ≠ [] && formatAmount d.applied ≠ "0.00".toList

def totals (y : ℚ) (d : DocData) : List Draw × ℚ :=
  let (subtotal, y) := total y "Subtotal".toList (formatAmount d.subtotal) .helvetica
  let (tax, y) := total y "Tax".toList (formatAmount d.taxTotal) .helvetica
  let rule := Draw.line 400 (y + 9) rightX (y + 9) (8 / 10) (2 / 10)
  let y := y - 2
  let (sum, y) := total y "Total".toList (d.currency ++ ' ' :: formatAmount d.total) .helveticaBold
  if d.showsApplied then
    let (applied, y) := total y d.appliedLabel (formatAmount d.applied) .helvetica
    let (balance, y) := total y d.balanceLabel (d.currency ++ ' ' :: formatAmount d.balance) .helveticaBold
    (subtotal ++ tax ++ rule :: sum ++ applied ++ balance, y)
  else (subtotal ++ tax ++ rule :: sum, y)

/-- The reference and the memo -/
def notes (y : ℚ) (d : DocData) : List Draw × ℚ :=
  let ref := ((present d.ref).map ("Reference: ".toList ++ ·)).toList
  let memo := ((present d.memo).map (wrap .helvetica 9 (rightX - marginL))).getD []
  column marginL y 13 (ref ++ memo)

/-! ### The layout -/

structure Layout where
  /-- the pages before the current one -/
  before : List (List Draw)
  page : List Draw
  y : ℚ
  pageCount : ℕ

namespace Layout

def addPage (l : Layout) : Layout :=
  { l with before := l.before ++ [l.page], page := [], pageCount := l.pageCount + 1 }

def draw (l : Layout) : List Draw × ℚ → Layout
  | (draws, y) => { l with page := l.page ++ draws, y := y }

/-- A row goes on the page, or on a new one below the headings. -/
def line (d : DocData) (l : Layout) (row : DocLine) : Layout :=
  let l := if l.y < bottomY + 20 then l.addPage.draw (tableHeader topY d.unitLabel) else l
  l.draw (lineRow l.y row)

def pages (l : Layout) : List (List Draw) := l.before ++ [l.page]

end Layout

/-- The title, the header and the parties; the headings of the table go below them. -/
def front (d : DocData) : List Draw × ℚ :=
  let title := Draw.blackRight .helveticaBold 20 rightX (topY - 6) d.title
  let (metas, metaY) := metaRows (topY - 36) d.metas
  let (seller, y) := match d.seller with
    | some seller => partyText marginL (topY - 6) 11 seller
    | none => ([], topY - 6)
  let y := if y > metaY then metaY else y
  let y := y - 28
  let label := Draw.text .helveticaBold 8 marginL y gray d.partyLabel
  let y := y - 14
  let (party, y) := partyText marginL y 10 d.party
  (title :: metas ++ seller ++ label :: party, y - 24)

/-- The document without the footers -/
def layout (d : DocData) : Layout :=
  let l : Layout := { before := [], page := [], y := topY, pageCount := 1 }
  let l := l.draw (front d)
  let l := l.draw (tableHeader l.y d.unitLabel)
  let l := d.lines.foldl (Layout.line d) l
  let l := if l.y < bottomY + 110 then { l.addPage with y := topY } else l
  let l := l.draw (totals (l.y - 8) d)
  l.draw (notes (l.y - 14) d)

/-- `%s %s  ·  Page %d of %d` -/
def footer (d : DocData) (i pageCount : ℕ) : Draw :=
  let s := d.kind ++ ' ' :: d.number ++ "  ·  Page ".toList ++ Nat.toDigits 10 i ++ " of ".toList ++
    Nat.toDigits 10 pageCount
  .text .helvetica 8 ((pageW - width .helvetica 8 s) / 2) 40 gray s

/-- What is drawn on each page -/
def sheets (d : DocData) : List (List Draw) :=
  let l := layout d
  l.pages.mapIdx fun i page => page ++ [footer d (i + 1) l.pageCount]

def renderDoc (num : ℚ → Text) (compress : Bytes → Bytes) (d : DocData) : Bytes :=
  PDF.bytes num compress ((sheets d).map fun draws =>
    draws.foldl (fun p draw => draw.on num p) { width := pageW, height := pageH, content := [] })

end Printing
