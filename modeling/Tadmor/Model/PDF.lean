import Mathlib.Data.Rat.Defs
import Tadmor.Model.BankImport
import Tadmor.Theory.LiteralString

/-!
# The PDF writer

A page collects the bytes of its drawing operations.  The file is written front to back and the offsets of its objects
are noted on the way, for the table at its end.  How a coordinate is printed and how a page is compressed are left open:
`num` and `compress`.
-/

open Banking (Text)
open LiteralString (Bytes)

namespace PDF

/-- The bytes of a text in ASCII -/
def ascii (s : Text) : Bytes := s.map fun c => UInt8.ofNat c.toNat

/-- `%d` -/
def dec (n : ℕ) : Bytes := ascii (Nat.toDigits 10 n)

/-! ### Fonts -/

inductive Font where
  | helvetica
  | helveticaBold
deriving DecidableEq

def helveticaWidths : List ℕ :=
  [0, 0, 0, 0, 0, 0, 0, 0, 0, 0, 0, 0, 0, 0, 0, 0,
    0, 0, 0, 0, 0, 0, 0, 0, 0, 0, 0, 0, 0, 0, 0, 0,
    278, 278, 355, 556, 556, 889, 667, 191, 333, 333, 389, 584, 278, 333, 278, 278,
    556, 556, 556, 556, 556, 556, 556, 556, 556, 556, 278, 278, 584, 584, 584, 556,
    1015, 667, 667, 722, 722, 667, 611, 778, 722, 278, 500, 667, 556, 833, 722, 778,
    667, 778, 722, 667, 611, 722, 667, 944, 667, 667, 611, 278, 278, 278, 469, 556,
    333, 556, 556, 500, 556, 556, 278, 556, 556, 222, 222, 500, 222, 833, 556, 556,
    556, 556, 333, 500, 278, 556, 500, 722, 500, 500, 500, 334, 260, 334, 584, 0,
    556, 0, 222, 556, 333, 1000, 556, 556, 333, 1000, 667, 333, 1000, 0, 611, 0,
    0, 222, 222, 333, 333, 350, 556, 1000, 333, 1000, 500, 333, 944, 0, 500, 667,
    278, 333, 556, 556, 556, 556, 260, 556, 333, 737, 370, 556, 584, 333, 737, 333,
    400, 584, 333, 333, 333, 556, 537, 278, 333, 333, 365, 556, 834, 834, 834, 611,
    667, 667, 667, 667, 667, 667, 1000, 722, 667, 667, 667, 667, 278, 278, 278, 278,
    722, 722, 778, 778, 778, 778, 778, 584, 778, 722, 722, 722, 722, 667, 667, 611,
    556, 556, 556, 556, 556, 556, 889, 500, 556, 556, 556, 556, 278, 278, 278, 278,
    556, 556, 556, 556, 556, 556, 556, 584, 611, 556, 556, 556, 556, 500, 556, 500]

def helveticaBoldWidths : List ℕ :=
  [0, 0, 0, 0, 0, 0, 0, 0, 0, 0, 0, 0, 0, 0, 0, 0,
    0, 0, 0, 0, 0, 0, 0, 0, 0, 0, 0, 0, 0, 0, 0, 0,
    278, 333, 474, 556, 556, 889, 722, 238, 333, 333, 389, 584, 278, 333, 278, 278,
    556, 556, 556, 556, 556, 556, 556, 556, 556, 556, 333, 333, 584, 584, 584, 611,
    975, 722, 722, 722, 722, 667, 611, 778, 722, 278, 556, 722, 611, 833, 722, 778,
    667, 778, 722, 667, 611, 722, 667, 944, 667, 667, 611, 333, 278, 333, 584, 556,
    333, 556, 611, 556, 611, 556, 333, 611, 611, 278, 278, 556, 278, 889, 611, 611,
    611, 611, 389, 556, 333, 611, 556, 778, 556, 556, 500, 389, 280, 389, 584, 0,
    556, 0, 278, 556, 500, 1000, 556, 556, 333, 1000, 667, 333, 1000, 0, 611, 0,
    0, 278, 278, 500, 500, 350, 556, 1000, 333, 1000, 556, 333, 944, 0, 500, 667,
    278, 333, 556, 556, 556, 556, 280, 556, 333, 737, 370, 556, 584, 333, 737, 333,
    400, 584, 333, 333, 333, 611, 556, 278, 333, 333, 365, 556, 834, 834, 834, 611,
    722, 722, 722, 722, 722, 722, 1000, 722, 667, 667, 667, 667, 278, 278, 278, 278,
    722, 722, 778, 778, 778, 778, 778, 584, 778, 722, 722, 722, 722, 667, 667, 611,
    556, 556, 556, 556, 556, 556, 889, 556, 556, 556, 556, 556, 278, 278, 278, 278,
    611, 611, 611, 611, 611, 611, 611, 584, 611, 611, 611, 611, 611, 556, 611, 556]

namespace Font

def res : Font → Text
  | helveticaBold => "/F2".toList
  | helvetica => "/F1".toList

def widths : Font → List ℕ
  | helveticaBold => helveticaBoldWidths
  | helvetica => helveticaWidths

end Font

/-- The runes that WinAnsi places between `0x80` and `0x9F` -/
def winAnsiSpecials : List (Char × UInt8) :=
  [('€', 0x80), ('‚', 0x82), ('ƒ', 0x83), ('„', 0x84), ('…', 0x85), ('†', 0x86), ('‡', 0x87), ('ˆ', 0x88), ('‰', 0x89),
    ('Š', 0x8A), ('‹', 0x8B), ('Œ', 0x8C), ('Ž', 0x8E), ('‘', 0x91), ('’', 0x92), ('“', 0x93), ('”', 0x94), ('•', 0x95),
    ('–', 0x96), ('—', 0x97), ('˜', 0x98), ('™', 0x99), ('š', 0x9A), ('›', 0x9B), ('œ', 0x9C), ('ž', 0x9E), ('Ÿ', 0x9F)]

def encodeRune (r : Char) : UInt8 :=
  if r.toNat < 0x80 then UInt8.ofNat r.toNat
  else if 0xA0 ≤ r.toNat ∧ r.toNat ≤ 0xFF then UInt8.ofNat r.toNat
  else ((winAnsiSpecials.lookup r).getD (UInt8.ofNat '?'.toNat))

def encodeWinAnsi (s : Text) : Bytes := s.map encodeRune

/-- The width of `s` in thousandths of the font size -/
def units (f : Font) (s : Text) : ℕ := ((encodeWinAnsi s).map fun b => f.widths.getD b.toNat 0).sum

def width (f : Font) (size : ℚ) (s : Text) : ℚ := units f s * size / 1000

/-! ### Drawing -/

def escapeByte (c : UInt8) : Bytes :=
  if c = 40 ∨ c = 41 ∨ c = 92 then [92, c]
  else if c = 10 then [92, UInt8.ofNat 'n'.toNat]
  else if c = 13 then [92, UInt8.ofNat 'r'.toNat]
  else [c]

def escapeString (b : Bytes) : Bytes := 40 :: (b.flatMap escapeByte ++ [41])

structure Page where
  width : ℚ
  height : ℚ
  content : Bytes

namespace Page

variable (num : ℚ → Text)

def textGray (f : Font) (size x y gray : ℚ) (s : Text) (p : Page) : Page :=
  { p with
    content := p.content ++ ascii ("BT ".toList ++ f.res ++ ' ' :: num size ++ " Tf ".toList ++ num gray ++
      " g ".toList ++ num x ++ ' ' :: num y ++ " Td ".toList) ++ escapeString (encodeWinAnsi s) ++
      ascii " Tj ET\n".toList }

def text (f : Font) (size x y : ℚ) (s : Text) : Page → Page := textGray num f size x y 0 s

def line (x₁ y₁ x₂ y₂ width gray : ℚ) (p : Page) : Page :=
  { p with
    content := p.content ++ ascii (num width ++ " w ".toList ++ num gray ++ " G ".toList ++ num x₁ ++ ' ' :: num y₁ ++
      " m ".toList ++ num x₂ ++ ' ' :: num y₂ ++ " l S\n".toList) }

end Page

/-! ### The file -/

structure Writer where
  buf : Bytes
  offsets : List ℕ

namespace Writer

def write (b : Bytes) (w : Writer) : Writer := { w with buf := w.buf ++ b }

/-- `offsets = append(offsets, buf.Len())` -/
def mark (w : Writer) : Writer := { w with offsets := w.offsets ++ [w.buf.length] }

def obj (body : Bytes) (w : Writer) : Writer :=
  let w := w.mark
  w.write (dec w.offsets.length ++ ascii " 0 obj\n".toList ++ body ++ ascii "\nendobj\n".toList)

/-- The content stream of a page -/
def stream (compressed : Bytes) (w : Writer) : Writer :=
  let w := w.mark
  let w := w.write (dec w.offsets.length ++ ascii " 0 obj\n<< /Length ".toList ++ dec compressed.length ++
    ascii " /Filter /FlateDecode >>\nstream\n".toList)
  let w := w.write compressed
  w.write (ascii "\nendstream\nendobj\n".toList)

end Writer

section
variable (num : ℚ → Text) (compress : Bytes → Bytes) (pages : List Page)

def header : Bytes := ascii "%PDF-1.4\n%".toList ++ [0xE2, 0xE3, 0xCF, 0xD3, 10]

def kids : Bytes := (List.range pages.length).flatMap fun i => dec (5 + 2 * i) ++ ascii " 0 R ".toList

def catalog : Bytes := ascii "<< /Type /Catalog /Pages 2 0 R >>".toList

def pageTree : Bytes :=
  ascii "<< /Type /Pages /Kids [".toList ++ kids pages ++ ascii "] /Count ".toList ++ dec pages.length ++
    ascii " >>".toList

def fontObject (base : Text) : Bytes :=
  ascii ("<< /Type /Font /Subtype /Type1 /BaseFont /".toList ++ base ++ " /Encoding /WinAnsiEncoding >>".toList)

def pageObject (i : ℕ) (p : Page) : Bytes :=
  ascii ("<< /Type /Page /Parent 2 0 R /MediaBox [0 0 ".toList ++ num p.width ++ ' ' :: num p.height ++
    "] /Resources << /Font << /F1 3 0 R /F2 4 0 R >> >> /Contents ".toList) ++ dec (6 + 2 * i) ++
    ascii " 0 R >>".toList

def writePages (w : Writer) : Writer :=
  pages.zipIdx.foldl (fun w (p, i) => (w.obj (pageObject num i p)).stream (compress p.content)) w

/-- `%010d 00000 n` -/
def entry (off : ℕ) : Bytes := ascii ((Nat.toDigits 10 off).leftpad 10 '0' ++ " 00000 n \n".toList)

def trailer (size xref : ℕ) : Bytes :=
  ascii "trailer\n<< /Size ".toList ++ dec size ++ ascii " /Root 1 0 R >>\nstartxref\n".toList ++ dec xref ++
    ascii "\n%%EOF\n".toList

def bytes : Bytes :=
  let w : Writer := { buf := header, offsets := [] }
  let w := w.obj catalog
  let w := w.obj (pageTree pages)
  let w := w.obj (fontObject "Helvetica".toList)
  let w := w.obj (fontObject "Helvetica-Bold".toList)
  let w := writePages num compress pages w
  let xref := w.buf.length
  let w := w.write (ascii "xref\n0 ".toList ++ dec (w.offsets.length + 1) ++ ascii "\n0000000000 65535 f \n".toList)
  let w := w.write (w.offsets.flatMap entry)
  let w := w.write (trailer (w.offsets.length + 1) xref)
  w.buf

end

end PDF
