import Mathlib.Data.Nat.Log
import Tadmor.Model.Documents

/-!
# Migration 000020

Documents at schema 19, where the tax of a line divides by 100, and the migration that multiplies by 0.01 instead.
A line stores its amounts; the row trigger of the lines keeps the header of a draft equal to their sums.  The
migration rewrites the stored amounts without firing the trigger.

Only the columns the amounts depend on are here, and the program's writes are those of the present one on these
columns.
-/

namespace Schema19

/-- The scale that `select_div_scale` of Postgres chooses for the quotient of `n * 10 ^ (-12)` by 100: at least 16
significant digits as it estimates them, and at least the scale of the dividend.  Numerics have digits to base
10000. -/
def divScale (n : ℕ) : ℕ :=
  let firstdigit := n / 10000 ^ Nat.log 10000 n
  let weight : ℤ := if n = 0 then 0 else Nat.log 10000 n - 3
  -- the divisor has weight 0 and first digit 100
  let qweight := if firstdigit ≤ 100 then weight - 1 else weight
  (max (16 - qweight * 4) 12).toNat

/-- `round(n / 100, 4)` of the numeric `n * 10 ^ (-12)`: the quotient is rounded to its scale first. -/
def roundedQuotient (n : ℤ) : ℤ :=
  let scale := divScale n.natAbs
  roundDiv (roundDiv (n * 10 ^ scale) (10 ^ 14)) (10 ^ (scale - 4))

/-- A line with its stored amounts. -/
structure DocLine where
  id : ℕ
  docId : ℕ
  lineNo : ℕ
  quantity : ℤ
  unitPrice : ℤ
  taxRate : ℤ
  lineSubtotal : ℤ
  taxAmount : ℤ
  lineTotal : ℤ
deriving DecidableEq

structure Doc where
  id : ℕ
  kind : DocKind
  status : DocStatus := .draft
  subtotal : ℤ := 0
  taxTotal : ℤ := 0
  total : ℤ := 0
deriving DecidableEq

instance : Keyed DocLine ℕ := ⟨DocLine.id⟩
instance : Keyed Doc ℕ := ⟨Doc.id⟩

structure DB where
  docs : Table Doc
  docLines : Table DocLine

abbrev Txn (α : Type) := Prog DB Lock Err α

structure DocLineInput where
  quantity : ℤ := 10 ^ 4
  unitPrice : ℤ := 0
  taxRate : ℤ := 0
deriving DecidableEq

namespace DocLineInput

/-- `round(quantity * unit_price, 4)` -/
def lineSubtotal (l : DocLineInput) : ℤ := roundDiv (l.quantity * l.unitPrice) (10 ^ 4)

/-- `round(quantity * unit_price * tax_rate / 100, 4)` -/
def taxAmount (l : DocLineInput) : ℤ := roundedQuotient (l.quantity * l.unitPrice * l.taxRate)

/-- The row with its generated columns. -/
def row (l : DocLineInput) (docId id lineNo : ℕ) : DocLine :=
  { id, docId, lineNo, quantity := l.quantity, unitPrice := l.unitPrice, taxRate := l.taxRate,
    lineSubtotal := l.lineSubtotal, taxAmount := l.taxAmount, lineTotal := l.lineSubtotal + l.taxAmount }

end DocLineInput

namespace DB

def linesOfDoc (db : DB) (id : ℕ) : List DocLine := db.docLines.rows.filter fun l => l.docId = id

end DB

/-- The checks of a document line. -/
def DocLine.check (db : DB) (kind : DocKind) (l : DocLine) : Except Err Unit := do
  ensure (fits l.quantity && fits l.unitPrice && l.taxRate.natAbs < 10 ^ 7 && fits l.lineSubtotal &&
    fits l.taxAmount && fits l.lineTotal) (.sql .numericValueOutOfRange "lines")
  ensure (if kind.isOrder then 0 < l.quantity else l.quantity ≠ 0) (.sql .checkViolation "lines_quantity_check")
  ensure (0 ≤ l.taxRate) (.sql .checkViolation "lines_tax_rate_check")
  ensure (db.docs.find? l.docId).isSome (.sql .foreignKeyViolation "lines_doc_id_fkey")

def Doc.withTotals (d : Doc) (subtotal taxTotal total : ℤ) : Doc := { d with subtotal, taxTotal, total }

/-- The recompute triggers: nothing unless the document is a draft. -/
def DB.recompute (db : DB) (docId : ℕ) (lines : Table DocLine) : Except Err (Table Doc → Table Doc) := do
  let ls := lines.rows.filter fun l => l.docId = docId
  let subtotal := (ls.map (·.lineSubtotal)).sum
  let taxTotal := (ls.map (·.taxAmount)).sum
  let total := (ls.map (·.lineTotal)).sum
  let draft := db.docs.hit docId (·.status = .draft)
  ensure (draft = [] || fits subtotal && fits taxTotal && fits total) (.sql .numericValueOutOfRange "total")
  .ok fun docs => docs.update draft (·.withTotals subtotal taxTotal total)

/-! ### Operations -/

def insertHeader (kind : DocKind) : Txn ℕ := Prog.exec fun n _ =>
  .ok { res := n, used := 1, act := fun d => { d with docs := d.docs.insert { id := n, kind } } }

def insertLine (kind : DocKind) (docId lineNo : ℕ) (l : DocLineInput) : Txn Unit := Prog.exec fun n db => do
  (l.row docId n lineNo).check db kind
  let recompute ← db.recompute docId (db.docLines.insert (l.row docId n lineNo))
  .ok {
    res := ()
    used := 1
    act := fun d => { docLines := d.docLines.insert (l.row docId n lineNo), docs := recompute d.docs } }

def insertLinesOf (kind : DocKind) (docId : ℕ) : ℕ → List DocLineInput → Txn Unit
  | _, [] => pure ()
  | i, l :: ls => do
    insertLine kind docId (i + 1) l
    insertLinesOf kind docId (i + 1) ls

def deleteDocLines (docId : ℕ) : Txn Unit := Prog.exec fun _ db => do
  let ks := db.docLines.keysWhere fun l => l.docId = docId
  let recompute ← db.recompute docId (db.docLines.erase ks)
  .ok { res := (), act := fun d => { docLines := d.docLines.erase ks, docs := recompute d.docs } }

def createDoc (kind : DocKind) (lines : List DocLineInput) : Txn Unit := do
  let id ← insertHeader kind
  insertLinesOf kind id 0 lines

/-- The write that an update starts with matches drafts only. -/
def isDraft (kind : DocKind) (docId : ℕ) (db : DB) : Bool :=
  (db.docs.find? docId).any fun d => d.kind = kind && d.status = .draft

def updateDoc (kind : DocKind) (docId : ℕ) (lines : List DocLineInput) : Txn Unit := do
  let draft ← Prog.read (isDraft kind docId)
  Prog.require draft (.documents .notDraft s!"documents: {kind.noun} {docId}")
  deleteDocLines docId
  insertLinesOf kind docId 0 lines

/-- `DELETE FROM` a header; its lines cascade. -/
def deleteDoc (kind : DocKind) (docId : ℕ) : Txn Unit := Prog.exec fun _ db => do
  ensure (isDraft kind docId db) (.documents .notDraft s!"documents: {kind.noun} {docId}")
  let ls := db.docLines.keysWhere fun l => l.docId = docId
  .ok { res := (), act := fun d => { docs := d.docs.erase [docId], docLines := d.docLines.erase ls } }

/-- Posting, unposting, confirming, closing and cancelling write the status of a header. -/
def setStatus (docId : ℕ) (status : DocStatus) : Txn Unit := Prog.exec fun _ _ =>
  .ok { res := (), act := fun d => { d with docs := d.docs.update [docId] fun x => { x with status } } }

inductive Op where
  | create (kind : DocKind) (lines : List DocLineInput)
  | update (kind : DocKind) (docId : ℕ) (lines : List DocLineInput)
  | delete (kind : DocKind) (docId : ℕ)
  | setStatus (docId : ℕ) (status : DocStatus)

def transaction : Op → Txn Unit
  | .create kind lines => createDoc kind lines
  | .update kind docId lines => updateDoc kind docId lines
  | .delete kind docId => deleteDoc kind docId
  | .setStatus docId status => setStatus docId status

/-- The databases that operations executed one after another can reach. -/
inductive Reachable : Store DB → Prop where
  | start : Reachable ⟨⟨.empty, .empty⟩, 1⟩
  | step {s s' : Store DB} {op : Op} {gaps : ℕ → ℕ} (h : Reachable s)
      (hs : (transaction op).commit gaps s = .ok ((), s')) : Reachable s'

/-! ### The migration -/

/-- `round(quantity * unit_price * tax_rate * 0.01, 4)` -/
def DocLine.exactTax (l : DocLine) : ℤ := roundDiv (l.quantity * l.unitPrice * l.taxRate) (10 ^ 10)

/-- `SET EXPRESSION` of the two generated columns -/
def DocLine.reexpressed (l : DocLine) : DocLine :=
  { l with taxAmount := l.exactTax
           lineTotal := roundDiv (l.quantity * l.unitPrice) (10 ^ 4) + l.exactTax }

/-- The six `ALTER TABLE`s: every stored amount is computed again, and must fit its column. -/
def exactDivision (db : DB) : Except Err DB := do
  ensure (db.docLines.rows.all fun l => fits l.reexpressed.taxAmount && fits l.reexpressed.lineTotal)
    (.sql .numericValueOutOfRange "lines")
  .ok { db with docLines := db.docLines.map DocLine.reexpressed }

end Schema19
