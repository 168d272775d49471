import Tadmor.Model.Balances
import Tadmor.Model.Reports

/-!
# Aging

What the customers owe and what is owed to the suppliers, by the days since it was due.
-/

/-- `today - d` -/
def Date.daysSince (today d : Date) : ℤ := (today.dayNumber : ℤ) - d.dayNumber

inductive Bucket where
  | notYetDue
  | days1To30
  | days31To60
  | days61To90
  | daysOver90
deriving DecidableEq

/-- The condition of the bucket on a due date, for the filter of its sum; a comparison with no date does not hold. -/
def Bucket.holds (today : Date) : Bucket → Option Date → Bool
  | notYetDue, due => due.all fun d => today ≤ d
  | days1To30, due => due.any fun d => d < today && today.daysSince d ≤ 30
  | days31To60, due => due.any fun d => 30 < today.daysSince d && today.daysSince d ≤ 60
  | days61To90, due => due.any fun d => 60 < today.daysSince d && today.daysSince d ≤ 90
  | daysOver90, due => due.any fun d => 90 < today.daysSince d

/-- A row of `ar_aging` or `ap_aging` with the nulls replaced by zero. -/
structure AgingRow where
  partyId : ℕ
  totalOutstanding : ℤ
  notYetDue : ℤ
  days1To30 : ℤ
  days31To60 : ℤ
  days61To90 : ℤ
  daysOver90 : ℤ
deriving DecidableEq

namespace DB

/-- The rows of the balance view that the aging is about: posted, with a balance. -/
def agedDocs (db : DB) (side : Side) : List Doc :=
  db.docs.rows.filter fun d =>
    d.kind = side.invoice && d.status = .posted && 0 < (db.invoiceBalance side d).balance

/-- `sum(balance)` over the open documents of the party that satisfy the condition -/
def agingSum (db : DB) (side : Side) (party : ℕ) (cond : Option Date → Bool) : ℤ :=
  (((db.agedDocs side).filter fun d => d.partyId = party && cond d.dueDate).map fun d =>
    (db.invoiceBalance side d).balance).sum

def agingRow (db : DB) (side : Side) (today : Date) (party : ℕ) : AgingRow where
  partyId := party
  totalOutstanding := db.agingSum side party fun _ => true
  notYetDue := db.agingSum side party (Bucket.notYetDue.holds today)
  days1To30 := db.agingSum side party (Bucket.days1To30.holds today)
  days31To60 := db.agingSum side party (Bucket.days31To60.holds today)
  days61To90 := db.agingSum side party (Bucket.days61To90.holds today)
  daysOver90 := db.agingSum side party (Bucket.daysOver90.holds today)

/-- The parties that have open documents, by id, each with its row. -/
def aging (db : DB) (side : Side) (today : Date) : List AgingRow :=
  ((db.parties.rows.filter fun c => c.side = side).insertionSort fun c c' => c.id ≤ c'.id).filterMap fun c =>
    if (db.agedDocs side).any fun d => d.partyId = c.id then some (db.agingRow side today c.id) else none

end DB

def castAging : List AgingRow → Except Err (List AgingRow)
  | [] => .ok []
  | r :: rs => do
    let _ ← numeric r.totalOutstanding
    let _ ← numeric r.notYetDue
    let _ ← numeric r.days1To30
    let _ ← numeric r.days31To60
    let _ ← numeric r.days61To90
    let _ ← numeric r.daysOver90
    let rs ← castAging rs
    .ok (r :: rs)

/-- `ARaging` and `APaging` on the day `today` -/
def Aging (side : Side) (today : Date) (db : DB) : Except Err (List AgingRow) := castAging (db.aging side today)
