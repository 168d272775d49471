import Mathlib.Data.List.Sort
import Tadmor.Model.AmountText
import Tadmor.Model.FormDates
import Tadmor.Model.ReportPages

/-!
# Editing a document in the web client

The API sends a document and its lines with dates and decimals as texts.  The form of the document fills its fields from
them and sends the fields back as a request, and the database reads the texts of the request into its columns.
-/

open Banking (Text)

/-! ### What the API sends and gets -/

namespace Api

/-- The fields of a document that its form reads. -/
structure Document where
  status : DocStatus
  number : Text
  partyId : ℕ
  date : Text
  dueDate : Option Text
  currencyCode : Text
deriving DecidableEq

structure DocumentLine where
  productId : Option ℕ
  description : Text
  quantity : Text
  unitAmount : Text
  taxCode : Option Text
  taxRate : Text
  accountId : Option ℕ
  orderLineId : Option ℕ
deriving DecidableEq

structure DocumentLineInput where
  productId : Option ℕ
  description : Text
  quantity : Text
  unitAmount : Text
  accountId : Option ℕ
  taxCode : Option Text
  taxRate : Text
deriving DecidableEq

structure DocumentInput where
  number : Text
  partyId : ℕ
  date : Text
  dueDate : Option Text
  currencyCode : Text
  lines : List DocumentLineInput
deriving DecidableEq

end Api

/-- The due date of an order is the date it is expected at; a credit note has none. -/
def Doc.json (d : Doc) : Api.Document where
  status := d.status
  number := d.number.toList
  partyId := d.partyId
  date := d.date.text
  dueDate := if d.kind.isCreditNote then none else d.dueDate.map Date.text
  currencyCode := d.currencyCode.toList

def DocLine.json (l : DocLine) : Api.DocumentLine where
  productId := l.productId
  description := l.description.toList
  quantity := amountText l.quantity
  unitAmount := amountText l.unitPrice
  taxCode := l.taxCode.map String.toList
  taxRate := amountText l.taxRate
  accountId := l.accountId
  orderLineId := l.orderLineId

/-- The lines of a document in the order of their numbers. -/
def DB.documentLines (db : DB) (docId : ℕ) : List DocLine :=
  (db.linesOfDoc docId).insertionSort fun l m => l.lineNo ≤ m.lineNo

/-! ### The form -/

namespace Web

/-- The characters that `String.prototype.trim` removes -/
def isSpace (c : Char) : Bool :=
  c.toNat ∈ [0x09, 0x0A, 0x0B, 0x0C, 0x0D, 0x20, 0xA0, 0x1680, 0x2028, 0x2029, 0x202F, 0x205F, 0x3000, 0xFEFF] ||
    0x2000 ≤ c.toNat && c.toNat ≤ 0x200A

def trim (s : Text) : Text := Banking.trim isSpace s

/-- `toUpperCase()`, of the letters of currency codes -/
def upper (s : Text) : Text := s.map Char.toUpper

/-- `.replace(/\.?0+$/, "")` of a text with a point -/
def trimAmount (value : Text) : Text :=
  if '.' ∈ value then
    let rest := Printing.trimZeros value
    -- without a zero at the end the expression does not match
    if rest = value then value
    else if rest.getLast? = some '.' then rest.dropLast
    else rest
  else value

/-- What a select holds when nothing is chosen -/
def noneValue : Text := "__none__".toList

def emptyToNull (s : Text) : Option Text :=
  let t := trim s
  if t = [] then none else some t

structure LineState where
  productId : Text
  description : Text
  quantity : Text
  unitAmount : Text
  taxCode : Text
  taxRate : Text
  accountId : Text
deriving DecidableEq

structure FormState where
  partyId : Text
  number : Text
  date : Text
  dueDate : Text
  currencyCode : Text
  lines : List LineState
deriving DecidableEq

/-- `id !== null ? String(id) : NONE` -/
def selected (id : Option ℕ) : Text := id.elim noneValue (Nat.toDigits 10)

/-- `value === NONE ? null : Number(value)`; the select has no other values. -/
def chosen (value : Text) : Option ℕ := if value = noneValue then none else some (numeral value)

/-- What the forms differ in. -/
structure Form where
  noun : String
  party : String
  /-- The message that refuses a document that fulfils an order -/
  orderLinked : Option String
  hasDueDate : Bool

def InvoiceForm : Form where
  noun := "invoices"
  party := "customer"
  orderLinked := some ("This invoice was created from a sales order and cannot be edited. " ++
    "Delete it and invoice the order again instead.")
  hasDueDate := true

def BillForm : Form where
  noun := "bills"
  party := "supplier"
  orderLinked := some ("This bill was created from a purchase order and cannot be edited. " ++
    "Delete it and bill the order again instead.")
  hasDueDate := true

def CreditNoteForm : Form where
  noun := "credit notes"
  party := "customer"
  orderLinked := none
  hasDueDate := false

def SupplierCreditForm : Form where
  noun := "supplier credits"
  party := "supplier"
  orderLinked := none
  hasDueDate := false

def SalesOrderForm : Form where
  noun := "orders"
  party := "customer"
  orderLinked := none
  hasDueDate := true

def PurchaseOrderForm : Form where
  noun := "orders"
  party := "supplier"
  orderLinked := none
  hasDueDate := true

def formOf : DocKind → Form
  | .salesInvoice => InvoiceForm
  | .purchaseBill => BillForm
  | .salesCreditNote => CreditNoteForm
  | .purchaseCreditNote => SupplierCreditForm
  | .salesOrder => SalesOrderForm
  | .purchaseOrder => PurchaseOrderForm

def lineState (l : Api.DocumentLine) : LineState where
  productId := selected l.productId
  description := l.description
  quantity := trimAmount l.quantity
  unitAmount := trimAmount l.unitAmount
  taxCode := l.taxCode.getD noneValue
  taxRate := trimAmount l.taxRate
  accountId := selected l.accountId

/-- The fields of the form, or the message that stands in its place. -/
def Form.load (form : Form) (doc : Api.Document) (lines : List Api.DocumentLine) : Except String FormState :=
  if doc.status ≠ .draft then .error s!"Only draft {form.noun} can be edited."
  else
    match form.orderLinked.filter fun _ => lines.any fun l => l.orderLineId.isSome with
    | some message => .error message
    | none =>
      .ok {
        partyId := Nat.toDigits 10 doc.partyId
        number := doc.number
        date := doc.date
        dueDate := if form.hasDueDate then doc.dueDate.getD [] else []
        currencyCode := doc.currencyCode
        lines := lines.map lineState }

def LineState.input (l : LineState) : Api.DocumentLineInput where
  productId := chosen l.productId
  description := trim l.description
  quantity := trim l.quantity
  unitAmount := trim l.unitAmount
  accountId := chosen l.accountId
  taxCode := if l.taxCode = noneValue then none else some l.taxCode
  taxRate := trim l.taxRate

def Form.handleSubmit (form : Form) (f : FormState) : Except String Api.DocumentInput :=
  if f.partyId = [] then .error s!"Please choose a {form.party}."
  else
    .ok {
      number := trim f.number
      partyId := numeral f.partyId
      date := f.date
      dueDate := if form.hasDueDate then emptyToNull f.dueDate else none
      currencyCode := upper (trim f.currencyCode)
      lines := f.lines.map LineState.input }

end Web

/-! ### What the database reads -/

namespace Api

/-- The line of the INSERT. -/
def DocumentLineInput.typed (l : DocumentLineInput) : Except Err DocLineInput := do
  let row ← Preview.LineText.typed ⟨l.quantity, l.unitAmount, l.taxRate⟩
    { productId := l.productId, description := String.ofList l.description, accountId := l.accountId,
      taxCode := l.taxCode.map String.ofList }
  .ok row.toDocLineInput

def DocumentInput.typed (input : DocumentInput) : Except Err DocInput := do
  let date ← Banking.dateIn input.date
  let dueDate ← input.dueDate.mapM Banking.dateIn
  let lines ← input.lines.mapM DocumentLineInput.typed
  .ok { number := String.ofList input.number, partyId := input.partyId, date, dueDate,
        currencyCode := String.ofList input.currencyCode, lines }

end Api
