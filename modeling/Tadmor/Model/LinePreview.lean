import Tadmor.Model.BankImport

/-!
# The preview of a line

The forms of the web client show the amounts of a line before it is saved: `lib/amount.ts` computes them from the texts
of the inputs, with a `bigint` of ten-thousandths for a decimal.  The database gets the same texts, stores them in its
columns and computes the amounts from these.
-/

namespace Preview

open Banking (Text amountRE numericIn)

/-! ### The client -/

def scale : ℕ := 4

/-- Only of a decimal: the text that goes to `BigInt` has digits alone. -/
def toUnits (value : Text) : ℤ :=
  let neg := value.head? = some '-'
  let parts := (if neg then value.drop 1 else value).splitOn '.'
  let whole := parts.headD []
  let frac := parts[1]?.getD []
  let units : ℤ := numeral (whole ++ (frac.rightpad scale '0').take scale)
  if neg then -units else units

def fromUnits (units : ℤ) : Text :=
  let neg := units < 0
  let digits := (Nat.toDigits 10 units.natAbs).leftpad (scale + 1) '0'
  (if neg then ['-'] else []) ++ digits.take (digits.length - scale) ++ '.' :: digits.drop (digits.length - scale)

/-- The `roundDiv` of the client; the quotient of a `bigint` truncates. -/
def roundDivBigint (n d : ℤ) : ℤ :=
  let q := n.tdiv d
  let r := n.tmod d * 2
  if r ≥ d then q + 1 else if -r ≥ d then q - 1 else q

structure LineAmounts where
  subtotal : Text
  tax : Text
  total : Text
deriving DecidableEq

/-- `AMOUNT_RE` is the expression of the bank import, too. -/
def lineAmounts (quantity unitPrice taxRate : Text) : Option LineAmounts :=
  if [quantity, unitPrice, taxRate].all amountRE then
    let qp := toUnits quantity * toUnits unitPrice
    let subtotal := roundDivBigint qp 10000
    let tax := roundDivBigint (qp * toUnits taxRate) 10000000000
    some { subtotal := fromUnits subtotal, tax := fromUnits tax, total := fromUnits (subtotal + tax) }
  else none

/-! ### The database -/

/-- The numbers of a line in a request. -/
structure LineText where
  quantity : Text
  unitPrice : Text
  taxRate : Text
deriving DecidableEq

def orDefault (s d : Text) : Text := if s = [] then d else s

/-- `$n::numeric` in a column `numeric(precision,4)` -/
def numericColumn (precision : ℕ) (s : Text) : Except Err ℤ := do
  let d ← numericIn s
  ensure ((d.round 4).coeff.natAbs < 10 ^ precision) (.sql .numericValueOutOfRange "numeric field overflow")
  .ok (d.round 4).coeff

/-- The line that the INSERT gets; the rest of it is that of `l`. -/
def LineText.typed (t : LineText) (l : NewDocLine) : Except Err NewDocLine := do
  let quantity ← numericColumn 19 (orDefault t.quantity ['1'])
  let unitPrice ← numericColumn 19 (orDefault t.unitPrice ['0'])
  let taxRate ← numericColumn 7 (orDefault t.taxRate ['0'])
  .ok { l with quantity, unitPrice, taxRate }

/-- `line_subtotal::text`, `tax_amount::text` and `line_total::text` -/
def stored (l : DocLine) : LineAmounts where
  subtotal := (Decimal.mk l.lineSubtotal 4).text
  tax := (Decimal.mk l.taxAmount 4).text
  total := (Decimal.mk l.lineTotal 4).text

end Preview
