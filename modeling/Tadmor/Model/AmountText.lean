import Tadmor.Model.BankImport

/-!
# Amounts for display

Printed documents and the web client show the amounts of the API with separators between the thousands and with the
zeros at the end left out; the two functions work on the text.
-/

open Banking (Text)

/-! ### Printed documents -/

namespace Printing

/-- `strings.TrimRight(s, "0")` -/
def trimZeros (s : Text) : Text := (s.reverse.dropWhile (· = '0')).reverse

/-- `strings.Cut(s, ".")` -/
def cutPoint (s : Text) : Text × Text := (s.takeWhile (· ≠ '.'), (s.dropWhile (· ≠ '.')).drop 1)

/-- `for len(frac) < 2 { frac += "0" }` -/
def padFrac (frac : Text) : Text := frac ++ List.replicate (2 - frac.length) '0'

/-- The loop over the integer part, `len` digits in all, from the index `i` on. -/
def group (len : ℕ) : ℕ → Text → Text
  | _, [] => []
  | i, c :: cs => if 0 < i ∧ (len - i) % 3 = 0 then ',' :: c :: group len (i + 1) cs else c :: group len (i + 1) cs

def formatAmount (s : Text) : Text :=
  let (sign, s) := if s.head? = some '-' then (['-'], s.drop 1) else ([], s)
  let (intPart, frac) := cutPoint s
  sign ++ group intPart.length 0 intPart ++ '.' :: padFrac (trimZeros frac)

def formatQty (s : Text) : Text :=
  if '.' ∈ s then
    let s := trimZeros s
    if s.getLast? = some '.' then s.dropLast else s
  else s

end Printing

/-! ### The web client -/

namespace Web

/-- `\w` -/
def isWord (c : Char) : Bool := c.isAlphanum || c = '_'

/-- `\B` between two characters, the first of which is missing at the start -/
def noBoundary (before : Option Char) (after : Char) : Bool := before.any isWord = isWord after

/-- `(?=(\d{3})+$)` -/
def threesToEnd (rest : Text) : Bool := rest ≠ [] && rest.length % 3 = 0 && rest.all Char.isDigit

/-- `.replace(/\B(?=(\d{3})+$)/g, ",")` on what follows the character `before` -/
def separate : Option Char → Text → Text
  | _, [] => []
  | before, c :: cs =>
    if noBoundary before c && threesToEnd (c :: cs) then ',' :: c :: separate (some c) cs
    else c :: separate (some c) cs

/-- `.replace(/0+$/, "")` -/
def dropZeros (s : Text) : Text := (s.reverse.dropWhile (· = '0')).reverse

def formatAmount (value : Text) : Text :=
  let neg := value.head? = some '-'
  let parts := (if neg then value.drop 1 else value).splitOn '.'
  let whole := parts.headD []
  let frac := parts[1]?.getD []
  (if neg then ['-'] else []) ++ separate none whole ++ '.' :: (dropZeros frac).rightpad 2 '0'

end Web
