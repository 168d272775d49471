import Tadmor.Model.Auth
import Tadmor.Theory.Base64
import Tadmor.Theory.DecimalText

/-!
# Password hashes

A stored hash names its scheme and its iteration count and holds the salt and the derived key, separated by `$`.  The
key derivation of `crypto/pbkdf2` is a parameter: the key of a password, a salt, an iteration count and a length.
-/

namespace Auth

abbrev KeyDerivation := List Char → List UInt8 → ℕ → ℕ → Option (List UInt8)

def hashScheme : List Char := "pbkdf2-sha256".toList

def hashIterations : ℕ := 600000

def keyLen : ℕ := 32

/-- `fmt.Sprintf("%s$%d$%s$%s", …)` -/
def hashText (iterations : ℕ) (salt key : List UInt8) : List Char :=
  ['$'].intercalate [hashScheme, Nat.toDigits 10 iterations, Base64.encode salt, Base64.encode key]

/-- The hash of a password with the salt that is drawn for it. -/
def HashPassword (derive : KeyDerivation) (salt : List UInt8) (password : List Char) : Option (List Char) :=
  (derive password salt hashIterations keyLen).map (hashText hashIterations salt)

/-- `strconv.Atoi` -/
def Atoi (cs : List Char) : Option ℤ :=
  let digits := if cs.head? = some '+' ∨ cs.head? = some '-' then cs.tail else cs
  if digits = [] ∨ digits.any (!·.isDigit) then none
  else if cs.head? = some '-' then if numeral digits ≤ 2 ^ 63 then some (-(numeral digits : ℤ)) else none
  else if numeral digits < 2 ^ 63 then some (numeral digits) else none

/-- The iteration count, the salt and the derived key of a stored hash. -/
def parseHash (stored : List Char) : Option (ℕ × List UInt8 × List UInt8) :=
  match stored.splitOn '$' with
  | [scheme, iterations, salt, want] => do
    guard (scheme = hashScheme)
    let iter ← Atoi iterations
    guard (0 < iter)
    let salt ← Base64.decode salt
    let want ← Base64.decode want
    guard (want ≠ [])
    some (iter.toNat, salt, want)
  | _ => none

def VerifyPassword (derive : KeyDerivation) (stored password : List Char) : Bool :=
  match parseHash stored with
  | none => false
  | some (iter, salt, want) => derive password salt iter want.length = some want

/-- A valid hash of a discarded password. -/
def DummyHash : List Char :=
  "pbkdf2-sha256$600000$wa0Jw4cjxBPg3+gUn0BROw==$1plOTJAJ8tzeDZtf9333ufRXoUpy1yRiBzWhjJzqB0s=".toList

/-- The hashing of the server; `salts` are the salts that are drawn. -/
def pbkdf2Passwords (derive : KeyDerivation) (salts : ℕ → List UInt8) : Passwords where
  HashPassword n password := String.ofList ((HashPassword derive (salts n) password.toList).getD [])
  VerifyPassword stored password := VerifyPassword derive stored.toList password.toList

end Auth
