import Mathlib.Data.List.Basic

/-!
# Literal strings

A literal string of a PDF file stands between parentheses.  Parentheses within it are balanced or escaped by a
backslash; an escape may also be a letter or up to three octal digits, and an end of line after a backslash is left out.
A carriage return, alone or with a line feed after it, is read as a line feed.
-/

namespace LiteralString

abbrev Bytes := List UInt8

def lineFeed : UInt8 := 10
def carriageReturn : UInt8 := 13
def openParen : UInt8 := 40
def closeParen : UInt8 := 41
def backslash : UInt8 := 92

def isOctal (c : UInt8) : Bool := 48 ≤ c && c ≤ 55

/-- The byte of octal digits; what exceeds a byte is lost. -/
def octal (digits : Bytes) : UInt8 := digits.foldl (fun v d => 8 * v + (d - 48)) 0

/-- The rest of an end of line that began with a carriage return -/
def dropLineFeed (cs : Bytes) : Bytes := if cs.head? = some lineFeed then cs.tail else cs

/-- What an escape stands for, and the bytes that follow it. -/
def readEscape : Bytes → Option (Bytes × Bytes)
  | [] => none
  | c :: cs =>
    if isOctal c then
      let digits := ((c :: cs).take 3).takeWhile isOctal
      some ([octal digits], (c :: cs).drop digits.length)
    else if c = lineFeed then some ([], cs)
    else if c = carriageReturn then some ([], dropLineFeed cs)
    else if c = 110 then some ([lineFeed], cs)
    else if c = 114 then some ([carriageReturn], cs)
    else if c = 116 then some ([9], cs)
    else if c = 98 then some ([8], cs)
    else if c = 102 then some ([12], cs)
    else some ([c], cs)

theorem length_dropLineFeed (cs : Bytes) : (dropLineFeed cs).length ≤ cs.length := by
  rw [dropLineFeed]
  split
  · rw [List.length_tail]
    omega
  · exact Nat.le_refl _

theorem length_readEscape {cs v rest : Bytes} (h : readEscape cs = some (v, rest)) : rest.length ≤ cs.length := by
  cases cs with
  | nil => cases h
  | cons c cs =>
    have hline := length_dropLineFeed cs
    rw [readEscape] at h
    split_ifs at h <;> cases h
    · rw [List.length_drop]
      omega
    all_goals
      rw [List.length_cons]
      omega

/-- The string whose bytes these are, inside `depth` more pairs of parentheses, and the bytes that follow it. -/
def readBody (depth : ℕ) : Bytes → Option (Bytes × Bytes)
  | [] => none
  | c :: cs =>
    if c = closeParen then
      if depth = 0 then some ([], cs) else (readBody (depth - 1) cs).map fun (s, rest) => (c :: s, rest)
    else if c = openParen then (readBody (depth + 1) cs).map fun (s, rest) => (c :: s, rest)
    else if c = backslash then
      match h : readEscape cs with
      | none => none
      | some (v, after) =>
        have := length_readEscape h
        (readBody depth after).map fun (s, rest) => (v ++ s, rest)
    else if c = carriageReturn then
      have := length_dropLineFeed cs
      (readBody depth (dropLineFeed cs)).map fun (s, rest) => (lineFeed :: s, rest)
    else (readBody depth cs).map fun (s, rest) => (c :: s, rest)
termination_by cs => cs.length

def read : Bytes → Option (Bytes × Bytes)
  | [] => none
  | c :: cs => if c = openParen then readBody 0 cs else none

/-- The string that starts at `i`, and where it ends. -/
def readAt (stream : Bytes) (i : ℕ) : Option (Bytes × ℕ) :=
  (read (stream.drop i)).map fun (s, rest) => (s, stream.length - rest.length)

/-! ### One step of the reader -/

variable {depth : ℕ} {c : UInt8} {cs v rest : Bytes}

theorem readBody_close : readBody 0 (closeParen :: cs) = some ([], cs) := by
  rw [readBody, if_pos rfl, if_pos rfl]

/-- A byte that is no delimiter stands for itself. -/
theorem readBody_plain (h : c ≠ closeParen ∧ c ≠ openParen ∧ c ≠ backslash ∧ c ≠ carriageReturn) :
    readBody depth (c :: cs) = (readBody depth cs).map fun (s, rest) => (c :: s, rest) := by
  obtain ⟨h₁, h₂, h₃, h₄⟩ := h
  rw [readBody, if_neg h₁, if_neg h₂, if_neg h₃, if_neg h₄]

theorem readBody_escape (h : readEscape cs = some (v, rest)) :
    readBody depth (backslash :: cs) = (readBody depth rest).map fun (s, rest) => (v ++ s, rest) := by
  rw [readBody, if_neg (by decide), if_neg (by decide), if_pos rfl]
  split
  · next hnone => cases hnone.symm.trans h
  · next heq =>
    cases heq.symm.trans h
    rfl

end LiteralString
