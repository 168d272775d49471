import Mathlib.Data.Nat.Notation
import Mathlib.Data.List.Basic
import Mathlib.Tactic.Lemma

/-!
# Base64

Three bytes are written as four characters of the standard alphabet, and one or two bytes at the end are padded with
`=`.  The decoder passes over line breaks, wherever they are, and does not look at the bits that padding leaves over.
It gives back what was encoded, however the text was broken into lines.
-/

namespace Base64

def alphabet : List Char := "ABCDEFGHIJKLMNOPQRSTUVWXYZabcdefghijklmnopqrstuvwxyz0123456789+/".toList

def digit (n : ℕ) : Char := alphabet.getD n '='

/-- The number that a character of the alphabet stands for. -/
def value (c : Char) : Option ℕ := alphabet.idxOf? c

theorem value_digit {n : ℕ} (h : n < 64) : value (digit n) = some n := by
  have hall : ∀ m : Fin 64, value (digit m) = some m := by decide +kernel
  exact hall ⟨n, h⟩

theorem digit_mem {n : ℕ} (h : n < 64) : digit n ∈ alphabet := by
  have hall : ∀ m : Fin 64, digit m ∈ alphabet := by decide +kernel
  exact hall ⟨n, h⟩

def byte (n : ℕ) : UInt8 := UInt8.ofNat n

def encode : List UInt8 → List Char
  | [] => []
  | [a] => [digit (a.toNat / 4), digit (a.toNat % 4 * 16), '=', '=']
  | [a, b] => [digit (a.toNat / 4), digit (a.toNat % 4 * 16 + b.toNat / 16), digit (b.toNat % 16 * 4), '=']
  | a :: b :: c :: rest =>
    digit (a.toNat / 4) :: digit (a.toNat % 4 * 16 + b.toNat / 16) :: digit (b.toNat % 16 * 4 + c.toNat / 64) ::
      digit (c.toNat % 64) :: encode rest

/-- Four characters of the alphabet. -/
def full (x y z t : Char) : Option (List UInt8) := do
  let v ← value x
  let w ← value y
  let u ← value z
  let s ← value t
  some [byte (v * 4 + w / 16), byte (w % 16 * 16 + u / 4), byte (u % 4 * 64 + s)]

/-- The last four characters, which may be padded. -/
def last (x y z t : Char) : Option (List UInt8) :=
  if t ≠ '=' then full x y z t
  else if z ≠ '=' then do
    let v ← value x
    let w ← value y
    let u ← value z
    some [byte (v * 4 + w / 16), byte (w % 16 * 16 + u / 4)]
  else do
    let v ← value x
    let w ← value y
    some [byte (v * 4 + w / 16)]

def decodeQuanta : List Char → Option (List UInt8)
  | [] => some []
  | [x, y, z, t] => last x y z t
  | x :: y :: z :: t :: rest => do
    let bs ← full x y z t
    let bytes ← decodeQuanta rest
    some (bs ++ bytes)
  | _ => none

def isBreak (c : Char) : Bool := c = '\r' || c = '\n'

def decode (cs : List Char) : Option (List UInt8) := decodeQuanta (cs.filter fun c => !isBreak c)

/-! ### Encoding -/

theorem byte_eq {n : ℕ} {a : UInt8} (h : n = a.toNat) : byte n = a := by
  rw [byte, h]
  exact UInt8.ofNat_toNat

theorem digit_ne_pad {n : ℕ} (h : n < 64) : digit n ≠ '=' := by
  intro he
  have hmem := digit_mem h
  rw [he] at hmem
  exact absurd hmem (by decide)

/-- Every character is of the alphabet, or padding. -/
theorem mem_encode {bs : List UInt8} {c : Char} (h : c ∈ encode bs) : c ∈ alphabet ∨ c = '=' := by
  induction bs using encode.induct with
  | case1 => cases h
  | case2 a =>
    have ha := a.toNat_lt
    simp only [encode, List.mem_cons, List.not_mem_nil, or_false] at h
    rcases h with rfl | rfl | rfl | rfl
    · exact .inl (digit_mem (by omega))
    · exact .inl (digit_mem (by omega))
    · exact .inr rfl
    · exact .inr rfl
  | case3 a b =>
    have ha := a.toNat_lt
    have hb := b.toNat_lt
    simp only [encode, List.mem_cons, List.not_mem_nil, or_false] at h
    rcases h with rfl | rfl | rfl | rfl
    · exact .inl (digit_mem (by omega))
    · exact .inl (digit_mem (by omega))
    · exact .inl (digit_mem (by omega))
    · exact .inr rfl
  | case4 a b c rest ih =>
    have ha := a.toNat_lt
    have hb := b.toNat_lt
    have hc := c.toNat_lt
    simp only [encode, List.mem_cons] at h
    rcases h with rfl | rfl | rfl | rfl | h
    · exact .inl (digit_mem (by omega))
    · exact .inl (digit_mem (by omega))
    · exact .inl (digit_mem (by omega))
    · exact .inl (digit_mem (by omega))
    · exact ih h

theorem length_encode (bs : List UInt8) : (encode bs).length = 4 * ((bs.length + 2) / 3) := by
  induction bs using encode.induct with
  | case4 a b c rest ih =>
    simp only [encode, List.length_cons, ih]
    omega
  | _ => simp [encode]

/-! ### The round trip -/

theorem full_digits (a b c : UInt8) :
    full (digit (a.toNat / 4)) (digit (a.toNat % 4 * 16 + b.toNat / 16)) (digit (b.toNat % 16 * 4 + c.toNat / 64))
      (digit (c.toNat % 64)) = some [a, b, c] := by
  have ha := a.toNat_lt
  have hb := b.toNat_lt
  have hc := c.toNat_lt
  unfold full
  rw [value_digit (by omega), value_digit (by omega), value_digit (by omega), value_digit (by omega)]
  simp only [Option.bind_eq_bind, Option.bind_some]
  rw [byte_eq (a := a) (by omega), byte_eq (a := b) (by omega), byte_eq (a := c) (by omega)]

theorem decodeQuanta_encode (bs : List UInt8) : decodeQuanta (encode bs) = some bs := by
  induction bs using encode.induct with
  | case1 => rfl
  | case2 a =>
    have ha := a.toNat_lt
    have hlast : last (digit (a.toNat / 4)) (digit (a.toNat % 4 * 16)) '=' '=' = some [a] := by
      unfold last
      rw [if_neg (by simp), if_neg (by simp), value_digit (by omega), value_digit (by omega)]
      simp only [Option.bind_eq_bind, Option.bind_some]
      rw [byte_eq (a := a) (by omega)]
    exact hlast
  | case3 a b =>
    have ha := a.toNat_lt
    have hb := b.toNat_lt
    have hlast : last (digit (a.toNat / 4)) (digit (a.toNat % 4 * 16 + b.toNat / 16)) (digit (b.toNat % 16 * 4)) '=' =
        some [a, b] := by
      unfold last
      rw [if_neg (by simp), if_pos (digit_ne_pad (by omega)), value_digit (by omega), value_digit (by omega),
        value_digit (by omega)]
      simp only [Option.bind_eq_bind, Option.bind_some]
      rw [byte_eq (a := a) (by omega), byte_eq (a := b) (by omega)]
    exact hlast
  | case4 a b c rest ih =>
    have hc := c.toNat_lt
    unfold encode
    cases hrest : encode rest with
    | nil =>
      rw [hrest] at ih
      cases ih
      have hlast : last (digit (a.toNat / 4)) (digit (a.toNat % 4 * 16 + b.toNat / 16))
          (digit (b.toNat % 16 * 4 + c.toNat / 64)) (digit (c.toNat % 64)) = some [a, b, c] := by
        unfold last
        rw [if_pos (digit_ne_pad (by omega)), full_digits]
      exact hlast
    | cons x xs =>
      rw [hrest] at ih
      rw [decodeQuanta, full_digits, ih]
      · rfl
      · intro h
        cases h

/-- Line breaks do not matter. -/
theorem decode_of_filter {cs : List Char} {bs : List UInt8} (h : (cs.filter fun c => !isBreak c) = encode bs) :
    decode cs = some bs := by
  rw [decode, h, decodeQuanta_encode]

theorem isBreak_encode {bs : List UInt8} {c : Char} (h : c ∈ encode bs) : isBreak c = false := by
  have hall : alphabet.all fun c => !isBreak c := by decide +kernel
  rcases mem_encode h with hc | rfl
  · simpa using List.all_eq_true.1 hall c hc
  · decide

theorem filter_encode (bs : List UInt8) : ((encode bs).filter fun c => !isBreak c) = encode bs := by
  refine List.filter_eq_self.2 fun c hc => ?_
  rw [isBreak_encode hc]
  rfl

theorem decode_encode (bs : List UInt8) : decode (encode bs) = some bs := decode_of_filter (filter_encode bs)

end Base64
