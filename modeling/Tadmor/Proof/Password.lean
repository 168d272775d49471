import Tadmor.Model.Password
import Tadmor.Proof.Auth

/-!
# Stored passwords

A hash verifies exactly the passwords that derive its key with its own salt and iteration count, so hashes of other
counts stay valid (`verify_hashText`), and what verifies anything at all has the form of a hash (`verify_wellFormed`).
-/

namespace Auth

variable {derive : KeyDerivation} {iterations : ℕ} {salt key : List UInt8} {password : List Char}

/-! ### The text of a hash -/

theorem atoi_toDigits {n : ℕ} (h : n < 2 ^ 63) : Atoi (Nat.toDigits 10 n) = some (n : ℤ) := by
  have hdigit : ∀ c ∈ Nat.toDigits 10 n, c.isDigit = true := fun c hc =>
    Nat.isDigit_of_mem_toDigits (by omega) (by omega) hc
  have hne : Nat.toDigits 10 n ≠ [] := Nat.toDigits_ne_nil
  have hhead : ∀ c, (Nat.toDigits 10 n).head? = some c → c.isDigit = true := fun c hc =>
    hdigit c (List.mem_of_mem_head? hc)
  have hplus : (Nat.toDigits 10 n).head? ≠ some '+' := fun hc => absurd (hhead _ hc) (by decide)
  have hminus : (Nat.toDigits 10 n).head? ≠ some '-' := fun hc => absurd (hhead _ hc) (by decide)
  have hall : ¬(Nat.toDigits 10 n).any (!·.isDigit) = true := by
    rw [List.any_eq_true]
    rintro ⟨c, hc, hd⟩
    rw [hdigit c hc] at hd
    cases hd
  unfold Atoi
  rw [if_neg (not_or.2 ⟨hplus, hminus⟩)]
  simp only [hne, hall, hminus, numeral_toDigits, h, if_false, if_true, false_or, Bool.false_eq_true]

theorem dollar_notMem {bs : List UInt8} : '$' ∉ Base64.encode bs := by
  intro h
  rcases Base64.mem_encode h with hc | hc
  · exact absurd hc (by decide)
  · exact absurd hc (by decide)

theorem parseHash_hashText (h0 : 0 < iterations) (h : iterations < 2 ^ 63) (hkey : key ≠ []) :
    parseHash (hashText iterations salt key) = some (iterations, salt, key) := by
  have hsplit : (hashText iterations salt key).splitOn '$' =
      [hashScheme, Nat.toDigits 10 iterations, Base64.encode salt, Base64.encode key] := by
    refine List.splitOn_intercalate _ (fun l hl => ?_) (by simp)
    simp only [List.mem_cons, List.not_mem_nil, or_false] at hl
    rcases hl with rfl | rfl | rfl | rfl
    · decide
    · intro hc
      exact absurd (Nat.isDigit_of_mem_toDigits (by omega) (by omega) hc) (by decide)
    · exact dollar_notMem
    · exact dollar_notMem
  unfold parseHash
  rw [hsplit]
  simp [guard, atoi_toDigits h, h0, hkey, Base64.decode_encode]

/-- A stored hash verifies the passwords that derive its key with the salt and the iteration count it holds. -/
theorem verify_hashText (h0 : 0 < iterations) (h : iterations < 2 ^ 63) (hkey : key ≠ []) :
    VerifyPassword derive (hashText iterations salt key) password = true ↔
      derive password salt iterations key.length = some key := by
  unfold VerifyPassword
  rw [parseHash_hashText h0 h hkey]
  exact decide_eq_true_iff

/-- The key of one password with one salt; those of the others are not looked at. -/
def horseKey : KeyDerivation := fun password salt iterations n =>
  if password = "horse".toList ∧ salt = [1, 2, 3] ∧ iterations = 1000 ∧ n = 8 then
    some [180, 109, 13, 240, 177, 242, 106, 196]
  else some (List.replicate n 0)

/-- A hash of another iteration count than that of the server. -/
theorem verify_hashText_thousand : VerifyPassword horseKey
    (hashText 1000 [1, 2, 3] [180, 109, 13, 240, 177, 242, 106, 196]) "horse".toList = true := by
  have hkey : horseKey "horse".toList [1, 2, 3] 1000 8 = some [180, 109, 13, 240, 177, 242, 106, 196] := if_pos (by decide)
  exact (verify_hashText (by decide) (by decide) (by decide)).2 hkey

theorem guard_eq_some {p : Prop} [Decidable p] {u : Unit} : (guard p : Option Unit) = some u ↔ p := by
  by_cases hp : p <;> simp [guard, hp]

/-- What verifies a password is a hash of the scheme with a positive iteration count, whose parts decode. -/
theorem verify_wellFormed {stored : List Char} (h : VerifyPassword derive stored password = true) :
    ∃ (iterText saltText keyText : List Char) (iter : ℕ) (salt key : List UInt8),
      stored.splitOn '$' = [hashScheme, iterText, saltText, keyText] ∧ Atoi iterText = some (iter : ℤ) ∧ 0 < iter ∧
      Base64.decode saltText = some salt ∧ Base64.decode keyText = some key ∧ key ≠ [] ∧
      derive password salt iter key.length = some key := by
  unfold VerifyPassword at h
  cases hp : parseHash stored with
  | none =>
    rw [hp] at h
    cases h
  | some parsed =>
    obtain ⟨iter, salt, key⟩ := parsed
    rw [hp] at h
    have hderive : derive password salt iter key.length = some key := of_decide_eq_true h
    unfold parseHash at hp
    split at hp
    · rename_i scheme iterText saltText keyText hsplit
      simp only [Option.bind_eq_bind, Option.bind_eq_some_iff, guard_eq_some] at hp
      obtain ⟨_, hscheme, i, hi, _, hpos, s, hs, k, hk, _, hne, h⟩ := hp
      cases h
      subst hscheme
      refine ⟨iterText, saltText, keyText, i.toNat, salt, key, hsplit, ?_, by omega, hs, hk, hne, hderive⟩
      rw [hi, Int.toNat_of_nonneg hpos.le]
    · cases hp

/-- The hash that a login without a user is checked against costs the same derivation as any that the server stores. -/
theorem dummyHash_cost : ∃ salt key, parseHash DummyHash = some (hashIterations, salt, key) ∧ salt.length = 16 ∧
    key.length = keyLen := by
  have hp : (parseHash DummyHash).any (fun x => x.1 = hashIterations ∧ x.2.1.length = 16 ∧ x.2.2.length = keyLen) =
      true := by decide +kernel
  obtain ⟨⟨iter, salt, key⟩, hp, hx⟩ := (Option.any_eq_true ..).1 hp
  obtain ⟨rfl, hs, hk⟩ := of_decide_eq_true hx
  exact ⟨salt, key, hp, hs, hk⟩

/-! ### The hashes of the server -/

/-- The key derivation succeeds with the parameters of the server, with a key of the length that was asked for. -/
def Derives (derive : KeyDerivation) : Prop :=
  ∀ password salt, ∃ key, derive password salt hashIterations keyLen = some key ∧ key.length = keyLen

/-- A hash that the server made verifies exactly the passwords with the same key. -/
theorem verify_hashPassword (h : Derives derive) {salts : ℕ → List UInt8} {n : ℕ} {password password' : String} :
    (pbkdf2Passwords derive salts).VerifyPassword ((pbkdf2Passwords derive salts).HashPassword n password) password' =
      true ↔ derive password'.toList (salts n) hashIterations keyLen =
        derive password.toList (salts n) hashIterations keyLen := by
  obtain ⟨key, hkey, hlen⟩ := h password.toList (salts n)
  have hne : key ≠ [] := by
    intro hnil
    rw [hnil] at hlen
    cases hlen
  have hhash : (pbkdf2Passwords derive salts).HashPassword n password =
      String.ofList (hashText hashIterations (salts n) key) := by
    simp only [pbkdf2Passwords, HashPassword, hkey, Option.map_some, Option.getD_some]
  have hv : VerifyPassword derive (hashText hashIterations (salts n) key) password'.toList = true ↔
      derive password'.toList (salts n) hashIterations key.length = some key :=
    verify_hashText (by decide) (by decide) hne
  rw [hhash, hkey, ← hlen, ← hv]
  simp only [pbkdf2Passwords, String.toList_ofList]

end Auth
