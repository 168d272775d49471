import Mathlib.Data.Set.Insert
import Tadmor.Store.ReadCommitted

/-!
# Numbers that belong to one transaction

The identity sequence gives a number out once: it belongs to the committed rows, to one unfinished transaction, or to
nobody.  So an assertion about a transaction may name the numbers it has drawn and rely on it that no commit of
another transaction brings them in.  `Numbering` lists what has to be kept, step by step; a run then keeps it all, in
every interleaving, whatever the locks.
-/

variable {ι S L ε α : Type}

namespace Sys

/-- `G` is kept by commits, every commit is one of the changes `R`, and the assertions `loc` about a transaction that
has drawn the numbers `own` are kept by its statements, its checks and by the changes `R` that bring in none of its
numbers; `ids` are the numbers of the rows. -/
structure Numbering (ids : S → Set ℕ) (G : S → Prop) (R : S → S → Prop)
    (loc : S → Set ℕ → Tx S L ε α → Prop) : Prop where
  refl : ∀ d, R d d
  trans : ∀ {a b c}, R a b → R b c → R a c
  stmt : ∀ {d own pc act ls cs β n o} {r : ℕ → S → Except ε (Outcome S L ε β)} {k : β → Prog S L ε α}, G d →
    (∀ m ∈ ids d, m < n) → (∀ m ∈ own, m < n ∧ m ∉ ids d) → loc d own (.running pc act ls cs (.stmt r k)) →
    r n (act d) = .ok o →
    loc d {m | m ∈ own ∨ n ≤ m ∧ m < n + o.used}
      (.running (pc + 1) (o.act ∘ act) (ls ++ o.locks) (cs ++ o.checks) (k o.res))
  check : ∀ {d own pc act ls cs a}, G d → (∀ m ∈ own, m ∉ ids d) → loc d own (.running pc act ls cs (.pure a)) →
    passAll cs (act d) = .ok () → loc d own (.checked act ls a)
  commit : ∀ {d own act ls a}, G d → (∀ m ∈ own, m ∉ ids d) → loc d own (.checked act ls a) →
    G (act d) ∧ R d (act d) ∧ ∀ m ∈ ids (act d), m ∈ ids d ∨ m ∈ own
  others : ∀ {d d' own t}, G d → G d' → R d d' → (∀ m ∈ own, m ∉ ids d ∧ m ∉ ids d') → loc d own t → loc d' own t

/-- The transaction `i` has drawn the numbers `own i`, all different from those of the others and of the rows. -/
structure Owned (ids : S → Set ℕ) (loc : S → Set ℕ → Tx S L ε α → Prop) (σ : Sys ι S L ε α) (own : ι → Set ℕ) :
    Prop where
  below : ∀ i, ∀ m ∈ own i, m < σ.seq
  new : ∀ i, ∀ m ∈ own i, m ∉ ids σ.db
  apart : ∀ i j, i ≠ j → ∀ m ∈ own i, m ∉ own j
  holds : ∀ i, (σ.tx i).finished = false → loc σ.db (own i) (σ.tx i)

/-- The invariant of a run. -/
structure Numbered (ids : S → Set ℕ) (G : S → Prop) (loc : S → Set ℕ → Tx S L ε α → Prop) (σ : Sys ι S L ε α) :
    Prop where
  db : G σ.db
  below : ∀ m ∈ ids σ.db, m < σ.seq
  owned : ∃ own, Owned ids loc σ own

variable {ids : S → Set ℕ} {G : S → Prop} {R : S → S → Prop} {loc : S → Set ℕ → Tx S L ε α → Prop}
  {σ : Sys ι S L ε α} {own : ι → Set ℕ}

section set

variable [DecidableEq ι]

/-- The transaction `i` goes on with the numbers `own'` and nothing is committed. -/
theorem Owned.set (h : Owned ids loc σ own) (i : ι) {own' : Set ℕ} {t : Tx S L ε α} {n : ℕ} (hn : σ.seq ≤ n)
    (hbelow : ∀ m ∈ own', m < n) (hnew : ∀ m ∈ own', m ∉ ids σ.db) (hold : ∀ m ∈ own', m ∈ own i ∨ σ.seq ≤ m)
    (ht : t.finished = false → loc σ.db own' t) :
    Owned ids loc { (σ.set i t) with seq := n } (Function.update own i own') := by
  refine ⟨fun j m hm => ?_, fun j m hm => ?_, fun j k hjk m hm hm' => ?_, fun j hj => ?_⟩
  · by_cases hji : j = i
    · subst hji
      rw [Function.update_self] at hm
      exact hbelow m hm
    · rw [Function.update_of_ne hji] at hm
      exact Nat.lt_of_lt_of_le (h.below j m hm) hn
  · by_cases hji : j = i
    · subst hji
      rw [Function.update_self] at hm
      exact hnew m hm
    · rw [Function.update_of_ne hji] at hm
      exact h.new j m hm
  · by_cases hji : j = i
    · subst hji
      rw [Function.update_self] at hm
      rw [Function.update_of_ne hjk.symm] at hm'
      rcases hold m hm with hm | hm
      · exact h.apart j k hjk m hm hm'
      · have := h.below k m hm'
        omega
    · rw [Function.update_of_ne hji] at hm
      by_cases hki : k = i
      · subst hki
        rw [Function.update_self] at hm'
        rcases hold m hm' with hm' | hm'
        · exact h.apart j k hjk m hm hm'
        · have := h.below j m hm
          omega
      · rw [Function.update_of_ne hki] at hm'
        exact h.apart j k hjk m hm hm'
  · show loc σ.db _ ((σ.set i t).tx j)
    have hj' : ((σ.set i t).tx j).finished = false := hj
    by_cases hji : j = i
    · subst hji
      rw [set_tx_self] at hj' ⊢
      rw [Function.update_self]
      exact ht hj'
    · rw [set_tx_ne σ t hji] at hj' ⊢
      rw [Function.update_of_ne hji]
      exact h.holds j hj'

/-- The transaction `i` ends, and the numbers it has drawn are no longer its own. -/
theorem Owned.finish (h : Owned ids loc σ own) (i : ι) {t : Tx S L ε α} (ht : t.finished = true) :
    Owned ids loc (σ.set i t) (Function.update own i ∅) := by
  refine h.set i le_rfl (fun m hm => absurd hm (Set.notMem_empty m)) (fun m hm => absurd hm (Set.notMem_empty m))
    (fun m hm => absurd hm (Set.notMem_empty m)) fun hf => ?_
  rw [ht] at hf
  cases hf

theorem Numbered.set (h : Numbered ids G loc σ) {i : ι} {t : Tx S L ε α} {o : ι → Set ℕ}
    (ho : Owned ids loc (σ.set i t) o) : Numbered ids G loc (σ.set i t) :=
  ⟨h.db, h.below, o, ho⟩

end set

variable [DecidableEq ι] [Fintype ι] [Locking L]

/-- What one step keeps, and what it does to the committed state. -/
theorem Numbered.step (hN : Numbering ids G R loc) (h : Numbered ids G loc σ) (i : ι) :
    Numbered ids G loc (step i σ) ∧ R σ.db (step i σ).db := by
  obtain ⟨own, ho⟩ := h.owned
  have hi := ho.holds i
  rcases step_cases i σ with e | ⟨pc, act, ls, cs, x, htx, e⟩ | ⟨pc, act, ls, cs, a, htx, hcase⟩ |
    ⟨pc, act, ls, cs, β, r, k, htx, hcase⟩ | ⟨act, ls, a, htx, e⟩
  · rw [e]
    exact ⟨h, hN.refl _⟩
  · rw [e]
    exact ⟨h.set (ho.finish i rfl), hN.refl _⟩
  · rw [htx] at hi
    rcases hcase with ⟨x, -, e⟩ | ⟨hpass, e⟩
    · rw [e]
      exact ⟨h.set (ho.finish i rfl), hN.refl _⟩
    · rw [e]
      refine ⟨h.set (o := Function.update own i (own i)) ?_, hN.refl _⟩
      exact ho.set i le_rfl (ho.below i) (ho.new i) (fun m hm => .inl hm) fun _ =>
        hN.check h.db (ho.new i) (hi rfl) hpass
  · rw [htx] at hi
    rcases hcase with ⟨x, -, e⟩ | ⟨o, hr, -, e⟩
    · rw [e]
      exact ⟨h.set (ho.finish i rfl), hN.refl _⟩
    · -- the statement draws the next numbers
      rw [e]
      have hle : σ.seq ≤ σ.seq + o.used := Nat.le_add_right ..
      have hloc := hN.stmt h.db h.below (fun m hm => ⟨ho.below i m hm, ho.new i m hm⟩) (hi rfl) hr
      refine ⟨⟨h.db, fun m hm => Nat.lt_of_lt_of_le (h.below m hm) hle, _, ho.set i hle ?_ ?_ ?_ fun _ => hloc⟩,
        hN.refl _⟩
      · rintro m (hm | hm)
        · exact Nat.lt_of_lt_of_le (ho.below i m hm) hle
        · exact hm.2
      · rintro m (hm | hm) hmem
        · exact ho.new i m hm hmem
        · have := h.below m hmem
          omega
      · rintro m (hm | hm)
        · exact .inl hm
        · exact .inr hm.1
  · -- the commit: the numbers of `i` become numbers of the rows
    rw [htx] at hi
    rw [e]
    obtain ⟨hG, hR, hids⟩ := hN.commit h.db (ho.new i) (hi rfl)
    have hf := ho.finish i (t := .committed a) rfl
    have hnew : ∀ j, ∀ m ∈ Function.update own i ∅ j, m ∉ ids (act σ.db) := by
      intro j m hm hmem
      rcases hids m hmem with hm' | hm'
      · exact hf.new j m hm hm'
      · by_cases hji : j = i
        · subst hji
          rw [Function.update_self] at hm
          exact hm
        · rw [Function.update_of_ne hji] at hm
          exact ho.apart j i hji m hm hm'
    refine ⟨⟨hG, fun m hm => ?_, _, hf.below, hnew, hf.apart, fun j hj => ?_⟩, hR⟩
    · rcases hids m hm with hm | hm
      · exact h.below m hm
      · exact ho.below i m hm
    · exact hN.others h.db hG hR (fun m hm => ⟨hf.new j m hm, hnew j m hm⟩) (hf.holds j hj)

/-- Every run keeps the invariant, whatever the schedule, and leads from one committed state to the next by changes
of `R`. -/
theorem Numbered.run (hN : Numbering ids G R loc) (h : Numbered ids G loc σ) (is : List ι) :
    Numbered ids G loc (σ.runSchedule is) ∧ R σ.db (σ.runSchedule is).db := by
  induction is generalizing σ with
  | nil => exact ⟨h, hN.refl _⟩
  | cons i is ih =>
    obtain ⟨h', hR⟩ := h.step hN i
    obtain ⟨h'', hR'⟩ := ih h'
    exact ⟨h'', hN.trans hR hR'⟩

theorem runSchedule_append (σ : Sys ι S L ε α) (is js : List ι) :
    σ.runSchedule (is ++ js) = (σ.runSchedule is).runSchedule js := by
  induction is generalizing σ with
  | nil => rfl
  | cons i is ih => exact ih (step i σ)

omit [DecidableEq ι] [Fintype ι] [Locking L] in
theorem Numbered.start {s : Store S} {p : ι → Prog S L ε α} (hG : G s.db) (hids : ∀ m ∈ ids s.db, m < s.seq)
    (h : ∀ i, loc s.db ∅ (Tx.start (p i))) : Numbered ids G loc (Sys.start s p) := by
  refine ⟨hG, hids, fun _ => ∅, ?_, ?_, ?_, fun i _ => h i⟩
  · exact fun _ m hm => absurd hm (Set.notMem_empty m)
  · exact fun _ m hm => absurd hm (Set.notMem_empty m)
  · exact fun _ _ _ m hm => absurd hm (Set.notMem_empty m)

end Sys
