import Tadmor.Store.ReadCommitted

/-!
# Invariants of concurrent transactions

Each transaction has an assertion about the committed state, the locks it holds, the changes it has made and the rest
of its program.  If a statement keeps the assertion of its own transaction, a commit keeps the invariant of the
committed states, and a commit keeps the assertions of the other transactions, then every run keeps them all.  A
commit need only keep what holds while the locks of the two transactions do not conflict; and where two transactions
clash, only while the other one still has statements to run.
-/

variable {ι S L ε α : Type} [DecidableEq ι] [Fintype ι] [Locking L]

def Prog.isPure : Prog S L ε α → Bool
  | .pure _ => true
  | _ => false

/-- All statements have run, the commit is not visible yet. -/
def Tx.ended : Tx S L ε α → Bool
  | .running _ _ _ _ q => q.isPure
  | .checked .. => true
  | _ => false

/-- The assertion `P` holds of an unfinished transaction. -/
def Tx.Holds (P : List L → (S → S) → Prog S L ε α → Prop) : Tx S L ε α → Prop
  | .running _ act ls _ q => P ls act q
  | .checked act ls a => P ls act (.pure a)
  | _ => True

omit [Locking L] in
theorem Tx.Holds.imp {P Q : List L → (S → S) → Prog S L ε α → Prop} {t : Tx S L ε α} (h : t.Holds P)
    (hPQ : ∀ act q, (q.isPure = true → t.ended = true) → P t.locks act q → Q t.locks act q) : t.Holds Q := by
  cases t with
  | running pc act ls checks q => exact hPQ act q id h
  | checked act ls a => exact hPQ act _ (fun _ => rfl) h
  | committed a => trivial
  | aborted e => trivial

namespace Sys

/-- The locks of different transactions do not conflict. -/
def Exclusive (σ : Sys ι S L ε α) : Prop :=
  ∀ i j, i ≠ j → ∀ l ∈ (σ.tx i).locks, ∀ l' ∈ (σ.tx j).locks, Locking.conflict l l' = false

/-- Transaction `j` does not make its changes visible while one that clashes with it has run all its statements. -/
def Apart (clash : ι → ι → Bool) (σ : Sys ι S L ε α) (j : ι) : Prop :=
  (σ.tx j).isChecked = true → ∀ i, i ≠ j → clash i j = true → (σ.tx i).ended = false

instance (clash : ι → ι → Bool) (σ : Sys ι S L ε α) (j : ι) : Decidable (Apart clash σ j) := by
  unfold Apart
  infer_instance

/-- `G` is kept by commits and the assertions `loc` by statements and commits. -/
structure Outline (clash : ι → ι → Bool) (G : S → Prop)
    (loc : ι → S → List L → (S → S) → Prog S L ε α → Prop) : Prop where
  stmt : ∀ {i d ls act β n o} {r : ℕ → S → Except ε (Outcome S L ε β)} {k : β → Prog S L ε α}, G d →
    loc i d ls act (.stmt r k) → r n (act d) = .ok o → loc i d (ls ++ o.locks) (o.act ∘ act) (k o.res)
  commit : ∀ {i d ls act a}, G d → loc i d ls act (.pure a) → G (act d)
  others : ∀ {i j d ls act q ls' act' a}, i ≠ j → G d → loc i d ls act q → loc j d ls' act' (.pure a) →
    (∀ l ∈ ls, ∀ l' ∈ ls', Locking.conflict l l' = false) → (clash i j = true → q.isPure = false) →
    loc i (act' d) ls act q

variable {clash : ι → ι → Bool} {G : S → Prop} {loc : ι → S → List L → (S → S) → Prog S L ε α → Prop}

/-- The invariant of a run. -/
structure Inv (G : S → Prop) (loc : ι → S → List L → (S → S) → Prog S L ε α → Prop) (σ : Sys ι S L ε α) : Prop where
  db : G σ.db
  exclusive : σ.Exclusive
  holds : ∀ i, (σ.tx i).Holds (loc i σ.db)

omit [Fintype ι] in
/-- A transaction that changes its state without taking locks. -/
theorem Exclusive.set {σ : Sys ι S L ε α} (h : σ.Exclusive) {i : ι} {t : Tx S L ε α}
    (ht : ∀ l ∈ t.locks, l ∈ (σ.tx i).locks) : (σ.set i t).Exclusive := by
  have hold : ∀ k, ∀ l ∈ ((σ.set i t).tx k).locks, l ∈ (σ.tx k).locks := by
    intro k l hl
    by_cases hk : k = i
    · subst hk
      rw [set_tx_self] at hl
      exact ht l hl
    · rwa [set_tx_ne σ t hk] at hl
  exact fun a b hab l hl l' hl' => h a b hab l (hold a l hl) l' (hold b l' hl')

/-- A statement that is not blocked takes no lock that conflicts with one of another transaction. -/
theorem Exclusive.acquire {σ : Sys ι S L ε α} (h : σ.Exclusive) {i : ι} {t : Tx S L ε α} {ls : List L}
    (ht : t.locks = (σ.tx i).locks ++ ls) (hb : σ.blocked i ls = false) : (σ.set i t).Exclusive := by
  have hnew : ∀ j, j ≠ i → ∀ l ∈ (σ.tx j).locks, ∀ l' ∈ t.locks, Locking.conflict l l' = false := by
    intro j hj l hl l' hl'
    rw [ht] at hl'
    rcases List.mem_append.1 hl' with hl' | hl'
    · exact h j i hj l hl l' hl'
    · rw [blocked, decide_eq_false_iff_not, not_exists] at hb
      have hno := hb j
      rw [not_and, List.any_eq_true, not_exists] at hno
      have hno := hno hj l
      rw [not_and, List.any_eq_true, not_exists] at hno
      have hno := hno hl l'
      rw [not_and, Bool.not_eq_true] at hno
      exact hno hl'
  intro a b hab l hl l' hl'
  by_cases ha : a = i
  · subst ha
    have hba : b ≠ a := fun e => hab e.symm
    rw [set_tx_self] at hl
    rw [set_tx_ne σ t hba] at hl'
    rw [Locking.symm]
    exact hnew b hba l' hl' l hl
  · rw [set_tx_ne σ t ha] at hl
    by_cases hb' : b = i
    · subst hb'
      rw [set_tx_self] at hl'
      exact hnew a ha l hl l' hl'
    · rw [set_tx_ne σ t hb'] at hl'
      exact h a b hab l hl l' hl'

omit [Fintype ι] [Locking L] in
/-- The assertions after one transaction changed its state and nothing was committed. -/
theorem holds_set {σ : Sys ι S L ε α} (h : ∀ i, (σ.tx i).Holds (loc i σ.db)) {i : ι} {t : Tx S L ε α}
    (ht : t.Holds (loc i σ.db)) (j : ι) : ((σ.set i t).tx j).Holds (loc j σ.db) := by
  by_cases hj : j = i
  · subst hj
    rw [set_tx_self]
    exact ht
  · rw [set_tx_ne σ t hj]
    exact h j

theorem Inv.step {σ : Sys ι S L ε α} (ho : Outline clash G loc) {i : ι} (ha : Apart clash σ i) (h : Inv G loc σ) :
    Inv G loc (step i σ) := by
  have hi := h.holds i
  rcases step_cases i σ with e | ⟨pc, act, ls, checks, x, htx, e⟩ | ⟨pc, act, ls, checks, a, htx, hcase⟩ |
    ⟨pc, act, ls, checks, β, r, k, htx, hcase⟩ | ⟨act, ls, a, htx, e⟩
  · rwa [e]
  · rw [e]
    exact ⟨h.db, h.exclusive.set fun l hl => absurd hl List.not_mem_nil, holds_set h.holds trivial⟩
  · rw [htx] at hi
    rcases hcase with ⟨x, -, e⟩ | ⟨-, e⟩
    · rw [e]
      exact ⟨h.db, h.exclusive.set fun l hl => absurd hl List.not_mem_nil, holds_set h.holds trivial⟩
    · rw [e]
      exact ⟨h.db, h.exclusive.set fun l hl => by rwa [htx], holds_set h.holds hi⟩
  · rw [htx] at hi
    rcases hcase with ⟨x, -, e⟩ | ⟨o, hr, hb, e⟩
    · rw [e]
      exact ⟨h.db, h.exclusive.set fun l hl => absurd hl List.not_mem_nil, holds_set h.holds trivial⟩
    · rw [e]
      refine ⟨h.db, h.exclusive.acquire ?_ hb, holds_set h.holds (ho.stmt h.db hi hr)⟩
      rw [htx]
      rfl
  · -- the commit of `i`: the others have their own locks, and those that clash with it have not ended
    rw [htx] at hi
    rw [e]
    refine ⟨ho.commit h.db hi, h.exclusive.set fun l hl => absurd hl List.not_mem_nil, fun j => ?_⟩
    by_cases hj : j = i
    · subst hj
      show ((σ.set j (.committed a)).tx j).Holds _
      rw [set_tx_self]
      trivial
    · show ((σ.set i (.committed a)).tx j).Holds _
      rw [set_tx_ne σ _ hj]
      refine (h.holds j).imp fun act' q hq hl => ho.others hj h.db hl hi (fun l hl l' hl' => ?_) fun hc => ?_
      · exact h.exclusive j i hj l hl l' (by rwa [htx])
      · have hnot := ha (by rw [htx]; rfl) j hj hc
        cases hp : q.isPure with
        | false => rfl
        | true =>
          rw [hq hp] at hnot
          cases hnot

/-- In a run in which clashing transactions stay apart, the invariant holds of every committed state. -/
theorem Inv.run (ho : Outline clash G loc) {σ : Sys ι S L ε α} {is : List ι} (ha : Along (Apart clash) σ is)
    (h : Inv G loc σ) : Inv G loc (σ.runSchedule is) :=
  runSchedule_induction (P := Apart clash) (fun _ _ hP hQ => hQ.step ho hP) ha h

omit [DecidableEq ι] [Fintype ι] in
theorem Inv.start {s : Store S} {p : ι → Prog S L ε α} (hG : G s.db) (h : ∀ i, loc i s.db [] id (p i)) :
    Inv G loc (Sys.start s p) :=
  ⟨hG, fun _ _ _ _ hl => absurd hl List.not_mem_nil, h⟩

end Sys
