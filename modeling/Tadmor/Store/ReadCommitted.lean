import Mathlib.Data.Fintype.Basic
import Mathlib.Data.Fintype.BigOperators
import Tadmor.Store.Prog

/-!
# Transactions under READ COMMITTED

Several programs run against one committed state.  Each has the changes it has made so far; a statement sees these
changes replayed on what is committed when it runs, so two statements of one transaction may see different states.
A statement whose locks conflict with those of another unfinished transaction waits: stepping that transaction
leaves the system as it is.  At the end the deferred checks run on the state the transaction sees, and only a later
step makes the changes visible to the others.
-/

class Locking (L : Type) where
  conflict : L → L → Bool
  symm : ∀ a b, conflict a b = conflict b a

inductive Tx (S L ε α : Type) : Type 1 where
  | running (pc : ℕ) (act : S → S) (locks : List L) (checks : List (S → Except ε Unit)) (prog : Prog S L ε α)
  | checked (act : S → S) (locks : List L) (a : α)
  | committed (a : α)
  | aborted (e : ε)

namespace Tx

variable {S L ε α : Type}

def start (p : Prog S L ε α) : Tx S L ε α := running 0 id [] [] p

def locks : Tx S L ε α → List L
  | running _ _ ls _ _ => ls
  | checked _ ls _ => ls
  | _ => []

def finished : Tx S L ε α → Bool
  | committed _ => true
  | aborted _ => true
  | _ => false

def isCommitted : Tx S L ε α → Bool
  | committed _ => true
  | _ => false

/-- The deferred checks have passed; the next step makes the changes visible. -/
def isChecked : Tx S L ε α → Bool
  | checked .. => true
  | _ => false

/-- An unfinished transaction is inside its critical section once the number of statements it has run and the locks
it holds satisfy `crit`, or its deferred checks have passed. -/
def inside (crit : ℕ → List L → Bool) : Tx S L ε α → Bool
  | running pc _ ls _ _ => crit pc ls
  | checked .. => true
  | _ => false

end Tx

structure Sys (ι S L ε α : Type) : Type 1 where
  db : S
  seq : ℕ
  tx : ι → Tx S L ε α

namespace Sys

variable {ι S L ε α : Type} [DecidableEq ι] [Fintype ι] [Locking L]

def start (s : Store S) (p : ι → Prog S L ε α) : Sys ι S L ε α := ⟨s.db, s.seq, fun i => Tx.start (p i)⟩

def set (σ : Sys ι S L ε α) (i : ι) (t : Tx S L ε α) : Sys ι S L ε α := { σ with tx := Function.update σ.tx i t }

/-- Some other transaction holds a lock that conflicts with one of `ls`. -/
def blocked (σ : Sys ι S L ε α) (i : ι) (ls : List L) : Bool :=
  decide (∃ j, j ≠ i ∧ ((σ.tx j).locks.any fun l => ls.any fun l' => Locking.conflict l l') = true)

/-- One step of transaction `i`: a statement, the deferred checks, or the moment its commit becomes visible. -/
def step (i : ι) (σ : Sys ι S L ε α) : Sys ι S L ε α :=
  match σ.tx i with
  | .running _ act locks checks (.pure a) =>
    match passAll checks (act σ.db) with
    | .error e => σ.set i (.aborted e)
    | .ok _ => σ.set i (.checked act locks a)
  | .running _ _ _ _ (.throw e) => σ.set i (.aborted e)
  | .running pc act locks checks (.stmt r k) =>
    match r σ.seq (act σ.db) with
    | .error e => σ.set i (.aborted e)
    | .ok o =>
      if σ.blocked i o.locks then σ
      else { (σ.set i (.running (pc + 1) (o.act ∘ act) (locks ++ o.locks) (checks ++ o.checks) (k o.res))) with
        seq := σ.seq + o.used }
  | .checked act _ a => { (σ.set i (.committed a)) with db := act σ.db }
  | .committed _ => σ
  | .aborted _ => σ

/-- Runs a schedule: which transaction takes the next step, each time. -/
def runSchedule (σ : Sys ι S L ε α) : List ι → Sys ι S L ε α
  | [] => σ
  | i :: is => (step i σ).runSchedule is

/-- `P` holds of every state of a run together with the transaction that steps from it. -/
def Along (P : Sys ι S L ε α → ι → Prop) : Sys ι S L ε α → List ι → Prop
  | _, [] => True
  | σ, i :: is => P σ i ∧ Along P (step i σ) is

instance (P : Sys ι S L ε α → ι → Prop) [∀ σ i, Decidable (P σ i)] (σ : Sys ι S L ε α) (is : List ι) :
    Decidable (Along P σ is) :=
  match is with
  | [] => .isTrue trivial
  | i :: is =>
    have := instDecidableAlong P (step i σ) is
    inferInstanceAs (Decidable (P σ i ∧ Along P (step i σ) is))

def allFinished (σ : Sys ι S L ε α) : Bool := decide (∀ i, (σ.tx i).finished = true)

/-- An invariant of steps is an invariant of runs. -/
theorem runSchedule_induction {P : Sys ι S L ε α → ι → Prop} {Q : Sys ι S L ε α → Prop}
    (hstep : ∀ σ i, P σ i → Q σ → Q (step i σ)) {σ : Sys ι S L ε α} {is : List ι} (ha : Along P σ is)
    (h : Q σ) : Q (σ.runSchedule is) := by
  induction is generalizing σ with
  | nil => exact h
  | cons i is ih => exact ih ha.2 (hstep σ i ha.1 h)

section set

omit [Fintype ι] [Locking L]

@[simp] theorem set_db (σ : Sys ι S L ε α) (i : ι) (t : Tx S L ε α) : (σ.set i t).db = σ.db := rfl
@[simp] theorem set_seq (σ : Sys ι S L ε α) (i : ι) (t : Tx S L ε α) : (σ.set i t).seq = σ.seq := rfl
@[simp] theorem set_tx_self (σ : Sys ι S L ε α) (i : ι) (t : Tx S L ε α) : (σ.set i t).tx i = t := by simp [set]

theorem set_tx_ne (σ : Sys ι S L ε α) {i j : ι} (t : Tx S L ε α) (h : j ≠ i) : (σ.set i t).tx j = σ.tx j := by
  simp [set, h]

end set

/-- What one step can do. -/
theorem step_cases (i : ι) (σ : Sys ι S L ε α) :
    step i σ = σ ∨
    (∃ pc act locks checks e, σ.tx i = .running pc act locks checks (.throw e) ∧
      step i σ = σ.set i (.aborted e)) ∨
    (∃ pc act locks checks a, σ.tx i = .running pc act locks checks (.pure a) ∧
      ((∃ e, passAll checks (act σ.db) = .error e ∧ step i σ = σ.set i (.aborted e)) ∨
        (passAll checks (act σ.db) = .ok () ∧ step i σ = σ.set i (.checked act locks a)))) ∨
    (∃ pc act locks checks, ∃ (β : Type) (r : ℕ → S → Except ε (Outcome S L ε β)) (k : β → Prog S L ε α),
      σ.tx i = .running pc act locks checks (.stmt r k) ∧
      ((∃ e, r σ.seq (act σ.db) = .error e ∧ step i σ = σ.set i (.aborted e)) ∨
        ∃ o, r σ.seq (act σ.db) = .ok o ∧ σ.blocked i o.locks = false ∧
          step i σ = { (σ.set i (.running (pc + 1) (o.act ∘ act) (locks ++ o.locks) (checks ++ o.checks)
            (k o.res))) with seq := σ.seq + o.used })) ∨
    (∃ act locks a, σ.tx i = .checked act locks a ∧
      step i σ = { (σ.set i (.committed a)) with db := act σ.db }) := by
  unfold step
  rcases h : σ.tx i with ⟨pc, act, locks, checks, a | e | ⟨r, k⟩⟩ | ⟨act, locks, a⟩ | a | e
  · right; right; left
    refine ⟨pc, act, locks, checks, a, rfl, ?_⟩
    rcases hp : passAll checks (act σ.db) with e | u
    · exact .inl ⟨e, rfl, by simp only [hp]⟩
    · exact .inr ⟨rfl, by simp only [hp]⟩
  · exact .inr (.inl ⟨pc, act, locks, checks, e, rfl, rfl⟩)
  · rcases hr : r σ.seq (act σ.db) with e | o
    · right; right; right; left
      exact ⟨pc, act, locks, checks, _, r, k, rfl, .inl ⟨e, hr, by simp only [hr]⟩⟩
    · rcases hb : σ.blocked i o.locks with _ | _
      · right; right; right; left
        exact ⟨pc, act, locks, checks, _, r, k, rfl, .inr ⟨o, hr, hb, by simp [hr, hb]⟩⟩
      · left
        simp [hr, hb]
  · exact .inr (.inr (.inr (.inr ⟨act, locks, a, rfl, rfl⟩)))
  · exact .inl rfl
  · exact .inl rfl

end Sys
