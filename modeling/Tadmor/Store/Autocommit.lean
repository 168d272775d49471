import Mathlib.Data.Nat.Notation
import Mathlib.Logic.Function.Basic

/-!
# Processes whose statements commit one by one

Processes run statements on one database, each its own transaction, in any order.  `exec n p s` runs the next
statement of a process in state `p`: the database it leaves and the state the process goes on in, or nothing if the
process has ended.  `n` is a number that no statement drew before.  Between statements `env` may change the database,
as a clock does.  A process that is never scheduled again has crashed.
-/

structure Pool (ι S P : Type) where
  db : S
  seq : ℕ
  procs : ι → P

namespace Pool

variable {ι S P : Type} [DecidableEq ι] {exec : ℕ → P → S → Option (S × P)} {env : S → S → Prop}

/-- A statement of the process `i`, or a change of the environment. -/
inductive Step (exec : ℕ → P → S → Option (S × P)) (env : S → S → Prop) :
    Option ι → Pool ι S P → Pool ι S P → Prop where
  | stmt {π : Pool ι S P} {i : ι} {gap : ℕ} {d : S} {p : P}
      (h : exec (π.seq + gap) (π.procs i) π.db = some (d, p)) :
      Step exec env (some i) π ⟨d, π.seq + gap + 1, Function.update π.procs i p⟩
  | env {π : Pool ι S P} {d : S} (h : env π.db d) : Step exec env none π ⟨d, π.seq, π.procs⟩

/-- Runs in which a process moves only where `C` lets it. -/
inductive Runs (exec : ℕ → P → S → Option (S × P)) (env : S → S → Prop) (C : Pool ι S P → ι → Prop)
    (π : Pool ι S P) : Pool ι S P → Prop where
  | refl : Runs exec env C π π
  | step {π' π'' : Pool ι S P} {l : Option ι} (h : Runs exec env C π π') (hc : ∀ i, l = some i → C π' i)
      (hs : Step exec env l π' π'') : Runs exec env C π π''

variable {C : Pool ι S P → ι → Prop} {π π' : Pool ι S P}

theorem Runs.mono {C' : Pool ι S P → ι → Prop} (hC : ∀ π i, C π i → C' π i) (h : Runs exec env C π π') :
    Runs exec env C' π π' := by
  induction h with
  | refl => exact .refl
  | step _ hc hs ih => exact ih.step (fun i hi => hC _ _ (hc i hi)) hs

theorem Runs.trans {π'' : Pool ι S P} (h : Runs exec env C π π') (h' : Runs exec env C π' π'') :
    Runs exec env C π π'' := by
  induction h' with
  | refl => exact h
  | step _ hc hs ih => exact ih.step hc hs

/-- What every statement and every change of the environment keeps, a run keeps. -/
theorem Runs.invariant {I : Pool ι S P → Prop} (h : Runs exec env C π π') (h0 : I π)
    (hstmt : ∀ (π : Pool ι S P) i n d p, I π → C π i → π.seq ≤ n → exec n (π.procs i) π.db = some (d, p) →
      I ⟨d, n + 1, Function.update π.procs i p⟩)
    (henv : ∀ (π : Pool ι S P) d, I π → env π.db d → I ⟨d, π.seq, π.procs⟩) : I π' := by
  induction h with
  | refl => exact h0
  | step _ hc hs ih =>
    cases hs with
    | stmt h => exact hstmt _ _ _ _ _ ih (hc _ rfl) (Nat.le_add_right ..) h
    | env h => exact henv _ _ ih h

/-- The processes of `is` moving one after another, as long as `c` lets them. -/
def play (exec : ℕ → P → S → Option (S × P)) (c : Pool ι S P → ι → Bool) : List ι → Pool ι S P → Option (Pool ι S P)
  | [], π => some π
  | i :: is, π =>
    if c π i then
      (exec π.seq (π.procs i) π.db).bind fun x => play exec c is ⟨x.1, π.seq + 1, Function.update π.procs i x.2⟩
    else none

theorem step_play {i : ι} (h : play exec (fun _ _ => true) [i] π = some π') : Step exec env (some i) π π' := by
  unfold play at h
  obtain ⟨⟨d, p⟩, he, h⟩ := Option.bind_eq_some_iff.1 ((if_pos rfl).symm.trans h)
  cases h
  exact @Step.stmt _ _ _ _ _ _ π i 0 d p he

theorem runs_play {c : Pool ι S P → ι → Bool} {is : List ι} (h : play exec c is π = some π') :
    Runs exec env (fun π i => c π i = true) π π' := by
  have key : ∀ (is : List ι) (π₁ : Pool ι S P), Runs exec env (fun π i => c π i = true) π π₁ →
      play exec c is π₁ = some π' → Runs exec env (fun π i => c π i = true) π π' := by
    intro is
    induction is with
    | nil =>
      intro π₁ hr h
      cases h
      exact hr
    | cons i is ih =>
      intro π₁ hr h
      unfold play at h
      split at h
      · rename_i hc
        obtain ⟨⟨d, p⟩, he, h⟩ := Option.bind_eq_some_iff.1 h
        refine ih _ (hr.step (l := some i) ?_ (@Step.stmt _ _ _ _ _ _ π₁ i 0 d p he)) h
        intro j hj
        cases hj
        exact hc
      · cases h
  exact key is π .refl h

end Pool
