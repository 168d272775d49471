import Mathlib.Data.Nat.Notation
import Mathlib.Logic.Basic

/-!
# Transaction programs

A transaction is a sequence of statements chosen by the results of the earlier ones.  A statement reads the state
it sees and either fails or has an `Outcome`: its result, how many numbers it drew from the identity sequence, the
change it makes, the locks it takes and the checks it defers to commit.  A change is a function, so that it can be
replayed on a state other transactions have committed to in the meantime.

`commit` runs a program alone.  Identity numbers may have gaps (a rolled-back transaction does not give its numbers
back), so a run is given the gap before each statement.
-/

/-- What a statement that does not fail does. -/
structure Outcome (S L ε β : Type) where
  res : β
  used : ℕ := 0
  act : S → S := id
  locks : List L := []
  checks : List (S → Except ε Unit) := []

inductive Prog (S L ε α : Type) : Type 1 where
  | pure (a : α)
  | throw (e : ε)
  | stmt {β : Type} (run : ℕ → S → Except ε (Outcome S L ε β)) (next : β → Prog S L ε α)

/-- The state of a running transaction: the gaps still to come, the identity sequence, the rows it sees and the
checks deferred so far. -/
structure Env (S ε : Type) where
  gaps : ℕ → ℕ
  seq : ℕ
  db : S
  checks : List (S → Except ε Unit)

/-- A database between transactions. -/
structure Store (S : Type) where
  db : S
  seq : ℕ

variable {S L ε α β : Type}

/-- Runs the deferred checks on a state. -/
def passAll : List (S → Except ε Unit) → S → Except ε Unit
  | [], _ => .ok ()
  | c :: cs, s =>
    match c s with
    | .error e => .error e
    | .ok _ => passAll cs s

theorem passAll_eq_ok {checks : List (S → Except ε Unit)} {s : S} :
    passAll checks s = .ok () ↔ ∀ c ∈ checks, c s = .ok () := by
  induction checks with
  | nil => simp [passAll]
  | cons c cs ih => cases h : c s <;> simp [passAll, h, ih]

theorem Except.bind_eq_error_iff {x : Except ε α} {f : α → Except ε β} {e : ε} :
    x >>= f = .error e ↔ x = .error e ∨ ∃ a, x = .ok a ∧ f a = .error e := by
  cases x <;> simp [bind, Except.bind]

theorem Except.bind_eq_ok_iff {x : Except ε α} {f : α → Except ε β} {b : β} :
    x >>= f = .ok b ↔ ∃ a, x = .ok a ∧ f a = .ok b := by
  cases x <;> simp [bind, Except.bind]

namespace Env

/-- The state after a statement that only read. -/
def tick (v : Env S ε) : Env S ε := ⟨fun i => v.gaps (i + 1), v.seq + v.gaps 0, v.db, v.checks⟩

/-- The state after a statement with the outcome `o`. -/
def after (v : Env S ε) (o : Outcome S L ε β) : Env S ε :=
  ⟨fun i => v.gaps (i + 1), v.seq + v.gaps 0 + o.used, o.act v.db, v.checks ++ o.checks⟩

@[simp] theorem tick_db (v : Env S ε) : v.tick.db = v.db := rfl
@[simp] theorem tick_checks (v : Env S ε) : v.tick.checks = v.checks := rfl
@[simp] theorem after_db (v : Env S ε) (o : Outcome S L ε β) : (v.after o).db = o.act v.db := rfl
@[simp] theorem after_checks (v : Env S ε) (o : Outcome S L ε β) : (v.after o).checks = v.checks ++ o.checks := rfl

theorem le_tick_seq (v : Env S ε) : v.seq ≤ v.tick.seq := Nat.le_add_right ..

theorem le_after_seq (v : Env S ε) (o : Outcome S L ε β) : v.seq ≤ (v.after o).seq :=
  Nat.le_trans (Nat.le_add_right ..) (Nat.le_add_right ..)

end Env

namespace Prog

def bind : Prog S L ε α → (α → Prog S L ε β) → Prog S L ε β
  | .pure a, f => f a
  | .throw e, _ => .throw e
  | .stmt r k, f => .stmt r fun b => (k b).bind f

instance : Monad (Prog S L ε) where
  pure := .pure
  bind := bind

/-- A statement given by its outcome. -/
def exec (r : ℕ → S → Except ε (Outcome S L ε α)) : Prog S L ε α := .stmt r .pure

/-- A statement that only reads, and may fail. -/
def query (f : S → Except ε α) : Prog S L ε α := exec fun _ s => (f s).map fun a => { res := a }

def read (f : S → α) : Prog S L ε α := exec fun _ s => .ok { res := f s }

/-- Goes on if `b` holds, otherwise fails with `e`.  This is not a statement. -/
def require (b : Bool) (e : ε) : Prog S L ε Unit := if b then .pure () else .throw e

/-- Runs the statements of a program; the deferred checks are collected. -/
def run : Prog S L ε α → Env S ε → Except ε (α × Env S ε)
  | .pure a, v => .ok (a, v)
  | .throw e, _ => .error e
  | .stmt r k, v =>
    match r (v.seq + v.gaps 0) v.db with
    | .error e => .error e
    | .ok o => (k o.res).run (v.after o)

/-- Runs a program as a transaction of its own: its statements, then the deferred checks, then commit. -/
def commit (p : Prog S L ε α) (gaps : ℕ → ℕ) (s : Store S) : Except ε (α × Store S) :=
  match p.run ⟨gaps, s.seq, s.db, []⟩ with
  | .error e => .error e
  | .ok (a, v) =>
    match passAll v.checks v.db with
    | .error e => .error e
    | .ok _ => .ok (a, ⟨v.db, v.seq⟩)

theorem commit_eq_ok {p : Prog S L ε α} {gaps : ℕ → ℕ} {s s' : Store S} {a : α} :
    p.commit gaps s = .ok (a, s') ↔
      ∃ v, p.run ⟨gaps, s.seq, s.db, []⟩ = .ok (a, v) ∧ passAll v.checks v.db = .ok () ∧ s' = ⟨v.db, v.seq⟩ := by
  unfold commit
  rcases p.run ⟨gaps, s.seq, s.db, []⟩ with e | ⟨b, v⟩
  · simp
  · rcases h : passAll v.checks v.db with e | u
    · simp only [h, Except.ok.injEq, Prod.mk.injEq, reduceCtorEq, false_iff, not_exists]
      rintro w ⟨⟨-, rfl⟩, hw, -⟩
      rw [h] at hw
      cases hw
    · simp only [h, Except.ok.injEq, Prod.mk.injEq]
      constructor
      · rintro ⟨rfl, rfl⟩
        exact ⟨v, ⟨rfl, rfl⟩, h, rfl⟩
      · rintro ⟨w, ⟨rfl, rfl⟩, -, rfl⟩
        exact ⟨rfl, rfl⟩

/-- The transactions of `ops` committed one after another, from `s`. -/
def commitAll {κ : Type} (t : κ → Prog S L ε Unit) : List κ → Store S → Except ε (Store S)
  | [], s => .ok s
  | op :: ops, s =>
    match (t op).commit (fun _ => 0) s with
    | .error e => .error e
    | .ok (_, s') => commitAll t ops s'

/-- A state that the transactions of `ops` lead to, with what every transaction keeps. -/
theorem exists_commitAll {κ : Type} {t : κ → Prog S L ε Unit} {R : Store S → Prop}
    (hstep : ∀ s s' op, R s → (t op).commit (fun _ => 0) s = .ok ((), s') → R s') {s : Store S} (hs : R s)
    (ops : List κ) {p : Store S → Bool} (h : (commitAll t ops s).toOption.any p = true) : ∃ s', R s' ∧ p s' = true := by
  induction ops generalizing s with
  | nil => exact ⟨s, hs, h⟩
  | cons op ops ih =>
    unfold commitAll at h
    rcases hc : (t op).commit (fun _ => 0) s with e | ⟨_, s₁⟩
    · rw [hc] at h
      cases h
    · rw [hc] at h
      exact ih (hstep s s₁ op hs hc) h

/-! ### Running the parts of a program -/

theorem run_bind (p : Prog S L ε α) (f : α → Prog S L ε β) (v : Env S ε) :
    (p >>= f).run v = p.run v >>= fun x => (f x.1).run x.2 := by
  induction p generalizing v with
  | pure a => rfl
  | throw e => rfl
  | stmt r k ih =>
    show (Prog.stmt r fun b => (k b).bind f).run v = (Prog.stmt r k).run v >>= _
    simp only [run]
    rcases r (v.seq + v.gaps 0) v.db with e | o
    · rfl
    · exact ih o.res _

theorem bind_assoc {γ : Type} (p : Prog S L ε α) (f : α → Prog S L ε β) (g : β → Prog S L ε γ) :
    p >>= f >>= g = p >>= fun a => f a >>= g := by
  induction p with
  | pure a => rfl
  | throw e => rfl
  | stmt r k ih => exact congrArg (Prog.stmt r) (funext ih)

theorem run_bind_ok {p : Prog S L ε α} {f : α → Prog S L ε β} {v w : Env S ε} {b : β} :
    (p >>= f).run v = .ok (b, w) ↔ ∃ a u, p.run v = .ok (a, u) ∧ (f a).run u = .ok (b, w) := by
  rw [run_bind, Except.bind_eq_ok_iff, Prod.exists]

theorem run_pure_ok {a b : α} {v w : Env S ε} :
    (Pure.pure a : Prog S L ε α).run v = .ok (b, w) ↔ b = a ∧ w = v := by
  show Except.ok (a, v) = _ ↔ _
  simp [eq_comm]

theorem run_throw_ok {e : ε} {b : α} {v w : Env S ε} : ¬ (Prog.throw e : Prog S L ε α).run v = .ok (b, w) := by
  simp [run]

theorem run_exec_ok {r : ℕ → S → Except ε (Outcome S L ε α)} {a : α} {v w : Env S ε} :
    (exec r).run v = .ok (a, w) ↔ ∃ o, r (v.seq + v.gaps 0) v.db = .ok o ∧ a = o.res ∧ w = v.after o := by
  unfold exec run
  rcases r (v.seq + v.gaps 0) v.db with e | o
  · simp
  · simp [run, eq_comm]

theorem run_query_ok {f : S → Except ε α} {a : α} {v w : Env S ε} :
    (query f : Prog S L ε α).run v = .ok (a, w) ↔ f v.db = .ok a ∧ w = v.tick := by
  rw [query, run_exec_ok]
  rcases f v.db with e | b
  · simp [Except.map]
  · simp only [Except.map, Except.ok.injEq, exists_eq_left', Env.after, Env.tick, id, List.append_nil, Nat.add_zero]
    constructor
    · rintro ⟨rfl, rfl⟩
      exact ⟨rfl, rfl⟩
    · rintro ⟨rfl, rfl⟩
      exact ⟨rfl, rfl⟩

theorem run_read_ok {f : S → α} {a : α} {v w : Env S ε} :
    (read f : Prog S L ε α).run v = .ok (a, w) ↔ a = f v.db ∧ w = v.tick := by
  rw [read, run_exec_ok]
  simp [Env.after, Env.tick]

theorem run_require_ok {b : Bool} {e : ε} {u : Unit} {v w : Env S ε} :
    (require b e : Prog S L ε Unit).run v = .ok (u, w) ↔ b = true ∧ w = v := by
  cases b <;> simp [require, run, eq_comm]

theorem run_query_bind_ok {f : S → Except ε α} {k : α → Prog S L ε β} {b : β} {v w : Env S ε} :
    (query f >>= k).run v = .ok (b, w) ↔ ∃ a, f v.db = .ok a ∧ (k a).run v.tick = .ok (b, w) := by
  rw [run_bind_ok]
  constructor
  · rintro ⟨a, u, h, hk⟩
    obtain ⟨ha, rfl⟩ := run_query_ok.1 h
    exact ⟨a, ha, hk⟩
  · rintro ⟨a, ha, hk⟩
    exact ⟨a, _, run_query_ok.2 ⟨ha, rfl⟩, hk⟩

theorem run_read_bind_ok {f : S → α} {k : α → Prog S L ε β} {b : β} {v w : Env S ε} :
    (read f >>= k).run v = .ok (b, w) ↔ (k (f v.db)).run v.tick = .ok (b, w) := by
  rw [run_bind_ok]
  constructor
  · rintro ⟨a, u, h, hk⟩
    obtain ⟨rfl, rfl⟩ := run_read_ok.1 h
    exact hk
  · exact fun hk => ⟨_, _, run_read_ok.2 ⟨rfl, rfl⟩, hk⟩

theorem run_require_bind_ok {c : Bool} {e : ε} {k : Unit → Prog S L ε β} {b : β} {v w : Env S ε} :
    (require c e >>= k).run v = .ok (b, w) ↔ c = true ∧ (k ()).run v = .ok (b, w) := by
  rw [run_bind_ok]
  constructor
  · rintro ⟨a, u, h, hk⟩
    obtain ⟨hc, rfl⟩ := run_require_ok.1 h
    exact ⟨hc, hk⟩
  · exact fun ⟨hc, hk⟩ => ⟨_, _, run_require_ok.2 ⟨hc, rfl⟩, hk⟩

/-- A run only moves the identity sequence forward. -/
theorem run_seq_le {p : Prog S L ε α} {v w : Env S ε} {a : α} (h : p.run v = .ok (a, w)) : v.seq ≤ w.seq := by
  induction p generalizing v with
  | pure b => cases h; exact Nat.le_refl _
  | throw e => cases h
  | stmt r k ih =>
    unfold run at h
    rcases hr : r (v.seq + v.gaps 0) v.db with e | o
    · simp [hr] at h
    · rw [hr] at h
      exact Nat.le_trans (v.le_after_seq o) (ih o.res h)

/-- Deferred checks stay deferred. -/
theorem run_checks_prefix {p : Prog S L ε α} {v w : Env S ε} {a : α} (h : p.run v = .ok (a, w)) :
    ∃ cs, w.checks = v.checks ++ cs := by
  induction p generalizing v with
  | pure b => cases h; exact ⟨[], (List.append_nil _).symm⟩
  | throw e => cases h
  | stmt r k ih =>
    unfold run at h
    rcases hr : r (v.seq + v.gaps 0) v.db with e | o
    · simp [hr] at h
    · rw [hr] at h
      obtain ⟨cs, hcs⟩ := ih o.res h
      exact ⟨o.checks ++ cs, by rw [hcs, Env.after_checks, List.append_assoc]⟩

/-! ### Properties of every statement -/

/-- Every statement the program can come to satisfies `φ`. -/
def All (φ : ∀ {β : Type}, (ℕ → S → Except ε (Outcome S L ε β)) → Prop) : Prog S L ε α → Prop
  | .pure _ => True
  | .throw _ => True
  | .stmt r k => φ r ∧ ∀ b, (k b).All φ

section all

variable {φ : ∀ {β : Type}, (ℕ → S → Except ε (Outcome S L ε β)) → Prop}

theorem all_pure (a : α) : (Pure.pure a : Prog S L ε α).All φ := trivial

theorem all_throw (e : ε) : (Prog.throw e : Prog S L ε α).All φ := trivial

theorem all_require (b : Bool) (e : ε) : (require b e : Prog S L ε Unit).All φ := by
  cases b <;> trivial

theorem all_exec {r : ℕ → S → Except ε (Outcome S L ε α)} (h : φ r) : (exec r).All φ := ⟨h, fun _ => trivial⟩

theorem All.bind {p : Prog S L ε α} {f : α → Prog S L ε β} (hp : p.All φ) (hf : ∀ a, (f a).All φ) :
    (p >>= f).All φ := by
  induction p with
  | pure a => exact hf a
  | throw e => trivial
  | stmt r k ih => exact ⟨hp.1, fun b => ih b (hp.2 b)⟩

theorem All.imp {ψ : ∀ {β : Type}, (ℕ → S → Except ε (Outcome S L ε β)) → Prop} {p : Prog S L ε α}
    (h : ∀ {β : Type} (r : ℕ → S → Except ε (Outcome S L ε β)), φ r → ψ r) (hp : p.All φ) : p.All ψ := by
  induction p with
  | pure a => trivial
  | throw e => trivial
  | stmt r k ih => exact ⟨h r hp.1, fun b => ih b (hp.2 b)⟩

end all

/-- The statement keeps `I`, a property of the identity sequence and the state. -/
def Keeps (I : ℕ → S → Prop) (r : ℕ → S → Except ε (Outcome S L ε β)) : Prop :=
  ∀ n s o, I n s → r n s = .ok o → I (n + o.used) (o.act s)

/-- What every statement keeps, a run keeps. -/
theorem run_keeps {I : ℕ → S → Prop} (hI : ∀ n m s, n ≤ m → I n s → I m s) {p : Prog S L ε α}
    (hp : p.All (Keeps I)) {v w : Env S ε} {a : α} (h : p.run v = .ok (a, w)) (hv : I v.seq v.db) :
    I w.seq w.db := by
  induction p generalizing v with
  | pure b =>
    cases h
    exact hv
  | throw e => cases h
  | stmt r k ih =>
    unfold run at h
    rcases hr : r (v.seq + v.gaps 0) v.db with e | o
    · simp [hr] at h
    · rw [hr] at h
      exact ih o.res (hp.2 _) h (hp.1 _ _ o (hI _ _ _ (Nat.le_add_right ..) hv) hr)

/-! ### Errors -/

/-- The statement and the checks it defers fail only with errors that satisfy `E`. -/
def FailsOnly (E : ε → Prop) (r : ℕ → S → Except ε (Outcome S L ε β)) : Prop :=
  ∀ n s, (∀ e, r n s = .error e → E e) ∧ ∀ o, r n s = .ok o → ∀ c ∈ o.checks, ∀ s' e, c s' = .error e → E e

/-- Every error that the program or a check it defers can come to satisfies `E`. -/
def Throws (E : ε → Prop) : Prog S L ε α → Prop
  | .pure _ => True
  | .throw e => E e
  | .stmt r k => FailsOnly E r ∧ ∀ b, (k b).Throws E

section throws

variable {E : ε → Prop}

theorem throws_pure (a : α) : (Pure.pure a : Prog S L ε α).Throws E := trivial

theorem throws_exec {r : ℕ → S → Except ε (Outcome S L ε α)} (h : FailsOnly E r) : (exec r).Throws E :=
  ⟨h, fun _ => trivial⟩

theorem fails_never {x : Except ε (Outcome S L ε β)} {o : Outcome S L ε β} (h : x = .ok o) (hc : o.checks = []) :
    (∀ e, x = .error e → E e) ∧ ∀ o, x = .ok o → ∀ c ∈ o.checks, ∀ s e, c s = .error e → E e := by
  subst h
  refine ⟨fun e he => ?_, fun o' ho c hm => ?_⟩
  · cases he
  · cases ho
    rw [hc] at hm
    cases hm

theorem throws_read (f : S → α) : (read f : Prog S L ε α).Throws E :=
  throws_exec fun _ _ => fails_never rfl rfl

theorem throws_require {b : Bool} {e : ε} (h : b = false → E e) : (require b e : Prog S L ε Unit).Throws E := by
  cases b with
  | false => exact h rfl
  | true => trivial

theorem Throws.bind {p : Prog S L ε α} {f : α → Prog S L ε β} (hp : p.Throws E) (hf : ∀ a, (f a).Throws E) :
    (p >>= f).Throws E := by
  induction p with
  | pure a => exact hf a
  | throw e => exact hp
  | stmt r k ih => exact ⟨hp.1, fun b => ih b (hp.2 b)⟩

/-- The error of a run, and those of the checks it defers. -/
theorem Throws.run {p : Prog S L ε α} (hp : p.Throws E) {v : Env S ε}
    (hv : ∀ c ∈ v.checks, ∀ s e, c s = .error e → E e) :
    (∀ e, p.run v = .error e → E e) ∧
      ∀ a w, p.run v = .ok (a, w) → ∀ c ∈ w.checks, ∀ s e, c s = .error e → E e := by
  induction p generalizing v with
  | pure a =>
    refine ⟨fun e he => ?_, fun b w hw => ?_⟩
    · cases he
    · cases hw
      exact hv
  | throw e' =>
    refine ⟨fun e he => ?_, fun b w hw => ?_⟩
    · cases he
      exact hp
    · cases hw
  | stmt r k ih =>
    obtain ⟨herr, hchecks⟩ := hp.1 (v.seq + v.gaps 0) v.db
    unfold Prog.run
    rcases hr : r (v.seq + v.gaps 0) v.db with e' | o
    · refine ⟨fun e he => ?_, fun b w hw => ?_⟩
      · cases he
        exact herr _ hr
      · cases hw
    · refine ih o.res (hp.2 _) fun c hc => ?_
      rw [Env.after_checks, List.mem_append] at hc
      exact hc.elim (hv c) (hchecks o hr c)

theorem exists_of_passAll_error {checks : List (S → Except ε Unit)} {s : S} {e : ε} (h : passAll checks s = .error e) :
    ∃ c ∈ checks, c s = .error e := by
  induction checks with
  | nil => cases h
  | cons c cs ih =>
    rw [passAll] at h
    cases hc : c s with
    | error e' =>
      rw [hc] at h
      cases h
      exact ⟨c, List.mem_cons_self .., hc⟩
    | ok u =>
      rw [hc] at h
      obtain ⟨c', hc', he⟩ := ih h
      exact ⟨c', List.mem_cons_of_mem _ hc', he⟩

theorem Throws.commit {p : Prog S L ε α} (hp : p.Throws E) {gaps : ℕ → ℕ} {s : Store S} {e : ε}
    (h : p.commit gaps s = .error e) : E e := by
  have hrun := hp.run (v := ⟨gaps, s.seq, s.db, []⟩) fun c hc => absurd hc List.not_mem_nil
  unfold Prog.commit at h
  rcases hr : p.run ⟨gaps, s.seq, s.db, []⟩ with e' | ⟨a, v⟩
  · rw [hr] at h
    cases h
    exact hrun.1 _ hr
  · rw [hr] at h
    dsimp only at h
    cases hpass : passAll v.checks v.db with
    | ok u =>
      rw [hpass] at h
      cases h
    | error e' =>
      rw [hpass] at h
      cases h
      obtain ⟨c, hc, he⟩ := exists_of_passAll_error hpass
      exact hrun.2 a v hr c hc _ _ he

end throws

/-- A transaction that starts with a query, once the answer is known. -/
theorem commit_query_bind {f : S → Except ε α} {k : α → Prog S L ε β} {gaps : ℕ → ℕ} {s : Store S} {a : α}
    (h : f s.db = .ok a) :
    (query f >>= k).commit gaps s = (k a).commit (fun i => gaps (i + 1)) ⟨s.db, s.seq + gaps 0⟩ := by
  have hrun : (query f >>= k).run ⟨gaps, s.seq, s.db, []⟩ =
      (k a).run ⟨fun i => gaps (i + 1), s.seq + gaps 0, s.db, []⟩ := by
    rw [run_bind, (run_query_ok (a := a)).2 ⟨h, rfl⟩]
    rfl
  rw [commit, commit, hrun]

theorem commit_query_bind_error {f : S → Except ε α} {k : α → Prog S L ε β} {gaps : ℕ → ℕ} {s : Store S} {e : ε}
    (h : f s.db = .error e) : (query f >>= k).commit gaps s = .error e := by
  have hrun : (query f : Prog S L ε α).run ⟨gaps, s.seq, s.db, []⟩ = .error e := by
    rw [query, exec, run, h]
    rfl
  rw [commit, run_bind, hrun]
  rfl

end Prog
