import Tadmor.Store.Prog

/-!
# Weakest preconditions

`wp E Q p` holds of the states from which a run of `p` fails only with an error that satisfies `E`, and otherwise ends
in `Q`.  The rules below push it through a program statement by statement; `wp_iff_run` turns it into what runs do, so
that what is known of runs that do not fail can be used.
-/

variable {S L ε α β : Type}

namespace Prog

def wp (E : ε → Prop) (Q : α → Env S ε → Prop) (p : Prog S L ε α) (v : Env S ε) : Prop :=
  match p.run v with
  | .error e => E e
  | .ok (a, w) => Q a w

variable {E : ε → Prop} {Q R : α → Env S ε → Prop} {p : Prog S L ε α} {v : Env S ε}

theorem wp_iff_run : p.wp E Q v ↔ (∀ e, p.run v = .error e → E e) ∧ ∀ a w, p.run v = .ok (a, w) → Q a w := by
  unfold wp
  cases p.run v with
  | error e => simp
  | ok x =>
    obtain ⟨b, w⟩ := x
    simp only [reduceCtorEq, false_implies, implies_true, true_and, Except.ok.injEq, Prod.mk.injEq]
    constructor
    · rintro h a u ⟨rfl, rfl⟩
      exact h
    · exact fun h => h b w ⟨rfl, rfl⟩

theorem wp.mono (h : p.wp E Q v) (hQ : ∀ a w, p.run v = .ok (a, w) → Q a w → R a w) : p.wp E R v := by
  obtain ⟨herr, hok⟩ := wp_iff_run.1 h
  exact wp_iff_run.2 ⟨herr, fun a w hr => hQ a w hr (hok a w hr)⟩

theorem wp_and (h : p.wp E Q v) (h' : ∀ a w, p.run v = .ok (a, w) → R a w) : p.wp E (fun a w => Q a w ∧ R a w) v :=
  h.mono fun a w hr hq => ⟨hq, h' a w hr⟩

/-! ### The rules -/

theorem wp_pure {a : α} : (Pure.pure a : Prog S L ε α).wp E Q v ↔ Q a v := Iff.rfl

theorem wp_throw {e : ε} : (Prog.throw e : Prog S L ε α).wp E Q v ↔ E e := Iff.rfl

theorem wp_bind {f : β → Prog S L ε α} {p : Prog S L ε β} :
    (p >>= f).wp E Q v ↔ p.wp E (fun b w => (f b).wp E Q w) v := by
  unfold wp
  rw [run_bind]
  cases p.run v with
  | error e => rfl
  | ok x => rfl

theorem wp_exec {r : ℕ → S → Except ε (Outcome S L ε α)} : (exec r).wp E Q v ↔
    (∀ e, r (v.seq + v.gaps 0) v.db = .error e → E e) ∧
      ∀ o, r (v.seq + v.gaps 0) v.db = .ok o → Q o.res (v.after o) := by
  unfold wp exec run
  cases r (v.seq + v.gaps 0) v.db with
  | error e => simp
  | ok o => simp [run]

theorem wp_query {f : S → Except ε α} : (query f : Prog S L ε α).wp E Q v ↔
    (∀ e, f v.db = .error e → E e) ∧ ∀ a, f v.db = .ok a → Q a v.tick := by
  rw [query, wp_exec]
  cases f v.db with
  | error e => simp [Except.map]
  | ok a => simp [Except.map, Env.after, Env.tick]

theorem wp_read {f : S → α} : (read f : Prog S L ε α).wp E Q v ↔ Q (f v.db) v.tick := by
  rw [read, wp_exec]
  simp [Env.after, Env.tick]

theorem wp_require {b : Bool} {e : ε} {Q : Unit → Env S ε → Prop} : (require b e : Prog S L ε Unit).wp E Q v ↔
    (b = false → E e) ∧ (b = true → Q () v) := by
  cases b with
  | false => simp [require, wp, run]
  | true => simp [require, wp, run]

theorem Throws.run_error (hp : p.Throws E) {e : ε} (he : p.run v = .error e) : E e := by
  induction p generalizing v with
  | pure a => cases he
  | throw e' =>
    cases he
    exact hp
  | stmt r k ih =>
    unfold Prog.run at he
    rcases hr : r (v.seq + v.gaps 0) v.db with e' | o
    · rw [hr] at he
      cases he
      exact (hp.1 _ _).1 e hr
    · rw [hr] at he
      exact ih o.res (hp.2 _) he

/-- A program that can come to no other error. -/
theorem Throws.wp (hp : p.Throws E) (h : ∀ a w, p.run v = .ok (a, w) → Q a w) : p.wp E Q v :=
  wp_iff_run.2 ⟨fun _ he => hp.run_error he, h⟩

/-! ### Programs that start with a statement -/

section

variable {k : β → Prog S L ε α}

theorem wp_exec_bind {r : ℕ → S → Except ε (Outcome S L ε β)} : (exec r >>= k).wp E Q v ↔
    (∀ e, r (v.seq + v.gaps 0) v.db = .error e → E e) ∧
      ∀ o, r (v.seq + v.gaps 0) v.db = .ok o → (k o.res).wp E Q (v.after o) := by
  rw [wp_bind, wp_exec]

theorem wp_query_bind {f : S → Except ε β} : (query f >>= k).wp E Q v ↔
    (∀ e, f v.db = .error e → E e) ∧ ∀ a, f v.db = .ok a → (k a).wp E Q v.tick := by
  rw [wp_bind, wp_query]

theorem wp_read_bind {f : S → β} : (read f >>= k).wp E Q v ↔ (k (f v.db)).wp E Q v.tick := by
  rw [wp_bind, wp_read]

theorem wp_require_bind {b : Bool} {e : ε} {k : Unit → Prog S L ε α} : (require b e >>= k).wp E Q v ↔
    (b = false → E e) ∧ (b = true → (k ()).wp E Q v) := by
  rw [wp_bind, wp_require]

end

/-! ### Transactions -/

/-- A transaction fails with the error of its statements or with that of a deferred check. -/
theorem commit_error_iff {gaps : ℕ → ℕ} {s : Store S} : (∀ e, p.commit gaps s = .error e → E e) ↔
    p.wp E (fun _ w => ∀ e, passAll w.checks w.db = .error e → E e) ⟨gaps, s.seq, s.db, []⟩ := by
  unfold commit wp
  cases p.run ⟨gaps, s.seq, s.db, []⟩ with
  | error e => simp
  | ok x =>
    obtain ⟨a, w⟩ := x
    dsimp only
    cases passAll w.checks w.db with
    | error e => simp
    | ok u => simp

/-- A transaction whose deferred checks pass. -/
theorem commit_error_of_wp {gaps : ℕ → ℕ} {s : Store S}
    (h : p.wp E (fun _ w => ∀ c ∈ w.checks, c w.db = .ok ()) ⟨gaps, s.seq, s.db, []⟩) {e : ε}
    (he : p.commit gaps s = .error e) : E e := by
  refine commit_error_iff.2 (h.mono fun a w _ hc e hpass => ?_) e he
  rw [passAll_eq_ok.2 hc] at hpass
  cases hpass

end Prog
