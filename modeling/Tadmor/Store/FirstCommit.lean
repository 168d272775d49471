import Tadmor.Store.Interference

/-!
# The first commit

Until the first commit becomes visible, every transaction runs as if it were alone on the state it started from.  So
the first transaction to commit does what it does alone, and until the next commit the others go on, each alone, on the
state it leaves behind.
-/

variable {ι S L ε α : Type}

namespace Prog

/-- Runs the rest of a program, then the deferred checks. -/
def finish (p : Prog S L ε α) (v : Env S ε) : Except ε (α × Store S) :=
  match p.run v with
  | .error e => .error e
  | .ok (a, w) =>
    match passAll w.checks w.db with
    | .error e => .error e
    | .ok _ => .ok (a, ⟨w.db, w.seq⟩)

theorem finish_eq_ok {p : Prog S L ε α} {v : Env S ε} {a : α} {s : Store S} :
    p.finish v = .ok (a, s) ↔ ∃ w, p.run v = .ok (a, w) ∧ passAll w.checks w.db = .ok () ∧ s = ⟨w.db, w.seq⟩ := by
  unfold finish
  rcases p.run v with e | ⟨b, w⟩
  · simp
  · rcases h : passAll w.checks w.db with e | u
    · simp only [h, Except.ok.injEq, Prod.mk.injEq, reduceCtorEq, false_iff, not_exists]
      rintro w' ⟨⟨-, rfl⟩, hw, -⟩
      rw [h] at hw
      cases hw
    · simp only [h, Except.ok.injEq, Prod.mk.injEq]
      constructor
      · rintro ⟨rfl, rfl⟩
        exact ⟨w, ⟨rfl, rfl⟩, h, rfl⟩
      · rintro ⟨w', ⟨rfl, rfl⟩, -, rfl⟩
        exact ⟨rfl, rfl⟩

theorem run_stmt {β : Type} {r : ℕ → S → Except ε (Outcome S L ε β)} {k : β → Prog S L ε α} {v : Env S ε}
    {o : Outcome S L ε β} (h : r (v.seq + v.gaps 0) v.db = .ok o) :
    (Prog.stmt r k).run v = (k o.res).run (v.after o) := by
  rw [run, h]

end Prog

/-! ### A transaction that runs alone -/

/-- With `d` committed, the transaction `t` comes to another state by its own steps, while the identity sequence goes
from `n` to another number; others may draw numbers in between. -/
inductive Tx.Alone (d : S) (t : Tx S L ε α) (n : ℕ) : ℕ → Tx S L ε α → Prop where
  | refl : Alone d t n n t
  | wait {m m' : ℕ} {t' : Tx S L ε α} (h : Alone d t n m t') (hm : m ≤ m') : Alone d t n m' t'
  | stmt {m pc : ℕ} {act : S → S} {ls : List L} {cs : List (S → Except ε Unit)} {β : Type}
      {r : ℕ → S → Except ε (Outcome S L ε β)} {k : β → Prog S L ε α} {o : Outcome S L ε β}
      (h : Alone d t n m (.running pc act ls cs (.stmt r k))) (ho : r m (act d) = .ok o) :
      Alone d t n (m + o.used) (.running (pc + 1) (o.act ∘ act) (ls ++ o.locks) (cs ++ o.checks) (k o.res))
  | fail {m pc : ℕ} {act : S → S} {ls : List L} {cs : List (S → Except ε Unit)} {β : Type}
      {r : ℕ → S → Except ε (Outcome S L ε β)} {k : β → Prog S L ε α} {e : ε}
      (h : Alone d t n m (.running pc act ls cs (.stmt r k))) (he : r m (act d) = .error e) :
      Alone d t n m (.aborted e)
  | throw {m pc : ℕ} {act : S → S} {ls : List L} {cs : List (S → Except ε Unit)} {e : ε}
      (h : Alone d t n m (.running pc act ls cs (.throw e))) : Alone d t n m (.aborted e)
  | refuse {m pc : ℕ} {act : S → S} {ls : List L} {cs : List (S → Except ε Unit)} {a : α} {e : ε}
      (h : Alone d t n m (.running pc act ls cs (.pure a))) (he : passAll cs (act d) = .error e) :
      Alone d t n m (.aborted e)
  | check {m pc : ℕ} {act : S → S} {ls : List L} {cs : List (S → Except ε Unit)} {a : α}
      (h : Alone d t n m (.running pc act ls cs (.pure a))) (hp : passAll cs (act d) = .ok ()) :
      Alone d t n m (.checked act ls a)

namespace Tx.Alone

variable {d : S} {t : Tx S L ε α} {n m : ℕ}

theorem le {t' : Tx S L ε α} (h : t.Alone d n m t') : n ≤ m := by
  induction h with
  | refl => exact le_rfl
  | wait _ hm ih => omega
  | stmt _ _ ih => omega
  | fail _ _ ih => exact ih
  | throw _ ih => exact ih
  | refuse _ _ ih => exact ih
  | check _ _ ih => exact ih

/-- Running alone, no transaction makes its commit visible. -/
theorem not_committed {t' : Tx S L ε α} (h : t.Alone d n m t') (ht : t.isCommitted = false) :
    t'.isCommitted = false := by
  induction h with
  | refl => exact ht
  | wait _ _ ih => exact ih
  | stmt => rfl
  | fail => rfl
  | throw => rfl
  | refuse => rfl
  | check => rfl

/-- A transaction that is finished stays as it is. -/
theorem of_finished {t' : Tx S L ε α} (h : t.Alone d n m t') (ht : t.finished = true) : t' = t := by
  induction h with
  | refl => rfl
  | wait _ _ ih => exact ih
  | stmt _ _ ih => cases ih ▸ ht
  | fail _ _ ih => cases ih ▸ ht
  | throw _ ih => cases ih ▸ ht
  | refuse _ _ ih => cases ih ▸ ht
  | check _ _ ih => cases ih ▸ ht

/-- Prepends one gap. -/
private def gap (g : ℕ) (gaps : ℕ → ℕ) : ℕ → ℕ
  | 0 => g
  | i + 1 => gaps i

/-- What is known of the transaction `t'` that a program comes to: the result of the program is that of the rest. -/
private def Known (d : S) (v : (ℕ → ℕ) → Env S ε) (p : Prog S L ε α) (m : ℕ) : Tx S L ε α → Prop
  | .running _ act _ cs q => ∃ m' ≤ m, ∃ ext : (ℕ → ℕ) → ℕ → ℕ, ∀ gaps,
      p.run (v (ext gaps)) = q.run ⟨gaps, m', act d, cs⟩
  | .checked act _ a => ∃ gaps s, p.finish (v gaps) = .ok (a, s) ∧ s.db = act d ∧ s.seq ≤ m
  | .committed _ => False
  | .aborted e => ∃ gaps, p.finish (v gaps) = .error e

private theorem known {pc : ℕ} {act : S → S} {ls : List L} {cs : List (S → Except ε Unit)} {p : Prog S L ε α}
    {t' : Tx S L ε α} (h : (Tx.running pc act ls cs p).Alone d n m t') :
    Known d (fun gaps => ⟨gaps, n, act d, cs⟩) p m t' := by
  induction h with
  | refl => exact ⟨n, le_rfl, id, fun _ => rfl⟩
  | @wait m m' t' _ hm ih =>
    cases t' with
    | running pc' act' ls' cs' q =>
      obtain ⟨k, hk, hext⟩ := ih
      exact ⟨k, hk.trans hm, hext⟩
    | checked act' ls' a =>
      obtain ⟨gaps, s, hs, hdb, hseq⟩ := ih
      exact ⟨gaps, s, hs, hdb, hseq.trans hm⟩
    | committed a => exact ih
    | aborted e => exact ih
  | @stmt m pc' act' ls' cs' β r k o _ ho ih =>
    obtain ⟨m', hm', ext, hext⟩ := ih
    refine ⟨m + o.used, le_rfl, fun gaps => ext (gap (m - m') gaps), fun gaps => ?_⟩
    have hrun : r (m' + gap (m - m') gaps 0) (act' d) = .ok o := by
      rw [gap, Nat.add_sub_cancel' hm']
      exact ho
    rw [hext, Prog.run_stmt hrun]
    simp only [Env.after, gap, Nat.add_sub_cancel' hm', Function.comp_apply]
  | @fail m pc' act' ls' cs' β r k e _ he ih =>
    obtain ⟨m', hm', ext, hext⟩ := ih
    refine ⟨ext (gap (m - m') fun _ => 0), ?_⟩
    rw [Prog.finish, hext, Prog.run]
    simp only [gap, Nat.add_sub_cancel' hm', he]
  | throw _ ih =>
    obtain ⟨m', -, ext, hext⟩ := ih
    exact ⟨ext fun _ => 0, by rw [Prog.finish, hext, Prog.run]⟩
  | @refuse m pc' act' ls' cs' a e _ he ih =>
    obtain ⟨m', -, ext, hext⟩ := ih
    refine ⟨ext fun _ => 0, ?_⟩
    rw [Prog.finish, hext, Prog.run]
    simp only [he]
  | @check m pc' act' ls' cs' a _ hp ih =>
    obtain ⟨m', hm', ext, hext⟩ := ih
    refine ⟨ext fun _ => 0, ⟨act' d, m'⟩, ?_, rfl, hm'⟩
    rw [Prog.finish, hext, Prog.run]
    simp only [hp]

/-- A program that has run its statements. -/
theorem run_pure {pc pc' : ℕ} {act act' : S → S} {ls ls' : List L} {cs cs' : List (S → Except ε Unit)}
    {p : Prog S L ε α} {a : α} (h : (Tx.running pc act ls cs p).Alone d n m (.running pc' act' ls' cs' (.pure a))) :
    ∃ gaps w, p.run ⟨gaps, n, act d, cs⟩ = .ok (a, w) ∧ w.db = act' d ∧ w.seq ≤ m := by
  obtain ⟨m', hm', ext, hext⟩ := known h
  exact ⟨_, _, hext fun _ => 0, rfl, hm'⟩

/-- A program whose deferred checks have passed. -/
theorem finish_checked {pc : ℕ} {act act' : S → S} {ls ls' : List L} {cs : List (S → Except ε Unit)}
    {p : Prog S L ε α} {a : α} (h : (Tx.running pc act ls cs p).Alone d n m (.checked act' ls' a)) :
    ∃ gaps s, p.finish ⟨gaps, n, act d, cs⟩ = .ok (a, s) ∧ s.db = act' d ∧ s.seq ≤ m := known h

/-- A program that has failed. -/
theorem finish_aborted {pc : ℕ} {act : S → S} {ls : List L} {cs : List (S → Except ε Unit)} {p : Prog S L ε α} {e : ε}
    (h : (Tx.running pc act ls cs p).Alone d n m (.aborted e)) : ∃ gaps, p.finish ⟨gaps, n, act d, cs⟩ = .error e :=
  known h

/-- The next statement has not run, has failed, or has run. -/
theorem of_stmt {pc : ℕ} {act : S → S} {ls : List L} {cs : List (S → Except ε Unit)} {β : Type}
    {r : ℕ → S → Except ε (Outcome S L ε β)} {k : β → Prog S L ε α} {t' : Tx S L ε α}
    (h : (Tx.running pc act ls cs (.stmt r k)).Alone d n m t') :
    t' = .running pc act ls cs (.stmt r k) ∨
      (∃ n' e, n ≤ n' ∧ r n' (act d) = .error e ∧ t' = .aborted e) ∨
      ∃ n' o, n ≤ n' ∧ r n' (act d) = .ok o ∧
        (Tx.running (pc + 1) (o.act ∘ act) (ls ++ o.locks) (cs ++ o.checks) (k o.res)).Alone d (n' + o.used) m t' := by
  induction h with
  | refl => exact .inl rfl
  | wait _ hm ih =>
    rcases ih with rfl | ⟨n', e, hn, he, rfl⟩ | ⟨n', o, hn, ho, h⟩
    · exact .inl rfl
    · exact .inr (.inl ⟨n', e, hn, he, rfl⟩)
    · exact .inr (.inr ⟨n', o, hn, ho, .wait h hm⟩)
  | stmt h ho ih =>
    rcases ih with e | ⟨_, _, _, _, e⟩ | ⟨n', o', hn, ho', h'⟩
    · cases e
      exact .inr (.inr ⟨_, _, h.le, ho, .refl⟩)
    · cases e
    · exact .inr (.inr ⟨n', o', hn, ho', .stmt h' ho⟩)
  | fail h he ih =>
    rcases ih with e | ⟨_, _, _, _, e⟩ | ⟨n', o', hn, ho', h'⟩
    · cases e
      exact .inr (.inl ⟨_, _, h.le, he, rfl⟩)
    · cases e
    · exact .inr (.inr ⟨n', o', hn, ho', .fail h' he⟩)
  | throw _ ih =>
    rcases ih with e | ⟨_, _, _, _, e⟩ | ⟨n', o', hn, ho', h'⟩
    · cases e
    · cases e
    · exact .inr (.inr ⟨n', o', hn, ho', .throw h'⟩)
  | refuse _ he ih =>
    rcases ih with e | ⟨_, _, _, _, e⟩ | ⟨n', o', hn, ho', h'⟩
    · cases e
    · cases e
    · exact .inr (.inr ⟨n', o', hn, ho', .refuse h' he⟩)
  | check _ hp ih =>
    rcases ih with e | ⟨_, _, _, _, e⟩ | ⟨n', o', hn, ho', h'⟩
    · cases e
    · cases e
    · exact .inr (.inr ⟨n', o', hn, ho', .check h' hp⟩)

theorem of_throw {pc : ℕ} {act : S → S} {ls : List L} {cs : List (S → Except ε Unit)} {e : ε} {t' : Tx S L ε α}
    (h : (Tx.running pc act ls cs (.throw e)).Alone d n m t') :
    t' = .running pc act ls cs (.throw e) ∨ t' = .aborted e := by
  induction h with
  | refl => exact .inl rfl
  | wait _ _ ih => exact ih
  | stmt _ _ ih => rcases ih with e | e <;> cases e
  | fail _ _ ih => rcases ih with e | e <;> cases e
  | throw _ ih =>
    rcases ih with e | e
    · cases e
      exact .inr rfl
    · cases e
  | refuse _ _ ih => rcases ih with e | e <;> cases e
  | check _ _ ih => rcases ih with e | e <;> cases e

/-- A program that goes on after `p` is still in `p`, has failed, or has come through `p`. -/
theorem of_bind {β : Type} {pc : ℕ} {act : S → S} {ls : List L} {cs : List (S → Except ε Unit)} {p : Prog S L ε β}
    {k : β → Prog S L ε α} {t' : Tx S L ε α} (h : (Tx.running pc act ls cs (p >>= k)).Alone d n m t') :
    (∃ pc' act' ls' cs' q, t' = .running pc' act' ls' cs' (q >>= k) ∧
      (Tx.running pc act ls cs p).Alone d n m (.running pc' act' ls' cs' q)) ∨ (∃ e, t' = .aborted e) ∨
    ∃ m' pc' act' ls' cs' b, (Tx.running pc act ls cs p).Alone d n m' (.running pc' act' ls' cs' (.pure b)) ∧
      (Tx.running pc' act' ls' cs' (k b)).Alone d m' m t' := by
  induction h with
  | refl => exact .inl ⟨_, _, _, _, _, rfl, .refl⟩
  | wait _ hm ih =>
    rcases ih with ⟨_, _, _, _, _, e, h⟩ | haborted | ⟨_, _, _, _, _, _, hp, h⟩
    · exact .inl ⟨_, _, _, _, _, e, .wait h hm⟩
    · exact .inr (.inl haborted)
    · exact .inr (.inr ⟨_, _, _, _, _, _, hp, .wait h hm⟩)
  | stmt _ ho ih =>
    rcases ih with ⟨_, _, _, _, q, e, h⟩ | ⟨_, e⟩ | ⟨_, _, _, _, _, _, hp, h⟩
    · cases q with
      | pure b =>
        have e : _ = Tx.running _ _ _ _ (k b) := e
        refine .inr (.inr ⟨_, _, _, _, _, b, h, ?_⟩)
        rw [← e]
        exact .stmt .refl ho
      | throw _ => cases e
      | stmt r k' =>
        cases e
        exact .inl ⟨_, _, _, _, _, rfl, .stmt h ho⟩
    · cases e
    · exact .inr (.inr ⟨_, _, _, _, _, _, hp, .stmt h ho⟩)
  | fail => exact .inr (.inl ⟨_, rfl⟩)
  | throw => exact .inr (.inl ⟨_, rfl⟩)
  | refuse => exact .inr (.inl ⟨_, rfl⟩)
  | check _ hp ih =>
    rcases ih with ⟨_, _, _, _, q, e, h⟩ | ⟨_, e⟩ | ⟨_, _, _, _, _, _, hp', h⟩
    · cases q with
      | pure b =>
        have e : _ = Tx.running _ _ _ _ (k b) := e
        refine .inr (.inr ⟨_, _, _, _, _, b, h, ?_⟩)
        rw [← e]
        exact .check .refl hp
      | throw _ => cases e
      | stmt _ _ => cases e
    · cases e
    · exact .inr (.inr ⟨_, _, _, _, _, _, hp', .check h hp⟩)

/-- A program whose deferred checks have passed has come through its first part. -/
theorem checked_bind {β : Type} {pc : ℕ} {act act' : S → S} {ls ls' : List L} {cs : List (S → Except ε Unit)}
    {p : Prog S L ε β} {k : β → Prog S L ε α} {a : α}
    (h : (Tx.running pc act ls cs (p >>= k)).Alone d n m (.checked act' ls' a)) :
    ∃ m' pc' act₁ ls₁ cs₁ b, (Tx.running pc act ls cs p).Alone d n m' (.running pc' act₁ ls₁ cs₁ (.pure b)) ∧
      (Tx.running pc' act₁ ls₁ cs₁ (k b)).Alone d m' m (.checked act' ls' a) := by
  rcases of_bind h with ⟨_, _, _, _, _, e, -⟩ | ⟨_, e⟩ | h
  · cases e
  · cases e
  · exact h

/-- Before its next statement a transaction is where it was. -/
theorem eq_of_pc {pc pc' : ℕ} {act act' : S → S} {ls ls' : List L} {cs cs' : List (S → Except ε Unit)}
    {p q : Prog S L ε α} (h : (Tx.running pc act ls cs p).Alone d n m (.running pc' act' ls' cs' q)) (hpc : pc' ≤ pc) :
    act' = act ∧ ls' = ls ∧ cs' = cs ∧ q = p := by
  have hle : ∀ {t' : Tx S L ε α}, (Tx.running pc act ls cs p).Alone d n m t' →
      ∀ pc' act' ls' cs' q, t' = .running pc' act' ls' cs' q →
        pc < pc' ∨ pc' = pc ∧ act' = act ∧ ls' = ls ∧ cs' = cs ∧ q = p := by
    clear h hpc
    intro t' h
    induction h with
    | refl =>
      rintro _ _ _ _ _ ⟨⟩
      exact .inr ⟨rfl, rfl, rfl, rfl, rfl⟩
    | wait _ _ ih => exact ih
    | stmt _ _ ih =>
      rintro _ _ _ _ _ ⟨⟩
      rcases ih _ _ _ _ _ rfl with hlt | ⟨he, -⟩
      · left
        omega
      · left
        omega
    | fail => rintro _ _ _ _ _ ⟨⟩
    | throw => rintro _ _ _ _ _ ⟨⟩
    | refuse => rintro _ _ _ _ _ ⟨⟩
    | check => rintro _ _ _ _ _ ⟨⟩
  rcases hle h _ _ _ _ _ rfl with hlt | ⟨-, h⟩
  · omega
  · exact h

/-- A query has not been answered, has failed, or has been answered from what the transaction sees. -/
theorem query_bind {pc : ℕ} {act : S → S} {ls : List L} {cs : List (S → Except ε Unit)} {β : Type} {f : S → Except ε β}
    {k : β → Prog S L ε α} {t' : Tx S L ε α} (h : (Tx.running pc act ls cs (Prog.query f >>= k)).Alone d n m t') :
    t' = .running pc act ls cs (Prog.query f >>= k) ∨ (∃ e, f (act d) = .error e ∧ t' = .aborted e) ∨
      ∃ n' a, n ≤ n' ∧ f (act d) = .ok a ∧ (Tx.running (pc + 1) act ls cs (k a)).Alone d n' m t' := by
  rcases of_stmt h with h | ⟨n', e, -, he, rfl⟩ | ⟨n', o, hn, ho, h⟩
  · exact .inl h
  · right; left
    cases hf : f (act d) with
    | error e' =>
      rw [hf] at he
      cases he
      exact ⟨e, rfl, rfl⟩
    | ok a =>
      rw [hf] at he
      cases he
  · right; right
    cases hf : f (act d) with
    | error e' =>
      rw [hf] at ho
      cases ho
    | ok a =>
      rw [hf] at ho
      cases ho
      simp only [List.append_nil] at h
      exact ⟨n', a, hn, rfl, h⟩

theorem read_bind {pc : ℕ} {act : S → S} {ls : List L} {cs : List (S → Except ε Unit)} {β : Type} {f : S → β}
    {k : β → Prog S L ε α} {t' : Tx S L ε α} (h : (Tx.running pc act ls cs (Prog.read f >>= k)).Alone d n m t') :
    t' = .running pc act ls cs (Prog.read f >>= k) ∨
      ∃ n', n ≤ n' ∧ (Tx.running (pc + 1) act ls cs (k (f (act d)))).Alone d n' m t' := by
  rcases query_bind (f := fun s => .ok (f s)) h with h | ⟨e, he, -⟩ | ⟨n', a, hn, ha, h⟩
  · exact .inl h
  · cases he
  · cases ha
    exact .inr ⟨n', hn, h⟩

theorem require_bind {pc : ℕ} {act : S → S} {ls : List L} {cs : List (S → Except ε Unit)} {b : Bool} {e : ε}
    {k : Unit → Prog S L ε α} {t' : Tx S L ε α}
    (h : (Tx.running pc act ls cs (Prog.require b e >>= k)).Alone d n m t') :
    b = false ∧ (t' = .running pc act ls cs (.throw e) ∨ t' = .aborted e) ∨
      b = true ∧ (Tx.running pc act ls cs (k ())).Alone d n m t' := by
  cases b with
  | false => exact .inl ⟨rfl, of_throw h⟩
  | true => exact .inr ⟨rfl, h⟩

end Tx.Alone

/-! ### The system -/

namespace Sys

variable [DecidableEq ι] [Fintype ι] [Locking L]

/-- No commit is visible yet: every transaction has run as if alone. -/
structure Unseen (s : Store S) (p : ι → Prog S L ε α) (σ : Sys ι S L ε α) : Prop where
  db : σ.db = s.db
  exclusive : σ.Exclusive
  alone : ∀ i, (Tx.start (p i)).Alone s.db s.seq σ.seq (σ.tx i)

/-- How far a run has come: no commit is visible, or one, or at least two.  `P` holds where the first one becomes
visible. -/
inductive Phase (P : Sys ι S L ε α → ι → Prop) (s : Store S) (p : ι → Prog S L ε α) (σ : Sys ι S L ε α) : Prop where
  | unseen (h : Unseen s p σ)
  | first {σ₁ : Sys ι S L ε α} {x : ι} {act : S → S} {ls : List L} {a : α} (h : Unseen s p σ₁) (hP : P σ₁ x)
      (hx : σ₁.tx x = .checked act ls a) (hdb : σ.db = act s.db) (hc : σ.tx x = .committed a)
      (hy : ∀ y, y ≠ x → (σ₁.tx y).Alone (act s.db) σ₁.seq σ.seq (σ.tx y))
  | second {σ₁ : Sys ι S L ε α} {x y : ι} {act act' : S → S} {ls ls' : List L} {a b : α} {n : ℕ} (h : Unseen s p σ₁)
      (hP : P σ₁ x) (hx : σ₁.tx x = .checked act ls a) (hne : y ≠ x)
      (hy : (σ₁.tx y).Alone (act s.db) σ₁.seq n (.checked act' ls' b))
      (hend : (∀ i, i = x ∨ i = y) → σ.db = act' (act s.db) ∧ σ.tx x = .committed a ∧ σ.tx y = .committed b)

/-- A step makes a commit visible, or it is a step of a transaction alone. -/
theorem step_alone (i : ι) (σ : Sys ι S L ε α) :
    (∃ act ls a, σ.tx i = .checked act ls a ∧ step i σ = { (σ.set i (.committed a)) with db := act σ.db }) ∨
      (step i σ).db = σ.db ∧ σ.seq ≤ (step i σ).seq ∧ (∀ j, j ≠ i → (step i σ).tx j = σ.tx j) ∧
        (σ.Exclusive → (step i σ).Exclusive) ∧
        ∀ (t : Tx S L ε α) n, t.Alone σ.db n σ.seq (σ.tx i) → t.Alone σ.db n (step i σ).seq ((step i σ).tx i) := by
  rcases step_cases i σ with e | ⟨pc, act, ls, cs, e, htx, e'⟩ | ⟨pc, act, ls, cs, a, htx, ⟨e, hp, e'⟩ | ⟨hp, e'⟩⟩ |
    ⟨pc, act, ls, cs, β, r, k, htx, ⟨e, hr, e'⟩ | ⟨o, hr, hb, e'⟩⟩ | ⟨act, ls, a, htx, e'⟩
  · rw [e]
    exact .inr ⟨rfl, le_rfl, fun _ _ => rfl, id, fun _ _ h => h⟩
  · rw [e']
    refine .inr ⟨rfl, le_rfl, fun j hj => set_tx_ne σ _ hj, fun h => h.set fun l hl => ?_, fun t n h => ?_⟩
    · cases hl
    · rw [htx] at h
      rw [set_tx_self]
      exact .throw h
  · rw [e']
    refine .inr ⟨rfl, le_rfl, fun j hj => set_tx_ne σ _ hj, fun h => h.set fun l hl => ?_, fun t n h => ?_⟩
    · cases hl
    · rw [htx] at h
      rw [set_tx_self]
      exact .refuse h hp
  · rw [e']
    refine .inr ⟨rfl, le_rfl, fun j hj => set_tx_ne σ _ hj, fun h => h.set fun l hl => ?_, fun t n h => ?_⟩
    · rwa [htx]
    · rw [htx] at h
      rw [set_tx_self]
      exact .check h hp
  · rw [e']
    refine .inr ⟨rfl, le_rfl, fun j hj => set_tx_ne σ _ hj, fun h => h.set fun l hl => ?_, fun t n h => ?_⟩
    · cases hl
    · rw [htx] at h
      rw [set_tx_self]
      exact .fail h hr
  · rw [e']
    refine .inr ⟨rfl, Nat.le_add_right .., fun j hj => set_tx_ne σ _ hj, fun h => ?_, fun t n h => ?_⟩
    · refine h.acquire (t := .running (pc + 1) (o.act ∘ act) (ls ++ o.locks) (cs ++ o.checks) (k o.res)) ?_ hb
      rw [htx]
      rfl
    · rw [htx] at h
      show t.Alone σ.db n _ ((σ.set i _).tx i)
      rw [set_tx_self]
      exact .stmt h hr
  · exact .inl ⟨act, ls, a, htx, e'⟩

theorem step_of_finished {i : ι} {σ : Sys ι S L ε α} {a : α} (h : σ.tx i = .committed a) : step i σ = σ := by
  unfold step
  rw [h]

theorem Unseen.step {s : Store S} {p : ι → Prog S L ε α} {σ : Sys ι S L ε α} (h : Unseen s p σ) {i : ι}
    (hdb : (step i σ).db = σ.db) (hseq : σ.seq ≤ (step i σ).seq) (htx : ∀ j, j ≠ i → (step i σ).tx j = σ.tx j)
    (hex : σ.Exclusive → (step i σ).Exclusive)
    (hi : ∀ (t : Tx S L ε α) n, t.Alone σ.db n σ.seq (σ.tx i) → t.Alone σ.db n (step i σ).seq ((step i σ).tx i)) :
    Unseen s p (step i σ) := by
  refine ⟨hdb.trans h.db, hex h.exclusive, fun j => ?_⟩
  by_cases hj : j = i
  · subst hj
    rw [← h.db]
    exact hi _ _ (h.db ▸ h.alone j)
  · rw [htx j hj]
    exact .wait (h.alone j) hseq

theorem Phase.step {P : Sys ι S L ε α → ι → Prop} {s : Store S} {p : ι → Prog S L ε α} {σ : Sys ι S L ε α}
    (h : Phase P s p σ) {i : ι} (hi : P σ i) : Phase P s p (step i σ) := by
  cases h with
  | unseen h =>
    rcases step_alone i σ with ⟨act, ls, a, htx, e⟩ | ⟨hdb, hseq, hj, hex, halone⟩
    · refine .first h hi htx ?_ ?_ fun y hy => ?_
      · rw [e, ← h.db]
      · rw [e]
        exact set_tx_self σ i _
      · rw [e]
        show (σ.tx y).Alone _ _ σ.seq ((σ.set i _).tx y)
        rw [set_tx_ne σ _ hy]
        exact .refl
    · exact .unseen (h.step hdb hseq hj hex halone)
  | @first σ₁ x act ls a h hP hx hdb hc hy =>
    by_cases hix : i = x
    · rw [hix, step_of_finished hc]
      exact .first h hP hx hdb hc hy
    · rcases step_alone i σ with ⟨act', ls', b, htx, e⟩ | ⟨hdb', hseq, hj, -, halone⟩
      · refine .second h hP hx hix (htx ▸ hy i hix) fun hall => ?_
        rw [e, ← hdb]
        exact ⟨rfl, (set_tx_ne σ _ fun e => hix e.symm).trans hc, set_tx_self σ i _⟩
      · refine .first h hP hx (hdb'.trans hdb) ((hj x fun e => hix e.symm).trans hc) fun y hyx => ?_
        by_cases hyi : y = i
        · subst hyi
          rw [← hdb]
          exact halone _ _ (hdb ▸ hy y hyx)
        · rw [hj y hyi]
          exact .wait (hy y hyx) hseq
  | @second σ₁ x y act act' ls ls' a b n h hP hx hne hy hend =>
    refine .second h hP hx hne hy fun hall => ?_
    obtain ⟨hdb, hcx, hcy⟩ := hend hall
    rcases hall i with rfl | rfl
    · rw [step_of_finished hcx]
      exact ⟨hdb, hcx, hcy⟩
    · rw [step_of_finished hcy]
      exact ⟨hdb, hcx, hcy⟩

section unseen

variable {s : Store S} {p : ι → Prog S L ε α} {σ : Sys ι S L ε α} {x : ι}

omit [DecidableEq ι] [Fintype ι]

/-- The first transaction to commit does what it does alone. -/
theorem Unseen.commit (h : Unseen s p σ) {act : S → S} {ls : List L} {a : α} (hx : σ.tx x = .checked act ls a) :
    ∃ gaps s', (p x).commit gaps s = .ok (a, s') ∧ s'.db = act s.db ∧ s'.seq ≤ σ.seq := by
  have halone := h.alone x
  rw [hx] at halone
  exact halone.finish_checked

/-- A transaction that has failed before the first commit fails alone. -/
theorem Unseen.fails (h : Unseen s p σ) {e : ε} (hx : σ.tx x = .aborted e) :
    ∃ gaps, (p x).commit gaps s = .error e := by
  have halone := h.alone x
  rw [hx] at halone
  exact halone.finish_aborted

theorem Unseen.not_committed (h : Unseen s p σ) {a : α} : σ.tx x ≠ .committed a := by
  intro hx
  have hc := (h.alone x).not_committed rfl
  rw [hx] at hc
  cases hc

end unseen

omit [DecidableEq ι] [Fintype ι] in
theorem unseen_start (s : Store S) (p : ι → Prog S L ε α) : Unseen s p (start s p) :=
  ⟨rfl, fun _ _ _ _ hl => absurd hl List.not_mem_nil, fun _ => .refl⟩

/-- Every run is in one of the phases. -/
theorem phase_of_along {P : Sys ι S L ε α → ι → Prop} {s : Store S} {p : ι → Prog S L ε α} {is : List ι}
    (ha : Along P (start s p) is) : Phase P s p ((start s p).runSchedule is) :=
  runSchedule_induction (fun _ _ hP hQ => hQ.step hP) ha (.unseen (unseen_start s p))

end Sys
