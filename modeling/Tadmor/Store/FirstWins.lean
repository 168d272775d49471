import Tadmor.Store.FirstCommit
import Tadmor.Store.Weakest

/-!
# The first commit is the only one

If every other transaction stands where it fails on what the first one commits, the first commit is the only one.  A
program that has only read so far stands before one of its first statements; `FailsFrom` says that it fails from there,
whichever it is.
-/

variable {ι S L ε α β : Type}

/-- Two transactions have the numbers `0` and `1`. -/
theorem neZero_two : @NeZero ℕ Zero.ofOfNat0 2 := ⟨two_ne_zero⟩

/-- Running alone on `d`, the transaction ends with an error that satisfies `E`, if it ends. -/
def Tx.Doomed (E : ε → Prop) (d : S) (t : Tx S L ε α) : Prop :=
  ∀ n m t', t.Alone d n m t' → t'.isChecked = false ∧ ∀ e, t' = .aborted e → E e

namespace Prog

/-- Standing before one of its first `k` statements, after it has only read on `d`, the program fails on `d'`. -/
def FailsFrom (E : ε → Prop) (d d' : S) : ℕ → Prog S L ε α → Prop
  | 0, _ => True
  | 1, p => ∀ gaps n, p.wp E (fun _ _ => False) ⟨gaps, n, d', []⟩
  | k + 2, p => (∀ gaps n, p.wp E (fun _ _ => False) ⟨gaps, n, d', []⟩) ∧
    match p with
    | .stmt r next => ∀ n o, r n d = .ok o → o.act = id ∧ o.checks = [] ∧ FailsFrom E d d' (k + 1) (next o.res)
    | _ => True

variable {E : ε → Prop} {d d' : S} {k : ℕ}

theorem FailsFrom.fails {p : Prog S L ε α} (h : p.FailsFrom E d d' (k + 1)) (gaps : ℕ → ℕ) (n : ℕ) :
    p.wp E (fun _ _ => False) ⟨gaps, n, d', []⟩ := by
  cases k with
  | zero =>
    unfold FailsFrom at h
    exact h gaps n
  | succ k =>
    unfold FailsFrom at h
    exact h.1 gaps n

theorem FailsFrom.next {r : ℕ → S → Except ε (Outcome S L ε β)} {next : β → Prog S L ε α}
    (h : (Prog.stmt r next).FailsFrom E d d' (k + 2)) {n : ℕ} {o : Outcome S L ε β} (ho : r n d = .ok o) :
    o.act = id ∧ o.checks = [] ∧ (next o.res).FailsFrom E d d' (k + 1) := by
  unfold FailsFrom at h
  exact h.2 n o ho

theorem FailsFrom.query_bind {f : S → Except ε β} {next : β → Prog S L ε α}
    (hfails : ∀ gaps n, (Prog.query f >>= next).wp E (fun _ _ => False) ⟨gaps, n, d', []⟩)
    (h : ∀ a, f d = .ok a → (next a).FailsFrom E d d' k) : (Prog.query f >>= next).FailsFrom E d d' (k + 1) := by
  cases k with
  | zero => exact hfails
  | succ k =>
    refine ⟨hfails, fun n o ho => ?_⟩
    have ho : (f d).map (fun a => ({ res := a } : Outcome S L ε β)) = .ok o := ho
    cases hf : f d with
    | error e =>
      rw [hf] at ho
      cases ho
    | ok a =>
      rw [hf] at ho
      cases ho
      exact ⟨rfl, rfl, h a hf⟩

theorem FailsFrom.read_bind {f : S → β} {next : β → Prog S L ε α}
    (hfails : ∀ gaps n, (Prog.read f >>= next).wp E (fun _ _ => False) ⟨gaps, n, d', []⟩)
    (h : (next (f d)).FailsFrom E d d' k) : (Prog.read f >>= next).FailsFrom E d d' (k + 1) :=
  FailsFrom.query_bind (f := fun s => .ok (f s)) hfails fun a ha => by
    cases ha
    exact h

theorem FailsFrom.require_bind {b : Bool} {e : ε} {next : Unit → Prog S L ε α} (he : b = false → E e)
    (h : b = true → (next ()).FailsFrom E d d' k) : (Prog.require b e >>= next).FailsFrom E d d' k := by
  cases b with
  | true => exact h rfl
  | false =>
    cases k with
    | zero => trivial
    | succ k =>
      cases k with
      | zero => exact fun _ _ => he rfl
      | succ k => exact ⟨fun _ _ => he rfl, trivial⟩

/-! ### Programs that do not get through -/

/-- No run on `d` succeeds. -/
def Stuck (d : S) (p : Prog S L ε α) : Prop := ∀ v : Env S ε, v.db = d → p.wp (fun _ => True) (fun _ _ => False) v

namespace Stuck

theorem of_run {p : Prog S L ε α} (h : ∀ v a w, v.db = d → p.run v ≠ .ok (a, w)) : p.Stuck d :=
  fun v hv => wp_iff_run.2 ⟨fun _ _ => trivial, fun a w hrun => h v a w hv hrun⟩

theorem bind {p : Prog S L ε β} {next : β → Prog S L ε α} (h : p.Stuck d) : (p >>= next).Stuck d :=
  fun v hv => wp_bind.2 ((h v hv).mono fun _ _ _ hfalse => hfalse.elim)

theorem query {f : S → Except ε β} {next : β → Prog S L ε α} (h : ∀ a, f d = .ok a → (next a).Stuck d) :
    (Prog.query f >>= next).Stuck d := by
  intro v hv
  rw [wp_query_bind]
  exact ⟨fun _ _ => trivial, fun a ha => h a (hv ▸ ha) v.tick hv⟩

theorem read {f : S → β} {next : β → Prog S L ε α} (h : (next (f d)).Stuck d) : (Prog.read f >>= next).Stuck d := by
  intro v hv
  rw [wp_read_bind, hv]
  exact h v.tick hv

theorem require {b : Bool} {e : ε} {next : Unit → Prog S L ε α} (h : b = true → (next ()).Stuck d) :
    (Prog.require b e >>= next).Stuck d := by
  intro v hv
  rw [wp_require_bind]
  exact ⟨fun _ => trivial, fun hb => h hb v hv⟩

theorem fails {p : Prog S L ε α} (h : p.Stuck d') (gaps : ℕ → ℕ) (n : ℕ) :
    p.wp (fun _ => True) (fun _ _ => False) ⟨gaps, n, d', []⟩ := h _ rfl

/-- Before its first statement. -/
theorem failsFrom {p : Prog S L ε α} (h : p.Stuck d') : p.FailsFrom (fun _ => True) d d' 1 := h.fails

end Stuck

end Prog

namespace Tx.Alone

variable {d : S} {n m : ℕ}

/-- A transaction that has run fewer than `k` statements has only read, and fails on `d'`. -/
theorem failsFrom {E : ε → Prop} {d' : S} {k : ℕ} {p : Prog S L ε α} {t' : Tx S L ε α} (h : (Tx.start p).Alone d n m t')
    (hp : p.FailsFrom E d d' k) : ∀ pc act ls cs q, t' = .running pc act ls cs q → pc < k →
      act = id ∧ cs = [] ∧ q.FailsFrom E d d' (k - pc) := by
  induction h with
  | refl =>
    rintro _ _ _ _ _ ⟨⟩ -
    exact ⟨rfl, rfl, hp⟩
  | wait _ _ ih => exact ih
  | @stmt m pc act ls cs β r next o _ ho ih =>
    rintro _ _ _ _ _ ⟨⟩ hpc
    obtain ⟨rfl, rfl, hq⟩ := ih _ _ _ _ _ rfl (by omega)
    obtain ⟨j, hj⟩ : ∃ j, k - pc = j + 2 := ⟨k - pc - 2, by omega⟩
    rw [hj] at hq
    obtain ⟨hact, hcs, hq⟩ := hq.next ho
    rw [hact, hcs]
    exact ⟨rfl, rfl, by rwa [show k - (pc + 1) = j + 1 by omega]⟩
  | fail => rintro _ _ _ _ _ ⟨⟩
  | throw => rintro _ _ _ _ _ ⟨⟩
  | refuse => rintro _ _ _ _ _ ⟨⟩
  | check => rintro _ _ _ _ _ ⟨⟩

/-- A transaction that stands before one of the first statements is doomed. -/
theorem doomed {E : ε → Prop} {d' : S} {k pc : ℕ} {p q : Prog S L ε α} {act : S → S} {ls : List L}
    {cs : List (S → Except ε Unit)} (h : (Tx.start p).Alone d n m (.running pc act ls cs q))
    (hp : p.FailsFrom E d d' k) (hpc : pc < k) : (Tx.running pc act ls cs q).Doomed E d' := by
  obtain ⟨rfl, rfl, hq⟩ := h.failsFrom hp _ _ _ _ _ rfl hpc
  obtain ⟨j, hj⟩ : ∃ j, k - pc = j + 1 := ⟨k - pc - 1, by omega⟩
  rw [hj] at hq
  refine fun n' m' t' hq' => ⟨?_, fun e he => ?_⟩
  · cases t' with
    | checked act' ls' a =>
      obtain ⟨gaps, s, hfin, -⟩ := hq'.finish_checked
      obtain ⟨w, hrun, -⟩ := Prog.finish_eq_ok.1 hfin
      exact ((Prog.wp_iff_run.1 (hq.fails gaps n')).2 a w hrun).elim
    | _ => rfl
  · rw [he] at hq'
    obtain ⟨gaps, hfin⟩ := hq'.finish_aborted
    obtain ⟨herr, hok⟩ := Prog.wp_iff_run.1 (hq.fails gaps n')
    unfold Prog.finish at hfin
    cases hrun : q.run ⟨gaps, n', id d', []⟩ with
    | error e' =>
      rw [hrun] at hfin
      cases hfin
      exact herr e hrun
    | ok x => exact (hok x.1 x.2 hrun).elim

/-- A transaction keeps its locks until it ends. -/
theorem locks {t t' : Tx S L ε α} (h : t.Alone d n m t') : (∃ e, t' = .aborted e) ∨ ∀ l ∈ t.locks, l ∈ t'.locks := by
  induction h with
  | refl => exact .inr fun _ hl => hl
  | wait _ _ ih => exact ih
  | stmt _ _ ih =>
    rcases ih with ⟨e, he⟩ | ih
    · cases he
    · exact .inr fun l hl => List.mem_append_left _ (ih l hl)
  | check _ _ ih =>
    rcases ih with ⟨e, he⟩ | ih
    · cases he
    · exact .inr ih
  | fail => exact .inl ⟨_, rfl⟩
  | throw => exact .inl ⟨_, rfl⟩
  | refuse => exact .inl ⟨_, rfl⟩

end Tx.Alone

namespace Sys

variable [DecidableEq ι] [Fintype ι] [Locking L]

/-- One transaction has committed, as it does alone, and the others have failed with errors that satisfy `E`. -/
def OneCommits (E : ε → Prop) (s : Store S) (p : ι → Prog S L ε α) (σ : Sys ι S L ε α) : Prop :=
  ∃ x a gaps s', σ.tx x = .committed a ∧ (p x).commit gaps s = .ok (a, s') ∧ s'.db = σ.db ∧
    ∀ y, y ≠ x → ∃ e, σ.tx y = .aborted e ∧ E e

/-- Every transaction has failed, as it fails alone, and nothing has changed. -/
def NoneCommits (s : Store S) (p : ι → Prog S L ε α) (σ : Sys ι S L ε α) : Prop :=
  σ.db = s.db ∧ ∀ i, ∃ e gaps, σ.tx i = .aborted e ∧ (p i).commit gaps s = .error e

omit [DecidableEq ι] [Fintype ι] [Locking L] in
theorem exists_aborted {t : Tx S L ε α} (hf : t.finished = true) (hc : t.isCommitted = false) :
    ∃ e, t = .aborted e := by
  cases t with
  | running => cases hf
  | checked => cases hf
  | committed => cases hc
  | aborted e => exact ⟨e, rfl⟩

/-- If the others are doomed on what the first transaction commits, it is the only one. -/
theorem first_wins {P : Sys ι S L ε α → ι → Prop} {s : Store S} {p : ι → Prog S L ε α} {E : ε → Prop} {is : List ι}
    (ha : Along P (start s p) is) (hfin : ((start s p).runSchedule is).allFinished = true)
    (hfirst : ∀ σ x act ls a, Unseen s p σ → P σ x → σ.tx x = .checked act ls a →
      ∀ y, y ≠ x → (σ.tx y).Doomed E (act s.db)) :
    OneCommits E s p ((start s p).runSchedule is) ∨ NoneCommits s p ((start s p).runSchedule is) := by
  have hfin : ∀ i, (((start s p).runSchedule is).tx i).finished = true := by
    simpa [allFinished] using hfin
  rcases phase_of_along ha with hun | @⟨σ₁, x, act, ls, a, hun, hP, hx, hdb, hc, hy⟩ |
    @⟨σ₁, x, y, act, act', ls, ls', a, b, n, hun, hP, hx, hne, hy, -⟩
  · right
    refine ⟨hun.db, fun i => ?_⟩
    obtain ⟨e, he⟩ := exists_aborted (hfin i) ((hun.alone i).not_committed rfl)
    obtain ⟨gaps, hfail⟩ := hun.fails he
    exact ⟨e, gaps, he, hfail⟩
  · left
    obtain ⟨gaps, s', hcommit, hdb', -⟩ := hun.commit hx
    refine ⟨x, a, gaps, s', hc, hcommit, hdb'.trans hdb.symm, fun y hne => ?_⟩
    have hdoomed := hfirst σ₁ x act ls a hun hP hx y hne _ _ _ (hy y hne)
    obtain ⟨e, he⟩ := exists_aborted (hfin y) ((hy y hne).not_committed ((hun.alone y).not_committed rfl))
    exact ⟨e, he, hdoomed.2 e he⟩
  · have hdoomed := hfirst σ₁ x act ls a hun hP hx y hne _ _ _ hy
    cases hdoomed.1

end Sys
