import Tadmor.Store.ReadCommitted

/-!
# Runs in which no commit lands inside a critical section

A critical section of a transaction starts after a number of its statements (`crit`).  If no transaction commits
while another one is inside its own, then the committed states form a `History`: each is obtained from the one
before by running, alone and from there on, the part of one program that lies in the critical section.  Only what
that program had read before may come from older committed states (`Prefix`).  Every aborted transaction likewise
failed on one of the committed states.
-/

variable {ι S L ε α : Type} [DecidableEq ι] [Fintype ι] [Locking L]

/-- `p` has run `pc` statements, each on some state in `D` and with identity numbers from `lo` on, and goes on as
`q`. -/
inductive Prog.Prefix (D : S → Prop) (lo : ℕ) (p : Prog S L ε α) :
    ℕ → List L → (S → S) → List (S → Except ε Unit) → Prog S L ε α → Prop where
  | start : Prefix D lo p 0 [] id [] p
  | stmt {pc : ℕ} {ls : List L} {act : S → S} {checks : List (S → Except ε Unit)} {β : Type}
      {r : ℕ → S → Except ε (Outcome S L ε β)} {k : β → Prog S L ε α} {d : S} {n : ℕ} {o : Outcome S L ε β}
      (h : Prefix D lo p pc ls act checks (.stmt r k)) (hd : D d) (hn : lo ≤ n) (ho : r n (act d) = .ok o) :
      Prefix D lo p (pc + 1) (ls ++ o.locks) (o.act ∘ act) (checks ++ o.checks) (k o.res)

omit [Locking L] in
theorem Prog.Prefix.mono {D D' : S → Prop} {lo pc : ℕ} {p q : Prog S L ε α} {ls : List L} {act : S → S}
    {checks : List (S → Except ε Unit)} (h : p.Prefix D lo pc ls act checks q) (hD : ∀ d, D d → D' d) :
    p.Prefix D' lo pc ls act checks q := by
  induction h with
  | start => exact .start
  | stmt _ hd hn ho ih => exact .stmt ih (hD _ hd) hn ho

omit [Locking L] in
/-- Before its first statement a program is where it started. -/
theorem Prog.Prefix.zero {D : S → Prop} {lo : ℕ} {p q : Prog S L ε α} {ls : List L} {act : S → S}
    {checks : List (S → Except ε Unit)} (h : p.Prefix D lo 0 ls act checks q) :
    ls = [] ∧ act = id ∧ checks = [] ∧ q = p := by
  cases h
  exact ⟨rfl, rfl, rfl, rfl⟩

section prefix_bind

variable {β : Type} {D : S → Prop} {lo pc : ℕ} {ls : List L} {act : S → S} {checks : List (S → Except ε Unit)}
  {q : Prog S L ε α}

omit [Locking L]

/-- A program that begins with a read stands before it, or after it on some state in `D`. -/
theorem Prog.Prefix.query_bind {f : S → Except ε β} {k : β → Prog S L ε α}
    (h : (Prog.query f >>= k).Prefix D lo pc ls act checks q) :
    (pc = 0 ∧ ls = [] ∧ act = id ∧ checks = [] ∧ q = Prog.query f >>= k) ∨
      ∃ pc' d a, pc = pc' + 1 ∧ D d ∧ f d = .ok a ∧ (k a).Prefix D lo pc' ls act checks q := by
  induction h with
  | start => exact .inl ⟨rfl, rfl, rfl, rfl, rfl⟩
  | @stmt pc ls act checks β r k' d n o _ hd hn ho ih =>
    right
    rcases ih with ⟨rfl, rfl, rfl, rfl, hq⟩ | ⟨pc', d', a, rfl, hd', ha, hpre⟩
    · change Prog.stmt r k' = Prog.stmt _ _ at hq
      cases hq
      cases hf : f d with
      | error e => simp [hf, Except.map] at ho
      | ok a =>
        simp only [id, hf, Except.map, Except.ok.injEq] at ho
        cases ho
        exact ⟨0, d, a, rfl, hd, hf, .start⟩
    · exact ⟨pc' + 1, d', a, rfl, hd', ha, .stmt hpre hd hn ho⟩

theorem Prog.Prefix.read_bind {f : S → β} {k : β → Prog S L ε α}
    (h : (Prog.read f >>= k).Prefix D lo pc ls act checks q) :
    (pc = 0 ∧ ls = [] ∧ act = id ∧ checks = [] ∧ q = Prog.read f >>= k) ∨
      ∃ pc' d, pc = pc' + 1 ∧ D d ∧ (k (f d)).Prefix D lo pc' ls act checks q := by
  rcases Prog.Prefix.query_bind (f := fun s => .ok (f s)) h with h | ⟨pc', d, a, hpc, hd, ha, hpre⟩
  · exact .inl h
  · cases ha
    exact .inr ⟨pc', d, hpc, hd, hpre⟩

/-- A program that begins with a statement stands before it, or after it on some state in `D`; what follows sees the
change of the statement. -/
theorem Prog.Prefix.exec_bind {r : ℕ → S → Except ε (Outcome S L ε β)} {k : β → Prog S L ε α}
    (h : (Prog.exec r >>= k).Prefix D lo pc ls act checks q) :
    (pc = 0 ∧ ls = [] ∧ act = id ∧ checks = [] ∧ q = Prog.exec r >>= k) ∨
      ∃ pc' d n o ls' act' checks', pc = pc' + 1 ∧ D d ∧ lo ≤ n ∧ r n d = .ok o ∧ ls = o.locks ++ ls' ∧
        act = act' ∘ o.act ∧ checks = o.checks ++ checks' ∧
        (k o.res).Prefix (fun d' => ∃ d, D d ∧ d' = o.act d) lo pc' ls' act' checks' q := by
  induction h with
  | start => exact .inl ⟨rfl, rfl, rfl, rfl, rfl⟩
  | @stmt pc ls act checks γ r' k' d n o _ hd hn ho ih =>
    right
    rcases ih with ⟨rfl, rfl, rfl, rfl, hq⟩ | ⟨pc', d', n', o', ls', act', checks', rfl, hd', hn', ho', rfl, rfl, rfl, hpre⟩
    · change Prog.stmt r' k' = Prog.stmt _ _ at hq
      cases hq
      exact ⟨0, d, n, o, [], id, [], rfl, hd, hn, ho, (List.append_nil _).symm, rfl, (List.append_nil _).symm, .start⟩
    · exact ⟨pc' + 1, d', n', o', ls' ++ o.locks, o.act ∘ act', checks' ++ o.checks, rfl, hd', hn', ho',
        List.append_assoc .., rfl, List.append_assoc .., .stmt hpre ⟨d, hd, rfl⟩ hn ho⟩

theorem Prog.Prefix.pure {a : α} (h : (Prog.pure a : Prog S L ε α).Prefix D lo pc ls act checks q) :
    pc = 0 ∧ act = id ∧ checks = [] ∧ q = .pure a := by
  induction h with
  | start => exact ⟨rfl, rfl, rfl, rfl⟩
  | stmt _ _ _ _ ih => cases ih.2.2.2

theorem Prog.Prefix.throw {e : ε} (h : (Prog.throw e : Prog S L ε α).Prefix D lo pc ls act checks q) :
    pc = 0 ∧ act = id ∧ q = .throw e := by
  induction h with
  | start => exact ⟨rfl, rfl, rfl⟩
  | stmt _ _ _ _ ih => cases ih.2.2

theorem Prog.Prefix.require_bind {b : Bool} {e : ε} {k : Unit → Prog S L ε α}
    (h : (Prog.require b e >>= k).Prefix D lo pc ls act checks q) :
    (b = false ∧ pc = 0 ∧ act = id ∧ q = .throw e) ∨ b = true ∧ (k ()).Prefix D lo pc ls act checks q := by
  cases b with
  | false => exact .inl ⟨rfl, h.throw⟩
  | true => exact .inr ⟨rfl, h⟩

end prefix_bind

/-- The next statement of `p`, run on `d` after `pc` statements and with the locks `ls`, enters the critical section;
a program that has ended enters it when its checks pass. -/
def Prog.Enters (crit : ℕ → List L → Bool) (pc : ℕ) (ls : List L) (d : S) : Prog S L ε α → Prop
  | .pure _ => True
  | .throw _ => False
  | .stmt r _ => ∃ n o, r n d = .ok o ∧ crit (pc + 1) (ls ++ o.locks) = true

/-- `p` stands before its critical section, which is `q`, and enters it on `d`. -/
def Prog.Section (D : S → Prop) (lo : ℕ) (crit : ℕ → List L → Bool) (p : Prog S L ε α) (d : S) (act : S → S)
    (checks : List (S → Except ε Unit)) (q : Prog S L ε α) : Prop :=
  ∃ pc ls, p.Prefix D lo pc ls act checks q ∧ crit pc ls = false ∧ q.Enters crit pc ls (act d)

/-- From `s`, the critical section of `p` runs and commits `s'`. -/
def Prog.Link (D : S → Prop) (lo : ℕ) (crit : ℕ → List L → Bool) (p : Prog S L ε α) (s s' : Store S) : Prop :=
  ∃ act checks q, p.Section D lo crit s.db act checks q ∧ ∃ gaps n a v, s.seq ≤ n ∧
    q.run ⟨gaps, n, act s.db, checks⟩ = .ok (a, v) ∧ passAll v.checks v.db = .ok () ∧
    s'.db = v.db ∧ v.seq ≤ s'.seq

/-- `p` fails on one of the states in `D`, before its critical section or in it. -/
def Prog.Fails (D : S → Prop) (lo : ℕ) (crit : ℕ → List L → Bool) (p : Prog S L ε α) (e : ε) : Prop :=
  ∃ pc ls act checks q, p.Prefix D lo pc ls act checks q ∧ crit pc ls = false ∧ ∃ d, D d ∧ ∃ gaps n, lo ≤ n ∧
    (q.run ⟨gaps, n, act d, checks⟩ = .error e ∨
      ∃ a v, q.run ⟨gaps, n, act d, checks⟩ = .ok (a, v) ∧ passAll v.checks v.db = .error e)

/-- The committed states so far (`D`), in the order of commits, and the transactions that committed. -/
inductive History (crit : ι → ℕ → List L → Bool) (p : ι → Prog S L ε α) (s₀ : Store S) :
    List ι → (S → Prop) → Store S → Prop where
  | start : History crit p s₀ [] (· = s₀.db) s₀
  | commit {js : List ι} {D : S → Prop} {s s' : Store S} {i : ι} (h : History crit p s₀ js D s) (hi : i ∉ js)
      (hl : (p i).Link D s₀.seq (crit i) s s') : History crit p s₀ (i :: js) (fun d => D d ∨ d = s'.db) s'

section history

variable {crit : ι → ℕ → List L → Bool} {p : ι → Prog S L ε α} {s₀ s : Store S} {js : List ι} {D : S → Prop}

omit [DecidableEq ι] [Fintype ι] [Locking L] in
theorem History.mem (h : History crit p s₀ js D s) : D s.db := by
  cases h with
  | start => rfl
  | commit => exact .inr rfl

omit [DecidableEq ι] [Fintype ι] [Locking L] in
theorem History.nodup (h : History crit p s₀ js D s) : js.Nodup := by
  induction h with
  | start => exact List.nodup_nil
  | commit _ hi _ ih => exact List.nodup_cons.2 ⟨hi, ih⟩

end history

namespace Sys

/-- Transaction `j` does not make its changes visible while another one is inside its critical section. -/
def NoCommitInside (crit : ι → ℕ → List L → Bool) (σ : Sys ι S L ε α) (j : ι) : Prop :=
  (σ.tx j).isChecked = true → ∀ i, i ≠ j → (σ.tx i).inside (crit i) = false

instance (crit : ι → ℕ → List L → Bool) (σ : Sys ι S L ε α) (j : ι) : Decidable (NoCommitInside crit σ j) := by
  unfold NoCommitInside
  infer_instance

/-- Prepends one gap. -/
private def consGap (g : ℕ) (gaps : ℕ → ℕ) : ℕ → ℕ
  | 0 => g
  | i + 1 => gaps i

variable (crit : ι → ℕ → List L → Bool) (p : ι → Prog S L ε α) (s₀ : Store S)

/-- What is known of transaction `i` after the commits `js`, with `s` the last committed state. -/
private def TxGood (js : List ι) (D : S → Prop) (s : Store S) (seq : ℕ) (i : ι) : Tx S L ε α → Prop
  | .running pc act ls checks prog =>
    i ∉ js ∧ (crit i pc ls = false ∧ (p i).Prefix D s₀.seq pc ls act checks prog ∨
      crit i pc ls = true ∧ ∃ act₀ checks₀ q₀, (p i).Section D s₀.seq (crit i) s.db act₀ checks₀ q₀ ∧
        ∃ n₀ n₁, s.seq ≤ n₀ ∧ n₁ ≤ seq ∧ ∃ ext : (ℕ → ℕ) → ℕ → ℕ, ∀ gaps,
          q₀.run ⟨ext gaps, n₀, act₀ s.db, checks₀⟩ = prog.run ⟨gaps, n₁, act s.db, checks⟩)
  | .checked act _ a =>
    i ∉ js ∧ ∃ act₀ checks₀ q₀, (p i).Section D s₀.seq (crit i) s.db act₀ checks₀ q₀ ∧
      ∃ gaps n v, s.seq ≤ n ∧ q₀.run ⟨gaps, n, act₀ s.db, checks₀⟩ = .ok (a, v) ∧
        passAll v.checks v.db = .ok () ∧ v.db = act s.db ∧ v.seq ≤ seq
  | .committed _ => i ∈ js
  | .aborted e => i ∉ js ∧ (p i).Fails D s₀.seq (crit i) e

private def Good (σ : Sys ι S L ε α) : Prop :=
  ∃ js D s, History crit p s₀ js D s ∧ s.db = σ.db ∧ s₀.seq ≤ s.seq ∧ s.seq ≤ σ.seq ∧
    ∀ i, TxGood crit p s₀ js D s σ.seq i (σ.tx i)

variable {crit p s₀}

omit [DecidableEq ι] [Fintype ι] [Locking L] in
private theorem TxGood.later {js : List ι} {D : S → Prop} {s : Store S} {seq seq' : ℕ} {i : ι}
    {t : Tx S L ε α} (h : TxGood crit p s₀ js D s seq i t) (hs : seq ≤ seq') :
    TxGood crit p s₀ js D s seq' i t := by
  cases t with
  | running pc act locks checks prog =>
    obtain ⟨hi, h | ⟨hc, act₀, checks₀, q₀, hq, n₀, n₁, h₀, h₁, ext, hr⟩⟩ := h
    · exact ⟨hi, .inl h⟩
    · exact ⟨hi, .inr ⟨hc, act₀, checks₀, q₀, hq, n₀, n₁, h₀, h₁.trans hs, ext, hr⟩⟩
  | checked act locks a =>
    obtain ⟨hi, act₀, checks₀, q₀, hq, gaps, n, v, hn, hr, hp, hv, hle⟩ := h
    exact ⟨hi, act₀, checks₀, q₀, hq, gaps, n, v, hn, hr, hp, hv, hle.trans hs⟩
  | committed a => exact h
  | aborted e => exact h

omit [Fintype ι] [Locking L] in
/-- A step of `i` that leaves the committed state alone keeps what is known, if it does for `i`. -/
private theorem Good.set {σ : Sys ι S L ε α} {i : ι} {js : List ι} {D : S → Prop} {s : Store S}
    (hh : History crit p s₀ js D s) (hdb : s.db = σ.db) (hlo : s₀.seq ≤ s.seq) (hs : s.seq ≤ σ.seq)
    (ht : ∀ i, TxGood crit p s₀ js D s σ.seq i (σ.tx i)) {t : Tx S L ε α} {n : ℕ} (hn : σ.seq ≤ n)
    (hi : TxGood crit p s₀ js D s n i t) : Good crit p s₀ { (σ.set i t) with seq := n } := by
  refine ⟨js, D, s, hh, hdb, hlo, hs.trans hn, fun j => ?_⟩
  by_cases hj : j = i
  · subst hj
    simpa using hi
  · show TxGood crit p s₀ js D s n j ((σ.set i t).tx j)
    rw [set_tx_ne σ t hj]
    exact (ht j).later hn

/-- Once inside, a transaction stays inside. -/
def Stays (crit : ι → ℕ → List L → Bool) : Prop :=
  ∀ i pc ls ls', crit i pc ls = true → crit i (pc + 1) (ls ++ ls') = true

private theorem good_step (hcrit : Stays crit) {σ : Sys ι S L ε α} {i : ι}
    (hc : NoCommitInside crit σ i) (h : Good crit p s₀ σ) : Good crit p s₀ (step i σ) := by
  obtain ⟨js, D, s, hh, hdb, hlo, hs, ht⟩ := h
  have hgood : ∀ (t : Tx S L ε α) (n : ℕ), σ.seq ≤ n → TxGood crit p s₀ js D s n i t →
      Good crit p s₀ { (σ.set i t) with seq := n } := fun t n hn hi => Good.set hh hdb hlo hs ht hn hi
  have hti := ht i
  rcases step_cases i σ with e | ⟨pc, act, locks, checks, e, ha, e'⟩ |
      ⟨pc, act, locks, checks, a, ha, ⟨e, hp, e'⟩ | ⟨hp, e'⟩⟩ |
      ⟨pc, act, locks, checks, β, r, k, ha, ⟨e, hr, e'⟩ | ⟨o, hr, -, e'⟩⟩ | ⟨act, locks, a, ha, e'⟩
  · rw [e]
    exact ⟨js, D, s, hh, hdb, hlo, hs, ht⟩
  · -- the program raises an error
    rw [e']
    rw [ha] at hti
    refine hgood (.aborted e) _ le_rfl ⟨hti.1, ?_⟩
    obtain ⟨-, ⟨hc0, hpre⟩ | ⟨-, act₀, checks₀, q₀, ⟨pc₀, ls₀, hq, hpc, -⟩, n₀, n₁, h₀, -, ext, hrun⟩⟩ := hti
    · exact ⟨pc, locks, act, checks, _, hpre, hc0, s.db, hh.mem, fun _ => 0, s₀.seq, le_rfl, .inl rfl⟩
    · exact ⟨pc₀, ls₀, act₀, checks₀, q₀, hq, hpc, s.db, hh.mem, _, n₀, hlo.trans h₀, .inl (hrun fun _ => 0)⟩
  · -- a deferred check fails
    rw [e']
    rw [ha] at hti
    rw [← hdb] at hp
    refine hgood (.aborted e) _ le_rfl ⟨hti.1, ?_⟩
    obtain ⟨-, ⟨hc0, hpre⟩ | ⟨-, act₀, checks₀, q₀, ⟨pc₀, ls₀, hq, hpc, -⟩, n₀, n₁, h₀, -, ext, hrun⟩⟩ := hti
    · exact ⟨pc, locks, act, checks, _, hpre, hc0, s.db, hh.mem, fun _ => 0, s₀.seq, le_rfl, .inr ⟨a, _, rfl, hp⟩⟩
    · exact ⟨pc₀, ls₀, act₀, checks₀, q₀, hq, hpc, s.db, hh.mem, _, n₀, hlo.trans h₀,
        .inr ⟨a, _, hrun fun _ => 0, hp⟩⟩
  · -- the deferred checks pass
    rw [e']
    rw [ha] at hti
    rw [← hdb] at hp
    refine hgood (.checked act locks a) _ le_rfl ⟨hti.1, ?_⟩
    obtain ⟨-, ⟨hc0, hpre⟩ | ⟨-, act₀, checks₀, q₀, hsec, n₀, n₁, h₀, h₁, ext, hrun⟩⟩ := hti
    · exact ⟨act, checks, .pure a, ⟨pc, locks, hpre, hc0, trivial⟩, fun _ => 0, s.seq, _, le_rfl, rfl, hp, rfl, hs⟩
    · exact ⟨act₀, checks₀, q₀, hsec, _, n₀, _, h₀, hrun fun _ => 0, hp, rfl, h₁⟩
  · -- a statement fails
    rw [e']
    rw [ha] at hti
    rw [← hdb] at hr
    refine hgood (.aborted e) _ le_rfl ⟨hti.1, ?_⟩
    obtain ⟨-, ⟨hc0, hpre⟩ | ⟨-, act₀, checks₀, q₀, ⟨pc₀, ls₀, hq, hpc, -⟩, n₀, n₁, h₀, h₁, ext, hrun⟩⟩ := hti
    · refine ⟨pc, locks, act, checks, _, hpre, hc0, s.db, hh.mem, fun _ => 0, σ.seq, hlo.trans hs, .inl ?_⟩
      simp only [Prog.run, Nat.add_zero, hr]
    · refine ⟨pc₀, ls₀, act₀, checks₀, q₀, hq, hpc, s.db, hh.mem, ext (consGap (σ.seq - n₁) fun _ => 0), n₀,
        hlo.trans h₀, .inl ?_⟩
      rw [hrun]
      simp only [Prog.run, consGap, Nat.add_sub_cancel' h₁, hr]
  · -- a statement runs
    rw [e']
    rw [ha] at hti
    rw [← hdb] at hr
    refine hgood _ _ (Nat.le_add_right ..) ⟨hti.1, ?_⟩
    obtain ⟨-, ⟨hc0, hpre⟩ | ⟨hc1, act₀, checks₀, q₀, hsec, n₀, n₁, h₀, h₁, ext, hrun⟩⟩ := hti
    · cases hc' : crit i (pc + 1) (locks ++ o.locks) with
      | false => exact .inl ⟨rfl, .stmt hpre hh.mem (hlo.trans hs) hr⟩
      | true =>
        refine .inr ⟨rfl, act, checks, _, ⟨pc, locks, hpre, hc0, σ.seq, o, hr, hc'⟩, σ.seq, σ.seq + o.used, hs, le_rfl,
          consGap 0, fun gaps => ?_⟩
        simp only [Prog.run, consGap, Nat.add_zero, hr]
        rfl
    · refine .inr ⟨?_, act₀, checks₀, q₀, hsec, n₀, σ.seq + o.used, h₀, le_rfl,
        fun gaps => ext (consGap (σ.seq - n₁) gaps), fun gaps => ?_⟩
      · exact hcrit i pc locks o.locks hc1
      · rw [hrun]
        simp only [Prog.run, consGap, Nat.add_sub_cancel' h₁, hr, Env.after, Function.comp_apply]
  · -- the commit becomes visible; by `hc` no other transaction is inside
    rw [e']
    rw [ha] at hti
    obtain ⟨hi, act₀, checks₀, q₀, hsec, gaps, n, v, hn, hrun, hpass, hv, hle⟩ := hti
    have hout := hc (by simp [ha, Tx.isChecked])
    refine ⟨i :: js, _, ⟨act σ.db, σ.seq⟩,
      .commit hh hi ⟨act₀, checks₀, q₀, hsec, gaps, n, a, v, hn, hrun, hpass, ?_, hle⟩, rfl,
      hlo.trans hs, le_rfl, fun j => ?_⟩
    · rw [hv, hdb]
    · by_cases hj : j = i
      · subst hj
        simp [TxGood]
      · show TxGood crit p s₀ (i :: js) _ ⟨act σ.db, σ.seq⟩ σ.seq j ((σ.set i (.committed a)).tx j)
        rw [set_tx_ne σ _ hj]
        have htj := ht j
        have hin := hout j hj
        rcases htx : σ.tx j with ⟨pc, act', locks', checks', prog⟩ | ⟨act', locks', b⟩ | b | e <;>
          rw [htx] at htj hin
        · obtain ⟨hj', ⟨hc0, hpre⟩ | ⟨hc1, -⟩⟩ := htj
          · exact ⟨by simp [hj, hj'], .inl ⟨hc0, hpre.mono fun d hd => .inl hd⟩⟩
          · simp [Tx.inside, hc1] at hin
        · simp [Tx.inside] at hin
        · exact List.mem_cons_of_mem _ htj
        · obtain ⟨hj', pc, ls, act', checks', q, hpre, hc0, d, hd, rest⟩ := htj
          exact ⟨by simp [hj, hj'], pc, ls, act', checks', q, hpre.mono fun d hd => .inl hd, hc0, d, .inl hd, rest⟩

/-- If no commit lands inside a critical section, the committed states form a history of critical sections. -/
theorem history_of_along (hcrit : Stays crit) (h0 : ∀ i, crit i 0 [] = false) {is : List ι}
    (ha : Along (NoCommitInside crit) (start s₀ p) is) :
    ∃ js D s, History crit p s₀ js D s ∧ s.db = ((start s₀ p).runSchedule is).db ∧
      s.seq ≤ ((start s₀ p).runSchedule is).seq ∧
      (∀ i, (((start s₀ p).runSchedule is).tx i).isCommitted = true ↔ i ∈ js) ∧
      ∀ i e, ((start s₀ p).runSchedule is).tx i = .aborted e → (p i).Fails D s₀.seq (crit i) e := by
  have hstart : Good crit p s₀ (start s₀ p) :=
    ⟨[], _, s₀, .start, rfl, le_rfl, le_rfl, fun i => ⟨List.not_mem_nil, .inl ⟨h0 i, .start⟩⟩⟩
  obtain ⟨js, D, s, hh, hdb, -, hs, ht⟩ :=
    runSchedule_induction (P := NoCommitInside crit) (fun σ i hP hQ => good_step hcrit hP hQ) ha hstart
  refine ⟨js, D, s, hh, hdb, hs, fun i => ?_, fun i e he => ?_⟩
  · have := ht i
    rcases htx : ((start s₀ p).runSchedule is).tx i with ⟨pc, act, locks, checks, prog⟩ | ⟨act, locks, a⟩ | a | e <;>
      rw [htx] at this
    · exact iff_of_false Bool.false_ne_true this.1
    · exact iff_of_false Bool.false_ne_true this.1
    · exact iff_of_true rfl this
    · exact iff_of_false Bool.false_ne_true this.1
  · have := ht i
    rw [he] at this
    exact this.2

end Sys
