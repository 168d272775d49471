import Tadmor.Store.ReadCommitted

/-!
# What a transaction has read and others change

Locks aside, a transaction is safe from the commits of the others as long as none of them changes a part of the state
that it has read and still relies on.  `Reading` says from where on a transaction relies on a part: from one of its
statements on, or from its deferred checks on.  In a run in which no commit changes what another transaction relies
on, an assertion about the state and the transaction survives if the statements of the transaction keep it, and
commits that leave alone what it relies on.
-/

variable {ι κ S L ε α : Type}

/-- From where on a transaction relies on a part of the state. -/
inductive Reading where
  | never
  /-- After so many statements. -/
  | after (n : ℕ)
  /-- Once the deferred checks have passed. -/
  | deferred

/-- The transaction relies on the part. -/
def Reading.relies : Reading → Tx S L ε α → Bool
  | .never, _ => false
  | .after n, t => t.inside fun pc _ => decide (n ≤ pc)
  | .deferred, t => t.isChecked

theorem Reading.relies_of_le {m n : ℕ} (h : m ≤ n) {t : Tx S L ε α} (ht : (Reading.after n).relies t = true) :
    (Reading.after m).relies t = true := by
  cases t with
  | running pc act ls cs q => exact decide_eq_true (h.trans (of_decide_eq_true ht))
  | checked act ls a => rfl
  | committed a => cases ht
  | aborted e => cases ht

/-- The next statement of the transaction is the one that reads. -/
def Reading.next : Reading → Tx S L ε α → Bool
  | .after n, .running pc .. => decide (pc + 1 = n)
  | _, _ => false

namespace Sys

/-- Transaction `j` does not make its changes visible while another one relies on a part that it changes. -/
def Undisturbed (reads : ι → κ → Reading) (changes : ι → List κ) (σ : Sys ι S L ε α) (j : ι) : Prop :=
  (σ.tx j).isChecked = true → ∀ i, i ≠ j → ∀ k ∈ changes j, (reads i k).relies (σ.tx i) = false

instance [DecidableEq ι] [Fintype ι] (reads : ι → κ → Reading) (changes : ι → List κ) (σ : Sys ι S L ε α) (j : ι) :
    Decidable (Undisturbed reads changes σ j) := by
  unfold Undisturbed
  infer_instance

/-- `G` is kept by commits and the assertions `loc` by statements, checks and commits; `pre` may be assumed of the
state a transaction steps from, and `lo` is where the identity numbers of the run start. -/
structure Relying (reads : ι → κ → Reading) (changes : ι → List κ) (pre : ι → S → Tx S L ε α → Prop) (lo : ℕ)
    (G : S → Prop) (loc : ι → S → Tx S L ε α → Prop) : Prop where
  stmt : ∀ {i d pc act ls cs β n o} {r : ℕ → S → Except ε (Outcome S L ε β)} {k : β → Prog S L ε α}, G d →
    loc i d (.running pc act ls cs (.stmt r k)) → pre i d (.running pc act ls cs (.stmt r k)) → lo ≤ n →
    r n (act d) = .ok o → loc i d (.running (pc + 1) (o.act ∘ act) (ls ++ o.locks) (cs ++ o.checks) (k o.res))
  check : ∀ {i d pc act ls cs a}, G d → loc i d (.running pc act ls cs (.pure a)) → passAll cs (act d) = .ok () →
    loc i d (.checked act ls a)
  commit : ∀ {i d act ls a}, G d → loc i d (.checked act ls a) → G (act d)
  others : ∀ {i j d t act ls a}, G d → loc i d t → loc j d (.checked act ls a) →
    (∀ k ∈ changes j, (reads i k).relies t = false) → loc i (act d) t

variable {reads : ι → κ → Reading} {changes : ι → List κ} {pre : ι → S → Tx S L ε α → Prop} {lo : ℕ} {G : S → Prop}
  {loc : ι → S → Tx S L ε α → Prop}

/-- The invariant of a run; nothing is asserted of finished transactions. -/
structure Relied (lo : ℕ) (G : S → Prop) (loc : ι → S → Tx S L ε α → Prop) (σ : Sys ι S L ε α) : Prop where
  db : G σ.db
  seq : lo ≤ σ.seq
  holds : ∀ i, (σ.tx i).finished = false → loc i σ.db (σ.tx i)

section step

variable [DecidableEq ι] {σ : Sys ι S L ε α}

/-- A step of `i` that commits nothing. -/
theorem Relied.set (h : Relied lo G loc σ) {i : ι} {t : Tx S L ε α} {n : ℕ} (hn : σ.seq ≤ n)
    (ht : t.finished = false → loc i σ.db t) : Relied lo G loc { (σ.set i t) with seq := n } := by
  refine ⟨h.db, h.seq.trans hn, fun j hj => ?_⟩
  by_cases hij : j = i
  · subst hij
    have htx : (σ.set j t).tx j = t := set_tx_self σ j t
    change ((σ.set j t).tx j).finished = false at hj
    show loc j σ.db ((σ.set j t).tx j)
    rw [htx] at hj ⊢
    exact ht hj
  · have htx : (σ.set i t).tx j = σ.tx j := set_tx_ne σ t hij
    change ((σ.set i t).tx j).finished = false at hj
    show loc j σ.db ((σ.set i t).tx j)
    rw [htx] at hj ⊢
    exact h.holds j hj

variable [Fintype ι] [Locking L]

theorem Relied.step (ho : Relying reads changes pre lo G loc) {i : ι} (hu : Undisturbed reads changes σ i)
    (hp : pre i σ.db (σ.tx i)) (h : Relied lo G loc σ) : Relied lo G loc (step i σ) := by
  have hi := h.holds i
  have hset : ∀ {t : Tx S L ε α}, (t.finished = false → loc i σ.db t) → Relied lo G loc (σ.set i t) := fun ht =>
    h.set le_rfl ht
  have habort : ∀ e, Relied lo G loc (σ.set i (.aborted e)) := fun e => hset fun hf => by cases hf
  rcases step_cases i σ with e | ⟨pc, act, ls, cs, x, htx, e⟩ | ⟨pc, act, ls, cs, a, htx, hcase⟩ |
    ⟨pc, act, ls, cs, β, r, k, htx, hcase⟩ | ⟨act, ls, a, htx, e⟩
  · rwa [e]
  · rw [e]
    exact habort x
  · rw [htx] at hi
    rcases hcase with ⟨x, -, e⟩ | ⟨hpass, e⟩
    · rw [e]
      exact habort x
    · rw [e]
      exact hset fun _ => ho.check h.db (hi rfl) hpass
  · rw [htx] at hi hp
    rcases hcase with ⟨x, -, e⟩ | ⟨o, hr, -, e⟩
    · rw [e]
      exact habort x
    · rw [e]
      exact h.set (Nat.le_add_right ..) fun _ => ho.stmt h.db (hi rfl) hp h.seq hr
  · -- the commit of `i` leaves alone what the others rely on
    rw [htx] at hi
    rw [e]
    refine ⟨ho.commit h.db (hi rfl), h.seq, fun j hj => ?_⟩
    by_cases hij : j = i
    · subst hij
      change ((σ.set j (.committed a)).tx j).finished = false at hj
      rw [set_tx_self] at hj
      cases hj
    · change ((σ.set i (.committed a)).tx j).finished = false at hj
      show loc j (act σ.db) ((σ.set i (.committed a)).tx j)
      rw [set_tx_ne σ _ hij] at hj ⊢
      exact ho.others h.db (h.holds j hj) (hi rfl) (hu (by rw [htx]; rfl) j hij)

/-- In a run in which no commit changes what another transaction relies on, the invariant holds of every committed
state. -/
theorem Relied.run (ho : Relying reads changes pre lo G loc) {is : List ι}
    (ha : Along (fun σ i => Undisturbed reads changes σ i ∧ pre i σ.db (σ.tx i)) σ is) (h : Relied lo G loc σ) :
    Relied lo G loc (σ.runSchedule is) :=
  runSchedule_induction (P := fun σ i => Undisturbed reads changes σ i ∧ pre i σ.db (σ.tx i))
    (fun _ _ hP hQ => hQ.step ho hP.1 hP.2) ha h

end step

theorem Relied.start {s : Store S} {p : ι → Prog S L ε α} (hG : G s.db) (h : ∀ i, loc i s.db (Tx.start (p i))) :
    Relied s.seq G loc (Sys.start s p) :=
  ⟨hG, le_rfl, fun i _ => h i⟩

end Sys

/-! ### Transactions that read, then write once -/

/-- No more statements follow. -/
def Prog.isEnd : Prog S L ε α → Bool
  | .stmt .. => false
  | _ => true

section writes

variable (G : S → Prop) (P F : ℕ → S → Prop) (W : S → (S → S) → Prop) (n : ℕ)

/-- After `n` reads the program writes once.  `F` is what it knows of the state after so many statements, `W` what it
knows of the state and its change; `P` may be assumed of the state a statement runs on. -/
def Prog.WritesOnce (pc : ℕ) : Prog S L ε α → Prop
  | .stmt r k => ∀ m d o, G d → P pc d → F pc d → r m d = .ok o →
    if pc < n then o.act = id ∧ ((∃ e, k o.res = .throw e) ∨ F (pc + 1) d) ∧ (k o.res).WritesOnce (pc + 1)
    else W d o.act ∧ (k o.res).isEnd = true
  | _ => True

/-- The assertion about such a transaction. -/
def Tx.WritesOnce (d : S) : Tx S L ε α → Prop
  | .running pc act _ _ q =>
    (pc ≤ n ∧ act = id ∧ ((∃ e, q = .throw e) ∨ F pc d) ∧ q.WritesOnce G P F W n pc) ∨
      pc = n + 1 ∧ W d act ∧ q.isEnd = true
  | .checked act _ _ => act = id ∨ W d act
  | _ => True

variable {G P F W n} {d d' : S} {pc : ℕ} {act : S → S} {ls : List L} {cs : List (S → Except ε Unit)}

theorem Tx.WritesOnce.start {p : Prog S L ε α} (hF : F 0 d) (h : p.WritesOnce G P F W n 0) :
    (Tx.start p).WritesOnce G P F W n d :=
  .inl ⟨Nat.zero_le n, rfl, .inr hF, h⟩

theorem Tx.WritesOnce.stmt {β : Type} {r : ℕ → S → Except ε (Outcome S L ε β)} {k : β → Prog S L ε α} {m : ℕ}
    {o : Outcome S L ε β} (h : (Tx.running pc act ls cs (.stmt r k)).WritesOnce G P F W n d) (hG : G d)
    (hP : P pc d) (ho : r m (act d) = .ok o) :
    (Tx.running (pc + 1) (o.act ∘ act) (ls ++ o.locks) (cs ++ o.checks) (k o.res)).WritesOnce G P F W n d := by
  rcases h with ⟨hpc, rfl, hF, hq⟩ | ⟨-, -, hend⟩
  · have hF : F pc d := by
      rcases hF with ⟨e, he⟩ | hF
      · cases he
      · exact hF
    have hq := hq m d o hG hP hF ho
    by_cases hn : pc < n
    · rw [if_pos hn] at hq
      exact .inl ⟨hn, hq.1, hq.2⟩
    · rw [if_neg hn] at hq
      exact .inr ⟨by omega, hq⟩
  · cases hend

theorem Tx.WritesOnce.check {a : α} (h : (Tx.running pc act ls cs (.pure a)).WritesOnce G P F W n d) :
    (Tx.checked act ls a : Tx S L ε α).WritesOnce G P F W n d := by
  rcases h with ⟨-, hact, -⟩ | ⟨-, hW, -⟩
  · exact .inl hact
  · exact .inr hW

/-- Another commit keeps the assertion if it keeps what is known. -/
theorem Tx.WritesOnce.mono {t : Tx S L ε α} (h : t.WritesOnce G P F W n d)
    (hF : ∀ m, (Reading.after m).relies t = true → F m d → F m d')
    (hW : (Reading.after (n + 1)).relies t = true → ∀ act, W d act → W d' act) : t.WritesOnce G P F W n d' := by
  cases t with
  | running pc act ls cs q =>
    rcases h with ⟨hpc, hact, hf, hq⟩ | ⟨hpc, hw, hend⟩
    · exact .inl ⟨hpc, hact, hf.imp_right (hF pc (decide_eq_true le_rfl)), hq⟩
    · exact .inr ⟨hpc, hW (decide_eq_true hpc.ge) act hw, hend⟩
  | checked act ls a => exact h.imp_right (hW rfl act)
  | committed a => trivial
  | aborted e => trivial

theorem Prog.WritesOnce.query {β : Type} {f : S → Except ε β} {k : β → Prog S L ε α} (hpc : pc < n)
    (h : ∀ d b, G d → P pc d → F pc d → f d = .ok b →
      ((∃ e, k b = .throw e) ∨ F (pc + 1) d) ∧ (k b).WritesOnce G P F W n (pc + 1)) :
    (Prog.query f >>= k).WritesOnce G P F W n pc := by
  intro m d o hG hP hF ho
  rw [if_pos hpc]
  cases hf : f d with
  | error e => simp [hf, Except.map] at ho
  | ok b =>
    simp only [hf, Except.map, Except.ok.injEq] at ho
    cases ho
    exact ⟨rfl, h d b hG hP hF hf⟩

theorem Prog.WritesOnce.read {β : Type} {f : S → β} {k : β → Prog S L ε α} (hpc : pc < n)
    (h : ∀ d, G d → P pc d → F pc d →
      ((∃ e, k (f d) = .throw e) ∨ F (pc + 1) d) ∧ (k (f d)).WritesOnce G P F W n (pc + 1)) :
    (Prog.read f >>= k).WritesOnce G P F W n pc := by
  refine Prog.WritesOnce.query (f := fun s => .ok (f s)) hpc fun d b hG hP hF hb => ?_
  cases hb
  exact h d hG hP hF

theorem Prog.WritesOnce.write {β : Type} {r : ℕ → S → Except ε (Outcome S L ε β)} {k : β → Prog S L ε α}
    (hend : ∀ b, (k b).isEnd = true) (h : ∀ m d o, G d → P n d → F n d → r m d = .ok o → W d o.act) :
    (Prog.exec r >>= k).WritesOnce G P F W n n := by
  intro m d o hG hP hF ho
  rw [if_neg (by omega)]
  exact ⟨h m d o hG hP hF ho, hend _⟩

end writes
