import Mathlib.Data.Nat.Notation
import Mathlib.Logic.Function.Basic
import Mathlib.Logic.Relation

/-!
# Books of entries that are never erased

A book holds entries that are only added.  An owner links the entry that stands for it; what an owner no longer
stands for is taken back by a second entry that reverses the first.  `Sound` books are those in which this has been
done properly, and every run of posts and reversals keeps them sound.
-/

/-- `entry e` is `none` if there is no such entry, and otherwise what the entry reverses, if it is a reversal. -/
structure Book (ω ι : Type) where
  entry : ι → Option (Option ι)
  link : ω → Option ι

namespace Book

variable {ω ι : Type} [DecidableEq ω] [DecidableEq ι] {b b' : Book ω ι} {o : ω} {e r : ι}

/-- A new entry linked by `o`. -/
def post (b : Book ω ι) (o : ω) (e : ι) : Book ω ι :=
  ⟨Function.update b.entry e (some none), Function.update b.link o (some e)⟩

/-- A new entry `r` that reverses `e`, which `o` links no longer. -/
def reverse (b : Book ω ι) (o : ω) (e r : ι) : Book ω ι :=
  ⟨Function.update b.entry r (some (some e)), Function.update b.link o none⟩

inductive Step : Book ω ι → Book ω ι → Prop where
  | post {b : Book ω ι} {o : ω} {e : ι} (hnew : b.entry e = none) (hfree : b.link o = none) : Step b (b.post o e)
  | reverse {b : Book ω ι} {o : ω} {e r : ι} (hlink : b.link o = some e) (hnew : b.entry r = none) :
      Step b (b.reverse o e r)

/-- Zero or more steps. -/
abbrev Steps : Book ω ι → Book ω ι → Prop := Relation.ReflTransGen Step

/-! ### The three kinds of entries -/

/-- An original that nothing reverses and exactly one owner links. -/
def Live (b : Book ω ι) (e : ι) : Prop :=
  b.entry e = some none ∧ (∀ r, b.entry r ≠ some (some e)) ∧ ∃ o, b.link o = some e ∧ ∀ o', b.link o' = some e → o' = o

/-- An original that exactly one entry reverses and no owner links. -/
def Reversed (b : Book ω ι) (e : ι) : Prop :=
  b.entry e = some none ∧ (∀ o, b.link o ≠ some e) ∧
    ∃ r, b.entry r = some (some e) ∧ ∀ r', b.entry r' = some (some e) → r' = r

/-- The reversal of an original, which nothing reverses and no owner links. -/
def Reversal (b : Book ω ι) (e r : ι) : Prop :=
  b.entry r = some (some e) ∧ b.entry e = some none ∧ (∀ o, b.link o ≠ some r) ∧ ∀ r', b.entry r' ≠ some (some r)

structure Sound (b : Book ω ι) : Prop where
  live : ∀ o e, b.link o = some e → b.entry e = some none
  unreversed : ∀ o e r, b.link o = some e → b.entry r ≠ some (some e)
  inj : ∀ o o' e, b.link o = some e → b.link o' = some e → o' = o
  owned : ∀ e, b.entry e = some none → (∃ o, b.link o = some e) ∨ ∃ r, b.entry r = some (some e)
  once : ∀ e r r', b.entry r = some (some e) → b.entry r' = some (some e) → r' = r
  original : ∀ e r, b.entry r = some (some e) → b.entry e = some none

omit [DecidableEq ω] [DecidableEq ι] in
theorem sound_empty : Sound (⟨fun _ => none, fun _ => none⟩ : Book ω ι) := by
  constructor <;> simp

omit [DecidableEq ω] [DecidableEq ι] in
theorem Sound.live_of_link (h : b.Sound) (hl : b.link o = some e) : b.Live e :=
  ⟨h.live o e hl, fun r => h.unreversed o e r hl, o, hl, fun o' => h.inj o o' e hl⟩

omit [DecidableEq ω] [DecidableEq ι] in
theorem Sound.reversed_of_entry (h : b.Sound) (hr : b.entry r = some (some e)) : b.Reversed e :=
  ⟨h.original e r hr, fun o ho => h.unreversed o e r ho hr, r, hr, fun r' => h.once e r r' hr⟩

omit [DecidableEq ω] [DecidableEq ι] in
theorem Sound.reversal_of_entry (h : b.Sound) (hr : b.entry r = some (some e)) : b.Reversal e r := by
  refine ⟨hr, h.original e r hr, fun o ho => ?_, fun r' hr' => ?_⟩
  · have := h.live o r ho
    rw [hr] at this
    cases this
  · have := h.original r r' hr'
    rw [hr] at this
    cases this

omit [DecidableEq ω] [DecidableEq ι] in
/-- Every entry of a sound book is live, reversed or a reversal. -/
theorem Sound.cases (h : b.Sound) (he : (b.entry e).isSome) :
    b.Live e ∨ b.Reversed e ∨ ∃ o, b.Reversal o e := by
  obtain ⟨x, hx⟩ := Option.isSome_iff_exists.1 he
  cases x with
  | none =>
    rcases h.owned e hx with ⟨o, ho⟩ | ⟨r, hr⟩
    · exact .inl (h.live_of_link ho)
    · exact .inr (.inl (h.reversed_of_entry hr))
  | some o => exact .inr (.inr ⟨o, h.reversal_of_entry hx⟩)

/-! ### Steps keep a book sound -/

theorem Sound.post (h : b.Sound) (hnew : b.entry e = none) (hfree : b.link o = none) : (b.post o e).Sound := by
  have hlink : ∀ o' e', (b.post o e).link o' = some e' ↔ (o' = o ∧ e' = e) ∨ (o' ≠ o ∧ b.link o' = some e') := by
    intro o' e'
    by_cases ho : o' = o
    · simp [Book.post, ho, eq_comm]
    · simp [Book.post, ho]
  have hentry : ∀ r x, (b.post o e).entry r = some x ↔ (r = e ∧ x = none) ∨ (r ≠ e ∧ b.entry r = some x) := by
    intro r x
    by_cases hr : r = e
    · simp [Book.post, hr, eq_comm]
    · simp [Book.post, hr]
  have hne : ∀ o' e', b.link o' = some e' → e' ≠ e := by
    rintro o' e' ho rfl
    have := h.live o' e' ho
    rw [hnew] at this
    cases this
  have hrev : ∀ r', b.entry r' ≠ some (some e) := by
    intro r' hr'
    have := h.original e r' hr'
    rw [hnew] at this
    cases this
  constructor
  · intro o' e' ho
    rw [hentry]
    rcases (hlink o' e').1 ho with ⟨-, rfl⟩ | ⟨-, ho⟩
    · exact .inl ⟨rfl, rfl⟩
    · exact .inr ⟨hne o' e' ho, h.live o' e' ho⟩
  · intro o' e' r' ho hr'
    rcases (hentry r' _).1 hr' with ⟨-, hx⟩ | ⟨-, hr₁⟩
    · cases hx
    · rcases (hlink o' e').1 ho with ⟨-, rfl⟩ | ⟨-, ho₁⟩
      · exact hrev r' hr₁
      · exact h.unreversed o' e' r' ho₁ hr₁
  · intro o₁ o₂ e' h₁ h₂
    rcases (hlink o₁ e').1 h₁ with ⟨rfl, rfl⟩ | ⟨-, hl₁⟩
    · rcases (hlink o₂ e').1 h₂ with ⟨rfl, -⟩ | ⟨-, hl₂⟩
      · rfl
      · exact absurd rfl (hne o₂ e' hl₂)
    · rcases (hlink o₂ e').1 h₂ with ⟨-, rfl⟩ | ⟨-, hl₂⟩
      · exact absurd rfl (hne o₁ e' hl₁)
      · exact h.inj o₁ o₂ e' hl₁ hl₂
  · intro e' he'
    rcases (hentry e' _).1 he' with ⟨rfl, -⟩ | ⟨hne', he'⟩
    · exact .inl ⟨o, (hlink o e').2 (.inl ⟨rfl, rfl⟩)⟩
    · rcases h.owned e' he' with ⟨o', ho'⟩ | ⟨r', hr'⟩
      · refine .inl ⟨o', (hlink o' e').2 (.inr ⟨?_, ho'⟩)⟩
        rintro rfl
        rw [hfree] at ho'
        cases ho'
      · refine .inr ⟨r', (hentry r' _).2 (.inr ⟨?_, hr'⟩)⟩
        rintro rfl
        rw [hnew] at hr'
        cases hr'
  · intro e' r₁ r₂ h₁ h₂
    rcases (hentry r₁ _).1 h₁ with ⟨-, hx⟩ | ⟨-, h₁⟩
    · cases hx
    · rcases (hentry r₂ _).1 h₂ with ⟨-, hx⟩ | ⟨-, h₂⟩
      · cases hx
      · exact h.once e' r₁ r₂ h₁ h₂
  · intro e' r' hr'
    rcases (hentry r' _).1 hr' with ⟨-, hx⟩ | ⟨-, hr'⟩
    · cases hx
    · have := h.original e' r' hr'
      refine (hentry e' _).2 (.inr ⟨?_, this⟩)
      rintro rfl
      rw [hnew] at this
      cases this

theorem Sound.reverse (h : b.Sound) (hl : b.link o = some e) (hnew : b.entry r = none) : (b.reverse o e r).Sound := by
  have hlink : ∀ o' e', (b.reverse o e r).link o' = some e' ↔ o' ≠ o ∧ b.link o' = some e' := by
    intro o' e'
    by_cases ho : o' = o
    · simp [Book.reverse, ho]
    · simp [Book.reverse, ho]
  have hentry : ∀ r' x, (b.reverse o e r).entry r' = some x ↔ (r' = r ∧ x = some e) ∨ (r' ≠ r ∧ b.entry r' = some x) := by
    intro r' x
    by_cases hr : r' = r
    · simp [Book.reverse, hr, eq_comm]
    · simp [Book.reverse, hr]
  have hne : ∀ e' x, b.entry e' = some x → e' ≠ r := by
    rintro e' x he' rfl
    rw [hnew] at he'
    cases he'
  have hunrev : ∀ r', b.entry r' ≠ some (some e) := fun r' => h.unreversed o e r' hl
  constructor
  · intro o' e' ho
    have := h.live o' e' ((hlink o' e').1 ho).2
    exact (hentry e' _).2 (.inr ⟨hne e' _ this, this⟩)
  · intro o' e' r' ho hr'
    obtain ⟨hoo, ho₁⟩ := (hlink o' e').1 ho
    rcases (hentry r' _).1 hr' with ⟨-, hx⟩ | ⟨-, hr₁⟩
    · obtain rfl : e' = e := by simpa using hx
      exact hoo (h.inj o o' e' hl ho₁)
    · exact h.unreversed o' e' r' ho₁ hr₁
  · intro o₁ o₂ e' h₁ h₂
    exact h.inj o₁ o₂ e' ((hlink o₁ e').1 h₁).2 ((hlink o₂ e').1 h₂).2
  · intro e' he'
    rcases (hentry e' _).1 he' with ⟨-, hx⟩ | ⟨-, he'⟩
    · cases hx
    · by_cases hee : e' = e
      · exact .inr ⟨r, (hentry r _).2 (.inl ⟨rfl, by rw [hee]⟩)⟩
      · rcases h.owned e' he' with ⟨o', ho'⟩ | ⟨r', hr'⟩
        · refine .inl ⟨o', (hlink o' e').2 ⟨?_, ho'⟩⟩
          rintro rfl
          rw [hl] at ho'
          exact hee (Option.some.inj ho').symm
        · exact .inr ⟨r', (hentry r' _).2 (.inr ⟨hne r' _ hr', hr'⟩)⟩
  · intro e' r₁ r₂ h₁ h₂
    rcases (hentry r₁ _).1 h₁ with ⟨rfl, hx⟩ | ⟨-, hr₁⟩
    · rcases (hentry r₂ _).1 h₂ with ⟨rfl, -⟩ | ⟨-, hr₂⟩
      · rfl
      · obtain rfl : e' = e := by simpa using hx
        exact absurd hr₂ (hunrev r₂)
    · rcases (hentry r₂ _).1 h₂ with ⟨-, hx⟩ | ⟨-, hr₂⟩
      · obtain rfl : e' = e := by simpa using hx
        exact absurd hr₁ (hunrev r₁)
      · exact h.once e' r₁ r₂ hr₁ hr₂
  · intro e' r' hr'
    rcases (hentry r' _).1 hr' with ⟨-, hx⟩ | ⟨-, hr'⟩
    · obtain rfl : e' = e := by simpa using hx
      have := h.live o e' hl
      exact (hentry e' _).2 (.inr ⟨hne e' _ this, this⟩)
    · have := h.original e' r' hr'
      exact (hentry e' _).2 (.inr ⟨hne e' _ this, this⟩)

theorem Sound.steps (h : b.Sound) (hs : Steps b b') : b'.Sound := by
  induction hs with
  | refl => exact h
  | tail _ hstep ih =>
    cases hstep with
    | post hnew hfree => exact ih.post hnew hfree
    | reverse hlink hnew => exact ih.reverse hlink hnew

end Book
