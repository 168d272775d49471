import Mathlib.Logic.Function.Basic
import Mathlib.Logic.Relation

/-!
# Parent functions

A partial function that gives each point its parent.  It is a forest if following it from any point ends.  Giving one
point another parent keeps a forest exactly when the new parent is not the point itself and not below it.
-/

variable {κ : Type} {parent : κ → Option κ} {a b p x : κ}

/-- Following `parent` from the point ends. -/
inductive Rooted (parent : κ → Option κ) : κ → Prop where
  | root {a : κ} (h : parent a = none) : Rooted parent a
  | step {a b : κ} (h : parent a = some b) (hb : Rooted parent b) : Rooted parent a

/-- Following `parent` from `a` some number of times, possibly none, leads to `b`. -/
def Above (parent : κ → Option κ) (a b : κ) : Prop := Relation.ReflTransGen (fun x y => parent x = some y) a b

theorem Above.refl (parent : κ → Option κ) (a : κ) : Above parent a a := Relation.ReflTransGen.refl

theorem Above.head (h : parent a = some b) (hb : Above parent b x) : Above parent a x :=
  Relation.ReflTransGen.head h hb

/-- The way up from `a` to another point goes through the parent of `a`. -/
theorem Above.cases_head (h : Above parent a b) : a = b ∨ ∃ c, parent a = some c ∧ Above parent c b :=
  (Relation.ReflTransGen.cases_head h).imp_right fun ⟨c, hc, h⟩ => ⟨c, hc, h⟩

theorem Rooted.exists_root (h : Rooted parent a) : ∃ r, parent r = none ∧ Above parent a r := by
  induction h with
  | root h => exact ⟨_, h, .refl _ _⟩
  | step h _ ih =>
    obtain ⟨r, hr, hab⟩ := ih
    exact ⟨r, hr, hab.head h⟩

/-- No point is above itself. -/
theorem Rooted.not_above (h : Rooted parent a) : ∀ b, parent a = some b → ¬Above parent b a := by
  induction h with
  | root h =>
    intro b hb
    rw [h] at hb
    cases hb
  | @step a c hac _ ih =>
    intro b hb hba
    obtain rfl : c = b := Option.some.inj (hac.symm.trans hb)
    rcases hba.cases_head with rfl | ⟨d, hd, hda⟩
    · exact ih c hac (.refl _ _)
    · -- the cycle through `a` goes through its parent as well
      exact ih d hd (Relation.ReflTransGen.tail hda hac)

variable [DecidableEq κ]

/-- The way up from a point that does not pass `x` is the same once `x` has another parent. -/
theorem Rooted.update_of_not_above (h : Rooted parent a) {o : Option κ} (hx : ¬Above parent a x) :
    Rooted (Function.update parent x o) a := by
  induction h with
  | @root a h =>
    have hax : a ≠ x := fun e => hx (e ▸ .refl _ _)
    exact .root (by rwa [Function.update_of_ne hax])
  | @step a b hab _ ih =>
    have hax : a ≠ x := fun e => hx (e ▸ .refl _ _)
    exact .step (by rwa [Function.update_of_ne hax]) (ih fun hb => hx (hb.head hab))

/-- A new parent that is not `x` and not below `x` keeps a forest. -/
theorem rooted_update (h : ∀ a, Rooted parent a) {o : Option κ} (ho : ∀ p, o = some p → ¬Above parent p x) (a : κ) :
    Rooted (Function.update parent x o) a := by
  have hx : Rooted (Function.update parent x o) x := by
    cases o with
    | none => exact .root (by rw [Function.update_self])
    | some p => exact .step (by rw [Function.update_self]) ((h p).update_of_not_above (ho p rfl))
  induction h a with
  | @root a h =>
    by_cases hax : a = x
    · exact hax ▸ hx
    · exact .root (by rwa [Function.update_of_ne hax])
  | @step a b hab _ ih =>
    by_cases hax : a = x
    · exact hax ▸ hx
    · exact .step (by rwa [Function.update_of_ne hax]) ih

/-- The way up to `x` does not depend on the parent of `x`. -/
theorem Above.update (h : Above parent a x) {o : Option κ} : Above (Function.update parent x o) a x := by
  induction h using Relation.ReflTransGen.head_induction_on with
  | refl => exact .refl _ _
  | @head a b hab _ ih =>
    by_cases hax : a = x
    · exact hax ▸ .refl _ _
    · exact ih.head (by rwa [Function.update_of_ne hax])

/-- A parent below `x` closes a cycle. -/
theorem not_rooted_update (h : Above parent p x) : ¬Rooted (Function.update parent x (some p)) x :=
  fun hx => hx.not_above p (by rw [Function.update_self]) h.update
