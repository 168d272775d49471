import Mathlib.Algebra.BigOperators.Group.List.Basic
import Mathlib.Algebra.BigOperators.Group.Multiset.Basic

/-!
# Sums over lists, counted in two ways

A sum over the rows that one of several owners has is the sum over the owners of what each has, as long as no row has
two owners.
-/

theorem le_foldr_max {ns : List ℕ} : ∀ n ∈ ns, n ≤ ns.foldr max 0 := by
  induction ns with
  | nil => exact fun n hn => absurd hn List.not_mem_nil
  | cons m ns ih =>
    intro n hn
    rw [List.foldr_cons]
    rcases List.mem_cons.1 hn with rfl | hn
    · exact le_max_left ..
    · exact (ih n hn).trans (le_max_right ..)

section counting

variable {α β M : Type} [AddCommMonoid M] {l : List β}

theorem sum_filter_eq_zero {p : β → Bool} {w : β → M} (h : ∀ a ∈ l, p a = false) :
    ((l.filter p).map w).sum = 0 := by
  rw [List.filter_eq_nil_iff.2 fun a ha => by simp [h a ha]]
  rfl

/-- A sum split by two conditions that exclude each other. -/
theorem sum_filter_or {p q r : β → Bool} {w : β → M} (h : ∀ a ∈ l, p a = (q a || r a) ∧ (q a && r a) = false) :
    ((l.filter p).map w).sum = ((l.filter q).map w).sum + ((l.filter r).map w).sum := by
  induction l with
  | nil => simp
  | cons a l ih =>
    have ih := ih fun b hb => h b (List.mem_cons_of_mem _ hb)
    obtain ⟨hp, hn⟩ := h a (List.mem_cons_self ..)
    cases hq : q a with
    | false =>
      cases hr : r a with
      | false => simpa [hp, hq, hr] using ih
      | true => simp [hp, hq, hr, ih, add_left_comm]
    | true =>
      cases hr : r a with
      | false => simp [hp, hq, hr, ih, add_assoc]
      | true => simp [hq, hr] at hn

/-- The sum of what the owners `xs` have is the sum over the rows that one of them has. -/
theorem sum_filter_any {xs : List α} {r : α → β → Bool} {w : β → M}
    (h : xs.Pairwise fun x y => ∀ a ∈ l, (r x a && r y a) = false) :
    ((l.filter fun a => xs.any fun x => r x a).map w).sum = (xs.map fun x => ((l.filter (r x)).map w).sum).sum := by
  induction xs with
  | nil => simp
  | cons x xs ih =>
    obtain ⟨hx, hxs⟩ := List.pairwise_cons.1 h
    rw [List.map_cons, List.sum_cons, ← ih hxs]
    refine sum_filter_or fun a ha => ⟨List.any_cons, ?_⟩
    rw [Bool.and_eq_false_iff, or_iff_not_imp_left]
    intro hxa
    rw [List.any_eq_false]
    intro y hy
    have := hx y hy a ha
    simpa [hxa] using this

theorem sum_map_filter {p : β → Bool} {w : β → M} :
    ((l.filter p).map w).sum = (l.map fun a => if p a then w a else 0).sum := by
  rw [List.sum_map_ite (fun a => p a = true)]
  simp

end counting

theorem sum_map_sub {β M : Type} [AddCommGroup M] (l : List β) (v w : β → M) :
    (l.map fun a => v a - w a).sum = (l.map v).sum - (l.map w).sum := by
  simpa using Multiset.sum_map_sub (m := (l : Multiset β)) (f := v) (g := w)
