import Mathlib.Algebra.BigOperators.Ring.Finset
import Mathlib.Algebra.Order.BigOperators.Group.Finset
import Mathlib.Algebra.Order.Ring.Abs
import Mathlib.Tactic.Ring
import Mathlib.Tactic.Abel
import Mathlib.Tactic.Linarith
import Tadmor.Theory.Counting

/-!
# Netting

Debts and credits are linked many to many, each link with an amount, and every debt and every credit is linked in full.
Whatever rates the two ends have, the values of the debts, of the credits and of the rate differences on the links
cancel; values that are only known up to an error cancel up to the sum of the errors.
-/

variable {α ι κ γ R : Type}

/-! ### Sums over the links, by their ends -/

/-- A sum over links weighted by the rates of their ends is the sum over the ends of what is linked to each. -/
theorem sum_ends [CommRing R] [DecidableEq γ] {D : Finset ι} {key : ι → γ} (hkey : Set.InjOn key D) {links : List α}
    {f : α → γ} (hf : ∀ a ∈ links, ∃ d ∈ D, key d = f a) {amount : α → R} {rate : ι → R} {rateOf : α → R}
    (hrate : ∀ a ∈ links, ∀ d ∈ D, key d = f a → rateOf a = rate d) :
    (links.map fun a => amount a * rateOf a).sum =
      ∑ d ∈ D, ((links.filter fun a => f a = key d).map amount).sum * rate d := by
  induction links with
  | nil => simp
  | cons a links ih =>
    obtain ⟨d₀, hd₀, h₀⟩ := hf a (List.mem_cons_self ..)
    have ih := ih (fun b hb => hf b (List.mem_cons_of_mem _ hb)) fun b hb => hrate b (List.mem_cons_of_mem _ hb)
    -- only `d₀` is an end of `a`
    have hone : ∑ d ∈ D, (if f a = key d then amount a else 0) * rate d = amount a * rateOf a := by
      rw [Finset.sum_eq_single_of_mem d₀ hd₀, if_pos h₀.symm, hrate a (List.mem_cons_self ..) d₀ hd₀ h₀]
      intro d hd hne
      rw [if_neg fun h => hne (hkey hd hd₀ (h.symm.trans h₀.symm)), zero_mul]
    rw [List.map_cons, List.sum_cons, ih, ← hone, ← Finset.sum_add_distrib]
    apply Finset.sum_congr rfl
    intro d _
    rw [List.filter_cons]
    by_cases h : f a = key d
    · simp only [h, decide_true, if_true, List.map_cons, List.sum_cons]
      ring
    · simp only [h, decide_false, if_false, Bool.false_eq_true]
      ring

/-- Debts `D` and credits `C` at their rates, linked in full. -/
structure Netted [CommRing R] [DecidableEq γ] [DecidableEq κ] {δ : Type} (D : Finset ι) (C : Finset δ) (links : List α)
    (amount : α → R) (debtEnd : α → γ) (creditEnd : α → κ) (debtKey : ι → γ) (creditKey : δ → κ)
    (debt rate : ι → R) (credit rate' : δ → R) (debtRate creditRate : α → R) : Prop where
  debtInj : Set.InjOn debtKey D
  creditInj : Set.InjOn creditKey C
  debtEnds : ∀ a ∈ links, ∃ d ∈ D, debtKey d = debtEnd a
  creditEnds : ∀ a ∈ links, ∃ c ∈ C, creditKey c = creditEnd a
  debtRates : ∀ a ∈ links, ∀ d ∈ D, debtKey d = debtEnd a → debtRate a = rate d
  creditRates : ∀ a ∈ links, ∀ c ∈ C, creditKey c = creditEnd a → creditRate a = rate' c
  debts : ∀ d ∈ D, ((links.filter fun a => debtEnd a = debtKey d).map amount).sum = debt d
  credits : ∀ c ∈ C, ((links.filter fun a => creditEnd a = creditKey c).map amount).sum = credit c

section netted

variable [DecidableEq γ] [DecidableEq κ] {δ : Type} {D : Finset ι} {C : Finset δ} {links : List α}
  {debtEnd : α → γ} {creditEnd : α → κ} {debtKey : ι → γ} {creditKey : δ → κ}

theorem Netted.sum_eq_zero [CommRing R] {amount debtRate creditRate : α → R} {debt rate : ι → R} {credit rate' : δ → R}
    (h : Netted D C links amount debtEnd creditEnd debtKey creditKey debt rate credit rate' debtRate creditRate) :
    ∑ d ∈ D, debt d * rate d + ∑ c ∈ C, -(credit c * rate' c) +
      (links.map fun a => amount a * (creditRate a - debtRate a)).sum = 0 := by
  have hdebts : (links.map fun a => amount a * debtRate a).sum = ∑ d ∈ D, debt d * rate d := by
    rw [sum_ends h.debtInj h.debtEnds h.debtRates]
    exact Finset.sum_congr rfl fun d hd => by rw [h.debts d hd]
  have hcredits : (links.map fun a => amount a * creditRate a).sum = ∑ c ∈ C, credit c * rate' c := by
    rw [sum_ends h.creditInj h.creditEnds h.creditRates]
    exact Finset.sum_congr rfl fun c hc => by rw [h.credits c hc]
  have hlinks : (links.map fun a => amount a * (creditRate a - debtRate a)).sum =
      (links.map fun a => amount a * creditRate a).sum - (links.map fun a => amount a * debtRate a).sum := by
    rw [← sum_map_sub]
    simp only [mul_sub]
  rw [hlinks, hdebts, hcredits, Finset.sum_neg_distrib]
  ring

/-! ### Values with errors -/

variable [CommRing R] [LinearOrder R] [IsStrictOrderedRing R]

theorem abs_sum_sub_le {s : Finset ι} {x y e : ι → R} (h : ∀ i ∈ s, |x i - y i| ≤ e i) :
    |∑ i ∈ s, x i - ∑ i ∈ s, y i| ≤ ∑ i ∈ s, e i := by
  rw [← Finset.sum_sub_distrib]
  exact (Finset.abs_sum_le_sum_abs _ _).trans (Finset.sum_le_sum h)

theorem abs_sum_map_sub_le {l : List α} {x y : α → R} {e : R} (h : ∀ a ∈ l, |x a - y a| ≤ e) :
    |(l.map x).sum - (l.map y).sum| ≤ l.length * e := by
  induction l with
  | nil => simp
  | cons a l ih =>
    have ih := ih fun b hb => h b (List.mem_cons_of_mem _ hb)
    rw [List.map_cons, List.sum_cons, List.map_cons, List.sum_cons, List.length_cons]
    calc |x a + (l.map x).sum - (y a + (l.map y).sum)|
        = |x a - y a + ((l.map x).sum - (l.map y).sum)| := by congr 1; abel
      _ ≤ |x a - y a| + |(l.map x).sum - (l.map y).sum| := abs_add_le _ _
      _ ≤ e + l.length * e := add_le_add (h a (List.mem_cons_self ..)) ih
      _ = ((l.length + 1 : ℕ) : R) * e := by push_cast; ring

/-- What is left of values that are known up to an error. -/
theorem Netted.abs_sum_le {amount debtRate creditRate : α → R} {debt rate : ι → R} {credit rate' : δ → R}
    (h : Netted D C links amount debtEnd creditEnd debtKey creditKey debt rate credit rate' debtRate creditRate)
    {x e : ι → R} {y g : δ → R} {z : α → R} {k : R} (hx : ∀ d ∈ D, |x d - debt d * rate d| ≤ e d)
    (hy : ∀ c ∈ C, |y c - -(credit c * rate' c)| ≤ g c)
    (hz : ∀ a ∈ links, |z a - amount a * (creditRate a - debtRate a)| ≤ k) :
    |∑ d ∈ D, x d + ∑ c ∈ C, y c + (links.map z).sum| ≤ ∑ d ∈ D, e d + ∑ c ∈ C, g c + links.length * k := by
  have hzero := h.sum_eq_zero
  have hx := abs_sum_sub_le hx
  have hy := abs_sum_sub_le hy
  have hz := abs_sum_map_sub_le hz
  rw [abs_le] at hx hy hz ⊢
  constructor
  · linarith
  · linarith

end netted
