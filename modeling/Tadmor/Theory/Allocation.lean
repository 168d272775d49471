import Mathlib.Algebra.BigOperators.Group.List.Basic
import Mathlib.Algebra.Order.BigOperators.Group.List
import Mathlib.Algebra.Order.Group.Defs
import Mathlib.Algebra.Order.Group.MinMax
import Mathlib.Data.List.Nodup
import Mathlib.Tactic.Abel

/-!
# Allocating an amount, first come first served

`allocate r xs` gives each item of `xs` in turn as much of `r` as it can take, written as the queries do it: an item
gets the smaller of what it can take and what is left after the items before it.  Items that get nothing are left
out.  What is given is `min r` of the total, no item gets more than it can take, and every share is positive.  The
shares are those of `walk`, which keeps what is left instead.
-/

variable {κ M : Type} [AddCommGroup M] [LinearOrder M]

/-- The shares of the items when those before them could take `prior` in all. -/
def shares (r : M) : M → List (κ × M) → List (κ × M)
  | _, [] => []
  | prior, (k, a) :: xs => (k, min a (max (r - prior) 0)) :: shares r (prior + a) xs

def allocate (r : M) (xs : List (κ × M)) : List (κ × M) := (shares r 0 xs).filter fun x => 0 < x.2

theorem map_fst_shares (r prior : M) (xs : List (κ × M)) : (shares r prior xs).map Prod.fst = xs.map Prod.fst := by
  induction xs generalizing prior with
  | nil => rfl
  | cons x xs ih => simp [shares, ih]

theorem pos_of_mem_allocate {r : M} {xs : List (κ × M)} {x : κ × M} (h : x ∈ allocate r xs) : 0 < x.2 := by
  simpa using (List.mem_filter.1 h).2

theorem sublist_allocate (r : M) (xs : List (κ × M)) :
    ((allocate r xs).map Prod.fst).Sublist (xs.map Prod.fst) := by
  rw [← map_fst_shares r 0 xs]
  exact List.filter_sublist.map _

/-- Every share is of an item, and at most what the item can take. -/
theorem exists_of_mem_shares {r prior : M} {xs : List (κ × M)} {x : κ × M} (h : x ∈ shares r prior xs) :
    ∃ a, (x.1, a) ∈ xs ∧ x.2 ≤ a := by
  induction xs generalizing prior with
  | nil => cases h
  | cons y xs ih =>
    rcases List.mem_cons.1 h with rfl | h
    · exact ⟨y.2, List.mem_cons_self .., min_le_left _ _⟩
    · obtain ⟨a, ha, hx⟩ := ih h
      exact ⟨a, List.mem_cons_of_mem _ ha, hx⟩

theorem exists_of_mem_allocate {r : M} {xs : List (κ × M)} {x : κ × M} (h : x ∈ allocate r xs) :
    ∃ a, (x.1, a) ∈ xs ∧ x.2 ≤ a :=
  exists_of_mem_shares (List.mem_of_mem_filter h)

/-- The share of an item depends on what the items before it can take. -/
theorem mem_shares_iff {r prior : M} {xs : List (κ × M)} {y : κ × M} : y ∈ shares r prior xs ↔
    ∃ before a after, xs = before ++ (y.1, a) :: after ∧
      y.2 = min a (max (r - (prior + (before.map Prod.snd).sum)) 0) := by
  induction xs generalizing prior with
  | nil => simp [shares]
  | cons x xs ih =>
    obtain ⟨k, b⟩ := x
    rw [shares, List.mem_cons, ih]
    constructor
    · rintro (rfl | ⟨before, a, after, rfl, hy⟩)
      · exact ⟨[], b, xs, rfl, by rw [List.map_nil, List.sum_nil, add_zero]⟩
      · refine ⟨(k, b) :: before, a, after, rfl, ?_⟩
        rw [hy, List.map_cons, List.sum_cons, add_assoc]
    · rintro ⟨before, a, after, hxs, hy⟩
      cases before with
      | nil =>
        obtain ⟨hx, -⟩ := List.cons.inj hxs
        obtain ⟨rfl, rfl⟩ := Prod.mk.inj hx
        rw [List.map_nil, List.sum_nil, add_zero] at hy
        exact .inl (Prod.ext rfl hy)
      | cons z before =>
        obtain ⟨rfl, htail⟩ := List.cons.inj hxs
        rw [List.map_cons, List.sum_cons, ← add_assoc] at hy
        exact .inr ⟨before, a, after, htail, hy⟩

private theorem shares_nonneg {r prior : M} {xs : List (κ × M)} (h : ∀ x ∈ xs, 0 ≤ x.2) :
    ∀ x ∈ shares r prior xs, 0 ≤ x.2 := by
  induction xs generalizing prior with
  | nil => intro x hx; cases hx
  | cons y xs ih =>
    intro x hx
    rcases List.mem_cons.1 hx with rfl | hx
    · exact le_min (h y (List.mem_cons_self ..)) (le_max_right _ _)
    · exact ih (fun z hz => h z (List.mem_cons_of_mem _ hz)) x hx

private theorem sum_filter_pos {xs : List (κ × M)} (h : ∀ x ∈ xs, 0 ≤ x.2) :
    ((xs.filter fun x => 0 < x.2).map Prod.snd).sum = (xs.map Prod.snd).sum := by
  induction xs with
  | nil => rfl
  | cons x xs ih =>
    have hx := h x (List.mem_cons_self ..)
    have ih := ih fun z hz => h z (List.mem_cons_of_mem _ hz)
    rw [List.filter_cons]
    split
    · simp [ih]
    · rename_i hp
      have : x.2 = 0 := le_antisymm (not_lt.1 (by simpa using hp)) hx
      simp [ih, this]

/-- An item gets at most what it can take. -/
theorem sum_filter_allocate_le [DecidableEq κ] {r : M} {k : κ} {a : M} {xs : List (κ × M)} (hn : (xs.map Prod.fst).Nodup)
    (hk : (k, a) ∈ xs) (ha : 0 ≤ a) : (((allocate r xs).filter fun y => y.1 = k).map Prod.snd).sum ≤ a := by
  have hnd : (((allocate r xs).filter fun y => y.1 = k).map Prod.fst).Nodup :=
    (hn.sublist (sublist_allocate r xs)).sublist (List.filter_sublist.map _)
  have hle : ∀ y ∈ (allocate r xs).filter fun y => y.1 = k, y.1 = k ∧ y.2 ≤ a := by
    intro y hy
    obtain ⟨hy, hyk⟩ := List.mem_filter.1 hy
    have hyk : y.1 = k := of_decide_eq_true hyk
    obtain ⟨b, hb, hle⟩ := exists_of_mem_allocate hy
    rw [hyk] at hb
    have hba : (k, b) = (k, a) := List.inj_on_of_nodup_map hn hb hk rfl
    obtain rfl : b = a := congrArg Prod.snd hba
    exact ⟨hyk, hle⟩
  generalize ((allocate r xs).filter fun y => y.1 = k) = l at hnd hle
  match l with
  | [] => exact ha
  | [y] =>
    rw [List.map_singleton, List.sum_singleton]
    exact (hle y (List.mem_cons_self ..)).2
  | y :: z :: l =>
    have hy := (hle y (List.mem_cons_self ..)).1
    have hz := (hle z (List.mem_cons_of_mem _ (List.mem_cons_self ..))).1
    rw [List.map_cons, List.map_cons, hy, hz] at hnd
    exact absurd (List.mem_cons_self ..) (List.nodup_cons.1 hnd).1

/-- Each item in turn takes what it can of what is left; items that get nothing are left out. -/
def walk : M → List (κ × M) → List (κ × M)
  | _, [] => []
  | left, (k, a) :: xs =>
    if 0 < min a left then (k, min a left) :: walk (left - min a left) xs else walk left xs

theorem walk_zero {xs : List (κ × M)} : walk 0 xs = [] := by
  induction xs with
  | nil => rfl
  | cons x xs ih =>
    obtain ⟨k, a⟩ := x
    rw [walk, if_neg (not_lt.2 (min_le_right _ _)), ih]

/-- All shares but the last are all that their item can take. -/
theorem mem_of_mem_dropLast_walk {r : M} {xs : List (κ × M)} {x : κ × M} (h : x ∈ (walk r xs).dropLast) : x ∈ xs := by
  induction xs generalizing r with
  | nil => cases h
  | cons y xs ih =>
    obtain ⟨k, a⟩ := y
    rw [walk] at h
    split at h
    · rcases le_total a r with hle | hle
      · rw [min_eq_left hle] at h
        cases hw : walk (r - a) xs with
        | nil =>
          rw [hw] at h
          cases h
        | cons z zs =>
          rw [hw, List.dropLast_cons_of_ne_nil (List.cons_ne_nil _ _), ← hw] at h
          rcases List.mem_cons.1 h with rfl | h
          · exact List.mem_cons_self ..
          · exact List.mem_cons_of_mem _ (ih h)
      · -- nothing is left for the items after this one
        rw [min_eq_right hle, sub_self, walk_zero] at h
        cases h
    · exact List.mem_cons_of_mem _ (ih h)

variable [IsOrderedAddMonoid M]

/-- An item that can take something gets a share if the items before it leave some. -/
theorem mem_allocate_iff {r : M} {xs : List (κ × M)} {y : κ × M} (h : ∀ x ∈ xs, 0 < x.2) : y ∈ allocate r xs ↔
    ∃ before a after, xs = before ++ (y.1, a) :: after ∧ (before.map Prod.snd).sum < r ∧
      y.2 = min a (r - (before.map Prod.snd).sum) := by
  rw [allocate, List.mem_filter, mem_shares_iff, decide_eq_true_eq]
  constructor
  · rintro ⟨⟨before, a, after, hxs, hy⟩, hpos⟩
    rw [zero_add] at hy
    rw [hy, lt_min_iff, lt_max_iff, or_iff_left (lt_irrefl _), sub_pos] at hpos
    refine ⟨before, a, after, hxs, hpos.2, ?_⟩
    rw [hy, max_eq_left (sub_nonneg.2 hpos.2.le)]
  · rintro ⟨before, a, after, hxs, hlt, hy⟩
    refine ⟨⟨before, a, after, hxs, ?_⟩, ?_⟩
    · rw [zero_add, max_eq_left (sub_nonneg.2 hlt.le), hy]
    · rw [hy, lt_min_iff, sub_pos]
      exact ⟨h (y.1, a) (hxs ▸ List.mem_append_right _ (List.mem_cons_self ..)), hlt⟩

private theorem sum_shares {r prior : M} {xs : List (κ × M)} (h : ∀ x ∈ xs, 0 ≤ x.2) :
    ((shares r prior xs).map Prod.snd).sum = min (xs.map Prod.snd).sum (max (r - prior) 0) := by
  induction xs generalizing prior with
  | nil => simp [shares]
  | cons y xs ih =>
    have hy : 0 ≤ y.2 := h y (List.mem_cons_self ..)
    have hxs : ∀ x ∈ xs, 0 ≤ x.2 := fun x hx => h x (List.mem_cons_of_mem _ hx)
    have hsum : 0 ≤ (xs.map Prod.snd).sum := List.sum_nonneg (by simpa using fun b a hb => hxs (a, b) hb)
    simp only [shares, List.map_cons, List.sum_cons, ih hxs]
    rcases le_total y.2 (r - prior) with hle | hle
    · have h₁ : max (r - prior) 0 = r - prior := max_eq_left (hy.trans hle)
      have h₂ : max (r - (prior + y.2)) 0 = r - prior - y.2 := by
        rw [← sub_sub]
        exact max_eq_left (sub_nonneg.2 hle)
      rw [h₁, min_eq_left hle, h₂, ← min_add_add_left]
      congr 1
      abel
    · have h₂ : max (r - (prior + y.2)) 0 = 0 := by
        rw [← sub_sub]
        exact max_eq_right (sub_nonpos.2 hle)
      have h₁ : max (r - prior) 0 ≤ y.2 := max_le hle hy
      rw [h₂, min_eq_right h₁, min_eq_right hsum, add_zero]
      exact (min_eq_right (h₁.trans (le_add_of_nonneg_right hsum))).symm

/-- What is allocated in all. -/
theorem sum_allocate {r : M} (hr : 0 ≤ r) {xs : List (κ × M)} (h : ∀ x ∈ xs, 0 ≤ x.2) :
    ((allocate r xs).map Prod.snd).sum = min r (xs.map Prod.snd).sum := by
  rw [allocate, sum_filter_pos (shares_nonneg h), sum_shares h, sub_zero, max_eq_left hr, min_comm]

/-! ### Prefix sums and walking -/

/-- What an item takes of what the items before it have left. -/
theorem left_sub_min {r prior a : M} (ha : 0 ≤ a) :
    max (r - prior) 0 - min a (max (r - prior) 0) = max (r - (prior + a)) 0 := by
  rcases le_total a (r - prior) with hle | hle
  · have h₁ : max (r - prior) 0 = r - prior := max_eq_left (ha.trans hle)
    rw [h₁, min_eq_left hle, ← sub_sub, max_eq_left (sub_nonneg.2 hle)]
  · have h₁ : max (r - prior) 0 ≤ a := max_le hle ha
    rw [min_eq_right h₁, sub_self, ← sub_sub, max_eq_right (sub_nonpos.2 hle)]

theorem filter_shares_eq_walk {r prior : M} {xs : List (κ × M)} (h : ∀ x ∈ xs, 0 ≤ x.2) :
    ((shares r prior xs).filter fun x => 0 < x.2) = walk (max (r - prior) 0) xs := by
  induction xs generalizing prior with
  | nil => rfl
  | cons x xs ih =>
    obtain ⟨k, a⟩ := x
    have ha : 0 ≤ a := h (k, a) (List.mem_cons_self ..)
    have ih : ((shares r (prior + a) xs).filter fun x => 0 < x.2) = walk (max (r - (prior + a)) 0) xs :=
      ih fun y hy => h y (List.mem_cons_of_mem _ hy)
    rw [← left_sub_min ha] at ih
    rw [shares, walk]
    by_cases hpos : 0 < min a (max (r - prior) 0)
    · rw [if_pos hpos, List.filter_cons_of_pos (by simpa using hpos), ih]
    · have hzero : min a (max (r - prior) 0) = 0 := le_antisymm (not_lt.1 hpos) (le_min ha (le_max_right _ _))
      rw [if_neg hpos, List.filter_cons_of_neg (by simpa using hpos), ih, hzero, sub_zero]

/-- Every share computed from the sum of the items before it, or one after another: it is the same. -/
theorem allocate_eq_walk {r : M} (hr : 0 ≤ r) {xs : List (κ × M)} (h : ∀ x ∈ xs, 0 ≤ x.2) :
    allocate r xs = walk r xs := by
  rw [allocate, filter_shares_eq_walk h, sub_zero, max_eq_left hr]

/-- With enough for all, every item gets all that it can take. -/
theorem walk_of_sum_le {r : M} {xs : List (κ × M)} (h : ∀ x ∈ xs, 0 < x.2) (hr : (xs.map Prod.snd).sum ≤ r) :
    walk r xs = xs := by
  induction xs generalizing r with
  | nil => rfl
  | cons x xs ih =>
    obtain ⟨k, a⟩ := x
    have ha : 0 < a := h (k, a) (List.mem_cons_self ..)
    have hxs : ∀ y ∈ xs, 0 < y.2 := fun y hy => h y (List.mem_cons_of_mem _ hy)
    have hsum : 0 ≤ (xs.map Prod.snd).sum := List.sum_nonneg (by simpa using fun b a hb => (hxs (a, b) hb).le)
    rw [List.map_cons, List.sum_cons] at hr
    have hle : a ≤ r := (le_add_of_nonneg_right hsum).trans hr
    rw [walk, min_eq_left hle, if_pos ha, ih hxs (le_sub_iff_add_le'.2 hr)]
