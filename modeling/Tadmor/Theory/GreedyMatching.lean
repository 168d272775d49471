import Mathlib.Data.List.Basic
import Mathlib.Data.List.Count
import Mathlib.Order.Nat

/-!
# Greedy matching

Items are visited one after another.  Each takes, of the free candidates that fit it, the one it prefers, and nothing
when none fits.  Where an item fits the candidates of its own key, the items of a key and the candidates of the key
are matched until one of them runs out.
-/

variable {α β κ : Type} [DecidableEq β] [DecidableEq κ]

/-- The visit of the items that starts with the candidates `free`, gives each item its `pick` and leaves `left`. -/
inductive Greedy (fits : α → β → Prop) (prefers : α → β → β → Prop) (pick : α → Option β) :
    List β → List α → List β → Prop where
  | nil (free : List β) : Greedy fits prefers pick free [] free
  | take {free left : List β} {items : List α} {a : α} {b : β} (hpick : pick a = some b) (hmem : b ∈ free)
      (hfits : fits a b) (hbest : ∀ c ∈ free, fits a c → prefers a b c)
      (hrest : Greedy fits prefers pick (free.erase b) items left) : Greedy fits prefers pick free (a :: items) left
  | skip {free left : List β} {items : List α} {a : α} (hpick : pick a = none) (hno : ∀ c ∈ free, ¬fits a c)
      (hrest : Greedy fits prefers pick free items left) : Greedy fits prefers pick free (a :: items) left

namespace Greedy

variable {fits : α → β → Prop} {prefers : α → β → β → Prop} {pick : α → Option β} {free left : List β} {items : List α}

theorem subset (h : Greedy fits prefers pick free items left) {b : β} (hb : b ∈ left) : b ∈ free := by
  induction h with
  | nil free => exact hb
  | take hpick hmem hfits hbest hrest ih => exact List.mem_of_mem_erase (ih hb)
  | skip hpick hno hrest ih => exact ih hb

theorem fits_of_pick (h : Greedy fits prefers pick free items left) {a : α} (ha : a ∈ items) {b : β}
    (hb : pick a = some b) : b ∈ free ∧ fits a b := by
  induction h with
  | nil free => cases ha
  | take hpick hmem hfits hbest hrest ih =>
    rcases List.mem_cons.1 ha with rfl | ha
    · obtain rfl := Option.some.inj (hpick.symm.trans hb)
      exact ⟨hmem, hfits⟩
    · exact ⟨List.mem_of_mem_erase (ih ha).1, (ih ha).2⟩
  | skip hpick hno hrest ih =>
    rcases List.mem_cons.1 ha with rfl | ha
    · rw [hpick] at hb
      cases hb
    · exact ih ha

/-- No candidate that is left fits an item that got none. -/
theorem not_fits (h : Greedy fits prefers pick free items left) {a : α} (ha : a ∈ items) (hn : pick a = none) {b : β}
    (hb : b ∈ left) : ¬fits a b := by
  induction h with
  | nil free => cases ha
  | take hpick hmem hfits hbest hrest ih =>
    rcases List.mem_cons.1 ha with rfl | ha
    · rw [hn] at hpick
      cases hpick
    · exact ih ha hb
  | skip hpick hno hrest ih =>
    rcases List.mem_cons.1 ha with rfl | ha
    · exact hno b (hrest.subset hb)
    · exact ih ha hb

theorem congr {pick' : α → Option β} (h : Greedy fits prefers pick free items left)
    (hp : ∀ a ∈ items, pick' a = pick a) : Greedy fits prefers pick' free items left := by
  induction h with
  | nil free => exact .nil free
  | take hpick hmem hfits hbest hrest ih =>
    refine .take ((hp _ (List.mem_cons_self ..)).trans hpick) hmem hfits hbest (ih fun a ha => ?_)
    exact hp a (List.mem_cons_of_mem _ ha)
  | skip hpick hno hrest ih =>
    refine .skip ((hp _ (List.mem_cons_self ..)).trans hpick) hno (ih fun a ha => ?_)
    exact hp a (List.mem_cons_of_mem _ ha)

/-- The number of matches of each key. -/
theorem countP_eq {f : α → κ} {g : β → κ} (hkey : ∀ a b, fits a b ↔ g b = f a)
    (h : Greedy fits prefers pick free items left) (k : κ) :
    (items.countP fun a => f a = k && (pick a).isSome) =
      min (items.countP fun a => f a = k) (free.countP fun b => g b = k) := by
  induction h with
  | nil free => simp
  | @take free left items a b hpick hmem hfits hbest hrest ih =>
    have hfree : (free.countP fun b => g b = k) =
        ((free.erase b).countP fun b => g b = k) + if g b = k then 1 else 0 := by
      rw [(List.perm_cons_erase hmem).countP_eq, List.countP_cons]
      simp
    rw [(hkey a b).1 hfits] at hfree
    rw [List.countP_cons, List.countP_cons, ih, hfree, hpick]
    by_cases hk : f a = k
    · simp only [hk, Option.isSome_some, Bool.and_true, decide_true, if_true]
      omega
    · simp [hk]
  | @skip free left items a hpick hno hrest ih =>
    rw [List.countP_cons, List.countP_cons, ih, hpick]
    by_cases hk : f a = k
    · -- no candidate of the key is free
      have hzero : (free.countP fun b => g b = k) = 0 := by
        rw [List.countP_eq_zero]
        intro c hc hgc
        rw [decide_eq_true_eq] at hgc
        exact hno c hc ((hkey a c).2 (hgc.trans hk.symm))
      rw [hzero]
      simp
    · simp [hk]

end Greedy
