import Mathlib.Data.List.Sort

/-!
# Cutting and thinning sorted lists

A list sorted by insertion is the concatenation of its sorted parts below and above a cut, and what is sorted of a
sublist is a sublist of what is sorted of the list.  Nothing is said of elements that are equal in the order: they stay
in the order in which they came.
-/

namespace List

variable {α : Type} {r : α → α → Prop} [DecidableRel r]

theorem orderedInsert_append_of_le {a : α} {l l' : List α} (h : ∀ b ∈ l', r a b) :
    (l ++ l').orderedInsert r a = l.orderedInsert r a ++ l' := by
  induction l with
  | nil =>
    cases l' with
    | nil => rfl
    | cons b l' => exact orderedInsert_cons_of_le r l' (h b (mem_cons_self ..))
  | cons b l ih =>
    by_cases hab : r a b
    · rw [cons_append, orderedInsert_cons_of_le r _ hab, orderedInsert_cons_of_le r _ hab]
      rfl
    · rw [cons_append, orderedInsert_of_not_le r _ hab, orderedInsert_of_not_le r _ hab, ih]
      rfl

theorem orderedInsert_append_of_not_le {a : α} {l l' : List α} (h : ∀ b ∈ l, ¬r a b) :
    (l ++ l').orderedInsert r a = l ++ l'.orderedInsert r a := by
  induction l with
  | nil => rfl
  | cons b l ih =>
    rw [cons_append, orderedInsert_of_not_le r _ (h b (mem_cons_self ..)),
      ih fun c hc => h c (mem_cons_of_mem _ hc)]
    rfl

/-- The elements that satisfy `p` sort below those that do not. -/
theorem insertionSort_cut {p : α → Bool} {l : List α}
    (h : ∀ a ∈ l, ∀ b ∈ l, p a = true → p b = false → r a b ∧ ¬r b a) :
    l.insertionSort r = (l.filter p).insertionSort r ++ (l.filter fun a => !p a).insertionSort r := by
  induction l with
  | nil => rfl
  | cons a l ih =>
    have ih := ih fun b hb c hc => h b (mem_cons_of_mem _ hb) c (mem_cons_of_mem _ hc)
    rw [insertionSort_cons, ih]
    cases ha : p a with
    | true =>
      have hle : ∀ b ∈ (l.filter fun a => !p a).insertionSort r, r a b := by
        intro b hb
        obtain ⟨hb, hpb⟩ := mem_filter.1 ((mem_insertionSort r).1 hb)
        exact (h a (mem_cons_self ..) b (mem_cons_of_mem _ hb) ha (by simpa using hpb)).1
      rw [orderedInsert_append_of_le hle]
      simp [ha]
    | false =>
      have hnot : ∀ b ∈ (l.filter p).insertionSort r, ¬r a b := by
        intro b hb
        obtain ⟨hb, hpb⟩ := mem_filter.1 ((mem_insertionSort r).1 hb)
        exact (h b (mem_cons_of_mem _ hb) a (mem_cons_self ..) hpb ha).2
      rw [orderedInsert_append_of_not_le hnot]
      simp [ha]

theorem insertionSort_sublist [Std.Total r] [IsTrans α r] {l l' : List α} (h : l.Sublist l') :
    (l.insertionSort r).Sublist (l'.insertionSort r) := by
  induction h with
  | slnil => exact Sublist.refl _
  | cons a _ ih => exact ih.trans (sublist_orderedInsert a _)
  | cons_cons a _ ih => exact ih.orderedInsert_sublist a (pairwise_insertionSort r _)

end List
