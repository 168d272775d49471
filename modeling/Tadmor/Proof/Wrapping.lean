import Mathlib.Algebra.Order.Ring.Rat
import Mathlib.Data.List.Chain
import Tadmor.Model.Printing

/-!
# Wrapped and truncated texts

The lines of a wrapped text have its words, in their order, and each is full before the next begins.  A text that is too
wide keeps as many runes as fit beside the ellipsis.
-/

open Banking (Text isSpace)
open PDF (Font width)

namespace Printing

/-! ### Words -/

/-- A word has no space in it. -/
def IsWord (w : Text) : Prop := w ≠ [] ∧ ∀ c ∈ w, isSpace c = false

theorem fields_nil : fields [] = [] := rfl

theorem fields_word {w : Text} (h : IsWord w) : fields w = [w] := by
  rw [fields, List.splitOnP_eq_singleton h.2, List.filter_singleton, decide_eq_true h.1, cond_true]

theorem fields_append_space (s t : Text) : fields (s ++ ' ' :: t) = fields s ++ fields t := by
  rw [fields, List.splitOnP_append_cons _ _ (by decide), List.filter_append]
  rfl

theorem isSpace_of_mem_splitOnP {s w : Text} (h : w ∈ s.splitOnP isSpace) : ∀ c ∈ w, isSpace c = false := by
  induction s generalizing w with
  | nil =>
    obtain rfl := List.mem_singleton.1 h
    exact fun c hc => absurd hc List.not_mem_nil
  | cons a s ih =>
    rw [List.splitOnP_cons_eq_if_modifyHead] at h
    by_cases ha : isSpace a = true
    · rw [if_pos ha] at h
      rcases List.mem_cons.1 h with rfl | h
      · exact fun c hc => absurd hc List.not_mem_nil
      · exact ih h
    · rw [if_neg ha] at h
      obtain ⟨first, rest, hsplit⟩ := List.exists_cons_of_ne_nil (List.splitOnP_ne_nil isSpace s)
      rw [hsplit, List.modifyHead_cons] at h
      rcases List.mem_cons.1 h with rfl | h
      · have hfirst := ih (w := first) (by rw [hsplit]; exact List.mem_cons_self ..)
        rintro c hc
        rcases List.mem_cons.1 hc with rfl | hc
        · exact Bool.not_eq_true _ ▸ ha
        · exact hfirst c hc
      · exact ih (by rw [hsplit]; exact List.mem_cons_of_mem _ h)

theorem isWord_of_mem_fields {s w : Text} (h : w ∈ fields s) : IsWord w := by
  rw [fields, List.mem_filter] at h
  exact ⟨of_decide_eq_true h.2, isSpace_of_mem_splitOnP h.1⟩

/-! ### Wrapping -/

section
variable (f : Font) (size max : ℚ)

/-- The line has no room for the first word of the next one. -/
def Full (line next : Text) : Prop := max < width f size (line ++ ' ' :: (fields next).headD [])

/-- The lines so far have these words and are filled one after the other; the last one is still open. -/
structure Wrapped (words : List Text) (st : List Text × Text) : Prop where
  words : st.1.flatMap fields ++ fields st.2 = words
  fits : st.2 ≠ [] → ∀ l ∈ st.1 ++ [st.2], width f size l ≤ max ∨ fields l = [l]
  full : (st.1 ++ [st.2]).IsChain (Full f size max)
  begun : st.2 ≠ [] → fields st.2 ≠ []
  first : st.2 = [] → st.1 = []

variable {f size max}

theorem wrapped_nil : Wrapped f size max [] ([], []) :=
  ⟨rfl, fun h => absurd rfl h, List.isChain_singleton _, fun h => absurd rfl h, fun _ => rfl⟩

/-- The next word begins the first line, begins another line or goes on the open one. -/
theorem Wrapped.word {words : List Text} {st : List Text × Text} (h : Wrapped f size max words st) {w : Text}
    (hw : IsWord w) : Wrapped f size max (words ++ [w]) (wrapWord f size max st w) := by
  obtain ⟨lines, line⟩ := st
  obtain ⟨hwords, hfits, hfull, hbegun, hfirst⟩ := h
  simp only at hwords hfits hfull hbegun hfirst
  have hfields := fields_word hw
  by_cases hline : line = []
  · -- the first word
    obtain rfl := hfirst hline
    have hstep : wrapWord f size max ([], line) w = ([], w) := by
      rw [wrapWord]
      simp [hline]
    rw [hstep]
    subst hline
    refine ⟨?_, ?_, List.isChain_singleton _, fun _ => by simp [hfields], fun _ => rfl⟩
    · simp only [List.flatMap_nil, List.nil_append, fields_nil] at hwords ⊢
      rw [← hwords, hfields, List.nil_append]
    · rintro - l hl
      obtain rfl := List.mem_singleton.1 hl
      exact .inr hfields
  · have hfits := hfits hline
    by_cases hwide : width f size (line ++ ' ' :: w) > max
    · -- the line is full
      have hstep : wrapWord f size max (lines, line) w = (lines ++ [line], w) := by
        rw [wrapWord]
        simp only [ne_eq, hline, not_false_eq_true, if_true, hwide, and_self]
      rw [hstep]
      refine ⟨?_, ?_, ?_, fun _ => by simp [hfields], fun hnil => absurd hnil hw.1⟩
      · rw [List.flatMap_append, List.flatMap_singleton, hwords, hfields]
      · rintro - l hl
        rcases List.mem_append.1 hl with hl | hl
        · exact hfits l hl
        · obtain rfl := List.mem_singleton.1 hl
          exact .inr hfields
      · rw [List.isChain_append]
        refine ⟨hfull, List.isChain_singleton _, ?_⟩
        rintro a ha b hb
        rw [List.getLast?_concat, Option.mem_some_iff] at ha
        rw [List.head?_cons, Option.mem_some_iff] at hb
        subst ha hb
        rw [Full, hfields]
        exact hwide
    · -- the line takes the word, and still begins with the same one
      have hstep : wrapWord f size max (lines, line) w = (lines, line ++ ' ' :: w) := by
        rw [wrapWord]
        simp only [ne_eq, hline, not_false_eq_true, if_true, hwide, false_and, if_false]
      rw [hstep]
      have hlong : fields (line ++ ' ' :: w) = fields line ++ [w] := by rw [fields_append_space, hfields]
      refine ⟨?_, ?_, ?_, fun _ => by simp [hlong], fun hnil => by simp at hnil⟩
      · rw [hlong, ← List.append_assoc, hwords]
      · rintro - l hl
        rcases List.mem_append.1 hl with hl | hl
        · exact hfits l (List.mem_append_left _ hl)
        · obtain rfl := List.mem_singleton.1 hl
          exact .inl (not_lt.1 hwide)
      · rw [List.isChain_append] at hfull ⊢
        refine ⟨hfull.1, List.isChain_singleton _, ?_⟩
        rintro a ha b hb
        rw [List.head?_cons, Option.mem_some_iff] at hb
        subst hb
        have hbefore := hfull.2.2 a ha line rfl
        obtain ⟨u, us, hu⟩ := List.exists_cons_of_ne_nil (hbegun hline)
        rw [Full, hlong, hu]
        rw [Full, hu] at hbefore
        exact hbefore

theorem wrapped_foldl {words rest : List Text} {st : List Text × Text} (h : Wrapped f size max words st)
    (hrest : ∀ w ∈ rest, IsWord w) : Wrapped f size max (words ++ rest) (rest.foldl (wrapWord f size max) st) := by
  induction rest generalizing words st with
  | nil => rwa [List.append_nil]
  | cons w rest ih =>
    have hw := h.word (hrest w (List.mem_cons_self ..))
    have := ih hw fun v hv => hrest v (List.mem_cons_of_mem _ hv)
    rwa [List.append_assoc] at this

theorem wrapped_fields (s : Text) : Wrapped f size max (fields s) ((fields s).foldl (wrapWord f size max) ([], [])) :=
  wrapped_foldl wrapped_nil fun _ hw => isWord_of_mem_fields hw

end

/-- The lines have the words of the text in their order, each fits or is a single word, and none has room for the first
word of the next. -/
theorem wrap_spec (f : Font) (size max : ℚ) (s : Text) :
    (wrap f size max s).flatMap fields = fields s ∧
      (∀ l ∈ wrap f size max s, width f size l ≤ max ∨ fields l = [l]) ∧
      (wrap f size max s).IsChain (Full f size max) := by
  have h : Wrapped f size max (fields s) _ := wrapped_fields s
  rw [wrap]
  generalize (fields s).foldl (wrapWord f size max) ([], []) = st at h
  obtain ⟨lines, line⟩ := st
  by_cases hline : line = []
  · have hlines := h.first hline
    simp only [hline, ne_eq, not_true_eq_false, if_false]
    simp only at hlines
    subst hline hlines
    exact ⟨h.words, fun l hl => absurd hl List.not_mem_nil, List.isChain_nil⟩
  · simp only [ne_eq, hline, not_false_eq_true, if_true]
    refine ⟨?_, h.fits hline, h.full⟩
    rw [List.flatMap_append, List.flatMap_singleton]
    exact h.words

/-! ### Truncating -/

theorem shorten_spec (f : Font) (size max : ℚ) (r : Text) (n : ℕ) :
    ∃ k ≤ n, shorten f size max r n = r.take k ∧ (width f size (r.take k ++ ['…']) ≤ max ∨ k = 0) ∧
      ∀ m, k < m → m ≤ n → max < width f size (r.take m ++ ['…']) := by
  induction n with
  | zero => exact ⟨0, le_rfl, rfl, .inr rfl, fun m hm hn => by omega⟩
  | succ n ih =>
    by_cases hwide : width f size (r.take (n + 1) ++ ['…']) > max
    · obtain ⟨k, hk, hshort, hfit, hmax⟩ := ih
      refine ⟨k, Nat.le_succ_of_le hk, ?_, hfit, fun m hm hn => ?_⟩
      · rw [shorten, if_pos hwide, hshort]
      · rcases Nat.lt_or_ge n m with hlt | hle
        · obtain rfl : m = n + 1 := by omega
          exact hwide
        · exact hmax m hm hle
    · refine ⟨n + 1, le_rfl, ?_, .inl (not_lt.1 hwide), fun m hm hn => by omega⟩
      rw [shorten, if_neg hwide]

/-- A text that fits stays as it is; of another as many runes are kept as fit beside the ellipsis. -/
theorem truncate_spec (f : Font) (size max : ℚ) (s : Text) :
    (width f size s ≤ max → truncate f size max s = s) ∧
      (max < width f size s → ∃ k ≤ s.length, truncate f size max s = s.take k ++ ['…'] ∧
        (width f size (s.take k ++ ['…']) ≤ max ∨ k = 0) ∧
        ∀ m, k < m → m ≤ s.length → max < width f size (s.take m ++ ['…'])) := by
  refine ⟨fun h => if_pos h, fun h => ?_⟩
  obtain ⟨k, hk, hshort, hrest⟩ := shorten_spec f size max s s.length
  refine ⟨k, hk, ?_, hrest⟩
  rw [truncate, if_neg (not_le.2 h), hshort]

/-- Wrapping keeps the words and fills the lines; truncating keeps the longest part that fits. -/
theorem wrap_truncate (f : Font) (size max : ℚ) (s : Text) :
    ((wrap f size max s).flatMap fields = fields s ∧
      (∀ l ∈ wrap f size max s, width f size l ≤ max ∨ fields l = [l]) ∧
      (wrap f size max s).IsChain (Full f size max)) ∧
      (width f size s ≤ max → truncate f size max s = s) ∧
      (max < width f size s → ∃ k ≤ s.length, truncate f size max s = s.take k ++ ['…'] ∧
        (width f size (s.take k ++ ['…']) ≤ max ∨ k = 0) ∧
        ∀ m, k < m → m ≤ s.length → max < width f size (s.take m ++ ['…'])) :=
  ⟨wrap_spec f size max s, truncate_spec f size max s⟩

end Printing
