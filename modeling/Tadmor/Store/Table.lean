import Mathlib.Algebra.BigOperators.Group.List.Basic
import Mathlib.Data.List.Nodup
import Mathlib.Tactic.Abel

/-!
# Tables

A table is a list of rows without repeated keys.  Rows are inserted, updated and erased by key; none of the three
can break the key constraint, so a table that violates it cannot be built.  The lemmas say what each operation
does to lookup and to membership.
-/

/-- Rows of type `α` are identified by a key of type `κ`. -/
class Keyed (α : Type) (κ : outParam Type) where
  key : α → κ

open Keyed (key)

structure Table (α : Type) {κ : Type} [Keyed α κ] where
  rows : List α
  nodup : (rows.map key).Nodup

namespace Table

variable {α κ : Type} [Keyed α κ]

instance : Membership α (Table α) := ⟨fun t a => a ∈ t.rows⟩

@[simp] theorem mem_rows {t : Table α} {a : α} : a ∈ t.rows ↔ a ∈ t := Iff.rfl

theorem key_inj {t : Table α} {a b : α} (ha : a ∈ t) (hb : b ∈ t) (h : key a = key b) : a = b :=
  List.inj_on_of_nodup_map t.nodup ha hb h

theorem ext_rows {t u : Table α} (h : t.rows = u.rows) : t = u := by
  cases t; cases u; simpa using h

def empty : Table α := ⟨[], List.nodup_nil⟩

@[simp] theorem not_mem_empty (a : α) : a ∉ (empty : Table α) := List.not_mem_nil

/-- The keys of the rows satisfying `p`, in row order. -/
def keysWhere (t : Table α) (p : α → Bool) : List κ := (t.rows.filter p).map key

variable [DecidableEq κ]

def find? (t : Table α) (k : κ) : Option α := t.rows.find? fun a => key a = k

theorem find?_eq_some {t : Table α} {k : κ} {a : α} : t.find? k = some a ↔ a ∈ t ∧ key a = k := by
  constructor
  · intro h
    exact ⟨List.mem_of_find?_eq_some h, by simpa using List.find?_some h⟩
  · rintro ⟨ha, rfl⟩
    cases hf : t.find? (key a) with
    | none => exact absurd (List.find?_eq_none.1 hf a ha) (by simp)
    | some b =>
      have hb : key b = key a := by simpa using List.find?_some hf
      rw [key_inj (List.mem_of_find?_eq_some hf) ha hb]

theorem find?_eq_none {t : Table α} {k : κ} : t.find? k = none ↔ ∀ a ∈ t, key a ≠ k := by
  simp [find?, List.find?_eq_none]

theorem find?_key {t : Table α} {a : α} (h : a ∈ t) : t.find? (key a) = some a :=
  find?_eq_some.2 ⟨h, rfl⟩

theorem mem_of_find? {t : Table α} {k : κ} {a : α} (h : t.find? k = some a) : a ∈ t := (find?_eq_some.1 h).1

theorem key_of_find? {t : Table α} {k : κ} {a : α} (h : t.find? k = some a) : key a = k := (find?_eq_some.1 h).2

@[simp] theorem find?_empty (k : κ) : (empty : Table α).find? k = none := rfl

/-! ### Insertion -/

theorem find?_empty_ne {k : κ} {a : α} : (empty : Table α).find? k ≠ some a := by simp

/-- Appends the row; a row whose key is taken is not inserted. -/
def insert (t : Table α) (a : α) : Table α :=
  if h : key a ∈ t.rows.map key then t
  else ⟨t.rows ++ [a], by
    rw [List.map_append, List.nodup_append]
    refine ⟨t.nodup, by simp, ?_⟩
    rintro x hx y hy rfl
    rw [List.map_singleton, List.mem_singleton] at hy
    exact h (hy ▸ hx)⟩

/-- No row of the table has the key `k`. -/
def Free (t : Table α) (k : κ) : Prop := ∀ a ∈ t, key a ≠ k

theorem free_iff_find? {t : Table α} {k : κ} : t.Free k ↔ t.find? k = none := find?_eq_none.symm

theorem rows_insert {t : Table α} {a : α} (h : t.Free (key a)) : (t.insert a).rows = t.rows ++ [a] := by
  have : key a ∉ t.rows.map key := by
    rw [List.mem_map]
    rintro ⟨b, hb, e⟩
    exact h b hb e
  simp [insert, this]

theorem mem_insert {t : Table α} {a b : α} (h : t.Free (key a)) : b ∈ t.insert a ↔ b ∈ t ∨ b = a := by
  rw [← mem_rows, rows_insert h]
  simp

theorem insert_of_not_free {t : Table α} {a : α} (h : ¬t.Free (key a)) : t.insert a = t := by
  unfold insert
  split
  · rfl
  · rename_i hn
    exact absurd (fun b hb e => hn (List.mem_map.2 ⟨b, hb, e⟩)) h

/-- Whether or not its key is taken, an inserted row is the only new one. -/
theorem mem_of_mem_insert {t : Table α} {a b : α} (h : b ∈ t.insert a) : b ∈ t ∨ b = a := by
  by_cases hf : t.Free (key a)
  · exact (mem_insert hf).1 h
  · exact .inl (insert_of_not_free hf ▸ h)

theorem mem_insert_of_mem {t : Table α} {a b : α} (h : b ∈ t) : b ∈ t.insert a := by
  unfold insert
  split
  · exact h
  · exact List.mem_append_left _ h

theorem find?_insert {t : Table α} {a : α} (h : t.Free (key a)) (k : κ) :
    (t.insert a).find? k = if key a = k then some a else t.find? k := by
  unfold find?
  rw [rows_insert h, List.find?_append]
  split
  · rename_i hk
    have : t.rows.find? (fun b => decide (key b = k)) = none := by
      rw [List.find?_eq_none]
      intro b hb e
      exact h b hb ((of_decide_eq_true e).trans hk.symm)
    simp [this, hk]
  · rename_i hk
    simp [hk]

theorem find?_insert_self {t : Table α} {a : α} (h : t.Free (key a)) : (t.insert a).find? (key a) = some a := by
  simp [find?_insert h]

theorem find?_insert_of_ne {t : Table α} {a : α} {k : κ} (h : key a ≠ k) : (t.insert a).find? k = t.find? k := by
  by_cases hf : t.Free (key a)
  · simp [find?_insert hf, h]
  · unfold insert
    split
    · rfl
    · rename_i hn
      exact absurd (fun b hb e => hn (List.mem_map.2 ⟨b, hb, e⟩)) hf

/-- An inserted key is there, whether or not it was free. -/
theorem isSome_find?_insert {t : Table α} {a : α} {k : κ} (h : (t.find? k).isSome = true ∨ key a = k) :
    ((t.insert a).find? k).isSome = true := by
  by_cases hk : key a = k
  · by_cases hf : t.Free (key a)
    · rw [find?_insert hf, if_pos hk]
      rfl
    · rw [insert_of_not_free hf, ← hk, Option.isSome_iff_ne_none]
      exact fun e => hf (free_iff_find?.2 e)
  · rw [find?_insert_of_ne hk]
    exact h.resolve_right hk

theorem Free.insert {t : Table α} {a : α} {k : κ} (h : t.Free k) (ha : key a ≠ k) : (t.insert a).Free k := by
  rw [free_iff_find?] at *
  rw [find?_insert_of_ne ha, h]

def insertAll (t : Table α) (as : List α) : Table α := as.foldl insert t

@[simp] theorem insertAll_nil (t : Table α) : t.insertAll [] = t := rfl

@[simp] theorem insertAll_cons (t : Table α) (a : α) (as : List α) :
    t.insertAll (a :: as) = (t.insert a).insertAll as := rfl

/-- The keys of `as` are new to the table and pairwise distinct. -/
def AllFree (t : Table α) (as : List α) : Prop := (as.map key).Nodup ∧ ∀ a ∈ as, t.Free (key a)

omit [DecidableEq κ] in
theorem AllFree.head {t : Table α} {a : α} {as : List α} (h : t.AllFree (a :: as)) : t.Free (key a) :=
  h.2 a (List.mem_cons_self ..)

theorem AllFree.tail {t : Table α} {a : α} {as : List α} (h : t.AllFree (a :: as)) :
    (t.insert a).AllFree as := by
  obtain ⟨hn, hf⟩ := h
  rw [List.map_cons, List.nodup_cons] at hn
  refine ⟨hn.2, fun b hb => (hf b (List.mem_cons_of_mem _ hb)).insert ?_⟩
  intro e
  exact hn.1 (e ▸ List.mem_map_of_mem hb)

theorem rows_insertAll {t : Table α} {as : List α} (h : t.AllFree as) : (t.insertAll as).rows = t.rows ++ as := by
  induction as generalizing t with
  | nil => simp
  | cons a as ih => rw [insertAll_cons, ih h.tail, rows_insert h.head, List.append_assoc, List.singleton_append]

theorem mem_insertAll {t : Table α} {as : List α} (h : t.AllFree as) {b : α} :
    b ∈ t.insertAll as ↔ b ∈ t ∨ b ∈ as := by
  rw [← mem_rows, rows_insertAll h, List.mem_append, mem_rows]

theorem find?_insertAll_of_ne {t : Table α} {as : List α} {k : κ} (h : ∀ a ∈ as, key a ≠ k) :
    (t.insertAll as).find? k = t.find? k := by
  induction as generalizing t with
  | nil => rfl
  | cons a as ih =>
    rw [insertAll_cons, ih fun b hb => h b (List.mem_cons_of_mem _ hb),
      find?_insert_of_ne (h a (List.mem_cons_self ..))]

theorem mem_of_mem_insertAll {t : Table α} {as : List α} {b : α} (h : b ∈ t.insertAll as) : b ∈ t ∨ b ∈ as := by
  induction as generalizing t with
  | nil => exact .inl h
  | cons a as ih =>
    rcases ih h with h | h
    · refine (mem_of_mem_insert h).imp_right ?_
      rintro rfl
      exact List.mem_cons_self ..
    · exact .inr (List.mem_cons_of_mem _ h)

/-- Only rows whose key is free are inserted. -/
theorem exists_rows_insertAll (t : Table α) (as : List α) :
    ∃ bs, bs.Sublist as ∧ (t.insertAll as).rows = t.rows ++ bs := by
  induction as generalizing t with
  | nil => exact ⟨[], List.Sublist.refl _, (List.append_nil _).symm⟩
  | cons a as ih =>
    obtain ⟨bs, hbs, hrows⟩ := ih (t.insert a)
    rw [insertAll_cons, hrows]
    by_cases h : t.Free (key a)
    · refine ⟨a :: bs, hbs.cons_cons a, ?_⟩
      rw [rows_insert h, List.append_assoc, List.singleton_append]
    · exact ⟨bs, hbs.cons a, by rw [insert_of_not_free h]⟩

theorem insertAll_append (t : Table α) (as bs : List α) : t.insertAll (as ++ bs) = (t.insertAll as).insertAll bs :=
  List.foldl_append ..

theorem AllFree.append {t : Table α} {as bs : List α} (h : t.AllFree as) (h' : (t.insertAll as).AllFree bs) :
    t.AllFree (as ++ bs) := by
  have hb : ∀ b ∈ bs, ∀ a, a ∈ t ∨ a ∈ as → key a ≠ key b := fun b hb a ha => h'.2 b hb a ((mem_insertAll h).2 ha)
  refine ⟨?_, fun a ha => ?_⟩
  · rw [List.map_append, List.nodup_append]
    refine ⟨h.1, h'.1, fun x hx y hy => ?_⟩
    obtain ⟨a, ha, rfl⟩ := List.mem_map.1 hx
    obtain ⟨b, hb', rfl⟩ := List.mem_map.1 hy
    exact hb b hb' a (.inr ha)
  · rcases List.mem_append.1 ha with ha | ha
    · exact h.2 a ha
    · exact fun b hb' => hb a ha b (.inl hb')

/-! ### Update -/

/-- Applies `f`, which keeps the key, to the rows with a key in `ks`. -/
def update (t : Table α) (ks : List κ) (f : α → α) (hf : ∀ a, key (f a) = key a := by intro; rfl) : Table α :=
  ⟨t.rows.map fun a => if key a ∈ ks then f a else a, by
    rw [List.map_map]
    convert t.nodup using 1
    apply List.map_congr_left
    intro a _
    simp only [Function.comp_apply]
    split
    · exact hf a
    · rfl⟩

variable {f : α → α} (hf : ∀ a, key (f a) = key a)

theorem mem_update {t : Table α} {ks : List κ} {b : α} :
    b ∈ t.update ks f hf ↔ ∃ a ∈ t, (if key a ∈ ks then f a else a) = b := by
  simp [update, ← mem_rows]

/-- A row of an updated table is an old one with another key, or the update of an old one. -/
theorem mem_update_cases {t : Table α} {ks : List κ} {b : α} (h : b ∈ t.update ks f hf) :
    (b ∈ t ∧ key b ∉ ks) ∨ ∃ a ∈ t, key a ∈ ks ∧ b = f a := by
  obtain ⟨a, ha, rfl⟩ := (mem_update hf).1 h
  by_cases hk : key a ∈ ks
  · rw [if_pos hk]
    exact .inr ⟨a, ha, hk, rfl⟩
  · rw [if_neg hk]
    exact .inl ⟨ha, hk⟩

/-- A row keeps its key in an update. -/
theorem exists_mem_update {t : Table α} (ks : List κ) {a : α} (h : a ∈ t) :
    ∃ b ∈ t.update ks f hf, key b = key a := by
  refine ⟨_, (mem_update hf).2 ⟨a, h, rfl⟩, ?_⟩
  split
  · exact hf a
  · rfl

theorem find?_update (t : Table α) (ks : List κ) (k : κ) :
    (t.update ks f hf).find? k = (t.find? k).map fun a => if k ∈ ks then f a else a := by
  cases h : t.find? k with
  | none =>
    rw [find?_eq_none] at h
    rw [Option.map_none, find?_eq_none]
    intro b hb
    obtain ⟨a, ha, rfl⟩ := (mem_update hf).1 hb
    split
    · rw [hf]; exact h a ha
    · exact h a ha
  | some a =>
    obtain ⟨ha, rfl⟩ := find?_eq_some.1 h
    rw [Option.map_some, find?_eq_some]
    refine ⟨(mem_update hf).2 ⟨a, ha, rfl⟩, ?_⟩
    split
    · exact hf a
    · rfl

theorem isSome_find?_update {t : Table α} {ks : List κ} {k : κ} (h : (t.find? k).isSome = true) :
    ((t.update ks f hf).find? k).isSome = true := by
  rw [find?_update, Option.isSome_map]
  exact h

theorem find?_update_of_notMem {t : Table α} {ks : List κ} {k : κ} (h : k ∉ ks) :
    (t.update ks f hf).find? k = t.find? k := by
  rw [find?_update]
  simp [h]

theorem find?_update_self {t : Table α} {k : κ} {a : α} (h : t.find? k = some a) :
    (t.update [k] f hf).find? k = some (f a) := by
  simp [find?_update, h]

/-- Lookup after an update of one row. -/
theorem find?_update_singleton {t : Table α} {k k' : κ} {a b : α} (h : t.find? k = some a) :
    (t.update [k] f hf).find? k' = some b ↔ (k' = k ∧ b = f a) ∨ (k' ≠ k ∧ t.find? k' = some b) := by
  by_cases hk : k' = k
  · subst hk
    simp [find?_update_self hf h, eq_comm]
  · simp [find?_update, hk]

/-- The rows after an update of one row. -/
theorem mem_update_singleton {t : Table α} {k : κ} {a b : α} (h : t.find? k = some a) :
    b ∈ t.update [k] f hf ↔ b = f a ∨ (key b ≠ k ∧ b ∈ t) := by
  have hb : b ∈ t.update [k] f hf ↔ (t.update [k] f hf).find? (key b) = some b :=
    ⟨fun hm => find?_key hm, mem_of_find?⟩
  rw [hb, find?_update_singleton hf h]
  constructor
  · rintro (⟨-, e⟩ | ⟨hne, hf'⟩)
    · exact .inl e
    · exact .inr ⟨hne, mem_of_find? hf'⟩
  · rintro (rfl | ⟨hne, hm⟩)
    · exact .inl ⟨(hf a).trans (key_of_find? h), rfl⟩
    · exact .inr ⟨hne, find?_key hm⟩

theorem Free.update {t : Table α} {ks : List κ} {k : κ} (h : t.Free k) : (t.update ks f hf).Free k := by
  rw [free_iff_find?] at *
  rw [find?_update, h, Option.map_none]

/-! ### Erasure -/

def erase (t : Table α) (ks : List κ) : Table α :=
  ⟨t.rows.filter fun a => key a ∉ ks, t.nodup.sublist (List.filter_sublist.map _)⟩

theorem mem_erase {t : Table α} {ks : List κ} {a : α} : a ∈ t.erase ks ↔ a ∈ t ∧ key a ∉ ks := by
  simp [erase, ← mem_rows]

theorem erase_nil (t : Table α) : t.erase [] = t := by
  cases t
  simp [erase]

theorem find?_erase (t : Table α) (ks : List κ) (k : κ) :
    (t.erase ks).find? k = if k ∈ ks then none else t.find? k := by
  split
  · rename_i h
    rw [find?_eq_none]
    rintro a ha rfl
    exact (mem_erase.1 ha).2 h
  · rename_i h
    cases hk : t.find? k with
    | none =>
      rw [find?_eq_none] at hk ⊢
      exact fun a ha => hk a (mem_erase.1 ha).1
    | some a =>
      obtain ⟨ha, rfl⟩ := find?_eq_some.1 hk
      exact find?_eq_some.2 ⟨mem_erase.2 ⟨ha, h⟩, rfl⟩

omit [DecidableEq κ] in
theorem mem_keysWhere {t : Table α} {p : α → Bool} {a : α} (ha : a ∈ t) : key a ∈ t.keysWhere p ↔ p a = true := by
  simp only [keysWhere, List.mem_map, List.mem_filter]
  constructor
  · rintro ⟨b, ⟨hb, hp⟩, e⟩
    rwa [← key_inj hb ha e]
  · exact fun hp => ⟨a, ⟨ha, hp⟩, rfl⟩

theorem rows_erase_keysWhere {t : Table α} {p : α → Bool} :
    (t.erase (t.keysWhere p)).rows = t.rows.filter fun a => !p a := by
  apply List.filter_congr
  intro a ha
  have := mem_keysWhere (p := p) ha
  simp [this]

/-- Erasing the rows found by a condition leaves the others. -/
theorem mem_erase_keysWhere {t : Table α} {p : α → Bool} {a : α} :
    a ∈ t.erase (t.keysWhere p) ↔ a ∈ t ∧ p a = false := by
  rw [mem_erase]
  constructor
  · rintro ⟨ha, hn⟩
    rw [mem_keysWhere ha] at hn
    exact ⟨ha, by simpa using hn⟩
  · rintro ⟨ha, hp⟩
    refine ⟨ha, ?_⟩
    rw [mem_keysWhere ha]
    simp [hp]

theorem erase_keysWhere_of_false {t : Table α} {p : α → Bool} (h : ∀ a ∈ t, p a = false) :
    t.erase (t.keysWhere p) = t := by
  apply ext_rows
  refine List.filter_eq_self.2 fun a ha => ?_
  have : key a ∉ t.keysWhere p := by
    rw [mem_keysWhere ha, h a ha]
    exact Bool.false_ne_true
  simpa using this

/-- Erasing what was inserted leaves what was there. -/
theorem erase_insert {t : Table α} {a : α} (h : t.Free (key a)) : (t.insert a).erase [key a] = t := by
  apply ext_rows
  have hold : t.rows.filter (fun b => key b ∉ [key a]) = t.rows :=
    List.filter_eq_self.2 fun b hb => by simpa using h b hb
  have hnew : [a].filter (fun b => key b ∉ [key a]) = [] := by simp
  show (t.insert a).rows.filter _ = t.rows
  rw [rows_insert h, List.filter_append, hold, hnew, List.append_nil]

theorem erase_keysWhere_insertAll {t : Table α} {as : List α} {p : α → Bool} (h : t.AllFree as)
    (hold : ∀ a ∈ t, p a = false) (hnew : ∀ a ∈ as, p a = true) :
    (t.insertAll as).erase ((t.insertAll as).keysWhere p) = t := by
  apply ext_rows
  have hkeep : t.rows.filter (fun a => !p a) = t.rows := List.filter_eq_self.2 fun a ha => by simp [hold a ha]
  have hdrop : as.filter (fun a => !p a) = [] := List.filter_eq_nil_iff.2 fun a ha => by simp [hnew a ha]
  rw [rows_erase_keysWhere, rows_insertAll h, List.filter_append, hkeep, hdrop, List.append_nil]

/-! ### Keys from a sequence -/

section below

variable {α : Type} [Keyed α ℕ]

/-- All keys are below `n`. -/
def Below (n : ℕ) (t : Table α) : Prop := ∀ a ∈ t, key a < n

variable {t : Table α} {n m : ℕ}

theorem Below.mono (h : t.Below n) (hn : n ≤ m) : t.Below m := fun a ha => (h a ha).trans_le hn

theorem Below.free (h : t.Below n) (hn : n ≤ m) : t.Free m := fun a ha e => absurd (h a ha) (by omega)

theorem Below.allFree (h : t.Below n) {as : List α} (has : as.map key = List.range' n as.length) : t.AllFree as := by
  refine ⟨has ▸ List.nodup_range', fun a ha => h.free ?_⟩
  have : key a ∈ List.range' n as.length := has ▸ List.mem_map_of_mem ha
  exact (List.mem_range'_1.1 this).1

theorem Below.insertAll (h : t.Below n) {as : List α} (has : as.map key = List.range' n as.length) :
    (t.insertAll as).Below (n + as.length) := by
  intro a ha
  rcases (mem_insertAll (h.allFree has)).1 ha with ha | ha
  · exact (h a ha).trans_le (Nat.le_add_right ..)
  · have : key a ∈ List.range' n as.length := has ▸ List.mem_map_of_mem ha
    exact (List.mem_range'_1.1 this).2

theorem Below.insert (h : t.Below n) {a : α} (ha : key a = n) : (t.insert a).Below (n + 1) :=
  h.insertAll (show List.map key [a] = List.range' n [a].length by simp [ha])

theorem Below.update (h : t.Below n) (ks : List ℕ) {f : α → α} (hf : ∀ a, key (f a) = key a) :
    (t.update ks f hf).Below n := by
  intro b hb
  obtain ⟨a, ha, rfl⟩ := (mem_update hf).1 hb
  split
  · exact hf a ▸ h a ha
  · exact h a ha

theorem Below.erase (h : t.Below n) {ks : List ℕ} : (t.erase ks).Below n := fun a ha => h a (mem_erase.1 ha).1

end below

/-! ### Change of the row type -/

section map

variable {β : Type} [Keyed β κ]

/-- The rows under `f`, which keeps the key. -/
def map (t : Table α) (f : α → β) (hf : ∀ a, key (f a) = key a := by intro; rfl) : Table β :=
  ⟨t.rows.map f, by
    rw [List.map_map]
    convert t.nodup using 1
    exact List.map_congr_left fun a _ => hf a⟩

variable {f : α → β} (hf : ∀ a, key (f a) = key a)

omit [DecidableEq κ] in
theorem mem_map {t : Table α} {b : β} : b ∈ t.map f hf ↔ ∃ a ∈ t, f a = b := List.mem_map

theorem find?_map (t : Table α) (k : κ) : (t.map f hf).find? k = (t.find? k).map f := by
  cases h : t.find? k with
  | none =>
    rw [find?_eq_none] at h
    rw [Option.map_none, find?_eq_none]
    intro b hb
    obtain ⟨a, ha, rfl⟩ := (mem_map hf).1 hb
    rw [hf]
    exact h a ha
  | some a =>
    obtain ⟨ha, rfl⟩ := find?_eq_some.1 h
    rw [Option.map_some, find?_eq_some]
    exact ⟨(mem_map hf).2 ⟨a, ha, rfl⟩, hf a⟩

end map

end Table
