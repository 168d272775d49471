import Mathlib.Data.List.Nodup
import Mathlib.Logic.Relation
import Tadmor.Model.Migrations

/-!
# Migrations run once, in order

Any number of runners start on one database, fail and lose their connections at any point.  Whatever files they carry,
a version is recorded once, by one runner, in the transaction that its script ran in (`migrations_once`).  If each
carries the first files of one list, the recorded versions are always the first ones of that list, and the schema went
through their scripts in that order, one after another (`migrations_in_order`).
-/

namespace Migrate

variable {ι Q S ε : Type} {run : Q → S → Except ε (S → S)} {W : S → S → Prop} {fate : ℕ → Fate}

/-! ### What a statement does -/

/-- The database and the place of a runner with the files `fs` before and after a statement. -/
inductive Moves (run : Q → S → Except ε (S → S)) (fs : FS Q) : Target S → Pc Q S → Target S → Pc Q S → Prop
  | ensure (d : Target S) : Moves run fs d .start { d with versions := some d.recorded } .ensured
  | list {d : Target S} {done : List FileName} (h : d.versions = some done) :
      Moves run fs d .ensured d (.loop done [] fs.files)
  | return {d : Target S} {done applied : List FileName} :
      Moves run fs d (.loop done applied []) d (.ended applied none)
  | skip {d : Target S} {done applied todo : List FileName} {f : FileName} (h : version f ∈ done) :
      Moves run fs d (.loop done applied (f :: todo)) d (.loop done applied todo)
  | begin {d : Target S} {done applied todo : List FileName} {f : FileName} {sql : Q} (h : version f ∉ done)
      (hsql : fs.read f = some sql) :
      Moves run fs d (.loop done applied (f :: todo)) d (.begun done applied f sql todo)
  | exec {d : Target S} {done applied todo : List FileName} {f : FileName} {sql : Q} {change : S → S}
      (h : run sql d.schema = .ok change) :
      Moves run fs d (.begun done applied f sql todo) d (.ran done applied f change todo)
  | insert {d : Target S} {done applied todo : List FileName} {f : FileName} {change : S → S}
      (hfree : version f ∉ d.inserting) (hnew : version f ∉ d.recorded) :
      Moves run fs d (.ran done applied f change todo) { d with inserting := version f :: d.inserting }
        (.inserted done applied f change todo)
  | commit {d : Target S} {done applied todo : List FileName} {f : FileName} {change : S → S} :
      Moves run fs d (.inserted done applied f change todo)
        ⟨change d.schema, some (d.recorded ++ [version f]), d.inserting.erase (version f)⟩
        (.loop done (applied ++ [version f]) todo)
  | lost {d : Target S} {done applied todo : List FileName} {f : FileName} {change : S → S} {e : ApplyErr} :
      Moves run fs d (.inserted done applied f change todo)
        ⟨change d.schema, some (d.recorded ++ [version f]), d.inserting.erase (version f)⟩ (.ended applied (some e))
  | fail {d d' : Target S} {p : Pc Q S} {e : ApplyErr} (hs : d'.schema = d.schema) (hr : d'.recorded = d.recorded)
      (hi : d'.inserting = (p.rollback d).inserting) : Moves run fs d p d' (.ended p.applied (some e))

theorem moves_next {fs : FS Q} {pc pc' : Pc Q S} {d d' : Target S} (h : pc.next run fs d = some (d', pc')) :
    Moves run fs d pc d' pc' := by
  cases pc with
  | start =>
    cases h
    exact .ensure d
  | ensured =>
    simp only [Pc.next] at h
    cases hv : d.versions with
    | none =>
      rw [hv] at h
      cases h
      exact .fail (p := .ensured) rfl rfl rfl
    | some done =>
      simp only [hv] at h
      split at h <;> cases h
      · exact .fail (p := .ensured) rfl rfl rfl
      · exact .list hv
  | loop done applied todo =>
    cases todo with
    | nil =>
      cases h
      exact .return
    | cons f todo =>
      simp only [Pc.next] at h
      split at h
      · rename_i hdone
        cases h
        exact .skip hdone
      · rename_i hdone
        cases hsql : fs.read f with
        | none =>
          rw [hsql] at h
          cases h
          exact .fail (p := .loop done applied (f :: todo)) rfl rfl rfl
        | some sql =>
          rw [hsql] at h
          cases h
          exact .begin hdone hsql
  | begun done applied f sql todo =>
    simp only [Pc.next] at h
    cases hrun : run sql d.schema with
    | error e =>
      rw [hrun] at h
      cases h
      exact .fail (p := .begun done applied f sql todo) rfl rfl rfl
    | ok change =>
      rw [hrun] at h
      cases h
      exact .exec hrun
  | ran done applied f change todo =>
    simp only [Pc.next] at h
    split at h
    · cases h
    · rename_i hfree
      split at h <;> cases h
      · exact .fail (p := .ran done applied f change todo) rfl rfl rfl
      · rename_i hnew
        exact .insert hfree fun hm => hnew (.inr hm)
  | inserted done applied f change todo =>
    cases h
    exact .commit
  | ended applied err => cases h

@[simp] theorem Pc.rollback_schema (pc : Pc Q S) (d : Target S) : (pc.rollback d).schema = d.schema := by
  unfold rollback
  cases pc.holds <;> rfl

@[simp] theorem Pc.rollback_recorded (pc : Pc Q S) (d : Target S) : (pc.rollback d).recorded = d.recorded := by
  unfold rollback
  cases pc.holds <;> rfl

theorem Pc.rollback_eq {pc : Pc Q S} (h : pc.holds = none) (d : Target S) : pc.rollback d = d := by
  unfold rollback
  rw [h]

theorem moves_exec {n : ℕ} {r r' : Runner Q S} {d d' : Target S} (h : exec run fate n r d = some (d', r')) :
    r'.fs = r.fs ∧ Moves run r.fs d r.pc d' r'.pc := by
  unfold exec at h
  split at h
  · obtain ⟨⟨d₁, pc⟩, hnext, h⟩ := Option.map_eq_some_iff.1 h
    cases h
    exact ⟨rfl, moves_next hnext⟩
  · obtain ⟨e, -, h⟩ := Option.map_eq_some_iff.1 h
    cases h
    exact ⟨rfl, .fail (by simp) (by simp) rfl⟩
  · obtain ⟨e, -, h⟩ := Option.bind_eq_some_iff.1 h
    obtain ⟨⟨d₁, pc⟩, hnext, h⟩ := Option.map_eq_some_iff.1 h
    cases h
    refine ⟨rfl, ?_⟩
    obtain ⟨fs, pc₀⟩ := r
    have hmoves := moves_next hnext
    cases hmoves with
    | insert hfree hnew =>
      refine .fail rfl rfl ?_
      simp [Pc.rollback, Pc.holds]
    | commit => exact .lost
    | lost => exact .lost
    | fail hs hr hi =>
      rw [Pc.rollback_eq rfl]
      exact .fail hs hr hi
    | _ => exact .fail rfl rfl rfl

variable {fs : ι → FS Q} {d₀ : Target S} {π π' : Pool ι (Target S) (Runner Q S)}

variable [DecidableEq ι]

/-- What every statement of a runner and every other session keeps, a run keeps. -/
theorem runs_invariant {I : Pool ι (Target S) (Runner Q S) → Prop}
    (h : Pool.Runs (exec run fate) (others W) (fun _ _ => True) π π') (h0 : I π)
    (hmove : ∀ (π : Pool ι (Target S) (Runner Q S)) i d r n, I π → r.fs = (π.procs i).fs →
      Moves run r.fs π.db (π.procs i).pc d r.pc → I ⟨d, n, Function.update π.procs i r⟩)
    (henv : ∀ (π : Pool ι (Target S) (Runner Q S)) d, I π → others W π.db d → I ⟨d, π.seq, π.procs⟩) : I π' := by
  refine h.invariant h0 ?_ henv
  intro π i n d r hI _ _ he
  obtain ⟨hfs, hm⟩ := moves_exec he
  rw [← hfs] at hm
  exact hmove π i d r _ hI hfs hm

/-! ### Once -/

/-- The script that a transaction runs is the one of its file, and its changes are what the script gave. -/
def Pc.Sound (run : Q → S → Except ε (S → S)) (fs : FS Q) : Pc Q S → Prop
  | begun _ _ f sql _ => fs.read f = some sql
  | ran _ _ f change _ | inserted _ _ f change _ => ∃ sql s, fs.read f = some sql ∧ run sql s = .ok change
  | _ => True

theorem Moves.sound {fs : FS Q} {d d' : Target S} {pc pc' : Pc Q S} (h : Moves run fs d pc d' pc')
    (hs : pc.Sound run fs) : pc'.Sound run fs := by
  cases h with
  | begin _ hsql => exact hsql
  | exec hrun => exact ⟨_, _, hs, hrun⟩
  | insert _ _ => exact hs
  | _ => trivial

/-- How a schema comes about: other sessions write to it, and the scripts of the files that `code` gives change it,
each when its version is recorded. -/
inductive Built (run : Q → S → Except ε (S → S)) (W : S → S → Prop) (code : FileName → Q → Prop) (s₀ : S) :
    List FileName → S → Prop
  | refl : Built run W code s₀ [] s₀
  | write {vs : List FileName} {s s' : S} (h : Built run W code s₀ vs s) (hw : W s s') : Built run W code s₀ vs s'
  | migrate {vs : List FileName} {s s' : S} {f : FileName} {sql : Q} {change : S → S}
      (h : Built run W code s₀ vs s) (hcode : code f sql) (hrun : run sql s' = .ok change) :
      Built run W code s₀ (vs ++ [version f]) (change s)

/-- The versions recorded since the start, and the runners that recorded them. -/
structure Recorded (run : Q → S → Except ε (S → S)) (W : S → S → Prop) (fs : ι → FS Q) (d₀ : Target S)
    (π : Pool ι (Target S) (Runner Q S)) (new : List FileName) : Prop where
  eq : π.db.recorded = d₀.recorded ++ new
  nodup : π.db.recorded.Nodup
  built : Built run W (fun f sql => ∃ i, (fs i).read f = some sql) d₀.schema new π.db.schema
  applied : ∀ i, (π.procs i).pc.applied.Sublist new
  disjoint : ∀ i j, i ≠ j → (π.procs i).pc.applied.Disjoint (π.procs j).pc.applied

/-- The invariant of a run: an open transaction that has inserted a version keeps the others from inserting it. -/
structure Exclusive (run : Q → S → Except ε (S → S)) (W : S → S → Prop) (fs : ι → FS Q) (d₀ : Target S)
    (π : Pool ι (Target S) (Runner Q S)) : Prop where
  fs_eq : ∀ i, (π.procs i).fs = fs i
  sound : ∀ i, (π.procs i).pc.Sound run (fs i)
  held : ∀ i v, (π.procs i).pc.holds = some v → v ∈ π.db.inserting ∧ v ∉ π.db.recorded
  apart : ∀ i j v, (π.procs i).pc.holds = some v → (π.procs j).pc.holds = some v → i = j
  recorded : ∃ new, Recorded run W fs d₀ π new

omit [DecidableEq ι] in
theorem Exclusive.start (hd : d₀.recorded.Nodup) : Exclusive run W fs d₀ (starting d₀ fs) where
  fs_eq _ := rfl
  sound _ := trivial
  held _ _ h := by cases h
  apart _ _ _ h := by cases h
  recorded := ⟨[], by simp [starting], hd, .refl, fun _ => List.nil_sublist _, fun _ _ _ => List.disjoint_nil_left _⟩

/-- What a runner has applied, after a statement that recorded `vs` of it. -/
theorem Recorded.update {new : List FileName} (vs : List FileName) {i : ι} {d : Target S} {r : Runner Q S} {n : ℕ}
    (h : Recorded run W fs d₀ π new) (hrec : d.recorded = π.db.recorded ++ vs) (hnodup : d.recorded.Nodup)
    (hbuilt : Built run W (fun f sql => ∃ i, (fs i).read f = some sql) d₀.schema (new ++ vs) d.schema)
    (happ : r.pc.applied = (π.procs i).pc.applied ∨ r.pc.applied = (π.procs i).pc.applied ++ vs) :
    Recorded run W fs d₀ ⟨d, n, Function.update π.procs i r⟩ (new ++ vs) := by
  have hsub : r.pc.applied.Sublist (new ++ vs) := by
    rcases happ with happ | happ <;> rw [happ]
    · exact (h.applied i).trans (List.sublist_append_left ..)
    · exact (h.applied i).append (List.Sublist.refl _)
  have hdisj : ∀ j, j ≠ i → r.pc.applied.Disjoint (π.procs j).pc.applied := by
    intro j hj
    rcases happ with happ | happ <;> rw [happ]
    · exact h.disjoint i j hj.symm
    · refine List.disjoint_append_left.2 ⟨h.disjoint i j hj.symm, ?_⟩
      -- what is recorded now was not recorded before, so no runner had applied it
      rw [hrec] at hnodup
      intro v hv hvj
      refine (List.nodup_append.1 hnodup).2.2 v ?_ v hv rfl
      rw [h.eq]
      exact List.mem_append_right _ ((h.applied j).subset hvj)
  refine ⟨?_, hnodup, hbuilt, fun j => ?_, fun j k hjk => ?_⟩
  · rw [hrec, h.eq, List.append_assoc]
  · by_cases hj : j = i
    · subst hj
      simpa using hsub
    · simpa [Function.update_of_ne hj] using (h.applied j).trans (List.sublist_append_left ..)
  · by_cases hj : j = i
    · subst hj
      simpa [Function.update_of_ne hjk.symm] using hdisj k hjk.symm
    · by_cases hk : k = i
      · subst hk
        simpa [Function.update_of_ne hj] using List.disjoint_comm.1 (hdisj j hj)
      · simpa [Function.update_of_ne hj, Function.update_of_ne hk] using h.disjoint j k hjk

/-- A statement after which no other runner's insertion is taken away or recorded. -/
theorem Exclusive.set (h : Exclusive run W fs d₀ π) {i : ι} {d : Target S} {r : Runner Q S} {n : ℕ}
    (hfs : r.fs = (π.procs i).fs) (hsound : r.pc.Sound run r.fs)
    (hown : ∀ v, r.pc.holds = some v → v ∈ d.inserting ∧ v ∉ d.recorded ∧ ∀ j, j ≠ i → (π.procs j).pc.holds ≠ some v)
    (hothers : ∀ j v, j ≠ i → (π.procs j).pc.holds = some v → v ∈ d.inserting ∧ v ∉ d.recorded)
    (hrec : ∃ new, Recorded run W fs d₀ ⟨d, n, Function.update π.procs i r⟩ new) :
    Exclusive run W fs d₀ ⟨d, n, Function.update π.procs i r⟩ := by
  refine ⟨?_, ?_, ?_, fun j k v hv hv' => ?_, hrec⟩
  · apply (Function.forall_update_iff π.procs (p := fun j r => r.fs = fs j)).2
    exact ⟨hfs.trans (h.fs_eq i), fun j _ => h.fs_eq j⟩
  · apply (Function.forall_update_iff π.procs (p := fun j r => r.pc.Sound run (fs j))).2
    refine ⟨?_, fun j _ => h.sound j⟩
    rw [← h.fs_eq i, ← hfs]
    exact hsound
  · apply (Function.forall_update_iff π.procs
      (p := fun _ r => ∀ v, r.pc.holds = some v → v ∈ d.inserting ∧ v ∉ d.recorded)).2
    exact ⟨fun v hv => ⟨(hown v hv).1, (hown v hv).2.1⟩, fun j hj v hv => hothers j v hj hv⟩
  · by_cases hj : j = i
    · by_cases hk : k = i
      · rw [hj, hk]
      · subst hj
        simp only [Function.update_self, Function.update_of_ne hk] at hv hv'
        exact absurd hv' ((hown v hv).2.2 k hk)
    · by_cases hk : k = i
      · subst hk
        simp only [Function.update_self, Function.update_of_ne hj] at hv hv'
        exact absurd hv ((hown v hv').2.2 j hj)
      · simp only [Function.update_of_ne hj, Function.update_of_ne hk] at hv hv'
        exact h.apart j k v hv hv'

/-- A statement that records nothing and inserts nothing. -/
theorem Exclusive.quiet (h : Exclusive run W fs d₀ π) {i : ι} {d : Target S} {r : Runner Q S} {n : ℕ}
    (hfs : r.fs = (π.procs i).fs) (hsound : r.pc.Sound run r.fs) (hholds : r.pc.holds = none)
    (happ : r.pc.applied = (π.procs i).pc.applied) (hs : d.schema = π.db.schema) (hr : d.recorded = π.db.recorded)
    (hi : d.inserting = ((π.procs i).pc.rollback π.db).inserting) :
    Exclusive run W fs d₀ ⟨d, n, Function.update π.procs i r⟩ := by
  refine h.set hfs hsound (fun v hv => ?_) (fun j v hj hv => ?_) ?_
  · rw [hholds] at hv
    cases hv
  · rw [hr, hi]
    refine ⟨?_, (h.held j v hv).2⟩
    unfold Pc.rollback
    cases hw : (π.procs i).pc.holds with
    | none => exact (h.held j v hv).1
    | some w =>
      have hne : v ≠ w := fun hvw => hj (h.apart j i v hv (hvw ▸ hw))
      exact (List.mem_erase_of_ne hne).2 (h.held j v hv).1
  · obtain ⟨new, hn⟩ := h.recorded
    have hnew := hn.update [] (i := i) (d := d) (r := r) (n := n) (by simpa using hr) (hr ▸ hn.nodup)
      (by rw [List.append_nil, hs]; exact hn.built) (.inl happ)
    exact ⟨_, hnew⟩

/-- The commit of a migration, whether its runner learns of it or not. -/
theorem Exclusive.commit (h : Exclusive run W fs d₀ π) {i : ι} {r : Runner Q S} {n : ℕ}
    {done applied todo : List FileName} {f : FileName} {change : S → S}
    (hpc : (π.procs i).pc = .inserted done applied f change todo) (hfs : r.fs = (π.procs i).fs)
    (hsound : r.pc.Sound run r.fs) (hholds : r.pc.holds = none)
    (happ : r.pc.applied = applied ∨ r.pc.applied = applied ++ [version f]) :
    Exclusive run W fs d₀ ⟨⟨change π.db.schema, some (π.db.recorded ++ [version f]),
      π.db.inserting.erase (version f)⟩, n, Function.update π.procs i r⟩ := by
  have hown : (π.procs i).pc.holds = some (version f) := by rw [hpc]; rfl
  have hnew := (h.held i _ hown).2
  obtain ⟨sql, s, hsql, hrun⟩ : ∃ sql s, (fs i).read f = some sql ∧ run sql s = .ok change := by
    have := h.sound i
    rwa [hpc] at this
  refine h.set hfs hsound (fun v hv => ?_) (fun j v hj hv => ?_) ?_
  · rw [hholds] at hv
    cases hv
  · have hne : v ≠ version f := fun hvf => hj (h.apart j i v hv (hvf ▸ hown))
    refine ⟨(List.mem_erase_of_ne hne).2 (h.held j v hv).1, ?_⟩
    simp only [Target.recorded, Option.getD_some, List.mem_append, List.mem_singleton, not_or]
    exact ⟨(h.held j v hv).2, hne⟩
  · obtain ⟨new, hn⟩ := h.recorded
    refine ⟨_, hn.update [version f] rfl ?_ (hn.built.migrate ⟨i, hsql⟩ hrun) ?_⟩
    · refine List.nodup_append.2 ⟨hn.nodup, List.nodup_singleton _, ?_⟩
      intro v hv w hw hvw
      rw [List.mem_singleton] at hw
      exact hnew (hw ▸ hvw ▸ hv)
    · rw [hpc]
      exact happ

theorem Exclusive.move (h : Exclusive run W fs d₀ π) {i : ι} {d : Target S} {r : Runner Q S} {n : ℕ}
    (hfs : r.fs = (π.procs i).fs) (hm : Moves run r.fs π.db (π.procs i).pc d r.pc) :
    Exclusive run W fs d₀ ⟨d, n, Function.update π.procs i r⟩ := by
  have hsound : r.pc.Sound run r.fs := hm.sound (by rw [hfs, h.fs_eq]; exact h.sound i)
  obtain ⟨fs', pc⟩ := r
  dsimp only at hm
  generalize hpc : (π.procs i).pc = pc₀ at hm
  cases hm with
  | insert hfree hnew =>
    rename_i done applied todo f change
    refine h.set hfs hsound (fun v hv => ?_) (fun j v hj hv => ?_) ?_
    · cases hv
      exact ⟨List.mem_cons_self .., hnew, fun j _ hj => hfree (h.held j _ hj).1⟩
    · exact ⟨List.mem_cons_of_mem _ (h.held j v hv).1, (h.held j v hv).2⟩
    · obtain ⟨new, hn⟩ := h.recorded
      have hsame := hn.update [] (i := i) (d := { π.db with inserting := version f :: π.db.inserting })
        (r := ⟨fs', .inserted done applied f change todo⟩) (n := n) (by simp [Target.recorded]) hn.nodup
        (by rw [List.append_nil]; exact hn.built) (.inl (by rw [hpc]; rfl))
      exact ⟨_, hsame⟩
  | commit => exact h.commit hpc hfs hsound rfl (.inr rfl)
  | lost => exact h.commit hpc hfs hsound rfl (.inl rfl)
  | fail hs hr hi => exact h.quiet hfs hsound rfl (by rw [hpc]; rfl) hs hr (hpc ▸ hi)
  | _ => exact h.quiet hfs hsound rfl (by rw [hpc]; rfl) rfl rfl (by rw [hpc]; rfl)

omit [DecidableEq ι] in
theorem Exclusive.others (h : Exclusive run W fs d₀ π) {d : Target S} (hw : Migrate.others W π.db d) :
    Exclusive run W fs d₀ ⟨d, π.seq, π.procs⟩ := by
  obtain ⟨hw, hv, hi⟩ := hw
  have hr : d.recorded = π.db.recorded := by
    unfold Target.recorded
    rw [hv]
  refine ⟨h.fs_eq, h.sound, fun j v hj => ?_, h.apart, ?_⟩
  · rw [hr, hi]
    exact h.held j v hj
  · obtain ⟨new, hn⟩ := h.recorded
    exact ⟨new, hr.trans hn.eq, hr ▸ hn.nodup, hn.built.write hw, hn.applied, hn.disjoint⟩

/-- Whatever files the runners carry: no version is recorded twice, a script takes effect with the row of its version
and not without it, and no two runners report the same version. -/
theorem migrations_once (hd : d₀.recorded.Nodup)
    (h : Pool.Runs (exec run fate) (Migrate.others W) (fun _ _ => True) (starting d₀ fs) π) :
    ∃ new, Recorded run W fs d₀ π new := by
  have hinv : Exclusive run W fs d₀ π := runs_invariant h (.start hd)
    (fun _ _ _ _ _ hI hfs hm => hI.move hfs hm) (fun _ _ hI hw => hI.others hw)
  exact hinv.recorded

/-- A script that creates a table: it fails if the table exists. -/
def createTable (q : ℕ) (s : List ℕ) : Except Unit (List ℕ → List ℕ) :=
  if q ∈ s then .error () else .ok fun s => s ++ [q]

def firstFile : FileName := "1_init.up.sql".toList

def secondFile : FileName := "2_core.up.sql".toList

def release : FS ℕ := ⟨[secondFile, "1_init.down.sql".toList, firstFile], by decide, fun f => some f.length⟩

/-- The release of one server has one migration, that of the other one has two. -/
def releases (newer : Bool) : FS ℕ := if newer then release else ⟨[firstFile], by decide, release.read⟩

/-- Both servers start at once, and both run the first script before one of them records it. -/
def startup : List Bool :=
  [true, false, true, false, true, false, true, false, false, false, true, false]

def emptyTarget : Target (List ℕ) := ⟨[], none, []⟩

theorem migrations_once_both : ∃ π : Pool Bool (Target (List ℕ)) (Runner ℕ (List ℕ)),
    Pool.play (exec createTable fun _ => .runs) (fun _ _ => true) startup (starting emptyTarget releases) = some π ∧
    π.db.recorded = [version firstFile] ∧ ∃ new, Recorded createTable (fun _ _ => False) releases emptyTarget π new := by
  have hplay : (Pool.play (exec createTable fun _ => .runs) (fun _ _ => true) startup
      (starting emptyTarget releases)).map (·.db.recorded) = some [version firstFile] := by decide +kernel
  obtain ⟨π, hπ, hrec⟩ := Option.map_eq_some_iff.1 hplay
  have hruns : Pool.Runs (exec createTable fun _ => .runs) (Migrate.others fun _ _ => False) (fun _ _ => True)
      (starting emptyTarget releases) π := (Pool.runs_play hπ).mono fun _ _ _ => trivial
  exact ⟨π, hπ, hrec, migrations_once (by decide) hruns⟩

/-! ### In order -/

theorem mem_files {fs : FS Q} {f : FileName} : f ∈ fs.files ↔ f ∈ fs.glob := List.mem_insertionSort _

theorem files_nodup (fs : FS Q) : fs.files.Nodup :=
  (List.perm_insertionSort ..).nodup_iff.2 (fs.nodup.filter _)

theorem files_sorted (fs : FS Q) : fs.files.Pairwise (· ≤ ·) := List.pairwise_insertionSort ..

/-- Two migrations of one version are one file. -/
theorem version_injective {fs : FS Q} {f g : FileName} (hf : f ∈ fs.files) (hg : g ∈ fs.files)
    (h : version f = version g) : f = g := by
  have key : ∀ f ∈ fs.files, f = version f ++ upSuffix := by
    intro f hf
    have hs : upSuffix.isSuffixOf f = true := (List.mem_filter.1 (mem_files.1 hf)).2
    obtain ⟨v, rfl⟩ := List.isSuffixOf_iff_suffix.1 hs
    simp [version, hs]
  rw [key f hf, key g hg, h]

theorem versions_nodup (fs : FS Q) : (fs.files.map version).Nodup :=
  (files_nodup fs).map_on fun _ hf _ hg h => version_injective hf hg h

/-- `fs` is of an earlier release than `newest`: what it has is left as it is, and what is added sorts behind it. -/
def FS.Earlier (fs newest : FS Q) : Prop :=
  (∀ f ∈ fs.glob, f ∈ newest.glob ∧ fs.read f = newest.read f) ∧ ∀ f ∈ newest.glob, f ∉ fs.glob → ∀ g ∈ fs.glob, g ≤ f

theorem FS.Earlier.first {fs newest : FS Q} (h : fs.Earlier newest) : fs.files <+: newest.files := by
  refine ⟨newest.files.filter (· ∉ fs.files), ?_⟩
  refine List.Perm.eq_of_pairwise' (r := (· ≤ ·)) ?_ (files_sorted newest) ?_
  · refine List.pairwise_append.2 ⟨files_sorted fs, (files_sorted newest).filter _, ?_⟩
    intro g hg f hf
    obtain ⟨hf, hnot⟩ := List.mem_filter.1 hf
    exact h.2 f (mem_files.1 hf) (fun hm => of_decide_eq_true hnot (mem_files.2 hm)) g (mem_files.1 hg)
  · refine (List.perm_ext_iff_of_nodup ?_ (files_nodup newest)).2 fun f => ?_
    · refine List.nodup_append.2 ⟨files_nodup fs, (files_nodup newest).filter _, ?_⟩
      rintro f hf g hg rfl
      exact of_decide_eq_true (List.mem_filter.1 hg).2 hf
    · simp only [List.mem_append, List.mem_filter, decide_eq_true_eq]
      refine ⟨?_, fun hf => ?_⟩
      · rintro (hf | ⟨hf, -⟩)
        · exact mem_files.2 (h.1 f (mem_files.1 hf)).1
        · exact hf
      · by_cases hm : f ∈ fs.files
        · exact .inl hm
        · exact .inr ⟨hf, hm⟩

/-- The migration whose predecessors are recorded and that is not recorded itself is the next one. -/
theorem next_index {fs newest : FS Q} (h : fs.Earlier newest) {pre todo : List FileName} {f : FileName} {k : ℕ}
    (hfiles : fs.files = pre ++ f :: todo) (hpre : ∀ g ∈ pre, version g ∈ (newest.files.take k).map version)
    (hf : version f ∉ (newest.files.take k).map version) : newest.files[k]? = some f := by
  obtain ⟨rest, hrest⟩ := h.first
  have hat : newest.files[pre.length]? = some f := by
    rw [← hrest, hfiles]
    simp
  have hle : k ≤ pre.length := by
    by_contra hlt
    have htake : f ∈ newest.files.take k := List.mem_of_getElem? (i := pre.length) (by
      rw [List.getElem?_take_of_lt (by omega)]
      exact hat)
    exact hf (List.mem_map_of_mem htake)
  have hge : ¬k < pre.length := by
    intro hlt
    -- the file at `k` is one of the predecessors, so its version stands before `k` too
    have hk : newest.files[k]? = some pre[k] := by
      rw [← hrest, hfiles]
      simp [List.getElem?_append_left hlt]
    obtain ⟨g, hg, hv⟩ := List.mem_map.1 (hpre pre[k] (List.getElem_mem hlt))
    have hsame : g = pre[k] := version_injective (List.mem_of_mem_take hg) (List.mem_of_getElem? hk) hv
    obtain ⟨j, hj⟩ := List.mem_iff_getElem?.1 hg
    have hjk : j < k := by
      by_contra hkj
      rw [List.getElem?_take_eq_none (by omega)] at hj
      cases hj
    rw [List.getElem?_take_of_lt hjk, hsame] at hj
    obtain ⟨hlen, -⟩ := List.getElem?_eq_some_iff.1 hj
    have hjk' := (List.getElem?_inj hlen (files_nodup newest)).1 (hj.trans hk.symm)
    omega
  rwa [show k = pre.length by omega]

/-- What the schema goes through: other sessions write to it, and the migrations of `newest` run on it in their order.
Between a script's run and its commit no other migration becomes visible.  `k` of them have run, `k₀` before the
start. -/
inductive Upgraded (run : Q → S → Except ε (S → S)) (W : S → S → Prop) (newest : FS Q) (k₀ : ℕ) (s₀ : S) : ℕ → S → Prop
  | refl : Upgraded run W newest k₀ s₀ k₀ s₀
  | write {k : ℕ} {s s' : S} (h : Upgraded run W newest k₀ s₀ k s) (hw : W s s') : Upgraded run W newest k₀ s₀ k s'
  | migrate {k : ℕ} {s s' : S} {f : FileName} {sql : Q} {change : S → S} (h : Upgraded run W newest k₀ s₀ k s)
      (hf : newest.files[k]? = some f) (hsql : newest.read f = some sql) (hrun : run sql s = .ok change)
      (hw : Relation.ReflTransGen W s s') : Upgraded run W newest k₀ s₀ (k + 1) (change s')

/-- The versions that a runner knows to be recorded, and the files before it. -/
def Pc.ahead : Pc Q S → Option (List FileName × List FileName)
  | loop done _ todo => some (done, todo)
  | begun done _ f _ todo | ran done _ f _ todo | inserted done _ f _ todo => some (done, f :: todo)
  | _ => none

/-- The changes of its open transaction. -/
def Pc.changes : Pc Q S → Option (FileName × (S → S))
  | ran _ _ f change _ | inserted _ _ f change _ => some (f, change)
  | _ => none

/-- Where a runner stands when `k` migrations of `newest` are recorded: everything before it is recorded, and nothing
has been recorded since its script ran, unless it was the same version. -/
structure Placed (run : Q → S → Except ε (S → S)) (W : S → S → Prop) (newest : FS Q) (k₀ : ℕ) (s₀ : S) (k : ℕ)
    (d : Target S) (fs : FS Q) (pc : Pc Q S) : Prop where
  ahead : ∀ done todo, pc.ahead = some (done, todo) → (∀ v ∈ done, v ∈ d.recorded) ∧
    ∃ pre, fs.files = pre ++ todo ∧ ∀ g ∈ pre, version g ∈ d.recorded
  changes : ∀ f change, pc.changes = some (f, change) → version f ∉ d.recorded → ∃ s sql,
    Upgraded run W newest k₀ s₀ k s ∧ newest.read f = some sql ∧ run sql s = .ok change ∧
      Relation.ReflTransGen W s d.schema
  ended : ∀ applied, pc = .ended applied none → ∀ g ∈ fs.files, version g ∈ d.recorded

/-- The invariant of a run. -/
structure InOrder (run : Q → S → Except ε (S → S)) (W : S → S → Prop) (fs : ι → FS Q) (newest : FS Q) (k₀ : ℕ)
    (d₀ : Target S) (π : Pool ι (Target S) (Runner Q S)) (k : ℕ) : Prop where
  exclusive : Exclusive run W fs d₀ π
  recorded : π.db.recorded = (newest.files.take k).map version
  upgraded : Upgraded run W newest k₀ d₀.schema k π.db.schema
  placed : ∀ i, Placed run W newest k₀ d₀.schema k π.db (fs i) (π.procs i).pc

variable {newest : FS Q} {k₀ k : ℕ} {s₀ : S}

omit [DecidableEq ι] in
theorem InOrder.start (hd : d₀.recorded = (newest.files.take k₀).map version) :
    InOrder run W fs newest k₀ d₀ (starting d₀ fs) k₀ where
  exclusive := .start (by
    rw [hd, List.map_take]
    exact (versions_nodup newest).sublist (List.take_sublist ..))
  recorded := hd
  upgraded := .refl
  placed _ := ⟨fun _ _ h => (by cases h), fun _ _ h => (by cases h), fun _ h => (by cases h)⟩

/-- A database in which at least as much is recorded, and that other sessions alone have changed. -/
theorem Placed.mono {d d' : Target S} {fs : FS Q} {pc : Pc Q S} (h : Placed run W newest k₀ s₀ k d fs pc)
    (hr : d'.recorded = d.recorded) (hs : Relation.ReflTransGen W d.schema d'.schema) :
    Placed run W newest k₀ s₀ k d' fs pc := by
  refine ⟨fun done todo ha => ?_, fun f change hc hf => ?_, fun applied he => ?_⟩
  · rw [hr]
    exact h.ahead done todo ha
  · rw [hr] at hf
    obtain ⟨s, sql, hu, hsql, hrun, hw⟩ := h.changes f change hc hf
    exact ⟨s, sql, hu, hsql, hrun, hw.trans hs⟩
  · rw [hr]
    exact h.ended applied he

theorem ahead_of_changes {pc : Pc Q S} {f : FileName} {change : S → S} (h : pc.changes = some (f, change)) :
    ∃ done todo, pc.ahead = some (done, f :: todo) := by
  cases pc with
  | ran done applied g c todo =>
    cases h
    exact ⟨done, todo, rfl⟩
  | inserted done applied g c todo =>
    cases h
    exact ⟨done, todo, rfl⟩
  | _ => cases h

/-- Another runner's commit of the next migration. -/
theorem Placed.commit {d d' : Target S} {fs : FS Q} {pc : Pc Q S} {f : FileName}
    (h : Placed run W newest k₀ s₀ k d fs pc) (hfs : fs.Earlier newest)
    (hd : d.recorded = (newest.files.take k).map version) (hf : newest.files[k]? = some f)
    (hr : d'.recorded = d.recorded ++ [version f]) : Placed run W newest k₀ s₀ (k + 1) d' fs pc := by
  refine ⟨fun done todo ha => ?_, fun g change hc hg => ?_, fun applied he g hg => ?_⟩
  · obtain ⟨hdone, pre, hfiles, hpre⟩ := h.ahead done todo ha
    rw [hr]
    exact ⟨fun v hv => List.mem_append_left _ (hdone v hv), pre, hfiles,
      fun g hg => List.mem_append_left _ (hpre g hg)⟩
  · -- its own migration is the next one too, so it is the one that has just been recorded
    rw [hr, List.mem_append, not_or] at hg
    obtain ⟨done, todo, ha⟩ := ahead_of_changes hc
    obtain ⟨-, pre, hfiles, hpre⟩ := h.ahead _ _ ha
    rw [hd] at hpre hg
    have hnext := next_index hfs hfiles hpre hg.1
    rw [hf] at hnext
    cases hnext
    exact absurd (List.mem_singleton_self _) hg.2
  · rw [hr]
    exact List.mem_append_left _ (h.ended applied he g hg)

/-- A runner's own statement, when it records nothing. -/
theorem Placed.move {d d' : Target S} {fs : FS Q} {pc pc' : Pc Q S} (hm : Moves run fs d pc d' pc')
    (h : Placed run W newest k₀ s₀ k d fs pc) (hu : Upgraded run W newest k₀ s₀ k d.schema)
    (hsound : pc.Sound run fs) (hfs : fs.Earlier newest) (hr : d'.recorded = d.recorded) :
    Placed run W newest k₀ s₀ k d' fs pc' := by
  cases hm with
  | ensure => exact ⟨fun _ _ h => (by cases h), fun _ _ h => (by cases h), fun _ h => (by cases h)⟩
  | list hv =>
    refine ⟨fun done todo ha => ?_, fun _ _ h => (by cases h), fun _ h => (by cases h)⟩
    cases ha
    refine ⟨fun v hv' => ?_, [], rfl, by simp⟩
    rw [Target.recorded, hv]
    exact hv'
  | «return» =>
    refine ⟨fun _ _ h => (by cases h), fun _ _ h => (by cases h), fun applied he g hg => ?_⟩
    obtain ⟨-, pre, hfiles, hpre⟩ := h.ahead _ _ rfl
    rw [hfiles, List.append_nil] at hg
    exact hpre g hg
  | @skip done applied todo f hf =>
    refine ⟨fun _ _ ha => ?_, fun _ _ h => (by cases h), fun _ h => (by cases h)⟩
    cases ha
    obtain ⟨hdone, pre, hfiles, hpre⟩ := h.ahead _ _ rfl
    refine ⟨hdone, pre ++ [f], by simp [hfiles], fun g hg => ?_⟩
    rcases List.mem_append.1 hg with hg | hg
    · exact hpre g hg
    · rw [List.mem_singleton.1 hg]
      exact hdone _ hf
  | begin _ _ => exact ⟨fun _ _ ha => h.ahead _ _ ha, fun _ _ h => (by cases h), fun _ h => (by cases h)⟩
  | @exec done applied todo f sql change hrun =>
    refine ⟨fun _ _ ha => h.ahead _ _ ha, fun _ _ hc _ => ?_, fun _ h => (by cases h)⟩
    cases hc
    obtain ⟨-, pre, hfiles, -⟩ := h.ahead _ _ rfl
    have hglob : f ∈ fs.glob := mem_files.1 (by simp [hfiles])
    exact ⟨d.schema, sql, hu, (hfs.1 f hglob).2 ▸ hsound, hrun, .refl⟩
  | insert _ _ =>
    exact ⟨fun _ _ ha => h.ahead _ _ ha, fun _ _ hc hg => h.changes _ _ hc hg, fun _ h => (by cases h)⟩
  | commit => exact absurd hr (by simp [Target.recorded])
  | lost => exact absurd hr (by simp [Target.recorded])
  | fail _ _ _ => exact ⟨fun _ _ h => (by cases h), fun _ _ h => (by cases h), fun _ h => (by cases h)⟩

/-- The runner's place after its own commit. -/
theorem Placed.committed {d d' : Target S} {fs : FS Q} {done applied todo : List FileName} {f : FileName}
    {change : S → S} (h : Placed run W newest k₀ s₀ k d fs (.inserted done applied f change todo))
    (hr : d'.recorded = d.recorded ++ [version f]) (applied' : List FileName) :
    Placed run W newest k₀ s₀ (k + 1) d' fs (.loop done applied' todo) := by
  refine ⟨fun _ _ ha => ?_, fun _ _ h => (by cases h), fun _ h => (by cases h)⟩
  cases ha
  obtain ⟨hdone, pre, hfiles, hpre⟩ := h.ahead _ _ rfl
  rw [hr]
  refine ⟨fun v hv => List.mem_append_left _ (hdone v hv), pre ++ [f], by simp [hfiles], fun g hg => ?_⟩
  rcases List.mem_append.1 hg with hg | hg
  · exact List.mem_append_left _ (hpre g hg)
  · rw [List.mem_singleton.1 hg]
    exact List.mem_append_right _ (List.mem_singleton_self _)

/-- The commit of the runner `i`, whether it learns of it or not. -/
theorem InOrder.commit (h : InOrder run W fs newest k₀ d₀ π k) (hfs : ∀ i, (fs i).Earlier newest) {i : ι}
    {d : Target S} {r : Runner Q S} {n : ℕ} {done applied todo : List FileName} {f : FileName} {change : S → S}
    (hpc : (π.procs i).pc = .inserted done applied f change todo) (hs : d.schema = change π.db.schema)
    (hr : d.recorded = π.db.recorded ++ [version f])
    (hexcl : Exclusive run W fs d₀ ⟨d, n, Function.update π.procs i r⟩)
    (hown : Placed run W newest k₀ d₀.schema (k + 1) d (fs i) r.pc) :
    InOrder run W fs newest k₀ d₀ ⟨d, n, Function.update π.procs i r⟩ (k + 1) := by
  have hplaced := h.placed i
  rw [hpc] at hplaced
  have hnew : version f ∉ π.db.recorded := (h.exclusive.held i _ (by rw [hpc]; rfl)).2
  obtain ⟨-, pre, hfiles, hpre⟩ := hplaced.ahead _ _ rfl
  obtain ⟨s, sql, hu, hsql, hrun, hw⟩ := hplaced.changes f change rfl hnew
  rw [h.recorded] at hpre hnew
  have hf : newest.files[k]? = some f := next_index (hfs i) hfiles hpre hnew
  refine ⟨hexcl, ?_, ?_, ?_⟩
  · rw [hr, h.recorded, List.take_add_one, hf]
    simp
  · rw [hs]
    exact hu.migrate hf hsql hrun hw
  · apply (Function.forall_update_iff π.procs
      (p := fun j r => Placed run W newest k₀ d₀.schema (k + 1) d (fs j) r.pc)).2
    exact ⟨hown, fun j _ => (h.placed j).commit (hfs j) h.recorded hf hr⟩

theorem InOrder.move (h : InOrder run W fs newest k₀ d₀ π k) (hfs : ∀ i, (fs i).Earlier newest) {i : ι}
    {d : Target S} {r : Runner Q S} {n : ℕ} (hr : r.fs = (π.procs i).fs)
    (hm : Moves run r.fs π.db (π.procs i).pc d r.pc) :
    InOrder run W fs newest k₀ d₀ ⟨d, n, Function.update π.procs i r⟩ k ∨
      InOrder run W fs newest k₀ d₀ ⟨d, n, Function.update π.procs i r⟩ (k + 1) := by
  have hexcl := h.exclusive.move (n := n) hr hm
  have hfsi : r.fs = fs i := hr.trans (h.exclusive.fs_eq i)
  rw [hfsi] at hm
  have hquiet : d.recorded = π.db.recorded → d.schema = π.db.schema →
      InOrder run W fs newest k₀ d₀ ⟨d, n, Function.update π.procs i r⟩ k := by
    intro hrec hs
    refine ⟨hexcl, hrec.trans h.recorded, hs ▸ h.upgraded, ?_⟩
    apply (Function.forall_update_iff π.procs
      (p := fun j r => Placed run W newest k₀ d₀.schema k d (fs j) r.pc)).2
    exact ⟨(h.placed i).move hm h.upgraded (h.exclusive.sound i) (hfs i) hrec,
      fun j _ => (h.placed j).mono hrec (hs ▸ .refl)⟩
  obtain ⟨fs', pc⟩ := r
  dsimp only at hm
  generalize hpc : (π.procs i).pc = pc₀ at hm
  have hplaced := h.placed i
  rw [hpc] at hplaced
  cases hm with
  | commit => exact .inr (h.commit hfs hpc rfl rfl hexcl (hplaced.committed rfl _))
  | lost =>
    refine .inr (h.commit hfs hpc rfl rfl hexcl ?_)
    exact ⟨fun _ _ h => (by cases h), fun _ _ h => (by cases h), fun _ h => (by cases h)⟩
  | fail hs hrec _ => exact .inl (hquiet hrec hs)
  | _ => exact .inl (hquiet rfl rfl)

omit [DecidableEq ι] in
theorem InOrder.others (h : InOrder run W fs newest k₀ d₀ π k) {d : Target S} (hw : Migrate.others W π.db d) :
    InOrder run W fs newest k₀ d₀ ⟨d, π.seq, π.procs⟩ k := by
  have hr : d.recorded = π.db.recorded := by
    unfold Target.recorded
    rw [hw.2.1]
  exact ⟨h.exclusive.others hw, hr.trans h.recorded, h.upgraded.write hw.1,
    fun j => (h.placed j).mono hr (.single hw.1)⟩

/-- Runners of earlier releases beside runners of the newest one: the recorded versions are the first ones of the
newest release, the schema went through their scripts one after another, and where `Apply` returns without an error,
every migration of its release is recorded. -/
theorem migrations_in_order (hfs : ∀ i, (fs i).Earlier newest) (hd : d₀.recorded = (newest.files.take k₀).map version)
    (h : Pool.Runs (exec run fate) (Migrate.others W) (fun _ _ => True) (starting d₀ fs) π) :
    ∃ k, π.db.recorded = (newest.files.take k).map version ∧ Upgraded run W newest k₀ d₀.schema k π.db.schema ∧
      ∀ i applied, (π.procs i).pc = .ended applied none → ∀ f ∈ (fs i).files, version f ∈ π.db.recorded := by
  obtain ⟨k, hk⟩ : ∃ k, InOrder run W fs newest k₀ d₀ π k := by
    refine runs_invariant (I := fun π => ∃ k, InOrder run W fs newest k₀ d₀ π k) h ⟨k₀, .start hd⟩ ?_ ?_
    · rintro π i d r n ⟨k, hk⟩ hr hm
      rcases hk.move hfs hr hm with hnext | hnext
      · exact ⟨k, hnext⟩
      · exact ⟨k + 1, hnext⟩
    · rintro π d ⟨k, hk⟩ hw
      exact ⟨k, hk.others hw⟩
  exact ⟨k, hk.recorded, hk.upgraded, fun i applied he => (hk.placed i).ended applied he⟩

/-- The newer server finds that the older one has run the first migration, and does not start. -/
theorem migrations_in_order_both : ∃ π : Pool Bool (Target (List ℕ)) (Runner ℕ (List ℕ)),
    Pool.play (exec createTable fun _ => .runs) (fun _ _ => true) startup (starting emptyTarget releases) = some π ∧
    π.db.recorded = [version firstFile] ∧ ∃ k, π.db.recorded = (release.files.take k).map version ∧
      Upgraded createTable (fun _ _ => False) release 0 emptyTarget.schema k π.db.schema ∧
      ∀ i applied, (π.procs i).pc = .ended applied none → ∀ f ∈ (releases i).files, version f ∈ π.db.recorded := by
  have hplay : (Pool.play (exec createTable fun _ => .runs) (fun _ _ => true) startup
      (starting emptyTarget releases)).map (·.db.recorded) = some [version firstFile] := by decide +kernel
  obtain ⟨π, hπ, hrec⟩ := Option.map_eq_some_iff.1 hplay
  have hruns : Pool.Runs (exec createTable fun _ => .runs) (Migrate.others fun _ _ => False) (fun _ _ => True)
      (starting emptyTarget releases) π := (Pool.runs_play hπ).mono fun _ _ _ => trivial
  have hearlier : ∀ i, (releases i).Earlier release := by
    unfold FS.Earlier
    decide +kernel
  have hnothing : emptyTarget.recorded = (release.files.take 0).map version := by decide
  exact ⟨π, hπ, hrec, migrations_in_order hearlier hnothing hruns⟩

/-! ### A runner alone -/

/-- A runner with the files `fs` goes from one place to another, and nothing else happens. -/
def Alone (run : Q → S → Except ε (S → S)) (fs : FS Q) : Target S × Pc Q S → Target S × Pc Q S → Prop :=
  Relation.ReflTransGen fun x y => x.2.next run fs x.1 = some y

/-- What the migration `f` makes of a schema. -/
def FS.effect (fs : FS Q) (run : Q → S → Except ε (S → S)) (s : S) (f : FileName) : Option S :=
  (fs.read f).bind fun sql => (run sql s).toOption.map fun change => change s

/-- A runner went through the migrations `todo`: `ran` is what it applied, and `err` what stopped it, if anything. -/
structure Finished (run : Q → S → Except ε (S → S)) (fs : FS Q) (todo : List FileName) (d d' : Target S)
    (ran : List FileName) (err : Option ApplyErr) : Prop where
  first : ran <+: todo
  recorded : d'.versions = some (d.recorded ++ ran.map version)
  inserting : d'.inserting = []
  schema : ran.foldlM (fs.effect run) d.schema = some d'.schema
  all : err = none → ran = todo
  stopped : ∀ e, err = some e → ∃ f, todo[ran.length]? = some f ∧ fs.effect run d'.schema f = none ∧
    e = if (fs.read f).isSome then .apply (version f) else .read f

/-- The migration `f` runs and is recorded. -/
theorem alone_applies {fs : FS Q} {d : Target S} {vs done : List FileName} (applied todo : List FileName)
    {f : FileName} {sql : Q} {change : S → S} (hv : d.versions = some vs) (hi : d.inserting = []) (hdone : version f ∉ done)
    (hnew : version f ∉ vs) (hsql : fs.read f = some sql) (hrun : run sql d.schema = .ok change) :
    Alone run fs (d, .loop done applied (f :: todo))
      (⟨change d.schema, some (vs ++ [version f]), []⟩, .loop done (applied ++ [version f]) todo) := by
  have hrec : d.recorded = vs := by simp [Target.recorded, hv]
  have hbegin : (Pc.loop done applied (f :: todo)).next run fs d = some (d, .begun done applied f sql todo) := by
    simp [Pc.next, hdone, hsql]
  have hexec : (Pc.begun done applied f sql todo).next run fs d = some (d, .ran done applied f change todo) := by
    simp [Pc.next, hrun]
  have hinsert : (Pc.ran done applied f change todo : Pc Q S).next run fs d =
      some ({ d with inserting := [version f] }, .inserted done applied f change todo) := by
    simp [Pc.next, hi, hv, hrec, hnew]
  have hcommit : (Pc.inserted done applied f change todo : Pc Q S).next run fs { d with inserting := [version f] } =
      some (⟨change d.schema, some (vs ++ [version f]), []⟩, .loop done (applied ++ [version f]) todo) := by
    simp [Pc.next, Target.recorded, hv]
  exact .head hbegin (.head hexec (.head hinsert (.single hcommit)))

/-- The loop over the files that are left. -/
theorem alone_loop (run : Q → S → Except ε (S → S)) (fs : FS Q) {vs todo : List FileName}
    (done applied : List FileName) {d : Target S}
    (hv : d.versions = some vs) (hi : d.inserting = []) (hnodup : (todo.map version).Nodup)
    (hdone : ∀ f ∈ todo, version f ∈ done ↔ version f ∈ vs) :
    ∃ d' ran err, Alone run fs (d, .loop done applied todo) (d', .ended (applied ++ ran.map version) err) ∧
      Finished run fs (todo.filter fun f => version f ∉ vs) d d' ran err := by
  induction todo generalizing applied d vs with
  | nil =>
    refine ⟨d, [], none, .single (by simp [Pc.next]), ⟨⟨_, rfl⟩, ?_, hi, rfl, fun _ => rfl, fun e h => ?_⟩⟩
    · simp [Target.recorded, hv]
    · cases h
  | cons f todo ih =>
    have hrec : d.recorded = vs := by simp [Target.recorded, hv]
    rw [List.map_cons, List.nodup_cons] at hnodup
    have htail : ∀ g ∈ todo, version g ∈ done ↔ version g ∈ vs := fun g hg => hdone g (List.mem_cons_of_mem _ hg)
    by_cases hf : version f ∈ vs
    · have hskip : (Pc.loop done applied (f :: todo)).next run fs d = some (d, .loop done applied todo) := by
        simp [Pc.next, (hdone f (List.mem_cons_self ..)).2 hf]
      obtain ⟨d', ran, err, halone, hfin⟩ := ih applied hv hi hnodup.2 htail
      refine ⟨d', ran, err, .head hskip halone, ?_⟩
      rwa [List.filter_cons_of_neg (by simpa using hf)]
    · have hnot : version f ∉ done := fun hd => hf ((hdone f (List.mem_cons_self ..)).1 hd)
      rw [List.filter_cons_of_pos (by simpa using hf)]
      -- a migration that cannot run ends the loop with the database as it is
      have hstop : ∀ e, (fs.effect run d.schema f = none ∧
          e = if (fs.read f).isSome then ApplyErr.apply (version f) else .read f) →
          Finished run fs (f :: todo.filter fun f => version f ∉ vs) d d [] (some e) := by
        intro e he
        refine ⟨⟨_, rfl⟩, by simp [hv, hrec], hi, rfl, fun h => (by cases h), fun e' h' => ?_⟩
        cases h'
        exact ⟨f, rfl, he⟩
      cases hsql : fs.read f with
      | none =>
        have hread : (Pc.loop done applied (f :: todo)).next run fs d = some (d, .ended applied (some (.read f))) := by
          simp [Pc.next, hnot, hsql]
        refine ⟨d, [], some (.read f), .single (by simpa using hread), hstop _ ?_⟩
        simp [FS.effect, hsql]
      | some sql =>
        cases hrun : run sql d.schema with
        | error e =>
          have hbegin : (Pc.loop done applied (f :: todo)).next run fs d =
              some (d, .begun done applied f sql todo) := by
            simp [Pc.next, hnot, hsql]
          have hexec : (Pc.begun done applied f sql todo).next run fs d =
              some (d, .ended applied (some (.apply (version f)))) := by
            simp [Pc.next, hrun]
          refine ⟨d, [], some (.apply (version f)), .head hbegin (.single (by simpa using hexec)), hstop _ ?_⟩
          simp [FS.effect, hsql, hrun, Except.toOption]
        | ok change =>
          have happly := alone_applies applied todo hv hi hnot hf hsql hrun
          have hnext : ∀ g ∈ todo, version g ∈ done ↔ version g ∈ vs ++ [version f] := by
            intro g hg
            have hne : version g ≠ version f := fun h => hnodup.1 (h ▸ List.mem_map_of_mem hg)
            simp [htail g hg, hne]
          obtain ⟨d', ran, err, halone, hfin⟩ := ih (applied ++ [version f])
            (d := ⟨change d.schema, some (vs ++ [version f]), []⟩) rfl rfl hnodup.2 hnext
          have hfilter : (todo.filter fun g => version g ∉ vs ++ [version f]) =
              todo.filter fun g => version g ∉ vs := by
            refine List.filter_congr fun g hg => ?_
            have hne : version g ≠ version f := fun h => hnodup.1 (h ▸ List.mem_map_of_mem hg)
            simp [hne]
          rw [hfilter] at hfin
          refine ⟨d', f :: ran, err, happly.trans (by simpa [Alone] using halone), ?_⟩
          refine ⟨List.cons_prefix_cons.2 ⟨rfl, hfin.first⟩, ?_, hfin.inserting, ?_, fun h => ?_, fun e h => ?_⟩
          · rw [hfin.recorded]
            simp [Target.recorded, hv]
          · simpa [FS.effect, hsql, hrun, Except.toOption] using hfin.schema
          · rw [hfin.all h]
          · simpa using hfin.stopped e h

/-- `Apply` alone, in a build that has migrations. -/
theorem alone_finishes (run : Q → S → Except ε (S → S)) {fs : FS Q} {d : Target S} (hi : d.inserting = []) (hne : fs.files ≠ []) :
    ∃ d' ran err, Alone run fs (d, .start) (d', .ended (ran.map version) err) ∧
      Finished run fs (fs.files.filter fun f => version f ∉ d.recorded) d d' ran err := by
  have hensure : (Pc.start : Pc Q S).next run fs d = some ({ d with versions := some d.recorded }, .ensured) := rfl
  have hlist : (Pc.ensured : Pc Q S).next run fs { d with versions := some d.recorded } =
      some ({ d with versions := some d.recorded }, .loop d.recorded [] fs.files) := by
    simp [Pc.next, hne]
  obtain ⟨d', ran, err, halone, hfin⟩ := alone_loop run fs d.recorded []
    (d := { d with versions := some d.recorded }) rfl hi (versions_nodup fs) fun _ _ => Iff.rfl
  refine ⟨d', ran, err, .head hensure (.head hlist (by simpa [Alone] using halone)), ?_⟩
  exact ⟨hfin.first, by simpa [Target.recorded] using hfin.recorded, hfin.inserting, hfin.schema, hfin.all, hfin.stopped⟩

/-- `Apply` alone always comes to an end.  It runs the migrations that are not recorded, in order, up to the first one
that fails, and leaves no trace of that one; without an error, a second `Apply` finds nothing to do. -/
theorem apply_alone (fs : FS Q) {d : Target S} (hi : d.inserting = []) :
    (fs.files = [] ∧ ∃ d', Alone run fs (d, .start) (d', .ended [] (some .noFiles)) ∧ d'.schema = d.schema ∧
      d'.recorded = d.recorded) ∨
    ∃ d' ran err, Alone run fs (d, .start) (d', .ended (ran.map version) err) ∧
      Finished run fs (fs.files.filter fun f => version f ∉ d.recorded) d d' ran err ∧
      (err = none → Alone run fs (d', .start) (d', .ended [] none)) := by
  by_cases hfiles : fs.files = []
  · have hensure : (Pc.start : Pc Q S).next run fs d = some ({ d with versions := some d.recorded }, .ensured) := rfl
    have hlist : (Pc.ensured : Pc Q S).next run fs { d with versions := some d.recorded } =
        some ({ d with versions := some d.recorded }, .ended [] (some .noFiles)) := by
      simp [Pc.next, hfiles]
    exact .inl ⟨hfiles, _, .head hensure (.single hlist), rfl, rfl⟩
  · obtain ⟨d', ran, err, halone, hfin⟩ := alone_finishes run hi hfiles
    refine .inr ⟨d', ran, err, halone, hfin, fun herr => ?_⟩
    obtain ⟨d₂, ran₂, err₂, halone₂, hfin₂⟩ := alone_finishes run (d := d') hfin.inserting hfiles
    have hrec : d'.recorded = d.recorded ++ ran.map version := by simp [Target.recorded, hfin.recorded]
    have hnone : (fs.files.filter fun f => version f ∉ d'.recorded) = [] := by
      refine List.filter_eq_nil_iff.2 fun f hf => ?_
      by_cases hd : version f ∈ d.recorded
      · simp [hrec, hd]
      · have hran : f ∈ ran := by
          rw [hfin.all herr]
          exact List.mem_filter.2 ⟨hf, by simpa using hd⟩
        have hmem : version f ∈ d'.recorded := by
          rw [hrec]
          exact List.mem_append_right _ (List.mem_map_of_mem hran)
        simp [hmem]
    rw [hnone] at hfin₂
    have hran₂ : ran₂ = [] := List.prefix_nil.1 hfin₂.first
    subst hran₂
    have herr₂ : err₂ = none := by
      cases err₂ with
      | none => rfl
      | some e =>
        obtain ⟨f, hf, -⟩ := hfin₂.stopped e rfl
        cases hf
    have hd : d₂ = d' := by
      have hs := hfin₂.schema
      have hv := hfin₂.recorded
      have hi₂ := hfin₂.inserting
      have hv' := hfin.recorded
      have hi' := hfin.inserting
      obtain ⟨s₂, v₂, i₂⟩ := d₂
      obtain ⟨s', v', i'⟩ := d'
      simp_all [Target.recorded]
    rw [herr₂, hd] at halone₂
    exact halone₂

theorem apply_alone_release : release.files ≠ [] ∧
    ((release.files = [] ∧ ∃ d', Alone createTable release (emptyTarget, .start) (d', .ended [] (some .noFiles)) ∧
      d'.schema = emptyTarget.schema ∧ d'.recorded = emptyTarget.recorded) ∨
    ∃ d' ran err, Alone createTable release (emptyTarget, .start) (d', .ended (ran.map version) err) ∧
      Finished createTable release (release.files.filter fun f => version f ∉ emptyTarget.recorded) emptyTarget d' ran
        err ∧ (err = none → Alone createTable release (d', .start) (d', .ended [] none))) :=
  ⟨by decide +kernel, apply_alone release rfl⟩

end Migrate
