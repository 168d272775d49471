import Mathlib.Data.Char
import Mathlib.Data.List.Infix
import Mathlib.Data.List.Lex
import Mathlib.Data.List.Sort
import Tadmor.Store.Autocommit

/-!
# The migration runner

`Apply` of internal/db/migrate.go, one statement at a time.  Every server that starts runs it, so several runners may
work on one database.  A script runs in a transaction together with the row that records its version: what it changes
and the row become visible with the commit.
-/

namespace Migrate

/-- The name of a file, or the version it stands for. -/
abbrev FileName := List Char

def upSuffix : FileName := ".up.sql".toList

/-- The files at the root of an `fs.FS`, and what reading one of them gives. -/
structure FS (Q : Type) where
  names : List FileName
  nodup : names.Nodup
  read : FileName → Option Q

variable {Q S ε : Type}

/-- `fs.Glob(fsys, "*.up.sql")` -/
def FS.glob (fs : FS Q) : List FileName := fs.names.filter fun f => upSuffix.isSuffixOf f

/-- The migrations in the order in which they run. -/
def FS.files (fs : FS Q) : List FileName := fs.glob.insertionSort (· ≤ ·)

/-- `strings.TrimSuffix(f, ".up.sql")` -/
def version (f : FileName) : FileName :=
  if upSuffix.isSuffixOf f then f.take (f.length - upSuffix.length) else f

/-- What a runner sees of a database: everything but the table `schema_migrations`, the versions recorded in that table
if it exists, and the versions that open transactions have inserted. -/
structure Target (S : Type) where
  schema : S
  versions : Option (List FileName)
  inserting : List FileName

def Target.recorded (d : Target S) : List FileName := d.versions.getD []

/-- The errors of `Apply`. -/
inductive ApplyErr where
  | ensure
  | readApplied
  | noFiles
  | read (f : FileName)
  | apply (version : FileName)
deriving DecidableEq

/-- Where a runner stands.  `done` is what `appliedVersions` read, `applied` what the runner has committed. -/
inductive Pc (Q S : Type) where
  | start
  | ensured
  | loop (done applied todo : List FileName)
  | begun (done applied : List FileName) (f : FileName) (sql : Q) (todo : List FileName)
  | ran (done applied : List FileName) (f : FileName) (change : S → S) (todo : List FileName)
  | inserted (done applied : List FileName) (f : FileName) (change : S → S) (todo : List FileName)
  | ended (applied : List FileName) (err : Option ApplyErr)

namespace Pc

def applied : Pc Q S → List FileName
  | start | ensured => []
  | loop _ applied _ | begun _ applied .. | ran _ applied .. | inserted _ applied .. | ended applied _ => applied

/-- The version that its open transaction has inserted. -/
def holds : Pc Q S → Option FileName
  | inserted _ _ f _ _ => some (version f)
  | _ => none

/-- `tx.Rollback` -/
def rollback (pc : Pc Q S) (d : Target S) : Target S :=
  match pc.holds with
  | some v => { d with inserting := d.inserting.erase v }
  | none => d

/-- The error that `Apply` wraps a failure of its next statement in. -/
def failure (fs : FS Q) : Pc Q S → Option ApplyErr
  | start => some .ensure
  | ensured => some .readApplied
  | loop _ _ [] => none
  | loop done _ (f :: _) =>
    if version f ∈ done then none else if (fs.read f).isSome then some (.apply (version f)) else some (.read f)
  | begun _ _ f .. | ran _ _ f .. | inserted _ _ f .. => some (.apply (version f))
  | ended .. => none

/-- The next statement of a runner, when the connection holds.  `run sql s` is what a script does to `s`. -/
def next (run : Q → S → Except ε (S → S)) (fs : FS Q) : Pc Q S → Target S → Option (Target S × Pc Q S)
  | start, d => some ({ d with versions := some d.recorded }, ensured)
  | ensured, d =>
    match d.versions with
    | none => some (d, ended [] (some .readApplied))
    | some done => if fs.files = [] then some (d, ended [] (some .noFiles)) else some (d, loop done [] fs.files)
  | loop _ applied [], d => some (d, ended applied none)
  | loop done applied (f :: todo), d =>
    if version f ∈ done then some (d, loop done applied todo)
    else
      match fs.read f with
      | none => some (d, ended applied (some (.read f)))
      | some sql => some (d, begun done applied f sql todo)
  | begun done applied f sql todo, d =>
    match run sql d.schema with
    | .error _ => some (d, ended applied (some (.apply (version f))))
    | .ok change => some (d, ran done applied f change todo)
  | ran done applied f change todo, d =>
    -- the insertion waits for the end of a transaction that has inserted the same key
    if version f ∈ d.inserting then none
    else if d.versions = none ∨ version f ∈ d.recorded then some (d, ended applied (some (.apply (version f))))
    else some ({ d with inserting := version f :: d.inserting }, inserted done applied f change todo)
  | inserted done applied f change todo, d =>
    some (⟨change d.schema, some (d.recorded ++ [version f]), d.inserting.erase (version f)⟩,
      loop done (applied ++ [version f]) todo)
  | ended .., _ => none

end Pc

/-- What becomes of a statement: it runs, it fails, or it runs and its answer is lost. -/
inductive Fate where
  | runs
  | fails
  | lost
deriving DecidableEq

/-- A runner with the files built into its program. -/
structure Runner (Q S : Type) where
  fs : FS Q
  pc : Pc Q S

/-- The `n`-th statement, `r`'s. -/
def exec (run : Q → S → Except ε (S → S)) (fate : ℕ → Fate) (n : ℕ) (r : Runner Q S) (d : Target S) :
    Option (Target S × Runner Q S) :=
  match fate n with
  | .runs => (r.pc.next run r.fs d).map fun x => (x.1, { r with pc := x.2 })
  | .fails => (r.pc.failure r.fs).map fun e => (r.pc.rollback d, { r with pc := .ended r.pc.applied (some e) })
  | .lost => (r.pc.failure r.fs).bind fun e => (r.pc.next run r.fs d).map fun x =>
      (x.2.rollback x.1, { r with pc := .ended r.pc.applied (some e) })

/-- Other sessions change rows as `W` lets them, and leave `schema_migrations` alone. -/
def others (W : S → S → Prop) (d d' : Target S) : Prop :=
  W d.schema d'.schema ∧ d'.versions = d.versions ∧ d'.inserting = d.inserting

/-- The runners at their start. -/
def starting {ι : Type} (d : Target S) (fs : ι → FS Q) : Pool ι (Target S) (Runner Q S) :=
  ⟨d, 0, fun i => ⟨fs i, .start⟩⟩

end Migrate
