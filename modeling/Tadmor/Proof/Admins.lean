import Mathlib.Data.Fin.VecNotation
import Tadmor.Proof.Auth

/-!
# Administrators

The guard of an update compares its target with the caller, whose own rights are those `requireAuth` read.  As long as
the caller of every update that takes rights away still has them when the update runs, an administrator remains.
-/

namespace Auth

/-- The user `k` is an active administrator. -/
def DB.ActiveAdmin (db : DB) (k : ℕ) : Prop :=
  ∃ u, db.users.find? k = some u ∧ u.isActive = true ∧ u.isAdmin = true

/-- Not the command line. -/
def Request.overApi : Request → Bool
  | .adduser .. => false
  | _ => true

/-- What the handlers guarantee of a process: it is not the command line, and it does not take rights from its own
caller. -/
def Proc.Guarded : Proc → Prop
  | .updateUser me id _ _ isActive isAdmin => me = id → (isActive && isAdmin) = true
  | .upsertUser .. => False
  | _ => True

section steps

variable {pw : Passwords} {n k : ℕ} {p q : Proc} {db d : DB}

theorem guarded_start {r : Request} (h : r.overApi = true) : (r.start pw).Guarded := by
  cases r with
  | login email password token =>
    rw [Request.start]
    split
    · trivial
    · trivial
  | logout cookie => cases cookie <;> trivial
  | api cookie action => cases cookie <;> trivial
  | adduser => cases h

/-- The handler refuses self-deactivation and self-demotion. -/
theorem guarded_handle (me : User) (action : Action) : (action.handle pw me).Guarded := by
  unfold Action.handle
  split
  · trivial
  cases action with
  | createUser email fullName password salt isAdmin =>
    dsimp only
    split <;> trivial
  | updateUser id email fullName isActive isAdmin =>
    dsimp only
    split
    · trivial
    split
    · trivial
    split
    · trivial
    · rename_i hactive hadmin
      intro hid
      simp only [hid, decide_true, Bool.true_and, Bool.not_eq_true', Bool.not_eq_false] at hactive hadmin
      rw [hactive, hadmin]
      rfl
  | setUserPassword id password salt =>
    dsimp only
    split <;> trivial

theorem Exec.guarded (h : Exec pw n db p d q) : q.Guarded := by
  cases h with
  | authorized _ action => exact guarded_handle _ action
  | _ => trivial

/-- An administrator loses the rights only to an update that takes them. -/
theorem Exec.activeAdmin (h : Exec pw n db p d q) (hp : p.Guarded) {k : ℕ} (hk : db.ActiveAdmin k) :
    d.ActiveAdmin k ∨ ∃ me email fullName isActive isAdmin,
      p = .updateUser me k email fullName isActive isAdmin ∧ (isActive && isAdmin) = false := by
  obtain ⟨u, hu, hactive, hadmin⟩ := hk
  obtain ⟨u', hu', hsame | ⟨me, email, fullName, rfl⟩ | ⟨_, _, _, rfl, -⟩⟩ := h.find_user hu
  · exact .inl ⟨u', hu', hsame.1.trans hactive, hsame.2.trans hadmin⟩
  · by_cases hkept : (u'.isActive && u'.isAdmin) = true
    · rw [Bool.and_eq_true] at hkept
      exact .inl ⟨u', hu', hkept⟩
    · exact .inr ⟨me, email, fullName, _, _, rfl, by simpa using hkept⟩
  · exact hp.elim

end steps

variable {ι : Type} [DecidableEq ι] {pw : Passwords}

/-- A process that is about to take rights from its target still has a caller that is an active administrator. -/
def CallerKeepsRights (π : Pool ι DB Proc) (i : ι) : Prop :=
  ∀ me id email fullName isActive isAdmin, π.procs i = .updateUser me id email fullName isActive isAdmin →
    (isActive && isAdmin) = false → π.db.ActiveAdmin me

/-- An administrator remains in every run of requests over the API in which the caller of an update that takes rights
away keeps its own until the update runs. -/
theorem active_admin_remains {reqs : ι → Request} (hreqs : ∀ i, (reqs i).overApi = true) {db : DB} {seq : ℕ}
    (hadmin : ∃ k, db.ActiveAdmin k) {π : Pool ι DB Proc}
    (hrun : Pool.Runs (exec pw) Tick CallerKeepsRights (serve pw db seq reqs) π) : ∃ k, π.db.ActiveAdmin k := by
  have hinv : (∀ i, (π.procs i).Guarded) ∧ ∃ k, π.db.ActiveAdmin k := by
    refine hrun.invariant (I := fun π => (∀ i, (π.procs i).Guarded) ∧ ∃ k, π.db.ActiveAdmin k)
      ⟨fun i => guarded_start (hreqs i), hadmin⟩ ?_ ?_
    · rintro π i n d p ⟨hg, k, hk⟩ hC - he
      have he := exec_cases he
      refine ⟨(Function.forall_update_iff π.procs fun _ q => q.Guarded).2 ⟨he.guarded, fun j _ => hg j⟩, ?_⟩
      · rcases he.activeAdmin (hg i) hk with hk | ⟨me, email, fullName, isActive, isAdmin, hp, hflags⟩
        · exact ⟨k, hk⟩
        -- the target loses its rights, and the caller is somebody else
        · have hme := hC me k email fullName isActive isAdmin hp hflags
          have hne : me ≠ k := by
            intro e
            have hgi := hg i
            rw [hp] at hgi
            rw [hgi e] at hflags
            cases hflags
          rcases he.activeAdmin (hg i) hme with hme | ⟨_, _, _, _, _, hp', -⟩
          · exact ⟨me, hme⟩
          · rw [hp] at hp'
            injection hp' with _ e
            exact absurd e.symm hne
    · rintro π d ⟨hg, k, hk⟩ ⟨t, -, rfl⟩
      exact ⟨hg, k, hk⟩
  exact hinv.2

/-! ### Two administrators -/

/-- Administrators 1 and 2, each with a session that has the number of its user. -/
def twoAdmins : DB where
  users := ⟨[⟨1, "ann@x.org", "Ann", "first secret", true, true⟩, ⟨2, "bob@x.org", "Bob", "other secret", true, true⟩],
    by decide⟩
  sessions := twoSessions
  now := 0

def demoteBob : Request := .api (some 1) (.updateUser 2 "bob@x.org" "Bob" true false)

def deactivateAnn : Request := .api (some 2) (.updateUser 1 "ann@x.org" "Ann" false true)

instance (db : DB) (k : ℕ) : Decidable (db.ActiveAdmin k) :=
  decidable_of_iff ((db.users.find? k).any fun u => u.isActive && u.isAdmin) (by
    simp only [Option.any_eq_true, Bool.and_eq_true, DB.ActiveAdmin])

/-- The check of `CallerKeepsRights`. -/
def callerKeepsRights (π : Pool (Fin 2) DB Proc) (i : Fin 2) : Bool :=
  match π.procs i with
  | .updateUser me _ _ _ isActive isAdmin => isActive && isAdmin || decide (π.db.ActiveAdmin me)
  | _ => true

theorem callerKeepsRights_sound {π : Pool (Fin 2) DB Proc} {i : Fin 2} (h : callerKeepsRights π i = true) :
    CallerKeepsRights π i := by
  intro me id email fullName isActive isAdmin hp hflags
  simpa [callerKeepsRights, hp, hflags] using h

/-- Ann demotes Bob before Bob's request is authorized. -/
theorem active_admin_remains_ordered : ∃ π : Pool (Fin 2) DB Proc,
    π.procs 0 = .done { status := 204 } ∧ π.procs 1 = .done ⟨403, "administrator access required"⟩ ∧
      ∃ k, π.db.ActiveAdmin k := by
  have h : (Pool.play (exec plainText) callerKeepsRights [0, 0, 1] (serve plainText twoAdmins 3 ![demoteBob, deactivateAnn])).any
      (fun π => π.procs 0 = .done { status := 204 } ∧ π.procs 1 = .done ⟨403, "administrator access required"⟩) = true := by
    decide +kernel
  obtain ⟨π, hπ, hp⟩ := (Option.any_eq_true ..).1 h
  obtain ⟨h0, h1⟩ := of_decide_eq_true hp
  exact ⟨π, h0, h1, active_admin_remains (by decide) ⟨1, by decide⟩
    ((Pool.runs_play hπ).mono fun _ _ => callerKeepsRights_sound)⟩

/-- Both requests are authorized before either writes. -/
theorem no_admin_remains : ¬∀ (reqs : Fin 2 → Request) (db : DB) (seq : ℕ) (π : Pool (Fin 2) DB Proc),
    (∀ i, (reqs i).overApi = true) → (∃ k, db.ActiveAdmin k) →
      Pool.Runs (exec plainText) Tick (fun _ _ => True) (serve plainText db seq reqs) π → ∃ k, π.db.ActiveAdmin k := by
  intro hall
  have h : (Pool.play (exec plainText) (fun _ _ => true) [0, 1, 0, 1] (serve plainText twoAdmins 3 ![demoteBob, deactivateAnn])).any
      (fun π => ∀ u ∈ π.db.users.rows, (u.isActive && u.isAdmin) = false) = true := by decide +kernel
  obtain ⟨π, hπ, hp⟩ := (Option.any_eq_true ..).1 h
  obtain ⟨k, u, hu, hactive, hadmin⟩ := hall _ _ _ π (by decide) ⟨1, by decide⟩
    ((Pool.runs_play hπ).mono fun _ _ _ => trivial)
  have hnone := of_decide_eq_true hp u (Table.mem_of_find? hu)
  rw [hactive, hadmin] at hnone
  cases hnone

end Auth
