import Mathlib.Data.Fin.VecNotation
import Tadmor.Proof.Auth

/-!
# Sessions

A token is accepted as long as its session is stored and not expired and its user is active.  Logout and the reset of
a password delete sessions; deactivation and expiry leave them.  So an ended session comes back when its user is
activated again, and a reset ends only the sessions that are stored when its second statement runs.
-/

namespace Auth

/-- The token the login draws. -/
def Request.token : Request → Option ℕ
  | .login _ _ token => some token
  | _ => none

/-- The token the process may still insert. -/
def Proc.token : Proc → Option ℕ
  | .credentials _ _ token => some token
  | .pruneSessions _ token => some token
  | .insertSession _ token => some token
  | _ => none

/-- Random tokens: no two logins draw the same one, and none is in use. -/
structure TokensFresh {ι : Type} (db : DB) (reqs : ι → Request) : Prop where
  distinct : ∀ i j token, (reqs i).token = some token → (reqs j).token = some token → i = j
  unused : ∀ i token, (reqs i).token = some token → db.sessions.find? token = none

/-- The same of the tokens that processes may still insert. -/
structure TokensOk {ι : Type} (π : Pool ι DB Proc) : Prop where
  distinct : ∀ i j token, (π.procs i).token = some token → (π.procs j).token = some token → i = j
  unused : ∀ i token, (π.procs i).token = some token → π.db.sessions.find? token = none

section steps

variable {pw : Passwords} {n : ℕ} {p q : Proc} {db d : DB}

theorem token_start {r : Request} {token : ℕ} (h : (r.start pw).token = some token) : r.token = some token := by
  cases r with
  | login email password t =>
    rw [Request.start] at h
    split at h
    · cases h
    · exact h
  | logout cookie => cases cookie <;> cases h
  | api cookie action => cases cookie <;> cases h
  | adduser email fullName password salt isAdmin =>
    rw [Request.start] at h
    split at h
    · cases h
    split at h
    · cases h
    · cases h

theorem token_handle (me : User) (action : Action) : (action.handle pw me).token = none := by
  unfold Action.handle
  split
  · rfl
  cases action with
  | createUser email fullName password salt isAdmin =>
    dsimp only
    split <;> rfl
  | updateUser id email fullName isActive isAdmin =>
    dsimp only
    split
    · rfl
    split
    · rfl
    split <;> rfl
  | setUserPassword id password salt =>
    dsimp only
    split <;> rfl

/-- A process keeps its token or drops it. -/
theorem Exec.token (h : Exec pw n db p d q) {token : ℕ} (hq : q.token = some token) : p.token = some token := by
  cases h with
  | verified => exact hq
  | pruned => exact hq
  | authorized _ action =>
    rw [token_handle] at hq
    cases hq
  | _ => cases hq

theorem Exec.find_session (h : Exec pw n db p d q) {token : ℕ} {s : Session} (hs : d.sessions.find? token = some s) :
    db.sessions.find? token = some s ∨ p = .insertSession s.userId token ∧ q.token = none := by
  obtain rfl : s.tokenHash = token := Table.key_of_find? hs
  rcases h.mem_session (Table.mem_of_find? hs) with hm | ⟨hp, rfl⟩
  · have hf : db.sessions.find? s.tokenHash = some s := Table.find?_key hm
    exact .inl hf
  · exact .inr ⟨hp, rfl⟩

end steps

section pools

variable {ι : Type} [DecidableEq ι] {pw : Passwords} {π π' : Pool ι DB Proc}

omit [DecidableEq ι] in
theorem tokensOk_serve {reqs : ι → Request} {db : DB} {seq : ℕ} (h : TokensFresh db reqs) :
    TokensOk (serve pw db seq reqs) :=
  ⟨fun i j token hi hj => h.distinct i j token (token_start hi) (token_start hj),
    fun i token hi => h.unused i token (token_start hi)⟩

theorem TokensOk.stmt (h : TokensOk π) {i : ι} {n : ℕ} {d : DB} {p : Proc} (he : Exec pw n π.db (π.procs i) d p) :
    TokensOk ⟨d, n + 1, Function.update π.procs i p⟩ := by
  have hold : ∀ j token, (Function.update π.procs i p j).token = some token → (π.procs j).token = some token := by
    intro j token hj
    by_cases hji : j = i
    · subst hji
      rw [Function.update_self] at hj
      exact he.token hj
    · rwa [Function.update_of_ne hji] at hj
  refine ⟨fun j k token hj hk => h.distinct j k token (hold j token hj) (hold k token hk), fun j token hj => ?_⟩
  cases hs : d.sessions.find? token with
  | none => rfl
  | some s =>
    rcases he.find_session hs with hs | ⟨hp, hnone⟩
    · rw [h.unused j token (hold j token hj)] at hs
      cases hs
    -- the token was inserted by the process that had it, which has dropped it
    · obtain rfl : j = i := h.distinct j i token (hold j token hj) (by rw [hp]; rfl)
      change (Function.update π.procs j p j).token = some token at hj
      rw [Function.update_self, hnone] at hj
      cases hj

theorem TokensOk.runs {C : Pool ι DB Proc → ι → Prop} (h : TokensOk π) (hr : Pool.Runs (exec pw) Tick C π π') :
    TokensOk π' :=
  hr.invariant h (fun _ _ _ _ _ hi _ _ he => hi.stmt (exec_cases he)) fun _ _ hi ⟨_, _, hd⟩ => by
    subst hd
    exact ⟨hi.distinct, hi.unused⟩

end pools

/-! ### Ended sessions -/

theorem isSome_sessionUser {db : DB} {token : ℕ} : (db.SessionUser token).isSome = true ↔
    ∃ s u, db.sessions.find? token = some s ∧ db.now < s.expiresAt ∧ db.users.find? s.userId = some u ∧
      u.isActive = true := by
  simp only [DB.SessionUser, Option.isSome_iff_exists, Option.bind_eq_some_iff, Option.map_eq_some_iff,
    Option.filter_eq_some_iff, decide_eq_true_eq]
  constructor
  · rintro ⟨_, s, ⟨hs, hexp⟩, u, ⟨hu, hact⟩, -⟩
    exact ⟨s, u, hs, hexp, hu, hact⟩
  · rintro ⟨s, u, hs, hexp, hu, hact⟩
    exact ⟨_, s, ⟨hs, hexp⟩, u, ⟨hu, hact⟩, rfl⟩

/-- The user is inactive and has a session that is not expired. -/
def DB.Asleep (db : DB) (id : ℕ) : Prop :=
  (∃ u, db.users.find? id = some u ∧ u.isActive = false) ∧ ∃ s ∈ db.sessions, s.userId = id ∧ db.now < s.expiresAt

section pools

variable {ι : Type} [DecidableEq ι] {pw : Passwords} {token : ℕ} {π π' : Pool ι DB Proc}

/-- The process does not activate an inactive user that has a session left. -/
def NoRevival (π : Pool ι DB Proc) (i : ι) : Prop :=
  (∀ me id email fullName isAdmin, π.procs i = .updateUser me id email fullName true isAdmin → ¬π.db.Asleep id) ∧
  ∀ email fullName passwordHash isAdmin, π.procs i = .upsertUser email fullName passwordHash isAdmin →
    ∀ u ∈ π.db.users, sameEmail u.email email = true → ¬π.db.Asleep u.id

/-- No process can insert the token any more, and the user of its session exists. -/
structure Spent (token : ℕ) (π : Pool ι DB Proc) : Prop where
  spent : ∀ i, (π.procs i).token ≠ some token
  user : ∀ s, π.db.sessions.find? token = some s → ∃ u, π.db.users.find? s.userId = some u

/-- The session of the token is gone or expired, or its user is inactive. -/
def Out (token : ℕ) (db : DB) : Prop := ∀ s, db.sessions.find? token = some s →
  s.expiresAt ≤ db.now ∨ ∃ u, db.users.find? s.userId = some u ∧ u.isActive = false

omit [DecidableEq ι] in
theorem Spent.out (h : Spent token π) (hend : π.db.SessionUser token = none) : Out token π.db := by
  intro s hs
  obtain ⟨u, hu⟩ := h.user s hs
  by_cases hexp : s.expiresAt ≤ π.db.now
  · exact .inl hexp
  · refine .inr ⟨u, hu, ?_⟩
    have hnot : ¬(π.db.SessionUser token).isSome = true := by rw [hend]; exact Bool.noConfusion
    rw [isSome_sessionUser] at hnot
    exact Bool.eq_false_iff.2 fun hact => hnot ⟨s, u, hs, not_le.1 hexp, hu, hact⟩

theorem Out.sessionUser {db : DB} (h : Out token db) : db.SessionUser token = none := by
  cases hx : db.SessionUser token with
  | none => rfl
  | some me =>
    obtain ⟨s, u, hs, hexp, hu, hact⟩ := isSome_sessionUser.1 (by rw [hx]; rfl)
    rcases h s hs with hle | ⟨v, hv, hinactive⟩
    · omega
    · rw [hu] at hv
      cases hv
      rw [hact] at hinactive
      cases hinactive

/-- A statement keeps a spent token spent, and its session is the one it was. -/
theorem Spent.stmt (h : Spent token π) {i : ι} {n : ℕ} {d : DB} {p : Proc} (he : Exec pw n π.db (π.procs i) d p) :
    Spent token ⟨d, n + 1, Function.update π.procs i p⟩ ∧
      ∀ s, d.sessions.find? token = some s → π.db.sessions.find? token = some s := by
  have hsame : ∀ s, d.sessions.find? token = some s → π.db.sessions.find? token = some s := by
    intro s hs
    rcases he.find_session hs with hs | ⟨hp, -⟩
    · exact hs
    · exact absurd (by rw [hp]; rfl) (h.spent i)
  refine ⟨⟨?_, fun s hs => ?_⟩, hsame⟩
  · exact (Function.forall_update_iff π.procs fun _ q => q.token ≠ some token).2
      ⟨fun hp => h.spent i (he.token hp), fun j _ => h.spent j⟩
  · obtain ⟨u, hu⟩ := h.user s (hsame s hs)
    obtain ⟨u', hu', -⟩ := he.find_user hu
    exact ⟨u', hu'⟩

theorem Spent.runs {C : Pool ι DB Proc → ι → Prop} (h : Spent token π) (hr : Pool.Runs (exec pw) Tick C π π') :
    Spent token π' :=
  hr.invariant h (fun _ _ _ _ _ hi _ _ he => (hi.stmt (exec_cases he)).1) fun _ _ hi ⟨_, _, hd⟩ => by
    subst hd
    exact ⟨hi.spent, hi.user⟩

/-- What ended stays ended over a statement that revives nobody. -/
theorem Out.stmt (h : Out token π.db) (hs : Spent token π) {i : ι} (hC : NoRevival π i) {n : ℕ} {d : DB} {p : Proc}
    (he : Exec pw n π.db (π.procs i) d p) : Out token d := by
  intro s hfind
  have hold := (hs.stmt he).2 s hfind
  rw [he.now_eq]
  rcases h s hold with hexp | ⟨u, hu, hinactive⟩
  · exact .inl hexp
  by_cases hexp : s.expiresAt ≤ π.db.now
  · exact .inl hexp
  have hasleep : π.db.Asleep s.userId :=
    ⟨⟨u, hu, hinactive⟩, s, Table.mem_of_find? hold, rfl, not_le.1 hexp⟩
  obtain ⟨u', hu', hsame | ⟨me, email, fullName, hp⟩ | ⟨email, fullName, passwordHash, hp, hemail, -⟩⟩ := he.find_user hu
  · exact .inr ⟨u', hu', hsame.1.trans hinactive⟩
  · refine .inr ⟨u', hu', Bool.eq_false_iff.2 fun hact => ?_⟩
    rw [hact] at hp
    exact hC.1 _ _ _ _ _ hp hasleep
  · have hid : u.id = s.userId := Table.key_of_find? hu
    exact absurd (hid ▸ hasleep) (hC.2 _ _ _ _ hp u (Table.mem_of_find? hu) hemail)

theorem Out.runs (h : Out token π.db) (hs : Spent token π) (hr : Pool.Runs (exec pw) Tick NoRevival π π') :
    Out token π'.db := by
  have hinv : Spent token π' ∧ Out token π'.db := by
    refine hr.invariant (I := fun π => Spent token π ∧ Out token π.db) ⟨hs, h⟩ ?_ ?_
    · intro π i n d p hi hC _ he
      have he := exec_cases he
      exact ⟨(hi.1.stmt he).1, hi.2.stmt hi.1 hC he⟩
    · rintro π d ⟨hs, ho⟩ ⟨t, ht, rfl⟩
      exact ⟨⟨hs.spent, hs.user⟩, fun s hf => (ho s hf).imp_left fun hle => hle.trans ht⟩
  exact hinv.2

omit [DecidableEq ι] in
theorem TokensOk.spent (h : TokensOk π) (hlive : (π.db.SessionUser token).isSome = true) : Spent token π := by
  obtain ⟨s, u, hs, -, hu, -⟩ := isSome_sessionUser.1 hlive
  refine ⟨fun i hi => ?_, fun s' hs' => ?_⟩
  · rw [h.unused i token hi] at hs
    cases hs
  · rw [hs] at hs'
    cases hs'
    exact ⟨u, hu⟩

/-- A token that was accepted and then ended is never accepted again, as long as no inactive user with a session left
is activated. -/
theorem session_stays_ended {db : DB} {seq : ℕ} {reqs : ι → Request} (hfresh : TokensFresh db reqs)
    {π₀ π₁ π₂ : Pool ι DB Proc} (h₀ : Pool.Runs (exec pw) Tick (fun _ _ => True) (serve pw db seq reqs) π₀)
    (hlive : (π₀.db.SessionUser token).isSome = true)
    (h₁ : Pool.Runs (exec pw) Tick (fun _ _ => True) π₀ π₁) (hend : π₁.db.SessionUser token = none)
    (h₂ : Pool.Runs (exec pw) Tick NoRevival π₁ π₂) : π₂.db.SessionUser token = none := by
  have hspent := (((tokensOk_serve hfresh).runs h₀).spent hlive).runs h₁
  exact ((hspent.out hend).runs hspent h₂).sessionUser

/-! ### Password resets -/

/-- The token of a session of `u` that a login made, or is about to make, on a password it has verified. -/
def Earlier (u : ℕ) (π : Pool ι DB Proc) (token : ℕ) : Prop :=
  (∃ s, π.db.sessions.find? token = some s ∧ s.userId = u) ∨
    ∃ i, π.procs i = .pruneSessions u token ∨ π.procs i = .insertSession u token

/-- The next statement of `r` stores a new password hash for `u`. -/
def StoresHash (r : ι) (u : ℕ) (π : Pool ι DB Proc) : Prop :=
  (∃ row, π.db.users.find? u = some row) ∧ ((∃ passwordHash, π.procs r = .setPassword u passwordHash) ∨
    ∃ email fullName passwordHash isAdmin row, π.procs r = .upsertUser email fullName passwordHash isAdmin ∧
      π.db.userByEmail email = some row ∧ row.id = u)

/-- A login that verified an earlier password inserts its session only while `r` still has to delete the sessions. -/
def InsertsBefore (π₁ : Pool ι DB Proc) (r : ι) (u : ℕ) (π : Pool ι DB Proc) (i : ι) : Prop :=
  ∀ token, π.procs i = .insertSession u token → Earlier u π₁ token → π.procs r = .deleteSessions u

/-- No session of `u` is left to accept, and no login for `u` is on its way. -/
def Quiet (u : ℕ) (π : Pool ι DB Proc) : Prop :=
  (∀ s ∈ π.db.sessions, s.userId = u → s.expiresAt ≤ π.db.now) ∧
    ∀ i token, π.procs i ≠ .pruneSessions u token ∧ π.procs i ≠ .insertSession u token

/-- The reset `r` ran to its end from `π₂` to `π₃`, its second statement after the insertions of the earlier logins; or
there was nothing to end when it stored the hash. -/
def EndsSessions (pw : Passwords) (π₁ : Pool ι DB Proc) (r : ι) (u : ℕ) (π₂ π₃ : Pool ι DB Proc) : Prop :=
  (π₂.procs r = .deleteSessions u ∧ Pool.Runs (exec pw) Tick (InsertsBefore π₁ r u) π₂ π₃ ∧
    ∃ reply, π₃.procs r = .done reply) ∨
  Quiet u π₁ ∧ Pool.Runs (exec pw) Tick (fun _ _ => True) π₂ π₃

/-- An earlier token while the reset `r` is under way: its session belongs to `u`, and is gone for good once `r` has
deleted the sessions of `u`. -/
structure Resetting (r : ι) (u token : ℕ) (π : Pool ι DB Proc) : Prop where
  owner : ∀ s, π.db.sessions.find? token = some s → s.userId = u
  procs : ∀ i, (π.procs i).token = some token → π.procs i = .pruneSessions u token ∨ π.procs i = .insertSession u token
  phase : π.procs r = .deleteSessions u ∨ (∃ reply, π.procs r = .done reply) ∧ π.db.sessions.find? token = none

omit [DecidableEq ι] in
theorem Earlier.procs {u : ℕ} (h : Earlier u π token) (hok : TokensOk π) (i : ι)
    (hi : (π.procs i).token = some token) : π.procs i = .pruneSessions u token ∨ π.procs i = .insertSession u token := by
  rcases h with ⟨s, hs, -⟩ | ⟨j, hj⟩
  · rw [hok.unused i token hi] at hs
    cases hs
  · have hjt : (π.procs j).token = some token := by
      rcases hj with hj | hj
      · rw [hj]; rfl
      · rw [hj]; rfl
    obtain rfl := hok.distinct i j token hi hjt
    exact hj

theorem find?_deleteSessions {db : DB} {u : ℕ} {s : Session} (h : (db.deleteSessions u).sessions.find? token = some s) :
    db.sessions.find? token = some s ∧ s.userId ≠ u := by
  have hid : s.tokenHash = token := Table.key_of_find? h
  obtain ⟨hm, hne⟩ := Table.mem_erase_keysWhere.1 (Table.mem_of_find? h)
  have hf : db.sessions.find? s.tokenHash = some s := Table.find?_key hm
  exact ⟨hid ▸ hf, by simpa using hne⟩

theorem Resetting.stmt {r : ι} {u : ℕ} {π₁ : Pool ι DB Proc} (h : Resetting r u token π) (hold : Earlier u π₁ token)
    {i : ι} (hC : InsertsBefore π₁ r u π i) {n : ℕ} {d : DB} {p : Proc} (he : Exec pw n π.db (π.procs i) d p) :
    Resetting r u token ⟨d, n + 1, Function.update π.procs i p⟩ := by
  have howner : ∀ s, d.sessions.find? token = some s → s.userId = u := by
    intro s hs
    rcases he.find_session hs with hs | ⟨hp, -⟩
    · exact h.owner s hs
    · rcases h.procs i (by rw [hp]; rfl) with hp' | hp'
      · rw [hp] at hp'
        cases hp'
      · rw [hp] at hp'
        injection hp'
  have hprocs : p.token = some token → p = .pruneSessions u token ∨ p = .insertSession u token := by
    intro hp
    rcases h.procs i (he.token hp) with hi | hi
    · rw [hi] at he
      cases he with
      | refused => cases hp
      | pruned => exact .inr rfl
    · rw [hi] at he
      cases he with
      | refused => cases hp
      | inserted => cases hp
  refine ⟨howner, (Function.forall_update_iff π.procs
    fun _ q => q.token = some token → q = .pruneSessions u token ∨ q = .insertSession u token).2
    ⟨hprocs, fun j _ => h.procs j⟩, ?_⟩
  show Function.update π.procs i p r = .deleteSessions u ∨
    (∃ reply, Function.update π.procs i p r = .done reply) ∧ d.sessions.find? token = none
  by_cases hri : r = i
  · subst hri
    rw [Function.update_self]
    rcases h.phase with hr | ⟨⟨reply, hr⟩, hnone⟩
    · rw [hr] at he
      cases he with
      | refused hdel => exact absurd rfl (hdel u)
      | revoked =>
        refine .inr ⟨⟨_, rfl⟩, ?_⟩
        cases hs : (π.db.deleteSessions u).sessions.find? token with
        | none => rfl
        | some s =>
          obtain ⟨hs, hne⟩ := find?_deleteSessions hs
          exact absurd (h.owner s hs) hne
    · rw [hr] at he
      cases he with
      | refused _ hdone => exact absurd rfl (hdone reply)
  · rw [Function.update_of_ne hri]
    refine h.phase.imp_right fun ⟨hr, hnone⟩ => ⟨hr, ?_⟩
    cases hs : d.sessions.find? token with
    | none => rfl
    | some s =>
      rcases he.find_session hs with hs | ⟨hp, -⟩
      · rw [hnone] at hs
        cases hs
      · obtain rfl := howner s hs
        obtain ⟨reply, hr⟩ := hr
        have hdel := hC token hp hold
        rw [hr] at hdel
        cases hdel

/-- A reset that runs to its end. -/
theorem Resetting.runs {r : ι} {u : ℕ} {π₁ : Pool ι DB Proc} (h : Resetting r u token π) (hold : Earlier u π₁ token)
    (hr : Pool.Runs (exec pw) Tick (InsertsBefore π₁ r u) π π') : Resetting r u token π' :=
  hr.invariant h (fun _ _ _ _ _ hi hC _ he => hi.stmt hold hC (exec_cases he)) fun _ _ hi ⟨_, _, hd⟩ => by
    subst hd
    exact ⟨hi.owner, hi.procs, hi.phase⟩

/-- An expired session stays expired, whatever happens to its user. -/
theorem Spent.runs_expired {C : Pool ι DB Proc → ι → Prop} (h : Spent token π)
    (hexp : ∀ s, π.db.sessions.find? token = some s → s.expiresAt ≤ π.db.now)
    (hr : Pool.Runs (exec pw) Tick C π π') : Out token π'.db := by
  have hinv : Spent token π' ∧ ∀ s, π'.db.sessions.find? token = some s → s.expiresAt ≤ π'.db.now := by
    refine hr.invariant
      (I := fun π => Spent token π ∧ ∀ s, π.db.sessions.find? token = some s → s.expiresAt ≤ π.db.now) ⟨h, hexp⟩ ?_ ?_
    · intro π i n d p hi _ _ he
      have he := exec_cases he
      obtain ⟨hspent, hsame⟩ := hi.1.stmt he
      exact ⟨hspent, fun s hs => (hi.2 s (hsame s hs)).trans_eq he.now_eq.symm⟩
    · rintro π d ⟨hs, ho⟩ ⟨t, ht, rfl⟩
      exact ⟨⟨hs.spent, hs.user⟩, fun s hf => (ho s hf).trans ht⟩
  exact fun s hs => .inl (hinv.2 s hs)

omit [DecidableEq ι] in
theorem Earlier.owner {u : ℕ} (h : Earlier u π token) (hok : TokensOk π) {s : Session}
    (hs : π.db.sessions.find? token = some s) : s.userId = u := by
  rcases h with ⟨s', hs', hu⟩ | ⟨i, hi⟩
  · rw [hs] at hs'
    cases hs'
    exact hu
  · have hit : (π.procs i).token = some token := by
      rcases hi with hi | hi
      · rw [hi]; rfl
      · rw [hi]; rfl
    rw [hok.unused i token hit] at hs
    cases hs

/-- The reset has stored the hash and is to delete the sessions. -/
theorem Earlier.resetting {r : ι} {u : ℕ} {π₂ : Pool ι DB Proc} (h : Earlier u π token) (hok : TokensOk π)
    (hw : Pool.Step (exec pw) Tick (some r) π π₂) (hphase : π₂.procs r = .deleteSessions u) :
    Resetting r u token π₂ := by
  obtain ⟨he⟩ := hw
  rename_i gap d p
  have he := exec_cases he
  change Function.update π.procs r p r = .deleteSessions u at hphase
  rw [Function.update_self] at hphase
  subst hphase
  refine ⟨fun s hs => ?_, (Function.forall_update_iff π.procs
    fun _ q => q.token = some token → q = .pruneSessions u token ∨ q = .insertSession u token).2
    ⟨fun hp => (by cases hp), fun j _ => h.procs hok j⟩, .inl (Function.update_self ..)⟩
  rcases he.find_session hs with hs | ⟨hp, -⟩
  · exact h.owner hok hs
  · rw [hp] at he
    cases he

/-- Once the new hash is stored and the reset has ended, no token of an earlier session is accepted, if the sessions
are deleted after the earlier logins have inserted theirs, or if there was nothing to end. -/
theorem reset_ends_sessions {db : DB} {seq : ℕ} {reqs : ι → Request} (hfresh : TokensFresh db reqs)
    {π₁ π₂ π₃ : Pool ι DB Proc} (h₁ : Pool.Runs (exec pw) Tick (fun _ _ => True) (serve pw db seq reqs) π₁)
    {r : ι} {u : ℕ} (hreset : StoresHash r u π₁) (hw : Pool.Step (exec pw) Tick (some r) π₁ π₂)
    (hends : EndsSessions pw π₁ r u π₂ π₃) (hold : Earlier u π₁ token) : π₃.db.SessionUser token = none := by
  have hok := (tokensOk_serve hfresh).runs h₁
  have hrun : Pool.Runs (exec pw) Tick (fun _ _ => True) π₁ π₂ := Pool.Runs.refl.step (fun _ _ => trivial) hw
  rcases hends with ⟨hphase, hrest, reply, hdone⟩ | ⟨hquiet, hrest⟩
  · have hend := (hold.resetting hok hw hphase).runs hold hrest
    rcases hend.phase with hr | ⟨-, hnone⟩
    · rw [hdone] at hr
      cases hr
    · rw [DB.SessionUser, hnone]
      rfl
  · obtain ⟨⟨row, hrow⟩, -⟩ := hreset
    rcases hold with ⟨s, hs, hu⟩ | ⟨i, hi⟩
    · have hspent : Spent token π₁ := by
        refine ⟨fun i hi => ?_, fun s' hs' => ?_⟩
        · rw [hok.unused i token hi] at hs
          cases hs
        · rw [hs] at hs'
          cases hs'
          exact ⟨row, hu ▸ hrow⟩
      have hexp : ∀ s, π₁.db.sessions.find? token = some s → s.expiresAt ≤ π₁.db.now := by
        intro s' hs'
        rw [hs] at hs'
        cases hs'
        exact hquiet.1 s (Table.mem_of_find? hs) hu
      exact (hspent.runs_expired hexp (hrun.trans hrest)).sessionUser
    · rcases hi with hi | hi
      · exact absurd hi (hquiet.2 i token).1
      · exact absurd hi (hquiet.2 i token).2

end pools

/-! ### An administrator and a user -/

/-- The administrator 1 and the user 2, each with a session that has the number of its user. -/
def office : DB where
  users := ⟨[⟨1, "ann@x.org", "Ann", "first secret", true, true⟩, ⟨2, "bob@x.org", "Bob", "other secret", true, false⟩],
    by decide⟩
  sessions := twoSessions
  now := 0

/-- Requests of the administrator about the user. -/
def setActive (isActive : Bool) : Request := .api (some 1) (.updateUser 2 "bob@x.org" "Bob" isActive false)

def resetPassword : Request := .api (some 1) (.setUserPassword 2 "brand new secret" 7)

def bobLogin : Request := .login "bob@x.org" "other secret" 3

theorem office_fresh {n : ℕ} {reqs : Fin n → Request} (h : ∀ i, (reqs i).token = none) : TokensFresh office reqs := by
  refine ⟨fun i j token hi _ => ?_, fun i token hi => ?_⟩
  · rw [h i] at hi
    cases hi
  · rw [h i] at hi
    cases hi

theorem office_fresh_login : TokensFresh office ![bobLogin, resetPassword] := by
  refine ⟨?_, ?_⟩
  · simp [Fin.forall_fin_two, bobLogin, resetPassword, Request.token]
  · rw [Fin.forall_fin_two]
    refine ⟨fun token h => ?_, fun token h => by cases h⟩
    cases h
    decide

instance (db : DB) (id : ℕ) : Decidable (db.Asleep id) :=
  decidable_of_iff ((db.users.find? id).any (!·.isActive) &&
    db.sessions.rows.any fun s => s.userId = id && db.now < s.expiresAt) (by
    simp only [Bool.and_eq_true, Option.any_eq_true, List.any_eq_true, Bool.not_eq_true', decide_eq_true_eq]
    rfl)

/-- The check of `NoRevival`, without the command line. -/
def noRevival {n : ℕ} (π : Pool (Fin n) DB Proc) (i : Fin n) : Bool :=
  match π.procs i with
  | .updateUser _ id _ _ isActive _ => !isActive || !decide (π.db.Asleep id)
  | .upsertUser .. => false
  | _ => true

theorem noRevival_sound {n : ℕ} {π : Pool (Fin n) DB Proc} {i : Fin n} (h : noRevival π i = true) : NoRevival π i := by
  refine ⟨fun me id email fullName isAdmin hp => ?_, fun email fullName passwordHash isAdmin hp => ?_⟩
  · simpa [noRevival, hp] using h
  · simp [noRevival, hp] at h

/-- The user is deactivated, its password is reset, and then it is activated: its session stays ended. -/
theorem session_stays_ended_reset : ∃ π : Pool (Fin 3) DB Proc, (∃ u, π.db.users.find? 2 = some u ∧ u.isActive = true) ∧
    π.db.SessionUser 2 = none := by
  have h : (Pool.play (exec plainText) (fun _ _ => true) [0, 0]
      (serve plainText office 3 ![setActive false, resetPassword, setActive true])).any (fun π₁ =>
        (π₁.db.SessionUser 2).isNone && (Pool.play (exec plainText) noRevival [1, 1, 1, 2, 2] π₁).any fun π₂ =>
          (π₂.db.users.find? 2).any (·.isActive)) = true := by decide +kernel
  obtain ⟨π₁, h₁, h⟩ := (Option.any_eq_true ..).1 h
  obtain ⟨hend, h⟩ := Bool.and_eq_true_iff.1 h
  obtain ⟨π₂, h₂, hact⟩ := (Option.any_eq_true ..).1 h
  refine ⟨π₂, (Option.any_eq_true ..).1 hact, session_stays_ended (office_fresh (by decide)) .refl (by decide)
    ((Pool.runs_play h₁).mono fun _ _ _ => trivial) (Option.isNone_iff_eq_none.1 hend)
    ((Pool.runs_play h₂).mono fun _ _ => noRevival_sound)⟩

/-- The session of the user ends when it is deactivated and is accepted again when it is activated. -/
theorem session_revived : ¬∀ (db : DB) (seq : ℕ) (reqs : Fin 2 → Request) (token : ℕ) (π₀ π₁ π₂ : Pool (Fin 2) DB Proc),
    TokensFresh db reqs → Pool.Runs (exec plainText) Tick (fun _ _ => True) (serve plainText db seq reqs) π₀ →
    (π₀.db.SessionUser token).isSome = true → Pool.Runs (exec plainText) Tick (fun _ _ => True) π₀ π₁ →
    π₁.db.SessionUser token = none → Pool.Runs (exec plainText) Tick (fun _ _ => True) π₁ π₂ →
    π₂.db.SessionUser token = none := by
  intro hall
  have h : (Pool.play (exec plainText) (fun _ _ => true) [0, 0]
      (serve plainText office 3 ![setActive false, setActive true])).any (fun π₁ =>
        (π₁.db.SessionUser 2).isNone && (Pool.play (exec plainText) (fun _ _ => true) [1, 1] π₁).any fun π₂ =>
          (π₂.db.SessionUser 2).isSome) = true := by decide +kernel
  obtain ⟨π₁, h₁, h⟩ := (Option.any_eq_true ..).1 h
  obtain ⟨hend, h⟩ := Bool.and_eq_true_iff.1 h
  obtain ⟨π₂, h₂, hrevived⟩ := (Option.any_eq_true ..).1 h
  have hnone := hall office 3 _ 2 _ π₁ π₂ (office_fresh (by decide)) .refl (by decide)
    ((Pool.runs_play h₁).mono fun _ _ _ => trivial) (Option.isNone_iff_eq_none.1 hend)
    ((Pool.runs_play h₂).mono fun _ _ _ => trivial)
  rw [hnone] at hrevived
  cases hrevived

/-- The check of `InsertsBefore`. -/
def insertsBefore (π : Pool (Fin 2) DB Proc) (i : Fin 2) : Bool :=
  match π.procs i with
  | .insertSession _ _ => π.procs 1 = .deleteSessions 2
  | _ => true

theorem insertsBefore_sound {π₁ π : Pool (Fin 2) DB Proc} {i : Fin 2} (h : insertsBefore π i = true) :
    InsertsBefore π₁ 1 2 π i := by
  intro token hp _
  simpa [insertsBefore, hp] using h

/-- The login has verified the old password when the new hash is stored. -/
def loginUnderWay (π₁ : Pool (Fin 2) DB Proc) : Bool :=
  (π₁.db.users.find? 2).isSome && π₁.procs 0 = .pruneSessions 2 3 && π₁.procs 1 = .setPassword 2 "brand new secret"

theorem loginUnderWay_sound {π₁ : Pool (Fin 2) DB Proc} (h : loginUnderWay π₁ = true) :
    StoresHash 1 2 π₁ ∧ Earlier 2 π₁ 3 := by
  simp only [loginUnderWay, Bool.and_eq_true, decide_eq_true_eq] at h
  exact ⟨⟨Option.isSome_iff_exists.1 h.1.1, .inl ⟨_, h.2⟩⟩, .inr ⟨0, .inl h.1.2⟩⟩

/-- The login inserts its session before the reset deletes the sessions. -/
theorem reset_ends_sessions_before : ∃ π₁ π₃ : Pool (Fin 2) DB Proc, Earlier 2 π₁ 3 ∧
    π₃.procs 0 = .done { status := 200 } ∧ π₃.db.SessionUser 3 = none := by
  have h : (Pool.play (exec plainText) (fun _ _ => true) [0, 1] (serve plainText office 3 ![bobLogin, resetPassword])).any
      (fun π₁ => loginUnderWay π₁ && (Pool.play (exec plainText) (fun _ _ => true) [1] π₁).any fun π₂ =>
        π₂.procs 1 = .deleteSessions 2 && (Pool.play (exec plainText) insertsBefore [0, 0, 1] π₂).any fun π₃ =>
          π₃.procs 0 = .done { status := 200 } && π₃.procs 1 = .done { status := 204 }) = true := by decide +kernel
  obtain ⟨π₁, h₁, h⟩ := (Option.any_eq_true ..).1 h
  obtain ⟨hway, h⟩ := Bool.and_eq_true_iff.1 h
  obtain ⟨π₂, h₂, h⟩ := (Option.any_eq_true ..).1 h
  obtain ⟨hphase, h⟩ := Bool.and_eq_true_iff.1 h
  obtain ⟨π₃, h₃, h⟩ := (Option.any_eq_true ..).1 h
  obtain ⟨hlogin, hdone⟩ := Bool.and_eq_true_iff.1 h
  obtain ⟨hstores, hold⟩ := loginUnderWay_sound hway
  refine ⟨π₁, π₃, hold, of_decide_eq_true hlogin, reset_ends_sessions office_fresh_login
    ((Pool.runs_play h₁).mono fun _ _ _ => trivial) hstores (Pool.step_play h₂) (.inl ⟨of_decide_eq_true hphase, ?_, ?_⟩)
    hold⟩
  · exact (Pool.runs_play h₃).mono fun _ _ => insertsBefore_sound
  · exact ⟨_, of_decide_eq_true hdone⟩

/-- The login inserts its session after the reset has deleted the sessions. -/
theorem session_survives_reset : ¬∀ (db : DB) (seq : ℕ) (reqs : Fin 2 → Request) (token : ℕ)
    (π₁ π₂ π₃ : Pool (Fin 2) DB Proc) (r : Fin 2) (u : ℕ),
    TokensFresh db reqs → Pool.Runs (exec plainText) Tick (fun _ _ => True) (serve plainText db seq reqs) π₁ →
    StoresHash r u π₁ → Pool.Step (exec plainText) Tick (some r) π₁ π₂ →
    Pool.Runs (exec plainText) Tick (fun _ _ => True) π₂ π₃ → (∀ i, ∃ reply, π₃.procs i = .done reply) →
    Earlier u π₁ token → π₃.db.SessionUser token = none := by
  intro hall
  have h : (Pool.play (exec plainText) (fun _ _ => true) [0, 1] (serve plainText office 3 ![bobLogin, resetPassword])).any
      (fun π₁ => loginUnderWay π₁ && (Pool.play (exec plainText) (fun _ _ => true) [1] π₁).any fun π₂ =>
        (Pool.play (exec plainText) (fun _ _ => true) [1, 0, 0] π₂).any fun π₃ =>
          π₃.procs 0 = .done { status := 200 } && (π₃.procs 1 = .done { status := 204 } &&
            (π₃.db.SessionUser 3).isSome)) = true := by decide +kernel
  obtain ⟨π₁, h₁, h⟩ := (Option.any_eq_true ..).1 h
  obtain ⟨hway, h⟩ := Bool.and_eq_true_iff.1 h
  obtain ⟨π₂, h₂, h⟩ := (Option.any_eq_true ..).1 h
  obtain ⟨π₃, h₃, h⟩ := (Option.any_eq_true ..).1 h
  obtain ⟨hlogin, h⟩ := Bool.and_eq_true_iff.1 h
  obtain ⟨hdone, hsurvives⟩ := Bool.and_eq_true_iff.1 h
  obtain ⟨hstores, hold⟩ := loginUnderWay_sound hway
  have hnone := hall office 3 _ 3 π₁ π₂ π₃ 1 2 office_fresh_login ((Pool.runs_play h₁).mono fun _ _ _ => trivial)
    hstores (Pool.step_play h₂) ((Pool.runs_play h₃).mono fun _ _ _ => trivial)
    (Fin.forall_fin_two.2 ⟨⟨_, of_decide_eq_true hlogin⟩, _, of_decide_eq_true hdone⟩) hold
  rw [hnone] at hsurvives
  cases hsurvives

end Auth
