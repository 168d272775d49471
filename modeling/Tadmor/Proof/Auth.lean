import Tadmor.Model.Auth

/-!
# What a statement of a request does

The outcomes of the statements, and what they change in the two tables.
-/

namespace Auth

/-- The outcomes of the next statement of a process: the database it leaves, and how the process goes on. -/
inductive Exec (pw : Passwords) (n : ℕ) (db : DB) : Proc → DB → Proc → Prop where
  | refused {p : Proc} (hdel : ∀ id, p ≠ .deleteSessions id) (hdone : ∀ reply, p ≠ .done reply) (reply : Reply) :
      Exec pw n db p db (.done reply)
  | verified {email password hash : String} {token : ℕ} {u : User} (hc : db.Credentials email = some (u, hash))
      (hv : pw.VerifyPassword hash password = true) :
      Exec pw n db (.credentials email password token) db (.pruneSessions u.id token)
  | pruned (userId token : ℕ) :
      Exec pw n db (.pruneSessions userId token) db.pruneSessions (.insertSession userId token)
  | inserted {userId token : ℕ} {d : DB} (h : db.insertSession token userId = some d) :
      Exec pw n db (.insertSession userId token) d (.done { status := 200 })
  | loggedOut (token : ℕ) :
      Exec pw n db (.deleteSession token) (db.DeleteSession token) (.done { status := 204 })
  | authorized {token : ℕ} {me : User} (h : db.SessionUser token = some me) (action : Action) :
      Exec pw n db (.sessionUser token action) db (action.handle pw me)
  | created {email fullName passwordHash : String} {isAdmin : Bool} {d : DB}
      (h : db.CreateUser n email fullName passwordHash isAdmin = .ok d) :
      Exec pw n db (.createUser email fullName passwordHash isAdmin) d (.done { status := 201 })
  | updated {id : ℕ} {email fullName : String} {isActive isAdmin : Bool} {d : DB} (me : ℕ)
      (h : db.UpdateUser id email fullName isActive isAdmin = .ok d) :
      Exec pw n db (.updateUser me id email fullName isActive isAdmin) d (.done { status := 204 })
  | hashSet {id : ℕ} {passwordHash : String} {d : DB} (h : db.setPasswordHash id passwordHash = .ok d) :
      Exec pw n db (.setPassword id passwordHash) d (.deleteSessions id)
  | revoked (id : ℕ) : Exec pw n db (.deleteSessions id) (db.deleteSessions id) (.done { status := 204 })
  | upserted (email fullName passwordHash : String) (isAdmin : Bool) :
      Exec pw n db (.upsertUser email fullName passwordHash isAdmin)
        (db.UpsertUser n email fullName passwordHash isAdmin) (.done { status := 0 })

section effects

variable {pw : Passwords} {n : ℕ} {p q : Proc} {db d : DB}

theorem writeUser_cases {next : Proc} {x : Except Failure DB} (h : writeUser db next x = (d, q)) :
    (x = .ok d ∧ q = next) ∨ (d = db ∧ ∃ reply, q = .done reply) := by
  cases x with
  | ok d' =>
    cases h
    exact .inl ⟨rfl, rfl⟩
  | error e =>
    cases h
    exact .inr ⟨rfl, _, rfl⟩

theorem exec_cases (h : exec pw n p db = some (d, q)) : Exec pw n db p d q := by
  cases p with
  | credentials email password token =>
    simp only [exec] at h
    cases hc : db.Credentials email with
    | none =>
      rw [hc] at h
      cases h
      exact .refused (by simp) (by simp) _
    | some x =>
      rw [hc] at h
      dsimp only at h
      split at h
      · rename_i hv
        cases h
        exact .verified hc hv
      · cases h
        exact .refused (by simp) (by simp) _
  | pruneSessions userId token =>
    cases h
    exact .pruned _ _
  | insertSession userId token =>
    simp only [exec] at h
    split at h
    · rename_i hi
      cases h
      exact .inserted hi
    · cases h
      exact .refused (by simp) (by simp) _
  | deleteSession token =>
    cases h
    exact .loggedOut _
  | sessionUser token action =>
    simp only [exec] at h
    split at h
    · cases h
      exact .refused (by simp) (by simp) _
    · rename_i hs
      cases h
      exact .authorized hs _
  | createUser email fullName passwordHash isAdmin =>
    rcases writeUser_cases (Option.some.inj h) with ⟨hx, rfl⟩ | ⟨rfl, _, rfl⟩
    · exact .created hx
    · exact .refused (by simp) (by simp) _
  | updateUser me id email fullName isActive isAdmin =>
    rcases writeUser_cases (Option.some.inj h) with ⟨hx, rfl⟩ | ⟨rfl, _, rfl⟩
    · exact .updated _ hx
    · exact .refused (by simp) (by simp) _
  | setPassword id passwordHash =>
    rcases writeUser_cases (Option.some.inj h) with ⟨hx, rfl⟩ | ⟨rfl, _, rfl⟩
    · exact .hashSet hx
    · exact .refused (by simp) (by simp) _
  | deleteSessions id =>
    cases h
    exact .revoked _
  | upsertUser email fullName passwordHash isAdmin =>
    cases h
    exact .upserted _ _ _ _
  | done reply => cases h

/-! ### The writes -/

theorem updateUser_eq_ok {id : ℕ} {email fullName : String} {isActive isAdmin : Bool}
    (h : db.UpdateUser id email fullName isActive isAdmin = .ok d) : ∃ u, db.users.find? id = some u ∧
      d = { db with users := db.users.update [id] fun u => { u with email, fullName, isActive, isAdmin } } := by
  unfold DB.UpdateUser at h
  split at h
  · cases h
  split at h
  · cases h
  · rename_i hnone _
    cases h
    obtain ⟨u, hu⟩ := Option.isSome_iff_exists.1 (by simpa [Option.isSome_iff_ne_none] using hnone)
    exact ⟨u, hu, rfl⟩

theorem setPasswordHash_eq_ok {id : ℕ} {passwordHash : String} (h : db.setPasswordHash id passwordHash = .ok d) :
    ∃ u, db.users.find? id = some u ∧ d = { db with users := db.users.update [id] fun u => { u with passwordHash } } := by
  unfold DB.setPasswordHash at h
  split at h
  · cases h
  · rename_i hnone
    cases h
    obtain ⟨u, hu⟩ := Option.isSome_iff_exists.1 (by simpa [Option.isSome_iff_ne_none] using hnone)
    exact ⟨u, hu, rfl⟩

theorem createUser_eq_ok {email fullName passwordHash : String} {isAdmin : Bool}
    (h : db.CreateUser n email fullName passwordHash isAdmin = .ok d) :
    d = { db with users := db.users.insert { id := n, email, fullName, passwordHash, isAdmin } } := by
  unfold DB.CreateUser at h
  split at h
  · cases h
  · cases h
    rfl

theorem insertSession_eq_some {userId token : ℕ} (h : db.insertSession token userId = some d) :
    db.sessions.find? token = none ∧ (∃ u, db.users.find? userId = some u) ∧
      d = { db with sessions := db.sessions.insert ⟨token, userId, db.now + SessionTTL⟩ } := by
  unfold DB.insertSession at h
  split at h
  · cases h
  · rename_i hfree
    cases h
    simp only [Bool.or_eq_true, not_or, Bool.not_eq_true, Option.isSome_eq_false_iff, Option.isNone_iff_eq_none] at hfree
    exact ⟨hfree.1, Option.ne_none_iff_exists'.1 hfree.2, rfl⟩

theorem userByEmail_eq_some {email : String} {u : UserRow} (h : db.userByEmail email = some u) :
    u ∈ db.users ∧ sameEmail u.email email = true := ⟨List.mem_of_find?_eq_some h, by simpa using List.find?_some h⟩

/-! ### Users -/

/-- What a statement does to the flags of a user: the update of the user and the command line set them, the others
leave them. -/
theorem Exec.find_user (h : Exec pw n db p d q) {k : ℕ} {u : UserRow} (hk : db.users.find? k = some u) :
    ∃ u', d.users.find? k = some u' ∧ (u'.isActive = u.isActive ∧ u'.isAdmin = u.isAdmin ∨
      (∃ me email fullName, p = .updateUser me k email fullName u'.isActive u'.isAdmin) ∨
      ∃ email fullName passwordHash, p = .upsertUser email fullName passwordHash u'.isAdmin ∧
        sameEmail u.email email = true ∧ u'.isActive = true) := by
  have hsame : ∀ d : DB, d.users = db.users → ∃ u', d.users.find? k = some u' ∧
      (u'.isActive = u.isActive ∧ u'.isAdmin = u.isAdmin ∨
        (∃ me email fullName, p = .updateUser me k email fullName u'.isActive u'.isAdmin) ∨
        ∃ email fullName passwordHash, p = .upsertUser email fullName passwordHash u'.isAdmin ∧
          sameEmail u.email email = true ∧ u'.isActive = true) :=
    fun d hd => ⟨u, hd ▸ hk, .inl ⟨rfl, rfl⟩⟩
  have hinsert : ∀ v : UserRow, (db.users.insert v).find? k = some u := by
    intro v
    have hid : u.id = k := Table.key_of_find? hk
    have hf := Table.find?_key (Table.mem_insert_of_mem (a := v) (Table.mem_of_find? hk))
    exact hid ▸ hf
  cases h with
  | refused => exact hsame _ rfl
  | verified => exact hsame _ rfl
  | pruned => exact hsame _ rfl
  | inserted h =>
    obtain ⟨-, -, rfl⟩ := insertSession_eq_some h
    exact hsame _ rfl
  | loggedOut => exact hsame _ rfl
  | authorized => exact hsame _ rfl
  | created h =>
    obtain rfl := createUser_eq_ok h
    exact ⟨u, hinsert _, .inl ⟨rfl, rfl⟩⟩
  | @updated id email fullName isActive isAdmin d me h =>
    obtain ⟨v, hv, rfl⟩ := updateUser_eq_ok h
    have hkey : ∀ u : UserRow, Keyed.key { u with email, fullName, isActive, isAdmin } = Keyed.key u := fun _ => rfl
    by_cases hid : k = id
    · subst hid
      exact ⟨_, Table.find?_update_self hkey hk, .inr (.inl ⟨me, email, fullName, rfl⟩)⟩
    · have hf : (db.users.update [id] _ hkey).find? k = db.users.find? k :=
        Table.find?_update_of_notMem hkey (by simpa using hid)
      exact ⟨u, hf.trans hk, .inl ⟨rfl, rfl⟩⟩
  | @hashSet id passwordHash d h =>
    obtain ⟨v, hv, rfl⟩ := setPasswordHash_eq_ok h
    have hkey : ∀ u : UserRow, Keyed.key { u with passwordHash } = Keyed.key u := fun _ => rfl
    refine ⟨_, (Table.find?_update hkey db.users [id] k).trans (by rw [hk]; rfl), .inl ?_⟩
    split
    · exact ⟨rfl, rfl⟩
    · exact ⟨rfl, rfl⟩
  | revoked => exact hsame _ rfl
  | upserted email fullName passwordHash isAdmin =>
    unfold DB.UpsertUser
    cases he : db.userByEmail email with
    | none => exact ⟨u, hinsert _, .inl ⟨rfl, rfl⟩⟩
    | some v =>
      have hkey : ∀ u : UserRow, Keyed.key { u with fullName, passwordHash, isActive := true, isAdmin } = Keyed.key u :=
        fun _ => rfl
      obtain ⟨hv, hemail⟩ := userByEmail_eq_some he
      by_cases hid : k = v.id
      · have huv : u = v := by
          have hf : db.users.find? v.id = some v := Table.find?_key hv
          rw [← hid, hk] at hf
          exact Option.some.inj hf
        subst hid huv
        exact ⟨_, Table.find?_update_self hkey hk, .inr (.inr ⟨email, fullName, passwordHash, rfl, hemail, rfl⟩)⟩
      · have hf : (db.users.update [v.id] _ hkey).find? k = db.users.find? k :=
          Table.find?_update_of_notMem hkey (by simpa using hid)
        exact ⟨u, hf.trans hk, .inl ⟨rfl, rfl⟩⟩

/-! ### Sessions -/

/-- Only the second statement of `CreateSession` adds a session. -/
theorem Exec.mem_session (h : Exec pw n db p d q) {s : Session} (hs : s ∈ d.sessions) :
    s ∈ db.sessions ∨ p = .insertSession s.userId s.tokenHash ∧ q = .done { status := 200 } := by
  have herase : ∀ ks, s ∈ db.sessions.erase ks → s ∈ db.sessions := fun ks h => (Table.mem_erase.1 h).1
  cases h with
  | pruned => exact .inl (herase _ hs)
  | @inserted userId token d h =>
    obtain ⟨-, -, rfl⟩ := insertSession_eq_some h
    rcases Table.mem_of_mem_insert hs with hs | rfl
    · exact .inl hs
    · exact .inr ⟨rfl, rfl⟩
  | loggedOut => exact .inl (herase _ hs)
  | created h =>
    obtain rfl := createUser_eq_ok h
    exact .inl hs
  | updated me h =>
    obtain ⟨_, _, rfl⟩ := updateUser_eq_ok h
    exact .inl hs
  | hashSet h =>
    obtain ⟨_, _, rfl⟩ := setPasswordHash_eq_ok h
    exact .inl hs
  | revoked => exact .inl (herase _ hs)
  | upserted email fullName passwordHash isAdmin =>
    unfold DB.UpsertUser at hs
    split at hs
    · exact .inl hs
    · exact .inl hs
  | _ => exact .inl hs

theorem Exec.now_eq (h : Exec pw n db p d q) : d.now = db.now := by
  cases h with
  | inserted h =>
    obtain ⟨-, -, rfl⟩ := insertSession_eq_some h
    rfl
  | created h =>
    obtain rfl := createUser_eq_ok h
    rfl
  | updated me h =>
    obtain ⟨_, _, rfl⟩ := updateUser_eq_ok h
    rfl
  | hashSet h =>
    obtain ⟨_, _, rfl⟩ := setPasswordHash_eq_ok h
    rfl
  | upserted email fullName passwordHash isAdmin =>
    unfold DB.UpsertUser
    split
    · rfl
    · rfl
  | _ => rfl

end effects

/-- For the runs on fixed inputs: stored hashes are the passwords themselves. -/
def plainText : Passwords := ⟨fun _ password => password, fun hash password => hash = password⟩

/-- The users 1 and 2, each with a session that has the number of its user. -/
def twoSessions : Table Session := ⟨[⟨1, 1, SessionTTL⟩, ⟨2, 2, SessionTTL⟩], by decide⟩

end Auth
