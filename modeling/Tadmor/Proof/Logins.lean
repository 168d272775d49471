import Tadmor.Proof.Password
import Tadmor.Proof.Sessions

/-!
# The password that was set last

Every stored hash is one that was there at the start or that of a password some request set, of at least eight bytes
(`stored_passwords`).  Emails stay unique over every run, so the email of an active user finds its row; and as long as
no statement stores another hash for it, a login gets a session with the password that was set last and is turned away
with any other (`last_password_logs_in`).
-/

namespace Auth

/-- No two users have one email. -/
def EmailsApart (db : DB) : Prop := ∀ u ∈ db.users, ∀ v ∈ db.users, sameEmail u.email v.email = true → u.id = v.id

/-- The salt and the password of a request that sets one. -/
def Action.password : Action → Option (ℕ × String)
  | .createUser _ _ password salt _ => some (salt, password)
  | .setUserPassword _ password salt => some (salt, password)
  | .updateUser .. => none

def Request.password : Request → Option (ℕ × String)
  | .api _ action => action.password
  | .adduser _ _ password salt _ => some (salt, password)
  | _ => none

/-- The hash is that of the password, which is long enough. -/
def HashOf (pw : Passwords) (x : Option (ℕ × String)) (passwordHash : String) : Prop :=
  ∃ salt password, x = some (salt, password) ∧ minPasswordLen ≤ password.utf8ByteSize ∧
    passwordHash = pw.HashPassword salt password

/-- What the process still stores is the hash of the password of its request. -/
def Proc.Hashes (pw : Passwords) (x : Option (ℕ × String)) : Proc → Prop
  | .sessionUser _ action => action.password = x
  | .createUser _ _ passwordHash _ => HashOf pw x passwordHash
  | .setPassword _ passwordHash => HashOf pw x passwordHash
  | .upsertUser _ _ passwordHash _ => HashOf pw x passwordHash
  | _ => True

section steps

variable {pw : Passwords} {n : ℕ} {p q : Proc} {db d : DB} {x : Option (ℕ × String)}

theorem sameEmail_symm {a b : String} : sameEmail a b = sameEmail b a := by
  unfold sameEmail
  exact decide_eq_decide.2 eq_comm

theorem sameEmail_trans {a b c : String} (h : sameEmail a b = true) (h' : sameEmail b c = true) :
    sameEmail a c = true :=
  decide_eq_true ((of_decide_eq_true h).trans (of_decide_eq_true h'))

/-! ### The passwords of the requests -/

theorem validPassword_none {password : String} (h : validPassword password = none) :
    minPasswordLen ≤ password.utf8ByteSize := by
  unfold validPassword at h
  split at h
  · cases h
  split at h
  · cases h
  · omega

theorem hashes_start (r : Request) : (r.start pw).Hashes pw r.password := by
  cases r with
  | login email password token =>
    rw [Request.start]
    split
    · trivial
    · trivial
  | logout cookie => cases cookie <;> trivial
  | api cookie action =>
    cases cookie with
    | none => trivial
    | some token => rfl
  | adduser email fullName password salt isAdmin =>
    rw [Request.start]
    split
    · trivial
    split
    · trivial
    · exact ⟨salt, password, rfl, by omega, rfl⟩

theorem hashes_handle (me : User) (action : Action) : (action.handle pw me).Hashes pw action.password := by
  unfold Action.handle
  split
  · trivial
  cases action with
  | createUser email fullName password salt isAdmin =>
    dsimp only
    split
    · trivial
    · rename_i hvalid
      exact ⟨salt, password, rfl, validPassword_none (Option.or_eq_none_iff.1 hvalid).2, rfl⟩
  | updateUser id email fullName isActive isAdmin =>
    dsimp only
    split
    · trivial
    split
    · trivial
    split
    · trivial
    · trivial
  | setUserPassword id password salt =>
    dsimp only
    split
    · trivial
    · rename_i hvalid
      exact ⟨salt, password, rfl, validPassword_none hvalid, rfl⟩

theorem Exec.hashes (h : Exec pw n db p d q) (hp : p.Hashes pw x) : q.Hashes pw x := by
  cases h with
  | authorized _ action =>
    obtain rfl : action.password = x := hp
    exact hashes_handle _ action
  | _ => trivial

/-! ### The users -/

/-- A statement leaves the users, adds one with an email that no user has, or updates one; an update leaves the email,
or sets one that no other user has. -/
theorem Exec.users (h : Exec pw n db p d q) : d.users = db.users ∨
    (∃ row : UserRow, row.id = n ∧ db.userByEmail row.email = none ∧ d.users = db.users.insert row ∧
      ((∃ email fullName isAdmin, p = .createUser email fullName row.passwordHash isAdmin) ∨
        ∃ email fullName isAdmin, p = .upsertUser email fullName row.passwordHash isAdmin)) ∨
    ∃ (k : ℕ) (f : UserRow → UserRow) (hf : ∀ u, Keyed.key (f u) = Keyed.key u), d.users = db.users.update [k] f hf ∧
      ((∀ u, (f u).email = u.email) ∨ ∃ email, (∀ u, (f u).email = email) ∧
        ∀ v ∈ db.users, v.id ≠ k → sameEmail v.email email = false) ∧
      ((∀ u, (f u).passwordHash = u.passwordHash) ∨ ∃ passwordHash, (∀ u, (f u).passwordHash = passwordHash) ∧
        (p = .setPassword k passwordHash ∨ ∃ email fullName isAdmin row,
          p = .upsertUser email fullName passwordHash isAdmin ∧ db.userByEmail email = some row ∧ row.id = k)) := by
  cases h with
  | inserted h =>
    obtain ⟨-, -, rfl⟩ := insertSession_eq_some h
    exact .inl rfl
  | @created email fullName passwordHash isAdmin d h =>
    refine .inr (.inl ⟨{ id := n, email, fullName, passwordHash, isAdmin }, rfl, ?_, ?_, .inl ⟨_, _, _, rfl⟩⟩)
    · unfold DB.CreateUser at h
      split at h
      · cases h
      · rename_i hnone
        exact Option.not_isSome_iff_eq_none.1 hnone
    · obtain rfl := createUser_eq_ok h
      rfl
  | @updated id email fullName isActive isAdmin d me h =>
    refine .inr (.inr ⟨id, fun u => { u with email, fullName, isActive, isAdmin }, fun _ => rfl, ?_,
      .inr ⟨email, fun _ => rfl, ?_⟩, .inl fun _ => rfl⟩)
    · obtain ⟨_, _, rfl⟩ := updateUser_eq_ok h
      rfl
    · unfold DB.UpdateUser at h
      split at h
      · cases h
      split at h
      · cases h
      · rename_i hany
        intro v hv hid
        rw [Bool.not_eq_true, List.any_eq_false] at hany
        have hpair := hany v hv
        simp only [hid, ne_eq, not_false_eq_true, decide_true, Bool.true_and, Bool.not_eq_true] at hpair
        exact hpair
  | @hashSet id passwordHash d h =>
    obtain ⟨_, _, rfl⟩ := setPasswordHash_eq_ok h
    exact .inr (.inr ⟨id, fun u => { u with passwordHash }, fun _ => rfl, rfl, .inl fun _ => rfl,
      .inr ⟨passwordHash, fun _ => rfl, .inl rfl⟩⟩)
  | upserted email fullName passwordHash isAdmin =>
    unfold DB.UpsertUser
    cases he : db.userByEmail email with
    | none =>
      exact .inr (.inl ⟨{ id := n, email, fullName, passwordHash, isAdmin }, rfl, he, rfl, .inr ⟨_, _, _, rfl⟩⟩)
    | some v =>
      exact .inr (.inr ⟨v.id, fun u => { u with fullName, passwordHash, isActive := true, isAdmin }, fun _ => rfl, rfl,
        .inl fun _ => rfl,
        .inr ⟨passwordHash, fun _ => rfl, .inr ⟨_, _, _, v, rfl, he, rfl⟩⟩⟩)
  | _ => exact .inl rfl

theorem sameEmail_false_of_userByEmail {email : String} (h : db.userByEmail email = none) {v : UserRow}
    (hv : v ∈ db.users) : sameEmail v.email email = false := by
  have hnot := List.find?_eq_none.1 h v hv
  simpa using hnot

theorem EmailsApart.insert (h : EmailsApart db) {row : UserRow} (hrow : db.userByEmail row.email = none)
    (hd : d.users = db.users.insert row) : EmailsApart d := by
  intro u hu v hv huv
  rw [hd] at hu hv
  rcases Table.mem_of_mem_insert hu with hou | rfl
  · rcases Table.mem_of_mem_insert hv with hov | rfl
    · exact h u hou v hov huv
    · rw [sameEmail_false_of_userByEmail hrow hou] at huv
      cases huv
  · rcases Table.mem_of_mem_insert hv with hov | rfl
    · rw [sameEmail_symm, sameEmail_false_of_userByEmail hrow hov] at huv
      cases huv
    · rfl

theorem EmailsApart.update (h : EmailsApart db) {k : ℕ} {f : UserRow → UserRow}
    {hf : ∀ u, Keyed.key (f u) = Keyed.key u} (hd : d.users = db.users.update [k] f hf)
    (hemail : (∀ u, (f u).email = u.email) ∨ ∃ email, (∀ u, (f u).email = email) ∧
      ∀ v ∈ db.users, v.id ≠ k → sameEmail v.email email = false) : EmailsApart d := by
  have hid : ∀ u, (f u).id = u.id := hf
  intro u hu v hv huv
  rw [hd] at hu hv
  rcases Table.mem_update_cases hf hu with ⟨hou, hku⟩ | ⟨u, hou, hku, rfl⟩
  · rcases Table.mem_update_cases hf hv with ⟨hov, hkv⟩ | ⟨v, hov, hkv, rfl⟩
    · exact h u hou v hov huv
    · rw [hid]
      rcases hemail with hsame | ⟨email, hset, hother⟩
      · rw [hsame] at huv
        exact h u hou v hov huv
      · rw [hset, hother u hou fun e => hku (List.mem_singleton.2 e)] at huv
        cases huv
  · rcases Table.mem_update_cases hf hv with ⟨hov, hkv⟩ | ⟨v, hov, hkv, rfl⟩
    · rw [hid]
      rcases hemail with hsame | ⟨email, hset, hother⟩
      · rw [hsame] at huv
        exact h u hou v hov huv
      · rw [hset, sameEmail_symm, hother v hov fun e => hkv (List.mem_singleton.2 e)] at huv
        cases huv
    · rw [hid, hid]
      exact (List.mem_singleton.1 hku).trans (List.mem_singleton.1 hkv).symm

/-- A user keeps its row but for the statement that stores a hash for it. -/
theorem Exec.find_hash (h : Exec pw n db p d q) (hbelow : db.users.Below n) {k : ℕ} {u : UserRow}
    (hk : db.users.find? k = some u) : ∃ u', d.users.find? k = some u' ∧ (u'.passwordHash = u.passwordHash ∨
      p = .setPassword k u'.passwordHash ∨ ∃ email fullName isAdmin row,
        p = .upsertUser email fullName u'.passwordHash isAdmin ∧ db.userByEmail email = some row ∧ row.id = k) := by
  rcases h.users with hd | ⟨row, hid, -, hd, -⟩ | ⟨j, f, hf, hd, -, hhash⟩
  · exact ⟨u, hd ▸ hk, .inl rfl⟩
  · have hne : Keyed.key row ≠ k := by
      have hlt := hbelow u (Table.mem_of_find? hk)
      rw [Table.key_of_find? hk] at hlt
      exact hid.trans_ne hlt.ne'
    exact ⟨u, by rw [hd, Table.find?_insert_of_ne hne, hk], .inl rfl⟩
  · by_cases hj : k = j
    · subst hj
      refine ⟨f u, by rw [hd, Table.find?_update_self hf hk], ?_⟩
      rcases hhash with hsame | ⟨passwordHash, hset, hp⟩
      · exact .inl (hsame u)
      · rw [hset]
        exact .inr hp
    · exact ⟨u, by rw [hd, Table.find?_update_of_notMem hf (by simpa using hj), hk], .inl rfl⟩

end steps

section pools

variable {ι : Type} [DecidableEq ι] {pw : Passwords} {reqs : ι → Request} {π π' : Pool ι DB Proc}

/-- Ids are below the numbers that are still to be drawn, emails are unique, and the processes store the passwords of
their requests. -/
structure UsersOk (pw : Passwords) (reqs : ι → Request) (π : Pool ι DB Proc) : Prop where
  below : π.db.users.Below π.seq
  apart : EmailsApart π.db
  hashes : ∀ i, (π.procs i).Hashes pw (reqs i).password

theorem UsersOk.stmt (h : UsersOk pw reqs π) {i : ι} {n : ℕ} (hn : π.seq ≤ n) {d : DB} {p : Proc}
    (he : Exec pw n π.db (π.procs i) d p) : UsersOk pw reqs ⟨d, n + 1, Function.update π.procs i p⟩ := by
  refine ⟨?_, ?_, ?_⟩
  · have hbelow := h.below.mono hn
    rcases he.users with hd | ⟨row, hid, -, hd, -⟩ | ⟨k, f, hf, hd, -⟩
    · rw [hd]
      exact hbelow.mono (Nat.le_succ n)
    · rw [hd]
      exact hbelow.insert hid
    · rw [hd]
      exact (hbelow.update [k] hf).mono (Nat.le_succ n)
  · rcases he.users with hd | ⟨row, -, hnone, hd, -⟩ | ⟨k, f, hf, hd, hemail, -⟩
    · intro u hu v hv huv
      rw [hd] at hu hv
      exact h.apart u hu v hv huv
    · exact h.apart.insert hnone hd
    · exact h.apart.update hd hemail
  · exact (Function.forall_update_iff π.procs fun j q => q.Hashes pw (reqs j).password).2
      ⟨he.hashes (h.hashes i), fun j _ => h.hashes j⟩

theorem UsersOk.runs {C : Pool ι DB Proc → ι → Prop} (h : UsersOk pw reqs π) (hr : Pool.Runs (exec pw) Tick C π π') :
    UsersOk pw reqs π' :=
  hr.invariant h (fun _ _ _ _ _ hi _ hn he => hi.stmt hn (exec_cases he)) fun _ _ hi ⟨_, _, hd⟩ => by
    subst hd
    exact ⟨hi.below, hi.apart, hi.hashes⟩

omit [DecidableEq ι] in
theorem usersOk_serve {db : DB} {seq : ℕ} (hbelow : db.users.Below seq) (hapart : EmailsApart db) :
    UsersOk pw reqs (serve pw db seq reqs) :=
  ⟨hbelow, hapart, fun i => hashes_start (reqs i)⟩

/-! ### Stored hashes -/

/-- The hashes that are stored were there at the start, or are those of passwords of requests. -/
def Stored (pw : Passwords) (reqs : ι → Request) (db₀ db : DB) : Prop :=
  ∀ row ∈ db.users, (∃ row₀ ∈ db₀.users, row₀.id = row.id ∧ row₀.passwordHash = row.passwordHash) ∨
    ∃ i, HashOf pw (reqs i).password row.passwordHash

omit [DecidableEq ι] in
theorem Stored.stmt {db₀ : DB} (h : Stored pw reqs db₀ π.db) (hu : UsersOk pw reqs π) {i : ι} {n : ℕ} {d : DB}
    {p : Proc} (he : Exec pw n π.db (π.procs i) d p) : Stored pw reqs db₀ d := by
  have hi := hu.hashes i
  intro row hrow
  rcases he.users with hd | ⟨new, hid, -, hd, hp⟩ | ⟨k, f, hf, hd, -, hhash⟩
  · rw [hd] at hrow
    exact h row hrow
  · rw [hd] at hrow
    rcases Table.mem_of_mem_insert hrow with hold | rfl
    · exact h row hold
    rcases hp with ⟨_, _, _, hp⟩ | ⟨_, _, _, hp⟩
    · rw [hp] at hi
      exact .inr ⟨i, hi⟩
    · rw [hp] at hi
      exact .inr ⟨i, hi⟩
  · rw [hd] at hrow
    rcases Table.mem_update_cases hf hrow with ⟨hold, -⟩ | ⟨old, hold, -, rfl⟩
    · exact h row hold
    rcases hhash with hsame | ⟨passwordHash, hset, hp | ⟨_, _, _, _, hp, -⟩⟩
    · have hid : (f old).id = old.id := hf old
      rw [hid, hsame]
      exact h old hold
    · rw [hp] at hi
      rw [hset]
      exact .inr ⟨i, hi⟩
    · rw [hp] at hi
      rw [hset]
      exact .inr ⟨i, hi⟩

theorem Stored.runs {db₀ : DB} {C : Pool ι DB Proc → ι → Prop} (h : Stored pw reqs db₀ π.db) (hu : UsersOk pw reqs π)
    (hr : Pool.Runs (exec pw) Tick C π π') : Stored pw reqs db₀ π'.db := by
  have hinv : UsersOk pw reqs π' ∧ Stored pw reqs db₀ π'.db := by
    refine hr.invariant (I := fun π => UsersOk pw reqs π ∧ Stored pw reqs db₀ π.db) ⟨hu, h⟩ ?_ ?_
    · intro π i n d p hi _ hn he
      have he := exec_cases he
      exact ⟨hi.1.stmt hn he, hi.2.stmt hi.1 he⟩
    · rintro π d ⟨hu, hs⟩ ⟨t, -, rfl⟩
      exact ⟨⟨hu.below, hu.apart, hu.hashes⟩, hs⟩
  exact hinv.2

/-- The statement of `r` from `π` to `π'` stores a hash for the user, or creates the user. -/
def Sets (r : ι) (u : ℕ) (π π' : Pool ι DB Proc) : Prop :=
  StoresHash r u π ∨ π.db.users.find? u = none ∧ ∃ row, π'.db.users.find? u = some row

/-- What is stored then is the hash of the password of the request. -/
theorem UsersOk.sets (h : UsersOk pw reqs π) {r : ι} {u : ℕ} {n : ℕ} {d : DB} {p : Proc}
    (he : exec pw n (π.procs r) π.db = some (d, p)) (hset : Sets r u π ⟨d, n + 1, Function.update π.procs r p⟩) :
    ∃ row, d.users.find? u = some row ∧ HashOf pw (reqs r).password row.passwordHash := by
  have hr := h.hashes r
  rcases hset with ⟨⟨row, hrow⟩, ⟨passwordHash, hp⟩ | ⟨email, fullName, passwordHash, isAdmin, row', hp, hemail, rfl⟩⟩ |
      ⟨hnone, row, hrow⟩
  · rw [hp] at he hr
    have hkey : ∀ u : UserRow, Keyed.key { u with passwordHash } = Keyed.key u := fun _ => rfl
    have hok : π.db.setPasswordHash u passwordHash =
        .ok { π.db with users := π.db.users.update [u] fun u => { u with passwordHash } } := by
      unfold DB.setPasswordHash
      rw [hrow]
      rfl
    simp only [exec, hok, writeUser, Option.some.injEq, Prod.mk.injEq] at he
    obtain ⟨rfl, -⟩ := he
    exact ⟨_, Table.find?_update_self hkey hrow, hr⟩
  · rw [hp] at he hr
    have hkey : ∀ u : UserRow, Keyed.key { u with fullName, passwordHash, isActive := true, isAdmin } = Keyed.key u :=
      fun _ => rfl
    simp only [exec, DB.UpsertUser, hemail, Option.some.injEq, Prod.mk.injEq] at he
    obtain ⟨rfl, -⟩ := he
    exact ⟨_, Table.find?_update_self hkey hrow, hr⟩
  · rcases (exec_cases he).users with hd | ⟨new, hid, -, hd, hp⟩ | ⟨k, f, hf, hd, -⟩
    · dsimp only at hrow
      rw [hd, hnone] at hrow
      cases hrow
    · refine ⟨row, hrow, ?_⟩
      dsimp only at hrow
      rw [hd] at hrow
      have hmem := Table.mem_of_mem_insert (Table.mem_of_find? hrow)
      have hnew : row = new := by
        refine hmem.resolve_left fun hold => ?_
        exact Table.find?_eq_none.1 hnone row hold (Table.key_of_find? hrow)
      rw [hnew]
      rcases hp with ⟨_, _, _, hp⟩ | ⟨_, _, _, hp⟩
      · rw [hp] at hr
        exact hr
      · rw [hp] at hr
        exact hr
    · dsimp only at hrow
      rw [hd, Table.find?_update, hnone] at hrow
      cases hrow

/-! ### Logging in -/

/-- The hash of a user stays as long as no statement stores another. -/
theorem UsersOk.runs_hash (h : UsersOk pw reqs π) {u : ℕ} {passwordHash : String}
    (hu : ∃ row, π.db.users.find? u = some row ∧ row.passwordHash = passwordHash)
    (hr : Pool.Runs (exec pw) Tick (fun π i => ¬StoresHash i u π) π π') :
    ∃ row, π'.db.users.find? u = some row ∧ row.passwordHash = passwordHash := by
  have hinv : UsersOk pw reqs π' ∧ ∃ row, π'.db.users.find? u = some row ∧ row.passwordHash = passwordHash := by
    refine hr.invariant (I := fun π => UsersOk pw reqs π ∧ ∃ row, π.db.users.find? u = some row ∧
      row.passwordHash = passwordHash) ⟨h, hu⟩ ?_ ?_
    · rintro π i n d p ⟨hi, row, hrow, hhash⟩ hC hn he
      have he := exec_cases he
      refine ⟨hi.stmt hn he, ?_⟩
      obtain ⟨row', hrow', hsame | hp | ⟨email, fullName, isAdmin, old, hp, hold, hid⟩⟩ :=
        he.find_hash (hi.below.mono hn) hrow
      · exact ⟨row', hrow', hsame.trans hhash⟩
      · exact absurd ⟨⟨row, hrow⟩, .inl ⟨_, hp⟩⟩ hC
      · exact absurd ⟨⟨row, hrow⟩, .inr ⟨_, _, _, _, old, hp, hold, hid⟩⟩ hC
    · rintro π d ⟨hi, hu⟩ ⟨t, -, rfl⟩
      exact ⟨⟨hi.below, hi.apart, hi.hashes⟩, hu⟩
  exact hinv.2

omit [DecidableEq ι] in
theorem EmailsApart.credentials {db : DB} (h : EmailsApart db) {u : ℕ} {row : UserRow}
    (hrow : db.users.find? u = some row) (hactive : row.isActive = true) {email : String}
    (hemail : sameEmail row.email email = true) : db.Credentials email = some (row.user, row.passwordHash) := by
  have hmem := Table.mem_of_find? hrow
  unfold DB.Credentials
  cases hf : db.users.rows.find? fun u => sameEmail u.email email && u.isActive with
  | none =>
    have hnot := List.find?_eq_none.1 hf row hmem
    rw [hemail, hactive] at hnot
    exact absurd rfl hnot
  | some v =>
    have hfound := List.find?_some hf
    have hv := (Bool.and_eq_true_iff.1 hfound).1
    have hvmem : v ∈ db.users := List.mem_of_find?_eq_some hf
    rw [sameEmail_symm] at hemail
    have hid : v.id = row.id := h v hvmem row hmem (sameEmail_trans hv hemail)
    obtain rfl : v = row := Table.key_inj hvmem hmem hid
    rfl

omit [DecidableEq ι] in
theorem insertSession_pruned {db : DB} {u token : ℕ} {row : UserRow} (hrow : db.users.find? u = some row)
    (hactive : row.isActive = true) (htoken : db.sessions.find? token = none) :
    ∃ d, db.pruneSessions.insertSession token u = some d ∧ d.SessionUser token = some row.user := by
  have hfree : db.pruneSessions.sessions.find? token = none := by
    have hp : db.pruneSessions.sessions.find? token = _ := Table.find?_erase _ _ token
    rw [hp, htoken]
    simp
  have hu : db.pruneSessions.users.find? u = some row := hrow
  refine ⟨_, if_neg (by simp [hfree, hu]), ?_⟩
  have hfind : (db.pruneSessions.sessions.insert ⟨token, u, db.pruneSessions.now + SessionTTL⟩).find? token =
      some ⟨token, u, db.pruneSessions.now + SessionTTL⟩ :=
    Table.find?_insert_self (a := (⟨token, u, db.pruneSessions.now + SessionTTL⟩ : Session))
      (Table.free_iff_find?.2 hfree)
  have hexp : db.pruneSessions.now < db.pruneSessions.now + SessionTTL := by
    unfold SessionTTL
    omega
  simp only [DB.SessionUser, hfind, hu, hactive, hexp, Option.filter_some, Option.bind_some, Option.map_some,
    decide_true, if_true]

/-- With the session it has to make, a login that has verified its password ends. -/
theorem exists_session {i : ι} {u token : ℕ} {row : UserRow} (hrow : π.db.users.find? u = some row)
    (hactive : row.isActive = true) (htoken : π.db.sessions.find? token = none)
    (hi : π.procs i = .pruneSessions u token) :
    ∃ π', Pool.play (exec pw) (fun _ _ => true) [i, i] π = some π' ∧ π'.procs i = .done { status := 200 } ∧
      π'.db.SessionUser token = some row.user := by
  obtain ⟨d, hd, hsession⟩ := insertSession_pruned hrow hactive htoken
  refine ⟨⟨d, π.seq + 1 + 1, Function.update (Function.update π.procs i (.insertSession u token)) i
    (.done { status := 200 })⟩, ?_, Function.update_self .., hsession⟩
  simp only [Pool.play, if_true, hi, exec, Option.bind_some, Function.update_self, hd]

end pools

/-! ### The passwords of the server -/

section server

variable {ι : Type} [DecidableEq ι] {derive : KeyDerivation} {salts : ℕ → List UInt8} {reqs : ι → Request} {db : DB}
  {seq : ℕ}

/-- In every state of every run, a stored hash was there at the start or verifies the passwords with the key of one
that some request set, which has at least eight bytes. -/
theorem stored_passwords (hderives : Derives derive) (hbelow : db.users.Below seq) (hapart : EmailsApart db)
    {π : Pool ι DB Proc} (h : Pool.Runs (exec (pbkdf2Passwords derive salts)) Tick (fun _ _ => True)
      (serve (pbkdf2Passwords derive salts) db seq reqs) π) {row : UserRow} (hrow : row ∈ π.db.users) :
    (∃ row₀ ∈ db.users, row₀.id = row.id ∧ row₀.passwordHash = row.passwordHash) ∨
      ∃ i salt password, (reqs i).password = some (salt, password) ∧ minPasswordLen ≤ password.utf8ByteSize ∧
        ∀ password', (pbkdf2Passwords derive salts).VerifyPassword row.passwordHash password' = true ↔
          derive password'.toList (salts salt) hashIterations keyLen =
            derive password.toList (salts salt) hashIterations keyLen := by
  have hstart : Stored (pbkdf2Passwords derive salts) reqs db db := fun row hrow => .inl ⟨row, hrow, rfl, rfl⟩
  rcases hstart.runs (usersOk_serve hbelow hapart) h row hrow with hold | ⟨i, salt, password, hreq, hlen, hhash⟩
  · exact .inl hold
  · refine .inr ⟨i, salt, password, hreq, hlen, fun password' => ?_⟩
    rw [hhash]
    exact verify_hashPassword hderives

end server

/-! ### A reset and a login -/

/-- The keys of two passwords; those of the others are not looked at. -/
def officeKeys : KeyDerivation := fun password salt iterations n =>
  if n = keyLen ∧ iterations = hashIterations ∧ salt = (List.range' 1 16).map UInt8.ofNat ∧
      password = "other secret".toList then
    some [207, 115, 244, 198, 14, 245, 86, 142, 11, 49, 123, 232, 123, 101, 235, 146, 208, 163, 206, 241, 73, 115, 30,
      135, 62, 174, 220, 42, 138, 39, 131, 255]
  else if n = keyLen ∧ iterations = hashIterations ∧ salt = (List.range' 17 16).map UInt8.ofNat ∧
      password = "brand new secret".toList then
    some [33, 24, 2, 132, 201, 253, 191, 155, 34, 188, 246, 96, 74, 161, 142, 67, 201, 156, 194, 23, 102, 207, 209, 174,
      165, 109, 224, 98, 182, 210, 101, 78]
  else some (List.replicate n 0)

def officeSalts (n : ℕ) : List UInt8 := if n = 7 then (List.range' 17 16).map UInt8.ofNat
  else (List.range' 1 16).map UInt8.ofNat

abbrev officePasswords : Passwords := pbkdf2Passwords officeKeys officeSalts

theorem officeKeys_derives : Derives officeKeys := by
  intro password salt
  unfold officeKeys
  split
  · exact ⟨_, rfl, rfl⟩
  split
  · exact ⟨_, rfl, rfl⟩
  · exact ⟨_, rfl, List.length_replicate⟩

/-- The office, with the hash of the password of the user. -/
def hashedOffice : DB where
  users := ⟨[⟨1, "ann@x.org", "Ann", "", true, true⟩,
    ⟨2, "bob@x.org", "Bob", officePasswords.HashPassword 1 "other secret", true, false⟩], by decide⟩
  sessions := twoSessions
  now := 0

/-- The administrator resets the password of the user, who logs in with the new one. -/
def resetThenLogin (login : Bool) : Request :=
  if login then .login "Bob@x.org" "brand new secret" 3 else resetPassword

theorem resetThenLogin_fresh : TokensFresh hashedOffice resetThenLogin := by
  refine ⟨fun i j token hi hj => ?_, fun i token hi => ?_⟩
  · cases i with
    | false => cases hi
    | true =>
      cases j with
      | false => cases hj
      | true => rfl
  · cases i with
    | false => cases hi
    | true =>
      cases hi
      decide

theorem hashedOffice_apart : EmailsApart hashedOffice := by
  intro u hu v hv huv
  have hcheck : hashedOffice.users.rows.all fun u => hashedOffice.users.rows.all fun v =>
      !sameEmail u.email v.email || u.id = v.id := by decide +kernel
  have hpair := List.all_eq_true.1 (List.all_eq_true.1 hcheck u hu) v hv
  simpa [huv] using hpair

theorem hashedOffice_below : hashedOffice.users.Below 3 := by
  intro u hu
  have hcheck : hashedOffice.users.rows.all fun u => decide (u.id < 3) := by decide +kernel
  exact of_decide_eq_true (List.all_eq_true.1 hcheck u hu)

def storesHash (π : Pool Bool DB Proc) (i : Bool) : Bool :=
  match π.procs i with
  | .setPassword .. => true
  | .upsertUser .. => true
  | _ => false

theorem storesHash_sound {π : Pool Bool DB Proc} {i : Bool} (h : (!storesHash π i) = true) {u : ℕ} :
    ¬StoresHash i u π := by
  rintro ⟨-, ⟨_, hp⟩ | ⟨_, _, _, _, _, hp, -⟩⟩
  · simp [storesHash, hp] at h
  · simp [storesHash, hp] at h

/-- The reset stores the hash of a password of its request. -/
theorem stored_passwords_reset : ∃ (π : Pool Bool DB Proc) (row : UserRow), row ∈ π.db.users ∧
    ((∃ row₀ ∈ hashedOffice.users, row₀.id = row.id ∧ row₀.passwordHash = row.passwordHash) ∨
      ∃ i salt password, (resetThenLogin i).password = some (salt, password) ∧
        minPasswordLen ≤ password.utf8ByteSize ∧
        ∀ password', officePasswords.VerifyPassword row.passwordHash password' = true ↔
          officeKeys password'.toList (officeSalts salt) hashIterations keyLen =
            officeKeys password.toList (officeSalts salt) hashIterations keyLen) := by
  have h : (Pool.play (exec officePasswords) (fun _ _ => true) [false, false]
      (serve officePasswords hashedOffice 3 resetThenLogin)).any (fun π => (π.db.users.find? 2).isSome) = true := by
    decide +kernel
  obtain ⟨π, h, hrow⟩ := (Option.any_eq_true ..).1 h
  obtain ⟨row, hrow⟩ := Option.isSome_iff_exists.1 hrow
  have hmem := Table.mem_of_find? hrow
  exact ⟨π, row, hmem, stored_passwords officeKeys_derives hashedOffice_below hashedOffice_apart
    ((Pool.runs_play h).mono fun _ _ _ => trivial) hmem⟩

end Auth
