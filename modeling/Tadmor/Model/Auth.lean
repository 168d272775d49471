import Tadmor.Store.Autocommit
import Tadmor.Store.Table

/-!
# Users and sessions

Login, logout, the authorization of requests and the administration of users.  No request runs in a transaction:
each of its statements commits by itself, so a process is here the statement it runs next.

A session token stands for its SHA-256 hash, by which alone the database knows it.  Times are in microseconds, and
the clock of the server is that of the database.
-/

namespace Auth

structure UserRow where
  id : ℕ
  email : String
  fullName : String
  passwordHash : String
  isActive : Bool := true
  isAdmin : Bool := false
deriving DecidableEq

structure Session where
  tokenHash : ℕ
  userId : ℕ
  expiresAt : ℕ
deriving DecidableEq

instance : Keyed UserRow ℕ := ⟨UserRow.id⟩
instance : Keyed Session ℕ := ⟨Session.tokenHash⟩

structure DB where
  users : Table UserRow
  sessions : Table Session
  now : ℕ

/-- The identity attached to a request. -/
structure User where
  id : ℕ
  email : String
  fullName : String
  isAdmin : Bool
deriving DecidableEq

def UserRow.user (u : UserRow) : User := { id := u.id, email := u.email, fullName := u.fullName, isAdmin := u.isAdmin }

/-- Equality of `citext`. -/
def sameEmail (a b : String) : Bool := a.toLower = b.toLower

/-- Thirty days. -/
def SessionTTL : ℕ := 30 * 24 * 60 * 60 * 10 ^ 6

inductive Failure where
  | errNoUser
  | uniqueViolation
deriving DecidableEq

/-! ### Statements -/

namespace DB

def userByEmail (db : DB) (email : String) : Option UserRow := db.users.rows.find? fun u => sameEmail u.email email

/-- The active user for the email, with the stored password hash. -/
def Credentials (db : DB) (email : String) : Option (User × String) :=
  (db.users.rows.find? fun u => sameEmail u.email email && u.isActive).map fun u => (u.user, u.passwordHash)

/-- `ON CONFLICT (email) DO UPDATE`; `n` is the id an insert draws. -/
def UpsertUser (db : DB) (n : ℕ) (email fullName passwordHash : String) (isAdmin : Bool) : DB :=
  match db.userByEmail email with
  | none => { db with users := db.users.insert { id := n, email, fullName, passwordHash, isAdmin } }
  | some u => { db with users := db.users.update [u.id] fun u => { u with fullName, passwordHash, isActive := true, isAdmin } }

/-- The first statement of `CreateSession`: expired rows go. -/
def pruneSessions (db : DB) : DB :=
  { db with sessions := db.sessions.erase (db.sessions.keysWhere fun s => s.expiresAt < db.now) }

/-- Its second statement, unless the token or the user is refused. -/
def insertSession (db : DB) (token userId : ℕ) : Option DB :=
  if (db.sessions.find? token).isSome || (db.users.find? userId).isNone then none
  else some { db with sessions := db.sessions.insert ⟨token, userId, db.now + SessionTTL⟩ }

/-- The user of a token: its session is not expired and its user active. -/
def SessionUser (db : DB) (token : ℕ) : Option User :=
  ((db.sessions.find? token).filter fun s => db.now < s.expiresAt).bind fun s =>
    ((db.users.find? s.userId).filter (·.isActive)).map UserRow.user

def DeleteSession (db : DB) (token : ℕ) : DB := { db with sessions := db.sessions.erase [token] }

def CreateUser (db : DB) (n : ℕ) (email fullName passwordHash : String) (isAdmin : Bool) : Except Failure DB :=
  if (db.userByEmail email).isSome then .error .uniqueViolation
  else .ok { db with users := db.users.insert { id := n, email, fullName, passwordHash, isAdmin } }

def UpdateUser (db : DB) (id : ℕ) (email fullName : String) (isActive isAdmin : Bool) : Except Failure DB :=
  if (db.users.find? id).isNone then .error .errNoUser
  else if db.users.rows.any fun u => u.id ≠ id && sameEmail u.email email then .error .uniqueViolation
  else .ok { db with users := db.users.update [id] fun u => { u with email, fullName, isActive, isAdmin } }

/-- The first statement of `SetPassword`. -/
def setPasswordHash (db : DB) (id : ℕ) (passwordHash : String) : Except Failure DB :=
  if (db.users.find? id).isNone then .error .errNoUser
  else .ok { db with users := db.users.update [id] fun u => { u with passwordHash } }

/-- Its second statement: the sessions of the user go. -/
def deleteSessions (db : DB) (id : ℕ) : DB :=
  { db with sessions := db.sessions.erase (db.sessions.keysWhere fun s => s.userId = id) }

end DB

/-! ### Requests -/

/-- `HashPassword`, with the salt it draws, and `VerifyPassword`. -/
structure Passwords where
  HashPassword : ℕ → String → String
  VerifyPassword : String → String → Bool

/-- The user-management requests.  Emails and names are trimmed. -/
inductive Action where
  | createUser (email fullName password : String) (salt : ℕ) (isAdmin : Bool)
  | updateUser (id : ℕ) (email fullName : String) (isActive isAdmin : Bool)
  | setUserPassword (id : ℕ) (password : String) (salt : ℕ)
deriving DecidableEq

/-- A login comes with the token it will draw, the other requests with the token of their cookie. -/
inductive Request where
  | login (email password : String) (token : ℕ)
  | logout (cookie : Option ℕ)
  | api (cookie : Option ℕ) (action : Action)
  | adduser (email fullName password : String) (salt : ℕ) (isAdmin : Bool)
deriving DecidableEq

structure Reply where
  status : ℕ
  message : String := ""
deriving DecidableEq

/-- A process, by the statement it runs next. -/
inductive Proc where
  | credentials (email password : String) (token : ℕ)
  | pruneSessions (userId token : ℕ)
  | insertSession (userId token : ℕ)
  | deleteSession (token : ℕ)
  | sessionUser (token : ℕ) (action : Action)
  | createUser (email fullName passwordHash : String) (isAdmin : Bool)
  | updateUser (me id : ℕ) (email fullName : String) (isActive isAdmin : Bool)
  | setPassword (id : ℕ) (passwordHash : String)
  | deleteSessions (id : ℕ)
  | upsertUser (email fullName passwordHash : String) (isAdmin : Bool)
  | done (reply : Reply)
deriving DecidableEq

/-- The answer to an unacceptable email or name. -/
def validEmailAndName (email fullName : String) : Option Reply :=
  if email = "" then some ⟨400, "email is required"⟩
  else if fullName = "" then some ⟨400, "full_name is required"⟩
  else if '@' ∉ email.toList then some ⟨422, "email must contain @"⟩
  else none

def minPasswordLen : ℕ := 8

/-- The answer to an unacceptable password. -/
def validPassword (password : String) : Option Reply :=
  if password = "" then some ⟨400, "password is required"⟩
  else if password.utf8ByteSize < minPasswordLen then some ⟨422, "password must be at least 8 characters"⟩
  else none

/-- The handlers of the user-management requests up to their first write, behind `admin`. -/
def Action.handle (pw : Passwords) (me : User) (action : Action) : Proc :=
  if !me.isAdmin then .done ⟨403, "administrator access required"⟩
  else match action with
  | .createUser email fullName password salt isAdmin =>
    match (validEmailAndName email fullName).or (validPassword password) with
    | some reply => .done reply
    | none => .createUser email fullName (pw.HashPassword salt password) isAdmin
  | .updateUser id email fullName isActive isAdmin =>
    match validEmailAndName email fullName with
    | some reply => .done reply
    | none =>
      -- the guardrails against locking every administrator out one click at a time
      if me.id = id && !isActive then .done ⟨422, "you cannot deactivate your own account"⟩
      else if me.id = id && !isAdmin then .done ⟨422, "you cannot remove your own administrator access"⟩
      else .updateUser me.id id email fullName isActive isAdmin
  | .setUserPassword id password salt =>
    match validPassword password with
    | some reply => .done reply
    | none => .setPassword id (pw.HashPassword salt password)

/-- A request before its first statement. -/
def Request.start (pw : Passwords) : Request → Proc
  | .login email password token =>
    if email = "" || password = "" then .done ⟨400, "email and password are required"⟩
    else .credentials email password token
  | .logout none => .done { status := 204 }
  | .logout (some token) => .deleteSession token
  | .api none _ => .done ⟨401, "authentication required"⟩
  | .api (some token) action => .sessionUser token action
  | .adduser email fullName password salt isAdmin =>
    if email = "" || fullName = "" then .done ⟨1, "-adduser requires -email and -name"⟩
    else if password.utf8ByteSize < minPasswordLen then .done ⟨1, "password must be at least 8 characters"⟩
    else .upsertUser email fullName (pw.HashPassword salt password) isAdmin

/-- `writeUserError` -/
def Failure.reply : Failure → Reply
  | .errNoUser => ⟨404, "not found"⟩
  | .uniqueViolation => ⟨409, "duplicate key value violates unique constraint \"users_email_key\""⟩

/-- The answer to a write, after which the request goes on with `next`. -/
def writeUser (db : DB) (next : Proc) : Except Failure DB → DB × Proc
  | .ok d => (d, next)
  | .error e => (db, .done e.reply)

/-- The next statement of a process; `n` is a number that no statement drew before. -/
def exec (pw : Passwords) (n : ℕ) : Proc → DB → Option (DB × Proc)
  | .credentials email password token, db =>
    match db.Credentials email with
    | none => some (db, .done ⟨401, "invalid email or password"⟩)
    | some (u, hash) =>
      if pw.VerifyPassword hash password then some (db, .pruneSessions u.id token)
      else some (db, .done ⟨401, "invalid email or password"⟩)
  | .pruneSessions userId token, db => some (db.pruneSessions, .insertSession userId token)
  | .insertSession userId token, db =>
    match db.insertSession token userId with
    | some d => some (d, .done { status := 200 })
    | none => some (db, .done ⟨500, "internal error"⟩)
  | .deleteSession token, db => some (db.DeleteSession token, .done { status := 204 })
  | .sessionUser token action, db =>
    match db.SessionUser token with
    | none => some (db, .done ⟨401, "session expired"⟩)
    | some me => some (db, action.handle pw me)
  | .createUser email fullName passwordHash isAdmin, db =>
    some (writeUser db (.done { status := 201 }) (db.CreateUser n email fullName passwordHash isAdmin))
  | .updateUser _ id email fullName isActive isAdmin, db =>
    some (writeUser db (.done { status := 204 }) (db.UpdateUser id email fullName isActive isAdmin))
  | .setPassword id passwordHash, db => some (writeUser db (.deleteSessions id) (db.setPasswordHash id passwordHash))
  | .deleteSessions id, db => some (db.deleteSessions id, .done { status := 204 })
  | .upsertUser email fullName passwordHash isAdmin, db =>
    some (db.UpsertUser n email fullName passwordHash isAdmin, .done { status := 0 })
  | .done _, _ => none

/-- Time passes. -/
def Tick (db db' : DB) : Prop := ∃ t, db.now ≤ t ∧ db' = { db with now := t }

/-- The requests `reqs` sent at once. -/
def serve {ι : Type} (pw : Passwords) (db : DB) (seq : ℕ) (reqs : ι → Request) : Pool ι DB Proc :=
  ⟨db, seq, fun i => (reqs i).start pw⟩

end Auth
