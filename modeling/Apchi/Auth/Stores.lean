import Apchi.Pipeline.Stores

/-!
# Users, tokens and sessions, and who a request is from

Three collections decide who may call Apchi.  A token or a session is kept under the digest of a text
that is handed out once and stored nowhere; whom it stands for, and with which role, is read from the
user's row at every request.
-/

namespace Apchi.Auth

open Lib

/-! ### Identities -/

inductive Role where
  | operator
  | admin
  deriving DecidableEq, Repr

inductive Via where
  | none
  | password
  | sso
  | token
  deriving DecidableEq, Repr

def ANONYMOUS : String := "anonymous"

/-- One caller, for one request. -/
structure Identity where
  subject : String
  role : Role
  via : Via
  tokenId : Option String := none
  deriving DecidableEq, Repr

/-- The caller in `none` mode. -/
def NOBODY : Identity := ⟨ANONYMOUS, .admin, .none, none⟩

inductive AuthMode where
  | none
  | password
  | sso
  deriving DecidableEq, Repr

def AuthMode.value : AuthMode → String
  | none => "none"
  | password => "password"
  | sso => "sso"

/-! ### Documents -/

structure User where
  username : String
  passwordHash : Option String := none
  role : Role
  disabled : Bool := false
  deriving DecidableEq, Repr

/-- How a user appears as a caller. -/
def User.identity (user : User) (via : Via) : Identity := ⟨user.username, user.role, via, none⟩

/-- A document of the tokens collection; instants are microseconds. -/
structure Token where
  id : String
  owner : String
  name : String
  createdAt : Int
  expiresAt : Option Int := none
  lastUsedAt : Option Int := none
  revokedAt : Option Int := none
  tokenDigest : String
  deriving DecidableEq, Repr

def Token.live (token : Token) (now : Int) : Bool :=
  if token.revokedAt.isSome then false
  else match token.expiresAt with
    | none => true
    | some expiresAt => decide (now < expiresAt)

theorem Token.live_iff {token : Token} {now : Int} :
    token.live now = true ↔ token.revokedAt = none ∧ ∀ expiry ∈ token.expiresAt, now < expiry := by
  unfold Token.live
  cases token.revokedAt with
  | some revoked => simp
  | none => cases token.expiresAt <;> simp

structure Session where
  username : String
  via : Via
  expiresAt : Int
  deriving DecidableEq, Repr

/-- A date as MongoDB keeps it: to the millisecond. -/
def bsonDate (instant : Int) : Int := instant - instant % 1000

/-- The collections, and what the clock reads. -/
structure Accounts where
  users : Std.ExtTreeMap String User
  tokens : List Token
  sessions : Std.ExtTreeMap String Session
  now : Int

/-! ### Calls -/

/-- The calls on the collections and the clock, and the audit event of a token. -/
inductive AuthCall : Type → Type where
  | now : AuthCall Int
  | findUser (username : String) : AuthCall (Option User)
  | insertUser (user : User) : AuthCall Unit
  | countUsers : AuthCall Nat
  | setPasswordHash (username passwordHash : String) : AuthCall Unit
  | upsertUser (username : String) (role : Role) : AuthCall User
  | insertToken (token : Token) : AuthCall Unit
  | findToken (tokenDigest : String) : AuthCall (Option Token)
  | getToken (id : String) : AuthCall (Option Token)
  | setLastUsed (id : String) (at' : Int) : AuthCall Unit
  | setRevoked (id : String) (at' : Int) : AuthCall Bool
  | insertSession (digest : String) (session : Session) : AuthCall Unit
  | findSession (digest : String) : AuthCall (Option Session)
  | deleteSession (digest : String) : AuthCall Unit
  | recordAudit (action tokenId : String) (detail : Option String) : AuthCall Unit

def duplicateKey : Error := ⟨"DuplicateKeyError", "E11000 duplicate key error"⟩

namespace Accounts

/-- `find_one_and_update` with `upsert`: the role is set, the rest only on insertion. -/
def mirrored (accounts : Accounts) (username : String) (role : Role) : User :=
  match accounts.users[username]? with
  | some user => { user with role := role }
  | none => { username := username, role := role }

/-- One document of the tokens collection, changed. -/
def updateToken (accounts : Accounts) (id : String) (change : Token → Token) : Accounts :=
  { accounts with tokens := accounts.tokens.map fun token =>
      if token.id = id then change token else token }

/-- What a call answers when it goes through. -/
def exec : {β : Type} → AuthCall β → Accounts → Except Error β × Accounts
  | _, .now, accounts => (.ok accounts.now, accounts)
  | _, .findUser username, accounts => (.ok accounts.users[username]?, accounts)
  | _, .insertUser user, accounts =>
      if user.username ∈ accounts.users then (.error duplicateKey, accounts)
      else (.ok (), { accounts with users := accounts.users.insert user.username user })
  | _, .countUsers, accounts => (.ok accounts.users.size, accounts)
  | _, .setPasswordHash username passwordHash, accounts =>
      match accounts.users[username]? with
      | some user => (.ok (), { accounts with
          users := accounts.users.insert username { user with passwordHash := some passwordHash } })
      | none => (.ok (), accounts)
  | _, .upsertUser username role, accounts =>
      (.ok (accounts.mirrored username role), { accounts with
        users := accounts.users.insert username (accounts.mirrored username role) })
  | _, .insertToken token, accounts =>
      if accounts.tokens.any fun other => other.id == token.id then (.error duplicateKey, accounts)
      else (.ok (), { accounts with tokens := accounts.tokens ++ [token] })
  | _, .findToken tokenDigest, accounts =>
      (.ok (accounts.tokens.find? fun token => token.tokenDigest == tokenDigest), accounts)
  | _, .getToken id, accounts => (.ok (accounts.tokens.find? fun token => token.id == id), accounts)
  | _, .setLastUsed id instant, accounts =>
      (.ok (), accounts.updateToken id fun token => { token with lastUsedAt := some instant })
  | _, .setRevoked id instant, accounts =>
      if accounts.tokens.any fun token => token.id == id && token.revokedAt.isNone then
        (.ok true, accounts.updateToken id fun token =>
          if token.revokedAt.isNone then { token with revokedAt := some instant } else token)
      else (.ok false, accounts)
  | _, .insertSession digest session, accounts =>
      if digest ∈ accounts.sessions then (.error duplicateKey, accounts)
      else (.ok (), { accounts with sessions := accounts.sessions.insert digest session })
  | _, .findSession digest, accounts => (.ok accounts.sessions[digest]?, accounts)
  | _, .deleteSession digest, accounts =>
      (.ok (), { accounts with sessions := accounts.sessions.erase digest })
  | _, .recordAudit _ _ _, accounts => (.ok (), accounts)

end Accounts

/-- The collections as a machine.  A document another one's digest would keep out, where the index on
it is there, is a call that is lost. -/
def accountsMachine : Machine AuthCall Accounts := ⟨Accounts.exec⟩

abbrev AuthProg (α : Type) := Prog AuthCall α

/-- One call on the collections. -/
abbrev call {α : Type} (c : AuthCall α) : AuthProg α := Prog.perform c

/-! ### The stores -/

/-- What Apchi takes from elsewhere and from its settings: the digest of what it hands out, the
password hasher, the mode and how long a session lasts. -/
structure Deployment where
  digest : String → String
  hashPassword : String → String
  matchesHash : String → String → Bool
  needsRehash : String → Bool
  authMode : AuthMode
  sessionLifetime : Int

section stores

variable (deployment : Deployment)

/-- `verify`: no stored hash matches nothing. -/
def Deployment.verify (password : String) : Option String → Bool
  | none => false
  | some stored => deployment.matchesHash stored password

/-- `UserStore.authenticate`. -/
def authenticate (username password : String) : AuthProg (Option User) := do
  let user ← call (.findUser username)
  match user with
  | none => pure none
  | some user =>
      if !deployment.verify password user.passwordHash || user.disabled then pure none
      else
        if user.passwordHash.any deployment.needsRehash then
          call (.setPasswordHash user.username (deployment.hashPassword password))
        pure (some user)

/-- `UserStore.mirror`. -/
def mirror (username : String) (role : Role) : AuthProg (Option User) := do
  let user ← call (.upsertUser username role)
  if user.disabled then pure none else pure (some user)

/-- `UserStore.ensure_initial_admin`. -/
def ensureInitialAdmin (username passwordHash : String) : AuthProg Bool := do
  let count ← call .countUsers
  if 0 < count then pure false
  else
    match ← (call (.insertUser
        { username := username, passwordHash := some passwordHash, role := .admin })).attempt with
    | .ok _ => pure true
    | .error e => if e.kind = "DuplicateKeyError" then pure false else Prog.raise e

/-- `SessionStore.create`, of a value that has been drawn. -/
def createSession (value username : String) (via : Via) : AuthProg Unit := do
  let now ← call .now
  call (.insertSession (deployment.digest value)
    ⟨username, via, bsonDate (now + deployment.sessionLifetime)⟩)

/-- `SessionStore.read`. -/
def readSession (value : String) : AuthProg (Option Session) := do
  match ← call (.findSession (deployment.digest value)) with
  | none => pure none
  | some session =>
      let now ← call .now
      if session.expiresAt ≤ now then pure none else pure (some session)

/-- `TokenStore._audited`: one event, never fatal. -/
def tokenAudited (action tokenId : String) (detail : Option String) : AuthProg Unit := do
  match ← (call (.recordAudit action tokenId detail)).attempt with
  | .ok _ => pure ()
  | .error e => if Pipeline.isPyMongoError e then pure () else Prog.raise e

/-- A day in microseconds. -/
def DAY : Int := 86400000000

/-- `TokenStore.create`, of a secret and an id that have been drawn. -/
def createToken (secret id owner name : String) (expiresInDays : Option Nat) :
    AuthProg Token := do
  let createdAt ← call .now
  let expiresFrom ← call .now
  let token : Token :=
    { id := id, owner := owner, name := name, createdAt := createdAt
      expiresAt := expiresInDays.map fun days => expiresFrom + days * DAY
      tokenDigest := deployment.digest secret }
  call (.insertToken token)
  tokenAudited "minted" id (some ("'" ++ name ++ "' for " ++ owner))
  pure token

/-- `TokenStore.touch`. -/
def touch (tokenId : String) : AuthProg Unit := do
  let now ← call .now
  call (.setLastUsed tokenId (bsonDate now))

/-- `TokenStore.revoke`. -/
def revoke (tokenId : String) : AuthProg Bool := do
  let now ← call .now
  let revoked ← call (.setRevoked tokenId (bsonDate now))
  if revoked then tokenAudited "revoked" tokenId none
  pure revoked

/-! ### The caller of a request -/

/-- What a request carries: its `Authorization` header and its session cookie. -/
structure HttpRequest where
  authorization : String := ""
  cookie : Option String := none

def PREFIX : String := "apchi_"

/-- `str.partition`, of the first blank. -/
def partitionBlank (text : String) : String × String :=
  (String.ofList (text.toList.takeWhile (· ≠ ' ')),
    String.ofList ((text.toList.dropWhile (· ≠ ' ')).drop 1))

/-- The secret of a bearer token of Apchi's, where the header holds one. -/
def HttpRequest.bearer (request : HttpRequest) : Option String :=
  let (scheme, secret) := partitionBlank request.authorization
  if scheme.toLower ≠ "bearer" || !secret.startsWith PREFIX then none else some secret

def unauthenticated (text : String) : Error := ⟨"Unauthenticated", text⟩

/-- `_from_bearer`. -/
def fromBearer (request : HttpRequest) : AuthProg (Option Identity) :=
  match request.bearer with
  | none => pure none
  | some secret => do
      let refused := unauthenticated "That token is not valid, has expired, or has been revoked."
      match ← call (.findToken (deployment.digest secret)) with
      | none => Prog.raise refused
      | some token =>
          let now ← call .now
          if !token.live now then Prog.raise refused
          else
            let gone := unauthenticated
              ("The account that owns this token ('" ++ token.owner ++ "') is disabled or gone.")
            match ← call (.findUser token.owner) with
            | none => Prog.raise gone
            | some owner =>
                if owner.disabled then Prog.raise gone
                else
                  touch token.id
                  pure (some ⟨owner.username, owner.role, .token, some token.id⟩)

/-- `_from_session`. -/
def fromSession (request : HttpRequest) : AuthProg (Option Identity) :=
  match request.cookie with
  | none => pure none
  | some value =>
      if value = "" then pure none
      else do
        match ← readSession deployment value with
        | none => pure none
        | some session =>
            match ← call (.findUser session.username) with
            | none => pure none
            | some user => if user.disabled then pure none else pure (some (user.identity session.via))

/-- Where one signs in, in each mode that has a way in. -/
def SIGN_IN_AT : AuthMode → Option String
  | .none => none
  | .password => some "Sign in at POST /api/v1/auth/login"
  | .sso => some "Sign in at GET /api/v1/auth/sso/login"

/-- `caller`. -/
def caller (request : HttpRequest) : AuthProg Identity :=
  if deployment.authMode = .none then pure NOBODY
  else do
    match ← fromBearer deployment request with
    | some identity => pure identity
    | none =>
        match SIGN_IN_AT deployment.authMode with
        | none => Prog.raise (unauthenticated ("Authentication mode '" ++
            deployment.authMode.value ++ "' is configured but this build has no way to " ++
            "authenticate against it."))
        | some signIn =>
            match ← fromSession deployment request with
            | some identity => pure identity
            | none => Prog.raise (unauthenticated
                (signIn ++ ", or send a token as 'Authorization: Bearer apchi_...'."))

end stores

end Apchi.Auth
