import Apchi.Auth.Oidc

/-!
# Logins that are under way

While the browser is at the provider, Apchi keeps what the callback will need, in a row of its own that
is deleted as it is read.  The browser has a text by whose digest the row is found.  Anybody may call the
callback with anything.
-/

namespace Apchi.Auth

open Lib Prog

/-! ### The routes -/

/-- The texts drawn for one operation: what is handed out, and the secrets of an attempt. -/
structure Drawn where
  value : String
  state : String := ""
  nonce : String := ""
  codeVerifier : String := ""
  deriving DecidableEq, Repr

/-- What a callback carries: the cookie of the attempt, and what the provider has appended. -/
structure Callback where
  cookie : Option String := none
  code : Option String := none
  state : Option String := none
  error : Option String := none
  deriving DecidableEq, Repr

/-- The handle in the cookie. -/
def Callback.handle (callback : Callback) : String := callback.cookie.getD ""

def SSO_REFUSED : String := "That SSO login could not be completed."

def SSO_UNAVAILABLE : String :=
  "Apchi cannot reach its identity provider, so nobody can sign in right now."

/-- Whether Python takes a text for true. -/
def given (text : Option String) : Bool := (text.getD "") != ""

section routes

variable {KeySet : Type} (deployment : Deployment) (library : OidcLibrary KeySet)
  (settings : OidcSettings)

/-- `_sso_only`. -/
def ssoOnly : Except Error Unit :=
  if deployment.authMode ≠ .sso then
    .error (unauthenticated ("Apchi is running in '" ++ deployment.authMode.value ++
      "' mode, which has no identity provider."))
  else .ok ()

/-- `LoginStore.start`, of a handle that has been drawn. -/
def startLogin (handle : String) (login : PendingLogin) : LoginProg KeySet Unit :=
  ask (.start (deployment.digest handle) { login with expiresAt := bsonDate login.expiresAt })

/-- `LoginStore.take`. -/
def takeLogin (handle : String) : LoginProg KeySet (Option PendingLogin) := do
  match ← ask (.take (deployment.digest handle)) with
  | none => pure none
  | some login =>
      let now ← ask (.accounts .now)
      if login.expiresAt ≤ now then pure none else pure (some login)

/-- `GET /auth/sso/login`: where the browser is sent. -/
def ssoLogin (drawn : Drawn) : LoginProg KeySet String := do
  ofExcept (ssoOnly deployment)
  let now ← ask (.accounts .now)
  let attempt : PendingLogin :=
    ⟨drawn.state, drawn.nonce, drawn.codeVerifier, now + settings.oidcLoginLifetime⟩
  match ← (authorizationUrl library settings attempt).attempt with
  | .error e =>
      if isOidcError e then Prog.raise (unauthenticated SSO_UNAVAILABLE) else Prog.raise e
  | .ok url =>
      startLogin deployment drawn.value attempt
      pure url

/-- Who the provider says this is, and with which role. -/
def verified (code : String) (attempt : PendingLogin) : LoginProg KeySet (String × Role) := do
  let idToken ← exchange library settings code attempt.codeVerifier
  let claims ← claims library settings idToken attempt.nonce
  let username ← ofExcept (usernameIn library settings claims)
  pure (username, roleIn settings claims)

/-- `GET /auth/sso/callback`; `drawn` is the value the session is handed out as. -/
def finishSso (drawn : String) (callback : Callback) : LoginProg KeySet Identity := do
  ofExcept (ssoOnly deployment)
  let attempt ← takeLogin deployment callback.handle
  let refused := unauthenticated SSO_REFUSED
  if given callback.error then Prog.raise refused
  else match attempt with
    | none => Prog.raise refused
    | some attempt =>
        if !given callback.code || !given callback.state ||
            callback.state.getD "" != attempt.state then Prog.raise refused
        else
          match ← (verified library settings (callback.code.getD "") attempt).attempt with
          | .error e => if isOidcError e then Prog.raise refused else Prog.raise e
          | .ok (username, role) =>
              (ssoCallback deployment drawn username role).lift LoginCall.accounts

end routes

/-! ### Operations -/

/-- An operation.  What begins where the provider has already spoken is no operation here. -/
inductive LoginOp where
  | other (op : AuthOp) (h : ∀ username role, op ≠ .ssoCallback username role)
  | ssoLogin
  | ssoCallback (callback : Callback)

section operations

variable {KeySet : Type} (deployment : Deployment) (library : OidcLibrary KeySet)
  (settings : OidcSettings)

/-- What an operation does. -/
def LoginOp.serve (drawn : Drawn) : LoginOp → LoginProg KeySet Unit
  | other op _ => (op.serve deployment drawn.value).lift LoginCall.accounts
  | ssoLogin => do
      let _ ← Auth.ssoLogin deployment library settings drawn
      pure ()
  | ssoCallback callback => do
      let _ ← finishSso deployment library settings drawn.value callback
      pure ()

end operations

/-! ### Calls -/

/-- What is stored, and what the process keeps. -/
structure LoginWorld (KeySet : Type) where
  accounts : Accounts
  logins : Std.ExtTreeMap String PendingLogin
  discovered : Option Discovered
  keys : Option KeySet

section calls

variable {KeySet : Type}

/-- What a call answers when it goes through.  What the provider answers is not to be said here. -/
def LoginWorld.exec : {β : Type} → LoginCall KeySet β → LoginWorld KeySet →
    Except Error β × LoginWorld KeySet
  | _, .accounts c, w =>
      ((Accounts.exec c w.accounts).1, { w with accounts := (Accounts.exec c w.accounts).2 })
  | _, .start digest login, w =>
      if digest ∈ w.logins then (.error duplicateKey, w)
      else (.ok (), { w with logins := w.logins.insert digest login })
  | _, .take digest, w => (.ok w.logins[digest]?, { w with logins := w.logins.erase digest })
  | _, .request _, w => (.error ⟨"HTTPError", ""⟩, w)
  | _, .discovered, w => (.ok w.discovered, w)
  | _, .setDiscovered discovered, w => (.ok (), { w with discovered := some discovered })
  | _, .keys, w => (.ok w.keys, w)
  | _, .setKeys keys, w => (.ok (), { w with keys := some keys })

/-- Whether a call leaves the process, and so may be lost. -/
def LoginCall.remote {β : Type} : LoginCall KeySet β → Bool
  | .accounts _ | .start _ _ | .take _ | .request _ => true
  | _ => false

/-- What a call asks the provider. -/
def LoginCall.asked {β : Type} : LoginCall KeySet β → Option ProviderRequest
  | .request asked => some asked
  | _ => none

/-- What can come of a call; the provider says what it will. -/
inductive LoginWorld.Answer : {β : Type} → LoginCall KeySet β → LoginWorld KeySet → Except Error β →
    LoginWorld KeySet → Prop where
  | through {β : Type} {c : LoginCall KeySet β} {w : LoginWorld KeySet} :
      Answer c w (LoginWorld.exec c w).1 (LoginWorld.exec c w).2
  | lost {β : Type} {c : LoginCall KeySet β} {w : LoginWorld KeySet} (h : c.remote = true) (e : Error) :
      Answer c w (.error e) w
  | unheard {β : Type} {c : LoginCall KeySet β} {w : LoginWorld KeySet} (h : c.remote = true)
      (e : Error) : Answer c w (.error e) (LoginWorld.exec c w).2
  | said {asked : ProviderRequest} {w : LoginWorld KeySet} (body : Json) :
      Answer (.request asked) w (.ok body) w

end calls

/-! ### The service -/

/-- An attempt: the digest of its handle, and its row. -/
abbrev LoginAttempt := String × PendingLogin

section service

variable {KeySet : Type}

/-- The attempt an operation has in hand: the last row it took, until it has opened a session. -/
def LoginCall.hold {β : Type} (held : Option LoginAttempt) : LoginCall KeySet β → Except Error β →
    Option LoginAttempt
  | .take digest => fun
    | .ok (some login) => some (digest, login)
    | _ => held
  | .accounts (.insertSession _ _) => fun _ => none
  | _ => fun _ => held

/-- The attempt a row written by the call begins, the row being new. -/
def LoginCall.starts {β : Type} (before after : LoginWorld KeySet) : LoginCall KeySet β →
    List LoginAttempt
  | .start digest login =>
      if digest ∉ before.logins ∧ after.logins[digest]? = some login then [(digest, login)] else []
  | _ => []

/-- What an operation has heard: the time, what the provider has said, the row of a user. -/
inductive Heard where
  | clock (now : Int)
  | said (asked : ProviderRequest) (body : Json)
  | mirrored (username : String) (role : Role) (user : User)

def LoginCall.hears {β : Type} : LoginCall KeySet β → Except Error β → List Heard
  | .accounts .now => fun
    | .ok now => [.clock now]
    | .error _ => []
  | .accounts (.upsertUser username role) => fun
    | .ok user => [.mirrored username role user]
    | .error _ => []
  | .request asked => fun
    | .ok body => [.said asked body]
    | .error _ => []
  | _ => fun _ => []

/-- A session that was opened: for which attempt, by which operation, and what that had heard. -/
structure Opening where
  digest : String
  session : Session
  attempt : Option LoginAttempt
  op : LoginOp
  heard : List Heard

/-- An operation under way, with what it has in hand and what it has heard. -/
structure LoginTask (KeySet : Type) where
  op : LoginOp
  held : Option LoginAttempt
  heard : List Heard
  rest : LoginProg KeySet Unit

/-- The `sso` session a call of an operation opens, its row being new. -/
def LoginCall.opens {β : Type} (task : LoginTask KeySet) (before after : LoginWorld KeySet) :
    LoginCall KeySet β → List Opening
  | .accounts (.insertSession digest session) =>
      if session.via = .sso ∧ digest ∉ before.accounts.sessions ∧
          after.accounts.sessions[digest]? = some session then
        [⟨digest, session, task.held, task.op, task.heard⟩]
      else []
  | _ => []

/-- The service, with the attempts there have been, what has been heard, and the sessions that were
opened. -/
structure LoginService (KeySet : Type) where
  world : LoginWorld KeySet
  tasks : List (LoginTask KeySet)
  started : List LoginAttempt
  heard : List Heard
  opened : List Opening

/-- Nobody has been created yet, and nothing has been discovered. -/
def LoginService.boot (now : Int) : LoginService KeySet :=
  ⟨⟨⟨∅, [], ∅, now⟩, ∅, none, none⟩, [], [], [], []⟩

inductive LoginEvent where
  | arrive (op : LoginOp) (drawn : Drawn)
  | call (i : Nat)
  | edit (username : String) (role : Role) (disabled : Bool)
  | remove (username : String)
  | reapSession (digest : String)
  | reapLogin (digest : String)
  | tick (now : Int)
  | die

/-- The service, with other collections. -/
def LoginService.withAccounts (s : LoginService KeySet) (accounts : Accounts) : LoginService KeySet :=
  { s with world := { s.world with accounts := accounts } }

variable (deployment : Deployment) (library : OidcLibrary KeySet) (settings : OidcSettings)

/-- A step of the service. -/
inductive LoginStep : LoginService KeySet → LoginEvent → LoginService KeySet → Prop where
  | arrive {s : LoginService KeySet} (op : LoginOp) (drawn : Drawn) :
      LoginStep s (.arrive op drawn)
        { s with tasks := s.tasks ++ [⟨op, none, [], op.serve deployment library settings drawn⟩] }
  | call {s : LoginService KeySet} {i : Nat} {task : LoginTask KeySet} {β : Type}
      {c : LoginCall KeySet β} {k : Except Error β → LoginProg KeySet Unit} {r : Except Error β}
      {world : LoginWorld KeySet} (htask : s.tasks[i]? = some task) (hrest : task.rest = .call c k)
      (hanswer : LoginWorld.Answer c s.world r world) :
      LoginStep s (.call i)
        { world := world
          tasks := s.tasks.set i ⟨task.op, c.hold task.held r, task.heard ++ c.hears r, k r⟩
          started := s.started ++ c.starts s.world world
          heard := s.heard ++ c.hears r
          opened := s.opened ++ c.opens task s.world world }
  | edit {s : LoginService KeySet} {username : String} {user : User}
      (huser : s.world.accounts.users[username]? = some user) (role : Role) (disabled : Bool) :
      LoginStep s (.edit username role disabled)
        (s.withAccounts { s.world.accounts with
          users := s.world.accounts.users.insert username
            { user with role := role, disabled := disabled } })
  | remove {s : LoginService KeySet} (username : String) :
      LoginStep s (.remove username)
        (s.withAccounts { s.world.accounts with users := s.world.accounts.users.erase username })
  | reapSession {s : LoginService KeySet} {digest : String} {session : Session}
      (hsession : s.world.accounts.sessions[digest]? = some session)
      (hexpired : session.expiresAt ≤ s.world.accounts.now) :
      LoginStep s (.reapSession digest)
        (s.withAccounts { s.world.accounts with
          sessions := s.world.accounts.sessions.erase digest })
  | reapLogin {s : LoginService KeySet} {digest : String} {login : PendingLogin}
      (hlogin : s.world.logins[digest]? = some login)
      (hexpired : login.expiresAt ≤ s.world.accounts.now) :
      LoginStep s (.reapLogin digest)
        { s with world := { s.world with logins := s.world.logins.erase digest } }
  | tick {s : LoginService KeySet} (now : Int) :
      LoginStep s (.tick now) (s.withAccounts { s.world.accounts with now := now })
  | die {s : LoginService KeySet} :
      LoginStep s .die { s with tasks := [], world := { s.world with discovered := none, keys := none } }

/-- The states a service that was booted on an empty database can come to. -/
abbrev LoginReachable (s : LoginService KeySet) : Prop :=
  ∃ now, Run (LoginStep deployment library settings) (fun _ _ _ => True) (LoginService.boot now) s

end service

end Apchi.Auth
