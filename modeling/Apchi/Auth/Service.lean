import Apchi.Auth.Stores
import Apchi.Lib.Moments
import Apchi.Lib.Run

/-!
# The service that signs people in

Operations arrive in any order and make their calls among each other's; users are changed by hand, the
clock moves, sessions that have expired are reaped, and the process may die.  Beside what is stored, the
service is spoken of with what has been handed out, and to whom.
-/

namespace Apchi.Auth

open Lib Prog

/-! ### Operations -/

inductive AuthOp where
  | createUser (user : User)
  | ensureInitialAdmin (username passwordHash : String)
  | login (username password : String)
  | ssoCallback (username : String) (role : Role)
  | logout (request : HttpRequest)
  | createToken (request : HttpRequest) (id name : String) (expiresInDays : Option Nat)
  | revokeToken (request : HttpRequest) (tokenId : String)
  | me (request : HttpRequest)

section operations

variable (deployment : Deployment)

/-- `POST /auth/login`; `drawn` is the value the session is handed out as. -/
def login (drawn username password : String) : AuthProg Identity :=
  if deployment.authMode ≠ .password then
    Prog.raise (unauthenticated ("Apchi is running in '" ++ deployment.authMode.value ++
      "' mode, which has no passwords."))
  else do
    match ← authenticate deployment username password with
    | none => Prog.raise (unauthenticated
        "That username and password do not match an enabled account.")
    | some user =>
        createSession deployment drawn user.username .password
        pure (user.identity .password)

/-- `GET /auth/sso/callback`, from where the provider has said who this is. -/
def ssoCallback (drawn username : String) (role : Role) : AuthProg Identity :=
  if deployment.authMode ≠ .sso then
    Prog.raise (unauthenticated ("Apchi is running in '" ++ deployment.authMode.value ++
      "' mode, which has no identity provider."))
  else do
    match ← mirror username role with
    | none => Prog.raise (unauthenticated "That SSO login could not be completed.")
    | some user =>
        createSession deployment drawn user.username .sso
        pure (user.identity .sso)

/-- `POST /auth/logout`. -/
def logout (request : HttpRequest) : AuthProg Unit := do
  let _ ← caller deployment request
  match request.cookie with
  | none => pure ()
  | some value =>
      if value = "" then pure () else call (.deleteSession (deployment.digest value))

/-- `POST /tokens`. -/
def postToken (drawn : String) (request : HttpRequest) (id name : String)
    (expiresInDays : Option Nat) : AuthProg Token := do
  let identity ← caller deployment request
  if deployment.authMode = .none ∨ identity.subject = ANONYMOUS then
    Prog.raise ⟨"UnprocessablePayload", "There is nobody to own a token: Apchi is running in " ++
      "'none' mode, where every caller is anonymous. Configure an authentication mode first."⟩
  else createToken deployment drawn id identity.subject name expiresInDays

/-- `DELETE /tokens/ID`. -/
def deleteToken (request : HttpRequest) (tokenId : String) : AuthProg Unit := do
  let identity ← caller deployment request
  let notFound : Error := ⟨"NotFound", "You have no token '" ++ tokenId ++ "'."⟩
  match ← call (.getToken tokenId) with
  | none => Prog.raise notFound
  | some token =>
      if token.owner ≠ identity.subject then Prog.raise notFound
      else
        let _ ← revoke tokenId
        pure ()

/-- What an operation does. -/
def AuthOp.serve (drawn : String) : AuthOp → AuthProg Unit
  | createUser user => call (.insertUser user)
  | ensureInitialAdmin username passwordHash => do
      let _ ← Auth.ensureInitialAdmin username passwordHash
      pure ()
  | login username password => do
      let _ ← Auth.login deployment drawn username password
      pure ()
  | ssoCallback username role => do
      let _ ← Auth.ssoCallback deployment drawn username role
      pure ()
  | logout request => Auth.logout deployment request
  | createToken request id name expiresInDays => do
      let _ ← postToken deployment drawn request id name expiresInDays
      pure ()
  | revokeToken request tokenId => deleteToken deployment request tokenId
  | me request => do
      let _ ← caller deployment request
      pure ()

end operations

/-! ### The service -/

inductive Credential where
  | token
  | session
  deriving DecidableEq

/-- A text that was handed out, and whom it was handed to stand for. -/
structure Issuance where
  credential : Credential
  text : String
  user : String
  deriving DecidableEq

/-- An operation under way, with the text drawn for it. -/
structure AuthTask where
  drawn : String
  rest : AuthProg Unit

structure AuthService where
  accounts : Accounts
  issued : List Issuance
  tasks : List AuthTask

/-- Nobody has been created yet. -/
def AuthService.boot (now : Int) : AuthService := ⟨⟨∅, [], ∅, now⟩, [], []⟩

/-- What a call has handed out, its document being there. -/
def AuthCall.issues {β : Type} (drawn : String) (accounts : Accounts) : AuthCall β → List Issuance
  | .insertToken token =>
      if token ∈ accounts.tokens then [⟨.token, drawn, token.owner⟩] else []
  | .insertSession digest session =>
      if accounts.sessions[digest]? = some session then [⟨.session, drawn, session.username⟩] else []
  | _ => []

inductive AuthEvent where
  | arrive (op : AuthOp) (drawn : String)
  | call (i : Nat)
  | edit (username : String) (role : Role) (disabled : Bool)
  | remove (username : String)
  | reap (digest : String)
  | tick (now : Int)
  | die

/-- A step of the service. -/
inductive AuthStep (deployment : Deployment) : AuthService → AuthEvent → AuthService → Prop where
  | arrive {s : AuthService} (op : AuthOp) (drawn : String) :
      AuthStep deployment s (.arrive op drawn)
        { s with tasks := s.tasks ++ [⟨drawn, op.serve deployment drawn⟩] }
  | call {s : AuthService} {i : Nat} {drawn : String} {β : Type} {c : AuthCall β}
      {k : Except Error β → AuthProg Unit} {r : Except Error β} {accounts : Accounts}
      (htask : s.tasks[i]? = some ⟨drawn, .call c k⟩)
      (hanswer : accountsMachine.Answer c s.accounts r accounts) :
      AuthStep deployment s (.call i)
        ⟨accounts, s.issued ++ c.issues drawn accounts, s.tasks.set i ⟨drawn, k r⟩⟩
  | edit {s : AuthService} {username : String} {user : User}
      (huser : s.accounts.users[username]? = some user) (role : Role) (disabled : Bool) :
      AuthStep deployment s (.edit username role disabled)
        { s with accounts := { s.accounts with
            users := s.accounts.users.insert username
              { user with role := role, disabled := disabled } } }
  | remove {s : AuthService} (username : String) :
      AuthStep deployment s (.remove username)
        { s with accounts := { s.accounts with users := s.accounts.users.erase username } }
  | reap {s : AuthService} {digest : String} {session : Session}
      (hsession : s.accounts.sessions[digest]? = some session)
      (hexpired : session.expiresAt ≤ s.accounts.now) :
      AuthStep deployment s (.reap digest)
        { s with accounts := { s.accounts with sessions := s.accounts.sessions.erase digest } }
  | tick {s : AuthService} (now : Int) :
      AuthStep deployment s (.tick now) { s with accounts := { s.accounts with now := now } }
  | die {s : AuthService} : AuthStep deployment s .die { s with tasks := [] }

/-- The states a service that was booted on an empty database can come to. -/
abbrev Reachable (deployment : Deployment) (s : AuthService) : Prop :=
  ∃ now, Run (AuthStep deployment) (fun _ _ _ => True) (AuthService.boot now) s

/-- What is stored, and what has been handed out. -/
structure Moment where
  accounts : Accounts
  issued : List Issuance

def AuthService.moment (s : AuthService) : Moment := ⟨s.accounts, s.issued⟩

/-- What the service does from one moment to a later one. -/
def Serves (deployment : Deployment) (m m' : Moment) : Prop :=
  ∃ s s', Reachable deployment s ∧ Run (AuthStep deployment) (fun _ _ _ => True) s s' ∧
    s.moment = m ∧ s'.moment = m'

/-- What can come of a call of a request. -/
def requestAnswers : Answers AuthCall Moment :=
  fun _ c m r m' => ∃ accounts, accountsMachine.Answer c m.accounts r accounts ∧
    m' = { m with accounts := accounts }

end Apchi.Auth
