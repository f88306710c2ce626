import Apchi.Auth.Service
import Apchi.Lib.Base64
import Apchi.Lib.Json
import Apchi.Lib.PyText

/-!
# Apchi as a client of its identity provider

Everything is discovered from the issuer: where the browser is sent, where a code is exchanged, and the
keys an ID token is verified with.  What has been discovered is kept in the process.  What the provider
answers, and whether it does, is up to the provider.
-/

namespace Apchi.Auth

open Lib Prog

/-! ### Settings -/

/-- The settings of the `sso` mode; a lifetime is in microseconds. -/
structure OidcSettings where
  oidcIssuer : Option String := none
  oidcClientId : Option String := none
  oidcClientSecret : Option String := none
  oidcRedirectUrl : Option String := none
  oidcScopes : String := "openid profile email groups"
  oidcUsernameClaim : String := "preferred_username"
  oidcRoleClaim : String := "groups"
  oidcAdminGroups : String := ""
  oidcLoginLifetime : Int := 300000000

/-- `Settings.oidc_scope_list`. -/
def OidcSettings.scopes (settings : OidcSettings) : List String :=
  ((settings.oidcScopes.toList.splitOnP PyText.isBlank).filter (· ≠ [])).map String.ofList

/-- `Settings.admin_groups`. -/
def OidcSettings.adminGroups (settings : OidcSettings) : List String :=
  ((settings.oidcAdminGroups.splitOn ",").map PyText.stripped).filter (· ≠ "")

/-! ### What is kept and what is asked -/

/-- `PendingLogin`. -/
structure PendingLogin where
  state : String
  nonce : String
  codeVerifier : String
  expiresAt : Int
  deriving DecidableEq, Repr

/-- The provider's own description of itself; the algorithms are in order. -/
structure Discovered where
  issuer : String
  authorizationEndpoint : String
  tokenEndpoint : String
  jwksUri : String
  algorithms : List String
  secretInHeader : Bool
  deriving DecidableEq, Repr

/-- What Apchi sends its provider. -/
structure ProviderRequest where
  method : String
  url : String
  form : List (String × String) := []
  auth : Option (String × String) := none
  deriving DecidableEq, Repr

/-- The calls of a login: on the collections, on the provider, and on what the process keeps. -/
inductive LoginCall (KeySet : Type) : Type → Type 1 where
  | accounts {β : Type} (c : AuthCall β) : LoginCall KeySet β
  | start (digest : String) (login : PendingLogin) : LoginCall KeySet Unit
  | take (digest : String) : LoginCall KeySet (Option PendingLogin)
  | request (asked : ProviderRequest) : LoginCall KeySet Json
  | discovered : LoginCall KeySet (Option Discovered)
  | setDiscovered (discovered : Discovered) : LoginCall KeySet Unit
  | keys : LoginCall KeySet (Option KeySet)
  | setKeys (keys : KeySet) : LoginCall KeySet Unit

abbrev LoginProg (KeySet : Type) (α : Type) := Prog (LoginCall KeySet) α

abbrev Claims := List (String × Json)

/-- What Apchi takes from elsewhere: how a value that is no text is written, the hash of a challenge,
and the library that reads keys, checks signatures and checks claims. -/
structure OidcLibrary (KeySet : Type) where
  str : Json → String
  repr : String → String
  sha256 : List UInt8 → List UInt8
  importKeySet : List Json → Except Error KeySet
  decode : (idToken : String) → (keys : KeySet) → (algorithms : List String) → Except Error Claims
  validate : (issuer clientId : String) → (now : Int) → Claims → Except Error Unit

/-! ### Errors -/

def oidcError (text : String) : Error := ⟨"OidcError", text⟩

/-- `OidcNotConfigured` is one of them. -/
def isOidcError (e : Error) : Bool := e.kind == "OidcError" || e.kind == "OidcNotConfigured"

def isJoseError (e : Error) : Bool := e.kind == "JoseError"

/-- `str`. -/
def OidcLibrary.asText {KeySet : Type} (library : OidcLibrary KeySet) : Json → String
  | .str text => text
  | value => library.str value

/-- The name of a value's type. -/
def typeName : Json → String
  | .null => "NoneType"
  | .bool _ => "bool"
  | .int _ => "int"
  | .float _ => "float"
  | .str _ => "str"
  | .arr _ => "list"
  | .obj _ => "dict"

/-! ### URLs -/

/-- `str.rstrip`, of slashes. -/
def withoutSlashes (url : String) : String := .ofList (url.toList.rdropWhile (· == '/'))

/-- `urllib.parse.quote_plus`. -/
def quotePlus (text : String) : List Char :=
  (text.toList.flatMap String.utf8EncodeChar).flatMap fun byte =>
    let c := Char.ofNat byte.toNat
    if c.isAlphanum || "_.-~".toList.contains c then [c]
    else if c = ' ' then ['+']
    else ['%', (Nat.digitChar (byte.toNat / 16)).toUpper, (Nat.digitChar (byte.toNat % 16)).toUpper]

/-- `urllib.parse.urlencode`. -/
def urlencode (query : List (String × String)) : String :=
  "&".intercalate (query.map fun field =>
    String.ofList (quotePlus field.1 ++ '=' :: quotePlus field.2))

section client

variable {KeySet : Type} (library : OidcLibrary KeySet) (settings : OidcSettings)

/-- One call of a login. -/
abbrev ask {α : Type} (c : LoginCall KeySet α) : LoginProg KeySet α := Prog.perform c

/-- `challenge_for`. -/
def challengeFor (codeVerifier : String) : String :=
  .ofList (Base64.encode (library.sha256 (codeVerifier.toList.flatMap String.utf8EncodeChar)))

/-- `OidcProvider._required`. -/
def required (name : String) : Option String → Except Error String
  | none => .error ⟨"OidcNotConfigured", "APCHI_AUTH_MODE is 'sso' but APCHI_" ++ name ++ " is not set."⟩
  | some value =>
      if value = "" then
        .error ⟨"OidcNotConfigured", "APCHI_AUTH_MODE is 'sso' but APCHI_" ++ name ++ " is not set."⟩
      else .ok value

def OidcSettings.issuer : Except Error String := required "OIDC_ISSUER" settings.oidcIssuer

def OidcSettings.clientId : Except Error String := required "OIDC_CLIENT_ID" settings.oidcClientId

def OidcSettings.redirectUrl : Except Error String :=
  required "OIDC_REDIRECT_URL" settings.oidcRedirectUrl

/-- `OidcProvider._json`. -/
def json (asked : ProviderRequest) (what : String) : LoginProg KeySet (List (String × Json)) := do
  match ← (ask (.request asked)).attempt with
  | .error e =>
      if e.kind = "HTTPError" then Prog.raise (oidcError (what ++ " failed: " ++ e.text))
      else if e.kind = "ValueError" then
        Prog.raise (oidcError (what ++ " did not return JSON: " ++ e.text))
      else Prog.raise e
  | .ok (.obj body) => pure body
  | .ok body => Prog.raise (oidcError (what ++ " returned " ++ typeName body ++ ", not an object"))

/-! ### Discovery -/

def SIGNING_ALGORITHMS : List String :=
  ["ES256", "ES384", "ES512", "PS256", "RS256", "RS384", "RS512"]

/-- What a `for` over a value goes over. -/
def iterated : Json → Except Error (List Json)
  | .arr elems => .ok elems
  | .str text => .ok (text.toList.map fun c => .str (String.singleton c))
  | .obj fields => .ok (fields.map fun field => .str field.1)
  | value => .error ⟨"TypeError", "'" ++ typeName value ++ "' object is not iterable"⟩

/-- The texts a field lists, none where it is absent. -/
def listed (document : List (String × Json)) (field : String) : Except Error (List String) := do
  let values ← iterated ((document.lookup field).getD (.arr []))
  return values.map library.asText

def wellKnown (issuer : String) : String :=
  withoutSlashes issuer ++ "/.well-known/openid-configuration"

/-- A field that has to be there. -/
def fieldOf (document : List (String × Json)) (url field : String) : Except Error String :=
  match document.lookup field with
  | some value => .ok (library.asText value)
  | none => .error (oidcError (url ++ " is missing '" ++ field ++ "'"))

/-- What `_discover` makes of the document. -/
def describe (issuer : String) (document : List (String × Json)) : Except Error Discovered := do
  let url := wellKnown issuer
  let named ← fieldOf library document url "issuer"
  let authorizationEndpoint ← fieldOf library document url "authorization_endpoint"
  let tokenEndpoint ← fieldOf library document url "token_endpoint"
  let jwksUri ← fieldOf library document url "jwks_uri"
  if named ≠ issuer then
    .error (oidcError (url ++ " describes issuer " ++ library.repr named ++
      ", but APCHI_OIDC_ISSUER is " ++ library.repr issuer))
  let advertised ← listed library document "id_token_signing_alg_values_supported"
  let usable := SIGNING_ALGORITHMS.filter advertised.contains
  let methods ← listed library document "token_endpoint_auth_methods_supported"
  return { issuer := named, authorizationEndpoint, tokenEndpoint, jwksUri
           algorithms := if usable.isEmpty then ["RS256"] else usable
           secretInHeader := methods.contains "client_secret_basic" || methods.isEmpty }

/-- `OidcProvider._discover`. -/
def discover : LoginProg KeySet Discovered := do
  let issuer ← ofExcept settings.issuer
  let document ← json { method := "GET", url := wellKnown issuer } "discovery"
  ofExcept (describe library issuer document)

/-- `OidcProvider.discovered`. -/
def discovered : LoginProg KeySet Discovered := do
  match ← ask .discovered with
  | some found => pure found
  | none =>
      let found ← discover library settings
      ask (.setDiscovered found)
      pure found

/-! ### The flow -/

/-- `OidcProvider.authorization_url`. -/
def authorizationUrl (login : PendingLogin) : LoginProg KeySet String := do
  let found ← discovered library settings
  let clientId ← ofExcept settings.clientId
  let redirectUrl ← ofExcept settings.redirectUrl
  let query := urlencode
    [("client_id", clientId), ("redirect_uri", redirectUrl), ("response_type", "code"),
      ("scope", " ".intercalate settings.scopes), ("state", login.state), ("nonce", login.nonce),
      ("code_challenge", challengeFor library login.codeVerifier), ("code_challenge_method", "S256")]
  let separator := if found.authorizationEndpoint.toList.contains '?' then "&" else "?"
  pure (found.authorizationEndpoint ++ separator ++ query)

/-- What a code is exchanged with. -/
def exchangeRequest (found : Discovered) (code codeVerifier redirectUrl clientId : String) :
    ProviderRequest :=
  let secret := settings.oidcClientSecret.getD ""
  let form := [("grant_type", "authorization_code"), ("code", code), ("redirect_uri", redirectUrl),
    ("code_verifier", codeVerifier), ("client_id", clientId)]
  { method := "POST", url := found.tokenEndpoint
    form := if found.secretInHeader then form else form ++ [("client_secret", secret)]
    auth := if found.secretInHeader then some (clientId, secret) else none }

/-- The ID token of an answer. -/
def idTokenOf (body : List (String × Json)) : Except Error String :=
  match body.lookup "id_token" with
  | some (.str text) =>
      if text = "" then .error (oidcError "the code exchange returned no id_token") else .ok text
  | _ => .error (oidcError "the code exchange returned no id_token")

/-- `OidcProvider.exchange`. -/
def exchange (code codeVerifier : String) : LoginProg KeySet String := do
  let found ← discovered library settings
  let redirectUrl ← ofExcept settings.redirectUrl
  let clientId ← ofExcept settings.clientId
  let body ← json (exchangeRequest settings found code codeVerifier redirectUrl clientId)
    "the code exchange"
  ofExcept (idTokenOf body)

/-! ### Verification -/

/-- The keys a document publishes. -/
def keysOf (jwksUri : String) (document : List (String × Json)) : Except Error KeySet :=
  match document.lookup "keys" with
  | some (.arr keys) =>
      match library.importKeySet keys with
      | .ok imported => .ok imported
      | .error e =>
          if ["JoseError", "ValueError", "KeyError"].contains e.kind then
            .error (oidcError (jwksUri ++ " is not a usable JWKS: " ++ e.text))
          else .error e
  | _ => .error (oidcError (jwksUri ++ " returned no 'keys' array"))

/-- The keys, fetched. -/
def fetchKeys : LoginProg KeySet KeySet := do
  let found ← discovered library settings
  let document ← json { method := "GET", url := found.jwksUri } "the JWKS fetch"
  let imported ← ofExcept (keysOf library found.jwksUri document)
  ask (.setKeys imported)
  pure imported

/-- `OidcProvider._key_set`. -/
def keySet (refresh : Bool) : LoginProg KeySet KeySet := do
  match ← ask .keys with
  | some kept => if refresh then fetchKeys library settings else pure kept
  | none => fetchKeys library settings

/-- `OidcProvider._retry_after_rotation`. -/
def retryAfterRotation (idToken : String) (algorithms : List String) : LoginProg KeySet Claims := do
  let keys ← keySet library settings true
  match library.decode idToken keys algorithms with
  | .ok claims => pure claims
  | .error e =>
      if isJoseError e then
        Prog.raise (oidcError ("the id_token's signature is not valid: " ++ e.text))
      else Prog.raise e

/-- The claims of an ID token whose signature is good. -/
def decoded (found : Discovered) (idToken : String) : LoginProg KeySet Claims := do
  let keys ← keySet library settings false
  match library.decode idToken keys found.algorithms with
  | .ok claims => pure claims
  | .error e =>
      if isJoseError e then retryAfterRotation library settings idToken found.algorithms
      else Prog.raise e

/-- What the nonce of a token is said to be. -/
def nonceOf (claims : Claims) : String := library.asText ((claims.lookup "nonce").getD (.str ""))

/-- `OidcProvider.claims`. -/
def claims (idToken nonce : String) : LoginProg KeySet Claims := do
  let found ← discovered library settings
  let claims ← decoded library settings found idToken
  let clientId ← ofExcept settings.clientId
  let now ← ask (.accounts .now)
  match library.validate found.issuer clientId now claims with
  | .error e =>
      if isJoseError e then
        Prog.raise (oidcError ("the id_token's claims are not acceptable: " ++ e.text))
      else Prog.raise e
  | .ok () =>
      if nonceOf library claims ≠ nonce then
        Prog.raise (oidcError "the id_token's nonce is not the one this login asked for")
      else pure claims

/-! ### What the claims mean -/

/-- `OidcProvider.username_in`. -/
def usernameIn (claims : Claims) : Except Error String :=
  let claim := settings.oidcUsernameClaim
  let refused := oidcError ("the id_token has no usable " ++ library.repr claim ++ " claim, so " ++
    "there is no username to record. Set APCHI_OIDC_USERNAME_CLAIM to a claim this provider sends.")
  match claims.lookup claim with
  | some (.str value) =>
      if PyText.stripped value = "" then .error refused else .ok (PyText.stripped value)
  | _ => .error refused

/-- The groups a claim says somebody is in. -/
def groupsOf : Option Json → List String
  | some (.str group) => [group]
  | some (.arr groups) => groups.filterMap fun
    | .str group => some group
    | _ => none
  | _ => []

/-- `OidcProvider.role_in`. -/
def roleIn (claims : Claims) : Role :=
  if settings.adminGroups.isEmpty then .operator
  else if (groupsOf (claims.lookup settings.oidcRoleClaim)).any settings.adminGroups.contains then
    .admin
  else .operator

end client

end Apchi.Auth
