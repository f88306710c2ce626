import Apchi.Auth.Logins
import Apchi.Lib.Rely

/-!
# What the provider vouches for

A callback comes to a session only by way of what the provider has said to Apchi itself: of itself, of
its keys, and of who signed in.  What is kept in the process was said by the provider too.
-/

namespace Apchi.Auth

open Lib Prog

section vouching

variable {KeySet : Type} (deployment : Deployment) (library : OidcLibrary KeySet)
  (settings : OidcSettings)

/-! ### What has been said -/

/-- The provider has described itself so, where the issuer's own document is. -/
def Trusted (said : List Heard) (found : Discovered) : Prop :=
  ∃ issuer document, settings.issuer = .ok issuer ∧
    .said { method := "GET", url := wellKnown issuer } (.obj document) ∈ said ∧
    describe library issuer document = .ok found

/-- The provider has published these keys, where it says its keys are. -/
def Published (said : List Heard) (keys : KeySet) : Prop :=
  ∃ found document, Trusted library settings said found ∧
    .said { method := "GET", url := found.jwksUri } (.obj document) ∈ said ∧
    keysOf library found.jwksUri document = .ok keys

/-- The provider has given this ID token for the code and the verifier, to somebody who has heard this. -/
def Exchanged (said heard : List Heard)
    (code codeVerifier idToken : String) : Prop :=
  ∃ found redirectUrl clientId body, Trusted library settings said found ∧
    .said (exchangeRequest settings found code codeVerifier redirectUrl clientId) (.obj body) ∈ heard ∧
    idTokenOf body = .ok idToken

/-- The token is signed with a published key by an algorithm that is allowed, and its claims are for
Apchi, from the issuer, still good when they were looked at, and for the nonce. -/
def Verified (said heard : List Heard)
    (idToken nonce : String) (claims : Claims) : Prop :=
  ∃ found keys clientId now, Trusted library settings said found ∧
    Published library settings said keys ∧
    library.decode idToken keys found.algorithms = .ok claims ∧ settings.clientId = .ok clientId ∧
    Heard.clock now ∈ heard ∧ library.validate found.issuer clientId now claims = .ok () ∧
    nonceOf library claims = nonce

/-- The provider vouches, for an attempt, that this is who signed in. -/
def Vouched (said heard : List Heard)
    (code : String) (attempt : PendingLogin) (username : String) (role : Role) : Prop :=
  ∃ idToken claims, Exchanged library settings said heard code attempt.codeVerifier idToken ∧
    Verified library settings said heard idToken attempt.nonce claims ∧
    usernameIn library settings claims = .ok username ∧ roleIn settings claims = role

/-- The session is that of an attempt which was started before, by a callback that presented its handle
and its state before it expired, for the enabled user the provider vouches for. -/
structure Opening.Warranted (started : List LoginAttempt) (said : List Heard)
    (opening : Opening) (attempt : LoginAttempt) (callback : Callback) : Prop where
  op : opening.op = .ssoCallback callback
  held : opening.attempt = some attempt
  started : attempt ∈ started
  handle : deployment.digest callback.handle = attempt.1
  state : callback.state = some attempt.2.state
  declined : given callback.error = false
  unexpired : ∃ now, Heard.clock now ∈ opening.heard ∧ now < attempt.2.expiresAt
  vouched : ∃ code user, callback.code = some code ∧
    Vouched library settings said opening.heard code attempt.2 user.username user.role ∧
    Heard.mirrored user.username user.role user ∈ opening.heard ∧
    user.disabled = false ∧ opening.session.username = user.username

section mono

variable {deployment library settings} {said said' heard heard' : List Heard}

theorem Trusted.mono {found : Discovered} (h : Trusted library settings said found)
    (hsaid : said ⊆ said') : Trusted library settings said' found := by
  obtain ⟨issuer, document, hissuer, hdocument, hdescribe⟩ := h
  exact ⟨issuer, document, hissuer, hsaid hdocument, hdescribe⟩

theorem Published.mono {keys : KeySet} (h : Published library settings said keys)
    (hsaid : said ⊆ said') : Published library settings said' keys := by
  obtain ⟨found, document, hfound, hdocument, hkeys⟩ := h
  exact ⟨found, document, hfound.mono hsaid, hsaid hdocument, hkeys⟩

theorem Exchanged.mono {code codeVerifier idToken : String}
    (h : Exchanged library settings said heard code codeVerifier idToken) (hsaid : said ⊆ said')
    (hheard : heard ⊆ heard') : Exchanged library settings said' heard' code codeVerifier idToken := by
  obtain ⟨found, redirectUrl, clientId, body, hfound, hcall, htoken⟩ := h
  exact ⟨found, redirectUrl, clientId, body, hfound.mono hsaid, hheard hcall, htoken⟩

theorem Verified.mono {idToken nonce : String} {claims : Claims}
    (h : Verified library settings said heard idToken nonce claims) (hsaid : said ⊆ said')
    (hheard : heard ⊆ heard') : Verified library settings said' heard' idToken nonce claims := by
  obtain ⟨found, keys, clientId, now, hfound, hkeys, hdecode, hclient, hnow, hrest⟩ := h
  exact ⟨found, keys, clientId, now, hfound.mono hsaid, hkeys.mono hsaid, hdecode, hclient,
    hheard hnow, hrest⟩

theorem Vouched.mono {code username : String} {attempt : PendingLogin} {role : Role}
    (h : Vouched library settings said heard code attempt username role) (hsaid : said ⊆ said')
    (hheard : heard ⊆ heard') :
    Vouched library settings said' heard' code attempt username role := by
  obtain ⟨idToken, claims, hexchanged, hverified, hmeans⟩ := h
  exact ⟨idToken, claims, hexchanged.mono hsaid hheard, hverified.mono hsaid hheard, hmeans⟩

theorem Opening.Warranted.mono {started started' : List LoginAttempt} {opening : Opening}
    {attempt : LoginAttempt} {callback : Callback}
    (h : opening.Warranted deployment library settings started said attempt callback)
    (hstarted : started ⊆ started') (hsaid : said ⊆ said') :
    opening.Warranted deployment library settings started' said' attempt callback := by
  obtain ⟨code, user, hcode, hvouched, hrest⟩ := h.vouched
  exact { h with
    started := hstarted h.started
    vouched := ⟨code, user, hcode, hvouched.mono hsaid (List.Subset.refl _), hrest⟩ }

end mono

/-! ### What an operation sees -/

/-- What an operation has in hand and has heard, what there is, and what there has been. -/
structure LoginView (KeySet : Type) where
  held : Option LoginAttempt
  heard : List Heard
  world : LoginWorld KeySet
  started : List LoginAttempt
  said : List Heard

/-- After a call of the operation. -/
def LoginView.after (v : LoginView KeySet) {β : Type} (c : LoginCall KeySet β) (r : Except Error β)
    (world : LoginWorld KeySet) : LoginView KeySet :=
  ⟨c.hold v.held r, v.heard ++ c.hears r, world, v.started ++ c.starts v.world world,
    v.said ++ c.hears r⟩

/-- Every user's row is under its own name, every attempt that is kept was started, and what the
process keeps was said by the provider. -/
structure LoginView.Sound (v : LoginView KeySet) : Prop where
  named : ∀ username (user : User), v.world.accounts.users[username]? = some user →
    user.username = username
  rows : ∀ digest login, v.world.logins[digest]? = some login → (digest, login) ∈ v.started
  discovered : ∀ found, v.world.discovered = some found → Trusted library settings v.said found
  keys : ∀ keys, v.world.keys = some keys → Published library settings v.said keys

/-- What is done elsewhere: attempts are started and the provider says more. -/
structure LoginView.Elsewhere (v v' : LoginView KeySet) : Prop where
  held : v'.held = v.held
  heard : v'.heard = v.heard
  started : v.started ⊆ v'.started
  said : v.said ⊆ v'.said

/-- The operation has gone on, with the same in hand. -/
structure LoginView.Onward (v v' : LoginView KeySet) : Prop where
  held : v'.held = v.held
  heard : v.heard ⊆ v'.heard
  started : v.started ⊆ v'.started
  said : v.said ⊆ v'.said

theorem LoginView.Onward.refl (v : LoginView KeySet) : v.Onward v :=
  ⟨rfl, List.Subset.refl _, List.Subset.refl _, List.Subset.refl _⟩

theorem LoginView.Onward.trans {v v' v'' : LoginView KeySet} (h : v.Onward v') (h' : v'.Onward v'') :
    v.Onward v'' :=
  ⟨h'.held.trans h.held, fun _ hx => h'.heard (h.heard hx), fun _ hx => h'.started (h.started hx),
    fun _ hx => h'.said (h.said hx)⟩

theorem LoginView.Elsewhere.onward {v v' : LoginView KeySet} (h : v.Elsewhere v') : v.Onward v' :=
  ⟨h.held, h.heard ▸ List.Subset.refl _, h.started, h.said⟩

/-- What comes of a call, in a sound state. -/
def answered : Answers (LoginCall KeySet) (LoginView KeySet) :=
  fun _ c v r v' => v.Sound library settings ∧
    ∃ world, LoginWorld.Answer c v.world r world ∧ v' = v.after c r world

/-- What a call of an operation is to have been warranted by. -/
def LoginCall.Promised (op : LoginOp) (v : LoginView KeySet) {β : Type} : LoginCall KeySet β → Prop
  | .setDiscovered found => Trusted library settings v.said found
  | .setKeys published => Published library settings v.said published
  | .accounts (.insertSession digest session) => session.via = .sso →
      ∃ attempt callback, Opening.Warranted deployment library settings v.started v.said
        ⟨digest, session, v.held, op, v.heard⟩ attempt callback
  | _ => True

def promise (op : LoginOp) : Answers (LoginCall KeySet) (LoginView KeySet) :=
  fun _ c v _ _ => c.Promised deployment library settings op v

/-- Where the program returns, whatever is done elsewhere, `P` holds; and its calls are warranted. -/
abbrev Spec (op : LoginOp) {α : Type} (p : LoginProg KeySet α) (P : α → LoginView KeySet → Prop)
    (v : LoginView KeySet) : Prop :=
  p.Safe LoginView.Elsewhere (answered library settings) (promise deployment library settings op)
    (fun r v' => ∀ a, r = .ok a → P a v') v

/-! ### Rules -/

/-- A call that takes no attempt and opens no session. -/
def LoginCall.quiet {β : Type} : LoginCall KeySet β → Bool
  | .take _ => false
  | .accounts (.insertSession _ _) => false
  | _ => true

section rules

variable {deployment library settings} {op : LoginOp} {α γ : Type} {v : LoginView KeySet}
  {p : LoginProg KeySet α} {P : α → LoginView KeySet → Prop} {Q : γ → LoginView KeySet → Prop}

theorem LoginView.onward_after {β : Type} {c : LoginCall KeySet β} (h : c.quiet = true)
    (v : LoginView KeySet) (r : Except Error β) (world : LoginWorld KeySet) :
    v.Onward (v.after c r world) := by
  refine ⟨?_, List.subset_append_left _ _, List.subset_append_left _ _, List.subset_append_left _ _⟩
  cases c with
  | take digest => cases h
  | accounts c => cases c <;> first | rfl | cases h
  | _ => rfl

/-- Quiet programs go on with the same in hand. -/
theorem onward_of_quiet (h : p.All fun c => c.quiet = true) :
    p.Safe LoginView.Elsewhere (answered library settings) (fun _ _ _ _ _ => True)
      (fun _ v' => v.Onward v') v := by
  refine All.safe (I := fun v' => v.Onward v') (fun w w' hR hw => hw.trans hR.onward) ?_ h
    (LoginView.Onward.refl v)
  rintro β c w r w' hquiet hw ⟨-, world, -, rfl⟩
  exact ⟨trivial, hw.trans (LoginView.onward_after hquiet w r world)⟩

theorem Spec.mono {P' : α → LoginView KeySet → Prop} (h : Spec deployment library settings op p P v)
    (hP : ∀ a v', P a v' → P' a v') : Spec deployment library settings op p P' v :=
  Safe.mono h fun _ _ hr a ha => hP _ _ (hr a ha)

/-- A program, then another. -/
theorem Spec.seq {f : α → LoginProg KeySet γ} (hp : Spec deployment library settings op p P v)
    (hf : ∀ a v', P a v' → Spec deployment library settings op (f a) Q v') :
    Spec deployment library settings op (p.bind f) Q v := by
  refine (safe_bind p f).mpr (Safe.mono hp fun r v' hr => ?_)
  cases r with
  | ok a => exact hf a v' (hr a rfl)
  | error e => exact fun a ha => by cases ha

/-- A quiet program, then another: what is in hand, what was heard and what was said is still there. -/
theorem Spec.bind {f : α → LoginProg KeySet γ} (hquiet : p.All fun c => c.quiet = true)
    (hp : Spec deployment library settings op p P v)
    (hf : ∀ a v', v.Onward v' → P a v' → Spec deployment library settings op (f a) Q v') :
    Spec deployment library settings op (p.bind f) Q v := by
  have hboth := Safe.and hp (@onward_of_quiet _ library settings _ v p hquiet)
  refine Spec.seq (P := fun a v' => v.Onward v' ∧ P a v') ?_ fun a v' h => hf a v' h.1 h.2
  exact Safe.mono (Safe.promise hboth fun _ _ _ _ h => h.1) fun r v' hr a ha => ⟨hr.2, hr.1 a ha⟩

theorem spec_raise (e : Error) : Spec deployment library settings op (Prog.raise e) P v :=
  fun a ha => by cases ha

theorem spec_ret {a : α} (h : P a v) : Spec deployment library settings op (Prog.ret a) P v :=
  fun _ ha => Except.ok.inj ha ▸ h

theorem spec_ofExcept {x : Except Error α} (h : ∀ a, x = .ok a → P a v) :
    Spec deployment library settings op (ofExcept x) P v :=
  (safe_ofExcept x).mpr h

theorem Spec.attempt (h : Spec deployment library settings op p P v) :
    Spec deployment library settings op p.attempt (fun r v' => ∀ a, r = .ok a → P a v') v :=
  (safe_attempt p).mpr (Safe.mono h fun _ _ hr _ ha => Except.ok.inj ha ▸ hr)

/-- One call: it is warranted, and what it answers is what is wanted. -/
theorem spec_ask {c : LoginCall KeySet α}
    (hpromised : ∀ v', v.Elsewhere v' → c.Promised deployment library settings op v')
    (h : ∀ v' a world, v.Elsewhere v' → v'.Sound library settings →
      LoginWorld.Answer c v'.world (.ok a) world → P a (v'.after c (.ok a) world)) :
    Spec deployment library settings op (ask c) P v := by
  refine (safe_perform c).mpr ?_
  rintro v₁ hR r _ ⟨hsound, world, hanswer, rfl⟩
  refine ⟨hpromised v₁ hR, ?_⟩
  rintro a rfl
  exact h v₁ a world hR hsound hanswer

/-- A call that asks the provider nothing has gone through, or an exception is raised. -/
theorem LoginWorld.Answer.inv {β : Type} {c : LoginCall KeySet β} {w w' : LoginWorld KeySet}
    {r : Except Error β} (h : LoginWorld.Answer c w r w') (hasked : c.asked = none) :
    (r = (LoginWorld.exec c w).1 ∧ w' = (LoginWorld.exec c w).2) ∨
      ∃ e, r = .error e ∧ (w' = w ∨ w' = (LoginWorld.exec c w).2) := by
  cases h with
  | through => exact Or.inl ⟨rfl, rfl⟩
  | lost _ e => exact Or.inr ⟨e, rfl, Or.inl rfl⟩
  | unheard _ e => exact Or.inr ⟨e, rfl, Or.inr rfl⟩
  | said body => cases hasked

/-- One that answers has gone through. -/
theorem LoginWorld.Answer.ok {β : Type} {c : LoginCall KeySet β} {w w' : LoginWorld KeySet} {b : β}
    (h : LoginWorld.Answer c w (.ok b) w') (hasked : c.asked = none) :
    LoginWorld.exec c w = (.ok b, w') := by
  rcases h.inv hasked with ⟨hanswer, hworld⟩ | ⟨e, hraised, -⟩
  · exact (Prod.ext hanswer hworld).symm
  · cases hraised

end rules

/-! ### The client -/

section client

variable {deployment library settings} {op : LoginOp} {v : LoginView KeySet}

theorem quiet_ofExcept {α : Type} (x : Except Error α) :
    (ofExcept x : LoginProg KeySet α).All fun c => c.quiet = true :=
  all_ofExcept x

theorem quiet_json (asked : ProviderRequest) (what : String) :
    (json asked what : LoginProg KeySet (List (String × Json))).All fun c => c.quiet = true := by
  refine All.bind (all_perform rfl).attempt fun r => ?_
  rcases r with e | body
  · dsimp only
    split
    · trivial
    · split <;> trivial
  · cases body <;> trivial

theorem spec_json (asked : ProviderRequest) (what : String) :
    Spec deployment library settings op (json asked what)
      (fun body v' => Heard.said asked (.obj body) ∈ v'.heard ∧ Heard.said asked (.obj body) ∈ v'.said)
      v := by
  refine Spec.bind (P := fun r v' => ∀ body, r = .ok body →
      Heard.said asked body ∈ v'.heard ∧ Heard.said asked body ∈ v'.said)
    (all_perform rfl).attempt (Spec.attempt (spec_ask (fun _ _ => by trivial) ?_)) fun r v' _ hr => ?_
  · intro v' body world _ _ _
    simp [LoginView.after, LoginCall.hears]
  · rcases r with e | body
    · dsimp only
      split
      · exact spec_raise _
      · split <;> exact spec_raise _
    · cases body with
      | obj body => exact spec_ret (hr _ rfl)
      | _ => exact spec_raise _

theorem quiet_discover :
    (discover library settings).All fun c => c.quiet = true :=
  All.bind (quiet_ofExcept _) fun _ => All.bind (quiet_json _ _) fun _ => quiet_ofExcept _

theorem spec_discover :
    Spec deployment library settings op (discover library settings)
      (fun found v' => Trusted library settings v'.said found) v := by
  refine Spec.bind (P := fun issuer _ => settings.issuer = .ok issuer) (quiet_ofExcept _)
    (spec_ofExcept fun _ h => h) fun issuer v' _ hissuer => ?_
  refine Spec.bind (quiet_json _ _) (spec_json _ _) fun document v' _ hdocument => ?_
  exact spec_ofExcept fun found hfound => ⟨issuer, document, hissuer, hdocument.2, hfound⟩

theorem quiet_discovered :
    (discovered library settings).All fun c => c.quiet = true := by
  refine All.bind (all_perform rfl) fun found => ?_
  cases found with
  | some found => trivial
  | none => exact All.bind quiet_discover fun _ => All.bind (all_perform rfl) fun _ => trivial

/-- What has been discovered was said by the provider, now or when it was kept. -/
theorem spec_discovered :
    Spec deployment library settings op (discovered library settings)
      (fun found v' => Trusted library settings v'.said found) v := by
  refine Spec.bind (P := fun found v' => ∀ kept, found = some kept →
      Trusted library settings v'.said kept) (all_perform rfl)
    (spec_ask (fun _ _ => trivial) ?_) fun found v' _ hkept => ?_
  · rintro v' found world - hsound hanswer kept rfl
    obtain ⟨hfound, -⟩ := Prod.mk.inj (hanswer.ok rfl)
    exact (hsound.discovered kept (Except.ok.inj hfound)).mono (List.subset_append_left _ _)
  · cases found with
    | some kept => exact spec_ret (hkept kept rfl)
    | none =>
      refine Spec.bind quiet_discover spec_discover fun found v' _ hfound => ?_
      refine Spec.bind (P := fun _ _ => True) (all_perform rfl)
        (spec_ask (fun v' hv' => hfound.mono hv'.said) fun _ _ _ _ _ _ => trivial) ?_
      intro _ v'' honward _
      exact spec_ret (hfound.mono honward.said)

theorem quiet_exchange (code codeVerifier : String) :
    (exchange library settings code codeVerifier).All fun c => c.quiet = true :=
  All.bind quiet_discovered fun _ => All.bind (quiet_ofExcept _) fun _ =>
    All.bind (quiet_ofExcept _) fun _ => All.bind (quiet_json _ _) fun _ => quiet_ofExcept _

theorem spec_exchange (code codeVerifier : String) :
    Spec deployment library settings op (exchange library settings code codeVerifier)
      (fun idToken v' => Exchanged library settings v'.said v'.heard code codeVerifier idToken) v := by
  refine Spec.bind quiet_discovered spec_discovered fun found v₁ _ hfound => ?_
  refine Spec.bind (P := fun _ _ => True) (quiet_ofExcept _) (spec_ofExcept fun _ _ => trivial)
    fun redirectUrl v₂ h₂ _ => ?_
  refine Spec.bind (P := fun _ _ => True) (quiet_ofExcept _) (spec_ofExcept fun _ _ => trivial)
    fun clientId v₃ h₃ _ => ?_
  refine Spec.bind (quiet_json _ _) (spec_json _ _) fun body v₄ h₄ hbody => ?_
  exact spec_ofExcept fun idToken htoken => ⟨found, redirectUrl, clientId, body,
    hfound.mono ((h₂.trans h₃).trans h₄).said, hbody.1, htoken⟩

theorem quiet_fetchKeys :
    (fetchKeys library settings).All fun c => c.quiet = true :=
  All.bind quiet_discovered fun _ => All.bind (quiet_json _ _) fun _ =>
    All.bind (quiet_ofExcept _) fun _ => All.bind (all_perform rfl) fun _ => trivial

theorem spec_fetchKeys :
    Spec deployment library settings op (fetchKeys library settings)
      (fun keys v' => Published library settings v'.said keys) v := by
  refine Spec.bind quiet_discovered spec_discovered fun found v₁ _ hfound => ?_
  refine Spec.bind (quiet_json _ _) (spec_json _ _) fun document v₂ h₂ hdocument => ?_
  refine Spec.bind (P := fun keys v' => Published library settings v'.said keys) (quiet_ofExcept _)
    (spec_ofExcept fun keys hkeys => ⟨found, document, hfound.mono h₂.said, hdocument.2, hkeys⟩)
    fun keys v₃ _ hkeys => ?_
  refine Spec.bind (P := fun _ _ => True) (all_perform rfl)
    (spec_ask (fun v' hv' => hkeys.mono hv'.said) fun _ _ _ _ _ _ => trivial) ?_
  intro _ v₄ h₄ _
  exact spec_ret (hkeys.mono h₄.said)

theorem quiet_keySet (refresh : Bool) :
    (keySet library settings refresh).All fun c => c.quiet = true := by
  refine All.bind (all_perform rfl) fun kept => ?_
  cases kept with
  | none => exact quiet_fetchKeys
  | some kept =>
    dsimp only
    split
    · exact quiet_fetchKeys
    · trivial

/-- So were the keys. -/
theorem spec_keySet (refresh : Bool) :
    Spec deployment library settings op (keySet library settings refresh)
      (fun keys v' => Published library settings v'.said keys) v := by
  refine Spec.bind (P := fun found v' => ∀ kept, found = some kept →
      Published library settings v'.said kept) (all_perform rfl)
    (spec_ask (fun _ _ => trivial) ?_) fun found v' _ hkept => ?_
  · rintro v' found world - hsound hanswer kept rfl
    obtain ⟨hfound, -⟩ := Prod.mk.inj (hanswer.ok rfl)
    exact (hsound.keys kept (Except.ok.inj hfound)).mono (List.subset_append_left _ _)
  · cases found with
    | none => exact spec_fetchKeys
    | some kept =>
      dsimp only
      split
      · exact spec_fetchKeys
      · exact spec_ret (hkept kept rfl)

theorem quiet_retryAfterRotation (idToken : String) (algorithms : List String) :
    (retryAfterRotation library settings idToken algorithms).All fun c => c.quiet = true := by
  refine All.bind (quiet_keySet true) fun keys => ?_
  split
  · trivial
  · split <;> trivial

theorem quiet_decoded (found : Discovered) (idToken : String) :
    (decoded library settings found idToken).All fun c => c.quiet = true := by
  refine All.bind (quiet_keySet false) fun keys => ?_
  split
  · trivial
  · split
    · exact quiet_retryAfterRotation _ _
    · trivial

/-- Whether or not the keys had to be fetched again, the token is signed with one of them. -/
theorem spec_decoded (found : Discovered) (idToken : String) :
    Spec deployment library settings op (decoded library settings found idToken)
      (fun claims v' => ∃ keys, Published library settings v'.said keys ∧
        library.decode idToken keys found.algorithms = .ok claims) v := by
  refine Spec.bind (quiet_keySet false) (spec_keySet false) fun keys v₁ _ hkeys => ?_
  split
  · next claims hdecode => exact spec_ret ⟨keys, hkeys, hdecode⟩
  · split
    · refine Spec.bind (quiet_keySet true) (spec_keySet true) fun keys v₂ _ hkeys => ?_
      split
      · next claims hdecode => exact spec_ret ⟨keys, hkeys, hdecode⟩
      · split <;> exact spec_raise _
    · exact spec_raise _

theorem quiet_claims (idToken nonce : String) :
    (claims library settings idToken nonce).All fun c => c.quiet = true := by
  refine All.bind quiet_discovered fun found => All.bind (quiet_decoded found idToken) fun claims =>
    All.bind (quiet_ofExcept _) fun clientId => All.bind (all_perform rfl) fun now => ?_
  split
  · split <;> trivial
  · split <;> trivial

theorem spec_claims (idToken nonce : String) :
    Spec deployment library settings op (claims library settings idToken nonce)
      (fun claims v' => Verified library settings v'.said v'.heard idToken nonce claims) v := by
  refine Spec.bind quiet_discovered spec_discovered fun found v₁ _ hfound => ?_
  refine Spec.bind (quiet_decoded found idToken) (spec_decoded found idToken)
    fun claims v₂ h₂ hdecoded => ?_
  obtain ⟨keys, hkeys, hdecode⟩ := hdecoded
  refine Spec.bind (P := fun clientId _ => settings.clientId = .ok clientId) (quiet_ofExcept _)
    (spec_ofExcept fun _ h => h) fun clientId v₃ h₃ hclient => ?_
  refine Spec.bind (P := fun now v' => Heard.clock now ∈ v'.heard) (all_perform rfl)
    (spec_ask (fun _ _ => trivial) fun v' now world _ _ _ => ?_) fun now v₄ h₄ hnow => ?_
  · simp [LoginView.after, LoginCall.hears]
  · split
    · split <;> exact spec_raise _
    · next hvalid =>
      split
      · exact spec_raise _
      · next hnonce =>
        exact spec_ret ⟨found, keys, clientId, now, hfound.mono ((h₂.trans h₃).trans h₄).said,
          hkeys.mono (h₃.trans h₄).said, hdecode, hclient, hnow, hvalid, not_not.mp hnonce⟩

theorem quiet_verified (code : String) (attempt : PendingLogin) :
    (verified library settings code attempt).All fun c => c.quiet = true :=
  All.bind (quiet_exchange _ _) fun _ => All.bind (quiet_claims _ _) fun _ =>
    All.bind (quiet_ofExcept _) fun _ => trivial

theorem spec_verified (code : String) (attempt : PendingLogin) :
    Spec deployment library settings op (verified library settings code attempt)
      (fun who v' => Vouched library settings v'.said v'.heard code attempt who.1 who.2) v := by
  refine Spec.bind (quiet_exchange _ _) (spec_exchange _ _) fun idToken v₁ _ hexchanged => ?_
  refine Spec.bind (quiet_claims _ _) (spec_claims _ _) fun claims v₂ h₂ hverified => ?_
  refine Spec.bind (P := fun username _ => usernameIn library settings claims = .ok username)
    (quiet_ofExcept _) (spec_ofExcept fun _ h => h) fun username v₃ h₃ husername => ?_
  exact spec_ret ⟨idToken, claims, hexchanged.mono (h₂.trans h₃).said (h₂.trans h₃).heard,
    hverified.mono h₃.said h₃.heard, husername, rfl⟩

end client

end vouching

end Apchi.Auth
