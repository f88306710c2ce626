import Apchi.Auth.Authority
import Apchi.Auth.Vouching

/-!
# Every session from the provider is one attempt's

Whoever calls the callback with whatever, in whatever order calls go through or are lost, whatever the
provider says and whenever the process dies: a session is opened only for an attempt that was started,
whose handle and state were presented, for whom the provider vouches for; and once for each attempt.
-/

namespace Apchi.Auth

open Lib Prog

section attempts

variable {KeySet : Type} {deployment : Deployment} {library : OidcLibrary KeySet}
  {settings : OidcSettings}

/-! ### The callback -/

theorem lift_perform {α : Type} (c : AuthCall α) :
    (Prog.perform c).lift LoginCall.accounts = (ask (.accounts c) : LoginProg KeySet α) := by
  refine congrArg (Prog.call _) (funext fun r => ?_)
  cases r <;> rfl

/-- An attempt has been taken, before it expired. -/
structure LoginView.Taken (v : LoginView KeySet) (attempt : LoginAttempt) : Prop where
  held : v.held = some attempt
  started : attempt ∈ v.started
  unexpired : ∃ now, Heard.clock now ∈ v.heard ∧ now < attempt.2.expiresAt

theorem LoginView.Taken.onward {v v' : LoginView KeySet} {attempt : LoginAttempt}
    (h : v.Taken attempt) (honward : v.Onward v') : v'.Taken attempt := by
  obtain ⟨now, hnow, hexpiry⟩ := h.unexpired
  exact ⟨honward.held.trans h.held, honward.started h.started, now, honward.heard hnow, hexpiry⟩

section specs

variable {op : LoginOp} {v : LoginView KeySet}

theorem spec_takeLogin (handle : String) :
    Spec deployment library settings op (takeLogin deployment handle)
      (fun attempt v' => ∀ login, attempt = some login →
        v'.Taken (deployment.digest handle, login)) v := by
  refine Spec.seq (P := fun row v' => ∀ login, row = some login →
      v'.held = some (deployment.digest handle, login) ∧
        (deployment.digest handle, login) ∈ v'.started)
    (spec_ask (fun _ _ => trivial) ?_) fun row v₁ hrow => ?_
  · rintro v' row world - hsound hanswer login rfl
    obtain ⟨hfound, -⟩ := Prod.mk.inj (hanswer.ok rfl)
    exact ⟨rfl, List.mem_append_left _ (hsound.rows _ _ (Except.ok.inj hfound))⟩
  · cases row with
    | none => exact spec_ret fun _ hlogin => by cases hlogin
    | some login =>
      obtain ⟨hheld, hstarted⟩ := hrow login rfl
      refine Spec.bind (P := fun now v' => Heard.clock now ∈ v'.heard) (all_perform rfl)
        (spec_ask (fun _ _ => trivial) fun v' now world _ _ _ => ?_) fun now v₂ h₂ hnow => ?_
      · simp [LoginView.after, LoginCall.hears]
      · split
        · exact spec_ret fun _ hlogin => by cases hlogin
        · next hexpiry =>
          refine spec_ret fun found heq => ?_
          cases heq
          exact ⟨h₂.held.trans hheld, h₂.started hstarted, now, hnow, Int.not_le.mp hexpiry⟩

/-- What a callback has shown by the time the provider has vouched. -/
structure LoginView.Shown (deployment : Deployment) (library : OidcLibrary KeySet)
    (settings : OidcSettings) (v : LoginView KeySet) (callback : Callback) (attempt : LoginAttempt)
    (username : String) (role : Role) : Prop where
  taken : v.Taken attempt
  handle : deployment.digest callback.handle = attempt.1
  state : callback.state = some attempt.2.state
  declined : given callback.error = false
  vouched : ∃ code, callback.code = some code ∧
    Vouched library settings v.said v.heard code attempt.2 username role

theorem LoginView.Shown.onward {v v' : LoginView KeySet} {callback : Callback}
    {attempt : LoginAttempt} {username : String} {role : Role}
    (h : v.Shown deployment library settings callback attempt username role) (honward : v.Onward v') :
    v'.Shown deployment library settings callback attempt username role := by
  obtain ⟨code, hcode, hvouched⟩ := h.vouched
  exact { h with
    taken := h.taken.onward honward
    vouched := ⟨code, hcode, hvouched.mono honward.said honward.heard⟩ }

/-- The mirrored row is that of the name it was asked for. -/
theorem spec_mirror (username : String) (role : Role) :
    Spec deployment library settings op ((mirror username role).lift LoginCall.accounts)
      (fun found v' => v.Onward v' ∧ ∀ user, found = some user → user.username = username ∧
        user.role = role ∧ user.disabled = false ∧ Heard.mirrored username role user ∈ v'.heard) v := by
  unfold mirror
  rw [bind_eq, lift_bind, lift_perform]
  refine Spec.bind (P := fun user v' => user.username = username ∧ user.role = role ∧
      Heard.mirrored username role user ∈ v'.heard) (all_perform rfl)
    (spec_ask (fun _ _ => trivial) ?_) fun user v₁ h₁ huser => ?_
  · intro v' user world _ hsound hanswer
    obtain ⟨hmirrored, -⟩ := Prod.mk.inj (hanswer.ok rfl)
    obtain rfl := Except.ok.inj hmirrored
    refine ⟨?_, ?_, by simp [LoginView.after, LoginCall.hears]⟩
    · unfold Accounts.mirrored
      split
      · next row hrow => exact hsound.named _ row hrow
      · rfl
    · unfold Accounts.mirrored
      split <;> rfl
  · by_cases hdisabled : user.disabled = true
    · rw [if_pos hdisabled]
      exact spec_ret ⟨h₁, fun _ hnone => by cases hnone⟩
    · rw [if_neg hdisabled]
      refine spec_ret ⟨h₁, fun found heq => ?_⟩
      cases heq
      exact ⟨huser.1, huser.2.1, by simpa using hdisabled, huser.2.2⟩

/-- A session is opened for who has been vouched for. -/
theorem spec_ssoCallback {callback : Callback} {attempt : LoginAttempt} {username : String}
    {role : Role} (hop : op = .ssoCallback callback)
    (h : v.Shown deployment library settings callback attempt username role) (drawn : String) :
    Spec deployment library settings op
      ((ssoCallback deployment drawn username role).lift LoginCall.accounts) (fun _ _ => True) v := by
  unfold ssoCallback
  split
  · exact spec_raise _
  rw [bind_eq, lift_bind]
  refine Spec.seq (spec_mirror username role) fun found v₁ hfound => ?_
  obtain ⟨h₁, hfound⟩ := hfound
  cases found with
  | none => exact spec_raise _
  | some user =>
    obtain ⟨hname, hrole, henabled, hmirrored⟩ := hfound user rfl
    subst hname hrole
    have hshown := h.onward h₁
    unfold createSession
    simp only [bind_eq, lift_bind, lift_perform]
    refine Spec.seq (P := fun _ _ => True) ?_ fun _ _ _ => spec_ret trivial
    refine Spec.bind (P := fun _ _ => True) (all_perform rfl)
      (spec_ask (fun _ _ => trivial) fun _ _ _ _ _ _ => trivial) fun now v₂ h₂ _ => ?_
    refine spec_ask (fun v₃ h₃ _ => ?_) fun _ _ _ _ _ _ => trivial
    -- what was shown still stands by the time the session is written
    have honward := h₂.trans h₃.onward
    have hthen := hshown.onward honward
    obtain ⟨code, hcode, hvouched⟩ := hthen.vouched
    exact ⟨attempt, callback, hop, hthen.taken.held, hthen.taken.started, hthen.handle, hthen.state,
      hthen.declined, hthen.taken.unexpired, code, user, hcode, hvouched, honward.heard hmirrored,
      henabled, rfl⟩

theorem spec_finishSso {callback : Callback} (hop : op = .ssoCallback callback) (drawn : String) :
    Spec deployment library settings op (finishSso deployment library settings drawn callback)
      (fun _ _ => True) v := by
  refine Spec.seq (P := fun _ _ => True) (spec_ofExcept fun _ _ => trivial) fun _ v₁ _ => ?_
  -- the attempt is spent before anything the callback presents is looked at
  refine Spec.seq (spec_takeLogin callback.handle) fun attempt v₂ htaken => ?_
  split
  · exact spec_raise _
  next herror =>
    cases attempt with
    | none => exact spec_raise _
    | some login =>
      dsimp only
      split
      · exact spec_raise _
      next hpresented =>
        simp only [Bool.or_eq_true, Bool.not_eq_true', bne_iff_ne, not_or, ne_eq, Bool.not_eq_false,
          not_not] at hpresented
        obtain ⟨⟨hcode, hgiven⟩, hstate⟩ := hpresented
        refine Spec.bind (quiet_verified _ _).attempt (Spec.attempt (spec_verified _ _))
          fun who v₃ h₃ hvouched => ?_
        rcases who with e | ⟨username, role⟩
        · dsimp only
          split <;> exact spec_raise _
        · refine spec_ssoCallback hop ⟨(htaken login rfl).onward h₃, rfl, ?_,
            by simpa using herror, ?_⟩ drawn
          · cases hpresentedState : callback.state with
            | none => simp [given, hpresentedState] at hgiven
            | some state => simpa [hpresentedState] using hstate
          · cases hpresentedCode : callback.code with
            | none => simp [given, hpresentedCode] at hcode
            | some code =>
              refine ⟨code, rfl, ?_⟩
              simpa [hpresentedCode] using hvouched (username, role) rfl

theorem spec_ssoLogin (drawn : Drawn) :
    Spec deployment library settings op (ssoLogin deployment library settings drawn)
      (fun _ _ => True) v := by
  refine Spec.seq (P := fun _ _ => True) (spec_ofExcept fun _ _ => trivial) fun _ v₁ _ => ?_
  refine Spec.seq (P := fun _ _ => True) (spec_ask (fun _ _ => trivial) fun _ _ _ _ _ _ => trivial)
    fun now v₂ _ => ?_
  refine Spec.seq (P := fun _ _ => True) (Spec.mono (Spec.attempt (P := fun _ _ => True) ?_)
    fun _ _ _ => trivial) fun url v₃ _ => ?_
  · refine Spec.seq spec_discovered fun found v₃ _ => ?_
    refine Spec.seq (P := fun _ _ => True) (spec_ofExcept fun _ _ => trivial) fun _ v₄ _ => ?_
    exact Spec.seq (P := fun _ _ => True) (spec_ofExcept fun _ _ => trivial)
      fun _ v₅ _ => spec_ret trivial
  · cases url with
    | error e =>
      dsimp only
      split <;> exact spec_raise _
    | ok url =>
      refine Spec.seq (P := fun _ _ => True) ?_ fun _ _ _ => spec_ret trivial
      exact spec_ask (fun _ _ => trivial) fun _ _ _ _ _ _ => trivial

end specs

/-! ### The other operations -/

/-- A call that opens no `sso` session. -/
def AuthCall.Plain {β : Type} : AuthCall β → Prop
  | .insertSession _ session => session.via ≠ .sso
  | _ => True

abbrev OpensNone {α : Type} (p : AuthProg α) : Prop := p.All fun c => c.Plain

section plain

variable (deployment) (request : HttpRequest)

theorem plain_tokenAudited (action tokenId : String) (detail : Option String) :
    OpensNone (tokenAudited action tokenId detail) := by
  refine All.bind (all_perform trivial).attempt fun r => ?_
  cases r with
  | ok _ => trivial
  | error e =>
    dsimp only
    split <;> trivial

theorem plain_fromBearer : OpensNone (fromBearer deployment request) := by
  unfold fromBearer
  split
  · trivial
  · refine All.bind (all_perform trivial) fun token => ?_
    cases token with
    | none => trivial
    | some token =>
      refine All.bind (all_perform trivial) fun now => ?_
      split
      · trivial
      · refine All.bind (all_perform trivial) fun owner => ?_
        cases owner with
        | none => trivial
        | some owner =>
          dsimp only
          split
          · trivial
          · exact All.bind (All.bind (all_perform trivial) fun _ => all_perform trivial) fun _ => trivial

theorem plain_fromSession : OpensNone (fromSession deployment request) := by
  unfold fromSession
  split
  · trivial
  · split
    · trivial
    · refine All.bind (All.bind (all_perform trivial) fun session => ?_) fun session => ?_
      · cases session with
        | none => trivial
        | some session =>
          refine All.bind (all_perform trivial) fun now => ?_
          split <;> trivial
      · cases session with
        | none => trivial
        | some session =>
          refine All.bind (all_perform trivial) fun user => ?_
          cases user with
          | none => trivial
          | some user =>
            dsimp only
            split <;> trivial

theorem plain_caller : OpensNone (caller deployment request) := by
  unfold caller
  split
  · trivial
  · refine All.bind (plain_fromBearer deployment request) fun identity => ?_
    cases identity with
    | some identity => trivial
    | none =>
      cases SIGN_IN_AT deployment.authMode with
      | none => trivial
      | some signIn =>
        refine All.bind (plain_fromSession deployment request) fun identity => ?_
        cases identity <;> trivial

theorem plain_login (drawn username password : String) :
    OpensNone (login deployment drawn username password) := by
  unfold login
  split
  · trivial
  · refine All.bind (All.bind (all_perform trivial) fun user => ?_) fun user => ?_
    · cases user with
      | none => trivial
      | some user =>
        dsimp only
        split
        · trivial
        · split
          · exact All.bind (all_perform trivial) fun _ => trivial
          · trivial
    · cases user with
      | none => trivial
      | some user =>
        exact All.bind (All.bind (all_perform trivial) fun _ =>
          all_perform (show Via.password ≠ .sso by decide)) fun _ => trivial

theorem plain_postToken (drawn id name : String) (expiresInDays : Option Nat) :
    OpensNone (postToken deployment drawn request id name expiresInDays) := by
  refine All.bind (plain_caller deployment request) fun identity => ?_
  split
  · trivial
  · exact All.bind (all_perform trivial) fun _ => All.bind (all_perform trivial) fun _ =>
      All.bind (all_perform trivial) fun _ => All.bind (plain_tokenAudited _ _ _) fun _ => trivial

theorem plain_deleteToken (tokenId : String) : OpensNone (deleteToken deployment request tokenId) := by
  refine All.bind (plain_caller deployment request) fun identity =>
    All.bind (all_perform trivial) fun token => ?_
  cases token with
  | none => trivial
  | some token =>
    dsimp only
    split
    · trivial
    · refine All.bind (All.bind (all_perform trivial) fun _ => All.bind (all_perform trivial)
        fun revoked => ?_) fun _ => trivial
      split
      · exact All.bind (plain_tokenAudited _ _ _) fun _ => trivial
      · trivial

/-- Nothing but the callback opens an `sso` session. -/
theorem plain_serve (drawn : String) {op : AuthOp}
    (h : ∀ username role, op ≠ .ssoCallback username role) : OpensNone (op.serve deployment drawn) := by
  cases op with
  | createUser user => exact all_perform trivial
  | ensureInitialAdmin username passwordHash =>
    refine All.bind (All.bind (all_perform trivial) fun count => ?_) fun _ => trivial
    split
    · trivial
    · refine All.bind (all_perform trivial).attempt fun r => ?_
      cases r with
      | ok _ => trivial
      | error e =>
        dsimp only
        split <;> trivial
  | login username password => exact All.bind (plain_login deployment drawn _ _) fun _ => trivial
  | ssoCallback username role => exact absurd rfl (h username role)
  | logout request =>
    refine All.bind (plain_caller deployment request) fun _ => ?_
    split
    · trivial
    · split
      · trivial
      · exact all_perform trivial
  | createToken request id name expiresInDays =>
    exact All.bind (plain_postToken deployment request drawn _ _ _) fun _ => trivial
  | revokeToken request tokenId => exact plain_deleteToken deployment request tokenId
  | me request => exact All.bind (plain_caller deployment request) fun _ => trivial

end plain

/-- A call that opens no `sso` session is warranted in itself. -/
theorem AuthCall.Plain.promised {β : Type} {c : AuthCall β} (h : c.Plain) (op : LoginOp)
    (v : LoginView KeySet) :
    (LoginCall.accounts c).Promised deployment library settings op v := by
  cases c with
  | insertSession digest session => exact fun hsso => absurd hsso h
  | _ => trivial

/-- Every operation makes only calls that are warranted. -/
theorem spec_serve (op : LoginOp) (drawn : Drawn) (v : LoginView KeySet) :
    Spec deployment library settings op (op.serve deployment library settings drawn)
      (fun _ _ => True) v := by
  cases op with
  | other op h =>
    have hplain := plain_serve deployment drawn.value h
    have hlifted : ((op.serve deployment drawn.value).lift LoginCall.accounts : LoginProg KeySet Unit).All
        fun c => ∀ v, c.Promised deployment library settings (.other op h) v :=
      All.lift (hplain.mono fun c hc v => hc.promised (.other op h) v)
    refine Safe.mono (All.safe (I := fun _ => True) (fun _ _ _ _ => trivial) ?_ hlifted trivial)
      fun _ _ _ _ _ => trivial
    exact fun c v r v' hpromised _ _ => ⟨hpromised v, trivial⟩
  | ssoLogin => exact Spec.seq (spec_ssoLogin drawn) fun _ _ _ => spec_ret trivial
  | ssoCallback callback =>
    exact Spec.seq (spec_finishSso rfl drawn.value) fun _ _ _ => spec_ret trivial

/-! ### What a call leaves -/

theorem LoginWorld.Answer.state {β : Type} {c : LoginCall KeySet β} {w w' : LoginWorld KeySet}
    {r : Except Error β} (h : LoginWorld.Answer c w r w') : w' = w ∨ w' = (LoginWorld.exec c w).2 := by
  cases h with
  | through => exact Or.inr rfl
  | lost _ e => exact Or.inl rfl
  | unheard _ e => exact Or.inr rfl
  | said body => exact Or.inl rfl

section exec

variable {β : Type} {c : LoginCall KeySet β} {w : LoginWorld KeySet}

/-- A row of an attempt that is there was there before, or is begun by the call. -/
theorem LoginWorld.exec_logins {digest : String} {login : PendingLogin}
    (h : (LoginWorld.exec c w).2.logins[digest]? = some login) :
    w.logins[digest]? = some login ∨ (digest, login) ∈ c.starts w (LoginWorld.exec c w).2 := by
  cases c with
  | start key written =>
    have hafter := h
    simp only [LoginWorld.exec] at h
    split at h
    · exact Or.inl h
    · next hnew =>
      rw [Std.ExtTreeMap.getElem?_insert] at h
      split at h
      · next heq =>
        obtain rfl := Option.some.inj h
        obtain rfl := Std.LawfulEqCmp.compare_eq_iff_eq.mp heq
        refine Or.inr ?_
        rw [LoginCall.starts, if_pos ⟨hnew, hafter⟩]
        exact List.mem_singleton_self _
      · exact Or.inl h
  | take key => exact Or.inl (getElem?_of_erase h)
  | _ => exact Or.inl h

/-- An `sso` session that is there was there before, or is opened by the call. -/
theorem LoginWorld.exec_opens (task : LoginTask KeySet) {digest : String} {session : Session}
    (hsso : session.via = .sso)
    (h : (LoginWorld.exec c w).2.accounts.sessions[digest]? = some session) :
    w.accounts.sessions[digest]? = some session ∨
      ⟨digest, session, task.held, task.op, task.heard⟩ ∈ c.opens task w (LoginWorld.exec c w).2 := by
  cases c with
  | accounts c =>
    cases c with
    | insertSession key written =>
      have hafter := h
      simp only [LoginWorld.exec, Accounts.exec] at h
      split at h
      · exact Or.inl h
      · next hnew =>
        rw [Std.ExtTreeMap.getElem?_insert] at h
        split at h
        · next heq =>
          obtain rfl := Option.some.inj h
          obtain rfl := Std.LawfulEqCmp.compare_eq_iff_eq.mp heq
          refine Or.inr ?_
          rw [LoginCall.opens, if_pos ⟨hsso, hnew, hafter⟩]
          exact List.mem_singleton_self _
        · exact Or.inl h
    | deleteSession key => exact Or.inl (getElem?_of_erase h)
    | insertUser user =>
      simp only [LoginWorld.exec, Accounts.exec] at h
      split at h <;> exact Or.inl h
    | setPasswordHash username passwordHash =>
      simp only [LoginWorld.exec, Accounts.exec] at h
      split at h <;> exact Or.inl h
    | insertToken token =>
      simp only [LoginWorld.exec, Accounts.exec] at h
      split at h <;> exact Or.inl h
    | setRevoked id instant =>
      simp only [LoginWorld.exec, Accounts.exec] at h
      split at h <;> exact Or.inl h
    | _ => exact Or.inl h
  | start key login =>
    simp only [LoginWorld.exec] at h
    split at h <;> exact Or.inl h
  | _ => exact Or.inl h

end exec

/-- A sound state is left sound by a call that is warranted. -/
theorem LoginView.Sound.after {v : LoginView KeySet} (h : v.Sound library settings) {β : Type}
    {c : LoginCall KeySet β} {op : LoginOp} {r : Except Error β} {world : LoginWorld KeySet}
    (hpromised : c.Promised deployment library settings op v)
    (hanswer : LoginWorld.Answer c v.world r world) : (v.after c r world).Sound library settings := by
  have hsaid : v.said ⊆ v.said ++ c.hears r := List.subset_append_left _ _
  have hstarted : v.started ⊆ v.started ++ c.starts v.world world := List.subset_append_left _ _
  -- a call that was lost on the way has left everything as it was
  rcases hanswer.state with rfl | rfl
  · exact ⟨h.named, fun digest login hrow => hstarted (h.rows digest login hrow),
      fun found hfound => (h.discovered found hfound).mono hsaid,
      fun keys hkeys => (h.keys keys hkeys).mono hsaid⟩
  · refine ⟨fun username user huser => ?_, fun digest login hrow => ?_, fun found hfound => ?_,
      fun keys hkeys => ?_⟩
    · cases c with
      | accounts c => exact Accounts.exec_named h.named huser
      | start key login =>
        simp only [LoginView.after, LoginWorld.exec] at huser
        split at huser <;> exact h.named _ _ huser
      | _ => exact h.named _ _ huser
    · rcases LoginWorld.exec_logins hrow with hbefore | hbegun
      · exact hstarted (h.rows digest login hbefore)
      · exact List.mem_append_right _ hbegun
    · cases c with
      | setDiscovered written =>
        obtain rfl := Option.some.inj hfound
        exact Trusted.mono hpromised hsaid
      | start key login =>
        simp only [LoginView.after, LoginWorld.exec] at hfound
        split at hfound <;> exact (h.discovered _ hfound).mono hsaid
      | _ => exact (h.discovered _ hfound).mono hsaid
    · cases c with
      | setKeys written =>
        obtain rfl := Option.some.inj hkeys
        exact Published.mono hpromised hsaid
      | start key login =>
        simp only [LoginView.after, LoginWorld.exec] at hkeys
        split at hkeys <;> exact (h.keys _ hkeys).mono hsaid
      | _ => exact (h.keys _ hkeys).mono hsaid

/-! ### Every step keeps it -/

/-- What an operation under way sees of the service. -/
def LoginService.seenBy (s : LoginService KeySet) (task : LoginTask KeySet) : LoginView KeySet :=
  ⟨task.held, task.heard, s.world, s.started, s.heard⟩

/-- What there is is sound, what is under way makes calls that are warranted only, every session that
was opened is warranted, and every `sso` session that is there was opened. -/
structure LoginService.Kept (deployment : Deployment) (library : OidcLibrary KeySet)
    (settings : OidcSettings) (s : LoginService KeySet) : Prop where
  sound : LoginView.Sound library settings ⟨none, [], s.world, s.started, s.heard⟩
  tasks : ∀ task ∈ s.tasks,
    Spec deployment library settings task.op task.rest (fun _ _ => True) (s.seenBy task)
  opened : ∀ opening ∈ s.opened, ∃ attempt callback,
    opening.Warranted deployment library settings s.started s.heard attempt callback
  sessions : ∀ digest session, s.world.accounts.sessions[digest]? = some session →
    session.via = .sso → ∃ opening ∈ s.opened, opening.digest = digest ∧ opening.session = session

theorem LoginView.Sound.of_world {v v' : LoginView KeySet} (h : v.Sound library settings)
    (hworld : v'.world = v.world) (hstarted : v'.started = v.started) (hsaid : v'.said = v.said) :
    v'.Sound library settings := by
  refine ⟨?_, ?_, ?_, ?_⟩
  · rw [hworld]
    exact h.named
  · rw [hworld, hstarted]
    exact h.rows
  · rw [hworld, hsaid]
    exact h.discovered
  · rw [hworld, hsaid]
    exact h.keys

/-- What is done elsewhere leaves a program's calls warranted. -/
theorem Spec.elsewhere {op : LoginOp} {p : LoginProg KeySet Unit} {v v' : LoginView KeySet}
    (h : Spec deployment library settings op p (fun _ _ => True) v) (hv : v.Elsewhere v') :
    Spec deployment library settings op p (fun _ _ => True) v' := by
  refine Safe.stable ?_ (fun _ _ _ _ _ _ _ => trivial) h hv
  intro v₁ v₂ v₃ h₁ h₂
  exact ⟨h₂.held.trans h₁.held, h₂.heard.trans h₁.heard, fun _ hx => h₂.started (h₁.started hx),
    fun _ hx => h₂.said (h₁.said hx)⟩

/-- A step that only changes the collections, keeping the names of users and adding no session. -/
theorem LoginService.Kept.withWorld {s : LoginService KeySet}
    (h : s.Kept deployment library settings) {world : LoginWorld KeySet}
    (hnamed : ∀ (username : String) (user : User), world.accounts.users[username]? = some user →
      user.username = username)
    (hrows : ∀ (digest : String) (login : PendingLogin), world.logins[digest]? = some login →
      s.world.logins[digest]? = some login)
    (hdiscovered : ∀ found, world.discovered = some found → s.world.discovered = some found)
    (hkeys : ∀ keys, world.keys = some keys → s.world.keys = some keys)
    (hsessions : ∀ (digest : String) (session : Session), world.accounts.sessions[digest]? = some session →
      s.world.accounts.sessions[digest]? = some session) :
    LoginService.Kept deployment library settings { s with world := world } where
  sound := ⟨hnamed, fun digest login hrow => h.sound.rows digest login (hrows digest login hrow),
    fun found hfound => h.sound.discovered found (hdiscovered found hfound),
    fun keys hkept => h.sound.keys keys (hkeys keys hkept)⟩
  tasks task htask := (h.tasks task htask).elsewhere
    ⟨rfl, rfl, List.Subset.refl _, List.Subset.refl _⟩
  opened := h.opened
  sessions digest session hsession := h.sessions digest session (hsessions digest session hsession)

/-- A call of an operation. -/
theorem LoginService.Kept.call {s : LoginService KeySet} (h : s.Kept deployment library settings)
    {i : Nat} {task : LoginTask KeySet} {β : Type} {c : LoginCall KeySet β}
    {k : Except Error β → LoginProg KeySet Unit} {r : Except Error β} {world : LoginWorld KeySet}
    (htask : s.tasks[i]? = some task) (hrest : task.rest = .call c k)
    (hanswer : LoginWorld.Answer c s.world r world) :
    LoginService.Kept deployment library settings
      { world := world
        tasks := s.tasks.set i ⟨task.op, c.hold task.held r, task.heard ++ c.hears r, k r⟩
        started := s.started ++ c.starts s.world world
        heard := s.heard ++ c.hears r
        opened := s.opened ++ c.opens task s.world world } := by
  have hsound : (s.seenBy task).Sound library settings := h.sound.of_world rfl rfl rfl
  have hspec := h.tasks task (List.mem_of_getElem? htask)
  rw [hrest] at hspec
  -- the operation's own specification says what warrants the call, and specifies what is left
  obtain ⟨hpromised, hnext⟩ := hspec (s.seenBy task)
    ⟨rfl, rfl, List.Subset.refl _, List.Subset.refl _⟩ r _ ⟨hsound, world, hanswer, rfl⟩
  have hstarted : s.started ⊆ s.started ++ c.starts s.world world := List.subset_append_left _ _
  have hheard : s.heard ⊆ s.heard ++ c.hears r := List.subset_append_left _ _
  refine ⟨(hsound.after hpromised hanswer).of_world rfl rfl rfl, fun other hother => ?_,
    fun opening hopening => ?_, fun digest session hsession hsso => ?_⟩
  · rcases List.mem_or_eq_of_mem_set hother with hmem | rfl
    · exact (h.tasks other hmem).elsewhere ⟨rfl, rfl, hstarted, hheard⟩
    · exact hnext
  · rcases List.mem_append.mp hopening with hmem | hmem
    · obtain ⟨attempt, callback, hwarranted⟩ := h.opened opening hmem
      exact ⟨attempt, callback, hwarranted.mono hstarted hheard⟩
    · cases c with
      | accounts c =>
        cases c with
        | insertSession digest session =>
          simp only [LoginCall.opens] at hmem
          split at hmem
          · next hnew =>
            obtain rfl := List.mem_singleton.mp hmem
            obtain ⟨attempt, callback, hwarranted⟩ := hpromised hnew.1
            exact ⟨attempt, callback, hwarranted.mono hstarted hheard⟩
          · cases hmem
        | _ => cases hmem
      | _ => cases hmem
  · have hopens : s.world.accounts.sessions[digest]? = some session ∨
        ⟨digest, session, task.held, task.op, task.heard⟩ ∈ c.opens task s.world world := by
      rcases hanswer.state with rfl | rfl
      · exact Or.inl hsession
      · exact LoginWorld.exec_opens task hsso hsession
    rcases hopens with hbefore | hopened
    · obtain ⟨opening, hmem, hopening⟩ := h.sessions digest session hbefore hsso
      exact ⟨opening, List.mem_append_left _ hmem, hopening⟩
    · exact ⟨_, List.mem_append_right _ hopened, rfl, rfl⟩

theorem LoginStep.kept {s s' : LoginService KeySet} {e : LoginEvent}
    (h : s.Kept deployment library settings) (hstep : LoginStep deployment library settings s e s') :
    s'.Kept deployment library settings := by
  cases hstep with
  | arrive op drawn =>
    refine ⟨h.sound, fun task htask => ?_, h.opened, h.sessions⟩
    rcases List.mem_append.mp htask with hmem | hmem
    · exact h.tasks task hmem
    · obtain rfl := List.mem_singleton.mp hmem
      exact spec_serve op drawn _
  | call htask hrest hanswer => exact h.call htask hrest hanswer
  | edit huser role disabled =>
    refine h.withWorld (fun username user hfound => ?_) (fun _ _ => id) (fun _ => id) (fun _ => id)
      (fun _ _ => id)
    exact named_insert h.sound.named (by simpa using h.sound.named _ _ huser) hfound
  | remove username =>
    exact h.withWorld (fun _ _ hfound => h.sound.named _ _ (getElem?_of_erase hfound)) (fun _ _ => id)
      (fun _ => id) (fun _ => id) (fun _ _ => id)
  | reapSession hsession hexpired =>
    exact h.withWorld h.sound.named (fun _ _ => id) (fun _ => id) (fun _ => id)
      fun _ _ => getElem?_of_erase
  | reapLogin hlogin hexpired =>
    exact h.withWorld h.sound.named (fun _ _ => getElem?_of_erase) (fun _ => id) (fun _ => id)
      (fun _ _ => id)
  | tick now =>
    exact h.withWorld h.sound.named (fun _ _ => id) (fun _ => id) (fun _ => id) (fun _ _ => id)
  | die =>
    refine ⟨⟨h.sound.named, h.sound.rows, fun _ hfound => ?_, fun _ hkeys => ?_⟩,
      fun task htask => ?_, h.opened, h.sessions⟩
    · cases hfound
    · cases hkeys
    · cases htask

theorem LoginReachable.kept {s : LoginService KeySet}
    (h : LoginReachable deployment library settings s) : s.Kept deployment library settings := by
  obtain ⟨now, hrun⟩ := h
  refine hrun.invariant ⟨⟨?_, ?_, ?_, ?_⟩, ?_, ?_, ?_⟩ fun _ _ _ hkept _ hstep => hstep.kept hkept
  · intro username user huser
    simp [LoginService.boot] at huser
  · intro digest login hrow
    simp [LoginService.boot] at hrow
  · intro found hfound
    cases hfound
  · intro keys hkeys
    cases hkeys
  · intro task htask
    cases htask
  · intro opening hopening
    cases hopening
  · intro digest session hsession
    simp [LoginService.boot] at hsession

/-! ### Once for each attempt -/

/-- Whether the attempt is what is in hand. -/
def holds (attempt : LoginAttempt) (held : Option LoginAttempt) : Nat :=
  if held = some attempt then 1 else 0

/-- Whether the attempt's row is there. -/
def LoginWorld.rows (w : LoginWorld KeySet) (attempt : LoginAttempt) : Nat :=
  if w.logins[attempt.1]? = some attempt.2 then 1 else 0

/-- How many of these sessions were opened for the attempt. -/
def openedFor (attempt : LoginAttempt) (opened : List Opening) : Nat :=
  opened.countP fun opening => opening.attempt = some attempt

theorem openedFor_append (attempt : LoginAttempt) (opened more : List Opening) :
    openedFor attempt (opened ++ more) = openedFor attempt opened + openedFor attempt more :=
  List.countP_append

theorem rows_erase_le (w : LoginWorld KeySet) (digest : String) (attempt : LoginAttempt) :
    ({ w with logins := w.logins.erase digest } : LoginWorld KeySet).rows attempt ≤ w.rows attempt := by
  simp only [LoginWorld.rows, Std.ExtTreeMap.getElem?_erase]
  split <;> split <;> simp_all

/-- The row that is taken is there no more. -/
theorem take_moved {w : LoginWorld KeySet} {digest : String} {login : PendingLogin}
    (hrow : w.logins[digest]? = some login) (attempt : LoginAttempt) :
    holds attempt (some (digest, login)) +
      ({ w with logins := w.logins.erase digest } : LoginWorld KeySet).rows attempt ≤
        w.rows attempt := by
  by_cases hattempt : (digest, login) = attempt
  · subst hattempt
    simp [holds, LoginWorld.rows, hrow]
  · have hle := rows_erase_le w digest attempt
    have hholds : holds attempt (some (digest, login)) = 0 := if_neg fun h => hattempt (Option.some.inj h)
    omega

/-- A row that is new is that of an attempt which has been started. -/
theorem start_moved (w : LoginWorld KeySet) (digest : String) (login : PendingLogin)
    (attempt : LoginAttempt) :
    (LoginWorld.exec (.start digest login) w).2.rows attempt ≤ w.rows attempt +
      ((LoginCall.start digest login).starts w
        (LoginWorld.exec (.start digest login) w).2).count attempt := by
  by_cases hnew : digest ∈ w.logins
  · simp [LoginWorld.exec, hnew]
  · simp only [LoginWorld.exec, hnew, if_false, LoginCall.starts, LoginWorld.rows,
      Std.ExtTreeMap.getElem?_insert_self, not_false_eq_true, and_self, if_true,
      Std.ExtTreeMap.getElem?_insert]
    by_cases hattempt : (digest, login) = attempt
    · subst hattempt
      simp
    · by_cases hkey : compare digest attempt.1 = .eq
      · have hdigest := Std.LawfulEqCmp.compare_eq_iff_eq.mp hkey
        have hlogin : login ≠ attempt.2 := fun h => hattempt (Prod.ext hdigest h)
        simp [hkey, hlogin]
      · simp [hkey]

/-- What is the attempt's is only moved by a call: from its row to who took it, and on to a session. -/
theorem LoginWorld.Answer.moved {β : Type} {c : LoginCall KeySet β} {w w' : LoginWorld KeySet}
    {r : Except Error β} (h : LoginWorld.Answer c w r w') (task : LoginTask KeySet)
    (attempt : LoginAttempt) :
    holds attempt (c.hold task.held r) + w'.rows attempt + openedFor attempt (c.opens task w w') ≤
      holds attempt task.held + w.rows attempt + (c.starts w w').count attempt := by
  -- A call that leaves the rows and what is in hand alone moves nothing.
  have hstill (hheld : c.hold task.held r = task.held) (hlogins : w'.logins = w.logins)
      (hopens : c.opens task w w' = []) :
      holds attempt (c.hold task.held r) + w'.rows attempt + openedFor attempt (c.opens task w w') ≤
        holds attempt task.held + w.rows attempt + (c.starts w w').count attempt := by
    simp only [hheld, hopens, LoginWorld.rows, hlogins, openedFor, List.countP_nil]
    omega
  cases c with
  | take digest =>
    have hle := rows_erase_le w digest attempt
    have hnone : openedFor attempt ((LoginCall.take digest).opens task w w') = 0 := rfl
    rw [hnone]
    rcases h.inv rfl with ⟨rfl, rfl⟩ | ⟨e, rfl, rfl | rfl⟩
    · cases hrow : w.logins[digest]? with
      | some login =>
        have hmoved := take_moved hrow attempt
        simp only [LoginWorld.exec, hrow, LoginCall.hold]
        omega
      | none =>
        simp only [LoginWorld.exec, hrow, LoginCall.hold]
        omega
    · exact Nat.le_add_right _ _
    · simp only [LoginWorld.exec, LoginCall.hold]
      omega
  | start digest login =>
    rcases h.state with rfl | rfl
    · exact hstill rfl rfl rfl
    · have hmoved := start_moved w digest login attempt
      simp only [LoginCall.hold, LoginCall.opens, openedFor, List.countP_nil]
      omega
  | accounts c =>
    have hlogins : w'.logins = w.logins := by
      rcases h.state with rfl | rfl <;> rfl
    cases c with
    | insertSession digest session =>
      -- The attempt in hand is the one the session is opened for, if it is opened.
      have hopens : openedFor attempt (LoginCall.opens task w w'
          (.accounts (.insertSession digest session))) ≤ holds attempt task.held := by
        simp only [LoginCall.opens, openedFor, holds]
        split <;> simp [List.countP_cons]
      have hnone : holds attempt none = 0 := rfl
      simp only [LoginCall.hold, hnone, LoginWorld.rows, hlogins]
      omega
    | _ => exact hstill rfl hlogins rfl
  | _ =>
    have hlogins : w'.logins = w.logins := by
      rcases h.state with rfl | rfl <;> rfl
    exact hstill rfl hlogins rfl

/-- How much of an attempt is in hand, over all operations. -/
def LoginService.inHand (s : LoginService KeySet) (attempt : LoginAttempt) : Nat :=
  s.tasks.countP fun task => task.held = some attempt

theorem countP_set_le {α : Type*} {p : α → Bool} {l : List α} {i : Nat} {a b : α} (h : l[i]? = some a) :
    (l.set i b).countP p + (if p a then 1 else 0) = l.countP p + (if p b then 1 else 0) := by
  obtain ⟨hi, rfl⟩ := List.getElem?_eq_some_iff.mp h
  have hpos : (if p l[i] then 1 else 0) ≤ l.countP p := by
    split
    · next hp => exact List.countP_pos_iff.mpr ⟨_, List.getElem_mem hi, hp⟩
    · exact Nat.zero_le _
  rw [List.countP_set hi]
  omega

/-- What there is of an attempt: its row, what is in hand and the sessions opened for it. -/
def LoginService.balance (s : LoginService KeySet) (attempt : LoginAttempt) : Nat :=
  s.inHand attempt + s.world.rows attempt + openedFor attempt s.opened

theorem LoginStep.balance {s s' : LoginService KeySet} {e : LoginEvent} (attempt : LoginAttempt)
    (h : s.balance attempt ≤ s.started.count attempt)
    (hstep : LoginStep deployment library settings s e s') :
    s'.balance attempt ≤ s'.started.count attempt := by
  unfold LoginService.balance LoginService.inHand at h ⊢
  cases hstep with
  | arrive op drawn => simpa [List.countP_append] using h
  | @call i task _ c k r world htask hrest hanswer =>
    have hmoved := hanswer.moved task attempt
    have hset := countP_set_le (p := fun task : LoginTask KeySet => decide (task.held = some attempt))
      (b := (⟨task.op, c.hold task.held r, task.heard ++ c.hears r, k r⟩ : LoginTask KeySet)) htask
    simp only [decide_eq_true_eq] at hset
    simp only [holds] at hmoved
    dsimp only
    rw [openedFor_append, List.count_append]
    omega
  | edit huser role disabled => exact h
  | remove username => exact h
  | reapSession hsession hexpired => exact h
  | reapLogin hlogin hexpired =>
    have hle := rows_erase_le s.world ‹String› attempt
    dsimp only
    omega
  | tick now => exact h
  | die =>
    have hsame : ({ s.world with discovered := none, keys := none } : LoginWorld KeySet).rows attempt =
      s.world.rows attempt := rfl
    simp only [hsame, List.countP_nil]
    omega

theorem LoginReachable.balance {s : LoginService KeySet}
    (h : LoginReachable deployment library settings s) (attempt : LoginAttempt) :
    s.balance attempt ≤ s.started.count attempt := by
  obtain ⟨now, hrun⟩ := h
  refine hrun.invariant ?_ fun _ _ _ hkept _ hstep => hstep.balance attempt hkept
  simp [LoginService.boot, LoginService.balance, LoginService.inHand, LoginWorld.rows, openedFor]

/-! ### What the provider says of itself -/

/-- The provider is taken at its word only where that names the issuer Apchi was given, and for none
but the algorithms that Apchi accepts. -/
theorem Trusted.sound {said : List Heard} {found : Discovered}
    (h : Trusted library settings said found) :
    settings.issuer = .ok found.issuer ∧ found.algorithms ⊆ SIGNING_ALGORITHMS := by
  obtain ⟨issuer, document, hissuer, -, hdescribe⟩ := h
  unfold describe at hdescribe
  obtain ⟨named, -, hdescribe⟩ := ok_of_bind hdescribe
  obtain ⟨authorizationEndpoint, -, hdescribe⟩ := ok_of_bind hdescribe
  obtain ⟨tokenEndpoint, -, hdescribe⟩ := ok_of_bind hdescribe
  obtain ⟨jwksUri, -, hdescribe⟩ := ok_of_bind hdescribe
  split at hdescribe
  · cases hdescribe
  next hnamed =>
    obtain ⟨advertised, -, hdescribe⟩ := ok_of_bind hdescribe
    obtain ⟨methods, -, hdescribe⟩ := ok_of_bind hdescribe
    cases hdescribe
    refine ⟨by rw [hissuer, not_not.mp hnamed], ?_⟩
    dsimp only
    split
    · decide
    · exact fun _ hmem => (List.mem_filter.mp hmem).1

/-- Every session that came by way of the provider was opened for an attempt started before, by a
callback that presented its handle and its state in time, for an enabled user whom the provider, being
the one Apchi was given, vouches for; and however many callbacks there are, no attempt is opened more
sessions than it was started times. -/
theorem sso_session_of_attempt {s : LoginService KeySet}
    (h : LoginReachable deployment library settings s) :
    (∀ digest session, s.world.accounts.sessions[digest]? = some session → session.via = .sso →
      ∃ opening ∈ s.opened, opening.digest = digest ∧ opening.session = session) ∧
    (∀ opening ∈ s.opened, ∃ attempt callback,
      opening.Warranted deployment library settings s.started s.heard attempt callback) ∧
    (∀ found, Trusted library settings s.heard found →
      settings.issuer = .ok found.issuer ∧ found.algorithms ⊆ SIGNING_ALGORITHMS) ∧
    ∀ attempt, s.opened.countP (fun opening => opening.attempt = some attempt) ≤
      s.started.count attempt := by
  refine ⟨h.kept.sessions, h.kept.opened, fun found hfound => hfound.sound, fun attempt => ?_⟩
  have hbalance := h.balance attempt
  unfold LoginService.balance openedFor at hbalance
  omega

/-! ### Somebody signs in by way of the provider -/

/-- What a call is answered when all goes well. -/
def LoginCall.answered (provider : ProviderRequest → Json) : {β : Type} → LoginCall KeySet β →
    LoginWorld KeySet → Except Error β × LoginWorld KeySet
  | _, .request asked, w => (.ok (provider asked), w)
  | _, c, w => LoginWorld.exec c w

theorem answer_answered (provider : ProviderRequest → Json) {β : Type} (c : LoginCall KeySet β)
    (w : LoginWorld KeySet) :
    LoginWorld.Answer c w (c.answered provider w).1 (c.answered provider w).2 := by
  cases c with
  | request asked => exact .said (provider asked)
  | _ => exact .through

/-- The next call of an operation under way, gone through. -/
def LoginService.advance (provider : ProviderRequest → Json) (s : LoginService KeySet) (i : Nat) :
    LoginService KeySet :=
  match s.tasks[i]? with
  | some ⟨op, held, heard, .call c k⟩ =>
      let answered := c.answered provider s.world
      { world := answered.2
        tasks := s.tasks.set i ⟨op, c.hold held answered.1, heard ++ c.hears answered.1, k answered.1⟩
        started := s.started ++ c.starts s.world answered.2
        heard := s.heard ++ c.hears answered.1
        opened := s.opened ++ c.opens ⟨op, held, heard, .call c k⟩ s.world answered.2 }
  | _ => s

theorem LoginReachable.advance {s : LoginService KeySet}
    (h : LoginReachable deployment library settings s) (provider : ProviderRequest → Json) (i : Nat) :
    LoginReachable deployment library settings (s.advance provider i) := by
  unfold LoginService.advance
  split
  · next op held heard β c k htask =>
    obtain ⟨now, hrun⟩ := h
    exact ⟨now, hrun.snoc trivial (.call htask rfl (answer_answered provider c s.world))⟩
  · exact h

/-- So many calls of an operation, gone through. -/
def LoginService.advances (provider : ProviderRequest → Json) (i : Nat) :
    Nat → LoginService KeySet → LoginService KeySet
  | 0, s => s
  | n + 1, s => LoginService.advances provider i n (s.advance provider i)

theorem LoginReachable.advances {s : LoginService KeySet}
    (h : LoginReachable deployment library settings s) (provider : ProviderRequest → Json)
    (i n : Nat) : LoginReachable deployment library settings (s.advances provider i n) := by
  induction n generalizing s with
  | zero => exact h
  | succ n ih => exact ih (h.advance provider i)

variable (deployment library settings) in
/-- An operation has arrived. -/
def LoginService.arrived (s : LoginService KeySet) (op : LoginOp) (drawn : Drawn) :
    LoginService KeySet :=
  { s with tasks := s.tasks ++ [⟨op, none, [], op.serve deployment library settings drawn⟩] }

theorem LoginReachable.arrived {s : LoginService KeySet}
    (h : LoginReachable deployment library settings s) (op : LoginOp) (drawn : Drawn) :
    LoginReachable deployment library settings
      (s.arrived deployment library settings op drawn) := by
  obtain ⟨now, hrun⟩ := h
  exact ⟨now, hrun.snoc trivial (.arrive op drawn)⟩

end attempts

def ssoDeployment : Deployment := { smallDeployment with authMode := .sso }

/-- A library that finds every signature good, in a token of Jo's. -/
def ssoLibrary : OidcLibrary Unit where
  str _ := ""
  repr text := "'" ++ text ++ "'"
  sha256 bytes := bytes
  importKeySet _ := .ok ()
  decode _ _ _ := .ok [("preferred_username", .str "jo"), ("nonce", .str "n1")]
  validate _ _ _ _ := .ok ()

def ssoSettings : OidcSettings :=
  { oidcIssuer := some "https://id", oidcClientId := some "apchi", oidcRedirectUrl := some "https://apchi" }

/-- A provider that answers. -/
def answeringProvider (asked : ProviderRequest) : Json :=
  if asked.method = "POST" then .obj [("id_token", .str "t1")]
  else .obj [("issuer", .str "https://id"), ("authorization_endpoint", .str "https://id/auth"),
    ("token_endpoint", .str "https://id/token"), ("jwks_uri", .str "https://id/keys"),
    ("keys", .arr [])]

/-- Jo has been to the provider and back. -/
def viaProvider : LoginService Unit :=
  let away := ((LoginService.boot 0).arrived ssoDeployment ssoLibrary ssoSettings .ssoLogin
    ⟨"h1", "s1", "n1", "v1"⟩).advances answeringProvider 0 5
  (away.arrived ssoDeployment ssoLibrary ssoSettings
    (.ssoCallback ⟨some "h1", some "c1", some "s1", none⟩) { value := "w1" }).advances
      answeringProvider 1 13

theorem reachable_viaProvider :
    LoginReachable ssoDeployment ssoLibrary ssoSettings viaProvider := by
  have hboot : LoginReachable ssoDeployment ssoLibrary ssoSettings (LoginService.boot 0) := ⟨0, .nil⟩
  have haway := (hboot.arrived .ssoLogin ⟨"h1", "s1", "n1", "v1"⟩).advances answeringProvider 0 5
  exact (haway.arrived (.ssoCallback ⟨some "h1", some "c1", some "s1", none⟩)
    { value := "w1" }).advances answeringProvider 1 13

theorem sso_session_of_jo : viaProvider.opened.length = 1 ∧
    ∀ opening ∈ viaProvider.opened, ∃ attempt callback,
      opening.Warranted ssoDeployment ssoLibrary ssoSettings viaProvider.started viaProvider.heard
        attempt callback :=
  ⟨by decide +kernel, (sso_session_of_attempt reachable_viaProvider).2.1⟩

end Apchi.Auth
