import Apchi.Auth.Service

/-!
# Authority is always current

Whatever has happened in whatever order, a request is resolved to an identity only by a credential that
was handed out to that user and is still good, by way of the user's row as it stands, which must not be
disabled and whose role the identity takes.
-/

namespace Apchi.Auth

open Lib Prog

variable {deployment : Deployment}

/-! ### What is kept -/

/-- A text with this digest was handed out, to stand for the user. -/
def Issued (deployment : Deployment) (issued : List Issuance) (credential : Credential)
    (user digest : String) : Prop :=
  ∃ text, ⟨credential, text, user⟩ ∈ issued ∧ deployment.digest text = digest

/-- A call that writes a credential writes the digest of the text drawn for it. -/
def AuthCall.Draws (deployment : Deployment) (drawn : String) {β : Type} : AuthCall β → Prop
  | .insertToken token => token.tokenDigest = deployment.digest drawn
  | .insertSession digest _ => digest = deployment.digest drawn
  | _ => True

/-- Every row is under its own name, and every credential was handed out to whom it stands for. -/
structure Moment.Kept (deployment : Deployment) (m : Moment) : Prop where
  named : ∀ username (user : User), m.accounts.users[username]? = some user → user.username = username
  tokens : ∀ token ∈ m.accounts.tokens,
    Issued deployment m.issued .token token.owner token.tokenDigest
  sessions : ∀ digest session, m.accounts.sessions[digest]? = some session →
    Issued deployment m.issued .session session.username digest

/-- And every operation under way will write what was drawn for it. -/
structure AuthService.Kept (deployment : Deployment) (s : AuthService) : Prop where
  moment : s.moment.Kept deployment
  drawn : ∀ task ∈ s.tasks, task.rest.All fun c => c.Draws deployment task.drawn

theorem Issued.mono {issued issued' : List Issuance} {credential : Credential} {user digest : String}
    (h : Issued deployment issued credential user digest) (hsub : issued ⊆ issued') :
    Issued deployment issued' credential user digest := by
  obtain ⟨text, hmem, hdigest⟩ := h
  exact ⟨text, hsub hmem, hdigest⟩

/-! ### What a call leaves -/

section exec

variable {β : Type} {accounts : Accounts} {c : AuthCall β} {drawn : String}

/-- A row that was written under its own name is found under it, and the others as before. -/
theorem named_insert {users : Std.ExtTreeMap String User}
    (h : ∀ username (user : User), users[username]? = some user → user.username = username)
    {key username : String} {written user : User} (hwritten : written.username = key)
    (huser : (users.insert key written)[username]? = some user) : user.username = username := by
  rw [Std.ExtTreeMap.getElem?_insert] at huser
  split at huser
  · next heq =>
    obtain rfl := Option.some.inj huser
    rw [hwritten, Std.LawfulEqCmp.compare_eq_iff_eq.mp heq]
  · exact h _ _ huser

theorem Accounts.exec_named
    (h : ∀ username (user : User), accounts.users[username]? = some user → user.username = username)
    {username : String} {user : User}
    (huser : (Accounts.exec c accounts).2.users[username]? = some user) : user.username = username := by
  cases c with
  | insertUser written =>
    simp only [Accounts.exec] at huser
    split at huser
    · exact h _ _ huser
    · exact named_insert h rfl huser
  | setPasswordHash key passwordHash =>
    simp only [Accounts.exec] at huser
    split at huser
    · next row hrow => exact named_insert h (by simpa using h _ _ hrow) huser
    · exact h _ _ huser
  | upsertUser key role =>
    have hmirrored : (accounts.mirrored key role).username = key := by
      unfold Accounts.mirrored
      split
      · next row hrow => simpa using h _ _ hrow
      · rfl
    exact named_insert h hmirrored huser
  | insertToken token =>
    simp only [Accounts.exec] at huser
    split at huser <;> exact h _ _ huser
  | setRevoked id instant =>
    simp only [Accounts.exec] at huser
    split at huser <;> exact h _ _ huser
  | insertSession digest session =>
    simp only [Accounts.exec] at huser
    split at huser <;> exact h _ _ huser
  | _ => exact h _ _ huser

/-- A changed token is one that was there, when the change leaves the owner and the digest alone. -/
theorem Accounts.mem_updateToken {id : String} {change : Token → Token}
    (hchange : ∀ token, (change token).owner = token.owner ∧
      (change token).tokenDigest = token.tokenDigest) {token : Token}
    (h : token ∈ (accounts.updateToken id change).tokens) :
    ∃ before ∈ accounts.tokens,
      before.owner = token.owner ∧ before.tokenDigest = token.tokenDigest := by
  obtain ⟨before, hbefore, rfl⟩ := List.mem_map.mp h
  refine ⟨before, hbefore, ?_⟩
  split
  · exact ⟨(hchange before).1.symm, (hchange before).2.symm⟩
  · exact ⟨rfl, rfl⟩

/-- A token that is there was there before, for the same owner, or is handed out by the call. -/
theorem Accounts.exec_tokens (hdraws : c.Draws deployment drawn) {token : Token}
    (h : token ∈ (Accounts.exec c accounts).2.tokens) :
    (∃ before ∈ accounts.tokens,
      before.owner = token.owner ∧ before.tokenDigest = token.tokenDigest) ∨
    Issued deployment (c.issues drawn (Accounts.exec c accounts).2) .token token.owner
      token.tokenDigest := by
  cases c with
  | insertToken written =>
    have hmem := h
    simp only [Accounts.exec] at h
    split at h
    · exact .inl ⟨token, h, rfl, rfl⟩
    · rcases List.mem_append.mp h with h | h
      · exact .inl ⟨token, h, rfl, rfl⟩
      · obtain rfl := List.mem_singleton.mp h
        refine .inr ⟨drawn, ?_, hdraws.symm⟩
        rw [AuthCall.issues, if_pos hmem]
        exact List.mem_singleton_self _
  | setLastUsed id instant =>
    refine .inl (mem_updateToken ?_ h)
    exact fun _ => ⟨rfl, rfl⟩
  | setRevoked id instant =>
    simp only [Accounts.exec] at h
    split at h
    · refine .inl (mem_updateToken (fun token => ?_) h)
      split <;> exact ⟨rfl, rfl⟩
    · exact .inl ⟨token, h, rfl, rfl⟩
  | insertUser user =>
    simp only [Accounts.exec] at h
    split at h <;> exact .inl ⟨token, h, rfl, rfl⟩
  | setPasswordHash username passwordHash =>
    simp only [Accounts.exec] at h
    split at h <;> exact .inl ⟨token, h, rfl, rfl⟩
  | insertSession digest session =>
    simp only [Accounts.exec] at h
    split at h <;> exact .inl ⟨token, h, rfl, rfl⟩
  | _ => exact .inl ⟨token, h, rfl, rfl⟩

/-- What is there after a row is gone was there before. -/
theorem getElem?_of_erase {α : Type} {rows : Std.ExtTreeMap String α} {key other : String} {row : α}
    (h : (rows.erase key)[other]? = some row) : rows[other]? = some row := by
  rw [Std.ExtTreeMap.getElem?_erase] at h
  split at h
  · cases h
  · exact h

/-- A session that is there was there before, or is handed out by the call. -/
theorem Accounts.exec_sessions (hdraws : c.Draws deployment drawn) {digest : String}
    {session : Session} (h : (Accounts.exec c accounts).2.sessions[digest]? = some session) :
    accounts.sessions[digest]? = some session ∨
    Issued deployment (c.issues drawn (Accounts.exec c accounts).2) .session session.username
      digest := by
  cases c with
  | insertSession key written =>
    have hfound := h
    simp only [Accounts.exec] at h
    split at h
    · exact .inl h
    · next hnew =>
      rw [Std.ExtTreeMap.getElem?_insert] at h
      split at h
      · next heq =>
        obtain rfl := Option.some.inj h
        obtain rfl := Std.LawfulEqCmp.compare_eq_iff_eq.mp heq
        refine .inr ⟨drawn, ?_, hdraws.symm⟩
        rw [AuthCall.issues, if_pos hfound]
        exact List.mem_singleton_self _
      · exact .inl h
  | deleteSession key => exact .inl (getElem?_of_erase h)
  | insertUser user =>
    simp only [Accounts.exec] at h
    split at h <;> exact .inl h
  | setPasswordHash username passwordHash =>
    simp only [Accounts.exec] at h
    split at h <;> exact .inl h
  | insertToken token =>
    simp only [Accounts.exec] at h
    split at h <;> exact .inl h
  | setRevoked id instant =>
    simp only [Accounts.exec] at h
    split at h <;> exact .inl h
  | _ => exact .inl h

end exec

/-! ### Operations write what was drawn -/

section operations

variable (deployment) (drawn : String)

/-- The program writes only credentials that were drawn for it. -/
abbrev DrawsOnly {α : Type} (p : AuthProg α) : Prop := p.All fun c => c.Draws deployment drawn

theorem draws_tokenAudited (action tokenId : String) (detail : Option String) :
    DrawsOnly deployment drawn (tokenAudited action tokenId detail) := by
  refine All.bind (all_perform trivial).attempt fun r => ?_
  cases r with
  | ok _ => trivial
  | error e =>
    show DrawsOnly deployment drawn (if Pipeline.isPyMongoError e then _ else _)
    split <;> trivial

theorem draws_touch (tokenId : String) : DrawsOnly deployment drawn (touch tokenId) :=
  All.bind (all_perform trivial) fun _ => all_perform trivial

theorem draws_createSession (username : String) (via : Via) :
    DrawsOnly deployment drawn (createSession deployment drawn username via) :=
  All.bind (all_perform trivial) fun _ => all_perform rfl

theorem draws_createToken (id owner name : String) (expiresInDays : Option Nat) :
    DrawsOnly deployment drawn (createToken deployment drawn id owner name expiresInDays) :=
  All.bind (all_perform trivial) fun _ => All.bind (all_perform trivial) fun _ =>
    All.bind (all_perform rfl) fun _ => All.bind (draws_tokenAudited deployment drawn _ _ _) fun _ =>
      trivial

theorem draws_authenticate (username password : String) :
    DrawsOnly deployment drawn (authenticate deployment username password) := by
  refine All.bind (all_perform trivial) fun user => ?_
  cases user with
  | none => trivial
  | some user =>
    show DrawsOnly deployment drawn (if _ then _ else _)
    split
    · trivial
    · split
      · exact All.bind (all_perform trivial) fun _ => trivial
      · trivial

theorem draws_fromBearer (request : HttpRequest) :
    DrawsOnly deployment drawn (fromBearer deployment request) := by
  unfold fromBearer
  split
  · trivial
  · refine All.bind (all_perform trivial) fun token => ?_
    cases token with
    | none => trivial
    | some token =>
      refine All.bind (all_perform trivial) fun now => ?_
      split
      · trivial
      · refine All.bind (all_perform trivial) fun owner => ?_
        cases owner with
        | none => trivial
        | some owner =>
          show DrawsOnly deployment drawn (if _ then _ else _)
          split
          · trivial
          · exact All.bind (draws_touch deployment drawn _) fun _ => trivial

theorem draws_fromSession (request : HttpRequest) :
    DrawsOnly deployment drawn (fromSession deployment request) := by
  unfold fromSession
  split
  · trivial
  · split
    · trivial
    · refine All.bind (All.bind (all_perform trivial) fun session => ?_) fun session => ?_
      · cases session with
        | none => trivial
        | some session =>
          refine All.bind (all_perform trivial) fun now => ?_
          split <;> trivial
      · cases session with
        | none => trivial
        | some session =>
          refine All.bind (all_perform trivial) fun user => ?_
          cases user with
          | none => trivial
          | some user =>
            show DrawsOnly deployment drawn (if _ then _ else _)
            split <;> trivial

theorem draws_caller (request : HttpRequest) :
    DrawsOnly deployment drawn (caller deployment request) := by
  unfold caller
  split
  · trivial
  · refine All.bind (draws_fromBearer deployment drawn request) fun identity => ?_
    cases identity with
    | some identity => trivial
    | none =>
      cases SIGN_IN_AT deployment.authMode with
      | none => trivial
      | some signIn =>
        refine All.bind (draws_fromSession deployment drawn request) fun identity => ?_
        cases identity <;> trivial

/-- Whatever an operation hands out was drawn for it. -/
theorem draws_serve (op : AuthOp) : DrawsOnly deployment drawn (op.serve deployment drawn) := by
  cases op with
  | createUser user => exact all_perform trivial
  | ensureInitialAdmin username passwordHash =>
    refine All.bind (All.bind (all_perform trivial) fun count => ?_) fun _ => trivial
    split
    · trivial
    · refine All.bind (all_perform trivial).attempt fun r => ?_
      cases r with
      | ok _ => trivial
      | error e =>
        show DrawsOnly deployment drawn (if _ then _ else _)
        split <;> trivial
  | login username password =>
    refine All.bind ?_ fun _ => trivial
    unfold login
    split
    · trivial
    · refine All.bind (draws_authenticate deployment drawn _ _) fun user => ?_
      cases user with
      | none => trivial
      | some user =>
        exact All.bind (draws_createSession deployment drawn _ _) fun _ => trivial
  | ssoCallback username role =>
    refine All.bind ?_ fun _ => trivial
    unfold ssoCallback
    split
    · trivial
    · refine All.bind (All.bind (all_perform trivial) fun user => ?_) fun user => ?_
      · split <;> trivial
      · cases user with
        | none => trivial
        | some user =>
          exact All.bind (draws_createSession deployment drawn _ _) fun _ => trivial
  | logout request =>
    refine All.bind (draws_caller deployment drawn request) fun _ => ?_
    split
    · trivial
    · split
      · trivial
      · exact all_perform trivial
  | createToken request id name expiresInDays =>
    refine All.bind (All.bind (draws_caller deployment drawn request) fun identity => ?_)
      fun _ => trivial
    split
    · trivial
    · exact draws_createToken deployment drawn _ _ _ _
  | revokeToken request tokenId =>
    refine All.bind (draws_caller deployment drawn request) fun identity =>
      All.bind (all_perform trivial) fun token => ?_
    cases token with
    | none => trivial
    | some token =>
      show DrawsOnly deployment drawn (if _ then _ else _)
      split
      · trivial
      · refine All.bind (All.bind (all_perform trivial) fun _ => All.bind (all_perform trivial)
          fun revoked => ?_) fun _ => trivial
        split
        · exact All.bind (draws_tokenAudited deployment drawn _ _ _) fun _ => trivial
        · trivial
  | me request => exact All.bind (draws_caller deployment drawn request) fun _ => trivial

end operations

/-! ### Every step keeps it -/

theorem Moment.Kept.call {m : Moment} (h : m.Kept deployment) {β : Type} {c : AuthCall β}
    {drawn : String} {r : Except Error β} {accounts : Accounts} (hdraws : c.Draws deployment drawn)
    (hanswer : accountsMachine.Answer c m.accounts r accounts) :
    Moment.Kept deployment ⟨accounts, m.issued ++ c.issues drawn accounts⟩ := by
  have hbefore : m.issued ⊆ m.issued ++ c.issues drawn accounts := List.subset_append_left _ _
  rcases hanswer.state with rfl | rfl
  · exact ⟨h.named, fun token htoken => (h.tokens token htoken).mono hbefore,
      fun digest session hsession => (h.sessions digest session hsession).mono hbefore⟩
  · refine ⟨fun username user => Accounts.exec_named h.named, fun token htoken => ?_,
      fun digest session hsession => ?_⟩
    · rcases Accounts.exec_tokens hdraws htoken with ⟨before, hmem, howner, hdigest⟩ | hissued
      · rw [← howner, ← hdigest]
        exact (h.tokens before hmem).mono hbefore
      · exact hissued.mono (List.subset_append_right _ _)
    · rcases Accounts.exec_sessions hdraws hsession with hold | hissued
      · exact (h.sessions digest session hold).mono hbefore
      · exact hissued.mono (List.subset_append_right _ _)

theorem AuthService.Kept.step {s s' : AuthService} {event : AuthEvent} (h : s.Kept deployment)
    (hstep : AuthStep deployment s event s') : s'.Kept deployment := by
  cases hstep with
  | arrive op drawn =>
    refine ⟨h.moment, fun task htask => ?_⟩
    rcases List.mem_append.mp htask with htask | htask
    · exact h.drawn task htask
    · obtain rfl := List.mem_singleton.mp htask
      exact draws_serve deployment drawn op
  | @call i drawn β c k r accounts htask hanswer =>
    have hrest : DrawsOnly deployment drawn (Prog.call c k) := h.drawn _ (List.mem_of_getElem? htask)
    refine ⟨h.moment.call hrest.1 hanswer, fun task hmem => ?_⟩
    rcases List.mem_or_eq_of_mem_set hmem with hmem | rfl
    · exact h.drawn task hmem
    · exact hrest.2 r
  | edit huser role disabled =>
    have hnamed := h.moment.named _ _ huser
    exact ⟨⟨fun _ _ => named_insert h.moment.named hnamed, h.moment.tokens, h.moment.sessions⟩, h.drawn⟩
  | remove username =>
    refine ⟨⟨fun key user huser => ?_, h.moment.tokens, h.moment.sessions⟩, h.drawn⟩
    change (s.accounts.users.erase username)[key]? = some user at huser
    exact h.moment.named key user (getElem?_of_erase huser)
  | reap hsession hexpired =>
    exact ⟨⟨h.moment.named, h.moment.tokens, fun digest session hsession =>
      h.moment.sessions digest session (getElem?_of_erase hsession)⟩, h.drawn⟩
  | tick now => exact ⟨⟨h.moment.named, h.moment.tokens, h.moment.sessions⟩, h.drawn⟩
  | die => exact ⟨h.moment, fun task htask => by cases htask⟩

theorem AuthService.kept_boot (now : Int) : (AuthService.boot now).Kept deployment where
  moment :=
    { named := fun username user huser => by cases huser
      tokens := fun token htoken => by cases htoken
      sessions := fun digest session hsession => by cases hsession }
  drawn task htask := by cases htask

theorem AuthService.Kept.run {s s' : AuthService} (h : s.Kept deployment)
    (hrun : Run (AuthStep deployment) (fun _ _ _ => True) s s') : s'.Kept deployment :=
  hrun.invariant h fun _ _ _ hkept _ hstep => hkept.step hstep

theorem Reachable.kept {s : AuthService} (h : Reachable deployment s) : s.Kept deployment := by
  obtain ⟨now, hrun⟩ := h
  exact (AuthService.kept_boot now).run hrun

/-- What others leave behind between two calls is in order. -/
theorem Serves.kept {m m' : Moment} (h : Serves deployment m m') : m'.Kept deployment := by
  obtain ⟨s, s', hreachable, hrun, -, rfl⟩ := h
  exact (hreachable.kept.run hrun).moment

/-! ### What warrants an identity -/

/-- The text was handed out to stand for the user; or, were two texts to share a digest, one of the
same digest was. -/
structure HandedOut (deployment : Deployment) (issued : List Issuance) (credential : Credential)
    (user text : String) : Prop where
  alike : Issued deployment issued credential user (deployment.digest text)
  itself : (∀ issuance ∈ issued, deployment.digest issuance.text = deployment.digest text →
    issuance.text = text) → ⟨credential, text, user⟩ ∈ issued

/-- What a request presents was handed out to the user; when it was read it was there and not revoked;
when the clock was read it had not expired; and when the user's row was read it was there, was not
disabled, and had the role that the identity has. -/
inductive Warranted (deployment : Deployment) (request : HttpRequest) (identity : Identity)
    (read checked resolved : Moment) : Prop where
  | token {secret : String} {token : Token} {user : User}
      (hpresented : request.bearer = some secret)
      (hrow : token ∈ read.accounts.tokens)
      (hdigest : token.tokenDigest = deployment.digest secret)
      (hissued : HandedOut deployment read.issued .token token.owner secret)
      (hrevoked : token.revokedAt = none)
      (hexpiry : ∀ expiry ∈ token.expiresAt, checked.accounts.now < expiry)
      (huser : resolved.accounts.users[token.owner]? = some user)
      (henabled : user.disabled = false)
      (hidentity : identity = ⟨token.owner, user.role, .token, some token.id⟩)
  | session {value : String} {session : Session} {user : User}
      (hbearer : request.bearer = none)
      (hpresented : request.cookie = some value)
      (hrow : read.accounts.sessions[deployment.digest value]? = some session)
      (hissued : HandedOut deployment read.issued .session session.username value)
      (hexpiry : checked.accounts.now < session.expiresAt)
      (huser : resolved.accounts.users[session.username]? = some user)
      (henabled : user.disabled = false)
      (hidentity : identity = ⟨session.username, user.role, session.via, none⟩)

theorem Issued.handedOut {issued : List Issuance} {credential : Credential} {user text : String}
    (h : Issued deployment issued credential user (deployment.digest text)) :
    HandedOut deployment issued credential user text := by
  refine ⟨h, fun hunique => ?_⟩
  obtain ⟨drawn, hmem, hdigest⟩ := h
  rwa [← hunique _ hmem hdigest]

/-- The identity was warranted by what was found in three moments, one after the other, of which the
first came after `m`. -/
def WarrantedFrom (deployment : Deployment) (R : Moment → Moment → Prop) (request : HttpRequest)
    (identity : Identity) (m : Moment) (noted : List Moment) : Prop :=
  ∃ read checked resolved rest, noted = read :: checked :: resolved :: rest ∧
    R m read ∧ R read checked ∧ R checked resolved ∧
    Warranted deployment request identity read checked resolved

section resolving

variable {R : Moment → Moment → Prop} {request : HttpRequest} {identity : Identity}
  {m m' : Moment} {moments moments' : List Moment}

/-- What a call of a request has answered, in a moment that is noted. -/
theorem noting_ok {β : Type} {c : AuthCall β} {b : β} {w w' : List Moment × Moment}
    (h : noting R requestAnswers β c w (.ok b) w') :
    ∃ n, R w.2 n ∧ (Accounts.exec c n.accounts).1 = .ok b ∧
      w' = (w.1 ++ [n], { n with accounts := (Accounts.exec c n.accounts).2 }) := by
  obtain ⟨n, hR, ⟨accounts, hanswer, hafter⟩, hnoted⟩ := h
  have hexec : Accounts.exec c n.accounts = (.ok b, accounts) := hanswer.ok
  refine ⟨n, hR, by rw [hexec], Prod.ext hnoted ?_⟩
  rw [hafter, hexec]

/-- A bearer token that is taken warrants the identity. -/
theorem fromBearer_warranted (hkept : ∀ m m', m.Kept deployment → R m m' → m'.Kept deployment)
    (hm : m.Kept deployment) (h : Exec (noting R requestAnswers) (fromBearer deployment request) (moments, m)
      (.ok (some identity)) (moments', m')) :
    ∃ noted, moments' = moments ++ noted ∧
      WarrantedFrom deployment R request identity m noted := by
  unfold fromBearer at h
  split at h
  · cases h
  · next secret hpresented =>
    obtain ⟨found, w₁, hfind, h⟩ := h.perform_inv
    obtain ⟨read, hread, hfound, rfl⟩ := noting_ok hfind
    cases found with
    | none => cases h
    | some token =>
      have htoken : read.accounts.tokens.find?
          (fun token => token.tokenDigest == deployment.digest secret) = some token :=
        Except.ok.inj hfound
      have hmem : token ∈ read.accounts.tokens := List.mem_of_find?_eq_some htoken
      have hdigest : token.tokenDigest = deployment.digest secret := by
        simpa using List.find?_some htoken
      obtain ⟨now, w₂, hclock, h⟩ := h.perform_inv
      obtain ⟨checked, hchecked, hnow, rfl⟩ := noting_ok hclock
      obtain rfl : checked.accounts.now = now := Except.ok.inj hnow
      split at h
      · cases h
      · next hlive =>
        obtain ⟨hrevoked, hexpiry⟩ := Token.live_iff.mp (by simpa using hlive)
        obtain ⟨found, w₃, hfind, h⟩ := h.perform_inv
        obtain ⟨resolved, hresolved, hfound, rfl⟩ := noting_ok hfind
        cases found with
        | none => cases h
        | some user =>
          have huser : resolved.accounts.users[token.owner]? = some user := Except.ok.inj hfound
          dsimp only at h
          split at h
          · cases h
          · next henabled =>
            -- The touch that is left changes no identity.
            rcases h.bind_inv with ⟨_, ⟨noted, touched⟩, htouch, h⟩ | ⟨_, hraised, -⟩
            · obtain ⟨hidentity, hend⟩ := h.ret_inv
              obtain ⟨hnoted, -⟩ := Prod.mk.inj hend
              obtain ⟨rest, hrest⟩ := htouch.noted
              have hthen := hkept _ _ hm hread
              have hname := (hkept _ _ (hkept _ _ hthen hchecked) hresolved).named _ _ huser
              have hissued := hthen.tokens token hmem
              rw [hdigest] at hissued
              refine ⟨read :: checked :: resolved :: rest, ?_, read, checked, resolved, rest, rfl, hread,
                hchecked, hresolved, .token hpresented hmem hdigest hissued.handedOut hrevoked hexpiry
                  huser (by simpa using henabled) ?_⟩
              · rw [← hnoted, hrest]
                simp
              · rw [← Option.some.inj hidentity, hname]
            · cases hraised

theorem fromBearer_none (h : Exec (noting R requestAnswers) (fromBearer deployment request)
      (moments, m) (.ok none) (moments', m')) :
    request.bearer = none ∧ moments' = moments ∧ m' = m := by
  unfold fromBearer at h
  split at h
  · next hbearer =>
    obtain ⟨-, hend⟩ := h.ret_inv
    obtain ⟨hnoted, hm⟩ := Prod.mk.inj hend
    exact ⟨hbearer, hnoted.symm, hm.symm⟩
  · obtain ⟨found, w₁, -, h⟩ := h.perform_inv
    cases found with
    | none => cases h
    | some token =>
      obtain ⟨now, w₂, -, h⟩ := h.perform_inv
      split at h
      · cases h
      · obtain ⟨found, w₃, -, h⟩ := h.perform_inv
        cases found with
        | none => cases h
        | some user =>
          dsimp only at h
          split at h
          · cases h
          · rcases h.bind_inv with ⟨_, _, -, h⟩ | ⟨_, hraised, -⟩
            · cases h.ret_inv.1
            · cases hraised

/-- So does a session. -/
theorem fromSession_warranted (hkept : ∀ m m', m.Kept deployment → R m m' → m'.Kept deployment)
    (hm : m.Kept deployment) (hbearer : request.bearer = none)
    (h : Exec (noting R requestAnswers) (fromSession deployment request) (moments, m)
      (.ok (some identity)) (moments', m')) :
    ∃ noted, moments' = moments ++ noted ∧
      WarrantedFrom deployment R request identity m noted := by
  unfold fromSession at h
  split at h
  · cases h
  · next value hpresented =>
    split at h
    · cases h
    · rcases h.bind_inv with ⟨session, w, hread, h⟩ | ⟨_, hraised, -⟩
      · obtain ⟨found, w₁, hfind, hread⟩ := hread.perform_inv
        obtain ⟨read, hR, hfound, rfl⟩ := noting_ok hfind
        cases found with
        | none =>
          obtain ⟨rfl, -⟩ := hread.ret_inv
          cases h
        | some row =>
          have hrow : read.accounts.sessions[deployment.digest value]? = some row :=
            Except.ok.inj hfound
          obtain ⟨now, w₂, hclock, hread⟩ := hread.perform_inv
          obtain ⟨checked, hchecked, hnow, rfl⟩ := noting_ok hclock
          obtain rfl : checked.accounts.now = now := Except.ok.inj hnow
          split at hread
          · obtain ⟨rfl, -⟩ := hread.ret_inv
            cases h
          · next hexpiry =>
            obtain ⟨rfl, rfl⟩ := hread.ret_inv
            obtain ⟨found, w₃, hfind, h⟩ := h.perform_inv
            obtain ⟨resolved, hresolved, hfound, rfl⟩ := noting_ok hfind
            cases found with
            | none => cases h
            | some user =>
              have huser : resolved.accounts.users[row.username]? = some user :=
                Except.ok.inj hfound
              dsimp only at h
              split at h
              · cases h
              · next henabled =>
                obtain ⟨hidentity, hend⟩ := h.ret_inv
                have hthen := hkept _ _ hm hR
                have hname := (hkept _ _ (hkept _ _ hthen hchecked) hresolved).named _ _ huser
                refine ⟨[read, checked, resolved], ?_, read, checked, resolved, [], rfl, hR, hchecked,
                  hresolved, .session hbearer hpresented hrow (hthen.sessions _ _ hrow).handedOut
                    (by omega) huser (by simpa using henabled) ?_⟩
                · rw [← (Prod.mk.inj hend).1]
                  simp
                · rw [← Option.some.inj hidentity, User.identity, hname]
      · cases hraised

/-- An identity is warranted by what the request's own calls have read. -/
theorem caller_warranted (hmode : deployment.authMode ≠ .none)
    (hkept : ∀ m m', m.Kept deployment → R m m' → m'.Kept deployment)
    (hm : m.Kept deployment) (h : Exec (noting R requestAnswers) (caller deployment request) (moments, m)
      (.ok identity) (moments', m')) :
    ∃ noted, moments' = moments ++ noted ∧
      WarrantedFrom deployment R request identity m noted := by
  rw [caller, if_neg hmode] at h
  rcases h.bind_inv with ⟨found, ⟨noted, m₁⟩, hbearer, hrest⟩ | ⟨_, hraised, -⟩
  · cases found with
    | some bearer =>
      obtain ⟨rfl, hend⟩ := hrest.ret_inv
      obtain ⟨rfl, rfl⟩ := Prod.mk.inj hend
      exact fromBearer_warranted hkept hm hbearer
    | none =>
      obtain ⟨habsent, hnoted, hsame⟩ := fromBearer_none hbearer
      rw [hnoted, hsame] at hrest
      dsimp only at hrest
      split at hrest
      · cases hrest
      · rcases hrest.bind_inv with ⟨found, ⟨noted, m₂⟩, hsession, hlast⟩ | ⟨_, hraised, -⟩
        · cases found with
          | some session =>
            obtain ⟨rfl, hend⟩ := hlast.ret_inv
            obtain ⟨rfl, rfl⟩ := Prod.mk.inj hend
            exact fromSession_warranted hkept hm habsent hsession
          | none => cases hlast
        · cases hraised
  · cases hraised

end resolving

/-- What comes of a request depends on what is stored, not on what has been handed out. -/
theorem exec_stored {α : Type} {p : AuthProg α} {m m' : Moment} {r : Except Error α}
    (h : Exec requestAnswers p m r m') :
    Exec accountsMachine.answers p m.accounts r m'.accounts := by
  induction h with
  | ret => exact .ret
  | raise => exact .raise
  | call hop _ ih =>
    obtain ⟨accounts, hanswer, rfl⟩ := hop
    exact .call hanswer ih

theorem exec_of_stored {α : Type} {p : AuthProg α} {m : Moment} {accounts : Accounts}
    {r : Except Error α} (h : Exec accountsMachine.answers p m.accounts r accounts) :
    Exec requestAnswers p m r { m with accounts := accounts } := by
  generalize hstart : m.accounts = start at h
  induction h generalizing m with
  | ret =>
    subst hstart
    exact .ret
  | raise =>
    subst hstart
    exact .raise
  | call hop _ ih =>
    subst hstart
    exact .call ⟨_, hop, rfl⟩ (ih (m := { m with accounts := _ }) rfl)

/-- A request that nobody comes between is resolved in one moment. -/
theorem caller_warranted_alone (hmode : deployment.authMode ≠ .none) {m m' : Moment}
    {request : HttpRequest} {identity : Identity} (hm : m.Kept deployment)
    (h : Exec requestAnswers (caller deployment request) m (.ok identity) m') :
    Warranted deployment request identity m m m := by
  obtain ⟨moments, hnoted⟩ := h.alone []
  obtain ⟨noted, -, read, checked, resolved, rest, -, rfl, rfl, rfl, hwarranted⟩ :=
    caller_warranted (R := Eq) hmode (fun _ _ hkept heq => heq ▸ hkept) hm hnoted
  exact hwarranted

/-- In every mode in which people sign in, whatever has been done before and in whatever order: a request
among others is resolved to an identity only by a credential handed out to that user and still good when
the request reads it, and by the user's row as the request reads it; all of it in one moment where nothing
comes between.  And where the rows, the credentials and the clock agree, the same requests are admitted,
whatever there was before. -/
theorem authority_is_current (hmode : deployment.authMode ≠ .none) {s : AuthService}
    (hreachable : Reachable deployment s) (request : HttpRequest) :
    (∀ identity moments m',
      Exec (noting (Serves deployment) requestAnswers) (caller deployment request) ([], s.moment)
        (.ok identity) (moments, m') →
      WarrantedFrom deployment (Serves deployment) request identity s.moment moments) ∧
    (∀ identity m', Exec requestAnswers (caller deployment request) s.moment (.ok identity) m' →
      Warranted deployment request identity s.moment s.moment s.moment) ∧
    (∀ other, Reachable deployment other → other.accounts.users = s.accounts.users →
      other.accounts.tokens = s.accounts.tokens → other.accounts.sessions = s.accounts.sessions →
      other.accounts.now = s.accounts.now →
      ∀ identity, (∃ m', Exec requestAnswers (caller deployment request) s.moment (.ok identity) m') ↔
        ∃ m', Exec requestAnswers (caller deployment request) other.moment (.ok identity) m') := by
  have hm := hreachable.kept.moment
  refine ⟨fun identity moments m' h => ?_, fun identity m' h => caller_warranted_alone hmode hm h,
    fun other _ husers htokens hsessions hnow identity => ?_⟩
  · obtain ⟨noted, rfl, hwarranted⟩ := caller_warranted hmode (fun _ _ _ hserves => hserves.kept) hm h
    exact hwarranted
  · have hsame : other.accounts = s.accounts := by
      rcases other with ⟨⟨_, _, _, _⟩, _, _⟩
      cases husers
      cases htokens
      cases hsessions
      cases hnow
      rfl
    have hadmits (here there : AuthService) (hthere : there.accounts = here.accounts) :
        (∃ m', Exec requestAnswers (caller deployment request) here.moment (.ok identity) m') →
          ∃ m', Exec requestAnswers (caller deployment request) there.moment (.ok identity) m' := by
      rintro ⟨m', h⟩
      have hstored := exec_stored h
      rw [← show there.moment.accounts = here.moment.accounts from hthere] at hstored
      exact ⟨_, exec_of_stored hstored⟩
    exact ⟨hadmits s other hsame, hadmits other s hsame.symm⟩

/-! ### Somebody signs in -/

/-- The next call of an operation under way, gone through. -/
def AuthService.advance (s : AuthService) (i : Nat) : AuthService :=
  match s.tasks[i]? with
  | some ⟨drawn, .call c k⟩ =>
      let answered := Accounts.exec c s.accounts
      ⟨answered.2, s.issued ++ c.issues drawn answered.2, s.tasks.set i ⟨drawn, k answered.1⟩⟩
  | _ => s

theorem Reachable.advance {s : AuthService} (h : Reachable deployment s) (i : Nat) :
    Reachable deployment (s.advance i) := by
  unfold AuthService.advance
  split
  · next drawn _ c k htask =>
    obtain ⟨now, hrun⟩ := h
    exact ⟨now, hrun.snoc trivial (.call htask .through)⟩
  · exact h

/-- An operation has arrived. -/
def AuthService.arrived (deployment : Deployment) (s : AuthService) (op : AuthOp) (drawn : String) :
    AuthService :=
  { s with tasks := s.tasks ++ [⟨drawn, op.serve deployment drawn⟩] }

theorem Reachable.arrived {s : AuthService} (h : Reachable deployment s) (op : AuthOp)
    (drawn : String) : Reachable deployment (s.arrived deployment op drawn) := by
  obtain ⟨now, hrun⟩ := h
  exact ⟨now, hrun.snoc trivial (.arrive op drawn)⟩

/-- A deployment in which one text is ever digested. -/
def smallDeployment : Deployment where
  digest _ := "d0f631ca1ddba8db3bcfcb9e057cdc98d0379f1bee00e75a545147a27dadd982"
  hashPassword _ := "argon2"
  matchesHash stored password := stored == "argon2" && password == "secret"
  needsRehash _ := false
  authMode := .password
  sessionLifetime := 43200000000

/-- Somebody has been created, and has signed in. -/
def signedIn : AuthService :=
  let created := ((AuthService.boot 0).arrived smallDeployment
    (.createUser ⟨"jo", some "argon2", .operator, false⟩) "").advance 0
  (((created.arrived smallDeployment (.login "jo" "secret") "c1").advance 1).advance 1).advance 1

theorem reachable_signedIn : Reachable smallDeployment signedIn := by
  have hboot : Reachable smallDeployment (AuthService.boot 0) := ⟨0, .nil⟩
  have hcreated := (hboot.arrived (.createUser ⟨"jo", some "argon2", .operator, false⟩) "").advance 0
  exact (((hcreated.arrived (.login "jo" "secret") "c1").advance 1).advance 1).advance 1

theorem session_is_current : ∃ m',
    Exec requestAnswers (caller smallDeployment { cookie := some "c1" }) signedIn.moment
      (.ok ⟨"jo", .operator, .password, none⟩) m' ∧
    Warranted smallDeployment { cookie := some "c1" } ⟨"jo", .operator, .password, none⟩
      signedIn.moment signedIn.moment signedIn.moment := by
  have hexec := Exec.of_run (A := accountsMachine.answers) (M := accountsMachine)
    (fun _ _ => .through) (caller smallDeployment { cookie := some "c1" }) signedIn.accounts
  have hidentity : ((caller smallDeployment { cookie := some "c1" }).run accountsMachine
      signedIn.accounts).1 = .ok ⟨"jo", .operator, .password, none⟩ := by
    decide +kernel
  rw [hidentity] at hexec
  have hrequest := exec_of_stored (m := signedIn.moment) hexec
  exact ⟨_, hrequest, (authority_is_current (by decide) reachable_signedIn _).2.1 _ _ hrequest⟩

end Apchi.Auth
