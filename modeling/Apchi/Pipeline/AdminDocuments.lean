import Apchi.Pipeline.Writes

/-!
# What holds of every Admin document

The Admin document and its pre-image are written from each other, from a discovery, and from what a
request brings.  A property that the requests keep holds of both documents wherever a run leads,
whoever else is served beside them and wherever the process dies.
-/

namespace Apchi.Pipeline

open Lib Prog

variable {app : App} {I : AdminValues → Prop}

/-! ### Programs that keep a property of the documents -/

/-- What the documents answer when the property holds of them. -/
def Answering (I : AdminValues → Prop) : Answers Call Unit := fun _ c _ r _ =>
  match c, r with
  | .findAdmin, .ok document => ∀ values ∈ document, I values
  | .findAndReplaceAdmin _, .ok document => ∀ values ∈ document, I values
  | .findAdminPrevious, .ok document => ∀ values ∈ document, I values
  | .findDiscovery, .ok stored => ∀ discovery ∈ stored, I discovery.adminValues
  | _, _ => True

/-- What a document is written with has the property. -/
def Writing (I : AdminValues → Prop) : Answers Call Unit := fun _ c _ _ _ =>
  match c with
  | .findAndReplaceAdmin values => I values
  | .replaceAdminPrevious values => I values
  | .replaceAdmin values => I values
  | _ => True

/-- The program writes documents with the property, as long as it reads such, and `Q` holds of its
outcome. -/
abbrev Keeping {α : Type} (I : AdminValues → Prop) (p : PipelineProg α)
    (Q : Except Error α → Prop) : Prop :=
  p.Safe (fun _ _ => True) (Answering I) (Writing I) (fun r _ => Q r) ()

/-- No Admin document is written. -/
def notAdmin (collection : Collection) : Prop :=
  collection ≠ .admin ∧ collection ≠ .adminPrevious

section programs

variable {α β : Type} {Q : Except Error α → Prop}

theorem Keeping.bind {p : PipelineProg β} {f : β → PipelineProg α} {F : Except Error β → Prop}
    (hp : Keeping I p F) (hok : ∀ b, F (.ok b) → Keeping I (f b) Q)
    (herror : ∀ e, Q (.error e)) : Keeping I (p.bind f) Q := by
  refine (safe_bind p f).mpr (hp.mono fun r _ hr => ?_)
  cases r with
  | ok b => exact hok b hr
  | error e => exact herror e

theorem keeping_of_writes {p : PipelineProg α} (hp : WritesOnly notAdmin p) :
    Keeping I p fun _ => True := by
  refine All.safe (I := fun _ => True) (fun _ _ _ _ => trivial) (fun c _ r _ hc _ _ => ⟨?_, trivial⟩)
    hp trivial
  cases c with
  | findAndReplaceAdmin values => exact absurd rfl (hc .admin rfl).1
  | replaceAdmin values => exact absurd rfl (hc .admin rfl).1
  | replaceAdminPrevious values => exact absurd rfl (hc .adminPrevious rfl).2
  | _ => trivial

/-- A program after one that writes no Admin document. -/
theorem Keeping.andThen {p : PipelineProg β} {f : β → PipelineProg α} (hp : WritesOnly notAdmin p)
    (hf : ∀ b, Keeping I (f b) Q) (herror : ∀ e, Q (.error e)) : Keeping I (p.bind f) Q :=
  (keeping_of_writes hp).bind (fun b _ => hf b) herror

theorem Keeping.after {p : PipelineProg β} {f : β → PipelineProg α} (hp : WritesOnly notAdmin p)
    (hf : ∀ b, Keeping I (f b) fun _ => True) : Keeping I (p.bind f) fun _ => True :=
  Keeping.andThen hp hf fun _ => trivial

theorem keeping_attempt {p : PipelineProg α} (hp : Keeping I p fun _ => True) :
    Keeping I p.attempt fun _ => True :=
  (safe_attempt p).mpr (hp.mono fun _ _ _ => trivial)

theorem keeping_ofExcept {x : Except Error α} (h : ∀ a, x = .ok a → Q (.ok a))
    (herror : ∀ e, Q (.error e)) : Keeping I (Prog.ofExcept x : PipelineProg α) Q := by
  cases x with
  | ok a => exact h a rfl
  | error e => exact herror e

variable (hdefault : I {})

include hdefault

theorem keeping_loadAdmin : Keeping I loadAdmin fun r => ∀ values, r = .ok values → I values := by
  refine Keeping.bind (F := fun r => ∀ document, r = .ok document → ∀ values ∈ document, I values)
    ((safe_perform _).mpr fun _ _ r _ hr => ⟨trivial, ?_⟩) (fun document h values hvalues => ?_) nofun
  · rintro document rfl
    exact hr
  · obtain rfl := Except.ok.inj hvalues
    cases document with
    | none => exact hdefault
    | some values => exact h _ rfl values rfl

theorem keeping_saveAdmin (actor : String) {values : AdminValues} (h : I values) :
    Keeping I (saveAdmin actor values) fun _ => True := by
  refine Keeping.bind (F := fun r => ∀ document, r = .ok document → ∀ values ∈ document, I values)
    ((safe_perform _).mpr fun _ _ r _ hr => ⟨h, ?_⟩) (fun document hbefore => ?_) fun _ => trivial
  · rintro document rfl
    exact hr
  · have hprevious : I (document.getD {}) := by
      cases document with
      | none => exact hdefault
      | some previous => exact hbefore _ rfl previous rfl
    refine Keeping.bind (F := fun _ => True)
      ((safe_perform _).mpr fun _ _ _ _ _ => ⟨hprevious, trivial⟩) (fun _ _ => ?_) fun _ => trivial
    exact .after (writes_recordEach ⟨nofun, nofun⟩ _) fun _ => trivial

theorem keeping_restorePrevious : Keeping I restorePrevious fun _ => True := by
  refine Keeping.bind (F := fun r => ∀ document, r = .ok document → ∀ values ∈ document, I values)
    ((safe_perform _).mpr fun _ _ r _ hr => ⟨trivial, ?_⟩) (fun document h => ?_) fun _ => trivial
  · rintro document rfl
    exact hr
  · have hprevious : I (document.getD {}) := by
      cases document with
      | none => exact hdefault
      | some previous => exact h _ rfl previous rfl
    exact Keeping.bind (F := fun _ => True)
      ((safe_perform _).mpr fun _ _ _ _ _ => ⟨hprevious, trivial⟩) (fun _ _ => trivial)
      fun _ => trivial

end programs

/-! ### An Apply, and recovery -/

section applies

variable (hdefault : I {}) (id : String)

include hdefault

theorem keeping_rollBack (kind : EngineKind) : Keeping I (rollBack app kind) fun _ => True := by
  cases kind with
  | operator => exact keeping_of_writes (All.bind readOnly_freezeAdminValues fun _ =>
      All.bind readOnly_latestSections fun _ => writes_onCluster ⟨nofun, nofun⟩ _)
  | admin =>
    refine (keeping_restorePrevious hdefault).bind (fun restored _ => ?_) fun _ => trivial
    exact keeping_of_writes (All.bind readOnly_latestSections fun _ =>
      All.bind (writes_onCluster ⟨nofun, nofun⟩ _) fun _ => writes_onCluster ⟨nofun, nofun⟩ _)

theorem keeping_rollBackApply (kind : EngineKind) (reason : String) :
    Keeping I (rollBackApply app kind id reason) fun _ => True := by
  refine .after (writes_perform rfl ⟨nofun, nofun⟩) fun _ =>
    (keeping_attempt (keeping_rollBack hdefault kind)).bind (fun r _ => ?_) fun _ => trivial
  cases r with
  | error e =>
    exact keeping_of_writes (All.bind (writes_perform rfl ⟨nofun, nofun⟩) fun _ =>
      All.bind (All.bind (writes_engage ⟨nofun, nofun⟩ ⟨nofun, nofun⟩ _ _ _) fun _ =>
        readOnly_alert _) fun _ =>
          All.bind (All.bind (writes_perform rfl ⟨nofun, nofun⟩) fun _ =>
            writes_perform rfl ⟨nofun, nofun⟩) fun _ => writes_audited ⟨nofun, nofun⟩ _)
  | ok _ =>
    exact keeping_of_writes (All.bind (writes_perform rfl ⟨nofun, nofun⟩) fun _ =>
      All.bind (All.bind (writes_perform rfl ⟨nofun, nofun⟩) fun _ =>
        writes_perform rfl ⟨nofun, nofun⟩) fun _ => writes_audited ⟨nofun, nofun⟩ _)

omit hdefault in
/-- What an engine commits writes no Admin document. -/
theorem writes_commit {P : Collection → Prop} (hsnapshots : P .snapshots) (hmark : P .highWater)
    (hcandidate : P .candidate) (haudit : P .audit) (actor : String) (prepared : Prepared)
    (kind : EngineKind) : WritesOnly P (commit id actor prepared kind) := by
  cases kind with
  | admin => trivial
  | operator =>
    refine All.bind (All.bind (readOnly_perform rfl) fun _ =>
      All.bind (writes_perform rfl hsnapshots) fun _ => trivial) fun _ =>
        All.bind (All.bind (readOnly_perform rfl) fun found => ?_).attempt fun _ =>
          All.bind (All.bind (readOnly_rederived _) fun _ =>
            All.bind (writes_saveCandidateAs haudit hcandidate _ _ _ _ _) fun _ => trivial)
              fun _ => trivial
    cases found with
    | none => exact writes_perform rfl hmark
    | some current =>
      show WritesOnly P (if current ≥ _ then _ else _)
      split
      · trivial
      · exact writes_perform rfl hmark

theorem keeping_runApply (kind : EngineKind) (actor : String) :
    Keeping I (runApply app kind id actor) fun _ => True := by
  refine .after (writes_runStages ⟨nofun, nofun⟩ ⟨nofun, nofun⟩ ⟨nofun, nofun⟩ fun prepared =>
    writes_commit id ⟨nofun, nofun⟩ ⟨nofun, nofun⟩ ⟨nofun, nofun⟩ ⟨nofun, nofun⟩ actor prepared kind)
    fun r => ?_
  rcases r with ⟨reached, e⟩ | u
  · refine .after (writes_audited ⟨nofun, nofun⟩ _) fun _ => ?_
    show Keeping I (if ROLLED_BACK_FROM.contains reached then _ else _) _
    split
    · exact keeping_rollBackApply hdefault id kind _
    · exact keeping_of_writes (All.bind (writes_perform rfl ⟨nofun, nofun⟩) fun _ =>
        writes_perform rfl ⟨nofun, nofun⟩)
  · trivial

theorem keeping_recoverNext : Keeping I (recoverNext app) fun _ => True := by
  refine .after (readOnly_perform rfl) fun found => ?_
  cases found with
  | none => trivial
  | some record =>
    refine Keeping.bind (F := fun _ => True) (.after (writes_perform rfl ⟨nofun, nofun⟩) fun _ =>
      .after (All.bind (writes_perform rfl ⟨nofun, nofun⟩) fun _ =>
        writes_perform rfl ⟨nofun, nofun⟩) fun _ =>
          .after (writes_audited ⟨nofun, nofun⟩ _) fun _ => ?_) (fun _ _ => trivial) fun _ => trivial
    show Keeping I (if ROLLED_BACK_FROM.contains record.stage then _ else _) _
    split
    · refine (keeping_attempt (keeping_rollBack hdefault _)).bind (fun r _ => ?_) fun _ => trivial
      cases r with
      | error e =>
        exact keeping_of_writes (All.bind (writes_perform rfl ⟨nofun, nofun⟩) fun _ =>
          All.bind (All.bind (writes_engage ⟨nofun, nofun⟩ ⟨nofun, nofun⟩ _ _ _) fun _ =>
            readOnly_alert _) fun _ => All.bind (writes_perform rfl ⟨nofun, nofun⟩) fun _ =>
              writes_perform rfl ⟨nofun, nofun⟩)
      | ok _ => exact keeping_of_writes (writes_perform rfl ⟨nofun, nofun⟩)
    · trivial

end applies

/-! ### Requests -/

/-- The request brings no Admin values without the property, and changes none that have it into
others that do not. -/
def Request.keeps (I : AdminValues → Prop) : Request → Prop
  | .editAdmin _ change => ∀ values changed, I values → change values = .ok changed → I changed
  | .importConfiguration _ _ admin => I admin
  | _ => True

section requests

variable (hdefault : I {})

include hdefault

theorem keeping_launched (uuid actor : String) (kind : EngineKind) (base : Option Nat) :
    Keeping I (createApply uuid base >>= fun record => runApply app kind record.id actor)
      fun _ => True :=
  .after (All.bind (writes_perform rfl ⟨nofun, nofun⟩) fun _ => trivial) fun record =>
    keeping_runApply hdefault record.id kind actor

omit hdefault in
theorem keeping_currentDiscovery : Keeping I currentDiscovery fun r =>
    ∀ stored, r = .ok stored → I stored.adminValues := by
  refine Keeping.bind (F := fun r => ∀ found, r = .ok found → ∀ discovery ∈ found,
    I discovery.adminValues) ((safe_perform _).mpr fun _ _ r _ hr => ⟨trivial, ?_⟩)
    (fun found h => ?_) nofun
  · rintro found rfl
    exact hr
  · cases found with
    | none => exact nofun
    | some stored =>
      intro stored' hstored
      obtain rfl := Except.ok.inj hstored
      exact h _ rfl stored rfl

omit hdefault in
theorem keeping_admitAdoption (through : Option Nat) :
    Keeping I (admitAdoption app through) fun r => ∀ stored, r = .ok stored → I stored.adminValues := by
  refine .andThen (readOnly_perform rfl) (fun _ => .andThen (readOnly_refuseIf _ _ _) (fun _ =>
    .andThen (readOnly_perform rfl) (fun _ => .andThen (readOnly_refuseIf _ _ _) (fun _ =>
      .andThen (readOnly_refuseInFlight _) (fun _ => keeping_currentDiscovery.bind
        (fun stored hstored => ?_) nofun) nofun) nofun) nofun) nofun) nofun
  refine .andThen (readOnly_refuseIf _ _ _) (fun _ => .andThen (readOnly_perform rfl) (fun _ =>
    .andThen (readOnly_refuseIf _ _ _) (fun _ => .andThen (all_ofExcept _) (fun _ =>
      .andThen (readOnly_unseeded _) (fun _ => .andThen (readOnly_refuseIf _ _ _) (fun _ => ?_)
        nofun) nofun) nofun) nofun) nofun) nofun
  intro stored' heq
  obtain rfl := Except.ok.inj heq
  exact hstored stored rfl

theorem keeping_serve {request : Request} (h : request.keeps I) :
    Keeping I (request.serve app) fun _ => True := by
  cases request with
  | startApply uuid actor =>
    exact .after readOnly_mutationsEnabled fun _ => .after (readOnly_refuseInFlight _) fun _ =>
      .after readOnly_loadCandidate fun _ => keeping_launched hdefault _ _ _ _
  | startAdminApply uuid actor =>
    exact .after readOnly_mutationsEnabled fun _ => .after (readOnly_refuseInFlight _) fun _ =>
      .after (readOnly_perform rfl) fun _ => keeping_launched hdefault _ _ _ _
  | adopt uuid actor through =>
    refine (keeping_admitAdoption through).bind (fun stored hstored => ?_) fun _ => trivial
    refine (keeping_saveAdmin hdefault actor (hstored stored rfl)).bind (fun _ _ => ?_)
      fun _ => trivial
    exact .after readOnly_loadCandidate fun _ =>
      .after (writes_saveCandidate ⟨nofun, nofun⟩ ⟨nofun, nofun⟩ _ _) fun _ =>
        keeping_launched hdefault _ _ _ _
  | editAdmin actor change =>
    refine .after readOnly_mutationsEnabled fun _ =>
      (keeping_loadAdmin hdefault).bind (fun values hvalues => ?_) fun _ => trivial
    refine Keeping.bind (F := fun r => ∀ changed, r = .ok changed → I changed)
      (keeping_ofExcept (fun changed hchange => ?_) nofun) (fun changed hchanged => ?_)
      fun _ => trivial
    · intro changed' heq
      obtain rfl := Except.ok.inj heq
      exact h values changed (hvalues values rfl) hchange
    · exact (keeping_saveAdmin hdefault actor (hchanged changed rfl)).bind (fun _ _ => trivial)
        fun _ => trivial
  | importConfiguration actor sections admin =>
    refine .after readOnly_mutationsEnabled fun _ =>
      .after (All.bind (readOnly_perform rfl) fun _ =>
        All.bind (writes_saveCandidateAs ⟨nofun, nofun⟩ ⟨nofun, nofun⟩ _ _ _ _ _) fun _ =>
          trivial) fun _ => ?_
    exact (keeping_saveAdmin hdefault actor h).bind (fun _ _ => trivial) fun _ => trivial
  | _ => exact keeping_of_writes (writes_serve_of_not_savesAdmin ⟨nofun, nofun⟩ ⟨nofun, nofun⟩
      ⟨nofun, nofun⟩ ⟨nofun, nofun⟩ _ rfl rfl)

end requests

/-! ### Runs -/

/-- The documents have the property, and so does the discovery. -/
structure World.Documented (I : AdminValues → Prop) (world : World) : Prop where
  admin : ∀ values ∈ world.admin, I values
  previous : ∀ values ∈ world.adminPrevious, I values
  discovery : ∀ stored ∈ world.discovery, I stored.adminValues

/-- So do the documents that what is being served will write. -/
structure Service.Documented (I : AdminValues → Prop) (s : Service) : Prop where
  world : s.world.Documented I
  recovering : ∀ p ∈ s.recovering, Keeping I p fun _ => True
  tasks : ∀ p ∈ s.tasks, Keeping I p fun _ => True

section runs

variable {outside : Outside} {s s' : Service}

/-- A call answers what the documents hold, and leaves them with the property when it writes a
document that has it. -/
theorem World.Documented.answer {β : Type} {c : Call β} {world world' : World}
    {r : Except Error β} (h : world.Documented I)
    (hanswer : (worldMachine outside).Answer c world r world') :
    Answering I _ c () r () ∧ (Writing I _ c () r () → world'.Documented I) := by
  constructor
  · cases hanswer with
    | lost e => cases c <;> trivial
    | unheard e => cases c <;> trivial
    | through =>
      cases c with
      | findAdmin => exact h.admin
      | findAndReplaceAdmin values => exact h.admin
      | findAdminPrevious => exact h.previous
      | findDiscovery => exact h.discovery
      | _ => trivial
  · intro hwritten
    rcases hanswer.state with rfl | rfl
    · exact h
    obtain ⟨hadmin, hprevious, hdiscovery⟩ := h
    cases c with
    | findAndReplaceAdmin values =>
      exact ⟨fun v hv => Option.some.inj hv ▸ hwritten, hprevious, hdiscovery⟩
    | replaceAdmin values =>
      exact ⟨fun v hv => Option.some.inj hv ▸ hwritten, hprevious, hdiscovery⟩
    | replaceAdminPrevious values =>
      exact ⟨hadmin, fun v hv => Option.some.inj hv ▸ hwritten, hdiscovery⟩
    | insertApply record =>
      change (world.insertApply record).2.Documented I
      unfold World.insertApply
      split <;> exact ⟨hadmin, hprevious, hdiscovery⟩
    | insertSnapshot snapshot =>
      change (world.insertSnapshot snapshot).2.Documented I
      unfold World.insertSnapshot
      split <;> exact ⟨hadmin, hprevious, hdiscovery⟩
    | findAndReplaceCandidate candidate =>
      change (world.replaceCandidate outside candidate).2.Documented I
      unfold World.replaceCandidate
      split <;> exact ⟨hadmin, hprevious, hdiscovery⟩
    | _ => exact ⟨hadmin, hprevious, hdiscovery⟩

/-- The calls of a program that keeps the property keep it, and so does what is left of it. -/
theorem Keeping.step {α β : Type} {c : Call β} {k : Except Error β → PipelineProg α}
    {world world' : World} {r : Except Error β} (h : Keeping I (.call c k) fun _ => True)
    (hworld : world.Documented I) (hanswer : (worldMachine outside).Answer c world r world') :
    world'.Documented I ∧ Keeping I (k r) fun _ => True := by
  obtain ⟨hread, hleft⟩ := hworld.answer hanswer
  obtain ⟨hwritten, hk⟩ := h () trivial r () hread
  exact ⟨hleft hwritten, hk⟩

/-- Only requests that keep the property arrive. -/
def Event.keeps (I : AdminValues → Prop) : Event → Prop
  | .arrive request => request.keeps I
  | _ => True

theorem Service.Documented.step {e : Event} (hdefault : I {}) (h : s.Documented I)
    (hkeeps : e.keeps I) (hstep : Step app outside s e s') : s'.Documented I := by
  obtain ⟨hworld, hrecovering, htasks⟩ := h
  cases hstep with
  | arrive request hserving hfresh =>
    refine ⟨hworld, hrecovering, fun p hp => ?_⟩
    rcases List.mem_append.mp hp with hp | hp
    · exact htasks p hp
    · exact List.mem_singleton.mp hp ▸ keeping_serve hdefault hkeeps
  | task hserving htask hanswer =>
    obtain ⟨hleft, hrest⟩ := (htasks _ (List.mem_of_getElem? htask)).step hworld hanswer
    refine ⟨hleft, hrecovering, fun p hp => ?_⟩
    rcases List.mem_or_eq_of_mem_set hp with hp | rfl
    · exact htasks p hp
    · exact hrest
  | recover hcall hanswer =>
    obtain ⟨hleft, hrest⟩ := (hrecovering _ hcall).step hworld hanswer
    exact ⟨hleft, fun p hp => Option.some.inj hp ▸ hrest, htasks⟩
  | again hover =>
    exact ⟨hworld, fun p hp => Option.some.inj hp ▸ keeping_recoverNext hdefault, htasks⟩
  | recovered hover => exact ⟨hworld, nofun, htasks⟩
  | gaveUp hover => exact ⟨hworld, nofun, htasks⟩
  | die => exact ⟨hworld, fun p hp => Option.some.inj hp ▸ keeping_recoverNext hdefault, nofun⟩

/-- A property of the Admin values that every request keeps holds of both documents wherever a run
leads. -/
theorem documented_of_run {world : World} (hdefault : I {}) (hworld : world.Documented I)
    (hrun : Run (Step app outside) (fun _ e _ => e.keeps I) (Service.boot app world) s) :
    s.Documented I :=
  hrun.invariant ⟨hworld, fun _ hp => Option.some.inj hp ▸ keeping_recoverNext hdefault, nofun⟩
    fun _ _ _ h hkeeps hstep => h.step hdefault hkeeps hstep

end runs

end Apchi.Pipeline
