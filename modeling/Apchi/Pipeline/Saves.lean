import Apchi.Lib.Owing
import Apchi.Pipeline.Writes

/-!
# Saves

A save is two or three writes: the document, for the Admin values the pre-image, and the audit.  The
document comes first and nothing undoes it, so a save that raises has changed nothing only where its
first write is the one that fails.  Once its document is stored a save owes the writes after it, and
everything else Apchi runs owes nothing.
-/

namespace Apchi.Pipeline

open Lib Prog

/-! ### What a save changes -/

/-- The Sections of a stored Candidate; none is stored before the first save. -/
def storedSections : Option Candidate → Sections
  | none => fun _ => ∅
  | some candidate => candidate.sections

theorem mem_sortedNames (name : SectionName) : name ∈ sortedNames := by
  cases name <;> decide

theorem mem_resourceNames {before after : Resources} {resource : String} :
    resource ∈ resourceNames before after ↔ resource ∈ before ∨ resource ∈ after := by
  simp [resourceNames]

theorem mem_changesBetween {actor : String} {before after : Sections} {event : AuditEvent} :
    event ∈ changesBetween actor before after ↔ ∃ name resource action,
      resourceChange (before name) (after name) resource = some action ∧
        event = { actor := actor, category := name.text, action := action, resource := some resource } := by
  simp only [changesBetween, List.mem_flatMap, List.mem_filterMap, Option.map_eq_some_iff,
    mem_resourceNames, mem_sortedNames, true_and]
  constructor
  · rintro ⟨name, resource, -, action, hchange, rfl⟩
    exact ⟨name, resource, action, hchange, rfl⟩
  · rintro ⟨name, resource, action, hchange, rfl⟩
    refine ⟨name, resource, ?_, action, hchange, rfl⟩
    by_contra hnot
    obtain ⟨hbefore, hafter⟩ := not_or.mp hnot
    simp [resourceChange, hbefore, hafter] at hchange

theorem resourceChange_isSome {was now : Resources} {resource : String} :
    (resourceChange was now resource).isSome ↔ was[resource]? ≠ now[resource]? := by
  unfold resourceChange
  cases was[resource]? <;> cases now[resource]? <;> simp

/-- A save of what is stored already has nothing to record. -/
theorem changesBetween_eq_nil {actor : String} {before after : Sections} :
    changesBetween actor before after = [] ↔ before = after := by
  constructor
  · intro h
    funext name
    refine Std.ExtTreeMap.ext_getElem? fun resource => ?_
    by_contra hne
    obtain ⟨action, hchange⟩ := Option.isSome_iff_exists.mp (resourceChange_isSome.mpr hne)
    have hmem : _ ∈ changesBetween actor before after :=
      mem_changesBetween.mpr ⟨name, resource, action, hchange, rfl⟩
    rw [h] at hmem
    cases hmem
  · rintro rfl
    refine List.eq_nil_iff_forall_not_mem.mpr fun event hevent => ?_
    obtain ⟨name, resource, action, hchange, -⟩ := mem_changesBetween.mp hevent
    exact resourceChange_isSome.mp (Option.isSome_of_eq_some hchange) rfl

theorem adminChanges_eq_nil {actor : String} {before after : AdminValues} :
    adminChanges actor before after = [] ↔ before = after := by
  obtain ⟨enforce, accessControl, rawFiles, mappings⟩ := before
  obtain ⟨enforce', accessControl', rawFiles', mappings'⟩ := after
  simp [adminChanges, and_assoc, and_comm]

/-! ### One write that fails -/

/-- The writes of a save. -/
inductive Write where
  | document
  | preImage
  | audit
  deriving DecidableEq, Repr

/-- Which write of a save a call is. -/
def Call.write {β : Type} : Call β → Option Write
  | .findAndReplaceAdmin _ | .findAndReplaceCandidate _ => some .document
  | .replaceAdminPrevious _ => some .preImage
  | .insertAudit _ => some .audit
  | _ => none

/-- A write that fails: what is raised, and whether it has been made nevertheless. -/
structure Fault where
  write : Write
  made : Bool
  error : Error
  deriving DecidableEq, Repr

/-- The machine on which one kind of write fails. -/
def failing (outside : Outside) (fault : Fault) : Machine Call World where
  exec := fun call world =>
    if call.write = some fault.write then
      (.error fault.error, if fault.made then (world.exec outside call).2 else world)
    else world.exec outside call

/-- If the save raises, the document is what it was. -/
def AllOrNothing {α δ : Type} (outside : Outside) (fault : Fault) (document : World → δ)
    (save : PipelineProg α) (world : World) : Prop :=
  ∀ e, (save.run (failing outside fault) world).1 = .error e →
    document (save.run (failing outside fault) world).2 = document world

section fault

variable {outside : Outside} {fault : Fault} {world : World}

theorem failing_exec_of {β : Type} {c : Call β} (h : c.write = some fault.write) :
    (failing outside fault).exec c world =
      (.error fault.error, if fault.made then (world.exec outside c).2 else world) :=
  if_pos h

/-- The audit is written, unless it is what fails. -/
theorem insertAudit_run (events : List AuditEvent) :
    (call (.insertAudit events)).run (failing outside fault) world =
      if fault.write = .audit then (.error fault.error,
        if fault.made then { world with audit := world.audit ++ events } else world)
      else (.ok (), { world with audit := world.audit ++ events }) := by
  rw [run_perform]
  by_cases h : fault.write = .audit
  · rw [if_pos h, failing_exec_of (h ▸ rfl : (Call.insertAudit events).write = some fault.write)]
    rfl
  · have hnot : (Call.insertAudit events).write ≠ some fault.write := fun heq =>
      h (Option.some.inj heq).symm
    rw [if_neg h]
    exact if_neg hnot

theorem recordEach_run {events : List AuditEvent} (h : events ≠ []) :
    (recordEach events).run (failing outside fault) world =
      (call (.insertAudit events)).run (failing outside fault) world := by
  rw [recordEach, if_neg (by simpa using h)]

/-- A save of Admin values is all or nothing exactly where the document is what fails, and has not
been written; or is what was stored; or the audit fails, and has nothing to record. -/
theorem saveAdmin_allOrNothing_iff (actor : String) (values : AdminValues) :
    AllOrNothing outside fault World.admin (saveAdmin actor values) world ↔
      fault.write = .document ∧ fault.made = false ∨ world.admin = some values ∨
        fault.write = .audit ∧ world.admin.getD {} = values := by
  obtain ⟨write, made, e⟩ := fault
  cases write with
  | document =>
    have hrun : (saveAdmin actor values).run (failing outside ⟨.document, made, e⟩) world =
        (.error e, if made then { world with admin := some values } else world) := rfl
    rw [AllOrNothing, hrun]
    cases made <;> simp [eq_comm]
  | preImage =>
    have hrun : (saveAdmin actor values).run (failing outside ⟨.preImage, made, e⟩) world =
        (.error e, if made then
            { world with admin := some values, adminPrevious := some (world.admin.getD {}) }
          else { world with admin := some values }) := rfl
    rw [AllOrNothing, hrun]
    cases made <;> simp [eq_comm]
  | audit =>
    have hrun : (saveAdmin actor values).run (failing outside ⟨.audit, made, e⟩) world =
        ((recordEach (adminChanges actor (world.admin.getD {}) values)).bind
          fun _ => .ret values).run (failing outside ⟨.audit, made, e⟩)
            { world with admin := some values, adminPrevious := some (world.admin.getD {}) } := rfl
    rw [AllOrNothing, hrun, run_bind]
    by_cases hsame : world.admin.getD {} = values
    · rw [adminChanges_eq_nil.mpr hsame]
      simp [recordEach, hsame]
    · rw [recordEach_run (mt adminChanges_eq_nil.mp hsame), insertAudit_run, if_pos rfl]
      cases made <;> simp [hsame, eq_comm]

/-- What is recorded after the Candidate's document has been replaced. -/
theorem replaceCandidate_allOrNothing_iff {α : Type} (candidate : Candidate)
    {record : Option Candidate → PipelineProg α}
    (hkeeps : ∀ previous w, ((record previous).run (failing outside fault) w).2.candidate = w.candidate) :
    AllOrNothing outside fault World.candidate
        ((call (.findAndReplaceCandidate candidate)).bind record) world ↔
      fault.write = .document ∧ fault.made = false ∨ world.candidate = some candidate ∨
        (∃ e, outside.candidateFits candidate = .error e) ∨
          fault.write ≠ .document ∧ ∀ e, ((record world.candidate).run (failing outside fault)
            { world with candidate := some candidate }).1 ≠ .error e := by
  have hexec : world.exec outside (.findAndReplaceCandidate candidate) =
      world.replaceCandidate outside candidate := rfl
  rw [AllOrNothing, run_bind, run_perform]
  by_cases hwrite : fault.write = .document
  · rw [failing_exec_of (hwrite ▸ rfl :
      (Call.findAndReplaceCandidate candidate).write = some fault.write), hexec, World.replaceCandidate]
    cases hfits : outside.candidateFits candidate <;> cases hmade : fault.made <;>
      simp [hwrite, eq_comm]
  · have hnot : (Call.findAndReplaceCandidate candidate).write ≠ some fault.write := fun h =>
      hwrite (Option.some.inj h).symm
    rw [show (failing outside fault).exec (.findAndReplaceCandidate candidate) world = _ from
      if_neg hnot, hexec, World.replaceCandidate]
    cases hfits : outside.candidateFits candidate with
    | error e => simp
    | ok u =>
      simp only [hkeeps, hwrite, false_and, false_or, reduceCtorEq, exists_false, ne_eq,
        not_false_eq_true, true_and]
      constructor
      · intro h
        by_contra hnot
        obtain ⟨hdiffers, hraises⟩ := not_or.mp hnot
        exact hraises fun e he => hdiffers (h e he).symm
      · rintro (hsame | hreturns) e he
        · exact hsame.symm
        · exact absurd he (hreturns e)

theorem saveCandidate_eq (actor : String) (candidate : Candidate) :
    saveCandidate actor candidate = (call (.findAndReplaceCandidate candidate)).bind fun previous =>
      recordEach (changesBetween actor (storedSections previous) candidate.sections) := by
  refine congrArg (Prog.bind _) (funext fun previous => ?_)
  cases previous <;> rfl

/-- A save of the Candidate that records its differences: the same, and one that does not fit is
refused before anything is written. -/
theorem saveCandidate_allOrNothing_iff (actor : String) (candidate : Candidate) :
    AllOrNothing outside fault World.candidate (saveCandidate actor candidate) world ↔
      fault.write = .document ∧ fault.made = false ∨ world.candidate = some candidate ∨
        (∃ e, outside.candidateFits candidate = .error e) ∨ fault.write = .preImage ∨
          fault.write = .audit ∧ storedSections world.candidate = candidate.sections := by
  have hsame {previous : Option Candidate} (h : storedSections previous = candidate.sections)
      (w : World) : (recordEach (changesBetween actor (storedSections previous)
        candidate.sections)).run (failing outside fault) w = (.ok (), w) := by
    rw [changesBetween_eq_nil.mpr h]
    rfl
  have hdiffers {previous : Option Candidate} (h : storedSections previous ≠ candidate.sections)
      (w : World) : (recordEach (changesBetween actor (storedSections previous)
        candidate.sections)).run (failing outside fault) w = _ :=
    recordEach_run (mt changesBetween_eq_nil.mp h)
  rw [saveCandidate_eq, replaceCandidate_allOrNothing_iff]
  · by_cases h : storedSections world.candidate = candidate.sections
    · rw [hsame h]
      cases fault.write <;> simp [h]
    · rw [hdiffers h, insertAudit_run]
      cases fault.write <;> simp [h]
  · intro previous w
    by_cases h : storedSections previous = candidate.sections
    · rw [hsame h]
    · rw [hdiffers h, insertAudit_run]
      split
      · cases fault.made <;> rfl
      · rfl

/-- A save of the Candidate that records one act: it always has that to record. -/
theorem saveCandidateAs_allOrNothing_iff (actor category action : String) (detail : Option String)
    (candidate : Candidate) :
    AllOrNothing outside fault World.candidate
        (saveCandidateAs actor category action detail candidate) world ↔
      fault.write = .document ∧ fault.made = false ∨ world.candidate = some candidate ∨
        (∃ e, outside.candidateFits candidate = .error e) ∨ fault.write = .preImage := by
  refine (replaceCandidate_allOrNothing_iff candidate fun previous w => ?_).trans ?_
  · rw [insertAudit_run]
    split
    · cases fault.made <;> rfl
    · rfl
  · simp only [insertAudit_run]
    cases fault.write <;> simp

end fault

/-! ### What a save owes -/

/-- A write that has still to be made: the pre-image kept, or events recorded. -/
inductive Debt where
  | preImage (before : AdminValues)
  | audit (events : List AuditEvent)

/-- The pre-image that is to be kept. -/
def Debt.kept : Debt → Option AdminValues
  | .preImage before => some before
  | .audit _ => none

/-- The call makes the write. -/
def Pays : {β : Type} → Call β → Debt → Prop
  | _, .replaceAdminPrevious values, .preImage before => values = before
  | _, .insertAudit recorded, .audit events => recorded = events
  | _, _, _ => False

/-- What has still to be recorded. -/
def unrecorded (events : List AuditEvent) : List Debt :=
  if events.isEmpty then [] else [.audit events]

/-- One act of this actor's, on the whole Candidate or on the Section a revert is of. -/
structure IsAct (actor : String) (reverts : Option SectionName) (event : AuditEvent) : Prop where
  actor : event.actor = actor
  whole : event.resource = none
  named : event.category = "pipeline" ∧ event.action ∈ ["reset", "imported", "rolled_back"] ∨
    ∃ name ∈ reverts, event.category = name.text ∧ event.action = "reverted"

/-- What a call, once answered, leaves to be written. -/
def Leaves (actor : String) (reverts : Option SectionName) :
    {β : Type} → Call β → β → List Debt → Prop
  | _, .findAndReplaceAdmin values, previous, owed =>
      owed = .preImage (previous.getD {}) :: unrecorded (adminChanges actor (previous.getD {}) values)
  | _, .findAndReplaceCandidate candidate, previous, owed =>
      owed = unrecorded (changesBetween actor (storedSections previous) candidate.sections) ∨
        ∃ act, IsAct actor reverts act ∧ owed = [.audit [act]]
  | _, .replaceAdminPrevious _, _, _ => False
  | _, _, _, owed => owed = []

/-- The program makes every write its saves owe, at once. -/
abbrev Paying {α : Type} (actor : String) (reverts : Option SectionName) (p : PipelineProg α) : Prop :=
  p.Owing Pays (Leaves actor reverts) []

/-- Nothing a save writes first, or keeps, is written. -/
def saveless (collection : Collection) : Prop :=
  collection ≠ .admin ∧ collection ≠ .adminPrevious ∧ collection ≠ .candidate

section paying

variable {app : App} {actor : String} {reverts : Option SectionName} {α β : Type}

theorem paying_of_writes {p : PipelineProg α} (hp : WritesOnly saveless p) :
    Paying actor reverts p := by
  refine All.owing hp fun c b hc => ?_
  cases c with
  | findAndReplaceAdmin values => exact absurd rfl (hc .admin rfl).1
  | replaceAdminPrevious values => exact absurd rfl (hc .adminPrevious rfl).2.1
  | findAndReplaceCandidate candidate => exact absurd rfl (hc .candidate rfl).2.2
  | _ => exact rfl

/-- A program after one that saves nothing. -/
theorem Paying.after {p : PipelineProg β} {f : β → PipelineProg α} (hp : WritesOnly saveless p)
    (hf : ∀ b, Paying actor reverts (f b)) : Paying actor reverts (p.bind f) :=
  (paying_of_writes hp).bind hf

theorem owing_recordEach (events : List AuditEvent) :
    (recordEach events).Owing Pays (Leaves actor reverts) (unrecorded events) := by
  unfold recordEach unrecorded
  split
  · rfl
  · exact ⟨rfl, fun _ => rfl, fun _ => rfl⟩

theorem paying_saveAdmin (values : AdminValues) : Paying actor reverts (saveAdmin actor values) :=
  owing_leave fun _ => ⟨_, rfl, owing_pay rfl fun _ => (owing_recordEach _).bind fun _ => rfl⟩

theorem paying_saveCandidate (candidate : Candidate) :
    Paying actor reverts (saveCandidate actor candidate) := by
  rw [saveCandidate_eq]
  exact owing_leave fun _ => ⟨_, Or.inl rfl, owing_recordEach _⟩

theorem paying_saveCandidateAs {category action : String} {detail : Option String}
    (hact : IsAct actor reverts
      { actor := actor, category := category, action := action, detail := detail })
    (candidate : Candidate) :
    Paying actor reverts (saveCandidateAs actor category action detail candidate) :=
  owing_leave fun _ => ⟨_, Or.inr ⟨_, hact, rfl⟩, rfl, fun _ => rfl, fun _ => rfl⟩

/-- An act on the whole Candidate. -/
theorem isAct_pipeline {action : String} {detail : Option String}
    (haction : action ∈ ["reset", "imported", "rolled_back"]) : IsAct actor reverts
      { actor := actor, category := "pipeline", action := action, detail := detail } :=
  ⟨rfl, rfl, Or.inl ⟨rfl, haction⟩⟩

theorem paying_resetCandidate (base : Option Nat) :
    Paying actor reverts (resetCandidate actor base) :=
  .after (readOnly_rederived _) fun _ =>
    (paying_saveCandidateAs (isAct_pipeline (by decide)) _).bind fun _ => rfl

theorem paying_replaceCandidate (sections : Sections) :
    Paying actor reverts (replaceCandidate actor sections) :=
  .after (readOnly_perform rfl) fun _ =>
    (paying_saveCandidateAs (isAct_pipeline (by decide)) _).bind fun _ => rfl

theorem paying_restorePrevious : Paying actor reverts restorePrevious :=
  .after (readOnly_perform rfl) fun _ => owing_leave fun _ => ⟨[], rfl, rfl⟩

/-! ### An Apply, and the requests -/

theorem paying_inStage {stage : Stage} {p : PipelineProg α} (hp : Paying actor reverts p) :
    Paying actor reverts (inStage stage p).run :=
  hp.attempt.bind fun r => by cases r <;> rfl

theorem paying_staged {p : Staged β} {f : β → Staged α} (hp : Paying actor reverts p.run)
    (hf : ∀ b, Paying actor reverts (f b).run) : Paying actor reverts (p >>= f).run :=
  hp.bind fun r => by
    cases r with
    | ok b => exact hf b
    | error e => exact rfl

variable (id : String)

theorem paying_rollBack (kind : EngineKind) : Paying actor reverts (rollBack app kind) := by
  cases kind with
  | operator => exact paying_of_writes (writes_rollBack_operator ⟨nofun, nofun, nofun⟩)
  | admin =>
    exact paying_restorePrevious.bind fun _ => paying_of_writes
      (All.bind readOnly_latestSections fun _ =>
        All.bind (writes_onCluster ⟨nofun, nofun, nofun⟩ _) fun _ =>
          writes_onCluster ⟨nofun, nofun, nofun⟩ _)

theorem paying_rollBackApply (kind : EngineKind) (reason : String) :
    Paying actor reverts (rollBackApply app kind id reason) := by
  refine .after (writes_perform rfl ⟨nofun, nofun, nofun⟩) fun _ =>
    (paying_rollBack kind).attempt.bind fun r => ?_
  cases r with
  | error e =>
    exact paying_of_writes (All.bind (writes_perform rfl ⟨nofun, nofun, nofun⟩) fun _ =>
      All.bind (All.bind (writes_engage ⟨nofun, nofun, nofun⟩ ⟨nofun, nofun, nofun⟩ _ _ _) fun _ =>
        readOnly_alert _) fun _ =>
          All.bind (All.bind (writes_perform rfl ⟨nofun, nofun, nofun⟩) fun _ =>
            writes_perform rfl ⟨nofun, nofun, nofun⟩) fun _ =>
              writes_audited ⟨nofun, nofun, nofun⟩ _)
  | ok _ =>
    exact paying_of_writes (All.bind (writes_perform rfl ⟨nofun, nofun, nofun⟩) fun _ =>
      All.bind (All.bind (writes_perform rfl ⟨nofun, nofun, nofun⟩) fun _ =>
        writes_perform rfl ⟨nofun, nofun, nofun⟩) fun _ => writes_audited ⟨nofun, nofun, nofun⟩ _)

theorem paying_failedIn (kind : EngineKind) (reached : Stage) (e : Error) :
    Paying actor reverts (failedIn app kind id actor reached e) := by
  refine .after (writes_audited ⟨nofun, nofun, nofun⟩ _) fun _ => ?_
  show Paying actor reverts (if ROLLED_BACK_FROM.contains reached then _ else _)
  split
  · exact paying_rollBackApply id kind _
  · exact paying_of_writes (All.bind (writes_perform rfl ⟨nofun, nofun, nofun⟩) fun _ =>
      writes_perform rfl ⟨nofun, nofun, nofun⟩)

theorem paying_commit (kind : EngineKind) (prepared : Prepared) :
    Paying actor reverts (commit id actor prepared kind) := by
  cases kind with
  | admin => exact rfl
  | operator =>
    refine .after (All.bind (readOnly_perform rfl) fun _ =>
      All.bind (writes_perform rfl ⟨nofun, nofun, nofun⟩) fun _ => trivial) fun snapshot =>
        .after ?_ fun _ => (paying_resetCandidate _).bind fun _ => rfl
    refine (All.bind (readOnly_perform rfl) fun found => ?_).attempt
    cases found with
    | none => exact writes_perform rfl ⟨nofun, nofun, nofun⟩
    | some current =>
      show WritesOnly saveless (if current ≥ _ then _ else _)
      split
      · trivial
      · exact writes_perform rfl ⟨nofun, nofun, nofun⟩

theorem paying_commitStage (kind : EngineKind) (prepared : Prepared) :
    Paying actor reverts (commitStage kind id actor prepared) := by
  have hsucceed (snapshot : Option Nat) : WritesOnly saveless (do
      call (.pushStage id .succeeded none)
      audited (applyEvent kind actor id "applied" "succeeded" snapshot none)) :=
    All.bind (writes_perform rfl ⟨nofun, nofun, nofun⟩) fun _ =>
      writes_audited ⟨nofun, nofun, nofun⟩ _
  refine .after (writes_perform rfl ⟨nofun, nofun, nofun⟩) fun _ =>
    (paying_commit id kind prepared).bind fun snapshot => paying_of_writes ?_
  cases snapshot with
  | none => exact hsucceed none
  | some number =>
    exact All.bind (writes_perform rfl ⟨nofun, nofun, nofun⟩) fun _ => hsucceed (some number)

theorem paying_runStages (kind : EngineKind) :
    Paying actor reverts (runStages app kind id actor).run := by
  have hstage (stage : Stage) (p : ClusterProg Unit) : Paying actor reverts (inStage stage do
      call (.pushStage id stage none)
      onCluster p).run :=
    paying_inStage (paying_of_writes (All.bind (writes_perform rfl ⟨nofun, nofun, nofun⟩) fun _ =>
      writes_onCluster ⟨nofun, nofun, nofun⟩ p))
  have hcommitting (prepared : Prepared) :
      Paying actor reverts (inStage .committing (commitStage kind id actor prepared)).run :=
    paying_inStage (paying_commitStage id kind prepared)
  refine paying_staged (paying_inStage (paying_of_writes ?_)) fun prepared =>
    paying_staged (hstage _ _) fun _ => ?_
  · exact All.bind (readOnly_validate kind) fun _ =>
      All.bind (writes_perform rfl ⟨nofun, nofun, nofun⟩) fun _ => trivial
  · split
    · exact paying_staged (hstage _ _) fun _ => paying_staged (hstage _ _) fun _ =>
        hcommitting prepared
    · exact paying_staged (hstage _ _) fun _ => hcommitting prepared

theorem paying_runApply (kind : EngineKind) : Paying actor reverts (runApply app kind id actor) :=
  (paying_runStages id kind).bind fun r => by
    rcases r with ⟨reached, e⟩ | u
    · exact paying_failedIn id kind reached e
    · exact rfl

theorem paying_launched (uuid : String) (kind : EngineKind) (base : Option Nat) :
    Paying actor reverts (createApply uuid base >>= fun record => runApply app kind record.id actor) :=
  .after (All.bind (writes_perform rfl ⟨nofun, nofun, nofun⟩) fun _ => trivial) fun record =>
    paying_runApply record.id kind

end paying

/-- Who sends a request that saves. -/
def Request.sender : Request → String
  | startApply _ actor | startAdminApply _ actor | adopt _ actor _ | editCandidate actor _
  | discardCandidate actor | importCandidate actor _ | editAdmin actor _
  | importConfiguration actor _ _ | setMaintenanceMode actor _ _ | sectionRevert actor _ _
  | fullRollback actor _ => actor
  | seed | review => SYSTEM_ACTOR

/-- The Section a request reverts. -/
def Request.reverts : Request → Option SectionName
  | sectionRevert _ name _ => some name
  | _ => none

/-- Whatever is served makes every write its saves owe, at once. -/
theorem paying_serve {app : App} (request : Request) :
    Paying request.sender request.reverts (request.serve app) := by
  cases request with
  | startApply uuid actor =>
    exact .after readOnly_mutationsEnabled fun _ => .after (readOnly_refuseInFlight _) fun _ =>
      .after readOnly_loadCandidate fun _ => paying_launched _ _ _
  | startAdminApply uuid actor =>
    exact .after readOnly_mutationsEnabled fun _ => .after (readOnly_refuseInFlight _) fun _ =>
      .after (readOnly_perform rfl) fun _ => paying_launched _ _ _
  | adopt uuid actor through =>
    exact .after (readOnly_admitAdoption _) fun stored =>
      (paying_saveAdmin stored.adminValues).bind fun _ => Paying.after readOnly_loadCandidate fun _ =>
        (paying_saveCandidate _).bind fun _ => paying_launched _ _ _
  | seed => exact paying_of_writes (writes_seedCluster ⟨nofun, nofun, nofun⟩)
  | review => exact .after readOnly_review fun _ => rfl
  | editCandidate actor change =>
    exact .after readOnly_operatorMutationAllowed fun _ => .after readOnly_loadCandidate fun _ =>
      .after (all_ofExcept _) fun _ => paying_saveCandidate _
  | discardCandidate actor =>
    exact .after readOnly_operatorMutationAllowed fun _ => .after readOnly_loadCandidate fun _ =>
      (paying_resetCandidate _).bind fun _ => rfl
  | importCandidate actor sections =>
    exact .after readOnly_operatorMutationAllowed fun _ =>
      (paying_replaceCandidate _).bind fun _ => rfl
  | editAdmin actor change =>
    exact .after readOnly_mutationsEnabled fun _ =>
      .after (All.bind (readOnly_perform rfl) fun _ => trivial) fun _ =>
        .after (all_ofExcept _) fun _ => (paying_saveAdmin _).bind fun _ => rfl
  | importConfiguration actor sections admin =>
    exact .after readOnly_mutationsEnabled fun _ => (paying_replaceCandidate _).bind fun _ =>
      (paying_saveAdmin _).bind fun _ => rfl
  | setMaintenanceMode actor engaged reason =>
    exact paying_of_writes (writes_setMaintenanceMode ⟨nofun, nofun, nofun⟩ ⟨nofun, nofun, nofun⟩ _ _ _)
  | sectionRevert actor name number =>
    have hact (detail : Option String) : IsAct actor (some name)
        { actor := actor, category := name.text, action := "reverted", detail := detail } :=
      ⟨rfl, rfl, Or.inr ⟨name, rfl, rfl, rfl⟩⟩
    exact Owing.bind (Paying.after readOnly_operatorMutationAllowed fun _ =>
      .after readOnly_freezeAdminValues fun _ => .after (readOnly_snapshotSections _) fun _ =>
        .after readOnly_loadCandidate fun _ => (paying_saveCandidateAs (hact _) _).bind fun _ =>
          paying_of_writes (readOnly_effect _ _ _ _ _ _)) fun _ => rfl
  | fullRollback actor number =>
    have hact (detail : Option String) : IsAct actor none
        { actor := actor, category := "pipeline", action := "rolled_back", detail := detail } :=
      isAct_pipeline (by decide)
    exact Owing.bind (Paying.after readOnly_operatorMutationAllowed fun _ =>
      .after readOnly_freezeAdminValues fun _ => .after (readOnly_snapshotSections _) fun _ =>
        .after readOnly_loadCandidate fun _ => (paying_saveCandidateAs (hact _) _).bind fun _ =>
          paying_of_writes (readOnly_effect _ _ _ _ _ _)) fun _ => rfl

end Apchi.Pipeline
