import Apchi.Pipeline.Ownership

/-!
# Which collections the pipeline's programs write

A call writes at most one collection, or the Cluster.  For each program it is said once what it
writes; what it does not write it leaves as it is.
-/

namespace Apchi.Pipeline

open Lib Prog

/-- What there is to write. -/
inductive Collection where
  | cluster
  | applies
  | maintenance
  | admin
  | adminPrevious
  | candidate
  | snapshots
  | audit
  | highWater
  deriving DecidableEq, Repr

/-- What a call writes. -/
def Call.writesTo {β : Type} : Call β → Option Collection
  | .cluster call => if call.writes then some .cluster else none
  | .insertApply _ | .pushStage .. | .setFailureReason .. | .setInterrupted _ | .setRollback ..
  | .setWarnings .. | .setSnapshot .. | .setIncident .. => some .applies
  | .replaceMaintenance _ => some .maintenance
  | .findAndReplaceAdmin _ | .replaceAdmin _ => some .admin
  | .replaceAdminPrevious _ => some .adminPrevious
  | .findAndReplaceCandidate _ => some .candidate
  | .insertSnapshot _ => some .snapshots
  | .insertAudit _ => some .audit
  | .writeHighWater _ => some .highWater
  | _ => none

/-! ### What a call leaves alone -/

section frame

variable (outside : Outside) {β : Type} {c : Call β} {world world' : World} {r : Except Error β}

theorem answer_snapshots_of_not (h : c.writesTo ≠ some .snapshots)
    (hanswer : (worldMachine outside).Answer c world r world') :
    world'.snapshots = world.snapshots := by
  rcases hanswer.state with rfl | rfl
  · rfl
  cases c with
  | insertSnapshot snapshot => exact absurd rfl h
  | insertApply record =>
    show (world.insertApply record).2.snapshots = _
    unfold World.insertApply
    split <;> rfl
  | findAndReplaceCandidate candidate =>
    show (world.replaceCandidate outside candidate).2.snapshots = _
    unfold World.replaceCandidate
    split <;> rfl
  | _ => rfl

theorem answer_candidate_of_not (h : c.writesTo ≠ some .candidate)
    (hanswer : (worldMachine outside).Answer c world r world') :
    world'.candidate = world.candidate := by
  rcases hanswer.state with rfl | rfl
  · rfl
  cases c with
  | findAndReplaceCandidate candidate => exact absurd rfl h
  | insertApply record =>
    show (world.insertApply record).2.candidate = _
    unfold World.insertApply
    split <;> rfl
  | insertSnapshot snapshot =>
    show (world.insertSnapshot snapshot).2.candidate = _
    unfold World.insertSnapshot
    split <;> rfl
  | _ => rfl

theorem answer_admin_of_not (h : c.writesTo ≠ some .admin)
    (hanswer : (worldMachine outside).Answer c world r world') :
    world'.admin = world.admin := by
  rcases hanswer.state with rfl | rfl
  · rfl
  cases c with
  | findAndReplaceAdmin values => exact absurd rfl h
  | replaceAdmin values => exact absurd rfl h
  | insertApply record =>
    show (world.insertApply record).2.admin = _
    unfold World.insertApply
    split <;> rfl
  | insertSnapshot snapshot =>
    show (world.insertSnapshot snapshot).2.admin = _
    unfold World.insertSnapshot
    split <;> rfl
  | findAndReplaceCandidate candidate =>
    show (world.replaceCandidate outside candidate).2.admin = _
    unfold World.replaceCandidate
    split <;> rfl
  | _ => rfl

theorem answer_adminPrevious_of_not (h : c.writesTo ≠ some .adminPrevious)
    (hanswer : (worldMachine outside).Answer c world r world') :
    world'.adminPrevious = world.adminPrevious := by
  rcases hanswer.state with rfl | rfl
  · rfl
  cases c with
  | replaceAdminPrevious values => exact absurd rfl h
  | insertApply record =>
    show (world.insertApply record).2.adminPrevious = _
    unfold World.insertApply
    split <;> rfl
  | insertSnapshot snapshot =>
    show (world.insertSnapshot snapshot).2.adminPrevious = _
    unfold World.insertSnapshot
    split <;> rfl
  | findAndReplaceCandidate candidate =>
    show (world.replaceCandidate outside candidate).2.adminPrevious = _
    unfold World.replaceCandidate
    split <;> rfl
  | _ => rfl

/-- The audit only grows. -/
theorem answer_audit (hanswer : (worldMachine outside).Answer c world r world') :
    world.audit ⊆ world'.audit := by
  rcases hanswer.state with rfl | rfl
  · exact List.Subset.refl _
  cases c with
  | insertAudit events => exact List.subset_append_left _ _
  | insertApply record =>
    show _ ⊆ (world.insertApply record).2.audit
    unfold World.insertApply
    split <;> exact List.Subset.refl _
  | insertSnapshot snapshot =>
    show _ ⊆ (world.insertSnapshot snapshot).2.audit
    unfold World.insertSnapshot
    split <;> exact List.Subset.refl _
  | findAndReplaceCandidate candidate =>
    show _ ⊆ (world.replaceCandidate outside candidate).2.audit
    unfold World.replaceCandidate
    split <;> exact List.Subset.refl _
  | _ => exact List.Subset.refl _

end frame

/-- The program writes these collections at most. -/
abbrev WritesOnly {α : Type} (P : Collection → Prop) (p : PipelineProg α) : Prop :=
  p.All fun c => ∀ collection ∈ c.writesTo, P collection

variable {app : App} {P : Collection → Prop} {α β : Type}

theorem writes_perform {c : Call β} {collection : Collection} (h : c.writesTo = some collection)
    (hP : P collection) : WritesOnly P (call c) :=
  all_perform fun written hwritten => by
    cases h.symm.trans hwritten
    exact hP

theorem readOnly_perform {c : Call β} (h : c.writesTo = none) : WritesOnly P (call c) :=
  all_perform fun _ hwritten => nomatch h.symm.trans hwritten

theorem writes_onCluster (hcluster : P .cluster) (p : ClusterProg α) :
    WritesOnly P (onCluster p) := by
  apply All.lift
  induction p with
  | ret a => trivial
  | raise e => trivial
  | call op k ih =>
    refine ⟨fun collection h => ?_, ih⟩
    change (if op.writes then some Collection.cluster else none) = some collection at h
    split at h
    · cases h
      exact hcluster
    · cases h

theorem readOnly_onCluster {p : ClusterProg α} (h : ReadsOnly p) : WritesOnly P (onCluster p) := by
  apply All.lift
  refine h.mono fun op hop collection h => ?_
  change (if op.writes then some Collection.cluster else none) = some collection at h
  rw [if_neg (by simp [hop])] at h
  cases h

/-! ### What only reads -/

theorem readOnly_sectionsOf (number : Option Nat) : WritesOnly P (sectionsOf number) := by
  cases number with
  | none => trivial
  | some number =>
    refine All.bind (readOnly_perform rfl) fun found => ?_
    cases found <;> trivial

theorem readOnly_latestSections : WritesOnly P latestSections :=
  All.bind (readOnly_perform rfl) fun _ => All.bind (readOnly_sectionsOf _) fun _ => trivial

theorem readOnly_deriveFromLatest : WritesOnly P deriveFromLatest :=
  All.bind readOnly_latestSections fun _ => trivial

theorem readOnly_loadCandidate : WritesOnly P loadCandidate := by
  refine All.bind (readOnly_perform rfl) fun found => ?_
  cases found with
  | some _ => trivial
  | none => exact readOnly_deriveFromLatest

theorem readOnly_rederived (baseSnapshot : Option Nat) : WritesOnly P (rederived baseSnapshot) := by
  cases baseSnapshot with
  | none => exact readOnly_deriveFromLatest
  | some number => exact All.bind (readOnly_sectionsOf _) fun _ => trivial

theorem readOnly_snapshotSections (number : Nat) : WritesOnly P (snapshotSections number) := by
  refine All.bind (readOnly_perform rfl) fun found => ?_
  cases found with
  | none => trivial
  | some _ => exact readOnly_sectionsOf _

theorem readOnly_freezeAdminValues : WritesOnly P (freezeAdminValues app) :=
  All.bind (All.bind (readOnly_perform rfl) fun _ => trivial) fun _ => trivial

theorem readOnly_desiredAndBaseline (kind : EngineKind) : WritesOnly P (desiredAndBaseline kind) := by
  cases kind with
  | operator =>
    exact All.bind readOnly_loadCandidate fun _ => All.bind (readOnly_sectionsOf _) fun _ => trivial
  | admin => exact All.bind readOnly_latestSections fun _ => trivial

theorem readOnly_mutationsEnabled : WritesOnly P mutationsEnabled := by
  refine All.bind (readOnly_perform rfl) fun state => ?_
  show WritesOnly P (if state.engaged then _ else _)
  split <;> trivial

theorem readOnly_refuseInFlight (text : ApplyRecord → String) :
    WritesOnly P (refuseInFlight text) := by
  refine All.bind (readOnly_perform rfl) fun found => ?_
  cases found <;> trivial

theorem readOnly_operatorMutationAllowed : WritesOnly P operatorMutationAllowed :=
  All.bind readOnly_mutationsEnabled fun _ => readOnly_refuseInFlight _

theorem readOnly_currentDiscovery : WritesOnly P currentDiscovery := by
  refine All.bind (readOnly_perform rfl) fun found => ?_
  cases found <;> trivial

theorem readOnly_refuseIf (refused : Bool) (kind text : String) :
    WritesOnly P (refuseIf refused kind text) := by
  cases refused <;> trivial

theorem readOnly_unseeded (contents : List (String × Dict)) : WritesOnly P (unseeded contents) := by
  induction contents with
  | nil => trivial
  | cons secret rest ih => exact All.bind (readOnly_perform rfl) fun _ => All.bind ih fun _ => trivial

theorem readOnly_admitAdoption (through : Option Nat) : WritesOnly P (admitAdoption app through) :=
  All.bind (readOnly_perform rfl) fun _ => All.bind (readOnly_refuseIf _ _ _) fun _ =>
    All.bind (readOnly_perform rfl) fun _ => All.bind (readOnly_refuseIf _ _ _) fun _ =>
      All.bind (readOnly_refuseInFlight _) fun _ => All.bind readOnly_currentDiscovery fun _ =>
        All.bind (readOnly_refuseIf _ _ _) fun _ => All.bind (readOnly_perform rfl) fun _ =>
          All.bind (readOnly_refuseIf _ _ _) fun _ => All.bind (all_ofExcept _) fun _ =>
            All.bind (readOnly_unseeded _) fun _ => All.bind (readOnly_refuseIf _ _ _) fun _ => trivial

theorem readOnly_effect (candidate : Candidate) (cluster : Cluster) (number : Nat)
    (sections : List SectionName) (othersStayAt : Option Nat) (summaryFor : String) :
    WritesOnly P (effect app candidate cluster number sections othersStayAt summaryFor) :=
  All.bind (readOnly_sectionsOf _) fun _ => All.bind (readOnly_onCluster (costOf_reads _ _ _ _)) fun _ =>
    trivial

theorem readOnly_review : WritesOnly P (review app) :=
  All.bind readOnly_freezeAdminValues fun _ => All.bind readOnly_loadCandidate fun _ =>
    All.bind (readOnly_sectionsOf _) fun _ =>
      All.bind (readOnly_onCluster (costOf_reads _ _ _ _)) fun _ => trivial

theorem readOnly_validate (kind : EngineKind) : WritesOnly P (validate app kind) :=
  All.bind (readOnly_perform rfl) fun _ => All.bind readOnly_freezeAdminValues fun _ =>
    All.bind (readOnly_desiredAndBaseline kind) fun _ =>
      All.bind (readOnly_onCluster (sectionsNeedingRollout_reads _ _ _ _)) fun _ =>
        All.bind (readOnly_onCluster (rawChanged_reads _ _)) fun _ =>
          All.bind (readOnly_perform rfl) fun _ => trivial

/-! ### What writes the stores -/

/-- The requests that save Admin values. -/
def Request.savesAdmin : Request → Bool
  | adopt .. | editAdmin .. | importConfiguration .. => true
  | _ => false

theorem writes_seedCluster (hcluster : P .cluster) : WritesOnly P (seedCluster app) := by
  refine All.bind readOnly_currentDiscovery fun stored => All.bind (readOnly_refuseIf _ _ _) fun _ =>
    All.bind (all_ofExcept _) fun contents => All.bind (all_each fun secret _ => ?_) fun _ =>
      All.bind (readOnly_perform rfl) fun _ => All.bind (readOnly_perform rfl) fun _ => trivial
  refine All.bind (readOnly_perform rfl) fun before => ?_
  show WritesOnly P (if before = some secret.2 then _ else _)
  split
  · trivial
  · exact writes_perform rfl hcluster

section stores

variable (haudit : P .audit)

include haudit

theorem writes_audited (event : AuditEvent) : WritesOnly P (audited event) := by
  refine All.bind (writes_perform rfl haudit).attempt fun r => ?_
  cases r with
  | ok _ => trivial
  | error e =>
    show WritesOnly P (if isPyMongoError e then _ else _)
    split <;> trivial

theorem writes_recordEach (events : List AuditEvent) : WritesOnly P (recordEach events) := by
  unfold recordEach
  split
  · trivial
  · exact writes_perform rfl haudit

theorem writes_saveAdmin (hadmin : P .admin) (hprevious : P .adminPrevious) (actor : String)
    (values : AdminValues) : WritesOnly P (saveAdmin actor values) :=
  All.bind (writes_perform rfl hadmin) fun _ => All.bind (writes_perform rfl hprevious) fun _ =>
    All.bind (writes_recordEach haudit _) fun _ => trivial

theorem writes_saveCandidate (hcandidate : P .candidate) (actor : String)
    (candidate : Candidate) : WritesOnly P (saveCandidate actor candidate) :=
  All.bind (writes_perform rfl hcandidate) fun _ => writes_recordEach haudit _

theorem writes_saveCandidateAs (hcandidate : P .candidate) (actor category action : String)
    (detail : Option String) (candidate : Candidate) :
    WritesOnly P (saveCandidateAs actor category action detail candidate) :=
  All.bind (writes_perform rfl hcandidate) fun _ => writes_perform rfl haudit

theorem writes_engage (hmaintenance : P .maintenance) (actor reason : String) (by' : EngagedBy) :
    WritesOnly P (engage actor reason by') :=
  All.bind (writes_perform rfl hmaintenance) fun _ => writes_audited haudit _

theorem writes_setMaintenanceMode (hmaintenance : P .maintenance) (actor : String)
    (engaged : Bool) (reason : Option String) :
    WritesOnly P (setMaintenanceMode actor engaged reason) := by
  unfold setMaintenanceMode
  split
  · exact writes_engage haudit hmaintenance _ _ _
  · exact All.bind (writes_perform rfl hmaintenance) fun _ => writes_audited haudit _

/-- A request that starts no Apply and saves no Admin values writes no record, no Snapshot and no
Admin document. -/
theorem writes_serve_of_not_savesAdmin (hcluster : P .cluster) (hmaintenance : P .maintenance)
    (hcandidate : P .candidate) (request : Request) (h : request.uuid = none)
    (hsaves : request.savesAdmin = false) : WritesOnly P (request.serve app) := by
  have hsaveAs (category action : String) (detail : Option String) (actor : String)
      (candidate : Candidate) :=
    writes_saveCandidateAs haudit hcandidate actor category action detail candidate
  cases request with
  | startApply uuid actor => cases h
  | startAdminApply uuid actor => cases h
  | adopt uuid actor through => cases h
  | editAdmin actor change => cases hsaves
  | importConfiguration actor sections admin => cases hsaves
  | seed => exact writes_seedCluster hcluster
  | editCandidate actor change =>
    exact All.bind readOnly_operatorMutationAllowed fun _ => All.bind readOnly_loadCandidate fun _ =>
      All.bind (all_ofExcept _) fun _ => writes_saveCandidate haudit hcandidate _ _
  | discardCandidate actor =>
    exact All.bind readOnly_operatorMutationAllowed fun _ => All.bind readOnly_loadCandidate fun _ =>
      All.bind (All.bind (readOnly_rederived _) fun _ => All.bind (hsaveAs _ _ _ _ _) fun _ =>
        trivial) fun _ => trivial
  | importCandidate actor sections =>
    exact All.bind readOnly_operatorMutationAllowed fun _ =>
      All.bind (All.bind (readOnly_perform rfl) fun _ => All.bind (hsaveAs _ _ _ _ _) fun _ =>
        trivial) fun _ => trivial
  | setMaintenanceMode actor engaged reason =>
    exact writes_setMaintenanceMode haudit hmaintenance _ _ _
  | review => exact All.bind readOnly_review fun _ => trivial
  | sectionRevert actor name number =>
    exact All.bind (All.bind readOnly_operatorMutationAllowed fun _ =>
      All.bind readOnly_freezeAdminValues fun _ => All.bind (readOnly_snapshotSections _) fun _ =>
        All.bind readOnly_loadCandidate fun _ => All.bind (hsaveAs _ _ _ _ _) fun _ =>
          readOnly_effect _ _ _ _ _ _) fun _ => trivial
  | fullRollback actor number =>
    exact All.bind (All.bind readOnly_operatorMutationAllowed fun _ =>
      All.bind readOnly_freezeAdminValues fun _ => All.bind (readOnly_snapshotSections _) fun _ =>
        All.bind readOnly_loadCandidate fun _ => All.bind (hsaveAs _ _ _ _ _) fun _ =>
          readOnly_effect _ _ _ _ _ _) fun _ => trivial

/-- A request that starts no Apply writes no record and no Snapshot. -/
theorem writes_serve (hcluster : P .cluster) (hmaintenance : P .maintenance) (hadmin : P .admin)
    (hprevious : P .adminPrevious) (hcandidate : P .candidate) (request : Request)
    (h : request.uuid = none) : WritesOnly P (request.serve app) := by
  cases request with
  | adopt uuid actor through => cases h
  | editAdmin actor change =>
    exact All.bind readOnly_mutationsEnabled fun _ =>
      All.bind (All.bind (readOnly_perform rfl) fun _ => trivial) fun _ =>
        All.bind (all_ofExcept _) fun _ =>
          All.bind (writes_saveAdmin haudit hadmin hprevious _ _) fun _ => trivial
  | importConfiguration actor sections admin =>
    exact All.bind readOnly_mutationsEnabled fun _ =>
      All.bind (All.bind (readOnly_perform rfl) fun _ => All.bind (writes_saveCandidateAs haudit hcandidate _ _ _ _ _) fun _ =>
        trivial) fun _ => All.bind (writes_saveAdmin haudit hadmin hprevious _ _) fun _ => trivial
  | _ => exact writes_serve_of_not_savesAdmin haudit hcluster hmaintenance hcandidate _ h rfl

/-- Nor does any request before it has a record. -/
theorem writes_opening (hcluster : P .cluster) (hmaintenance : P .maintenance) (hadmin : P .admin)
    (hprevious : P .adminPrevious) (hcandidate : P .candidate) (request : Request) :
    WritesOnly P (request.opening app) := by
  have hserved (h : request.uuid = none) :
      WritesOnly P ((request.serve app).bind fun _ => Prog.ret (none : Option Nat)) :=
    All.bind (writes_serve haudit hcluster hmaintenance hadmin hprevious hcandidate request h)
      fun _ => trivial
  cases request with
  | startApply uuid actor =>
    exact All.bind readOnly_mutationsEnabled fun _ => All.bind (readOnly_refuseInFlight _) fun _ =>
      All.bind readOnly_loadCandidate fun _ => trivial
  | startAdminApply uuid actor =>
    exact All.bind readOnly_mutationsEnabled fun _ => All.bind (readOnly_refuseInFlight _) fun _ =>
      All.bind (readOnly_perform rfl) fun _ => trivial
  | adopt uuid actor through =>
    exact All.bind (readOnly_admitAdoption _) fun _ =>
      All.bind (writes_saveAdmin haudit hadmin hprevious _ _) fun _ =>
        All.bind readOnly_loadCandidate fun _ =>
          All.bind (writes_saveCandidate haudit hcandidate _ _) fun _ => trivial
  | _ => exact hserved rfl

end stores

/-! ### What an Apply writes -/

section apply

variable {id : String}

theorem writes_rollBack_operator (hcluster : P .cluster) : WritesOnly P (rollBack app .operator) :=
  All.bind readOnly_freezeAdminValues fun _ => All.bind readOnly_latestSections fun _ =>
    writes_onCluster hcluster _

/-- Only an Admin Apply puts the Admin values back. -/
theorem writes_rollBack (hcluster : P .cluster) {kind : EngineKind}
    (hadmin : kind = .admin → P .admin) : WritesOnly P (rollBack app kind) := by
  cases kind with
  | operator => exact writes_rollBack_operator hcluster
  | admin =>
    exact All.bind (All.bind (readOnly_perform rfl) fun _ => All.bind (writes_perform rfl (hadmin rfl))
      fun _ => trivial) fun _ => All.bind readOnly_latestSections fun _ =>
        All.bind (writes_onCluster hcluster _) fun _ => writes_onCluster hcluster _

theorem readOnly_alert (reason : String) : WritesOnly P (alert app id reason) := by
  unfold alert
  split
  · trivial
  · split
    · trivial
    · exact All.bind (readOnly_perform rfl).attempt fun _ => trivial

variable {kind : EngineKind} (haudit : P .audit) (happlies : P .applies) (hcluster : P .cluster)
  (hadmin : kind = .admin → P .admin) (hmaintenance : P .maintenance)

include haudit happlies hcluster hadmin hmaintenance

theorem writes_rollBackApply (reason : String) :
    WritesOnly P (rollBackApply app kind id reason) := by
  refine All.bind (writes_perform rfl happlies) fun _ =>
    All.bind (writes_rollBack hcluster hadmin).attempt fun r => ?_
  cases r with
  | error e =>
    exact All.bind (writes_perform rfl happlies) fun _ =>
      All.bind (All.bind (writes_engage haudit hmaintenance _ _ _) fun _ => readOnly_alert _) fun _ =>
        All.bind (All.bind (writes_perform rfl happlies) fun _ => writes_perform rfl happlies)
          fun _ => writes_audited haudit _
  | ok _ =>
    exact All.bind (writes_perform rfl happlies) fun _ =>
      All.bind (All.bind (writes_perform rfl happlies) fun _ => writes_perform rfl happlies)
        fun _ => writes_audited haudit _

/-- What an Apply that fails does about it writes neither the Candidate nor a Snapshot. -/
theorem writes_failedIn (actor : String) (reached : Stage) (e : Error) :
    WritesOnly P (failedIn app kind id actor reached e) := by
  refine All.bind (writes_audited haudit _) fun _ => ?_
  show WritesOnly P (if ROLLED_BACK_FROM.contains reached then _ else _)
  split
  · exact writes_rollBackApply haudit happlies hcluster hadmin hmaintenance _
  · exact All.bind (writes_perform rfl happlies) fun _ => writes_perform rfl happlies

omit hcluster hadmin hmaintenance in
theorem writes_commitStage {actor : String} {prepared : Prepared}
    (hcommit : WritesOnly P (commit id actor prepared kind)) :
    WritesOnly P (commitStage kind id actor prepared) := by
  have hsucceed (snapshot : Option Nat) : WritesOnly P (do
      call (.pushStage id .succeeded none)
      audited (applyEvent kind actor id "applied" "succeeded" snapshot none)) :=
    All.bind (writes_perform rfl happlies) fun _ => writes_audited haudit _
  refine All.bind (writes_perform rfl happlies) fun _ => All.bind hcommit fun snapshot => ?_
  cases snapshot with
  | none => exact hsucceed none
  | some number => exact All.bind (writes_perform rfl happlies) fun _ => hsucceed (some number)

omit hadmin hmaintenance in
/-- The stages of an Apply write besides what its engine commits. -/
theorem writes_runStages {actor : String}
    (hcommit : ∀ prepared, WritesOnly P (commit id actor prepared kind)) :
    WritesOnly P (runStages app kind id actor).run := by
  have hstage (stage : Stage) (p : ClusterProg Unit) : WritesOnly P (inStage stage do
      call (.pushStage id stage none)
      onCluster p).run :=
    all_inStage (All.bind (writes_perform rfl happlies) fun _ => writes_onCluster hcluster p)
  have hcommitting (prepared : Prepared) :
      WritesOnly P (inStage .committing (commitStage kind id actor prepared)).run :=
    all_inStage (writes_commitStage haudit happlies (hcommit prepared))
  refine all_staged (all_inStage ?_) fun prepared => all_staged (hstage _ _) fun _ => ?_
  · exact All.bind (readOnly_validate kind) fun _ =>
      All.bind (writes_perform rfl happlies) fun _ => trivial
  · split
    · exact all_staged (hstage _ _) fun _ => all_staged (hstage _ _) fun _ => hcommitting prepared
    · exact all_staged (hstage _ _) fun _ => hcommitting prepared

/-- And so does the Apply. -/
theorem writes_runApply {actor : String}
    (hcommit : ∀ prepared, WritesOnly P (commit id actor prepared kind)) :
    WritesOnly P (runApply app kind id actor) := by
  refine All.bind (writes_runStages haudit happlies hcluster hcommit) fun r => ?_
  rcases r with ⟨reached, e⟩ | u
  · exact writes_failedIn haudit happlies hcluster hadmin hmaintenance actor reached e
  · trivial

omit hadmin in
/-- So does a turn of recovery, which rolls back as an Operator Apply does. -/
theorem writes_recoverNext : WritesOnly P (recoverNext app) := by
  refine All.bind (readOnly_perform rfl) fun found => ?_
  cases found with
  | none => trivial
  | some record =>
    refine All.bind (All.bind (writes_perform rfl happlies) fun _ => All.bind (All.bind
      (writes_perform rfl happlies) fun _ => writes_perform rfl happlies) fun _ =>
        All.bind (writes_audited haudit _) fun _ => ?_) fun _ => trivial
    show WritesOnly P (if ROLLED_BACK_FROM.contains record.stage then _ else _)
    split
    · refine All.bind (writes_rollBack_operator hcluster).attempt fun r => ?_
      cases r with
      | error e =>
        exact All.bind (writes_perform rfl happlies) fun _ =>
          All.bind (All.bind (writes_engage haudit hmaintenance _ _ _) fun _ => readOnly_alert _)
            fun _ => All.bind (writes_perform rfl happlies) fun _ => writes_perform rfl happlies
      | ok _ => exact writes_perform rfl happlies
    · trivial

end apply

end Apchi.Pipeline
