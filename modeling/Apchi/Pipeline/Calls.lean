import Apchi.Pipeline.Service

/-!
# Which calls the pipeline's programs make

Each call is of one kind: it reads or writes the Cluster, changes the record of one Apply, inserts
one, sets Maintenance Mode, or touches another store.  For each program it is said once of which
kinds its calls are; what the kinds leave alone then holds of every program made of them.
-/

namespace Apchi.Pipeline

open Lib Prog

/-- What a call touches. -/
inductive CallKind where
  | clusterRead
  | clusterWrite
  | apply (id : String)
  | insert (id : String)
  | maintenance
  | store
  deriving DecidableEq, Repr

/-- The kind of a call. -/
def Call.kind {β : Type} : Call β → CallKind
  | .cluster call => if call.writes then .clusterWrite else .clusterRead
  | .insertApply record => .insert record.id
  | .pushStage id .. | .setFailureReason id .. | .setInterrupted id | .setRollback id _
  | .setWarnings id _ | .setSnapshot id _ | .setIncident id .. => .apply id
  | .replaceMaintenance _ => .maintenance
  | _ => .store

variable {app : App} {P : CallKind → Prop} {α : Type}

/-- The calls of a program are of these kinds. -/
abbrev OfKind (P : CallKind → Prop) (p : PipelineProg α) : Prop := p.All fun c => P c.kind

/-! ### The Cluster -/

theorem ofKind_onCluster (hread : P .clusterRead) (hwrite : P .clusterWrite) (p : ClusterProg α) :
    OfKind P (onCluster p) := by
  apply All.lift
  induction p with
  | ret a => trivial
  | raise e => trivial
  | call op k ih =>
    refine ⟨?_, ih⟩
    show P (if op.writes then _ else _)
    split
    · exact hwrite
    · exact hread

theorem ofKind_onCluster_reads (hread : P .clusterRead) {p : ClusterProg α} (h : ReadsOnly p) :
    OfKind P (onCluster p) := by
  apply All.lift
  refine h.mono fun op hop => ?_
  show P (if op.writes then _ else _)
  rw [if_neg (by simp [hop])]
  exact hread

/-! ### The stores -/

section store

variable (hstore : P .store)

include hstore

theorem ofKind_audited (event : AuditEvent) : OfKind P (audited event) := by
  refine All.bind (all_perform hstore).attempt fun r => ?_
  cases r with
  | ok _ => trivial
  | error e =>
    show OfKind P (if isPyMongoError e then _ else _)
    split <;> trivial

theorem ofKind_recordEach (events : List AuditEvent) : OfKind P (recordEach events) := by
  unfold recordEach
  split
  · trivial
  · exact all_perform hstore

theorem ofKind_sectionsOf (number : Option Nat) : OfKind P (sectionsOf number) := by
  cases number with
  | none => trivial
  | some number =>
    refine All.bind (all_perform hstore) fun found => ?_
    cases found <;> trivial

theorem ofKind_snapshotSections (number : Nat) : OfKind P (snapshotSections number) := by
  refine All.bind (all_perform hstore) fun found => ?_
  cases found with
  | none => trivial
  | some _ => exact ofKind_sectionsOf hstore _

theorem ofKind_latestSections : OfKind P latestSections :=
  All.bind (all_perform hstore) fun _ =>
    All.bind (ofKind_sectionsOf hstore _) fun _ => trivial

theorem ofKind_deriveFromLatest : OfKind P deriveFromLatest :=
  All.bind (ofKind_latestSections hstore) fun _ => trivial

theorem ofKind_loadCandidate : OfKind P loadCandidate := by
  refine All.bind (all_perform hstore) fun found => ?_
  cases found with
  | some _ => trivial
  | none => exact ofKind_deriveFromLatest hstore

theorem ofKind_saveCandidate (actor : String) (candidate : Candidate) :
    OfKind P (saveCandidate actor candidate) :=
  All.bind (all_perform hstore) fun _ => ofKind_recordEach hstore _

theorem ofKind_saveCandidateAs (actor category action : String) (detail : Option String)
    (candidate : Candidate) :
    OfKind P (saveCandidateAs actor category action detail candidate) :=
  All.bind (all_perform hstore) fun _ => all_perform hstore

theorem ofKind_rederived (baseSnapshot : Option Nat) : OfKind P (rederived baseSnapshot) := by
  cases baseSnapshot with
  | none => exact ofKind_deriveFromLatest hstore
  | some number => exact All.bind (ofKind_sectionsOf hstore _) fun _ => trivial

theorem ofKind_resetCandidate (actor : String) (baseSnapshot : Option Nat) :
    OfKind P (resetCandidate actor baseSnapshot) :=
  All.bind (ofKind_rederived hstore _) fun _ =>
    All.bind (ofKind_saveCandidateAs hstore _ _ _ _ _) fun _ => trivial

theorem ofKind_replaceCandidate (actor : String) (sections : Sections) :
    OfKind P (replaceCandidate actor sections) :=
  All.bind (all_perform hstore) fun _ =>
    All.bind (ofKind_saveCandidateAs hstore _ _ _ _ _) fun _ => trivial

theorem ofKind_commitSnapshot (sections : Sections) (applyId : String) :
    OfKind P (commitSnapshot sections applyId) :=
  All.bind (all_perform hstore) fun _ => All.bind (all_perform hstore) fun _ => trivial

theorem ofKind_recordHighWater (number : Nat) : OfKind P (recordHighWater number) := by
  refine All.bind (all_perform hstore) fun found => ?_
  cases found with
  | none => exact all_perform hstore
  | some current =>
    show OfKind P (if number ≤ current then _ else _)
    split
    · trivial
    · exact all_perform hstore

theorem ofKind_loadAdmin : OfKind P loadAdmin := All.bind (all_perform hstore) fun _ => trivial

theorem ofKind_saveAdmin (actor : String) (values : AdminValues) :
    OfKind P (saveAdmin actor values) :=
  All.bind (all_perform hstore) fun _ => All.bind (all_perform hstore) fun _ =>
    All.bind (ofKind_recordEach hstore _) fun _ => trivial

theorem ofKind_restorePrevious : OfKind P restorePrevious :=
  All.bind (all_perform hstore) fun _ => All.bind (all_perform hstore) fun _ => trivial

theorem ofKind_freezeAdminValues : OfKind P (freezeAdminValues app) :=
  All.bind (ofKind_loadAdmin hstore) fun _ => trivial

theorem ofKind_desiredAndBaseline (kind : EngineKind) : OfKind P (desiredAndBaseline kind) := by
  cases kind with
  | operator =>
    exact All.bind (ofKind_loadCandidate hstore) fun _ =>
      All.bind (ofKind_sectionsOf hstore _) fun _ => trivial
  | admin => exact All.bind (ofKind_latestSections hstore) fun _ => trivial

theorem ofKind_commit (applyId actor : String) (prepared : Prepared) (kind : EngineKind) :
    OfKind P (commit applyId actor prepared kind) := by
  cases kind with
  | operator =>
    exact All.bind (ofKind_commitSnapshot hstore _ _) fun _ =>
      All.bind (ofKind_recordHighWater hstore _).attempt fun _ =>
        All.bind (ofKind_resetCandidate hstore _ _) fun _ => trivial
  | admin => trivial

theorem ofKind_alert (applyId reason : String) : OfKind P (alert app applyId reason) := by
  unfold alert
  split
  · trivial
  · split
    · trivial
    · exact All.bind (all_perform hstore).attempt fun _ => trivial

theorem ofKind_mutationsEnabled : OfKind P mutationsEnabled := by
  refine All.bind (all_perform hstore) fun state => ?_
  show OfKind P (if state.engaged then _ else _)
  split <;> trivial

theorem ofKind_refuseInFlight (text : ApplyRecord → String) : OfKind P (refuseInFlight text) := by
  refine All.bind (all_perform hstore) fun found => ?_
  cases found <;> trivial

theorem ofKind_operatorMutationAllowed : OfKind P operatorMutationAllowed :=
  All.bind (ofKind_mutationsEnabled hstore) fun _ => ofKind_refuseInFlight hstore _

end store

theorem ofKind_engage (hstore : P .store) (hmaintenance : P .maintenance) (actor reason : String)
    (by' : EngagedBy) : OfKind P (engage actor reason by') :=
  All.bind (all_perform hmaintenance) fun _ => ofKind_audited hstore _

theorem ofKind_release (hstore : P .store) (hmaintenance : P .maintenance) (actor : String) :
    OfKind P (release actor) :=
  All.bind (all_perform hmaintenance) fun _ => ofKind_audited hstore _

theorem ofKind_setMaintenanceMode (hstore : P .store) (hmaintenance : P .maintenance)
    (actor : String) (engaged : Bool) (reason : Option String) :
    OfKind P (setMaintenanceMode actor engaged reason) := by
  unfold setMaintenanceMode
  split
  · exact ofKind_engage hstore hmaintenance _ _ _
  · exact ofKind_release hstore hmaintenance _

theorem ofKind_declareIncident (hstore : P .store) (hmaintenance : P .maintenance)
    (applyId reason : String) : OfKind P (declareIncident app applyId reason) :=
  All.bind (ofKind_engage hstore hmaintenance _ _ _) fun _ => ofKind_alert hstore _ _

theorem ofKind_failApply {id : String} (happly : P (.apply id)) (reason : String) :
    OfKind P (failApply id reason) :=
  All.bind (all_perform happly) fun _ => all_perform happly

theorem ofKind_recordIncident {id : String} (happly : P (.apply id)) (reason message : String) :
    OfKind P (recordIncident id reason message) :=
  All.bind (all_perform happly) fun _ => all_perform happly

/-- What follows the insertion of a record goes on with the uuid it was inserted under. -/
theorem ofKind_createApply {uuid : String} (hinsert : P (.insert uuid)) (base : Option Nat)
    {f : ApplyRecord → PipelineProg α} (hf : ∀ record, record.id = uuid → OfKind P (f record)) :
    OfKind P (createApply uuid base >>= f) := by
  show OfKind P (Prog.bind (Prog.bind (Prog.perform _) fun _ => Prog.ret _) f)
  rw [bind_assoc]
  exact All.bind (all_perform hinsert) fun _ => hf _ rfl

/-! ### The engines and the runner -/

section engine

variable (hstore : P .store) (hread : P .clusterRead) (hwrite : P .clusterWrite)

include hstore hread hwrite

theorem ofKind_validate (kind : EngineKind) : OfKind P (validate app kind) :=
  All.bind (all_perform hstore) fun _ =>
    All.bind (ofKind_freezeAdminValues hstore) fun _ =>
      All.bind (ofKind_desiredAndBaseline hstore kind) fun _ =>
        All.bind (ofKind_onCluster hread hwrite _) fun _ =>
          All.bind (ofKind_onCluster hread hwrite _) fun _ =>
            All.bind (all_perform hstore) fun _ => trivial

theorem ofKind_rollBack (kind : EngineKind) : OfKind P (rollBack app kind) := by
  cases kind with
  | operator =>
    exact All.bind (ofKind_freezeAdminValues hstore) fun _ =>
      All.bind (ofKind_latestSections hstore) fun _ => ofKind_onCluster hread hwrite _
  | admin =>
    exact All.bind (ofKind_restorePrevious hstore) fun _ =>
      All.bind (ofKind_latestSections hstore) fun _ =>
        All.bind (ofKind_onCluster hread hwrite _) fun _ => ofKind_onCluster hread hwrite _

end engine

/-! ### The runner, recovery and the requests -/

theorem all_inStage {Q : {β : Type} → Call β → Prop} {stage : Stage} {p : PipelineProg α}
    (h : p.All Q) : (inStage stage p).run.All Q := by
  refine All.bind h.attempt fun r => ?_
  cases r <;> trivial

theorem all_staged {Q : {β : Type} → Call β → Prop} {β : Type} {p : Staged α} {f : α → Staged β}
    (hp : p.run.All Q) (hf : ∀ a, (f a).run.All Q) : (p >>= f).run.All Q := by
  refine All.bind hp fun r => ?_
  cases r with
  | ok a => exact hf a
  | error e => trivial

theorem ofKind_commitStage {id : String} (hstore : P .store) (happly : P (.apply id))
    (kind : EngineKind) (actor : String) (prepared : Prepared) :
    OfKind P (commitStage kind id actor prepared) := by
  refine All.bind (all_perform happly) fun _ =>
    All.bind (ofKind_commit hstore _ _ _ _) fun snapshot => ?_
  cases snapshot with
  | none => exact All.bind (all_perform happly) fun _ => ofKind_audited hstore _
  | some number =>
    exact All.bind (all_perform happly) fun _ =>
      All.bind (all_perform happly) fun _ => ofKind_audited hstore _

section runner

variable {id : String} (hstore : P .store) (hread : P .clusterRead) (hwrite : P .clusterWrite)
  (happly : P (.apply id)) (hmaintenance : P .maintenance)

include hstore hread hwrite happly

theorem ofKind_runStages (kind : EngineKind) (actor : String) :
    OfKind P (runStages app kind id actor).run := by
  have hadvance (stage : Stage) : OfKind P (call (.pushStage id stage none)) := all_perform happly
  refine all_staged (all_inStage ?_) fun prepared =>
    all_staged (all_inStage ?_) fun _ => ?_
  · exact All.bind (ofKind_validate hstore hread hwrite kind) fun _ =>
      All.bind (all_perform happly) fun _ => trivial
  · exact All.bind (hadvance _) fun _ => ofKind_onCluster hread hwrite _
  have hrest : OfKind P (inStage .verifying do
      call (.pushStage id .verifying none)
      onCluster (verifyStage app prepared)).run :=
    all_inStage (All.bind (hadvance _) fun _ => ofKind_onCluster hread hwrite _)
  have hcommit : OfKind P (inStage .committing (commitStage kind id actor prepared)).run :=
    all_inStage (ofKind_commitStage hstore happly kind actor prepared)
  split
  · exact all_staged
      (all_inStage (All.bind (hadvance _) fun _ => ofKind_onCluster hread hwrite _)) fun _ =>
        all_staged hrest fun _ => hcommit
  · exact all_staged hrest fun _ => hcommit

include hmaintenance

theorem ofKind_rollBackApply (kind : EngineKind) (reason : String) :
    OfKind P (rollBackApply app kind id reason) := by
  refine All.bind (all_perform happly) fun _ =>
    All.bind (ofKind_rollBack hstore hread hwrite kind).attempt fun r => ?_
  cases r with
  | error e =>
    exact All.bind (all_perform happly) fun _ =>
      All.bind (ofKind_declareIncident hstore hmaintenance _ _) fun _ =>
        All.bind (ofKind_recordIncident happly _ _) fun _ => ofKind_audited hstore _
  | ok _ =>
    exact All.bind (all_perform happly) fun _ =>
      All.bind (ofKind_failApply happly _) fun _ => ofKind_audited hstore _

theorem ofKind_runApply (kind : EngineKind) (actor : String) :
    OfKind P (runApply app kind id actor) := by
  refine All.bind (ofKind_runStages hstore hread hwrite happly kind actor) fun r => ?_
  cases r with
  | ok _ => trivial
  | error failed =>
    obtain ⟨reached, e⟩ := failed
    refine All.bind (ofKind_audited hstore _) fun _ => ?_
    show OfKind P (if ROLLED_BACK_FROM.contains reached then _ else _)
    split
    · exact ofKind_rollBackApply hstore hread hwrite happly hmaintenance kind _
    · exact ofKind_failApply happly _

theorem ofKind_restoreAfterInterruption : OfKind P (restoreAfterInterruption app id) := by
  refine All.bind (ofKind_rollBack hstore hread hwrite _).attempt fun r => ?_
  cases r with
  | error e =>
    exact All.bind (all_perform happly) fun _ =>
      All.bind (ofKind_declareIncident hstore hmaintenance _ _) fun _ =>
        ofKind_recordIncident happly _ _
  | ok _ => exact all_perform happly

end runner

section requests

theorem ofKind_refuseIf (refused : Bool) (kind text : String) :
    OfKind P (refuseIf refused kind text) := by
  cases refused <;> trivial

theorem ofKind_costOf (hread : P .clusterRead) (plans : Section → SectionPlan)
    (desired : Sections) (cluster : Cluster) :
    OfKind P (onCluster (costOf app plans desired cluster)) :=
  ofKind_onCluster_reads hread (costOf_reads _ _ _ _)

theorem ofKind_unseeded (hread : P .clusterRead) (contents : List (String × Dict)) :
    OfKind P (unseeded contents) := by
  induction contents with
  | nil => trivial
  | cons secret rest ih =>
    exact All.bind (all_perform hread) fun _ => All.bind ih fun _ => trivial

variable (hstore : P .store)

include hstore

theorem ofKind_currentDiscovery : OfKind P currentDiscovery := by
  refine All.bind (all_perform hstore) fun found => ?_
  cases found <;> trivial

theorem ofKind_editAdmin (actor : String) (change : AdminValues → Except Error AdminValues) :
    OfKind P (editAdmin actor change) :=
  All.bind (ofKind_mutationsEnabled hstore) fun _ =>
    All.bind (ofKind_loadAdmin hstore) fun _ => All.bind (all_ofExcept _) fun _ =>
      All.bind (ofKind_saveAdmin hstore _ _) fun _ => trivial

theorem ofKind_editCandidate (actor : String) (change : Sections → Except Error Sections) :
    OfKind P (editCandidate actor change) :=
  All.bind (ofKind_operatorMutationAllowed hstore) fun _ =>
    All.bind (ofKind_loadCandidate hstore) fun _ => All.bind (all_ofExcept _) fun _ =>
      ofKind_saveCandidate hstore _ _

theorem ofKind_discardCandidate (actor : String) : OfKind P (discardCandidate actor) :=
  All.bind (ofKind_operatorMutationAllowed hstore) fun _ =>
    All.bind (ofKind_loadCandidate hstore) fun _ =>
      All.bind (ofKind_resetCandidate hstore _ _) fun _ => trivial

theorem ofKind_importCandidate (actor : String) (sections : Sections) :
    OfKind P (importCandidate actor sections) :=
  All.bind (ofKind_operatorMutationAllowed hstore) fun _ =>
    All.bind (ofKind_replaceCandidate hstore _ _) fun _ => trivial

theorem ofKind_importConfiguration (actor : String) (sections : Sections) (admin : AdminValues) :
    OfKind P (importConfiguration actor sections admin) :=
  All.bind (ofKind_mutationsEnabled hstore) fun _ =>
    All.bind (ofKind_replaceCandidate hstore _ _) fun _ =>
      All.bind (ofKind_saveAdmin hstore _ _) fun _ => trivial

variable (hread : P .clusterRead)

include hread

theorem ofKind_admitAdoption (discardHistoryThrough : Option Nat) :
    OfKind P (admitAdoption app discardHistoryThrough) := by
  have hrefuse := @ofKind_refuseIf P
  refine All.bind (all_perform hstore) fun latest => All.bind (hrefuse _ _ _) fun _ =>
    All.bind (all_perform hstore) fun ever => All.bind (hrefuse _ _ _) fun _ =>
      All.bind (ofKind_refuseInFlight hstore _) fun _ =>
        All.bind (ofKind_currentDiscovery hstore) fun stored => All.bind (hrefuse _ _ _) fun _ =>
          All.bind (all_perform hstore) fun outstanding => All.bind (hrefuse _ _ _) fun _ =>
            All.bind (all_ofExcept _) fun contents =>
              All.bind (ofKind_unseeded hread _) fun stale =>
                All.bind (hrefuse _ _ _) fun _ => trivial

theorem ofKind_review : OfKind P (review app) :=
  All.bind (ofKind_freezeAdminValues hstore) fun _ =>
    All.bind (ofKind_loadCandidate hstore) fun _ => All.bind (ofKind_sectionsOf hstore _) fun _ =>
      All.bind (ofKind_costOf hread _ _ _) fun _ => trivial

theorem ofKind_effect (candidate : Candidate) (cluster : Cluster) (number : Nat)
    (sections : List SectionName) (othersStayAt : Option Nat) (summaryFor : String) :
    OfKind P (effect app candidate cluster number sections othersStayAt summaryFor) :=
  All.bind (ofKind_sectionsOf hstore _) fun _ => All.bind (ofKind_costOf hread _ _ _) fun _ =>
    trivial

theorem ofKind_sectionRevert (actor : String) (name : SectionName) (number : Nat) :
    OfKind P (sectionRevert app actor name number) :=
  All.bind (ofKind_operatorMutationAllowed hstore) fun _ =>
    All.bind (ofKind_freezeAdminValues hstore) fun _ =>
      All.bind (ofKind_snapshotSections hstore _) fun _ =>
        All.bind (ofKind_loadCandidate hstore) fun _ =>
          All.bind (ofKind_saveCandidateAs hstore _ _ _ _ _) fun _ =>
            ofKind_effect hstore hread _ _ _ _ _ _

theorem ofKind_fullRollback (actor : String) (number : Nat) :
    OfKind P (fullRollback app actor number) :=
  All.bind (ofKind_operatorMutationAllowed hstore) fun _ =>
    All.bind (ofKind_freezeAdminValues hstore) fun _ =>
      All.bind (ofKind_snapshotSections hstore _) fun _ =>
        All.bind (ofKind_loadCandidate hstore) fun _ =>
          All.bind (ofKind_saveCandidateAs hstore _ _ _ _ _) fun _ =>
            ofKind_effect hstore hread _ _ _ _ _ _

variable (hwrite : P .clusterWrite)

include hwrite

theorem ofKind_seedCluster : OfKind P (seedCluster app) := by
  refine All.bind (ofKind_currentDiscovery hstore) fun stored =>
    All.bind (ofKind_refuseIf _ _ _) fun _ => All.bind (all_ofExcept _) fun contents =>
      All.bind (all_each fun secret _ => ?_) fun _ => All.bind (all_perform hread) fun _ =>
        All.bind (all_perform hstore) fun _ => trivial
  refine All.bind (all_perform hread) fun before => ?_
  show OfKind P (if before = some secret.2 then _ else _)
  split
  · trivial
  · exact all_perform hwrite

variable (hmaintenance : P .maintenance) {uuid : String} (happly : P (.apply uuid))
  (hinsert : P (.insert uuid))

include hmaintenance happly hinsert

theorem ofKind_startApply (actor : String) : OfKind P (startApply app uuid actor) := by
  refine All.bind (ofKind_mutationsEnabled hstore) fun _ =>
    All.bind (ofKind_refuseInFlight hstore _) fun _ =>
      All.bind (ofKind_loadCandidate hstore) fun _ =>
        ofKind_createApply hinsert _ fun record hid => ?_
  rw [hid]
  exact ofKind_runApply hstore hread hwrite happly hmaintenance _ _

theorem ofKind_startAdminApply (actor : String) : OfKind P (startAdminApply app uuid actor) := by
  refine All.bind (ofKind_mutationsEnabled hstore) fun _ =>
    All.bind (ofKind_refuseInFlight hstore _) fun _ =>
      All.bind (all_perform hstore) fun _ =>
        ofKind_createApply hinsert _ fun record hid => ?_
  rw [hid]
  exact ofKind_runApply hstore hread hwrite happly hmaintenance _ _

theorem ofKind_adopt (actor : String) (discardHistoryThrough : Option Nat) :
    OfKind P (adopt app uuid actor discardHistoryThrough) := by
  refine All.bind (ofKind_admitAdoption hstore hread _) fun stored =>
    All.bind (ofKind_saveAdmin hstore _ _) fun _ =>
      All.bind (ofKind_loadCandidate hstore) fun _ =>
        All.bind (ofKind_saveCandidate hstore _ _) fun _ =>
          ofKind_createApply hinsert _ fun record hid => ?_
  rw [hid]
  exact ofKind_runApply hstore hread hwrite happly hmaintenance _ _

end requests

/-- Serving a request touches the record of no Apply but the one it starts. -/
theorem ofKind_serve (hstore : P .store) (hread : P .clusterRead) (hwrite : P .clusterWrite)
    (hmaintenance : P .maintenance) (request : Request)
    (hid : ∀ uuid ∈ request.uuid, P (.apply uuid) ∧ P (.insert uuid)) :
    OfKind P (request.serve app) := by
  cases request with
  | startApply uuid actor =>
    exact ofKind_startApply hstore hread hwrite hmaintenance (hid uuid rfl).1 (hid uuid rfl).2 _
  | startAdminApply uuid actor =>
    exact ofKind_startAdminApply hstore hread hwrite hmaintenance (hid uuid rfl).1
      (hid uuid rfl).2 _
  | adopt uuid actor through =>
    exact ofKind_adopt hstore hread hwrite hmaintenance (hid uuid rfl).1 (hid uuid rfl).2 _ _
  | seed => exact ofKind_seedCluster hstore hread hwrite
  | editCandidate actor change => exact ofKind_editCandidate hstore actor change
  | discardCandidate actor => exact ofKind_discardCandidate hstore actor
  | importCandidate actor sections => exact ofKind_importCandidate hstore actor sections
  | editAdmin actor change => exact ofKind_editAdmin hstore actor change
  | importConfiguration actor sections admin =>
    exact ofKind_importConfiguration hstore actor sections admin
  | setMaintenanceMode actor engaged reason =>
    exact ofKind_setMaintenanceMode hstore hmaintenance actor engaged reason
  | review => exact All.bind (ofKind_review hstore hread) fun _ => trivial
  | sectionRevert actor name number =>
    exact All.bind (ofKind_sectionRevert hstore hread actor name number) fun _ => trivial
  | fullRollback actor number =>
    exact All.bind (ofKind_fullRollback hstore hread actor number) fun _ => trivial

end Apchi.Pipeline
