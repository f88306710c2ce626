import Apchi.Pipeline.Restore

/-!
# What Apchi keeps in MongoDB, and the calls that read and write it

Apply records, Maintenance Mode, the Admin values and their pre-image, the Candidate, the Snapshots,
the discovery and the audit history, beside the Cluster itself.  Each call is one operation on one
collection; whatever takes two of them is a program of two calls.
-/

namespace Apchi.Pipeline

open Lib

/-! ### Apply records -/

/-- Where an Apply is. -/
inductive Stage where
  | validating
  | applying
  | rollingOut
  | verifying
  | committing
  | rollingBack
  | succeeded
  | failed
  | incident
  deriving DecidableEq, Repr

namespace Stage

/-- A stage as the records spell it. -/
def value : Stage → String
  | validating => "validating"
  | applying => "applying"
  | rollingOut => "rolling_out"
  | verifying => "verifying"
  | committing => "committing"
  | rollingBack => "rolling_back"
  | succeeded => "succeeded"
  | failed => "failed"
  | incident => "incident"

end Stage

/-- An Apply in one of these is over. -/
def TERMINAL : List Stage := [.succeeded, .failed, .incident]

/-- Failing in one of these means the Cluster was touched, so Auto Rollback runs. -/
def ROLLED_BACK_FROM : List Stage := [.applying, .rollingOut, .verifying]

/-- The outcome of Auto Rollback. -/
inductive Rollback where
  | succeeded
  | failed
  deriving DecidableEq, Repr

structure StageEvent where
  stage : Stage
  detail : Option String := none
  deriving DecidableEq, Repr

/-- One reason a Candidate should not be applied, or is worth a word. -/
structure ValidationFailure where
  sect : Option SectionName := none
  resource : Option String := none
  reason : String
  deriving DecidableEq, Repr

structure ApplyRecord where
  id : String
  stage : Stage
  history : List StageEvent
  failureReason : Option String := none
  interrupted : Bool := false
  rollback : Option Rollback := none
  operatorMessage : Option String := none
  warnings : List ValidationFailure := []
  baseSnapshot : Option Nat := none
  snapshot : Option Nat := none
  deriving DecidableEq, Repr

/-- `in_flight`: not over. -/
def ApplyRecord.inFlight (record : ApplyRecord) : Bool := !TERMINAL.contains record.stage

/-- The Apply enters a stage: the stage is set and the event appended. -/
def ApplyRecord.advance (record : ApplyRecord) (stage : Stage) (detail : Option String) :
    ApplyRecord :=
  { record with stage := stage, history := record.history ++ [⟨stage, detail⟩] }

/-- `update_one` on the record of this id; no record is no error. -/
def updateRecord (id : String) (change : ApplyRecord → ApplyRecord) (records : List ApplyRecord) :
    List ApplyRecord :=
  records.map fun record => if record.id = id then change record else record

/-! ### The other documents -/

inductive EngagedBy where
  | admin
  | autoRollbackFailure
  deriving DecidableEq, Repr

def EngagedBy.value : EngagedBy → String
  | .admin => "admin"
  | .autoRollbackFailure => "auto_rollback_failure"

structure MaintenanceState where
  engaged : Bool := false
  reason : Option String := none
  engagedBy : Option EngagedBy := none
  deriving DecidableEq, Repr

structure Candidate where
  baseSnapshot : Option Nat
  sections : Sections

structure Snapshot where
  number : Nat
  sections : Sections
  applyId : String

/-- What was read of a Cluster to be adopted, with what was supplied for it. -/
structure StoredDiscovery where
  outstanding : List String
  /-- The Sections read, amendments applied. -/
  resolved : List (SectionName × Resources)
  adminValues : AdminValues

def StoredDiscovery.complete (stored : StoredDiscovery) : Bool := stored.outstanding.isEmpty

/-- One event of the audit history. -/
structure AuditEvent where
  actor : String
  category : String
  action : String
  resource : Option String := none
  snapshot : Option Nat := none
  outcome : String := "succeeded"
  detail : Option String := none
  applyId : Option String := none
  deriving DecidableEq, Repr

/-- Everything there is: the collections, the high-water mark, and the Cluster. -/
structure World where
  applies : List ApplyRecord
  maintenance : Option MaintenanceState
  admin : Option AdminValues
  adminPrevious : Option AdminValues
  candidate : Option Candidate
  snapshots : List Snapshot
  discovery : Option StoredDiscovery
  audit : List AuditEvent
  highWater : Option Nat
  cluster : ClusterState

/-- The record of this id. -/
def World.record (world : World) (id : String) : Option ApplyRecord :=
  world.applies.find? fun record => record.id = id

def World.engaged (world : World) : Bool := (world.maintenance.getD {}).engaged

/-- The Snapshot of the highest number. -/
def latestOf : List Snapshot → Option Snapshot
  | [] => none
  | s :: rest =>
      match latestOf rest with
      | none => some s
      | some t => if t.number < s.number then some s else some t

/-! ### The calls -/

/-- What Apchi asks of the outside: the Cluster's own answers, and the checks that only read. -/
structure Outside where
  platform : Platform
  /-- `_refuse_if_too_large`: whether a Candidate, encoded, fits in one document. -/
  candidateFits : Candidate → Except Error Unit
  /-- The preconditions on the coordinator's deployment. -/
  preconditions : ClusterState → Except Error Unit
  /-- Validation on the ephemeral coordinator: why not, or what is worth a word. -/
  validateCandidate : ClusterState → Sections → AdminValues →
    Except Error (List ValidationFailure)
  /-- What the deployment must still change before Apchi's copies are what Trino reads. -/
  cutoverChanges : ClusterState → Except Error (List String)

/-- One operation on one collection, on the Cluster, or outside. -/
inductive Call : Type → Type 1 where
  | cluster {β : Type} (call : ClusterCall β) : Call β
  -- the applies collection
  | insertApply (record : ApplyRecord) : Call Unit
  | findInFlight : Call (Option ApplyRecord)
  | pushStage (id : String) (stage : Stage) (detail : Option String) : Call Unit
  | setFailureReason (id reason : String) : Call Unit
  | setInterrupted (id : String) : Call Unit
  | setRollback (id : String) (outcome : Rollback) : Call Unit
  | setWarnings (id : String) (warnings : List ValidationFailure) : Call Unit
  | setSnapshot (id : String) (number : Nat) : Call Unit
  | setIncident (id reason message : String) : Call Unit
  -- the maintenance document
  | findMaintenance : Call MaintenanceState
  | replaceMaintenance (state : MaintenanceState) : Call Unit
  -- the Admin values and the pre-image kept beside them
  | findAdmin : Call (Option AdminValues)
  | findAndReplaceAdmin (values : AdminValues) : Call (Option AdminValues)
  | replaceAdminPrevious (values : AdminValues) : Call Unit
  | findAdminPrevious : Call (Option AdminValues)
  | replaceAdmin (values : AdminValues) : Call Unit
  -- the Candidate and the Snapshots
  | findCandidate : Call (Option Candidate)
  | findAndReplaceCandidate (candidate : Candidate) : Call (Option Candidate)
  | findLatestSnapshot : Call (Option Snapshot)
  | findSnapshot (number : Nat) : Call (Option Snapshot)
  | insertSnapshot (snapshot : Snapshot) : Call Unit
  -- the rest
  | findDiscovery : Call (Option StoredDiscovery)
  | insertAudit (events : List AuditEvent) : Call Unit
  | readHighWater : Call (Option Nat)
  | writeHighWater (number : Nat) : Call Unit
  | checkPreconditions : Call Unit
  | validateCandidate (desired : Sections) (admin : AdminValues) : Call (List ValidationFailure)
  | cutoverChanges : Call (List String)
  | alert (text : String) : Call Unit

namespace World

/-- A change of the records that always goes through. -/
def updating (world : World) (id : String) (change : ApplyRecord → ApplyRecord) :
    Except Error Unit × World :=
  (.ok (), { world with applies := updateRecord id change world.applies })

/-- `insert_one`: an `_id` that is taken is refused. -/
def insertApply (world : World) (record : ApplyRecord) : Except Error Unit × World :=
  if world.applies.any fun other => other.id = record.id then
    (.error ⟨"DuplicateKeyError", record.id⟩, world)
  else (.ok (), { world with applies := world.applies ++ [record] })

def insertSnapshot (world : World) (snapshot : Snapshot) : Except Error Unit × World :=
  if world.snapshots.any fun other => other.number = snapshot.number then
    (.error ⟨"DuplicateKeyError", toString snapshot.number⟩, world)
  else (.ok (), { world with snapshots := world.snapshots ++ [snapshot] })

/-- `find_one_and_replace` of the Candidate: one that would not fit is refused before the write. -/
def replaceCandidate (outside : Outside) (world : World) (candidate : Candidate) :
    Except Error (Option Candidate) × World :=
  match outside.candidateFits candidate with
  | .ok _ => (.ok world.candidate, { world with candidate := some candidate })
  | .error e => (.error e, world)

/-- What each call does when it goes through. -/
def exec (outside : Outside) {β : Type} (call : Call β) (world : World) :
    Except Error β × World :=
  match call with
  | .cluster call =>
      ((world.cluster.exec outside.platform call).1,
        { world with cluster := (world.cluster.exec outside.platform call).2 })
  | .insertApply record => world.insertApply record
  | .findInFlight => (.ok (world.applies.find? ApplyRecord.inFlight), world)
  | .pushStage id stage detail => world.updating id fun record => record.advance stage detail
  | .setFailureReason id reason =>
      world.updating id fun record => { record with failureReason := some reason }
  | .setInterrupted id => world.updating id fun record => { record with interrupted := true }
  | .setRollback id outcome =>
      world.updating id fun record => { record with rollback := some outcome }
  | .setWarnings id warnings =>
      world.updating id fun record => { record with warnings := warnings }
  | .setSnapshot id number =>
      world.updating id fun record => { record with snapshot := some number }
  | .setIncident id reason message =>
      world.updating id fun record =>
        { record with failureReason := some reason, operatorMessage := some message }
  | .findMaintenance => (.ok (world.maintenance.getD {}), world)
  | .replaceMaintenance state => (.ok (), { world with maintenance := some state })
  | .findAdmin => (.ok world.admin, world)
  | .findAndReplaceAdmin values => (.ok world.admin, { world with admin := some values })
  | .replaceAdminPrevious values => (.ok (), { world with adminPrevious := some values })
  | .findAdminPrevious => (.ok world.adminPrevious, world)
  | .replaceAdmin values => (.ok (), { world with admin := some values })
  | .findCandidate => (.ok world.candidate, world)
  | .findAndReplaceCandidate candidate => world.replaceCandidate outside candidate
  | .findLatestSnapshot => (.ok (latestOf world.snapshots), world)
  | .findSnapshot number =>
      (.ok (world.snapshots.find? fun snapshot => snapshot.number = number), world)
  | .insertSnapshot snapshot => world.insertSnapshot snapshot
  | .findDiscovery => (.ok world.discovery, world)
  | .insertAudit events => (.ok (), { world with audit := world.audit ++ events })
  | .readHighWater => (.ok world.highWater, world)
  | .writeHighWater number => (.ok (), { world with highWater := some number })
  | .checkPreconditions => (outside.preconditions world.cluster, world)
  | .validateCandidate desired admin =>
      (outside.validateCandidate world.cluster desired admin, world)
  | .cutoverChanges => (outside.cutoverChanges world.cluster, world)
  | .alert _ => (.ok (), world)

end World

/-- The machine every call runs on. -/
def worldMachine (outside : Outside) : Machine Call World where
  exec := fun call world => world.exec outside call

/-- A program of the pipeline. -/
abbrev PipelineProg := Prog Call

/-- One call of the pipeline. -/
abbrev call {β : Type} (c : Call β) : PipelineProg β := Prog.perform c

/-- A program that touches nothing but the Cluster, among the pipeline's. -/
abbrev onCluster {α : Type} (p : ClusterProg α) : PipelineProg α := p.lift Call.cluster

end Apchi.Pipeline
