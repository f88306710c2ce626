import Apchi.Pipeline.Store

/-!
# The stores: programs over single collections

Loading a Candidate derives it from the latest Snapshot when none is stored; saving one, or the
Admin values, replaces the document and then records who changed what; engaging Maintenance Mode
is never prevented by an audit row that will not write.
-/

namespace Apchi.Pipeline

open Lib

/-! ### The audit history -/

/-- The exceptions a MongoDB driver raises. -/
def PY_MONGO_ERRORS : List String :=
  ["PyMongoError", "AutoReconnect", "NotPrimaryError", "NetworkTimeout", "ConnectionFailure",
    "ServerSelectionTimeoutError", "WaitQueueTimeoutError", "OperationFailure", "CursorNotFound",
    "ExecutionTimeout", "WriteError", "WTimeoutError", "WriteConcernError", "DuplicateKeyError",
    "BulkWriteError", "InvalidOperation", "DocumentTooLarge", "ConfigurationError"]

def isPyMongoError (e : Error) : Bool := PY_MONGO_ERRORS.contains e.kind

/-- One event that is never fatal: a row that will not write is logged and left. -/
def audited (event : AuditEvent) : PipelineProg Unit := do
  match ← (call (.insertAudit [event])).attempt with
  | .ok _ => pure ()
  | .error e => if isPyMongoError e then pure () else Prog.raise e

/-- Several events by one actor in one write, and none when there are none. -/
def recordEach (events : List AuditEvent) : PipelineProg Unit :=
  if events.isEmpty then pure () else call (.insertAudit events)

/-- What Apchi does on its own behalf is attributed to this. -/
def SYSTEM_ACTOR : String := "apchi"

/-! ### Snapshots and the Candidate -/

/-- `sections_of`: the configuration a Snapshot holds, or an empty baseline. -/
def sectionsOf (number : Option Nat) : PipelineProg Sections := do
  match number with
  | none => pure fun _ => ∅
  | some number =>
      match ← call (.findSnapshot number) with
      | none => pure fun _ => ∅
      | some snapshot => pure snapshot.sections

/-- The number of the latest Snapshot, and what it holds. -/
def latestSections : PipelineProg (Option Nat × Sections) := do
  let latest ← call .findLatestSnapshot
  let number := latest.map Snapshot.number
  let sections ← sectionsOf number
  pure (number, sections)

/-- `_derive_from_latest`. -/
def deriveFromLatest : PipelineProg Candidate := do
  let (number, sections) ← latestSections
  pure ⟨number, sections⟩

/-- `CandidateStore.load`. -/
def loadCandidate : PipelineProg Candidate := do
  match ← call .findCandidate with
  | some candidate => pure candidate
  | none => deriveFromLatest

/-- The registered names in alphabetical order. -/
def sortedNames : List SectionName :=
  [.catalogs, .certificateMapping, .clientCertificates, .eventListeners, .permissions,
    .resourceGroups]

/-- What became of one resource between two configurations, if anything. -/
def resourceChange (was now : Resources) (resource : String) : Option String :=
  match was[resource]?, now[resource]? with
  | none, some _ => some "created"
  | some _, none => some "removed"
  | some before, some after => if before = after then none else some "updated"
  | none, none => none

/-- The resources of either of two configurations of a Section, sorted. -/
def resourceNames (before after : Resources) : List String :=
  (Std.ExtTreeSet.ofList (before.keys ++ after.keys)).toList

/-- `changes_between`: every resource added, removed or edited, Section by Section. -/
def changesBetween (actor : String) (before after : Sections) : List AuditEvent :=
  sortedNames.flatMap fun name =>
    (resourceNames (before name) (after name)).filterMap fun resource =>
      (resourceChange (before name) (after name) resource).map fun action =>
        { actor := actor, category := name.text, action := action, resource := some resource }

/-- `CandidateStore.save`, the events derived from what moved. -/
def saveCandidate (actor : String) (candidate : Candidate) : PipelineProg Unit := do
  let previous ← call (.findAndReplaceCandidate candidate)
  let before : Sections := match previous with
    | none => fun _ => ∅
    | some previous => previous.sections
  recordEach (changesBetween actor before candidate.sections)

/-- `CandidateStore.save` of one act on the whole Candidate, or on one Section of it. -/
def saveCandidateAs (actor category action : String) (detail : Option String)
    (candidate : Candidate) : PipelineProg Unit := do
  let _ ← call (.findAndReplaceCandidate candidate)
  call (.insertAudit [{ actor := actor, category := category, action := action, detail := detail }])

/-- Which Snapshot a staged act took its content from, in words. -/
def fromSnapshot : Option Nat → String
  | none => "restored from an empty baseline"
  | some number => s!"restored from Snapshot {number}"

/-- The Candidate as a Snapshot has it. -/
def rederived : Option Nat → PipelineProg Candidate
  | none => deriveFromLatest
  | some number => do
      let sections ← sectionsOf (some number)
      pure ⟨some number, sections⟩

/-- `CandidateStore.reset`: re-derived from a Snapshot, so its diff is empty. -/
def resetCandidate (actor : String) (baseSnapshot : Option Nat) : PipelineProg Candidate := do
  let fresh ← rederived baseSnapshot
  saveCandidateAs actor "pipeline" "reset" (some (fromSnapshot fresh.baseSnapshot)) fresh
  pure fresh

/-- `CandidateStore.replace`: an imported configuration, based on this Cluster's latest Snapshot. -/
def replaceCandidate (actor : String) (sections : Sections) : PipelineProg Candidate := do
  let latest ← call .findLatestSnapshot
  let fresh : Candidate := ⟨latest.map Snapshot.number, sections⟩
  saveCandidateAs actor "pipeline" "imported" none fresh
  pure fresh

/-- `SnapshotStore.commit`. -/
def commitSnapshot (sections : Sections) (applyId : String) : PipelineProg Snapshot := do
  let previous ← call .findLatestSnapshot
  let snapshot : Snapshot :=
    { number := match previous with
        | none => 1
        | some previous => previous.number + 1
      sections := sections
      applyId := applyId }
  call (.insertSnapshot snapshot)
  pure snapshot

/-- `HighWaterMark.record`: raises the mark and never lowers it. -/
def recordHighWater (number : Nat) : PipelineProg Unit := do
  match ← call .readHighWater with
  | some current => if number ≤ current then pure () else call (.writeHighWater number)
  | none => call (.writeHighWater number)

/-! ### The Admin values -/

/-- `AdminStore.load`. -/
def loadAdmin : PipelineProg AdminValues := do
  let document ← call .findAdmin
  pure (document.getD {})

/-- What a policy flag was set to; content is never recorded. -/
def enforcementDirection (enforced : Bool) : String :=
  "enforce_permissions set to " ++ if enforced then "true" else "false"

/-- One event for each Admin value that moved, naming it. -/
def adminChanges (actor : String) (before after : AdminValues) : List AuditEvent :=
  let moved (key : String) (differs : Bool) (detail : Option String) : List AuditEvent :=
    if differs then
      [{ actor := actor, category := "admin", action := "updated", resource := some key
         detail := detail }]
    else []
  moved "enforce_permissions" (before.enforcePermissions != after.enforcePermissions)
      (some (enforcementDirection after.enforcePermissions))
    ++ moved "preserved_access_control"
      (before.preservedAccessControl != after.preservedAccessControl) none
    ++ moved "preserved_certificate_mappings"
      (before.preservedCertificateMappings != after.preservedCertificateMappings) none
    ++ moved "raw_files" (before.rawFiles != after.rawFiles) none

/-- `AdminStore.save`: the document is replaced, then what it replaced is kept for one step back,
then the change is recorded. -/
def saveAdmin (actor : String) (values : AdminValues) : PipelineProg AdminValues := do
  let previous ← call (.findAndReplaceAdmin values)
  let before := previous.getD {}
  call (.replaceAdminPrevious before)
  recordEach (adminChanges actor before values)
  pure values

/-- `AdminStore.restore_previous`: the document as it was before the last write, the pre-image
left where it is. -/
def restorePrevious : PipelineProg AdminValues := do
  let document ← call .findAdminPrevious
  let previous := document.getD {}
  call (.replaceAdmin previous)
  pure previous

/-! ### Maintenance Mode -/

/-- The event of a change of Maintenance Mode. -/
def maintenanceEvent (actor action : String) (detail : Option String) : AuditEvent :=
  { actor := actor, category := "admin", action := action
    resource := some "maintenance_mode", detail := detail }

/-- `MaintenanceStore.engage`. -/
def engage (actor reason : String) (engagedBy : EngagedBy) : PipelineProg Unit := do
  call (.replaceMaintenance
    { engaged := true, reason := some reason, engagedBy := some engagedBy })
  audited (maintenanceEvent actor "engaged"
    (some s!"engaged by {engagedBy.value}: {reason}"))

/-- `MaintenanceStore.release`. -/
def release (actor : String) : PipelineProg Unit := do
  call (.replaceMaintenance {})
  audited (maintenanceEvent actor "released" none)

/-! ### The applies collection -/

/-- `ApplyStore.create`, under the uuid drawn for it. -/
def createApply (uuid : String) (baseSnapshot : Option Nat) : PipelineProg ApplyRecord := do
  let record : ApplyRecord :=
    { id := uuid, stage := .validating, history := [⟨.validating, none⟩]
      baseSnapshot := baseSnapshot }
  call (.insertApply record)
  pure record

/-- `ApplyStore.fail`. -/
def failApply (id reason : String) : PipelineProg Unit := do
  call (.setFailureReason id reason)
  call (.pushStage id .failed (some reason))

/-- `ApplyStore.declare_incident`: the other failed terminal. -/
def recordIncident (id reason message : String) : PipelineProg Unit := do
  call (.setIncident id reason message)
  call (.pushStage id .incident (some message))

end Apchi.Pipeline
