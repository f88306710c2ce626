import Apchi.Pipeline.Engine

/-!
# Apply as a resource: the runner, and recovery after a restart

The runner walks an Apply through its stages, recording each before it runs it.  A failure in a
stage that touches the Cluster is rolled back, once; a rollback that fails is an incident.  After a
restart, what is left in flight is failed first and the Cluster put back after.
-/

namespace Apchi.Pipeline

open Lib

/-- A program of the pipeline, its exception marked with the stage it was raised in. -/
abbrev Staged := ExceptT (Stage × Error) PipelineProg

/-- A step of the run, in a stage. -/
def inStage {α : Type} (stage : Stage) (p : PipelineProg α) : Staged α :=
  ExceptT.mk do
    match ← p.attempt with
    | .ok a => pure (.ok a)
    | .error e => pure (.error (stage, e))

/-- What an Operator is shown after a failed Auto Rollback. -/
def INCIDENT_MESSAGE : String :=
  "The Trino cluster is currently unhealthy after applying configuration. " ++
    "Please contact our team."

def INTERRUPTED_REASON : String :=
  "Apchi restarted while this Apply was in flight; it was not completed."

/-- The category of a runner's events. -/
def EngineKind.category : EngineKind → String
  | .operator => "pipeline"
  | .admin => "admin"

/-- One event of the runner's. -/
def applyEvent (kind : EngineKind) (actor applyId action outcome : String)
    (snapshot : Option Nat) (detail : Option String) : AuditEvent :=
  { actor := actor, category := kind.category, action := action, snapshot := snapshot
    outcome := outcome, detail := detail, applyId := some applyId }

/-- An exception as a failure reason. -/
def reasonOf (e : Error) : String := s!"{e.kind}: {e.text}"

variable (app : App)

/-- The last stage: what the engine commits, then the Apply's success. -/
def commitStage (kind : EngineKind) (applyId actor : String) (prepared : Prepared) :
    PipelineProg Unit := do
  call (.pushStage applyId .committing none)
  let snapshot ← commit applyId actor prepared kind
  match snapshot with
  | some number => call (.setSnapshot applyId number)
  | none => pure ()
  call (.pushStage applyId .succeeded none)
  audited (applyEvent kind actor applyId "applied" "succeeded" snapshot none)

/-- The stages of an Apply, each recorded before it runs. -/
def runStages (kind : EngineKind) (applyId actor : String) : Staged Unit := do
  let prepared ← inStage .validating do
    let prepared ← validate app kind
    call (.setWarnings applyId prepared.warnings)
    pure prepared
  inStage .applying do
    call (.pushStage applyId .applying none)
    onCluster (applyStage app prepared)
  if prepared.rolloutNeeded then
    inStage .rollingOut do
      call (.pushStage applyId .rollingOut none)
      onCluster (rollOutStage app applyId prepared)
  inStage .verifying do
    call (.pushStage applyId .verifying none)
    onCluster (verifyStage app prepared)
  inStage .committing (commitStage kind applyId actor prepared)

/-- `_roll_back`: one attempt, and an incident when it fails. -/
def rollBackApply (kind : EngineKind) (applyId reason : String) : PipelineProg Unit := do
  call (.pushStage applyId .rollingBack (some reason))
  match ← (rollBack app kind).attempt with
  | .error e => do
      call (.setRollback applyId .failed)
      let combined := s!"{reason}. Auto Rollback then failed: {e.text}"
      declareIncident app applyId combined
      recordIncident applyId combined INCIDENT_MESSAGE
      audited (applyEvent kind SYSTEM_ACTOR applyId "rolled_back" "failed" none (some combined))
  | .ok _ => do
      call (.setRollback applyId .succeeded)
      failApply applyId reason
      audited (applyEvent kind SYSTEM_ACTOR applyId "rolled_back" "succeeded" none (some reason))

/-- What the runner does about an Apply that failed, by the stage it reached. -/
def failedIn (kind : EngineKind) (applyId actor : String) (reached : Stage) (e : Error) :
    PipelineProg Unit := do
  audited (applyEvent kind actor applyId "applied" "failed" none
    (some s!"failed in {reached.value}: {reasonOf e}"))
  if ROLLED_BACK_FROM.contains reached then rollBackApply app kind applyId (reasonOf e)
  else failApply applyId (reasonOf e)

/-- `_run`: an Apply from its record to its end. -/
def runApply (kind : EngineKind) (applyId actor : String) : PipelineProg Unit := do
  match ← (runStages app kind applyId actor).run with
  | .ok _ => pure ()
  | .error (reached, e) => failedIn app kind applyId actor reached e

/-! ### Recovery -/

/-- `_restore_after_interruption`: the same bounded attempt, with the engine recovery is given. -/
def restoreAfterInterruption (applyId : String) : PipelineProg Unit := do
  match ← (rollBack app .operator).attempt with
  | .error e => do
      call (.setRollback applyId .failed)
      let reason := s!"{INTERRUPTED_REASON} Auto Rollback then failed: {e.text}"
      declareIncident app applyId reason
      recordIncident applyId reason INCIDENT_MESSAGE
  | .ok _ => call (.setRollback applyId .succeeded)

/-- What recovery does about one Apply left in flight: its record is resolved before the Cluster is
touched. -/
def resolveInterrupted (record : ApplyRecord) : PipelineProg Unit := do
  let reached := record.stage
  call (.setInterrupted record.id)
  failApply record.id INTERRUPTED_REASON
  audited (applyEvent .operator SYSTEM_ACTOR record.id "applied" "failed" none
    (some s!"interrupted in {reached.value} by a restart; not completed"))
  if ROLLED_BACK_FROM.contains reached then restoreAfterInterruption app record.id
  else pure ()

/-- One turn of `recover_interrupted`'s loop: the Apply it resolved, or none when nothing is in
flight any more. -/
def recoverNext : PipelineProg (Option String) := do
  match ← call .findInFlight with
  | none => pure none
  | some record => do
      resolveInterrupted app record
      pure (some record.id)

end Apchi.Pipeline
