import Apchi.Pipeline.Stores

/-!
# The Apply engines

An Operator Apply delivers the Candidate; an Admin Apply delivers the latest Snapshot with today's
Admin values, and commits nothing.  They differ in what they deliver, in how they roll back and in
what they commit, and in nothing else.
-/

namespace Apchi.Pipeline

open Lib

/-- `Engine` and `AdminEngine`. -/
inductive EngineKind where
  | operator
  | admin
  deriving DecidableEq, Repr

/-- What `validate` leaves for the stages after it. -/
structure Prepared where
  cluster : Cluster
  desired : Sections
  current : Sections
  rollout : List SectionName
  rawFilesChanged : Bool
  warnings : List ValidationFailure

/-- `rollout_needed`. -/
def Prepared.rolloutNeeded (prepared : Prepared) : Bool :=
  !prepared.rollout.isEmpty || prepared.rawFilesChanged

/-- Each Section's plan of the desired configuration over the current one. -/
def plansOf (desired current : Sections) (sect : Section) : SectionPlan :=
  sect.plan (desired sect.name) (current sect.name)

/-- The plans of the stage after Validation. -/
def Prepared.plans (prepared : Prepared) : Section → SectionPlan :=
  plansOf prepared.desired prepared.current

variable (app : App)

/-- `_freeze_admin_values`: the Admin values read once, with the settings. -/
def freezeAdminValues : PipelineProg Cluster := do
  let admin ← loadAdmin
  pure ⟨app.settings, admin⟩

/-- `_desired_and_baseline`: the Candidate against the Snapshot it was derived from, or the latest
Snapshot against itself. -/
def desiredAndBaseline : EngineKind → PipelineProg (Sections × Sections)
  | .operator => do
      let candidate ← loadCandidate
      let baseline ← sectionsOf candidate.baseSnapshot
      pure (candidate.sections, baseline)
  | .admin => do
      let (_, sections) ← latestSections
      pure (sections, sections)

/-- `validate`: capture what is to be delivered, plan the change, and prove it. -/
def validate (kind : EngineKind) : PipelineProg Prepared := do
  call .checkPreconditions
  let cluster ← freezeAdminValues app
  let (desired, current) ← desiredAndBaseline kind
  let rollout ← onCluster
    (sectionsNeedingRollout (plansOf desired current) desired cluster app.registered)
  let rawFilesChanged ← onCluster (rawChanged app cluster)
  let warnings ← call (.validateCandidate desired cluster.admin)
  pure { cluster := cluster, desired := desired, current := current, rollout := rollout
         rawFilesChanged := rawFilesChanged, warnings := warnings }

/-- `apply`: each Section's files, then whatever else it does; then the raw files, so that they
land on top. -/
def applyStage (prepared : Prepared) : ClusterProg Unit := do
  Prog.each app.registered fun sect => do
    let desired := prepared.desired sect.name
    deliver sect prepared.cluster desired
    sect.apply prepared.cluster desired (prepared.plans sect)
  deliverRaw app prepared.cluster

/-- `roll_out`, its reason naming the Sections that changed. -/
def rollOutStage (applyId : String) (prepared : Prepared) : ClusterProg Unit :=
  let changed := (Std.ExtTreeSet.ofList (prepared.rollout.map SectionName.text)).toList
  rollOut app ("apply " ++ applyId ++ " changed " ++ ", ".intercalate changed)

/-- `verify`. -/
def verifyStage (prepared : Prepared) : ClusterProg Unit :=
  verify app prepared.cluster prepared.desired

/-- `roll_back`: an Operator Apply's rollback restores the latest Snapshot; an Admin Apply's puts
the Admin document back first, and redelivers the raw files last. -/
def rollBack : EngineKind → PipelineProg Unit
  | .operator => do
      let cluster ← freezeAdminValues app
      let (_, sections) ← latestSections
      onCluster (restore app sections cluster)
  | .admin => do
      let restored ← restorePrevious
      let cluster : Cluster := ⟨app.settings, restored⟩
      let (_, sections) ← latestSections
      onCluster (restore app sections cluster)
      onCluster (deliverRaw app cluster)

/-- `commit`: the Snapshot, then the Candidate re-derived from it; an Admin Apply commits nothing. -/
def commit (applyId actor : String) (prepared : Prepared) : EngineKind → PipelineProg (Option Nat)
  | .operator => do
      let snapshot ← commitSnapshot prepared.desired applyId
      -- Best-effort: a mark that will not write does not fail the Apply.
      let _ ← (recordHighWater snapshot.number).attempt
      let _ ← resetCandidate actor (some snapshot.number)
      pure (some snapshot.number)
  | .admin => pure none

/-- `_alert`: sent only where there is somewhere to send it, and never raised. -/
def alert (applyId reason : String) : PipelineProg Unit :=
  match app.settings.alertWebhookUrl with
  | none => pure ()
  | some url =>
      if url = "" then pure ()
      else do
        let _ ← (call (.alert
          (s!"Apchi: Auto Rollback failed after Apply {applyId} on {app.settings.environment}. " ++
            "Maintenance Mode is engaged and the cluster state is unknown. " ++
            s!"Reason: {reason}"))).attempt
        pure ()

/-- `declare_incident`: Maintenance Mode engages first, then the alert goes out. -/
def declareIncident (applyId reason : String) : PipelineProg Unit := do
  engage SYSTEM_ACTOR s!"Auto Rollback failed after Apply {applyId}: {reason}"
    .autoRollbackFailure
  alert app applyId reason

end Apchi.Pipeline
