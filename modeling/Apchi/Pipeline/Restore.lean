import Apchi.Pipeline.RawFiles

/-!
# Rollout, Verification, and the one attempt to put the Cluster back

`roll_out` restarts the coordinator and waits for it; `verify` asks the Cluster whether it adopted
the configuration; `restore` puts every Section back to a Snapshot, restarts the coordinator if a
Section that needs it changed, and verifies once.
-/

namespace Apchi.Pipeline

open Lib

/-! ### Rollout -/

/-- The rollout's state is read once more until `left` waits are used up. -/
def awaitRollout (deployment : String) (timeout : Nat) : (left : Nat) → ClusterProg Unit
  | 0 => do
      let state ← Prog.perform .rolloutState
      if state.complete then pure ()
      else Prog.raise ⟨"RolloutFailed",
        s!"{deployment} did not finish rolling out within {timeout}s ({state.summary}). " ++
          "The configuration was applied but the Cluster has not come back on it."⟩
  | left + 1 => do
      let state ← Prog.perform .rolloutState
      if state.complete then pure () else awaitRollout deployment timeout left

/-- `roll_out`: restart the coordinator and return once every replica runs the new template.  The
state is read every two seconds until the deadline. -/
def rollOut (app : App) (reason : String) : ClusterProg Unit := do
  Prog.perform (.restartDeployment reason)
  awaitRollout app.settings.coordinatorDeploymentName app.settings.rolloutTimeoutSeconds
    ((app.settings.rolloutTimeoutSeconds + 1) / 2)

/-! ### Verification -/

def verificationFailed (text : String) : Error := ⟨"VerificationFailed", text⟩

/-- `_await_response`: the coordinator answers and is past its own startup, asked once a second. -/
def awaitResponse : (left : Nat) → ClusterProg Unit
  | 0 => do
      match ← Prog.perform .isStarting with
      | some false => pure ()
      | none => Prog.raise (verificationFailed
          "The Trino coordinator did not respond within 30s.")
      | some true => Prog.raise (verificationFailed
          "The Trino coordinator was still starting 30s later.")
  | left + 1 => do
      match ← Prog.perform .isStarting with
      | some false => pure ()
      | _ => awaitResponse left

/-- The query that proves the Cluster serves work. -/
def smokeSql (verificationCatalog : String) : String :=
  "SELECT 1 FROM \"" ++ verificationCatalog ++ "\".runtime.nodes LIMIT 1"

/-- What Trino records as the source of Apchi's queries. -/
def SOURCE : String := "apchi"

/-- Each Section confirms the Cluster adopted it; the first reason it did not ends it. -/
def verifySections (cluster : Cluster) (desired : Sections) (smoke : SmokeQuery) :
    List Section → ClusterProg Unit
  | [] => pure ()
  | sect :: rest => do
      match ← sect.verify cluster (desired sect.name) smoke with
      | [] => verifySections cluster desired smoke rest
      | reason :: _ => Prog.raise (verificationFailed reason)

/-- `verify`: did the Cluster adopt the configuration and stay healthy? -/
def verify (app : App) (cluster : Cluster) (desired : Sections) : ClusterProg Unit := do
  awaitResponse 30
  let expected ← Prog.perform (.readyReplicas app.settings.workerDeploymentName)
  let actual ← Prog.perform .activeWorkerCount
  if actual < expected then
    Prog.raise (verificationFailed
      s!"Only {actual} of {expected} workers have registered with the coordinator.")
  else do
    let sql := smokeSql app.settings.verificationCatalog
    match ← (Prog.perform (.runQuery sql)).attempt with
    | .error e => Prog.raise (verificationFailed s!"The smoke query failed: {e.text}")
    | .ok queryId =>
        let smoke : SmokeQuery :=
          { sql := sql, queryId := queryId, user := cluster.settings.trinoUser, source := SOURCE }
        verifySections cluster desired smoke app.registered

/-! ### Restoring -/

/-- Each Section put back in turn; the Sections that changed.  Whether the file differs is asked
before it is written, because afterwards the answer is always no. -/
def restoreSections (sections : Sections) (cluster : Cluster) :
    List Section → ClusterProg (List SectionName)
  | [] => pure []
  | sect :: rest => do
      let snapshot := sections sect.name
      let fileDiffers ← wouldChange sect cluster snapshot
      deliver sect cluster snapshot
      let differs ← if fileDiffers then pure true else sect.restore cluster snapshot
      let changed ← restoreSections sections cluster rest
      pure (if differs then sect.name :: changed else changed)

/-- `restore`: put every Section back to the latest Snapshot, then verify once. -/
def restore (app : App) (sections : Sections) (cluster : Cluster) : ClusterProg Unit := do
  let changed ← restoreSections sections cluster app.registered
  if app.registered.any fun sect => sect.requiresRollout && changed.contains sect.name then
    rollOut app "auto rollback to the latest Snapshot"
  else pure ()
  verify app cluster sections

/-! ### What an Apply would move -/

/-- `sections_needing_rollout`: which rollout-required Sections a change actually moves.  A Cluster
that cannot be read falls back to the plan. -/
def sectionsNeedingRollout (plans : Section → SectionPlan) (desired : Sections)
    (cluster : Cluster) : List Section → ClusterProg (List SectionName)
  | [] => pure []
  | sect :: rest =>
      if sect.requiresRollout then
        if (plans sect).empty then do
          let differs ← (wouldChange sect cluster (desired sect.name)).attempt
          let changed ← sectionsNeedingRollout plans desired cluster rest
          pure (if differs = .ok true then sect.name :: changed else changed)
        else do
          let changed ← sectionsNeedingRollout plans desired cluster rest
          pure (sect.name :: changed)
      else sectionsNeedingRollout plans desired cluster rest

/-- What an Operator is told an Apply costs. -/
structure ApplyCost where
  restartsCoordinator : Bool
  queriesAtRisk : Option Nat := none
  warning : Option String := none
  deriving DecidableEq, Repr

def RESTART_WARNING : String :=
  "Applying this restarts the Trino coordinator, which terminates every running and " ++
    "queued query. Trino cannot drain a coordinator, so there is no way to avoid it."

/-- `cost_of`: the Cluster is only asked how busy it is when the answer matters. -/
def costOf (app : App) (plans : Section → SectionPlan) (desired : Sections) (cluster : Cluster) :
    ClusterProg ApplyCost := do
  let moved ← sectionsNeedingRollout plans desired cluster app.registered
  if moved.isEmpty then pure { restartsCoordinator := false }
  else do
    let atRisk ← (Prog.perform .queriesAtRisk).attempt
    pure { restartsCoordinator := true, queriesAtRisk := atRisk.toOption,
           warning := some RESTART_WARNING }

/-! ### What only reads -/

theorem awaitRollout_reads (deployment : String) (timeout left : Nat) :
    ReadsOnly (awaitRollout deployment timeout left) := by
  induction left with
  | zero =>
    refine Prog.All.bind (Prog.all_perform rfl) fun state => ?_
    show ReadsOnly (if state.complete then _ else _)
    split <;> trivial
  | succ left ih =>
    refine Prog.All.bind (Prog.all_perform rfl) fun state => ?_
    show ReadsOnly (if state.complete then _ else _)
    split
    · trivial
    · exact ih

theorem awaitResponse_reads (left : Nat) : ReadsOnly (awaitResponse left) := by
  induction left with
  | zero =>
    refine Prog.All.bind (Prog.all_perform rfl) fun starting => ?_
    rcases starting with _ | _ | _ <;> trivial
  | succ left ih =>
    refine Prog.All.bind (Prog.all_perform rfl) fun starting => ?_
    rcases starting with _ | _ | _
    · exact ih
    · trivial
    · exact ih

theorem verifySections_reads (cluster : Cluster) (desired : Sections) (smoke : SmokeQuery)
    (sects : List Section) : ReadsOnly (verifySections cluster desired smoke sects) := by
  induction sects with
  | nil => trivial
  | cons sect rest ih =>
    refine Prog.All.bind (sect.verify_reads _ _ _) fun reasons => ?_
    cases reasons with
    | nil => exact ih
    | cons reason _ => trivial

theorem verify_reads (app : App) (cluster : Cluster) (desired : Sections) :
    ReadsOnly (verify app cluster desired) := by
  refine Prog.All.bind (awaitResponse_reads _) fun _ => Prog.All.bind (Prog.all_perform rfl)
    fun expected => Prog.All.bind (Prog.all_perform rfl) fun actual => ?_
  show ReadsOnly (if actual < expected then _ else _)
  split
  · trivial
  · refine Prog.All.bind (Prog.all_perform rfl).attempt fun r => ?_
    cases r with
    | error e => trivial
    | ok queryId => exact verifySections_reads _ _ _ _

theorem sectionsNeedingRollout_reads (plans : Section → SectionPlan) (desired : Sections)
    (cluster : Cluster) (sects : List Section) :
    ReadsOnly (sectionsNeedingRollout plans desired cluster sects) := by
  induction sects with
  | nil => trivial
  | cons sect rest ih =>
    unfold sectionsNeedingRollout
    split
    · split
      · exact Prog.All.bind (wouldChange_reads _ _ _).attempt fun _ =>
          Prog.All.bind ih fun _ => trivial
      · exact Prog.All.bind ih fun _ => trivial
    · exact ih

theorem costOf_reads (app : App) (plans : Section → SectionPlan) (desired : Sections)
    (cluster : Cluster) : ReadsOnly (costOf app plans desired cluster) := by
  refine Prog.All.bind (sectionsNeedingRollout_reads _ _ _ _) fun moved => ?_
  show ReadsOnly (if moved.isEmpty then _ else _)
  split
  · trivial
  · exact Prog.All.bind (Prog.all_perform rfl).attempt fun _ => trivial

end Apchi.Pipeline
