import Apchi.Pipeline.Runs

/-!
# What the stores answer when every call goes through

The Admin values in force, the configuration a Snapshot holds and the Candidate are functions of the
world; the programs that read them answer these and leave the world alone.
-/

namespace Apchi.Pipeline

open Lib Prog

namespace World

/-- The Admin values in force. -/
def adminValues (world : World) : AdminValues := world.admin.getD {}

/-- What the Admin values were before the last write. -/
def previousAdminValues (world : World) : AdminValues := world.adminPrevious.getD {}

/-- The configuration of a Snapshot, or an empty baseline. -/
def sectionsAt (world : World) : Option Nat → Sections
  | none => fun _ => ∅
  | some number =>
      match world.snapshots.find? fun snapshot => snapshot.number = number with
      | none => fun _ => ∅
      | some snapshot => snapshot.sections

/-- The number of the latest Snapshot. -/
def latestNumber (world : World) : Option Nat := (latestOf world.snapshots).map Snapshot.number

/-- The configuration of the latest Snapshot. -/
def latest (world : World) : Sections := world.sectionsAt world.latestNumber

/-- The Candidate, derived from the latest Snapshot where none is stored. -/
def currentCandidate (world : World) : Candidate :=
  world.candidate.getD ⟨world.latestNumber, world.latest⟩

/-- What an Operator Apply takes the Candidate to change. -/
def baseline (world : World) : Sections := world.sectionsAt world.currentCandidate.baseSnapshot

/-- The Cluster as the Sections are handed it. -/
def handed (world : World) (app : App) : Cluster := ⟨app.settings, world.adminValues⟩

end World

section reading

variable {app : App} {outside : Outside} (world : World)

theorem run_bind_of {α β : Type} {M : Machine Call World} {p : PipelineProg α}
    {f : α → PipelineProg β} {w w₁ : World} {a : α} (h : p.run M w = (.ok a, w₁)) :
    (p.bind f).run M w = (f a).run M w₁ := by
  rw [run_bind, h]

theorem run_sectionsOf (number : Option Nat) :
    (sectionsOf number).run (worldMachine outside) world =
      (.ok (world.sectionsAt number), world) := by
  cases number with
  | none => rfl
  | some number =>
    have hfind : (call (.findSnapshot number)).run (worldMachine outside) world =
        (.ok (world.snapshots.find? fun snapshot => snapshot.number = number), world) := rfl
    refine (run_bind_of hfind).trans ?_
    unfold World.sectionsAt
    dsimp only
    generalize world.snapshots.find? _ = found
    cases found <;> rfl

theorem run_latestSections : latestSections.run (worldMachine outside) world =
    (.ok (world.latestNumber, world.latest), world) := by
  show ((call .findLatestSnapshot).bind fun latest => _).run _ _ = _
  rw [run_bind_of (run_perform _ world)]
  exact (run_bind_of (run_sectionsOf world _)).trans rfl

theorem run_loadCandidate : loadCandidate.run (worldMachine outside) world =
    (.ok world.currentCandidate, world) := by
  have hfind : (call .findCandidate).run (worldMachine outside) world =
      (.ok world.candidate, world) := rfl
  refine (run_bind_of hfind).trans ?_
  unfold World.currentCandidate
  cases world.candidate with
  | some candidate => rfl
  | none => exact (run_bind_of (run_latestSections world)).trans rfl

theorem run_freezeAdminValues : (freezeAdminValues app).run (worldMachine outside) world =
    (.ok (world.handed app), world) := rfl

theorem run_desiredAndBaseline :
    (desiredAndBaseline .operator).run (worldMachine outside) world =
      (.ok (world.currentCandidate.sections, world.baseline), world) :=
  (run_bind_of (run_loadCandidate world)).trans ((run_bind_of (run_sectionsOf world _)).trans rfl)

/-- A program on the Cluster runs there, and leaves the rest of the world alone. -/
theorem run_onCluster {α : Type} (p : ClusterProg α) :
    (onCluster p).run (worldMachine outside) world =
      ((p.run (clusterMachine outside.platform) world.cluster).1,
        { world with cluster := (p.run (clusterMachine outside.platform) world.cluster).2 }) :=
  run_lift Call.cluster World.cluster (fun world cluster => { world with cluster := cluster })
    (fun _ _ => rfl) (fun _ _ => rfl) (fun _ _ _ => rfl) (fun _ => rfl) p world

end reading

end Apchi.Pipeline
