import Apchi.Lib.Run
import Apchi.Pipeline.Applies

/-!
# The service: requests, and a process that may die at any call

Requests are served side by side, their calls interleaved in any order; an Apply goes on in the
background of the request that started it.  The process may die between any two calls.  When it
starts again it resolves what was left in flight before it serves anything.
-/

namespace Apchi.Pipeline

open Lib

variable (app : App)

/-! ### The gates -/

/-- `mutations_enabled`: a mutation is rejected while Maintenance Mode is engaged. -/
def mutationsEnabled : PipelineProg Unit := do
  let state ← call .findMaintenance
  if state.engaged then
    Prog.raise ⟨"MaintenanceModeEngaged", "Changes are temporarily disabled. " ++
      state.reason.getD "An Admin has engaged Maintenance Mode."⟩
  else pure ()

/-- Nothing may be in flight. -/
def refuseInFlight (text : ApplyRecord → String) : PipelineProg Unit := do
  match ← call .findInFlight with
  | some running => Prog.raise ⟨"Conflict", text running⟩
  | none => pure ()

def frozenText (running : ApplyRecord) : String :=
  s!"Apply {running.id} is already in flight. The Candidate is frozen until it finishes."

/-- `operator_mutation_allowed`: the one gate every Operator edit passes. -/
def operatorMutationAllowed : PipelineProg Unit := do
  mutationsEnabled
  refuseInFlight fun running =>
    s!"The Configuration Candidate is frozen: Apply {running.id} is in flight " ++
      s!"({running.stage.value}). Changes are rejected until it finishes."

/-! ### Starting an Apply -/

/-- `POST /applies`. -/
def startApply (uuid actor : String) : PipelineProg Unit := do
  mutationsEnabled
  refuseInFlight frozenText
  let candidate ← loadCandidate
  let record ← createApply uuid candidate.baseSnapshot
  runApply app .operator record.id actor

/-- `POST /admin/applies`. -/
def startAdminApply (uuid actor : String) : PipelineProg Unit := do
  mutationsEnabled
  refuseInFlight frozenText
  let latest ← call .findLatestSnapshot
  let record ← createApply uuid (latest.map Snapshot.number)
  runApply app .admin record.id actor

/-! ### Adoption -/

/-- `dict.update`. -/
def updateWith (data more : Dict) : Dict := more.foldl (fun acc key value => acc.insert key value) data

/-- The Secrets of one Section, added to those before it. -/
def contentsOfSection (stored : StoredDiscovery) (secrets : Secrets) (sect : Section) :
    Except Error Secrets := do
  let resources := (stored.resolved.lookup sect.name).getD ∅
  let cluster : Cluster := ⟨app.settings, stored.adminValues⟩
  let declared := sect.coordinatorFiles app.settings
  let written ← if declared.isEmpty then pure [] else renderSecrets sect cluster resources
  let secrets := written.foldl
    (fun secrets (name, data) => secrets.insert name (updateWith (secrets[name]?.getD ∅) data))
    secrets
  if sect.name = .catalogs then do
    let seed ← app.catalogSeed resources
    return secrets.insert app.settings.catalogSecretName seed
  else return secrets

/-- `_contents`: every Secret Apchi owns, with what it holds, from a discovery. -/
def discoveredSecrets (stored : StoredDiscovery) : Except Error Secrets :=
  app.registered.foldlM (contentsOfSection app stored) ∅

/-- A refusal, when there is something to refuse. -/
def refuseIf (refused : Bool) (kind text : String) : PipelineProg Unit :=
  if refused then Prog.raise ⟨kind, text⟩ else pure ()

/-- The current discovery, which must have been read. -/
def currentDiscovery : PipelineProg StoredDiscovery := do
  match ← call .findDiscovery with
  | some stored => pure stored
  | none => Prog.raise ⟨"NotFound",
      "No discovery has been read. POST /admin/adoption/discoveries first."⟩

/-- How much of a discovery is still outstanding, in words. -/
def outstandingText (stored : StoredDiscovery) : String :=
  "This discovery still has " ++ toString stored.outstanding.length ++
    " thing(s) Apchi could not account for."

/-- One Secret of the seed, written only where it does not already hold what it is to hold. -/
def seedSecret (name : String) (data : Dict) : PipelineProg Unit := do
  let before ← call (.cluster (.readSecretIfPresent name))
  if before = some data then pure () else call (.cluster (.writeSecret name data))

/-- `POST /admin/adoption/seed`. -/
def seedCluster : PipelineProg Unit := do
  let stored ← currentDiscovery
  refuseIf (!stored.complete) "Conflict" (outstandingText stored ++
    " Supply or withdraw them before seeding: a Secret written from a half-read Cluster is a " ++
    "Cluster Apchi would misconfigure at the cutover.")
  let contents ← Prog.ofExcept (discoveredSecrets app stored)
  Prog.each contents.toList fun (name, data) => seedSecret name data
  let _ ← call (.cluster .deploymentPodSpec)
  let _ ← call .cutoverChanges
  pure ()

/-- The Secrets among these that do not hold what they are to hold. -/
def unseeded : List (String × Dict) → PipelineProg (List String)
  | [] => pure []
  | (name, data) :: rest => do
      let before ← call (.cluster (.readSecretIfPresent name))
      let stale ← unseeded rest
      pure (if before = some data then stale else name :: stale)

/-- The Candidate with a discovery's Sections in it. -/
def stageDiscovery (stored : StoredDiscovery) (candidate : Candidate) : Candidate :=
  { candidate with sections := fun name =>
      (stored.resolved.lookup name).getD (candidate.sections name) }

/-- What Adoption refuses, before it stages anything. -/
def admitAdoption (discardHistoryThrough : Option Nat) : PipelineProg StoredDiscovery := do
  let latest ← call .findLatestSnapshot
  refuseIf latest.isSome "Conflict" ("This Cluster already has Snapshots, so it is already " ++
    "managed. Adoption produces Snapshot 1 and runs once; editing the Candidate is how a managed " ++
    "Cluster changes.")
  let ever ← call .readHighWater
  refuseIf (ever.isSome && discardHistoryThrough != ever) "Conflict"
    ("This Cluster has committed Snapshot " ++ toString (ever.getD 0) ++ ", so it is already " ++
      "managed, and MongoDB holds none of those Snapshots. Adopting now produces a new Snapshot " ++
      "1 and does not bring them back. Point Apchi at the database that holds them, or -- if " ++
      "they are genuinely gone and you want to start again from what the Cluster is running -- " ++
      "repeat the number: POST /api/v1/admin/adoption/adopt?discard_history_through=" ++
      toString (ever.getD 0))
  refuseInFlight fun running => s!"Apply {running.id} is already in flight."
  let stored ← currentDiscovery
  refuseIf (!stored.complete) "Conflict"
    (outstandingText stored ++ " Nothing half-understood should reach the Cluster.")
  let outstanding ← call .cutoverChanges
  refuseIf (!outstanding.isEmpty) "Conflict" ("The cutover has not happened: " ++
    "; ".intercalate outstanding ++ ". Until the coordinator reads Apchi's Secrets there is " ++
    "nothing for Verification to verify, and a Snapshot claiming otherwise would be the " ++
    "never-verified Snapshot §15 refuses to create.")
  let contents ← Prog.ofExcept (discoveredSecrets app stored)
  let stale ← unseeded contents.toList
  refuseIf (!stale.isEmpty) "Conflict" ("Apchi's Secrets do not hold this discovery yet (" ++
    ", ".intercalate stale ++ "). POST /admin/adoption/seed first -- the coordinator is reading " ++
    "Secrets that do not say what was discovered.")
  pure stored

/-- `POST /admin/adoption/adopt`: the Admin values first, since the Apply has to be able to read
them, then the Candidate, then an Apply like any other. -/
def adopt (uuid actor : String) (discardHistoryThrough : Option Nat) : PipelineProg Unit := do
  let stored ← admitAdoption app discardHistoryThrough
  let _ ← saveAdmin actor stored.adminValues
  let candidate ← loadCandidate
  saveCandidate actor (stageDiscovery stored candidate)
  let record ← createApply uuid (stageDiscovery stored candidate).baseSnapshot
  runApply app .operator record.id actor

/-! ### Edits, Maintenance Mode and Review -/

/-- An Operator's edit of the Candidate. -/
def editCandidate (actor : String) (change : Sections → Except Error Sections) :
    PipelineProg Unit := do
  operatorMutationAllowed
  let candidate ← loadCandidate
  let sections ← Prog.ofExcept (change candidate.sections)
  saveCandidate actor { candidate with sections := sections }

/-- `POST /candidate/reset`. -/
def discardCandidate (actor : String) : PipelineProg Unit := do
  operatorMutationAllowed
  let current ← loadCandidate
  let _ ← resetCandidate actor current.baseSnapshot
  pure ()

/-- `PUT /candidate`. -/
def importCandidate (actor : String) (sections : Sections) : PipelineProg Unit := do
  operatorMutationAllowed
  let _ ← replaceCandidate actor sections
  pure ()

/-- A change of one Admin value: the preserved patterns, enforcement, or a raw file. -/
def editAdmin (actor : String) (change : AdminValues → Except Error AdminValues) :
    PipelineProg Unit := do
  mutationsEnabled
  let values ← loadAdmin
  let changed ← Prog.ofExcept (change values)
  let _ ← saveAdmin actor changed
  pure ()

/-- `PUT /admin/configuration`: the Sections first, then the Admin values. -/
def importConfiguration (actor : String) (sections : Sections) (admin : AdminValues) :
    PipelineProg Unit := do
  mutationsEnabled
  let _ ← replaceCandidate actor sections
  let _ ← saveAdmin actor admin
  pure ()

/-- `PUT /admin/maintenance-mode`. -/
def setMaintenanceMode (actor : String) (engaged : Bool) (reason : Option String) :
    PipelineProg Unit :=
  if engaged then engage actor (reason.getD "An Admin has engaged Maintenance Mode.") .admin
  else release actor

inductive ChangeKind where
  | added
  | changed
  | removed
  deriving DecidableEq, Repr

structure ResourceChange where
  resource : String
  change : ChangeKind
  before : Option Json := none
  after : Option Json := none

/-- `_diff`: the resources of a Section that differ, sorted by name. -/
def diff (before after : Resources) : List ResourceChange :=
  (resourceNames before after).filterMap fun name =>
    let old := before[name]?
    let new := after[name]?
    if old = new then none
    else if old.isNone then some { resource := name, change := .added, after := new }
    else if new.isNone then some { resource := name, change := .removed, before := old }
    else some { resource := name, change := .changed, before := old, after := new }

/-- What an Operator is shown of the Candidate as it stands. -/
structure Review where
  baseSnapshot : Option Nat
  hasChanges : Bool
  sections : List (SectionName × List ResourceChange)
  cost : ApplyCost

/-- `GET /candidate/review`: what an Apply of the Candidate as it stands would change, and cost. -/
def review : PipelineProg Review := do
  let cluster ← freezeAdminValues app
  let candidate ← loadCandidate
  let baseline ← sectionsOf candidate.baseSnapshot
  let sections := app.registered.map fun sect =>
    (sect.name, diff (baseline sect.name) (candidate.sections sect.name))
  let cost ← onCluster
    (costOf app (plansOf candidate.sections baseline) candidate.sections cluster)
  pure { baseSnapshot := candidate.baseSnapshot
         hasChanges := sections.any fun sect => !sect.2.isEmpty
         sections := sections
         cost := cost }

/-! ### Going back to a Snapshot -/

/-- What was staged, and what an Apply would then do to the Cluster. -/
structure RevertEffect where
  fromSnapshot : Nat
  sections : List SectionName
  otherSectionsStayAt : Option Nat
  catalogsDropped : List String
  catalogsCreated : List String
  catalogsReplaced : List String
  cost : ApplyCost
  summary : String

/-- A Snapshot's number as Python prints it. -/
def numberText (number : Option Nat) : String := (number.map toString).getD "None"

/-- `_summary`: what the revert does, in words. -/
def revertSummary (kind : String) (fromSnapshot : Nat) (dropped : List String) (cost : ApplyCost) :
    String :=
  " ".intercalate ([kind] ++
    (if dropped.isEmpty then ["Applying this will drop no catalogs."]
      else ["Applying this will drop " ++ toString dropped.length ++ " catalog" ++
        (if 1 < dropped.length then "s" else "") ++ ": " ++ ", ".intercalate dropped ++ "."]) ++
    (if cost.restartsCoordinator then
        RESTART_WARNING :: match cost.queriesAtRisk with
          | some queries => [s!"{queries} are running or queued right now."]
          | none => []
      else []) ++
    [s!"Snapshot {fromSnapshot} is not modified; applying this produces a new Snapshot."])

/-- `_effect`: the Apply that would follow, planned but not run. -/
def effect (candidate : Candidate) (cluster : Cluster) (number : Nat) (sections : List SectionName)
    (othersStayAt : Option Nat) (summaryFor : String) : PipelineProg RevertEffect := do
  let baseline ← sectionsOf candidate.baseSnapshot
  let plans := plansOf candidate.sections baseline
  let catalogs := match app.registered.find? fun sect => sect.name = .catalogs with
    | some sect => plans sect
    | none => {}
  let cost ← onCluster (costOf app plans candidate.sections cluster)
  pure { fromSnapshot := number
         sections := sections
         otherSectionsStayAt := othersStayAt
         catalogsDropped := catalogs.removed
         catalogsCreated := catalogs.added
         catalogsReplaced := catalogs.changed
         cost := cost
         summary := revertSummary summaryFor number catalogs.removed cost }

/-- `_snapshot_sections`. -/
def snapshotSections (number : Nat) : PipelineProg Sections := do
  match ← call (.findSnapshot number) with
  | none => Prog.raise ⟨"NotFound", s!"No Snapshot numbered {number}."⟩
  | some _ => sectionsOf (some number)

/-- `POST /SECTION/revert`: one Section of the Candidate replaced with its content from an earlier
Snapshot. -/
def sectionRevert (actor : String) (name : SectionName) (number : Nat) :
    PipelineProg RevertEffect := do
  operatorMutationAllowed
  let cluster ← freezeAdminValues app
  let restored ← snapshotSections number
  let candidate ← loadCandidate
  let staged : Candidate := { candidate with
    sections := fun other => if other = name then restored name else candidate.sections other }
  saveCandidateAs actor name.text "reverted" (some s!"restored from Snapshot {number}") staged
  effect app staged cluster number [name] staged.baseSnapshot
    (s!"{name.text} will be restored to Snapshot {number}; every other Section stays at " ++
      "Snapshot " ++ numberText staged.baseSnapshot ++ ". That combination has never run.")

/-- `POST /candidate/rollback`: the entire Candidate replaced with an earlier Snapshot. -/
def fullRollback (actor : String) (number : Nat) : PipelineProg RevertEffect := do
  operatorMutationAllowed
  let cluster ← freezeAdminValues app
  let restored ← snapshotSections number
  let candidate ← loadCandidate
  let staged : Candidate := { candidate with sections := restored }
  saveCandidateAs actor "pipeline" "rolled_back"
    (some s!"the whole Candidate restored from Snapshot {number}") staged
  effect app staged cluster number (app.registered.map Section.name) none
    s!"The entire Candidate will be replaced with Snapshot {number}."

/-! ### The service -/

/-- The requests that reach the Cluster, the records or the documents. -/
inductive Request where
  | startApply (uuid actor : String)
  | startAdminApply (uuid actor : String)
  | adopt (uuid actor : String) (discardHistoryThrough : Option Nat)
  | seed
  | editCandidate (actor : String) (change : Sections → Except Error Sections)
  | discardCandidate (actor : String)
  | importCandidate (actor : String) (sections : Sections)
  | editAdmin (actor : String) (change : AdminValues → Except Error AdminValues)
  | importConfiguration (actor : String) (sections : Sections) (admin : AdminValues)
  | setMaintenanceMode (actor : String) (engaged : Bool) (reason : Option String)
  | review
  | sectionRevert (actor : String) (name : SectionName) (number : Nat)
  | fullRollback (actor : String) (number : Nat)

namespace Request

/-- What serving a request does. -/
def serve : Request → PipelineProg Unit
  | startApply uuid actor => Pipeline.startApply app uuid actor
  | startAdminApply uuid actor => Pipeline.startAdminApply app uuid actor
  | adopt uuid actor through => Pipeline.adopt app uuid actor through
  | seed => seedCluster app
  | editCandidate actor change => Pipeline.editCandidate actor change
  | discardCandidate actor => Pipeline.discardCandidate actor
  | importCandidate actor sections => Pipeline.importCandidate actor sections
  | editAdmin actor change => Pipeline.editAdmin actor change
  | importConfiguration actor sections admin => Pipeline.importConfiguration actor sections admin
  | setMaintenanceMode actor engaged reason => Pipeline.setMaintenanceMode actor engaged reason
  | review => do
      let _ ← Pipeline.review app
      pure ()
  | sectionRevert actor name number => do
      let _ ← Pipeline.sectionRevert app actor name number
      pure ()
  | fullRollback actor number => do
      let _ ← Pipeline.fullRollback app actor number
      pure ()

/-- The uuid drawn for the Apply a request starts. -/
def uuid : Request → Option String
  | startApply uuid _ => some uuid
  | startAdminApply uuid _ => some uuid
  | adopt uuid _ _ => some uuid
  | _ => none

end Request

/-- The service: the world, what the startup still has to resolve, and the requests being served,
each with what it has still to do. -/
structure Service where
  world : World
  recovering : Option (PipelineProg (Option String))
  tasks : List (PipelineProg Unit)

/-- What happens to the service. -/
inductive Event where
  | arrive (request : Request)
  /-- A call of a task, or of the startup's recovery. -/
  | call (task : Option Nat) {β : Type} (call : Call β) (answer : Except Error β)
  /-- The next turn of the recovery's loop. -/
  | again
  /-- Recovery has run to completion. -/
  | recovered
  /-- Recovery has raised; the service starts without it. -/
  | gaveUp
  | die

/-- Whose call an event is, when it is a task's. -/
def Event.task : Event → Option Nat
  | .call task _ _ => task
  | _ => none

variable (outside : Outside)

/-- The process starts: recovery first. -/
def Service.boot (world : World) : Service :=
  { world := world, recovering := some (recoverNext app), tasks := [] }

/-- One step of the service.  A uuid is never drawn twice. -/
inductive Step : Service → Event → Service → Prop where
  | arrive {s : Service} (request : Request) (hserving : s.recovering = none)
      (hfresh : ∀ uuid ∈ request.uuid, s.world.record uuid = none) :
      Step s (.arrive request) { s with tasks := s.tasks ++ [request.serve app] }
  | task {s : Service} {i : Nat} {β : Type} {c : Call β}
      {k : Except Error β → PipelineProg Unit} {r : Except Error β} {world : World}
      (hserving : s.recovering = none) (htask : s.tasks[i]? = some (.call c k))
      (hanswer : (worldMachine outside).Answer c s.world r world) :
      Step s (.call (some i) c r) { s with world := world, tasks := s.tasks.set i (k r) }
  | recover {s : Service} {β : Type} {c : Call β}
      {k : Except Error β → PipelineProg (Option String)} {r : Except Error β} {world : World}
      (hrecovering : s.recovering = some (.call c k))
      (hanswer : (worldMachine outside).Answer c s.world r world) :
      Step s (.call none c r) { s with world := world, recovering := some (k r) }
  | again {s : Service} {id : String} (hrecovering : s.recovering = some (.ret (some id))) :
      Step s .again { s with recovering := some (recoverNext app) }
  | recovered {s : Service} (hrecovering : s.recovering = some (.ret none)) :
      Step s .recovered { s with recovering := none }
  | gaveUp {s : Service} {e : Error} (hrecovering : s.recovering = some (.raise e)) :
      Step s .gaveUp { s with recovering := none }
  | die {s : Service} : Step s .die (Service.boot app s.world)

end Apchi.Pipeline
