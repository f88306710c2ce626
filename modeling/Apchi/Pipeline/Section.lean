import Apchi.Lib.PosixPath
import Apchi.Permissions.Generator
import Apchi.Pipeline.Cluster

/-!
# What a Section is

A Section provides the pipeline with the files it declares and what belongs in them, a plan, how
it is applied beyond its files, how it is restored and how it is verified.  Its resources are kept
as they are stored, untyped; the pipeline never looks inside them.

Beyond its files a Section touches nothing but Trino's catalogs and the Secret they are seeded
from, and one that Trino adopts only by restarting is restored by its files alone; the structure
carries that, so every Section that can be built keeps to it.
-/

namespace Apchi.Pipeline

open Lib

/-- The managed areas of a Candidate. -/
inductive SectionName where
  | catalogs
  | clientCertificates
  | certificateMapping
  | permissions
  | resourceGroups
  | eventListeners
  deriving DecidableEq, Repr

namespace SectionName

/-- A name as the records and the logs spell it. -/
def text : SectionName → String
  | catalogs => "catalogs"
  | clientCertificates => "client_certificates"
  | certificateMapping => "certificate_mapping"
  | permissions => "permissions"
  | resourceGroups => "resource_groups"
  | eventListeners => "event_listeners"

end SectionName

/-- One Section's resources by name, as the Candidate and Snapshots store them. -/
abbrev Resources := Std.ExtTreeMap String Json

/-- A configuration: each Section's resources. -/
abbrev Sections := SectionName → Resources

/-- The deployment's settings that the pipeline reads. -/
structure Settings where
  rawFilesSecretName : String := "trino-admin-raw-files"
  rawFilesVolumeName : String := "apchi-admin-raw-files"
  trinoUser : String := "apchi"
  catalogSecretName : String := "trino-catalog-seed"
  accessControlSecretName : String := "trino-access-control"
  eventListenerSecretName : String := "trino-event-listener"
  eventListenerVolumeName : String := "apchi-event-listener"
  certificateMappingSecretName : String := "trino-user-mapping"
  clientCertificateSecretName : String := "trino-client-certificates"
  resourceGroupsSecretName : String := "trino-resource-groups"
  resourceGroupsVolumeName : String := "apchi-resource-groups"
  resourceGroupsPropertiesFromDeployment : Bool := false
  eventListenerConfigFilesFromDeployment : Bool := false
  rolloutTimeoutSeconds : Nat := 600
  workerDeploymentName : String := "trino-worker"
  verificationCatalog : String := "system"
  coordinatorDeploymentName : String := "trino-coordinator"
  trinoContainerName : String := "trino"
  alertWebhookUrl : Option String := none
  environment : String := "development"
  catalogStoreDir : String := "/data/trino/catalogs"
  trinoUrl : String := "http://trino:8080"
  trinoAuthCertificateFile : Option String := none
  clientCertificateMaxBytes : Nat := 1024 * 1024

/-- A mapping pattern, as it is stored. -/
structure CertificateMappingWrite where
  pattern : String
  user : String := "$1"
  case : String := "keep"
  deriving DecidableEq, Repr

/-- Everything Admins configure outside the Candidate. -/
structure AdminValues where
  enforcePermissions : Bool := false
  preservedAccessControl : Permissions.Preserved := ∅
  /-- Raw files by the path each is delivered at. -/
  rawFiles : Dict := ∅
  preservedCertificateMappings : List CertificateMappingWrite := []

/-- The Cluster as a Section is handed it: the settings, and the Admin values in force. -/
structure Cluster where
  settings : Settings
  admin : AdminValues

/-- Why an operation on a Section's resources is refused: the error's class and message, and what is
wrong with which property. -/
structure Refusal where
  kind : String
  message : String
  details : List (String × String) := []
  deriving DecidableEq, Repr

/-! ### Properties as they are stored -/

/-- A property as it is stored. -/
def propertyOf : String × Json → Except Error (String × String)
  | (key, .str value) => .ok (key, value)
  | (key, _) => .error ⟨"TypeError", s!"{key}: expected a text"⟩

/-- `dict(stored.get("properties", {}))`. -/
def propertiesOf : Option Json → Except Error Dict
  | none => .ok ∅
  | some (.obj fields) => do
      let properties ← fields.mapM propertyOf
      return Std.ExtTreeMap.ofList properties
  | some _ => .error ⟨"TypeError", "properties: expected a mapping"⟩

/-! ### Where a Section's files go -/

/-- A single file Apchi mounts, or a directory the Admin mounts and Apchi fills. -/
inductive Delivery where
  | file (secret volume path : String)
  | directory (secret path : String)
  deriving DecidableEq, Repr

namespace Delivery

def secret : Delivery → String
  | file secret _ _ => secret
  | directory secret _ => secret

def path : Delivery → String
  | file _ _ path => path
  | directory _ path => path

/-- The Secret key of a file, which is its name. -/
def key (spec : Delivery) : String := (PosixPath.ofString spec.path).name

end Delivery

/-! ### Plans and Sections -/

/-- What applying one configuration over another would do, in any Section's terms: resources
added, changed and removed, and whether anything else moved. -/
structure SectionPlan where
  added : List String := []
  changed : List String := []
  removed : List String := []
  otherwise : Bool := false
  deriving DecidableEq, Repr

def SectionPlan.empty (plan : SectionPlan) : Bool :=
  plan.added.isEmpty && plan.changed.isEmpty && plan.removed.isEmpty && !plan.otherwise

/-- The query Verification ran, and how to find it again. -/
structure SmokeQuery where
  sql : String
  queryId : String
  user : String
  source : String

/-- The calls a Section makes beyond its files: reads, catalog statements, and writes of the
Secret the catalogs are seeded from. -/
def ClusterCall.catalogsOnly (settings : Settings) {β : Type} : ClusterCall β → Prop
  | .writeSecret name _ => name = settings.catalogSecretName
  | .restartDeployment .. | .mountSecretFile .. | .unmountSecretFiles .. => False
  | _ => True

/-- A Section as the pipeline sees it. -/
structure Section where
  name : SectionName
  requiresRollout : Bool
  coordinatorFiles : Settings → List Delivery
  renderFiles : Resources → Settings → AdminValues → Except Error Dict
  plan : Resources → Resources → SectionPlan
  apply : Cluster → Resources → SectionPlan → ClusterProg Unit
  restore : Cluster → Resources → ClusterProg Bool
  verify : Cluster → Resources → SmokeQuery → ClusterProg (List String)
  apply_catalogsOnly : ∀ cluster desired plan,
    (apply cluster desired plan).All (ClusterCall.catalogsOnly cluster.settings)
  restore_catalogsOnly : ∀ cluster snapshot,
    (restore cluster snapshot).All (ClusterCall.catalogsOnly cluster.settings)
  restore_rollout : requiresRollout = true → ∀ cluster snapshot,
    restore cluster snapshot = Prog.ret false
  verify_reads : ∀ cluster desired smoke,
    (verify cluster desired smoke).All fun call => call.writes = false

/-- A Section whose files are all there is to it. -/
def Section.ofFiles (name : SectionName) (requiresRollout : Bool)
    (coordinatorFiles : Settings → List Delivery)
    (renderFiles : Resources → Settings → AdminValues → Except Error Dict)
    (plan : Resources → Resources → SectionPlan) : Section where
  name := name
  requiresRollout := requiresRollout
  coordinatorFiles := coordinatorFiles
  renderFiles := renderFiles
  plan := plan
  apply _ _ _ := Prog.ret ()
  restore _ _ := Prog.ret false
  verify _ _ _ := Prog.ret []
  apply_catalogsOnly _ _ _ := trivial
  restore_catalogsOnly _ _ := trivial
  restore_rollout _ _ _ := rfl
  verify_reads _ _ _ := trivial

end Apchi.Pipeline
