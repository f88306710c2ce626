import Apchi.Lib.Prog
import Apchi.Lib.Json
import Std.Data.ExtTreeMap

/-!
# The Cluster as Apchi's adapters see it

Secrets, the coordinator's pod template, the catalogs Trino serves, and what the coordinator
loaded when it last started.  Kubernetes restarts the coordinator whenever its pod template
changes, whoever asked; rewriting a Secret alone restarts nothing.  A coordinator runs what its
mounted files held at its last start, so the Cluster remembers the Secrets as they were then, and
which Secrets have changed content since.

The calls are those of the Kubernetes adapter and of the Trino client.  What Trino answers is
Trino's affair and a parameter (`Platform`).
-/

namespace Apchi.Pipeline

open Lib

/-- A dictionary of texts: the contents of a Secret, a catalog's properties, files by path. -/
abbrev Dict := Std.ExtTreeMap String String

/-! ### The coordinator's pod template -/

structure VolumeMount where
  name : String
  mountPath : String
  subPath : Option String := none
  readOnly : Bool := false
  deriving DecidableEq, Repr

structure Container where
  name : String
  volumeMounts : List VolumeMount
  deriving DecidableEq, Repr

/-- Where a volume's content comes from: a Secret, or something else Apchi leaves alone. -/
inductive VolumeSource where
  | secret (secretName : String) (defaultMode : Option Nat)
  | other (description : String)
  deriving DecidableEq, Repr

structure Volume where
  name : String
  source : VolumeSource
  deriving DecidableEq, Repr

/-- The pod template of the coordinator's Deployment. -/
structure PodTemplate where
  containers : List Container
  initContainers : List Container := []
  volumes : List Volume
  fsGroup : Option Nat := none
  /-- `apchi.dev/restarted-at`, as the number of restarts asked for. -/
  restartedAt : Nat := 0
  /-- `apchi.dev/restarted-because`. -/
  restartedBecause : String := ""
  deriving DecidableEq, Repr

/-- The mode of a Secret file that carries credentials. -/
def CREDENTIAL_FILE_MODE : Nat := 0o640

/-- Volumes merge by name.  The API server takes no volume with two sources. -/
def mergeVolume (volume secret : String) (mode : Option Nat) :
    List Volume → Except Error (List Volume)
  | [] => .ok [⟨volume, .secret secret mode⟩]
  | v :: rest =>
      if v.name = volume then
        match v.source with
        | .secret _ defaultMode => .ok (⟨volume, .secret secret (mode <|> defaultMode)⟩ :: rest)
        | .other _ => .error ⟨"ApiException", "may not specify more than 1 volume type"⟩
      else do
        let merged ← mergeVolume volume secret mode rest
        return v :: merged

/-- Mounts merge by `mountPath`. -/
def mergeMount (mount : VolumeMount) : List VolumeMount → List VolumeMount
  | [] => [mount]
  | m :: rest => if m.mountPath = mount.mountPath then mount :: rest else m :: mergeMount mount rest

/-- A patch of one container's mounts; a container with nothing but mounts is not a container. -/
def patchContainer (container : String) (patch : List VolumeMount → List VolumeMount) :
    List Container → Except Error (List Container)
  | [] => .error ⟨"ApiException", "spec.template.spec.containers: image: Required value"⟩
  | c :: rest =>
      if c.name = container then .ok ({ c with volumeMounts := patch c.volumeMounts } :: rest)
      else do
        let patched ← patchContainer container patch rest
        return c :: patched

/-- The mount Apchi makes for one file: one key of a volume, read-only. -/
def fileMount (volume path key : String) : VolumeMount :=
  { name := volume, mountPath := path, subPath := some key, readOnly := true }

/-- The template after the patch of `mount_secret_file`. -/
def PodTemplate.mountSecretFile (template : PodTemplate)
    (container volume secret path key : String) : Except Error PodTemplate := do
  let mode := if template.fsGroup.isSome then some CREDENTIAL_FILE_MODE else none
  let volumes ← mergeVolume volume secret mode template.volumes
  let containers ←
    patchContainer container (mergeMount (fileMount volume path key)) template.containers
  return { template with volumes := volumes, containers := containers }

/-- The template after the patch of `unmount_secret_files`.  The API server takes no template in
which a mount names a volume that is not there. -/
def PodTemplate.unmountSecretFiles (template : PodTemplate) (container volume : String)
    (paths : List String) (dropVolume : Bool) : Except Error PodTemplate := do
  let containers ←
    patchContainer container (List.filter fun m => !paths.contains m.mountPath) template.containers
  if dropVolume then
    if (template.initContainers ++ containers).any fun c =>
        c.volumeMounts.any fun m => m.name = volume then
      .error ⟨"ApiException", s!"volumeMounts[0].name: Not found: {volume}"⟩
    else
      return { template with
        volumes := template.volumes.filter fun v => v.name ≠ volume
        containers := containers }
  else
    return { template with containers := containers }

/-! ### The state of the Cluster -/

/-- A catalog as `CREATE CATALOG` made it. -/
structure LiveCatalog where
  connector : String
  properties : Dict
  deriving DecidableEq

/-- Where a Deployment is in adopting its current pod template. -/
structure RolloutState where
  generation : Nat := 0
  observedGeneration : Nat := 0
  replicas : Nat := 0
  updated : Nat := 0
  ready : Nat := 0
  unavailable : Nat := 0
  deriving DecidableEq, Repr

def RolloutState.complete (state : RolloutState) : Bool :=
  state.generation ≤ state.observedGeneration && state.updated == state.replicas
    && state.ready == state.replicas && state.unavailable == 0

def RolloutState.summary (state : RolloutState) : String :=
  s!"generation {state.observedGeneration}/{state.generation}, " ++
    s!"updated {state.updated}/{state.replicas}, ready {state.ready}/{state.replicas}, " ++
    s!"unavailable {state.unavailable}"

abbrev Secrets := Std.ExtTreeMap String Dict

/-- The Cluster, with what its coordinator loaded at its last start. -/
structure ClusterState where
  secrets : Secrets
  template : PodTemplate
  catalogs : Std.ExtTreeMap String LiveCatalog
  /-- The Secrets as they were when the coordinator last started. -/
  loaded : Secrets
  /-- The Secrets whose content has changed since. -/
  stale : List String
  /-- How often the coordinator has been started. -/
  starts : Nat

/-- A Secret's contents; one that does not exist holds nothing. -/
def ClusterState.secret (state : ClusterState) (name : String) : Dict :=
  state.secrets[name]?.getD ∅

/-- What Trino and Kubernetes answer, which Apchi does not decide. -/
structure Platform where
  isStarting : ClusterState → Option Bool
  activeWorkerCount : ClusterState → Except Error Nat
  readyReplicas : ClusterState → String → Except Error Nat
  /-- A query that Trino ran, by its id. -/
  runQuery : ClusterState → String → Except Error String
  query : ClusterState → String → Except Error (List (List Json))
  queriesAtRisk : ClusterState → Except Error Nat
  rolloutState : ClusterState → RolloutState
  /-- Whether Trino takes a `CREATE CATALOG` of a name that is free. -/
  createCatalog : ClusterState → String → LiveCatalog → Except Error Unit
  /-- Whether Trino takes a `DROP CATALOG` of a catalog that is there. -/
  dropCatalog : ClusterState → String → Except Error Unit
  /-- The catalogs a coordinator starts with. -/
  catalogsAtStart : Secrets → Std.ExtTreeMap String LiveCatalog →
    Std.ExtTreeMap String LiveCatalog

/-- The coordinator starts on a template: it loads what the Secrets hold now. -/
def ClusterState.start (platform : Platform) (state : ClusterState) (template : PodTemplate) :
    ClusterState :=
  { state with
    template := template
    catalogs := platform.catalogsAtStart state.secrets state.catalogs
    loaded := state.secrets
    stale := []
    starts := state.starts + 1 }

/-- A patched template restarts the coordinator if and only if it is a different one. -/
def ClusterState.patch (platform : Platform) (state : ClusterState) (template : PodTemplate) :
    ClusterState :=
  if template = state.template then state else state.start platform template

/-- The Secret's contents become exactly `data`. -/
def ClusterState.writeSecret (state : ClusterState) (name : String) (data : Dict) : ClusterState :=
  { state with
    secrets := state.secrets.insert name data
    stale := if state.secret name = data then state.stale else name :: state.stale }

/-! ### The calls -/

/-- The calls of the Kubernetes adapter and of the Trino client.  The Deployment patched is always
the coordinator's. -/
inductive ClusterCall : Type → Type where
  | readSecret (name : String) : ClusterCall Dict
  | readSecretIfPresent (name : String) : ClusterCall (Option Dict)
  | writeSecret (name : String) (data : Dict) : ClusterCall Unit
  | readyReplicas (deployment : String) : ClusterCall Nat
  | deploymentPodSpec : ClusterCall PodTemplate
  | restartDeployment (reason : String) : ClusterCall Unit
  | rolloutState : ClusterCall RolloutState
  | mountSecretFile (container volume secret path key : String) : ClusterCall Unit
  | unmountSecretFiles (container volume : String) (paths : List String) (dropVolume : Bool) :
      ClusterCall Unit
  | isStarting : ClusterCall (Option Bool)
  | activeWorkerCount : ClusterCall Nat
  | runQuery (sql : String) : ClusterCall String
  | query (sql : String) : ClusterCall (List (List Json))
  | queriesAtRisk : ClusterCall Nat
  | catalogs : ClusterCall (List String)
  | createCatalog (name connector : String) (properties : Dict) : ClusterCall Unit
  | dropCatalog (name : String) : ClusterCall Unit

/-- A patch the API server may refuse. -/
def ClusterState.patched (platform : Platform) (state : ClusterState)
    (template : Except Error PodTemplate) : Except Error Unit × ClusterState :=
  match template with
  | .ok template => (.ok (), state.patch platform template)
  | .error e => (.error e, state)

/-- `CREATE CATALOG`: a name that is taken is refused. -/
def ClusterState.createCatalog (platform : Platform) (state : ClusterState) (name : String)
    (catalog : LiveCatalog) : Except Error Unit × ClusterState :=
  if name ∈ state.catalogs then
    (.error ⟨"TrinoUserError", s!"Catalog '{name}' already exists"⟩, state)
  else
    match platform.createCatalog state name catalog with
    | .ok _ => (.ok (), { state with catalogs := state.catalogs.insert name catalog })
    | .error e => (.error e, state)

/-- `DROP CATALOG`: a catalog that is not there is refused. -/
def ClusterState.dropCatalog (platform : Platform) (state : ClusterState) (name : String) :
    Except Error Unit × ClusterState :=
  if name ∈ state.catalogs then
    match platform.dropCatalog state name with
    | .ok _ => (.ok (), { state with catalogs := state.catalogs.erase name })
    | .error e => (.error e, state)
  else
    (.error ⟨"TrinoUserError", s!"Catalog '{name}' not found"⟩, state)

/-- What each call does to the Cluster when it goes through. -/
def ClusterState.exec (platform : Platform) {β : Type} (call : ClusterCall β)
    (state : ClusterState) : Except Error β × ClusterState :=
  match call with
  | .readSecret name => (.ok (state.secret name), state)
  | .readSecretIfPresent name => (.ok state.secrets[name]?, state)
  | .writeSecret name data => (.ok (), state.writeSecret name data)
  | .readyReplicas deployment => (platform.readyReplicas state deployment, state)
  | .deploymentPodSpec => (.ok state.template, state)
  | .restartDeployment reason =>
      (.ok (), state.start platform { state.template with
        restartedAt := state.template.restartedAt + 1, restartedBecause := reason })
  | .rolloutState => (.ok (platform.rolloutState state), state)
  | .mountSecretFile container volume secret path key =>
      state.patched platform (state.template.mountSecretFile container volume secret path key)
  | .unmountSecretFiles container volume paths dropVolume =>
      state.patched platform (state.template.unmountSecretFiles container volume paths dropVolume)
  | .isStarting => (.ok (platform.isStarting state), state)
  | .activeWorkerCount => (platform.activeWorkerCount state, state)
  | .runQuery sql => (platform.runQuery state sql, state)
  | .query sql => (platform.query state sql, state)
  | .queriesAtRisk => (platform.queriesAtRisk state, state)
  | .catalogs => (.ok state.catalogs.keys, state)
  | .createCatalog name connector properties =>
      state.createCatalog platform name ⟨connector, properties⟩
  | .dropCatalog name => state.dropCatalog platform name

/-- The Cluster as the machine the adapters' calls run on. -/
def clusterMachine (platform : Platform) : Machine ClusterCall ClusterState where
  exec := fun call state => state.exec platform call

/-- A program that touches nothing but the Cluster. -/
abbrev ClusterProg := Prog ClusterCall

/-- A Secret, a mount or a catalog is written by this call, or the coordinator restarted. -/
def ClusterCall.writes {β : Type} : ClusterCall β → Bool
  | .writeSecret .. | .restartDeployment .. | .mountSecretFile .. | .unmountSecretFiles ..
  | .createCatalog .. | .dropCatalog .. => true
  | _ => false

/-- A call that writes nothing leaves the Cluster as it is. -/
theorem ClusterState.exec_of_not_writes (platform : Platform) {β : Type} (call : ClusterCall β)
    (state : ClusterState) (h : call.writes = false) : (state.exec platform call).2 = state := by
  cases call <;> first | rfl | exact absurd h (by simp [ClusterCall.writes])

theorem patched_refused {platform : Platform} {state : ClusterState}
    {template : Except Error PodTemplate} {e : Error}
    (h : (state.patched platform template).1 = .error e) :
    (state.patched platform template).2 = state := by
  cases template with
  | ok template => cases h
  | error e => rfl

theorem createCatalog_refused {platform : Platform} {state : ClusterState} {name : String}
    {catalog : LiveCatalog} {e : Error}
    (h : (state.createCatalog platform name catalog).1 = .error e) :
    (state.createCatalog platform name catalog).2 = state := by
  unfold ClusterState.createCatalog at *
  by_cases hmem : name ∈ state.catalogs
  · rw [if_pos hmem]
  · rw [if_neg hmem] at h ⊢
    cases haccepted : platform.createCatalog state name catalog with
    | ok u =>
      rw [haccepted] at h
      cases h
    | error e => rfl

theorem dropCatalog_refused {platform : Platform} {state : ClusterState} {name : String}
    {e : Error} (h : (state.dropCatalog platform name).1 = .error e) :
    (state.dropCatalog platform name).2 = state := by
  unfold ClusterState.dropCatalog at *
  by_cases hmem : name ∈ state.catalogs
  · rw [if_pos hmem] at h ⊢
    cases haccepted : platform.dropCatalog state name with
    | ok u =>
      rw [haccepted] at h
      cases h
    | error e => rfl
  · rw [if_neg hmem]

/-- A call that fails leaves the Cluster as it is. -/
theorem ClusterState.exec_of_error (platform : Platform) {β : Type} (call : ClusterCall β)
    (state : ClusterState) {e : Error} (h : (state.exec platform call).1 = .error e) :
    (state.exec platform call).2 = state := by
  cases call with
  | mountSecretFile container volume secret path key => exact patched_refused h
  | unmountSecretFiles container volume paths dropVolume => exact patched_refused h
  | createCatalog name connector properties => exact createCatalog_refused h
  | dropCatalog name => exact dropCatalog_refused h
  | writeSecret name data => cases h
  | restartDeployment reason => cases h
  | _ => rfl

/-- A program that writes nothing. -/
abbrev ReadsOnly {α : Type} (p : ClusterProg α) : Prop := p.All fun c => c.writes = false

/-! ### What patches do to the Cluster -/

section patch

variable (platform : Platform) (state : ClusterState)

@[simp] theorem start_secrets (template : PodTemplate) :
    (state.start platform template).secrets = state.secrets := rfl

@[simp] theorem start_template (template : PodTemplate) :
    (state.start platform template).template = template := rfl

@[simp] theorem start_stale (template : PodTemplate) :
    (state.start platform template).stale = [] := rfl

@[simp] theorem start_loaded (template : PodTemplate) :
    (state.start platform template).loaded = state.secrets := rfl

@[simp] theorem start_starts (template : PodTemplate) :
    (state.start platform template).starts = state.starts + 1 := rfl

@[simp] theorem patch_secrets (template : PodTemplate) :
    (state.patch platform template).secrets = state.secrets := by
  unfold ClusterState.patch
  split <;> rfl

@[simp] theorem patch_template (template : PodTemplate) :
    (state.patch platform template).template = template := by
  unfold ClusterState.patch
  split
  · next h => exact h.symm
  · rfl

theorem patch_self : state.patch platform state.template = state := if_pos rfl

theorem patch_of_ne {template : PodTemplate} (h : template ≠ state.template) :
    state.patch platform template = state.start platform template := if_neg h

@[simp] theorem writeSecret_template (name : String) (data : Dict) :
    (state.writeSecret name data).template = state.template := rfl

@[simp] theorem writeSecret_starts (name : String) (data : Dict) :
    (state.writeSecret name data).starts = state.starts := rfl

@[simp] theorem writeSecret_secret (name : String) (data : Dict) :
    (state.writeSecret name data).secret name = data := by
  simp [ClusterState.secret, ClusterState.writeSecret]

theorem writeSecret_secret_of_ne {name other : String} (data : Dict) (h : other ≠ name) :
    (state.writeSecret name data).secret other = state.secret other := by
  simp only [ClusterState.secret, ClusterState.writeSecret, Std.ExtTreeMap.getElem?_insert,
    Std.LawfulEqCmp.compare_eq_iff_eq]
  rw [if_neg fun heq => h heq.symm]

end patch

/-! ### A Cluster to run on -/

/-- A coordinator that is up, with no workers, that takes every statement and starts with the
catalogs it had. -/
def quietPlatform : Platform where
  isStarting _ := some false
  activeWorkerCount _ := .ok 0
  readyReplicas _ _ := .ok 0
  runQuery _ _ := .ok "20250101_000000_00000_aaaaa"
  query _ _ := .ok []
  queriesAtRisk _ := .ok 0
  rolloutState _ := {}
  createCatalog _ _ _ := .ok ()
  dropCatalog _ _ := .ok ()
  catalogsAtStart _ catalogs := catalogs

/-- A coordinator that has just been started, with one container and nothing mounted. -/
def freshCluster : ClusterState where
  secrets := ∅
  template := { containers := [⟨"trino", []⟩], volumes := [] }
  catalogs := ∅
  loaded := ∅
  stale := []
  starts := 0

end Apchi.Pipeline
