import Apchi.Pipeline.Forecast
import Apchi.Pipeline.RawPaths

/-!
# Preconditions Apchi asserts on the Trino deployment

Apchi does not own the Trino manifests.  It asserts what it depends on instead, before every Apply,
and lists everything that is wrong and not just the first thing.
-/

namespace Apchi.Pipeline

open Lib Coordinator

/-- Mode bits no credential file may have. -/
def FORBIDDEN_CREDENTIAL_BITS : Nat := 0o037

/-- The group Trino runs as. -/
def TRINO_GROUP : Nat := 1000

/-- Where Trino reads which access control to use, and how often to read its rules again. -/
def PROPERTIES_PATH : String := "/etc/trino/access-control.properties"

def REFRESH_PERIOD : String := "security.refresh-period"

def CONFIG_PROPERTIES : String := "/etc/trino/config.properties"

def AUTHENTICATION_TYPE : String := "http-server.authentication.type"

def ALLOW_INSECURE_OVER_HTTP : String := "http-server.authentication.allow-insecure-over-http"

def HTTPS_ENABLED : String := "http-server.https.enabled"

/-! ### What the registered Sections declare -/

/-- `owned_paths`: every path Apchi mounts something at, with the volume it uses there. -/
def ownedPaths (settings : Settings) : List (String × String) :=
  REGISTERED.flatMap fun sect => (sect.coordinatorFiles settings).filterMap fun
    | .file _ volume path => some (path, volume)
    | .directory .. => none

/-- `admin_mounted_secrets`: the Secrets a Section writes and the Admin mounts. -/
def adminMountedSecrets (settings : Settings) : List String :=
  REGISTERED.flatMap fun sect => (sect.coordinatorFiles settings).filterMap fun
    | .file .. => none
    | .directory secret _ => some secret

/-- The Sections whose files are declared with `credentials`. -/
def SectionName.credentials : SectionName → Bool
  | clientCertificates | eventListeners => true
  | _ => false

/-- `credential_secrets`: every Secret a Section writes that can hold a credential. -/
def credentialSecrets (settings : Settings) : List String :=
  (REGISTERED.filter SectionName.credentials).flatMap fun sect =>
    (sect.coordinatorFiles settings).map Delivery.secret

/-! ### What can be wrong -/

/-- A pointer the deployment claims to provide: the file that should hold it, the property, where it
must point, and the setting that claims it. -/
structure Pointer where
  holder : String
  property : String
  expected : String
  setting : String
  deriving DecidableEq, Repr

inductive Problem where
  | frozen (container : Container) (secret mountPath subPath : String)
  | noSeed (secret : String)
  | readOnlyStore (container : Container) (mount : VolumeMount) (directory : String)
  | contested (container : Container) (mount : VolumeMount) (expected : String)
  | unreadableProperties (container : Container) (mount : VolumeMount)
  | noRefreshPeriod
  | noProperties
  | directoryOver (container : Container) (mount : VolumeMount) (covered : List String)
  | pointerUnreadable (pointer : Pointer)
  | pointerUnset (pointer : Pointer)
  | pointerElsewhere (pointer : Pointer) (named : String)
  | pointerNowhere (pointer : Pointer)
  | noGroup (role : String) (volumes : List String) (follows : Bool)
  | noMode (role volume : String)
  | permissiveMode (role volume : String) (mode : Nat)
  | plainHttp (authenticator url : String)
  | noCertificate
  deriving DecidableEq, Repr

/-- A number in octal. -/
def octal (n : Nat) : String := .ofList (Nat.toDigits 8 n)

/-- What is said of a problem; `repr` is how a text is quoted. -/
def Problem.message (repr : String → String) : Problem → String
  | frozen container secret mountPath subPath =>
      "Container " ++ repr container.name ++ " mounts Secret " ++ repr secret ++ " at " ++
        mountPath ++ " with subPath " ++ repr subPath ++
        ". A subPath mount never receives updates, so " ++
        "Apchi would write this file and Trino would never see the change. " ++
        "Mount the whole volume instead."
  | noSeed secret =>
      "No initContainer mounts the catalog seed Secret " ++ repr secret ++
        ". Without one the coordinator starts with " ++
        "an empty catalog store and every catalog in the latest Snapshot is missing."
  | readOnlyStore container mount directory =>
      "Container " ++ repr container.name ++ " mounts a read-only volume " ++ repr mount.name ++
        " at " ++ mount.mountPath ++ ", which covers the catalog store " ++ directory ++
        ". Trino writes that directory itself, so every CREATE CATALOG would fail."
  | contested container mount expected =>
      "Container " ++ repr container.name ++ " mounts " ++ repr mount.name ++ " at " ++
        mount.mountPath ++ ", which is a file Apchi delivers. Apchi adds and " ++
        "removes its own volume " ++ repr expected ++ " there; remove this mount."
  | unreadableProperties container mount =>
      "Container " ++ repr container.name ++ " mounts " ++ repr mount.name ++ " at " ++
        mount.mountPath ++ ", which should provide " ++ PROPERTIES_PATH ++ ", but Apchi " ++
        "cannot read what is in it, so it cannot tell whether " ++ REFRESH_PERIOD ++ " is set."
  | noRefreshPeriod =>
      PROPERTIES_PATH ++ " does not set " ++ REFRESH_PERIOD ++ ". Without it Trino reads " ++
        "the access-control rules once at startup and never again, so Apchi would " ++
        "write a permission change, report success, and the Cluster would never see it."
  | noProperties =>
      "Nothing provides " ++ PROPERTIES_PATH ++ " -- neither that path nor the " ++
        (PosixPath.ofString PROPERTIES_PATH).parent.toText ++
        " directory is mounted -- so Trino is not configured to read " ++
        "the access-control rules Apchi writes. Every permission Apchi applies would be " ++
        "written and ignored."
  | directoryOver container mount covered =>
      "Container " ++ repr container.name ++ " mounts " ++ repr mount.name ++
        " as a directory at " ++ mount.mountPath ++ ", and Apchi mounts " ++
        ", ".intercalate covered ++ " inside it. " ++
        "Kubernetes cannot place a single file inside a read-only ConfigMap or " ++
        "Secret directory: the key is not in that volume, so there is nothing to " ++
        "bind onto and the container fails to start with \"not a directory\". Trino " ++
        "logs nothing, because it never runs. Mount the files under " ++ mount.mountPath ++
        " one at a time instead of mounting the whole directory."
  | pointerUnreadable pointer =>
      "Apchi is configured with " ++ pointer.setting ++ ", so the deployment must provide " ++
        pointer.property ++ " in " ++ pointer.holder ++
        ". A volume covers that path but Apchi found no file there, so " ++
        "either it is not in that volume or Apchi cannot read it. Set " ++ pointer.property ++
        "=" ++ pointer.expected ++ " in the file mounted at " ++ pointer.holder ++ ", or turn " ++
        pointer.setting ++ " off and let Apchi mount the file itself."
  | pointerUnset pointer =>
      pointer.holder ++ " does not set " ++ pointer.property ++ ", but Apchi is configured with " ++
        pointer.setting ++ " and so writes nothing at the path Trino reads by default. Every " ++
        .ofList (pointer.property.toList.takeWhile (· ≠ '.')) ++
        " Apchi applies would be written and ignored. Set " ++ pointer.property ++ "=" ++
        pointer.expected ++ ", or turn " ++ pointer.setting ++
        " off and let Apchi mount the file itself."
  | pointerElsewhere pointer named =>
      pointer.holder ++ " sets " ++ pointer.property ++ "=" ++ named ++ ", which is not " ++
        pointer.expected ++ " -- the directory " ++
        "Apchi fills. Trino would read a file Apchi never writes, so the Section " ++
        "would look applied and have no effect."
  | pointerNowhere pointer =>
      "Nothing provides " ++ pointer.holder ++ ", but Apchi is configured with " ++
        pointer.setting ++ " and depends on the deployment setting " ++ pointer.property ++
        " there. Mount it, or turn " ++ pointer.setting ++ " off."
  | noGroup role volumes follows =>
      "The " ++ role ++ " mounts " ++ ", ".intercalate volumes ++ ", which " ++
        "hold credentials, but sets no securityContext.fsGroup. A Secret volume's files " ++
        "are owned by root whatever the container runs as, so without a group Trino " ++
        "belongs to they can only be world-readable or unreadable. Set " ++
        "securityContext.fsGroup to the group Trino runs as (" ++ toString TRINO_GROUP ++ ")." ++
        if follows then " Apchi then restricts the files it mounts itself." else ""
  | noMode role volume =>
      "The " ++ role ++ "'s " ++ repr volume ++ " volume holds credentials and sets no " ++
        "defaultMode, so the kubelet writes its files 0644 -- readable by every " ++
        "process in the pod, and a private key mounted like that is one libpq " ++
        "refuses to use outright. Set defaultMode: 0" ++ octal CREDENTIAL_FILE_MODE ++
        " on that volume."
  | permissiveMode role volume mode =>
      "The " ++ role ++ "'s " ++ repr volume ++ " volume holds credentials with defaultMode 0o" ++
        octal mode ++ ", which grants world access, group write or group execute to a " ++
        "credential. Set defaultMode: 0" ++ octal CREDENTIAL_FILE_MODE ++ " on that volume."
  | plainHttp authenticator url =>
      CONFIG_PROPERTIES ++ " sets " ++ AUTHENTICATION_TYPE ++ "=" ++ authenticator ++ " with " ++
        HTTPS_ENABLED ++ "=true, and Trino then refuses plain HTTP from every client " ++
        "unless " ++ ALLOW_INSECURE_OVER_HTTP ++ " is true -- which it is not. Apchi's " ++
        "trino_url is " ++ repr url ++ ", so no query it issues would be " ++
        "answered. Point trino_url at the coordinator's https:// URL."
  | noCertificate =>
      CONFIG_PROPERTIES ++ " sets " ++ AUTHENTICATION_TYPE ++ "=CERTIFICATE, so Trino " ++
        "requires a certificate from every client including Apchi, and Apchi has " ++
        "none: trino_auth_certificate_file is unset. Give Apchi a certificate this " ++
        "Cluster's truststore accepts."

/-! ### The checks -/

/-- The mounts of these containers, each with its container. -/
def mountsOf (containers : List Container) : List (Container × VolumeMount) :=
  containers.flatMap fun container => container.volumeMounts.map (container, ·)

/-- The volume of this name is a Secret or a ConfigMap. -/
def readOnlyNamed (spec : PodSpec) (name : String) : Bool :=
  ((spec.volumeNamed name).map Volume.readOnlyByNature).getD false

/-- 1: files that change under a running pod must not be mounted with a `subPath`. -/
def frozenProblems (spec : PodSpec) (settings : Settings) : List Problem :=
  let managed := settings.catalogSecretName :: adminMountedSecrets settings
  (mountsOf spec.everyContainer).filterMap fun (container, mount) => do
    let volume ← spec.volumeNamed mount.name
    let subPath ← mount.subPath
    let secret ← volume.secretName
    if managed.contains secret then some (.frozen container secret mount.mountPath subPath)
    else none

/-- 2: an initContainer must mount the catalog seed. -/
def seedProblems (spec : PodSpec) (settings : Settings) : List Problem :=
  let seeds := (mountsOf spec.initContainers).filter fun (_, mount) =>
    (spec.volumeNamed mount.name).any fun volume =>
      volume.secretName == some settings.catalogSecretName
  if seeds.isEmpty then [.noSeed settings.catalogSecretName] else []

/-- 3: nothing read-only may be mounted over the catalog store. -/
def storeProblems (spec : PodSpec) (settings : Settings) : List Problem :=
  (mountsOf spec.containers).filterMap fun (container, mount) =>
    if readOnlyNamed spec mount.name && covers mount.mountPath settings.catalogStoreDir then
      some (.readOnlyStore container mount settings.catalogStoreDir)
    else none

/-- 4: every file a Section declares is Apchi's to mount. -/
def contestedProblems (spec : PodSpec) (settings : Settings) : List Problem :=
  (mountsOf spec.containers).filterMap fun (container, mount) => do
    let expected ← (ownedPaths settings).lookup mount.mountPath
    if mount.name ≠ expected then some (.contested container mount expected) else none

/-- 5, `_refresh_period_problems`: the properties Trino reads must set a refresh period. -/
def refreshPeriodProblems (kubernetes : Adapter) (spec : PodSpec) :
    List Container → Except Error (List Problem)
  | [] => .ok [.noProperties]
  | container :: rest =>
      match provides container PROPERTIES_PATH with
      | none => refreshPeriodProblems kubernetes spec rest
      | some mount =>
          if (spec.volumeNamed mount.name).isNone then refreshPeriodProblems kubernetes spec rest
          else do
            match ← contentAt kubernetes spec PROPERTIES_PATH (some container.name) with
            | none => return [.unreadableProperties container mount]
            | some content =>
                let sets := (PyText.lines content).any fun line =>
                  (REFRESH_PERIOD ++ "=").toList.isPrefixOf (PyText.strip line.toList)
                return if sets then [] else [.noRefreshPeriod]

/-- 6, `_directory_mounts_over_apchis_files`: the declared files below a read-only volume. -/
def coveredPaths (settings : Settings) (mount : VolumeMount) : List String :=
  (Std.ExtTreeSet.ofList (((ownedPaths settings).map Prod.fst).filter fun path =>
    covers mount.mountPath (PosixPath.ofString path).parent.toText)).toList

def directoryProblems (spec : PodSpec) (settings : Settings) : List Problem :=
  (mountsOf spec.containers).filterMap fun (container, mount) =>
    if readOnlyNamed spec mount.name && !(coveredPaths settings mount).isEmpty then
      some (.directoryOver container mount (coveredPaths settings mount))
    else none

/-- `_property_in`: a Java properties value, the last of the name. -/
def propertyIn (content property : String) : Option String :=
  (PyText.lines content).foldl (fun found line =>
    let line := PyText.strip line.toList
    if (property ++ "=").toList.isPrefixOf line then
      some (.ofList (PyText.strip (line.drop (property ++ "=").length)))
    else found) none

/-- `_pointer_problem`. -/
def pointerProblem (kubernetes : Adapter) (spec : PodSpec) (pointer : Pointer) :
    List Container → Except Error (List Problem)
  | [] => .ok [.pointerNowhere pointer]
  | container :: rest =>
      if (provides container pointer.holder).isNone then
        pointerProblem kubernetes spec pointer rest
      else do
        match ← contentAt kubernetes spec pointer.holder (some container.name) with
        | none => return [.pointerUnreadable pointer]
        | some content =>
            match propertyIn content pointer.property with
            | none => return [.pointerUnset pointer]
            | some named =>
                return if named ≠ pointer.expected then [.pointerElsewhere pointer named] else []

/-- The pointers the settings say the deployment provides. -/
def pointers (settings : Settings) : List Pointer :=
  (if settings.resourceGroupsPropertiesFromDeployment then [{
      holder := ResourceGroups.MANAGER_PATH
      property := "resource-groups.config-file"
      expected := "/etc/trino/resource-groups/resource-groups.json"
      setting := "resource_groups_properties_from_deployment" }] else []) ++
    if settings.eventListenerConfigFilesFromDeployment then [{
      holder := CONFIG_PROPERTIES
      property := "event-listener.config-files"
      expected := EventListeners.PATH_IN_DIR
      setting := "event_listener_config_files_from_deployment" }] else []

/-- 7, `_pointer_problems`: a pointer the deployment claims to provide is really there. -/
def pointerProblems (kubernetes : Adapter) (spec : PodSpec) (settings : Settings) :
    Except Error (List Problem) := do
  let problems ← (pointers settings).mapM fun pointer =>
    pointerProblem kubernetes spec pointer spec.containers
  return problems.flatten

/-- `_exposure_in`: one role's credential-bearing volumes, and what is wrong with them. -/
def exposureIn (spec : PodSpec) (role : String) (settings : Settings) (apchiMounted : List String) :
    List Problem :=
  let bearing := settings.catalogSecretName :: credentialSecrets settings
  let mounted := spec.volumes.filter fun volume => volume.secretName.any bearing.contains
  if mounted.isEmpty then []
  else if spec.fsGroup.isNone then
    [.noGroup role (Std.ExtTreeSet.ofList (mounted.map Coordinator.Volume.name)).toList
      (!apchiMounted.isEmpty)]
  else
    (mounted.filter fun volume => !apchiMounted.contains volume.name).filterMap fun volume =>
      match volume.defaultMode with
      | none => some (.noMode role volume.name)
      | some mode =>
          if mode &&& FORBIDDEN_CREDENTIAL_BITS ≠ 0 then some (.permissiveMode role volume.name mode)
          else none

/-- 8, `_credential_exposure_problems`: on the coordinator and on the worker, if there is one. -/
def credentialExposureProblems (kubernetes : Adapter) (spec : PodSpec) (settings : Settings) :
    Except Error (List Problem) := do
  let worker ← kubernetes.deploymentPodSpecIfPresent settings.workerDeploymentName
  return exposureIn spec "coordinator" settings ((ownedPaths settings).map Prod.snd) ++
    match worker with
    | some worker => exposureIn worker "worker" settings []
    | none => []

/-- 9, `_unreachable_coordinator_problems`: Trino must answer the scheme `trino_url` names. -/
def unreachableCoordinatorProblems (kubernetes : Adapter) (spec : PodSpec) (settings : Settings) :
    Except Error (List Problem) := do
  match ← contentAt kubernetes spec CONFIG_PROPERTIES none with
  | none => return []
  | some content =>
      let enabled property :=
        PyText.lower (PyText.stripped ((propertyIn content property).getD "false")) = "true"
      let authenticator := (propertyIn content AUTHENTICATION_TYPE).getD ""
      let usesTls := "https://".toList.isPrefixOf settings.trinoUrl.toList
      -- with TLS ended in front of Trino nothing is refused
      if usesTls ∧ ¬ enabled HTTPS_ENABLED then return []
      else if authenticator ≠ "" ∧ enabled HTTPS_ENABLED ∧ ¬ enabled ALLOW_INSECURE_OVER_HTTP then
        if !usesTls then return [.plainHttp authenticator settings.trinoUrl]
        else if settings.trinoAuthCertificateFile = none ∧
            PyText.upper authenticator = "CERTIFICATE" then
          return [.noCertificate]
        else return []
      else return []

/-- Everything wrong with the deployment, and what of it is wrong with Apchi's own settings. -/
def problemsOf (kubernetes : Adapter) (spec : PodSpec) (settings : Settings) :
    Except Error (List Problem × List Problem) := do
  let refreshPeriod ← refreshPeriodProblems kubernetes spec spec.containers
  let pointers ← pointerProblems kubernetes spec settings
  let exposed ← credentialExposureProblems kubernetes spec settings
  let own ← unreachableCoordinatorProblems kubernetes spec settings
  return (frozenProblems spec settings ++ seedProblems spec settings ++
    storeProblems spec settings ++ contestedProblems spec settings ++ refreshPeriod ++
    directoryProblems spec settings ++ pointers ++ exposed ++ own, own)

/-- How the preconditions fail: a call that failed, or `PreconditionFailed`. -/
inductive PreconditionFailure where
  | raised (e : Error)
  | failed (problems ownConfiguration : List Problem)
  deriving DecidableEq

/-- `check`. -/
def check (kubernetes : Adapter) (spec : PodSpec) (settings : Settings) :
    Except PreconditionFailure Unit :=
  match problemsOf kubernetes spec settings with
  | .error e => .error (.raised e)
  | .ok (problems, own) => if problems.isEmpty then .ok () else .error (.failed problems own)

/-- `_assert_preconditions`. -/
def assertPreconditions (kubernetes : Adapter) (settings : Settings) :
    Except PreconditionFailure Unit :=
  match kubernetes.deploymentPodSpec settings.coordinatorDeploymentName with
  | .error e => .error (.raised e)
  | .ok spec => check kubernetes spec settings

/-! ### What an Apply mounts -/

/-- Every path an Apply mounts a single file at, with the volume it uses there. -/
def singleFiles (settings : Settings) (admin : AdminValues) : List (String × String) :=
  ownedPaths settings ++ admin.rawFiles.keys.map fun path => (path, settings.rawFilesVolumeName)

theorem mem_ownedPaths {settings : Settings} {path volume : String} :
    (path, volume) ∈ ownedPaths settings ↔ ∃ sect ∈ REGISTERED, ∃ secret,
      Delivery.file secret volume path ∈ sect.coordinatorFiles settings := by
  simp only [ownedPaths, List.mem_flatMap, List.mem_filterMap]
  refine exists_congr fun sect => and_congr_right fun _ => ?_
  constructor
  · rintro ⟨spec, hspec, hfile⟩
    cases spec with
    | file secret v p =>
      cases hfile
      exact ⟨secret, hspec⟩
    | directory secret p => cases hfile
  · rintro ⟨secret, hspec⟩
    exact ⟨_, hspec, rfl⟩

/-- A mount that delivering a Section makes is at a path the Section declares. -/
theorem mem_mountVolume {settings : Settings} {declared : List Delivery} {contents : Dict}
    {container volume secret path key name : String}
    (h : .mountSecretFile container volume secret path key ∈
      mountVolume settings declared contents name) : .file secret volume path ∈ declared := by
  rcases List.mem_append.mp h with h | h
  · obtain ⟨spec, hspec, heq⟩ := List.mem_map.mp h
    obtain ⟨hmem, hon⟩ := List.mem_filter.mp (List.mem_filter.mp hspec).1
    cases spec with
    | file s v p =>
      cases heq
      cases of_decide_eq_true hon
      exact hmem
    | directory s p => cases hon
  · split at h
    · cases h
    · cases List.mem_singleton.mp h

/-- Every mount an Apply makes is of one of the single files. -/
theorem mount_mem_singleFiles {app : App} {settings : Settings} {admin : AdminValues}
    {contents : Dict} {gone : List String} {container volume secret path key : String}
    (hsettings : app.settings = settings)
    (h : (∃ sect ∈ REGISTERED, ∃ name, .mountSecretFile container volume secret path key ∈
        mountVolume settings (sect.coordinatorFiles settings) contents name) ∨
      .mountSecretFile container volume secret path key ∈ mountRaw app admin.rawFiles gone) :
    (path, volume) ∈ singleFiles settings admin := by
  refine List.mem_append.mpr ?_
  rcases h with ⟨sect, hsect, name, hmount⟩ | hmount
  · exact Or.inl (mem_ownedPaths.mpr ⟨sect, hsect, secret, mem_mountVolume hmount⟩)
  · refine Or.inr (List.mem_map.mpr ?_)
    rcases List.mem_append.mp hmount with h | h
    · obtain ⟨p, hp, heq⟩ := List.mem_map.mp h
      cases heq
      exact ⟨_, hp, by rw [hsettings]⟩
    · split at h
      · cases h
      · cases List.mem_singleton.mp h

/-! ### What passing the checks says -/

theorem mem_mountsOf {containers : List Container} {container : Container} {mount : VolumeMount} :
    (container, mount) ∈ mountsOf containers ↔
      container ∈ containers ∧ mount ∈ container.volumeMounts := by
  simp only [mountsOf, List.mem_flatMap, List.mem_map, Prod.mk.injEq]
  constructor
  · rintro ⟨c, hc, m, hm, rfl, rfl⟩
    exact ⟨hc, hm⟩
  · rintro ⟨hc, hm⟩
    exact ⟨container, hc, mount, hm, rfl, rfl⟩

/-- Nothing is wrong with the deployment where the check passes. -/
theorem check_eq_ok {kubernetes : Adapter} {spec : PodSpec} {settings : Settings}
    (h : check kubernetes spec settings = .ok ()) :
    contestedProblems spec settings = [] ∧ directoryProblems spec settings = [] := by
  unfold check at h
  split at h
  · cases h
  · next problems own hproblems =>
    split at h
    · next hempty =>
      rw [List.isEmpty_iff] at hempty
      subst hempty
      unfold problemsOf at hproblems
      obtain ⟨refreshPeriod, -, hproblems⟩ := ok_of_bind hproblems
      obtain ⟨pointers, -, hproblems⟩ := ok_of_bind hproblems
      obtain ⟨exposed, -, hproblems⟩ := ok_of_bind hproblems
      obtain ⟨own, -, hproblems⟩ := ok_of_bind hproblems
      have hall := congrArg Prod.fst (Except.ok.inj hproblems)
      simp only [List.append_eq_nil_iff] at hall
      exact ⟨hall.1.1.1.1.1.2, hall.1.1.1.2⟩
    · cases h

/-- A single file can be mounted here: nothing read-only is mounted as a directory over it, and no
other volume at its path. -/
structure Mountable (spec : PodSpec) (path volume : String) : Prop where
  uncovered : ∀ container ∈ spec.containers, ∀ mount ∈ container.volumeMounts,
    mount.subPath.getD "" = "" → readOnlyNamed spec mount.name = true →
      covers mount.mountPath (PosixPath.ofString path).parent.toText = false
  alone : ∀ container ∈ spec.containers, ∀ mount ∈ container.volumeMounts,
    mount.mountPath = path → mount.name = volume

/-- The check made of one path when a raw file is written asks that nothing covers it. -/
theorem refuseIfUnmountable_eq_ok {spec : PodSpec} {path : String} :
    refuseIfUnmountable path (.ok spec) = .ok () ↔
      ∀ container ∈ spec.containers, ∀ mount ∈ container.volumeMounts,
        mount.subPath.getD "" = "" → readOnlyNamed spec mount.name = true →
          covers mount.mountPath (PosixPath.ofString path).parent.toText = false := by
  have hfind : refuseIfUnmountable path (.ok spec) = .ok () ↔ ∀ mount ∈ directoryMounts spec,
      covers mount.mountPath (PosixPath.ofString path).parent.toText = false := by
    unfold refuseIfUnmountable
    cases hfound : (directoryMounts spec).find? fun mount =>
      covers mount.mountPath (PosixPath.ofString path).parent.toText with
    | none => simpa [hfound] using List.find?_eq_none.mp hfound
    | some mount =>
      have hcovers := List.find?_some hfound
      have hmem := List.mem_of_find?_eq_some hfound
      simp only [hfound, reduceCtorEq, false_iff]
      exact fun hall => by simp [hall mount hmem] at hcovers
  rw [hfind]
  constructor
  · intro hall container hcontainer mount hmount hwhole hreadOnly
    refine hall mount (List.mem_filter.mpr ⟨List.mem_flatMap.mpr ⟨container, hcontainer, hmount⟩, ?_⟩)
    rw [Bool.and_eq_true]
    exact ⟨decide_eq_true hwhole, hreadOnly⟩
  · intro hall mount hmount
    obtain ⟨hmem, hkind⟩ := List.mem_filter.mp hmount
    obtain ⟨container, hcontainer, hmount⟩ := List.mem_flatMap.mp hmem
    rw [Bool.and_eq_true] at hkind
    exact hall container hcontainer mount hmount (of_decide_eq_true hkind.1) hkind.2

theorem ownedPaths_eq (settings : Settings) : ownedPaths settings =
    (if settings.eventListenerConfigFilesFromDeployment then []
      else [(EventListeners.MOUNT_PATH, settings.eventListenerVolumeName)]) ++
    if settings.resourceGroupsPropertiesFromDeployment then []
      else [(ResourceGroups.RULES_PATH, settings.resourceGroupsVolumeName),
        (ResourceGroups.MANAGER_PATH, settings.resourceGroupsVolumeName)] := by
  unfold ownedPaths REGISTERED
  simp only [List.flatMap_cons, List.flatMap_nil, SectionName.coordinatorFiles,
    ClientCertificates.coordinatorFiles, CertificateMapping.coordinatorFiles,
    EventListeners.coordinatorFiles, ResourceGroups.coordinatorFiles]
  split <;> split <;> rfl

/-- The registered Sections declare no path twice. -/
theorem ownedPaths_lookup {settings : Settings} {path volume : String}
    (h : (path, volume) ∈ ownedPaths settings) :
    (ownedPaths settings).lookup path = some volume := by
  rw [ownedPaths_eq] at h ⊢
  have hne : EventListeners.MOUNT_PATH ≠ ResourceGroups.RULES_PATH ∧
      EventListeners.MOUNT_PATH ≠ ResourceGroups.MANAGER_PATH ∧
      ResourceGroups.RULES_PATH ≠ ResourceGroups.MANAGER_PATH := by decide
  split at h <;> split at h <;> simp_all [List.lookup_cons] <;> grind

/-- Where the check passes, a file that a Section declares can be mounted. -/
theorem mountable_of_owned {kubernetes : Adapter} {spec : PodSpec} {settings : Settings}
    (h : check kubernetes spec settings = .ok ()) {path volume : String}
    (howned : (path, volume) ∈ ownedPaths settings) : Mountable spec path volume := by
  obtain ⟨hcontested, hdirectory⟩ := check_eq_ok h
  refine ⟨fun container hcontainer mount hmount _ hreadOnly => ?_,
    fun container hcontainer mount hmount hpath => ?_⟩
  · have hnone := List.filterMap_eq_nil_iff.mp hdirectory _ (mem_mountsOf.mpr ⟨hcontainer, hmount⟩)
    by_contra hcovers
    rw [Bool.not_eq_false] at hcovers
    have hmem : path ∈ coveredPaths settings mount := by
      unfold coveredPaths
      rw [Std.ExtTreeSet.mem_toList, Std.ExtTreeSet.mem_ofList]
      refine List.contains_iff_mem.mpr (List.mem_filter.mpr ⟨?_, hcovers⟩)
      exact List.mem_map_of_mem howned
    have hsome : (coveredPaths settings mount).isEmpty = false :=
      List.isEmpty_eq_false_iff.mpr (List.ne_nil_of_mem hmem)
    simp [hreadOnly, hsome] at hnone
  · have hnone := List.filterMap_eq_nil_iff.mp hcontested _ (mem_mountsOf.mpr ⟨hcontainer, hmount⟩)
    by_contra hother
    subst hpath
    simp [ownedPaths_lookup howned, hother] at hnone

/-- Where the preconditions hold, every single file of an Apply can be mounted exactly when the
check that is made of a raw file's path as it is written would still pass for each raw file, and no
other volume is mounted at one. -/
theorem singleFiles_mountable_iff {kubernetes : Adapter} {settings : Settings} {spec : PodSpec}
    (admin : AdminValues)
    (hspec : kubernetes.deploymentPodSpec settings.coordinatorDeploymentName = .ok spec)
    (h : assertPreconditions kubernetes settings = .ok ()) :
    (∀ file ∈ singleFiles settings admin, Mountable spec file.1 file.2) ↔
      ∀ path ∈ admin.rawFiles, refuseIfUnmountable path (.ok spec) = .ok () ∧
        ∀ container ∈ spec.containers, ∀ mount ∈ container.volumeMounts,
          mount.mountPath = path → mount.name = settings.rawFilesVolumeName := by
  have hcheck : check kubernetes spec settings = .ok () := by
    rwa [assertPreconditions, hspec] at h
  constructor
  · intro hall path hpath
    have hraw := hall (path, settings.rawFilesVolumeName)
      (List.mem_append_right _ (List.mem_map_of_mem (Std.ExtTreeMap.mem_keys.mpr hpath)))
    exact ⟨refuseIfUnmountable_eq_ok.mpr hraw.uncovered, hraw.alone⟩
  · intro hraw file hfile
    rcases List.mem_append.mp hfile with howned | hmem
    · exact mountable_of_owned hcheck howned
    · obtain ⟨path, hpath, rfl⟩ := List.mem_map.mp hmem
      obtain ⟨huncovered, halone⟩ := hraw path (Std.ExtTreeMap.mem_keys.mp hpath)
      exact ⟨refuseIfUnmountable_eq_ok.mp huncovered, halone⟩

/-! ### A deployment that passes -/

/-- A coordinator whose one read-only directory mount is inside the configuration directory. -/
def nestedSpec : PodSpec where
  containers := [⟨"trino", [
    { name := "config", mountPath := "/etc/trino/access-control.properties",
      subPath := some "access-control.properties" },
    { name := "extra", mountPath := "/etc/trino/extra" }]⟩]
  volumes := [
    { name := "config", configMapName := some "trino-config" },
    { name := "extra", configMapName := some "trino-extra" },
    { name := "seed", secretName := some "trino-catalog-seed", defaultMode := some 0o640 }]
  initContainers := [⟨"seed", [{ name := "seed", mountPath := "/seed" }]⟩]
  fsGroup := some 1000

def nestedDeployment : Adapter where
  readConfigMap _ := .ok ((∅ : Dict).insert "access-control.properties"
    "access-control.name=file\nsecurity.refresh-period=1s\n")
  readSecret _ := .ok ∅
  deploymentPodSpec _ := .ok nestedSpec
  deploymentPodSpecIfPresent _ := .ok none

theorem nestedDeployment_passes : assertPreconditions nestedDeployment {} = .ok () := by
  decide +kernel

/-- With no raw file there is nothing the preconditions leave out. -/
theorem nested_sections_mountable : assertPreconditions nestedDeployment {} = .ok () ∧
    ∀ file ∈ singleFiles {} {}, Mountable nestedSpec file.1 file.2 :=
  ⟨nestedDeployment_passes,
    (singleFiles_mountable_iff {} rfl nestedDeployment_passes).mpr fun _ h =>
      absurd h Std.ExtTreeMap.not_mem_empty⟩

/-- The preconditions hold, and a raw file is inside a ConfigMap's directory. -/
theorem nested_raw_file_not_mountable :
    let admin : AdminValues := { rawFiles := (∅ : Dict).insert "/etc/trino/extra/jvm.config" "x" }
    assertPreconditions nestedDeployment {} = .ok () ∧
      ("/etc/trino/extra/jvm.config", "apchi-admin-raw-files") ∈ singleFiles {} admin ∧
      ¬ Mountable nestedSpec "/etc/trino/extra/jvm.config" "apchi-admin-raw-files" := by
  refine ⟨nestedDeployment_passes, by decide +kernel, fun h => ?_⟩
  have hcovers := h.uncovered _ (.head _) { name := "extra", mountPath := "/etc/trino/extra" }
    (by decide) rfl (by decide +kernel)
  exact absurd hcovers (by decide +kernel)

end Apchi.Pipeline
