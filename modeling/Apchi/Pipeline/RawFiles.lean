import Apchi.Pipeline.Files

/-!
# Delivering the Admin's raw files

Not a Section: one Secret, and a `subPath` mount for each file on one volume Apchi owns.  The Secret
is written first, then each file is mounted, then those that are gone are unmounted.
-/

namespace Apchi.Pipeline

open Lib

/-- What the pipeline is built with: the settings, the registered Sections, the digest that keeps
the Secret keys of raw files apart, and the durable form of the catalogs, which no Section
declares. -/
structure App where
  settings : Settings
  registered : List Section
  digest : String → String
  catalogSeed : Resources → Except Error Dict

/-- `secret_key`: the Secret key one raw file is stored under. -/
def secretKey (app : App) (path : String) : String :=
  app.digest path ++ "-" ++ (PosixPath.ofString path).name

/-- The Secret's contents for the raw files planned. -/
def rawContents (app : App) (desired : Dict) : Dict :=
  Std.ExtTreeMap.ofList (desired.toList.map fun (path, content) => (secretKey app path, content))

/-- A mount of one raw file: on Apchi's volume for them, with a `subPath`. -/
def isRawMount (settings : Settings) (mount : VolumeMount) : Bool :=
  mount.name == settings.rawFilesVolumeName && mount.subPath.getD "" != ""

/-- `_mounted_paths`: which raw files the coordinator is mounting. -/
def mountedPaths (settings : Settings) (template : PodTemplate) : Std.ExtTreeSet String :=
  .ofList (template.containers.flatMap fun container =>
    (container.volumeMounts.filter (isRawMount settings)).map VolumeMount.mountPath)

/-- The raw files mounted that are no longer there. -/
def goneFrom (settings : Settings) (template : PodTemplate) (desired : Dict) : List String :=
  (mountedPaths settings template).toList.filter fun path => path ∉ desired

/-- The calls that mount each raw file and unmount those that are gone. -/
def mountRaw (app : App) (desired : Dict) (gone : List String) : List (ClusterCall Unit) :=
  desired.keys.map (fun path =>
      .mountSecretFile app.settings.trinoContainerName app.settings.rawFilesVolumeName
        app.settings.rawFilesSecretName path (secretKey app path))
    ++ if gone.isEmpty then []
      else [.unmountSecretFiles app.settings.trinoContainerName app.settings.rawFilesVolumeName gone
        desired.isEmpty]

/-- `raw_files.deliver`. -/
def deliverRaw (app : App) (cluster : Cluster) : ClusterProg Unit := do
  let desired := cluster.admin.rawFiles
  Prog.perform (.writeSecret app.settings.rawFilesSecretName (rawContents app desired))
  let template ← Prog.perform .deploymentPodSpec
  let gone := goneFrom app.settings template desired
  Prog.each (mountRaw app desired gone) Prog.perform

/-- `raw_files.changed`: whether delivering would change what the coordinator is holding. -/
def rawChanged (app : App) (cluster : Cluster) : ClusterProg Bool := do
  let desired := cluster.admin.rawFiles
  let template ← Prog.perform .deploymentPodSpec
  if Std.ExtTreeSet.ofList desired.keys ≠ mountedPaths app.settings template then
    pure true
  else
    let live ← Prog.perform (.readSecretIfPresent app.settings.rawFilesSecretName)
    pure (rawContents app desired ≠ live.getD ∅)

theorem rawChanged_reads (app : App) (cluster : Cluster) : ReadsOnly (rawChanged app cluster) := by
  refine Prog.All.bind (Prog.all_perform rfl) fun template => ?_
  show ReadsOnly (if Std.ExtTreeSet.ofList cluster.admin.rawFiles.keys ≠
    mountedPaths app.settings template then _ else _)
  split
  · trivial
  · exact Prog.All.bind (Prog.all_perform rfl) fun _ => trivial

/-- A pipeline with no Section. -/
def bareApp : App where
  settings := {}
  registered := []
  digest := id
  catalogSeed _ := .ok ∅

end Apchi.Pipeline
