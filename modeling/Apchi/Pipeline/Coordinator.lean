import Apchi.Lib.PosixPath
import Apchi.Pipeline.Cluster
import Mathlib.Data.List.DropRight
import Mathlib.Data.List.MinMax

/-!
# What the coordinator is running, read off its pod template

The pod template is read with the fields that concern Apchi and no others.  Which volume provides a
path is answered by the template alone; what is in it is asked of the Secret or the ConfigMap that
volume names.
-/

namespace Apchi.Pipeline.Coordinator

open Lib

/-- A volume as it is read: the Secret or the ConfigMap it is made of, if either, and the mode the
files of a Secret are written with, if one is asked for. -/
structure Volume where
  name : String
  secretName : Option String := none
  configMapName : Option String := none
  defaultMode : Option Nat := none
  deriving DecidableEq, Repr

/-- `read_only_by_nature`. -/
def Volume.readOnlyByNature (volume : Volume) : Bool :=
  volume.secretName.isSome || volume.configMapName.isSome

structure PodSpec where
  containers : List Container
  volumes : List Volume
  initContainers : List Container := []
  fsGroup : Option Nat := none
  deriving DecidableEq, Repr

/-- A volume by its name; the last of one name counts. -/
def PodSpec.volumeNamed (spec : PodSpec) (name : String) : Option Volume :=
  spec.volumes.reverse.find? fun volume => volume.name == name

/-- A text without the slashes at its end. -/
def trimSlashes (path : String) : String := .ofList (path.toList.rdropWhile (· == '/'))

/-- A mount at `mountPath` sits at or above `directory`, as the two are written. -/
def covers (mountPath directory : String) : Bool :=
  directory == trimSlashes mountPath ||
    (trimSlashes mountPath ++ "/").toList.isPrefixOf directory.toList

/-! ### What is at a path -/

/-- `every_container`. -/
def PodSpec.everyContainer (spec : PodSpec) : List Container :=
  spec.initContainers ++ spec.containers

/-- Where a path's content comes from: a volume, and the key inside it. -/
structure Source where
  mount : VolumeMount
  volume : Volume
  key : Option String
  deriving DecidableEq, Repr

/-- `provides`: the mount that puts a path in this container, which is the most specific of those at
or above it, and the first of these. -/
def provides (container : Container) (path : String) : Option VolumeMount :=
  (container.volumeMounts.filter fun mount => covers mount.mountPath (trimSlashes path)).argmax
    fun mount => (trimSlashes mount.mountPath).length

/-- `_key_for`: the key holding the path, given the mount serving it.  Nothing deeper than one level
inside a directory mount is a key. -/
def keyFor (mount : VolumeMount) (path : String) : Option String :=
  let mounted := trimSlashes mount.mountPath
  let wanted := trimSlashes path
  if mounted = wanted then
    match mount.subPath with
    | some subPath => if subPath = "" then some (PosixPath.ofString path).name else some subPath
    | none => some (PosixPath.ofString path).name
  else
    let relative := wanted.toList.drop (mounted ++ "/").length
    if mount.subPath.isSome || relative.contains '/' then none else some (.ofList relative)

/-- `source_of`: which volume provides a path, in this container or in any. -/
def sourceOf (spec : PodSpec) (containerName : Option String) (path : String) : Option Source :=
  spec.containers.findSome? fun container =>
    if containerName.all (· == container.name) then do
      let mount ← provides container path
      let volume ← spec.volumeNamed mount.name
      return { mount, volume, key := keyFor mount path }
    else none

/-- What the Kubernetes adapter is asked when a pod template is read. -/
structure Adapter where
  readConfigMap : String → Except Error Dict
  readSecret : String → Except Error Dict
  deploymentPodSpec : String → Except Error PodSpec
  deploymentPodSpecIfPresent : String → Except Error (Option PodSpec)

/-- `_data_of`. -/
def dataOf (kubernetes : Adapter) (volume : Volume) : Except Error (Option Dict) :=
  match volume.configMapName, volume.secretName with
  | some name, _ => do
      let data ← kubernetes.readConfigMap name
      return some data
  | none, some name => do
      let data ← kubernetes.readSecret name
      return some data
  | none, none => .ok none

/-- `content_at`: what the coordinator has at a path, if that can be read. -/
def contentAt (kubernetes : Adapter) (spec : PodSpec) (path : String) (container : Option String) :
    Except Error (Option String) :=
  match sourceOf spec container path with
  | none => .ok none
  | some source =>
      match source.key with
      | none => .ok none
      | some key => do
          let data ← dataOf kubernetes source.volume
          return data.bind fun data => data[key]?

end Apchi.Pipeline.Coordinator
