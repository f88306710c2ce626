import Apchi.Pipeline.Section
import Std.Data.ExtTreeSet

/-!
# Delivering the files Sections declare

One place does the writing, the mounting and the unmounting.  A Section's files are written Secret
by Secret, each Secret whole; then each volume's files with content are mounted and the others
unmounted, the volume leaving with its last file.
-/

namespace Apchi.Pipeline

open Lib

/-- A file under its key in one of the Secrets being filled. -/
def putFile (secret key content : String) : List (String × Dict) → List (String × Dict)
  | [] => []
  | (name, data) :: rest =>
      if name = secret then (name, data.insert key content) :: rest
      else (name, data) :: putFile secret key content rest

/-- One rendered file taken by a declaration; empty content leaves the file out. -/
def claimFile (secret key path : String) (filled : List (String × Dict) × Dict) :
    List (String × Dict) × Dict :=
  match filled.2[path]? with
  | none => filled
  | some content =>
      (if content = "" then filled.1 else putFile secret key content filled.1,
        filled.2.erase path)

/-- What a declaration takes of the rendered files: its own path, or every path directly inside
its directory. -/
def claim (filled : List (String × Dict) × Dict) (spec : Delivery) : List (String × Dict) × Dict :=
  match spec with
  | .file secret _ path => claimFile secret spec.key path filled
  | .directory secret path =>
      let inside := filled.2.keys.filter fun p =>
        (PosixPath.ofString p).parent = PosixPath.ofString path
      inside.foldl (fun filled p => claimFile secret (PosixPath.ofString p).name p filled) filled

/-- A list of texts as Python prints it. -/
def listText (texts : List String) : String :=
  "[" ++ ", ".intercalate (texts.map fun text => "'" ++ text ++ "'") ++ "]"

/-- The Secrets declared, in the order they are first named. -/
def secretsOf (declared : List Delivery) : List String := (declared.map Delivery.secret).eraseDups

/-- `section_of`: which Secrets were on offer when a path matched none. -/
def sectionOf (declared : List Delivery) : String :=
  "a Section writing " ++
    listText (Std.ExtTreeSet.ofList (declared.map Delivery.secret)).toList

/-- `by_secret`: one write per Secret, holding exactly what the Section rendered into it. -/
def bySecret (declared : List Delivery) (contents : Dict) : Except Error (List (String × Dict)) :=
  let empty := (secretsOf declared).map fun secret => (secret, (∅ : Dict))
  let (filled, unclaimed) := declared.foldl claim (empty, contents)
  if unclaimed.isEmpty then .ok filled
  else .error ⟨"ValueError",
    sectionOf declared ++ " rendered files nowhere declared: " ++ listText unclaimed.keys⟩

/-- The volumes Apchi mounts, in the order they are declared. -/
def volumesOf (declared : List Delivery) : List String :=
  (declared.filterMap fun
    | .file _ volume _ => some volume
    | .directory .. => none).eraseDups

/-- The files of one volume. -/
def filesOn (volume : String) (declared : List Delivery) : List Delivery :=
  declared.filter fun
    | .file _ v _ => v = volume
    | .directory .. => false

/-- A file has content to deliver. -/
def hasContent (contents : Dict) (spec : Delivery) : Bool := contents[spec.path]?.getD "" ≠ ""

/-- The calls that mount a volume's files with content and unmount the others. -/
def mountVolume (settings : Settings) (declared : List Delivery) (contents : Dict)
    (volume : String) : List (ClusterCall Unit) :=
  let group := filesOn volume declared
  let present := group.filter (hasContent contents)
  let absent := group.filter fun spec => !hasContent contents spec
  present.map (fun spec =>
      .mountSecretFile settings.trinoContainerName volume spec.secret spec.path spec.key)
    ++ if absent.isEmpty then []
      else [.unmountSecretFiles settings.trinoContainerName volume (absent.map Delivery.path)
        present.isEmpty]

/-- What a Section's declared Secrets are to hold. -/
def renderSecrets (sect : Section) (cluster : Cluster) (resources : Resources) :
    Except Error (List (String × Dict)) := do
  let contents ← sect.renderFiles resources cluster.settings cluster.admin
  bySecret (sect.coordinatorFiles cluster.settings) contents

/-- `deliver`: write this Section's files and make sure each is mounted, or unmounted. -/
def deliver (sect : Section) (cluster : Cluster) (desired : Resources) : ClusterProg Unit :=
  let declared := sect.coordinatorFiles cluster.settings
  if declared.isEmpty then pure ()
  else do
    let contents ← Prog.ofExcept (sect.renderFiles desired cluster.settings cluster.admin)
    let secrets ← Prog.ofExcept (bySecret declared contents)
    Prog.each secrets fun (secret, data) => Prog.perform (.writeSecret secret data)
    Prog.each (volumesOf declared) fun volume =>
      Prog.each (mountVolume cluster.settings declared contents volume) Prog.perform

/-- Whether one of the Secrets holds something else than it is to hold. -/
def anyDiffers : List (String × Dict) → ClusterProg Bool
  | [] => pure false
  | (secret, data) :: rest => do
      let held ← Prog.perform (.readSecret secret)
      if held ≠ data then pure true else anyDiffers rest

/-- `would_change`: whether delivering `resources` would change what the Cluster holds. -/
def wouldChange (sect : Section) (cluster : Cluster) (resources : Resources) :
    ClusterProg Bool :=
  let declared := sect.coordinatorFiles cluster.settings
  if declared.isEmpty then pure false
  else do
    let contents ← Prog.ofExcept (sect.renderFiles resources cluster.settings cluster.admin)
    let secrets ← Prog.ofExcept (bySecret declared contents)
    anyDiffers secrets

theorem anyDiffers_reads (secrets : List (String × Dict)) : ReadsOnly (anyDiffers secrets) := by
  induction secrets with
  | nil => trivial
  | cons secret rest ih =>
    refine Prog.All.bind (Prog.all_perform rfl) fun held => ?_
    show ReadsOnly (if held ≠ secret.2 then _ else _)
    split
    · trivial
    · exact ih

theorem wouldChange_reads (sect : Section) (cluster : Cluster) (resources : Resources) :
    ReadsOnly (wouldChange sect cluster resources) := by
  show ReadsOnly (if (sect.coordinatorFiles cluster.settings).isEmpty then _ else _)
  split
  · trivial
  · exact Prog.All.bind (Prog.all_ofExcept _) fun _ => Prog.All.bind (Prog.all_ofExcept _) fun _ =>
      anyDiffers_reads _

end Apchi.Pipeline
