import Apchi.Catalogs.Generator
import Apchi.Lib.Properties
import Apchi.Lib.Raising
import Apchi.Pipeline.Coordinator
import Apchi.Pipeline.Parsing

/-!
# Reading Catalogs back from their files

Every file of the store directory that ends in `.properties` is a Catalog named after it.  The Secret
that seeds the directory has the same files under the same names.
-/

namespace Apchi.Catalogs

open Lib Pipeline

def SUFFIX : String := ".properties"

/-- The property that says what a Catalog is. -/
def CONNECTOR : String := "connector.name"

/-- `name_of`: the Catalog a path in the store directory belongs to. -/
def nameOf (path directory : String) : Option String :=
  let above := (Coordinator.trimSlashes directory ++ "/").toList
  if above.isPrefixOf path.toList ∧ SUFFIX.toList.isSuffixOf path.toList then
    match (path.toList.drop above.length).rdrop SUFFIX.length with
    | [] => none
    | name => some (.ofList name)
  else none

/-- What is said of a file that is not read. -/
def reasonOf : Properties.Refusal → String
  | .malformed number line => s!"line {number} is not key=value: '{line}'"
  | .unnamed => "there is no connector.name, so nothing says what this catalog is"

/-- `parse_properties`: the connector, the other properties, and what a round trip would lose. -/
def parseProperties (path content : String) : Except Raised (String × Dict × List String) :=
  match Properties.read CONNECTOR content with
  | .ok (connector, contents) => .ok (connector, contents.properties,
      contents.comments.map fun comment => s!"a comment on line {comment.1}")
  | .error refusal => .error (.parseProblem path (reasonOf refusal))

/-- A Catalog as it is read. -/
def readCatalog (connector : String) (properties : Dict) : Json :=
  .obj [("connector", .str connector),
    ("properties", .obj (properties.toList.map fun (key, value) => (key, .str value)))]

/-- Takes in one file. -/
def takeFile (settings : Settings) (parsed : Parsed) (file : String × String) :
    Except Raised Parsed :=
  match nameOf file.1 settings.catalogStoreDir with
  | none => .ok { parsed with
      unaccounted := parsed.unaccounted ++
        [{ path := file.1, what := "a file in the catalog store Apchi does not own" }] }
  | some name => do
      let (connector, properties, lost) ← parseProperties file.1 file.2
      return { parsed with
        resources := parsed.resources.insert name (readCatalog connector properties)
        unaccounted := parsed.unaccounted ++ lost.map fun what => { path := file.1, what } }

/-- `parse_files`. -/
def parseFiles (files : Dict) (settings : Settings) : Except Raised Parsed :=
  files.toList.foldlM (takeFile settings) {}

/-! ### Which files are read -/

/-- A file that is a Catalog's can be read as one. -/
def Readable (settings : Settings) (file : String × String) : Prop :=
  nameOf file.1 settings.catalogStoreDir ≠ none → Properties.Legible CONNECTOR file.2

theorem parseProperties_ok_iff {path content : String} :
    (∃ result, parseProperties path content = .ok result) ↔ Properties.Legible CONNECTOR content := by
  rw [← Properties.read_ok_iff]
  unfold parseProperties
  cases Properties.read CONNECTOR content with
  | error refusal => exact iff_of_false nofun nofun
  | ok result => exact iff_of_true ⟨_, rfl⟩ ⟨_, rfl⟩

theorem takeFile_ok_iff {settings : Settings} (parsed : Parsed) (file : String × String) :
    (∃ next, takeFile settings parsed file = .ok next) ↔ Readable settings file := by
  unfold takeFile Readable
  cases nameOf file.1 settings.catalogStoreDir with
  | none => exact iff_of_true ⟨_, rfl⟩ (absurd rfl)
  | some name =>
    rw [imp_iff_right (Option.some_ne_none name), ← parseProperties_ok_iff]
    cases parseProperties file.1 file.2 with
    | error e => exact iff_of_false nofun nofun
    | ok result => exact iff_of_true ⟨_, rfl⟩ ⟨_, rfl⟩

/-- The files are read exactly where each Catalog's can be. -/
theorem parseFiles_ok_iff {files : Dict} {settings : Settings} :
    (∃ parsed, parseFiles files settings = .ok parsed) ↔
      ∀ file ∈ files.toList, Readable settings file :=
  foldlM_ok_iff takeFile_ok_iff _ _

theorem parseProperties_raises (path content : String) :
    OnlyRaises Raised.Problem (parseProperties path content) := by
  unfold parseProperties
  split
  · exact .ok _
  · exact .error trivial

/-- Nothing but `ParseProblem` is raised. -/
theorem parseFiles_raises (files : Dict) (settings : Settings) :
    OnlyRaises Raised.Problem (parseFiles files settings) := by
  refine OnlyRaises.foldlM (fun parsed file => ?_) _ _
  unfold takeFile
  split
  · exact .ok _
  · exact (parseProperties_raises file.1 file.2).bind fun _ _ => .ok _

end Apchi.Catalogs
