import Apchi.Pipeline.Section

/-!
# What a Section reads of the Cluster's files

A Section that is shown its files either reads them, and reports what it has no vocabulary for, or
says that one of them cannot be read at all.
-/

namespace Apchi.Pipeline

open Lib

/-- How reading a file ends otherwise: `ParseProblem`, or the `ValidationError` of a model. -/
inductive Raised where
  | parseProblem (path reason : String)
  | validationError (reason : String)
  deriving DecidableEq, Repr

/-- It is a `ParseProblem`. -/
def Raised.Problem : Raised → Prop
  | parseProblem .. => True
  | validationError _ => False

/-- Something a Section read and cannot express. -/
structure Unaccounted where
  path : String
  what : String
  content : Json := .null
  deriving DecidableEq

/-- What a Section read that is the Admin's: the access-control rules it keeps, and whether the Cluster
is enforcing. -/
structure AdminRead where
  preservedAccessControl : Permissions.Preserved
  enforcePermissions : Bool

/-- `AdminValues.model_validate`; what the reader made of a file is always of the types it asks for. -/
def AdminRead.values : Option AdminRead → AdminValues
  | none => {}
  | some admin => {
      enforcePermissions := admin.enforcePermissions
      preservedAccessControl := admin.preservedAccessControl }

/-- The entries of the rules that are kept, and whether the Cluster is enforcing. -/
def AdminRead.entries (admin : AdminRead) : List (String × List Permissions.Rule) × Bool :=
  (admin.preservedAccessControl.toList, admin.enforcePermissions)

/-- What a Section read out of the Cluster's files. -/
structure Parsed where
  resources : Resources := ∅
  unaccounted : List Unaccounted := []
  admin : Option AdminRead := none

/-- Where a Section's configuration is, by where Apchi would keep it: files that are read one by one,
and directories that are listed. -/
structure DiscoveredPaths where
  files : Dict := ∅
  directories : Dict := ∅
  why : Option String := none

/-- `everywhere_looked`: the actual paths. -/
def DiscoveredPaths.everywhereLooked (paths : DiscoveredPaths) : List String :=
  (Std.ExtTreeSet.ofList (paths.files.values ++ paths.directories.values)).toList

end Apchi.Pipeline
