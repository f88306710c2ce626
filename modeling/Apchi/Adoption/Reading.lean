import Apchi.ClientCertificates.Section
import Apchi.Pipeline.Service
import Apchi.Pipeline.Registry

/-!
# Readings of a Cluster, and what is supplied for them

A reading says for each Section what it found and what it could not account for.  The stored discovery
keeps the latest reading, the amendments an Operator has made to any of them, and what has changed on
the Cluster since the reading before.
-/

namespace Apchi.Adoption

open Lib Pipeline

/-! ## Readings -/

inductive ProblemKind
  | unreadable
  | unaccounted
  | lossy
  | unreadableSection
  | cutover
  | apchiConfiguration
  | incomplete
  | notLoaded
deriving DecidableEq

/-- One reason a discovery is not the whole truth. -/
structure Problem where
  kind : ProblemKind
  sect : Option SectionName := none
  path : Option String := none
  detail : String
deriving DecidableEq

/-- What one Section was able to read. -/
structure SectionDiscovery where
  resources : Resources
  problems : List Problem

/-- Everything a reading found, Section by Section, and everything it could not account for. -/
structure Discovery where
  sections : List (SectionName × SectionDiscovery)
  problems : List Problem
  adminValues : AdminValues

def Discovery.everyProblem (read : Discovery) : List Problem :=
  read.problems ++ read.sections.flatMap fun found => found.2.problems

/-- What the reading has of one Section. -/
def Discovery.resources (read : Discovery) (sect : SectionName) : Resources :=
  ((read.sections.lookup sect).map SectionDiscovery.resources).getD ∅

/-- Never adopted. -/
def NEVER_ADOPTED : List String := ["system"]

/-- The properties of a stored Catalog that name a path in the certificate directory. -/
def pointing : Json → List String
  | .obj fields =>
      match fields.lookup "properties" with
      | some (.obj properties) => properties.filterMap fun
          | (key, .str value) =>
              if (ClientCertificates.MOUNT_DIR ++ "/").toList.isPrefixOf value.toList then some key
              else none
          | _ => none
      | _ => []
  | _ => []

/-- Catalogs whose properties point into the certificate directory. -/
def catalogsUsingACertificate (resources : Resources) : List Problem :=
  resources.toList.filterMap fun (name, stored) =>
    if (pointing stored).isEmpty then none
    else some {
      kind := .unaccounted
      sect := some .catalogs
      path := some name
      detail := ", ".intercalate (Std.ExtTreeSet.ofList (pointing stored)).toList ++
        " points into the certificate directory, so this catalog uses a Client Certificate. " ++
        "Apchi reads a path and cannot tell which certificate it is -- name it, or removing that " ++
        "certificate will not be refused." }

/-- What asking Trino which catalogs are loaded comes to: there is no Trino to ask, it did not answer,
or the connector of each. -/
inductive Answer
  | notAsked
  | failed (error : String)
  | loaded (live : Std.ExtTreeMap String String)

/-- Trino could not be asked. -/
def unasked (detail : String) : Problem :=
  { kind := .unreadable, sect := some .catalogs, detail }

/-- A catalog that Trino serves and nothing readable describes. -/
def incompleteCatalog (name connector : String) : Problem where
  kind := .incomplete
  sect := some .catalogs
  path := some name
  detail := "Trino is serving '" ++ name ++ "' using the '" ++ connector ++ "' connector, and its " ++
    "properties exist only in the coordinator's writable store. Supply them: Apchi will not invent " ++
    "a connection it could not read."

/-- A catalog that is configured and that Trino does not serve. -/
def notLoadedCatalog (name : String) : Problem where
  kind := .notLoaded
  sect := some .catalogs
  path := some name
  detail := "'" ++ name ++ "' is configured and Trino is not serving it, which usually means the " ++
    "coordinator has not restarted since it was added."

/-- `_reconcile_catalogs`: the catalogs of the store directory, of the seed Secret, and of Trino. -/
def reconcileCatalogs (found : SectionDiscovery) (seed : Resources) (trino : Answer) :
    SectionDiscovery :=
  let resources := seed.foldl (fun acc name stored => acc.insertIfNew name stored) found.resources
  match trino with
  | .notAsked =>
      { resources
        problems := found.problems ++ [unasked ("Apchi could not ask Trino which catalogs are " ++
          "loaded, so a catalog that exists only in the coordinator's store would not be noticed " ++
          "-- and would be gone at the first restart after adoption.")] }
  | .failed error =>
      { resources
        problems := found.problems ++ [unasked ("Apchi could not ask Trino which catalogs are " ++
          "loaded (" ++ error ++ "), so a catalog existing only in the coordinator's store would " ++
          "not be noticed.")] }
  | .loaded live =>
      { resources
        problems := found.problems ++
          (live.toList.filter fun entry =>
            entry.1 ∉ NEVER_ADOPTED ∧ entry.1 ∉ resources).map
              (fun entry => incompleteCatalog entry.1 entry.2) ++
          (resources.keys.filter fun name => name ∉ live).map notLoadedCatalog ++
          catalogsUsingACertificate resources }

/-- What a Cluster has to be read at one moment: the preconditions it fails, what each Section's files
come to, the seed Secret's catalogs, and what Trino answers. -/
structure Observed where
  preconditions : List Problem
  found : SectionName → SectionDiscovery
  seed : Resources
  trino : Answer
  adminValues : AdminValues

/-- `discover`: every registered Section, the Catalogs reconciled. -/
def discover (observed : Observed) : Discovery where
  sections := REGISTERED.map fun sect =>
    (sect, if sect = .catalogs then
        reconcileCatalogs (observed.found sect) observed.seed observed.trino
      else observed.found sect)
  problems := observed.preconditions
  adminValues := observed.adminValues

/-! ## The stored discovery -/

/-- A reading, what has been supplied for it, and what changed since the reading before. -/
structure StoredDiscovery where
  read : Discovery
  amendments : SectionName → Resources
  changedSinceLastRead : List String

namespace StoredDiscovery

/-- What that Section holds once the amendments are applied.  Amendments win. -/
def resolved (stored : StoredDiscovery) (sect : SectionName) : Resources :=
  (stored.read.resources sect).insertMany (stored.amendments sect).toList

/-- An amendment answers the problem. -/
def answered (stored : StoredDiscovery) (problem : Problem) : Bool :=
  match problem.sect, problem.path with
  | some sect, some path => path ∈ stored.amendments sect
  | _, _ => false

/-- Problems an amendment has not answered. -/
def outstanding (stored : StoredDiscovery) : List Problem :=
  stored.read.everyProblem.filter fun problem =>
    problem.kind ≠ .cutover ∧ ¬ stored.answered problem

def complete (stored : StoredDiscovery) : Bool := stored.outstanding.isEmpty

/-- The discovery as seeding and adopting read it. -/
def toPipeline (stored : StoredDiscovery) : Pipeline.StoredDiscovery where
  outstanding := stored.outstanding.map Problem.detail
  resolved := stored.read.sections.map fun found => (found.1, stored.resolved found.1)
  adminValues := stored.read.adminValues

end StoredDiscovery

/-- A line about one resource of a Section. -/
def changeLine (sect : SectionName) (name what : String) : String :=
  sect.text ++ ": " ++ name ++ " " ++ what ++ " on the Cluster"

/-- What became of one Section between two readings. -/
def sectionDifferences (sect : SectionName) (was now : Resources) : List String :=
  (was.keys.filter fun name => name ∉ now).map (changeLine sect · "is no longer") ++
    (now.keys.filter fun name => name ∉ was).map (changeLine sect · "is new") ++
    (now.keys.filter fun name => name ∈ was ∧ was[name]? ≠ now[name]?).map
      (changeLine sect · "has changed")

/-- What the Cluster changed between two readings. -/
def differences : Option Discovery → Discovery → List String
  | none, _ => []
  | some previous, current =>
      current.sections.flatMap fun (sect, found) =>
        match previous.sections.lookup sect with
        | none => []
        | some was => sectionDifferences sect was.resources found.resources

/-- What is done to the stored discovery. -/
inductive Act
  | read (observed : Observed)
  | amend (sect : SectionName) (resource : String) (value : Json)
  | withdraw (sect : SectionName) (resource : String)

namespace DiscoveryStore

/-- `record`: a new reading, keeping whatever has been amended. -/
def record (existing : Option StoredDiscovery) (read : Discovery) : StoredDiscovery where
  read
  amendments := (existing.map StoredDiscovery.amendments).getD fun _ => ∅
  changedSinceLastRead := differences (existing.map StoredDiscovery.read) read

/-- `amend`; without a discovery there is nothing to amend. -/
def amend (stored : StoredDiscovery) (sect : SectionName) (resource : String) (value : Json) :
    StoredDiscovery :=
  { stored with
    amendments := Function.update stored.amendments sect
      ((stored.amendments sect).insert resource value) }

/-- `withdraw`; what is not amended cannot be withdrawn. -/
def withdraw (stored : StoredDiscovery) (sect : SectionName) (resource : String) :
    StoredDiscovery :=
  if resource ∈ stored.amendments sect then
    { stored with
      amendments := Function.update stored.amendments sect ((stored.amendments sect).erase resource) }
  else stored

end DiscoveryStore

/-- What is stored after one more act; one that is refused leaves it as it is. -/
def step (stored : Option StoredDiscovery) : Act → Option StoredDiscovery
  | .read observed => some (DiscoveryStore.record stored (discover observed))
  | .amend sect resource value => stored.map fun stored =>
      DiscoveryStore.amend stored sect resource value
  | .withdraw sect resource => stored.map fun stored => DiscoveryStore.withdraw stored sect resource

/-- What is stored after some acts, the first of them first. -/
def run (acts : List Act) : Option StoredDiscovery := acts.foldl step none

end Apchi.Adoption
