import Apchi.Adoption.Parsing
import Apchi.Adoption.Reading

/-!
# Discovery: what a Cluster is configured with, read off the Cluster

Discovery is a read.  Each Section is asked where to look, given the coordinator's own configuration,
and is shown what is there under the paths Apchi would keep it at.  Whatever it read is written and
read once more, to see whether anything was lost.
-/

namespace Apchi.Adoption

open Lib Pipeline Coordinator

/-- How a discovery ends otherwise: a call that failed, or what reading a file raised. -/
inductive Failure where
  | call (e : Error)
  | parse (raised : Raised)
  | render (e : Error)
  deriving DecidableEq, Repr

/-- What a call answers. -/
def called {α : Type} : Except Error α → Except Failure α := Except.mapError .call

/-! ### What the coordinator has -/

/-- Trino's own configuration, which is where discovery finds everything else. -/
def CONFIGURATION : List String := [CONFIG_PROPERTIES, PROPERTIES_PATH, ResourceGroups.MANAGER_PATH]

/-- Takes in one line of Trino's configuration; a line that is no property says nothing. -/
def takeProperty (merged : Dict) (raw : String) : Dict :=
  match Properties.readLine raw with
  | .property key value => merged.insert key value
  | _ => merged

/-- `trino_configuration`: Trino's own configuration, merged, as far as Apchi can read it. -/
def trinoConfiguration (kubernetes : Adapter) (spec : PodSpec) : Except Error Dict :=
  CONFIGURATION.foldlM (fun merged path => do
    match ← contentAt kubernetes spec path none with
    | none => return merged
    | some content => return (PyText.lines content).foldl takeProperty merged) ∅

/-- `str.removeprefix`. -/
def removePrefix (text head : String) : String :=
  if head.toList.isPrefixOf text.toList then .ofList (text.toList.drop head.length) else text

/-- `files_under`: every file in a directory the coordinator mounts, by its full path. -/
def filesUnder (kubernetes : Adapter) (spec : PodSpec) (directory : String) :
    Except Error (Option Dict) :=
  match sourceOf spec none directory with
  | none => .ok none
  | some source =>
      if trimSlashes source.mount.mountPath ≠ trimSlashes directory then .ok none
      else do
        let data ← dataOf kubernetes source.volume
        return data.map fun data => .ofList (data.toList.map fun (key, value) =>
          (trimSlashes directory ++ "/" ++ key, value))

/-! ### One Section -/

/-- Why a file that is not there is a problem, if it is one. -/
def missing (spec : PodSpec) (properties : Dict) (sect : SectionName) (path : String) :
    Option Problem :=
  if path ∈ properties.values then some {
    kind := .unreadable
    sect := some sect
    path := some path
    detail := "Trino is configured to read this file and it is not there. The coordinator will " ++
      "not come back from its next restart." }
  else
    match sourceOf spec none path with
    | some ⟨_, volume, none⟩ => some {
        kind := .unreadable
        sect := some sect
        path := some path
        detail := "volume '" ++ volume.name ++ "' provides this path, but Apchi cannot resolve a " ++
          "Secret or ConfigMap key for it." }
    | _ => none

/-- What has been found for a Section so far, under the paths Apchi would keep it at. -/
structure Found where
  files : Dict := ∅
  problems : List Problem := []

/-- Takes in one file, by where Apchi would keep it and where it is. -/
def takeFile (kubernetes : Adapter) (spec : PodSpec) (properties : Dict) (sect : SectionName)
    (found : Found) (file : String × String) : Except Error Found := do
  match ← contentAt kubernetes spec file.2 none with
  | some content => return { found with files := found.files.insert file.1 content }
  | none => return { found with
      problems := found.problems ++ (missing spec properties sect file.2).toList }

/-- Takes in one directory. -/
def takeDirectory (kubernetes : Adapter) (spec : PodSpec) (found : Found)
    (directory : String × String) : Except Error Found := do
  match ← filesUnder kubernetes spec directory.2 with
  | none => return found
  | some listed => return { found with
      files := found.files.insertMany (listed.toList.map fun (path, content) =>
        (trimSlashes directory.1 ++ removePrefix path (trimSlashes directory.2), content)) }

/-- Everything that is found for a Section. -/
def findFiles (kubernetes : Adapter) (spec : PodSpec) (properties : Dict) (sect : SectionName)
    (paths : DiscoveredPaths) : Except Error Found := do
  let found ← paths.files.toList.foldlM (takeFile kubernetes spec properties sect) {}
  paths.directories.toList.foldlM (takeDirectory kubernetes spec) found

/-- The Section's configuration cannot be carried through an Apply. -/
def lossy (sect : SectionName) (path : Option String) (detail : String) : Problem :=
  { kind := .lossy, sect := some sect, path, detail }

/-- `_lossy`: whether what was read survives being written and read again. -/
def lossyProblems (models : ResourceGroups.Models) (settings : Settings) (sect : SectionName)
    (parsed : Parsed) (read : Dict) : Except Failure (List Problem) := do
  let regenerated ← (sect.renderFiles parsed.resources settings (AdminRead.values parsed.admin)
    |>.mapError .render)
  if regenerated.isEmpty then return []
  match sect.parseFiles models regenerated settings with
  | .error (.parseProblem path reason) => return [lossy sect (some path)
      ("Apchi cannot read back the file it would write for this Section (" ++ reason ++
        "), so applying what was discovered would leave a Cluster Apchi could not discover again.")]
  | .error raised => throw (.parse raised)
  | .ok again =>
      if again.resources.toList = parsed.resources.toList ∧
          again.admin.map AdminRead.entries = parsed.admin.map AdminRead.entries then return []
      else return [lossy sect read.keys.head?
        ("what Apchi parsed does not survive being written back and read again, so the " ++
          "configuration it holds is not the configuration it would apply.")]

/-- What one Section was able to read, and where it looked. -/
structure Reading extends SectionDiscovery where
  lookedAt : List String := []
  guessedBecause : Option String := none
  admin : Option AdminRead := none

/-- What became of the files that were found. -/
def readFiles (models : ResourceGroups.Models) (settings : Settings) (sect : SectionName)
    (found : Found) : Except Failure (Parsed × List Problem) :=
  if found.files.isEmpty then .ok ({}, found.problems)
  else
    match sect.parseFiles models found.files settings with
    | .error (.parseProblem path reason) => .ok ({}, found.problems ++
        [{ kind := .unreadable, sect := some sect, path := some path, detail := reason }])
    | .error raised => .error (.parse raised)
    | .ok parsed => do
        let lost ← lossyProblems models settings sect parsed found.files
        return (parsed, found.problems ++ parsed.unaccounted.map (fun entry =>
          { kind := .unaccounted, sect := some sect, path := some entry.path, detail := entry.what })
            ++ lost)

/-- `_discover_section`. -/
def discoverSection (models : ResourceGroups.Models) (kubernetes : Adapter) (spec : PodSpec)
    (settings : Settings) (properties : Dict) (sect : SectionName) : Except Failure Reading := do
  let paths := sect.discoverPaths settings properties
  let found ← called (findFiles kubernetes spec properties sect paths)
  let (parsed, problems) ← readFiles models settings sect found
  return {
    resources := parsed.resources
    problems
    lookedAt := paths.everywhereLooked
    guessedBecause := paths.why
    admin := parsed.admin }

/-! ### The Catalogs, from three sources -/

/-- The seed Secret's keys as files of the store directory. -/
def seedFiles (settings : Settings) (seed : Dict) : Dict :=
  .ofList (seed.toList.map fun (key, value) =>
    (trimSlashes settings.catalogStoreDir ++ "/" ++ key, value))

/-- `_catalogs_from_seed`: the Section's own parser does the work, and nothing catches what it
raises. -/
def catalogsFromSeed (settings : Settings) (seed : Dict) : Except Failure Resources := do
  let parsed ← (Catalogs.parseFiles (seedFiles settings seed) settings).mapError .parse
  return parsed.resources

/-- The Catalogs of the seed Secret, if it holds anything. -/
def seedCatalogs (settings : Settings) (seed : Dict) : Except Failure Resources :=
  if seed.isEmpty then .ok ∅ else catalogsFromSeed settings seed

/-- `_reconcile_catalogs`. -/
def reconcile (kubernetes : Adapter) (settings : Settings) (trino : Answer) (found : Reading) :
    Except Failure Reading := do
  let seed ← called (kubernetes.readSecret settings.catalogSecretName)
  let fromSeed ← seedCatalogs settings seed
  return { found with
    toSectionDiscovery := reconcileCatalogs found.toSectionDiscovery fromSeed trino
    lookedAt := found.lookedAt ++
      (if seed.isEmpty then [] else ["Secret " ++ settings.catalogSecretName]) ++
      match trino with
      | .loaded _ => ["system.metadata.catalogs"]
      | _ => [] }

/-! ### The whole Cluster -/

/-- A text between quotes. -/
def quoted (text : String) : String := "'" ++ text ++ "'"

/-- `_precondition_problems`: every precondition that fails, as what has to change before the cutover. -/
def preconditionProblems (kubernetes : Adapter) (spec : PodSpec) (settings : Settings) :
    Except Error (List Problem) :=
  match check kubernetes spec settings with
  | .ok () => .ok []
  | .error (.raised e) => .error e
  | .error (.failed problems own) => .ok ((problems.map (·.message quoted)).map fun problem => {
      kind := if problem ∈ own.map (·.message quoted) then .apchiConfiguration else .cutover
      detail :=
        if settings.catalogSecretName.toList <:+: problem.toList then
          problem ++ " This one must come after the seed: adding the initContainer first copies an " ++
            "empty Secret over the catalog store and loses every catalog."
        else problem })

/-- Everything discovery found, Section by Section, and what is wrong with the Cluster. -/
structure Report where
  coordinator : String
  sections : List (SectionName × Reading)
  problems : List Problem

/-- One registered Section; the Catalogs are reconciled. -/
def discoverOne (models : ResourceGroups.Models) (kubernetes : Adapter) (spec : PodSpec)
    (settings : Settings) (properties : Dict) (trino : Answer) (sect : SectionName) :
    Except Failure (SectionName × Reading) := do
  let found ← discoverSection models kubernetes spec settings properties sect
  if sect = .catalogs then
    let found ← reconcile kubernetes settings trino found
    return (sect, found)
  else return (sect, found)

/-- `discover`. -/
def discoverCluster (models : ResourceGroups.Models) (kubernetes : Adapter) (settings : Settings)
    (trino : Answer) : Except Failure Report := do
  let spec ← (kubernetes.deploymentPodSpec settings.coordinatorDeploymentName).mapError fun e =>
    .call ⟨"DiscoveryFailed", "Apchi cannot read the coordinator Deployment '" ++
      settings.coordinatorDeploymentName ++ "': " ++ e.text⟩
  let properties ← called (trinoConfiguration kubernetes spec)
  let problems ← called (preconditionProblems kubernetes spec settings)
  let sections ← REGISTERED.mapM
    (discoverOne models kubernetes spec settings properties trino)
  return ⟨settings.coordinatorDeploymentName, sections, problems⟩

/-! ### A reading -/

/-- The reading that is stored of a discovery. -/
def Report.read (report : Report) : Discovery where
  sections := report.sections.map fun entry => (entry.1, entry.2.toSectionDiscovery)
  problems := report.problems
  adminValues := AdminRead.values (report.sections.filterMap fun entry => entry.2.admin).getLast?

/-- **A discovery is a reading of what was observed**: of each Section by itself, of the seed Secret, and
of Trino. -/
theorem read_of_discoverCluster {models : ResourceGroups.Models} {kubernetes : Adapter}
    {settings : Settings} {trino : Answer} {report : Report}
    (h : discoverCluster models kubernetes settings trino = .ok report) :
    ∃ observed : Observed, observed.trino = trino ∧ report.read = discover observed := by
  obtain ⟨spec, -, h⟩ := ok_of_bind h
  obtain ⟨properties, -, h⟩ := ok_of_bind h
  obtain ⟨problems, -, h⟩ := ok_of_bind h
  obtain ⟨sections, hsections, h⟩ := ok_of_bind h
  cases h
  let found : SectionName → SectionDiscovery := fun sect =>
    match discoverSection models kubernetes spec settings properties sect with
    | .ok reading => reading.toSectionDiscovery
    | .error _ => ⟨∅, []⟩
  let seed : Resources :=
    match called (kubernetes.readSecret settings.catalogSecretName) >>= seedCatalogs settings with
    | .ok resources => resources
    | .error _ => ∅
  have hone : ∀ sect entry, discoverOne models kubernetes spec settings properties trino sect =
      .ok entry → (entry.1, entry.2.toSectionDiscovery) =
        (sect, if sect = .catalogs then reconcileCatalogs (found sect) seed trino else found sect) := by
    intro sect entry hentry
    obtain ⟨reading, hreading, hentry⟩ := ok_of_bind hentry
    have hfound : found sect = reading.toSectionDiscovery := by
      dsimp only [found]
      rw [hreading]
    rw [hfound]
    by_cases hcatalogs : sect = .catalogs
    · rw [if_pos hcatalogs] at hentry ⊢
      obtain ⟨reconciled, hreconciled, hentry⟩ := ok_of_bind hentry
      obtain ⟨data, hdata, hreconciled⟩ := ok_of_bind hreconciled
      obtain ⟨resources, hresources, hreconciled⟩ := ok_of_bind hreconciled
      have hseed : seed = resources := by
        dsimp only [seed]
        rw [hdata]
        change (match seedCatalogs settings data with
          | .ok resources => resources
          | .error _ => ∅) = resources
        rw [hresources]
      cases hentry
      cases hreconciled
      rw [hseed]
    · rw [if_neg hcatalogs] at hentry ⊢
      cases hentry
      rfl
  refine ⟨⟨problems, found, seed, trino,
    AdminRead.values (sections.filterMap fun entry => entry.2.admin).getLast?⟩, rfl, ?_⟩
  have hread : sections.map (fun entry => (entry.1, entry.2.toSectionDiscovery)) =
      REGISTERED.map fun sect =>
        (sect, if sect = .catalogs then reconcileCatalogs (found sect) seed trino else found sect) :=
    map_of_mapM hsections hone
  unfold Report.read discover
  dsimp only
  rw [hread]

end Apchi.Adoption
