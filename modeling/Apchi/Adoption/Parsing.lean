import Apchi.Catalogs.Reading
import Apchi.CertificateMapping.Reading
import Apchi.ClientCertificates.Reading
import Apchi.EventListeners.Reading
import Apchi.Pipeline.Preconditions
import Apchi.ResourceGroups.Reading

/-!
# Where each Section is read from, and what it reads

Trino's own configuration says where most files are; a Section that is named no path is looked for
where Apchi would put it.  Each Section then reads the files it is shown under the paths Apchi would
keep them at.
-/

namespace Apchi.Pipeline

open Lib

/-! ### Each Section's `parse_files` -/

/-- `parse_files` of the Certificate Mapping Section. -/
def parseMapping (files : Dict) (settings : Settings) : Except Raised Parsed :=
  match CertificateMapping.parseFiles files settings with
  | .ok (resources, unaccounted) => .ok {
      resources
      unaccounted := unaccounted.map fun entry => ⟨entry.1, entry.2.what, entry.2.content⟩ }
  | .error e =>
      -- the text of a `ParseProblem` is the path, and the reason behind it
      if e.kind = "ParseProblem" then .error (.parseProblem CertificateMapping.MOUNT_PATH
        (.ofList (e.text.toList.drop (CertificateMapping.MOUNT_PATH ++ ": ").length)))
      else .error (.validationError e.text)

/-- `parse_files` of the Resource Groups Section. -/
def parseGroups (models : ResourceGroups.Models) (files : Dict) (settings : Settings) :
    Except Raised Parsed :=
  match ResourceGroups.parseFiles models files settings with
  | .ok parsed => .ok {
      resources := parsed.resources
      unaccounted := parsed.unaccounted.map fun entry => ⟨entry.1, entry.2.what, entry.2.content⟩ }
  | .error (.unreadable path reason) => .error (.parseProblem path reason)
  | .error (.validation reason) => .error (.validationError reason)

/-- `parse_files` of the Permissions Section: grants where the model reaches, Admin values where it does
not. -/
def parsePermissions (files : Dict) (settings : Settings) : Except Raised Parsed :=
  match files[Permissions.MOUNT_PATH]? with
  | none => .ok {}
  | some content =>
      match Permissions.parseRules Permissions.MOUNT_PATH content settings.trinoUser
        settings.verificationCatalog with
      | .ok (grants, preserved, enforced) => .ok {
          resources := Permissions.storedGrants grants
          admin := some ⟨preserved, enforced⟩ }
      | .error unreadable => .error (.parseProblem unreadable.path unreadable.reason)

/-- Each Section's `parse_files`. -/
def SectionName.parseFiles (models : ResourceGroups.Models) (files : Dict) (settings : Settings) :
    SectionName → Except Raised Parsed
  | catalogs => Catalogs.parseFiles files settings
  | clientCertificates => .ok (ClientCertificates.parse files)
  | certificateMapping => parseMapping files settings
  | eventListeners => EventListeners.parseFiles files settings
  | permissions => parsePermissions files settings
  | resourceGroups => parseGroups models files settings

/-! ### Each Section's `discover_paths` -/

/-- Trino's own default for its catalogs. -/
def DEFAULT_STORE_DIR : String := "/etc/trino/catalog"

/-- A property that is set, and to something. -/
def namedIn (properties : Dict) (property : String) : Option String :=
  (properties[property]?).filter (· ≠ "")

/-- One file, where it is. -/
def pathAt (canonical path : String) : Dict := (∅ : Dict).insert canonical path

/-- The property that names the mapping file, for whichever authenticator; the first by name. -/
def mappingFile (properties : Dict) : Option String :=
  (properties.toList.find? fun property =>
    "http-server.authentication.".toList.isPrefixOf property.1.toList ∧
      ".user-mapping.file".toList.isSuffixOf property.1.toList).map Prod.snd

/-- Each Section's `discover_paths`. -/
def SectionName.discoverPaths (settings : Settings) (properties : Dict) : SectionName → DiscoveredPaths
  | catalogs => {
      directories := pathAt settings.catalogStoreDir
        ((namedIn properties "catalog.config-dir").getD DEFAULT_STORE_DIR)
      why := if "catalog.config-dir" ∈ properties then none else some
        ("no catalog.config-dir property was found, so Trino's own default " ++ DEFAULT_STORE_DIR ++
          " was read rather than a path the Cluster named") }
  | clientCertificates => {
      directories := pathAt ClientCertificates.MOUNT_DIR ClientCertificates.MOUNT_DIR
      why := some ("nothing in Trino's configuration names a certificate directory, so this is " ++
        "where Apchi would mount one rather than where the Cluster says it is") }
  | certificateMapping =>
      match mappingFile properties with
      | some path => { files := pathAt CertificateMapping.MOUNT_PATH path }
      | none => {
          files := pathAt CertificateMapping.MOUNT_PATH CertificateMapping.MOUNT_PATH
          why := some ("no authenticator names a user-mapping file, so this is where Apchi would " ++
            "put one rather than where the Cluster says it is") }
  | eventListeners =>
      if settings.eventListenerConfigFilesFromDeployment then
        match namedIn properties "event-listener.config-files" with
        | some path => { files := pathAt EventListeners.PATH_IN_DIR path }
        | none => {
            files := pathAt EventListeners.PATH_IN_DIR EventListeners.PATH_IN_DIR
            why := some ("this Cluster is configured for the deployment to set " ++
              "event-listener.config-files, and no such property was found -- so this " ++
              "is where Apchi would put the file rather than where Trino reads it") }
      else { files := pathAt EventListeners.MOUNT_PATH EventListeners.MOUNT_PATH }
  | permissions =>
      match namedIn properties "security.config-file" with
      | some path => { files := pathAt Permissions.MOUNT_PATH path }
      | none => {
          files := pathAt Permissions.MOUNT_PATH Permissions.MOUNT_PATH
          why := some ("no security.config-file property was found, so this Cluster may have no " ++
            "file-based access control at all -- this is where Apchi would put the rules") }
  | resourceGroups =>
      let ours := ResourceGroups.rulesPath settings
      match namedIn properties "resource-groups.config-file" with
      | some path => {
          files := (pathAt ours path).insert ResourceGroups.MANAGER_PATH ResourceGroups.MANAGER_PATH }
      | none => {
          files := (pathAt ours ours).insert ResourceGroups.MANAGER_PATH ResourceGroups.MANAGER_PATH
          why := some ("no resource-groups.config-file property was found, so this is where Apchi " ++
            "would put the rules rather than where the Cluster says they are") }

end Apchi.Pipeline
