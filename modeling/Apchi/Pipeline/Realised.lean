import Apchi.ClientCertificates.RoundTrip
import Apchi.Pipeline.Dangling
import Apchi.Pipeline.EmptyPlan
import Apchi.Pipeline.WouldChange

/-!
# A delivery realises what is rendered

What a Section's operations can stage is rendered to files that the Section declares, each with a key of
its own.  So a delivery that returns leaves each file under its key in the one Secret, and on the pod
template exactly the single files with content, each showing its content; and it returns unless something
else is in the way on the Section's volume.
-/

namespace Apchi.Pipeline

open Lib Keyed

/-! ### What a delivery is for -/

/-- What a container sees at a path: the content under the key that is mounted there. -/
def ClusterState.shown (s : ClusterState) (container path : String) : Option String := do
  let m ← s.template.mountAt container path
  let secret ← s.template.secretOf m.name
  let key ← m.key
  (s.secret secret)[key]?

/-- A Secret's key holds a rendered file: it has its name and its content. -/
def HoldsFile (s : ClusterState) (contents : Dict) (place : String × String) (path : String) : Prop :=
  ∃ content, contents[path]? = some content ∧ content ≠ "" ∧ place.2 = fileKey path ∧
    (s.secret place.1)[place.2]? = some content

/-- The Cluster is as the rendered files say. -/
structure Realised (settings : Settings) (declared : List Delivery) (contents : Dict)
    (s : ClusterState) : Prop where
  shown : ∀ secret volume path, .file secret volume path ∈ declared → ∀ content,
    contents[path]? = some content → content ≠ "" →
      s.shown settings.trinoContainerName path = some content
  unmounted : ∀ secret volume path, .file secret volume path ∈ declared →
    hasText contents path = false → s.template.mountAt settings.trinoContainerName path = none
  volumes : ∀ volume ∈ volumesOf declared,
    (s.template.volumeNamed volume).isSome = true ↔ ∃ m ∈ s.template.everyMount, m.name = volume
  stored : ∀ path, hasText contents path = true →
    ∃! place : String × String, place.1 ∈ secretsOf declared ∧ HoldsFile s contents place path
  kept : ∀ secret ∈ secretsOf declared, ∀ key ∈ s.secret secret,
    ∃! path, HoldsFile s contents (secret, key) path

/-- The names of the Section's volumes are used by the Section only: none is that of a volume of another
kind, and but for its own files in the Trino container nothing is mounted on one. -/
structure OwnVolumes (settings : Settings) (declared : List Delivery) (template : PodTemplate) :
    Prop where
  free : ∀ volume ∈ volumesOf declared, template.occupied volume = false
  own : ∀ volume ∈ volumesOf declared, (template.unmounted settings.trinoContainerName
    ((filesOn volume declared).map Delivery.path)).mounts volume = false

/-- The Section declares and renders what the registry has for its name. -/
structure Section.Delivers (sect : Section) : Prop where
  registered : sect.Registered
  renders : ∀ resources settings admin,
    sect.renderFiles resources settings admin = sect.name.renderFiles resources settings admin

/-! ### What is rendered is declared -/

/-- This declaration takes the file at this path. -/
def Delivery.takes (path : String) : Delivery → Prop
  | .file _ _ own => path = own
  | .directory _ root => (PosixPath.ofString path).parent = PosixPath.ofString root

theorem takes_directory {secret root path : String}
    (h : (PosixPath.ofString path).parent = PosixPath.ofString root) :
    (Delivery.directory secret root).takes path := h

/-- Every rendered file is one that the Section declares, and its key is no other's. -/
structure Declared (declared : List Delivery) (contents : Dict) : Prop where
  covers : ∀ path ∈ contents, ∃ spec ∈ declared, spec.takes path
  distinct : ∀ path ∈ contents, ∀ other ∈ contents, fileKey path = fileKey other → path = other

theorem declared_empty (declared : List Delivery) : Declared declared ∅ :=
  ⟨fun _ hpath => absurd hpath Std.ExtTreeMap.not_mem_empty,
    fun _ hpath => absurd hpath Std.ExtTreeMap.not_mem_empty⟩

theorem mem_insert {dict : Dict} {path other content : String} :
    other ∈ dict.insert path content ↔ other = path ∨ other ∈ dict := by
  rw [Std.ExtTreeMap.mem_insert, Std.LawfulEqCmp.compare_eq_iff_eq, eq_comm]

/-- One file that is declared. -/
theorem declared_one {declared : List Delivery} {spec : Delivery} {path : String} (content : String)
    (hspec : spec ∈ declared) (h : spec.takes path) :
    Declared declared ((∅ : Dict).insert path content) := by
  have hone : ∀ {other}, other ∈ (∅ : Dict).insert path content → other = path := fun hother =>
    (mem_insert.mp hother).resolve_right Std.ExtTreeMap.not_mem_empty
  refine ⟨fun other hother => ⟨spec, hspec, ?_⟩, fun other hother given hgiven _ => ?_⟩
  · rw [hone hother]
    exact h
  · rw [hone hother, hone hgiven]

namespace ClientCertificatesFiles

open ClientCertificates

/-- The filename of a half of a certificate. -/
def filename (half : PairHalf) (name : String) : List Char := name.toList ++ half.suffix.toList

theorem slash_not_mem (half : PairHalf) (given : CertificateName) :
    '/' ∉ filename half given.text := by
  rw [filename, List.mem_append, not_or]
  refine ⟨fun hmem => absurd (given.safe '/' hmem) (by decide), ?_⟩
  cases half with
  | certificate => decide
  | privateKey => decide

/-- The directory and the filename are the parts of the path. -/
theorem ofString_path (half : PairHalf) (given : CertificateName) :
    PosixPath.ofString (half.path given.text) =
      { root := "/", parts := ["etc", "trino", "certs"] ++ [.ofList (filename half given.text)] } := by
  have htext : half.path given.text =
      .ofList (MOUNT_DIR.toList ++ '/' :: filename half given.text) := by
    rw [← String.toList_inj, toList_path, String.toList_ofList, String.toList_append,
      List.append_assoc]
    rfl
  have hkept : PosixPath.kept (filename half given.text) = [.ofList (filename half given.text)] := by
    have hlong : 3 ≤ (filename half given.text).length := by
      rw [filename, List.length_append]
      cases half with
      | certificate => exact Nat.le_add_left_of_le (by decide)
      | privateKey => exact Nat.le_add_left_of_le (by decide)
    refine if_neg ?_
    rintro (h | h) <;> rw [h] at hlong <;> exact absurd hlong (by decide)
  have hparts := PosixPath.parts_slash MOUNT_DIR.toList (slash_not_mem half given)
  rw [hkept, ← htext, String.ofList_toList,
    show (PosixPath.ofString MOUNT_DIR).parts = ["etc", "trino", "certs"] by decide] at hparts
  refine congrArg₂ PosixPath.mk ?_ hparts
  rw [htext, String.toList_ofList]
  rfl

theorem fileKey_path (half : PairHalf) (given : CertificateName) :
    fileKey (half.path given.text) = .ofList (filename half given.text) := by
  unfold fileKey PosixPath.name
  rw [ofString_path]
  rfl

/-- The files of certificates are declared. -/
theorem declared_render {stored : Resources} (h : Certificates stored) (settings : Settings) :
    ∃ contents, render stored = .ok contents ∧ Declared (coordinatorFiles settings) contents := by
  obtain ⟨files, hrender, hfiles⟩ := render_files h
  have hpath : ∀ path ∈ files, ∃ (half : PairHalf) (given : CertificateName),
      path = half.path given.text := by
    intro path hmem
    obtain ⟨content, hcontent⟩ :=
      Option.isSome_iff_exists.mp (Std.ExtTreeMap.mem_iff_isSome_getElem?.mp hmem)
    obtain ⟨name, bundle, half, hname, hhalf, -⟩ := (hfiles _ _).mp hcontent
    obtain ⟨⟨given, rfl⟩, -⟩ := h name _ hname
    exact ⟨half, given, hhalf⟩
  refine ⟨files, hrender, fun path hmem => ⟨_, List.mem_cons_self, ?_⟩,
    fun path hmem other hother hkey => ?_⟩
  · obtain ⟨half, given, rfl⟩ := hpath path hmem
    refine takes_directory ?_
    rw [ofString_path]
    exact (by decide : PosixPath.mk "/" ["etc", "trino", "certs"] = PosixPath.ofString MOUNT_DIR)
  · obtain ⟨half, given, rfl⟩ := hpath path hmem
    obtain ⟨half', given', rfl⟩ := hpath other hother
    rw [fileKey_path, fileKey_path] at hkey
    have hname : filename half given.text = filename half' given'.text :=
      String.ofList_injective hkey
    apply String.toList_inj.mp
    rw [toList_path, toList_path]
    exact congrArg _ hname

end ClientCertificatesFiles

namespace ResourceGroupsFiles

open ResourceGroups

theorem declared_render {stored : Resources} (h : ResourceGroups.Held stored) (settings : Settings) :
    ∃ contents, renderFiles stored settings = .ok contents ∧
      Declared (coordinatorFiles settings) contents := by
  obtain ⟨roots, selectors, own, hroots, hselectors, hsettings⟩ := h.renders
  have hrules : ∃ rules, renderRules stored = .ok rules := by
    unfold renderRules
    rw [hroots, hselectors, hsettings]
    exact ⟨_, rfl⟩
  obtain ⟨rules, hrules⟩ := hrules
  unfold renderFiles coordinatorFiles
  cases hshape : settings.resourceGroupsPropertiesFromDeployment with
  | true =>
    rw [if_pos rfl, if_pos rfl]
    have hinside : (Delivery.directory settings.resourceGroupsSecretName RULES_DIR).takes
        RULES_IN_DIR := takes_directory (by decide)
    unfold renderRulesOnly
    split
    · exact ⟨_, rfl, declared_one _ List.mem_cons_self hinside⟩
    · rw [hrules]
      exact ⟨_, rfl, declared_one rules List.mem_cons_self hinside⟩
  | false =>
    rw [if_neg Bool.false_ne_true, if_neg Bool.false_ne_true]
    unfold render
    split
    · exact ⟨∅, rfl, declared_empty _⟩
    · rw [hrules]
      have hne : fileKey RULES_PATH ≠ fileKey MANAGER_PATH := by decide
      have htwo : ∀ {path}, path ∈ ((∅ : Dict).insert RULES_PATH rules).insert MANAGER_PATH
          MANAGER_FILE → path = MANAGER_PATH ∨ path = RULES_PATH := fun hpath =>
        (mem_insert.mp hpath).imp_right fun hpath =>
          (mem_insert.mp hpath).resolve_right Std.ExtTreeMap.not_mem_empty
      refine ⟨_, rfl, fun path hpath => ?_, fun path hpath other hother hkey => ?_⟩
      · rcases htwo hpath with rfl | rfl
        · exact ⟨_, List.mem_cons_of_mem _ List.mem_cons_self, rfl⟩
        · exact ⟨_, List.mem_cons_self, rfl⟩
      · rcases htwo hpath with rfl | rfl
        · rcases htwo hother with rfl | rfl
          · rfl
          · exact absurd hkey.symm hne
        · rcases htwo hother with rfl | rfl
          · exact absurd hkey hne
          · rfl

end ResourceGroupsFiles

namespace SectionName

/-- What the registered Sections' operations can stage is rendered, for any settings and Admin values, to
files that they declare. -/
theorem renders {tools : Tools} {staging : Settings} {name : SectionName} {resources : Resources}
    (h : name.Stages tools staging resources) (settings : Settings) (admin : AdminValues) :
    ∃ contents, name.renderFiles resources settings admin = .ok contents ∧
      Declared (name.coordinatorFiles settings) contents := by
  cases name with
  | catalogs => exact ⟨∅, rfl, declared_empty _⟩
  | clientCertificates =>
    exact ClientCertificatesFiles.declared_render (ClientCertificates.Staged.certificates h) settings
  | certificateMapping =>
    have hinside : (Delivery.directory settings.certificateMappingSecretName
        CertificateMapping.MOUNT_DIR).takes
        CertificateMapping.MOUNT_PATH := takes_directory (by decide)
    obtain ⟨rules, hrules⟩ := CertificateMapping.Staged.renders h settings admin
    exact ⟨_, hrules, declared_one rules List.mem_cons_self hinside⟩
  | eventListeners =>
    have hheld : EventListeners.Held resources := EventListeners.Staged.held h
    rcases hheld.renders settings with hnone | ⟨content, hsome⟩
    · exact ⟨_, hnone, declared_empty _⟩
    · refine ⟨_, hsome, ?_⟩
      show Declared (EventListeners.coordinatorFiles settings) _
      unfold EventListeners.coordinatorFiles EventListeners.listenerPath
      split
      · exact declared_one content List.mem_cons_self (takes_directory (by decide))
      · exact declared_one content List.mem_cons_self rfl
  | permissions =>
    have hinside : (Delivery.directory settings.accessControlSecretName
        Permissions.MOUNT_DIR).takes
        Permissions.MOUNT_PATH := takes_directory (by decide)
    obtain ⟨grants, -, rfl⟩ := h
    have hrender : Permissions.renderFiles (Permissions.storedGrants grants) settings admin =
        .ok ((∅ : Dict).insert Permissions.MOUNT_PATH (Permissions.renderRules settings.trinoUser grants
          settings.verificationCatalog admin.enforcePermissions admin.preservedAccessControl)) := by
      unfold Permissions.renderFiles
      rw [Permissions.readGrants_stored]
      rfl
    exact ⟨_, hrender, declared_one _ List.mem_cons_self hinside⟩
  | resourceGroups =>
    exact ResourceGroupsFiles.declared_render (ResourceGroups.Staged.held h) settings

end SectionName

/-! ### What the Secret holds -/

/-- The Secret holds the rendered files with content, each under its key. -/
def Holds (data contents : Dict) : Prop :=
  ∀ key content, data[key]? = some content ↔
    ∃ path, fileKey path = key ∧ contents[path]? = some content ∧ content ≠ ""

theorem Fills.holds {data contents : Dict} {paths : List String} (h : Fills data contents paths)
    (hall : ∀ path ∈ contents, path ∈ paths) : Holds data contents := by
  intro key content
  rw [h key content]
  constructor
  · rintro ⟨path, -, hpath⟩
    exact ⟨path, hpath⟩
  · rintro ⟨path, hkey, hcontent, hne⟩
    refine ⟨path, hall path ?_, hkey, hcontent, hne⟩
    rw [Std.ExtTreeMap.mem_iff_isSome_getElem?, hcontent]
    rfl

/-- The files that a registered Section declares go into one Secret. -/
theorem bySecret_declared {sect : Section} (hsect : sect.Registered) {settings : Settings}
    {contents : Dict} (h : Declared (sect.coordinatorFiles settings) contents)
    (hdeclared : sect.coordinatorFiles settings ≠ []) :
    ∃ secret data, secretsOf (sect.coordinatorFiles settings) = [secret] ∧ Holds data contents ∧
      bySecret (sect.coordinatorFiles settings) contents = .ok [(secret, data)] := by
  rcases hsect.cases settings with
    ⟨secret, volume, paths, -, hkeys, hpaths, hfiles⟩ | ⟨secret, root, hfiles⟩ | hnone
  · rw [hfiles] at h ⊢
    have hall : ∀ path ∈ contents, path ∈ paths := by
      intro path hpath
      obtain ⟨spec, hspec, htakes⟩ := h.covers path hpath
      obtain ⟨own, hown, rfl⟩ := List.mem_map.mp hspec
      obtain rfl : path = own := htakes
      exact hown
    obtain ⟨data, hfills, hwritten⟩ := @bySecret_files secret volume paths contents hpaths hkeys
    exact ⟨secret, data, secretsOf_files hpaths, hfills.holds hall, (hwritten _).mpr ⟨rfl, hall⟩⟩
  · rw [hfiles] at h ⊢
    have hall : ∀ path ∈ contents, path ∈ inside contents root := by
      intro path hpath
      obtain ⟨spec, hspec, htakes⟩ := h.covers path hpath
      cases List.mem_singleton.mp hspec
      exact List.mem_filter.mpr ⟨Std.ExtTreeMap.mem_keys.mpr hpath, decide_eq_true htakes⟩
    have hkeys : ((inside contents root).map fileKey).Nodup := by
      refine List.pairwise_map.mpr ((Std.ExtTreeMap.nodup_keys.filter _).imp_of_mem ?_)
      intro path other hpath hother hne hkey
      have hin : ∀ {path}, path ∈ inside contents root → path ∈ contents := fun hpath =>
        Std.ExtTreeMap.mem_keys.mp (List.mem_filter.mp hpath).1
      exact hne (h.distinct path (hin hpath) other (hin hother) hkey)
    obtain ⟨data, hfills, hwritten⟩ := @bySecret_directory secret root contents hkeys
    have hsecrets : secretsOf [Delivery.directory secret root] = [secret] := by
      simp [secretsOf, Delivery.secret, List.eraseDups_cons]
    exact ⟨secret, data, hsecrets, hfills.holds hall, (hwritten _).mpr ⟨rfl, hall⟩⟩
  · exact absurd hnone hdeclared

/-- Each file has its place, and each key its file. -/
theorem Holds.places {declared : List Delivery} {contents data : Dict} {secret : String}
    {s : ClusterState} (h : Holds data contents) (hdeclared : Declared declared contents)
    (hsecrets : secretsOf declared = [secret]) (hsecret : s.secret secret = data) :
    (∀ path, hasText contents path = true →
      ∃! place : String × String, place.1 ∈ secretsOf declared ∧ HoldsFile s contents place path) ∧
    ∀ secret ∈ secretsOf declared, ∀ key ∈ s.secret secret,
      ∃! path, HoldsFile s contents (secret, key) path := by
  rw [hsecrets]
  constructor
  · intro path htext
    obtain ⟨content, hcontent, hne⟩ := hasText_iff.mp htext
    refine ⟨(secret, fileKey path), ⟨List.mem_singleton_self _, content, hcontent, hne, rfl, ?_⟩, ?_⟩
    · rw [hsecret]
      exact (h _ _).mpr ⟨path, rfl, hcontent, hne⟩
    · rintro ⟨other, key⟩ ⟨hother, -, -, -, hkey, -⟩
      exact Prod.ext (List.mem_singleton.mp hother) hkey
  · intro other hother key hkey
    obtain rfl := List.mem_singleton.mp hother
    rw [hsecret] at hkey
    obtain ⟨content, hcontent⟩ :=
      Option.isSome_iff_exists.mp (Std.ExtTreeMap.mem_iff_isSome_getElem?.mp hkey)
    obtain ⟨path, rfl, hpath, hne⟩ := (h _ _).mp hcontent
    have hmem : ∀ {path content}, contents[path]? = some content → path ∈ contents := by
      intro path content hpath
      rw [Std.ExtTreeMap.mem_iff_isSome_getElem?, hpath]
      rfl
    refine ⟨path, ⟨content, hpath, hne, rfl, by rw [hsecret]; exact hcontent⟩, ?_⟩
    rintro given ⟨found, hfound, -, hsame, -⟩
    exact hdeclared.distinct given (hmem hfound) path (hmem hpath) hsame.symm

/-! ### What the template mounts -/

section template

variable {template : PodTemplate} {container volume secret : String} {paths : List String}
  {contents : Dict}

theorem mem_everyMount_of_mountAt {path : String} {m : VolumeMount}
    (h : template.mountAt container path = some m) : m ∈ template.everyMount := by
  have hm := List.mem_of_find?_eq_some h
  unfold PodTemplate.mountsIn at hm
  cases hfind : template.containers.find? (isNamed container) with
  | none =>
    rw [hfind] at hm
    cases hm
  | some c =>
    rw [hfind] at hm
    exact mem_everyMount.mpr ⟨c, List.mem_append_right _ (List.mem_of_find?_eq_some hfind), hm⟩

theorem not_mem_everyMount (h : template.mounts volume = false) {m : VolumeMount}
    (hm : m ∈ template.everyMount) : m.name ≠ volume := by
  intro hname
  obtain ⟨c, hc, hmount⟩ := mem_everyMount.mp hm
  have htrue : template.mounts volume = true :=
    List.any_eq_true.mpr ⟨c, hc, List.any_eq_true.mpr ⟨m, hmount, decide_eq_true hname⟩⟩
  rw [h] at htrue
  cases htrue

/-- What the patches that go through leave on the template. -/
theorem withFiles_realises (hhas : template.has container = true)
    (hmounts : paths.filter (hasText contents) = [] →
      (template.unmounted container paths).mounts volume = false) :
    (∀ path ∈ paths, hasText contents path = true →
      (template.withFiles container volume secret contents paths).mountAt container path =
        some (fileMount volume path (fileKey path)) ∧
      (template.withFiles container volume secret contents paths).secretOf volume = some secret) ∧
    (∀ path ∈ paths, hasText contents path = false →
      (template.withFiles container volume secret contents paths).mountAt container path = none) ∧
    (((template.withFiles container volume secret contents paths).volumeNamed volume).isSome = true ↔
      ∃ m ∈ (template.withFiles container volume secret contents paths).everyMount,
        m.name = volume) := by
  unfold PodTemplate.withFiles
  by_cases hpresent : paths.filter (hasText contents) = []
  · rw [if_pos hpresent]
    refine ⟨fun path hpath htext => ?_, fun path hpath _ => ?_, ?_⟩
    · exact absurd htext (List.filter_eq_nil_iff.mp hpresent path hpath)
    · exact (mountAt_unmounted hhas path).trans (if_pos hpath)
    · refine iff_of_false (by rw [volumeNamed_dropped]; exact Bool.false_ne_true) ?_
      rintro ⟨m, hm, hname⟩
      exact not_mem_everyMount (hmounts hpresent) hm hname
  · rw [if_neg hpresent]
    have hvolume : ((template.mountedAll container volume secret fileKey
        (paths.filter (hasText contents))).unmounted container
          (paths.filter fun path => !hasText contents path)).volumeNamed volume =
        some (template.secretVolume volume secret) := volumeNamed_mountedAll hpresent
    have hmounted : ∀ path ∈ paths, hasText contents path = true →
        ((template.mountedAll container volume secret fileKey
          (paths.filter (hasText contents))).unmounted container
            (paths.filter fun path => !hasText contents path)).mountAt container path =
          some (fileMount volume path (fileKey path)) := by
      intro path hpath htext
      rw [mountAt_unmounted (has_mountedAll.trans hhas), mountAt_mountedAll hhas,
        if_neg (by simp [htext]), if_pos (List.mem_filter.mpr ⟨hpath, htext⟩)]
    refine ⟨fun path hpath htext => ⟨hmounted path hpath htext, ?_⟩, fun path hpath htext => ?_, ?_⟩
    · unfold PodTemplate.secretOf
      rw [hvolume]
      rfl
    · rw [mountAt_unmounted (has_mountedAll.trans hhas),
        if_pos (List.mem_filter.mpr ⟨hpath, by simp [htext]⟩)]
    · obtain ⟨path, hpath⟩ := List.exists_mem_of_ne_nil _ hpresent
      obtain ⟨hmem, htext⟩ := List.mem_filter.mp hpath
      refine iff_of_true (by rw [hvolume]; rfl) ⟨fileMount volume path (fileKey path), ?_, rfl⟩
      exact mem_everyMount_of_mountAt (hmounted path hmem htext)

end template

/-- The single files that are declared have keys. -/
theorem Section.Registered.fileKey_ne {sect : Section} (hsect : sect.Registered) (settings : Settings)
    {secret volume path : String} (h : .file secret volume path ∈ sect.coordinatorFiles settings) :
    fileKey path ≠ "" := by
  rw [hsect settings] at h
  cases hname : sect.name with
  | catalogs => rw [hname] at h; cases h
  | clientCertificates => rw [hname] at h; cases List.mem_singleton.mp h
  | certificateMapping => rw [hname] at h; cases List.mem_singleton.mp h
  | permissions => rw [hname] at h; cases List.mem_singleton.mp h
  | eventListeners =>
    rw [hname] at h
    simp only [SectionName.coordinatorFiles, EventListeners.coordinatorFiles] at h
    split at h
    · cases List.mem_singleton.mp h
    · cases List.mem_singleton.mp h
      decide
  | resourceGroups =>
    rw [hname] at h
    simp only [SectionName.coordinatorFiles, ResourceGroups.coordinatorFiles] at h
    split at h
    · cases List.mem_singleton.mp h
    · obtain ⟨own, hown, hsame⟩ := List.mem_map.mp h
      cases hsame
      rcases List.mem_pair.mp hown with rfl | rfl
      · decide
      · decide

/-- Where something holds of no volume and no file there is only the Secret to see to. -/
theorem realised_of_unmounted {settings : Settings} {declared : List Delivery} {contents : Dict}
    {s : ClusterState} (hnone : ∀ secret volume path, .file secret volume path ∉ declared)
    (hplaces : (∀ path, hasText contents path = true →
        ∃! place : String × String, place.1 ∈ secretsOf declared ∧ HoldsFile s contents place path) ∧
      ∀ secret ∈ secretsOf declared, ∀ key ∈ s.secret secret,
        ∃! path, HoldsFile s contents (secret, key) path) : Realised settings declared contents s where
  shown secret volume path h := absurd h (hnone secret volume path)
  unmounted secret volume path h := absurd h (hnone secret volume path)
  volumes volume h := by
    obtain ⟨spec, hspec, hvolume⟩ := List.mem_filterMap.mp (List.mem_eraseDups.mp h)
    cases spec with
    | file secret own path => exact absurd hspec (hnone secret own path)
    | directory secret path => cases hvolume
  stored := hplaces.1
  kept := hplaces.2

/-- **A delivery realises what is rendered.**  What a registered Section's operations can stage is
rendered, whatever the settings and the Admin values are; from any state a delivery that returns leaves
the Cluster as the files say, and where there is the Trino container and the Section's volumes are its
own it returns. -/
theorem deliver_realises (platform : Platform) (tools : Tools) (staging : Settings) {sect : Section}
    (hsect : sect.Delivers) (cluster : Cluster) {resources : Resources}
    (hstages : sect.name.Stages tools staging resources) (s : ClusterState) :
    ∃ contents result s',
      sect.renderFiles resources cluster.settings cluster.admin = .ok contents ∧
      (deliver sect cluster resources).run (clusterMachine platform) s = (result, s') ∧
      (s.template.has cluster.settings.trinoContainerName = true →
        OwnVolumes cluster.settings (sect.coordinatorFiles cluster.settings) s.template →
          result = .ok ()) ∧
      (result = .ok () →
        Realised cluster.settings (sect.coordinatorFiles cluster.settings) contents s') := by
  obtain ⟨contents, hrender, hcontents⟩ :=
    SectionName.renders hstages cluster.settings cluster.admin
  rw [← hsect.renders] at hrender
  rw [← hsect.registered] at hcontents
  by_cases hdeclared : sect.coordinatorFiles cluster.settings = []
  · -- nothing is declared, and so nothing is rendered
    have hrun : (deliver sect cluster resources).run (clusterMachine platform) s = (.ok (), s) := by
      rw [deliver_eq, hdeclared]
      rfl
    refine ⟨contents, _, s, hrender, hrun, fun _ _ => rfl, fun _ => ?_⟩
    rw [hdeclared] at hcontents ⊢
    refine realised_of_unmounted (fun _ _ _ => List.not_mem_nil) ⟨fun path htext => ?_, nofun⟩
    obtain ⟨content, hcontent, -⟩ := hasText_iff.mp htext
    have hpath : path ∈ contents := by
      rw [Std.ExtTreeMap.mem_iff_isSome_getElem?, hcontent]
      rfl
    obtain ⟨spec, hspec, -⟩ := hcontents.covers path hpath
    cases hspec
  · obtain ⟨secret, data, hone, hholds, hsecrets⟩ :=
      bySecret_declared hsect.registered hcontents hdeclared
    obtain ⟨s', hrun, htemplate, hwritten, -⟩ :=
      @run_deliver platform _ _ _ _ _ hrender hsecrets hdeclared s
    have hsecret : s'.secret secret = data := by
      unfold ClusterState.secret
      rw [hwritten (secret, data) (List.mem_singleton_self _)]
      rfl
    have hplaces := hholds.places hcontents hone hsecret
    refine ⟨contents, _, s', hrender, hrun, ?_⟩
    rcases hsect.registered.cases cluster.settings with
      ⟨secret', volume, paths, -, -, hpaths, hfiles⟩ | ⟨secret', root, hfiles⟩ | hnone
    · have hsame : secret' = secret := by
        rw [hfiles, secretsOf_files hpaths] at hone
        exact List.singleton_inj.mp hone
      subst hsame
      have hmounts := sectionMounts_files hpaths hrender hfiles
      have hon : (filesOn volume (paths.map (Delivery.file secret' volume))).map Delivery.path =
          paths := by
        rw [filesOn_files, List.map_map]
        exact List.map_id _
      rw [hmounts] at htemplate ⊢
      by_cases hrefuses : Refuses s.template cluster.settings.trinoContainerName volume contents paths
      · -- the API server refuses the patches
        obtain ⟨e, hafter⟩ := @after_refused _ _ volume secret' paths contents hpaths hrefuses
        rw [hafter]
        refine ⟨fun hhas hown => ?_, nofun⟩
        rw [hfiles] at hown
        have hvolume : volume ∈ volumesOf (paths.map (Delivery.file secret' volume)) := by
          rw [volumesOf_files hpaths]
          exact List.mem_singleton_self _
        have hmounted := hown.own volume hvolume
        rw [hon] at hmounted
        rcases hrefuses with hnot | ⟨-, htaken⟩ | ⟨-, hmounts⟩
        · rw [hhas] at hnot
          cases hnot
        · rw [hown.free volume hvolume] at htaken
          cases htaken
        · rw [hmounted] at hmounts
          cases hmounts
      · rw [after_accepted hpaths hrefuses] at htemplate ⊢
        refine ⟨fun _ _ => rfl, fun _ => ?_⟩
        simp only [Refuses, not_or, not_and, Bool.not_eq_false, Bool.not_eq_true] at hrefuses
        obtain ⟨hhas, -, hfree⟩ := hrefuses
        obtain ⟨hpresent, habsent, hvolume⟩ :=
          @withFiles_realises s.template _ volume secret' paths contents hhas hfree
        have hkeys := fun path (hpath : path ∈ paths) => hsect.registered.fileKey_ne
          cluster.settings (hfiles ▸ List.mem_map_of_mem hpath)
        refine ⟨fun secret own path hfile content hcontent hne => ?_,
          fun secret own path hfile htext => ?_, fun own hown => ?_, hplaces.1, hplaces.2⟩
        · rw [hfiles] at hfile
          obtain ⟨rfl, rfl, hpath⟩ := mem_files.mp hfile
          obtain ⟨hmount, hsource⟩ := hpresent path hpath (hasText_iff.mpr ⟨content, hcontent, hne⟩)
          have hkey : (fileMount own path (fileKey path)).key = some (fileKey path) :=
            if_pos (decide_eq_true (hkeys path hpath))
          unfold ClusterState.shown
          rw [htemplate, hmount, Option.bind_eq_bind, Option.bind_some,
            show (fileMount own path (fileKey path)).name = own from rfl, hsource, hkey]
          show (s'.secret secret)[fileKey path]? = some content
          rw [hsecret]
          exact (hholds _ _).mpr ⟨path, rfl, hcontent, hne⟩
        · rw [hfiles] at hfile
          obtain ⟨rfl, rfl, hpath⟩ := mem_files.mp hfile
          rw [htemplate]
          exact habsent path hpath htext
        · rw [hfiles, volumesOf_files hpaths] at hown
          obtain rfl := List.mem_singleton.mp hown
          rw [htemplate]
          exact hvolume
    · rw [sectionMounts_directory hfiles] at htemplate ⊢
      refine ⟨fun _ _ => rfl, fun _ => realised_of_unmounted (fun secret volume path h => ?_) hplaces⟩
      rw [hfiles] at h
      cases List.mem_singleton.mp h
    · exact absurd hnone hdeclared

/-! ### A first listener -/

/-- A listener of a type that has no curated properties. -/
def lineage : Resources :=
  (∅ : Resources).insert "audit" (EventListeners.storedListener "openlineage" ∅)

def listenersFile : Dict :=
  (∅ : Dict).insert EventListeners.MOUNT_PATH "event-listener.name=openlineage\n"

theorem delivers_listeners : EventListeners.eventListenersSection.Delivers :=
  ⟨fun _ => rfl, fun _ _ _ => rfl⟩

theorem staged_lineage : EventListeners.Staged noTools.closest lineage := by
  have hcreate : EventListeners.createEventListener noTools.closest ∅ "audit" "openlineage" ∅ =
      .ok lineage := by
    decide +kernel
  exact .create .empty hcreate

/-- On a Cluster that holds nothing yet the listener's file is delivered, and Trino sees it. -/
theorem deliver_realises_lineage :
    Realised {} (EventListeners.coordinatorFiles {}) listenersFile
        ((deliver EventListeners.eventListenersSection plainCluster lineage).run
          (clusterMachine quietPlatform) freshCluster).2 ∧
      (((deliver EventListeners.eventListenersSection plainCluster lineage).run
        (clusterMachine quietPlatform) freshCluster).2).shown "trino" EventListeners.MOUNT_PATH =
          some "event-listener.name=openlineage\n" := by
  obtain ⟨contents, result, s', hrender, hrun, hreturns, hrealised⟩ :=
    deliver_realises quietPlatform noTools {} delivers_listeners plainCluster staged_lineage
      freshCluster
  have hfile : EventListeners.eventListenersSection.renderFiles lineage {} {} = .ok listenersFile := by
    decide +kernel
  cases hfile.symm.trans hrender
  have hown : OwnVolumes {} (EventListeners.coordinatorFiles {}) freshCluster.template :=
    ⟨fun _ _ => rfl, fun _ _ => rfl⟩
  have hdone := hrealised (hreturns rfl hown)
  rw [hrun]
  refine ⟨hdone, hdone.shown _ _ _ List.mem_cons_self _ ?_ (by decide)⟩
  exact Std.ExtTreeMap.getElem?_insert_self

end Apchi.Pipeline
