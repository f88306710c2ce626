import Apchi.Adoption.Discovery
import Apchi.Adoption.Refusals

/-!
# Malformed files in a discovery

Where every call is answered, what a discovery can end in is what its files raise.  A `ParseProblem` of
a Section's own files becomes a problem of that Section.  The error of a model does not, and neither
does the `ParseProblem` of a seed Secret's key.
-/

namespace Apchi.Adoption

open Lib Pipeline Coordinator

/-! ### What is read off the Cluster -/

/-- Every Secret and ConfigMap can be read, and so can a Deployment if it is there. -/
structure Answers (kubernetes : Adapter) : Prop where
  configMaps : ∀ name, ∃ data, kubernetes.readConfigMap name = .ok data
  secrets : ∀ name, ∃ data, kubernetes.readSecret name = .ok data
  deployments : ∀ name, ∃ spec, kubernetes.deploymentPodSpecIfPresent name = .ok spec

section Answers

variable {kubernetes : Adapter} {kinds : Error → Prop}

theorem Answers.dataOf (h : Answers kubernetes) (volume : Coordinator.Volume) :
    OnlyRaises kinds (dataOf kubernetes volume) := by
  unfold Coordinator.dataOf
  cases volume.configMapName with
  | some name =>
    obtain ⟨data, hdata⟩ := h.configMaps name
    exact (OnlyRaises.of_eq_ok hdata).bind fun _ _ => .ok _
  | none =>
    cases volume.secretName with
    | some name =>
      obtain ⟨data, hdata⟩ := h.secrets name
      exact (OnlyRaises.of_eq_ok hdata).bind fun _ _ => .ok _
    | none => exact .ok _

theorem Answers.contentAt (h : Answers kubernetes) (spec : PodSpec) (path : String)
    (container : Option String) : OnlyRaises kinds (contentAt kubernetes spec path container) := by
  unfold Coordinator.contentAt
  split
  · exact .ok _
  · split
    · exact .ok _
    · exact (h.dataOf _).bind fun _ _ => .ok _

theorem Answers.trinoConfiguration (h : Answers kubernetes) (spec : PodSpec) :
    OnlyRaises kinds (trinoConfiguration kubernetes spec) := by
  refine OnlyRaises.foldlM (fun merged path => ?_) _ _
  refine (h.contentAt spec path none).bind fun content _ => ?_
  cases content with
  | none => exact .ok _
  | some content => exact .ok _

theorem Answers.filesUnder (h : Answers kubernetes) (spec : PodSpec) (directory : String) :
    OnlyRaises kinds (filesUnder kubernetes spec directory) := by
  unfold Adoption.filesUnder
  split
  · exact .ok _
  · split
    · exact .ok _
    · exact (h.dataOf _).bind fun _ _ => .ok _

theorem Answers.findFiles (h : Answers kubernetes) (spec : PodSpec) (properties : Dict)
    (sect : SectionName) (paths : DiscoveredPaths) :
    OnlyRaises kinds (findFiles kubernetes spec properties sect paths) := by
  refine OnlyRaises.bind (OnlyRaises.foldlM (fun found file => ?_) _ _) fun found _ =>
    OnlyRaises.foldlM (fun found directory => ?_) _ _
  · refine (h.contentAt spec file.2 none).bind fun content _ => ?_
    cases content with
    | none => exact .ok _
    | some content => exact .ok _
  · refine (h.filesUnder spec directory.2).bind fun listed _ => ?_
    cases listed with
    | none => exact .ok _
    | some listed => exact .ok _

/-! ### The preconditions -/

theorem Answers.refreshPeriodProblems (h : Answers kubernetes) (spec : PodSpec)
    (containers : List Container) :
    OnlyRaises kinds (refreshPeriodProblems kubernetes spec containers) := by
  induction containers with
  | nil => exact .ok _
  | cons container rest ih =>
    unfold Pipeline.refreshPeriodProblems
    split
    · exact ih
    · split
      · exact ih
      · refine (h.contentAt spec _ _).bind fun content _ => ?_
        cases content with
        | none => exact .ok _
        | some content => exact .ok _

theorem Answers.pointerProblem (h : Answers kubernetes) (spec : PodSpec) (pointer : Pointer)
    (containers : List Container) :
    OnlyRaises kinds (pointerProblem kubernetes spec pointer containers) := by
  induction containers with
  | nil => exact .ok _
  | cons container rest ih =>
    unfold Pipeline.pointerProblem
    split
    · exact ih
    · refine (h.contentAt spec _ _).bind fun content _ => ?_
      cases content with
      | none => exact .ok _
      | some content =>
        dsimp only
        split
        · exact .ok _
        · exact .ok _

theorem Answers.unreachableCoordinatorProblems (h : Answers kubernetes) (spec : PodSpec)
    (settings : Settings) :
    OnlyRaises kinds (unreachableCoordinatorProblems kubernetes spec settings) := by
  refine (h.contentAt spec CONFIG_PROPERTIES none).bind fun content _ => ?_
  cases content with
  | none => exact .ok _
  | some content =>
    dsimp only
    split
    · exact .ok _
    · split
      · split
        · exact .ok _
        · split
          · exact .ok _
          · exact .ok _
      · exact .ok _

/-- Where every call is answered the preconditions come to a list of what is wrong. -/
theorem Answers.preconditionProblems (h : Answers kubernetes) (spec : PodSpec) (settings : Settings) :
    OnlyRaises kinds (preconditionProblems kubernetes spec settings) := by
  have hproblems : ∃ problems, problemsOf kubernetes spec settings = .ok problems := by
    refine OnlyRaises.returns ?_
    refine (h.refreshPeriodProblems spec spec.containers).bind fun refreshPeriod _ => ?_
    refine OnlyRaises.bind ?_ fun pointers _ => ?_
    · exact (OnlyRaises.mapM fun pointer _ => h.pointerProblem spec pointer spec.containers).bind
        fun _ _ => .ok _
    refine OnlyRaises.bind ?_ fun exposed _ => ?_
    · obtain ⟨worker, hworker⟩ := h.deployments settings.workerDeploymentName
      exact (OnlyRaises.of_eq_ok hworker).bind fun _ _ => .ok _
    exact (h.unreachableCoordinatorProblems spec settings).bind fun own _ => .ok _
  obtain ⟨⟨problems, own⟩, hproblems⟩ := hproblems
  unfold Adoption.preconditionProblems check
  rw [hproblems]
  dsimp only
  split
  · exact .ok _
  · next heq =>
    split at heq
    · cases heq
    · cases heq
  · exact .ok _

end Answers

/-! ### Writing what was read -/

/-- What a Section read can be written, and the files written are foreseen. -/
def Rereads (models : ResourceGroups.Models) (settings : Settings) (sect : SectionName)
    (parsed : Parsed) : Prop :=
  ∃ regenerated, sect.renderFiles parsed.resources settings (AdminRead.values parsed.admin) =
    .ok regenerated ∧ sect.Foreseen models settings regenerated

section Rereads

variable {models : ResourceGroups.Models} {settings : Settings} {files : Dict} {parsed : Parsed}

theorem storedOperator_eq_ok {operator : Option (List (String × Json))} {resources : Resources}
    (h : CertificateMapping.storedOperator operator = .ok resources) :
    ∃ middle : List CertificateMappingWrite, (∀ mapping ∈ middle, CertificateMapping.Valid mapping) ∧
      middle.tail = [] ∧ resources = CertificateMapping.storedAs middle := by
  cases operator with
  | none =>
    cases h
    exact ⟨[], nofun, rfl, rfl⟩
  | some rule =>
    obtain ⟨mapping, hmapping, h⟩ := ok_of_bind h
    cases h
    exact ⟨[mapping], List.forall_mem_singleton.mpr (CertificateMapping.validate_ok hmapping).1, rfl,
      rfl⟩

theorem rereads_mapping (h : parseMapping files settings = .ok parsed) :
    Rereads models settings .certificateMapping parsed := by
  have hread : ∃ middle : List CertificateMappingWrite,
      (∀ mapping ∈ middle, CertificateMapping.Valid mapping) ∧ middle.tail = [] ∧
        parsed.resources = CertificateMapping.storedAs middle ∧ parsed.admin = none := by
    unfold parseMapping CertificateMapping.parseFiles at h
    cases hfile : files[CertificateMapping.MOUNT_PATH]? with
    | none =>
      rw [hfile] at h
      cases h
      exact ⟨[], nofun, rfl, rfl, rfl⟩
    | some content =>
      rw [hfile] at h
      dsimp only at h
      cases hparse : CertificateMapping.parseRules CertificateMapping.MOUNT_PATH content
        settings.trinoUser with
      | error e =>
        rw [hparse] at h
        dsimp only at h
        by_cases hkind : e.kind = "Unreadable"
        · rw [if_pos hkind] at h
          cases h
        · rw [if_neg hkind] at h
          dsimp only at h
          split at h <;> cases h
      | ok result =>
        rw [hparse] at h
        cases h
        unfold CertificateMapping.parseRules at hparse
        obtain ⟨document, -, hparse⟩ := ok_of_bind hparse
        obtain ⟨rules, -, hparse⟩ := ok_of_bind hparse
        obtain ⟨objects, -, hparse⟩ := ok_of_bind hparse
        obtain ⟨resources, hstored, hparse⟩ := ok_of_bind hparse
        cases hparse
        obtain ⟨middle, hvalid, htail, hresources⟩ := storedOperator_eq_ok hstored
        exact ⟨middle, hvalid, htail, hresources, rfl⟩
  obtain ⟨middle, hvalid, htail, hresources, hadmin⟩ := hread
  obtain ⟨written, hrules, unaccounted, hparse⟩ : ∃ written,
      CertificateMapping.renderRules parsed.resources settings.trinoUser [] = .ok written ∧
        ∃ unaccounted, CertificateMapping.parseRules CertificateMapping.MOUNT_PATH written
          settings.trinoUser = .ok (CertificateMapping.storedAs middle, unaccounted) := by
    have hrules := CertificateMapping.renderRules_storedAs settings.trinoUser middle
    rw [htail, ← hresources] at hrules
    obtain ⟨unaccounted, hparse, -⟩ := CertificateMapping.parseRules_rendered
      CertificateMapping.MOUNT_PATH settings.trinoUser hvalid
    exact ⟨_, hrules, unaccounted, hparse⟩
  refine ⟨(∅ : Dict).insert CertificateMapping.MOUNT_PATH written, ?_, fun content hcontent => ?_⟩
  · show CertificateMapping.renderFiles _ _ _ = _
    unfold CertificateMapping.renderFiles
    rw [hadmin]
    show (CertificateMapping.renderRules parsed.resources settings.trinoUser [] >>= _) = _
    rw [hrules]
    rfl
  · rw [Std.ExtTreeMap.getElem?_insert_self] at hcontent
    cases hcontent
    exact CertificateMapping.parseRules_raises_iff.mp (.of_eq_ok hparse)

theorem foreseen_document {path content : String} {settings : ResourceGroups.ResourceGroupSettings}
    {roots selectors : List Json}
    (h : ∀ path, ResourceGroups.documentIn path content =
      .ok (ResourceGroups.document settings roots selectors)) :
    ResourceGroups.SettingsForeseen models path content := by
  intro fields _ _ _ _ hfields _ _ _ _
  rw [h] at hfields
  cases hfields
  rw [(ResourceGroups.known_document settings roots selectors).1]
  exact ⟨settings, models.settings_given settings⟩

theorem foreseen_default (path : String) :
    ResourceGroups.SettingsForeseen models path ResourceGroups.trinoDefaultRules := by
  have hloads : Json.loads ResourceGroups.trinoDefaultRules = some (.obj
      [("rootGroups", .arr [.obj [("name", .str "global"), ("hardConcurrencyLimit", .int 1000),
        ("maxQueued", .int 5000)]]), ("selectors", .arr [.obj [("group", .str "global")]])]) :=
    Json.loads_dumps_append (by simp [Json.wf_obj, Json.wf_arr]) "\n" (by simp [Json.isSpace])
  exact @foreseen_document models path _ ⟨none⟩ _ _ fun path =>
    ResourceGroups.documentIn_of_loads path hloads

theorem parseGroups_held (h : parseGroups models files settings = .ok parsed) :
    ResourceGroups.Held parsed.resources := by
  unfold parseGroups ResourceGroups.parseFiles at h
  cases hfile : files[ResourceGroups.rulesPath settings]? with
  | none =>
    have hempty : parsed.resources = ∅ := by
      rw [hfile] at h
      cases hmanager : files[ResourceGroups.MANAGER_PATH]? with
      | none =>
        rw [hmanager] at h
        cases h
        rfl
      | some manager =>
        rw [hmanager] at h
        cases h
        rfl
    rw [hempty]
    exact ⟨by simp, by simp, by simp⟩
  | some content =>
    rw [hfile] at h
    dsimp only at h
    cases hparse : ResourceGroups.parseRules models (ResourceGroups.rulesPath settings) content with
    | error failure =>
      rw [hparse] at h
      cases failure <;> cases h
    | ok result =>
      obtain ⟨resources, unaccounted⟩ := result
      rw [hparse] at h
      cases h
      obtain ⟨⟨selectors, written, hresources⟩, hvalid⟩ := ResourceGroups.parseRules_groups hparse
      show ResourceGroups.Held resources
      rw [hresources]
      exact ResourceGroups.held_of_objects hvalid written selectors

/-- What is written at the path of the rules is the rules, or what Trino does without any. -/
theorem renderFiles_rules {stored : Resources} {rules : String}
    (h : ResourceGroups.renderRules stored = .ok rules) :
    ∃ regenerated, ResourceGroups.renderFiles stored settings = .ok regenerated ∧
      ∀ content, regenerated[ResourceGroups.rulesPath settings]? = some content →
        content = ResourceGroups.trinoDefaultRules ∨ content = rules := by
  unfold ResourceGroups.renderFiles ResourceGroups.rulesPath
  by_cases hshape : settings.resourceGroupsPropertiesFromDeployment = true
  · rw [if_pos hshape, if_pos hshape]
    unfold ResourceGroups.renderRulesOnly
    by_cases hempty : ResourceGroups.isEmpty stored = true
    · rw [if_pos hempty]
      refine ⟨_, rfl, fun content hcontent => Or.inl ?_⟩
      rw [Std.ExtTreeMap.getElem?_insert_self] at hcontent
      exact (Option.some.inj hcontent).symm
    · rw [if_neg hempty, h]
      refine ⟨_, rfl, fun content hcontent => Or.inr ?_⟩
      rw [Std.ExtTreeMap.getElem?_insert_self] at hcontent
      exact (Option.some.inj hcontent).symm
  · rw [if_neg hshape, if_neg hshape]
    unfold ResourceGroups.render
    by_cases hempty : ResourceGroups.isEmpty stored = true
    · rw [if_pos hempty]
      exact ⟨_, rfl, by simp⟩
    · rw [if_neg hempty, h]
      refine ⟨_, rfl, fun content hcontent => Or.inr ?_⟩
      have hne : ResourceGroups.MANAGER_PATH ≠ ResourceGroups.RULES_PATH := by decide
      simp only [Std.ExtTreeMap.getElem?_insert, Std.LawfulEqCmp.compare_eq_iff_eq, hne, if_false,
        if_true] at hcontent
      exact (Option.some.inj hcontent).symm

theorem rereads_groups (h : parseGroups models files settings = .ok parsed) :
    Rereads models settings .resourceGroups parsed := by
  obtain ⟨roots, selectors, written, rules, -, -, -, hrules, hdocument⟩ :=
    (parseGroups_held h).written
  obtain ⟨regenerated, hrender, hlookup⟩ := @renderFiles_rules settings _ _ hrules
  refine ⟨regenerated, hrender, fun content hcontent => ?_⟩
  rcases hlookup content hcontent with rfl | rfl
  · exact foreseen_default _
  · exact foreseen_document hdocument

theorem rereads_permissions (h : parsePermissions files settings = .ok parsed) :
    Rereads models settings .permissions parsed := by
  have hgrants : ∃ grants, parsed.resources = Permissions.storedGrants grants := by
    unfold parsePermissions at h
    split at h
    · cases h
      exact ⟨∅, by simp [Permissions.storedGrants]⟩
    · split at h
      · next grants _ _ _ =>
        cases h
        exact ⟨grants, rfl⟩
      · cases h
  obtain ⟨grants, hgrants⟩ := hgrants
  unfold Rereads
  show ∃ regenerated, Permissions.renderFiles parsed.resources settings _ = .ok regenerated ∧ True
  unfold Permissions.renderFiles
  rw [hgrants, Permissions.readGrants_stored]
  exact ⟨_, rfl, trivial⟩

/-- Whatever a Section reads, it can write, and read again or refuse. -/
theorem rereads {sect : SectionName} (h : sect.parseFiles models files settings = .ok parsed) :
    Rereads models settings sect parsed := by
  cases sect with
  | catalogs => exact ⟨∅, rfl, trivial⟩
  | clientCertificates =>
    cases h
    obtain ⟨regenerated, hrender⟩ :=
      ClientCertificates.render_ok (ClientCertificates.parse_stored files)
    exact ⟨regenerated, hrender, trivial⟩
  | certificateMapping => exact rereads_mapping h
  | eventListeners =>
    rcases (EventListeners.parseFiles_held h).renders settings with hrender | ⟨content, hrender⟩
    · exact ⟨_, hrender, trivial⟩
    · exact ⟨_, hrender, trivial⟩
  | permissions => exact rereads_permissions h
  | resourceGroups => exact rereads_groups h

theorem lossyProblems_ok {sect : SectionName}
    (h : sect.parseFiles models files settings = .ok parsed) (read : Dict) :
    ∃ problems, lossyProblems models settings sect parsed read = .ok problems := by
  obtain ⟨regenerated, hrender, hforeseen⟩ := rereads h
  unfold lossyProblems
  rw [hrender]
  change ∃ problems, (if regenerated.isEmpty then _ else _) = Except.ok problems
  split
  · exact ⟨_, rfl⟩
  · rcases parseFiles_returns_iff.mpr hforeseen with ⟨again, hagain⟩ | ⟨path, reason, hagain⟩
    · rw [hagain]
      dsimp only
      split
      · exact ⟨_, rfl⟩
      · exact ⟨_, rfl⟩
    · rw [hagain]
      exact ⟨_, rfl⟩

end Rereads

/-! ### One Section -/

section OneSection

variable {models : ResourceGroups.Models} {settings : Settings} {sect : SectionName}

/-- What a discovery tells of a Section's files: that one of them cannot be read, or everything that was
read of them. -/
structure Tells (models : ResourceGroups.Models) (settings : Settings) (sect : SectionName)
    (files : Dict) (reading : Reading) : Prop where
  unreadable : ∀ path reason,
    sect.parseFiles models files settings = .error (.parseProblem path reason) →
      ({ kind := .unreadable, sect := some sect, path := some path, detail := reason } : Problem) ∈
        reading.problems
  resources : ∀ parsed, sect.parseFiles models files settings = .ok parsed →
    ∀ (name : String) (value : Json), parsed.resources[name]? = some value →
      reading.resources[name]? = some value
  unaccounted : ∀ parsed, sect.parseFiles models files settings = .ok parsed →
    ∀ entry ∈ parsed.unaccounted,
      ({ kind := .unaccounted, sect := some sect, path := some entry.path, detail := entry.what } :
        Problem) ∈ reading.problems
  admin : ∀ parsed, sect.parseFiles models files settings = .ok parsed → reading.admin = parsed.admin

theorem foreseen_empty : sect.Foreseen models settings ∅ := by
  cases sect with
  | certificateMapping => exact fun content hcontent => by simp at hcontent
  | resourceGroups => exact fun content hcontent => by simp at hcontent
  | catalogs | clientCertificates | eventListeners | permissions => trivial

theorem parseFiles_empty : sect.parseFiles models ∅ settings = .ok {} := by
  have hfiles : (∅ : Dict).toList = [] := rfl
  cases sect with
  | catalogs =>
    show (∅ : Dict).toList.foldlM (Catalogs.takeFile settings) {} = _
    rw [hfiles]
    rfl
  | clientCertificates =>
    show Except.ok (ClientCertificates.parse ∅) = _
    unfold ClientCertificates.parse
    rw [hfiles]
    rfl
  | certificateMapping =>
    simp [SectionName.parseFiles, parseMapping, CertificateMapping.parseFiles]
  | eventListeners => simp [SectionName.parseFiles, EventListeners.parseFiles]
  | permissions => simp [SectionName.parseFiles, parsePermissions]
  | resourceGroups => simp [SectionName.parseFiles, parseGroups, ResourceGroups.parseFiles]

theorem readFiles_ok_iff {found : Found} :
    (∃ result, readFiles models settings sect found = .ok result) ↔
      sect.Foreseen models settings found.files := by
  unfold readFiles
  split
  · next hempty =>
    rw [Std.ExtTreeMap.isEmpty_iff.mp hempty]
    exact iff_of_true ⟨_, rfl⟩ foreseen_empty
  · rw [← parseFiles_returns_iff]
    cases hparse : sect.parseFiles models found.files settings with
    | ok parsed =>
      obtain ⟨problems, hlost⟩ := lossyProblems_ok hparse found.files
      refine iff_of_true ?_ (Or.inl ⟨parsed, rfl⟩)
      dsimp only
      rw [hlost]
      exact ⟨_, rfl⟩
    | error raised =>
      cases raised with
      | parseProblem path reason => exact iff_of_true ⟨_, rfl⟩ (Or.inr ⟨path, reason, rfl⟩)
      | validationError reason =>
        refine iff_of_false nofun ?_
        rintro (⟨parsed, h⟩ | ⟨path, reason, h⟩)
        · cases h
        · cases h

theorem readFiles_tells {found : Found} {parsed : Parsed} {problems : List Problem}
    (h : readFiles models settings sect found = .ok (parsed, problems)) (lookedAt : List String)
    (guessedBecause : Option String) :
    Tells models settings sect found.files
      ⟨⟨parsed.resources, problems⟩, lookedAt, guessedBecause, parsed.admin⟩ := by
  unfold readFiles at h
  split at h
  · next hempty =>
    cases h
    have hnone : sect.parseFiles models found.files settings = .ok {} := by
      rw [Std.ExtTreeMap.isEmpty_iff.mp hempty, parseFiles_empty]
    constructor
    · intro path reason hparse
      rw [hnone] at hparse
      cases hparse
    all_goals
      intro parsed hparse
      rw [hnone] at hparse
      cases hparse
    · intro name value hvalue
      exact hvalue
    · exact nofun
    · rfl
  · cases hparse : sect.parseFiles models found.files settings with
    | error raised =>
      rw [hparse] at h
      cases raised with
      | parseProblem path reason =>
        cases h
        constructor
        · intro path' reason' hraised
          rw [hparse] at hraised
          cases hraised
          exact List.mem_append_right _ List.mem_cons_self
        all_goals
          intro parsed hparsed
          rw [hparse] at hparsed
          cases hparsed
      | validationError reason => cases h
    | ok result =>
      rw [hparse] at h
      obtain ⟨lost, -, h⟩ := ok_of_bind h
      cases h
      constructor
      · intro path reason hraised
        rw [hparse] at hraised
        cases hraised
      all_goals
        intro parsed' hparsed
        rw [hparse] at hparsed
        cases hparsed
      · exact fun name value hvalue => hvalue
      · intro entry hentry
        exact List.mem_append_left _ (List.mem_append_right _ (List.mem_map_of_mem hentry))
      · rfl

/-! ### The Catalogs -/

/-- Every Catalog of the seed Secret can be read. -/
def SeedReadable (kubernetes : Adapter) (settings : Settings) : Prop :=
  ∀ seed, kubernetes.readSecret settings.catalogSecretName = .ok seed →
    ∀ file ∈ (seedFiles settings seed).toList, Catalogs.Readable settings file

theorem seedCatalogs_ok_iff {seed : Dict} :
    (∃ resources, seedCatalogs settings seed = .ok resources) ↔
      ∀ file ∈ (seedFiles settings seed).toList, Catalogs.Readable settings file := by
  unfold seedCatalogs
  by_cases hempty : seed.isEmpty = true
  · have hnone : (seedFiles settings seed).toList = [] := by
      rw [Std.ExtTreeMap.isEmpty_iff.mp hempty]
      rfl
    rw [if_pos hempty, hnone]
    exact iff_of_true ⟨_, rfl⟩ nofun
  · rw [if_neg hempty, ← Catalogs.parseFiles_ok_iff]
    unfold catalogsFromSeed
    cases Catalogs.parseFiles (seedFiles settings seed) settings with
    | error raised => exact iff_of_false nofun nofun
    | ok parsed => exact iff_of_true ⟨_, rfl⟩ ⟨_, rfl⟩

variable {kubernetes : Adapter} {trino : Answer} {found reading : Reading}

theorem reconcile_ok_iff (h : Answers kubernetes) (found : Reading) :
    (∃ reading, reconcile kubernetes settings trino found = .ok reading) ↔
      SeedReadable kubernetes settings := by
  obtain ⟨seed, hseed⟩ := h.secrets settings.catalogSecretName
  have hone : SeedReadable kubernetes settings ↔
      ∀ file ∈ (seedFiles settings seed).toList, Catalogs.Readable settings file := by
    refine ⟨fun h => h seed hseed, fun h other hother => ?_⟩
    rw [hseed] at hother
    cases hother
    exact h
  rw [hone]
  rw [← seedCatalogs_ok_iff]
  unfold reconcile
  rw [hseed]
  change (∃ reading, (seedCatalogs settings seed >>= fun fromSeed => _) = .ok reading) ↔ _
  cases seedCatalogs settings seed with
  | error failure => exact iff_of_false nofun nofun
  | ok resources => exact iff_of_true ⟨_, rfl⟩ ⟨_, rfl⟩

/-- Reconciling adds resources and problems and takes none away. -/
theorem reconcileCatalogs_keeps (found : SectionDiscovery) (seed : Resources) (trino : Answer) :
    (∀ (name : String) (value : Json), found.resources[name]? = some value →
      (reconcileCatalogs found seed trino).resources[name]? = some value) ∧
      ∀ problem ∈ found.problems, problem ∈ (reconcileCatalogs found seed trino).problems := by
  have hkept : ∀ (entries : List (String × Json)) (resources : Resources) (name : String)
      (value : Json), resources[name]? = some value →
      (entries.foldl (fun acc entry => acc.insertIfNew entry.1 entry.2) resources)[name]? =
        some value := by
    intro entries
    induction entries with
    | nil => exact fun _ _ _ h => h
    | cons entry rest ih =>
      intro resources name value hvalue
      refine ih _ name value ?_
      rw [Std.ExtTreeMap.getElem?_insertIfNew]
      split
      · next hnew =>
        have hname := Std.LawfulEqCmp.eq_of_compare hnew.1
        rw [hname] at hnew
        exact absurd (Std.ExtTreeMap.mem_iff_isSome_getElem?.mpr (by rw [hvalue]; rfl)) hnew.2
      · exact hvalue
  unfold reconcileCatalogs
  rw [Std.ExtTreeMap.foldl_eq_foldl_toList]
  cases trino with
  | notAsked => exact ⟨fun name value => hkept _ _ name value, fun _ => List.mem_append_left _⟩
  | failed error => exact ⟨fun name value => hkept _ _ name value, fun _ => List.mem_append_left _⟩
  | loaded live =>
    refine ⟨fun name value => hkept _ _ name value, fun _ hproblem => ?_⟩
    exact List.mem_append_left _ (List.mem_append_left _ (List.mem_append_left _ hproblem))

theorem reconcile_tells {files : Dict} (h : Tells models settings .catalogs files found)
    (hreconcile : reconcile kubernetes settings trino found = .ok reading) :
    Tells models settings .catalogs files reading := by
  obtain ⟨seed, -, hreconcile⟩ := ok_of_bind hreconcile
  obtain ⟨fromSeed, -, hreconcile⟩ := ok_of_bind hreconcile
  cases hreconcile
  obtain ⟨hresources, hproblems⟩ := reconcileCatalogs_keeps found.toSectionDiscovery fromSeed trino
  constructor
  · exact fun path reason hparse => hproblems _ (h.unreadable path reason hparse)
  · exact fun parsed hparse name value hvalue =>
      hresources name value (h.resources parsed hparse name value hvalue)
  · exact fun parsed hparse entry hentry => hproblems _ (h.unaccounted parsed hparse entry hentry)
  · exact h.admin

end OneSection

/-! ### The whole Cluster -/

/-- What a discovery finds for a Section, where it looks for it. -/
def filesOf (kubernetes : Adapter) (settings : Settings) (spec : PodSpec) (sect : SectionName) :
    Except Error Found := do
  let properties ← trinoConfiguration kubernetes spec
  findFiles kubernetes spec properties sect (sect.discoverPaths settings properties)

/-- The files of every Section are foreseen, and every Catalog of the seed Secret can be read. -/
structure ClusterForeseen (models : ResourceGroups.Models) (kubernetes : Adapter)
    (settings : Settings) (spec : PodSpec) : Prop where
  sections : ∀ sect ∈ REGISTERED, ∀ found, filesOf kubernetes settings spec sect = .ok found →
    sect.Foreseen models settings found.files
  seed : SeedReadable kubernetes settings

/-- A discovery has every registered Section, and tells of the files of each. -/
structure TellsEverySection (models : ResourceGroups.Models) (kubernetes : Adapter)
    (settings : Settings) (spec : PodSpec) (report : Report) : Prop where
  sections : report.sections.map Prod.fst = REGISTERED
  tells : ∀ sect ∈ REGISTERED, ∃ found reading, filesOf kubernetes settings spec sect = .ok found ∧
    report.sections.lookup sect = some reading ∧ Tells models settings sect found.files reading

section Cluster

variable {models : ResourceGroups.Models} {settings : Settings} {kubernetes : Adapter}
  {spec : PodSpec} {properties : Dict} {trino : Answer} {sect : SectionName}

theorem filesOf_eq (hproperties : trinoConfiguration kubernetes spec = .ok properties) :
    filesOf kubernetes settings spec sect =
      findFiles kubernetes spec properties sect (sect.discoverPaths settings properties) := by
  unfold filesOf
  rw [hproperties]
  rfl

theorem discoverSection_ok_iff {found : Found}
    (hfound : findFiles kubernetes spec properties sect (sect.discoverPaths settings properties) =
      .ok found) :
    (∃ reading, discoverSection models kubernetes spec settings properties sect = .ok reading) ↔
      sect.Foreseen models settings found.files := by
  rw [← readFiles_ok_iff]
  unfold discoverSection
  dsimp only
  rw [hfound]
  change (∃ reading, (readFiles models settings sect found >>= fun result => _) = .ok reading) ↔ _
  cases readFiles models settings sect found with
  | error failure => exact iff_of_false nofun nofun
  | ok result => exact iff_of_true ⟨_, rfl⟩ ⟨_, rfl⟩

theorem discoverSection_tells {found : Found} {reading : Reading}
    (hfound : findFiles kubernetes spec properties sect (sect.discoverPaths settings properties) =
      .ok found)
    (h : discoverSection models kubernetes spec settings properties sect = .ok reading) :
    Tells models settings sect found.files reading := by
  unfold discoverSection at h
  dsimp only at h
  rw [hfound] at h
  change (readFiles models settings sect found >>= fun result => _) = .ok reading at h
  obtain ⟨⟨parsed, problems⟩, hread, h⟩ := ok_of_bind h
  cases h
  exact readFiles_tells hread _ _

theorem discoverOne_ok_iff (hanswers : Answers kubernetes) {found : Found}
    (hfound : findFiles kubernetes spec properties sect (sect.discoverPaths settings properties) =
      .ok found) :
    (∃ entry, discoverOne models kubernetes spec settings properties trino sect = .ok entry) ↔
      sect.Foreseen models settings found.files ∧
        (sect = .catalogs → SeedReadable kubernetes settings) := by
  rw [← discoverSection_ok_iff hfound]
  unfold discoverOne
  cases discoverSection models kubernetes spec settings properties sect with
  | error failure => exact iff_of_false nofun fun h => nomatch h.1
  | ok reading =>
    rw [ok_bind]
    by_cases hcatalogs : sect = .catalogs
    · rw [if_pos hcatalogs, imp_iff_right hcatalogs, ← @reconcile_ok_iff _ _ trino hanswers reading]
      cases reconcile kubernetes settings trino reading with
      | error failure => exact iff_of_false nofun fun h => nomatch h.2
      | ok reconciled => exact iff_of_true ⟨_, rfl⟩ ⟨⟨_, rfl⟩, _, rfl⟩
    · rw [if_neg hcatalogs]
      exact iff_of_true ⟨_, rfl⟩ ⟨⟨_, rfl⟩, fun h => absurd h hcatalogs⟩

theorem discoverOne_tells {found : Found} {entry : SectionName × Reading}
    (hfound : findFiles kubernetes spec properties sect (sect.discoverPaths settings properties) =
      .ok found)
    (h : discoverOne models kubernetes spec settings properties trino sect = .ok entry) :
    entry.1 = sect ∧ Tells models settings sect found.files entry.2 := by
  unfold discoverOne at h
  obtain ⟨reading, hreading, h⟩ := ok_of_bind h
  have htells := discoverSection_tells hfound hreading
  by_cases hcatalogs : sect = .catalogs
  · subst hcatalogs
    rw [if_pos rfl] at h
    obtain ⟨reconciled, hreconciled, h⟩ := ok_of_bind h
    cases h
    exact ⟨rfl, reconcile_tells htells hreconciled⟩
  · rw [if_neg hcatalogs] at h
    cases h
    exact ⟨rfl, htells⟩

end Cluster

/-- A Cluster that answers every call and has nothing but a seed Secret. -/
def seedOnly (seed : Dict) : Adapter where
  readConfigMap _ := .ok ∅
  readSecret name := .ok (if name = "trino-catalog-seed" then seed else ∅)
  deploymentPodSpec _ := .ok { containers := [], volumes := [] }
  deploymentPodSpecIfPresent _ := .ok none

theorem seedOnly_answers (seed : Dict) : Answers (seedOnly seed) :=
  ⟨fun _ => ⟨_, rfl⟩, fun _ => ⟨_, rfl⟩, fun _ => ⟨_, rfl⟩⟩

/-- A seed that holds a line that is no property. -/
def malformedSeed : Dict := (∅ : Dict).insert "hive.properties" "hive"

/-- A mapping file whose one pattern is empty. -/
def emptyPattern : Json := .obj [("rules", .arr [.obj [("pattern", .str "")]])]

/-- A resource groups file whose quota period is a number. -/
def numberedPeriod : Json := .obj [("cpuQuotaPeriod", .int 5)]

theorem emptyPattern_unforeseen : ¬ CertificateMapping.PatternForeseen "apchi" (Json.dumps emptyPattern) := by
  intro h
  have hloads : Json.loads (Json.dumps emptyPattern) = some emptyPattern :=
    Json.loads_dumps (by simp [emptyPattern, Json.wf_obj, Json.wf_arr])
  obtain ⟨text, htext, hwithin⟩ := (h _ _ _ (0, [("pattern", .str "")])
    (CertificateMapping.documentIn_of_loads _ hloads) rfl rfl (by decide +kernel)).pattern
  cases htext
  exact absurd hwithin (by decide)

theorem numberedPeriod_unforeseen (path : String) :
    ¬ ResourceGroups.SettingsForeseen .plain path (Json.dumps numberedPeriod) := by
  intro h
  have hloads : Json.loads (Json.dumps numberedPeriod) = some numberedPeriod :=
    Json.loads_dumps (by simp [numberedPeriod, Json.wf_obj])
  have hdocument : ResourceGroups.documentIn path (Json.dumps numberedPeriod) =
      .ok [("cpuQuotaPeriod", .int 5)] := ResourceGroups.documentIn_of_loads path hloads
  obtain ⟨settings, hsettings⟩ := h _ [] _ [] _ hdocument rfl rfl rfl rfl
  have hrefused : (ResourceGroups.Models.plain.settings
      (ResourceGroups.known ResourceGroups.settingNames [("cpuQuotaPeriod", .int 5)])).isOk = false := by
    decide +kernel
  rw [hsettings] at hrefused
  cases hrefused

end Apchi.Adoption
