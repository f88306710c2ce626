import Apchi.Pipeline.Patches
import Apchi.Pipeline.Registry

/-!
# What delivering a Section's files leaves

The Secrets of a Section are written first, each once and whole.  The single files that a registered
Section declares are on one volume and of one Secret, so the patches that follow mount those with
content, and then take the others away, with the volume where none is left.
-/

namespace Apchi.Pipeline

open Lib Keyed

/-! ### The Secrets that are written -/

theorem putFile_names (secret key content : String) (filled : List (String × Dict)) :
    (putFile secret key content filled).map Prod.fst = filled.map Prod.fst := by
  induction filled with
  | nil => rfl
  | cons entry rest ih =>
    obtain ⟨name, data⟩ := entry
    unfold putFile
    split
    · rfl
    · rw [List.map_cons, List.map_cons, ih]

theorem claimFile_names (secret key path : String) (filled : List (String × Dict) × Dict) :
    (claimFile secret key path filled).1.map Prod.fst = filled.1.map Prod.fst := by
  unfold claimFile
  split
  · rfl
  · split
    · rfl
    · exact putFile_names ..

theorem claim_names (filled : List (String × Dict) × Dict) (spec : Delivery) :
    (claim filled spec).1.map Prod.fst = filled.1.map Prod.fst := by
  cases spec with
  | file secret volume path => exact claimFile_names ..
  | directory secret path =>
    unfold claim
    dsimp only
    generalize filled.2.keys.filter _ = inside
    induction inside generalizing filled with
    | nil => rfl
    | cons p rest ih => exact (ih _).trans (claimFile_names ..)

/-- One write for each Secret declared. -/
theorem bySecret_names {declared : List Delivery} {contents : Dict}
    {secrets : List (String × Dict)} (h : bySecret declared contents = .ok secrets) :
    secrets.map Prod.fst = secretsOf declared := by
  have hclaims : ∀ (specs : List Delivery) (filled : List (String × Dict) × Dict),
      (specs.foldl claim filled).1.map Prod.fst = filled.1.map Prod.fst := by
    intro specs
    induction specs with
    | nil => exact fun _ => rfl
    | cons spec rest ih => exact fun filled => (ih _).trans (claim_names filled spec)
  unfold bySecret at h
  dsimp only at h
  split at h
  · cases h
    rw [hclaims, List.map_map]
    exact List.map_id' _
  · cases h

theorem bySecret_nodup {declared : List Delivery} {contents : Dict}
    {secrets : List (String × Dict)} (h : bySecret declared contents = .ok secrets) :
    (secrets.map Prod.fst).Nodup := by
  rw [bySecret_names h]
  exact nodup_eraseDups _

theorem mem_secretsOf {declared : List Delivery} {secret : String} :
    secret ∈ secretsOf declared ↔ ∃ spec ∈ declared, spec.secret = secret := by
  unfold secretsOf
  rw [List.mem_eraseDups, List.mem_map]

/-- The Secret key of a file. -/
def fileKey (path : String) : String := (PosixPath.ofString path).name

/-- The path has content to deliver. -/
def hasText (contents : Dict) (path : String) : Bool := contents[path]?.getD "" ≠ ""

theorem hasText_iff {contents : Dict} {path : String} :
    hasText contents path = true ↔ ∃ content, contents[path]? = some content ∧ content ≠ "" := by
  unfold hasText
  cases contents[path]? <;> simp

/-- One file is taken, and is under its key if it has content. -/
theorem claim_file (secret path : String) (data contents : Dict) : ∃ data' contents',
    claimFile secret (fileKey path) path ([(secret, data)], contents) =
      ([(secret, data')], contents') ∧
    (∀ other, contents'[other]? = if other = path then none else contents[other]?) ∧
    ∀ key, data'[key]? = if hasText contents path = true ∧ fileKey path = key then contents[path]?
      else data[key]? := by
  have herase (other : String) : (contents.erase path)[other]? =
      if other = path then none else contents[other]? := by
    rw [Std.ExtTreeMap.getElem?_erase]
    simp only [Std.LawfulEqCmp.compare_eq_iff_eq, @eq_comm _ path]
  unfold claimFile hasText
  dsimp only
  cases hpath : contents[path]? with
  | none =>
    refine ⟨data, contents, rfl, fun other => ?_, fun key => by simp⟩
    by_cases hother : other = path
    · rw [if_pos hother, hother, hpath]
    · rw [if_neg hother]
  | some content =>
    by_cases hempty : content = ""
    · exact ⟨data, contents.erase path, by simp [hempty], herase, fun key => by simp [hempty]⟩
    · refine ⟨data.insert (fileKey path) content, contents.erase path, by simp [hempty, putFile],
        herase, fun key => ?_⟩
      simp [hempty, Std.ExtTreeMap.getElem?_insert]

/-- What files with content fill of one Secret: each is under its key, and the rendered files are
taken. -/
theorem claim_files {secret : String} {paths : List String} (hkeys : (paths.map fileKey).Nodup)
    (data contents : Dict) : ∃ data' contents',
      paths.foldl (fun filled path => claimFile secret (fileKey path) path filled)
        ([(secret, data)], contents) = ([(secret, data')], contents') ∧
      (∀ path, contents'[path]? = if path ∈ paths then none else contents[path]?) ∧
      ∀ key content, data'[key]? = some content ↔
        (∃ path ∈ paths, fileKey path = key ∧ contents[path]? = some content ∧ content ≠ "") ∨
          ((∀ path ∈ paths, hasText contents path = true → fileKey path ≠ key) ∧
            data[key]? = some content) := by
  induction paths generalizing data contents with
  | nil => exact ⟨data, contents, rfl, by simp, by simp⟩
  | cons path rest ih =>
    rw [List.map_cons, List.nodup_cons] at hkeys
    obtain ⟨hfirst, hrest⟩ := hkeys
    obtain ⟨data₁, contents₁, hclaim, hcontents₁, hdata₁⟩ := claim_file secret path data contents
    obtain ⟨data', contents', hfold, hcontents, hdata⟩ := ih hrest data₁ contents₁
    have hother {p : String} (hp : p ∈ rest) : p ≠ path := fun heq =>
      hfirst (heq ▸ List.mem_map_of_mem hp)
    have hkept {p : String} (hp : p ∈ rest) : contents₁[p]? = contents[p]? := by
      rw [hcontents₁, if_neg (hother hp)]
    have htext {p : String} (hp : p ∈ rest) : hasText contents₁ p = hasText contents p := by
      unfold hasText
      rw [hkept hp]
    refine ⟨data', contents', ?_, fun p => ?_, fun key content => ?_⟩
    · rw [List.foldl_cons, hclaim, hfold]
    · rw [hcontents, hcontents₁]
      by_cases hrest : p ∈ rest
      · rw [if_pos hrest, if_pos (List.mem_cons_of_mem _ hrest)]
      · by_cases hpath : p = path
        · rw [if_neg hrest, if_pos hpath, if_pos (hpath ▸ List.mem_cons_self)]
        · rw [if_neg hrest, if_neg hpath, if_neg (by simp [hpath, hrest])]
    · rw [hdata, hdata₁]
      have hrest' : (∃ p ∈ rest, fileKey p = key ∧ contents₁[p]? = some content ∧ content ≠ "") ↔
          ∃ p ∈ rest, fileKey p = key ∧ contents[p]? = some content ∧ content ≠ "" :=
        exists_congr fun p => and_congr_right fun hp => by rw [hkept hp]
      have hnone : (∀ p ∈ rest, hasText contents₁ p = true → fileKey p ≠ key) ↔
          ∀ p ∈ rest, hasText contents p = true → fileKey p ≠ key :=
        forall₂_congr fun p hp => by rw [htext hp]
      have hmine : fileKey path = key → ∀ p ∈ rest, fileKey p ≠ key := fun heq p hp hp' =>
        hfirst (List.mem_map.mpr ⟨p, hp, hp'.trans heq.symm⟩)
      rw [hrest', hnone, List.forall_mem_cons]
      simp only [List.mem_cons, exists_eq_or_imp]
      by_cases hkey : fileKey path = key
      · have hnever : ¬ ∃ p ∈ rest, fileKey p = key ∧ contents[p]? = some content ∧ content ≠ "" :=
          fun ⟨p, hp, hpkey, _⟩ => hmine hkey p hp hpkey
        by_cases htext : hasText contents path = true
        · obtain ⟨c, hc, hne⟩ := hasText_iff.mp htext
          simp only [hkey, htext, hnever, hc, true_and, if_true, ne_eq, not_true_eq_false,
            false_and, or_false, Option.some.injEq, forall_const, false_or]
          exact ⟨fun h => ⟨h.2, h.2 ▸ hne⟩, fun h => ⟨fun p hp _ => hmine hkey p hp, h.1⟩⟩
        · have hnot : ¬ (contents[path]? = some content ∧ content ≠ "") := fun h =>
            htext (hasText_iff.mpr ⟨content, h⟩)
          simp only [hkey, htext, hnever, hnot, true_and, false_and, false_or, if_false,
            IsEmpty.forall_iff, Bool.false_eq_true]
      · simp only [hkey, false_and, false_or, and_false, if_false, ne_eq, not_false_eq_true,
          implies_true, true_and]

/-- What a Secret is filled with from these paths: each file with content under its key. -/
def Fills (data contents : Dict) (paths : List String) : Prop :=
  ∀ key content, data[key]? = some content ↔
    ∃ path ∈ paths, fileKey path = key ∧ contents[path]? = some content ∧ content ≠ ""

/-- A declaration of one Secret, that takes these paths of what is rendered. -/
theorem bySecret_one {declared : List Delivery} {secret : String} {contents : Dict}
    {taken : List String} (hsecrets : secretsOf declared = [secret])
    (hkeys : (taken.map fileKey).Nodup)
    (htaken : declared.foldl claim ([(secret, ∅)], contents) =
      taken.foldl (fun filled path => claimFile secret (fileKey path) path filled)
        ([(secret, ∅)], contents)) :
    ∃ data, Fills data contents taken ∧ ∀ secrets, bySecret declared contents = .ok secrets ↔
      secrets = [(secret, data)] ∧ ∀ path ∈ contents, path ∈ taken := by
  obtain ⟨data, left, hfold, hleft, hdata⟩ := claim_files hkeys ∅ contents
  refine ⟨data, fun key content => ?_, fun secrets => ?_⟩
  · rw [hdata]
    simp
  · have hempty : left.isEmpty = true ↔ ∀ path ∈ contents, path ∈ taken := by
      rw [Std.ExtTreeMap.isEmpty_iff]
      constructor
      · intro hnone path hpath
        by_contra hnot
        have hheld := hleft path
        rw [hnone, if_neg hnot, Std.ExtTreeMap.getElem?_empty] at hheld
        rw [Std.ExtTreeMap.mem_iff_isSome_getElem?, ← hheld] at hpath
        cases hpath
      · intro hall
        refine Std.ExtTreeMap.ext_getElem? fun path => ?_
        rw [hleft, Std.ExtTreeMap.getElem?_empty]
        split
        · rfl
        · next hnot => exact Std.ExtTreeMap.getElem?_eq_none fun hpath => hnot (hall path hpath)
    unfold bySecret
    dsimp only
    rw [hsecrets, List.map_cons, List.map_nil, htaken, hfold, ← hempty]
    dsimp only
    split
    · next h => simp [h, eq_comm]
    · next h => simp [h]

theorem secretsOf_files {secret volume : String} {paths : List String} (h : paths ≠ []) :
    secretsOf (paths.map (Delivery.file secret volume)) = [secret] := by
  obtain ⟨n, hn⟩ := Nat.exists_eq_succ_of_ne_zero (List.length_eq_zero_iff.not.mpr h)
  have hall : (paths.map (Delivery.file secret volume)).map Delivery.secret =
      List.replicate paths.length secret := by
    rw [List.map_map]
    exact List.map_const' ..
  unfold secretsOf
  rw [hall, hn, eraseDups_replicate]

/-- What single files fill of their Secret. -/
theorem bySecret_files {secret volume : String} {paths : List String} (contents : Dict)
    (hpaths : paths ≠ []) (hkeys : (paths.map fileKey).Nodup) :
    ∃ data, Fills data contents paths ∧ ∀ secrets,
      bySecret (paths.map (Delivery.file secret volume)) contents = .ok secrets ↔
        secrets = [(secret, data)] ∧ ∀ path ∈ contents, path ∈ paths :=
  bySecret_one (secretsOf_files hpaths) hkeys List.foldl_map

/-- The rendered paths directly inside a directory. -/
def inside (contents : Dict) (directory : String) : List String :=
  contents.keys.filter fun path =>
    (PosixPath.ofString path).parent = PosixPath.ofString directory

/-- What a directory's files fill of its Secret. -/
theorem bySecret_directory {secret directory : String} (contents : Dict)
    (hkeys : ((inside contents directory).map fileKey).Nodup) :
    ∃ data, Fills data contents (inside contents directory) ∧ ∀ secrets,
      bySecret [.directory secret directory] contents = .ok secrets ↔
        secrets = [(secret, data)] ∧ ∀ path ∈ contents, path ∈ inside contents directory :=
  bySecret_one (by simp [secretsOf, Delivery.secret, List.eraseDups_cons]) hkeys rfl

variable {platform : Platform}

/-- Secrets that are written hold what they were written with. -/
theorem run_writes {secrets : List (String × Dict)} (h : (secrets.map Prod.fst).Nodup)
    (s : ClusterState) : ∃ s', (Prog.each secrets fun secret =>
        Prog.perform (.writeSecret secret.1 secret.2)).run (clusterMachine platform) s = (.ok (), s') ∧
      s'.template = s.template ∧
      (∀ secret ∈ secrets, s'.secrets[secret.1]? = some secret.2) ∧
      ∀ name, name ∉ secrets.map Prod.fst → s'.secrets[name]? = s.secrets[name]? := by
  induction secrets generalizing s with
  | nil => exact ⟨s, rfl, rfl, nofun, fun _ _ => rfl⟩
  | cons secret rest ih =>
    obtain ⟨hfirst, hrest⟩ := List.nodup_cons.mp h
    obtain ⟨s', hrun, htemplate, hwritten, hothers⟩ := ih hrest (s.writeSecret secret.1 secret.2)
    have hinsert (name : String) : (s.writeSecret secret.1 secret.2).secrets[name]? =
        if secret.1 = name then some secret.2 else s.secrets[name]? := by
      simp [ClusterState.writeSecret, Std.ExtTreeMap.getElem?_insert]
    refine ⟨s', hrun, htemplate, ?_, ?_⟩
    · intro other hother
      rcases List.mem_cons.mp hother with rfl | hother
      · rw [hothers _ hfirst, hinsert, if_pos rfl]
      · exact hwritten other hother
    · intro name hname
      rw [List.map_cons, List.mem_cons, not_or] at hname
      rw [hothers name hname.2, hinsert, if_neg (Ne.symm hname.1)]

/-! ### A delivery -/

/-- Every call of a Section's mounts is a patch. -/
theorem sectionMounts_patches (settings : Settings) (declared : List Delivery) (contents : Dict)
    (volumes : List String) :
    ∀ c ∈ volumes.flatMap (mountVolume settings declared contents), c.patches = true := by
  intro c hc
  obtain ⟨volume, -, hc⟩ := List.mem_flatMap.mp hc
  rcases List.mem_append.mp hc with hc | hc
  · obtain ⟨spec, -, rfl⟩ := List.mem_map.mp hc
    rfl
  · split at hc
    · cases hc
    · rw [List.mem_singleton.mp hc]
      rfl

/-- A delivery that renders writes its Secrets and makes its patches. -/
theorem run_deliver {sect : Section} {cluster : Cluster} {resources : Resources} {contents : Dict}
    {secrets : List (String × Dict)}
    (hrender : sect.renderFiles resources cluster.settings cluster.admin = .ok contents)
    (hsecrets : bySecret (sect.coordinatorFiles cluster.settings) contents = .ok secrets)
    (hdeclared : sect.coordinatorFiles cluster.settings ≠ []) (s : ClusterState) :
    ∃ s', (deliver sect cluster resources).run (clusterMachine platform) s =
        ((s.template.after (sectionMounts sect cluster resources)).1, s') ∧
      s'.template = (s.template.after (sectionMounts sect cluster resources)).2 ∧
      (∀ secret ∈ secrets, s'.secrets[secret.1]? = some secret.2) ∧
      ∀ name, name ∉ secrets.map Prod.fst → s'.secrets[name]? = s.secrets[name]? := by
  obtain ⟨s₁, hwrites, htemplate, hwritten, hothers⟩ :=
    @run_writes platform secrets (bySecret_nodup hsecrets) s
  have hmounts : sectionMounts sect cluster resources =
      (volumesOf (sect.coordinatorFiles cluster.settings)).flatMap
        (mountVolume cluster.settings (sect.coordinatorFiles cluster.settings) contents) := by
    unfold sectionMounts
    rw [hrender]
  rw [hmounts]
  obtain ⟨s', hpatches, htemplate', hsame⟩ := @run_patches platform _
    (sectionMounts_patches cluster.settings (sect.coordinatorFiles cluster.settings) contents
      (volumesOf (sect.coordinatorFiles cluster.settings))) s₁
  rw [htemplate] at hpatches htemplate'
  refine ⟨s', ?_, htemplate', fun secret hsecret => ?_, fun name hname => ?_⟩
  · rw [deliver_eq, if_neg (by simpa using hdeclared), hrender, Prog.run_bind, Prog.run_ofExcept]
    dsimp only
    rw [hsecrets, Prog.run_bind, Prog.run_ofExcept]
    dsimp only
    rw [Prog.run_bind, hwrites]
    exact hpatches
  · rw [hsame, hwritten secret hsecret]
  · rw [hsame, hothers name hname]

/-! ### What a registered Section declares -/

/-- The Section declares the files that the registry has for its name. -/
def Section.Registered (sect : Section) : Prop :=
  ∀ settings, sect.coordinatorFiles settings = sect.name.coordinatorFiles settings

/-- A registered Section declares single files of one Secret and on one volume, or one directory, or
nothing. -/
theorem Section.Registered.cases {sect : Section} (h : sect.Registered) (settings : Settings) :
    (∃ secret volume paths, (volume = settings.eventListenerVolumeName ∨
        volume = settings.resourceGroupsVolumeName) ∧ (paths.map fileKey).Nodup ∧ paths ≠ [] ∧
      sect.coordinatorFiles settings = paths.map (Delivery.file secret volume)) ∨
    (∃ secret path, sect.coordinatorFiles settings = [.directory secret path]) ∨
    sect.coordinatorFiles settings = [] := by
  rw [h settings]
  cases sect.name with
  | catalogs => exact Or.inr (Or.inr rfl)
  | clientCertificates => exact Or.inr (Or.inl ⟨_, _, rfl⟩)
  | certificateMapping => exact Or.inr (Or.inl ⟨_, _, rfl⟩)
  | permissions => exact Or.inr (Or.inl ⟨_, _, rfl⟩)
  | resourceGroups =>
    simp only [SectionName.coordinatorFiles, ResourceGroups.coordinatorFiles]
    split
    · exact Or.inr (Or.inl ⟨_, _, rfl⟩)
    · exact Or.inl ⟨_, _, _, Or.inr rfl, by decide +kernel, by simp, rfl⟩
  | eventListeners =>
    simp only [SectionName.coordinatorFiles, EventListeners.coordinatorFiles]
    split
    · exact Or.inr (Or.inl ⟨_, _, rfl⟩)
    · exact Or.inl ⟨_, _, [EventListeners.MOUNT_PATH], Or.inl rfl, by simp, by simp, rfl⟩

/-- The patches for the single files of one Secret on one volume. -/
def fileMounts (container volume secret : String) (contents : Dict) (paths : List String) :
    List (ClusterCall Unit) :=
  (paths.filter (hasText contents)).map (fun path =>
      .mountSecretFile container volume secret path (fileKey path))
    ++ if (paths.filter fun path => !hasText contents path).isEmpty then []
      else [.unmountSecretFiles container volume (paths.filter fun path => !hasText contents path)
        (paths.filter (hasText contents)).isEmpty]

theorem volumesOf_files {secret volume : String} {paths : List String} (h : paths ≠ []) :
    volumesOf (paths.map (Delivery.file secret volume)) = [volume] := by
  have hall : volumesOf (paths.map (Delivery.file secret volume)) =
      (List.replicate paths.length volume).eraseDups := by
    unfold volumesOf
    congr 1
    induction paths with
    | nil => rfl
    | cons path rest ih =>
      rw [List.length_cons, List.replicate_succ, List.map_cons]
      cases rest with
      | nil => rfl
      | cons next rest => exact congrArg (volume :: ·) (ih (List.cons_ne_nil _ _))
  obtain ⟨n, hn⟩ := Nat.exists_eq_succ_of_ne_zero (List.length_eq_zero_iff.not.mpr h)
  rw [hall, hn, eraseDups_replicate]

theorem filesOn_files {secret volume : String} {paths : List String} :
    filesOn volume (paths.map (Delivery.file secret volume)) =
      paths.map (Delivery.file secret volume) := by
  refine List.filter_eq_self.mpr fun spec hspec => ?_
  obtain ⟨path, -, rfl⟩ := List.mem_map.mp hspec
  exact decide_eq_true rfl

theorem mountVolume_files (settings : Settings) {secret volume : String} (contents : Dict)
    (paths : List String) :
    mountVolume settings (paths.map (Delivery.file secret volume)) contents volume =
      fileMounts settings.trinoContainerName volume secret contents paths := by
  have hpresent : hasContent contents ∘ Delivery.file secret volume = hasText contents := rfl
  have habsent : (fun spec => !hasContent contents spec) ∘ Delivery.file secret volume =
      fun path => !hasText contents path := rfl
  unfold mountVolume fileMounts
  simp only [filesOn_files, List.filter_map, hpresent, habsent, List.map_map, List.isEmpty_map]
  have hpath : Delivery.path ∘ Delivery.file secret volume = id := rfl
  rw [hpath, List.map_id]
  rfl

theorem mem_files {secret volume secret' volume' path : String} {paths : List String} :
    Delivery.file secret' volume' path ∈ paths.map (Delivery.file secret volume) ↔
      secret' = secret ∧ volume' = volume ∧ path ∈ paths := by
  rw [List.mem_map]
  constructor
  · rintro ⟨other, hother, heq⟩
    cases heq
    exact ⟨rfl, rfl, hother⟩
  · rintro ⟨rfl, rfl, hpath⟩
    exact ⟨path, hpath, rfl⟩

/-- The patches of a registered Section that declares single files. -/
theorem sectionMounts_files {sect : Section} {cluster : Cluster} {resources : Resources}
    {contents : Dict} {secret volume : String} {paths : List String} (hpaths : paths ≠ [])
    (hrender : sect.renderFiles resources cluster.settings cluster.admin = .ok contents)
    (hdeclared : sect.coordinatorFiles cluster.settings = paths.map (Delivery.file secret volume)) :
    sectionMounts sect cluster resources =
      fileMounts cluster.settings.trinoContainerName volume secret contents paths := by
  unfold sectionMounts
  rw [hrender, hdeclared]
  dsimp only
  rw [volumesOf_files hpaths, List.flatMap_cons, List.flatMap_nil, List.append_nil,
    mountVolume_files]

/-- A Section that declares one directory makes no patches. -/
theorem sectionMounts_directory {sect : Section} {cluster : Cluster} {resources : Resources}
    {secret path : String}
    (hdeclared : sect.coordinatorFiles cluster.settings = [.directory secret path]) :
    sectionMounts sect cluster resources = [] := by
  unfold sectionMounts
  rw [hdeclared]
  split <;> rfl

theorem sectionMounts_nil {sect : Section} {cluster : Cluster} {resources : Resources}
    (hdeclared : sect.coordinatorFiles cluster.settings = []) :
    sectionMounts sect cluster resources = [] := by
  unfold sectionMounts
  rw [hdeclared]
  split <;> rfl

/-! ### What the patches make of the template -/

section template

variable {template : PodTemplate} {container volume secret path key : String}
  {paths : List String} {contents : Dict}

theorem mountsIn_patch {f : List VolumeMount → List VolumeMount} {patched : PodTemplate}
    (h : template.has container = true) (hpatched : patched.containers =
      modifyFirst (isNamed container) (Container.patch f) template.containers) :
    patched.mountsIn container = f (template.mountsIn container) := by
  unfold PodTemplate.mountsIn
  rw [hpatched, find?_modifyFirst (isNamed_patch container f)]
  cases hfind : template.containers.find? (isNamed container) with
  | none =>
    obtain ⟨c, hc, hnamed⟩ := List.any_eq_true.mp h
    exact absurd hnamed (List.find?_eq_none.mp hfind c hc)
  | some c => rfl

theorem mountsIn_unmounted (h : template.has container = true) :
    (template.unmounted container paths).mountsIn container =
      (template.mountsIn container).filter fun m => !paths.contains m.mountPath :=
  mountsIn_patch h rfl

/-- The mount of one path in a container. -/
def PodTemplate.mountAt (template : PodTemplate) (container path : String) : Option VolumeMount :=
  (template.mountsIn container).find? fun m => m.mountPath = path

theorem mountAt_mounted (h : template.has container = true) (other : String) :
    (template.mounted container volume secret path key).mountAt container other =
      if other = path then some (fileMount volume path key) else template.mountAt container other := by
  have hmounts : (template.mounted container volume secret path key).mountsIn container =
      upsert VolumeMount.mountPath (fileMount volume path key) (template.mountsIn container) :=
    mountsIn_patch h rfl
  unfold PodTemplate.mountAt
  rw [hmounts]
  split
  · next heq =>
    subst heq
    exact @find?_upsert_self _ _ _ VolumeMount.mountPath (fileMount volume other key) _
  · next hne => exact find?_upsert_of_ne hne

theorem mountAt_mountedAll (h : template.has container = true) (other : String) :
    (template.mountedAll container volume secret fileKey paths).mountAt container other =
      if other ∈ paths then some (fileMount volume other (fileKey other))
      else template.mountAt container other := by
  induction paths generalizing template with
  | nil => rw [if_neg List.not_mem_nil]; rfl
  | cons path rest ih =>
    show (PodTemplate.mountedAll (template.mounted container volume secret path (fileKey path))
      container volume secret fileKey rest).mountAt container other = _
    rw [ih (has_mounted.trans h), mountAt_mounted h]
    by_cases hrest : other ∈ rest
    · rw [if_pos hrest, if_pos (List.mem_cons_of_mem _ hrest)]
    · rw [if_neg hrest]
      by_cases hpath : other = path
      · rw [if_pos hpath, hpath, if_pos List.mem_cons_self]
      · rw [if_neg hpath, if_neg (by simp [hpath, hrest])]

theorem mountAt_unmounted (h : template.has container = true) (other : String) :
    (template.unmounted container paths).mountAt container other =
      if other ∈ paths then none else template.mountAt container other := by
  unfold PodTemplate.mountAt
  rw [mountsIn_unmounted h]
  induction template.mountsIn container with
  | nil => simp
  | cons m rest ih =>
    by_cases hgone : m.mountPath ∈ paths
    · rw [List.filter_cons_of_neg (by simp [hgone]), ih]
      by_cases hother : m.mountPath = other
      · rw [if_pos (hother ▸ hgone), if_pos (hother ▸ hgone)]
      · rw [List.find?_cons_of_neg (by simpa using hother)]
    · rw [List.filter_cons_of_pos (by simp [hgone])]
      by_cases hother : m.mountPath = other
      · rw [List.find?_cons_of_pos (by simpa using hother),
          List.find?_cons_of_pos (by simpa using hother), if_neg (hother ▸ hgone)]
      · rw [List.find?_cons_of_neg (by simpa using hother),
          List.find?_cons_of_neg (by simpa using hother), ih]

theorem secretVolume_mounted :
    (template.mounted container volume secret path key).secretVolume volume secret =
      template.secretVolume volume secret := by
  unfold PodTemplate.secretVolume PodTemplate.modeOf
  rw [volumeNamed_mounted]
  have hmode : (template.mounted container volume secret path key).fileMode = template.fileMode := rfl
  rw [hmode]
  unfold PodTemplate.secretVolume
  cases template.fileMode <;> rfl

theorem volumeNamed_mountedAll (h : paths ≠ []) {keyOf : String → String} :
    (template.mountedAll container volume secret keyOf paths).volumeNamed volume =
      some (template.secretVolume volume secret) := by
  induction paths generalizing template with
  | nil => exact absurd rfl h
  | cons path rest ih =>
    cases rest with
    | nil => exact volumeNamed_mounted
    | cons next rest =>
      exact (ih (List.cons_ne_nil _ _)).trans (congrArg some secretVolume_mounted)

/-- The patches for single files are refused: there is no such container, or a volume of another kind
has the name, or the volume would be dropped and is still mounted. -/
def Refuses (template : PodTemplate) (container volume : String) (contents : Dict)
    (paths : List String) : Prop :=
  template.has container = false ∨
    (paths.filter (hasText contents) ≠ [] ∧ template.occupied volume = true) ∨
    (paths.filter (hasText contents) = [] ∧
      (template.unmounted container paths).mounts volume = true)

/-- The template after the patches for single files that go through. -/
def PodTemplate.withFiles (template : PodTemplate) (container volume secret : String)
    (contents : Dict) (paths : List String) : PodTemplate :=
  if paths.filter (hasText contents) = [] then (template.unmounted container paths).dropped volume
  else (template.mountedAll container volume secret fileKey
      (paths.filter (hasText contents))).unmounted container
    (paths.filter fun path => !hasText contents path)

theorem unmounted_nil : template.unmounted container [] = template := by
  have hsame : modifyFirst (isNamed container)
      (Container.patch (List.filter fun m => !([] : List String).contains m.mountPath))
      template.containers = template.containers :=
    modifyFirst_eq_self_iff.mpr fun c _ => Container.patch_eq_self.mpr (by simp)
  unfold PodTemplate.unmounted
  rw [hsame]

theorem absent_of_none (h : paths.filter (hasText contents) = []) :
    (paths.filter fun path => !hasText contents path) = paths := by
  rw [List.filter_eq_nil_iff] at h
  exact List.filter_eq_self.mpr fun path hpath => by simpa using h path hpath

/-- The patches for single files are refused at the first. -/
theorem after_refused (hpaths : paths ≠ []) (h : Refuses template container volume contents paths) :
    ∃ e, template.after (fileMounts container volume secret contents paths) =
      (.error e, template) := by
  unfold fileMounts
  cases hpresent : paths.filter (hasText contents) with
  | cons path rest =>
    refine after_mount_refused fun hfree => ?_
    rcases h with h | ⟨-, h⟩ | ⟨h, -⟩
    · exact h
    · rw [hfree] at h
      cases h
    · rw [hpresent] at h
      cases h
  | nil =>
    rw [absent_of_none hpresent, if_neg (by simpa using hpaths)]
    cases hpatch : ClusterCall.patch (.unmountSecretFiles container volume paths true) template with
    | error e => exact ⟨e, by simp only [List.map_nil, List.nil_append, List.isEmpty_nil,
        PodTemplate.after, hpatch]⟩
    | ok patched =>
      obtain ⟨hhas, ⟨hkept, -⟩ | ⟨-, hmounts, -⟩⟩ := unmountSecretFiles_eq_ok.mp hpatch
      · cases hkept
      · rcases h with h | ⟨h, -⟩ | ⟨-, h⟩
        · rw [hhas] at h
          cases h
        · exact absurd hpresent h
        · rw [hmounts] at h
          cases h

/-- The patches for single files go through. -/
theorem after_accepted (hpaths : paths ≠ [])
    (h : ¬ Refuses template container volume contents paths) :
    template.after (fileMounts container volume secret contents paths) =
      (.ok (), template.withFiles container volume secret contents paths) := by
  simp only [Refuses, not_or, not_and, Bool.not_eq_false, Bool.not_eq_true] at h
  obtain ⟨hhas, hfree, hmounts⟩ := h
  unfold fileMounts PodTemplate.withFiles
  by_cases hpresent : paths.filter (hasText contents) = []
  · rw [absent_of_none hpresent, if_neg (by simpa using hpaths), if_pos hpresent, hpresent]
    have hpatch : ClusterCall.patch (.unmountSecretFiles container volume paths true) template =
        .ok _ := unmountSecretFiles_eq_ok.mpr ⟨hhas, Or.inr ⟨rfl, hmounts hpresent, rfl⟩⟩
    simp only [List.map_nil, List.nil_append, List.isEmpty_nil, PodTemplate.after, hpatch]
  · rw [after_mounts _ hhas (hfree hpresent), if_neg hpresent, List.isEmpty_eq_false_iff.mpr hpresent]
    split
    · next habsent =>
      rw [List.isEmpty_iff.mp habsent, unmounted_nil]
      rfl
    · exact after_unmount (has_mountedAll.trans hhas)

end template

end Apchi.Pipeline
