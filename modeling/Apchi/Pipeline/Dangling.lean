import Apchi.EventListeners.Section
import Apchi.Lib.Stop
import Apchi.Pipeline.Delivered
import Apchi.Pipeline.RawFiles

/-!
# Mounts of keys that are not there

Kubernetes turns a `subPath` mount of an absent key into a directory, which Trino dies reading.  A
delivery writes its Secret before it touches a mount, so a file that comes is there before it is
mounted, and a file that goes is gone while it is still mounted.  What a delivery needs, to leave no
such mount at any moment, is that it takes no mounted key away, neither with the write nor by putting
another Secret under a volume.
-/

namespace Apchi.Pipeline

open Lib Prog Keyed

/-- Everything that is mounted, in whichever container. -/
def PodTemplate.everyMount (template : PodTemplate) : List VolumeMount :=
  (template.initContainers ++ template.containers).flatMap Container.volumeMounts

/-- The Secret a volume is made of. -/
def PodTemplate.secretOf (template : PodTemplate) (volume : String) : Option String :=
  (template.volumeNamed volume).bind fun v => match v.source with
    | .secret secret _ => some secret
    | .other _ => none

/-- The key a mount is of, if it is a mount of one. -/
def VolumeMount.key (m : VolumeMount) : Option String :=
  m.subPath.filter (· ≠ "")

/-- The volumes Apchi mounts its files on. -/
def apchiVolumes (settings : Settings) : List String :=
  [settings.eventListenerVolumeName, settings.resourceGroupsVolumeName, settings.rawFilesVolumeName]

/-- Every key that is mounted on one of these volumes is in the volume's Secret. -/
def NoDangling (volumes : List String) (s : ClusterState) : Prop :=
  ∀ m ∈ s.template.everyMount, m.name ∈ volumes → ∀ key, m.key = some key →
    ∃ secret, s.template.secretOf m.name = some secret ∧ key ∈ s.secret secret

/-- The keys mounted on this volume are among these. -/
def KeysOn (template : PodTemplate) (volume : String) (data : Dict) : Prop :=
  ∀ m ∈ template.everyMount, m.name = volume → ∀ key, m.key = some key → key ∈ data

/-- The keys mounted from this Secret, on one of these volumes, are among these. -/
def KeysFrom (template : PodTemplate) (volumes : List String) (secret : String) (data : Dict) :
    Prop :=
  ∀ m ∈ template.everyMount, m.name ∈ volumes → template.secretOf m.name = some secret →
    ∀ key, m.key = some key → key ∈ data

/-! ### Writing a Secret -/

section write

variable {volumes : List String} {s : ClusterState} {secret : String} {data : Dict}

/-- After a write nothing dangles exactly where no mounted key is taken away. -/
theorem noDangling_writeSecret (h : NoDangling volumes s) :
    NoDangling volumes (s.writeSecret secret data) ↔
      KeysFrom s.template volumes secret data := by
  constructor
  · intro hwritten m hm hvolume hsecret key hkey
    obtain ⟨held, hheld, hmem⟩ := hwritten m hm hvolume key hkey
    rw [writeSecret_template, hsecret] at hheld
    cases hheld
    rwa [writeSecret_secret] at hmem
  · intro hkeys m hm hvolume key hkey
    rw [writeSecret_template] at hm ⊢
    obtain ⟨held, hheld, hmem⟩ := h m hm hvolume key hkey
    refine ⟨held, hheld, ?_⟩
    by_cases hsame : held = secret
    · subst hsame
      rw [writeSecret_secret]
      exact hkeys m hm hvolume hheld key hkey
    · rwa [writeSecret_secret_of_ne s data hsame]

end write

/-! ### Mounts that come and go -/

section template

variable {template : PodTemplate} {container volume secret path key : String} {paths : List String}

theorem mem_everyMount {m : VolumeMount} : m ∈ template.everyMount ↔
    ∃ c ∈ template.initContainers ++ template.containers, m ∈ c.volumeMounts := List.mem_flatMap

theorem everyMount_unmounted {m : VolumeMount}
    (h : m ∈ (template.unmounted container paths).everyMount) : m ∈ template.everyMount := by
  obtain ⟨c, hc, hm⟩ := mem_everyMount.mp h
  rcases List.mem_append.mp hc with hc | hc
  · exact mem_everyMount.mpr ⟨c, List.mem_append_left _ hc, hm⟩
  · rcases mem_modifyFirst hc with hc | ⟨b, hb, rfl⟩
    · exact mem_everyMount.mpr ⟨c, List.mem_append_right _ hc, hm⟩
    · exact mem_everyMount.mpr ⟨b, List.mem_append_right _ (List.mem_of_find?_eq_some hb),
        (List.mem_filter.mp hm).1⟩

/-- What a mount does not take the place of is still mounted. -/
theorem everyMount_mounted_of_unmounted {m : VolumeMount}
    (h : m ∈ (template.unmounted container [path]).everyMount) :
    m ∈ (template.mounted container volume secret path key).everyMount := by
  obtain ⟨c, hc, hm⟩ := mem_everyMount.mp h
  rcases List.mem_append.mp hc with hc | hc
  · exact mem_everyMount.mpr ⟨c, List.mem_append_left _ hc, hm⟩
  · rcases mem_modifyFirst_other (Container.patch (upsert VolumeMount.mountPath
      (fileMount volume path key))) hc with hc | ⟨b, hb, rfl⟩
    · exact mem_everyMount.mpr ⟨c, List.mem_append_right _ hc, hm⟩
    · obtain ⟨hm, helsewhere⟩ := List.mem_filter.mp hm
      refine mem_everyMount.mpr ⟨_, List.mem_append_right _ (mem_modifyFirst_find hb),
        mem_upsert_of_ne hm fun hpath => ?_⟩
      rw [show m.mountPath = path from hpath] at helsewhere
      simp at helsewhere

/-- What is mounted after a mount is the new one, or was mounted and is not at its place. -/
theorem everyMount_mounted {m : VolumeMount} (h : template.Distinct)
    (hm : m ∈ (template.mounted container volume secret path key).everyMount) :
    m = fileMount volume path key ∨ m ∈ (template.unmounted container [path]).everyMount := by
  obtain ⟨c, hc, hm⟩ := mem_everyMount.mp hm
  rcases List.mem_append.mp hc with hc | hc
  · exact Or.inr (mem_everyMount.mpr ⟨c, List.mem_append_left _ hc, hm⟩)
  · rcases mem_modifyFirst_other (Container.patch
      (List.filter fun m => !([path].contains m.mountPath))) hc with hc | ⟨b, hb, rfl⟩
    · exact Or.inr (mem_everyMount.mpr ⟨c, List.mem_append_right _ hc, hm⟩)
    · have hunique : ((upsert VolumeMount.mountPath (fileMount volume path key)
          b.volumeMounts).map VolumeMount.mountPath).Nodup :=
        nodup_upsert (h b (List.mem_of_find?_eq_some hb))
      by_cases hpath : m.mountPath = path
      · exact Or.inl (List.inj_on_of_nodup_map hunique hm mem_upsert_self hpath)
      · refine Or.inr (mem_everyMount.mpr
          ⟨_, List.mem_append_right _ (mem_modifyFirst_find hb), ?_⟩)
        rcases mem_upsert hm with rfl | hm
        · exact absurd rfl hpath
        · exact List.mem_filter.mpr ⟨hm, by simpa using hpath⟩

theorem secretOf_mounted (other : String) :
    (template.mounted container volume secret path key).secretOf other =
      if other = volume then some secret else template.secretOf other := by
  unfold PodTemplate.secretOf
  split
  · next heq =>
    rw [heq, volumeNamed_mounted]
    rfl
  · next hne =>
    have hfind : (template.mounted container volume secret path key).volumeNamed other =
        template.volumeNamed other :=
      @find?_upsert_of_ne _ _ _ Volume.name (template.secretVolume volume secret) _ other hne
    rw [hfind]

theorem secretOf_dropped {other : String} (h : other ≠ volume) :
    (template.dropped volume).secretOf other = template.secretOf other := by
  unfold PodTemplate.secretOf PodTemplate.volumeNamed PodTemplate.dropped
  rw [List.find?_filter]
  congr 1
  refine congrFun (congrArg List.find? (funext fun v => ?_)) _
  by_cases hv : v.name = other
  · simp [hv, h]
  · simp [hv]

end template

/-- Nothing dangles, and every key mounted on the volume is in the Secret that is delivered. -/
structure SettledOn (volumes : List String) (volume secret : String) (data : Dict) (s : ClusterState) :
    Prop where
  noDangling : NoDangling volumes s
  distinct : s.template.Distinct
  held : s.secret secret = data
  keys : KeysOn s.template volume data

section step

variable {volumes : List String} {s s' : ClusterState} {container volume secret path key : String}
  {data : Dict} {paths : List String} {dropVolume : Bool}

theorem secret_of_secrets (h : s'.secrets = s.secrets) (name : String) :
    s'.secret name = s.secret name := by
  rw [ClusterState.secret, ClusterState.secret, h]

/-- A mount of a key that is there settles the volume, if the keys left on it are there. -/
theorem settled_of_mount (h : NoDangling volumes s) (hdistinct : s.template.Distinct)
    (hheld : s.secret secret = data) (hkey : key ∈ data)
    (hleft : KeysOn (s.template.unmounted container [path]) volume data)
    (htemplate : s'.template = s.template.mounted container volume secret path key)
    (hsecrets : s'.secrets = s.secrets) : SettledOn volumes volume secret data s' := by
  have hkeys : KeysOn s'.template volume data := by
    intro m hm hvolume k hk
    rw [htemplate] at hm
    rcases everyMount_mounted hdistinct hm with rfl | hm
    · obtain ⟨hsub, -⟩ := Option.filter_eq_some_iff.mp hk
      cases hsub
      exact hkey
    · exact hleft m hm hvolume k hk
  have hheld' : s'.secret secret = data := (secret_of_secrets hsecrets _).trans hheld
  refine ⟨fun m hm hvolume k hk => ?_, ?_, hheld', hkeys⟩
  · by_cases hname : m.name = volume
    · refine ⟨secret, ?_, ?_⟩
      · rw [htemplate, secretOf_mounted, if_pos hname]
      · rw [hheld']
        exact hkeys m hm hname k hk
    · rw [htemplate] at hm
      rcases everyMount_mounted hdistinct hm with rfl | hm
      · exact absurd rfl hname
      · obtain ⟨held, hsecret, hmem⟩ := h m (everyMount_unmounted hm) hvolume k hk
        refine ⟨held, ?_, ?_⟩
        · rw [htemplate, secretOf_mounted, if_neg hname]
          exact hsecret
        · rwa [secret_of_secrets hsecrets]
  · rw [htemplate]
    exact hdistinct.mounted

/-- Taking mounts away leaves nothing dangling. -/
theorem noDangling_of_unmount (h : NoDangling volumes s)
    (htemplate : s.template.unmountSecretFiles container volume paths dropVolume =
      .ok s'.template) (hsecrets : s'.secrets = s.secrets) :
    NoDangling volumes s' := by
  obtain ⟨-, ⟨-, htemplate⟩ | ⟨-, hmounts, htemplate⟩⟩ := unmountSecretFiles_eq_ok.mp htemplate
  · intro m hm hvolume k hk
    rw [htemplate] at hm ⊢
    obtain ⟨held, hsecret, hmem⟩ := h m (everyMount_unmounted hm) hvolume k hk
    exact ⟨held, hsecret, by rwa [secret_of_secrets hsecrets]⟩
  · intro m hm hvolume k hk
    rw [htemplate] at hm ⊢
    have hm : m ∈ (s.template.unmounted container paths).everyMount := hm
    have hname : m.name ≠ volume := fun hname => by
      obtain ⟨c, hc, hmc⟩ := mem_everyMount.mp hm
      have hmounted : (s.template.unmounted container paths).mounts volume = true :=
        List.any_eq_true.mpr ⟨c, hc, List.any_eq_true.mpr ⟨m, hmc, decide_eq_true hname⟩⟩
      rw [hmounted] at hmounts
      cases hmounts
    obtain ⟨held, hsecret, hmem⟩ := h m (everyMount_unmounted hm) hvolume k hk
    refine ⟨held, ?_, by rwa [secret_of_secrets hsecrets]⟩
    rw [secretOf_dropped hname]
    exact hsecret

end step

/-! ### A delivery at every moment -/

/-- The call is one of a delivery's patches: a mount of a key that is in the Secret, or mounts taken
away. -/
def ClusterCall.settles (container volume secret : String) (data : Dict) {β : Type} :
    ClusterCall β → Prop
  | .mountSecretFile c v s _ key => c = container ∧ v = volume ∧ s = secret ∧ key ∈ data
  | .unmountSecretFiles c v _ _ => c = container ∧ v = volume
  | _ => False

/-- The call takes mounts away. -/
def ClusterCall.unmounts {β : Type} : ClusterCall β → Prop
  | .unmountSecretFiles .. => True
  | _ => False

section moments

variable {platform : Platform} {volumes : List String} {s : ClusterState}
  {container volume secret : String} {keyOf : String → String} {data : Dict}

theorem NoDangling.unmount {β : Type} {c : ClusterCall β} (hc : c.unmounts)
    (h : NoDangling volumes s) : NoDangling volumes (s.exec platform c).2 := by
  cases c with
  | unmountSecretFiles c v paths dropVolume =>
    rcases @exec_patch platform _ (.unmountSecretFiles c v paths dropVolume) rfl s with
      ⟨b, s', hexec, hpatch, hsecrets⟩ | ⟨e, -, hexec⟩
    · rw [hexec]
      exact noDangling_of_unmount h hpatch hsecrets
    · rw [hexec]
      exact h
  | _ => exact hc.elim

/-- Once it is settled, a volume stays so through the patches of its delivery. -/
theorem SettledOn.exec {β : Type} {c : ClusterCall β} (hc : c.settles container volume secret data)
    (h : SettledOn volumes volume secret data s) :
    SettledOn volumes volume secret data (s.exec platform c).2 := by
  have hpatches : c.patches = true := by
    cases c <;> first | rfl | exact hc.elim
  rcases @exec_patch platform _ c hpatches s with ⟨b, s', hexec, hpatch, hsecrets⟩ | ⟨e, -, hexec⟩
  · rw [hexec]
    cases c with
    | mountSecretFile c v secret' path key =>
      obtain ⟨rfl, rfl, rfl, hkey⟩ := hc
      obtain ⟨-, -, htemplate⟩ := mountSecretFile_eq_ok.mp hpatch
      exact settled_of_mount h.noDangling h.distinct h.held hkey
        (fun m hm hname => h.keys m (everyMount_unmounted hm) hname) htemplate hsecrets
    | unmountSecretFiles c v paths dropVolume =>
      obtain ⟨rfl, rfl⟩ := hc
      have hsub : (∀ m ∈ s'.template.everyMount, m ∈ s.template.everyMount) ∧
          s'.template.Distinct := by
        obtain ⟨-, ⟨-, heq⟩ | ⟨-, -, heq⟩⟩ := unmountSecretFiles_eq_ok.mp hpatch
        · rw [heq]
          exact ⟨fun m hm => everyMount_unmounted hm, h.distinct.unmounted⟩
        · rw [heq]
          exact ⟨fun m hm => @everyMount_unmounted s.template c paths m hm,
            fun c hc => h.distinct.unmounted c hc⟩
      exact ⟨noDangling_of_unmount h.noDangling hpatch hsecrets, hsub.2,
        (secret_of_secrets hsecrets _).trans h.held,
        fun m hm hname => h.keys m (hsub.1 m hm) hname⟩
    | _ => exact hc.elim
  · rw [hexec]
    exact h

/-- The patches for files of one Secret on one volume. -/
def filePatches (container volume secret : String) (keyOf : String → String)
    (present absent : List String) (dropVolume : Bool) : List (ClusterCall Unit) :=
  present.map (fun path => .mountSecretFile container volume secret path (keyOf path)) ++
    if absent.isEmpty then [] else [.unmountSecretFiles container volume absent dropVolume]

theorem filePatches_settle {present absent : List String} {dropVolume : Bool}
    (hkeys : ∀ path ∈ present, keyOf path ∈ data) :
    ∀ c ∈ filePatches container volume secret keyOf present absent dropVolume,
      c.settles container volume secret data := by
  intro c hc
  rcases List.mem_append.mp hc with hc | hc
  · obtain ⟨path, hpath, rfl⟩ := List.mem_map.mp hc
    exact ⟨rfl, rfl, rfl, hkeys path hpath⟩
  · split at hc
    · cases hc
    · rw [List.mem_singleton.mp hc]
      exact ⟨rfl, rfl⟩

/-- Wherever the patches of a settled volume stop, nothing dangles. -/
theorem SettledOn.stops {calls : List (ClusterCall Unit)}
    (hcalls : ∀ c ∈ calls, c.settles container volume secret data)
    (h : SettledOn volumes volume secret data s) {rest : ClusterProg Unit} {s' : ClusterState}
    (hstops : Stops (clusterMachine platform).answers (each calls perform) s rest s') :
    NoDangling volumes s' := by
  refine (All.stops (I := SettledOn volumes volume secret data) ?_
    (all_each fun c hc => all_perform (hcalls c hc)) h hstops).noDangling
  intro β c w r w' hc hw hanswer
  rcases Machine.Answer.state hanswer with rfl | rfl
  · exact hw
  · exact hw.exec hc

/-- Wherever the patches stop nothing dangles, exactly when nothing did before them and, if the first
mount goes through, every other key mounted on the volume is in the Secret. -/
theorem patches_iff {present absent : List String} {dropVolume : Bool} (hvolume : volume ∈ volumes)
    (hdistinct : s.template.Distinct) (hheld : s.secret secret = data)
    (hkeys : ∀ path ∈ present, keyOf path ∈ data) :
    (∀ rest s', Stops (clusterMachine platform).answers
        (each (filePatches container volume secret keyOf present absent dropVolume) perform) s
        rest s' → NoDangling volumes s') ↔
      NoDangling volumes s ∧ ∀ path, present.head? = some path →
        s.template.has container = true → s.template.occupied volume = false →
          KeysOn (s.template.unmounted container [path]) volume data := by
  cases present with
  | nil =>
    refine ⟨fun h => ⟨h _ _ .here, nofun⟩, fun ⟨h, _⟩ rest s' hstops => ?_⟩
    refine All.stops (I := NoDangling volumes) (P := ClusterCall.unmounts) ?_
      (all_each fun c hc => all_perform ?_) h hstops
    · intro β c w r w' hc hw hanswer
      rcases Machine.Answer.state hanswer with rfl | rfl
      · exact hw
      · exact hw.unmount hc
    · rw [filePatches, List.map_nil, List.nil_append] at hc
      split at hc
      · cases hc
      · rw [List.mem_singleton.mp hc]
        trivial
  | cons path rest =>
    have hcalls := @filePatches_settle container volume secret keyOf data rest absent dropVolume
      fun p hp => hkeys p (List.mem_cons_of_mem _ hp)
    have hsplit : (each (filePatches container volume secret keyOf (path :: rest) absent dropVolume)
        perform : ClusterProg Unit) =
        (perform (.mountSecretFile container volume secret path (keyOf path))).bind fun _ =>
          each (filePatches container volume secret keyOf rest absent dropVolume) perform := rfl
    rw [hsplit]
    rcases @exec_patch platform _
      (.mountSecretFile container volume secret path (keyOf path)) rfl s with
      ⟨b, s₁, hexec, hpatch, hsecrets⟩ | ⟨e, hpatch, hexec⟩
    · obtain ⟨hfree, hhas, htemplate⟩ := mountSecretFile_eq_ok.mp hpatch
      rw [forall_stops_perform hexec]
      refine and_congr_right fun hs => ⟨fun h p hp _ _ => ?_, fun h rest' s' hstops => ?_⟩
      · cases hp
        intro m hm hname key hkey
        have hmounted : m ∈ s₁.template.everyMount := by
          rw [htemplate]
          exact everyMount_mounted_of_unmounted hm
        obtain ⟨held, hsecret, hmem⟩ := h _ _ .here m hmounted (hname ▸ hvolume) key hkey
        rw [htemplate, secretOf_mounted, if_pos hname] at hsecret
        cases hsecret
        rwa [secret_of_secrets hsecrets, hheld] at hmem
      · exact (settled_of_mount hs hdistinct hheld (hkeys path List.mem_cons_self)
          (h path rfl hhas hfree) htemplate hsecrets).stops hcalls hstops
    · rw [forall_stops_refused hexec]
      refine ⟨fun h => ⟨h, fun p hp hhas hfree => ?_⟩, And.left⟩
      cases hp
      have hok : s.template.mountSecretFile container volume secret path (keyOf path) = .ok _ :=
        mountSecretFile_eq_ok.mpr ⟨hfree, hhas, rfl⟩
      cases hok.symm.trans hpatch

end moments

/-! ### The two deliveries -/

/-- A Section's delivery takes no mounted key away: neither does a write of one of its Secrets, nor
the first of its mounts where it puts its Secret under the volume. -/
structure KeepsKeys (settings : Settings) (declared : List Delivery) (contents : Dict)
    (secrets : List (String × Dict)) (template : PodTemplate) : Prop where
  written : ∀ secret ∈ secrets, KeysFrom template (apchiVolumes settings) secret.1 secret.2
  mounted : ∀ secret volume path data,
    declared.find? (hasContent contents) = some (.file secret volume path) →
      (secret, data) ∈ secrets → template.has settings.trinoContainerName = true →
        template.occupied volume = false →
          KeysOn (template.unmounted settings.trinoContainerName [path]) volume data

section deliveries

variable {platform : Platform} {s : ClusterState}

/-- Wherever a program stops that writes one Secret and makes patches, nothing dangles, exactly when
the write takes no key away and nothing dangles wherever the patches stop. -/
theorem write_iff {volumes : List String} {secret : String} {data : Dict} {p : ClusterProg Unit}
    (h : NoDangling volumes s) :
    (∀ rest s', Stops (clusterMachine platform).answers
        ((perform (.writeSecret secret data)).bind fun _ => p) s rest s' → NoDangling volumes s') ↔
      ∀ rest s', Stops (clusterMachine platform).answers p (s.writeSecret secret data) rest s' →
        NoDangling volumes s' := by
  have hexec : (clusterMachine platform).exec (.writeSecret secret data) s =
      (.ok (), s.writeSecret secret data) := rfl
  rw [forall_stops_perform hexec]
  exact and_iff_right h

/-- A declaration of one Secret: the Secret, what it is written with, and the patches that follow. -/
theorem oneSecret_iff {sect : Section} {cluster : Cluster} {resources : Resources}
    {contents : Dict} {secret volume : String} {data : Dict} {present absent : List String}
    (hvolume : volume ∈ apchiVolumes cluster.settings)
    (hkeys : ∀ path ∈ present, fileKey path ∈ data)
    (hrender : sect.renderFiles resources cluster.settings cluster.admin = .ok contents)
    (hdeclared : sect.coordinatorFiles cluster.settings ≠ [])
    (hsecrets : bySecret (sect.coordinatorFiles cluster.settings) contents = .ok [(secret, data)])
    (hpatches : (volumesOf (sect.coordinatorFiles cluster.settings)).flatMap
        (mountVolume cluster.settings (sect.coordinatorFiles cluster.settings) contents) =
      filePatches cluster.settings.trinoContainerName volume secret fileKey present absent
        present.isEmpty)
    (hdistinct : s.template.Distinct) (h : NoDangling (apchiVolumes cluster.settings) s) :
    (∀ rest s', Stops (clusterMachine platform).answers (deliver sect cluster resources) s rest s' →
        NoDangling (apchiVolumes cluster.settings) s') ↔
      KeysFrom s.template (apchiVolumes cluster.settings) secret data ∧
        ∀ path, present.head? = some path →
          s.template.has cluster.settings.trinoContainerName = true →
            s.template.occupied volume = false →
              KeysOn (s.template.unmounted cluster.settings.trinoContainerName [path]) volume
                data := by
  have hprogram : deliver sect cluster resources =
      (perform (.writeSecret secret data)).bind fun _ =>
        each (filePatches cluster.settings.trinoContainerName volume secret fileKey present absent
          present.isEmpty) perform := by
    rw [deliver_eq, if_neg (by simpa using hdeclared), hrender, ← hpatches]
    show ((ofExcept (bySecret _ contents)).bind _ : ClusterProg Unit) = _
    rw [hsecrets]
    show ((each [(secret, data)] fun secret => perform (.writeSecret secret.1 secret.2)).bind _ :
      ClusterProg Unit) = _
    unfold each
    rw [bind_assoc]
    rfl
  have hmounts := @patches_iff platform (apchiVolumes cluster.settings) (s.writeSecret secret data)
    cluster.settings.trinoContainerName volume secret fileKey data present absent present.isEmpty
    hvolume hdistinct (writeSecret_secret ..) hkeys
  rw [hprogram, write_iff h, hmounts, noDangling_writeSecret h]
  exact Iff.rfl

theorem Fills.mem {data contents : Dict} {paths : List String} (h : Fills data contents paths)
    {path : String} (hpath : path ∈ paths) (htext : hasText contents path = true) :
    fileKey path ∈ data := by
  obtain ⟨content, hcontent, hne⟩ := hasText_iff.mp htext
  have hheld := (h (fileKey path) content).mpr ⟨path, hpath, rfl, hcontent, hne⟩
  exact Std.ExtTreeMap.mem_iff_isSome_getElem?.mpr (by rw [hheld]; rfl)

theorem find?_files {contents : Dict} {secret volume secret' volume' path : String}
    {paths : List String} :
    (paths.map (Delivery.file secret volume)).find? (hasContent contents) =
        some (.file secret' volume' path) ↔
      secret = secret' ∧ volume = volume' ∧
        (paths.filter (hasText contents)).head? = some path := by
  have hfind : (paths.map (Delivery.file secret volume)).find? (hasContent contents) =
      (paths.find? (hasText contents)).map (Delivery.file secret volume) := List.find?_map ..
  rw [hfind, List.head?_filter, Option.map_eq_some_iff]
  constructor
  · rintro ⟨p, hp, heq⟩
    cases heq
    exact ⟨rfl, rfl, hp⟩
  · rintro ⟨rfl, rfl, hp⟩
    exact ⟨path, hp, rfl⟩

/-- There is something to deliver: the Section declares files, and what it renders is all declared. -/
def HasFiles (sect : Section) (cluster : Cluster) (resources : Resources) (contents : Dict)
    (secrets : List (String × Dict)) : Prop :=
  sect.renderFiles resources cluster.settings cluster.admin = .ok contents ∧
    bySecret (sect.coordinatorFiles cluster.settings) contents = .ok secrets ∧
    sect.coordinatorFiles cluster.settings ≠ []

section sections

variable {sect : Section} {cluster : Cluster} {resources : Resources} {contents : Dict}
  {secrets : List (String × Dict)}

/-- Where there is nothing to deliver no call is made. -/
theorem deliver_idle (h : ¬ ∃ contents secrets, HasFiles sect cluster resources contents secrets) :
    (∃ u, deliver sect cluster resources = Prog.ret u) ∨
      ∃ e, deliver sect cluster resources = Prog.raise e := by
  rw [deliver_eq]
  split
  · exact Or.inl ⟨(), rfl⟩
  · next hdeclared =>
    cases hrender : sect.renderFiles resources cluster.settings cluster.admin with
    | error e => exact Or.inr ⟨e, rfl⟩
    | ok contents =>
      unfold Prog.ofExcept
      rw [Prog.ret_bind]
      cases hsecrets : bySecret (sect.coordinatorFiles cluster.settings) contents with
      | error e => exact Or.inr ⟨e, rfl⟩
      | ok secrets =>
        exact absurd ⟨contents, secrets, hrender, hsecrets, by simpa using hdeclared⟩ h

/-- What is delivered leaves nothing dangling at any moment exactly where no mounted key is taken
away. -/
theorem HasFiles.iff (hsome : HasFiles sect cluster resources contents secrets)
    (hsect : sect.Registered) (hdistinct : s.template.Distinct)
    (h : NoDangling (apchiVolumes cluster.settings) s) :
    (∀ rest s', Stops (clusterMachine platform).answers (deliver sect cluster resources) s rest s' →
        NoDangling (apchiVolumes cluster.settings) s') ↔
      KeepsKeys cluster.settings (sect.coordinatorFiles cluster.settings) contents secrets
        s.template := by
  obtain ⟨hrender, hsecrets, hdeclared⟩ := hsome
  rcases hsect.cases cluster.settings with
    ⟨secret, volume, paths, hvolume, hkeys, hpaths, hfiles⟩ | ⟨secret, directory, hfiles⟩ | hnone
  · obtain ⟨data, hfills, hwritten⟩ := @bySecret_files secret volume paths contents hpaths hkeys
    have hone : secrets = [(secret, data)] := ((hwritten secrets).mp (hfiles ▸ hsecrets)).1
    subst hone
    have hvolume' : volume ∈ apchiVolumes cluster.settings := by
      rcases hvolume with rfl | rfl <;> simp [apchiVolumes]
    have hpatches : (volumesOf (sect.coordinatorFiles cluster.settings)).flatMap
        (mountVolume cluster.settings (sect.coordinatorFiles cluster.settings) contents) =
        filePatches cluster.settings.trinoContainerName volume secret fileKey
          (paths.filter (hasText contents)) (paths.filter fun path => !hasText contents path)
          (paths.filter (hasText contents)).isEmpty := by
      rw [hfiles, volumesOf_files hpaths, List.flatMap_cons, List.flatMap_nil, List.append_nil,
        mountVolume_files]
      rfl
    rw [oneSecret_iff hvolume' (fun path hpath => hfills.mem (List.mem_filter.mp hpath).1
      (List.mem_filter.mp hpath).2) hrender hdeclared hsecrets hpatches hdistinct h, hfiles]
    constructor
    · rintro ⟨hwrite, hmount⟩
      refine ⟨by simpa using hwrite, fun secret' volume' path data' hfind hmem hhas hfree => ?_⟩
      obtain ⟨rfl, rfl, hhead⟩ := find?_files.mp hfind
      cases List.mem_singleton.mp hmem
      exact hmount path hhead hhas hfree
    · rintro ⟨hwrite, hmount⟩
      exact ⟨hwrite _ List.mem_cons_self, fun path hhead hhas hfree =>
        hmount _ _ path data (find?_files.mpr ⟨rfl, rfl, hhead⟩) List.mem_cons_self hhas hfree⟩
  · obtain ⟨data, hone⟩ : ∃ data, secrets = [(secret, data)] := by
      have hnames := bySecret_names hsecrets
      rw [hfiles] at hnames
      obtain ⟨⟨name, data⟩, hpair, hname⟩ := List.map_eq_singleton_iff.mp hnames
      cases hname
      exact ⟨data, hpair⟩
    subst hone
    have hvolume : cluster.settings.rawFilesVolumeName ∈ apchiVolumes cluster.settings := by
      simp [apchiVolumes]
    rw [@oneSecret_iff platform s sect cluster resources contents secret _ data [] [] hvolume
      nofun hrender hdeclared hsecrets (by rw [hfiles]; rfl) hdistinct h, hfiles]
    constructor
    · rintro ⟨hwrite, -⟩
      exact ⟨by simpa using hwrite, fun _ volume path _ hfind => nomatch
        List.mem_singleton.mp (List.mem_of_find?_eq_some hfind)⟩
    · intro hkeeps
      exact ⟨hkeeps.written _ List.mem_cons_self, nofun⟩
  · exact absurd hnone hdeclared

/-- A Section's delivery leaves nothing dangling at any moment exactly where it takes no mounted key
away. -/
theorem deliver_iff (hsect : sect.Registered) (hdistinct : s.template.Distinct)
    (h : NoDangling (apchiVolumes cluster.settings) s) :
    (∀ rest s', Stops (clusterMachine platform).answers (deliver sect cluster resources) s rest s' →
        NoDangling (apchiVolumes cluster.settings) s') ↔
      ∀ contents secrets, HasFiles sect cluster resources contents secrets →
        KeepsKeys cluster.settings (sect.coordinatorFiles cluster.settings) contents secrets
          s.template := by
  by_cases hsome : ∃ contents secrets, HasFiles sect cluster resources contents secrets
  · obtain ⟨contents, secrets, hsome⟩ := hsome
    rw [hsome.iff hsect hdistinct h]
    constructor
    · rintro hkeeps contents' secrets' ⟨hrender, hsecrets, -⟩
      cases hrender.symm.trans hsome.1
      cases hsecrets.symm.trans hsome.2.1
      exact hkeeps
    · intro hall
      exact hall contents secrets hsome
  · refine iff_of_true (fun rest s' hstops => ?_) fun contents secrets hnow =>
      absurd ⟨contents, secrets, hnow⟩ hsome
    rcases deliver_idle hsome with ⟨u, hidle⟩ | ⟨e, hidle⟩ <;>
      · rw [hidle] at hstops
        cases hstops
        exact h

end sections

/-- A delivery of raw files takes no mounted key away: neither does its write, nor the first of its
mounts where it puts the Secret under the volume. -/
structure KeepsRawKeys (app : App) (rawFiles : Dict) (template : PodTemplate) : Prop where
  written : KeysFrom template (apchiVolumes app.settings) app.settings.rawFilesSecretName
    (rawContents app rawFiles)
  mounted : ∀ path, rawFiles.keys.head? = some path →
    template.has app.settings.trinoContainerName = true →
      template.occupied app.settings.rawFilesVolumeName = false →
        KeysOn (template.unmounted app.settings.trinoContainerName [path])
          app.settings.rawFilesVolumeName (rawContents app rawFiles)

theorem secretKey_mem {app : App} {rawFiles : Dict} {path : String} (h : path ∈ rawFiles.keys) :
    secretKey app path ∈ rawContents app rawFiles := by
  obtain ⟨content, hcontent⟩ := Option.isSome_iff_exists.mp
    (Std.ExtTreeMap.mem_iff_isSome_getElem?.mp (Std.ExtTreeMap.mem_keys.mp h))
  refine Std.ExtTreeMap.mem_ofList.mpr (List.contains_iff_mem.mpr ?_)
  rw [List.map_map, List.mem_map]
  exact ⟨(path, content), Std.ExtTreeMap.mem_toList_iff_getElem?_eq_some.mpr hcontent, rfl⟩

/-- A delivery of raw files leaves nothing dangling at any moment exactly where it takes no mounted
key away. -/
theorem deliverRaw_iff {app : App} {cluster : Cluster} (hdistinct : s.template.Distinct)
    (h : NoDangling (apchiVolumes app.settings) s) :
    (∀ rest s', Stops (clusterMachine platform).answers (deliverRaw app cluster) s rest s' →
        NoDangling (apchiVolumes app.settings) s') ↔
      KeepsRawKeys app cluster.admin.rawFiles s.template := by
  have hvolume : app.settings.rawFilesVolumeName ∈ apchiVolumes app.settings := by
    simp [apchiVolumes]
  generalize hdata : rawContents app cluster.admin.rawFiles = data
  have hprogram : deliverRaw app cluster =
      (perform (.writeSecret app.settings.rawFilesSecretName data)).bind fun _ =>
        (perform .deploymentPodSpec).bind fun template =>
          each (filePatches app.settings.trinoContainerName app.settings.rawFilesVolumeName
            app.settings.rawFilesSecretName (secretKey app) cluster.admin.rawFiles.keys
            (goneFrom app.settings template cluster.admin.rawFiles)
            cluster.admin.rawFiles.isEmpty) perform := by
    subst hdata
    rfl
  have hread : (clusterMachine platform).exec .deploymentPodSpec
      (s.writeSecret app.settings.rawFilesSecretName data) =
      (.ok s.template, s.writeSecret app.settings.rawFilesSecretName data) := rfl
  have hmounts := @patches_iff platform (apchiVolumes app.settings)
    (s.writeSecret app.settings.rawFilesSecretName data) app.settings.trinoContainerName
    app.settings.rawFilesVolumeName app.settings.rawFilesSecretName (secretKey app) data
    cluster.admin.rawFiles.keys (goneFrom app.settings s.template cluster.admin.rawFiles)
    cluster.admin.rawFiles.isEmpty hvolume hdistinct (writeSecret_secret ..)
    fun path hpath => hdata ▸ secretKey_mem hpath
  rw [hprogram, write_iff h, forall_stops_perform hread, hmounts, noDangling_writeSecret h]
  subst hdata
  constructor
  · rintro ⟨-, hwritten, hmounted⟩
    exact ⟨hwritten, hmounted⟩
  · intro hkeeps
    exact ⟨hkeeps.written, hkeeps.written, hkeeps.mounted⟩

end deliveries

/-- No key that is mounted on one of Apchi's volumes is missing from its Secret at any moment of a
delivery, of a Section's files and of the raw files, exactly where the delivery takes no mounted key
away. -/
theorem no_dangling_iff (platform : Platform) (app : App) (admin : AdminValues) (sect : Section)
    (hsect : sect.Registered) (resources : Resources) (s : ClusterState)
    (hdistinct : s.template.Distinct) (hs : NoDangling (apchiVolumes app.settings) s) :
    ((∀ rest s', Stops (clusterMachine platform).answers
          (deliver sect ⟨app.settings, admin⟩ resources) s rest s' →
            NoDangling (apchiVolumes app.settings) s') ↔
      ∀ contents secrets, HasFiles sect ⟨app.settings, admin⟩ resources contents secrets →
        KeepsKeys app.settings (sect.coordinatorFiles app.settings) contents secrets s.template) ∧
    ((∀ rest s', Stops (clusterMachine platform).answers (deliverRaw app ⟨app.settings, admin⟩) s
          rest s' → NoDangling (apchiVolumes app.settings) s') ↔
      KeepsRawKeys app admin.rawFiles s.template) :=
  ⟨@deliver_iff platform s sect ⟨app.settings, admin⟩ resources hsect hdistinct hs,
    deliverRaw_iff hdistinct hs⟩

/-- Where nothing is mounted nothing dangles. -/
theorem noDangling_of_bare {volumes : List String} {s : ClusterState}
    (h : s.template.everyMount = []) : NoDangling volumes s := by
  intro m hm
  rw [h] at hm
  cases hm

theorem freshCluster_distinct : freshCluster.template.Distinct := by
  intro c hc
  cases List.mem_singleton.mp hc
  exact List.nodup_nil

/-- The first listener and the first raw file come, with nothing mounted before. -/
theorem first_files_never_dangle :
    ((∀ rest s', Stops (clusterMachine quietPlatform).answers
          (deliver EventListeners.eventListenersSection ⟨bareApp.settings, {}⟩ EventListeners.auditListener)
          freshCluster rest s' → NoDangling (apchiVolumes bareApp.settings) s') ↔
      ∀ contents secrets,
        HasFiles EventListeners.eventListenersSection ⟨bareApp.settings, {}⟩ EventListeners.auditListener contents
          secrets →
        KeepsKeys bareApp.settings
          (EventListeners.eventListenersSection.coordinatorFiles bareApp.settings) contents secrets
          freshCluster.template) ∧
    ((∀ rest s', Stops (clusterMachine quietPlatform).answers
          (deliverRaw bareApp ⟨bareApp.settings, {}⟩) freshCluster rest s' →
            NoDangling (apchiVolumes bareApp.settings) s') ↔
      KeepsRawKeys bareApp ({} : AdminValues).rawFiles freshCluster.template) :=
  no_dangling_iff quietPlatform bareApp {} EventListeners.eventListenersSection (fun _ => rfl)
    EventListeners.auditListener freshCluster freshCluster_distinct (noDangling_of_bare rfl)

/-- A listener's file is mounted, and is in its Secret. -/
def oneListening : ClusterState where
  secrets := (∅ : Secrets).insert "trino-event-listener"
    ((∅ : Dict).insert EventListeners.FILE_KEY "event-listener.name=http\n")
  template := freshCluster.template.mounted "trino" "apchi-event-listener"
    "trino-event-listener"     EventListeners.MOUNT_PATH EventListeners.FILE_KEY
  catalogs := ∅
  loaded := ∅
  stale := []
  starts := 0

theorem oneListening_noDangling : NoDangling (apchiVolumes {}) oneListening := by
  have hfresh : NoDangling (apchiVolumes {}) { freshCluster with secrets := oneListening.secrets } :=
    noDangling_of_bare rfl
  refine (@settled_of_mount (apchiVolumes {}) _ oneListening "trino" "apchi-event-listener"
    "trino-event-listener" EventListeners.MOUNT_PATH EventListeners.FILE_KEY _ hfresh
    freshCluster_distinct rfl (by decide +kernel) ?_ rfl rfl).noDangling
  intro m hm
  exact absurd (everyMount_unmounted hm) List.not_mem_nil

theorem oneListening_distinct : oneListening.template.Distinct := freshCluster_distinct.mounted

/-- With the listener gone its key is gone at the first call, and the mount is still there. -/
theorem last_listener_dangles :
    NoDangling (apchiVolumes {}) oneListening ∧ oneListening.template.Distinct ∧
      ∃ rest s', Stops (clusterMachine quietPlatform).answers
          (deliver EventListeners.eventListenersSection ⟨{}, {}⟩ ∅) oneListening rest s' ∧
        ¬ NoDangling (apchiVolumes {}) s' := by
  refine ⟨oneListening_noDangling, oneListening_distinct, _, _, stops_stepping 1 _ _, fun h => ?_⟩
  obtain ⟨secret, hsecret, hkey⟩ := h
    (fileMount "apchi-event-listener" EventListeners.MOUNT_PATH EventListeners.FILE_KEY)
    (by decide +kernel) (by decide +kernel) EventListeners.FILE_KEY (by decide +kernel)
  cases Option.some.inj (hsecret.symm.trans
    (by decide +kernel : _ = some "trino-event-listener"))
  exact absurd hkey (by decide +kernel)

end Apchi.Pipeline
