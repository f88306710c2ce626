import Apchi.Pipeline.Patches
import Apchi.Pipeline.Preconditions

/-!
# Raw files that come and go

Mounts merge by their paths, so a raw file at a path that another volume is mounted at takes that
mount's place; and raw files are taken away by their paths, whichever volume is mounted there then.
What is not on the raw files' volume comes out of the two deliveries without its mounts at the paths
they have touched, and otherwise as it was.
-/

namespace Apchi.Pipeline

open Lib Keyed

/-! ### What is not on a volume -/

/-- A container without its mounts of a volume. -/
def Container.without (volume : String) (c : Container) : Container :=
  c.patch (List.filter fun m => m.name ≠ volume)

/-- A template without a volume and the mounts of it. -/
def PodTemplate.without (template : PodTemplate) (volume : String) : PodTemplate :=
  { template with
    containers := template.containers.map (Container.without volume)
    initContainers := template.initContainers.map (Container.without volume)
    volumes := template.volumes.filter fun v => v.name ≠ volume }

section without

variable {template : PodTemplate} {container volume secret path key : String} {paths : List String}

/-- A merged mount takes the place of what is mounted at its path. -/
theorem without_mounted (h : template.Distinct) :
    (template.mounted container volume secret path key).without volume =
      (template.without volume).unmounted container [path] := by
  unfold PodTemplate.mounted PodTemplate.without PodTemplate.unmounted
  congr 1
  · refine map_modifyFirst (fun c => rfl) fun c hc => ?_
    refine @Container.patch_congr (_ ∘ _) (_ ∘ _) c ?_
    simp only [Function.comp_apply]
    rw [filter_upsert (by simp [fileMount]) (h c hc)]
    refine List.filter_congr fun m _ => ?_
    by_cases hm : m.mountPath = path <;> simp [fileMount, hm]
  · exact filter_upsert_of_key fun v hv => by
      simp only [hv, PodTemplate.secretVolume, ne_eq, not_true_eq_false, decide_false]

theorem without_unmounted : (template.unmounted container paths).without volume =
    (template.without volume).unmounted container paths := by
  unfold PodTemplate.without PodTemplate.unmounted
  congr 1
  refine map_modifyFirst (fun c => rfl) fun c _ => ?_
  exact @Container.patch_congr (_ ∘ _) (_ ∘ _) c (List.filter_comm _ _ _)

theorem without_dropped : (template.dropped volume).without volume = template.without volume := by
  unfold PodTemplate.without PodTemplate.dropped
  congr 1
  exact List.filter_filter.trans (List.filter_congr fun v _ => Bool.and_self _)

theorem unmounted_unmounted {more : List String} :
    (template.unmounted container paths).unmounted container more =
      template.unmounted container (paths ++ more) := by
  unfold PodTemplate.unmounted
  congr 1
  refine (modifyFirst_modifyFirst (isNamed_patch container _)).trans ?_
  congr 1
  funext c
  refine @Container.patch_congr (_ ∘ _) _ c ?_
  simp only [Function.comp_apply, List.filter_filter]
  refine List.filter_congr fun m _ => ?_
  simp [Bool.and_comm]

theorem mountsIn_without : (template.without volume).mountsIn container =
    (template.mountsIn container).filter fun m => m.name ≠ volume := by
  unfold PodTemplate.mountsIn PodTemplate.without
  rw [List.find?_map]
  have hnamed : isNamed container ∘ Container.without volume = isNamed container := rfl
  rw [hnamed]
  cases template.containers.find? (isNamed container) with
  | none => rfl
  | some c => rfl

theorem without_mountedAll {keyOf : String → String} (h : template.Distinct) :
    (template.mountedAll container volume secret keyOf paths).Distinct ∧
      (template.mountedAll container volume secret keyOf paths).without volume =
        (template.without volume).unmounted container paths := by
  induction paths generalizing template with
  | nil => exact ⟨h, (unmounted_eq_self_iff.mpr fun _ _ => List.not_mem_nil).symm⟩
  | cons path paths ih =>
    obtain ⟨hdistinct, hwithout⟩ :=
      @ih (template.mounted container volume secret path (keyOf path)) h.mounted
    refine ⟨hdistinct, hwithout.trans ?_⟩
    rw [without_mounted h, unmounted_unmounted]
    rfl

end without

/-! ### One delivery -/

/-- What the delivery of raw files makes of the template. -/
def deliveredRaw (app : App) (rawFiles : Dict) (template : PodTemplate) : PodTemplate :=
  (template.after (rawMounts app rawFiles template)).2

section delivery

variable {app : App} {rawFiles : Dict} {template : PodTemplate}

theorem mem_mountedPaths {settings : Settings} {path : String} :
    path ∈ mountedPaths settings template ↔ ∃ c ∈ template.containers, ∃ m ∈ c.volumeMounts,
      m.name = settings.rawFilesVolumeName ∧ m.subPath.getD "" ≠ "" ∧ m.mountPath = path := by
  unfold mountedPaths
  rw [Std.ExtTreeSet.mem_ofList, List.contains_iff_mem]
  simp only [List.mem_flatMap, List.mem_map, List.mem_filter, isRawMount, Bool.and_eq_true,
    beq_iff_eq, bne_iff_ne, and_assoc]

theorem mem_goneFrom {settings : Settings} {path : String} :
    path ∈ goneFrom settings template rawFiles ↔
      path ∈ mountedPaths settings template ∧ path ∉ rawFiles := by
  unfold goneFrom
  rw [List.mem_filter, Std.ExtTreeSet.mem_toList, decide_eq_true_iff]

/-- The volume is dropped only where no container mounts it, so no other volume is mounted then at
a path that is taken away. -/
theorem unmounted_of_dropped (h : template.Distinct)
    (hdrop : (template.unmounted app.settings.trinoContainerName
      (goneFrom app.settings template ∅)).mounts app.settings.rawFilesVolumeName = false) :
    (template.without app.settings.rawFilesVolumeName).unmounted app.settings.trinoContainerName
      (goneFrom app.settings template ∅) = template.without app.settings.rawFilesVolumeName := by
  refine unmounted_eq_self_iff.mpr fun m hm hgone => ?_
  rw [mountsIn_without] at hm
  obtain ⟨hm, hother⟩ := List.mem_filter.mp hm
  obtain ⟨c, hc, raw, hraw, hname, -, hpath⟩ := mem_mountedPaths.mp (mem_goneFrom.mp hgone).1
  rcases mem_modifyFirst_or hc with hstays | hfirst
  · -- another container still mounts the volume
    have hmounts : (template.unmounted app.settings.trinoContainerName
        (goneFrom app.settings template ∅)).mounts app.settings.rawFilesVolumeName = true :=
      List.any_eq_true.mpr ⟨c, List.mem_append_right _ hstays,
        List.any_eq_true.mpr ⟨raw, hraw, decide_eq_true hname⟩⟩
    rw [hmounts] at hdrop
    cases hdrop
  · -- two mounts of one container at one path
    have hin : m ∈ c.volumeMounts := by
      unfold PodTemplate.mountsIn at hm
      rwa [hfirst] at hm
    have hsame : m = raw := List.inj_on_of_nodup_map (h c hc) hin hraw hpath.symm
    exact (of_decide_eq_true hother) (hsame ▸ hname)

/-- With no raw file nothing is lost. -/
theorem deliveredRaw_empty (app : App) (h : template.Distinct) :
    (deliveredRaw app ∅ template).Distinct ∧
    (deliveredRaw app ∅ template).without app.settings.rawFilesVolumeName =
      template.without app.settings.rawFilesVolumeName := by
  have hcalls : rawMounts app ∅ template = if (goneFrom app.settings template ∅).isEmpty then []
      else [.unmountSecretFiles app.settings.trinoContainerName app.settings.rawFilesVolumeName
        (goneFrom app.settings template ∅) true] := rfl
  unfold deliveredRaw
  rw [hcalls]
  split
  · exact ⟨h, rfl⟩
  · unfold PodTemplate.after
    cases hpatch : ClusterCall.patch (.unmountSecretFiles app.settings.trinoContainerName
      app.settings.rawFilesVolumeName (goneFrom app.settings template ∅) true) template with
    | error e => exact ⟨h, rfl⟩
    | ok patched =>
      obtain ⟨-, ⟨hkept, -⟩ | ⟨-, hmounts, rfl⟩⟩ := unmountSecretFiles_eq_ok.mp hpatch
      · cases hkept
      · exact ⟨h.unmounted,
          without_dropped.trans (without_unmounted.trans (unmounted_of_dropped h hmounts))⟩

/-- Where the first mount is refused nothing is done. -/
theorem deliveredRaw_refused (hfiles : rawFiles.isEmpty = false)
    (h : template.occupied app.settings.rawFilesVolumeName = false →
      template.has app.settings.trinoContainerName = false) :
    deliveredRaw app rawFiles template = template := by
  unfold deliveredRaw rawMounts mountRaw
  cases hkeys : rawFiles.keys with
  | nil =>
    rw [← Std.ExtTreeMap.isEmpty_keys, hkeys] at hfiles
    cases hfiles
  | cons path paths =>
    obtain ⟨e, hafter⟩ := after_mount_refused h
    rw [List.map_cons, List.cons_append, hafter]

/-- Raw files take the places of what is mounted at their paths and at those of the raw files that
are gone. -/
theorem deliveredRaw_nonempty (h : template.Distinct) (hfiles : rawFiles.isEmpty = false)
    (hfree : template.occupied app.settings.rawFilesVolumeName = false) :
    (deliveredRaw app rawFiles template).without app.settings.rawFilesVolumeName =
      (template.without app.settings.rawFilesVolumeName).unmounted app.settings.trinoContainerName
        (rawFiles.keys ++ goneFrom app.settings template rawFiles) ∧
    (deliveredRaw app rawFiles template).Distinct := by
  cases hhas : template.has app.settings.trinoContainerName with
  | false =>
    have hnone : template.mountsIn app.settings.trinoContainerName = [] := by
      unfold PodTemplate.mountsIn
      rw [List.find?_eq_none.mpr (List.any_eq_false.mp hhas)]
      rfl
    rw [deliveredRaw_refused hfiles fun _ => hhas]
    refine ⟨(unmounted_eq_self_iff.mpr fun m hm => ?_).symm, h⟩
    rw [mountsIn_without, hnone] at hm
    cases hm
  | true =>
    unfold deliveredRaw rawMounts mountRaw
    rw [hfiles]
    generalize goneFrom app.settings template rawFiles = gone
    obtain ⟨hdistinct, hwithout⟩ := @without_mountedAll template app.settings.trinoContainerName
      app.settings.rawFilesVolumeName app.settings.rawFilesSecretName rawFiles.keys (secretKey app) h
    rw [after_mounts _ hhas hfree]
    split
    · next hempty =>
      rw [List.isEmpty_iff.mp hempty, List.append_nil]
      exact ⟨hwithout, hdistinct⟩
    · rw [after_unmount (has_mountedAll.trans hhas)]
      exact ⟨by rw [without_unmounted, hwithout, unmounted_unmounted], hdistinct.unmounted⟩

end delivery

/-! ### Two deliveries -/

variable {platform : Platform}

/-- A delivery of raw files writes their Secret and makes its patches. -/
theorem run_deliverRaw (app : App) (cluster : Cluster) (s : ClusterState) :
    ((deliverRaw app cluster).run (clusterMachine platform) s).2.template =
      deliveredRaw app cluster.admin.rawFiles s.template := by
  have hpatches : ∀ c ∈ rawMounts app cluster.admin.rawFiles s.template, c.patches = true := by
    intro c hc
    rcases List.mem_append.mp hc with hc | hc
    · obtain ⟨path, -, rfl⟩ := List.mem_map.mp hc
      rfl
    · split at hc
      · cases hc
      · rw [List.mem_singleton.mp hc]
        rfl
  obtain ⟨s', hrun, htemplate, -⟩ := @run_patches platform _ hpatches
    (s.writeSecret app.settings.rawFilesSecretName (rawContents app cluster.admin.rawFiles))
  have hrun' : (deliverRaw app cluster).run (clusterMachine platform) s =
      (Prog.each (rawMounts app cluster.admin.rawFiles s.template) Prog.perform).run
        (clusterMachine platform) (s.writeSecret app.settings.rawFilesSecretName
          (rawContents app cluster.admin.rawFiles)) := rfl
  rw [hrun', hrun]
  exact htemplate

/-- The same Cluster with no raw files. -/
def Cluster.withoutRawFiles (cluster : Cluster) : Cluster :=
  { cluster with admin := { cluster.admin with rawFiles := ∅ } }

/-- Delivering raw files and then none leaves everything that is not on their volume as it was
exactly when there are none, or their volume's name is taken by a volume of another kind, or the
Trino container mounts no other volume at the path of one of them or at a path at which their volume
is mounted in some container. -/
theorem raw_round_trip_iff (platform : Platform) (app : App) (cluster : Cluster) (s : ClusterState)
    (h : s.template.Distinct) :
    let delivered := ((deliverRaw app cluster).run (clusterMachine platform) s).2
    let removed :=
      ((deliverRaw app cluster.withoutRawFiles).run (clusterMachine platform) delivered).2
    removed.template.without app.settings.rawFilesVolumeName =
        s.template.without app.settings.rawFilesVolumeName ↔
      cluster.admin.rawFiles.isEmpty ∨ s.template.occupied app.settings.rawFilesVolumeName ∨
        ∀ m ∈ s.template.mountsIn app.settings.trinoContainerName,
          m.name ≠ app.settings.rawFilesVolumeName →
            m.mountPath ∉ cluster.admin.rawFiles ∧
              m.mountPath ∉ mountedPaths app.settings s.template := by
  intro delivered removed
  have hdelivered : delivered.template =
      deliveredRaw app cluster.admin.rawFiles s.template := run_deliverRaw ..
  have hremoved : removed.template = deliveredRaw app ∅ delivered.template := run_deliverRaw ..
  rw [hremoved, hdelivered]
  by_cases hfiles : cluster.admin.rawFiles.isEmpty = true
  · have hempty : cluster.admin.rawFiles = ∅ := Std.ExtTreeMap.isEmpty_iff.mp hfiles
    obtain ⟨hdistinct, hsame⟩ := deliveredRaw_empty app h
    simp only [hempty] at hdistinct hsame ⊢
    rw [(deliveredRaw_empty app hdistinct).2, hsame]
    simp
  · rw [Bool.not_eq_true] at hfiles
    by_cases htaken : s.template.occupied app.settings.rawFilesVolumeName = true
    · rw [deliveredRaw_refused hfiles fun hfree => by simp [hfree] at htaken,
        (deliveredRaw_empty app h).2]
      simp [htaken]
    · rw [Bool.not_eq_true] at htaken
      obtain ⟨hwithout, hdistinct⟩ := deliveredRaw_nonempty h hfiles htaken
      rw [(deliveredRaw_empty app hdistinct).2, hwithout, unmounted_eq_self_iff, mountsIn_without]
      simp only [hfiles, htaken, Bool.false_eq_true, false_or, List.mem_filter, decide_eq_true_eq,
        and_imp, List.mem_append, Std.ExtTreeMap.mem_keys, mem_goneFrom, not_or]
      refine forall_congr' fun m => forall_congr' fun _ => forall_congr' fun _ =>
        and_congr_right fun hfile => ?_
      simp [hfile]

/-! ### A deployment that mounts a file of its own -/

/-- A template as the preconditions read it; `configMap` tells which of the other volumes are made of
ConfigMaps. -/
def PodTemplate.spec (template : PodTemplate) (configMap : String → Option String) :
    Coordinator.PodSpec where
  containers := template.containers
  volumes := template.volumes.map fun v => match v.source with
    | .secret secret mode => { name := v.name, secretName := some secret, defaultMode := mode }
    | .other description => { name := v.name, configMapName := configMap description }
  initContainers := template.initContainers
  fsGroup := template.fsGroup

/-- A coordinator whose access control is a single file of the Admin's. -/
def adminsTemplate : PodTemplate where
  containers := [⟨"trino", [{
    name := "config", mountPath := PROPERTIES_PATH, subPath := some "access-control.properties" }]⟩]
  initContainers := [⟨"seed", [{ name := "seed", mountPath := "/seed" }]⟩]
  volumes := [⟨"config", .other "trino-config"⟩,
    ⟨"seed", .secret "trino-catalog-seed" (some 0o640)⟩]
  fsGroup := some 1000

def adminsDeployment : Coordinator.Adapter where
  readConfigMap _ := .ok ((∅ : Dict).insert "access-control.properties"
    "access-control.name=file\nsecurity.refresh-period=1s\n")
  readSecret _ := .ok ∅
  deploymentPodSpec _ := .ok (adminsTemplate.spec some)
  deploymentPodSpecIfPresent _ := .ok none

/-- One raw file at this path. -/
def oneRawFile (path : String) : Cluster where
  settings := {}
  admin := { rawFiles := (∅ : Dict).insert path "access-control.name=allow-all\n" }

theorem adminsTemplate_distinct : adminsTemplate.Distinct := by
  unfold PodTemplate.Distinct
  decide

/-- A raw file beside the Admin's own file comes and goes. -/
theorem raw_round_trip_beside :
    let s : ClusterState := { freshCluster with template := adminsTemplate }
    let cluster := oneRawFile "/etc/trino/jvm.config"
    let delivered := ((deliverRaw bareApp cluster).run (clusterMachine quietPlatform) s).2
    let removed := ((deliverRaw bareApp cluster.withoutRawFiles).run
      (clusterMachine quietPlatform) delivered).2
    removed.template.without "apchi-admin-raw-files" =
      adminsTemplate.without "apchi-admin-raw-files" :=
  (raw_round_trip_iff quietPlatform bareApp (oneRawFile "/etc/trino/jvm.config")
    { freshCluster with template := adminsTemplate } adminsTemplate_distinct).mpr
    (by decide +kernel)

/-- The preconditions hold and the path is admitted, and yet the Admin's mount is gone once the raw
file is. -/
theorem raw_file_takes_admins_mount :
    let s : ClusterState := { freshCluster with template := adminsTemplate }
    let cluster := oneRawFile PROPERTIES_PATH
    let delivered := ((deliverRaw bareApp cluster).run (clusterMachine quietPlatform) s).2
    let removed := ((deliverRaw bareApp cluster.withoutRawFiles).run
      (clusterMachine quietPlatform) delivered).2
    assertPreconditions adminsDeployment {} = .ok () ∧
      refuseUnusable PROPERTIES_PATH (adminsDeployment.deploymentPodSpec "trino-coordinator") {} 0 =
        .ok PROPERTIES_PATH ∧
      removed.template.without "apchi-admin-raw-files" ≠
        adminsTemplate.without "apchi-admin-raw-files" := by
  decide +kernel

end Apchi.Pipeline
