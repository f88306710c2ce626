import Apchi.Lib.Keyed
import Apchi.Pipeline.Delivery

/-!
# What the patches of a pod template do

A patch goes through or is refused, and which of the two is read off the template; one that goes
through merges one volume and one mount, or takes mounts away.  Patches that are made one after the
other go as far as the first that is refused.
-/

namespace Apchi.Pipeline

open Lib Keyed

/-! ### The parts of a template -/

/-- The container of this name. -/
def isNamed (container : String) (c : Container) : Bool := c.name = container

/-- A container with its mounts changed. -/
def Container.patch (f : List VolumeMount → List VolumeMount) (c : Container) : Container :=
  { c with volumeMounts := f c.volumeMounts }

@[simp] theorem isNamed_patch (container : String) (f : List VolumeMount → List VolumeMount)
    (c : Container) : isNamed container (c.patch f) = isNamed container c := rfl

theorem Container.patch_congr {f g : List VolumeMount → List VolumeMount} {c : Container}
    (h : f c.volumeMounts = g c.volumeMounts) : c.patch f = c.patch g := by
  unfold Container.patch
  rw [h]

theorem Container.patch_eq_self {f : List VolumeMount → List VolumeMount} {c : Container} :
    c.patch f = c ↔ f c.volumeMounts = c.volumeMounts := by
  cases c
  simp [Container.patch]

/-- The container of this name is there. -/
def PodTemplate.has (template : PodTemplate) (container : String) : Bool :=
  template.containers.any (isNamed container)

/-- What the container of this name mounts. -/
def PodTemplate.mountsIn (template : PodTemplate) (container : String) : List VolumeMount :=
  ((template.containers.find? (isNamed container)).map Container.volumeMounts).getD []

/-- The volume of this name. -/
def PodTemplate.volumeNamed (template : PodTemplate) (volume : String) : Option Volume :=
  template.volumes.find? fun v => v.name = volume

/-- A volume of this name is there, and it is no Secret's. -/
def PodTemplate.occupied (template : PodTemplate) (volume : String) : Bool :=
  (template.volumeNamed volume).any fun v => match v.source with
    | .secret .. => false
    | .other _ => true

/-- The mode the Secret volume of this name asks for. -/
def PodTemplate.modeOf (template : PodTemplate) (volume : String) : Option Nat :=
  (template.volumeNamed volume).bind fun v => match v.source with
    | .secret _ mode => mode
    | .other _ => none

/-- The mode Apchi asks for. -/
def PodTemplate.fileMode (template : PodTemplate) : Option Nat :=
  if template.fsGroup.isSome then some CREDENTIAL_FILE_MODE else none

/-- The volume a mount of Apchi's brings with it. -/
def PodTemplate.secretVolume (template : PodTemplate) (volume secret : String) : Volume :=
  ⟨volume, .secret secret (template.fileMode <|> template.modeOf volume)⟩

/-- The template with one volume and one mount merged into it. -/
def PodTemplate.mounted (template : PodTemplate) (container volume secret path key : String) :
    PodTemplate :=
  { template with
    volumes := upsert Volume.name (template.secretVolume volume secret) template.volumes
    containers := modifyFirst (isNamed container)
      (Container.patch (upsert VolumeMount.mountPath (fileMount volume path key)))
      template.containers }

/-- The template without these mounts of one container. -/
def PodTemplate.unmounted (template : PodTemplate) (container : String) (paths : List String) :
    PodTemplate :=
  { template with
    containers := modifyFirst (isNamed container)
      (Container.patch (List.filter fun m => !paths.contains m.mountPath)) template.containers }

/-- Some container mounts the volume. -/
def PodTemplate.mounts (template : PodTemplate) (volume : String) : Bool :=
  (template.initContainers ++ template.containers).any fun c =>
    c.volumeMounts.any fun m => m.name = volume

/-- The template without the volumes of this name. -/
def PodTemplate.dropped (template : PodTemplate) (volume : String) : PodTemplate :=
  { template with volumes := template.volumes.filter fun v => v.name ≠ volume }

/-! ### One patch -/

theorem mergeMount_eq (mount : VolumeMount) (mounts : List VolumeMount) :
    mergeMount mount mounts = upsert VolumeMount.mountPath mount mounts := by
  induction mounts with
  | nil => rfl
  | cons m rest ih =>
    unfold mergeMount upsert
    rw [ih]

theorem patchContainer_eq (container : String) (f : List VolumeMount → List VolumeMount)
    (containers : List Container) : patchContainer container f containers =
      if containers.any (isNamed container) then
        .ok (modifyFirst (isNamed container) (Container.patch f) containers)
      else .error ⟨"ApiException", "spec.template.spec.containers: image: Required value"⟩ := by
  induction containers with
  | nil => rfl
  | cons c rest ih =>
    unfold patchContainer modifyFirst
    rw [ih]
    by_cases hc : c.name = container
    · simp [isNamed, hc, Container.patch]
    · by_cases hrest : rest.any (isNamed container) = true
      · simp [hrest, isNamed, hc]
      · simp [hrest, isNamed, hc]

/-- What the volumes are patched to. -/
theorem mergeVolume_eq (template : PodTemplate) (volume secret : String) :
    mergeVolume volume secret template.fileMode template.volumes =
      if template.occupied volume then
        .error ⟨"ApiException", "may not specify more than 1 volume type"⟩
      else .ok (upsert Volume.name (template.secretVolume volume secret) template.volumes) := by
  unfold PodTemplate.occupied PodTemplate.secretVolume PodTemplate.modeOf PodTemplate.volumeNamed
  generalize template.fileMode = mode
  induction template.volumes with
  | nil => simp [mergeVolume, upsert]
  | cons v rest ih =>
    unfold mergeVolume upsert
    by_cases hv : v.name = volume
    · cases hsource : v.source with
      | secret held defaultMode => simp [hv, hsource]
      | other description => simp [hv, hsource]
    · rw [if_neg hv, ih]
      simp only [List.find?_cons, hv, decide_false, if_false]
      split <;> rfl

variable {template template' : PodTemplate} {container volume secret path key : String}
  {paths : List String} {dropVolume : Bool}

/-- A mount goes through where the container is there and the volume's name is free or a Secret's. -/
theorem mountSecretFile_eq_ok :
    template.mountSecretFile container volume secret path key = .ok template' ↔
      template.occupied volume = false ∧ template.has container = true ∧
        template' = template.mounted container volume secret path key := by
  have hmerge := mergeVolume_eq template volume secret
  unfold PodTemplate.mountSecretFile PodTemplate.mounted PodTemplate.has
  change (do
    let volumes ← mergeVolume volume secret template.fileMode template.volumes
    let containers ← patchContainer container (mergeMount (fileMount volume path key))
      template.containers
    return { template with volumes := volumes, containers := containers } :
      Except Error PodTemplate) = _ ↔ _
  rw [hmerge, patchContainer_eq, funext (mergeMount_eq _)]
  cases template.occupied volume with
  | true => simp [bind, Except.bind]
  | false =>
    cases template.containers.any (isNamed container) with
    | false => simp [bind, Except.bind]
    | true => simp [bind, Except.bind, pure, Except.pure, eq_comm]

/-- Mounts are taken away where the container is there, and the volume with them where nothing
mounts it any more. -/
theorem unmountSecretFiles_eq_ok :
    template.unmountSecretFiles container volume paths dropVolume = .ok template' ↔
      template.has container = true ∧
        ((dropVolume = false ∧ template' = template.unmounted container paths) ∨
          (dropVolume = true ∧ (template.unmounted container paths).mounts volume = false ∧
            template' = (template.unmounted container paths).dropped volume)) := by
  unfold PodTemplate.unmountSecretFiles PodTemplate.has
  rw [patchContainer_eq]
  cases template.containers.any (isNamed container) with
  | false => simp [bind, Except.bind]
  | true =>
    cases dropVolume with
    | false =>
      change (.ok (template.unmounted container paths) : Except Error PodTemplate) = .ok template' ↔ _
      constructor
      · intro h
        exact ⟨rfl, Or.inl ⟨rfl, (Except.ok.inj h).symm⟩⟩
      · rintro ⟨-, ⟨-, rfl⟩ | ⟨hdrop, -⟩⟩
        · rfl
        · cases hdrop
    | true =>
      change (if (template.unmounted container paths).mounts volume = true then
          (.error ⟨"ApiException", s!"volumeMounts[0].name: Not found: {volume}"⟩ :
            Except Error PodTemplate)
        else .ok ((template.unmounted container paths).dropped volume)) = .ok template' ↔ _
      split
      · next hmounts => simp [hmounts]
      · next hmounts => simp [hmounts, eq_comm]

/-- Nothing is taken away exactly where nothing is mounted at the paths. -/
theorem unmounted_eq_self_iff : template.unmounted container paths = template ↔
    ∀ m ∈ template.mountsIn container, m.mountPath ∉ paths := by
  have hcontainers : template.unmounted container paths = template ↔
      modifyFirst (isNamed container)
        (Container.patch (List.filter fun m => !paths.contains m.mountPath)) template.containers =
        template.containers := by
    cases template
    simp [PodTemplate.unmounted]
  rw [hcontainers, modifyFirst_eq_self_iff]
  unfold PodTemplate.mountsIn
  cases template.containers.find? (isNamed container) with
  | none => simp
  | some c => simp [Container.patch_eq_self, List.filter_eq_self]

/-- No container has two mounts at one path; the API server takes no template that has. -/
def PodTemplate.Distinct (template : PodTemplate) : Prop :=
  ∀ c ∈ template.containers, (c.volumeMounts.map VolumeMount.mountPath).Nodup

theorem PodTemplate.Distinct.mounted (h : template.Distinct) :
    (template.mounted container volume secret path key).Distinct := by
  intro c hc
  rcases mem_modifyFirst hc with hc | ⟨b, hb, rfl⟩
  · exact h c hc
  · exact nodup_upsert (h b (List.mem_of_find?_eq_some hb))

theorem PodTemplate.Distinct.unmounted (h : template.Distinct) :
    (template.unmounted container paths).Distinct := by
  intro c hc
  rcases mem_modifyFirst hc with hc | ⟨b, hb, rfl⟩
  · exact h c hc
  · exact (h b (List.mem_of_find?_eq_some hb)).sublist (List.filter_sublist.map _)

/-! ### One patch after the other -/

/-- The patches, one after the other, as far as the first that is refused. -/
def PodTemplate.after : List (ClusterCall Unit) → PodTemplate → Except Error Unit × PodTemplate
  | [], template => (.ok (), template)
  | c :: rest, template =>
      match c.patch template with
      | .ok patched => PodTemplate.after rest patched
      | .error e => (.error e, template)

/-- The template with these mounts merged into it, all on one volume. -/
def PodTemplate.mountedAll (template : PodTemplate) (container volume secret : String)
    (keyOf : String → String) (paths : List String) : PodTemplate :=
  paths.foldl (fun template path => template.mounted container volume secret path (keyOf path))
    template

theorem has_mounted : (template.mounted container volume secret path key).has container =
    template.has container := any_modifyFirst (isNamed_patch container _)

theorem volumeNamed_mounted : (template.mounted container volume secret path key).volumeNamed volume =
    some (template.secretVolume volume secret) :=
  @find?_upsert_self _ _ _ Volume.name (template.secretVolume volume secret) _

theorem occupied_mounted :
    (template.mounted container volume secret path key).occupied volume = false := by
  unfold PodTemplate.occupied
  rw [volumeNamed_mounted]
  rfl

/-- Mounts that go through, one after the other, and then whatever is asked next. -/
theorem after_mounts {keyOf : String → String} {rest : List (ClusterCall Unit)}
    (paths : List String) {template : PodTemplate} (hhas : template.has container = true)
    (hfree : template.occupied volume = false) :
    template.after (paths.map (fun path =>
        .mountSecretFile container volume secret path (keyOf path)) ++ rest) =
      (template.mountedAll container volume secret keyOf paths).after rest := by
  induction paths generalizing template with
  | nil => rfl
  | cons path paths ih =>
    have hpatch : ClusterCall.patch (.mountSecretFile container volume secret path (keyOf path))
        template = .ok _ := mountSecretFile_eq_ok.mpr ⟨hfree, hhas, rfl⟩
    rw [List.map_cons, List.cons_append, PodTemplate.after, hpatch]
    exact ih (has_mounted.trans hhas) occupied_mounted

theorem has_mountedAll {keyOf : String → String} :
    (template.mountedAll container volume secret keyOf paths).has container =
      template.has container := by
  induction paths generalizing template with
  | nil => rfl
  | cons path paths ih => exact ih.trans has_mounted

/-- Mounts are taken away from a container that is there, the volume staying. -/
theorem after_unmount (hhas : template.has container = true) :
    template.after [.unmountSecretFiles container volume paths false] =
      (.ok (), template.unmounted container paths) := by
  have hpatch : ClusterCall.patch (.unmountSecretFiles container volume paths false) template =
      .ok _ := unmountSecretFiles_eq_ok.mpr ⟨hhas, Or.inl ⟨rfl, rfl⟩⟩
  rw [PodTemplate.after, hpatch]
  rfl

/-- Where the first mount is refused nothing is done. -/
theorem after_mount_refused {rest : List (ClusterCall Unit)}
    (h : template.occupied volume = false → template.has container = false) :
    ∃ e, template.after (.mountSecretFile container volume secret path key :: rest) =
      (.error e, template) := by
  cases hpatch : ClusterCall.patch (.mountSecretFile container volume secret path key) template with
  | ok patched =>
    obtain ⟨hfree, hhas, -⟩ := mountSecretFile_eq_ok.mp hpatch
    rw [h hfree] at hhas
    cases hhas
  | error e => exact ⟨e, by rw [PodTemplate.after, hpatch]⟩

variable {platform : Platform}

/-- A patch makes the template what it asks for, or is refused; the Secrets stay. -/
theorem exec_patch {β : Type} {c : ClusterCall β} (h : c.patches = true) (s : ClusterState) :
    (∃ b s', s.exec platform c = (.ok b, s') ∧ c.patch s.template = .ok s'.template ∧
      s'.secrets = s.secrets) ∨
    ∃ e, c.patch s.template = .error e ∧ s.exec platform c = (.error e, s) := by
  have hpatched (template : Except Error PodTemplate) :
      (∃ b s', s.patched platform template = (.ok b, s') ∧ template = .ok s'.template ∧
        s'.secrets = s.secrets) ∨
      ∃ e, template = .error e ∧ s.patched platform template = (.error e, s) := by
    cases template with
    | ok patched =>
      exact Or.inl ⟨(), s.patch platform patched, rfl, by rw [patch_template], patch_secrets ..⟩
    | error e => exact Or.inr ⟨e, rfl, rfl⟩
  cases c with
  | restartDeployment reason => exact Or.inl ⟨(), _, rfl, rfl, rfl⟩
  | mountSecretFile container volume secret path key => exact hpatched _
  | unmountSecretFiles container volume paths dropVolume => exact hpatched _
  | _ => cases h

/-- A run of patches is a run on the template. -/
theorem run_patches {calls : List (ClusterCall Unit)} (h : ∀ c ∈ calls, c.patches = true)
    (s : ClusterState) : ∃ s', (Prog.each calls Prog.perform).run (clusterMachine platform) s =
      ((s.template.after calls).1, s') ∧ s'.template = (s.template.after calls).2 ∧
        s'.secrets = s.secrets := by
  induction calls generalizing s with
  | nil => exact ⟨s, rfl, rfl, rfl⟩
  | cons c rest ih =>
    obtain ⟨hc, hrest⟩ := List.forall_mem_cons.mp h
    have hrun : (Prog.each (c :: rest) Prog.perform).run (clusterMachine platform) s =
        ((Prog.perform c).bind fun _ => Prog.each rest Prog.perform).run
          (clusterMachine platform) s := rfl
    rw [hrun, Prog.run_bind, Prog.run_perform]
    rcases @exec_patch platform _ c hc s with
      ⟨b, s₁, hexec, hpatch, hsecrets⟩ | ⟨e, hpatch, hexec⟩
    · have hexec : (clusterMachine platform).exec c s = (.ok b, s₁) := hexec
      obtain ⟨s', hrun', htemplate, hsecrets'⟩ := ih hrest s₁
      rw [hexec]
      unfold PodTemplate.after
      rw [hpatch]
      exact ⟨s', hrun', htemplate, hsecrets'.trans hsecrets⟩
    · have hexec : (clusterMachine platform).exec c s = (.error e, s) := hexec
      rw [hexec]
      unfold PodTemplate.after
      rw [hpatch]
      exact ⟨s, rfl, rfl, rfl⟩

end Apchi.Pipeline
