import Apchi.Pipeline.Restore

/-!
# What delivering does to the coordinator

A program restarts the coordinator exactly when one of the patches it makes is not what the pod
template already says; a program of the pipeline is described by its patches, and one program after
another by the patches of both.  A Secret that is only ever written with what it holds goes stale in
no program at all.
-/

namespace Apchi.Pipeline

open Lib Prog

/-! ### One call -/

/-- The pod template a call asks for. -/
def ClusterCall.patch {β : Type} : ClusterCall β → PodTemplate → Except Error PodTemplate
  | .restartDeployment reason, template => .ok { template with
      restartedAt := template.restartedAt + 1, restartedBecause := reason }
  | .mountSecretFile container volume secret path key, template =>
      template.mountSecretFile container volume secret path key
  | .unmountSecretFiles container volume paths dropVolume, template =>
      template.unmountSecretFiles container volume paths dropVolume
  | _, template => .ok template

/-- A call that asks for the template as it is. -/
def ClusterCall.keeps {β : Type} (c : ClusterCall β) (template : PodTemplate) : Prop :=
  c.patch template = .ok template

instance {β : Type} (c : ClusterCall β) (template : PodTemplate) :
    Decidable (c.keeps template) :=
  match h : c.patch template with
  | .ok t => decidable_of_iff (t = template) (by
      unfold ClusterCall.keeps
      rw [h]
      exact ⟨congrArg Except.ok, Except.ok.inj⟩)
  | .error _ => .isFalse (by
      unfold ClusterCall.keeps
      rw [h]
      nofun)

/-- A call that asks for no template at all. -/
def ClusterCall.patches {β : Type} : ClusterCall β → Bool
  | .restartDeployment .. | .mountSecretFile .. | .unmountSecretFiles .. => true
  | _ => false

section call

variable (platform : Platform) {β : Type} (c : ClusterCall β) (s : ClusterState)

theorem exec_of_not_patches (h : c.patches = false) :
    (s.exec platform c).2.starts = s.starts ∧ (s.exec platform c).2.template = s.template := by
  cases c with
  | restartDeployment reason => cases h
  | mountSecretFile => cases h
  | unmountSecretFiles => cases h
  | createCatalog name connector properties =>
    show (s.createCatalog platform _ _).2.starts = _ ∧ (s.createCatalog platform _ _).2.template = _
    unfold ClusterState.createCatalog
    split
    · exact ⟨rfl, rfl⟩
    · split <;> exact ⟨rfl, rfl⟩
  | dropCatalog name =>
    show (s.dropCatalog platform _).2.starts = _ ∧ (s.dropCatalog platform _).2.template = _
    unfold ClusterState.dropCatalog
    split
    · split <;> exact ⟨rfl, rfl⟩
    · exact ⟨rfl, rfl⟩
  | _ => exact ⟨rfl, rfl⟩

/-- A call restarts the coordinator at most once, and leaves the template as it is otherwise. -/
theorem exec_starts : s.starts ≤ (s.exec platform c).2.starts ∧
    ((s.exec platform c).2.starts = s.starts → (s.exec platform c).2.template = s.template) := by
  have hpatched (template : Except Error PodTemplate) :
      s.starts ≤ (s.patched platform template).2.starts ∧
        ((s.patched platform template).2.starts = s.starts →
          (s.patched platform template).2.template = s.template) := by
    cases template with
    | error e => exact ⟨Nat.le_refl _, fun _ => rfl⟩
    | ok template =>
      show s.starts ≤ (s.patch platform template).starts ∧
        ((s.patch platform template).starts = s.starts → (s.patch platform template).template = _)
      unfold ClusterState.patch
      split
      · exact ⟨Nat.le_refl _, fun _ => rfl⟩
      · simp
  cases hpatches : c.patches with
  | false =>
    obtain ⟨hstarts, htemplate⟩ := exec_of_not_patches platform c s hpatches
    exact ⟨hstarts.ge, fun _ => htemplate⟩
  | true =>
    cases c with
    | restartDeployment reason => exact ⟨Nat.le_succ _, fun h => absurd h (Nat.succ_ne_self _)⟩
    | mountSecretFile => exact hpatched _
    | unmountSecretFiles => exact hpatched _
    | _ => cases hpatches

variable {c} {s} {platform} {s' : ClusterState} {b : β}

/-- A call that goes through restarts nothing exactly when it keeps the template. -/
theorem exec_starts_eq_iff (h : s.exec platform c = (.ok b, s')) :
    s'.starts = s.starts ↔ c.keeps s.template := by
  have hpatched {template : Except Error PodTemplate} {u : Unit}
      (h : s.patched platform template = (.ok u, s')) :
      s'.starts = s.starts ↔ template = .ok s.template := by
    cases template with
    | error e => cases h
    | ok template =>
      obtain rfl : s.patch platform template = s' := congrArg Prod.snd h
      unfold ClusterState.patch
      split
      · next heq => exact ⟨fun _ => congrArg Except.ok heq, fun _ => rfl⟩
      · next hne =>
        exact ⟨fun h => absurd h (Nat.succ_ne_self _), fun h => absurd (Except.ok.inj h) hne⟩
  cases hpatches : c.patches with
  | false =>
    have hstarts := (exec_of_not_patches platform c s hpatches).1
    rw [h] at hstarts
    refine ⟨fun _ => ?_, fun _ => hstarts⟩
    cases c <;> first | rfl | cases hpatches
  | true =>
    cases c with
    | restartDeployment reason =>
      obtain rfl : _ = s' := congrArg Prod.snd h
      refine ⟨fun h => absurd h (Nat.succ_ne_self _), fun h => ?_⟩
      have := congrArg PodTemplate.restartedAt (Except.ok.inj h)
      exact absurd this (Nat.succ_ne_self _)
    | mountSecretFile => exact hpatched h
    | unmountSecretFiles => exact hpatched h
    | _ => cases hpatches

end call

/-! ### What a program patches -/

variable {platform : Platform}

/-- Between two states exactly these patches were made: the coordinator was restarted if and only if
one of them was not what the template said. -/
structure Patched (calls : List (ClusterCall Unit)) (s s' : ClusterState) : Prop where
  le : s.starts ≤ s'.starts
  template : s'.starts = s.starts → s'.template = s.template
  iff : s'.starts = s.starts ↔ ∀ c ∈ calls, c.keeps s.template

namespace Patched

variable {s s₁ s₂ : ClusterState} {calls : List (ClusterCall Unit)}

theorem refl (s : ClusterState) : Patched [] s s := ⟨Nat.le_refl _, fun _ => rfl, by simp⟩

/-- The patches of one program, then those of another that goes by the template it finds. -/
theorem append_from {more : PodTemplate → List (ClusterCall Unit)} (h : Patched calls s s₁)
    (h' : Patched (more s₁.template) s₁ s₂) : Patched (calls ++ more s.template) s s₂ := by
  have hle := h.le
  have hle' := h'.le
  have hsplit : s₂.starts = s.starts ↔ s₁.starts = s.starts ∧ s₂.starts = s₁.starts := by omega
  refine ⟨by omega, fun heq => ?_, ?_⟩
  · obtain ⟨h₁, h₂⟩ := hsplit.mp heq
    exact (h'.template h₂).trans (h.template h₁)
  · rw [hsplit, List.forall_mem_append, h.iff]
    refine and_congr_right fun hkeeps => ?_
    rw [h'.iff, h.template (h.iff.mpr hkeeps)]

/-- The patches of one program, then those of another. -/
theorem append {more : List (ClusterCall Unit)} (h : Patched calls s s₁)
    (h' : Patched more s₁ s₂) : Patched (calls ++ more) s s₂ :=
  @append_from s s₁ s₂ calls (fun _ => more) h h'

theorem of_eq (hstarts : s₁.starts = s.starts) (htemplate : s₁.template = s.template) :
    Patched [] s s₁ := ⟨hstarts.ge, fun _ => htemplate, by simp [hstarts]⟩

end Patched

section program

variable {α : Type} {s s' : ClusterState} {r : Except Error α}

/-- A run of a program that asks for no template. -/
theorem patched_of_not_patches {p : ClusterProg α} (hp : p.All fun c => c.patches = false)
    (h : Exec (clusterMachine platform).answers p s r s') : Patched [] s s' := by
  have hkept : s'.starts = s.starts ∧ s'.template = s.template := by
    refine All.exec (I := fun after => after.starts = s.starts ∧ after.template = s.template) ?_ hp
      ⟨rfl, rfl⟩ h
    intro β c before r after hc hbefore hanswer
    obtain ⟨hstarts, htemplate⟩ := exec_of_not_patches platform c before hc
    rcases Machine.Answer.state hanswer with rfl | rfl
    · exact hbefore
    · exact ⟨hstarts.trans hbefore.1, htemplate.trans hbefore.2⟩
  exact Patched.of_eq hkept.1 hkept.2

/-- A run in which each of these calls is made and goes through. -/
theorem patched_of_each {calls : List (ClusterCall Unit)}
    (h : Exec (clusterMachine platform).answers (each calls perform) s (.ok ()) s') :
    Patched calls s s' := by
  induction calls generalizing s with
  | nil =>
    cases h
    exact .refl _
  | cons c rest ih =>
    rcases h.bind_inv with ⟨u, s₁, hc, hrest⟩ | ⟨e, he, -⟩
    · have hexec : s.exec platform c = (.ok u, s₁) :=
        (run_perform _ _).symm.trans ((strict_perform c).run_eq hc)
      obtain ⟨hle, htemplate⟩ := exec_starts platform c s
      rw [hexec] at hle htemplate
      have hone : Patched [c] s s₁ := ⟨hle, htemplate, by
        simp [exec_starts_eq_iff hexec]⟩
      exact hone.append (ih hrest)
    · cases he

end program

/-! ### The files of a Section -/

/-- The patches that delivering a Section's files makes. -/
def sectionMounts (sect : Section) (cluster : Cluster) (resources : Resources) :
    List (ClusterCall Unit) :=
  let declared := sect.coordinatorFiles cluster.settings
  match sect.renderFiles resources cluster.settings cluster.admin with
  | .ok contents => (volumesOf declared).flatMap (mountVolume cluster.settings declared contents)
  | .error _ => []

/-- The writes that delivering a Section's files makes. -/
def sectionWrites (sect : Section) (cluster : Cluster) (resources : Resources) :
    List (String × Dict) :=
  match renderSecrets sect cluster resources with
  | .ok secrets => secrets
  | .error _ => []

theorem all_writes {P : {β : Type} → ClusterCall β → Prop} {secrets : List (String × Dict)}
    (h : ∀ secret ∈ secrets, P (.writeSecret secret.1 secret.2)) :
    (each secrets fun secret => perform (.writeSecret secret.1 secret.2) :
      ClusterProg Unit).All P :=
  all_each fun secret hmem => all_perform (h secret hmem)

section deliver

variable {s s' : ClusterState} (sect : Section) (cluster : Cluster) (resources : Resources)

/-- Delivering writes the Section's Secrets and makes its patches. -/
theorem deliver_eq : deliver sect cluster resources =
    if (sect.coordinatorFiles cluster.settings).isEmpty then .ret ()
    else (ofExcept (sect.renderFiles resources cluster.settings cluster.admin)).bind fun contents =>
      (ofExcept (bySecret (sect.coordinatorFiles cluster.settings) contents)).bind fun secrets =>
        (each secrets fun secret => perform (.writeSecret secret.1 secret.2)).bind fun _ =>
          each ((volumesOf (sect.coordinatorFiles cluster.settings)).flatMap
            (mountVolume cluster.settings (sect.coordinatorFiles cluster.settings) contents))
            perform := by
  simp only [each_flatMap]
  rfl

theorem strict_deliver : (deliver sect cluster resources).Strict := by
  rw [deliver_eq]
  split
  · trivial
  · exact (strict_ofExcept _).bind fun _ => (strict_ofExcept _).bind fun _ =>
      (strict_each fun _ => strict_perform _).bind fun _ => strict_each strict_perform

variable {sect} {cluster} {resources}

/-- Delivering a Section's files, when it goes through, makes the patches of its mounts. -/
theorem patched_deliver
    (h : Exec (clusterMachine platform).answers (deliver sect cluster resources) s (.ok ()) s') :
    Patched (sectionMounts sect cluster resources) s s' := by
  unfold sectionMounts
  rw [deliver_eq] at h
  split at h
  · next hempty =>
    cases h
    rw [List.isEmpty_iff] at hempty
    simp only [hempty]
    split <;> exact .refl _
  · rcases h.bind_inv with ⟨contents, s₁, hrender, h⟩ | ⟨e, he, -⟩
    · have hcontents : sect.renderFiles resources cluster.settings cluster.admin = .ok contents :=
        congrArg Prod.fst ((run_ofExcept _ _).symm.trans ((strict_ofExcept _).run_eq hrender))
      have hs₁ : s = s₁ :=
        congrArg Prod.snd ((run_ofExcept _ _).symm.trans ((strict_ofExcept _).run_eq hrender))
      subst hs₁
      rw [hcontents]
      have hwrites : ∀ secrets : List (String × Dict), (each secrets fun secret =>
          perform (.writeSecret secret.1 secret.2) : ClusterProg Unit).All
            fun c => c.patches = false := fun secrets => all_writes fun _ _ => rfl
      rcases h.bind_inv with ⟨secrets, s₂, hsecrets, h⟩ | ⟨e, he, -⟩
      · have hs₂ : s = s₂ :=
          congrArg Prod.snd ((run_ofExcept _ _).symm.trans ((strict_ofExcept _).run_eq hsecrets))
        subst hs₂
        rcases h.bind_inv with ⟨u, s₃, hwritten, h⟩ | ⟨e, he, -⟩
        · exact (patched_of_not_patches (hwrites secrets) hwritten).append (patched_of_each h)
        · cases he
      · cases he
    · cases he

end deliver

theorem not_patches_of_catalogsOnly {settings : Settings} {β : Type} (c : ClusterCall β)
    (h : c.catalogsOnly settings) : c.patches = false := by
  cases c <;> first | rfl | exact h.elim

theorem not_patches_of_not_writes {β : Type} (c : ClusterCall β) (h : c.writes = false) :
    c.patches = false := by
  cases c <;> first | rfl | cases h

/-- A run of a program that only reads patches nothing. -/
theorem patched_of_reads {α : Type} {p : ClusterProg α} {s s' : ClusterState} {r : Except Error α}
    (hp : ReadsOnly p) (h : Exec (clusterMachine platform).answers p s r s') : Patched [] s s' :=
  patched_of_not_patches (hp.mono not_patches_of_not_writes) h

/-- A rollout restarts the coordinator. -/
theorem patched_rollOut {app : App} {reason : String} {s s' : ClusterState}
    (h : Exec (clusterMachine platform).answers (rollOut app reason) s (.ok ()) s') :
    Patched [.restartDeployment reason] s s' := by
  rcases h.bind_inv with ⟨u, s₁, hrestart, hawait⟩ | ⟨e, he, -⟩
  · have hone : Patched [.restartDeployment reason] s s₁ :=
      patched_of_each (hrestart.bind .ret)
    exact hone.append (patched_of_reads (awaitRollout_reads _ _ _) hawait)
  · cases he

/-- Whether delivering a Section's files would change what its Secrets hold. -/
def changesFiles (sect : Section) (cluster : Cluster) (resources : Resources) (s : ClusterState) :
    Except Error Bool :=
  if (sect.coordinatorFiles cluster.settings).isEmpty then .ok false
  else do
    let secrets ← renderSecrets sect cluster resources
    return secrets.any fun secret => s.secret secret.1 ≠ secret.2

theorem run_anyDiffers (secrets : List (String × Dict)) (s : ClusterState) :
    (anyDiffers secrets).run (clusterMachine platform) s =
      (.ok (secrets.any fun secret => s.secret secret.1 ≠ secret.2), s) := by
  induction secrets with
  | nil => rfl
  | cons secret rest ih =>
    show Prog.run _ (if s.secret secret.1 ≠ secret.2 then _ else _) s = _
    split
    · next h => simp [h]
    · next h =>
      rw [Decidable.not_not] at h
      simpa [h] using ih

theorem run_wouldChange (sect : Section) (cluster : Cluster) (resources : Resources)
    (s : ClusterState) : (wouldChange sect cluster resources).run (clusterMachine platform) s =
      (changesFiles sect cluster resources s, s) := by
  show Prog.run _ (if (sect.coordinatorFiles cluster.settings).isEmpty then _ else _) s = _
  unfold changesFiles
  split
  · rfl
  · unfold renderSecrets
    show Prog.run _ ((ofExcept (sect.renderFiles resources cluster.settings cluster.admin)).bind
      fun contents => (ofExcept (bySecret (sect.coordinatorFiles cluster.settings) contents)).bind
        anyDiffers) s = _
    cases sect.renderFiles resources cluster.settings cluster.admin with
    | error e => rfl
    | ok contents =>
      show Prog.run _ ((ofExcept (bySecret (sect.coordinatorFiles cluster.settings) contents)).bind
        anyDiffers) s = ((do
          let secrets ← bySecret (sect.coordinatorFiles cluster.settings) contents
          return secrets.any fun secret => s.secret secret.1 ≠ secret.2 : Except Error Bool), s)
      cases bySecret (sect.coordinatorFiles cluster.settings) contents with
      | error e => rfl
      | ok secrets => exact run_anyDiffers secrets s

/-! ### The raw files -/

/-- The coordinator mounts these raw files and no others, and their Secret holds them. -/
def rawHeld (app : App) (rawFiles : Dict) (s : ClusterState) : Bool :=
  Std.ExtTreeSet.ofList rawFiles.keys = mountedPaths app.settings s.template &&
    rawContents app rawFiles = s.secret app.settings.rawFilesSecretName

/-- The patches that delivering raw files makes. -/
def rawMounts (app : App) (rawFiles : Dict) (template : PodTemplate) : List (ClusterCall Unit) :=
  mountRaw app rawFiles (goneFrom app.settings template rawFiles)

section raw

variable {app : App} {cluster : Cluster} {s s' : ClusterState}

theorem strict_deliverRaw : (deliverRaw app cluster).Strict :=
  (strict_perform _).bind fun _ => (strict_perform _).bind fun _ => strict_each strict_perform

theorem patched_deliverRaw
    (h : Exec (clusterMachine platform).answers (deliverRaw app cluster) s (.ok ()) s') :
    Patched (rawMounts app cluster.admin.rawFiles s.template) s s' := by
  rcases h.bind_inv with ⟨u, s₁, hwrite, h⟩ | ⟨e, he, -⟩
  · have hwritten : s.exec platform (.writeSecret app.settings.rawFilesSecretName
        (rawContents app cluster.admin.rawFiles)) = (.ok u, s₁) :=
      (run_perform _ _).symm.trans ((strict_perform _).run_eq hwrite)
    rcases h.bind_inv with ⟨template, s₂, hread, h⟩ | ⟨e, he, -⟩
    · have hspec : s₁.exec platform .deploymentPodSpec = (.ok template, s₂) :=
        (run_perform _ _).symm.trans ((strict_perform _).run_eq hread)
      obtain rfl : s₁.template = template := Except.ok.inj (congrArg Prod.fst hspec)
      obtain rfl : s₁ = s₂ := congrArg Prod.snd hspec
      obtain rfl : s.writeSecret _ _ = s₁ := congrArg Prod.snd hwritten
      have hwritten : Patched [] s (s.writeSecret app.settings.rawFilesSecretName
        (rawContents app cluster.admin.rawFiles)) := Patched.of_eq rfl rfl
      exact hwritten.append (patched_of_each h)
    · cases he
  · cases he

theorem run_rawChanged (s : ClusterState) :
    (rawChanged app cluster).run (clusterMachine platform) s =
      (.ok (!rawHeld app cluster.admin.rawFiles s), s) := by
  show Prog.run _ (if Std.ExtTreeSet.ofList cluster.admin.rawFiles.keys ≠
    mountedPaths app.settings s.template then _ else _) s = _
  unfold rawHeld
  split
  · next h => simp [h]
  · next h =>
    rw [Decidable.not_not] at h
    show (Except.ok (decide (rawContents app cluster.admin.rawFiles ≠
      s.secret app.settings.rawFilesSecretName)), s) = _
    simp [h]

end raw

end Apchi.Pipeline
