import Apchi.Pipeline.Play
import Apchi.Pipeline.Reading

/-!
# Review predicts the restart

What Review reports, and the effect of a revert or a rollback, is compared with the Operator Apply
that follows.  An Apply restarts the coordinator exactly when a rollout-required Section moves, when
the raw files are not the ones the Cluster holds, or when one of its mounts is not what the pod
template already says; Review knows of the first reason only.
-/

namespace Apchi.Pipeline

open Lib Prog

/-! ### The Sections that move -/

/-- A rollout-required Section moves: by the plan, or because its Secrets hold something else. -/
def sectionMoves (sect : Section) (plan : SectionPlan) (cluster : Cluster) (desired : Resources)
    (s : ClusterState) : Bool :=
  sect.requiresRollout && (!plan.empty || changesFiles sect cluster desired s = .ok true)

section moves

variable {app : App} {platform : Platform} (plans : Section → SectionPlan) (desired : Sections)
  (cluster : Cluster) (s : ClusterState)

theorem run_sectionsNeedingRollout (sects : List Section) :
    (sectionsNeedingRollout plans desired cluster sects).run (clusterMachine platform) s =
      (.ok ((sects.filter fun sect =>
        sectionMoves sect (plans sect) cluster (desired sect.name) s).map Section.name), s) := by
  induction sects with
  | nil => rfl
  | cons sect rest ih =>
    have hrest {α : Type} (f : List SectionName → ClusterProg α) :
        ((sectionsNeedingRollout plans desired cluster rest).bind f).run (clusterMachine platform) s
          = (f ((rest.filter fun sect =>
              sectionMoves sect (plans sect) cluster (desired sect.name) s).map
                Section.name)).run (clusterMachine platform) s := by
      rw [run_bind, ih]
    unfold sectionsNeedingRollout
    split
    · next hrollout =>
      split
      · next hempty =>
        have hchanges : sectionMoves sect (plans sect) cluster (desired sect.name) s =
            decide (changesFiles sect cluster (desired sect.name) s = .ok true) := by
          simp [sectionMoves, hrollout, hempty]
        show ((wouldChange sect cluster (desired sect.name)).attempt.bind _).run _ s = _
        rw [run_bind, run_attempt, run_wouldChange]
        refine (hrest _).trans ?_
        rw [List.filter_cons, hchanges]
        by_cases h : changesFiles sect cluster (desired sect.name) s = .ok true <;> simp [h]
      · next hempty =>
        have hmoves : sectionMoves sect (plans sect) cluster (desired sect.name) s = true := by
          simp [sectionMoves, hrollout, hempty]
        refine (hrest _).trans ?_
        rw [List.filter_cons, hmoves]
        rfl
    · next hrollout =>
      have hmoves : sectionMoves sect (plans sect) cluster (desired sect.name) s = false := by
        simp [sectionMoves, hrollout]
      rw [ih, List.filter_cons, hmoves]
      rfl

/-- The cost says there is a restart exactly when a Section moves. -/
theorem run_costOf : ∃ cost, (costOf app plans desired cluster).run (clusterMachine platform) s =
      (.ok cost, s) ∧
    cost.restartsCoordinator = app.registered.any fun sect =>
      sectionMoves sect (plans sect) cluster (desired sect.name) s := by
  show ∃ cost, ((sectionsNeedingRollout plans desired cluster app.registered).bind _).run _ s = _ ∧ _
  rw [run_bind, run_sectionsNeedingRollout]
  generalize hmoved : app.registered.filter _ = moved
  have hany : (app.registered.any fun sect =>
      sectionMoves sect (plans sect) cluster (desired sect.name) s) = !moved.isEmpty := by
    rw [← hmoved, Bool.eq_iff_iff]
    simp [List.filter_eq_nil_iff]
  rw [hany]
  cases moved with
  | nil => exact ⟨_, rfl, rfl⟩
  | cons sect rest =>
    refine ⟨{ restartsCoordinator := true, queriesAtRisk := (platform.queriesAtRisk s).toOption
              warning := some RESTART_WARNING }, ?_, rfl⟩
    show ((perform ClusterCall.queriesAtRisk).attempt.bind _).run _ s = _
    rw [run_bind, run_attempt, run_perform]
    rfl

end moves

/-! ### The Apply that follows -/

/-- The patches an Apply makes of a pod template. -/
def applyMounts (app : App) (cluster : Cluster) (desired : Sections) (template : PodTemplate) :
    List (ClusterCall Unit) :=
  (app.registered.flatMap fun sect => sectionMounts sect cluster (desired sect.name)) ++
    rawMounts app cluster.admin.rawFiles template

section apply

variable {app : App} {outside : Outside} {platform : Platform} {prepared : Prepared}
  {s s' : ClusterState}

theorem patched_applySections {sects : List Section}
    (h : Exec (clusterMachine platform).answers (each sects fun sect => do
      deliver sect prepared.cluster (prepared.desired sect.name)
      sect.apply prepared.cluster (prepared.desired sect.name) (prepared.plans sect)) s (.ok ())
      s') :
    Patched (sects.flatMap fun sect =>
      sectionMounts sect prepared.cluster (prepared.desired sect.name)) s s' := by
  induction sects generalizing s with
  | nil =>
    cases h
    exact .refl _
  | cons sect rest ih =>
    rcases h.bind_inv with ⟨u, s₁, hsect, hrest⟩ | ⟨e, he, -⟩
    · rcases hsect.bind_inv with ⟨u', s₂, hdeliver, happly⟩ | ⟨e, he, -⟩
      · have hmore : Patched [] s₂ s₁ := patched_of_not_patches
          ((sect.apply_catalogsOnly _ _ _).mono not_patches_of_catalogsOnly) happly
        have hone := (patched_deliver hdeliver).append hmore
        rw [List.append_nil] at hone
        exact hone.append (ih hrest)
      · cases he
    · cases he

/-- The apply stage patches the mounts of every Section, then those of the raw files. -/
theorem patched_applyStage
    (h : Exec (clusterMachine platform).answers (applyStage app prepared) s (.ok ()) s') :
    Patched (applyMounts app prepared.cluster prepared.desired s.template) s s' := by
  rcases h.bind_inv with ⟨u, s₁, hsections, hraw⟩ | ⟨e, he, -⟩
  · exact @Patched.append_from _ _ _ _
      (fun template => rawMounts app prepared.cluster.admin.rawFiles template)
      (patched_applySections hsections) (patched_deliverRaw hraw)
  · cases he

/-- What Validation leaves for an Operator Apply of the world as it is. -/
def World.preparedFor (world : World) (app : App) (warnings : List ValidationFailure) : Prepared :=
  let candidate := world.currentCandidate
  { cluster := world.handed app
    desired := candidate.sections
    current := world.baseline
    rollout := (app.registered.filter fun sect =>
      sectionMoves sect (plansOf candidate.sections world.baseline sect) (world.handed app)
        (candidate.sections sect.name) world.cluster).map Section.name
    rawFilesChanged := !rawHeld app world.adminValues.rawFiles world.cluster
    warnings := warnings }

/-- A rollout-required Section moves, from the Candidate's plan or from what its Secrets hold. -/
def World.sectionsMove (world : World) (app : App) : Bool :=
  app.registered.any fun sect =>
    sectionMoves sect (plansOf world.currentCandidate.sections world.baseline sect)
      (world.handed app) (world.currentCandidate.sections sect.name) world.cluster

theorem run_validate {world world' : World}
    (h : Exec (worldMachine outside).faithful (validate app .operator) world (.ok prepared)
      world') : world' = world ∧ ∃ warnings, prepared = world.preparedFor app warnings := by
  have hread {α : Type} {p : PipelineProg α} {a b : α} {w w' : World}
      (h : Exec (worldMachine outside).faithful p w (.ok a) w')
      (hrun : p.run (worldMachine outside) w = (.ok b, w)) : a = b ∧ w' = w := by
    have h := (exec_faithful_iff p).mp h
    rw [hrun] at h
    exact ⟨(Except.ok.inj (congrArg Prod.fst h)).symm, (congrArg Prod.snd h).symm⟩
  have hchecked {β : Type} {c : Call β} {b : β} {w w' : World}
      (h : Exec (worldMachine outside).faithful (call c) w (.ok b) w')
      (hc : (w.exec outside c).2 = w) : w' = w := by
    have h := (exec_faithful_iff _).mp h
    rw [run_perform] at h
    exact (congrArg Prod.snd h).symm.trans hc
  obtain ⟨u, w₁, hcheck, h₁⟩ := exec_bind_ok h
  obtain rfl := hchecked hcheck rfl
  obtain ⟨cluster, w₂, hfreeze, h₂⟩ := exec_bind_ok h₁
  obtain ⟨rfl, rfl⟩ := hread hfreeze (run_freezeAdminValues _)
  obtain ⟨sections, w₃, hdesired, h₃⟩ := exec_bind_ok h₂
  obtain ⟨rfl, rfl⟩ := hread hdesired (run_desiredAndBaseline _)
  obtain ⟨rollout, w₄, hrollout, h₄⟩ := exec_bind_ok h₃
  obtain ⟨rfl, rfl⟩ := hread hrollout
    ((run_onCluster _ _).trans (by rw [run_sectionsNeedingRollout]))
  obtain ⟨changed, w₅, hchanged, h₅⟩ := exec_bind_ok h₄
  obtain ⟨rfl, rfl⟩ := hread hchanged ((run_onCluster _ _).trans (by rw [run_rawChanged]))
  obtain ⟨warnings, w₆, hwarnings, h₆⟩ := exec_bind_ok h₅
  obtain rfl := hchecked hwarnings rfl
  cases h₆
  exact ⟨rfl, warnings, rfl⟩

/-- An Apply has nothing to restart the coordinator for but its Sections: the raw files are the ones
the Cluster holds, and every mount is what the pod template already says. -/
def World.restartsForSectionsOnly (world : World) (app : App) : Prop :=
  rawHeld app world.adminValues.rawFiles world.cluster = true ∧
    ∀ c ∈ applyMounts app (world.handed app) world.currentCandidate.sections
      world.cluster.template, c.keeps world.cluster.template

theorem rolloutNeeded_preparedFor (world : World) (warnings : List ValidationFailure) :
    (world.preparedFor app warnings).rolloutNeeded =
      (world.sectionsMove app || !rawHeld app world.adminValues.rawFiles world.cluster) := by
  unfold Prepared.rolloutNeeded World.preparedFor World.sectionsMove
  rw [Bool.eq_iff_iff]
  simp [List.filter_eq_nil_iff]

/-- An Operator Apply that succeeds restarts the coordinator exactly when a rollout-required Section
moves or there is something else to restart it for. -/
theorem apply_restarts_iff {id actor : String} {world done : World}
    (h : (runStages app .operator id actor).run.run (worldMachine outside) world =
      (.ok (.ok ()), done)) :
    world.cluster.starts < done.cluster.starts ↔
      (world.sectionsMove app = true ∨ ¬ world.restartsForSectionsOnly app) := by
  obtain ⟨prepared, w₁, c₁, hvalidate, happly, hroll⟩ :=
    runStages_cluster alone_faithful ((exec_faithful_iff _).mpr h)
  obtain ⟨rfl, warnings, rfl⟩ := run_validate hvalidate
  have hpatched := patched_applyStage happly
  have hle := hpatched.le
  rw [rolloutNeeded_preparedFor] at hroll
  split at hroll
  · next hneeded =>
    have hrestart := patched_rollOut hroll
    have hne : done.cluster.starts ≠ c₁.starts := fun heq => by
      have hkeeps := hrestart.iff.mp heq _ (List.mem_singleton_self _)
      exact absurd (congrArg PodTemplate.restartedAt (Except.ok.inj hkeeps)) (Nat.succ_ne_self _)
    have hle' := hrestart.le
    refine ⟨fun _ => ?_, fun _ => by omega⟩
    rcases Bool.or_eq_true_iff.mp hneeded with hmoves | hheld
    · exact Or.inl hmoves
    · exact Or.inr fun hsections => by simp [hsections.1] at hheld
  · next hnot =>
    simp only [Bool.or_eq_true, not_or, Bool.not_eq_true, Bool.not_eq_false'] at hnot
    have hlt : w₁.cluster.starts < done.cluster.starts ↔ ¬ c₁.starts = w₁.cluster.starts := by
      rw [hroll]
      omega
    have hmounts : (∀ c ∈ applyMounts app (w₁.handed app) w₁.currentCandidate.sections
        w₁.cluster.template, c.keeps w₁.cluster.template) ↔ w₁.restartsForSectionsOnly app :=
      ⟨fun hkeeps => ⟨hnot.2, hkeeps⟩, fun h => h.2⟩
    rw [hlt, hpatched.iff, hnot.1]
    exact (not_congr hmounts).trans (by simp)

end apply

/-! ### What is reported -/

/-- What reports the cost of an Apply of the Candidate. -/
inductive Forecast where
  | review
  | sectionRevert (actor : String) (name : SectionName) (number : Nat)
  | fullRollback (actor : String) (number : Nat)

/-- The cost reported. -/
def Forecast.cost (app : App) : Forecast → PipelineProg ApplyCost
  | review => do
      let reviewed ← Pipeline.review app
      pure reviewed.cost
  | sectionRevert actor name number => do
      let effect ← Pipeline.sectionRevert app actor name number
      pure effect.cost
  | fullRollback actor number => do
      let effect ← Pipeline.fullRollback app actor number
      pure effect.cost

section forecast

variable {app : App} {outside : Outside} {world staged : World}

/-- A program that reads. -/
abbrev Reads (outside : Outside) {α : Type} (p : PipelineProg α) : Prop :=
  p.All fun c => ∀ world, (World.exec outside c world).2 = world

theorem Reads.world_eq {α : Type} {p : PipelineProg α} (hp : Reads outside p) {r : Except Error α}
    (h : Exec (worldMachine outside).faithful p world r staged) : staged = world :=
  All.exec (I := fun after => after = world)
    (fun _ _ _ _ hc hbefore hanswer => ((congrArg Prod.snd hanswer).symm.trans (hc _)).trans hbefore)
    hp rfl h

theorem reads_operatorMutationAllowed : Reads outside operatorMutationAllowed := by
  refine All.bind (All.bind (all_perform fun _ => rfl) fun state => ?_) fun _ =>
    All.bind (all_perform fun _ => rfl) fun found => ?_
  · show Prog.All _ (if state.engaged then _ else _ : PipelineProg Unit)
    split <;> trivial
  · cases found <;> trivial

theorem reads_sectionsOf (number : Option Nat) : Reads outside (sectionsOf number) := by
  cases number with
  | none => trivial
  | some number =>
    refine All.bind (all_perform fun _ => rfl) fun found => ?_
    cases found <;> trivial

theorem reads_snapshotSections (number : Nat) : Reads outside (snapshotSections number) := by
  refine All.bind (all_perform fun _ => rfl) fun found => ?_
  cases found with
  | none => trivial
  | some _ => exact reads_sectionsOf _

theorem saveCandidateAs_world {actor category action : String} {detail : Option String}
    {candidate : Candidate} {u : Unit}
    (h : Exec (worldMachine outside).faithful
      (saveCandidateAs actor category action detail candidate) world (.ok u) staged) :
    ∃ audit, staged = { world with candidate := some candidate, audit := audit } := by
  obtain ⟨previous, w₁, hreplace, haudit⟩ := exec_bind_ok h
  have hreplaced := (exec_faithful_iff _).mp hreplace
  have haudited := (exec_faithful_iff _).mp haudit
  rw [run_perform] at hreplaced haudited
  have hw₁ : (world.replaceCandidate outside candidate) = (.ok previous, w₁) := hreplaced
  obtain rfl : { w₁ with audit := w₁.audit ++ _ } = staged := congrArg Prod.snd haudited
  unfold World.replaceCandidate at hw₁
  split at hw₁
  · obtain rfl : _ = w₁ := congrArg Prod.snd hw₁
    exact ⟨_, rfl⟩
  · cases hw₁

/-- The cost of the Candidate as it stands says there is a restart exactly when a Section moves. -/
theorem costOf_reported {cost : ApplyCost}
    (h : Exec (worldMachine outside).faithful (onCluster (costOf app
      (plansOf world.currentCandidate.sections world.baseline) world.currentCandidate.sections
      (world.handed app))) world (.ok cost) staged) :
    staged = world ∧ cost.restartsCoordinator = world.sectionsMove app := by
  obtain ⟨cost', hcost, hmoves⟩ := @run_costOf app outside.platform
    (plansOf world.currentCandidate.sections world.baseline) world.currentCandidate.sections
    (world.handed app) world.cluster
  have hrun := (exec_faithful_iff _).mp h
  rw [run_onCluster, hcost] at hrun
  obtain rfl : cost' = cost := Except.ok.inj (congrArg Prod.fst hrun)
  exact ⟨(congrArg Prod.snd hrun).symm, hmoves⟩

/-- The effect's cost is that of the Candidate staged. -/
theorem effect_reported {candidate : Candidate} {cluster : Cluster} {number : Nat}
    {sections : List SectionName} {othersStayAt : Option Nat} {summaryFor : String}
    {reported : RevertEffect}
    (h : Exec (worldMachine outside).faithful
      (effect app candidate cluster number sections othersStayAt summaryFor) world
      (.ok reported) staged)
    (hcandidate : world.currentCandidate = candidate) (hcluster : world.handed app = cluster) :
    staged = world ∧ reported.cost.restartsCoordinator = world.sectionsMove app := by
  subst hcandidate hcluster
  obtain ⟨baseline, w₁, hbaseline, h₁⟩ := exec_bind_ok h
  have hread := (exec_faithful_iff _).mp hbaseline
  rw [run_sectionsOf] at hread
  obtain rfl : world.baseline = baseline := Except.ok.inj (congrArg Prod.fst hread)
  obtain rfl : world = w₁ := congrArg Prod.snd hread
  obtain ⟨cost, w₂, hcost, h₂⟩ := exec_bind_ok h₁
  cases h₂
  exact costOf_reported hcost

/-- What is reported is whether a rollout-required Section moves, with what is staged. -/
theorem Forecast.reported {forecast : Forecast} {cost : ApplyCost}
    (h : (forecast.cost app).run (worldMachine outside) world = (.ok cost, staged)) :
    cost.restartsCoordinator = staged.sectionsMove app := by
  have hgate {u : Unit} {w w' : World}
      (h : Exec (worldMachine outside).faithful operatorMutationAllowed w (.ok u) w') : w' = w :=
    reads_operatorMutationAllowed.world_eq h
  have hfreeze {cluster : Cluster} {w w' : World}
      (h : Exec (worldMachine outside).faithful (freezeAdminValues app) w (.ok cluster) w') :
      w' = w ∧ w.handed app = cluster := by
    have hrun := (exec_faithful_iff _).mp h
    rw [run_freezeAdminValues] at hrun
    exact ⟨(congrArg Prod.snd hrun).symm, Except.ok.inj (congrArg Prod.fst hrun)⟩
  have hload {candidate : Candidate} {w w' : World}
      (h : Exec (worldMachine outside).faithful loadCandidate w (.ok candidate) w') :
      w' = w ∧ w.currentCandidate = candidate := by
    have hrun := (exec_faithful_iff _).mp h
    rw [run_loadCandidate] at hrun
    exact ⟨(congrArg Prod.snd hrun).symm, Except.ok.inj (congrArg Prod.fst hrun)⟩
  have h := (exec_faithful_iff _).mpr h
  cases forecast with
  | review =>
    obtain ⟨reviewed, w₁, h₁, hret⟩ := exec_bind_ok h
    cases hret
    obtain ⟨cluster, w₂, hcluster, h₂⟩ := exec_bind_ok h₁
    obtain ⟨rfl, rfl⟩ := hfreeze hcluster
    obtain ⟨candidate, w₃, hcandidate, h₃⟩ := exec_bind_ok h₂
    obtain ⟨rfl, rfl⟩ := hload hcandidate
    obtain ⟨baseline, w₄, hbaseline, h₄⟩ := exec_bind_ok h₃
    have hread := (exec_faithful_iff _).mp hbaseline
    rw [run_sectionsOf] at hread
    obtain rfl : World.baseline _ = baseline := Except.ok.inj (congrArg Prod.fst hread)
    obtain rfl := congrArg Prod.snd hread
    obtain ⟨cost, w₅, hcost, h₅⟩ := exec_bind_ok h₄
    cases h₅
    obtain ⟨rfl, hmoves⟩ := costOf_reported hcost
    exact hmoves
  | sectionRevert actor name number =>
    obtain ⟨reported, w₁, h₁, hret⟩ := exec_bind_ok h
    cases hret
    obtain ⟨u, w₂, hallowed, h₂⟩ := exec_bind_ok h₁
    obtain rfl := hgate hallowed
    obtain ⟨cluster, w₃, hcluster, h₃⟩ := exec_bind_ok h₂
    obtain ⟨rfl, rfl⟩ := hfreeze hcluster
    obtain ⟨restored, w₄, hrestored, h₄⟩ := exec_bind_ok h₃
    obtain rfl := (reads_snapshotSections number).world_eq hrestored
    obtain ⟨candidate, w₅, hcandidate, h₅⟩ := exec_bind_ok h₄
    obtain ⟨rfl, rfl⟩ := hload hcandidate
    obtain ⟨u', w₆, hsave, h₆⟩ := exec_bind_ok h₅
    obtain ⟨audit, rfl⟩ := saveCandidateAs_world hsave
    obtain ⟨rfl, hmoves⟩ := effect_reported h₆ rfl rfl
    exact hmoves
  | fullRollback actor number =>
    obtain ⟨reported, w₁, h₁, hret⟩ := exec_bind_ok h
    cases hret
    obtain ⟨u, w₂, hallowed, h₂⟩ := exec_bind_ok h₁
    obtain rfl := hgate hallowed
    obtain ⟨cluster, w₃, hcluster, h₃⟩ := exec_bind_ok h₂
    obtain ⟨rfl, rfl⟩ := hfreeze hcluster
    obtain ⟨restored, w₄, hrestored, h₄⟩ := exec_bind_ok h₃
    obtain rfl := (reads_snapshotSections number).world_eq hrestored
    obtain ⟨candidate, w₅, hcandidate, h₅⟩ := exec_bind_ok h₄
    obtain ⟨rfl, rfl⟩ := hload hcandidate
    obtain ⟨u', w₆, hsave, h₆⟩ := exec_bind_ok h₅
    obtain ⟨audit, rfl⟩ := saveCandidateAs_world hsave
    obtain ⟨rfl, hmoves⟩ := effect_reported h₆ rfl rfl
    exact hmoves

end forecast

/-- What Review, a revert or a rollback reports is what the Operator Apply of the Candidate does, if
and only if a rollout-required Section moves or the Apply has nothing else to restart for. -/
theorem forecast_predicts_restart_iff (app : App) (outside : Outside) (forecast : Forecast)
    (id actor : String) {cost : ApplyCost} {world staged done : World}
    (hforecast : (forecast.cost app).run (worldMachine outside) world = (.ok cost, staged))
    (happly : (runStages app .operator id actor).run.run (worldMachine outside) staged =
      (.ok (.ok ()), done)) :
    (cost.restartsCoordinator = true ↔ staged.cluster.starts < done.cluster.starts) ↔
      staged.sectionsMove app = true ∨ staged.restartsForSectionsOnly app := by
  rw [Forecast.reported hforecast, apply_restarts_iff happly]
  cases staged.sectionsMove app <;> simp

/-- One listener. -/
def oneListener : Resources :=
  .ofList [("audit", Json.obj [("type", .str "http"),
    ("properties", .obj [("http-event-listener.connect-ingest-uri", .str "http://audit")])])]

/-- A Candidate with one listener, on a Cluster that has none. -/
def listenerWorld : World :=
  let candidate : Candidate :=
    ⟨none, fun name => if name = .eventListeners then oneListener else ∅⟩
  { freshWorld with candidate := some candidate }

/-- An Admin's raw file that has not been delivered yet. -/
def rawFileWorld : World :=
  { freshWorld with
    admin := some { rawFiles := .ofList [("/etc/trino/node.properties", "node.id=one
")] } }

/-- Review, and the Apply that follows it, one after the other. -/
def reviewThenApply (app : App) (world : World) (outside : Outside)
    (check : ApplyCost → World → World → Bool) : Bool :=
  match ((Forecast.review.cost app).run (worldMachine outside) world) with
  | (.ok cost, staged) =>
      match (runStages app .operator "a1" "bob").run.run (worldMachine outside) staged with
      | (.ok (.ok ()), done) => check cost staged done
      | _ => false
  | _ => false

theorem reviewThenApply_runs {app : App} {world : World} {outside : Outside}
    {check : ApplyCost → World → World → Bool} (h : reviewThenApply app world outside check = true) :
    ∃ cost staged done,
      (Forecast.review.cost app).run (worldMachine outside) world = (.ok cost, staged) ∧
      (runStages app .operator "a1" "bob").run.run (worldMachine outside) staged =
        (.ok (.ok ()), done) ∧ check cost staged done = true := by
  unfold reviewThenApply at h
  split at h
  · next cost staged hreview =>
    split at h
    · next done happly => exact ⟨cost, staged, done, hreview, happly, h⟩
    · cases h
  · cases h

/-- A listener is added: Review says so, and the Apply restarts the coordinator. -/
theorem forecast_predicts_restart_iff_listener : ∃ cost staged done,
    (Forecast.review.cost smallApp).run (worldMachine quietOutside) listenerWorld =
      (.ok cost, staged) ∧
    (runStages smallApp .operator "a1" "bob").run.run (worldMachine quietOutside) staged =
      (.ok (.ok ()), done) ∧
    cost.restartsCoordinator = true ∧
    ((cost.restartsCoordinator = true ↔ staged.cluster.starts < done.cluster.starts) ↔
      staged.sectionsMove smallApp = true ∨ staged.restartsForSectionsOnly smallApp) := by
  obtain ⟨cost, staged, done, hreview, happly, hcost⟩ := reviewThenApply_runs
    (show reviewThenApply smallApp listenerWorld quietOutside
      (fun cost _ _ => cost.restartsCoordinator) = true by decide +kernel)
  exact ⟨cost, staged, done, hreview, happly, hcost,
    forecast_predicts_restart_iff smallApp quietOutside .review "a1" "bob" hreview happly⟩

/-- A raw file is still to be delivered: Review says nothing is restarted, and the Apply restarts the
coordinator. -/
theorem review_misses_rawFile : ∃ cost staged done,
    (Forecast.review.cost smallApp).run (worldMachine quietOutside) rawFileWorld =
      (.ok cost, staged) ∧
    (runStages smallApp .operator "a1" "bob").run.run (worldMachine quietOutside) staged =
      (.ok (.ok ()), done) ∧
    cost.restartsCoordinator = false ∧ staged.cluster.starts < done.cluster.starts := by
  obtain ⟨cost, staged, done, hreview, happly, h⟩ := reviewThenApply_runs
    (show reviewThenApply smallApp rawFileWorld quietOutside (fun cost staged done =>
      !cost.restartsCoordinator && decide (staged.cluster.starts < done.cluster.starts)) = true by
        decide +kernel)
  simp only [Bool.and_eq_true, Bool.not_eq_true', decide_eq_true_eq] at h
  exact ⟨cost, staged, done, hreview, happly, h⟩

end Apchi.Pipeline
