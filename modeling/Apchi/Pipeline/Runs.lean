import Apchi.Pipeline.Calls
import Apchi.Pipeline.Delivery

/-!
# Runs of an Apply, taken apart

While an Apply runs nobody else writes the Cluster, whatever happens to the stores meanwhile; a run
of the pipeline is then, as far as the Cluster goes, a run of the programs that touch it, one after
the other.
-/

namespace Apchi.Pipeline

open Lib Prog

/-- What can come of the calls when nobody else writes the Cluster. -/
structure Alone (outside : Outside) (A : Answers Call World) : Prop where
  cluster : ∀ {β : Type} (op : ClusterCall β) w r w', A _ (.cluster op) w r w' →
    (clusterMachine outside.platform).answers _ op w.cluster r w'.cluster
  other : ∀ {β : Type} (c : Call β) w r w', c.kind ≠ .clusterWrite → A _ c w r w' →
    w'.cluster = w.cluster

section alone

variable {outside : Outside}

theorem exec_cluster_of_kind {β : Type} (c : Call β) (world : World)
    (h : c.kind ≠ .clusterWrite) : (world.exec outside c).2.cluster = world.cluster := by
  cases c with
  | cluster call =>
    change (if call.writes then CallKind.clusterWrite else .clusterRead) ≠ _ at h
    split at h
    · exact absurd rfl h
    · next hreads => exact ClusterState.exec_of_not_writes _ _ _ (by simpa using hreads)
  | insertApply record =>
    show (world.insertApply record).2.cluster = _
    unfold World.insertApply
    split <;> rfl
  | insertSnapshot snapshot =>
    show (world.insertSnapshot snapshot).2.cluster = _
    unfold World.insertSnapshot
    split <;> rfl
  | findAndReplaceCandidate candidate =>
    show (world.replaceCandidate outside candidate).2.cluster = _
    unfold World.replaceCandidate
    split <;> rfl
  | _ => rfl

/-- A cluster call's answer is the Cluster's. -/
theorem clusterAnswer {β : Type} {op : ClusterCall β} {w w' : World} {r : Except Error β}
    (h : (worldMachine outside).Answer (.cluster op) w r w') :
    (clusterMachine outside.platform).answers _ op w.cluster r w'.cluster := by
  cases h with
  | through => exact .through
  | lost e => exact .lost e
  | unheard e => exact .unheard e

/-- Nobody else writes the Cluster when others only touch the stores. -/
theorem alone_amid {R : World → World → Prop} (hR : ∀ w w', R w w' → w'.cluster = w.cluster) :
    Alone outside (amid R (worldMachine outside).answers) where
  cluster := by
    rintro β op w r w' ⟨w₁, hR₁, hanswer⟩
    have h := clusterAnswer hanswer
    rwa [hR _ _ hR₁] at h
  other := by
    rintro β c w r w' hkind ⟨w₁, hR₁, hanswer⟩
    rcases Machine.Answer.state hanswer with rfl | rfl
    · exact hR _ _ hR₁
    · exact (exec_cluster_of_kind c w₁ hkind).trans (hR _ _ hR₁)

theorem alone_faithful : Alone outside (worldMachine outside).faithful where
  cluster := fun _ _ _ _ h => clusterAnswer (answer_of_faithful _ h)
  other := by
    intro β c w r w' hkind h
    obtain rfl : (w.exec outside c).2 = w' := congrArg Prod.snd h
    exact exec_cluster_of_kind c w hkind

variable {A : Answers Call World} {α : Type} {w w' : World} {r : Except Error α}

/-- A run of a program on the Cluster, as the Cluster sees it. -/
theorem Alone.onCluster (halone : Alone outside A) {p : ClusterProg α}
    (h : Exec A (onCluster p) w r w') :
    Exec (clusterMachine outside.platform).answers p w.cluster r w'.cluster :=
  h.lift_inv World.cluster halone.cluster

/-- A program that does not write the Cluster leaves it as it is. -/
theorem Alone.kept (halone : Alone outside A) {p : PipelineProg α}
    (hp : OfKind (fun kind => kind ≠ .clusterWrite) p) (h : Exec A p w r w') :
    w'.cluster = w.cluster :=
  All.exec (I := fun after => after.cluster = w.cluster)
    (fun c before r after hkind hbefore hanswer =>
      (halone.other c before r after hkind hanswer).trans hbefore) hp rfl h

end alone

/-! ### One stage after the other -/

section stages

variable {A : Answers Call World} {α β : Type} {w w' : World}

theorem exec_bind_ok {p : PipelineProg α} {f : α → PipelineProg β} {b : β}
    (h : Exec A (p.bind f) w (.ok b) w') :
    ∃ a w₁, Exec A p w (.ok a) w₁ ∧ Exec A (f a) w₁ (.ok b) w' := by
  rcases h.bind_inv with hok | ⟨e, he, -⟩
  · exact hok
  · cases he

theorem exec_staged_ok {p : Staged α} {f : α → Staged β} {b : β}
    (h : Exec A (p >>= f).run w (.ok (.ok b)) w') :
    ∃ a w₁, Exec A p.run w (.ok (.ok a)) w₁ ∧ Exec A (f a).run w₁ (.ok (.ok b)) w' := by
  obtain ⟨r, w₁, hp, hf⟩ := exec_bind_ok h
  cases r with
  | ok a => exact ⟨a, w₁, hp, hf⟩
  | error failed =>
    cases hf

theorem exec_inStage_ok {stage : Stage} {p : PipelineProg α} {a : α}
    (h : Exec A (inStage stage p).run w (.ok (.ok a)) w') : Exec A p w (.ok a) w' := by
  obtain ⟨r, w₁, hp, hret⟩ := exec_bind_ok h
  obtain ⟨r', hr', hp⟩ := hp.attempt_inv
  cases hr'
  cases r with
  | ok a =>
    cases hret
    exact hp
  | error e => cases hret

variable {app : App} {outside : Outside} {kind : EngineKind} {id actor : String}

/-- What an Apply that succeeds does to the Cluster: it delivers what Validation left it, restarts
the coordinator if Validation found that needed, and verifies. -/
theorem runStages_cluster (halone : Alone outside A)
    (h : Exec A (runStages app kind id actor).run w (.ok (.ok ())) w') :
    ∃ prepared w₁ c₁, Exec A (validate app kind) w (.ok prepared) w₁ ∧
      Exec (clusterMachine outside.platform).answers (applyStage app prepared) w₁.cluster (.ok ())
        c₁ ∧
      (if prepared.rolloutNeeded then
        Exec (clusterMachine outside.platform).answers (rollOutStage app id prepared) c₁ (.ok ())
          w'.cluster
      else w'.cluster = c₁) := by
  have hadvance {stage : Stage} {u : Unit} {w w' : World}
      (h : Exec A (call (.pushStage id stage none)) w (.ok u) w') : w'.cluster = w.cluster :=
    halone.kept (all_perform (by nofun)) h
  have hrest {prepared : Prepared} {w : World}
      (h : Exec A (do
        inStage .verifying do
          call (.pushStage id .verifying none)
          onCluster (verifyStage app prepared)
        inStage .committing (commitStage kind id actor prepared) : Staged Unit).run w (.ok (.ok ()))
          w') : w'.cluster = w.cluster := by
    obtain ⟨u, w₁, hverify, hcommit⟩ := exec_staged_ok h
    obtain ⟨u', w₂, hpush, hverified⟩ := exec_bind_ok (exec_inStage_ok hverify)
    have hcommitted := halone.kept (ofKind_commitStage (by nofun) (by nofun) kind actor prepared)
      (exec_inStage_ok hcommit)
    have hreads := halone.kept (ofKind_onCluster_reads (by nofun) (verify_reads _ _ _)) hverified
    exact hcommitted.trans (hreads.trans (hadvance hpush))
  obtain ⟨prepared, w₁, hvalidating, h⟩ := exec_staged_ok h
  obtain ⟨u, w₂, happlying, h⟩ := exec_staged_ok h
  obtain ⟨prepared', w₃, hvalidate, hwarned⟩ := exec_bind_ok (exec_inStage_ok hvalidating)
  obtain ⟨u', w₄, hwarn, hret⟩ := exec_bind_ok hwarned
  cases hret
  obtain ⟨u'', w₅, hpush, happly⟩ := exec_bind_ok (exec_inStage_ok happlying)
  have hcluster : w₅.cluster = w₃.cluster :=
    (hadvance hpush).trans (halone.kept (all_perform (by nofun)) hwarn)
  have happlied := halone.onCluster happly
  rw [hcluster] at happlied
  refine ⟨_, w₃, w₂.cluster, hvalidate, happlied, ?_⟩
  split at h
  · next hneeded =>
    rw [if_pos hneeded]
    obtain ⟨u, w₆, hrolling, h⟩ := exec_staged_ok h
    obtain ⟨u', w₇, hpush, hroll⟩ := exec_bind_ok (exec_inStage_ok hrolling)
    have hrolled := halone.onCluster hroll
    rw [hadvance hpush] at hrolled
    rwa [hrest h]
  · next hneeded =>
    rw [if_neg hneeded]
    exact hrest h

end stages

end Apchi.Pipeline
