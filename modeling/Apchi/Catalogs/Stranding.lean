import Apchi.Catalogs.Rollback

/-!
# Catalogs an Apply strands

An Apply rewrites the Secret whole and drops what the Snapshot has and the Candidate does not.  A
catalog that is live and recorded, and that neither of the two names, is left live and is no longer
recorded; it disappears when the coordinator next starts from the Secret.
-/

namespace Apchi.Catalogs

open Lib Pipeline Prog

section apply

variable {platform : Platform} {cluster : Cluster} {candidate base : Resources}
  {state applied : ClusterState}

/-- An Apply of the Catalogs that has returned has issued all of its statements. -/
theorem apply_done {desired : Resources} {plan : CatalogPlan}
    (hplan : ∀ name, name ∈ plan.created ∨ name ∈ plan.replaced → name ∈ desired)
    (h : Exec (clusterMachine platform).answers (apply cluster desired plan) state (.ok ())
      applied) :
    ∃ copy, renderSecret desired = .ok copy ∧ Issued cluster.settings.catalogSecretName copy
      ((settled plan (liveNames state) (recordedIn cluster state) copy).statements
        (wanted desired)) state applied := by
  obtain ⟨copy, hcopy, h⟩ := exec_reading (all_ofExcept _) (strict_ofExcept _) h
  obtain ⟨live, hlive, h⟩ := exec_reading (all_perform rfl) (strict_perform _) h
  obtain ⟨durable, hdurable, h⟩ := exec_reading (all_perform rfl) (strict_perform _) h
  rw [run_ofExcept] at hcopy
  rw [run_perform] at hlive hdurable
  obtain rfl := Except.ok.inj (congrArg Prod.fst hlive)
  obtain rfl := Except.ok.inj (congrArg Prod.fst hdurable)
  have hrendered := congrArg Prod.fst hcopy
  refine ⟨copy, hrendered, issue_done (fun name hname => ?_) h⟩
  obtain ⟨catalog, hcatalog, -⟩ := renderSecret_of_mem hrendered
    (hplan name (hname.imp_left List.mem_of_mem_filter))
  exact ⟨catalog, hcatalog⟩

/-- A name the Candidate does not have is untouched by its Apply, or dropped if the Snapshot has
it. -/
theorem live_of_applied {copy : Dict}
    (h : Issued cluster.settings.catalogSecretName copy
      ((settled (plan candidate base) (liveNames state) (recordedIn cluster state) copy).statements
        (wanted candidate)) state applied) {name : String} (hname : name ∉ candidate) :
    liveOf applied name = if name ∈ base then none else liveOf state name := by
  rw [h.live, Plan.served_statements (distinct_settled (distinct_plan _ _) _ _ _)]
  have hcreated : name ∉ (settled (plan candidate base) (liveNames state)
      (recordedIn cluster state) copy).created := fun hmem =>
    hname (mem_of_mem_filter_keys (List.mem_of_mem_filter hmem))
  have hreplaced : name ∉ (plan candidate base).replaced := fun hmem =>
    hname (mem_of_mem_filter_keys hmem)
  have hdropped : name ∈ (plan candidate base).dropped ↔ name ∈ base := by
    simp [plan, hname]
  rw [if_neg hcreated]
  show (if name ∈ (plan candidate base).replaced then _
    else if name ∈ (plan candidate base).dropped then _ else _) = _
  rw [if_neg hreplaced, if_congr hdropped rfl rfl]

/-- `verify` reports nothing when every desired catalog is live. -/
theorem live_of_verified {desired : Resources}
    (h : (verify desired).run (clusterMachine platform) applied = (.ok [], applied)) :
    ∀ name ∈ desired, name ∈ applied.catalogs := by
  change (if (desired.keys.filter fun name => name ∉ applied.catalogs.keys).isEmpty then
    (ret [] : ClusterProg (List String)) else _).run _ _ = _ at h
  split at h
  · next hmissing =>
    intro name hname
    have hnone := List.filter_eq_nil_iff.mp (List.isEmpty_iff.mp hmissing) name
      (Std.ExtTreeMap.mem_keys.mpr hname)
    simpa using hnone
  · cases congrArg Prod.fst h

end apply

/-- The Cluster of the example after its Apply, and then without its Snapshots: the next Apply's
Candidate has `reports` only. -/
def reportsCandidate : Resources :=
  (∅ : Resources).insert "reports" (storedCatalog "memory" "memory.max-data-per-node" "128MB")

end Apchi.Catalogs
