import Apchi.Catalogs.Rollback

/-!
# Rollbacks of the Catalogs that are interrupted and repeated

A rollback overwrites the Secret, which it reads what to undo from, before its first statement.  So
what an interrupted one left to undo is undone by the next only if it was interrupted before that,
or if all that is left to do is to create what is missing.
-/

namespace Apchi.Catalogs

open Lib Pipeline Prog

/-- A rollback of the Catalogs is begun, and stops somewhere. -/
def Interrupted (platform : Platform) (cluster : Cluster) (snapshot : Resources)
    (state state' : ClusterState) : Prop :=
  ∃ rest, Stops (clusterMachine platform).answers (restore cluster snapshot) state rest state'

section repeated

variable {platform : Platform} {cluster : Cluster} {snapshot desired : Resources} {copy : Dict}
  {unmanaged : String → Option LiveCatalog} {state state' : ClusterState}

/-- How far interrupted rollbacks have come from where the first began: nowhere, or the Secret says
what the Snapshot has, and under each name there is what there was, or, if there was something to
do, nothing or what the Snapshot has. -/
def Underway (cluster : Cluster) (snapshot : Resources) (copy : Dict)
    (start state : ClusterState) : Prop :=
  state = start ∨ recordedIn cluster state = copy ∧
    ∀ name, liveOf state name = liveOf start name ∨
      Undoes cluster copy start name ∧
        (liveOf state name = none ∨ liveOf state name = catalogOf snapshot name)

theorem Underway.live {start : ClusterState} (h : Underway cluster snapshot copy start state)
    (name : String) : liveOf state name = liveOf start name ∨ Undoes cluster copy start name ∧
      (liveOf state name = none ∨ liveOf state name = catalogOf snapshot name) := by
  rcases h with rfl | ⟨-, h⟩
  · exact Or.inl rfl
  · exact h name

/-- A rollback that stops brings no more than some of what there was to do. -/
theorem Underway.interrupted {start : ClusterState} (hcopy : renderSecret snapshot = .ok copy)
    (h : Underway cluster snapshot copy start state)
    (hstops : Interrupted platform cluster snapshot state state') :
    Underway cluster snapshot copy start state' := by
  obtain ⟨rest, hstops⟩ := hstops
  rcases (restore_stops hcopy hstops).2 with rfl | ⟨done, rest, hsplit, hissued⟩
  · exact h
  refine Or.inr ⟨hissued.recorded, fun name => ?_⟩
  -- What this rollback did under the name, it had to do.
  have hmine : liveOf state' name = liveOf state name ∨ Undoes cluster copy state name ∧
      (liveOf state' name = none ∨ liveOf state' name = catalogOf snapshot name) := by
    have hprefix := Plan.served_prefix (liveOf state)
      (distinct_rollbackPlan snapshot (liveNames state) (recordedIn cluster state) copy) hsplit name
    simp only [← hissued.live] at hprefix
    rcases hprefix with hsame | ⟨hmem, hold⟩ | ⟨hmem, hchanged⟩ | ⟨hmem, hnone⟩
    · exact Or.inl hsame
    · rw [some_wanted hcopy (mem_of_mem_filter_keys hmem)] at hold
      have hfree := of_decide_eq_true (List.mem_filter.mp hmem).2
      rw [mem_liveNames, not_not] at hfree
      exact Or.inr ⟨Or.inr hfree, Or.inr hold⟩
    · rw [some_wanted hcopy (mem_of_mem_filter_keys hmem)] at hchanged
      exact Or.inr ⟨Or.inl (of_decide_eq_true (List.mem_filter.mp hmem).2).2, hchanged⟩
    · obtain ⟨hname, hnamed⟩ := of_decide_eq_true (List.mem_filter.mp hmem).2
      refine Or.inr ⟨Or.inl ?_, Or.inl hnone⟩
      rwa [renderSecret_file hcopy, catalogOf_eq_none hname, Option.map_none]
  rcases h with rfl | ⟨hrecorded, hunderway⟩
  · exact hmine
  · rcases hmine with hsame | ⟨hundoes, hchanged⟩
    · rw [hsame]
      exact hunderway name
    · -- The Secret says what the Snapshot has, so there was nothing live under the name.
      have hnone : liveOf state name = none :=
        hundoes.resolve_left fun hdiffers => hdiffers (by rw [hrecorded])
      refine Or.inr ⟨?_, hchanged⟩
      rcases hunderway name with hstart | ⟨hundid, -⟩
      · exact Or.inr (hstart ▸ hnone)
      · exact hundid

/-- What is live under the names of the Snapshot and the Candidate has the Snapshot's rendering. -/
def Cleared (snapshot desired : Resources) (state : ClusterState) : Prop :=
  ∀ name, name ∈ snapshot ∨ name ∈ desired → ∀ catalog, liveOf state name = some catalog →
    (catalogOf snapshot name).map renderProperties = some (renderProperties catalog)

/-- What a rollback begins with: each catalog live under a name of the Snapshot or the Candidate is
the Snapshot's or as the Secret says, and the Secret differs from the Snapshot's under those names
only. -/
structure Known (cluster : Cluster) (snapshot desired : Resources) (copy : Dict)
    (state : ClusterState) : Prop where
  live : ∀ name, name ∈ snapshot ∨ name ∈ desired → ∀ catalog, liveOf state name = some catalog →
    catalogOf snapshot name = some catalog ∨
      (recordedIn cluster state)[keyOf name]? = some (renderProperties catalog)
  recorded : ∀ name, (recordedIn cluster state)[keyOf name]? ≠ copy[keyOf name]? →
    name ∈ snapshot ∨ name ∈ desired

theorem known_of_apply_stops (hcopy : renderSecret snapshot = .ok copy)
    (hunmanaged : ∀ name, name ∈ snapshot ∨ name ∈ desired → unmanaged name = none)
    (hserving : liveOf state = serving snapshot unmanaged)
    (hrecorded : recordedIn cluster state = copy) {rest : ClusterProg Unit}
    (h : Stops (clusterMachine platform).answers
      (apply cluster desired (plan desired snapshot)) state rest state') :
    Known cluster snapshot desired copy state' := by
  rcases torn_of_apply_stops hunmanaged hserving h with rfl | ⟨htorn, hwanted⟩
  · refine ⟨fun name hname catalog hlive => Or.inl ?_,
      fun name hdiffers => absurd (by rw [hrecorded]) hdiffers⟩
    rwa [hserving, serving, hunmanaged name hname, Option.or_none] at hlive
  · refine ⟨fun name hname catalog hlive => ?_, fun name hdiffers => ?_⟩
    · rcases htorn.inside name hname with hnone | hold | hnew
      · rw [hnone] at hlive
        cases hlive
      · exact Or.inl (hold.symm.trans hlive)
      · refine Or.inr ?_
        rw [renderSecret_file hwanted, hnew.symm.trans hlive]
        rfl
    · by_contra hneither
      obtain ⟨hname, hdesired⟩ := not_or.mp hneither
      refine hdiffers ?_
      rw [renderSecret_file hcopy, renderSecret_file hwanted, catalogOf_eq_none hname,
        catalogOf_eq_none hdesired]

/-- Once the Secret says what the Snapshot has, what is left to do under every name is at most to
create it, if and only if nothing of the Apply is live any more. -/
theorem cleared_iff {start : ClusterState} (hcopy : renderSecret snapshot = .ok copy)
    (hknown : Known cluster snapshot desired copy start)
    (h : Underway cluster snapshot copy start state) :
    Cleared snapshot desired state ↔ ∀ name, Undoes cluster copy start name →
      liveOf state name = none ∨ liveOf state name = catalogOf snapshot name := by
  constructor
  · intro hcleared name hundoes
    rcases h.live name with hstart | ⟨-, hchanged⟩
    · by_contra hneither
      obtain ⟨hlive, hother⟩ := not_or.mp hneither
      obtain ⟨catalog, hcatalog⟩ := Option.ne_none_iff_exists'.mp hlive
      have hdiffers := hundoes.resolve_right (hstart ▸ hlive)
      have hinside := hknown.recorded name hdiffers
      rcases hknown.live name hinside catalog (hstart.symm.trans hcatalog) with hold | hsaid
      · exact hother (hcatalog.trans hold.symm)
      · refine hdiffers ?_
        rw [hsaid, renderSecret_file hcopy, hcleared name hinside catalog hcatalog]
    · exact hchanged
  · intro hdone name hinside catalog hcatalog
    by_cases hundoes : Undoes cluster copy start name
    · have hold := (hdone name hundoes).resolve_left (by simp [hcatalog])
      rw [← hold, hcatalog]
      rfl
    · have hstart := (h.live name).resolve_right fun hchanged => hundoes hchanged.1
      rcases hknown.live name hinside catalog (hstart.symm.trans hcatalog) with hold | hsaid
      · rw [hold]
        rfl
      · have hsame := not_not.mp (not_or.mp hundoes).1
        rwa [hsaid, renderSecret_file hcopy, eq_comm] at hsame

end repeated

/-- A rollback of the Catalogs that was interrupted any number of times ends where an uninterrupted
one does, if and only if, by the last interruption, the Secret does not say what the Snapshot has or
nothing of the Apply is live any more. -/
theorem catalog_rollback_repeats_iff (platform : Platform) (cluster : Cluster)
    (snapshot desired : Resources) (copy : Dict) (unmanaged : String → Option LiveCatalog)
    (hcopy : renderSecret snapshot = .ok copy)
    (hunmanaged : ∀ name, name ∈ snapshot ∨ name ∈ desired → unmanaged name = none)
    {state stopped interrupted single last : ClusterState} {rest : ClusterProg Unit}
    {changed changed' : Bool} (hserving : liveOf state = serving snapshot unmanaged)
    (hrecorded : recordedIn cluster state = copy)
    (hstopped : Stops (clusterMachine platform).answers
      (apply cluster desired (plan desired snapshot)) state rest stopped)
    (hattempts : Relation.ReflTransGen (Interrupted platform cluster snapshot) stopped interrupted)
    (hsingle : Exec (clusterMachine platform).answers (restore cluster snapshot) stopped
      (.ok changed) single)
    (hlast : Exec (clusterMachine platform).answers (restore cluster snapshot) interrupted
      (.ok changed') last) :
    (last.catalogs = single.catalogs ∧ recordedIn cluster last = recordedIn cluster single) ↔
      (recordedIn cluster interrupted = copy → Cleared snapshot desired interrupted) := by
  have hknown := known_of_apply_stops hcopy hunmanaged hserving hrecorded hstopped
  have hunderway : Underway cluster snapshot copy stopped interrupted := by
    clear hlast
    induction hattempts with
    | refl => exact Or.inl rfl
    | tail _ hattempt ih => exact ih.interrupted hcopy hattempt
  have hsingle := restore_done hcopy hsingle
  have hlast := restore_done hcopy hlast
  have hsame : recordedIn cluster last = recordedIn cluster single :=
    (hlast.recorded : recordedIn cluster last = copy).trans hsingle.recorded.symm
  have hcatalogs : last.catalogs = single.catalogs ↔ ∀ name, liveOf last name = liveOf single name :=
    ⟨fun h name => by rw [liveOf, liveOf, h], Std.ExtTreeMap.ext_getElem?⟩
  rw [and_iff_left hsame, hcatalogs]
  by_cases hsaid : recordedIn cluster interrupted = copy
  · have hlive (name : String) : liveOf last name =
        if liveOf interrupted name = none then catalogOf snapshot name
        else liveOf interrupted name := by
      rw [live_of_restored hcopy hlast]
      simp [Undoes, hsaid]
    rw [show (_ → Cleared snapshot desired interrupted) ↔ _ from forall_prop_of_true hsaid,
      cleared_iff hcopy hknown hunderway]
    refine forall_congr' fun name => ?_
    rw [hlive, live_of_restored hcopy hsingle]
    by_cases hundoes : Undoes cluster copy stopped name
    · rw [if_pos hundoes, forall_prop_of_true hundoes]
      split
      · next hnone => simp [hnone]
      · next hnone => simp [hnone]
    · have hsame := (hunderway.live name).resolve_right fun hchanged => hundoes hchanged.1
      have hthere : liveOf interrupted name ≠ none := hsame ▸ (not_or.mp hundoes).2
      rw [if_neg hundoes, if_neg hthere]
      exact ⟨fun _ h => absurd h hundoes, fun _ => hsame⟩
  · obtain rfl : interrupted = stopped := hunderway.resolve_right fun h => hsaid h.1
    refine ⟨fun _ h => absurd h hsaid, fun _ name => ?_⟩
    rw [live_of_restored hcopy hlast, live_of_restored hcopy hsingle]

/-- The Cluster after the whole Apply. -/
def salesApplied : ClusterState :=
  (stepping (clusterMachine quietPlatform) 9
    (apply ⟨{}, {}⟩ salesCandidate (plan salesCandidate salesSnapshot)) salesCluster).2

/-- The Cluster after the first calls of a rollback. -/
def salesRollback (calls : Nat) (state : ClusterState) : ClusterState :=
  (stepping (clusterMachine quietPlatform) calls (restore ⟨{}, {}⟩ salesSnapshot) state).2

theorem stops_salesApplied : ∃ rest, Stops (clusterMachine quietPlatform).answers
    (apply ⟨{}, {}⟩ salesCandidate (plan salesCandidate salesSnapshot)) salesCluster rest
    salesApplied :=
  ⟨_, stops_stepping 9 _ _⟩

theorem interrupted_salesRollback (calls : Nat) (state : ClusterState) :
    Interrupted quietPlatform ⟨{}, {}⟩ salesSnapshot state (salesRollback calls state) :=
  ⟨_, stops_stepping calls _ _⟩

/-- A rollback that has been left to return. -/
theorem exec_salesRollback {state : ClusterState} (changed : Bool)
    (h : ((restore ⟨{}, {}⟩ salesSnapshot).run (clusterMachine quietPlatform) state).1 =
      .ok changed) :
    Exec (clusterMachine quietPlatform).answers (restore ⟨{}, {}⟩ salesSnapshot) state (.ok changed)
      ((restore ⟨{}, {}⟩ salesSnapshot).run (clusterMachine quietPlatform) state).2 := by
  have hexec := Exec.of_run (A := (clusterMachine quietPlatform).answers) (fun _ _ => .through)
    (restore ⟨{}, {}⟩ salesSnapshot) state
  rwa [h] at hexec

/-- Interrupted before its Secret write, and repeated. -/
theorem catalog_rollback_repeats_iff_beforeSecret :
    let interrupted := salesRollback 2 salesApplied
    let single := ((restore ⟨{}, {}⟩ salesSnapshot).run (clusterMachine quietPlatform)
      salesApplied).2
    let last := ((restore ⟨{}, {}⟩ salesSnapshot).run (clusterMachine quietPlatform)
      interrupted).2
    (last.catalogs = single.catalogs ∧
        recordedIn ⟨{}, {}⟩ last = recordedIn ⟨{}, {}⟩ single) ∧
      (recordedIn ⟨{}, {}⟩ interrupted = salesCopy →
        Cleared salesSnapshot salesCandidate interrupted) := by
  intro interrupted single last
  obtain ⟨rest, hstopped⟩ := stops_salesApplied
  have hiff := catalog_rollback_repeats_iff quietPlatform ⟨{}, {}⟩ salesSnapshot salesCandidate
    salesCopy systemOnly (by decide +kernel) systemOnly_unmanaged serving_salesCluster
    (by decide +kernel) hstopped
    (.single (interrupted_salesRollback 2 salesApplied))
    (exec_salesRollback true (by decide +kernel))
    (exec_salesRollback true (by decide +kernel))
  have hsame : last.catalogs = single.catalogs ∧
      recordedIn ⟨{}, {}⟩ last = recordedIn ⟨{}, {}⟩ single := by
    constructor <;> decide +kernel
  exact ⟨hsame, hiff.mp hsame⟩

/-- Interrupted after its Secret write and before its first statement, and repeated: the catalogs of
the Apply stay. -/
theorem interrupted_rollback_strands :
    (∃ rest, Stops (clusterMachine quietPlatform).answers
      (apply ⟨{}, {}⟩ salesCandidate (plan salesCandidate salesSnapshot)) salesCluster rest
      salesApplied) ∧
    Relation.ReflTransGen (Interrupted quietPlatform ⟨{}, {}⟩ salesSnapshot) salesApplied
      (salesRollback 3 salesApplied) ∧
    ∃ single last,
      Exec (clusterMachine quietPlatform).answers (restore ⟨{}, {}⟩ salesSnapshot) salesApplied
        (.ok true) single ∧
      Exec (clusterMachine quietPlatform).answers (restore ⟨{}, {}⟩ salesSnapshot)
        (salesRollback 3 salesApplied) (.ok false) last ∧
      single.catalogs.keys = ["sales", "system"] ∧
      last.catalogs.keys = ["reports", "sales", "system"] ∧
      liveOf last "sales" ≠ liveOf single "sales" := by
  refine ⟨stops_salesApplied, .single (interrupted_salesRollback 3 salesApplied), _, _,
    exec_salesRollback true (by decide +kernel), exec_salesRollback false (by decide +kernel),
    ?_, ?_, ?_⟩
  all_goals decide +kernel

end Apchi.Catalogs
