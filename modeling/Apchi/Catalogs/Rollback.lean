import Apchi.Catalogs.Statements

/-!
# Rolling the Catalogs back

An Apply of the Catalogs that stopped anywhere leaves the Cluster torn: under each name the
Snapshot or the Candidate uses, what either has there, or nothing.  While the Secret still says what
the Apply wanted, a rollback puts everything back.  Once the Secret says what the Snapshot has, a
rollback only creates what is missing.
-/

namespace Apchi.Catalogs

open Lib Pipeline Prog

/-! ### Plans name nothing twice -/

theorem mem_of_mem_filter_keys {catalogs : Resources} {p : String → Bool} {name : String}
    (h : name ∈ catalogs.keys.filter p) : name ∈ catalogs :=
  Std.ExtTreeMap.mem_keys.mp (List.mem_of_mem_filter h)

theorem distinct_plan (desired current : Resources) : (plan desired current).Distinct where
  created := (Std.ExtTreeMap.nodup_keys).filter _
  replaced := (Std.ExtTreeMap.nodup_keys).filter _
  dropped := (Std.ExtTreeMap.nodup_keys).filter _
  created_replaced := by simp +contextual [plan]
  created_dropped := by simp +contextual [plan]
  replaced_dropped := by simp +contextual [plan]

theorem distinct_settled {plan : CatalogPlan} (h : plan.Distinct) (live : Std.ExtTreeSet String)
    (durable copy : Dict) : (settled plan live durable copy).Distinct where
  created := h.created.filter _
  replaced := h.replaced
  dropped := h.dropped
  created_replaced := fun name hname => h.created_replaced name (List.mem_of_mem_filter hname)
  created_dropped := fun name hname => h.created_dropped name (List.mem_of_mem_filter hname)
  replaced_dropped := h.replaced_dropped

theorem distinct_rollbackPlan (snapshot : Resources) (live : Std.ExtTreeSet String)
    (durable copy : Dict) : (rollbackPlan snapshot live durable copy).Distinct where
  created := (Std.ExtTreeMap.nodup_keys).filter _
  replaced := (Std.ExtTreeMap.nodup_keys).filter _
  dropped := (Std.ExtTreeSet.distinct_toList.imp fun hne heq =>
    hne (Std.LawfulEqCmp.compare_eq_iff_eq.mpr heq)).filter _
  created_replaced := by simp +contextual [rollbackPlan]
  created_dropped := by simp +contextual [rollbackPlan]
  replaced_dropped := by simp +contextual [rollbackPlan]

/-! ### Where an Apply and a rollback stop -/

section stops

variable {platform : Platform} {cluster : Cluster} {state state' : ClusterState}

/-- The Secret a rollback of the Catalogs reads and writes, as it stands. -/
def recordedIn (cluster : Cluster) (state : ClusterState) : Dict :=
  state.secret cluster.settings.catalogSecretName

/-- A program that reads first, when it returns. -/
theorem exec_reading {α β : Type} {p : ClusterProg β} (hreads : ReadsOnly p) (hstrict : p.Strict)
    {f : β → ClusterProg α} {a : α}
    (h : Exec (clusterMachine platform).answers (p.bind f) state (.ok a) state') :
    ∃ b, p.run (clusterMachine platform) state = (.ok b, state) ∧
      Exec (clusterMachine platform).answers (f b) state (.ok a) state' := by
  rcases h.bind_inv with ⟨b, state₁, hb, hrest⟩ | ⟨e, he, -⟩
  · obtain rfl : state₁ = state := hreads.exec (I := fun w => w = state)
      (fun c w r w' hc hw hanswer => (answer_of_reads hc hanswer).trans hw) rfl hb
    exact ⟨b, hstrict.run_eq hb, hrest⟩
  · cases he

theorem issue_done {copy : Dict} {desired : Resources} {plan : CatalogPlan}
    (hrenders : Renders desired plan)
    (h : Exec (clusterMachine platform).answers (issue cluster copy desired plan) state (.ok ())
      state') :
    Issued cluster.settings.catalogSecretName copy (plan.statements (wanted desired)) state
      state' := by
  have hstrict : (issue cluster copy desired plan).Strict := by
    refine (strict_perform _).bind fun _ => ?_
    rw [execute_eq hrenders]
    exact strict_each strict_perform
  have hrun := hstrict.run_eq h
  change ((perform _).bind fun _ => execute desired plan).run _ _ = _ at hrun
  rw [execute_eq hrenders, run_bind, run_perform] at hrun
  obtain ⟨hsecrets, hlive⟩ := run_statements hrun
  refine ⟨?_, hlive⟩
  rw [ClusterState.secret, hsecrets]
  exact writeSecret_secret _ _ _

/-- An Apply of the Catalogs has stopped before its Secret write or after some of its statements. -/
theorem apply_stops {desired : Resources} {plan : CatalogPlan}
    (hplan : ∀ name, name ∈ plan.created ∨ name ∈ plan.replaced → name ∈ desired)
    {rest : ClusterProg Unit}
    (h : Stops (clusterMachine platform).answers (apply cluster desired plan) state rest state') :
    state' = state ∨ ∃ copy done rest, renderSecret desired = .ok copy ∧
      (settled plan (liveNames state) (recordedIn cluster state) copy).statements
        (wanted desired) = done ++ rest ∧
      Issued cluster.settings.catalogSecretName copy done state state' := by
  rcases stops_reading (all_ofExcept _) (strict_ofExcept _) h with hstart | ⟨copy, hcopy, h⟩
  · exact Or.inl hstart.1
  rcases stops_reading (all_perform rfl) (strict_perform _) h with hstart | ⟨live, hlive, h⟩
  · exact Or.inl hstart.1
  rcases stops_reading (all_perform rfl) (strict_perform _) h with hstart | ⟨durable, hdurable, h⟩
  · exact Or.inl hstart.1
  rw [run_ofExcept] at hcopy
  rw [run_perform] at hlive hdurable
  obtain rfl := Except.ok.inj (congrArg Prod.fst hlive)
  obtain rfl := Except.ok.inj (congrArg Prod.fst hdurable)
  have hrendered := congrArg Prod.fst hcopy
  have hrenders : Renders desired
      (settled plan (liveNames state) (recordedIn cluster state) copy) := by
    intro name hname
    obtain ⟨catalog, hcatalog, -⟩ := renderSecret_of_mem hrendered
      (hplan name (hname.imp_left List.mem_of_mem_filter))
    exact ⟨catalog, hcatalog⟩
  rcases issue_stops hrenders h with hstart | ⟨done, rest, hsplit, hissued, -⟩
  · exact Or.inl hstart.1
  · exact Or.inr ⟨copy, done, rest, hrendered, hsplit, hissued⟩

theorem renders_rollbackPlan {snapshot : Resources} {copy : Dict}
    (hcopy : renderSecret snapshot = .ok copy) (live : Std.ExtTreeSet String) (durable : Dict) :
    Renders snapshot (rollbackPlan snapshot live durable copy) := by
  intro name hname
  have hmem : name ∈ snapshot := by
    rcases hname with hname | hname <;>
      exact mem_of_mem_filter_keys hname
  obtain ⟨catalog, hcatalog, -⟩ := renderSecret_of_mem hcopy hmem
  exact ⟨catalog, hcatalog⟩

/-- No statement of a rollback is refused for what is live. -/
theorem allAllowed_rollback (snapshot : Resources) (state : ClusterState) (durable copy : Dict)
    (value : String → LiveCatalog) :
    AllAllowed (liveOf state)
      ((rollbackPlan snapshot (liveNames state) durable copy).statements value) := by
  refine Plan.allAllowed_statements (distinct_rollbackPlan _ _ _ _) ?_ ?_ ?_
  · simp [rollbackPlan]
  · simp +contextual [rollbackPlan]
  · simp +contextual [rollbackPlan]

/-- A rollback of the Catalogs has stopped before its Secret write or after some of its statements;
either way its next statement is not refused for what is live. -/
theorem restore_stops {snapshot : Resources} {copy : Dict}
    (hcopy : renderSecret snapshot = .ok copy) {rest : ClusterProg Bool}
    (h : Stops (clusterMachine platform).answers (restore cluster snapshot) state rest state') :
    rest.Next (Permitted state') ∧ (state' = state ∨ ∃ done rest,
      (rollbackPlan snapshot (liveNames state) (recordedIn cluster state) copy).statements
        (wanted snapshot) = done ++ rest ∧
      Issued cluster.settings.catalogSecretName copy done state state') := by
  unfold restore at h
  rw [hcopy] at h
  rcases stops_reading (all_perform rfl) (strict_perform _) h with hstart | ⟨durable, hdurable, h⟩
  · exact ⟨hstart.2, Or.inl hstart.1⟩
  rcases stops_reading (all_perform rfl) (strict_perform _) h with hstart | ⟨live, hlive, h⟩
  · exact ⟨hstart.2, Or.inl hstart.1⟩
  rw [run_perform] at hlive hdurable
  obtain rfl := Except.ok.inj (congrArg Prod.fst hlive)
  obtain rfl := Except.ok.inj (congrArg Prod.fst hdurable)
  have hrenders := renders_rollbackPlan hcopy (liveNames state) (recordedIn cluster state)
  have hallowed := allAllowed_rollback snapshot state (recordedIn cluster state) copy
    (wanted snapshot)
  change Stops _ ((perform _).bind fun _ => (execute snapshot _).bind fun _ => ret _) _ _ _ at h
  rw [← bind_assoc] at h
  rcases h.bind_inv with ⟨q, rfl, hret, hq⟩ | ⟨u, state₁, hdone, hrest⟩
  · rcases issue_stops hrenders hq with ⟨hstart, hnext⟩ | ⟨done, left, hsplit, hissued, hnext⟩
    · exact ⟨hnext.bind hret, Or.inl hstart⟩
    · exact ⟨(hnext hallowed).bind hret, Or.inr ⟨done, left, hsplit, hissued⟩⟩
  · cases hrest
    exact ⟨trivial, Or.inr ⟨_, [], (List.append_nil _).symm, issue_done hrenders hdone⟩⟩

/-- A rollback of the Catalogs that has returned has issued all of its statements. -/
theorem restore_done {snapshot : Resources} {copy : Dict}
    (hcopy : renderSecret snapshot = .ok copy) {changed : Bool}
    (h : Exec (clusterMachine platform).answers (restore cluster snapshot) state (.ok changed)
      state') :
    Issued cluster.settings.catalogSecretName copy
      ((rollbackPlan snapshot (liveNames state) (recordedIn cluster state) copy).statements
        (wanted snapshot)) state state' := by
  unfold restore at h
  rw [hcopy] at h
  obtain ⟨durable, hdurable, h⟩ := exec_reading (all_perform rfl) (strict_perform _) h
  obtain ⟨live, hlive, h⟩ := exec_reading (all_perform rfl) (strict_perform _) h
  rw [run_perform] at hlive hdurable
  obtain rfl := Except.ok.inj (congrArg Prod.fst hlive)
  obtain rfl := Except.ok.inj (congrArg Prod.fst hdurable)
  change Exec _ ((perform _).bind fun _ => (execute snapshot _).bind fun _ => ret _) _ _ _ at h
  rw [← bind_assoc] at h
  rcases h.bind_inv with ⟨u, state₁, hdone, hrest⟩ | ⟨e, he, -⟩
  · cases hrest
    exact issue_done (renders_rollbackPlan hcopy _ _) hdone
  · cases he

end stops

/-! ### Torn Clusters -/

/-- What Trino would serve under a name, of a Snapshot's Catalogs and of the catalogs Apchi does not
manage. -/
def serving (snapshot : Resources) (unmanaged : String → Option LiveCatalog) (name : String) :
    Option LiveCatalog :=
  (catalogOf snapshot name).or (unmanaged name)

/-- What an Apply that stopped somewhere can leave live: under each name that the Snapshot or the
Candidate uses what either has there, or nothing; under any other name what was there. -/
structure Torn (snapshot desired : Resources) (unmanaged : String → Option LiveCatalog)
    (state : ClusterState) : Prop where
  inside : ∀ name, name ∈ snapshot ∨ name ∈ desired → liveOf state name = none ∨
    liveOf state name = catalogOf snapshot name ∨ liveOf state name = catalogOf desired name
  outside : ∀ name, name ∉ snapshot → name ∉ desired → liveOf state name = unmanaged name

theorem catalogOf_eq_none {catalogs : Resources} {name : String} (h : name ∉ catalogs) :
    catalogOf catalogs name = none := by
  rw [catalogOf, Std.ExtTreeMap.getElem?_eq_none h]
  rfl

theorem some_wanted {catalogs : Resources} {copy : Dict} (hcopy : renderSecret catalogs = .ok copy)
    {name : String} (hname : name ∈ catalogs) :
    some (wanted catalogs name) = catalogOf catalogs name := by
  obtain ⟨catalog, hcatalog, -⟩ := renderSecret_of_mem hcopy hname
  rw [wanted, hcatalog]
  rfl

section torn

variable {platform : Platform} {cluster : Cluster} {snapshot desired : Resources} {copy : Dict}
  {unmanaged : String → Option LiveCatalog} {state state' : ClusterState}

/-- A rollback has something to do under a name: the Secret does not say what the Snapshot has, or
nothing is live. -/
def Undoes (cluster : Cluster) (copy : Dict) (state : ClusterState) (name : String) : Prop :=
  (recordedIn cluster state)[keyOf name]? ≠ copy[keyOf name]? ∨ liveOf state name = none

instance (cluster : Cluster) (copy : Dict) (state : ClusterState) (name : String) :
    Decidable (Undoes cluster copy state name) := by
  unfold Undoes
  infer_instance

/-- What a rollback that has returned leaves under a name. -/
theorem live_of_restored (hcopy : renderSecret snapshot = .ok copy)
    (h : Issued cluster.settings.catalogSecretName copy
      ((rollbackPlan snapshot (liveNames state) (recordedIn cluster state) copy).statements
        (wanted snapshot)) state state') (name : String) :
    liveOf state' name =
      if Undoes cluster copy state name then catalogOf snapshot name else liveOf state name := by
  rw [h.live, Plan.served_statements (distinct_rollbackPlan _ _ _ _)]
  by_cases hname : name ∈ snapshot
  · rw [some_wanted hcopy hname]
    by_cases hlive : liveOf state name = none
    · simp [rollbackPlan, Undoes, hname, hlive]
    · simp [rollbackPlan, Undoes, hname, hlive]
  · have hcopied : copy[keyOf name]? = none := by
      rw [renderSecret_file hcopy, catalogOf_eq_none hname]
      rfl
    by_cases hlive : liveOf state name = none
    · simp [rollbackPlan, Undoes, hname, hlive, catalogOf_eq_none hname]
    · simp [rollbackPlan, Undoes, hname, hlive, hcopied, catalogOf_eq_none hname]

/-- While the Secret says what the Apply wanted, a rollback puts everything back. -/
theorem restored_of_wanted (hcopy : renderSecret snapshot = .ok copy)
    (hdetermines : ∀ name catalog other, catalogOf snapshot name = some catalog →
      catalogOf desired name = some other → renderProperties catalog = renderProperties other →
      catalog = other)
    (hunmanaged : ∀ name, name ∈ snapshot ∨ name ∈ desired → unmanaged name = none)
    (htorn : Torn snapshot desired unmanaged state)
    (hrecorded : renderSecret desired = .ok (recordedIn cluster state))
    (h : Issued cluster.settings.catalogSecretName copy
      ((rollbackPlan snapshot (liveNames state) (recordedIn cluster state) copy).statements
        (wanted snapshot)) state state') :
    liveOf state' = serving snapshot unmanaged := by
  funext name
  rw [live_of_restored hcopy h, serving]
  by_cases hinside : name ∈ snapshot ∨ name ∈ desired
  · rw [hunmanaged name hinside, Option.or_none]
    split
    · rfl
    · next hdone =>
      obtain ⟨hsame, hlive⟩ := not_or.mp hdone
      rcases htorn.inside name hinside with hnone | hold | hnew
      · exact absurd hnone hlive
      · exact hold
      · -- What the Apply left has the Snapshot's rendering, so it is the Snapshot's.
        obtain ⟨other, hother⟩ := Option.ne_none_iff_exists'.mp hlive
        have hwanted : catalogOf desired name = some other := hnew.symm.trans hother
        rw [not_not, renderSecret_file hrecorded, renderSecret_file hcopy, hwanted] at hsame
        obtain ⟨catalog, hcatalog, hrendered⟩ := Option.map_eq_some_iff.mp hsame.symm
        rw [hother, hcatalog, hdetermines name catalog other hcatalog hwanted hrendered]
  · obtain ⟨hname, hdesired⟩ := not_or.mp hinside
    have hdone : liveOf state name ≠ none → ¬ Undoes cluster copy state name := by
      rintro hlive (hdiffers | hnone)
      · refine hdiffers ?_
        rw [renderSecret_file hrecorded, renderSecret_file hcopy, catalogOf_eq_none hname,
          catalogOf_eq_none hdesired]
      · exact hlive hnone
    rw [catalogOf_eq_none hname, Option.none_or, ← htorn.outside name hname hdesired]
    split
    · next hundoes => exact (not_not.mp fun hlive => hdone hlive hundoes).symm
    · rfl

/-- On a Cluster that serves the Snapshot and records it a rollback leaves what there is. -/
theorem restored_of_serving (hcopy : renderSecret snapshot = .ok copy)
    (hserving : liveOf state = serving snapshot unmanaged)
    (hrecorded : recordedIn cluster state = copy)
    (h : Issued cluster.settings.catalogSecretName copy
      ((rollbackPlan snapshot (liveNames state) (recordedIn cluster state) copy).statements
        (wanted snapshot)) state state') :
    liveOf state' = serving snapshot unmanaged := by
  funext name
  rw [live_of_restored hcopy h, hserving]
  split
  · next hundoes =>
    rcases hundoes with hdiffers | hnone
    · exact absurd (by rw [hrecorded]) hdiffers
    · rw [hserving] at hnone
      rw [hnone]
      exact (Option.or_eq_none_iff.mp hnone).1
  · rfl

/-- A Cluster that serves the Snapshot is torn nowhere. -/
theorem torn_of_serving
    (hunmanaged : ∀ name, name ∈ snapshot ∨ name ∈ desired → unmanaged name = none)
    (hserving : liveOf state = serving snapshot unmanaged) :
    Torn snapshot desired unmanaged state := by
  refine ⟨fun name hname => Or.inr (Or.inl ?_), fun name hname _ => ?_⟩
  · rw [hserving, serving, hunmanaged name hname, Option.or_none]
  · rw [hserving, serving, catalogOf_eq_none hname, Option.none_or]

/-- An Apply that has stopped anywhere has left the Cluster as it was, or torn with what it wanted
recorded. -/
theorem torn_of_apply_stops
    (hunmanaged : ∀ name, name ∈ snapshot ∨ name ∈ desired → unmanaged name = none)
    (hserving : liveOf state = serving snapshot unmanaged) {rest : ClusterProg Unit}
    (h : Stops (clusterMachine platform).answers
      (apply cluster desired (plan desired snapshot)) state rest state') :
    state' = state ∨ Torn snapshot desired unmanaged state' ∧
      renderSecret desired = .ok (recordedIn cluster state') := by
  have hplan (name : String) (hname : name ∈ (plan desired snapshot).created ∨
      name ∈ (plan desired snapshot).replaced) : name ∈ desired := by
    rcases hname with hname | hname <;>
      exact mem_of_mem_filter_keys hname
  rcases apply_stops hplan h with hstart | ⟨copy, done, rest, hcopy, hsplit, hissued⟩
  · exact Or.inl hstart
  have hrecorded : recordedIn cluster state' = copy := hissued.recorded
  refine Or.inr ⟨?_, hrecorded ▸ hcopy⟩
  have htorn := torn_of_serving hunmanaged hserving
  have hprefix (name : String) := Plan.served_prefix (liveOf state)
    (distinct_settled (distinct_plan desired snapshot) (liveNames state)
      (recordedIn cluster state) copy) hsplit name
  simp only [← hissued.live] at hprefix
  constructor
  · intro name hname
    rcases hprefix name with hsame | ⟨hmem, hnew⟩ | ⟨hmem, hnone | hnew⟩ | ⟨-, hnone⟩
    · rw [hsame]
      exact htorn.inside name hname
    · rw [some_wanted hcopy (hplan name (Or.inl (List.mem_of_mem_filter hmem)))] at hnew
      exact Or.inr (Or.inr hnew)
    · exact Or.inl hnone
    · rw [some_wanted hcopy (hplan name (Or.inr hmem))] at hnew
      exact Or.inr (Or.inr hnew)
    · exact Or.inl hnone
  · intro name hname hdesired
    rcases hprefix name with hsame | ⟨hmem, -⟩ | ⟨hmem, -⟩ | ⟨hmem, -⟩
    · rw [hsame]
      exact htorn.outside name hname hdesired
    · exact absurd (hplan name (Or.inl (List.mem_of_mem_filter hmem))) hdesired
    · exact absurd (hplan name (Or.inr hmem)) hdesired
    · exact absurd (mem_of_mem_filter_keys hmem) hname

end torn

/-! ### Statements that Trino takes -/

/-- Trino takes every statement that is not refused for what is live. -/
def Obliging (platform : Platform) : Prop :=
  (∀ state name catalog, platform.createCatalog state name catalog = .ok ()) ∧
    ∀ state name, platform.dropCatalog state name = .ok ()

section obliging

variable {platform : Platform} {cluster : Cluster} {state : ClusterState}

theorem exec_allowed (hobliging : Obliging platform) {s : Statement String LiveCatalog}
    (h : s.Allowed (liveOf state s.key)) :
    ∃ state', state.exec platform (statementCall s) = (.ok (), state') := by
  cases s with
  | create name catalog =>
    have hfree : name ∉ state.catalogs := fun hmem => mem_catalogs_iff.mp hmem h
    refine ⟨{ state with catalogs := state.catalogs.insert name catalog }, ?_⟩
    show state.createCatalog platform name catalog = _
    rw [ClusterState.createCatalog, if_neg hfree, hobliging.1]
  | drop name =>
    have hthere : name ∈ state.catalogs := mem_catalogs_iff.mpr h
    refine ⟨{ state with catalogs := state.catalogs.erase name }, ?_⟩
    show state.dropCatalog platform name = _
    rw [ClusterState.dropCatalog, if_pos hthere, hobliging.2]

theorem run_allowed (hobliging : Obliging platform) {statements : List (Statement String LiveCatalog)}
    (h : AllAllowed (liveOf state) statements) :
    ∃ state', (each (statements.map statementCall) perform).run (clusterMachine platform) state =
      (.ok (), state') := by
  induction statements generalizing state with
  | nil => exact ⟨state, rfl⟩
  | cons s statements ih =>
    obtain ⟨state₁, hexec⟩ := exec_allowed hobliging h.1
    have hlive := (exec_statement hexec).2.2
    obtain ⟨state', hrun⟩ := ih (hlive ▸ h.2 : AllAllowed (liveOf state₁) statements)
    refine ⟨state', ?_⟩
    have hthrough : (clusterMachine platform).exec (statementCall s) state = (.ok (), state₁) := hexec
    show ((perform (statementCall s)).bind fun _ =>
      each (statements.map statementCall) perform).run _ _ = _
    rw [run_bind, run_perform, hthrough]
    exact hrun

/-- A rollback of the Catalogs returns when Trino takes its statements. -/
theorem restore_returns (hobliging : Obliging platform) {snapshot : Resources} {copy : Dict}
    (hcopy : renderSecret snapshot = .ok copy) :
    ∃ changed state', (restore cluster snapshot).run (clusterMachine platform) state =
      (.ok changed, state') := by
  have hrenders := renders_rollbackPlan hcopy (liveNames state) (recordedIn cluster state)
  have hallowed : AllAllowed (liveOf (state.writeSecret cluster.settings.catalogSecretName copy))
      ((rollbackPlan snapshot (liveNames state) (recordedIn cluster state) copy).statements
        (wanted snapshot)) :=
    allAllowed_rollback snapshot state (recordedIn cluster state) copy (wanted snapshot)
  obtain ⟨state', hrun⟩ := run_allowed hobliging hallowed
  rw [← execute_eq hrenders] at hrun
  let rollback := rollbackPlan snapshot (liveNames state) (recordedIn cluster state) copy
  refine ⟨recordedIn cluster state != copy || !rollback.empty, state', ?_⟩
  unfold restore
  rw [hcopy]
  show ((execute snapshot rollback).bind fun _ => ret _).run (clusterMachine platform)
    (state.writeSecret cluster.settings.catalogSecretName copy) = _
  rw [run_bind, hrun]
  rfl

end obliging

/-! ### One rollback -/

section exact

variable (platform : Platform) (cluster : Cluster) (snapshot desired : Resources) (copy : Dict)
  (unmanaged : String → Option LiveCatalog)

/-- A rollback after an Apply that stopped somewhere leaves what was there before the Apply. -/
theorem restored_after_apply (hcopy : renderSecret snapshot = .ok copy)
    (hdetermines : ∀ name catalog other, catalogOf snapshot name = some catalog →
      catalogOf desired name = some other → renderProperties catalog = renderProperties other →
      catalog = other)
    (hunmanaged : ∀ name, name ∈ snapshot ∨ name ∈ desired → unmanaged name = none)
    {state stopped restored : ClusterState} {rest : ClusterProg Unit} {changed : Bool}
    (hserving : liveOf state = serving snapshot unmanaged)
    (hrecorded : recordedIn cluster state = copy)
    (hstopped : Stops (clusterMachine platform).answers
      (apply cluster desired (plan desired snapshot)) state rest stopped)
    (hrestored : Exec (clusterMachine platform).answers (restore cluster snapshot) stopped
      (.ok changed) restored) :
    liveOf restored = serving snapshot unmanaged ∧ recordedIn cluster restored = copy := by
  have hissued := restore_done hcopy hrestored
  refine ⟨?_, hissued.recorded⟩
  rcases torn_of_apply_stops hunmanaged hserving hstopped with rfl | ⟨htorn, hwanted⟩
  · exact restored_of_serving hcopy hserving hrecorded hissued
  · exact restored_of_wanted hcopy hdetermines hunmanaged htorn hwanted hissued

/-- The rollback of the Catalogs is exact: wherever an Apply stopped that began on a Cluster serving
the Snapshot and what Apchi does not manage, a rollback that returns leaves the Cluster serving
exactly that again, with the Snapshot in the Secret; none of its statements is refused for what is
live, and it does return when Trino takes them. -/
theorem catalog_rollback_is_exact (hcopy : renderSecret snapshot = .ok copy)
    (hdetermines : ∀ name catalog other, catalogOf snapshot name = some catalog →
      catalogOf desired name = some other → renderProperties catalog = renderProperties other →
      catalog = other)
    (hunmanaged : ∀ name, name ∈ snapshot ∨ name ∈ desired → unmanaged name = none)
    {state stopped : ClusterState} {rest : ClusterProg Unit}
    (hserving : liveOf state = serving snapshot unmanaged)
    (hrecorded : recordedIn cluster state = copy)
    (hstopped : Stops (clusterMachine platform).answers
      (apply cluster desired (plan desired snapshot)) state rest stopped) :
    (∀ changed restored, Exec (clusterMachine platform).answers (restore cluster snapshot) stopped
        (.ok changed) restored →
      liveOf restored = serving snapshot unmanaged ∧ recordedIn cluster restored = copy) ∧
    (∀ rest restoring, Stops (clusterMachine platform).answers (restore cluster snapshot) stopped
      rest restoring → rest.Next (Permitted restoring)) ∧
    (Obliging platform → ∃ changed restored,
      (restore cluster snapshot).run (clusterMachine platform) stopped = (.ok changed, restored)) :=
  ⟨fun _ _ => restored_after_apply platform cluster snapshot desired copy unmanaged hcopy
      hdetermines hunmanaged hserving hrecorded hstopped,
    fun _ _ hstops => (restore_stops hcopy hstops).1,
    fun hobliging => restore_returns hobliging hcopy⟩

end exact

/-! An Apply that replaces one catalog and creates another, on a Cluster with a catalog of its
own. -/

/-- A Catalog as it is stored, of a connector and one property. -/
def storedCatalog (connector property value : String) : Json :=
  .obj [("connector", .str connector), ("properties", .obj [(property, .str value)])]

def salesSnapshot : Resources :=
  (∅ : Resources).insert "sales" (storedCatalog "memory" "memory.max-data-per-node" "128MB")

def salesCandidate : Resources :=
  (salesSnapshot.insert "sales" (storedCatalog "tpch" "tpch.splits-per-node" "4")).insert "reports"
    (storedCatalog "memory" "memory.max-data-per-node" "128MB")

def memoryCatalog : LiveCatalog :=
  ⟨"memory", (∅ : Dict).insert "memory.max-data-per-node" "128MB"⟩

/-- The catalog Apchi does not manage. -/
def systemOnly (name : String) : Option LiveCatalog :=
  if name = "system" then some ⟨"system", ∅⟩ else none

def salesCopy : Dict :=
  (∅ : Dict).insert "sales.properties" "connector.name=memory\nmemory.max-data-per-node=128MB\n"

def salesCluster : ClusterState :=
  { freshCluster with
    secrets := (∅ : Secrets).insert "trino-catalog-seed" salesCopy
    catalogs := (((∅ : Std.ExtTreeMap String LiveCatalog).insert "sales" memoryCatalog).insert
      "system" ⟨"system", ∅⟩) }

theorem catalogOf_salesSnapshot (name : String) :
    catalogOf salesSnapshot name = if name = "sales" then some memoryCatalog else none := by
  rw [catalogOf, salesSnapshot, Std.ExtTreeMap.getElem?_insert]
  by_cases hname : name = "sales"
  · subst hname
    decide +kernel
  · simp [hname, Ne.symm hname]

theorem serving_salesCluster : liveOf salesCluster = serving salesSnapshot systemOnly := by
  funext name
  rw [serving, catalogOf_salesSnapshot, liveOf, salesCluster, systemOnly]
  simp only [Std.ExtTreeMap.getElem?_insert, Std.LawfulEqCmp.compare_eq_iff_eq,
    Std.ExtTreeMap.getElem?_empty, @eq_comm _ _ name]
  by_cases hname : name = "sales"
  · subst hname
    decide +kernel
  · simp [hname]

theorem systemOnly_unmanaged (name : String)
    (h : name ∈ salesSnapshot ∨ name ∈ salesCandidate) : systemOnly name = none := by
  refine if_neg fun heq => ?_
  subst heq
  revert h
  decide +kernel

theorem salesFiles_determine (name : String) (catalog other : LiveCatalog)
    (h : catalogOf salesSnapshot name = some catalog)
    (h' : catalogOf salesCandidate name = some other)
    (hrendered : renderProperties catalog = renderProperties other) : catalog = other := by
  rw [catalogOf_salesSnapshot] at h
  split at h
  · next hname =>
    subst hname
    cases h
    have hother : catalogOf salesCandidate "sales" =
        some ⟨"tpch", (∅ : Dict).insert "tpch.splits-per-node" "4"⟩ := by decide +kernel
    rw [hother] at h'
    cases h'
    exact absurd hrendered (by decide +kernel)
  · cases h

/-- The rollback after an Apply that stopped between the `DROP` and the `CREATE` of a replace. -/
theorem catalog_rollback_is_exact_midReplace :
    let stopped := (stepping (clusterMachine quietPlatform) 5
      (apply ⟨{}, {}⟩ salesCandidate (plan salesCandidate salesSnapshot)) salesCluster).2
    stopped.catalogs.keys = ["reports", "system"] ∧
      (∀ changed restored, Exec (clusterMachine quietPlatform).answers
          (restore ⟨{}, {}⟩ salesSnapshot) stopped (.ok changed) restored →
        liveOf restored = serving salesSnapshot systemOnly ∧
          recordedIn ⟨{}, {}⟩ restored = salesCopy) ∧
      (∀ rest restoring, Stops (clusterMachine quietPlatform).answers
        (restore ⟨{}, {}⟩ salesSnapshot) stopped rest restoring → rest.Next (Permitted restoring)) ∧
      (Obliging quietPlatform → ∃ changed restored,
        (restore ⟨{}, {}⟩ salesSnapshot).run (clusterMachine quietPlatform) stopped =
          (.ok changed, restored)) :=
  ⟨by decide +kernel,
    catalog_rollback_is_exact quietPlatform ⟨{}, {}⟩ salesSnapshot salesCandidate salesCopy
      systemOnly (by decide +kernel) salesFiles_determine systemOnly_unmanaged serving_salesCluster
      (by decide +kernel) (stops_stepping 5 _ _)⟩

end Apchi.Catalogs
