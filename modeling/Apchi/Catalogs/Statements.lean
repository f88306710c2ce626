import Apchi.Lib.Stop
import Apchi.Catalogs.Section

/-!
# What the statements of the Catalogs Section leave behind

An Apply and a rollback of the Catalogs both read what is live and what is recorded, write the
Secret, and issue the statements of a plan.  Wherever one of them stops, either nothing has happened
yet, or the Secret is written and a first part of the statements has had its effect.
-/

namespace Apchi.Catalogs

open Lib Pipeline Prog

variable (platform : Platform)

/-- The call of a statement. -/
def statementCall : Statement String LiveCatalog → ClusterCall Unit
  | .create name catalog => .createCatalog name catalog.connector catalog.properties
  | .drop name => .dropCatalog name

/-- What Trino is to receive of a Catalog that could be rendered. -/
def wanted (desired : Resources) (name : String) : LiveCatalog :=
  (catalogOf desired name).getD ⟨"", ∅⟩

/-- The catalogs live on a Cluster, by name. -/
def liveOf (state : ClusterState) (name : String) : Option LiveCatalog := state.catalogs[name]?

theorem mem_catalogs_iff {state : ClusterState} {name : String} :
    name ∈ state.catalogs ↔ liveOf state name ≠ none := by
  rw [Std.ExtTreeMap.mem_iff_isSome_getElem?, liveOf, Option.isSome_iff_ne_none]

/-! ### Running statements -/

section statements

variable {platform} {state state' : ClusterState}

/-- A statement that has gone through was not refused, and leaves what it says. -/
theorem exec_statement {s : Statement String LiveCatalog}
    (h : state.exec platform (statementCall s) = (.ok (), state')) :
    s.Allowed (liveOf state s.key) ∧ state'.secrets = state.secrets ∧
      liveOf state' = Function.update (liveOf state) s.key s.leaves := by
  have hget (catalogs : Std.ExtTreeMap String LiveCatalog) (name : String)
      (catalog : LiveCatalog) : (fun n => (catalogs.insert name catalog)[n]?) =
        Function.update (fun n => catalogs[n]?) name (some catalog) := by
    funext n
    rw [Std.ExtTreeMap.getElem?_insert, Function.update_apply]
    simp only [Std.LawfulEqCmp.compare_eq_iff_eq, @eq_comm _ n name]
  have hgone (catalogs : Std.ExtTreeMap String LiveCatalog) (name : String) :
      (fun n => (catalogs.erase name)[n]?) =
        Function.update (fun n => catalogs[n]?) name none := by
    funext n
    rw [Std.ExtTreeMap.getElem?_erase, Function.update_apply]
    simp only [Std.LawfulEqCmp.compare_eq_iff_eq, @eq_comm _ n name]
  cases s with
  | create name catalog =>
    change state.createCatalog platform name _ = _ at h
    unfold ClusterState.createCatalog at h
    split at h
    · cases h
    · next hfree =>
      split at h
      · obtain rfl := congrArg Prod.snd h
        exact ⟨not_not.mp fun hne => hfree (mem_catalogs_iff.mpr hne), rfl, hget _ _ _⟩
      · cases h
  | drop name =>
    change state.dropCatalog platform name = _ at h
    unfold ClusterState.dropCatalog at h
    split at h
    · next hthere =>
      split at h
      · obtain rfl := congrArg Prod.snd h
        exact ⟨mem_catalogs_iff.mp hthere, rfl, hgone _ _⟩
      · cases h
    · cases h

/-- Statements that have gone through leave what `served` says. -/
theorem run_statements {done : List (Statement String LiveCatalog)}
    (h : (each (done.map statementCall) perform).run (clusterMachine platform) state =
      (.ok (), state')) :
    state'.secrets = state.secrets ∧ liveOf state' = served (liveOf state) done := by
  induction done generalizing state with
  | nil =>
    obtain rfl := congrArg Prod.snd h
    exact ⟨rfl, rfl⟩
  | cons s done ih =>
    change ((perform (statementCall s)).bind fun _ =>
      each (done.map statementCall) perform).run _ _ = _ at h
    rw [run_bind, run_perform] at h
    rcases hexec : (clusterMachine platform).exec (statementCall s) state with ⟨_ | _, state₁⟩
    · rw [hexec] at h
      cases h
    · rw [hexec] at h
      obtain ⟨-, hsecrets, hlive⟩ := exec_statement hexec
      obtain ⟨hsecrets', hlive'⟩ := ih h
      rw [hlive] at hlive'
      exact ⟨hsecrets'.trans hsecrets, hlive'⟩

end statements

/-- What is created and replaced could be rendered. -/
def Renders (desired : Resources) (plan : CatalogPlan) : Prop :=
  ∀ name, name ∈ plan.created ∨ name ∈ plan.replaced →
    ∃ catalog, catalogOf desired name = some catalog

theorem stored_create {desired : Resources} {name : String} {catalog : LiveCatalog}
    (h : catalogOf desired name = some catalog) : ∃ json, stored desired name = .ok json ∧
      create name json = perform (statementCall (.create name (wanted desired name))) := by
  obtain ⟨json, hjson, heffective⟩ := Option.bind_eq_some_iff.mp h
  refine ⟨json, by rw [stored, hjson], ?_⟩
  rw [wanted, h]
  cases heff : effective json with
  | error e =>
    rw [heff] at heffective
    cases heffective
  | ok other =>
    rw [heff] at heffective
    cases heffective
    show (ofExcept (effective json)).bind _ = _
    rw [heff]
    rfl

/-- Executing a plan is issuing its statements. -/
theorem execute_eq {desired : Resources} {plan : CatalogPlan} (h : Renders desired plan) :
    execute desired plan =
      each ((plan.statements (wanted desired)).map statementCall) perform := by
  rw [Plan.statements, List.append_assoc, List.map_append, List.map_append, List.map_map,
    List.map_flatMap, List.map_map, each_append, each_append, each_map, each_map, each_flatMap]
  refine congrArg₂ Prog.bind (each_congr fun name hname => ?_)
    (funext fun _ => congrArg₂ Prog.bind (each_congr fun name hname => ?_) rfl)
  · obtain ⟨catalog, hcatalog⟩ := h name (Or.inl hname)
    obtain ⟨json, hstored, hcreate⟩ := stored_create hcatalog
    show (ofExcept (stored desired name)).bind _ = _
    rw [hstored]
    exact hcreate
  · obtain ⟨catalog, hcatalog⟩ := h name (Or.inr hname)
    obtain ⟨json, hstored, hcreate⟩ := stored_create hcatalog
    show (ofExcept (stored desired name)).bind _ = _
    rw [hstored]
    show (perform (.dropCatalog name)).bind (fun _ => create name json) = _
    rw [hcreate]
    exact congrArg (Prog.bind _) (funext fun _ => (bind_ret _).symm)

/-! ### Where an Apply or a rollback of the Catalogs stops -/

/-- The names of the catalogs live on a Cluster. -/
def liveNames (state : ClusterState) : Std.ExtTreeSet String := .ofList state.catalogs.keys

@[simp] theorem mem_liveNames {state : ClusterState} {name : String} :
    name ∈ liveNames state ↔ liveOf state name ≠ none := by
  rw [liveNames, Std.ExtTreeSet.mem_ofList, List.contains_iff_mem, Std.ExtTreeMap.mem_keys,
    mem_catalogs_iff]

/-- A statement is not refused for what is live. -/
def Permitted (state : ClusterState) {β : Type} : ClusterCall β → Prop
  | .createCatalog name _ _ => name ∉ state.catalogs
  | .dropCatalog name => name ∈ state.catalogs
  | _ => True

/-- The Secret is written, and then these statements have had their effect. -/
structure Issued (secret : String) (copy : Dict) (done : List (Statement String LiveCatalog))
    (before after : ClusterState) : Prop where
  recorded : after.secret secret = copy
  live : liveOf after = served (liveOf before) done

/-- The part of an Apply and of a rollback that changes the Cluster. -/
def issue (cluster : Cluster) (copy : Dict) (desired : Resources) (plan : CatalogPlan) :
    ClusterProg Unit := do
  perform (.writeSecret cluster.settings.catalogSecretName copy)
  execute desired plan

section stops

variable {platform} {cluster : Cluster} {copy : Dict} {desired : Resources} {plan : CatalogPlan}
  {state state' : ClusterState}

theorem answer_of_reads {β : Type} {c : ClusterCall β} (hc : c.writes = false)
    {r : Except Error β} (h : (clusterMachine platform).answers _ c state r state') :
    state' = state := by
  rcases Machine.Answer.state h with rfl | rfl
  · rfl
  · exact ClusterState.exec_of_not_writes platform c state hc

theorem permitted_of_reads {β : Type} {c : ClusterCall β} (hc : c.writes = false) :
    Permitted state c := by
  cases c <;> trivial

/-- What only reads either has stopped there, or has read the Cluster as it is. -/
theorem stops_reading {α β : Type} {p : ClusterProg β} (hreads : ReadsOnly p) (hstrict : p.Strict)
    {f : β → ClusterProg α} {q : ClusterProg α}
    (h : Stops (clusterMachine platform).answers (p.bind f) state q state') :
    (state' = state ∧ q.Next (Permitted state')) ∨
      ∃ b, p.run (clusterMachine platform) state = (.ok b, state) ∧
        Stops (clusterMachine platform).answers (f b) state q state' := by
  have hkeeps {β : Type} (c : ClusterCall β) (w : ClusterState) (r : Except Error β)
      (w' : ClusterState) (hc : c.writes = false) (hw : w = state)
      (hanswer : (clusterMachine platform).answers _ c w r w') : w' = state :=
    (answer_of_reads hc hanswer).trans hw
  rcases h.bind_inv with ⟨q₁, rfl, hret, hq⟩ | ⟨b, state₁, hb, hrest⟩
  · have hnext : q₁.Next (Permitted state') :=
      ((hreads.rest hq).mono fun _ => permitted_of_reads).next
    exact Or.inl ⟨hreads.stops (I := fun w => w = state) hkeeps rfl hq, hnext.bind hret⟩
  · obtain rfl : state₁ = state := hreads.exec (I := fun w => w = state) hkeeps rfl hb
    exact Or.inr ⟨b, hstrict.run_eq hb, hrest⟩

theorem statement_permitted {s : Statement String LiveCatalog}
    (h : s.Allowed (liveOf state s.key)) : Permitted state (statementCall s) := by
  cases s with
  | create name catalog => exact fun hmem => mem_catalogs_iff.mp hmem h
  | drop name => exact mem_catalogs_iff.mpr h

/-- Statements stop after a first part of them. -/
theorem issue_stops (hrenders : Renders desired plan) {q : ClusterProg Unit}
    (h : Stops (clusterMachine platform).answers (issue cluster copy desired plan) state q state') :
    (state' = state ∧ q.Next (Permitted state')) ∨
      ∃ done rest, plan.statements (wanted desired) = done ++ rest ∧
        Issued cluster.settings.catalogSecretName copy done state state' ∧
        (AllAllowed (liveOf state) (plan.statements (wanted desired)) →
          q.Next (Permitted state')) := by
  change Stops _ ((perform _).bind fun _ => execute desired plan) _ _ _ at h
  have hwritten : Issued cluster.settings.catalogSecretName copy [] state
      (state.writeSecret cluster.settings.catalogSecretName copy) :=
    ⟨writeSecret_secret _ _ _, rfl⟩
  rcases h.bind_inv with ⟨q₁, rfl, hret, hq⟩ | ⟨u, state₁, hwrite, hrest⟩
  · cases hq with
    | here => exact Or.inl ⟨rfl, trivial⟩
    | @call _ _ _ _ state₁ _ r _ hop hk =>
      cases r with
      | ok u => cases hk with | here => exact absurd rfl (hret u)
      | error e =>
        cases hk with
        | here =>
          rcases hop.state with rfl | rfl
          · exact Or.inl ⟨rfl, trivial⟩
          · exact Or.inr ⟨[], _, rfl, hwritten, fun _ => trivial⟩
  · have hrun := (strict_perform _).run_eq hwrite
    rw [run_perform] at hrun
    obtain rfl := congrArg Prod.snd hrun
    rw [execute_eq hrenders] at hrest
    obtain ⟨done, rest, hsplit, hdone, hq⟩ :=
      stops_each (ClusterState.exec_of_error platform) hrest
    obtain ⟨done, rest, hstatements, rfl, rfl⟩ := List.map_eq_append_iff.mp hsplit
    obtain ⟨hsecrets, hlive⟩ := run_statements hdone
    refine Or.inr ⟨done, rest, hstatements, ⟨?_, hlive⟩, fun hallowed => ?_⟩
    · rw [ClusterState.secret, hsecrets]
      exact writeSecret_secret _ _ _
    · rcases hq with rfl | ⟨e, rfl⟩
      · cases rest with
        | nil => trivial
        | cons s rest =>
          refine statement_permitted ?_
          rw [hlive]
          rw [hstatements] at hallowed
          exact hallowed.next
      · trivial

end stops

end Apchi.Catalogs
