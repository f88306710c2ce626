import Apchi.Lib.Statements
import Apchi.Catalogs.Generator
import Apchi.Pipeline.Store

/-!
# The Catalogs Section

Catalogs are applied by statements rather than by writing a file, so they need no restart, and
their Apply is not atomic: a sequence of statements can stop partway.  The Secret is written before
any statement is issued.  What a rollback has to undo is read off the Secret and what is live,
before the Secret is written.
-/

namespace Apchi.Catalogs

open Lib Pipeline

abbrev CatalogPlan := Plan String

/-- A plan as the pipeline keeps it, and back. -/
def CatalogPlan.toSection (plan : CatalogPlan) : SectionPlan :=
  { added := plan.created, changed := plan.replaced, removed := plan.dropped }

def CatalogPlan.ofSection (plan : SectionPlan) : CatalogPlan :=
  { created := plan.added, replaced := plan.changed, dropped := plan.removed }

def CatalogPlan.empty (plan : CatalogPlan) : Bool :=
  plan.created.isEmpty && plan.replaced.isEmpty && plan.dropped.isEmpty

@[simp] theorem ofSection_toSection (plan : CatalogPlan) :
    CatalogPlan.ofSection plan.toSection = plan := rfl

/-! ### Plans -/

/-- `plan`: what applying the desired Catalogs over the current ones would do. -/
def plan (desired current : Resources) : CatalogPlan where
  created := desired.keys.filter fun name => name ∉ current
  replaced := desired.keys.filter fun name => name ∈ current ∧ desired[name]? ≠ current[name]?
  dropped := current.keys.filter fun name => name ∉ desired

/-- `rollback_plan`: what it takes to put the Cluster's catalogs back to a Snapshot.  A changed
catalog is found by comparing the two renderings, and a catalog that is not the Snapshot's is
dropped only if the Secret names it. -/
def rollbackPlan (snapshot : Resources) (live : Std.ExtTreeSet String) (durable copy : Dict) :
    CatalogPlan where
  created := snapshot.keys.filter fun name => name ∉ live
  replaced := snapshot.keys.filter fun name =>
    name ∈ live ∧ durable[keyOf name]? ≠ copy[keyOf name]?
  dropped := live.toList.filter fun name => name ∉ snapshot ∧ durable[keyOf name]? ≠ none

/-- `settled`: the same plan, less the catalogs that are live and recorded exactly as asked. -/
def settled (plan : CatalogPlan) (live : Std.ExtTreeSet String) (durable copy : Dict) :
    CatalogPlan :=
  { plan with created := plan.created.filter fun name =>
      ¬ (name ∈ live ∧ durable[keyOf name]? = copy[keyOf name]?) }

/-- `collision_failures`: a Catalog to be created must not already exist on the Cluster. -/
def collisionFailures (created : List String) (live : Std.ExtTreeSet String) :
    List ValidationFailure :=
  ((Std.ExtTreeSet.ofList created).toList.filter fun name => name ∈ live).map fun name =>
    { sect := some .catalogs
      resource := some name
      reason := s!"A catalog named '{name}' already exists on the Cluster and is not managed by " ++
        "Apchi. Adopt it or choose another name." }

/-! ### Statements -/

/-- `desired[name]`. -/
def stored (desired : Resources) (name : String) : Except Error Json :=
  match desired[name]? with
  | some stored => .ok stored
  | none => .error ⟨"KeyError", s!"'{name}'"⟩

/-- `CREATE CATALOG` of a stored Catalog. -/
def create (name : String) (stored : Json) : ClusterProg Unit := do
  let catalog ← Prog.ofExcept (effective stored)
  Prog.perform (.createCatalog name catalog.connector catalog.properties)

/-- `execute`: creates and replaces first, then drops.  Trino cannot alter a catalog, so replacing
is dropping and creating again. -/
def execute (desired : Resources) (plan : CatalogPlan) : ClusterProg Unit := do
  Prog.each plan.created fun name => do
    let catalog ← Prog.ofExcept (stored desired name)
    create name catalog
  Prog.each plan.replaced fun name => do
    let catalog ← Prog.ofExcept (stored desired name)
    Prog.perform (.dropCatalog name)
    create name catalog
  Prog.each plan.dropped fun name => Prog.perform (.dropCatalog name)

/-! ### The Section's operations -/

/-- `CatalogsSection.apply`: the Secret, then the statements. -/
def apply (cluster : Cluster) (desired : Resources) (plan : CatalogPlan) : ClusterProg Unit := do
  let copy ← Prog.ofExcept (renderSecret desired)
  let live ← Prog.perform .catalogs
  let durable ← Prog.perform (.readSecret cluster.settings.catalogSecretName)
  Prog.perform (.writeSecret cluster.settings.catalogSecretName copy)
  execute desired (settled plan (.ofList live) durable copy)

/-- `CatalogsSection.restore`: the plan is read before anything is written. -/
def restore (cluster : Cluster) (snapshot : Resources) : ClusterProg Bool := do
  let copy ← Prog.ofExcept (renderSecret snapshot)
  let durable ← Prog.perform (.readSecret cluster.settings.catalogSecretName)
  let live ← Prog.perform .catalogs
  let rollback := rollbackPlan snapshot (.ofList live) durable copy
  Prog.perform (.writeSecret cluster.settings.catalogSecretName copy)
  execute snapshot rollback
  pure (durable != copy || !rollback.empty)

/-- `CatalogsSection.check`: a name already taken on the Cluster by a catalog nobody manages. -/
def check (cluster : Cluster) (desired : Resources) (plan : CatalogPlan) :
    ClusterProg (List ValidationFailure) :=
  if plan.created.isEmpty then pure []
  else do
    let live ← Prog.perform .catalogs
    let durable ← Prog.perform (.readSecret cluster.settings.catalogSecretName)
    let copy ← Prog.ofExcept (renderSecret desired)
    let settled := settled plan (.ofList live) durable copy
    pure (collisionFailures settled.created (.ofList live))

/-- `CatalogsSection.verify`. -/
def verify (desired : Resources) : ClusterProg (List String) := do
  let live ← Prog.perform .catalogs
  let missing := desired.keys.filter fun name => name ∉ live
  if missing.isEmpty then pure []
  else pure ["The coordinator is not serving " ++ ", ".intercalate missing ++
    ": the configuration was applied but is not live."]

/-! ### What the Section touches -/

section catalogsOnly

variable {settings : Settings}

theorem create_catalogsOnly (name : String) (stored : Json) :
    (create name stored).All (ClusterCall.catalogsOnly settings) :=
  Prog.All.bind (Prog.all_ofExcept _) fun _ => Prog.all_perform trivial

theorem execute_catalogsOnly (desired : Resources) (plan : CatalogPlan) :
    (execute desired plan).All (ClusterCall.catalogsOnly settings) := by
  refine Prog.All.bind (Prog.all_each fun name _ => ?_) fun _ =>
    Prog.All.bind (Prog.all_each fun name _ => ?_) fun _ =>
      Prog.all_each fun name _ => Prog.all_perform trivial
  · exact Prog.All.bind (Prog.all_ofExcept _) fun _ => create_catalogsOnly _ _
  · exact Prog.All.bind (Prog.all_ofExcept _) fun _ =>
      Prog.All.bind (Prog.all_perform trivial) fun _ => create_catalogsOnly _ _

theorem apply_catalogsOnly (cluster : Cluster) (desired : Resources) (plan : CatalogPlan) :
    (apply cluster desired plan).All (ClusterCall.catalogsOnly cluster.settings) :=
  Prog.All.bind (Prog.all_ofExcept _) fun _ => Prog.All.bind (Prog.all_perform trivial) fun _ =>
    Prog.All.bind (Prog.all_perform trivial) fun _ => Prog.All.bind (Prog.all_perform rfl) fun _ =>
      execute_catalogsOnly _ _

theorem restore_catalogsOnly (cluster : Cluster) (snapshot : Resources) :
    (restore cluster snapshot).All (ClusterCall.catalogsOnly cluster.settings) :=
  Prog.All.bind (Prog.all_ofExcept _) fun _ => Prog.All.bind (Prog.all_perform trivial) fun _ =>
    Prog.All.bind (Prog.all_perform trivial) fun _ => Prog.All.bind (Prog.all_perform rfl) fun _ =>
      Prog.All.bind (execute_catalogsOnly _ _) fun _ => trivial

theorem verify_readsOnly (desired : Resources) : ReadsOnly (verify desired) := by
  refine Prog.All.bind (Prog.all_perform rfl) fun live => ?_
  show ReadsOnly (if (desired.keys.filter fun name => name ∉ live).isEmpty then _ else _)
  split <;> trivial

end catalogsOnly

/-- The Catalogs Section as the pipeline sees it. -/
def catalogsSection : Section where
  name := .catalogs
  requiresRollout := false
  coordinatorFiles _ := []
  renderFiles _ _ _ := .ok ∅
  plan desired current := (plan desired current).toSection
  apply cluster desired plan := apply cluster desired (.ofSection plan)
  restore := restore
  verify _ desired _ := verify desired
  apply_catalogsOnly _ _ _ := apply_catalogsOnly _ _ _
  restore_catalogsOnly := restore_catalogsOnly
  restore_rollout := nofun
  verify_reads _ _ _ := verify_readsOnly _

end Apchi.Catalogs
