import Apchi.Pipeline.RawFileRules
import Apchi.Pipeline.Reading

/-!
# What a change of one Admin value leaves alone

The Admin values are one document, which every change replaces.  An edit builds the new document from
the one it has loaded; an adoption builds it from what its discovery read, and nothing else.
-/

namespace Apchi.Pipeline

open Lib Prog

/-! ### Values and operations -/

/-- An Admin value; every raw file is one. -/
inductive AdminValue where
  | enforcePermissions
  | preservedAccessControl
  | preservedCertificateMappings
  | rawFile (path : String)
  deriving DecidableEq

/-- Two documents hold the value alike. -/
def AdminValue.Same (a b : AdminValues) : AdminValue → Prop
  | enforcePermissions => a.enforcePermissions = b.enforcePermissions
  | preservedAccessControl => a.preservedAccessControl = b.preservedAccessControl
  | preservedCertificateMappings => a.preservedCertificateMappings = b.preservedCertificateMappings
  | rawFile path => a.rawFiles[path]? = b.rawFiles[path]?

theorem AdminValue.same_refl (a : AdminValues) (value : AdminValue) : value.Same a a := by
  cases value <;> rfl

theorem AdminValue.Same.symm {a b : AdminValues} {value : AdminValue} (h : value.Same a b) :
    value.Same b a := by
  cases value <;> exact Eq.symm h

theorem AdminValue.Same.trans {a b c : AdminValues} {value : AdminValue} (hab : value.Same a b)
    (hbc : value.Same b c) : value.Same a c := by
  cases value <;> exact Eq.trans hab hbc

/-- The Admin values a discovery has read: where it found an access-control file, the rules it preserves
and whether they are enforced. -/
structure DiscoveredAdmin where
  accessControl : Option (Permissions.Preserved × Bool)

/-- The document of what was read, everything else being left at its default. -/
def DiscoveredAdmin.values (read : DiscoveredAdmin) : AdminValues :=
  match read.accessControl with
  | none => {}
  | some (preserved, enforced) =>
      { preservedAccessControl := preserved, enforcePermissions := enforced }

/-- An operation that sets particular Admin values; an adoption is of a discovery that read some. -/
inductive AdminOp where
  | edit (edit : AdminEdit)
  | adopt (uuid : String) (through : Option Nat) (read : DiscoveredAdmin)

/-- The values an edit sets. -/
def AdminEdit.Sets (value : AdminValue) : AdminEdit → Prop
  | writeRawFile path _ _ => value = .rawFile (normalised (leadingSlash path))
  | deleteRawFile path => value = .rawFile (normalised (leadingSlash path))
  | setEnforcement _ => value = .enforcePermissions
  | setPreservedMappings _ => value = .preservedCertificateMappings

/-- The values an adoption sets. -/
def DiscoveredAdmin.Sets (read : DiscoveredAdmin) (value : AdminValue) : Prop :=
  read.accessControl.isSome = true ∧ (value = .enforcePermissions ∨ value = .preservedAccessControl)

def AdminOp.Sets (value : AdminValue) : AdminOp → Prop
  | .edit change => change.Sets value
  | .adopt _ _ read => read.Sets value

section frame

variable (app : App) (outside : Outside)
  (validatePatterns : List CertificateMappingWrite → Except Error Unit)

/-- The request of an operation. -/
def AdminOp.request (actor : String) : AdminOp → Request
  | .edit change => .editAdmin actor (change.change app.settings validatePatterns)
  | .adopt uuid through _ => .adopt uuid actor through

/-- The stored discovery is the one the operation adopts. -/
def AdminOp.Fits (world : World) : AdminOp → Prop
  | .edit _ => True
  | .adopt _ _ read => ∀ stored ∈ world.discovery, stored.adminValues = read.values

/-- Whatever comes of the operation, the values it does not set are as they were. -/
def AdminOp.Leaves (op : AdminOp) (world : World) : Prop :=
  ∀ actor r world', Exec (worldMachine outside).answers
      ((op.request app validatePatterns actor).serve app) world r world' →
    ∀ value, ¬ op.Sets value → value.Same world.adminValues world'.adminValues

/-- An adoption finds nothing to refuse. -/
def Admitted (through : Option Nat) (world : World) : Prop :=
  ∃ stored world', (admitAdoption app through).run (worldMachine outside) world = (.ok stored, world')

/-- Every value that was not read is at its default. -/
def DiscoveredAdmin.RestAtDefault (read : DiscoveredAdmin) (world : World) : Prop :=
  ∀ value, ¬ read.Sets value → value.Same world.adminValues {}

/-- An adoption that is not refused finds at its default whatever it has not read. -/
def AdminOp.Heeds (world : World) : AdminOp → Prop
  | .edit _ => True
  | .adopt _ through read => Admitted app outside through world → read.RestAtDefault world

/-- Operations that are carried out one after the other, by anybody. -/
inductive CarriedOut (admits : World → AdminOp → Prop) : World → List AdminOp → World → Prop where
  | none {world : World} : CarriedOut admits world [] world
  | next {world world₁ world' : World} {op : AdminOp} {ops : List AdminOp} {actor : String}
      {r : Except Error Unit} (hadmits : admits world op)
      (hop : Exec (worldMachine outside).answers ((op.request app validatePatterns actor).serve app)
        world r world₁)
      (hrest : CarriedOut admits world₁ ops world') : CarriedOut admits world (op :: ops) world'

end frame

/-! ### Who writes the document -/

variable {app : App} {outside : Outside} {α β : Type} {world world' : World}

/-- The program does not write the Admin document. -/
abbrev SparesAdmin (p : PipelineProg α) : Prop := WritesOnly (fun collection => collection ≠ .admin) p

theorem SparesAdmin.exec {p : PipelineProg α} {r : Except Error α} (hp : SparesAdmin p)
    (h : Exec (worldMachine outside).answers p world r world') : world'.admin = world.admin := by
  refine All.exec (I := fun w => w.admin = world.admin) (fun op w r w' hop hw hanswer => ?_) hp rfl h
  exact (answer_admin_of_not outside (fun hwrites => hop _ hwrites rfl) hanswer).trans hw

theorem sparesAdmin_loadAdmin : SparesAdmin loadAdmin :=
  All.bind (readOnly_perform rfl) fun _ => trivial

/-- No call writes the discovery. -/
theorem exec_discovery {p : PipelineProg α} {r : Except Error α}
    (h : Exec (worldMachine outside).answers p world r world') :
    world'.discovery = world.discovery := by
  induction h with
  | ret => rfl
  | raise => rfl
  | @call β op k w w₁ w₂ b s hop hk ih =>
    refine ih.trans ?_
    rcases hop.state with rfl | rfl
    · rfl
    · cases op with
      | insertApply record =>
        show (World.insertApply _ record).2.discovery = _
        unfold World.insertApply
        split <;> rfl
      | insertSnapshot snapshot =>
        show (World.insertSnapshot _ snapshot).2.discovery = _
        unfold World.insertSnapshot
        split <;> rfl
      | findAndReplaceCandidate candidate =>
        show (World.replaceCandidate outside _ candidate).2.discovery = _
        unfold World.replaceCandidate
        split <;> rfl
      | _ => rfl

/-- A save replaces the document, and writes it no more. -/
theorem saveAdmin_bind_eq (actor : String) (values : AdminValues) {f : AdminValues → PipelineProg α}
    (hf : ∀ saved, SparesAdmin (f saved)) :
    ∃ k, (saveAdmin actor values).bind f = Prog.call (.findAndReplaceAdmin values) k ∧
      ∀ answer, SparesAdmin (k answer) := by
  refine ⟨_, rfl, fun answer => ?_⟩
  cases answer with
  | error e => trivial
  | ok previous =>
    have hprevious : Collection.adminPrevious ≠ .admin := by decide
    have haudit : Collection.audit ≠ .admin := by decide
    exact All.bind (All.bind trivial fun _ => All.bind (writes_perform rfl hprevious) fun _ =>
      All.bind (writes_recordEach haudit _) fun _ => trivial) hf

/-- Saving the values, and going on without another save. -/
theorem exec_saveAdmin {values : AdminValues} {f : AdminValues → PipelineProg α} {r : Except Error α}
    {actor : String} (hf : ∀ saved, SparesAdmin (f saved))
    (h : Exec (worldMachine outside).answers ((saveAdmin actor values).bind f) world r world') :
    world'.admin = world.admin ∨ world'.admin = some values := by
  obtain ⟨k, heq, hk⟩ := saveAdmin_bind_eq actor values hf
  rw [heq] at h
  cases h with
  | call hop hrest =>
    rw [(hk _).exec hrest]
    exact hop.state.imp (fun h => by rw [h]) (fun h => by rw [h]; rfl)

/-- When every call goes through, they are saved. -/
theorem saveAdmin_saves (outside : Outside) (actor : String) (values : AdminValues)
    {f : AdminValues → PipelineProg α} (hf : ∀ saved, SparesAdmin (f saved)) (world : World) :
    ∃ r world', Exec (worldMachine outside).answers ((saveAdmin actor values).bind f) world r world' ∧
      world'.admin = some values := by
  obtain ⟨k, heq, hk⟩ := saveAdmin_bind_eq actor values hf
  rw [heq]
  have hrest := Exec.of_run (A := (worldMachine outside).answers) (M := worldMachine outside)
    (fun _ _ => .through) (k (.ok world.admin)) { world with admin := some values }
  exact ⟨_, _, .call .through hrest, (hk _).exec hrest⟩

/-! ### Edits -/

theorem writeRawFile_changed {settings : Settings} {path content : String}
    {spec : Except Error Coordinator.PodSpec} {values changed : AdminValues}
    (h : writeRawFile settings path content spec values = .ok changed) :
    changed = { values with
      rawFiles := values.rawFiles.insert (normalised (leadingSlash path)) content } := by
  unfold writeRawFile at h
  dsimp only at h
  generalize hstored : refuseUnusable (leadingSlash path) spec settings
    (values.rawFiles.keys.filter fun p => p ≠ leadingSlash path).length = result at h
  cases result with
  | error refusal => cases h
  | ok stored =>
    rw [← Except.ok.inj h, (refuseUnusable_eq_ok hstored).1]

theorem deleteRawFile_changed {path : String} {values changed : AdminValues}
    (h : deleteRawFile path values = .ok changed) :
    changed = { values with rawFiles := values.rawFiles.erase (normalised (leadingSlash path)) } := by
  unfold deleteRawFile at h
  dsimp only at h
  split at h
  · exact (Except.ok.inj h).symm
  · cases h

/-- An edit leaves every value alone that it does not set. -/
theorem AdminEdit.change_same {settings : Settings}
    {validatePatterns : List CertificateMappingWrite → Except Error Unit} {edit : AdminEdit}
    {values changed : AdminValues} (h : edit.change settings validatePatterns values = .ok changed)
    {value : AdminValue} (hvalue : ¬ edit.Sets value) : value.Same values changed := by
  cases edit with
  | writeRawFile path content spec =>
    simp only [AdminEdit.change] at h
    rw [writeRawFile_changed h]
    cases value with
    | rawFile other =>
      have hne : normalised (leadingSlash path) ≠ other := fun heq => hvalue (heq ▸ rfl)
      simp [AdminValue.Same, Std.ExtTreeMap.getElem?_insert, hne]
    | _ => rfl
  | deleteRawFile path =>
    simp only [AdminEdit.change] at h
    rw [deleteRawFile_changed h]
    cases value with
    | rawFile other =>
      have hne : normalised (leadingSlash path) ≠ other := fun heq => hvalue (heq ▸ rfl)
      simp [AdminValue.Same, Std.ExtTreeMap.getElem?_erase, hne]
    | _ => rfl
  | setEnforcement enforced =>
    cases h
    cases value with
    | enforcePermissions => exact absurd rfl hvalue
    | _ => rfl
  | setPreservedMappings patterns =>
    simp only [AdminEdit.change] at h
    cases hvalid : validatePatterns patterns with
    | error e =>
      rw [hvalid] at h
      cases h
    | ok valid =>
      rw [hvalid] at h
      cases h
      cases value with
      | preservedCertificateMappings => exact absurd rfl hvalue
      | _ => rfl

/-- What an adoption does once nothing is to be refused. -/
def adoptStored (app : App) (uuid actor : String) (stored : StoredDiscovery) : PipelineProg Unit :=
  (saveAdmin actor stored.adminValues).bind fun _ => loadCandidate.bind fun candidate =>
    (saveCandidate actor (stageDiscovery stored candidate)).bind fun _ =>
      (createApply uuid (stageDiscovery stored candidate).baseSnapshot).bind fun record =>
        runApply app .operator record.id actor

theorem adopt_eq (app : App) (uuid actor : String) (through : Option Nat) :
    adopt app uuid actor through = (admitAdoption app through).bind (adoptStored app uuid actor) :=
  rfl

section operations

variable {validatePatterns : List CertificateMappingWrite → Except Error Unit} {actor : String}
  {r : Except Error Unit}

/-- What is loaded is the document. -/
theorem exec_loadAdmin {values : AdminValues}
    (h : Exec (worldMachine outside).answers loadAdmin world (.ok values) world') :
    values = world.adminValues ∧ world' = world := by
  have hstrict : (loadAdmin : PipelineProg AdminValues).Strict :=
    (strict_perform _).bind fun _ => trivial
  obtain ⟨hvalues, rfl⟩ := Prod.mk.inj (hstrict.run_eq (M := worldMachine outside) h)
  exact ⟨(Except.ok.inj hvalues).symm, rfl⟩

/-- The document an edit leaves is the one it loaded, or what it makes of that one. -/
theorem exec_editAdmin {change : AdminValues → Except Error AdminValues}
    (h : Exec (worldMachine outside).answers (editAdmin actor change) world r world') :
    world'.admin = world.admin ∨
      ∃ changed, change world.adminValues = .ok changed ∧ world'.admin = some changed := by
  rcases h.bind_inv with ⟨u, w₁, hgate, h⟩ | ⟨e, -, hgate⟩
  · have hgated : w₁.admin = world.admin := SparesAdmin.exec readOnly_mutationsEnabled hgate
    rcases h.bind_inv with ⟨values, w₂, hload, h⟩ | ⟨e, -, hload⟩
    · -- The document was loaded, so what is saved is made of it.
      obtain ⟨hvalues, hloaded⟩ := exec_loadAdmin hload
      rcases h.bind_inv with ⟨changed, w₃, hchange, h⟩ | ⟨e, -, hchange⟩
      · have hmade := (strict_ofExcept (change values)).run_eq (M := worldMachine outside) hchange
        rw [run_ofExcept] at hmade
        obtain ⟨hchanged, rfl⟩ := Prod.mk.inj hmade
        rw [hvalues, World.adminValues, hgated] at hchanged
        rcases exec_saveAdmin (f := fun _ => pure ()) (fun _ => trivial) h with hsaved | hsaved
        · exact .inl (by rw [hsaved, hloaded, hgated])
        · exact .inr ⟨changed, hchanged, hsaved⟩
      · exact .inl ((SparesAdmin.exec (all_ofExcept _) hchange).trans (hloaded ▸ hgated))
    · exact .inl ((SparesAdmin.exec sparesAdmin_loadAdmin hload).trans hgated)
  · exact .inl (SparesAdmin.exec readOnly_mutationsEnabled hgate)

theorem exec_currentDiscovery {stored : StoredDiscovery}
    (h : Exec (worldMachine outside).answers currentDiscovery world (.ok stored) world') :
    stored ∈ world.discovery := by
  obtain ⟨found, w₁, hfound, h⟩ := exec_bind_ok h
  have hread := (strict_perform _).run_eq (M := worldMachine outside) hfound
  obtain ⟨rfl, rfl⟩ : world.discovery = found ∧ world = w₁ := by
    obtain ⟨hfound, hsame⟩ := Prod.mk.inj hread
    exact ⟨Except.ok.inj hfound, hsame⟩
  cases hdiscovery : world.discovery with
  | none =>
    rw [hdiscovery] at h
    cases h
  | some found =>
    rw [hdiscovery] at h
    cases h
    rfl

theorem strict_refuseIf (refused : Bool) (kind text : String) :
    (refuseIf refused kind text).Strict := by
  unfold refuseIf
  split <;> trivial

theorem strict_refuseInFlight (text : ApplyRecord → String) : (refuseInFlight text).Strict :=
  (strict_perform _).bind fun running => by cases running <;> trivial

theorem strict_currentDiscovery : (currentDiscovery : PipelineProg StoredDiscovery).Strict :=
  (strict_perform _).bind fun found => by cases found <;> trivial

theorem strict_unseeded (secrets : List (String × Dict)) : (unseeded secrets).Strict := by
  induction secrets with
  | nil => trivial
  | cons secret rest ih => exact (strict_perform _).bind fun _ => ih.bind fun _ => trivial

theorem strict_admitAdoption (app : App) (through : Option Nat) :
    (admitAdoption app through).Strict :=
  (strict_perform _).bind fun _ => (strict_refuseIf _ _ _).bind fun _ =>
    (strict_perform _).bind fun _ => (strict_refuseIf _ _ _).bind fun _ =>
      (strict_refuseInFlight _).bind fun _ => strict_currentDiscovery.bind fun _ =>
        (strict_refuseIf _ _ _).bind fun _ => (strict_perform _).bind fun _ =>
          (strict_refuseIf _ _ _).bind fun _ => (strict_ofExcept _).bind fun _ =>
            (strict_unseeded _).bind fun _ => (strict_refuseIf _ _ _).bind fun _ => trivial

/-- What adoption admits is the discovery that is stored. -/
theorem admitAdoption_finds {through : Option Nat} {stored : StoredDiscovery}
    (h : Exec (worldMachine outside).answers (admitAdoption app through) world (.ok stored) world') :
    stored ∈ world.discovery := by
  obtain ⟨latest, w₁, hlatest, h⟩ := exec_bind_ok h
  obtain ⟨_, w₂, hnew, h⟩ := exec_bind_ok h
  obtain ⟨ever, w₃, hever, h⟩ := exec_bind_ok h
  obtain ⟨_, w₄, hhistory, h⟩ := exec_bind_ok h
  obtain ⟨_, w₅, hidle, h⟩ := exec_bind_ok h
  obtain ⟨found, w₆, hfound, h⟩ := exec_bind_ok h
  obtain ⟨-, w₇, -, h⟩ := exec_bind_ok h
  obtain ⟨changes, w₈, -, h⟩ := exec_bind_ok h
  obtain ⟨-, w₉, -, h⟩ := exec_bind_ok h
  obtain ⟨contents, w₁₀, -, h⟩ := exec_bind_ok h
  obtain ⟨stale, w₁₁, -, h⟩ := exec_bind_ok h
  obtain ⟨-, w₁₂, -, h⟩ := exec_bind_ok h
  cases h
  have hsame : w₅.discovery = world.discovery := by
    rw [exec_discovery hidle, exec_discovery hhistory, exec_discovery hever, exec_discovery hnew,
      exec_discovery hlatest]
  rw [← hsame]
  exact exec_currentDiscovery hfound

/-- An Operator Apply leaves the document alone, also when it rolls back. -/
theorem sparesAdmin_runApply (app : App) (id actor : String) :
    SparesAdmin (runApply app .operator id actor) := by
  have haudit : Collection.audit ≠ .admin := by decide
  have hcandidate : Collection.candidate ≠ .admin := by decide
  have happlies : Collection.applies ≠ .admin := by decide
  have hcluster : Collection.cluster ≠ .admin := by decide
  have hmaintenance : Collection.maintenance ≠ .admin := by decide
  have hsnapshots : Collection.snapshots ≠ .admin := by decide
  have hmark : Collection.highWater ≠ .admin := by decide
  exact writes_runApply haudit happlies hcluster nofun hmaintenance fun prepared =>
    writes_commit id hsnapshots hmark hcandidate haudit actor prepared .operator

theorem sparesAdmin_createApply (uuid : String) (base : Option Nat) :
    SparesAdmin (createApply uuid base) := by
  have happlies : Collection.applies ≠ .admin := by decide
  exact All.bind (writes_perform rfl happlies) fun _ => trivial

/-- So does an adoption, once it has saved it. -/
theorem sparesAdmin_staged (uuid : String) (stored : StoredDiscovery) :
    SparesAdmin (loadCandidate.bind fun candidate =>
      (saveCandidate actor (stageDiscovery stored candidate)).bind fun _ =>
        (createApply uuid (stageDiscovery stored candidate).baseSnapshot).bind fun record =>
          runApply app .operator record.id actor) := by
  have haudit : Collection.audit ≠ .admin := by decide
  have hcandidate : Collection.candidate ≠ .admin := by decide
  exact All.bind readOnly_loadCandidate fun candidate =>
    All.bind (writes_saveCandidate haudit hcandidate _ _) fun _ =>
      All.bind (sparesAdmin_createApply uuid _) fun record => sparesAdmin_runApply app record.id actor

/-- Once an adoption has been admitted, it saves what its discovery read, if it saves at all. -/
theorem exec_adoptStored {uuid : String} {stored : StoredDiscovery}
    (h : Exec (worldMachine outside).answers (adoptStored app uuid actor stored) world r world') :
    world'.admin = world.admin ∨ world'.admin = some stored.adminValues :=
  exec_saveAdmin (fun _ => sparesAdmin_staged uuid stored) h

/-- An adoption that changes the document has been admitted. -/
theorem exec_adopt {uuid : String} {through : Option Nat}
    (h : Exec (worldMachine outside).answers (adopt app uuid actor through) world r world') :
    world'.admin = world.admin ∨
      Admitted app outside through world ∧
        ∃ stored ∈ world.discovery, world'.admin = some stored.adminValues := by
  rw [adopt_eq] at h
  rcases h.bind_inv with ⟨stored, w₁, hadmit, h⟩ | ⟨e, -, hadmit⟩
  · have hspared : w₁.admin = world.admin := SparesAdmin.exec (readOnly_admitAdoption _) hadmit
    rcases exec_adoptStored h with hsaved | hsaved
    · exact .inl (hsaved.trans hspared)
    · exact .inr ⟨⟨stored, w₁, (strict_admitAdoption app through).run_eq hadmit⟩, stored,
        admitAdoption_finds hadmit, hsaved⟩
  · exact .inl (SparesAdmin.exec (readOnly_admitAdoption _) hadmit)

/-- An adoption that is admitted can leave what its discovery read, and does when every call goes
through. -/
theorem run_adopt (uuid actor : String) {through : Option Nat} (h : Admitted app outside through world) :
    ∃ r world', Exec (worldMachine outside).answers (adopt app uuid actor through) world r world' ∧
      ∃ stored ∈ world.discovery, world'.admin = some stored.adminValues := by
  obtain ⟨stored, w₁, hrun⟩ := h
  have hadmit := Exec.of_run (A := (worldMachine outside).answers) (M := worldMachine outside)
    (fun _ _ => .through) (admitAdoption app through) world
  rw [hrun] at hadmit
  obtain ⟨r, world', hrest, hsaved⟩ := saveAdmin_saves outside actor stored.adminValues
    (fun _ => sparesAdmin_staged uuid stored) w₁
  exact ⟨r, world', hadmit.bind hrest, stored, admitAdoption_finds hadmit, hsaved⟩

end operations

/-! ### Each operation -/

theorem edit_leaves (app : App) (outside : Outside)
    (validatePatterns : List CertificateMappingWrite → Except Error Unit) (edit : AdminEdit)
    (world : World) : (AdminOp.edit edit).Leaves app outside validatePatterns world := by
  intro actor r world' h value hvalue
  rcases exec_editAdmin h with hsame | ⟨changed, hchanged, hsaved⟩
  · rw [World.adminValues, World.adminValues, hsame]
    exact value.same_refl _
  · rw [show world'.adminValues = changed by rw [World.adminValues, hsaved]; rfl]
    exact AdminEdit.change_same hchanged hvalue

theorem DiscoveredAdmin.values_same {read : DiscoveredAdmin} {value : AdminValue}
    (h : ¬ read.Sets value) : value.Same read.values {} := by
  obtain ⟨_ | ⟨preserved, enforced⟩⟩ := read
  · exact value.same_refl _
  · cases value with
    | enforcePermissions => exact absurd ⟨rfl, .inl rfl⟩ h
    | preservedAccessControl => exact absurd ⟨rfl, .inr rfl⟩ h
    | _ => rfl

theorem adopt_leaves_iff {app : App} {outside : Outside}
    {validatePatterns : List CertificateMappingWrite → Except Error Unit} {uuid : String}
    {through : Option Nat} {read : DiscoveredAdmin} {world : World}
    (hfits : (AdminOp.adopt uuid through read).Fits world) :
    (AdminOp.adopt uuid through read).Leaves app outside validatePatterns world ↔
      (AdminOp.adopt uuid through read).Heeds app outside world := by
  constructor
  · intro hleaves hadmitted value hvalue
    obtain ⟨r, world', hexec, stored, hstored, hsaved⟩ := run_adopt uuid SYSTEM_ACTOR hadmitted
    have hsame := hleaves SYSTEM_ACTOR r world' hexec value hvalue
    rw [show world'.adminValues = read.values by
      rw [World.adminValues, hsaved, ← hfits stored hstored]; rfl] at hsame
    exact hsame.trans (DiscoveredAdmin.values_same hvalue)
  · intro hheeds actor r world' hexec value hvalue
    rcases exec_adopt hexec with hsame | ⟨hadmitted, stored, hstored, hsaved⟩
    · rw [World.adminValues, World.adminValues, hsame]
      exact value.same_refl _
    · rw [show world'.adminValues = read.values by
        rw [World.adminValues, hsaved, ← hfits stored hstored]; rfl]
      exact (hheeds hadmitted value hvalue).trans (DiscoveredAdmin.values_same hvalue).symm

theorem AdminOp.leaves_iff {app : App} {outside : Outside}
    {validatePatterns : List CertificateMappingWrite → Except Error Unit} {op : AdminOp}
    {world : World} (hfits : op.Fits world) :
    op.Leaves app outside validatePatterns world ↔ op.Heeds app outside world := by
  cases op with
  | edit edit => exact iff_of_true (edit_leaves app outside validatePatterns edit world) trivial
  | adopt uuid through read => exact adopt_leaves_iff hfits

/-- What none of the operations sets is at the end as it was at the start. -/
theorem CarriedOut.same {app : App} {outside : Outside}
    {validatePatterns : List CertificateMappingWrite → Except Error Unit} {ops : List AdminOp}
    {world world' : World}
    (h : CarriedOut app outside validatePatterns
      (fun w op => op.Fits w ∧ op.Heeds app outside w) world ops world') {value : AdminValue}
    (hvalue : ∀ op ∈ ops, ¬ op.Sets value) : value.Same world.adminValues world'.adminValues := by
  induction h with
  | none => exact value.same_refl _
  | next hadmits hop hrest ih =>
    have hfirst := (AdminOp.leaves_iff hadmits.1).mpr hadmits.2 _ _ _ hop value (hvalue _ (by simp))
    exact hfirst.trans (ih fun op hop => hvalue op (by simp [hop]))

/-- A request that neither saves Admin values nor is an Admin Apply, which may roll back. -/
def Request.sparesAdmin (request : Request) : Prop :=
  request.savesAdmin = false ∧ request.engine = .operator

theorem exec_sparesAdmin {app : App} {outside : Outside} {request : Request} {world world' : World}
    {r : Except Error Unit} (hrequest : request.sparesAdmin)
    (h : Exec (worldMachine outside).answers (request.serve app) world r world') :
    world'.admin = world.admin := by
  refine SparesAdmin.exec ?_ h
  obtain ⟨hsaves, hengine⟩ := hrequest
  have haudit : Collection.audit ≠ .admin := by decide
  have hcandidate : Collection.candidate ≠ .admin := by decide
  have hcluster : Collection.cluster ≠ .admin := by decide
  have hmaintenance : Collection.maintenance ≠ .admin := by decide
  cases request with
  | startApply uuid actor =>
    exact All.bind readOnly_mutationsEnabled fun _ => All.bind (readOnly_refuseInFlight _) fun _ =>
      All.bind readOnly_loadCandidate fun candidate =>
        All.bind (sparesAdmin_createApply uuid _) fun record => sparesAdmin_runApply app record.id actor
  | startAdminApply uuid actor => cases hengine
  | adopt uuid actor through => cases hsaves
  | editAdmin actor change => cases hsaves
  | importConfiguration actor sections admin => cases hsaves
  | _ => exact writes_serve_of_not_savesAdmin haudit hcluster hmaintenance hcandidate _ rfl rfl

/-! ### All of them -/

/-- Every edit leaves alone what it does not set; so does an adoption when it is refused, or when every
value its discovery has not read is at its default, and only then.  In operations of the kind, one after
the other, what none of them sets is never touched; no other request but an import of the whole document
and an Admin Apply touches the document at all. -/
theorem admin_values_kept_iff (app : App) (outside : Outside)
    (validatePatterns : List CertificateMappingWrite → Except Error Unit) :
    (∀ (op : AdminOp) (world : World), op.Fits world →
      (op.Leaves app outside validatePatterns world ↔ op.Heeds app outside world)) ∧
    (∀ (world world' : World) (ops : List AdminOp),
      CarriedOut app outside validatePatterns (fun w op => op.Fits w ∧ op.Heeds app outside w)
        world ops world' →
      ∀ value, (∀ op ∈ ops, ¬ op.Sets value) → value.Same world.adminValues world'.adminValues) ∧
    (∀ (request : Request) (world world' : World) (r : Except Error Unit), request.sparesAdmin →
      Exec (worldMachine outside).answers (request.serve app) world r world' →
      world'.admin = world.admin) :=
  ⟨fun _ _ hfits => AdminOp.leaves_iff hfits, fun _ _ _ hcarried _ hvalue => hcarried.same hvalue,
    fun _ _ _ _ hrequest h => exec_sparesAdmin hrequest h⟩

/-! ### A raw file written before adoption -/

/-- A Cluster that has been discovered, with nothing but its defaults found, and seeded. -/
def seededWorld : World :=
  ((seedCluster smallApp).run (worldMachine quietOutside)
    { freshWorld with discovery := some { outstanding := [], resolved := [], adminValues := {} } }).2

/-- An Admin's raw file, written while the pod cannot be read. -/
def extraFile : AdminEdit :=
  .writeRawFile "/etc/trino/extra.properties" "a=b" (.error ⟨"ClusterUnavailable", ""⟩)

/-- The raw file is accepted; the adoption, which sets no Admin value here, drops it. -/
theorem adopt_drops_raw_file : ∃ world,
    CarriedOut smallApp quietOutside (fun _ => .ok ()) (fun w op => op.Fits w) seededWorld
      [.edit extraFile] world ∧
    world.adminValues.rawFiles["/etc/trino/extra.properties"]? = some "a=b" ∧
    (AdminOp.adopt "a1" none ⟨none⟩).Fits world ∧
    ¬ (AdminOp.adopt "a1" none ⟨none⟩).Leaves smallApp quietOutside (fun _ => .ok ()) world := by
  let request := (AdminOp.edit extraFile).request smallApp (fun _ => .ok ()) "eve"
  let world := ((request.serve smallApp).run (worldMachine quietOutside) seededWorld).2
  have hexec := Exec.of_run (A := (worldMachine quietOutside).answers) (M := worldMachine quietOutside)
    (fun _ _ => .through) (request.serve smallApp) seededWorld
  have hfile : world.adminValues.rawFiles["/etc/trino/extra.properties"]? = some "a=b" := by
    decide +kernel
  have hfits : (AdminOp.adopt "a1" none ⟨none⟩).Fits world := by
    intro stored hstored
    have hseed := Exec.of_run (A := (worldMachine quietOutside).answers)
      (M := worldMachine quietOutside) (fun _ _ => .through) (seedCluster smallApp)
      { freshWorld with discovery := some { outstanding := [], resolved := [], adminValues := {} } }
    rw [exec_discovery hexec, seededWorld, exec_discovery hseed] at hstored
    cases hstored
    rfl
  refine ⟨world, .next trivial hexec .none, hfile, hfits, fun hleaves => ?_⟩
  have hadmitted : Admitted smallApp quietOutside none world := by
    have hok : ((admitAdoption smallApp none).run (worldMachine quietOutside) world).1.isOk = true := by
      decide +kernel
    rcases hrun : (admitAdoption smallApp none).run (worldMachine quietOutside) world with ⟨_ | stored, w⟩
    · rw [hrun] at hok
      cases hok
    · exact ⟨stored, w, hrun⟩
  have hdefault := (adopt_leaves_iff hfits).mp hleaves hadmitted (.rawFile "/etc/trino/extra.properties")
    (fun h => by cases h.1)
  rw [AdminValue.Same, hfile] at hdefault
  cases hdefault

end Apchi.Pipeline
