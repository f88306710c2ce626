import Apchi.Pipeline.Play
import Apchi.Pipeline.Records

/-!
# After an incident Apchi leaves the Cluster alone

An incident lasts from the moment a failed rollback engages Maintenance Mode until Maintenance Mode
is released.  In a run in which an incident begins only while every other request still has its gate
before it and no other Apply waits to be rolled back, and in which nobody seeds, and nobody adopts a
Cluster without Snapshots, while it lasts, no call writes the Cluster or inserts a record until it
is over.
-/

namespace Apchi.Pipeline

open Lib Prog

/-! ### The incident -/

/-- Maintenance Mode is engaged because a rollback failed. -/
def World.rollbackFailed (world : World) : Bool :=
  world.engaged && (world.maintenance.getD {}).engagedBy == some .autoRollbackFailure

/-- Whether there is an incident in a world, given whether there was one before. -/
def incidentIn (incident : Bool) (world : World) : Bool :=
  world.engaged && (incident || world.rollbackFailed)

/-- Whether there is an incident after a step. -/
def incidentAfter (incident : Bool) (_ : Service) (_ : Event) (s' : Service) : Bool :=
  incidentIn incident s'.world

/-- The call engages Maintenance Mode because a rollback failed. -/
def Call.declares {β : Type} : Call β → Prop
  | .replaceMaintenance state => state.engagedBy = some .autoRollbackFailure
  | _ => False

/-- The call neither writes the Cluster, nor inserts a record, nor enters one in a stage that is
rolled back from. -/
def Call.harmless {β : Type} (c : Call β) : Prop :=
  c.kind ≠ .clusterWrite ∧ (∀ id, c.kind ≠ .insert id) ∧
    ∀ stage ∈ c.entering, stage ∉ ROLLED_BACK_FROM

/-- A request that will leave the Cluster alone while Maintenance Mode is engaged: it makes only
harmless calls, or has its gate still before it, or is about to be told that the Cluster is
managed already. -/
inductive Held (world : World) : PipelineProg Unit → Prop where
  | quiet {p : PipelineProg Unit} (hp : p.All Call.harmless) : Held world p
  | gated (rest : Unit → PipelineProg Unit) : Held world (mutationsEnabled.bind rest)
  | managed (kind text : String) (rest : Unit → PipelineProg Unit)
      (hsnapshots : world.snapshots ≠ []) :
      Held world ((call .findLatestSnapshot).bind fun latest =>
        (refuseIf latest.isSome kind text).bind rest)

/-- An incident begins while every other request is held and no Apply waits to be rolled back; while
it lasts nobody seeds, and nobody adopts a Cluster without Snapshots. -/
def GatesHold (before : Bool × Service) (event : Event) (after : Bool × Service) : Prop :=
  (before.1 = false → after.1 = true →
    (∀ record ∈ before.2.world.applies, record.stage ∉ ROLLED_BACK_FROM) ∧
      ∀ i task, before.2.tasks[i]? = some task → event.task ≠ some i →
        Held before.2.world task) ∧
  (before.1 = true → match event with
    | .arrive .seed => False
    | .arrive (.adopt ..) => before.2.world.snapshots ≠ []
    | _ => True)

/-! ### Which programs are harmless -/

/-- The kinds of calls that are harmless whatever they are. -/
def CallKind.idle (kind : CallKind) : Prop :=
  kind ≠ .clusterWrite ∧ (∀ id, kind ≠ .insert id) ∧ ∀ id, kind ≠ .apply id

theorem harmless_of_idle {β : Type} (c : Call β) (h : c.kind.idle) : c.harmless := by
  refine ⟨h.1, h.2.1, fun stage hstage => ?_⟩
  cases c with
  | pushStage id _ _ => exact absurd rfl (h.2.2 id)
  | _ => cases hstage

theorem harmless_of_ofKind {α : Type} {p : PipelineProg α} (h : OfKind CallKind.idle p) :
    p.All Call.harmless :=
  h.mono harmless_of_idle

theorem idle_store : CallKind.store.idle := ⟨by nofun, by nofun, by nofun⟩

theorem idle_clusterRead : CallKind.clusterRead.idle := ⟨by nofun, by nofun, by nofun⟩

theorem idle_maintenance : CallKind.maintenance.idle := ⟨by nofun, by nofun, by nofun⟩

theorem failApply_harmless (id reason : String) : (failApply id reason).All Call.harmless :=
  All.bind (all_perform ⟨by nofun, by nofun, by nofun⟩) fun _ =>
    all_perform ⟨by nofun, by nofun, fun stage hstage => by
      cases hstage
      decide⟩

theorem recordIncident_harmless (id reason message : String) :
    (recordIncident id reason message).All Call.harmless :=
  All.bind (all_perform ⟨by nofun, by nofun, by nofun⟩) fun _ =>
    all_perform ⟨by nofun, by nofun, fun stage hstage => by
      cases hstage
      decide⟩

theorem audited_harmless (event : AuditEvent) : (audited event).All Call.harmless :=
  harmless_of_ofKind (ofKind_audited idle_store event)

/-! ### An incident is declared last -/

/-- What follows the declaration of an incident is harmless. -/
abbrev DeclaresLast {α : Type} (p : PipelineProg α) : Prop := p.Then Call.declares Call.harmless

theorem not_declares_of_kind {β : Type} (c : Call β) (h : c.kind ≠ .maintenance) :
    ¬ c.declares := by
  cases c with
  | replaceMaintenance state => exact absurd rfl h
  | _ => exact id

theorem not_declares_of_ofKind {α : Type} {p : PipelineProg α}
    (h : OfKind (fun kind => kind ≠ .maintenance) p) : p.All fun c => ¬ c.declares :=
  h.mono not_declares_of_kind

section declaresLast

variable {app : App}

theorem declaresLast_of_ofKind {α : Type} {p : PipelineProg α}
    (h : OfKind (fun kind => kind ≠ .maintenance) p) : DeclaresLast p :=
  (not_declares_of_ofKind h).then_of_not

theorem declareIncident_harmless (id reason : String) :
    (declareIncident app id reason).All Call.harmless :=
  harmless_of_ofKind (ofKind_declareIncident idle_store idle_maintenance _ _)

/-- A failed rollback is recorded as failed, the incident declared, and the rest is harmless. -/
theorem declaresLast_incident {α : Type} (id reason : String) {rest : Unit → PipelineProg α}
    (hrest : ∀ a, (rest a).All Call.harmless) :
    DeclaresLast ((call (.setRollback id .failed)).bind fun _ =>
      (declareIncident app id reason).bind rest) :=
  Then.after (all_perform fun h => h) fun _ =>
    Then.before (declareIncident_harmless id reason).then hrest

theorem declaresLast_rollBackApply (kind : EngineKind) (id reason : String) :
    DeclaresLast (rollBackApply app kind id reason) := by
  refine Then.after (all_perform fun h => h) fun _ =>
    Then.after (not_declares_of_ofKind
      (ofKind_rollBack (by nofun) (by nofun) (by nofun) kind)).attempt fun r => ?_
  cases r with
  | error e =>
    exact declaresLast_incident id _ fun _ =>
      All.bind (recordIncident_harmless _ _ _) fun _ => audited_harmless _
  | ok _ =>
    exact Then.after (all_perform fun h => h) fun _ =>
      Then.after (not_declares_of_ofKind (ofKind_failApply (by nofun) _)) fun _ =>
        declaresLast_of_ofKind (ofKind_audited (by nofun) _)

theorem declaresLast_runApply (kind : EngineKind) (id actor : String) :
    DeclaresLast (runApply app kind id actor) := by
  refine Then.after (not_declares_of_ofKind
    (ofKind_runStages (by nofun) (by nofun) (by nofun) (by nofun) kind actor)) fun r => ?_
  cases r with
  | ok _ => trivial
  | error failed =>
    obtain ⟨reached, e⟩ := failed
    refine Then.after (not_declares_of_ofKind (ofKind_audited (by nofun) _)) fun _ => ?_
    show DeclaresLast (if ROLLED_BACK_FROM.contains reached then _ else _)
    split
    · exact declaresLast_rollBackApply kind id _
    · exact declaresLast_of_ofKind (ofKind_failApply (by nofun) _)

theorem declaresLast_createApply (uuid : String) (base : Option Nat)
    {f : ApplyRecord → PipelineProg Unit} (hf : ∀ record, DeclaresLast (f record)) :
    DeclaresLast ((createApply uuid base).bind f) :=
  Then.after (not_declares_of_ofKind
    (All.bind (all_perform (by nofun)) fun _ => trivial)) hf

theorem declaresLast_serve (request : Request) : DeclaresLast (request.serve app) := by
  have hstore : CallKind.store ≠ .maintenance := by nofun
  have hread : CallKind.clusterRead ≠ .maintenance := by nofun
  have hwrite : CallKind.clusterWrite ≠ .maintenance := by nofun
  have hgate := not_declares_of_ofKind (ofKind_mutationsEnabled hstore)
  have hflight (text : ApplyRecord → String) :=
    not_declares_of_ofKind (ofKind_refuseInFlight hstore text)
  have hload := not_declares_of_ofKind (ofKind_loadCandidate hstore)
  cases request with
  | startApply uuid actor =>
    exact Then.after hgate fun _ => Then.after (hflight _) fun _ => Then.after hload fun _ =>
      declaresLast_createApply uuid _ fun _ => declaresLast_runApply _ _ _
  | startAdminApply uuid actor =>
    exact Then.after hgate fun _ => Then.after (hflight _) fun _ =>
      Then.after (all_perform fun h => h) fun _ =>
        declaresLast_createApply uuid _ fun _ => declaresLast_runApply _ _ _
  | adopt uuid actor through =>
    exact Then.after (not_declares_of_ofKind (ofKind_admitAdoption hstore hread _)) fun _ =>
      Then.after (not_declares_of_ofKind (ofKind_saveAdmin hstore _ _)) fun _ =>
        Then.after hload fun _ =>
          Then.after (not_declares_of_ofKind (ofKind_saveCandidate hstore _ _)) fun _ =>
            declaresLast_createApply uuid _ fun _ => declaresLast_runApply _ _ _
  | seed => exact declaresLast_of_ofKind (ofKind_seedCluster hstore hread hwrite)
  | editCandidate actor change =>
    exact declaresLast_of_ofKind (ofKind_editCandidate hstore actor change)
  | discardCandidate actor => exact declaresLast_of_ofKind (ofKind_discardCandidate hstore actor)
  | importCandidate actor sections =>
    exact declaresLast_of_ofKind (ofKind_importCandidate hstore actor sections)
  | editAdmin actor change => exact declaresLast_of_ofKind (ofKind_editAdmin hstore actor change)
  | importConfiguration actor sections admin =>
    exact declaresLast_of_ofKind (ofKind_importConfiguration hstore actor sections admin)
  | setMaintenanceMode actor engaged reason =>
    exact (harmless_of_ofKind (ofKind_setMaintenanceMode idle_store idle_maintenance _ _ _)).then
  | review =>
    exact Then.after (not_declares_of_ofKind (ofKind_review hstore hread)) fun _ => trivial
  | sectionRevert actor name number =>
    exact Then.after (not_declares_of_ofKind (ofKind_sectionRevert hstore hread actor name number))
      fun _ => trivial
  | fullRollback actor number =>
    exact Then.after (not_declares_of_ofKind (ofKind_fullRollback hstore hread actor number))
      fun _ => trivial

theorem declaresLast_recoverNext : DeclaresLast (recoverNext app) := by
  refine Then.after (all_perform fun h => h) fun found => ?_
  cases found with
  | none => trivial
  | some record =>
    refine Then.before ?_ fun _ => trivial
    refine Then.after (all_perform fun h => h) fun _ =>
      Then.after (not_declares_of_ofKind (ofKind_failApply (by nofun) _)) fun _ =>
        Then.after (not_declares_of_ofKind (ofKind_audited (by nofun) _)) fun _ => ?_
    show DeclaresLast (if ROLLED_BACK_FROM.contains record.stage then _ else _ : PipelineProg Unit)
    split
    · refine Then.after (not_declares_of_ofKind
        (ofKind_rollBack (by nofun) (by nofun) (by nofun) _)).attempt fun r => ?_
      cases r with
      | error e => exact declaresLast_incident _ _ fun _ => recordIncident_harmless _ _ _
      | ok _ => exact declaresLast_of_ofKind (all_perform (by nofun))
    · trivial

end declaresLast

/-! ### While an incident lasts -/

variable {app : App} {outside : Outside}

/-- What holds of the service while an incident lasts: nothing waits to be rolled back, every
request is held, and what recovery goes on with is harmless. -/
structure Calm (app : App) (s : Service) : Prop where
  engaged : s.world.engaged = true
  settled : ∀ record ∈ s.world.applies, record.stage ∉ ROLLED_BACK_FROM
  tasks : ∀ task ∈ s.tasks, Held s.world task
  recovering : ∀ p, s.recovering = some p → p.All Call.harmless ∨ p = recoverNext app

section calm

variable {world world' : World} {β : Type} {c : Call β} {r : Except Error β}

theorem Held.after {task : PipelineProg Unit} (h : Held world task)
    (hanswer : (worldMachine outside).Answer c world r world') : Held world' task := by
  cases h with
  | quiet hp => exact .quiet hp
  | gated rest => exact .gated rest
  | managed kind text rest hsnapshots =>
    exact .managed kind text rest (answer_snapshots outside hanswer hsnapshots)

theorem latestOf_ne_none {snapshots : List Snapshot} (h : snapshots ≠ []) :
    latestOf snapshots ≠ none := by
  cases snapshots with
  | nil => exact absurd rfl h
  | cons s rest =>
    unfold latestOf
    split
    · nofun
    · split <;> nofun

/-- A held request's next call is harmless, and the request is held after it. -/
theorem Held.call {k : Except Error β → PipelineProg Unit} (h : Held world (.call c k))
    (hengaged : world.engaged = true)
    (hanswer : (worldMachine outside).Answer c world r world') :
    c.harmless ∧ Held world' (k r) := by
  have hstore {β : Type} (c : Call β) (hc : c.kind = .store) : c.harmless :=
    harmless_of_idle c (hc ▸ idle_store)
  generalize hp : Prog.call c k = p at h
  cases h with
  | quiet hquiet =>
    subst hp
    exact ⟨hquiet.1, .quiet (hquiet.2 r)⟩
  | gated rest =>
    -- Maintenance Mode is engaged, so the gate refuses.
    cases hp
    refine ⟨hstore _ rfl, ?_⟩
    cases r with
    | error e => exact .quiet trivial
    | ok state =>
      have hstate : world.maintenance.getD {} = state :=
        Except.ok.inj (congrArg Prod.fst hanswer.ok)
      unfold World.engaged at hengaged
      rw [hstate] at hengaged
      show Held _ (Prog.bind (if state.engaged then _ else _) rest)
      rw [if_pos hengaged]
      exact .quiet trivial
  | managed kind text rest hsnapshots =>
    cases hp
    refine ⟨hstore _ rfl, ?_⟩
    cases r with
    | error e => exact .quiet trivial
    | ok latest =>
      have hlatest : latestOf world.snapshots = latest :=
        Except.ok.inj (congrArg Prod.fst hanswer.ok)
      cases latest with
      | none => exact absurd hlatest (latestOf_ne_none hsnapshots)
      | some _ => exact .quiet trivial

/-- A turn of recovery makes only harmless calls when nothing waits to be rolled back. -/
theorem recoverNext_call {k : Except Error β → PipelineProg (Option String)}
    (hcall : Prog.call c k = recoverNext app)
    (hsettled : ∀ record ∈ world.applies, record.stage ∉ ROLLED_BACK_FROM)
    (hanswer : (worldMachine outside).Answer c world r world') :
    c.harmless ∧ (k r).All Call.harmless := by
  cases hcall
  refine ⟨harmless_of_idle _ idle_store, ?_⟩
  cases r with
  | error e => trivial
  | ok found =>
    have hfound : world.applies.find? ApplyRecord.inFlight = found :=
      Except.ok.inj (congrArg Prod.fst hanswer.ok)
    cases found with
    | none => trivial
    | some record =>
      have hstage := hsettled record (List.mem_of_find?_eq_some hfound)
      show ((resolveInterrupted app record).bind _).All _
      refine All.bind (All.bind (all_perform ⟨by nofun, by nofun, by nofun⟩) fun _ =>
        All.bind (failApply_harmless _ _) fun _ =>
          All.bind (audited_harmless _) fun _ => ?_) fun _ => trivial
      show Prog.All _ (if ROLLED_BACK_FROM.contains record.stage then _ else _ : PipelineProg Unit)
      rw [if_neg (by simpa using hstage)]
      trivial

/-- A harmless call leaves nothing waiting to be rolled back. -/
theorem settled_after (hsettled : ∀ record ∈ world.applies, record.stage ∉ ROLLED_BACK_FROM)
    (hharmless : c.harmless) (hanswer : (worldMachine outside).Answer c world r world') :
    ∀ record ∈ world'.applies, record.stage ∉ ROLLED_BACK_FROM := by
  intro record hrecord
  rcases (answer_recordChange outside hanswer).stage hharmless.2.1 record hrecord with
    ⟨before, hbefore, heq⟩ | hentered
  · exact heq ▸ hsettled before hbefore
  · exact hharmless.2.2 _ hentered

/-- Maintenance Mode comes to be engaged for a failed rollback by a call that says so. -/
theorem declares_of_rollbackFailed (hbefore : world.rollbackFailed = false)
    (hafter : world'.rollbackFailed = true)
    (hanswer : (worldMachine outside).Answer c world r world') : c.declares := by
  by_cases hkind : c.kind = .maintenance
  · rcases hanswer.state with rfl | rfl
    · rw [hbefore] at hafter
      cases hafter
    · cases c with
      | replaceMaintenance state =>
        obtain ⟨-, hby⟩ := Bool.and_eq_true_iff.mp hafter
        exact eq_of_beq hby
      | cluster call =>
        change (if call.writes then CallKind.clusterWrite else .clusterRead) = _ at hkind
        split at hkind <;> cases hkind
      | _ => cases hkind
  · unfold World.rollbackFailed World.engaged at *
    rw [answer_maintenance outside hanswer hkind, hbefore] at hafter
    cases hafter

theorem harmless_of_declares (h : c.declares) : c.harmless := by
  cases c with
  | replaceMaintenance state => exact harmless_of_idle _ idle_maintenance
  | _ => exact h.elim

end calm

/-! ### The service -/

/-- What holds of the service in every run in which the gates hold. -/
structure LeftAlone (app : App) (state : Bool × Service) : Prop where
  unsaid : state.1 = false → state.2.world.rollbackFailed = false
  tasks : ∀ task ∈ state.2.tasks, DeclaresLast task
  recovering : ∀ p, state.2.recovering = some p → DeclaresLast p
  calm : state.1 = true → Calm app state.2

section step

variable {incident : Bool} {s s' : Service} {event : Event}

/-- Where there is no incident, Maintenance Mode is not engaged for a failed rollback. -/
theorem not_rollbackFailed_of_incidentIn {world : World} (h : incidentIn incident world = false) :
    world.rollbackFailed = false := by
  unfold incidentIn at h
  unfold World.rollbackFailed at *
  cases hengaged : world.engaged with
  | false => rfl
  | true => simp_all

theorem engaged_of_incidentIn {world : World} (h : incidentIn incident world = true) :
    world.engaged = true := (Bool.and_eq_true_iff.mp h).1

/-- What arrives while an incident lasts is held, if it may arrive. -/
theorem held_serve {request : Request} {world : World}
    (hseed : request ≠ .seed)
    (hadopt : ∀ uuid actor through, request = .adopt uuid actor through → world.snapshots ≠ []) :
    Held world (request.serve app) := by
  cases request with
  | startApply uuid actor => exact .gated _
  | startAdminApply uuid actor => exact .gated _
  | adopt uuid actor through =>
    show Held world (Prog.bind (admitAdoption app through) _)
    simp only [admitAdoption, bind_eq, bind_assoc]
    exact .managed _ _ _ (hadopt uuid actor through rfl)
  | seed => exact absurd rfl hseed
  | editCandidate actor change =>
    exact .quiet (harmless_of_ofKind (ofKind_editCandidate idle_store actor change))
  | discardCandidate actor =>
    exact .quiet (harmless_of_ofKind (ofKind_discardCandidate idle_store actor))
  | importCandidate actor sections =>
    exact .quiet (harmless_of_ofKind (ofKind_importCandidate idle_store actor sections))
  | editAdmin actor change =>
    exact .quiet (harmless_of_ofKind (ofKind_editAdmin idle_store actor change))
  | importConfiguration actor sections admin =>
    exact .quiet (harmless_of_ofKind (ofKind_importConfiguration idle_store actor sections admin))
  | setMaintenanceMode actor engaged reason =>
    exact .quiet (harmless_of_ofKind
      (ofKind_setMaintenanceMode idle_store idle_maintenance actor engaged reason))
  | review =>
    exact .quiet (harmless_of_ofKind
      (All.bind (ofKind_review idle_store idle_clusterRead) fun _ => trivial))
  | sectionRevert actor name number =>
    exact .quiet (harmless_of_ofKind
      (All.bind (ofKind_sectionRevert idle_store idle_clusterRead actor name number) fun _ =>
        trivial))
  | fullRollback actor number =>
    exact .quiet (harmless_of_ofKind
      (All.bind (ofKind_fullRollback idle_store idle_clusterRead actor number) fun _ => trivial))

/-- A call is harmless and leaves the service calm, once an incident has begun with it or before:
its maker is known to go on harmlessly, and every other request is held. -/
theorem calm_after {world : World} {β : Type} {c : Call β} {r : Except Error β}
    {tasks : List (PipelineProg Unit)} {recovering : Option (PipelineProg (Option String))}
    (hsettled : ∀ record ∈ s.world.applies, record.stage ∉ ROLLED_BACK_FROM)
    (hharmless : c.harmless) (hanswer : (worldMachine outside).Answer c s.world r world)
    (hengaged : world.engaged = true)
    (htasks : ∀ task ∈ tasks, Held s.world task ∨ Held world task)
    (hrecovering : ∀ p, recovering = some p → p.All Call.harmless ∨ p = recoverNext app) :
    Calm app { world := world, recovering := recovering, tasks := tasks } where
  engaged := hengaged
  settled := settled_after hsettled hharmless hanswer
  tasks := fun task htask => (htasks task htask).elim (fun h => h.after hanswer) id
  recovering := hrecovering

theorem LeftAlone.task (h : LeftAlone app (incident, s)) {i : Nat} {β : Type} {c : Call β}
    {k : Except Error β → PipelineProg Unit} {r : Except Error β} {world : World}
    (htask : s.tasks[i]? = some (.call c k)) (hserving : s.recovering = none)
    (hanswer : (worldMachine outside).Answer c s.world r world)
    (hs' : s' = { s with world := world, tasks := s.tasks.set i (k r) })
    (hevent : event = .call (some i) c r)
    (hadmits : GatesHold (incident, s) event (incidentAfter incident s event s', s')) :
    LeftAlone app (incidentAfter incident s event s', s') := by
  subst hs' hevent
  have hlast : DeclaresLast (.call c k) := h.tasks _ (List.mem_of_getElem? htask)
  refine ⟨not_rollbackFailed_of_incidentIn, fun task hmem => ?_, fun p hp => ?_, fun hincident => ?_⟩
  · rcases List.mem_or_eq_of_mem_set hmem with hmem | rfl
    · exact h.tasks task hmem
    · exact hlast.2 r
  · rw [show s.recovering = some p from hp] at hserving
    cases hserving
  have hengaged := engaged_of_incidentIn hincident
  have hidle : ∀ p, s.recovering = some p → p.All Call.harmless ∨ p = recoverNext app := by
    intro p hp
    rw [hp] at hserving
    cases hserving
  cases incident with
  | true =>
    have hcalm := h.calm rfl
    obtain ⟨hharmless, hheld⟩ :=
      (hcalm.tasks _ (List.mem_of_getElem? htask)).call hcalm.engaged hanswer
    refine calm_after hcalm.settled hharmless hanswer hengaged (fun task hmem => ?_) hidle
    rcases List.mem_or_eq_of_mem_set hmem with hmem | rfl
    · exact Or.inl (hcalm.tasks task hmem)
    · exact Or.inr hheld
  | false =>
    obtain ⟨hsettled, hothers⟩ := hadmits.1 rfl hincident
    have hdeclares : c.declares := declares_of_rollbackFailed (h.unsaid rfl)
      (Bool.and_eq_true_iff.mp hincident).2 hanswer
    refine calm_after hsettled (harmless_of_declares hdeclares) hanswer hengaged
      (fun task hmem => ?_) hidle
    obtain ⟨j, hj⟩ := List.mem_iff_getElem?.mp hmem
    by_cases hij : i = j
    · subst hij
      rw [List.getElem?_set_self (List.getElem?_eq_some_iff.mp htask).1] at hj
      cases hj
      exact Or.inr (.quiet (hlast.1 hdeclares r))
    · rw [List.getElem?_set_ne hij] at hj
      exact Or.inl (hothers j task hj fun heq => hij (Option.some.inj heq))

theorem LeftAlone.recover (h : LeftAlone app (incident, s)) {β : Type} {c : Call β}
    {k : Except Error β → PipelineProg (Option String)} {r : Except Error β} {world : World}
    (hrecovering : s.recovering = some (.call c k))
    (hanswer : (worldMachine outside).Answer c s.world r world)
    (hs' : s' = { s with world := world, recovering := some (k r) })
    (hevent : event = .call none c r)
    (hadmits : GatesHold (incident, s) event (incidentAfter incident s event s', s')) :
    LeftAlone app (incidentAfter incident s event s', s') := by
  subst hs' hevent
  have hlast : DeclaresLast (.call c k) := h.recovering _ hrecovering
  refine ⟨not_rollbackFailed_of_incidentIn, h.tasks, ?_, fun hincident => ?_⟩
  · rintro p ⟨⟩
    exact hlast.2 r
  have hengaged := engaged_of_incidentIn hincident
  cases incident with
  | true =>
    have hcalm := h.calm rfl
    have hcall : c.harmless ∧ (k r).All Call.harmless := by
      rcases hcalm.recovering _ hrecovering with hharmless | hturn
      · exact ⟨hharmless.1, hharmless.2 r⟩
      · exact recoverNext_call hturn hcalm.settled hanswer
    refine calm_after hcalm.settled hcall.1 hanswer hengaged
      (fun task hmem => Or.inl (hcalm.tasks task hmem)) ?_
    rintro p ⟨⟩
    exact Or.inl hcall.2
  | false =>
    obtain ⟨hsettled, hothers⟩ := hadmits.1 rfl hincident
    have hdeclares : c.declares := declares_of_rollbackFailed (h.unsaid rfl)
      (Bool.and_eq_true_iff.mp hincident).2 hanswer
    refine calm_after hsettled (harmless_of_declares hdeclares) hanswer hengaged
      (fun task hmem => ?_) ?_
    · obtain ⟨j, hj⟩ := List.mem_iff_getElem?.mp hmem
      exact Or.inl (hothers j task hj nofun)
    · rintro p ⟨⟩
      exact Or.inl (hlast.1 hdeclares r)

/-- In the world as it is no incident begins, and none ends. -/
theorem LeftAlone.incident_eq (h : LeftAlone app (incident, s)) :
    incidentIn incident s.world = incident := by
  unfold incidentIn
  cases incident with
  | true => simp [(h.calm rfl).engaged]
  | false => simp [h.unsaid rfl]

/-- Every step in which the gates hold keeps the Cluster left alone. -/
theorem LeftAlone.step {state state' : Bool × Service} (h : LeftAlone app state)
    (hadmits : GatesHold state event state')
    (hstep : Recording (Step app outside) incidentAfter state event state') :
    LeftAlone app state' := by
  obtain ⟨incident, s⟩ := state
  obtain ⟨incident', s'⟩ := state'
  obtain ⟨hstep, hincident⟩ := hstep
  obtain rfl : incident' = incidentAfter incident s event s' := hincident
  have hboot : DeclaresLast (recoverNext app) := declaresLast_recoverNext
  cases hstep with
  | task hserving htask hanswer => exact h.task htask hserving hanswer rfl rfl hadmits
  | recover hrecovering hanswer => exact h.recover hrecovering hanswer rfl rfl hadmits
  | arrive request hserving hfresh =>
    show LeftAlone app (incidentIn incident s.world, _)
    rw [h.incident_eq]
    refine ⟨h.unsaid, fun task hmem => ?_, h.recovering, fun hincident => ?_⟩
    · rcases List.mem_append.mp hmem with hmem | hmem
      · exact h.tasks task hmem
      · obtain rfl := List.mem_singleton.mp hmem
        exact declaresLast_serve request
    · have hcalm := h.calm hincident
      refine ⟨hcalm.engaged, hcalm.settled, fun task hmem => ?_, hcalm.recovering⟩
      rcases List.mem_append.mp hmem with hmem | hmem
      · exact hcalm.tasks task hmem
      · obtain rfl := List.mem_singleton.mp hmem
        have hrequest := hadmits.2 hincident
        refine held_serve ?_ ?_
        · rintro rfl
          exact hrequest
        · rintro uuid actor through rfl
          exact hrequest
  | again hrecovering =>
    show LeftAlone app (incidentIn incident s.world, _)
    rw [h.incident_eq]
    refine ⟨h.unsaid, h.tasks, ?_, fun hincident => ?_⟩
    · rintro p ⟨⟩
      exact hboot
    · have hcalm := h.calm hincident
      refine ⟨hcalm.engaged, hcalm.settled, hcalm.tasks, ?_⟩
      rintro p ⟨⟩
      exact Or.inr rfl
  | recovered hrecovering =>
    show LeftAlone app (incidentIn incident s.world, _)
    rw [h.incident_eq]
    refine ⟨h.unsaid, h.tasks, nofun, fun hincident => ?_⟩
    have hcalm := h.calm hincident
    exact ⟨hcalm.engaged, hcalm.settled, hcalm.tasks, nofun⟩
  | gaveUp hrecovering =>
    show LeftAlone app (incidentIn incident s.world, _)
    rw [h.incident_eq]
    refine ⟨h.unsaid, h.tasks, nofun, fun hincident => ?_⟩
    have hcalm := h.calm hincident
    exact ⟨hcalm.engaged, hcalm.settled, hcalm.tasks, nofun⟩
  | die =>
    show LeftAlone app (incidentIn incident s.world, _)
    rw [h.incident_eq]
    refine ⟨h.unsaid, nofun, ?_, fun hincident => ?_⟩
    · rintro p ⟨⟩
      exact hboot
    · have hcalm := h.calm hincident
      refine ⟨hcalm.engaged, hcalm.settled, nofun, ?_⟩
      rintro p ⟨⟩
      exact Or.inr rfl

end step

/-- After an incident Apchi leaves the Cluster alone: in every run from a world without one in which
the gates hold, no call made while an incident lasts writes the Cluster or inserts an Apply
record. -/
theorem incident_leaves_alone (app : App) (outside : Outside) (world : World)
    (hstart : world.engaged = false) {state : Bool × Service}
    (hrun : Run (Recording (Step app outside) incidentAfter) GatesHold
      (false, Service.boot app world) state) (hincident : state.1 = true)
    {task : Option Nat} {β : Type} {c : Call β} {r : Except Error β} {s' : Service}
    (hstep : Step app outside state.2 (.call task c r) s') :
    c.kind ≠ .clusterWrite ∧ ∀ id, c.kind ≠ .insert id := by
  have hbegin : LeftAlone app (false, Service.boot app world) := by
    refine ⟨fun _ => ?_, nofun, ?_, nofun⟩
    · show (world.engaged && _) = false
      rw [hstart]
      rfl
    · rintro p ⟨⟩
      exact declaresLast_recoverNext
  have h := hrun.invariant hbegin fun _ _ _ h hadmits hstep => h.step hadmits hstep
  have hcalm := h.calm hincident
  have hharmless : c.harmless := by
    cases hstep with
    | task hserving htask hanswer =>
      exact ((hcalm.tasks _ (List.mem_of_getElem? htask)).call hcalm.engaged hanswer).1
    | recover hrecovering hanswer =>
      rcases hcalm.recovering _ hrecovering with hharmless | hturn
      · exact hharmless.1
      · exact (recoverNext_call hturn hcalm.settled hanswer).1
  exact ⟨hharmless.1, hharmless.2.1⟩

/-- An incident begins while nothing else is being served, and nothing arrives while it lasts. -/
def Undisturbed (before : Bool × Service) (event : Event) (after : Bool × Service) : Prop :=
  (before.1 = false → after.1 = true →
    (∀ record ∈ before.2.world.applies, record.stage ∉ ROLLED_BACK_FROM) ∧
      ∀ i < before.2.tasks.length, event.task = some i) ∧
  (before.1 = true → match event with
    | .arrive _ => False
    | _ => True)

instance (before after : Bool × Service) (event : Event) :
    Decidable (Undisturbed before event after) :=
  match event with
  | .arrive _ => inferInstanceAs (Decidable (_ ∧ (_ → False)))
  | .call .. | .again | .recovered | .gaveUp | .die => inferInstanceAs (Decidable (_ ∧ (_ → True)))

theorem Undisturbed.gatesHold {before after : Bool × Service} {event : Event}
    (h : Undisturbed before event after) : GatesHold before event after := by
  refine ⟨fun hbefore hafter => ?_, fun hbefore => ?_⟩
  · obtain ⟨hsettled, honly⟩ := h.1 hbefore hafter
    exact ⟨hsettled, fun i task htask hother =>
      absurd (honly i (List.getElem?_eq_some_iff.mp htask).1) hother⟩
  · have hquiet := h.2 hbefore
    cases event with
    | arrive request => exact hquiet.elim
    | _ => trivial

/-- An Apply is delivering, its next call is lost, and so is the first of its rollback: the incident
is declared. -/
def toIncident : List Move :=
  servingOne (.startApply "a1" "bob") ++ List.replicate 16 (.task 0) ++
    [.lose 0, .task 0, .task 0, .lose 0, .task 0, .task 0]

/-- An incident with nothing else going on: the Apply still has its record to write. -/
theorem incident_leaves_alone_undisturbed : ∃ (state : Bool × Service) (β : Type) (c : Call β)
    (r : Except Error β) (s' : Service),
    Run (Recording (Step smallApp quietOutside) incidentAfter) GatesHold
      (false, Service.boot smallApp freshWorld) state ∧
    state.1 = true ∧ Step smallApp quietOutside state.2 (.call (some 0) c r) s' ∧
    c.kind ≠ .clusterWrite ∧ ∀ id, c.kind ≠ .insert id := by
  obtain ⟨state, hrun, hplayed⟩ := playAll_reaches smallApp quietOutside incidentAfter Undisturbed
    toIncident (false, Service.boot smallApp freshWorld)
    (fun state => state.1 && state.2.nextKind 0 == some .store) (by decide +kernel)
  obtain ⟨hincident, hnext⟩ := Bool.and_eq_true_iff.mp hplayed
  have hrun := hrun.mono fun _ _ _ h => Undisturbed.gatesHold h
  obtain ⟨β, c, r, s', -, hstep⟩ := Service.step_of_nextKind smallApp quietOutside (eq_of_beq hnext)
  exact ⟨state, β, c, r, s', hrun, hincident, hstep,
    incident_leaves_alone smallApp quietOutside freshWorld rfl hrun hincident hstep⟩

/-- A Cluster that has been read to be adopted, and not yet seeded. -/
def discoveredWorld : World :=
  { freshWorld with discovery := some { outstanding := [], resolved := [], adminValues := {} } }

/-- A Cluster is seeded while an incident lasts: its Secrets are written. -/
theorem seed_writes_amid_incident : ∃ (state : Bool × Service) (β : Type) (c : Call β)
    (r : Except Error β) (s' : Service),
    Run (Recording (Step smallApp quietOutside) incidentAfter) (fun _ _ _ => True)
      (false, Service.boot smallApp discoveredWorld) state ∧
    state.1 = true ∧ Step smallApp quietOutside state.2 (.call (some 1) c r) s' ∧
    c.kind = .clusterWrite := by
  obtain ⟨state, hrun, hplayed⟩ := playAll_reaches smallApp quietOutside incidentAfter
    (fun _ _ _ => True) (toIncident ++ [.arrive .seed, .task 1, .task 1])
    (false, Service.boot smallApp discoveredWorld)
    (fun state => state.1 && state.2.nextKind 1 == some .clusterWrite) (by decide +kernel)
  obtain ⟨hincident, hnext⟩ := Bool.and_eq_true_iff.mp hplayed
  obtain ⟨β, c, r, s', hkind, hstep⟩ := Service.step_of_nextKind smallApp quietOutside (eq_of_beq hnext)
  exact ⟨state, β, c, r, s', hrun, hincident, hstep, hkind⟩

end Apchi.Pipeline
