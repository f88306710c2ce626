import Apchi.Pipeline.Play
import Apchi.Pipeline.Records

/-!
# Crash recovery is complete

A ledger is kept beside the service: the Applies a death interrupted while they were writing the
Cluster, each struck off when its rollback has completed or when its incident is recorded with
Maintenance Mode engaged.  In a run in which no death comes at an Apply that is being rolled back,
or at one of the ledger's that recovery has already failed, whatever the ledger holds is still in a
stage recovery rolls back from; so when recovery has run to completion the ledger is empty.
-/

namespace Apchi.Pipeline

open Lib Prog

/-! ### The ledger -/

/-- The stages of an Apply that has started writing the Cluster and has not reached Commit. -/
def WRITING : List Stage := [.applying, .rollingOut, .verifying, .rollingBack]

/-- The Applies that are writing the Cluster. -/
def World.writing (world : World) : List String :=
  (world.applies.filter fun record => WRITING.contains record.stage).map ApplyRecord.id

/-- The incident of an Apply is recorded, and Maintenance Mode engaged. -/
def World.incidentSaid (world : World) (id : String) : Bool :=
  world.engaged && (world.record id).map ApplyRecord.stage == some .incident

/-- The Apply whose rollback a call records as done. -/
def Call.rolledBack {β : Type} : Call β → Option String
  | .setRollback id .succeeded => some id
  | _ => none

/-- What is left of the ledger after a call. -/
def stillOwed {β : Type} (owed : List String) (c : Call β) (world : World) : List String :=
  owed.filter fun id => c.rolledBack != some id && !world.incidentSaid id

/-- The Apply whose rollback recovery has completed and is about to record. -/
def aboutToRecord : Option (PipelineProg (Option String)) → Option String
  | some (.call c _) => c.rolledBack
  | _ => none

/-- What of the ledger a death finds. -/
def owedAtDeath (owed : List String) (s : Service) : List String :=
  owed.filter fun id => aboutToRecord s.recovering != some id

/-- The ledger after a step. -/
def ledgerAfter (owed : List String) (s : Service) (event : Event) (s' : Service) : List String :=
  match event with
  | .call _ c _ => stillOwed owed c s'.world
  | .die => owedAtDeath owed s ++ s.world.writing
  | _ => owed

variable (app : App) (outside : Outside)

/-- A step of the service with its ledger. -/
abbrev LedgerStep : List String × Service → Event → List String × Service → Prop :=
  Recording (Step app outside) ledgerAfter

/-- A death finds no Apply being rolled back, and none of the ledger's already failed. -/
def RecoverableDeath (state : List String × Service) (event : Event)
    (_ : List String × Service) : Prop :=
  match event with
  | .die => (∀ record ∈ state.2.world.applies, record.stage ≠ .rollingBack) ∧
      ∀ id ∈ owedAtDeath state.1 state.2, ∀ record ∈ state.2.world.applies,
        record.id = id → record.inFlight = true
  | _ => True

instance (before after : List String × Service) (event : Event) :
    Decidable (RecoverableDeath before event after) :=
  match event with
  | .die => inferInstanceAs (Decidable (_ ∧ _))
  | .arrive _ | .call .. | .again | .recovered | .gaveUp => .isTrue trivial

/-! ### What the ledger's Applies are in -/

/-- Each of the ledger's Applies has a record, which recovery rolls back from or which is over. -/
structure Tracked (owed : List String) (world : World) : Prop where
  unique : world.ids.Nodup
  known : ∀ id ∈ owed, ∃ record, world.record id = some record ∧
    (record.stage ∈ ROLLED_BACK_FROM ∨ record.inFlight = false)

/-- Recovery has yet to roll back each of the ledger's Applies, but for the one excepted. -/
def PendingBut (except : Option String) (owed : List String) (world : World) : Prop :=
  ∀ id ∈ owed, except ≠ some id → ∃ record, world.record id = some record ∧
    record.stage ∈ ROLLED_BACK_FROM

theorem mem_of_mem_stillOwed {β : Type} {owed : List String} {c : Call β} {world : World}
    {id : String} (h : id ∈ stillOwed owed c world) : id ∈ owed := List.mem_of_mem_filter h

section tracked

variable {outside} {owed : List String} {world world' : World} {β : Type} {c : Call β}
  {r : Except Error β}

/-- A call keeps the ledger's Applies tracked if it moves none of them but to its end. -/
theorem Tracked.after (h : Tracked owed world)
    (hc : ∀ id ∈ owed, c.kind = .apply id → ∀ stage ∈ c.entering, stage ∈ TERMINAL)
    (hanswer : (worldMachine outside).Answer c world r world') :
    Tracked (stillOwed owed c world') world' := by
  have hchange := answer_recordChange outside hanswer
  refine ⟨hchange.nodup h.unique, fun id hid => ?_⟩
  have hmem := mem_of_mem_stillOwed hid
  obtain ⟨record, hrecord, hstage⟩ := h.known id hmem
  obtain ⟨after, hafter, rfl | ⟨hkind, hentered⟩⟩ := hchange.record hrecord
  · exact ⟨after, hafter, hstage⟩
  refine ⟨after, hafter, ?_⟩
  cases hentering : c.entering with
  | none =>
    rw [hentering] at hentered
    unfold ApplyRecord.inFlight at *
    rwa [show after.stage = record.stage from hentered]
  | some stage =>
    rw [hentering] at hentered
    refine Or.inr ?_
    unfold ApplyRecord.inFlight
    rw [show after.stage = stage from hentered]
    simpa using hc id hmem hkind stage hentering

/-- A call that moves none of the pending Applies leaves them pending. -/
theorem PendingBut.after {except : Option String} (h : PendingBut except owed world)
    (hc : ∀ id ∈ owed, except ≠ some id → c.kind = .apply id → c.entering = none)
    (hanswer : (worldMachine outside).Answer c world r world') :
    PendingBut except (stillOwed owed c world') world' := by
  intro id hid hne
  have hmem := mem_of_mem_stillOwed hid
  obtain ⟨record, hrecord, hstage⟩ := h id hmem hne
  obtain ⟨after, hafter, rfl | ⟨hkind, hentered⟩⟩ :=
    (answer_recordChange outside hanswer).record hrecord
  · exact ⟨after, hafter, hstage⟩
  · rw [hc id hmem hne hkind] at hentered
    exact ⟨after, hafter, hentered ▸ hstage⟩

end tracked

/-! ### One turn of recovery -/

/-- What can come of a call, with what is left of the ledger. -/
def ledgerAnswers : Answers Call (List String × World) :=
  fun _ c before r after =>
    (worldMachine outside).Answer c before.2 r after.2 ∧ after.1 = stillOwed before.1 c after.2

/-- What a turn of recovery comes to: the rest of the ledger is still pending; and when it finds
nothing in flight, nothing is in flight and nothing is owed. -/
def TurnDone : Except Error (Option String) → List String × World → Prop
  | .ok none, state =>
      (∀ record ∈ state.2.applies, record.inFlight = false) ∧ state.1 = []
  | .ok (some _), state => PendingBut none state.1 state.2
  | .error _, _ => True

/-- In the middle of a turn: recovery is busy with this Apply, and has yet to roll back the others
of the ledger. -/
structure Busy (id : String) (state : List String × World) : Prop where
  others : PendingBut (some id) state.1 state.2
  known : (state.2.record id).isSome

/-- The calls of a turn name no Apply but the one it resolves. -/
def OnlyApply (id : String) (kind : CallKind) : Prop := ∀ other, kind = .apply other → other = id

theorem onlyApply_self (id : String) : OnlyApply id (.apply id) := fun _ h => by
  cases h
  rfl

theorem onlyApply_store (id : String) : OnlyApply id .store := fun _ h => nomatch h

theorem onlyApply_clusterRead (id : String) : OnlyApply id .clusterRead := fun _ h => nomatch h

theorem onlyApply_clusterWrite (id : String) : OnlyApply id .clusterWrite := fun _ h => nomatch h

theorem onlyApply_maintenance (id : String) : OnlyApply id .maintenance := fun _ h => nomatch h

section turn

variable {app} {outside} {id : String} {state state' : List String × World} {β : Type}
  {c : Call β} {r : Except Error β}

theorem Busy.after (h : Busy id state) (hanswer : ledgerAnswers outside β c state r state')
    (hkind : OnlyApply id c.kind) : Busy id state' := by
  obtain ⟨hanswer, howed⟩ := hanswer
  obtain ⟨record, hrecord⟩ := Option.isSome_iff_exists.mp h.known
  obtain ⟨after, hafter, -⟩ := (answer_recordChange outside hanswer).record hrecord
  refine ⟨?_, by rw [hafter]; rfl⟩
  rw [howed]
  refine h.others.after (fun other _ hne hother => ?_) hanswer
  exact absurd (congrArg some (hkind other hother)).symm hne

/-- The calls of a turn leave recovery busy with its Apply, and add nothing to the ledger. -/
theorem Busy.wp {α : Type} {p : PipelineProg α} (hp : OfKind (OnlyApply id) p)
    (h : Busy id state) :
    p.Wp (ledgerAnswers outside) (fun _ after => Busy id after ∧ after.1 ⊆ state.1) state := by
  refine All.wp (I := fun after => Busy id after ∧ after.1 ⊆ state.1) ?_ hp
    ⟨h, List.Subset.refl _⟩
  intro β c before r after hkind hbefore hanswer
  refine ⟨hbefore.1.after hanswer hkind, fun other hother => hbefore.2 ?_⟩
  rw [hanswer.2] at hother
  exact mem_of_mem_stillOwed hother

/-- Maintenance Mode stays engaged through calls that do not set it. -/
theorem Busy.wp_engaged {α : Type} {p : PipelineProg α}
    (hp : OfKind (fun kind => OnlyApply id kind ∧ kind ≠ .maintenance) p)
    (h : Busy id state) (hengaged : state.2.engaged = true) :
    p.Wp (ledgerAnswers outside)
      (fun _ after => Busy id after ∧ after.2.engaged = true) state := by
  refine All.wp (I := fun after => Busy id after ∧ after.2.engaged = true) ?_ hp ⟨h, hengaged⟩
  intro β c before r after hkind hbefore hanswer
  refine ⟨hbefore.1.after hanswer hkind.1, ?_⟩
  unfold World.engaged at *
  rw [answer_maintenance outside hanswer.1 hkind.2]
  exact hbefore.2

/-- Once its Apply is off the ledger a turn leaves all of the ledger pending. -/
theorem Busy.pending (h : Busy id state) (hnot : id ∉ state.1) :
    PendingBut none state.1 state.2 := fun other hother _ =>
  h.others other hother fun heq => hnot (Option.some.inj heq ▸ hother)

/-- The outcome of resolving one Apply: when it is not cut short, all of the ledger is pending. -/
def Resolved : Except Error Unit → List String × World → Prop
  | .ok _, state => PendingBut none state.1 state.2
  | .error _, _ => True

/-- Recording a rollback as done takes the Apply off the ledger, whatever becomes of the call. -/
theorem Busy.setRollback (h : Busy id state) :
    (call (.setRollback id .succeeded)).Wp (ledgerAnswers outside) Resolved state := by
  refine (wp_perform _).mpr fun r after hanswer => ?_
  have hbusy : Busy id after := h.after hanswer (onlyApply_self id)
  cases r with
  | error e => trivial
  | ok _ =>
    refine hbusy.pending fun hid => ?_
    rw [hanswer.2] at hid
    simpa [Call.rolledBack] using (List.mem_filter.mp hid).2

/-- Recording the incident, with Maintenance Mode engaged, takes the Apply off the ledger. -/
theorem Busy.recordIncident (h : Busy id state) (hengaged : state.2.engaged = true)
    (reason message : String) :
    (recordIncident id reason message).Wp (ledgerAnswers outside) Resolved state := by
  refine (wp_bind _ _).mpr
    ((h.wp_engaged (all_perform ⟨onlyApply_self id, by nofun⟩) hengaged).mono ?_)
  rintro (e | _) after ⟨hbusy, hengaged⟩
  · trivial
  refine (wp_perform _).mpr fun r done hanswer => ?_
  have hdone : Busy id done := hbusy.after hanswer (onlyApply_self id)
  cases r with
  | error e => trivial
  | ok _ =>
    refine hdone.pending fun hid => ?_
    have happlies : done.2.applies = updateRecord id
        (fun record => record.advance .incident (some message)) after.2.applies := by
      rw [← congrArg Prod.snd hanswer.1.ok]
      rfl
    obtain ⟨record, hrecord⟩ := Option.isSome_iff_exists.mp hbusy.known
    have hincident : done.2.incidentSaid id = true := by
      unfold World.incidentSaid World.engaged World.record
      rw [happlies, answer_maintenance outside hanswer.1 nofun,
        find_updateRecord_self fun record => (rfl : (record.advance _ _).id = record.id),
        show after.2.applies.find? _ = _ from hrecord]
      unfold World.engaged at hengaged
      simpa [ApplyRecord.advance] using hengaged
    rw [hanswer.2] at hid
    simpa [hincident] using (List.mem_filter.mp hid).2

/-- Declaring the incident engages Maintenance Mode, when it is not cut short. -/
theorem Busy.declareIncident (h : Busy id state) (reason : String) :
    (declareIncident app id reason).Wp (ledgerAnswers outside) (fun r after => match r with
      | .ok _ => Busy id after ∧ after.2.engaged = true
      | .error _ => True) state := by
  have hquiet : OnlyApply id .store ∧ CallKind.store ≠ .maintenance := ⟨onlyApply_store id, nofun⟩
  show ((engage SYSTEM_ACTOR _ .autoRollbackFailure).bind _).Wp _ _ _
  refine (wp_bind _ _).mpr ((wp_bind _ _).mpr ((wp_perform _).mpr fun r after hanswer => ?_))
  have hbusy : Busy id after := h.after hanswer (onlyApply_maintenance id)
  cases r with
  | error e => trivial
  | ok _ =>
    have hengaged : after.2.engaged = true := by
      have hexec := hanswer.1.ok
      unfold World.engaged
      rw [← congrArg Prod.snd hexec]
      rfl
    refine (hbusy.wp_engaged (ofKind_audited hquiet _) hengaged).mono ?_
    rintro (e | _) logged ⟨hbusy, hengaged⟩
    · trivial
    refine (hbusy.wp_engaged (ofKind_alert hquiet _ _) hengaged).mono ?_
    rintro (e | _) alerted halerted
    · trivial
    · exact halerted

/-- Restoring takes the Apply off the ledger, when it is not cut short. -/
theorem Busy.restoreAfterInterruption (h : Busy id state) :
    (restoreAfterInterruption app id).Wp (ledgerAnswers outside) Resolved state := by
  refine (wp_bind _ _).mpr ((wp_attempt _).mpr
    ((h.wp (ofKind_rollBack (onlyApply_store id) (onlyApply_clusterRead id)
      (onlyApply_clusterWrite id) .operator)).mono ?_))
  rintro r after ⟨hbusy, -⟩
  cases r with
  | ok _ => exact hbusy.setRollback
  | error e =>
    refine (wp_bind _ _).mpr ((hbusy.wp (all_perform (onlyApply_self id))).mono ?_)
    rintro (_ | _) marked ⟨hbusy, -⟩
    · trivial
    refine (wp_bind _ _).mpr ((hbusy.declareIncident _).mono ?_)
    rintro (_ | _) said hsaid
    · trivial
    · exact hsaid.1.recordIncident hsaid.2 _ _

/-- Resolving an Apply that was in flight leaves the rest of the ledger pending. -/
theorem resolveInterrupted_resolves {record : ApplyRecord}
    (hpending : PendingBut none state.1 state.2)
    (hrecord : state.2.record record.id = some record) :
    (resolveInterrupted app record).Wp (ledgerAnswers outside) Resolved state := by
  have hbusy : Busy record.id state :=
    ⟨fun other hother _ => hpending other hother nofun, by rw [hrecord]; rfl⟩
  have hself := onlyApply_self record.id
  have hstore := onlyApply_store record.id
  refine (wp_bind _ _).mpr ((hbusy.wp (all_perform hself)).mono ?_)
  rintro (_ | _) marked ⟨hbusy, hsub⟩
  · trivial
  refine (wp_bind _ _).mpr ((hbusy.wp (ofKind_failApply hself _)).mono ?_)
  rintro (_ | _) failed ⟨hbusy, hsub'⟩
  · trivial
  refine (wp_bind _ _).mpr ((hbusy.wp (ofKind_audited hstore _)).mono ?_)
  rintro (_ | _) logged ⟨hbusy, hsub''⟩
  · trivial
  show (if ROLLED_BACK_FROM.contains record.stage then _ else _ : PipelineProg Unit).Wp _ _ _
  split
  · exact hbusy.restoreAfterInterruption
  · next hstage =>
    -- An Apply of the ledger is in a stage recovery rolls back from.
    refine hbusy.pending fun hmem => hstage ?_
    obtain ⟨found, hfound, hin⟩ :=
      hpending record.id (hsub (hsub' (hsub'' hmem))) nofun
    rw [hrecord] at hfound
    cases hfound
    simpa using hin

/-- A stage recovery rolls back from is not over. -/
theorem inFlight_of_rolledBackFrom {record : ApplyRecord}
    (h : record.stage ∈ ROLLED_BACK_FROM) : record.inFlight = true := by
  unfold ApplyRecord.inFlight
  revert h
  cases record.stage <;> decide

/-- One turn of recovery, from a ledger that is all pending. -/
theorem recoverNext_turns (hunique : state.2.ids.Nodup)
    (hpending : PendingBut none state.1 state.2) :
    (recoverNext app).Wp (ledgerAnswers outside) TurnDone state := by
  refine (wp_bind _ _).mpr ((wp_perform _).mpr fun r after hanswer => ?_)
  cases r with
  | error e => trivial
  | ok found =>
    have hexec := hanswer.1.ok
    have hfound : state.2.applies.find? ApplyRecord.inFlight = found :=
      Except.ok.inj (congrArg Prod.fst hexec)
    have hworld : after.2 = state.2 := (congrArg Prod.snd hexec).symm
    have hafter : PendingBut none after.1 after.2 := by
      rw [hanswer.2]
      exact hpending.after (fun _ _ _ h => nomatch h) hanswer.1
    cases found with
    | none =>
      have hover := List.find?_eq_none.mp hfound
      refine ⟨fun record hrecord => by simpa using hover record (hworld ▸ hrecord), ?_⟩
      refine List.eq_nil_iff_forall_not_mem.mpr fun id hid => ?_
      obtain ⟨record, hrecord, hstage⟩ := hafter id hid nofun
      rw [hworld] at hrecord
      exact hover record (World.mem_of_record hrecord).1 (inFlight_of_rolledBackFrom hstage)
    | some record =>
      have hrecord : after.2.record record.id = some record := by
        rw [hworld]
        exact World.record_of_mem hunique (List.mem_of_find?_eq_some hfound)
      refine (wp_bind _ _).mpr ((resolveInterrupted_resolves hafter hrecord).mono ?_)
      rintro (_ | _) done hdone
      · trivial
      · exact hdone

end turn

/-! ### Recovery moves records only to their end -/

/-- A call that enters no record in a stage, or in a terminal one. -/
def Call.settles {β : Type} (c : Call β) : Prop := ∀ stage ∈ c.entering, stage ∈ TERMINAL

theorem settles_of_kind {β : Type} (c : Call β) (h : ∀ id, c.kind ≠ .apply id) : c.settles := by
  intro stage hstage
  cases c with
  | pushStage id _ _ => exact absurd rfl (h id)
  | _ => cases hstage

theorem settles_of_ofKind {α : Type} {p : PipelineProg α}
    (h : OfKind (fun kind => ∀ id, kind ≠ .apply id) p) : p.All Call.settles :=
  h.mono fun c hc => settles_of_kind c hc

theorem failApply_settles (id reason : String) : (failApply id reason).All Call.settles :=
  All.bind (all_perform (by nofun)) fun _ => all_perform fun stage hstage => by
    cases hstage
    decide

theorem recordIncident_settles (id reason message : String) :
    (recordIncident id reason message).All Call.settles :=
  All.bind (all_perform (by nofun)) fun _ => all_perform fun stage hstage => by
    cases hstage
    decide

theorem restoreAfterInterruption_settles (id : String) :
    (restoreAfterInterruption app id).All Call.settles := by
  refine All.bind (settles_of_ofKind
    (ofKind_rollBack (by nofun) (by nofun) (by nofun) _)).attempt fun r => ?_
  cases r with
  | error e =>
    exact All.bind (all_perform (by nofun)) fun _ =>
      All.bind (settles_of_ofKind (ofKind_declareIncident (by nofun) (by nofun) _ _)) fun _ =>
        recordIncident_settles _ _ _
  | ok _ => exact all_perform (by nofun)

theorem recoverNext_settles : (recoverNext app).All Call.settles := by
  refine All.bind (all_perform (by nofun)) fun found => ?_
  cases found with
  | none => trivial
  | some record =>
    refine All.bind ?_ fun _ => trivial
    refine All.bind (all_perform (by nofun)) fun _ => All.bind (failApply_settles _ _) fun _ =>
      All.bind (settles_of_ofKind (ofKind_audited (by nofun) _)) fun _ => ?_
    show Prog.All _ (if ROLLED_BACK_FROM.contains record.stage then _ else _ : PipelineProg Unit)
    split
    · exact restoreAfterInterruption_settles app _
    · trivial

/-! ### The service with its ledger -/

/-- What holds of the service and its ledger in every run without an unrecoverable death. -/
structure Accounted (state : List String × Service) : Prop where
  tracked : Tracked state.1 state.2.world
  tasks : ∀ task ∈ state.2.tasks, OfKind (fun kind => ∀ id ∈ state.1, kind ≠ .apply id) task
  recovering : ∀ p, state.2.recovering = some p →
    p.All Call.settles ∧ p.Wp (ledgerAnswers outside) TurnDone (state.1, state.2.world)

theorem accounted_boot {owed : List String} {world : World} (htracked : Tracked owed world)
    (hpending : PendingBut none owed world) :
    Accounted outside (owed, Service.boot app world) where
  tracked := htracked
  tasks := nofun
  recovering := by
    rintro p ⟨⟩
    exact ⟨recoverNext_settles app, recoverNext_turns htracked.unique hpending⟩

section step

variable {app} {outside} {owed owed' : List String} {s s' : Service} {event : Event}

/-- The tasks' calls name none of a smaller ledger either. -/
theorem Accounted.tasks_mono (h : Accounted outside (owed, s)) (hsub : owed' ⊆ owed) :
    ∀ task ∈ s.tasks, OfKind (fun kind => ∀ id ∈ owed', kind ≠ .apply id) task :=
  fun task htask => (h.tasks task htask).mono fun _ hc id hid => hc id (hsub hid)

theorem Accounted.arrive (h : Accounted outside (owed, s)) {request : Request}
    (hserving : s.recovering = none)
    (hfresh : ∀ uuid ∈ request.uuid, s.world.record uuid = none) :
    Accounted outside (owed, { s with tasks := s.tasks ++ [request.serve app] }) where
  tracked := h.tracked
  tasks := by
    intro task htask
    rcases List.mem_append.mp htask with htask | htask
    · exact h.tasks task htask
    obtain rfl := List.mem_singleton.mp htask
    refine ofKind_serve (by nofun) (by nofun) (by nofun) (by nofun) request
      fun uuid huuid => ⟨fun id hid heq => ?_, by nofun⟩
    obtain ⟨record, hrecord, -⟩ := h.tracked.known id hid
    rw [← CallKind.apply.inj heq, hfresh uuid huuid] at hrecord
    cases hrecord
  recovering := by
    intro p hp
    rw [show s.recovering = some p from hp] at hserving
    cases hserving

theorem Accounted.task (h : Accounted outside (owed, s)) {i : Nat} {β : Type} {c : Call β}
    {k : Except Error β → PipelineProg Unit} {r : Except Error β} {world : World}
    (hserving : s.recovering = none) (htask : s.tasks[i]? = some (.call c k))
    (hanswer : (worldMachine outside).Answer c s.world r world) :
    Accounted outside (stillOwed owed c world,
      { s with world := world, tasks := s.tasks.set i (k r) }) := by
  have hcall : OfKind (fun kind => ∀ id ∈ owed, kind ≠ .apply id) (.call c k) :=
    h.tasks _ (List.mem_of_getElem? htask)
  have hsub : stillOwed owed c world ⊆ owed := fun _ => mem_of_mem_stillOwed
  refine ⟨h.tracked.after (fun id hid hkind => absurd hkind (hcall.1 id hid)) hanswer, ?_, ?_⟩
  · intro task hmem
    rcases List.mem_or_eq_of_mem_set hmem with hmem | rfl
    · exact h.tasks_mono hsub task hmem
    · exact (hcall.2 r).mono fun _ hc id hid => hc id (hsub hid)
  · intro p hp
    rw [show s.recovering = some p from hp] at hserving
    cases hserving

theorem Accounted.recover (h : Accounted outside (owed, s)) {β : Type} {c : Call β}
    {k : Except Error β → PipelineProg (Option String)} {r : Except Error β} {world : World}
    (hrecovering : s.recovering = some (.call c k))
    (hanswer : (worldMachine outside).Answer c s.world r world) :
    Accounted outside (stillOwed owed c world,
      { s with world := world, recovering := some (k r) }) := by
  obtain ⟨hsettles, hturn⟩ := h.recovering _ hrecovering
  refine ⟨h.tracked.after (fun _ _ _ => hsettles.1) hanswer,
    h.tasks_mono fun _ => mem_of_mem_stillOwed, ?_⟩
  rintro p ⟨⟩
  exact ⟨hsettles.2 r, hturn r (stillOwed owed c world, world) ⟨hanswer, rfl⟩⟩

/-- A recoverable death leaves every Apply it owes a rollback to recovery. -/
theorem Accounted.die (h : Accounted outside (owed, s)) {after : List String × Service}
    (hdeath : RecoverableDeath (owed, s) .die after) :
    Accounted outside (owedAtDeath owed s ++ s.world.writing, Service.boot app s.world) := by
  obtain ⟨hrolling, hover⟩ := hdeath
  have hstage : ∀ id ∈ owedAtDeath owed s ++ s.world.writing,
      ∃ record, s.world.record id = some record ∧ record.stage ∈ ROLLED_BACK_FROM := by
    intro id hid
    rcases List.mem_append.mp hid with hid | hid
    · obtain ⟨record, hrecord, hin | hdone⟩ := h.tracked.known id (List.mem_of_mem_filter hid)
      · exact ⟨record, hrecord, hin⟩
      · obtain ⟨hmem, hidentity⟩ := World.mem_of_record hrecord
        rw [hover id hid record hmem hidentity] at hdone
        cases hdone
    · obtain ⟨record, hmem, rfl⟩ := List.mem_map.mp hid
      obtain ⟨hmem, hwriting⟩ := List.mem_filter.mp hmem
      refine ⟨record, World.record_of_mem h.tracked.unique hmem, ?_⟩
      have hne := hrolling record hmem
      revert hwriting hne
      cases record.stage <;> decide
  refine accounted_boot app outside ⟨h.tracked.unique, fun id hid => ?_⟩
    fun id hid _ => hstage id hid
  obtain ⟨record, hrecord, hin⟩ := hstage id hid
  exact ⟨record, hrecord, Or.inl hin⟩

/-- Every admitted step keeps the ledger accounted for. -/
theorem Accounted.step {state state' : List String × Service} (h : Accounted outside state)
    (hadmits : RecoverableDeath state event state') (hstep : LedgerStep app outside state event state') :
    Accounted outside state' := by
  obtain ⟨owed, s⟩ := state
  obtain ⟨owed', s'⟩ := state'
  obtain ⟨hstep, howed⟩ := hstep
  obtain rfl : owed' = ledgerAfter owed s event s' := howed
  cases hstep with
  | arrive request hserving hfresh => exact h.arrive hserving hfresh
  | task hserving htask hanswer => exact h.task hserving htask hanswer
  | recover hrecovering hanswer => exact h.recover hrecovering hanswer
  | again hrecovering =>
    obtain ⟨-, hturn⟩ := h.recovering _ hrecovering
    refine ⟨h.tracked, h.tasks, ?_⟩
    rintro p ⟨⟩
    exact ⟨recoverNext_settles app, recoverNext_turns h.tracked.unique hturn⟩
  | recovered hrecovering => exact ⟨h.tracked, h.tasks, nofun⟩
  | gaveUp hrecovering => exact ⟨h.tracked, h.tasks, nofun⟩
  | die => exact h.die hadmits

end step

/-- Recovery is complete: in every run from an empty database in which every death is recoverable,
once a startup's recovery has run to completion nothing is in flight, and every Apply a death
interrupted while it was writing the Cluster has been rolled back or its incident is declared. -/
theorem recovery_is_complete (world : World) (hempty : world.applies = [])
    {state : List String × Service} {s' : Service}
    (hrun : Run (LedgerStep app outside) RecoverableDeath ([], Service.boot app world) state)
    (hdone : Step app outside state.2 .recovered s') :
    (∀ record ∈ s'.world.applies, record.inFlight = false) ∧ state.1 = [] := by
  have hstart : Accounted outside ([], Service.boot app world) :=
    accounted_boot app outside ⟨by simp [World.ids, hempty], nofun⟩ nofun
  have h := hrun.invariant hstart fun _ _ _ h hadmits hstep => h.step hadmits hstep
  cases hdone with
  | recovered hrecovering => exact (h.recovering _ hrecovering).2

/-- A death while an Apply is delivering, and the recovery of the startup after it. -/
theorem recovery_is_complete_midApply : ∃ state s',
    Run (LedgerStep smallApp quietOutside) RecoverableDeath ([], Service.boot smallApp freshWorld)
      state ∧
    Step smallApp quietOutside state.2 .recovered s' ∧
    (s'.world.applies.any fun record => record.rollback = some .succeeded) = true ∧
    (∀ record ∈ s'.world.applies, record.inFlight = false) ∧ state.1 = [] := by
  obtain ⟨state, hrun, hplayed⟩ := playAll_reaches smallApp quietOutside ledgerAfter RecoverableDeath
    (servingOne (.startApply "a1" "bob") ++ List.replicate 18 (.task 0) ++ [.die] ++
      List.replicate 21 .recovery) ([], Service.boot smallApp freshWorld)
    (fun state => state.2.recoveryOver &&
      state.2.world.applies.any fun record => record.rollback = some .succeeded)
    (by decide +kernel)
  obtain ⟨hover, hrolledBack⟩ := Bool.and_eq_true_iff.mp hplayed
  have hdone : Step smallApp quietOutside state.2 .recovered { state.2 with recovering := none } :=
    .recovered (Service.recoveryOver_iff.mp hover)
  exact ⟨state, _, hrun, hdone, hrolledBack,
    recovery_is_complete smallApp quietOutside freshWorld rfl hrun hdone⟩

/-- A death while an Apply is being rolled back: recovery runs to completion, the Apply is failed,
no rollback has completed and nothing is said. -/
theorem death_in_rollback_unrecovered : ∃ state s',
    Run (LedgerStep smallApp quietOutside) (fun _ _ _ => True)
      ([], Service.boot smallApp freshWorld) state ∧
    Step smallApp quietOutside state.2 .recovered s' ∧
    s'.world.engaged = false ∧ s'.world.applies.map ApplyRecord.stage = [.failed] ∧
    state.1 = ["a1"] := by
  obtain ⟨state, hrun, hplayed⟩ := playAll_reaches smallApp quietOutside ledgerAfter
    (fun _ _ _ => True)
    (servingOne (.startApply "a1" "bob") ++ List.replicate 24 (.task 0) ++
      [.lose 0, .task 0, .task 0, .task 0, .die] ++ List.replicate 7 .recovery)
    ([], Service.boot smallApp freshWorld)
    (fun state => state.2.recoveryOver && !state.2.world.engaged &&
      (state.2.world.applies.map ApplyRecord.stage == [.failed]) && (state.1 == ["a1"]))
    (by decide +kernel)
  simp only [Bool.and_eq_true, Bool.not_eq_true', beq_iff_eq] at hplayed
  obtain ⟨⟨⟨hover, hengaged⟩, hstages⟩, howed⟩ := hplayed
  exact ⟨state, _, hrun, .recovered (Service.recoveryOver_iff.mp hover), hengaged, hstages, howed⟩

end Apchi.Pipeline
