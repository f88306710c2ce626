import Apchi.Pipeline.Play
import Apchi.Pipeline.Runner

/-!
# The stages of an Apply, for every engine

An engine is known by what it answers: any of its methods may raise, and `rollout_needed` says what
it likes.  The stores go through.  Every run of the runner then ends in one of four ways, each of
which fixes what the engine was asked and what the record says; what an Apply's history can be, when
its rollback runs and what is recorded of it are read off these.
-/

namespace Apchi.Pipeline

open Lib Prog

/-! ### Any engine -/

/-- A method of the engine that was called, and how it went. -/
inductive Called where
  | stage (stage : Stage) (well : Bool) (number : Option Nat)
  | rollBack (well : Bool)
  deriving DecidableEq, Repr

/-- The Snapshot number a commit answers with. -/
def committedNumber : Except Error (Option Nat) → Option Nat
  | .ok number => number
  | .error _ => none

/-- What is noted of a method and its answer. -/
def EngineCall.called {β : Type} (c : EngineCall β) (r : Except Error β) : List Called :=
  match c with
  | .validate => [.stage .validating r.isOk none]
  | .apply => [.stage .applying r.isOk none]
  | .rollOut => [.stage .rollingOut r.isOk none]
  | .verify => [.stage .verifying r.isOk none]
  | .commit => [.stage .committing r.isOk (committedNumber r)]
  | .rollBack => [.rollBack r.isOk]
  | .warnings | .rolloutNeeded | .declareIncident _ => []

/-- What can come of a method: it answers or raises what it likes, and leaves the Apply records to
the runner; declaring an incident goes through and engages Maintenance Mode. -/
def EngineCall.Answer {β : Type} (c : EngineCall β) (world : World) (r : Except Error β)
    (world' : World) : Prop :=
  world'.applies = world.applies ∧ match c with
    | .warnings | .rolloutNeeded => r.isOk = true
    | .declareIncident _ => r.isOk = true ∧ world'.engaged = true
    | _ => True

/-- The call is one of those the runner itself makes on the stores. -/
def Call.bookkeeping {β : Type} : Call β → Prop
  | .pushStage .. | .setFailureReason .. | .setRollback .. | .setWarnings .. | .setSnapshot ..
  | .setIncident .. | .replaceMaintenance _ | .insertAudit _ => True
  | _ => False

/-- What can come of the calls when the bookkeeping goes through. -/
def bookkept (outside : Outside) : Answers Call World := fun _ c w r w' =>
  (worldMachine outside).Answer c w r w' ∧ (c.bookkeeping → w.exec outside c = (r, w'))

/-- What can come of the runner's calls, whatever the engine, with a note of what the engine was
asked. -/
def anyEngine (outside : Outside) : Answers RunnerCall (List Called × World) :=
  fun _ c before r after => match c with
    | .engine c => c.Answer before.2 r after.2 ∧ after.1 = before.1 ++ c.called r
    | .store c => bookkept outside _ c before.2 r after.2 ∧ after.1 = before.1

/-! ### What is recorded -/

/-- What of a record the stages decide. -/
structure Outline where
  stage : Stage
  stages : List Stage
  rollback : Option Rollback := none
  snapshot : Option Nat := none
  deriving DecidableEq, Repr

def ApplyRecord.outline (record : ApplyRecord) : Outline where
  stage := record.stage
  stages := record.history.map StageEvent.stage
  rollback := record.rollback
  snapshot := record.snapshot

def World.outline (world : World) (id : String) : Option Outline :=
  (world.record id).map ApplyRecord.outline

def Outline.advance (outline : Outline) (stage : Stage) : Outline :=
  { outline with stage := stage, stages := outline.stages ++ [stage] }

/-- A program on the stores that goes through changes the Apply's outline so, and leaves Maintenance
Mode as it is. -/
def Records (outside : Outside) (id : String) (p : PipelineProg Unit) (change : Outline → Outline) :
    Prop :=
  ∀ world outline, world.outline id = some outline →
    p.Wp (bookkept outside) (fun r after => r = .ok () ∧
      after.outline id = some (change outline) ∧ after.maintenance = world.maintenance) world

section records

variable {outside : Outside} {id : String}

theorem World.outline_updating {world : World} {change : ApplyRecord → ApplyRecord}
    {changed : Outline → Outline} (hid : ∀ record, (change record).id = record.id)
    (hchange : ∀ record, (change record).outline = changed record.outline) {outline : Outline}
    (h : world.outline id = some outline) :
    (world.updating id change).2.outline id = some (changed outline) := by
  obtain ⟨record, hrecord, rfl⟩ := Option.map_eq_some_iff.mp h
  show ((updateRecord id change world.applies).find? _).map _ = _
  rw [find_updateRecord_self hid, show world.applies.find? _ = _ from hrecord]
  exact congrArg some (hchange record)

theorem records_updating {c : Call Unit} {change : ApplyRecord → ApplyRecord}
    {changed : Outline → Outline}
    (hbookkeeping : c.bookkeeping)
    (hc : ∀ world, World.exec outside c world = world.updating id change)
    (hid : ∀ record, (change record).id = record.id)
    (hchange : ∀ record, (change record).outline = changed record.outline) :
    Records outside id (call c) changed := by
  intro world outline h
  refine (wp_perform c).mpr fun r after hanswer => ?_
  obtain ⟨rfl, rfl⟩ := Prod.mk.inj ((hc world).symm.trans (hanswer.2 hbookkeeping))
  exact ⟨rfl, World.outline_updating hid hchange h, rfl⟩

theorem records_pushStage (stage : Stage) (detail : Option String) :
    Records outside id (call (.pushStage id stage detail)) fun outline => outline.advance stage :=
  records_updating trivial (fun _ => rfl) (fun _ => rfl) fun record => by
    simp [ApplyRecord.outline, ApplyRecord.advance, Outline.advance]

theorem records_setWarnings (warnings : List ValidationFailure) :
    Records outside id (call (.setWarnings id warnings)) fun outline => outline :=
  records_updating trivial (fun _ => rfl) (fun _ => rfl) fun _ => rfl

theorem records_setFailureReason (reason : String) :
    Records outside id (call (.setFailureReason id reason)) fun outline => outline :=
  records_updating trivial (fun _ => rfl) (fun _ => rfl) fun _ => rfl

theorem records_setIncident (reason message : String) :
    Records outside id (call (.setIncident id reason message)) fun outline => outline :=
  records_updating trivial (fun _ => rfl) (fun _ => rfl) fun _ => rfl

theorem records_setRollback (outcome : Rollback) :
    Records outside id (call (.setRollback id outcome)) fun outline =>
      { outline with rollback := some outcome } :=
  records_updating trivial (fun _ => rfl) (fun _ => rfl) fun _ => rfl

theorem records_setSnapshot (number : Nat) :
    Records outside id (call (.setSnapshot id number)) fun outline =>
      { outline with snapshot := some number } :=
  records_updating trivial (fun _ => rfl) (fun _ => rfl) fun _ => rfl

theorem Records.bind {p q : PipelineProg Unit} {f g : Outline → Outline}
    (hp : Records outside id p f) (hq : Records outside id q g) :
    Records outside id (p.bind fun _ => q) fun outline => g (f outline) := by
  intro world outline h
  refine (wp_bind p _).mpr ((hp world outline h).mono ?_)
  rintro r after ⟨rfl, houtline, hmaintenance⟩
  refine (hq after _ houtline).mono ?_
  rintro r done ⟨rfl, hdone, hkept⟩
  exact ⟨rfl, hdone, hkept.trans hmaintenance⟩

theorem records_audited (event : AuditEvent) :
    Records outside id (audited event) fun outline => outline := by
  intro world outline h
  refine (wp_bind _ _).mpr ((wp_attempt _).mpr ((wp_perform _).mpr fun r after hanswer => ?_))
  obtain ⟨rfl, rfl⟩ := Prod.mk.inj (hanswer.2 trivial)
  exact ⟨rfl, h, rfl⟩

theorem records_failApply (reason : String) :
    Records outside id (failApply id reason) fun outline => outline.advance .failed :=
  (records_setFailureReason reason).bind (records_pushStage _ _)

theorem records_recordIncident (reason message : String) :
    Records outside id (recordIncident id reason message) fun outline =>
      outline.advance .incident :=
  (records_setIncident reason message).bind (records_pushStage _ _)

end records

/-- Where a run is: what the engine has been asked, and what is recorded. -/
structure Standing (id : String) (called : List Called) (outline : Outline)
    (state : List Called × World) : Prop where
  called : state.1 = called
  outline : state.2.outline id = some outline

section standing

variable {outside : Outside} {id : String} {called : List Called} {outline : Outline}
  {state : List Called × World}

/-- What is done on the stores changes the outline, and nothing of what the engine was asked. -/
theorem Standing.stored (h : Standing id called outline state) {p : PipelineProg Unit}
    {change : Outline → Outline} (hp : Records outside id p change) :
    (stored p).Wp (anyEngine outside) (fun r after => r = .ok () ∧
      Standing id called (change outline) after ∧ after.2.maintenance = state.2.maintenance)
      state := by
  refine wp_lift RunnerCall.store Prod.snd (I := fun after => after.1 = called) h.called ?_
    ((hp state.2 outline h.outline).mono ?_)
  · rintro β op before r after hbefore ⟨hexec, hkept⟩
    exact ⟨hexec, hkept.trans hbefore⟩
  · rintro r world ⟨rfl, houtline, hmaintenance⟩ after rfl hcalled
    exact ⟨rfl, ⟨hcalled, houtline⟩, hmaintenance⟩

/-- A method of the engine is noted, and leaves the outline as it is. -/
theorem Standing.ask (h : Standing id called outline state) {β : Type} (c : EngineCall β) :
    (ask c).Wp (anyEngine outside) (fun r after => c.Answer state.2 r after.2 ∧
      Standing id (called ++ c.called r) outline after) state := by
  refine (wp_perform _).mpr fun r after ⟨hanswer, hcalled⟩ => ⟨hanswer, ?_, ?_⟩
  · rw [hcalled, h.called]
  · have houtline := h.outline
    unfold World.outline World.record at *
    rwa [hanswer.1]

end standing

/-! ### The walk -/

/-- A stage that went well. -/
def wellCalled (number : Option Nat) (stage : Stage) : Called :=
  .stage stage true (if stage = .committing then number else none)

/-- The stages an Apply takes of those before it, a Rollout left out or not. -/
inductive Chosen : List Stage → List Stage → Prop where
  | nil : Chosen [] []
  | cons {stages chosen : List Stage} (stage : Stage) (h : Chosen stages chosen) :
      Chosen (stage :: stages) (stage :: chosen)
  | skip {stages chosen : List Stage} (h : Chosen stages chosen) :
      Chosen (.rollingOut :: stages) chosen

theorem Chosen.refl : (stages : List Stage) → Chosen stages stages
  | [] => .nil
  | stage :: stages => .cons stage (Chosen.refl stages)

/-- These stages have gone well, the last of them the one the record is in. -/
def Walked (id : String) (stages : List Stage) (number : Option Nat) : List Called × World → Prop :=
  Standing id (stages.map (wellCalled number))
    { stage := stages.getLast?.getD .validating, stages := stages }

/-- These stages have gone well, and the one after them has raised. -/
def Stuck (id : String) (stages : List Stage) (number : Option Nat) (failing : Stage) :
    List Called × World → Prop :=
  Standing id (stages.map (wellCalled number) ++ [.stage failing false none])
    { stage := failing, stages := stages ++ [failing] }

section walk

variable {outside : Outside} {id : String} {called : List Called} {outline : Outline}
  {state : List Called × World} {stage : Stage}

theorem Standing.step (h : Standing id called outline state) (hstage : stage ∈ PIPELINE) :
    (ApplyRunner.step id stage).Wp (anyEngine outside) (fun r after => match r with
      | .ok number => Standing id (called ++ [wellCalled number stage]) outline after
      | .error _ => Standing id (called ++ [.stage stage false none]) outline after) state := by
  cases stage with
  | validating =>
    refine (wp_bind _ _).mpr ((h.ask .validate).mono ?_)
    rintro (e | _) validated ⟨-, h⟩
    · exact h
    refine (wp_bind _ _).mpr ((h.ask .warnings).mono ?_)
    rintro (e | warnings) warned ⟨hanswer, h⟩
    · cases hanswer.2
    refine (wp_bind _ _).mpr ((h.stored (records_setWarnings _)).mono ?_)
    rintro r after ⟨rfl, h, -⟩
    exact ⟨h.called.trans (List.append_nil _), h.outline⟩
  | committing =>
    refine (h.ask .commit).mono ?_
    rintro (e | number) after ⟨-, h⟩
    · exact h
    · exact h
  | applying =>
    refine (wp_bind _ _).mpr ((h.ask .apply).mono ?_)
    rintro (e | _) after ⟨-, h⟩
    · exact h
    · exact h
  | rollingOut =>
    refine (wp_bind _ _).mpr ((h.ask .rollOut).mono ?_)
    rintro (e | _) after ⟨-, h⟩
    · exact h
    · exact h
  | verifying =>
    refine (wp_bind _ _).mpr ((h.ask .verify).mono ?_)
    rintro (e | _) after ⟨-, h⟩
    · exact h
    · exact h
  | _ => simp [PIPELINE] at hstage

/-- A stage after the first is recorded, and then gone through. -/
theorem Standing.reach (h : Standing id called outline state) (hstage : stage ∈ PIPELINE)
    (hlater : stage ≠ .validating) :
    (ApplyRunner.reach id stage).Wp (anyEngine outside) (fun r after => match r with
      | .ok number =>
          Standing id (called ++ [wellCalled number stage]) (outline.advance stage) after
      | .error _ =>
          Standing id (called ++ [.stage stage false none]) (outline.advance stage) after)
      state := by
  unfold ApplyRunner.reach
  rw [if_neg hlater]
  refine (wp_bind _ _).mpr ((h.stored (records_pushStage stage none)).mono ?_)
  rintro r after ⟨rfl, h, -⟩
  exact h.step hstage

/-- A Rollout is asked about; any other stage is one of every Apply's. -/
theorem Standing.wanted (h : Standing id called outline state) (stage : Stage) :
    (ApplyRunner.wanted stage).Wp (anyEngine outside) (fun r after =>
      (∃ needed, r = .ok needed ∧ (needed = false → stage = .rollingOut)) ∧
        Standing id called outline after) state := by
  unfold ApplyRunner.wanted
  split
  · next hrolling =>
    refine (h.ask .rolloutNeeded).mono ?_
    rintro (e | needed) after ⟨hanswer, h⟩
    · cases hanswer.2
    · exact ⟨⟨needed, rfl, fun _ => hrolling⟩, h.called.trans (List.append_nil _), h.outline⟩
  · exact ⟨⟨true, rfl, nofun⟩, h⟩

theorem wellCalled_of_ne {number other : Option Nat} (h : stage ≠ .committing) :
    wellCalled number stage = wellCalled other stage := by
  unfold wellCalled
  rw [if_neg h, if_neg h]

/-- The number is that of the commit alone. -/
theorem map_wellCalled {stages : List Stage} (h : .committing ∉ stages) (number other : Option Nat) :
    stages.map (wellCalled number) = stages.map (wellCalled other) :=
  List.map_congr_left fun _ hstage => wellCalled_of_ne fun heq => h (heq ▸ hstage)

/-- One more stage has gone well. -/
theorem Walked.snoc {stages : List Stage} {number result : Option Nat}
    (hnew : stage = .committing → .committing ∉ stages)
    (h : Standing id (stages.map (wellCalled number) ++ [wellCalled result stage])
      { stage := stage, stages := stages ++ [stage] } state) :
    Walked id (stages ++ [stage]) (if stage = .committing then result else number) state := by
  have hcalled : (stages ++ [stage]).map
      (wellCalled (if stage = .committing then result else number)) =
        stages.map (wellCalled number) ++ [wellCalled result stage] := by
    rw [List.map_append]
    by_cases hcommitting : stage = .committing
    · rw [if_pos hcommitting, map_wellCalled (hnew hcommitting) result number]
      rfl
    · rw [if_neg hcommitting]
      exact congrArg _ (congrArg (fun c => [c]) (wellCalled_of_ne hcommitting))
  refine ⟨h.called.trans hcalled.symm, h.outline.trans ?_⟩
  simp

/-- What a walk comes to: all of the stages chosen have gone well, or one of them has raised. -/
def WalkDone (id : String) (before steps : List Stage) :
    Except Error (Except (Stage × Error) (Option Nat)) → List Called × World → Prop
  | .ok (.ok number), state => ∃ chosen, Chosen steps chosen ∧
      Walked id (before ++ chosen) number state
  | .ok (.error (failing, _)), state => ∃ chosen number rest,
      Chosen steps (chosen ++ failing :: rest) ∧ Stuck id (before ++ chosen) number failing state
  | .error _, _ => False

/-- The walk over the stages after the first. -/
theorem walk_wp {steps stages : List Stage} {number : Option Nat}
    (hsteps : ∀ stage ∈ steps, stage ∈ PIPELINE ∧ stage ≠ .validating)
    (hnodup : (stages ++ steps).Nodup) (h : Walked id stages number state) :
    (ApplyRunner.walk id steps number).Wp (anyEngine outside) (WalkDone id stages steps) state := by
  induction steps generalizing stages number state with
  | nil => exact ⟨[], .nil, by rwa [List.append_nil]⟩
  | cons stage rest ih =>
    have hrest : ∀ stage ∈ rest, stage ∈ PIPELINE ∧ stage ≠ .validating :=
      fun other hother => hsteps other (List.mem_cons_of_mem stage hother)
    obtain ⟨hstage, hlater⟩ := hsteps stage List.mem_cons_self
    refine (wp_bind _ _).mpr ((h.wanted stage).mono ?_)
    rintro r asked ⟨⟨needed, rfl, hskip⟩, h⟩
    cases needed with
    | false =>
      obtain rfl := hskip rfl
      have hless : (stages ++ rest).Nodup :=
        hnodup.sublist ((List.sublist_cons_self _ _).append_left stages)
      refine (ih hrest hless h).mono ?_
      rintro (_ | (⟨failing, e⟩ | number)) after hdone
      · exact hdone
      · obtain ⟨chosen, number, more, hchosen, hstuck⟩ := hdone
        exact ⟨chosen, number, more, hchosen.skip, hstuck⟩
      · obtain ⟨chosen, hchosen, hwalked⟩ := hdone
        exact ⟨chosen, hchosen.skip, hwalked⟩
    | true =>
      refine (wp_bind _ _).mpr ((wp_attempt _).mpr ((h.reach hstage hlater).mono ?_))
      rintro (e | result) reached hreached
      · refine ⟨[], number, rest, (Chosen.refl rest).cons stage, ?_⟩
        rw [List.append_nil]
        exact hreached
      · have hmoved : (stages ++ [stage] ++ rest).Nodup := by
          rwa [List.append_assoc, List.singleton_append]
        have hnew : stage = .committing → .committing ∉ stages := by
          rintro rfl hmem
          exact (List.nodup_append.mp hnodup).2.2 _ hmem _ List.mem_cons_self rfl
        refine (ih hrest hmoved (Walked.snoc hnew hreached)).mono ?_
        rintro (_ | (⟨failing, e⟩ | number)) after hdone
        · exact hdone
        · obtain ⟨chosen, number, more, hchosen, hstuck⟩ := hdone
          rw [List.append_assoc, List.singleton_append] at hstuck
          exact ⟨stage :: chosen, number, more, hchosen.cons stage, hstuck⟩
        · obtain ⟨chosen, hchosen, hwalked⟩ := hdone
          rw [List.append_assoc, List.singleton_append] at hwalked
          exact ⟨stage :: chosen, hchosen.cons stage, hwalked⟩

end walk

/-! ### How an Apply ends -/

/-- The ways an Apply can end: it succeeds; or a stage raises, and it fails without a rollback, or
after one, or in an incident. -/
inductive Ended (id : String) (state : List Called × World) : Prop where
  | succeeded (stages : List Stage) (number : Option Nat) (hstages : Chosen PIPELINE stages)
      (h : Standing id (stages.map (wellCalled number))
        { stage := .succeeded, stages := stages ++ [.succeeded], snapshot := number } state)
  | failed (stages rest : List Stage) (number : Option Nat) (failing : Stage)
      (hstages : Chosen PIPELINE (stages ++ failing :: rest)) (hfrom : failing ∉ ROLLED_BACK_FROM)
      (h : Standing id (stages.map (wellCalled number) ++ [.stage failing false none])
        { stage := .failed, stages := stages ++ [failing] ++ [.failed] } state)
  | rolledBack (stages rest : List Stage) (number : Option Nat) (failing : Stage)
      (hstages : Chosen PIPELINE (stages ++ failing :: rest)) (hfrom : failing ∈ ROLLED_BACK_FROM)
      (h : Standing id
        (stages.map (wellCalled number) ++ [.stage failing false none, .rollBack true])
        { stage := .failed, stages := stages ++ [failing] ++ [.rollingBack, .failed]
          rollback := some .succeeded } state)
  | incident (stages rest : List Stage) (number : Option Nat) (failing : Stage)
      (hstages : Chosen PIPELINE (stages ++ failing :: rest)) (hfrom : failing ∈ ROLLED_BACK_FROM)
      (h : Standing id
        (stages.map (wellCalled number) ++ [.stage failing false none, .rollBack false])
        { stage := .incident, stages := stages ++ [failing] ++ [.rollingBack, .incident]
          rollback := some .failed } state)
      (hengaged : state.2.engaged = true)

section ended

variable {outside : Outside} {kind : EngineKind} {id actor : String}
  {state : List Called × World} {stages rest : List Stage} {number : Option Nat} {failing : Stage}

/-- What is said once the engine has committed. -/
theorem Walked.finish (hstages : Chosen PIPELINE stages) (h : Walked id stages number state) :
    (ApplyRunner.finish kind id actor number).Wp (anyEngine outside)
      (fun r after => r = .ok () ∧ Ended id after) state := by
  have hnumbered : (ApplyRunner.recordSnapshot id number).Wp (anyEngine outside)
      (fun r after => r = .ok () ∧ Standing id (stages.map (wellCalled number))
        { stage := stages.getLast?.getD .validating, stages := stages, snapshot := number }
          after) state := by
    cases number with
    | none => exact ⟨rfl, h⟩
    | some number =>
      refine (Standing.stored h (records_setSnapshot number)).mono ?_
      rintro r after ⟨rfl, h, -⟩
      exact ⟨rfl, h⟩
  refine (wp_bind _ _).mpr (hnumbered.mono ?_)
  rintro r numbered ⟨rfl, h⟩
  refine (wp_bind _ _).mpr ((h.stored (records_pushStage .succeeded none)).mono ?_)
  rintro r pushed ⟨rfl, h, -⟩
  refine (h.stored (records_audited _)).mono ?_
  rintro r after ⟨rfl, h, -⟩
  exact ⟨rfl, .succeeded stages number hstages h⟩

/-- The rollback: one attempt, and an incident when it raises. -/
theorem Stuck.rollBack (hstages : Chosen PIPELINE (stages ++ failing :: rest))
    (hfrom : failing ∈ ROLLED_BACK_FROM) (h : Stuck id stages number failing state)
    (reason : String) :
    (ApplyRunner.rollBack kind id reason).Wp (anyEngine outside)
      (fun r after => r = .ok () ∧ Ended id after) state := by
  refine (wp_bind _ _).mpr
    ((Standing.stored h (records_pushStage .rollingBack (some reason))).mono ?_)
  rintro r pushed ⟨rfl, h, -⟩
  refine (wp_bind _ _).mpr ((wp_attempt _).mpr ((h.ask .rollBack).mono ?_))
  rintro (e | _) asked ⟨-, h⟩
  · refine (wp_bind _ _).mpr ((h.stored (records_setRollback .failed)).mono ?_)
    rintro r marked ⟨rfl, h, -⟩
    refine (wp_bind _ _).mpr ((h.ask (.declareIncident _)).mono ?_)
    rintro (e | _) declared ⟨hanswer, h⟩
    · cases hanswer.2.1
    refine (wp_bind _ _).mpr ((h.stored (records_recordIncident _ _)).mono ?_)
    rintro r recorded ⟨rfl, h, hengaged⟩
    refine (h.stored (records_audited _)).mono ?_
    rintro r after ⟨rfl, h, hkept⟩
    refine ⟨rfl, .incident stages rest number failing hstages hfrom ⟨?_, ?_⟩ ?_⟩
    · rw [h.called]
      simp [EngineCall.called, Except.isOk, Except.toBool]
    · rw [h.outline]
      simp [Outline.advance]
    · unfold World.engaged
      rw [hkept, hengaged]
      exact hanswer.2.2
  · refine (wp_bind _ _).mpr ((h.stored (records_setRollback .succeeded)).mono ?_)
    rintro r marked ⟨rfl, h, -⟩
    refine (wp_bind _ _).mpr ((h.stored (records_failApply reason)).mono ?_)
    rintro r failed ⟨rfl, h, -⟩
    refine (h.stored (records_audited _)).mono ?_
    rintro r after ⟨rfl, h, -⟩
    refine ⟨rfl, .rolledBack stages rest number failing hstages hfrom ⟨?_, ?_⟩⟩
    · rw [h.called]
      simp [EngineCall.called, Except.isOk, Except.toBool]
    · rw [h.outline]
      simp [Outline.advance]

/-- What is done about a stage that raised. -/
theorem Stuck.fail (hstages : Chosen PIPELINE (stages ++ failing :: rest))
    (h : Stuck id stages number failing state) (e : Error) :
    (ApplyRunner.fail kind id actor failing e).Wp (anyEngine outside)
      (fun r after => r = .ok () ∧ Ended id after) state := by
  refine (wp_bind _ _).mpr ((Standing.stored h (records_audited _)).mono ?_)
  rintro r logged ⟨rfl, h, -⟩
  show Prog.Wp _ (if ROLLED_BACK_FROM.contains failing then _ else _ : RunnerProg Unit) _ _
  split
  · next hfrom => exact Stuck.rollBack hstages (by simpa using hfrom) h _
  · next hfrom =>
    refine (h.stored (records_failApply _)).mono ?_
    rintro r after ⟨rfl, h, -⟩
    refine ⟨rfl, .failed stages rest number failing hstages (by simpa using hfrom) ⟨h.called, ?_⟩⟩
    rw [h.outline]
    simp [Outline.advance]

/-- A run of the runner from a record that has just been created. -/
theorem run_wp (hcreated : state.2.outline id = some ⟨.validating, [.validating], none, none⟩)
    (hstart : state.1 = []) :
    (ApplyRunner.run kind id actor).Wp (anyEngine outside)
      (fun r after => r = .ok () ∧ Ended id after) state := by
  have h : Standing id [] ⟨.validating, [.validating], none, none⟩ state := ⟨hstart, hcreated⟩
  have hfirst : (ApplyRunner.walk id PIPELINE none).Wp (anyEngine outside)
      (WalkDone id [] PIPELINE) state := by
    -- The first stage is in the record already.
    show ((ApplyRunner.step id .validating).attempt.bind _).Wp _ _ _
    refine (wp_bind _ _).mpr ((wp_attempt _).mpr ((h.step (by decide)).mono ?_))
    rintro (e | result) validated h
    · exact ⟨[], none, _, Chosen.refl _, h⟩
    · have hlater : ∀ stage ∈ [Stage.applying, .rollingOut, .verifying, .committing],
          stage ∈ PIPELINE ∧ stage ≠ .validating := by decide
      refine (walk_wp hlater (show ([.validating] ++ _ : List Stage).Nodup by decide) h).mono ?_
      rintro (_ | (⟨failing, e⟩ | number)) after hdone
      · exact hdone
      · obtain ⟨chosen, number, more, hchosen, hstuck⟩ := hdone
        exact ⟨.validating :: chosen, number, more, hchosen.cons .validating, hstuck⟩
      · obtain ⟨chosen, hchosen, hwalked⟩ := hdone
        exact ⟨.validating :: chosen, hchosen.cons .validating, hwalked⟩
  refine (wp_bind _ _).mpr (hfirst.mono ?_)
  rintro (_ | (⟨failing, e⟩ | number)) walked hdone
  · exact hdone.elim
  · obtain ⟨chosen, number, rest, hchosen, hstuck⟩ := hdone
    exact hstuck.fail hchosen e
  · obtain ⟨chosen, hchosen, hwalked⟩ := hdone
    refine (wp_bind _ _).mpr ((wp_attempt _).mpr ((hwalked.finish hchosen).mono ?_))
    rintro r after ⟨rfl, hended⟩
    exact ⟨rfl, hended⟩

end ended

/-! ### The stage machine -/

/-- The stages of an Apply that succeeds. -/
def successful (rollout : Bool) : List Stage :=
  [.validating, .applying] ++ (if rollout then [.rollingOut] else []) ++
    [.verifying, .committing, .succeeded]

/-- A history a record may end with: that of a success, or a non-empty proper part of it from the
start and then a failure, with or without a rollback, or an incident. -/
def Lawful (stages : List Stage) : Prop :=
  ∃ rollout, stages = successful rollout ∨
    ∃ walked, walked ≠ [] ∧ walked <+: successful rollout ∧ walked ≠ successful rollout ∧
      (stages = walked ++ [.failed] ∨ stages = walked ++ [.rollingBack, .failed] ∨
        stages = walked ++ [.rollingBack, .incident])

/-- The stage an engine raised in, if it did. -/
def failingStage (called : List Called) : Option Stage :=
  called.findSome? fun
    | .stage stage false _ => some stage
    | _ => none

def Called.isRollBack : Called → Bool
  | .rollBack _ => true
  | .stage .. => false

/-- What the engine was asked, what the record says and the world, at the end of a run. -/
structure StageMachine (called : List Called) (record : Outline) (world : World) : Prop where
  /-- The record ends in exactly one terminal stage. -/
  terminal : (record.stages.filter fun stage => stage ∈ TERMINAL) = [record.stage]
  last : record.stages.getLast? = some record.stage
  history : Lawful record.stages
  /-- `roll_back` is called at most once, and exactly when the failing stage touched the Cluster. -/
  rollBackOnce : called.countP Called.isRollBack =
    if (failingStage called).any ROLLED_BACK_FROM.contains then 1 else 0
  incident : record.stage = .incident ↔ .rollBack false ∈ called
  engaged : record.stage = .incident → world.engaged = true
  rolledBack : record.stage = .failed → .rollingBack ∈ record.stages →
    record.rollback = some .succeeded
  snapshot : ∀ number, record.snapshot = some number ↔
    .stage .committing true (some number) ∈ called ∧ record.stage = .succeeded

section machine

theorem Chosen.sublist {stages chosen : List Stage} (h : Chosen stages chosen) :
    chosen.Sublist stages := by
  induction h with
  | nil => exact .slnil
  | cons stage _ ih => exact ih.cons_cons stage
  | skip _ ih => exact ih.cons .rollingOut

/-- The stages taken of the pipeline are those of a success. -/
theorem Chosen.successful {chosen : List Stage} (h : Chosen PIPELINE chosen) :
    ∃ rollout, chosen ++ [.succeeded] = Pipeline.successful rollout := by
  unfold PIPELINE at h
  cases h with
  | cons _ h => cases h with
    | cons _ h => cases h with
      | cons _ h => cases h with
        | cons _ h => cases h with
          | cons _ h =>
            cases h
            exact ⟨true, rfl⟩
      | skip h => cases h with
        | cons _ h => cases h with
          | cons _ h =>
            cases h
            exact ⟨false, rfl⟩

variable {stages rest : List Stage} {failing : Stage} {number : Option Nat}

theorem of_mem_pipeline : ∀ stage ∈ PIPELINE,
    stage ∉ TERMINAL ∧ stage ≠ .rollingBack := by decide

/-- What was walked before a stage that raised, with that stage. -/
theorem Chosen.walked (h : Chosen PIPELINE (stages ++ failing :: rest)) :
    ∃ rollout, stages ++ [failing] <+: Pipeline.successful rollout ∧
      stages ++ [failing] ≠ Pipeline.successful rollout := by
  obtain ⟨rollout, hsuccess⟩ := h.successful
  refine ⟨rollout, ⟨rest ++ [.succeeded], by simpa using hsuccess⟩, fun heq => ?_⟩
  have hlength := congrArg List.length (heq.trans hsuccess.symm)
  simp at hlength

theorem Chosen.mem_pipeline (h : Chosen PIPELINE (stages ++ failing :: rest)) :
    ∀ stage ∈ stages ++ [failing], stage ∈ PIPELINE := by
  intro stage hstage
  refine h.sublist.subset ?_
  rcases List.mem_append.mp hstage with hmem | hmem
  · exact List.mem_append_left _ hmem
  · exact List.mem_append_right _ (List.mem_singleton.mp hmem ▸ List.mem_cons_self)

theorem filter_terminal {walked : List Stage} (h : ∀ stage ∈ walked, stage ∈ PIPELINE) :
    (walked.filter fun stage => stage ∈ TERMINAL) = [] :=
  List.filter_eq_nil_iff.mpr fun stage hstage => by
    simpa using (of_mem_pipeline stage (h stage hstage)).1

theorem not_rollingBack {walked : List Stage} (h : ∀ stage ∈ walked, stage ∈ PIPELINE) :
    .rollingBack ∉ walked := fun hmem => (of_mem_pipeline _ (h _ hmem)).2 rfl

/-- Stages that went well are neither failing nor a rollback. -/
theorem failingStage_append (called : List Called) :
    failingStage (stages.map (wellCalled number) ++ called) = failingStage called := by
  unfold failingStage
  rw [List.findSome?_append, List.findSome?_eq_none_iff.mpr]
  · rfl
  · rintro c hc
    obtain ⟨stage, -, rfl⟩ := List.mem_map.mp hc
    rfl

theorem countP_rollBack_append (called : List Called) :
    (stages.map (wellCalled number) ++ called).countP Called.isRollBack =
      called.countP Called.isRollBack := by
  rw [List.countP_append, List.countP_eq_zero.mpr, Nat.zero_add]
  rintro c hc
  obtain ⟨stage, -, rfl⟩ := List.mem_map.mp hc
  simp [wellCalled, Called.isRollBack]

theorem rollBack_mem_append {called : List Called} :
    .rollBack false ∈ stages.map (wellCalled number) ++ called ↔ .rollBack false ∈ called := by
  simp [wellCalled]

/-- What a record of a stage that raised goes on with. -/
theorem Chosen.lawful (h : Chosen PIPELINE (stages ++ failing :: rest)) {ending : List Stage}
    (hending : ending = [.failed] ∨ ending = [.rollingBack, .failed] ∨
      ending = [.rollingBack, .incident]) : Lawful (stages ++ [failing] ++ ending) := by
  obtain ⟨rollout, hprefix, hne⟩ := h.walked
  refine ⟨rollout, Or.inr ⟨stages ++ [failing], by simp, hprefix, hne, ?_⟩⟩
  simpa using hending

/-- What a record of a stage that raised goes on with ends it. -/
theorem Chosen.filter_ending (h : Chosen PIPELINE (stages ++ failing :: rest))
    (ending : List Stage) :
    ((stages ++ [failing] ++ ending).filter fun stage => stage ∈ TERMINAL) =
      ending.filter fun stage => stage ∈ TERMINAL := by
  rw [List.filter_append, filter_terminal h.mem_pipeline, List.nil_append]

/-- Each way of ending is one of the stage machine. -/
theorem Ended.machine {id : String} {state : List Called × World} (h : Ended id state) :
    ∃ outline, state.2.outline id = some outline ∧ StageMachine state.1 outline state.2 := by
  cases h with
  | succeeded stages number hstages h =>
    obtain ⟨rollout, hsuccess⟩ := hstages.successful
    have hmem : ∀ stage ∈ stages, stage ∈ PIPELINE := fun _ hstage => hstages.sublist.subset hstage
    have hcommitting : .committing ∈ stages := by
      have hlast : .committing ∈ Pipeline.successful rollout := by cases rollout <;> decide
      rw [← hsuccess] at hlast
      simpa using hlast
    refine ⟨_, h.outline, ?_⟩
    rw [h.called]
    refine ⟨?_, by simp, ⟨rollout, Or.inl hsuccess⟩, ?_, ?_, nofun, nofun, ?_⟩
    · rw [List.filter_append, filter_terminal hmem]
      rfl
    · rw [← List.append_nil (stages.map _), countP_rollBack_append, failingStage_append]
      rfl
    · simp [wellCalled]
    · intro committed
      constructor
      · intro hnumber
        refine ⟨List.mem_map.mpr ⟨.committing, hcommitting, ?_⟩, rfl⟩
        exact congrArg _ hnumber
      · rintro ⟨hcalled, -⟩
        obtain ⟨stage, -, heq⟩ := List.mem_map.mp hcalled
        obtain ⟨rfl, -, hnumber⟩ := Called.stage.inj heq
        exact hnumber
  | failed stages rest number failing hstages hfrom h =>
    refine ⟨_, h.outline, ?_⟩
    rw [h.called]
    refine ⟨hstages.filter_ending _, by simp, hstages.lawful (Or.inl rfl), ?_, ?_, nofun, ?_, ?_⟩
    · rw [countP_rollBack_append, failingStage_append]
      simp [failingStage, Called.isRollBack, hfrom]
    · rw [rollBack_mem_append]
      simp
    · intro _ hrolled
      rcases List.mem_append.mp hrolled with hrolled | hrolled
      · exact absurd hrolled (not_rollingBack hstages.mem_pipeline)
      · cases List.mem_singleton.mp hrolled
    · simp
  | rolledBack stages rest number failing hstages hfrom h =>
    refine ⟨_, h.outline, ?_⟩
    rw [h.called]
    refine ⟨hstages.filter_ending _, by simp, hstages.lawful (Or.inr (Or.inl rfl)), ?_, ?_, nofun,
      fun _ _ => rfl, ?_⟩
    · rw [countP_rollBack_append, failingStage_append]
      simp [failingStage, Called.isRollBack, hfrom]
    · rw [rollBack_mem_append]
      simp
    · simp
  | incident stages rest number failing hstages hfrom h hengaged =>
    refine ⟨_, h.outline, ?_⟩
    rw [h.called]
    refine ⟨hstages.filter_ending _, by simp, hstages.lawful (Or.inr (Or.inr rfl)), ?_, ?_,
      fun _ => hengaged, nofun, ?_⟩
    · rw [countP_rollBack_append, failingStage_append]
      simp [failingStage, Called.isRollBack, hfrom]
    · rw [rollBack_mem_append]
      simp
    · simp

end machine

/-- The stage machine: whatever the engine answers, and whichever of its methods raise, every run of
the runner from a record just created goes through, and ends the record as the stage machine says. -/
theorem apply_stage_machine (outside : Outside) (kind : EngineKind) (applyId actor : String)
    (baseSnapshot : Option Nat) {world world' : World} {r : Except Error Unit}
    {called : List Called}
    (hcreated : world.record applyId = some { id := applyId, stage := .validating
                                              history := [⟨.validating, none⟩]
                                              baseSnapshot := baseSnapshot })
    (hrun : Exec (anyEngine outside) (ApplyRunner.run kind applyId actor) ([], world) r
      (called, world')) :
    r = .ok () ∧ ∃ record, world'.record applyId = some record ∧
      StageMachine called record.outline world' := by
  have houtline : world.outline applyId = some ⟨.validating, [.validating], none, none⟩ := by
    unfold World.outline
    rw [hcreated]
    rfl
  have hwp : (ApplyRunner.run kind applyId actor).Wp (anyEngine outside)
      (fun r after => r = .ok () ∧ Ended applyId after) ([], world) := run_wp houtline rfl
  obtain ⟨hr, hended⟩ := hwp.exec hrun
  obtain ⟨outline, hfound, hmachine⟩ := hended.machine
  obtain ⟨record, hrecord, rfl⟩ := Option.map_eq_some_iff.mp hfound
  exact ⟨hr, record, hrecord, hmachine⟩

/-- An engine whose Verification and rollback raise. -/
def EngineCall.broken {β : Type} : EngineCall β → Except Error β
  | .validate | .apply | .rollOut | .declareIncident _ => .ok ()
  | .warnings => .ok []
  | .rolloutNeeded => .ok true
  | .commit => .ok (some 1)
  | .verify | .rollBack => .error unreachable

/-- What it leaves. -/
def EngineCall.brokenWorld {β : Type} (c : EngineCall β) (world : World) : World :=
  match c with
  | .declareIncident reason =>
      { world with maintenance := some { engaged := true, reason := some reason } }
  | _ => world

/-- A run with that engine. -/
def brokenMachine (outside : Outside) : Machine RunnerCall (List Called × World) where
  exec := fun c state => match c with
    | .engine c => (c.broken, state.1 ++ c.called c.broken, c.brokenWorld state.2)
    | .store c => ((state.2.exec outside c).1, state.1, (state.2.exec outside c).2)

/-- The world when an Apply has just been created. -/
def createdWorld : World :=
  { freshWorld with applies := [
      { id := "a1", stage := .validating, history := [⟨.validating, none⟩] }] }

/-- An Apply that ends in an incident. -/
theorem apply_stage_machine_incident : ∃ r called world',
    Exec (anyEngine quietOutside) (ApplyRunner.run .operator "a1" "bob") ([], createdWorld) r
      (called, world') ∧
    r = .ok () ∧ ∃ record, world'.record "a1" = some record ∧
      StageMachine called record.outline world' := by
  have hbroken : ∀ {β : Type} (c : RunnerCall β) (state : List Called × World),
      anyEngine quietOutside β c state ((brokenMachine quietOutside).exec c state).1
        ((brokenMachine quietOutside).exec c state).2 := by
    intro β c state
    cases c with
    | store c => exact ⟨⟨.through, fun _ => rfl⟩, rfl⟩
    | engine c =>
      refine ⟨?_, rfl⟩
      cases c <;> exact ⟨rfl, by trivial⟩
  have hrun := Exec.of_run hbroken (ApplyRunner.run .operator "a1" "bob") ([], createdWorld)
  exact ⟨_, _, _, hrun,
    apply_stage_machine quietOutside .operator "a1" "bob" none rfl hrun⟩

/-! ### The Applies of the service -/

section service

variable {outside : Outside} {app : App} {kind : EngineKind} {applyId actor : String}

/-- A program that names no Apply leaves the records alone. -/
theorem bookkept_applies {α : Type} {p : PipelineProg α} {w w' : World} {r : Except Error α}
    (hp : OfKind (fun kind => (∀ id, kind ≠ .apply id) ∧ ∀ id, kind ≠ .insert id) p)
    (h : Exec (bookkept outside) p w r w') : w'.applies = w.applies := by
  refine All.exec (I := fun after => after.applies = w.applies) ?_ hp rfl h
  intro β c before r after hkind hbefore hanswer
  refine Eq.trans ?_ hbefore
  have hchange := answer_recordChange outside hanswer.1
  generalize after.applies = records at hchange
  cases hchange with
  | unchanged => rfl
  | update change hk _ _ => exact absurd hk (hkind.1 _)
  | insert hk _ => exact absurd hk (hkind.2 _)

/-- Declaring an incident goes through, and engages Maintenance Mode. -/
theorem bookkept_declareIncident {reason : String} {w w' : World} {r : Except Error Unit}
    (h : Exec (bookkept outside) (declareIncident app applyId reason) w r w') :
    r.isOk = true ∧ w'.engaged = true := by
  have hwp : (declareIncident app applyId reason).Wp (bookkept outside)
      (fun r after => r = .ok () ∧ after.engaged = true) w := by
    show ((engage SYSTEM_ACTOR _ .autoRollbackFailure).bind _).Wp _ _ _
    refine (wp_bind _ _).mpr ((wp_bind _ _).mpr ((wp_perform _).mpr fun r engaged hanswer => ?_))
    obtain ⟨rfl, rfl⟩ := Prod.mk.inj (hanswer.2 trivial)
    refine (wp_bind _ _).mpr ((wp_attempt _).mpr ((wp_perform _).mpr fun r logged hanswer => ?_))
    obtain ⟨rfl, rfl⟩ := Prod.mk.inj (hanswer.2 trivial)
    show (alert app applyId reason).Wp _ _ _
    unfold alert
    split
    · exact ⟨rfl, rfl⟩
    · split
      · exact ⟨rfl, rfl⟩
      · refine (wp_bind _ _).mpr ((wp_attempt _).mpr ((wp_perform _).mpr fun r sent hanswer => ?_))
        refine ⟨rfl, ?_⟩
        unfold World.engaged
        rw [answer_maintenance outside hanswer.1 nofun]
        rfl
  obtain ⟨rfl, hengaged⟩ := hwp.exec h
  exact ⟨rfl, hengaged⟩

/-- A method that is a program of the pipeline answers what the program does. -/
theorem exec_attempt_bind {α σ : Type} {A : Answers Call World} {p : PipelineProg α} {s : σ}
    {w w' : World} {x : Except Error (Except Error α × σ)}
    (h : Exec A (p.attempt.bind fun r => .ret (r, s)) w x w') :
    ∃ r, x = .ok (r, s) ∧ Exec A p w r w' := by
  rcases h.bind_inv with ⟨r, w₁, hp, hret⟩ | ⟨e, -, hp⟩
  · obtain ⟨r', hr, hp⟩ := hp.attempt_inv
    cases hr
    cases hret
    exact ⟨_, rfl, hp⟩
  · obtain ⟨r', hr, -⟩ := hp.attempt_inv
    cases hr

/-- The methods of `Engine` and `AdminEngine` answer as any engine's do. -/
theorem implement_answers {β : Type} {c : EngineCall β} {prepared : Prepared} {w w' : World}
    {x : Except Error (Except Error β × Prepared)}
    (h : Exec (bookkept outside) (c.implement app kind applyId actor prepared) w x w') :
    ∃ r after, x = .ok (r, after) ∧ c.Answer w r w' := by
  have hstore : (∀ id, CallKind.store ≠ .apply id) ∧ ∀ id, CallKind.store ≠ .insert id :=
    ⟨nofun, nofun⟩
  have hread : (∀ id, CallKind.clusterRead ≠ .apply id) ∧ ∀ id, CallKind.clusterRead ≠ .insert id :=
    ⟨nofun, nofun⟩
  have hwrite : (∀ id, CallKind.clusterWrite ≠ .apply id) ∧
      ∀ id, CallKind.clusterWrite ≠ .insert id := ⟨nofun, nofun⟩
  cases c with
  | validate =>
    rcases h.bind_inv with ⟨validated, w₁, hvalidate, hret⟩ | ⟨e, -, hvalidate⟩
    · obtain ⟨r, hr, hvalidate⟩ := hvalidate.attempt_inv
      obtain rfl := Except.ok.inj hr
      have happlies := bookkept_applies (ofKind_validate hstore hread hwrite kind) hvalidate
      rcases validated with e | after <;> cases hret <;> exact ⟨_, _, rfl, happlies, trivial⟩
    · obtain ⟨r, hr, -⟩ := hvalidate.attempt_inv
      cases hr
  | warnings =>
    cases h
    exact ⟨_, _, rfl, rfl, rfl⟩
  | rolloutNeeded =>
    cases h
    exact ⟨_, _, rfl, rfl, rfl⟩
  | apply =>
    obtain ⟨r, rfl, hrun⟩ := exec_attempt_bind h
    exact ⟨r, _, rfl, bookkept_applies (ofKind_onCluster hread hwrite _) hrun, trivial⟩
  | rollOut =>
    obtain ⟨r, rfl, hrun⟩ := exec_attempt_bind h
    exact ⟨r, _, rfl, bookkept_applies (ofKind_onCluster hread hwrite _) hrun, trivial⟩
  | verify =>
    obtain ⟨r, rfl, hrun⟩ := exec_attempt_bind h
    exact ⟨r, _, rfl, bookkept_applies (ofKind_onCluster hread hwrite _) hrun, trivial⟩
  | commit =>
    obtain ⟨r, rfl, hrun⟩ := exec_attempt_bind h
    exact ⟨r, _, rfl, bookkept_applies (ofKind_commit hstore _ _ _ _) hrun, trivial⟩
  | rollBack =>
    obtain ⟨r, rfl, hrun⟩ := exec_attempt_bind h
    exact ⟨r, _, rfl, bookkept_applies (ofKind_rollBack hstore hread hwrite _) hrun, trivial⟩
  | declareIncident reason =>
    obtain ⟨r, rfl, hrun⟩ := exec_attempt_bind h
    exact ⟨r, _, rfl, bookkept_applies
      (ofKind_declareIncident hstore ⟨nofun, nofun⟩ _ _) hrun, bookkept_declareIncident hrun⟩

end service

/-- The stage machine of the service's Applies: in every run of an Apply whose bookkeeping goes
through, whatever comes of its other calls, it ends as the stage machine says. -/
theorem runApply_stage_machine (app : App) (outside : Outside) (kind : EngineKind)
    (applyId actor : String) (baseSnapshot : Option Nat) {world world' : World}
    {r : Except Error Unit}
    (hcreated : world.record applyId = some { id := applyId, stage := .validating
                                              history := [⟨.validating, none⟩]
                                              baseSnapshot := baseSnapshot })
    (hrun : Exec (bookkept outside) (runApply app kind applyId actor) world r world') :
    r = .ok () ∧ ∃ called record, world'.record applyId = some record ∧
      StageMachine called record.outline world' := by
  rw [runApply_eq] at hrun
  have hanswers : ∀ {β : Type} (c : RunnerCall β) prepared w x w' (called : List Called),
      Exec (bookkept outside) (engineOf app kind applyId actor c prepared) w x w' →
        ∃ r after called', x = .ok (r, after) ∧ anyEngine outside β c (called, w) r (called', w') := by
    intro β c prepared w x w' called h
    cases c with
    | engine c =>
      obtain ⟨r, after, rfl, hanswer⟩ := implement_answers h
      exact ⟨r, after, _, rfl, hanswer, rfl⟩
    | store c =>
      cases h with
      | call hanswer hret =>
        cases hret
        exact ⟨_, _, called, rfl, hanswer, rfl⟩
  rcases Exec.bind_inv hrun with ⟨done, w₁, hhandled, hret⟩ | ⟨e, -, hhandled⟩
  · obtain ⟨r', prepared, called, heq, hexec⟩ := Exec.handle_inv hanswers hhandled []
    cases heq
    obtain ⟨rfl, record, hrecord, hmachine⟩ :=
      apply_stage_machine outside kind applyId actor baseSnapshot hcreated hexec
    cases hret
    exact ⟨rfl, called, record, hrecord, hmachine⟩
  · obtain ⟨r', prepared, called, heq, -⟩ := Exec.handle_inv hanswers hhandled []
    cases heq

end Apchi.Pipeline
