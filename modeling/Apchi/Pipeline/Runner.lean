import Apchi.Lib.Handle
import Apchi.Pipeline.Records

/-!
# The runner, whatever the engine

The runner knows an engine only by its methods, any of which may raise.  It is written here against
those methods, as a loop over the stages; the Apply of the service is that runner with `Engine` or
`AdminEngine` behind the methods.  What the loop leaves in the record is then said for every engine:
a step lemma for one stage, a run lemma for the walk, and the four ways an Apply can end.
-/

namespace Apchi.Pipeline

open Lib Prog

/-- `ApplyEngine`: what the pipeline does at each stage. -/
inductive EngineCall : Type → Type where
  | validate : EngineCall Unit
  | warnings : EngineCall (List ValidationFailure)
  | apply : EngineCall Unit
  | rolloutNeeded : EngineCall Bool
  | rollOut : EngineCall Unit
  | verify : EngineCall Unit
  | commit : EngineCall (Option Nat)
  | rollBack : EngineCall Unit
  | declareIncident (reason : String) : EngineCall Unit

/-- The calls of a runner: those of its engine, and those on the stores. -/
inductive RunnerCall : Type → Type 1 where
  | engine {β : Type} (c : EngineCall β) : RunnerCall β
  | store {β : Type} (c : Call β) : RunnerCall β

abbrev RunnerProg := Prog RunnerCall

/-- One method of the engine. -/
abbrev ask {β : Type} (c : EngineCall β) : RunnerProg β := perform (.engine c)

/-- What is done on the stores. -/
abbrev stored {α : Type} (p : PipelineProg α) : RunnerProg α := p.lift RunnerCall.store

/-- The order the pipeline walks. -/
def PIPELINE : List Stage := [.validating, .applying, .rollingOut, .verifying, .committing]

/-! ### The runner -/

namespace ApplyRunner

variable (kind : EngineKind) (applyId actor : String)

/-- What is done in a stage, and the Snapshot committed in it. -/
def step : Stage → RunnerProg (Option Nat)
  | .validating => do
      ask .validate
      let warnings ← ask .warnings
      stored (call (.setWarnings applyId warnings))
      pure none
  | .applying => do
      ask .apply
      pure none
  | .rollingOut => do
      ask .rollOut
      pure none
  | .verifying => do
      ask .verify
      pure none
  | .committing => ask .commit
  | .rollingBack | .succeeded | .failed | .incident => pure none

/-- A stage, recorded before it runs; the first one is recorded at creation. -/
def reach (stage : Stage) : RunnerProg (Option Nat) := do
  if stage = .validating then pure () else stored (call (.pushStage applyId stage none))
  step applyId stage

/-- Whether a stage is one of this Apply's: a Rollout that is not needed is not. -/
def wanted (stage : Stage) : RunnerProg Bool :=
  if stage = .rollingOut then ask .rolloutNeeded else pure true

/-- The loop over the stages: the Snapshot committed, or the stage that raised and what it raised. -/
def walk : List Stage → Option Nat → RunnerProg (Except (Stage × Error) (Option Nat))
  | [], snapshot => pure (.ok snapshot)
  | stage :: rest, snapshot => do
      if ← wanted stage then
        match ← (reach applyId stage).attempt with
        | .ok result => walk rest (if stage = .committing then result else snapshot)
        | .error e => pure (.error (stage, e))
      else walk rest snapshot

/-- `record_snapshot`, when one was committed. -/
def recordSnapshot : Option Nat → RunnerProg Unit
  | some number => stored (call (.setSnapshot applyId number))
  | none => pure ()

/-- What follows the last stage. -/
def finish (snapshot : Option Nat) : RunnerProg Unit := do
  recordSnapshot applyId snapshot
  stored (call (.pushStage applyId .succeeded none))
  stored (audited (applyEvent kind actor applyId "applied" "succeeded" snapshot none))

/-- `_roll_back`. -/
def rollBack (reason : String) : RunnerProg Unit := do
  stored (call (.pushStage applyId .rollingBack (some reason)))
  match ← (ask .rollBack).attempt with
  | .error e => do
      stored (call (.setRollback applyId .failed))
      let combined := s!"{reason}. Auto Rollback then failed: {e.text}"
      ask (.declareIncident combined)
      stored (recordIncident applyId combined INCIDENT_MESSAGE)
      stored (audited
        (applyEvent kind SYSTEM_ACTOR applyId "rolled_back" "failed" none (some combined)))
  | .ok _ => do
      stored (call (.setRollback applyId .succeeded))
      stored (failApply applyId reason)
      stored (audited
        (applyEvent kind SYSTEM_ACTOR applyId "rolled_back" "succeeded" none (some reason)))

/-- What is done about an Apply that failed, by the stage it reached. -/
def fail (reached : Stage) (e : Error) : RunnerProg Unit := do
  stored (audited (applyEvent kind actor applyId "applied" "failed" none
    (some s!"failed in {reached.value}: {reasonOf e}")))
  if ROLLED_BACK_FROM.contains reached then rollBack kind applyId (reasonOf e)
  else stored (failApply applyId (reasonOf e))

/-- What follows the walk. -/
def settle : Except (Stage × Error) (Option Nat) → RunnerProg Unit
  | .error (reached, e) => fail kind applyId actor reached e
  | .ok snapshot => do
      match ← (finish kind applyId actor snapshot).attempt with
      | .ok _ => pure ()
      -- The bookkeeping after the last stage still counts as that stage.
      | .error e => fail kind applyId actor .committing e

/-- `_run`. -/
def run : RunnerProg Unit := do
  let outcome ← walk applyId PIPELINE none
  settle kind applyId actor outcome

end ApplyRunner

/-! ### The engines behind the methods -/

/-- What an engine holds before Validation. -/
def Prepared.initial (app : App) : Prepared where
  cluster := ⟨app.settings, {}⟩
  desired := fun _ => ∅
  current := fun _ => ∅
  rollout := []
  rawFilesChanged := false
  warnings := []

/-- The methods of `Engine` and `AdminEngine`: Validation leaves what the methods after it go by. -/
def EngineCall.implement (app : App) (kind : EngineKind) (applyId actor : String) {β : Type}
    (c : EngineCall β) (prepared : Prepared) : PipelineProg (Except Error β × Prepared) :=
  match c with
  | .validate => (Pipeline.validate app kind).attempt.bind fun r => match r with
      | .ok prepared => .ret (.ok (), prepared)
      | .error e => .ret (.error e, prepared)
  | .warnings => .ret (.ok prepared.warnings, prepared)
  | .apply => (onCluster (applyStage app prepared)).attempt.bind fun r => .ret (r, prepared)
  | .rolloutNeeded => .ret (.ok prepared.rolloutNeeded, prepared)
  | .rollOut =>
      (onCluster (rollOutStage app applyId prepared)).attempt.bind fun r => .ret (r, prepared)
  | .verify => (onCluster (verifyStage app prepared)).attempt.bind fun r => .ret (r, prepared)
  | .commit =>
      (Pipeline.commit applyId actor prepared kind).attempt.bind fun r => .ret (r, prepared)
  | .rollBack => (Pipeline.rollBack app kind).attempt.bind fun r => .ret (r, prepared)
  | .declareIncident reason =>
      (Pipeline.declareIncident app applyId reason).attempt.bind fun r => .ret (r, prepared)

/-- `Engine` and `AdminEngine` as what the runner drives. -/
def engineOf (app : App) (kind : EngineKind) (applyId actor : String) {β : Type}
    (c : RunnerCall β) (prepared : Prepared) : PipelineProg (Except Error β × Prepared) :=
  match c with
  | .engine c => c.implement app kind applyId actor prepared
  | .store c => .call c fun r => .ret (r, prepared)

section behind

variable (app : App) (kind : EngineKind) (applyId actor : String) (prepared : Prepared)

/-- What the runner does on the stores it does whatever is behind its engine. -/
theorem handle_stored {α : Type} (p : PipelineProg α) :
    (stored p).handle (engineOf app kind applyId actor) prepared =
      p.attempt.bind fun r => .ret (r, prepared) :=
  handle_lift _ _ _ (fun _ _ => rfl) p

/-- A program of the runner with the engine behind it, from what the engine holds. -/
def drive (p : RunnerProg Unit) : PipelineProg Unit :=
  (p.handle (engineOf app kind applyId actor) prepared).bind fun done => ofExcept done.1

theorem drive_bind {α : Type} (p : RunnerProg α) (f : α → RunnerProg Unit) :
    drive app kind applyId actor prepared (p.bind f) =
      (p.handle (engineOf app kind applyId actor) prepared).bind fun done => match done.1 with
        | .ok a => drive app kind applyId actor done.2 (f a)
        | .error e => .raise e := by
  unfold drive
  rw [handle_bind, bind_assoc]
  refine congrArg _ (funext fun done => ?_)
  obtain ⟨_ | _, _⟩ := done <;> rfl

theorem drive_stored (p : PipelineProg Unit) :
    drive app kind applyId actor prepared (stored p) = p := by
  unfold drive
  rw [handle_stored, bind_assoc]
  exact attempt_ofExcept p

theorem drive_stored_bind {α : Type} (p : PipelineProg α) (f : α → RunnerProg Unit) :
    drive app kind applyId actor prepared ((stored p).bind f) =
      p.bind fun a => drive app kind applyId actor prepared (f a) := by
  rw [drive_bind, handle_stored, bind_assoc]
  conv_rhs => rw [← attempt_ofExcept p, bind_assoc]
  refine congrArg _ (funext fun r => ?_)
  rcases r with e | a <;> rfl

theorem drive_ask_attempt_bind {β : Type} {c : EngineCall β} {p : PipelineProg β}
    (hc : c.implement app kind applyId actor prepared = p.attempt.bind fun r => .ret (r, prepared))
    (f : Except Error β → RunnerProg Unit) :
    drive app kind applyId actor prepared ((ask c).attempt.bind f) =
      p.attempt.bind fun r => drive app kind applyId actor prepared (f r) := by
  have hask : (ask c).handle (engineOf app kind applyId actor) prepared =
      p.attempt.bind fun r => .ret (r, prepared) := (handle_perform _ _ _).trans hc
  rw [drive_bind, handle_attempt, hask, bind_assoc, bind_assoc]
  rfl

theorem drive_ask_bind {β : Type} {c : EngineCall β} {p : PipelineProg β}
    (hc : c.implement app kind applyId actor prepared = p.attempt.bind fun r => .ret (r, prepared))
    (f : β → RunnerProg Unit) :
    drive app kind applyId actor prepared ((ask c).bind f) =
      p.bind fun r => drive app kind applyId actor prepared (f r) := by
  have hask : (ask c).handle (engineOf app kind applyId actor) prepared =
      p.attempt.bind fun r => .ret (r, prepared) := (handle_perform _ _ _).trans hc
  rw [drive_bind, hask, bind_assoc]
  conv_rhs => rw [← attempt_ofExcept p, bind_assoc]
  refine congrArg _ (funext fun r => ?_)
  rcases r with e | a <;> rfl

theorem drive_rollBack (reason : String) :
    drive app kind applyId actor prepared (ApplyRunner.rollBack kind applyId reason) =
      rollBackApply app kind applyId reason := by
  show drive app kind applyId actor prepared ((stored _).bind fun _ => (ask _).attempt.bind _) = _
  rw [drive_stored_bind]
  refine congrArg _ (funext fun _ => ?_)
  rw [drive_ask_attempt_bind app kind applyId actor prepared rfl]
  refine congrArg _ (funext fun r => ?_)
  rcases r with e | u
  · simp only [bind_eq, drive_stored_bind]
    refine congrArg _ (funext fun _ => ?_)
    rw [drive_ask_bind app kind applyId actor prepared rfl]
    refine congrArg _ (funext fun _ => ?_)
    rw [drive_stored_bind, drive_stored]
  · simp only [bind_eq, drive_stored_bind, drive_stored]

theorem drive_fail (reached : Stage) (e : Error) :
    drive app kind applyId actor prepared (ApplyRunner.fail kind applyId actor reached e) =
      failedIn app kind applyId actor reached e := by
  show drive app kind applyId actor prepared ((stored _).bind fun _ => _) = _
  rw [drive_stored_bind]
  refine congrArg _ (funext fun _ => ?_)
  by_cases h : ROLLED_BACK_FROM.contains reached
  · rw [if_pos h, drive_rollBack, if_pos h]
  · rw [if_neg h, drive_stored, if_neg h]

/-- The walk's continuation after one stage. -/
theorem drive_walk_cons (stage : Stage) (c : EngineCall Unit) (p : PipelineProg Unit)
    (hvalidating : stage ≠ .validating) (hcommitting : stage ≠ .committing)
    (hneeded : stage = .rollingOut → prepared.rolloutNeeded = true)
    (hstep : ApplyRunner.step applyId stage = (ask c).bind fun _ => .ret none)
    (hc : c.implement app kind applyId actor prepared =
      p.attempt.bind fun r => .ret (r, prepared))
    (rest : List Stage) (f : Except (Stage × Error) (Option Nat) → RunnerProg Unit) :
    drive app kind applyId actor prepared
        ((ApplyRunner.walk applyId (stage :: rest) none).bind f) =
      (inStage stage (do
        call (.pushStage applyId stage none)
        p)).run.bind fun r => match r with
          | .ok _ => drive app kind applyId actor prepared
              ((ApplyRunner.walk applyId rest none).bind f)
          | .error failed => drive app kind applyId actor prepared (f (.error failed)) := by
  have hreach : ApplyRunner.reach applyId stage =
      (stored (call (.pushStage applyId stage none))).bind fun _ =>
        (ask c).bind fun _ => .ret none := by
    unfold ApplyRunner.reach
    rw [if_neg hvalidating, hstep]
    rfl
  have hask : (ask c).handle (engineOf app kind applyId actor) prepared =
      p.attempt.bind fun r => .ret (r, prepared) := (handle_perform _ _ _).trans hc
  have hran : (ApplyRunner.reach applyId stage).attempt.handle (engineOf app kind applyId actor)
      prepared = (Prog.attempt (do
        call (.pushStage applyId stage none)
        p)).bind fun r => .ret (.ok (r.map fun _ => none), prepared) := by
    rw [hreach, handle_attempt, handle_bind, handle_stored, bind_eq, attempt_bind]
    simp only [bind_assoc, ret_bind]
    refine congrArg _ (funext fun r => ?_)
    rcases r with e | u
    · rfl
    · dsimp only
      rw [handle_bind, hask]
      simp only [bind_assoc, ret_bind]
      refine congrArg _ (funext fun r => ?_)
      rcases r with e | u <;> rfl
  have hasked : drive app kind applyId actor prepared
      ((ApplyRunner.walk applyId (stage :: rest) none).bind f) =
      drive app kind applyId actor prepared
        ((ApplyRunner.reach applyId stage).attempt.bind fun r => match r with
          | .ok _ => (ApplyRunner.walk applyId rest none).bind f
          | .error e => f (.error (stage, e))) := by
    have hcontinue : (fun needed : Bool => (if needed then
          ((ApplyRunner.reach applyId stage).attempt.bind fun r => match r with
            | .ok result => ApplyRunner.walk applyId rest
                (if stage = .committing then result else none)
            | .error e => .ret (.error (stage, e)))
        else ApplyRunner.walk applyId rest none).bind f) true =
        (ApplyRunner.reach applyId stage).attempt.bind fun r => match r with
          | .ok _ => (ApplyRunner.walk applyId rest none).bind f
          | .error e => f (.error (stage, e)) := by
      show Prog.bind (Prog.bind _ _) f = _
      rw [bind_assoc]
      refine congrArg _ (funext fun r => ?_)
      rcases r with e | result
      · rfl
      · dsimp only
        rw [if_neg hcommitting]
    rw [← hcontinue]
    show drive app kind applyId actor prepared
      (((ApplyRunner.wanted stage).bind _).bind f) = _
    rw [Prog.bind_assoc]
    unfold ApplyRunner.wanted
    by_cases hrolling : stage = .rollingOut
    · rw [if_pos hrolling, drive_bind]
      have hanswer : (ask .rolloutNeeded).handle (engineOf app kind applyId actor) prepared =
          .ret (.ok true, prepared) := by
        rw [← hneeded hrolling]
        exact handle_perform _ _ _
      rw [hanswer]
      rfl
    · rw [if_neg hrolling]
      rfl
  rw [hasked, drive_bind, hran, Prog.bind_assoc]
  show _ = Prog.bind (Prog.bind _ _) _
  rw [Prog.bind_assoc]
  refine congrArg _ (funext fun r => ?_)
  rcases r with e | u <;> rfl

/-- A Rollout that is not needed is left out. -/
theorem drive_walk_skip (hneeded : prepared.rolloutNeeded = false) (rest : List Stage)
    (f : Except (Stage × Error) (Option Nat) → RunnerProg Unit) :
    drive app kind applyId actor prepared
        ((ApplyRunner.walk applyId (.rollingOut :: rest) none).bind f) =
      drive app kind applyId actor prepared ((ApplyRunner.walk applyId rest none).bind f) := by
  show drive app kind applyId actor prepared
    (((ApplyRunner.wanted .rollingOut).bind _).bind f) = _
  have hanswer : (ApplyRunner.wanted .rollingOut).handle (engineOf app kind applyId actor) prepared =
      .ret (.ok false, prepared) := by
    rw [← hneeded]
    exact handle_perform _ _ _
  rw [Prog.bind_assoc, drive_bind, hanswer]
  rfl

/-- Validation leaves what the stages after it go by. -/
theorem drive_walk_validating (rest : List Stage)
    {f : Except (Stage × Error) (Option Nat) → RunnerProg Unit}
    (hf : ∀ prepared failed, drive app kind applyId actor prepared (f (.error failed)) =
      failedIn app kind applyId actor failed.1 failed.2) :
    drive app kind applyId actor prepared
        ((ApplyRunner.walk applyId (.validating :: rest) none).bind f) =
      (inStage .validating (do
        let prepared ← validate app kind
        call (.setWarnings applyId prepared.warnings)
        pure prepared)).run.bind fun r => match r with
          | .ok prepared => drive app kind applyId actor prepared
              ((ApplyRunner.walk applyId rest none).bind f)
          | .error failed => failedIn app kind applyId actor failed.1 failed.2 := by
  have hstep : (ApplyRunner.step applyId .validating).handle (engineOf app kind applyId actor)
      prepared = (validate app kind).attempt.bind fun r => match r with
        | .ok prepared => (call (.setWarnings applyId prepared.warnings)).attempt.bind fun r =>
            .ret (r.map fun _ => none, prepared)
        | .error e => .ret (.error e, prepared) := by
    have hvalidate : (ask .validate).handle (engineOf app kind applyId actor) prepared =
        (validate app kind).attempt.bind fun r => match r with
          | .ok prepared => .ret (.ok (), prepared)
          | .error e => .ret (.error e, prepared) := handle_perform _ _ _
    show ((ask .validate).bind _).handle _ _ = _
    rw [handle_bind, hvalidate, Prog.bind_assoc]
    refine congrArg _ (funext fun r => ?_)
    rcases r with e | after
    · rfl
    · show ((ask .warnings).bind _).handle (engineOf app kind applyId actor) after = _
      have hwarnings : (ask .warnings).handle (engineOf app kind applyId actor) after =
          .ret (.ok after.warnings, after) := handle_perform _ _ _
      rw [handle_bind, hwarnings]
      show ((stored _).bind _).handle (engineOf app kind applyId actor) after = _
      rw [handle_bind, handle_stored, Prog.bind_assoc]
      refine congrArg _ (funext fun r => ?_)
      rcases r with e | u <;> rfl
  show drive app kind applyId actor prepared
    (((ApplyRunner.step applyId .validating).attempt.bind _).bind f) = _
  rw [Prog.bind_assoc, drive_bind, handle_attempt, hstep]
  show _ = Prog.bind (Prog.bind (attempt (Prog.bind _ _)) _) _
  simp only [Prog.bind_assoc, attempt_bind, ret_bind]
  refine congrArg _ (funext fun r => ?_)
  rcases r with e | after
  · exact hf prepared (.validating, e)
  · simp only [Prog.bind_assoc, attempt_bind, ret_bind, bind_eq]
    refine congrArg _ (funext fun r => ?_)
    rcases r with e | u
    · exact hf after (.validating, e)
    · rfl

theorem drive_stored_attempt_bind {α : Type} (p : PipelineProg α)
    (f : Except Error α → RunnerProg Unit) :
    drive app kind applyId actor prepared ((stored p).attempt.bind f) =
      p.attempt.bind fun r => drive app kind applyId actor prepared (f r) := by
  rw [drive_bind, handle_attempt, handle_stored, Prog.bind_assoc, Prog.bind_assoc]
  rfl

/-- What follows a commit, on the stores. -/
theorem finish_eq (snapshot : Option Nat) :
    ApplyRunner.finish kind applyId actor snapshot = stored (do
      match snapshot with
      | some number => call (.setSnapshot applyId number)
      | none => pure ()
      call (.pushStage applyId .succeeded none)
      audited (applyEvent kind actor applyId "applied" "succeeded" snapshot none)) := by
  cases snapshot with
  | none => exact (lift_bind _ _ _).symm
  | some number =>
    unfold stored
    simp only [bind_eq, lift_bind]
    rfl

theorem drive_walk_committing : drive app kind applyId actor prepared
      ((ApplyRunner.walk applyId [.committing] none).bind (ApplyRunner.settle kind applyId actor)) =
      (inStage .committing (commitStage kind applyId actor prepared)).run.bind fun r =>
        match r with
          | .ok _ => pure ()
          | .error (reached, e) => failedIn app kind applyId actor reached e := by
  show drive app kind applyId actor prepared
    (((ApplyRunner.reach applyId .committing).attempt.bind _).bind _) = _
  have hreach : (ApplyRunner.reach applyId .committing).handle (engineOf app kind applyId actor)
      prepared = (Prog.bind (call (.pushStage applyId .committing none)) fun _ =>
        commit applyId actor prepared kind).attempt.bind fun r => .ret (r, prepared) := by
    show ((stored _).bind fun _ => ask .commit).handle _ _ = _
    have hcommit : (ask .commit).handle (engineOf app kind applyId actor) prepared =
        (commit applyId actor prepared kind).attempt.bind fun r => .ret (r, prepared) :=
      handle_perform _ _ _
    rw [handle_bind, handle_stored, Prog.bind_assoc, attempt_bind, Prog.bind_assoc]
    refine congrArg _ (funext fun r => ?_)
    rcases r with e | u
    · rfl
    · exact hcommit
  have hcommitted : commitStage kind applyId actor prepared =
      (Prog.bind (call (.pushStage applyId .committing none)) fun _ =>
        commit applyId actor prepared kind).bind fun snapshot => (do
          match snapshot with
          | some number => call (.setSnapshot applyId number)
          | none => pure ()
          call (.pushStage applyId .succeeded none)
          audited (applyEvent kind actor applyId "applied" "succeeded" snapshot none)) := by
    rw [Prog.bind_assoc]
    rfl
  generalize (Prog.bind (call (.pushStage applyId .committing none)) fun _ =>
    commit applyId actor prepared kind) = committed at hreach hcommitted
  rw [Prog.bind_assoc, drive_bind, handle_attempt, hreach, Prog.bind_assoc, Prog.bind_assoc]
  show _ = Prog.bind (Prog.bind (attempt (commitStage kind applyId actor prepared)) _) _
  rw [hcommitted, attempt_bind, Prog.bind_assoc, Prog.bind_assoc]
  refine congrArg _ (funext fun r => ?_)
  rcases r with e | snapshot
  · exact drive_fail app kind applyId actor prepared _ _
  · show drive app kind applyId actor prepared
      ((ApplyRunner.finish kind applyId actor snapshot).attempt.bind _) = _
    rw [finish_eq, drive_stored_attempt_bind]
    refine congrArg _ (funext fun r => ?_)
    rcases r with e | u
    · exact drive_fail app kind applyId actor prepared _ _
    · rfl

/-- The Apply of the service is the runner with its engine behind it. -/
theorem runApply_eq : runApply app kind applyId actor =
    drive app kind applyId actor (.initial app) (ApplyRunner.run kind applyId actor) := by
  symm
  show drive app kind applyId actor (.initial app)
    ((ApplyRunner.walk applyId PIPELINE none).bind (ApplyRunner.settle kind applyId actor)) = _
  unfold PIPELINE
  rw [drive_walk_validating app kind applyId actor _ _
    fun prepared failed => drive_fail app kind applyId actor prepared failed.1 failed.2]
  show _ = Prog.bind (Prog.bind _ _) _
  rw [Prog.bind_assoc]
  refine congrArg _ (funext fun r => ?_)
  rcases r with ⟨reached, e⟩ | prepared
  · rfl
  -- Verification and Commit, whether or not there was a Rollout.
  have hrest : drive app kind applyId actor prepared
      ((ApplyRunner.walk applyId [.verifying, .committing] none).bind
        (ApplyRunner.settle kind applyId actor)) =
      ((do
        inStage .verifying do
          call (.pushStage applyId .verifying none)
          onCluster (verifyStage app prepared)
        inStage .committing (commitStage kind applyId actor prepared) : Staged Unit).run).bind
          fun r => match r with
            | .ok _ => pure ()
            | .error (reached, e) => failedIn app kind applyId actor reached e := by
    rw [drive_walk_cons app kind applyId actor prepared .verifying .verify
      (onCluster (verifyStage app prepared)) (by decide) (by decide) nofun rfl rfl]
    show _ = Prog.bind (Prog.bind _ _) _
    rw [Prog.bind_assoc]
    refine congrArg _ (funext fun r => ?_)
    rcases r with ⟨reached, e⟩ | u
    · exact drive_fail app kind applyId actor prepared reached e
    · exact drive_walk_committing app kind applyId actor prepared
  show drive app kind applyId actor prepared _ = Prog.bind (Prog.bind _ _) _
  rw [drive_walk_cons app kind applyId actor prepared .applying .apply
    (onCluster (applyStage app prepared)) (by decide) (by decide) nofun rfl rfl, Prog.bind_assoc]
  refine congrArg _ (funext fun r => ?_)
  rcases r with ⟨reached, e⟩ | u
  · exact drive_fail app kind applyId actor prepared reached e
  show drive app kind applyId actor prepared _ = Prog.bind (ExceptT.run (ite _ _ _)) _
  by_cases hneeded : prepared.rolloutNeeded = true
  · rw [if_pos hneeded, drive_walk_cons app kind applyId actor prepared .rollingOut .rollOut
      (onCluster (rollOutStage app applyId prepared)) (by decide) (by decide) (fun _ => hneeded) rfl
      rfl]
    show _ = Prog.bind (Prog.bind _ _) _
    rw [Prog.bind_assoc]
    refine congrArg _ (funext fun r => ?_)
    rcases r with ⟨reached, e⟩ | u
    · exact drive_fail app kind applyId actor prepared reached e
    · exact hrest
  · rw [if_neg hneeded, drive_walk_skip app kind applyId actor prepared (by simpa using hneeded)]
    exact hrest

end behind

end Apchi.Pipeline
