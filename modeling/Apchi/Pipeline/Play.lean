import Apchi.Catalogs.Section
import Apchi.EventListeners.Section
import Apchi.Pipeline.Calls

/-!
# Runs that can be computed

A run of the service is played from a list of moves, each call going through or lost as the move
says.  Whatever is played is a run.
-/

namespace Apchi.Pipeline

open Lib

/-- What is made to happen next. -/
inductive Move where
  | arrive (request : Request)
  /-- The next call of a task goes through. -/
  | task (i : Nat)
  /-- The next call of a task is lost. -/
  | lose (i : Nat)
  /-- Recovery goes on: its next call goes through, its next turn begins, or it ends. -/
  | recovery
  /-- The next call of recovery is lost. -/
  | loseRecovery
  | die

variable (app : App) (outside : Outside)

/-- An exception of the network. -/
def unreachable : Error := ⟨"ConnectionError", "unreachable"⟩

namespace Service

/-- The next call of a task, answered. -/
def playTask (s : Service) (i : Nat)
    (answer : {β : Type} → Call β → Except Error β × World) : Option (Event × Service) :=
  match s.recovering, s.tasks[i]? with
  | none, some (.call c k) =>
      some (.call (some i) c (answer c).1,
        { s with world := (answer c).2, tasks := s.tasks.set i (k (answer c).1) })
  | _, _ => none

/-- Recovery goes on. -/
def playRecovery (s : Service) (answer : {β : Type} → Call β → Except Error β × World) :
    Option (Event × Service) :=
  match s.recovering with
  | some (.call c k) =>
      some (.call none c (answer c).1,
        { s with world := (answer c).2, recovering := some (k (answer c).1) })
  | some (.ret (some _)) => some (.again, { s with recovering := some (recoverNext app) })
  | some (.ret none) => some (.recovered, { s with recovering := none })
  | some (.raise _) => some (.gaveUp, { s with recovering := none })
  | none => none

/-- One move. -/
def play (s : Service) : Move → Option (Event × Service)
  | .arrive request =>
      if s.recovering.isNone && request.uuid.all fun uuid => (s.world.record uuid).isNone then
        some (.arrive request, { s with tasks := s.tasks ++ [request.serve app] })
      else none
  | .task i => s.playTask i fun c => s.world.exec outside c
  | .lose i => s.playTask i fun _ => (.error unreachable, s.world)
  | .recovery => s.playRecovery app fun c => s.world.exec outside c
  | .loseRecovery => s.playRecovery app fun _ => (.error unreachable, s.world)
  | .die => some (.die, Service.boot app s.world)

end Service

section plays

variable {app} {outside} {s s' : Service} {event : Event}

theorem Service.playTask_step {i : Nat} {answer : {β : Type} → Call β → Except Error β × World}
    (hanswer : ∀ {β : Type} (c : Call β),
      (worldMachine outside).Answer c s.world (answer c).1 (answer c).2)
    (h : s.playTask i answer = some (event, s')) : Step app outside s event s' := by
  unfold Service.playTask at h
  split at h
  · next hserving htask =>
    obtain ⟨rfl, rfl⟩ := Prod.mk.inj (Option.some.inj h)
    exact .task hserving htask (hanswer _)
  · cases h

theorem Service.playRecovery_step
    {answer : {β : Type} → Call β → Except Error β × World}
    (hanswer : ∀ {β : Type} (c : Call β),
      (worldMachine outside).Answer c s.world (answer c).1 (answer c).2)
    (h : s.playRecovery app answer = some (event, s')) : Step app outside s event s' := by
  unfold Service.playRecovery at h
  split at h
  · next hrecovering =>
    obtain ⟨rfl, rfl⟩ := Prod.mk.inj (Option.some.inj h)
    exact .recover hrecovering (hanswer _)
  · next hrecovering =>
    obtain ⟨rfl, rfl⟩ := Prod.mk.inj (Option.some.inj h)
    exact .again hrecovering
  · next hrecovering =>
    obtain ⟨rfl, rfl⟩ := Prod.mk.inj (Option.some.inj h)
    exact .recovered hrecovering
  · next hrecovering =>
    obtain ⟨rfl, rfl⟩ := Prod.mk.inj (Option.some.inj h)
    exact .gaveUp hrecovering
  · cases h

/-- A move is a step. -/
theorem Service.play_step {move : Move} (h : s.play app outside move = some (event, s')) :
    Step app outside s event s' := by
  cases move with
  | arrive request =>
    change (if _ then _ else _) = _ at h
    split at h
    · next hadmitted =>
      obtain ⟨hserving, hfresh⟩ := Bool.and_eq_true_iff.mp hadmitted
      obtain ⟨rfl, rfl⟩ := Prod.mk.inj (Option.some.inj h)
      refine .arrive request (Option.isNone_iff_eq_none.mp hserving) fun uuid huuid => ?_
      simpa [show request.uuid = some uuid from huuid] using hfresh
    · cases h
  | task i => exact playTask_step (fun _ => .through) h
  | lose i => exact playTask_step (fun _ => .lost _) h
  | recovery => exact playRecovery_step (fun _ => .through) h
  | loseRecovery => exact playRecovery_step (fun _ => .lost _) h
  | die =>
    obtain ⟨rfl, rfl⟩ := Prod.mk.inj (Option.some.inj h)
    exact .die

end plays

universe u

variable {H : Type u} (update : H → Service → Event → Service → H)
  (admits : H × Service → Event → H × Service → Prop) [∀ a event b, Decidable (admits a event b)]

/-- Move after move, as long as each is admitted, with a history kept. -/
def playAll : List Move → H × Service → Option (H × Service)
  | [], state => some state
  | move :: moves, state =>
      match state.2.play app outside move with
      | none => none
      | some (event, s') =>
          if admits state event (update state.1 state.2 event s', s') then
            playAll moves (update state.1 state.2 event s', s')
          else none

/-- Whatever is played is a run. -/
theorem playAll_run {moves : List Move} {start state : H × Service}
    (h : playAll app outside update admits moves start = some state) :
    Run (Recording (Step app outside) update) admits start state := by
  induction moves generalizing start with
  | nil =>
    cases h
    exact .nil
  | cons move moves ih =>
    unfold playAll at h
    split at h
    · cases h
    · next event s' hplay =>
      split at h
      · next hadmits =>
        exact (Run.nil.snoc hadmits ⟨Service.play_step hplay, rfl⟩).trans (ih h)
      · cases h

/-- What can be played to is reached by a run. -/
theorem playAll_reaches (moves : List Move) (start : H × Service) (P : H × Service → Bool)
    (h : (playAll app outside update admits moves start).any P = true) :
    ∃ state, Run (Recording (Step app outside) update) admits start state ∧ P state = true := by
  cases hplayed : playAll app outside update admits moves start with
  | none => simp [hplayed] at h
  | some state => exact ⟨state, playAll_run app outside update admits hplayed, by simpa [hplayed] using h⟩

/-- So it is where no history is kept. -/
theorem plays_reach (admits : Service → Event → Service → Prop)
    [∀ a event b, Decidable (admits a event b)] (moves : List Move) (start : Service)
    (P : Service → Bool)
    (h : (playAll app outside (fun _ _ _ _ => ()) (fun a event b => admits a.2 event b.2) moves
      ((), start)).any (fun state => P state.2) = true) :
    ∃ s, Run (Step app outside) admits start s ∧ P s = true := by
  obtain ⟨state, hrun, hplayed⟩ := playAll_reaches app outside _ _ moves _ _ h
  exact ⟨state.2, hrun.of_recording, hplayed⟩

/-- A move makes a request arrive only if it says so. -/
theorem Service.play_arrives {s s' : Service} {move : Move} {request : Request}
    (h : s.play app outside move = some (.arrive request, s')) : move = .arrive request := by
  cases move with
  | arrive arriving =>
    simp only [Service.play] at h
    split at h
    · cases h
      rfl
    · cases h
  | task i | lose i =>
    simp only [Service.play, Service.playTask] at h
    split at h <;> cases h
  | recovery | loseRecovery =>
    simp only [Service.play, Service.playRecovery] at h
    split at h <;> cases h
  | die => cases h

/-- Where only what arrives must be admitted, the moves say what that is. -/
theorem plays_arrive (admits : Event → Prop)
    (hquiet : ∀ e, (∀ request, e ≠ .arrive request) → admits e) (moves : List Move) (start : Service)
    (harrive : ∀ request, .arrive request ∈ moves → admits (.arrive request)) (P : Service → Bool)
    (h : (playAll app outside (fun _ _ _ _ => ()) (fun _ _ _ => True) moves ((), start)).any
      (fun state => P state.2) = true) :
    ∃ s, Run (Step app outside) (fun _ e _ => admits e) start s ∧ P s = true := by
  induction moves generalizing start with
  | nil => exact ⟨start, .nil, h⟩
  | cons move moves ih =>
    cases hplay : start.play app outside move with
    | none => simp [playAll, hplay] at h
    | some played =>
      obtain ⟨event, s'⟩ := played
      have hadmits : admits event := by
        by_cases harrives : ∃ request, event = .arrive request
        · obtain ⟨request, rfl⟩ := harrives
          exact harrive request (Service.play_arrives app outside hplay ▸ List.mem_cons_self)
        · exact hquiet event fun request heq => harrives ⟨request, heq⟩
      obtain ⟨s, hrun, hP⟩ := ih s' (fun request hmem => harrive request (List.mem_cons_of_mem _ hmem))
        (by simpa [playAll, hplay] using h)
      exact ⟨s, (Run.nil.snoc hadmits (Service.play_step hplay)).trans hrun, hP⟩

/-- The kind of the next call of a task. -/
def Service.nextKind (s : Service) (i : Nat) : Option CallKind :=
  match s.recovering, s.tasks[i]? with
  | none, some (.call c _) => some c.kind
  | _, _ => none

theorem Service.step_of_nextKind {s : Service} {i : Nat} {kind : CallKind}
    (h : s.nextKind i = some kind) : ∃ (β : Type) (c : Call β) (r : Except Error β) (s' : Service),
      c.kind = kind ∧ Step app outside s (.call (some i) c r) s' := by
  unfold Service.nextKind at h
  split at h
  · next hserving htask => exact ⟨_, _, _, _, Option.some.inj h, .task hserving htask .through⟩
  · cases h

/-- Recovery has run to completion and is about to let requests in. -/
def Service.recoveryOver (s : Service) : Bool :=
  match s.recovering with
  | some (.ret none) => true
  | _ => false

theorem Service.recoveryOver_iff {s : Service} :
    s.recoveryOver = true ↔ s.recovering = some (.ret none) := by
  unfold Service.recoveryOver
  constructor
  · intro h
    split at h
    · assumption
    · cases h
  · intro h
    rw [h]

/-! ### A service to play -/

/-- The pipeline with two of its Sections, one of which needs a rollout, and the settings' defaults.
One raw file is ever delivered, so one digest is enough. -/
def smallApp : App where
  settings := {}
  registered := [Catalogs.catalogsSection, EventListeners.eventListenersSection]
  digest _ := "80f7fecfef81"
  catalogSeed := Catalogs.renderSecret

/-- Everything outside agrees. -/
def quietOutside : Outside where
  platform := quietPlatform
  candidateFits _ := .ok ()
  preconditions _ := .ok ()
  validateCandidate _ _ _ := .ok []
  cutoverChanges _ := .ok []

/-- An empty database beside a fresh Cluster. -/
def freshWorld : World where
  applies := []
  maintenance := none
  admin := none
  adminPrevious := none
  candidate := none
  snapshots := []
  discovery := none
  audit := []
  highWater := none
  cluster := freshCluster

/-- The service starts on an empty database, and serves one request. -/
def servingOne (request : Request) : List Move := [.recovery, .recovery, .arrive request]

end Apchi.Pipeline
