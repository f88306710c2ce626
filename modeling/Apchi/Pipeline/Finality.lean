import Apchi.Pipeline.Lifetime

/-!
# A record that is over is final

A record is over when its last event is one of the three endings.  In a run in which a success that
is recorded is heard of, its audit row is written or fails with an error of MongoDB's, and no
rollback that recovery makes fails, no event is ever recorded after an ending; so who follows the
record until it is over has been sent every event it will ever hold.
-/

namespace Apchi.Pipeline

open Lib Prog

/-! ### The history of a record -/

/-- The last event is of the stage the record is in, and no event before it is an ending. -/
def ApplyRecord.wellEnded (record : ApplyRecord) : Prop :=
  ∃ before last, record.history = before ++ [last] ∧ last.stage = record.stage ∧
    ∀ event ∈ before, event.stage ∉ TERMINAL

/-- What of a record is its story: where it is, and how it came there. -/
structure Story where
  id : String
  stage : Stage
  history : List StageEvent

def ApplyRecord.story (record : ApplyRecord) : Story := ⟨record.id, record.stage, record.history⟩

/-- The record goes on with the events it has; once it is over it has no more of them. -/
def World.continues (world world' : World) : Prop :=
  ∀ id record, world.record id = some record → ∃ after, world'.record id = some after ∧
    record.history <+: after.history ∧
    (record.inFlight = false → after.stage = record.stage ∧ after.history = record.history)

theorem World.continues_refl (world : World) : world.continues world :=
  fun _ record hrecord => ⟨record, hrecord, List.prefix_refl _, fun _ => ⟨rfl, rfl⟩⟩

theorem World.continues.trans {w₁ w₂ w₃ : World} (h : w₁.continues w₂) (h' : w₂.continues w₃) :
    w₁.continues w₃ := by
  intro id record hrecord
  obtain ⟨middle, hmiddle, hfirst, hover⟩ := h id record hrecord
  obtain ⟨after, hafter, hfirst', hover'⟩ := h' id middle hmiddle
  refine ⟨after, hafter, hfirst.trans hfirst', fun hdone => ?_⟩
  obtain ⟨hstage, hhistory⟩ := hover hdone
  have hdone' : middle.inFlight = false := by simpa [ApplyRecord.inFlight, hstage] using hdone
  obtain ⟨hstage', hhistory'⟩ := hover' hdone'
  exact ⟨hstage'.trans hstage, hhistory'.trans hhistory⟩

section story

variable {outside : Outside} {world world' : World} {β : Type} {c : Call β} {r : Except Error β}

/-- Stories are told apart by the ids of their records. -/
theorem World.story_record (world : World) (id : String) :
    (world.record id).map ApplyRecord.story =
      (world.applies.map ApplyRecord.story).find? fun story => story.id = id := by
  rw [List.find?_map]
  rfl

theorem World.continues_of_stories
    (h : world'.applies.map ApplyRecord.story = world.applies.map ApplyRecord.story) :
    world.continues world' := by
  intro id record hrecord
  have hstory : (world'.record id).map ApplyRecord.story = some record.story := by
    rw [World.story_record, h, ← World.story_record, hrecord]
    rfl
  obtain ⟨after, hafter, heq⟩ := Option.map_eq_some_iff.mp hstory
  injection heq with _ hstage hhistory
  exact ⟨after, hafter, hhistory ▸ List.prefix_refl _, fun _ => ⟨hstage, hhistory⟩⟩

theorem stories_updating (id : String) {change : ApplyRecord → ApplyRecord}
    (h : ∀ record, (change record).story = record.story) :
    (world.updating id change).2.applies.map ApplyRecord.story =
      world.applies.map ApplyRecord.story := by
  show (updateRecord id change world.applies).map _ = _
  unfold updateRecord
  rw [List.map_map]
  refine List.map_congr_left fun record _ => ?_
  show (if record.id = id then change record else record).story = _
  split
  · exact h record
  · rfl

/-- A call that enters no stage and inserts no record leaves every story as it is. -/
theorem exec_stories (hentering : c.entering = none) (hinsert : ∀ id, c.kind ≠ .insert id) :
    (world.exec outside c).2.applies.map ApplyRecord.story =
      world.applies.map ApplyRecord.story := by
  cases c with
  | pushStage id stage detail => cases hentering
  | insertApply record => exact absurd rfl (hinsert record.id)
  | setFailureReason id reason => exact stories_updating id fun _ => rfl
  | setInterrupted id => exact stories_updating id fun _ => rfl
  | setRollback id outcome => exact stories_updating id fun _ => rfl
  | setWarnings id warnings => exact stories_updating id fun _ => rfl
  | setSnapshot id number => exact stories_updating id fun _ => rfl
  | setIncident id reason message => exact stories_updating id fun _ => rfl
  | insertSnapshot snapshot =>
    show (world.insertSnapshot snapshot).2.applies.map _ = _
    unfold World.insertSnapshot
    split <;> rfl
  | findAndReplaceCandidate candidate =>
    show (world.replaceCandidate outside candidate).2.applies.map _ = _
    unfold World.replaceCandidate
    split <;> rfl
  | _ => rfl

/-- The call enters a stage only for a record that is in flight. -/
def Call.entersInFlight (c : Call β) (world : World) : Prop :=
  ∀ id, c.kind = .apply id → c.entering ≠ none → Live id world

/-- Every record is well ended. -/
def World.wellEnded (world : World) : Prop := ∀ record ∈ world.applies, record.wellEnded

theorem ApplyRecord.wellEnded.advance {record : ApplyRecord} (h : record.wellEnded)
    (hlive : record.inFlight = true) (stage : Stage) (detail : Option String) :
    (record.advance stage detail).wellEnded := by
  obtain ⟨before, last, hhistory, hlast, hbefore⟩ := h
  refine ⟨before ++ [last], ⟨stage, detail⟩, by simp [ApplyRecord.advance, hhistory], rfl, ?_⟩
  intro event hevent
  rcases List.mem_append.mp hevent with hevent | hevent
  · exact hbefore event hevent
  · rw [List.mem_singleton.mp hevent, hlast]
    simpa [ApplyRecord.inFlight] using hlive

theorem wellEnded_of_stories (hended : world.wellEnded)
    (h : world'.applies.map ApplyRecord.story = world.applies.map ApplyRecord.story) :
    world'.wellEnded := by
  intro record hrecord
  have hmem : record.story ∈ world.applies.map ApplyRecord.story :=
    h ▸ List.mem_map_of_mem hrecord
  obtain ⟨before, hbefore, heq⟩ := List.mem_map.mp hmem
  injection heq with _ hstage hhistory
  unfold ApplyRecord.wellEnded
  rw [← hstage, ← hhistory]
  exact hended before hbefore

/-- A stage entered for a record in flight: the record goes on, and is well ended after it. -/
theorem enters_stage (hunique : world.ids.Nodup) (hended : world.wellEnded) {id : String}
    (hlive : Live id world) (stage : Stage) (detail : Option String) :
    (world.updating id fun record => record.advance stage detail).2.wellEnded ∧
      world.continues (world.updating id fun record => record.advance stage detail).2 := by
  obtain ⟨found, hfound, hin⟩ := hlive
  have hid (record : ApplyRecord) : (record.advance stage detail).id = record.id := rfl
  constructor
  · intro record hrecord
    obtain ⟨before, hbefore, rfl⟩ := List.mem_map.mp hrecord
    split
    · next heq =>
      subst heq
      obtain rfl : before = found :=
        Option.some.inj ((World.record_of_mem hunique hbefore).symm.trans hfound)
      exact (hended before hbefore).advance hin stage detail
    · exact hended before hbefore
  · intro other record hrecord
    by_cases hother : other = id
    · subst hother
      obtain rfl : record = found := Option.some.inj (hrecord.symm.trans hfound)
      refine ⟨record.advance stage detail, ?_, List.prefix_append _ _, by simp [hin]⟩
      exact (find_updateRecord_self hid).trans (congrArg _ hrecord)
    · exact ⟨record, (find_updateRecord_of_ne hid hother).trans hrecord,
        List.prefix_refl _, fun _ => ⟨rfl, rfl⟩⟩

/-- A record inserted is well ended, and the others go on. -/
theorem inserts_record (hended : world.wellEnded) {record : ApplyRecord} (hfresh : record.fresh)
    (happlies : world'.applies = world.applies ++ [record]) :
    world'.wellEnded ∧ world.continues world' := by
  constructor
  · intro other hother
    rw [happlies] at hother
    rcases List.mem_append.mp hother with hother | hother
    · exact hended other hother
    · rw [List.mem_singleton.mp hother]
      exact ⟨[], ⟨.validating, none⟩, hfresh.2, hfresh.1.symm, nofun⟩
  · intro id found hfound
    refine ⟨found, ?_, List.prefix_refl _, fun _ => ⟨rfl, rfl⟩⟩
    unfold World.record at *
    rw [happlies, List.find?_append, hfound]
    rfl

/-- A call that inserts no record and enters a stage only for one in flight keeps every record well
ended, and none that is over has more events. -/
theorem story_answer (hunique : world.ids.Nodup) (hended : world.wellEnded)
    (hinsert : ∀ id, c.kind ≠ .insert id) (henters : c.entersInFlight world)
    (hanswer : (worldMachine outside).Answer c world r world') :
    world'.wellEnded ∧ world.continues world' := by
  rcases hanswer.state with rfl | rfl
  · exact ⟨hended, world'.continues_refl⟩
  · cases hentering : c.entering with
    | none =>
      have hstories : (world.exec outside c).2.applies.map ApplyRecord.story =
          world.applies.map ApplyRecord.story := exec_stories hentering hinsert
      exact ⟨wellEnded_of_stories hended hstories, World.continues_of_stories hstories⟩
    | some entered =>
      cases c with
      | pushStage id stage detail =>
        exact enters_stage hunique hended (henters id rfl (by simp [hentering])) stage detail
      | _ => cases hentering

end story

/-! ### Recovery -/

section recovery

variable {app : App} {outside : Outside} {α : Type} {id : String} {w : World}

/-- No rollback that recovery makes fails. -/
def rollsBack : Answers Call World
  | _, .setRollback _ .failed, _, _, _ => False
  | _, _, _, _, _ => True

/-- A stage is entered only for a record in flight, and no record is inserted. -/
def EntersInFlight : Answers Call World :=
  fun _ c w _ _ => c.entersInFlight w ∧ ∀ id, c.kind ≠ .insert id

/-- What recovery does, when nobody else does anything. -/
abbrev Recovers (outside : Outside) (p : PipelineProg α) (Q : Except Error α → World → Prop) :
    World → Prop :=
  p.Safe Eq (answersIf outside rollsBack) EntersInFlight Q

theorem Recovers.of_during (h : Live id w) {p : PipelineProg α}
    (hp : p.All fun c => c.during id) : Recovers outside p (fun _ => Live id) w :=
  hp.safe (fun _ _ heq h => heq ▸ h) (fun _ _ _ _ hc h hanswer =>
    ⟨⟨fun _ hkind _ => hc.1.1 _ hkind ▸ h, hc.1.2⟩, h.after hanswer.1 hc.2⟩) h

/-- What names no record enters no stage. -/
theorem Recovers.of_ofKind {p : PipelineProg α}
    (hp : OfKind (fun kind => (∀ other, kind ≠ .apply other) ∧ ∀ other, kind ≠ .insert other) p) :
    Recovers outside p (fun _ _ => True) w :=
  All.safe (I := fun _ => True) (fun _ _ _ _ => trivial) (fun _ _ _ _ hc _ _ =>
    ⟨⟨fun id hkind _ => absurd hkind (hc.1 id), hc.2⟩, trivial⟩) hp trivial

theorem recovers_failApply (h : Live id w) (reason : String) :
    Recovers outside (failApply id reason) (fun _ _ => True) w := by
  refine (safe_bind _ _).mpr ((Recovers.of_during h (during_update rfl rfl)).mono ?_)
  intro r w₁ h₁
  cases r with
  | error e => trivial
  | ok _ =>
    refine (safe_perform _).mpr ?_
    rintro w₂ rfl r w₃ _
    exact ⟨⟨fun other hkind _ => CallKind.apply.inj hkind ▸ h₁, nofun⟩, trivial⟩

theorem recovers_restoreAfterInterruption :
    Recovers outside (restoreAfterInterruption app id) (fun _ _ => True) w := by
  have hrollBack : OfKind (fun kind => (∀ other, kind ≠ .apply other) ∧
      ∀ other, kind ≠ .insert other) (rollBack app .operator) :=
    ofKind_rollBack ⟨nofun, nofun⟩ ⟨nofun, nofun⟩ ⟨nofun, nofun⟩ _
  refine (safe_bind _ _).mpr ((Recovers.of_ofKind hrollBack.attempt).mono ?_)
  rintro (e | e | _) w₁ -
  · trivial
  · -- Recovery would record that its rollback has failed.
    refine (safe_bind _ _).mpr ((safe_perform _).mpr ?_)
    rintro w₂ rfl r w₃ ⟨-, hfailed⟩
    exact hfailed.elim
  · refine (safe_perform _).mpr ?_
    rintro w₂ rfl r w₃ _
    exact ⟨⟨fun _ _ hentering => absurd rfl hentering, nofun⟩, trivial⟩

theorem recovers_resolveInterrupted {record : ApplyRecord} (h : Live record.id w) :
    Recovers outside (resolveInterrupted app record) (fun _ _ => True) w := by
  refine (safe_bind _ _).mpr ((Recovers.of_during h (during_update rfl rfl)).mono ?_)
  rintro (e | _) w₁ h₁
  · trivial
  refine (safe_bind _ _).mpr ((recovers_failApply h₁ _).mono ?_)
  rintro (e | _) w₂ -
  · trivial
  refine (safe_bind _ _).mpr ((Recovers.of_ofKind (ofKind_audited ⟨nofun, nofun⟩ _)).mono ?_)
  rintro (e | _) w₃ -
  · trivial
  show Safe _ _ _ (if ROLLED_BACK_FROM.contains record.stage then _ else _) _ _
  split
  · exact recovers_restoreAfterInterruption
  · trivial

/-- A turn of recovery enters a stage only for the record it has found in flight, as long as that
is in flight. -/
theorem recovers_recoverNext (hunique : w.ids.Nodup) :
    Recovers outside (recoverNext app) (fun _ _ => True) w := by
  refine (safe_bind _ _).mpr ((safe_perform _).mpr ?_)
  rintro w₁ rfl r w₂ ⟨hanswer, -⟩
  refine ⟨⟨nofun, nofun⟩, ?_⟩
  rcases r with e | _ | record
  · trivial
  · trivial
  have hcheck : (Except.ok (w.applies.find? ApplyRecord.inFlight), w) = (.ok (some record), w₂) :=
    hanswer.ok
  obtain ⟨hfound, rfl⟩ := Prod.mk.inj hcheck
  have hfind : w.applies.find? ApplyRecord.inFlight = some record := Except.ok.inj hfound
  have hlive : Live record.id w :=
    ⟨record, World.record_of_mem hunique (List.mem_of_find?_eq_some hfind),
      List.find?_some hfind⟩
  refine (safe_bind _ _).mpr ((recovers_resolveInterrupted hlive).mono ?_)
  rintro (e | _) w₃ - <;> trivial

end recovery

/-! ### The service -/

/-- A success recorded is heard of, and its audit row is written or fails with an error of
MongoDB's. -/
def heardAnswer : Answers Call World
  | _, .pushStage _ .succeeded _, w, r, w' => ∀ e, r = .error e → w' = w
  | _, .insertAudit events, _, r, _ => ∀ e event, r = .error e → events = [event] →
      event.ofSuccess → isPyMongoError e = true
  | _, _, _, _, _ => True

theorem successHeard_heardAnswer : SuccessHeard heardAnswer where
  heard h := h _ rfl
  audited hsuccess h := h _ _ rfl rfl hsuccess

/-- Every Apply's success is heard of, and no rollback that recovery makes fails. -/
def Heeded (before : Service) (event : Event) (after : Service) : Prop :=
  match event with
  | .call none c r => rollsBack _ c before.world r after.world
  | .call (some _) c r => heardAnswer _ c before.world r after.world
  | _ => True

variable (app : App) (outside : Outside)

/-- What holds of the service in every run in which that is so. -/
structure Finished (s : Service) : Prop where
  owned : ∃ owner, Ownership app Call.recordless (Tenant outside heardAnswer True) owner s
  ended : s.world.wellEnded
  recovering : ∀ p, s.recovering = some p → Recovers outside p (fun _ _ => True) s.world

section step

variable {app} {outside} {s s' : Service} {event : Event}

theorem discipline_heardAnswer : Discipline app outside Call.recordless heardAnswer
    (InLifetime True) (Tenant outside heardAnswer True) :=
  discipline_lifetime (fun _ => successHeard_heardAnswer) id opening_recordless

theorem Finished.boot {world : World} (hunique : world.ids.Nodup) (hended : world.wellEnded) :
    Finished app outside (Service.boot app world) where
  owned := ⟨_, .boot world hunique⟩
  ended := hended
  recovering := by
    rintro p ⟨⟩
    exact recovers_recoverNext hunique

/-- A call of a task keeps every record well ended, and none that is over has more events. -/
theorem Finished.task (h : Finished app outside s) {i : Nat} {β : Type} {c : Call β}
    {k : Except Error β → PipelineProg Unit} {r : Except Error β} {world : World}
    (htask : s.tasks[i]? = some (.call c k)) (hanswer : answersIf outside heardAnswer _ c s.world r world) :
    world.wellEnded ∧ s.world.continues world := by
  obtain ⟨owner, howned⟩ := h.owned
  have hlifetime := howned.guarantee discipline_heardAnswer htask hanswer
  by_cases hinsert : ∀ id, c.kind ≠ .insert id
  · refine story_answer howned.unique h.ended hinsert (fun id hkind hentering => ?_) hanswer.1
    rcases hlifetime id hkind with hlive | haudit | ⟨-, hfinal⟩
    · exact hlive
    · cases c with
      | insertAudit events => cases hkind
      | _ => exact haudit.elim
    · obtain ⟨stage, hstage⟩ := Option.ne_none_iff_exists'.mp hentering
      exact absurd trivial (hfinal stage hstage).1
  · obtain ⟨id, hkind⟩ := not_forall_not.mp hinsert
    rcases (howned.launches discipline_heardAnswer htask hanswer hkind).applies hanswer.1 with
      hsame | ⟨record, hfresh, happlies⟩
    · have hstories := congrArg (List.map ApplyRecord.story) hsame
      exact ⟨wellEnded_of_stories h.ended hstories, World.continues_of_stories hstories⟩
    · exact inserts_record h.ended hfresh happlies

/-- Every heeded step keeps every record well ended, and none that is over has more events. -/
theorem Finished.step (h : Finished app outside s) (hadmits : Heeded s event s')
    (hstep : Step app outside s event s') : Finished app outside s' ∧ s.world.continues s'.world := by
  obtain ⟨owner, howned⟩ := h.owned
  have hadmitted : event.admitted heardAnswer s.world s'.world := by
    unfold Event.admitted
    split
    · exact hadmits
    · trivial
  have howned' := howned.step discipline_heardAnswer hadmitted hstep
  cases hstep with
  | arrive request hserving hfresh =>
    exact ⟨⟨⟨_, howned'⟩, h.ended, h.recovering⟩, s.world.continues_refl⟩
  | task hserving htask hanswer =>
    obtain ⟨hended, hcontinues⟩ := h.task htask ⟨hanswer, hadmits⟩
    exact ⟨⟨⟨_, howned'⟩, hended, fun p hp => nomatch hserving.symm.trans hp⟩, hcontinues⟩
  | @recover β c k r world hrecovering hanswer =>
    obtain ⟨⟨henters, hinsert⟩, hrest⟩ := h.recovering _ hrecovering _ rfl r world ⟨hanswer, hadmits⟩
    obtain ⟨hended, hcontinues⟩ := story_answer howned.unique h.ended hinsert henters hanswer
    refine ⟨⟨⟨_, howned'⟩, hended, ?_⟩, hcontinues⟩
    rintro p ⟨⟩
    exact hrest
  | again _ =>
    refine ⟨⟨⟨_, howned'⟩, h.ended, ?_⟩, s.world.continues_refl⟩
    rintro p ⟨⟩
    exact recovers_recoverNext howned.unique
  | recovered _ => exact ⟨⟨⟨_, howned'⟩, h.ended, nofun⟩, s.world.continues_refl⟩
  | gaveUp _ => exact ⟨⟨⟨_, howned'⟩, h.ended, nofun⟩, s.world.continues_refl⟩
  | die => exact ⟨.boot howned.unique h.ended, s.world.continues_refl⟩

/-- So does every run. -/
theorem Finished.run (h : Finished app outside s) (hrun : Run (Step app outside) Heeded s s') :
    Finished app outside s' ∧ s.world.continues s'.world := by
  refine hrun.invariant (I := fun after => Finished app outside after ∧
    s.world.continues after.world) ⟨h, s.world.continues_refl⟩ ?_
  intro before event after hbefore hadmits hstep
  obtain ⟨hfinished, hcontinues⟩ := hbefore.1.step hadmits hstep
  exact ⟨hfinished, hbefore.2.trans hcontinues⟩

end step

/-! ### Following a record -/

/-- One event as it is streamed. -/
structure StreamedEvent where
  index : Nat
  stage : Stage
  detail : Option String
  failureReason : Option String

/-- The event of the history that is streamed, with its place there. -/
def StreamedEvent.event (streamed : StreamedEvent) : StageEvent × Nat :=
  (⟨streamed.stage, streamed.detail⟩, streamed.index)

/-- The events of a record that have not been sent. -/
def unsent (sent : Nat) (current : ApplyRecord) : List StreamedEvent :=
  (current.history.zipIdx.drop sent).map fun (event, index) =>
    { index := index, stage := event.stage, detail := event.detail
      failureReason := current.failureReason }

/-- `stream_apply`: what is sent, by the record as each poll reads it.  It stops at the first that
is over. -/
def streamApply (sent : Nat) : List ApplyRecord → List StreamedEvent
  | [] => []
  | current :: polls =>
      unsent sent current ++
        if current.inFlight then streamApply (max sent current.history.length) polls else []

/-- A record as one poll after another reads it in a run. -/
inductive Follows (id : String) : Service → List ApplyRecord → Service → Prop where
  | done {s s' : Service} (hrun : Run (Step app outside) Heeded s s') : Follows id s [] s'
  | poll {s s₁ s' : Service} {current : ApplyRecord} {polls : List ApplyRecord}
      (hrun : Run (Step app outside) Heeded s s₁) (hread : s₁.world.record id = some current)
      (hrest : Follows id s₁ polls s') : Follows id s (current :: polls) s'

section following

variable {app} {outside} {id : String} {s s' : Service} {polls : List ApplyRecord}

theorem unsent_event (sent : Nat) (current : ApplyRecord) :
    (unsent sent current).map StreamedEvent.event = current.history.zipIdx.drop sent := by
  unfold unsent
  rw [List.map_map]
  exact List.map_id' _

/-- What each poll reads is the first part of a history, all of it once the record is over; then all
of the history is sent, from where the sending begins. -/
theorem streamApply_complete {history : List StageEvent}
    (hread : ∀ current ∈ polls, current.history <+: history ∧
      (current.inFlight = false → history = current.history))
    (hover : ∃ current ∈ polls, current.inFlight = false) (sent : Nat) :
    (streamApply sent polls).map StreamedEvent.event = history.zipIdx.drop sent := by
  induction polls generalizing sent with
  | nil => simp at hover
  | cons current polls ih =>
    unfold streamApply
    rw [List.map_append, unsent_event]
    obtain ⟨hfirst, hall⟩ := hread current List.mem_cons_self
    cases hlive : current.inFlight with
    | false => simp [hall hlive]
    | true =>
      have hrest : ∃ later ∈ polls, later.inFlight = false := by
        obtain ⟨later, hmem, hdone⟩ := hover
        rcases List.mem_cons.mp hmem with rfl | hmem
        · rw [hlive] at hdone
          cases hdone
        · exact ⟨later, hmem, hdone⟩
      rw [if_pos rfl, ih (fun later hmem => hread later (List.mem_cons_of_mem _ hmem)) hrest]
      -- The next poll sends on from the end of what this one has read.
      obtain ⟨more, rfl⟩ := hfirst
      have hsent : max sent current.history.length - current.history.length =
          sent - current.history.length := by omega
      have hread : current.history.length ≤ max sent current.history.length := by omega
      simp [List.zipIdx_append, List.drop_append, hsent, hread]

/-- What the polls have read is the first part of what is recorded when they are over. -/
theorem Follows.reads (h : Follows app outside id s polls s') (hfinished : Finished app outside s) :
    ∀ current ∈ polls, ∃ after, s'.world.record id = some after ∧
      current.history <+: after.history ∧
      (current.inFlight = false → after.history = current.history) := by
  have hend {s s' : Service} {polls : List ApplyRecord} (h : Follows app outside id s polls s')
      (hfinished : Finished app outside s) : s.world.continues s'.world := by
    induction h with
    | done hrun => exact (hfinished.run hrun).2
    | poll hrun _ _ ih =>
      obtain ⟨hfinished, hcontinues⟩ := hfinished.run hrun
      exact hcontinues.trans (ih hfinished)
  induction h with
  | done _ => simp
  | @poll s s₁ s' first polls hrun hread hrest ih =>
    obtain ⟨hfinished, -⟩ := hfinished.run hrun
    intro current hmem
    rcases List.mem_cons.mp hmem with rfl | hmem
    · obtain ⟨after, hafter, hfirst, hdone⟩ := hend hrest hfinished id current hread
      exact ⟨after, hafter, hfirst, fun hover => (hdone hover).2⟩
    · exact ih hfinished current hmem

end following

/-- A call has been answered, and no rollback has failed. -/
def Event.goesWell : Event → Bool
  | .call _ (.setRollback _ .failed) _ => false
  | .call _ _ (.error _) => false
  | _ => true

theorem heardAnswer_ok {β : Type} (c : Call β) (b : β) (w w' : World) :
    heardAnswer _ c w (.ok b) w' := by
  unfold heardAnswer
  split <;> simp_all

theorem heeded_of_goesWell {before after : Service} {event : Event} (h : event.goesWell = true) :
    Heeded before event after := by
  match event with
  | .call none c r =>
    show rollsBack _ c _ r _
    unfold rollsBack
    split
    · simp [Event.goesWell] at h
    · trivial
  | .call (some i) c (.ok b) => exact heardAnswer_ok c b _ _
  | .call (some i) c (.error e) =>
    unfold Event.goesWell at h
    split at h
    · cases h
    · cases h
    · next hraised => exact (hraised _ _ _ _ rfl).elim
  | .arrive _ | .again | .recovered | .gaveUp | .die => trivial

end Apchi.Pipeline
