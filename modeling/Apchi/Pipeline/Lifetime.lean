import Apchi.Pipeline.Ownership

/-!
# An Apply works only while its record is in flight

Whatever is lost and whatever others do to the stores meanwhile, an Apply touches the Cluster, the
Candidate and the Snapshots only while its own record is in flight.  Once the record is over it
adds to the audit history, and it may record one more ending: the success it has recorded without
hearing so is recorded as a failure, and so is one whose audit row raises what is no error of
MongoDB's.  Where neither happens a record that is over is not touched again.
-/

namespace Apchi.Pipeline

open Lib Prog

/-- The record is there, and in flight. -/
def Live (id : String) (world : World) : Prop :=
  ∃ record, world.record id = some record ∧ record.inFlight = true

/-- Others have left the record alone. -/
def RecordKept (id : String) (world world' : World) : Prop := world'.record id = world.record id

/-- The call adds to the audit history. -/
def Call.audits {β : Type} : Call β → Prop
  | .insertAudit _ => True
  | _ => False

/-- What is left to an Apply whose record is over.  Where endings are `final` it records no other. -/
def Call.afterwards (final : Prop) (id : String) {β : Type} (c : Call β) : Prop :=
  c.audits ∨ c.kind = .apply id ∧ ∀ stage ∈ c.entering, ¬ final ∧ stage ∈ TERMINAL

/-- An Apply names no record but its own, and works only while that is in flight. -/
def KeepsWithin (final : Prop) (id : String) : Answers Call World :=
  fun _ c w _ _ => c.ofOwner id ∧ (Live id w ∨ c.afterwards final id)

/-- The event of an Apply's success. -/
def AuditEvent.ofSuccess (event : AuditEvent) : Prop :=
  event.action = "applied" ∧ event.outcome = "succeeded"

/-- A success is heard of when it has been recorded, and its audit row is written or fails with an
error of MongoDB's. -/
structure SuccessHeard (known : Answers Call World) : Prop where
  heard : ∀ {id : String} {detail : Option String} {e : Error} {w w' : World},
    known _ (.pushStage id .succeeded detail) w (.error e) w' → w' = w
  audited : ∀ {event : AuditEvent} {e : Error} {w w' : World}, event.ofSuccess →
    known _ (.insertAudit [event]) w (.error e) w' → isPyMongoError e = true

/-- A call that leaves the record it may name in flight. -/
def Call.during (id : String) {β : Type} (c : Call β) : Prop :=
  c.ofOwner id ∧ ∀ stage ∈ c.entering, stage ∉ TERMINAL

theorem entering_of_kind {β : Type} {c : Call β} (h : ∀ id, c.kind ≠ .apply id) :
    c.entering = none := by
  cases c with
  | pushStage id _ _ => exact absurd rfl (h id)
  | _ => rfl

theorem RecordKept.trans {id : String} {w₁ w₂ w₃ : World} (h : RecordKept id w₁ w₂)
    (h' : RecordKept id w₂ w₃) : RecordKept id w₁ w₃ := Eq.trans h' h

section live

variable {outside : Outside} {known : Answers Call World} {id : String} {w w' : World} {β : Type}
  {c : Call β} {r : Except Error β}

theorem Live.kept (h : Live id w) (hkept : RecordKept id w w') : Live id w' := by
  obtain ⟨record, hrecord, hlive⟩ := h
  exact ⟨record, Eq.trans hkept hrecord, hlive⟩

theorem Live.after (h : Live id w) (hanswer : (worldMachine outside).Answer c w r w')
    (hentering : ∀ stage ∈ c.entering, stage ∉ TERMINAL) : Live id w' := by
  obtain ⟨record, hrecord, hlive⟩ := h
  obtain ⟨after, hafter, rfl | ⟨-, hstage⟩⟩ :=
    (answer_recordChange outside hanswer).record hrecord
  · exact ⟨after, hafter, hlive⟩
  refine ⟨after, hafter, ?_⟩
  unfold ApplyRecord.inFlight at *
  cases hc : c.entering with
  | none => simpa [hstage, hc] using hlive
  | some stage => simpa [hstage, hc] using hentering stage hc

/-- A call that is foreign to a record leaves it alone. -/
theorem recordKept_of_foreign (hforeign : c.foreign id)
    (hanswer : (worldMachine outside).Answer c w r w') : RecordKept id w w' := by
  have hchange := answer_recordChange outside hanswer
  cases hrecord : w.record id with
  | some record =>
    obtain ⟨after, hafter, rfl | ⟨hkind, -⟩⟩ := hchange.record hrecord
    · exact hafter.trans hrecord.symm
    · exact absurd hkind hforeign.1
  | none =>
    refine Eq.trans ?_ hrecord.symm
    unfold World.record at *
    generalize w'.applies = records at hchange
    cases hchange with
    | unchanged => exact hrecord
    | update change hkind hid _ =>
      have hne : id ≠ _ := fun heq => hforeign.1 (hkind.trans (congrArg _ heq.symm))
      rw [find_updateRecord_of_ne hid hne, hrecord]
    | @insert record hkind _ =>
      have hne : record.id ≠ id := fun heq => hforeign.2 (hkind.trans (congrArg _ heq))
      rw [List.find?_append, hrecord]
      simpa using hne

end live

/-! ### Programs that leave the record in flight -/

section during

variable {app : App} {id : String} {α : Type}

theorem during_of_kind {β : Type} (c : Call β) (happly : ∀ other, c.kind ≠ .apply other)
    (hinsert : ∀ other, c.kind ≠ .insert other) : c.during id :=
  ⟨⟨fun other hkind => absurd hkind (happly other), hinsert⟩, by
    simp [entering_of_kind happly]⟩

/-- What touches no record leaves it in flight. -/
theorem during_of_ofKind {p : PipelineProg α}
    (h : OfKind (fun kind => (∀ other, kind ≠ .apply other) ∧ ∀ other, kind ≠ .insert other) p) :
    p.All fun c => c.during id :=
  h.mono fun c hc => during_of_kind c hc.1 hc.2

/-- A stage that is no ending is entered. -/
theorem during_pushStage {stage : Stage} (detail : Option String) (hstage : stage ∉ TERMINAL) :
    (call (.pushStage id stage detail)).All fun c => c.during id := by
  refine all_perform ⟨⟨fun other hkind => (CallKind.apply.inj hkind).symm, nofun⟩, ?_⟩
  rintro _ ⟨⟩
  exact hstage

/-- A field of the record is set. -/
theorem during_update {c : Call Unit} (hkind : c.kind = .apply id) (hentering : c.entering = none) :
    (call c).All fun c => c.during id := by
  refine all_perform ⟨⟨fun other h => ?_, fun other h => ?_⟩, by simp [hentering]⟩
  · exact (CallKind.apply.inj (hkind.symm.trans h)).symm
  · exact absurd (hkind.symm.trans h) nofun

theorem during_audited (event : AuditEvent) : (audited event).All fun c => c.during id :=
  during_of_ofKind (ofKind_audited ⟨nofun, nofun⟩ event)

theorem during_onCluster (p : ClusterProg α) : (onCluster p).All fun c => c.during id :=
  during_of_ofKind (ofKind_onCluster ⟨nofun, nofun⟩ ⟨nofun, nofun⟩ p)

theorem during_rollBack (kind : EngineKind) : (rollBack app kind).All fun c => c.during id :=
  during_of_ofKind (ofKind_rollBack ⟨nofun, nofun⟩ ⟨nofun, nofun⟩ ⟨nofun, nofun⟩ kind)

theorem during_commit (applyId actor : String) (prepared : Prepared) (kind : EngineKind) :
    (commit applyId actor prepared kind).All fun c => c.during id :=
  during_of_ofKind (ofKind_commit ⟨nofun, nofun⟩ applyId actor prepared kind)

theorem during_declareIncident (reason : String) :
    (declareIncident app id reason).All fun c => c.during id :=
  during_of_ofKind (ofKind_declareIncident ⟨nofun, nofun⟩ ⟨nofun, nofun⟩ id reason)

end during

/-! ### The runner -/

section runner

variable {app : App} {outside : Outside} {known : Answers Call World} {final : Prop}
  {id : String} {α : Type} {w : World}

/-- An Apply's program, among others that leave its record alone. -/
abbrev Kept (outside : Outside) (known : Answers Call World) (final : Prop) (id : String)
    (p : PipelineProg α) (Q : Except Error α → World → Prop) : World → Prop :=
  p.Safe (RecordKept id) (answersIf outside known) (KeepsWithin final id) Q

theorem Live.during (h : Live id w) {p : PipelineProg α} (hp : p.All fun c => c.during id) :
    Kept outside known final id p (fun _ => Live id) w :=
  hp.safe (fun _ _ hkept h => h.kept hkept) (fun _ _ _ _ hc h hanswer =>
    ⟨⟨hc.1, Or.inl h⟩, h.after hanswer.1 hc.2⟩) h

/-- An ending is recorded while the record is in flight. -/
theorem Live.ending (h : Live id w) (stage : Stage) (detail : Option String) :
    Kept outside known final id (call (.pushStage id stage detail)) (fun _ _ => True) w :=
  (safe_perform _).mpr fun _ hkept _ _ _ =>
    ⟨⟨⟨fun _ hkind => (CallKind.apply.inj hkind).symm, nofun⟩, Or.inl (h.kept hkept)⟩, trivial⟩

/-- Audit rows may be written at any time. -/
theorem kept_audited (event : AuditEvent) :
    Kept outside known final id (audited event) (fun _ _ => True) w := by
  refine (safe_bind _ _).mpr ((safe_attempt _).mpr ((safe_perform _).mpr ?_))
  intro w₁ _ r w₂ _
  refine ⟨⟨⟨nofun, nofun⟩, Or.inr (Or.inl trivial)⟩, ?_⟩
  cases r with
  | ok _ => trivial
  | error e =>
    show Safe _ _ _ (if isPyMongoError e then _ else _) _ _
    split <;> trivial

theorem kept_failApply (h : Live id w) (reason : String) :
    Kept outside known final id (failApply id reason) (fun _ _ => True) w := by
  refine (safe_bind _ _).mpr ((h.during (during_update rfl rfl)).mono fun r w₁ h₁ => ?_)
  cases r with
  | ok _ => exact h₁.ending _ _
  | error e => trivial

theorem kept_recordIncident (h : Live id w) (reason message : String) :
    Kept outside known final id (recordIncident id reason message) (fun _ _ => True) w := by
  refine (safe_bind _ _).mpr ((h.during (during_update rfl rfl)).mono fun r w₁ h₁ => ?_)
  cases r with
  | ok _ => exact h₁.ending _ _
  | error e => trivial

/-- One program, then an ending, then an audit row. -/
theorem Kept.thenAudited {p : PipelineProg Unit} (event : AuditEvent)
    (h : Kept outside known final id p (fun _ _ => True) w) :
    Kept outside known final id (p.bind fun _ => audited event) (fun _ _ => True) w := by
  refine (safe_bind _ _).mpr (h.mono fun r w₁ _ => ?_)
  cases r with
  | ok _ => exact kept_audited event
  | error e => trivial

/-- A program that leaves the record in flight, then another. -/
theorem Live.then {β : Type} (h : Live id w) {p : PipelineProg α} {f : α → PipelineProg β}
    {Q : Except Error β → World → Prop} (hp : p.All fun c => c.during id)
    (hf : ∀ a w', Live id w' → Kept outside known final id (f a) Q w')
    (hraise : ∀ e w', Live id w' → Q (.error e) w') :
    Kept outside known final id (p.bind f) Q w := by
  refine (safe_bind _ _).mpr ((h.during hp).mono fun r w₁ h₁ => ?_)
  cases r with
  | ok a => exact hf a w₁ h₁
  | error e => exact hraise e w₁ h₁

theorem kept_rollBackApply (h : Live id w) (kind : EngineKind) (reason : String) :
    Kept outside known final id (rollBackApply app kind id reason) (fun _ _ => True) w := by
  refine h.then (during_pushStage _ (by decide)) (fun _ w₁ h₁ => ?_) fun _ _ _ => trivial
  refine h₁.then (during_rollBack kind).attempt (fun r w₂ h₂ => ?_) fun _ _ _ => trivial
  cases r with
  | ok _ =>
    exact h₂.then (during_update rfl rfl)
      (fun _ _ h₃ => (kept_failApply h₃ _).thenAudited _) fun _ _ _ => trivial
  | error e =>
    refine h₂.then (during_update rfl rfl) (fun _ _ h₃ => ?_) fun _ _ _ => trivial
    exact h₃.then (during_declareIncident _)
      (fun _ _ h₄ => (kept_recordIncident h₄ _ _).thenAudited _) fun _ _ _ => trivial

/-- Where the stages have come to: while the record is not in flight, only a commit has failed. -/
def StagesDone (final : Prop) (id : String) :
    Except Error (Except (Stage × Error) Unit) → World → Prop
  | .ok (.error (reached, _)), w => Live id w ∨ ¬ final ∧ reached = .committing
  | _, _ => True

/-- The last stage ends the record; when it raises all the same, endings are not final. -/
theorem kept_commitStage (h : Live id w) (hfinal : final → SuccessHeard known) (kind : EngineKind)
    (actor : String) (prepared : Prepared) :
    Kept outside known final id (commitStage kind id actor prepared)
      (fun r w' => match r with
        | .ok _ => True
        | .error _ => Live id w' ∨ ¬ final) w := by
  have hsucceed (snapshot : Option Nat) (w₁ : World) (h₁ : Live id w₁) :
      Kept outside known final id
        ((call (.pushStage id .succeeded none)).bind fun _ =>
          audited (applyEvent kind actor id "applied" "succeeded" snapshot none))
        (fun r w' => match r with
          | .ok _ => True
          | .error _ => Live id w' ∨ ¬ final) w₁ := by
    refine (safe_bind _ _).mpr ((safe_perform _).mpr fun w₂ hkept r w₃ hpush => ?_)
    have h₂ := h₁.kept hkept
    refine ⟨⟨⟨fun _ hkind => (CallKind.apply.inj hkind).symm, nofun⟩, Or.inl h₂⟩, ?_⟩
    cases r with
    | error e =>
      by_cases hf : final
      · obtain rfl := (hfinal hf).heard hpush.2
        exact Or.inl h₂
      · exact Or.inr hf
    | ok _ =>
      refine (safe_bind _ _).mpr ((safe_attempt _).mpr ((safe_perform _).mpr ?_))
      intro w₄ _ r w₅ hrow
      refine ⟨⟨⟨nofun, nofun⟩, Or.inr (Or.inl trivial)⟩, ?_⟩
      cases r with
      | ok _ => trivial
      | error e =>
        show Safe _ _ _ (if isPyMongoError e then _ else _) _ _
        split
        · trivial
        · next hmongo => exact Or.inr fun hf => hmongo ((hfinal hf).audited ⟨rfl, rfl⟩ hrow.2)
  have hleft (e : Error) (w' : World) (h' : Live id w') : Live id w' ∨ ¬ final := Or.inl h'
  refine h.then (during_pushStage _ (by decide)) (fun _ w₁ h₁ => ?_) hleft
  refine h₁.then (during_commit id actor prepared kind) (fun snapshot w₂ h₂ => ?_) hleft
  cases snapshot with
  | none => exact hsucceed none w₂ h₂
  | some number =>
    exact h₂.then (during_update rfl rfl) (fun _ w₃ h₃ => hsucceed (some number) w₃ h₃) hleft

/-- A stage that leaves the record in flight, then the rest of them. -/
theorem kept_inStage (h : Live id w) {stage : Stage} {p : PipelineProg α} {f : α → Staged Unit}
    (hp : p.All fun c => c.during id)
    (hf : ∀ a w', Live id w' → Kept outside known final id (f a).run (StagesDone final id) w') :
    Kept outside known final id (inStage stage p >>= f).run (StagesDone final id) w := by
  refine (safe_bind _ _).mpr ((safe_bind _ _).mpr ((safe_attempt _).mpr ?_))
  refine (h.during hp).mono fun r w₁ h₁ => ?_
  cases r with
  | ok a => exact hf a w₁ h₁
  | error e => exact Or.inl h₁

theorem kept_runStages (h : Live id w) (hfinal : final → SuccessHeard known) (kind : EngineKind)
    (actor : String) :
    Kept outside known final id (runStages app kind id actor).run (StagesDone final id) w := by
  have hcommit (prepared : Prepared) (w₁ : World) (h₁ : Live id w₁) :
      Kept outside known final id
        (inStage .committing (commitStage kind id actor prepared)).run
        (StagesDone final id) w₁ := by
    refine (safe_bind _ _).mpr ((safe_attempt _).mpr ?_)
    refine (kept_commitStage h₁ hfinal kind actor prepared).mono fun r w₂ h₂ => ?_
    cases r with
    | ok _ => trivial
    | error e => exact h₂.imp_right fun hf => ⟨hf, rfl⟩
  have hverify (prepared : Prepared) (w₁ : World) (h₁ : Live id w₁) :
      Kept outside known final id (do
        inStage .verifying do
          call (.pushStage id .verifying none)
          onCluster (verifyStage app prepared)
        inStage .committing (commitStage kind id actor prepared) : Staged Unit).run
        (StagesDone final id) w₁ :=
    kept_inStage h₁ ((during_pushStage _ (by decide)).bind fun _ => during_onCluster _)
      fun _ w₂ h₂ => hcommit prepared w₂ h₂
  refine kept_inStage h ?_ fun prepared w₁ h₁ => ?_
  · exact All.bind (during_of_ofKind
      (ofKind_validate ⟨nofun, nofun⟩ ⟨nofun, nofun⟩ ⟨nofun, nofun⟩ kind)) fun _ =>
        (during_update rfl rfl).bind fun _ => trivial
  refine kept_inStage h₁ ((during_pushStage _ (by decide)).bind fun _ => during_onCluster _)
    fun _ w₂ h₂ => ?_
  split
  · exact kept_inStage h₂ ((during_pushStage _ (by decide)).bind fun _ => during_onCluster _)
      fun _ w₃ h₃ => hverify prepared w₃ h₃
  · exact hverify prepared w₂ h₂

/-- An Apply keeps within the lifetime of its record. -/
theorem kept_runApply (h : Live id w) (hfinal : final → SuccessHeard known) (kind : EngineKind)
    (actor : String) :
    Kept outside known final id (runApply app kind id actor) (fun _ _ => True) w := by
  refine (safe_bind _ _).mpr ((kept_runStages h hfinal kind actor).mono fun r w₁ h₁ => ?_)
  rcases r with e | e | _
  · trivial
  · obtain ⟨reached, e⟩ := e
    refine (safe_bind _ _).mpr ?_
    rcases h₁ with h₁ | ⟨hf, rfl⟩
    · refine (h₁.during (during_audited _)).mono fun r w₂ h₂ => ?_
      cases r with
      | error e => trivial
      | ok _ =>
        show Safe _ _ _ (if ROLLED_BACK_FROM.contains reached then _ else _) _ _
        split
        · exact kept_rollBackApply h₂ kind _
        · exact kept_failApply h₂ _
    · -- The success has been recorded already: a failure is recorded over it.
      refine (kept_audited _).mono fun r w₂ _ => ?_
      cases r with
      | error e => trivial
      | ok _ =>
        have hpush {c : Call Unit} {w : World} (hkind : c.kind = .apply id)
            (hentering : ∀ stage ∈ c.entering, stage ∈ TERMINAL) :
            Kept outside known final id (call c) (fun _ _ => True) w := by
          refine (safe_perform _).mpr fun _ _ _ _ _ => ⟨⟨⟨fun other h => ?_, fun other h => ?_⟩,
            Or.inr (Or.inr ⟨hkind, fun stage hstage => ⟨hf, hentering stage hstage⟩⟩)⟩, trivial⟩
          · exact (CallKind.apply.inj (hkind.symm.trans h)).symm
          · exact absurd (hkind.symm.trans h) nofun
        refine (safe_bind _ _).mpr ((hpush rfl (by nofun)).mono fun r w₃ _ => ?_)
        cases r with
        | error e => trivial
        | ok _ => exact hpush rfl (by rintro _ ⟨⟩; decide)
  · trivial

end runner

/-! ### Every owner -/

/-- What is said of an owner: its Apply keeps within the lifetime of its record. -/
def Tenant (outside : Outside) (known : Answers Call World) (final : Prop) (id : String)
    (p : PipelineProg Unit) : World → Prop :=
  Kept outside known final id p fun _ _ => True

/-- A record is changed while it is in flight, or as is left to an Apply whose record is over. -/
def InLifetime (final : Prop) : Answers Call World :=
  fun _ c w _ _ => ∀ id, c.kind = .apply id → Live id w ∨ c.afterwards final id

/-- The call touches no record. -/
def Call.recordless {β : Type} (c : Call β) : Prop := ∀ id, c.foreign id

/-- Every Apply keeps within the lifetime of its record, whatever the others do. -/
theorem discipline_lifetime {app : App} {outside : Outside} {known : Answers Call World}
    {final : Prop} {P : {β : Type} → Call β → Prop} (hfinal : final → SuccessHeard known)
    (hP : ∀ {β : Type} {c : Call β}, P c → c.recordless)
    (hopening : ∀ request : Request, (request.opening app).All P) :
    Discipline app outside P known (InLifetime final) (Tenant outside known final) where
  start kind actor hfresh hrecord :=
    kept_runApply ⟨_, hrecord, by simp [ApplyRecord.inFlight, hfresh.1, TERMINAL]⟩ hfinal kind actor
  call h hanswer := by
    obtain ⟨⟨hown, hwithin⟩, hrest⟩ := h _ rfl _ _ hanswer
    exact ⟨hrest, fun other hkind => hown.1 other hkind ▸ hwithin, hown⟩
  rely h hforeign hanswer _ :=
    h.stable (fun _ _ _ => RecordKept.trans) (fun _ _ _ _ => id)
      (recordKept_of_foreign hforeign hanswer.1)
  opening := hopening
  idle h _ := ⟨fun id hkind => absurd hkind (hP h id).1, hP h⟩
  launch h _ := fun id hkind => by
    obtain ⟨record, -, hinsert, -⟩ := h.inv (.error ⟨"", ""⟩)
    exact absurd (hinsert.symm.trans hkind) nofun

/-- No request touches a record before it has one. -/
theorem opening_recordless {app : App} (request : Request) :
    (request.opening app).All Call.recordless := by
  have h : OfKind (fun kind => ∀ id, kind ≠ .apply id ∧ kind ≠ .insert id)
      (request.opening app) :=
    ofKind_opening app (by simp) (by simp) (by simp) (by simp) request
  exact h

end Apchi.Pipeline
