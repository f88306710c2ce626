import Apchi.Pipeline.Play
import Apchi.Pipeline.Saves

/-!
# The saves of a run

Every document a save has stored is kept beside the service, with what it replaced, and with the
task that has still to finish the save.  As long as no save is cut short, and no two saves of Admin
values cross, whatever a save changed is named in the audit, and the pre-image kept is what the last
Admin document stored has replaced.
-/

namespace Apchi.Pipeline

open Lib Prog

/-- A document stored by a save: whose save it was, what it replaced, and what it is now. -/
inductive Save where
  | admin (actor : String) (before after : AdminValues)
  | candidate (actor : String) (before : Option Candidate) (after : Candidate)

/-- The audit has an event of this actor's about this Admin value. -/
def namesValue (audit : List AuditEvent) (actor value : String) : Prop :=
  ∃ event ∈ audit, event.actor = actor ∧ event.category = "admin" ∧ event.resource = some value

/-- The audit names every difference between two Admin documents, and who made it. -/
structure AdminNamed (audit : List AuditEvent) (actor : String) (before after : AdminValues) : Prop where
  enforcement : before.enforcePermissions ≠ after.enforcePermissions →
    namesValue audit actor "enforce_permissions"
  accessControl : before.preservedAccessControl ≠ after.preservedAccessControl →
    namesValue audit actor "preserved_access_control"
  mappings : before.preservedCertificateMappings ≠ after.preservedCertificateMappings →
    namesValue audit actor "preserved_certificate_mappings"
  rawFiles : before.rawFiles ≠ after.rawFiles → namesValue audit actor "raw_files"

/-- An event that names a change of a resource: the resource's own, or an act on the Section it is in,
or on everything. -/
def AuditEvent.Names (event : AuditEvent) (name : SectionName) (resource : String) : Prop :=
  event.category = name.text ∧ event.resource = some resource ∨
    event.category = name.text ∧ event.resource = none ∧ event.action = "reverted" ∨
      event.category = "pipeline" ∧ event.resource = none ∧
        event.action ∈ ["reset", "imported", "rolled_back"]

/-- The audit names every difference between two configurations, and who made it. -/
def SectionsNamed (audit : List AuditEvent) (actor : String) (before after : Sections) : Prop :=
  ∀ name resource, (before name)[resource]? ≠ (after name)[resource]? →
    ∃ event ∈ audit, event.actor = actor ∧ event.Names name resource

/-- The audit names what a save changed.  The first Candidate stored has none to differ from. -/
def Save.Named (audit : List AuditEvent) : Save → Prop
  | .admin actor before after => AdminNamed audit actor before after
  | .candidate actor before after => ∀ previous ∈ before,
      SectionsNamed audit actor previous.sections after.sections

/-- What the last Admin document stored by a save has replaced. -/
def lastReplaced : List Save → Option AdminValues
  | [] => none
  | .admin _ before _ :: _ => some before
  | .candidate .. :: rest => lastReplaced rest

/-! ### The history -/

/-- What a call stores for this actor, if it goes through. -/
def Call.stores {β : Type} (actor : String) (world : World) : Call β → Option Save
  | .findAndReplaceAdmin values => some (.admin actor (world.admin.getD {}) values)
  | .findAndReplaceCandidate candidate => some (.candidate actor world.candidate candidate)
  | _ => none

/-- The requests being served, the documents their saves have stored, the last of them first, and the
save that each task has still to finish. -/
structure Saves where
  requests : List Request
  stored : List Save
  pending : Nat → Option Save

/-- What a call of a task has stored. -/
def Saves.made (saves : Saves) (s : Service) (i : Nat) {β : Type} (c : Call β) (r : Except Error β) :
    Option Save :=
  match r with
  | .ok _ => saves.requests[i]?.bind fun request => c.stores request.sender s.world
  | .error _ => none

/-- The next call is a later write of a save. -/
def finishing : PipelineProg Unit → Bool
  | .call c _ => c.write.any fun write => write != .document
  | _ => false

/-- The save a task has still to finish, after a call. -/
def Saves.left (saves : Saves) (s : Service) (i : Nat) {β : Type} (c : Call β) (r : Except Error β)
    (task : Option (PipelineProg Unit)) : Option Save :=
  if task.any finishing then (saves.made s i c r).or (saves.pending i) else none

/-- The history after a step.  Recovery saves nothing. -/
def savesAfter (saves : Saves) (s : Service) (event : Event) (s' : Service) : Saves :=
  match event with
  | .arrive request => { saves with requests := saves.requests ++ [request] }
  | .call (some i) c r =>
      { saves with
        stored := (saves.made s i c r).toList ++ saves.stored
        pending := fun j => if j = i then saves.left s i c r s'.tasks[i]? else saves.pending j }
  | .die => { requests := [], stored := saves.stored, pending := fun _ => none }
  | _ => saves

/-- The pre-image that the next call keeps. -/
def keeps : PipelineProg Unit → Option AdminValues
  | .call (.replaceAdminPrevious before) _ => some before
  | _ => none

/-- What holds between saves, and what a save under way has still to do. -/
structure Settled (saves : Saves) (s : Service) : Prop where
  named : ∀ save ∈ saves.stored, save.Named s.world.audit ∨ ∃ i, saves.pending i = some save
  kept : ∀ before ∈ lastReplaced saves.stored, s.world.adminPrevious = some before ∨
    ∃ task ∈ s.tasks, keeps task = some before

/-! ### The condition -/

/-- The Admin values a save is about to store. -/
def Call.adminStored {β : Type} : Call β → Option AdminValues
  | .findAndReplaceAdmin values => some values
  | _ => none

/-- The Candidate a save is about to store. -/
def Call.candidateStored {β : Type} : Call β → Option Candidate
  | .findAndReplaceCandidate candidate => some candidate
  | _ => none

/-- Whether a rollback puts the Admin document back. -/
def Call.restored {β : Type} : Call β → Bool
  | .replaceAdmin _ => true
  | _ => false

/-- A call that cuts no save short and crosses none. -/
structure UncutCall (saves : Saves) (s : Service) (task : Option Nat) {β : Type} (c : Call β)
    (r : Except Error β) (after : World) : Prop where
  /-- A document that is not stored, or not heard of, has changed nothing. -/
  document : c.write = some .document → r.isOk = true ∨ after = s.world
  /-- What a save has still to write goes through. -/
  finished : ∀ i ∈ task, (saves.pending i).isSome = true → r.isOk = true
  /-- Admin values are stored when the pre-image of those before them has been kept. -/
  ordered : c.adminStored.isSome = true → ∀ other ∈ s.tasks, keeps other = none
  /-- A revert of one Section stores the others as they are. -/
  reverted : ∀ i ∈ task, ∀ request ∈ saves.requests[i]?, ∀ name ∈ request.reverts,
    ∀ candidate ∈ c.candidateStored, ∀ stored ∈ s.world.candidate,
      ∀ other, other ≠ name → stored.sections other = candidate.sections other

/-- A rollback's write of the Admin document, which is no save. -/
def Event.restores : Event → Prop
  | .call _ c _ => c.restored = true
  | _ => False

/-- No save is cut short, by an exception or by the death of the process, and none crosses another. -/
def UncutSaves (before : Saves × Service) (event : Event) (after : Saves × Service) : Prop :=
  match event with
  | .call task c r => UncutCall before.1 before.2 task c r after.2.world
  | .die => ∀ i, before.1.pending i = none
  | _ => True

/-! ### What is recorded names the differences -/

theorem namesValue.mono {audit audit' : List AuditEvent} (h : audit ⊆ audit') {actor value : String}
    (hnamed : namesValue audit actor value) : namesValue audit' actor value :=
  hnamed.imp fun _ hevent => hevent.imp_left (h ·)

theorem Save.Named.mono {audit audit' : List AuditEvent} (h : audit ⊆ audit') {save : Save}
    (hnamed : save.Named audit) : save.Named audit' := by
  cases save with
  | admin actor before after =>
    obtain ⟨henforcement, haccess, hmappings, hraw⟩ := hnamed
    exact ⟨fun hne => (henforcement hne).mono h, fun hne => (haccess hne).mono h,
      fun hne => (hmappings hne).mono h, fun hne => (hraw hne).mono h⟩
  | candidate actor before after =>
    intro previous hprevious name resource hne
    exact (hnamed previous hprevious name resource hne).imp fun _ hevent => hevent.imp_left (h ·)

/-- The events of a save of Admin values name what it changed. -/
theorem adminNamed_of_changes {audit : List AuditEvent} {actor : String} {before after : AdminValues}
    (h : adminChanges actor before after ⊆ audit) : AdminNamed audit actor before after := by
  have hevent {value : String} (detail : Option String)
      (hmem : ({ actor := actor, category := "admin", action := "updated", resource := some value
                 detail := detail } : AuditEvent) ∈ adminChanges actor before after) :
      namesValue audit actor value := ⟨_, h hmem, rfl, rfl, rfl⟩
  refine ⟨fun hne => hevent (some (enforcementDirection after.enforcePermissions)) ?_,
    fun hne => hevent none ?_, fun hne => hevent none ?_, fun hne => hevent none ?_⟩ <;>
    simp [adminChanges, hne]

/-- So do those of a save of the Candidate. -/
theorem sectionsNamed_of_changes {audit : List AuditEvent} {actor : String} {before after : Sections}
    (h : changesBetween actor before after ⊆ audit) : SectionsNamed audit actor before after := by
  intro name resource hne
  obtain ⟨action, hchange⟩ := Option.isSome_iff_exists.mp (resourceChange_isSome.mpr hne)
  exact ⟨_, h (mem_changesBetween.mpr ⟨name, resource, action, hchange, rfl⟩), rfl,
    Or.inl ⟨rfl, rfl⟩⟩

/-- An act names everything it changes. -/
theorem sectionsNamed_of_act {audit : List AuditEvent} {actor : String}
    {reverts : Option SectionName} {act : AuditEvent} (hact : IsAct actor reverts act)
    (hmem : act ∈ audit) {before after : Sections}
    (hrest : ∀ name ∈ reverts, ∀ other, other ≠ name → before other = after other) :
    SectionsNamed audit actor before after := by
  intro name resource hne
  refine ⟨act, hmem, hact.actor, ?_⟩
  rcases hact.named with ⟨hcategory, haction⟩ | ⟨reverted, hreverts, hcategory, haction⟩
  · exact Or.inr (Or.inr ⟨hcategory, hact.whole, haction⟩)
  · have hname : name = reverted := by
      by_contra hother
      exact hne (by rw [hrest reverted hreverts name hother])
    exact Or.inr (Or.inl ⟨hname ▸ hcategory, hact.whole, haction⟩)

/-! ### The tasks -/

variable {app : App} {outside : Outside}

def Service.keeps (s : Service) (i : Nat) : Option AdminValues := s.tasks[i]?.bind Pipeline.keeps

/-- Where the pre-image is: kept, or the next thing one task keeps. -/
def PreImageKept (replaced : Option AdminValues) (s : Service) : Prop :=
  (∀ i, s.keeps i = none) ∧ (∀ before ∈ replaced, s.world.adminPrevious = some before) ∨
    ∃ i before, replaced = some before ∧ s.keeps i = some before ∧ ∀ j, j ≠ i → s.keeps j = none

/-- A save under way: what it owes names the rest of what it changed. -/
structure Finishes (audit : List AuditEvent) (save : Save) (owed : List Debt) : Prop where
  events : ∃ events, save.Named (audit ++ events) ∧
    (owed = unrecorded events ∨ ∃ before, owed = .preImage before :: unrecorded events)

theorem Finishes.mono {audit audit' : List AuditEvent} (h : audit ⊆ audit') {save : Save}
    {owed : List Debt} (hfinishes : Finishes audit save owed) : Finishes audit' save owed := by
  obtain ⟨events, hnamed, howed⟩ := hfinishes
  exact ⟨events, hnamed.mono (List.append_subset.mpr
    ⟨List.subset_append_of_subset_left _ h, List.subset_append_right _ _⟩), howed⟩

/-- A task owes what the save it has to finish has left, and nothing when it has none. -/
structure Followed (app : App) (saves : Saves) (s : Service) : Prop where
  length : saves.requests.length = s.tasks.length
  recovering : ∀ p, s.recovering = some p → WritesOnly saveless p
  tasks : ∀ i request task, saves.requests[i]? = some request → s.tasks[i]? = some task →
    ∃ owed, task.Owing Pays (Leaves request.sender request.reverts) owed ∧
      (saves.pending i = none → owed = []) ∧
        ∀ save ∈ saves.pending i, finishing task = true ∧ Finishes s.world.audit save owed
  pending : ∀ i, i ≥ s.tasks.length → saves.pending i = none
  named : ∀ save ∈ saves.stored, save.Named s.world.audit ∨ ∃ i, saves.pending i = some save
  kept : PreImageKept (lastReplaced saves.stored) s

theorem Followed.settled {saves : Saves} {s : Service} (h : Followed app saves s) : Settled saves s := by
  refine ⟨h.named, fun before hbefore => ?_⟩
  rcases h.kept with ⟨-, hkept⟩ | ⟨i, kept, hreplaced, hkeeps, -⟩
  · exact Or.inl (hkept before hbefore)
  · obtain rfl := Option.some.inj (hbefore.symm.trans hreplaced)
    obtain ⟨task, htask, htaskKeeps⟩ := Option.bind_eq_some_iff.mp hkeeps
    exact Or.inr ⟨task, List.mem_of_getElem? htask, htaskKeeps⟩

section owing

variable {actor : String} {reverts : Option SectionName} {p : PipelineProg Unit}

/-- What owes nothing keeps no pre-image next. -/
theorem keeps_of_paying (h : Paying actor reverts p) : keeps p = none := by
  cases p with
  | ret a => rfl
  | raise e => rfl
  | call c k =>
    cases c with
    | replaceAdminPrevious before =>
      obtain ⟨owed, hleaves, -⟩ := h.1 ()
      exact hleaves.elim
    | _ => rfl

/-- What owes something pays it next. -/
theorem finishing_of_owing {debt : Debt} {owed : List Debt}
    (h : p.Owing Pays (Leaves actor reverts) (debt :: owed)) :
    finishing p = true ∧ keeps p = debt.kept := by
  cases p with
  | ret a => cases h
  | raise e => cases h
  | call c k =>
    obtain ⟨hpays, -⟩ := h
    cases c <;> cases debt <;> first | exact hpays.elim | skip
    · obtain rfl : _ = _ := hpays
      exact ⟨rfl, rfl⟩
    · exact ⟨rfl, rfl⟩

theorem unrecorded_eq_nil {events : List AuditEvent} : unrecorded events = [] ↔ events = [] := by
  unfold unrecorded
  cases events <;> simp

theorem keeps_of_unrecorded {events : List AuditEvent}
    (h : p.Owing Pays (Leaves actor reverts) (unrecorded events)) : keeps p = none := by
  cases events with
  | nil => exact keeps_of_paying h
  | cons event events => exact (finishing_of_owing h).2

end owing

/-! ### One call of a task -/

section task

variable {saves : Saves} {s : Service} {i : Nat} {β : Type} {c : Call β}
  {k : Except Error β → PipelineProg Unit} {r : Except Error β} {world : World}

theorem Service.keeps_set (htask : s.tasks[i]? = some (.call c k)) (j : Nat) :
    Service.keeps { s with world := world, tasks := s.tasks.set i (k r) } j =
      if j = i then Pipeline.keeps (k r) else s.keeps j := by
  obtain ⟨hi, -⟩ := List.getElem?_eq_some_iff.mp htask
  unfold Service.keeps
  split
  · next h =>
    subst h
    rw [List.getElem?_set_self hi]
    rfl
  · next h => rw [List.getElem?_set_ne (Ne.symm h)]

/-- A call that neither is to keep a pre-image nor leaves one to be kept. -/
theorem PreImageKept.call {replaced : Option AdminValues} (h : PreImageKept replaced s)
    (htask : s.tasks[i]? = some (.call c k)) (hbefore : Pipeline.keeps (.call c k) = none)
    (hafter : Pipeline.keeps (k r) = none) (hsame : world.adminPrevious = s.world.adminPrevious) :
    PreImageKept replaced { s with world := world, tasks := s.tasks.set i (k r) } := by
  have hkeeps (j : Nat) :
      Service.keeps { s with world := world, tasks := s.tasks.set i (k r) } j = s.keeps j := by
    rw [Service.keeps_set htask]
    split
    · next heq => rw [heq, hafter, Service.keeps, htask, Option.bind_some, hbefore]
    · rfl
  unfold PreImageKept
  simp only [hkeeps]
  exact h.imp_left fun ⟨hnone, hkept⟩ => ⟨hnone, fun before hmem => hsame.trans (hkept before hmem)⟩

/-- The save at hand after a call, which the task goes on to finish. -/
theorem Followed.call (h : Followed app saves s) (htask : s.tasks[i]? = some (.call c k))
    (hanswer : (worldMachine outside).Answer c s.world r world) {request : Request}
    (hrequest : saves.requests[i]? = some request) {owed : List Debt}
    (howing : (k r).Owing Pays (Leaves request.sender request.reverts) owed)
    (hnone : (saves.made s i c r).or (saves.pending i) = none → owed = [])
    (hfinishes : ∀ save, (saves.made s i c r).or (saves.pending i) = some save →
      Finishes world.audit save owed)
    (hpending : saves.pending i = none ∨ saves.made s i c r = none)
    (hkept : PreImageKept (lastReplaced ((saves.made s i c r).toList ++ saves.stored))
      { s with world := world, tasks := s.tasks.set i (k r) }) :
    Followed app (savesAfter saves s (.call (some i) c r)
      { s with world := world, tasks := s.tasks.set i (k r) })
      { s with world := world, tasks := s.tasks.set i (k r) } := by
  obtain ⟨hi, -⟩ := List.getElem?_eq_some_iff.mp htask
  have haudit := answer_audit outside hanswer
  have hleft : saves.left s i c r (s.tasks.set i (k r))[i]? =
      if finishing (k r) then (saves.made s i c r).or (saves.pending i) else none := by
    rw [List.getElem?_set_self hi]
    rfl
  -- What is not left to finish is named.
  have hhand (save : Save) (hsave : (saves.made s i c r).or (saves.pending i) = some save) :
      save.Named world.audit ∨ saves.left s i c r (s.tasks.set i (k r))[i]? = some save := by
    by_cases hfinishing : finishing (k r) = true
    · rw [hleft, if_pos hfinishing]
      exact Or.inr hsave
    · obtain ⟨events, hnamed, howed⟩ := hfinishes save hsave
      cases owed with
      | cons debt owed => exact absurd (finishing_of_owing howing).1 hfinishing
      | nil =>
        rcases howed with howed | ⟨before, howed⟩
        · rw [unrecorded_eq_nil.mp howed.symm, List.append_nil] at hnamed
          exact Or.inl hnamed
        · cases howed
  refine ⟨?_, h.recovering, fun j other task hother htask' => ?_, fun j hj => ?_, fun save hsave => ?_,
    hkept⟩
  · exact h.length.trans (List.length_set ..).symm
  · show ∃ owed, _ ∧ ((if j = i then _ else _) = none → _) ∧ ∀ save ∈ (if j = i then _ else _), _
    by_cases hj : j = i
    · subst hj
      obtain rfl := Option.some.inj (hrequest.symm.trans hother)
      obtain rfl := Option.some.inj ((List.getElem?_set_self hi).symm.trans htask')
      rw [if_pos rfl, hleft]
      refine ⟨owed, howing, fun hnothing => ?_, fun save hsave => ?_⟩
      · split at hnothing
        · exact hnone hnothing
        · next hfinishing =>
          cases owed with
          | nil => rfl
          | cons debt owed => exact absurd (finishing_of_owing howing).1 hfinishing
      · split at hsave
        · next hfinishing => exact ⟨hfinishing, hfinishes save hsave⟩
        · cases hsave
    · rw [if_neg hj]
      obtain ⟨owed, howing, hnone, hfinishes⟩ :=
        h.tasks j other task hother ((List.getElem?_set_ne (Ne.symm hj)).symm.trans htask')
      exact ⟨owed, howing, hnone, fun save hsave =>
        (hfinishes save hsave).imp_right (Finishes.mono haudit)⟩
  · have hne : j ≠ i := fun heq => by
      rw [heq, List.length_set] at hj
      omega
    show (if j = i then _ else _) = _
    rw [if_neg hne]
    exact h.pending j (by rwa [List.length_set] at hj)
  · have hstay (j : Nat) (hj : j ≠ i) : (if j = i then saves.left s i c r
        (s.tasks.set i (k r))[i]? else saves.pending j) = saves.pending j := if_neg hj
    rcases List.mem_append.mp hsave with hmade | hstored
    · rcases hhand save (by rw [Option.mem_toList.mp hmade]; rfl) with hnamed | hleft
      · exact Or.inl hnamed
      · exact Or.inr ⟨i, (if_pos rfl).trans hleft⟩
    · rcases h.named save hstored with hnamed | ⟨j, hj⟩
      · exact Or.inl (hnamed.mono haudit)
      · by_cases hji : j = i
        · subst hji
          have hnothing : saves.made s j c r = none := hpending.resolve_left (by simp [hj])
          rcases hhand save (by rw [hnothing]; exact hj) with hnamed | hleft
          · exact Or.inl hnamed
          · exact Or.inr ⟨j, (if_pos rfl).trans hleft⟩
        · exact Or.inr ⟨j, (hstay j hji).trans hj⟩

/-- A call that stores nothing and pays nothing. -/
theorem Followed.call_idle (h : Followed app saves s) (htask : s.tasks[i]? = some (.call c k))
    (hanswer : (worldMachine outside).Answer c s.world r world) {request : Request}
    (hrequest : saves.requests[i]? = some request)
    (howing : Paying request.sender request.reverts (k r))
    (hmade : saves.made s i c r = none) (hwrites : c.writesTo ≠ some .adminPrevious)
    (hkeeps : Pipeline.keeps (.call c k) = none)
    (hnamed : ∀ save ∈ saves.pending i, save.Named world.audit) :
    Followed app (savesAfter saves s (.call (some i) c r)
      { s with world := world, tasks := s.tasks.set i (k r) })
      { s with world := world, tasks := s.tasks.set i (k r) } := by
  refine h.call htask hanswer hrequest howing (fun _ => rfl) (fun save hsave => ⟨[], ?_, Or.inl rfl⟩)
    (Or.inr hmade) ?_
  · rw [hmade] at hsave
    rw [List.append_nil]
    exact hnamed save hsave
  · rw [hmade]
    exact h.kept.call htask hkeeps (keeps_of_paying howing)
      (answer_adminPrevious_of_not outside hwrites hanswer)

theorem made_of_write (h : c.write ≠ some .document) : saves.made s i c r = none := by
  have hstores (actor : String) (world : World) : c.stores actor world = none := by
    cases c <;> first | rfl | exact absurd rfl h
  cases r with
  | error e => rfl
  | ok b => simp [Saves.made, hstores]

theorem leaves_of_write {actor : String} {reverts : Option SectionName} {b : β} {owed : List Debt}
    (h : c.write ≠ some .document) (hleaves : Leaves actor reverts c b owed) : owed = [] := by
  cases c <;> first | exact hleaves | exact absurd rfl h | exact hleaves.elim

theorem writesTo_of_keeps (h : Pipeline.keeps (.call c k) = none) :
    c.writesTo ≠ some .adminPrevious := by
  cases c with
  | replaceAdminPrevious values => cases h
  | cluster call =>
    show (if call.writes then some Collection.cluster else none) ≠ _
    split <;> nofun
  | _ => nofun

/-- A task's next call, when the task owes nothing. -/
theorem Followed.task_free (h : Followed app saves s) (htask : s.tasks[i]? = some (.call c k))
    (hanswer : (worldMachine outside).Answer c s.world r world)
    (hquiet : UncutCall saves s (some i) c r world) {request : Request}
    (hrequest : saves.requests[i]? = some request)
    (howing : Paying request.sender request.reverts (.call c k))
    (hnamed : ∀ save ∈ saves.pending i, save.Named s.world.audit)
    (hpending : c.write = some .document → saves.pending i = none) :
    Followed app (savesAfter saves s (.call (some i) c r)
      { s with world := world, tasks := s.tasks.set i (k r) })
      { s with world := world, tasks := s.tasks.set i (k r) } := by
  have hkeeps := keeps_of_paying howing
  have haudit := answer_audit outside hanswer
  obtain ⟨hok, herror⟩ := howing
  have hidle := h.call_idle htask hanswer hrequest
  by_cases hdocument : c.write = some .document
  · cases r with
    | error e =>
      exact hidle (herror e) rfl (writesTo_of_keeps hkeeps) hkeeps fun save hsave =>
        (hnamed save hsave).mono haudit
    | ok b =>
      obtain ⟨owed, hleaves, howing⟩ := hok b
      cases c with
      | findAndReplaceAdmin values =>
        obtain ⟨rfl, rfl⟩ : s.world.admin = b ∧ { s.world with admin := some values } = world :=
          (Prod.mk.inj hanswer.ok).imp_left Except.ok.inj
        obtain rfl : owed = _ := hleaves
        have hmade : saves.made s i (.findAndReplaceAdmin values) (.ok s.world.admin) =
            some (.admin request.sender (s.world.admin.getD {}) values) := by
          simp [Saves.made, hrequest, Call.stores]
        have hkept := (finishing_of_owing howing).2
        refine h.call htask hanswer hrequest howing (by simp [hmade]) (fun save hsave => ?_)
          (Or.inl (hpending rfl)) (Or.inr ⟨i, s.world.admin.getD {}, by rw [hmade]; rfl, ?_, ?_⟩)
        · rw [hmade] at hsave
          obtain rfl := Option.some.inj hsave
          exact ⟨_, adminNamed_of_changes (List.subset_append_right _ _), Or.inr ⟨_, rfl⟩⟩
        · rw [Service.keeps_set htask, if_pos rfl, hkept]
          rfl
        · intro j hj
          rw [Service.keeps_set htask, if_neg hj, Service.keeps]
          cases hother : s.tasks[j]? with
          | none => rfl
          | some other => exact hquiet.ordered rfl other (List.mem_of_getElem? hother)
      | findAndReplaceCandidate candidate =>
        obtain ⟨hb, hworld⟩ : s.world.candidate = b ∧ s.world.audit = world.audit := by
          have hexec : s.world.replaceCandidate outside candidate = (.ok b, world) := hanswer.ok
          unfold World.replaceCandidate at hexec
          split at hexec
          · obtain ⟨hb, rfl⟩ := (Prod.mk.inj hexec).imp_left Except.ok.inj
            exact ⟨hb, rfl⟩
          · cases hexec
        subst hb
        have hmade : saves.made s i (.findAndReplaceCandidate candidate) (.ok s.world.candidate) =
            some (.candidate request.sender s.world.candidate candidate) := by
          simp [Saves.made, hrequest, Call.stores]
        have hunrecorded : ∃ events, owed = unrecorded events ∧
            ∀ previous ∈ s.world.candidate, SectionsNamed (world.audit ++ events) request.sender
              previous.sections candidate.sections := by
          rcases hleaves with rfl | ⟨act, hact, rfl⟩
          · refine ⟨_, rfl, fun previous hprevious => sectionsNamed_of_changes ?_⟩
            rw [show s.world.candidate = some previous from hprevious]
            exact List.subset_append_right _ _
          · refine ⟨[act], rfl, fun previous hprevious =>
              sectionsNamed_of_act hact (by simp) fun name hname other hother => ?_⟩
            exact hquiet.reverted i rfl request hrequest name hname candidate rfl previous hprevious
              other hother
        obtain ⟨events, rfl, hevents⟩ := hunrecorded
        refine h.call htask hanswer hrequest howing (by simp [hmade]) (fun save hsave => ?_)
          (Or.inl (hpending rfl)) ?_
        · rw [hmade] at hsave
          obtain rfl := Option.some.inj hsave
          exact ⟨events, hevents, Or.inl rfl⟩
        · rw [hmade]
          exact h.kept.call htask hkeeps (keeps_of_unrecorded howing)
            (answer_adminPrevious_of_not outside (writesTo_of_keeps hkeeps) hanswer)
      | cluster _ => cases hdocument
      | _ => cases hdocument
  · refine hidle ?_ (made_of_write hdocument) (writesTo_of_keeps hkeeps) hkeeps fun save hsave =>
      (hnamed save hsave).mono haudit
    cases r with
    | error e => exact herror e
    | ok b =>
      obtain ⟨owed, hleaves, howing⟩ := hok b
      obtain rfl := leaves_of_write hdocument hleaves
      exact howing

/-- A task's next call, when the task owes it. -/
theorem Followed.task_owing (h : Followed app saves s) (htask : s.tasks[i]? = some (.call c k))
    (hanswer : (worldMachine outside).Answer c s.world r world)
    (hquiet : UncutCall saves s (some i) c r world) {request : Request}
    (hrequest : saves.requests[i]? = some request) {debt : Debt} {owed : List Debt}
    (howing : (Prog.call c k).Owing Pays (Leaves request.sender request.reverts) (debt :: owed))
    {save : Save} (hsave : saves.pending i = some save)
    (hfinishes : Finishes s.world.audit save (debt :: owed)) :
    Followed app (savesAfter saves s (.call (some i) c r)
      { s with world := world, tasks := s.tasks.set i (k r) })
      { s with world := world, tasks := s.tasks.set i (k r) } := by
  have hmade (hdocument : c.write ≠ some .document) : saves.made s i c r = none :=
    made_of_write hdocument
  have hkeeps := (finishing_of_owing howing).2
  obtain ⟨hpays, hok, -⟩ := howing
  obtain ⟨b, rfl⟩ : ∃ b, r = .ok b := by
    have hgone := hquiet.finished i rfl (by simp [hsave])
    cases r with
    | ok b => exact ⟨b, rfl⟩
    | error e => cases hgone
  have howing := hok b
  obtain ⟨events, hnamed, howed⟩ := hfinishes
  cases c with
  | replaceAdminPrevious values =>
    obtain rfl : { s.world with adminPrevious := some values } = world := (Prod.mk.inj hanswer.ok).2
    have hnothing := hmade nofun
    cases debt with
    | audit _ => exact hpays.elim
    | preImage before =>
      obtain rfl : values = before := hpays
      have howed : owed = unrecorded events := by
        rcases howed with howed | ⟨before, howed⟩
        · unfold unrecorded at howed
          split at howed <;> cases howed
        · exact (List.cons.inj howed).2
      subst howed
      refine h.call htask hanswer hrequest howing (by simp [hsave]) (fun other hother => ?_)
        (Or.inr hnothing) ?_
      · rw [hnothing, Option.none_or, hsave] at hother
        obtain rfl := Option.some.inj hother
        exact ⟨events, hnamed, Or.inl rfl⟩
      · have hself : s.keeps i = some values := by
          rw [Service.keeps, htask]
          rfl
        have hothers (j : Nat) (hj : j ≠ i) : s.keeps j = none := by
          rcases h.kept with ⟨hnone, -⟩ | ⟨keeper, before, -, -, hnone⟩
          · exact hnone j
          · by_cases hkeeper : j = keeper
            · exact absurd (hnone i fun heq => hj (hkeeper.trans heq.symm)) (by simp [hself])
            · exact hnone j hkeeper
        have hreplaced : lastReplaced saves.stored = some values := by
          rcases h.kept with ⟨hnone, -⟩ | ⟨keeper, before, hreplaced, hkeeper, hnone⟩
          · cases hself.symm.trans (hnone i)
          · by_cases hi : i = keeper
            · rw [hreplaced, ← hkeeper, ← hi, hself]
            · cases hself.symm.trans (hnone i hi)
        rw [hnothing]
        refine Or.inl ⟨fun j => ?_, fun before hbefore => ?_⟩
        · rw [Service.keeps_set htask]
          split
          · exact keeps_of_unrecorded howing
          · next hj => exact hothers j hj
        · exact hreplaced.symm.trans hbefore
  | insertAudit recorded =>
    obtain rfl : { s.world with audit := s.world.audit ++ recorded } = world :=
      (Prod.mk.inj hanswer.ok).2
    cases debt with
    | preImage _ => exact hpays.elim
    | audit events' =>
      obtain rfl : recorded = events' := hpays
      have howed : recorded = events ∧ owed = [] := by
        rcases howed with howed | ⟨before, howed⟩
        · unfold unrecorded at howed
          split at howed
          · cases howed
          · exact ⟨Debt.audit.inj (List.cons.inj howed).1, (List.cons.inj howed).2⟩
        · cases howed
      obtain ⟨rfl, rfl⟩ := howed
      exact h.call_idle htask hanswer hrequest howing (hmade nofun) nofun rfl fun other hother => by
        obtain rfl := Option.some.inj (hsave.symm.trans hother)
        exact hnamed
  | cluster _ => cases debt <;> exact hpays.elim
  | _ => cases debt <;> exact hpays.elim

/-- One call of a task. -/
theorem Followed.task (h : Followed app saves s) (htask : s.tasks[i]? = some (.call c k))
    (hanswer : (worldMachine outside).Answer c s.world r world)
    (hquiet : UncutCall saves s (some i) c r world) :
    Followed app (savesAfter saves s (.call (some i) c r)
      { s with world := world, tasks := s.tasks.set i (k r) })
      { s with world := world, tasks := s.tasks.set i (k r) } := by
  obtain ⟨hi, -⟩ := List.getElem?_eq_some_iff.mp htask
  obtain ⟨request, hrequest⟩ : ∃ request, saves.requests[i]? = some request :=
    ⟨_, List.getElem?_eq_getElem (h.length ▸ hi)⟩
  obtain ⟨owed, howing, hnone, hfinishes⟩ := h.tasks i request _ hrequest htask
  cases owed with
  | nil =>
    refine h.task_free htask hanswer hquiet hrequest howing (fun save hsave => ?_) fun hwrite => ?_
    · obtain ⟨-, events, hnamed, howed⟩ := hfinishes save hsave
      rcases howed with howed | ⟨before, howed⟩
      · rwa [unrecorded_eq_nil.mp howed.symm, List.append_nil] at hnamed
      · cases howed
    · refine Option.eq_none_iff_forall_not_mem.mpr fun save hsave => ?_
      have hfinishing := (hfinishes save hsave).1
      rw [finishing, hwrite] at hfinishing
      cases hfinishing
  | cons debt owed =>
    cases hsave : saves.pending i with
    | none => exact absurd (hnone hsave) (List.cons_ne_nil _ _)
    | some save => exact h.task_owing htask hanswer hquiet hrequest howing hsave (hfinishes save hsave).2

end task

/-! ### Runs -/

/-- A step changes a document by a save, which the history tells with what it replaced; only a
rollback writes the Admin document otherwise. -/
structure SavesTell (before : Saves × Service) (event : Event) (after : Saves × Service) : Prop where
  candidate : after.2.world.candidate = before.2.world.candidate ∨ ∃ actor candidate,
    after.1.stored = .candidate actor before.2.world.candidate candidate :: before.1.stored ∧
      after.2.world.candidate = some candidate
  admin : after.2.world.admin = before.2.world.admin ∨ event.restores ∨ ∃ actor values,
    after.1.stored = .admin actor (before.2.world.admin.getD {}) values :: before.1.stored ∧
      after.2.world.admin = some values

theorem saveless_recoverNext : WritesOnly saveless (recoverNext app) :=
  writes_recoverNext ⟨nofun, nofun, nofun⟩ ⟨nofun, nofun, nofun⟩ ⟨nofun, nofun, nofun⟩
    ⟨nofun, nofun, nofun⟩

theorem Followed.boot (world : World) {stored : List Save}
    (hnamed : ∀ save ∈ stored, save.Named world.audit)
    (hkept : ∀ before ∈ lastReplaced stored, world.adminPrevious = some before) :
    Followed app ⟨[], stored, fun _ => none⟩ (Service.boot app world) where
  length := rfl
  recovering := by
    rintro p ⟨⟩
    exact saveless_recoverNext
  tasks := nofun
  pending _ _ := rfl
  named save hsave := Or.inl (hnamed save hsave)
  kept := Or.inl ⟨fun _ => rfl, hkept⟩

/-- Nothing is owed for a request that arrives. -/
theorem Followed.arrive {saves : Saves} {s : Service} (h : Followed app saves s) (request : Request) :
    Followed app { saves with requests := saves.requests ++ [request] }
      { s with tasks := s.tasks ++ [request.serve app] } := by
  have hlength : saves.requests.length = s.tasks.length := h.length
  have hnew {i : Nat} (hi : i = s.tasks.length) : saves.pending i = none := h.pending i hi.ge
  have hkeeps (i : Nat) :
      Service.keeps { s with tasks := s.tasks ++ [request.serve app] } i = s.keeps i := by
    show (s.tasks ++ [request.serve app])[i]?.bind _ = s.tasks[i]?.bind _
    rcases Nat.lt_trichotomy i s.tasks.length with hi | rfl | hi
    · rw [List.getElem?_append_left hi]
    · simpa using keeps_of_paying (paying_serve request)
    · rw [List.getElem?_eq_none (by simp; omega), List.getElem?_eq_none (by omega)]
  refine ⟨by simp [hlength], h.recovering, fun i other task hother htask => ?_, fun i hi => ?_,
    h.named, ?_⟩
  · change (saves.requests ++ [request])[i]? = _ at hother
    change (s.tasks ++ [request.serve app])[i]? = _ at htask
    rcases Nat.lt_or_ge i s.tasks.length with hi | hi
    · rw [List.getElem?_append_left (hlength ▸ hi)] at hother
      rw [List.getElem?_append_left hi] at htask
      exact h.tasks i other task hother htask
    · rw [List.getElem?_append_right (hlength ▸ hi), hlength] at hother
      rw [List.getElem?_append_right hi] at htask
      obtain ⟨hzero, -⟩ := List.getElem?_eq_some_iff.mp hother
      have hi : i - s.tasks.length = 0 := by simpa using hzero
      rw [hi] at hother htask
      obtain rfl := Option.some.inj hother
      obtain rfl := Option.some.inj htask
      refine ⟨[], paying_serve request, fun _ => rfl, fun save hsave => ?_⟩
      cases (h.pending i (by omega)).symm.trans hsave
  · exact h.pending i (by simp at hi; omega)
  · unfold PreImageKept
    simp only [hkeeps]
    exact h.kept

/-- Every step that cuts no save short keeps to it. -/
theorem Followed.step {state state' : Saves × Service} {event : Event}
    (h : Followed app state.1 state.2) (hquiet : UncutSaves state event state')
    (hstep : Recording (Step app outside) savesAfter state event state') :
    Followed app state'.1 state'.2 := by
  obtain ⟨saves, s⟩ := state
  obtain ⟨saves', s'⟩ := state'
  obtain ⟨hstep, hsaves⟩ := hstep
  obtain rfl : saves' = savesAfter saves s event s' := hsaves
  cases hstep with
  | arrive request hserving _ => exact h.arrive request
  | task hserving htask hanswer => exact h.task htask hanswer hquiet
  | @recover β c k r world hrecovering hanswer =>
    obtain ⟨hwrites, hrest⟩ := h.recovering _ hrecovering
    have haudit := answer_audit outside hanswer
    have hprevious := answer_adminPrevious_of_not outside
      (fun heq => (hwrites _ heq).2.1 rfl) hanswer
    refine ⟨h.length, ?_, fun i request task hrequest htask => ?_, h.pending, fun save hsave =>
      (h.named save hsave).imp_left (·.mono haudit), ?_⟩
    · rintro p ⟨⟩
      exact hrest r
    · obtain ⟨owed, howing, hnone, hfinishes⟩ := h.tasks i request task hrequest htask
      exact ⟨owed, howing, hnone, fun save hsave =>
        (hfinishes save hsave).imp_right (Finishes.mono haudit)⟩
    · exact h.kept.imp_left fun ⟨hnone, hkept⟩ =>
        ⟨hnone, fun before hbefore => hprevious.trans (hkept before hbefore)⟩
  | again _ =>
    refine ⟨h.length, ?_, h.tasks, h.pending, h.named, h.kept⟩
    rintro p ⟨⟩
    exact saveless_recoverNext
  | recovered _ => exact ⟨h.length, nofun, h.tasks, h.pending, h.named, h.kept⟩
  | gaveUp _ => exact ⟨h.length, nofun, h.tasks, h.pending, h.named, h.kept⟩
  | die =>
    have hpending : ∀ i, saves.pending i = none := hquiet
    refine .boot s.world (fun save hsave => (h.named save hsave).resolve_right ?_) ?_
    · rintro ⟨i, hi⟩
      cases (hpending i).symm.trans hi
    · rcases h.kept with ⟨-, hkept⟩ | ⟨i, before, -, hkeeps, -⟩
      · exact hkept
      · obtain ⟨task, htask, hkeeps⟩ := Option.bind_eq_some_iff.mp hkeeps
        obtain ⟨request, hrequest⟩ : ∃ request, saves.requests[i]? = some request :=
          ⟨_, List.getElem?_eq_getElem (h.length ▸ (List.getElem?_eq_some_iff.mp htask).1)⟩
        obtain ⟨owed, howing, hnone, -⟩ := h.tasks i request task hrequest htask
        obtain rfl := hnone (hpending i)
        cases hkeeps.symm.trans (keeps_of_paying howing)

/-- And tells every change of a document. -/
theorem Followed.savesTell {state state' : Saves × Service} {event : Event}
    (h : Followed app state.1 state.2) (hquiet : UncutSaves state event state')
    (hstep : Recording (Step app outside) savesAfter state event state') :
    SavesTell state event state' := by
  obtain ⟨saves, s⟩ := state
  obtain ⟨saves', s'⟩ := state'
  obtain ⟨hstep, hsaves⟩ := hstep
  obtain rfl : saves' = savesAfter saves s event s' := hsaves
  cases hstep with
  | @task i β c k r world hserving htask hanswer =>
    obtain ⟨request, hrequest⟩ : ∃ request, saves.requests[i]? = some request :=
      ⟨_, List.getElem?_eq_getElem (h.length ▸ (List.getElem?_eq_some_iff.mp htask).1)⟩
    have hdocument : c.write = some .document → r.isOk = true ∨ world = s.world := hquiet.document
    refine ⟨?_, ?_⟩
    · by_cases hwrites : c.writesTo = some .candidate
      · cases c with
        | findAndReplaceCandidate candidate =>
          rcases hdocument rfl with hok | rfl
          · cases r with
            | error e => cases hok
            | ok b =>
              have hexec : s.world.replaceCandidate outside candidate = (.ok b, world) := hanswer.ok
              refine Or.inr ⟨request.sender, candidate, ?_, ?_⟩
              · simp [savesAfter, Saves.made, hrequest, Call.stores]
              · unfold World.replaceCandidate at hexec
                split at hexec
                · exact (Prod.mk.inj hexec).2 ▸ rfl
                · cases hexec
          · exact Or.inl rfl
        | cluster call =>
          change (if call.writes then some Collection.cluster else none) = _ at hwrites
          split at hwrites <;> cases hwrites
        | _ => cases hwrites
      · exact Or.inl (answer_candidate_of_not outside hwrites hanswer)
    · by_cases hwrites : c.writesTo = some .admin
      · cases c with
        | replaceAdmin values => exact Or.inr (Or.inl rfl)
        | findAndReplaceAdmin values =>
          rcases hdocument rfl with hok | rfl
          · cases r with
            | error e => cases hok
            | ok b =>
              obtain rfl : { s.world with admin := some values } = world := (Prod.mk.inj hanswer.ok).2
              refine Or.inr (Or.inr ⟨request.sender, values, ?_, rfl⟩)
              simp [savesAfter, Saves.made, hrequest, Call.stores]
          · exact Or.inl rfl
        | cluster call =>
          change (if call.writes then some Collection.cluster else none) = _ at hwrites
          split at hwrites <;> cases hwrites
        | _ => cases hwrites
      · exact Or.inl (answer_admin_of_not outside hwrites hanswer)
  | @recover β c k r world hrecovering hanswer =>
    obtain ⟨hwrites, -⟩ := h.recovering _ hrecovering
    exact ⟨Or.inl (answer_candidate_of_not outside (fun heq => (hwrites _ heq).2.2 rfl) hanswer),
      Or.inl (answer_admin_of_not outside (fun heq => (hwrites _ heq).1 rfl) hanswer)⟩
  | _ => exact ⟨Or.inl rfl, Or.inl rfl⟩

/-- Nothing has been saved yet. -/
def Saves.empty : Saves := ⟨[], [], fun _ => none⟩

/-- Every call goes through, nothing is reverted, and the process does not die. -/
def smooth (before : Saves × Service) (event : Event) (_ : Saves × Service) : Bool :=
  match event with
  | .call _ c r => r.isOk && before.1.requests.all (fun request => request.reverts.isNone) &&
      (c.adminStored.isNone || before.2.tasks.all fun task => (keeps task).isNone)
  | .die => false
  | _ => true

theorem uncutSaves_of_smooth {before after : Saves × Service} {event : Event}
    (h : smooth before event after = true) : UncutSaves before event after := by
  cases event with
  | call task c r =>
    simp only [smooth, Bool.and_eq_true, Bool.or_eq_true, List.all_eq_true,
      Option.isNone_iff_eq_none] at h
    obtain ⟨⟨hok, hreverts⟩, hordered⟩ := h
    refine ⟨fun _ => Or.inl hok, fun _ _ _ => hok, fun hstored => ?_,
      fun i _ request hrequest name hname => ?_⟩
    · exact hordered.resolve_left fun hnone => by simp [hnone] at hstored
    · cases (hreverts request (List.mem_of_getElem? hrequest)).symm.trans hname
  | die => cases h
  | _ => trivial

end Apchi.Pipeline
