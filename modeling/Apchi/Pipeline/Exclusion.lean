import Apchi.Pipeline.Lifetime
import Apchi.Pipeline.Recovery

/-!
# At most one Apply is in flight

Each route that starts an Apply checks that nothing is in flight and inserts its record later, with
other calls between.  In a run in which no record is inserted while another request is between its
own check and its insertion, at most one record is ever in flight, and at most one engine writes the
Cluster.
-/

namespace Apchi.Pipeline

open Lib Prog

/-! ### The check before the insertion -/

/-- The call inserts no record. -/
def Call.insertsNone {β : Type} (c : Call β) : Prop := ∀ id, c.kind ≠ .insert id

/-- A check of what is in flight, gone on with to an insertion only where nothing is. -/
def Checks : {β : Type} → Call β → (Except Error β → PipelineProg Unit) → Prop
  | _, .findInFlight, k => ∀ r, r ≠ .ok none → (k r).All Call.insertsNone
  | _, _, _ => False

/-- The request has its check before it, or inserts no record. -/
abbrev ChecksFirst (p : PipelineProg Unit) : Prop := p.Until Call.insertsNone Checks

/-- A record is inserted only while no other request is between its check and its insertion. -/
def InsertsAlone (before : (Nat → Option String) × Service) (event : Event)
    (after : (Nat → Option String) × Service) : Prop :=
  before.2.world.ids ≠ after.2.world.ids → ∀ j task, before.2.tasks[j]? = some task →
    event.task ≠ some j → ChecksFirst task

section checks

variable {app : App}

theorem insertsNone_of_ofKind {α : Type} {p : PipelineProg α}
    (h : OfKind (fun kind => ∀ id, kind ≠ .insert id) p) : p.All Call.insertsNone := h

theorem runApply_insertsNone (kind : EngineKind) (id actor : String) :
    (runApply app kind id actor).All Call.insertsNone :=
  insertsNone_of_ofKind (ofKind_runApply nofun nofun nofun nofun nofun kind actor)

theorem checksFirst_refuseInFlight (text : ApplyRecord → String) (f : Unit → PipelineProg Unit) :
    ChecksFirst ((refuseInFlight text).bind f) := by
  refine Or.inl fun r hr => ?_
  rcases r with e | _ | running
  · trivial
  · exact absurd rfl hr
  · trivial

/-- Every request has its check before it when it arrives. -/
theorem checksFirst_serve (request : Request) : ChecksFirst (request.serve app) := by
  have hquiet (h : request.uuid = none) : ChecksFirst (request.serve app) :=
    All.until (insertsNone_of_ofKind (ofKind_serve nofun nofun nofun nofun request (by simp [h])))
  have hgated (f : Unit → PipelineProg Unit) (text : ApplyRecord → String) :
      ChecksFirst (mutationsEnabled.bind fun _ => (refuseInFlight text).bind f) :=
    Until.after (insertsNone_of_ofKind (ofKind_mutationsEnabled nofun)) fun _ =>
      checksFirst_refuseInFlight text f
  cases request with
  | startApply uuid actor => exact hgated _ _
  | startAdminApply uuid actor => exact hgated _ _
  | adopt uuid actor through =>
    show ChecksFirst (Prog.bind (admitAdoption app through) _)
    simp only [admitAdoption, bind_eq, Prog.bind_assoc]
    exact Until.after (all_perform nofun) fun _ => Until.after (insertsNone_of_ofKind (ofKind_refuseIf _ _ _)) fun _ =>
      Until.after (all_perform nofun) fun _ => Until.after (insertsNone_of_ofKind (ofKind_refuseIf _ _ _)) fun _ =>
        checksFirst_refuseInFlight _ _
  | _ => exact hquiet rfl

/-- Whoever is about to insert a record is past its check. -/
theorem not_checksFirst_of_insert {β : Type} {c : Call β}
    {k : Except Error β → PipelineProg Unit} {id : String} (hkind : c.kind = .insert id) :
    ¬ ChecksFirst (.call c k) := by
  rintro (hchecks | ⟨hnone, -⟩)
  · cases c with
    | findInFlight => cases hkind
    | _ => exact hchecks
  · exact hnone id hkind

end checks

/-! ### How many are in flight -/

/-- How many records are in flight. -/
def World.inFlightCount (world : World) : Nat := world.applies.countP ApplyRecord.inFlight

section count

variable {outside : Outside} {world world' : World} {β : Type} {c : Call β} {r : Except Error β}

/-- No call brings a record back into flight: it enters a stage that is no ending only for a record
that is in flight. -/
def Call.reopensNone (c : Call β) (world : World) : Prop :=
  ∀ id stage, c.kind = .apply id → c.entering = some stage → stage ∉ TERMINAL → Live id world

theorem inFlightCount_le (hunique : world.ids.Nodup) (hinsert : c.insertsNone)
    (hreopens : c.reopensNone world) (hanswer : (worldMachine outside).Answer c world r world') :
    world'.inFlightCount ≤ world.inFlightCount := by
  have hchange := answer_recordChange outside hanswer
  unfold World.inFlightCount
  generalize world'.applies = records at hchange
  cases hchange with
  | unchanged => exact le_rfl
  | insert hkind _ => exact absurd hkind (hinsert _)
  | @update id change hkind _ hstage =>
    unfold updateRecord
    rw [List.countP_map]
    refine List.countP_mono_left fun record hrecord hlive => ?_
    change (if record.id = id then change record else record).inFlight = true at hlive
    split at hlive
    · next hid =>
      subst hid
      have hentered := hstage record
      unfold ApplyRecord.inFlight at hlive
      cases hc : c.entering with
      | none => simpa [ApplyRecord.inFlight, hentered, hc] using hlive
      | some stage =>
        have hopen : stage ∉ TERMINAL := by simpa [hentered, hc] using hlive
        obtain ⟨found, hfound, hin⟩ := hreopens record.id stage hkind hc hopen
        rw [World.record_of_mem hunique hrecord] at hfound
        cases hfound
        exact hin
    · exact hlive

/-- The check finds nothing in flight. -/
theorem inFlightCount_of_check {k : Except Error β → PipelineProg Unit} (hchecks : Checks c k)
    (hpast : ¬ ChecksFirst (k r)) (hanswer : (worldMachine outside).Answer c world r world') :
    world'.inFlightCount = 0 := by
  cases c with
  | findInFlight =>
    by_cases hr : r = .ok none
    · subst hr
      have hfound : (Except.ok (world.applies.find? ApplyRecord.inFlight), world) = (.ok none, world') :=
        hanswer.ok
      obtain ⟨hnone, rfl⟩ := Prod.mk.inj hfound
      refine List.countP_eq_zero.mpr fun record hrecord => ?_
      simpa using List.find?_eq_none.mp (Except.ok.inj hnone) record hrecord
    · exact absurd (All.until (hchecks r hr)) hpast
  | _ => exact hchecks.elim

end count

/-! ### The service -/

variable {app : App} {outside : Outside}

/-- Everything may come of a call. -/
def anyAnswer : Answers Call World := fun _ _ _ _ _ => True

/-- What holds of the service in every run in which records are inserted alone. -/
structure Exclusive (app : App) (outside : Outside) (state : (Nat → Option String) × Service) :
    Prop where
  owned : Ownership app Call.recordless (Tenant outside anyAnswer False) state.1 state.2
  once : state.2.world.inFlightCount ≤ 1
  clear : ∀ (i : Nat) (task : PipelineProg Unit), state.2.tasks[i]? = some task → ¬ ChecksFirst task →
    state.2.world.inFlightCount = 0
  recovering : ∀ p, state.2.recovering = some p → p.All fun c => c.settles ∧ c.insertsNone

section step

variable {owner : Nat → Option String} {s s' : Service} {event : Event}

theorem discipline_anyAnswer (app : App) : Discipline app outside Call.recordless anyAnswer (InLifetime False)
    (Tenant outside anyAnswer False) :=
  discipline_lifetime False.elim id opening_recordless

theorem recoverNext_settles_insertsNone :
    (recoverNext app).All fun c => c.settles ∧ c.insertsNone := by
  refine (recoverNext_settles app).and (insertsNone_of_ofKind ?_)
  refine All.bind (all_perform nofun) fun found => ?_
  cases found with
  | none => trivial
  | some record =>
    have hfail : OfKind (fun kind => ∀ id, kind ≠ .insert id)
        (failApply record.id INTERRUPTED_REASON) := ofKind_failApply nofun _
    refine All.bind (All.bind (all_perform nofun) fun _ => All.bind hfail fun _ =>
      All.bind (insertsNone_of_ofKind (ofKind_audited nofun _)) fun _ => ?_) fun _ => trivial
    show Prog.All _ (if ROLLED_BACK_FROM.contains record.stage then _ else _ : PipelineProg Unit)
    split
    · exact insertsNone_of_ofKind (ofKind_restoreAfterInterruption nofun nofun nofun nofun nofun)
    · trivial

theorem Exclusive.boot {world : World} (hunique : world.ids.Nodup)
    (honce : world.inFlightCount ≤ 1) :
    Exclusive app outside (fun _ => none, Service.boot app world) where
  owned := .boot world hunique
  once := honce
  clear := nofun
  recovering := by
    rintro p ⟨⟩
    exact recoverNext_settles_insertsNone

section task

variable {i : Nat} {β : Type} {c : Call β} {k : Except Error β → PipelineProg Unit}
  {r : Except Error β} {world : World}

/-- What an owner or a request without a record may do brings no record back into flight. -/
theorem Exclusive.reopensNone (h : Exclusive app outside (owner, s))
    (htask : s.tasks[i]? = some (.call c k))
    (hanswer : (worldMachine outside).Answer c s.world r world) : c.reopensNone s.world := by
  intro id stage hkind hentering hopen
  rcases h.owned.guarantee (discipline_anyAnswer app) htask ⟨hanswer, trivial⟩ id hkind with
    hlive | haudit | ⟨-, hover⟩
  · exact hlive
  · cases c with
    | insertAudit events => cases hkind
    | _ => exact haudit.elim
  · exact absurd (hover stage hentering).2 hopen

/-- A call that inserts nothing: who is past its check after it was so before, or has just found
nothing in flight. -/
theorem Exclusive.task_insertsNone (h : Exclusive app outside (owner, s))
    (htask : s.tasks[i]? = some (.call c k))
    (hanswer : (worldMachine outside).Answer c s.world r world) (hinsert : c.insertsNone) :
    world.inFlightCount ≤ 1 ∧ ∀ (j : Nat) (task : PipelineProg Unit), (s.tasks.set i (k r))[j]? = some task →
      ¬ ChecksFirst task → world.inFlightCount = 0 := by
  have hle : world.inFlightCount ≤ s.world.inFlightCount :=
    inFlightCount_le h.owned.unique hinsert (h.reopensNone htask hanswer) hanswer
  have hi : i < s.tasks.length := (List.getElem?_eq_some_iff.mp htask).1
  have honce : s.world.inFlightCount ≤ 1 := h.once
  refine ⟨by omega, fun j task hj hpast => ?_⟩
  by_cases heq : j = i
  · subst heq
    rw [List.getElem?_set_self hi] at hj
    cases hj
    by_cases hbefore : ChecksFirst (.call c k)
    · rcases hbefore with hchecks | ⟨-, hrest⟩
      · exact inFlightCount_of_check hchecks hpast hanswer
      · exact absurd (hrest r) hpast
    · have hclear : s.world.inFlightCount = 0 := h.clear j _ htask hbefore
      omega
  · rw [List.getElem?_set_ne (Ne.symm heq)] at hj
    have hclear : s.world.inFlightCount = 0 := h.clear j task hj hpast
    omega

/-- An insertion: nothing was in flight, and nobody else is past its check. -/
theorem Exclusive.task_inserts (h : Exclusive app outside (owner, s))
    (htask : s.tasks[i]? = some (.call c k))
    (hanswer : (worldMachine outside).Answer c s.world r world) {id : String}
    (hkind : c.kind = .insert id)
    (halone : s.world.ids ≠ world.ids → ∀ j task, s.tasks[j]? = some task → some i ≠ some j →
      ChecksFirst task) :
    world.inFlightCount ≤ 1 ∧ ∀ (j : Nat) (task : PipelineProg Unit), (s.tasks.set i (k r))[j]? = some task →
      ¬ ChecksFirst task → world.inFlightCount = 0 := by
  have hclear : s.world.inFlightCount = 0 := h.clear i _ htask (not_checksFirst_of_insert hkind)
  have hi : i < s.tasks.length := (List.getElem?_eq_some_iff.mp htask).1
  have hchange := answer_recordChange outside hanswer
  unfold World.inFlightCount World.ids at *
  generalize world.applies = records at *
  cases hchange with
  | unchanged => exact ⟨by omega, fun _ _ _ _ => hclear⟩
  | update change hupdate _ _ => exact absurd (hkind.symm.trans hupdate) nofun
  | @insert record _ _ =>
    refine ⟨?_, fun j task hj hpast => ?_⟩
    · rw [List.countP_append, hclear, Nat.zero_add]
      exact List.countP_le_length
    · have hchecks : ChecksFirst task := by
        by_cases heq : j = i
        · subst heq
          rw [List.getElem?_set_self hi] at hj
          cases hj
          -- The request goes on as its Apply, or not at all.
          have hlaunch := h.owned.launches (discipline_anyAnswer app) htask ⟨hanswer, trivial⟩ hkind
          obtain ⟨_, -, -, -, ⟨e, -, hraise⟩ | ⟨-, ⟨kind, actor, hrun⟩, -⟩⟩ := hlaunch.inv r
          · rw [hraise]
            trivial
          · rw [hrun]
            exact All.until (runApply_insertsNone _ _ _)
        · rw [List.getElem?_set_ne (Ne.symm heq)] at hj
          exact halone (by simp) j task hj fun hij => heq (Option.some.inj hij).symm
      exact absurd hchecks hpast

end task

/-- Every step that inserts a record alone, or none, keeps at most one record in flight. -/
theorem Exclusive.step {state state' : (Nat → Option String) × Service}
    (h : Exclusive app outside state) (hadmits : InsertsAlone state event state')
    (hstep : Recording (Step app outside) ownerAfter state event state') :
    Exclusive app outside state' := by
  obtain ⟨owner, s⟩ := state
  obtain ⟨owner', s'⟩ := state'
  obtain ⟨hstep, howner⟩ := hstep
  obtain rfl : owner' = ownerAfter owner s event s' := howner
  have hadmitted : event.admitted anyAnswer s.world s'.world := by
    unfold Event.admitted
    split <;> trivial
  have howned := h.owned.step (discipline_anyAnswer app) hadmitted hstep
  cases hstep with
  | arrive request hserving hfresh =>
    refine ⟨howned, h.once, fun i task htask hpast => ?_, h.recovering⟩
    rcases List.mem_append.mp (List.mem_of_getElem? htask) with hmem | hmem
    · obtain ⟨j, hj⟩ := List.getElem?_of_mem hmem
      exact h.clear j task hj hpast
    · obtain rfl := List.mem_singleton.mp hmem
      exact absurd (checksFirst_serve request) hpast
  | @task i β c k r world hserving htask hanswer =>
    have hrecovering (p : PipelineProg (Option String)) (hp : s.recovering = some p) :
        p.All fun c => c.settles ∧ c.insertsNone := nomatch hserving.symm.trans hp
    by_cases hinsert : c.insertsNone
    · obtain ⟨honce, hclear⟩ := h.task_insertsNone htask hanswer hinsert
      exact ⟨howned, honce, hclear, hrecovering⟩
    · obtain ⟨id, hkind⟩ := not_forall_not.mp hinsert
      obtain ⟨honce, hclear⟩ := h.task_inserts htask hanswer hkind hadmits
      exact ⟨howned, honce, hclear, hrecovering⟩
  | @recover β c k r world hrecovering hanswer =>
    obtain ⟨⟨hsettles, hinsert⟩, hrest⟩ := h.recovering _ hrecovering
    have hle := inFlightCount_le h.owned.unique hinsert
      (fun _ stage _ hentering hopen => absurd (hsettles stage hentering) hopen) hanswer
    refine ⟨howned, hle.trans h.once, fun i task htask hpast => ?_, ?_⟩
    · exact Nat.le_zero.mp (hle.trans (h.clear i task htask hpast).le)
    · rintro p ⟨⟩
      exact hrest r
  | again _ =>
    refine ⟨howned, h.once, h.clear, ?_⟩
    rintro p ⟨⟩
    exact recoverNext_settles_insertsNone
  | recovered _ => exact ⟨howned, h.once, h.clear, nofun⟩
  | gaveUp _ => exact ⟨howned, h.once, h.clear, nofun⟩
  | die => exact .boot h.owned.unique h.once

end step

/-! ### Who writes the Cluster -/

/-- The next call of recovery writes the Cluster, or that of a request that owns a record. -/
def EngineWrites (state : (Nat → Option String) × Service) : Option Nat → Prop
  | none => ∃ (β : Type) (c : Call β) (k : Except Error β → PipelineProg (Option String)),
      state.2.recovering = some (.call c k) ∧ c.kind = .clusterWrite
  | some i => state.1 i ≠ none ∧ state.2.nextKind i = some .clusterWrite

theorem Service.nextKind_inv {s : Service} {i : Nat} {kind : CallKind}
    (h : s.nextKind i = some kind) : s.recovering = none ∧
      ∃ (β : Type) (c : Call β) (k : Except Error β → PipelineProg Unit),
        s.tasks[i]? = some (.call c k) ∧ c.kind = kind := by
  unfold Service.nextKind at h
  split at h
  · next hserving htask => exact ⟨hserving, _, _, _, htask, Option.some.inj h⟩
  · cases h

/-- Whoever owns a record and is about to write the Cluster has its record in flight. -/
theorem Exclusive.live_of_writes {state : (Nat → Option String) × Service}
    (h : Exclusive app outside state) {i : Nat} (hwrites : EngineWrites state (some i)) :
    ∃ id, state.1 i = some id ∧ Live id state.2.world := by
  obtain ⟨howns, hnext⟩ := hwrites
  obtain ⟨id, hid⟩ := Option.ne_none_iff_exists'.mp howns
  obtain ⟨-, β, c, k, htask, hkind⟩ := Service.nextKind_inv hnext
  have hrole := h.owned.tasks i _ htask
  rw [hid] at hrole
  -- Its next call keeps within the lifetime of its record, whatever comes of it.
  have hkeeps := (hrole _ rfl (.error unreachable) _ ⟨.lost unreachable, trivial⟩).1
  refine ⟨id, hid, ?_⟩
  rcases hkeeps.2 with hlive | haudit | ⟨happly, -⟩
  · exact hlive
  · cases c with
    | insertAudit events => cases hkind
    | _ => exact haudit.elim
  · exact absurd (hkind.symm.trans happly) nofun

/-- Two records in flight are one where at most one is. -/
theorem eq_of_live {world : World} (honce : world.inFlightCount ≤ 1)
    {id other : String} (h : Live id world) (h' : Live other world) : id = other := by
  obtain ⟨record, hrecord, hlive⟩ := h
  obtain ⟨record', hrecord', hlive'⟩ := h'
  obtain ⟨hmem, rfl⟩ := World.mem_of_record hrecord
  obtain ⟨hmem', rfl⟩ := World.mem_of_record hrecord'
  unfold World.inFlightCount at honce
  rw [List.countP_eq_length_filter] at honce
  have hin := List.mem_filter.mpr ⟨hmem, hlive⟩
  have hin' := List.mem_filter.mpr ⟨hmem', hlive'⟩
  revert hin hin' honce
  rcases List.filter ApplyRecord.inFlight world.applies with _ | ⟨a, _ | ⟨b, rest⟩⟩ <;>
    intro honce hin hin'
  · cases hin
  · rw [List.mem_singleton.mp hin, List.mem_singleton.mp hin']
  · simp at honce

/-- At most one Apply is in flight: in every run from an empty database in which no record is
inserted while another request is between its check and its insertion, at most one record is in
flight and at most one engine writes the Cluster. -/
theorem one_apply_in_flight (world : World) (hempty : world.applies = [])
    {state : (Nat → Option String) × Service}
    (hrun : Run (Recording (Step app outside) ownerAfter) InsertsAlone
      (fun _ => none, Service.boot app world) state) :
    state.2.world.inFlightCount ≤ 1 ∧
      ∀ a b, EngineWrites state a → EngineWrites state b → a = b := by
  have hstart : Exclusive app outside (fun _ => none, Service.boot app world) :=
    .boot (by simp [World.ids, hempty]) (by simp [World.inFlightCount, hempty])
  have h := hrun.invariant hstart fun _ _ _ h hadmits hstep => h.step hadmits hstep
  refine ⟨h.once, fun a b ha hb => ?_⟩
  have hserving {i : Nat} (hi : EngineWrites state (some i)) : state.2.recovering = none :=
    (Service.nextKind_inv hi.2).1
  rcases a with _ | i <;> rcases b with _ | j
  · rfl
  · obtain ⟨_, _, _, hrecovering, -⟩ := ha
    cases (hserving hb).symm.trans hrecovering
  · obtain ⟨_, _, _, hrecovering, -⟩ := hb
    cases (hserving ha).symm.trans hrecovering
  · obtain ⟨id, hi, hlive⟩ := h.live_of_writes ha
    obtain ⟨other, hj, hlive'⟩ := h.live_of_writes hb
    obtain rfl := eq_of_live h.once hlive hlive'
    rw [h.owned.distinct i j id hi hj]

/-- A record is inserted by the only request there is. -/
def InsertsFirst (before : (Nat → Option String) × Service) (event : Event)
    (after : (Nat → Option String) × Service) : Prop :=
  before.2.world.ids = after.2.world.ids ∨ before.2.tasks.length = 1 ∧ event.task = some 0

instance (before after : (Nat → Option String) × Service) (event : Event) :
    Decidable (InsertsFirst before event after) := inferInstanceAs (Decidable (_ ∨ _))

theorem InsertsFirst.alone {before after : (Nat → Option String) × Service} {event : Event}
    (h : InsertsFirst before event after) : InsertsAlone before event after := by
  intro hids j task htask hother
  obtain ⟨hlength, hevent⟩ := h.resolve_left hids
  have hj : j < before.2.tasks.length := (List.getElem?_eq_some_iff.mp htask).1
  obtain rfl : j = 0 := by omega
  exact absurd hevent hother

/-- One Apply is writing the Cluster, and a second request is refused. -/
theorem one_apply_in_flight_refused : ∃ state : (Nat → Option String) × Service,
    Run (Recording (Step smallApp quietOutside) ownerAfter) InsertsAlone
      (fun _ => none, Service.boot smallApp freshWorld) state ∧
    state.2.tasks.length = 2 ∧ state.2.world.inFlightCount = 1 ∧ EngineWrites state (some 0) ∧
    state.2.world.inFlightCount ≤ 1 ∧
    ∀ a b, EngineWrites state a → EngineWrites state b → a = b := by
  obtain ⟨state, hrun, hplayed⟩ := playAll_reaches smallApp quietOutside ownerAfter InsertsFirst
    (servingOne (.startApply "a1" "bob") ++ List.replicate 17 (.task 0) ++
      [.arrive (.startApply "a2" "eve"), .task 1, .task 1])
    (fun _ => none, Service.boot smallApp freshWorld)
    (fun state => state.2.tasks.length == 2 && state.2.world.inFlightCount == 1 &&
      (state.1 0).isSome && state.2.nextKind 0 == some .clusterWrite)
    (by decide +kernel)
  simp only [Bool.and_eq_true, beq_iff_eq] at hplayed
  obtain ⟨⟨⟨htasks, hcount⟩, howner⟩, hnext⟩ := hplayed
  have halone := hrun.mono fun _ _ _ h => h.alone
  exact ⟨state, halone, htasks, hcount, ⟨Option.isSome_iff_ne_none.mp howner, hnext⟩,
    one_apply_in_flight freshWorld rfl halone⟩

/-- Two requests check before either inserts: both records are in flight, and both engines are
writing the Cluster. -/
theorem two_applies_in_flight : ∃ state : (Nat → Option String) × Service,
    Run (Recording (Step smallApp quietOutside) ownerAfter) (fun _ _ _ => True)
      (fun _ => none, Service.boot smallApp freshWorld) state ∧
    state.2.world.inFlightCount = 2 ∧ EngineWrites state (some 0) ∧ EngineWrites state (some 1) := by
  obtain ⟨state, hrun, hplayed⟩ := playAll_reaches smallApp quietOutside ownerAfter
    (fun _ _ _ => True)
    (servingOne (.startApply "a1" "bob") ++ [.arrive (.startApply "a2" "eve")] ++
      List.replicate 3 (.task 0) ++ List.replicate 3 (.task 1) ++ List.replicate 14 (.task 0) ++
      List.replicate 14 (.task 1))
    (fun _ => none, Service.boot smallApp freshWorld)
    (fun state => state.2.world.inFlightCount == 2 && (state.1 0).isSome && (state.1 1).isSome &&
      state.2.nextKind 0 == some .clusterWrite && state.2.nextKind 1 == some .clusterWrite)
    (by decide +kernel)
  simp only [Bool.and_eq_true, beq_iff_eq] at hplayed
  obtain ⟨⟨⟨⟨hcount, howner⟩, howner'⟩, hnext⟩, hnext'⟩ := hplayed
  exact ⟨state, hrun, hcount, ⟨Option.isSome_iff_ne_none.mp howner, hnext⟩,
    ⟨Option.isSome_iff_ne_none.mp howner', hnext'⟩⟩

end Apchi.Pipeline
