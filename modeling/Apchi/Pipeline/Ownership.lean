import Apchi.Lib.Rely
import Apchi.Pipeline.Play
import Apchi.Pipeline.Records

/-!
# Whose record it is

A request names no record until it has inserted one.  From then on it is an Apply, the record is
its own, and no other request ever names it: an id that is taken is refused, so two requests never
insert the same record, not even when they draw the same uuid.
-/

namespace Apchi.Pipeline

open Lib Prog

variable (app : App)

/-! ### A request, and the Apply it starts -/

namespace Request

/-- The engine of the Apply a request starts. -/
def engine : Request → EngineKind
  | startAdminApply .. => .admin
  | _ => .operator

/-- Who sent a request that starts an Apply. -/
def actor : Request → String
  | startApply _ actor | startAdminApply _ actor | adopt _ actor _ => actor
  | _ => SYSTEM_ACTOR

/-- What a request does before it has a record; it comes to the Snapshot the record is based on. -/
def opening : Request → PipelineProg (Option Nat)
  | startApply _ _ => do
      mutationsEnabled
      refuseInFlight frozenText
      let candidate ← loadCandidate
      pure candidate.baseSnapshot
  | startAdminApply _ _ => do
      mutationsEnabled
      refuseInFlight frozenText
      let latest ← call .findLatestSnapshot
      pure (latest.map Snapshot.number)
  | adopt _ actor through => do
      let stored ← admitAdoption app through
      let _ ← saveAdmin actor stored.adminValues
      let candidate ← loadCandidate
      saveCandidate actor (stageDiscovery stored candidate)
      pure (stageDiscovery stored candidate).baseSnapshot
  | request => do
      request.serve app
      pure none

/-- The record a request inserts, and the Apply that follows. -/
def launch (request : Request) (base : Option Nat) : PipelineProg Unit :=
  match request.uuid with
  | some uuid => do
      let record ← createApply uuid base
      runApply app request.engine record.id request.actor
  | none => pure ()

/-- Serving a request is its opening, then its Apply if it starts one. -/
theorem serve_eq (request : Request) :
    request.serve app = (request.opening app).bind fun base => request.launch app base := by
  cases request with
  | startApply uuid actor =>
    simp only [opening, serve, bind_eq, pure_eq, Prog.bind_assoc, ret_bind]
    rfl
  | startAdminApply uuid actor =>
    simp only [opening, serve, bind_eq, pure_eq, Prog.bind_assoc, ret_bind]
    rfl
  | adopt uuid actor through =>
    simp only [opening, serve, bind_eq, pure_eq, Prog.bind_assoc, ret_bind]
    rfl
  | _ =>
    simp only [opening, bind_eq, pure_eq, Prog.bind_assoc, ret_bind]
    exact (bind_ret _).symm

end Request

/-- What comes before the record touches no record. -/
theorem ofKind_opening {P : CallKind → Prop} (hstore : P .store) (hread : P .clusterRead)
    (hwrite : P .clusterWrite) (hmaintenance : P .maintenance) (request : Request) :
    OfKind P (request.opening app) := by
  -- A request that starts no Apply is served in its opening.
  have hserved (h : request.uuid = none) :
      OfKind P ((request.serve app).bind fun _ => Prog.ret (none : Option Nat)) :=
    All.bind (ofKind_serve hstore hread hwrite hmaintenance request (by simp [h]))
      fun _ => trivial
  cases request with
  | startApply uuid actor =>
    exact All.bind (ofKind_mutationsEnabled hstore) fun _ =>
      All.bind (ofKind_refuseInFlight hstore _) fun _ =>
        All.bind (ofKind_loadCandidate hstore) fun _ => trivial
  | startAdminApply uuid actor =>
    exact All.bind (ofKind_mutationsEnabled hstore) fun _ =>
      All.bind (ofKind_refuseInFlight hstore _) fun _ =>
        All.bind (all_perform hstore) fun _ => trivial
  | adopt uuid actor through =>
    exact All.bind (ofKind_admitAdoption hstore hread _) fun _ =>
      All.bind (ofKind_saveAdmin hstore _ _) fun _ =>
        All.bind (ofKind_loadCandidate hstore) fun _ =>
          All.bind (ofKind_saveCandidate hstore _ _) fun _ => trivial
  | _ => exact hserved rfl

/-- A record as it is inserted. -/
def ApplyRecord.fresh (record : ApplyRecord) : Prop :=
  record.stage = .validating ∧ record.history = [⟨.validating, none⟩]

/-- The insertion of a fresh record, gone on with as the Apply of that record. -/
def Launches : {β : Type} → Call β → (Except Error β → PipelineProg Unit) → Prop
  | _, .insertApply record, k => record.fresh ∧
      (∃ kind actor, k (.ok ()) = runApply app kind record.id actor) ∧
      ∀ e, k (.error e) = Prog.raise e
  | _, _, _ => False

/-- A request that has no record yet: calls of `P`, then its Apply if it starts one. -/
abbrev Starting (P : {β : Type} → Call β → Prop) (p : PipelineProg Unit) : Prop :=
  p.Until P (Launches app)

section starting

variable {app} {P : {β : Type} → Call β → Prop}

theorem starting_launch (request : Request) (base : Option Nat) :
    Starting app P (request.launch app base) := by
  unfold Request.launch
  cases request.uuid with
  | none => trivial
  | some uuid => exact Or.inl ⟨⟨rfl, rfl⟩, ⟨_, _, rfl⟩, fun _ => rfl⟩

theorem starting_serve {request : Request} (h : (request.opening app).All P) :
    Starting app P (request.serve app) := by
  rw [request.serve_eq]
  exact Until.after h fun base => starting_launch request base

/-- A call that launches an Apply inserts a record, and that of the Apply. -/
theorem Launches.inv {β : Type} {c : Call β} {k : Except Error β → PipelineProg Unit}
    (h : Launches app c k) (r : Except Error β) : ∃ record : ApplyRecord, record.fresh ∧
      c.kind = .insert record.id ∧ c.entering = none ∧
      ((∃ e, r = .error e ∧ k r = Prog.raise e) ∨
        (∃ b, r = .ok b) ∧ (∃ kind actor, k r = runApply app kind record.id actor) ∧
          ∀ {outside : Outside} {w w' : World}, (worldMachine outside).Answer c w r w' →
            record.id ∉ w.ids ∧ w'.applies = w.applies ++ [record]) := by
  cases c with
  | insertApply record =>
    obtain ⟨hfresh, hrun, hraise⟩ := h
    refine ⟨record, hfresh, rfl, rfl, ?_⟩
    cases r with
    | error e => exact Or.inl ⟨e, rfl, hraise e⟩
    | ok b =>
      refine Or.inr ⟨⟨b, rfl⟩, hrun, fun {outside w w'} hanswer => ?_⟩
      have hinsert : w.insertApply record = (.ok (), w') := hanswer.ok
      unfold World.insertApply at hinsert
      split at hinsert
      · cases hinsert
      · next htaken =>
        obtain ⟨-, rfl⟩ := Prod.mk.inj hinsert
        refine ⟨fun hmem => htaken ?_, rfl⟩
        obtain ⟨found, hfound, hid⟩ := List.mem_map.mp hmem
        exact List.any_eq_true.mpr ⟨found, hfound, by simpa using hid⟩
  | _ => exact h.elim

/-- A record is inserted fresh, or not at all. -/
theorem Launches.applies {outside : Outside} {β : Type} {c : Call β}
    {k : Except Error β → PipelineProg Unit} {r : Except Error β} {w w' : World}
    (h : Launches app c k) (hanswer : (worldMachine outside).Answer c w r w') :
    w'.applies = w.applies ∨ ∃ record : ApplyRecord, record.fresh ∧
      w'.applies = w.applies ++ [record] := by
  rcases hanswer.state with rfl | rfl
  · exact Or.inl rfl
  · cases c with
    | insertApply record =>
      have hinsert : (w.insertApply record).2.applies = w.applies ∨
          (w.insertApply record).2.applies = w.applies ++ [record] := by
        unfold World.insertApply
        split
        · exact Or.inl rfl
        · exact Or.inr rfl
      exact hinsert.imp_right fun happlies => ⟨record, h.1, happlies⟩
    | _ => exact h.elim

end starting

/-! ### What an owner may count on -/

/-- What can come of a call, where more is known of it than that. -/
abbrev answersIf (outside : Outside) (known : Answers Call World) : Answers Call World :=
  fun β c w r w' => (worldMachine outside).Answer c w r w' ∧ known β c w r w'

/-- The call names neither this record nor inserts it. -/
def Call.foreign (id : String) {β : Type} (c : Call β) : Prop :=
  c.kind ≠ .apply id ∧ c.kind ≠ .insert id

/-- The call names no record but this one, and inserts none. -/
def Call.ofOwner (id : String) {β : Type} (c : Call β) : Prop :=
  (∀ other, c.kind = .apply other → other = id) ∧ ∀ other, c.kind ≠ .insert other

theorem Call.ofOwner.foreign {id other : String} {β : Type} {c : Call β} (h : c.ofOwner id)
    (hne : other ≠ id) : c.foreign other :=
  ⟨fun hkind => hne (h.1 other hkind), h.2 other⟩

/-- The record a call inserts. -/
def Call.inserted {β : Type} (c : Call β) : Option String :=
  match c.kind with
  | .insert id => some id
  | _ => none

theorem Call.inserted_of_kind {β : Type} {c : Call β} (h : ∀ id, c.kind ≠ .insert id) :
    c.inserted = none := by
  unfold Call.inserted
  split
  · next id hkind => exact absurd hkind (h id)
  · rfl

/-- Whose record is whose after a step: a request owns the record it has inserted, for as long as
the process lives. -/
def ownerAfter (owner : Nat → Option String) (_ : Service) (event : Event) (_ : Service) :
    Nat → Option String :=
  match event with
  | .call (some i) c (.ok _) =>
      match c.inserted with
      | some id => Function.update owner i (some id)
      | none => owner
  | .die => fun _ => none
  | _ => owner

/-- What the owners of records do: `S` is said of an owner, its program and the world; `P` of the
calls of requests that have no record yet; and `G` of every call anybody makes. -/
structure Discipline (outside : Outside) (P : {β : Type} → Call β → Prop)
    (known G : Answers Call World) (S : String → PipelineProg Unit → World → Prop) : Prop where
  /-- An Apply starts when its record has been inserted. -/
  start : ∀ {record : ApplyRecord} {w : World} (kind : EngineKind) (actor : String), record.fresh →
    w.record record.id = some record → S record.id (runApply app kind record.id actor) w
  /-- It goes on, and names no record but its own. -/
  call : ∀ {id : String} {β : Type} {c : Call β} {k : Except Error β → PipelineProg Unit}
    {r : Except Error β} {w w' : World}, S id (.call c k) w → answersIf outside known _ c w r w' →
      S id (k r) w' ∧ G _ c w r w' ∧ c.ofOwner id
  /-- What others do does not disturb it. -/
  rely : ∀ {id : String} {p : PipelineProg Unit} {β : Type} {c : Call β} {r : Except Error β}
    {w w' : World}, S id p w → c.foreign id → answersIf outside known _ c w r w' → G _ c w r w' →
      S id p w'
  opening : ∀ (request : Request), (request.opening app).All P
  /-- A request without a record names none, and does what it may. -/
  idle : ∀ {β : Type} {c : Call β} {r : Except Error β} {w w' : World}, P c →
    answersIf outside known _ c w r w' → G _ c w r w' ∧ ∀ other, c.foreign other
  launch : ∀ {β : Type} {c : Call β} {k : Except Error β → PipelineProg Unit}
    {r : Except Error β} {w w' : World}, Launches app c k → answersIf outside known _ c w r w' →
      G _ c w r w'

/-- What is said of a request, by the record it owns if it owns one. -/
def Role (P : {β : Type} → Call β → Prop) (S : String → PipelineProg Unit → World → Prop)
    (world : World) (task : PipelineProg Unit) : Option String → Prop
  | none => Starting app P task
  | some id => S id task world

/-- Who owns which record. -/
structure Ownership (P : {β : Type} → Call β → Prop)
    (S : String → PipelineProg Unit → World → Prop) (owner : Nat → Option String) (s : Service) :
    Prop where
  unique : s.world.ids.Nodup
  distinct : ∀ i j id, owner i = some id → owner j = some id → i = j
  taken : ∀ i id, owner i = some id → id ∈ s.world.ids
  later : ∀ i, s.tasks.length ≤ i → owner i = none
  tasks : ∀ i task, s.tasks[i]? = some task → Role app P S s.world task (owner i)
  starting : s.recovering ≠ none → s.tasks = []

/-- What is known of a task's call, if the step is one. -/
def Event.admitted (known : Answers Call World) (event : Event) (w w' : World) : Prop :=
  match event with
  | .call (some _) c r => known _ c w r w'
  | _ => True

section ownership

variable {app} {outside : Outside} {P : {β : Type} → Call β → Prop} {known G : Answers Call World}
  {S : String → PipelineProg Unit → World → Prop} {owner : Nat → Option String} {s s' : Service}
  {event : Event}

/-- An id that is taken stays taken. -/
theorem RecordChange.ids {β : Type} {c : Call β} {w w' : World}
    (h : RecordChange c w w'.applies) {id : String} (hid : id ∈ w.ids) : id ∈ w'.ids := by
  unfold World.ids at *
  generalize w'.applies = records at h
  cases h with
  | unchanged => exact hid
  | update change _ hkept _ => rwa [ids_updateRecord hkept]
  | insert _ _ => simp [hid]

/-- A record that was just inserted is the one its id finds. -/
theorem record_of_inserted {w w' : World} {record : ApplyRecord} (hfresh : record.id ∉ w.ids)
    (happlies : w'.applies = w.applies ++ [record]) : w'.record record.id = some record := by
  have hnone : w.record record.id = none := by
    refine List.find?_eq_none.mpr fun other hother heq => hfresh ?_
    exact List.mem_map.mpr ⟨other, hother, by simpa using heq⟩
  unfold World.record at *
  rw [happlies, List.find?_append, hnone]
  simp

theorem Ownership.boot (world : World) (hunique : world.ids.Nodup) :
    Ownership app P S (fun _ => none) (Service.boot app world) where
  unique := hunique
  distinct := nofun
  taken := nofun
  later _ _ := rfl
  tasks := nofun
  starting _ := rfl

theorem Ownership.arrive (hd : Discipline app outside P known G S)
    (h : Ownership app P S owner s) (hserving : s.recovering = none) (request : Request) :
    Ownership app P S owner { s with tasks := s.tasks ++ [request.serve app] } where
  unique := h.unique
  distinct := h.distinct
  taken := h.taken
  later i hi := h.later i (by simp at hi; omega)
  tasks i task htask := by
    rcases Nat.lt_or_ge i s.tasks.length with hlt | hge
    · rw [List.getElem?_append_left hlt] at htask
      exact h.tasks i task htask
    · rw [List.getElem?_append_right hge, List.getElem?_singleton] at htask
      split at htask
      · cases htask
        rw [h.later i hge]
        exact starting_serve (hd.opening request)
      · cases htask
  starting hrecovering := absurd hserving hrecovering

section call

variable {i : Nat} {β : Type} {c : Call β} {k : Except Error β → PipelineProg Unit}
  {r : Except Error β} {world : World}

/-- The others keep their roles through a call that is foreign to the records they own. -/
theorem Ownership.others (hd : Discipline app outside P known G S) (h : Ownership app P S owner s)
    (hanswer : answersIf outside known _ c s.world r world) (hG : G _ c s.world r world)
    (hforeign : ∀ j id, j ≠ i → owner j = some id → c.foreign id) {j : Nat}
    {task : PipelineProg Unit} (hj : j ≠ i) (htask : s.tasks[j]? = some task) :
    Role app P S world task (owner j) := by
  have hrole := h.tasks j task htask
  cases howner : owner j with
  | none => rwa [howner] at hrole
  | some id =>
    rw [howner] at hrole
    exact hd.rely hrole (hforeign j id hj howner) hanswer hG

/-- A call of a task, when its maker has a role after it and the others keep theirs. -/
theorem Ownership.after {owner' : Nat → Option String} (h : Ownership app P S owner s)
    (hserving : s.recovering = none) (htask : s.tasks[i]? = some (.call c k))
    (hanswer : (worldMachine outside).Answer c s.world r world)
    (howner : ∀ j, j ≠ i → owner' j = owner j)
    (hnew : ∀ id, owner' i = some id → owner i = some id ∨ id ∉ s.world.ids ∧ id ∈ world.ids)
    (hself : Role app P S world (k r) (owner' i))
    (hothers : ∀ j task, j ≠ i → s.tasks[j]? = some task → Role app P S world task (owner j)) :
    Ownership app P S owner' { s with world := world, tasks := s.tasks.set i (k r) } := by
  have hchange := answer_recordChange outside hanswer
  have hi : i < s.tasks.length := (List.getElem?_eq_some_iff.mp htask).1
  -- An id that is new to its owner was nobody's before.
  have hfresh (id : String) (j : Nat) (hj : j ≠ i) (hown : owner' i = some id) :
      owner j ≠ some id := fun hother => by
    rcases hnew id hown with hsame | ⟨hfree, -⟩
    · exact hj (h.distinct j i id hother hsame)
    · exact hfree (h.taken j id hother)
  refine ⟨hchange.nodup h.unique, fun j l id hjid hlid => ?_, fun j id hjid => ?_, fun j hj => ?_,
    fun j task htask => ?_, fun hrecovering => absurd hserving hrecovering⟩
  · by_cases hj : j = i <;> by_cases hl : l = i
    · rw [hj, hl]
    · subst hj
      exact absurd (howner l hl ▸ hlid) (hfresh id l hl hjid)
    · subst hl
      exact absurd (howner j hj ▸ hjid) (hfresh id j hj hlid)
    · exact h.distinct j l id (howner j hj ▸ hjid) (howner l hl ▸ hlid)
  · by_cases hj : j = i
    · subst hj
      rcases hnew id hjid with hsame | ⟨-, htaken⟩
      · exact hchange.ids (h.taken j id hsame)
      · exact htaken
    · exact hchange.ids (h.taken j id (howner j hj ▸ hjid))
  · have hlength : s.tasks.length ≤ j := by simpa using hj
    rw [howner j (by omega)]
    exact h.later j hlength
  · by_cases hj : j = i
    · subst hj
      rw [List.getElem?_set_self hi] at htask
      cases htask
      exact hself
    · rw [List.getElem?_set_ne (Ne.symm hj)] at htask
      rw [howner j hj]
      exact hothers j task hj htask

/-- An insertion under an id that is taken changes nothing. -/
theorem answer_of_taken (hanswer : (worldMachine outside).Answer c s.world r world) {id : String}
    (hkind : c.kind = .insert id) (htaken : id ∈ s.world.ids) : world = s.world := by
  rcases hanswer.state with rfl | rfl
  · rfl
  · obtain ⟨record, hrecord, rfl⟩ := List.mem_map.mp htaken
    cases c with
    | insertApply other =>
      have hid : other.id = record.id := CallKind.insert.inj hkind
      show (s.world.insertApply other).2 = _
      unfold World.insertApply
      rw [if_pos (List.any_eq_true.mpr ⟨record, hrecord, by simp [hid]⟩)]
    | cluster call =>
      change (if call.writes then CallKind.clusterWrite else .clusterRead) = _ at hkind
      split at hkind <;> cases hkind
    | _ => cases hkind

/-- A call of a task keeps every record owned by at most one of them. -/
theorem Ownership.task (hd : Discipline app outside P known G S) (h : Ownership app P S owner s)
    (hserving : s.recovering = none) (htask : s.tasks[i]? = some (.call c k))
    (hanswer : answersIf outside known _ c s.world r world) :
    Ownership app P S
      (ownerAfter owner s (.call (some i) c r)
        { s with world := world, tasks := s.tasks.set i (k r) })
      { s with world := world, tasks := s.tasks.set i (k r) } := by
  have hrole := h.tasks i _ htask
  -- A call that inserts nothing leaves the records with their owners.
  have hsame (hinsert : ∀ id, c.kind ≠ .insert id) :
      ownerAfter owner s (.call (some i) c r)
        { s with world := world, tasks := s.tasks.set i (k r) } = owner := by
    cases r with
    | error e => rfl
    | ok b => simp only [ownerAfter, Call.inserted_of_kind hinsert]
  cases howner : owner i with
  | some id =>
    rw [howner] at hrole
    obtain ⟨hself, hG, hown⟩ := hd.call hrole hanswer
    rw [hsame hown.2]
    refine h.after hserving htask hanswer.1 (fun _ _ => rfl) (fun _ => Or.inl) (howner ▸ hself)
      fun j task hj htask => h.others hd hanswer hG (fun l other hl hlid => ?_) hj htask
    exact hown.foreign fun heq => hl (h.distinct l i id (heq ▸ hlid) howner)
  | none =>
    rw [howner] at hrole
    rcases hrole with hlaunch | ⟨hP, hrest⟩
    · -- The call inserts a record; who owns one already is not concerned.
      obtain ⟨record, hfresh, hkind, -, houtcome⟩ := hlaunch.inv r
      have hothers (j : Nat) (task : PipelineProg Unit) (hj : j ≠ i)
          (htask : s.tasks[j]? = some task) : Role app P S world task (owner j) := by
        by_cases htaken : record.id ∈ s.world.ids
        · rw [answer_of_taken hanswer.1 hkind htaken]
          exact h.tasks j task htask
        · refine h.others hd hanswer (hd.launch hlaunch hanswer) (fun l id hl hlid => ?_) hj htask
          rw [Call.foreign, hkind]
          exact ⟨nofun, fun heq => htaken (CallKind.insert.inj heq ▸ h.taken l id hlid)⟩
      rcases houtcome with ⟨e, rfl, hraise⟩ | ⟨⟨b, rfl⟩, ⟨kind, actor, hrun⟩, hinserted⟩
      · refine h.after hserving htask hanswer.1 (fun _ _ => rfl) (fun _ => Or.inl) ?_ hothers
        simp only [ownerAfter, howner, hraise]
        trivial
      · obtain ⟨hfree, happlies⟩ := hinserted hanswer.1
        have hnew : ownerAfter owner s (.call (some i) c (.ok b))
            { s with world := world, tasks := s.tasks.set i (k (.ok b)) } =
              Function.update owner i (some record.id) := by
          simp only [ownerAfter, Call.inserted, hkind]
        rw [hnew]
        refine h.after hserving htask hanswer.1
          (fun j hj => Function.update_of_ne hj _ _) (fun id hid => ?_) ?_ hothers
        · rw [Function.update_self] at hid
          cases hid
          refine Or.inr ⟨hfree, ?_⟩
          simp [World.ids, happlies]
        · rw [Function.update_self, hrun]
          exact hd.start kind actor hfresh (record_of_inserted hfree happlies)
    · obtain ⟨hG, hforeign⟩ := hd.idle hP hanswer
      rw [hsame fun id => (hforeign id).2]
      refine h.after hserving htask hanswer.1 (fun _ _ => rfl) (fun _ => Or.inl) ?_
        fun j task hj htask => h.others hd hanswer hG (fun _ other _ _ => hforeign other) hj htask
      rw [howner]
      exact hrest r

/-- Who inserts a record launches its Apply. -/
theorem Ownership.launches (hd : Discipline app outside P known G S)
    (h : Ownership app P S owner s) (htask : s.tasks[i]? = some (.call c k))
    (hanswer : answersIf outside known _ c s.world r world) {id : String}
    (hkind : c.kind = .insert id) : Launches app c k := by
  have hrole := h.tasks i _ htask
  cases howner : owner i with
  | some own =>
    rw [howner] at hrole
    exact absurd hkind ((hd.call hrole hanswer).2.2.2 id)
  | none =>
    rw [howner] at hrole
    rcases hrole with hlaunch | ⟨hP, -⟩
    · exact hlaunch
    · exact absurd hkind ((hd.idle hP hanswer).2 id).2

/-- What every call of a task keeps to. -/
theorem Ownership.guarantee (hd : Discipline app outside P known G S)
    (h : Ownership app P S owner s) (htask : s.tasks[i]? = some (.call c k))
    (hanswer : answersIf outside known _ c s.world r world) : G _ c s.world r world := by
  have hrole := h.tasks i _ htask
  cases howner : owner i with
  | some id =>
    rw [howner] at hrole
    exact (hd.call hrole hanswer).2.1
  | none =>
    rw [howner] at hrole
    rcases hrole with hlaunch | ⟨hP, -⟩
    · exact hd.launch hlaunch hanswer
    · exact (hd.idle hP hanswer).1

end call

/-- Every step keeps every record owned by at most one request. -/
theorem Ownership.step (hd : Discipline app outside P known G S) (h : Ownership app P S owner s)
    (hadmits : event.admitted known s.world s'.world) (hstep : Step app outside s event s') :
    Ownership app P S (ownerAfter owner s event s') s' := by
  cases hstep with
  | arrive request hserving _ => exact h.arrive hd hserving request
  | task hserving htask hanswer => exact h.task hd hserving htask ⟨hanswer, hadmits⟩
  | recover hrecovering hanswer =>
    have htasks : s.tasks = [] := h.starting (by simp [hrecovering])
    have hnobody (i : Nat) : owner i = none := h.later i (by simp [htasks])
    exact ⟨(answer_recordChange outside hanswer).nodup h.unique, h.distinct,
      fun i id hid => by simp [ownerAfter, hnobody] at hid, h.later,
      fun i task htask => by simp [htasks] at htask, fun _ => htasks⟩
  | again hrecovering =>
    exact ⟨h.unique, h.distinct, h.taken, h.later, h.tasks,
      fun _ => h.starting (by simp [hrecovering])⟩
  | recovered _ => exact ⟨h.unique, h.distinct, h.taken, h.later, h.tasks, nofun⟩
  | gaveUp _ => exact ⟨h.unique, h.distinct, h.taken, h.later, h.tasks, nofun⟩
  | die => exact .boot _ h.unique

end ownership

end Apchi.Pipeline
