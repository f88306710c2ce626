import Apchi.Pipeline.Commits

/-!
# The Snapshots of a run

Every request there ever was is kept, with the calls it has made.  While at most one Apply runs at a
time, what the Apply in flight has read of the Snapshots stands until it commits, for nobody else
commits meanwhile; so the Snapshots are numbered from one without gap or repeat, and each is what the
Apply that committed it captured, delivered and verified.
-/

namespace Apchi.Pipeline

open Lib Prog

/-- A request that was served, and the calls it has made. -/
structure Served where
  request : Request
  calls : List (Made Call)

/-- The requests of the processes that have died, and those of the one that lives. -/
structure Chronicle where
  past : List Served
  current : List Served

def Chronicle.all (chronicle : Chronicle) : List Served := chronicle.past ++ chronicle.current

/-- One more call. -/
def Served.then (served : Served) (made : Made Call) : Served :=
  { served with calls := served.calls ++ [made] }

/-- The chronicle after a step. -/
def chronicleAfter (chronicle : Chronicle) (_ : Service) (event : Event) (_ : Service) : Chronicle :=
  match event with
  | .arrive request => { chronicle with current := chronicle.current ++ [⟨request, []⟩] }
  | .call (some i) c r =>
      { chronicle with current := chronicle.current.modify i fun served => served.then ⟨c, r⟩ }
  | .die => ⟨chronicle.past ++ chronicle.current, []⟩
  | _ => chronicle

/-- The record a call has inserted. -/
def insertedBy (made : Made Call) : Option String :=
  match made.answer with
  | .ok _ => made.op.inserted
  | .error _ => none

/-- The record a request has inserted. -/
def Served.record (served : Served) : Option String :=
  (served.calls.filterMap insertedBy).getLast?

/-- Whose record is whose. -/
def Chronicle.owner (chronicle : Chronicle) (i : Nat) : Option String :=
  chronicle.current[i]?.bind Served.record

theorem record_then (served : Served) (made : Made Call) :
    (served.then made).record = (insertedBy made).or served.record := by
  unfold Served.record Served.then
  rw [List.filterMap_append, List.getLast?_append]
  cases h : insertedBy made <;> simp [h]

/-- The chronicle tells whose record is whose. -/
theorem owner_chronicleAfter {app : App} {outside : Outside} {chronicle : Chronicle} {s s' : Service}
    {event : Event} (hlength : chronicle.current.length = s.tasks.length)
    (hstep : Step app outside s event s') :
    (chronicleAfter chronicle s event s').owner = ownerAfter chronicle.owner s event s' := by
  cases hstep with
  | arrive request _ _ =>
    funext i
    show (chronicle.current ++ [_])[i]?.bind _ = chronicle.current[i]?.bind _
    rcases Nat.lt_trichotomy i chronicle.current.length with hi | rfl | hi
    · rw [List.getElem?_append_left hi]
    · simp [Served.record]
    · rw [List.getElem?_eq_none (by simp; omega), List.getElem?_eq_none (by omega)]
  | @task i β c k r world _ htask _ =>
    have hi : i < chronicle.current.length := by
      rw [hlength]
      exact (List.getElem?_eq_some_iff.mp htask).1
    have hother (j : Nat) (hj : j ≠ i) : (chronicleAfter chronicle s (.call (some i) c r)
        { s with world := world, tasks := s.tasks.set i (k r) }).owner j = chronicle.owner j := by
      show (chronicle.current.modify i _)[j]?.bind _ = chronicle.current[j]?.bind _
      rw [List.getElem?_modify_ne _ _ (Ne.symm hj)]
    have hself : (chronicleAfter chronicle s (.call (some i) c r)
        { s with world := world, tasks := s.tasks.set i (k r) }).owner i =
          (insertedBy ⟨c, r⟩).or (chronicle.owner i) := by
      show (chronicle.current.modify i _)[i]?.bind _ = Option.or _ (chronicle.current[i]?.bind _)
      rw [List.getElem?_modify_eq, List.getElem?_eq_getElem hi]
      exact record_then _ _
    cases hinserted : insertedBy ⟨c, r⟩ with
    | none =>
      have hsame : ownerAfter chronicle.owner s (.call (some i) c r)
          { s with world := world, tasks := s.tasks.set i (k r) } = chronicle.owner := by
        rcases r with e | b
        · rfl
        · have hc : c.inserted = none := hinserted
          simp only [ownerAfter, hc]
      rw [hsame]
      funext j
      by_cases hj : j = i
      · subst hj
        rw [hself, hinserted, Option.none_or]
      · exact hother j hj
    | some id =>
      have hnew : ownerAfter chronicle.owner s (.call (some i) c r)
          { s with world := world, tasks := s.tasks.set i (k r) } =
            Function.update chronicle.owner i (some id) := by
        rcases r with e | b
        · cases hinserted
        · have hc : c.inserted = some id := hinserted
          simp only [ownerAfter, hc]
      rw [hnew]
      funext j
      by_cases hj : j = i
      · subst hj
        rw [hself, hinserted, Function.update_self, Option.some_or]
      · rw [Function.update_of_ne hj]
        exact hother j hj
  | _ => rfl

/-! ### What the calls of a request tell -/

/-- A list is split in one way at the one element that has the property. -/
theorem split_unique {α : Type*} {P : α → Prop} {first rest before after : List α} {x y : α}
    (hfirst : ∀ a ∈ first, ¬ P a) (hrest : ∀ a ∈ rest, ¬ P a) (hy : P y)
    (h : first ++ x :: rest = before ++ y :: after) : before = first ∧ y = x ∧ after = rest := by
  rcases List.append_eq_append_iff.mp h with ⟨gap, rfl, hgap⟩ | ⟨gap, rfl, hgap⟩
  · cases gap with
    | nil =>
      obtain ⟨rfl, rfl⟩ := List.cons.inj hgap
      exact ⟨by simp, rfl, rfl⟩
    | cons z gap =>
      obtain ⟨rfl, rfl⟩ := List.cons.inj hgap
      exact absurd hy (hrest y (by simp))
  · cases gap with
    | nil =>
      obtain ⟨rfl, rfl⟩ := List.cons.inj hgap
      exact ⟨by simp, rfl, rfl⟩
    | cons z gap =>
      obtain ⟨rfl, rfl⟩ := List.cons.inj hgap
      exact absurd hy (hfirst y (by simp))

section serve

variable {app : App} {request : Request} {calls : List (Made Call)} {q : PipelineProg Unit}

theorem opening_keepsSnapshots (request : Request) : KeepsSnapshots (request.opening app) :=
  writes_opening nofun nofun nofun nofun nofun nofun request

/-- Once a request has inserted a record it goes on as the Apply of that record. -/
theorem serve_trace (h : (request.serve app).TraceTo calls q) {opened since : List (Made Call)}
    {record : ApplyRecord} (hcalls : calls = opened ++ ⟨.insertApply record, .ok ()⟩ :: since) :
    request.uuid = some record.id ∧
      (runApply app request.engine record.id request.actor).TraceTo since q := by
  have hinserts : ¬ (Call.insertApply record).insertsNone := fun h => h record.id rfl
  have hopening : (request.opening app).All Call.insertsNone :=
    (opening_recordless request).mono fun _ hc id => (hc id).2
  have hmem : (⟨.insertApply record, .ok ()⟩ : Made Call) ∈ calls := by simp [hcalls]
  rw [request.serve_eq] at h
  rcases h.bind_inv with ⟨q₁, -, hfirst⟩ | ⟨base, first, rest, rfl, hfirst, hrest⟩
  · exact absurd ((hopening.traceTo hfirst).2 _ hmem) hinserts
  have hnone := (hopening.traceTo hfirst).2
  have hmem' : (⟨.insertApply record, .ok ()⟩ : Made Call) ∈ rest :=
    (List.mem_append.mp hmem).resolve_left fun hin => hinserts (hnone _ hin)
  unfold Request.launch at hrest
  split at hrest
  · next uuid huuid =>
    rcases TraceTo.call_inv hrest with ⟨rfl, -⟩ | ⟨r, ran, rfl, hran⟩
    · cases hmem'
    rcases r with e | u
    · cases hran
      simp at hmem'
    · have hruns := ((runApply_insertsNone _ _ _).traceTo hran).2
      obtain ⟨-, hmade, rfl⟩ := split_unique (P := fun made => ¬ made.op.insertsNone)
        (fun made hin => not_not.mpr (hnone made hin)) (fun made hin => not_not.mpr (hruns made hin))
        hinserts hcalls
      cases hmade
      exact ⟨huuid, hran⟩
  · cases hrest
    cases hmem'

/-- A request that is about to insert a Snapshot has inserted its record, and commits. -/
theorem serve_commits {snapshot : Snapshot} {k : Except Error Unit → PipelineProg Unit}
    (h : (request.serve app).TraceTo calls (.call (.insertSnapshot snapshot) k)) :
    request.engine = .operator ∧ ∃ opened record since latest,
      calls = opened ++ ⟨.insertApply record, .ok ()⟩ :: since ∧
      request.uuid = some record.id ∧ Commits app record.id latest snapshot since := by
  have hinsert : ¬ ∀ collection ∈ (Call.insertSnapshot snapshot).writesTo,
      collection ≠ .snapshots := fun h => h _ rfl rfl
  rw [request.serve_eq] at h
  obtain ⟨base, first, rest, rfl, -, hrest⟩ := TraceTo.past (opening_keepsSnapshots _) hinsert h
  unfold Request.launch at hrest
  split at hrest
  · next uuid huuid =>
    rcases TraceTo.call_inv hrest with ⟨-, hq⟩ | ⟨r, ran, rfl, hran⟩
    · cases hq
    rcases r with e | u
    · cases hran
    · obtain ⟨hkind, latest, hcommits⟩ := runApply_trace hran
      exact ⟨hkind, first, _, ran, latest, rfl, huuid, hcommits⟩
  · cases hrest

end serve

theorem Commits.read {app : App} {id : String} {latest : Option Snapshot} {snapshot : Snapshot}
    {calls : List (Made Call)} (h : Commits app id latest snapshot calls) :
    ⟨.findLatestSnapshot, .ok latest⟩ ∈ calls ∧ snapshot.number = numberAfter latest := by
  obtain ⟨-, -, -, -, -, rfl⟩ := h
  exact ⟨by simp, rfl⟩

/-! ### The numbers -/

theorem latestOf_concat {snapshots : List Snapshot} {last : Snapshot}
    (h : ∀ snapshot ∈ snapshots, snapshot.number ≤ last.number) :
    latestOf (snapshots ++ [last]) = some last := by
  induction snapshots with
  | nil => rfl
  | cons snapshot rest ih =>
    obtain ⟨hle, hrest⟩ := List.forall_mem_cons.mp h
    rw [List.cons_append]
    unfold latestOf
    rw [ih hrest]
    exact if_neg (by omega)

/-- The Snapshots are numbered from one, in the order they were inserted in. -/
def Numbered (snapshots : List Snapshot) : Prop :=
  snapshots.map Snapshot.number = List.range' 1 snapshots.length

/-- The number after the latest one's is the next. -/
theorem Numbered.next {snapshots : List Snapshot} (h : Numbered snapshots) :
    numberAfter (latestOf snapshots) = snapshots.length + 1 := by
  rcases List.eq_nil_or_concat snapshots with rfl | ⟨init, last, rfl⟩
  · rfl
  unfold Numbered at h
  rw [List.concat_eq_append] at *
  simp only [List.map_append, List.length_append, List.range'_1_concat, List.map_cons, List.map_nil,
    List.length_singleton] at h
  obtain ⟨hinit, hlast⟩ := List.append_inj' h (by simp)
  have hnumber : last.number = 1 + init.length := by simpa using hlast
  have hle : ∀ snapshot ∈ init, snapshot.number ≤ last.number := fun snapshot hmem => by
    have hin : snapshot.number ∈ List.range' 1 init.length :=
      hinit ▸ List.mem_map_of_mem hmem
    have := (List.mem_range'_1.mp hin).2
    omega
  rw [latestOf_concat hle, List.length_append, List.length_singleton]
  show last.number + 1 = _
  omega

theorem Numbered.concat {snapshots : List Snapshot} (h : Numbered snapshots) {snapshot : Snapshot}
    (hnumber : snapshot.number = numberAfter (latestOf snapshots)) :
    Numbered (snapshots ++ [snapshot]) := by
  have hnext := h.next
  unfold Numbered at *
  rw [List.map_append, h, List.length_append, List.length_singleton, List.range'_1_concat]
  simp only [List.map_cons, List.map_nil, hnumber, hnext, Nat.add_comm]

/-! ### The service -/

variable (app : App) (outside : Outside)

/-- While an Apply is quiet its record is in flight, and what it has read of the Snapshots stands. -/
def ReadsStand (world : World) (calls : List (Made Call)) : Prop :=
  ∀ opened record since, calls = opened ++ ⟨.insertApply record, .ok ()⟩ :: since →
    (∀ made ∈ since, made.op.quiet record.id) →
      Live record.id world ∧ ∀ made ∈ since, Stands outside world made

/-- The request has committed the Snapshot: what it inserted is what it had captured, delivered and
verified since it had its record. -/
def Served.Committed (served : Served) (snapshot : Snapshot) : Prop :=
  served.request.engine = .operator ∧ ∃ opened record since latest r rest,
    served.calls = opened ++ ⟨.insertApply record, .ok ()⟩ :: since ++
      ⟨.insertSnapshot snapshot, r⟩ :: rest ∧
    served.request.uuid = some record.id ∧ Commits app record.id latest snapshot since

/-- A call of a request that has no record yet. -/
def Call.openingCall {β : Type} (c : Call β) : Prop :=
  c.recordless ∧ c.writesTo ≠ some .snapshots

theorem discipline_openingCall :
    Discipline app outside Call.openingCall anyAnswer (InLifetime False)
      (Tenant outside anyAnswer False) :=
  discipline_lifetime False.elim And.left fun request =>
    ((opening_recordless request).and (opening_keepsSnapshots request)).mono
      fun _ h => ⟨h.1, fun hsnapshots => h.2 _ hsnapshots rfl⟩

/-- What holds of the service and its chronicle. -/
structure Told (start : World) (state : Chronicle × Service) : Prop where
  owned : Ownership app Call.openingCall (Tenant outside anyAnswer False) state.1.owner state.2
  once : state.2.world.inFlightCount ≤ 1
  length : state.1.current.length = state.2.tasks.length
  traces : ∀ (i : Nat) served task, state.1.current[i]? = some served →
    state.2.tasks[i]? = some task → (served.request.serve app).TraceTo served.calls task
  past : ∀ served ∈ state.1.past, ∃ q, (served.request.serve app).TraceTo served.calls q
  recovering : ∀ p, state.2.recovering = some p → KeepsSnapshots p
  standing : ∀ served ∈ state.1.current, ReadsStand outside state.2.world served.calls
  numbered : Numbered state.2.world.snapshots
  committed : ∀ snapshot ∈ state.2.world.snapshots, snapshot ∈ start.snapshots ∨
    ∃ served ∈ state.1.all, served.Committed app snapshot

variable {app} {outside}

/-- The record of a request whose Apply has been quiet since. -/
theorem record_of_quiet {served : Served} {opened since : List (Made Call)} {record : ApplyRecord}
    (hcalls : served.calls = opened ++ ⟨.insertApply record, .ok ()⟩ :: since)
    (hquiet : ∀ made ∈ since, made.op.quiet record.id) : served.record = some record.id := by
  have hsince : since.filterMap insertedBy = [] := by
    refine List.filterMap_eq_nil_iff.mpr fun made hmade => ?_
    unfold insertedBy
    split
    · exact Call.inserted_of_kind (hquiet made hmade).1.1.2
    · rfl
  unfold Served.record
  rw [hcalls, List.filterMap_append, List.filterMap_cons_some
    (show insertedBy ⟨.insertApply record, .ok ()⟩ = some record.id from rfl), hsince]
  simp

/-- A call of one task leaves the records of the others alone. -/
theorem Ownership.recordKept {P : {β : Type} → Call β → Prop} {known G : Answers Call World}
    {S : String → PipelineProg Unit → World → Prop} {owner : Nat → Option String} {s : Service}
    (hd : Discipline app outside P known G S) (h : Ownership app P S owner s) {i j : Nat} {β : Type}
    {c : Call β} {k : Except Error β → PipelineProg Unit} {r : Except Error β} {world : World}
    {id : String} (htask : s.tasks[i]? = some (.call c k))
    (hanswer : answersIf outside known _ c s.world r world) (hj : j ≠ i) (hid : owner j = some id) :
    RecordKept id s.world world := by
  have hrole := h.tasks i _ htask
  cases howner : owner i with
  | some own =>
    rw [howner] at hrole
    obtain ⟨-, -, hown⟩ := hd.call hrole hanswer
    refine recordKept_of_foreign (hown.foreign fun heq => hj ?_) hanswer.1
    exact h.distinct j i id hid (heq ▸ howner)
  | none =>
    rw [howner] at hrole
    rcases hrole with hlaunch | ⟨hP, -⟩
    · obtain ⟨record, -, hkind, -⟩ := hlaunch.inv r
      by_cases htaken : record.id ∈ s.world.ids
      · rw [answer_of_taken hanswer.1 hkind htaken]
        rfl
      · refine recordKept_of_foreign ⟨?_, fun heq => htaken ?_⟩ hanswer.1
        · simp [hkind]
        · rw [CallKind.insert.inj (hkind.symm.trans heq)]
          exact h.taken j id hid
    · exact recordKept_of_foreign ((hd.idle hP hanswer).2 id) hanswer.1

section told

variable {start : World} {chronicle : Chronicle} {s : Service}

/-- Whoever is about to insert a Snapshot commits: its record is in flight, and the latest Snapshot
is the one it has read. -/
theorem Told.commits (h : Told app outside start (chronicle, s)) {i : Nat} {served : Served}
    {snapshot : Snapshot} {k : Except Error Unit → PipelineProg Unit}
    (hserved : chronicle.current[i]? = some served)
    (htask : s.tasks[i]? = some (.call (.insertSnapshot snapshot) k)) :
    ∃ opened record since, served.calls = opened ++ ⟨.insertApply record, .ok ()⟩ :: since ∧
      served.request.engine = .operator ∧ served.request.uuid = some record.id ∧
      Commits app record.id (latestOf s.world.snapshots) snapshot since ∧
      chronicle.owner i = some record.id ∧ Live record.id s.world := by
  obtain ⟨hkind, opened, record, since, latest, hcalls, huuid, hcommits⟩ :=
    serve_commits (h.traces i served _ hserved htask)
  obtain ⟨hlive, hstands⟩ := h.standing served (List.mem_of_getElem? hserved) opened record since
    hcalls hcommits.quiet
  have hlatest : latestOf s.world.snapshots = latest :=
    Except.ok.inj (hstands _ hcommits.read.1 trivial _ rfl)
  refine ⟨opened, record, since, hcalls, hkind, huuid, hlatest ▸ hcommits, ?_, hlive⟩
  exact (congrArg (Option.bind · Served.record) hserved).trans
    (record_of_quiet hcalls hcommits.quiet)

section task

variable {i : Nat} {β : Type} {c : Call β} {k : Except Error β → PipelineProg Unit}
  {r : Except Error β} {world : World}

/-- What one task does leaves standing what the others have read. -/
theorem Told.standing_other (h : Told app outside start (chronicle, s))
    (htask : s.tasks[i]? = some (.call c k))
    (hanswer : (worldMachine outside).Answer c s.world r world) {j : Nat} {served : Served}
    (hserved : chronicle.current[j]? = some served) (hj : j ≠ i) :
    ReadsStand outside world served.calls := by
  intro opened record since hcalls hquiet
  obtain ⟨hlive, hstands⟩ := h.standing served (List.mem_of_getElem? hserved) opened record since
    hcalls hquiet
  have howner : chronicle.owner j = some record.id :=
    (congrArg (Option.bind · Served.record) hserved).trans (record_of_quiet hcalls hquiet)
  have hsnapshots : world.snapshots = s.world.snapshots := by
    by_cases hwrites : c.writesTo = some .snapshots
    · -- Only an Apply in flight inserts a Snapshot, and this one is another.
      cases c with
      | insertSnapshot snapshot =>
        have hi : i < chronicle.current.length := by
          rw [h.length]
          exact (List.getElem?_eq_some_iff.mp htask).1
        obtain ⟨_, other, _, -, -, -, -, hother, hlive'⟩ :=
          h.commits (List.getElem?_eq_getElem hi) htask
        have heq := eq_of_live h.once hlive hlive'
        exact absurd (h.owned.distinct j i record.id howner (heq ▸ hother)) hj
      | cluster call =>
        change (if call.writes then some Collection.cluster else none) = _ at hwrites
        split at hwrites <;> cases hwrites
      | _ => cases hwrites
    · exact answer_snapshots_of_not outside hwrites hanswer
  refine ⟨hlive.kept ?_, fun made hmade => (hstands made hmade).kept hsnapshots⟩
  exact h.owned.recordKept (discipline_openingCall app outside) htask ⟨hanswer, trivial⟩ hj howner

/-- What the task itself has read stands, and what it has just read. -/
theorem Told.standing_self (h : Told app outside start (chronicle, s))
    (htask : s.tasks[i]? = some (.call c k))
    (hanswer : (worldMachine outside).Answer c s.world r world) {served : Served}
    (hserved : chronicle.current[i]? = some served) :
    ReadsStand outside world (served.then ⟨c, r⟩).calls := by
  intro opened record since hcalls hquiet
  change served.calls ++ [⟨c, r⟩] = _ at hcalls
  rcases List.eq_nil_or_concat' since with rfl | ⟨before, made, rfl⟩
  · -- The record has just been inserted.
    obtain ⟨-, hmade⟩ := List.append_inj' hcalls rfl
    cases hmade
    obtain ⟨other, hfresh, hkind, -, ⟨e, he, -⟩ | ⟨-, -, hinserted⟩⟩ :=
      (h.owned.launches (discipline_openingCall app outside) htask ⟨hanswer, trivial⟩ rfl).inv (.ok ())
    · cases he
    have hid : record.id = other.id := CallKind.insert.inj hkind
    obtain ⟨hfree, happlies⟩ := hinserted hanswer
    refine ⟨⟨other, ?_, ?_⟩, fun _ hmade => absurd hmade List.not_mem_nil⟩
    · rw [hid]
      exact record_of_inserted hfree happlies
    · simp [ApplyRecord.inFlight, hfresh.1, TERMINAL]
  · have hsplit : served.calls ++ [⟨c, r⟩] =
        (opened ++ ⟨.insertApply record, .ok ()⟩ :: before) ++ [made] := by
      simpa using hcalls
    obtain ⟨hbefore, hlast⟩ := List.append_inj' hsplit rfl
    cases hlast
    obtain ⟨hlive, hstands⟩ := h.standing served (List.mem_of_getElem? hserved) opened record before
      hbefore fun made hmade => hquiet made (List.mem_append_left _ hmade)
    have hlast : c.quiet record.id := hquiet ⟨c, r⟩ (List.mem_append_right _ (List.mem_singleton_self _))
    have hsnapshots := answer_snapshots_of_not outside hlast.2 hanswer
    refine ⟨hlive.after hanswer hlast.1.2, fun made hmade => ?_⟩
    rw [List.mem_append, List.mem_singleton] at hmade
    rcases hmade with hmem | rfl
    · exact (hstands made hmem).kept hsnapshots
    · exact stands_of_answer hanswer

/-- A Snapshot that is inserted is the next one, and is committed by the task that inserts it. -/
theorem Told.snapshots (h : Told app outside start (chronicle, s))
    (htask : s.tasks[i]? = some (.call c k))
    (hanswer : (worldMachine outside).Answer c s.world r world) {served : Served}
    (hserved : chronicle.current[i]? = some served) :
    world.snapshots = s.world.snapshots ∨ ∃ snapshot,
      world.snapshots = s.world.snapshots ++ [snapshot] ∧
      snapshot.number = numberAfter (latestOf s.world.snapshots) ∧
      (served.then ⟨c, r⟩).Committed app snapshot := by
  by_cases hwrites : c.writesTo = some .snapshots
  · cases c with
    | insertSnapshot snapshot =>
      obtain ⟨opened, record, since, hcalls, hkind, huuid, hcommits, -, -⟩ := h.commits hserved htask
      rcases hanswer.state with rfl | rfl
      · exact Or.inl rfl
      have hinsert : (s.world.insertSnapshot snapshot).2.snapshots = s.world.snapshots ∨
          (s.world.insertSnapshot snapshot).2.snapshots = s.world.snapshots ++ [snapshot] := by
        unfold World.insertSnapshot
        split
        · exact Or.inl rfl
        · exact Or.inr rfl
      refine hinsert.imp_right fun hafter => ⟨snapshot, hafter, hcommits.read.2, hkind, opened,
        record, since, _, r, [], ?_, huuid, hcommits⟩
      simp [Served.then, hcalls]
    | cluster call =>
      change (if call.writes then some Collection.cluster else none) = _ at hwrites
      split at hwrites <;> cases hwrites
    | _ => cases hwrites
  · exact Or.inl (answer_snapshots_of_not outside hwrites hanswer)

end task

end told

/-- What was committed stays so. -/
theorem Served.Committed.then {served : Served} {snapshot : Snapshot}
    (h : served.Committed app snapshot) (made : Made Call) :
    (served.then made).Committed app snapshot := by
  obtain ⟨hkind, opened, record, since, latest, r, rest, hcalls, huuid, hcommits⟩ := h
  refine ⟨hkind, opened, record, since, latest, r, rest ++ [made], ?_, huuid, hcommits⟩
  simp [Served.then, hcalls]

theorem committed_modify {past current : List Served} {snapshot : Snapshot}
    (h : ∃ served ∈ past ++ current, served.Committed app snapshot) (i : Nat) (made : Made Call) :
    ∃ served ∈ past ++ current.modify i (fun served => served.then made),
      served.Committed app snapshot := by
  obtain ⟨served, hmem, hcommitted⟩ := h
  rcases List.mem_append.mp hmem with hpast | hcurrent
  · exact ⟨served, List.mem_append_left _ hpast, hcommitted⟩
  obtain ⟨j, hj⟩ := List.getElem?_of_mem hcurrent
  by_cases heq : i = j
  · subst heq
    refine ⟨served.then made, List.mem_append_right _ (List.mem_of_getElem? (i := i) ?_),
      hcommitted.then made⟩
    rw [List.getElem?_modify_eq, hj]
    rfl
  · refine ⟨served, List.mem_append_right _ (List.mem_of_getElem? (i := j) ?_), hcommitted⟩
    rw [List.getElem?_modify_ne _ _ heq, hj]

section step

variable {start : World} {chronicle : Chronicle} {s : Service}

theorem keepsSnapshots_recoverNext : KeepsSnapshots (recoverNext app) :=
  writes_recoverNext nofun nofun nofun nofun

/-- The process starts, over what the one before it has left. -/
theorem Told.boot {world : World} {past : List Served} (hunique : world.ids.Nodup)
    (honce : world.inFlightCount ≤ 1) (hnumbered : Numbered world.snapshots)
    (hpast : ∀ served ∈ past, ∃ q, (served.request.serve app).TraceTo served.calls q)
    (hcommitted : ∀ snapshot ∈ world.snapshots, snapshot ∈ start.snapshots ∨
      ∃ served ∈ past, served.Committed app snapshot) :
    Told app outside start (⟨past, []⟩, Service.boot app world) where
  owned := .boot world hunique
  once := honce
  length := rfl
  traces := nofun
  past := hpast
  recovering := by
    rintro p ⟨⟩
    exact keepsSnapshots_recoverNext
  standing := nofun
  numbered := hnumbered
  committed snapshot hmem := (hcommitted snapshot hmem).imp_right
    fun ⟨served, hserved, hdone⟩ => ⟨served, List.mem_append_left _ hserved, hdone⟩

/-- One call of a task. -/
theorem Told.task (h : Told app outside start (chronicle, s)) {i : Nat} {β : Type} {c : Call β}
    {k : Except Error β → PipelineProg Unit} {r : Except Error β} {world : World}
    (hserving : s.recovering = none) (htask : s.tasks[i]? = some (.call c k))
    (hanswer : (worldMachine outside).Answer c s.world r world)
    (honce : world.inFlightCount ≤ 1)
    (howned : Ownership app Call.openingCall (Tenant outside anyAnswer False)
      (chronicleAfter chronicle s (.call (some i) c r)
        { s with world := world, tasks := s.tasks.set i (k r) }).owner
      { s with world := world, tasks := s.tasks.set i (k r) }) :
    Told app outside start (chronicleAfter chronicle s (.call (some i) c r)
      { s with world := world, tasks := s.tasks.set i (k r) },
      { s with world := world, tasks := s.tasks.set i (k r) }) := by
  have hi : i < s.tasks.length := (List.getElem?_eq_some_iff.mp htask).1
  have hlength : chronicle.current.length = s.tasks.length := h.length
  obtain ⟨served, hserved⟩ : ∃ served, chronicle.current[i]? = some served :=
    ⟨_, List.getElem?_eq_getElem (hlength ▸ hi)⟩
  have hself : (chronicle.current.modify i fun served => served.then ⟨c, r⟩)[i]? =
      some (served.then ⟨c, r⟩) := by
    rw [List.getElem?_modify_eq, hserved]
    rfl
  -- Whoever is in the chronicle now is the task itself, one call on, or is as it was.
  have hcurrent (j : Nat) (later : Served)
      (hj : (chronicle.current.modify i fun served => served.then ⟨c, r⟩)[j]? = some later) :
      j = i ∧ later = served.then ⟨c, r⟩ ∨ j ≠ i ∧ chronicle.current[j]? = some later := by
    by_cases heq : j = i
    · subst heq
      exact Or.inl ⟨rfl, Option.some.inj (hj.symm.trans hself)⟩
    · exact Or.inr ⟨heq, (List.getElem?_modify_ne _ _ (Ne.symm heq)).symm.trans hj⟩
  refine ⟨howned, honce, ?_, fun j later task hj htask' => ?_, h.past,
    fun p hp => absurd (hserving.symm.trans hp) nofun, fun later hlater => ?_, ?_, ?_⟩
  · show (chronicle.current.modify i _).length = (s.tasks.set i _).length
    rw [List.length_modify, List.length_set, hlength]
  · rcases hcurrent j later hj with ⟨rfl, rfl⟩ | ⟨hne, hj⟩
    · cases (List.getElem?_set_self hi).symm.trans htask'
      exact (h.traces j served _ hserved htask).snoc r
    · exact h.traces j later task hj ((List.getElem?_set_ne (Ne.symm hne)).symm.trans htask')
  · obtain ⟨j, hj⟩ := List.getElem?_of_mem hlater
    rcases hcurrent j later hj with ⟨rfl, rfl⟩ | ⟨hne, hj⟩
    · exact h.standing_self htask hanswer hserved
    · exact h.standing_other htask hanswer hj hne
  · show Numbered world.snapshots
    rcases h.snapshots htask hanswer hserved with hsame | ⟨snapshot, hafter, hnumber, -⟩
    · exact hsame ▸ h.numbered
    · exact hafter ▸ h.numbered.concat hnumber
  · have hold (snapshot : Snapshot) (hmem : snapshot ∈ s.world.snapshots) :
        snapshot ∈ start.snapshots ∨ ∃ served ∈ chronicle.past ++
          chronicle.current.modify i (fun served => served.then ⟨c, r⟩),
            served.Committed app snapshot :=
      (h.committed snapshot hmem).imp_right fun hcommitted => committed_modify hcommitted i _
    intro snapshot hmem
    change snapshot ∈ world.snapshots at hmem
    rcases h.snapshots htask hanswer hserved with hsame | ⟨inserted, hafter, -, hcommitted⟩
    · exact hold snapshot (hsame ▸ hmem)
    · rw [hafter, List.mem_append, List.mem_singleton] at hmem
      rcases hmem with hmem | rfl
      · exact hold snapshot hmem
      · exact Or.inr ⟨_, List.mem_append_right _ (List.mem_of_getElem? hself), hcommitted⟩

/-- At most one record is in flight after the step. -/
def OneApply (_ : Chronicle × Service) (_ : Event) (after : Chronicle × Service) : Prop :=
  after.2.world.inFlightCount ≤ 1

instance (before after : Chronicle × Service) (event : Event) :
    Decidable (OneApply before event after) := inferInstanceAs (Decidable (_ ≤ _))

/-- Every step that leaves at most one Apply in flight keeps to it. -/
theorem Told.step {state state' : Chronicle × Service} {event : Event}
    (h : Told app outside start state) (honce : OneApply state event state')
    (hstep : Recording (Step app outside) chronicleAfter state event state') :
    Told app outside start state' := by
  obtain ⟨chronicle, s⟩ := state
  obtain ⟨chronicle', s'⟩ := state'
  obtain ⟨hstep, hchronicle⟩ := hstep
  obtain rfl : chronicle' = chronicleAfter chronicle s event s' := hchronicle
  change s'.world.inFlightCount ≤ 1 at honce
  have hadmitted : event.admitted anyAnswer s.world s'.world := by
    unfold Event.admitted
    split <;> trivial
  have howned := h.owned.step (discipline_openingCall app outside) hadmitted hstep
  rw [← owner_chronicleAfter h.length hstep] at howned
  have hlength : chronicle.current.length = s.tasks.length := h.length
  have hpast : ∀ served ∈ chronicle.past ++ chronicle.current,
      ∃ q, (served.request.serve app).TraceTo served.calls q := by
    intro served hmem
    rcases List.mem_append.mp hmem with hmem | hmem
    · exact h.past served hmem
    · obtain ⟨i, hi⟩ := List.getElem?_of_mem hmem
      have hlt : i < s.tasks.length := hlength ▸ (List.getElem?_eq_some_iff.mp hi).1
      exact ⟨_, h.traces i served _ hi (List.getElem?_eq_getElem hlt)⟩
  cases hstep with
  | arrive request hserving _ =>
    refine ⟨howned, honce, ?_, fun i served task hserved htask => ?_, h.past, h.recovering,
      fun served hserved => ?_, h.numbered, fun snapshot hmem => ?_⟩
    · show (chronicle.current ++ [_]).length = (s.tasks ++ [_]).length
      rw [List.length_append, List.length_append, hlength]
      rfl
    · change (chronicle.current ++ [_])[i]? = _ at hserved
      change (s.tasks ++ [_])[i]? = _ at htask
      rcases Nat.lt_or_ge i s.tasks.length with hlt | hge
      · rw [List.getElem?_append_left (hlength ▸ hlt)] at hserved
        rw [List.getElem?_append_left hlt] at htask
        exact h.traces i served task hserved htask
      · rw [List.getElem?_append_right (hlength ▸ hge), hlength] at hserved
        rw [List.getElem?_append_right hge] at htask
        obtain ⟨hzero, -⟩ := List.getElem?_eq_some_iff.mp hserved
        have hi : i - s.tasks.length = 0 := by simpa using hzero
        rw [hi] at hserved htask
        cases hserved
        cases htask
        exact .nil
    · rcases List.mem_append.mp hserved with hmem | hmem
      · exact h.standing served hmem
      · obtain rfl := List.mem_singleton.mp hmem
        intro opened record since hcalls
        simp at hcalls
    · refine (h.committed snapshot hmem).imp_right fun ⟨served, hserved, hdone⟩ => ?_
      refine ⟨served, ?_, hdone⟩
      rcases List.mem_append.mp hserved with hmem | hmem
      · exact List.mem_append_left _ hmem
      · exact List.mem_append_right _ (List.mem_append_left _ hmem)
  | task hserving htask hanswer => exact h.task hserving htask hanswer honce howned
  | @recover β c k r world hrecovering hanswer =>
    obtain ⟨hkeeps, hrest⟩ := h.recovering _ hrecovering
    have hsnapshots : world.snapshots = s.world.snapshots :=
      answer_snapshots_of_not outside (fun hwrites => hkeeps _ hwrites rfl) hanswer
    change s.recovering = _ at hrecovering
    have htasks : s.tasks = [] := h.owned.starting (by simp [hrecovering])
    have hnobody : chronicle.current = [] :=
      List.length_eq_zero_iff.mp (hlength.trans (congrArg List.length htasks))
    refine ⟨howned, honce, hlength, h.traces, h.past, ?_, fun served hserved => ?_, ?_, ?_⟩
    · rintro p ⟨⟩
      exact hrest r
    · change served ∈ chronicle.current at hserved
      rw [hnobody] at hserved
      cases hserved
    · show Numbered world.snapshots
      exact hsnapshots ▸ h.numbered
    · show ∀ snapshot ∈ world.snapshots, _
      rw [hsnapshots]
      exact h.committed
  | again _ =>
    refine ⟨howned, honce, hlength, h.traces, h.past, ?_, h.standing, h.numbered, h.committed⟩
    rintro p ⟨⟩
    exact keepsSnapshots_recoverNext
  | recovered _ =>
    exact ⟨howned, honce, hlength, h.traces, h.past, nofun, h.standing, h.numbered, h.committed⟩
  | gaveUp _ =>
    exact ⟨howned, honce, hlength, h.traces, h.past, nofun, h.standing, h.numbered, h.committed⟩
  | die => exact .boot h.owned.unique h.once h.numbered hpast h.committed

end step

/-! ### What is committed -/

/-- A step adds to the Snapshots, and changes none. -/
theorem step_snapshots {s s' : Service} {event : Event} (h : Step app outside s event s') :
    s.world.snapshots <+: s'.world.snapshots := by
  have hcall {β : Type} {c : Call β} {r : Except Error β} {world : World}
      (hanswer : (worldMachine outside).Answer c s.world r world) :
      s.world.snapshots <+: world.snapshots := by
    by_cases hwrites : c.writesTo = some .snapshots
    · cases c with
      | insertSnapshot snapshot =>
        rcases hanswer.state with rfl | rfl
        · exact List.prefix_rfl
        · show _ <+: (s.world.insertSnapshot snapshot).2.snapshots
          unfold World.insertSnapshot
          split
          · exact List.prefix_rfl
          · exact List.prefix_append _ _
      | cluster call =>
        change (if call.writes then some Collection.cluster else none) = _ at hwrites
        split at hwrites <;> cases hwrites
      | _ => cases hwrites
    · rw [answer_snapshots_of_not outside hwrites hanswer]
  cases h with
  | task _ _ hanswer => exact hcall hanswer
  | recover _ hanswer => exact hcall hanswer
  | _ => exact List.prefix_rfl

/-- What an Admin request does adds no Snapshot. -/
theorem admin_keepsSnapshots {request : Request} (h : request.engine = .admin) :
    KeepsSnapshots (request.serve app) := by
  rw [request.serve_eq]
  refine All.bind (opening_keepsSnapshots request) fun base => ?_
  unfold Request.launch
  split
  · next uuid _ =>
    refine All.bind (All.bind (keepsSnapshots_update rfl) fun _ => trivial) fun record => ?_
    rw [h]
    exact writes_runApply nofun nofun nofun (fun _ => nofun) nofun fun _ => trivial
  · trivial

end Apchi.Pipeline
