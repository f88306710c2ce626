import Apchi.Lib.Trace
import Apchi.Pipeline.Exclusion
import Apchi.Pipeline.Reading
import Apchi.Pipeline.Writes

/-!
# What is committed is what was delivered and verified

Every call each request makes is kept, with what it was answered.  From the calls of an Apply it is
read what its Validation captured, what its apply stage delivered, what its verify stage checked and
what it commits; and while at most one Apply runs at a time the Snapshots it reads stay the latest
until it commits, so they are numbered without gap or repeat.
-/

namespace Apchi.Pipeline

open Lib Prog

variable (app : App)

/-! ### The calls of an Apply -/

/-- The call reads the Candidate or the Admin values. -/
def Call.readsValues {β : Type} : Call β → Prop
  | .findCandidate | .findAdmin | .findAdminPrevious => True
  | _ => False

/-- The calls of a Validation that has captured what it leaves: the Admin values are read once, then
the Sections, and neither the Candidate nor the Admin values once more. -/
inductive Captures (kind : EngineKind) (prepared : Prepared) : List (Made Call) → Prop where
  | mk {document : Option AdminValues} {loaded planned : List (Made Call)}
      (hcluster : prepared.cluster = ⟨app.settings, document.getD {}⟩)
      (hloaded : (desiredAndBaseline kind).Comes loaded (.ok (prepared.desired, prepared.current)))
      (hplanned : ∀ made ∈ planned, ¬ made.op.readsValues) :
      Captures kind prepared (⟨.checkPreconditions, .ok ()⟩ :: ⟨.findAdmin, .ok document⟩ ::
        (loaded ++ planned))

/-- The calls of an Apply that has come to deliver what its Validation captured. -/
inductive Delivers (kind : EngineKind) (id : String) (prepared : Prepared) :
    List (Made Call) → Prop where
  | mk {validated applied : List (Made Call)} {rest : PipelineProg Unit}
      (hvalidated : (validate app kind).Comes validated (.ok prepared))
      (hcaptured : Captures app kind prepared validated)
      (happlied : (onCluster (applyStage app prepared)).TraceTo applied rest) :
      Delivers kind id prepared (validated ++ ⟨.setWarnings id prepared.warnings, .ok ()⟩ ::
        ⟨.pushStage id .applying none, .ok ()⟩ :: applied)

/-- The calls of the Rollout, where one was needed. -/
def RolledOut (id : String) (prepared : Prepared) (calls : List (Made Call)) : Prop :=
  if prepared.rolloutNeeded then
    ∃ rolled, calls = ⟨.pushStage id .rollingOut none, .ok ()⟩ :: rolled ∧
      (onCluster (rollOutStage app id prepared)).Comes rolled (.ok ())
  else calls = []

/-- The number after that of a Snapshot. -/
def numberAfter : Option Snapshot → Nat
  | none => 1
  | some previous => previous.number + 1

/-- The calls of an Operator Apply that is about to commit a Snapshot: it has captured its Sections
and the Admin values in Validation, delivered those, restarted the coordinator if that was needed,
and verified those; and it has read the latest Snapshot. -/
inductive Commits (id : String) (latest : Option Snapshot) (snapshot : Snapshot) :
    List (Made Call) → Prop where
  | mk {prepared : Prepared} {validated applied rolledOut verified : List (Made Call)}
      (hvalidated : (validate app .operator).Comes validated (.ok prepared))
      (hcaptured : Captures app .operator prepared validated)
      (happlied : (onCluster (applyStage app prepared)).Comes applied (.ok ()))
      (hrolledOut : RolledOut app id prepared rolledOut)
      (hverified : (onCluster (verifyStage app prepared)).Comes verified (.ok ()))
      (hsnapshot : snapshot = ⟨numberAfter latest, prepared.desired, id⟩) :
      Commits id latest snapshot (validated ++ ⟨.setWarnings id prepared.warnings, .ok ()⟩ ::
        ⟨.pushStage id .applying none, .ok ()⟩ :: (applied ++ (rolledOut ++
          ⟨.pushStage id .verifying none, .ok ()⟩ :: (verified ++
            [⟨.pushStage id .committing none, .ok ()⟩, ⟨.findLatestSnapshot, .ok latest⟩]))))

/-- What is left of the last stage once the Snapshot is inserted. -/
def afterSnapshot (id actor : String) (number : Nat) : PipelineProg Unit := do
  let _ ← (recordHighWater number).attempt
  let _ ← resetCandidate actor (some number)
  call (.setSnapshot id number)
  call (.pushStage id .succeeded none)
  audited (applyEvent .operator actor id "applied" "succeeded" (some number) none)

section traces

variable {app} {id : String} {calls : List (Made Call)} {α β γ : Type}

/-- A stage is over when a call is next that is none of its own. -/
theorem staged_past {P : {β : Type} → Call β → Prop} {stage : Stage} {p : PipelineProg α}
    {f : α → Staged β} {c : Call γ} {k : Except Error γ → PipelineProg (Except (Stage × Error) β)}
    (hp : p.All P) (hc : ¬ P c) (h : (inStage stage p >>= f).run.TraceTo calls (.call c k)) :
    ∃ a first rest, calls = first ++ rest ∧ p.Comes first (.ok a) ∧
      (f a).run.TraceTo rest (.call c k) := by
  obtain ⟨r, first, rest, rfl, hfirst, hrest⟩ := TraceTo.past (all_inStage hp) hc h
  obtain ⟨r', attempted, returned, rfl, hattempted, hreturned⟩ := hfirst.bind_inv
  rcases r' with e | a
  · obtain ⟨rfl, rfl⟩ := comes_ret_inv hreturned
    cases hrest
  · obtain ⟨rfl, rfl⟩ := comes_ret_inv hreturned
    exact ⟨a, attempted, rest, by simp, hattempted.attempt_inv, hrest⟩

/-- A call of a stage is one of what the stage runs. -/
theorem staged_before {stage : Stage} {p : PipelineProg α} {c : Call γ}
    {k : Except Error γ → PipelineProg (Except (Stage × Error) α)}
    (h : (inStage stage p).run.TraceTo calls (.call c k)) : ∃ k', p.TraceTo calls (.call c k') := by
  obtain ⟨_, hattempt⟩ := TraceTo.before (P := fun _ => False)
    (fun r => by cases r <;> trivial) not_false h
  exact hattempt.before_attempt

/-- A stage that is recorded before it runs. -/
theorem comes_recorded {stage : Stage} {p : PipelineProg Unit}
    (h : (do
      call (.pushStage id stage none)
      p : PipelineProg Unit).Comes calls (.ok ())) :
    ∃ rest, calls = ⟨.pushStage id stage none, .ok ()⟩ :: rest ∧ p.Comes rest (.ok ()) := by
  obtain ⟨u, first, rest, rfl, hfirst, hrest⟩ := h.bind_inv
  obtain rfl := comes_perform_inv hfirst
  exact ⟨rest, rfl, hrest⟩

/-- The first stage comes to what Validation came to. -/
theorem comes_validating {kind : EngineKind} {prepared : Prepared}
    (h : (do
      let prepared ← validate app kind
      call (.setWarnings id prepared.warnings)
      pure prepared : PipelineProg Prepared).Comes calls (.ok prepared)) :
    ∃ validated, calls = validated ++ [⟨.setWarnings id prepared.warnings, .ok ()⟩] ∧
      (validate app kind).Comes validated (.ok prepared) := by
  obtain ⟨found, validated, rest, rfl, hvalidated, hrest⟩ := h.bind_inv
  obtain ⟨u, warned, last, rfl, hwarned, hlast⟩ := hrest.bind_inv
  obtain ⟨rfl, rfl⟩ := comes_ret_inv hlast
  obtain rfl := comes_perform_inv hwarned
  exact ⟨validated, by simp, hvalidated⟩

/-- What the pipeline writes other than Snapshots. -/
abbrev KeepsSnapshots (p : PipelineProg α) : Prop :=
  WritesOnly (fun collection => collection ≠ .snapshots) p

theorem keepsSnapshots_onCluster (p : ClusterProg α) : KeepsSnapshots (onCluster p) :=
  writes_onCluster nofun p

theorem keepsSnapshots_update {c : Call Unit} (h : c.writesTo = some .applies) :
    KeepsSnapshots (call c) := writes_perform h nofun

theorem keepsSnapshots_recordHighWater (number : Nat) :
    KeepsSnapshots (recordHighWater number) := by
  refine All.bind (readOnly_perform rfl) fun found => ?_
  cases found with
  | none => exact writes_perform rfl nofun
  | some current =>
    show KeepsSnapshots (if number ≤ current then _ else _)
    split
    · trivial
    · exact writes_perform rfl nofun

theorem commitStage_operator (actor : String) (prepared : Prepared) :
    commitStage .operator id actor prepared = (do
      call (.pushStage id .committing none)
      let latest ← call .findLatestSnapshot
      call (.insertSnapshot ⟨numberAfter latest, prepared.desired, id⟩)
      afterSnapshot id actor (numberAfter latest)) := by
  simp only [commitStage, commit, commitSnapshot, bind_eq, pure_eq, Prog.bind_assoc, ret_bind]
  rfl

theorem keepsSnapshots_afterSnapshot (actor : String) (number : Nat) :
    KeepsSnapshots (afterSnapshot id actor number) :=
  All.bind (keepsSnapshots_recordHighWater _).attempt fun _ =>
    All.bind (All.bind (readOnly_rederived _) fun _ =>
      All.bind (writes_saveCandidateAs nofun nofun _ _ _ _ _) fun _ => trivial) fun _ =>
        All.bind (keepsSnapshots_update rfl) fun _ => All.bind (keepsSnapshots_update rfl) fun _ =>
          writes_audited nofun _

theorem keepsSnapshots_commitStage_admin (actor : String) (prepared : Prepared) :
    KeepsSnapshots (commitStage .admin id actor prepared) :=
  writes_commitStage nofun nofun trivial

/-- The last stage inserts a Snapshot of what was captured, numbered after the latest it has read;
and only that of an Operator Apply does. -/
theorem commitStage_trace {kind : EngineKind} {actor : String} {prepared : Prepared}
    {snapshot : Snapshot} {k : Except Error Unit → PipelineProg Unit}
    (h : (commitStage kind id actor prepared).TraceTo calls (.call (.insertSnapshot snapshot) k)) :
    kind = .operator ∧ ∃ latest,
      calls = [⟨.pushStage id .committing none, .ok ()⟩, ⟨.findLatestSnapshot, .ok latest⟩] ∧
      snapshot = ⟨numberAfter latest, prepared.desired, id⟩ := by
  have hinsert : ¬ ∀ collection ∈ (Call.insertSnapshot snapshot).writesTo,
      collection ≠ .snapshots := fun h => h _ rfl rfl
  cases kind with
  | admin => exact absurd ((keepsSnapshots_commitStage_admin actor prepared).traceTo h).1.1 hinsert
  | operator =>
    have hpush : KeepsSnapshots (call (.pushStage id .committing none)) := writes_perform rfl nofun
    have hlatest : KeepsSnapshots (call .findLatestSnapshot) := readOnly_perform rfl
    rw [commitStage_operator] at h
    obtain ⟨u, first, rest, rfl, hfirst, hrest⟩ := TraceTo.past hpush hinsert h
    obtain rfl := comes_perform_inv hfirst
    obtain ⟨latest, read, last, rfl, hread, hlast⟩ := TraceTo.past hlatest hinsert hrest
    obtain rfl := comes_perform_inv hread
    -- What follows the insertion of one Snapshot does not insert another.
    have hafter {rest : List (Made Call)} : ¬ (afterSnapshot id actor (numberAfter latest)).TraceTo
        rest (.call (.insertSnapshot snapshot) k) :=
      fun h => hinsert ((keepsSnapshots_afterSnapshot actor _).traceTo h).1.1
    rcases TraceTo.call_inv hlast with ⟨rfl, hq⟩ | ⟨r, rest, rfl, hdone⟩
    · cases hq
      exact ⟨rfl, latest, rfl, rfl⟩
    · rcases r with e | u
      · cases hdone
      · exact absurd hdone hafter

/-- What runs on the Cluster reads none of the values. -/
theorem readsNoValues_onCluster (p : ClusterProg α) :
    (onCluster p).All fun c => ¬ c.readsValues := by
  apply All.lift
  induction p with
  | ret a => trivial
  | raise e => trivial
  | call op k ih => exact ⟨id, ih⟩

theorem freezeAdminValues_comes {cluster : Cluster}
    (h : (freezeAdminValues app).Comes calls (.ok cluster)) :
    ∃ document, calls = [⟨.findAdmin, .ok document⟩] ∧
      cluster = ⟨app.settings, document.getD {}⟩ := by
  obtain ⟨admin, loaded, rest, rfl, hloaded, hrest⟩ := h.bind_inv
  obtain ⟨rfl, rfl⟩ := comes_ret_inv hrest
  obtain ⟨document, found, rest', rfl, hfound, hrest'⟩ := hloaded.bind_inv
  obtain ⟨rfl, rfl⟩ := comes_ret_inv hrest'
  obtain rfl := comes_perform_inv hfound
  exact ⟨document, rfl, rfl⟩

theorem validate_captures {kind : EngineKind} {prepared : Prepared}
    (h : (validate app kind).Comes calls (.ok prepared)) : Captures app kind prepared calls := by
  obtain ⟨u, checked, rest, rfl, hchecked, hrest⟩ := h.bind_inv
  obtain rfl := comes_perform_inv hchecked
  obtain ⟨cluster, frozen, rest₁, rfl, hfrozen, hrest₁⟩ := hrest.bind_inv
  obtain ⟨document, rfl, rfl⟩ := freezeAdminValues_comes hfrozen
  obtain ⟨⟨desired, current⟩, loaded, planned, rfl, hloaded, hplanned⟩ := hrest₁.bind_inv
  have hreads : ∀ made ∈ planned, ¬ made.op.readsValues := by
    refine (All.traceTo (P := fun c => ¬ c.readsValues) ?_ hplanned).2
    exact All.bind (readsNoValues_onCluster _) fun _ => All.bind (readsNoValues_onCluster _) fun _ =>
      All.bind (all_perform id) fun _ => trivial
  obtain ⟨rollout, _, rest₂, -, -, hrest₂⟩ := hplanned.bind_inv
  obtain ⟨rawFilesChanged, _, rest₃, -, -, hrest₃⟩ := hrest₂.bind_inv
  obtain ⟨warnings, _, rest₄, -, -, hrest₄⟩ := hrest₃.bind_inv
  obtain ⟨-, rfl⟩ := comes_ret_inv hrest₄
  have hcaptured : Captures app kind
      ⟨⟨app.settings, document.getD {}⟩, desired, current, rollout, rawFilesChanged, warnings⟩
      (⟨.checkPreconditions, .ok ()⟩ :: ⟨.findAdmin, .ok document⟩ :: (loaded ++ planned)) :=
    .mk rfl hloaded hreads
  exact hcaptured

/-- The last stage, up to the insertion of a Snapshot. -/
theorem committing_trace {kind : EngineKind} {actor : String} {prepared : Prepared}
    {snapshot : Snapshot} {k : Except Error Unit → PipelineProg (Except (Stage × Error) Unit)}
    (h : (inStage .committing (commitStage kind id actor prepared)).run.TraceTo calls
      (.call (.insertSnapshot snapshot) k)) :
    kind = .operator ∧ ∃ latest,
      calls = [⟨.pushStage id .committing none, .ok ()⟩, ⟨.findLatestSnapshot, .ok latest⟩] ∧
      snapshot = ⟨numberAfter latest, prepared.desired, id⟩ := by
  obtain ⟨_, hcommit⟩ := staged_before h
  exact commitStage_trace hcommit

/-- The stages of an Apply up to the insertion of a Snapshot. -/
theorem runStages_trace {kind : EngineKind} {actor : String} {snapshot : Snapshot}
    {k : Except Error Unit → PipelineProg (Except (Stage × Error) Unit)}
    (h : (runStages app kind id actor).run.TraceTo calls (.call (.insertSnapshot snapshot) k)) :
    kind = .operator ∧ ∃ latest, Commits app id latest snapshot calls := by
  have hinsert : ¬ ∀ collection ∈ (Call.insertSnapshot snapshot).writesTo,
      collection ≠ .snapshots := fun h => h _ rfl rfl
  have hstage (stage : Stage) (p : ClusterProg Unit) : KeepsSnapshots (do
      call (.pushStage id stage none)
      onCluster p) :=
    All.bind (keepsSnapshots_update rfl) fun _ => keepsSnapshots_onCluster p
  have hvalidating : KeepsSnapshots (do
      let prepared ← validate app kind
      call (.setWarnings id prepared.warnings)
      pure prepared) :=
    All.bind (readOnly_validate kind) fun _ => All.bind (keepsSnapshots_update rfl) fun _ => trivial
  obtain ⟨prepared, first, rest, rfl, hfirst, hrest⟩ := staged_past hvalidating hinsert h
  obtain ⟨validated, rfl, hvalidated⟩ := comes_validating hfirst
  obtain ⟨_, second, rest₁, rfl, hsecond, hrest₁⟩ := staged_past (hstage _ _) hinsert hrest
  obtain ⟨applied, rfl, happlied⟩ := comes_recorded hsecond
  -- The stages from the verification on.
  have hlast {calls : List (Made Call)} {k : Except Error Unit → PipelineProg _}
      (h : (do
        inStage .verifying do
          call (.pushStage id .verifying none)
          onCluster (verifyStage app prepared)
        inStage .committing (commitStage kind id actor prepared) : Staged Unit).run.TraceTo calls
          (.call (.insertSnapshot snapshot) k)) :
      kind = .operator ∧ ∃ latest verified, snapshot = ⟨numberAfter latest, prepared.desired, id⟩ ∧
        (onCluster (verifyStage app prepared)).Comes verified (.ok ()) ∧
        calls = ⟨.pushStage id .verifying none, .ok ()⟩ :: (verified ++
          [⟨.pushStage id .committing none, .ok ()⟩, ⟨.findLatestSnapshot, .ok latest⟩]) := by
    obtain ⟨_, third, rest₂, rfl, hthird, hrest₂⟩ := staged_past (hstage _ _) hinsert h
    obtain ⟨verified, rfl, hverified⟩ := comes_recorded hthird
    obtain ⟨hkind, latest, rfl, hsnapshot⟩ := committing_trace hrest₂
    exact ⟨hkind, latest, verified, hsnapshot, hverified, by simp⟩
  have hrolledOut : kind = .operator ∧ ∃ latest rolledOut verified,
      snapshot = ⟨numberAfter latest, prepared.desired, id⟩ ∧ RolledOut app id prepared rolledOut ∧
      (onCluster (verifyStage app prepared)).Comes verified (.ok ()) ∧
      rest₁ = rolledOut ++ ⟨.pushStage id .verifying none, .ok ()⟩ :: (verified ++
        [⟨.pushStage id .committing none, .ok ()⟩, ⟨.findLatestSnapshot, .ok latest⟩]) := by
    split at hrest₁
    · next hneeded =>
      obtain ⟨_, third, rest₂, rfl, hthird, hrest₂⟩ := staged_past (hstage _ _) hinsert hrest₁
      obtain ⟨rolled, rfl, hrolled⟩ := comes_recorded hthird
      obtain ⟨hkind, latest, verified, hsnapshot, hverified, rfl⟩ := hlast hrest₂
      refine ⟨hkind, latest, _, verified, hsnapshot, ?_, hverified, rfl⟩
      rw [RolledOut, if_pos hneeded]
      exact ⟨rolled, rfl, hrolled⟩
    · next hneeded =>
      obtain ⟨hkind, latest, verified, hsnapshot, hverified, rfl⟩ := hlast hrest₁
      refine ⟨hkind, latest, [], verified, hsnapshot, ?_, hverified, rfl⟩
      rw [RolledOut, if_neg hneeded]
  obtain ⟨rfl, latest, rolledOut, verified, hsnapshot, hrolledOut, hverified, rfl⟩ := hrolledOut
  have hcommits := Commits.mk hvalidated (validate_captures hvalidated) happlied hrolledOut hverified
    hsnapshot
  exact ⟨rfl, latest, by simpa using hcommits⟩

/-- An Apply up to the insertion of a Snapshot: it has not failed. -/
theorem runApply_trace {kind : EngineKind} {actor : String} {snapshot : Snapshot}
    {k : Except Error Unit → PipelineProg Unit}
    (h : (runApply app kind id actor).TraceTo calls (.call (.insertSnapshot snapshot) k)) :
    kind = .operator ∧ ∃ latest, Commits app id latest snapshot calls := by
  have hinsert : ¬ ∀ collection ∈ (Call.insertSnapshot snapshot).writesTo,
      collection ≠ .snapshots := fun h => h _ rfl rfl
  -- Nothing that follows the stages inserts a Snapshot.
  refine (TraceTo.before (P := fun c => ∀ collection ∈ c.writesTo, collection ≠ .snapshots)
    (fun r => ?_) hinsert h).elim fun _ hstages => runStages_trace hstages
  rcases r with ⟨reached, e⟩ | u
  · exact writes_failedIn (by simp) (by simp) (by simp) (by simp) (by simp) actor reached e
  · trivial

/-! ### What the calls leave alone -/

/-- A call that leaves the record in flight and the Snapshots as they are. -/
def Call.quiet (id : String) {β : Type} (c : Call β) : Prop :=
  c.during id ∧ c.writesTo ≠ some .snapshots

theorem quiet_of {p : PipelineProg α} (hduring : p.All fun c => c.during id)
    (hkeeps : KeepsSnapshots p) : p.All fun c => c.quiet id :=
  (hduring.and hkeeps).mono fun _ h => ⟨h.1, fun hsnapshots => h.2 _ hsnapshots rfl⟩

theorem quiet_onCluster (p : ClusterProg α) : (onCluster p).All fun c => c.quiet id :=
  quiet_of (during_onCluster p) (keepsSnapshots_onCluster p)

theorem quiet_pushStage {stage : Stage} (hstage : stage ∉ TERMINAL) (detail : Option String) :
    (Call.pushStage id stage detail).quiet id :=
  (quiet_of (during_pushStage detail hstage) (keepsSnapshots_update rfl)).1

theorem quiet_validate (kind : EngineKind) : (validate app kind).All fun c => c.quiet id :=
  quiet_of (during_of_ofKind (ofKind_validate ⟨nofun, nofun⟩ ⟨nofun, nofun⟩ ⟨nofun, nofun⟩ kind))
    (readOnly_validate kind)

theorem quiet_setWarnings (warnings : List ValidationFailure) :
    (Call.setWarnings id warnings).quiet id :=
  (quiet_of (during_update rfl rfl) (keepsSnapshots_update rfl)).1

/-- Up to the delivery of what it captured an Apply is quiet. -/
theorem Delivers.quiet {kind : EngineKind} {prepared : Prepared}
    (h : Delivers app kind id prepared calls) : ∀ made ∈ calls, made.op.quiet id := by
  obtain ⟨hvalidated, -, happlied⟩ := h
  intro made hmade
  simp only [List.mem_append, List.mem_cons] at hmade
  rcases hmade with hmem | rfl | rfl | hmem
  · exact ((quiet_validate kind).traceTo hvalidated).2 made hmem
  · exact quiet_setWarnings _
  · exact quiet_pushStage (by decide) _
  · exact ((quiet_onCluster _).traceTo happlied).2 made hmem

/-- So it is up to the insertion of its Snapshot. -/
theorem Commits.quiet {latest : Option Snapshot} {snapshot : Snapshot}
    (h : Commits app id latest snapshot calls) : ∀ made ∈ calls, made.op.quiet id := by
  cases h with
  | @mk prepared validated applied rolledOut verified hvalidated hcaptured happlied hrolledOut
      hverified _ =>
    have hrolled : ∀ made ∈ rolledOut, made.op.quiet id := by
      unfold RolledOut at hrolledOut
      split at hrolledOut
      · obtain ⟨rolled, rfl, hrolled⟩ := hrolledOut
        intro made hmade
        rcases List.mem_cons.mp hmade with rfl | hmem
        · exact quiet_pushStage (by decide) _
        · exact ((quiet_onCluster _).traceTo hrolled).2 made hmem
      · subst hrolledOut
        exact fun _ hmade => absurd hmade List.not_mem_nil
    intro made hmade
    simp only [List.mem_append, List.mem_cons] at hmade
    rcases hmade with hmem | rfl | rfl | hmem | hmem | rfl | hmem | rfl | rfl | hmem
    · exact ((quiet_validate _).traceTo hvalidated).2 made hmem
    · exact quiet_setWarnings _
    · exact quiet_pushStage (by decide) _
    · exact ((quiet_onCluster _).traceTo happlied).2 made hmem
    · exact hrolled made hmem
    · exact quiet_pushStage (by decide) _
    · exact ((quiet_onCluster _).traceTo hverified).2 made hmem
    · exact quiet_pushStage (by decide) _
    · exact ⟨during_of_kind _ nofun nofun, nofun⟩
    · cases hmem

end traces

/-! ### What was read of the Snapshots -/

/-- The call reads the Snapshots. -/
def Call.readsSnapshots {β : Type} : Call β → Prop
  | .findLatestSnapshot | .findSnapshot _ => True
  | _ => False

/-- What a call read of the Snapshots it would read again. -/
def Stands (outside : Outside) (world : World) (made : Made Call) : Prop :=
  made.op.readsSnapshots → ∀ a, made.answer = .ok a → (world.exec outside made.op).1 = .ok a

section stands

variable {outside : Outside} {world world' : World}

/-- It would as long as the Snapshots are as they were. -/
theorem Stands.kept {made : Made Call} (h : Stands outside world made)
    (hsnapshots : world'.snapshots = world.snapshots) : Stands outside world' made := by
  obtain ⟨op, answer⟩ := made
  intro hreads a ha
  have hstood := h hreads a ha
  cases op with
  | findLatestSnapshot => simpa only [World.exec, hsnapshots] using hstood
  | findSnapshot number => simpa only [World.exec, hsnapshots] using hstood
  | _ => exact hreads.elim

/-- What was just read stands. -/
theorem stands_of_answer {β : Type} {c : Call β} {r : Except Error β}
    (hanswer : (worldMachine outside).Answer c world r world') : Stands outside world' ⟨c, r⟩ := by
  intro hreads (a : β) (ha : r = .ok a)
  subst ha
  have hexec : world.exec outside c = (.ok a, world') := hanswer.ok
  cases c with
  | findLatestSnapshot =>
    obtain ⟨hread, rfl⟩ := Prod.mk.inj hexec
    exact hread
  | findSnapshot number =>
    obtain ⟨hread, rfl⟩ := Prod.mk.inj hexec
    exact hread
  | _ => exact hreads.elim

/-- What `sections_of` has come to is what the world holds, as long as its read stands. -/
theorem sectionsOf_stands {number : Option Nat} {calls : List (Made Call)} {sections : Sections}
    (h : (sectionsOf number).Comes calls (.ok sections))
    (hstands : ∀ made ∈ calls, Stands outside world made) :
    sections = world.sectionsAt number := by
  cases number with
  | none => exact (comes_ret_inv h).2
  | some number =>
    obtain ⟨found, read, rest, rfl, hread, hrest⟩ := h.bind_inv
    obtain rfl := comes_perform_inv hread
    have hfound : world.snapshots.find? (fun snapshot => snapshot.number = number) = found :=
      Except.ok.inj (hstands _ (List.mem_append_left _ (List.mem_singleton_self _)) trivial _ rfl)
    show sections = match world.snapshots.find? _ with | none => _ | some snapshot => _
    rw [hfound]
    cases found with
    | none => exact (comes_ret_inv hrest).2
    | some snapshot => exact (comes_ret_inv hrest).2

/-- An Admin Apply captures the Sections of the latest Snapshot. -/
theorem desired_of_stands {calls : List (Made Call)} {desired current : Sections}
    (h : (desiredAndBaseline .admin).Comes calls (.ok (desired, current)))
    (hstands : ∀ made ∈ calls, Stands outside world made) : desired = world.latest := by
  obtain ⟨⟨number, sections⟩, found, rest, rfl, hfound, hrest⟩ := h.bind_inv
  obtain ⟨rfl, hdesired⟩ := comes_ret_inv hrest
  obtain rfl : desired = sections := (Prod.mk.inj hdesired).1
  obtain ⟨latest, read, rest₁, rfl, hread, hrest₁⟩ := hfound.bind_inv
  obtain rfl := comes_perform_inv hread
  obtain ⟨sections, loaded, rest₂, rfl, hloaded, hrest₂⟩ := hrest₁.bind_inv
  obtain ⟨rfl, hsections⟩ := comes_ret_inv hrest₂
  obtain ⟨-, rfl⟩ := Prod.mk.inj hsections
  have hlatest : latestOf world.snapshots = latest :=
    Except.ok.inj (hstands ⟨.findLatestSnapshot, .ok latest⟩ (by simp) trivial _ rfl)
  have hsection := sectionsOf_stands hloaded fun made hmade => hstands made (by simp [hmade])
  rw [hsection, World.latest, World.latestNumber, hlatest]

end stands

end Apchi.Pipeline
