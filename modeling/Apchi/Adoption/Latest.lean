import Apchi.Adoption.Reading

/-!
# What an adoption stages, and the latest reading

Amendments outlive the reading they were made for, and the differences are those of what two
successive readings read.  So an amendment can stage a catalog that the Cluster has since dropped, and a
catalog that was only ever reported as incomplete goes without a word.
-/

namespace Apchi.Adoption

open Lib Pipeline

/-- The moments at which the Cluster was read, the first of them first. -/
def observations (acts : List Act) : List Observed :=
  acts.filterMap fun
    | .read observed => some observed
    | _ => none

/-- The reading has the resource, or has reported it as incomplete. -/
def Discovery.Knows (read : Discovery) (sect : SectionName) (name : String) : Prop :=
  name ∈ read.resources sect ∨ ∃ problem ∈ read.everyProblem,
    problem.kind = .incomplete ∧ problem.sect = some sect ∧ problem.path = some name

/-! ## One act after another -/

theorem run_snoc (acts : List Act) (act : Act) : run (acts ++ [act]) = step (run acts) act := by
  rw [run, run, List.foldl_append, List.foldl_cons, List.foldl_nil]

theorem observations_snoc (acts : List Act) (act : Act) :
    observations (acts ++ [act]) = observations acts ++ observations [act] :=
  List.filterMap_append

/-- The stored reading is the latest one, and the changes are those since the one before. -/
structure Current (readings : List Discovery) (stored : StoredDiscovery) : Prop where
  latest : readings.getLast? = some stored.read
  changed : stored.changedSinceLastRead = differences readings.dropLast.getLast? stored.read

theorem current_amend {readings : List Discovery} {stored : StoredDiscovery}
    (h : Current readings stored) (sect : SectionName) (resource : String) (value : Json) :
    Current readings (DiscoveryStore.amend stored sect resource value) :=
  ⟨h.latest, h.changed⟩

theorem current_withdraw {readings : List Discovery} {stored : StoredDiscovery}
    (h : Current readings stored) (sect : SectionName) (resource : String) :
    Current readings (DiscoveryStore.withdraw stored sect resource) := by
  unfold DiscoveryStore.withdraw
  split
  · exact ⟨h.latest, h.changed⟩
  · exact h

/-- After any acts, what is stored is current; nothing is stored before the first reading. -/
theorem run_current (acts : List Act) :
    (run acts).elim (observations acts = []) (Current ((observations acts).map discover)) := by
  induction acts using List.reverseRecOn with
  | nil => rfl
  | append_singleton acts act ih =>
    rw [run_snoc, observations_snoc]
    cases act with
    | read observed =>
      show Current ((observations acts ++ [observed]).map discover)
        (DiscoveryStore.record (run acts) (discover observed))
      rw [List.map_append, List.map_singleton]
      refine ⟨List.getLast?_concat, ?_⟩
      rw [List.dropLast_concat]
      show differences ((run acts).map StoredDiscovery.read) (discover observed) = _
      cases hrun : run acts with
      | none =>
        rw [hrun] at ih
        have hnone : observations acts = [] := ih
        rw [hnone]
        rfl
      | some stored =>
        rw [hrun] at ih
        have hcurrent : Current ((observations acts).map discover) stored := ih
        rw [hcurrent.latest]
        rfl
    | amend sect resource value =>
      show ((run acts).map fun stored => DiscoveryStore.amend stored sect resource value).elim _ _
      rw [show observations [Act.amend sect resource value] = [] from rfl, List.append_nil]
      cases hrun : run acts with
      | none =>
        rw [hrun] at ih
        exact ih
      | some stored =>
        rw [hrun] at ih
        exact current_amend ih sect resource value
    | withdraw sect resource =>
      show ((run acts).map fun stored => DiscoveryStore.withdraw stored sect resource).elim _ _
      rw [show observations [Act.withdraw sect resource] = [] from rfl, List.append_nil]
      cases hrun : run acts with
      | none =>
        rw [hrun] at ih
        exact ih
      | some stored =>
        rw [hrun] at ih
        exact current_withdraw ih sect resource

/-! ## What is staged -/

theorem mem_resolved (stored : StoredDiscovery) (sect : SectionName) (name : String) :
    name ∈ stored.resolved sect ↔
      name ∈ stored.read.resources sect ∨ name ∈ stored.amendments sect := by
  rw [StoredDiscovery.resolved, Std.ExtTreeMap.mem_insertMany_list,
    Std.ExtTreeMap.map_fst_toList_eq_keys, List.contains_iff_mem, Std.ExtTreeMap.mem_keys]

theorem lookup_discover (observed : Observed) (sect : SectionName) :
    (discover observed).sections.lookup sect = some (if sect = .catalogs then
      reconcileCatalogs (observed.found sect) observed.seed observed.trino
      else observed.found sect) := by
  cases sect <;> rfl

theorem lookup_toPipeline {observed : Observed} {stored : StoredDiscovery}
    (hread : stored.read = discover observed) (sect : SectionName) :
    stored.toPipeline.resolved.lookup sect = some (stored.resolved sect) := by
  rw [StoredDiscovery.toPipeline, hread]
  cases sect <;> rfl

theorem resources_catalogs (observed : Observed) : (discover observed).resources .catalogs =
    (reconcileCatalogs (observed.found .catalogs) observed.seed observed.trino).resources := rfl

theorem mem_everyProblem_catalogs {observed : Observed} {problem : Problem}
    (h : problem ∈
      (reconcileCatalogs (observed.found .catalogs) observed.seed observed.trino).problems) :
    problem ∈ (discover observed).everyProblem :=
  List.mem_append_right _ (List.mem_flatMap.mpr ⟨_, List.mem_cons_self, h⟩)

/-- A catalog that Trino serves is read or reported as incomplete. -/
theorem live_known {observed : Observed} {live : Std.ExtTreeMap String String}
    (htrino : observed.trino = .loaded live) {name : String} (hlive : name ∈ live)
    (hadopted : name ∉ NEVER_ADOPTED) : name ∈ (discover observed).resources .catalogs ∨
      ∃ connector, incompleteCatalog name connector ∈ (discover observed).everyProblem := by
  by_cases hread : name ∈ (discover observed).resources .catalogs
  · exact .inl hread
  · refine .inr ⟨live[name], mem_everyProblem_catalogs ?_⟩
    rw [resources_catalogs, htrino] at hread
    rw [htrino]
    refine List.mem_append_left _ (List.mem_append_left _ (List.mem_append_right _ ?_))
    refine List.mem_map.mpr ⟨(name, live[name]), List.mem_filter.mpr ⟨?_, ?_⟩, rfl⟩
    · exact Std.ExtTreeMap.mem_toList_iff_getElem?_eq_some.mpr (Std.ExtTreeMap.getElem?_eq_some_getElem _)
    · exact decide_eq_true ⟨hadopted, hread⟩

/-- Of a complete discovery every problem but a cutover has been answered. -/
theorem answered_of_complete {stored : StoredDiscovery} (hcomplete : stored.complete = true)
    {problem : Problem} (h : problem ∈ stored.read.everyProblem) (hkind : problem.kind ≠ .cutover) :
    stored.answered problem = true := by
  by_contra hanswered
  have hmem : problem ∈ stored.outstanding :=
    List.mem_filter.mpr ⟨h, decide_eq_true ⟨hkind, hanswered⟩⟩
  rw [StoredDiscovery.complete, List.isEmpty_iff] at hcomplete
  rw [hcomplete] at hmem
  cases hmem

/-- A complete discovery holds every catalog that Trino was found to serve. -/
theorem live_resolved {observed : Observed} {stored : StoredDiscovery}
    (hread : stored.read = discover observed) (hcomplete : stored.complete = true)
    {live : Std.ExtTreeMap String String} (htrino : observed.trino = .loaded live) {name : String}
    (hlive : name ∈ live) (hadopted : name ∉ NEVER_ADOPTED) : name ∈ stored.resolved .catalogs := by
  rw [mem_resolved, hread]
  refine (live_known htrino hlive hadopted).imp_right ?_
  rintro ⟨connector, hproblem⟩
  rw [← hread] at hproblem
  have hkind : (incompleteCatalog name connector).kind ≠ .cutover := ProblemKind.noConfusion
  have hanswered := answered_of_complete hcomplete hproblem hkind
  exact of_decide_eq_true hanswered

/-! ## What is said to have changed -/

/-- A line tells its Section, and its name if it says the same of it. -/
theorem changeLine_gone_inj {sect : SectionName} {name other what : String}
    (hwhat : what = "is no longer" ∨ what = "is new" ∨ what = "has changed")
    (h : changeLine sect other what = changeLine .catalogs name "is no longer") :
    sect = .catalogs ∧ other = name ∧ what = "is no longer" := by
  have hlist := congrArg String.toList h
  simp only [changeLine, String.toList_append, List.append_assoc] at hlist
  have hsect : sect = .catalogs := by
    cases sect <;> first | rfl | simp [SectionName.text] at hlist
  subst hsect
  have hname : other.toList ++ (' ' :: (what.toList ++ " on the Cluster".toList)) =
      name.toList ++ (" is no longer on the Cluster".toList) := by
    simpa using hlist
  rcases hwhat with rfl | rfl | rfl
  · exact ⟨rfl, String.toList_inj.mp (List.append_cancel_right hname), rfl⟩
  · have hreverse := congrArg List.reverse hname
    simp at hreverse
  · have hreverse := congrArg List.reverse hname
    simp at hreverse

/-- Two readings are compared Section by Section. -/
theorem differences_discover (earlier latest : Observed) :
    differences (some (discover earlier)) (discover latest) =
      REGISTERED.flatMap fun sect =>
        sectionDifferences sect ((discover earlier).resources sect) ((discover latest).resources sect) := by
  simp only [differences, Discovery.resources, lookup_discover, Option.map_some, Option.getD_some]
  exact List.flatMap_map ..

/-- A line about a lost catalog is there exactly where the one reading read it and the next did not. -/
theorem gone_mem_differences (earlier latest : Observed) (name : String) :
    changeLine .catalogs name "is no longer" ∈ differences (some (discover earlier)) (discover latest) ↔
      name ∈ (discover earlier).resources .catalogs ∧
        name ∉ (discover latest).resources .catalogs := by
  rw [differences_discover, List.mem_flatMap]
  constructor
  · rintro ⟨sect, -, hline⟩
    simp only [sectionDifferences, List.mem_append, List.mem_map, List.mem_filter] at hline
    rcases hline with (⟨lost, ⟨hlost, hgone⟩, hline⟩ | ⟨arrived, -, hline⟩) | ⟨altered, -, hline⟩
    · obtain ⟨rfl, rfl, -⟩ := changeLine_gone_inj (.inl rfl) hline
      exact ⟨Std.ExtTreeMap.mem_keys.mp hlost, of_decide_eq_true hgone⟩
    · exact absurd (changeLine_gone_inj (.inr (.inl rfl)) hline).2.2 (by decide)
    · exact absurd (changeLine_gone_inj (.inr (.inr rfl)) hline).2.2 (by decide)
  · rintro ⟨hwas, hnow⟩
    refine ⟨.catalogs, List.mem_cons_self, List.mem_append_left _ (List.mem_append_left _ ?_)⟩
    refine List.mem_map.mpr ⟨name, List.mem_filter.mpr ⟨?_, decide_eq_true hnow⟩, rfl⟩
    exact Std.ExtTreeMap.mem_keys.mpr hwas

/-! ## The latest reading -/

/-- Everything staged is known to the latest reading. -/
def StoredDiscovery.StagesKnown (stored : StoredDiscovery) (latest : Discovery) : Prop :=
  ∀ sect, ∀ name ∈ stored.resolved sect, latest.Knows sect name

/-- Every amendment that stands is of something the latest reading knows. -/
def StoredDiscovery.AmendsKnown (stored : StoredDiscovery) (latest : Discovery) : Prop :=
  ∀ sect, ∀ name ∈ stored.amendments sect, latest.Knows sect name

/-- A catalog that one of the readings knew and the latest one does not. -/
def Lost (earlier : List Observed) (latest : Observed) (name : String) : Prop :=
  (∃ observed ∈ earlier, (discover observed).Knows .catalogs name) ∧
    ¬ (discover latest).Knows .catalogs name

/-- A Cluster with nothing to read, whose Trino serves these catalogs. -/
def serving (live : Std.ExtTreeMap String String) : Observed where
  preconditions := []
  found _ := ⟨∅, []⟩
  seed := ∅
  trino := .loaded live
  adminValues := {}

/-- Read while Trino serves one catalog, its properties supplied, and read again once it is gone. -/
def salesDropped : List Act :=
  [.read (serving (.ofList [("sales", "postgresql")])),
    .amend .catalogs "sales" (.obj [("connector", .str "postgresql")]), .read (serving ∅)]

end Apchi.Adoption
