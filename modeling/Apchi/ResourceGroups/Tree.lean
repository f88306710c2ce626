import Apchi.Lib.Forest
import Apchi.ResourceGroups.Reading

/-!
# The tree of groups

A file holds its groups as objects inside objects; the Candidate holds them under their paths.  Reading
a file takes in its group objects one by one, in the order they stand; rendering a state writes a group
object for every group whose ancestors are there, at the position its path names.
-/

namespace Apchi.ResourceGroups

open Lib Pipeline

/-! ### The group objects of a file -/

/-- A group object: the names on the way down to it, its own the last, and its own fields. -/
structure GroupObject where
  names : List String
  own : List (String × Json)
  deriving DecidableEq

/-- The path a group object is flattened to. -/
def GroupObject.full (object : GroupObject) : String := ".".intercalate object.names

/-- What a group object is called. -/
def calledIn (fields : List (String × Json)) : String :=
  match fields.lookup "name" with
  | some (.str name) => name
  | _ => ""

mutual

/-- A group object and those inside it. -/
def objectsOf (above : List String) : Json → List GroupObject
  | .obj fields => ⟨above ++ [calledIn fields], ownOf fields⟩ ::
      objectsSub (above ++ [calledIn fields]) fields
  | _ => []

/-- The group objects among the fields of one. -/
def objectsSub (names : List String) : List (String × Json) → List GroupObject
  | [] => []
  | (key, value) :: rest =>
      if key = "subGroups" then
        match value with
        | .arr subgroups => objectsAll names subgroups
        | _ => []
      else objectsSub names rest

/-- The group objects of a list. -/
def objectsAll (above : List String) : List Json → List GroupObject
  | [] => []
  | group :: rest => objectsOf above group ++ objectsAll above rest

end

/-- The group objects of a file. -/
def objectsIn (content : String) : List GroupObject :=
  match documentIn "" content with
  | .ok fields => match listIn "" fields "rootGroups" with
      | .ok roots => objectsAll [] roots
      | .error _ => []
  | .error _ => []

/-! ### Reading takes in the group objects -/

/-- What a group object is stored as. -/
def storedAs (models : Models) (object : GroupObject) : Json :=
  match models.group (known ResourceGroupWrite.names object.own) with
  | .ok write => .obj write.dump
  | .error _ => .null

/-- The models take a group object's fields. -/
def Valid (models : Models) (object : GroupObject) : Prop :=
  ∃ write : ResourceGroupWrite, storedAs models object = .obj write.dump

/-- Takes in one group object. -/
def takeObject (models : Models) (reading : Reading) (object : GroupObject) : Reading :=
  ⟨reading.groups.insert object.full (storedAs models object), reading.unaccounted ++
    unknown ResourceGroupWrite.names
      (fun key => "group '" ++ object.full ++ "' sets '" ++ key ++ "'") object.own⟩

/-- The path of what is above, if anything is. -/
def pathOf (above : List String) : Option String :=
  if above = [] then none else some (".".intercalate above)

theorem fullOf_pathOf (above : List String) (name : String) :
    fullOf (pathOf above) name = ".".intercalate (above ++ [name]) := by
  unfold pathOf fullOf
  split
  · next parent h =>
    split at h
    · cases h
    · next hne =>
      cases h
      rw [String.intercalate_append_of_ne_nil hne (by simp), String.intercalate_singleton]
  · next h =>
    split at h
    · next hnil => simp [hnil]
    · cases h

theorem calledIn_of_nameIn {fields : List (String × Json)} {name : String}
    (h : nameIn fields = some name) : calledIn fields = name := by
  unfold nameIn at h
  unfold calledIn
  cases hvalue : fields.lookup "name" with
  | none => rw [hvalue] at h; cases h
  | some value =>
    rw [hvalue] at h
    cases value with
    | str found =>
      dsimp only at h ⊢
      split at h
      · cases h
      · exact Option.some.inj h
    | _ => cases h

theorem takeGroup_eq {models : Models} {path : String} {names : List String}
    {fields : List (String × Json)} {reading reading' : Reading}
    (h : takeGroup models path (".".intercalate names) fields reading = .ok reading') :
    reading' = takeObject models reading ⟨names, ownOf fields⟩ ∧
      Valid models ⟨names, ownOf fields⟩ := by
  unfold takeGroup at h
  split at h
  · next write hwrite =>
    cases h
    have hstored : storedAs models ⟨names, ownOf fields⟩ = .obj write.dump := by
      unfold storedAs
      dsimp only
      rw [hwrite]
    refine ⟨?_, write, hstored⟩
    unfold takeObject
    rw [hstored]
    rfl
  · cases h

mutual

/-- What reading a group takes in are its group objects. -/
theorem flatten_eq {models : Models} {path : String} {above : List String} :
    ∀ {group : Json} {reading reading' : Reading},
      flatten models path (pathOf above) group reading = .ok reading' →
        reading' = (objectsOf above group).foldl (takeObject models) reading ∧
          ∀ object ∈ objectsOf above group, Valid models object
  | .obj fields, reading, reading', h => by
    unfold flatten at h
    split at h
    · cases h
    · next name hname =>
      obtain ⟨next, htake, h⟩ := ok_of_bind h
      rw [fullOf_pathOf] at htake h
      unfold objectsOf
      obtain ⟨hnext, hvalid⟩ := takeGroup_eq htake
      rw [calledIn_of_nameIn hname, List.foldl_cons, List.forall_mem_cons, ← hnext]
      obtain ⟨hreading, hall⟩ := flattenSub_eq h (by simp)
      exact ⟨hreading, hvalid, hall⟩
  | .null, _, _, h | .bool _, _, _, h | .int _, _, _, h | .float _, _, _, h | .str _, _, _, h
  | .arr _, _, _, h => by
    unfold flatten at h
    cases h

theorem flattenSub_eq {models : Models} {path : String} {names : List String} :
    ∀ {fields : List (String × Json)} {reading reading' : Reading},
      flattenSub models path (".".intercalate names) fields reading = .ok reading' → names ≠ [] →
        reading' = (objectsSub names fields).foldl (takeObject models) reading ∧
          ∀ object ∈ objectsSub names fields, Valid models object
  | [], _, _, h, _ => by
    unfold flattenSub at h
    cases h
    exact ⟨rfl, nofun⟩
  | (key, value) :: rest, _, _, h, hne => by
    unfold flattenSub at h
    unfold objectsSub
    split at h
    · next hkey =>
      rw [if_pos hkey]
      split at h
      · next subgroups =>
        have hpath : some (".".intercalate names) = pathOf names := (if_neg hne).symm
        rw [hpath] at h
        exact flattenAll_eq h
      · cases h
    · next hkey =>
      rw [if_neg hkey]
      exact flattenSub_eq h hne

theorem flattenAll_eq {models : Models} {path : String} {above : List String} :
    ∀ {groups : List Json} {reading reading' : Reading},
      flattenAll models path (pathOf above) groups reading = .ok reading' →
        reading' = (objectsAll above groups).foldl (takeObject models) reading ∧
          ∀ object ∈ objectsAll above groups, Valid models object
  | [], _, _, h => by
    unfold flattenAll at h
    cases h
    exact ⟨rfl, nofun⟩
  | group :: rest, _, _, h => by
    unfold flattenAll at h
    obtain ⟨next, hgroup, h⟩ := ok_of_bind h
    obtain ⟨hnext, hvalid⟩ := flatten_eq hgroup
    unfold objectsAll
    rw [List.foldl_append, List.forall_mem_append, ← hnext]
    obtain ⟨hreading, hall⟩ := flattenAll_eq h
    exact ⟨hreading, hvalid, hall⟩

end

theorem selectors_of_readSelectors {models : Models} {path : String} {index : Nat} {raw : List Json}
    {selectors : List Json} {reported : List Unaccounted}
    (h : readSelectors models path index raw = .ok (selectors, reported)) :
    ∃ writes : List Selector, selectors = writes.map fun selector => .obj selector.dump := by
  induction raw generalizing index selectors reported with
  | nil =>
    cases h
    exact ⟨[], rfl⟩
  | cons elem rest ih =>
    obtain ⟨⟨selector, unaccounted⟩, hselector, h⟩ := ok_of_bind h
    obtain ⟨⟨others, reported⟩, hothers, h⟩ := ok_of_bind h
    cases h
    obtain ⟨writes, rfl⟩ := ih hothers
    unfold readSelector at hselector
    split at hselector
    · split at hselector
      · next write _ =>
        cases hselector
        exact ⟨write :: writes, rfl⟩
      · cases hselector
    · cases hselector

theorem objectsIn_eq {path content : String} {fields : List (String × Json)} {roots : List Json}
    (hfields : documentIn path content = .ok fields)
    (hroots : listIn path fields "rootGroups" = .ok roots) :
    objectsIn content = objectsAll [] roots := by
  have hfields' : documentIn "" content = .ok fields := by
    unfold documentIn at hfields ⊢
    split at hfields
    · cases hfields
    · exact hfields
    · cases hfields
  have hroots' : listIn "" fields "rootGroups" = .ok roots := by
    unfold listIn at hroots ⊢
    split at hroots
    · exact hroots
    · cases hroots
  unfold objectsIn
  rw [hfields']
  dsimp only
  rw [hroots']

/-- **What reading a file makes of its groups**: its group objects are taken in one by one, in the
order they stand, and the settings and the selectors are stored beside them. -/
theorem parseRules_groups {models : Models} {path content : String} {resources : Resources}
    {unaccounted : List Unaccounted}
    (h : parseRules models path content = .ok (resources, unaccounted)) :
    (∃ selectors settings, resources = setSelectors (setSettings
      ((objectsIn content).foldl (takeObject models) ⟨∅, []⟩).groups settings) selectors) ∧
      ∀ object ∈ objectsIn content, Valid models object := by
  obtain ⟨fields, hfields, h⟩ := ok_of_bind h
  obtain ⟨roots, hroots, h⟩ := ok_of_bind h
  obtain ⟨reading, hreading, h⟩ := ok_of_bind h
  obtain ⟨rawSelectors, -, h⟩ := ok_of_bind h
  obtain ⟨⟨selectors, reported⟩, hselectors, h⟩ := ok_of_bind h
  obtain ⟨writes, rfl⟩ := selectors_of_readSelectors hselectors
  obtain ⟨hgroups, hvalid⟩ := @flattenAll_eq models path [] roots ⟨∅, []⟩ reading hreading
  rw [objectsIn_eq hfields hroots, ← hgroups]
  dsimp only at h
  split at h
  · cases h
  · next settings _ =>
    cases h
    exact ⟨⟨writes, settings, rfl⟩, hvalid⟩

theorem groups_takeObjects (models : Models) (objects : List GroupObject) (reading : Reading) :
    (objects.foldl (takeObject models) reading).groups =
      objects.foldl (fun groups object => groups.insert object.full (storedAs models object))
        reading.groups := by
  induction objects generalizing reading with
  | nil => rfl
  | cons object rest ih => exact ih _

/-! ### Paths -/

/-- The segments of a path. -/
def segments (path : String) : List String := (path.toList.splitOn '.').map String.ofList

theorem intercalate_segments (path : String) : ".".intercalate (segments path) = path := by
  apply String.toList_injective
  rw [String.toList_intercalate, segments, List.map_map]
  have hchars : (path.toList.splitOn '.').map (String.toList ∘ String.ofList) =
      path.toList.splitOn '.' := by
    simp [Function.comp_def]
  rw [hchars]
  exact List.intercalate_splitOn '.'

theorem segments_injective : Function.Injective segments := by
  intro path other h
  rw [← intercalate_segments path, h, intercalate_segments]

/-- A group's segments are its parent's and its own name. -/
theorem segments_of_parentOf {path parent : String} (h : parentOf path = some parent) :
    segments path = segments parent ++ [nameOf path] := by
  obtain ⟨⟨head, last⟩, hparts, rfl⟩ := Option.map_eq_some_iff.mp h
  have hchars := PyText.rpartition_append hparts
  have hlast := PyText.notMem_of_rpartition hparts
  unfold segments nameOf
  rw [hparts, hchars, List.splitOn_append_cons_self, List.splitOn_eq_singleton hlast]
  simp

theorem segments_of_root {path : String} (h : parentOf path = none) : segments path = [nameOf path] := by
  have hnone : PyText.rpartition '.' path.toList = none := Option.map_eq_none_iff.mp h
  unfold segments nameOf
  rw [hnone, List.splitOn_eq_singleton (PyText.notMem_of_rpartition_none hnone)]
  simp

/-! ### Rendering writes the groups that are reached from the roots -/

/-- The fields of a group as Trino has them, without its name. -/
def ownAt (groups : Resources) (path : String) : List (String × Json) :=
  match ownFields groups path with
  | .ok own => own.tail
  | .error _ => []

/-- The group object that is written for a group. -/
def objectAt (groups : Resources) (path : String) : GroupObject := ⟨segments path, ownAt groups path⟩

theorem ownFields_eq {groups : Resources} {path : String} {own : List (String × Json)}
    (h : ownFields groups path = .ok own) :
    own = ("name", .str (nameOf path)) :: ownAt groups path ∧
      ∀ field ∈ ownAt groups path, field.1 ≠ "name" ∧ field.1 ≠ "subGroups" := by
  have hown : ownAt groups path = own.tail := by
    unfold ownAt
    rw [h]
  have hnames := ownFields_names h
  obtain ⟨write, rfl⟩ := ownFields_eq_ok h
  rw [hown]
  refine ⟨rfl, fun field hfield => ?_⟩
  rw [List.map_cons, List.cons_append, List.nodup_cons, List.mem_append, not_or,
    List.nodup_append] at hnames
  have hmem : field.1 ∈ (trino write.dump).map Prod.fst := List.mem_map_of_mem hfield
  exact ⟨fun heq => hnames.1.1 (heq ▸ hmem), hnames.2.2.2 _ hmem _ List.mem_cons_self⟩

theorem objectsSub_cons {names : List String} {key : String} (h : key ≠ "subGroups") (value : Json)
    (rest : List (String × Json)) : objectsSub names ((key, value) :: rest) = objectsSub names rest := by
  conv_lhs => unfold objectsSub
  rw [if_neg h]

theorem objectsSub_append {names : List String} {own : List (String × Json)}
    (h : ∀ field ∈ own, field.1 ≠ "subGroups") (more : List (String × Json)) :
    objectsSub names (own ++ more) = objectsSub names more := by
  induction own with
  | nil => rfl
  | cons field rest ih =>
    rw [List.forall_mem_cons] at h
    rw [List.cons_append, objectsSub_cons h.1]
    exact ih h.2

theorem ownOf_eq {own : List (String × Json)}
    (h : ∀ field ∈ own, field.1 ≠ "name" ∧ field.1 ≠ "subGroups") : ownOf own = own :=
  List.filter_eq_self.mpr fun field hfield => by simpa using h field hfield

/-- The field the subgroups are written in. -/
def subField (subgroups : List Json) : List (String × Json) :=
  if subgroups.isEmpty then [] else [("subGroups", .arr subgroups)]

theorem ownOf_subField (subgroups : List Json) : ownOf (subField subgroups) = [] := by
  unfold subField
  split <;> rfl

theorem objectsSub_subField (names : List String) (subgroups : List Json) :
    objectsSub names (subField subgroups) = objectsAll names subgroups := by
  unfold subField
  cases subgroups with
  | nil => rfl
  | cons group rest => rfl

/-- The group object of what is written for a group, and those of what is written beneath it. -/
theorem objectsOf_written {groups : Resources} {path : String} {own : List (String × Json)}
    {above : List String} (h : ownFields groups path = .ok own)
    (hsegments : above ++ [nameOf path] = segments path) (subgroups : List Json) :
    objectsOf above (.obj (own ++ subField subgroups)) =
      objectAt groups path :: objectsAll (segments path) subgroups := by
  obtain ⟨rfl, hnames⟩ := ownFields_eq h
  have hcalled (more : List (String × Json)) :
      calledIn (("name", .str (nameOf path)) :: more) = nameOf path := rfl
  have hown : ownOf (("name", .str (nameOf path)) :: (ownAt groups path ++ subField subgroups)) =
      ownAt groups path := by
    have hsplit : ownOf (ownAt groups path ++ subField subgroups) = ownAt groups path := by
      unfold ownOf
      rw [List.filter_append]
      refine (congrArg₂ (· ++ ·) (ownOf_eq hnames) (ownOf_subField subgroups)).trans ?_
      exact List.append_nil _
    exact hsplit
  have hsub : objectsSub (segments path)
      (("name", .str (nameOf path)) :: (ownAt groups path ++ subField subgroups)) =
        objectsAll (segments path) subgroups := by
    rw [objectsSub_cons (show "name" ≠ "subGroups" by decide),
      objectsSub_append fun field hfield => (hnames field hfield).2, objectsSub_subField]
  rw [List.cons_append, objectsOf, hcalled, hsegments, hown, hsub]
  rfl

/-- The group objects of a list that was written one by one. -/
theorem objectsAll_mapM {write : String → Except Error Json} {objects : String → List GroupObject}
    {above paths : List String} {groups : List Json} (h : paths.mapM write = .ok groups)
    (hwrite : ∀ path ∈ paths, ∀ group, write path = .ok group →
      objectsOf above group = objects path) :
    objectsAll above groups = paths.flatMap objects := by
  induction paths generalizing groups with
  | nil =>
    cases h
    rfl
  | cons path rest ih =>
    rw [List.forall_mem_cons] at hwrite
    rw [List.mapM_cons] at h
    obtain ⟨group, hgroup, h⟩ := ok_of_bind h
    obtain ⟨others, hothers, h⟩ := ok_of_bind h
    cases h
    rw [objectsAll, List.flatMap_cons, hwrite.1 group hgroup, ih hothers hwrite.2]

/-- What is written for a group are the group objects of what is reached from it. -/
theorem objectsOf_spec {groups : Resources} {paths : List String} {levels : Nat} {path : String}
    {group : Json} {above : List String} (h : spec groups paths levels path = .ok group)
    (hsegments : above ++ [nameOf path] = segments path) :
    objectsOf above group = (Forest.descend parentOf paths levels path).map (objectAt groups) := by
  induction levels generalizing path group above with
  | zero =>
    obtain ⟨own, hown, h⟩ := ok_of_bind h
    cases h
    have hwritten := objectsOf_written hown hsegments []
    rw [show subField [] = [] from rfl, List.append_nil] at hwritten
    rw [hwritten]
    rfl
  | succ levels ih =>
    obtain ⟨own, hown, h⟩ := ok_of_bind h
    obtain ⟨subgroups, hsubgroups, h⟩ := ok_of_bind h
    cases h
    refine (objectsOf_written hown hsegments subgroups).trans ?_
    rw [Forest.descend, List.map_cons, List.map_flatMap]
    congr 1
    refine objectsAll_mapM hsubgroups fun child hchild written hwritten => ?_
    have hparent : parentOf child = some path := of_decide_eq_true (List.mem_filter.mp hchild).2
    exact ih hwritten (segments_of_parentOf hparent).symm

/-- What is written are the group objects of what is reached from the roots. -/
theorem objectsAll_rootGroups {groups : Resources} {roots : List Json}
    (h : rootGroups groups = .ok roots) : objectsAll [] roots =
      (Forest.walk parentOf groups.keys (longest groups.keys)).map (objectAt groups) := by
  unfold Forest.walk
  rw [List.map_flatMap]
  refine objectsAll_mapM h fun path hpath written hwritten => ?_
  have hroot : parentOf path = none := by simpa using (List.mem_filter.mp hpath).2
  exact objectsOf_spec hwritten (segments_of_root hroot).symm

end Apchi.ResourceGroups
