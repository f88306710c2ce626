import Mathlib.Data.List.Induction
import Apchi.ResourceGroups.Tree

/-!
# No group is lost

The tree of groups exists only in their paths, and rendering skips what it does not reach from the
roots.  The operations keep every parent, so what is staged is rendered whole.  Reading a file does not:
of two groups with one path the second replaces the first, a group named as the settings or the
selectors are stored is replaced by them, and a name with a dot in it can be a path without a parent.
-/

namespace Apchi.ResourceGroups

open Lib Pipeline

/-- Every group's parent is there. -/
def IsTree (stored : Resources) : Prop :=
  ∀ path ∈ groupsOf stored, ∀ parent, parentOf path = some parent → parent ∈ groupsOf stored

/-- A stored group's fields as Trino has them. -/
def trinoOf : Json → List (String × Json)
  | .obj dump => trino dump
  | _ => []

/-- Every group is written, once, at the position its path names and with its fields. -/
def Emits (stored : Resources) : Prop :=
  ∃ rules, renderRules stored = .ok rules ∧
    (objectsIn rules).Perm ((groupsOf stored).toList.map fun group =>
      ⟨segments group.1, trinoOf group.2⟩)

/-- Every group object of a file is a group of the state, and every group is one of them. -/
def Complete (models : Models) (content : String) (stored : Resources) : Prop :=
  (groupsOf stored).toList.Perm
    ((objectsIn content).map fun object => (object.full, storedAs models object))

/-- A file's group objects have paths of their own, none that is a key for something else, and none
whose path up to its last dot is missing. -/
structure Rooted (objects : List GroupObject) : Prop where
  distinct : (objects.map GroupObject.full).Nodup
  unreserved : ∀ object ∈ objects, object.full ≠ SELECTORS ∧ object.full ≠ SETTINGS
  parents : ∀ object ∈ objects, ∀ parent, parentOf object.full = some parent →
    ∃ other ∈ objects, other.full = parent

/-! ### What is stored under the keys of groups -/

theorem getElem?_groupsOf (stored : Resources) (path : String) :
    (groupsOf stored)[path]? =
      if path ≠ SELECTORS ∧ path ≠ SETTINGS then stored[path]? else none := by
  unfold groupsOf
  rw [Std.ExtTreeMap.getElem?_filter]
  simp only [Std.ExtTreeMap.getKey_eq]
  cases stored[path]? with
  | none => simp
  | some value => simp [Option.pfilter]

theorem groupsOf_setSettings (stored : Resources) (settings : ResourceGroupSettings) :
    groupsOf (setSettings stored settings) = groupsOf stored := by
  refine Std.ExtTreeMap.ext_getElem? fun path => ?_
  rw [getElem?_groupsOf, getElem?_groupsOf]
  split
  · next hpath =>
    unfold setSettings storeSettings
    split
    · rw [getElem?_insert, if_neg (Ne.symm hpath.2)]
    · rw [getElem?_erase, if_neg (Ne.symm hpath.2)]
  · rfl

theorem groupsOf_setSelectors (stored : Resources) (selectors : List Selector) :
    groupsOf (setSelectors stored selectors) = groupsOf stored := by
  refine Std.ExtTreeMap.ext_getElem? fun path => ?_
  rw [getElem?_groupsOf, getElem?_groupsOf]
  split
  · next hpath =>
    unfold setSelectors storeSelectors
    split
    · rw [getElem?_erase, if_neg (Ne.symm hpath.1)]
    · rw [getElem?_insert, if_neg (Ne.symm hpath.1)]
  · rfl

/-! ### What is a tree is written whole -/

/-- What is held is written to a file that says it. -/
theorem Held.written {stored : Resources} (h : Held stored) : ∃ roots selectors settings rules,
    rootGroups (groupsOf stored) = .ok roots ∧ selectorRules (selectorsOf stored) = .ok selectors ∧
      settingsOf stored = .ok settings ∧ renderRules stored = .ok rules ∧
      ∀ path, documentIn path rules = .ok (document settings roots selectors) := by
  obtain ⟨roots, selectors, settings, hroots, hselectors, hsettings⟩ := h.renders
  refine ⟨roots, selectors, settings,
    Json.dumps (.obj (document settings roots selectors)) ++ "\n", hroots, hselectors, hsettings,
    ?_, fun path => ?_⟩
  · unfold renderRules
    rw [hroots, hselectors, hsettings]
    rfl
  · unfold documentIn
    rw [Json.loads_dumps_append (wf_document (wf_rootGroups hroots) (wf_selectorRules hselectors))
      "\n" (by simp [Json.isSpace])]

theorem lookup_document (settings : ResourceGroupSettings) (roots selectors : List Json) :
    (document settings roots selectors).lookup "rootGroups" = some (.arr roots) ∧
      (document settings roots selectors).lookup "selectors" = some (.arr selectors) := by
  have hnone {name : String} (hname : name ≠ camel "cpu_quota_period") :
      (trino settings.dump).lookup name = none := by
    rw [List.lookup_eq_none_iff]
    intro field hfield
    obtain ⟨given, hgiven, rfl⟩ := List.mem_map.mp hfield
    rw [List.mem_singleton.mp (List.mem_filter.mp hgiven).1]
    simpa using hname
  unfold document
  rw [List.lookup_append, List.lookup_append, hnone (by decide +kernel), hnone (by decide +kernel)]
  exact ⟨rfl, rfl⟩

theorem listIn_eq {path name : String} {fields : List (String × Json)} {elems : List Json}
    (h : fields.lookup name = some (.arr elems)) : listIn path fields name = .ok elems := by
  unfold listIn
  rw [h]
  rfl

/-- The group objects of what is written for a state. -/
theorem Held.objectsIn {stored : Resources} (h : Held stored) {rules : String}
    (hrules : renderRules stored = .ok rules) : objectsIn rules =
      (Forest.walk parentOf (groupsOf stored).keys (longest (groupsOf stored).keys)).map
        (objectAt (groupsOf stored)) := by
  obtain ⟨roots, selectors, settings, rules', hroots, -, -, hrules', hfields⟩ := h.written
  obtain rfl := Except.ok.inj (hrules'.symm.trans hrules)
  rw [objectsIn_eq (hfields "") (listIn_eq (lookup_document settings roots selectors).1)]
  exact objectsAll_rootGroups hroots

/-- A group's own fields are written from what is stored. -/
theorem Held.ownAt_eq {stored : Resources} (h : Held stored) {path : String} {value : Json}
    (hvalue : (groupsOf stored)[path]? = some value) :
    ∃ write : ResourceGroupWrite, value = .obj write.dump ∧
      ownAt (groupsOf stored) path = trino write.dump := by
  have hstored := hvalue
  rw [getElem?_groupsOf] at hstored
  split at hstored
  · next hpath =>
    obtain ⟨write, rfl⟩ := h.groups path value hpath.1 hpath.2 hstored
    refine ⟨write, rfl, ?_⟩
    have hown : ownFields (groupsOf stored) path =
        .ok (("name", .str (nameOf path)) :: trino write.dump) := by
      unfold ownFields
      rw [hvalue]
      show (ResourceGroupWrite.validate (.obj write.dump) >>= _) = _
      rw [write.validate_dump]
      rfl
    unfold ownAt
    rw [hown]
    rfl
  · cases hstored

theorem closed_iff_isTree {stored : Resources} :
    Forest.Closed parentOf (groupsOf stored).keys ↔ IsTree stored := by
  unfold Forest.Closed IsTree
  simp only [Std.ExtTreeMap.mem_keys]

/-- A tree is visited whole. -/
theorem walk_perm {stored : Resources} (htree : IsTree stored) :
    (Forest.walk parentOf (groupsOf stored).keys (longest (groupsOf stored).keys)).Perm
      (groupsOf stored).keys :=
  (Forest.walk_perm_iff length_of_parentOf Std.ExtTreeMap.nodup_keys
    fun _ => length_le_longest).mpr (closed_iff_isTree.mpr htree)

/-- A tree that is held is written whole. -/
theorem Held.emits {stored : Resources} (h : Held stored) (htree : IsTree stored) : Emits stored := by
  obtain ⟨roots, selectors, settings, rules, -, -, -, hrules, -⟩ := h.written
  refine ⟨rules, hrules, ?_⟩
  rw [h.objectsIn hrules]
  refine ((walk_perm htree).map _).trans (List.Perm.of_eq ?_)
  rw [← Std.ExtTreeMap.map_fst_toList_eq_keys, List.map_map]
  refine List.map_congr_left fun group hgroup => ?_
  obtain ⟨write, hvalue, hown⟩ :=
    h.ownAt_eq (Std.ExtTreeMap.mem_toList_iff_getElem?_eq_some.mp hgroup)
  unfold objectAt
  dsimp only [Function.comp_apply]
  rw [hown, hvalue]
  rfl

/-! ### What is staged is a tree -/

theorem isTree_of_groupsOf {stored other : Resources} (h : groupsOf other = groupsOf stored)
    (htree : IsTree stored) : IsTree other := by
  unfold IsTree
  rw [h]
  exact htree

theorem mem_groupsOf_insert {stored : Resources} {path other : String} {value : Json}
    (hselectors : path ≠ SELECTORS) (hsettings : path ≠ SETTINGS) :
    other ∈ groupsOf (stored.insert path value) ↔ other = path ∨ other ∈ groupsOf stored := by
  rw [mem_groupsOf, mem_groupsOf, Std.ExtTreeMap.mem_insert]
  constructor
  · rintro ⟨hmem | hmem, hother⟩
    · exact Or.inl (Std.LawfulEqCmp.eq_of_compare hmem).symm
    · exact Or.inr ⟨hmem, hother⟩
  · rintro (rfl | ⟨hmem, hother⟩)
    · exact ⟨Or.inl Std.ReflCmp.compare_self, hselectors, hsettings⟩
    · exact ⟨Or.inr hmem, hother⟩

theorem IsTree.insert {stored : Resources} (h : IsTree stored) {path : String} {value : Json}
    (hselectors : path ≠ SELECTORS) (hsettings : path ≠ SETTINGS)
    (hparent : ∀ parent, parentOf path = some parent → parent ∈ groupsOf stored) :
    IsTree (stored.insert path value) := by
  intro other hother parent hup
  rw [mem_groupsOf_insert hselectors hsettings] at hother ⊢
  rcases hother with rfl | hother
  · exact Or.inr (hparent parent hup)
  · exact Or.inr (h other hother parent hup)

/-- What the operations lead to is a tree. -/
theorem Staged.isTree {stored : Resources} (h : Staged stored) : IsTree stored := by
  induction h with
  | empty =>
    intro path hpath
    simp [mem_groupsOf] at hpath
  | @add stored resources path write _ hadd ih =>
    unfold addGroup at hadd
    split at hadd
    · cases hadd
    · split at hadd
      · cases hadd
      · next hmissing =>
        cases hadd
        refine ih.insert (path.ne_of_hash (by decide)) (path.ne_of_hash (by decide)) ?_
        intro parent hup
        rw [hup, Option.filter_eq_none_iff] at hmissing
        simpa using hmissing parent rfl
  | @edit stored resources path write _ hedit ih =>
    unfold editGroup at hedit
    cases hget : getGroup stored path with
    | error e =>
      rw [hget] at hedit
      cases hedit
    | ok u =>
      rw [hget] at hedit
      cases hedit
      have hmem : path ∈ groupsOf stored := by
        unfold getGroup at hget
        split at hget
        · assumption
        · cases hget
      exact ih.insert (getGroup_eq_ok hget).1 (getGroup_eq_ok hget).2 (ih path hmem)
  | @delete stored resources path _ hdelete ih =>
    unfold deleteGroup at hdelete
    cases hget : getGroup stored path with
    | error e =>
      rw [hget] at hdelete
      cases hdelete
    | ok u =>
      rw [hget] at hdelete
      cases hchildren : childrenOf (groupsOf stored).keys path with
      | nil =>
        simp only [hchildren] at hdelete
        cases hdelete
        intro other hother parent hup
        rw [mem_groupsOf, Std.ExtTreeMap.mem_erase] at hother ⊢
        obtain ⟨⟨-, hmem⟩, hother⟩ := hother
        have hmem : other ∈ groupsOf stored := mem_groupsOf.mpr ⟨hmem, hother⟩
        have hparent := ih other hmem parent hup
        refine ⟨⟨fun heq => ?_, (mem_groupsOf.mp hparent).1⟩, (mem_groupsOf.mp hparent).2⟩
        obtain rfl : path = parent := Std.LawfulEqCmp.eq_of_compare heq
        have hchild : other ∈ childrenOf (groupsOf stored).keys path :=
          List.mem_filter.mpr ⟨Std.ExtTreeMap.mem_keys.mpr hmem, by simpa using hup⟩
        rw [hchildren] at hchild
        cases hchild
      | cons child rest =>
        simp only [hchildren] at hdelete
        cases hdelete
  | settings _ ih => exact isTree_of_groupsOf (groupsOf_setSettings _ _) ih
  | selectors _ _ ih => exact isTree_of_groupsOf (groupsOf_setSelectors _ _) ih

/-! ### What is read of a file -/

theorem groups_of_objects {models : Models} {objects : List GroupObject} {path : String} {value : Json}
    (h : (objects.foldl (takeObject models) ⟨∅, []⟩).groups[path]? = some value) :
    ∃ object ∈ objects, object.full = path ∧ storedAs models object = value := by
  rw [groups_takeObjects] at h
  induction objects using List.reverseRecOn with
  | nil => simp at h
  | append_singleton objects object ih =>
    rw [List.foldl_append, List.foldl_cons, List.foldl_nil, getElem?_insert] at h
    split at h
    · next hfull => exact ⟨object, by simp, hfull, Option.some.inj h⟩
    · obtain ⟨other, hother, hspec⟩ := ih h
      exact ⟨other, List.mem_append_left _ hother, hspec⟩

theorem mem_groups_of_objects {models : Models} {objects : List GroupObject} {object : GroupObject}
    (h : object ∈ objects) :
    object.full ∈ (objects.foldl (takeObject models) ⟨∅, []⟩).groups := by
  rw [groups_takeObjects]
  induction objects using List.reverseRecOn with
  | nil => cases h
  | append_singleton objects other ih =>
    rw [List.foldl_append, List.foldl_cons, List.foldl_nil, Std.ExtTreeMap.mem_insert]
    rcases List.mem_append.mp h with h | h
    · exact Or.inr (ih h)
    · rw [List.mem_singleton.mp h]
      exact Or.inl Std.ReflCmp.compare_self

/-- With paths of their own, the group objects are the groups. -/
theorem toList_groups_perm {models : Models} {objects : List GroupObject}
    (hdistinct : (objects.map GroupObject.full).Nodup) :
    (objects.foldl (takeObject models) ⟨∅, []⟩).groups.toList.Perm
      (objects.map fun object => (object.full, storedAs models object)) := by
  have hnodup : (objects.map fun object => (object.full, storedAs models object)).Nodup := by
    refine List.Nodup.of_map Prod.fst ?_
    rw [List.map_map]
    exact hdistinct
  have hnodup' : (objects.foldl (takeObject models) ⟨∅, []⟩).groups.toList.Nodup := by
    refine List.Nodup.of_map Prod.fst ?_
    rw [Std.ExtTreeMap.map_fst_toList_eq_keys]
    exact Std.ExtTreeMap.nodup_keys
  refine (List.perm_ext_iff_of_nodup hnodup' hnodup).mpr fun ⟨path, value⟩ => ?_
  rw [Std.ExtTreeMap.mem_toList_iff_getElem?_eq_some, List.mem_map]
  constructor
  · intro h
    obtain ⟨object, hobject, hfull, hstored⟩ := groups_of_objects h
    exact ⟨object, hobject, Prod.ext hfull hstored⟩
  · rintro ⟨object, hobject, heq⟩
    obtain ⟨rfl, rfl⟩ := Prod.mk.inj heq
    obtain ⟨value, hvalue⟩ := Option.isSome_iff_exists.mp
      (Std.ExtTreeMap.mem_iff_isSome_getElem?.mp (@mem_groups_of_objects models _ _ hobject))
    obtain ⟨other, hother, hfull, hstored⟩ := groups_of_objects hvalue
    rw [hvalue, ← hstored, List.inj_on_of_nodup_map hdistinct hother hobject hfull]

/-- Group objects that the models take are stored as groups. -/
theorem held_of_objects {models : Models} {objects : List GroupObject}
    (hvalid : ∀ object ∈ objects, Valid models object) (settings : ResourceGroupSettings)
    (selectors : List Selector) :
    Held (setSelectors (setSettings (objects.foldl (takeObject models) ⟨∅, []⟩).groups settings)
      selectors) := by
  generalize hgroups : (objects.foldl (takeObject models) ⟨∅, []⟩).groups = groups
  have hwrites : ∀ (path : String) (value : Json), groups[path]? = some value →
      ∃ write : ResourceGroupWrite, value = .obj write.dump := by
    intro path value hvalue
    obtain ⟨object, hobject, -, rfl⟩ := groups_of_objects (hgroups ▸ hvalue)
    exact hvalid object hobject
  have hsettings : ∀ value, (setSettings groups settings)[SETTINGS]? = some value →
      ∃ settings : ResourceGroupSettings, value = .obj settings.dump := by
    intro value hvalue
    unfold setSettings storeSettings at hvalue
    split at hvalue
    · rw [getElem?_insert, if_pos rfl] at hvalue
      exact ⟨settings, (Option.some.inj hvalue).symm⟩
    · rw [getElem?_erase, if_pos rfl] at hvalue
      cases hvalue
  constructor
  · intro path value hs ht hvalue
    have hsame : (groupsOf (setSelectors (setSettings groups settings) selectors))[path]? =
        (groupsOf groups)[path]? := by
      rw [groupsOf_setSelectors, groupsOf_setSettings]
    rw [getElem?_groupsOf, getElem?_groupsOf, if_pos ⟨hs, ht⟩, if_pos ⟨hs, ht⟩, hvalue] at hsame
    exact hwrites path value hsame.symm
  · intro value hvalue
    unfold setSelectors storeSelectors at hvalue
    split at hvalue
    · rw [getElem?_erase, if_neg (by decide)] at hvalue
      exact hsettings value hvalue
    · rw [getElem?_insert, if_neg (by decide)] at hvalue
      exact hsettings value hvalue
  · intro value hvalue
    unfold setSelectors storeSelectors at hvalue
    split at hvalue
    · rw [getElem?_erase, if_pos rfl] at hvalue
      cases hvalue
    · rw [getElem?_insert, if_pos rfl] at hvalue
      exact ⟨selectors, (Option.some.inj hvalue).symm⟩

/-- **No group is lost.**  What is staged is a tree and is written whole.  What is read of a file is,
and has every group object of the file for a group of its own, exactly where the group objects have
paths of their own, none reserved and none without its parent. -/
theorem no_group_lost_iff (models : Models) :
    (∀ stored, Staged stored → IsTree stored ∧ Emits stored) ∧
      ∀ path content resources unaccounted,
        parseRules models path content = .ok (resources, unaccounted) →
          (IsTree resources ∧ Emits resources ∧ Complete models content resources ↔
            Rooted (objectsIn content)) := by
  refine ⟨fun stored h => ⟨h.isTree, h.held.emits h.isTree⟩, ?_⟩
  intro path content resources unaccounted h
  obtain ⟨⟨selectors, settings, rfl⟩, hvalid⟩ := parseRules_groups h
  have hheld := held_of_objects hvalid settings selectors
  unfold Complete
  generalize hgroups : ((objectsIn content).foldl (takeObject models) ⟨∅, []⟩).groups = groups at hheld
  have hsame : groupsOf (setSelectors (setSettings groups settings) selectors) = groupsOf groups := by
    rw [groupsOf_setSelectors, groupsOf_setSettings]
  rw [hsame]
  constructor
  · rintro ⟨htree, -, hcomplete⟩
    have hkeys : (groupsOf groups).keys.Perm ((objectsIn content).map GroupObject.full) := by
      have hmap := hcomplete.map Prod.fst
      rw [Std.ExtTreeMap.map_fst_toList_eq_keys, List.map_map] at hmap
      exact hmap
    have hmem {name : String} : name ∈ groupsOf groups ↔
        ∃ object ∈ objectsIn content, object.full = name := by
      rw [← Std.ExtTreeMap.mem_keys, hkeys.mem_iff, List.mem_map]
    unfold IsTree at htree
    rw [hsame] at htree
    refine ⟨hkeys.nodup_iff.mp Std.ExtTreeMap.nodup_keys, fun object hobject => ?_,
      fun object hobject parent hup => hmem.mp (htree _ (hmem.mpr ⟨object, hobject, rfl⟩) parent hup)⟩
    exact (mem_groupsOf.mp (hmem.mpr ⟨object, hobject, rfl⟩)).2
  · rintro ⟨hdistinct, hunreserved, hparents⟩
    have hall : groupsOf groups = groups := by
      refine Std.ExtTreeMap.ext_getElem? fun name => ?_
      rw [getElem?_groupsOf]
      split
      · rfl
      · next hreserved =>
        cases hvalue : groups[name]? with
        | none => rfl
        | some value =>
          obtain ⟨object, hobject, rfl, -⟩ := groups_of_objects (hgroups ▸ hvalue)
          exact absurd (hunreserved object hobject) hreserved
    have htree : IsTree (setSelectors (setSettings groups settings) selectors) := by
      unfold IsTree
      rw [hsame, hall]
      intro name hname parent hup
      obtain ⟨value, hvalue⟩ := Option.isSome_iff_exists.mp
        (Std.ExtTreeMap.mem_iff_isSome_getElem?.mp hname)
      obtain ⟨object, hobject, rfl, -⟩ := groups_of_objects (hgroups ▸ hvalue)
      obtain ⟨other, hother, rfl⟩ := hparents object hobject parent hup
      exact hgroups ▸ mem_groups_of_objects hother
    refine ⟨htree, hheld.emits htree, ?_⟩
    rw [hall, ← hgroups]
    exact toList_groups_perm hdistinct

/-! ### A file that loses a group -/

/-- Two root groups of one name. -/
def twoOfOneName : String :=
  "\x7b\"rootGroups\": [\x7b\"name\": \"etl\", \"hardConcurrencyLimit\": 1\x7d, " ++
    "\x7b\"name\": \"etl\", \"hardConcurrencyLimit\": 2\x7d]\x7d"

def etlOfTwo : Resources :=
  (∅ : Resources).insert "etl" (.obj (ResourceGroupWrite.dump (.running 2)))

/-- The first is gone, and nothing says so. -/
theorem sibling_is_lost :
    parseRules .plain "" twoOfOneName = .ok (etlOfTwo, []) ∧
      ¬ Complete .plain twoOfOneName etlOfTwo := by
  refine ⟨by decide +kernel, fun h => ?_⟩
  have hlength := h.length_eq
  revert hlength
  decide +kernel

/-- One root group with a group beneath it. -/
def nested : String :=
  "\x7b\"rootGroups\": [\x7b\"name\": \"global\", \"hardConcurrencyLimit\": 9, " ++
    "\"subGroups\": [\x7b\"name\": \"etl\", \"hardConcurrencyLimit\": 1\x7d]\x7d]\x7d"

def nestedGroups : Resources :=
  ((∅ : Resources).insert "global" (.obj (ResourceGroupWrite.dump (.running 9)))).insert
    "global.etl" (.obj (ResourceGroupWrite.dump (.running 1)))

/-- Of a file with one group beneath another, none is lost. -/
theorem nested_groups_kept :
    IsTree nestedGroups ∧ Emits nestedGroups ∧ Complete .plain nested nestedGroups := by
  have hread : parseRules .plain "" nested = .ok (nestedGroups, []) := by decide +kernel
  have hobjects : objectsIn nested = [⟨["global"], [("hardConcurrencyLimit", .int 9)]⟩,
      ⟨["global", "etl"], [("hardConcurrencyLimit", .int 1)]⟩] := by
    decide +kernel
  refine ((no_group_lost_iff .plain).2 "" nested nestedGroups [] hread).mpr ?_
  rw [hobjects]
  refine ⟨by decide +kernel, by decide +kernel, fun object hobject parent hup => ?_⟩
  simp only [List.mem_cons, List.not_mem_nil, or_false] at hobject
  rcases hobject with rfl | rfl
  · have hroot : parentOf (GroupObject.full ⟨["global"], [("hardConcurrencyLimit", .int 9)]⟩) = none := by
      decide +kernel
    rw [hroot] at hup
    cases hup
  · have hparent : parentOf (GroupObject.full
        ⟨["global", "etl"], [("hardConcurrencyLimit", .int 1)]⟩) = some "global" := by
      decide +kernel
    rw [hparent] at hup
    exact ⟨_, List.mem_cons_self, by rw [← Option.some.inj hup]; decide +kernel⟩

end Apchi.ResourceGroups
