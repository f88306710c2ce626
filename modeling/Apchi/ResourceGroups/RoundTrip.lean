import Apchi.ResourceGroups.Unlost

/-!
# Reading back what was rendered

A state with a group or a selector is read back from its file as it was.  One without either is
rendered as if there were nothing at all: its settings are not written, and where the file cannot be
taken away, what Trino does without it is written out and read as a group and a selector.
-/

namespace Apchi.ResourceGroups

open Lib Pipeline

/-! ### Names there and back -/

/-- The names of the fields are distinct, and none is spelled as one of the lists beside the settings. -/
theorem names_distinct : ResourceGroupWrite.names.Nodup ∧ Selector.names.Nodup ∧
    snake "rootGroups" ∉ settingNames ∧ snake "selectors" ∉ settingNames := by
  decide +kernel

/-- Trino's spelling of each name is read back. -/
theorem snake_camel : (∀ name ∈ ResourceGroupWrite.names, snake (camel name) = name) ∧
    (∀ name ∈ Selector.names, snake (camel name) = name) ∧
    ∀ name ∈ settingNames, snake (camel name) = name := by
  decide +kernel

section names

variable {names : List String} {dump : List (String × Json)}

theorem snake_trino (hdump : dump.map Prod.fst = names)
    (hback : ∀ name ∈ names, snake (camel name) = name) :
    (trino dump).map (fun field => (snake field.1, field.2)) = given dump := by
  unfold trino
  rw [List.map_map]
  refine (List.map_congr_left fun field hfield => ?_).trans (List.map_id _)
  have hname : field.1 ∈ names := hdump ▸ List.mem_map_of_mem (List.mem_filter.mp hfield).1
  exact Prod.ext (hback field.1 hname) rfl

/-- The fields that are written are known, under the names they had. -/
theorem known_trino (hdump : dump.map Prod.fst = names) (hnodup : names.Nodup)
    (hback : ∀ name ∈ names, snake (camel name) = name) : known names (trino dump) = given dump := by
  unfold known
  rw [snake_trino hdump hback]
  have hall : (given dump).filter (fun field => field.1 ∈ names) = given dump :=
    List.filter_eq_self.mpr fun field hfield => by
      simpa using hdump ▸ List.mem_map_of_mem (List.mem_filter.mp hfield).1
  rw [hall]
  exact Json.dictOf_of_nodup ((hdump ▸ hnodup).sublist (List.filter_sublist.map _))

theorem unknown_trino (hdump : dump.map Prod.fst = names)
    (hback : ∀ name ∈ names, snake (camel name) = name) (what : String → String) :
    unknown names what (trino dump) = [] := by
  unfold unknown
  rw [List.map_eq_nil_iff, List.filter_eq_nil_iff]
  intro field hfield
  obtain ⟨named, hnamed, rfl⟩ := List.mem_map.mp hfield
  have hname : named.1 ∈ names := hdump ▸ List.mem_map_of_mem (List.mem_filter.mp hnamed).1
  simp [hback named.1 hname, hname]

end names

/-! ### The tree -/

variable {models : Models} {path : String}

theorem storedAs_trino (names : List String) (write : ResourceGroupWrite) :
    storedAs models ⟨names, trino write.dump⟩ = .obj write.dump := by
  unfold storedAs
  dsimp only
  rw [known_trino write.dump_names names_distinct.1 snake_camel.1, models.group_given]

theorem flattenSub_append {full : String} {own : List (String × Json)}
    (h : ∀ field ∈ own, field.1 ≠ "subGroups") (more : List (String × Json)) (reading : Reading) :
    flattenSub models path full (own ++ more) reading = flattenSub models path full more reading := by
  induction own with
  | nil => rfl
  | cons field rest ih =>
    rw [List.forall_mem_cons] at h
    obtain ⟨key, value⟩ := field
    rw [List.cons_append]
    conv_lhs => unfold flattenSub
    rw [if_neg h.1]
    exact ih h.2

theorem flattenSub_subField (full : String) (subgroups : List Json) (reading : Reading) :
    flattenSub models path full (subField subgroups) reading =
      flattenAll models path (some full) subgroups reading := by
  unfold subField
  cases subgroups with
  | nil => rfl
  | cons group rest => rfl

/-- A list that was written group by group is read, if each group is. -/
theorem flattenAll_mapM {write : String → Except Error Json} {above paths : List String}
    {groups : List Json} (h : paths.mapM write = .ok groups)
    (hwrite : ∀ name ∈ paths, ∀ group, write name = .ok group → ∀ reading,
      flatten models path (pathOf above) group reading =
        .ok ((objectsOf above group).foldl (takeObject models) reading)) (reading : Reading) :
    flattenAll models path (pathOf above) groups reading =
      .ok ((objectsAll above groups).foldl (takeObject models) reading) := by
  induction paths generalizing groups reading with
  | nil =>
    cases h
    rfl
  | cons name rest ih =>
    rw [List.forall_mem_cons] at hwrite
    rw [List.mapM_cons] at h
    obtain ⟨group, hgroup, h⟩ := ok_of_bind h
    obtain ⟨others, hothers, h⟩ := ok_of_bind h
    cases h
    unfold flattenAll objectsAll
    rw [hwrite.1 group hgroup, List.foldl_append]
    exact ih hothers hwrite.2 _

/-- What is written for a group is read, if what is written beneath it is. -/
theorem flatten_written {groups : Resources} {name : String} {own : List (String × Json)}
    {subgroups : List Json} {above : List String} (hne : nameOf name ≠ "")
    (hwrite : ∃ write : ResourceGroupWrite, ownAt groups name = trino write.dump)
    (hfields : ownFields groups name = .ok own)
    (hsegments : above ++ [nameOf name] = segments name)
    (hsub : ∀ reading, flattenAll models path (pathOf (segments name)) subgroups reading =
      .ok ((objectsAll (segments name) subgroups).foldl (takeObject models) reading))
    (reading : Reading) :
    flatten models path (pathOf above) (.obj (own ++ subField subgroups)) reading =
      .ok ((objectsOf above (.obj (own ++ subField subgroups))).foldl (takeObject models) reading) := by
  obtain ⟨write, hwrite⟩ := hwrite
  obtain ⟨hsplit, hnames⟩ := ownFields_eq hfields
  have hcalled : nameIn (own ++ subField subgroups) = some (nameOf name) := by
    rw [hsplit]
    unfold nameIn
    rw [List.cons_append, List.lookup_cons_self]
    exact if_neg hne
  have hfull : fullOf (pathOf above) (nameOf name) = ".".intercalate (segments name) := by
    rw [fullOf_pathOf, hsegments]
  have hownOf : ownOf (own ++ subField subgroups) = trino write.dump := by
    rw [← hwrite]
    have hobject := congrArg (fun objects => objects.map GroupObject.own)
      (objectsOf_written hfields hsegments subgroups)
    unfold objectsOf at hobject
    exact (List.cons.inj hobject).1
  have htake : takeGroup models path (".".intercalate (segments name)) (own ++ subField subgroups)
      reading = .ok (takeObject models reading (objectAt groups name)) := by
    unfold takeGroup takeObject objectAt
    rw [hownOf, known_trino write.dump_names names_distinct.1 snake_camel.1,
      models.group_given, hwrite, storedAs_trino]
    rfl
  have hfieldsSub : ∀ field ∈ own, field.1 ≠ "subGroups" := by
    rw [hsplit, List.forall_mem_cons]
    exact ⟨show "name" ≠ "subGroups" by decide, fun field hfield => (hnames field hfield).2⟩
  have hpath : some (".".intercalate (segments name)) = pathOf (segments name) := by
    unfold pathOf
    rw [if_neg (by rw [← hsegments]; simp)]
  rw [objectsOf_written hfields hsegments]
  unfold flatten
  rw [hcalled]
  dsimp only
  rw [hfull, htake]
  refine Eq.trans ?_ (hsub _)
  show flattenSub models path _ _ _ = _
  rw [flattenSub_append hfieldsSub, flattenSub_subField, hpath]

/-- What is written for a group is read, with what is beneath it. -/
theorem flatten_spec {groups : Resources} {paths : List String}
    (hown : ∀ name ∈ paths, nameOf name ≠ "" ∧
      ∃ write : ResourceGroupWrite, ownAt groups name = trino write.dump)
    {levels : Nat} {name : String} {group : Json} {above : List String} (hname : name ∈ paths)
    (h : spec groups paths levels name = .ok group)
    (hsegments : above ++ [nameOf name] = segments name) (reading : Reading) :
    flatten models path (pathOf above) group reading =
      .ok ((objectsOf above group).foldl (takeObject models) reading) := by
  induction levels generalizing name group above reading with
  | zero =>
    obtain ⟨own, hfields, h⟩ := ok_of_bind h
    cases h
    have hwritten := @flatten_written models path _ _ _ [] _ (hown name hname).1 (hown name hname).2
      hfields hsegments (fun reading => by unfold flattenAll; rfl) reading
    rwa [show subField [] = [] from rfl, List.append_nil] at hwritten
  | succ levels ih =>
    obtain ⟨own, hfields, h⟩ := ok_of_bind h
    obtain ⟨subgroups, hsubgroups, h⟩ := ok_of_bind h
    cases h
    refine flatten_written (hown name hname).1 (hown name hname).2 hfields hsegments
      (flattenAll_mapM hsubgroups fun child hchild written hwritten => ?_) reading
    obtain ⟨hmem, hparent⟩ := List.mem_filter.mp hchild
    exact ih hmem hwritten (segments_of_parentOf (of_decide_eq_true hparent)).symm

/-! ### The selectors and the settings -/

theorem readSelectors_trino (index : Nat) (selectors : List Selector) :
    readSelectors models path index (selectors.map fun selector => .obj (trino selector.dump)) =
      .ok (selectors.map fun selector => .obj selector.dump, []) := by
  induction selectors generalizing index with
  | nil => rfl
  | cons selector rest ih =>
    rw [List.map_cons]
    unfold readSelectors
    rw [ih]
    have hread : readSelector models path index (.obj (trino selector.dump)) =
        .ok (.obj selector.dump, []) := by
      unfold readSelector
      dsimp only
      rw [known_trino selector.dump_names names_distinct.2.1 snake_camel.2.1,
        models.selector_given, unknown_trino selector.dump_names snake_camel.2.1]
    rw [hread]
    rfl

theorem selectorRules_dump (selectors : List Selector) :
    selectorRules (.arr (selectors.map fun selector => .obj selector.dump)) =
      .ok (selectors.map fun selector => .obj (trino selector.dump)) := by
  unfold selectorRules
  dsimp only
  induction selectors with
  | nil => rfl
  | cons selector rest ih =>
    have hrule : selectorRule (.obj selector.dump) = .ok (.obj (trino selector.dump)) := by
      unfold selectorRule
      rw [selector.validate_dump]
      rfl
    rw [List.map_cons, List.mapM_cons, hrule, ih]
    rfl

/-- Of the document's own fields the settings are known, and nothing is reported. -/
theorem known_document (settings : ResourceGroupSettings) (roots selectors : List Json) :
    known settingNames (document settings roots selectors) = given settings.dump ∧
      ∀ what, unknown settingNames what ((document settings roots selectors).filter fun field =>
        field.1 ∉ ["rootGroups", "selectors"]) = [] := by
  have hdump : settings.dump.map Prod.fst = settingNames := rfl
  constructor
  · have hknown := known_trino hdump (by decide) snake_camel.2.2
    unfold known at hknown ⊢
    unfold document
    rw [List.map_append, List.filter_append]
    have hnone : ([("rootGroups", Json.arr roots), ("selectors", .arr selectors)].map
        fun field => (snake field.1, field.2)).filter (fun field => field.1 ∈ settingNames) = [] := by
      obtain ⟨-, -, hroots, hselectors⟩ := names_distinct
      simp [hroots, hselectors]
    rw [hnone, List.append_nil]
    exact hknown
  · intro what
    unfold document
    rw [List.filter_append]
    have hnone : [("rootGroups", Json.arr roots), ("selectors", .arr selectors)].filter
        (fun field => field.1 ∉ ["rootGroups", "selectors"]) = [] := by
      simp
    rw [hnone, List.append_nil]
    have hunknown := unknown_trino hdump snake_camel.2.2 what
    unfold unknown at hunknown ⊢
    rw [List.map_eq_nil_iff, List.filter_eq_nil_iff] at hunknown ⊢
    exact fun field hfield => hunknown field (List.mem_filter.mp hfield).1

/-! ### What is staged -/

/-- What is staged is held, its groups are under paths an Operator can write, and the settings and the
selectors are there only if they say something. -/
structure Canonical (stored : Resources) : Prop where
  held : Held stored
  settings : ∀ value, stored[SETTINGS]? = some value →
    ∃ limit : Limit, value = .obj (ResourceGroupSettings.dump ⟨some limit⟩)
  selectors : ∀ value, stored[SELECTORS]? = some value → ∃ selectors : List Selector,
    selectors ≠ [] ∧ value = .arr (selectors.map fun selector => .obj selector.dump)
  paths : ∀ path ∈ groupsOf stored, ∃ given : GroupPath, given.text = path

theorem Canonical.insert {stored : Resources} (h : Canonical stored) {path : String} {value : Json}
    (hselectors : path ≠ SELECTORS) (hsettings : path ≠ SETTINGS) (hpath : ∃ given : GroupPath,
      given.text = path) (hheld : Held (stored.insert path value)) :
    Canonical (stored.insert path value) := by
  refine ⟨hheld, fun settings hvalue => ?_, fun selectors hvalue => ?_, fun other hother => ?_⟩
  · rw [getElem?_insert, if_neg hsettings] at hvalue
    exact h.settings settings hvalue
  · rw [getElem?_insert, if_neg hselectors] at hvalue
    exact h.selectors selectors hvalue
  · rcases (mem_groupsOf_insert hselectors hsettings).mp hother with rfl | hother
    · exact hpath
    · exact h.paths other hother

theorem Canonical.erase {stored : Resources} (h : Canonical stored) (path : String) :
    Canonical (stored.erase path) := by
  have hstored {key : String} {value : Json} (hvalue : (stored.erase path)[key]? = some value) :
      stored[key]? = some value := by
    rw [getElem?_erase] at hvalue
    split at hvalue
    · cases hvalue
    · exact hvalue
  refine ⟨h.held.erase, fun settings hvalue => h.settings settings (hstored hvalue),
    fun selectors hvalue => h.selectors selectors (hstored hvalue), fun other hother => ?_⟩
  rw [mem_groupsOf, Std.ExtTreeMap.mem_erase] at hother
  exact h.paths other (mem_groupsOf.mpr ⟨hother.1.2, hother.2⟩)

theorem Canonical.setSettings {stored : Resources} (h : Canonical stored)
    (settings : ResourceGroupSettings) : Canonical (setSettings stored settings) := by
  refine ⟨h.held.setSettings settings, fun value hvalue => ?_, fun value hvalue => ?_,
    fun path hpath => h.paths path (groupsOf_setSettings stored settings ▸ hpath)⟩
  · unfold ResourceGroups.setSettings storeSettings at hvalue
    split at hvalue
    · next hsome =>
      rw [getElem?_insert, if_pos rfl] at hvalue
      obtain ⟨period⟩ := settings
      cases period with
      | none => cases hsome
      | some limit => exact ⟨limit, (Option.some.inj hvalue).symm⟩
    · rw [getElem?_erase, if_pos rfl] at hvalue
      cases hvalue
  · unfold ResourceGroups.setSettings storeSettings at hvalue
    split at hvalue
    · rw [getElem?_insert, if_neg (by decide)] at hvalue
      exact h.selectors value hvalue
    · rw [getElem?_erase, if_neg (by decide)] at hvalue
      exact h.selectors value hvalue

theorem Canonical.setSelectors {stored : Resources} (h : Canonical stored)
    (selectors : List Selector) : Canonical (setSelectors stored selectors) := by
  refine ⟨h.held.setSelectors selectors, fun value hvalue => ?_, fun value hvalue => ?_,
    fun path hpath => h.paths path (groupsOf_setSelectors stored selectors ▸ hpath)⟩
  · unfold ResourceGroups.setSelectors storeSelectors at hvalue
    split at hvalue
    · rw [getElem?_erase, if_neg (by decide)] at hvalue
      exact h.settings value hvalue
    · rw [getElem?_insert, if_neg (by decide)] at hvalue
      exact h.settings value hvalue
  · unfold ResourceGroups.setSelectors storeSelectors at hvalue
    split at hvalue
    · rw [getElem?_erase, if_pos rfl] at hvalue
      cases hvalue
    · next hne =>
      rw [getElem?_insert, if_pos rfl] at hvalue
      refine ⟨selectors, fun hnil => ?_, (Option.some.inj hvalue).symm⟩
      subst hnil
      exact hne rfl

theorem Staged.canonical {stored : Resources} (h : Staged stored) : Canonical stored := by
  induction h with
  | empty =>
    refine ⟨Staged.empty.held, by simp, by simp, fun path hpath => ?_⟩
    simp [mem_groupsOf] at hpath
  | @add stored resources path write hstaged hadd ih =>
    have hheld := (Staged.add hstaged hadd).held
    unfold addGroup at hadd
    split at hadd
    · cases hadd
    · split at hadd
      · cases hadd
      · cases hadd
        exact ih.insert (path.ne_of_hash (by decide)) (path.ne_of_hash (by decide)) ⟨path, rfl⟩ hheld
  | @edit stored resources path write hstaged hedit ih =>
    have hheld := (Staged.edit hstaged hedit).held
    unfold editGroup at hedit
    cases hget : getGroup stored path with
    | error e =>
      rw [hget] at hedit
      cases hedit
    | ok u =>
      rw [hget] at hedit
      cases hedit
      have hmem : path ∈ groupsOf stored := by
        unfold getGroup at hget
        split at hget
        · assumption
        · cases hget
      exact ih.insert (getGroup_eq_ok hget).1 (getGroup_eq_ok hget).2 (ih.paths path hmem) hheld
  | @delete stored resources path _ hdelete ih =>
    unfold deleteGroup at hdelete
    cases hget : getGroup stored path with
    | error e =>
      rw [hget] at hdelete
      cases hdelete
    | ok u =>
      rw [hget] at hdelete
      cases hchildren : childrenOf (groupsOf stored).keys path with
      | nil =>
        simp only [hchildren] at hdelete
        cases hdelete
        exact ih.erase path
      | cons child rest =>
        simp only [hchildren] at hdelete
        cases hdelete
  | settings _ ih => exact ih.setSettings _
  | selectors _ _ ih => exact ih.setSelectors _

/-- A path an Operator can write has a last segment. -/
theorem nameOf_groupPath (path : GroupPath) : nameOf path.text ≠ "" := by
  have hlast : nameOf path.text ∈ segments path.text := by
    cases hparent : parentOf path.text with
    | none => rw [segments_of_root hparent]; exact List.mem_cons_self
    | some parent => rw [segments_of_parentOf hparent]; simp
  intro hempty
  rw [hempty, segments, List.mem_map] at hlast
  obtain ⟨segment, hsegment, hnil⟩ := hlast
  exact path.segments segment hsegment (by simpa using hnil)

/-- What is staged is its groups with its settings and its selectors. -/
theorem canonical_eq {stored : Resources} (h : Canonical stored) :
    ∃ (settings : ResourceGroupSettings) (selectors : List Selector),
      settingsOf stored = .ok settings ∧
      selectorsOf stored = .arr (selectors.map fun selector => .obj selector.dump) ∧
      ∀ groups, groupsOf groups = groupsOf stored →
        setSelectors (setSettings groups settings) selectors = stored := by
  obtain ⟨settings, hsettings, hset⟩ : ∃ settings : ResourceGroupSettings,
      settingsOf stored = .ok settings ∧
        ∀ groups, (setSettings groups settings)[SETTINGS]? = stored[SETTINGS]? := by
    cases hvalue : stored[SETTINGS]? with
    | none =>
      refine ⟨⟨none⟩, ?_, fun groups => ?_⟩
      · unfold settingsOf
        rw [hvalue]
        rfl
      · unfold setSettings storeSettings
        rw [if_neg (by decide), getElem?_erase, if_pos rfl]
    | some value =>
      obtain ⟨limit, rfl⟩ := h.settings value hvalue
      refine ⟨⟨some limit⟩, ?_, fun groups => ?_⟩
      · unfold settingsOf
        rw [hvalue]
        exact ResourceGroupSettings.validate_dump _
      · unfold setSettings storeSettings
        have hset : (ResourceGroupSettings.dump ⟨some limit⟩).any (fun field => field.2 ≠ .null) =
            true := rfl
        rw [if_pos hset, getElem?_insert, if_pos rfl]
  obtain ⟨selectors, hselectors, hset'⟩ : ∃ selectors : List Selector,
      selectorsOf stored = .arr (selectors.map fun selector => .obj selector.dump) ∧
        ∀ groups, (setSelectors groups selectors)[SELECTORS]? = stored[SELECTORS]? := by
    cases hvalue : stored[SELECTORS]? with
    | none =>
      refine ⟨[], ?_, fun groups => ?_⟩
      · unfold selectorsOf
        rw [hvalue]
        rfl
      · unfold setSelectors storeSelectors
        rw [List.map_nil, List.isEmpty_nil, if_pos rfl, getElem?_erase, if_pos rfl]
    | some value =>
      obtain ⟨selectors, hne, rfl⟩ := h.selectors value hvalue
      refine ⟨selectors, ?_, fun groups => ?_⟩
      · unfold selectorsOf
        rw [hvalue]
        rfl
      · unfold setSelectors storeSelectors
        rw [if_neg (by simpa using hne), getElem?_insert, if_pos rfl]
  refine ⟨settings, selectors, hsettings, hselectors, fun groups hgroups => ?_⟩
  refine Std.ExtTreeMap.ext_getElem? fun key => ?_
  by_cases hs : key = SELECTORS
  · rw [hs, hset']
  by_cases ht : key = SETTINGS
  · rw [ht, ← hset groups]
    unfold setSelectors storeSelectors
    split
    · rw [getElem?_erase, if_neg (by decide)]
    · rw [getElem?_insert, if_neg (by decide)]
  · have hsame : (groupsOf (setSelectors (setSettings groups settings) selectors))[key]? =
        (groupsOf stored)[key]? := by
      rw [groupsOf_setSelectors, groupsOf_setSettings, hgroups]
    rwa [getElem?_groupsOf, getElem?_groupsOf, if_pos ⟨hs, ht⟩, if_pos ⟨hs, ht⟩] at hsame

/-! ### The round trip -/

theorem unaccounted_takeObjects {objects : List GroupObject}
    (h : ∀ object ∈ objects, ∀ what, unknown ResourceGroupWrite.names what object.own = [])
    (reading : Reading) :
    (objects.foldl (takeObject models) reading).unaccounted = reading.unaccounted := by
  induction objects generalizing reading with
  | nil => rfl
  | cons object rest ih =>
    rw [List.forall_mem_cons] at h
    rw [List.foldl_cons, ih h.2]
    unfold takeObject
    dsimp only
    rw [h.1, List.append_nil]

/-- What is written of a tree is read as its groups. -/
theorem takeObjects_walk (models : Models) {stored : Resources} (h : Held stored)
    (htree : IsTree stored) :
    ((Forest.walk parentOf (groupsOf stored).keys (longest (groupsOf stored).keys)).map
      (objectAt (groupsOf stored))).foldl (takeObject models) ⟨∅, []⟩ = ⟨groupsOf stored, []⟩ := by
  have hperm := walk_perm htree
  generalize Forest.walk parentOf (groupsOf stored).keys (longest (groupsOf stored).keys) = names
    at hperm
  have hwrite : ∀ name ∈ names, ∃ write : ResourceGroupWrite,
      (groupsOf stored)[name]? = some (.obj write.dump) ∧
        ownAt (groupsOf stored) name = trino write.dump := by
    intro name hname
    obtain ⟨value, hvalue⟩ := Option.isSome_iff_exists.mp (Std.ExtTreeMap.mem_iff_isSome_getElem?.mp
      (Std.ExtTreeMap.mem_keys.mp (hperm.mem_iff.mp hname)))
    obtain ⟨write, rfl, hown⟩ := h.ownAt_eq hvalue
    exact ⟨write, hvalue, hown⟩
  have hfull (name : String) : (objectAt (groupsOf stored) name).full = name :=
    intercalate_segments name
  have hunaccounted : ((names.map (objectAt (groupsOf stored))).foldl (takeObject models)
      ⟨∅, []⟩).unaccounted = [] := by
    refine unaccounted_takeObjects (fun object hobject what => ?_) _
    obtain ⟨name, hname, rfl⟩ := List.mem_map.mp hobject
    obtain ⟨write, -, hown⟩ := hwrite name hname
    unfold objectAt
    rw [hown]
    exact unknown_trino write.dump_names snake_camel.1 what
  have hback : ∀ (key : String) (value : Json), ((names.map (objectAt (groupsOf stored))).foldl
      (takeObject models) ⟨∅, []⟩).groups[key]? = some value →
        (groupsOf stored)[key]? = some value := by
    intro key value hvalue
    obtain ⟨object, hobject, rfl, rfl⟩ := groups_of_objects hvalue
    obtain ⟨name, hname, rfl⟩ := List.mem_map.mp hobject
    obtain ⟨write, hstored, hown⟩ := hwrite name hname
    rw [hfull, hstored]
    unfold objectAt
    rw [hown, storedAs_trino]
  have hgroups : ((names.map (objectAt (groupsOf stored))).foldl (takeObject models)
      ⟨∅, []⟩).groups = groupsOf stored := by
    refine Std.ExtTreeMap.ext_getElem? fun key => Option.ext fun value => ⟨hback key value, ?_⟩
    intro hvalue
    have hname : key ∈ names := hperm.mem_iff.mpr (Std.ExtTreeMap.mem_keys.mpr
      (Std.ExtTreeMap.mem_iff_isSome_getElem?.mpr (by rw [hvalue]; rfl)))
    have hmem := @mem_groups_of_objects models _ _
      (List.mem_map_of_mem (f := objectAt (groupsOf stored)) hname)
    rw [hfull] at hmem
    obtain ⟨value', hvalue'⟩ := Option.isSome_iff_exists.mp
      (Std.ExtTreeMap.mem_iff_isSome_getElem?.mp hmem)
    rw [hvalue', ← hback key value' hvalue', hvalue]
  generalize (names.map (objectAt (groupsOf stored))).foldl (takeObject models) ⟨∅, []⟩ = reading
    at hgroups hunaccounted
  obtain ⟨groups, unaccounted⟩ := reading
  exact congrArg₂ Reading.mk hgroups hunaccounted

/-- The file of what is staged is read as it was staged. -/
theorem parseRules_renderRules (models : Models) (path : String) {stored : Resources}
    (h : Canonical stored) (htree : IsTree stored) :
    ∃ rules, renderRules stored = .ok rules ∧ parseRules models path rules = .ok (stored, []) := by
  obtain ⟨roots, selectorRules', settings', rules, hroots, hselectorRules, hsettings', hrules,
    hfields⟩ := h.held.written
  obtain ⟨settings, selectors, hsettings, hselectors, hback⟩ := canonical_eq h
  obtain rfl : settings = settings' := Except.ok.inj (hsettings.symm.trans hsettings')
  rw [hselectors, selectorRules_dump] at hselectorRules
  obtain rfl := Except.ok.inj hselectorRules
  refine ⟨rules, hrules, ?_⟩
  have hown : ∀ name ∈ (groupsOf stored).keys, nameOf name ≠ "" ∧
      ∃ write : ResourceGroupWrite, ownAt (groupsOf stored) name = trino write.dump := by
    intro name hname
    rw [Std.ExtTreeMap.mem_keys] at hname
    obtain ⟨given, rfl⟩ := h.paths name hname
    obtain ⟨value, hvalue⟩ := Option.isSome_iff_exists.mp
      (Std.ExtTreeMap.mem_iff_isSome_getElem?.mp hname)
    obtain ⟨write, -, hwrite⟩ := h.held.ownAt_eq hvalue
    exact ⟨nameOf_groupPath given, write, hwrite⟩
  have hlookups := lookup_document settings roots
    (selectors.map fun selector => .obj (trino selector.dump))
  -- The groups are read as the walk from the roots finds them.
  have hflatten : flattenAll models path none roots ⟨∅, []⟩ = .ok ⟨groupsOf stored, []⟩ := by
    have hread : flattenAll models path (pathOf []) roots ⟨∅, []⟩ =
        .ok ((objectsAll [] roots).foldl (takeObject models) ⟨∅, []⟩) := by
      refine flattenAll_mapM hroots (fun name hname group hgroup => ?_) ⟨∅, []⟩
      obtain ⟨hmem, hroot⟩ := List.mem_filter.mp hname
      exact flatten_spec hown hmem hgroup (segments_of_root (by simpa using hroot)).symm
    rwa [objectsAll_rootGroups hroots, takeObjects_walk models h.held htree] at hread
  have hgroups : groupsOf (groupsOf stored) = groupsOf stored := by
    refine Std.ExtTreeMap.ext_getElem? fun key => ?_
    rw [getElem?_groupsOf]
    split
    · rfl
    · next hreserved => rw [getElem?_groupsOf, if_neg hreserved]
  obtain ⟨hknown, hunknown⟩ := known_document settings roots
    (selectors.map fun selector => .obj (trino selector.dump))
  unfold parseRules
  simp only [hfields, listIn_eq hlookups.1, listIn_eq hlookups.2, hflatten, readSelectors_trino,
    hknown, hunknown, models.settings_given, bind, Except.bind, pure, Except.pure, List.append_nil]
  exact congrArg (fun resources => Except.ok (resources, [])) (hback _ hgroups)

/-- **What is staged is read back as it was** exactly where there is a group or a selector, or where
nothing at all is staged and Apchi mounts both files. -/
theorem round_trip_iff (models : Models) (settings : Settings) {stored : Resources}
    (h : Staged stored) :
    (∃ files, renderFiles stored settings = .ok files ∧
      parseFiles models files settings = .ok ⟨stored, []⟩) ↔
    isEmpty stored = false ∨
      stored = ∅ ∧ settings.resourceGroupsPropertiesFromDeployment = false := by
  cases hempty : isEmpty stored with
  | false =>
    refine iff_of_true ?_ (Or.inl rfl)
    obtain ⟨rules, hrules, hread⟩ :=
      parseRules_renderRules models (rulesPath settings) h.canonical h.isTree
    have hfiles : ∃ files, renderFiles stored settings = .ok files ∧
        files[rulesPath settings]? = some rules := by
      unfold renderFiles rulesPath renderRulesOnly render
      simp only [hempty, hrules, bind, Except.bind, pure, Except.pure, Bool.false_eq_true, if_false]
      split
      · exact ⟨_, rfl, by simp⟩
      · have hne : MANAGER_PATH ≠ RULES_PATH := by decide
        exact ⟨_, rfl, by
          simp only [Std.ExtTreeMap.getElem?_insert, Std.LawfulEqCmp.compare_eq_iff_eq, hne, if_false,
            if_true]⟩
    obtain ⟨files, hfiles, hlookup⟩ := hfiles
    refine ⟨files, hfiles, ?_⟩
    unfold parseFiles
    rw [hlookup]
    dsimp only
    rw [hread]
    rfl
  | true =>
    have hnone : (groupsOf stored).isEmpty = true := by
      unfold isEmpty at hempty
      exact (Bool.and_eq_true_iff.mp hempty).1
    cases hshape : settings.resourceGroupsPropertiesFromDeployment with
    | true =>
      refine iff_of_false ?_ (by simp)
      rintro ⟨files, hfiles, hread⟩
      unfold renderFiles renderRulesOnly at hfiles
      rw [hshape, if_pos rfl, hempty, if_pos rfl] at hfiles
      obtain rfl := Except.ok.inj hfiles
      unfold parseFiles rulesPath at hread
      rw [hshape, if_pos rfl, Std.ExtTreeMap.getElem?_insert_self] at hread
      obtain ⟨⟨resources, unaccounted⟩, hparse, hread⟩ := ok_of_bind hread
      obtain ⟨rfl, -⟩ := Parsed.mk.inj (Except.ok.inj hread)
      obtain ⟨⟨selectors, settings, rfl⟩, -⟩ := parseRules_groups hparse
      -- What Trino does without the file is a group.
      have hobjects : ⟨["global"], [("hardConcurrencyLimit", .int 1000), ("maxQueued", .int 5000)]⟩ ∈
          objectsIn trinoDefaultRules := by
        decide +kernel
      have hmem := @mem_groups_of_objects models _ _ hobjects
      rw [groupsOf_setSelectors, groupsOf_setSettings] at hnone
      have hglobal : "global" ∈ groupsOf
          ((objectsIn trinoDefaultRules).foldl (takeObject models) ⟨∅, []⟩).groups :=
        mem_groupsOf.mpr ⟨hmem, by decide, by decide⟩
      rw [Std.ExtTreeMap.isEmpty_iff.mp hnone] at hglobal
      simp at hglobal
    | false =>
      have hfiles : renderFiles stored settings = .ok ∅ := by
        unfold renderFiles render
        rw [hshape, if_neg (by simp), hempty, if_pos rfl]
      have hread : parseFiles models ∅ settings = .ok ⟨∅, []⟩ := by
        unfold parseFiles
        simp
      simp only [hfiles, Except.ok.injEq, exists_eq_left', hread, Parsed.mk.injEq, and_true,
        false_or, Bool.true_eq_false]
      exact eq_comm

/-- One root group. -/
def oneRoot : Resources :=
  (∅ : Resources).insert "global" (.obj (ResourceGroupWrite.dump (.running 10)))

theorem staged_oneRoot : Staged oneRoot := by
  have hadd : addGroup ∅ ⟨"global", by decide, by decide +kernel, by decide⟩
      (.running 10) = .ok oneRoot := by
    decide +kernel
  exact .add .empty hadd

/-- A CPU quota period, and no groups. -/
def onlySettings : Resources := setSettings ∅ ⟨some .anHour⟩

/-- One root group is read back. -/
theorem round_trip_oneRoot : ∃ files, renderFiles oneRoot {} = .ok files ∧
    parseFiles .plain files {} = .ok ⟨oneRoot, []⟩ :=
  (round_trip_iff .plain {} staged_oneRoot).mpr (Or.inl (by decide +kernel))

/-- Settings without a group are not written, and nothing is read. -/
theorem settings_are_not_written :
    Staged onlySettings ∧ renderFiles onlySettings {} = .ok ∅ ∧
      parseFiles .plain ∅ {} = .ok ⟨∅, []⟩ ∧ onlySettings ≠ ∅ :=
  ⟨.settings .empty, by decide +kernel, by unfold parseFiles; simp, by decide +kernel⟩

end Apchi.ResourceGroups
