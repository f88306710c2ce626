import Apchi.ResourceGroups.Generator

/-!
# The Resource Groups Section

Groups are added under a parent that is there, and removed when nothing is beneath them; the
selectors are replaced whole, and so are the settings of the file.  The rules, and the properties file
that makes Trino read them, are mounted by Apchi, or provided for by the deployment.
-/

namespace Apchi.ResourceGroups

open Lib Pipeline

/-! ### Staging -/

/-- `get_group`: whether there is one. -/
def getGroup (stored : Resources) (path : String) : Except Refusal Unit :=
  if path ∈ groupsOf stored then .ok ()
  else .error ⟨"NotFound", "No resource group at '" ++ path ++ "' in the Configuration Candidate.", []⟩

/-- `add_group`: under a parent that already exists, or as a root. -/
def addGroup (stored : Resources) (path : GroupPath) (write : ResourceGroupWrite) :
    Except Refusal Resources :=
  if path.text ∈ groupsOf stored then
    .error ⟨"Conflict", "A resource group at '" ++ path.text ++ "' is already staged.", []⟩
  else
    match (parentOf path.text).filter (· ∉ groupsOf stored) with
    | some parent => .error ⟨"UnprocessablePayload",
        "There is no resource group at '" ++ parent ++ "' to add '" ++ path.text ++ "' under.",
        [("path", "parent '" ++ parent ++ "' does not exist")]⟩
    | none => .ok (stored.insert path.text (.obj write.dump))

/-- `edit_group`. -/
def editGroup (stored : Resources) (path : String) (write : ResourceGroupWrite) :
    Except Refusal Resources := do
  getGroup stored path
  return stored.insert path (.obj write.dump)

/-- `delete_group`: refused while the group still has children. -/
def deleteGroup (stored : Resources) (path : String) : Except Refusal Resources := do
  getGroup stored path
  match childrenOf (groupsOf stored).keys path with
  | [] => return stored.erase path
  | children => throw ⟨"Conflict", "Resource group '" ++ path ++ "' still has subgroups: " ++
      ", ".intercalate children ++ ". Remove them first, or they would go with it.", []⟩

/-- `set_settings`. -/
def setSettings (stored : Resources) (settings : ResourceGroupSettings) : Resources :=
  storeSettings stored settings

/-- `set_selectors`: the list is replaced whole. -/
def setSelectors (stored : Resources) (selectors : List Selector) : Resources :=
  storeSelectors stored (selectors.map fun selector => .obj selector.dump)

/-- What any sequence of operations leads to. -/
inductive Staged : Resources → Prop where
  | empty : Staged ∅
  | add {stored resources : Resources} {path : GroupPath} {write : ResourceGroupWrite}
      (h : Staged stored) (hadd : addGroup stored path write = .ok resources) : Staged resources
  | edit {stored resources : Resources} {path : String} {write : ResourceGroupWrite}
      (h : Staged stored) (hedit : editGroup stored path write = .ok resources) : Staged resources
  | delete {stored resources : Resources} {path : String} (h : Staged stored)
      (hdelete : deleteGroup stored path = .ok resources) : Staged resources
  | settings {stored : Resources} {settings : ResourceGroupSettings} (h : Staged stored) :
      Staged (setSettings stored settings)
  | selectors {stored : Resources} {selectors : List Selector} (h : Staged stored)
      (hfew : selectors.length ≤ 200) : Staged (setSelectors stored selectors)

/-! ### The Section -/

/-- `plan`. -/
def plan (desired current : Resources) : SectionPlan where
  added := (groupsOf desired).keys.filter fun path => path ∉ groupsOf current
  changed := (groupsOf desired).keys.filter fun path =>
    path ∈ groupsOf current ∧ (groupsOf desired)[path]? ≠ (groupsOf current)[path]?
  removed := (groupsOf current).keys.filter fun path => path ∉ groupsOf desired
  otherwise := selectorsOf desired ≠ selectorsOf current

/-- `coordinator_files`: two files Apchi mounts, or one directory the Admin does. -/
def coordinatorFiles (settings : Settings) : List Delivery :=
  if settings.resourceGroupsPropertiesFromDeployment then
    [.directory settings.resourceGroupsSecretName RULES_DIR]
  else
    [RULES_PATH, MANAGER_PATH].map
      (.file settings.resourceGroupsSecretName settings.resourceGroupsVolumeName)

/-- `render_files`. -/
def renderFiles (desired : Resources) (settings : Settings) : Except Error Dict :=
  if settings.resourceGroupsPropertiesFromDeployment then renderRulesOnly desired
  else render desired

/-! ### What is staged renders -/

/-- Under every path a group is stored, and under the reserved keys the settings, if they carry
anything, and the selectors. -/
structure Held (stored : Resources) : Prop where
  groups : ∀ path value, path ≠ SELECTORS → path ≠ SETTINGS → stored[path]? = some value →
    ∃ write : ResourceGroupWrite, value = .obj write.dump
  settings : ∀ value, stored[SETTINGS]? = some value →
    ∃ settings : ResourceGroupSettings, value = .obj settings.dump
  selectors : ∀ value, stored[SELECTORS]? = some value →
    ∃ selectors : List Selector, value = .arr (selectors.map fun selector => .obj selector.dump)

theorem GroupPath.ne_of_hash (path : GroupPath) {key : String} (h : '#' ∈ key.toList) :
    path.text ≠ key := by
  rintro rfl
  exact path.noHash h

theorem mem_groupsOf {stored : Resources} {path : String} :
    path ∈ groupsOf stored ↔ path ∈ stored ∧ path ≠ SELECTORS ∧ path ≠ SETTINGS := by
  unfold groupsOf
  rw [Std.ExtTreeMap.mem_filter]
  simp [and_left_comm]

section held

variable {stored : Resources} {key : String} {value : Json}

theorem getElem?_insert (other : String) :
    (stored.insert key value)[other]? = if key = other then some value else stored[other]? := by
  simp [Std.ExtTreeMap.getElem?_insert]

theorem getElem?_erase (other : String) :
    (stored.erase key)[other]? = if key = other then none else stored[other]? := by
  simp [Std.ExtTreeMap.getElem?_erase]

theorem Held.insertGroup (h : Held stored) (hselectors : key ≠ SELECTORS) (hsettings : key ≠ SETTINGS)
    (write : ResourceGroupWrite) : Held (stored.insert key (.obj write.dump)) := by
  constructor
  · intro path value hs ht hvalue
    rw [getElem?_insert] at hvalue
    split at hvalue
    · cases hvalue
      exact ⟨write, rfl⟩
    · exact h.groups path value hs ht hvalue
  · intro value hvalue
    rw [getElem?_insert, if_neg hsettings] at hvalue
    exact h.settings value hvalue
  · intro value hvalue
    rw [getElem?_insert, if_neg hselectors] at hvalue
    exact h.selectors value hvalue

theorem Held.erase (h : Held stored) : Held (stored.erase key) := by
  have hheld {other : String} {value : Json} (hvalue : (stored.erase key)[other]? = some value) :
      stored[other]? = some value := by
    rw [getElem?_erase] at hvalue
    split at hvalue
    · cases hvalue
    · exact hvalue
  exact ⟨fun path value hs ht hvalue => h.groups path value hs ht (hheld hvalue),
    fun value hvalue => h.settings value (hheld hvalue),
    fun value hvalue => h.selectors value (hheld hvalue)⟩

theorem Held.setSettings (h : Held stored) (settings : ResourceGroupSettings) :
    Held (setSettings stored settings) := by
  unfold ResourceGroups.setSettings storeSettings
  split
  · constructor
    · intro path value hs ht hvalue
      rw [getElem?_insert, if_neg (Ne.symm ht)] at hvalue
      exact h.groups path value hs ht hvalue
    · intro value hvalue
      rw [getElem?_insert, if_pos rfl] at hvalue
      cases hvalue
      exact ⟨settings, rfl⟩
    · intro value hvalue
      rw [getElem?_insert, if_neg (by decide)] at hvalue
      exact h.selectors value hvalue
  · exact h.erase

theorem Held.setSelectors (h : Held stored) (selectors : List Selector) :
    Held (setSelectors stored selectors) := by
  unfold ResourceGroups.setSelectors storeSelectors
  split
  · exact h.erase
  · constructor
    · intro path value hs ht hvalue
      rw [getElem?_insert, if_neg (Ne.symm hs)] at hvalue
      exact h.groups path value hs ht hvalue
    · intro value hvalue
      rw [getElem?_insert, if_neg (by decide)] at hvalue
      exact h.settings value hvalue
    · intro value hvalue
      rw [getElem?_insert, if_pos rfl] at hvalue
      cases hvalue
      exact ⟨selectors, rfl⟩

theorem getGroup_eq_ok {path : String} (h : getGroup stored path = .ok ()) :
    path ≠ SELECTORS ∧ path ≠ SETTINGS := by
  unfold getGroup at h
  split at h
  · next hmem => exact (mem_groupsOf.mp hmem).2
  · cases h

/-- What the operations lead to is held. -/
theorem Staged.held (h : Staged stored) : Held stored := by
  induction h with
  | empty => exact ⟨by simp, by simp, by simp⟩
  | @add stored resources path write _ hadd ih =>
    unfold addGroup at hadd
    split at hadd
    · cases hadd
    · split at hadd
      · cases hadd
      · cases hadd
        exact ih.insertGroup (path.ne_of_hash (by decide)) (path.ne_of_hash (by decide)) write
  | @edit stored resources path write _ hedit ih =>
    unfold editGroup at hedit
    cases hget : getGroup stored path with
    | error e =>
      rw [hget] at hedit
      cases hedit
    | ok u =>
      rw [hget] at hedit
      cases hedit
      exact ih.insertGroup (getGroup_eq_ok hget).1 (getGroup_eq_ok hget).2 write
  | @delete stored resources path _ hdelete ih =>
    unfold deleteGroup at hdelete
    cases hget : getGroup stored path with
    | error e =>
      rw [hget] at hdelete
      cases hdelete
    | ok u =>
      rw [hget] at hdelete
      cases hchildren : childrenOf (groupsOf stored).keys path with
      | nil =>
        simp only [hchildren] at hdelete
        cases hdelete
        exact ih.erase
      | cons child rest =>
        simp only [hchildren] at hdelete
        cases hdelete
  | settings _ ih => exact ih.setSettings _
  | selectors _ _ ih => exact ih.setSelectors _

/-- The tree, the selectors and the settings of what is held can be written. -/
theorem Held.renders (h : Held stored) : ∃ roots selectors settings,
    rootGroups (groupsOf stored) = .ok roots ∧ selectorRules (selectorsOf stored) = .ok selectors ∧
      settingsOf stored = .ok settings := by
  have hown : ∀ path ∈ (groupsOf stored).keys, ∃ own, ownFields (groupsOf stored) path = .ok own := by
    intro path hpath
    obtain ⟨-, hs, ht⟩ := mem_groupsOf.mp (Std.ExtTreeMap.mem_keys.mp hpath)
    obtain ⟨value, hvalue⟩ := Option.isSome_iff_exists.mp
      (Std.ExtTreeMap.mem_iff_isSome_getElem?.mp (Std.ExtTreeMap.mem_keys.mp hpath))
    have hstored : stored[path]? = some value := by
      have hfilter := hvalue
      unfold groupsOf at hfilter
      rw [Std.ExtTreeMap.getElem?_filter] at hfilter
      exact (Option.pfilter_eq_some_iff.mp hfilter).1
    obtain ⟨write, rfl⟩ := h.groups path value hs ht hstored
    refine ⟨("name", .str (nameOf path)) :: trino write.dump, ?_⟩
    unfold ownFields
    rw [hvalue]
    show (ResourceGroupWrite.validate (.obj write.dump) >>= _) = _
    rw [write.validate_dump]
    rfl
  have hspec : ∀ levels, ∀ path ∈ (groupsOf stored).keys,
      ∃ group, spec (groupsOf stored) (groupsOf stored).keys levels path = .ok group := by
    intro levels
    induction levels with
    | zero =>
      intro path hpath
      obtain ⟨own, hown⟩ := hown path hpath
      exact ⟨.obj own, by unfold spec; rw [hown]; rfl⟩
    | succ levels ih =>
      intro path hpath
      obtain ⟨own, hown⟩ := hown path hpath
      obtain ⟨children, hchildren⟩ := @mapM_ok _ _ _ (childrenOf (groupsOf stored).keys path)
        fun child hchild => ih child (List.mem_filter.mp hchild).1
      exact ⟨_, by unfold spec; rw [hown, hchildren]; rfl⟩
  obtain ⟨roots, hroots⟩ := @mapM_ok _ _ _
    ((groupsOf stored).keys.filter fun path => (parentOf path).isNone)
    fun path hpath => hspec (longest (groupsOf stored).keys) path (List.mem_filter.mp hpath).1
  have hselectors : ∃ selectors, selectorRules (selectorsOf stored) = .ok selectors := by
    unfold selectorsOf
    cases hvalue : stored[SELECTORS]? with
    | none => exact ⟨[], rfl⟩
    | some value =>
      obtain ⟨selectors, rfl⟩ := h.selectors value hvalue
      refine mapM_ok fun raw hraw => ?_
      obtain ⟨selector, -, rfl⟩ := List.mem_map.mp hraw
      exact ⟨_, by unfold selectorRule; rw [selector.validate_dump]; rfl⟩
  have hsettings : ∃ settings, settingsOf stored = .ok settings := by
    unfold settingsOf
    cases hvalue : stored[SETTINGS]? with
    | none => exact ⟨_, rfl⟩
    | some value =>
      obtain ⟨settings, rfl⟩ := h.settings value hvalue
      exact ⟨settings, settings.validate_dump⟩
  obtain ⟨selectors, hselectors⟩ := hselectors
  obtain ⟨settings, hsettings⟩ := hsettings
  exact ⟨roots, selectors, settings, hroots, hselectors, hsettings⟩

end held

end Apchi.ResourceGroups
