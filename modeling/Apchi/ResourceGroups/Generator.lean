import Apchi.Lib.PyText
import Apchi.Pipeline.Section
import Apchi.ResourceGroups.Model

/-!
# Rendering the Resource Groups Section

The rules are a tree; the Candidate holds a flat map of paths, beside two keys that are no path.  The
tree is rebuilt from the roots down, and the properties file is what makes Trino read it.
-/

namespace Apchi.ResourceGroups

open Lib Pipeline

/-- Where the ordered selectors are stored, and the file's own settings. -/
def SELECTORS : String := "#selectors"

def SETTINGS : String := "#settings"

def RULES_PATH : String := "/etc/trino/resource-groups.json"

def MANAGER_PATH : String := "/etc/trino/resource-groups.properties"

def RULES_DIR : String := "/etc/trino/resource-groups"

def RULES_IN_DIR : String := "/etc/trino/resource-groups/resource-groups.json"

def MANAGER_FILE : String :=
  "resource-groups.configuration-manager=file\nresource-groups.config-file=" ++ RULES_PATH ++ "\n"

/-! ### What is stored -/

/-- `groups_of`: everything but the reserved keys. -/
def groupsOf (stored : Resources) : Resources :=
  stored.filter fun path _ => path ≠ SELECTORS ∧ path ≠ SETTINGS

/-- `settings_of`. -/
def settingsOf (stored : Resources) : Except Error ResourceGroupSettings :=
  ResourceGroupSettings.validate ((stored[SETTINGS]?).getD (.obj []))

/-- `selectors_of`. -/
def selectorsOf (stored : Resources) : Json := (stored[SELECTORS]?).getD (.arr [])

/-- `store_settings`: the key is dropped when the settings carry nothing. -/
def storeSettings (stored : Resources) (settings : ResourceGroupSettings) : Resources :=
  if settings.dump.any fun field => field.2 ≠ .null then stored.insert SETTINGS (.obj settings.dump)
  else stored.erase SETTINGS

/-- `store_selectors`. -/
def storeSelectors (stored : Resources) (selectors : List Json) : Resources :=
  if selectors.isEmpty then stored.erase SELECTORS else stored.insert SELECTORS (.arr selectors)

/-- `parent_of`: the path one level up, or nothing for a root group. -/
def parentOf (path : String) : Option String :=
  (PyText.rpartition '.' path.toList).map fun parts => .ofList parts.1

/-- A group's own name, the last segment of its path. -/
def nameOf (path : String) : String :=
  match PyText.rpartition '.' path.toList with
  | some (_, last) => .ofList last
  | none => path

/-- `children_of`. -/
def childrenOf (paths : List String) (path : String) : List String :=
  paths.filter fun other => parentOf other = some path

/-! ### As Trino wants it -/

/-- `to_camel`, of words joined by underscores. -/
def toCamel : List Char → List Char
  | [] => []
  | ['_'] => ['_']
  | '_' :: c :: rest => c.toUpper :: toCamel rest
  | c :: rest => c :: toCamel rest

/-- A field's name as Trino spells it. -/
def camel (name : String) : String := .ofList (toCamel name.toList)

/-- `_trino`: the fields that are set, camelCased. -/
def trino (dump : List (String × Json)) : List (String × Json) :=
  (dump.filter fun field => field.2 ≠ .null).map fun field => (camel field.1, field.2)

/-- A group's name and its own fields. -/
def ownFields (stored : Resources) (path : String) : Except Error (List (String × Json)) :=
  match stored[path]? with
  | none => .error ⟨"KeyError", path⟩
  | some group => do
      let write ← ResourceGroupWrite.validate group
      return ("name", .str (nameOf path)) :: trino write.dump

/-- `_spec`: a group's own fields, then its children beneath it, so many levels down.  A child's path
is longer than its parent's, so no tree is deeper than its longest path. -/
def spec (stored : Resources) (paths : List String) : Nat → String → Except Error Json
  | 0, path => do
      let own ← ownFields stored path
      return .obj own
  | levels + 1, path => do
      let own ← ownFields stored path
      let subgroups ← (childrenOf paths path).mapM (spec stored paths levels)
      return .obj (own ++ if subgroups.isEmpty then [] else [("subGroups", .arr subgroups)])

/-- The length of the longest path. -/
def longest (paths : List String) : Nat := (paths.map String.length).foldr max 0

/-- The whole tree, from its roots. -/
def rootGroups (groups : Resources) : Except Error (List Json) :=
  (groups.keys.filter fun path => (parentOf path).isNone).mapM
    (spec groups groups.keys (longest groups.keys))

/-- One selector as Trino wants it. -/
def selectorRule (selector : Json) : Except Error Json := do
  let selector ← Selector.validate selector
  return .obj (trino selector.dump)

/-- The selectors, in the order given. -/
def selectorRules : Json → Except Error (List Json)
  | .arr selectors => selectors.mapM selectorRule
  | _ => .error ⟨"TypeError", "expected a list"⟩

/-- The fields of the whole file. -/
def document (settings : ResourceGroupSettings) (roots selectors : List Json) :
    List (String × Json) :=
  trino settings.dump ++ [("rootGroups", .arr roots), ("selectors", .arr selectors)]

/-- `render_rules`. -/
def renderRules (desired : Resources) : Except Error String := do
  let roots ← rootGroups (groupsOf desired)
  let selectors ← selectorRules (selectorsOf desired)
  let settings ← settingsOf desired
  return Json.dumps (.obj (document settings roots selectors)) ++ "\n"

/-- `is_empty`: there is nothing to deliver. -/
def isEmpty (desired : Resources) : Bool :=
  (groupsOf desired).isEmpty && selectorsOf desired == .arr []

/-- `render`: both files, or neither. -/
def render (desired : Resources) : Except Error Dict :=
  if isEmpty desired then .ok ∅
  else do
    let rules ← renderRules desired
    return ((∅ : Dict).insert RULES_PATH rules).insert MANAGER_PATH MANAGER_FILE

/-- `trino_default_rules`: what Trino does when there is no file. -/
def trinoDefaultRules : String :=
  Json.dumps (.obj [("rootGroups", .arr [.obj [("name", .str "global"),
      ("hardConcurrencyLimit", .int 1000), ("maxQueued", .int 5000)]]),
    ("selectors", .arr [.obj [("group", .str "global")]])]) ++ "\n"

/-- `render_rules_only`: never absent, since the deployment's own file names it. -/
def renderRulesOnly (desired : Resources) : Except Error Dict :=
  if isEmpty desired then .ok ((∅ : Dict).insert RULES_IN_DIR trinoDefaultRules)
  else do
    let rules ← renderRules desired
    return (∅ : Dict).insert RULES_IN_DIR rules

/-! ### The tree -/

theorem length_of_parentOf {path parent : String} (h : parentOf path = some parent) :
    parent.length < path.length := by
  obtain ⟨⟨head, last⟩, hparts, rfl⟩ := Option.map_eq_some_iff.mp h
  have hpath := congrArg List.length (PyText.rpartition_append hparts)
  simp only [String.length_toList, List.length_append, List.length_cons] at hpath
  rw [String.length_ofList]
  dsimp only
  omega

theorem length_le_longest {paths : List String} {path : String} (h : path ∈ paths) :
    path.length ≤ longest paths := by
  unfold longest
  induction paths with
  | nil => cases h
  | cons other rest ih =>
    rw [List.map_cons, List.foldr_cons]
    rcases List.mem_cons.mp h with rfl | h
    · exact Nat.le_max_left _ _
    · exact (ih h).trans (Nat.le_max_right _ _)

/-- A level more changes nothing once every path is in reach. -/
theorem spec_succ {stored : Resources} {paths : List String} {levels : Nat} {path : String}
    (h : ∀ other ∈ paths, other.length ≤ path.length + levels) :
    spec stored paths (levels + 1) path = spec stored paths levels path := by
  induction levels generalizing path with
  | zero =>
    have hnone : childrenOf paths path = [] := List.filter_eq_nil_iff.mpr fun other hother => by
      intro hparent
      have := length_of_parentOf (of_decide_eq_true hparent)
      have := h other hother
      omega
    unfold spec
    rw [hnone]
    cases ownFields stored path with
    | error e => rfl
    | ok own => exact congrArg (fun fields => Except.ok (Json.obj fields)) (List.append_nil own)
  | succ levels ih =>
    have hsame : (childrenOf paths path).mapM (spec stored paths (levels + 1)) =
        (childrenOf paths path).mapM (spec stored paths levels) := by
      have hchildren : ∀ child ∈ childrenOf paths path,
          spec stored paths (levels + 1) child = spec stored paths levels child := by
        intro child hchild
        obtain ⟨-, hparent⟩ := List.mem_filter.mp hchild
        have hlonger := length_of_parentOf (of_decide_eq_true hparent)
        exact ih fun other hother => (h other hother).trans (by omega)
      generalize childrenOf paths path = children at hchildren
      induction children with
      | nil => rfl
      | cons child rest hrest =>
        rw [List.mapM_cons, List.mapM_cons, hchildren child List.mem_cons_self,
          hrest fun c hc => hchildren c (List.mem_cons_of_mem _ hc)]
    rw [spec, spec, hsame]

/-- However many levels more, the tree is the same. -/
theorem spec_longest {stored : Resources} {paths : List String} (more : Nat) (path : String) :
    spec stored paths (longest paths + more) path = spec stored paths (longest paths) path := by
  induction more with
  | zero => rfl
  | succ more ih =>
    refine Eq.trans (spec_succ fun other hother => ?_) ih
    have hlong : other.length ≤ longest paths := length_le_longest hother
    show other.length ≤ path.length + (longest paths + more)
    omega

/-! ### What is written is a document -/

theorem trino_names (dump : List (String × Json)) :
    ((trino dump).map Prod.fst).Sublist ((dump.map Prod.fst).map camel) := by
  unfold trino
  rw [List.map_map, List.map_map]
  exact List.filter_sublist.map _

theorem wf_trino {dump : List (String × Json)} (h : ∀ field ∈ dump, field.2.WF) :
    ∀ field ∈ trino dump, field.2.WF := by
  intro field hfield
  obtain ⟨given, hgiven, rfl⟩ := List.mem_map.mp hfield
  exact h given (List.mem_filter.mp hgiven).1

theorem ownFields_eq_ok {stored : Resources} {path : String} {own : List (String × Json)}
    (h : ownFields stored path = .ok own) :
    ∃ write : ResourceGroupWrite, own = ("name", .str (nameOf path)) :: trino write.dump := by
  unfold ownFields at h
  split at h
  · cases h
  · obtain ⟨write, -, h⟩ := ok_of_bind h
    cases h
    exact ⟨write, rfl⟩

/-- The fields of a group have names of their own, and none is `subGroups`. -/
theorem ownFields_names {stored : Resources} {path : String} {own : List (String × Json)}
    (h : ownFields stored path = .ok own) : (own.map Prod.fst ++ ["subGroups"]).Nodup := by
  obtain ⟨write, rfl⟩ := ownFields_eq_ok h
  have hnames : ("name" :: (ResourceGroupWrite.names.map camel ++ ["subGroups"])).Nodup := by
    decide +kernel
  refine hnames.sublist (List.Sublist.cons_cons _ (List.Sublist.append ?_ (List.Sublist.refl _)))
  have hsub := trino_names write.dump
  rwa [write.dump_names] at hsub

theorem wf_ownFields {stored : Resources} {path : String} {own : List (String × Json)}
    (h : ownFields stored path = .ok own) : ∀ field ∈ own, field.2.WF := by
  obtain ⟨write, rfl⟩ := ownFields_eq_ok h
  exact List.forall_mem_cons.mpr ⟨trivial, wf_trino write.wf_dump⟩

theorem wf_spec {stored : Resources} {paths : List String} {levels : Nat} {path : String}
    {group : Json} (h : spec stored paths levels path = .ok group) : group.WF := by
  induction levels generalizing path group with
  | zero =>
    obtain ⟨own, hown, h⟩ := ok_of_bind h
    cases h
    exact Json.wf_obj.mpr ⟨(ownFields_names hown).sublist (List.sublist_append_left _ _),
      wf_ownFields hown⟩
  | succ levels ih =>
    obtain ⟨own, hown, h⟩ := ok_of_bind h
    obtain ⟨subgroups, hsubgroups, h⟩ := ok_of_bind h
    cases h
    have hchildren : ∀ child ∈ subgroups, child.WF :=
      forall_mem_of_mapM hsubgroups fun _ _ _ hchild => ih hchild
    split
    · rw [List.append_nil]
      exact Json.wf_obj.mpr ⟨(ownFields_names hown).sublist (List.sublist_append_left _ _),
        wf_ownFields hown⟩
    · rw [Json.wf_obj, List.map_append]
      refine ⟨ownFields_names hown, fun field hfield => ?_⟩
      rcases List.mem_append.mp hfield with hfield | hfield
      · exact wf_ownFields hown field hfield
      · rw [List.mem_singleton.mp hfield]
        exact Json.wf_arr.mpr hchildren

theorem wf_rootGroups {groups : Resources} {roots : List Json} (h : rootGroups groups = .ok roots) :
    ∀ root ∈ roots, root.WF := forall_mem_of_mapM h fun _ _ _ hroot => wf_spec hroot

theorem wf_selectorRules {selectors : Json} {rules : List Json}
    (h : selectorRules selectors = .ok rules) : ∀ rule ∈ rules, rule.WF := by
  unfold selectorRules at h
  split at h
  · refine forall_mem_of_mapM h fun raw _ rule hrule => ?_
    obtain ⟨selector, -, hrule⟩ := ok_of_bind hrule
    cases hrule
    have hnames : (Selector.names.map camel).Nodup := by decide +kernel
    have hsub := trino_names selector.dump
    rw [selector.dump_names] at hsub
    exact Json.wf_obj.mpr ⟨hnames.sublist hsub, wf_trino selector.wf_dump⟩
  · cases h

/-- The file is a JSON document. -/
theorem wf_document {settings : ResourceGroupSettings} {roots selectors : List Json}
    (hroots : ∀ root ∈ roots, root.WF) (hselectors : ∀ selector ∈ selectors, selector.WF) :
    (Json.obj (document settings roots selectors)).WF := by
  rw [Json.wf_obj]
  refine ⟨?_, fun field hfield => ?_⟩
  · have hnames : (["cpu_quota_period"].map camel ++ ["rootGroups", "selectors"]).Nodup := by
      decide +kernel
    unfold document
    rw [List.map_append]
    exact hnames.sublist (List.Sublist.append (trino_names settings.dump) (List.Sublist.refl _))
  · rcases List.mem_append.mp hfield with hfield | hfield
    · exact wf_trino settings.wf_dump field hfield
    · rcases List.mem_cons.mp hfield with rfl | hfield
      · exact Json.wf_arr.mpr hroots
      · rw [List.mem_singleton.mp hfield]
        exact Json.wf_arr.mpr hselectors

theorem dump_eq_iff {document other : Json} (h : document.WF) (hother : other.WF) :
    Json.dumps document ++ "\n" = Json.dumps other ++ "\n" ↔ document = other := by
  constructor
  · intro heq
    have htexts : Json.dumps document = Json.dumps other := String.append_left_inj _ |>.mp heq
    have hread := congrArg Json.loads htexts
    rw [Json.loads_dumps h, Json.loads_dumps hother] at hread
    exact Option.some.inj hread
  · intro heq
    rw [heq]

/-- Over the same groups and selectors the file tells the settings. -/
theorem document_eq_iff {settings other : ResourceGroupSettings} {roots selectors : List Json} :
    document settings roots selectors = document other roots selectors ↔ settings = other := by
  constructor
  · intro h
    have htrino : trino settings.dump = trino other.dump := List.append_cancel_right h
    obtain ⟨period⟩ := settings
    obtain ⟨otherPeriod⟩ := other
    cases period with
    | none =>
      cases otherPeriod with
      | none => rfl
      | some q => cases htrino
    | some p =>
      cases otherPeriod with
      | none => cases htrino
      | some q =>
        have hsome (limit : Limit) : trino (ResourceGroupSettings.dump ⟨some limit⟩) =
            [(camel "cpu_quota_period", .str limit.text)] := rfl
        rw [hsome, hsome] at htrino
        injection htrino with hfield
        injection hfield with _ hvalue
        injection hvalue with htext
        rw [Limit.ext htext]
  · intro h
    rw [h]

end Apchi.ResourceGroups
