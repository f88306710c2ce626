import Apchi.ResourceGroups.Section

/-!
# Reading resource groups back from the file

The tree is flattened to paths on the way down: a group's path is its parent's with its name behind a
dot.  What the models do not carry is reported, and what they refuse makes the file unreadable.  How a
model converts a value is not modelled: any conversion will do that takes values of a field's own type
as they are.
-/

namespace Apchi.ResourceGroups

open Lib Pipeline

/-- A file that cannot be read: this module's own refusal, or a model's, which nothing translates. -/
inductive Failure where
  | unreadable (path reason : String)
  | validation (reason : String)
  deriving DecidableEq, Repr

/-- What a file sets that the models do not carry. -/
structure Unaccounted where
  what : String
  content : Json
  deriving DecidableEq

/-- The fields that are set. -/
def given (dump : List (String × Json)) : List (String × Json) :=
  dump.filter fun field => field.2 ≠ .null

/-- `model_validate` of the three models, on fields that are all theirs.  Values that need no
conversion are taken as they are, and a field left out is unset. -/
structure Models where
  group : List (String × Json) → Except String ResourceGroupWrite
  selector : List (String × Json) → Except String Selector
  settings : List (String × Json) → Except String ResourceGroupSettings
  group_given : ∀ write : ResourceGroupWrite, group (given write.dump) = .ok write
  selector_given : ∀ write : Selector, selector (given write.dump) = .ok write
  settings_given : ∀ write : ResourceGroupSettings, settings (given write.dump) = .ok write

section given

variable {α : Type} {c : Codec α} {name : String} {fields : List (String × Json)}

theorem lookup_given (hnodup : (fields.map Prod.fst).Nodup) :
    (given fields).lookup name = (fields.lookup name).filter (· ≠ .null) := by
  induction fields with
  | nil => rfl
  | cons field rest ih =>
    obtain ⟨key, value⟩ := field
    obtain ⟨hnew, hnodup⟩ := List.nodup_cons.mp hnodup
    have hrest := ih hnodup
    unfold given at hrest ⊢
    by_cases hkey : name = key
    · subst hkey
      have hnone : rest.lookup name = none := by
        rw [List.lookup_eq_none_iff]
        intro other hother
        simpa using fun heq : name = other.1 =>
          hnew (List.mem_map.mpr ⟨other, hother, heq.symm⟩)
      rw [List.lookup_cons_self, Option.filter_some]
      by_cases hnull : value = .null
      · rw [List.filter_cons_of_neg (by simp [hnull]), hrest, hnone, if_neg (by simp [hnull])]
        rfl
      · rw [List.filter_cons_of_pos (by simp [hnull]), List.lookup_cons_self,
          if_pos (by simp [hnull])]
    · have hbeq : (name == key) = false := beq_false_of_ne hkey
      rw [List.lookup_cons, hbeq]
      by_cases hnull : value = .null
      · rw [List.filter_cons_of_neg (by simp [hnull]), hrest]
      · rw [List.filter_cons_of_pos (by simp [hnull]), List.lookup_cons, hbeq, hrest]

theorem optionalField_given (hnodup : (fields.map Prod.fst).Nodup) {value : Option α}
    (h : fields.lookup name = some (c.optional value)) :
    c.optionalField name (given fields) = .ok value := by
  unfold Codec.optionalField
  rw [lookup_given hnodup, h]
  cases value with
  | none => rfl
  | some a =>
    have hnull : c.optional (some a) ≠ .null := c.write_ne_null a
    have hread : c.read (c.optional (some a)) = some a := c.read_write a
    have hkept : (some (c.optional (some a))).filter (· ≠ .null) = some (c.optional (some a)) := by
      rw [Option.filter_some, if_pos (by simp [hnull])]
    rw [hkept, Option.getD_some]
    dsimp only
    rw [if_neg hnull, hread]

theorem field_given (hnodup : (fields.map Prod.fst).Nodup) {value : α}
    (h : fields.lookup name = some (c.write value)) : c.field name (given fields) = .ok value := by
  refine Codec.field_eq ?_
  rw [lookup_given hnodup, h, Option.filter_some, if_pos (by simp [c.write_ne_null])]

end given

theorem ResourceGroupWrite.validate_given (write : ResourceGroupWrite) :
    ResourceGroupWrite.validate (.obj (given write.dump)) = .ok write := by
  have hnodup : (write.dump.map Prod.fst).Nodup := write.dump_names ▸ by decide +kernel
  have hnames : ∀ field ∈ given write.dump, field.1 ∈ names := fun field hfield =>
    write.dump_names ▸ List.mem_map_of_mem (List.mem_filter.mp hfield).1
  unfold validate
  simp only [Codec.onlyFields_eq hnames,
    field_given hnodup (show write.dump.lookup "hard_concurrency_limit" = _ from rfl),
    optionalField_given hnodup (show write.dump.lookup "max_queued" = _ from rfl),
    optionalField_given hnodup (show write.dump.lookup "soft_memory_limit" = _ from rfl),
    optionalField_given hnodup (show write.dump.lookup "soft_concurrency_limit" = _ from rfl),
    optionalField_given hnodup (show write.dump.lookup "soft_cpu_limit" = _ from rfl),
    optionalField_given hnodup (show write.dump.lookup "hard_cpu_limit" = _ from rfl),
    optionalField_given hnodup (show write.dump.lookup "scheduling_policy" = _ from rfl),
    optionalField_given hnodup (show write.dump.lookup "scheduling_weight" = _ from rfl),
    optionalField_given hnodup (show write.dump.lookup "jmx_export" = _ from rfl)]
  exact dif_pos write.cpuLimitsComeInPairs

theorem Selector.validate_given (selector : Selector) :
    Selector.validate (.obj (given selector.dump)) = .ok selector := by
  have hnodup : (selector.dump.map Prod.fst).Nodup := selector.dump_names ▸ by decide +kernel
  have hnames : ∀ field ∈ given selector.dump, field.1 ∈ names := fun field hfield =>
    selector.dump_names ▸ List.mem_map_of_mem (List.mem_filter.mp hfield).1
  unfold validate
  simp only [Codec.onlyFields_eq hnames,
    field_given hnodup (show selector.dump.lookup "group" = _ from rfl),
    optionalField_given hnodup (show selector.dump.lookup "user" = _ from rfl),
    optionalField_given hnodup (show selector.dump.lookup "original_user" = _ from rfl),
    optionalField_given hnodup (show selector.dump.lookup "authenticated_user" = _ from rfl),
    optionalField_given hnodup (show selector.dump.lookup "user_group" = _ from rfl),
    optionalField_given hnodup (show selector.dump.lookup "source" = _ from rfl),
    optionalField_given hnodup (show selector.dump.lookup "query_type" = _ from rfl),
    optionalField_given hnodup (show selector.dump.lookup "query_text" = _ from rfl),
    optionalField_given hnodup (show selector.dump.lookup "client_tags" = _ from rfl)]
  rfl

theorem ResourceGroupSettings.validate_given (settings : ResourceGroupSettings) :
    ResourceGroupSettings.validate (.obj (given settings.dump)) = .ok settings := by
  have hnodup : (settings.dump.map Prod.fst).Nodup := by simp [dump]
  have hnames : ∀ field ∈ given settings.dump, field.1 ∈ ["cpu_quota_period"] := by
    simp [given, dump]
  unfold validate
  simp only [Codec.onlyFields_eq hnames,
    optionalField_given hnodup (show settings.dump.lookup "cpu_quota_period" = _ from rfl)]
  rfl

/-- Models that convert nothing. -/
def Models.plain : Models where
  group fields := (ResourceGroupWrite.validate (.obj fields)).mapError Error.text
  selector fields := (Selector.validate (.obj fields)).mapError Error.text
  settings fields := (ResourceGroupSettings.validate (.obj fields)).mapError Error.text
  group_given write := by rw [write.validate_given]; rfl
  selector_given write := by rw [write.validate_given]; rfl
  settings_given write := by rw [write.validate_given]; rfl

/-- `_snake`: an underscore before every capital but the first letter's, and no capitals. -/
def snakeChars : List Char → List Char
  | [] => []
  | c :: rest => if 'A' ≤ c ∧ c ≤ 'Z' then '_' :: c :: snakeChars rest else c :: snakeChars rest

def snake (camel : String) : String :=
  match camel.toList with
  | [] => ""
  | c :: rest => PyText.lower (.ofList (c :: snakeChars rest))

/-- The fields a model knows, under its own names; a name that comes twice holds the last value. -/
def known (names : List String) (fields : List (String × Json)) : List (String × Json) :=
  Json.dictOf ((fields.map fun field => (snake field.1, field.2)).filter fun field =>
    field.1 ∈ names)

/-- The fields a model does not know, and how they are reported. -/
def unknown (names : List String) (what : String → String) (fields : List (String × Json)) :
    List Unaccounted :=
  (fields.filter fun field => snake field.1 ∉ names).map fun field =>
    ⟨what field.1, .obj [field]⟩

/-! ### Groups -/

/-- A group's own fields in the file. -/
def ownOf (fields : List (String × Json)) : List (String × Json) :=
  fields.filter fun field => field.1 ≠ "name" ∧ field.1 ≠ "subGroups"

/-- The name a group is given. -/
def nameIn (fields : List (String × Json)) : Option String :=
  match fields.lookup "name" with
  | some (.str name) => if name = "" then none else some name
  | _ => none

/-- A group's path. -/
def fullOf (parent : Option String) (name : String) : String :=
  match parent with
  | some parent => parent ++ "." ++ name
  | none => name

/-- What has been read so far. -/
structure Reading where
  groups : Resources
  unaccounted : List Unaccounted

/-- Takes in one group, without its subgroups. -/
def takeGroup (models : Models) (path full : String) (fields : List (String × Json))
    (reading : Reading) : Except Failure Reading :=
  match models.group (known ResourceGroupWrite.names (ownOf fields)) with
  | .ok write => .ok ⟨reading.groups.insert full (.obj write.dump), reading.unaccounted ++
      unknown ResourceGroupWrite.names
        (fun key => "group '" ++ full ++ "' sets '" ++ key ++ "'") (ownOf fields)⟩
  | .error reason => .error (.unreadable path ("group '" ++ full ++ "' is not valid: " ++ reason))

mutual

/-- `_flatten`: one group and its subgroups. -/
def flatten (models : Models) (path : String) (parent : Option String) :
    Json → Reading → Except Failure Reading
  | .obj fields, reading =>
      match nameIn fields with
      | none => .error (.unreadable path
          ("a group under " ++ parent.getD "the root" ++ " has no name"))
      | some name => do
          let reading ← takeGroup models path (fullOf parent name) fields reading
          flattenSub models path (fullOf parent name) fields reading
  | _, _ => .error (.unreadable path
      ("a group under " ++ parent.getD "the root" ++ " is not an object"))

/-- The subgroups a group has among its fields. -/
def flattenSub (models : Models) (path full : String) :
    List (String × Json) → Reading → Except Failure Reading
  | [], reading => .ok reading
  | (key, value) :: rest, reading =>
      if key = "subGroups" then
        match value with
        | .arr subgroups => flattenAll models path (some full) subgroups reading
        | _ => .error (.unreadable path ("group '" ++ full ++ "' has a subGroups that is not a list"))
      else flattenSub models path full rest reading

/-- One group after the other. -/
def flattenAll (models : Models) (path : String) (parent : Option String) :
    List Json → Reading → Except Failure Reading
  | [], reading => .ok reading
  | group :: rest, reading => do
      let reading ← flatten models path parent group reading
      flattenAll models path parent rest reading

end

/-! ### Selectors -/

/-- One selector, and what is reported of it. -/
def readSelector (models : Models) (path : String) (index : Nat) :
    Json → Except Failure (Json × List Unaccounted)
  | .obj fields =>
      match models.selector (known Selector.names fields) with
      | .ok selector => .ok (.obj selector.dump, unknown Selector.names
          (fun key => "selector " ++ toString index ++ " matches on '" ++ key ++ "'") fields)
      | .error reason => .error (.unreadable path
          ("selector " ++ toString index ++ " is not valid: " ++ reason))
  | _ => .error (.unreadable path ("selector " ++ toString index ++ " is not an object"))

/-- The selectors, in their order. -/
def readSelectors (models : Models) (path : String) :
    Nat → List Json → Except Failure (List Json × List Unaccounted)
  | _, [] => .ok ([], [])
  | index, raw :: rest => do
      let (selector, unaccounted) ← readSelector models path index raw
      let (selectors, others) ← readSelectors models path (index + 1) rest
      return (selector :: selectors, unaccounted ++ others)

/-! ### The file -/

/-- The fields of the document a text holds. -/
def documentIn (path content : String) : Except Failure (List (String × Json)) :=
  match Json.loads content with
  | none => .error (.unreadable path "not valid JSON")
  | some (.obj fields) => .ok fields
  | some _ => .error (.unreadable path "the file is not a JSON object")

/-- A list the document has under a name; an absent one is empty. -/
def listIn (path : String) (fields : List (String × Json)) (name : String) :
    Except Failure (List Json) :=
  match (fields.lookup name).getD (.arr []) with
  | .arr elems => .ok elems
  | _ => .error (.unreadable path (name ++ " is not a list"))

/-- The names of the settings. -/
def settingNames : List String := ["cpu_quota_period"]

/-- `parse_rules`: the tree flattened back to paths, the selectors in order. -/
def parseRules (models : Models) (path content : String) :
    Except Failure (Resources × List Unaccounted) := do
  let fields ← documentIn path content
  let roots ← listIn path fields "rootGroups"
  let reading ← flattenAll models path none roots ⟨∅, []⟩
  let rawSelectors ← listIn path fields "selectors"
  let (selectors, reported) ← readSelectors models path 0 rawSelectors
  let unaccounted := unknown settingNames (fun key => "the file sets '" ++ key ++ "'")
    (fields.filter fun field => field.1 ∉ ["rootGroups", "selectors"])
  match models.settings (known settingNames fields) with
  | .error reason => .error (.validation reason)
  | .ok settings =>
      return (storeSelectors (storeSettings reading.groups settings) selectors,
        reading.unaccounted ++ reported ++ unaccounted)

/-- What a Section reads of its files: its resources, and what is left over with the file it is in. -/
structure Parsed where
  resources : Resources
  unaccounted : List (String × Unaccounted)

/-- Where Apchi writes the rules, which depends on who owns the properties file. -/
def rulesPath (settings : Settings) : String :=
  if settings.resourceGroupsPropertiesFromDeployment then RULES_IN_DIR else RULES_PATH

/-- `parse_files`: without the rules there are no resource groups, whatever the properties file
says. -/
def parseFiles (models : Models) (files : Dict) (settings : Settings) : Except Failure Parsed :=
  match files[rulesPath settings]? with
  | some rules => do
      let (resources, unaccounted) ← parseRules models (rulesPath settings) rules
      return ⟨resources, unaccounted.map fun entry => (rulesPath settings, entry)⟩
  | none =>
      match files[MANAGER_PATH]? with
      | none => .ok ⟨∅, []⟩
      | some manager => .ok ⟨∅, [(MANAGER_PATH,
          ⟨"Trino is told to read a resource groups file that is not there", .str manager⟩)]⟩

end Apchi.ResourceGroups
