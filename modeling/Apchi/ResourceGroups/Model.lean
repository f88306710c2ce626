import Apchi.Lib.Codec

/-!
# What an Operator writes about resource groups

A group's own configuration, the selectors that choose a group for a query, and what the file says
outside any group.  Each is stored as `model_dump` writes it, a part that is unset being `null`, and
what is stored is read back as it was written.
-/

namespace Apchi.ResourceGroups

open Lib

/-! ### The values of fields -/

/-- A dotted path from a root group down: no segment is empty, and none holds a `#`. -/
structure GroupPath where
  text : String
  short : text.length ≤ 512
  segments : ∀ segment ∈ text.toList.splitOn '.', segment ≠ []
  noHash : '#' ∉ text.toList
  deriving DecidableEq

namespace GroupPath

/-- The path a text is, if it is one. -/
def ofText (text : String) : Option GroupPath :=
  if h : text.length ≤ 512 ∧ (∀ segment ∈ text.toList.splitOn '.', segment ≠ []) ∧
      '#' ∉ text.toList then
    some ⟨text, h.1, h.2.1, h.2.2⟩
  else none

theorem ofText_text (path : GroupPath) : ofText path.text = some path := by
  unfold ofText
  rw [dif_pos ⟨path.short, path.segments, path.noHash⟩]

end GroupPath

/-- A memory or CPU limit as Trino spells it. -/
structure Limit where
  text : String
  nonempty : 1 ≤ text.length
  short : text.length ≤ 32

namespace Limit

theorem ext {a b : Limit} (h : a.text = b.text) : a = b := by
  cases a
  cases b
  cases h
  rfl

instance : DecidableEq Limit := fun _ _ => decidable_of_iff _ ⟨ext, congrArg text⟩

/-- The limit a text is, if it is one. -/
def ofText (text : String) : Option Limit :=
  if h : 1 ≤ text.length ∧ text.length ≤ 32 then some ⟨text, h.1, h.2⟩ else none

theorem ofText_text (limit : Limit) : ofText limit.text = some limit := by
  unfold ofText
  rw [dif_pos ⟨limit.nonempty, limit.short⟩]

def anHour : Limit := ⟨"1h", by decide, by decide⟩

end Limit

/-- Trino's scheduling policies, and no others. -/
inductive SchedulingPolicy where
  | fair
  | weighted
  | weightedFair
  | queryPriority
  deriving DecidableEq, Repr

namespace SchedulingPolicy

def text : SchedulingPolicy → String
  | fair => "fair"
  | weighted => "weighted"
  | weightedFair => "weighted_fair"
  | queryPriority => "query_priority"

def ofText (text : String) : Option SchedulingPolicy :=
  [fair, weighted, weightedFair, queryPriority].find? fun policy => policy.text = text

theorem ofText_text (policy : SchedulingPolicy) : ofText policy.text = some policy := by
  cases policy <;> rfl

end SchedulingPolicy

/-- The query types a selector may name. -/
inductive QueryType where
  | select
  | insert
  | delete
  | update
  | merge
  | analyze
  | explain
  | describe
  | dataDefinition
  | alterTableExecute
  deriving DecidableEq, Repr

namespace QueryType

def text : QueryType → String
  | select => "SELECT"
  | insert => "INSERT"
  | delete => "DELETE"
  | update => "UPDATE"
  | merge => "MERGE"
  | analyze => "ANALYZE"
  | explain => "EXPLAIN"
  | describe => "DESCRIBE"
  | dataDefinition => "DATA_DEFINITION"
  | alterTableExecute => "ALTER_TABLE_EXECUTE"

def ofText (text : String) : Option QueryType :=
  [select, insert, delete, update, merge, analyze, explain, describe, dataDefinition,
    alterTableExecute].find? fun type => type.text = text

theorem ofText_text (type : QueryType) : ofText type.text = some type := by
  cases type <;> rfl

end QueryType

def groupPath : Codec GroupPath := .ofText GroupPath.text GroupPath.ofText GroupPath.ofText_text

def limit : Codec Limit := .ofText Limit.text Limit.ofText Limit.ofText_text

def schedulingPolicy : Codec SchedulingPolicy :=
  .ofText SchedulingPolicy.text SchedulingPolicy.ofText SchedulingPolicy.ofText_text

def queryType : Codec QueryType := .ofText QueryType.text QueryType.ofText QueryType.ofText_text

/-! ### The models -/

/-- A group's own configuration; its name and place are its path.  A soft CPU limit needs a hard one
beside it. -/
structure ResourceGroupWrite where
  hardConcurrencyLimit : Nat
  maxQueued : Option Nat := none
  softMemoryLimit : Option Limit := none
  softConcurrencyLimit : Option Nat := none
  softCpuLimit : Option Limit := none
  hardCpuLimit : Option Limit := none
  schedulingPolicy : Option SchedulingPolicy := none
  schedulingWeight : Option Int := none
  jmxExport : Option Bool := none
  cpuLimitsComeInPairs : softCpuLimit.isSome → hardCpuLimit.isSome := by nofun
  deriving DecidableEq

namespace ResourceGroupWrite

/-- A group that is configured by how many of its queries may run at once, and nothing else. -/
def running (hardConcurrencyLimit : Nat) : ResourceGroupWrite := { hardConcurrencyLimit }

/-- `model_dump(mode="json")`. -/
def dump (write : ResourceGroupWrite) : List (String × Json) :=
  [("hard_concurrency_limit", Codec.nat.write write.hardConcurrencyLimit),
    ("max_queued", Codec.nat.optional write.maxQueued),
    ("soft_memory_limit", limit.optional write.softMemoryLimit),
    ("soft_concurrency_limit", Codec.nat.optional write.softConcurrencyLimit),
    ("soft_cpu_limit", limit.optional write.softCpuLimit),
    ("hard_cpu_limit", limit.optional write.hardCpuLimit),
    ("scheduling_policy", ResourceGroups.schedulingPolicy.optional write.schedulingPolicy),
    ("scheduling_weight", Codec.int.optional write.schedulingWeight),
    ("jmx_export", Codec.bool.optional write.jmxExport)]

/-- The names of the fields. -/
def names : List String :=
  ["hard_concurrency_limit", "max_queued", "soft_memory_limit", "soft_concurrency_limit",
    "soft_cpu_limit", "hard_cpu_limit", "scheduling_policy", "scheduling_weight", "jmx_export"]

/-- `ResourceGroupWrite.model_validate`, of values that need no conversion. -/
def validate : Json → Except Error ResourceGroupWrite
  | .obj fields => do
      Codec.onlyFields names fields
      let hardConcurrencyLimit ← Codec.nat.field "hard_concurrency_limit" fields
      let maxQueued ← Codec.nat.optionalField "max_queued" fields
      let softMemoryLimit ← limit.optionalField "soft_memory_limit" fields
      let softConcurrencyLimit ← Codec.nat.optionalField "soft_concurrency_limit" fields
      let softCpuLimit ← limit.optionalField "soft_cpu_limit" fields
      let hardCpuLimit ← limit.optionalField "hard_cpu_limit" fields
      let schedulingPolicy ←
        ResourceGroups.schedulingPolicy.optionalField "scheduling_policy" fields
      let schedulingWeight ← Codec.int.optionalField "scheduling_weight" fields
      let jmxExport ← Codec.bool.optionalField "jmx_export" fields
      if h : softCpuLimit.isSome → hardCpuLimit.isSome then
        return { hardConcurrencyLimit, maxQueued, softMemoryLimit, softConcurrencyLimit,
                 softCpuLimit, hardCpuLimit, schedulingPolicy, schedulingWeight, jmxExport,
                 cpuLimitsComeInPairs := h }
      else
        throw ⟨"ValidationError", "soft_cpu_limit needs hard_cpu_limit beside it; Trino refuses " ++
          "to start with one and not the other."⟩
  | _ => throw ⟨"ValidationError", "expected a mapping"⟩

theorem dump_names (write : ResourceGroupWrite) : write.dump.map Prod.fst = names := rfl

theorem wf_dump (write : ResourceGroupWrite) : ∀ field ∈ write.dump, field.2.WF := by
  simp [dump, Codec.wf_write]

theorem validate_dump (write : ResourceGroupWrite) : validate (.obj write.dump) = .ok write := by
  have hnames : ∀ field ∈ write.dump, field.1 ∈ names := fun field hfield =>
    write.dump_names ▸ List.mem_map_of_mem hfield
  unfold validate
  simp only [Codec.onlyFields_eq hnames,
    Codec.field_eq (show write.dump.lookup "hard_concurrency_limit" = _ from rfl),
    Codec.optionalField_eq (show write.dump.lookup "max_queued" = _ from rfl),
    Codec.optionalField_eq (show write.dump.lookup "soft_memory_limit" = _ from rfl),
    Codec.optionalField_eq (show write.dump.lookup "soft_concurrency_limit" = _ from rfl),
    Codec.optionalField_eq (show write.dump.lookup "soft_cpu_limit" = _ from rfl),
    Codec.optionalField_eq (show write.dump.lookup "hard_cpu_limit" = _ from rfl),
    Codec.optionalField_eq (show write.dump.lookup "scheduling_policy" = _ from rfl),
    Codec.optionalField_eq (show write.dump.lookup "scheduling_weight" = _ from rfl),
    Codec.optionalField_eq (show write.dump.lookup "jmx_export" = _ from rfl)]
  exact dif_pos write.cpuLimitsComeInPairs

end ResourceGroupWrite

/-- One rule choosing a group for a query: every field that is given must match. -/
structure Selector where
  group : GroupPath
  user : Option String := none
  originalUser : Option String := none
  authenticatedUser : Option String := none
  userGroup : Option String := none
  source : Option String := none
  queryType : Option QueryType := none
  queryText : Option String := none
  clientTags : Option (List String) := none
  deriving DecidableEq

namespace Selector

/-- `model_dump(mode="json")`. -/
def dump (selector : Selector) : List (String × Json) :=
  [("group", groupPath.write selector.group),
    ("user", Codec.text.optional selector.user),
    ("original_user", Codec.text.optional selector.originalUser),
    ("authenticated_user", Codec.text.optional selector.authenticatedUser),
    ("user_group", Codec.text.optional selector.userGroup),
    ("source", Codec.text.optional selector.source),
    ("query_type", ResourceGroups.queryType.optional selector.queryType),
    ("query_text", Codec.text.optional selector.queryText),
    ("client_tags", Codec.text.list.optional selector.clientTags)]

/-- The names of the fields. -/
def names : List String :=
  ["group", "user", "original_user", "authenticated_user", "user_group", "source", "query_type",
    "query_text", "client_tags"]

/-- `Selector.model_validate`, of values that need no conversion. -/
def validate : Json → Except Error Selector
  | .obj fields => do
      Codec.onlyFields names fields
      let group ← groupPath.field "group" fields
      let user ← Codec.text.optionalField "user" fields
      let originalUser ← Codec.text.optionalField "original_user" fields
      let authenticatedUser ← Codec.text.optionalField "authenticated_user" fields
      let userGroup ← Codec.text.optionalField "user_group" fields
      let source ← Codec.text.optionalField "source" fields
      let queryType ← ResourceGroups.queryType.optionalField "query_type" fields
      let queryText ← Codec.text.optionalField "query_text" fields
      let clientTags ← Codec.text.list.optionalField "client_tags" fields
      return { group, user, originalUser, authenticatedUser, userGroup, source, queryType,
               queryText, clientTags }
  | _ => throw ⟨"ValidationError", "expected a mapping"⟩

theorem dump_names (selector : Selector) : selector.dump.map Prod.fst = names := rfl

theorem wf_dump (selector : Selector) : ∀ field ∈ selector.dump, field.2.WF := by
  simp [dump, Codec.wf_write]

theorem validate_dump (selector : Selector) : validate (.obj selector.dump) = .ok selector := by
  have hnames : ∀ field ∈ selector.dump, field.1 ∈ names := fun field hfield =>
    selector.dump_names ▸ List.mem_map_of_mem hfield
  unfold validate
  simp only [Codec.onlyFields_eq hnames,
    Codec.field_eq (show selector.dump.lookup "group" = _ from rfl),
    Codec.optionalField_eq (show selector.dump.lookup "user" = _ from rfl),
    Codec.optionalField_eq (show selector.dump.lookup "original_user" = _ from rfl),
    Codec.optionalField_eq (show selector.dump.lookup "authenticated_user" = _ from rfl),
    Codec.optionalField_eq (show selector.dump.lookup "user_group" = _ from rfl),
    Codec.optionalField_eq (show selector.dump.lookup "source" = _ from rfl),
    Codec.optionalField_eq (show selector.dump.lookup "query_type" = _ from rfl),
    Codec.optionalField_eq (show selector.dump.lookup "query_text" = _ from rfl),
    Codec.optionalField_eq (show selector.dump.lookup "client_tags" = _ from rfl)]
  rfl

end Selector

/-- What the file says outside any group. -/
structure ResourceGroupSettings where
  cpuQuotaPeriod : Option Limit := none
  deriving DecidableEq

namespace ResourceGroupSettings

/-- `model_dump(mode="json")`. -/
def dump (settings : ResourceGroupSettings) : List (String × Json) :=
  [("cpu_quota_period", limit.optional settings.cpuQuotaPeriod)]

/-- `ResourceGroupSettings.model_validate`, of values that need no conversion. -/
def validate : Json → Except Error ResourceGroupSettings
  | .obj fields => do
      Codec.onlyFields ["cpu_quota_period"] fields
      let cpuQuotaPeriod ← limit.optionalField "cpu_quota_period" fields
      return { cpuQuotaPeriod }
  | _ => throw ⟨"ValidationError", "expected a mapping"⟩

theorem wf_dump (settings : ResourceGroupSettings) : ∀ field ∈ settings.dump, field.2.WF := by
  simp [dump]

theorem validate_dump (settings : ResourceGroupSettings) :
    validate (.obj settings.dump) = .ok settings := by
  have hnames : ∀ field ∈ settings.dump, field.1 ∈ ["cpu_quota_period"] := by
    simp [dump]
  unfold validate
  simp only [Codec.onlyFields_eq hnames,
    Codec.optionalField_eq (show settings.dump.lookup "cpu_quota_period" = _ from rfl)]
  rfl

end ResourceGroupSettings

end Apchi.ResourceGroups
