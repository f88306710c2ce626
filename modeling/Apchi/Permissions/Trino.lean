import Apchi.Lib.FirstMatch
import Apchi.Permissions.Section

/-!
# What Trino decides from the file

The semantics of the `tables` block.  A file without one restricts no table.  In a present block
the first rule all of whose fields match decides by its privileges, and no match denies; a field a
rule does not carry, or carries as null, matches anything.  How a pattern matches is left open but
for one law: an anchored, escaped name matches that name and nothing else.
-/

namespace Apchi.Permissions

open Lib

/-- How a field's value matches a name as a whole. -/
structure Patterns where
  fullMatch : Json → String → Bool
  /-- An anchored literal name matches exactly itself. -/
  anchored_iff (name s : String) : fullMatch (.str (anchored name)) s = true ↔ s = name

/-- The patterns that are anchored names and match nothing else. -/
def Patterns.literal : Patterns where
  fullMatch pattern s := pattern = .str (anchored s)
  anchored_iff name s := by
    simp only [anchored, decide_eq_true_eq, Json.str.injEq, String.append_left_inj,
      String.append_right_inj]
    exact ⟨fun h => (reEscape_injective h).symm, fun h => h ▸ rfl⟩

/-- One access to one table. -/
structure Access where
  user : String
  groups : List String
  catalog : String
  schema : String
  table : String
  privilege : Privilege

/-- Whether a field is present and what it holds. -/
def carried (rule : Rule) (field : String) : Option Json :=
  match rule.get? field with
  | some .null => none
  | value => value

variable (patterns : Patterns)

/-- A field matches a name, if it is there at all. -/
def fieldMatches (rule : Rule) (field name : String) : Bool :=
  match carried rule field with
  | none => true
  | some pattern => patterns.fullMatch pattern name

/-- The group field matches one of the user's groups, if it is there at all. -/
def groupMatches (rule : Rule) (groups : List String) : Bool :=
  match carried rule "group" with
  | none => true
  | some pattern => groups.any (patterns.fullMatch pattern)

/-- All the fields a rule carries match. -/
def applies (access : Access) (rule : Rule) : Bool :=
  fieldMatches patterns rule "user" access.user && groupMatches patterns rule access.groups &&
    fieldMatches patterns rule "catalog" access.catalog &&
    fieldMatches patterns rule "schema" access.schema &&
    fieldMatches patterns rule "table" access.table

/-- A rule's privileges contain this one. -/
def allows (privilege : Privilege) (rule : Rule) : Bool :=
  match rule.get? "privileges" with
  | some (.arr privileges) => decide (Json.str privilege.text ∈ privileges)
  | _ => false

/-- What a `tables` block decides. -/
def tablesDecision (access : Access) (rules : List Rule) : Bool :=
  decision (applies patterns access) (allows access.privilege) rules

/-- The `tables` block of a file, if the file has one. -/
def tablesBlock (content : String) : Option (List Rule) :=
  match readDocument "" content with
  | .ok document =>
      if document.fields.any fun field => field.1 == "tables" then
        (rulesIn "" document "tables").toOption
      else none
  | .error _ => none

/-- Whether a file allows an access to a table. -/
def tablesAllow (content : String) (access : Access) : Bool :=
  match tablesBlock content with
  | none => true
  | some rules => tablesDecision patterns access rules

/-! ### The block of a rendered file -/

theorem rulesOf_map (rules : List Rule) (index : Nat)
    (h : ∀ x ∈ rules.map fun rule => Json.obj rule.fields, x.WF) :
    rulesOf (rules.map fun rule => .obj rule.fields) h index = .ok rules := by
  induction rules generalizing index with
  | nil => rfl
  | cons rule rules ih =>
      simp only [List.map_cons, rulesOf]
      rw [ih (index + 1)]
      rfl

/-- A block that lists rules is read as those rules. -/
theorem rulesIn_of_lookup {path block : String} {document : Rule} {rules : List Rule}
    (h : document.fields.lookup block = some (.arr (rules.map fun rule => .obj rule.fields))) :
    rulesIn path document block = .ok rules := by
  unfold rulesIn
  split
  · rename_i hnone
    rw [hnone] at h
    cases h
  · rename_i elems hsome
    have helems : elems = rules.map fun rule => .obj rule.fields := by
      rw [hsome] at h
      cases h
      rfl
    subst helems
    rw [rulesOf_map]
  · rename_i value hne hsome
    rw [hsome] at h
    cases h
    exact absurd rfl (hne _)

theorem readDocument_of_loads (path : String) {content : String} {fields : List (String × Json)}
    (h : Json.loads content = some (.obj fields)) :
    ∃ document, readDocument path content = .ok document ∧ document.fields = fields := by
  unfold readDocument
  split
  · rename_i hnone
    rw [hnone] at h
    cases h
  · rename_i fields' hsome
    rw [hsome] at h
    cases h
    exact ⟨_, rfl, rfl⟩
  · rename_i value hne hsome
    rw [hsome] at h
    cases h
    exact absurd rfl (hne _)

theorem wf_blockField (name : String) (rules : List Rule) : (blockField name rules).2.WF := by
  simp only [blockField, Json.wf_arr, List.mem_map, forall_exists_index, and_imp]
  rintro _ rule _ rfl
  exact rule.wf

theorem nodup_keys_toList {α : Type} (dict : Std.ExtTreeMap String α) :
    (dict.toList.map Prod.fst).Nodup := by
  rw [Std.ExtTreeMap.map_fst_toList_eq_keys]
  exact Std.ExtTreeMap.nodup_keys

theorem wf_renderFields (trinoUser : String) (grants : Grants) (verificationCatalog : String)
    (enforced : Bool) (preserved : Preserved) :
    (Json.obj (renderFields trinoUser grants verificationCatalog enforced preserved)).WF := by
  rw [Json.wf_obj]
  constructor
  · have hothers : ((preserved.toList.filter fun block => block.1 ∉ generatedBlocks).map
        Prod.fst).Nodup :=
      (nodup_keys_toList preserved).sublist (List.filter_sublist.map _)
    have hnames : ((preserved.toList.filter fun block => block.1 ∉ generatedBlocks).map
        fun block => blockField block.1 block.2).map Prod.fst =
        (preserved.toList.filter fun block => block.1 ∉ generatedBlocks).map Prod.fst := by
      rw [List.map_map]
      rfl
    rw [renderFields, List.map_append, hnames, List.nodup_append]
    refine ⟨by simp [blockField], hothers, ?_⟩
    intro name hname other hother heq
    simp only [List.mem_map, List.mem_filter, decide_eq_true_eq] at hother
    obtain ⟨block, ⟨-, hnew⟩, rfl⟩ := hother
    exact hnew (heq ▸ hname)
  · intro field hfield
    simp only [renderFields, List.mem_append, List.mem_map] at hfield
    rcases hfield with hfield | ⟨block, -, rfl⟩
    · simp only [List.mem_cons, List.not_mem_nil, or_false] at hfield
      rcases hfield with rfl | rfl | rfl | rfl <;> exact wf_blockField _ _
    · exact wf_blockField _ _

/-- The `tables` block Trino reads from a rendered file is the one that was rendered. -/
theorem tablesBlock_renderRules (trinoUser : String) (grants : Grants)
    (verificationCatalog : String) (enforced : Bool) (preserved : Preserved) :
    tablesBlock (renderRules trinoUser grants verificationCatalog enforced preserved) =
      some (tableRules trinoUser grants verificationCatalog enforced preserved) := by
  have hloads : Json.loads (renderRules trinoUser grants verificationCatalog enforced preserved) =
      some (.obj (renderFields trinoUser grants verificationCatalog enforced preserved)) :=
    Json.loads_dumps_append (wf_renderFields ..) "\n" (by simp [Json.isSpace])
  obtain ⟨document, hread, hfields⟩ := readDocument_of_loads "" hloads
  have hany : (document.fields.any fun field => field.1 == "tables") = true := by
    rw [hfields]
    simp [renderFields, blockField]
  have hrules : rulesIn "" document "tables" =
      .ok (tableRules trinoUser grants verificationCatalog enforced preserved) := by
    apply rulesIn_of_lookup
    rw [hfields]
    rfl
  simp only [tablesBlock, hread, hany, if_true, hrules]
  rfl

theorem tablesAllow_renderRules (trinoUser : String) (grants : Grants)
    (verificationCatalog : String) (enforced : Bool) (preserved : Preserved) (access : Access) :
    tablesAllow patterns (renderRules trinoUser grants verificationCatalog enforced preserved)
        access =
      tablesDecision patterns access
        (tableRules trinoUser grants verificationCatalog enforced preserved) := by
  rw [tablesAllow, tablesBlock_renderRules]

/-! ### The rules Apchi writes -/

variable {patterns}

/-- Apchi's own rule speaks of Apchi's identity only. -/
theorem applies_reserved {trinoUser verificationCatalog : String} {access : Access}
    (h : access.user ≠ trinoUser) :
    applies patterns access (reservedTableRule trinoUser verificationCatalog) = false := by
  have huser : patterns.fullMatch (.str (anchored trinoUser)) access.user = false := by
    rw [Bool.eq_false_iff, ne_eq, patterns.anchored_iff]
    exact h
  simp [applies, fieldMatches, carried, Rule.get?, reservedTableRule, huser, List.lookup_cons]

/-- The catch-all applies to everything and allows everything. -/
theorem applies_catchAll (access : Access) : applies patterns access catchAll = true := rfl

theorem allows_catchAll (privilege : Privilege) : allows privilege catchAll = true := by
  cases privilege <;> decide

/-- A grant covers a table when its place leads to it. -/
def covers (grant : GrantWrite) (access : Access) : Bool :=
  grant.place.isPrefixOf [access.catalog, access.schema, access.table]

/-- A grant's rule applies to its identity's accesses inside its place. -/
theorem applies_grantRule (grant : GrantWrite) (access : Access) :
    applies patterns access (grantRule grant) = true ↔
      access.user = grant.identity.text ∧ covers grant access = true := by
  obtain ⟨identity, catalog, schema, table, privileges, hne, hschema⟩ := grant
  have hprefix : ∀ a b : String, (a == b) = true ↔ b = a := fun a b => by
    rw [beq_iff_eq]
    exact eq_comm
  cases schema <;> cases table
  all_goals
    simp [applies, fieldMatches, groupMatches, carried, Rule.get?, grantRule, grantFields, covers,
      GrantWrite.place, List.lookup_cons, patterns.anchored_iff, List.isPrefixOf, and_assoc, hprefix,
      -beq_iff_eq] at hschema ⊢

theorem mem_texts {privilege : Privilege} {privileges : List Privilege} :
    Json.str privilege.text ∈ (privileges.map Privilege.text).map Json.str ↔
      privilege ∈ privileges := by
  simp only [List.mem_map, exists_exists_and_eq_and, Json.str.injEq]
  constructor
  · rintro ⟨other, hmem, heq⟩
    rwa [← Privilege.text_injective heq]
  · intro h
    exact ⟨privilege, h, rfl⟩

/-- A grant's rule allows what the grant allows. -/
theorem allows_grantRule (grant : GrantWrite) (privilege : Privilege) :
    allows privilege (grantRule grant) = true ↔ privilege ∈ grant.privileges := by
  have hget : (grantRule grant).get? "privileges" =
      some (texts (grant.privileges.map Privilege.text)) := by
    simp only [grantRule, grantFields, Rule.get?]
    cases grant.schema <;> cases grant.table <;> rfl
  simp only [allows, hget, texts, decide_eq_true_eq, mem_texts]

end Apchi.Permissions
