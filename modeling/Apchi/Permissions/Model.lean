import Mathlib.Data.String.Basic
import Mathlib.Tactic.Common
import Std.Data.ExtTreeMap

/-!
# Grants

What an Operator grants: an identity, a place, and a set of privileges.  A place is a catalog, a
schema in it, or a table in that; a level a grant omits covers every name at that level.  A grant
is addressed by a key derived from its identity and place, in which `*` stands for an omitted
level.
-/

namespace Apchi.Permissions

/-- Trino's six privileges. -/
inductive Privilege where
  | select
  | insert
  | update
  | delete
  | ownership
  | grantSelect
  deriving DecidableEq, Repr

namespace Privilege

/-- A privilege as the rules spell it. -/
def text : Privilege → String
  | select => "SELECT"
  | insert => "INSERT"
  | update => "UPDATE"
  | delete => "DELETE"
  | ownership => "OWNERSHIP"
  | grantSelect => "GRANT_SELECT"

/-- Trino's whole set, in its own order. -/
def every : List Privilege := [select, insert, update, delete, ownership, grantSelect]

/-- The privilege a text spells. -/
def ofText (text : String) : Option Privilege :=
  every.find? fun privilege => privilege.text == text

@[simp] theorem mem_every (privilege : Privilege) : privilege ∈ every := by
  cases privilege <;> decide

theorem text_injective : Function.Injective text := by
  intro p q h
  cases p <;> cases q <;> first | rfl | exact absurd h (by decide)

theorem ofText_text (privilege : Privilege) : ofText privilege.text = some privilege := by
  cases privilege <;> decide

theorem text_of_ofText {text : String} {privilege : Privilege}
    (h : ofText text = some privilege) : privilege.text = text := by
  simpa using List.find?_some h

end Privilege

/-- A Trino identity, a catalog, a schema or a table as an Operator writes it: a literal name.
A colon is excluded because it separates the parts of a key. -/
structure Name where
  text : String
  nonempty : 1 ≤ text.length
  short : text.length ≤ 256
  noColon : ':' ∉ text.toList
  deriving DecidableEq

namespace Name

theorem ext {a b : Name} (h : a.text = b.text) : a = b := by
  cases a
  cases b
  cases h
  rfl

/-- The name a text is, if it is one. -/
def ofText (text : String) : Option Name :=
  if h : 1 ≤ text.length ∧ text.length ≤ 256 ∧ ':' ∉ text.toList then
    some ⟨text, h.1, h.2.1, h.2.2⟩
  else none

theorem text_of_ofText {text : String} {name : Name} (h : ofText text = some name) :
    name.text = text := by
  unfold ofText at h
  split at h
  · cases h
    rfl
  · cases h

theorem ofText_text (name : Name) : ofText name.text = some name := by
  simp [ofText, name.nonempty, name.short, name.noColon]

end Name

/-- What stands in a key for a level a grant does not name. -/
def any : String := "*"

/-- A grant.  It allows something, and it names the schema of the table it names. -/
structure GrantWrite where
  identity : Name
  catalog : Name
  schema : Option Name
  table : Option Name
  privileges : List Privilege
  privileges_ne : privileges ≠ []
  schema_of_table : table.isSome → schema.isSome
  deriving DecidableEq

/-- Validates one level that may be absent. -/
def optionalName : Option String → Option (Option Name)
  | none => some none
  | some text => (Name.ofText text).map some

/-- `GrantWrite.model_validate`: a grant from the fields it is sent with. -/
def GrantWrite.validate (identity catalog : String) (schema table : Option String)
    (privileges : List String) : Option GrantWrite := do
  let identity ← Name.ofText identity
  let catalog ← Name.ofText catalog
  let schema ← optionalName schema
  let table ← optionalName table
  let privileges ← privileges.mapM Privilege.ofText
  if h : privileges ≠ [] ∧ (table.isSome → schema.isSome) then
    return { identity, catalog, schema, table, privileges,
             privileges_ne := h.1, schema_of_table := h.2 }
  else none

/-- One level of a key. -/
def keyPart (level : Option Name) : String :=
  match level with
  | some name => name.text
  | none => any

/-- How a grant is addressed: identity, catalog, schema, table. -/
def keyOf (write : GrantWrite) : String :=
  ":".intercalate [write.identity.text, write.catalog.text, keyPart write.schema, keyPart write.table]

/-- The place a grant names: its catalog, and the levels below that it does not omit. -/
def GrantWrite.place (write : GrantWrite) : List String :=
  match write.schema, write.table with
  | some schema, some table => [write.catalog.text, schema.text, table.text]
  | some schema, none => [write.catalog.text, schema.text]
  | none, _ => [write.catalog.text]

/-- The grants of a Candidate, under their keys. -/
abbrev Grants := Std.ExtTreeMap String GrantWrite

theorem optionalName_some {level : Option String} {name : Option Name}
    (h : optionalName level = some name) : name.map Name.text = level := by
  cases level with
  | none =>
      cases h
      rfl
  | some text =>
      simp only [optionalName, Option.map_eq_some_iff] at h
      obtain ⟨name, hname, rfl⟩ := h
      simp [Name.text_of_ofText hname]

theorem mapM_ofText {texts : List String} {privileges : List Privilege}
    (h : texts.mapM Privilege.ofText = some privileges) : privileges.map Privilege.text = texts := by
  induction texts generalizing privileges with
  | nil =>
      cases h
      rfl
  | cons text texts ih =>
      simp only [List.mapM_cons, Option.bind_eq_bind, Option.bind_eq_some_iff, Option.pure_def,
        Option.some.injEq] at h
      obtain ⟨privilege, hprivilege, rest, hrest, rfl⟩ := h
      simp [Privilege.text_of_ofText hprivilege, ih hrest]

/-- A validated grant says what it was sent with. -/
theorem GrantWrite.validate_eq {identity catalog : String} {schema table : Option String}
    {privileges : List String} {write : GrantWrite}
    (h : GrantWrite.validate identity catalog schema table privileges = some write) :
    write.identity.text = identity ∧ write.catalog.text = catalog ∧
      write.schema.map Name.text = schema ∧ write.table.map Name.text = table ∧
      write.privileges.map Privilege.text = privileges := by
  simp only [GrantWrite.validate, Option.bind_eq_bind, Option.bind_eq_some_iff] at h
  obtain ⟨i, hi, c, hc, s, hs, t, ht, ps, hps, h⟩ := h
  split at h
  · cases h
    exact ⟨Name.text_of_ofText hi, Name.text_of_ofText hc, optionalName_some hs,
      optionalName_some ht, mapM_ofText hps⟩
  · cases h

end Apchi.Permissions
