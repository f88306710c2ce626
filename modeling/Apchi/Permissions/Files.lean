import Apchi.Lib.Codec
import Apchi.Permissions.Section
import Apchi.Pipeline.Section

/-!
# The Permissions Section's file

Grants are stored as `model_dump` writes them, and the file is always there and always whole: what is
staged, with what an Admin preserves.
-/

namespace Apchi.Permissions

open Lib Pipeline

def name : Codec Name := .ofText Name.text Name.ofText Name.ofText_text

def privilege : Codec Privilege :=
  .ofText Privilege.text Privilege.ofText fun privilege => by cases privilege <;> rfl

/-- `model_dump(mode="json", by_alias=True)`. -/
def dump (grant : GrantWrite) : List (String × Json) :=
  [("identity", name.write grant.identity), ("catalog", name.write grant.catalog),
    ("schema", name.optional grant.schema), ("table", name.optional grant.table),
    ("privileges", privilege.list.write grant.privileges)]

/-- A stored grant, read field by field. -/
def readGrant : Json → Except Error GrantWrite
  | .obj fields => do
      let identity ← name.field "identity" fields
      let catalog ← name.field "catalog" fields
      let schema ← name.optionalField "schema" fields
      let table ← name.optionalField "table" fields
      let privileges ← privilege.list.field "privileges" fields
      if hne : privileges ≠ [] then
        if hschema : table.isSome → schema.isSome then
          return { identity, catalog, schema, table, privileges,
                   privileges_ne := hne, schema_of_table := hschema }
        else throw ⟨"KeyError", "privileges"⟩
      else throw ⟨"KeyError", "privileges"⟩
  | _ => throw ⟨"TypeError", "expected a mapping"⟩

theorem readGrant_dump (grant : GrantWrite) : readGrant (.obj (dump grant)) = .ok grant := by
  unfold readGrant
  simp only [Codec.field_eq (show (dump grant).lookup "identity" = _ from rfl),
    Codec.field_eq (show (dump grant).lookup "catalog" = _ from rfl),
    Codec.optionalField_eq (show (dump grant).lookup "schema" = _ from rfl),
    Codec.optionalField_eq (show (dump grant).lookup "table" = _ from rfl),
    Codec.field_eq (show (dump grant).lookup "privileges" = _ from rfl)]
  exact (dif_pos grant.privileges_ne).trans (dif_pos grant.schema_of_table)

/-- The grants as the Candidate holds them. -/
def storedGrants (grants : Grants) : Resources := grants.map fun _ grant => .obj (dump grant)

/-- The grants of the Candidate, read back. -/
def readGrants (stored : Resources) : Except Error Grants := do
  let entries ← stored.toList.mapM fun (key, grant) => do
    let grant ← readGrant grant
    return (key, grant)
  return .ofList entries

/-- The grants are read back as they were stored. -/
theorem readGrants_stored (grants : Grants) : readGrants (storedGrants grants) = .ok grants := by
  have hentries : ∀ entries : List (String × GrantWrite),
      (entries.map fun entry => (entry.1, Json.obj (dump entry.2))).mapM (fun (key, grant) => do
        let grant ← readGrant grant
        return (key, grant)) = Except.ok entries := by
    intro entries
    induction entries with
    | nil => rfl
    | cons entry rest ih =>
      rw [List.map_cons, List.mapM_cons, ih]
      dsimp only
      rw [readGrant_dump]
      rfl
  unfold readGrants storedGrants
  rw [Std.ExtTreeMap.toList_map, hentries]
  exact congrArg Except.ok (ofList_toList grants)

/-- `coordinator_files`: one file, and the Admin mounts the directory that holds it. -/
def coordinatorFiles (settings : Settings) : List Delivery :=
  [.directory settings.accessControlSecretName MOUNT_DIR]

/-- `render_files`: always a file, and always the whole of it. -/
def renderFiles (desired : Resources) (settings : Settings) (admin : AdminValues) :
    Except Error Dict := do
  let grants ← readGrants desired
  return (∅ : Dict).insert MOUNT_PATH (renderRules settings.trinoUser grants
    settings.verificationCatalog admin.enforcePermissions admin.preservedAccessControl)

/-- `plan`. -/
def plan (desired current : Resources) : SectionPlan where
  added := desired.keys.filter fun name => name ∉ current
  changed := desired.keys.filter fun name => name ∈ current ∧ desired[name]? ≠ current[name]?
  removed := current.keys.filter fun name => name ∉ desired

end Apchi.Permissions
