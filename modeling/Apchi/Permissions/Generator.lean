import Apchi.Lib.Json
import Apchi.Lib.Escape
import Apchi.Permissions.Model
import Std.Data.ExtTreeSet

/-!
# Rendering the grants to the file Trino reads, and reading such a file back

The whole file is generated: what Apchi owns, then the Operator's grants in the order of their
keys, then the rules kept from before, then the catch-alls.  Reading is the inverse as far as one
exists: a `tables` rule is a grant only if it names one identity and one place literally and
carries nothing else, and any other rule is kept.
-/

namespace Apchi.Permissions

open Lib

/-- The file, and the directory the Admin mounts. -/
def RULES_KEY : String := "rules.json"

def MOUNT_DIR : String := "/etc/trino/access-control"

def MOUNT_PATH : String := "/etc/trino/access-control/rules.json"

/-- One rule of a block: an object of the file. -/
structure Rule where
  fields : List (String × Json)
  wf : (Json.obj fields).WF
  deriving DecidableEq

namespace Rule

theorem ext {a b : Rule} (h : a.fields = b.fields) : a = b := by
  cases a
  cases b
  cases h
  rfl

/-- The value of a field, if the rule carries it. -/
def get? (rule : Rule) (field : String) : Option Json :=
  rule.fields.lookup field

/-- `rule == other` for dictionaries, whatever the order of their keys. -/
def sameAs (rule other : Rule) : Bool :=
  rule.fields.length == other.fields.length &&
    other.fields.all fun field => rule.get? field.1 == some field.2

end Rule

/-- The rules kept of each block, under the block's name. -/
abbrev Preserved := Std.ExtTreeMap String (List Rule)

/-- The rules kept of one block. -/
def Preserved.block (preserved : Preserved) (name : String) : List Rule :=
  (preserved[name]?).getD []

/-- An anchored literal name. -/
def anchored (name : String) : String :=
  "^" ++ reEscape name ++ "$"

/-- A list of texts. -/
def texts (values : List String) : Json :=
  .arr (values.map Json.str)

@[simp] theorem wf_texts (values : List String) : (texts values).WF := by
  simp only [texts, Json.wf_arr, List.mem_map, forall_exists_index, and_imp]
  rintro _ _ _ rfl
  exact Json.wf_str _

/-- Apchi's own read access. -/
def reservedTableRule (trinoUser verificationCatalog : String) : Rule :=
  ⟨[("user", .str (anchored trinoUser)), ("catalog", .str (anchored verificationCatalog)),
    ("privileges", texts ["SELECT"])], by simp⟩

/-- The rule everyone else gets the run of the tables by. -/
def catchAll : Rule :=
  ⟨[("privileges", texts (Privilege.every.map Privilege.text))], by simp⟩

/-- One identity's right to see and kill its own queries. -/
def killRule (identity : String) : Rule :=
  ⟨[("user", .str (anchored identity)), ("queryOwner", .str (anchored identity)),
    ("allow", texts ["view", "kill"])], by simp⟩

/-- Who may run, see and kill queries. -/
def queryRules (trinoUser : String) (identities : List String) : List Rule :=
  ⟨[("user", .str (anchored trinoUser)), ("allow", texts ["execute", "view", "kill"])], by simp⟩ ::
    ((identities.filter (· != trinoUser)).map killRule ++ [⟨[("allow", texts ["execute"])], by simp⟩])

/-- The one procedure everyone may call. -/
def killQuery : Rule :=
  ⟨[("catalog", .str "^system$"), ("schema", .str "^runtime$"), ("procedure", .str "^kill_query$"),
    ("privileges", texts ["EXECUTE"])], by simp⟩

/-- Who may execute which procedure. -/
def procedureRules : List Rule := [killQuery]

/-- The rules of the `catalogs` block Apchi owns: its own and the catch-all. -/
def catalogOwner (trinoUser : String) : Rule :=
  ⟨[("user", .str (anchored trinoUser)), ("allow", .str "owner")], by simp⟩

def catalogCatchAll : Rule := ⟨[("allow", .str "all")], by simp⟩

/-- The fields of a grant's rule. -/
def grantFields (grant : GrantWrite) : List (String × Json) :=
  [("user", .str (anchored grant.identity.text)), ("catalog", .str (anchored grant.catalog.text))] ++
    (grant.schema.toList.map fun schema => ("schema", Json.str (anchored schema.text))) ++
    (grant.table.toList.map fun table => ("table", Json.str (anchored table.text))) ++
    [("privileges", texts (grant.privileges.map Privilege.text))]

theorem wf_grantFields (grant : GrantWrite) : (Json.obj (grantFields grant)).WF := by
  unfold grantFields
  cases grant.schema <;> cases grant.table <;> simp

/-- One grant as Trino wants it, every name anchored. -/
def grantRule (grant : GrantWrite) : Rule :=
  ⟨grantFields grant, wf_grantFields grant⟩

/-- The `queries` block, where the catch-all stays last. -/
def withPreservedQueries (generated preservedRules : List Rule) : List Rule :=
  if preservedRules = [] then generated
  else generated.dropLast ++ preservedRules ++ generated.getLast?.toList

/-- The grants in the order of their keys. -/
def sortedGrants (grants : Grants) : List GrantWrite :=
  grants.toList.map Prod.snd

/-- The identities the grants name, each once and in order. -/
def identities (grants : Grants) : List String :=
  (Std.ExtTreeSet.ofList ((sortedGrants grants).map fun grant => grant.identity.text)).toList

/-- The `tables` block. -/
def tableRules (trinoUser : String) (grants : Grants) (verificationCatalog : String)
    (enforced : Bool) (preserved : Preserved) : List Rule :=
  reservedTableRule trinoUser verificationCatalog :: ((sortedGrants grants).map grantRule ++
    (preserved.block "tables" ++ if enforced then [] else [catchAll]))

/-- The blocks Apchi generates. -/
def generatedBlocks : List String := ["catalogs", "tables", "procedures", "queries"]

/-- A block of rules as a field of the file. -/
def blockField (name : String) (rules : List Rule) : String × Json :=
  (name, .arr (rules.map fun rule => .obj rule.fields))

/-- The fields of the whole file. -/
def renderFields (trinoUser : String) (grants : Grants) (verificationCatalog : String)
    (enforced : Bool) (preserved : Preserved) : List (String × Json) :=
  [blockField "catalogs"
      (catalogOwner trinoUser :: (preserved.block "catalogs" ++ [catalogCatchAll])),
    blockField "tables" (tableRules trinoUser grants verificationCatalog enforced preserved),
    blockField "procedures" (procedureRules ++ preserved.block "procedures"),
    blockField "queries"
      (withPreservedQueries (queryRules trinoUser (identities grants)) (preserved.block "queries"))]
  ++ (preserved.toList.filter fun block => block.1 ∉ generatedBlocks).map
      fun block => blockField block.1 block.2

/-- `render_rules`: the whole file. -/
def renderRules (trinoUser : String) (grants : Grants) (verificationCatalog : String)
    (enforced : Bool) (preserved : Preserved) : String :=
  Json.dumps (.obj (renderFields trinoUser grants verificationCatalog enforced preserved)) ++ "\n"

/-! ### Reading -/

/-- A file the reader refuses, and why. -/
structure Unreadable where
  path : String
  reason : String
  deriving DecidableEq, Repr

/-- What `grantRule` writes, and nothing else. -/
def grantKeys : List String := ["user", "catalog", "schema", "table", "privileges"]

/-- The escaped name behind an anchored pattern, if it is one.  The pattern that finds the anchors
ends in `$`, which also matches before a line break at the very end. -/
def unanchor (pattern : String) : Option String :=
  match pattern.toList with
  | '^' :: rest =>
      let body := if rest.getLast? = some '\n' then rest.dropLast else rest
      let literal := body.dropLast
      if body.getLast? = some '$' ∧ '\n' ∉ literal ∧
          escapeName (unescapeName literal) = literal then
        some (String.ofList literal)
      else none
  | _ => none

/-- One field of a grant's rule: absent, or a literal name. -/
def literalField (rule : Rule) (field : String) : Option (Option String) :=
  match rule.get? field with
  | none => some none
  | some (.str pattern) => (unanchor pattern).map fun literal => some (reUnescape literal)
  | some _ => none

/-- A list of texts, read back. -/
def asTexts : Json → Option (List String)
  | .arr values => values.mapM fun
      | .str text => some text
      | _ => none
  | _ => none

/-- One `tables` rule as a grant, or nothing when the model cannot hold it. -/
def asGrant (rule : Rule) : Option GrantWrite := do
  if rule.fields.any (fun field => field.1 ∉ grantKeys) then none else
  let identity ← (← literalField rule "user")
  let catalog ← (← literalField rule "catalog")
  let schema ← literalField rule "schema"
  let table ← literalField rule "table"
  let privileges ← asTexts (← rule.get? "privileges")
  GrantWrite.validate identity catalog schema table privileges

/-- What a `tables` rule is taken for. -/
inductive TableRule where
  /-- Apchi's own, which is dropped. -/
  | reserved
  /-- The rule whose presence means permissions are not enforced. -/
  | catchAll
  | grant (write : GrantWrite)
  | kept
  deriving DecidableEq

/-- How one `tables` rule is read. -/
def readTableRule (trinoUser verificationCatalog : String) (rule : Rule) : TableRule :=
  if rule.sameAs (reservedTableRule trinoUser verificationCatalog) then .reserved
  else if rule.sameAs Permissions.catchAll then .catchAll
  else
    match asGrant rule with
    | some write => .grant write
    | none => .kept

/-- What has been read of a file so far. -/
structure Reading where
  grants : Grants
  preserved : Preserved
  enforced : Bool

/-- Adds a rule to the ones kept of its block. -/
def keep (block : String) (rule : Rule) (preserved : Preserved) : Preserved :=
  preserved.insert block (preserved.block block ++ [rule])

/-- Takes in one `tables` rule. -/
def takeTableRule (trinoUser verificationCatalog : String) (reading : Reading) (rule : Rule) :
    Reading :=
  match readTableRule trinoUser verificationCatalog rule with
  | .reserved => reading
  | .catchAll => { reading with enforced := false }
  | .grant write => { reading with grants := reading.grants.insert (keyOf write) write }
  | .kept => { reading with preserved := keep "tables" rule reading.preserved }

/-- Reads the objects of a block, or says which element is none. -/
def rulesOf : (elems : List Json) → (∀ x ∈ elems, x.WF) → Nat → Except Nat (List Rule)
  | [], _, _ => .ok []
  | .obj fields :: rest, h, index => do
      let rules ← rulesOf rest (fun x hx => h x (List.mem_cons_of_mem _ hx)) (index + 1)
      return ⟨fields, h _ List.mem_cons_self⟩ :: rules
  | _ :: _, _, index => .error index

theorem wf_of_lookup {fields : List (String × Json)} {field : String} {value : Json}
    (h : (Json.obj fields).WF) (hfield : fields.lookup field = some value) : value.WF := by
  obtain ⟨before, after, rfl, -⟩ := List.lookup_eq_some_iff.mp hfield
  exact (Json.wf_obj.mp h).2 (field, value) (by simp)

/-- The rules of a block; an absent one has none. -/
def rulesIn (path : String) (document : Rule) (block : String) : Except Unreadable (List Rule) :=
  match h : document.fields.lookup block with
  | none => .ok []
  | some (.arr elems) =>
      match rulesOf elems (Json.wf_arr.mp (wf_of_lookup document.wf h)) 0 with
      | .ok rules => .ok rules
      | .error index => .error ⟨path, s!"{block}[" ++ toString index ++ "] is not an object"⟩
  | some _ => .error ⟨path, "the '" ++ block ++ "' block is not a list of rules"⟩

/-- The rules Apchi generates in each block other than `tables`. -/
def owned (trinoUser : String) (grants : Grants) (block : String) : List Rule :=
  if block = "catalogs" then [catalogOwner trinoUser, catalogCatchAll]
  else if block = "procedures" then procedureRules
  else if block = "queries" then queryRules trinoUser (identities grants)
  else []

/-- The names of the blocks other than `tables`, in order. -/
def otherBlocks (document : Rule) : List String :=
  (Std.ExtTreeSet.ofList ((document.fields.map Prod.fst).filter (· != "tables"))).toList

/-- Takes in one of the other blocks: whatever Apchi does not generate is kept. -/
def takeBlock (path : String) (document : Rule) (trinoUser : String) (grants : Grants)
    (preserved : Preserved) (block : String) : Except Unreadable Preserved := do
  let rules ← rulesIn path document block
  return (rules.filter fun rule => !(owned trinoUser grants block).any rule.sameAs).foldl
    (fun preserved rule => keep block rule preserved) preserved

/-- The object a text holds. -/
def readDocument (path content : String) : Except Unreadable Rule :=
  match h : Json.loads content with
  | none => .error ⟨path, "not valid JSON"⟩
  | some (.obj fields) => .ok ⟨fields, Json.loads_wf h⟩
  | some _ => .error ⟨path, "the file is not a JSON object"⟩

/-- What is read of the `tables` block. -/
def readTables (trinoUser verificationCatalog : String) (rules : List Rule) : Reading :=
  rules.foldl (takeTableRule trinoUser verificationCatalog) ⟨∅, ∅, true⟩

/-- `parse_rules`: the Operator's grants, the rules Apchi cannot express, and whether the Cluster
is enforcing. -/
def parseRules (path content trinoUser verificationCatalog : String) :
    Except Unreadable (Grants × Preserved × Bool) := do
  let document ← readDocument path content
  let tables ← rulesIn path document "tables"
  let reading := readTables trinoUser verificationCatalog tables
  let preserved ← (otherBlocks document).foldlM
    (takeBlock path document trinoUser reading.grants) reading.preserved
  return (reading.grants, preserved, reading.enforced)

end Apchi.Permissions
