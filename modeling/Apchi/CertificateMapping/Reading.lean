import Apchi.Lib.Codec
import Apchi.CertificateMapping.Section

/-!
# Reading mapping rules back from the file

Two of the rules in a file Apchi wrote are Apchi's own, and both are dropped from where they are
written: the first rule if it is the reserved one, the last if it is the one that leaves a name as it
is presented.  The first pattern of what is left is the Operator's and the others are reported.
-/

namespace Apchi.CertificateMapping

open Lib Pipeline

/-- A file that cannot be read. -/
def unreadable (path reason : String) : Error := ⟨"Unreadable", path ++ ": " ++ reason⟩

/-! ### Patterns -/

/-- The fields of a pattern. -/
def ruleKeys : List String := ["pattern", "user", "case"]

/-- A text among the fields that its constraints accept, or the default. -/
def textField (fields : List (String × Json)) (name : String) (default : Option String)
    (accepts : String → Bool) : Except Error String :=
  match fields.lookup name with
  | none =>
      match default with
      | some text => .ok text
      | none => .error ⟨"ValidationError", name ++ ": Field required"⟩
  | some (.str text) =>
      if accepts text then .ok text else .error ⟨"ValidationError", name ++ ": not accepted"⟩
  | some _ => .error ⟨"ValidationError", name ++ ": Input should be a valid string"⟩

/-- A text of between one and so many characters. -/
def within (longest : Nat) (text : String) : Bool := 1 ≤ text.length ∧ text.length ≤ longest

/-- What may be done with the matched name. -/
def cases : List String := ["keep", "lower", "upper"]

/-- `CertificateMappingWrite.model_validate`. -/
def validate (fields : List (String × Json)) : Except Error CertificateMappingWrite := do
  let pattern ← textField fields "pattern" none (within 512)
  let user ← textField fields "user" (some "$1") (within 256)
  let case ← textField fields "case" (some "keep") fun text => text ∈ cases
  Codec.onlyFields ruleKeys fields
  return ⟨pattern, user, case⟩

/-! ### Apchi's own rules -/

/-- Two objects are equal, whatever the order of their fields. -/
def sameObject (fields other : List (String × Json)) : Bool :=
  fields.length == other.length && fields.all fun field => other.lookup field.1 == some field.2

/-- The fields of the reserved rule. -/
def reservedFields (trinoUser : String) : List (String × Json) :=
  [("pattern", .str ("^" ++ reEscape trinoUser ++ "$")), ("user", .str trinoUser)]

/-- The fields of the rule that leaves a name as it is presented. -/
def unchangedFields : List (String × Json) := [("pattern", .str "(.*)")]

/-- A rule of the file, with its place in it. -/
abbrev Indexed := Nat × List (String × Json)

/-- The rules without the reserved one in front. -/
def dropReserved (trinoUser : String) : List Indexed → List Indexed
  | [] => []
  | rule :: rest => if sameObject rule.2 (reservedFields trinoUser) then rest else rule :: rest

/-- The rules without the one at the end that changes nothing. -/
def dropUnchanged (rules : List Indexed) : List Indexed :=
  match rules.getLast? with
  | none => []
  | some rule => if sameObject rule.2 unchangedFields then rules.dropLast else rules

/-! ### What is left over -/

/-- What a file says that is not the Operator's pattern. -/
inductive Unaccounted where
  | outside (key : String) (value : Json)
  | unmodelled (index : Nat) (extra : List String) (rule : List (String × Json))
  | further (index : Nat) (rule : List (String × Json))
  deriving DecidableEq

namespace Unaccounted

/-- How it is reported. -/
def what : Unaccounted → String
  | outside key _ => s!"'{key}' outside the rules array"
  | unmodelled index [] _ => s!"rule {index} uses no pattern"
  | unmodelled index extra _ => s!"rule {index} uses " ++ ", ".intercalate extra
  | further index _ => s!"rule {index} is a further pattern"

def content : Unaccounted → Json
  | outside _ value => value
  | unmodelled _ _ rule | further _ rule => .obj rule

/-- The pattern, if it is a further one and can be held. -/
def pattern? : Unaccounted → Option CertificateMappingWrite
  | further _ rule => (validate rule).toOption
  | _ => none

end Unaccounted

/-- Everything beside the rules, in the order of the keys. -/
def outsideRules (document : List (String × Json)) : List Unaccounted :=
  ((Std.ExtTreeMap.ofList document : Std.ExtTreeMap String Json).toList.filter fun field =>
    field.1 ≠ "rules").map fun field => .outside field.1 field.2

/-! ### The rules -/

/-- The rules as objects, with their places. -/
def objectsIn (path : String) : Nat → List Json → Except Error (List Indexed)
  | _, [] => .ok []
  | index, .obj fields :: rest => do
      let others ← objectsIn path (index + 1) rest
      return (index, fields) :: others
  | index, _ :: _ => .error (unreadable path s!"rule {index} is not an object")

/-- What has been read so far. -/
structure Reading where
  operator : Option (List (String × Json)) := none
  unaccounted : List Unaccounted := []

/-- The fields a pattern has no place for. -/
def extraOf (rule : List (String × Json)) : List String :=
  (Std.ExtTreeSet.ofList ((rule.map Prod.fst).filter fun key => key ∉ ruleKeys)).toList

/-- Takes in one rule. -/
def takeRule (reading : Reading) (rule : Indexed) : Reading :=
  let extra := extraOf rule.2
  if extra ≠ [] ∨ rule.2.lookup "pattern" = none then
    { reading with unaccounted := reading.unaccounted ++ [.unmodelled rule.1 extra rule.2] }
  else if reading.operator = none then { reading with operator := some rule.2 }
  else { reading with unaccounted := reading.unaccounted ++ [.further rule.1 rule.2] }

/-- The document a text holds. -/
def documentIn (path content : String) : Except Error (List (String × Json)) :=
  match Json.loads content with
  | none => .error (unreadable path "not valid JSON")
  | some (.obj fields) => .ok fields
  | some _ => .error (unreadable path "the file is not a JSON object")

/-- The rules of a document. -/
def rulesIn (path : String) (document : List (String × Json)) : Except Error (List Json) :=
  match document.lookup "rules" with
  | some (.arr rules) => .ok rules
  | _ => .error (unreadable path "there is no 'rules' array")

/-- The Operator's pattern as it is stored. -/
def storedOperator : Option (List (String × Json)) → Except Error Resources
  | none => .ok ∅
  | some rule => do
      let mapping ← validate rule
      return (∅ : Resources).insert RESOURCE (.obj (dump mapping))

/-- `parse_rules`: the Operator's one pattern, and what could not be accounted for. -/
def parseRules (path content trinoUser : String) : Except Error (Resources × List Unaccounted) := do
  let document ← documentIn path content
  let rules ← rulesIn path document
  let objects ← objectsIn path 0 rules
  let reading := (dropUnchanged (dropReserved trinoUser objects)).foldl takeRule
    ⟨none, outsideRules document⟩
  let resources ← storedOperator reading.operator
  return (resources, reading.unaccounted)

/-- `parse_files`: an absent file is nothing configured. -/
def parseFiles (files : Dict) (settings : Settings) :
    Except Error (Resources × List (String × Unaccounted)) :=
  match files[MOUNT_PATH]? with
  | none => .ok (∅, [])
  | some content =>
      match parseRules MOUNT_PATH content settings.trinoUser with
      | .ok (resources, unaccounted) =>
          .ok (resources, unaccounted.map fun entry => (MOUNT_PATH, entry))
      | .error e =>
          if e.kind = "Unreadable" then .error ⟨"ParseProblem", e.text⟩ else .error e

end Apchi.CertificateMapping
