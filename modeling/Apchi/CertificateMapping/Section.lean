import Apchi.Lib.Escape
import Apchi.Pipeline.Section

/-!
# The Certificate Mapping Section

One pattern, and one file of rules in a directory the Admin mounts: Apchi's own rule first, then the
Operator's pattern, then the patterns an Admin preserves, then the rule that leaves a name as it is
presented.
-/

namespace Apchi.CertificateMapping

open Lib Pipeline

/-- The key of the one resource. -/
def RESOURCE : String := "pattern"

def MOUNT_DIR : String := "/etc/trino/user-mapping"

def MOUNT_PATH : String := "/etc/trino/user-mapping/user-mapping.json"

/-! ### Staging -/

/-- A pattern as `model_dump` writes it. -/
def dump (mapping : CertificateMappingWrite) : List (String × Json) :=
  [("pattern", .str mapping.pattern), ("user", .str mapping.user), ("case", .str mapping.case)]

/-- The groups a replacement refers to: what `\$(\d+)` finds in it. -/
def groupReferences : List Char → List Nat
  | [] => []
  | '$' :: rest =>
      match rest.takeWhile Char.isDigit with
      | [] => groupReferences rest
      | digits => digits.foldl (fun n c => 10 * n + (c.toNat - 48)) 0 :: groupReferences rest
  | _ :: rest => groupReferences rest

/-- `_problems_with`: an expression is compiled to the number of its groups, or there is a text of why
not. -/
def problemsWith (compile : String → Except String Nat) (write : CertificateMappingWrite) :
    List (String × String) :=
  match compile write.pattern with
  | .error reason => [("pattern", "not a valid expression: " ++ reason)]
  | .ok groups =>
      match (groupReferences write.user.toList).filter (groups < ·) with
      | [] => []
      | missing :: _ => [("user", s!"refers to capturing group {missing}, but the pattern has {groups}. " ++
          "Nothing would be substituted, so the pattern would produce no identity.")]

/-- `set_mapping`. -/
def setMapping (compile : String → Except String Nat) (stored : Resources)
    (write : CertificateMappingWrite) : Except Refusal Resources :=
  match problemsWith compile write with
  | [] => .ok (stored.insert RESOURCE (.obj (dump write)))
  | problems => .error ⟨"UnprocessablePayload", "The Certificate Mapping Pattern is not usable.",
      problems⟩

/-- `clear_mapping`. -/
def clearMapping (stored : Resources) : Except Refusal Resources :=
  if RESOURCE ∈ stored then .ok (stored.erase RESOURCE)
  else .error { kind := "NotFound", message := "No Certificate Mapping Pattern is configured." }

/-- What any sequence of operations leads to. -/
inductive Staged (compile : String → Except String Nat) : Resources → Prop where
  | empty : Staged compile ∅
  | set {stored resources : Resources} {write : CertificateMappingWrite}
      (h : Staged compile stored) (hset : setMapping compile stored write = .ok resources) :
      Staged compile resources
  | clear {stored resources : Resources} (h : Staged compile stored)
      (hclear : clearMapping stored = .ok resources) : Staged compile resources

/-! ### Rendering -/

/-- `reserved_rule`: Apchi's own identity, kept working whatever the Operator writes. -/
def reservedRule (trinoUser : String) : Json :=
  .obj [("pattern", .str ("^" ++ reEscape trinoUser ++ "$")), ("user", .str trinoUser)]

/-- A field of a rule, left out where it is the default. -/
def unlessDefault (mapping : List (String × Json)) (field default : String) :
    List (String × Json) :=
  match mapping.lookup field with
  | none => []
  | some value => if value = .str default then [] else [(field, value)]

/-- `_rule`. -/
def rule (mapping : List (String × Json)) : Except Error Json :=
  match mapping.lookup "pattern" with
  | none => .error ⟨"KeyError", "'pattern'"⟩
  | some pattern =>
      .ok (.obj (("pattern", pattern) ::
        (unlessDefault mapping "user" "$1" ++ unlessDefault mapping "case" "keep")))

/-- The Operator's rule, if a pattern is configured. -/
def operatorRules (desired : Resources) : Except Error (List Json) :=
  match desired[RESOURCE]? with
  | none | some .null | some (.obj []) => .ok []
  | some (.obj mapping) => (rule mapping).map fun rule => [rule]
  | some _ => .error ⟨"TypeError", "expected a mapping"⟩

/-- `render_rules`. -/
def renderRules (desired : Resources) (trinoUser : String)
    (preserved : List CertificateMappingWrite) : Except Error String := do
  let operator ← operatorRules desired
  let kept ← preserved.mapM fun pattern => rule (dump pattern)
  return Json.dumps (.obj [("rules", .arr (reservedRule trinoUser :: (operator ++ kept ++
    [.obj [("pattern", .str "(.*)")]])))]) ++ "\n"

/-! ### The Section -/

/-- `coordinator_files`: one file, in the directory the Admin mounts. -/
def coordinatorFiles (settings : Settings) : List Delivery :=
  [.directory settings.certificateMappingSecretName MOUNT_DIR]

/-- `render_files`: always a file, never nothing. -/
def renderFiles (desired : Resources) (settings : Settings) (admin : AdminValues) :
    Except Error Dict := do
  let rules ← renderRules desired settings.trinoUser admin.preservedCertificateMappings
  return (∅ : Dict).insert MOUNT_PATH rules

/-- `plan`: changed or not. -/
def plan (desired current : Resources) : SectionPlan where
  otherwise := desired[RESOURCE]? ≠ current[RESOURCE]?

/-- The Certificate Mapping Section as the pipeline sees it. -/
def certificateMappingSection : Section :=
  .ofFiles .certificateMapping true coordinatorFiles renderFiles plan

/-! ### What is staged renders -/

theorem rule_dump (mapping : CertificateMappingWrite) : ∃ rendered, rule (dump mapping) = .ok rendered :=
  ⟨_, rfl⟩

/-- What the operations lead to is no pattern, or one. -/
theorem Staged.shape {compile : String → Except String Nat} {stored : Resources}
    (h : Staged compile stored) :
    stored[RESOURCE]? = none ∨ ∃ write, stored[RESOURCE]? = some (.obj (dump write)) := by
  induction h with
  | empty => exact Or.inl (by simp)
  | @set stored resources write _ hset _ =>
    unfold setMapping at hset
    split at hset
    · cases hset
      exact Or.inr ⟨write, by simp⟩
    · cases hset
  | @clear stored resources _ hclear _ =>
    unfold clearMapping at hclear
    split at hclear
    · cases hclear
      exact Or.inl (by simp)
    · cases hclear

/-- The rules of what is staged can always be written. -/
theorem Staged.renders {compile : String → Except String Nat} {stored : Resources}
    (h : Staged compile stored) (settings : Settings) (admin : AdminValues) :
    ∃ rules, renderFiles stored settings admin = .ok ((∅ : Dict).insert MOUNT_PATH rules) := by
  have hkept : ∀ patterns : List CertificateMappingWrite,
      ∃ kept, patterns.mapM (fun pattern => rule (dump pattern)) = Except.ok kept := by
    intro patterns
    induction patterns with
    | nil => exact ⟨[], rfl⟩
    | cons pattern rest ih =>
      obtain ⟨kept, hkept⟩ := ih
      obtain ⟨first, hfirst⟩ := rule_dump pattern
      exact ⟨first :: kept, by rw [List.mapM_cons, hfirst, hkept]; rfl⟩
  have hoperator : ∃ operator, operatorRules stored = .ok operator := by
    unfold operatorRules
    rcases h.shape with hnone | ⟨write, hsome⟩
    · exact ⟨[], by rw [hnone]⟩
    · obtain ⟨rendered, hrendered⟩ := rule_dump write
      rw [hsome]
      refine ⟨[rendered], ?_⟩
      show (rule (dump write)).map (fun rule => [rule]) = .ok [rendered]
      rw [hrendered]
      rfl
  obtain ⟨operator, hoperator⟩ := hoperator
  obtain ⟨kept, hkept⟩ := hkept admin.preservedCertificateMappings
  unfold renderFiles renderRules
  rw [hoperator, hkept]
  exact ⟨_, rfl⟩

/-- An empty plan is the same file. -/
theorem renderFiles_of_plan_empty {desired current : Resources} (h : (plan desired current).empty)
    (settings : Settings) (admin : AdminValues) :
    renderFiles desired settings admin = renderFiles current settings admin := by
  have hsame : desired[RESOURCE]? = current[RESOURCE]? := by
    simpa [plan, SectionPlan.empty] using h
  unfold renderFiles renderRules operatorRules
  rw [hsame]

end Apchi.CertificateMapping
