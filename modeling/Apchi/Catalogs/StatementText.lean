import Apchi.Catalogs.Durable
import Apchi.Lib.Sql

/-!
# The text of the statements

What Apchi sends Trino is a text made of names and values that Operators chose.  Trino cuts the text
into tokens; whatever was chosen, each name and each value is to be one of them.
-/

namespace Apchi.Catalogs

open Lib Pipeline EventListeners Sql

/-! ### Writing -/

/-- `_identifier`. -/
def identifier (value : String) : String := .ofList (inQuotes '"' value.toList)

/-- `_literal`. -/
def literal (value : String) : String := .ofList (inQuotes '\'' value.toList)

/-- A character of `_CONNECTOR_NAME`. -/
def isConnectorChar (c : Char) : Bool := c.isLower || c.isDigit || c == '_' || c == '-'

/-- `_connector_name`: bare, never delimited. -/
def connectorName (value : String) : Except Error String :=
  if value ≠ "" ∧ value.toList.all isConnectorChar then .ok value
  else .error ⟨"ValueError", "unusable connector name: '" ++ value ++ "'"⟩

/-- One property of a statement. -/
def propertyText (property : String × String) : String :=
  identifier property.1 ++ " = " ++ literal property.2

/-- The statement of `create_catalog`. -/
def createText (name connector : String) (properties : Dict) : Except Error String := do
  let rendered := ", ".intercalate (properties.toList.map propertyText)
  let clause := if rendered = "" then "" else " WITH (" ++ rendered ++ ")"
  let connector ← connectorName connector
  return "CREATE CATALOG " ++ identifier name ++ " USING " ++ connector ++ clause

/-- The statement of `drop_catalog`. -/
def dropText (name : String) : String := "DROP CATALOG " ++ identifier name

/-- The statement of `schemas_of`. -/
def schemasText (catalog : String) : String := "SHOW SCHEMAS FROM " ++ identifier catalog

/-! ### Reading -/

/-- The tokens of a list of properties and of the bracket that closes it. -/
@[simp] def propertiesTokens : List (String × String) → List Token
  | [] => [.symbol ')']
  | [(key, value)] => [.identifier key.toList, .symbol '=', .text value.toList, .symbol ')']
  | (key, value) :: rest =>
      .identifier key.toList :: .symbol '=' :: .text value.toList :: .symbol ',' ::
        propertiesTokens rest

/-- The tokens of the clause that gives the properties, which is left out where there are none. -/
def clauseTokens (properties : List (String × String)) : List Token :=
  if properties.isEmpty then []
  else .word "WITH".toList :: .symbol '(' :: propertiesTokens properties

/-- The tokens of a statement that creates a catalog. -/
def createTokens (name connector : String) (properties : Dict) : List Token :=
  [.word "CREATE".toList, .word "CATALOG".toList, .identifier name.toList, .word "USING".toList,
    .word connector.toList] ++ clauseTokens properties.toList

/-- A property is three tokens, whatever follows that is no quote. -/
theorem tokens_propertyText (property : String × String) {rest : List Char}
    (h : rest.head? ≠ some '\'') :
    tokens ((propertyText property).toList ++ rest) = (tokens rest).map
      ([.identifier property.1.toList, .symbol '=', .text property.2.toList] ++ ·) := by
  have htext : (propertyText property).toList ++ rest =
      inQuotes '"' property.1.toList ++ (' ' :: '=' :: ' ' ::
        (inQuotes '\'' property.2.toList ++ rest)) := by
    simp [propertyText, identifier, literal]
  rw [htext, tokens_identifier _ (by simp), tokens_space, tokens_symbol rfl, tokens_space,
    tokens_text _ h]
  cases tokens rest <;> rfl

theorem tokens_properties {properties : List (String × String)} (h : properties ≠ []) :
    tokens ((", ".intercalate (properties.map propertyText)).toList ++ [')']) =
      some (propertiesTokens properties) := by
  induction properties with
  | nil => exact absurd rfl h
  | cons property rest ih =>
    cases rest with
    | nil =>
      rw [List.map_cons, List.map_nil, String.intercalate_singleton,
        tokens_propertyText property (by simp), tokens_symbol rfl]
      rfl
    | cons other rest =>
      have hrest := ih (List.cons_ne_nil _ _)
      have htext : (", ".intercalate ((property :: other :: rest).map propertyText)).toList ++ [')'] =
          (propertyText property).toList ++ (',' :: ' ' ::
            ((", ".intercalate ((other :: rest).map propertyText)).toList ++ [')'])) := by
        simp [String.intercalate_cons_cons]
      rw [htext, tokens_propertyText property (by simp), tokens_symbol rfl, tokens_space, hrest]
      rfl

/-- A list of properties is written as no text where it is empty, and only there. -/
theorem rendered_eq_empty {properties : List (String × String)} :
    ", ".intercalate (properties.map propertyText) = "" ↔ properties = [] := by
  cases properties with
  | nil => simp
  | cons property rest =>
    refine iff_of_false ?_ (List.cons_ne_nil _ _)
    rw [← String.toList_inj]
    cases rest <;> simp [String.intercalate_cons_cons, propertyText, identifier, inQuotes]

/-- The clause that gives the properties. -/
def clauseText (properties : Dict) : String :=
  let rendered := ", ".intercalate (properties.toList.map propertyText)
  if rendered = "" then "" else " WITH (" ++ rendered ++ ")"

theorem tokens_clauseText (properties : Dict) :
    tokens (clauseText properties).toList = some (clauseTokens properties.toList) := by
  unfold clauseText clauseTokens
  simp only [rendered_eq_empty, List.isEmpty_iff]
  split
  · rfl
  · next hne =>
    have htext : (" WITH (" ++ ", ".intercalate (properties.toList.map propertyText) ++ ")").toList =
        ' ' :: ("WITH".toList ++ ' ' :: '(' ::
          ((", ".intercalate (properties.toList.map propertyText)).toList ++ [')'])) := by
      simp
    rw [htext, tokens_space, tokens_keyword (by decide), tokens_symbol rfl, tokens_properties hne]
    rfl

theorem endsWord_clauseText (properties : Dict) : EndsWord (clauseText properties).toList := by
  unfold clauseText
  dsimp only
  split
  · rfl
  · simp
    rfl

/-- What comes before the connector. -/
theorem tokens_create (name : String) (rest : List Char) :
    tokens (("CREATE CATALOG " ++ identifier name ++ " USING ").toList ++ rest) = (tokens rest).map
      ([.word "CREATE".toList, .word "CATALOG".toList, .identifier name.toList,
        .word "USING".toList] ++ ·) := by
  have htext : ("CREATE CATALOG " ++ identifier name ++ " USING ").toList ++ rest =
      "CREATE".toList ++ ' ' :: ("CATALOG".toList ++ ' ' :: (inQuotes '"' name.toList ++
        (' ' :: ("USING".toList ++ ' ' :: rest)))) := by
    simp [identifier]
  rw [htext, tokens_keyword (by decide), tokens_keyword (by decide), tokens_identifier _ (by simp),
    tokens_space, tokens_keyword (by decide)]
  cases tokens rest <;> rfl

/-! ### The connector -/

theorem connectorName_ok (connector : PluginName) :
    connectorName connector.text = .ok connector.text := by
  obtain ⟨c, hc, -⟩ := connector.first
  have hne : connector.text ≠ "" := by
    intro heq
    simp [heq] at hc
  have hsafe : connector.text.toList.all isConnectorChar = true := List.all_eq_true.mpr connector.safe
  exact if_pos ⟨hne, hsafe⟩

theorem isWordChar_iff {c : Char} (h : isPluginChar c = true) : isWordChar c = true ↔ c ≠ '-' := by
  simp only [isPluginChar, Bool.or_eq_true, beq_iff_eq] at h
  constructor
  · rintro hword rfl
    cases hword
  · intro hne
    unfold isWordChar
    delta Char.isAlpha
    simp only [Bool.or_eq_true, beq_iff_eq]
    tauto

/-- A connector is one word unless there is a hyphen in it. -/
theorem all_isWordChar_iff (connector : PluginName) :
    connector.text.toList.all isWordChar = true ↔ '-' ∉ connector.text.toList := by
  rw [List.all_eq_true]
  constructor
  · intro hall hmem
    exact (isWordChar_iff (connector.safe _ hmem)).mp (hall _ hmem) rfl
  · intro hmem c hc
    refine (isWordChar_iff (connector.safe c hc)).mpr ?_
    rintro rfl
    exact hmem hc

theorem connector_start (connector : PluginName) :
    connector.text.toList.head?.any isWordStart = true := by
  obtain ⟨c, hc, hstart⟩ := connector.first
  rw [Option.mem_def] at hc
  have halpha : c.isAlpha = true := (Bool.or_eq_true _ _).mpr (Or.inr hstart)
  simp [hc, isWordStart, halpha]

theorem isWord_of_start {text : List Char} (hstart : text.head?.any isWordStart = true)
    (hall : text.all isWordChar = true) : isWord text = true := by
  cases text with
  | nil => cases hstart
  | cons c text =>
    have hc : isWordStart c = true := hstart
    simp only [List.all_cons, Bool.and_eq_true] at hall
    simp [isWord, hc, hall.2]

theorem tokens_connector_iff (connector : PluginName) {rest : List Char} {found : List Token}
    (hrest : EndsWord rest) (hfound : tokens rest = some found) :
    tokens (connector.text.toList ++ rest) = some (.word connector.text.toList :: found) ↔
      '-' ∉ connector.text.toList := by
  rw [← all_isWordChar_iff]
  refine ⟨fun h => word_of_tokens (connector_start connector) h, fun hall => ?_⟩
  rw [tokens_word (isWord_of_start (connector_start connector) hall) hrest, hfound]
  rfl

/-! ### The statements -/

theorem tokens_dropText (name : String) :
    tokens (dropText name).toList =
      some [.word "DROP".toList, .word "CATALOG".toList, .identifier name.toList] := by
  have htext : (dropText name).toList =
      "DROP".toList ++ ' ' :: ("CATALOG".toList ++ ' ' :: (inQuotes '"' name.toList ++ [])) := by
    simp [dropText, identifier]
  rw [htext, tokens_keyword (by decide), tokens_keyword (by decide), tokens_identifier _ (by simp)]
  rfl

theorem tokens_schemasText (catalog : String) :
    tokens (schemasText catalog).toList =
      some [.word "SHOW".toList, .word "SCHEMAS".toList, .word "FROM".toList,
        .identifier catalog.toList] := by
  have htext (name : List Char) : ("SHOW SCHEMAS FROM " ++ String.ofList (inQuotes '"' name)).toList =
      "SHOW".toList ++ ' ' :: ("SCHEMAS".toList ++ ' ' :: ("FROM".toList ++ ' ' ::
        (inQuotes '"' name ++ []))) := by
    simp
  refine (congrArg tokens (htext catalog.toList)).trans ?_
  rw [tokens_keyword (by decide), tokens_keyword (by decide), tokens_keyword (by decide),
    tokens_identifier _ (by simp)]
  rfl

/-- Whatever the names and the values, nothing of them gets out of its quotes.  A connector stands in
none, and with a hyphen in it is more than one token. -/
theorem statements_tokens (name : String) (connector : PluginName) (properties : Dict) :
    (∃ statement, createText name connector.text properties = .ok statement ∧
      (tokens statement.toList = some (createTokens name connector.text properties) ↔
        '-' ∉ connector.text.toList)) ∧
    tokens (dropText name).toList =
      some [.word "DROP".toList, .word "CATALOG".toList, .identifier name.toList] ∧
    tokens (schemasText name).toList =
      some [.word "SHOW".toList, .word "SCHEMAS".toList, .word "FROM".toList,
        .identifier name.toList] := by
  refine ⟨?_, tokens_dropText name, tokens_schemasText name⟩
  have hcreate : createText name connector.text properties = .ok
      ("CREATE CATALOG " ++ identifier name ++ " USING " ++ connector.text ++ clauseText properties) := by
    unfold createText
    rw [connectorName_ok]
    rfl
  refine ⟨_, hcreate, ?_⟩
  rw [String.toList_append, String.toList_append, List.append_assoc, tokens_create,
    ← tokens_connector_iff connector (endsWord_clauseText properties) (tokens_clauseText properties)]
  cases tokens (connector.text.toList ++ (clauseText properties).toList) <;>
    simp [createTokens]

end Apchi.Catalogs
