import Mathlib.Data.List.Perm.Subperm
import Apchi.CertificateMapping.Reading

/-!
# Adopting mapping rules preserves identities

Trino tries the rules in their order and the first that matches decides the identity.  What is read
off a file whose rules are all patterns is those patterns without Apchi's own two rules at the ends;
what is rendered from them is the same patterns with those two rules at the ends.  A principal that
the reserved rule does not match and some rule of the file does is decided by the same rule in both.
-/

namespace Apchi.CertificateMapping

open Lib Pipeline

/-! ### What Trino reads -/

/-- A text among a rule's fields, or what Trino takes where it is absent. -/
def trinoText (fields : List (String × Json)) (name : String) (default : Option String) :
    Option String :=
  match fields.lookup name with
  | none => default
  | some (.str text) => some text
  | some _ => none

/-- A rule, if it is one with only a pattern, a user and a case. -/
def trinoRule : Json → Option CertificateMappingWrite
  | .obj fields => do
      let pattern ← trinoText fields "pattern" none
      let user ← trinoText fields "user" (some "$1")
      let case ← trinoText fields "case" (some "keep")
      if fields.all fun field => field.1 ∈ ruleKeys then some ⟨pattern, user, case⟩ else none
  | _ => none

/-- The rules of a file, in their order. -/
def trinoRules (content : String) : Option (List CertificateMappingWrite) :=
  match Json.loads content with
  | some (.obj document) =>
      match document.lookup "rules" with
      | some (.arr rules) => rules.mapM trinoRule
      | _ => none
  | _ => none

/-- Regular expressions as Trino has them: which principals a pattern matches in full, and what a rule
that matches makes of one. -/
structure Engine (Identity : Type) where
  fullMatch : (pattern principal : String) → Bool
  identity : (rule : CertificateMappingWrite) → (principal : String) → Identity

/-- The identity a principal derives: the first rule that matches decides. -/
def Engine.derive {Identity : Type} (engine : Engine Identity)
    (rules : List CertificateMappingWrite) (principal : String) : Option Identity :=
  (rules.find? fun rule => engine.fullMatch rule.pattern principal).map fun rule =>
    engine.identity rule principal

/-- Apchi's own two rules. -/
def reservedMapping (trinoUser : String) : CertificateMappingWrite :=
  { pattern := "^" ++ reEscape trinoUser ++ "$", user := trinoUser }

def unchangedMapping : CertificateMappingWrite := { pattern := "(.*)" }

/-- Apchi's rules at the ends change nothing for a principal that the first of them does not match and
that some rule matches. -/
theorem Engine.derive_between {Identity : Type} (engine : Engine Identity)
    {reserved unchanged : CertificateMappingWrite} {head middle tail : List CertificateMappingWrite}
    {principal : String} (hhead : head = [] ∨ head = [reserved])
    (htail : tail = [] ∨ tail = [unchanged])
    (hreserved : engine.fullMatch reserved.pattern principal = false)
    (hmatched : ∃ rule ∈ head ++ (middle ++ tail), engine.fullMatch rule.pattern principal = true) :
    engine.derive (reserved :: (middle ++ [unchanged])) principal =
      engine.derive (head ++ (middle ++ tail)) principal := by
  have hdropped : ∀ rules, engine.derive (head ++ rules) principal = engine.derive rules principal := by
    intro rules
    rcases hhead with rfl | rfl
    · rfl
    · unfold Engine.derive
      rw [List.singleton_append, List.find?_cons_of_neg (by rw [hreserved]; decide)]
  have hfirst : engine.derive (reserved :: (middle ++ [unchanged])) principal =
      engine.derive (middle ++ [unchanged]) principal := by
    unfold Engine.derive
    rw [List.find?_cons_of_neg (by rw [hreserved]; decide)]
  rw [hfirst, hdropped]
  rcases htail with rfl | rfl
  · -- without the last rule in the file, one of the patterns is what matched
    obtain ⟨rule, hrule, hmatch⟩ := hmatched
    have hmiddle : rule ∈ middle := by
      rw [List.append_nil] at hrule
      rcases List.mem_append.mp hrule with hin | hin
      · rcases hhead with rfl | rfl
        · exact absurd hin List.not_mem_nil
        · cases List.mem_singleton.mp hin
          rw [hreserved] at hmatch
          cases hmatch
      · exact hin
    have hsome : (middle.find? fun rule => engine.fullMatch rule.pattern principal).isSome :=
      List.find?_isSome.mpr ⟨rule, hmiddle, hmatch⟩
    obtain ⟨first, hfound⟩ := Option.isSome_iff_exists.mp hsome
    unfold Engine.derive
    rw [List.find?_append, List.find?_append, hfound]
    rfl
  · rfl

/-! ### Patterns that can be held -/

/-- What the constraints of a pattern's fields accept. -/
structure Valid (mapping : CertificateMappingWrite) : Prop where
  pattern : within 512 mapping.pattern = true
  user : within 256 mapping.user = true
  case : mapping.case ∈ cases

/-- What is validated satisfies the constraints, and Trino reads it the same. -/
theorem textField_ok {fields : List (String × Json)} {name text : String} {default : Option String}
    {accepts : String → Bool} (h : textField fields name default accepts = .ok text)
    (hdefault : ∀ text, default = some text → accepts text = true) :
    accepts text = true ∧ trinoText fields name default = some text := by
  unfold textField at h
  unfold trinoText
  cases hvalue : fields.lookup name with
  | none =>
    rw [hvalue] at h
    cases hgiven : default with
    | none => rw [hgiven] at h; cases h
    | some given =>
      rw [hgiven] at h
      cases h
      exact ⟨hdefault _ hgiven, rfl⟩
  | some value =>
    rw [hvalue] at h
    cases value with
    | str found =>
      have h : (if accepts found then Except.ok found
          else Except.error (Error.mk "ValidationError" (name ++ ": not accepted"))) = .ok text := h
      split at h
      · next haccepts =>
        cases h
        exact ⟨haccepts, rfl⟩
      · cases h
    | _ => cases h

theorem onlyFields_ok {names : List String} {fields : List (String × Json)} {u : Unit}
    (h : Codec.onlyFields names fields = .ok u) : ∀ field ∈ fields, field.1 ∈ names := by
  unfold Codec.onlyFields at h
  split at h
  · next hnone =>
    intro field hfield
    simpa using List.find?_eq_none.mp hnone field hfield
  · cases h

theorem validate_ok {fields : List (String × Json)} {mapping : CertificateMappingWrite}
    (h : validate fields = .ok mapping) :
    Valid mapping ∧ trinoRule (.obj fields) = some mapping := by
  unfold validate at h
  obtain ⟨pattern, hpattern, h⟩ := ok_of_bind h
  obtain ⟨user, huser, h⟩ := ok_of_bind h
  obtain ⟨case, hcase, h⟩ := ok_of_bind h
  obtain ⟨_, honly, h⟩ := ok_of_bind h
  cases h
  obtain ⟨hpattern, hpattern'⟩ := textField_ok hpattern nofun
  obtain ⟨huser, huser'⟩ := textField_ok huser (by rintro _ ⟨⟩; decide)
  obtain ⟨hcase, hcase'⟩ := textField_ok hcase (by rintro _ ⟨⟩; decide)
  refine ⟨⟨hpattern, huser, of_decide_eq_true hcase⟩, ?_⟩
  simp only [trinoRule, hpattern', huser', hcase', Option.bind_eq_bind, Option.bind_some]
  exact if_pos (List.all_eq_true.mpr fun field hfield =>
    decide_eq_true (onlyFields_ok honly field hfield))

/-- The fields a pattern is written with. -/
def ruleFields (mapping : CertificateMappingWrite) : List (String × Json) :=
  ("pattern", .str mapping.pattern) ::
    (unlessDefault (dump mapping) "user" "$1" ++ unlessDefault (dump mapping) "case" "keep")

theorem rule_eq (mapping : CertificateMappingWrite) :
    rule (dump mapping) = .ok (.obj (ruleFields mapping)) := rfl

theorem unlessDefault_user (mapping : CertificateMappingWrite) :
    unlessDefault (dump mapping) "user" "$1" =
      if mapping.user = "$1" then [] else [("user", .str mapping.user)] := by
  unfold unlessDefault
  have hlookup : (dump mapping).lookup "user" = some (.str mapping.user) := rfl
  rw [hlookup]
  by_cases h : mapping.user = "$1"
  · rw [if_pos h, h]
    rfl
  · rw [if_neg h]
    exact if_neg fun heq => h (Json.str.inj heq)

theorem unlessDefault_case (mapping : CertificateMappingWrite) :
    unlessDefault (dump mapping) "case" "keep" =
      if mapping.case = "keep" then [] else [("case", .str mapping.case)] := by
  unfold unlessDefault
  have hlookup : (dump mapping).lookup "case" = some (.str mapping.case) := rfl
  rw [hlookup]
  by_cases h : mapping.case = "keep"
  · rw [if_pos h, h]
    rfl
  · rw [if_neg h]
    exact if_neg fun heq => h (Json.str.inj heq)

theorem lookup_user (mapping : CertificateMappingWrite) : (ruleFields mapping).lookup "user" =
    if mapping.user = "$1" then none else some (.str mapping.user) := by
  unfold ruleFields
  rw [unlessDefault_user, unlessDefault_case]
  split
  · split
    · rfl
    · rfl
  · rfl

theorem lookup_case (mapping : CertificateMappingWrite) : (ruleFields mapping).lookup "case" =
    if mapping.case = "keep" then none else some (.str mapping.case) := by
  unfold ruleFields
  rw [unlessDefault_user, unlessDefault_case]
  split
  · split
    · rfl
    · rfl
  · split
    · rfl
    · rfl

theorem ruleFields_keys (mapping : CertificateMappingWrite) :
    ∀ field ∈ ruleFields mapping, field.1 ∈ ruleKeys := by
  unfold ruleFields
  rw [unlessDefault_user, unlessDefault_case]
  intro field hfield
  rcases List.mem_cons.mp hfield with rfl | hfield
  · exact List.mem_cons_self
  rcases List.mem_append.mp hfield with hfield | hfield
  · split at hfield
    · exact (List.not_mem_nil hfield).elim
    · cases List.mem_singleton.mp hfield
      exact (by decide : "user" ∈ ruleKeys)
  · split at hfield
    · exact (List.not_mem_nil hfield).elim
    · cases List.mem_singleton.mp hfield
      exact (by decide : "case" ∈ ruleKeys)

/-- A field that is left out where it is the default is read as what it was. -/
theorem textField_unlessDefault {fields : List (String × Json)} {name text default : String}
    {accepts : String → Bool}
    (h : fields.lookup name = if text = default then none else some (.str text))
    (haccepts : accepts text = true) :
    textField fields name (some default) accepts = .ok text := by
  unfold textField
  rw [h]
  by_cases hdefault : text = default
  · rw [if_pos hdefault, hdefault]
  · rw [if_neg hdefault]
    exact if_pos haccepts

/-- A pattern is read back from its rule, the defaults filled in again. -/
theorem validate_ruleFields {mapping : CertificateMappingWrite} (h : Valid mapping) :
    validate (ruleFields mapping) = .ok mapping := by
  have hpattern : textField (ruleFields mapping) "pattern" none (within 512) =
      .ok mapping.pattern := if_pos h.pattern
  have hcase : textField (ruleFields mapping) "case" (some "keep") (fun text => text ∈ cases) =
      .ok mapping.case :=
    textField_unlessDefault (lookup_case mapping) (decide_eq_true h.case)
  simp only [validate, hpattern, textField_unlessDefault (lookup_user mapping) h.user, hcase,
    Codec.onlyFields_eq (ruleFields_keys mapping)]
  rfl

/-! ### Apchi's own rules -/

theorem sameObject_self {fields : List (String × Json)} (h : (fields.map Prod.fst).Nodup) :
    sameObject fields fields = true := by
  unfold sameObject
  rw [beq_self_eq_true, Bool.true_and, List.all_eq_true]
  rintro ⟨key, value⟩ hfield
  rw [lookup_of_mem h hfield]
  exact beq_self_eq_true _

/-- An object that equals another has what it has under every name. -/
theorem lookup_of_sameObject {fields other : List (String × Json)}
    (hnodup : (fields.map Prod.fst).Nodup) (h : sameObject fields other = true)
    (name : String) : fields.lookup name = other.lookup name := by
  unfold sameObject at h
  obtain ⟨hlength, hall⟩ := Bool.and_eq_true_iff.mp h
  have hin : ∀ field ∈ fields, other.lookup field.1 = some field.2 := fun field hfield =>
    beq_iff_eq.mp (List.all_eq_true.mp hall field hfield)
  have hsubset : fields.map Prod.fst ⊆ other.map Prod.fst := by
    intro key hkey
    obtain ⟨field, hfield, rfl⟩ := List.mem_map.mp hkey
    exact List.mem_map_of_mem (mem_of_lookup (hin field hfield))
  have hperm : (fields.map Prod.fst).Perm (other.map Prod.fst) :=
    (List.subperm_of_subset hnodup hsubset).perm_of_length_le (by
      rw [List.length_map, List.length_map, beq_iff_eq.mp hlength])
  cases hfound : fields.lookup name with
  | some value => exact (hin (name, value) (mem_of_lookup hfound)).symm
  | none =>
    symm
    rw [List.lookup_eq_none_iff] at hfound ⊢
    intro field hfield
    have hkey := hperm.mem_iff.mpr (List.mem_map_of_mem hfield)
    obtain ⟨same, hsame, heq⟩ := List.mem_map.mp hkey
    rw [← heq]
    exact hfound same hsame

theorem trinoRule_of_sameObject {fields other : List (String × Json)}
    {mapping : CertificateMappingWrite} (hnodup : (fields.map Prod.fst).Nodup)
    (h : sameObject fields other = true) (hother : trinoRule (.obj other) = some mapping) :
    trinoRule (.obj fields) = some mapping := by
  have hlookup := lookup_of_sameObject hnodup h
  have hkeys : (other.all fun field => field.1 ∈ ruleKeys) = true →
      (fields.all fun field => field.1 ∈ ruleKeys) = true := by
    intro hall
    refine List.all_eq_true.mpr fun field hfield => ?_
    have hin := hlookup field.1
    rw [lookup_of_mem hnodup hfield] at hin
    exact List.all_eq_true.mp hall (field.1, field.2) (mem_of_lookup hin.symm)
  simp only [trinoRule, trinoText] at hother ⊢
  simp only [hlookup]
  obtain ⟨pattern, hpattern, hother⟩ := Option.bind_eq_some_iff.mp hother
  obtain ⟨user, huser, hother⟩ := Option.bind_eq_some_iff.mp hother
  obtain ⟨case, hcase, hother⟩ := Option.bind_eq_some_iff.mp hother
  split at hother
  · next hall =>
    simp only [hpattern, huser, hcase, Option.bind_eq_bind, Option.bind_some]
    rw [if_pos (hkeys hall), hother]
  · cases hother

theorem dropReserved_spec (trinoUser : String) (rules : List Indexed) :
    ∃ head, rules = head ++ dropReserved trinoUser rules ∧
      (head = [] ∨ ∃ rule, head = [rule] ∧ sameObject rule.2 (reservedFields trinoUser) = true) := by
  cases rules with
  | nil => exact ⟨[], rfl, .inl rfl⟩
  | cons rule rest =>
    by_cases hsame : sameObject rule.2 (reservedFields trinoUser) = true
    · exact ⟨[rule], by rw [dropReserved, if_pos hsame]; rfl, .inr ⟨rule, rfl, hsame⟩⟩
    · exact ⟨[], by rw [dropReserved, if_neg hsame]; rfl, .inl rfl⟩

theorem dropUnchanged_spec (rules : List Indexed) :
    ∃ tail, rules = dropUnchanged rules ++ tail ∧
      (tail = [] ∨ ∃ rule, tail = [rule] ∧ sameObject rule.2 unchangedFields = true) := by
  unfold dropUnchanged
  split
  · next hnone => exact ⟨[], by rw [List.getLast?_eq_none_iff.mp hnone]; rfl, .inl rfl⟩
  · next rule hlast =>
    obtain ⟨front, rfl⟩ := List.getLast?_eq_some_iff.mp hlast
    split
    · next hsame => exact ⟨[rule], by rw [List.dropLast_concat], .inr ⟨rule, rfl, hsame⟩⟩
    · exact ⟨[], by rw [List.append_nil], .inl rfl⟩

/-! ### Taking in the rules -/

/-- The patterns that are reported, if everything reported is one. -/
def furtherPatterns (unaccounted : List Unaccounted) : Option (List CertificateMappingWrite) :=
  unaccounted.mapM Unaccounted.pattern?

theorem furtherPatterns_append {first second : List Unaccounted}
    {patterns : List CertificateMappingWrite}
    (h : furtherPatterns (first ++ second) = some patterns) :
    ∃ known rest, furtherPatterns first = some known ∧ furtherPatterns second = some rest ∧
      patterns = known ++ rest := by
  unfold furtherPatterns at h ⊢
  rw [List.mapM_append] at h
  obtain ⟨known, hknown, h⟩ := Option.bind_eq_some_iff.mp h
  obtain ⟨rest, hrest, h⟩ := Option.bind_eq_some_iff.mp h
  cases h
  exact ⟨known, rest, hknown, hrest, rfl⟩

theorem eq_nil_of_furtherPatterns {entries : List Unaccounted}
    {patterns : List CertificateMappingWrite} (h : ∀ entry ∈ entries, entry.pattern? = none)
    (hsome : furtherPatterns entries = some patterns) : entries = [] := by
  cases entries with
  | nil => rfl
  | cons entry entries =>
    unfold furtherPatterns at hsome
    rw [List.mapM_cons, h entry List.mem_cons_self] at hsome
    cases hsome

/-- What is reported stays reported. -/
theorem takeRules_unaccounted (rules : List Indexed) (reading : Reading) :
    ∃ more, (rules.foldl takeRule reading).unaccounted = reading.unaccounted ++ more := by
  induction rules generalizing reading with
  | nil => exact ⟨[], (List.append_nil _).symm⟩
  | cons rule rules ih =>
    have hstep : ∃ entries, (takeRule reading rule).unaccounted = reading.unaccounted ++ entries := by
      unfold takeRule
      dsimp only
      split
      · exact ⟨_, rfl⟩
      · split
        · exact ⟨[], (List.append_nil _).symm⟩
        · exact ⟨_, rfl⟩
    obtain ⟨entries, hentries⟩ := hstep
    obtain ⟨more, hmore⟩ := ih (takeRule reading rule)
    rw [List.foldl_cons, hmore, hentries, List.append_assoc]
    exact ⟨_, rfl⟩

/-- After the Operator's pattern every rule is reported, as a further pattern if it is one. -/
theorem takeRules_further {rules : List Indexed} {operator : List (String × Json)}
    {before : List Unaccounted} {patterns : List CertificateMappingWrite}
    (h : furtherPatterns (rules.foldl takeRule ⟨some operator, before⟩).unaccounted =
      some patterns) :
    (rules.foldl takeRule ⟨some operator, before⟩).operator = some operator ∧
      ∃ known rest, furtherPatterns before = some known ∧ patterns = known ++ rest ∧
        rules.mapM (fun rule => validate rule.2) = .ok rest := by
  induction rules generalizing before with
  | nil => exact ⟨rfl, patterns, [], h, (List.append_nil _).symm, rfl⟩
  | cons rule rules ih =>
    have hstep : ∃ entry, takeRule ⟨some operator, before⟩ rule =
        ⟨some operator, before ++ [entry]⟩ ∧
        ∀ mapping, entry.pattern? = some mapping → validate rule.2 = .ok mapping := by
      unfold takeRule
      dsimp only
      split
      · exact ⟨_, rfl, nofun⟩
      · refine ⟨_, rfl, fun mapping hmapping => ?_⟩
        simp only [Unaccounted.pattern?] at hmapping
        cases hvalid : validate rule.2 with
        | error e =>
          rw [hvalid] at hmapping
          cases hmapping
        | ok other =>
          rw [hvalid] at hmapping
          exact congrArg Except.ok (Option.some.inj hmapping)
    obtain ⟨entry, hentry, hvalid⟩ := hstep
    rw [List.foldl_cons, hentry] at h ⊢
    obtain ⟨hoperator, known, rest, hknown, rfl, hrest⟩ := ih h
    refine ⟨hoperator, ?_⟩
    obtain ⟨first, second, hfirst, hsecond, rfl⟩ := furtherPatterns_append hknown
    unfold furtherPatterns at hsecond
    rw [List.mapM_cons] at hsecond
    obtain ⟨mapping, hmapping, hsecond⟩ := Option.bind_eq_some_iff.mp hsecond
    cases hsecond
    refine ⟨first, mapping :: rest, hfirst, List.append_assoc .., ?_⟩
    rw [List.mapM_cons, hvalid mapping hmapping, hrest]
    rfl

/-- What the Section stores of a file's patterns: the first of them. -/
def storedAs (patterns : List CertificateMappingWrite) : Resources :=
  match patterns with
  | [] => ∅
  | mapping :: _ => (∅ : Resources).insert RESOURCE (.obj (dump mapping))

/-- Where everything reported is a further pattern, the rules that are not Apchi's own are the stored
pattern and the reported ones. -/
theorem takeRules_spec {rules : List Indexed} {outside : List Unaccounted}
    {patterns : List CertificateMappingWrite} {resources : Resources}
    (houtside : ∀ entry ∈ outside, entry.pattern? = none)
    (hfurther : furtherPatterns (rules.foldl takeRule ⟨none, outside⟩).unaccounted = some patterns)
    (hstored : storedOperator (rules.foldl takeRule ⟨none, outside⟩).operator = .ok resources) :
    outside = [] ∧ ∃ middle, rules.mapM (fun rule => validate rule.2) = .ok middle ∧
      resources = storedAs middle ∧ patterns = middle.tail := by
  have hnone : outside = [] := by
    obtain ⟨more, hmore⟩ := takeRules_unaccounted rules ⟨none, outside⟩
    rw [hmore] at hfurther
    obtain ⟨first, -, hfirst, -, -⟩ := furtherPatterns_append hfurther
    exact eq_nil_of_furtherPatterns houtside hfirst
  subst hnone
  refine ⟨rfl, ?_⟩
  cases rules with
  | nil =>
    cases hstored
    cases hfurther
    exact ⟨[], rfl, rfl, rfl⟩
  | cons rule rules =>
    rw [List.foldl_cons] at hfurther hstored
    have hstep : (∃ entry, takeRule ⟨none, []⟩ rule = ⟨none, [entry]⟩ ∧ entry.pattern? = none) ∨
        takeRule ⟨none, []⟩ rule = ⟨some rule.2, []⟩ := by
      unfold takeRule
      dsimp only
      split
      · exact .inl ⟨_, rfl, rfl⟩
      · exact .inr rfl
    rcases hstep with ⟨entry, hentry, hnot⟩ | hentry
    · -- a rule that is not a pattern is reported as such
      rw [hentry] at hfurther
      obtain ⟨more, hmore⟩ := takeRules_unaccounted rules ⟨none, [entry]⟩
      rw [hmore] at hfurther
      obtain ⟨first, -, hfirst, -, -⟩ := furtherPatterns_append hfurther
      cases eq_nil_of_furtherPatterns (List.forall_mem_singleton.mpr hnot) hfirst
    · rw [hentry] at hfurther hstored
      obtain ⟨hoperator, known, rest, hknown, rfl, hrest⟩ := takeRules_further hfurther
      cases hknown
      rw [hoperator] at hstored
      obtain ⟨mapping, hmapping, hstored⟩ := ok_of_bind hstored
      cases hstored
      refine ⟨mapping :: rest, ?_, rfl, rfl⟩
      rw [List.mapM_cons, hmapping, hrest]
      rfl

theorem furtherPatterns_map {rules : List Indexed} {rest : List CertificateMappingWrite}
    (h : rules.mapM (fun rule => validate rule.2) = .ok rest) :
    furtherPatterns (rules.map fun rule => .further rule.1 rule.2) = some rest := by
  induction rules generalizing rest with
  | nil =>
    cases h
    rfl
  | cons rule rules ih =>
    rw [List.mapM_cons] at h
    obtain ⟨mapping, hmapping, h⟩ := ok_of_bind h
    obtain ⟨others, hothers, h⟩ := ok_of_bind h
    cases h
    have hfirst : (Unaccounted.further rule.1 rule.2).pattern? = some mapping :=
      congrArg Except.toOption hmapping
    have hlater := ih hothers
    unfold furtherPatterns at hlater ⊢
    rw [List.map_cons, List.mapM_cons, hfirst, hlater]
    rfl

/-- Patterns read one after the other are the Operator's and the further ones. -/
theorem takeRules_of_valid {rules : List Indexed} {middle : List CertificateMappingWrite}
    (h : rules.mapM (fun rule => validate rule.2) = .ok middle)
    (hplain : ∀ rule ∈ rules, extraOf rule.2 = [] ∧ rule.2.lookup "pattern" ≠ none) :
    storedOperator (rules.foldl takeRule ⟨none, []⟩).operator = .ok (storedAs middle) ∧
      furtherPatterns (rules.foldl takeRule ⟨none, []⟩).unaccounted = some middle.tail := by
  cases rules with
  | nil =>
    cases h
    exact ⟨rfl, rfl⟩
  | cons rule rules =>
    rw [List.mapM_cons] at h
    obtain ⟨mapping, hmapping, h⟩ := ok_of_bind h
    obtain ⟨rest, hrest, h⟩ := ok_of_bind h
    cases h
    obtain ⟨hfirst, hothers⟩ := List.forall_mem_cons.mp hplain
    have hstep : takeRule ⟨none, []⟩ rule = ⟨some rule.2, []⟩ := by
      unfold takeRule
      dsimp only
      rw [if_neg (by simp [hfirst.1, hfirst.2]), if_pos rfl]
    rw [List.foldl_cons, hstep]
    have hrun : ∀ (rules : List Indexed) (before : List Unaccounted),
        (∀ rule ∈ rules, extraOf rule.2 = [] ∧ rule.2.lookup "pattern" ≠ none) →
        rules.foldl takeRule ⟨some rule.2, before⟩ =
          ⟨some rule.2, before ++ rules.map fun rule => .further rule.1 rule.2⟩ := by
      intro rules
      induction rules with
      | nil => intro before _; rw [List.foldl_nil, List.map_nil, List.append_nil]
      | cons next rules ih =>
        intro before hplain
        obtain ⟨hnext, hplain⟩ := List.forall_mem_cons.mp hplain
        have hstep : takeRule ⟨some rule.2, before⟩ next =
            ⟨some rule.2, before ++ [.further next.1 next.2]⟩ := by
          unfold takeRule
          dsimp only
          rw [if_neg (by simp [hnext.1, hnext.2]), if_neg nofun]
        rw [List.foldl_cons, hstep, ih _ hplain, List.append_assoc]
        rfl
    rw [hrun rules [] hothers]
    constructor
    · simp only [storedOperator, hmapping]
      rfl
    · exact furtherPatterns_map hrest

/-! ### The file -/

theorem objectsIn_ok {path : String} {index : Nat} {rules : List Json} {objects : List Indexed}
    (h : objectsIn path index rules = .ok objects) :
    rules = objects.map fun object => .obj object.2 := by
  induction rules generalizing index objects with
  | nil =>
    cases h
    rfl
  | cons rule rules ih =>
    cases rule with
    | obj fields =>
      obtain ⟨others, hothers, h⟩ := ok_of_bind h
      cases h
      rw [List.map_cons, ← ih hothers]
    | null => cases h
    | bool _ => cases h
    | int _ => cases h
    | float _ => cases h
    | str _ => cases h
    | arr _ => cases h

theorem objectsIn_objs (path : String) (index : Nat) (rules : List (List (String × Json))) :
    ∃ objects, objectsIn path index (rules.map .obj) = .ok objects ∧
      objects.map Prod.snd = rules := by
  induction rules generalizing index with
  | nil => exact ⟨[], rfl, rfl⟩
  | cons rule rules ih =>
    obtain ⟨objects, hobjects, hrules⟩ := ih (index + 1)
    refine ⟨(index, rule) :: objects, ?_, by rw [List.map_cons, hrules]⟩
    rw [List.map_cons, objectsIn, hobjects]
    rfl

theorem trinoRules_of_validate {rules : List Indexed} {middle : List CertificateMappingWrite}
    (h : rules.mapM (fun rule => validate rule.2) = .ok middle) :
    (rules.map fun rule => Json.obj rule.2).mapM trinoRule = some middle ∧
      ∀ mapping ∈ middle, Valid mapping := by
  induction rules generalizing middle with
  | nil =>
    cases h
    exact ⟨rfl, nofun⟩
  | cons rule rules ih =>
    rw [List.mapM_cons] at h
    obtain ⟨mapping, hmapping, h⟩ := ok_of_bind h
    obtain ⟨others, hothers, h⟩ := ok_of_bind h
    cases h
    obtain ⟨hvalid, hread⟩ := validate_ok hmapping
    obtain ⟨hlater, hvalids⟩ := ih hothers
    refine ⟨?_, List.forall_mem_cons.mpr ⟨hvalid, hvalids⟩⟩
    rw [List.map_cons, List.mapM_cons, hread, hlater]
    rfl

theorem documentIn_of_loads {content : String} {document : List (String × Json)} (path : String)
    (h : Json.loads content = some (.obj document)) : documentIn path content = .ok document := by
  unfold documentIn
  rw [h]

theorem trinoRules_of_loads {content : String} {document : List (String × Json)}
    {rules : List Json} (h : Json.loads content = some (.obj document))
    (hrules : document.lookup "rules" = some (.arr rules)) :
    trinoRules content = rules.mapM trinoRule := by
  unfold trinoRules
  rw [h]
  dsimp only
  rw [hrules]

theorem trinoRule_reserved (trinoUser : String) :
    trinoRule (.obj (reservedFields trinoUser)) = some (reservedMapping trinoUser) := rfl

theorem trinoRule_unchanged : trinoRule (.obj unchangedFields) = some unchangedMapping := rfl

/-- What a file says whose rules are all patterns: the stored pattern and the reported ones, between
Apchi's own rules where it has them. -/
theorem parseRules_patterns {path content trinoUser : String} {resources : Resources}
    {unaccounted : List Unaccounted} {patterns : List CertificateMappingWrite}
    (hparse : parseRules path content trinoUser = .ok (resources, unaccounted))
    (hfurther : furtherPatterns unaccounted = some patterns) :
    ∃ head middle tail, trinoRules content = some (head ++ (middle ++ tail)) ∧
      (head = [] ∨ head = [reservedMapping trinoUser]) ∧ (tail = [] ∨ tail = [unchangedMapping]) ∧
      (∀ mapping ∈ middle, Valid mapping) ∧ resources = storedAs middle ∧
      patterns = middle.tail := by
  unfold parseRules at hparse
  obtain ⟨document, hdocument, hparse⟩ := ok_of_bind hparse
  obtain ⟨rules, hrules, hparse⟩ := ok_of_bind hparse
  obtain ⟨objects, hobjects, hparse⟩ := ok_of_bind hparse
  obtain ⟨stored, hstored, hparse⟩ := ok_of_bind hparse
  cases hparse
  have houtside : ∀ entry ∈ outsideRules document, entry.pattern? = none := by
    intro entry hentry
    obtain ⟨field, -, rfl⟩ := List.mem_map.mp hentry
    rfl
  obtain ⟨-, middle, hmiddle, hresources, hpatterns⟩ := takeRules_spec houtside hfurther hstored
  obtain ⟨hmiddle, hvalid⟩ := trinoRules_of_validate hmiddle
  have hread : Json.loads content = some (.obj document) := by
    unfold documentIn at hdocument
    split at hdocument
    · cases hdocument
    · next fields hloads =>
      cases hdocument
      exact hloads
    · cases hdocument
  have hlist : document.lookup "rules" = some (.arr rules) := by
    unfold rulesIn at hrules
    split at hrules
    · next found hfound =>
      cases hrules
      exact hfound
    · cases hrules
  have hobjects := objectsIn_ok hobjects
  -- no object of the file has a field twice
  have hnodup : ∀ object ∈ objects, (object.2.map Prod.fst).Nodup := by
    intro object hobject
    have hwf := (Json.wf_obj.mp (Json.loads_wf hread)).2 _ (mem_of_lookup hlist)
    have hin : Json.obj object.2 ∈ rules := by
      rw [hobjects]
      exact List.mem_map_of_mem hobject
    exact (Json.wf_obj.mp (Json.wf_arr.mp hwf _ hin)).1
  obtain ⟨head, hhead, hreserved⟩ := dropReserved_spec trinoUser objects
  obtain ⟨tail, htail, hunchanged⟩ := dropUnchanged_spec (dropReserved trinoUser objects)
  have hhead' : ∃ mappings, (head.map fun rule => Json.obj rule.2).mapM trinoRule = some mappings ∧
      (mappings = [] ∨ mappings = [reservedMapping trinoUser]) := by
    rcases hreserved with rfl | ⟨rule, rfl, hsame⟩
    · exact ⟨[], rfl, .inl rfl⟩
    · have hin : rule ∈ objects := hhead ▸ List.mem_append_left _ List.mem_cons_self
      have hrule := trinoRule_of_sameObject (hnodup rule hin) hsame (trinoRule_reserved trinoUser)
      refine ⟨[reservedMapping trinoUser], ?_, .inr rfl⟩
      rw [List.map_singleton, List.mapM_cons, hrule]
      rfl
  have htail' : ∃ mappings, (tail.map fun rule => Json.obj rule.2).mapM trinoRule = some mappings ∧
      (mappings = [] ∨ mappings = [unchangedMapping]) := by
    rcases hunchanged with rfl | ⟨rule, rfl, hsame⟩
    · exact ⟨[], rfl, .inl rfl⟩
    · have hin : rule ∈ objects := by
        rw [hhead, htail]
        exact List.mem_append_right _ (List.mem_append_right _ List.mem_cons_self)
      have hrule := trinoRule_of_sameObject (hnodup rule hin) hsame trinoRule_unchanged
      refine ⟨[unchangedMapping], ?_, .inr rfl⟩
      rw [List.map_singleton, List.mapM_cons, hrule]
      rfl
  obtain ⟨front, hfront, hfront'⟩ := hhead'
  obtain ⟨back, hback, hback'⟩ := htail'
  refine ⟨front, middle, back, ?_, hfront', hback', hvalid, hresources, hpatterns⟩
  rw [trinoRules_of_loads hread hlist, hobjects, hhead, htail, List.map_append, List.map_append, List.mapM_append, List.mapM_append,
    hfront, hmiddle, hback]
  rfl

/-! ### The rendered file -/

/-- The rules that are rendered. -/
def renderedRules (trinoUser : String) (middle : List CertificateMappingWrite) :
    List (List (String × Json)) :=
  reservedFields trinoUser :: (middle.map ruleFields ++ [unchangedFields])

theorem renderRules_storedAs (trinoUser : String) (middle : List CertificateMappingWrite) :
    renderRules (storedAs middle) trinoUser middle.tail =
      .ok (Json.dumps (.obj [("rules", .arr ((renderedRules trinoUser middle).map .obj))]) ++
        "\n") := by
  have hkept : ∀ patterns : List CertificateMappingWrite,
      patterns.mapM (fun pattern => rule (dump pattern)) =
        Except.ok (patterns.map fun pattern => Json.obj (ruleFields pattern)) := by
    intro patterns
    induction patterns with
    | nil => rfl
    | cons pattern patterns ih =>
      rw [List.mapM_cons, rule_eq, ih]
      rfl
  unfold renderRules
  rw [hkept]
  cases middle with
  | nil =>
    have hnone : operatorRules (storedAs []) = .ok [] := by
      unfold operatorRules storedAs
      rw [Std.ExtTreeMap.getElem?_empty]
    rw [hnone]
    rfl
  | cons mapping rest =>
    have hsome : operatorRules (storedAs (mapping :: rest)) = .ok [.obj (ruleFields mapping)] := by
      unfold operatorRules storedAs
      rw [Std.ExtTreeMap.getElem?_insert_self]
      rfl
    rw [hsome]
    simp only [renderedRules, List.map_cons, List.map_append, List.map_map, List.tail_cons]
    rfl

theorem nodup_ruleFields (mapping : CertificateMappingWrite) :
    ((ruleFields mapping).map Prod.fst).Nodup := by
  unfold ruleFields
  rw [unlessDefault_user, unlessDefault_case]
  by_cases huser : mapping.user = "$1"
  · by_cases hcase : mapping.case = "keep"
    · rw [if_pos huser, if_pos hcase]
      exact (by decide : ["pattern"].Nodup)
    · rw [if_pos huser, if_neg hcase]
      exact (by decide : ["pattern", "case"].Nodup)
  · by_cases hcase : mapping.case = "keep"
    · rw [if_neg huser, if_pos hcase]
      exact (by decide : ["pattern", "user"].Nodup)
    · rw [if_neg huser, if_neg hcase]
      exact (by decide : ["pattern", "user", "case"].Nodup)

theorem nodup_reservedFields (trinoUser : String) :
    ((reservedFields trinoUser).map Prod.fst).Nodup :=
  (by decide : ["pattern", "user"].Nodup)

theorem nodup_unchangedFields : (unchangedFields.map Prod.fst).Nodup :=
  (by decide : ["pattern"].Nodup)

theorem ruleFields_texts (mapping : CertificateMappingWrite) :
    ∀ field ∈ ruleFields mapping, field.2.WF := by
  unfold ruleFields
  rw [unlessDefault_user, unlessDefault_case]
  intro field hfield
  rcases List.mem_cons.mp hfield with rfl | hfield
  · exact Json.wf_str _
  rcases List.mem_append.mp hfield with hfield | hfield
  · split at hfield
    · exact (List.not_mem_nil hfield).elim
    · cases List.mem_singleton.mp hfield
      exact Json.wf_str _
  · split at hfield
    · exact (List.not_mem_nil hfield).elim
    · cases List.mem_singleton.mp hfield
      exact Json.wf_str _

theorem wf_renderedRules (trinoUser : String) (middle : List CertificateMappingWrite) :
    (Json.obj [("rules", .arr ((renderedRules trinoUser middle).map .obj))]).WF := by
  refine Json.wf_obj.mpr ⟨(by decide : ["rules"].Nodup), List.forall_mem_singleton.mpr ?_⟩
  refine Json.wf_arr.mpr fun rule hrule => ?_
  obtain ⟨fields, hfields, rfl⟩ := List.mem_map.mp hrule
  rcases List.mem_cons.mp hfields with rfl | hfields
  · refine Json.wf_obj.mpr ⟨nodup_reservedFields trinoUser, ?_⟩
    exact List.forall_mem_cons.mpr ⟨Json.wf_str _, List.forall_mem_singleton.mpr (Json.wf_str _)⟩
  rcases List.mem_append.mp hfields with hfields | hfields
  · obtain ⟨mapping, -, rfl⟩ := List.mem_map.mp hfields
    exact Json.wf_obj.mpr ⟨nodup_ruleFields mapping, ruleFields_texts mapping⟩
  · cases List.mem_singleton.mp hfields
    exact Json.wf_obj.mpr ⟨nodup_unchangedFields, List.forall_mem_singleton.mpr (Json.wf_str _)⟩

theorem extraOf_ruleFields (mapping : CertificateMappingWrite) :
    extraOf (ruleFields mapping) = [] := by
  have hnone : ((ruleFields mapping).map Prod.fst).filter (fun key => key ∉ ruleKeys) = [] := by
    refine List.filter_eq_nil_iff.mpr fun key hkey => ?_
    obtain ⟨field, hfield, rfl⟩ := List.mem_map.mp hkey
    rw [decide_eq_true_eq, not_not]
    exact ruleFields_keys mapping field hfield
  unfold extraOf
  rw [hnone]
  rfl

theorem validate_rendered {rules : List Indexed} {middle : List CertificateMappingWrite}
    (h : rules.map Prod.snd = middle.map ruleFields) (hvalid : ∀ mapping ∈ middle, Valid mapping) :
    rules.mapM (fun rule => validate rule.2) = .ok middle := by
  induction middle generalizing rules with
  | nil =>
    cases List.map_eq_nil_iff.mp h
    rfl
  | cons mapping middle ih =>
    obtain ⟨rule, rest, rfl, hrule, hrest⟩ := List.map_eq_cons_iff.mp h
    obtain ⟨hfirst, hothers⟩ := List.forall_mem_cons.mp hvalid
    rw [List.mapM_cons, hrule, validate_ruleFields hfirst, ih hrest hothers]
    rfl

/-- Reading a file, step by step. -/
theorem parseRules_eq {path content trinoUser : String} {document : List (String × Json)}
    {rules : List Json} {objects : List Indexed} {resources : Resources}
    (hdocument : documentIn path content = .ok document) (hrules : rulesIn path document = .ok rules)
    (hobjects : objectsIn path 0 rules = .ok objects)
    (hstored : storedOperator ((dropUnchanged (dropReserved trinoUser objects)).foldl takeRule
      ⟨none, outsideRules document⟩).operator = .ok resources) :
    parseRules path content trinoUser = .ok (resources,
      ((dropUnchanged (dropReserved trinoUser objects)).foldl takeRule
        ⟨none, outsideRules document⟩).unaccounted) := by
  unfold parseRules
  rw [hdocument, ok_bind, hrules, ok_bind, hobjects, ok_bind]
  dsimp only
  rw [hstored, ok_bind]
  rfl

/-- Reading the rendered rules gives the patterns they were rendered from. -/
theorem parseRules_rendered (path trinoUser : String) {middle : List CertificateMappingWrite}
    (hvalid : ∀ mapping ∈ middle, Valid mapping) :
    ∃ unaccounted, parseRules path (Json.dumps (.obj [("rules",
        .arr ((renderedRules trinoUser middle).map .obj))]) ++ "\n") trinoUser =
          .ok (storedAs middle, unaccounted) ∧
      furtherPatterns unaccounted = some middle.tail := by
  have hloads := Json.loads_dumps_append (wf_renderedRules trinoUser middle) "\n"
    (by simp [Json.isSpace])
  obtain ⟨objects, hobjects, hfields⟩ := objectsIn_objs path 0 (renderedRules trinoUser middle)
  obtain ⟨first, others, rfl, hfirst, hothers⟩ := List.map_eq_cons_iff.mp hfields
  obtain ⟨between, last, rfl, hbetween, hlast⟩ := List.map_eq_append_iff.mp hothers
  obtain ⟨final, rest, rfl, hfinal, hrest⟩ := List.map_eq_cons_iff.mp hlast
  cases List.map_eq_nil_iff.mp hrest
  have hreserved : dropReserved trinoUser (first :: (between ++ [final])) = between ++ [final] := by
    unfold dropReserved
    dsimp only
    rw [hfirst]
    exact if_pos (sameObject_self (nodup_reservedFields trinoUser))
  have hunchanged : dropUnchanged (between ++ [final]) = between := by
    unfold dropUnchanged
    rw [List.getLast?_concat]
    dsimp only
    rw [hfinal, if_pos (sameObject_self nodup_unchangedFields), List.dropLast_concat]
  have hmiddle : between.mapM (fun rule => validate rule.2) = .ok middle :=
    validate_rendered hbetween hvalid
  have hplain : ∀ rule ∈ between, extraOf rule.2 = [] ∧ rule.2.lookup "pattern" ≠ none := by
    intro rule hrule
    have hin : rule.2 ∈ middle.map ruleFields := hbetween ▸ List.mem_map_of_mem hrule
    obtain ⟨mapping, -, heq⟩ := List.mem_map.mp hin
    rw [← heq]
    exact ⟨extraOf_ruleFields mapping, Option.some_ne_none _⟩
  obtain ⟨hstored, hfurther⟩ := takeRules_of_valid hmiddle hplain
  refine ⟨_, parseRules_eq (documentIn_of_loads path hloads) rfl hobjects ?_, ?_⟩
  · rw [hreserved, hunchanged]
    exact hstored
  · rw [hreserved, hunchanged]
    exact hfurther

/-! ### Identities -/

theorem renderedRules_mapM (trinoUser : String) {middle : List CertificateMappingWrite}
    (hvalid : ∀ mapping ∈ middle, Valid mapping) :
    trinoRules (Json.dumps (.obj [("rules",
      .arr ((renderedRules trinoUser middle).map .obj))]) ++ "\n") =
      some (reservedMapping trinoUser :: (middle ++ [unchangedMapping])) := by
  have hmiddle : ((middle.map ruleFields).map Json.obj).mapM trinoRule = some middle := by
    induction middle with
    | nil => rfl
    | cons mapping middle ih =>
      obtain ⟨hfirst, hothers⟩ := List.forall_mem_cons.mp hvalid
      rw [List.map_cons, List.map_cons, List.mapM_cons,
        (validate_ok (validate_ruleFields hfirst)).2, ih hothers]
      rfl
  rw [trinoRules_of_loads (Json.loads_dumps_append (wf_renderedRules trinoUser middle) "\n"
      (by simp [Json.isSpace])) rfl, renderedRules, List.map_cons, List.map_append, List.mapM_cons,
    trinoRule_reserved, List.mapM_append, hmiddle]
  rfl

theorem adopted_identities {Identity : Type} (engine : Engine Identity)
    {path content trinoUser : String} {resources : Resources} {unaccounted : List Unaccounted}
    {patterns : List CertificateMappingWrite}
    (hparse : parseRules path content trinoUser = .ok (resources, unaccounted))
    (hfurther : furtherPatterns unaccounted = some patterns) :
    ∃ rendered before after, renderRules resources trinoUser patterns = .ok rendered ∧
      trinoRules content = some before ∧ trinoRules rendered = some after ∧
      (∀ principal, engine.fullMatch (reservedMapping trinoUser).pattern principal = false →
        (∃ rule ∈ before, engine.fullMatch rule.pattern principal = true) →
        engine.derive after principal = engine.derive before principal) ∧
      ∃ again, parseRules path rendered trinoUser = .ok (resources, again) ∧
        furtherPatterns again = some patterns := by
  obtain ⟨head, middle, tail, hbefore, hhead, htail, hvalid, rfl, rfl⟩ :=
    parseRules_patterns hparse hfurther
  refine ⟨_, _, _, renderRules_storedAs trinoUser middle, hbefore,
    renderedRules_mapM trinoUser hvalid, ?_, parseRules_rendered path trinoUser hvalid⟩
  intro principal hreserved hmatched
  exact engine.derive_between hhead htail hreserved hmatched

/-- Patterns as plain texts: a pattern matches itself, and the identity is what replaces it. -/
def plainEngine : Engine String where
  fullMatch pattern principal := pattern = principal ∨ pattern = "(.*)"
  identity rule principal := if rule.user = "$1" then principal else rule.user

/-- The rules of a file with the rule that changes nothing also in the middle. -/
def legacyRules : List (List (String × Json)) :=
  [[("pattern", .str "CN=alice")], [("user", .str "bob"), ("pattern", .str "CN=bob")],
    [("pattern", .str "(.*)")], [("pattern", .str "(.*)")]]

def legacyDocument : Json := .obj [("rules", .arr (legacyRules.map .obj))]

theorem adopted_identities_of_legacy :
    ∃ rendered after, renderRules (storedAs [{ pattern := "CN=alice" }]) "apchi"
        [{ pattern := "CN=bob", user := "bob" }, { pattern := "(.*)" }] = .ok rendered ∧
      trinoRules rendered = some after ∧ plainEngine.derive after "CN=bob" = some "bob" := by
  have hloads : Json.loads (Json.dumps legacyDocument) = some legacyDocument :=
    Json.loads_dumps (by simp [legacyDocument, legacyRules])
  have hobjects : objectsIn MOUNT_PATH 0 (legacyRules.map .obj) =
      .ok [(0, [("pattern", .str "CN=alice")]),
        (1, [("user", .str "bob"), ("pattern", .str "CN=bob")]),
        (2, [("pattern", .str "(.*)")]), (3, [("pattern", .str "(.*)")])] := rfl
  have hdropped : dropUnchanged (dropReserved "apchi" [(0, [("pattern", .str "CN=alice")]),
        (1, [("user", .str "bob"), ("pattern", .str "CN=bob")]),
        (2, [("pattern", .str "(.*)")]), (3, [("pattern", .str "(.*)")])]) =
      [(0, [("pattern", .str "CN=alice")]),
        (1, [("user", .str "bob"), ("pattern", .str "CN=bob")]),
        (2, [("pattern", .str "(.*)")])] := by decide +kernel
  have hparse := @parseRules_eq _ _ "apchi" _ _ _ (storedAs [{ pattern := "CN=alice" }])
    (documentIn_of_loads MOUNT_PATH hloads) rfl hobjects (by rw [hdropped]; rfl)
  rw [hdropped] at hparse
  obtain ⟨rendered, before, after, hrendered, hbefore, hafter, hsame, -⟩ :=
    @adopted_identities _ plainEngine _ _ _ _ _
      [{ pattern := "CN=bob", user := "bob" }, { pattern := "(.*)" }] hparse rfl
  have hrules : trinoRules (Json.dumps legacyDocument) = some [{ pattern := "CN=alice" },
      { pattern := "CN=bob", user := "bob" }, { pattern := "(.*)" }, { pattern := "(.*)" }] := by
    rw [trinoRules_of_loads hloads rfl]
    rfl
  cases hbefore.symm.trans hrules
  refine ⟨rendered, after, hrendered, hafter, ?_⟩
  rw [hsame "CN=bob" (by decide +kernel) ⟨_, List.mem_cons_of_mem _ List.mem_cons_self, by decide⟩]
  decide +kernel

end Apchi.CertificateMapping
