import Mathlib.Data.List.Sort
import Apchi.Permissions.Staging

/-!
# What adopting a file does to access

Reading a file splits its one ordered list of `tables` rules into grants, which are rendered first
and in the order of their keys, rules kept, which come after them in the order they had, and the
catch-all, which comes last.  A rule the reader takes for a grant says the same when it is rendered
again; what can change is which rule comes first.
-/

namespace Apchi.Permissions

open Lib

variable {patterns : Patterns}

/-! ### A rule taken for a grant says what the grant's rule says -/

/-- None of a rule's patterns ends in a line break. -/
def NoTrailingNewline (rule : Rule) : Prop :=
  ∀ field pattern, rule.get? field = some (.str pattern) → pattern.toList.getLast? ≠ some '\n'

theorem dropLast_append_getLast {α : Type} {xs : List α} {x : α} (h : xs.getLast? = some x) :
    xs = xs.dropLast ++ [x] := by
  have hne : xs ≠ [] := by
    rintro rfl
    cases h
  rw [List.getLast?_eq_some_getLast hne, Option.some.injEq] at h
  rw [← h, List.dropLast_append_getLast hne]

/-- What is behind the anchors of a pattern without a line break at its end is the escape of the
name it stands for. -/
theorem unanchor_eq {pattern literal : String} (h : unanchor pattern = some literal)
    (hend : pattern.toList.getLast? ≠ some '\n') :
    pattern = anchored (reUnescape literal) := by
  unfold unanchor at h
  split at h
  · rename_i rest hrest
    have hlast : ¬ rest.getLast? = some '\n' := by
      intro hlast
      rw [hrest, List.getLast?_cons] at hend
      simp [hlast] at hend
    simp only [hlast, if_false] at h
    split at h
    · rename_i hbody
      obtain ⟨hdollar, -, hescape⟩ := hbody
      cases h
      apply String.toList_injective
      rw [hrest, dropLast_append_getLast hdollar]
      simp [anchored, reEscape, reUnescape, hescape]
    · cases h
  · cases h

/-- The texts a value lists are the texts read from it. -/
theorem eq_texts {value : Json} {values : List String} (h : asTexts value = some values) :
    value = texts values := by
  unfold asTexts at h
  split at h
  · rename_i elems
    rw [texts]
    congr 1
    induction elems generalizing values with
    | nil =>
        cases h
        rfl
    | cons x xs ih =>
        simp only [List.mapM_cons, Option.bind_eq_bind, Option.bind_eq_some_iff, Option.pure_def,
          Option.some.injEq] at h
        obtain ⟨text, htext, rest, hrest, rfl⟩ := h
        split at htext
        · cases htext
          rw [List.map_cons, ← ih hrest]
        · cases htext
  · cases h

/-- A level of a rule, as the grant read from it has it. -/
theorem get_of_literalField {rule : Rule} {field : String} {level : Option String}
    (h : literalField rule field = some level) (hend : NoTrailingNewline rule) :
    rule.get? field = level.map fun name => .str (anchored name) := by
  unfold literalField at h
  split at h
  · rename_i hnone
    cases h
    exact hnone
  · rename_i pattern hpattern
    simp only [Option.map_eq_some_iff] at h
    obtain ⟨literal, hliteral, rfl⟩ := h
    rw [hpattern, Option.map_some, ← unanchor_eq hliteral (hend field pattern hpattern)]
  · cases h

/-- What a rule taken for a grant carries. -/
theorem asGrant_fields {rule : Rule} {write : GrantWrite} (h : asGrant rule = some write)
    (hend : NoTrailingNewline rule) :
    rule.get? "user" = some (.str (anchored write.identity.text)) ∧
      rule.get? "catalog" = some (.str (anchored write.catalog.text)) ∧
      rule.get? "schema" = write.schema.map (fun schema => .str (anchored schema.text)) ∧
      rule.get? "table" = write.table.map (fun table => .str (anchored table.text)) ∧
      rule.get? "privileges" = some (texts (write.privileges.map Privilege.text)) ∧
      rule.get? "group" = none := by
  unfold asGrant at h
  split at h
  · cases h
  rename_i hkeys
  simp only [Option.bind_eq_bind, Option.bind_eq_some_iff] at h
  obtain ⟨_, hidentity, identity, rfl, _, hcatalog, catalog, rfl, schema, hschema, table, htable,
    value, hvalue, privileges, hprivileges, hvalidate⟩ := h
  obtain ⟨rfl, rfl, rfl, rfl, rfl⟩ := GrantWrite.validate_eq hvalidate
  refine ⟨by simpa using get_of_literalField hidentity hend,
    by simpa using get_of_literalField hcatalog hend, ?_, ?_, ?_, ?_⟩
  · simpa [Option.map_map, Function.comp_def] using get_of_literalField hschema hend
  · simpa [Option.map_map, Function.comp_def] using get_of_literalField htable hend
  · rw [hvalue, eq_texts hprivileges]
  · rw [Rule.get?, List.lookup_eq_none_iff]
    intro field hfield
    simp only [List.any_eq_true, decide_eq_true_eq, not_exists, not_and, not_not] at hkeys
    have hkey := hkeys field hfield
    have hne : field.1 ≠ "group" := by
      rintro heq
      rw [heq] at hkey
      revert hkey
      decide
    simpa using fun heq => hne heq.symm

theorem grantRule_get (write : GrantWrite) :
    (grantRule write).get? "user" = some (.str (anchored write.identity.text)) ∧
      (grantRule write).get? "catalog" = some (.str (anchored write.catalog.text)) ∧
      (grantRule write).get? "schema" =
        write.schema.map (fun schema => .str (anchored schema.text)) ∧
      (grantRule write).get? "table" = write.table.map (fun table => .str (anchored table.text)) ∧
      (grantRule write).get? "privileges" = some (texts (write.privileges.map Privilege.text)) ∧
      (grantRule write).get? "group" = none := by
  simp only [grantRule, grantFields, Rule.get?]
  cases write.schema <;> cases write.table <;> exact ⟨rfl, rfl, rfl, rfl, rfl, rfl⟩

/-- A rule taken for a grant applies where the grant's rule does and allows what it does. -/
theorem applies_of_asGrant (patterns : Patterns) {rule : Rule} {write : GrantWrite}
    (h : asGrant rule = some write) (hend : NoTrailingNewline rule) (access : Access) :
    applies patterns access rule = concerns access write ∧
      allows access.privilege rule = allows access.privilege (grantRule write) := by
  obtain ⟨huser, hcatalog, hschema, htable, hprivileges, hgroup⟩ := asGrant_fields h hend
  obtain ⟨huser', hcatalog', hschema', htable', hprivileges', hgroup'⟩ := grantRule_get write
  rw [← applies_eq_concerns patterns]
  constructor
  · simp only [applies, fieldMatches, groupMatches, carried, huser, hcatalog, hschema, htable,
      hgroup, huser', hcatalog', hschema', htable', hgroup']
  · simp only [allows, hprivileges, hprivileges']

/-! ### The rules that are no grants -/

theorem get_of_sameAs {rule other : Rule} (h : rule.sameAs other = true) {field : String}
    {value : Json} (hfield : (field, value) ∈ other.fields) : rule.get? field = some value := by
  simp only [Rule.sameAs, Bool.and_eq_true, List.all_eq_true, beq_iff_eq] at h
  exact h.2 (field, value) hfield

/-- A rule that is the same as one of a single field carries no other. -/
theorem get_of_sameAs_single {rule other : Rule} {key : String} {value : Json}
    (h : rule.sameAs other = true) (hother : other.fields = [(key, value)]) :
    ∀ field, field ≠ key → rule.get? field = none := by
  intro field hne
  have hget : rule.get? key = some value := get_of_sameAs h (by simp [hother])
  have hlength : rule.fields.length = 1 := by
    simp only [Rule.sameAs, Bool.and_eq_true, beq_iff_eq] at h
    rw [h.1, hother]
    rfl
  obtain ⟨⟨name, value⟩, hfields⟩ := List.length_eq_one_iff.mp hlength
  have hname : name = key := by
    by_contra hname
    have hname' : (key == name) = false := by simpa using fun heq => hname heq.symm
    simp [Rule.get?, hfields, List.lookup_cons, hname'] at hget
  have hne' : (field == name) = false := by simpa [hname] using hne
  simp [Rule.get?, hfields, List.lookup_cons, hne']

theorem readTableRule_cases (trinoUser verificationCatalog : String) (rule : Rule) :
    match readTableRule trinoUser verificationCatalog rule with
    | .reserved => rule.sameAs (reservedTableRule trinoUser verificationCatalog) = true
    | .catchAll => rule.sameAs catchAll = true
    | .grant write => asGrant rule = some write
    | .kept => True := by
  unfold readTableRule
  split
  · rename_i heq
    split at heq
    · assumption
    · split at heq
      · cases heq
      · split at heq <;> cases heq
  · rename_i heq
    split at heq
    · cases heq
    · split at heq
      · assumption
      · split at heq <;> cases heq
  · rename_i write heq
    split at heq
    · cases heq
    · split at heq
      · cases heq
      · split at heq
        · cases heq
          assumption
        · cases heq
  · trivial

/-- A rule dropped as Apchi's own speaks of Apchi only. -/
theorem applies_of_reserved {trinoUser verificationCatalog : String} {rule : Rule}
    {access : Access} (h : readTableRule trinoUser verificationCatalog rule = .reserved)
    (huser : access.user ≠ trinoUser) : applies patterns access rule = false := by
  have hsame := readTableRule_cases trinoUser verificationCatalog rule
  rw [h] at hsame
  have hget : rule.get? "user" = some (.str (anchored trinoUser)) :=
    get_of_sameAs hsame (by simp [reservedTableRule])
  have hmatch : patterns.fullMatch (.str (anchored trinoUser)) access.user = false := by
    rw [Bool.eq_false_iff, ne_eq, patterns.anchored_iff]
    exact huser
  simp [applies, fieldMatches, carried, hget, hmatch]

/-- A rule taken for the catch-all applies to everything and allows everything. -/
theorem applies_of_catchAll (patterns : Patterns) {trinoUser verificationCatalog : String}
    {rule : Rule} (access : Access) (h : readTableRule trinoUser verificationCatalog rule = .catchAll) :
    applies patterns access rule = true ∧ ∀ privilege, allows privilege rule = true := by
  have hsame := readTableRule_cases trinoUser verificationCatalog rule
  rw [h] at hsame
  have hget : rule.get? "privileges" = some (texts (Privilege.every.map Privilege.text)) :=
    get_of_sameAs hsame (by simp [catchAll])
  have hother := get_of_sameAs_single hsame rfl
  constructor
  · simp [applies, fieldMatches, groupMatches, carried, hother]
  · intro privilege
    simp only [allows, hget, texts, mem_texts, Privilege.mem_every, decide_true]

/-! ### What is read of a list of rules -/

section Reading

variable (trinoUser verificationCatalog : String)

/-- A rule taken for a grant, and for which. -/
def grantOf (rule : Rule) : Option GrantWrite :=
  match readTableRule trinoUser verificationCatalog rule with
  | .grant write => some write
  | _ => none

/-- The rules kept, and those taken for the catch-all. -/
def isKept (rule : Rule) : Bool :=
  readTableRule trinoUser verificationCatalog rule = .kept

def isCatchAll (rule : Rule) : Bool :=
  readTableRule trinoUser verificationCatalog rule = .catchAll

/-- Two rules for one place are the same grant. -/
def OnePerPlace (rules : List Rule) : Prop :=
  ∀ rule ∈ rules, ∀ other ∈ rules, ∀ write write',
    grantOf trinoUser verificationCatalog rule = some write →
    grantOf trinoUser verificationCatalog other = some write' →
    keyOf write = keyOf write' → write = write'

/-- How the rules taken in so far are spread over what has been read. -/
structure Reads (rules : List Rule) (reading : Reading) : Prop where
  keyed : Keyed reading.grants
  /-- Every grant was read from a rule. -/
  sound : ∀ (key : String) (write : GrantWrite), reading.grants[key]? = some write →
    ∃ rule ∈ rules, grantOf trinoUser verificationCatalog rule = some write
  /-- Every rule taken for a grant left a grant for its place. -/
  complete : ∀ rule ∈ rules, ∀ write, grantOf trinoUser verificationCatalog rule = some write →
    ∃ write', reading.grants[keyOf write]? = some write'
  kept : reading.preserved.block "tables" = rules.filter (isKept trinoUser verificationCatalog)
  enforced : reading.enforced = !rules.any (isCatchAll trinoUser verificationCatalog)

variable {trinoUser verificationCatalog}

theorem block_keep (block name : String) (rule : Rule) (preserved : Preserved) :
    (keep block rule preserved).block name =
      if block = name then preserved.block name ++ [rule] else preserved.block name := by
  simp only [keep, Preserved.block, Std.ExtTreeMap.getElem?_insert,
    Std.LawfulEqCmp.compare_eq_iff_eq]
  split
  · rename_i heq
    subst heq
    rfl
  · rfl

/-- Taking in one more rule. -/
theorem Reads.takeTableRule {rules : List Rule} {reading : Reading}
    (h : Reads trinoUser verificationCatalog rules reading) (rule : Rule) :
    Reads trinoUser verificationCatalog (rules ++ [rule])
      (takeTableRule trinoUser verificationCatalog reading rule) := by
  have hsound : ∀ (key : String) (write : GrantWrite), reading.grants[key]? = some write →
      ∃ other ∈ rules ++ [rule], grantOf trinoUser verificationCatalog other = some write := by
    intro key write hget
    obtain ⟨other, hother, hgrant⟩ := h.sound key write hget
    exact ⟨other, List.mem_append_left _ hother, hgrant⟩
  cases hread : readTableRule trinoUser verificationCatalog rule with
  | grant write =>
      simp only [Permissions.takeTableRule, hread]
      have hrule : grantOf trinoUser verificationCatalog rule = some write := by
        simp [grantOf, hread]
      refine ⟨h.keyed.insert write, ?_, ?_, ?_, ?_⟩
      · intro key write' hget
        rw [Std.ExtTreeMap.getElem?_insert] at hget
        split at hget
        · cases hget
          exact ⟨rule, by simp, hrule⟩
        · exact hsound key write' hget
      · intro other hother write' hgrant
        rw [Std.ExtTreeMap.getElem?_insert]
        split
        · exact ⟨write, rfl⟩
        · rename_i hne
          rcases List.mem_append.mp hother with hmem | hmem
          · exact h.complete other hmem write' hgrant
          · rw [List.mem_singleton.mp hmem, hrule, Option.some.injEq] at hgrant
            exact absurd (by rw [hgrant]; simp) hne
      · simp [h.kept, isKept, hread]
      · simp [h.enforced, isCatchAll, hread]
  | reserved | catchAll | kept =>
      simp only [Permissions.takeTableRule, hread]
      have hrule : grantOf trinoUser verificationCatalog rule = none := by simp [grantOf, hread]
      refine ⟨h.keyed, hsound, ?_, ?_, ?_⟩
      · intro other hother write hgrant
        rcases List.mem_append.mp hother with hmem | hmem
        · exact h.complete other hmem write hgrant
        · rw [List.mem_singleton.mp hmem, hrule] at hgrant
          cases hgrant
      · simp [h.kept, isKept, hread, block_keep]
      · simp [h.enforced, isCatchAll, hread]

/-- What `readTables` makes of a list of rules. -/
theorem reads_readTables (trinoUser verificationCatalog : String) (rules : List Rule) :
    Reads trinoUser verificationCatalog rules
      (readTables trinoUser verificationCatalog rules) := by
  have hstart : Reads trinoUser verificationCatalog []
      ⟨∅, ∅, true⟩ :=
    ⟨keyed_empty, by simp, by simp, rfl, rfl⟩
  suffices hall : ∀ (rules taken : List Rule) (reading : Reading),
      Reads trinoUser verificationCatalog taken reading →
      Reads trinoUser verificationCatalog (taken ++ rules)
        (rules.foldl (takeTableRule trinoUser verificationCatalog) reading) from
    hall rules [] _ hstart
  intro rules
  induction rules with
  | nil =>
      intro taken reading h
      simpa using h
  | cons rule rules ih =>
      intro taken reading h
      simpa using ih _ _ (h.takeTableRule rule)

end Reading

/-! ### The order a file is rendered in -/

section Order

variable (trinoUser verificationCatalog : String)

/-- The key a rule is rendered under, if it is taken for a grant. -/
def ruleKey (rule : Rule) : String :=
  match grantOf trinoUser verificationCatalog rule with
  | some write => keyOf write
  | none => ""

/-- The order of the keys, on rules. -/
def keyOrder (rule other : Rule) : Prop :=
  ruleKey trinoUser verificationCatalog rule ≤ ruleKey trinoUser verificationCatalog other

instance : DecidableRel (keyOrder trinoUser verificationCatalog) :=
  fun rule other => inferInstanceAs (Decidable (ruleKey _ _ rule ≤ ruleKey _ _ other))

instance : Std.Total (keyOrder trinoUser verificationCatalog) :=
  ⟨fun rule other => le_total (ruleKey _ _ rule) (ruleKey _ _ other)⟩

instance : IsTrans Rule (keyOrder trinoUser verificationCatalog) :=
  ⟨fun _ _ _ h h' => le_trans (α := String) h h'⟩

/-- The rules taken for grants, in the order of their keys. -/
def grantRules (rules : List Rule) : List Rule :=
  (rules.filter fun rule => (grantOf trinoUser verificationCatalog rule).isSome).insertionSort
    (keyOrder trinoUser verificationCatalog)

/-- The rules of a file in the order they are rendered in: the grants by key, the rules kept, the
catch-all.  What is dropped speaks of Apchi only. -/
def adoptedOrder (rules : List Rule) : List Rule :=
  grantRules trinoUser verificationCatalog rules ++
    (rules.filter (isKept trinoUser verificationCatalog) ++
      rules.filter (isCatchAll trinoUser verificationCatalog))

/-- The first rule is rendered ahead of the second whatever their order was. -/
def placedAhead (rule other : Rule) : Bool :=
  match readTableRule trinoUser verificationCatalog rule,
    readTableRule trinoUser verificationCatalog other with
  | .grant write, .grant write' => keyOf write < keyOf write'
  | .grant _, .kept | .grant _, .catchAll | .kept, .catchAll => true
  | _, _ => false

variable {trinoUser verificationCatalog}

theorem grantOf_eq_some {rule : Rule} {write : GrantWrite} :
    grantOf trinoUser verificationCatalog rule = some write ↔
      readTableRule trinoUser verificationCatalog rule = .grant write := by
  unfold grantOf
  split
  · rename_i heq
    simp [heq]
  · rename_i hne
    simp only [reduceCtorEq, false_iff]
    exact hne write

theorem asGrant_of_grantOf {rule : Rule} {write : GrantWrite}
    (h : grantOf trinoUser verificationCatalog rule = some write) : asGrant rule = some write := by
  have := readTableRule_cases trinoUser verificationCatalog rule
  rwa [grantOf_eq_some.mp h] at this

/-- Every rule is dropped, kept, taken for the catch-all or for a grant. -/
theorem rule_cases (trinoUser verificationCatalog : String) (rule : Rule) :
    readTableRule trinoUser verificationCatalog rule = .reserved ∨
      isCatchAll trinoUser verificationCatalog rule = true ∨
      isKept trinoUser verificationCatalog rule = true ∨
      ∃ write, grantOf trinoUser verificationCatalog rule = some write := by
  cases hread : readTableRule trinoUser verificationCatalog rule with
  | reserved => exact Or.inl rfl
  | catchAll => exact Or.inr (Or.inl (by simp [isCatchAll, hread]))
  | kept => exact Or.inr (Or.inr (Or.inl (by simp [isKept, hread])))
  | grant write => exact Or.inr (Or.inr (Or.inr ⟨write, grantOf_eq_some.mpr hread⟩))

theorem ruleKey_of_grantOf {rule : Rule} {write : GrantWrite}
    (h : grantOf trinoUser verificationCatalog rule = some write) :
    ruleKey trinoUser verificationCatalog rule = keyOf write := by
  simp [ruleKey, h]

theorem mem_grantRules {rules : List Rule} {rule : Rule} :
    rule ∈ grantRules trinoUser verificationCatalog rules ↔
      rule ∈ rules ∧ ∃ write, grantOf trinoUser verificationCatalog rule = some write := by
  rw [grantRules, List.mem_insertionSort, List.mem_filter, Option.isSome_iff_exists]

/-- Along the grants' part of the order, the first applying rule has the least key. -/
theorem find_grantRules {rules : List Rule} {applies : Rule → Bool} {rule other : Rule}
    (h : (grantRules trinoUser verificationCatalog rules).find? applies = some rule)
    (hother : other ∈ grantRules trinoUser verificationCatalog rules)
    (happlies : applies other = true) :
    ruleKey trinoUser verificationCatalog rule ≤ ruleKey trinoUser verificationCatalog other := by
  have hsorted : (grantRules trinoUser verificationCatalog rules).Pairwise
      (keyOrder trinoUser verificationCatalog) := List.pairwise_insertionSort _ _
  rcases find_least hsorted h hother happlies with rfl | hle
  · exact le_refl _
  · exact hle

/-- The rule consulted after a file has been adopted: the rules agree with the grants read from
them. -/
theorem consulted_readTables {rules : List Rule}
    (hplaces : OnePerPlace trinoUser verificationCatalog rules)
    (hpatterns : ∀ rule ∈ rules, ∀ write,
      grantOf trinoUser verificationCatalog rule = some write → NoTrailingNewline rule)
    (access : Access) :
    consulted (readTables trinoUser verificationCatalog rules).grants access =
      ((grantRules trinoUser verificationCatalog rules).find? (applies patterns access)).bind
        (grantOf trinoUser verificationCatalog) := by
  have hreads := reads_readTables trinoUser verificationCatalog rules
  have happly : ∀ rule ∈ rules, ∀ write, grantOf trinoUser verificationCatalog rule = some write →
      applies patterns access rule = concerns access write := fun rule hrule write hgrant =>
    (applies_of_asGrant patterns (asGrant_of_grantOf hgrant) (hpatterns rule hrule write hgrant)
      access).1
  -- Every rule taken for a grant is the grant found under its key.
  have hfiled : ∀ rule ∈ rules, ∀ write, grantOf trinoUser verificationCatalog rule = some write →
      (readTables trinoUser verificationCatalog rules).grants[keyOf write]? = some write := by
    intro rule hrule write hgrant
    obtain ⟨write', hget⟩ := hreads.complete rule hrule write hgrant
    obtain ⟨other, hother, hgrant'⟩ := hreads.sound _ _ hget
    rw [hget, hplaces rule hrule other hother write write' hgrant hgrant'
      (hreads.keyed _ _ hget).symm]
  cases hfind : (grantRules trinoUser verificationCatalog rules).find? (applies patterns access) with
  | none =>
      rw [Option.bind_none]
      by_contra hconsulted
      obtain ⟨write, hconsulted⟩ := Option.ne_none_iff_exists'.mp hconsulted
      obtain ⟨hget, hconcerns, -⟩ := (consulted_eq_some hreads.keyed).mp hconsulted
      obtain ⟨rule, hrule, hgrant⟩ := hreads.sound _ _ hget
      have := List.find?_eq_none.mp hfind rule (mem_grantRules.mpr ⟨hrule, write, hgrant⟩)
      exact this (by rw [happly rule hrule write hgrant, hconcerns])
  | some rule =>
      obtain ⟨hrule, write, hgrant⟩ := mem_grantRules.mp (List.mem_of_find?_eq_some hfind)
      rw [Option.bind_some, hgrant, consulted_eq_some hreads.keyed]
      refine ⟨hfiled rule hrule write hgrant, ?_, ?_⟩
      · rw [← happly rule hrule write hgrant]
        exact List.find?_some hfind
      · intro other hother hconcerns
        obtain ⟨rule', hrule', hgrant'⟩ := hreads.sound _ _ hother
        have hle := find_grantRules hfind (mem_grantRules.mpr ⟨hrule', other, hgrant'⟩)
          (by rw [happly rule' hrule' other hgrant', hconcerns])
        rwa [ruleKey_of_grantOf hgrant, ruleKey_of_grantOf hgrant'] at hle

/-- Beneath the grants, a file decides as the rules kept from it and its catch-all do. -/
theorem tablesDecision_beneath {rules : List Rule} (access : Access) :
    tablesDecision patterns access
        ((readTables trinoUser verificationCatalog rules).preserved.block "tables" ++
          if (readTables trinoUser verificationCatalog rules).enforced then [] else [catchAll]) =
      tablesDecision patterns access (rules.filter (isKept trinoUser verificationCatalog) ++
        rules.filter (isCatchAll trinoUser verificationCatalog)) := by
  have hreads := reads_readTables trinoUser verificationCatalog rules
  rw [hreads.kept, hreads.enforced]
  unfold tablesDecision
  cases hfind : (rules.filter (isKept trinoUser verificationCatalog)).find?
      (applies patterns access) with
  | some rule => rw [decision_append_of_find _ hfind, decision_append_of_find _ hfind]
  | none =>
      rw [List.find?_eq_none] at hfind
      have hnone := fun rule hrule => Bool.eq_false_iff.mpr (hfind rule hrule)
      rw [decision_append_of_none _ hnone, decision_append_of_none _ hnone]
      cases hcatch : rules.filter (isCatchAll trinoUser verificationCatalog) with
      | nil =>
          have hany : rules.any (isCatchAll trinoUser verificationCatalog) = false := by
            simpa [List.any_eq_false, List.filter_eq_nil_iff] using hcatch
          simp [hany]
      | cons rule rest =>
          have hmem : rule ∈ rules.filter (isCatchAll trinoUser verificationCatalog) := by
            simp [hcatch]
          obtain ⟨hrule, hisCatchAll⟩ := List.mem_filter.mp hmem
          have hany : rules.any (isCatchAll trinoUser verificationCatalog) = true :=
            List.any_eq_true.mpr ⟨rule, hrule, hisCatchAll⟩
          obtain ⟨happlies, hallows⟩ := applies_of_catchAll patterns access
            (by simpa [isCatchAll] using hisCatchAll)
          rw [decision_cons_of_applies _ happlies, hallows, hany]
          exact allows_catchAll access.privilege

/-- A file read and rendered again decides as its rules do in the order they are rendered in. -/
theorem tablesDecision_adoptedOrder {rules : List Rule}
    (hplaces : OnePerPlace trinoUser verificationCatalog rules)
    (hpatterns : ∀ rule ∈ rules, ∀ write,
      grantOf trinoUser verificationCatalog rule = some write → NoTrailingNewline rule)
    {access : Access} (huser : access.user ≠ trinoUser) {enforced : Bool} {preserved : Preserved}
    (henforced : enforced = (readTables trinoUser verificationCatalog rules).enforced)
    (hpreserved : preserved.block "tables" =
      (readTables trinoUser verificationCatalog rules).preserved.block "tables") :
    tablesDecision patterns access (tableRules trinoUser
        (readTables trinoUser verificationCatalog rules).grants verificationCatalog enforced
        preserved) =
      tablesDecision patterns access (adoptedOrder trinoUser verificationCatalog rules) := by
  rw [tablesDecision_tableRules _ _ _ _ _ huser, consulted_readTables hplaces hpatterns,
    henforced, hpreserved, tablesDecision_beneath]
  unfold adoptedOrder
  cases hfind : (grantRules trinoUser verificationCatalog rules).find? (applies patterns access) with
  | none =>
      rw [Option.bind_none]
      rw [List.find?_eq_none] at hfind
      exact (decision_append_of_none _
        fun rule hrule => Bool.eq_false_iff.mpr (hfind rule hrule)).symm
  | some rule =>
      obtain ⟨hrule, write, hgrant⟩ := mem_grantRules.mp (List.mem_of_find?_eq_some hfind)
      rw [Option.bind_some, hgrant]
      refine Eq.trans ?_ (decision_append_of_find _ hfind).symm
      rw [(applies_of_asGrant patterns (asGrant_of_grantOf hgrant)
        (hpatterns rule hrule write hgrant) access).2, Bool.eq_iff_iff, allows_grantRule]
      simp

/-- The new order changes no decision when the rules it moves ahead of the first one that applied
agree with that one. -/
theorem decision_adoptedOrder {rules : List Rule}
    (hplaces : OnePerPlace trinoUser verificationCatalog rules)
    (hpatterns : ∀ rule ∈ rules, ∀ write,
      grantOf trinoUser verificationCatalog rule = some write → NoTrailingNewline rule)
    {access : Access} (huser : access.user ≠ trinoUser)
    (hmoved : ∀ first, rules.find? (applies patterns access) = some first →
      ∀ rule ∈ rules, applies patterns access rule = true →
        placedAhead trinoUser verificationCatalog rule first = true →
        allows access.privilege rule = allows access.privilege first) :
    tablesDecision patterns access (adoptedOrder trinoUser verificationCatalog rules) =
      tablesDecision patterns access rules := by
  have hsub : ∀ rule ∈ adoptedOrder trinoUser verificationCatalog rules, rule ∈ rules := by
    intro rule hrule
    simp only [adoptedOrder, List.mem_append, mem_grantRules, List.mem_filter] at hrule
    rcases hrule with h | h | h <;> exact h.1
  cases hfirst : rules.find? (applies patterns access) with
  | none =>
      rw [List.find?_eq_none] at hfirst
      have hnone := fun rule hrule => Bool.eq_false_iff.mpr (hfirst rule hrule)
      rw [tablesDecision, tablesDecision, decision_of_none hnone,
        decision_of_none fun rule hrule => hnone rule (hsub rule hrule)]
  | some first =>
      have hfirstMem := List.mem_of_find?_eq_some hfirst
      have hfirstApplies : applies patterns access first = true := List.find?_some hfirst
      have hmoved := hmoved first hfirst
      rw [tablesDecision, tablesDecision, decision_of_find hfirst, adoptedOrder]
      cases hgrants : (grantRules trinoUser verificationCatalog rules).find?
          (applies patterns access) with
      | some rule =>
          -- A grant is consulted now: it is ahead of the first rule, or for the same place.
          obtain ⟨hrule, write, hgrant⟩ := mem_grantRules.mp (List.mem_of_find?_eq_some hgrants)
          have hruleApplies : applies patterns access rule = true := List.find?_some hgrants
          rw [decision_append_of_find _ hgrants]
          have hread := grantOf_eq_some.mp hgrant
          rcases rule_cases trinoUser verificationCatalog
            first with hreserved | hcatch | hkept | ⟨write', hgrant'⟩
          · rw [applies_of_reserved hreserved huser] at hfirstApplies
            cases hfirstApplies
          · have hread' := of_decide_eq_true hcatch
            exact hmoved rule hrule hruleApplies (by simp [placedAhead, hread, hread'])
          · have hread' := of_decide_eq_true hkept
            exact hmoved rule hrule hruleApplies (by simp [placedAhead, hread, hread'])
          · have hle := find_grantRules hgrants
              (mem_grantRules.mpr ⟨hfirstMem, write', hgrant'⟩) hfirstApplies
            rw [ruleKey_of_grantOf hgrant, ruleKey_of_grantOf hgrant'] at hle
            rcases lt_or_eq_of_le hle with hlt | heq
            · have hread' := grantOf_eq_some.mp hgrant'
              exact hmoved rule hrule hruleApplies (by simp [placedAhead, hread, hread', hlt])
            · have hsame := hplaces rule hrule first hfirstMem write write' hgrant hgrant' heq
              subst hsame
              rw [(applies_of_asGrant patterns (asGrant_of_grantOf hgrant)
                  (hpatterns rule hrule _ hgrant) access).2,
                (applies_of_asGrant patterns (asGrant_of_grantOf hgrant')
                  (hpatterns first hfirstMem _ hgrant') access).2]
      | none =>
          rw [List.find?_eq_none] at hgrants
          rw [decision_append_of_none _
            fun rule hrule => Bool.eq_false_iff.mpr (hgrants rule hrule)]
          rcases rule_cases trinoUser verificationCatalog
            first with hreserved | hcatch | hkept | ⟨write', hgrant'⟩
          · rw [applies_of_reserved hreserved huser] at hfirstApplies
            cases hfirstApplies
          · have hread' := of_decide_eq_true hcatch
            obtain ⟨-, hallows⟩ := applies_of_catchAll patterns access hread'
            cases hkeptFind : (rules.filter (isKept trinoUser verificationCatalog)).find?
                (applies patterns access) with
            | some rule =>
                -- A kept rule is consulted now, ahead of the catch-all that came first.
                rw [decision_append_of_find _ hkeptFind]
                obtain ⟨hrule, hisKept⟩ := List.mem_filter.mp (List.mem_of_find?_eq_some hkeptFind)
                have hread := of_decide_eq_true hisKept
                exact hmoved rule hrule (List.find?_some hkeptFind)
                  (by simp [placedAhead, hread, hread'])
            | none =>
                rw [List.find?_eq_none] at hkeptFind
                rw [decision_append_of_none _
                    fun rule hrule => Bool.eq_false_iff.mpr (hkeptFind rule hrule),
                  decision_of_find (find_filter _ hfirst hcatch)]
          · rw [decision_append_of_find _ (find_filter _ hfirst hkept)]
          · exact absurd hfirstApplies
              (hgrants first (mem_grantRules.mpr ⟨hfirstMem, write', hgrant'⟩))

end Order

/-! ### Adoption -/

theorem readDocument_path {path content : String} {document : Rule} (path' : String)
    (h : readDocument path content = .ok document) : readDocument path' content = .ok document := by
  unfold readDocument at h ⊢
  split at h
  · cases h
  · cases h
    rfl
  · cases h

theorem rulesIn_path {path block : String} {document : Rule} {rules : List Rule} (path' : String)
    (h : rulesIn path document block = .ok rules) : rulesIn path' document block = .ok rules := by
  unfold rulesIn at h ⊢
  split at h
  · cases h
    rfl
  · split at h
    · cases h
      rfl
    · cases h
  · cases h

theorem block_foldl_keep {block : String} (h : block ≠ "tables") (rules : List Rule)
    (preserved : Preserved) :
    (rules.foldl (fun preserved rule => keep block rule preserved) preserved).block "tables" =
      preserved.block "tables" := by
  induction rules generalizing preserved with
  | nil => rfl
  | cons rule rules ih => rw [List.foldl_cons, ih, block_keep, if_neg h]

/-- The other blocks leave the kept `tables` rules alone. -/
theorem block_takeBlocks {path : String} {document : Rule} {trinoUser : String} {grants : Grants}
    {blocks : List String} (h : ∀ block ∈ blocks, block ≠ "tables") {start preserved : Preserved}
    (hfold : blocks.foldlM (takeBlock path document trinoUser grants) start = .ok preserved) :
    preserved.block "tables" = start.block "tables" := by
  induction blocks generalizing start with
  | nil =>
      cases hfold
      rfl
  | cons block blocks ih =>
      rw [List.forall_mem_cons] at h
      rw [List.foldlM_cons] at hfold
      cases htake : takeBlock path document trinoUser grants start block with
      | error reason =>
          rw [htake] at hfold
          cases hfold
      | ok next =>
          rw [htake] at hfold
          rw [ih h.2 hfold]
          unfold takeBlock at htake
          cases hrules : rulesIn path document block with
          | error reason =>
              rw [hrules] at htake
              cases htake
          | ok rules =>
              rw [hrules] at htake
              cases htake
              exact block_foldl_keep h.1 _ _

/-- What `parseRules` returns for a file with a `tables` block. -/
theorem parseRules_tables {path content trinoUser verificationCatalog : String} {grants : Grants}
    {preserved : Preserved} {enforced : Bool} {rules : List Rule}
    (h : parseRules path content trinoUser verificationCatalog = .ok (grants, preserved, enforced))
    (hblock : tablesBlock content = some rules) :
    grants = (readTables trinoUser verificationCatalog rules).grants ∧
      enforced = (readTables trinoUser verificationCatalog rules).enforced ∧
      preserved.block "tables" =
        (readTables trinoUser verificationCatalog rules).preserved.block "tables" := by
  unfold tablesBlock at hblock
  cases hread : readDocument "" content with
  | error reason => simp [hread] at hblock
  | ok document =>
      simp only [hread] at hblock
      split at hblock
      swap
      · cases hblock
      cases hrules : rulesIn "" document "tables" with
      | error reason =>
          rw [hrules] at hblock
          cases hblock
      | ok rules' =>
          rw [hrules] at hblock
          cases hblock
          simp only [parseRules, readDocument_path path hread,
            rulesIn_path path hrules, bind, Except.bind] at h
          split at h
          · cases h
          · rename_i kept hkept
            cases h
            refine ⟨rfl, rfl, block_takeBlocks (fun block hmem => ?_) hkept⟩
            simp only [otherBlocks, Std.ExtTreeSet.mem_toList, Std.ExtTreeSet.mem_ofList] at hmem
            simp only [List.contains_eq_mem, List.mem_filter, bne_iff_ne, decide_eq_true_eq] at hmem
            exact hmem.2

/-- A file that lets everyone read a catalog before it lets one user write to it. -/
def readersFirst : String :=
  "\x7b\"tables\": [\x7b\"catalog\": \"^c$\", \"privileges\": [\"SELECT\"]\x7d, " ++
    "\x7b\"user\": \"^alice$\", \"catalog\": \"^c$\", \"privileges\": [\"INSERT\"]\x7d]\x7d"

def everyoneReads : Rule :=
  ⟨[("catalog", .str "^c$"), ("privileges", texts ["SELECT"])], by simp⟩

def aliceWrites : GrantWrite where
  identity := aliceWritesReporting.identity
  catalog := ⟨"c", by decide, by decide, by decide⟩
  schema := none
  table := none
  privileges := aliceWritesReporting.privileges
  privileges_ne := aliceWritesReporting.privileges_ne
  schema_of_table := aliceReadsSales.schema_of_table

theorem parseRules_readersFirst :
    parseRules "rules.json" readersFirst "apchi" "system" =
      .ok (Std.ExtTreeMap.insert ∅ (keyOf aliceWrites) aliceWrites, keep "tables" everyoneReads ∅,
        true) := by
  decide +kernel

theorem tablesBlock_readersFirst :
    tablesBlock readersFirst = some [everyoneReads, grantRule aliceWrites] := by
  decide +kernel

end Apchi.Permissions
