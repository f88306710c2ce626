import Apchi.Permissions.RoundTrip

/-!
# Which rules are lost in reading

Every rule of a `tables` block that is not Apchi's own is read as a grant or kept.  Grants are filed
under a key, in which an omitted level is written as a level named `*` is, so two rules for one key
leave one grant; the other one's privileges, or its place, are lost without a word.
-/

namespace Apchi.Permissions

open Lib

/-! ### What a rule says -/

/-- A field of a rule names this level: it is absent, or an anchored literal, with or without the line
break at its end that the end of a pattern passes over. -/
def NamesLevel (rule : Rule) (field : String) : Option Name → Prop
  | none => rule.get? field = none
  | some name => rule.get? field = some (.str (anchored name.text)) ∨
      rule.get? field = some (.str (anchored name.text ++ "\n"))

/-- What the reader takes a rule for: its identity, its place and its privileges, and nothing else. -/
structure ReadsAs (rule : Rule) (grant : GrantWrite) : Prop where
  user : NamesLevel rule "user" (some grant.identity)
  catalog : NamesLevel rule "catalog" (some grant.catalog)
  schema : NamesLevel rule "schema" grant.schema
  table : NamesLevel rule "table" grant.table
  privileges : rule.get? "privileges" = some (texts (grant.privileges.map Privilege.text))
  only : ∀ field ∈ rule.fields, field.1 ∈ grantKeys

theorem unanchor_newline (pattern : String) (h : pattern.toList.getLast? = some '$') :
    unanchor (pattern ++ "\n") = unanchor pattern := by
  unfold unanchor
  rw [String.toList_append, show "\n".toList = ['\n'] from rfl]
  cases hpattern : pattern.toList with
  | nil =>
    rw [hpattern] at h
    cases h
  | cons c rest =>
    rw [hpattern, List.getLast?_cons] at h
    cases hlast : rest.getLast? with
    | none =>
      rw [List.getLast?_eq_none_iff] at hlast
      subst hlast
      obtain rfl : c = '$' := by simpa using h
      rfl
    | some last =>
      obtain rfl : last = '$' := by simpa [hlast] using h
      have hnotNewline : ¬ some '$' = some '\n' := by decide
      by_cases hcaret : c = '^'
      · subst hcaret
        simp only [List.cons_append, List.getLast?_append, List.getLast?_singleton, Option.some_or,
          if_true, List.dropLast_concat, hlast, hnotNewline, if_false]
      · simp [hcaret]

/-- A pattern read as a literal is the anchored name, with or without a line break at its end. -/
theorem pattern_of_unanchor {pattern literal : String} (h : unanchor pattern = some literal) :
    pattern = anchored (reUnescape literal) ∨ pattern = anchored (reUnescape literal) ++ "\n" := by
  by_cases hend : pattern.toList.getLast? = some '\n'
  · right
    have hsplit : pattern = String.ofList pattern.toList.dropLast ++ "\n" := by
      apply String.toList_injective
      rw [String.toList_append, String.toList_ofList]
      exact dropLast_append_getLast hend
    rw [hsplit] at h ⊢
    generalize String.ofList pattern.toList.dropLast = front at h
    have hfront : front.toList.getLast? = some '$' := by
      unfold unanchor at h
      rw [String.toList_append, show "\n".toList = ['\n'] from rfl] at h
      cases hchars : front.toList with
      | nil => simp [hchars] at h
      | cons c rest =>
        rw [hchars] at h
        split at h
        · next rest' heq =>
          obtain ⟨rfl, hrest⟩ := List.cons.inj heq
          have hrest : rest' = rest ++ ['\n'] := hrest.symm
          subst hrest
          simp only [List.getLast?_append, List.getLast?_singleton, Option.some_or, if_true,
            List.dropLast_concat, Option.ite_none_right_eq_some] at h
          rw [List.getLast?_cons, h.1.1]
          rfl
        · cases h
    rw [unanchor_newline front hfront] at h
    rw [unanchor_eq h (by simp [hfront])]
  · exact Or.inl (unanchor_eq h hend)

theorem namesLevel_of_literalField {rule : Rule} {field : String} {level : Option Name}
    (h : literalField rule field = some (level.map Name.text)) : NamesLevel rule field level := by
  unfold literalField at h
  split at h
  · next hnone =>
    cases level with
    | none => exact hnone
    | some name => cases h
  · next pattern hpattern =>
    simp only [Option.map_eq_some_iff] at h
    obtain ⟨literal, hliteral, hlevel⟩ := h
    cases level with
    | none => cases hlevel
    | some name =>
      obtain hname : reUnescape literal = name.text := by simpa using hlevel
      show rule.get? field = some (.str (anchored name.text)) ∨
        rule.get? field = some (.str (anchored name.text ++ "\n"))
      rw [hpattern, ← hname]
      rcases pattern_of_unanchor hliteral with h | h
      · exact Or.inl (by rw [← h])
      · exact Or.inr (by rw [← h])
  · cases h

theorem literalField_of_namesLevel {rule : Rule} {field : String} {level : Option Name}
    (h : NamesLevel rule field level) (hline : ∀ name ∈ level, '\n' ∉ name.text.toList) :
    literalField rule field = some (level.map Name.text) := by
  unfold literalField
  cases level with
  | none =>
    rw [show rule.get? field = none from h]
    rfl
  | some name =>
    have hname := hline name rfl
    have hread : unanchor (anchored name.text) = some (reEscape name.text) := by
      rw [unanchor_anchored, if_neg hname]
    have hread' : unanchor (anchored name.text ++ "\n") = some (reEscape name.text) := by
      rw [unanchor_newline _ (by simp [anchored, List.getLast?_cons]), hread]
    rcases h with h | h
    · simp [h, hread, reUnescape_reEscape hname]
    · simp [h, hread', reUnescape_reEscape hname]

/-- A rule says what a grant says: it has the fields of the grant's own rule. -/
def Says (rule : Rule) (grant : GrantWrite) : Prop :=
  ∀ field, rule.get? field = (grantRule grant).get? field

theorem get_of_namesLevel {rule : Rule} {field : String} {level : Option Name}
    (h : NamesLevel rule field level) (hend : NoTrailingNewline rule) :
    rule.get? field = level.map fun name => .str (anchored name.text) := by
  cases level with
  | none => exact h
  | some name =>
    rcases h with h | h
    · exact h
    · exact absurd (by simp) (hend field _ h)

theorem get_of_not_mem {rule : Rule} (honly : ∀ field ∈ rule.fields, field.1 ∈ grantKeys)
    {field : String} (h : field ∉ grantKeys) : rule.get? field = none := by
  rw [Rule.get?, List.lookup_eq_none_iff]
  intro other hother
  simpa using fun heq : field = other.1 => h (heq ▸ honly other hother)

/-- A rule says what it is read as where no pattern of it ends in a line break. -/
theorem says_iff {rule : Rule} {grant : GrantWrite} (h : ReadsAs rule grant) :
    Says rule grant ↔ NoTrailingNewline rule := by
  obtain ⟨huser, hcatalog, hschema, htable, hprivileges, -⟩ := grantRule_get grant
  constructor
  · intro hspelled field pattern hpattern
    rw [hspelled] at hpattern
    have hmem : field ∈ grantKeys := by
      by_contra hnot
      rw [get_of_not_mem (by simpa using grantFields_keys grant) hnot] at hpattern
      cases hpattern
    have hlast (name : String) : (anchored name).toList.getLast? ≠ some '\n' := by
      simp [anchored, List.getLast?_cons]
    simp only [grantKeys, List.mem_cons, List.not_mem_nil, or_false] at hmem
    rcases hmem with rfl | rfl | rfl | rfl | rfl
    · rw [huser] at hpattern
      exact Json.str.inj (Option.some.inj hpattern) ▸ hlast _
    · rw [hcatalog] at hpattern
      exact Json.str.inj (Option.some.inj hpattern) ▸ hlast _
    · rw [hschema] at hpattern
      obtain ⟨name, -, hname⟩ := Option.map_eq_some_iff.mp hpattern
      exact Json.str.inj hname ▸ hlast _
    · rw [htable] at hpattern
      obtain ⟨name, -, hname⟩ := Option.map_eq_some_iff.mp hpattern
      exact Json.str.inj hname ▸ hlast _
    · rw [hprivileges] at hpattern
      cases hpattern
  · intro hend field
    by_cases hmem : field ∈ grantKeys
    · simp only [grantKeys, List.mem_cons, List.not_mem_nil, or_false] at hmem
      rcases hmem with rfl | rfl | rfl | rfl | rfl
      · rw [huser, get_of_namesLevel h.user hend, Option.map_some]
      · rw [hcatalog, get_of_namesLevel h.catalog hend, Option.map_some]
      · rw [hschema, get_of_namesLevel h.schema hend]
      · rw [htable, get_of_namesLevel h.table hend]
      · rw [hprivileges, h.privileges]
    · rw [get_of_not_mem h.only hmem, get_of_not_mem (by simpa using grantFields_keys grant) hmem]

/-- **A rule is read as the grant it stands for.** -/
theorem asGrant_iff {rule : Rule} {grant : GrantWrite} :
    asGrant rule = some grant ↔ ReadsAs rule grant ∧ grant.OneLine := by
  constructor
  · intro h
    refine ⟨?_, oneLine_of_asGrant h⟩
    unfold asGrant at h
    split at h
    · cases h
    next hkeys =>
    simp only [Option.bind_eq_bind, Option.bind_eq_some_iff] at h
    obtain ⟨_, hidentity, identity, rfl, _, hcatalog, catalog, rfl, schema, hschema, table, htable,
      value, hvalue, privileges, hprivileges, hvalidate⟩ := h
    obtain ⟨rfl, rfl, rfl, rfl, rfl⟩ := GrantWrite.validate_eq hvalidate
    refine ⟨namesLevel_of_literalField hidentity, namesLevel_of_literalField hcatalog,
      namesLevel_of_literalField hschema, namesLevel_of_literalField htable, ?_, ?_⟩
    · rw [hvalue, eq_texts hprivileges]
    · simpa using hkeys
  · rintro ⟨hspelled, hline⟩
    have hnames : ∀ level : Option Name, (∀ name ∈ level, name ∈ grant.names) →
        ∀ name ∈ level, '\n' ∉ name.text.toList :=
      fun level h name hname => hline name (h name hname)
    have huser := literalField_of_namesLevel hspelled.user
      (hnames _ (by simp [GrantWrite.names]))
    have hcatalog := literalField_of_namesLevel hspelled.catalog
      (hnames _ (by simp [GrantWrite.names]))
    have hschema := literalField_of_namesLevel hspelled.schema
      (hnames _ (by simp +contextual [GrantWrite.names]))
    have htable := literalField_of_namesLevel hspelled.table
      (hnames _ (by simp +contextual [GrantWrite.names]))
    have hkeys : (rule.fields.any fun field => field.1 ∉ grantKeys) = false := by
      simpa using hspelled.only
    unfold asGrant
    simp only [hkeys, Bool.false_eq_true, if_false, huser, hcatalog, hschema, htable,
      hspelled.privileges, asTexts_texts, Option.bind_eq_bind, Option.bind_some, Option.map_some]
    exact grant.validate_self

/-- A rule that says what a grant says is read as it. -/
theorem asGrant_of_says {rule : Rule} {grant : GrantWrite} (h : Says rule grant)
    (hline : grant.OneLine) : asGrant rule = some grant := by
  have hself := (asGrant_iff.mp ((asGrant_grantRule grant).trans (if_pos hline))).1
  have hlevel {field : String} {level : Option Name} (hfield : NamesLevel (grantRule grant) field level) :
      NamesLevel rule field level := by
    cases level with
    | none => exact (h field).trans hfield
    | some name => exact hfield.imp (h field).trans (h field).trans
  refine asGrant_iff.mpr ⟨⟨hlevel hself.user, hlevel hself.catalog, hlevel hself.schema,
    hlevel hself.table, (h _).trans hself.privileges, ?_⟩, hline⟩
  intro field hfield
  by_contra hnot
  have hnone := (h field.1).trans (get_of_not_mem hself.only hnot)
  rw [Rule.get?, List.lookup_eq_none_iff] at hnone
  simpa using hnone field hfield

/-! ### Keys -/

theorem append_sep_injective {α : Type} {sep : α} {xs xs' ys ys' : List α} (h : sep ∉ xs)
    (h' : sep ∉ xs') (heq : xs ++ sep :: ys = xs' ++ sep :: ys') : xs = xs' ∧ ys = ys' := by
  induction xs generalizing xs' with
  | nil =>
    cases xs' with
    | nil => exact ⟨rfl, (List.cons.inj heq).2⟩
    | cons x xs' => exact absurd (List.cons.inj heq).1 fun hx => h' (hx ▸ List.mem_cons_self)
  | cons x xs ih =>
    cases xs' with
    | nil => exact absurd (List.cons.inj heq).1.symm fun hx => h (hx ▸ List.mem_cons_self)
    | cons x' xs' =>
      obtain ⟨rfl, htail⟩ := List.cons.inj heq
      obtain ⟨rfl, rfl⟩ := ih (List.not_mem_of_not_mem_cons h) (List.not_mem_of_not_mem_cons h') htail
      exact ⟨rfl, rfl⟩

/-- Two levels are written alike in a key: they are the same, or one is omitted and the other is named
by what stands for an omitted one. -/
def WrittenAlike (level level' : Option Name) : Prop :=
  level = level' ∨ (level = none ∧ level'.map Name.text = some any) ∨
    (level' = none ∧ level.map Name.text = some any)

theorem keyPart_eq_iff {level level' : Option Name} :
    keyPart level = keyPart level' ↔ WrittenAlike level level' := by
  unfold keyPart WrittenAlike
  cases level with
  | none =>
    cases level' with
    | none => simp
    | some name => simp [eq_comm]
  | some name =>
    cases level' with
    | none => simp
    | some name' =>
      constructor
      · intro h
        exact Or.inl (congrArg some (Name.ext h))
      · intro h
        rcases h with h | ⟨h, -⟩ | ⟨h, -⟩
        · rw [Option.some.inj h]
        · cases h
        · cases h

theorem colon_keyPart (level : Option Name) : ':' ∉ (keyPart level).toList := by
  cases level with
  | none => decide
  | some name => exact name.noColon

/-- Two grants have one key where they name the same identity and the same catalog, and levels that
are written alike. -/
structure OneKey (grant other : GrantWrite) : Prop where
  identity : grant.identity = other.identity
  catalog : grant.catalog = other.catalog
  schema : WrittenAlike grant.schema other.schema
  table : WrittenAlike grant.table other.table

theorem keyOf_chars (grant : GrantWrite) :
    (keyOf grant).toList = grant.identity.text.toList ++ ':' :: (grant.catalog.text.toList ++
      ':' :: ((keyPart grant.schema).toList ++ ':' :: (keyPart grant.table).toList)) := by
  simp [keyOf, String.intercalate_cons_of_ne_nil]

theorem keyOf_eq_iff {grant other : GrantWrite} : keyOf grant = keyOf other ↔ OneKey grant other := by
  constructor
  · intro h
    have hchars := congrArg String.toList h
    rw [keyOf_chars, keyOf_chars] at hchars
    obtain ⟨hidentity, hchars⟩ :=
      append_sep_injective grant.identity.noColon other.identity.noColon hchars
    obtain ⟨hcatalog, hchars⟩ :=
      append_sep_injective grant.catalog.noColon other.catalog.noColon hchars
    obtain ⟨hschema, htable⟩ := append_sep_injective (colon_keyPart _) (colon_keyPart _) hchars
    exact ⟨Name.ext (String.toList_injective hidentity), Name.ext (String.toList_injective hcatalog),
      keyPart_eq_iff.mp (String.toList_injective hschema),
      keyPart_eq_iff.mp (String.toList_injective htable)⟩
  · rintro ⟨hidentity, hcatalog, hschema, htable⟩
    unfold keyOf
    rw [hidentity, hcatalog, keyPart_eq_iff.mpr hschema, keyPart_eq_iff.mpr htable]

/-! ### Nothing is lost -/

section Losses

variable (trinoUser verificationCatalog : String)

/-- A rule that is neither Apchi's own nor the catch-all. -/
def OfOthers (rule : Rule) : Prop :=
  rule.sameAs (reservedTableRule trinoUser verificationCatalog) = false ∧
    rule.sameAs catchAll = false

/-- A rule of others that is read as this grant. -/
def Spells (rule : Rule) (grant : GrantWrite) : Prop :=
  OfOthers trinoUser verificationCatalog rule ∧ ReadsAs rule grant ∧ grant.OneLine

/-- Every rule of others is there after reading: it says what a grant says, or it is kept. -/
def EveryRuleRead (rules : List Rule) (grants : Grants) (preserved : Preserved) : Prop :=
  ∀ rule ∈ rules, OfOthers trinoUser verificationCatalog rule →
    (∃ grant, grants[keyOf grant]? = some grant ∧ Says rule grant) ∨ rule ∈ preserved.block "tables"

/-- No two rules are filed under one key. -/
def NothingOverwritten (rules : List Rule) : Prop :=
  rules.Pairwise fun rule other => ∀ grant grant', Spells trinoUser verificationCatalog rule grant →
    Spells trinoUser verificationCatalog other grant' → keyOf grant ≠ keyOf grant'

variable {trinoUser verificationCatalog}

theorem grantOf_iff {rule : Rule} {grant : GrantWrite} :
    grantOf trinoUser verificationCatalog rule = some grant ↔
      Spells trinoUser verificationCatalog rule grant := by
  rw [grantOf_eq_some, Spells, OfOthers, ← asGrant_iff]
  unfold readTableRule
  cases rule.sameAs (reservedTableRule trinoUser verificationCatalog) with
  | true => simp
  | false =>
    cases rule.sameAs catchAll with
    | true => simp
    | false => cases asGrant rule <;> simp

theorem isKept_of_others {rule : Rule} (h : OfOthers trinoUser verificationCatalog rule)
    (hnone : grantOf trinoUser verificationCatalog rule = none) :
    isKept trinoUser verificationCatalog rule = true := by
  obtain ⟨hreserved, hcatchAll⟩ := h
  rcases rule_cases trinoUser verificationCatalog rule with hread | hread | hread | ⟨grant, hread⟩
  · have hsame := readTableRule_cases trinoUser verificationCatalog rule
    rw [hread, hreserved] at hsame
    cases hsame
  · have hsame := readTableRule_cases trinoUser verificationCatalog rule
    rw [of_decide_eq_true hread, hcatchAll] at hsame
    cases hsame
  · exact hread
  · rw [hnone] at hread
    cases hread

/-- **Which rules are lost in reading a file.**  Every rule of others is a grant or kept exactly where
no rule that is read as a grant ends a pattern in a line break and two of them that have one key are
the same grant; what is kept is kept in its order; a rule overwrites another exactly where two have one
key; and two grants that differ in identity or place have different keys exactly where they do not
differ only in that one omits a level the other names `*`. -/
theorem every_rule_is_read_iff {path content : String} {grants : Grants} {preserved : Preserved}
    {enforced : Bool}
    (h : parseRules path content trinoUser verificationCatalog = .ok (grants, preserved, enforced)) :
    (EveryRuleRead trinoUser verificationCatalog (tablesOf content) grants preserved ↔
      ∀ rule ∈ tablesOf content, ∀ grant, Spells trinoUser verificationCatalog rule grant →
        NoTrailingNewline rule ∧
          ∀ other ∈ tablesOf content, ∀ grant', Spells trinoUser verificationCatalog other grant' →
            OneKey grant grant' → grant = grant') ∧
    preserved.block "tables" =
      (tablesOf content).filter (isKept trinoUser verificationCatalog) ∧
    (NothingOverwritten trinoUser verificationCatalog (tablesOf content) ↔
      (tablesOf content).Pairwise fun rule other => ∀ grant grant',
        Spells trinoUser verificationCatalog rule grant →
        Spells trinoUser verificationCatalog other grant' → ¬ OneKey grant grant') ∧
    ∀ grant grant' : GrantWrite,
      (keyOf grant = keyOf grant' → grant.identity = grant'.identity ∧
          grant.catalog = grant'.catalog ∧ grant.schema = grant'.schema ∧
          grant.table = grant'.table) ↔
        (OneKey grant grant' → grant.schema = grant'.schema ∧ grant.table = grant'.table) := by
  obtain ⟨hreads, hgrants⟩ := parseRules_reads h
  have hkept : preserved.block "tables" = _ := hreads.kept
  refine ⟨?_, hkept, ?_, ?_⟩
  · constructor
    · intro hall
      have hfiled : ∀ rule ∈ tablesOf content, ∀ grant,
          Spells trinoUser verificationCatalog rule grant →
            Says rule grant ∧ grants[keyOf grant]? = some grant := by
        intro rule hrule grant hspells
        rcases hall rule hrule hspells.1 with ⟨said, hsaid, hspelled⟩ | hmem
        · obtain ⟨other, -, hother⟩ := hreads.sound _ _ hsaid
          have hread : asGrant rule = some said :=
            asGrant_of_says hspelled (oneLine_of_asGrant (asGrant_of_grantOf hother))
          obtain rfl : grant = said :=
            Option.some.inj ((asGrant_iff.mpr ⟨hspells.2.1, hspells.2.2⟩).symm.trans hread)
          exact ⟨hspelled, hsaid⟩
        · rw [hkept] at hmem
          have hread := of_decide_eq_true (List.mem_filter.mp hmem).2
          rw [grantOf_eq_some.mp (grantOf_iff.mpr hspells)] at hread
          cases hread
      intro rule hrule grant hspells
      obtain ⟨hspelled, hget⟩ := hfiled rule hrule grant hspells
      refine ⟨(says_iff hspells.2.1).mp hspelled, fun other hother grant' hspells' hkey => ?_⟩
      rw [keyOf_eq_iff.mpr hkey, (hfiled other hother grant' hspells').2] at hget
      exact (Option.some.inj hget).symm
    · intro hsame rule hrule hothers
      cases hread : grantOf trinoUser verificationCatalog rule with
      | none =>
        right
        rw [hkept]
        exact List.mem_filter.mpr ⟨hrule, isKept_of_others hothers hread⟩
      | some grant =>
        left
        have hspells := grantOf_iff.mp hread
        obtain ⟨hend, hsame⟩ := hsame rule hrule grant hspells
        obtain ⟨grant', hget⟩ := hreads.complete rule hrule grant hread
        obtain ⟨other, hother, hread'⟩ := hreads.sound _ _ hget
        have hkey : keyOf grant' = keyOf grant := hreads.keyed _ _ hget
        obtain rfl : grant = grant' :=
          hsame other hother grant' (grantOf_iff.mp hread') (keyOf_eq_iff.mp hkey.symm)
        exact ⟨grant, hget, (says_iff hspells.2.1).mpr hend⟩
  · unfold NothingOverwritten
    simp only [ne_eq, keyOf_eq_iff]
  · intro grant grant'
    rw [keyOf_eq_iff]
    exact ⟨fun hplace hkey => (hplace hkey).2.2, fun hlevels hkey =>
      ⟨hkey.identity, hkey.catalog, hlevels hkey⟩⟩

end Losses

/-! ### A file with two rules for one place -/

/-- The file lets alice read a catalog, and below that write to it. -/
def readThenWrite : String :=
  "\x7b\"tables\": [\x7b\"user\": \"^alice$\", \"catalog\": \"^c$\", \"privileges\": [\"SELECT\"]\x7d, " ++
    "\x7b\"user\": \"^alice$\", \"catalog\": \"^c$\", \"privileges\": [\"INSERT\"]\x7d]\x7d"

/-- What its first rule says. -/
def aliceReads : GrantWrite :=
  { aliceWrites with
    privileges := aliceReadsSales.privileges
    privileges_ne := aliceReadsSales.privileges_ne }

theorem parseRules_readThenWrite : parseRules "rules.json" readThenWrite "apchi" "system" =
    .ok (Std.ExtTreeMap.insert ∅ (keyOf aliceWrites) aliceWrites, ∅, true) := by
  decide +kernel

theorem tablesOf_readThenWrite :
    tablesOf readThenWrite = [grantRule aliceReads, grantRule aliceWrites] := by
  decide +kernel

/-- The same on the schema that is named as an omitted one is written. -/
def aliceReadsStar : GrantWrite :=
  { aliceReads with
    schema := some ⟨"*", by decide, by decide, by decide⟩
    schema_of_table := by decide }

/-- The right to read is lost, and two grants of different places have one key. -/
theorem first_rule_is_lost :
    parseRules "rules.json" readThenWrite "apchi" "system" =
        .ok (Std.ExtTreeMap.insert ∅ (keyOf aliceWrites) aliceWrites, ∅, true) ∧
      ¬ EveryRuleRead "apchi" "system" (tablesOf readThenWrite)
        (Std.ExtTreeMap.insert ∅ (keyOf aliceWrites) aliceWrites) ∅ ∧
      keyOf aliceReads = keyOf aliceReadsStar ∧ aliceReads.schema ≠ aliceReadsStar.schema := by
  refine ⟨parseRules_readThenWrite, fun hall => ?_, by decide, by decide⟩
  rw [tablesOf_readThenWrite] at hall
  rcases hall (grantRule aliceReads) List.mem_cons_self ⟨by decide +kernel, by decide +kernel⟩ with
    ⟨grant, hget, hspelled⟩ | hkept
  · obtain rfl : aliceWrites = grant := by
      rw [Std.ExtTreeMap.getElem?_insert] at hget
      split at hget
      · exact Option.some.inj hget
      · simp at hget
    have hprivileges := hspelled "privileges"
    revert hprivileges
    decide
  · simp [Preserved.block] at hkept

/-- Of a file with one grant and one rule that is kept, nothing is lost. -/
theorem every_rule_is_read_readersFirst :
    EveryRuleRead "apchi" "system" (tablesOf readersFirst)
      (Std.ExtTreeMap.insert ∅ (keyOf aliceWrites) aliceWrites) (keep "tables" everyoneReads ∅) := by
  refine (every_rule_is_read_iff parseRules_readersFirst).1.mpr ?_
  have hrules : tablesOf readersFirst = [everyoneReads, grantRule aliceWrites] := by decide +kernel
  have honly : ∀ rule ∈ tablesOf readersFirst, ∀ grant,
      Spells "apchi" "system" rule grant → grant = aliceWrites := by
    intro rule hrule grant hspells
    have hread := grantOf_iff.mpr hspells
    rw [hrules] at hrule
    simp only [List.mem_cons, List.not_mem_nil, or_false] at hrule
    rcases hrule with rfl | rfl
    · have hnone : grantOf "apchi" "system" everyoneReads = none := by decide +kernel
      rw [hnone] at hread
      cases hread
    · exact (grantOf_grantRule.mp hread).1.symm
  intro rule hrule grant hspells
  obtain rfl := honly rule hrule grant hspells
  refine ⟨?_, fun other hother grant' hspells' _ => (honly other hother grant' hspells').symm⟩
  have hsame : Says rule aliceWrites := by
    have hread := grantOf_iff.mpr hspells
    rw [hrules] at hrule
    simp only [List.mem_cons, List.not_mem_nil, or_false] at hrule
    rcases hrule with rfl | rfl
    · have hnone : grantOf "apchi" "system" everyoneReads = none := by decide +kernel
      rw [hnone] at hread
      cases hread
    · exact fun _ => rfl
  exact (says_iff hspells.2.1).mp hsame

end Apchi.Permissions
