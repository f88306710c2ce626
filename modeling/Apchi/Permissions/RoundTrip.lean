import Mathlib.Data.List.Induction
import Apchi.Permissions.Blocks

/-!
# Reading back what was rendered

A rendered file is Apchi's own rules, the grants, and the rules kept.  Apchi's own are recognised and
dropped and what was kept is kept again, so what is read back differs only by the grants that are not
recognised as such: one whose rule is Apchi's own, which is dropped, and one with a name that holds a
line break, which the reader's pattern does not span.
-/

namespace Apchi.Permissions

open Lib

/-! ### A grant's own rule -/

/-- The names a grant is written with. -/
def GrantWrite.names (grant : GrantWrite) : List Name :=
  grant.identity :: grant.catalog :: (grant.schema.toList ++ grant.table.toList)

/-- No name of the grant holds a line break. -/
def GrantWrite.OneLine (grant : GrantWrite) : Prop := ∀ name ∈ grant.names, '\n' ∉ name.text.toList

instance (grant : GrantWrite) : Decidable grant.OneLine :=
  inferInstanceAs (Decidable (∀ name ∈ grant.names, '\n' ∉ name.text.toList))

/-- The grant is what Apchi's own rule says: `SELECT` on the verification catalog for Apchi. -/
structure GrantWrite.Reserved (trinoUser verificationCatalog : String) (grant : GrantWrite) : Prop where
  identity : grant.identity.text = trinoUser
  catalog : grant.catalog.text = verificationCatalog
  schema : grant.schema = none
  table : grant.table = none
  privileges : grant.privileges = [.select]

/-- The reader's pattern finds the escaped name again where no line break is in it. -/
theorem unanchor_anchored (name : String) :
    unanchor (anchored name) = if '\n' ∈ name.toList then none else some (reEscape name) := by
  have hrest : (anchored name).toList = '^' :: (escapeName name.toList ++ ['$']) := by
    simp [anchored, reEscape]
  unfold unanchor
  rw [hrest]
  have hlast : (escapeName name.toList ++ ['$']).getLast? = some '$' := by simp
  simp only [hlast, Option.some.injEq, if_false, List.dropLast_concat,
    show ('$' = '\n') = False by decide, newline_mem_escapeName, true_and]
  by_cases hline : '\n' ∈ name.toList
  · simp [hline]
  · simp [hline, unescapeName_escapeName hline, reEscape]

/-- A level of a grant's rule is read as it was written where no line break is in it. -/
theorem literalField_of_get {rule : Rule} {field : String} {level : Option Name}
    (h : rule.get? field = level.map fun name => .str (anchored name.text)) :
    literalField rule field =
      if ∃ name ∈ level, '\n' ∈ name.text.toList then none else some (level.map Name.text) := by
  unfold literalField
  rw [h]
  cases level with
  | none => simp
  | some name =>
    simp only [Option.map_some, unanchor_anchored, Option.mem_def, Option.some.injEq,
      exists_eq_left']
    by_cases hline : '\n' ∈ name.text.toList
    · simp [hline]
    · simp [hline, reUnescape_reEscape hline]

theorem asTexts_texts (values : List String) : asTexts (texts values) = some values := by
  unfold texts asTexts
  induction values with
  | nil => rfl
  | cons value values ih => simp_all

theorem mapM_ofText_text (privileges : List Privilege) :
    (privileges.map Privilege.text).mapM Privilege.ofText = some privileges := by
  induction privileges with
  | nil => rfl
  | cons privilege privileges ih => simp [Privilege.ofText_text, ih]

/-- A grant passes its own validation. -/
theorem GrantWrite.validate_self (grant : GrantWrite) :
    GrantWrite.validate grant.identity.text grant.catalog.text (grant.schema.map Name.text)
      (grant.table.map Name.text) (grant.privileges.map Privilege.text) = some grant := by
  have hlevel (level : Option Name) : optionalName (level.map Name.text) = some level := by
    cases level with
    | none => rfl
    | some name => simp [optionalName, Name.ofText_text]
  unfold GrantWrite.validate
  simp only [Name.ofText_text, hlevel, mapM_ofText_text, Option.bind_eq_bind, Option.bind_some]
  exact dif_pos ⟨grant.privileges_ne, grant.schema_of_table⟩

theorem grantFields_keys (grant : GrantWrite) :
    ((grantRule grant).fields.any fun field => field.1 ∉ grantKeys) = false := by
  simp only [grantRule, grantFields]
  cases grant.schema <;> cases grant.table <;> rfl

/-- A grant's rule is taken for the grant where no name of it holds a line break, and else for none. -/
theorem asGrant_grantRule (grant : GrantWrite) :
    asGrant (grantRule grant) = if grant.OneLine then some grant else none := by
  obtain ⟨huser, hcatalog, hschema, htable, hprivileges, -⟩ := grantRule_get grant
  have huser' := @literalField_of_get _ _ (some grant.identity) huser
  have hcatalog' := @literalField_of_get _ _ (some grant.catalog) hcatalog
  have hschema' := literalField_of_get hschema
  have htable' := literalField_of_get htable
  simp only [Option.mem_def, Option.some.injEq, exists_eq_left', Option.map_some] at huser' hcatalog'
  have hline : grant.OneLine ↔ '\n' ∉ grant.identity.text.toList ∧
      '\n' ∉ grant.catalog.text.toList ∧
      (¬ ∃ name ∈ grant.schema, '\n' ∈ name.text.toList) ∧
      ¬ ∃ name ∈ grant.table, '\n' ∈ name.text.toList := by
    simp [GrantWrite.OneLine, GrantWrite.names, or_imp, forall_and]
  unfold asGrant
  simp only [grantFields_keys, Bool.false_eq_true, if_false, huser', hcatalog', hschema', htable',
    hprivileges, asTexts_texts, Option.bind_eq_bind, Option.bind_some]
  by_cases h : grant.OneLine
  · obtain ⟨hi, hc, hs, ht⟩ := hline.mp h
    simp only [h, hi, hc, hs, ht, if_true, if_false, Option.bind_some]
    exact grant.validate_self
  · rw [if_neg h]
    rw [hline] at h
    by_cases hi : '\n' ∈ grant.identity.text.toList
    · simp [hi]
    by_cases hc : '\n' ∈ grant.catalog.text.toList
    · simp [hi, hc]
    by_cases hs : ∃ name ∈ grant.schema, '\n' ∈ name.text.toList
    · simp only [hi, hc, hs, if_true, if_false, Option.bind_some, Option.bind_none]
    by_cases ht : ∃ name ∈ grant.table, '\n' ∈ name.text.toList
    · simp only [hi, hc, hs, ht, if_true, if_false, Option.bind_some, Option.bind_none]
    · exact absurd ⟨hi, hc, hs, ht⟩ h

/-! ### Apchi's own rules are recognised -/

theorem Rule.sameAs_refl (rule : Rule) : rule.sameAs rule = true := by
  simp only [Rule.sameAs, beq_self_eq_true, Bool.true_and, List.all_eq_true, beq_iff_eq]
  intro field hfield
  exact lookup_of_mem (Json.wf_obj.mp rule.wf).1 hfield

theorem Rule.length_of_sameAs {rule other : Rule} (h : rule.sameAs other = true) :
    rule.fields.length = other.fields.length := by
  simp only [Rule.sameAs, Bool.and_eq_true, beq_iff_eq] at h
  exact h.1

theorem anchored_injective : Function.Injective anchored := by
  intro name name' h
  have hchars := congrArg String.toList h
  simp only [anchored, String.toList_append, List.append_cancel_right_eq,
    List.append_cancel_left_eq] at hchars
  exact reEscape_injective (String.toList_injective hchars)

theorem texts_injective : Function.Injective texts := by
  intro values values' h
  have hinjective : Function.Injective Json.str := fun _ _ heq => Json.str.inj heq
  exact hinjective.list_map (Json.arr.inj h)

/-- A grant's rule is Apchi's own where the grant is what Apchi's own rule says. -/
theorem sameAs_reserved_iff (trinoUser verificationCatalog : String) (grant : GrantWrite) :
    (grantRule grant).sameAs (reservedTableRule trinoUser verificationCatalog) = true ↔
      grant.Reserved trinoUser verificationCatalog := by
  obtain ⟨huser, hcatalog, -, -, hprivileges, -⟩ := grantRule_get grant
  constructor
  · intro h
    have huser' := huser.symm.trans (get_of_sameAs h List.mem_cons_self)
    have hcatalog' := hcatalog.symm.trans
      (get_of_sameAs h (List.mem_cons_of_mem _ List.mem_cons_self))
    have hprivileges' := hprivileges.symm.trans
      (get_of_sameAs h (List.mem_cons_of_mem _ (List.mem_cons_of_mem _ List.mem_cons_self)))
    have hlength := Rule.length_of_sameAs h
    simp only [grantRule, grantFields, reservedTableRule, List.length_append, List.length_map,
      List.length_cons, List.length_nil] at hlength
    refine ⟨anchored_injective (Json.str.inj (Option.some.inj huser')),
      anchored_injective (Json.str.inj (Option.some.inj hcatalog')), ?_, ?_, ?_⟩
    · cases hschema : grant.schema with
      | none => rfl
      | some schema =>
        simp only [hschema, Option.toList_some, List.length_cons] at hlength
        omega
    · cases htable : grant.table with
      | none => rfl
      | some table =>
        simp only [htable, Option.toList_some, List.length_cons] at hlength
        omega
    · exact Privilege.text_injective.list_map (texts_injective (Option.some.inj hprivileges'))
  · rintro ⟨rfl, rfl, hschema, htable, hprivileges⟩
    have hrule : grantRule grant =
        reservedTableRule grant.identity.text grant.catalog.text := by
      apply Rule.ext
      simp [grantRule, grantFields, reservedTableRule, hschema, htable, hprivileges, Privilege.text]
    rw [hrule]
    exact Rule.sameAs_refl _

theorem not_sameAs_catchAll {rule : Rule} (h : 1 < rule.fields.length) :
    rule.sameAs catchAll = false := by
  by_contra hsame
  have hlength := Rule.length_of_sameAs (by simpa using hsame)
  simp only [catchAll, List.length_cons, List.length_nil] at hlength
  omega

variable {trinoUser verificationCatalog : String}

/-- What the reader takes a grant's rule for. -/
theorem grantOf_grantRule {grant write : GrantWrite} :
    grantOf trinoUser verificationCatalog (grantRule grant) = some write ↔
      grant = write ∧ grant.OneLine ∧ ¬ grant.Reserved trinoUser verificationCatalog := by
  have hcatchAll : (grantRule grant).sameAs catchAll = false :=
    not_sameAs_catchAll (by simp [grantRule, grantFields])
  rw [grantOf_eq_some]
  unfold readTableRule
  simp only [hcatchAll, asGrant_grantRule, Bool.false_eq_true, if_false]
  by_cases hreserved : grant.Reserved trinoUser verificationCatalog
  · simp [(sameAs_reserved_iff ..).mpr hreserved, hreserved]
  · have hsame : (grantRule grant).sameAs (reservedTableRule trinoUser verificationCatalog) =
        false :=
      Bool.eq_false_iff.mpr fun h => hreserved ((sameAs_reserved_iff ..).mp h)
    by_cases hline : grant.OneLine
    · simp [hsame, hreserved, hline]
    · simp [hsame, hline]

theorem isCatchAll_grantRule (grant : GrantWrite) :
    isCatchAll trinoUser verificationCatalog (grantRule grant) = false := by
  have hcatchAll : (grantRule grant).sameAs catchAll = false :=
    not_sameAs_catchAll (by simp [grantRule, grantFields])
  by_contra h
  have hread := of_decide_eq_true (by simpa [isCatchAll] using h)
  have := readTableRule_cases trinoUser verificationCatalog (grantRule grant)
  rw [hread, hcatchAll] at this
  cases this

theorem readTableRule_reserved :
    readTableRule trinoUser verificationCatalog (reservedTableRule trinoUser verificationCatalog) =
      .reserved := by
  rw [readTableRule, if_pos (Rule.sameAs_refl _)]

theorem readTableRule_catchAll :
    readTableRule trinoUser verificationCatalog catchAll = .catchAll := by
  have hreserved : catchAll.sameAs (reservedTableRule trinoUser verificationCatalog) = false := by
    by_contra hsame
    cases Rule.length_of_sameAs (by simpa using hsame)
  rw [readTableRule, hreserved, if_neg (by simp), if_pos (Rule.sameAs_refl _)]

/-! ### What can be kept beside the grants -/

/-- Rules that are kept again when they are read with these grants: `tables` rules that are no grants
and none of Apchi's, and rules of other blocks that Apchi does not generate. -/
structure Keepable (trinoUser verificationCatalog : String) (grants : Grants)
    (preserved : Preserved) : Prop where
  nonEmpty : NonEmpty preserved
  tables : ∀ rule ∈ preserved.block "tables", isKept trinoUser verificationCatalog rule = true
  others : ∀ block, block ≠ "tables" → ∀ rule ∈ preserved.block block,
    (owned trinoUser grants block).any rule.sameAs = false

theorem keepable_empty (grants : Grants) :
    Keepable trinoUser verificationCatalog grants ∅ := by
  refine ⟨?_, ?_, ?_⟩
  · intro block rules h
    simp at h
  · simp [Preserved.block]
  · simp [Preserved.block]

/-- The rules of a file's `tables` block, an absent one being empty. -/
def tablesOf (content : String) : List Rule := (blockOf "tables" content).getD []

/-- What reading a file makes of its `tables` block. -/
theorem parseRules_reads {path content : String} {grants : Grants} {preserved : Preserved}
    {enforced : Bool}
    (h : parseRules path content trinoUser verificationCatalog = .ok (grants, preserved, enforced)) :
    Reads trinoUser verificationCatalog (tablesOf content) ⟨grants, preserved, enforced⟩ ∧
      grants = (readTables trinoUser verificationCatalog (tablesOf content)).grants := by
  simp only [parseRules, bind, Except.bind] at h
  split at h
  · cases h
  next document hdocument =>
  split at h
  · cases h
  next rules hrules =>
  split at h
  · cases h
  next kept hkept =>
  obtain ⟨rfl, rfl, rfl⟩ : _ ∧ kept = preserved ∧ _ := by simpa [pure, Except.pure] using h
  have hreads := reads_readTables trinoUser verificationCatalog rules
  obtain ⟨hnonempty, -⟩ := readTables_others trinoUser verificationCatalog rules
  obtain ⟨-, hout, -⟩ := takeBlocks_block (nodup_otherBlocks document) hnonempty hkept
  have htables : "tables" ∉ otherBlocks document := fun hmem => (mem_otherBlocks.mp hmem).2 rfl
  have hof : tablesOf content = rules := by
    have hread := readDocument_path "" hdocument
    unfold tablesOf blockOf
    simp only [hread, rulesIn_path "" hrules]
    split
    · rfl
    · next hany =>
      have hnone : document.fields.lookup "tables" = none := by
        rw [List.lookup_eq_none_iff]
        intro field hfield
        simp only [Bool.not_eq_true, List.any_eq_false, beq_iff_eq] at hany
        simpa using fun heq => hany field hfield heq.symm
      unfold rulesIn at hrules
      split at hrules
      · cases hrules
        rfl
      · simp_all
      · simp_all
  rw [hof]
  exact ⟨⟨hreads.keyed, hreads.sound, hreads.complete, (hout _ htables).trans hreads.kept,
    hreads.enforced⟩, rfl⟩

/-- What is kept of a file is kept again. -/
theorem keepable_of_parseRules {path content : String} {grants : Grants} {preserved : Preserved}
    {enforced : Bool}
    (h : parseRules path content trinoUser verificationCatalog = .ok (grants, preserved, enforced)) :
    Keepable trinoUser verificationCatalog grants preserved := by
  obtain ⟨hreads, -⟩ := parseRules_reads h
  obtain ⟨hnonempty, hothers⟩ := parseRules_others h
  refine ⟨hnonempty, fun rule hrule => ?_, fun block hblock rule hrule => ?_⟩
  · have hkept : preserved.block "tables" = _ := hreads.kept
    rw [hkept] at hrule
    exact (List.mem_filter.mp hrule).2
  · rw [hothers block hblock] at hrule
    cases hof : blockOf block content with
    | none =>
      rw [hof] at hrule
      cases hrule
    | some rules =>
      rw [hof] at hrule
      simpa using (List.mem_filter.mp hrule).2

/-! ### Reading a rendered file -/

section Rendered

variable {grants : Grants} {preserved : Preserved} {enforced : Bool}

theorem takeBlocks_ok {path : String} {document : Rule} {blocks : List String}
    (h : ∀ block ∈ blocks, ∃ rules, rulesIn path document block = .ok rules) (start : Preserved) :
    ∃ kept, blocks.foldlM (takeBlock path document trinoUser grants) start = .ok kept := by
  induction blocks generalizing start with
  | nil => exact ⟨start, rfl⟩
  | cons block blocks ih =>
    rw [List.forall_mem_cons] at h
    obtain ⟨rules, hrules⟩ := h.1
    rw [List.foldlM_cons, takeBlock, hrules]
    exact ih h.2 _

theorem mem_renderFields {field : String × Json}
    (h : field ∈ renderFields trinoUser grants verificationCatalog enforced preserved) :
    ∃ rules, field = blockField field.1 rules := by
  rcases List.mem_append.mp h with h | h
  · simp only [List.mem_cons, List.not_mem_nil, or_false] at h
    rcases h with rfl | rfl | rfl | rfl <;> exact ⟨_, rfl⟩
  · obtain ⟨⟨name, rules⟩, -, rfl⟩ := List.mem_map.mp h
    exact ⟨rules, rfl⟩

/-- A rendered file is never refused. -/
theorem parseRules_renderRules_ok (path trinoUser verificationCatalog : String) (grants : Grants)
    (enforced : Bool) (preserved : Preserved) :
    ∃ result, parseRules path
      (renderRules trinoUser grants verificationCatalog enforced preserved) trinoUser
      verificationCatalog = .ok result := by
  have hwf := wf_renderFields trinoUser grants verificationCatalog enforced preserved
  obtain ⟨document, hread, hfields⟩ := readDocument_of_loads path
    (Json.loads_dumps_append hwf "\n" (by simp [Json.isSpace]))
  have hin (field : String × Json) (hfield : field ∈ document.fields) :
      ∃ rules, rulesIn path document field.1 = .ok rules := by
    obtain ⟨rules, hrules⟩ := mem_renderFields (hfields ▸ hfield)
    refine ⟨rules, rulesIn_of_lookup (lookup_of_mem (Json.wf_obj.mp document.wf).1 ?_)⟩
    rw [hrules] at hfield
    exact hfield
  have hmem : blockField "tables" (tableRules trinoUser grants verificationCatalog enforced
      preserved) ∈ document.fields := by
    rw [hfields]
    exact List.mem_append_left _ (List.mem_cons_of_mem _ List.mem_cons_self)
  obtain ⟨rules, htables⟩ : ∃ rules, rulesIn path document "tables" = .ok rules := hin _ hmem
  have hothers : ∀ block ∈ otherBlocks document, ∃ rules, rulesIn path document block = .ok rules := by
    intro block hblock
    obtain ⟨field, hfield, hname⟩ := List.any_eq_true.mp (mem_otherBlocks.mp hblock).1
    exact (beq_iff_eq.mp hname) ▸ hin field hfield
  obtain ⟨kept, hkept⟩ : ∃ kept, (otherBlocks document).foldlM
      (takeBlock path document trinoUser (readTables trinoUser verificationCatalog rules).grants)
      (readTables trinoUser verificationCatalog rules).preserved = .ok kept :=
    takeBlocks_ok hothers _
  have hread' : readDocument path (renderRules trinoUser grants verificationCatalog enforced
      preserved) = .ok document := hread
  simp only [parseRules, hread', htables, hkept, bind, Except.bind]
  exact ⟨_, rfl⟩

/-- The only rules of a rendered `tables` block that are taken for grants are the grants' own. -/
theorem grantOf_tableRules (hkeyed : Keyed grants)
    (hkept : Keepable trinoUser verificationCatalog grants preserved) {rule : Rule}
    {write : GrantWrite}
    (hrule : rule ∈ tableRules trinoUser grants verificationCatalog enforced preserved)
    (h : grantOf trinoUser verificationCatalog rule = some write) :
    grants[keyOf write]? = some write ∧ write.OneLine ∧
      ¬ write.Reserved trinoUser verificationCatalog := by
  have hread := grantOf_eq_some.mp h
  rcases List.mem_cons.mp hrule with rfl | hrule
  · rw [readTableRule_reserved] at hread
    cases hread
  rcases List.mem_append.mp hrule with hrule | hrule
  · obtain ⟨grant, hgrant, rfl⟩ := List.mem_map.mp hrule
    obtain ⟨rfl, hline, hreserved⟩ := grantOf_grantRule.mp h
    exact ⟨(mem_sortedGrants hkeyed).mp hgrant, hline, hreserved⟩
  rcases List.mem_append.mp hrule with hrule | hrule
  · have hkeep := of_decide_eq_true (hkept.tables rule hrule)
    rw [hkeep] at hread
    cases hread
  · cases enforced with
    | true => cases hrule
    | false =>
      obtain rfl : rule = catchAll := by simpa using hrule
      rw [readTableRule_catchAll] at hread
      cases hread

/-- The rules kept of a rendered `tables` block. -/
theorem filter_isKept_tableRules (hkept : Keepable trinoUser verificationCatalog grants preserved)
    (hgrants : ∀ grant ∈ sortedGrants grants, grant.OneLine ∧
      ¬ grant.Reserved trinoUser verificationCatalog) :
    (tableRules trinoUser grants verificationCatalog enforced preserved).filter
      (isKept trinoUser verificationCatalog) = preserved.block "tables" := by
  have hreserved : isKept trinoUser verificationCatalog
      (reservedTableRule trinoUser verificationCatalog) = false := by
    simp [isKept, readTableRule_reserved]
  have hcatchAll : isKept trinoUser verificationCatalog catchAll = false := by
    simp [isKept, readTableRule_catchAll]
  have hnone : ((sortedGrants grants).map grantRule).filter
      (isKept trinoUser verificationCatalog) = [] := by
    rw [List.filter_eq_nil_iff]
    intro rule hrule
    obtain ⟨grant, hgrant, rfl⟩ := List.mem_map.mp hrule
    have hread := grantOf_eq_some.mp (grantOf_grantRule.mpr ⟨rfl, hgrants grant hgrant⟩)
    simp [isKept, hread]
  have hall : (preserved.block "tables").filter (isKept trinoUser verificationCatalog) =
      preserved.block "tables" := List.filter_eq_self.mpr hkept.tables
  rw [tableRules, List.filter_cons, hreserved, if_neg (by simp), List.filter_append, hnone,
    List.filter_append, hall]
  cases enforced <;> simp [hcatchAll]

theorem any_isCatchAll_tableRules (hkept : Keepable trinoUser verificationCatalog grants preserved) :
    (tableRules trinoUser grants verificationCatalog enforced preserved).any
      (isCatchAll trinoUser verificationCatalog) = !enforced := by
  have hreserved : isCatchAll trinoUser verificationCatalog
      (reservedTableRule trinoUser verificationCatalog) = false := by
    simp [isCatchAll, readTableRule_reserved]
  have hcatchAll : isCatchAll trinoUser verificationCatalog catchAll = true := by
    simp [isCatchAll, readTableRule_catchAll]
  have hgrants : ((sortedGrants grants).map grantRule).any
      (isCatchAll trinoUser verificationCatalog) = false := by
    rw [List.any_eq_false]
    intro rule hrule
    obtain ⟨grant, -, rfl⟩ := List.mem_map.mp hrule
    simp [isCatchAll_grantRule]
  have hall : (preserved.block "tables").any (isCatchAll trinoUser verificationCatalog) = false := by
    rw [List.any_eq_false]
    intro rule hrule
    have hkeep := of_decide_eq_true (hkept.tables rule hrule)
    simp [isCatchAll, hkeep]
  rw [tableRules, List.any_cons, hreserved, List.any_append, hgrants, List.any_append, hall]
  cases enforced <;> simp [hcatchAll]

theorem owned_self {rule : Rule} {rules : List Rule} (h : rule ∈ rules) :
    rules.any rule.sameAs = true :=
  List.any_eq_true.mpr ⟨rule, h, Rule.sameAs_refl rule⟩

theorem keptOf_append (grants : Grants) (block : String) (rules rules' : List Rule) :
    keptOf trinoUser grants block (rules ++ rules') =
      keptOf trinoUser grants block rules ++ keptOf trinoUser grants block rules' :=
  List.filter_append ..

/-- Of Apchi's own rules nothing is kept. -/
theorem keptOf_owned {block : String} {rules : List Rule}
    (h : ∀ rule ∈ rules, rule ∈ owned trinoUser grants block) :
    keptOf trinoUser grants block rules = [] := by
  rw [keptOf, List.filter_eq_nil_iff]
  intro rule hrule
  simp [owned_self (h rule hrule)]

theorem keptOf_kept (hkept : Keepable trinoUser verificationCatalog grants preserved) {block : String}
    (hblock : block ≠ "tables") :
    keptOf trinoUser grants block (preserved.block block) = preserved.block block := by
  rw [keptOf, List.filter_eq_self]
  intro rule hrule
  simp [hkept.others block hblock rule hrule]

/-- What is kept of a rendered block other than `tables` is what was kept. -/
theorem keptOf_rendered (hkept : Keepable trinoUser verificationCatalog grants preserved)
    {block : String} (hblock : block ≠ "tables") :
    (blockOf block (renderRules trinoUser grants verificationCatalog enforced preserved)).elim []
      (keptOf trinoUser grants block) = preserved.block block := by
  have hself := keptOf_kept hkept hblock
  by_cases hgenerated : block ∈ generatedBlocks
  · simp only [generatedBlocks, List.mem_cons, List.not_mem_nil, or_false] at hgenerated
    rcases hgenerated with rfl | rfl | rfl | rfl
    · rw [blockOf_of_mem (List.mem_append_left _ List.mem_cons_self), Option.elim_some,
        show catalogOwner trinoUser :: (preserved.block "catalogs" ++ [catalogCatchAll]) =
          [catalogOwner trinoUser] ++ (preserved.block "catalogs" ++ [catalogCatchAll]) from rfl,
        keptOf_append, keptOf_append, hself, keptOf_owned (by simp [owned]),
        keptOf_owned (by simp [owned])]
      simp
    · exact absurd rfl hblock
    · rw [blockOf_of_mem (List.mem_append_left _
          (List.mem_cons_of_mem _ (List.mem_cons_of_mem _ List.mem_cons_self))),
        Option.elim_some, keptOf_append, hself, keptOf_owned (by simp [owned]), List.nil_append]
    · rw [blockOf_of_mem (List.mem_append_left _ (List.mem_cons_of_mem _
          (List.mem_cons_of_mem _ (List.mem_cons_of_mem _ List.mem_cons_self)))),
        Option.elim_some, withPreservedQueries]
      have howned : owned trinoUser grants "queries" = queryRules trinoUser (identities grants) := rfl
      split
      · next hempty =>
        rw [keptOf_owned (by simp [howned]), hempty]
      · rw [keptOf_append, keptOf_append, hself, keptOf_owned fun rule hrule =>
            howned ▸ (List.dropLast_sublist _).subset hrule,
          keptOf_owned fun rule hrule => howned ▸ List.mem_of_getLast? (by simpa using hrule)]
        simp
  · rw [blockOf_renderRules hgenerated, hkept.nonEmpty.getElem?]
    split
    · next hempty => exact hempty.symm
    · exact hself

/-- **Reading a rendered file gives back what was rendered**, for rules that are kept again, exactly
where no grant is Apchi's own rule and no name holds a line break. -/
theorem parseRules_renderRules_iff (path : String) (hkeyed : Keyed grants)
    (hkept : Keepable trinoUser verificationCatalog grants preserved) :
    parseRules path (renderRules trinoUser grants verificationCatalog enforced preserved) trinoUser
        verificationCatalog = .ok (grants, preserved, enforced) ↔
      ∀ grant ∈ sortedGrants grants, grant.OneLine ∧
        ¬ grant.Reserved trinoUser verificationCatalog := by
  have hblock : tablesOf (renderRules trinoUser grants verificationCatalog enforced preserved) =
      tableRules trinoUser grants verificationCatalog enforced preserved := by
    rw [tablesOf, blockOf_of_mem (List.mem_append_left _
      (List.mem_cons_of_mem _ List.mem_cons_self)), Option.getD_some]
  constructor
  · intro h grant hgrant
    obtain ⟨hreads, -⟩ := parseRules_reads h
    rw [hblock] at hreads
    obtain ⟨rule, hrule, hread⟩ := hreads.sound _ _ ((mem_sortedGrants hkeyed).mp hgrant)
    exact (grantOf_tableRules hkeyed hkept hrule hread).2
  · intro hgrants
    obtain ⟨⟨grants', preserved', enforced'⟩, h⟩ := parseRules_renderRules_ok path trinoUser
      verificationCatalog grants enforced preserved
    obtain ⟨hreads, -⟩ := parseRules_reads h
    rw [hblock] at hreads
    have hback (key : String) (write : GrantWrite) (hget : grants'[key]? = some write) :
        grants[key]? = some write := by
      obtain ⟨rule, hrule, hread⟩ := hreads.sound key write hget
      rw [← hreads.keyed key write hget]
      exact (grantOf_tableRules hkeyed hkept hrule hread).1
    obtain rfl : grants' = grants := by
      refine Std.ExtTreeMap.ext_getElem? fun key => Option.ext fun write => ⟨hback key write, ?_⟩
      intro hget
      have hkey := hkeyed key write hget
      have hmem : write ∈ sortedGrants grants := (mem_sortedGrants hkeyed).mpr (hkey ▸ hget)
      have hrule : grantRule write ∈
          tableRules trinoUser grants verificationCatalog enforced preserved :=
        List.mem_cons_of_mem _ (List.mem_append_left _ (List.mem_map_of_mem hmem))
      obtain ⟨write', hget'⟩ := hreads.complete _ hrule write
        (grantOf_grantRule.mpr ⟨rfl, hgrants write hmem⟩)
      rw [hkey] at hget'
      rw [hget', ← Option.some.inj ((hback key write' hget').symm.trans hget)]
    obtain ⟨hnonempty, hothers⟩ := parseRules_others h
    have hpreserved : preserved' = preserved := by
      have hsame (block : String) : preserved'.block block = preserved.block block := by
        by_cases htables : block = "tables"
        · subst htables
          exact hreads.kept.trans (filter_isKept_tableRules hkept hgrants)
        · rw [hothers block htables]
          exact keptOf_rendered hkept htables
      refine Std.ExtTreeMap.ext_getElem? fun block => ?_
      rw [hnonempty.getElem?, hkept.nonEmpty.getElem?, hsame]
    have henforced : enforced' = enforced := by
      have hread : enforced' = _ := hreads.enforced
      rw [hread, any_isCatchAll_tableRules hkept, Bool.not_not]
    rw [h, hpreserved, henforced]

end Rendered

/-! ### The round trips -/

/-- What reading a file can leave beside these grants; without a file, nothing. -/
def Beside (trinoUser verificationCatalog : String) (grants : Grants) (preserved : Preserved) : Prop :=
  preserved = ∅ ∨ ∃ path content enforced,
    parseRules path content trinoUser verificationCatalog = .ok (grants, preserved, enforced)

/-- **Staged grants are read back as they were rendered** exactly where none of them is Apchi's own
rule and no name holds a line break. -/
theorem staged_round_trip_iff (path trinoUser verificationCatalog : String) (enforced : Bool)
    {grants : Grants} {preserved : Preserved} (h : Staged grants)
    (hbeside : Beside trinoUser verificationCatalog grants preserved) :
    parseRules path (renderRules trinoUser grants verificationCatalog enforced preserved) trinoUser
        verificationCatalog = .ok (grants, preserved, enforced) ↔
      ∀ grant, grants[keyOf grant]? = some grant →
        grant.OneLine ∧ ¬ grant.Reserved trinoUser verificationCatalog := by
  have hkept : Keepable trinoUser verificationCatalog grants preserved := by
    rcases hbeside with rfl | ⟨_, _, _, hparse⟩
    · exact keepable_empty grants
    · exact keepable_of_parseRules hparse
  rw [parseRules_renderRules_iff path h.keyed hkept]
  exact forall_congr' fun grant => by rw [mem_sortedGrants h.keyed]

/-- The grant that says what Apchi's own rule says. -/
def apchiReadsSystem : GrantWrite where
  identity := ⟨"apchi", by decide, by decide, by decide⟩
  catalog := ⟨"system", by decide, by decide, by decide⟩
  schema := none
  table := none
  privileges := aliceReadsSales.privileges
  privileges_ne := aliceReadsSales.privileges_ne
  schema_of_table := aliceReadsSales.schema_of_table

/-- A file that a reader takes for that grant: a line break behind the pattern is passed over. -/
def apchiWithLineBreak : String :=
  "\x7b\"tables\": [\x7b\"user\": \"^apchi$\\n\", \"catalog\": \"^system$\", " ++
    "\"privileges\": [\"SELECT\"]\x7d]\x7d"

def justApchi : Grants := Std.ExtTreeMap.insert ∅ (keyOf apchiReadsSystem) apchiReadsSystem

theorem staged_justApchi : Staged justApchi :=
  .add .empty (show addGrant ∅ apchiReadsSystem = _ from rfl)

theorem parseRules_apchiWithLineBreak :
    parseRules "rules.json" apchiWithLineBreak "apchi" "system" = .ok (justApchi, ∅, true) := by
  decide +kernel

theorem parseRules_justApchi :
    parseRules "rules.json" (renderRules "apchi" justApchi "system" true ∅) "apchi" "system" ≠
      .ok (justApchi, ∅, true) := by
  intro h
  have hkeyed : Keyed justApchi := staged_justApchi.keyed
  have hmem : apchiReadsSystem ∈ sortedGrants justApchi :=
    (mem_sortedGrants hkeyed).mpr (by simp [justApchi])
  exact ((parseRules_renderRules_iff "rules.json" hkeyed (keepable_empty justApchi)).mp h
    apchiReadsSystem hmem).2 ⟨rfl, rfl, rfl, rfl, rfl⟩

/-- A grant of one identity on one catalog is read back. -/
theorem staged_round_trip_aliceReadsSales :
    parseRules "rules.json" (renderRules "apchi"
        (Std.ExtTreeMap.insert ∅ (keyOf aliceReadsSales) aliceReadsSales) "system" true ∅) "apchi"
      "system" =
        .ok (Std.ExtTreeMap.insert ∅ (keyOf aliceReadsSales) aliceReadsSales, ∅, true) := by
  refine (staged_round_trip_iff "rules.json" "apchi" "system" true staged_aliceReadsSales
    (Or.inl rfl)).mpr fun grant hget => ?_
  obtain rfl : aliceReadsSales = grant := by
    rw [Std.ExtTreeMap.getElem?_insert] at hget
    split at hget
    · exact Option.some.inj hget
    · simp at hget
  exact ⟨by decide, fun hreserved => absurd hreserved.identity (by decide)⟩

/-- A grant that says what Apchi's own rule says is not read back. -/
theorem own_rule_staged_is_dropped :
    Staged justApchi ∧ Beside "apchi" "system" justApchi ∅ ∧
      parseRules "rules.json" (renderRules "apchi" justApchi "system" true ∅) "apchi" "system" ≠
        .ok (justApchi, ∅, true) := by
  exact ⟨staged_justApchi, Or.inr ⟨_, _, _, parseRules_apchiWithLineBreak⟩, parseRules_justApchi⟩

/-- The name behind a pattern holds no line break. -/
theorem newline_of_unanchor {pattern literal : String} (h : unanchor pattern = some literal) :
    '\n' ∉ (reUnescape literal).toList := by
  unfold unanchor at h
  split at h
  · simp only [Option.ite_none_right_eq_some, Option.some.injEq] at h
    obtain ⟨⟨-, hline, hescape⟩, rfl⟩ := h
    rw [← hescape, newline_mem_escapeName] at hline
    simpa [reUnescape] using hline
  · cases h

/-- What a rule is read as a grant for holds no line break. -/
theorem oneLine_of_asGrant {rule : Rule} {write : GrantWrite} (h : asGrant rule = some write) :
    write.OneLine := by
  have hlevel {field : String} {level : Option String} (hfield : literalField rule field = some level) :
      ∀ name ∈ level, '\n' ∉ name.toList := by
    intro name hname
    unfold literalField at hfield
    split at hfield
    · cases hfield
      cases hname
    · simp only [Option.map_eq_some_iff] at hfield
      obtain ⟨literal, hliteral, rfl⟩ := hfield
      obtain rfl := Option.some.inj hname
      exact newline_of_unanchor hliteral
    · cases hfield
  unfold asGrant at h
  split at h
  · cases h
  simp only [Option.bind_eq_bind, Option.bind_eq_some_iff] at h
  obtain ⟨_, hidentity, identity, rfl, _, hcatalog, catalog, rfl, schema, hschema, table, htable,
    value, hvalue, privileges, hprivileges, hvalidate⟩ := h
  obtain ⟨rfl, rfl, rfl, rfl, rfl⟩ := GrantWrite.validate_eq hvalidate
  intro name hname
  simp only [GrantWrite.names, List.mem_cons, List.mem_append, Option.mem_toList] at hname
  rcases hname with rfl | rfl | hname | hname
  · exact hlevel hidentity _ rfl
  · exact hlevel hcatalog _ rfl
  · exact hlevel hschema _ (by simp [Option.mem_def.mp hname])
  · exact hlevel htable _ (by simp [Option.mem_def.mp hname])

/-- The last of the rules that are taken for grants under a key. -/
def lastGrant (trinoUser verificationCatalog : String) (rules : List Rule) (key : String) :
    Option GrantWrite :=
  (rules.filterMap (grantOf trinoUser verificationCatalog)).reverse.find?
    fun grant => keyOf grant == key

theorem grants_takeTableRule (reading : Reading) (rule : Rule) :
    (takeTableRule trinoUser verificationCatalog reading rule).grants =
      match grantOf trinoUser verificationCatalog rule with
      | some write => reading.grants.insert (keyOf write) write
      | none => reading.grants := by
  unfold takeTableRule grantOf
  cases readTableRule trinoUser verificationCatalog rule <;> rfl

theorem lastGrant_concat (rules : List Rule) (rule : Rule) (key : String) :
    lastGrant trinoUser verificationCatalog (rules ++ [rule]) key =
      match grantOf trinoUser verificationCatalog rule with
      | some write => if keyOf write = key then some write
          else lastGrant trinoUser verificationCatalog rules key
      | none => lastGrant trinoUser verificationCatalog rules key := by
  unfold lastGrant
  rw [List.filterMap_append, List.reverse_append, List.find?_append]
  cases hrule : grantOf trinoUser verificationCatalog rule with
  | none => simp [hrule]
  | some write => by_cases hkey : keyOf write = key <;> simp [hrule, hkey]

/-- Of the rules for one key the last is the grant. -/
theorem grants_readTables (rules : List Rule) (key : String) :
    (readTables trinoUser verificationCatalog rules).grants[key]? =
      lastGrant trinoUser verificationCatalog rules key := by
  unfold readTables
  induction rules using List.reverseRecOn with
  | nil => simp [lastGrant]
  | append_singleton rules rule ih =>
    rw [List.foldl_append, List.foldl_cons, List.foldl_nil, grants_takeTableRule, lastGrant_concat]
    cases grantOf trinoUser verificationCatalog rule with
    | none => exact ih
    | some write =>
      dsimp only
      rw [Std.ExtTreeMap.getElem?_insert, ih]
      simp only [Std.LawfulEqCmp.compare_eq_iff_eq]

/-- **An adopted file is read again as it was read** exactly where no rule that is read as a grant of
what Apchi's own rule says is the last for its key. -/
theorem adopted_round_trip_iff {path content trinoUser verificationCatalog : String} {grants : Grants}
    {preserved : Preserved} {enforced : Bool}
    (h : parseRules path content trinoUser verificationCatalog = .ok (grants, preserved, enforced)) :
    parseRules path (renderRules trinoUser grants verificationCatalog enforced preserved) trinoUser
        verificationCatalog = .ok (grants, preserved, enforced) ↔
      ∀ grant, grant.Reserved trinoUser verificationCatalog →
        lastGrant trinoUser verificationCatalog (tablesOf content) (keyOf grant) ≠ some grant := by
  obtain ⟨hreads, hgrants⟩ := parseRules_reads h
  have hkeyed : Keyed grants := hreads.keyed
  rw [parseRules_renderRules_iff path hkeyed (keepable_of_parseRules h)]
  refine forall_congr' fun grant => ?_
  rw [mem_sortedGrants hkeyed, ← grants_readTables, ← hgrants]
  constructor
  · intro hstored hreserved hget
    exact (hstored hget).2 hreserved
  · intro hlast hget
    obtain ⟨rule, -, hrule⟩ := hreads.sound _ _ hget
    exact ⟨oneLine_of_asGrant (asGrant_of_grantOf hrule), fun hreserved => hlast hreserved hget⟩

/-- A file with one grant and one rule that is kept is read again as it was. -/
theorem adopted_round_trip_readersFirst :
    parseRules "rules.json" (renderRules "apchi"
        (Std.ExtTreeMap.insert ∅ (keyOf aliceWrites) aliceWrites) "system" true
        (keep "tables" everyoneReads ∅)) "apchi" "system" =
      .ok (Std.ExtTreeMap.insert ∅ (keyOf aliceWrites) aliceWrites, keep "tables" everyoneReads ∅,
        true) := by
  refine (adopted_round_trip_iff parseRules_readersFirst).mpr fun grant hreserved hlast => ?_
  have hrules : tablesOf readersFirst = [everyoneReads, grantRule aliceWrites] := by decide +kernel
  have hread : [everyoneReads, grantRule aliceWrites].filterMap (grantOf "apchi" "system") =
      [aliceWrites] := by
    decide +kernel
  unfold lastGrant at hlast
  rw [hrules, hread] at hlast
  obtain rfl : grant = aliceWrites := by simpa using List.mem_of_find?_eq_some hlast
  exact absurd hreserved.identity (by decide)

/-- The grant read past a line break is gone when the file Apchi renders is read. -/
theorem own_rule_adopted_is_dropped :
    parseRules "rules.json" apchiWithLineBreak "apchi" "system" = .ok (justApchi, ∅, true) ∧
      parseRules "rules.json" (renderRules "apchi" justApchi "system" true ∅) "apchi" "system" ≠
        .ok (justApchi, ∅, true) := by
  exact ⟨parseRules_apchiWithLineBreak, parseRules_justApchi⟩

end Apchi.Permissions
