import Mathlib.Algebra.Order.BigOperators.Group.List
import Apchi.Permissions.Trino

/-!
# What staging grants does to access

Of all the grants of one identity only one is ever consulted for a table: the one with the least
key among those that cover it.  Everything staging does to access follows from that: a grant takes
from its identity what it does not name wherever it is the one consulted, and it is without effect
wherever another one is.
-/

namespace Apchi.Permissions

open Lib

variable {patterns : Patterns}

/-- The grant speaks of this access: it names the user and covers the table. -/
def concerns (access : Access) (grant : GrantWrite) : Bool :=
  access.user = grant.identity.text && covers grant access

/-- The grant consulted for an access: the first, in the order of the keys, that concerns it. -/
def consulted (grants : Grants) (access : Access) : Option GrantWrite :=
  (sortedGrants grants).find? (concerns access)

theorem applies_eq_concerns (patterns : Patterns) (access : Access) (grant : GrantWrite) :
    applies patterns access (grantRule grant) = concerns access grant := by
  rw [Bool.eq_iff_iff, applies_grantRule]
  simp [concerns]

/-- Being consulted is having the least key among the grants that concern the access. -/
theorem consulted_eq_some {grants : Grants} (h : Keyed grants) {access : Access}
    {grant : GrantWrite} :
    consulted grants access = some grant ↔
      grants[keyOf grant]? = some grant ∧ concerns access grant = true ∧
        ∀ other, grants[keyOf other]? = some other → concerns access other = true →
          keyOf grant ≤ keyOf other := by
  constructor
  · intro hfind
    refine ⟨(mem_sortedGrants h).mp (List.mem_of_find?_eq_some hfind),
      List.find?_some hfind, ?_⟩
    intro other hother hconcerns
    rcases find_least (sortedGrants_pairwise h) hfind ((mem_sortedGrants h).mpr hother)
      hconcerns with rfl | hlt
    · exact le_refl _
    · exact le_of_lt hlt
  · rintro ⟨hmem, hconcerns, hleast⟩
    cases hfind : consulted grants access with
    | none =>
        have := List.find?_eq_none.mp hfind grant ((mem_sortedGrants h).mpr hmem)
        exact absurd hconcerns this
    | some first =>
        have hfirst := (mem_sortedGrants h).mp (List.mem_of_find?_eq_some hfind)
        rcases find_least (sortedGrants_pairwise h) hfind ((mem_sortedGrants h).mpr hmem)
          hconcerns with rfl | hlt
        · rfl
        · exact absurd (hleast first hfirst (List.find?_some hfind)) (not_le.mpr hlt)

/-- What a rendered file decides for anyone but Apchi: the grant consulted, if there is one, and
otherwise the rules kept and the catch-all. -/
theorem tablesDecision_tableRules (trinoUser : String) (grants : Grants)
    (verificationCatalog : String) (enforced : Bool) (preserved : Preserved) {access : Access}
    (huser : access.user ≠ trinoUser) :
    tablesDecision patterns access
        (tableRules trinoUser grants verificationCatalog enforced preserved) =
      match consulted grants access with
      | some grant => decide (access.privilege ∈ grant.privileges)
      | none => tablesDecision patterns access
          (preserved.block "tables" ++ if enforced then [] else [catchAll]) := by
  rw [tablesDecision, tableRules, decision_cons_of_not _ (applies_reserved huser)]
  have hfind : ((sortedGrants grants).map grantRule).find? (applies patterns access) =
      (consulted grants access).map grantRule := by
    rw [List.find?_map, consulted]
    congr 2
    funext grant
    exact applies_eq_concerns patterns access grant
  cases hconsulted : consulted grants access with
  | some grant =>
      rw [hconsulted] at hfind
      rw [decision_append_of_find _ hfind, Bool.eq_iff_iff, allows_grantRule]
      simp
  | none =>
      rw [hconsulted, Option.map_none, List.find?_eq_none] at hfind
      rw [decision_append_of_none _ fun rule hrule => by simpa using hfind rule hrule,
        tablesDecision]

/-! ### Staging and revocation -/

/-- **When staging revokes nothing.**  While permissions are not enforced, the grants leave every
access as it was exactly when every grant that is consulted somewhere names every privilege its
identity had there: what it leaves out, the rules kept already denied. -/
theorem staging_revokes_nothing_iff (patterns : Patterns) (trinoUser verificationCatalog : String)
    (preserved : Preserved) {grants : Grants} (h : Staged grants) :
    (∀ access : Access, access.user ≠ trinoUser →
      tablesAllow patterns (renderRules trinoUser ∅ verificationCatalog false preserved) access =
        true →
      tablesAllow patterns (renderRules trinoUser grants verificationCatalog false preserved)
        access = true) ↔
    ∀ (grant : GrantWrite) (access : Access), consulted grants access = some grant →
      grant.identity.text ≠ trinoUser → access.privilege ∉ grant.privileges →
      tablesDecision patterns access (preserved.block "tables" ++ [catchAll]) = false := by
  have hempty : ∀ access, consulted ∅ access = none := fun access => rfl
  have hidentity : ∀ {grant : GrantWrite} {access : Access},
      consulted grants access = some grant → access.user = grant.identity.text := by
    intro grant access hconsulted
    have := ((consulted_eq_some h.keyed).mp hconsulted).2.1
    simp only [concerns, Bool.and_eq_true, decide_eq_true_eq] at this
    exact this.1
  simp only [tablesAllow_renderRules]
  constructor
  · intro hall grant access hconsulted hgrant hmissing
    have huser : access.user ≠ trinoUser := hidentity hconsulted ▸ hgrant
    have hafter := hall access huser
    rw [tablesDecision_tableRules _ _ _ _ _ huser, tablesDecision_tableRules _ _ _ _ _ huser,
      hempty, hconsulted] at hafter
    by_contra hallowed
    rw [Bool.not_eq_false] at hallowed
    exact hmissing (by simpa using hafter hallowed)
  · intro hcondition access huser hbefore
    rw [tablesDecision_tableRules _ _ _ _ _ huser] at hbefore ⊢
    rw [hempty] at hbefore
    cases hconsulted : consulted grants access with
    | none => exact hbefore
    | some grant =>
        by_contra hdenied
        simp only [decide_eq_true_eq] at hdenied
        have := hcondition grant access hconsulted (hidentity hconsulted ▸ huser) hdenied
        simp only [Bool.false_eq_true, if_false] at hbefore
        rw [this] at hbefore
        cases hbefore

/-- A grant of `SELECT` on a catalog. -/
def aliceReadsSales : GrantWrite where
  identity := ⟨"alice", by decide, by decide, by decide⟩
  catalog := ⟨"sales", by decide, by decide, by decide⟩
  schema := none
  table := none
  privileges := [.select]
  privileges_ne := by decide
  schema_of_table := by decide

/-- A grant of `INSERT` on one of its schemas. -/
def aliceWritesReporting : GrantWrite where
  identity := ⟨"alice", by decide, by decide, by decide⟩
  catalog := ⟨"sales", by decide, by decide, by decide⟩
  schema := some ⟨"reporting", by decide, by decide, by decide⟩
  table := none
  privileges := [.insert]
  privileges_ne := by decide
  schema_of_table := by decide

/-- Writing to a table of that schema. -/
def aliceInserts : Access :=
  ⟨"alice", [], "sales", "reporting", "daily", .insert⟩

theorem staged_aliceReadsSales :
    Staged (Std.ExtTreeMap.insert ∅ (keyOf aliceReadsSales) aliceReadsSales) :=
  .add .empty (show addGrant ∅ aliceReadsSales = _ from rfl)

theorem staged_both :
    Staged (Std.ExtTreeMap.insert (Std.ExtTreeMap.insert ∅ (keyOf aliceReadsSales) aliceReadsSales)
      (keyOf aliceWritesReporting) aliceWritesReporting) :=
  .add staged_aliceReadsSales
    (show addGrant _ aliceWritesReporting = _ from if_neg (by decide))

/-- A grant to read takes the right to write away. -/
theorem staging_revokes_insert :
    Staged (Std.ExtTreeMap.insert ∅ (keyOf aliceReadsSales) aliceReadsSales) ∧
      tablesAllow Patterns.literal (renderRules "apchi" ∅ "system" false ∅) aliceInserts = true ∧
      tablesAllow Patterns.literal (renderRules "apchi"
        (Std.ExtTreeMap.insert ∅ (keyOf aliceReadsSales) aliceReadsSales) "system" false ∅)
        aliceInserts = false := by
  refine ⟨staged_aliceReadsSales, ?_, ?_⟩
  · rw [tablesAllow_renderRules]
    decide +kernel
  · rw [tablesAllow_renderRules]
    decide +kernel

theorem staging_revokes_nothing_iff_aliceReadsSales :
    ¬ ∀ (grant : GrantWrite) (access : Access),
      consulted (Std.ExtTreeMap.insert ∅ (keyOf aliceReadsSales) aliceReadsSales) access =
        some grant →
      grant.identity.text ≠ "apchi" → access.privilege ∉ grant.privileges →
      tablesDecision Patterns.literal access ((∅ : Preserved).block "tables" ++ [catchAll]) =
        false := by
  rw [← staging_revokes_nothing_iff Patterns.literal "apchi" "system" ∅ staged_aliceReadsSales]
  intro h
  have hafter := h aliceInserts (by decide) (by
    rw [tablesAllow_renderRules]
    decide +kernel)
  rw [tablesAllow_renderRules] at hafter
  revert hafter
  decide +kernel

/-! ### Grants without effect -/

theorem covers_iff {grant : GrantWrite} {access : Access} :
    covers grant access = true ↔
      grant.place <+: [access.catalog, access.schema, access.table] := by
  rw [covers, List.isPrefixOf_iff_prefix]

theorem concerns_iff {grant : GrantWrite} {access : Access} :
    concerns access grant = true ↔ access.user = grant.identity.text ∧
      grant.place <+: [access.catalog, access.schema, access.table] := by
  rw [concerns, Bool.and_eq_true, decide_eq_true_eq, covers_iff]

/-- There is always a name none of these is. -/
theorem exists_fresh (names : List String) : ∃ name, name ∉ names := by
  refine ⟨String.ofList (List.replicate ((names.map String.length).sum + 1) 'x'), fun hmem => ?_⟩
  have hle := List.le_sum_of_mem (List.mem_map_of_mem (f := String.length) hmem)
  simp at hle

/-- A prefix that avoids what is appended is a prefix of what it is appended to. -/
theorem prefix_of_prefix_append {place base : List String} (fresh : List String)
    (h : place <+: base ++ fresh) (hfresh : ∀ name ∈ fresh, name ∉ place) : place <+: base := by
  rcases List.prefix_or_prefix_of_prefix h (List.prefix_append base fresh) with h' | ⟨more, rfl⟩
  · exact h'
  · rw [List.prefix_append_right_inj] at h
    cases more with
    | nil => simp
    | cons name more =>
        obtain ⟨rest, rfl⟩ := h
        exact absurd (by simp) (hfresh name (by simp))

/-- Every place is completed by fresh names to a table that no narrower place leads to. -/
theorem exists_table (grants : Grants) (grant : GrantWrite) :
    ∃ catalog schema table, grant.place <+: [catalog, schema, table] ∧
      ∀ other ∈ sortedGrants grants, other.place <+: [catalog, schema, table] →
        other.place <+: grant.place := by
  obtain ⟨fresh, hfresh⟩ := exists_fresh ((sortedGrants grants).flatMap GrantWrite.place)
  have hnew : ∀ other ∈ sortedGrants grants, fresh ∉ other.place := fun other hother hmem =>
    hfresh (List.mem_flatMap.mpr ⟨other, hother, hmem⟩)
  cases hschema : grant.schema with
  | none =>
      have hplace : grant.place = [grant.catalog.text] := by simp [GrantWrite.place, hschema]
      refine ⟨grant.catalog.text, fresh, fresh, hplace ▸ ⟨[fresh, fresh], rfl⟩, ?_⟩
      intro other hother h
      rw [hplace]
      exact prefix_of_prefix_append [fresh, fresh] h (by simpa using hnew other hother)
  | some schema =>
      cases htable : grant.table with
      | none =>
          have hplace : grant.place = [grant.catalog.text, schema.text] := by
            simp [GrantWrite.place, hschema, htable]
          refine ⟨grant.catalog.text, schema.text, fresh, hplace ▸ ⟨[fresh], rfl⟩, ?_⟩
          intro other hother h
          rw [hplace]
          exact prefix_of_prefix_append [fresh] h (by simpa using hnew other hother)
      | some table =>
          have hplace : grant.place = [grant.catalog.text, schema.text, table.text] := by
            simp [GrantWrite.place, hschema, htable]
          exact ⟨_, _, _, hplace ▸ List.prefix_refl _, fun other _ h => hplace ▸ h⟩

/-- A grant's privileges reach its whole place when they are within those of every grant of the
same identity that is the first of that identity's to hold the narrower of their two places. -/
def Effective (grants : Grants) (grant : GrantWrite) : Prop :=
  ∀ other narrower : GrantWrite, grants[keyOf other]? = some other →
    other.identity = grant.identity → (narrower = grant ∨ narrower = other) →
    grant.place <+: narrower.place → other.place <+: narrower.place →
    (∀ third, grants[keyOf third]? = some third → third.identity = grant.identity →
      third.place <+: narrower.place → keyOf other ≤ keyOf third) →
    grant.privileges ⊆ other.privileges

/-- **When every staged grant takes effect.**  Whatever is enforced and whatever is kept, every
grant of someone other than Apchi allows what it names all over its place exactly when it is
effective: no grant of the same identity with a lesser key comes first there and names less. -/
theorem grants_take_effect_iff (patterns : Patterns) (trinoUser verificationCatalog : String)
    (enforced : Bool) (preserved : Preserved) {grants : Grants} (h : Staged grants) :
    (∀ grant : GrantWrite, grants[keyOf grant]? = some grant →
      grant.identity.text ≠ trinoUser → ∀ access : Access,
      access.user = grant.identity.text → covers grant access = true →
      access.privilege ∈ grant.privileges →
      tablesAllow patterns (renderRules trinoUser grants verificationCatalog enforced preserved)
        access = true) ↔
    ∀ grant : GrantWrite, grants[keyOf grant]? = some grant →
      grant.identity.text ≠ trinoUser → Effective grants grant := by
  simp only [tablesAllow_renderRules]
  constructor
  · intro hall grant hgrant hidentity other narrower hother hsame hnarrower hwide hwide' hleast
    have hnarrowerIdentity : narrower.identity = grant.identity := by
      rcases hnarrower with rfl | rfl
      · rfl
      · exact hsame
    have hmem {g : GrantWrite} : g ∈ sortedGrants grants ↔ grants[keyOf g]? = some g :=
      mem_sortedGrants h.keyed
    obtain ⟨catalog, schema, table, hinside, hfresh⟩ := exists_table grants narrower
    intro privilege hprivilege
    -- At a table that is in the narrower place and in no narrower one, `other` is consulted.
    let access : Access := ⟨grant.identity.text, [], catalog, schema, table, privilege⟩
    have huser : access.user ≠ trinoUser := hidentity
    have hconsulted : consulted grants access = some other := by
      refine (consulted_eq_some h.keyed).mpr ⟨hother, concerns_iff.mpr ?_, ?_⟩
      · exact ⟨by rw [hsame], hwide'.trans hinside⟩
      · intro third hthird hconcerns
        obtain ⟨hthirdUser, hthirdPlace⟩ := concerns_iff.mp hconcerns
        exact hleast third hthird (Name.ext hthirdUser.symm)
          (hfresh third (hmem.mpr hthird) hthirdPlace)
    have hallowed := hall grant hgrant hidentity access rfl
      (covers_iff.mpr (hwide.trans hinside)) hprivilege
    rw [tablesDecision_tableRules _ _ _ _ _ huser, hconsulted] at hallowed
    simpa using hallowed
  · intro heffective grant hgrant hidentity access huser hcovers hprivilege
    have hnotApchi : access.user ≠ trinoUser := huser ▸ hidentity
    have hconcerns : concerns access grant = true :=
      concerns_iff.mpr ⟨huser, covers_iff.mp hcovers⟩
    rw [tablesDecision_tableRules _ _ _ _ _ hnotApchi]
    cases hconsulted : consulted grants access with
    | none =>
        have := List.find?_eq_none.mp hconsulted grant ((mem_sortedGrants h.keyed).mpr hgrant)
        exact absurd hconcerns this
    | some other =>
        obtain ⟨hother, hotherConcerns, hleast⟩ := (consulted_eq_some h.keyed).mp hconsulted
        obtain ⟨hotherUser, hotherPlace⟩ := concerns_iff.mp hotherConcerns
        have hsame : other.identity = grant.identity := Name.ext (by rw [← hotherUser, huser])
        -- The two places lead to one table, so one of them is inside the other.
        obtain ⟨narrower, hnarrower, hwide, hwide'⟩ : ∃ narrower : GrantWrite,
            (narrower = grant ∨ narrower = other) ∧ grant.place <+: narrower.place ∧
              other.place <+: narrower.place := by
          rcases List.prefix_or_prefix_of_prefix (covers_iff.mp hcovers) hotherPlace with hle | hle
          · exact ⟨other, Or.inr rfl, hle, List.prefix_refl _⟩
          · exact ⟨grant, Or.inl rfl, List.prefix_refl _, hle⟩
        have hnarrowerPlace : narrower.place <+: [access.catalog, access.schema, access.table] := by
          rcases hnarrower with rfl | rfl
          · exact covers_iff.mp hcovers
          · exact hotherPlace
        have hsubset := heffective grant hgrant hidentity other narrower hother hsame hnarrower
          hwide hwide' fun third hthird hthirdIdentity hthirdPlace =>
            hleast third hthird (concerns_iff.mpr
              ⟨by rw [hthirdIdentity, huser], hthirdPlace.trans hnarrowerPlace⟩)
        simpa using hsubset hprivilege

/-- The grant on the schema is shadowed by the one on the whole catalog. -/
theorem grant_without_effect :
    Staged (Std.ExtTreeMap.insert
        (Std.ExtTreeMap.insert ∅ (keyOf aliceReadsSales) aliceReadsSales)
        (keyOf aliceWritesReporting) aliceWritesReporting) ∧
      covers aliceWritesReporting aliceInserts = true ∧
      aliceInserts.privilege ∈ aliceWritesReporting.privileges ∧
      tablesAllow Patterns.literal (renderRules "apchi" (Std.ExtTreeMap.insert
        (Std.ExtTreeMap.insert ∅ (keyOf aliceReadsSales) aliceReadsSales)
        (keyOf aliceWritesReporting) aliceWritesReporting) "system" false ∅) aliceInserts =
        false := by
  refine ⟨staged_both, by decide, by decide, ?_⟩
  rw [tablesAllow_renderRules]
  decide +kernel

theorem grants_take_effect_iff_aliceReadsSales :
    Staged (Std.ExtTreeMap.insert ∅ (keyOf aliceReadsSales) aliceReadsSales) ∧
    ∀ grant : GrantWrite,
      (Std.ExtTreeMap.insert ∅ (keyOf aliceReadsSales) aliceReadsSales : Grants)[keyOf grant]? =
        some grant →
      grant.identity.text ≠ "apchi" → ∀ access : Access,
      access.user = grant.identity.text → covers grant access = true →
      access.privilege ∈ grant.privileges →
      tablesAllow Patterns.literal (renderRules "apchi"
        (Std.ExtTreeMap.insert ∅ (keyOf aliceReadsSales) aliceReadsSales) "system" true ∅) access =
        true := by
  have honly : ∀ grant : GrantWrite,
      (Std.ExtTreeMap.insert ∅ (keyOf aliceReadsSales) aliceReadsSales : Grants)[keyOf grant]? =
        some grant → grant = aliceReadsSales := by
    intro grant hgrant
    rw [Std.ExtTreeMap.getElem?_insert] at hgrant
    split at hgrant
    · exact (Option.some.inj hgrant).symm
    · simp at hgrant
  refine ⟨staged_aliceReadsSales, ?_⟩
  rw [grants_take_effect_iff Patterns.literal "apchi" "system" true ∅ staged_aliceReadsSales]
  intro grant hgrant _ other narrower hother _ _ _ _ _
  rw [honly grant hgrant, honly other hother]
  exact List.Subset.refl _

end Apchi.Permissions
