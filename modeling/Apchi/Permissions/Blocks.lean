import Apchi.Lib.Codec
import Apchi.Permissions.Adoption

/-!
# What adopting a file does to its other blocks

The `catalogs` block Apchi renders begins with its own rule and ends with a rule for everyone, with
what the file said in between; a block Apchi does not model is rendered as it was read.  So access to
a catalog is what it was where some rule of the file decided it, and where no rule is moved ahead of
one for everyone that disagrees with it; and a block is there again if there was a rule in it.
-/

namespace Apchi.Permissions

open Lib

/-- A block of a file, if the file has it. -/
def blockOf (block content : String) : Option (List Rule) :=
  match readDocument "" content with
  | .ok document =>
      if document.fields.any fun field => field.1 == block then
        (rulesIn "" document block).toOption
      else none
  | .error _ => none

/-! ### What Trino decides from the `catalogs` block -/

/-- What a user may do with a catalog. -/
inductive AccessMode where
  | none
  | readOnly
  | all
  | owner
  deriving DecidableEq, Repr

/-- An access mode as a rule spells it. -/
def AccessMode.ofJson : Json → Option AccessMode
  | .bool true | .str "all" => some .all
  | .bool false | .str "none" => some .none
  | .str "read-only" => some .readOnly
  | .str "owner" => some .owner
  | _ => Option.none

/-- The mode a rule gives, if it gives one. -/
def modeOf (rule : Rule) : Option AccessMode := (rule.get? "allow").bind AccessMode.ofJson

/-- A user looking at a catalog. -/
structure CatalogRequest where
  user : String
  groups : List String
  roles : List String
  catalog : String

variable (patterns : Patterns)

/-- The role field matches one of the user's roles, if it is there at all. -/
def roleMatches (rule : Rule) (roles : List String) : Bool :=
  match carried rule "role" with
  | none => true
  | some pattern => roles.any (patterns.fullMatch pattern)

/-- All the fields a rule of the `catalogs` block carries match. -/
def concernsCatalog (request : CatalogRequest) (rule : Rule) : Bool :=
  fieldMatches patterns rule "user" request.user && roleMatches patterns rule request.roles &&
    groupMatches patterns rule request.groups && fieldMatches patterns rule "catalog" request.catalog

/-- What a `catalogs` block decides: the first match, and nothing where there is none. -/
def modeIn (request : CatalogRequest) (rules : List Rule) : Option AccessMode :=
  (rules.find? (concernsCatalog patterns request)).elim (some .none) modeOf

/-- What a file decides: everything is allowed where it has no such block. -/
def catalogMode (content : String) (request : CatalogRequest) : Option AccessMode :=
  match blockOf "catalogs" content with
  | some rules => modeIn patterns request rules
  | none => some .all

/-! ### The rules Apchi writes -/

variable {patterns} {request : CatalogRequest} {trinoUser : String}

/-- A rule read as Apchi's own speaks of Apchi only. -/
theorem concernsCatalog_of_owner {rule : Rule} (h : rule.sameAs (catalogOwner trinoUser) = true)
    (huser : request.user ≠ trinoUser) : concernsCatalog patterns request rule = false := by
  have hget : rule.get? "user" = some (.str (anchored trinoUser)) :=
    get_of_sameAs h (by simp [catalogOwner])
  have hmatch : patterns.fullMatch (.str (anchored trinoUser)) request.user = false := by
    rw [Bool.eq_false_iff, ne_eq, patterns.anchored_iff]
    exact huser
  simp [concernsCatalog, fieldMatches, carried, hget, hmatch]

/-- A rule read as the one for everyone is for everyone, and allows everything. -/
theorem concernsCatalog_of_catchAll {rule : Rule} (h : rule.sameAs catalogCatchAll = true) :
    concernsCatalog patterns request rule = true ∧ modeOf rule = some .all := by
  have hget : rule.get? "allow" = some (.str "all") := get_of_sameAs h (by simp [catalogCatchAll])
  have hother := get_of_sameAs_single h rfl
  constructor
  · simp [concernsCatalog, fieldMatches, roleMatches, groupMatches, carried, hother]
  · simp [modeOf, hget, AccessMode.ofJson]

/-- A rule of the `catalogs` block that is read as neither of Apchi's. -/
def isKeptCatalog (trinoUser : String) (rule : Rule) : Bool :=
  !(rule.sameAs (catalogOwner trinoUser) || rule.sameAs catalogCatchAll)

/-- The rules kept decide, and everything is allowed beneath them. -/
theorem modeIn_rendered (kept : List Rule) (huser : request.user ≠ trinoUser) :
    modeIn patterns request (catalogOwner trinoUser :: (kept ++ [catalogCatchAll])) =
      (kept.find? (concernsCatalog patterns request)).elim (some .all) modeOf := by
  have howner : concernsCatalog patterns request (catalogOwner trinoUser) = false :=
    concernsCatalog_of_owner (by simp [Rule.sameAs, Rule.get?, catalogOwner, List.lookup_cons]) huser
  obtain ⟨hcatchAll, hmode⟩ : concernsCatalog patterns request catalogCatchAll = true ∧
      modeOf catalogCatchAll = some .all := concernsCatalog_of_catchAll (by decide)
  rw [modeIn, List.find?_cons, howner, List.find?_append]
  cases kept.find? (concernsCatalog patterns request) with
  | some rule => rfl
  | none => simp [hcatchAll, hmode]

/-- The block decides the request, and if a rule for everyone does, no rule beneath it that would be
kept disagrees. -/
def DecidedThere (patterns : Patterns) (trinoUser : String) (request : CatalogRequest)
    (rules : List Rule) : Prop :=
  ∃ first, rules.find? (concernsCatalog patterns request) = some first ∧
    (first.sameAs catalogCatchAll = true → ∀ rule,
      (rules.filter (isKeptCatalog trinoUser)).find? (concernsCatalog patterns request) = some rule →
        modeOf rule = some .all)

/-- A `catalogs` block decides as it did exactly where it decided, and no rule beneath one for
everyone disagrees with it. -/
theorem modeIn_kept_iff (rules : List Rule) (huser : request.user ≠ trinoUser) :
    modeIn patterns request
        (catalogOwner trinoUser :: (rules.filter (isKeptCatalog trinoUser) ++ [catalogCatchAll])) =
      modeIn patterns request rules ↔ DecidedThere patterns trinoUser request rules := by
  rw [modeIn_rendered _ huser, modeIn, DecidedThere]
  cases hfirst : rules.find? (concernsCatalog patterns request) with
  | none =>
    have hkept : (rules.filter (isKeptCatalog trinoUser)).find? (concernsCatalog patterns request) =
        none := by
      rw [List.find?_eq_none] at hfirst ⊢
      exact fun rule hrule => hfirst rule (List.mem_of_mem_filter hrule)
    simp [hkept]
  | some first =>
    have happlies : concernsCatalog patterns request first = true := List.find?_some hfirst
    by_cases hcatchAll : first.sameAs catalogCatchAll = true
    · obtain ⟨-, hmode⟩ : concernsCatalog patterns request first = true ∧ modeOf first = some .all :=
        concernsCatalog_of_catchAll hcatchAll
      cases (rules.filter (isKeptCatalog trinoUser)).find? (concernsCatalog patterns request) <;>
        simp [hcatchAll, hmode]
    · have howner : first.sameAs (catalogOwner trinoUser) = false := by
        by_contra howner
        rw [concernsCatalog_of_owner (by simpa using howner) huser] at happlies
        cases happlies
      have hkept := find_filter (isKeptCatalog trinoUser) hfirst
        (by simp [isKeptCatalog, howner, hcatchAll])
      simp [hkept, hcatchAll]

/-! ### What is read of a file -/

/-- A block is kept only with rules in it. -/
def NonEmpty (preserved : Preserved) : Prop :=
  ∀ (block : String) (rules : List Rule), preserved[block]? = some rules → rules ≠ []

theorem NonEmpty.keep {preserved : Preserved} (h : NonEmpty preserved) (block : String) (rule : Rule) :
    NonEmpty (keep block rule preserved) := by
  intro name rules hrules
  rw [Permissions.keep, Std.ExtTreeMap.getElem?_insert] at hrules
  split at hrules
  · obtain rfl := Option.some.inj hrules
    simp
  · exact h name rules hrules

theorem NonEmpty.getElem? {preserved : Preserved} (h : NonEmpty preserved) (block : String) :
    preserved[block]? =
      if preserved.block block = [] then none else some (preserved.block block) := by
  unfold Preserved.block
  cases hget : preserved[block]? with
  | none => simp
  | some rules => simp [h block rules hget]

/-- The rules kept of one block, one after the other. -/
theorem keep_rules {preserved : Preserved} (h : NonEmpty preserved) (block : String)
    (rules : List Rule) :
    NonEmpty (rules.foldl (fun preserved rule => keep block rule preserved) preserved) ∧
      ∀ name, (rules.foldl (fun preserved rule => keep block rule preserved) preserved).block name =
        preserved.block name ++ if block = name then rules else [] := by
  induction rules generalizing preserved with
  | nil => exact ⟨h, fun name => by simp⟩
  | cons rule rules ih =>
    obtain ⟨hnonempty, hblock⟩ := ih (h.keep block rule)
    refine ⟨hnonempty, fun name => ?_⟩
    rw [List.foldl_cons, hblock, block_keep]
    split <;> simp

/-- The `tables` block leaves the others empty. -/
theorem readTables_others (trinoUser verificationCatalog : String) (rules : List Rule) :
    NonEmpty (readTables trinoUser verificationCatalog rules).preserved ∧ ∀ block, block ≠ "tables" →
      (readTables trinoUser verificationCatalog rules).preserved.block block = [] := by
  have hstep (reading : Reading) (rule : Rule) (h : NonEmpty reading.preserved ∧
      ∀ block, block ≠ "tables" → reading.preserved.block block = []) :
      NonEmpty (takeTableRule trinoUser verificationCatalog reading rule).preserved ∧
        ∀ block, block ≠ "tables" →
          (takeTableRule trinoUser verificationCatalog reading rule).preserved.block block = [] := by
    unfold takeTableRule
    split
    · exact h
    · exact h
    · exact h
    · refine ⟨h.1.keep "tables" rule, fun block hblock => ?_⟩
      rw [block_keep, if_neg (Ne.symm hblock)]
      exact h.2 block hblock
  unfold readTables
  have hstart : NonEmpty (∅ : Preserved) ∧ ∀ block, block ≠ "tables" →
      (∅ : Preserved).block block = [] := by
    constructor
    · intro block rules hrules
      simp at hrules
    · intro block _
      simp [Preserved.block]
  generalize hreading : (⟨∅, ∅, true⟩ : Reading) = reading
  have hreadingPreserved : NonEmpty reading.preserved ∧ ∀ block, block ≠ "tables" →
      reading.preserved.block block = [] := hreading ▸ hstart
  clear hreading hstart
  induction rules generalizing reading with
  | nil => exact hreadingPreserved
  | cons rule rules ih => exact ih _ (hstep reading rule hreadingPreserved)

/-- The rules of a block that are no rules of Apchi's. -/
def keptOf (trinoUser : String) (grants : Grants) (block : String) (rules : List Rule) : List Rule :=
  rules.filter fun rule => !(owned trinoUser grants block).any rule.sameAs

/-- Block after block. -/
theorem takeBlocks_block {path : String} {document : Rule} {grants : Grants} {blocks : List String}
    (hnodup : blocks.Nodup) {start preserved : Preserved} (hstart : NonEmpty start)
    (h : blocks.foldlM (takeBlock path document trinoUser grants) start = .ok preserved) :
    NonEmpty preserved ∧
      (∀ block, block ∉ blocks → preserved.block block = start.block block) ∧
      ∀ block ∈ blocks, ∃ rules, rulesIn path document block = .ok rules ∧
        preserved.block block = start.block block ++ keptOf trinoUser grants block rules := by
  induction blocks generalizing start with
  | nil =>
    cases h
    exact ⟨hstart, fun _ _ => rfl, nofun⟩
  | cons block blocks ih =>
    obtain ⟨hnew, hnodup⟩ := List.nodup_cons.mp hnodup
    rw [List.foldlM_cons] at h
    cases htake : takeBlock path document trinoUser grants start block with
    | error reason =>
      rw [htake] at h
      cases h
    | ok next =>
      rw [htake] at h
      unfold takeBlock at htake
      cases hrules : rulesIn path document block with
      | error reason =>
        rw [hrules] at htake
        cases htake
      | ok rules =>
        rw [hrules] at htake
        obtain rfl : _ = next := Except.ok.inj htake
        obtain ⟨hnonempty, hblock⟩ :=
          keep_rules hstart block (keptOf trinoUser grants block rules)
        obtain ⟨hdone, hother, hin⟩ := ih hnodup hnonempty h
        refine ⟨hdone, fun name hname => ?_, fun name hname => ?_⟩
        · rw [hother name (List.not_mem_of_not_mem_cons hname)]
          exact (hblock name).trans (by
            rw [if_neg fun heq : block = name => hname (heq ▸ List.mem_cons_self), List.append_nil])
        · rcases List.mem_cons.mp hname with rfl | hname
          · refine ⟨rules, hrules, (hother _ hnew).trans ((hblock _).trans ?_)⟩
            rw [if_pos rfl]
          · obtain ⟨rules', hrules', hkept⟩ := hin name hname
            refine ⟨rules', hrules', hkept.trans ?_⟩
            congr 1
            exact (hblock name).trans (by
              rw [if_neg fun heq : block = name => hnew (heq ▸ hname), List.append_nil])

theorem nodup_otherBlocks (document : Rule) : (otherBlocks document).Nodup :=
  Std.ExtTreeSet.distinct_toList.imp fun hne heq =>
    hne (Std.LawfulEqCmp.compare_eq_iff_eq.mpr heq)

theorem mem_otherBlocks {document : Rule} {block : String} :
    block ∈ otherBlocks document ↔
      (document.fields.any fun field => field.1 == block) = true ∧ block ≠ "tables" := by
  simp [otherBlocks, and_comm]

/-- What a file's other blocks are read as: a block without rules of its own is not kept at all. -/
theorem parseRules_others {path content verificationCatalog : String} {grants : Grants}
    {preserved : Preserved} {enforced : Bool}
    (h : parseRules path content trinoUser verificationCatalog = .ok (grants, preserved, enforced)) :
    NonEmpty preserved ∧ ∀ block, block ≠ "tables" →
      preserved.block block = (blockOf block content).elim [] (keptOf trinoUser grants block) := by
  simp only [parseRules, bind, Except.bind] at h
  split at h
  · cases h
  next document hdocument =>
  split at h
  · cases h
  next rules hrules =>
  split at h
  · cases h
  next kept hkept =>
  obtain ⟨rfl, rfl, -⟩ : _ ∧ kept = preserved ∧ _ := by simpa [pure, Except.pure] using h
  obtain ⟨hnonempty, hothers⟩ := readTables_others trinoUser verificationCatalog rules
  obtain ⟨hdone, hout, hin⟩ := takeBlocks_block (nodup_otherBlocks document) hnonempty hkept
  refine ⟨hdone, fun block hblock => ?_⟩
  have hread := readDocument_path "" hdocument
  by_cases hmem : block ∈ otherBlocks document
  · obtain ⟨rules', hrules', hkept'⟩ := hin block hmem
    have hof : blockOf block content = some rules' := by
      simp only [blockOf, hread, (mem_otherBlocks.mp hmem).1, if_true, rulesIn_path "" hrules']
      rfl
    rw [hkept', hothers block hblock, hof]
    rfl
  · have hof : blockOf block content = none := by
      have hany : (document.fields.any fun field => field.1 == block) = false := by
        by_contra hany
        exact hmem (mem_otherBlocks.mpr ⟨by simpa using hany, hblock⟩)
      simp only [blockOf, hread, hany, Bool.false_eq_true, if_false]
    rw [hout block hmem, hothers block hblock, hof]
    rfl

/-! ### What a rendered file has -/

variable {grants : Grants} {verificationCatalog : String} {enforced : Bool} {preserved : Preserved}

/-- A rendered file has the blocks that were rendered. -/
theorem blockOf_of_mem {block : String} {rules : List Rule} (hmem : blockField block rules ∈
      renderFields trinoUser grants verificationCatalog enforced preserved) :
    blockOf block (renderRules trinoUser grants verificationCatalog enforced preserved) =
      some rules := by
  have hwf := wf_renderFields trinoUser grants verificationCatalog enforced preserved
  obtain ⟨document, hread, hfields⟩ := readDocument_of_loads ""
    (Json.loads_dumps_append hwf "\n" (by simp [Json.isSpace]))
  have hrules : rulesIn "" document block = .ok rules :=
    rulesIn_of_lookup (by rw [hfields]; exact lookup_of_mem (Json.wf_obj.mp hwf).1 hmem)
  have hany : (document.fields.any fun field => field.1 == block) = true := by
    rw [hfields]
    exact List.any_eq_true.mpr ⟨_, hmem, by simp [blockField]⟩
  rw [blockOf, renderRules, hread]
  simp only [hany, if_true, hrules]
  rfl

theorem blockOf_of_not_mem {block : String} (h : ∀ field ∈
      renderFields trinoUser grants verificationCatalog enforced preserved, field.1 ≠ block) :
    blockOf block (renderRules trinoUser grants verificationCatalog enforced preserved) = none := by
  have hwf := wf_renderFields trinoUser grants verificationCatalog enforced preserved
  obtain ⟨document, hread, hfields⟩ := readDocument_of_loads ""
    (Json.loads_dumps_append hwf "\n" (by simp [Json.isSpace]))
  have hany : (document.fields.any fun field => field.1 == block) = false := by
    rw [hfields, List.any_eq_false]
    exact fun field hfield => by simpa using h field hfield
  rw [blockOf, renderRules, hread]
  simp only [hany, Bool.false_eq_true, if_false]

/-- A block Apchi does not model is rendered as it was kept. -/
theorem blockOf_renderRules {block : String} (hblock : block ∉ generatedBlocks) :
    blockOf block (renderRules trinoUser grants verificationCatalog enforced preserved) =
      preserved[block]? := by
  have hgenerated {name : String} (hname : name ∈ generatedBlocks) : name ≠ block := fun heq =>
    hblock (heq ▸ hname)
  cases hget : preserved[block]? with
  | some rules =>
    refine blockOf_of_mem (List.mem_append_right _ (List.mem_map.mpr ⟨(block, rules), ?_, rfl⟩))
    exact List.mem_filter.mpr ⟨Std.ExtTreeMap.mem_toList_iff_getElem?_eq_some.mpr hget,
      by simpa using hblock⟩
  | none =>
    refine blockOf_of_not_mem fun field hfield => ?_
    rcases List.mem_append.mp hfield with hfield | hfield
    · simp only [List.mem_cons, List.not_mem_nil, or_false] at hfield
      rcases hfield with rfl | rfl | rfl | rfl <;>
        exact hgenerated (by simp [generatedBlocks, blockField])
    · obtain ⟨⟨name, rules⟩, hkept, rfl⟩ := List.mem_map.mp hfield
      rintro rfl
      have hsome := Std.ExtTreeMap.mem_toList_iff_getElem?_eq_some.mp (List.mem_of_mem_filter hkept)
      rw [blockField] at hget
      cases hsome.symm.trans hget

/-! ### Adoption -/

/-- A file that lets one user see the catalogs, and nobody impersonate anybody. -/
def onlyAlice : String :=
  "\x7b\"catalogs\": [\x7b\"user\": \"^alice$\", \"allow\": \"all\"\x7d], \"impersonation\": []\x7d"

def aliceSees : Rule := ⟨[("user", .str "^alice$"), ("allow", .str "all")], by simp⟩

theorem parseRules_onlyAlice : parseRules "rules.json" onlyAlice "apchi" "system" =
    .ok (∅, keep "catalogs" aliceSees ∅, true) := by
  decide +kernel

theorem blockOf_onlyAlice : blockOf "catalogs" onlyAlice = some [aliceSees] := by
  decide +kernel

end Apchi.Permissions
