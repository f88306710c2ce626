import Apchi.Pipeline.Store
import Apchi.ResourceGroups.Section

/-!
# Verifying where a query landed

Verification asks the Cluster which group its query ran in and compares that with the group the
selectors put it in, as Apchi reads them.  Apchi names the group of the first selector that matches as
it is written; Trino expands the bindings in it.  So where both read the patterns alike, a healthy
Cluster fails exactly where the expansion changes the group.
-/

namespace Apchi.ResourceGroups

open Lib Pipeline

/-! ### The checks over the whole Candidate -/

/-- `groups[path].get(field)`, as a condition. -/
def isSet (group : Json) (field : String) : Bool :=
  match group with
  | .obj fields =>
      match fields.lookup field with
      | none | some .null | some (.str "") => false
      | some _ => true
  | _ => false

/-- The groups with a CPU limit. -/
def limitedGroups (groups : Resources) : List String :=
  (groups.toList.filter fun group =>
    isSet group.2 "soft_cpu_limit" || isSet group.2 "hard_cpu_limit").map Prod.fst

/-- What is wrong with the group a selector names. -/
def targetFailure (groups : Resources) (index : Nat) (target : String) :
    Option ValidationFailure :=
  if target ∉ groups then
    some { sect := some .resourceGroups
           resource := some (SELECTORS ++ s!"[{index}]")
           reason := s!"names resource group '{target}', which is not configured." }
  else if childrenOf groups.keys target ≠ [] then
    some { sect := some .resourceGroups
           resource := some (SELECTORS ++ s!"[{index}]")
           reason := s!"names resource group '{target}', which has subgroups. Only a " ++
             "group with no subgroups accepts queries." }
  else none

/-- The failures of the selectors, in their order. -/
def selectorFailures (groups : Resources) : Nat → List Json → Except Error (List ValidationFailure)
  | _, [] => .ok []
  | index, raw :: rest => do
      let selector ← Selector.validate raw
      let others ← selectorFailures groups (index + 1) rest
      return (targetFailure groups index selector.group.text).toList ++ others

/-- `check`. -/
def check (desired : Resources) : Except Error (List ValidationFailure) := do
  let settings ← settingsOf desired
  let limits := if settings.cpuQuotaPeriod = none then
      (limitedGroups (groupsOf desired)).map fun path => ({
        sect := some .resourceGroups
        resource := some path
        reason := "sets a CPU limit, but no CPU quota period is configured. Trino " ++
          "refuses to start without one." } : ValidationFailure)
    else []
  match selectorsOf desired with
  | .arr selectors => do
      let failures ← selectorFailures (groupsOf desired) 0 selectors
      return limits ++ failures
  | _ => .error ⟨"TypeError", "expected a list"⟩

/-! ### Predicting the group -/

/-- Python's regular expressions: whether a pattern matches a value in full, where it compiles. -/
abbrev Python := (pattern value : String) → Option Bool

def unpredictable (why : String) : Error := ⟨"Unpredictable", why⟩

/-- `_matches`. -/
def matchesPattern (python : Python) (pattern value : String) : Except Error Bool :=
  match python pattern value with
  | some result => .ok result
  | none => .error (unpredictable s!"selector pattern '{pattern}' is not one Apchi can evaluate")

/-- A condition that may be left out. -/
def condition (python : Python) (pattern : Option String) (value : String) : Except Error Bool :=
  match pattern with
  | none => .ok true
  | some pattern => matchesPattern python pattern value

/-- The condition a selector makes that Apchi cannot know. -/
def unknowable (selector : Selector) : Option String :=
  if selector.userGroup.isSome then some "user_group"
  else if selector.authenticatedUser.isSome then some "authenticated_user"
  else if selector.originalUser.isSome then some "original_user"
  else none

/-- Whether a selector matches Verification's query, which is a `SELECT` without tags. -/
def considers (python : Python) (smoke : SmokeQuery) (selector : Selector) : Except Error Bool :=
  match unknowable selector with
  | some field => .error (unpredictable
      s!"a selector matches on {field}, which Apchi cannot know about its own query")
  | none => do
      if !(← condition python selector.user smoke.user) then return false
      if !(← condition python selector.source smoke.source) then return false
      if !(← condition python selector.queryText smoke.sql) then return false
      return (selector.queryType.getD .select = .select ∧ selector.clientTags.getD [] = [] : Bool)

/-- `group_for`: the group the first matching selector names. -/
def groupFor (python : Python) (smoke : SmokeQuery) : List Json → Except Error (Option String)
  | [] => .ok none
  | raw :: rest => do
      let selector ← Selector.validate raw
      if ← considers python smoke selector then return some selector.group.text
      else groupFor python smoke rest

/-! ### What the Cluster says -/

/-- `_literal`. -/
def literal (value : String) : String := "'" ++ value.replace "'" "''" ++ "'"

/-- The query for the group a query ran in. -/
def groupQuery (queryId : String) : String :=
  "SELECT resource_group_id FROM system.runtime.queries WHERE query_id = " ++ literal queryId

/-- One segment of a group's id. -/
def segmentIn : Json → Except Error String
  | .str segment => .ok segment
  | _ => .error ⟨"TypeError", "expected a text"⟩

/-- The segments of a group's id. -/
def segmentsIn : Json → Except Error (List String)
  | .arr segments => segments.mapM segmentIn
  | .str text => .ok (text.toList.map String.singleton)
  | _ => .error ⟨"TypeError", "expected a list"⟩

/-- The path in the first cell of an answer, unless there is none. -/
def groupIn : List (List Json) → Except Error (Option String)
  | [] => .ok none
  | [] :: _ => .error ⟨"IndexError", "list index out of range"⟩
  | (cell :: _) :: _ =>
      if cell ∈ [.null, .bool false, .int 0, .str "", .arr [], .obj []] then .ok none
      else do
        let segments ← segmentsIn cell
        return some (".".intercalate segments)

/-- `_group_of`: the group Trino filed a query under, as a dotted path. -/
def groupOf (queryId : String) : ClusterProg (Option String) := do
  let rows ← Prog.perform (.query (groupQuery queryId))
  Prog.ofExcept (groupIn rows)

/-- What is wrong with where a query ran. -/
def misfiled (expected : String) : Option String → List String
  | none => []
  | some reached =>
      if reached = expected then []
      else [s!"The verification query ran in resource group '{reached}', but the " ++
        s!"selectors put it in '{expected}'. The coordinator is not running the " ++
        "resource group configuration this Apply delivered."]

/-- `verify`. -/
def verify (python : Python) (desired : Resources) (smoke : SmokeQuery) :
    ClusterProg (List String) :=
  match selectorsOf desired with
  | .arr selectors =>
      if selectors.isEmpty then pure []
      else
        match groupFor python smoke selectors with
        | .ok (some expected) => do
            let reached ← groupOf smoke.queryId
            pure (misfiled expected reached)
        | .ok none => pure []
        | .error e => if e.kind = "Unpredictable" then pure [] else Prog.raise e
  | _ => Prog.raise ⟨"TypeError", "expected a list"⟩

/-! ### Where Trino files a query -/

/-- A segment of a template with its variables expanded. -/
def expandFrom (bindings : List (String × String)) : (fuel : Nat) → List Char → List Char
  | 0, text => text
  | _ + 1, [] => []
  | fuel + 1, '$' :: '{' :: text =>
      let name := text.takeWhile fun c => c ≠ '}'
      match text.drop name.length, bindings.lookup (String.ofList name) with
      | '}' :: text, some value => value.toList ++ expandFrom bindings fuel text
      | _, _ => '$' :: expandFrom bindings fuel ('{' :: text)
  | fuel + 1, c :: text => c :: expandFrom bindings fuel text

/-- The segments of a group's template, each expanded. -/
def expandGroup (bindings : List (String × String)) (group : GroupPath) : List String :=
  (group.text.toList.splitOn '.').map fun segment =>
    String.ofList (expandFrom bindings segment.length segment)

/-- Trino, as selectors see it: its regular expressions with the groups a match names, what the query
is, and which of the conditions on who the caller was hold. -/
structure Trino where
  fullMatch : (pattern value : String) → Option (List (String × String))
  queryType : QueryType
  clientTags : List String
  satisfies : (field pattern : String) → Bool

namespace Trino

/-- A condition on a text: what its match names. -/
def onText (trino : Trino) (pattern : Option String) (value : String) :
    Option (List (String × String)) :=
  match pattern with
  | none => some []
  | some pattern => trino.fullMatch pattern value

/-- A condition on who the caller was. -/
def onCaller (trino : Trino) (field : String) (pattern : Option String) : Bool :=
  pattern.all (trino.satisfies field)

/-- The conditions other than those on texts. -/
def otherwise (trino : Trino) (selector : Selector) : Bool :=
  trino.onCaller "userGroup" selector.userGroup &&
    trino.onCaller "authenticatedUser" selector.authenticatedUser &&
    trino.onCaller "originalUser" selector.originalUser &&
    selector.queryType.all (· = trino.queryType) &&
    selector.clientTags.all fun tags => tags.all (· ∈ trino.clientTags)

/-- What a selector that matches makes known to its group's template. -/
def bindings (trino : Trino) (smoke : SmokeQuery) (selector : Selector) :
    Option (List (String × String)) := do
  let user ← trino.onText selector.user smoke.user
  let source ← trino.onText selector.source smoke.source
  let _ ← trino.onText selector.queryText smoke.sql
  if trino.otherwise selector then
    some (("USER", smoke.user) :: ("SOURCE", smoke.source) :: (user ++ source))
  else none

/-- The group a query is filed under: that of the first selector that matches. -/
def filed (trino : Trino) (smoke : SmokeQuery) (selectors : List Selector) : Option (List String) :=
  selectors.findSome? fun selector =>
    (trino.bindings smoke selector).map fun bindings => expandGroup bindings selector.group

end Trino

/-! ### The prediction -/

/-- Apchi goes on past a selector that does not match. -/
def passesOver (python : Python) (smoke : SmokeQuery) (selector : Selector) : Bool :=
  match considers python smoke selector with
  | .ok false => true
  | _ => false

/-- The selector Apchi stops at: one that matches, or one it cannot evaluate. -/
def stopsAt (python : Python) (smoke : SmokeQuery) (selectors : List Selector) : Option Selector :=
  selectors.find? fun selector => !passesOver python smoke selector

section prediction

variable {python : Python} {smoke : SmokeQuery} {selectors : List Selector} {selector : Selector}

theorem passesOver_iff :
    passesOver python smoke selector = true ↔ considers python smoke selector = .ok false := by
  unfold passesOver
  split
  · next h => exact iff_of_true rfl h
  · next h => exact iff_of_false Bool.false_ne_true h

theorem groupFor_pass (h : considers python smoke selector = .ok false) (rest : List Json) :
    groupFor python smoke (.obj selector.dump :: rest) = groupFor python smoke rest := by
  rw [groupFor, Selector.validate_dump, ok_bind, h]
  rfl

theorem groupFor_stop (h : considers python smoke selector ≠ .ok false) (rest : List Json) :
    groupFor python smoke (.obj selector.dump :: rest) =
      (considers python smoke selector).map fun _ => some selector.group.text := by
  rw [groupFor, Selector.validate_dump, ok_bind]
  cases hconsiders : considers python smoke selector with
  | error e => rfl
  | ok found =>
    cases found with
    | true => rfl
    | false => exact absurd hconsiders h

theorem groupFor_of_none (h : stopsAt python smoke selectors = none) :
    groupFor python smoke (selectors.map fun selector => .obj selector.dump) = .ok none := by
  unfold stopsAt at h
  induction selectors with
  | nil => rfl
  | cons first rest ih =>
    obtain ⟨hfirst, hrest⟩ := List.forall_mem_cons.mp (List.find?_eq_none.mp h)
    have hpass : passesOver python smoke first = true := by simpa using hfirst
    rw [List.map_cons, groupFor_pass (passesOver_iff.mp hpass)]
    exact ih (List.find?_eq_none.mpr hrest)

theorem groupFor_of_some (h : stopsAt python smoke selectors = some selector) :
    groupFor python smoke (selectors.map fun selector => .obj selector.dump) =
      (considers python smoke selector).map fun _ => some selector.group.text := by
  unfold stopsAt at h
  induction selectors with
  | nil => cases h
  | cons first rest ih =>
    rw [List.find?_cons] at h
    cases hpass : passesOver python smoke first with
    | true =>
      rw [hpass] at h
      rw [List.map_cons, groupFor_pass (passesOver_iff.mp hpass)]
      exact ih h
    | false =>
      rw [hpass] at h
      cases h
      refine groupFor_stop (fun hfalse => ?_) _
      rw [passesOver_iff.mpr hfalse] at hpass
      cases hpass

theorem not_passesOver_of_stopsAt (h : stopsAt python smoke selectors = some selector) :
    considers python smoke selector ≠ .ok false := by
  intro hfalse
  have hstop := List.find?_some h
  rw [passesOver_iff.mpr hfalse] at hstop
  cases hstop

theorem condition_error {pattern : Option String} {value : String} {e : Error}
    (h : condition python pattern value = .error e) : e.kind = "Unpredictable" := by
  unfold condition matchesPattern at h
  split at h
  · cases h
  · split at h
    · cases h
    · cases h
      rfl

/-- What Apchi cannot evaluate is only that: unpredictable. -/
theorem considers_error {e : Error} (h : considers python smoke selector = .error e) :
    e.kind = "Unpredictable" := by
  unfold considers at h
  split at h
  · cases h
    rfl
  · cases huser : condition python selector.user smoke.user with
    | error e' =>
      rw [huser] at h
      cases h
      exact condition_error huser
    | ok user =>
      rw [huser, ok_bind] at h
      cases user with
      | false => cases h
      | true =>
        cases hsource : condition python selector.source smoke.source with
        | error e' =>
          rw [hsource] at h
          cases h
          exact condition_error hsource
        | ok source =>
          rw [hsource] at h
          cases source with
          | false => cases h
          | true =>
            cases htext : condition python selector.queryText smoke.sql with
            | error e' =>
              rw [htext] at h
              cases h
              exact condition_error htext
            | ok text =>
              rw [htext] at h
              cases text with
              | false => cases h
              | true => cases h

end prediction

/-! ### The verdict on a healthy Cluster -/

theorem expandGroup_ne_nil (bindings : List (String × String)) (group : GroupPath) :
    expandGroup bindings group ≠ [] := by
  intro h
  exact List.splitOn_ne_nil _ _ (List.map_eq_nil_iff.mp h)

theorem filed_ne_nil {trino : Trino} {smoke : SmokeQuery} {selectors : List Selector}
    {segments : List String} (h : trino.filed smoke selectors = some segments) : segments ≠ [] := by
  obtain ⟨_, _, _, _, hselector, _⟩ := List.findSome?_eq_some_iff.mp h
  obtain ⟨bindings, -, rfl⟩ := Option.map_eq_some_iff.mp hselector
  exact expandGroup_ne_nil _ _

/-- The answer for a query that was filed under a group. -/
theorem groupIn_segments {segments : List String} (h : segments ≠ []) :
    groupIn [[.arr (segments.map .str)]] = .ok (some (".".intercalate segments)) := by
  have hread : ∀ segments : List String,
      segmentsIn (.arr (segments.map .str)) = .ok segments := by
    intro segments
    show (segments.map Json.str).mapM segmentIn = .ok segments
    induction segments with
    | nil => rfl
    | cons segment rest ih =>
      rw [List.map_cons, List.mapM_cons, ih]
      rfl
  have htrue : Json.arr (segments.map .str) ∉
      [.null, .bool false, .int 0, .str "", .arr [], .obj []] := by
    simp [h]
  unfold groupIn
  dsimp only
  rw [if_neg htrue, hread]
  rfl

/-- Trino files the query under the group its selectors choose, and says so. -/
structure Filed (trino : Trino) (platform : Platform) (state : ClusterState) (smoke : SmokeQuery)
    (selectors : List Selector) (segments : List String) : Prop where
  chosen : trino.filed smoke selectors = some segments
  answer : platform.query state (groupQuery smoke.queryId) = .ok [[.arr (segments.map .str)]]

/-- Where the group chosen by Trino is, once its template is expanded, the one Apchi stops at. -/
def Foreseen (python : Python) (trino : Trino) (smoke : SmokeQuery) (selectors : List Selector) :
    Prop :=
  ∀ selector, stopsAt python smoke selectors = some selector →
    considers python smoke selector = .ok true →
      ∀ segments, trino.filed smoke selectors = some segments →
        ".".intercalate segments = selector.group.text

theorem misfiled_eq_nil {expected reached : String} :
    misfiled expected (some reached) = [] ↔ reached = expected := by
  unfold misfiled
  dsimp only
  split
  · next h => exact iff_of_true rfl h
  · next h => exact iff_of_false nofun h

theorem verify_run_iff {python : Python} {trino : Trino} {platform : Platform} {state : ClusterState}
    {smoke : SmokeQuery} {desired : Resources} {selectors : List Selector}
    (hselectors : selectorsOf desired = .arr (selectors.map fun selector => .obj selector.dump))
    (hfiled : selectors = [] ∨ ∃ segments, Filed trino platform state smoke selectors segments) :
    (verify python desired smoke).run (clusterMachine platform) state = (.ok [], state) ↔
      Foreseen python trino smoke selectors := by
  unfold verify
  rw [hselectors]
  by_cases hempty : selectors = []
  · rw [hempty]
    refine iff_of_true rfl ?_
    rintro _ ⟨⟩
  obtain ⟨segments, hchosen, hanswer⟩ := hfiled.resolve_left hempty
  dsimp only
  rw [if_neg (by simpa using hempty)]
  unfold Foreseen
  cases hstop : stopsAt python smoke selectors with
  | none =>
    rw [groupFor_of_none hstop]
    refine iff_of_true rfl ?_
    rintro _ ⟨⟩
  | some selector =>
    rw [groupFor_of_some hstop]
    cases hconsiders : considers python smoke selector with
    | error e =>
      refine iff_of_true ?_ ?_
      · rw [Except.map]
        dsimp only
        rw [if_pos (considers_error hconsiders)]
        rfl
      · rintro _ ⟨⟩ htrue
        rw [hconsiders] at htrue
        cases htrue
    | ok found =>
      cases found with
      | false => exact absurd hconsiders (not_passesOver_of_stopsAt hstop)
      | true =>
        rw [Except.map]
        dsimp only
        have hexec : (clusterMachine platform).exec (.query (groupQuery smoke.queryId)) state =
            (.ok [[.arr (segments.map .str)]], state) := by
          rw [← hanswer]
          rfl
        have hreached : (groupOf smoke.queryId).run (clusterMachine platform) state =
            (.ok (some (".".intercalate segments)), state) := by
          show ((Prog.perform (.query (groupQuery smoke.queryId))).bind fun rows =>
            Prog.ofExcept (groupIn rows)).run (clusterMachine platform) state = _
          rw [Prog.run_bind, Prog.run_perform, hexec]
          dsimp only
          rw [Prog.run_ofExcept, groupIn_segments (filed_ne_nil hchosen)]
        have hverdict : ((groupOf smoke.queryId).bind fun reached =>
            Prog.ret (misfiled selector.group.text reached)).run (clusterMachine platform) state =
              (.ok (misfiled selector.group.text (some (".".intercalate segments))), state) := by
          rw [Prog.run_bind, hreached]
          rfl
        refine (iff_of_eq (congrArg (· = (.ok [], state)) hverdict)).trans ?_
        constructor
        · intro h
          have hnil := Except.ok.inj (congrArg Prod.fst h)
          rintro _ ⟨⟩ - _ hother
          cases hchosen.symm.trans hother
          exact misfiled_eq_nil.mp hnil
        · intro h
          rw [misfiled_eq_nil.mpr (h selector rfl hconsiders segments hchosen)]

/-- Where both read patterns alike, and the query is the `SELECT` without tags that Apchi takes it
for. -/
structure Alike (python : Python) (trino : Trino) : Prop where
  patterns : ∀ pattern value result, python pattern value = some result →
    (trino.fullMatch pattern value).isSome = result
  queryType : trino.queryType = .select
  clientTags : trino.clientTags = []

/-- The group of the selector Apchi finds to match is left as it is by expanding it. -/
def Unexpanded (python : Python) (trino : Trino) (smoke : SmokeQuery) (selectors : List Selector) :
    Prop :=
  ∀ selector, stopsAt python smoke selectors = some selector →
    considers python smoke selector = .ok true →
      ∀ bindings, trino.bindings smoke selector = some bindings →
        ".".intercalate (expandGroup bindings selector.group) = selector.group.text

section alike

variable {python : Python} {trino : Trino} {smoke : SmokeQuery}

theorem Alike.condition (h : Alike python trino) {pattern : Option String} {value : String}
    {result : Bool} (hcondition : condition python pattern value = .ok result) :
    (trino.onText pattern value).isSome = result := by
  unfold ResourceGroups.condition matchesPattern at hcondition
  unfold Trino.onText
  split at hcondition
  · cases hcondition
    rfl
  · split at hcondition
    · next hpython =>
      cases hcondition
      exact h.patterns _ _ _ hpython
    · cases hcondition

/-- The conditions that are not on texts, where Apchi can evaluate them. -/
theorem Alike.otherwise (h : Alike python trino) {selector : Selector}
    (hknown : unknowable selector = none) : trino.otherwise selector =
      (selector.queryType.getD .select = .select ∧ selector.clientTags.getD [] = [] : Bool) := by
  unfold unknowable at hknown
  have hgroup : selector.userGroup = none := by
    cases hfield : selector.userGroup with
    | none => rfl
    | some pattern =>
      rw [hfield] at hknown
      cases hknown
  have hauthenticated : selector.authenticatedUser = none := by
    cases hfield : selector.authenticatedUser with
    | none => rfl
    | some pattern =>
      rw [hgroup, hfield] at hknown
      cases hknown
  have horiginal : selector.originalUser = none := by
    cases hfield : selector.originalUser with
    | none => rfl
    | some pattern =>
      rw [hgroup, hauthenticated, hfield] at hknown
      cases hknown
  unfold Trino.otherwise Trino.onCaller
  rw [hgroup, hauthenticated, horiginal, h.queryType, h.clientTags]
  cases selector.queryType with
  | none =>
    cases selector.clientTags with
    | none => rfl
    | some tags => cases tags <;> simp
  | some type =>
    cases selector.clientTags with
    | none => cases type <;> rfl
    | some tags => cases tags <;> simp

/-- A selector Apchi can evaluate matches in Trino as it does in Apchi. -/
theorem Alike.considers (h : Alike python trino) {selector : Selector} {result : Bool}
    (hconsiders : considers python smoke selector = .ok result) :
    (trino.bindings smoke selector).isSome = result := by
  unfold ResourceGroups.considers at hconsiders
  unfold Trino.bindings
  split at hconsiders
  · cases hconsiders
  · next hknown =>
    obtain ⟨user, huser, hconsiders⟩ := ok_of_bind hconsiders
    have huser := h.condition huser
    cases user with
    | false =>
      cases hconsiders
      rw [Option.isNone_iff_eq_none.mp (Option.isSome_eq_false_iff.mp huser)]
      rfl
    | true =>
      obtain ⟨named, hnamed⟩ := Option.isSome_iff_exists.mp huser
      obtain ⟨source, hsource, hconsiders⟩ := ok_of_bind hconsiders
      have hsource := h.condition hsource
      rw [hnamed]
      cases source with
      | false =>
        cases hconsiders
        rw [Option.isNone_iff_eq_none.mp (Option.isSome_eq_false_iff.mp hsource)]
        rfl
      | true =>
        obtain ⟨also, halso⟩ := Option.isSome_iff_exists.mp hsource
        obtain ⟨text, htext, hconsiders⟩ := ok_of_bind hconsiders
        have htext := h.condition htext
        rw [halso]
        cases text with
        | false =>
          cases hconsiders
          rw [Option.isNone_iff_eq_none.mp (Option.isSome_eq_false_iff.mp htext)]
          rfl
        | true =>
          obtain ⟨others, hothers⟩ := Option.isSome_iff_exists.mp htext
          have hresult := Except.ok.inj hconsiders
          rw [← h.otherwise hknown] at hresult
          rw [hothers]
          cases hrest : trino.otherwise selector with
          | true =>
            rw [hrest] at hresult
            rw [← hresult]
            rfl
          | false =>
            rw [hrest] at hresult
            rw [← hresult]
            rfl

/-- Trino chooses the selector Apchi finds to match. -/
theorem Alike.filed (h : Alike python trino) {selectors : List Selector} {selector : Selector}
    (hstop : stopsAt python smoke selectors = some selector)
    (hconsiders : ResourceGroups.considers python smoke selector = .ok true) :
    ∃ bindings, trino.bindings smoke selector = some bindings ∧
      trino.filed smoke selectors = some (expandGroup bindings selector.group) := by
  obtain ⟨bindings, hbindings⟩ := Option.isSome_iff_exists.mp (h.considers hconsiders)
  refine ⟨bindings, hbindings, ?_⟩
  unfold stopsAt at hstop
  obtain ⟨-, before, after, rfl, hbefore⟩ := List.find?_eq_some_iff_append.mp hstop
  refine List.findSome?_eq_some_iff.mpr ⟨before, selector, after, rfl, ?_, ?_⟩
  · rw [hbindings]
    rfl
  · intro other hother
    have hpass := passesOver_iff.mp (by simpa using hbefore other hother)
    rw [Option.map_eq_none_iff]
    exact Option.isNone_iff_eq_none.mp (Option.isSome_eq_false_iff.mp (h.considers hpass))

theorem Alike.foreseen_iff (h : Alike python trino) {selectors : List Selector} :
    Foreseen python trino smoke selectors ↔ Unexpanded python trino smoke selectors := by
  refine forall_congr' fun selector => forall_congr' fun hstop => forall_congr' fun hconsiders => ?_
  obtain ⟨bindings, hbindings, hfiled⟩ := h.filed hstop hconsiders
  rw [hbindings, hfiled]
  constructor
  · rintro hall _ ⟨⟩
    exact hall _ rfl
  · rintro hall _ ⟨⟩
    exact hall _ rfl

end alike

/-- Texts that match only themselves. -/
def plainPython : Python := fun pattern value => some (pattern = value)

def plainTrino : Trino where
  fullMatch pattern value := if pattern = value then some [] else none
  queryType := .select
  clientTags := []
  satisfies _ _ := false

theorem plain_alike : Alike plainPython plainTrino where
  patterns pattern value result h := by
    have hresult := Option.some.inj h
    unfold plainTrino
    dsimp only
    by_cases hsame : pattern = value
    · rw [if_pos hsame]
      rw [decide_eq_true hsame] at hresult
      exact hresult
    · rw [if_neg hsame]
      rw [decide_eq_false hsame] at hresult
      exact hresult
  queryType := rfl
  clientTags := rfl

def smokeQuery : SmokeQuery where
  sql := "SELECT 1 FROM \"system\".runtime.nodes LIMIT 1"
  queryId := "20250101_000000_00000_aaaaa"
  user := "apchi"
  source := "apchi"

/-- A group beneath the root, and a selector that puts every query in it. -/
def groupsWith (group : GroupPath) : Resources :=
  storeSelectors (((∅ : Resources).insert "global" (.obj (ResourceGroupWrite.dump
    (.running 10)))).insert group.text (.obj (ResourceGroupWrite.dump
      (.running 1)))) [.obj (Selector.dump { group := group })]

/-- A Cluster that says every query ran in one group. -/
def platformFiling (segments : List String) : Platform :=
  { quietPlatform with query := fun _ _ => .ok [[.arr (segments.map .str)]] }

/-- A group with a name of its own, and one named for each user by a template. -/
def apchiGroup : GroupPath := ⟨"global.apchi", by decide, by decide, by decide⟩

def userGroup : GroupPath := ⟨"global.$\x7bUSER\x7d", by decide, by decide, by decide⟩

theorem filed_apchiGroup : Filed plainTrino (platformFiling ["global", "apchi"]) freshCluster
    smokeQuery [{ group := apchiGroup }] ["global", "apchi"] where
  chosen := by decide +kernel
  answer := rfl

theorem filed_userGroup : Filed plainTrino (platformFiling ["global", "apchi"]) freshCluster
    smokeQuery [{ group := userGroup }] ["global", "apchi"] where
  chosen := by decide +kernel
  answer := rfl

end Apchi.ResourceGroups
