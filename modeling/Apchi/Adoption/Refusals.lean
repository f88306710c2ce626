import Apchi.Adoption.Parsing
import Apchi.CertificateMapping.Identities
import Apchi.ResourceGroups.RoundTrip

/-!
# Which files a Section refuses, and how

A Section that cannot read a file is to say so with a `ParseProblem`.  Two of them validate part of a
file with a model whose error nothing translates: the Operator's pattern of the mapping file, and the
settings of the resource groups file.
-/

namespace Apchi.CertificateMapping

open Lib Pipeline

/-! ### The mapping file -/

/-- A rule that can be the Operator's: a pattern, and nothing the model has no place for. -/
def IsPattern (rule : Indexed) : Bool :=
  extraOf rule.2 = [] ∧ rule.2.lookup "pattern" ≠ none

theorem isPattern_iff {rule : Indexed} :
    IsPattern rule = true ↔ extraOf rule.2 = [] ∧ rule.2.lookup "pattern" ≠ none := decide_eq_true_iff

/-- What the constraints of the model accept. -/
structure Holdable (rule : List (String × Json)) : Prop where
  pattern : ∃ text, rule.lookup "pattern" = some (.str text) ∧ within 512 text = true
  user : ∀ value, rule.lookup "user" = some value →
    ∃ text, value = .str text ∧ within 256 text = true
  case : ∀ value, rule.lookup "case" = some value → ∃ text, value = .str text ∧ text ∈ cases

/-- The first pattern of a mapping file, between Apchi's own rules, is one the model accepts. -/
def PatternForeseen (trinoUser content : String) : Prop :=
  ∀ document rules objects rule, documentIn MOUNT_PATH content = .ok document →
    rulesIn MOUNT_PATH document = .ok rules → objectsIn MOUNT_PATH 0 rules = .ok objects →
    (dropUnchanged (dropReserved trinoUser objects)).find? IsPattern = some rule → Holdable rule.2

section textField

variable {fields : List (String × Json)} {name : String} {accepts : String → Bool}

theorem textField_required : (∃ text, textField fields name none accepts = .ok text) ↔
    ∃ text, fields.lookup name = some (.str text) ∧ accepts text = true := by
  unfold textField
  cases fields.lookup name with
  | none => exact iff_of_false nofun nofun
  | some value =>
    cases value with
    | str text =>
      dsimp only
      by_cases h : accepts text = true
      · rw [if_pos h]
        exact iff_of_true ⟨_, rfl⟩ ⟨text, rfl, h⟩
      · rw [if_neg h]
        refine iff_of_false nofun ?_
        rintro ⟨other, heq, hother⟩
        cases heq
        exact h hother
    | _ => exact iff_of_false nofun nofun

theorem textField_optional {default : String} :
    (∃ text, textField fields name (some default) accepts = .ok text) ↔
      ∀ value, fields.lookup name = some value → ∃ text, value = .str text ∧ accepts text = true := by
  unfold textField
  cases fields.lookup name with
  | none => exact iff_of_true ⟨_, rfl⟩ nofun
  | some value =>
    cases value with
    | str text =>
      dsimp only
      by_cases h : accepts text = true
      · rw [if_pos h]
        refine iff_of_true ⟨_, rfl⟩ ?_
        rintro _ ⟨⟩
        exact ⟨text, rfl, h⟩
      · rw [if_neg h]
        refine iff_of_false nofun fun hall => ?_
        obtain ⟨other, heq, hother⟩ := hall _ rfl
        cases heq
        exact h hother
    | _ =>
      refine iff_of_false nofun fun hall => ?_
      obtain ⟨other, heq, -⟩ := hall _ rfl
      cases heq

theorem textField_raises {default : Option String} :
    OnlyRaises (fun e => e.kind = "ValidationError") (textField fields name default accepts) := by
  unfold textField
  split
  · split
    · exact .ok _
    · exact .error rfl
  · split
    · exact .ok _
    · exact .error rfl
  · exact .error rfl

end textField

theorem onlyFields_raises (names : List String) (fields : List (String × Json)) :
    OnlyRaises (fun e => e.kind = "ValidationError") (Codec.onlyFields names fields) := by
  unfold Codec.onlyFields
  split
  · exact .ok _
  · exact .error rfl

theorem validate_raises (fields : List (String × Json)) :
    OnlyRaises (fun e => e.kind = "ValidationError") (validate fields) :=
  textField_raises.bind fun _ _ => textField_raises.bind fun _ _ => textField_raises.bind fun _ _ =>
    (onlyFields_raises ruleKeys fields).bind fun _ _ => .ok _

theorem keys_of_extraOf {rule : List (String × Json)} (h : extraOf rule = []) :
    ∀ field ∈ rule, field.1 ∈ ruleKeys := by
  intro field hfield
  by_contra hkey
  have hmem : field.1 ∈ extraOf rule := by
    unfold extraOf
    rw [Std.ExtTreeSet.mem_toList, Std.ExtTreeSet.mem_ofList]
    simp [hkey]
    exact ⟨field.2, hfield⟩
  rw [h] at hmem
  exact List.not_mem_nil hmem

theorem validate_ok_iff {rule : List (String × Json)} (h : extraOf rule = []) :
    (∃ mapping, validate rule = .ok mapping) ↔ Holdable rule := by
  have honly : Codec.onlyFields ruleKeys rule = .ok () := Codec.onlyFields_eq (keys_of_extraOf h)
  have hcases : (∀ value, rule.lookup "case" = some value →
      ∃ text, value = .str text ∧ decide (text ∈ cases) = true) ↔
      ∀ value, rule.lookup "case" = some value → ∃ text, value = .str text ∧ text ∈ cases := by
    simp only [decide_eq_true_eq]
  constructor
  · rintro ⟨mapping, hmapping⟩
    unfold validate at hmapping
    obtain ⟨pattern, hpattern, hmapping⟩ := ok_of_bind hmapping
    obtain ⟨user, huser, hmapping⟩ := ok_of_bind hmapping
    obtain ⟨case, hcase, -⟩ := ok_of_bind hmapping
    exact ⟨textField_required.mp ⟨pattern, hpattern⟩, textField_optional.mp ⟨user, huser⟩,
      hcases.mp (textField_optional.mp ⟨case, hcase⟩)⟩
  · intro hholdable
    obtain ⟨pattern, hpattern⟩ := textField_required.mpr hholdable.pattern
    obtain ⟨user, huser⟩ := @textField_optional _ _ _ "$1" |>.mpr hholdable.user
    obtain ⟨case, hcase⟩ := @textField_optional _ _ _ "keep" |>.mpr (hcases.mpr hholdable.case)
    refine ⟨⟨pattern, user, case⟩, ?_⟩
    unfold validate
    rw [hpattern, ok_bind, huser, ok_bind, hcase, ok_bind, honly]
    rfl

/-- The Operator's pattern is the first one. -/
theorem operator_takeRules (rules : List Indexed) (reading : Reading) :
    (rules.foldl takeRule reading).operator =
      reading.operator.orElse fun _ => (rules.find? IsPattern).map Prod.snd := by
  induction rules generalizing reading with
  | nil => cases hoperator : reading.operator <;> simp [hoperator]
  | cons rule rest ih =>
    rw [List.foldl_cons, ih, List.find?_cons]
    unfold takeRule
    dsimp only
    by_cases hpattern : IsPattern rule = true
    · have hplain := isPattern_iff.mp hpattern
      rw [hpattern, if_neg (by simp [hplain.1, hplain.2])]
      cases hoperator : reading.operator with
      | none => simp
      | some operator => simp
    · have hother : extraOf rule.2 ≠ [] ∨ rule.2.lookup "pattern" = none := by
        by_contra hcontra
        rw [not_or, not_not] at hcontra
        exact hpattern (isPattern_iff.mpr hcontra)
      rw [if_pos hother, Bool.eq_false_iff.mpr hpattern]

theorem documentIn_raises (path content : String) :
    OnlyRaises (fun e => e.kind = "Unreadable") (documentIn path content) := by
  unfold documentIn
  split
  · exact .error rfl
  · exact .ok _
  · exact .error rfl

theorem rulesIn_raises (path : String) (document : List (String × Json)) :
    OnlyRaises (fun e => e.kind = "Unreadable") (rulesIn path document) := by
  unfold rulesIn
  split
  · exact .ok _
  · exact .error rfl

theorem objectsIn_raises (path : String) (index : Nat) (rules : List Json) :
    OnlyRaises (fun e => e.kind = "Unreadable") (objectsIn path index rules) := by
  induction rules generalizing index with
  | nil => exact .ok _
  | cons rule rest ih =>
    cases rule with
    | obj fields => exact (ih (index + 1)).bind fun _ _ => .ok _
    | _ => exact .error rfl

/-- What the model raises is raised as it is. -/
theorem parseRules_raises (content trinoUser : String) :
    OnlyRaises (fun e => e.kind = "Unreadable" ∨ e.kind = "ValidationError")
      (parseRules MOUNT_PATH content trinoUser) := by
  refine ((documentIn_raises MOUNT_PATH content).mono fun _ => .inl).bind fun document _ => ?_
  refine ((rulesIn_raises MOUNT_PATH document).mono fun _ => .inl).bind fun rules _ => ?_
  refine ((objectsIn_raises MOUNT_PATH 0 rules).mono fun _ => .inl).bind fun objects _ => ?_
  refine OnlyRaises.bind ?_ fun _ _ => .ok _
  unfold storedOperator
  split
  · exact .ok _
  · next rule _ => exact ((validate_raises rule).mono fun _ => .inr).bind fun _ _ => .ok _

/-- Nothing but `Unreadable` is raised exactly where the first pattern is one the model accepts. -/
theorem parseRules_raises_iff {content trinoUser : String} :
    OnlyRaises (fun e => e.kind = "Unreadable") (parseRules MOUNT_PATH content trinoUser) ↔
      PatternForeseen trinoUser content := by
  unfold parseRules PatternForeseen
  constructor
  · intro honly document rules objects rule hdocument hrules hobjects hrule
    have hpattern := isPattern_iff.mp (List.find?_some hrule)
    refine (validate_ok_iff hpattern.1).mp ?_
    rw [hdocument, ok_bind, hrules, ok_bind, hobjects, ok_bind] at honly
    dsimp only at honly
    rw [operator_takeRules, hrule] at honly
    cases hvalidate : validate rule.2 with
    | ok mapping => exact ⟨mapping, rfl⟩
    | error e =>
      have hkind : e.kind = "ValidationError" := validate_raises rule.2 e hvalidate
      have hraised : e.kind = "Unreadable" := honly e (by
        change (validate rule.2 >>= fun mapping => _) >>= _ = _
        rw [hvalidate]
        rfl)
      rw [hkind] at hraised
      exact absurd hraised (by decide)
  · intro hforeseen
    refine (documentIn_raises MOUNT_PATH content).bind fun document hdocument => ?_
    refine (rulesIn_raises MOUNT_PATH document).bind fun rules hrules => ?_
    refine (objectsIn_raises MOUNT_PATH 0 rules).bind fun objects hobjects => ?_
    dsimp only
    rw [operator_takeRules]
    refine OnlyRaises.bind ?_ fun _ _ => .ok _
    cases hrule : (dropUnchanged (dropReserved trinoUser objects)).find? IsPattern with
    | none => exact .ok _
    | some rule =>
      have hholdable := hforeseen document rules objects rule hdocument hrules hobjects hrule
      have hpattern := isPattern_iff.mp (List.find?_some hrule)
      obtain ⟨mapping, hmapping⟩ := (validate_ok_iff hpattern.1).mpr hholdable
      change OnlyRaises _ (validate rule.2 >>= _)
      rw [hmapping]
      exact .ok _

end Apchi.CertificateMapping

namespace Apchi.ResourceGroups

open Lib Pipeline

/-! ### The resource groups file -/

/-- It is this module's own refusal. -/
def Failure.Unreadable : Failure → Prop
  | unreadable .. => True
  | validation _ => False

/-- A resource groups file whose groups and selectors the models accept has settings that the model
accepts. -/
def SettingsForeseen (models : Models) (path content : String) : Prop :=
  ∀ fields roots reading rawSelectors selectors, documentIn path content = .ok fields →
    listIn path fields "rootGroups" = .ok roots →
    flattenAll models path none roots ⟨∅, []⟩ = .ok reading →
    listIn path fields "selectors" = .ok rawSelectors →
    readSelectors models path 0 rawSelectors = .ok selectors →
    ∃ settings, models.settings (known settingNames fields) = .ok settings

theorem documentIn_of_loads {content : String} {fields : List (String × Json)} (path : String)
    (h : Json.loads content = some (.obj fields)) : documentIn path content = .ok fields := by
  unfold documentIn
  rw [h]

theorem documentIn_raises (path content : String) :
    OnlyRaises Failure.Unreadable (documentIn path content) := by
  unfold documentIn
  split
  · exact .error trivial
  · exact .ok _
  · exact .error trivial

theorem listIn_raises (path : String) (fields : List (String × Json)) (name : String) :
    OnlyRaises Failure.Unreadable (listIn path fields name) := by
  unfold listIn
  split
  · exact .ok _
  · exact .error trivial

theorem takeGroup_raises (models : Models) (path full : String) (fields : List (String × Json))
    (reading : Reading) : OnlyRaises Failure.Unreadable (takeGroup models path full fields reading) := by
  unfold takeGroup
  split
  · exact .ok _
  · exact .error trivial

mutual

theorem flatten_raises (models : Models) (path : String) (parent : Option String) :
    ∀ (group : Json) (reading : Reading),
      OnlyRaises Failure.Unreadable (flatten models path parent group reading)
  | .obj fields, reading => by
    unfold flatten
    split
    · exact .error trivial
    · next name _ =>
      exact (takeGroup_raises models path _ fields reading).bind fun next _ =>
        flattenSub_raises models path _ fields next
  | .null, _ | .bool _, _ | .int _, _ | .float _, _ | .str _, _ | .arr _, _ => by
    unfold flatten
    exact .error trivial

theorem flattenSub_raises (models : Models) (path full : String) :
    ∀ (fields : List (String × Json)) (reading : Reading),
      OnlyRaises Failure.Unreadable (flattenSub models path full fields reading)
  | [], reading => by
    unfold flattenSub
    exact .ok reading
  | (key, value) :: rest, reading => by
    unfold flattenSub
    split
    · split
      · next subgroups => exact flattenAll_raises models path (some full) subgroups reading
      · exact .error trivial
    · exact flattenSub_raises models path full rest reading

theorem flattenAll_raises (models : Models) (path : String) (parent : Option String) :
    ∀ (groups : List Json) (reading : Reading),
      OnlyRaises Failure.Unreadable (flattenAll models path parent groups reading)
  | [], reading => by
    unfold flattenAll
    exact .ok reading
  | group :: rest, reading => by
    unfold flattenAll
    exact (flatten_raises models path parent group reading).bind fun next _ =>
      flattenAll_raises models path parent rest next

end

theorem readSelectors_raises (models : Models) (path : String) (index : Nat) (raw : List Json) :
    OnlyRaises Failure.Unreadable (readSelectors models path index raw) := by
  induction raw generalizing index with
  | nil => exact .ok _
  | cons selector rest ih =>
    refine OnlyRaises.bind ?_ fun _ _ => (ih (index + 1)).bind fun _ _ => .ok _
    unfold readSelector
    split
    · split
      · exact .ok _
      · exact .error trivial
    · exact .error trivial

/-- Nothing but `Unreadable` is raised exactly where the settings of a file that is read so far are ones
the model accepts. -/
theorem parseRules_raises_iff {models : Models} {path content : String} :
    OnlyRaises Failure.Unreadable (parseRules models path content) ↔
      SettingsForeseen models path content := by
  unfold parseRules SettingsForeseen
  constructor
  · intro honly fields roots reading rawSelectors selectors hfields hroots hreading hraw hselectors
    rw [hfields, ok_bind, hroots, ok_bind, hreading, ok_bind, hraw, ok_bind, hselectors,
      ok_bind] at honly
    dsimp only at honly
    cases hsettings : models.settings (known settingNames fields) with
    | ok settings => exact ⟨settings, rfl⟩
    | error reason =>
      rw [hsettings] at honly
      exact (honly _ rfl).elim
  · intro hforeseen
    refine (documentIn_raises path content).bind fun fields hfields => ?_
    refine (listIn_raises path fields "rootGroups").bind fun roots hroots => ?_
    refine (flattenAll_raises models path none roots ⟨∅, []⟩).bind fun reading hreading => ?_
    refine (listIn_raises path fields "selectors").bind fun rawSelectors hraw => ?_
    refine (readSelectors_raises models path 0 rawSelectors).bind fun selectors hselectors => ?_
    obtain ⟨settings, hsettings⟩ :=
      hforeseen fields roots reading rawSelectors selectors hfields hroots hreading hraw hselectors
    dsimp only
    rw [hsettings]
    exact .ok _

end Apchi.ResourceGroups

namespace Apchi.Pipeline

open Lib

/-! ### Every Section -/

/-- A Section reads its files or says, with a `ParseProblem`, that one cannot be read. -/
def Returns (x : Except Raised Parsed) : Prop :=
  (∃ parsed, x = .ok parsed) ∨ ∃ path reason, x = .error (.parseProblem path reason)

theorem returns_iff {x : Except Raised Parsed} : Returns x ↔ OnlyRaises Raised.Problem x := by
  constructor
  · rintro (⟨parsed, rfl⟩ | ⟨path, reason, rfl⟩)
    · exact .ok parsed
    · exact .error trivial
  · intro h
    cases x with
    | ok parsed => exact Or.inl ⟨parsed, rfl⟩
    | error raised =>
      cases raised with
      | parseProblem path reason => exact Or.inr ⟨path, reason, rfl⟩
      | validationError reason => exact (h _ rfl).elim

/-- What a Section's files have to be for a model never to have the last word. -/
def SectionName.Foreseen (models : ResourceGroups.Models) (settings : Settings) (files : Dict) :
    SectionName → Prop
  | certificateMapping => ∀ content, files[CertificateMapping.MOUNT_PATH]? = some content →
      CertificateMapping.PatternForeseen settings.trinoUser content
  | resourceGroups => ∀ content, files[ResourceGroups.rulesPath settings]? = some content →
      ResourceGroups.SettingsForeseen models (ResourceGroups.rulesPath settings) content
  | catalogs | clientCertificates | eventListeners | permissions => True

theorem parseMapping_raises_iff {files : Dict} {settings : Settings} :
    OnlyRaises Raised.Problem (parseMapping files settings) ↔
      ∀ content, files[CertificateMapping.MOUNT_PATH]? = some content →
        CertificateMapping.PatternForeseen settings.trinoUser content := by
  unfold parseMapping CertificateMapping.parseFiles
  cases hfile : files[CertificateMapping.MOUNT_PATH]? with
  | none => exact iff_of_true (.ok _) nofun
  | some content =>
    have hone : (∀ other, some content = some other →
        CertificateMapping.PatternForeseen settings.trinoUser other) ↔
        CertificateMapping.PatternForeseen settings.trinoUser content :=
      ⟨fun h => h content rfl, fun h other heq => Option.some.inj heq ▸ h⟩
    rw [hone, ← CertificateMapping.parseRules_raises_iff]
    dsimp only
    cases hparse : CertificateMapping.parseRules CertificateMapping.MOUNT_PATH content
      settings.trinoUser with
    | ok result => exact iff_of_true (.ok _) (.ok _)
    | error e =>
      dsimp only
      rcases CertificateMapping.parseRules_raises content settings.trinoUser e hparse with
        hkind | hkind
      · rw [if_pos hkind]
        exact iff_of_true (.error trivial) (.error hkind)
      · have hother : e.kind ≠ "Unreadable" := by
          rw [hkind]
          decide
        have hraised : e.kind ≠ "ParseProblem" := by
          rw [hkind]
          decide
        rw [if_neg hother]
        dsimp only
        rw [if_neg hraised]
        exact iff_of_false (fun h => h _ rfl) fun h => hother (h e rfl)

theorem parseGroups_raises_iff {models : ResourceGroups.Models} {files : Dict} {settings : Settings} :
    OnlyRaises Raised.Problem (parseGroups models files settings) ↔
      ∀ content, files[ResourceGroups.rulesPath settings]? = some content →
        ResourceGroups.SettingsForeseen models (ResourceGroups.rulesPath settings) content := by
  unfold parseGroups ResourceGroups.parseFiles
  cases hfile : files[ResourceGroups.rulesPath settings]? with
  | none =>
    refine iff_of_true ?_ nofun
    cases files[ResourceGroups.MANAGER_PATH]? with
    | none => exact .ok _
    | some manager => exact .ok _
  | some content =>
    have hone : (∀ other, some content = some other →
        ResourceGroups.SettingsForeseen models (ResourceGroups.rulesPath settings) other) ↔
        ResourceGroups.SettingsForeseen models (ResourceGroups.rulesPath settings) content :=
      ⟨fun h => h content rfl, fun h other heq => Option.some.inj heq ▸ h⟩
    rw [hone, ← ResourceGroups.parseRules_raises_iff]
    dsimp only
    cases ResourceGroups.parseRules models (ResourceGroups.rulesPath settings) content with
    | ok result => exact iff_of_true (.ok _) (.ok _)
    | error failure =>
      cases failure with
      | unreadable path reason => exact iff_of_true (.error trivial) (.error trivial)
      | validation reason => exact iff_of_false (fun h => h _ rfl) fun h => h _ rfl

theorem parsePermissions_raises (files : Dict) (settings : Settings) :
    OnlyRaises Raised.Problem (parsePermissions files settings) := by
  unfold parsePermissions
  split
  · exact .ok _
  · split
    · exact .ok _
    · exact .error trivial

/-- A Section reads its files, or raises a `ParseProblem`, exactly where they are foreseen. -/
theorem parseFiles_returns_iff {models : ResourceGroups.Models} {files : Dict} {settings : Settings}
    {sect : SectionName} :
    Returns (sect.parseFiles models files settings) ↔ sect.Foreseen models settings files := by
  rw [returns_iff]
  cases sect with
  | catalogs => exact iff_of_true (Catalogs.parseFiles_raises files settings) trivial
  | clientCertificates => exact iff_of_true (.ok _) trivial
  | certificateMapping => exact parseMapping_raises_iff
  | eventListeners => exact iff_of_true (EventListeners.parseFiles_raises files settings) trivial
  | permissions => exact iff_of_true (parsePermissions_raises files settings) trivial
  | resourceGroups => exact parseGroups_raises_iff

end Apchi.Pipeline
