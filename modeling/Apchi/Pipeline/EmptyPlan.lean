import Apchi.Pipeline.Registry

/-!
# What an empty plan says about the files

Where the Cluster cannot be read, whether an Apply restarts the coordinator is told by the plans of
the Sections that need it.  The plan of the Resource Groups compares the groups and the selectors, and
the settings of the file, which are rendered with them, it does not.
-/

namespace Apchi.Pipeline

open Lib

namespace ResourceGroupsPlan

open ResourceGroups

variable {desired current : Resources}

theorem groups_of_empty (h : (ResourceGroups.plan desired current).empty) :
    groupsOf desired = groupsOf current ∧ selectorsOf desired = selectorsOf current := by
  simp only [ResourceGroups.plan, SectionPlan.empty, List.isEmpty_iff, Bool.and_eq_true,
    List.filter_eq_nil_iff, Std.ExtTreeMap.mem_keys, decide_eq_true_eq, not_not, ne_eq, not_and,
    Bool.not_eq_true', decide_eq_false_iff_not] at h
  obtain ⟨⟨⟨hadded, hchanged⟩, hremoved⟩, hselectors⟩ := h
  refine ⟨Std.ExtTreeMap.ext_getElem? fun path => ?_, hselectors⟩
  by_cases hpath : path ∈ groupsOf desired
  · exact hchanged path hpath (hadded path hpath)
  · rw [Std.ExtTreeMap.getElem?_eq_none hpath,
      Std.ExtTreeMap.getElem?_eq_none fun hcurrent => hpath (hremoved path hcurrent)]

theorem empty_of_groups (hgroups : groupsOf desired = groupsOf current)
    (hselectors : selectorsOf desired = selectorsOf current) :
    (ResourceGroups.plan desired current).empty := by
  simp only [ResourceGroups.plan, SectionPlan.empty, hgroups, hselectors, List.isEmpty_iff,
    Bool.and_eq_true, List.filter_eq_nil_iff, Std.ExtTreeMap.mem_keys]
  simp

/-- Over the same groups and selectors the rules tell the settings. -/
theorem renderRules_eq_iff (hdesired : ResourceGroups.Held desired) (hcurrent : ResourceGroups.Held current)
    (hgroups : groupsOf desired = groupsOf current)
    (hselectors : selectorsOf desired = selectorsOf current) :
    (∃ rules, renderRules desired = .ok rules ∧ renderRules current = .ok rules) ↔
      settingsOf desired = settingsOf current := by
  obtain ⟨roots, selectors, settings, hroots, hrules, hsettings⟩ := hdesired.renders
  obtain ⟨roots', selectors', settings', hroots', hrules', hsettings'⟩ := hcurrent.renders
  rw [← hgroups, hroots] at hroots'
  rw [← hselectors, hrules] at hrules'
  cases hroots'
  cases hrules'
  have hrendered : renderRules desired =
      .ok (Json.dumps (.obj (document settings roots selectors)) ++ "\n") := by
    unfold renderRules
    rw [hroots, hrules, hsettings]
    rfl
  have hrendered' : renderRules current =
      .ok (Json.dumps (.obj (document settings' roots selectors)) ++ "\n") := by
    unfold renderRules
    rw [← hgroups, ← hselectors, hroots, hrules, hsettings']
    rfl
  have hwf (settings : ResourceGroupSettings) : (Json.obj (document settings roots selectors)).WF :=
    wf_document (wf_rootGroups hroots) (wf_selectorRules hrules)
  rw [hrendered, hrendered', hsettings, hsettings']
  constructor
  · rintro ⟨rules, hleft, hright⟩
    injection hleft with hleft
    injection hright with hright
    have hobjects := (dump_eq_iff (hwf settings) (hwf settings')).mp (hleft.trans hright.symm)
    injection hobjects with hfields
    rw [document_eq_iff.mp hfields]
  · intro h
    cases h
    exact ⟨_, rfl, rfl⟩

/-- Over the same groups and selectors the files are the same where there is nothing to deliver, or
the settings are the same. -/
theorem renderFiles_eq_iff (hdesired : ResourceGroups.Held desired) (hcurrent : ResourceGroups.Held current)
    (hgroups : groupsOf desired = groupsOf current)
    (hselectors : selectorsOf desired = selectorsOf current) (settings : Settings) :
    ResourceGroups.renderFiles desired settings = ResourceGroups.renderFiles current settings ↔
      isEmpty desired = true ∨ settingsOf desired = settingsOf current := by
  have hempty : isEmpty desired = isEmpty current := by
    unfold isEmpty
    rw [hgroups, hselectors]
  have hrules := renderRules_eq_iff hdesired hcurrent hgroups hselectors
  obtain ⟨roots, selectors, desiredSettings, hroots, hselectorRules, hsettings⟩ := hdesired.renders
  obtain ⟨roots', selectors', currentSettings, hroots', hselectorRules', hsettings'⟩ :=
    hcurrent.renders
  have hdesiredRules : ∃ rules, renderRules desired = .ok rules := by
    unfold renderRules
    rw [hroots, hselectorRules, hsettings]
    exact ⟨_, rfl⟩
  have hcurrentRules : ∃ rules, renderRules current = .ok rules := by
    unfold renderRules
    rw [hroots', hselectorRules', hsettings']
    exact ⟨_, rfl⟩
  obtain ⟨rules, hdesiredRules⟩ := hdesiredRules
  obtain ⟨rules', hcurrentRules⟩ := hcurrentRules
  have hsame : (∃ rules, renderRules desired = .ok rules ∧ renderRules current = .ok rules) ↔
      rules = rules' := by
    rw [hdesiredRules, hcurrentRules]
    simp [eq_comm]
  rw [hsame] at hrules
  unfold ResourceGroups.renderFiles renderRulesOnly render
  rw [← hempty, hdesiredRules, hcurrentRules, ← hrules]
  cases isEmpty desired with
  | true => simp
  | false =>
    simp only [Bool.false_eq_true, if_false, false_or]
    constructor
    · intro h
      split at h
      · have hfile := congrArg (fun files => files.map fun files => files[RULES_IN_DIR]?) h
        simpa [bind, Except.bind, pure, Except.pure, Except.map] using hfile
      · have hread (rules : String) : (((∅ : Dict).insert RULES_PATH rules).insert MANAGER_PATH
            MANAGER_FILE)[RULES_PATH]? = some rules := by
          have hne : MANAGER_PATH ≠ RULES_PATH := by decide
          simp only [Std.ExtTreeMap.getElem?_insert, Std.LawfulEqCmp.compare_eq_iff_eq, hne,
            if_false, if_true]
        have hfile : (((∅ : Dict).insert RULES_PATH rules).insert MANAGER_PATH
              MANAGER_FILE)[RULES_PATH]? =
            (((∅ : Dict).insert RULES_PATH rules').insert MANAGER_PATH MANAGER_FILE)[RULES_PATH]? :=
          congrArg (fun files : Dict => files[RULES_PATH]?) (Except.ok.inj h)
        rw [hread, hread] at hfile
        exact Option.some.inj hfile
    · intro h
      rw [h]

end ResourceGroupsPlan

section example_states

open ResourceGroups

/-- One root group. -/
def globalGroup : ResourceGroupWrite := .running 10

def globalPath : GroupPath := ⟨"global", by decide, by decide +kernel, by decide⟩

def hourly : ResourceGroupSettings := ⟨some .anHour⟩

/-- One group, and then a CPU quota period. -/
def oneGroup : Resources := (∅ : Resources).insert "global" (.obj globalGroup.dump)

def oneGroupHourly : Resources := setSettings oneGroup hourly

theorem staged_oneGroup : ResourceGroups.Staged oneGroup := by
  have hadd : addGroup ∅ globalPath globalGroup = .ok oneGroup := by decide +kernel
  exact .add .empty hadd

theorem staged_oneGroupHourly : ResourceGroups.Staged oneGroupHourly := .settings staged_oneGroup

end example_states

/-- No tools are needed for groups. -/
def noTools : Tools := ⟨fun _ => .error "", fun _ _ => none⟩

end Apchi.Pipeline
