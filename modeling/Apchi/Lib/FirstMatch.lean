import Mathlib.Data.List.Basic
import Mathlib.Tactic.Common

/-!
# Lists of rules where the first match decides

A rule may or may not apply to a request; the first one that does decides it, and a request no
rule applies to is denied.  The two facts every use needs are how decisions compose along an
append, and that two lists agree as soon as their first applying rules do.
-/

namespace Lib

variable {R : Type}

/-- What a list of rules decides, for the request `applies` and `allows` speak of. -/
def decision (applies allows : R → Bool) (rules : List R) : Bool :=
  match rules.find? applies with
  | some rule => allows rule
  | none => false

variable {applies allows : R → Bool}

@[simp] theorem decision_nil : decision applies allows [] = false := rfl

theorem decision_cons_of_applies {rule : R} (rules : List R) (h : applies rule = true) :
    decision applies allows (rule :: rules) = allows rule := by
  simp [decision, h]

theorem decision_cons_of_not {rule : R} (rules : List R) (h : applies rule = false) :
    decision applies allows (rule :: rules) = decision applies allows rules := by
  simp [decision, h]

theorem decision_of_find {rules : List R} {rule : R} (h : rules.find? applies = some rule) :
    decision applies allows rules = allows rule := by
  simp [decision, h]

theorem decision_of_none {rules : List R} (h : ∀ rule ∈ rules, applies rule = false) :
    decision applies allows rules = false := by
  have : rules.find? applies = none := List.find?_eq_none.mpr fun rule hrule => by simp [h rule hrule]
  simp [decision, this]

/-- Rules in front decide when one of them applies. -/
theorem decision_append_of_find {rules : List R} {rule : R} (more : List R)
    (h : rules.find? applies = some rule) :
    decision applies allows (rules ++ more) = allows rule :=
  decision_of_find (by simp [h])

/-- Rules in front that do not apply can be dropped. -/
theorem decision_append_of_none {rules : List R} (more : List R)
    (h : ∀ rule ∈ rules, applies rule = false) :
    decision applies allows (rules ++ more) = decision applies allows more := by
  have hnone : rules.find? applies = none :=
    List.find?_eq_none.mpr fun rule hrule => by simp [h rule hrule]
  simp [decision, hnone]

/-- The first applying rule is still the first among the rules kept, if it is kept. -/
theorem find_filter {rules : List R} {rule : R} (keep : R → Bool)
    (h : rules.find? applies = some rule) (hkeep : keep rule = true) :
    (rules.filter keep).find? applies = some rule := by
  obtain ⟨happlies, before, after, rfl, hbefore⟩ := List.find?_eq_some_iff_append.mp h
  rw [List.filter_append, List.filter_cons_of_pos hkeep]
  refine List.find?_eq_some_iff_append.mpr ⟨happlies, before.filter keep, after.filter keep, rfl, ?_⟩
  intro other hother
  exact hbefore other (List.mem_of_mem_filter hother)

/-- Along a list in strictly increasing order, the first applying entry is the least. -/
theorem find_least {E : Type} {lt : E → E → Prop} {entries : List E} {entry : E}
    {applies : E → Bool} (hsorted : entries.Pairwise lt) (h : entries.find? applies = some entry)
    {other : E} (hother : other ∈ entries) (happlies : applies other = true) :
    other = entry ∨ lt entry other := by
  obtain ⟨-, before, after, rfl, hbefore⟩ := List.find?_eq_some_iff_append.mp h
  rw [List.pairwise_append, List.pairwise_cons] at hsorted
  rcases List.mem_append.mp hother with hmem | hmem
  · have := hbefore other hmem
    simp [happlies] at this
  · exact (List.mem_cons.mp hmem).imp id (hsorted.2.1.1 other)

end Lib
