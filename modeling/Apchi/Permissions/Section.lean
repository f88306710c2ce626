import Apchi.Permissions.Generator

/-!
# The Permissions Section: staging grants

Grants are added, changed and removed one at a time.  A grant is stored under the key derived from
it, so the grants reachable this way are exactly those filed under their own keys.
-/

namespace Apchi.Permissions

/-- Why a staging operation is refused. -/
inductive StagingError where
  | conflict (key : String)
  | notFound (key : String)
  deriving DecidableEq, Repr

/-- `add_grant`: one grant per identity and place. -/
def addGrant (stored : Grants) (write : GrantWrite) : Except StagingError Grants :=
  if keyOf write ∈ stored then .error (.conflict (keyOf write))
  else .ok (stored.insert (keyOf write) write)

/-- `set_privileges`, with the list the request's model admits: at least one privilege. -/
def setPrivileges (stored : Grants) (key : String) (privileges : List Privilege)
    (h : privileges ≠ []) : Except StagingError Grants :=
  match stored[key]? with
  | none => .error (.notFound key)
  | some grant =>
      .ok (stored.insert key { grant with privileges := privileges, privileges_ne := h })

/-- `delete_grant`. -/
def deleteGrant (stored : Grants) (key : String) : Except StagingError Grants :=
  if key ∈ stored then .ok (stored.erase key) else .error (.notFound key)

/-- The grants any sequence of staging operations leads to. -/
inductive Staged : Grants → Prop where
  | empty : Staged ∅
  | add {stored grants : Grants} {write : GrantWrite} (h : Staged stored)
      (hadd : addGrant stored write = .ok grants) : Staged grants
  | set {stored grants : Grants} {key : String} {privileges : List Privilege}
      {hne : privileges ≠ []} (h : Staged stored)
      (hset : setPrivileges stored key privileges hne = .ok grants) : Staged grants
  | delete {stored grants : Grants} {key : String} (h : Staged stored)
      (hdelete : deleteGrant stored key = .ok grants) : Staged grants

/-- Every grant is filed under the key derived from it. -/
def Keyed (grants : Grants) : Prop :=
  ∀ key grant, grants[key]? = some grant → keyOf grant = key

theorem keyed_empty : Keyed ∅ := by
  intro key grant h
  simp at h

theorem Keyed.insert {grants : Grants} (h : Keyed grants) (write : GrantWrite) :
    Keyed (grants.insert (keyOf write) write) := by
  intro key grant hget
  rw [Std.ExtTreeMap.getElem?_insert] at hget
  split at hget
  · rename_i heq
    cases hget
    exact Std.LawfulEqCmp.eq_of_compare heq
  · exact h key grant hget

theorem Keyed.erase {grants : Grants} (h : Keyed grants) (key : String) :
    Keyed (grants.erase key) := by
  intro other grant hget
  rw [Std.ExtTreeMap.getElem?_erase] at hget
  split at hget
  · cases hget
  · exact h other grant hget

/-- Changing what a grant allows does not change its key. -/
theorem keyOf_withPrivileges (grant : GrantWrite) (privileges : List Privilege)
    (h : privileges ≠ []) :
    keyOf { grant with privileges := privileges, privileges_ne := h } = keyOf grant := rfl

/-- Staging files every grant under its own key. -/
theorem Staged.keyed {grants : Grants} (h : Staged grants) : Keyed grants := by
  induction h with
  | empty => exact keyed_empty
  | @add stored grants write _ hadd ih =>
      unfold addGrant at hadd
      split at hadd
      · cases hadd
      · cases hadd
        exact ih.insert write
  | @set stored grants key privileges hne _ hset ih =>
      unfold setPrivileges at hset
      split at hset
      · cases hset
      · rename_i grant hget
        cases hset
        have hkey := ih key grant hget
        rw [← hkey, ← keyOf_withPrivileges grant privileges hne]
        exact ih.insert _
  | @delete stored grants key _ hdelete ih =>
      unfold deleteGrant at hdelete
      split at hdelete
      · cases hdelete
        exact ih.erase key
      · cases hdelete

/-- In a keyed map a grant is found under its own key. -/
theorem mem_sortedGrants {grants : Grants} (h : Keyed grants) {grant : GrantWrite} :
    grant ∈ sortedGrants grants ↔ grants[keyOf grant]? = some grant := by
  simp only [sortedGrants, List.mem_map, Prod.exists, exists_eq_right,
    Std.ExtTreeMap.mem_toList_iff_getElem?_eq_some]
  constructor
  · rintro ⟨key, hget⟩
    rwa [h key grant hget]
  · intro hget
    exact ⟨_, hget⟩

/-- The grants stand in strictly increasing order of their keys. -/
theorem sortedGrants_pairwise {grants : Grants} (h : Keyed grants) :
    (sortedGrants grants).Pairwise fun g g' => keyOf g < keyOf g' := by
  have hordered := Std.ExtTreeMap.ordered_keys_toList (t := grants)
  rw [sortedGrants, List.pairwise_map]
  refine hordered.imp_of_mem ?_
  rintro ⟨key, grant⟩ ⟨key', grant'⟩ hmem hmem' hlt
  rw [Std.ExtTreeMap.mem_toList_iff_getElem?_eq_some] at hmem hmem'
  rw [h _ _ hmem, h _ _ hmem']
  exact compareOfLessAndEq_eq_lt.mp hlt

end Apchi.Permissions
