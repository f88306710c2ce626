import Mathlib.Data.List.Basic
import Mathlib.Data.List.Infix
import Mathlib.Data.List.Nodup
import Mathlib.Logic.Function.Basic
import Mathlib.Tactic.Common

/-!
# Creating and dropping named things

What is served is a value for each name.  A statement creates a name that is free or drops one that
is taken; there is none that changes a value, so replacing is dropping and creating again.  A plan
names what to create, what to replace and what to drop.

A statement concerns one name only, so what a sequence of statements, or a first part of it, leaves
under a name is decided by the statements about that name.
-/

namespace Lib

universe u v

variable {K : Type u} {V : Type v}

inductive Statement (K : Type u) (V : Type v) where
  | create (key : K) (value : V)
  | drop (key : K)

namespace Statement

def key : Statement K V → K
  | create k _ => k
  | drop k => k

/-- What a statement leaves under its name. -/
def leaves : Statement K V → Option V
  | create _ value => some value
  | drop _ => none

/-- A statement is not refused: what it creates is not there, what it drops is. -/
def Allowed (live : Option V) : Statement K V → Prop
  | create _ _ => live = none
  | drop _ => live ≠ none

end Statement

variable [DecidableEq K]

/-- What is served after a sequence of statements. -/
def served (live : K → Option V) : List (Statement K V) → K → Option V
  | [] => live
  | s :: rest => served (Function.update live s.key s.leaves) rest

/-- No statement of a sequence is refused. -/
def AllAllowed (live : K → Option V) : List (Statement K V) → Prop
  | [] => True
  | s :: rest => s.Allowed (live s.key) ∧ AllAllowed (Function.update live s.key s.leaves) rest

/-- The statement after a first part of a sequence of which none is refused. -/
theorem AllAllowed.next {live : K → Option V} {done rest : List (Statement K V)}
    {s : Statement K V} (h : AllAllowed live (done ++ s :: rest)) :
    s.Allowed (served live done s.key) := by
  induction done generalizing live with
  | nil => exact h.1
  | cons t done ih => exact ih h.2

/-- The statements about a name. -/
def about (key : K) (statements : List (Statement K V)) : List (Statement K V) :=
  statements.filter fun s => s.key = key

/-- What a sequence leaves under a name is what its last statement about it leaves. -/
theorem served_apply (live : K → Option V) (statements : List (Statement K V)) (key : K) :
    served live statements key =
      ((about key statements).getLast?.map Statement.leaves).getD (live key) := by
  induction statements generalizing live with
  | nil => rfl
  | cons s rest ih =>
    rw [served, ih, about, about, List.filter_cons]
    by_cases hkey : s.key = key
    · subst hkey
      rw [Function.update_self, if_pos (by simp), List.getLast?_cons]
      cases (rest.filter fun s' => s'.key = s.key).getLast? <;> rfl
    · rw [Function.update_of_ne (Ne.symm hkey), if_neg (by simpa using hkey)]

/-- Whether a sequence is refused is decided name by name. -/
theorem allAllowed_iff (live : K → Option V) (statements : List (Statement K V)) :
    AllAllowed live statements ↔ ∀ key, AllAllowed live (about key statements) := by
  induction statements generalizing live with
  | nil => exact ⟨fun _ _ => trivial, fun _ => trivial⟩
  | cons s rest ih =>
    have hother {key : K} (hkey : s.key ≠ key) {t : List (Statement K V)}
        (ht : ∀ s' ∈ t, s'.key = key) {live live' : K → Option V} (hlive : live key = live' key) :
        AllAllowed live t → AllAllowed live' t := by
      induction t generalizing live live' with
      | nil => exact fun _ => trivial
      | cons s' t iht =>
        obtain rfl := ht s' List.mem_cons_self
        rintro ⟨hs', hrest⟩
        refine ⟨hlive ▸ hs', iht (fun s hs => ht s (List.mem_cons_of_mem _ hs)) ?_ hrest⟩
        simp
    have habout (key : K) : ∀ s' ∈ about key rest, s'.key = key := fun s' hs' => by
      simpa using (List.mem_filter.mp hs').2
    rw [AllAllowed, ih]
    constructor
    · rintro ⟨hs, hrest⟩ key
      rw [about, List.filter_cons]
      by_cases hkey : s.key = key
      · rw [if_pos (by simpa using hkey)]
        exact ⟨hs, hrest key⟩
      · rw [if_neg (by simpa using hkey)]
        exact hother hkey (habout key) (Function.update_of_ne (Ne.symm hkey) _ _) (hrest key)
    · intro h
      have hself := h s.key
      rw [about, List.filter_cons, if_pos (by simp)] at hself
      refine ⟨hself.1, fun key => ?_⟩
      by_cases hkey : s.key = key
      · exact hkey ▸ hself.2
      · have hrest := h key
        rw [about, List.filter_cons, if_neg (by simpa using hkey)] at hrest
        exact hother hkey (habout key) (Function.update_of_ne (Ne.symm hkey) _ _).symm hrest

/-! ### Plans -/

/-- What to create, to replace and to drop. -/
structure Plan (K : Type u) where
  created : List K := []
  replaced : List K := []
  dropped : List K := []
  deriving DecidableEq, Repr

namespace Plan

/-- The statements of a plan: first what is created, then what is replaced, then what is dropped. -/
def statements (plan : Plan K) (value : K → V) : List (Statement K V) :=
  plan.created.map (fun key => .create key (value key))
    ++ plan.replaced.flatMap (fun key => [.drop key, .create key (value key)])
    ++ plan.dropped.map .drop

/-- No name stands in a plan twice. -/
structure Distinct (plan : Plan K) : Prop where
  created : plan.created.Nodup
  replaced : plan.replaced.Nodup
  dropped : plan.dropped.Nodup
  created_replaced : ∀ key ∈ plan.created, key ∉ plan.replaced
  created_dropped : ∀ key ∈ plan.created, key ∉ plan.dropped
  replaced_dropped : ∀ key ∈ plan.replaced, key ∉ plan.dropped

/-- The statements of a plan about one name. -/
def statementsFor (plan : Plan K) (value : K → V) (key : K) : List (Statement K V) :=
  if key ∈ plan.created then [.create key (value key)]
  else if key ∈ plan.replaced then [.drop key, .create key (value key)]
  else if key ∈ plan.dropped then [.drop key]
  else []

theorem about_map {keys : List K} (hkeys : keys.Nodup) (f : K → List (Statement K V))
    (hf : ∀ key, ∀ s ∈ f key, s.key = key) (key : K) :
    about key (keys.flatMap f) = if key ∈ keys then f key else [] := by
  induction keys with
  | nil => rfl
  | cons k keys ih =>
    obtain ⟨hk, hkeys⟩ := List.nodup_cons.mp hkeys
    have hmem (s : Statement K V) (hs : s ∈ f k) : decide (s.key = key) = decide (k = key) := by
      rw [hf k s hs]
    rw [List.flatMap_cons, about, List.filter_append, List.filter_congr hmem, ← about, ih hkeys]
    by_cases hkey : k = key
    · subst hkey
      simp [hk]
    · simp [hkey, Ne.symm hkey]

theorem about_statements {plan : Plan K} (h : plan.Distinct) (value : K → V) (key : K) :
    about key (plan.statements value) = plan.statementsFor value key := by
  have hcreated := about_map h.created (fun key => [Statement.create key (value key)])
    (by simp [Statement.key]) key
  have hreplaced := about_map h.replaced
    (fun key => [Statement.drop key, Statement.create key (value key)])
    (by simp [Statement.key]) key
  have hdropped := about_map (V := V) h.dropped (fun key => [Statement.drop key])
    (by simp [Statement.key]) key
  rw [← List.map_eq_flatMap] at hcreated hdropped
  unfold about at *
  rw [statements, List.filter_append, List.filter_append, hcreated, hreplaced, hdropped,
    statementsFor]
  by_cases hc : key ∈ plan.created
  · simp [hc, h.created_replaced key hc, h.created_dropped key hc]
  · by_cases hr : key ∈ plan.replaced
    · simp [hc, hr, h.replaced_dropped key hr]
    · simp [hc, hr]

variable {plan : Plan K} {value : K → V} {live : K → Option V}

/-- No statement of a plan is refused when what it creates is not there, and what it replaces or
drops is. -/
theorem allAllowed_statements (h : plan.Distinct)
    (hcreated : ∀ key ∈ plan.created, live key = none)
    (hreplaced : ∀ key ∈ plan.replaced, live key ≠ none)
    (hdropped : ∀ key ∈ plan.dropped, live key ≠ none) :
    AllAllowed live (plan.statements value) := by
  refine (allAllowed_iff live _).mpr fun key => ?_
  rw [about_statements h, statementsFor]
  split
  · next hmem => exact ⟨hcreated key hmem, trivial⟩
  split
  · next hmem => exact ⟨hreplaced key hmem, by simp [Statement.Allowed, Statement.key,
      Statement.leaves], trivial⟩
  split
  · next hmem => exact ⟨hdropped key hmem, trivial⟩
  · trivial

/-- What the whole plan leaves under a name. -/
theorem served_statements (h : plan.Distinct) (key : K) :
    served live (plan.statements value) key =
      if key ∈ plan.created then some (value key)
      else if key ∈ plan.replaced then some (value key)
      else if key ∈ plan.dropped then none
      else live key := by
  rw [served_apply, about_statements h, statementsFor]
  split <;> [rfl; split <;> [rfl; split <;> rfl]]

/-- What a first part of the plan leaves under a name. -/
theorem served_prefix (live : K → Option V) (h : plan.Distinct) {done rest : List (Statement K V)}
    (hdone : plan.statements value = done ++ rest) (key : K) :
    served live done key = live key ∨
      (key ∈ plan.created ∧ served live done key = some (value key)) ∨
      (key ∈ plan.replaced ∧
        (served live done key = none ∨ served live done key = some (value key))) ∨
      (key ∈ plan.dropped ∧ served live done key = none) := by
  have hprefix : about key done <+: plan.statementsFor value key := by
    rw [← about_statements h, hdone]
    exact (List.prefix_append done rest).filter _
  rw [served_apply]
  obtain ⟨left, hleft⟩ := hprefix
  generalize about key done = mine at hleft ⊢
  unfold statementsFor at hleft
  match mine with
  | [] => exact Or.inl rfl
  | [s] =>
    split at hleft
    · next hmem =>
      obtain ⟨rfl, -⟩ := List.cons.inj hleft
      exact Or.inr (Or.inl ⟨hmem, rfl⟩)
    split at hleft
    · next hmem =>
      obtain ⟨rfl, -⟩ := List.cons.inj hleft
      exact Or.inr (Or.inr (Or.inl ⟨hmem, Or.inl rfl⟩))
    split at hleft
    · next hmem =>
      obtain ⟨rfl, -⟩ := List.cons.inj hleft
      exact Or.inr (Or.inr (Or.inr ⟨hmem, rfl⟩))
    · cases hleft
  | s :: t :: more =>
    split at hleft
    · simp at hleft
    split at hleft
    · next hmem =>
      obtain ⟨rfl, hrest⟩ := List.cons.inj hleft
      obtain ⟨rfl, hmore⟩ := List.cons.inj hrest
      obtain rfl : more = [] := (List.append_eq_nil_iff.mp hmore).1
      exact Or.inr (Or.inr (Or.inl ⟨hmem, Or.inr rfl⟩))
    split at hleft
    · simp at hleft
    · cases hleft

end Plan

end Lib
