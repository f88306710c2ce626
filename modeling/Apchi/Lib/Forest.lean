import Mathlib.Data.List.Nodup
import Mathlib.Data.List.Perm.Basic
import Mathlib.Logic.Relation
import Mathlib.Tactic.Common

/-!
# Forests kept as a list of nodes

Each node knows its parent, if it has one, and a parent is smaller than its children.  The forest is
walked from its roots down.  A walk that goes deep enough visits every node whose ancestors are all
there, and none twice; so it visits all of them exactly where no parent is missing.
-/

namespace Lib

namespace Forest

variable {α : Type} [DecidableEq α] (parent : α → Option α)

/-- The nodes right beneath a node. -/
def children (nodes : List α) (node : α) : List α := nodes.filter fun other => parent other = some node

/-- The nodes that have no parent. -/
def roots (nodes : List α) : List α := nodes.filter fun node => (parent node).isNone

/-- A node and what is beneath it, so many levels down. -/
def descend (nodes : List α) : Nat → α → List α
  | 0, node => [node]
  | levels + 1, node => node :: (children parent nodes node).flatMap (descend nodes levels)

/-- The whole forest, from its roots. -/
def walk (nodes : List α) (levels : Nat) : List α :=
  (roots parent nodes).flatMap (descend parent nodes levels)

/-- No parent is missing. -/
def Closed (nodes : List α) : Prop :=
  ∀ node ∈ nodes, ∀ above, parent node = some above → above ∈ nodes

/-- From a node up to its parent. -/
def Up (node above : α) : Prop := parent node = some above

variable {parent} {nodes : List α} {levels : Nat} {node other : α}

theorem mem_children : other ∈ children parent nodes node ↔ other ∈ nodes ∧ Up parent other node := by
  simp [children, Up]

omit [DecidableEq α] in
theorem mem_roots : node ∈ roots parent nodes ↔ node ∈ nodes ∧ parent node = none := by
  simp [roots]

/-- What is visited beneath a node has it for an ancestor. -/
theorem up_of_mem_descend (h : other ∈ descend parent nodes levels node) :
    Relation.ReflTransGen (Up parent) other node := by
  induction levels generalizing node with
  | zero =>
    rw [List.mem_singleton.mp h]
  | succ levels ih =>
    rcases List.mem_cons.mp h with rfl | h
    · exact .refl
    · obtain ⟨child, hchild, h⟩ := List.mem_flatMap.mp h
      exact (ih h).tail (mem_children.mp hchild).2

theorem mem_of_mem_descend (hnode : node ∈ nodes) (h : other ∈ descend parent nodes levels node) :
    other ∈ nodes := by
  induction levels generalizing node with
  | zero =>
    rw [List.mem_singleton.mp h]
    exact hnode
  | succ levels ih =>
    rcases List.mem_cons.mp h with rfl | h
    · exact hnode
    · obtain ⟨child, hchild, h⟩ := List.mem_flatMap.mp h
      exact ih (mem_children.mp hchild).1 h

/-- What is visited has its parent visited too, unless it is the root of the walk. -/
theorem parent_mem_descend (hnode : node ∈ nodes) (h : other ∈ descend parent nodes levels node) :
    other = node ∨ ∃ above ∈ nodes, Up parent other above := by
  induction levels generalizing node with
  | zero => exact Or.inl (List.mem_singleton.mp h)
  | succ levels ih =>
    rcases List.mem_cons.mp h with rfl | h
    · exact Or.inl rfl
    · obtain ⟨child, hchild, h⟩ := List.mem_flatMap.mp h
      obtain ⟨hmem, hup⟩ := mem_children.mp hchild
      rcases ih hmem h with rfl | hup'
      · exact Or.inr ⟨node, hnode, hup⟩
      · exact Or.inr hup'

section sized

variable {size : α → ℕ} (hsize : ∀ {node above}, Up parent node above → size above < size node)

include hsize

omit [DecidableEq α] in
theorem size_le_of_up (h : Relation.ReflTransGen (Up parent) other node) : size node ≤ size other := by
  induction h with
  | refl => exact Nat.le_refl _
  | tail _ hup ih => exact Nat.le_trans (Nat.le_of_lt (hsize hup)) ih

omit [DecidableEq α] in
/-- Two siblings have no descendant in common. -/
theorem eq_of_siblings {a b x : α} (hsame : parent a = parent b)
    (ha : Relation.ReflTransGen (Up parent) x a) (hb : Relation.ReflTransGen (Up parent) x b) :
    a = b := by
  have hunique : Relator.RightUnique (Up parent) := by
    intro node above above' h h'
    exact Option.some.inj (h.symm.trans h')
  -- Of two siblings one of which is above the other, the parent would be smaller than itself.
  have hcycle {a b : α} (hsame : parent a = parent b) (h : Relation.ReflTransGen (Up parent) a b) :
      a = b := by
    rcases Relation.ReflTransGen.cases_head h with rfl | ⟨above, hup, h⟩
    · rfl
    · have hup' : Up parent b above := hsame.symm.trans hup
      have := hsize hup'
      have := size_le_of_up hsize h
      omega
  rcases Relation.ReflTransGen.total_of_right_unique hunique ha hb with h | h
  · exact hcycle hsame h
  · exact (hcycle hsame.symm h).symm

theorem nodup_flatMap_descend {tops : List α} (hnodup : tops.Nodup)
    (hsame : ∀ a ∈ tops, ∀ b ∈ tops, parent a = parent b)
    (hdescend : ∀ a ∈ tops, (descend parent nodes levels a).Nodup) :
    (tops.flatMap (descend parent nodes levels)).Nodup := by
  rw [List.nodup_flatMap]
  refine ⟨hdescend, hnodup.imp_of_mem fun {a b} ha hb hne x hxa hxb => ?_⟩
  exact hne (eq_of_siblings hsize (hsame a ha b hb) (up_of_mem_descend hxa) (up_of_mem_descend hxb))

/-- No node is visited twice. -/
theorem nodup_descend (hnodup : nodes.Nodup) : (descend parent nodes levels node).Nodup := by
  induction levels generalizing node with
  | zero => exact List.nodup_singleton node
  | succ levels ih =>
    refine List.nodup_cons.mpr ⟨fun hmem => ?_, ?_⟩
    · obtain ⟨child, hchild, hmem⟩ := List.mem_flatMap.mp hmem
      have := hsize (mem_children.mp hchild).2
      have := size_le_of_up hsize (up_of_mem_descend hmem)
      omega
    · refine nodup_flatMap_descend hsize (hnodup.filter _) (fun a ha b hb => ?_) fun _ _ => ih
      exact (mem_children.mp ha).2.trans (mem_children.mp hb).2.symm

theorem nodup_walk (hnodup : nodes.Nodup) : (walk parent nodes levels).Nodup := by
  refine nodup_flatMap_descend hsize (hnodup.filter _) (fun a ha b hb => ?_)
    fun _ _ => nodup_descend hsize hnodup
  exact (mem_roots.mp ha).2.trans (mem_roots.mp hb).2.symm

/-- A walk that goes deep enough visits the children of what it visits. -/
theorem child_mem_descend {child : α} (hdeep : ∀ x ∈ nodes, size x ≤ size node + levels)
    (h : other ∈ descend parent nodes levels node) (hchild : child ∈ nodes)
    (hup : Up parent child other) : child ∈ descend parent nodes levels node := by
  have hlonger := hsize hup
  have habove := size_le_of_up hsize (up_of_mem_descend h)
  induction levels generalizing node with
  | zero =>
    have := hdeep child hchild
    omega
  | succ levels ih =>
    rcases List.mem_cons.mp h with rfl | h
    · refine List.mem_cons_of_mem _ (List.mem_flatMap.mpr ⟨child, mem_children.mpr ⟨hchild, hup⟩, ?_⟩)
      cases levels <;> exact List.mem_cons_self
    · obtain ⟨below, hbelow, h⟩ := List.mem_flatMap.mp h
      have hsmaller := hsize (mem_children.mp hbelow).2
      have habove' := size_le_of_up hsize (up_of_mem_descend h)
      refine List.mem_cons_of_mem _ (List.mem_flatMap.mpr ⟨below, hbelow, ih ?_ h habove'⟩)
      intro x hx
      have := hdeep x hx
      omega

/-- A forest in which no parent is missing is visited whole. -/
theorem mem_walk (hclosed : Closed parent nodes) (hdeep : ∀ x ∈ nodes, size x ≤ levels)
    (h : node ∈ nodes) : node ∈ walk parent nodes levels := by
  induction hlen : size node using Nat.strongRecOn generalizing node with
  | ind len ih =>
    cases hparent : parent node with
    | none =>
      refine List.mem_flatMap.mpr ⟨node, mem_roots.mpr ⟨h, hparent⟩, ?_⟩
      cases levels <;> exact List.mem_cons_self
    | some above =>
      have habove := ih (size above) (hlen ▸ hsize hparent) (hclosed node h above hparent) rfl
      obtain ⟨root, hroot, habove⟩ := List.mem_flatMap.mp habove
      refine List.mem_flatMap.mpr ⟨root, hroot, child_mem_descend hsize ?_ habove h hparent⟩
      exact fun x hx => Nat.le_trans (hdeep x hx) (Nat.le_add_left _ _)

/-- **A forest is visited whole, every node once, exactly where no parent is missing.** -/
theorem walk_perm_iff (hnodup : nodes.Nodup) (hdeep : ∀ x ∈ nodes, size x ≤ levels) :
    (walk parent nodes levels).Perm nodes ↔ Closed parent nodes := by
  constructor
  · intro hperm node hnode above hup
    obtain ⟨root, hroot, hmem⟩ := List.mem_flatMap.mp (hperm.mem_iff.mpr hnode)
    obtain ⟨hroot, hnone⟩ := mem_roots.mp hroot
    rcases parent_mem_descend hroot hmem with rfl | ⟨above', habove', hup'⟩
    · rw [hnone] at hup
      cases hup
    · rwa [Option.some.inj (hup.symm.trans hup')]
  · intro hclosed
    refine (List.perm_ext_iff_of_nodup (nodup_walk hsize hnodup) hnodup).mpr fun node => ⟨?_, ?_⟩
    · intro hmem
      obtain ⟨root, hroot, hmem⟩ := List.mem_flatMap.mp hmem
      exact mem_of_mem_descend (mem_roots.mp hroot).1 hmem
    · exact mem_walk hsize hclosed hdeep

end sized

end Forest

end Lib
