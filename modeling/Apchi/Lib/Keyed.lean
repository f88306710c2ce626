import Mathlib.Data.List.Basic
import Mathlib.Data.List.Nodup

/-!
# Lists that are merged by a key

A merge puts an element in the place of the first one with its key, or at the end; a change of one
element is made to the first one it is meant for.  Keys are listed once each, in the order in which
they come first.
-/

namespace Lib

namespace Keyed

variable {α β κ : Type}

/-! ### Each once -/

theorem nodup_eraseDups [BEq α] [LawfulBEq α] (l : List α) : l.eraseDups.Nodup := by
  generalize hlength : l.length = n
  induction n using Nat.strongRecOn generalizing l with
  | ind n ih =>
    cases l with
    | nil => simp
    | cons a rest =>
      rw [List.eraseDups_cons, List.nodup_cons]
      have hshort : (rest.filter fun b => !b == a).length < n := by
        rw [← hlength, List.length_cons]
        exact Nat.lt_succ_of_le (List.length_filter_le _ _)
      refine ⟨fun hmem => ?_, ih _ hshort _ rfl⟩
      simpa using (List.mem_filter.mp (List.mem_eraseDups.mp hmem)).2

/-- One and the same, however often. -/
theorem eraseDups_replicate [BEq α] [LawfulBEq α] (n : Nat) (a : α) :
    (List.replicate (n + 1) a).eraseDups = [a] := by
  rw [List.replicate_succ, List.eraseDups_cons, List.filter_replicate_of_neg (by simp)]
  rfl

/-! ### Changing the first of a kind -/

/-- The first element of this kind is changed. -/
@[simp] def modifyFirst (p : α → Bool) (f : α → α) : List α → List α
  | [] => []
  | a :: rest => if p a then f a :: rest else a :: modifyFirst p f rest

section modifyFirst

variable {p : α → Bool} {f g : α → α} {l : List α} {a : α}

/-- What another change leaves, too, or what this one makes of the first of the kind. -/
theorem mem_modifyFirst_other (g : α → α) (h : a ∈ modifyFirst p f l) :
    a ∈ modifyFirst p g l ∨ ∃ b, l.find? p = some b ∧ a = f b := by
  induction l with
  | nil => exact Or.inl h
  | cons b rest ih =>
    unfold modifyFirst at h ⊢
    by_cases hb : p b = true
    · rw [if_pos hb] at h ⊢
      rcases List.mem_cons.mp h with rfl | h
      · exact Or.inr ⟨b, List.find?_cons_of_pos hb, rfl⟩
      · exact Or.inl (List.mem_cons_of_mem _ h)
    · rw [if_neg hb] at h ⊢
      rcases List.mem_cons.mp h with rfl | h
      · exact Or.inl List.mem_cons_self
      · rcases ih h with h | ⟨c, hc, rfl⟩
        · exact Or.inl (List.mem_cons_of_mem _ h)
        · exact Or.inr ⟨c, by rw [List.find?_cons_of_neg hb, hc], rfl⟩

theorem modifyFirst_id : modifyFirst p id l = l := by
  induction l with
  | nil => rfl
  | cons b rest ih =>
    unfold modifyFirst
    rw [ih]
    split <;> rfl

theorem mem_modifyFirst (h : a ∈ modifyFirst p f l) :
    a ∈ l ∨ ∃ b, l.find? p = some b ∧ a = f b := by
  have := mem_modifyFirst_other id h
  rwa [modifyFirst_id] at this

/-- An element is left, or it is the first of the kind. -/
theorem mem_modifyFirst_or (h : a ∈ l) : a ∈ modifyFirst p f l ∨ l.find? p = some a := by
  induction l with
  | nil => cases h
  | cons b rest ih =>
    unfold modifyFirst
    by_cases hb : p b = true
    · rw [if_pos hb]
      rcases List.mem_cons.mp h with rfl | h
      · exact Or.inr (List.find?_cons_of_pos hb)
      · exact Or.inl (List.mem_cons_of_mem _ h)
    · rw [if_neg hb, List.find?_cons_of_neg hb]
      rcases List.mem_cons.mp h with rfl | h
      · exact Or.inl List.mem_cons_self
      · exact (ih h).imp (List.mem_cons_of_mem _) id

theorem mem_modifyFirst_find (h : l.find? p = some a) : f a ∈ modifyFirst p f l := by
  induction l with
  | nil => cases h
  | cons b rest ih =>
    unfold modifyFirst
    by_cases hb : p b = true
    · rw [List.find?_cons_of_pos hb] at h
      cases h
      rw [if_pos hb]
      exact List.mem_cons_self
    · rw [List.find?_cons_of_neg hb] at h
      rw [if_neg hb]
      exact List.mem_cons_of_mem _ (ih h)

theorem find?_modifyFirst (hf : ∀ a, p (f a) = p a) :
    (modifyFirst p f l).find? p = (l.find? p).map f := by
  induction l with
  | nil => rfl
  | cons b rest ih =>
    unfold modifyFirst
    by_cases hb : p b = true
    · rw [if_pos hb, List.find?_cons_of_pos (by rw [hf, hb]), List.find?_cons_of_pos hb]
      rfl
    · rw [if_neg hb, List.find?_cons_of_neg hb, List.find?_cons_of_neg hb, ih]

theorem any_modifyFirst (hf : ∀ a, p (f a) = p a) : (modifyFirst p f l).any p = l.any p := by
  induction l with
  | nil => rfl
  | cons b rest ih =>
    by_cases hb : p b = true
    · simp [modifyFirst, hb, hf]
    · simp [modifyFirst, hb, ih]

/-- One change after the other is one change. -/
theorem modifyFirst_modifyFirst (hf : ∀ a, p (f a) = p a) :
    modifyFirst p g (modifyFirst p f l) = modifyFirst p (g ∘ f) l := by
  induction l with
  | nil => rfl
  | cons b rest ih =>
    by_cases hb : p b = true
    · simp [modifyFirst, hb, hf]
    · simp [modifyFirst, hb, ih]

/-- A change changes nothing exactly when it leaves the first of the kind as it is. -/
theorem modifyFirst_eq_self_iff :
    modifyFirst p f l = l ↔ ∀ a, l.find? p = some a → f a = a := by
  induction l with
  | nil => simp [modifyFirst]
  | cons b rest ih =>
    unfold modifyFirst
    by_cases hb : p b = true
    · rw [if_pos hb, List.find?_cons_of_pos hb]
      simp
    · rw [if_neg hb, List.find?_cons_of_neg hb, ← ih]
      simp

/-- A change seen through a view is the view's change. -/
theorem map_modifyFirst {h : α → β} {q : β → Bool} {k : β → β} (hq : ∀ a, q (h a) = p a)
    (hk : ∀ a ∈ l, h (f a) = k (h a)) :
    (modifyFirst p f l).map h = modifyFirst q k (l.map h) := by
  induction l with
  | nil => rfl
  | cons b rest ih =>
    rw [List.map_cons, modifyFirst, modifyFirst, hq]
    split
    · rw [List.map_cons, hk b List.mem_cons_self]
    · rw [List.map_cons, ih fun a ha => hk a (List.mem_cons_of_mem _ ha)]

end modifyFirst

/-! ### Merging one element -/

variable [DecidableEq κ]

/-- The element takes the place of the first one with its key, or comes last. -/
@[simp] def upsert (key : α → κ) (x : α) : List α → List α
  | [] => [x]
  | a :: rest => if key a = key x then x :: rest else a :: upsert key x rest

section upsert

variable {key : α → κ} {x a : α} {l : List α}

theorem mem_upsert_self : x ∈ upsert key x l := by
  induction l with
  | nil => exact List.mem_cons_self
  | cons b rest ih =>
    unfold upsert
    split
    · exact List.mem_cons_self
    · exact List.mem_cons_of_mem _ ih

theorem mem_upsert (h : a ∈ upsert key x l) : a = x ∨ a ∈ l := by
  induction l with
  | nil => exact Or.inl (List.mem_singleton.mp h)
  | cons b rest ih =>
    unfold upsert at h
    split at h
    · exact (List.mem_cons.mp h).imp id (List.mem_cons_of_mem _)
    · rcases List.mem_cons.mp h with rfl | h
      · exact Or.inr List.mem_cons_self
      · exact (ih h).imp id (List.mem_cons_of_mem _)

theorem mem_upsert_of_ne (h : a ∈ l) (hne : key a ≠ key x) : a ∈ upsert key x l := by
  induction l with
  | nil => cases h
  | cons b rest ih =>
    unfold upsert
    rcases List.mem_cons.mp h with rfl | h
    · rw [if_neg hne]
      exact List.mem_cons_self
    · split
      · exact List.mem_cons_of_mem _ h
      · exact List.mem_cons_of_mem _ (ih h)

theorem nodup_upsert (h : (l.map key).Nodup) : ((upsert key x l).map key).Nodup := by
  induction l with
  | nil => simp [upsert]
  | cons b rest ih =>
    obtain ⟨hb, hrest⟩ := List.nodup_cons.mp h
    unfold upsert
    split
    · next heq =>
      rw [List.map_cons, ← heq]
      exact h
    · next hne =>
      refine List.nodup_cons.mpr ⟨fun hmem => ?_, ih hrest⟩
      obtain ⟨a, ha, hkey⟩ := List.mem_map.mp hmem
      rcases mem_upsert ha with rfl | ha
      · exact hne hkey.symm
      · exact hb (hkey ▸ List.mem_map_of_mem ha)

/-- Where keys are unique, a merge of what a filter leaves out drops what had the key. -/
theorem filter_upsert {p : α → Bool} (hx : p x = false) (h : (l.map key).Nodup) :
    (upsert key x l).filter p = (l.filter p).filter fun a => key a ≠ key x := by
  induction l with
  | nil => simp [upsert, hx]
  | cons b rest ih =>
    obtain ⟨hb, hrest⟩ := List.nodup_cons.mp h
    unfold upsert
    split
    · next heq =>
      have hkept : (rest.filter p).filter (fun a => key a ≠ key x) = rest.filter p := by
        refine List.filter_eq_self.mpr fun a ha => decide_eq_true fun hkey => hb ?_
        rw [heq, ← hkey]
        exact List.mem_map_of_mem (List.mem_filter.mp ha).1
      rw [List.filter_cons_of_neg (by simp [hx])]
      by_cases hpb : p b = true
      · rw [List.filter_cons_of_pos hpb, List.filter_cons_of_neg (by simp [heq]), hkept]
      · rw [List.filter_cons_of_neg hpb, hkept]
    · next hne =>
      by_cases hpb : p b = true
      · rw [List.filter_cons_of_pos hpb, List.filter_cons_of_pos hpb,
          List.filter_cons_of_pos (by simp [hne]), ih hrest]
      · rw [List.filter_cons_of_neg hpb, List.filter_cons_of_neg hpb, ih hrest]

/-- A merge is not seen by a filter that leaves out the element's key. -/
theorem filter_upsert_of_key {p : α → Bool} (hp : ∀ a, key a = key x → p a = false) :
    (upsert key x l).filter p = l.filter p := by
  induction l with
  | nil => simp [upsert, hp x rfl]
  | cons b rest ih =>
    unfold upsert
    split
    · next heq =>
      rw [List.filter_cons_of_neg (by simp [hp x rfl]), List.filter_cons_of_neg (by simp [hp b heq])]
    · rw [List.filter_cons, List.filter_cons, ih]

theorem find?_upsert_self : (upsert key x l).find? (fun a => key a = key x) = some x := by
  induction l with
  | nil => simp [upsert]
  | cons b rest ih =>
    unfold upsert
    split
    · exact List.find?_cons_of_pos (by simp)
    · next hne => rw [List.find?_cons_of_neg (by simpa using hne), ih]

theorem find?_upsert_of_ne {k : κ} (hk : k ≠ key x) :
    (upsert key x l).find? (fun a => key a = k) = l.find? fun a => key a = k := by
  induction l with
  | nil => simp [upsert, hk.symm]
  | cons b rest ih =>
    unfold upsert
    split
    · next heq =>
      rw [List.find?_cons_of_neg (by simpa using hk.symm),
        List.find?_cons_of_neg (by simpa [heq] using hk.symm)]
    · rw [List.find?_cons, List.find?_cons, ih]

/-- A merge changes nothing exactly when the element is there, first of its key. -/
theorem upsert_eq_self_iff : upsert key x l = l ↔ l.find? (fun a => key a = key x) = some x := by
  induction l with
  | nil => simp [upsert]
  | cons b rest ih =>
    unfold upsert
    split
    · next heq =>
      rw [List.find?_cons_of_pos (by simpa using heq)]
      simp [eq_comm]
    · next hne =>
      rw [List.find?_cons_of_neg (by simpa using hne), ← ih]
      simp

end upsert

end Keyed

end Lib
