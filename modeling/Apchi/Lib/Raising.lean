import Mathlib.Tactic.Common

/-!
# What a computation raises

Which errors a computation can end in, kept from its parts to the whole.
-/

namespace Lib

variable {ε α β : Type}

/-- Whatever error the computation ends in, it is one of these. -/
def OnlyRaises (kinds : ε → Prop) (x : Except ε α) : Prop := ∀ e, x = .error e → kinds e

namespace OnlyRaises

variable {kinds : ε → Prop}

theorem ok (a : α) : OnlyRaises kinds (.ok a : Except ε α) := nofun

theorem of_eq_ok {x : Except ε α} {a : α} (h : x = .ok a) : OnlyRaises kinds x := h ▸ ok a

theorem error {e : ε} (h : kinds e) : OnlyRaises kinds (.error e : Except ε α) := by
  intro e' he
  cases he
  exact h

theorem mono {others : ε → Prop} {x : Except ε α} (h : OnlyRaises kinds x)
    (hkinds : ∀ e, kinds e → others e) : OnlyRaises others x := fun e he => hkinds e (h e he)

theorem bind {x : Except ε α} {f : α → Except ε β} (hx : OnlyRaises kinds x)
    (hf : ∀ a, x = .ok a → OnlyRaises kinds (f a)) : OnlyRaises kinds (x >>= f) := by
  cases x with
  | error e => exact error (hx e rfl)
  | ok a => exact hf a rfl

theorem foldlM {f : β → α → Except ε β} (h : ∀ b a, OnlyRaises kinds (f b a)) (as : List α) (b : β) :
    OnlyRaises kinds (as.foldlM f b) := by
  induction as generalizing b with
  | nil => exact ok b
  | cons a rest ih =>
    rw [List.foldlM_cons]
    exact (h b a).bind fun next _ => ih next

theorem mapM {f : α → Except ε β} {as : List α} (h : ∀ a ∈ as, OnlyRaises kinds (f a)) :
    OnlyRaises kinds (as.mapM f) := by
  induction as with
  | nil => exact ok []
  | cons a rest ih =>
    obtain ⟨hfirst, hrest⟩ := List.forall_mem_cons.mp h
    rw [List.mapM_cons]
    exact hfirst.bind fun b _ => (ih hrest).bind fun bs _ => ok (b :: bs)

/-- What raises nothing comes to a value. -/
theorem returns {x : Except ε α} (h : OnlyRaises (fun _ => False) x) : ∃ a, x = .ok a := by
  cases x with
  | error e => exact (h e rfl).elim
  | ok a => exact ⟨a, rfl⟩

end OnlyRaises

/-- A fold goes through exactly where each of its steps does, whatever it has come to. -/
theorem foldlM_ok_iff {f : β → α → Except ε β} {good : α → Prop}
    (h : ∀ b a, (∃ next, f b a = .ok next) ↔ good a) (as : List α) (b : β) :
    (∃ final, as.foldlM f b = .ok final) ↔ ∀ a ∈ as, good a := by
  induction as generalizing b with
  | nil => exact ⟨fun _ => by simp, fun _ => ⟨b, rfl⟩⟩
  | cons a rest ih =>
    rw [List.foldlM_cons, List.forall_mem_cons]
    constructor
    · rintro ⟨final, hfinal⟩
      cases hnext : f b a with
      | error e =>
        rw [hnext] at hfinal
        cases hfinal
      | ok next =>
        rw [hnext] at hfinal
        exact ⟨(h b a).mp ⟨next, hnext⟩, (ih next).mp ⟨final, hfinal⟩⟩
    · rintro ⟨hgood, hrest⟩
      obtain ⟨next, hnext⟩ := (h b a).mpr hgood
      obtain ⟨final, hfinal⟩ := (ih next).mpr hrest
      refine ⟨final, ?_⟩
      rw [hnext]
      exact hfinal

/-- A computation for each of a list goes through exactly where each of them does. -/
theorem mapM_ok_iff {f : α → Except ε β} {as : List α} :
    (∃ bs, as.mapM f = .ok bs) ↔ ∀ a ∈ as, ∃ b, f a = .ok b := by
  induction as with
  | nil => exact ⟨fun _ => by simp, fun _ => ⟨[], rfl⟩⟩
  | cons a rest ih =>
    rw [List.mapM_cons, List.forall_mem_cons, ← ih]
    constructor
    · rintro ⟨bs, hbs⟩
      cases hfirst : f a with
      | error e =>
        rw [hfirst] at hbs
        cases hbs
      | ok b =>
        rw [hfirst] at hbs
        refine ⟨⟨b, rfl⟩, ?_⟩
        cases hrest : rest.mapM f with
        | error e =>
          rw [hrest] at hbs
          cases hbs
        | ok others => exact ⟨others, rfl⟩
    · rintro ⟨⟨b, hfirst⟩, others, hothers⟩
      exact ⟨b :: others, by rw [hfirst, hothers]; rfl⟩

/-- What is made of what each of a list comes to. -/
theorem map_of_mapM {γ : Type} {f : α → Except ε β} {as : List α} {bs : List β} {p : β → γ} {g : α → γ}
    (h : as.mapM f = .ok bs) (hf : ∀ a b, f a = .ok b → p b = g a) : bs.map p = as.map g := by
  induction as generalizing bs with
  | nil =>
    cases h
    rfl
  | cons a rest ih =>
    rw [List.mapM_cons] at h
    cases hfirst : f a with
    | error e =>
      rw [hfirst] at h
      cases h
    | ok b =>
      rw [hfirst] at h
      cases hrest : rest.mapM f with
      | error e =>
        rw [hrest] at h
        cases h
      | ok others =>
        rw [hrest] at h
        cases h
        rw [List.map_cons, List.map_cons, hf a b hfirst, ih hrest]

/-- What each of a list comes to is found under it. -/
theorem lookup_of_mapM [BEq α] [LawfulBEq α] {f : α → Except ε (α × β)} {as : List α}
    {bs : List (α × β)} (h : as.mapM f = .ok bs) (hf : ∀ a b, f a = .ok b → b.1 = a) :
    bs.map Prod.fst = as ∧ ∀ a ∈ as, ∃ b, f a = .ok (a, b) ∧ bs.lookup a = some b := by
  induction as generalizing bs with
  | nil =>
    cases h
    exact ⟨rfl, by simp⟩
  | cons a rest ih =>
    rw [List.mapM_cons] at h
    cases hfirst : f a with
    | error e =>
      rw [hfirst] at h
      cases h
    | ok b =>
      rw [hfirst] at h
      cases hrest : rest.mapM f with
      | error e =>
        rw [hrest] at h
        cases h
      | ok others =>
        rw [hrest] at h
        cases h
        obtain ⟨hnames, hfound⟩ := ih hrest
        obtain ⟨name, value⟩ := b
        obtain rfl : name = a := hf a _ hfirst
        refine ⟨congrArg (name :: ·) hnames, fun other hother => ?_⟩
        rw [List.lookup_cons]
        by_cases heq : other = name
        · rw [heq, beq_self_eq_true]
          exact ⟨value, hfirst, rfl⟩
        · rw [beq_false_of_ne heq]
          exact hfound other ((List.mem_cons.mp hother).resolve_left heq)

end Lib
