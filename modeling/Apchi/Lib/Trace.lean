import Apchi.Lib.Prog

/-!
# What a program has done

The calls a program has made, each with what it was answered, and the rest of the program.  A trace
of two programs one after the other is a trace of the first, then one of the second; so a call that
only a later part can make tells what the earlier parts have come to.
-/

namespace Lib

universe u v

/-- A call that was made, and what it was answered. -/
structure Made (Op : Type → Type u) where
  {β : Type}
  op : Op β
  answer : Except Error β

namespace Prog

variable {Op : Type → Type u} {Op' : Type → Type v} {α β γ : Type}

/-- The calls made so far, and the rest of the program. -/
inductive TraceTo : Prog Op α → List (Made Op) → Prog Op α → Prop where
  | nil {p : Prog Op α} : TraceTo p [] p
  | cons {β : Type} {op : Op β} {k : Except Error β → Prog Op α} {r : Except Error β}
      {calls : List (Made Op)} {q : Prog Op α} (h : TraceTo (k r) calls q) :
      TraceTo (call op k) (⟨op, r⟩ :: calls) q

/-- The calls of a whole run, and what it came to. -/
def Comes (p : Prog Op α) (calls : List (Made Op)) (r : Except Error α) : Prop :=
  p.TraceTo calls (ofExcept r)

section Trace

variable {p : Prog Op α} {calls : List (Made Op)} {q : Prog Op α}

/-- One more call. -/
theorem TraceTo.snoc {op : Op β} {k : Except Error β → Prog Op α} (h : p.TraceTo calls (call op k))
    (r : Except Error β) : p.TraceTo (calls ++ [⟨op, r⟩]) (k r) := by
  generalize hq : call op k = q at h
  induction h with
  | nil =>
    subst hq
    exact .cons .nil
  | cons _ ih => exact .cons (ih hq)

/-- A call is still to be made, or it has been made first. -/
theorem TraceTo.call_inv {op : Op β} {k : Except Error β → Prog Op α}
    (h : (call op k).TraceTo calls q) : (calls = [] ∧ q = call op k) ∨
      ∃ r rest, calls = ⟨op, r⟩ :: rest ∧ (k r).TraceTo rest q := by
  cases h with
  | nil => exact Or.inl ⟨rfl, rfl⟩
  | cons hk => exact Or.inr ⟨_, _, rfl, hk⟩

/-- Two programs, one after the other, are in the first or in the second. -/
theorem TraceTo.bind_inv {f : α → Prog Op β} {q : Prog Op β} (h : (p.bind f).TraceTo calls q) :
    (∃ q₁, q = q₁.bind f ∧ p.TraceTo calls q₁) ∨
      ∃ a first rest, calls = first ++ rest ∧ p.Comes first (.ok a) ∧ (f a).TraceTo rest q := by
  induction p generalizing calls with
  | ret a => exact Or.inr ⟨a, [], calls, rfl, .nil, h⟩
  | raise e =>
    cases h with
    | nil => exact Or.inl ⟨raise e, rfl, .nil⟩
  | call op k ih =>
    cases h with
    | nil => exact Or.inl ⟨call op k, rfl, .nil⟩
    | cons hk =>
      rcases ih _ hk with ⟨q₁, rfl, hq₁⟩ | ⟨a, first, rest, rfl, ha, hrest⟩
      · exact Or.inl ⟨q₁, rfl, .cons hq₁⟩
      · exact Or.inr ⟨a, _, rest, rfl, .cons ha, hrest⟩

theorem TraceTo.attempt_inv {q : Prog Op (Except Error α)} (h : p.attempt.TraceTo calls q) :
    ∃ q₁, q = q₁.attempt ∧ p.TraceTo calls q₁ := by
  induction p generalizing calls with
  | ret a =>
    cases h with
    | nil => exact ⟨_, rfl, .nil⟩
  | raise e =>
    cases h with
    | nil => exact ⟨_, rfl, .nil⟩
  | call op k ih =>
    cases h with
    | nil => exact ⟨call op k, rfl, .nil⟩
    | cons hk =>
      obtain ⟨q₁, rfl, hq₁⟩ := ih _ hk
      exact ⟨q₁, rfl, .cons hq₁⟩

/-- What was attempted has come to what it is said to have come to. -/
theorem Comes.attempt_inv {r : Except Error α} (h : p.attempt.Comes calls (.ok r)) :
    p.Comes calls r := by
  obtain ⟨q, hq, htrace⟩ := TraceTo.attempt_inv h
  cases q with
  | ret a =>
    cases hq
    exact htrace
  | raise e =>
    cases hq
    exact htrace
  | call op k => cases hq

/-- A whole run of two programs is one of each. -/
theorem Comes.bind_inv {f : α → Prog Op β} {b : β} (h : (p.bind f).Comes calls (.ok b)) :
    ∃ a first rest, calls = first ++ rest ∧ p.Comes first (.ok a) ∧ (f a).Comes rest (.ok b) := by
  rcases TraceTo.bind_inv h with ⟨q, hq, htrace⟩ | hdone
  · cases q with
    | ret a =>
      refine ⟨a, calls, [], by simp, htrace, ?_⟩
      rw [Comes, hq]
      exact .nil
    | raise e => cases hq
    | call op k => cases hq
  · exact hdone

theorem comes_ret_inv {a b : α} (h : (ret a : Prog Op α).Comes calls (.ok b)) :
    calls = [] ∧ b = a := by
  generalize hq : (ofExcept (.ok b) : Prog Op α) = q at h
  unfold Comes at h
  cases h with
  | nil => exact ⟨rfl, by cases hq; rfl⟩

/-- One call that was answered. -/
theorem comes_perform_inv {op : Op α} {a : α} (h : (perform op).Comes calls (.ok a)) :
    calls = [⟨op, .ok a⟩] := by
  cases h with
  | @cons _ _ _ r rest _ hk =>
    rcases r with e | b
    · cases hk
    · obtain ⟨rfl, rfl⟩ := comes_ret_inv hk
      rfl

/-- The calls made, and those still to be made, are the program's. -/
theorem All.traceTo {P : {β : Type} → Op β → Prop} (hp : p.All P) (h : p.TraceTo calls q) :
    q.All P ∧ ∀ made ∈ calls, P made.op := by
  induction h with
  | nil => exact ⟨hp, nofun⟩
  | cons _ ih =>
    obtain ⟨hq, hcalls⟩ := ih (hp.2 _)
    refine ⟨hq, fun made hmem => ?_⟩
    rcases List.mem_cons.mp hmem with rfl | hmem
    · exact hp.1
    · exact hcalls made hmem

/-- Where the next call is none of the first program's, that is over. -/
theorem TraceTo.past {P : {β : Type} → Op β → Prop} {f : α → Prog Op β} {op : Op γ}
    {k : Except Error γ → Prog Op β} (hp : p.All P) (hop : ¬ P op)
    (h : (p.bind f).TraceTo calls (call op k)) :
    ∃ a first rest, calls = first ++ rest ∧ p.Comes first (.ok a) ∧
      (f a).TraceTo rest (call op k) := by
  rcases h.bind_inv with ⟨q, hq, htrace⟩ | hdone
  · cases q with
    | ret a => exact ⟨a, calls, [], by simp, htrace, hq ▸ .nil⟩
    | raise e => cases hq
    | call op' k' =>
      cases hq
      exact absurd (hp.traceTo htrace).1.1 hop
  · exact hdone

/-- Where the next call is none of what follows, the first program is still at it. -/
theorem TraceTo.before {P : {β : Type} → Op β → Prop} {f : α → Prog Op β} {op : Op γ}
    {k : Except Error γ → Prog Op β} (hf : ∀ a, (f a).All P) (hop : ¬ P op)
    (h : (p.bind f).TraceTo calls (call op k)) : ∃ k', p.TraceTo calls (call op k') := by
  rcases h.bind_inv with ⟨q, hq, htrace⟩ | ⟨a, _, _, -, -, hrest⟩
  · cases q with
    | ret a => exact absurd ((hq ▸ hf a : (call op k).All P)).1 hop
    | raise e => cases hq
    | call op' k' =>
      cases hq
      exact ⟨k', htrace⟩
  · exact absurd ((hf a).traceTo hrest).1.1 hop

theorem TraceTo.before_attempt {op : Op γ} {k : Except Error γ → Prog Op (Except Error α)}
    (h : p.attempt.TraceTo calls (call op k)) : ∃ k', p.TraceTo calls (call op k') := by
  obtain ⟨q, hq, htrace⟩ := h.attempt_inv
  cases q with
  | ret a => cases hq
  | raise e => cases hq
  | call op' k' =>
    cases hq
    exact ⟨k', htrace⟩

end Trace

end Prog

end Lib
