import Apchi.Lib.Prog

/-!
# Programs that owe calls

Some calls, once answered, leave debts: calls the program has to make next, in order, before it does
anything else.  An exception settles every debt.
-/

namespace Lib

namespace Prog

universe u

variable {Op : Type → Type u} {D α β : Type}

/-- The program pays what it owes, and goes on to owe what `O` says each of its calls leaves. -/
def Owing (pays : {β : Type} → Op β → D → Prop) (O : {β : Type} → Op β → β → List D → Prop) :
    Prog Op α → List D → Prop
  | ret _, owed => owed = []
  | raise _, owed => owed = []
  | call op k, [] => (∀ b, ∃ owed, O op b owed ∧ (k (.ok b)).Owing pays O owed) ∧
      ∀ e, (k (.error e)).Owing pays O []
  | call op k, debt :: owed => pays op debt ∧ (∀ b, (k (.ok b)).Owing pays O owed) ∧
      ∀ e, (k (.error e)).Owing pays O []

section Owing

variable {pays : {β : Type} → Op β → D → Prop} {O : {β : Type} → Op β → β → List D → Prop}
  {owed : List D}

/-- A program after one that pays what it owes. -/
theorem Owing.bind {p : Prog Op β} {f : β → Prog Op α} (hp : p.Owing pays O owed)
    (hf : ∀ b, (f b).Owing pays O []) : (p.bind f).Owing pays O owed := by
  induction p generalizing owed with
  | ret b =>
    obtain rfl : owed = [] := hp
    exact hf b
  | raise e => exact hp
  | call op k ih =>
    cases owed with
    | nil =>
      refine ⟨fun b => ?_, fun e => ih _ (hp.2 e)⟩
      obtain ⟨owed, hO, hk⟩ := hp.1 b
      exact ⟨owed, hO, ih _ hk⟩
    | cons debt owed => exact ⟨hp.1, fun b => ih _ (hp.2.1 b), fun e => ih _ (hp.2.2 e)⟩

theorem Owing.attempt {p : Prog Op α} (hp : p.Owing pays O owed) :
    p.attempt.Owing pays O owed := by
  induction p generalizing owed with
  | ret a => exact hp
  | raise e => exact hp
  | call op k ih =>
    cases owed with
    | nil =>
      refine ⟨fun b => ?_, fun e => ih _ (hp.2 e)⟩
      obtain ⟨owed, hO, hk⟩ := hp.1 b
      exact ⟨owed, hO, ih _ hk⟩
    | cons debt owed => exact ⟨hp.1, fun b => ih _ (hp.2.1 b), fun e => ih _ (hp.2.2 e)⟩

/-- A program whose calls leave no debts. -/
theorem All.owing {P : {β : Type} → Op β → Prop} {p : Prog Op α} (hp : p.All P)
    (hO : ∀ {β : Type} (op : Op β) (b : β), P op → O op b []) : p.Owing pays O [] := by
  induction p with
  | ret a => rfl
  | raise e => rfl
  | call op k ih => exact ⟨fun b => ⟨[], hO op b hp.1, ih _ (hp.2 _)⟩, fun e => ih _ (hp.2 _)⟩

/-- A call that pays a debt, then a program that pays the others. -/
theorem owing_pay {op : Op β} {f : β → Prog Op α} {debt : D} (h : pays op debt)
    (hf : ∀ b, (f b).Owing pays O owed) : ((perform op).bind f).Owing pays O (debt :: owed) :=
  ⟨h, hf, fun _ => rfl⟩

/-- A call, then a program that pays the debts it leaves. -/
theorem owing_leave {op : Op β} {f : β → Prog Op α}
    (h : ∀ b, ∃ owed, O op b owed ∧ (f b).Owing pays O owed) :
    ((perform op).bind f).Owing pays O [] :=
  ⟨h, fun _ => rfl⟩

end Owing

end Prog

end Lib
