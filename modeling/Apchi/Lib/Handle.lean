import Apchi.Lib.Prog

/-!
# Programs over an interface, and what implements it

A program is written against the calls of an interface.  What implements the interface answers each
of them by a program over other calls, and keeps a state of its own between them; an exception it
raises is what the call raises, and leaves the state it had reached.
-/

namespace Lib

namespace Prog

universe u v

variable {Op : Type → Type u} {Op' : Type → Type v} {α β σ : Type}

/-- What implements the calls: each answered by a program, which leaves a state for the next. -/
abbrev Handler (Op : Type → Type u) (Op' : Type → Type v) (σ : Type) :=
  {β : Type} → Op β → σ → Prog Op' (Except Error β × σ)

/-- A program with its calls implemented. -/
def handle (h : Handler Op Op' σ) : Prog Op α → σ → Prog Op' (Except Error α × σ)
  | ret a, s => ret (.ok a, s)
  | raise e, s => ret (.error e, s)
  | call op k, s => (h op s).bind fun answered => (k answered.1).handle h answered.2

section handle

variable (h : Handler Op Op' σ) (s : σ)

@[simp] theorem handle_ret (a : α) : (ret a : Prog Op α).handle h s = ret (.ok a, s) := rfl

@[simp] theorem handle_raise (e : Error) :
    (raise e : Prog Op α).handle h s = ret (.error e, s) := rfl

theorem handle_call (op : Op β) (k : Except Error β → Prog Op α) :
    (call op k).handle h s = (h op s).bind fun answered => (k answered.1).handle h answered.2 := rfl

theorem handle_bind (p : Prog Op α) (f : α → Prog Op β) :
    (p.bind f).handle h s = (p.handle h s).bind fun done => match done.1 with
      | .ok a => (f a).handle h done.2
      | .error e => ret (.error e, done.2) := by
  induction p generalizing s with
  | ret a => rfl
  | raise e => rfl
  | call op k ih =>
    rw [call_bind, handle_call, handle_call, bind_assoc]
    exact congrArg _ (funext fun answered => ih _ _)

theorem handle_attempt (p : Prog Op α) :
    p.attempt.handle h s = (p.handle h s).bind fun done => ret (.ok done.1, done.2) := by
  induction p generalizing s with
  | ret a => rfl
  | raise e => rfl
  | call op k ih =>
    show (call op fun r => (k r).attempt).handle h s = _
    rw [handle_call, handle_call, bind_assoc]
    exact congrArg _ (funext fun answered => ih _ _)

/-- One call, implemented. -/
theorem handle_perform (op : Op α) :
    (perform op).handle h s = h op s := by
  rw [perform, handle_call]
  refine Eq.trans (congrArg (Prog.bind (h op s)) (funext fun answered => ?_)) (bind_ret (h op s))
  obtain ⟨_ | _, _⟩ := answered <;> rfl

/-- Calls that are made as they are stay what they were. -/
theorem handle_lift (f : {β : Type} → Op' β → Op β)
    (hf : ∀ {β : Type} (op : Op' β) (s : σ), h (f op) s = call op fun r => ret (r, s))
    (p : Prog Op' α) :
    (p.lift f).handle h s = p.attempt.bind fun r => ret (r, s) := by
  induction p with
  | ret a => rfl
  | raise e => rfl
  | call op k ih =>
    show (call (f op) fun r => (k r).lift f).handle h s = _
    rw [handle_call, hf]
    exact congrArg (call op) (funext ih)

end handle

/-- An exception of the first of two programs is that of both. -/
theorem attempt_bind (p : Prog Op α) (f : α → Prog Op β) :
    (p.bind f).attempt = p.attempt.bind fun r => match r with
      | .ok a => (f a).attempt
      | .error e => ret (.error e) := by
  induction p with
  | ret a => rfl
  | raise e => rfl
  | call op k ih => exact congrArg (call op) (funext ih)

/-- What was attempted, raised again. -/
theorem attempt_ofExcept (p : Prog Op α) : p.attempt.bind ofExcept = p := by
  induction p with
  | ret a => rfl
  | raise e => rfl
  | call op k ih => exact congrArg (call op) (funext ih)

/-- What comes of a program with its calls implemented is what comes of it over the interface, when
what implements a call, come what may, answers it as the interface says.  Something may be kept
beside the state of either. -/
theorem Exec.handle_inv {W L : Type} {A : Answers Op' W} {A' : Answers Op (L × W)}
    {h : Handler Op Op' σ}
    (hA : ∀ {β : Type} (op : Op β) s w x w' (l : L), Exec A (h op s) w x w' →
      ∃ r s' l', x = .ok (r, s') ∧ A' _ op (l, w) r (l', w'))
    {p : Prog Op α} {s : σ} {w w' : W} {x : Except Error (Except Error α × σ)}
    (hexec : Exec A (p.handle h s) w x w') (l : L) :
    ∃ r s' l', x = .ok (r, s') ∧ Exec A' p (l, w) r (l', w') := by
  induction p generalizing s w l with
  | ret a =>
    cases hexec
    exact ⟨_, _, _, rfl, .ret⟩
  | raise e =>
    cases hexec
    exact ⟨_, _, _, rfl, .raise⟩
  | call op k ih =>
    rcases Exec.bind_inv hexec with ⟨answered, w₁, hop, hk⟩ | ⟨e, -, hop⟩
    · obtain ⟨r, s₁, l₁, heq, hanswer⟩ := hA op s w _ w₁ l hop
      cases heq
      obtain ⟨r', s', l', hx, hrest⟩ := ih _ hk l₁
      exact ⟨r', s', l', hx, .call hanswer hrest⟩
    · obtain ⟨r, s₁, l₁, heq, -⟩ := hA op s w _ w' l hop
      cases heq

end Prog

end Lib
