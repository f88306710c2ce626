import Apchi.Lib.Prog

/-!
# Where programs stop

A program may be stopped between any two of its calls, or by the failure of one.  Where it can have
come to by then is taken apart here the way the program is put together; a list of calls, each of
which leaves the state alone when it fails, has always come to the end of a first part of the list.
-/

namespace Lib

namespace Prog

universe u

variable {Op : Type → Type u} {W α β : Type}

/-- A run of a program has come to a state, with the rest of the program still to do. -/
inductive Stops (A : Answers Op W) : Prog Op α → W → Prog Op α → W → Prop where
  | here {p : Prog Op α} {w : W} : Stops A p w p w
  | call {β : Type} {op : Op β} {k : Except Error β → Prog Op α} {w w₁ w' : W}
      {r : Except Error β} {rest : Prog Op α} (hop : A β op w r w₁)
      (hk : Stops A (k r) w₁ rest w') : Stops A (call op k) w rest w'

section Stops

variable {A : Answers Op W} {w w' : W}

/-- Two programs, one after the other, have stopped in the first or in the second. -/
theorem Stops.bind_inv {p : Prog Op β} {f : β → Prog Op α} {q : Prog Op α}
    (h : Stops A (p.bind f) w q w') :
    (∃ q₁, q = q₁.bind f ∧ (∀ b, q₁ ≠ Prog.ret b) ∧ Stops A p w q₁ w') ∨
      ∃ b w₁, Exec A p w (.ok b) w₁ ∧ Stops A (f b) w₁ q w' := by
  induction p generalizing w with
  | ret b => exact Or.inr ⟨b, w, .ret, h⟩
  | raise e =>
    cases h with
    | here => exact Or.inl ⟨Prog.raise e, rfl, nofun, .here⟩
  | call op k ih =>
    cases h with
    | here => exact Or.inl ⟨.call op k, rfl, nofun, .here⟩
    | call hop hk =>
      rcases ih _ hk with ⟨q₁, rfl, hret, hq₁⟩ | ⟨b, w₁, hb, hq⟩
      · exact Or.inl ⟨q₁, rfl, hret, .call hop hq₁⟩
      · exact Or.inr ⟨b, w₁, .call hop hb, hq⟩

/-- What every call of `P` keeps holds wherever the program stops. -/
theorem All.stops {P : {β : Type} → Op β → Prop} {I : W → Prop}
    (hP : ∀ {β : Type} (op : Op β) w r w', P op → I w → A _ op w r w' → I w')
    {p q : Prog Op α} (hp : p.All P) (hw : I w) (h : Stops A p w q w') : I w' := by
  induction h with
  | here => exact hw
  | call hop _ ih => exact ih (hp.2 _) (hP _ _ _ _ hp.1 hw hop)

/-- Every call of the rest of a program is one of the program's. -/
theorem All.rest {P : {β : Type} → Op β → Prop} {p q : Prog Op α} (hp : p.All P)
    (h : Stops A p w q w') : q.All P := by
  induction h with
  | here => exact hp
  | call _ _ ih => exact ih (hp.2 _)

end Stops

/-- The next call of a program, if it is to make one, is one of `P`. -/
def Next (P : {β : Type} → Op β → Prop) : Prog Op α → Prop
  | ret _ => True
  | raise _ => True
  | call op _ => P op

section Next

variable {P : {β : Type} → Op β → Prop}

theorem All.next {p : Prog Op α} (h : p.All P) : p.Next P := by
  cases p with
  | ret a => trivial
  | raise e => trivial
  | call op k => exact h.1

/-- The next call of two programs, one after the other, is the first one's if that has not
returned. -/
theorem Next.bind {p : Prog Op β} {f : β → Prog Op α} (hp : p.Next P)
    (hret : ∀ b, p ≠ Prog.ret b) : (p.bind f).Next P := by
  cases p with
  | ret b => exact absurd rfl (hret b)
  | raise e => trivial
  | call op k => exact hp

end Next

section machine

variable {M : Machine Op W} {w w' : W}

/-- The first calls of a program gone through. -/
def stepping (M : Machine Op W) : Nat → Prog Op α → W → Prog Op α × W
  | 0, p, w => (p, w)
  | _ + 1, ret a, w => (ret a, w)
  | _ + 1, raise e, w => (raise e, w)
  | n + 1, call op k, w => stepping M n (k (M.exec op w).1) (M.exec op w).2

/-- After any number of calls a program can be stopped. -/
theorem stops_stepping (n : Nat) (p : Prog Op α) (w : W) :
    Stops M.answers p w (stepping M n p w).1 (stepping M n p w).2 := by
  induction n generalizing p w with
  | zero => exact .here
  | succ n ih =>
    cases p with
    | ret a => exact .here
    | raise e => exact .here
    | call op k => exact .call .through (ih _ _)

/-- A call that fails leaves the state alone. -/
def Refuses (M : Machine Op W) : Prop :=
  ∀ {β : Type} (op : Op β) (w : W) {e : Error}, (M.exec op w).1 = .error e → (M.exec op w).2 = w

/-- A list of calls has stopped after a first part of it, each call of which has gone through; it
goes on to the rest of the list, or one of its calls has failed. -/
theorem stops_each {ops : List (Op Unit)} {q : Prog Op Unit} (hrefuses : Refuses M)
    (h : Stops M.answers (each ops perform) w q w') :
    ∃ done rest, ops = done ++ rest ∧ (each done perform).run M w = (.ok (), w') ∧
      (q = each rest perform ∨ ∃ e, q = raise e) := by
  induction ops generalizing w with
  | nil =>
    cases h
    exact ⟨[], [], rfl, rfl, Or.inl rfl⟩
  | cons op ops ih =>
    cases h with
    | here => exact ⟨[], op :: ops, rfl, rfl, Or.inl rfl⟩
    | @call _ _ _ _ w₁ _ r _ hop hk =>
      -- A call that has had its effect is part of what is done, whether or not it was heard.
      have hdone (h : (M.exec op w).1 = .ok ()) :
          (each [op] perform).run M w = (.ok (), (M.exec op w).2) := by
        show (perform op |>.bind fun _ => ret ()).run M w = _
        rw [run_bind, run_perform]
        rcases hexec : M.exec op w with ⟨s, w₂⟩
        rw [hexec] at h
        cases h
        rfl
      cases r with
      | error e =>
        obtain ⟨rfl, rfl⟩ : q = raise e ∧ w' = w₁ := by
          cases hk
          exact ⟨rfl, rfl⟩
        cases hexec : (M.exec op w).1 with
        | error e' =>
          obtain rfl : w' = w := hop.state.elim id fun h => h.trans (hrefuses op w hexec)
          exact ⟨[], op :: ops, rfl, rfl, Or.inr ⟨e, rfl⟩⟩
        | ok u =>
          rcases hop.state with rfl | rfl
          · exact ⟨[], op :: ops, rfl, rfl, Or.inr ⟨e, rfl⟩⟩
          · exact ⟨[op], ops, rfl, hdone hexec, Or.inr ⟨e, rfl⟩⟩
      | ok u =>
        have hexec := hop.ok
        obtain ⟨done, rest, rfl, hrun, hrest⟩ := ih hk
        refine ⟨op :: done, rest, rfl, ?_, hrest⟩
        show ((perform op).bind fun _ => each done perform).run M w = _
        rw [run_bind, run_perform, hexec]
        exact hrun

section moments

variable {I : W → Prop}

/-- What holds wherever a program that begins with a call stops. -/
theorem forall_stops_perform {op : Op β} {f : β → Prog Op α} {b : β} {w₁ : W}
    (hexec : M.exec op w = (.ok b, w₁)) :
    (∀ q w', Stops M.answers ((perform op).bind f) w q w' → I w') ↔
      I w ∧ ∀ q w', Stops M.answers (f b) w₁ q w' → I w' := by
  constructor
  · intro h
    refine ⟨h _ _ .here, fun q w' hstops => h q w' ?_⟩
    have hanswer : M.Answer op w (.ok b) w₁ := by
      have := @Machine.Answer.through _ _ _ M op w
      rwa [hexec] at this
    exact .call hanswer hstops
  · rintro ⟨hw, hrest⟩ q w' hstops
    cases hstops with
    | here => exact hw
    | @call _ _ _ _ w₂ _ r _ hop hk =>
      cases r with
      | ok b' =>
        obtain ⟨rfl, rfl⟩ : b' = b ∧ w₂ = w₁ := by
          have := (Machine.Answer.ok hop).symm.trans hexec
          exact ⟨Except.ok.inj (congrArg Prod.fst this), congrArg Prod.snd this⟩
        exact hrest q w' hk
      | error e =>
        have hstate : w' = w₂ := by
          cases hk
          rfl
        rcases Machine.Answer.state hop with h | h
        · rw [hstate, h]
          exact hw
        · rw [hstate, h, hexec]
          exact hrest _ _ .here

/-- A program whose first call fails stops where it is. -/
theorem forall_stops_refused {op : Op β} {f : β → Prog Op α} {e : Error}
    (hexec : M.exec op w = (.error e, w)) :
    (∀ q w', Stops M.answers ((perform op).bind f) w q w' → I w') ↔ I w := by
  refine ⟨fun h => h _ _ .here, fun hw q w' hstops => ?_⟩
  cases hstops with
  | here => exact hw
  | @call _ _ _ _ w₂ _ r _ hop hk =>
    have hsame : w₂ = w := by
      rcases Machine.Answer.state hop with h | h
      · exact h
      · rw [h, hexec]
    cases r with
    | ok b =>
      have := (Machine.Answer.ok hop).symm.trans hexec
      cases congrArg Prod.fst this
    | error e' =>
      have hstate : w' = w₂ := by
        cases hk
        rfl
      rw [hstate, hsame]
      exact hw

end moments

end machine

end Prog

end Lib
