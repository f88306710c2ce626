import Apchi.Lib.Prog

/-!
# Programs among others

While a program runs, others change the state between its calls.  What it may count on is a relation
between states; what it promises is said of each of its calls; and it is safe when the promise holds
of every call it makes in whatever state the others leave it.  A program may also be told apart into
what it does first and what it goes on to.
-/

namespace Lib

namespace Prog

universe u

variable {Op : Type → Type u} {W α β : Type}

/-! ### What a program does first -/

/-- Calls of `P`, until one whose outcome is gone on with as `F` says. -/
def Until (P : {β : Type} → Op β → Prop)
    (F : {β : Type} → Op β → (Except Error β → Prog Op α) → Prop) : Prog Op α → Prop
  | ret _ => True
  | raise _ => True
  | call op k => F op k ∨ P op ∧ ∀ r, (k r).Until P F

section Until

variable {P : {β : Type} → Op β → Prop}
  {F : {β : Type} → Op β → (Except Error β → Prog Op α) → Prop}

/-- A program after one that makes calls of `P`. -/
theorem Until.after {p : Prog Op β} {f : β → Prog Op α} (hp : p.All P)
    (hf : ∀ b, (f b).Until P F) : (p.bind f).Until P F := by
  induction p with
  | ret b => exact hf b
  | raise e => trivial
  | call op k ih => exact Or.inr ⟨hp.1, fun r => ih r (hp.2 r)⟩

theorem All.until {p : Prog Op α} (hp : p.All P) : p.Until P F := by
  induction p with
  | ret a => trivial
  | raise e => trivial
  | call op k ih => exact Or.inr ⟨hp.1, fun r => ih r (hp.2 r)⟩

end Until

/-! ### Safety under interference -/

/-- Whatever others do by `R` between the calls, each call keeps the promise `G`; and `Q` holds of
the outcome where the program has come to it. -/
def Safe (R : W → W → Prop) (A G : Answers Op W) :
    Prog Op α → (Except Error α → W → Prop) → W → Prop
  | ret a, Q, w => Q (.ok a) w
  | raise e, Q, w => Q (.error e) w
  | call op k, Q, w => ∀ w₁, R w w₁ → ∀ r w₂, A _ op w₁ r w₂ →
      G _ op w₁ r w₂ ∧ (k r).Safe R A G Q w₂

section Safe

variable {R : W → W → Prop} {A G : Answers Op W} {Q Q' : Except Error α → W → Prop} {w w' : W}

theorem Safe.mono {p : Prog Op α} (h : p.Safe R A G Q w) (hQ : ∀ r w', Q r w' → Q' r w') :
    p.Safe R A G Q' w := by
  induction p generalizing w with
  | ret a => exact hQ _ _ h
  | raise e => exact hQ _ _ h
  | call op k ih =>
    intro w₁ hR r w₂ hop
    obtain ⟨hG, hk⟩ := h w₁ hR r w₂ hop
    exact ⟨hG, ih r hk⟩

/-- Two promises of a program, and all that it comes to. -/
theorem Safe.and {G' : Answers Op W} {p : Prog Op α} (h : p.Safe R A G Q w)
    (h' : p.Safe R A G' Q' w) :
    p.Safe R A (fun β op w r w' => G β op w r w' ∧ G' β op w r w') (fun r w' => Q r w' ∧ Q' r w')
      w := by
  induction p generalizing w with
  | ret a => exact ⟨h, h'⟩
  | raise e => exact ⟨h, h'⟩
  | call op k ih =>
    intro w₁ hR r w₂ hop
    obtain ⟨hG, hk⟩ := h w₁ hR r w₂ hop
    obtain ⟨hG', hk'⟩ := h' w₁ hR r w₂ hop
    exact ⟨⟨hG, hG'⟩, ih r hk hk'⟩

/-- A weaker promise. -/
theorem Safe.promise {G' : Answers Op W} {p : Prog Op α} (h : p.Safe R A G Q w)
    (hG : ∀ {β : Type} (op : Op β) w r w', G β op w r w' → G' β op w r w') :
    p.Safe R A G' Q w := by
  induction p generalizing w with
  | ret a => exact h
  | raise e => exact h
  | call op k ih =>
    intro w₁ hR r w₂ hop
    obtain ⟨hpromise, hk⟩ := h w₁ hR r w₂ hop
    exact ⟨hG op _ _ _ hpromise, ih r hk⟩

/-- What others do does not disturb a safe program, if what it is to come to holds through it. -/
theorem Safe.stable {p : Prog Op α} (htrans : ∀ w₁ w₂ w₃, R w₁ w₂ → R w₂ w₃ → R w₁ w₃)
    (hQ : ∀ r w₁ w₂, R w₁ w₂ → Q r w₁ → Q r w₂) (h : p.Safe R A G Q w) (hR : R w w') :
    p.Safe R A G Q w' := by
  cases p with
  | ret a => exact hQ _ _ _ hR h
  | raise e => exact hQ _ _ _ hR h
  | call op k => exact fun w₁ hR₁ => h w₁ (htrans _ _ _ hR hR₁)

theorem safe_bind (p : Prog Op β) (f : β → Prog Op α) :
    (p.bind f).Safe R A G Q w ↔
      p.Safe R A G (fun r w' => match r with
        | .ok a => (f a).Safe R A G Q w'
        | .error e => Q (.error e) w') w := by
  induction p generalizing w with
  | ret a => exact Iff.rfl
  | raise e => exact Iff.rfl
  | call op k ih =>
    refine forall_congr' fun w₁ => forall_congr' fun _ => forall_congr' fun r =>
      forall_congr' fun w₂ => forall_congr' fun _ => and_congr_right fun _ => ?_
    exact ih r

theorem safe_attempt (p : Prog Op β) {Q : Except Error (Except Error β) → W → Prop} :
    p.attempt.Safe R A G Q w ↔ p.Safe R A G (fun r w' => Q (.ok r) w') w := by
  induction p generalizing w with
  | ret a => exact Iff.rfl
  | raise e => exact Iff.rfl
  | call op k ih =>
    refine forall_congr' fun w₁ => forall_congr' fun _ => forall_congr' fun r =>
      forall_congr' fun w₂ => forall_congr' fun _ => and_congr_right fun _ => ?_
    exact ih r

theorem safe_perform (op : Op α) :
    (perform op).Safe R A G Q w ↔
      ∀ w₁, R w w₁ → ∀ r w₂, A _ op w₁ r w₂ → G _ op w₁ r w₂ ∧ Q r w₂ := by
  refine forall_congr' fun w₁ => forall_congr' fun _ => forall_congr' fun r =>
    forall_congr' fun w₂ => forall_congr' fun _ => and_congr_right fun _ => ?_
  cases r <;> exact Iff.rfl

theorem safe_ofExcept (x : Except Error α) :
    (ofExcept x : Prog Op α).Safe R A G Q w ↔ Q x w := by
  cases x <;> exact Iff.rfl

/-- What others keep, and every call of `P` with its promise, holds to the end. -/
theorem All.safe {P : {β : Type} → Op β → Prop} {I : W → Prop}
    (hR : ∀ w w', R w w' → I w → I w')
    (hP : ∀ {β : Type} (op : Op β) w r w', P op → I w → A _ op w r w' → G _ op w r w' ∧ I w')
    {p : Prog Op α} (hp : p.All P) (hw : I w) : p.Safe R A G (fun _ w' => I w') w := by
  induction p generalizing w with
  | ret a => exact hw
  | raise e => exact hw
  | call op k ih =>
    intro w₁ hR₁ r w₂ hop
    obtain ⟨hG, hI⟩ := hP op _ _ _ hp.1 (hR _ _ hR₁ hw) hop
    exact ⟨hG, ih r (hp.2 r) hI⟩

end Safe

end Prog

end Lib
