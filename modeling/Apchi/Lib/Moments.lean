import Apchi.Lib.Prog

/-!
# When a program's calls are made

A program among others makes each of its calls in a state of its own.  A run that notes these states
tells when it found out what; nothing else of it is changed by the noting.
-/

namespace Lib

namespace Prog

universe u

variable {Op : Type → Type u} {W α β : Type} {R : W → W → Prop} {A : Answers Op W} {w w' : W}

/-- What can come of each call when others change the state by `R` before it, the state it is made in
being noted. -/
def noting (R : W → W → Prop) (A : Answers Op W) : Answers Op (List W × W) :=
  fun β op w r w' => ∃ w₁, R w.2 w₁ ∧ A β op w₁ r w'.2 ∧ w'.1 = w.1 ++ [w₁]

/-- A program that begins with a call, and returns. -/
theorem Exec.perform_inv {A : Answers Op W} {op : Op β} {f : β → Prog Op α} {a : α}
    (h : Exec A ((perform op).bind f) w (.ok a) w') :
    ∃ b w₁, A β op w (.ok b) w₁ ∧ Exec A (f b) w₁ (.ok a) w' := by
  cases h with
  | @call _ _ _ _ w₁ _ r _ hop hk =>
    cases r with
    | error e => cases hk
    | ok b => exact ⟨b, w₁, hop, hk⟩

theorem Exec.ret_inv {A : Answers Op W} {a b : α} (h : Exec A (Prog.ret a) w (.ok b) w') :
    a = b ∧ w = w' := by
  cases h
  exact ⟨rfl, rfl⟩

/-- What is noted is only added to. -/
theorem Exec.noted {p : Prog Op α} {moments moments' : List W} {r : Except Error α}
    (h : Exec (noting R A) p (moments, w) r (moments', w')) : ∃ more, moments' = moments ++ more := by
  generalize hstart : (moments, w) = start at h
  generalize hend : (moments', w') = final at h
  induction h generalizing moments w with
  | ret =>
    cases hstart
    cases hend
    exact ⟨[], (List.append_nil _).symm⟩
  | raise =>
    cases hstart
    cases hend
    exact ⟨[], (List.append_nil _).symm⟩
  | @call _ _ _ _ middle _ _ _ hop _ ih =>
    cases hstart
    obtain ⟨w₁, -, -, hnoted⟩ := hop
    obtain ⟨more, hmore⟩ := ih rfl hend
    refine ⟨w₁ :: more, ?_⟩
    rw [hmore, hnoted, List.append_assoc, List.singleton_append]

/-- A run alone is one in which nobody else does anything. -/
theorem Exec.alone {p : Prog Op α} {r : Except Error α} (h : Exec A p w r w') (moments : List W) :
    ∃ moments', Exec (noting Eq A) p (moments, w) r (moments', w') := by
  induction h generalizing moments with
  | ret => exact ⟨moments, .ret⟩
  | raise => exact ⟨moments, .raise⟩
  | @call _ _ _ w _ _ _ _ hop _ ih =>
    obtain ⟨moments', hrest⟩ := ih (moments ++ [w])
    exact ⟨moments', .call ⟨w, rfl, hop, rfl⟩ hrest⟩

end Prog

end Lib
