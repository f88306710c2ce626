import Mathlib.Logic.Relation
import Mathlib.Tactic.Common

/-!
# Programs over calls that can fail

A program makes calls, one after the other, and goes on with what each one answers or with the
exception it raises.  What a call does when it goes through is a function of the state; besides
that, any call may be lost on its way, with or without having had its effect, and others may change
the state in between.

Three ways to reason about such programs are developed here, each with a rule for every way of
putting programs together: which calls a program can make at all (`All`), what holds when it is
over, whatever becomes of its calls (`Wp`), and the one run in which every call goes through
(`run`).
-/

namespace Lib

/-- An exception: its class and its text. -/
structure Error where
  kind : String
  text : String
  deriving DecidableEq, Repr

/-- What came to a value, step after step, came to one at each step. -/
theorem ok_of_bind {ε α β : Type} {x : Except ε α} {f : α → Except ε β} {b : β}
    (h : x >>= f = .ok b) : ∃ a, x = .ok a ∧ f a = .ok b := by
  cases x with
  | error e => cases h
  | ok a => exact ⟨a, rfl, h⟩

universe u v t

/-- A program over the calls `Op`. -/
inductive Prog (Op : Type → Type u) (α : Type) : Type (max 1 u) where
  | ret (a : α)
  | raise (e : Error)
  | call {β : Type} (op : Op β) (k : Except Error β → Prog Op α)

namespace Prog

variable {Op : Type → Type u} {Op' : Type → Type v} {α β γ : Type} {ι : Type t}

/-- The first program, then the second; an exception of the first ends both. -/
def bind : Prog Op α → (α → Prog Op β) → Prog Op β
  | ret a, f => f a
  | raise e, _ => raise e
  | call op k, f => call op fun r => (k r).bind f

instance : Monad (Prog Op) where
  pure := ret
  bind := bind

/-- One call, its exception raised. -/
def perform (op : Op α) : Prog Op α :=
  call op fun
    | .ok a => ret a
    | .error e => raise e

/-- `try`: the outcome of a program as a value. -/
def attempt : Prog Op α → Prog Op (Except Error α)
  | ret a => ret (.ok a)
  | raise e => ret (.error e)
  | call op k => call op fun r => (k r).attempt

/-- A program over other calls. -/
def lift (f : {β : Type} → Op β → Op' β) : Prog Op α → Prog Op' α
  | ret a => ret a
  | raise e => raise e
  | call op k => call (f op) fun r => (k r).lift f

/-- `for`: a program for each element, in order. -/
def each : List ι → (ι → Prog Op Unit) → Prog Op Unit
  | [], _ => ret ()
  | i :: is, f => (f i).bind fun _ => each is f

/-- What was computed before, or its exception. -/
def ofExcept : Except Error α → Prog Op α
  | .ok a => ret a
  | .error e => raise e

@[simp] theorem ret_bind (a : α) (f : α → Prog Op β) : (ret a).bind f = f a := rfl

@[simp] theorem raise_bind (e : Error) (f : α → Prog Op β) : (raise e).bind f = raise e := rfl

@[simp] theorem call_bind (op : Op γ) (k : Except Error γ → Prog Op α) (f : α → Prog Op β) :
    (call op k).bind f = call op fun r => (k r).bind f := rfl

@[simp] theorem pure_eq (a : α) : (pure a : Prog Op α) = ret a := rfl

@[simp] theorem bind_eq (p : Prog Op α) (f : α → Prog Op β) : (p >>= f) = p.bind f := rfl

theorem bind_assoc (p : Prog Op α) (f : α → Prog Op β) (g : β → Prog Op γ) :
    (p.bind f).bind g = p.bind fun a => (f a).bind g := by
  induction p with
  | ret a => rfl
  | raise e => rfl
  | call op k ih => exact congrArg (call op) (funext ih)

theorem bind_ret (p : Prog Op α) : p.bind ret = p := by
  induction p with
  | ret a => rfl
  | raise e => rfl
  | call op k ih => exact congrArg (call op) (funext ih)

theorem lift_bind (g : {β : Type} → Op β → Op' β) (p : Prog Op α) (f : α → Prog Op β) :
    (p.bind f).lift g = (p.lift g).bind fun a => (f a).lift g := by
  induction p with
  | ret a => rfl
  | raise e => rfl
  | call op k ih => exact congrArg (call (g op)) (funext ih)

theorem each_congr {is : List ι} {f g : ι → Prog Op Unit} (h : ∀ i ∈ is, f i = g i) :
    each is f = each is g := by
  induction is with
  | nil => rfl
  | cons i is ih =>
    show (f i).bind (fun _ => each is f) = (g i).bind fun _ => each is g
    rw [h i List.mem_cons_self, ih fun j hj => h j (List.mem_cons_of_mem i hj)]

theorem each_append (is js : List ι) (f : ι → Prog Op Unit) :
    each (is ++ js) f = (each is f).bind fun _ => each js f := by
  induction is with
  | nil => rfl
  | cons i is ih =>
    show (f i).bind (fun _ => each (is ++ js) f) = ((f i).bind fun _ => each is f).bind _
    rw [ih, bind_assoc]

theorem each_map {κ : Type t} (is : List κ) (g : κ → ι) (f : ι → Prog Op Unit) :
    each (is.map g) f = each is fun i => f (g i) := by
  induction is with
  | nil => rfl
  | cons i is ih => exact congrArg _ (funext fun _ => ih)

theorem each_flatMap {κ : Type t} (is : List κ) (g : κ → List ι) (f : ι → Prog Op Unit) :
    each (is.flatMap g) f = each is fun i => each (g i) f := by
  induction is with
  | nil => rfl
  | cons i is ih =>
    rw [List.flatMap_cons, each_append, ih]
    rfl

/-! ### Which calls a program can make -/

/-- Every call of the program, on whatever answers, is one of `P`. -/
def All (P : {β : Type} → Op β → Prop) : Prog Op α → Prop
  | ret _ => True
  | raise _ => True
  | call op k => P op ∧ ∀ r, (k r).All P

section All

variable {P Q : {β : Type} → Op β → Prop}

@[simp] theorem all_ret (a : α) : All P (ret a : Prog Op α) := trivial

@[simp] theorem all_raise (e : Error) : All P (raise e : Prog Op α) := trivial

theorem All.bind {p : Prog Op α} {f : α → Prog Op β} (hp : p.All P) (hf : ∀ a, (f a).All P) :
    (p.bind f).All P := by
  induction p with
  | ret a => exact hf a
  | raise e => trivial
  | call op k ih => exact ⟨hp.1, fun r => ih r (hp.2 r)⟩

theorem All.attempt {p : Prog Op α} (hp : p.All P) : p.attempt.All P := by
  induction p with
  | ret a => trivial
  | raise e => trivial
  | call op k ih => exact ⟨hp.1, fun r => ih r (hp.2 r)⟩

theorem all_perform {op : Op α} (h : P op) : (perform op).All P := by
  refine ⟨h, fun r => ?_⟩
  cases r <;> trivial

theorem all_each {is : List ι} {f : ι → Prog Op Unit} (h : ∀ i ∈ is, (f i).All P) :
    (each is f).All P := by
  induction is with
  | nil => trivial
  | cons i is ih =>
    exact (h i List.mem_cons_self).bind fun _ => ih fun j hj => h j (List.mem_cons_of_mem i hj)

@[simp] theorem all_ofExcept (x : Except Error α) : (ofExcept x : Prog Op α).All P := by
  cases x <;> trivial

theorem All.mono {p : Prog Op α} (hp : p.All P) (h : ∀ {β : Type} (op : Op β), P op → Q op) :
    p.All Q := by
  induction p with
  | ret a => trivial
  | raise e => trivial
  | call op k ih => exact ⟨h op hp.1, fun r => ih r (hp.2 r)⟩

theorem All.and {p : Prog Op α} (hp : p.All P) (hq : p.All Q) :
    p.All fun op => P op ∧ Q op := by
  induction p with
  | ret a => trivial
  | raise e => trivial
  | call op k ih => exact ⟨⟨hp.1, hq.1⟩, fun r => ih r (hp.2 r) (hq.2 r)⟩

theorem All.lift {f : {β : Type} → Op β → Op' β} {P' : {β : Type} → Op' β → Prop}
    {p : Prog Op α} (hp : p.All fun op => P' (f op)) : (p.lift f).All P' := by
  induction p with
  | ret a => trivial
  | raise e => trivial
  | call op k ih => exact ⟨hp.1, fun r => ih r (hp.2 r)⟩

end All

/-! ### What a program goes on to after a call -/

/-- Every call of `P`, whatever it answers, is followed by calls of `Q` only. -/
def Then (P Q : {β : Type} → Op β → Prop) : Prog Op α → Prop
  | ret _ => True
  | raise _ => True
  | call op k => (P op → ∀ r, (k r).All Q) ∧ ∀ r, (k r).Then P Q

section Then

variable {P Q : {β : Type} → Op β → Prop}

/-- A program that makes no call of `P`. -/
theorem All.then_of_not {p : Prog Op α} (hp : p.All fun op => ¬ P op) : p.Then P Q := by
  induction p with
  | ret a => trivial
  | raise e => trivial
  | call op k ih => exact ⟨fun h => absurd h hp.1, fun r => ih r (hp.2 r)⟩

/-- A program that makes calls of `Q` only. -/
theorem All.then {p : Prog Op α} (hp : p.All Q) : p.Then P Q := by
  induction p with
  | ret a => trivial
  | raise e => trivial
  | call op k ih => exact ⟨fun _ => hp.2, fun r => ih r (hp.2 r)⟩

/-- A program after one that makes no call of `P`. -/
theorem Then.after {p : Prog Op α} {f : α → Prog Op β} (hp : p.All fun op => ¬ P op)
    (hf : ∀ a, (f a).Then P Q) : (p.bind f).Then P Q := by
  induction p with
  | ret a => exact hf a
  | raise e => trivial
  | call op k ih => exact ⟨fun h => absurd h hp.1, fun r => ih r (hp.2 r)⟩

/-- A program before one that makes calls of `Q` only. -/
theorem Then.before {p : Prog Op α} {f : α → Prog Op β} (hp : p.Then P Q)
    (hf : ∀ a, (f a).All Q) : (p.bind f).Then P Q := by
  induction p with
  | ret a => exact (hf a).then
  | raise e => trivial
  | call op k ih => exact ⟨fun h r => (hp.1 h r).bind hf, fun r => ih r (hp.2 r)⟩

end Then

end Prog

/-! ### What calls do -/

/-- What each call answers and leaves behind when it goes through. -/
structure Machine (Op : Type → Type u) (W : Type) where
  exec : {β : Type} → Op β → W → Except Error β × W

namespace Machine

variable {Op : Type → Type u} {W : Type} {β : Type}

/-- What can come of a call: it goes through; it is lost; or its effect is there and the answer
is lost. -/
inductive Answer (M : Machine Op W) (op : Op β) (w : W) : Except Error β → W → Prop where
  | through : Answer M op w (M.exec op w).1 (M.exec op w).2
  | lost (e : Error) : Answer M op w (.error e) w
  | unheard (e : Error) : Answer M op w (.error e) (M.exec op w).2

/-- A call leaves the state as it was, or as it does when it goes through. -/
theorem Answer.state {M : Machine Op W} {op : Op β} {w w' : W} {r : Except Error β}
    (h : M.Answer op w r w') : w' = w ∨ w' = (M.exec op w).2 := by
  cases h with
  | through => exact Or.inr rfl
  | lost e => exact Or.inl rfl
  | unheard e => exact Or.inr rfl

/-- A call that answers has gone through. -/
theorem Answer.ok {M : Machine Op W} {op : Op β} {w w' : W} {b : β}
    (h : M.Answer op w (.ok b) w') : M.exec op w = (.ok b, w') := by
  generalize hr : Except.ok b = r at h
  cases h with
  | through => rfl
  | lost e => cases hr
  | unheard e => cases hr

end Machine

/-- What can come of each call: its answer, and the state it leaves. -/
abbrev Answers (Op : Type → Type u) (W : Type) :=
  (β : Type) → Op β → W → Except Error β → W → Prop

/-- Each call of a machine goes through. -/
def Machine.faithful {Op : Type → Type u} {W : Type} (M : Machine Op W) : Answers Op W :=
  fun _ op w r w' => M.exec op w = (r, w')

/-- What can come of each call of a machine. -/
def Machine.answers {Op : Type → Type u} {W : Type} (M : Machine Op W) : Answers Op W :=
  fun _ op w r w' => M.Answer op w r w'

namespace Prog

variable {Op : Type → Type u} {W α β : Type} {ι : Type t}

/-! ### The run in which every call goes through -/

/-- The run of a program in which every call goes through. -/
def run (M : Machine Op W) : Prog Op α → W → Except Error α × W
  | ret a, w => (.ok a, w)
  | raise e, w => (.error e, w)
  | call op k, w => (k (M.exec op w).1).run M (M.exec op w).2

section run

variable {M : Machine Op W}

@[simp] theorem run_ret (a : α) (w : W) : (ret a : Prog Op α).run M w = (.ok a, w) := rfl

@[simp] theorem run_raise (e : Error) (w : W) :
    (raise e : Prog Op α).run M w = (.error e, w) := rfl

theorem run_call (op : Op β) (k : Except Error β → Prog Op α) (w : W) :
    (call op k).run M w = (k (M.exec op w).1).run M (M.exec op w).2 := rfl

theorem run_bind (p : Prog Op α) (f : α → Prog Op β) (w : W) :
    (p.bind f).run M w =
      match p.run M w with
      | (.ok a, w') => (f a).run M w'
      | (.error e, w') => (.error e, w') := by
  induction p generalizing w with
  | ret a => rfl
  | raise e => rfl
  | call op k ih => exact ih _ _

theorem run_attempt (p : Prog Op α) (w : W) :
    p.attempt.run M w = (.ok (p.run M w).1, (p.run M w).2) := by
  induction p generalizing w with
  | ret a => rfl
  | raise e => rfl
  | call op k ih => exact ih _ _

theorem run_perform (op : Op α) (w : W) : (perform op).run M w = M.exec op w := by
  rw [perform, run_call]
  rcases M.exec op w with ⟨r, w'⟩
  cases r <;> rfl

@[simp] theorem run_ofExcept (x : Except Error α) (w : W) :
    (ofExcept x : Prog Op α).run M w = (x, w) := by
  cases x <;> rfl

/-- A program run on part of the state runs there as it does alone. -/
theorem run_lift {Op' : Type → Type v} {V : Type} {N : Machine Op' V}
    (f : {β : Type} → Op β → Op' β) (get : V → W) (set : V → W → V)
    (hexec : ∀ {β : Type} (op : Op β) (v : V),
      N.exec (f op) v = ((M.exec op (get v)).1, set v (M.exec op (get v)).2))
    (hget : ∀ v w, get (set v w) = w) (hset : ∀ v w w', set (set v w) w' = set v w')
    (hself : ∀ v, set v (get v) = v) (p : Prog Op α) (v : V) :
    (p.lift f).run N v = ((p.run M (get v)).1, set v (p.run M (get v)).2) := by
  induction p generalizing v with
  | ret a => exact Prod.ext rfl (hself v).symm
  | raise e => exact Prod.ext rfl (hself v).symm
  | call op k ih =>
    show ((k _).lift f).run N _ = _
    rw [hexec, ih, hget, hset]
    rfl

end run

/-! ### What holds when a program is over -/

/-- What can come of each call when others change the state by `R` before it. -/
def amid (R : W → W → Prop) (A : Answers Op W) : Answers Op W :=
  fun β op w r w' => ∃ w₁, R w w₁ ∧ A β op w₁ r w'

/-- A run of a program. -/
inductive Exec (A : Answers Op W) : Prog Op α → W → Except Error α → W → Prop where
  | ret {a : α} {w : W} : Exec A (ret a) w (.ok a) w
  | raise {e : Error} {w : W} : Exec A (raise e) w (.error e) w
  | call {β : Type} {op : Op β} {k : Except Error β → Prog Op α} {w w₁ w₂ : W}
      {r : Except Error β} {s : Except Error α} (hop : A β op w r w₁)
      (hk : Exec A (k r) w₁ s w₂) : Exec A (call op k) w s w₂

/-- Whatever becomes of the calls, `Q` holds of the outcome and the state it is reached in. -/
def Wp (A : Answers Op W) : Prog Op α → (Except Error α → W → Prop) → W → Prop
  | ret a, Q, w => Q (.ok a) w
  | raise e, Q, w => Q (.error e) w
  | call op k, Q, w => ∀ r w', A _ op w r w' → (k r).Wp A Q w'

section Wp

variable {A : Answers Op W} {Q Q' : Except Error α → W → Prop} {w w' : W}

/-- `Wp` speaks of every run. -/
theorem wp_iff (p : Prog Op α) :
    p.Wp A Q w ↔ ∀ r w', Exec A p w r w' → Q r w' := by
  constructor
  · intro hp r w' hexec
    induction hexec with
    | ret => exact hp
    | raise => exact hp
    | call hop _ ih => exact ih (hp _ _ hop)
  · intro h
    induction p generalizing w with
    | ret a => exact h _ _ .ret
    | raise e => exact h _ _ .raise
    | call op k ih =>
      intro r w₁ hop
      exact ih r fun s w₂ hk => h s w₂ (.call hop hk)

theorem Wp.exec {p : Prog Op α} (h : p.Wp A Q w) {r : Except Error α}
    (hexec : Exec A p w r w') : Q r w' :=
  (wp_iff p).mp h r w' hexec

theorem Wp.mono {p : Prog Op α} (h : p.Wp A Q w) (hQ : ∀ r w', Q r w' → Q' r w') :
    p.Wp A Q' w := by
  induction p generalizing w with
  | ret a => exact hQ _ _ h
  | raise e => exact hQ _ _ h
  | call op k ih => exact fun r w₁ hop => ih r (h r w₁ hop)

theorem Wp.and {p : Prog Op α} (h : p.Wp A Q w) (h' : p.Wp A Q' w) :
    p.Wp A (fun r w' => Q r w' ∧ Q' r w') w := by
  induction p generalizing w with
  | ret a => exact ⟨h, h'⟩
  | raise e => exact ⟨h, h'⟩
  | call op k ih => exact fun r w₁ hop => ih r (h r w₁ hop) (h' r w₁ hop)

theorem wp_bind (p : Prog Op β) (f : β → Prog Op α) :
    (p.bind f).Wp A Q w ↔
      p.Wp A (fun r w' => match r with
        | .ok a => (f a).Wp A Q w'
        | .error e => Q (.error e) w') w := by
  induction p generalizing w with
  | ret a => exact Iff.rfl
  | raise e => exact Iff.rfl
  | call op k ih =>
    exact forall_congr' fun r => forall_congr' fun w₁ => forall_congr' fun _ => ih r

theorem wp_attempt (p : Prog Op β) {Q : Except Error (Except Error β) → W → Prop} :
    p.attempt.Wp A Q w ↔ p.Wp A (fun r w' => Q (.ok r) w') w := by
  induction p generalizing w with
  | ret a => exact Iff.rfl
  | raise e => exact Iff.rfl
  | call op k ih =>
    exact forall_congr' fun r => forall_congr' fun w₁ => forall_congr' fun _ => ih r

theorem wp_perform (op : Op α) :
    (perform op).Wp A Q w ↔ ∀ r w', A _ op w r w' → Q r w' := by
  refine forall_congr' fun r => forall_congr' fun w₁ => forall_congr' fun _ => ?_
  cases r <;> exact Iff.rfl

@[simp] theorem wp_ofExcept (x : Except Error α) :
    (ofExcept x : Prog Op α).Wp A Q w ↔ Q x w := by
  cases x <;> exact Iff.rfl

/-- A loop keeps its invariant when its body does; an exception ends it. -/
theorem wp_each {is : List ι} {f : ι → Prog Op Unit} {Q : Except Error Unit → W → Prop}
    (I : List ι → W → Prop) (h : I is w)
    (hstep : ∀ i is w, I (i :: is) w → (f i).Wp A (fun r w' => match r with
      | .ok _ => I is w'
      | .error e => Q (.error e) w') w)
    (hend : ∀ w, I [] w → Q (.ok ()) w) : (each is f).Wp A Q w := by
  induction is generalizing w with
  | nil => exact hend w h
  | cons i is ih =>
    refine (wp_bind _ _).mpr ((hstep i is w h).mono fun r w' hr => ?_)
    cases r with
    | ok a => exact ih hr
    | error e => exact hr

/-- What every call of `P` keeps holds to the end. -/
theorem All.wp {P : {β : Type} → Op β → Prop} {I : W → Prop}
    (hP : ∀ {β : Type} (op : Op β) w r w', P op → I w → A _ op w r w' → I w')
    {p : Prog Op α} (h : p.All P) (hw : I w) : p.Wp A (fun _ w' => I w') w := by
  induction p generalizing w with
  | ret a => exact hw
  | raise e => exact hw
  | call op k ih => exact fun r w₁ hop => ih r (h.2 r) (hP op _ _ _ h.1 hw hop)

/-- The run in which every call goes through is one of the runs. -/
theorem Exec.of_run {M : Machine Op W} (hA : ∀ {β : Type} (op : Op β) w,
    A _ op w (M.exec op w).1 (M.exec op w).2) (p : Prog Op α) (w : W) :
    Exec A p w (p.run M w).1 (p.run M w).2 := by
  induction p generalizing w with
  | ret a => exact .ret
  | raise e => exact .raise
  | call op k ih => exact .call (hA op w) (ih _ _)

/-- That run is the only one in which every call goes through. -/
theorem exec_faithful_iff {M : Machine Op W} (p : Prog Op α) {r : Except Error α} :
    Exec M.faithful p w r w' ↔ p.run M w = (r, w') := by
  constructor
  · intro h
    induction h with
    | ret => rfl
    | raise => rfl
    | call hop _ ih =>
      unfold Machine.faithful at hop
      rw [run_call, hop]
      exact ih
  · intro h
    have hexec := Exec.of_run (M := M) (A := M.faithful) (fun _ _ => rfl) p w
    rwa [h] at hexec

/-- More can come of the calls of a run. -/
theorem Exec.mono {A' : Answers Op W} {p : Prog Op α} {r : Except Error α}
    (hA : ∀ {β : Type} (op : Op β) w r w', A _ op w r w' → A' _ op w r w')
    (h : Exec A p w r w') : Exec A' p w r w' := by
  induction h with
  | ret => exact .ret
  | raise => exact .raise
  | call hop _ ih => exact .call (hA _ _ _ _ hop) ih

theorem answer_of_faithful {M : Machine Op W} (op : Op β) {r : Except Error β}
    (h : M.faithful _ op w r w') : M.answers _ op w r w' := by
  unfold Machine.faithful at h
  have hthrough : M.Answer op w (M.exec op w).1 (M.exec op w).2 := .through
  rw [h] at hthrough
  exact hthrough

theorem Wp.run {M : Machine Op W} {p : Prog Op α} (h : p.Wp M.answers Q w) :
    Q (p.run M w).1 (p.run M w).2 :=
  h.exec (Exec.of_run (fun _ _ => .through) p w)

/-- A run of two programs, one after the other, is a run of each. -/
theorem Exec.bind_inv {p : Prog Op β} {f : β → Prog Op α} {r : Except Error α}
    (h : Exec A (p.bind f) w r w') :
    (∃ b w₁, Exec A p w (.ok b) w₁ ∧ Exec A (f b) w₁ r w') ∨
      ∃ e, r = .error e ∧ Exec A p w (.error e) w' := by
  have hwp : (p.bind f).Wp A (fun r w' =>
      (∃ b w₁, Exec A p w (.ok b) w₁ ∧ Exec A (f b) w₁ r w') ∨
        ∃ e, r = .error e ∧ Exec A p w (.error e) w') w := by
    refine (wp_bind p f).mpr ((wp_iff p).mpr fun s w₁ hs => ?_)
    cases s with
    | ok b => exact (wp_iff (f b)).mpr fun r w' hr => Or.inl ⟨b, w₁, hs, hr⟩
    | error e => exact Or.inr ⟨e, rfl, hs⟩
  exact hwp.exec h

/-- A run of a program, then of another. -/
theorem Exec.bind {p : Prog Op β} {f : β → Prog Op α} {b : β} {w₁ : W} {r : Except Error α}
    (hp : Exec A p w (.ok b) w₁) (hf : Exec A (f b) w₁ r w') : Exec A (p.bind f) w r w' := by
  generalize hs : Except.ok b = s at hp
  induction hp with
  | ret =>
    cases hs
    exact hf
  | raise => cases hs
  | call hop _ ih => exact .call hop (ih hf hs)

theorem Exec.attempt_inv {p : Prog Op β} {r : Except Error (Except Error β)}
    (h : Exec A p.attempt w r w') : ∃ s, r = .ok s ∧ Exec A p w s w' := by
  have hwp : p.attempt.Wp A (fun r w' => ∃ s, r = .ok s ∧ Exec A p w s w') w :=
    (wp_attempt p).mpr ((wp_iff p).mpr fun s w₁ hs => ⟨s, rfl, hs⟩)
  exact hwp.exec h

/-- What every call of `P` keeps holds after a run. -/
theorem All.exec {P : {β : Type} → Op β → Prop} {I : W → Prop}
    (hP : ∀ {β : Type} (op : Op β) w r w', P op → I w → A _ op w r w' → I w')
    {p : Prog Op α} (h : p.All P) (hw : I w) {r : Except Error α} (hexec : Exec A p w r w') :
    I w' :=
  (h.wp hP hw).exec hexec

/-- A run of a program over part of the state, on that part. -/
theorem Exec.lift_inv {Op' : Type → Type v} {V : Type} {f : {β : Type} → Op β → Op' β}
    {A' : Answers Op' V} (get : V → W) {p : Prog Op α} {v v' : V} {r : Except Error α}
    (hA : ∀ {β : Type} (op : Op β) v r v', A' _ (f op) v r v' → A _ op (get v) r (get v'))
    (h : Exec A' (p.lift f) v r v') : Exec A p (get v) r (get v') := by
  induction p generalizing v with
  | ret a =>
    cases h
    exact .ret
  | raise e =>
    cases h
    exact .raise
  | call op k ih =>
    cases h with
    | call hop hk => exact .call (hA op _ _ _ hop) (ih _ hk)

/-- A program over part of the state runs on the whole as it does on the part. -/
theorem wp_lift {Op' : Type → Type v} {V : Type} (f : {β : Type} → Op β → Op' β)
    {A : Answers Op W} {A' : Answers Op' V} (get : V → W) {p : Prog Op α}
    {Q : Except Error α → V → Prop} {v : V} {I : V → Prop} (hv : I v)
    (hA : ∀ {β : Type} (op : Op β) v r v', I v → A' _ (f op) v r v' → A _ op (get v) r (get v') ∧ I v')
    (h : p.Wp A (fun r w => ∀ v', get v' = w → I v' → Q r v') (get v)) :
    (p.lift f).Wp A' Q v := by
  induction p generalizing v with
  | ret a => exact h v rfl hv
  | raise e => exact h v rfl hv
  | call op k ih =>
    intro r v' hop
    obtain ⟨hop', hv'⟩ := hA op v r v' hv hop
    exact ih r hv' (h r _ hop')

end Wp

/-! ### Programs that raise what their calls raise -/

/-- An exception of a call ends the program. -/
def Strict : Prog Op α → Prop
  | ret _ => True
  | raise _ => True
  | call _ k => (∀ e, k (.error e) = raise e) ∧ ∀ b, (k (.ok b)).Strict

section Strict

theorem Strict.bind {p : Prog Op α} {f : α → Prog Op β} (hp : p.Strict)
    (hf : ∀ a, (f a).Strict) : (p.bind f).Strict := by
  induction p with
  | ret a => exact hf a
  | raise e => trivial
  | call op k ih =>
    refine ⟨fun e => ?_, fun b => ih _ (hp.2 b)⟩
    show (k (.error e)).bind f = raise e
    rw [hp.1 e]
    rfl

theorem strict_perform (op : Op α) : (perform op).Strict := ⟨fun _ => rfl, fun _ => trivial⟩

theorem strict_ofExcept (x : Except Error α) : (ofExcept x : Prog Op α).Strict := by
  cases x <;> trivial

theorem strict_each {is : List ι} {f : ι → Prog Op Unit} (h : ∀ i, (f i).Strict) :
    (each is f).Strict := by
  induction is with
  | nil => trivial
  | cons i is ih => exact (h i).bind fun _ => ih

/-- When such a program returns, every call has gone through. -/
theorem Strict.run_eq {M : Machine Op W} {p : Prog Op α} (hp : p.Strict) {w w' : W} {a : α}
    (h : Exec M.answers p w (.ok a) w') : p.run M w = (.ok a, w') := by
  generalize hr : Except.ok a = r at h
  induction h with
  | ret =>
    cases hr
    rfl
  | raise => cases hr
  | @call β op k w w₁ w₂ b s hop hk ih =>
    cases b with
    | error e =>
      rw [hp.1 e] at hk
      cases hk
      cases hr
    | ok b =>
      rw [run_call, hop.ok]
      exact ih (hp.2 b) hr

end Strict

end Prog

end Lib
