import Mathlib.Logic.Basic

/-! # Programs over a command interface

A program issues commands one at a time and continues with the answer, which may be an exception.
Nothing here knows what the commands are: `C` is the type of commands, `R c` the type of the answer
to `c`, `E` the type of exceptions.

* `Prog.run`: the program alone, every command answered by the handler.
* `Exec`: the program alone, where any command may be refused before it takes effect, or may take
  effect and have its answer lost. The list in the middle records the commands that took effect.
-/
namespace Interaction
set_option autoImplicit false

/-- Finished, raising, or waiting for the answer to a command. -/
inductive Prog (C : Type) (R : C → Type) (E α : Type) where
  | pure (a : α)
  | throw (e : E)
  | call (c : C) (k : Except E (R c) → Prog C R E α)

variable {C : Type} {R : C → Type} {E σ α β γ : Type}

namespace Prog

def bind (p : Prog C R E α) (f : α → Prog C R E β) : Prog C R E β :=
  match p with
  | .pure a => f a
  | .throw e => .throw e
  | .call c k => .call c (fun r => (k r).bind f)

instance : Monad (Prog C R E) where
  pure := Prog.pure
  bind := Prog.bind

/-- Issue one command; an exception in the answer is raised. -/
def perform (c : C) : Prog C R E (R c) :=
  .call c fun r => match r with
    | .ok a => .pure a
    | .error e => .throw e

/-- `try p except e: h e`. -/
def tryCatch (p : Prog C R E α) (h : E → Prog C R E α) : Prog C R E α :=
  match p with
  | .pure a => .pure a
  | .throw e => h e
  | .call c k => .call c (fun r => (k r).tryCatch h)

/-- `try: p finally: q`. An exception of `q` replaces the outcome of `p`. -/
def tryFinally (p : Prog C R E α) (q : Prog C R E Unit) : Prog C R E α :=
  match p with
  | .pure a => q.bind fun _ => .pure a
  | .throw e => q.bind fun _ => .throw e
  | .call c k => .call c (fun r => (k r).tryFinally q)

/-- The command the program is about to issue. -/
def head : Prog C R E α → Option C
  | .call c _ => some c
  | _ => none

@[simp] theorem pure_eq (a : α) : (Pure.pure a : Prog C R E α) = .pure a := rfl

@[simp] theorem bind_eq (p : Prog C R E α) (f : α → Prog C R E β) : p >>= f = p.bind f := rfl

@[simp] theorem pure_bind (a : α) (f : α → Prog C R E β) : (Prog.pure a).bind f = f a := rfl

@[simp] theorem throw_bind (e : E) (f : α → Prog C R E β) :
    (Prog.throw e : Prog C R E α).bind f = .throw e := rfl

@[simp] theorem call_bind (c : C) (k : Except E (R c) → Prog C R E α) (f : α → Prog C R E β) :
    (Prog.call c k).bind f = .call c (fun r => (k r).bind f) := rfl

theorem bind_assoc (p : Prog C R E α) (f : α → Prog C R E β) (g : β → Prog C R E γ) :
    (p.bind f).bind g = p.bind (fun a => (f a).bind g) := by
  induction p with
  | pure a => rfl
  | throw e => rfl
  | call c k ih =>
    simp only [call_bind]
    congr 1
    funext r
    exact ih r

/-! ## Running alone -/

/-- What the store answers to a command, and the store afterwards. -/
abbrev Handler (C : Type) (R : C → Type) (E σ : Type) := (c : C) → σ → Except E (R c) × σ

def run (h : Handler C R E σ) : Prog C R E α → σ → Except E α × σ
  | .pure a, s => (.ok a, s)
  | .throw e, s => (.error e, s)
  | .call c k, s => run h (k (h c s).1) (h c s).2

variable (h : Handler C R E σ)

@[simp] theorem run_pure (a : α) (s : σ) : run h (Prog.pure a) s = (.ok a, s) := rfl

@[simp] theorem run_throw (e : E) (s : σ) : run h (Prog.throw e : Prog C R E α) s = (.error e, s) := rfl

@[simp] theorem run_call (c : C) (k : Except E (R c) → Prog C R E α) (s : σ) :
    run h (.call c k) s = run h (k (h c s).1) (h c s).2 := rfl

theorem run_bind (p : Prog C R E α) (f : α → Prog C R E β) (s : σ) :
    run h (p.bind f) s = match run h p s with
      | (.ok a, s') => run h (f a) s'
      | (.error e, s') => (.error e, s') := by
  induction p generalizing s with
  | pure a => rfl
  | throw e => rfl
  | call c k ih => exact ih (h c s).1 (h c s).2

theorem run_bind_ok {p : Prog C R E α} {a : α} {s s' : σ} (hp : run h p s = (.ok a, s'))
    (f : α → Prog C R E β) : run h (p.bind f) s = run h (f a) s' := by
  rw [run_bind, hp]

theorem run_bind_error {p : Prog C R E α} {e : E} {s s' : σ} (hp : run h p s = (.error e, s'))
    (f : α → Prog C R E β) : run h (p.bind f) s = (.error e, s') := by
  rw [run_bind, hp]

@[simp] theorem run_perform (c : C) (s : σ) :
    run h (perform c : Prog C R E (R c)) s = h c s := by
  rw [perform, run_call]
  cases hr : (h c s).1 with
  | ok a => exact Prod.ext hr.symm rfl
  | error e => exact Prod.ext hr.symm rfl

theorem run_tryCatch (p : Prog C R E α) (f : E → Prog C R E α) (s : σ) :
    run h (p.tryCatch f) s = match run h p s with
      | (.ok a, s') => (.ok a, s')
      | (.error e, s') => run h (f e) s' := by
  induction p generalizing s with
  | pure a => rfl
  | throw e => rfl
  | call c k ih => exact ih (h c s).1 (h c s).2

end Prog

open Prog

/-! ## Running with faults -/

/-- `Exec h p s done r s'`: alone from `s`, the program may end with `r` in `s'`, the commands
`done` having taken effect in this order. -/
inductive Exec (h : Handler C R E σ) : Prog C R E α → σ → List C → Except E α → σ → Prop where
  | pure (a : α) (s : σ) : Exec h (.pure a) s [] (.ok a) s
  | throw (e : E) (s : σ) : Exec h (.throw e) s [] (.error e) s
  /-- The command takes effect and is answered. -/
  | answered {c : C} {k : Except E (R c) → Prog C R E α} {s s' : σ} {done : List C} {r : Except E α}
      (rest : Exec h (k (h c s).1) (h c s).2 done r s') : Exec h (.call c k) s (c :: done) r s'
  /-- The command takes effect, the caller gets an exception instead of the answer. -/
  | lost {c : C} {k : Except E (R c) → Prog C R E α} {s s' : σ} {done : List C} {r : Except E α}
      (e : E) (rest : Exec h (k (.error e)) (h c s).2 done r s') : Exec h (.call c k) s (c :: done) r s'
  /-- The command fails without effect. -/
  | refused {c : C} {k : Except E (R c) → Prog C R E α} {s s' : σ} {done : List C} {r : Except E α}
      (e : E) (rest : Exec h (k (.error e)) s done r s') : Exec h (.call c k) s done r s'

variable {h : Handler C R E σ}

theorem Exec.of_run (p : Prog C R E α) (s : σ) :
    ∃ done, Exec h p s done (run h p s).1 (run h p s).2 := by
  induction p generalizing s with
  | pure a => exact ⟨[], .pure a s⟩
  | throw e => exact ⟨[], .throw e s⟩
  | call c k ih =>
    obtain ⟨done, hd⟩ := ih (h c s).1 (h c s).2
    exact ⟨c :: done, .answered hd⟩

theorem exec_pure {a : α} {s s' : σ} {done : List C} {r : Except E α} :
    Exec h (.pure a) s done r s' ↔ done = [] ∧ r = .ok a ∧ s' = s := by
  constructor
  · intro hx; cases hx; exact ⟨rfl, rfl, rfl⟩
  · rintro ⟨rfl, rfl, rfl⟩; exact .pure a _

theorem exec_throw {e : E} {s s' : σ} {done : List C} {r : Except E α} :
    Exec h (.throw e) s done r s' ↔ done = [] ∧ r = .error e ∧ s' = s := by
  constructor
  · intro hx; cases hx; exact ⟨rfl, rfl, rfl⟩
  · rintro ⟨rfl, rfl, rfl⟩; exact .throw e _

/-- A sequence of two programs raises in the first, or the first returns and the second runs. -/
theorem exec_bind {p : Prog C R E α} {f : α → Prog C R E β} {s s' : σ} {done : List C}
    {r : Except E β} (hx : Exec h (p.bind f) s done r s') :
    (∃ e, r = .error e ∧ Exec h p s done (.error e) s') ∨
    ∃ a s₁ done₁ done₂, Exec h p s done₁ (.ok a) s₁ ∧ Exec h (f a) s₁ done₂ r s' ∧
      done = done₁ ++ done₂ := by
  induction p generalizing s done with
  | pure a => exact .inr ⟨a, s, [], done, .pure a s, hx, rfl⟩
  | throw e =>
    obtain ⟨rfl, rfl, rfl⟩ := exec_throw.mp hx
    exact .inl ⟨e, rfl, .throw e _⟩
  | call c k ih =>
    cases hx with
    | answered rest =>
      obtain ⟨e, rfl, h1⟩ | ⟨a, s₁, d₁, d₂, h1, h2, rfl⟩ := ih _ rest
      · exact .inl ⟨e, rfl, .answered h1⟩
      · exact .inr ⟨a, s₁, c :: d₁, d₂, .answered h1, h2, rfl⟩
    | lost e' rest =>
      obtain ⟨e, rfl, h1⟩ | ⟨a, s₁, d₁, d₂, h1, h2, rfl⟩ := ih _ rest
      · exact .inl ⟨e, rfl, .lost e' h1⟩
      · exact .inr ⟨a, s₁, c :: d₁, d₂, .lost e' h1, h2, rfl⟩
    | refused e' rest =>
      obtain ⟨e, rfl, h1⟩ | ⟨a, s₁, d₁, d₂, h1, h2, rfl⟩ := ih _ rest
      · exact .inl ⟨e, rfl, .refused e' h1⟩
      · exact .inr ⟨a, s₁, d₁, d₂, .refused e' h1, h2, rfl⟩

theorem Exec.bind {p : Prog C R E α} {f : α → Prog C R E β} {a : α} {s s₁ s' : σ} {done₁ done₂ : List C}
    {r : Except E β} (hp : Exec h p s done₁ (.ok a) s₁) (hf : Exec h (f a) s₁ done₂ r s') :
    Exec h (p.bind f) s (done₁ ++ done₂) r s' := by
  induction p generalizing s done₁ with
  | pure b =>
    obtain ⟨rfl, hb, rfl⟩ := exec_pure.mp hp
    cases hb
    exact hf
  | throw e =>
    obtain ⟨-, hb, -⟩ := exec_throw.mp hp
    cases hb
  | call c k ih =>
    cases hp with
    | answered rest => exact .answered (ih _ rest)
    | lost e rest => exact .lost e (ih _ rest)
    | refused e rest => exact .refused e (ih _ rest)

theorem exec_tryCatch {p : Prog C R E α} {f : E → Prog C R E α} {s s' : σ} {done : List C}
    {r : Except E α} (hx : Exec h (p.tryCatch f) s done r s') :
    (∃ a, r = .ok a ∧ Exec h p s done (.ok a) s') ∨
    ∃ e s₁ done₁ done₂, Exec h p s done₁ (.error e) s₁ ∧ Exec h (f e) s₁ done₂ r s' ∧
      done = done₁ ++ done₂ := by
  induction p generalizing s done with
  | pure a =>
    obtain ⟨rfl, rfl, rfl⟩ := exec_pure.mp hx
    exact .inl ⟨a, rfl, .pure a _⟩
  | throw e => exact .inr ⟨e, s, [], done, .throw e s, hx, rfl⟩
  | call c k ih =>
    cases hx with
    | answered rest =>
      obtain ⟨a, rfl, h1⟩ | ⟨e, s₁, d₁, d₂, h1, h2, rfl⟩ := ih _ rest
      · exact .inl ⟨a, rfl, .answered h1⟩
      · exact .inr ⟨e, s₁, c :: d₁, d₂, .answered h1, h2, rfl⟩
    | lost e' rest =>
      obtain ⟨a, rfl, h1⟩ | ⟨e, s₁, d₁, d₂, h1, h2, rfl⟩ := ih _ rest
      · exact .inl ⟨a, rfl, .lost e' h1⟩
      · exact .inr ⟨e, s₁, c :: d₁, d₂, .lost e' h1, h2, rfl⟩
    | refused e' rest =>
      obtain ⟨a, rfl, h1⟩ | ⟨e, s₁, d₁, d₂, h1, h2, rfl⟩ := ih _ rest
      · exact .inl ⟨a, rfl, .refused e' h1⟩
      · exact .inr ⟨e, s₁, d₁, d₂, .refused e' h1, h2, rfl⟩

theorem exec_tryFinally {p : Prog C R E α} {q : Prog C R E Unit} {s s' : σ} {done : List C}
    {r : Except E α} (hx : Exec h (p.tryFinally q) s done r s') :
    ∃ r₁ r₂ s₁ done₁ done₂, Exec h p s done₁ r₁ s₁ ∧ Exec h q s₁ done₂ r₂ s' ∧
      done = done₁ ++ done₂ ∧ ((r₂ = .ok () ∧ r = r₁) ∨ ∃ e, r₂ = .error e ∧ r = .error e) := by
  induction p generalizing s done with
  | pure a =>
    obtain ⟨e, rfl, h1⟩ | ⟨u, s₁, d₁, d₂, h1, h2, rfl⟩ := exec_bind hx
    · exact ⟨_, _, s, [], done, .pure a s, h1, rfl, .inr ⟨e, rfl, rfl⟩⟩
    · obtain ⟨rfl, rfl, rfl⟩ := exec_pure.mp h2
      exact ⟨_, _, s, [], d₁, .pure a s, h1, by simp, .inl ⟨rfl, rfl⟩⟩
  | throw e =>
    obtain ⟨e', rfl, h1⟩ | ⟨u, s₁, d₁, d₂, h1, h2, rfl⟩ := exec_bind hx
    · exact ⟨_, _, s, [], done, .throw e s, h1, rfl, .inr ⟨e', rfl, rfl⟩⟩
    · obtain ⟨rfl, rfl, rfl⟩ := exec_throw.mp h2
      exact ⟨_, _, s, [], d₁, .throw e s, h1, by simp, .inl ⟨rfl, rfl⟩⟩
  | call c k ih =>
    cases hx with
    | answered rest =>
      obtain ⟨r₁, r₂, s₁, d₁, d₂, h1, h2, rfl, h3⟩ := ih _ rest
      exact ⟨r₁, r₂, s₁, c :: d₁, d₂, .answered h1, h2, rfl, h3⟩
    | lost e' rest =>
      obtain ⟨r₁, r₂, s₁, d₁, d₂, h1, h2, rfl, h3⟩ := ih _ rest
      exact ⟨r₁, r₂, s₁, c :: d₁, d₂, .lost e' h1, h2, rfl, h3⟩
    | refused e' rest =>
      obtain ⟨r₁, r₂, s₁, d₁, d₂, h1, h2, rfl, h3⟩ := ih _ rest
      exact ⟨r₁, r₂, s₁, d₁, d₂, .refused e' h1, h2, rfl, h3⟩

/-- One command: answered, answered into the void, or refused. -/
theorem exec_perform {c : C} {s s' : σ} {done : List C} {r : Except E (R c)}
    (hx : Exec h (perform c) s done r s') :
    (done = [c] ∧ s' = (h c s).2 ∧ (r = (h c s).1 ∨ ∃ e, r = .error e)) ∨
    (done = [] ∧ s' = s ∧ ∃ e, r = .error e) := by
  cases hx with
  | answered rest =>
    revert rest
    generalize (h c s).1 = a
    intro rest
    cases a with
    | ok a =>
      obtain ⟨rfl, rfl, rfl⟩ := exec_pure.mp rest
      exact .inl ⟨rfl, rfl, .inl rfl⟩
    | error e =>
      obtain ⟨rfl, rfl, rfl⟩ := exec_throw.mp rest
      exact .inl ⟨rfl, rfl, .inl rfl⟩
  | lost e rest =>
    obtain ⟨rfl, rfl, rfl⟩ := exec_throw.mp rest
    exact .inl ⟨rfl, rfl, .inr ⟨e, rfl⟩⟩
  | refused e rest =>
    obtain ⟨rfl, rfl, rfl⟩ := exec_throw.mp rest
    exact .inr ⟨rfl, rfl, e, rfl⟩

/-! ## Running with given faults -/

inductive Fault (E : Type) where
  | lost (e : E)
  | refused (e : E)

/-- One command: a command in `fallible` meets the first entry of `faults`. -/
def meet (h : Handler C R E σ) (fallible : C → Bool) (c : C) (faults : List (Option (Fault E))) (s : σ) :
    Except E (R c) × σ × List (Option (Fault E)) :=
  match fallible c, faults with
  | true, some (.lost e) :: faults => (.error e, (h c s).2, faults)
  | true, some (.refused e) :: faults => (.error e, s, faults)
  | true, none :: faults => ((h c s).1, (h c s).2, faults)
  | _, faults => ((h c s).1, (h c s).2, faults)

def Fault.exc : Fault E → E
  | .lost e => e
  | .refused e => e

/-- Alone, where the commands in `fallible` meet the entries of `faults` one after the other; what is
left of them is returned. -/
def Prog.runFaulty (h : Handler C R E σ) (fallible : C → Bool) :
    Prog C R E α → List (Option (Fault E)) → σ → Except E α × σ × List (Option (Fault E))
  | .pure a, faults, s => (.ok a, s, faults)
  | .throw e, faults, s => (.error e, s, faults)
  | .call c k, faults, s =>
    let met := meet h fallible c faults s
    (k met.1).runFaulty h fallible met.2.2 met.2.1

section Faulty
variable (fallible : C → Bool) (faults : List (Option (Fault E))) (s : σ)

theorem Exec.of_meet {c : C} {k : Except E (R c) → Prog C R E α} {done : List C} {r : Except E α} {s' : σ}
    (rest : Exec h (k (meet h fallible c faults s).1) (meet h fallible c faults s).2.1 done r s') :
    ∃ done, Exec h (.call c k) s done r s' := by
  revert rest
  unfold meet
  split
  · exact fun rest => ⟨_, .lost _ rest⟩
  · exact fun rest => ⟨_, .refused _ rest⟩
  · exact fun rest => ⟨_, .answered rest⟩
  · exact fun rest => ⟨_, .answered rest⟩

theorem Exec.of_runFaulty (p : Prog C R E α) :
    ∃ done, Exec h p s done (p.runFaulty h fallible faults s).1 (p.runFaulty h fallible faults s).2.1 := by
  induction p generalizing faults s with
  | pure a => exact ⟨[], .pure a s⟩
  | throw e => exact ⟨[], .throw e s⟩
  | call c k ih =>
    obtain ⟨done, hd⟩ := ih (meet h fallible c faults s).1 (meet h fallible c faults s).2.2
      (meet h fallible c faults s).2.1
    exact Exec.of_meet fallible faults s hd

namespace Prog

@[simp] theorem runFaulty_pure (a : α) :
    (Prog.pure a : Prog C R E α).runFaulty h fallible faults s = (.ok a, s, faults) := rfl

@[simp] theorem runFaulty_throw (e : E) :
    (Prog.throw e : Prog C R E α).runFaulty h fallible faults s = (.error e, s, faults) := rfl

theorem runFaulty_bind (p : Prog C R E α) (f : α → Prog C R E β) :
    (p.bind f).runFaulty h fallible faults s = match p.runFaulty h fallible faults s with
      | (.ok a, s', faults') => (f a).runFaulty h fallible faults' s'
      | (.error e, s', faults') => (.error e, s', faults') := by
  induction p generalizing faults s with
  | pure a => rfl
  | throw e => rfl
  | call c k ih => exact ih _ _ _

theorem runFaulty_bind_ok {p : Prog C R E α} {a : α} {s' : σ} {faults' : List (Option (Fault E))}
    (hp : p.runFaulty h fallible faults s = (.ok a, s', faults')) (f : α → Prog C R E β) :
    (p.bind f).runFaulty h fallible faults s = (f a).runFaulty h fallible faults' s' := by
  rw [runFaulty_bind, hp]

theorem runFaulty_tryCatch (p : Prog C R E α) (f : E → Prog C R E α) :
    (p.tryCatch f).runFaulty h fallible faults s = match p.runFaulty h fallible faults s with
      | (.ok a, s', faults') => (.ok a, s', faults')
      | (.error e, s', faults') => (f e).runFaulty h fallible faults' s' := by
  induction p generalizing faults s with
  | pure a => rfl
  | throw e => rfl
  | call c k ih => exact ih _ _ _

theorem runFaulty_tryFinally (p : Prog C R E α) (q : Prog C R E Unit) :
    (p.tryFinally q).runFaulty h fallible faults s =
      match p.runFaulty h fallible faults s with
      | (r, s', faults') => match q.runFaulty h fallible faults' s' with
        | (.ok _, s'', faults'') => (r, s'', faults'')
        | (.error e, s'', faults'') => (.error e, s'', faults'') := by
  induction p generalizing faults s with
  | pure a =>
    simp only [tryFinally, runFaulty_bind, runFaulty_pure]
    split <;> simp_all
  | throw e =>
    simp only [tryFinally, runFaulty_bind, runFaulty_throw]
    split <;> simp_all
  | call c k ih => exact ih _ _ _

theorem runFaulty_perform (c : C) :
    (perform c : Prog C R E (R c)).runFaulty h fallible faults s = meet h fallible c faults s := by
  simp only [perform, runFaulty]
  cases hr : (meet h fallible c faults s).1 with
  | ok a => exact Prod.ext hr.symm rfl
  | error e => exact Prod.ext hr.symm rfl

end Prog

/-- A command that cannot fail. -/
theorem meet_infallible {c : C} (hc : fallible c = false) :
    meet h fallible c faults s = ((h c s).1, (h c s).2, faults) := by
  unfold meet
  rw [hc]

/-- Without faults. -/
theorem runFaulty_nil (p : Prog C R E α) :
    p.runFaulty h fallible [] s = ((p.run h s).1, (p.run h s).2, []) := by
  have hmet : ∀ (c : C) (s : σ), meet h fallible c [] s = ((h c s).1, (h c s).2, []) := by
    intro c s
    unfold meet
    cases fallible c <;> rfl
  induction p generalizing s with
  | pure a => rfl
  | throw e => rfl
  | call c k ih =>
    rw [Prog.runFaulty, hmet]
    exact ih (h c s).1 (h c s).2

end Faulty
end Interaction
