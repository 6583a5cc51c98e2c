import Lingshu.Interaction.Typestate

/-! # Journals

* `Prog.Runs p xs o`: the program runs to its end with the outcome `o`; `xs` has its commands with what they were answered.
* `journalled`: the discipline of a call that may issue what its journal so far admits.
* `System.keep`: a pool in which every call keeps a journal. `Keeps.journals` is the induction rule for what holds of the
  store and the journals together. -/
namespace Interaction
set_option autoImplicit false

variable {C : Type} {R : C → Type} {E σ α β K V : Type}

abbrev Journal (C : Type) (R : C → Type) (E : Type) : Type := List ((c : C) × Except E (R c))

namespace Prog

inductive Runs : Prog C R E α → Journal C R E → Except E α → Prop where
  | pure (a : α) : Runs (.pure a) [] (.ok a)
  | throw (e : E) : Runs (.throw e) [] (.error e)
  | call {c : C} {k : Except E (R c) → Prog C R E α} {xs : Journal C R E} {o : Except E α} (r : Except E (R c))
      (rest : Runs (k r) xs o) : Runs (.call c k) (⟨c, r⟩ :: xs) o

variable {p : Prog C R E α} {f : α → Prog C R E β} {xs : Journal C R E} {o : Except E α} {a : α} {b : β}

theorem Runs.of_pure (h : (Prog.pure a : Prog C R E α).Runs xs o) : xs = [] ∧ o = .ok a := by
  cases h
  exact ⟨rfl, rfl⟩

theorem Runs.of_throw {e : E} (h : (Prog.throw e : Prog C R E α).Runs xs o) : xs = [] ∧ o = .error e := by
  cases h
  exact ⟨rfl, rfl⟩

/-- A sequence that returns: the first part has returned, then the second. -/
theorem Runs.of_bind (h : (p.bind f).Runs xs (.ok b)) :
    ∃ a ys zs, p.Runs ys (.ok a) ∧ (f a).Runs zs (.ok b) ∧ xs = ys ++ zs := by
  induction p generalizing xs with
  | pure a => exact ⟨a, [], xs, .pure a, h, rfl⟩
  | throw e => cases h
  | call c k ih =>
    cases h with
    | call r rest =>
      obtain ⟨a, ys, zs, hp, hf, rfl⟩ := ih r rest
      exact ⟨a, ⟨c, r⟩ :: ys, zs, .call r hp, hf, rfl⟩

theorem Runs.of_perform {c : C} {x : R c} (h : (Prog.perform c : Prog C R E (R c)).Runs xs (.ok x)) :
    xs = [⟨c, .ok x⟩] := by
  cases h with
  | call r rest =>
    cases r with
    | ok y =>
      cases rest
      rfl
    | error e => cases rest

variable {Pre : C → Prop} {Post : (c : C) → R c → Prop} {Q : α → Prop}

/-- The journal of a program that meets a contract, and what it returned. -/
theorem Meets.of_runs (h : p.Meets Pre (fun _ _ => True) Q) (hr : p.Runs xs o) :
    (∀ l ∈ xs, Pre l.1) ∧ ∀ a, o = .ok a → Q a := by
  induction hr with
  | pure a =>
    refine ⟨fun l hl => (nomatch hl), ?_⟩
    intro b hb
    cases hb
    exact h
  | throw e => exact ⟨fun l hl => (nomatch hl), fun a ha => nomatch ha⟩
  | @call c k xs o r rest ih =>
    obtain ⟨hlines, hQ⟩ : (∀ l ∈ xs, Pre l.1) ∧ ∀ a, o = .ok a → Q a := by
      cases r with
      | ok x => exact ih (h.2.1 x trivial)
      | error e => exact ih (h.2.2 e)
    refine ⟨fun l hl => ?_, hQ⟩
    rcases List.mem_cons.mp hl with rfl | hl
    · exact h.1
    · exact hlines l hl

/-- The phases of a call are its journals. -/
def journalled (admits : Journal C R E → C → Prop) : Discipline C R E (Journal C R E) :=
  ⟨admits, fun xs c r => xs ++ [⟨c, r⟩]⟩

variable {admits : Journal C R E → C → Prop}

/-- A part whose commands are admitted after whatever it has issued before. -/
theorem Meets.journal (h : p.Meets Pre Post Q) (hadmits : ∀ ys c, Pre c → admits (xs ++ ys) c) :
    p.Follows (journalled admits) Post (fun zs o => ∃ ys, zs = xs ++ ys ∧ p.Runs ys o) xs := by
  induction p generalizing xs with
  | pure a => exact ⟨[], (List.append_nil xs).symm, .pure a⟩
  | throw e => exact ⟨[], (List.append_nil xs).symm, .throw e⟩
  | call c k ih =>
    have hrest : ∀ r, (k r).Meets Pre Post Q → (k r).Follows (journalled admits) Post
        (fun zs o => ∃ ys, zs = xs ++ ys ∧ (Prog.call c k).Runs ys o) (xs ++ [⟨c, r⟩]) := by
      intro r hr
      have hlater : ∀ ys d, Pre d → admits (xs ++ [⟨c, r⟩] ++ ys) d := by
        intro ys d hd
        rw [List.append_assoc]
        exact hadmits _ d hd
      refine (ih r hr hlater).mono fun zs o hzs => ?_
      obtain ⟨ys, rfl, hruns⟩ := hzs
      exact ⟨⟨c, r⟩ :: ys, List.append_assoc _ _ _, .call r hruns⟩
    refine ⟨?_, fun x hx => hrest _ (h.2.1 x hx), fun e => hrest _ (h.2.2 e)⟩
    have hnow := hadmits [] c h.1
    rwa [List.append_nil] at hnow

theorem Follows.line {c : C} (h : admits xs c) : (Prog.perform c : Prog C R E (R c)).Follows (journalled admits) Post
    (fun zs r => zs = xs ++ [⟨c, r⟩]) xs :=
  (Follows.perform h).mono fun _ _ hzs => hzs.1

end Prog

/-! ## Pools with journals -/

/-- A pool, and the journals of its calls. -/
structure Journalled (C : Type) (R : C → Type) (E σ α K : Type) where
  pool : Pool C R E σ α K
  journals : List (K × Journal C R E)

namespace System
variable (sys : System C R E σ α K V)

/-- Every call writes down what it issues with what it is answered. -/
def keep (w : Journalled C R E σ α K) (e : Event E K V) : Journalled C R E σ α K :=
  ⟨sys.next w.pool e, sys.advance (fun _ xs c r => xs ++ [⟨c, r⟩]) (fun _ => []) w.pool w.journals e⟩

variable {sys}
variable {admits : K → Journal C R E → C → Prop} {Post : (c : C) → R c → Prop} {F : Journal C R E → Except E α → Prop}
variable {I : σ → List (K × Journal C R E) → Prop} {Can : Pool C R E σ α K → K → C → Prop}
variable {Env : Pool C R E σ α K → V → Prop}

theorem Keeps.journals
    (h : Keeps sys (fun κ => Prog.journalled (admits κ)) Post F (fun _ => []) I Can Env)
    {w : Journalled C R E σ α K} {es : List (Event E K V)} {Q : Journalled C R E σ α K → Event E K V → Prop}
    (ht : Tracks (fun κ => Prog.journalled (admits κ)) Post F I w.pool w.journals)
    (hstart : ∀ κ, .start κ ∈ es → (sys.program κ).Follows (Prog.journalled (admits κ)) Post F [])
    (hp : StepsMeet sys.keep (fun w e => Permits Can Env w.pool e) w es)
    (hQ : ∀ w e, Tracks (fun κ => Prog.journalled (admits κ)) Post F I w.pool w.journals →
      Tracks (fun κ => Prog.journalled (admits κ)) Post F I (sys.keep w e).pool (sys.keep w e).journals → Q w e) :
    StepsMeet sys.keep Q w es := by
  induction es generalizing w with
  | nil => trivial
  | cons e es ih =>
    have ht' := h.next ht e (fun κ hκ => hstart κ (hκ ▸ List.mem_cons_self)) hp.1
    exact ⟨hQ w e ht ht', ih ht' (fun κ hκ => hstart κ (List.mem_cons_of_mem e hκ)) hp.2⟩

end System
end Interaction
