import Lingshu.Interaction.Prog
import Mathlib.Data.Nat.Notation

/-! # Runs: contracts on commands, step conditions, interleavings

* `StepsMeet next P s es`: along the run of `es` from `s`, every step `e` is taken in a state `s'`
  with `P s' e`. `steps_inv` and `steps_inv_iff` are the two induction rules on runs.
* `Prog.Meets Pre Post Q p`: as long as every answer to `c` is in `Post c`, the program issues only
  commands in `Pre`, and what it returns is in `Q`.
* `Pool`: a store and any number of programs, whose commands are taken in any order.
-/
namespace Interaction
set_option autoImplicit false

/-! ## Runs of a transition function -/

section Runs
variable {S Ev : Type} (next : S → Ev → S)

def runFrom (s : S) (es : List Ev) : S := es.foldl next s

@[simp] theorem runFrom_nil (s : S) : runFrom next s [] = s := rfl

@[simp] theorem runFrom_cons (s : S) (e : Ev) (es : List Ev) :
    runFrom next s (e :: es) = runFrom next (next s e) es := rfl

theorem runFrom_append (s : S) (es fs : List Ev) :
    runFrom next s (es ++ fs) = runFrom next (runFrom next s es) fs := List.foldl_append

def StepsMeet (P : S → Ev → Prop) : S → List Ev → Prop
  | _, [] => True
  | s, e :: es => P s e ∧ StepsMeet P (next s e) es

instance StepsMeet.decidable (P : S → Ev → Prop) [∀ s e, Decidable (P s e)] :
    ∀ (s : S) (es : List Ev), Decidable (StepsMeet next P s es)
  | _, [] => inferInstanceAs (Decidable True)
  | s, e :: es =>
    have := StepsMeet.decidable P (next s e) es
    inferInstanceAs (Decidable (P s e ∧ StepsMeet next P (next s e) es))

variable {next}
variable {P P' A I : S → Ev → Prop} {s : S} {es fs : List Ev}

theorem stepsMeet_append :
    StepsMeet next P s (es ++ fs) ↔ StepsMeet next P s es ∧ StepsMeet next P (runFrom next s es) fs := by
  induction es generalizing s with
  | nil => simp [StepsMeet]
  | cons e es ih => simp only [List.cons_append, StepsMeet, runFrom_cons, ih, and_assoc]

theorem StepsMeet.mono (h : ∀ s e, P s e → P' s e) (hs : StepsMeet next P s es) :
    StepsMeet next P' s es := by
  induction es generalizing s with
  | nil => trivial
  | cons e es ih => exact ⟨h s e hs.1, ih hs.2⟩

theorem StepsMeet.and (h : StepsMeet next P s es) (h' : StepsMeet next P' s es) :
    StepsMeet next (fun s e => P s e ∧ P' s e) s es := by
  induction es generalizing s with
  | nil => trivial
  | cons e es ih => exact ⟨⟨h.1, h'.1⟩, ih h.2 h'.2⟩

theorem StepsMeet.on_initial (h : StepsMeet next P s es) (hp : fs <+: es) : StepsMeet next P s fs := by
  obtain ⟨gs, rfl⟩ := hp
  exact (stepsMeet_append.mp h).1

theorem StepsMeet.of_mem {Q : Ev → Prop} (h : ∀ e ∈ es, Q e) : StepsMeet next (fun _ e => Q e) s es := by
  induction es generalizing s with
  | nil => trivial
  | cons e es ih => exact ⟨h e List.mem_cons_self, ih fun e' he' => h e' (List.mem_cons_of_mem e he')⟩

/-- What holds all along a run holds after every step. -/
theorem StepsMeet.of_prefixes {J : S → Prop} (h : ∀ fs, fs <+: es → J (runFrom next s fs)) :
    StepsMeet next (fun s e => J (next s e)) s es := by
  induction es generalizing s with
  | nil => trivial
  | cons e es ih =>
    have hfirst : J (next s e) := h [e] ((List.prefix_cons_inj e).mpr List.nil_prefix)
    exact ⟨hfirst, ih fun fs hfs => h (e :: fs) ((List.prefix_cons_inj e).mpr hfs)⟩

/-- Steps of a system that records more than another. -/
theorem StepsMeet.lift_iff {S' : Type} {next' : S' → Ev → S'} {f : S' → S}
    (hf : ∀ s e, f (next' s e) = next (f s) e) {s : S'} :
    StepsMeet next' (fun s e => P (f s) e) s es ↔ StepsMeet next P (f s) es := by
  induction es generalizing s with
  | nil => exact Iff.rfl
  | cons e es ih => rw [StepsMeet, StepsMeet, ih, hf]

theorem StepsMeet.lift {S' : Type} {next' : S' → Ev → S'} {f : S' → S}
    (hf : ∀ s e, f (next' s e) = next (f s) e) {s : S'} (h : StepsMeet next P (f s) es) :
    StepsMeet next' (fun s e => P (f s) e) s es :=
  (StepsMeet.lift_iff hf).mpr h

theorem runFrom_lift {S' : Type} {next' : S' → Ev → S'} {f : S' → S} (hf : ∀ s e, f (next' s e) = next (f s) e)
    (s : S') (es : List Ev) : f (runFrom next' s es) = runFrom next (f s) es := by
  induction es generalizing s with
  | nil => rfl
  | cons e es ih => rw [runFrom_cons, runFrom_cons, ih, hf]

/-- An invariant that every allowed step keeps holds after every run of allowed steps. -/
theorem steps_inv {J : S → Prop} (hstep : ∀ s e, J s → P s e → J (next s e)) (h0 : J s)
    (hs : StepsMeet next P s es) : J (runFrom next s es) := by
  induction es generalizing s with
  | nil => exact h0
  | cons e es ih => exact ih (hstep s e h0 hs.1) hs.2

/-- What every step from a state in `J` meets, every step of a run meets. -/
theorem StepsMeet.of_inv {J : S → Prop} {Q : S → Ev → Prop}
    (hstep : ∀ s e, J s → P s e → J (next s e) ∧ Q s e) (h0 : J s) (hs : StepsMeet next P s es) :
    StepsMeet next Q s es := by
  induction es generalizing s with
  | nil => trivial
  | cons e es ih =>
    obtain ⟨hJ, hQ⟩ := hstep s e h0 hs.1
    exact ⟨hQ, ih hJ hs.2⟩

/-- When, on allowed steps, `Cond` is exactly what a step needs to keep `J`, then `J` holds all along
a run exactly when every step of the run meets `Cond`. `K` is what the step lemma may also use. -/
theorem steps_inv_iff {J K : S → Prop} {Cond : S → Ev → Prop}
    (hiff : ∀ s e, K s → J s → P s e → (J (next s e) ↔ Cond s e))
    (hK : ∀ s e, K s → J s → P s e → Cond s e → K (next s e)) (hK0 : K s) (hJ0 : J s)
    (hs : StepsMeet next P s es) :
    (∀ fs, fs <+: es → J (runFrom next s fs)) ↔ StepsMeet next Cond s es := by
  induction es generalizing s with
  | nil =>
    constructor
    · intro _; trivial
    · intro _ fs hfs
      rw [List.prefix_nil.mp hfs]
      exact hJ0
  | cons e es ih =>
    constructor
    · intro hall
      have hJ1 : J (next s e) := hall [e] (List.prefix_cons_inj e |>.mpr (List.nil_prefix))
      have hc : Cond s e := (hiff s e hK0 hJ0 hs.1).mp hJ1
      have hK1 := hK s e hK0 hJ0 hs.1 hc
      refine ⟨hc, (ih hK1 hJ1 hs.2).mp ?_⟩
      intro fs hfs
      exact hall (e :: fs) ((List.prefix_cons_inj e).mpr hfs)
    · rintro ⟨hc, hrest⟩ fs hfs
      have hJ1 := (hiff s e hK0 hJ0 hs.1).mpr hc
      have hK1 := hK s e hK0 hJ0 hs.1 hc
      cases fs with
      | nil => exact hJ0
      | cons f fs =>
        obtain ⟨rfl, hfs'⟩ := List.cons_prefix_cons.mp hfs
        exact (ih hK1 hJ1 hs.2).mpr hrest fs hfs'

/-- When, on allowed steps, `Cond` is exactly what a step needs to meet `Q`, and keeps what the step lemma may use. -/
theorem StepsMeet.iff_of_inv {K : S → Prop} {Q Cond : S → Ev → Prop} (hiff : ∀ s e, K s → P s e → (Q s e ↔ Cond s e))
    (hK : ∀ s e, K s → P s e → Cond s e → K (next s e)) (h0 : K s) (hs : StepsMeet next P s es) :
    StepsMeet next Q s es ↔ StepsMeet next Cond s es := by
  induction es generalizing s with
  | nil => exact Iff.rfl
  | cons e es ih =>
    have hfirst := hiff s e h0 hs.1
    constructor
    · rintro ⟨hq, hrest⟩
      have hc := hfirst.mp hq
      exact ⟨hc, (ih (hK s e h0 hs.1 hc) hs.2).mp hrest⟩
    · rintro ⟨hc, hrest⟩
      exact ⟨hfirst.mpr hc, (ih (hK s e h0 hs.1 hc) hs.2).mpr hrest⟩

/-- Where the first step against the condition leads out of `A` for good, into `B`: the end of a run shows whether all
steps met it. -/
theorem StepsMeet.or_of_inv {A B : S → Prop} {Cond : S → Ev → Prop}
    (hkept : ∀ s e, A s → P s e → Cond s e → A (next s e)) (hlost : ∀ s e, A s → P s e → ¬Cond s e → B (next s e))
    (hstays : ∀ s e, B s → P s e → B (next s e)) (h0 : A s) (hs : StepsMeet next P s es) :
    (StepsMeet next Cond s es ∧ A (runFrom next s es)) ∨ (¬StepsMeet next Cond s es ∧ B (runFrom next s es)) := by
  induction es generalizing s with
  | nil => exact .inl ⟨trivial, h0⟩
  | cons e es ih =>
    by_cases hcond : Cond s e
    · obtain ⟨hall, hA⟩ | ⟨hnot, hB⟩ := ih (hkept s e h0 hs.1 hcond) hs.2
      · exact .inl ⟨⟨hcond, hall⟩, hA⟩
      · exact .inr ⟨fun h => hnot h.2, hB⟩
    · have hB : B (runFrom next (next s e) es) := steps_inv hstays (hlost s e h0 hs.1 hcond) hs.2
      exact .inr ⟨fun h => hcond h.1, hB⟩

end Runs

/-! ## Contracts -/

variable {C : Type} {R : C → Type} {E σ α β : Type}
variable {Pre Pre' : C → Prop} {Post : (c : C) → R c → Prop}

namespace Prog

/-- The program keeps to the commands in `Pre` and returns values in `Q`, provided that every answer
to a command `c` is in `Post c`. An exception may come in place of any answer. -/
def Meets (Pre : C → Prop) (Post : (c : C) → R c → Prop) (Q : α → Prop) : Prog C R E α → Prop
  | .pure a => Q a
  | .throw _ => True
  | .call c k => Pre c ∧ (∀ a, Post c a → (k (.ok a)).Meets Pre Post Q) ∧
      ∀ e, (k (.error e)).Meets Pre Post Q

variable {Q : α → Prop} {Q' : β → Prop}

theorem Meets.mono {Post' : (c : C) → R c → Prop} {Q₂ : α → Prop} {p : Prog C R E α}
    (h : p.Meets Pre Post Q) (hPre : ∀ c, Pre c → Pre' c) (hPost : ∀ c a, Post' c a → Post c a)
    (hQ : ∀ a, Q a → Q₂ a) : p.Meets Pre' Post' Q₂ := by
  induction p with
  | pure a => exact hQ a h
  | throw e => trivial
  | call c k ih =>
    exact ⟨hPre c h.1, fun a ha => ih _ (h.2.1 a (hPost c a ha)), fun e => ih _ (h.2.2 e)⟩

theorem Meets.bind {p : Prog C R E α} {f : α → Prog C R E β} (hp : p.Meets Pre Post Q)
    (hf : ∀ a, Q a → (f a).Meets Pre Post Q') : (p.bind f).Meets Pre Post Q' := by
  induction p with
  | pure a => exact hf a hp
  | throw e => trivial
  | call c k ih => exact ⟨hp.1, fun a ha => ih _ (hp.2.1 a ha), fun e => ih _ (hp.2.2 e)⟩

theorem Meets.and {Q₂ : α → Prop} {p : Prog C R E α} (h : p.Meets Pre Post Q) (h' : p.Meets Pre' Post Q₂) :
    p.Meets (fun c => Pre c ∧ Pre' c) Post fun a => Q a ∧ Q₂ a := by
  induction p with
  | pure a => exact ⟨h, h'⟩
  | throw e => trivial
  | call c k ih =>
    exact ⟨⟨h.1, h'.1⟩, fun a ha => ih _ (h.2.1 a ha) (h'.2.1 a ha), fun e => ih _ (h.2.2 e) (h'.2.2 e)⟩

theorem Meets.perform {c : C} (h : Pre c) :
    (Prog.perform c : Prog C R E (R c)).Meets Pre Post (Post c) :=
  ⟨h, fun _ ha => ha, fun _ => trivial⟩

theorem Meets.tryCatch {p : Prog C R E α} {f : E → Prog C R E α} (hp : p.Meets Pre Post Q)
    (hf : ∀ e, (f e).Meets Pre Post Q) : (p.tryCatch f).Meets Pre Post Q := by
  induction p with
  | pure a => exact hp
  | throw e => exact hf e
  | call c k ih => exact ⟨hp.1, fun a ha => ih _ (hp.2.1 a ha), fun e => ih _ (hp.2.2 e)⟩

theorem Meets.tryFinally {p : Prog C R E α} {q : Prog C R E Unit} (hp : p.Meets Pre Post Q)
    (hq : q.Meets Pre Post (fun _ => True)) : (p.tryFinally q).Meets Pre Post Q := by
  induction p with
  | pure a => exact hq.bind fun _ _ => hp
  | throw e => exact hq.bind fun _ _ => trivial
  | call c k ih => exact ⟨hp.1, fun a ha => ih _ (hp.2.1 a ha), fun e => ih _ (hp.2.2 e)⟩

/-- Against a handler, `J` is kept by every command in `Pre` whose state meets `D`, and the
answers are as promised. -/
def Sound (h : Handler C R E σ) (Pre : C → Prop) (Post : (c : C) → R c → Prop)
    (D : σ → C → Prop) (J : σ → Prop) : Prop :=
  ∀ c s, J s → Pre c → D s c → J (h c s).2 ∧ ∀ a, (h c s).1 = .ok a → Post c a

variable {h : Handler C R E σ} {J : σ → Prop} {D : σ → C → Prop}

theorem Meets.next {c : C} {k : Except E (R c) → Prog C R E α} {s : σ}
    (hp : (Prog.call c k).Meets Pre Post Q) (hs : ∀ a, (h c s).1 = .ok a → Post c a) :
    (k (h c s).1).Meets Pre Post Q := by
  cases hr : (h c s).1 with
  | ok a => exact hp.2.1 a (hs a hr)
  | error e => exact hp.2.2 e

/-- Run alone, a program that meets a contract keeps the invariant. -/
theorem Meets.run {p : Prog C R E α} {s : σ} (hp : p.Meets Pre Post Q)
    (hs : Sound h Pre Post (fun _ _ => True) J) (hi : J s) :
    J (p.run h s).2 ∧ ∀ a, (p.run h s).1 = .ok a → Q a := by
  induction p generalizing s with
  | pure a =>
    refine ⟨hi, ?_⟩
    intro b hb
    cases hb
    exact hp
  | throw e => exact ⟨hi, fun b hb => nomatch hb⟩
  | call c k ih =>
    obtain ⟨h1, h2⟩ := hs c s hi hp.1 trivial
    exact ih _ (hp.next h2) h1

/-- Whatever is refused or lost, only commands in `Pre` take effect, and what is returned is in `Q`. -/
theorem Meets.exec_done {p : Prog C R E α} {s s' : σ} {done : List C} {r : Except E α}
    (hp : p.Meets Pre (fun _ _ => True) Q) (hx : Exec h p s done r s') :
    (∀ c ∈ done, Pre c) ∧ ∀ a, r = .ok a → Q a := by
  have hcons : ∀ {c : C} {done : List C}, Pre c → (∀ d ∈ done, Pre d) → ∀ d ∈ c :: done, Pre d := by
    intro c done hc hd d hmem
    rcases List.mem_cons.mp hmem with rfl | hmem
    · exact hc
    · exact hd d hmem
  induction hx with
  | pure a s =>
    refine ⟨fun c hc => (nomatch hc), ?_⟩
    intro b hb
    cases hb
    exact hp
  | throw e s => exact ⟨fun c hc => (nomatch hc), fun a ha => nomatch ha⟩
  | answered rest ih =>
    obtain ⟨h1, h2⟩ := ih (hp.next fun _ _ => trivial)
    exact ⟨hcons hp.1 h1, h2⟩
  | lost e rest ih =>
    obtain ⟨h1, h2⟩ := ih (hp.2.2 e)
    exact ⟨hcons hp.1 h1, h2⟩
  | refused e rest ih => exact ih (hp.2.2 e)

/-- The same when commands may be refused and answers lost. -/
theorem Meets.exec {p : Prog C R E α} {s s' : σ} {done : List C} {r : Except E α}
    (hp : p.Meets Pre Post Q) (hs : Sound h Pre Post (fun _ _ => True) J) (hi : J s)
    (hx : Exec h p s done r s') : J s' := by
  induction hx with
  | pure a s => exact hi
  | throw e s => exact hi
  | answered rest ih =>
    obtain ⟨h1, h2⟩ := hs _ _ hi hp.1 trivial
    exact ih (hp.next h2) h1
  | lost e rest ih => exact ih (hp.2.2 e) (hs _ _ hi hp.1 trivial).1
  | refused e rest ih => exact ih (hp.2.2 e) hi

end Prog

/-! ## Interleavings -/

/-- A store, and the calls made so far, each with what is left of its program. -/
structure Pool (C : Type) (R : C → Type) (E σ α K : Type) where
  state : σ
  threads : List (K × Prog C R E α)

/-- A call comes in, a running call has its next command executed, or executed with the answer lost, or
refused, or the environment acts. -/
inductive Event (E K V : Type) where
  | start (k : K)
  | step (i : ℕ)
  | lose (i : ℕ) (e : E)
  | refuse (i : ℕ) (e : E)
  | env (v : V)

/-- The thread whose command an event executes. -/
def Event.thread {E K V : Type} : Event E K V → Option ℕ
  | .step i => some i
  | .lose i _ => some i
  | _ => none

structure System (C : Type) (R : C → Type) (E σ α K V : Type) where
  handler : Prog.Handler C R E σ
  program : K → Prog C R E α
  env : V → σ → σ

variable {K V : Type}

namespace Pool

/-- The call and the command that thread `i` is about to issue. -/
def pending (p : Pool C R E σ α K) (i : ℕ) : Option (K × C) :=
  (p.threads[i]?).bind fun t => t.2.head.map fun c => (t.1, c)

/-- The call and the command that event `e` executes. -/
def issues (p : Pool C R E σ α K) : Event E K V → Option (K × C)
  | .step i => p.pending i
  | .lose i _ => p.pending i
  | _ => none

/-- If the event executes a command, the store and the command are in `D`. -/
def Allows (D : σ → C → Prop) (p : Pool C R E σ α K) (e : Event E K V) : Prop :=
  ∀ k c, p.issues e = some (k, c) → D p.state c

instance Allows.decidable (D : σ → C → Prop) [∀ s c, Decidable (D s c)] (p : Pool C R E σ α K) (e : Event E K V) :
    Decidable (p.Allows D e) :=
  match h : p.issues e with
  | none => isTrue fun _ _ he => nomatch h.symm.trans he
  | some (k, c) => decidable_of_iff (D p.state c)
    ⟨fun hd _ _ he => (Prod.mk.inj (Option.some.inj (h.symm.trans he))).2 ▸ hd, fun ha => ha k c h⟩

end Pool

namespace System
variable (sys : System C R E σ α K V)

/-- What is left of a program when its next command has been executed in `s`. -/
def answer (s : σ) : Prog C R E α → Prog C R E α
  | .call c k => k (sys.handler c s).1
  | p => p

/-- What is left of a program when its next command has raised. -/
def raise (e : E) : Prog C R E α → Prog C R E α
  | .call _ k => k (.error e)
  | p => p

/-- The store after the command of an event. -/
def execute (s : σ) : Option (K × C) → σ
  | some (_, c) => (sys.handler c s).2
  | none => s

def next (p : Pool C R E σ α K) (e : Event E K V) : Pool C R E σ α K :=
  match e with
  | .start k => { p with threads := p.threads ++ [(k, sys.program k)] }
  | .step i =>
    { state := sys.execute p.state (p.issues e)
      threads := p.threads.modify i fun t => (t.1, sys.answer p.state t.2) }
  | .lose i x =>
    { state := sys.execute p.state (p.issues e)
      threads := p.threads.modify i fun t => (t.1, raise x t.2) }
  | .refuse i x => { p with threads := p.threads.modify i fun t => (t.1, raise x t.2) }
  | .env v => { p with state := sys.env v p.state }

/-- The invariant of the store, and every running call keeping to the contract of its call. -/
structure Holds (Pre : K → C → Prop) (Post : (c : C) → R c → Prop) (J : σ → Prop)
    (p : Pool C R E σ α K) : Prop where
  inv : J p.state
  meets : ∀ t ∈ p.threads, t.2.Meets (Pre t.1) Post (fun _ => True)

variable {sys}
variable {Pre : K → C → Prop} {D : σ → C → Prop} {J : σ → Prop}

/-- What a step does to the store. -/
theorem next_state (p : Pool C R E σ α K) (e : Event E K V) :
    (sys.next p e).state = match e with
      | .env v => sys.env v p.state
      | _ => sys.execute p.state (p.issues e) := by
  cases e <;> rfl

theorem meets_raise {q : Prog C R E α} {P : C → Prop} (x : E) (h : q.Meets P Post (fun _ => True)) :
    (raise x q).Meets P Post (fun _ => True) := by
  cases q with
  | pure a => exact h
  | throw y => exact h
  | call c r => exact h.2.2 x

theorem mem_modify {p : Pool C R E σ α K} {i : ℕ} {f : K × Prog C R E α → K × Prog C R E α}
    {t : K × Prog C R E α} (ht : t ∈ p.threads.modify i f) :
    t ∈ p.threads ∨ ∃ t₀, p.threads[i]? = some t₀ ∧ t = f t₀ := by
  obtain ⟨j, hj⟩ := List.mem_iff_getElem?.mp ht
  rw [List.getElem?_modify] at hj
  by_cases hij : i = j
  · subst hij
    simp only [if_true, Option.map_eq_map, Option.map_eq_some_iff] at hj
    obtain ⟨t₀, h0, rfl⟩ := hj
    exact .inr ⟨t₀, h0, rfl⟩
  · simp only [hij, if_false, Option.map_eq_map, Option.map_id'] at hj
    exact .inl (List.mem_of_getElem? hj)

/-- The threads of a pool keep to their contracts, whatever the store does. -/
theorem meets_next {p : Pool C R E σ α K} {e : Event E K V}
    (hstart : ∀ k, e = .start k → (sys.program k).Meets (Pre k) Post (fun _ => True))
    (hpost : ∀ k c, p.issues e = some (k, c) → ∀ a, (sys.handler c p.state).1 = .ok a → Post c a)
    (h : ∀ t ∈ p.threads, t.2.Meets (Pre t.1) Post (fun _ => True)) :
    ∀ t ∈ (sys.next p e).threads, t.2.Meets (Pre t.1) Post (fun _ => True) := by
  intro t ht
  cases e with
  | start k =>
    rcases List.mem_append.mp ht with ht | ht
    · exact h t ht
    · rw [List.mem_singleton.mp ht]
      exact hstart k rfl
  | env v => exact h t ht
  | step i =>
    obtain ht | ⟨⟨k, q⟩, h0, rfl⟩ := mem_modify ht
    · exact h t ht
    · have hq := h (k, q) (List.mem_of_getElem? h0)
      cases q with
      | pure a => exact hq
      | throw x => exact hq
      | call c r => exact hq.next (hpost k c (by simp [Pool.issues, Pool.pending, h0, Prog.head]))
  | lose i x =>
    obtain ht | ⟨t₀, h0, rfl⟩ := mem_modify ht
    · exact h t ht
    · exact meets_raise x (h t₀ (List.mem_of_getElem? h0))
  | refuse i x =>
    obtain ht | ⟨t₀, h0, rfl⟩ := mem_modify ht
    · exact h t ht
    · exact meets_raise x (h t₀ (List.mem_of_getElem? h0))

/-- A command that is executed is the next one of a thread. -/
theorem mem_of_issues {p : Pool C R E σ α K} {e : Event E K V} {k : K} {c : C} (h : p.issues e = some (k, c)) :
    ∃ t ∈ p.threads, t.1 = k ∧ t.2.head = some c := by
  have hpending : ∀ i, p.pending i = some (k, c) → ∃ t ∈ p.threads, t.1 = k ∧ t.2.head = some c := by
    intro i hi
    simp only [Pool.pending, Option.bind_eq_some_iff, Option.map_eq_some_iff, Prod.mk.injEq] at hi
    obtain ⟨t, ht, c', hc, hk, rfl⟩ := hi
    exact ⟨t, List.mem_of_getElem? ht, hk, hc⟩
  cases e with
  | step i => exact hpending i h
  | lose i x => exact hpending i h
  | start k | refuse i x | env v => cases h

theorem pending_pre {p : Pool C R E σ α K} {i : ℕ} {k : K} {c : C}
    (h : ∀ t ∈ p.threads, t.2.Meets (Pre t.1) Post (fun _ => True)) (hc : p.pending i = some (k, c)) :
    Pre k c := by
  simp only [Pool.pending, Option.bind_eq_some_iff, Option.map_eq_some_iff, Prod.mk.injEq] at hc
  obtain ⟨⟨k', q⟩, hi, c', hq, rfl, rfl⟩ := hc
  have hm := h (k', q) (List.mem_of_getElem? hi)
  cases q with
  | pure a => cases hq
  | throw x => cases hq
  | call c' r => cases hq; exact hm.1

/-- The commands that reach the store are those their calls' contracts allow. -/
theorem issues_pre {p : Pool C R E σ α K} {e : Event E K V} {k : K} {c : C}
    (h : ∀ t ∈ p.threads, t.2.Meets (Pre t.1) Post (fun _ => True)) (hc : p.issues e = some (k, c)) :
    Pre k c := by
  cases e with
  | step i => exact pending_pre h hc
  | lose i x => exact pending_pre h hc
  | start k | refuse i x | env v => cases hc

/-- One step of an interleaving: the store keeps its invariant, the calls their contracts. -/
theorem Holds.next {p : Pool C R E σ α K} {e : Event E K V} (hp : Holds Pre Post J p)
    (hstart : ∀ k, e = .start k → (sys.program k).Meets (Pre k) Post (fun _ => True))
    (henv : ∀ v s, J s → J (sys.env v s))
    (hsound : ∀ k, Prog.Sound sys.handler (Pre k) Post D J) (hc : p.Allows D e) :
    Holds Pre Post J (sys.next p e) := by
  have hexec : ∀ k c, p.issues e = some (k, c) → J (sys.handler c p.state).2 ∧
      ∀ a, (sys.handler c p.state).1 = .ok a → Post c a := fun k c he =>
    hsound k c p.state hp.inv (issues_pre hp.meets he) (hc k c he)
  refine ⟨?_, meets_next hstart (fun k c he => (hexec k c he).2) hp.meets⟩
  rw [next_state]
  have hstep : J (sys.execute p.state (p.issues e)) := by
    cases he : p.issues e with
    | none => exact hp.inv
    | some kc => exact (hexec kc.1 kc.2 he).1
  cases e with
  | env v => exact henv v _ hp.inv
  | start k | step i | lose i x | refuse i x => exact hstep

variable (sys) in
/-- A thread that takes all its steps at a stretch does what its program does alone. -/
theorem run_alone (s : σ) (ts : List (K × Prog C R E α)) (k : K) (q : Prog C R E α) :
    ∃ n q', runFrom sys.next ⟨s, ts ++ [(k, q)]⟩ (List.replicate n (.step ts.length)) =
      ⟨(q.run sys.handler s).2, ts ++ [(k, q')]⟩ := by
  induction q generalizing s with
  | pure a => exact ⟨0, .pure a, rfl⟩
  | throw e => exact ⟨0, .throw e, rfl⟩
  | call c r ih =>
    obtain ⟨n, q', h⟩ := ih (sys.handler c s).1 (sys.handler c s).2
    refine ⟨n + 1, q', ?_⟩
    have hthread : (ts ++ [(k, Prog.call c r)])[ts.length]? = some (k, Prog.call c r) := by simp
    have hnext : sys.next ⟨s, ts ++ [(k, Prog.call c r)]⟩ (.step ts.length) =
        ⟨(sys.handler c s).2, ts ++ [(k, r (sys.handler c s).1)]⟩ := by
      have hstate : sys.execute s (Pool.issues (V := V) ⟨s, ts ++ [(k, Prog.call c r)]⟩ (.step ts.length)) =
          (sys.handler c s).2 := by
        simp only [Pool.issues, Pool.pending, hthread]
        rfl
      have hthreads : (ts ++ [(k, Prog.call c r)]).modify ts.length (fun t => (t.1, sys.answer s t.2)) =
          ts ++ [(k, r (sys.handler c s).1)] := List.modifyTailIdx_add _ 0 ts _
      simp only [System.next, hstate, hthreads]
    rw [List.replicate_succ, runFrom_cons, hnext, h]
    rfl

end System
end Interaction
