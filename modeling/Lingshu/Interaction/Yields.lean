import Lingshu.Interaction.Run

/-! # What a program may return, what it may issue

* `Yields Post p a`: for some answers in `Post`, none of them an exception, the program `p` returns `a`. It is the
  counterpart of `Meets`: a contract says what holds for all answers, `Yields` shows that a point is reached.
* `Trace p cs q`: for some answers, or exceptions in their place, `p` issues the commands `cs` and is then at `q`.
* `transcript h p s`: the commands that `p` issues, alone from `s`, with what they are answered. -/
namespace Interaction.Prog
set_option autoImplicit false

variable {C : Type} {R : C → Type} {E σ α β : Type}

inductive Yields (Post : (c : C) → R c → Prop) : Prog C R E α → α → Prop where
  | pure (a : α) : Yields Post (.pure a) a
  | call {c : C} {k : Except E (R c) → Prog C R E α} {a : α} (b : R c) (hb : Post c b)
      (rest : Yields Post (k (.ok b)) a) : Yields Post (.call c k) a

variable {Pre : C → Prop} {Post : (c : C) → R c → Prop} {Q : α → Prop} {Q' : β → Prop}
variable {p : Prog C R E α} {f : α → Prog C R E β} {a : α} {b : β}

theorem Yields.bind (hp : p.Yields Post a) (hf : (f a).Yields Post b) : (p.bind f).Yields Post b := by
  induction hp with
  | pure a => exact hf
  | call b hb rest ih => exact .call b hb (ih hf)

theorem yields_bind : (p.bind f).Yields Post b ↔ ∃ a, p.Yields Post a ∧ (f a).Yields Post b := by
  refine ⟨fun h => ?_, fun ⟨a, hp, hf⟩ => hp.bind hf⟩
  induction p with
  | pure a => exact ⟨a, .pure a, h⟩
  | throw e => cases h
  | call c k ih =>
    cases h with
    | call x hx rest =>
      obtain ⟨a, hp, hf⟩ := ih _ rest
      exact ⟨a, .call x hx hp, hf⟩

theorem Yields.perform {c : C} {x : R c} (hx : Post c x) : (Prog.perform c : Prog C R E (R c)).Yields Post x :=
  .call x hx (.pure x)

theorem yields_pure {a' : α} : (Prog.pure a : Prog C R E α).Yields Post a' ↔ a' = a := by
  constructor
  · rintro ⟨⟩
    rfl
  · rintro rfl
    exact .pure a'

/-- What a program may return is as its contract says. -/
theorem Meets.of_yields (hp : p.Meets Pre Post Q) (h : p.Yields Post a) : Q a := by
  induction h with
  | pure a => exact hp
  | call b hb rest ih => exact ih (hp.2.1 b hb)

/-- What a sequence keeps to, its second part keeps to from where the first part may return. -/
theorem Meets.after (h : (p.bind f).Meets Pre Post Q') (hp : p.Yields Post a) : (f a).Meets Pre Post Q' := by
  induction hp with
  | pure a => exact h
  | call b hb rest ih => exact ih (h.2.1 b hb)

/-- What a sequence keeps to, its first part keeps to. -/
theorem Meets.left (h : (p.bind f).Meets Pre Post Q') : p.Meets Pre Post (fun _ => True) := by
  induction p with
  | pure a => trivial
  | throw e => trivial
  | call c k ih => exact ⟨h.1, fun a ha => ih _ (h.2.1 a ha), fun e => ih _ (h.2.2 e)⟩

/-- What a program with a handler keeps to, it keeps to without. -/
theorem Meets.of_tryCatch {f : E → Prog C R E α} (h : (p.tryCatch f).Meets Pre Post Q) : p.Meets Pre Post Q := by
  induction p with
  | pure a => exact h
  | throw e => trivial
  | call c k ih => exact ⟨h.1, fun a ha => ih _ (h.2.1 a ha), fun e => ih _ (h.2.2 e)⟩

/-! ## Traces -/

def returned : Prog C R E α → Option α
  | .pure a => some a
  | _ => none

inductive Trace : Prog C R E α → List C → Prog C R E α → Prop where
  | nil (p : Prog C R E α) : Trace p [] p
  | cons {c : C} {k : Except E (R c) → Prog C R E α} {cs : List C} {q : Prog C R E α} (r : Except E (R c))
      (rest : Trace (k r) cs q) : Trace (.call c k) (c :: cs) q

variable {cs ds : List C} {q q' : Prog C R E α}

theorem Trace.append (h : Trace p cs q) (h' : Trace q ds q') : Trace p (cs ++ ds) q' := by
  induction h with
  | nil p => exact h'
  | cons r rest ih => exact .cons r (ih h')

theorem Trace.bind (h : Trace p cs q) (f : α → Prog C R E β) : Trace (p.bind f) cs (q.bind f) := by
  induction h with
  | nil p => exact .nil _
  | cons r rest ih => exact .cons r ih

/-- A sequence is still in its first part, or in the second after the first has returned. -/
theorem Trace.of_bind {q : Prog C R E β} (h : Trace (p.bind f) cs q) :
    (∃ p', Trace p cs p') ∨ ∃ a cs₁ cs₂, Trace p cs₁ (.pure a) ∧ Trace (f a) cs₂ q ∧ cs = cs₁ ++ cs₂ := by
  induction p generalizing cs with
  | pure a => exact .inr ⟨a, [], cs, .nil _, h, rfl⟩
  | throw e =>
    cases h
    exact .inl ⟨_, .nil _⟩
  | call c k ih =>
    cases h with
    | nil => exact .inl ⟨_, .nil _⟩
    | cons r rest =>
      rcases ih r rest with ⟨p', hp'⟩ | ⟨a, cs₁, cs₂, hp, hf, rfl⟩
      · exact .inl ⟨p', .cons r hp'⟩
      · exact .inr ⟨a, c :: cs₁, cs₂, .cons r hp, hf, rfl⟩

theorem trace_pure {p' : Prog C R E α} : Trace (.pure a : Prog C R E α) cs p' ↔ cs = [] ∧ p' = .pure a := by
  constructor
  · rintro ⟨⟩
    exact ⟨rfl, rfl⟩
  · rintro ⟨rfl, rfl⟩
    exact .nil _

theorem trace_throw {e : E} {p' : Prog C R E α} :
    Trace (.throw e : Prog C R E α) cs p' ↔ cs = [] ∧ p' = .throw e := by
  constructor
  · rintro ⟨⟩
    exact ⟨rfl, rfl⟩
  · rintro ⟨rfl, rfl⟩
    exact .nil _

/-- A trace that starts with one command: it was not issued yet, or was answered, or raised. -/
theorem Trace.of_perform {c : C} {f : R c → Prog C R E β} {q : Prog C R E β}
    (h : Trace ((Prog.perform c).bind f) cs q) :
    (cs = [] ∧ q = (Prog.perform c).bind f) ∨
      ∃ ds, cs = c :: ds ∧ ((∃ a, Trace (f a) ds q) ∨ (ds = [] ∧ ∃ e, q = .throw e)) := by
  have h : Trace (.call c _) cs q := h
  cases h with
  | nil => exact .inl ⟨rfl, rfl⟩
  | cons r rest =>
    cases r with
    | ok a => exact .inr ⟨_, rfl, .inl ⟨a, rest⟩⟩
    | error e =>
      obtain ⟨hds, hq⟩ := trace_throw.mp rest
      exact .inr ⟨_, rfl, .inr ⟨hds, e, hq⟩⟩

theorem Trace.perform {c : C} {f : R c → Prog C R E β} {q : Prog C R E β} (a : R c) (h : Trace (f a) cs q) :
    Trace ((Prog.perform c).bind f) (c :: cs) q := .cons (.ok a) h

/-! ## Transcripts -/

def transcript (h : Handler C R E σ) : Prog C R E α → σ → List ((c : C) × Except E (R c))
  | .pure _, _ => []
  | .throw _, _ => []
  | .call c k, s => ⟨c, (h c s).1⟩ :: (k (h c s).1).transcript h (h c s).2

section Transcript
variable (h : Handler C R E σ) (s : σ)

@[simp] theorem transcript_pure (a : α) : (Prog.pure a : Prog C R E α).transcript h s = [] := rfl

@[simp] theorem transcript_throw (e : E) : (Prog.throw e : Prog C R E α).transcript h s = [] := rfl

/-- A sequence: the first program, and the second where the first has returned. -/
theorem transcript_bind (p : Prog C R E α) (f : α → Prog C R E β) :
    (p.bind f).transcript h s = p.transcript h s ++ match p.run h s with
      | (.ok a, s') => (f a).transcript h s'
      | (.error _, _) => [] := by
  induction p generalizing s with
  | pure a => rfl
  | throw e => rfl
  | call c k ih => exact congrArg (_ :: ·) (ih (h c s).1 (h c s).2)

theorem transcript_bind_ok {p : Prog C R E α} {a : α} {s' : σ} (hp : p.run h s = (.ok a, s')) (f : α → Prog C R E β) :
    (p.bind f).transcript h s = p.transcript h s ++ (f a).transcript h s' := by
  rw [transcript_bind, hp]

/-- A program that meets a contract issues only commands in `Pre`. -/
theorem Meets.transcript {p : Prog C R E α} (hp : p.Meets Pre (fun _ _ => True) Q) :
    ∀ x ∈ p.transcript h s, Pre x.1 := by
  induction p generalizing s with
  | pure a => intro x hx; cases hx
  | throw e => intro x hx; cases hx
  | call c k ih =>
    intro x hx
    rcases List.mem_cons.mp hx with rfl | hx
    · exact hp.1
    · exact ih _ _ (hp.next fun _ _ => trivial) x hx

end Transcript
end Interaction.Prog
