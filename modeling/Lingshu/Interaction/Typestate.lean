import Lingshu.Interaction.Until
import Lingshu.Interaction.Yields
import Mathlib.Data.List.Forall2

/-! # Programs in phases

* `Discipline`: the phases that a program goes through; which command each admits, and where its outcome leads.
* `Prog.Follows`: a program keeps to a discipline from a phase on; `Follows.trail`, then so does all that it may issue.
* `System.Tracks`: the threads of a pool, each with the phase that it is in. `Keeps.run` is the induction rule for what
  holds of the store and these phases together. -/
namespace Interaction
set_option autoImplicit false

variable {C : Type} {R : C → Type} {E σ α β K V Φ : Type}

structure Discipline (C : Type) (R : C → Type) (E Φ : Type) where
  admits : Φ → C → Prop
  after : Φ → (c : C) → Except E (R c) → Φ

/-- Every command is admitted in the phase that the commands before it lead to. -/
def Discipline.Admits (D : Discipline C R E Φ) : Φ → List ((c : C) × Except E (R c)) → Prop
  | _, [] => True
  | φ, ⟨c, r⟩ :: xs => D.admits φ c ∧ D.Admits (D.after φ c r) xs

namespace Prog
variable {D : Discipline C R E Φ} {Post : (c : C) → R c → Prop} {F G : Φ → Except E α → Prop}
variable {H : Φ → Except E β → Prop} {φ : Φ}

/-- From `φ` on the program issues what the discipline admits, provided that every answer to a command `c` is in
`Post c`, and it ends in a phase and with an outcome in `F`. -/
def Follows (D : Discipline C R E Φ) (Post : (c : C) → R c → Prop) (F : Φ → Except E α → Prop) :
    Φ → Prog C R E α → Prop
  | φ, .pure a => F φ (.ok a)
  | φ, .throw e => F φ (.error e)
  | φ, .call c k => D.admits φ c ∧ (∀ a, Post c a → (k (.ok a)).Follows D Post F (D.after φ c (.ok a))) ∧
      ∀ e, (k (.error e)).Follows D Post F (D.after φ c (.error e))

theorem Follows.mono {p : Prog C R E α} (h : p.Follows D Post F φ) (hF : ∀ φ r, F φ r → G φ r) :
    p.Follows D Post G φ := by
  induction p generalizing φ with
  | pure a => exact hF φ _ h
  | throw e => exact hF φ _ h
  | call c k ih => exact ⟨h.1, fun a ha => ih _ (h.2.1 a ha), fun e => ih _ (h.2.2 e)⟩

theorem Follows.bind {p : Prog C R E α} {f : α → Prog C R E β} (hp : p.Follows D Post F φ)
    (hok : ∀ ψ a, F ψ (.ok a) → (f a).Follows D Post H ψ) (herror : ∀ ψ e, F ψ (.error e) → H ψ (.error e)) :
    (p.bind f).Follows D Post H φ := by
  induction p generalizing φ with
  | pure a => exact hok φ a hp
  | throw e => exact herror φ e hp
  | call c k ih => exact ⟨hp.1, fun a ha => ih _ (hp.2.1 a ha), fun e => ih _ (hp.2.2 e)⟩

theorem Follows.tryCatch {p : Prog C R E α} {f : E → Prog C R E α} (hp : p.Follows D Post F φ)
    (hok : ∀ ψ a, F ψ (.ok a) → G ψ (.ok a)) (herror : ∀ ψ e, F ψ (.error e) → (f e).Follows D Post G ψ) :
    (p.tryCatch f).Follows D Post G φ := by
  induction p generalizing φ with
  | pure a => exact hok φ a hp
  | throw e => exact herror φ e hp
  | call c k ih => exact ⟨hp.1, fun a ha => ih _ (hp.2.1 a ha), fun e => ih _ (hp.2.2 e)⟩

/-- Whatever the body comes to, the last part starts in the phase that it is left in. -/
theorem Follows.tryFinally {p : Prog C R E α} {q : Prog C R E Unit} {F' : Φ → Except E Unit → Prop}
    (hp : p.Follows D Post F φ) (hq : ∀ ψ r, F ψ r → q.Follows D Post F' ψ) (hok : ∀ ψ r, F' ψ (.ok ()) → G ψ r)
    (herror : ∀ ψ e, F' ψ (.error e) → G ψ (.error e)) : (p.tryFinally q).Follows D Post G φ := by
  induction p generalizing φ with
  | pure a => exact (hq φ _ hp).bind (fun ψ _ hψ => hok ψ _ hψ) herror
  | throw e => exact (hq φ _ hp).bind (fun ψ _ hψ => hok ψ _ hψ) herror
  | call c k ih => exact ⟨hp.1, fun a ha => ih _ (hp.2.1 a ha), fun e => ih _ (hp.2.2 e)⟩

theorem Follows.perform {c : C} (h : D.admits φ c) : (Prog.perform c : Prog C R E (R c)).Follows D Post
    (fun ψ r => ψ = D.after φ c r ∧ ∀ a, r = .ok a → Post c a) φ := by
  refine ⟨h, fun a ha => ⟨rfl, ?_⟩, fun e => ⟨rfl, fun a ha => nomatch ha⟩⟩
  intro b hb
  cases hb
  exact ha

/-- A program whose commands leave the phase as it is. -/
theorem Meets.follows {Pre : C → Prop} {Q : α → Prop} {p : Prog C R E α} (h : p.Meets Pre Post Q)
    (hc : ∀ c, Pre c → D.admits φ c ∧ ∀ r, D.after φ c r = φ) :
    p.Follows D Post (fun ψ r => ψ = φ ∧ ∀ a, r = .ok a → Q a) φ := by
  induction p with
  | pure a =>
    refine ⟨rfl, ?_⟩
    intro b hb
    cases hb
    exact h
  | throw e => exact ⟨rfl, fun a ha => nomatch ha⟩
  | call c k ih =>
    obtain ⟨hadmits, hafter⟩ := hc c h.1
    refine ⟨hadmits, fun a ha => ?_, fun e => ?_⟩
    · rw [hafter]
      exact ih _ (h.2.1 a ha)
    · rw [hafter]
      exact ih _ (h.2.2 e)

/-- The discipline of the programs that also keep to `Pre`. -/
theorem Follows.and_meets {Pre : C → Prop} {Q : α → Prop} {p : Prog C R E α} (h : p.Follows D Post F φ)
    (hp : p.Meets Pre Post Q) : p.Follows ⟨fun ψ c => Pre c ∧ D.admits ψ c, D.after⟩ Post F φ := by
  induction p generalizing φ with
  | pure a => exact h
  | throw e => exact h
  | call c k ih =>
    exact ⟨⟨hp.1, h.1⟩, fun a ha => ih _ (h.2.1 a ha) (hp.2.1 a ha), fun e => ih _ (h.2.2 e) (hp.2.2 e)⟩

/-- The commands that a program issues one after the other, whatever they are answered, with their outcomes. -/
inductive Trail : Prog C R E α → List ((c : C) × Except E (R c)) → Prop where
  | nil (p : Prog C R E α) : Trail p []
  | cons {c : C} {k : Except E (R c) → Prog C R E α} {xs : List ((c : C) × Except E (R c))} (r : Except E (R c))
      (rest : Trail (k r) xs) : Trail (.call c k) (⟨c, r⟩ :: xs)

theorem trail_transcript (h : Handler C R E σ) (p : Prog C R E α) (s : σ) : Trail p (p.transcript h s) := by
  induction p generalizing s with
  | pure a => exact .nil _
  | throw e => exact .nil _
  | call c k ih => exact .cons _ (ih _ _)

theorem transcript_tryCatch_ok (h : Handler C R E σ) {p : Prog C R E α} {s s' : σ} {a : α} (hp : p.run h s = (.ok a, s'))
    (f : E → Prog C R E α) : (p.tryCatch f).transcript h s = p.transcript h s := by
  induction p generalizing s with
  | pure a => rfl
  | throw e => cases hp
  | call c k ih => exact congrArg (_ :: ·) (ih _ hp)

theorem Follows.trail {p : Prog C R E α} {xs : List ((c : C) × Except E (R c))} (h : p.Follows D Post F φ)
    (hxs : p.Trail xs) (hPost : ∀ c a, ⟨c, .ok a⟩ ∈ xs → Post c a) : D.Admits φ xs := by
  induction hxs generalizing φ with
  | nil p => trivial
  | @cons c k xs r rest ih =>
    refine ⟨h.1, ih ?_ fun c a ha => hPost c a (List.mem_cons_of_mem _ ha)⟩
    cases r with
    | ok a => exact h.2.1 a (hPost c a List.mem_cons_self)
    | error e => exact h.2.2 e

end Prog

namespace System
variable {sys : System C R E σ α K V} {D : K → Discipline C R E Φ} {Post : (c : C) → R c → Prop} {init : K → Φ}
variable {F : Φ → Except E α → Prop} {I : σ → List (K × Φ) → Prop}
variable {Can : Pool C R E σ α K → K → C → Prop} {Env : Pool C R E σ α K → V → Prop}

/-- The thread is a call's, goes on as the phase says, and ends in `F`. -/
def InPhase (D : K → Discipline C R E Φ) (Post : (c : C) → R c → Prop) (F : Φ → Except E α → Prop)
    (t : K × Prog C R E α) (u : K × Φ) : Prop :=
  t.1 = u.1 ∧ t.2.Follows (D t.1) Post F u.2

/-- The threads with their phases, and what holds of the store and the phases. -/
structure Tracks (D : K → Discipline C R E Φ) (Post : (c : C) → R c → Prop) (F : Φ → Except E α → Prop)
    (I : σ → List (K × Φ) → Prop) (p : Pool C R E σ α K) (us : List (K × Φ)) : Prop where
  phases : List.Forall₂ (InPhase D Post F) p.threads us
  inv : I p.state us

/-- The event lets a call take effect as `Can` says, or the environment as `Env` says. -/
def Permits (Can : Pool C R E σ α K → K → C → Prop) (Env : Pool C R E σ α K → V → Prop) (p : Pool C R E σ α K)
    (e : Event E K V) : Prop :=
  (∀ κ c, p.issues e = some (κ, c) → Can p κ c) ∧ ∀ v, e = .env v → Env p v

/-- Calls start in their first phase; a command that a phase admits keeps the invariant, with the phase that follows,
whether it is answered, loses its answer or is refused. -/
structure Keeps (sys : System C R E σ α K V) (D : K → Discipline C R E Φ) (Post : (c : C) → R c → Prop)
    (F : Φ → Except E α → Prop) (init : K → Φ) (I : σ → List (K × Φ) → Prop)
    (Can : Pool C R E σ α K → K → C → Prop) (Env : Pool C R E σ α K → V → Prop) : Prop where
  start : ∀ s us κ, I s us → I s (us ++ [(κ, init κ)])
  env : ∀ p us v, Tracks D Post F I p us → Env p v → I (sys.env v p.state) us
  answers : ∀ p us κ c, Tracks D Post F I p us → Can p κ c → ∀ a, (sys.handler c p.state).1 = .ok a → Post c a
  executed : ∀ p us i κ φ c r, Tracks D Post F I p us → us[i]? = some (κ, φ) → (D κ).admits φ c → Can p κ c →
    r = (sys.handler c p.state).1 ∨ (∃ x, r = .error x) →
      I (sys.handler c p.state).2 (us.set i (κ, (D κ).after φ c r))
  refused : ∀ s us i κ φ c x, I s us → us[i]? = some (κ, φ) → (D κ).admits φ c →
    I s (us.set i (κ, (D κ).after φ c (.error x)))

theorem getElem?_forall₂ {A B : Type} {S : A → B → Prop} {as : List A} {bs : List B} (h : List.Forall₂ S as bs)
    {i : ℕ} {a : A} (ha : as[i]? = some a) : ∃ b, bs[i]? = some b ∧ S a b := by
  induction h generalizing i with
  | nil => cases ha
  | @cons a' b' as bs hab _ ih =>
    cases i with
    | zero =>
      cases ha
      exact ⟨b', rfl, hab⟩
    | succ i => exact ih ha

theorem forall₂_set {A B : Type} {S : A → B → Prop} {as : List A} {bs : List B} (h : List.Forall₂ S as bs) (i : ℕ)
    {a : A} {b : B} (hab : S a b) : List.Forall₂ S (as.set i a) (bs.set i b) := by
  induction h generalizing i with
  | nil => exact .nil
  | cons hab' htail ih =>
    cases i with
    | zero => exact .cons hab htail
    | succ i => exact .cons hab' (ih i)

/-- The phase that the thread with the next command is in admits the command. -/
theorem Tracks.admits {p : Pool C R E σ α K} {us : List (K × Φ)} (h : Tracks D Post F I p us) {i : ℕ} {κ : K} {c : C}
    {k : Except E (R c) → Prog C R E α} (hi : p.threads[i]? = some (κ, .call c k)) :
    ∃ φ, us[i]? = some (κ, φ) ∧ (Prog.call c k).Follows (D κ) Post F φ := by
  obtain ⟨⟨κ', φ⟩, hu, hκ, hfollows⟩ := getElem?_forall₂ h.phases hi
  cases hκ
  exact ⟨φ, hu, hfollows⟩

theorem Tracks.pending {p : Pool C R E σ α K} {us : List (K × Φ)} (h : Tracks D Post F I p us) {i : ℕ} {κ : K} {c : C}
    (hc : p.pending i = some (κ, c)) : ∃ φ, us[i]? = some (κ, φ) ∧ (D κ).admits φ c := by
  simp only [Pool.pending, Option.bind_eq_some_iff, Option.map_eq_some_iff, Prod.mk.injEq] at hc
  obtain ⟨⟨k, q⟩, ht, d, hhead, rfl, rfl⟩ := hc
  cases q with
  | pure a => cases hhead
  | throw x => cases hhead
  | call d' next =>
    cases hhead
    obtain ⟨φ, hu, hfollows⟩ := h.admits ht
    exact ⟨φ, hu, hfollows.1⟩

theorem Tracks.issued {p : Pool C R E σ α K} {us : List (K × Φ)} (h : Tracks D Post F I p us) {e : Event E K V} {κ : K}
    {c : C} (hc : p.issues e = some (κ, c)) : ∃ φ, (κ, φ) ∈ us ∧ (D κ).admits φ c := by
  have hindex : ∃ i, p.pending i = some (κ, c) := by
    cases e with
    | step i => exact ⟨i, hc⟩
    | lose i x => exact ⟨i, hc⟩
    | start k | refuse i x | env v => cases hc
  obtain ⟨i, hi⟩ := hindex
  obtain ⟨φ, hu, hadmits⟩ := h.pending hi
  exact ⟨φ, List.mem_of_getElem? hu, hadmits⟩

variable (sys) in
/-- The phases after an event: a call that comes in is in its first phase, one that is answered goes on to the next. -/
def advance (after : K → Φ → (c : C) → Except E (R c) → Φ) (init : K → Φ) (p : Pool C R E σ α K) (us : List (K × Φ)) :
    Event E K V → List (K × Φ)
  | .start κ => us ++ [(κ, init κ)]
  | .step i =>
    match p.pending i with
    | some (_, c) => us.modify i fun u => (u.1, after u.1 u.2 c (sys.handler c p.state).1)
    | none => us
  | .lose i x | .refuse i x =>
    match p.pending i with
    | some (_, c) => us.modify i fun u => (u.1, after u.1 u.2 c (.error x))
    | none => us
  | .env _ => us

/-- One step of a pool. -/
theorem Keeps.next (h : Keeps sys D Post F init I Can Env) {p : Pool C R E σ α K} {us : List (K × Φ)}
    (ht : Tracks D Post F I p us) (e : Event E K V)
    (hstart : ∀ κ, e = .start κ → (sys.program κ).Follows (D κ) Post F (init κ))
    (hp : Permits Can Env p e) :
    Tracks D Post F I (sys.next p e) (sys.advance (fun κ => (D κ).after) init p us e) := by
  have hhappens := happens sys p e
  revert hhappens
  generalize sys.next p e = p'
  intro hhappens
  cases hhappens with
  | started κ => exact ⟨List.rel_append ht.phases (.cons ⟨rfl, hstart κ rfl⟩ .nil), h.start _ _ κ ht.inv⟩
  | outside v => exact ⟨ht.phases, h.env _ _ v ht (hp.2 v rfl)⟩
  | nothing he hnone =>
    obtain rfl | ⟨x, rfl⟩ | ⟨x, rfl⟩ := he <;>
    · simp only [advance, hnone]
      exact ht
  | @answered i κ c k hi =>
    obtain ⟨φ, hu, hadmits, hok, herror⟩ := ht.admits hi
    have hcan : Can p κ c := hp.1 κ c (pending_of_getElem? hi)
    simp only [advance, pending_of_getElem? hi, modify_of_getElem? hu]
    refine ⟨forall₂_set ht.phases i ⟨rfl, ?_⟩, h.executed _ _ i κ φ c _ ht hu hadmits hcan (.inl rfl)⟩
    cases hr : (sys.handler c p.state).1 with
    | ok a => exact hok a (h.answers _ _ κ c ht hcan a hr)
    | error x => exact herror x
  | @lost i κ c k x hi =>
    obtain ⟨φ, hu, hadmits, _, herror⟩ := ht.admits hi
    have hcan : Can p κ c := hp.1 κ c (pending_of_getElem? hi)
    simp only [advance, pending_of_getElem? hi, modify_of_getElem? hu]
    exact ⟨forall₂_set ht.phases i ⟨rfl, herror x⟩, h.executed _ _ i κ φ c _ ht hu hadmits hcan (.inr ⟨x, rfl⟩)⟩
  | @refused i κ c k x hi =>
    obtain ⟨φ, hu, hadmits, _, herror⟩ := ht.admits hi
    simp only [advance, pending_of_getElem? hi, modify_of_getElem? hu]
    exact ⟨forall₂_set ht.phases i ⟨rfl, herror x⟩, h.refused _ _ i κ φ c x ht.inv hu hadmits⟩

/-- All along a run of permitted steps. -/
theorem Keeps.run (h : Keeps sys D Post F init I Can Env) {p : Pool C R E σ α K} {us : List (K × Φ)}
    {es : List (Event E K V)} {Q : Pool C R E σ α K → Event E K V → Prop} (ht : Tracks D Post F I p us)
    (hstart : ∀ κ, .start κ ∈ es → (sys.program κ).Follows (D κ) Post F (init κ))
    (hp : StepsMeet sys.next (Permits Can Env) p es)
    (hQ : ∀ p us e, Tracks D Post F I p us → Permits Can Env p e → Q p e) : StepsMeet sys.next Q p es := by
  induction es generalizing p us with
  | nil => trivial
  | cons e es ih =>
    have ht' := h.next ht e (fun κ hκ => hstart κ (hκ ▸ List.mem_cons_self)) hp.1
    exact ⟨hQ p us e ht hp.1, ih ht' (fun κ hκ => hstart κ (List.mem_cons_of_mem e hκ)) hp.2⟩

end System
end Interaction
