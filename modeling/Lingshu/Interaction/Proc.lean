import Mathlib.Data.Nat.Notation

/-! # Procedures that raise

A procedure reads and writes a state and returns or raises. It leaves a state in both cases, so that a caller
can say what a raised exception undoes. The rules of `Ensures` compute what a procedure has to meet. -/
namespace Interaction
set_option autoImplicit false

def Proc (σ E α : Type) : Type := σ → Except E α × σ

namespace Proc
variable {σ E α β γ : Type}

def run (p : Proc σ E α) (s : σ) : Except E α × σ := p s

instance : Monad (Proc σ E) where
  pure a := fun s => (.ok a, s)
  bind p f := fun s =>
    match p s with
    | (.ok a, s') => f a s'
    | (.error e, s') => (.error e, s')

def raise (e : E) : Proc σ E α := fun s => (.error e, s)

def read (f : σ → α) : Proc σ E α := fun s => (.ok (f s), s)

def update (f : σ → σ) : Proc σ E Unit := fun s => (.ok (), f s)

/-- A write that the store may refuse. -/
def tryUpdate (f : σ → Except E σ) : Proc σ E Unit := fun s =>
  match f s with
  | .ok s' => (.ok (), s')
  | .error e => (.error e, s)

/-- `if not c: raise e`. -/
def require (c : Prop) [Decidable c] (e : E) : Proc σ E Unit := fun s =>
  if c then (.ok (), s) else (.error e, s)

/-- `if o is None: raise e`. -/
def orRaise (o : Option α) (e : E) : Proc σ E α := fun s =>
  match o with
  | some a => (.ok a, s)
  | none => (.error e, s)

def ofExcept (r : Except E α) : Proc σ E α := fun s => (r, s)

/-! ## Postconditions -/

/-- From `s` the procedure returns a value and a state in `Q`, or raises and leaves a state in `R`. -/
def Ensures (p : Proc σ E α) (s : σ) (Q : α → σ → Prop) (R : E → σ → Prop) : Prop :=
  match p.run s with
  | (.ok a, s') => Q a s'
  | (.error e, s') => R e s'

section Rules
variable {p : Proc σ E α} {f : α → Proc σ E β} {s : σ} {a : α} {e : E}
variable {Q Q' : α → σ → Prop} {R R' : E → σ → Prop} {Q₂ : β → σ → Prop}

theorem Ensures.ok (h : p.Ensures s Q R) {s' : σ} (hp : p.run s = (.ok a, s')) : Q a s' := by
  rwa [Ensures, hp] at h

theorem Ensures.error (h : p.Ensures s Q R) {s' : σ} (hp : p.run s = (.error e, s')) : R e s' := by
  rwa [Ensures, hp] at h

theorem Ensures.mono (h : p.Ensures s Q R) (hq : ∀ a s', Q a s' → Q' a s') (hr : ∀ e s', R e s' → R' e s') :
    p.Ensures s Q' R' := by
  unfold Ensures at h ⊢
  split at h
  · exact hq _ _ h
  · exact hr _ _ h

theorem Ensures.and (h : p.Ensures s Q R) (h' : p.Ensures s Q' R') :
    p.Ensures s (fun a s' => Q a s' ∧ Q' a s') fun e s' => R e s' ∧ R' e s' := by
  revert h h'
  unfold Ensures
  cases p.run s with
  | mk r s' =>
    cases r with
    | ok a => exact And.intro
    | error e => exact And.intro

theorem Ensures.trivial : p.Ensures s (fun _ _ => True) fun _ _ => True := by
  unfold Ensures
  split <;> exact True.intro

@[simp] theorem ensures_pure : (pure a : Proc σ E α).Ensures s Q R ↔ Q a s := Iff.rfl

@[simp] theorem ensures_bind :
    (p >>= f).Ensures s Q₂ R ↔ p.Ensures s (fun a s₁ => (f a).Ensures s₁ Q₂ R) R := by
  have hbind : (p >>= f).run s = match p.run s with
      | (.ok a, s₁) => (f a).run s₁
      | (.error e, s₁) => (.error e, s₁) := rfl
  unfold Ensures
  rw [hbind]
  cases p.run s with
  | mk r s₁ => cases r <;> exact Iff.rfl

@[simp] theorem ensures_raise : (raise e : Proc σ E α).Ensures s Q R ↔ R e s := Iff.rfl

@[simp] theorem ensures_read {g : σ → α} : (read g : Proc σ E α).Ensures s Q R ↔ Q (g s) s := Iff.rfl

@[simp] theorem ensures_update {g : σ → σ} {Q : Unit → σ → Prop} :
    (update g : Proc σ E Unit).Ensures s Q R ↔ Q () (g s) := Iff.rfl

@[simp] theorem ensures_tryUpdate {g : σ → Except E σ} {Q : Unit → σ → Prop} :
    (tryUpdate g).Ensures s Q R ↔ (∀ s', g s = .ok s' → Q () s') ∧ ∀ e, g s = .error e → R e s := by
  have hrun : (tryUpdate g).run s = match g s with
      | .ok s' => (.ok (), s')
      | .error e => (.error e, s) := rfl
  unfold Ensures
  rw [hrun]
  cases g s <;> simp

@[simp] theorem ensures_require {c : Prop} [Decidable c] {Q : Unit → σ → Prop} :
    (require c e : Proc σ E Unit).Ensures s Q R ↔ (c → Q () s) ∧ (¬ c → R e s) := by
  have hrun : (require c e : Proc σ E Unit).run s = if c then (.ok (), s) else (.error e, s) := rfl
  unfold Ensures
  rw [hrun]
  by_cases h : c <;> simp [h]

@[simp] theorem ensures_orRaise {o : Option α} :
    (orRaise o e : Proc σ E α).Ensures s Q R ↔ (∀ a, o = some a → Q a s) ∧ (o = none → R e s) := by
  have hrun : (orRaise o e : Proc σ E α).run s = match o with
      | some a => (.ok a, s)
      | none => (.error e, s) := rfl
  unfold Ensures
  rw [hrun]
  cases o <;> simp

@[simp] theorem ensures_ofExcept {r : Except E α} :
    (ofExcept r : Proc σ E α).Ensures s Q R ↔ (∀ a, r = .ok a → Q a s) ∧ ∀ e, r = .error e → R e s := by
  have hrun : (ofExcept r : Proc σ E α).run s = (r, s) := rfl
  unfold Ensures
  rw [hrun]
  cases r <;> simp

/-! ## Returning -/

theorem ensures_congr {Q₀ : α → σ → Prop} {R₀ : E → σ → Prop} (h : p.Ensures s Q₀ R₀)
    (hq : ∀ a s', Q₀ a s' → (Q a s' ↔ Q' a s')) (hr : ∀ e s', R₀ e s' → (R e s' ↔ R' e s')) :
    p.Ensures s Q R ↔ p.Ensures s Q' R' := by
  unfold Ensures at h ⊢
  split at h
  · exact hq _ _ h
  · exact hr _ _ h

/-- The procedure returns. -/
def Returns (p : Proc σ E α) (s : σ) : Prop := p.Ensures s (fun _ _ => True) fun _ _ => False

theorem returns_iff : p.Returns s ↔ ∃ a, (p.run s).1 = .ok a := by
  unfold Returns Ensures
  cases p.run s with
  | mk r s' => cases r <;> simp

@[simp] theorem returns_pure : (pure a : Proc σ E α).Returns s := trivial

theorem ensures_const {c : Prop} : p.Ensures s (fun _ _ => c) (fun _ _ => False) ↔ p.Returns s ∧ c := by
  unfold Returns Ensures
  cases p.run s with
  | mk r s' => cases r <;> simp

theorem Returns.ensures (hp : p.Returns s) (h : p.Ensures s Q R) : p.Ensures s Q fun _ _ => False := by
  unfold Returns Ensures at *
  cases hrun : p.run s with
  | mk r s' => cases r <;> simp_all

theorem returns_bind : (p >>= f).Returns s ↔ p.Ensures s (fun a s₁ => (f a).Returns s₁) fun _ _ => False := ensures_bind

theorem ensures_require_returns {c : Prop} [Decidable c] {Q : Unit → σ → Prop} :
    (require c e : Proc σ E Unit).Ensures s Q (fun _ _ => False) ↔ c ∧ Q () s := by
  rw [ensures_require]
  exact ⟨fun h => ⟨Decidable.not_not.mp h.2, h.1 (Decidable.not_not.mp h.2)⟩, fun h => ⟨fun _ => h.2, fun hn => hn h.1⟩⟩

theorem ensures_orRaise_returns {o : Option α} :
    (orRaise o e : Proc σ E α).Ensures s Q (fun _ _ => False) ↔ ∃ a, o = some a ∧ Q a s := by
  rw [ensures_orRaise]
  cases o <;> simp

theorem ensures_ofExcept_returns {r : Except E α} :
    (ofExcept r : Proc σ E α).Ensures s Q (fun _ _ => False) ↔ ∃ a, r = .ok a ∧ Q a s := by
  rw [ensures_ofExcept]
  cases r <;> simp

end Rules
end Proc
end Interaction
