import Mathlib.Logic.Relation
import Mathlib.Order.Basic

/-! # Relations without cycles

Which edges can be added to a relation without closing a cycle. -/
namespace Chains
open Relation
set_option autoImplicit false

variable {α : Type} {r r' e : α → α → Prop} {a b : α}

/-- No chain leads from an element back to it. -/
def Acyclic (r : α → α → Prop) : Prop := ∀ a, ¬TransGen r a a

/-- Either of two relations. -/
def Either (r e : α → α → Prop) (a b : α) : Prop := r a b ∨ e a b

theorem Acyclic.mono (h : Acyclic r) (hsub : ∀ a b, r' a b → r a b) : Acyclic r' :=
  fun a hcycle => h a (TransGen.mono hsub _ _ hcycle)

/-- A chain along `r` and `e` runs along `r` alone, or goes through an edge of `e`. -/
theorem transGen_either (h : TransGen (Either r e) a b) :
    TransGen r a b ∨ ∃ x y, e x y ∧ ReflTransGen (Either r e) a x ∧ ReflTransGen (Either r e) y b := by
  induction h with
  | single hab =>
    rcases hab with hr | he
    · exact .inl (.single hr)
    · exact .inr ⟨_, _, he, .refl, .refl⟩
  | tail hchain hlast ih =>
    rcases hlast with hr | he
    · rcases ih with hrest | ⟨x, y, hxy, hax, hyb⟩
      · exact .inl (hrest.tail hr)
      · exact .inr ⟨x, y, hxy, hax, hyb.tail (.inl hr)⟩
    · exact .inr ⟨_, _, he, hchain.to_reflTransGen, .refl⟩

/-- Edges close no cycle when no chain leads back from the end of one to its start. -/
theorem acyclic_either_iff :
    Acyclic (Either r e) ↔ Acyclic r ∧ ∀ a b, e a b → ¬ReflTransGen (Either r e) b a := by
  constructor
  · intro h
    refine ⟨h.mono fun _ _ => .inl, fun a b hab hback => ?_⟩
    exact h a (TransGen.head' (.inr hab) hback)
  · rintro ⟨hr, he⟩ a hcycle
    rcases transGen_either hcycle with hold | ⟨x, y, hxy, hax, hya⟩
    · exact hr a hold
    · exact he x y hxy (hya.trans hax)

section Rank
variable {β : Type} [Preorder β] {rank : α → β}

/-- Along a chain a rank only falls. -/
theorem rank_le_of_chain (h : ∀ a b, r a b → rank b < rank a) (hchain : ReflTransGen r a b) : rank b ≤ rank a := by
  induction hchain with
  | refl => exact le_refl _
  | tail _ hlast ih => exact (h _ _ hlast).le.trans ih

theorem not_back_of_rank (h : ∀ a b, r a b → rank b < rank a) (hab : r a b) : ¬ReflTransGen r b a :=
  fun hback => (rank_le_of_chain h hback).not_gt (h a b hab)

end Rank

end Chains
