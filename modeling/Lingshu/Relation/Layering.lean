import Lingshu.Relation.Acyclic
import Mathlib.Data.Finite.Prod
import Mathlib.Order.Bounds.Basic
import Mathlib.Order.WellFounded
import Mathlib.Order.Preorder.Finite

/-! # Layers of a relation

The elements of a part of a relation that settle in `k` rounds, each as soon as all its predecessors have. They
are those that no chain of `k` edges leads into; in a finite part, all that settle at all are those behind which
there is no cycle and nothing outside. -/
namespace Chains
open Relation
set_option autoImplicit false

variable {α : Type} {r : α → α → Prop} {N : α → Prop} {a b : α} {j k : ℕ}

/-! ## Chains by their length -/

/-- A chain of `k` edges ends in an element. -/
inductive Into (r : α → α → Prop) : ℕ → α → Prop
  | start (a : α) : Into r 0 a
  | step {k : ℕ} {a b : α} (hchain : Into r k a) (hedge : r a b) : Into r (k + 1) b

/-- The first edge of a chain can be left out. -/
theorem Into.tail (h : Into r (k + 1) a) : Into r k a := by
  induction k generalizing a with
  | zero => exact .start a
  | succ k ih =>
    obtain _ | ⟨hchain, hedge⟩ := h
    exact .step (ih hchain) hedge

theorem Into.le (h : Into r k a) (hjk : j ≤ k) : Into r j a := by
  induction hjk with
  | refl => exact h
  | step _ ih => exact ih h.tail

/-! ## Rounds -/

/-- Settled in `k` rounds. -/
def Settled (r : α → α → Prop) (N : α → Prop) : ℕ → α → Prop
  | 0, _ => False
  | k + 1, a => N a ∧ ∀ b, r b a → Settled r N k b

theorem Settled.mem (h : Settled r N k a) : N a := by
  cases k with
  | zero => exact h.elim
  | succ k => exact h.1

theorem Settled.next (h : Settled r N k a) : Settled r N (k + 1) a := by
  induction k generalizing a with
  | zero => exact h.elim
  | succ k ih => exact ⟨h.1, fun b hb => ih (h.2 b hb)⟩

theorem Settled.le (h : Settled r N j a) (hjk : j ≤ k) : Settled r N k a := by
  induction hjk with
  | refl => exact h
  | step _ ih => exact ih.next

theorem Settled.not_into (h : Settled r N k a) : ¬Into r k a := by
  intro hinto
  induction k generalizing a with
  | zero => exact h
  | succ k ih =>
    obtain _ | ⟨hchain, hedge⟩ := hinto
    exact ih (h.2 _ hedge) hchain

/-- Where nothing leads in from outside, only long chains keep an element from settling. -/
theorem settled_of_not_into (hclosed : ∀ a b, r a b → N b → N a) (ha : N a) (h : ¬Into r k a) : Settled r N k a := by
  induction k generalizing a with
  | zero => exact h (.start a)
  | succ k ih =>
    refine ⟨ha, fun b hb => ?_⟩
    exact ih (hclosed b a hb ha) fun hchain => h (.step hchain hb)

/-- After a round that settles nothing new no round does. -/
theorem settled_stable (h : ∀ a, Settled r N (k + 1) a → Settled r N k a) (hjk : k ≤ j) :
    ∀ a, Settled r N (j + 1) a → Settled r N j a := by
  induction hjk with
  | refl => exact h
  | step _ ih => exact fun a ha => ⟨ha.1, fun b hb => ih b (ha.2 b hb)⟩

/-- The round in which an element settles is the length of the longest chain into it. -/
theorem longest_of_settled (hclosed : ∀ a b, r a b → N b → N a) (hnext : Settled r N (k + 1) a)
    (hnot : ¬Settled r N k a) : IsGreatest {j | Into r j a} k := by
  constructor
  · by_contra h
    exact hnot (settled_of_not_into hclosed hnext.mem h)
  · intro j hj
    by_contra hlt
    exact hnext.not_into (hj.le (by omega))

/-! ## What settles -/

/-- No chain leads to the element from a cycle or from outside. -/
def Grounded (r : α → α → Prop) (N : α → Prop) (a : α) : Prop :=
  ∀ b, ReflTransGen r b a → N b ∧ ¬TransGen r b b

theorem Grounded.mem (h : Grounded r N a) : N a := (h a .refl).1

theorem Grounded.pred (h : Grounded r N b) (hab : r a b) : Grounded r N a := fun c hc => h c (hc.tail hab)

theorem Settled.grounded (h : Settled r N k a) : Grounded r N a := by
  induction k generalizing a with
  | zero => exact h.elim
  | succ k ih =>
    have hpred : ∀ c, r c a → Grounded r N c := fun c hc => ih (h.2 c hc)
    intro b hb
    obtain rfl | ⟨c, hbc, hca⟩ := hb.cases_tail
    · refine ⟨h.1, fun hcycle => ?_⟩
      obtain ⟨c, hac, hca⟩ := TransGen.tail'_iff.mp hcycle
      exact (hpred c hca a hac).2 hcycle
    · exact hpred c hca b hbc

/-- When a round settles nothing new, all grounded elements are settled. -/
theorem Grounded.settled (hfinite : {a | N a}.Finite) (hstable : ∀ a, Settled r N (k + 1) a → Settled r N k a)
    (h : Grounded r N a) : Settled r N k a := by
  have : Finite {a // Grounded r N a} := (hfinite.subset fun a ha => Grounded.mem ha).to_subtype
  let before (b a : {a // Grounded r N a}) : Prop := TransGen r b.1 a.1
  have : IsTrans _ before := ⟨fun _ _ _ hab hbc => TransGen.trans hab hbc⟩
  have : Std.Irrefl before := ⟨fun a ha => (a.2 a.1 .refl).2 ha⟩
  have hwf : WellFounded before := Finite.wellFounded_of_trans_of_irrefl before
  -- Induction along the relation: the predecessors of a grounded element are grounded.
  have hall : ∀ a : {a // Grounded r N a}, Settled r N k a.1 := by
    intro a
    induction a using hwf.induction with
    | _ a ih =>
      exact hstable a.1 ⟨a.2.mem, fun b hb => ih ⟨b, a.2.pred hb⟩ (.single hb)⟩
  exact hall ⟨a, h⟩

/-- The edges within the part. -/
def Within (r : α → α → Prop) (N : α → Prop) (a b : α) : Prop := r a b ∧ N a ∧ N b

/-- In a part that nothing leads into, a chain stays within it. -/
theorem transGen_within (hclosed : ∀ a b, r a b → N b → N a) (h : TransGen r a b) (hb : N b) :
    TransGen (Within r N) a b := by
  induction h using TransGen.head_induction_on with
  | single hab => exact .single ⟨hab, hclosed _ _ hab hb, hb⟩
  | head hac _ ih =>
    obtain ⟨d, hcd, _⟩ := TransGen.head'_iff.mp ih
    exact .head ⟨hac, hclosed _ _ hac hcd.2.1, hcd.2.1⟩ ih

theorem mem_of_chain (hclosed : ∀ a b, r a b → N b → N a) (h : ReflTransGen r a b) (hb : N b) : N a := by
  induction h using ReflTransGen.head_induction_on with
  | refl => exact hb
  | head hac _ ih => exact hclosed _ _ hac ih

/-- All is grounded exactly when nothing leads in and there is no cycle within. -/
theorem all_grounded_iff :
    (∀ a, N a → Grounded r N a) ↔ Acyclic (Within r N) ∧ ∀ a b, r a b → N b → N a := by
  constructor
  · intro h
    refine ⟨fun a hcycle => ?_, fun a b hab hb => (h b hb a (.single hab)).1⟩
    obtain ⟨b, hab, _⟩ := TransGen.head'_iff.mp hcycle
    exact (h a hab.2.1 a .refl).2 (TransGen.mono (fun _ _ hw => hw.1) _ _ hcycle)
  · rintro ⟨hacyclic, hclosed⟩ a ha b hba
    have hb : N b := mem_of_chain hclosed hba ha
    exact ⟨hb, fun hcycle => hacyclic b (transGen_within hclosed hcycle hb)⟩

end Chains
