import Lingshu.Interaction.Until

/-! # What one group of callers sees of a pool

* `Pool.seen`: the part of the store that a group of callers can tell, and the threads of the group.
* `System.Isolates`: a command of the group does to that part what it does to the whole store, and whatever else happens
  is one of the acts of an environment.
* `System.Isolates.run`: all that the group sees of a run is a run of its own calls in that environment. -/
namespace Interaction
set_option autoImplicit false

variable {C : Type} {R : C → Type} {E σ σ' α K V W : Type}

/-! ## Filtered threads -/

section Filter
variable {A : Type} {l : List A} {i : ℕ} {a b : A} {p : A → Bool}

/-- Where an entry of a list is found in the filtered list. -/
def rankOf (p : A → Bool) (l : List A) (i : ℕ) : ℕ := (l.take i).countP p

theorem rankOf_zero (p : A → Bool) (l : List A) : rankOf p l 0 = 0 := rfl

theorem rankOf_cons_succ (p : A → Bool) (a : A) (l : List A) (i : ℕ) :
    rankOf p (a :: l) (i + 1) = (if p a then 1 else 0) + rankOf p l i := by
  rw [rankOf, rankOf, List.take_succ_cons, List.countP_cons, Nat.add_comm]

theorem getElem?_filter (h : l[i]? = some a) (ha : p a) : (l.filter p)[rankOf p l i]? = some a := by
  induction l generalizing i with
  | nil => cases h
  | cons x l ih =>
    cases i with
    | zero =>
      cases h
      rw [List.filter_cons_of_pos ha, rankOf_zero]
      rfl
    | succ i =>
      rw [rankOf_cons_succ]
      by_cases hx : p x = true
      · rw [List.filter_cons_of_pos hx, if_pos hx, Nat.add_comm]
        exact ih h
      · rw [List.filter_cons_of_neg hx, if_neg hx, Nat.zero_add]
        exact ih h

/-- Replacing an entry that passes by one that passes. -/
theorem filter_set (h : l[i]? = some a) (ha : p a) (hb : p b) :
    (l.set i b).filter p = (l.filter p).set (rankOf p l i) b := by
  induction l generalizing i with
  | nil => cases h
  | cons x l ih =>
    cases i with
    | zero =>
      cases h
      rw [List.set_cons_zero, List.filter_cons_of_pos hb, List.filter_cons_of_pos ha, rankOf_zero]
      rfl
    | succ i =>
      rw [List.set_cons_succ, rankOf_cons_succ]
      by_cases hx : p x = true
      · rw [List.filter_cons_of_pos hx, List.filter_cons_of_pos hx, if_pos hx, ih h, Nat.add_comm]
        rfl
      · rw [List.filter_cons_of_neg hx, List.filter_cons_of_neg hx, if_neg hx, ih h, Nat.zero_add]

/-- Replacing an entry that does not pass by one that does not. -/
theorem filter_set_of_not (h : l[i]? = some a) (ha : p a = false) (hb : p b = false) :
    (l.set i b).filter p = l.filter p := by
  induction l generalizing i with
  | nil => cases h
  | cons x l ih =>
    cases i with
    | zero =>
      cases h
      rw [List.set_cons_zero, List.filter_cons_of_neg (Bool.not_eq_true _ ▸ hb),
        List.filter_cons_of_neg (Bool.not_eq_true _ ▸ ha)]
    | succ i =>
      rw [List.set_cons_succ, List.filter_cons, List.filter_cons, ih h]

end Filter

/-! ## Groups of callers -/

/-- The call that comes in. -/
def Event.started : Event E K V → Option K
  | .start κ => some κ
  | _ => none

/-- The part of the store that a group of callers can tell, and their threads. -/
def Pool.seen (mine : K → Bool) (view : σ → σ') (p : Pool C R E σ α K) : Pool C R E σ' α K :=
  ⟨view p.state, p.threads.filter fun t => mine t.1⟩

namespace System
variable {sys : System C R E σ α K V} {own : System C R E σ' α K W}
variable {mine : K → Bool} {view : σ → σ'} {Pre : K → C → Prop} {Post : (c : C) → R c → Prop} {J : σ → Prop}

/-- Nothing is seen, or an act of the environment. -/
def Seen (own : System C R E σ' α K W) (s s' : σ') : Prop := s' = s ∨ ∃ w, s' = own.env w s

/-- On stores in `J`, the commands of the group work on the view as they do on the whole store, and everything else is
an act of the group's environment. -/
structure Isolates (sys : System C R E σ α K V) (own : System C R E σ' α K W) (mine : K → Bool) (view : σ → σ')
    (Pre : K → C → Prop) (J : σ → Prop) : Prop where
  program : ∀ κ, mine κ → own.program κ = sys.program κ
  inside : ∀ κ c s, mine κ → Pre κ c → J s → own.handler c (view s) = ((sys.handler c s).1, view (sys.handler c s).2)
  outside : ∀ κ c s, mine κ = false → Pre κ c → J s → own.Seen (view s) (view (sys.handler c s).2)
  env : ∀ v s, J s → own.Seen (view s) (view (sys.env v s))

/-- A step is a step of the group, or an act of its environment, or not seen at all. -/
theorem Isolates.step (h : Isolates sys own mine view Pre J) {p : Pool C R E σ α K} (hp : Holds Pre Post J p)
    (e : Event E K V) : ∃ es, runFrom own.next (p.seen mine view) es = (sys.next p e).seen mine view ∧
      es.filterMap Event.started = (Event.started e).toList.filter mine := by
  have hown : ∀ {i : ℕ} {κ : K} {q : Prog C R E α}, p.threads[i]? = some (κ, q) → mine κ →
      (p.seen mine view).threads[rankOf (fun t => mine t.1) p.threads i]? = some (κ, q) :=
    fun hi hκ => getElem?_filter hi hκ
  have hpre : ∀ {i : ℕ} {κ : K} {c : C} {k : Except E (R c) → Prog C R E α},
      p.threads[i]? = some (κ, .call c k) → Pre κ c := fun hi => (hp.meets _ (List.mem_of_getElem? hi)).1
  have hseen : ∀ {p' : Pool C R E σ α K}, own.Seen (view p.state) (view p'.state) →
      p'.threads.filter (fun t => mine t.1) = p.threads.filter (fun t => mine t.1) →
      ∃ es, runFrom own.next (p.seen mine view) es = p'.seen mine view ∧ es.filterMap Event.started = [] := by
    intro p' hstate hthreads
    rw [Pool.seen, Pool.seen, hthreads]
    obtain hsame | ⟨w, hw⟩ := hstate
    · exact ⟨[], by rw [hsame]; rfl, rfl⟩
    · exact ⟨[.env w], by rw [hw]; rfl, rfl⟩
  have hhappens := happens sys p e
  revert hhappens
  generalize sys.next p e = p'
  intro hhappens
  cases hhappens with
  | started κ =>
    by_cases hκ : mine κ = true
    · refine ⟨[.start κ], ?_, by simp [Event.started, hκ]⟩
      rw [runFrom_cons, System.next, h.program κ hκ]
      simp [runFrom, Pool.seen, hκ]
    · exact ⟨[], by simp [runFrom, Pool.seen, hκ], by simp [Event.started, hκ]⟩
  | outside v => exact hseen (h.env v p.state hp.inv) rfl
  | nothing he hnone =>
    refine ⟨[], rfl, ?_⟩
    obtain rfl | ⟨x, rfl⟩ | ⟨x, rfl⟩ := he <;> rfl
  | @answered i κ c k hi =>
    by_cases hκ : mine κ = true
    · refine ⟨[.step (rankOf (fun t => mine t.1) p.threads i)], ?_, rfl⟩
      have hset := filter_set (p := fun t : K × Prog C R E α => mine t.1)
        (b := (κ, k (sys.handler c p.state).1)) hi hκ hκ
      rw [runFrom_cons, next_step own (hown hi hκ), Pool.seen, Pool.seen, hset]
      simp only [Prog.head, Option.map_some, execute, answer, h.inside κ c p.state hκ (hpre hi) hp.inv]
      rfl
    · rw [Bool.not_eq_true] at hκ
      exact hseen (h.outside κ c p.state hκ (hpre hi) hp.inv) (filter_set_of_not hi hκ hκ)
  | @lost i κ c k x hi =>
    by_cases hκ : mine κ = true
    · refine ⟨[.lose (rankOf (fun t => mine t.1) p.threads i) x], ?_, rfl⟩
      have hset := filter_set (p := fun t : K × Prog C R E α => mine t.1) (b := (κ, k (.error x))) hi hκ hκ
      have hmine := hown hi hκ
      rw [runFrom_cons, System.next, Pool.issues, pending_of_getElem? hmine, modify_of_getElem? hmine, Pool.seen,
        Pool.seen, hset]
      simp only [execute, raise, h.inside κ c p.state hκ (hpre hi) hp.inv]
      rfl
    · rw [Bool.not_eq_true] at hκ
      exact hseen (h.outside κ c p.state hκ (hpre hi) hp.inv) (filter_set_of_not hi hκ hκ)
  | @refused i κ c k x hi =>
    by_cases hκ : mine κ = true
    · refine ⟨[.refuse (rankOf (fun t => mine t.1) p.threads i) x], ?_, rfl⟩
      have hset := filter_set (p := fun t : K × Prog C R E α => mine t.1) (b := (κ, k (.error x))) hi hκ hκ
      rw [runFrom_cons, System.next, modify_of_getElem? (hown hi hκ), Pool.seen, Pool.seen, hset]
      rfl
    · rw [Bool.not_eq_true] at hκ
      refine ⟨[], ?_, rfl⟩
      have hset := filter_set_of_not (p := fun t : K × Prog C R E α => mine t.1) (b := (κ, k (.error x))) hi hκ hκ
      rw [Pool.seen, Pool.seen, hset]
      rfl

/-- What a group sees of a run is a run of its own calls in its environment. -/
theorem Isolates.run (h : Isolates sys own mine view Pre J) {p : Pool C R E σ α K} {es : List (Event E K V)}
    (hp : ∀ fs, fs <+: es → Holds Pre Post J (runFrom sys.next p fs)) :
    ∃ fs, runFrom own.next (p.seen mine view) fs = (runFrom sys.next p es).seen mine view ∧
      fs.filterMap Event.started = (es.filterMap Event.started).filter mine := by
  induction es generalizing p with
  | nil => exact ⟨[], rfl, rfl⟩
  | cons e es ih =>
    have hnow : Holds Pre Post J p := hp [] List.nil_prefix
    obtain ⟨fs, hfirst, hcalls⟩ := h.step hnow e
    obtain ⟨gs, hrest, hcalls'⟩ := ih fun fs hfs => hp (e :: fs) ((List.prefix_cons_inj e).mpr hfs)
    refine ⟨fs ++ gs, ?_, ?_⟩
    · rw [runFrom_append, hfirst, hrest]
      rfl
    · rw [List.filterMap_append, hcalls, hcalls', ← List.filter_append]
      cases e <;> rfl

end System
end Interaction
