import Lingshu.Interaction.Run

/-! # Stages of a program, histories of a pool

* `Prog.Until Stay May Leave Final p`: the program keeps to the commands in `Stay` until it hands over, at a
  command and a continuation in `Leave` or with an outcome in `Final`. A call that goes through stages is
  described by one such predicate for each.
* `System.Happens`: what an event does to a pool, one case for each way.
* `Watched`: a pool with the commands that each of its threads has had executed. -/
namespace Interaction
set_option autoImplicit false

variable {C : Type} {R : C → Type} {E σ α β : Type}

namespace Prog

/-- As long as every outcome of a command is in `May`, the program keeps to `Stay` until it leaves. -/
def Until (Stay : C → Prop) (May : (c : C) → Except E (R c) → Prop)
    (Leave : (c : C) → (Except E (R c) → Prog C R E α) → Prop) (Final : Except E α → Prop) : Prog C R E α → Prop
  | .pure a => Final (.ok a)
  | .throw e => Final (.error e)
  | .call c k => Leave c k ∨ (Stay c ∧ ∀ r, May c r → (k r).Until Stay May Leave Final)

variable {Stay : C → Prop} {May : (c : C) → Except E (R c) → Prop}
variable {Leave : (c : C) → (Except E (R c) → Prog C R E α) → Prop} {Final : Except E α → Prop}
variable {Leave' : (c : C) → (Except E (R c) → Prog C R E β) → Prop} {Final' : Except E β → Prop}

/-- A program that stays to its end, at the start of a stage. -/
theorem Meets.until {Post : (c : C) → R c → Prop} {Q : α → Prop} {p : Prog C R E α} {f : α → Prog C R E β}
    (hp : p.Meets Stay Post Q) (hmay : ∀ c a, May c (.ok a) → Post c a)
    (hok : ∀ a, Q a → (f a).Until Stay May Leave' Final') (herror : ∀ e, Final' (.error e)) :
    (p.bind f).Until Stay May Leave' Final' := by
  induction p with
  | pure a => exact hok a hp
  | throw e => exact herror e
  | call c k ih =>
    refine .inr ⟨hp.1, ?_⟩
    intro r hr
    cases r with
    | ok a => exact ih _ (hp.2.1 a (hmay c a hr))
    | error e => exact ih _ (hp.2.2 e)

/-- One command that stays. -/
theorem Until.perform {c : C} {f : R c → Prog C R E β} (hc : Stay c)
    (hok : ∀ a, May c (.ok a) → (f a).Until Stay May Leave' Final')
    (herror : ∀ e, May c (.error e) → Final' (.error e)) :
    ((Prog.perform c).bind f).Until Stay May Leave' Final' := by
  refine .inr ⟨hc, ?_⟩
  intro r hr
  cases r with
  | ok a => exact hok a hr
  | error e => exact herror e hr

end Prog

theorem getElem?_set_cases {A : Type} {l : List A} {i j : ℕ} {a b : A} (h : (l.set i a)[j]? = some b) :
    (j = i ∧ b = a) ∨ (j ≠ i ∧ l[j]? = some b) := by
  rw [List.getElem?_set] at h
  split at h
  next heq =>
    split at h
    next => exact .inl ⟨heq.symm, (Option.some.inj h).symm⟩
    next => cases h
  next hne => exact .inr ⟨Ne.symm hne, h⟩

variable {K V : Type}

namespace System
variable (sys : System C R E σ α K V)

/-- What an event does to a pool. -/
inductive Happens (p : Pool C R E σ α K) : Event E K V → Pool C R E σ α K → Prop where
  | started (κ : K) : Happens p (.start κ) ⟨p.state, p.threads ++ [(κ, sys.program κ)]⟩
  | outside (v : V) : Happens p (.env v) ⟨sys.env v p.state, p.threads⟩
  /-- The thread has ended, or there is none. -/
  | nothing {e : Event E K V} {i : ℕ} (he : e = .step i ∨ (∃ x, e = .lose i x) ∨ ∃ x, e = .refuse i x)
      (h : p.pending i = none) : Happens p e p
  | answered {i : ℕ} {κ : K} {c : C} {k : Except E (R c) → Prog C R E α}
      (h : p.threads[i]? = some (κ, .call c k)) :
      Happens p (.step i) ⟨(sys.handler c p.state).2, p.threads.set i (κ, k (sys.handler c p.state).1)⟩
  | lost {i : ℕ} {κ : K} {c : C} {k : Except E (R c) → Prog C R E α} (x : E)
      (h : p.threads[i]? = some (κ, .call c k)) :
      Happens p (.lose i x) ⟨(sys.handler c p.state).2, p.threads.set i (κ, k (.error x))⟩
  | refused {i : ℕ} {κ : K} {c : C} {k : Except E (R c) → Prog C R E α} (x : E)
      (h : p.threads[i]? = some (κ, .call c k)) :
      Happens p (.refuse i x) ⟨p.state, p.threads.set i (κ, k (.error x))⟩

theorem modify_of_getElem? {A : Type} {l : List A} {i : ℕ} {a : A} (h : l[i]? = some a) (f : A → A) :
    l.modify i f = l.set i (f a) := by
  induction l generalizing i with
  | nil => cases h
  | cons b l ih =>
    cases i with
    | zero =>
      cases h
      rfl
    | succ i => exact congrArg (b :: ·) (ih h)

theorem modify_of_fixed {A : Type} {l : List A} {i : ℕ} {f : A → A} (h : ∀ a, l[i]? = some a → f a = a) :
    l.modify i f = l := by
  induction l generalizing i with
  | nil => cases i <;> rfl
  | cons b l ih =>
    cases i with
    | zero => exact congrArg (· :: l) (h b rfl)
    | succ i => exact congrArg (b :: ·) (ih h)

/-- A thread with a command to issue, or one whose steps change nothing. -/
theorem pending_cases (p : Pool C R E σ α K) (i : ℕ) :
    (∃ κ c k, p.threads[i]? = some (κ, .call c k)) ∨
    (p.pending i = none ∧ ∀ t, p.threads[i]? = some t → (∀ s, sys.answer s t.2 = t.2) ∧ ∀ x : E, raise x t.2 = t.2) := by
  unfold Pool.pending
  cases ht : p.threads[i]? with
  | none => exact .inr ⟨rfl, fun t h => nomatch h⟩
  | some t =>
    obtain ⟨κ, q⟩ := t
    cases q with
    | pure a =>
      refine .inr ⟨rfl, ?_⟩
      intro t h
      cases h
      exact ⟨fun _ => rfl, fun _ => rfl⟩
    | throw e =>
      refine .inr ⟨rfl, ?_⟩
      intro t h
      cases h
      exact ⟨fun _ => rfl, fun _ => rfl⟩
    | call c k => exact .inl ⟨κ, c, k, rfl⟩

theorem pending_of_getElem? {p : Pool C R E σ α K} {i : ℕ} {κ : K} {c : C} {k : Except E (R c) → Prog C R E α}
    (h : p.threads[i]? = some (κ, .call c k)) : p.pending i = some (κ, c) := by
  simp [Pool.pending, h, Prog.head]

theorem happens (p : Pool C R E σ α K) (e : Event E K V) : Happens sys p e (sys.next p e) := by
  cases e with
  | start κ => exact .started κ
  | env v => exact .outside v
  | step i =>
    rcases pending_cases sys p i with ⟨κ, c, k, h⟩ | ⟨hnone, hfix⟩
    · have hnext : sys.next p (.step i) =
          ⟨(sys.handler c p.state).2, p.threads.set i (κ, k (sys.handler c p.state).1)⟩ := by
        simp only [System.next, Pool.issues, pending_of_getElem? h, execute, modify_of_getElem? h, answer]
      rw [hnext]
      exact .answered h
    · have hnext : sys.next p (.step i) = p := by
        have hsame : p.threads.modify i (fun t => (t.1, sys.answer p.state t.2)) = p.threads :=
          modify_of_fixed fun t ht => Prod.ext rfl ((hfix t ht).1 p.state)
        simp only [System.next, Pool.issues, hnone, execute, hsame]
      rw [hnext]
      exact .nothing (.inl rfl) hnone
  | lose i x =>
    rcases pending_cases sys p i with ⟨κ, c, k, h⟩ | ⟨hnone, hfix⟩
    · have hnext : sys.next p (.lose i x) = ⟨(sys.handler c p.state).2, p.threads.set i (κ, k (.error x))⟩ := by
        simp only [System.next, Pool.issues, pending_of_getElem? h, execute, modify_of_getElem? h, raise]
      rw [hnext]
      exact .lost x h
    · have hnext : sys.next p (.lose i x) = p := by
        have hsame : p.threads.modify i (fun t => (t.1, raise x t.2)) = p.threads :=
          modify_of_fixed fun t ht => Prod.ext rfl ((hfix t ht).2 x)
        simp only [System.next, Pool.issues, hnone, execute, hsame]
      rw [hnext]
      exact .nothing (.inr (.inl ⟨x, rfl⟩)) hnone
  | refuse i x =>
    rcases pending_cases sys p i with ⟨κ, c, k, h⟩ | ⟨hnone, hfix⟩
    · have hnext : sys.next p (.refuse i x) = ⟨p.state, p.threads.set i (κ, k (.error x))⟩ := by
        simp only [System.next, modify_of_getElem? h, raise]
      rw [hnext]
      exact .refused x h
    · have hnext : sys.next p (.refuse i x) = p := by
        have hsame : p.threads.modify i (fun t => (t.1, raise x t.2)) = p.threads :=
          modify_of_fixed fun t ht => Prod.ext rfl ((hfix t ht).2 x)
        simp only [System.next, hsame]
      rw [hnext]
      exact .nothing (.inr (.inr ⟨x, rfl⟩)) hnone

theorem next_step {p : Pool C R E σ α K} {i : ℕ} {κ : K} {q : Prog C R E α} (h : p.threads[i]? = some (κ, q)) :
    sys.next p (.step i) = ⟨sys.execute p.state (q.head.map (κ, ·)), p.threads.set i (κ, sys.answer p.state q)⟩ := by
  have hpending : p.pending i = q.head.map (κ, ·) := by simp [Pool.pending, h]
  simp only [System.next, Pool.issues, hpending, modify_of_getElem? h]

theorem next_step_of_none {p : Pool C R E σ α K} {i : ℕ} (h : p.threads[i]? = none) : sys.next p (.step i) = p := by
  have hthreads : p.threads.modify i (fun t => (t.1, sys.answer p.state t.2)) = p.threads :=
    modify_of_fixed fun t ht => by rw [h] at ht; cases ht
  simp only [System.next, Pool.issues, Pool.pending, h, Option.bind_none, execute, hthreads]

/-- A thread that has had a command executed went on with its answer, or with an exception in its place. -/
theorem executed_cases {p : Pool C R E σ α K} {e : Event E K V} {i : ℕ} {κ : K} {q : Prog C R E α}
    (hi : e.thread = some i) (hpending : (p.pending i).isSome) (hlater : (sys.next p e).threads[i]? = some (κ, q)) :
    ∃ c k, p.threads[i]? = some (κ, .call c k) ∧ (sys.next p e).state = (sys.handler c p.state).2 ∧
      (q = k (sys.handler c p.state).1 ∨ ∃ x, q = k (.error x)) := by
  have hhappens := happens sys p e
  revert hlater hhappens
  generalize sys.next p e = p'
  intro hlater hhappens
  have hset : ∀ {t t' : K × Prog C R E α}, p.threads[i]? = some t → (p.threads.set i t')[i]? = some (κ, q) →
      t' = (κ, q) := by
    intro t t' ht hq
    rw [List.getElem?_set_self (List.getElem?_eq_some_iff.mp ht).1] at hq
    exact Option.some.inj hq
  cases hhappens with
  | started | outside | refused => cases hi
  | nothing he hnone =>
    obtain rfl | ⟨x, rfl⟩ | ⟨x, rfl⟩ := he
    · cases hi
      rw [hnone] at hpending
      cases hpending
    · cases hi
      rw [hnone] at hpending
      cases hpending
    · cases hi
  | answered ht =>
    cases hi
    cases hset ht hlater
    exact ⟨_, _, ht, rfl, .inl rfl⟩
  | lost x ht =>
    cases hi
    cases hset ht hlater
    exact ⟨_, _, ht, rfl, .inr ⟨x, rfl⟩⟩

end System

/-- A call comes in, or a running one has its next command executed. -/
inductive Turn (K : Type) where
  | start (k : K)
  | step (i : ℕ)

def Turn.event : Turn K → Event E K Empty
  | .start k => .start k
  | .step i => .step i

/-- A pool, and which thread has had which command executed. -/
structure Watched (C : Type) (R : C → Type) (E σ α K : Type) where
  pool : Pool C R E σ α K
  log : List (ℕ × C)

/-- The entry that an event adds to the log. -/
def Pool.executed (p : Pool C R E σ α K) (e : Event E K V) : List (ℕ × C) :=
  (e.thread.bind fun i => (p.pending i).map fun kc => (i, kc.2)).toList

def System.watch (sys : System C R E σ α K V) (w : Watched C R E σ α K) (e : Event E K V) :
    Watched C R E σ α K :=
  ⟨sys.next w.pool e, w.log ++ w.pool.executed e⟩

end Interaction
