import Lingshu.Ontology.Calls
import Mathlib.Data.List.Perm.Basic

/-! # Runs of calls

Two ways of running calls from the empty stores. `Serial.next` runs each call to its end before the
next one; the system `concurrent` takes the commands of any number of running calls in any order, any
of which may fail before or after it takes effect. In both, a Redis key may expire and the graph may
change the order of its nodes and relationships, from which its queries take their records, between
any two steps. -/
namespace Lingshu.Ontology
open Json Interaction
set_option autoImplicit false

/-! ## The surroundings -/

inductive Env where
  | expire (key : RedisKey)
  | reorderNodes (i : ℕ)
  | reorderRels (i : ℕ)

/-- Exchange the entries `i` and `i + 1`. -/
def swapAt {α : Type} : ℕ → List α → List α
  | 0, a :: b :: l => b :: a :: l
  | i + 1, a :: l => a :: swapAt i l
  | _, l => l

theorem swapAt_perm {α : Type} (i : ℕ) (l : List α) : (swapAt i l).Perm l := by
  induction l generalizing i with
  | nil => cases i <;> exact List.Perm.refl _
  | cons a l ih =>
    cases i with
    | succ i => exact (ih i).cons a
    | zero =>
      cases l with
      | nil => exact List.Perm.refl _
      | cons b l => exact List.Perm.swap a b l

def Env.apply : Env → World → World
  | .expire key, w => w.setKey key none
  | .reorderNodes i, w => w.onGraph fun g => { g with nodes := swapAt i g.nodes }
  | .reorderRels i, w => w.onGraph fun g => { g with rels := swapAt i g.rels }

theorem Env.apply_nodes (v : Env) (w : World) : (v.apply w).graph.nodes.Perm w.graph.nodes := by
  cases v with
  | expire key => exact List.Perm.refl _
  | reorderNodes i => exact swapAt_perm i _
  | reorderRels i => exact List.Perm.refl _

theorem Env.apply_rels (v : Env) (w : World) : (v.apply w).graph.rels.Perm w.graph.rels := by
  cases v with
  | expire key => exact List.Perm.refl _
  | reorderNodes i => exact List.Perm.refl _
  | reorderRels i => exact swapAt_perm i _

@[simp] theorem Env.apply_nextId (v : Env) (w : World) : (v.apply w).graph.nextId = w.graph.nextId := by
  cases v <;> rfl

@[simp] theorem Env.apply_snapshots (v : Env) (w : World) : (v.apply w).snapshots = w.snapshots := by
  cases v <;> rfl

@[simp] theorem Env.apply_pointers (v : Env) (w : World) : (v.apply w).pointers = w.pointers := by
  cases v <;> rfl

/-! ## Interleaved calls -/

abbrev Calls := Pool Cmd Cmd.Answer Exc World Result Call

abbrev CallEvent := Event Exc Call Env

def concurrent : System Cmd Cmd.Answer Exc World Result Call Env where
  handler := exec
  program := service
  env := Env.apply

def noCalls : Calls := ⟨World.empty, []⟩

/-- The calls that come in. -/
def started (es : List CallEvent) : List Call :=
  es.filterMap fun e => match e with
    | .start call => some call
    | _ => none

/-- `uuid4` never returns a value twice. -/
def FreshUuids (calls : List Call) : Prop := (calls.map fun call => call.ctx.uuid).Nodup

theorem FreshUuids.eq {calls : List Call} (h : FreshUuids calls) {x y : Call} (hx : x ∈ calls)
    (hy : y ∈ calls) (hu : x.ctx.uuid = y.ctx.uuid) : x = y :=
  List.inj_on_of_nodup_map h hx hy hu

theorem started_cons_start (call : Call) (es : List CallEvent) :
    started (.start call :: es) = call :: started es := rfl

theorem stepsMeet_started {p : Calls} {es : List CallEvent} :
    StepsMeet concurrent.next (fun _ e => ∀ call, e = .start call → call ∈ started es) p es := by
  suffices h : ∀ fs : List CallEvent, (∀ call ∈ started fs, call ∈ started es) →
      ∀ p : Calls, StepsMeet concurrent.next (fun _ e => ∀ call, e = .start call → call ∈ started es) p fs
    from h es (fun _ hc => hc) p
  intro fs
  induction fs with
  | nil => intro _ p; trivial
  | cons e fs ih =>
    intro hfs p
    refine ⟨?_, ih ?_ _⟩
    · rintro call rfl
      exact hfs call (List.mem_cons_self ..)
    · intro call hcall
      cases e with
      | start k => exact hfs call (List.mem_cons_of_mem _ hcall)
      | _ => exact hfs call hcall

/-- A step executes a command, or lets the surroundings act, or leaves the stores alone. -/
theorem concurrent_step (p : Calls) (e : CallEvent) :
    (∃ call c, p.issues e = some (call, c) ∧ (concurrent.next p e).state = (exec c p.state).2) ∨
    (p.issues e = none ∧ ∃ v : Env, (concurrent.next p e).state = v.apply p.state) ∨
    (p.issues e = none ∧ (concurrent.next p e).state = p.state) := by
  have hexec : ∀ e : CallEvent, (concurrent.next p e).state = concurrent.execute p.state (p.issues e) →
      (∃ call c, p.issues e = some (call, c) ∧ (concurrent.next p e).state = (exec c p.state).2) ∨
      (p.issues e = none ∧ (concurrent.next p e).state = p.state) := by
    intro e he
    rw [he]
    cases h : p.issues e with
    | none => exact .inr ⟨rfl, rfl⟩
    | some kc => exact .inl ⟨kc.1, kc.2, rfl, rfl⟩
  cases e with
  | env v => exact .inr (.inl ⟨rfl, v, rfl⟩)
  | start | step | lose | refuse => exact (hexec _ rfl).imp_right .inr

theorem concurrent_nodes_idle {p : Calls} {e : CallEvent} (h : p.issues e = none) (n : Node) :
    n ∈ (concurrent.next p e).state.graph.nodes ↔ n ∈ p.state.graph.nodes := by
  obtain ⟨call, c, he, _⟩ | ⟨_, v, hs⟩ | ⟨_, hs⟩ := concurrent_step p e
  · rw [h] at he
    cases he
  · rw [hs]
    exact (v.apply_nodes p.state).mem_iff
  · rw [hs]

theorem concurrent_nodes_issued {p : Calls} {e : CallEvent} {call : Call} {c : Cmd}
    (h : p.issues e = some (call, c)) :
    (concurrent.next p e).state.graph.nodes = (c.effect p.state.graph).on p.state.graph.nodes := by
  obtain ⟨call', c', he, hs⟩ | ⟨he, _⟩ | ⟨he, _⟩ := concurrent_step p e
  · rw [h] at he
    cases he
    rw [hs, exec_nodes]
  · rw [h] at he
    cases he
  · rw [h] at he
    cases he

/-- One call after the other, each with time for 30 commands. -/
def inTurn (calls : List Call) : List CallEvent :=
  calls.zipIdx.flatMap fun e => .start e.1 :: List.replicate 30 (.step e.2)

/-- What a call in `calls` may send. -/
def IssuesOf (calls : List Call) (G : Node → Prop) (call : Call) (c : Cmd) : Prop :=
  call ∈ calls ∧ Issues G call c

theorem meets_service {calls : List Call} {G : Node → Prop} {call : Call} (h : call ∈ calls) :
    (service call).Meets (IssuesOf calls G call) (Answers G) (fun _ => True) :=
  (keepsTo_service G call).mono (fun _ hc => ⟨h, hc⟩) (fun _ _ ha => ha) fun _ _ => trivial

/-- A property of stores that is kept by the commands in the calls' contracts, given that all nodes are in `G`. -/
theorem calls_hold {calls : List Call} {Pre : Call → Cmd → Prop} {G : Node → Prop} {J : World → Prop} {p : Calls}
    {es : List CallEvent} (hmeets : ∀ call ∈ calls, (service call).Meets (Pre call) (Answers G) fun _ => True)
    (hG : ∀ w, J w → ∀ n ∈ w.graph.nodes, G n) (hcmd : ∀ call c w, Pre call c → J w → J (exec c w).2)
    (henv : ∀ (v : Env) w, J w → J (v.apply w))
    (hcalls : StepsMeet concurrent.next (fun _ e => ∀ call, e = .start call → call ∈ calls) p es)
    (hp : System.Holds Pre (Answers G) J p) : System.Holds Pre (Answers G) J (runFrom concurrent.next p es) := by
  refine steps_inv (fun q e hq hstart => ?_) hp hcalls
  refine hq.next (D := fun _ _ => True) ?_ henv ?_ (fun _ _ _ => trivial)
  · rintro call rfl
    exact hmeets call (hstart call rfl)
  · intro call c w hw hc _
    exact ⟨hcmd call c w hc hw, exec_answers (hG w hw) c⟩

/-- A property of stores that every command of the calls keeps, given that all nodes are in `G`,
holds all along an interleaving. -/
theorem concurrent_holds {es : List CallEvent} {G : Node → Prop} {J : World → Prop}
    (hG : ∀ w, J w → ∀ n ∈ w.graph.nodes, G n)
    (hcmd : ∀ call ∈ started es, ∀ c w, Issues G call c → J w → J (exec c w).2)
    (henv : ∀ (v : Env) w, J w → J (v.apply w)) (h0 : J World.empty) :
    System.Holds (IssuesOf (started es) G) (Answers G) J (runFrom concurrent.next noCalls es) := by
  refine calls_hold (fun _ hcall => meets_service hcall) hG ?_ henv stepsMeet_started ⟨h0, fun t ht => nomatch ht⟩
  intro call c w hc hw
  exact hcmd call hc.1 c w hc.2 hw

/-- The same for a property of nodes, from what the commands do to the nodes. -/
theorem concurrent_nodes {es : List CallEvent} {G : Node → Prop}
    (h : ∀ call ∈ started es, ∀ (c : Cmd) (g : Graph), Issues G call c → (c.effect g).Keeps G) :
    ∀ n ∈ (runFrom concurrent.next noCalls es).state.graph.nodes, G n := by
  refine (concurrent_holds (J := fun w => ∀ n ∈ w.graph.nodes, G n) (fun _ hw => hw) ?_ ?_ ?_).inv
  · intro call hcall c w hc hw
    rw [exec_nodes]
    exact (h call hcall c w.graph hc).mem hw
  · intro v w hw n hn
    exact hw n ((v.apply_nodes w).mem_iff.mp hn)
  · intro n hn
    cases hn

/-- When `Cond` is exactly what a command needs to keep `J`, then `J` holds all along an interleaving
exactly when every step meets `Cond`. -/
theorem concurrent_inv_iff {es : List CallEvent} {J : World → Prop} {Cond : Calls → CallEvent → Prop}
    (h0 : J World.empty) (henv : ∀ (v : Env) w, J w → J (v.apply w))
    (hcmd : ∀ p e call c, call ∈ started es → Issues (fun _ => True) call c →
      p.issues e = some (call, c) → J p.state → (J (exec c p.state).2 ↔ Cond p e))
    (hidle : ∀ (p : Calls) (e : CallEvent), p.issues e = none → Cond p e) :
    (∀ fs, fs <+: es → J (runFrom concurrent.next noCalls fs).state) ↔
      StepsMeet concurrent.next Cond noCalls es := by
  let K : Calls → Prop := fun p => System.Holds (IssuesOf (started es) fun _ => True)
    (Answers fun _ => True) (fun _ => True) p
  have hK0 : K noCalls := ⟨trivial, fun t ht => nomatch ht⟩
  refine steps_inv_iff (J := fun p => J p.state) (K := K) ?_ ?_ hK0 h0 stepsMeet_started
  · intro p e hK hJ _
    obtain ⟨call, c, he, hs⟩ | ⟨he, v, hs⟩ | ⟨he, hs⟩ := concurrent_step p e
    · obtain ⟨hcall, hc⟩ := System.issues_pre hK.meets he
      rw [hs]
      exact hcmd p e call c hcall hc he hJ
    · rw [hs]
      exact iff_of_true (henv v _ hJ) (hidle p e he)
    · rw [hs]
      exact iff_of_true hJ (hidle p e he)
  · intro p e hK _ hP _
    refine hK.next (D := fun _ _ => True) ?_ (fun _ _ _ => trivial) ?_ (fun _ _ _ => trivial)
    · rintro call rfl
      exact meets_service (hP call rfl)
    · intro call c w _ _ _
      exact ⟨trivial, exec_answers (fun _ _ => trivial) c⟩

/-! ## One call at a time -/

/-- The stores between two calls, and the calls made so far, the last one first. -/
structure Serial where
  world : World
  calls : List Call

inductive SerialEvent where
  | call (call : Call)
  | env (v : Env)

/-- The stores after a call that runs alone. -/
def after (call : Call) (w : World) : World := ((service call).run exec w).2

def Serial.next (s : Serial) : SerialEvent → Serial
  | .call call => ⟨after call s.world, call :: s.calls⟩
  | .env v => { s with world := v.apply s.world }

def Serial.empty : Serial := ⟨World.empty, []⟩

/-- A call is made with a request the routes admit and a new uuid. -/
def Serial.Admits (s : Serial) (e : SerialEvent) : Prop :=
  ∀ call, e = .call call → call.op.Admitted ∧ ∀ earlier ∈ s.calls, earlier.ctx.uuid ≠ call.ctx.uuid

instance Serial.Admits.decidable (s : Serial) : ∀ e : SerialEvent, Decidable (s.Admits e)
  | .env _ => isTrue fun _ h => (nomatch h)
  | .call call =>
    decidable_of_iff (call.op.Admitted ∧ ∀ earlier ∈ s.calls, earlier.ctx.uuid ≠ call.ctx.uuid)
      ⟨fun h _ he => SerialEvent.call.inj he ▸ h, fun h => h call rfl⟩

/-- A property of stores that every command of the call keeps holds when the call has run alone. -/
theorem after_inv {G : Node → Prop} {J : World → Prop} {call : Call} {w : World}
    (hG : ∀ w, J w → ∀ n ∈ w.graph.nodes, G n)
    (hcmd : ∀ c w, Issues G call c → J w → J (exec c w).2) (hw : J w) : J (after call w) :=
  ((keepsTo_service G call).run
    (fun c w hw hc _ => ⟨hcmd c w hc hw, exec_answers (hG w hw) c⟩) hw).1

/-! ## Serial runs are interleavings -/

/-- The calls of a serial run. -/
def SerialEvent.made : SerialEvent → Option Call
  | .call made => some made
  | .env _ => none

theorem started_replicate (n i : ℕ) : started (List.replicate n (.step i)) = [] := by
  induction n with
  | zero => rfl
  | succ n ih => exact ih

theorem started_append (es fs : List CallEvent) : started (es ++ fs) = started es ++ started fs :=
  List.filterMap_append ..

theorem started_of_initial {es fs : List CallEvent} (h : fs <+: es) {call : Call} (hcall : call ∈ started fs) :
    call ∈ started es := by
  obtain ⟨gs, rfl⟩ := h
  rw [started_append]
  exact List.mem_append_left _ hcall

/-- Calls made one after the other are one of the ways of interleaving them. -/
theorem serial_concurrent (es : List SerialEvent) (p : Calls) (calls : List Call) :
    ∃ fs, (runFrom concurrent.next p fs).state = (runFrom Serial.next ⟨p.state, calls⟩ es).world ∧
      started fs = es.filterMap SerialEvent.made := by
  induction es generalizing p calls with
  | nil => exact ⟨[], rfl, rfl⟩
  | cons e es ih =>
    cases e with
    | env v =>
      obtain ⟨fs, hstate, hstarted⟩ := ih (concurrent.next p (.env v)) calls
      exact ⟨.env v :: fs, hstate, hstarted⟩
    | call call =>
      obtain ⟨n, q, halone⟩ := System.run_alone concurrent p.state p.threads call (service call)
      obtain ⟨fs, hstate, hstarted⟩ := ih ⟨after call p.state, p.threads ++ [(call, q)]⟩ (call :: calls)
      refine ⟨.start call :: (List.replicate n (.step p.threads.length) ++ fs), ?_, ?_⟩
      · rw [runFrom_cons, runFrom_append]
        have hstart : concurrent.next p (.start call) = ⟨p.state, p.threads ++ [(call, service call)]⟩ := rfl
        rw [hstart, halone]
        exact hstate
      · rw [started_cons_start, started_append, started_replicate, List.nil_append, hstarted]
        rfl

end Lingshu.Ontology
