import Lingshu.Interaction.Until
import Lingshu.Ontology.Runs

/-! # Edit locks

The five calls that write the lock of an entity, in any order and from any stores. Who owns the lock is read in one
command and used in a later one; a submit or a discard removes the lock without reading it. -/
namespace Lingshu.Ontology
open Json Interaction
set_option autoImplicit false

/-! ## The commands that rely on the lock -/

/-- The entity whose lock a call writes. -/
def Op.lockRid : Op → Option String
  | .acquireLock rid | .releaseLock rid | .refreshLock rid => some rid
  | .submitToStaging _ rid | .discardDraft _ rid => some rid
  | _ => none

/-- The calls that tell their user that the lock is his. -/
def Op.takesLock : Op → Bool
  | .acquireLock _ | .refreshLock _ => true
  | _ => false

/-- The entity whose lock a call removes, with this command or after the update that it is. -/
def Cmd.removes : Cmd → Option String
  | .redisDelete (.lock rid) => some rid
  | .updateNode _ rid _ _ _ _ => some rid
  | _ => none

/-- The entity whose lock a call has read to be its user's, and is about to tell him of. -/
def Cmd.confirms : Cmd → Option String
  | .redisExpire (.lock rid) => some rid
  | .redisTtl (.lock rid) => some rid
  | _ => none

/-- The next command of a call is to remove the lock. -/
def Cmd.Removes (rid : String) (next : Option Cmd) : Prop := next.bind Cmd.removes = some rid

def Cmd.Confirms (rid : String) (next : Option Cmd) : Prop := next.bind Cmd.confirms = some rid

instance Cmd.Removes.decidable (rid : String) (next : Option Cmd) : Decidable (Cmd.Removes rid next) :=
  inferInstanceAs (Decidable (next.bind Cmd.removes = some rid))

instance Cmd.Confirms.decidable (rid : String) (next : Option Cmd) : Decidable (Cmd.Confirms rid next) :=
  inferInstanceAs (Decidable (next.bind Cmd.confirms = some rid))

/-! ## The discipline -/

/-- The entity whose lock a command takes. -/
def Cmd.taken (w : World) : Cmd → Option String
  | .redisSetNx (.lock rid) _ => if w.redis (.lock rid) = none then some rid else none
  | _ => none

/-- The entity whose lock a command removes. -/
def Cmd.freed : Cmd → Option String
  | .redisDelete (.lock rid) => some rid
  | _ => none

/-- The entity of which a submit or a discard finds its user's Draft. -/
def Cmd.draftFound (w : World) : Cmd → Option String
  | .getDraftNode label rid tenantId userId =>
    if (w.graph.getDraftNode label rid tenantId userId).isSome then some rid else none
  | .deleteNode label rid tenantId isDraft isStaging draftOwner =>
    if 0 < w.graph.count (Graph.filterOf label rid tenantId isDraft isStaging draftOwner) then some rid else none
  | _ => none

/-- The lock that an event takes, and the user it takes it for. -/
def takes (p : Calls) (e : CallEvent) : Option (String × String) :=
  (p.issues e).bind fun kc => (kc.2.taken p.state).map fun rid => (rid, kc.1.ctx.userId)

/-- The lock that an event removes. -/
def frees (p : Calls) : CallEvent → Option String
  | .env (.expire (.lock rid)) => some rid
  | e => (p.issues e).bind fun kc => kc.2.freed

/-- The entity of which an event finds a Draft that is to leave its user, and the user. -/
def findsDraft (p : Calls) : CallEvent → Option (String × String)
  | .step i => (p.pending i).bind fun kc => (kc.2.draftFound p.state).map fun rid => (rid, kc.1.ctx.userId)
  | _ => none

/-- No user takes a lock that a call of another user is about to remove; no lock goes while a call is about to tell its
user that it is his; and no Draft is submitted or discarded while another user holds the lock. -/
def LocksRespected (p : Calls) (e : CallEvent) : Prop :=
  (∀ x ∈ takes p e, ∀ t ∈ p.threads, Cmd.Removes x.1 t.2.head → t.1.ctx.userId = x.2) ∧
  (∀ rid ∈ frees p e, ∀ t ∈ p.threads, ¬ Cmd.Confirms rid t.2.head) ∧
  ∀ x ∈ findsDraft p e, ∀ owner ∈ p.state.redis (.lock x.1), owner = x.2

instance LocksRespected.decidable (p : Calls) (e : CallEvent) : Decidable (LocksRespected p e) :=
  inferInstanceAs (Decidable ((∀ x ∈ takes p e, ∀ t ∈ p.threads, Cmd.Removes x.1 t.2.head → t.1.ctx.userId = x.2) ∧
    (∀ rid ∈ frees p e, ∀ t ∈ p.threads, ¬ Cmd.Confirms rid t.2.head) ∧
    ∀ x ∈ findsDraft p e, ∀ owner ∈ p.state.redis (.lock x.1), owner = x.2))

/-! ## The guarantee -/

/-- The thread of the event has just returned. -/
def Returns (p : Calls) (e : CallEvent) (call : Call) (r : Result) : Prop :=
  ∃ i, e.thread = some i ∧ (p.pending i).isSome ∧ (concurrent.next p e).threads[i]? = some (call, .pure r)

/-- No call removes or extends the lock of another user, and an acquire or refresh that returns leaves its user the
lock. -/
structure LocksSafe (p : Calls) (e : CallEvent) : Prop where
  own : ∀ call c rid, p.issues e = some (call, c) → c = .redisDelete (.lock rid) ∨ c = .redisExpire (.lock rid) →
    ∀ owner ∈ p.state.redis (.lock rid), owner = call.ctx.userId
  held : ∀ call r rid, Returns p e call r → call.op.takesLock → call.op.lockRid = some rid →
    (concurrent.next p e).state.redis (.lock rid) = some call.ctx.userId

/-! ## What the programs do with the lock -/

section Programs
variable (userId rid : String)

/-- A command on edit locks is about the lock of the entity, and takes it for the user. -/
def Cmd.Fits : Cmd → Prop
  | .redisSetNx (.lock r) v => r = rid ∧ v = userId
  | .redisDelete (.lock r) | .redisExpire (.lock r) | .redisTtl (.lock r) => r = rid
  | .updateNode _ r _ _ _ _ => r = rid
  | _ => True

/-- Why a call whose command `c` was answered `b` may go on to the command `next`. -/
inductive Grounds : (c : Cmd) → c.Answer → Option Cmd → Prop where
  | plain {c : Cmd} {b : c.Answer} {next : Option Cmd} (h : ∀ r, ¬ Cmd.Removes r next) (h' : ∀ r, ¬ Cmd.Confirms r next) :
      Grounds c b next
  | owner {next : Option Cmd} : Grounds (.redisGet (.lock rid)) (some userId) next
  | confirmed {c : Cmd} {b : c.Answer} {next : Option Cmd} (h : Cmd.Confirms rid (some c)) : Grounds c b next
  | removing {c : Cmd} {b : c.Answer} {next : Option Cmd} (h : Cmd.Removes rid (some c))
      (h' : ∀ r, ¬ Cmd.Confirms r next) : Grounds c b next
  | draft {label : Label} {tenantId owner : String} {n : Node} {next : Option Cmd} (h : ∀ r, ¬ Cmd.Confirms r next) :
      Grounds (.getDraftNode label rid tenantId owner) (some n) next
  | deleted {label : Label} {tenantId : String} {isDraft isStaging : Option Bool} {owner : Option String}
      {next : Option Cmd} (h : ∀ r, ¬ Cmd.Confirms r next) :
      Grounds (.deleteNode label rid tenantId isDraft isStaging owner) true next

/-- Why a call may return that the lock is its user's: it has just taken it, or has confirmed it. -/
inductive Reports : (c : Cmd) → c.Answer → Prop where
  | taken {v : String} : Reports (.redisSetNx (.lock rid) v) true
  | confirmed {c : Cmd} {b : c.Answer} (h : Cmd.Confirms rid (some c)) : Reports c b

end Programs

/-- The commands of a call are about its lock, each has its grounds, and an exception ends the call. -/
def Careful (call : Call) (rid : String) : Program Result → Prop
  | .pure _ | .throw _ => True
  | .call c k => c.Fits call.ctx.userId rid ∧ (∀ x, k (.error x) = .throw x) ∧
      ∀ b, Grounds call.ctx.userId rid c b (k (.ok b)).head ∧ Careful call rid (k (.ok b)) ∧
        ∀ r, k (.ok b) = .pure r → call.op.takesLock → Reports rid c b

/-- Nothing is relied on by a program that has ended. -/
theorem Grounds.ended {userId rid : String} {c : Cmd} {b : c.Answer} : Grounds userId rid c b none :=
  .plain (fun _ h => nomatch h) fun _ h => nomatch h

section Careful
variable {call : Call} {rid : String}

theorem Careful.ended {q : Program Result} (h : q.head = none) : Careful call rid q := by
  cases q with
  | pure | throw => trivial
  | call => cases h

/-- Reading the owner, and going on with the lock only if it is the user. -/
theorem Careful.testOwner (call : Call) (rid : String) {A : Type} {a : Program A} {b : Option String → Program A}
    {g : A → Program Result} (howner : Careful call rid (a.bind g)) (hother : ∀ owner, ((b owner).bind g).head = none)
    (hreturn : call.op.takesLock → ∀ r, a.bind g ≠ .pure r ∧ ∀ owner, (b owner).bind g ≠ .pure r) :
    Careful call rid ((redisGet (.lock rid)).bind fun owner =>
      (if owner = some call.ctx.userId then a else b owner).bind g) := by
  refine ⟨trivial, fun _ => rfl, fun (owner : Option String) => ?_⟩
  by_cases h : owner = some call.ctx.userId
  · have hgoes : (if owner = some call.ctx.userId then a else b owner).bind g = a.bind g := by rw [if_pos h]
    change Grounds _ rid (.redisGet (.lock rid)) owner
        ((if owner = some call.ctx.userId then a else b owner).bind g).head ∧
      Careful call rid ((if owner = some call.ctx.userId then a else b owner).bind g) ∧ _
    rw [hgoes]
    subst h
    exact ⟨.owner, howner, fun r hr ht => absurd (hgoes.symm.trans hr) (hreturn ht r).1⟩
  · have hgoes : (if owner = some call.ctx.userId then a else b owner).bind g = (b owner).bind g := by rw [if_neg h]
    change Grounds _ rid (.redisGet (.lock rid)) owner
        ((if owner = some call.ctx.userId then a else b owner).bind g).head ∧
      Careful call rid ((if owner = some call.ctx.userId then a else b owner).bind g) ∧ _
    rw [hgoes, hother]
    exact ⟨.ended, Careful.ended (hother owner), fun r hr ht =>
      absurd (hgoes.symm.trans hr) ((hreturn ht r).2 owner)⟩

theorem careful_acquireLock (ctx : Ctx) (rid : String) :
    Careful ⟨ctx, .acquireLock rid⟩ rid (service ⟨ctx, .acquireLock rid⟩) := by
  refine ⟨⟨rfl, rfl⟩, fun _ => rfl, fun acquired => ?_⟩
  cases acquired with
  | true => exact ⟨.ended, trivial, fun _ _ _ => .taken⟩
  | false =>
    refine ⟨.plain (fun _ h => nomatch h) (fun _ h => nomatch h), ?_, fun _ h => nomatch h⟩
    refine Careful.testOwner ⟨ctx, .acquireLock rid⟩ rid ?_ ?_ ?_
    · exact ⟨rfl, fun _ => rfl, fun _ => ⟨.ended, trivial, fun _ _ _ => .confirmed rfl⟩⟩
    · exact fun _ => rfl
    · exact fun _ r => ⟨fun hr => (nomatch hr), fun _ hr => nomatch hr⟩

theorem careful_refreshLock (ctx : Ctx) (rid : String) :
    Careful ⟨ctx, .refreshLock rid⟩ rid (service ⟨ctx, .refreshLock rid⟩) := by
  refine Careful.testOwner ⟨ctx, .refreshLock rid⟩ rid ?_ (fun _ => rfl) ?_
  · refine ⟨rfl, fun _ => rfl, fun _ => ⟨.confirmed rfl, ?_, fun _ h => nomatch h⟩⟩
    exact ⟨rfl, fun _ => rfl, fun _ => ⟨.ended, trivial, fun _ _ _ => .confirmed rfl⟩⟩
  · exact fun _ r => ⟨fun hr => (nomatch hr), fun _ hr => nomatch hr⟩

theorem careful_releaseLock (ctx : Ctx) (rid : String) :
    Careful ⟨ctx, .releaseLock rid⟩ rid (service ⟨ctx, .releaseLock rid⟩) := by
  refine Careful.testOwner ⟨ctx, .releaseLock rid⟩ rid ?_ (fun _ => rfl) ?_
  · exact ⟨rfl, fun _ => rfl, fun _ => ⟨.ended, trivial, fun _ _ h => nomatch h⟩⟩
  · exact fun h => nomatch h

theorem careful_submitToStaging (ctx : Ctx) (label : Label) (rid : String) :
    Careful ⟨ctx, .submitToStaging label rid⟩ rid (service ⟨ctx, .submitToStaging label rid⟩) := by
  refine ⟨trivial, fun _ => rfl, fun draft => ?_⟩
  cases draft with
  | none => exact ⟨.ended, trivial, fun _ h => nomatch h⟩
  | some draft =>
    refine ⟨.draft (fun _ h => nomatch h), ⟨rfl, fun _ => rfl, fun updated => ?_⟩, fun _ h => nomatch h⟩
    cases updated with
    | none => exact ⟨.ended, trivial, fun _ h => nomatch h⟩
    | some node =>
      refine ⟨.removing rfl (fun _ h => nomatch h), ⟨rfl, fun _ => rfl, fun _ => ?_⟩, fun _ h => nomatch h⟩
      exact ⟨.ended, trivial, fun _ _ h => nomatch h⟩

theorem careful_discardDraft (ctx : Ctx) (label : Label) (rid : String) :
    Careful ⟨ctx, .discardDraft label rid⟩ rid (service ⟨ctx, .discardDraft label rid⟩) := by
  refine ⟨trivial, fun _ => rfl, fun deleted => ?_⟩
  cases deleted with
  | false => exact ⟨.ended, trivial, fun _ h => nomatch h⟩
  | true =>
    refine ⟨.deleted (fun _ h => nomatch h), ⟨rfl, fun _ => rfl, fun _ => ?_⟩, fun _ h => nomatch h⟩
    exact ⟨.ended, trivial, fun _ _ h => nomatch h⟩

/-- Each of the five calls is careful. -/
theorem careful_service (h : call.op.lockRid = some rid) : Careful call rid (service call) := by
  obtain ⟨ctx, op⟩ := call
  cases op with
  | acquireLock =>
    cases h
    exact careful_acquireLock ctx rid
  | releaseLock =>
    cases h
    exact careful_releaseLock ctx rid
  | refreshLock =>
    cases h
    exact careful_refreshLock ctx rid
  | submitToStaging label =>
    cases h
    exact careful_submitToStaging ctx label rid
  | discardDraft label =>
    cases h
    exact careful_discardDraft ctx label rid
  | _ => cases h

end Careful

/-! ## One step -/

section Step
variable {w : World} {c : Cmd} {p : Calls} {call : Call}

theorem PgWrite.apply_redis (row : PgWrite) (w : World) : (row.apply w).redis = w.redis := by
  cases row <;> rfl

theorem foldl_apply_redis (rows : List PgWrite) (w : World) : (rows.foldl PgWrite.apply w).redis = w.redis := by
  induction rows generalizing w with
  | nil => rfl
  | cons row rows ih => exact (ih _).trans (row.apply_redis w)

/-- What a command does to the lock of an entity. -/
theorem exec_lock (c : Cmd) (w : World) (rid : String) :
    (exec c w).2.redis (.lock rid) = w.redis (.lock rid) ∨
    (∃ v, c = .redisSetNx (.lock rid) v ∧ w.redis (.lock rid) = none ∧ (exec c w).2.redis (.lock rid) = some v) ∨
    (c = .redisDelete (.lock rid) ∧ (exec c w).2.redis (.lock rid) = none) := by
  cases c with
  | redisSetNx key value =>
    cases hkey : w.redis key with
    | some _ => exact .inl (by simp only [exec, hkey])
    | none =>
      by_cases hr : key = .lock rid
      · subst hr
        exact .inr (.inl ⟨value, rfl, hkey, by simp only [exec, hkey, World.setKey, Function.update_self]⟩)
      · refine .inl ?_
        simp only [exec, hkey, World.setKey]
        exact Function.update_of_ne (fun h => hr h.symm) _ _
  | redisDelete key =>
    by_cases hr : key = .lock rid
    · subst hr
      exact .inr (.inr ⟨rfl, Function.update_self _ _ _⟩)
    · exact .inl (Function.update_of_ne (fun h => hr h.symm) _ _)
  | createNode | updateNode | pgFlush =>
    simp only [exec]
    split <;> exact .inl rfl
  | pgCommit rows =>
    simp only [exec]
    split
    · exact .inl rfl
    · exact .inl (congrFun (foldl_apply_redis rows w) _)
  | _ => exact .inl rfl

theorem env_lock (v : Env) (w : World) (rid : String) :
    (v.apply w).redis (.lock rid) = w.redis (.lock rid) ∨
    (v = .expire (.lock rid) ∧ (v.apply w).redis (.lock rid) = none) := by
  cases v with
  | expire key =>
    by_cases hr : key = .lock rid
    · subst hr
      exact .inr ⟨rfl, Function.update_self _ _ _⟩
    · exact .inl (Function.update_of_ne (fun h => hr h.symm) _ _)
  | reorderNodes | reorderRels => exact .inl rfl

/-- What is about to happen to a lock is its user's business. -/
def Relied (w : World) (call : Call) (head : Option Cmd) : Prop :=
  ∀ rid, (Cmd.Removes rid head → ∀ owner ∈ w.redis (.lock rid), owner = call.ctx.userId) ∧
    (Cmd.Confirms rid head → w.redis (.lock rid) = some call.ctx.userId)

theorem Relied.ended : Relied w call none := fun _ => ⟨fun h => (nomatch h), fun h => nomatch h⟩

/-- Every call is careful, and nobody else holds a lock that a call relies on. -/
structure Guarded (p : Calls) : Prop where
  careful : ∀ t ∈ p.threads, ∃ rid, t.1.op.lockRid = some rid ∧ Careful t.1 rid t.2
  relied : ∀ t ∈ p.threads, Relied p.state t.1 t.2.head

/-- A careful call relies on its own lock only. -/
theorem Careful.own {rid r : String} {q : Program Result} (h : Careful call rid q)
    (hr : Cmd.Removes r q.head ∨ Cmd.Confirms r q.head) : r = rid := by
  cases q with
  | pure | throw =>
    rcases hr with hr | hr
    · cases hr
    · cases hr
  | call c k =>
    have hfits := h.1
    change c.removes = some r ∨ c.confirms = some r at hr
    cases c with
    | redisDelete key =>
      cases key with
      | lock =>
        rcases hr with hr | hr
        · cases hr
          exact hfits
        · cases hr
      | commitLock => rcases hr with hr | hr <;> cases hr
    | redisExpire key | redisTtl key =>
      cases key with
      | lock =>
        rcases hr with hr | hr
        · cases hr
        · cases hr
          exact hfits
      | commitLock => rcases hr with hr | hr <;> cases hr
    | updateNode =>
      rcases hr with hr | hr
      · cases hr
        exact hfits
      · cases hr
    | _ => rcases hr with hr | hr <;> cases hr

variable {e : CallEvent} {i : ℕ} {k : Except Exc c.Answer → Program Result}

/-- Executing a command of one call spares the locks that the calls rely on. -/
theorem relied_exec (h : Guarded p) (hr : LocksRespected p e) (hi : p.threads[i]? = some (call, .call c k))
    (he : p.issues e = some (call, c)) {t : Call × Program Result} (ht : t ∈ p.threads) :
    Relied (exec c p.state).2 t.1 t.2.head := by
  intro rid
  obtain ⟨hremoves, hconfirms⟩ := h.relied t ht rid
  obtain ⟨own, _, hcareful⟩ := h.careful _ (List.mem_of_getElem? hi)
  rcases exec_lock c p.state rid with hsame | ⟨v, rfl, hnone, hset⟩ | ⟨rfl, hgone⟩
  · rw [hsame]
    exact ⟨hremoves, hconfirms⟩
  · have hv : v = call.ctx.userId := hcareful.1.2
    have htaken : takes p e = some (rid, call.ctx.userId) := by
      simp only [takes, he, Option.bind_some, Cmd.taken, hnone, if_true, Option.map_some]
    refine ⟨fun hrem owner howner => ?_, fun hcon => ?_⟩
    · rw [hset, hv] at howner
      obtain rfl := Option.some.inj howner
      exact (hr.1 _ htaken t ht hrem).symm
    · rw [hconfirms hcon] at hnone
      cases hnone
  · have hfreed : frees p e = some rid := by
      cases e with
      | env v => cases he
      | start | step | lose | refuse => simp only [frees, he, Option.bind_some, Cmd.freed]
    refine ⟨fun _ owner howner => ?_, fun hcon => absurd hcon (hr.2.1 rid hfreed t ht)⟩
    rw [hgone] at howner
    cases howner

/-- So does an expiry. -/
theorem relied_env (h : Guarded p) {v : Env} (hr : LocksRespected p (.env v)) {t : Call × Program Result}
    (ht : t ∈ p.threads) : Relied (v.apply p.state) t.1 t.2.head := by
  intro rid
  obtain ⟨hremoves, hconfirms⟩ := h.relied t ht rid
  rcases env_lock v p.state rid with hsame | ⟨rfl, hgone⟩
  · rw [hsame]
    exact ⟨hremoves, hconfirms⟩
  · refine ⟨fun _ owner howner => ?_, fun hcon => absurd hcon (hr.2.1 rid rfl t ht)⟩
    rw [hgone] at howner
    cases howner

/-- A call that may rely on one lock only. -/
theorem Relied.of_owner {rid : String} {next : Option Cmd}
    (hown : ∀ r, Cmd.Removes r next ∨ Cmd.Confirms r next → r = rid) (h : w.redis (.lock rid) = some call.ctx.userId) :
    Relied w call next := by
  intro r
  constructor
  · intro hrem owner howner
    rw [hown r (.inl hrem), h] at howner
    exact (Option.some.inj howner).symm
  · intro hcon
    rw [hown r (.inr hcon), h]

theorem Relied.of_removes {rid : String} {next : Option Cmd} (hown : ∀ r, Cmd.Removes r next ∨ Cmd.Confirms r next → r = rid)
    (hcon : ∀ r, ¬ Cmd.Confirms r next) (h : ∀ owner ∈ w.redis (.lock rid), owner = call.ctx.userId) :
    Relied w call next := by
  intro r
  refine ⟨fun hrem => ?_, fun hc => absurd hc (hcon r)⟩
  rw [hown r (.inl hrem)]
  exact h

/-- A call that goes on relies on its own lock, and has its grounds to. -/
theorem relied_answered (h : Guarded p) (hr : LocksRespected p (.step i))
    (hi : p.threads[i]? = some (call, .call c k)) {b : c.Answer} (hb : (exec c p.state).1 = .ok b) :
    Relied (exec c p.state).2 call (k (.ok b)).head := by
  have hthread := List.mem_of_getElem? hi
  obtain ⟨rid, _, hcareful⟩ := h.careful _ hthread
  obtain ⟨hgrounds, hnext, _⟩ := hcareful.2.2 b
  have hrelied : Relied p.state call (some c) := h.relied _ hthread
  have hpending : p.pending i = some (call, c) := System.pending_of_getElem? hi
  have hown : ∀ r, Cmd.Removes r (k (.ok b)).head ∨ Cmd.Confirms r (k (.ok b)).head → r = rid := fun r => hnext.own
  generalize (k (.ok b)).head = next at hgrounds hown
  cases hgrounds with
  | plain hrem hcon => exact fun r => ⟨fun hr => absurd hr (hrem r), fun hc => absurd hc (hcon r)⟩
  | owner => exact .of_owner hown (Except.ok.inj hb)
  | confirmed hcon =>
    refine .of_owner hown ?_
    rcases exec_lock c p.state rid with hsame | ⟨v, rfl, _⟩ | ⟨rfl, _⟩
    · rw [hsame]
      exact (hrelied rid).2 hcon
    · cases hcon
    · cases hcon
  | removing hrem hcon =>
    refine .of_removes hown hcon ?_
    rcases exec_lock c p.state rid with hsame | ⟨v, rfl, _⟩ | ⟨rfl, hgone⟩
    · rw [hsame]
      exact (hrelied rid).1 hrem
    · cases hrem
    · intro owner howner
      rw [hgone] at howner
      cases howner
  | @draft label tenantId owner n _ hcon =>
    have hdraft : p.state.graph.getDraftNode label rid tenantId owner = some n := Except.ok.inj hb
    have hfinds : findsDraft p (.step i) = some (rid, call.ctx.userId) := by
      simp only [findsDraft, hpending, Option.bind_some, Cmd.draftFound, hdraft, Option.isSome_some, if_true, Option.map_some]
    exact .of_removes hown hcon (hr.2.2 _ hfinds)
  | @deleted label tenantId isDraft isStaging owner _ hcon =>
    have hcount : 0 < p.state.graph.count (Graph.filterOf label rid tenantId isDraft isStaging owner) :=
      of_decide_eq_true (Except.ok.inj hb)
    have hfinds : findsDraft p (.step i) = some (rid, call.ctx.userId) := by
      simp only [findsDraft, hpending, Option.bind_some, Cmd.draftFound, hcount, if_true, Option.map_some]
    exact .of_removes hown hcon (hr.2.2 _ hfinds)

/-- Replacing the program of one call. -/
theorem Guarded.set (h : Guarded p) (hi : p.threads[i]? = some (call, .call c k)) {q : Program Result}
    (hstate : ∀ t ∈ p.threads, Relied w t.1 t.2.head) (hcareful : ∀ rid, Careful call rid (.call c k) → Careful call rid q)
    (hrelied : Relied w call q.head) : Guarded ⟨w, p.threads.set i (call, q)⟩ where
  careful := by
    intro t ht
    rcases List.mem_or_eq_of_mem_set ht with ht | rfl
    · exact h.careful t ht
    · obtain ⟨rid, hrid, hc⟩ := h.careful _ (List.mem_of_getElem? hi)
      exact ⟨rid, hrid, hcareful rid hc⟩
  relied := by
    intro t ht
    rcases List.mem_or_eq_of_mem_set ht with ht | rfl
    · exact hstate t ht
    · exact hrelied

/-- At its start a call relies on no lock. -/
theorem relied_service {rid : String} (h : call.op.lockRid = some rid) : Relied w call (service call).head := by
  obtain ⟨ctx, op⟩ := call
  cases op with
  | acquireLock | releaseLock | refreshLock | submitToStaging | discardDraft =>
    exact fun _ => ⟨fun h => (nomatch h), fun h => nomatch h⟩
  | _ => cases h

/-- A step that respects the locks keeps the calls guarded. -/
theorem guarded_next (h : Guarded p) (hr : LocksRespected p e)
    (hstart : ∀ call, e = .start call → call.op.lockRid.isSome) : Guarded (concurrent.next p e) := by
  have hhappens := System.happens concurrent p e
  revert hhappens
  generalize concurrent.next p e = p'
  intro hhappens
  have hraised : ∀ {call : Call} {c : Cmd} {k : Except Exc c.Answer → Program Result} {i : ℕ} (x : Exc),
      p.threads[i]? = some (call, .call c k) → k (.error x) = .throw x := by
    intro call c k i x hi
    obtain ⟨rid, _, hc⟩ := h.careful _ (List.mem_of_getElem? hi)
    exact hc.2.1 x
  cases hhappens with
  | started call =>
    obtain ⟨rid, hrid⟩ := Option.isSome_iff_exists.mp (hstart call rfl)
    constructor
    · intro t ht
      rcases List.mem_append.mp ht with ht | ht
      · exact h.careful t ht
      · rw [List.mem_singleton.mp ht]
        exact ⟨rid, hrid, careful_service hrid⟩
    · intro t ht
      rcases List.mem_append.mp ht with ht | ht
      · exact h.relied t ht
      · rw [List.mem_singleton.mp ht]
        exact relied_service hrid
  | outside v => exact ⟨h.careful, fun t ht => relied_env h hr ht⟩
  | nothing => exact h
  | @answered i call c k hi =>
    have hstate : ∀ t ∈ p.threads, Relied (exec c p.state).2 t.1 t.2.head :=
      fun t ht => relied_exec h hr hi (System.pending_of_getElem? hi) ht
    change Guarded ⟨(exec c p.state).2, p.threads.set i (call, k (exec c p.state).1)⟩
    cases hb : (exec c p.state).1 with
    | error x =>
      rw [hraised x hi]
      exact h.set hi hstate (fun _ _ => trivial) .ended
    | ok b => exact h.set hi hstate (fun _ hc => (hc.2.2 b).2.1) (relied_answered h hr hi hb)
  | @lost i call c k x hi =>
    rw [hraised x hi]
    exact h.set hi (fun t ht => relied_exec h hr hi (System.pending_of_getElem? hi) ht) (fun _ _ => trivial) .ended
  | @refused i call c k x hi =>
    rw [hraised x hi]
    exact h.set hi h.relied (fun _ _ => trivial) .ended

/-- A call that reports the lock to its user leaves him the lock. -/
theorem held_of_reports (h : Guarded p) (hi : p.threads[i]? = some (call, .call c k)) {rid : String}
    {b : c.Answer} (hb : (exec c p.state).1 = .ok b) (hreports : Reports rid c b) :
    (exec c p.state).2.redis (.lock rid) = some call.ctx.userId := by
  have hthread := List.mem_of_getElem? hi
  cases hreports with
  | @taken v =>
    obtain ⟨own, _, hcareful⟩ := h.careful _ hthread
    have hv : v = call.ctx.userId := hcareful.1.2
    cases hkey : p.state.redis (.lock rid) with
    | some owner =>
      simp only [exec, hkey] at hb
      cases hb
    | none =>
      simp only [exec, hkey, World.setKey, Function.update_self, hv]
  | confirmed hcon =>
    have howner := (h.relied _ hthread rid).2 hcon
    rcases exec_lock c p.state rid with hsame | ⟨v, rfl, _⟩ | ⟨rfl, _⟩
    · rw [hsame, howner]
    · cases hcon
    · cases hcon

/-- Guarded calls are safe. -/
theorem safe_of_guarded (h : Guarded p) : LocksSafe p e where
  own := by
    intro call c rid he hc
    obtain ⟨t, ht, rfl, hhead⟩ := System.mem_of_issues he
    have hrelied := h.relied t ht rid
    rw [hhead] at hrelied
    rcases hc with rfl | rfl
    · exact hrelied.1 rfl
    · intro owner howner
      rw [hrelied.2 rfl] at howner
      exact (Option.some.inj howner).symm
  held := by
    rintro call r rid ⟨i, hi, hpending, hreturned⟩ htakes hrid
    obtain ⟨c, k, hc, hstate, hwent⟩ := System.executed_cases concurrent hi hpending hreturned
    obtain ⟨own, hown, hcareful⟩ := h.careful _ (List.mem_of_getElem? hc)
    obtain rfl : own = rid := Option.some.inj (hown.symm.trans hrid)
    rw [hstate]
    rcases hwent with hpure | ⟨x, hthrow⟩
    · change .pure r = k (exec c p.state).1 at hpure
      cases hb : (exec c p.state).1 with
      | error x =>
        rw [hb, hcareful.2.1 x] at hpure
        cases hpure
      | ok b =>
        rw [hb] at hpure
        exact held_of_reports h hc hb ((hcareful.2.2 b).2.2 r hpure.symm htakes)
    · rw [hcareful.2.1 x] at hthrow
      cases hthrow

end Step

/-! ## Every interleaving -/

/-- In every interleaving of the five calls, from any stores, whose steps all respect the locks, no call touches the lock
of another user, and an acquire or a refresh that returns leaves its user the lock. -/
theorem locks_safe {w : World} {es : List CallEvent} (hcalls : ∀ call ∈ started es, call.op.lockRid.isSome)
    (h : StepsMeet concurrent.next LocksRespected ⟨w, []⟩ es) : StepsMeet concurrent.next LocksSafe ⟨w, []⟩ es := by
  have hboth := h.and (stepsMeet_started : StepsMeet concurrent.next (fun _ e => ∀ call, e = .start call → call ∈ started es) ⟨w, []⟩ es)
  refine StepsMeet.of_inv (J := Guarded) ?_ ⟨fun _ ht => (nomatch ht), fun _ ht => nomatch ht⟩ hboth
  rintro p e hguarded ⟨hr, hs⟩
  exact ⟨guarded_next hguarded hr fun call he => hcalls call (hs call he), safe_of_guarded hguarded⟩

/-! ## A Draft whose lock changes hands -/

/-- A user has created an entity, and has its Draft. -/
def draftCreated : World := after ⟨⟨"t", "u", "1", "a"⟩, .create .objectType [(.apiName, .str "Order")]⟩ .empty

/-- The user takes the lock, keeps it, and submits; then another takes it. -/
def lockHandedOver : List CallEvent :=
  inTurn [⟨⟨"t", "u", "2", "b"⟩, .acquireLock "ri.obj.a"⟩, ⟨⟨"t", "u", "3", "c"⟩, .refreshLock "ri.obj.a"⟩,
    ⟨⟨"t", "u", "4", "d"⟩, .submitToStaging .objectType "ri.obj.a"⟩, ⟨⟨"t", "v", "5", "e"⟩, .acquireLock "ri.obj.a"⟩]

theorem locks_safe_handedOver : StepsMeet concurrent.next LocksSafe ⟨draftCreated, []⟩ lockHandedOver :=
  locks_safe (by decide) (by decide +kernel)

/-- Another user takes the lock; the first, who has read the lock of nobody, submits his Draft. -/
def submitUnlocked : List CallEvent :=
  [.start ⟨⟨"t", "v", "2", "b"⟩, .acquireLock "ri.obj.a"⟩, .step 0,
    .start ⟨⟨"t", "u", "3", "c"⟩, .submitToStaging .objectType "ri.obj.a"⟩, .step 1, .step 1]

/-- The submit removes the lock of the other user. -/
theorem lock_of_another_removed : ¬ ∀ (w : World) (es : List CallEvent),
    (∀ call ∈ started es, call.op.lockRid.isSome) → StepsMeet concurrent.next LocksSafe ⟨w, []⟩ es := by
  intro h
  have hsafe := (stepsMeet_append.mp (h draftCreated (submitUnlocked ++ [.step 1]) (by decide))).2.1
  have howner : (runFrom concurrent.next ⟨draftCreated, []⟩ submitUnlocked).state.redis (.lock "ri.obj.a") = some "v" := by
    decide
  have hremoves : (runFrom concurrent.next ⟨draftCreated, []⟩ submitUnlocked).issues (.step 1 : CallEvent) =
      some (⟨⟨"t", "u", "3", "c"⟩, .submitToStaging .objectType "ri.obj.a"⟩, .redisDelete (.lock "ri.obj.a")) := by
    rfl
  have hown := hsafe.own _ _ _ hremoves (.inl rfl) "v" howner
  simp at hown

end Lingshu.Ontology
