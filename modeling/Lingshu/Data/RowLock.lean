import Lingshu.Interaction.Until
import Lingshu.Data.Backends
import Mathlib.Logic.Function.Basic

/-! # Row locks

`RowLock` over Redis, the commands of any number of calls in any order. Who holds the key is read in one command, and the
key is extended or removed in a later one; in between it may expire and be taken by another user. -/
namespace Lingshu.Data.RowLock
open Json Interaction
set_option autoImplicit false

/-! ## Commands and calls -/

/-- `SET key user NX EX ttl`, `GET`, `EXPIRE` and `DEL`; when a key expires is up to the environment. -/
inductive LockCommand where
  | set (key userId : String)
  | get (key : String)
  | expire (key : String)
  | delete (key : String)
  deriving DecidableEq, Repr

@[reducible] def LockCommand.Answer : LockCommand → Type
  | .set .. => Bool
  | .get _ => Option String
  | .expire _ | .delete _ => Unit

/-- An exception of the Redis client. -/
inductive RedisError where
  | connection
  deriving DecidableEq, Repr

abbrev LockStore : Type := String → Option String

def execute : Prog.Handler LockCommand LockCommand.Answer RedisError LockStore
  | .set key userId, s =>
    match s key with
    | none => (.ok true, Function.update s key (some userId))
    | some _ => (.ok false, s)
  | .get key, s => (.ok (s key), s)
  | .expire _, s => (.ok (), s)
  | .delete key, s => (.ok (), Function.update s key none)

abbrev LockProgram : Type := Prog LockCommand LockCommand.Answer RedisError Bool

/-- Refresh the TTL. -/
def extend (key : String) : LockProgram := (Prog.perform (.expire key)).bind fun _ => .pure true

/-- If already held by the same user. -/
def reenter (key userId : String) : LockProgram :=
  (Prog.perform (.get key)).bind fun currentHolder => if currentHolder = some userId then extend key else .pure false

/-- `RowLock.acquire`. -/
def acquire (key userId : String) : LockProgram :=
  (Prog.perform (.set key userId)).bind fun acquired => if acquired then .pure true else reenter key userId

def remove (key : String) : LockProgram := (Prog.perform (.delete key)).bind fun _ => .pure true

/-- `RowLock.release`. -/
def release (key userId : String) : LockProgram :=
  (Prog.perform (.get key)).bind fun currentHolder => if currentHolder ≠ some userId then .pure false else remove key

inductive LockOp where
  | acquire
  | release
  deriving DecidableEq, Repr

structure LockCall where
  op : LockOp
  tenantId : String
  typeRid : String
  primaryKey : Assoc Value
  userId : String
  deriving DecidableEq

variable (digest : String → String)

/-- `_make_key`. -/
def LockCall.key (call : LockCall) : String :=
  "row_lock:" ++ call.tenantId ++ ":" ++ call.typeRid ++ ":" ++ digest (canonical call.primaryKey)

def LockCall.program (call : LockCall) : LockProgram :=
  match call.op with
  | .acquire => RowLock.acquire (call.key digest) call.userId
  | .release => RowLock.release (call.key digest) call.userId

/-- Any calls, and keys that expire at any moment. -/
def rowLocks : System LockCommand LockCommand.Answer RedisError LockStore Bool LockCall String where
  handler := execute
  program := LockCall.program digest
  env key s := Function.update s key none

abbrev LockPool : Type := Pool LockCommand LockCommand.Answer RedisError LockStore Bool LockCall

abbrev LockEvent : Type := Event RedisError LockCall String

/-! ## The discipline and the guarantee -/

/-- The key that a command extends or removes. -/
def LockCommand.owned : LockCommand → Option String
  | .expire key | .delete key => some key
  | _ => none

/-- The key that an event takes away. -/
def takesAway (p : LockPool) : LockEvent → Option String
  | .env key => some key
  | e => (p.issues e).bind fun kc => match kc.2 with
    | .delete key => some key
    | _ => none

/-- No key goes while another call, which has read it as its user's, is about to extend or remove it. -/
def LockKept (p : LockPool) (e : LockEvent) : Prop :=
  ∀ key ∈ takesAway p e, ∀ x ∈ p.threads.zipIdx, e.thread ≠ some x.2 → x.1.2.head.bind LockCommand.owned ≠ some key

instance LockKept.decidable (p : LockPool) (e : LockEvent) : Decidable (LockKept p e) :=
  inferInstanceAs (Decidable (∀ key ∈ takesAway p e, ∀ x ∈ p.threads.zipIdx, e.thread ≠ some x.2 →
    x.1.2.head.bind LockCommand.owned ≠ some key))

/-- The thread of the event has just returned `True`. -/
def ReturnsTrue (p : LockPool) (e : LockEvent) (call : LockCall) : Prop :=
  ∃ i, e.thread = some i ∧ (p.pending i).isSome ∧ ((rowLocks digest).next p e).threads[i]? = some (call, .pure true)

/-- No call extends or removes the key of another user; an acquire that returns `True` leaves its user the key, and a
release has removed its user's. -/
structure RowLockSafe (p : LockPool) (e : LockEvent) : Prop where
  own : ∀ call c key, p.issues e = some (call, c) → c.owned = some key → ∀ owner ∈ p.state key, owner = call.userId
  acquired : ∀ call, ReturnsTrue digest p e call → call.op = .acquire →
    ((rowLocks digest).next p e).state (call.key digest) = some call.userId
  released : ∀ call, ReturnsTrue digest p e call → call.op = .release →
    p.state (call.key digest) = some call.userId ∧ ((rowLocks digest).next p e).state (call.key digest) = none

/-! ## Where a call can be -/

/-- What is left of a call. -/
inductive Stage (call : LockCall) : LockProgram → Prop where
  | acquire (h : call.op = .acquire) : Stage call (acquire (call.key digest) call.userId)
  | reenter (h : call.op = .acquire) : Stage call (reenter (call.key digest) call.userId)
  | extend (h : call.op = .acquire) : Stage call (extend (call.key digest))
  | release (h : call.op = .release) : Stage call (release (call.key digest) call.userId)
  | remove (h : call.op = .release) : Stage call (remove (call.key digest))
  | ended {q : LockProgram} (h : q.head = none) : Stage call q

/-- Every call is at one of its stages, and what it is about to extend or remove is its user's. -/
structure LocksGuarded (p : LockPool) : Prop where
  stage : ∀ t ∈ p.threads, Stage digest t.1 t.2
  held : ∀ t ∈ p.threads, ∀ key, t.2.head.bind LockCommand.owned = some key → p.state key = some t.1.userId

section Step
variable {digest} {call : LockCall} {c : LockCommand} {k : Except RedisError c.Answer → LockProgram} {p : LockPool}
  {e : LockEvent}

/-- What a command does to a key. -/
theorem execute_key (c : LockCommand) (s : LockStore) (key : String) :
    (execute c s).2 key = s key ∨ (s key = none ∧ ∃ userId, c = .set key userId ∧ (execute c s).2 key = some userId) ∨
      c = .delete key ∧ (execute c s).2 key = none := by
  cases c with
  | set key' userId =>
    cases hkey : s key' with
    | some _ => exact .inl (by simp only [execute, hkey])
    | none =>
      by_cases hr : key' = key
      · subst hr
        exact .inr (.inl ⟨hkey, userId, rfl, by simp only [execute, hkey, Function.update_self]⟩)
      · refine .inl ?_
        simp only [execute, hkey]
        exact Function.update_of_ne (Ne.symm hr) _ _
  | get | expire => exact .inl rfl
  | delete key' =>
    by_cases hr : key' = key
    · subst hr
      exact .inr (.inr ⟨rfl, Function.update_self _ _ _⟩)
    · exact .inl (Function.update_of_ne (Ne.symm hr) _ _)

variable (digest) in
/-- The command after which a call returns `True`. -/
def Grants (call : LockCall) (s : LockStore) (c : LockCommand) : Prop :=
  match call.op with
  | .acquire => c = .set (call.key digest) call.userId ∧ s (call.key digest) = none ∨ c = .expire (call.key digest)
  | .release => c = .delete (call.key digest)

variable (digest) in
/-- From stage to stage: an exception ends the call; what is extended or removed next has just been read to be the
user's. -/
structure Goes (call : LockCall) (c : LockCommand) (k : Except RedisError c.Answer → LockProgram) (s : LockStore) :
    Prop where
  raised : ∀ x, k (.error x) = .throw x
  stage : Stage digest call (k (execute c s).1)
  owned : ∀ key, (k (execute c s).1).head.bind LockCommand.owned = some key → (execute c s).2 key = some call.userId
  grants : k (execute c s).1 = .pure true → Grants digest call s c

/-- Reading who holds the key, and going on with it only if it is the user. -/
theorem goes_read {next : LockProgram} {k : Except RedisError (Option String) → LockProgram} {s : LockStore}
    (hstage : Stage digest call next)
    (howned : ∀ key, next.head.bind LockCommand.owned = some key → key = call.key digest) (hpure : next ≠ .pure true)
    (hk : ∀ holder, k (.ok holder) = if holder = some call.userId then next else .pure false)
    (hraised : ∀ x, k (.error x) = .throw x) : Goes digest call (.get (call.key digest)) k s := by
  have hnext : k (execute (.get (call.key digest)) s).1 =
      if s (call.key digest) = some call.userId then next else .pure false := hk _
  by_cases howner : s (call.key digest) = some call.userId
  · rw [if_pos howner] at hnext
    refine ⟨hraised, ?_, fun key h => ?_, fun h => absurd (hnext.symm.trans h) hpure⟩
    · rwa [hnext]
    · rw [hnext] at h
      rw [howned key h]
      exact howner
  · rw [if_neg howner] at hnext
    refine ⟨hraised, ?_, fun key h => ?_, fun h => ?_⟩
    · rw [hnext]
      exact .ended rfl
    · rw [hnext] at h
      cases h
    · cases hnext.symm.trans h

theorem goes_of_stage (h : Stage digest call (.call c k)) (s : LockStore) : Goes digest call c k s := by
  generalize hq : Prog.call c k = q at h
  cases h with
  | acquire hop =>
    obtain ⟨rfl, hk⟩ := Prog.call.inj (show Prog.call c k = Prog.call (.set (call.key digest) call.userId) _ from hq)
    obtain rfl := eq_of_heq hk
    cases hkey : s (call.key digest) with
    | none =>
      have hanswer : (execute (.set (call.key digest) call.userId) s).1 = .ok true := by simp only [execute, hkey]
      refine ⟨fun _ => rfl, ?_, ?_, fun _ => ?_⟩
      · rw [hanswer]
        exact .ended rfl
      · rw [hanswer]
        exact fun key howned => nomatch howned
      · rw [Grants, hop]
        exact .inl ⟨rfl, hkey⟩
    | some owner =>
      have hanswer : (execute (.set (call.key digest) call.userId) s).1 = .ok false := by simp only [execute, hkey]
      refine ⟨fun _ => rfl, ?_, ?_, ?_⟩
      · rw [hanswer]
        exact .reenter hop
      · rw [hanswer]
        exact fun key howned => nomatch howned
      · rw [hanswer]
        exact fun hpure => nomatch hpure
  | reenter hop =>
    obtain ⟨rfl, hk⟩ := Prog.call.inj (show Prog.call c k = Prog.call (.get (call.key digest)) _ from hq)
    obtain rfl := eq_of_heq hk
    exact goes_read (.extend hop) (fun key h => (Option.some.inj h).symm) nofun (fun _ => rfl) fun _ => rfl
  | extend hop =>
    obtain ⟨rfl, hk⟩ := Prog.call.inj (show Prog.call c k = Prog.call (.expire (call.key digest)) _ from hq)
    obtain rfl := eq_of_heq hk
    refine ⟨fun _ => rfl, .ended rfl, fun key howned => (nomatch howned), fun _ => ?_⟩
    rw [Grants, hop]
    exact .inr rfl
  | release hop =>
    obtain ⟨rfl, hk⟩ := Prog.call.inj (show Prog.call c k = Prog.call (.get (call.key digest)) _ from hq)
    obtain rfl := eq_of_heq hk
    exact goes_read (.remove hop) (fun key h => (Option.some.inj h).symm) nofun (fun _ => ite_not ..) fun _ => rfl
  | remove hop =>
    obtain ⟨rfl, hk⟩ := Prog.call.inj (show Prog.call c k = Prog.call (.delete (call.key digest)) _ from hq)
    obtain rfl := eq_of_heq hk
    refine ⟨fun _ => rfl, .ended rfl, fun key howned => (nomatch howned), fun _ => ?_⟩
    rw [Grants, hop]
  | ended hnone =>
    rw [← hq] at hnone
    cases hnone

theorem mem_set_cases {A : Type} {l : List A} {i : ℕ} {a t : A} (h : t ∈ l.set i a) : t = a ∨ ∃ j, j ≠ i ∧ l[j]? = some t := by
  obtain ⟨j, hj⟩ := List.mem_iff_getElem?.mp h
  by_cases hij : j = i
  · subst hij
    obtain ⟨hlt, hget⟩ := List.getElem?_eq_some_iff.mp hj
    rw [List.getElem_set_self] at hget
    exact .inl hget.symm
  · rw [List.getElem?_set_ne (Ne.symm hij)] at hj
    exact .inr ⟨j, hij, hj⟩

/-- The keys of the other calls are spared. -/
theorem held_of_kept (h : LocksGuarded digest p) (hkept : LockKept p e) (hissues : p.issues e = some (call, c)) {j : ℕ}
    {t : LockCall × LockProgram} (ht : p.threads[j]? = some t) (hother : e.thread ≠ some j) {key : String}
    (howned : t.2.head.bind LockCommand.owned = some key) : (execute c p.state).2 key = some t.1.userId := by
  have hheld := h.held t (List.mem_of_getElem? ht) key howned
  rcases execute_key c p.state key with hsame | ⟨hnone, -⟩ | ⟨rfl, -⟩
  · rw [hsame, hheld]
  · rw [hnone] at hheld
    cases hheld
  · have htaken : takesAway p e = some key := by
      cases e with
      | env => cases hissues
      | start | step | lose | refuse => simp only [takesAway, hissues, Option.bind_some]
    exact absurd howned (hkept key htaken (t, j) (List.mem_zipIdx_iff_getElem?.mpr ht) hother)

/-- Replacing the program of one call. -/
theorem LocksGuarded.set (h : LocksGuarded digest p) {i : ℕ} {w : LockStore} {q : LockProgram}
    (hothers : ∀ j t, j ≠ i → p.threads[j]? = some t → ∀ key, t.2.head.bind LockCommand.owned = some key →
      w key = some t.1.userId)
    (hstage : Stage digest call q) (hheld : ∀ key, q.head.bind LockCommand.owned = some key → w key = some call.userId) :
    LocksGuarded digest ⟨w, p.threads.set i (call, q)⟩ where
  stage := by
    intro t ht
    rcases mem_set_cases ht with rfl | ⟨j, -, hj⟩
    · exact hstage
    · exact h.stage t (List.mem_of_getElem? hj)
  held := by
    intro t ht key howned
    rcases mem_set_cases ht with rfl | ⟨j, hji, hj⟩
    · exact hheld key howned
    · exact hothers j t hji hj key howned

theorem guarded_next (h : LocksGuarded digest p) (hkept : LockKept p e) :
    LocksGuarded digest ((rowLocks digest).next p e) := by
  have hhappens := System.happens (rowLocks digest) p e
  revert hhappens
  generalize (rowLocks digest).next p e = p'
  intro hhappens
  cases hhappens with
  | started call =>
    have hstart : Stage digest call (call.program digest) ∧
        (call.program digest).head.bind LockCommand.owned = none := by
      unfold LockCall.program
      cases hop : call.op with
      | acquire => exact ⟨.acquire hop, rfl⟩
      | release => exact ⟨.release hop, rfl⟩
    constructor
    · intro t ht
      rcases List.mem_append.mp ht with ht | ht
      · exact h.stage t ht
      · rw [List.mem_singleton.mp ht]
        exact hstart.1
    · intro t ht key howned
      rcases List.mem_append.mp ht with ht | ht
      · exact h.held t ht key howned
      · rw [List.mem_singleton.mp ht] at howned
        cases hstart.2.symm.trans howned
  | outside key =>
    refine ⟨h.stage, fun t ht key' howned => ?_⟩
    have hheld := h.held t ht key' howned
    obtain ⟨j, hj⟩ := List.mem_iff_getElem?.mp ht
    by_cases hkey : key' = key
    · subst hkey
      exact absurd howned (hkept key' rfl (t, j) (List.mem_zipIdx_iff_getElem?.mpr hj) nofun)
    · exact (Function.update_of_ne hkey _ _).trans hheld
  | nothing => exact h
  | @answered i call c k hi =>
    have hgoes := goes_of_stage (h.stage _ (List.mem_of_getElem? hi)) p.state
    refine h.set (fun j t hji ht key howned => ?_) hgoes.stage hgoes.owned
    exact held_of_kept h hkept (System.pending_of_getElem? hi) ht (fun heq => hji (Option.some.inj heq).symm) howned
  | @lost i call c k x hi =>
    have hgoes := goes_of_stage (h.stage _ (List.mem_of_getElem? hi)) p.state
    rw [hgoes.raised x]
    refine h.set (fun j t hji ht key howned => ?_) (.ended rfl) nofun
    exact held_of_kept h hkept (System.pending_of_getElem? hi) ht (fun heq => hji (Option.some.inj heq).symm) howned
  | @refused i call c k x hi =>
    have hgoes := goes_of_stage (h.stage _ (List.mem_of_getElem? hi)) p.state
    rw [hgoes.raised x]
    exact h.set (fun j t _ ht key howned => h.held t (List.mem_of_getElem? ht) key howned) (.ended rfl) nofun

/-- A call that returns `True` has had its last command answered. -/
theorem answered_of_returnsTrue (h : LocksGuarded digest p) (hreturns : ReturnsTrue digest p e call) :
    ∃ c, ∃ k : Except RedisError c.Answer → LockProgram, (call, Prog.call c k) ∈ p.threads ∧
      Grants digest call p.state c ∧ ((rowLocks digest).next p e).state = (execute c p.state).2 := by
  obtain ⟨i, hi, hpending, hreturned⟩ := hreturns
  obtain ⟨c, k, hc, hstate, hwent⟩ := System.executed_cases (rowLocks digest) hi hpending hreturned
  have hmem := List.mem_of_getElem? hc
  have hgoes := goes_of_stage (h.stage _ hmem) p.state
  rcases hwent with hpure | ⟨x, hthrow⟩
  · exact ⟨c, k, hmem, hgoes.grants hpure.symm, hstate⟩
  · rw [hgoes.raised x] at hthrow
    cases hthrow

theorem safe_of_guarded (h : LocksGuarded digest p) : RowLockSafe digest p e where
  own := by
    intro call c key hissues howned owner howner
    obtain ⟨t, ht, rfl, hhead⟩ := System.mem_of_issues hissues
    rw [h.held t ht key (by rw [hhead]; exact howned)] at howner
    exact (Option.some.inj howner).symm
  acquired := by
    intro call hreturns hop
    obtain ⟨c, k, hmem, hgrants, hstate⟩ := answered_of_returnsTrue h hreturns
    rw [hstate]
    rw [Grants, hop] at hgrants
    obtain ⟨rfl, hnone⟩ | rfl := hgrants
    · simp only [execute, hnone, Function.update_self]
    · exact h.held _ hmem _ rfl
  released := by
    intro call hreturns hop
    obtain ⟨c, k, hmem, hgrants, hstate⟩ := answered_of_returnsTrue h hreturns
    rw [hstate]
    rw [Grants, hop] at hgrants
    subst hgrants
    exact ⟨h.held _ hmem _ rfl, Function.update_self ..⟩

end Step

/-! ## Every interleaving -/

theorem rowLocks_safe (digest : String → String) (s : LockStore) (es : List LockEvent)
    (h : StepsMeet (rowLocks digest).next LockKept ⟨s, []⟩ es) :
    StepsMeet (rowLocks digest).next (RowLockSafe digest) ⟨s, []⟩ es := by
  refine StepsMeet.of_inv (J := LocksGuarded digest) (fun p e hguarded hkept => ?_) ⟨nofun, nofun⟩ h
  exact ⟨guarded_next hguarded hkept, safe_of_guarded hguarded⟩

def onRow (op : LockOp) (userId : String) : LockCall := ⟨op, "t", "ri.obj.1", [("id", .int 1)], userId⟩

/-- One user takes the lock, another does not get it, the first gives it back. -/
def lockInTurn : List LockEvent :=
  [.start (onRow .acquire "u"), .step 0, .start (onRow .acquire "v"), .step 1, .step 1,
    .start (onRow .release "u"), .step 2, .step 2]

theorem rowLocks_safe_inTurn : StepsMeet (rowLocks fun text => text).next (RowLockSafe fun text => text)
    ⟨fun _ => none, []⟩ lockInTurn :=
  rowLocks_safe _ _ _ (by decide)

/-- A release has read its user; then the lock expires, and another user takes it. -/
def expiredUnderRelease : List LockEvent :=
  [.start (onRow .acquire "u"), .step 0, .start (onRow .release "u"), .step 1,
    .env ((onRow .release "u").key fun text => text), .start (onRow .acquire "v"), .step 2]

/-- The release removes the other user's lock. -/
theorem release_removes_another : ¬ ∀ (s : LockStore) (es : List LockEvent),
    StepsMeet (rowLocks fun text => text).next (RowLockSafe fun text => text) ⟨s, []⟩ es := by
  intro h
  have hsafe := (stepsMeet_append.mp (h (fun _ => none) (expiredUnderRelease ++ [.step 1]))).2.1
  have howner : (runFrom (rowLocks fun text => text).next ⟨fun _ => none, []⟩ expiredUnderRelease).state
      ((onRow .release "u").key fun text => text) = some "v" := by
    decide
  have hremoves : (runFrom (rowLocks fun text => text).next ⟨fun _ => none, []⟩ expiredUnderRelease).issues
      (.step 1 : LockEvent) = some (onRow .release "u", .delete ((onRow .release "u").key fun text => text)) := by
    decide
  have hown := hsafe.own _ _ _ hremoves rfl "v" howner
  exact absurd hown (by decide)

end Lingshu.Data.RowLock
