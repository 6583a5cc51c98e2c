import Lingshu.Function.Globals
import Mathlib.Data.List.Nodup

/-! # Versions of global functions

While every write finds the version that its call had read, the version counts the writes. The first write that does
not leaves it behind their number for good. -/
namespace Lingshu.Function.Globals
open Interaction
set_option autoImplicit false

namespace Phased

/-! ## The table -/

theorem getByRid_updateFields {table : List GlobalFunction} {rid tenantId : String} {row : GlobalFunction}
    (h : getByRid table rid tenantId = some row) (updates : FunctionUpdates) (version : Int) :
    getByRid (updateFields table rid tenantId updates version) rid tenantId = some (row.set updates version) := by
  have hsame : ((fun row : GlobalFunction => decide (row.rid = rid ∧ row.tenantId = tenantId)) ∘ fun row =>
      if row.rid = rid ∧ row.tenantId = tenantId then row.set updates version else row) =
        fun row : GlobalFunction => decide (row.rid = rid ∧ row.tenantId = tenantId) := by
    funext row
    by_cases hrow : row.rid = rid ∧ row.tenantId = tenantId
    · simp only [Function.comp, if_pos hrow]
      rfl
    · simp only [Function.comp, if_neg hrow]
  rw [getByRid] at h
  have hrow : row.rid = rid ∧ row.tenantId = tenantId := by
    have hfound := List.find?_some h
    exact of_decide_eq_true hfound
  rw [getByRid, updateFields, List.find?_map, hsame, h, Option.map_some, if_pos hrow]

theorem get_set (row : GlobalFunction) (updates : FunctionUpdates) (version : Int) (field : FunctionField) :
    (row.set updates version).get field = (updates.get field).getD (row.get field) := by
  cases field with
  | displayName | parameters | implementation => rfl
  | description =>
    rw [GlobalFunction.get, FunctionUpdates.get, GlobalFunction.set]
    cases updates.description <;> rfl

/-! ## What a step does -/

variable {tenantId rid : String} {row : GlobalFunction} {a a' : Phased}

/-- A step that writes nothing: a call comes in, reads the row, or returns. -/
structure Quiet (tenantId rid : String) (row : GlobalFunction) (a a' : Phased) : Prop where
  table : a'.table = a.table
  writers : a'.writers = a.writers
  later : ∀ {i : ℕ} {call : UpdateCall} {phase}, a.calls[i]? = some (call, phase) →
    ∃ phase', a'.calls[i]? = some (call, phase') ∧ phase'.version = phase.version
  earlier : ∀ {i : ℕ} {call : UpdateCall} {phase'}, a'.calls[i]? = some (call, phase') →
    (phase' = .reading ∧ call.tenantId = tenantId ∧ call.rid = rid) ∨
      ∃ phase, a.calls[i]? = some (call, phase) ∧ phase'.version = phase.version ∧
        ∀ existing, phase' = .writing existing → existing = row ∨ phase = .writing existing

/-- A step of a call that has read `existing`, and writes. -/
structure Writes (i : ℕ) (call : UpdateCall) (existing : GlobalFunction) (a a' : Phased) : Prop where
  pending : a.calls[i]? = some (call, .writing existing)
  table : a'.table = updateFields a.table call.rid call.tenantId call.updates (existing.version + 1)
  calls : a'.calls = a.calls.set i (call, .rereading existing)
  writers : a'.writers = a.writers ++ [i]

/-- What holds in every run of calls on a function that is registered. -/
structure Steady (tenantId rid : String) (row : GlobalFunction) (a : Phased) : Prop where
  found : getByRid a.table rid tenantId = some row
  on : ∀ {i : ℕ} {call : UpdateCall} {phase}, a.calls[i]? = some (call, phase) → call.tenantId = tenantId ∧ call.rid = rid
  nodup : a.writers.Nodup
  mem : ∀ i, i ∈ a.writers ↔ ∃ call phase, a.calls[i]? = some (call, phase) ∧ phase.version.isSome
  kept : ∀ {i : ℕ} {call : UpdateCall} {phase}, a.calls[i]? = some (call, phase) → phase.version.isSome →
    ∀ field value, call.updates.get field = some value → row.get field = value ∨
      ∃ (j : ℕ) (call' : UpdateCall) (phase' : Phase), a.calls[j]? = some (call', phase') ∧
        (call'.updates.get field).isSome ∧ List.Sublist [i, j] a.writers

theorem quiet_refl : Quiet tenantId rid row a a where
  table := rfl
  writers := rfl
  later h := ⟨_, h, rfl⟩
  earlier h := .inr ⟨_, h, rfl, fun _ hphase => .inr hphase⟩

theorem quiet_start {call : UpdateCall} (hon : call.tenantId = tenantId ∧ call.rid = rid) :
    Quiet tenantId rid row a (a.next (.start call)) where
  table := rfl
  writers := rfl
  later h := ⟨_, (List.getElem?_append_left (List.getElem?_eq_some_iff.mp h).1).trans h, rfl⟩
  earlier {i call' phase'} h := by
    rcases Nat.lt_or_ge i a.calls.length with hlt | hge
    · exact .inr ⟨phase', (List.getElem?_append_left hlt).symm.trans h, rfl, fun _ hphase => .inr hphase⟩
    · have hlast : (a.calls ++ [(call, .reading)])[i]? = some (call', phase') := h
      rw [List.getElem?_append_right hge] at hlast
      obtain ⟨rfl, rfl⟩ := Prod.mk.inj (List.mem_singleton.mp (List.mem_of_getElem? hlast))
      exact .inl ⟨rfl, hon⟩

theorem quiet_set {i : ℕ} {call : UpdateCall} {phase phase' : Phase} (hi : a.calls[i]? = some (call, phase))
    (hversion : phase'.version = phase.version)
    (hwriting : ∀ existing, phase' = .writing existing → existing = row ∨ phase = .writing existing) :
    Quiet tenantId rid row a { a with calls := a.calls.set i (call, phase') } where
  table := rfl
  writers := rfl
  later {j call' phase''} h := by
    by_cases hij : i = j
    · subst hij
      obtain ⟨rfl, rfl⟩ := Prod.mk.inj (Option.some.inj (hi.symm.trans h))
      exact ⟨phase', List.getElem?_set_self (List.getElem?_eq_some_iff.mp hi).1, hversion⟩
    · exact ⟨phase'', (List.getElem?_set_ne hij).trans h, rfl⟩
  earlier {j call' phase''} h := by
    by_cases hij : i = j
    · subst hij
      have hself := (List.getElem?_set_self (List.getElem?_eq_some_iff.mp hi).1).symm.trans h
      obtain ⟨rfl, rfl⟩ := Prod.mk.inj (Option.some.inj hself)
      exact .inr ⟨phase, hi, hversion, hwriting⟩
    · exact .inr ⟨phase'', (List.getElem?_set_ne hij).symm.trans h, rfl, fun _ hphase => .inr hphase⟩

/-- A step of a run on the function is quiet, or writes. -/
theorem next_cases (h : Steady tenantId rid row a) {e : Turn UpdateCall} (hon : a.run.On tenantId rid e) :
    Quiet tenantId rid row a (a.next e) ∨ ∃ i call existing, e = .step i ∧ Writes i call existing a (a.next e) := by
  cases e with
  | start call => exact .inl (quiet_start hon)
  | step i =>
    cases hi : a.calls[i]? with
    | none =>
      have hnext : a.next (.step i) = a := by simp only [next, hi]
      rw [hnext]
      exact .inl quiet_refl
    | some t =>
      obtain ⟨call, phase⟩ := t
      have hnext : a.next (.step i) =
          ⟨stored a.table call phase, a.calls.set i (call, advance a.table call phase), a.writers ++ written i phase⟩ := by
        simp only [next, hi]
      have hset : ∀ phase', stored a.table call phase = a.table → written i phase = [] →
          advance a.table call phase = phase' →
          a.next (.step i) = { a with calls := a.calls.set i (call, phase') } := by
        intro phase' hstored hwritten hadvance
        rw [hnext, hstored, hwritten, hadvance, List.append_nil]
      cases phase with
      | writing existing =>
        refine .inr ⟨i, call, existing, rfl, hi, ?_, ?_, ?_⟩ <;> rw [hnext] <;> rfl
      | reading =>
        obtain ⟨rfl, rfl⟩ := h.on hi
        have hadvance : advance a.table call .reading = .writing row := by simp only [advance, h.found]
        rw [hset _ rfl rfl hadvance]
        refine .inl (quiet_set hi rfl fun existing hphase => .inl ?_)
        exact (Phase.writing.inj hphase).symm
      | rereading existing =>
        rw [hset _ rfl rfl rfl]
        exact .inl (quiet_set hi rfl fun existing hphase => by cases hphase)
      | returned response =>
        rw [hset _ rfl rfl rfl]
        exact .inl (quiet_set hi rfl fun existing hphase => by cases hphase)
      | raised e =>
        rw [hset _ rfl rfl rfl]
        exact .inl (quiet_set hi rfl fun existing hphase => by cases hphase)

/-! ### In every run -/

theorem Quiet.steady (hq : Quiet tenantId rid row a a') (h : Steady tenantId rid row a) : Steady tenantId rid row a' where
  found := by rw [hq.table, h.found]
  on hi := by
    obtain ⟨-, hon⟩ | ⟨phase, hi, -⟩ := hq.earlier hi
    · exact hon
    · exact h.on hi
  nodup := by
    rw [hq.writers]
    exact h.nodup
  mem i := by
    rw [hq.writers, h.mem]
    constructor
    · rintro ⟨call, phase, hi, hversion⟩
      obtain ⟨phase', hi', hsame⟩ := hq.later hi
      exact ⟨call, phase', hi', by rwa [hsame]⟩
    · rintro ⟨call, phase', hi', hversion⟩
      obtain ⟨rfl, -⟩ | ⟨phase, hi, hsame, -⟩ := hq.earlier hi'
      · cases hversion
      · exact ⟨call, phase, hi, by rwa [← hsame]⟩
  kept {i call phase'} hi' hversion field value hset := by
    obtain ⟨rfl, -⟩ | ⟨phase, hi, hsame, -⟩ := hq.earlier hi'
    · cases hversion
    · rw [hsame] at hversion
      obtain hvalue | ⟨j, other, _, hj, hoverwrites, hafter⟩ := h.kept hi hversion field value hset
      · exact .inl hvalue
      · obtain ⟨phaseJ, hj', -⟩ := hq.later hj
        exact .inr ⟨j, other, phaseJ, hj', hoverwrites, by rwa [hq.writers]⟩

variable {i : ℕ} {call : UpdateCall} {existing : GlobalFunction}

/-- A call before the write is there after it. -/
theorem Writes.later (hw : Writes i call existing a a') {j : ℕ} {other : UpdateCall} {phase : Phase}
    (hj : a.calls[j]? = some (other, phase)) : ∃ phase', a'.calls[j]? = some (other, phase') := by
  rw [hw.calls]
  by_cases hij : i = j
  · subst hij
    obtain ⟨rfl, rfl⟩ := Prod.mk.inj (Option.some.inj (hw.pending.symm.trans hj))
    exact ⟨_, List.getElem?_set_self (List.getElem?_eq_some_iff.mp hj).1⟩
  · exact ⟨phase, (List.getElem?_set_ne hij).trans hj⟩

/-- A call after the write is the one that wrote, or was there before. -/
theorem Writes.earlier (hw : Writes i call existing a a') {j : ℕ} {other : UpdateCall} {phase : Phase}
    (hj : a'.calls[j]? = some (other, phase)) :
    (j = i ∧ other = call ∧ phase = .rereading existing) ∨ (j ≠ i ∧ a.calls[j]? = some (other, phase)) := by
  rw [hw.calls] at hj
  refine (getElem?_set_cases hj).imp_left fun ⟨hji, heq⟩ => ?_
  exact ⟨hji, Prod.mk.inj heq⟩

theorem Writes.not_mem (hw : Writes i call existing a a') (h : Steady tenantId rid row a) : i ∉ a.writers := by
  intro hmem
  obtain ⟨_, phase, hi, hversion⟩ := (h.mem i).mp hmem
  obtain ⟨-, rfl⟩ := Prod.mk.inj (Option.some.inj (hw.pending.symm.trans hi))
  cases hversion

theorem Writes.steady (hw : Writes i call existing a a') (h : Steady tenantId rid row a) :
    Steady tenantId rid (row.set call.updates (existing.version + 1)) a' := by
  obtain ⟨rfl, rfl⟩ := h.on hw.pending
  have hself : a'.calls[i]? = some (call, .rereading existing) := by
    rw [hw.calls]
    exact List.getElem?_set_self (List.getElem?_eq_some_iff.mp hw.pending).1
  refine ⟨?_, ?_, ?_, ?_, ?_⟩
  · rw [hw.table]
    exact getByRid_updateFields h.found _ _
  · intro j other phase hj
    obtain ⟨-, rfl, -⟩ | ⟨-, hj⟩ := hw.earlier hj
    · exact ⟨rfl, rfl⟩
    · exact h.on hj
  · rw [hw.writers]
    refine List.nodup_append.mpr ⟨h.nodup, List.nodup_singleton i, ?_⟩
    rintro j hj k hk rfl
    exact hw.not_mem h (List.mem_singleton.mp hk ▸ hj)
  · intro j
    rw [hw.writers, List.mem_append, List.mem_singleton, h.mem]
    constructor
    · rintro (⟨other, phase, hj, hversion⟩ | rfl)
      · have hne : i ≠ j := by
          rintro rfl
          exact hw.not_mem h ((h.mem i).mpr ⟨other, phase, hj, hversion⟩)
        refine ⟨other, phase, ?_, hversion⟩
        rw [hw.calls]
        exact (List.getElem?_set_ne hne).trans hj
      · exact ⟨call, _, hself, rfl⟩
    · rintro ⟨other, phase, hj, hversion⟩
      obtain ⟨rfl, -⟩ | ⟨-, hj⟩ := hw.earlier hj
      · exact .inr rfl
      · exact .inl ⟨other, phase, hj, hversion⟩
  · intro j other phase hj hversion field value hset
    obtain ⟨rfl, rfl, -⟩ | ⟨hne, hj⟩ := hw.earlier hj
    · refine .inl ?_
      rw [get_set, hset]
      rfl
    · have hmem : j ∈ a.writers := (h.mem j).mpr ⟨other, phase, hj, hversion⟩
      obtain hvalue | ⟨k, later, _, hk, hoverwrites, hafter⟩ := h.kept hj hversion field value hset
      · cases hnew : call.updates.get field with
        | none =>
          refine .inl ?_
          rw [get_set, hnew]
          exact hvalue
        | some new =>
          -- the call that writes now sets the field too
          refine .inr ⟨i, call, _, hself, by rw [hnew]; rfl, ?_⟩
          rw [hw.writers]
          exact (List.singleton_sublist.mpr hmem).append (List.Sublist.refl [i])
      · obtain ⟨phaseK, hk'⟩ := hw.later hk
        refine .inr ⟨k, later, phaseK, hk', hoverwrites, ?_⟩
        rw [hw.writers]
        exact hafter.trans (List.sublist_append_left _ _)

/-! ### As long as all writes find what was read -/

/-- Every write so far has found the version that its call had read. -/
structure Current (initial : Int) (row : GlobalFunction) (a : Phased) : Prop where
  version : row.version = initial + a.writers.length
  read : ∀ {i : ℕ} {call : UpdateCall} {existing}, a.calls[i]? = some (call, .writing existing) →
    existing.version ≤ row.version
  wrote : ∀ {i : ℕ} {call : UpdateCall} {phase v}, a.calls[i]? = some (call, phase) → phase.version = some v →
    v ≤ row.version
  distinct : ∀ {i j : ℕ} {call call' : UpdateCall} {phase phase' v v'}, i ≠ j → a.calls[i]? = some (call, phase) →
    a.calls[j]? = some (call', phase') → phase.version = some v → phase'.version = some v' → v ≠ v'

/-- A write has been lost. -/
structure Behind (initial : Int) (row : GlobalFunction) (a : Phased) : Prop where
  version : row.version < initial + a.writers.length
  read : ∀ {i : ℕ} {call : UpdateCall} {existing}, a.calls[i]? = some (call, .writing existing) →
    existing.version < initial + a.writers.length

variable {initial : Int}

theorem Quiet.current (hq : Quiet tenantId rid row a a') (h : Current initial row a) : Current initial row a' where
  version := by
    rw [hq.writers]
    exact h.version
  read hi := by
    obtain ⟨hphase, -⟩ | ⟨phase, hi, -, hwriting⟩ := hq.earlier hi
    · cases hphase
    · obtain rfl | rfl := hwriting _ rfl
      · exact Int.le_refl _
      · exact h.read hi
  wrote hi hv := by
    obtain ⟨rfl, -⟩ | ⟨phase, hi, hsame, -⟩ := hq.earlier hi
    · cases hv
    · exact h.wrote hi (hsame ▸ hv)
  distinct hne hi hj hv hv' := by
    obtain ⟨rfl, -⟩ | ⟨phase, hi, hsame, -⟩ := hq.earlier hi
    · cases hv
    · obtain ⟨rfl, -⟩ | ⟨phase', hj, hsame', -⟩ := hq.earlier hj
      · cases hv'
      · exact h.distinct hne hi hj (hsame ▸ hv) (hsame' ▸ hv')

theorem Quiet.behind (hq : Quiet tenantId rid row a a') (h : Behind initial row a) : Behind initial row a' where
  version := by
    rw [hq.writers]
    exact h.version
  read hi := by
    rw [hq.writers]
    obtain ⟨hphase, -⟩ | ⟨phase, hi, -, hwriting⟩ := hq.earlier hi
    · cases hphase
    · obtain rfl | rfl := hwriting _ rfl
      · exact h.version
      · exact h.read hi

theorem Writes.length (hw : Writes i call existing a a') : (a'.writers.length : Int) = a.writers.length + 1 := by
  rw [hw.writers, List.length_append]
  rfl

theorem Writes.current (hw : Writes i call existing a a') (h : Current initial row a)
    (hsame : existing.version = row.version) :
    Current initial (row.set call.updates (existing.version + 1)) a' := by
  have hversion : (row.set call.updates (existing.version + 1)).version = row.version + 1 := by rw [hsame]; rfl
  have hnew : ∀ {j : ℕ} {other : UpdateCall} {phase v}, a'.calls[j]? = some (other, phase) → phase.version = some v →
      (j = i ∧ v = row.version + 1) ∨ (j ≠ i ∧ a.calls[j]? = some (other, phase)) := by
    intro j other phase v hj hv
    obtain ⟨rfl, -, rfl⟩ | ⟨hne, hj⟩ := hw.earlier hj
    · exact .inl ⟨rfl, hsame ▸ (Option.some.inj hv).symm⟩
    · exact .inr ⟨hne, hj⟩
  refine ⟨?_, ?_, ?_, ?_⟩
  · rw [hversion, hw.length, h.version]
    omega
  · intro j other existing' hj
    obtain ⟨-, -, hphase⟩ | ⟨-, hj⟩ := hw.earlier hj
    · cases hphase
    · have := h.read hj
      omega
  · intro j other phase v hj hv
    obtain ⟨-, rfl⟩ | ⟨-, hj⟩ := hnew hj hv
    · exact Int.le_of_eq hversion.symm
    · have := h.wrote hj hv
      omega
  · intro j k other other' phase phase' v v' hne hj hk hv hv'
    obtain ⟨rfl, rfl⟩ | ⟨-, hj⟩ := hnew hj hv <;> obtain ⟨rfl, rfl⟩ | ⟨-, hk⟩ := hnew hk hv'
    · exact absurd rfl hne
    · have := h.wrote hk hv'
      omega
    · have := h.wrote hj hv
      omega
    · exact h.distinct hne hj hk hv hv'

/-- A write that does not find what was read is lost. -/
theorem Writes.lost (hw : Writes i call existing a a') (h : Current initial row a)
    (hother : existing.version ≠ row.version) :
    Behind initial (row.set call.updates (existing.version + 1)) a' := by
  have hread := h.read hw.pending
  have hversion := h.version
  refine ⟨?_, fun {j other existing'} hj => ?_⟩
  · have hset : (row.set call.updates (existing.version + 1)).version = existing.version + 1 := rfl
    rw [hset, hw.length]
    omega
  · obtain ⟨-, -, hphase⟩ | ⟨-, hj⟩ := hw.earlier hj
    · cases hphase
    · have := h.read hj
      rw [hw.length]
      omega

theorem Writes.behind (hw : Writes i call existing a a') (h : Behind initial row a) :
    Behind initial (row.set call.updates (existing.version + 1)) a' := by
  have hread := h.read hw.pending
  refine ⟨?_, fun {j other existing'} hj => ?_⟩
  · have hset : (row.set call.updates (existing.version + 1)).version = existing.version + 1 := rfl
    rw [hset, hw.length]
    omega
  · obtain ⟨-, -, hphase⟩ | ⟨-, hj⟩ := hw.earlier hj
    · cases hphase
    · have := h.read hj
      rw [hw.length]
      omega

/-! ### All steps -/

/-- Only a write can miss the condition. -/
theorem not_writesCurrent {e : Turn UpdateCall} (h : ¬a.run.WritesCurrent e) :
    ∃ (i : ℕ) (call : UpdateCall) (existing row : GlobalFunction), e = .step i ∧ a.calls[i]? = some (call, .writing existing) ∧
      getByRid a.table call.rid call.tenantId = some row ∧ existing.version ≠ row.version := by
  by_contra hnone
  refine h fun caller rid tenantId updates version hissues row hrow => ?_
  cases e with
  | start call => cases hissues
  | step i =>
    cases hi : a.calls[i]? with
    | none => simp [Turn.event, Pool.issues, Pool.pending, run, hi] at hissues
    | some t =>
      obtain ⟨call, phase⟩ := t
      have hhead : ((phase.program call).head).map (call, ·) = some (caller, .update rid tenantId updates version) := by
        simpa [Turn.event, Pool.issues, Pool.pending, run, hi] using hissues
      cases phase with
      | writing existing =>
        cases hhead
        by_contra hother
        exact hnone ⟨i, caller, existing, row, rfl, hi, hrow, fun heq => hother (heq ▸ rfl)⟩
      | reading | rereading | returned | raised => cases hhead

theorem writesCurrent_write {e : Turn UpdateCall} (hcurrent : a.run.WritesCurrent e) (h : Steady tenantId rid row a)
    (he : e = .step i) (hi : a.calls[i]? = some (call, .writing existing)) : existing.version = row.version := by
  subst he
  obtain ⟨rfl, rfl⟩ := h.on hi
  have hissues : a.run.pool.issues (Turn.event (.step i)) =
      some (call, .update call.rid call.tenantId call.updates (existing.version + 1)) := by
    simp [Turn.event, Pool.issues, Pool.pending, run, hi]
    rfl
  have hversion := hcurrent _ _ _ _ _ hissues row h.found
  omega

/-- At the end of a run all writes have found what their calls had read, or one was lost. -/
theorem current_or_behind {es : List (Turn UpdateCall)} (h : Steady tenantId rid row a) (hcurrent : Current initial row a)
    (hon : StepsMeet Phased.next (fun a e => a.run.On tenantId rid e) a es) :
    (StepsMeet Phased.next (fun a e => a.run.WritesCurrent e) a es ∧
        ∃ row, Steady tenantId rid row (runFrom Phased.next a es) ∧ Current initial row (runFrom Phased.next a es)) ∨
      (¬StepsMeet Phased.next (fun a e => a.run.WritesCurrent e) a es ∧
        ∃ row, Steady tenantId rid row (runFrom Phased.next a es) ∧ Behind initial row (runFrom Phased.next a es)) := by
  refine StepsMeet.or_of_inv (A := fun a => ∃ row, Steady tenantId rid row a ∧ Current initial row a)
    (B := fun a => ∃ row, Steady tenantId rid row a ∧ Behind initial row a) ?_ ?_ ?_ ⟨row, h, hcurrent⟩ hon
  · rintro a e ⟨row, hsteady, hcurrent⟩ hon hmeets
    obtain hq | ⟨i, call, existing, he, hw⟩ := next_cases hsteady hon
    · exact ⟨row, hq.steady hsteady, hq.current hcurrent⟩
    · exact ⟨_, hw.steady hsteady, hw.current hcurrent (writesCurrent_write hmeets hsteady he hw.pending)⟩
  · rintro a e ⟨row, hsteady, hcurrent⟩ hon hmisses
    obtain ⟨i, call, existing, row', rfl, hi, hrow', hother⟩ := not_writesCurrent hmisses
    obtain ⟨rfl, rfl⟩ := hsteady.on hi
    obtain rfl := Option.some.inj (hsteady.found.symm.trans hrow')
    have hw : Writes i call existing a (a.next (.step i)) := by
      refine ⟨hi, ?_, ?_, ?_⟩ <;> simp only [next, hi] <;> rfl
    exact ⟨_, hw.steady hsteady, hw.lost hcurrent hother⟩
  · rintro a e ⟨row, hsteady, hbehind⟩ hon
    obtain hq | ⟨i, call, existing, he, hw⟩ := next_cases hsteady hon
    · exact ⟨row, hq.steady hsteady, hq.behind hbehind⟩
    · exact ⟨_, hw.steady hsteady, hw.behind hbehind⟩

theorem phase_of_pure {phase : Phase} {response : GlobalFunctionResponse} (h : phase.program call = .pure response) :
    phase = .returned response := by
  cases phase with
  | returned r =>
    cases h
    rfl
  | reading | writing | rereading | raised => cases h

theorem returned_iff {i : ℕ} {response : GlobalFunctionResponse} :
    a.run.pool.threads[i]? = some (call, .pure response) ↔ a.calls[i]? = some (call, .returned response) := by
  have hthread : a.run.pool.threads[i]? = (a.calls[i]?).map fun t => (t.1, t.2.program t.1) := List.getElem?_map
  rw [hthread, Option.map_eq_some_iff]
  constructor
  · rintro ⟨⟨call', phase⟩, hi, heq⟩
    obtain ⟨rfl, hpure⟩ := Prod.mk.inj heq
    obtain rfl : phase = .returned response := phase_of_pure hpure
    exact hi
  · exact fun hi => ⟨_, hi, rfl⟩

/-- When all calls have returned, each has written once. -/
theorem Steady.length_writers (h : Steady tenantId rid row a) (hreturned : a.run.Returned) :
    a.writers.length = a.calls.length := by
  have hperm : a.writers.Perm (List.range a.calls.length) := by
    refine (List.perm_ext_iff_of_nodup h.nodup List.nodup_range).mpr fun i => ?_
    rw [h.mem, List.mem_range]
    constructor
    · rintro ⟨call, phase, hi, -⟩
      exact (List.getElem?_eq_some_iff.mp hi).1
    · intro hlt
      obtain ⟨response, hpure⟩ := hreturned (a.calls[i].1, a.calls[i].2.program a.calls[i].1)
        (List.mem_map.mpr ⟨a.calls[i], List.getElem_mem hlt, rfl⟩)
      refine ⟨a.calls[i].1, a.calls[i].2, List.getElem?_eq_getElem hlt, ?_⟩
      rw [phase_of_pure hpure]
      rfl
  rw [hperm.length_eq, List.length_range]

theorem Current.countsUpdates (hcurrent : Current initial row a) (h : Steady tenantId rid row a)
    (hreturned : a.run.Returned) : a.run.CountsUpdates tenantId rid initial where
  version := by
    refine ⟨row, h.found, ?_⟩
    rw [hcurrent.version, h.length_writers hreturned]
    simp [run]
  distinct i j call call' response response' hne hi hj :=
    hcurrent.distinct hne (returned_iff.mp hi) (returned_iff.mp hj) rfl rfl
  kept i call p field value row' hi hset hrow := by
    obtain rfl := Option.some.inj (h.found.symm.trans hrow)
    obtain ⟨response, rfl⟩ : ∃ response, p = .pure response := hreturned _ (List.mem_of_getElem? hi)
    obtain hvalue | ⟨j, other, phase, hj, hoverwrites, hafter⟩ := h.kept (returned_iff.mp hi) rfl field value hset
    · exact .inl hvalue
    · refine .inr ⟨j, other, phase.program other, ?_, hoverwrites, hafter⟩
      exact (List.getElem?_map).trans (congrArg _ hj)

theorem Behind.not_countsUpdates (hbehind : Behind initial row a) (h : Steady tenantId rid row a)
    (hreturned : a.run.Returned) : ¬a.run.CountsUpdates tenantId rid initial := by
  rintro ⟨⟨row', hrow, hversion⟩, -, -⟩
  obtain rfl := Option.some.inj (h.found.symm.trans hrow)
  have hlength : a.run.pool.threads.length = a.writers.length := by
    rw [h.length_writers hreturned]
    simp [run]
  have hless := hbehind.version
  rw [hversion, hlength] at hless
  omega

end Phased

/-- Calls on one function, that is registered, have all returned: the version counts them, they have returned different
versions, and no change is lost, if and only if every write has found the version that its call had read. -/
theorem countsUpdates_iff {tenantId rid : String} {table : List GlobalFunction} {row : GlobalFunction}
    (hrow : getByRid table rid tenantId = some row) {es : List (Turn UpdateCall)}
    (hon : StepsMeet UpdateRun.next (UpdateRun.On tenantId rid) ⟨⟨table, []⟩, []⟩ es)
    (hreturned : (runFrom UpdateRun.next ⟨⟨table, []⟩, []⟩ es).Returned) :
    (runFrom UpdateRun.next ⟨⟨table, []⟩, []⟩ es).CountsUpdates tenantId rid row.version ↔
      StepsMeet UpdateRun.next UpdateRun.WritesCurrent ⟨⟨table, []⟩, []⟩ es := by
  have hrun : (Phased.mk table [] []).run = ⟨⟨table, []⟩, []⟩ := rfl
  rw [← hrun] at hon hreturned ⊢
  rw [← runFrom_lift Phased.run_next] at hreturned ⊢
  rw [← StepsMeet.lift_iff Phased.run_next] at hon ⊢
  have hsteady : Phased.Steady tenantId rid row ⟨table, [], []⟩ :=
    ⟨hrow, by simp, List.nodup_nil, by simp, by simp⟩
  have hcurrent : Phased.Current row.version row ⟨table, [], []⟩ := ⟨by simp, by simp, by simp, by simp⟩
  obtain ⟨hall, row', hsteady', hcurrent'⟩ | ⟨hnot, row', hsteady', hbehind⟩ :=
    Phased.current_or_behind hsteady hcurrent hon
  · exact iff_of_true (hcurrent'.countsUpdates hsteady' hreturned) hall
  · exact iff_of_false (hbehind.not_countsUpdates hsteady' hreturned) hnot

/-! ## Two calls -/

def scoreFunction : GlobalFunction where
  rid := "ri.func.1"
  tenantId := "ri.tenant.1"
  apiName := "score"
  displayName := "Score"
  description := none
  parameters := []
  implementation := []
  version := 1
  isActive := true

def rename : UpdateCall := ⟨"ri.tenant.1", "ri.func.1", { displayName := some "Rating" }⟩

def describe : UpdateCall := ⟨"ri.tenant.1", "ri.func.1", { description := some "Rates a customer." }⟩

/-- One call after the other. -/
def inTurn : List (Turn UpdateCall) :=
  [.start rename, .step 0, .step 0, .step 0, .start describe, .step 1, .step 1, .step 1]

/-- Both calls read the row before either of them writes it. -/
def overlapping : List (Turn UpdateCall) :=
  [.start rename, .start describe, .step 0, .step 1, .step 0, .step 1, .step 0, .step 1]

theorem returned_of_map {w : UpdateRun} (responses : List (UpdateCall × GlobalFunctionResponse))
    (h : w.pool.threads = responses.map fun r => (r.1, .pure r.2)) : w.Returned := by
  intro t ht
  rw [h] at ht
  obtain ⟨r, -, rfl⟩ := List.mem_map.mp ht
  exact ⟨r.2, rfl⟩

theorem getByRid_scoreFunction : getByRid [scoreFunction] "ri.func.1" "ri.tenant.1" = some scoreFunction := rfl

theorem countsUpdates_iff_inTurn :
    (runFrom UpdateRun.next ⟨⟨[scoreFunction], []⟩, []⟩ inTurn).CountsUpdates "ri.tenant.1" "ri.func.1" 1 ↔
      StepsMeet UpdateRun.next UpdateRun.WritesCurrent ⟨⟨[scoreFunction], []⟩, []⟩ inTurn :=
  countsUpdates_iff getByRid_scoreFunction
    ⟨⟨rfl, rfl⟩, trivial, trivial, trivial, ⟨rfl, rfl⟩, trivial, trivial, trivial, trivial⟩
    (returned_of_map [(rename, toResponse (rename.held scoreFunction)),
      (describe, toResponse (describe.held (rename.held scoreFunction)))] rfl)

/-- Both calls return version 2, and it is the version at the end. -/
theorem overlapping_lost :
    (runFrom UpdateRun.next ⟨⟨[scoreFunction], []⟩, []⟩ overlapping).Returned ∧
      ¬(runFrom UpdateRun.next ⟨⟨[scoreFunction], []⟩, []⟩ overlapping).CountsUpdates "ri.tenant.1" "ri.func.1" 1 := by
  constructor
  · exact returned_of_map [(rename, toResponse (rename.held scoreFunction)),
      (describe, toResponse (describe.held scoreFunction))] rfl
  · intro h
    obtain ⟨row, hrow, hversion⟩ := h.version
    have htwo : (getByRid (runFrom UpdateRun.next ⟨⟨[scoreFunction], []⟩, []⟩ overlapping).pool.state "ri.func.1"
        "ri.tenant.1").map GlobalFunction.version = some 2 := rfl
    rw [hrow, Option.map_some, hversion] at htwo
    cases htwo

end Lingshu.Function.Globals
