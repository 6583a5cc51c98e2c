import Lingshu.Copilot.Schema
import Lingshu.Interaction.Until
import Mathlib.Data.List.Nodup

/-! # Base models

`ModelManager` over the table of models, its queries taken in any order. Making a model the default clears the others in
one query and sets the new one in a later query. -/
namespace Lingshu.Copilot
open Interaction Json
set_option autoImplicit false

/-! ## The table -/

/-- `CopilotModel`; its times are read by no method here. -/
structure CopilotModel where
  rid : String
  tenantId : String
  apiName : String
  displayName : String
  provider : String
  connection : Assoc Value
  parameters : Assoc Value
  isDefault : Bool

/-- The rows, with their primary key. -/
structure ModelTable where
  rows : List CopilotModel
  keys : (rows.map CopilotModel.rid).Nodup

/-- The fields that `UpdateModelRequest` leaves in a dict of updates. -/
structure ModelUpdates where
  displayName : Option String := none
  provider : Option String := none
  connection : Option (Assoc Value) := none
  parameters : Option (Assoc Value) := none
  isDefault : Option Bool := none

def CopilotModel.set (updates : ModelUpdates) (m : CopilotModel) : CopilotModel :=
  { m with
    displayName := updates.displayName.getD m.displayName
    provider := updates.provider.getD m.provider
    connection := updates.connection.getD m.connection
    parameters := updates.parameters.getD m.parameters
    isDefault := updates.isDefault.getD m.isDefault }

inductive ModelError where
  /-- `COMMON_NOT_FOUND`. -/
  | notFound (message : String)
  | integrityError
  | multipleResultsFound
  deriving DecidableEq

namespace ModelTable

/-- Rows that a query replaces by rows with the same key. -/
def update (s : ModelTable) (f : CopilotModel → CopilotModel) (hf : ∀ m, (f m).rid = m.rid) : ModelTable where
  rows := s.rows.map f
  keys := by
    have hkeys : s.rows.map (CopilotModel.rid ∘ f) = s.rows.map CopilotModel.rid := List.map_congr_left fun m _ => hf m
    rw [List.map_map, hkeys]
    exact s.keys

/-- `is_default = false` for the defaults of the tenant. -/
def clearDefaults (s : ModelTable) (tenantId : String) : ModelTable :=
  s.update (fun m => if m.tenantId = tenantId ∧ m.isDefault then { m with isDefault := false } else m) fun m => by
    split <;> rfl

/-- `session.add` and `flush`. -/
def add (s : ModelTable) (m : CopilotModel) : Except ModelError ModelTable :=
  if h : m.rid ∉ s.rows.map CopilotModel.rid then
    .ok ⟨s.rows ++ [m], by
      rw [List.map_append, List.map_singleton]
      exact List.nodup_append.mpr ⟨s.keys, List.nodup_singleton _, fun a ha b hb hab =>
        h (List.mem_singleton.mp hb ▸ hab ▸ ha)⟩⟩
  else .error .integrityError

/-- The values of the row with the rid, if it is the tenant's. -/
def setValues (s : ModelTable) (rid tenantId : String) (updates : ModelUpdates) : ModelTable :=
  s.update (fun m => if m.rid = rid ∧ m.tenantId = tenantId then m.set updates else m) fun m => by
    split <;> rfl

def find (s : ModelTable) (rid tenantId : String) : Option CopilotModel :=
  s.rows.find? fun m => m.rid = rid ∧ m.tenantId = tenantId

def defaults (s : ModelTable) (tenantId : String) : List CopilotModel :=
  s.rows.filter fun m => m.tenantId = tenantId ∧ m.isDefault

/-- `get_default`; `scalar_one_or_none` raises on a second row. -/
def getDefault (s : ModelTable) (tenantId : String) : Except ModelError (Option CopilotModel) :=
  match s.defaults tenantId with
  | [] => .ok none
  | [m] => .ok (some m)
  | _ => .error .multipleResultsFound

/-- The default flags of all models. -/
def flags (s : ModelTable) : List (String × Bool) := s.rows.map fun m => (m.rid, m.isDefault)

end ModelTable

/-! ## The methods -/

/-- The queries; each takes effect at once. -/
inductive ModelCmd where
  | clearDefaults (tenantId : String)
  | add (m : CopilotModel)
  | setValues (rid tenantId : String) (updates : ModelUpdates)
  | find (rid tenantId : String)

def ModelCmd.Answer : ModelCmd → Type
  | .find .. => Option CopilotModel
  | _ => Unit

def ModelCmd.exec : (c : ModelCmd) → ModelTable → Except ModelError c.Answer × ModelTable
  | .clearDefaults tenantId, s => (.ok (), s.clearDefaults tenantId)
  | .add m, s =>
    match s.add m with
    | .ok s' => (.ok (), s')
    | .error e => (.error e, s)
  | .setValues rid tenantId updates, s => (.ok (), s.setValues rid tenantId updates)
  | .find rid tenantId, s => (.ok (s.find rid tenantId), s)

abbrev ModelProgram (α : Type) := Prog ModelCmd ModelCmd.Answer ModelError α

def query (c : ModelCmd) : ModelProgram c.Answer := Prog.perform c

/-- A call of `register`, with the rid that `generate_rid` returns, or of `update`. -/
inductive ModelCall where
  | register (m : CopilotModel)
  | update (tenantId rid : String) (updates : ModelUpdates)

/-- `register` from the insert on. -/
def addModel (m : CopilotModel) : ModelProgram CopilotModel := do
  let _ ← (query (.add m) : ModelProgram Unit)
  return m

/-- `get`. -/
def getModel (rid tenantId : String) : ModelProgram CopilotModel := do
  let found ← (query (.find rid tenantId) : ModelProgram (Option CopilotModel))
  match found with
  | some m => return m
  | none => .throw (.notFound ("Model " ++ rid ++ " not found"))

/-- `update` from the second query on. -/
def writeModel (tenantId rid : String) (updates : ModelUpdates) : ModelProgram CopilotModel := do
  let _ ← (query (.setValues rid tenantId updates) : ModelProgram Unit)
  getModel rid tenantId

/-- Setting as default: clear existing defaults. -/
def clearFirst (makesDefault : Bool) (tenantId : String) (rest : ModelProgram CopilotModel) :
    ModelProgram CopilotModel :=
  if makesDefault then do
    let _ ← (query (.clearDefaults tenantId) : ModelProgram Unit)
    rest
  else rest

def ModelCall.program : ModelCall → ModelProgram CopilotModel
  | .register m => clearFirst m.isDefault m.tenantId (addModel m)
  | .update tenantId rid updates => clearFirst (updates.isDefault.getD false) tenantId (writeModel tenantId rid updates)

/-! ## Calls in any order -/

/-- Calls of the methods, for any tenants, on one table. -/
def managers : System ModelCmd ModelCmd.Answer ModelError ModelTable CopilotModel ModelCall Empty where
  handler := ModelCmd.exec
  program := ModelCall.program
  env v _ := v.elim

abbrev ModelPool := Pool ModelCmd ModelCmd.Answer ModelError ModelTable CopilotModel ModelCall

abbrev ModelEvent := Turn ModelCall

/-- The calls, and those of them a query of which has changed the default flag of some model. -/
structure ModelRun where
  pool : ModelPool
  flippers : List ℕ

def ModelRun.next (w : ModelRun) (e : ModelEvent) : ModelRun where
  pool := managers.next w.pool e.event
  flippers :=
    match e with
    | .start _ => w.flippers
    | .step i => if (managers.next w.pool e.event).state.flags = w.pool.state.flags then w.flippers else i :: w.flippers

/-- At most one default in each tenant, which `get_default` returns, and no call that raised `NOT_FOUND` has changed a
flag. -/
structure OneDefault (w : ModelRun) : Prop where
  unique : ∀ tenantId, (w.pool.state.defaults tenantId).length ≤ 1
  returned : ∀ tenantId, w.pool.state.getDefault tenantId = .ok (w.pool.state.defaults tenantId).head?
  untouched : ∀ i call message, w.pool.threads[i]? = some (call, .throw (.notFound message)) → i ∉ w.flippers

/-- The condition on a query of a call: a query that makes a model the default finds no other default in the tenant, and
one that clears the defaults for an update finds its model, or no default. -/
def Careful (s : ModelTable) : ModelCall × ModelCmd → Prop
  | (_, .add m) => m.isDefault = true → s.defaults m.tenantId = []
  | (_, .setValues rid tenantId updates) =>
    updates.isDefault = some true → s.find rid tenantId ≠ none → ∀ m ∈ s.defaults tenantId, m.rid = rid
  | (.update _ rid _, .clearDefaults tenantId) => s.find rid tenantId ≠ none ∨ s.defaults tenantId = []
  | _ => True

instance Careful.decidable (s : ModelTable) : ∀ q, Decidable (Careful s q)
  | (_, .add m) => inferInstanceAs (Decidable (m.isDefault = true → s.defaults m.tenantId = []))
  | (_, .setValues rid tenantId updates) => inferInstanceAs (Decidable
    (updates.isDefault = some true → s.find rid tenantId ≠ none → ∀ m ∈ s.defaults tenantId, m.rid = rid))
  | (.update _ rid _, .clearDefaults tenantId) =>
    inferInstanceAs (Decidable (s.find rid tenantId ≠ none ∨ s.defaults tenantId = []))
  | (.register _, .clearDefaults _) | (_, .find ..) => inferInstanceAs (Decidable True)

/-- The step meets the condition. -/
def ModelRun.StepsCarefully (w : ModelRun) (e : ModelEvent) : Prop :=
  ∀ q, w.pool.issues e.event = some q → Careful w.pool.state q

instance ModelRun.StepsCarefully.decidable (w : ModelRun) (e : ModelEvent) : Decidable (w.StepsCarefully e) :=
  match h : w.pool.issues e.event with
  | none => isTrue fun _ hq => nomatch h.symm.trans hq
  | some q => decidable_of_iff (Careful w.pool.state q)
    ⟨fun hc _ hq => Option.some.inj (h.symm.trans hq) ▸ hc, fun hc => hc q h⟩

/-! ## The queries -/

namespace ModelTable
variable {s s' : ModelTable} {tenantId rid : String} {m m' : CopilotModel} {updates : ModelUpdates}

theorem mem_defaults : m ∈ s.defaults tenantId ↔ m ∈ s.rows ∧ m.tenantId = tenantId ∧ m.isDefault = true := by
  rw [defaults, List.mem_filter, decide_eq_true_iff]

theorem find_ne_none_iff : s.find rid tenantId ≠ none ↔ ∃ m ∈ s.rows, m.rid = rid ∧ m.tenantId = tenantId := by
  simp [find]

/-- By the key, one default at most is the same as one rid at most. -/
theorem defaults_length_le_one_iff :
    (s.defaults tenantId).length ≤ 1 ↔ ∀ m ∈ s.defaults tenantId, ∀ m' ∈ s.defaults tenantId, m.rid = m'.rid := by
  have hkeys : ((s.defaults tenantId).map CopilotModel.rid).Nodup := s.keys.sublist (List.filter_sublist.map _)
  constructor
  · intro h m hm m' hm'
    match hd : s.defaults tenantId, hm, hm' with
    | [_], hm, hm' => rw [List.mem_singleton.mp hm, List.mem_singleton.mp hm']
    | _ :: _ :: _, _, _ => simp [hd] at h
  · intro h
    match hd : s.defaults tenantId with
    | [] | [_] => simp
    | a :: b :: rest =>
      rw [hd] at hkeys h
      have hab : a.rid = b.rid := h a (by simp) b (by simp)
      simp [hab] at hkeys

theorem getDefault_of_unique (h : (s.defaults tenantId).length ≤ 1) :
    s.getDefault tenantId = .ok (s.defaults tenantId).head? := by
  unfold getDefault
  match hd : s.defaults tenantId with
  | [] | [_] => rfl
  | _ :: _ :: _ => simp [hd] at h

theorem mem_clearDefaults : m ∈ (s.clearDefaults tenantId).rows ↔ ∃ m₀ ∈ s.rows,
    (if m₀.tenantId = tenantId ∧ m₀.isDefault then { m₀ with isDefault := false } else m₀) = m := List.mem_map

/-- Clearing takes defaults away. -/
theorem defaults_clearDefaults {tenantId' : String} (h : m ∈ (s.clearDefaults tenantId).defaults tenantId') :
    m ∈ s.defaults tenantId' ∧ tenantId' ≠ tenantId := by
  obtain ⟨hm, htenant, hdefault⟩ := mem_defaults.mp h
  obtain ⟨m₀, hm₀, rfl⟩ := mem_clearDefaults.mp hm
  by_cases hcleared : m₀.tenantId = tenantId ∧ m₀.isDefault
  · rw [if_pos hcleared] at hdefault
    cases hdefault
  · rw [if_neg hcleared] at htenant hdefault ⊢
    refine ⟨mem_defaults.mpr ⟨hm₀, htenant, hdefault⟩, ?_⟩
    rintro rfl
    exact hcleared ⟨htenant, hdefault⟩

theorem clearDefaults_of_none (h : s.defaults tenantId = []) : (s.clearDefaults tenantId).rows = s.rows := by
  refine (List.map_congr_left fun m hm => ?_).trans (List.map_id _)
  refine if_neg fun hdefault => ?_
  exact List.not_mem_nil (h ▸ mem_defaults.mpr ⟨hm, hdefault⟩)

theorem mem_setValues : m ∈ (s.setValues rid tenantId updates).rows ↔
    ∃ m₀ ∈ s.rows, (if m₀.rid = rid ∧ m₀.tenantId = tenantId then m₀.set updates else m₀) = m := List.mem_map

/-- A default after the update was one before, or is the model that the update makes the default. -/
theorem defaults_setValues {tenantId' : String} (h : m ∈ (s.setValues rid tenantId updates).defaults tenantId') :
    (∃ m₀ ∈ s.defaults tenantId', m₀.rid = m.rid) ∨
      m.rid = rid ∧ tenantId' = tenantId ∧ updates.isDefault = some true ∧ s.find rid tenantId ≠ none := by
  obtain ⟨hm, htenant, hdefault⟩ := mem_defaults.mp h
  obtain ⟨m₀, hm₀, rfl⟩ := mem_setValues.mp hm
  by_cases htarget : m₀.rid = rid ∧ m₀.tenantId = tenantId
  · rw [if_pos htarget] at htenant hdefault ⊢
    cases hupdates : updates.isDefault with
    | none =>
      have hsame : m₀.isDefault = true := by simpa [CopilotModel.set, hupdates] using hdefault
      exact .inl ⟨m₀, mem_defaults.mpr ⟨hm₀, htenant, hsame⟩, rfl⟩
    | some isDefault =>
      obtain rfl : isDefault = true := by simpa [CopilotModel.set, hupdates] using hdefault
      exact .inr ⟨htarget.1, htenant.symm.trans htarget.2, rfl, find_ne_none_iff.mpr ⟨m₀, hm₀, htarget⟩⟩
  · rw [if_neg htarget] at htenant hdefault ⊢
    exact .inl ⟨m₀, mem_defaults.mpr ⟨hm₀, htenant, hdefault⟩, rfl⟩

theorem setValues_of_none (h : s.find rid tenantId = none) : (s.setValues rid tenantId updates).rows = s.rows := by
  refine (List.map_congr_left fun m hm => ?_).trans (List.map_id _)
  exact if_neg fun htarget => find_ne_none_iff.mpr ⟨m, hm, htarget⟩ h

theorem add_ok (h : s.add m = .ok s') : s'.rows = s.rows ++ [m] := by
  unfold add at h
  split at h
  · obtain rfl := Except.ok.inj h
    rfl
  · cases h

theorem find_clearDefaults {tenantId' : String} (h : s.find rid tenantId ≠ none) :
    (s.clearDefaults tenantId').find rid tenantId ≠ none := by
  obtain ⟨m, hm, hrid, htenant⟩ := find_ne_none_iff.mp h
  refine find_ne_none_iff.mpr ⟨_, mem_clearDefaults.mpr ⟨m, hm, rfl⟩, ?_⟩
  split <;> exact ⟨hrid, htenant⟩

theorem find_setValues {rid' tenantId' : String} (h : s.find rid tenantId ≠ none) :
    (s.setValues rid' tenantId' updates).find rid tenantId ≠ none := by
  obtain ⟨m, hm, hrid, htenant⟩ := find_ne_none_iff.mp h
  refine find_ne_none_iff.mpr ⟨_, mem_setValues.mpr ⟨m, hm, rfl⟩, ?_⟩
  split <;> exact ⟨hrid, htenant⟩

theorem find_add (hadd : s.add m = .ok s') (h : s.find rid tenantId ≠ none) : s'.find rid tenantId ≠ none := by
  obtain ⟨m', hm', hfound⟩ := find_ne_none_iff.mp h
  refine find_ne_none_iff.mpr ⟨m', ?_, hfound⟩
  rw [add_ok hadd]
  exact List.mem_append_left _ hm'

theorem add_error {e : ModelError} (h : s.add m = .error e) : e = .integrityError := by
  unfold add at h
  split at h
  · cases h
  · exact (Except.error.inj h).symm

theorem flags_congr (h : s'.rows = s.rows) : s'.flags = s.flags := by rw [flags, flags, h]

/-- At most one default in each tenant. -/
def Unique (s : ModelTable) : Prop := ∀ tenantId, (s.defaults tenantId).length ≤ 1

end ModelTable

section Queries
variable {s : ModelTable} {call : ModelCall} {rid tenantId : String}

theorem ModelCmd.exec_add (m : CopilotModel) (s : ModelTable) :
    (∃ s', s.add m = .ok s' ∧ (ModelCmd.add m).exec s = (.ok (), s')) ∨
      (ModelCmd.add m).exec s = (.error .integrityError, s) := by
  cases hadd : s.add m with
  | ok s' => exact .inl ⟨s', rfl, by simp only [exec, hadd]⟩
  | error e =>
    obtain rfl := ModelTable.add_error hadd
    exact .inr (by simp only [exec, hadd])

/-- What is found goes on being found. -/
theorem ModelCmd.exec_find (c : ModelCmd) (h : s.find rid tenantId ≠ none) :
    (c.exec s).2.find rid tenantId ≠ none := by
  cases c with
  | clearDefaults => exact ModelTable.find_clearDefaults h
  | setValues => exact ModelTable.find_setValues h
  | find => exact h
  | add m =>
    rcases ModelCmd.exec_add m s with ⟨s', hadd, hexec⟩ | hexec
    · rw [hexec]
      exact ModelTable.find_add hadd h
    · rwa [hexec]

theorem ModelCmd.exec_unique {c : ModelCmd} (h : s.Unique) (hc : Careful s (call, c)) : (c.exec s).2.Unique := by
  intro tenantId
  cases c with
  | find => exact h tenantId
  | clearDefaults =>
    refine ModelTable.defaults_length_le_one_iff.mpr fun m hm m' hm' => ?_
    exact ModelTable.defaults_length_le_one_iff.mp (h tenantId) m (ModelTable.defaults_clearDefaults hm).1 m'
      (ModelTable.defaults_clearDefaults hm').1
  | setValues rid tenantId' updates =>
    have hsame := ModelTable.defaults_length_le_one_iff.mp (h tenantId)
    refine ModelTable.defaults_length_le_one_iff.mpr fun m hm m' hm' => ?_
    -- the model that becomes the default was the only one, if there was one
    rcases ModelTable.defaults_setValues hm with ⟨m₀, hm₀, hrid⟩ | ⟨hrid, rfl, hset, hfound⟩ <;>
      rcases ModelTable.defaults_setValues hm' with ⟨m₀', hm₀', hrid'⟩ | ⟨hrid', hsame', hset', hfound'⟩
    · rw [← hrid, ← hrid']
      exact hsame m₀ hm₀ m₀' hm₀'
    · subst hsame'
      rw [← hrid, hrid']
      exact hc hset' hfound' m₀ hm₀
    · rw [hrid, ← hrid']
      exact (hc hset hfound m₀' hm₀').symm
    · rw [hrid, hrid']
  | add m =>
    rcases ModelCmd.exec_add m s with ⟨s', hadd, hexec⟩ | hexec
    case inr =>
      rw [hexec]
      exact h tenantId
    have hdefaults : s'.defaults tenantId =
        s.defaults tenantId ++ [m].filter fun m => m.tenantId = tenantId ∧ m.isDefault := by
      rw [ModelTable.defaults, ModelTable.add_ok hadd, List.filter_append]
      rfl
    rw [hexec, hdefaults]
    by_cases hm : m.tenantId = tenantId ∧ m.isDefault = true
    · obtain ⟨rfl, hdefault⟩ := hm
      rw [hc hdefault]
      exact List.length_filter_le _ _
    · rw [List.filter_cons_of_neg (by simpa using hm), List.filter_nil, List.append_nil]
      exact h tenantId

end Queries

/-! ## The stages of a call -/

/-- A call, what is left of its program, and whether it is still to change a flag. -/
inductive Stage (s : ModelTable) (calm : Prop) : ModelCall → ModelProgram CopilotModel → Prop where
  | clearing {call : ModelCall} (h : calm) : Stage s calm call call.program
  | adding (m : CopilotModel) : Stage s calm (.register m) (addModel m)
  | writing {tenantId rid : String} {updates : ModelUpdates} (h : calm ∨ s.find rid tenantId ≠ none) :
      Stage s calm (.update tenantId rid updates) (writeModel tenantId rid updates)
  | reading {tenantId rid : String} {updates : ModelUpdates} (h : calm ∨ s.find rid tenantId ≠ none) :
      Stage s calm (.update tenantId rid updates) (getModel rid tenantId)
  | missing {call : ModelCall} {message : String} (h : calm) : Stage s calm call (.throw (.notFound message))
  | refused {call : ModelCall} : Stage s calm call (.throw .integrityError)
  | returned {call : ModelCall} (m : CopilotModel) : Stage s calm call (.pure m)

section Stages
variable {s s' : ModelTable} {calm calm' : Prop} {call : ModelCall} {p : ModelProgram CopilotModel}

/-- The steps of the others. -/
theorem Stage.mono (h : Stage s calm call p) (hcalm : calm → calm')
    (hfind : ∀ rid tenantId, s.find rid tenantId ≠ none → s'.find rid tenantId ≠ none) : Stage s' calm' call p := by
  cases h with
  | clearing h => exact .clearing (hcalm h)
  | adding m => exact .adding m
  | writing h => exact .writing (h.imp hcalm (hfind _ _))
  | reading h => exact .reading (h.imp hcalm (hfind _ _))
  | missing h => exact .missing (hcalm h)
  | refused => exact .refused
  | returned m => exact .returned m

theorem Stage.untouched {message : String} (h : Stage s calm call p) (hp : p = .throw (.notFound message)) : calm := by
  cases h with
  | clearing h | missing h => exact h
  | adding | writing | reading | refused | returned => cases hp

theorem answer_addModel_ok {m : CopilotModel} (h : (ModelCmd.add m).exec s = (.ok (), s')) :
    managers.answer s (addModel m) = .pure m := by
  simp only [System.answer, addModel, query, Prog.perform, Prog.bind_eq, Prog.call_bind, managers, h]
  rfl

theorem answer_addModel_error {m : CopilotModel} {e : ModelError} (h : (ModelCmd.add m).exec s = (.error e, s)) :
    managers.answer s (addModel m) = .throw e := by
  simp only [System.answer, addModel, query, Prog.perform, Prog.bind_eq, Prog.call_bind, managers, h, Prog.throw_bind]

theorem answer_getModel_some {rid tenantId : String} {m : CopilotModel} (h : s.find rid tenantId = some m) :
    managers.answer s (getModel rid tenantId) = .pure m := by
  simp only [System.answer, getModel, query, Prog.perform, Prog.bind_eq, Prog.call_bind, managers, ModelCmd.exec,
    h]
  rfl

theorem answer_getModel_none {rid tenantId : String} (h : s.find rid tenantId = none) :
    managers.answer s (getModel rid tenantId) = .throw (.notFound ("Model " ++ rid ++ " not found")) := by
  simp only [System.answer, getModel, query, Prog.perform, Prog.bind_eq, Prog.call_bind, managers, ModelCmd.exec,
    h]
  rfl

/-- The step of a call: its query, against the condition, takes it to the next stage. -/
theorem Stage.answer (h : Stage s calm call p) (hcareful : ∀ c, p.head = some c → Careful s (call, c))
    (hcalm : calm → (managers.execute s (p.head.map (call, ·))).flags = s.flags → calm') :
    Stage (managers.execute s (p.head.map (call, ·))) calm' call (managers.answer s p) := by
  have hadding : ∀ m, call = .register m → p = addModel m →
      Stage (managers.execute s (p.head.map (call, ·))) calm' call (managers.answer s p) := by
    rintro m rfl rfl
    rcases ModelCmd.exec_add m s with ⟨s', -, hexec⟩ | hexec
    · rw [answer_addModel_ok hexec]
      exact .returned m
    · rw [answer_addModel_error hexec]
      exact .refused
  have hwriting : ∀ tenantId rid updates, calm ∨ s.find rid tenantId ≠ none → call = .update tenantId rid updates →
      p = writeModel tenantId rid updates →
      Stage (managers.execute s (p.head.map (call, ·))) calm' call (managers.answer s p) := by
    rintro tenantId rid updates hcalmly rfl rfl
    refine .reading ?_
    by_cases hfound : s.find rid tenantId = none
    · refine .inl (hcalm (hcalmly.resolve_right fun hne => hne hfound) ?_)
      exact ModelTable.flags_congr (ModelTable.setValues_of_none hfound)
    · exact .inr (ModelTable.find_setValues hfound)
  cases h with
  | adding m => exact hadding m rfl rfl
  | writing h => exact hwriting _ _ _ h rfl rfl
  | @reading tenantId rid updates h =>
    cases hfound : s.find rid tenantId with
    | none =>
      rw [answer_getModel_none hfound]
      exact .missing (hcalm (h.resolve_right fun hne => hne hfound) rfl)
    | some m =>
      rw [answer_getModel_some hfound]
      exact .returned m
  | missing h => exact .missing (hcalm h rfl)
  | refused => exact .refused
  | returned m => exact .returned m
  | clearing h =>
    cases call with
    | register m =>
      cases hdefault : m.isDefault with
      | true =>
        have hprogram : (ModelCall.register m).program = clearFirst true m.tenantId (addModel m) := by
          rw [ModelCall.program, hdefault]
        rw [hprogram]
        exact .adding m
      | false =>
        refine hadding m rfl ?_
        rw [ModelCall.program, hdefault]
        rfl
    | update tenantId rid updates =>
      cases hdefault : updates.isDefault.getD false with
      | true =>
        have hprogram : (ModelCall.update tenantId rid updates).program =
            clearFirst true tenantId (writeModel tenantId rid updates) := by
          rw [ModelCall.program, hdefault]
        rw [hprogram] at hcareful hcalm ⊢
        refine .writing ?_
        rcases hcareful _ rfl with hfound | hnone
        · exact .inr (ModelTable.find_clearDefaults hfound)
        · exact .inl (hcalm h (ModelTable.flags_congr (ModelTable.clearDefaults_of_none hnone)))
      | false =>
        refine hwriting tenantId rid updates (.inl h) rfl ?_
        rw [ModelCall.program, hdefault]
        rfl

end Stages

/-! ## All calls -/

/-- What the steps of a run keep. -/
structure Kept (w : ModelRun) : Prop where
  unique : w.pool.state.Unique
  stage : ∀ i call p, w.pool.threads[i]? = some (call, p) → Stage w.pool.state (i ∉ w.flippers) call p
  flippers : ∀ i ∈ w.flippers, i < w.pool.threads.length

theorem Kept.oneDefault {w : ModelRun} (h : Kept w) : OneDefault w where
  unique := h.unique
  returned tenantId := ModelTable.getDefault_of_unique (h.unique tenantId)
  untouched i call _ hi := (h.stage i call _ hi).untouched rfl

theorem Kept.next {w : ModelRun} {e : ModelEvent} (h : Kept w) (hcareful : w.StepsCarefully e) : Kept (w.next e) := by
  cases e with
  | start call =>
    refine ⟨h.unique, ?_, fun i hi => ?_⟩
    · intro i call' p hi
      rcases Nat.lt_or_ge i w.pool.threads.length with hlt | hge
      · exact h.stage i call' p ((List.getElem?_append_left hlt).symm.trans hi)
      · have hlast : (w.pool.threads ++ [(call, call.program)])[i]? = some (call', p) := hi
        rw [List.getElem?_append_right hge] at hlast
        obtain ⟨rfl, rfl⟩ := Prod.mk.inj (List.mem_singleton.mp (List.mem_of_getElem? hlast))
        exact .clearing fun hmem => Nat.not_lt.mpr hge (h.flippers i hmem)
    · exact Nat.lt_of_lt_of_le (h.flippers i hi) (List.length_append ▸ Nat.le_add_right _ _)
  | step i =>
    cases hi : w.pool.threads[i]? with
    | none =>
      have hnext : w.next (.step i) = w := by
        have hpool : managers.next w.pool (.step i) = w.pool := System.next_step_of_none managers hi
        simp only [ModelRun.next, Turn.event, hpool, if_true]
      rwa [hnext]
    | some t =>
      obtain ⟨call, p⟩ := t
      have hpool := System.next_step managers hi
      have hissues : ∀ c, p.head = some c → Careful w.pool.state (call, c) := fun c hc =>
        hcareful (call, c) (by simp [Pool.issues, Pool.pending, Turn.event, hi, hc])
      have hflippers : (w.next (.step i)).flippers =
          if (managers.execute w.pool.state (p.head.map (call, ·))).flags = w.pool.state.flags then w.flippers
          else i :: w.flippers := by
        simp only [ModelRun.next, Turn.event, hpool]
      have hmono : ∀ j ∈ (w.next (.step i)).flippers, j = i ∨ j ∈ w.flippers := by
        intro j hj
        rw [hflippers] at hj
        split at hj
        · exact .inr hj
        · exact List.mem_cons.mp hj
      have hstate : (w.next (.step i)).pool.state = managers.execute w.pool.state (p.head.map (call, ·)) :=
        congrArg Pool.state hpool
      refine ⟨?_, ?_, ?_⟩
      · rw [hstate]
        cases hc : p.head with
        | none => exact h.unique
        | some c => exact c.exec_unique h.unique (hissues c hc)
      · intro j call' p' hj
        have hj' : (w.pool.threads.set i (call, managers.answer w.pool.state p))[j]? = some (call', p') := by
          rw [← hj]
          exact congrArg (fun q : ModelPool => q.threads[j]?) hpool.symm
        rw [hstate]
        by_cases hij : i = j
        · subst hij
          rw [List.getElem?_set_self (List.getElem?_eq_some_iff.mp hi).1] at hj'
          obtain ⟨rfl, rfl⟩ := Prod.mk.inj (Option.some.inj hj')
          refine (h.stage i call p hi).answer hissues fun hcalm hflags => ?_
          rwa [hflippers, if_pos hflags]
        · rw [List.getElem?_set_ne hij] at hj'
          refine (h.stage j call' p' hj').mono (fun hcalm hmem => ?_) fun rid tenantId hfound => ?_
          · exact (hmono j hmem).elim (fun hji => hij hji.symm) hcalm
          · cases hc : p.head with
            | none => exact hfound
            | some c => exact c.exec_find hfound
      · intro j hj
        have hlength : (w.next (.step i)).pool.threads.length = w.pool.threads.length := by
          have hset := congrArg (fun q : ModelPool => q.threads.length) hpool
          exact hset.trans List.length_set
        rw [hlength]
        rcases hmono j hj with rfl | hj
        · exact (List.getElem?_eq_some_iff.mp hi).1
        · exact h.flippers j hj

/-- From a table with one default at most in each tenant, while every query meets the condition: there is at most one
after every query of every call, `get_default` returns it, and a call that raises `NOT_FOUND` has changed no flag. -/
theorem oneDefault_of_careful {s : ModelTable} {es : List ModelEvent} (h : s.Unique)
    (hes : StepsMeet ModelRun.next ModelRun.StepsCarefully ⟨⟨s, []⟩, []⟩ es) :
    ∀ fs, fs <+: es → OneDefault (runFrom ModelRun.next ⟨⟨s, []⟩, []⟩ fs) := by
  intro fs hfs
  have hinitial : Kept ⟨⟨s, []⟩, []⟩ := ⟨h, fun i call p hi => by simp at hi, fun i hi => by simp at hi⟩
  exact (steps_inv (fun _ _ hw hcareful => Kept.next hw hcareful) hinitial (hes.on_initial hfs)).oneDefault

/-! ### Runs -/

def baseModel (rid : String) (isDefault : Bool) : CopilotModel :=
  ⟨rid, "ri.tenant.1", "gpt", "GPT", "openai", [], [], isDefault⟩

/-- A tenant with a default model. -/
def oneModel : ModelTable := ⟨[baseModel "ri.model.1" true], List.nodup_singleton _⟩

theorem oneModel_unique : oneModel.Unique := fun _ => List.length_filter_le _ _

/-- A second default is registered, and then the first one is made the default again. -/
theorem oneDefault_of_careful_switch :
    OneDefault (runFrom ModelRun.next ⟨⟨oneModel, []⟩, []⟩
      [.start (.register (baseModel "ri.model.2" true)), .step 0, .step 0,
        .start (.update "ri.tenant.1" "ri.model.1" { isDefault := some true }), .step 1, .step 1, .step 1]) :=
  oneDefault_of_careful oneModel_unique (by decide +kernel) _ List.prefix_rfl

/-- Two calls clear the default before either has inserted its own: then there are two. And the update of a model that
does not exist leaves the tenant without a default. -/
theorem overlapping_defaults :
    ((runFrom ModelRun.next ⟨⟨oneModel, []⟩, []⟩ [.start (.register (baseModel "ri.model.2" true)),
        .start (.register (baseModel "ri.model.3" true)), .step 0, .step 1, .step 0, .step 1]).pool.state.getDefault
      "ri.tenant.1" = .error .multipleResultsFound) ∧
    ¬ OneDefault (runFrom ModelRun.next ⟨⟨oneModel, []⟩, []⟩ [.start (.register (baseModel "ri.model.2" true)),
      .start (.register (baseModel "ri.model.3" true)), .step 0, .step 1, .step 0, .step 1]) ∧
    ¬ OneDefault (runFrom ModelRun.next ⟨⟨oneModel, []⟩, []⟩
      [.start (.update "ri.tenant.1" "ri.model.9" { isDefault := some true }), .step 0, .step 0, .step 0]) := by
  refine ⟨rfl, fun h => ?_, fun h => ?_⟩
  · exact absurd (h.unique "ri.tenant.1") (by decide +kernel)
  · exact h.untouched 0 _ _ rfl (by decide +kernel)

end Lingshu.Copilot
