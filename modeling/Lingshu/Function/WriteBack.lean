import Lingshu.Function.Requests
import Mathlib.Data.List.Forall2

/-! # Where write-back goes

`_process_writeback` takes the type and the key of an entry from the instance that was fetched for the target
parameter, under `_type_rid` and `_primary_key`; nothing that reads instances puts them there. `Addressed`: the entries
are those of the outputs, each with the address of its target. It holds exactly when the instances carry the address. -/
namespace Lingshu.Function
open Json Data Interaction Interaction.Prog
set_option autoImplicit false

variable (rt : Runtime)

/-! ## What the entries should be -/

def Cmd.entry : Cmd → Option EditLogEntry
  | .insertEditLog entry => some entry
  | _ => none

/-- An output with write-back whose target is a parameter with an address. -/
def writesTo (found : Assoc (Value × Value)) (output : Value) : Bool :=
  match output.get "writeback" (.bool false), output.get "target_param" (.str "") with
  | .ok writeback, .ok (.str name) => writeback.truthy && (found.lookup name).isSome
  | _, _ => false

/-- The entry is that of the output: its operation and computed values and, for an update or delete, the address of its
target. -/
structure EntryOf (found : Assoc (Value × Value)) (result : EngineResult) (output : Value) (entry : EditLogEntry) :
    Prop where
  operation : output.get "operation" (.str "update") = .ok entry.operation
  fieldValues : (output.get "name" (.str "") >>= computedFor result) = .ok entry.fieldValues
  address : entry.operation ∈ [Value.str "update", .str "delete"] →
    ∃ name, output.get "target_param" (.str "") = .ok (.str name) ∧
      found.lookup name = some (entry.typeRid, entry.primaryKey)

/-- Whatever the database answers and wherever it fails, the entries that are sent are those of the first outputs with
write-back, one for each in their order. -/
def Addressed (ctx : Ctx) (outputs : Value) (result : EngineResult) (instances : Assoc Row) (actionTypeRid : String)
    (branch : Option String) (found : Assoc (Value × Value)) : Prop :=
  ∀ cs q, Trace (processWriteback rt ctx outputs result instances actionTypeRid branch) cs q →
    ∃ os, os <+: (outputs.elems.toOption.getD []).filter (writesTo found) ∧
      List.Forall₂ (EntryOf found result) os (cs.filterMap Cmd.entry)

/-! ## What the code sends -/

/-- What the write-back of an output comes to before anything is issued. -/
structure Write where
  output : Value
  outputName : Value
  targetParam : Value
  operation : Value
  fieldValues : Value
  row : Row
  deriving DecidableEq

def Write.typeRid (w : Write) : Value := (w.row.lookup "_type_rid").getD (.str "")

def Write.primaryKey (w : Write) : Value := (w.row.lookup "_primary_key").getD (.dict [])

def plannedWrite (result : EngineResult) (instances : Assoc Row) (output : Value) :
    Except AccessError (Option Write) := do
  let writeback ← output.get "writeback" (.bool false)
  if writeback.truthy then
    let targetParam ← output.get "target_param" (.str "")
    let operation ← output.get "operation" (.str "update")
    let outputName ← output.get "name" (.str "")
    let fieldValues ← computedFor result outputName
    match ← instanceFor instances targetParam with
    | none | some [] => return none
    | some row => return some { output, outputName, targetParam, operation, fieldValues, row }
  else return none

/-- The writes up to the first output that raises. -/
def writes (result : EngineResult) (instances : Assoc Row) : List Value → List Write
  | [] => []
  | output :: outputs =>
    match plannedWrite result instances output with
    | .error _ => []
    | .ok none => writes result instances outputs
    | .ok (some w) => if w.operation ∈ editOperations then w :: writes result instances outputs else []

/-- Send one write. -/
def sendWrite (ctx : Ctx) (actionTypeRid : String) (branch : Option String) (results : List Value) (w : Write) :
    Program (List Value) := do
  let entryId ← writeEditlog rt ctx w.typeRid w.primaryKey w.operation w.fieldValues (some actionTypeRid)
    (branchOrMain branch)
  return results ++ [.dict [("output", w.outputName), ("entry_id", .str entryId), ("operation", w.operation),
    ("target_param", w.targetParam)]]

theorem access_bind {α β : Type} (r : Except AccessError α) (f : α → Except AccessError β) :
    access (r >>= f) = (access r).bind fun a => access (f a) := by
  cases r <;> rfl

/-- One output: what it comes to, then the write. -/
theorem writeBack_eq (ctx : Ctx) (result : EngineResult) (instances : Assoc Row) (actionTypeRid : String)
    (branch : Option String) (results : List Value) (output : Value) :
    writeBack rt ctx result instances actionTypeRid branch results output =
      (access (plannedWrite result instances output)).bind fun
        | none => .pure results
        | some w => sendWrite rt ctx actionTypeRid branch results w := by
  simp only [writeBack, plannedWrite, bind_eq, access_bind, Prog.bind_assoc]
  refine congrArg (Prog.bind _) (funext fun writeback => ?_)
  split
  · simp only [access_bind, Prog.bind_assoc]
    refine congrArg (Prog.bind _) (funext fun targetParam => ?_)
    refine congrArg (Prog.bind _) (funext fun operation => ?_)
    refine congrArg (Prog.bind _) (funext fun outputName => ?_)
    refine congrArg (Prog.bind _) (funext fun fieldValues => ?_)
    refine congrArg (Prog.bind _) (funext fun row => ?_)
    rcases row with _ | _ | ⟨e, row⟩ <;> rfl
  · rfl

/-! ## Traces of the code -/

/-- The entry of a write. -/
structure Sent (w : Write) (entry : EditLogEntry) : Prop where
  typeRid : entry.typeRid = w.typeRid
  primaryKey : entry.primaryKey = w.primaryKey
  operation : entry.operation = w.operation
  fieldValues : entry.fieldValues = w.fieldValues

variable {ctx : Ctx} {result : EngineResult} {instances : Assoc Row} {actionTypeRid : String} {branch : Option String}
variable {cs : List Cmd}

def Write.entry (w : Write) (ctx : Ctx) (entryId actionTypeRid : String) (branch : Option String) (createdAt : Time)
    (valid : w.operation ∈ editOperations) : EditLogEntry :=
  { entryId, tenantId := ctx.tenantId, typeRid := w.typeRid, primaryKey := w.primaryKey, operation := w.operation,
    fieldValues := w.fieldValues, userId := ctx.userId, actionTypeRid := some actionTypeRid,
    branch := branchOrMain branch, createdAt, valid }

theorem Write.sent (w : Write) {entryId : String} {createdAt : Time} (valid : w.operation ∈ editOperations) :
    Sent w (w.entry ctx entryId actionTypeRid branch createdAt valid) := ⟨rfl, rfl, rfl, rfl⟩

/-- A write sends its entry once, unless it raises before. -/
theorem trace_sendWrite {results : List Value} {w : Write} {q : Program (List Value)}
    (h : Trace (sendWrite rt ctx actionTypeRid branch results w) cs q) :
    (cs.filterMap Cmd.entry = [] ∧ q.returned = none) ∨
      (w.operation ∈ editOperations ∧ ∃ e, Sent w e ∧ cs.filterMap Cmd.entry = [e]) := by
  simp only [sendWrite, writeEditlog, bind_eq, Prog.bind_assoc] at h
  rcases h.of_perform with ⟨rfl, rfl⟩ | ⟨cs, rfl, ⟨entryId, h⟩ | ⟨rfl, e, rfl⟩⟩
  · exact .inl ⟨rfl, rfl⟩
  · rcases h.of_perform with ⟨rfl, rfl⟩ | ⟨cs, rfl, ⟨createdAt, h⟩ | ⟨rfl, e, rfl⟩⟩
    · exact .inl ⟨rfl, rfl⟩
    · by_cases hvalid : w.operation ∈ editOperations
      · simp only [dif_pos hvalid, Prog.bind_assoc] at h
        rcases h.of_perform with ⟨rfl, rfl⟩ | ⟨cs, rfl, ⟨_, h⟩ | ⟨rfl, e, rfl⟩⟩
        · exact .inl ⟨rfl, rfl⟩
        · refine .inr ⟨hvalid, w.entry ctx entryId actionTypeRid branch createdAt hvalid, w.sent hvalid, ?_⟩
          rcases h.of_perform with ⟨rfl, rfl⟩ | ⟨cs, rfl, ⟨_, h⟩ | ⟨rfl, e, rfl⟩⟩
          · rfl
          · rw [(trace_pure.mp h).1]
            rfl
          · rfl
        · exact .inr ⟨hvalid, w.entry ctx entryId actionTypeRid branch createdAt hvalid, w.sent hvalid, rfl⟩
      · simp only [dif_neg hvalid] at h
        obtain ⟨rfl, rfl⟩ := trace_throw.mp h
        exact .inl ⟨rfl, rfl⟩
    · exact .inl ⟨rfl, rfl⟩
  · exact .inl ⟨rfl, rfl⟩

variable (ctx actionTypeRid branch) in
/-- A valid write can be sent. -/
theorem sendWrite_trace (results : List Value) {w : Write} (hvalid : w.operation ∈ editOperations) :
    ∃ cs results' e, Trace (sendWrite rt ctx actionTypeRid branch results w) cs (.pure results') ∧ Sent w e ∧
      cs.filterMap Cmd.entry = [e] := by
  refine ⟨[.uuid4, .now, .insertEditLog (w.entry ctx "" actionTypeRid branch 0 hvalid), .commit],
    results ++ [.dict [("output", w.outputName), ("entry_id", .str ""), ("operation", w.operation),
      ("target_param", w.targetParam)]], w.entry ctx "" actionTypeRid branch 0 hvalid, ?_, w.sent hvalid, rfl⟩
  simp only [sendWrite, writeEditlog, bind_eq, Prog.bind_assoc, dif_pos hvalid]
  refine Trace.perform "" (Trace.perform (0 : Time) ?_)
  refine Trace.perform () (Trace.perform () ?_)
  exact .nil _

/-- The entries of a run are those of the first writes. -/
theorem trace_forEach {outputs results : List Value} {q : Program (List Value)}
    (h : Trace (forEach outputs results (writeBack rt ctx result instances actionTypeRid branch)) cs q) :
    ∃ ws, ws <+: writes result instances outputs ∧ List.Forall₂ Sent ws (cs.filterMap Cmd.entry) := by
  induction outputs generalizing results cs with
  | nil =>
    obtain ⟨rfl, rfl⟩ := trace_pure.mp h
    exact ⟨[], List.prefix_refl _, .nil⟩
  | cons output outputs ih =>
    have h : Trace ((writeBack rt ctx result instances actionTypeRid branch results output).bind _) cs q := h
    rw [writeBack_eq] at h
    unfold writes
    cases hplan : plannedWrite result instances output with
    | error e =>
      rw [hplan] at h
      obtain ⟨rfl, rfl⟩ := trace_throw.mp h
      exact ⟨[], List.prefix_refl _, .nil⟩
    | ok planned =>
      rw [hplan] at h
      cases planned with
      | none => exact ih h
      | some w =>
        rcases h.of_bind with ⟨p', h⟩ | ⟨results', cs₁, cs₂, h₁, h₂, rfl⟩
        · rcases trace_sendWrite rt h with ⟨hnone, -⟩ | ⟨hvalid, e, he, hsome⟩
          · rw [hnone]
            exact ⟨[], List.nil_prefix, .nil⟩
          · rw [hsome]
            simp only [if_pos hvalid]
            exact ⟨[w], List.prefix_cons_inj w |>.mpr List.nil_prefix, .cons he .nil⟩
        · rcases trace_sendWrite rt h₁ with ⟨-, hreturned⟩ | ⟨hvalid, e, he, hsome⟩
          · cases hreturned
          · obtain ⟨ws, hws, hsent⟩ := ih h₂
            rw [List.filterMap_append, hsome]
            simp only [if_pos hvalid]
            exact ⟨w :: ws, List.prefix_cons_inj w |>.mpr hws, .cons he hsent⟩

/-- There is a run that sends all of them. -/
theorem forEach_trace (outputs results : List Value) :
    ∃ cs q, Trace (forEach outputs results (writeBack rt ctx result instances actionTypeRid branch)) cs q ∧
      List.Forall₂ Sent (writes result instances outputs) (cs.filterMap Cmd.entry) := by
  induction outputs generalizing results with
  | nil => exact ⟨[], _, .nil _, .nil⟩
  | cons output outputs ih =>
    show ∃ cs q, Trace ((writeBack rt ctx result instances actionTypeRid branch results output).bind _) cs q ∧ _
    rw [writeBack_eq]
    unfold writes
    cases hplan : plannedWrite result instances output with
    | error e => exact ⟨[], _, .nil _, .nil⟩
    | ok planned =>
      cases planned with
      | none => exact ih results
      | some w =>
        by_cases hvalid : w.operation ∈ editOperations
        · obtain ⟨cs₁, results', e, h₁, he, hsome⟩ :=
            sendWrite_trace rt ctx actionTypeRid branch results hvalid
          obtain ⟨cs₂, q, h₂, hsent⟩ := ih results'
          refine ⟨cs₁ ++ cs₂, q, (h₁.bind _).append h₂, ?_⟩
          rw [List.filterMap_append, hsome]
          simp only [if_pos hvalid]
          exact .cons he hsent
        · simp only [if_neg hvalid]
          exact ⟨[], _, .nil _, .nil⟩

/-! ## The outputs behind the writes -/

/-- A planned write is that of its output. -/
structure Plans (result : EngineResult) (instances : Assoc Row) (output : Value) (w : Write) : Prop where
  source : w.output = output
  writeback : ∃ v, output.get "writeback" (.bool false) = .ok v ∧ v.truthy = true
  targetParam : output.get "target_param" (.str "") = .ok w.targetParam
  operation : output.get "operation" (.str "update") = .ok w.operation
  fieldValues : (output.get "name" (.str "") >>= computedFor result) = .ok w.fieldValues
  row : ∃ name, w.targetParam = .str name ∧ instances.lookup name = some w.row

theorem instanceFor_some {instances : Assoc Row} {v : Value} {row : Row} (h : instanceFor instances v = .ok (some row)) :
    ∃ name, v = .str name ∧ instances.lookup name = some row := by
  obtain ⟨key, hkey, hrow⟩ := ok_of_bind h
  cases key with
  | none => cases hrow
  | some name =>
    refine ⟨name, ?_, Except.ok.inj hrow⟩
    cases v <;> simp_all [Value.key]

theorem Plans.of_planned {output : Value} {w : Write} (h : plannedWrite result instances output = .ok (some w)) :
    Plans result instances output w := by
  obtain ⟨writeback, hwriteback, h⟩ := ok_of_bind h
  split at h
  · rename_i htruthy
    obtain ⟨targetParam, htarget, h⟩ := ok_of_bind h
    obtain ⟨operation, hoperation, h⟩ := ok_of_bind h
    obtain ⟨outputName, hname, h⟩ := ok_of_bind h
    obtain ⟨fieldValues, hvalues, h⟩ := ok_of_bind h
    obtain ⟨row, hrow, h⟩ := ok_of_bind h
    rcases row with _ | _ | ⟨e, row⟩
    · cases h
    · cases h
    · cases h
      refine ⟨rfl, ⟨writeback, hwriteback, htruthy⟩, htarget, hoperation, ?_, instanceFor_some hrow⟩
      rw [hname]
      exact hvalues
  · cases h

variable {found : Assoc (Value × Value)}

theorem writesTo_of_plans (hfetched : Fetched instances found) {output : Value} {w : Write}
    (h : Plans result instances output w) : writesTo found output = true := by
  obtain ⟨v, hv, htruthy⟩ := h.writeback
  obtain ⟨name, hname, hrow⟩ := h.row
  have hrel := hfetched name
  rw [hrow] at hrel
  unfold writesTo
  rw [hv, h.targetParam, hname]
  cases hlookup : found.lookup name with
  | none =>
    rw [hlookup] at hrel
    cases hrel
  | some address =>
    show (v.truthy && (found.lookup name).isSome) = true
    rw [htruthy, hlookup]
    rfl

/-- An output that is passed over has no write-back, or no target with an address. -/
theorem not_writesTo_of_planned (hfetched : Fetched instances found) {output : Value}
    (h : plannedWrite result instances output = .ok none) : writesTo found output = false := by
  obtain ⟨writeback, hwriteback, h⟩ := ok_of_bind h
  unfold writesTo
  rw [hwriteback]
  split at h
  · obtain ⟨targetParam, htarget, h⟩ := ok_of_bind h
    obtain ⟨operation, -, h⟩ := ok_of_bind h
    obtain ⟨outputName, -, h⟩ := ok_of_bind h
    obtain ⟨fieldValues, -, h⟩ := ok_of_bind h
    obtain ⟨row, hrow, h⟩ := ok_of_bind h
    rw [htarget]
    cases targetParam with
    | str name =>
      have hrow : instances.lookup name = row := Except.ok.inj hrow
      have hrel := hfetched name
      rw [hrow] at hrel
      rcases row with _ | _ | ⟨e, row⟩
      · cases hlookup : found.lookup name with
        | none => simp [hlookup]
        | some address =>
          rw [hlookup] at hrel
          cases hrel
      · cases hlookup : found.lookup name with
        | none => simp [hlookup]
        | some address =>
          rw [hlookup] at hrel
          cases hrel with
          | some hne => exact absurd rfl hne
      · cases h
    | _ => rfl
  · rename_i htruthy
    split
    · rename_i heq _
      cases heq
      simp [htruthy]
    · rfl

variable (result) in
/-- The writes are those of the first outputs that should write. -/
theorem writes_prefix (hfetched : Fetched instances found) (outputs : List Value) :
    (writes result instances outputs).map Write.output <+: outputs.filter (writesTo found) := by
  induction outputs with
  | nil => exact List.prefix_refl _
  | cons output outputs ih =>
    unfold writes
    cases hplan : plannedWrite result instances output with
    | error e => exact List.nil_prefix
    | ok planned =>
      cases planned with
      | none =>
        rw [List.filter_cons_of_neg (by simp [not_writesTo_of_planned hfetched hplan])]
        exact ih
      | some w =>
        have hplans := Plans.of_planned hplan
        by_cases hvalid : w.operation ∈ editOperations
        · rw [List.filter_cons_of_pos (writesTo_of_plans hfetched hplans)]
          simp only [if_pos hvalid, List.map_cons, hplans.source]
          exact (List.prefix_cons_inj output).mpr ih
        · simp only [if_neg hvalid]
          exact List.nil_prefix

theorem plans_of_mem {outputs : List Value} {w : Write} (h : w ∈ writes result instances outputs) :
    Plans result instances w.output w := by
  induction outputs with
  | nil => cases h
  | cons output outputs ih =>
    unfold writes at h
    cases hplan : plannedWrite result instances output with
    | error e =>
      rw [hplan] at h
      cases h
    | ok planned =>
      rw [hplan] at h
      cases planned with
      | none => exact ih h
      | some w' =>
        by_cases hvalid : w'.operation ∈ editOperations
        · simp only [if_pos hvalid] at h
          rcases List.mem_cons.mp h with rfl | h
          · have hplans := Plans.of_planned hplan
            rwa [hplans.source]
          · exact ih h
        · simp only [if_neg hvalid] at h
          cases h

/-! ## Every run -/

/-- The instance of the target has under `_type_rid` and `_primary_key` what the target was resolved with. -/
def Write.Carries (found : Assoc (Value × Value)) (w : Write) : Prop :=
  w.operation ∈ [Value.str "update", .str "delete"] →
    ∃ name, w.targetParam = .str name ∧ found.lookup name = some (w.typeRid, w.primaryKey)

/-- An entry that a write sends is that of the output exactly when the instance carries the address. -/
theorem Sent.entryOf_iff {w : Write} {entry : EditLogEntry} (hsent : Sent w entry)
    (hplans : Plans result instances w.output w) : EntryOf found result w.output entry ↔ w.Carries found := by
  constructor
  · intro h hop
    obtain ⟨name, hname, hlookup⟩ := h.address (hsent.operation ▸ hop)
    refine ⟨name, Except.ok.inj (hplans.targetParam.symm.trans hname), ?_⟩
    rw [hlookup, hsent.typeRid, hsent.primaryKey]
  · intro h
    refine ⟨hsent.operation ▸ hplans.operation, hsent.fieldValues ▸ hplans.fieldValues, fun hop => ?_⟩
    obtain ⟨name, hname, hlookup⟩ := h (hsent.operation ▸ hop)
    refine ⟨name, hname ▸ hplans.targetParam, ?_⟩
    rw [hlookup, hsent.typeRid, hsent.primaryKey]

theorem trace_processWriteback {outputs : Value} {q : Program (List Value)} :
    Trace (processWriteback rt ctx outputs result instances actionTypeRid branch) cs q →
    ∃ ws, ws <+: writes result instances (outputs.elems.toOption.getD []) ∧
      List.Forall₂ Sent ws (cs.filterMap Cmd.entry) := by
  intro h
  unfold processWriteback at h
  cases helems : outputs.elems with
  | error e =>
    rw [helems] at h
    obtain ⟨rfl, rfl⟩ := trace_throw.mp h
    exact ⟨[], List.nil_prefix, .nil⟩
  | ok items =>
    rw [helems] at h
    exact trace_forEach rt h

variable (ctx result instances actionTypeRid branch) in
theorem processWriteback_trace (outputs : Value) :
    ∃ cs q, Trace (processWriteback rt ctx outputs result instances actionTypeRid branch) cs q ∧
      List.Forall₂ Sent (writes result instances (outputs.elems.toOption.getD [])) (cs.filterMap Cmd.entry) := by
  unfold processWriteback
  cases helems : outputs.elems with
  | error e => exact ⟨[], _, .nil _, .nil⟩
  | ok items => exact forEach_trace rt items []

theorem forall₂_of_mem {α β : Type} {R S : α → β → Prop} {l : List α} {u : List β} (hR : List.Forall₂ R l u)
    (hS : List.Forall₂ S l u) {a : α} (ha : a ∈ l) : ∃ b, R a b ∧ S a b := by
  induction hR with
  | nil => cases ha
  | cons hab hrest ih =>
    cases hS with
    | cons hab' hrest' =>
      rcases List.mem_cons.mp ha with rfl | ha
      · exact ⟨_, hab, hab'⟩
      · exact ih hrest' ha

/-- For every action, parameters, engine result and stored data: the entries of a write-back are addressed to the
resolved instances exactly when the rows that were read carry the addresses. -/
theorem addressed_iff (rt : Runtime) (ctx : Ctx) (action : ActionDefinition) (rawParams : Assoc Value)
    (result : EngineResult) (branch : Option String) (resolved : ResolvedParams)
    (hresolved : (resolve rt ctx action.parameters rawParams).Yields (fun _ _ => True) resolved) :
    Addressed rt ctx action.outputs result resolved.instances action.rid branch
        (addresses rawParams (action.parameters.elems.toOption.getD [])) ↔
      ∀ w ∈ writes result resolved.instances (action.outputs.elems.toOption.getD []),
        w.Carries (addresses rawParams (action.parameters.elems.toOption.getD [])) := by
  obtain ⟨defs, hdefs, hfetched⟩ := fetched_resolve rt hresolved
  have hparameters : action.parameters.elems.toOption.getD [] = defs := by
    rw [hdefs]
    rfl
  rw [hparameters]
  generalize hitems : action.outputs.elems.toOption.getD [] = items
  have hprefix := writes_prefix result hfetched items
  constructor
  · intro h w hw
    obtain ⟨cs, q, htrace, hsent⟩ := processWriteback_trace rt ctx result resolved.instances action.rid branch action.outputs
    obtain ⟨os, hos, hentries⟩ := h cs q htrace
    rw [hitems] at hsent hos
    have hlength : os.length = ((writes result resolved.instances items).map Write.output).length := by
      rw [List.length_map, hentries.length_eq, hsent.length_eq]
    obtain rfl : os = (writes result resolved.instances items).map Write.output :=
      (List.prefix_of_prefix_length_le hos hprefix (Nat.le_of_eq hlength)).eq_of_length hlength
    obtain ⟨entry, hw', hentry⟩ := forall₂_of_mem hsent (List.forall₂_map_left_iff.mp hentries) hw
    exact (hw'.entryOf_iff (plans_of_mem hw)).mp hentry
  · intro h cs q htrace
    obtain ⟨ws, hws, hsent⟩ := trace_processWriteback rt htrace
    rw [hitems] at hws ⊢
    refine ⟨ws.map Write.output, (hws.map _).trans hprefix, ?_⟩
    rw [List.forall₂_map_left_iff]
    have hmem := List.forall₂_and_left _ _ |>.mpr ⟨fun w hw => hws.subset hw, hsent⟩
    exact hmem.imp fun w entry hw => (hw.2.entryOf_iff (plans_of_mem hw.1)).mpr (h w hw.1)

/-! ### An action that updates an order -/

def updateOrder : ActionDefinition where
  rid := "ri.action.1"
  apiName := .str "update_order"
  displayName := .str "Update order"
  parameters := .list [.dict [("api_name", .str "order"), ("type_rid", .str "ri.obj.1"),
    ("definition_source", .str "derived_from_object_type_rid")]]
  execution := .dict []
  outputs := .list [.dict [("name", .str "status"), ("target_param", .str "order"), ("operation", .str "update"),
    ("writeback", .bool true)]]
  safetyLevel := .str "SAFETY_NON_IDEMPOTENT"
  sideEffects := .list []

def orderParams : Assoc Value := [("order", .dict [("primary_key", .dict [("id", .int 1)])])]

/-- The row that the table has for the key. -/
def orderRow : Row := [("id", .int 1), ("status", .str "open")]

def orderResolved : ResolvedParams := ⟨orderParams, [("order", orderRow)]⟩

theorem resolves_order (ctx : Ctx) :
    (resolve .plain ctx updateOrder.parameters orderParams).Yields (fun _ _ => True) orderResolved :=
  .call [] trivial (.call (some {}) trivial (.call true trivial (.call (some orderRow) trivial (.pure _))))

theorem addressed_iff_order :
    Addressed .plain ⟨"t", "u"⟩ updateOrder.outputs ⟨.null, [("status", .dict [])]⟩ orderResolved.instances
        updateOrder.rid none (addresses orderParams (updateOrder.parameters.elems.toOption.getD [])) ↔
      ∀ w ∈ writes ⟨.null, [("status", .dict [])]⟩ orderResolved.instances
        (updateOrder.outputs.elems.toOption.getD []),
        w.Carries (addresses orderParams (updateOrder.parameters.elems.toOption.getD [])) :=
  addressed_iff .plain ⟨"t", "u"⟩ updateOrder orderParams ⟨.null, [("status", .dict [])]⟩ none orderResolved
    (resolves_order _)

/-- The entry that is sent has an empty type and an empty key. -/
theorem not_addressed_order :
    (resolve .plain ⟨"t", "u"⟩ updateOrder.parameters orderParams).Yields (fun _ _ => True) orderResolved ∧
    ¬Addressed .plain ⟨"t", "u"⟩ updateOrder.outputs ⟨.null, [("status", .dict [])]⟩ orderResolved.instances
        updateOrder.rid none (addresses orderParams (updateOrder.parameters.elems.toOption.getD [])) := by
  refine ⟨resolves_order _, fun h => ?_⟩
  let entry : EditLogEntry :=
    { entryId := "e", tenantId := "t", typeRid := .str "", primaryKey := .dict [], operation := .str "update",
      fieldValues := .dict [], userId := "u", actionTypeRid := some "ri.action.1", branch := "main", createdAt := 0,
      valid := by decide }
  obtain ⟨os, -, hentries⟩ := h [.uuid4, .now, .insertEditLog entry] _
    (.cons (.ok "e") (.cons (.ok (0 : Time)) (.cons (.ok ()) (.nil _))))
  cases hentries with
  | cons hentry hrest =>
    obtain ⟨name, -, hlookup⟩ := hentry.address (by decide)
    have hfound : addresses orderParams (updateOrder.parameters.elems.toOption.getD []) =
        [("order", (.str "ri.obj.1", .dict [("id", .int 1)]))] := by decide
    rw [hfound, Assoc.lookup_cons] at hlookup
    split at hlookup
    · exact absurd (Option.some.inj hlookup) (by decide)
    · cases hlookup

end Lingshu.Function
