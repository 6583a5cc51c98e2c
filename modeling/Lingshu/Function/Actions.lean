import Lingshu.Function.Store

/-! # Loading an action, resolving its parameters, the safety check

`loader.py`, `param_resolver.py`, `enforcer.py`, and the two methods of the data service that actions use. -/
namespace Lingshu.Function
open Json Data Interaction Interaction.Prog
set_option autoImplicit false

variable (rt : Runtime)

def perform (c : Cmd) : Program (Ans c) := Prog.perform c

def raise {α : Type} (code : ErrorCode) (message : String) : Program α := .throw (.app code message)

def ofExcept {α : Type} : Except Exc α → Program α
  | .ok a => .pure a
  | .error e => .throw e

/-- An access to a value, with its exception raised. -/
def access {α : Type} (r : Except AccessError α) : Program α := ofExcept (r.mapError .access)

/-- `for x in xs: acc = f(acc, x)`. -/
def forEach {α β : Type} (xs : List α) (acc : β) (f : β → α → Program β) : Program β :=
  match xs with
  | [] => .pure acc
  | x :: xs => (f acc x).bind fun acc' => forEach xs acc' f

/-! ## Data service -/

/-- The text of a value in an f-string, for the values that are names. -/
def nameText : Value → String
  | .str s => s
  | .null => "None"
  | .bool true => "True"
  | .bool false => "False"
  | .int i => toString i
  | .float text => text
  | v => dumps v

/-- `QueryEngine.get_instance`. -/
def queryInstance (schema : SchemaInfo) (connRid tablePath : String) (primaryKey : Value) :
    Program (Option Row) := do
  let entries ← access primaryKey.items
  let colMap := buildColumnMap schema
  let row ← perform (.getRow connRid tablePath (physicalPk colMap entries) colMap.values)
  match row with
  | some (e :: row) => return some (mapBack colMap (e :: row))
  | _ => return none

/-- `DataServiceImpl.get_instance`; that a schema may come from the cache is left to what the ontology answers. -/
def getInstance (typeRid : Value) (tenantId : String) (primaryKey : Value) : Program (Option Row) := do
  let propertyTypes ← perform (.getPropertyTypes typeRid tenantId)
  let assetMapping ← perform (.getAssetMapping typeRid tenantId)
  let schema := loadSchema propertyTypes assetMapping
  match schema.assetMapping with
  | none => raise .dataAssetNotMapped ("No asset mapping configured for " ++ nameText typeRid)
  | some mapping =>
    if ← perform (.hasConnector mapping.readConnectionId) then
      let row ← queryInstance schema mapping.readConnectionId mapping.readAssetPath primaryKey
      match row with
      | some (e :: row) =>
        return some (applyMasking rt.python (applyVirtualFields rt.python (e :: row) schema.virtualFields)
          (buildMaskingRules schema.propertyTypes))
      | _ => return none
    else
      raise .dataSourceNotFound ("Connection " ++ mapping.readConnectionId ++ " not found or not initialized")

/-- `DataServiceImpl.write_editlog`. -/
def writeEditlog (ctx : Ctx) (typeRid primaryKey operation fieldValues : Value) (actionTypeRid : Option String)
    (branch : String) : Program String := do
  let entryId ← perform .uuid4
  let createdAt ← perform .now
  if valid : operation ∈ editOperations then
    perform (.insertEditLog
      { entryId, tenantId := ctx.tenantId, typeRid, primaryKey, operation, fieldValues, userId := ctx.userId,
        actionTypeRid, branch, createdAt, valid })
    perform .commit
    return entryId
  else
    .throw (.valueError ("Invalid operation: " ++ rt.python.repr operation ++
      ". Must be 'create', 'update', or 'delete'."))

/-! ## Loader -/

/-- `_extract_outputs`. -/
def extractOutputs (execution : Value) : Except AccessError Value := do
  let execType ← execution.get "type" (.str "")
  let _ ← execType.key
  match EngineType.ofValue execType with
  | some t => (← execution.get t.configKey (.dict [])).get "outputs" (.list [])
  | none => return .list []

/-- What `load` makes of a node. -/
def definitionOf (actionTypeRid : String) (node : Assoc Value) : Except AccessError ActionDefinition := do
  let get (key : String) (default : Value) : Value := (node.lookup key).getD default
  let execution := get "execution" (.dict [])
  let outputs ← extractOutputs execution
  return {
    rid := actionTypeRid
    apiName := get "api_name" (.str "")
    displayName := get "display_name" (.str "")
    parameters := get "parameters" (.list [])
    execution := execution
    outputs := outputs
    safetyLevel := get "safety_level" (.str "SAFETY_READ_ONLY")
    sideEffects := get "side_effects" (.list []) }

/-- `ActionLoader.load`. -/
def load (ctx : Ctx) (actionTypeRid : String) : Program ActionDefinition := do
  let node ← perform (.getObjectType actionTypeRid ctx.tenantId)
  match node with
  | none | some [] => raise .functionNotFound ("ActionType " ++ actionTypeRid ++ " not found")
  | some node => access (definitionOf actionTypeRid node)

/-! ## Parameter resolver -/

/-- The value of a parameter in the request; a name that is no string is no key of it. -/
def rawValue (rawParams : Assoc Value) (apiName : Value) : Except AccessError Value := do
  match ← apiName.key with
  | some name => return (rawParams.lookup name).getD .null
  | none => return .null

/-- The primary key that `_resolve_instance` takes from the value of a parameter. -/
def instanceKey (name : String) : Value → Except Exc Value
  | .dict entries => .ok ((entries.lookup "primary_key").getD (.dict entries))
  | _ => .error (.app .functionParamInvalid ("Parameter '" ++ name ++ "' expects \x7bprimary_key: ...\x7d"))

/-- `_resolve_instance`. -/
def resolveInstance (ctx : Ctx) (typeRid raw : Value) (name : String) : Program Row := do
  let primaryKey ← ofExcept (instanceKey name raw)
  let row ← getInstance rt typeRid ctx.tenantId primaryKey
  match row with
  | some row => return row
  | none =>
    raise .functionParamInstanceNotFound ("Instance not found for parameter '" ++ name ++ "'")

/-- The type whose instance a parameter stands for, `none` for a plain value. -/
def instanceType (paramDef raw : Value) (name : String) : Except Exc (Option Value) :=
  match paramDef.get "definition_source" (.str "explicit_type") with
  | .error e => .error (.access e)
  | .ok source =>
    if source = .str "derived_from_object_type_rid" ∨ source = .str "derived_from_link_type_rid" then
      match paramDef.get "type_rid" (.str "") with
      | .ok typeRid => .ok (some typeRid)
      | .error e => .error (.access e)
    else if source = .str "derived_from_interface_type_rid" then
      match raw with
      | .dict entries =>
        match entries.lookup "type_rid" with
        | some typeRid => .ok (some typeRid)
        | none => .error (.app .functionParamInvalid ("Parameter '" ++ name ++
            "' with interface source requires \x7b\x7btype_rid, primary_key\x7d\x7d"))
      | _ => .error (.app .functionParamInvalid ("Parameter '" ++ name ++
          "' with interface source requires \x7b\x7btype_rid, primary_key\x7d\x7d"))
    else .ok none

/-- The body of the loop of `resolve`. -/
def resolveParam (ctx : Ctx) (rawParams : Assoc Value) (resolved : ResolvedParams) (paramDef : Value) :
    Program ResolvedParams := do
  let apiName ← access (paramDef.item "api_name")
  let required ← access (paramDef.get "required" (.bool false))
  let raw ← access (rawValue rawParams apiName)
  if raw = .null then
    if required.truthy then
      raise .functionParamInvalid ("Required parameter '" ++ nameText apiName ++ "' is missing")
    else return resolved
  else
    let name := nameText apiName
    match ← ofExcept (instanceType paramDef raw name) with
    | none => return { resolved with values := resolved.values.set name raw }
    | some typeRid =>
      let row ← resolveInstance rt ctx typeRid raw name
      return { values := resolved.values.set name raw, instances := resolved.instances.set name row }

/-- `ParamResolver.resolve`. -/
def resolve (ctx : Ctx) (paramDefs : Value) (rawParams : Assoc Value) : Program ResolvedParams := do
  let paramDefs ← access paramDefs.elems
  forEach paramDefs ⟨[], []⟩ (resolveParam rt ctx rawParams)

/-! ## Safety enforcer -/

def directExecuteLevels : List Value := [.str "SAFETY_READ_ONLY", .str "SAFETY_IDEMPOTENT_WRITE"]

/-- The outputs with write-back, each as the confirmation dialog shows it. -/
def affectedOutputs : List Value → Except AccessError (List Value)
  | [] => .ok []
  | o :: os => do
    if (← o.get "writeback" (.bool false)).truthy then
      let summary := Value.dict [
        ("name", ← o.get "name" (.str "")),
        ("target_param", ← o.get "target_param" (.str "")),
        ("operation", ← o.get "operation" (.str "")),
        ("writeback", ← o.get "writeback" (.bool false))]
      return summary :: (← affectedOutputs os)
    else affectedOutputs os

/-- `SafetyEnforcer.check`. -/
def check (safetyLevel outputs sideEffects : Value) (skipConfirmation : Bool) :
    Except AccessError SafetyDecision := do
  if skipConfirmation then return { requiresConfirmation := false }
  let _ ← safetyLevel.key
  if safetyLevel ∈ directExecuteLevels then return { requiresConfirmation := false }
  let affected ← affectedOutputs (← outputs.elems)
  let message :=
    if safetyLevel = .str "SAFETY_CRITICAL" then some "This is a critical operation that cannot be undone"
    else if safetyLevel = .str "SAFETY_NON_IDEMPOTENT" then some "This operation may have irreversible effects"
    else none
  return {
    requiresConfirmation := true
    message := message
    affectedOutputs := affected
    sideEffects := if sideEffects.truthy then sideEffects else .list [] }

end Lingshu.Function
