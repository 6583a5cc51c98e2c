import Lingshu.Ontology.Repository

/-! # OntologyServiceImpl

The methods of `service.py` that take locks or write, with the validators they call. `Ctx` is what
a call reads from its surroundings: the request context, the clock and `uuid4`. -/
namespace Lingshu.Ontology
open Json Interaction
set_option autoImplicit false

structure Ctx where
  tenantId : String
  userId : String
  /-- `datetime.utcnow().isoformat()` during the call. -/
  now : String
  /-- What `uuid4()` returns in the call; no method asks for more than one. -/
  uuid : String
  deriving DecidableEq, Repr

/-! ## Values -/

/-- Python's truth value. -/
def truthy : Value → Bool
  | .null => false
  | .bool b => b
  | .int i => i ≠ 0
  | .float text => text ≠ "0.0" ∧ text ≠ "-0.0"
  | .str s => s ≠ ""
  | .list items => !items.isEmpty
  | .dict entries => !entries.isEmpty

def strOf : Value → String
  | .str s => s
  | _ => ""

def itemsOf : Value → List Value
  | .list items => items
  | _ => []

/-! ## Responses -/

structure EntityResponse where
  label : Label
  fields : Props
  versionStatus : String

/-- The fields of the response class of a label, with their defaults. -/
def responseFields (label : Label) : Dict :=
  let entity : Dict := [(.rid, .null), (.apiName, .null), (.displayName, .null), (.description, .null),
    (.lifecycleStatus, .str "ACTIVE"), (.isActive, .bool true), (.createdAt, .null), (.updatedAt, .null)]
  match label with
  | .objectType => entity ++ [(.implementsInterfaceTypeRids, .list []),
      (.primaryKeyPropertyTypeRids, .list []), (.validation, .null), (.assetMapping, .null)]
  | .linkType => entity ++ [(.sourceObjectTypeRid, .null), (.sourceInterfaceTypeRid, .null),
      (.targetObjectTypeRid, .null), (.targetInterfaceTypeRid, .null), (.cardinality, .str "ONE_TO_MANY"),
      (.implementsInterfaceTypeRids, .list []), (.primaryKeyPropertyTypeRids, .list []),
      (.validation, .null), (.assetMapping, .null)]
  | .interfaceType => entity ++ [(.category, .str "OBJECT_INTERFACE"), (.extendsInterfaceTypeRids, .list []),
      (.requiredSharedPropertyTypeRids, .list []), (.linkRequirements, .list []), (.objectConstraint, .null)]
  | .sharedPropertyType => entity ++ [(.dataType, .str "DT_STRING"), (.widget, .null), (.validation, .null),
      (.compliance, .null)]
  | .actionType => entity ++ [(.parameters, .list []), (.execution, .null),
      (.safetyLevel, .str "SAFETY_READ_ONLY"), (.sideEffects, .list [])]
  | .propertyType => entity

/-- The fields of `PropertyTypeResponse`. -/
def propertyResponseFields : Dict :=
  [(.rid, .null), (.apiName, .null), (.displayName, .null), (.description, .null),
    (.dataType, .str "DT_STRING"), (.inheritFromSharedPropertyTypeRid, .null), (.physicalColumn, .null),
    (.virtualExpression, .null), (.widget, .null), (.validation, .null), (.compliance, .null)]

/-- Keep the fields of the response class; an absent property takes its default. -/
def filterFields (fields : Dict) (data : Props) : Props := fun f =>
  match fields.lookup f with
  | some default => if data f = .null then default else data f
  | none => .null

/-- `_node_to_response`. -/
def nodeToResponse (node : Node) (label : Label) : EntityResponse :=
  let data := deserializeFromNeo4j node.props
  { label := label
    fields := filterFields (responseFields label) data
    versionStatus := if truthy (data .isDraft) then "draft"
      else if truthy (data .isStaging) then "staging" else "active" }

/-- `_node_to_property_response`. -/
def nodeToPropertyResponse (node : Node) : Props :=
  filterFields propertyResponseFields (deserializeFromNeo4j node.props)

structure LockStatusResponse where
  rid : String
  locked : Bool
  lockedBy : Option String := none
  expiresIn : Option Int := none

structure SnapshotResponse where
  snapshotId : String
  parentSnapshotId : Option String
  tenantId : String
  commitMessage : Option String
  author : String
  entityChanges : String → Option Change
  createdAt : String

/-! ## Locks -/

/-- `_require_lock`. -/
def requireLock (rid userId : String) : Program Unit := do
  let owner ← redisGet (.lock rid)
  if owner = some userId then return ()
  else .throw (appError .ontologyLockRequired ("Lock required on " ++ rid ++ ". Acquire lock first.") [])

def acquireLock (ctx : Ctx) (rid : String) : Program LockStatusResponse := do
  let acquired ← redisSetNx (.lock rid) ctx.userId
  if acquired then
    return { rid := rid, locked := true, lockedBy := some ctx.userId, expiresIn := some lockTtlSeconds }
  else
    let owner ← redisGet (.lock rid)
    if owner = some ctx.userId then
      redisExpire (.lock rid)
      return { rid := rid, locked := true, lockedBy := some ctx.userId, expiresIn := some lockTtlSeconds }
    else
      .throw (appError .ontologyLockConflict ("Entity " ++ rid ++ " is locked by another user")
        [("locked_by", (owner.map Value.str).getD .null)])

def releaseLock (ctx : Ctx) (rid : String) : Program LockStatusResponse := do
  let owner ← redisGet (.lock rid)
  if owner = some ctx.userId then redisDelete (.lock rid)
  return { rid := rid, locked := false }

def refreshLock (ctx : Ctx) (rid : String) : Program LockStatusResponse := do
  let owner ← redisGet (.lock rid)
  if owner = some ctx.userId then
    redisExpire (.lock rid)
    let ttl ← redisTtl (.lock rid)
    return { rid := rid, locked := true, lockedBy := some ctx.userId, expiresIn := some ttl }
  else .throw (appError .ontologyLockConflict ("You don't own the lock on " ++ rid) [])

/-! ## Validators with queries -/

/-- `sys.getrecursionlimit()`, the bound on the depth of `can_reach`. -/
def recursionLimit : ℕ := 1000

/-- The loop of `can_reach` over the children. -/
def anyReach (reach : String → List String → Program (Bool × List String)) :
    List Node → List String → Program (Bool × List String)
  | [], visited => return (false, visited)
  | child :: children, visited => do
    let (found, visited) ← reach child.rid visited
    if found then return (true, visited) else anyReach reach children visited

/-- `can_reach` of `check_interface_cycle`; `visited` is shared between the branches. -/
def canReach (target tenantId : String) : ℕ → String → List String → Program (Bool × List String)
  | 0, _, _ => .throw (.other "RecursionError")
  | depth + 1, current, visited => do
    if current = target then return (true, visited)
    else if current ∈ visited then return (false, visited)
    else
      let children ← getRelatedNodes .interfaceType current tenantId .extends .outgoing
      anyReach (canReach target tenantId depth) children (current :: visited)

/-- `check_interface_cycle`. -/
def checkInterfaceCycle (limit : ℕ) (interfaceRid tenantId : String) : List String → Program Unit
  | [] => return ()
  | parentRid :: rest => do
    let (found, _) ← canReach interfaceRid tenantId limit parentRid []
    if found then
      .throw (appError .ontologyCycleDetected
        ("Circular dependency: " ++ interfaceRid ++ " extending " ++ parentRid ++ " creates a cycle")
        [("interface_rid", .str interfaceRid), ("parent_rid", .str parentRid)])
    else checkInterfaceCycle limit interfaceRid tenantId rest

/-- `_detect_entity_label`; `get_related_nodes` sets no `_label`. -/
def detectEntityLabel (node : Node) : Label :=
  if node.rid.startsWith "ri.obj." then .objectType
  else if node.rid.startsWith "ri.link." then .linkType
  else .objectType

/-- The loop of `check_contract_satisfaction` over the implementors. -/
def contractViolations (tenantId : String) (required : List Value) : List Node → Program (List Value)
  | [] => return []
  | implementor :: rest => do
    let propNodes ← getRelatedNodes (detectEntityLabel implementor) implementor.rid tenantId .belongsTo
      .incoming
    let covered := (propNodes.map fun n => n.props .inheritFromSharedPropertyTypeRid).filter truthy
    let missing := required.filter fun rid => rid ∉ covered
    let violations ← contractViolations tenantId required rest
    if missing = [] then return violations
    else return .dict [("entity_rid", .str implementor.rid),
      ("missing_shared_property_type_rids", .list missing)] :: violations

/-- `check_contract_satisfaction`. -/
def checkContractSatisfaction (interfaceRid tenantId : String) (required : List Value) :
    Program Unit := do
  if required = [] then return ()
  else
    let implementors ← getRelatedNodes .interfaceType interfaceRid tenantId .implements .incoming
    let violations ← contractViolations tenantId required implementors
    if violations = [] then return ()
    else .throw (appError .ontologyContractViolation
      ("InterfaceType " ++ interfaceRid ++ " contract violated by " ++ toString violations.length ++
        " implementor(s)") [("violations", .list violations)])

/-- The relationship types of `DEPENDENCY_RULES`, in order. -/
def dependencyRules : Label → List RelType
  | .sharedPropertyType => [.basedOn, .requires]
  | .interfaceType => [.implements, .implements, .extends]
  | .objectType => [.connects, .operatesOn]
  | .linkType => [.operatesOn]
  | .actionType => []
  | .propertyType => []

def referencingRids (label : Label) (rid tenantId : String) : List RelType → Program (List Value)
  | [] => return []
  | relType :: rest => do
    let rids ← getIncomingReferencingRids label rid tenantId relType
    let more ← referencingRids label rid tenantId rest
    return rids ++ more

/-- `check_delete_dependencies`. -/
def checkDeleteDependencies (label : Label) (rid tenantId : String) : Program Unit := do
  let rids ← referencingRids label rid tenantId (dependencyRules label)
  if rids = [] then return ()
  else .throw (appError .ontologyDependencyConflict
    ("Cannot delete " ++ label.name ++ " " ++ rid ++ ": referenced by " ++ toString rids.length ++ " entities")
    [("referencing_rids", .list (rids.take 10))])

/-- The updates `cascade_shared_property_update` makes to one inheritor. -/
def cascadeUpdates (cascadable : Dict) (oldValues : Option Props) (propNode : Node) : Dict :=
  cascadable.filter fun e =>
    match oldValues with
    | some old => propNode.props e.1 = old e.1
    | none => propNode.props (.other ("_override_" ++ e.1.name)) ≠ .bool true

/-- The loop of `cascade_shared_property_update` over the inheritors. -/
def cascadeLoop (tenantId : String) (cascadable : Dict) (oldValues : Option Props) :
    List Node → Program (List String)
  | [] => return []
  | propNode :: rest => do
    let updates := cascadeUpdates cascadable oldValues propNode
    if updates = [] then cascadeLoop tenantId cascadable oldValues rest
    else
      let _ ← updateNode .propertyType propNode.rid tenantId updates
      let affected ← cascadeLoop tenantId cascadable oldValues rest
      return propNode.rid :: affected

/-- `cascadable` of `cascade_shared_property_update`. -/
def cascadable (updatedFields : Dict) : Dict := updatedFields.filter fun e => e.1 ∈ cascadeFields

/-- `cascade_shared_property_update`. -/
def cascadeSharedPropertyUpdate (sharedRid tenantId : String) (updatedFields : Dict)
    (oldValues : Option Props) : Program (List String) := do
  if cascadable updatedFields = [] then return []
  else
    let inheritors ← getRelatedNodes .sharedPropertyType sharedRid tenantId .basedOn .incoming
    cascadeLoop tenantId (cascadable updatedFields) oldValues inheritors

/-! ## Generic CRUD helpers -/

/-- The properties that `_create_entity` sets itself. -/
def newEntityProps (ctx : Ctx) (label : Label) : Dict :=
  [(.rid, .str (generateRid (entityRidTypes label) ctx.uuid)), (.tenantId, .str ctx.tenantId),
    (.isDraft, .bool true), (.isStaging, .bool false), (.isActive, .bool true), (.snapshotId, .null),
    (.parentSnapshotId, .null), (.draftOwner, .str ctx.userId), (.createdAt, .str ctx.now),
    (.updatedAt, .str ctx.now)]

/-- `_create_entity`. -/
def createEntity (ctx : Ctx) (label : Label) (props : Dict) : Program EntityResponse := do
  let apiName := (props.lookup .apiName).getD (.str "")
  let isUnique ← checkApiNameUnique label apiName ctx.tenantId
  if isUnique then
    let node ← createNode label (fun _ => .null)
      (serializeForNeo4j (Dict.update props (newEntityProps ctx label)))
    return nodeToResponse node label
  else .throw (appError .ontologyDuplicateApiName
    ("api_name '" ++ strOf apiName ++ "' already exists for " ++ label.name) [])

def notFound (label : Label) (rid : String) : Exc :=
  appError .ontologyNotFound (label.name ++ " " ++ rid ++ " not found") []

/-- The properties that `_update_entity` sets on a clone before the updates. -/
def cloneProps (ctx : Ctx) (source : Node) : Dict :=
  [(.isDraft, .bool true), (.isStaging, .bool false), (.draftOwner, .str ctx.userId),
    (.parentSnapshotId, source.props .snapshotId)]

/-- The version that an edit without a Draft starts from: Staging, else Active. -/
def cloneSource (label : Label) (rid tenantId : String) : Program (Option Node) := do
  let staging ← getStagingNode label rid tenantId
  match staging with
  | some source => return some source
  | none => getActiveNode label rid tenantId

/-- `_update_entity`. -/
def updateEntity (ctx : Ctx) (label : Label) (rid : String) (updates : Dict) :
    Program EntityResponse := do
  requireLock rid ctx.userId
  match checkImmutableFields label updates with
  | some e => .throw e
  | none =>
    let draft ← getDraftNode label rid ctx.tenantId ctx.userId
    let updateProps := Dict.set (serializeForNeo4j updates) .updatedAt (.str ctx.now)
    match draft with
    | none =>
      let source ← cloneSource label rid ctx.tenantId
      match source with
      | none => .throw (notFound label rid)
      | some source =>
        let node ← createNode label source.props (Dict.update (cloneProps ctx source) updateProps)
        return nodeToResponse node label
    | some _ =>
      let updated ← updateNode label rid ctx.tenantId updateProps (some true) (some ctx.userId)
      match updated with
      | none => .throw (appError .ontologyNotFound ("Draft for " ++ label.name ++ " " ++ rid ++ " not found") [])
      | some node => return nodeToResponse node label

/-- The properties that `_delete_entity` sets on the deletion marker. -/
def deletionProps (ctx : Ctx) (active : Node) : Dict :=
  [(.isDraft, .bool true), (.isStaging, .bool false), (.isActive, .bool false),
    (.draftOwner, .str ctx.userId), (.parentSnapshotId, active.props .snapshotId),
    (.updatedAt, .str ctx.now)]

/-- `_delete_entity`. -/
def deleteEntity (ctx : Ctx) (label : Label) (rid : String) : Program Unit := do
  checkDeleteDependencies label rid ctx.tenantId
  requireLock rid ctx.userId
  let active ← getActiveNode label rid ctx.tenantId
  match active with
  | some active =>
    let _ ← createNode label active.props (deletionProps ctx active)
    return ()
  | none =>
    let deleted ← deleteNode label rid ctx.tenantId (some true) none (some ctx.userId)
    if deleted then return ()
    else
      let _ ← deleteNode label rid ctx.tenantId none (some true)
      return ()

/-! ## Entity-specific CRUD -/

def createObjectType (ctx : Ctx) (props : Dict) : Program EntityResponse :=
  createEntity ctx .objectType props

def createLinkType (ctx : Ctx) (props : Dict) : Program EntityResponse :=
  createEntity ctx .linkType props

def createInterfaceType (ctx : Ctx) (props : Dict) : Program EntityResponse := do
  let extendsRids := (itemsOf (props.get .extendsInterfaceTypeRids)).map strOf
  let rid := (props.lookup .rid).elim "new" strOf
  checkInterfaceCycle recursionLimit rid ctx.tenantId extendsRids
  createEntity ctx .interfaceType props

def createSharedPropertyType (ctx : Ctx) (props : Dict) : Program EntityResponse :=
  createEntity ctx .sharedPropertyType props

def createActionType (ctx : Ctx) (props : Dict) : Program EntityResponse :=
  createEntity ctx .actionType props

def updateObjectType (ctx : Ctx) (rid : String) (updates : Dict) : Program EntityResponse :=
  updateEntity ctx .objectType rid updates

def updateLinkType (ctx : Ctx) (rid : String) (updates : Dict) : Program EntityResponse :=
  updateEntity ctx .linkType rid updates

/-- The contract check of `update_interface_type`, made when the field is in the update. -/
def checkRequiredRids (rid tenantId : String) (requiredRids : Value) : Program Unit :=
  if requiredRids = .null then return ()
  else checkContractSatisfaction rid tenantId (itemsOf requiredRids)

def updateInterfaceType (ctx : Ctx) (rid : String) (updates : Dict) : Program EntityResponse := do
  let extendsRids := (itemsOf (updates.get .extendsInterfaceTypeRids)).map strOf
  checkInterfaceCycle recursionLimit rid ctx.tenantId extendsRids
  checkRequiredRids rid ctx.tenantId (updates.get .requiredSharedPropertyTypeRids)
  updateEntity ctx .interfaceType rid updates

def updateSharedPropertyType (ctx : Ctx) (rid : String) (updates : Dict) : Program EntityResponse := do
  let oldNode ← getActiveNode .sharedPropertyType rid ctx.tenantId
  let oldValues := oldNode.elim (fun _ => .null) fun n => deserializeFromNeo4j n.props
  let result ← updateEntity ctx .sharedPropertyType rid updates
  let _ ← cascadeSharedPropertyUpdate rid ctx.tenantId updates (some oldValues)
  return result

def updateActionType (ctx : Ctx) (rid : String) (updates : Dict) : Program EntityResponse :=
  updateEntity ctx .actionType rid updates

def deleteObjectType (ctx : Ctx) (rid : String) : Program Unit := deleteEntity ctx .objectType rid

def deleteLinkType (ctx : Ctx) (rid : String) : Program Unit := deleteEntity ctx .linkType rid

def deleteInterfaceType (ctx : Ctx) (rid : String) : Program Unit := deleteEntity ctx .interfaceType rid

def deleteSharedPropertyType (ctx : Ctx) (rid : String) : Program Unit :=
  deleteEntity ctx .sharedPropertyType rid

def deleteActionType (ctx : Ctx) (rid : String) : Program Unit := deleteEntity ctx .actionType rid

/-! ## PropertyType CRUD -/

/-- The properties that `create_property_type` sets itself. -/
def newPropertyProps (ctx : Ctx) : Dict :=
  [(.rid, .str (generateRid "prop" ctx.uuid)), (.tenantId, .str ctx.tenantId), (.isDraft, .bool true),
    (.isStaging, .bool false), (.isActive, .bool true), (.draftOwner, .str ctx.userId),
    (.createdAt, .str ctx.now), (.updatedAt, .str ctx.now)]

/-- `create_property_type`. -/
def createPropertyType (ctx : Ctx) (parentRid : String) (parentLabel : Label) (props : Dict) :
    Program Props := do
  requireLock parentRid ctx.userId
  let apiName := (props.lookup .apiName).getD (.str "")
  let existing ← getRelatedNodes parentLabel parentRid ctx.tenantId .belongsTo .incoming
  if existing.any fun pt => pt.props .apiName = apiName then
    .throw (appError .ontologyDuplicateApiName ("PropertyType '" ++ strOf apiName ++
      "' already exists on " ++ parentLabel.name ++ " " ++ parentRid) [])
  else
    let rid := generateRid "prop" ctx.uuid
    let node ← createNode .propertyType (fun _ => .null)
      (serializeForNeo4j (Dict.update props (newPropertyProps ctx)))
    let _ ← createRelationship .propertyType rid parentLabel parentRid .belongsTo ctx.tenantId
    let inheritRid := props.get .inheritFromSharedPropertyTypeRid
    if truthy inheritRid then
      let _ ← createRelationship .propertyType rid .sharedPropertyType (strOf inheritRid) .basedOn
        ctx.tenantId
    return nodeToPropertyResponse node

/-! ## Draft and Staging -/

/-- `update_props` of `submit_to_staging`. -/
def submitProps (ctx : Ctx) : Dict :=
  [(.isDraft, .bool false), (.isStaging, .bool true), (.draftOwner, .null), (.updatedAt, .str ctx.now)]

/-- `submit_to_staging`. -/
def submitToStaging (ctx : Ctx) (label : Label) (rid : String) : Program EntityResponse := do
  let draft ← getDraftNode label rid ctx.tenantId ctx.userId
  match draft with
  | none => .throw (appError .ontologyDraftNotFound ("No Draft found for " ++ label.name ++ " " ++ rid) [])
  | some _ =>
    let node ← updateNode label rid ctx.tenantId (submitProps ctx) (some true) (some ctx.userId)
    match node with
    | none => .throw (appError .ontologyDraftNotFound
        ("Failed to promote Draft for " ++ label.name ++ " " ++ rid) [])
    | some node =>
      redisDelete (.lock rid)
      return nodeToResponse node label

/-- `discard_draft`. -/
def discardDraft (ctx : Ctx) (label : Label) (rid : String) : Program Unit := do
  let deleted ← deleteNode label rid ctx.tenantId (some true) none (some ctx.userId)
  if deleted then redisDelete (.lock rid)
  else .throw (appError .ontologyDraftNotFound ("No Draft found for " ++ label.name ++ " " ++ rid) [])

def stagingNotFound (label : Label) (rid : String) : Exc :=
  appError .ontologyStagingNotFound ("No Staging found for " ++ label.name ++ " " ++ rid) []

/-- What `discard_staging` writes to turn a Staging node back into a Draft. -/
def unstageProps (ctx : Ctx) : Dict :=
  [(.isStaging, .bool false), (.isDraft, .bool true), (.draftOwner, .str ctx.userId)]

/-- `discard_staging`. The call of `update_node` in the last branch has no filter on the flags. -/
def discardStaging (ctx : Ctx) (label : Label) (rid : String) : Program Unit := do
  let active ← getActiveNode label rid ctx.tenantId
  match active with
  | some _ =>
    let deleted ← deleteNode label rid ctx.tenantId none (some true)
    if deleted then return () else .throw (stagingNotFound label rid)
  | none =>
    let staging ← getStagingNode label rid ctx.tenantId
    match staging with
    | none => .throw (stagingNotFound label rid)
    | some _ =>
      let _ ← updateNode label rid ctx.tenantId (unstageProps ctx)
      return ()

/-- The loop of `discard_all_staging`; a node without a rid is skipped. -/
def discardLoop (tenantId : String) : List Node → Program ℕ
  | [] => return 0
  | node :: rest => do
    if node.rid = "" then discardLoop tenantId rest
    else
      let _ ← deleteNode node.label node.rid tenantId none (some true)
      let count ← discardLoop tenantId rest
      return count + 1

/-- `discard_all_staging`. -/
def discardAllStaging (ctx : Ctx) : Program ℕ := do
  let stagingNodes ← getStagingNodes ctx.tenantId
  discardLoop ctx.tenantId stagingNodes

/-! ## Publication -/

/-- The loop of `commit_staging` that builds `entity_changes`. -/
def entityChangesLoop (tenantId : String) :
    List Node → (String → Option Change) → Program (String → Option Change)
  | [], changes => return changes
  | node :: rest, changes => do
    if truthy (node.props .isActive) then
      let active ← getActiveNode node.label node.rid tenantId
      entityChangesLoop tenantId rest
        (Function.update changes node.rid (some (if active.isSome then .update else .create)))
    else entityChangesLoop tenantId rest (Function.update changes node.rid (some .delete))

/-- `entity_data` of `commit_staging`. -/
def entityDataOf : List Node → (String → Option Props) → String → Option Props
  | [], data => data
  | node :: rest, data =>
    if node.rid = "" then entityDataOf rest data
    else entityDataOf rest (Function.update data node.rid
      (some fun f => if f.name.startsWith "_" then .null else deserializeFromNeo4j node.props f))

def deletePages (tenantId : String) : List (List String) → Program Unit
  | [] => return ()
  | keys :: rest => do
    if keys = [] then deletePages tenantId rest
    else
      let _ ← (issue (.redisDeleteCached tenantId keys) : Program Unit)
      deletePages tenantId rest

/-- `on_schema_published`. -/
def onSchemaPublished (tenantId snapshotId : String) : Program Unit := do
  let found ← (issue (.redisScan tenantId) : Program (List (List String)))
  deletePages tenantId found
  issue (.redisPublish tenantId snapshotId)

/-- `commit_staging` from the creation of the snapshot row on. -/
def publishStaging (maxRetries : ℕ) (ctx : Ctx) (commitMessage : Option String)
    (stagingNodes : List Node) (entityChanges : String → Option Change) : Program SnapshotResponse := do
  let snapshotId := generateRid "snap" ctx.uuid
  let parentSnapshotId ← getActivePointer ctx.tenantId
  let inserted ← createSnapshot
    { snapshotId := snapshotId
      parentSnapshotId := parentSnapshotId
      tenantId := ctx.tenantId
      commitMessage := commitMessage
      author := ctx.userId
      entityChanges := entityChanges
      entityData := entityDataOf stagingNodes fun _ => none
      createdAt := ctx.now }
  let _ ← retryNeo4jOperation (promoteStagingToActive ctx.tenantId snapshotId) maxRetries
  let pointed ← setActivePointer ctx.tenantId snapshotId
  sessionCommit [inserted, pointed]
  onSchemaPublished ctx.tenantId snapshotId
  return {
    snapshotId := snapshotId
    parentSnapshotId := parentSnapshotId
    tenantId := ctx.tenantId
    commitMessage := commitMessage
    author := ctx.userId
    entityChanges := entityChanges
    createdAt := ctx.now }

/-- The `try` block of `commit_staging`. -/
def commitBody (maxRetries : ℕ) (ctx : Ctx) (commitMessage : Option String) :
    Program SnapshotResponse := do
  let stagingNodes ← getStagingNodes ctx.tenantId
  if stagingNodes.isEmpty then
    .throw (appError .ontologyStagingEmpty "No entities in Staging to publish" [])
  else
    let entityChanges ← entityChangesLoop ctx.tenantId stagingNodes fun _ => none
    publishStaging maxRetries ctx commitMessage stagingNodes entityChanges

/-- `commit_staging`, with the number of retries left open. -/
def commitStagingWith (maxRetries : ℕ) (ctx : Ctx) (commitMessage : Option String) :
    Program SnapshotResponse := do
  let acquired ← redisSetNx (.commitLock ctx.tenantId) ctx.userId
  if acquired then
    (commitBody maxRetries ctx commitMessage).tryFinally (redisDelete (.commitLock ctx.tenantId))
  else .throw (appError .ontologyLockConflict "Another commit is in progress" [])

/-- `commit_staging`. -/
def commitStaging (ctx : Ctx) (commitMessage : Option String) : Program SnapshotResponse :=
  commitStagingWith defaultMaxRetries ctx commitMessage

/-- `rollback_to_snapshot`. -/
def rollbackToSnapshot (ctx : Ctx) (snapshotId : String) : Program SnapshotResponse := do
  let hasChanges ← hasUncommittedChanges ctx.tenantId
  if hasChanges then .throw (appError .ontologyUncommittedChanges
    "Cannot rollback with uncommitted Draft/Staging changes" [])
  else
    let snap ← getById snapshotId
    match snap with
    | none => .throw (appError .ontologyNotFound ("Snapshot " ++ snapshotId ++ " not found") [])
    | some snap =>
      let pointer ← getActivePointer ctx.tenantId
      let _ ← rollbackGraph ctx.tenantId snapshotId (pointer.getD "")
      let pointed ← setActivePointer ctx.tenantId snapshotId
      sessionCommit [pointed]
      return {
        snapshotId := snap.snapshotId
        parentSnapshotId := snap.parentSnapshotId
        tenantId := snap.tenantId
        commitMessage := snap.commitMessage
        author := snap.author
        entityChanges := snap.entityChanges
        createdAt := snap.createdAt }

end Lingshu.Ontology
