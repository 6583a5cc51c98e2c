import Lingshu.Ontology.Calls
import Mathlib.Data.List.Infix

/-! # The reads

What the read methods of `service.py` and `schema_loader.py` return for a graph. A read writes nothing, so
that it is a function of the graph; a search term is looked for as Cypher's `CONTAINS` does. -/
namespace Lingshu.Ontology
open Json
set_option autoImplicit false

/-! ## Queries -/

/-- `v CONTAINS term`; null is no text. -/
def containsText (term : String) : Value → Bool
  | .str s => decide (term.toList <:+: s.toList)
  | _ => false

/-- The condition on `$search`, left out when the term is falsy. -/
def matchesSearch (search : Option String) (n : Node) : Bool :=
  match search with
  | none | some "" => true
  | some term => containsText term (n.props .apiName) || containsText term (n.props .displayName) ||
      containsText term (n.props .description)

/-- The condition that `filters` adds, left out when the status is falsy. -/
def matchesStatus (lifecycleStatus : Option String) (n : Node) : Bool :=
  match lifecycleStatus with
  | none | some "" => true
  | some status => n.has .lifecycleStatus (.str status)

/-- `ORDER BY n.created_at DESC`; every node has a text there. -/
def newestFirst (nodes : List Node) : List Node :=
  nodes.mergeSort fun a b => decide (strOf (b.props .createdAt) ≤ strOf (a.props .createdAt))

/-- `SKIP $offset LIMIT $limit`. -/
def page {α : Type} (offset limit : ℕ) (items : List α) : List α := (items.drop offset).take limit

namespace Graph

def getEffectiveNode (g : Graph) (label : Label) (rid tenantId userId : String) : Option Node :=
  match g.getDraftNode label rid tenantId userId with
  | some node => some node
  | none =>
    match g.getStagingNode label rid tenantId with
    | some node => some node
    | none => g.getActiveNode label rid tenantId

/-- The two queries of `list_active_nodes` and `list_nodes`: a page and the number of all matches. -/
def listWhere (g : Graph) (p : Node → Bool) (offset limit : ℕ) : List Node × ℕ :=
  (page offset limit (newestFirst (g.nodes.filter p)), g.nodes.countP p)

def listActiveNodes (g : Graph) (label : Label) (tenantId : String) (search : Option String)
    (offset limit : ℕ) : List Node × ℕ :=
  g.listWhere (fun n => decide (n.label = label) && n.ofTenant tenantId && n.active && matchesSearch search n)
    offset limit

/-- `list_nodes`, which has no condition on the flags. -/
def listNodes (g : Graph) (label : Label) (tenantId : String) (search lifecycleStatus : Option String)
    (offset limit : ℕ) : List Node × ℕ :=
  g.listWhere (fun n => decide (n.label = label) && n.ofTenant tenantId && matchesStatus lifecycleStatus n &&
    matchesSearch search n) offset limit

structure TopologyNode where
  rid : Value
  label : Label
  apiName : Value
  displayName : Value

structure TopologyEdge where
  source : Value
  target : Value
  relType : RelType

structure Topology where
  nodes : List TopologyNode
  edges : List TopologyEdge

/-- `get_topology`. -/
def getTopology (g : Graph) (tenantId : String) : Topology where
  nodes := (g.nodes.filter fun n => n.ofTenant tenantId && n.active).map fun n =>
    ⟨n.props .rid, n.label, n.props .apiName, n.props .displayName⟩
  edges := g.rels.flatMap fun r =>
    (g.nodes.filter fun a => decide (a.id = r.source) && a.ofTenant tenantId && a.active).flatMap fun a =>
      (g.nodes.filter fun b => decide (b.id = r.target) && b.active).map fun b =>
        ⟨a.props .rid, b.props .rid, r.type⟩

/-- `search_nodes`, for `labels` that are names of labels. -/
def searchNodes (g : Graph) (tenantId term : String) (labels : Option (List String)) (limit : ℕ) : List Node :=
  (g.nodes.filter fun n => n.ofTenant tenantId && n.active &&
    (labels.getD []).isEmpty.or ((labels.getD []).contains n.label.name) &&
    (containsText term (n.props .apiName) || containsText term (n.props .displayName) ||
      containsText term (n.props .description))).take limit

/-- How many nodes of each label match. -/
def countByLabel (g : Graph) (p : Node → Bool) (label : Label) : ℕ :=
  g.nodes.countP fun n => decide (n.label = label) && p n

def getStagingSummary (g : Graph) (tenantId : String) : Label → ℕ :=
  g.countByLabel fun n => n.ofTenant tenantId && n.staging

def getDraftsSummary (g : Graph) (tenantId userId : String) : Label → ℕ :=
  g.countByLabel fun n => n.ofTenant tenantId && n.draftOf userId

end Graph

/-! ## OntologyServiceImpl -/

/-- An entity response with its `property_types`. -/
structure EntityDetail where
  entity : EntityResponse
  propertyTypes : List Props

/-- The nodes that `BELONGS_TO` an entity. -/
def propertyNodes (g : Graph) (label : Label) (rid tenantId : String) : List Node :=
  g.getRelatedNodes label rid tenantId .belongsTo .incoming

/-- The `property_types` of a response: filled in for ObjectTypes and LinkTypes. -/
def propertyTypesOf (g : Graph) (label : Label) (rid tenantId : String) : List Props :=
  if label ∈ [.objectType, .linkType] then (propertyNodes g label rid tenantId).map nodeToPropertyResponse
  else []

/-- `_get_entity`. -/
def getEntity (g : Graph) (tenantId : String) (label : Label) (rid : String) : Except Exc EntityDetail :=
  match g.getActiveNode label rid tenantId with
  | none => .error (notFound label rid)
  | some node => .ok ⟨nodeToResponse node label, propertyTypesOf g label rid tenantId⟩

/-- `_get_entity_draft`. -/
def getEntityDraft (g : Graph) (tenantId userId : String) (label : Label) (rid : String) :
    Except Exc EntityResponse :=
  match g.getEffectiveNode label rid tenantId userId with
  | none => .error (notFound label rid)
  | some node => .ok (nodeToResponse node label)

/-- `_query_entities`. -/
def queryEntities (g : Graph) (tenantId : String) (label : Label) (search lifecycleStatus : Option String)
    (offset limit : ℕ) : List EntityDetail × ℕ :=
  let (nodes, total) := g.listNodes label tenantId search lifecycleStatus offset limit
  (nodes.map fun n =>
    let response := nodeToResponse n label
    ⟨response, propertyTypesOf g label (strOf (response.fields .rid)) tenantId⟩, total)

/-- `get_property_types_for_entity`. -/
def getPropertyTypesForEntity (g : Graph) (tenantId entityRid : String) : List Props :=
  let nodes := propertyNodes g .objectType entityRid tenantId
  (if nodes.isEmpty then propertyNodes g .linkType entityRid tenantId else nodes).map fun n =>
    deserializeFromNeo4j n.props

/-- The Active ObjectType, else the Active LinkType. -/
def mappedNode (g : Graph) (tenantId entityRid : String) : Option Node :=
  match g.getActiveNode .objectType entityRid tenantId with
  | some node => some node
  | none => g.getActiveNode .linkType entityRid tenantId

/-- `get_asset_mapping`. -/
def getAssetMapping (g : Graph) (tenantId entityRid : String) : Value :=
  match mappedNode g tenantId entityRid with
  | none => .null
  | some node => deserializeFromNeo4j node.props .assetMapping

/-- `query_all_property_types`. -/
def queryAllPropertyTypes (g : Graph) (tenantId : String) (search : Option String) (offset limit : ℕ) :
    List Props × ℕ :=
  let (nodes, total) := g.listActiveNodes .propertyType tenantId search offset limit
  (nodes.map nodeToPropertyResponse, total)

/-- `d.get(f, default)` on a node's dictionary. -/
def getDefault (data : Props) (f : Field) (default : Value) : Value :=
  if data f = .null then default else data f

structure MappingEntry where
  rid : Value
  apiName : Value
  displayName : Value
  assetMapping : Value
  entityType : Label

/-- `query_all_asset_mappings`. -/
def queryAllAssetMappings (g : Graph) (tenantId : String) (search : Option String) (offset limit : ℕ) :
    List MappingEntry × ℕ :=
  let objects := (g.listActiveNodes .objectType tenantId search 0 1000).1
  let links := (g.listActiveNodes .linkType tenantId search 0 1000).1
  let results := (objects ++ links).filterMap fun node =>
    let data := deserializeFromNeo4j node.props
    if truthy (data .assetMapping) then
      some ⟨getDefault data .rid (.str ""), getDefault data .apiName (.str ""),
        getDefault data .displayName (.str ""), data .assetMapping,
        if (strOf (data .rid)).startsWith "ri.obj." then .objectType else .linkType⟩
    else none
  (page offset limit results, results.length)

structure MappingReference where
  rid : Value
  apiName : Value
  physicalColumn : Value
  entityRid : String

/-- `query_asset_mapping_references`. -/
def queryAssetMappingReferences (g : Graph) (tenantId entityRid : String) :
    Except Exc (List MappingReference) :=
  match mappedNode g tenantId entityRid with
  | none => .error (appError .ontologyNotFound ("Entity " ++ entityRid ++ " not found") [])
  | some _ =>
    let label : Label := if entityRid.startsWith "ri.obj." then .objectType else .linkType
    .ok ((propertyNodes g label entityRid tenantId).filterMap fun pt =>
      let data := deserializeFromNeo4j pt.props
      if truthy (data .physicalColumn) then
        some ⟨getDefault data .rid (.str ""), getDefault data .apiName (.str ""), data .physicalColumn, entityRid⟩
      else none)

structure SearchResult where
  rid : Value
  apiName : Value
  displayName : Value
  description : Value
  entityType : Label

/-- `ENTITY_LABELS.get(t, t)`. -/
def entityLabelName (t : String) : String :=
  match t with
  | "object_type" => "ObjectType"
  | "link_type" => "LinkType"
  | "interface_type" => "InterfaceType"
  | "shared_property_type" => "SharedPropertyType"
  | "property_type" => "PropertyType"
  | "action_type" => "ActionType"
  | _ => t

/-- `search`. -/
def search (g : Graph) (tenantId query : String) (types : Option (List String)) (limit : ℕ) :
    List SearchResult :=
  (g.searchNodes tenantId query (types.map fun ts => ts.map entityLabelName) limit).map fun n =>
    ⟨getDefault n.props .rid (.str ""), getDefault n.props .apiName (.str ""),
      getDefault n.props .displayName (.str ""), n.props .description, n.label⟩

/-! ## SchemaLoader -/

structure SchemaInfo where
  typeRid : String
  propertyTypes : List Props
  assetMapping : Value
  physicalColumns : List Value
  virtualFields : Value → Option Value
  sortableFields : List Value
  filterableFields : List Value
  maskedFields : Value → Bool
  primaryKeyFields : List Value

/-- `compliance.get(key, default)`; only a dictionary has `get`. -/
def complianceOf (compliance : Value) (key default : String) : Except Exc Value :=
  match compliance with
  | .dict entries => .ok ((entries.lookup key).getD (.str default))
  | _ => .error (.other "AttributeError")

/-- Whether a property is masked. -/
def isMasked (compliance : Value) : Except Exc Bool := do
  if truthy compliance then
    let sensitivity ← complianceOf compliance "sensitivity" "PUBLIC"
    let masking ← complianceOf compliance "masking_strategy" "MASK_NONE"
    return sensitivity ≠ .str "PUBLIC" ∧ masking ≠ .str "MASK_NONE"
  else return false

/-- The loop of `_load_schema` over the property types. -/
def schemaLoop : List Props → SchemaInfo → Except Exc SchemaInfo
  | [], schema => return schema
  | pt :: rest, schema => do
    let apiName := getDefault pt .apiName (.str "")
    let physical := pt .physicalColumn
    let virtual := pt .virtualExpression
    let masked ← isMasked (pt .compliance)
    let usable := masked = false ∧ truthy physical = true
    schemaLoop rest { schema with
      physicalColumns := if truthy physical then schema.physicalColumns ++ [physical] else schema.physicalColumns
      virtualFields := if truthy physical = false ∧ truthy virtual = true then
          Function.update schema.virtualFields apiName (some virtual)
        else schema.virtualFields
      maskedFields := if masked then Function.update schema.maskedFields apiName true else schema.maskedFields
      sortableFields := if usable then schema.sortableFields ++ [apiName] else schema.sortableFields
      filterableFields := if usable then schema.filterableFields ++ [apiName] else schema.filterableFields }

/-- `_load_schema`. -/
def loadSchema (g : Graph) (tenantId typeRid : String) : Except Exc SchemaInfo :=
  let propertyTypes := getPropertyTypesForEntity g tenantId typeRid
  schemaLoop propertyTypes ⟨typeRid, propertyTypes, getAssetMapping g tenantId typeRid, [], fun _ => none, [],
    [], fun _ => false, []⟩

/-! ## The read operations -/

inductive ReadOp where
  | getEntity (type : EntityType) (rid : String)
  | getEntityDraft (type : EntityType) (rid : String)
  | queryEntities (type : EntityType) (search lifecycleStatus : Option String) (offset limit : ℕ)
  | getPropertyTypesForEntity (entityRid : String)
  | queryAllPropertyTypes (search : Option String) (offset limit : ℕ)
  | getAssetMapping (entityRid : String)
  | queryAllAssetMappings (search : Option String) (offset limit : ℕ)
  | queryAssetMappingReferences (entityRid : String)
  | loadSchema (typeRid : String)
  | getTopology
  | search (query : String) (types : Option (List String)) (limit : ℕ)
  | getStagingSummary
  | getDraftsSummary

inductive ReadResult where
  | detail (entity : EntityDetail)
  | entity (entity : EntityResponse)
  | details (entities : List EntityDetail) (total : ℕ)
  | properties (propertyTypes : List Props)
  | propertyPage (propertyTypes : List Props) (total : ℕ)
  | mapping (assetMapping : Value)
  | mappings (entries : List MappingEntry) (total : ℕ)
  | references (references : List MappingReference)
  | schema (info : SchemaInfo)
  | topology (topology : Graph.Topology)
  | results (results : List SearchResult)
  | counts (counts : Label → ℕ)

/-- What a read of a user returns. -/
def ReadOp.run (op : ReadOp) (tenantId userId : String) (g : Graph) : Except Exc ReadResult :=
  match op with
  | .getEntity type rid => .detail <$> Ontology.getEntity g tenantId type.label rid
  | .getEntityDraft type rid => .entity <$> Ontology.getEntityDraft g tenantId userId type.label rid
  | .queryEntities type term status offset limit =>
    let (entities, total) := Ontology.queryEntities g tenantId type.label term status offset limit
    .ok (.details entities total)
  | .getPropertyTypesForEntity rid => .ok (.properties (Ontology.getPropertyTypesForEntity g tenantId rid))
  | .queryAllPropertyTypes term offset limit =>
    let (properties, total) := Ontology.queryAllPropertyTypes g tenantId term offset limit
    .ok (.propertyPage properties total)
  | .getAssetMapping rid => .ok (.mapping (Ontology.getAssetMapping g tenantId rid))
  | .queryAllAssetMappings term offset limit =>
    let (entries, total) := Ontology.queryAllAssetMappings g tenantId term offset limit
    .ok (.mappings entries total)
  | .queryAssetMappingReferences rid => .references <$> Ontology.queryAssetMappingReferences g tenantId rid
  | .loadSchema rid => .schema <$> Ontology.loadSchema g tenantId rid
  | .getTopology => .ok (.topology (g.getTopology tenantId))
  | .search query types limit => .ok (.results (Ontology.search g tenantId query types limit))
  | .getStagingSummary => .ok (.counts (g.getStagingSummary tenantId))
  | .getDraftsSummary => .ok (.counts (g.getDraftsSummary tenantId userId))

end Lingshu.Ontology
