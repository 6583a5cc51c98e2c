import Lingshu.Json.Value
import Mathlib.Data.List.Sort

/-! # Labels, fields, property maps and errors

The vocabulary of `ontology/`: the node labels, the property names, Python dictionaries over
property names, the field tables the service consults, the request models and the exceptions. -/
namespace Lingshu.Ontology
open Json
set_option autoImplicit false

/-! ## Labels and rids -/

/-- The values of `ENTITY_LABELS`. -/
inductive Label where
  | objectType
  | linkType
  | interfaceType
  | sharedPropertyType
  | propertyType
  | actionType
  deriving DecidableEq, Repr

def Label.name : Label → String
  | .objectType => "ObjectType"
  | .linkType => "LinkType"
  | .interfaceType => "InterfaceType"
  | .sharedPropertyType => "SharedPropertyType"
  | .propertyType => "PropertyType"
  | .actionType => "ActionType"

/-- `ENTITY_RID_TYPES`. -/
def entityRidTypes : Label → String
  | .objectType => "obj"
  | .linkType => "link"
  | .interfaceType => "iface"
  | .sharedPropertyType => "shprop"
  | .actionType => "action"
  | .propertyType => "prop"

/-- `generate_rid`, for the `uuid` that `uuid4` returned. The resource types used here are all
registered, so the `ValueError` branch is not reached. -/
def generateRid (resourceType uuid : String) : String := "ri." ++ resourceType ++ "." ++ uuid

/-! ## Fields -/

/-- Property names of Neo4j nodes; `other` is for a name that has no constructor here. -/
inductive Field where
  | rid
  | tenantId
  | apiName
  | displayName
  | description
  | lifecycleStatus
  | isDraft
  | isStaging
  | isActive
  | snapshotId
  | parentSnapshotId
  | draftOwner
  | createdAt
  | updatedAt
  | dataType
  | category
  | cardinality
  | safetyLevel
  | widget
  | validation
  | compliance
  | parameters
  | execution
  | sideEffects
  | linkRequirements
  | objectConstraint
  | assetMapping
  | entityValidation
  | implementsInterfaceTypeRids
  | primaryKeyPropertyTypeRids
  | extendsInterfaceTypeRids
  | requiredSharedPropertyTypeRids
  | sourceObjectTypeRid
  | sourceInterfaceTypeRid
  | targetObjectTypeRid
  | targetInterfaceTypeRid
  | inheritFromSharedPropertyTypeRid
  | physicalColumn
  | virtualExpression
  | other (name : String)
  deriving DecidableEq, Repr

def Field.name : Field → String
  | .rid => "rid"
  | .tenantId => "tenant_id"
  | .apiName => "api_name"
  | .displayName => "display_name"
  | .description => "description"
  | .lifecycleStatus => "lifecycle_status"
  | .isDraft => "is_draft"
  | .isStaging => "is_staging"
  | .isActive => "is_active"
  | .snapshotId => "snapshot_id"
  | .parentSnapshotId => "parent_snapshot_id"
  | .draftOwner => "draft_owner"
  | .createdAt => "created_at"
  | .updatedAt => "updated_at"
  | .dataType => "data_type"
  | .category => "category"
  | .cardinality => "cardinality"
  | .safetyLevel => "safety_level"
  | .widget => "widget"
  | .validation => "validation"
  | .compliance => "compliance"
  | .parameters => "parameters"
  | .execution => "execution"
  | .sideEffects => "side_effects"
  | .linkRequirements => "link_requirements"
  | .objectConstraint => "object_constraint"
  | .assetMapping => "asset_mapping"
  | .entityValidation => "entity_validation"
  | .implementsInterfaceTypeRids => "implements_interface_type_rids"
  | .primaryKeyPropertyTypeRids => "primary_key_property_type_rids"
  | .extendsInterfaceTypeRids => "extends_interface_type_rids"
  | .requiredSharedPropertyTypeRids => "required_shared_property_type_rids"
  | .sourceObjectTypeRid => "source_object_type_rid"
  | .sourceInterfaceTypeRid => "source_interface_type_rid"
  | .targetObjectTypeRid => "target_object_type_rid"
  | .targetInterfaceTypeRid => "target_interface_type_rid"
  | .inheritFromSharedPropertyTypeRid => "inherit_from_shared_property_type_rid"
  | .physicalColumn => "physical_column"
  | .virtualExpression => "virtual_expression"
  | .other name => name

/-- `_JSON_STORE_FIELDS`, which equals `JSON_FIELDS` of the repository. -/
def jsonStoreFields : List Field :=
  [.widget, .validation, .compliance, .parameters, .execution, .sideEffects, .linkRequirements,
    .objectConstraint, .assetMapping, .entityValidation]

/-- `IMMUTABLE_FIELDS`. -/
def immutableFields : List Field := [.rid, .apiName, .tenantId, .createdAt]

/-- `ENTITY_IMMUTABLE_FIELDS.get(label, frozenset())`. -/
def entityImmutableFields : Label → List Field
  | .linkType => [.sourceObjectTypeRid, .targetObjectTypeRid]
  | .interfaceType => [.category]
  | .sharedPropertyType => [.dataType]
  | _ => []

/-- `all_immutable` of `check_immutable_fields`. -/
def allImmutable (label : Label) : List Field := immutableFields ++ entityImmutableFields label

/-- `CASCADE_FIELDS`. -/
def cascadeFields : List Field := [.displayName, .description, .widget, .validation, .compliance]

/-- The properties that say which version of an entity a node is. -/
def versionFields : List Field :=
  [.rid, .tenantId, .isDraft, .isStaging, .isActive, .snapshotId, .parentSnapshotId, .draftOwner]

/-! ## Property maps -/

/-- The properties of a node; Neo4j does not tell a null property from an absent one. -/
abbrev Props := Field → Value

/-- A Python dictionary over property names, its keys distinct. -/
abbrev Dict := List (Field × Value)

namespace Dict

/-- `d.get(f)`. -/
def get (d : Dict) (f : Field) : Value := (d.lookup f).getD .null

def keys (d : Dict) : List Field := d.map Prod.fst

/-- `d[f] = v`. -/
def set (d : Dict) (f : Field) (v : Value) : Dict := (f, v) :: d.filter (fun e => e.1 ≠ f)

/-- `{**d, **d'}`. -/
def update (d d' : Dict) : Dict := d' ++ d.filter (fun e => e.1 ∉ d'.keys)

theorem lookup_eq_none {d : Dict} {f : Field} : d.lookup f = none ↔ f ∉ d.keys := by
  induction d with
  | nil => simp [keys]
  | cons e d ih =>
    obtain ⟨g, v⟩ := e
    by_cases h : f = g
    · subst h; simp [keys]
    · have hb : (f == g) = false := by simpa using h
      simp only [List.lookup_cons, hb, keys, List.map_cons, List.mem_cons, h, false_or]
      exact ih

theorem lookup_filter {d : Dict} {q : Field → Bool} {f : Field} (h : q f = true) :
    (d.filter fun e => q e.1).lookup f = d.lookup f := by
  induction d with
  | nil => rfl
  | cons e d ih =>
    obtain ⟨g, v⟩ := e
    by_cases hg : f = g
    · subst hg; simp [h]
    · have hb : (f == g) = false := by simpa using hg
      by_cases hq : q g = true
      · simp only [List.filter_cons, hq, if_true, List.lookup_cons, hb, ih]
      · simp only [List.filter_cons, hq, if_false, List.lookup_cons, hb, ih, Bool.false_eq_true]

theorem lookup_update_of_some {d d' : Dict} {f : Field} {v : Value} (h : d'.lookup f = some v) :
    (d.update d').lookup f = some v := by
  rw [update, List.lookup_append, h, Option.some_or]

theorem lookup_update_of_notMem {d d' : Dict} {f : Field} (h : f ∉ d'.keys) :
    (d.update d').lookup f = d.lookup f := by
  rw [update, List.lookup_append, lookup_eq_none.mpr h, Option.none_or]
  simpa using lookup_filter (q := fun g => decide (g ∉ d'.keys)) (by simpa using h)

theorem lookup_update_of_notMem_left {d d' : Dict} {f : Field} (h : f ∉ d.keys) :
    (d.update d').lookup f = d'.lookup f := by
  have hnone : (d.filter fun e => e.1 ∉ d'.keys).lookup f = none := by
    refine lookup_eq_none.mpr fun hk => ?_
    obtain ⟨e, he, rfl⟩ := List.mem_map.mp hk
    exact h (List.mem_map_of_mem (List.mem_filter.mp he).1)
  rw [update, List.lookup_append, hnone, Option.or_none]

theorem notMem_keys_update {d d' : Dict} {f : Field} (h : f ∉ d.keys) (h' : f ∉ d'.keys) :
    f ∉ (d.update d').keys := by
  rw [← lookup_eq_none, lookup_update_of_notMem h', lookup_eq_none]
  exact h

theorem notMem_keys_set {d : Dict} {f g : Field} {v : Value} (hg : g ≠ f) (h : g ∉ d.keys) :
    g ∉ (d.set f v).keys := by
  rw [← lookup_eq_none] at h ⊢
  have hb : (g == f) = false := by simpa using hg
  rw [set, List.lookup_cons, hb]
  simpa [h] using lookup_filter (d := d) (q := fun x => decide (x ≠ f)) (f := g) (by simpa using hg)

end Dict

/-- `{**p, **d}`, and `SET n += d` on a node with properties `p`. -/
def Props.update (p : Props) (d : Dict) : Props := fun f => (d.lookup f).getD (p f)

theorem Props.update_of_notMem {p : Props} {d : Dict} {f : Field} (h : f ∉ d.keys) :
    p.update d f = p f := by
  simp [Props.update, Dict.lookup_eq_none.mpr h]

@[simp] theorem Props.update_nil (p : Props) : p.update [] = p := rfl

theorem Props.update_cons (p : Props) (g : Field) (v : Value) (d : Dict) (f : Field) :
    p.update ((g, v) :: d) f = if f = g then v else p.update d f := by
  by_cases h : f = g
  · subst h; simp [Props.update]
  · have hb : (f == g) = false := by simpa using h
    simp [Props.update, List.lookup_cons, hb, h]

/-- `_serialize_for_neo4j`. -/
def serializeForNeo4j (props : Dict) : Dict :=
  props.map fun e => (e.1, if e.1 ∈ jsonStoreFields ∧ e.2 ≠ .null then .str (dumps e.2) else e.2)

@[simp] theorem serializeForNeo4j_keys (props : Dict) : (serializeForNeo4j props).keys = props.keys := by
  simp [serializeForNeo4j, Dict.keys]

theorem serializeForNeo4j_lookup {props : Dict} {f : Field} (hf : f ∉ jsonStoreFields) :
    (serializeForNeo4j props).lookup f = props.lookup f := by
  induction props with
  | nil => rfl
  | cons e d ih =>
    obtain ⟨g, v⟩ := e
    by_cases hg : f = g
    · subst hg; simp [serializeForNeo4j, hf]
    · have hb : (f == g) = false := by simpa using hg
      simpa [serializeForNeo4j, List.lookup_cons, hb] using ih

/-- `_deserialize_from_neo4j`. -/
def deserializeFromNeo4j (props : Props) : Props := fun f =>
  match props f with
  | .str s => if f ∈ jsonStoreFields then (loads s).getD (.str s) else .str s
  | v => v

/-! ## Request models -/

/-- The fields of `CreateEntityRequest` and its subclasses. -/
def createFields (label : Label) : List Field :=
  match label with
  | .objectType => [.apiName, .displayName, .description, .lifecycleStatus, .implementsInterfaceTypeRids,
      .primaryKeyPropertyTypeRids, .validation, .assetMapping]
  | .linkType => [.apiName, .displayName, .description, .lifecycleStatus, .sourceObjectTypeRid,
      .sourceInterfaceTypeRid, .targetObjectTypeRid, .targetInterfaceTypeRid, .cardinality,
      .implementsInterfaceTypeRids, .primaryKeyPropertyTypeRids, .validation, .assetMapping]
  | .interfaceType => [.apiName, .displayName, .description, .lifecycleStatus, .category,
      .extendsInterfaceTypeRids, .requiredSharedPropertyTypeRids, .linkRequirements, .objectConstraint]
  | .sharedPropertyType => [.apiName, .displayName, .description, .lifecycleStatus, .dataType, .widget,
      .validation, .compliance]
  | .actionType => [.apiName, .displayName, .description, .lifecycleStatus, .parameters, .execution,
      .safetyLevel, .sideEffects]
  -- `CreatePropertyTypeRequest`
  | .propertyType => [.apiName, .displayName, .description, .dataType, .inheritFromSharedPropertyTypeRid,
      .physicalColumn, .virtualExpression, .widget, .validation, .compliance]

/-- The fields of `UpdateEntityRequest` and its subclasses. -/
def updateFields (label : Label) : List Field :=
  match label with
  | .objectType => [.displayName, .description, .lifecycleStatus, .implementsInterfaceTypeRids,
      .primaryKeyPropertyTypeRids, .validation, .assetMapping]
  | .linkType => [.displayName, .description, .lifecycleStatus, .cardinality,
      .implementsInterfaceTypeRids, .primaryKeyPropertyTypeRids, .validation, .assetMapping]
  | .interfaceType => [.displayName, .description, .lifecycleStatus, .extendsInterfaceTypeRids,
      .requiredSharedPropertyTypeRids, .linkRequirements, .objectConstraint]
  | .sharedPropertyType => [.displayName, .description, .lifecycleStatus, .widget, .validation, .compliance]
  | .actionType => [.displayName, .description, .lifecycleStatus, .parameters, .execution, .safetyLevel,
      .sideEffects]
  | .propertyType => [.displayName, .description, .physicalColumn, .virtualExpression, .widget, .validation,
      .compliance]

/-- The dictionaries that `model_dump(exclude_none=True)` of a request with these fields yields. -/
def Dict.AdmittedBy (d : Dict) (fields : List Field) : Prop := ∀ e ∈ d, e.1 ∈ fields ∧ e.2 ≠ .null

instance (d : Dict) (fields : List Field) : Decidable (d.AdmittedBy fields) :=
  inferInstanceAs (Decidable (∀ e ∈ d, e.1 ∈ fields ∧ e.2 ≠ .null))

/-- No request model lets a caller set a version property. -/
theorem updateFields_version (label : Label) : ∀ f ∈ updateFields label, f ∉ versionFields := by
  cases label <;> decide

theorem cascadeFields_version : ∀ f ∈ cascadeFields, f ∉ versionFields := by decide

theorem Dict.AdmittedBy.notMem {d : Dict} {fields : List Field} (h : d.AdmittedBy fields)
    (hf : ∀ f ∈ fields, f ∉ versionFields) : ∀ f ∈ versionFields, f ∉ d.keys := by
  intro f hv hk
  obtain ⟨e, he, rfl⟩ := List.mem_map.mp hk
  exact hf e.1 (h e he).1 hv

/-! ## Exceptions -/

/-- The codes of `ErrorCode` that the ontology service raises. -/
inductive ErrorCode where
  | ontologyNotFound
  | ontologyDependencyConflict
  | ontologyLockConflict
  | ontologyLockRequired
  | ontologyCycleDetected
  | ontologyDuplicateApiName
  | ontologyImmutableField
  | ontologyContractViolation
  | ontologyStagingEmpty
  | ontologyUncommittedChanges
  | ontologyDraftNotFound
  | ontologyStagingNotFound
  deriving DecidableEq, Repr

structure AppError where
  code : ErrorCode
  message : String
  details : List (String × Value)
  deriving DecidableEq

/-- What a call may raise: the service's own errors, the three exceptions that
`retry_neo4j_operation` retries on, and any other exception of a driver or of Python. -/
inductive Exc where
  | app (e : AppError)
  | serviceUnavailable
  | sessionExpired
  | transientError
  | other (what : String)
  deriving DecidableEq

/-- Membership in `RETRYABLE_EXCEPTIONS`. -/
def Exc.retryable : Exc → Bool
  | .serviceUnavailable | .sessionExpired | .transientError => true
  | _ => false

def appError (code : ErrorCode) (message : String) (details : List (String × Value)) : Exc :=
  .app ⟨code, message, details⟩

/-! ## Validators without queries -/

/-- `sorted(names)`. -/
def sortedNames (fs : List Field) : List String := (fs.map Field.name).mergeSort (fun a b => decide (a ≤ b))

/-- `check_immutable_fields`: `none` when nothing is raised. -/
def checkImmutableFields (label : Label) (updates : Dict) : Option Exc :=
  let violated := updates.keys.filter (fun f => f ∈ allImmutable label)
  if violated = [] then none
  else some (appError .ontologyImmutableField
    ("Cannot modify immutable field(s): " ++ ", ".intercalate (sortedNames violated))
    [("fields", .list ((sortedNames violated).map .str)), ("entity_type", .str label.name)])

theorem checkImmutableFields_none {label : Label} {updates : Dict}
    (h : checkImmutableFields label updates = none) : ∀ f ∈ allImmutable label, f ∉ updates.keys := by
  intro f hf hk
  simp only [checkImmutableFields] at h
  split at h
  · rename_i hv
    have := List.filter_eq_nil_iff.mp hv f hk
    simp [hf] at this
  · cases h

end Lingshu.Ontology
