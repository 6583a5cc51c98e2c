import Lingshu.Ontology.Schema
import Lingshu.Setting.Schema
import Lingshu.Text.Scan
import Lingshu.Text.Split

/-! # Resource identifiers

`rid.py`, and the places that mint a rid. The `$` of the pattern also matches before a newline at the end, and workflows
are minted without it. -/
namespace Lingshu.Infra
open Text
set_option autoImplicit false

/-! ## UUIDs -/

def hexDigit (c : Char) : Bool := ('0' ≤ c ∧ c ≤ '9') ∨ ('a' ≤ c ∧ c ≤ 'f')

/-- What `uuid4` returns, by its `hex`. -/
structure Uuid where
  hex : List Char
  length : hex.length = 32
  digits : ∀ c ∈ hex, hexDigit c

/-- The sizes of the groups of digits in the text of a UUID. -/
def groupSizes : List ℕ := [8, 4, 4, 4, 12]

/-- `str(uuid)`. -/
def Uuid.str (uuid : Uuid) : String := String.ofList (grouped '-' groupSizes uuid.hex)

/-! ## The module -/

/-- `VALID_RESOURCE_TYPES`. -/
def validResourceTypes : List String :=
  ["obj", "link", "iface", "action", "shprop", "prop", "snap", "conn", "func", "workflow", "session", "model", "skill",
    "mcp", "subagent", "user", "tenant", "role"]

inductive RidError where
  | valueError (message : String)
  | indexError
  deriving DecidableEq

/-- `str` of a list of strings that need no escape. -/
def listed (names : List String) : String :=
  "[" ++ String.intercalate ", " (names.map fun name => "'" ++ name ++ "'") ++ "]"

/-- `generate_rid`, for what `uuid4` returns. -/
def generateRid (resourceType : String) (uuid : Uuid) : Except RidError String :=
  if resourceType ∈ validResourceTypes then .ok ("ri." ++ resourceType ++ "." ++ uuid.str)
  else .error (.valueError ("Unknown resource type: " ++ resourceType ++ ". Valid types: " ++
    listed (validResourceTypes.mergeSort fun a b => a ≤ b)))

def lower (c : Char) : Bool := 'a' ≤ c ∧ c ≤ 'z'

/-- `RID_PATTERN` up to its `$`. -/
def ridPattern : List (Item Char) :=
  .one 'r' :: .one 'i' :: .one '.' :: .many lower :: .one '.' :: groupItems '-' hexDigit groupSizes

/-- `validate_rid`; the `$` matches at the end and before a newline at the end. -/
def validateRid (rid : String) : Bool :=
  match scan ridPattern rid.toList with
  | some rest => rest = [] ∨ rest = ['\n']
  | none => false

/-- `text.split(".", maxsplit)`. -/
def split : ℕ → List Char → List (List Char)
  | 0, text => [text]
  | n + 1, text =>
    match splitFirst ['.'] text with
    | some (part, rest) => part :: split n rest
    | none => [text]

/-- `parse_rid`. -/
def parseRid (rid : String) : Except RidError (String × String) :=
  if validateRid rid then
    match split 2 rid.toList with
    | _ :: resourceType :: uuid :: _ => .ok (String.ofList resourceType, String.ofList uuid)
    | _ => .error .indexError
  else .error (.valueError ("Invalid RID format: " ++ rid))

/-- `validate_rid_type`. -/
def validateRidType (rid expectedType : String) : Except RidError Bool :=
  if validateRid rid then (parseRid rid).map fun parts => parts.1 = expectedType else .ok false

/-! ## Where rids are minted -/

/-- The methods that store something under a new rid. -/
inductive CreatePath where
  | entity (label : Ontology.Label)
  | propertyType
  | snapshot
  | connection
  | function
  | workflow
  | session
  | model
  | skill
  | mcp
  | subAgent
  | user
  | provisionedUser
  | tenant
  | role
  | seededTenant
  | seededUser
  | seededRole

/-- The rid that a method stores; `create_workflow` puts it together by itself. -/
def CreatePath.mint (uuid : Uuid) : CreatePath → Except RidError String
  | .entity label => generateRid (Ontology.entityRidTypes label) uuid
  | .propertyType => generateRid "prop" uuid
  | .snapshot => generateRid "snap" uuid
  | .connection => generateRid "conn" uuid
  | .function => generateRid "func" uuid
  | .workflow => .ok ("ri.workflow." ++ String.ofList (uuid.hex.take 12))
  | .session => generateRid "session" uuid
  | .model => generateRid "model" uuid
  | .skill => generateRid "skill" uuid
  | .mcp => generateRid "mcp" uuid
  | .subAgent => generateRid "subagent" uuid
  | .user | .provisionedUser | .seededUser => generateRid "user" uuid
  | .tenant | .seededTenant => generateRid "tenant" uuid
  | .role | .seededRole => generateRid "role" uuid

/-! ## The grammar -/

/-- The identifier of a resource type: lowercase letters. -/
def TypeName (resourceType : String) : Prop := resourceType ≠ "" ∧ ∀ c ∈ resourceType.toList, lower c

instance (resourceType : String) : Decidable (TypeName resourceType) :=
  decidable_of_iff (resourceType ≠ "" ∧ resourceType.toList.all lower = true) (and_congr_right' List.all_eq_true)

/-- `ri.{resource_type}.{uuid}`. -/
def Documented (rid : String) : Prop :=
  ∃ resourceType uuid, TypeName resourceType ∧ rid = "ri." ++ resourceType ++ "." ++ Uuid.str uuid

/-- The validation is exact for one string and the parser inverts the grammar, and what is minted is accepted. -/
structure RoundTrip (rid : String) (path : CreatePath) (uuid : Uuid) : Prop where
  exact : validateRid rid ↔ Documented rid
  parsed : ∀ resourceType id, TypeName resourceType → rid = "ri." ++ resourceType ++ "." ++ Uuid.str id →
    parseRid rid = .ok (resourceType, id.str)
  minted : ∃ stored, path.mint uuid = .ok stored ∧ validateRid stored

section Grammar
variable {rid resourceType : String} {uuid : Uuid} {text : List Char}

theorem ridPattern_determinate : Determinate ridPattern := by
  refine ⟨fun c hc => ?_, trivial⟩
  obtain rfl := of_decide_eq_true hc
  decide

/-- What the pattern spells is documented. -/
theorem spells_iff : Spells ridPattern rid.toList ↔ Documented rid := by
  simp only [ridPattern, spells_one_iff, spells_many_iff, spells_groupItems_iff]
  constructor
  · rintro ⟨_, ⟨_, ⟨_, ⟨type, _, hne, hlower, ⟨_, ⟨hex, hlength, hhex, rfl⟩, rfl⟩, rfl⟩, rfl⟩, rfl⟩, htext⟩
    refine ⟨String.ofList type, ⟨hex, hlength, hhex⟩, ⟨?_, by rwa [String.toList_ofList]⟩, ?_⟩
    · exact fun hempty => hne (String.ofList_eq_empty_iff.mp hempty)
    · refine String.toList_inj.mp (htext.trans ?_)
      simp [Uuid.str]
  · rintro ⟨type, uuid, ⟨hne, hlower⟩, rfl⟩
    refine ⟨_, ⟨_, ⟨_, ⟨type.toList, _, ?_, hlower, ⟨_, ⟨uuid.hex, uuid.length, uuid.digits, rfl⟩, rfl⟩, rfl⟩, rfl⟩,
      rfl⟩, ?_⟩
    · exact fun hempty => hne (String.toList_eq_nil_iff.mp hempty)
    · simp [Uuid.str]

theorem newline_notMem (h : Documented rid) : '\n' ∉ rid.toList := by
  obtain ⟨type, uuid, ⟨-, hlower⟩, rfl⟩ := h
  simp only [Uuid.str, String.toList_append, String.toList_ofList, List.mem_append, not_or]
  refine ⟨⟨⟨by decide, fun hmem => absurd (hlower _ hmem) (by decide)⟩, by decide⟩, fun hmem => ?_⟩
  rcases mem_grouped '-' hmem with hmem | hdash
  · exact absurd (uuid.digits _ hmem) (by decide)
  · exact absurd hdash (by decide)

/-- The `$` lets a newline at the end pass. -/
theorem validateRid_iff :
    validateRid rid ↔ Documented rid ∨ ∃ documented, Documented documented ∧ rid = documented ++ "\n" := by
  constructor
  · intro h
    unfold validateRid at h
    split at h
    next rest hscan =>
      obtain ⟨piece, hspells, htext⟩ := spells_of_scan hscan
      have hdocumented : Documented (String.ofList piece) := spells_iff.mp (by rwa [String.toList_ofList])
      rcases of_decide_eq_true h with rfl | rfl
      · rw [List.append_nil] at htext
        rw [← htext, String.ofList_toList] at hdocumented
        exact .inl hdocumented
      · refine .inr ⟨_, hdocumented, String.toList_inj.mp (htext.trans ?_)⟩
        simp
    next => cases h
  · intro h
    have hscan : ∀ {documented}, Documented documented → ∀ rest,
        scan ridPattern (documented.toList ++ rest) = some rest := fun hdocumented =>
      scan_of_spells ridPattern_determinate (spells_iff.mpr hdocumented)
    unfold validateRid
    rcases h with h | ⟨documented, h, rfl⟩
    · have hrest := hscan h []
      rw [List.append_nil] at hrest
      rw [hrest]
      decide
    · rw [String.toList_append, hscan h]
      decide

/-- The validation is exact for all strings that are not a rid and a newline. -/
theorem validateRid_exact_iff :
    (validateRid rid ↔ Documented rid) ↔ ¬∃ documented, Documented documented ∧ rid = documented ++ "\n" := by
  rw [validateRid_iff]
  constructor
  · rintro h ⟨documented, hdocumented, rfl⟩
    refine newline_notMem (h.mp (.inr ⟨_, hdocumented, rfl⟩)) ?_
    rw [String.toList_append]
    exact List.mem_append_right _ List.mem_cons_self
  · intro h
    exact or_iff_left h

theorem parseRid_eq (h : TypeName resourceType) (uuid : Uuid) :
    parseRid ("ri." ++ resourceType ++ "." ++ uuid.str) = .ok (resourceType, uuid.str) := by
  have hvalid : validateRid ("ri." ++ resourceType ++ "." ++ uuid.str) := validateRid_iff.mpr (.inl ⟨_, _, h, rfl⟩)
  have htype : '.' ∉ resourceType.toList := fun hmem => absurd (h.2 _ hmem) (by decide)
  have hfirst : splitFirst ['.'] ("ri." ++ resourceType ++ "." ++ uuid.str).toList =
      some (['r', 'i'], resourceType.toList ++ '.' :: uuid.str.toList) := by
    have htext : ("ri." ++ resourceType ++ "." ++ uuid.str).toList =
        ['r', 'i'] ++ (['.'] ++ (resourceType.toList ++ '.' :: uuid.str.toList)) := by simp
    have hdot : '.' ∉ ['r', 'i'] := by decide
    rw [htext]
    exact splitFirst_append hdot _
  have hsecond : splitFirst ['.'] (resourceType.toList ++ '.' :: uuid.str.toList) =
      some (resourceType.toList, uuid.str.toList) := splitFirst_append htype uuid.str.toList
  rw [parseRid, if_pos hvalid]
  simp only [split, hfirst, hsecond, String.ofList_toList]

/-- Every registered type is one of the grammar. -/
theorem typeName_of_valid : ∀ resourceType ∈ validResourceTypes, TypeName resourceType := by
  have hall : (validResourceTypes.all fun resourceType => decide (TypeName resourceType)) = true := by decide +kernel
  exact fun resourceType h => of_decide_eq_true (List.all_eq_true.mp hall resourceType h)

theorem generateRid_valid (h : resourceType ∈ validResourceTypes) (uuid : Uuid) :
    ∃ rid, generateRid resourceType uuid = .ok rid ∧ validateRid rid :=
  ⟨_, if_pos h, validateRid_iff.mpr (.inl ⟨resourceType, uuid, typeName_of_valid _ h, rfl⟩)⟩

theorem dash_mem (uuid : Uuid) : '-' ∈ uuid.str.toList := by
  rw [Uuid.str, String.toList_ofList, groupSizes, grouped_cons_cons]
  exact List.mem_append_right _ List.mem_cons_self

/-- The rid of a workflow has no UUID. -/
theorem workflow_invalid (uuid : Uuid) : validateRid ("ri.workflow." ++ String.ofList (uuid.hex.take 12)) = false := by
  rw [Bool.eq_false_iff, ne_eq, validateRid_iff]
  have hno : ∀ type (id : Uuid) (rest : List Char), TypeName type →
      ("ri.workflow." ++ String.ofList (uuid.hex.take 12)).toList = ("ri." ++ type ++ "." ++ id.str).toList ++ rest →
      False := by
    intro type id rest htype heq
    have hdot : '.' ∉ type.toList := fun hmem => absurd (htype.2 _ hmem) (by decide)
    have hparts : "workflow".toList ++ '.' :: uuid.hex.take 12 = type.toList ++ '.' :: (id.str.toList ++ rest) := by
      simpa using heq
    obtain ⟨-, hhex⟩ := append_cons_inj (by decide) hdot hparts
    have hdash : '-' ∈ uuid.hex.take 12 := hhex ▸ List.mem_append_left _ (dash_mem id)
    exact absurd (uuid.digits _ (List.mem_of_mem_take hdash)) (by decide)
  rintro (⟨type, id, htype, heq⟩ | ⟨_, ⟨type, id, htype, rfl⟩, heq⟩)
  · exact hno type id [] htype (by rw [heq, List.append_nil])
  · exact hno type id ['\n'] htype (by rw [heq, String.toList_append]; rfl)

theorem minted_iff (path : CreatePath) (uuid : Uuid) :
    (∃ stored, path.mint uuid = .ok stored ∧ validateRid stored) ↔ path ≠ .workflow := by
  cases path with
  | workflow =>
    refine iff_of_false ?_ (not_not.mpr rfl)
    rintro ⟨stored, hstored, hvalid⟩
    obtain rfl := Except.ok.inj hstored
    rw [workflow_invalid] at hvalid
    cases hvalid
  | entity label => exact iff_of_true (generateRid_valid (by cases label <;> decide) uuid) nofun
  | _ => exact iff_of_true (generateRid_valid (by decide) uuid) nofun

end Grammar

/-- All is as documented but for a rid followed by a newline and for workflows. -/
theorem roundTrip_iff (rid : String) (path : CreatePath) (uuid : Uuid) : RoundTrip rid path uuid ↔
    (¬∃ documented, Documented documented ∧ rid = documented ++ "\n") ∧ path ≠ .workflow := by
  constructor
  · intro h
    exact ⟨validateRid_exact_iff.mp h.exact, (minted_iff path uuid).mp h.minted⟩
  · rintro ⟨hexact, hpath⟩
    refine ⟨validateRid_exact_iff.mpr hexact, ?_, (minted_iff path uuid).mpr hpath⟩
    rintro type id htype rfl
    exact parseRid_eq htype id

/-- A UUID of zeros. -/
def zeros : Uuid where
  hex := List.replicate 32 '0'
  length := List.length_replicate
  digits := fun c hc => by rw [List.eq_of_mem_replicate hc]; decide

theorem newline_accepted :
    validateRid "ri.obj.00000000-0000-0000-0000-000000000000\n" ∧
    parseRid "ri.obj.00000000-0000-0000-0000-000000000000\n" = .ok ("obj", "00000000-0000-0000-0000-000000000000\n") ∧
    CreatePath.workflow.mint zeros = .ok "ri.workflow.000000000000" ∧ validateRid "ri.workflow.000000000000" = false ∧
    ¬ RoundTrip "ri.obj.00000000-0000-0000-0000-000000000000\n" .workflow zeros := by
  refine ⟨by decide, by decide, rfl, by decide, fun h => ?_⟩
  exact (minted_iff _ _).mp h.minted rfl

/-! ## The rids of the other modules -/

theorem mint_entity (label : Ontology.Label) (uuid : Uuid) :
    (CreatePath.entity label).mint uuid = .ok (Ontology.generateRid (Ontology.entityRidTypes label) uuid.str) := by
  cases label <;> rfl

theorem mint_snapshot (uuid : Uuid) : CreatePath.snapshot.mint uuid = .ok (Ontology.generateRid "snap" uuid.str) := rfl

theorem mint_user (uuid : Uuid) : CreatePath.user.mint uuid = .ok (Setting.generateRid "user" uuid.str) := rfl

theorem mint_tenant (uuid : Uuid) : CreatePath.tenant.mint uuid = .ok (Setting.generateRid "tenant" uuid.str) := rfl

theorem mint_role (uuid : Uuid) : CreatePath.role.mint uuid = .ok (Setting.generateRid "role" uuid.str) := rfl

/-- The type check compares the types. -/
theorem validateRidType_eq {resourceType : String} (htype : TypeName resourceType) (uuid : Uuid)
    (expectedType : String) : validateRidType ("ri." ++ resourceType ++ "." ++ uuid.str) expectedType =
      .ok (decide (resourceType = expectedType)) := by
  have hvalid : validateRid ("ri." ++ resourceType ++ "." ++ uuid.str) := validateRid_iff.mpr (.inl ⟨_, _, htype, rfl⟩)
  rw [validateRidType, if_pos hvalid, parseRid_eq htype]
  rfl

end Lingshu.Infra
