import Lingshu.Json.RoundTrip
import Lingshu.Ontology.Published

/-! # Encoded nodes

The fields of `_JSON_STORE_FIELDS` are stored as JSON texts. What is encoded is decoded as it was, and an edit, which
writes encoded updates over a stored node, shows in what is decoded as the updates over what was decoded. -/
namespace Lingshu.Ontology
open Json Interaction
set_option autoImplicit false

/-- The values are values of Python. -/
def Dict.WellFormed (d : Dict) : Prop := ∀ e ∈ d, e.2.wellFormed

instance (d : Dict) : Decidable d.WellFormed := inferInstanceAs (Decidable (∀ e ∈ d, e.2.wellFormed = true))

def encodeField (f : Field) (v : Value) : Value := if f ∈ jsonStoreFields ∧ v ≠ .null then .str (dumps v) else v

def decodeField (f : Field) : Value → Value
  | .str s => if f ∈ jsonStoreFields then (loads s).getD (.str s) else .str s
  | v => v

/-- `_deserialize_from_neo4j`, of a dictionary with its keys. -/
def deserializeDict (props : Dict) : Dict := props.map fun e => (e.1, decodeField e.1 e.2)

/-- The version that an edit starts from: the caller's Draft, else Staging, else Active. -/
def World.editSource (w : World) (ctx : Ctx) (label : Label) (rid : String) : Option Node :=
  (w.graph.getDraftNode label rid ctx.tenantId ctx.userId).or (w.graph.startVersion label rid ctx.tenantId)

/-- What an edit sets besides the updates. -/
def World.editMarks (w : World) (ctx : Ctx) (label : Label) (rid : String) (source : Node) : Dict :=
  match w.graph.getDraftNode label rid ctx.tenantId ctx.userId with
  | some _ => []
  | none => cloneProps ctx source

/-! ## Fields -/

section Fields
variable {f : Field} {v : Value}

theorem deserializeFromNeo4j_apply (props : Props) (f : Field) :
    deserializeFromNeo4j props f = decodeField f (props f) := rfl

theorem serializeForNeo4j_eq (props : Dict) :
    serializeForNeo4j props = props.map fun e => (e.1, encodeField e.1 e.2) := rfl

theorem decodeField_plain (hf : f ∉ jsonStoreFields) (v : Value) : decodeField f v = v := by
  cases v with
  | str s => exact if_neg hf
  | _ => rfl

theorem decodeField_encodeField (f : Field) (hv : v.wellFormed) : decodeField f (encodeField f v) = v := by
  unfold encodeField
  split
  · next h => rw [decodeField, if_pos h.1, loads_dumps hv, Option.getD_some]
  · next h =>
    by_cases hf : f ∈ jsonStoreFields
    · obtain rfl : v = .null := by
        by_contra hnull
        exact h ⟨hf, hnull⟩
      rfl
    · exact decodeField_plain hf v

end Fields

/-! ## Dictionaries -/

section Dictionaries
variable {d source updates : Dict}

@[simp] theorem deserializeDict_keys (d : Dict) : (deserializeDict d).keys = d.keys := by
  simp [deserializeDict, Dict.keys]

theorem deserialize_serialize (h : d.WellFormed) : deserializeDict (serializeForNeo4j d) = d := by
  have hentry : ∀ e ∈ d, (e.1, decodeField e.1 (encodeField e.1 e.2)) = e := fun e he => by
    rw [decodeField_encodeField e.1 (h e he)]
  rw [serializeForNeo4j_eq, deserializeDict, List.map_map]
  exact (List.map_congr_left hentry).trans (List.map_id d)

theorem deserialize_update (d d' : Dict) :
    deserializeDict (d.update d') = (deserializeDict d).update (deserializeDict d') := by
  have hrest : deserializeDict (d.filter fun e => e.1 ∉ d'.keys) =
      (deserializeDict d).filter fun e => e.1 ∉ d'.keys := by
    rw [deserializeDict, deserializeDict, List.filter_map]
    rfl
  rw [Dict.update, Dict.update, deserializeDict_keys, ← hrest]
  exact List.map_append

theorem lookup_deserializeDict (d : Dict) (f : Field) :
    (deserializeDict d).lookup f = (d.lookup f).map (decodeField f) := by
  induction d with
  | nil => rfl
  | cons e d ih =>
    obtain ⟨g, v⟩ := e
    by_cases hg : f = g
    · subst hg
      simp [deserializeDict]
    · have hb : (f == g) = false := by simpa using hg
      simpa [deserializeDict, List.lookup_cons, hb] using ih

/-- A dictionary over a stored node. -/
theorem deserialize_overlay (p : Props) (d : Dict) :
    deserializeFromNeo4j (p.update d) = (deserializeFromNeo4j p).update (deserializeDict d) := by
  funext f
  rw [deserializeFromNeo4j_apply, Props.update, Props.update, lookup_deserializeDict]
  cases d.lookup f <;> rfl

theorem deserialize_unencoded (h : ∀ f ∈ d.keys, f ∉ jsonStoreFields) : deserializeDict d = d := by
  have hentry : ∀ e ∈ d, (e.1, decodeField e.1 e.2) = e := fun e he => by
    rw [decodeField_plain (h e.1 (List.mem_map_of_mem he))]
  exact (List.map_congr_left hentry).trans (List.map_id d)

/-- What an edit writes, decoded. -/
theorem deserialize_edit (h : updates.WellFormed) (now : String) :
    deserializeDict (Dict.set (serializeForNeo4j updates) .updatedAt (.str now)) =
      Dict.set updates .updatedAt (.str now) := by
  have hfilter : deserializeDict ((serializeForNeo4j updates).filter fun e => e.1 ≠ .updatedAt) =
      (deserializeDict (serializeForNeo4j updates)).filter fun e => e.1 ≠ .updatedAt := by
    rw [deserializeDict, deserializeDict, List.filter_map]
    rfl
  rw [Dict.set, Dict.set, ← deserialize_serialize h, ← hfilter, deserialize_serialize h]
  rfl

end Dictionaries

/-! ## Edits -/

section Edits
variable {w w' : World} {ctx : Ctx} {label : Label} {rid : String} {updates : Dict} {response : EntityResponse}

/-- A Draft that is written to stays the caller's Draft. -/
theorem getDraftNode_setWhere {g : Graph} {tenantId userId : String} {d : Dict} {draft : Node}
    (hd : ∀ f ∈ versionFields, f ∉ d.keys) (hdraft : g.getDraftNode label rid tenantId userId = some draft) :
    (g.setWhere (Graph.filterOf label rid tenantId (some true) none (some userId)) d).getDraftNode label rid tenantId
      userId = some (draft.set d) := by
  have hsame : ∀ n : Node, ((n.set d).keyed label rid tenantId && (n.set d).draftOf userId) =
      (n.keyed label rid tenantId && n.draftOf userId) := by
    intro n
    rw [Node.keyed_set (hd _ (by decide)) (hd _ (by decide)), Node.draftOf, Node.draftOf, Node.draft, Node.draft,
      Node.has_set_of_notMem (hd _ (by decide)), Node.has_set_of_notMem (hd _ (by decide))]
  have hpred : ((fun n : Node => n.keyed label rid tenantId && n.draftOf userId) ∘ fun n =>
      if Graph.filterOf label rid tenantId (some true) none (some userId) n then n.set d else n) =
        fun n => n.keyed label rid tenantId && n.draftOf userId := by
    funext n
    rw [Function.comp_apply]
    split
    · exact hsame n
    · rfl
  have hfound := List.find?_some hdraft
  rw [Graph.getDraftNode, Graph.setWhere, List.find?_map, hpred]
  rw [Graph.getDraftNode] at hdraft
  rw [hdraft, Option.map_some, filterOf_draft, if_pos hfound]

/-- A copy of a version is the caller's Draft when there was none. -/
theorem getDraftNode_create {g : Graph} {d : Dict} {source : Node} (hd : ∀ f ∈ versionFields, f ∉ d.keys)
    (hdraft : g.getDraftNode label rid ctx.tenantId ctx.userId = none)
    (hkeyed : source.keyed label rid ctx.tenantId) :
    (g.create label (source.props.update (Dict.update (cloneProps ctx source) d))).getDraftNode label rid ctx.tenantId
      ctx.userId = some ⟨g.nextId, label, source.props.update (Dict.update (cloneProps ctx source) d)⟩ := by
  let draft : Node := ⟨g.nextId, label, source.props.update (Dict.update (cloneProps ctx source) d)⟩
  have hprops : ∀ f ∈ versionFields, draft.props f = source.props.update (cloneProps ctx source) f := fun f hf => by
    rw [Props.update, ← Dict.lookup_update_of_notMem (hd f hf)]
    rfl
  obtain ⟨-, hrid, htenant⟩ := Node.keyed_iff.mp hkeyed
  have hdraftKeyed : draft.keyed label rid ctx.tenantId = true :=
    Node.keyed_iff.mpr ⟨rfl, (hprops .rid (by decide)).trans hrid, (hprops .tenantId (by decide)).trans htenant⟩
  have hdraftOf : draft.draftOf ctx.userId = true := by
    rw [Node.draftOf, Node.draft, Bool.and_eq_true]
    exact ⟨decide_eq_true (hprops .isDraft (by decide)), decide_eq_true (hprops .draftOwner (by decide))⟩
  have hnew : (draft.keyed label rid ctx.tenantId && draft.draftOf ctx.userId) = true := by
    rw [hdraftKeyed, hdraftOf]
    rfl
  rw [Graph.getDraftNode] at hdraft
  rw [Graph.getDraftNode, Graph.create, List.find?_append, hdraft, Option.none_or]
  exact List.find?_cons_of_pos hnew

/-- The caller's Draft after an edit that returns. -/
theorem draft_of_updateEntity (h : updates.AdmittedBy (updateFields label))
    (hrun : (updateEntity ctx label rid updates).run exec w = (.ok response, w')) :
    ∃ source draft, w.editSource ctx label rid = some source ∧
      w'.graph.getDraftNode label rid ctx.tenantId ctx.userId = some draft ∧
      draft.props = source.props.update (Dict.update (w.editMarks ctx label rid source)
        (Dict.set (serializeForNeo4j updates) .updatedAt (.str ctx.now))) := by
  have haccepted : EditAccepted w ctx label rid updates := by
    by_contra hno
    obtain ⟨e, herror⟩ := updateEntity_refused hno
    rw [herror] at hrun
    cases hrun
  obtain ⟨_, haccept⟩ := updateEntity_accepted haccepted
  rw [haccept] at hrun
  obtain rfl := (Prod.mk.inj hrun).2
  have hplain := updateProps_plain h ctx.now
  obtain ⟨-, -, d, hd, -⟩ := haccepted
  rw [editProps] at hd
  rw [World.editSource, World.onGraph, editGraph]
  cases hdraft : w.graph.getDraftNode label rid ctx.tenantId ctx.userId with
  | some draft =>
    have hmarks : w.editMarks ctx label rid draft = [] := by rw [World.editMarks, hdraft]
    refine ⟨draft, draft.set (Dict.set (serializeForNeo4j updates) .updatedAt (.str ctx.now)), rfl, ?_, ?_⟩
    · exact getDraftNode_setWhere hplain hdraft
    · rw [hmarks, Node.set_props]
      exact congrArg draft.props.update (List.append_nil _).symm
  | none =>
    rw [hdraft] at hd
    obtain ⟨source, hsource, -⟩ := Option.map_eq_some_iff.mp hd
    have hmarks : w.editMarks ctx label rid source = cloneProps ctx source := by rw [World.editMarks, hdraft]
    rw [hsource]
    refine ⟨source, ⟨w.graph.nextId, label, _⟩, rfl, ?_, by rw [hmarks]⟩
    exact getDraftNode_create hplain hdraft (startVersion_mem hsource).2

theorem deserialize_editMarks (source : Node) :
    deserializeDict (w.editMarks ctx label rid source) = w.editMarks ctx label rid source := by
  refine deserialize_unencoded fun f hf => ?_
  rw [World.editMarks] at hf
  split at hf
  · cases hf
  · revert hf
    simp only [cloneProps, Dict.keys, List.map_cons, List.map_nil, List.mem_cons, List.not_mem_nil, or_false]
    rintro (rfl | rfl | rfl | rfl) <;> decide

end Edits

/-- Decoding undoes encoding, commutes with overlaying encoded updates, and so an edit shows in the decoded Draft as the
updates over the decoded version. -/
theorem encoding_faithful :
    (∀ m : Dict, m.WellFormed → deserializeDict (serializeForNeo4j m) = m) ∧
    (∀ source updates : Dict, updates.WellFormed →
      deserializeDict (source.update (serializeForNeo4j updates)) = (deserializeDict source).update updates) ∧
    ∀ (w w' : World) (ctx : Ctx) (label : Label) (rid : String) (updates : Dict) (response : EntityResponse),
      updates.AdmittedBy (updateFields label) → updates.WellFormed →
      (updateEntity ctx label rid updates).run exec w = (.ok response, w') →
      ∃ source draft, w.editSource ctx label rid = some source ∧
        w'.graph.getDraftNode label rid ctx.tenantId ctx.userId = some draft ∧
        deserializeFromNeo4j draft.props = (deserializeFromNeo4j source.props).update
          (Dict.update (w.editMarks ctx label rid source) (Dict.set updates .updatedAt (.str ctx.now))) := by
  refine ⟨fun m hm => deserialize_serialize hm, fun source updates h => ?_, ?_⟩
  · rw [deserialize_update, deserialize_serialize h]
  · intro w w' ctx label rid updates response hadmitted h hrun
    obtain ⟨source, draft, hsource, hdraft, hprops⟩ := draft_of_updateEntity hadmitted hrun
    refine ⟨source, draft, hsource, hdraft, ?_⟩
    rw [hprops, deserialize_overlay, deserialize_update, deserialize_editMarks, deserialize_edit h]

/-- An ObjectType whose `validation` is stored as a text, and its lock. -/
def lockedWorld : World :=
  { World.empty with
    graph := ⟨[⟨0, .objectType, Props.update (fun _ => .null) [(.rid, .str "ri.obj.1"), (.tenantId, .str "t"),
      (.isDraft, .bool false), (.isStaging, .bool false), (.isActive, .bool true), (.displayName, .str "Order"),
      (.validation, .str "\x7b\"min\": 1\x7d")]⟩], [], 1⟩
    redis := fun key => if key = .lock "ri.obj.1" then some "u" else none }

def mappingUpdate : Dict :=
  [(.description, .str "null"), (.assetMapping, .dict [("table", .str "\"o\""), ("limit", .null)])]

theorem encoding_faithful_update : deserializeDict (serializeForNeo4j mappingUpdate) = mappingUpdate ∧
    ∃ (source draft : Node) (w' : World),
      lockedWorld.editSource ⟨"t", "u", "1", "a"⟩ .objectType "ri.obj.1" = some source ∧
      w'.graph.getDraftNode .objectType "ri.obj.1" "t" "u" = some draft ∧
      deserializeFromNeo4j draft.props = (deserializeFromNeo4j source.props).update
        (Dict.update (lockedWorld.editMarks ⟨"t", "u", "1", "a"⟩ .objectType "ri.obj.1" source)
          (Dict.set mappingUpdate .updatedAt (.str "1"))) := by
  have htyped : mappingUpdate.WellFormed := by decide
  have haccepted : EditAccepted lockedWorld ⟨"t", "u", "1", "a"⟩ .objectType "ri.obj.1" mappingUpdate :=
    ⟨rfl, by decide +kernel, _, rfl, by decide +kernel⟩
  obtain ⟨response, hrun⟩ := updateEntity_accepted haccepted
  refine ⟨encoding_faithful.1 mappingUpdate htyped, ?_⟩
  obtain ⟨source, draft, h⟩ := encoding_faithful.2.2 _ _ _ _ _ _ _ (by decide) htyped hrun
  exact ⟨source, draft, _, h⟩

end Lingshu.Ontology
