import Lingshu.Ontology.Maps
import Lingshu.Ontology.Published

/-! # The cascade over a whole sequence

A PropertyType that a SharedPropertyType is the base of follows it, unless it was overridden. The cascade decides
between the two by comparing what the PropertyType stores with what the Active version of the SharedPropertyType
means, at every update anew. Here is what that makes of any sequence of updates, submits and commits. -/
namespace Lingshu.Ontology
open Json Interaction
set_option autoImplicit false

/-! ## The sequence -/

/-- The updates of an `update_shared_property_type` that writes the Draft, whether or not its cascade then fails. -/
def acceptedUpdates (w : World) (call : Call) : Option Dict :=
  match call.op with
  | .update .sharedPropertyType rid updates =>
    if ((updateEntity call.ctx .sharedPropertyType rid updates).run exec w).1.isOk then some updates else none
  | _ => none

structure Sharing where
  world : World
  /-- The value that each field of the SharedPropertyType was last given. -/
  latest : Props
  /-- What its versions have stored. -/
  had : Field → Value → Prop

def Sharing.next (s : Sharing) : SerialEvent → Sharing
  | .env v => { s with world := v.apply s.world }
  | .call call =>
    match acceptedUpdates s.world call with
    | some updates =>
      { world := after call s.world
        latest := s.latest.update updates
        had := fun f v => s.had f v ∨ (serializeForNeo4j updates).lookup f = some v }
    | none => { s with world := after call s.world }

section
variable (tenantId sharedRid : String)

/-- The sequence starts from any stores, whatever values the SharedPropertyType is taken to have last been given. -/
def Sharing.start (w : World) (latest : Props) : Sharing :=
  ⟨w, latest, fun f v => ∃ n ∈ w.graph.nodes, n.keyed .sharedPropertyType sharedRid tenantId ∧ n.props f = v⟩

/-- The calls are updates, submits and commits of the SharedPropertyType, and those that take its lock. -/
def Op.Shares : Op → Prop
  | .update type rid updates => type = .sharedPropertyType ∧ rid = sharedRid ∧ updates.MapsTyped
  | .submitToStaging label rid => label = .sharedPropertyType ∧ rid = sharedRid
  | .acquireLock rid | .releaseLock rid | .refreshLock rid => rid = sharedRid
  | .commitStaging _ => True
  | _ => False

instance : DecidablePred (Op.Shares sharedRid)
  | .update type rid updates =>
    inferInstanceAs (Decidable (type = .sharedPropertyType ∧ rid = sharedRid ∧ updates.MapsTyped))
  | .submitToStaging label rid => inferInstanceAs (Decidable (label = .sharedPropertyType ∧ rid = sharedRid))
  | .acquireLock rid | .releaseLock rid | .refreshLock rid => inferInstanceAs (Decidable (rid = sharedRid))
  | .commitStaging _ => isTrue trivial
  | .create .. | .delete .. | .createPropertyType .. | .discardDraft .. | .discardStaging .. | .discardAllStaging
  | .rollbackToSnapshot .. => isFalse id

def SerialEvent.Shares (e : SerialEvent) : Prop :=
  ∀ call, e = .call call → call.ctx.tenantId = tenantId ∧ call.op.Shares sharedRid

instance : DecidablePred (SerialEvent.Shares tenantId sharedRid)
  | .env _ => isTrue fun _ h => (nomatch h)
  | .call call =>
    decidable_of_iff (call.ctx.tenantId = tenantId ∧ call.op.Shares sharedRid)
      ⟨fun h _ he => SerialEvent.call.inj he ▸ h, fun h => h call rfl⟩

variable (s₀ s : Sharing)

/-- The PropertyType inherits from the SharedPropertyType. -/
def InheritsShared (propRid : String) : Prop :=
  ∃ n ∈ s₀.world.graph.nodes, n.keyed .propertyType propRid tenantId ∧
    n.props .inheritFromSharedPropertyTypeRid = .str sharedRid

/-- At the start, the PropertyType has no value of its own that differs from the shared one. -/
def Follows (propRid : String) (f : Field) : Prop :=
  ∀ n ∈ s₀.world.graph.nodes, n.keyed .propertyType propRid tenantId →
    n.props f = .null ∨ deserializeFromNeo4j n.props f = s₀.latest f

/-- At the start, the PropertyType stores `x`. -/
def Overrides (propRid : String) (f : Field) (x : Value) : Prop :=
  x ≠ .null ∧ ∀ n ∈ s₀.world.graph.nodes, n.keyed .propertyType propRid tenantId → n.props f = x

/-- After an update, what follows has the latest value, and what was overridden with a value that no version has had
keeps it. -/
def CascadeHolds (e : SerialEvent) : Prop :=
  ∀ call updates, e = .call call → acceptedUpdates s.world call = some updates →
    ∀ propRid, InheritsShared tenantId sharedRid s₀ propRid → ∀ f ∈ cascadeFields,
      ∀ n ∈ (s.next e).world.graph.nodes, n.keyed .propertyType propRid tenantId →
        (Follows tenantId s₀ propRid f → deserializeFromNeo4j n.props f = (s.next e).latest f) ∧
        ∀ x, Overrides tenantId s₀ propRid f x → ¬ s.had f x → n.props f = x

/-- The loop comes to a record of the PropertyType `n` that stores what the Active SharedPropertyType has. -/
def CascadeFinds (updates : Dict) (n : Node) (f : Field) : Prop :=
  ∃ m ∈ reached (cascadable updates) (oldValues s.world.graph sharedRid tenantId)
      (s.world.graph.inheritors sharedRid tenantId),
    n.keyed .propertyType m.rid tenantId ∧ m.props f = oldValues s.world.graph sharedRid tenantId f

/-- What an update needs of a field of a PropertyType that follows. -/
def FieldReached (updates : Dict) (n : Node) (f : Field) : Prop :=
  match updates.lookup f with
  | none => n.props f = .null → s.latest f = .null
  | some v => deserializeFromNeo4j n.props f = v ∨
      f ∉ jsonStoreFields ∧ CascadeFinds tenantId sharedRid s updates n f

/-- Every update reaches each field of each PropertyType that follows. -/
def CascadeReaches (e : SerialEvent) : Prop :=
  ∀ call updates, e = .call call → acceptedUpdates s.world call = some updates →
    ∀ propRid, InheritsShared tenantId sharedRid s₀ propRid → ∀ f ∈ cascadeFields,
      Follows tenantId s₀ propRid f → ∀ n ∈ s.world.graph.nodes, n.keyed .propertyType propRid tenantId →
        FieldReached tenantId sharedRid s updates n f

end

/-! ## Fields -/

theorem mem_mapFields : ∀ f ∈ cascadeFields, f ∈ jsonStoreFields → f ∈ mapFields := by decide

theorem deserialize_congr {p q : Props} {f : Field} (h : p f = q f) :
    deserializeFromNeo4j p f = deserializeFromNeo4j q f := by
  simp only [deserializeFromNeo4j, h]

theorem deserialize_null {p : Props} {f : Field} (h : p f = .null) : deserializeFromNeo4j p f = .null := by
  simp only [deserializeFromNeo4j, h]

/-- Only the fields stored as JSON are read as anything but what is stored. -/
theorem deserialize_plain {f : Field} (hf : f ∉ jsonStoreFields) (p : Props) : deserializeFromNeo4j p f = p f := by
  unfold deserializeFromNeo4j
  cases hv : p f with
  | str s => simp [hf]
  | _ => rfl

/-! ## Calls that leave the content alone -/

/-- The fields that say what a version is of, and those that cascade. -/
def contentFields : List Field := .rid :: .tenantId :: cascadeFields

def Node.SameFields (n m : Node) : Prop := n.label = m.label ∧ ∀ f ∈ contentFields, n.props f = m.props f

theorem Node.SameFields.keyed_eq {n m : Node} (h : n.SameFields m) (label : Label) (rid tenantId : String) :
    n.keyed label rid tenantId = m.keyed label rid tenantId := by
  simp only [Node.keyed, Node.has, h.1, h.2 .rid (by decide), h.2 .tenantId (by decide)]

theorem Node.SameFields.deserialize_eq {n m : Node} (h : n.SameFields m) {f : Field} (hf : f ∈ cascadeFields) :
    deserializeFromNeo4j n.props f = deserializeFromNeo4j m.props f :=
  deserialize_congr (h.2 f (List.mem_cons_of_mem _ (List.mem_cons_of_mem _ hf)))

/-- Every node has the content that some node had. -/
def ContentFrom (w w' : World) : Prop := ∀ n ∈ w'.graph.nodes, ∃ m ∈ w.graph.nodes, n.SameFields m

def Cmd.SparesContent : Cmd → Prop
  | .createNode .. => False
  | .updateNode _ _ _ d _ _ => ∀ f ∈ contentFields, f ∉ d.keys
  | _ => True

theorem contentFrom_exec {c : Cmd} {w₀ w : World} (hc : c.SparesContent) (h : ContentFrom w₀ w) :
    ContentFrom w₀ (exec c w).2 := by
  have hset : ∀ {p : Node → Bool} {d : Dict}, (∀ f ∈ contentFields, f ∉ d.keys) →
      ∀ n ∈ (Effect.set p d).on w.graph.nodes, ∃ m ∈ w₀.graph.nodes, n.SameFields m := by
    intro p d hd n hn
    obtain ⟨k, hk, rfl⟩ := List.mem_map.mp hn
    obtain ⟨m, hm, hlabel, hprops⟩ := h k hk
    refine ⟨m, hm, ?_⟩
    split
    · exact ⟨hlabel, fun f hf => (Props.update_of_notMem (hd f hf)).trans (hprops f hf)⟩
    · exact ⟨hlabel, hprops⟩
  have hdrop : ∀ {p : Node → Bool}, ∀ n ∈ (Effect.drop p).on w.graph.nodes, ∃ m ∈ w₀.graph.nodes, n.SameFields m :=
    fun n hn => h n (List.mem_filter.mp hn).1
  unfold ContentFrom
  rw [exec_nodes]
  cases c with
  | createNode => exact hc.elim
  | updateNode label rid tenantId d isDraft owner =>
    simp only [Cmd.effect]
    split
    · exact hset hc
    · exact h
  | deactivateStaged | promoteStaged | deactivateSnapshot | reactivateSnapshot =>
    exact hset (by simp [Dict.keys, contentFields, cascadeFields])
  | deleteNode | cleanupDeleted => exact hdrop
  | _ => exact h

section Step
variable {tenantId sharedRid : String} {w : World} {call : Call}

theorem Unaddressed.sparesContent {α : Type} {p : Program α} (h : Unaddressed p) :
    Sends Cmd.SparesContent (fun _ _ => True) p :=
  h.mono (fun c hc => by cases c <;> trivial) (fun _ _ ha => ha) fun _ h => h

theorem sparesContent_submitToStaging (ctx : Ctx) (label : Label) (rid : String) :
    Sends Cmd.SparesContent (fun _ _ => True) (submitToStaging ctx label rid) := by
  refine Sends.bind (Sends.issue trivial) fun draft => ?_
  cases draft with
  | none => exact Sends.throw _
  | some _ =>
    have hspares : ∀ f ∈ contentFields, f ∉ (submitProps ctx).keys := by
      have hkeys : (submitProps ctx).keys = [.isDraft, .isStaging, .draftOwner, .updatedAt] := rfl
      rw [hkeys]
      decide
    refine Sends.bind (Sends.issue hspares) fun node => ?_
    cases node with
    | none => exact Sends.throw _
    | some node => exact Sends.bind (Sends.issue trivial) fun _ => Sends.pure _

/-- In the sequence only the updates that are accepted change content. -/
theorem contentFrom_after (h : call.op.Shares sharedRid) (hnone : acceptedUpdates w call = none) :
    ContentFrom w (after call w) := by
  obtain ⟨ctx, op⟩ := call
  have hself : ContentFrom w w := fun n hn => ⟨n, hn, rfl, fun _ _ => rfl⟩
  have hrun : Sends Cmd.SparesContent (fun _ _ => True) (service ⟨ctx, op⟩) → ContentFrom w (after ⟨ctx, op⟩ w) :=
    fun hsends => (hsends.run (fun c w' hw' hc _ => ⟨contentFrom_exec hc hw', fun _ _ => trivial⟩) hself).1
  cases op with
  | update type rid updates =>
    obtain ⟨rfl, rfl, -⟩ := h
    rw [updateShared_refused]
    · exact hself
    · intro haccepted
      obtain ⟨response, hok⟩ := updateEntity_accepted haccepted
      simp [acceptedUpdates, hok, Except.isOk, Except.toBool] at hnone
  | submitToStaging label rid => exact hrun (Sends.map _ (sparesContent_submitToStaging ctx label rid))
  | commitStaging m => exact hrun (Sends.map _ (unaddressed_commitStaging ctx m).sparesContent)
  | acquireLock rid => exact hrun (Sends.map _ (reads_acquireLock ctx rid).unaddressed.sparesContent)
  | releaseLock rid => exact hrun (Sends.map _ (reads_releaseLock ctx rid).unaddressed.sparesContent)
  | refreshLock rid => exact hrun (Sends.map _ (reads_refreshLock ctx rid).unaddressed.sparesContent)
  | create | delete | createPropertyType | discardDraft | discardStaging | discardAllStaging | rollbackToSnapshot =>
    exact h.elim

end Step

/-! ## Relationships inside a tenant -/

/-- The nodes that a relationship joins are of one tenant. -/
structure Graph.Joined (g : Graph) : Prop where
  linked : g.Linked
  tenants : ∀ r ∈ g.rels, ∀ n ∈ g.nodes, n.id = r.source → ∀ m ∈ g.nodes, m.id = r.target →
    n.props .tenantId = m.props .tenantId

namespace Graph.Joined
variable {g : Graph}

theorem create (h : g.Joined) (label : Label) (props : Props) : (g.create label props).Joined where
  linked := h.linked.create label props
  tenants := by
    intro r hr n hn hsource m hm htarget
    obtain ⟨h1, h2⟩ := h.linked.ends r hr
    have hold : ∀ k ∈ (g.create label props).nodes, k.id < g.nextId → k ∈ g.nodes := by
      intro k hk hlt
      rcases List.mem_append.mp hk with hk | hk
      · exact hk
      · rw [List.mem_singleton.mp hk] at hlt
        exact absurd hlt (Nat.lt_irrefl _)
    exact h.tenants r hr n (hold n hn (hsource ▸ h1)) hsource m (hold m hm (htarget ▸ h2)) htarget

theorem setWhere (h : g.Joined) {p : Node → Bool} {d : Dict} (hd : .tenantId ∉ d.keys) : (g.setWhere p d).Joined where
  linked := h.linked.setWhere p d
  tenants := by
    intro r hr n hn hsource m hm htarget
    have hbefore : ∀ k ∈ (g.setWhere p d).nodes,
        ∃ j ∈ g.nodes, k.id = j.id ∧ k.props .tenantId = j.props .tenantId := by
      intro k hk
      obtain ⟨j, hj, rfl⟩ := List.mem_map.mp hk
      refine ⟨j, hj, ?_⟩
      split
      · exact ⟨rfl, Props.update_of_notMem hd⟩
      · exact ⟨rfl, rfl⟩
    obtain ⟨n', hn', hnid, hntenant⟩ := hbefore n hn
    obtain ⟨m', hm', hmid, hmtenant⟩ := hbefore m hm
    rw [hntenant, hmtenant]
    exact h.tenants r hr n' hn' (hnid ▸ hsource) m' hm' (hmid ▸ htarget)

theorem deleteWhere (h : g.Joined) (p : Node → Bool) : (g.deleteWhere p).Joined where
  linked := h.linked.deleteWhere p
  tenants := fun r hr n hn hsource m hm htarget =>
    h.tenants r (List.mem_filter.mp hr).1 n (List.mem_filter.mp hn).1 hsource m (List.mem_filter.mp hm).1 htarget

theorem createRelationship (h : g.Joined) {fromLabel toLabel : Label} {fromRid toRid tenantId : String}
    {relType : RelType} (hfrom : fromLabel = .propertyType) :
    (g.createRelationship fromLabel fromRid toLabel toRid relType tenantId).Joined where
  linked := h.linked.createRelationship hfrom
  tenants := by
    intro r hr n hn hsource m hm htarget
    rcases List.mem_append.mp hr with hr | hr
    · exact h.tenants r hr n hn hsource m hm htarget
    · obtain ⟨a, ha, hr⟩ := List.mem_flatMap.mp hr
      obtain ⟨b, hb, rfl⟩ := List.mem_map.mp hr
      obtain ⟨ha, hka⟩ := List.mem_filter.mp ha
      obtain ⟨hb, hkb⟩ := List.mem_filter.mp hb
      obtain rfl := List.inj_on_of_nodup_map h.linked.ids hn ha hsource
      obtain rfl := List.inj_on_of_nodup_map h.linked.ids hm hb htarget
      exact (Node.keyed_iff.mp hka).2.2.trans (Node.keyed_iff.mp hkb).2.2.symm

theorem perm {g' : Graph} (h : g.Joined) (hn : g'.nodes.Perm g.nodes) (hr : g'.rels.Perm g.rels)
    (hid : g'.nextId = g.nextId) : g'.Joined where
  linked := h.linked.perm hn hr hid
  tenants := fun r hmem n hnmem hsource m hmmem htarget =>
    h.tenants r (hr.mem_iff.mp hmem) n (hn.mem_iff.mp hnmem) hsource m (hn.mem_iff.mp hmmem) htarget

end Graph.Joined

theorem joined_exec {G : Node → Prop} {call : Call} {c : Cmd} (hc : Issues G call c) {w : World}
    (h : w.graph.Joined) : (exec c w).2.graph.Joined := by
  have hkept : (exec c w).2.graph = w.graph → (exec c w).2.graph.Joined := fun he => he ▸ h
  cases hc with
  | new | clone =>
    simp only [exec]
    split
    · exact h.create _ _
    · exact h
  | edit guarded =>
    simp only [exec]
    split
    · exact h.setWhere (guarded .tenantId (by simp [allImmutable, immutableFields]))
    · exact h
  | cascade content =>
    simp only [exec]
    split
    · exact h.setWhere (cascade_plain content _ (by decide))
    · exact h
  | submit =>
    simp only [exec]
    split
    · exact h.setWhere (by simp [submitProps, Dict.keys])
    · exact h
  | unstage =>
    simp only [exec]
    split
    · exact h.setWhere (by simp [unstageProps, Dict.keys])
    · exact h
  | dropDraft | dropStaging | cleanupDeleted => exact h.deleteWhere _
  | belongsTo | basedOn => exact h.createRelationship rfl
  | deactivateStaged | promoteStaged | deactivateSnapshot | reactivateSnapshot =>
    exact h.setWhere (by simp [Dict.keys])
  | publish | repoint =>
    simp only [exec]
    split
    · exact h
    · rw [foldl_apply_graph]
      exact h
  | quiet hq => exact hkept (exec_quiet hq w).1

theorem concurrent_joined (es : List CallEvent) : (runFrom concurrent.next noCalls es).state.graph.Joined := by
  have hempty : Graph.empty.Joined := ⟨.empty, fun r hr => absurd hr List.not_mem_nil⟩
  refine (concurrent_holds (G := fun _ => True) (J := fun w => w.graph.Joined) (fun _ _ _ _ => trivial)
    ?_ ?_ hempty).inv
  · intro call _ c w hc hw
    exact joined_exec hc hw
  · intro v w hw
    exact hw.perm (v.apply_nodes w) (v.apply_rels w) (v.apply_nextId w)

/-- The records of the cascade are PropertyTypes of the tenant. -/
theorem inheritor_keyed {g : Graph} (h : g.Joined) (hrids : ∀ n ∈ g.nodes, n.props .rid = .str n.rid)
    {sharedRid tenantId : String} {m : Node} (hm : m ∈ g.inheritors sharedRid tenantId) {n : Node} {rid : String}
    (hn : n.keyed .propertyType rid tenantId) (hsame : n.keyed .propertyType m.rid tenantId) :
    m ∈ g.nodes ∧ m.keyed .propertyType rid tenantId := by
  obtain ⟨target, htarget, hm⟩ := List.mem_flatMap.mp hm
  obtain ⟨r, hr, hm⟩ := List.mem_flatMap.mp hm
  obtain ⟨hmem, hends⟩ := List.mem_filter.mp hm
  obtain ⟨htarget, hkey⟩ := List.mem_filter.mp htarget
  obtain ⟨hr, hbased⟩ := List.mem_filter.mp hr
  simp only [decide_eq_true_eq] at hends hbased
  have hlabel := h.linked.basedOn r hr hbased m hmem hends.2.symm
  have htenant := h.tenants r hr m hmem hends.2.symm target htarget hends.1.symm
  have hrid : m.rid = rid := by
    have h1 := (Node.keyed_iff.mp hn).2.1
    have h2 := (Node.keyed_iff.mp hsame).2.1
    rw [h1] at h2
    exact (Value.str.inj h2).symm
  refine ⟨hmem, Node.keyed_iff.mpr ⟨hlabel, ?_, htenant.trans (Node.keyed_iff.mp hkey).2.2⟩⟩
  rw [hrids m hmem, hrid]

/-! ## An accepted update -/

section Update
variable {tenantId sharedRid : String} {w : World} {ctx : Ctx} {updates : Dict}

/-- An update is accepted when the edit is. -/
theorem accepted_of_updates {call : Call} (h : call.op.Shares sharedRid)
    (hupdates : acceptedUpdates w call = some updates) :
    call.op = .update .sharedPropertyType sharedRid updates ∧
      EditAccepted w call.ctx .sharedPropertyType sharedRid updates := by
  obtain ⟨ctx, op⟩ := call
  cases op with
  | update type rid asked =>
    obtain ⟨rfl, rfl, -⟩ := h
    simp only [acceptedUpdates] at hupdates
    split at hupdates
    next hok =>
      cases hupdates
      refine ⟨rfl, ?_⟩
      by_contra hrefused
      obtain ⟨e, hrun⟩ := updateEntity_refused hrefused
      rw [hrun] at hok
      cases hok
    next => cases hupdates
  | _ => cases hupdates

/-- The edit of the SharedPropertyType has no part in the PropertyTypes. -/
theorem mem_edited_property {g g' : Graph} (he : Edited .sharedPropertyType g g') {n : Node}
    (hlabel : n.label = .propertyType) : n ∈ g'.nodes ↔ n ∈ g.nodes := by
  cases he with
  | cloned props =>
    refine List.mem_append.trans (or_iff_left ?_)
    intro hn
    rw [List.mem_singleton.mp hn] at hlabel
    cases hlabel
  | written p d hp hrid htenant =>
    have hspared : ∀ m : Node, m.label = .propertyType → p m = false := by
      intro m hm
      refine Bool.eq_false_iff.mpr fun hpm => ?_
      rw [hp m hpm] at hm
      cases hm
    constructor
    · intro hn
      obtain ⟨m, hm, rfl⟩ := List.mem_map.mp hn
      have hmlabel : m.label = .propertyType := by
        split at hlabel <;> exact hlabel
      rw [hspared m hmlabel]
      exact hm
    · intro hn
      refine List.mem_map.mpr ⟨n, hn, ?_⟩
      rw [hspared n hlabel]
      rfl

theorem lookup_updateProps {f : Field} (hf : f ∈ contentFields) (now : String) :
    (Dict.set (serializeForNeo4j updates) .updatedAt (.str now)).lookup f = (serializeForNeo4j updates).lookup f := by
  have hne : f ≠ .updatedAt := by
    rintro rfl
    revert hf
    decide
  have hb : (f == Field.updatedAt) = false := by simpa using hne
  rw [Dict.set, List.lookup_cons, hb]
  simpa using Dict.lookup_filter (d := serializeForNeo4j updates) (q := fun x => decide (x ≠ .updatedAt)) (f := f)
    (by simpa using hne)

/-- A version after the edit stores what a version before it stored, or what the edit asks for. -/
theorem version_edited (haccepted : EditAccepted w ctx .sharedPropertyType sharedRid updates) {n : Node}
    (hn : n ∈ (editGraph w ctx .sharedPropertyType sharedRid updates).nodes)
    (hk : n.keyed .sharedPropertyType sharedRid ctx.tenantId) :
    ∃ m ∈ w.graph.nodes, m.keyed .sharedPropertyType sharedRid ctx.tenantId ∧ ∀ f ∈ contentFields,
      n.props f = m.props f ∨ (serializeForNeo4j updates).lookup f = some (n.props f) := by
  obtain ⟨-, himm, d, hd, -⟩ := haccepted
  have hguarded := updateProps_guarded himm ctx.now
  have hwritten : ∀ (p : Props) (f : Field), f ∈ contentFields →
      p.update (Dict.set (serializeForNeo4j updates) .updatedAt (.str ctx.now)) f = p f ∨
        (serializeForNeo4j updates).lookup f =
          some (p.update (Dict.set (serializeForNeo4j updates) .updatedAt (.str ctx.now)) f) := by
    intro p f hf
    rw [← lookup_updateProps hf ctx.now, Props.update]
    cases (Dict.set (serializeForNeo4j updates) .updatedAt (.str ctx.now)).lookup f with
    | none => exact .inl rfl
    | some v => exact .inr rfl
  simp only [editProps] at hd
  unfold editGraph at hn
  cases hdraft : w.graph.getDraftNode .sharedPropertyType sharedRid ctx.tenantId ctx.userId with
  | some draft =>
    simp only [hdraft] at hn
    obtain ⟨m, hm, rfl⟩ := List.mem_map.mp hn
    refine ⟨m, hm, ?_⟩
    split at hk
    next hp =>
      rw [if_pos hp]
      rw [Node.keyed_set (hguarded _ (by decide)) (hguarded _ (by decide))] at hk
      exact ⟨hk, hwritten m.props⟩
    next hp =>
      rw [if_neg hp]
      exact ⟨hk, fun _ _ => .inl rfl⟩
  | none =>
    simp only [hdraft] at hn hd
    obtain ⟨source, hsource, -⟩ := Option.map_eq_some_iff.mp hd
    simp only [hsource, Option.elim_some] at hn
    rcases List.mem_append.mp hn with hn | hn
    · exact ⟨n, hn, hk, fun _ _ => .inl rfl⟩
    · obtain rfl := List.mem_singleton.mp hn
      obtain ⟨hmem, hkey⟩ := startVersion_mem hsource
      refine ⟨source, hmem, hkey, fun f hf => ?_⟩
      have hclone : f ∉ (cloneProps ctx source).keys := by
        have hkeys : (cloneProps ctx source).keys = [.isDraft, .isStaging, .draftOwner, .parentSnapshotId] := rfl
        rw [hkeys]
        revert hf f
        decide
      have hprops : source.props.update (Dict.update (cloneProps ctx source)
          (Dict.set (serializeForNeo4j updates) .updatedAt (.str ctx.now))) f =
          source.props.update (Dict.set (serializeForNeo4j updates) .updatedAt (.str ctx.now)) f := by
        simp only [Props.update, Dict.lookup_update_of_notMem_left hclone]
      simp only [hprops]
      exact hwritten source.props f hf

/-! ### What the loop writes to a field -/

section Loop
variable {fields : Dict} {old : Props} {inheritors : List Node} {f : Field} {v : Value}

theorem keyed_cascadeUpdates (hfields : ∀ g ∈ fields.keys, g ∈ cascadeFields) (m n : Node) (label : Label)
    (rid tenantId : String) :
    (n.set (cascadeUpdates fields (some old) m)).keyed label rid tenantId = n.keyed label rid tenantId := by
  have hkeys : ∀ g ∉ cascadeFields, g ∉ (cascadeUpdates fields (some old) m).keys := by
    intro g hg hk
    obtain ⟨e, he, rfl⟩ := List.mem_map.mp hk
    exact hg (hfields _ (List.mem_map_of_mem (List.mem_filter.mp he).1))
  exact Node.keyed_set (hkeys _ (by decide)) (hkeys _ (by decide)) _ _ _

/-- A node keeps a field when no record of it that the loop comes to has the old value. -/
theorem cascaded_missed (hfields : ∀ g ∈ fields.keys, g ∈ cascadeFields) {n : Node}
    (h : ∀ m ∈ reached fields old inheritors, n.keyed .propertyType m.rid tenantId →
      fields.lookup f = none ∨ m.props f ≠ old f) :
    (cascaded tenantId fields old inheritors n).props f = n.props f := by
  induction inheritors generalizing n with
  | nil => rfl
  | cons m rest ih =>
    cases hstore : (cascadeUpdates fields (some old) m).storable with
    | false => simp [cascaded, hstore]
    | true =>
      have hreached : reached fields old (m :: rest) = m :: reached fields old rest := by simp [reached, hstore]
      rw [hreached, List.forall_mem_cons] at h
      simp only [cascaded, hstore, if_true]
      split
      next hk =>
        have hnone : (cascadeUpdates fields (some old) m).lookup f = none := by
          refine Option.eq_none_iff_forall_ne_some.mpr fun u hu => ?_
          obtain ⟨hfield, hold⟩ := (lookup_cascadeUpdates fields old).mp hu
          rcases h.1 hk with hnone | hne
          · rw [hfield] at hnone
            cases hnone
          · exact hne hold
        rw [ih fun m' hm' hk' => h.2 m' hm' (by rwa [keyed_cascadeUpdates hfields] at hk')]
        simp [Props.update, hnone]
      next => exact ih h.2

/-- A node gets the new value when a record of it that the loop comes to has the old one. -/
theorem cascaded_found (hfields : ∀ g ∈ fields.keys, g ∈ cascadeFields) (hv : fields.lookup f = some v) {n : Node}
    (h : ∃ m ∈ reached fields old inheritors, n.keyed .propertyType m.rid tenantId ∧ m.props f = old f) :
    (cascaded tenantId fields old inheritors n).props f = v := by
  induction inheritors generalizing n with
  | nil =>
    obtain ⟨m, hm, -⟩ := h
    cases hm
  | cons m rest ih =>
    cases hstore : (cascadeUpdates fields (some old) m).storable with
    | false => simp [reached, hstore] at h
    | true =>
      have hreached : reached fields old (m :: rest) = m :: reached fields old rest := by simp [reached, hstore]
      rw [hreached, List.exists_mem_cons_iff] at h
      simp only [cascaded, hstore, if_true]
      rcases h with ⟨hk, hold⟩ | ⟨m', hm', hk', hold'⟩
      · rw [if_pos hk]
        have hu := (lookup_cascadeUpdates fields old).mpr ⟨hv, hold⟩
        exact cascaded_settled tenantId old rest hv (by simp [Props.update, hu])
      · refine ih ⟨m', hm', ?_, hold'⟩
        split
        · rwa [keyed_cascadeUpdates hfields]
        · exact hk'

theorem cascaded_keyed (hfields : ∀ g ∈ fields.keys, g ∈ cascadeFields) (n : Node) (label : Label)
    (rid tenantId : String) :
    (cascaded tenantId fields old inheritors n).keyed label rid tenantId = n.keyed label rid tenantId := by
  induction inheritors generalizing n with
  | nil => rfl
  | cons m rest ih =>
    simp only [cascaded]
    split
    · split
      · rw [ih, keyed_cascadeUpdates hfields]
      · exact ih n
    · rfl

/-- The loop leaves everything but PropertyTypes alone. -/
theorem cascaded_other {n : Node} (hn : n.label ≠ .propertyType) :
    cascaded tenantId fields old inheritors n = n := by
  refine (cascaded_eq_self_iff tenantId old inheritors n).mpr fun m _ hk => ?_
  exact absurd (Node.keyed_iff.mp hk).1 hn

end Loop

theorem lookup_cascadable {f : Field} (hf : f ∈ cascadeFields) : (cascadable updates).lookup f = updates.lookup f :=
  Dict.lookup_filter (d := updates) (q := fun g => decide (g ∈ cascadeFields)) (decide_eq_true hf)

/-- A map that the cascade is to write stops the loop before the record. -/
theorem map_unreached {f : Field} (hf : f ∈ mapFields) {v : Value} (htyped : updates.MapsTyped) {old : Props}
    {inheritors : List Node} (hv : (cascadable updates).lookup f = some v) :
    ∀ m ∈ reached (cascadable updates) old inheritors, m.props f ≠ old f := by
  intro m hm hold
  have hstorable : (cascadeUpdates (cascadable updates) (some old) m).storable :=
    List.all_eq_true.mp List.all_takeWhile m hm
  have hmem : (f, v) ∈ cascadeUpdates (cascadable updates) (some old) m := by
    obtain ⟨_, _, hsplit, -⟩ := List.lookup_eq_some_iff.mp ((lookup_cascadeUpdates _ old).mpr ⟨hv, hold⟩)
    rw [hsplit]
    exact List.mem_append_right _ List.mem_cons_self
  have hvalue := List.all_eq_true.mp hstorable _ hmem
  have hmap := htyped _ (List.mem_filter.mp (List.mem_filter.mp hmem).1).1 hf
  cases v with
  | dict entries => simp [storable] at hvalue
  | _ => cases hmap

end Update

/-! ## Runs -/

/-- The stores after calls that are interleaved in some way. -/
def World.FromCalls (w : World) : Prop :=
  ∃ es : List CallEvent, (∀ call ∈ started es, call.op.MapsTyped) ∧ w = (runFrom concurrent.next noCalls es).state

namespace World.FromCalls
variable {w : World} (h : w.FromCalls)
include h

theorem joined : w.graph.Joined := by
  obtain ⟨es, -, rfl⟩ := h
  exact concurrent_joined es

theorem mapsAsText : ∀ n ∈ w.graph.nodes, n.MapsAsText := by
  obtain ⟨es, hes, rfl⟩ := h
  exact maps_asText hes

theorem rids : ∀ n ∈ w.graph.nodes, n.props .rid = .str n.rid := by
  obtain ⟨es, -, rfl⟩ := h
  intro n hn
  obtain ⟨call, -, hdescends⟩ := concurrent_descends es n hn
  simp only [Node.rid, hdescends.rid]

end World.FromCalls

/-- The maps that the requests of the sequence carry are maps. -/
theorem Op.Shares.mapsTyped {op : Op} {sharedRid : String} (h : op.Shares sharedRid) : op.MapsTyped := by
  cases op with
  | update => exact h.2.2
  | create | createPropertyType => exact h.elim
  | _ => trivial

theorem Sharing.next_world (s : Sharing) (e : SerialEvent) :
    (s.next e).world = (Serial.next ⟨s.world, []⟩ e).world := by
  cases e with
  | env v => rfl
  | call call =>
    simp only [Sharing.next, Serial.next]
    split <;> rfl

theorem World.FromCalls.next {s : Sharing} {e : SerialEvent} (h : s.world.FromCalls)
    (he : ∀ call, e = .call call → call.op.MapsTyped) : (s.next e).world.FromCalls := by
  obtain ⟨es, hes, hw⟩ := h
  obtain ⟨fs, hstate, hstarted⟩ := serial_concurrent [e] (runFrom concurrent.next noCalls es) []
  refine ⟨es ++ fs, fun call hcall => ?_, ?_⟩
  · rw [started_append, hstarted, List.mem_append] at hcall
    rcases hcall with hcall | hcall
    · exact hes call hcall
    · cases e with
      | env v => cases hcall
      | call made =>
        obtain rfl := List.mem_singleton.mp hcall
        exact he call rfl
  · rw [Sharing.next_world, hw, runFrom_append, hstate]
    rfl

/-- What is so between two steps of the sequence: what follows has the latest value or none, what was overridden with a
value that no version has had still has it, and what the versions store is kept account of. -/
structure Cascading (tenantId sharedRid : String) (s₀ s : Sharing) : Prop where
  reachable : s.world.FromCalls
  follows : ∀ propRid, InheritsShared tenantId sharedRid s₀ propRid → ∀ f ∈ cascadeFields,
    Follows tenantId s₀ propRid f → ∀ n ∈ s.world.graph.nodes, n.keyed .propertyType propRid tenantId →
      n.props f = .null ∨ deserializeFromNeo4j n.props f = s.latest f
  overrides : ∀ propRid, InheritsShared tenantId sharedRid s₀ propRid → ∀ f ∈ cascadeFields,
    ∀ x, Overrides tenantId s₀ propRid f x → ¬ s.had f x →
      ∀ n ∈ s.world.graph.nodes, n.keyed .propertyType propRid tenantId → n.props f = x
  versions : ∀ n ∈ s.world.graph.nodes, n.keyed .sharedPropertyType sharedRid tenantId →
    ∀ f ∈ cascadeFields, s.had f (n.props f)

section Steps
variable {tenantId sharedRid : String} {s₀ s : Sharing}

/-- Steps that leave the content alone. -/
theorem Cascading.of_contentFrom (h : Cascading tenantId sharedRid s₀ s) {w : World} (hreach : w.FromCalls)
    (hw : ContentFrom s.world w) : Cascading tenantId sharedRid s₀ { s with world := w } where
  reachable := hreach
  follows := by
    intro propRid hinherits f hf hfollows n hn hk
    obtain ⟨m, hm, hsame⟩ := hw n hn
    rw [hsame.keyed_eq] at hk
    rw [hsame.deserialize_eq hf, hsame.2 f (List.mem_cons_of_mem _ (List.mem_cons_of_mem _ hf))]
    exact h.follows propRid hinherits f hf hfollows m hm hk
  overrides := by
    intro propRid hinherits f hf x hx hnot n hn hk
    obtain ⟨m, hm, hsame⟩ := hw n hn
    rw [hsame.keyed_eq] at hk
    rw [hsame.2 f (List.mem_cons_of_mem _ (List.mem_cons_of_mem _ hf))]
    exact h.overrides propRid hinherits f hf x hx hnot m hm hk
  versions := by
    intro n hn hk f hf
    obtain ⟨m, hm, hsame⟩ := hw n hn
    rw [hsame.keyed_eq] at hk
    rw [hsame.2 f (List.mem_cons_of_mem _ (List.mem_cons_of_mem _ hf))]
    exact h.versions m hm hk f hf

/-- A value that no version has stored is not what the Active version means. -/
theorem Cascading.oldValues_ne (h : Cascading tenantId sharedRid s₀ s) {f : Field} (hf : f ∈ cascadeFields)
    {m : Node} (hm : m ∈ s.world.graph.nodes) (hnull : m.props f ≠ .null) (hnot : ¬ s.had f (m.props f)) :
    m.props f ≠ oldValues s.world.graph sharedRid tenantId f := by
  intro hold
  unfold oldValues at hold
  cases hactive : s.world.graph.getActiveNode .sharedPropertyType sharedRid tenantId with
  | none =>
    rw [hactive] at hold
    exact hnull hold
  | some active =>
    simp only [hactive, Option.elim_some, deserializeFromNeo4j] at hold
    have hfound := List.find?_some hactive
    have hmem : active ∈ s.world.graph.nodes := List.mem_of_find?_eq_some hactive
    have hhad := h.versions active hmem (Bool.and_eq_true_iff.mp hfound).1 f hf
    split at hold
    next text hstored =>
      split at hold
      next hjson =>
        have hmap := mem_mapFields f hf hjson
        have hmaps := h.reachable.mapsAsText
        cases hloads : loads text with
        | none =>
          rw [hloads] at hold
          exact hnot (by rw [hold]; exact hstored ▸ hhad)
        | some v =>
          rw [hloads] at hold
          simp only [Option.getD_some] at hold
          have hown := hmaps m hm f hmap
          have hactiveText := hmaps active hmem f hmap
          rw [hold] at hown
          rw [hstored] at hactiveText
          cases v with
          | null => exact hnull hold
          | str t => exact loads_ne_str hactiveText hloads
          | _ => cases hown
      next => exact hnot (by rw [hold]; exact hstored ▸ hhad)
    next => exact hnot (by rw [hold]; exact hhad)

/-- What the cascade of an accepted update leaves of a PropertyType. -/
def cascadedOf (tenantId sharedRid : String) (w : World) (updates : Dict) (n : Node) : Node :=
  cascaded tenantId (cascadable updates) (oldValues w.graph sharedRid tenantId)
    (w.graph.inheritors sharedRid tenantId) n

/-- A field that follows has the latest value after the update exactly when the update reaches it. -/
theorem field_follows_iff {updates : Dict} (htyped : updates.MapsTyped) {f : Field} (hf : f ∈ cascadeFields) {n : Node}
    (hn : n.props f = .null ∨ deserializeFromNeo4j n.props f = s.latest f) :
    deserializeFromNeo4j (cascadedOf tenantId sharedRid s.world updates n).props f = s.latest.update updates f ↔
      FieldReached tenantId sharedRid s updates n f := by
  have hfields := cascadable_keys updates
  unfold FieldReached
  cases hasked : updates.lookup f with
  | none =>
    have hkept : (cascadedOf tenantId sharedRid s.world updates n).props f = n.props f :=
      cascaded_missed hfields fun _ _ _ => .inl ((lookup_cascadable hf).trans hasked)
    have hlatest : s.latest.update updates f = s.latest f := by simp [Props.update, hasked]
    rw [deserialize_congr hkept, hlatest]
    constructor
    · intro heq hnull
      rw [← heq, deserialize_null hnull]
    · intro hreached
      rcases hn with hnull | heq
      · rw [deserialize_null hnull, hreached hnull]
      · exact heq
  | some v =>
    have hlookup := (lookup_cascadable hf).trans hasked
    have hlatest : s.latest.update updates f = v := by simp [Props.update, hasked]
    rw [hlatest]
    by_cases hfinds : CascadeFinds tenantId sharedRid s updates n f
    · have hvalue : (cascadedOf tenantId sharedRid s.world updates n).props f = v :=
        cascaded_found hfields hlookup hfinds
      have hjson : f ∉ jsonStoreFields := by
        intro hjson
        obtain ⟨m, hm, -, hold⟩ := hfinds
        exact map_unreached (mem_mapFields f hf hjson) htyped hlookup m hm hold
      rw [deserialize_plain hjson, hvalue]
      exact iff_of_true rfl (.inr ⟨hjson, hfinds⟩)
    · have hkept : (cascadedOf tenantId sharedRid s.world updates n).props f = n.props f :=
        cascaded_missed hfields fun m hm hk => .inr fun hold => hfinds ⟨m, hm, hk, hold⟩
      rw [deserialize_congr hkept]
      exact (or_iff_left fun h => hfinds h.2).symm

/-- A PropertyType after an accepted update is what the cascade leaves of one before it. -/
theorem property_after (h : s.world.FromCalls) {ctx : Ctx} {updates : Dict}
    (haccepted : EditAccepted s.world ctx .sharedPropertyType sharedRid updates) {rid : String} {n : Node} :
    n ∈ (after ⟨ctx, .update .sharedPropertyType sharedRid updates⟩ s.world).graph.nodes ∧
        n.keyed .propertyType rid ctx.tenantId ↔
      ∃ m ∈ s.world.graph.nodes, m.keyed .propertyType rid ctx.tenantId ∧
        n = cascadedOf ctx.tenantId sharedRid s.world updates m := by
  have hkeyed : ∀ m, (cascadedOf ctx.tenantId sharedRid s.world updates m).keyed .propertyType rid ctx.tenantId =
      m.keyed .propertyType rid ctx.tenantId := fun m => cascaded_keyed (cascadable_keys updates) m _ _ _
  have hedited := edited_editGraph haccepted
  rw [updateShared_nodes h.joined.linked haccepted]
  constructor
  · rintro ⟨hn, hk⟩
    obtain ⟨m, hm, rfl⟩ := List.mem_map.mp hn
    change (cascadedOf ctx.tenantId sharedRid s.world updates m).keyed _ _ _ at hk
    rw [hkeyed] at hk
    exact ⟨m, (mem_edited_property hedited (Node.keyed_iff.mp hk).1).mp hm, hk, rfl⟩
  · rintro ⟨m, hm, hk, rfl⟩
    refine ⟨List.mem_map_of_mem ((mem_edited_property hedited (Node.keyed_iff.mp hk).1).mpr hm), ?_⟩
    rw [hkeyed]
    exact hk

/-- A value of a PropertyType that no version has stored survives an accepted update. -/
theorem Cascading.override_kept (h : Cascading tenantId sharedRid s₀ s) {updates : Dict} {rid : String} {f : Field}
    (hf : f ∈ cascadeFields) {x : Value} (hnull : x ≠ .null) (hnot : ¬ s.had f x)
    (hx : ∀ m ∈ s.world.graph.nodes, m.keyed .propertyType rid tenantId → m.props f = x) {n : Node}
    (hn : n ∈ s.world.graph.nodes) (hk : n.keyed .propertyType rid tenantId) :
    (cascadedOf tenantId sharedRid s.world updates n).props f = x := by
  rw [cascadedOf, cascaded_missed (cascadable_keys updates), hx n hn hk]
  intro m hm hsame
  have hrecord : m ∈ s.world.graph.inheritors sharedRid tenantId := (List.takeWhile_prefix _).subset hm
  obtain ⟨hmem, hkey⟩ := inheritor_keyed h.reachable.joined h.reachable.rids hrecord hk hsame
  have hvalue := hx m hmem hkey
  exact .inr (h.oldValues_ne hf hmem (by rwa [hvalue]) (by rwa [hvalue]))

/-- An accepted update of the sequence, and what the run makes of it. -/
theorem update_of_accepted {call : Call} {updates : Dict}
    (hcall : call.ctx.tenantId = tenantId ∧ call.op.Shares sharedRid)
    (hupdates : acceptedUpdates s.world call = some updates) :
    ∃ ctx, ctx.tenantId = tenantId ∧ call = ⟨ctx, .update .sharedPropertyType sharedRid updates⟩ ∧ updates.MapsTyped ∧
      EditAccepted s.world ctx .sharedPropertyType sharedRid updates ∧ s.next (.call call) =
        ⟨after call s.world, s.latest.update updates,
          fun f v => s.had f v ∨ (serializeForNeo4j updates).lookup f = some v⟩ := by
  obtain ⟨hop, haccepted⟩ := accepted_of_updates hcall.2 hupdates
  obtain ⟨ctx, op⟩ := call
  obtain rfl : op = .update .sharedPropertyType sharedRid updates := hop
  refine ⟨ctx, hcall.1, rfl, hcall.2.2.2, haccepted, ?_⟩
  simp only [Sharing.next, hupdates]

/-- One step of the sequence does what it is to do exactly when it reaches what follows. -/
theorem Cascading.holds_iff (h : Cascading tenantId sharedRid s₀ s) {e : SerialEvent}
    (he : e.Shares tenantId sharedRid) :
    CascadeHolds tenantId sharedRid s₀ s e ↔ CascadeReaches tenantId sharedRid s₀ s e := by
  constructor
  · intro hholds call updates hcall hupdates rid hinherits f hf hfollows n hn hk
    obtain ⟨ctx, rfl, rfl, htyped, haccepted, hnext⟩ := update_of_accepted (he call hcall) hupdates
    obtain ⟨hafter, hkey⟩ := (property_after h.reachable haccepted).mpr ⟨n, hn, hk, rfl⟩
    have hmem : cascadedOf ctx.tenantId sharedRid s.world updates n ∈ (s.next e).world.graph.nodes := by
      rw [hcall, hnext]
      exact hafter
    have hlatest := (hholds _ updates hcall hupdates rid hinherits f hf _ hmem hkey).1 hfollows
    rw [hcall, hnext] at hlatest
    exact (field_follows_iff htyped hf (h.follows rid hinherits f hf hfollows n hn hk)).mp hlatest
  · intro hreaches call updates hcall hupdates rid hinherits f hf n hn hk
    obtain ⟨ctx, rfl, rfl, htyped, haccepted, hnext⟩ := update_of_accepted (he call hcall) hupdates
    rw [hcall, hnext] at hn ⊢
    obtain ⟨m, hm, hkey, rfl⟩ := (property_after h.reachable haccepted).mp ⟨hn, hk⟩
    constructor
    · intro hfollows
      refine (field_follows_iff htyped hf (h.follows rid hinherits f hf hfollows m hm hkey)).mpr ?_
      exact hreaches _ updates hcall hupdates rid hinherits f hf hfollows m hm hkey
    · intro x hx hnot
      exact h.override_kept hf hx.1 hnot (h.overrides rid hinherits f hf x hx hnot) hm hkey

/-- A step that does what it is to do keeps the account. -/
theorem Cascading.next (h : Cascading tenantId sharedRid s₀ s) {e : SerialEvent} (he : e.Shares tenantId sharedRid)
    (hholds : CascadeHolds tenantId sharedRid s₀ s e) : Cascading tenantId sharedRid s₀ (s.next e) := by
  have hreach : (s.next e).world.FromCalls := h.reachable.next fun call hcall => (he call hcall).2.mapsTyped
  cases e with
  | env v =>
    refine h.of_contentFrom hreach fun n hn => ⟨n, ?_, rfl, fun _ _ => rfl⟩
    exact (v.apply_nodes s.world).mem_iff.mp hn
  | call call =>
    cases hupdates : acceptedUpdates s.world call with
    | none =>
      have hnext : s.next (.call call) = { s with world := after call s.world } := by
        simp only [Sharing.next, hupdates]
      rw [hnext] at hreach ⊢
      exact h.of_contentFrom hreach (contentFrom_after (he call rfl).2 hupdates)
    | some updates =>
      obtain ⟨ctx, rfl, rfl, htyped, haccepted, hnext⟩ := update_of_accepted (he call rfl) hupdates
      have hfields := hholds _ updates rfl hupdates
      rw [hnext] at hreach hfields ⊢
      refine ⟨hreach, ?_, ?_, ?_⟩
      · intro rid hinherits f hf hfollows n hn hk
        exact .inr ((hfields rid hinherits f hf n hn hk).1 hfollows)
      · intro rid hinherits f hf x hx hnot n hn hk
        exact (hfields rid hinherits f hf n hn hk).2 x hx fun hhad => hnot (.inl hhad)
      · intro n hn hk f hf
        rw [updateShared_nodes h.reachable.joined.linked haccepted] at hn
        obtain ⟨m, hm, rfl⟩ := List.mem_map.mp hn
        have hlabel : m.label ≠ .propertyType := by
          intro hm
          rw [cascaded_keyed (cascadable_keys updates)] at hk
          have hshared := (Node.keyed_iff.mp hk).1
          rw [hm] at hshared
          cases hshared
        rw [cascaded_other hlabel] at hk ⊢
        obtain ⟨k, hkmem, hkkey, hkfields⟩ := version_edited haccepted hm hk
        rcases hkfields f (List.mem_cons_of_mem _ (List.mem_cons_of_mem _ hf)) with hsame | hasked
        · rw [hsame]
          exact .inl (h.versions k hkmem hkkey f hf)
        · exact .inr hasked

end Steps

/-- From any stores that calls can reach, in any sequence of updates, submits and commits of a SharedPropertyType, every
update does what it is to do exactly when every update reaches each field that follows. -/
theorem cascade_holds_iff {tenantId sharedRid : String} {latest : Props} {es : List CallEvent}
    (ht : ∀ call ∈ started es, call.op.MapsTyped) {fs : List SerialEvent}
    (hfs : ∀ e ∈ fs, e.Shares tenantId sharedRid) :
    StepsMeet Sharing.next (CascadeHolds tenantId sharedRid
        (.start tenantId sharedRid (runFrom concurrent.next noCalls es).state latest))
      (.start tenantId sharedRid (runFrom concurrent.next noCalls es).state latest) fs ↔
    StepsMeet Sharing.next (CascadeReaches tenantId sharedRid
        (.start tenantId sharedRid (runFrom concurrent.next noCalls es).state latest))
      (.start tenantId sharedRid (runFrom concurrent.next noCalls es).state latest) fs := by
  refine StepsMeet.iff_of_inv (P := fun _ e => e.Shares tenantId sharedRid)
    (K := Cascading tenantId sharedRid (.start tenantId sharedRid (runFrom concurrent.next noCalls es).state latest))
    (fun s e h he => h.holds_iff he) (fun s e h he hc => h.next he ((h.holds_iff he).mpr hc)) ?_ (.of_mem hfs)
  refine ⟨⟨es, ht, rfl⟩, fun _ _ f _ hfollows => hfollows, fun _ _ f _ x hx _ => hx.2, ?_⟩
  intro n hn hk f _
  exact ⟨n, hn, hk, rfl⟩

/-- A SharedPropertyType is published after an object type has got a property that inherits from it. -/
def sharedAndInheritor : List CallEvent :=
  inTurn [⟨⟨"t", "u", "1", "a"⟩, .create .sharedPropertyType [(.apiName, .str "price"), (.displayName, .str "Price")]⟩,
    ⟨⟨"t", "u", "2", "b"⟩, .create .objectType [(.apiName, .str "Order")]⟩,
    ⟨⟨"t", "u", "3", "c"⟩, .acquireLock "ri.obj.b"⟩,
    ⟨⟨"t", "u", "4", "d"⟩, .createPropertyType "ri.obj.b" .objectType [(.apiName, .str "price"),
      (.displayName, .str "Price"), (.inheritFromSharedPropertyTypeRid, .str "ri.shprop.a")]⟩,
    ⟨⟨"t", "u", "5", "e"⟩, .submitToStaging .sharedPropertyType "ri.shprop.a"⟩,
    ⟨⟨"t", "u", "6", "f"⟩, .commitStaging none⟩]

/-- It is renamed, published under the new name, and renamed again. -/
def renamedInTurn : List SerialEvent :=
  [.call ⟨⟨"t", "u", "7", "g"⟩, .acquireLock "ri.shprop.a"⟩,
    .call ⟨⟨"t", "u", "8", "h"⟩, .update .sharedPropertyType "ri.shprop.a" [(.displayName, .str "Amount")]⟩,
    .call ⟨⟨"t", "u", "9", "i"⟩, .submitToStaging .sharedPropertyType "ri.shprop.a"⟩,
    .call ⟨⟨"t", "u", "10", "j"⟩, .commitStaging none⟩,
    .call ⟨⟨"t", "u", "11", "k"⟩, .acquireLock "ri.shprop.a"⟩,
    .call ⟨⟨"t", "u", "12", "l"⟩, .update .sharedPropertyType "ri.shprop.a" [(.displayName, .str "Total")]⟩]

/-- The sequence starts with the values of the Active version. -/
def Sharing.published (tenantId sharedRid : String) (w : World) : Sharing :=
  .start tenantId sharedRid w (oldValues w.graph sharedRid tenantId)

theorem cascade_holds_iff_renamedInTurn :
    StepsMeet Sharing.next (CascadeHolds "t" "ri.shprop.a"
        (.published "t" "ri.shprop.a" (runFrom concurrent.next noCalls sharedAndInheritor).state))
      (.published "t" "ri.shprop.a" (runFrom concurrent.next noCalls sharedAndInheritor).state) renamedInTurn ↔
    StepsMeet Sharing.next (CascadeReaches "t" "ri.shprop.a"
        (.published "t" "ri.shprop.a" (runFrom concurrent.next noCalls sharedAndInheritor).state))
      (.published "t" "ri.shprop.a" (runFrom concurrent.next noCalls sharedAndInheritor).state) renamedInTurn :=
  cascade_holds_iff (by decide) (by decide)

/-- It is renamed twice before a commit. -/
def renamedTwice : List SerialEvent :=
  [.call ⟨⟨"t", "u", "7", "g"⟩, .acquireLock "ri.shprop.a"⟩,
    .call ⟨⟨"t", "u", "8", "h"⟩, .update .sharedPropertyType "ri.shprop.a" [(.displayName, .str "Amount")]⟩,
    .call ⟨⟨"t", "u", "9", "i"⟩, .update .sharedPropertyType "ri.shprop.a" [(.displayName, .str "Total")]⟩]

/-- The second name is compared with the Active one, and the property keeps the first. -/
theorem cascade_misses : ¬ ∀ (es : List CallEvent) (tenantId sharedRid : String) (fs : List SerialEvent),
    (∀ call ∈ started es, call.op.Admitted ∧ call.op.MapsTyped) →
      FreshUuids (started es ++ fs.filterMap SerialEvent.made) → (∀ e ∈ fs, e.Shares tenantId sharedRid) →
        StepsMeet Sharing.next (CascadeHolds tenantId sharedRid
            (.published tenantId sharedRid (runFrom concurrent.next noCalls es).state))
          (.published tenantId sharedRid (runFrom concurrent.next noCalls es).state) fs := by
  intro h
  have hrun := h sharedAndInheritor "t" "ri.shprop.a" renamedTwice (by decide)
    (by unfold FreshUuids; decide) (by decide)
  obtain ⟨_, _, hlast, _⟩ := hrun
  have hfield := fun n hn hk => (hlast _ [(.displayName, .str "Total")] rfl (by decide +kernel) "ri.prop.d"
    (by unfold InheritsShared; decide +kernel) .displayName (by decide) n hn hk).1 (by unfold Follows; decide +kernel)
  revert hfield
  decide +kernel

end Lingshu.Ontology
