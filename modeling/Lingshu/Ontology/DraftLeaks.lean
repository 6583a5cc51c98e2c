import Lingshu.Ontology.Visibility

/-! # What the other reads show

Every read that is not blind tells two states apart that differ in one Draft of another user: a query of
entities counts the Draft of a new entity, and what lists property types lists the Draft of a new one. -/
namespace Lingshu.Ontology
open Json Interaction
set_option autoImplicit false

/-! ## Calls that return -/

section Calls
variable {w : World} {ctx : Ctx} {label : Label} {rid : String}

theorem after_submit (h : (w.graph.getDraftNode label rid ctx.tenantId ctx.userId).isSome) :
    after ⟨ctx, .submitToStaging label rid⟩ w =
      (w.onGraph fun g => g.setWhere (Graph.filterOf label rid ctx.tenantId (some true) none (some ctx.userId))
        (submitProps ctx)).setKey (.lock rid) none := by
  obtain ⟨draft, hdraft⟩ := Option.isSome_iff_exists.mp h
  have hmatch : (w.graph.nodes.find? (Graph.filterOf label rid ctx.tenantId (some true) none (some ctx.userId))) =
      some draft := by
    rw [← hdraft, Graph.getDraftNode]
    exact congrArg (fun p => w.graph.nodes.find? p) (funext fun n => filterOf_draft)
  have hupdate := run_updateNode w label rid ctx.tenantId (d := submitProps ctx) (some true) (some ctx.userId) rfl
  rw [hmatch] at hupdate
  have hread := run_getDraftNode w label rid ctx.tenantId ctx.userId
  rw [hdraft] at hread
  have hrun : (submitToStaging ctx label rid).run exec w = (.ok (nodeToResponse (draft.set (submitProps ctx)) label),
      (w.onGraph fun g => g.setWhere (Graph.filterOf label rid ctx.tenantId (some true) none (some ctx.userId))
        (submitProps ctx)).setKey (.lock rid) none) := by
    refine (Prog.run_bind_ok exec hread _).trans ?_
    refine (Prog.run_bind_ok exec hupdate _).trans ?_
    exact Prog.run_bind_ok exec (run_redisDelete _ _) _
  exact (run_map _ _ _).trans (congrArg Prod.snd hrun)

theorem after_acquireLock (h : w.redis (.lock rid) = none) :
    after ⟨ctx, .acquireLock rid⟩ w = w.setKey (.lock rid) (some ctx.userId) := by
  have hset : (redisSetNx (.lock rid) ctx.userId).run exec w = (.ok true, w.setKey (.lock rid) (some ctx.userId)) :=
    (run_issue w _).trans (by simp only [exec, h]; rfl)
  have hrun : (acquireLock ctx rid).run exec w = (.ok ⟨rid, true, some ctx.userId, some lockTtlSeconds⟩,
      w.setKey (.lock rid) (some ctx.userId)) := Prog.run_bind_ok exec hset _
  exact (run_map _ _ _).trans (congrArg Prod.snd hrun)

/-- What `create_property_type` makes of the graph when it returns. -/
def Graph.attached (g : Graph) (ctx : Ctx) (parentRid : String) (parentLabel : Label) (props : Dict) : Graph :=
  (g.create .propertyType
      (Props.update (fun _ => .null) (serializeForNeo4j (Dict.update props (newPropertyProps ctx))))).createRelationship
    .propertyType (generateRid "prop" ctx.uuid) parentLabel parentRid .belongsTo ctx.tenantId

theorem after_createPropertyType {props : Dict} (hlock : w.redis (.lock rid) = some ctx.userId)
    (hnew : propertyNodes w.graph label rid ctx.tenantId = [])
    (hstorable : (serializeForNeo4j (Dict.update props (newPropertyProps ctx))).storable = true)
    (hinherit : truthy (props.get .inheritFromSharedPropertyTypeRid) = false) :
    after ⟨ctx, .createPropertyType rid label props⟩ w = w.onGraph fun g => g.attached ctx rid label props := by
  have hrequire : (requireLock rid ctx.userId).run exec w = (.ok (), w) := by
    have hget := run_redisGet w (.lock rid)
    rw [hlock] at hget
    refine (Prog.run_bind_ok exec hget _).trans ?_
    rw [if_pos rfl]
    rfl
  have hexisting := run_getRelatedNodes w label rid ctx.tenantId .belongsTo .incoming
  rw [show w.graph.getRelatedNodes label rid ctx.tenantId .belongsTo .incoming = [] from hnew] at hexisting
  have hcreate := run_createNode w .propertyType (fun _ => .null) hstorable
  have hrun : (createPropertyType ctx rid label props).run exec w = (.ok (nodeToPropertyResponse
      ⟨w.graph.nextId, .propertyType,
        Props.update (fun _ => .null) (serializeForNeo4j (Dict.update props (newPropertyProps ctx)))⟩),
      w.onGraph fun g => g.attached ctx rid label props) := by
    refine (Prog.run_bind_ok exec hrequire _).trans ?_
    refine (Prog.run_bind_ok exec hexisting _).trans ?_
    refine (Prog.run_bind_ok exec hcreate _).trans ?_
    refine (Prog.run_bind_ok exec (run_issue _ _) _).trans ?_
    dsimp only
    rw [if_neg (by simp [hinherit])]
    rfl
  exact (run_map _ _ _).trans (congrArg Prod.snd hrun)

end Calls
/-! ## The Draft of a new entity -/

/-- The stores after one user has created one entity. -/
def createdWorld (ctx : Ctx) (type : EntityType) (props : Dict) : World :=
  { World.empty with graph := ⟨[⟨0, type.label, Props.update (fun _ => .null)
      (serializeForNeo4j (Dict.update props (newEntityProps ctx type.label)))⟩], [], 1⟩ }

theorem after_create (ctx : Ctx) (type : EntityType) (name status : String) :
    after ⟨ctx, .create type [(.apiName, .str name), (.lifecycleStatus, .str status)]⟩ World.empty =
      createdWorld ctx type [(.apiName, .str name), (.lifecycleStatus, .str status)] := by
  cases type <;> rfl

theorem admitted_create (type : EntityType) (name status : String) :
    (Op.create type [(.apiName, .str name), (.lifecycleStatus, .str status)]).Admitted := by
  cases type <;> simp [Op.Admitted, Dict.AdmittedBy, createFields, EntityType.label]

/-- Stores that a serial run of admitted calls reaches. -/
theorem reachable_serial {es : List SerialEvent}
    (ha : ∀ call ∈ es.filterMap SerialEvent.made, call.op.Admitted)
    (hu : FreshUuids (es.filterMap SerialEvent.made)) : Reachable (runFrom Serial.next .empty es).world := by
  obtain ⟨fs, hstate, hstarted⟩ := serial_concurrent es noCalls []
  exact ⟨fs, by rw [hstarted]; exact ha, by rw [hstarted]; exact hu, hstate⟩

/-- With the search term for a name and the wanted status, the Draft is on the list. -/
theorem total_created (type : EntityType) (term status : Option String) (offset limit : ℕ) :
    (queryEntities (createdWorld ⟨"t", "u", "1", "a"⟩ type
      [(.apiName, .str (term.getD "")), (.lifecycleStatus, .str (status.getD ""))]).graph "t" type.label term status
        offset limit).2 = 1 := by
  have hsearch : ∀ n : Node, n.props .apiName = .str (term.getD "") → matchesSearch term n := by
    intro n hn
    unfold matchesSearch
    split
    · rfl
    · rfl
    · rw [hn]
      simp [containsText]
  have hstatus : ∀ n : Node, n.props .lifecycleStatus = .str (status.getD "") → matchesStatus status n := by
    intro n hn
    unfold matchesStatus
    split
    · rfl
    · rfl
    · simp [Node.has, hn]
  simp only [queryEntities, Graph.listNodes, Graph.listWhere, createdWorld]
  rw [List.countP_cons_of_pos, List.countP_nil]
  rw [hsearch _ (by cases type <;> rfl), hstatus _ (by cases type <;> rfl)]
  cases type <;> rfl

/-- Every query of entities counts the Draft of another user. -/
theorem queryEntities_leaks (type : EntityType) (term status : Option String) (offset limit : ℕ) :
    ∃ w, Reachable w ∧ World.empty.graph.SameBut "u" w.graph ∧
      (ReadOp.queryEntities type term status offset limit).run "t" "v" World.empty.graph ≠
        (ReadOp.queryEntities type term status offset limit).run "t" "v" w.graph := by
  let call : Call := ⟨⟨"t", "u", "1", "a"⟩,
    .create type [(.apiName, .str (term.getD "")), (.lifecycleStatus, .str (status.getD ""))]⟩
  have hworld : (runFrom Serial.next .empty [.call call]).world = createdWorld call.ctx type
      [(.apiName, .str (term.getD "")), (.lifecycleStatus, .str (status.getD ""))] := after_create _ _ _ _
  have hadmitted : call.op.Admitted := admitted_create type (term.getD "") (status.getD "")
  have hreach : Reachable (runFrom Serial.next .empty [.call call]).world :=
    reachable_serial (by simpa [SerialEvent.made] using hadmitted) (by simp [FreshUuids, SerialEvent.made])
  rw [hworld] at hreach
  refine ⟨_, hreach, ⟨by cases type <;> rfl, rfl⟩, fun h => ?_⟩
  have htotal : _ = 1 := total_created type term status offset limit
  simp only [ReadOp.run, Except.ok.injEq, ReadResult.details.injEq] at h
  rw [← h.2] at htotal
  cases htotal

/-! ## The Draft of a new property type -/

namespace Graph
variable {g : Graph} {tenantId snapshotId : String}

theorem promotion_nextId (k : ℕ) : (promotion tenantId snapshotId g k).nextId = g.nextId := by
  match k with
  | 0 | 1 | 2 | k + 3 => rfl

theorem promotion_rels (h : g.rels = []) (k : ℕ) : (promotion tenantId snapshotId g k).rels = [] := by
  match k with
  | 0 | 1 | 2 => exact h
  | k + 3 =>
    simp only [promotion, cleanupDeleted, deleteWhere, promoteStaged, deactivateStaged, setWhere, h,
      List.filter_nil]

end Graph

section Attached
variable (type : EntityType) (a : String)

def entityProps : Dict := [(.apiName, .str "Order"), (.lifecycleStatus, .str "ACTIVE")]

/-- The rid of the entity. -/
def entityRid : String := generateRid (entityRidTypes type.label) a

def stagedNode : Node :=
  (⟨0, type.label, Props.update (fun _ => .null)
    (serializeForNeo4j (Dict.update entityProps (newEntityProps ⟨"t", "u", "1", a⟩ type.label)))⟩ : Node).set
      (submitProps ⟨"t", "u", "2", a ++ "2"⟩)

/-- The entity when it is published. -/
def publishedNode : Node :=
  (stagedNode type a).set [(.isStaging, .bool false), (.snapshotId, .str (generateRid "snap" (a ++ "3")))]

/-- One user publishes an entity. -/
def publishOne : List SerialEvent :=
  [.call ⟨⟨"t", "u", "1", a⟩, .create type entityProps⟩,
    .call ⟨⟨"t", "u", "2", a ++ "2"⟩, .submitToStaging type.label (entityRid type a)⟩,
    .call ⟨⟨"t", "u", "3", a ++ "3"⟩, .commitStaging none⟩, .env (.expire (.lock (entityRid type a)))]

theorem publishedNode_keyed : (publishedNode type a).keyed type.label (entityRid type a) "t" := by
  refine Node.keyed_iff.mpr ⟨rfl, ?_, ?_⟩ <;> cases type <;> rfl

theorem publishedNode_active : (publishedNode type a).active := by cases type <;> rfl

/-- The stores with the entity in Staging. -/
theorem submitted_world : ∃ w, after ⟨⟨"t", "u", "2", a ++ "2"⟩, .submitToStaging type.label (entityRid type a)⟩
      (createdWorld ⟨"t", "u", "1", a⟩ type entityProps) = w ∧ w.graph = ⟨[stagedNode type a], [], 1⟩ ∧
    w.redis (.commitLock "t") = none ∧ w.snapshots = [] := by
  let draft : Node := ⟨0, type.label, Props.update (fun _ => .null)
    (serializeForNeo4j (Dict.update entityProps (newEntityProps ⟨"t", "u", "1", a⟩ type.label)))⟩
  have hkeyed : draft.keyed type.label (entityRid type a) "t" := by
    refine Node.keyed_iff.mpr ⟨rfl, ?_, ?_⟩ <;> cases type <;> rfl
  have hdraft : draft.draftOf "u" := by cases type <;> rfl
  have hfound : (Graph.getDraftNode ⟨[draft], [], 1⟩ type.label (entityRid type a) "t" "u").isSome := by
    simp [Graph.getDraftNode, hkeyed, hdraft]
  have hset : Graph.setWhere ⟨[draft], [], 1⟩ (Graph.filterOf type.label (entityRid type a) "t" (some true) none
      (some "u")) (submitProps ⟨"t", "u", "2", a ++ "2"⟩) = ⟨[stagedNode type a], [], 1⟩ := by
    simp only [Graph.setWhere, List.map_cons, List.map_nil, filterOf_draft, hkeyed, hdraft]
    rfl
  refine ⟨_, after_submit hfound, ?_, rfl, rfl⟩
  exact hset

/-- The stores after the stretch. -/
def publishedWorld : World := (runFrom Serial.next .empty (publishOne type a)).world

theorem publishedWorld_graph : (publishedWorld type a).graph = ⟨[publishedNode type a], [], 1⟩ := by
  obtain ⟨w, hw, hgraph, hlock, hsnapshots⟩ := submitted_world type a
  have hstaged : w.graph.getStagingNodes "t" = [stagedNode type a] := by
    rw [hgraph]
    cases type <;> rfl
  have hunpublished : ∀ s ∈ w.snapshots, s.snapshotId ≠ generateRid "snap" (a ++ "3") := by simp [hsnapshots]
  have hunstamped : ∀ n ∈ w.graph.nodes, n.stamped (generateRid "snap" (a ++ "3")) = false := by
    rw [hgraph]
    intro n hn
    rw [List.mem_singleton.mp hn]
    cases type <;> rfl
  let ctx : Ctx := ⟨"t", "u", "3", a ++ "3"⟩
  have hlock' : w.redis (.commitLock ctx.tenantId) = none := hlock
  have hstaged' : w.graph.getStagingNodes ctx.tenantId ≠ [] := by
    rw [hstaged]
    simp
  obtain ⟨_, k, hk, hcommitted, _⟩ := commit_accepted (m := none) hlock' hstaged' hunpublished
  have hcreated : after ⟨⟨"t", "u", "1", a⟩, .create type entityProps⟩ World.empty =
      createdWorld ⟨"t", "u", "1", a⟩ type entityProps := after_create _ _ _ _
  have hworld : (publishedWorld type a).graph = (after ⟨⟨"t", "u", "3", a ++ "3"⟩, .commitStaging none⟩ w).graph := by
    rw [← hw, ← hcreated]
    rfl
  have hnodes : (w.graph.promotion "t" (generateRid "snap" (a ++ "3")) k).nodes = [publishedNode type a] := by
    rw [Graph.promotion_nodes hunstamped hk, hgraph, List.filterMap_cons, Graph.promotedNode_staging]
    · rfl
    · cases type <;> exact ⟨rfl, rfl⟩
    · cases type <;> rfl
  have hrels : (w.graph.promotion "t" (generateRid "snap" (a ++ "3")) k).rels = [] :=
    Graph.promotion_rels (by rw [hgraph]) k
  have hnext : (w.graph.promotion "t" (generateRid "snap" (a ++ "3")) k).nextId = 1 := by
    rw [Graph.promotion_nextId, hgraph]
  rw [hworld, hcommitted, ← hnodes, ← hrels, ← hnext]
  rfl

theorem publishedWorld_unlocked : (publishedWorld type a).redis (.lock (entityRid type a)) = none :=
  Function.update_self ..

/-- The user locks the entity and gives it a property type. -/
def attachOne : List SerialEvent :=
  [.call ⟨⟨"t", "u", "4", a ++ "4"⟩, .acquireLock (entityRid type a)⟩,
    .call ⟨⟨"t", "u", "5", a ++ "5"⟩, .createPropertyType (entityRid type a) type.label
      [(.apiName, .str "id"), (.physicalColumn, .str "id")]⟩]

def attachedNode : Node :=
  ⟨1, .propertyType, Props.update (fun _ => .null) (serializeForNeo4j (Dict.update
    [(.apiName, .str "id"), (.physicalColumn, .str "id")] (newPropertyProps ⟨"t", "u", "5", a ++ "5"⟩)))⟩

def attachedWorld : World := (runFrom Serial.next .empty (publishOne type a ++ attachOne type a)).world

theorem propertyNodes_published : propertyNodes (publishedWorld type a).graph type.label (entityRid type a) "t" = [] := by
  rw [publishedWorld_graph]
  simp [propertyNodes, Graph.getRelatedNodes]

theorem attachedWorld_graph (hl : type.label.hasProperties) : (attachedWorld type a).graph =
    ⟨[publishedNode type a, attachedNode a], [⟨.belongsTo, 1, 0⟩], 2⟩ := by
  have hlocked : after ⟨⟨"t", "u", "4", a ++ "4"⟩, .acquireLock (entityRid type a)⟩ (publishedWorld type a) =
      (publishedWorld type a).setKey (.lock (entityRid type a)) (some "u") :=
    after_acquireLock (publishedWorld_unlocked type a)
  have hattached : after ⟨⟨"t", "u", "5", a ++ "5"⟩, .createPropertyType (entityRid type a) type.label
      [(.apiName, .str "id"), (.physicalColumn, .str "id")]⟩
      ((publishedWorld type a).setKey (.lock (entityRid type a)) (some "u")) =
      ((publishedWorld type a).setKey (.lock (entityRid type a)) (some "u")).onGraph fun g =>
        g.attached ⟨"t", "u", "5", a ++ "5"⟩ (entityRid type a) type.label
          [(.apiName, .str "id"), (.physicalColumn, .str "id")] :=
    after_createPropertyType (Function.update_self ..) (propertyNodes_published type a) rfl rfl
  have hworld : attachedWorld type a = after ⟨⟨"t", "u", "5", a ++ "5"⟩, .createPropertyType (entityRid type a)
      type.label [(.apiName, .str "id"), (.physicalColumn, .str "id")]⟩
      (after ⟨⟨"t", "u", "4", a ++ "4"⟩, .acquireLock (entityRid type a)⟩ (publishedWorld type a)) := by
    rw [attachedWorld, runFrom_append]
    rfl
  have hnew : (attachedNode a).keyed .propertyType (generateRid "prop" (a ++ "5")) "t" :=
    Node.keyed_iff.mpr ⟨rfl, rfl, rfl⟩
  have hold : (publishedNode type a).keyed .propertyType (generateRid "prop" (a ++ "5")) "t" = false := by
    rcases hl with hl | hl <;> simp [Node.keyed, publishedNode, stagedNode, hl]
  have hentity := publishedNode_keyed type a
  have hother : (attachedNode a).keyed type.label (entityRid type a) "t" = false := by
    rcases hl with hl | hl <;> simp [Node.keyed, attachedNode, hl]
  have hsources : [publishedNode type a, attachedNode a].filter
      (Node.keyed .propertyType (generateRid "prop" (a ++ "5")) "t") = [attachedNode a] := by
    simp [hold, hnew]
  have htargets : [publishedNode type a, attachedNode a].filter (Node.keyed type.label (entityRid type a) "t") =
      [publishedNode type a] := by
    simp [hentity, hother]
  rw [hworld, hlocked, hattached, World.onGraph_graph, World.setKey_graph, publishedWorld_graph]
  show Graph.createRelationship ⟨[publishedNode type a, attachedNode a], [], 2⟩ .propertyType
    (generateRid "prop" (a ++ "5")) type.label (entityRid type a) .belongsTo "t" = _
  simp only [Graph.createRelationship, hsources, htargets]
  rfl

theorem propertyNodes_attached (hl : type.label.hasProperties) :
    propertyNodes (attachedWorld type a).graph type.label (entityRid type a) "t" = [attachedNode a] := by
  have hentity := publishedNode_keyed type a
  have hother : (attachedNode a).keyed type.label (entityRid type a) "t" = false := by
    rcases hl with hl | hl <;> simp [Node.keyed, attachedNode, hl]
  have hfilter : [publishedNode type a, attachedNode a].filter (Node.keyed type.label (entityRid type a) "t") =
      [publishedNode type a] := by
    simp [hentity, hother]
  have hid : (publishedNode type a).id = 0 := rfl
  have hid' : (attachedNode a).id = 1 := rfl
  rw [attachedWorld_graph type a hl]
  simp [propertyNodes, Graph.getRelatedNodes, hfilter, hid, hid']

/-! ## Two states that differ in it -/

/-- The calls of the stretch. -/
theorem made_attached : (publishOne type a ++ attachOne type a).filterMap SerialEvent.made =
    [⟨⟨"t", "u", "1", a⟩, .create type entityProps⟩,
      ⟨⟨"t", "u", "2", a ++ "2"⟩, .submitToStaging type.label (entityRid type a)⟩,
      ⟨⟨"t", "u", "3", a ++ "3"⟩, .commitStaging none⟩, ⟨⟨"t", "u", "4", a ++ "4"⟩, .acquireLock (entityRid type a)⟩,
      ⟨⟨"t", "u", "5", a ++ "5"⟩, .createPropertyType (entityRid type a) type.label
        [(.apiName, .str "id"), (.physicalColumn, .str "id")]⟩] := rfl

theorem freshUuids_attached : FreshUuids ((publishOne type a ++ attachOne type a).filterMap SerialEvent.made) := by
  have hne : ∀ s : String, s ≠ "" → a ≠ a ++ s := by
    intro s hs h
    have hlength := congrArg String.length h
    rw [String.length_append] at hlength
    have hzero : s.length = 0 := by omega
    exact hs (String.length_eq_zero_iff.mp hzero)
  rw [made_attached]
  simp [FreshUuids, hne]

theorem admitted_attached (hl : type.label.hasProperties) :
    ∀ call ∈ (publishOne type a ++ attachOne type a).filterMap SerialEvent.made, call.op.Admitted := by
  have hcreate : (Op.create type entityProps).Admitted := admitted_create type "Order" "ACTIVE"
  have hattach : (Op.createPropertyType (entityRid type a) type.label
      [(.apiName, .str "id"), (.physicalColumn, .str "id")]).Admitted := by
    refine ⟨by rcases hl with hl | hl <;> simp [hl], by decide⟩
  rw [made_attached]
  simp only [List.mem_cons, List.not_mem_nil, or_false]
  rintro call (rfl | rfl | rfl | rfl | rfl)
  · exact hcreate
  · trivial
  · trivial
  · trivial
  · exact hattach

theorem reachable_attached (hl : type.label.hasProperties) : Reachable (attachedWorld type a) :=
  reachable_serial (admitted_attached type a hl) (freshUuids_attached type a)

theorem reachable_published (hl : type.label.hasProperties) : Reachable (publishedWorld type a) := by
  have hsub : List.Sublist ((publishOne type a).filterMap SerialEvent.made)
      ((publishOne type a ++ attachOne type a).filterMap SerialEvent.made) := by
    rw [List.filterMap_append]
    exact List.sublist_append_left _ _
  exact reachable_serial (fun call hcall => admitted_attached type a hl call (hsub.subset hcall))
    ((freshUuids_attached type a).sublist (hsub.map _))

theorem sameBut_attached (hl : type.label.hasProperties) :
    (publishedWorld type a).graph.SameBut "u" (attachedWorld type a).graph := by
  rw [publishedWorld_graph, attachedWorld_graph type a hl]
  have hdraft : (attachedNode a).draftOf "u" := rfl
  have hpublished := not_draftOf_of_active (u := "u") (publishedNode_active type a)
  have hid : (attachedNode a).id = 1 := rfl
  refine ⟨by simp [hdraft, hpublished], ?_⟩
  simp [Graph.touchesDraftOf, hdraft, hid]

theorem propertyNodes_other (hl : type.label.hasProperties) {label : Label} (hne : label ≠ type.label) (hp : label.hasProperties) (w : World)
    (hw : w = publishedWorld type a ∨ w = attachedWorld type a) :
    propertyNodes w.graph label (entityRid type a) "t" = [] := by
  have hentity : (publishedNode type a).label ≠ label := hne.symm
  have hproperty : (attachedNode a).label ≠ label := by
    rcases hp with hp | hp <;> simp [attachedNode, hp]
  have hnone : ∀ n ∈ w.graph.nodes, n.keyed label (entityRid type a) "t" = false := by
    intro n hn
    have hlabel : n.label ≠ label := by
      rcases hw with rfl | rfl
      · rw [publishedWorld_graph] at hn
        rw [List.mem_singleton.mp hn]
        exact hentity
      · rw [attachedWorld_graph type a hl] at hn
        simp only [List.mem_cons, List.not_mem_nil, or_false] at hn
        rcases hn with rfl | rfl
        · exact hentity
        · exact hproperty
    simp [Node.keyed, hlabel]
  have hfilter : w.graph.nodes.filter (Node.keyed label (entityRid type a) "t") = [] :=
    List.filter_eq_nil_iff.mpr fun n hn => by simp [hnone n hn]
  unfold propertyNodes Graph.getRelatedNodes
  rw [hfilter, List.flatMap_nil]

/-- Another user lists no property type before, and that Draft after. -/
theorem getPropertyTypesForEntity_published (hl : type.label.hasProperties) :
    getPropertyTypesForEntity (publishedWorld type a).graph "t" (entityRid type a) = [] := by
  have hnone : ∀ label : Label, label.hasProperties →
      propertyNodes (publishedWorld type a).graph label (entityRid type a) "t" = [] := by
    intro label hp
    by_cases h : label = type.label
    · rw [h]
      exact propertyNodes_published type a
    · exact propertyNodes_other type a hl h hp _ (.inl rfl)
  simp [getPropertyTypesForEntity, hnone _ (.inl rfl), hnone _ (.inr rfl)]

theorem getPropertyTypesForEntity_attached (hl : type.label.hasProperties) :
    getPropertyTypesForEntity (attachedWorld type a).graph "t" (entityRid type a) =
      [deserializeFromNeo4j (attachedNode a).props] := by
  have hattached := propertyNodes_attached type a hl
  unfold getPropertyTypesForEntity
  rcases hl with h | h
  · rw [h] at hattached
    rw [hattached]
    rfl
  · have hobject := propertyNodes_other type a (.inr h) (by rw [h]; decide) (.inl rfl) _ (.inr rfl)
    rw [h] at hattached
    rw [hobject, hattached]
    rfl

theorem getActiveNode_published :
    (publishedWorld type a).graph.getActiveNode type.label (entityRid type a) "t" = some (publishedNode type a) := by
  rw [publishedWorld_graph]
  exact List.find?_cons_of_pos (by rw [publishedNode_keyed, publishedNode_active]; rfl)

theorem mappedNode_published (hl : type.label.hasProperties) :
    (mappedNode (publishedWorld type a).graph "t" (entityRid type a)).isSome := by
  have hactive := getActiveNode_published type a
  unfold mappedNode
  rcases hl with h | h
  · rw [h] at hactive
    rw [hactive]
    rfl
  · rw [h] at hactive
    cases (publishedWorld type a).graph.getActiveNode .objectType (entityRid type a) "t" with
    | some node => rfl
    | none =>
      rw [hactive]
      rfl

/-- Such a read of another user tells the two states apart. -/
def ReadOp.Leaks (op : ReadOp) : Prop :=
  op.run "t" "v" (publishedWorld type a).graph ≠ op.run "t" "v" (attachedWorld type a).graph

theorem getPropertyTypesForEntity_leaks (hl : type.label.hasProperties) :
    (ReadOp.getPropertyTypesForEntity (entityRid type a)).Leaks type a := by
  intro h
  simp only [ReadOp.run, getPropertyTypesForEntity_published type a hl, getPropertyTypesForEntity_attached type a hl]
    at h
  injection h with h
  injection h with h
  cases h

theorem getEntity_leaks (hl : type.label.hasProperties) :
    (ReadOp.getEntity type (entityRid type a)).Leaks type a := by
  have hlabel : type.label ∈ [Label.objectType, Label.linkType] := by
    simp only [List.mem_cons, List.not_mem_nil, or_false]
    exact hl
  have hsame := getActiveNode_same (sameBut_attached type a hl) type.label (entityRid type a) "t"
  rw [getActiveNode_published] at hsame
  intro h
  simp only [ReadOp.run, getEntity, getActiveNode_published, ← hsame, propertyTypesOf, if_pos hlabel,
    propertyNodes_published, propertyNodes_attached type a hl] at h
  injection h with h
  injection h with h
  injection h with h₁ h₂
  cases h₂

/-- The property types of the result are those the loop was called with. -/
theorem schemaLoop_propertyTypes {properties : List Props} {schema info : SchemaInfo}
    (h : schemaLoop properties schema = .ok info) : info.propertyTypes = schema.propertyTypes := by
  induction properties generalizing schema with
  | nil =>
    injection h with h
    rw [← h]
  | cons pt rest ih =>
    rw [schemaLoop] at h
    cases hmasked : isMasked (pt .compliance) with
    | error e =>
      rw [hmasked] at h
      cases h
    | ok masked =>
      rw [hmasked] at h
      have hrest : schemaLoop rest _ = .ok info := h
      rw [ih hrest]

theorem loadSchema_leaks (hl : type.label.hasProperties) :
    (ReadOp.loadSchema (entityRid type a)).Leaks type a := by
  intro h
  simp only [ReadOp.run, loadSchema, getPropertyTypesForEntity_published type a hl,
    getPropertyTypesForEntity_attached type a hl] at h
  rw [schemaLoop] at h
  cases hattached : schemaLoop [deserializeFromNeo4j (attachedNode a).props]
      ⟨entityRid type a, [deserializeFromNeo4j (attachedNode a).props],
        getAssetMapping (attachedWorld type a).graph "t" (entityRid type a), [], fun _ => none, [], [], fun _ => false,
        []⟩ with
  | error e =>
    rw [hattached] at h
    cases h
  | ok info =>
    have hproperties := schemaLoop_propertyTypes hattached
    rw [hattached] at h
    injection h with h
    injection h with h
    rw [← h] at hproperties
    cases hproperties

theorem startsWith_entityRid (hl : type.label.hasProperties) :
    (if (entityRid type a).startsWith "ri.obj." then Label.objectType else .linkType) = type.label := by
  rcases hl with h | h
  · have hprefix : (entityRid type a).startsWith "ri.obj." = true := by
      rw [String.startsWith_string_iff]
      simp [entityRid, h, entityRidTypes, generateRid]
    rw [if_pos hprefix, h]
  · have hprefix : ¬ (entityRid type a).startsWith "ri.obj." = true := by
      rw [String.startsWith_string_iff]
      simp [entityRid, h, entityRidTypes, generateRid]
    rw [if_neg hprefix, h]

theorem queryAssetMappingReferences_leaks (hl : type.label.hasProperties) :
    (ReadOp.queryAssetMappingReferences (entityRid type a)).Leaks type a := by
  obtain ⟨node, hnode⟩ := Option.isSome_iff_exists.mp (mappedNode_published type a hl)
  have hsame := mappedNode_same (sameBut_attached type a hl) "t" (entityRid type a)
  rw [hnode] at hsame
  intro h
  simp only [ReadOp.run, queryAssetMappingReferences, hnode, ← hsame, startsWith_entityRid type a hl,
    propertyNodes_published, propertyNodes_attached type a hl] at h
  injection h with h
  injection h with h
  cases h

end Attached

/-! ## The reads that are private -/

/-- In every two reachable states that differ only in Drafts of one user, the read returns the same to every
other user. -/
def ReadOp.Private (op : ReadOp) : Prop :=
  ∀ t u v w w', Reachable w → Reachable w' → w.graph.SameBut u w'.graph → v ≠ u →
    op.run t v w.graph = op.run t v w'.graph

theorem entityType_of_hasProperties {label : Label} (h : label.hasProperties) :
    ∃ type : EntityType, type.label = label := by
  rcases h with rfl | rfl
  · exact ⟨.objectType, rfl⟩
  · exact ⟨.linkType, rfl⟩

/-- A read that tells the states before and after a new property type apart is not private. -/
theorem not_private_of_leaks {op : ReadOp} {type : EntityType} {a : String} (hl : type.label.hasProperties)
    (h : op.Leaks type a) : ¬ op.Private :=
  fun hp => h (hp "t" "u" "v" _ _ (reachable_published type a hl) (reachable_attached type a hl)
    (sameBut_attached type a hl) (by decide))

/-- A read hides the Drafts of a user from the others exactly when it is blind. -/
theorem read_private_iff (op : ReadOp) : op.Private ↔ op.Blind := by
  constructor
  · intro hp
    by_contra hb
    cases op with
    | queryEntities type term status offset limit =>
      obtain ⟨w, hreach, hsame, hne⟩ := queryEntities_leaks type term status offset limit
      have hempty : Reachable World.empty :=
        ⟨[], fun _ h => (List.not_mem_nil h).elim, List.nodup_nil, rfl⟩
      exact hne (hp "t" "u" "v" _ _ hempty hreach hsame (by decide))
    | getEntity type rid =>
      obtain ⟨hl, uuid, rfl⟩ := not_not.mp hb
      exact not_private_of_leaks hl (getEntity_leaks type uuid hl) hp
    | getPropertyTypesForEntity rid =>
      obtain ⟨label, hl, uuid, rfl⟩ := not_not.mp hb
      obtain ⟨type, rfl⟩ := entityType_of_hasProperties hl
      exact not_private_of_leaks hl (getPropertyTypesForEntity_leaks type uuid hl) hp
    | queryAssetMappingReferences rid =>
      obtain ⟨label, hl, uuid, rfl⟩ := not_not.mp hb
      obtain ⟨type, rfl⟩ := entityType_of_hasProperties hl
      exact not_private_of_leaks hl (queryAssetMappingReferences_leaks type uuid hl) hp
    | loadSchema rid =>
      obtain ⟨label, hl, uuid, rfl⟩ := not_not.mp hb
      obtain ⟨type, rfl⟩ := entityType_of_hasProperties hl
      exact not_private_of_leaks hl (loadSchema_leaks type uuid hl) hp
    | _ => exact hb trivial
  · intro hb t u v w w' hw hw' hsame hne
    exact same_of_blind hb hw.lawful hw'.lawful hne hsame t

/-- One user creates an ObjectType; the query of another finds none before and one after. -/
theorem draft_listed :
    let w := createdWorld ⟨"t", "u", "1", "a"⟩ .objectType entityProps
    let op := ReadOp.queryEntities .objectType none none 0 20
    Reachable World.empty ∧ Reachable w ∧ World.empty.graph.SameBut "u" w.graph ∧
      op.run "t" "v" World.empty.graph = .ok (.details [] 0) ∧
      ∃ entities, op.run "t" "v" w.graph = .ok (.details entities 1) := by
  have hworld : (runFrom Serial.next .empty [.call ⟨⟨"t", "u", "1", "a"⟩, .create .objectType entityProps⟩]).world =
      createdWorld ⟨"t", "u", "1", "a"⟩ .objectType entityProps := after_create _ _ _ _
  have hadmitted : (Op.create .objectType entityProps).Admitted := admitted_create .objectType "Order" "ACTIVE"
  have hempty : Reachable World.empty := ⟨[], fun _ h => (List.not_mem_nil h).elim, List.nodup_nil, rfl⟩
  have hreach : Reachable (createdWorld ⟨"t", "u", "1", "a"⟩ .objectType entityProps) := by
    rw [← hworld]
    refine reachable_serial ?_ (by simp [FreshUuids, SerialEvent.made])
    simpa [SerialEvent.made] using hadmitted
  have hnone : (ReadOp.queryEntities .objectType none none 0 20).run "t" "v" World.empty.graph =
      .ok (.details [] 0) := by
    simp [ReadOp.run, queryEntities, Graph.listNodes, Graph.listWhere, newestFirst, page, World.empty, Graph.empty]
  exact ⟨hempty, hreach, ⟨rfl, rfl⟩, hnone, ⟨_, rfl⟩⟩

end Lingshu.Ontology
