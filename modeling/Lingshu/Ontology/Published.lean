import Lingshu.Ontology.Versions

/-! # Published versions and the calls that do not publish

A published version is Active or historical. Two unfiltered updates can reach one outside a commit or a
rollback: the cascade of `update_shared_property_type`, which writes to every version of a PropertyType,
and the conversion of `discard_staging`, which writes to every version of its entity. -/
namespace Lingshu.Ontology
open Json Interaction
set_option autoImplicit false

/-! ## Ids and relationships -/

/-- Ids are unique and below the next one, relationships join ids in use, and what a relationship
`BASED_ON` starts from is a PropertyType. -/
structure Graph.Linked (g : Graph) : Prop where
  ids : (g.nodes.map Node.id).Nodup
  bounded : ∀ n ∈ g.nodes, n.id < g.nextId
  ends : ∀ r ∈ g.rels, r.source < g.nextId ∧ r.target < g.nextId
  basedOn : ∀ r ∈ g.rels, r.type = .basedOn → ∀ n ∈ g.nodes, n.id = r.source → n.label = .propertyType

namespace Graph.Linked
variable {g : Graph}

theorem empty : Graph.empty.Linked where
  ids := List.nodup_nil
  bounded := by intro n hn; cases hn
  ends := by intro r hr; cases hr
  basedOn := by intro r hr; cases hr

theorem create (h : g.Linked) (label : Label) (props : Props) : (g.create label props).Linked where
  ids := by
    simp only [Graph.create, List.map_append, List.map_cons, List.map_nil]
    refine List.nodup_append.mpr ⟨h.ids, List.nodup_singleton _, ?_⟩
    intro i hi j hj
    obtain ⟨n, hn, rfl⟩ := List.mem_map.mp hi
    have := h.bounded n hn
    rw [List.mem_singleton.mp hj]
    omega
  bounded := by
    intro n hn
    rcases List.mem_append.mp hn with hn | hn
    · exact Nat.lt_succ_of_lt (h.bounded n hn)
    · rw [List.mem_singleton.mp hn]
      exact Nat.lt_succ_self _
  ends := by
    intro r hr
    obtain ⟨h1, h2⟩ := h.ends r hr
    exact ⟨Nat.lt_succ_of_lt h1, Nat.lt_succ_of_lt h2⟩
  basedOn := by
    intro r hr ht n hn he
    rcases List.mem_append.mp hn with hn | hn
    · exact h.basedOn r hr ht n hn he
    · have h1 := (h.ends r hr).1
      rw [List.mem_singleton.mp hn] at he
      simp only at he
      omega

theorem setWhere (h : g.Linked) (p : Node → Bool) (d : Dict) : (g.setWhere p d).Linked := by
  have hmem : ∀ n ∈ (g.setWhere p d).nodes, ∃ m ∈ g.nodes, n.id = m.id ∧ n.label = m.label := by
    intro n hn
    obtain ⟨m, hm, rfl⟩ := List.mem_map.mp hn
    refine ⟨m, hm, ?_⟩
    split <;> exact ⟨rfl, rfl⟩
  have hids : (g.setWhere p d).nodes.map Node.id = g.nodes.map Node.id := by
    simp only [Graph.setWhere, List.map_map]
    refine List.map_congr_left fun n _ => ?_
    simp only [Function.comp_apply]
    split <;> rfl
  refine ⟨by rw [hids]; exact h.ids, ?_, h.ends, ?_⟩
  · intro n hn
    obtain ⟨m, hm, hid, _⟩ := hmem n hn
    rw [hid]
    exact h.bounded m hm
  · intro r hr ht n hn he
    obtain ⟨m, hm, hid, hlabel⟩ := hmem n hn
    rw [hlabel]
    exact h.basedOn r hr ht m hm (by rw [← hid]; exact he)

theorem deleteWhere (h : g.Linked) (p : Node → Bool) : (g.deleteWhere p).Linked where
  ids := h.ids.sublist (List.filter_sublist.map _)
  bounded := fun n hn => h.bounded n (List.mem_filter.mp hn).1
  ends := fun r hr => h.ends r (List.mem_filter.mp hr).1
  basedOn := fun r hr ht n hn he =>
    h.basedOn r (List.mem_filter.mp hr).1 ht n (List.mem_filter.mp hn).1 he

theorem createRelationship (h : g.Linked) {fromLabel toLabel : Label} {fromRid toRid tenantId : String}
    {relType : RelType} (hfrom : fromLabel = .propertyType) :
    (g.createRelationship fromLabel fromRid toLabel toRid relType tenantId).Linked := by
  have hnew : ∀ r ∈ (g.createRelationship fromLabel fromRid toLabel toRid relType tenantId).rels,
      r ∈ g.rels ∨ ∃ a ∈ g.nodes, ∃ b ∈ g.nodes, a.label = fromLabel ∧ r = ⟨relType, a.id, b.id⟩ := by
    intro r hr
    rcases List.mem_append.mp hr with hr | hr
    · exact .inl hr
    · obtain ⟨a, ha, hr⟩ := List.mem_flatMap.mp hr
      obtain ⟨b, hb, rfl⟩ := List.mem_map.mp hr
      obtain ⟨ha, hka⟩ := List.mem_filter.mp ha
      exact .inr ⟨a, ha, b, (List.mem_filter.mp hb).1, (Node.keyed_iff.mp hka).1, rfl⟩
  refine ⟨h.ids, h.bounded, ?_, ?_⟩
  · intro r hr
    obtain hr | ⟨a, ha, b, hb, _, rfl⟩ := hnew r hr
    · exact h.ends r hr
    · exact ⟨h.bounded a ha, h.bounded b hb⟩
  · intro r hr ht n hn he
    obtain hr | ⟨a, ha, b, hb, hlabel, rfl⟩ := hnew r hr
    · exact h.basedOn r hr ht n hn he
    · obtain rfl := List.inj_on_of_nodup_map h.ids hn ha he
      rw [hlabel, hfrom]

theorem perm {g' : Graph} (h : g.Linked) (hn : g'.nodes.Perm g.nodes) (hr : g'.rels.Perm g.rels)
    (hid : g'.nextId = g.nextId) : g'.Linked where
  ids := (hn.map _).nodup_iff.mpr h.ids
  bounded := fun n hm => by rw [hid]; exact h.bounded n (hn.mem_iff.mp hm)
  ends := fun r hm => by rw [hid]; exact h.ends r (hr.mem_iff.mp hm)
  basedOn := fun r hm ht n hm' he => h.basedOn r (hr.mem_iff.mp hm) ht n (hn.mem_iff.mp hm') he

end Graph.Linked

theorem linked_exec {G : Node → Prop} {call : Call} {c : Cmd} (hc : Issues G call c) {w : World}
    (h : w.graph.Linked) : (exec c w).2.graph.Linked := by
  cases hc with
  | new | clone => simp only [exec]; split <;> [exact h.create _ _; exact h]
  | edit | submit | cascade | unstage => simp only [exec]; split <;> [exact h.setWhere _ _; exact h]
  | dropDraft | dropStaging | cleanupDeleted => exact h.deleteWhere _
  | belongsTo | basedOn => exact h.createRelationship rfl
  | deactivateStaged | promoteStaged | deactivateSnapshot | reactivateSnapshot => exact h.setWhere _ _
  | publish | repoint =>
    simp only [exec]
    split
    · exact h
    · rw [foldl_apply_graph]
      exact h
  | quiet hq =>
    rw [(exec_quiet hq w).1]
    exact h

theorem concurrent_linked (es : List CallEvent) :
    (runFrom concurrent.next noCalls es).state.graph.Linked := by
  refine (concurrent_holds (G := fun _ => True) (J := fun w => w.graph.Linked) (fun _ _ _ _ => trivial)
    ?_ ?_ Graph.Linked.empty).inv
  · intro call _ c w hc hw
    exact linked_exec hc hw
  · intro v w hw
    exact hw.perm (v.apply_nodes w) (v.apply_rels w) (v.apply_nextId w)

/-! ## The filtered methods -/

/-- The published versions, in the order of the graph. -/
def World.published (w : World) : List Node := w.graph.nodes.filter Node.published

/-- The methods all of whose updates filter on the flags. -/
def Op.Filtered : Op → Prop
  | .update .sharedPropertyType .. | .discardStaging .. | .commitStaging .. | .rollbackToSnapshot .. => False
  | _ => True

theorem published_false_of_draft {n : Node} (h : n.props .isDraft = .bool true) : n.published = false := by
  simp [Node.published, Node.has, h]

theorem published_false_of_staging {n : Node} (h : n.props .isStaging = .bool true) :
    n.published = false := by
  simp [Node.published, Node.has, h]

theorem filterOf_isDraft {label : Label} {rid tenantId : String} {isStaging : Option Bool}
    {owner : Option String} {n : Node} (h : Graph.filterOf label rid tenantId (some true) isStaging owner n) :
    n.props .isDraft = .bool true := by
  simp only [Graph.filterOf, Node.hasOpt, Bool.and_eq_true] at h
  simpa [Node.has] using h.1.1.2

theorem filterOf_isStaging {label : Label} {rid tenantId : String} {isDraft : Option Bool}
    {owner : Option String} {n : Node} (h : Graph.filterOf label rid tenantId isDraft (some true) owner n) :
    n.props .isStaging = .bool true := by
  simp only [Graph.filterOf, Node.hasOpt, Bool.and_eq_true] at h
  simpa [Node.has] using h.1.2

/-- A filtered method reaches no published version. -/
theorem published_spared {G : Node → Prop} {call : Call} {c : Cmd} (ha : call.op.Admitted)
    (hf : call.op.Filtered) (hc : Issues G call c) (g : Graph) : (c.effect g).Spares Node.published := by
  cases hc with
  | new hnew =>
    refine effect_createNode ?_ trivial
    refine published_false_of_draft ?_
    simp [Props.update, (lookup_newNode hnew).2.2.1]
  | clone good key guarded marks =>
    refine effect_createNode ?_ trivial
    refine published_false_of_draft ?_
    simp [Props.update, (marks ha).isDraft]
  | edit guarded plain =>
    refine effect_updateNode ?_ trivial
    intro n hp
    have hn := filterOf_isDraft hp
    refine ⟨published_false_of_draft hn, published_false_of_draft ?_⟩
    rw [Node.set_props, Props.update_of_notMem (plain ha _ (by decide))]
    exact hn
  | submit =>
    intro n hp
    refine ⟨published_false_of_draft (filterOf_isDraft hp), published_false_of_staging rfl⟩
  | cascade | unstage | deactivateStaged | promoteStaged | cleanupDeleted | publish | deactivateSnapshot
  | reactivateSnapshot | repoint => exact absurd hf (by simp [Op.Filtered])
  | dropDraft => exact fun n hp => published_false_of_draft (filterOf_isDraft hp)
  | dropStaging => exact fun n hp => published_false_of_staging (filterOf_isStaging hp)
  | belongsTo | basedOn => trivial
  | quiet hq => cases c <;> trivial

theorem run_published {α : Type} (call : Call) {p : Program α} (ha : call.op.Admitted)
    (hf : call.op.Filtered) (hp : KeepsTo (fun _ => True) call p) (w : World) :
    (p.run exec w).2.published = w.published := by
  refine (hp.run (J := fun w' : World => w'.published = w.published) ?_ rfl).1
  intro c w' hw hc _
  refine ⟨?_, exec_answers (fun _ _ => trivial) c⟩
  have hspared := published_spared ha hf hc w'.graph
  show (exec c w').2.graph.nodes.filter Node.published = w.published
  rw [exec_nodes, hspared.filter_eq]
  exact hw

theorem after_published {call : Call} (ha : call.op.Admitted) (hf : call.op.Filtered) (w : World) :
    (after call w).published = w.published :=
  run_published call ha hf (keepsTo_service _ call) w

/-! ## Converting a Staging version back -/

/-- `discard_staging` finds Staging and no Active version, so that it converts, and its entity has a
published version. -/
def ConvertsPublished (w : World) (ctx : Ctx) (label : Label) (rid : String) : Prop :=
  w.graph.getActiveNode label rid ctx.tenantId = none ∧
    (w.graph.getStagingNode label rid ctx.tenantId).isSome ∧
      ∃ n ∈ w.graph.nodes, n.keyed label rid ctx.tenantId ∧ n.published

theorem filter_map_eq_iff {q : Node → Bool} {f : Node → Node} (nodes : List Node)
    (h : ∀ n ∈ nodes, q (f n) = q n) :
    (nodes.map f).filter q = nodes.filter q ↔ ∀ n ∈ nodes, q n → f n = n := by
  induction nodes with
  | nil => simp
  | cons n nodes ih =>
    have ih' := ih fun m hm => h m (List.mem_cons_of_mem _ hm)
    rw [List.map_cons, List.filter_cons, List.filter_cons, h n (List.mem_cons_self ..), List.forall_mem_cons]
    by_cases hq : q n = true
    · simp only [hq, if_true, List.cons.injEq, ih', true_imp_iff]
    · simp only [hq, Bool.false_eq_true, if_false, ih', false_imp_iff, true_and]

theorem unstaged_published (n : Node) (ctx : Ctx) : (n.set (unstageProps ctx)).published = false :=
  published_false_of_draft rfl

/-- Moving the nodes in `p` out of `q` leaves the nodes in `q` the same only if there are none. -/
theorem filter_leave_iff {p q : Node → Bool} {f : Node → Node} (nodes : List Node)
    (h : ∀ n, p n → q (f n) = false) :
    (nodes.map fun n => if p n then f n else n).filter q = nodes.filter q ↔
      ∀ n ∈ nodes, p n → q n = false := by
  have hle : ∀ l : List Node, ((l.map fun n => if p n then f n else n).filter q).length ≤
      (l.filter q).length := by
    intro l
    rw [← List.countP_eq_length_filter, ← List.countP_eq_length_filter, List.countP_map]
    refine List.countP_mono_left fun n _ hn => ?_
    simp only [Function.comp_apply] at hn
    split at hn
    · rename_i hp
      rw [h n hp] at hn
      cases hn
    · exact hn
  induction nodes with
  | nil => simp
  | cons n nodes ih =>
    rw [List.map_cons, List.forall_mem_cons]
    by_cases hp : p n = true
    · rw [if_pos hp, List.filter_cons_of_neg (by simp [h n hp])]
      by_cases hq : q n = true
      · rw [List.filter_cons_of_pos hq]
        refine iff_of_false ?_ ?_
        · intro he
          have hlen := congrArg List.length he
          have := hle nodes
          rw [List.length_cons] at hlen
          omega
        · intro hall
          rw [hall.1 hp] at hq
          cases hq
      · rw [List.filter_cons_of_neg hq]
        exact ih.trans (by simp [hq])
    · rw [if_neg hp, List.filter_cons, List.filter_cons]
      by_cases hq : q n = true
      · simp [hq, hp, ih]
      · simp [hq, hp, ih]

/-- What the unfiltered update of `discard_staging` does to the published versions. -/
theorem unstage_published_iff (w : World) (ctx : Ctx) (label : Label) (rid : String) :
    (exec (unstageCmd ctx label rid) w).2.published = w.published ↔
      ∀ n ∈ w.graph.nodes, n.keyed label rid ctx.tenantId → n.published = false := by
  have hstore : Dict.storable (unstageProps ctx) = true := rfl
  rw [World.published, exec_nodes]
  simp only [unstageCmd, Cmd.effect, hstore, if_true, Effect.on, filterOf_all, World.published]
  exact filter_leave_iff w.graph.nodes fun n _ => unstaged_published n ctx

theorem run_map {α β : Type} (f : α → β) (p : Program α) (w : World) :
    ((f <$> p).run exec w).2 = (p.run exec w).2 := by
  show ((p.bind fun a => .pure (f a)).run exec w).2 = _
  rw [Prog.run_bind]
  split <;> simp_all

theorem dropStaging_published (w : World) (label : Label) (rid tenantId : String) :
    (exec (.deleteNode label rid tenantId none (some true) none) w).2.published = w.published := by
  have hspared : (Cmd.effect w.graph (.deleteNode label rid tenantId none (some true) none)).Spares
      Node.published := fun n hp => published_false_of_staging (filterOf_isStaging hp)
  rw [World.published, exec_nodes, hspared.filter_eq]
  rfl

/-- What `discard_staging` does alone: it drops a Staging version beside an Active one, or finds nothing, or converts. -/
theorem discardStaging_cases (w : World) (ctx : Ctx) (label : Label) (rid : String) :
    ((w.graph.getActiveNode label rid ctx.tenantId).isSome ∧ after ⟨ctx, .discardStaging label rid⟩ w =
      (exec (.deleteNode label rid ctx.tenantId none (some true) none) w).2) ∨
    (w.graph.getStagingNode label rid ctx.tenantId = none ∧ after ⟨ctx, .discardStaging label rid⟩ w = w) ∨
    (w.graph.getActiveNode label rid ctx.tenantId = none ∧
      (w.graph.getStagingNode label rid ctx.tenantId).isSome ∧
        after ⟨ctx, .discardStaging label rid⟩ w = (exec (unstageCmd ctx label rid) w).2) := by
  have hprog : after ⟨ctx, .discardStaging label rid⟩ w = ((discardStaging ctx label rid).run exec w).2 :=
    run_map _ _ _
  rw [hprog]
  cases hactive : w.graph.getActiveNode label rid ctx.tenantId with
  | some active =>
    refine .inl ⟨rfl, ?_⟩
    simp only [discardStaging, Prog.bind_eq, Prog.run_bind, run_getActiveNode, hactive, run_deleteNode]
    split <;> rfl
  | none =>
    cases hstaging : w.graph.getStagingNode label rid ctx.tenantId with
    | none =>
      refine .inr (.inl ⟨rfl, ?_⟩)
      simp only [discardStaging, Prog.bind_eq, Prog.run_bind, run_getActiveNode, hactive, run_getStagingNode, hstaging,
        Prog.run_throw]
    | some staging =>
      refine .inr (.inr ⟨rfl, rfl, ?_⟩)
      have hstore : Dict.storable (unstageProps ctx) = true := rfl
      simp only [discardStaging, Prog.bind_eq, Prog.run_bind, run_getActiveNode, hactive, run_getStagingNode, hstaging,
        run_updateNode _ _ _ _ _ _ hstore]
      rfl

theorem discardStaging_published_iff (w : World) (ctx : Ctx) (label : Label) (rid : String) :
    (after ⟨ctx, .discardStaging label rid⟩ w).published = w.published ↔
      ¬ ConvertsPublished w ctx label rid := by
  obtain ⟨hactive, hrun⟩ | ⟨hstaging, hrun⟩ | ⟨hactive, hstaging, hrun⟩ := discardStaging_cases w ctx label rid
  · rw [hrun]
    refine iff_of_true (dropStaging_published _ _ _ _) ?_
    rintro ⟨hnone, _⟩
    rw [hnone] at hactive
    cases hactive
  · rw [hrun]
    refine iff_of_true rfl ?_
    rintro ⟨_, hsome, _⟩
    rw [hstaging] at hsome
    cases hsome
  · rw [hrun, unstage_published_iff]
    constructor
    · rintro h ⟨_, _, n, hn, hk, hp⟩
      rw [h n hn hk] at hp
      cases hp
    · intro h n hn hk
      by_contra hp
      rw [Bool.not_eq_false] at hp
      exact h ⟨hactive, hstaging, n, hn, hk, hp⟩

/-! ## The cascade -/

/-- The version that an edit without a Draft starts from. -/
def Graph.startVersion (g : Graph) (label : Label) (rid tenantId : String) : Option Node :=
  match g.getStagingNode label rid tenantId with
  | some source => some source
  | none => g.getActiveNode label rid tenantId

theorem startVersion_mem {g : Graph} {label : Label} {rid tenantId : String} {n : Node}
    (h : g.startVersion label rid tenantId = some n) : n ∈ g.nodes ∧ n.keyed label rid tenantId := by
  have hfound : ∀ {q : Node → Bool}, (g.nodes.find? fun m => m.keyed label rid tenantId && q m) = some n →
      n ∈ g.nodes ∧ n.keyed label rid tenantId := by
    intro q hq
    have hn := List.find?_some hq
    exact ⟨List.mem_of_find?_eq_some hq, (Bool.and_eq_true_iff.mp hn).1⟩
  unfold Graph.startVersion at h
  split at h
  next source hstaging =>
    cases h
    exact hfound hstaging
  next => exact hfound h

/-- What an accepted edit writes: onto the caller's Draft, or onto a copy of the version it starts
from. -/
def editProps (w : World) (ctx : Ctx) (label : Label) (rid : String) (updates : Dict) : Option Dict :=
  let updateProps := Dict.set (serializeForNeo4j updates) .updatedAt (.str ctx.now)
  match w.graph.getDraftNode label rid ctx.tenantId ctx.userId with
  | some _ => some updateProps
  | none => (w.graph.startVersion label rid ctx.tenantId).map fun source =>
      Dict.update (cloneProps ctx source) updateProps

/-- `_update_entity` raises nothing: the caller has the lock, asks for no protected field, there is a
version to start from, and what is written can be stored. -/
def EditAccepted (w : World) (ctx : Ctx) (label : Label) (rid : String) (updates : Dict) : Prop :=
  w.redis (.lock rid) = some ctx.userId ∧ checkImmutableFields label updates = none ∧
    ∃ d, editProps w ctx label rid updates = some d ∧ d.storable

/-- An edit adds a node of the label, or writes to nodes of the label. -/
inductive Edited (label : Label) (g : Graph) : Graph → Prop where
  | cloned (props : Props) : Edited label g (g.create label props)
  | written (p : Node → Bool) (d : Dict) (hp : ∀ n, p n → n.label = label)
      (hrid : .rid ∉ d.keys) (htenant : .tenantId ∉ d.keys) : Edited label g (g.setWhere p d)

theorem run_requireLock (w : World) (rid userId : String) :
    (requireLock rid userId).run exec w = if w.redis (.lock rid) = some userId then (.ok (), w)
      else (.error (appError .ontologyLockRequired
        ("Lock required on " ++ rid ++ ". Acquire lock first.") []), w) := by
  simp only [requireLock, Prog.bind_eq, Prog.run_bind, run_redisGet]
  split <;> rfl

theorem run_cloneSource (w : World) (label : Label) (rid tenantId : String) :
    (cloneSource label rid tenantId).run exec w = (.ok (w.graph.startVersion label rid tenantId), w) := by
  simp only [cloneSource, Prog.bind_eq, Prog.run_bind, run_getStagingNode, Graph.startVersion]
  cases w.graph.getStagingNode label rid tenantId <;> rfl

/-- The caller's Draft, as the update of `_update_entity` finds it. -/
theorem find?_draft {g : Graph} {label : Label} {rid tenantId userId : String} :
    g.nodes.find? (Graph.filterOf label rid tenantId (some true) none (some userId)) =
      g.getDraftNode label rid tenantId userId := by
  rw [Graph.getDraftNode]
  congr 1
  funext n
  exact filterOf_draft

theorem updateEntity_refused {w : World} {ctx : Ctx} {label : Label} {rid : String} {updates : Dict}
    (h : ¬ EditAccepted w ctx label rid updates) :
    ∃ e, (updateEntity ctx label rid updates).run exec w = (.error e, w) := by
  simp only [updateEntity, Prog.bind_eq, Prog.run_bind, run_requireLock]
  by_cases hlock : w.redis (.lock rid) = some ctx.userId
  · simp only [hlock, if_true]
    cases himm : checkImmutableFields label updates with
    | some e => exact ⟨e, rfl⟩
    | none =>
      have hrefused : ∀ d, editProps w ctx label rid updates = some d → d.storable = false := by
        intro d hd
        by_contra hs
        exact h ⟨hlock, himm, d, hd, by simpa using hs⟩
      simp only [Prog.run_bind, run_getDraftNode]
      cases hdraft : w.graph.getDraftNode label rid ctx.tenantId ctx.userId with
      | some draft =>
        have hs := hrefused (Dict.set (serializeForNeo4j updates) .updatedAt (.str ctx.now))
          (by simp only [editProps, hdraft])
        simp only [Prog.run_bind, run_updateNode_refused _ _ _ _ _ _ hs]
        exact ⟨_, rfl⟩
      | none =>
        simp only [Prog.run_bind, run_cloneSource]
        cases hsource : w.graph.startVersion label rid ctx.tenantId with
        | none => exact ⟨_, rfl⟩
        | some source =>
          have hs := hrefused (Dict.update (cloneProps ctx source)
            (Dict.set (serializeForNeo4j updates) .updatedAt (.str ctx.now)))
            (by simp only [editProps, hdraft, hsource, Option.map_some])
          simp only [Prog.run_bind, run_createNode_refused _ _ _ hs]
          exact ⟨_, rfl⟩
  · simp only [hlock, if_false]
    exact ⟨_, rfl⟩

/-- The graph after an accepted edit. -/
def editGraph (w : World) (ctx : Ctx) (label : Label) (rid : String) (updates : Dict) : Graph :=
  let updateProps := Dict.set (serializeForNeo4j updates) .updatedAt (.str ctx.now)
  match w.graph.getDraftNode label rid ctx.tenantId ctx.userId with
  | some _ =>
    w.graph.setWhere (Graph.filterOf label rid ctx.tenantId (some true) none (some ctx.userId)) updateProps
  | none => (w.graph.startVersion label rid ctx.tenantId).elim w.graph fun source =>
      w.graph.create label (source.props.update (Dict.update (cloneProps ctx source) updateProps))

theorem updateEntity_accepted {w : World} {ctx : Ctx} {label : Label} {rid : String} {updates : Dict}
    (h : EditAccepted w ctx label rid updates) :
    ∃ response, (updateEntity ctx label rid updates).run exec w =
      (.ok response, w.onGraph fun _ => editGraph w ctx label rid updates) := by
  obtain ⟨hlock, himm, d, hd, hs⟩ := h
  simp only [updateEntity, Prog.bind_eq, Prog.run_bind, run_requireLock, hlock, if_true, himm,
    run_getDraftNode, editGraph]
  simp only [editProps] at hd
  cases hdraft : w.graph.getDraftNode label rid ctx.tenantId ctx.userId with
  | some draft =>
    rw [hdraft] at hd
    cases hd
    simp only [Prog.run_bind, run_updateNode _ _ _ _ _ _ hs, find?_draft, hdraft, Option.map_some]
    exact ⟨_, rfl⟩
  | none =>
    rw [hdraft] at hd
    obtain ⟨source, hsource, rfl⟩ := Option.map_eq_some_iff.mp hd
    simp only [Prog.run_bind, run_cloneSource, hsource, run_createNode _ _ _ hs]
    exact ⟨_, rfl⟩

theorem edited_editGraph {w : World} {ctx : Ctx} {label : Label} {rid : String} {updates : Dict}
    (h : EditAccepted w ctx label rid updates) : Edited label w.graph (editGraph w ctx label rid updates) := by
  obtain ⟨-, himm, d, hd, -⟩ := h
  have hguarded := updateProps_guarded himm ctx.now
  simp only [editProps] at hd
  unfold editGraph
  cases hdraft : w.graph.getDraftNode label rid ctx.tenantId ctx.userId with
  | some draft =>
    exact .written _ _ (fun n hp => label_of_filterOf hp) (hguarded _ (by simp [allImmutable, immutableFields]))
      (hguarded _ (by simp [allImmutable, immutableFields]))
  | none =>
    rw [hdraft] at hd
    obtain ⟨source, hsource, -⟩ := Option.map_eq_some_iff.mp hd
    simp only [hsource]
    exact .cloned _

/-- The inheritors of a SharedPropertyType: the nodes `BASED_ON` one of its versions. -/
def Graph.inheritors (g : Graph) (sharedRid tenantId : String) : List Node :=
  g.getRelatedNodes .sharedPropertyType sharedRid tenantId .basedOn .incoming

/-- Editing the SharedPropertyType changes none of its inheritors. -/
theorem inheritors_edited {g g' : Graph} (h : g.Linked) (he : Edited .sharedPropertyType g g')
    (sharedRid tenantId : String) : g'.inheritors sharedRid tenantId = g.inheritors sharedRid tenantId := by
  simp only [Graph.inheritors, Graph.getRelatedNodes]
  cases he with
  | cloned props =>
    simp only [Graph.create]
    -- No relationship joins the new node.
    have hsource : ∀ n : Node, (g.rels.filter fun r => r.type = .basedOn).flatMap (fun r =>
          (g.nodes ++ [(⟨g.nextId, .sharedPropertyType, props⟩ : Node)]).filter fun m =>
            decide (r.target = n.id ∧ r.source = m.id)) =
        (g.rels.filter fun r => r.type = .basedOn).flatMap fun r =>
          g.nodes.filter fun m => decide (r.target = n.id ∧ r.source = m.id) := by
      intro n
      refine List.flatMap_congr fun r hr => ?_
      have hlt := (h.ends r (List.mem_filter.mp hr).1).1
      rw [List.filter_append, List.filter_singleton]
      simp [Nat.ne_of_lt hlt]
    have htarget : (g.rels.filter fun r => r.type = .basedOn).flatMap (fun r =>
        g.nodes.filter fun m => decide (r.target = g.nextId ∧ r.source = m.id)) = [] := by
      refine List.flatMap_eq_nil_iff.mpr fun r hr => ?_
      have hlt := (h.ends r (List.mem_filter.mp hr).1).2
      simp [Nat.ne_of_lt hlt]
    simp only [hsource]
    rw [List.filter_append, List.flatMap_append, List.filter_singleton]
    generalize Node.keyed .sharedPropertyType sharedRid tenantId
      (⟨g.nextId, .sharedPropertyType, props⟩ : Node) = keyed
    cases keyed with
    | false => simp
    | true => simp only [cond_true, List.flatMap_cons, List.flatMap_nil, htarget, List.append_nil]
  | written p d hp hrid htenant =>
    have hid : ∀ n : Node, (if p n then n.set d else n).id = n.id := by
      intro n
      split <;> rfl
    have hkey : (Node.keyed .sharedPropertyType sharedRid tenantId ∘ fun n => if p n then n.set d else n) =
        Node.keyed .sharedPropertyType sharedRid tenantId := by
      funext n
      simp only [Function.comp_apply]
      split
      · exact Node.keyed_set hrid htenant _ _ _
      · rfl
    -- The sources are PropertyTypes, which the edit does not write to.
    have hsource : ∀ r ∈ g.rels.filter (fun r => r.type = .basedOn), ∀ i : ℕ,
        ((g.nodes.map fun n => if p n then n.set d else n).filter fun m =>
          decide (r.target = i ∧ r.source = m.id)) =
        g.nodes.filter fun m => decide (r.target = i ∧ r.source = m.id) := by
      intro r hr i
      obtain ⟨hr, ht⟩ := List.mem_filter.mp hr
      rw [List.filter_map]
      simp only [Function.comp_def, hid]
      refine Eq.trans (List.map_congr_left (g := id) fun n hn => ?_) (List.map_id _)
      obtain ⟨hn, hm⟩ := List.mem_filter.mp hn
      have hlabel := h.basedOn r hr (by simpa using ht) n hn (by simpa using (of_decide_eq_true hm).2.symm)
      rw [if_neg]
      · rfl
      · intro hpn
        have := hp n hpn
        rw [hlabel] at this
        cases this
    simp only [Graph.setWhere]
    rw [List.filter_map, List.flatMap_map, hkey]
    refine List.flatMap_congr fun n _ => ?_
    simp only [hid]
    exact List.flatMap_congr fun r hr => hsource r hr n.id

/-! ## The loop of the cascade -/

section Cascade
variable (tenantId : String) (fields : Dict) (old : Props)

/-- What the loop makes of one node: the updates of every inheritor of its rid, up to the first
inheritor whose updates cannot be stored. -/
def cascaded : List Node → Node → Node
  | [], n => n
  | m :: rest, n =>
    if (cascadeUpdates fields (some old) m).storable then
      cascaded rest (if n.keyed .propertyType m.rid tenantId then n.set (cascadeUpdates fields (some old) m)
        else n)
    else n

theorem cascadeLoop_nodes (inheritors : List Node) (w : World) :
    ((cascadeLoop tenantId fields (some old) inheritors).run exec w).2.graph.nodes =
      w.graph.nodes.map (cascaded tenantId fields old inheritors) := by
  induction inheritors generalizing w with
  | nil => exact (List.map_id _).symm
  | cons m rest ih =>
    by_cases hnil : cascadeUpdates fields (some old) m = []
    · have hstore : Dict.storable [] = true := rfl
      simp only [cascadeLoop, hnil, if_true, ih, cascaded, hstore]
      refine List.map_congr_left fun n _ => ?_
      split <;> rfl
    · cases hstore : (cascadeUpdates fields (some old) m).storable with
      | false =>
        simp only [cascadeLoop, hnil, if_false, Prog.bind_eq, Prog.run_bind,
          run_updateNode_refused _ _ _ _ _ _ hstore, cascaded, hstore, Bool.false_eq_true]
        exact (List.map_id _).symm
      | true =>
        have hrest := ih (w.onGraph fun g => g.setWhere
          (Graph.filterOf .propertyType m.rid tenantId none none none) (cascadeUpdates fields (some old) m))
        simp only [cascadeLoop, hnil, if_false, Prog.bind_eq, Prog.run_bind,
          run_updateNode _ _ _ _ _ _ hstore, cascaded, hstore, if_true]
        rw [filterOf_all] at hrest ⊢
        have hnodes : (w.onGraph fun g => g.setWhere (Node.keyed .propertyType m.rid tenantId)
            (cascadeUpdates fields (some old) m)).graph.nodes = w.graph.nodes.map fun n =>
              if n.keyed .propertyType m.rid tenantId then n.set (cascadeUpdates fields (some old) m) else n :=
          rfl
        rw [hnodes, List.map_map] at hrest
        refine Eq.trans ?_ hrest
        split <;> simp_all

/-- All updates that set a field set it to the value the caller asked for. -/
theorem lookup_cascadeUpdates {m : Node} {f : Field} {v : Value} :
    (cascadeUpdates fields (some old) m).lookup f = some v ↔
      fields.lookup f = some v ∧ m.props f = old f := by
  by_cases h : m.props f = old f
  · have hl := Dict.lookup_filter (d := fields) (q := fun g => decide (m.props g = old g)) (f := f)
      (decide_eq_true h)
    simp only [cascadeUpdates, h, and_true]
    rw [hl]
  · refine iff_of_false ?_ (fun hm => h hm.2)
    intro hl
    have hkeys : f ∉ (cascadeUpdates fields (some old) m).keys := by
      intro hk
      obtain ⟨e, he, rfl⟩ := List.mem_map.mp hk
      exact h (of_decide_eq_true (List.mem_filter.mp he).2)
    rw [Dict.lookup_eq_none.mpr hkeys] at hl
    cases hl

theorem Node.set_eq_self_iff {n : Node} {d : Dict} :
    n.set d = n ↔ ∀ f v, d.lookup f = some v → n.props f = v := by
  constructor
  · intro h f v hv
    have hf : (n.set d).props f = n.props f := by rw [h]
    rw [← hf]
    simp [Props.update, hv]
  · intro h
    have hprops : n.props.update d = n.props := by
      funext f
      cases hd : d.lookup f with
      | none => simp [Props.update, hd]
      | some v => simp [Props.update, hd, h f v hd]
    unfold Node.set
    rw [hprops]

variable {fields}

/-- A field that has the value asked for keeps it. -/
theorem cascaded_settled (inheritors : List Node) {n : Node} {f : Field} {v : Value}
    (hv : fields.lookup f = some v) (hn : n.props f = v) :
    (cascaded tenantId fields old inheritors n).props f = v := by
  induction inheritors generalizing n with
  | nil => exact hn
  | cons m rest ih =>
    simp only [cascaded]
    split
    · split
      · refine ih ?_
        cases hu : (cascadeUpdates fields (some old) m).lookup f with
        | none => simp [Props.update, hu, hn]
        | some u =>
          have hu' := ((lookup_cascadeUpdates fields old).mp hu).1
          rw [hv] at hu'
          cases hu'
          simp [Props.update, hu]
      · exact ih hn
    · exact hn

/-- The inheritors whose updates the loop makes. -/
def reached (fields : Dict) (old : Props) (inheritors : List Node) : List Node :=
  inheritors.takeWhile fun m => (cascadeUpdates fields (some old) m).storable

/-- The loop leaves a node alone exactly when the node already has every value it writes to it. -/
theorem cascaded_eq_self_iff (inheritors : List Node) (n : Node) :
    cascaded tenantId fields old inheritors n = n ↔
      ∀ m ∈ reached fields old inheritors, n.keyed .propertyType m.rid tenantId →
        ∀ f v, fields.lookup f = some v → m.props f = old f → n.props f = v := by
  induction inheritors with
  | nil => simp [cascaded, reached]
  | cons m rest ih =>
    cases hstore : (cascadeUpdates fields (some old) m).storable with
    | false => simp [cascaded, reached, hstore]
    | true =>
      have hreached : reached fields old (m :: rest) = m :: reached fields old rest := by
        simp [reached, hstore]
      simp only [cascaded, hstore, if_true, hreached, List.forall_mem_cons]
      by_cases hk : n.keyed .propertyType m.rid tenantId = true
      · simp only [hk, if_true, true_imp_iff]
        constructor
        · intro h
          have hset : ∀ f v, fields.lookup f = some v → m.props f = old f → n.props f = v := by
            intro f v hv hm
            have hu := (lookup_cascadeUpdates fields old).mpr ⟨hv, hm⟩
            rw [← h]
            exact cascaded_settled tenantId old rest hv (by simp [Props.update, hu])
          refine ⟨hset, ?_⟩
          have hself : n.set (cascadeUpdates fields (some old) m) = n := by
            refine Node.set_eq_self_iff.mpr fun f v hu => ?_
            obtain ⟨hv, hm⟩ := (lookup_cascadeUpdates fields old).mp hu
            exact hset f v hv hm
          rw [hself] at h
          exact ih.mp h
        · rintro ⟨hset, hrest⟩
          have hself : n.set (cascadeUpdates fields (some old) m) = n := by
            refine Node.set_eq_self_iff.mpr fun f v hu => ?_
            obtain ⟨hv, hm⟩ := (lookup_cascadeUpdates fields old).mp hu
            exact hset f v hv hm
          rw [hself]
          exact ih.mpr hrest
      · simp only [hk, Bool.false_eq_true, if_false, false_imp_iff, true_and]
        exact ih

/-- The loop writes to no field outside the cascade. -/
theorem cascaded_props (hfields : ∀ f ∈ fields.keys, f ∈ cascadeFields) (inheritors : List Node) (n : Node)
    {f : Field} (hf : f ∉ cascadeFields) :
    (cascaded tenantId fields old inheritors n).props f = n.props f := by
  induction inheritors generalizing n with
  | nil => rfl
  | cons m rest ih =>
    have hkeys : f ∉ (cascadeUpdates fields (some old) m).keys := by
      intro hk
      obtain ⟨e, he, rfl⟩ := List.mem_map.mp hk
      exact hf (hfields _ (List.mem_map_of_mem (List.mem_filter.mp he).1))
    simp only [cascaded]
    split
    · split
      · rw [ih, Node.set_props, Props.update_of_notMem hkeys]
      · exact ih n
    · rfl

end Cascade

theorem cascadable_keys (updates : Dict) : ∀ f ∈ (cascadable updates).keys, f ∈ cascadeFields := by
  intro f hk
  obtain ⟨e, he, rfl⟩ := List.mem_map.mp hk
  simpa using (List.mem_filter.mp he).2

theorem cascade_nodes (sharedRid tenantId : String) (updates : Dict) (old : Props) (w : World) :
    ((cascadeSharedPropertyUpdate sharedRid tenantId updates (some old)).run exec w).2.graph.nodes =
      w.graph.nodes.map
        (cascaded tenantId (cascadable updates) old (w.graph.inheritors sharedRid tenantId)) := by
  by_cases hnil : cascadable updates = []
  · simp only [cascadeSharedPropertyUpdate, hnil, if_true]
    refine Eq.symm (Eq.trans (List.map_congr_left (g := id) fun n _ => ?_) (List.map_id _))
    exact (cascaded_eq_self_iff tenantId old _ n).mpr fun m _ _ f v hv => by cases hv
  · simp only [cascadeSharedPropertyUpdate, hnil, if_false, Prog.bind_eq, Prog.run_bind,
      run_getRelatedNodes]
    exact cascadeLoop_nodes _ _ _ _ _

/-! ## Every call that does not publish -/

/-- The values of the Active SharedPropertyType, with which the cascade compares. -/
def oldValues (g : Graph) (sharedRid tenantId : String) : Props :=
  (g.getActiveNode .sharedPropertyType sharedRid tenantId).elim (fun _ => .null) fun n =>
    deserializeFromNeo4j n.props

/-- The update of a SharedPropertyType is accepted, and its cascade writes a new value to a published
version of an inheritor. -/
def CascadeRewrites (w : World) (ctx : Ctx) (sharedRid : String) (updates : Dict) : Prop :=
  EditAccepted w ctx .sharedPropertyType sharedRid updates ∧
    ∃ m ∈ reached (cascadable updates) (oldValues w.graph sharedRid ctx.tenantId)
        (w.graph.inheritors sharedRid ctx.tenantId),
      ∃ n ∈ w.graph.nodes, n.published ∧ n.keyed .propertyType m.rid ctx.tenantId ∧
        ∃ f v, (cascadable updates).lookup f = some v ∧
          m.props f = oldValues w.graph sharedRid ctx.tenantId f ∧ n.props f ≠ v

theorem cascade_published_iff {w : World} {nodes : List Node} (hnodes : nodes.filter Node.published = w.published)
    (tenantId : String) (updates : Dict) (old : Props) (inheritors : List Node) :
    (nodes.map (cascaded tenantId (cascadable updates) old inheritors)).filter Node.published =
        w.published ↔
      ∀ m ∈ reached (cascadable updates) old inheritors, ∀ n ∈ w.graph.nodes, n.published →
        n.keyed .propertyType m.rid tenantId →
          ∀ f v, (cascadable updates).lookup f = some v → m.props f = old f → n.props f = v := by
  have hflags : ∀ n : Node, (cascaded tenantId (cascadable updates) old inheritors n).published =
      n.published := by
    intro n
    have hprops := fun {f} => cascaded_props (f := f) tenantId old (cascadable_keys updates) inheritors n
    simp only [Node.published, Node.has, hprops (f := .isDraft) (by decide), hprops (f := .isStaging) (by decide)]
  have hmem : ∀ n, n ∈ nodes ∧ n.published ↔ n ∈ w.graph.nodes ∧ n.published := by
    intro n
    rw [← List.mem_filter, ← List.mem_filter, hnodes]
    rfl
  rw [← hnodes, filter_map_eq_iff nodes fun n _ => hflags n]
  constructor
  · intro h m hm n hn hp
    obtain ⟨hn', _⟩ := (hmem n).mpr ⟨hn, hp⟩
    exact (cascaded_eq_self_iff tenantId old inheritors n).mp (h n hn' hp) m hm
  · intro h n hn hp
    obtain ⟨hn', _⟩ := (hmem n).mp ⟨hn, hp⟩
    exact (cascaded_eq_self_iff tenantId old inheritors n).mpr fun m hm => h m hm n hn' hp

/-- An update of a SharedPropertyType edits it and cascades with the inheritors found before the edit. -/
theorem updateShared_nodes {w : World} (hw : w.graph.Linked) {ctx : Ctx} {rid : String} {updates : Dict}
    (hedit : EditAccepted w ctx .sharedPropertyType rid updates) :
    (after ⟨ctx, .update .sharedPropertyType rid updates⟩ w).graph.nodes =
      (editGraph w ctx .sharedPropertyType rid updates).nodes.map (cascaded ctx.tenantId (cascadable updates)
        (oldValues w.graph rid ctx.tenantId) (w.graph.inheritors rid ctx.tenantId)) := by
  have hprog : after ⟨ctx, .update .sharedPropertyType rid updates⟩ w =
      ((updateSharedPropertyType ctx rid updates).run exec w).2 := run_map _ _ _
  obtain ⟨response, hrun⟩ := updateEntity_accepted hedit
  have hcascade := cascade_nodes rid ctx.tenantId updates (oldValues w.graph rid ctx.tenantId)
    (w.onGraph fun _ => editGraph w ctx .sharedPropertyType rid updates)
  simp only [World.onGraph_graph, inheritors_edited hw (edited_editGraph hedit)] at hcascade
  rw [hprog, ← hcascade]
  simp only [updateSharedPropertyType, Prog.bind_eq, Prog.run_bind, run_getActiveNode, hrun, oldValues]
  split <;> simp_all

theorem updateShared_refused {w : World} {ctx : Ctx} {rid : String} {updates : Dict}
    (hedit : ¬ EditAccepted w ctx .sharedPropertyType rid updates) :
    after ⟨ctx, .update .sharedPropertyType rid updates⟩ w = w := by
  obtain ⟨e, hrun⟩ := updateEntity_refused hedit
  have hprog : after ⟨ctx, .update .sharedPropertyType rid updates⟩ w =
      ((updateSharedPropertyType ctx rid updates).run exec w).2 := run_map _ _ _
  rw [hprog]
  simp only [updateSharedPropertyType, Prog.bind_eq, Prog.run_bind, run_getActiveNode, hrun]

theorem updateShared_published_iff {w : World} (hw : w.graph.Linked) (ctx : Ctx) (rid : String)
    {updates : Dict} (ha : updates.AdmittedBy (updateFields .sharedPropertyType)) :
    (after ⟨ctx, .update .sharedPropertyType rid updates⟩ w).published = w.published ↔
      ¬ CascadeRewrites w ctx rid updates := by
  by_cases hedit : EditAccepted w ctx .sharedPropertyType rid updates
  · have hkept : (editGraph w ctx .sharedPropertyType rid updates).nodes.filter Node.published = w.published := by
      obtain ⟨response, hrun⟩ := updateEntity_accepted hedit
      -- The edit alone is what any call may send.
      have hp := run_published ⟨ctx, .acquireLock rid⟩ trivial trivial
        (keepsTo_updateEntity ⟨ctx, .acquireLock rid⟩ .sharedPropertyType rid fun _ => ha) w
      rw [hrun] at hp
      exact hp
    rw [World.published, updateShared_nodes hw hedit, cascade_published_iff hkept]
    constructor
    · rintro h ⟨_, m, hm, n, hn, hp, hk, f, v, hv, hold, hne⟩
      exact hne (h m hm n hn hp hk f v hv hold)
    · intro h m hm n hn hp hk f v hv hold
      by_contra hne
      exact h ⟨hedit, m, hm, n, hn, hp, hk, f, v, hv, hold, hne⟩
  · rw [updateShared_refused hedit]
    exact iff_of_true rfl fun h => hedit h.1

def Op.Publishes : Op → Prop
  | .commitStaging .. | .rollbackToSnapshot .. => True
  | _ => False

/-- The call reaches a published version with one of the two unfiltered updates. -/
def RewritesPublished (w : World) (call : Call) : Prop :=
  match call.op with
  | .update .sharedPropertyType rid updates => CascadeRewrites w call.ctx rid updates
  | .discardStaging label rid => ConvertsPublished w call.ctx label rid
  | _ => False

/-- From every state that calls can reach, in any interleaving, a call other than a commit or a
rollback leaves the published versions as they are, unless one of the two unfiltered updates reaches
one of them. -/
theorem published_unchanged_iff (es : List CallEvent) {call : Call} (ha : call.op.Admitted)
    (hp : ¬ call.op.Publishes) :
    (after call (runFrom concurrent.next noCalls es).state).published =
        (runFrom concurrent.next noCalls es).state.published ↔
      ¬ RewritesPublished (runFrom concurrent.next noCalls es).state call := by
  obtain ⟨ctx, op⟩ := call
  have hfiltered : op.Filtered → ((after ⟨ctx, op⟩ (runFrom concurrent.next noCalls es).state).published =
      (runFrom concurrent.next noCalls es).state.published) := fun hf => after_published ha hf _
  cases op with
  | update type rid updates =>
    cases type with
    | sharedPropertyType => exact updateShared_published_iff (concurrent_linked es) ctx rid ha
    | _ => exact iff_of_true (hfiltered trivial) id
  | discardStaging label rid => exact discardStaging_published_iff _ ctx label rid
  | commitStaging m => exact absurd trivial hp
  | rollbackToSnapshot id => exact absurd trivial hp
  | _ => exact iff_of_true (hfiltered trivial) id

/-- A published PropertyType inherits from a SharedPropertyType that its owner has locked. -/
def inherited : List CallEvent :=
  inTurn [⟨⟨"t", "u", "1", "a"⟩, .create .sharedPropertyType [(.apiName, .str "price"), (.displayName, .str "Price")]⟩,
    ⟨⟨"t", "u", "2", "b"⟩, .create .objectType [(.apiName, .str "Order")]⟩,
    ⟨⟨"t", "u", "3", "c"⟩, .acquireLock "ri.obj.b"⟩,
    ⟨⟨"t", "u", "4", "d"⟩, .createPropertyType "ri.obj.b" .objectType [(.apiName, .str "price"),
      (.displayName, .str "Price"), (.inheritFromSharedPropertyTypeRid, .str "ri.shprop.a")]⟩,
    ⟨⟨"t", "u", "5", "e"⟩, .submitToStaging .sharedPropertyType "ri.shprop.a"⟩,
    ⟨⟨"t", "u", "6", "f"⟩, .submitToStaging .propertyType "ri.prop.d"⟩,
    ⟨⟨"t", "u", "7", "g"⟩, .commitStaging none⟩,
    ⟨⟨"t", "u", "8", "h"⟩, .acquireLock "ri.shprop.a"⟩]

/-- The display name is changed in a Draft, and in the Active version of the inheritor. -/
def renameShared : Call :=
  ⟨⟨"t", "u", "9", "i"⟩, .update .sharedPropertyType "ri.shprop.a" [(.displayName, .str "Amount")]⟩

theorem published_unchanged_iff_inherited :
    (after renameShared (runFrom concurrent.next noCalls inherited).state).published =
        (runFrom concurrent.next noCalls inherited).state.published ↔
      ¬ RewritesPublished (runFrom concurrent.next noCalls inherited).state renameShared :=
  published_unchanged_iff inherited (by decide) (fun h => h)

theorem published_rewritten : ¬ ∀ (es : List CallEvent) (call : Call),
    (∀ earlier ∈ started es, earlier.op.Admitted) → FreshUuids (call :: started es) → call.op.Admitted →
      ¬ call.op.Publishes → (after call (runFrom concurrent.next noCalls es).state).published =
        (runFrom concurrent.next noCalls es).state.published := by
  intro h
  have h2 := congrArg (List.map fun n => n.props .displayName)
    (h inherited renameShared (by decide) (by unfold FreshUuids; decide) (by decide)
      (fun h => h))
  revert h2
  decide +kernel

end Lingshu.Ontology
