import Lingshu.Ontology.Visibility
import Mathlib.Data.List.Dedup

/-! # Discarding Staging versions

`discard_staging` deletes the Staging version beside an Active one and turns it back into a Draft where there is none;
its update then has no filter on the flags. `discard_all_staging` deletes in both cases. -/
namespace Lingshu.Ontology
open Json Interaction Interaction.Prog
set_option autoImplicit false

/-! ## One entity -/

theorem filterOf_staging {label : Label} {rid tenantId : String} :
    Graph.filterOf label rid tenantId none (some true) none = fun n => n.keyed label rid tenantId && n.staging := by
  funext n
  simp [Graph.filterOf, Node.hasOpt, Node.staging]

/-- The stores without the Staging versions of an entity. -/
def World.dropStaging (w : World) (label : Label) (rid tenantId : String) : World :=
  w.onGraph fun g => g.deleteWhere fun n => n.keyed label rid tenantId && n.staging

/-- The stores with all versions of an entity turned into Drafts. -/
def World.unstage (w : World) (ctx : Ctx) (label : Label) (rid : String) : World :=
  w.onGraph fun g => g.setWhere (Node.keyed label rid ctx.tenantId) (unstageProps ctx)

/-- `discard_staging`, alone. -/
theorem run_discardStaging (w : World) (ctx : Ctx) (label : Label) (rid : String) :
    (discardStaging ctx label rid).run exec w =
      if (w.graph.getActiveNode label rid ctx.tenantId).isSome then
        (if (w.graph.getStagingNode label rid ctx.tenantId).isSome then .ok () else .error (stagingNotFound label rid),
          w.dropStaging label rid ctx.tenantId)
      else if (w.graph.getStagingNode label rid ctx.tenantId).isSome then (.ok (), w.unstage ctx label rid)
      else (.error (stagingNotFound label rid), w) := by
  have hstore : Dict.storable (unstageProps ctx) = true := rfl
  cases hactive : w.graph.getActiveNode label rid ctx.tenantId with
  | some active =>
    have hcount : 0 < w.graph.count (fun n => n.keyed label rid ctx.tenantId && n.staging) ↔
        (w.graph.getStagingNode label rid ctx.tenantId).isSome := by
      rw [Graph.count, List.countP_pos_iff, Graph.getStagingNode, List.find?_isSome]
    simp only [discardStaging, bind_eq, run_bind, run_getActiveNode, hactive, run_deleteNode, filterOf_staging, hcount]
    cases (w.graph.getStagingNode label rid ctx.tenantId).isSome <;> rfl
  | none =>
    cases hstaging : w.graph.getStagingNode label rid ctx.tenantId with
    | none =>
      simp only [discardStaging, bind_eq, run_bind, run_getActiveNode, hactive, run_getStagingNode, hstaging, run_throw]
      rfl
    | some staging =>
      simp only [discardStaging, bind_eq, run_bind, run_getActiveNode, hactive, run_getStagingNode, hstaging,
        run_updateNode _ _ _ _ _ _ hstore, filterOf_all]
      rfl

theorem after_discardStaging (w : World) (ctx : Ctx) (label : Label) (rid : String) :
    after ⟨ctx, .discardStaging label rid⟩ w = ((discardStaging ctx label rid).run exec w).2 := run_map _ _ _

theorem deleteWhere_eq_self {g : Graph} {p : Node → Bool} (h : ∀ n ∈ g.nodes, p n = false) : g.deleteWhere p = g := by
  have hnodes : (g.nodes.filter fun n => !p n) = g.nodes := List.filter_eq_self.mpr fun n hn => by rw [h n hn]; rfl
  have hnone : g.nodes.filter p = [] := List.filter_eq_nil_iff.mpr fun n hn => by rw [h n hn]; exact Bool.false_ne_true
  rw [Graph.deleteWhere, hnodes, hnone]
  simp

/-- The ids of the Staging versions of an entity. -/
def Graph.stagedIds (g : Graph) (label : Label) (rid tenantId : String) : List ℕ :=
  (g.nodes.filter fun n => n.keyed label rid tenantId && n.staging).map Node.id

def Graph.others (g : Graph) (ids : List ℕ) : List Node := g.nodes.filter fun n => n.id ∉ ids

/-- A discard that returns leaves every node but the Staging version as it is, one that raises the graph. -/
structure TouchesStaged (w : World) (ctx : Ctx) (label : Label) (rid : String) : Prop where
  returned : ∀ u, ((discardStaging ctx label rid).run exec w).1 = .ok u →
    ((discardStaging ctx label rid).run exec w).2.graph.others (w.graph.stagedIds label rid ctx.tenantId) =
      w.graph.others (w.graph.stagedIds label rid ctx.tenantId)
  raised : ∀ e, ((discardStaging ctx label rid).run exec w).1 = .error e →
    ((discardStaging ctx label rid).run exec w).2.graph = w.graph

/-- Every other version is a Draft of the caller already, if the discard converts. -/
def SparesOthers (w : World) (ctx : Ctx) (label : Label) (rid : String) : Prop :=
  (w.graph.getActiveNode label rid ctx.tenantId).isSome ∨ w.graph.getStagingNode label rid ctx.tenantId = none ∨
    ∀ n ∈ w.graph.nodes, n.keyed label rid ctx.tenantId → n.staging ∨ n.draftOf ctx.userId

theorem others_dropStaging (w : World) (label : Label) (rid tenantId : String) :
    (w.dropStaging label rid tenantId).graph.others (w.graph.stagedIds label rid tenantId) =
      w.graph.others (w.graph.stagedIds label rid tenantId) := by
  rw [Graph.others, Graph.others]
  show ((w.graph.nodes.filter _).filter _) = _
  rw [List.filter_filter]
  refine List.filter_congr fun n hn => ?_
  by_cases hstaged : (n.keyed label rid tenantId && n.staging) = true
  · have hid : n.id ∈ w.graph.stagedIds label rid tenantId :=
      List.mem_map_of_mem (List.mem_filter.mpr ⟨hn, hstaged⟩)
    simp [hid]
  · simp [hstaged]

theorem mem_stagedIds {g : Graph} (h : (g.nodes.map Node.id).Nodup) {label : Label} {rid tenantId : String} {n : Node}
    (hn : n ∈ g.nodes) : n.id ∈ g.stagedIds label rid tenantId ↔ n.keyed label rid tenantId && n.staging := by
  constructor
  · intro hid
    obtain ⟨m, hm, hmid⟩ := List.mem_map.mp hid
    obtain ⟨hmem, hstaged⟩ := List.mem_filter.mp hm
    rwa [← List.inj_on_of_nodup_map h hmem hn hmid]
  · exact fun hstaged => List.mem_map_of_mem (List.mem_filter.mpr ⟨hn, hstaged⟩)

theorem set_unstageProps_eq_self_iff {n : Node} (ctx : Ctx) (hkind : n.draft → n.props .isStaging = .bool false) :
    n.set (unstageProps ctx) = n ↔ n.draftOf ctx.userId := by
  rw [Node.set_eq_self_iff]
  constructor
  · intro h
    have hdraft : n.props .isDraft = .bool true := h .isDraft _ rfl
    have howner : n.props .draftOwner = .str ctx.userId := h .draftOwner _ rfl
    simp [Node.draftOf, Node.draft, Node.has, hdraft, howner]
  · intro h f v hv
    obtain ⟨hdraft, howner⟩ := Bool.and_eq_true_iff.mp h
    obtain ⟨before, behind, hsplit, -⟩ := List.lookup_eq_some_iff.mp hv
    have hmem : (f, v) ∈ unstageProps ctx := hsplit ▸ List.mem_append_right before List.mem_cons_self
    obtain ⟨rfl, rfl⟩ | ⟨rfl, rfl⟩ | ⟨rfl, rfl⟩ : (f = .isStaging ∧ v = .bool false) ∨ (f = .isDraft ∧ v = .bool true) ∨
        (f = .draftOwner ∧ v = .str ctx.userId) := by simpa [unstageProps] using hmem
    · exact hkind hdraft
    · exact of_decide_eq_true hdraft
    · exact of_decide_eq_true howner

theorem map_filter_eq_filter_iff {f : Node → Node} {q : Node → Bool} (h : ∀ n, q (f n) = q n) (nodes : List Node) :
    (nodes.map f).filter q = nodes.filter q ↔ ∀ n ∈ nodes, q n → f n = n := by
  have hcomp : q ∘ f = q := funext h
  rw [List.filter_map, hcomp]
  constructor
  · intro hmap n hn hq
    exact List.map_inj_left.mp (hmap.trans (List.map_id _).symm) n (List.mem_filter.mpr ⟨hn, hq⟩)
  · intro hself
    calc (nodes.filter q).map f = (nodes.filter q).map id := List.map_congr_left fun n hn =>
          hself n (List.mem_filter.mp hn).1 (List.mem_filter.mp hn).2
      _ = nodes.filter q := List.map_id _

/-- What the update without a filter leaves as it is. -/
theorem others_unstage_iff {w : World} (hids : (w.graph.nodes.map Node.id).Nodup)
    (hkind : ∀ n ∈ w.graph.nodes, n.draft → n.props .isStaging = .bool false) (ctx : Ctx) (label : Label) (rid : String) :
    (w.unstage ctx label rid).graph.others (w.graph.stagedIds label rid ctx.tenantId) =
        w.graph.others (w.graph.stagedIds label rid ctx.tenantId) ↔
      ∀ n ∈ w.graph.nodes, n.keyed label rid ctx.tenantId → n.staging ∨ n.draftOf ctx.userId := by
  have hsame (n : Node) : (decide ((if n.keyed label rid ctx.tenantId then n.set (unstageProps ctx) else n).id ∉
      w.graph.stagedIds label rid ctx.tenantId)) = decide (n.id ∉ w.graph.stagedIds label rid ctx.tenantId) := by
    split <;> rfl
  refine (map_filter_eq_filter_iff hsame w.graph.nodes).trans (forall₂_congr fun n hn => ?_)
  rw [decide_eq_true_iff, mem_stagedIds hids hn]
  by_cases hk : n.keyed label rid ctx.tenantId = true
  · rw [if_pos hk, hk, Bool.true_and, set_unstageProps_eq_self_iff ctx (hkind n hn)]
    simp [Decidable.or_iff_not_imp_left]
  · simp [hk]

theorem Reachable.draft_isStaging {w : World} (hw : Reachable w) :
    ∀ n ∈ w.graph.nodes, n.draft → n.props .isStaging = .bool false := by
  intro n hn hd
  obtain ⟨es, ha, _, rfl⟩ := hw
  have hdraft : n.props .isDraft = .bool true := of_decide_eq_true hd
  cases ((concurrent_sound ha).nodes n hn).kind with
  | draft _ hs => exact hs
  | staging hd' | published hd' => cases hdraft.symm.trans hd'

/-- Without an Active version. -/
theorem touchesStaged_iff_others {w : World} {ctx : Ctx} {label : Label} {rid : String}
    (hactive : (w.graph.getActiveNode label rid ctx.tenantId).isSome = false)
    (hstaging : (w.graph.getStagingNode label rid ctx.tenantId).isSome = true) :
    TouchesStaged w ctx label rid ↔ (w.unstage ctx label rid).graph.others (w.graph.stagedIds label rid ctx.tenantId) =
      w.graph.others (w.graph.stagedIds label rid ctx.tenantId) := by
  have hrun := run_discardStaging w ctx label rid
  rw [hactive, hstaging, if_neg Bool.false_ne_true, if_pos rfl] at hrun
  constructor
  · intro h
    have hothers := h.returned () (by rw [hrun])
    rwa [hrun] at hothers
  · intro hothers
    refine ⟨fun _ _ => by rwa [hrun], fun e he => ?_⟩
    rw [hrun] at he
    cases he

/-- From every state that calls can reach: a discard touches the Staging version alone if and only if there is an Active
version beside it, or no Staging version, or nothing else than Drafts of the caller. -/
theorem touches_staged_iff {w : World} (hw : Reachable w) (ctx : Ctx) (label : Label) (rid : String) :
    TouchesStaged w ctx label rid ↔ SparesOthers w ctx label rid := by
  have hunstage := others_unstage_iff hw.lawful.ids hw.draft_isStaging ctx label rid
  have hrun := run_discardStaging w ctx label rid
  cases hactive : w.graph.getActiveNode label rid ctx.tenantId with
  | some active =>
    rw [hactive, Option.isSome_some, if_pos rfl] at hrun
    refine iff_of_true ⟨fun _ _ => ?_, fun e he => ?_⟩ (.inl (by rw [hactive]; rfl))
    · rw [hrun]
      exact others_dropStaging w label rid ctx.tenantId
    · rw [hrun] at he ⊢
      refine deleteWhere_eq_self fun n hn => ?_
      cases hstaging : w.graph.getStagingNode label rid ctx.tenantId with
      | none => simpa using List.find?_eq_none.mp hstaging n hn
      | some staging =>
        rw [hstaging] at he
        cases he
  | none =>
    rw [hactive, Option.isSome_none, if_neg Bool.false_ne_true] at hrun
    cases hstaging : w.graph.getStagingNode label rid ctx.tenantId with
    | none =>
      rw [hstaging, Option.isSome_none, if_neg Bool.false_ne_true] at hrun
      refine iff_of_true ⟨fun u hu => ?_, fun _ _ => by rw [hrun]⟩ (.inr (.inl hstaging))
      rw [hrun] at hu
      cases hu
    | some staging =>
      rw [touchesStaged_iff_others (by rw [hactive]; rfl) (by rw [hstaging]; rfl), hunstage, SparesOthers, hactive, hstaging]
      simp

/-- A user edits an entity that another has submitted and not published. -/
def editSubmitted : List CallEvent :=
  inTurn [⟨⟨"t", "u", "1", "a"⟩, .create .objectType [(.apiName, .str "Order")]⟩,
    ⟨⟨"t", "u", "2", "b"⟩, .submitToStaging .objectType "ri.obj.a"⟩,
    ⟨⟨"t", "v", "3", "c"⟩, .acquireLock "ri.obj.a"⟩,
    ⟨⟨"t", "v", "4", "d"⟩, .update .objectType "ri.obj.a" [(.displayName, .str "Orders")]⟩]

def submittedEdited : World := (runFrom concurrent.next noCalls editSubmitted).state

def discarder : Ctx := ⟨"t", "u", "5", "e"⟩

theorem touches_staged_iff_editSubmitted :
    TouchesStaged submittedEdited discarder .objectType "ri.obj.a" ↔
      SparesOthers submittedEdited discarder .objectType "ri.obj.a" :=
  touches_staged_iff ⟨editSubmitted, by decide, by unfold FreshUuids; decide, rfl⟩ _ _ _

/-- The Draft of the other user becomes one of the user who discards. -/
theorem discard_takes_draft :
    Reachable submittedEdited ∧ ¬TouchesStaged submittedEdited discarder .objectType "ri.obj.a" := by
  refine ⟨⟨editSubmitted, by decide, by unfold FreshUuids; decide, rfl⟩, fun h => ?_⟩
  obtain ⟨hactive, hstaging, howners⟩ :
      (submittedEdited.graph.getActiveNode .objectType "ri.obj.a" discarder.tenantId).isSome = false ∧
        (submittedEdited.graph.getStagingNode .objectType "ri.obj.a" discarder.tenantId).isSome = true ∧
        ((submittedEdited.unstage discarder .objectType "ri.obj.a").graph.others
            (submittedEdited.graph.stagedIds .objectType "ri.obj.a" discarder.tenantId)).map (fun n => n.props .draftOwner) ≠
          (submittedEdited.graph.others (submittedEdited.graph.stagedIds .objectType "ri.obj.a" discarder.tenantId)).map
            fun n => n.props .draftOwner := by decide +kernel
  rw [(touchesStaged_iff_others hactive hstaging).mp h] at howners
  exact howners rfl

/-! ## All entities -/

/-- What the entities are named by. -/
abbrev Key := Label × String

def Node.keyedIn (keys : List Key) (tenantId : String) (n : Node) : Bool :=
  keys.any fun key => n.keyed key.1 key.2 tenantId

/-- The stores without the Staging versions of several entities. -/
def World.dropEach (w : World) (keys : List Key) (tenantId : String) : World :=
  w.onGraph fun g => g.deleteWhere fun n => n.keyedIn keys tenantId && n.staging

theorem deleteWhere_deleteWhere (g : Graph) (p q : Node → Bool) :
    (g.deleteWhere p).deleteWhere q = g.deleteWhere fun n => p n || q n := by
  have hnodes : ((g.nodes.filter fun n => !p n).filter fun n => !q n) = g.nodes.filter fun n => !(p n || q n) := by
    rw [List.filter_filter]
    exact List.filter_congr fun n _ => by rw [Bool.not_or, Bool.and_comm]
  have hrels : (g.deleteWhere p).rels.filter (fun r => ((g.nodes.filter fun n => !p n).filter q).all fun n =>
      r.source ≠ n.id ∧ r.target ≠ n.id) =
      g.rels.filter fun r => (g.nodes.filter fun n => p n || q n).all fun n => r.source ≠ n.id ∧ r.target ≠ n.id := by
    rw [Graph.deleteWhere, List.filter_filter]
    refine List.filter_congr fun r _ => ?_
    rw [Bool.eq_iff_iff, Bool.and_eq_true, List.all_eq_true, List.all_eq_true, List.all_eq_true]
    constructor
    · rintro ⟨hq, hp⟩ n hn
      obtain ⟨hmem, hpq⟩ := List.mem_filter.mp hn
      cases hpn : p n with
      | true => exact hp n (List.mem_filter.mpr ⟨hmem, hpn⟩)
      | false =>
        rw [hpn, Bool.false_or] at hpq
        exact hq n (List.mem_filter.mpr ⟨List.mem_filter.mpr ⟨hmem, by rw [hpn]; rfl⟩, hpq⟩)
    · refine fun h => ⟨fun n hn => ?_, fun n hn => ?_⟩
      · obtain ⟨hmem, hq⟩ := List.mem_filter.mp hn
        exact h n (List.mem_filter.mpr ⟨(List.mem_filter.mp hmem).1, by rw [hq, Bool.or_true]⟩)
      · obtain ⟨hmem, hp⟩ := List.mem_filter.mp hn
        exact h n (List.mem_filter.mpr ⟨hmem, by rw [hp, Bool.true_or]⟩)
  simp only [Graph.deleteWhere] at hrels ⊢
  rw [hnodes, hrels]

theorem dropEach_nil (w : World) (tenantId : String) : w.dropEach [] tenantId = w := by
  have hgraph : (w.graph.deleteWhere fun n => n.keyedIn [] tenantId && n.staging) = w.graph :=
    deleteWhere_eq_self fun _ _ => rfl
  rw [World.dropEach, World.onGraph, hgraph]

theorem dropStaging_dropEach (w : World) (key : Key) (keys : List Key) (tenantId : String) :
    (w.dropStaging key.1 key.2 tenantId).dropEach keys tenantId = w.dropEach (key :: keys) tenantId := by
  have hcons (n : Node) : (n.keyed key.1 key.2 tenantId && n.staging || n.keyedIn keys tenantId && n.staging) =
      (n.keyedIn (key :: keys) tenantId && n.staging) := by
    rw [Node.keyedIn, Node.keyedIn, List.any_cons, ← Bool.and_or_distrib_right]
  simp only [World.dropStaging, World.dropEach, World.onGraph, deleteWhere_deleteWhere, hcons]

theorem dropEach_congr (w : World) {keys keys' : List Key} (tenantId : String) (h : ∀ key, key ∈ keys ↔ key ∈ keys') :
    w.dropEach keys tenantId = w.dropEach keys' tenantId := by
  have hkeyed (n : Node) : n.keyedIn keys tenantId = n.keyedIn keys' tenantId := by
    rw [Bool.eq_iff_iff, Node.keyedIn, Node.keyedIn, List.any_eq_true, List.any_eq_true]
    exact exists_congr fun key => and_congr_left fun _ => h key
  simp only [World.dropEach, hkeyed]

/-- The loop of `discard_all_staging`, alone. -/
theorem run_discardLoop (w : World) (tenantId : String) (nodes : List Node) (h : ∀ n ∈ nodes, n.rid ≠ "") :
    ((discardLoop tenantId nodes).run exec w).2 = w.dropEach (nodes.map fun n => (n.label, n.rid)) tenantId := by
  induction nodes generalizing w with
  | nil => rw [List.map_nil, dropEach_nil]; rfl
  | cons node nodes ih =>
    obtain ⟨hnode, hnodes⟩ := List.forall_mem_cons.mp h
    rw [discardLoop, if_neg hnode, List.map_cons, ← dropStaging_dropEach, ← ih _ hnodes]
    simp only [bind_eq, run_bind, run_deleteNode, filterOf_staging]
    split <;> simp_all [World.dropStaging]

/-- The entities with a Staging version. -/
def Graph.stagedKeys (g : Graph) (tenantId : String) : List Key := (g.getStagingNodes tenantId).map fun n => (n.label, n.rid)

/-- One `discard_staging` after the other. -/
def discardEach (ctx : Ctx) (w : World) (keys : List Key) : World :=
  keys.foldl (fun w key => after ⟨ctx, .discardStaging key.1 key.2⟩ w) w

/-- A node up to its owner and its timestamps. -/
def Node.content (n : Node) : Node :=
  { n with props := fun f => if f ∈ [Field.draftOwner, .createdAt, .updatedAt] then .null else n.props f }

/-- The same stores, up to owners and timestamps of nodes. -/
structure World.Alike (w w' : World) : Prop where
  nodes : w.graph.nodes.map Node.content = w'.graph.nodes.map Node.content
  rels : w.graph.rels = w'.graph.rels
  elsewhere : { w with graph := w'.graph } = w'

/-- The nodes as the discard of all Staging versions should leave them. -/
def Graph.withdrawn (g : Graph) (ctx : Ctx) : List Node :=
  g.nodes.filterMap fun n =>
    if n.ofTenant ctx.tenantId && n.staging then
      if (g.getActiveNode n.label n.rid ctx.tenantId).isSome then none else some (n.set (unstageProps ctx))
    else some n

/-- `discard_all_staging` is `discard_staging` for each entity with a Staging version, in any order: a Staging version
goes where there is an Active one and comes back as a Draft elsewhere, and nothing else changes. -/
structure DiscardsEach (w : World) (ctx : Ctx) : Prop where
  each : ∀ keys : List Key, keys.Nodup → (∀ key, key ∈ keys ↔ key ∈ w.graph.stagedKeys ctx.tenantId) →
    (after ⟨ctx, .discardAllStaging⟩ w).Alike (discardEach ctx w keys)
  nodes : (after ⟨ctx, .discardAllStaging⟩ w).graph.nodes.map Node.content = (w.graph.withdrawn ctx).map Node.content
  elsewhere : { after ⟨ctx, .discardAllStaging⟩ w with graph := w.graph } = w

theorem Reachable.rid_eq {w : World} (hw : Reachable w) {n : Node} (hn : n ∈ w.graph.nodes) :
    n.props .rid = .str n.rid ∧ n.rid ≠ "" := by
  obtain ⟨uuid, huuid⟩ := hw.lawful.rids n hn
  have hrid : n.rid = generateRid (entityRidTypes n.label) uuid := by rw [Node.rid, huuid]
  refine ⟨by rw [hrid, huuid], fun hempty => ?_⟩
  have hlength := congrArg (fun s => s.toList.length) (hrid.symm.trans hempty)
  simp [generateRid] at hlength

theorem after_discardAllStaging {w : World} (hw : Reachable w) (ctx : Ctx) :
    after ⟨ctx, .discardAllStaging⟩ w = w.dropEach (w.graph.stagedKeys ctx.tenantId) ctx.tenantId := by
  have hmap : after ⟨ctx, .discardAllStaging⟩ w = ((discardAllStaging ctx).run exec w).2 := run_map _ _ _
  rw [hmap, discardAllStaging, bind_eq, run_bind, run_getStagingNodes]
  exact run_discardLoop w ctx.tenantId _ fun n hn => (hw.rid_eq (List.mem_filter.mp hn).1).2

/-! ### Beside Active versions -/

theorem staging_false_of_active {n : Node} (h : n.active) : n.staging = false := by
  have hstaging : n.props .isStaging = .bool false := of_decide_eq_true (Bool.and_eq_true_iff.mp
    (Bool.and_eq_true_iff.mp h).1).2
  simp [Node.staging, Node.has, hstaging]

theorem getActiveNode_dropStaging (w : World) (key : Key) (label : Label) (rid tenantId : String) :
    (w.dropStaging key.1 key.2 tenantId).graph.getActiveNode label rid tenantId = w.graph.getActiveNode label rid tenantId := by
  show (List.filter _ _).find? _ = _
  rw [List.find?_filter]
  refine congrArg (fun q => w.graph.nodes.find? q) (funext fun n => ?_)
  cases hactive : n.active with
  | true => simp [staging_false_of_active hactive]
  | false => simp

theorem discardEach_active (ctx : Ctx) (keys : List Key) (w : World)
    (h : ∀ key ∈ keys, (w.graph.getActiveNode key.1 key.2 ctx.tenantId).isSome) :
    discardEach ctx w keys = w.dropEach keys ctx.tenantId := by
  induction keys generalizing w with
  | nil => rw [dropEach_nil]; rfl
  | cons key keys ih =>
    obtain ⟨hkey, hkeys⟩ := List.forall_mem_cons.mp h
    have hstep : after ⟨ctx, .discardStaging key.1 key.2⟩ w = w.dropStaging key.1 key.2 ctx.tenantId := by
      rw [after_discardStaging, run_discardStaging, if_pos hkey]
    rw [← dropStaging_dropEach, ← ih _ fun key' hkey' => by rw [getActiveNode_dropStaging]; exact hkeys key' hkey', ← hstep]
    rfl

theorem keyedIn_stagedKeys {w : World} (hw : Reachable w) (tenantId : String) {n : Node} (hn : n ∈ w.graph.nodes) :
    (n.keyedIn (w.graph.stagedKeys tenantId) tenantId && n.staging) = (n.ofTenant tenantId && n.staging) := by
  rw [Bool.eq_iff_iff, Bool.and_eq_true, Bool.and_eq_true, Node.keyedIn, List.any_eq_true]
  refine and_congr_left fun hstaging => ⟨?_, fun htenant => ⟨(n.label, n.rid), ?_, ?_⟩⟩
  · rintro ⟨key, -, hkeyed⟩
    exact (Bool.and_eq_true_iff.mp hkeyed).2
  · exact List.mem_map_of_mem (List.mem_filter.mpr ⟨hn, by rw [htenant, hstaging]; rfl⟩)
  · exact Node.keyed_iff.mpr ⟨rfl, (hw.rid_eq hn).1, of_decide_eq_true htenant⟩

theorem withdrawn_of_active {w : World} (hw : Reachable w) (ctx : Ctx)
    (h : ∀ n ∈ w.graph.getStagingNodes ctx.tenantId, (w.graph.getActiveNode n.label n.rid ctx.tenantId).isSome) :
    w.graph.withdrawn ctx = (w.dropEach (w.graph.stagedKeys ctx.tenantId) ctx.tenantId).graph.nodes := by
  show _ = w.graph.nodes.filter _
  rw [Graph.withdrawn, ← List.filterMap_eq_filter]
  refine List.filterMap_congr fun n hn => ?_
  rw [Option.guard_apply]
  beta_reduce
  rw [keyedIn_stagedKeys hw ctx.tenantId hn]
  cases hstaged : n.ofTenant ctx.tenantId && n.staging with
  | true => rw [if_pos rfl, if_pos (h n (List.mem_filter.mpr ⟨hn, hstaged⟩))]; rfl
  | false => rfl

/-! ### Without an Active version -/

/-- A node of an entity without an Active version stays through discards. -/
structure World.Holds (w : World) (key : Key) (tenantId : String) (id : ℕ) : Prop where
  node : ∃ n ∈ w.graph.nodes, n.id = id ∧ n.keyed key.1 key.2 tenantId
  inactive : ∀ n ∈ w.graph.nodes, n.keyed key.1 key.2 tenantId → n.active = false

theorem inactive_iff {w : World} {key : Key} {tenantId : String} :
    (∀ n ∈ w.graph.nodes, n.keyed key.1 key.2 tenantId → n.active = false) ↔
      w.graph.getActiveNode key.1 key.2 tenantId = none := by
  rw [Graph.getActiveNode, List.find?_eq_none]
  exact forall₂_congr fun n _ => by simp

theorem World.Holds.discard {w : World} {key : Key} {ctx : Ctx} {id : ℕ} (h : w.Holds key ctx.tenantId id) (key' : Key) :
    (after ⟨ctx, .discardStaging key'.1 key'.2⟩ w).Holds key ctx.tenantId id := by
  rw [after_discardStaging, run_discardStaging]
  obtain ⟨n, hn, hid, hkeyed⟩ := h.node
  split
  · next hactive =>
    -- only the Staging version of another entity goes
    have hother : ¬n.keyed key'.1 key'.2 ctx.tenantId := fun hkeyed' => by
      obtain ⟨hlabel, hrid, -⟩ := keyed_unique hkeyed hkeyed'
      rw [hlabel, hrid, inactive_iff.mp h.inactive] at hactive
      cases hactive
    refine ⟨⟨n, List.mem_filter.mpr ⟨hn, by simp [hother]⟩, hid, hkeyed⟩, fun m hm => ?_⟩
    exact h.inactive m (List.mem_filter.mp hm).1
  · split
    · refine ⟨⟨_, List.mem_map_of_mem hn, ?_, ?_⟩, fun m hm hmkeyed => ?_⟩
      · split <;> exact hid
      · split
        · rw [unstaged_key, hkeyed]
        · exact hkeyed
      · obtain ⟨m, hmem, rfl⟩ := List.mem_map.mp hm
        split at hmkeyed
        · rw [if_pos ‹_›, Node.active, unstaged_published, Bool.false_and]
        · rw [if_neg ‹_›]
          exact h.inactive m hmem hmkeyed
    · exact h

theorem World.Holds.discardEach {w : World} {key : Key} {ctx : Ctx} {id : ℕ} (h : w.Holds key ctx.tenantId id)
    (keys : List Key) : (discardEach ctx w keys).Holds key ctx.tenantId id := by
  induction keys generalizing w with
  | nil => exact h
  | cons key' keys ih => exact ih (h.discard key')

theorem World.Alike.ids {w w' : World} (h : w.Alike w') : w.graph.nodes.map Node.id = w'.graph.nodes.map Node.id := by
  have hids := congrArg (List.map Node.id) h.nodes
  rw [List.map_map, List.map_map] at hids
  exact hids

/-- From every state that calls can reach: discarding all is discarding each if and only if every entity with a Staging
version has an Active one. -/
theorem discards_each_iff {w : World} (hw : Reachable w) (ctx : Ctx) :
    DiscardsEach w ctx ↔ ∀ n ∈ w.graph.getStagingNodes ctx.tenantId,
      (w.graph.getActiveNode n.label n.rid ctx.tenantId).isSome := by
  constructor
  · intro h n hn
    refine Option.isSome_iff_ne_none.mpr fun hnone => ?_
    obtain ⟨hmem, hstaged⟩ := List.mem_filter.mp hn
    have hkeyed : n.keyed n.label n.rid ctx.tenantId := Node.keyed_iff.mpr
      ⟨rfl, (hw.rid_eq hmem).1, of_decide_eq_true (Bool.and_eq_true_iff.mp hstaged).1⟩
    have hholds : w.Holds (n.label, n.rid) ctx.tenantId n.id := ⟨⟨n, hmem, rfl, hkeyed⟩, inactive_iff.mpr hnone⟩
    have halike := h.each (w.graph.stagedKeys ctx.tenantId).dedup (List.nodup_dedup _) fun _ => List.mem_dedup
    obtain ⟨m, hm, hid, -⟩ := (hholds.discardEach (w.graph.stagedKeys ctx.tenantId).dedup).node
    have hkept : n.id ∈ (after ⟨ctx, .discardAllStaging⟩ w).graph.nodes.map Node.id := by
      rw [halike.ids, ← hid]
      exact List.mem_map_of_mem hm
    rw [after_discardAllStaging hw] at hkept
    obtain ⟨m, hm, hid⟩ := List.mem_map.mp hkept
    obtain ⟨hmem', hnot⟩ := List.mem_filter.mp hm
    obtain rfl := List.inj_on_of_nodup_map hw.lawful.ids hmem' hmem hid
    beta_reduce at hnot
    rw [keyedIn_stagedKeys hw ctx.tenantId hmem', hstaged] at hnot
    cases hnot
  · intro hactive
    refine ⟨fun keys _ hkeys => ?_, ?_, ?_⟩
    · have hall : ∀ key ∈ keys, (w.graph.getActiveNode key.1 key.2 ctx.tenantId).isSome := fun key hkey => by
        obtain ⟨n, hn, rfl⟩ := List.mem_map.mp ((hkeys key).mp hkey)
        exact hactive n hn
      rw [after_discardAllStaging hw, discardEach_active ctx keys w hall, dropEach_congr w ctx.tenantId hkeys]
      exact ⟨rfl, rfl, rfl⟩
    · rw [after_discardAllStaging hw, withdrawn_of_active hw ctx hactive]
    · rw [after_discardAllStaging hw]
      rfl

/-- A new entity is submitted. -/
def submittedNew : List CallEvent :=
  inTurn [⟨⟨"t", "u", "1", "a"⟩, .create .objectType [(.apiName, .str "Order")]⟩,
    ⟨⟨"t", "u", "2", "b"⟩, .submitToStaging .objectType "ri.obj.a"⟩]

theorem discards_each_iff_submittedNew :
    DiscardsEach (runFrom concurrent.next noCalls submittedNew).state discarder ↔
      ∀ n ∈ (runFrom concurrent.next noCalls submittedNew).state.graph.getStagingNodes discarder.tenantId,
        ((runFrom concurrent.next noCalls submittedNew).state.graph.getActiveNode n.label n.rid
          discarder.tenantId).isSome :=
  discards_each_iff ⟨submittedNew, by decide, by unfold FreshUuids; decide, rfl⟩ _

/-- It is gone when all Staging versions are discarded. -/
theorem discard_all_loses : Reachable (runFrom concurrent.next noCalls submittedNew).state ∧
    ¬DiscardsEach (runFrom concurrent.next noCalls submittedNew).state discarder := by
  refine ⟨⟨submittedNew, by decide, by unfold FreshUuids; decide, rfl⟩, fun h => ?_⟩
  have hcount := congrArg List.length h.nodes
  revert hcount
  decide +kernel

end Lingshu.Ontology
