import Lingshu.Ontology.Lifecycle

/-! # The flag table

`is_draft`, `is_staging`, `draft_owner` and `snapshot_id` are written by ten queries, each of which sets
some of them. Whatever the interleaving, every node stays in one row of the table: a Draft with an owner, a
Staging version without one, or a published version with the id of a snapshot of its tenant. -/
namespace Lingshu.Ontology
open Json Interaction
set_option autoImplicit false

/-- A commit of the tenant of `n` has minted the stamp of `n`. -/
def Node.MintedByCommit (calls : List Call) (n : Node) : Prop :=
  ∃ call ∈ calls, (∃ m, call.op = .commitStaging m) ∧ n.props .tenantId = .str call.ctx.tenantId ∧
    n.props .snapshotId = .str call.ctx.snapshotId

structure Node.WellFlagged (calls : List Call) (n : Node) : Prop where
  exclusive : ¬ (n.draft ∧ n.staging)
  owned : n.props .draftOwner ≠ .null ↔ n.draft
  minted : n.published → n.MintedByCommit calls

namespace Node.WellFlagged
variable {calls : List Call} {n m : Node}

theorem of_draft (hd : n.props .isDraft = .bool true) (hs : n.props .isStaging = .bool false)
    (ho : n.props .draftOwner ≠ .null) : n.WellFlagged calls where
  exclusive := by simp [Node.staging, Node.has, hs]
  owned := by simp [Node.draft, Node.has, hd, ho]
  minted := by simp [Node.published, Node.has, hd]

theorem of_staging (hd : n.props .isDraft = .bool false) (hs : n.props .isStaging = .bool true)
    (ho : n.props .draftOwner = .null) : n.WellFlagged calls where
  exclusive := by simp [Node.draft, Node.has, hd]
  owned := by simp [Node.draft, Node.has, hd, ho]
  minted := by simp [Node.published, Node.has, hs]

/-- A node that agrees with a well-flagged one on the flags, the owner, the tenant and the stamp. -/
theorem congr (h : n.WellFlagged calls)
    (hf : ∀ f ∈ [Field.isDraft, .isStaging, .draftOwner, .tenantId, .snapshotId], m.props f = n.props f) :
    m.WellFlagged calls := by
  have hdraft : m.draft = n.draft := by rw [Node.draft, Node.has, hf .isDraft (by decide)]; rfl
  have hstaging : m.staging = n.staging := by rw [Node.staging, Node.has, hf .isStaging (by decide)]; rfl
  have hpublished : m.published = n.published := by
    simp only [Node.published, Node.has, hf .isDraft (by decide), hf .isStaging (by decide)]
  refine ⟨by rw [hdraft, hstaging]; exact h.exclusive, ?_, fun hp => ?_⟩
  · rw [hf .draftOwner (by decide), hdraft]
    exact h.owned
  · rw [hpublished] at hp
    obtain ⟨call, hcall, hop, htenant, hstamp⟩ := h.minted hp
    refine ⟨call, hcall, hop, ?_, ?_⟩
    · rw [hf .tenantId (by decide), htenant]
    · rw [hf .snapshotId (by decide), hstamp]

/-- Writing none of these fields. -/
theorem set (h : n.WellFlagged calls) {d : Dict}
    (hd : ∀ f ∈ [Field.isDraft, .isStaging, .draftOwner, .tenantId, .snapshotId], f ∉ d.keys) :
    (n.set d).WellFlagged calls :=
  h.congr fun f hf => Props.update_of_notMem (hd f hf)

/-- Promotion: the stamp is of the tenant, and the node keeps not being a Draft. -/
theorem promote (h : n.WellFlagged calls) {ctx : Ctx} {m : Option String}
    (hcall : (⟨ctx, .commitStaging m⟩ : Call) ∈ calls) (ht : n.ofTenant ctx.tenantId) :
    (n.set [(.isStaging, .bool false), (.snapshotId, .str ctx.snapshotId)]).WellFlagged calls where
  exclusive := by simp [Node.staging, Node.has, Props.update_cons]
  owned := h.owned
  minted := by
    intro _
    have htenant : n.props .tenantId = .str ctx.tenantId := of_decide_eq_true ht
    exact ⟨_, hcall, ⟨m, rfl⟩, htenant, rfl⟩

end Node.WellFlagged

theorem lookup_newNode_owner {call : Call} {label : Label} {d : Dict} (h : call.newNode = some (label, d)) :
    d.lookup .draftOwner = some (.str call.ctx.userId) := by
  have hserialized : ∀ props own : Dict, own.lookup .draftOwner = some (.str call.ctx.userId) →
      (serializeForNeo4j (Dict.update props own)).lookup .draftOwner = some (.str call.ctx.userId) := by
    intro props own hown
    rw [serializeForNeo4j_lookup (by decide), Dict.lookup_update_of_some hown]
  unfold Call.newNode at h
  split at h
  · cases h
    exact hserialized _ _ rfl
  · cases h
    exact hserialized _ _ rfl
  · cases h

/-- Every command of an admitted call keeps the nodes well flagged. -/
theorem keeps_wellFlagged {calls : List Call} {call : Call} (hcall : call ∈ calls) (ha : call.op.Admitted)
    {c : Cmd} (g : Graph) (h : Issues (Node.WellFlagged calls) call c) :
    (c.effect g).Keeps (Node.WellFlagged calls) := by
  have hplain : ∀ {p : Node → Bool} {d : Dict}, (∀ f ∈ versionFields, f ∉ d.keys) →
      (Effect.set p d).Keeps (Node.WellFlagged calls) := by
    intro p d hd n hn _
    refine hn.set fun f hf => hd f ?_
    revert hf f
    decide
  have hactive : ∀ {p : Node → Bool} {b : Bool},
      (Effect.set p [(.isActive, .bool b)]).Keeps (Node.WellFlagged calls) := by
    intro p b n hn _
    exact hn.set (by simp [Dict.keys])
  cases h with
  | new hnew =>
    refine effect_createNode ?_ trivial
    obtain ⟨_, _, hdraft, hstaging, _⟩ := lookup_newNode hnew
    have howner := lookup_newNode_owner hnew
    exact .of_draft (by simp [Props.update, hdraft]) (by simp [Props.update, hstaging])
      (by simp [Props.update, howner])
  | clone good key guarded marks =>
    refine effect_createNode ?_ trivial
    obtain ⟨hdraft, hstaging, howner, _⟩ := marks ha
    exact .of_draft (by simp [Props.update, hdraft]) (by simp [Props.update, hstaging])
      (by simp [Props.update, howner])
  | edit guarded plain => exact effect_updateNode (hplain (plain ha)) trivial
  | cascade content => exact effect_updateNode (hplain (cascade_plain content)) trivial
  | submit => exact fun n _ _ => .of_staging rfl rfl rfl
  | unstage => exact fun n _ _ => .of_draft rfl rfl (by simp [Node.set, Props.update_cons, unstageProps])
  | deactivateStaged | deactivateSnapshot | reactivateSnapshot => exact hactive
  | promoteStaged => exact fun n hn hp => hn.promote hcall (Bool.and_eq_true_iff.mp hp).1
  | dropDraft | dropStaging | belongsTo | basedOn | cleanupDeleted | publish | repoint => trivial
  | quiet hq => cases c <;> trivial

/-- All along an interleaving every node is well flagged. -/
theorem nodes_wellFlagged {es : List CallEvent} (ha : ∀ call ∈ started es, call.op.Admitted) :
    ∀ n ∈ (runFrom concurrent.next noCalls es).state.graph.nodes, n.WellFlagged (started es) :=
  concurrent_nodes fun call hcall _ g hc => keeps_wellFlagged hcall (ha call hcall) g hc

/-- An entity with a published version, a Staging version and a Draft. -/
def threeVersions : List CallEvent :=
  inTurn [⟨⟨"t", "u", "1", "a"⟩, .create .objectType [(.apiName, .str "Order")]⟩,
    ⟨⟨"t", "u", "2", "b"⟩, .submitToStaging .objectType "ri.obj.a"⟩,
    ⟨⟨"t", "u", "3", "c"⟩, .commitStaging none⟩,
    ⟨⟨"t", "u", "4", "d"⟩, .acquireLock "ri.obj.a"⟩,
    ⟨⟨"t", "u", "5", "e"⟩, .update .objectType "ri.obj.a" [(.displayName, .str "Orders")]⟩,
    ⟨⟨"t", "u", "6", "f"⟩, .submitToStaging .objectType "ri.obj.a"⟩,
    ⟨⟨"t", "v", "7", "g"⟩, .acquireLock "ri.obj.a"⟩,
    ⟨⟨"t", "v", "8", "h"⟩, .update .objectType "ri.obj.a" [(.description, .str "All orders")]⟩]

theorem nodes_wellFlagged_threeVersions :
    (runFrom concurrent.next noCalls threeVersions).state.graph.nodes.length = 3 ∧
      ∀ n ∈ (runFrom concurrent.next noCalls threeVersions).state.graph.nodes,
        n.WellFlagged (started threeVersions) :=
  ⟨by decide +kernel, nodes_wellFlagged (by decide +kernel)⟩

end Lingshu.Ontology
