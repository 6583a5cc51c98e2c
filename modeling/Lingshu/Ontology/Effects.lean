import Lingshu.Ontology.Store

/-! # What commands do to the nodes

Every command keeps the nodes, adds one, updates or drops those that match. A property of all nodes,
a count and a sublist of the nodes are followed through a command by its effect alone. -/
namespace Lingshu.Ontology
open Json Interaction
set_option autoImplicit false

inductive Effect where
  | keep
  | add (n : Node)
  | set (p : Node → Bool) (d : Dict)
  | drop (p : Node → Bool)

namespace Effect

def on : Effect → List Node → List Node
  | .keep, nodes => nodes
  | .add n, nodes => nodes ++ [n]
  | .set p d, nodes => nodes.map fun n => if p n then n.set d else n
  | .drop p, nodes => nodes.filter fun n => !p n

/-- The effect turns nodes in `G` into nodes in `G`. -/
def Keeps (G : Node → Prop) : Effect → Prop
  | .add n => G n
  | .set p d => ∀ n, G n → p n → G (n.set d)
  | _ => True

/-- The effect puts no node into `q`. -/
def Shrinks (q : Node → Bool) : Effect → Prop
  | .add n => q n = false
  | .set p d => ∀ n, p n → q (n.set d) → q n
  | _ => True

/-- The effect neither changes a node in `q` nor moves one in or out. -/
def Spares (q : Node → Bool) : Effect → Prop
  | .keep => True
  | .add n => q n = false
  | .set p d => ∀ n, p n → q n = false ∧ q (n.set d) = false
  | .drop p => ∀ n, p n → q n = false

variable {G : Node → Prop} {q : Node → Bool} {e : Effect} {nodes : List Node}

theorem Keeps.mem (h : e.Keeps G) (hG : ∀ n ∈ nodes, G n) : ∀ n ∈ e.on nodes, G n := by
  cases e with
  | keep => exact hG
  | add n =>
    intro m hm
    rcases List.mem_append.mp hm with hm | hm
    · exact hG m hm
    · rw [List.mem_singleton.mp hm]
      exact h
  | set p d =>
    intro m hm
    obtain ⟨n, hn, rfl⟩ := List.mem_map.mp hm
    split
    · rename_i hp
      exact h n (hG n hn) hp
    · exact hG n hn
  | drop p =>
    intro m hm
    exact hG m (List.mem_filter.mp hm).1

theorem Shrinks.countP_le (h : e.Shrinks q) : (e.on nodes).countP q ≤ nodes.countP q := by
  cases e with
  | keep => exact Nat.le_refl _
  | add n =>
    have hn : q n = false := h
    simp [on, List.countP_append, hn]
  | set p d =>
    rw [on, List.countP_map]
    refine List.countP_mono_left fun n _ hq => ?_
    simp only [Function.comp_apply] at hq
    split at hq
    · rename_i hp
      exact h n hp hq
    · exact hq
  | drop p =>
    rw [on, List.countP_filter]
    refine List.countP_mono_left fun n _ hq => ?_
    exact (Bool.and_eq_true_iff.mp hq).1

theorem Spares.filter_eq (h : e.Spares q) : (e.on nodes).filter q = nodes.filter q := by
  cases e with
  | keep => rfl
  | add n =>
    have hn : q n = false := h
    simp [on, hn]
  | set p d =>
    simp only [on]
    induction nodes with
    | nil => rfl
    | cons n nodes ih =>
      rw [List.map_cons, List.filter_cons, List.filter_cons, ih]
      by_cases hp : p n = true
      · obtain ⟨h1, h2⟩ := h n hp
        simp [hp, h1, h2]
      · simp [hp]
  | drop p =>
    rw [on, List.filter_filter]
    refine List.filter_congr fun n _ => ?_
    by_cases hp : p n = true
    · simp [h n hp]
    · simp [hp]

end Effect

/-! ## The effects of the commands -/

def Cmd.effect (g : Graph) : Cmd → Effect
  | .createNode label base d =>
    if d.storable then .add ⟨g.nextId, label, base.update d⟩ else .keep
  | .updateNode label rid tenantId d isDraft draftOwner =>
    if d.storable then .set (Graph.filterOf label rid tenantId isDraft none draftOwner) d else .keep
  | .deleteNode label rid tenantId isDraft isStaging draftOwner =>
    .drop (Graph.filterOf label rid tenantId isDraft isStaging draftOwner)
  | .deactivateStaged tenantId => .set (g.replacedBy tenantId) [(.isActive, .bool false)]
  | .promoteStaged tenantId snapshotId =>
    .set (fun n => n.ofTenant tenantId && n.staging)
      [(.isStaging, .bool false), (.snapshotId, .str snapshotId)]
  | .cleanupDeleted tenantId snapshotId =>
    .drop fun n => n.ofTenant tenantId && n.stamped snapshotId && n.has .isActive (.bool false)
  | .deactivateSnapshot tenantId currentSnapshotId =>
    .set (fun n => n.ofTenant tenantId && n.stamped currentSnapshotId && n.has .isActive (.bool true))
      [(.isActive, .bool false)]
  | .reactivateSnapshot tenantId targetSnapshotId =>
    .set (fun n => n.ofTenant tenantId && n.stamped targetSnapshotId) [(.isActive, .bool true)]
  | _ => .keep

section Storable
variable {M : Effect → Prop} {g : Graph} {label : Label} {d : Dict}

/-- Where the node can not be stored nothing happens. -/
theorem effect_createNode {base : Props} (hadd : M (.add ⟨g.nextId, label, base.update d⟩)) (hkeep : M .keep) :
    M ((Cmd.createNode label base d).effect g) := by
  simp only [Cmd.effect]
  split
  · exact hadd
  · exact hkeep

theorem effect_updateNode {rid tenantId : String} {isDraft : Option Bool} {draftOwner : Option String}
    (hset : M (.set (Graph.filterOf label rid tenantId isDraft none draftOwner) d)) (hkeep : M .keep) :
    M ((Cmd.updateNode label rid tenantId d isDraft draftOwner).effect g) := by
  simp only [Cmd.effect]
  split
  · exact hset
  · exact hkeep

end Storable

/-- The commands that write neither to the graph nor, finally, to PostgreSQL. -/
def Cmd.quiet : Cmd → Bool
  | .createNode .. | .updateNode .. | .deleteNode .. | .createRelationship .. | .deactivateStaged ..
  | .promoteStaged .. | .cleanupDeleted .. | .deactivateSnapshot .. | .reactivateSnapshot ..
  | .pgCommit .. => false
  | _ => true

theorem exec_quiet {c : Cmd} (h : c.quiet = true) (w : World) :
    (exec c w).2.graph = w.graph ∧ (exec c w).2.snapshots = w.snapshots ∧
      (exec c w).2.pointers = w.pointers := by
  cases c with
  | redisSetNx key value => simp only [exec]; split <;> exact ⟨rfl, rfl, rfl⟩
  | pgFlush row => simp only [exec]; split <;> exact ⟨rfl, rfl, rfl⟩
  | createNode | updateNode | deleteNode | createRelationship | deactivateStaged | promoteStaged
  | cleanupDeleted | deactivateSnapshot | reactivateSnapshot | pgCommit => cases h
  | _ => exact ⟨rfl, rfl, rfl⟩

@[simp] theorem PgWrite.apply_graph (w : World) (r : PgWrite) : (r.apply w).graph = w.graph := by
  cases r <;> rfl

theorem foldl_apply_graph (rows : List PgWrite) (w : World) :
    (rows.foldl PgWrite.apply w).graph = w.graph := by
  induction rows generalizing w with
  | nil => rfl
  | cons r rows ih => rw [List.foldl_cons, ih, PgWrite.apply_graph]

/-- A command changes the nodes by its effect. -/
theorem exec_nodes (c : Cmd) (w : World) :
    (exec c w).2.graph.nodes = (c.effect w.graph).on w.graph.nodes := by
  cases c with
  | createNode label base d => simp only [exec, Cmd.effect]; split <;> rfl
  | updateNode label rid tenantId d isDraft draftOwner => simp only [exec, Cmd.effect]; split <;> rfl
  | pgCommit rows =>
    simp only [exec, Cmd.effect]
    split
    · rfl
    · rw [foldl_apply_graph]
      rfl
  | deleteNode | createRelationship | deactivateStaged | promoteStaged | cleanupDeleted
  | deactivateSnapshot | reactivateSnapshot => rfl
  | _ => rw [(exec_quiet rfl w).1]; rfl

end Lingshu.Ontology
