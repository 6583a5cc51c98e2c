import Lingshu.Relation.Layering
import Lingshu.Workflow.Schema
import Mathlib.Data.List.Sort
import Mathlib.Data.String.Basic

/-! # The layers of a workflow

`topological_sort`. The counters of a round count the edges from nodes that are not visited yet; so the queue of
round `k` holds the nodes that settle then. -/
namespace Lingshu.Workflow
open Json Chains
set_option autoImplicit false

/-! ## Counting the edges -/

/-- `in_degree` and `adjacency`. -/
structure Counters where
  inDegree : Assoc Int
  adjacency : Assoc (List String)

/-- The body of the loop over the edges. -/
def countEdge (ids : List String) (c : Counters) (e : WorkflowEdgeSchema) : Counters where
  inDegree :=
    if e.targetNodeId ∈ ids then c.inDegree.set e.targetNodeId ((c.inDegree.lookup e.targetNodeId).getD 0 + 1)
    else c.inDegree
  adjacency := c.adjacency.set e.sourceNodeId ((c.adjacency.lookup e.sourceNodeId).getD [] ++ [e.targetNodeId])

def counters (ids : List String) (edges : List WorkflowEdgeSchema) : Counters :=
  edges.foldl (countEdge ids) ⟨ids.map fun nid => (nid, 0), []⟩

/-! ## The loop -/

/-- The body of the loop over the neighbours of a node, with `in_degree` and `next_queue`. -/
def release (st : Assoc Int × List String) (neighbour : String) : Except SortError (Assoc Int × List String) :=
  match st.1.lookup neighbour with
  | none => .error (.keyError neighbour)
  | some degree =>
    .ok (st.1.set neighbour (degree - 1), if degree - 1 = 0 then st.2 ++ [neighbour] else st.2)

def neighbours (adjacency : Assoc (List String)) (nid : String) : List String := (adjacency.lookup nid).getD []

/-- The loop over the queue. -/
def visit (adjacency : Assoc (List String)) (inDegree : Assoc Int) (queue : List String) :
    Except SortError (Assoc Int × List String) :=
  queue.foldlM (fun st nid => (neighbours adjacency nid).foldlM release st) (inDegree, [])

def sorted (queue : List String) : List String := queue.insertionSort (· ≤ ·)

/-- `while queue`: the layers and `visited_count`. -/
def loop (adjacency : Assoc (List String)) :
    ℕ → Assoc Int → List String → Except SortError (List (List String) × ℕ)
  | _, _, [] => .ok ([], 0)
  | 0, _, _ :: _ => .error .unfinished
  | fuel + 1, inDegree, nid :: queue => do
    let (inDegree, nextQueue) ← visit adjacency inDegree (nid :: queue)
    let (layers, visitedCount) ← loop adjacency fuel inDegree nextQueue
    return (sorted (nid :: queue) :: layers, (nid :: queue).length + visitedCount)

def cycleError : SortError := .app "Workflow DAG contains a cycle"

/-- `topological_sort`. -/
def topologicalSort {nodes : List WorkflowNodeSchema} (ids : NodeIds nodes) (edges : List WorkflowEdgeSchema) :
    Except SortError (List (List String)) := do
  let c := counters ids.items edges
  let queue := (c.inDegree.filter fun e => e.2 = 0).map Prod.fst
  let (layers, visitedCount) ← loop c.adjacency ids.items.length c.inDegree queue
  if visitedCount ≠ ids.items.length then throw cycleError
  return layers

/-! ## What the counters count -/

variable {ids visited : List String} {edges : List WorkflowEdgeSchema} {nid : String}

/-- The edges into a node from nodes that are not visited. -/
def waiting (edges : List WorkflowEdgeSchema) (visited : List String) (nid : String) : ℕ :=
  edges.countP fun e => e.targetNodeId = nid ∧ e.sourceNodeId ∉ visited

/-- Each known node is counted, and nothing else. -/
def Counts (ids : List String) (edges : List WorkflowEdgeSchema) (visited : List String) (inDegree : Assoc Int) :
    Prop :=
  ∀ nid, inDegree.lookup nid = if nid ∈ ids then some (waiting edges visited nid : Int) else none

theorem counters_append (e : WorkflowEdgeSchema) :
    counters ids (edges ++ [e]) = countEdge ids (counters ids edges) e := by
  rw [counters, List.foldl_append]
  rfl

theorem counters_inDegree (edges : List WorkflowEdgeSchema) : Counts ids edges [] (counters ids edges).inDegree := by
  induction edges using List.reverseRecOn with
  | nil =>
    intro nid
    by_cases hnid : nid ∈ ids
    · rw [if_pos hnid]
      exact Assoc.lookup_map_self (fun _ => (0 : Int)) hnid
    · rw [if_neg hnid]
      refine Assoc.lookup_eq_none_of_notMem fun hmem => hnid ?_
      rwa [show Assoc.keys (counters ids []).inDegree = ids from Assoc.keys_map_self ids fun _ => (0 : Int)] at hmem
  | append_singleton edges e ih =>
    intro nid
    have hwaiting : waiting (edges ++ [e]) [] nid = waiting edges [] nid + if e.targetNodeId = nid then 1 else 0 := by
      simp [waiting, List.countP_append, List.countP_singleton]
    rw [counters_append, countEdge, hwaiting]
    by_cases htarget : e.targetNodeId ∈ ids
    · rw [if_pos htarget, Assoc.lookup_set, ih, ih, if_pos htarget]
      by_cases heq : nid = e.targetNodeId
      · subst heq
        simp [htarget]
      · simp [heq, Ne.symm heq]
    · rw [if_neg htarget, ih]
      by_cases hnid : nid ∈ ids
      · have hne : e.targetNodeId ≠ nid := fun heq => htarget (heq ▸ hnid)
        simp [hnid, hne]
      · simp [hnid]

theorem neighbours_counters (edges : List WorkflowEdgeSchema) (nid : String) :
    neighbours (counters ids edges).adjacency nid =
      (edges.filter fun e => e.sourceNodeId = nid).map WorkflowEdgeSchema.targetNodeId := by
  induction edges using List.reverseRecOn with
  | nil => rfl
  | append_singleton edges e ih =>
    rw [counters_append, countEdge, neighbours, Assoc.lookup_set, List.filter_append, List.map_append, ← ih]
    by_cases heq : nid = e.sourceNodeId
    · subst heq
      simp [neighbours]
    · simp [heq, Ne.symm heq, neighbours]

/-! ## One round -/

/-- The targets of the edges from the nodes of the queue, in the order of the loops. -/
def released (edges : List WorkflowEdgeSchema) (queue : List String) : List String :=
  queue.flatMap fun nid => (edges.filter fun e => e.sourceNodeId = nid).map WorkflowEdgeSchema.targetNodeId

theorem visit_counters (inDegree : Assoc Int) (queue : List String) :
    visit (counters ids edges).adjacency inDegree queue = (released edges queue).foldlM release (inDegree, []) := by
  have hfrom : ∀ st, queue.foldlM (fun st nid => (neighbours (counters ids edges).adjacency nid).foldlM release st) st =
      (released edges queue).foldlM release st := by
    induction queue with
    | nil => intro st; rfl
    | cons nid queue ih =>
      intro st
      have hsplit : released edges (nid :: queue) =
          neighbours (counters ids edges).adjacency nid ++ released edges queue := by
        rw [neighbours_counters]
        rfl
      rw [hsplit, List.foldlM_append, List.foldlM_cons]
      exact congrArg _ (funext ih)
  exact hfrom _

theorem mem_released {queue : List String} {b : String} : b ∈ released edges queue ↔ ∃ a ∈ queue, Leads edges a b := by
  simp only [released, List.mem_flatMap, List.mem_map, List.mem_filter, decide_eq_true_eq, Leads, and_assoc]

/-- Visiting the queue takes its edges out of the count. -/
theorem count_released (queue : List String) (hnodup : queue.Nodup) (hnew : ∀ a ∈ queue, a ∉ visited) :
    (released edges queue).count nid + waiting edges (visited ++ queue) nid = waiting edges visited nid := by
  induction queue generalizing visited with
  | nil => simp [released]
  | cons a queue ih =>
    have hone : ((edges.filter fun e => e.sourceNodeId = a).map WorkflowEdgeSchema.targetNodeId).count nid +
        waiting edges (visited ++ [a]) nid = waiting edges visited nid := by
      have ha := hnew a List.mem_cons_self
      clear ih
      unfold waiting
      induction edges with
      | nil => rfl
      | cons e edges ih =>
        simp only [List.countP_cons, List.filter_cons, List.mem_append, List.mem_singleton, decide_eq_true_eq] at ih ⊢
        by_cases hsource : e.sourceNodeId = a
        · by_cases htarget : e.targetNodeId = nid <;> simp [hsource, htarget, ha] at ih ⊢ <;> omega
        · by_cases htarget : e.targetNodeId = nid <;> simp [hsource, htarget] at ih ⊢ <;> omega
    obtain ⟨hfirst, hnodup⟩ := List.nodup_cons.mp hnodup
    have hrest : (released edges queue).count nid + waiting edges (visited ++ [a] ++ queue) nid =
        waiting edges (visited ++ [a]) nid := ih hnodup fun b hb hmem => by
      obtain hmem | hmem := List.mem_append.mp hmem
      · exact hnew b (List.mem_cons_of_mem _ hb) hmem
      · exact hfirst (List.mem_singleton.mp hmem ▸ hb)
    have hsplit : released edges (a :: queue) =
        (edges.filter fun e => e.sourceNodeId = a).map WorkflowEdgeSchema.targetNodeId ++ released edges queue := rfl
    have hvisited : visited ++ a :: queue = visited ++ [a] ++ queue := by simp
    rw [hsplit, List.count_append, hvisited]
    omega

/-! ### Releasing targets -/

theorem release_of_lookup {inDegree : Assoc Int} {t : String} {degree : ℕ} (nextQueue : List String)
    (h : inDegree.lookup t = some (degree : Int)) : release (inDegree, nextQueue) t =
      .ok (inDegree.set t ((degree : Int) - 1), nextQueue ++ if degree = 1 then [t] else []) := by
  simp only [release, h]
  by_cases hone : degree = 1
  · simp [hone]
  · have hzero : (degree : Int) - 1 ≠ 0 := by omega
    simp [hone, hzero]

/-- The counters after one target has been released. -/
def lowered (c : String → ℕ) (t nid : String) : ℕ := if nid = t then c t - 1 else c nid

section Lowered
variable {c : String → ℕ} {t : String} {targets : List String}

@[simp] theorem lowered_self : lowered c t t = c t - 1 := if_pos rfl

@[simp] theorem lowered_of_ne {nid : String} (h : nid ≠ t) : lowered c t nid = c nid := if_neg h

theorem lookup_lowered {inDegree : Assoc Int}
    (hcounts : ∀ nid, inDegree.lookup nid = if nid ∈ ids then some (c nid : Int) else none) (ht : t ∈ ids)
    (hpos : 0 < c t) (nid : String) : (inDegree.set t ((c t : Int) - 1)).lookup nid =
      if nid ∈ ids then some (lowered c t nid : Int) else none := by
  rw [Assoc.lookup_set, hcounts]
  by_cases hnid : nid = t
  · subst hnid
    simp only [if_true, ht, lowered_self]
    congr 1
    omega
  · simp [hnid]

theorem count_le_lowered (henough : ∀ nid, (t :: targets).count nid ≤ c nid) (nid : String) :
    targets.count nid ≤ lowered c t nid := by
  have hnid := henough nid
  by_cases heq : nid = t
  · subst heq
    rw [List.count_cons_self] at hnid
    rw [lowered_self]
    omega
  · rw [List.count_cons_of_ne (Ne.symm heq)] at hnid
    rwa [lowered_of_ne heq]

theorem lowered_sub_count (nid : String) :
    lowered c t nid - targets.count nid = c nid - (t :: targets).count nid := by
  by_cases heq : nid = t
  · subst heq
    rw [lowered_self, List.count_cons_self]
    omega
  · rw [lowered_of_ne heq, List.count_cons_of_ne (Ne.symm heq)]

/-- A node is free after all targets if it is after the first, or after the others. -/
theorem free_iff (hpos : targets.count t + 1 ≤ c t) (nid : String) :
    (nid ∈ (if c t = 1 then [t] else []) ∨ nid ∈ targets ∧ targets.count nid = lowered c t nid) ↔
      nid ∈ t :: targets ∧ (t :: targets).count nid = c nid := by
  by_cases heq : nid = t
  · subst heq
    have hzero : nid ∈ targets ↔ 0 < targets.count nid := List.count_pos_iff.symm
    simp only [lowered_self, List.mem_cons_self, true_and, List.count_cons_self, hzero]
    by_cases hone : c nid = 1
    · simp only [if_pos hone, List.mem_singleton, true_or, true_iff]
      omega
    · simp only [if_neg hone, List.not_mem_nil, false_or]
      omega
  · have hfirst : nid ∉ if c t = 1 then [t] else [] := by split <;> simp [heq]
    simp [hfirst, heq, List.count_cons_of_ne (Ne.symm heq)]

end Lowered

/-- The counters before and after releasing some targets; `c` is the count of each node. -/
theorem foldlM_release (targets : List String) {inDegree : Assoc Int} {c : String → ℕ} (nextQueue : List String)
    (hcounts : ∀ nid, inDegree.lookup nid = if nid ∈ ids then some (c nid : Int) else none)
    (hknown : ∀ t ∈ targets, t ∈ ids) (henough : ∀ t, targets.count t ≤ c t) :
    ∃ inDegree' more, targets.foldlM release (inDegree, nextQueue) = .ok (inDegree', nextQueue ++ more) ∧
      (∀ nid, inDegree'.lookup nid = if nid ∈ ids then some ((c nid - targets.count nid : ℕ) : Int) else none) ∧
      more.Nodup ∧ ∀ nid, nid ∈ more ↔ nid ∈ targets ∧ targets.count nid = c nid := by
  induction targets generalizing inDegree c nextQueue with
  | nil => exact ⟨inDegree, [], by simp; rfl, by simpa using hcounts, List.nodup_nil, by simp⟩
  | cons t targets ih =>
    have ht : t ∈ ids := hknown t List.mem_cons_self
    have hpos : targets.count t + 1 ≤ c t := by simpa using henough t
    have hlookup : inDegree.lookup t = some (c t : Int) := by rw [hcounts, if_pos ht]
    have hstep := release_of_lookup nextQueue hlookup
    obtain ⟨inDegree', more, hrun, hlookup', hnodup, hmem⟩ :=
      ih (nextQueue ++ if c t = 1 then [t] else []) (lookup_lowered hcounts ht (by omega))
        (fun s hs => hknown s (List.mem_cons_of_mem _ hs)) (count_le_lowered henough)
    refine ⟨inDegree', (if c t = 1 then [t] else []) ++ more, ?_, fun nid => ?_, ?_, fun nid => ?_⟩
    · rw [List.foldlM_cons, hstep, ← List.append_assoc]
      exact hrun
    · rw [hlookup', lowered_sub_count]
    · by_cases hone : c t = 1
      · rw [if_pos hone]
        refine List.nodup_cons.mpr ⟨fun hmore => ?_, hnodup⟩
        have hin := List.count_pos_iff.mpr ((hmem t).mp hmore).1
        omega
      · rw [if_neg hone]
        exact hnodup
    · rw [List.mem_append, hmem]
      exact free_iff hpos nid

/-- An unknown target raises. -/
theorem foldlM_release_unknown (targets : List String) {inDegree : Assoc Int} (nextQueue : List String)
    (hcounts : ∀ nid, nid ∉ ids → inDegree.lookup nid = none) {t : String} (ht : t ∈ targets) (hunknown : t ∉ ids) :
    ∃ key, targets.foldlM release (inDegree, nextQueue) = .error (.keyError key) := by
  induction targets generalizing inDegree nextQueue with
  | nil => cases ht
  | cons s targets ih =>
    cases hs : inDegree.lookup s with
    | none =>
      refine ⟨s, ?_⟩
      rw [List.foldlM_cons, release, hs]
      rfl
    | some degree =>
      have hsknown : s ∈ ids := by
        by_contra hnew
        rw [hcounts s hnew] at hs
        cases hs
      have htail : t ∈ targets := by
        obtain rfl | htail := List.mem_cons.mp ht
        · exact absurd hsknown hunknown
        · exact htail
      rw [List.foldlM_cons, release, hs]
      refine ih _ (fun nid hnid => ?_) htail
      have hne : nid ≠ s := fun heq => hnid (heq ▸ hsknown)
      rw [Assoc.lookup_set, if_neg hne]
      exact hcounts nid hnid

end Lingshu.Workflow
