import Lingshu.Workflow.Layers

/-! # The layout of a workflow

`computeLayout` of the DAG viewer, over the nodes and edges that `topological_sort` has in the back end. An unknown
target has a place in the layers too, but no edges out. -/
namespace Lingshu.Frontend
open Json Chains Workflow
set_option autoImplicit false

/-! ## The layers -/

/-- `adj` and `inDeg`. -/
structure Degrees where
  adj : Assoc (List String)
  inDeg : Assoc Int

def addNode (g : Degrees) (n : WorkflowNodeSchema) : Degrees where
  adj := g.adj.set n.nodeId []
  inDeg := g.inDeg.set n.nodeId 0

def addEdge (g : Degrees) (e : WorkflowEdgeSchema) : Degrees where
  adj :=
    match g.adj.lookup e.sourceNodeId with
    | some targets => g.adj.set e.sourceNodeId (targets ++ [e.targetNodeId])
    | none => g.adj
  inDeg := g.inDeg.set e.targetNodeId ((g.inDeg.lookup e.targetNodeId).getD 0 + 1)

def degrees (nodes : List WorkflowNodeSchema) (edges : List WorkflowEdgeSchema) : Degrees :=
  edges.foldl addEdge (nodes.foldl addNode ⟨[], []⟩)

/-- The body of the loop over the targets of a node, with `inDeg` and `next`. -/
def reach (visited : List String) (st : Assoc Int × List String) (tgt : String) : Assoc Int × List String :=
  let d := (st.1.lookup tgt).getD 1 - 1
  (st.1.set tgt d, if d = 0 ∧ tgt ∉ visited then st.2 ++ [tgt] else st.2)

/-- `visited.add(id)`. -/
def addVisited (visited : List String) (id : String) : List String :=
  if id ∈ visited then visited else visited ++ [id]

/-- The body of the loop over the queue. -/
def enter (adj : Assoc (List String)) (st : List String × Assoc Int × List String) (id : String) :
    List String × Assoc Int × List String :=
  let visited := addVisited st.1 id
  (visited, ((adj.lookup id).getD []).foldl (reach visited) st.2)

/-- `while (queue.length > 0)`: the layers, and what is visited. Nothing comes of a loop that is still running after
`fuel` rounds. -/
def layersFrom (adj : Assoc (List String)) :
    ℕ → List String → Assoc Int → List String → Option (List (List String) × List String)
  | _, visited, _, [] => some ([], visited)
  | 0, _, _, _ :: _ => none
  | fuel + 1, visited, inDeg, id :: queue =>
    let (visited, inDeg, next) := (id :: queue).foldl (enter adj) (visited, inDeg, [])
    (layersFrom adj fuel visited inDeg next).map fun rest => ((id :: queue) :: rest.1, rest.2)

/-! ## The positions -/

def nodeW : ℕ := 180
def layerGapY : ℕ := 120
def nodeGapX : ℕ := 220
def padding : ℕ := 40

structure LayoutNode where
  node : WorkflowNodeSchema
  x : ℕ
  y : ℕ
  layer : ℕ
  deriving DecidableEq

/-- The loops over the layers; an id without a node is left out. Both values of the conditional in `startX` are 0. -/
def place (nodeMap : Assoc WorkflowNodeSchema) (layers : List (List String)) : List LayoutNode :=
  layers.zipIdx.flatMap fun (layer, layerIdx) => layer.zipIdx.filterMap fun (id, i) =>
    (nodeMap.lookup id).map fun n =>
      { node := n
        x := padding + i * nodeGapX + (nodeGapX - nodeW) / 2
        y := padding + layerIdx * layerGapY
        layer := layerIdx }

def computeLayout (fuel : ℕ) (nodes : List WorkflowNodeSchema) (edges : List WorkflowEdgeSchema) :
    Option (List LayoutNode) :=
  if nodes.length = 0 then some []
  else
    let g := degrees nodes edges
    let queue := (nodes.filter fun n => (g.inDeg.lookup n.nodeId).getD 0 = 0).map WorkflowNodeSchema.nodeId
    (layersFrom g.adj fuel [] g.inDeg queue).map fun (layers, visited) =>
      let remaining := (nodes.filter fun n => n.nodeId ∉ visited).map WorkflowNodeSchema.nodeId
      place (Assoc.ofEntries (nodes.map fun n => (n.nodeId, n)))
        (if remaining.length > 0 then layers ++ [remaining] else layers)

/-! ## What the degrees count -/

variable {nodes : List WorkflowNodeSchema} {edges : List WorkflowEdgeSchema} {ids visited queue : List String} {k : ℕ}

/-- The ids that may come into the layers. -/
def places (ids : List String) (edges : List WorkflowEdgeSchema) : List String :=
  ids ++ edges.map WorkflowEdgeSchema.targetNodeId

theorem mem_places {id : String} (h : id ∈ ids) : id ∈ places ids edges := List.mem_append_left _ h

theorem degrees_append (e : WorkflowEdgeSchema) : degrees nodes (edges ++ [e]) = addEdge (degrees nodes edges) e := by
  rw [degrees, List.foldl_append]
  rfl

theorem lookup_addNodes (nodes : List WorkflowNodeSchema) (id : String) :
    (nodes.foldl addNode ⟨[], []⟩).adj.lookup id =
        (if id ∈ nodes.map WorkflowNodeSchema.nodeId then some [] else none) ∧
      (nodes.foldl addNode ⟨[], []⟩).inDeg.lookup id =
        if id ∈ nodes.map WorkflowNodeSchema.nodeId then some 0 else none := by
  induction nodes using List.reverseRecOn with
  | nil => exact ⟨rfl, rfl⟩
  | append_singleton nodes n ih =>
    rw [List.foldl_append, List.foldl_cons, List.foldl_nil, addNode, Assoc.lookup_set, Assoc.lookup_set, ih.1, ih.2]
    by_cases hid : id = n.nodeId <;> simp [hid]

theorem lookup_adj (edges : List WorkflowEdgeSchema) (id : String) : (degrees nodes edges).adj.lookup id =
    if id ∈ nodes.map WorkflowNodeSchema.nodeId then
      some ((edges.filter fun e => e.sourceNodeId = id).map WorkflowEdgeSchema.targetNodeId)
    else none := by
  induction edges using List.reverseRecOn with
  | nil => exact (lookup_addNodes nodes id).1
  | append_singleton edges e ih =>
    rw [degrees_append, List.filter_append, List.map_append]
    by_cases hid : e.sourceNodeId = id
    · subst hid
      by_cases hknown : e.sourceNodeId ∈ nodes.map WorkflowNodeSchema.nodeId
      · rw [if_pos hknown] at ih ⊢
        simp [addEdge, ih, Assoc.lookup_set]
      · rw [if_neg hknown] at ih ⊢
        simp only [addEdge, ih]
    · have hsame : (addEdge (degrees nodes edges) e).adj.lookup id = (degrees nodes edges).adj.lookup id := by
        unfold addEdge
        cases hsource : (degrees nodes edges).adj.lookup e.sourceNodeId with
        | none => rfl
        | some targets =>
          dsimp only
          rw [Assoc.lookup_set, if_neg (Ne.symm hid)]
      rw [hsame, ih]
      simp [hid]

theorem lookup_inDeg (edges : List WorkflowEdgeSchema) (t : String) : (degrees nodes edges).inDeg.lookup t =
    if t ∈ places (nodes.map WorkflowNodeSchema.nodeId) edges then some (waiting edges [] t : Int) else none := by
  induction edges using List.reverseRecOn with
  | nil =>
    rw [places, List.map_nil, List.append_nil]
    exact (lookup_addNodes nodes t).2
  | append_singleton edges e ih =>
    have hwaiting : waiting (edges ++ [e]) [] t = waiting edges [] t + if e.targetNodeId = t then 1 else 0 := by
      simp [waiting, List.countP_append, List.countP_singleton]
    have hplaces : places (nodes.map WorkflowNodeSchema.nodeId) (edges ++ [e]) =
        places (nodes.map WorkflowNodeSchema.nodeId) edges ++ [e.targetNodeId] := by
      simp [places]
    rw [degrees_append, addEdge, Assoc.lookup_set, hwaiting, hplaces]
    by_cases ht : t = e.targetNodeId
    · subst ht
      rw [if_pos rfl, if_pos (List.mem_append_right _ List.mem_cons_self), if_pos rfl, ih]
      by_cases hknown : e.targetNodeId ∈ places (nodes.map WorkflowNodeSchema.nodeId) edges
      · rw [if_pos hknown]
        simp
      · -- an id that is counted for the first time
        have hzero : waiting edges [] e.targetNodeId = 0 := by
          refine waiting_eq_zero_iff.mpr fun a ha => ?_
          obtain ⟨e', he', -, htarget⟩ := ha
          exact absurd (List.mem_append_right _ (List.mem_map.mpr ⟨e', he', htarget⟩)) hknown
        rw [if_neg hknown, hzero]
        rfl
    · rw [if_neg ht, if_neg (Ne.symm ht), ih]
      simp only [List.mem_append, List.mem_singleton, ht, or_false, Nat.add_zero]

/-! ## One round -/

/-- Placed in `k` rounds: all its predecessors have been visited before, and are nodes. -/
def Reached (ids : List String) (edges : List WorkflowEdgeSchema) : ℕ → String → Prop
  | 0, _ => False
  | k + 1, t => t ∈ places ids edges ∧ ∀ a, Leads edges a t → Visited ids edges k a

theorem Reached.next {t : String} (h : Reached ids edges k t) : Reached ids edges (k + 1) t := by
  cases k with
  | zero => exact h.elim
  | succ k => exact ⟨h.1, fun a ha => (h.2 a ha).next⟩

theorem Reached.mem {t : String} (h : Reached ids edges k t) : t ∈ places ids edges := by
  cases k with
  | zero => exact h.elim
  | succ k => exact h.1

/-- Of the nodes, those are placed that the sort has visited. -/
theorem reached_iff_visited {nid : String} (hnid : nid ∈ ids) : Reached ids edges k nid ↔ Visited ids edges k nid := by
  cases k with
  | zero => exact Iff.rfl
  | succ k => exact and_congr_left' (iff_of_true (mem_places hnid) hnid)

theorem visited_iff_reached {nid : String} : Visited ids edges k nid ↔ nid ∈ ids ∧ Reached ids edges k nid :=
  ⟨fun h => ⟨h.mem, (reached_iff_visited h.mem).mpr h⟩, fun h => (reached_iff_visited h.1).mp h.2⟩

/-- The nodes in a list of ids. -/
def known (ids l : List String) : List String := l.filter (· ∈ ids)

theorem foldl_reach {targets : List String} {st st' : Assoc Int × List String} (hnew : ∀ t ∈ targets, t ∉ visited)
    (h : targets.foldlM release st = .ok st') : targets.foldl (reach visited) st = st' := by
  induction targets generalizing st with
  | nil => exact Except.ok.inj h
  | cons t targets ih =>
    rw [List.foldlM_cons] at h
    cases ht : st.1.lookup t with
    | none =>
      rw [release, ht] at h
      cases h
    | some degree =>
      rw [release, ht] at h
      have hreach : reach visited st t = (st.1.set t (degree - 1), if degree - 1 = 0 then st.2 ++ [t] else st.2) := by
        simp [reach, ht, hnew t List.mem_cons_self]
      rw [List.foldl_cons, hreach]
      exact ih (fun s hs => hnew s (List.mem_cons_of_mem _ hs)) h

/-- The loop over the queue takes the edges from its nodes out of the count. -/
theorem foldl_enter (queue : List String) {st st' : Assoc Int × List String} (hnodup : (visited ++ queue).Nodup)
    (hnew : ∀ t ∈ released edges (known (nodes.map WorkflowNodeSchema.nodeId) queue), t ∉ visited ++ queue)
    (h : (released edges (known (nodes.map WorkflowNodeSchema.nodeId) queue)).foldlM release st = .ok st') :
    queue.foldl (enter (degrees nodes edges).adj) (visited, st) = (visited ++ queue, st') := by
  induction queue generalizing visited st with
  | nil =>
    rw [List.append_nil, ← Except.ok.inj h]
    rfl
  | cons id queue ih =>
    have happend : visited ++ id :: queue = (visited ++ [id]) ++ queue := by simp
    have hid : id ∉ visited := fun hmem => (List.nodup_append'.mp hnodup).2.2 hmem List.mem_cons_self
    have hsplit : released edges (known (nodes.map WorkflowNodeSchema.nodeId) (id :: queue)) =
        ((degrees nodes edges).adj.lookup id).getD [] ++
          released edges (known (nodes.map WorkflowNodeSchema.nodeId) queue) := by
      rw [lookup_adj, known, List.filter_cons]
      by_cases hknown : id ∈ nodes.map WorkflowNodeSchema.nodeId
      · rw [if_pos (decide_eq_true hknown), if_pos hknown]
        rfl
      · rw [if_neg (by simpa using hknown), if_neg hknown]
        rfl
    rw [hsplit] at h hnew
    rw [List.foldlM_append] at h
    cases hfirst : (((degrees nodes edges).adj.lookup id).getD []).foldlM release st with
    | error e =>
      rw [hfirst] at h
      cases h
    | ok mid =>
      rw [hfirst] at h
      have henter : enter (degrees nodes edges).adj (visited, st) id = (visited ++ [id], mid) := by
        have hadd : addVisited visited id = visited ++ [id] := if_neg hid
        have hreach : (((degrees nodes edges).adj.lookup id).getD []).foldl (reach (visited ++ [id])) st = mid := by
          refine foldl_reach (fun t ht hmem => hnew t (List.mem_append_left _ ht) ?_) hfirst
          rw [happend]
          exact List.mem_append_left _ hmem
        simp only [enter, hadd, hreach]
      rw [List.foldl_cons, henter, happend]
      refine ih (happend ▸ hnodup) (fun t ht => ?_) h
      rw [← happend]
      exact hnew t (List.mem_append_right _ ht)

/-- The state of the loop in round `k`. -/
structure LayoutRound (ids : List String) (edges : List WorkflowEdgeSchema) (k : ℕ) (visited queue : List String)
    (inDeg : Assoc Int) : Prop where
  nodupVisited : visited.Nodup
  memVisited : ∀ t, t ∈ visited ↔ Reached ids edges k t
  nodupQueue : queue.Nodup
  memQueue : ∀ t, t ∈ queue ↔ Reached ids edges (k + 1) t ∧ ¬Reached ids edges k t
  counts : ∀ t, inDeg.lookup t = if t ∈ places ids edges then some (waiting edges (known ids visited) t : Int) else none

variable {inDeg : Assoc Int}

theorem LayoutRound.mem_append (h : LayoutRound ids edges k visited queue inDeg) (t : String) :
    t ∈ visited ++ queue ↔ Reached ids edges (k + 1) t := by
  rw [List.mem_append, h.memVisited, h.memQueue]
  constructor
  · rintro (hold | hnew)
    · exact hold.next
    · exact hnew.1
  · intro hnext
    by_cases hold : Reached ids edges k t
    · exact .inl hold
    · exact .inr ⟨hnext, hold⟩

theorem LayoutRound.nodup_append (h : LayoutRound ids edges k visited queue inDeg) : (visited ++ queue).Nodup := by
  refine List.nodup_append'.mpr ⟨h.nodupVisited, h.nodupQueue, fun t hold hnew => ?_⟩
  exact ((h.memQueue t).mp hnew).2 ((h.memVisited t).mp hold)

theorem LayoutRound.mem_known (h : LayoutRound ids edges k visited queue inDeg) (a : String) :
    a ∈ known ids queue ↔ Visited ids edges (k + 1) a ∧ ¬Visited ids edges k a := by
  rw [known, List.mem_filter, h.memQueue, decide_eq_true_eq]
  constructor
  · rintro ⟨⟨hnext, hnot⟩, ha⟩
    exact ⟨(reached_iff_visited ha).mp hnext, fun hold => hnot ((reached_iff_visited ha).mpr hold)⟩
  · rintro ⟨hnext, hnot⟩
    exact ⟨⟨(reached_iff_visited hnext.mem).mpr hnext, fun hold => hnot ((reached_iff_visited hnext.mem).mp hold)⟩,
      hnext.mem⟩

theorem LayoutRound.next (h : LayoutRound (nodes.map WorkflowNodeSchema.nodeId) edges k visited queue inDeg) :
    ∃ inDeg' next, queue.foldl (enter (degrees nodes edges).adj) (visited, inDeg, []) =
        (visited ++ queue, inDeg', next) ∧
      LayoutRound (nodes.map WorkflowNodeSchema.nodeId) edges (k + 1) (visited ++ queue) next inDeg' := by
  set ids := nodes.map WorkflowNodeSchema.nodeId
  have hknown : known ids (visited ++ queue) = known ids visited ++ known ids queue := List.filter_append _ _
  have hcount (t : String) : (released edges (known ids queue)).count t + waiting edges (known ids (visited ++ queue)) t =
      waiting edges (known ids visited) t := by
    rw [hknown]
    refine count_released _ (h.nodupQueue.filter _) fun a ha hmem => ?_
    exact (List.nodup_append'.mp h.nodup_append).2.2 (List.mem_of_mem_filter hmem) (List.mem_of_mem_filter ha)
  have hzero (t : String) : waiting edges (known ids (visited ++ queue)) t = 0 ↔
      ∀ a, Leads edges a t → Visited ids edges (k + 1) a := by
    rw [waiting_eq_zero_iff]
    refine forall₂_congr fun a _ => ?_
    rw [known, List.mem_filter, h.mem_append, decide_eq_true_eq, and_comm, visited_iff_reached]
  have htargets : ∀ t ∈ released edges (known ids queue), t ∈ places ids edges := by
    intro t ht
    obtain ⟨a, -, e, he, -, rfl⟩ := mem_released.mp ht
    exact List.mem_append_right _ (List.mem_map_of_mem he)
  obtain ⟨inDeg', more, hrun, hlookup, hnodup, hmore⟩ :=
    foldlM_release (released edges (known ids queue)) [] h.counts htargets fun t => by
      have := hcount t
      omega
  refine ⟨inDeg', more, ?_, h.nodup_append, h.mem_append, hnodup, fun t => ?_, fun t => ?_⟩
  · rw [List.nil_append] at hrun
    refine foldl_enter queue h.nodup_append (fun t ht hmem => ?_) hrun
    -- nothing waits for the queue that has been placed already
    obtain ⟨a, ha, hat⟩ := mem_released.mp ht
    exact ((h.mem_known a).mp ha).2 (((h.mem_append t).mp hmem).2 a hat)
  · have hall : (released edges (known ids queue)).count t = waiting edges (known ids visited) t ↔
        ∀ a, Leads edges a t → Visited ids edges (k + 1) a := by
      rw [← hzero]
      have := hcount t
      omega
    rw [hmore, hall, mem_released]
    constructor
    · rintro ⟨⟨a, ha, hat⟩, hpreds⟩
      refine ⟨⟨htargets t (mem_released.mpr ⟨a, ha, hat⟩), hpreds⟩, fun hold => ?_⟩
      exact ((h.mem_known a).mp ha).2 (hold.2 a hat)
    · rintro ⟨⟨hin, hpreds⟩, hnot⟩
      refine ⟨?_, hpreds⟩
      by_contra hnone
      refine hnot ⟨hin, fun a ha => ?_⟩
      by_contra hlate
      exact hnone ⟨a, (h.mem_known a).mpr ⟨hpreds a ha, hlate⟩, ha⟩
  · rw [hlookup]
    have := hcount t
    congr 2
    omega

/-! ## All rounds -/

/-- The nodes without edges into them, in their order. -/
theorem layoutRound_zero (hnodes : (nodes.map WorkflowNodeSchema.nodeId).Nodup) (edges : List WorkflowEdgeSchema) :
    LayoutRound (nodes.map WorkflowNodeSchema.nodeId) edges 0 []
      ((nodes.filter fun n => ((degrees nodes edges).inDeg.lookup n.nodeId).getD 0 = 0).map WorkflowNodeSchema.nodeId)
      (degrees nodes edges).inDeg where
  nodupVisited := List.nodup_nil
  memVisited t := by simp [Reached]
  nodupQueue := hnodes.sublist (List.filter_sublist.map _)
  memQueue t := by
    have hzero : ∀ t ∈ nodes.map WorkflowNodeSchema.nodeId, ((degrees nodes edges).inDeg.lookup t).getD 0 = 0 ↔
        ∀ a, ¬Leads edges a t := by
      intro t ht
      rw [lookup_inDeg, if_pos (mem_places ht), Option.getD_some, Int.natCast_eq_zero,
        waiting_eq_zero_iff]
      simp only [List.not_mem_nil, imp_false]
    simp only [List.mem_map, List.mem_filter, decide_eq_true_eq, Reached, Visited, Settled, imp_false, not_false_eq_true,
      and_true]
    constructor
    · rintro ⟨n, ⟨hn, hdegree⟩, rfl⟩
      exact ⟨mem_places (List.mem_map_of_mem hn), (hzero _ (List.mem_map_of_mem hn)).mp hdegree⟩
    · rintro ⟨ht, hfree⟩
      obtain ht | ht := List.mem_append.mp ht
      · obtain ⟨n, hn, rfl⟩ := List.mem_map.mp ht
        exact ⟨n, ⟨hn, (hzero _ ht).mpr hfree⟩, rfl⟩
      · obtain ⟨e, he, htarget⟩ := List.mem_map.mp ht
        exact absurd ⟨e, he, rfl, htarget⟩ (hfree e.sourceNodeId)
  counts t := lookup_inDeg edges t

theorem LayoutRound.length_le (h : LayoutRound ids edges k visited queue inDeg) :
    visited.length + queue.length ≤ ids.length + edges.length := by
  have hsub : visited ++ queue ⊆ places ids edges := fun a ha => ((h.mem_append a).mp ha).mem
  simpa [places] using (List.subperm_of_subset h.nodup_append hsub).length_le

/-- After a round that places nothing new no round does. -/
theorem LayoutRound.stable (h : LayoutRound ids edges k visited [] inDeg) {i : ℕ} {t : String}
    (ht : Reached ids edges (k + i + 1) t) : Reached ids edges (k + i) t := by
  have hnow : ∀ t, Reached ids edges (k + 1) t → Reached ids edges k t := fun t hnext => by
    by_contra hnot
    cases (h.memQueue t).mpr ⟨hnext, hnot⟩
  have hvisited : ∀ a, Visited ids edges (k + 1) a → Visited ids edges k a := fun a ha =>
    visited_iff_reached.mpr ⟨ha.mem, hnow a (visited_iff_reached.mp ha).2⟩
  cases i with
  | zero => exact hnow t ht
  | succ i => exact ⟨ht.1, fun a ha => settled_stable hvisited (Nat.le_add_right k i) a (ht.2 a ha)⟩

/-- The loop ends within as many rounds as there are nodes and edges left. It places nothing twice, and a node in the
layer that it settles in. -/
theorem LayoutRound.run (fuel : ℕ) (h : LayoutRound (nodes.map WorkflowNodeSchema.nodeId) edges k visited queue inDeg)
    (hfuel : nodes.length + edges.length ≤ fuel + visited.length) :
    ∃ layers, layersFrom (degrees nodes edges).adj fuel visited inDeg queue = some (layers, visited ++ layers.flatten) ∧
      (visited ++ layers.flatten).Nodup ∧
      ∀ i t, Reached (nodes.map WorkflowNodeSchema.nodeId) edges (k + i + 1) t →
        ¬Reached (nodes.map WorkflowNodeSchema.nodeId) edges (k + i) t → InLayer layers i t := by
  induction fuel generalizing k visited queue inDeg with
  | zero =>
    cases queue with
    | nil => exact ⟨[], by simp [layersFrom], by simpa using h.nodupVisited, fun i t ht hnot => absurd (h.stable ht) hnot⟩
    | cons id queue =>
      have hle := h.length_le
      rw [List.length_cons, List.length_map] at hle
      omega
  | succ fuel ih =>
    cases queue with
    | nil => exact ⟨[], by simp [layersFrom], by simpa using h.nodupVisited, fun i t ht hnot => absurd (h.stable ht) hnot⟩
    | cons id queue =>
      obtain ⟨inDeg', next, hfold, hnext⟩ := h.next
      have hfuel' : nodes.length + edges.length ≤ fuel + (visited ++ id :: queue).length := by
        rw [List.length_append, List.length_cons]
        omega
      obtain ⟨layers, hrest, hnodup, hlayers⟩ := ih hnext hfuel'
      rw [List.append_assoc] at hrest hnodup
      refine ⟨(id :: queue) :: layers, ?_, hnodup, fun i t ht hnot => ?_⟩
      · rw [layersFrom, hfold]
        dsimp only
        rw [hrest]
        rfl
      · cases i with
        | zero => exact ⟨id :: queue, rfl, (h.memQueue t).mpr ⟨ht, hnot⟩⟩
        | succ i =>
          have hshift : k + (i + 1) = k + 1 + i := by omega
          rw [hshift] at ht hnot
          exact hlayers i t ht hnot

/-! ## Positions -/

section Place
variable {nodeMap : Assoc WorkflowNodeSchema} {layers : List (List String)}

theorem place_nodes : (place nodeMap layers).map LayoutNode.node = layers.flatten.filterMap fun id => nodeMap.lookup id := by
  have hlayer (layer : List String) (layerIdx : ℕ) : (layer.zipIdx.filterMap fun (id, i) =>
      (nodeMap.lookup id).map fun n => LayoutNode.mk n (padding + i * nodeGapX + (nodeGapX - nodeW) / 2)
        (padding + layerIdx * layerGapY) layerIdx).map LayoutNode.node = layer.filterMap fun id => nodeMap.lookup id := by
    have hids : layer.filterMap (fun id => nodeMap.lookup id) = layer.zipIdx.filterMap fun p => nodeMap.lookup p.1 := by
      conv_lhs => rw [← List.zipIdx_map_fst 0 layer, List.filterMap_map]
      rfl
    rw [hids, List.map_filterMap]
    refine List.filterMap_congr fun p _ => ?_
    rw [Option.map_map]
    exact Option.map_id'
  calc (place nodeMap layers).map LayoutNode.node
      = layers.zipIdx.flatMap fun p => p.1.filterMap fun id => nodeMap.lookup id := by
        rw [place, List.map_flatMap]
        exact List.flatMap_congr fun p _ => hlayer p.1 p.2
    _ = (layers.zipIdx.map Prod.fst).flatMap fun layer => layer.filterMap fun id => nodeMap.lookup id :=
        (List.flatMap_map _ _ _).symm
    _ = layers.flatten.filterMap fun id => nodeMap.lookup id := by
        rw [List.zipIdx_map_fst, List.filterMap_flatten]
        rfl

theorem mem_place {l : LayoutNode} (h : l ∈ place nodeMap layers) :
    ∃ id, nodeMap.lookup id = some l.node ∧ InLayer layers l.layer id := by
  obtain ⟨⟨layer, layerIdx⟩, hlayer, hl⟩ := List.mem_flatMap.mp h
  obtain ⟨⟨id, i⟩, hid, hl⟩ := List.mem_filterMap.mp hl
  obtain ⟨n, hn, rfl⟩ := Option.map_eq_some_iff.mp hl
  exact ⟨id, hn, layer, List.mem_zipIdx_iff_getElem?.mp hlayer, List.fst_mem_of_mem_zipIdx hid⟩

/-- The second components of a list with its indices grow. -/
theorem pairwise_zipIdx {α : Type} (l : List α) : l.zipIdx.Pairwise fun p q => p.2 < q.2 := by
  have h : (l.zipIdx.map Prod.snd).Pairwise (· < ·) := by
    rw [List.zipIdx_map_snd]
    exact List.pairwise_lt_range'
  exact List.pairwise_map.mp h

/-- No two positions are the same: in a layer the columns differ, and across layers the rows. -/
theorem nodup_place : ((place nodeMap layers).map fun l => (l.x, l.y)).Nodup := by
  refine List.pairwise_map.mpr (List.pairwise_flatMap.mpr ⟨?_, ?_⟩)
  · rintro ⟨layer, layerIdx⟩ -
    refine List.pairwise_filterMap.mpr ((pairwise_zipIdx layer).imp ?_)
    rintro ⟨id, i⟩ ⟨id', i'⟩ hlt l hl l' hl' heq
    obtain ⟨n, -, rfl⟩ := Option.map_eq_some_iff.mp hl
    obtain ⟨n', -, rfl⟩ := Option.map_eq_some_iff.mp hl'
    obtain ⟨hx, -⟩ := Prod.mk.inj heq
    simp only [nodeGapX, padding] at hx hlt
    omega
  · refine (pairwise_zipIdx layers).imp ?_
    rintro ⟨layer, layerIdx⟩ ⟨layer', layerIdx'⟩ hlt l hl l' hl' heq
    obtain ⟨_, -, hl⟩ := List.mem_filterMap.mp hl
    obtain ⟨_, -, hl'⟩ := List.mem_filterMap.mp hl'
    obtain ⟨n, -, rfl⟩ := Option.map_eq_some_iff.mp hl
    obtain ⟨n', -, rfl⟩ := Option.map_eq_some_iff.mp hl'
    obtain ⟨-, hy⟩ := Prod.mk.inj heq
    simp only [layerGapY, padding] at hy hlt
    omega

end Place

theorem lookup_nodeMap (hnodes : (nodes.map WorkflowNodeSchema.nodeId).Nodup) {n : WorkflowNodeSchema} (hn : n ∈ nodes) :
    (Assoc.ofEntries (nodes.map fun n => (n.nodeId, n))).lookup n.nodeId = some n := by
  rw [Assoc.lookup_ofEntries]
  refine Assoc.lookup_of_mem ?_ (List.mem_reverse.mpr (List.mem_map.mpr ⟨n, hn, rfl⟩))
  rw [Assoc.keys, List.map_reverse, List.nodup_reverse, List.map_map]
  exact hnodes

theorem mem_of_lookup_nodeMap {id : String} {n : WorkflowNodeSchema}
    (h : (Assoc.ofEntries (nodes.map fun n => (n.nodeId, n))).lookup id = some n) : n ∈ nodes ∧ n.nodeId = id := by
  rw [Assoc.lookup_ofEntries] at h
  obtain ⟨n', hn', heq⟩ := List.mem_map.mp (List.mem_reverse.mp (Assoc.mem_of_lookup h))
  obtain ⟨rfl, rfl⟩ := Prod.mk.inj heq
  exact ⟨hn', rfl⟩

/-- In layers that name no id twice, each id has one index. -/
theorem inLayer_unique {layers : List (List String)} {i j : ℕ} {id : String} (hnodup : layers.flatten.Nodup)
    (hi : InLayer layers i id) (hj : InLayer layers j id) : i = j := by
  have hdisjoint := List.pairwise_iff_getElem.mp (List.nodup_flatten.mp hnodup).2
  have hlt : ∀ {i j : ℕ}, InLayer layers i id → InLayer layers j id → ¬i < j := by
    rintro i j ⟨layer, hlayer, hid⟩ ⟨layer', hlayer', hid'⟩ hij
    obtain ⟨hi, rfl⟩ := List.getElem?_eq_some_iff.mp hlayer
    obtain ⟨hj, rfl⟩ := List.getElem?_eq_some_iff.mp hlayer'
    exact hdisjoint i j hi hj hij hid hid'
  exact le_antisymm (Nat.not_lt.mp (hlt hj hi)) (Nat.not_lt.mp (hlt hi hj))

/-! ## The layout -/

/-- The layout of the nodes. -/
structure LaysOut (nodes : List WorkflowNodeSchema) (edges : List WorkflowEdgeSchema) (result : List LayoutNode) :
    Prop where
  /-- Each node is placed once, and nothing else is. -/
  once : (result.map LayoutNode.node).Perm nodes
  apart : (result.map fun l => (l.x, l.y)).Nodup
  /-- In the layer that the back end runs it in. -/
  agrees : ∀ (ids : NodeIds nodes) (layers : List (List String)), topologicalSort ids edges = .ok layers →
    ∀ l ∈ result, InLayer layers l.layer l.node.nodeId

/-- The nodes that are left over, in a last layer. -/
theorem layers_spec (nodes : List WorkflowNodeSchema) (hnodes : (nodes.map WorkflowNodeSchema.nodeId).Nodup)
    {layers : List (List String)} (hnodup : layers.flatten.Nodup) {remaining : List String}
    (hremaining : remaining = (nodes.filter fun n => n.nodeId ∉ layers.flatten).map WorkflowNodeSchema.nodeId) :
    (layers ++ [remaining]).flatten.Nodup ∧
      ∀ id ∈ nodes.map WorkflowNodeSchema.nodeId, id ∈ (layers ++ [remaining]).flatten := by
  have hmem (id : String) : id ∈ remaining ↔ id ∈ nodes.map WorkflowNodeSchema.nodeId ∧ id ∉ layers.flatten := by
    rw [hremaining]
    simp only [List.mem_map, List.mem_filter, decide_eq_true_eq]
    constructor
    · rintro ⟨n, ⟨hn, hnot⟩, rfl⟩
      exact ⟨⟨n, hn, rfl⟩, hnot⟩
    · rintro ⟨⟨n, hn, rfl⟩, hnot⟩
      exact ⟨n, ⟨hn, hnot⟩, rfl⟩
  rw [List.flatten_append, List.flatten_singleton]
  constructor
  · refine List.nodup_append'.mpr ⟨hnodup, ?_, fun id hid hlast => ((hmem id).mp hlast).2 hid⟩
    rw [hremaining]
    exact hnodes.sublist (List.filter_sublist.map _)
  · intro id hid
    by_cases hplaced : id ∈ layers.flatten
    · exact List.mem_append_left _ hplaced
    · exact List.mem_append_right _ ((hmem id).mpr ⟨hid, hplaced⟩)

theorem layersFrom_mono {adj : Assoc (List String)} {fuel fuel' : ℕ} {r : List (List String) × List String}
    (h : layersFrom adj fuel visited inDeg queue = some r) (hle : fuel ≤ fuel') :
    layersFrom adj fuel' visited inDeg queue = some r := by
  induction fuel generalizing visited inDeg queue fuel' r with
  | zero =>
    cases queue with
    | nil => cases fuel' <;> exact h
    | cons id queue => cases h
  | succ fuel ih =>
    cases queue with
    | nil => cases fuel' <;> exact h
    | cons id queue =>
      obtain ⟨fuel', rfl⟩ : ∃ n, fuel' = n + 1 := ⟨fuel' - 1, by omega⟩
      obtain ⟨rest, hrest, rfl⟩ := Option.map_eq_some_iff.mp h
      exact Option.map_eq_some_iff.mpr ⟨rest, ih hrest (Nat.le_of_succ_le_succ hle), rfl⟩

/-- Layers that hold each node once, and each node where it settles, make a layout. -/
theorem laysOut_place (hnodes : (nodes.map WorkflowNodeSchema.nodeId).Nodup) {all : List (List String)}
    (hnodup : all.flatten.Nodup) (hall : ∀ id ∈ nodes.map WorkflowNodeSchema.nodeId, id ∈ all.flatten)
    (hlayers : ∀ i t, Visited (nodes.map WorkflowNodeSchema.nodeId) edges (i + 1) t →
      ¬Visited (nodes.map WorkflowNodeSchema.nodeId) edges i t → InLayer all i t) :
    LaysOut nodes edges (place (Assoc.ofEntries (nodes.map fun n => (n.nodeId, n))) all) where
  once := by
    rw [place_nodes]
    refine (List.perm_ext_iff_of_nodup ?_ hnodes.of_map).mpr fun n => ?_
    · refine hnodup.filterMap fun id id' n hid hid' => ?_
      exact (mem_of_lookup_nodeMap hid).2.symm.trans (mem_of_lookup_nodeMap hid').2
    · rw [List.mem_filterMap]
      constructor
      · rintro ⟨id, -, hid⟩
        exact (mem_of_lookup_nodeMap hid).1
      · exact fun hn => ⟨n.nodeId, hall _ (List.mem_map_of_mem hn), lookup_nodeMap hnodes hn⟩
  apart := nodup_place
  agrees ids layers hsort l hl := by
    obtain ⟨id, hid, hplaced⟩ := mem_place hl
    obtain ⟨hn, rfl⟩ := mem_of_lookup_nodeMap hid
    obtain ⟨hlayering, -, hgrounded⟩ := layering_of_sort hsort
    have hvisited : Visited ids.items edges = Visited (nodes.map WorkflowNodeSchema.nodeId) edges := by
      funext k nid
      rw [Visited, Visited, mem_items_eq_known]
      rfl
    have hmem : l.node.nodeId ∈ layers.flatten := by
      refine (hlayering.mem_flatten _).mpr ⟨hgrounded _ ?_, id⟩
      exact (ids.mem_iff _).mpr (List.mem_map_of_mem hn)
    obtain ⟨i, hi⟩ := inLayer_of_mem hmem
    obtain ⟨hnext, hnot⟩ := (hlayering.inLayer i _).mp hi
    rw [Nat.zero_add, hvisited] at hnext hnot
    rwa [inLayer_unique hnodup hplaced (hlayers i _ hnext hnot)]

/-- The layout is computed within as many rounds as there are nodes and edges; it places every node once, no two at the
same position, and each in the layer of the sort where there is one. -/
theorem computeLayout_laysOut (nodes : List WorkflowNodeSchema) (hnodes : (nodes.map WorkflowNodeSchema.nodeId).Nodup)
    (edges : List WorkflowEdgeSchema) : ∃ result,
      (∀ fuel, nodes.length + edges.length ≤ fuel → computeLayout fuel nodes edges = some result) ∧
        LaysOut nodes edges result := by
  by_cases hempty : nodes.length = 0
  · refine ⟨[], fun fuel _ => if_pos hempty, ?_⟩
    obtain rfl := List.length_eq_zero_iff.mp hempty
    exact ⟨.refl _, List.nodup_nil, fun _ _ _ l hl => absurd hl List.not_mem_nil⟩
  · obtain ⟨layers, hrun, hnodup, hlayers⟩ :=
      (layoutRound_zero hnodes edges).run (nodes.length + edges.length) (Nat.le_add_right _ _)
    rw [List.nil_append] at hrun hnodup
    set remaining := (nodes.filter fun n => n.nodeId ∉ layers.flatten).map WorkflowNodeSchema.nodeId with hremaining
    set all := if remaining.length > 0 then layers ++ [remaining] else layers with hall
    have hflatten : all.flatten = (layers ++ [remaining]).flatten := by
      by_cases hsome : remaining.length > 0
      · rw [hall, if_pos hsome]
      · rw [hall, if_neg hsome, List.length_eq_zero_iff.mp (Nat.eq_zero_of_not_pos hsome)]
        simp
    have hprefix : layers <+: all := by
      rw [hall]
      split
      · exact List.prefix_append _ _
      · exact List.prefix_rfl
    obtain ⟨hallnodup, hallmem⟩ := layers_spec nodes hnodes hnodup hremaining
    refine ⟨place (Assoc.ofEntries (nodes.map fun n => (n.nodeId, n))) all, fun fuel hfuel => ?_,
      laysOut_place hnodes (hflatten ▸ hallnodup)
      (fun id hid => hflatten ▸ hallmem id hid) fun i t hnext hnot => ?_⟩
    · rw [computeLayout, if_neg hempty]
      dsimp only
      rw [layersFrom_mono hrun hfuel]
      rfl
    · have hreached : Reached (nodes.map WorkflowNodeSchema.nodeId) edges (0 + i + 1) t := by
        rw [Nat.zero_add]
        exact (reached_iff_visited hnext.mem).mpr hnext
      obtain ⟨layer, hlayer, ht⟩ := hlayers i t hreached fun hold => by
        rw [Nat.zero_add] at hold
        exact hnot ((reached_iff_visited hnext.mem).mp hold)
      obtain ⟨rest, hrest⟩ := hprefix
      refine ⟨layer, ?_, ht⟩
      rw [← hrest, List.getElem?_append_left (List.getElem?_eq_some_iff.mp hlayer).1]
      exact hlayer

/-- The layout of the diamond. -/
theorem computeLayout_laysOut_diamond :
    (computeLayout 10 diamondNodes diamondEdges).map (fun result => result.map fun l => (l.x, l.y, l.layer)) =
        some [(60, 40, 0), (60, 160, 1), (280, 160, 1), (60, 280, 2)] ∧
      ∃ result, (∀ fuel, diamondNodes.length + diamondEdges.length ≤ fuel →
        computeLayout fuel diamondNodes diamondEdges = some result) ∧ LaysOut diamondNodes diamondEdges result :=
  ⟨by decide +kernel, computeLayout_laysOut diamondNodes nodup_diamond diamondEdges⟩

/-- A cycle, and a node that leads to an id without a node: the id has a place in the second layer, and no position. -/
example : (computeLayout 10 diamondNodes [⟨"b", "c", none⟩, ⟨"c", "b", none⟩, ⟨"a", "ghost", none⟩]).map
    (fun result => result.map fun l => (l.node.nodeId, l.layer)) =
      some [("a", 0), ("d", 0), ("b", 2), ("c", 2)] := by decide +kernel

end Lingshu.Frontend
