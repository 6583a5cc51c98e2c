import Lingshu.Workflow.Sort

/-! # What the sort returns and raises

Each round of the loop visits what settles in it. So the layers are the nodes by the longest chain of edges into
them; the sort fails where some node is not grounded, or a grounded one leads to an unknown one. -/
namespace Lingshu.Workflow
open Json Chains
set_option autoImplicit false

variable {nodes : List WorkflowNodeSchema} {ids visited : List String} {edges : List WorkflowEdgeSchema} {k : ℕ}

/-- Settled in `k` rounds of the sort. -/
abbrev Visited (ids : List String) (edges : List WorkflowEdgeSchema) (k : ℕ) (nid : String) : Prop :=
  Settled (Leads edges) (· ∈ ids) k nid

/-- The layers from round `k` on: each sorted, and holding what settles in its round, until nothing does. -/
inductive Layering (ids : List String) (edges : List WorkflowEdgeSchema) : ℕ → List (List String) → Prop
  | done {k : ℕ} (hstable : ∀ nid, Visited ids edges (k + 1) nid → Visited ids edges k nid) : Layering ids edges k []
  | round {k : ℕ} {layer : List String} {layers : List (List String)} (hsorted : layer.Pairwise (· ≤ ·))
      (hnodup : layer.Nodup)
      (hlayer : ∀ nid, nid ∈ layer ↔ Visited ids edges (k + 1) nid ∧ ¬Visited ids edges k nid)
      (hne : layer ≠ []) (hrest : Layering ids edges (k + 1) layers) : Layering ids edges k (layer :: layers)

theorem mem_sorted {queue : List String} {nid : String} : nid ∈ sorted queue ↔ nid ∈ queue :=
  (List.perm_insertionSort _ queue).mem_iff

theorem length_sorted (queue : List String) : (sorted queue).length = queue.length :=
  (List.perm_insertionSort _ queue).length_eq

theorem nodup_sorted {queue : List String} (h : queue.Nodup) : (sorted queue).Nodup :=
  (List.perm_insertionSort _ queue).nodup_iff.mpr h

theorem pairwise_sorted (queue : List String) : (sorted queue).Pairwise (· ≤ ·) := List.pairwise_insertionSort _ queue

/-! ## The loop -/

theorem waiting_eq_zero_iff {nid : String} :
    waiting edges visited nid = 0 ↔ ∀ a, Leads edges a nid → a ∈ visited := by
  rw [waiting, List.countP_eq_zero]
  constructor
  · rintro h a ⟨e, he, rfl, rfl⟩
    by_contra hnew
    exact h e he (by simpa using hnew)
  · intro h e he hwaits
    simp only [decide_eq_true_eq] at hwaits
    exact hwaits.2 (h e.sourceNodeId ⟨e, he, rfl, hwaits.1⟩)

/-- The state of the loop in round `k`. -/
structure Round (ids : List String) (edges : List WorkflowEdgeSchema) (k : ℕ) (visited queue : List String)
    (inDegree : Assoc Int) : Prop where
  nodupVisited : visited.Nodup
  memVisited : ∀ nid, nid ∈ visited ↔ Visited ids edges k nid
  nodupQueue : queue.Nodup
  memQueue : ∀ nid, nid ∈ queue ↔ Visited ids edges (k + 1) nid ∧ ¬Visited ids edges k nid
  counts : Counts ids edges visited inDegree

variable {queue : List String} {inDegree : Assoc Int}

theorem Round.mem_append (h : Round ids edges k visited queue inDegree) (nid : String) :
    nid ∈ visited ++ queue ↔ Visited ids edges (k + 1) nid := by
  rw [List.mem_append, h.memVisited, h.memQueue]
  constructor
  · rintro (hold | hnew)
    · exact hold.next
    · exact hnew.1
  · intro hnext
    by_cases hold : Visited ids edges k nid
    · exact .inl hold
    · exact .inr ⟨hnext, hold⟩

theorem Round.nodup_append (h : Round ids edges k visited queue inDegree) : (visited ++ queue).Nodup := by
  refine List.nodup_append'.mpr ⟨h.nodupVisited, h.nodupQueue, fun nid hold hnew => ?_⟩
  exact ((h.memQueue nid).mp hnew).2 ((h.memVisited nid).mp hold)

/-- A round that meets no unknown node leads to the next one. -/
theorem Round.next (h : Round ids edges k visited queue inDegree)
    (hknown : ∀ a ∈ queue, ∀ b, Leads edges a b → b ∈ ids) :
    ∃ inDegree' nextQueue, visit (counters ids edges).adjacency inDegree queue = .ok (inDegree', nextQueue) ∧
      Round ids edges (k + 1) (visited ++ queue) nextQueue inDegree' := by
  have hcount (nid : String) :
      (released edges queue).count nid + waiting edges (visited ++ queue) nid = waiting edges visited nid :=
    count_released queue h.nodupQueue fun a ha hmem => ((h.memQueue a).mp ha).2 ((h.memVisited a).mp hmem)
  have hreleased : ∀ t ∈ released edges queue, t ∈ ids := fun t ht =>
    let ⟨a, ha, hat⟩ := mem_released.mp ht
    hknown a ha t hat
  obtain ⟨inDegree', more, hrun, hlookup, hnodup, hmore⟩ :=
    foldlM_release (released edges queue) [] h.counts hreleased fun t => by
      have := hcount t
      omega
  refine ⟨inDegree', more, by rw [visit_counters, hrun, List.nil_append], h.nodup_append, h.mem_append, hnodup,
    fun nid => ?_, fun nid => ?_⟩
  · have hall : (released edges queue).count nid = waiting edges visited nid ↔
        ∀ a, Leads edges a nid → Visited ids edges (k + 1) a := by
      simp only [← h.mem_append, ← waiting_eq_zero_iff]
      have := hcount nid
      omega
    rw [hmore, hall, mem_released]
    constructor
    · rintro ⟨⟨a, ha, hnid⟩, hpreds⟩
      refine ⟨⟨hknown a ha nid hnid, hpreds⟩, fun hold => ?_⟩
      exact ((h.memQueue a).mp ha).2 (hold.2 a hnid)
    · rintro ⟨⟨hin, hpreds⟩, hnot⟩
      refine ⟨?_, hpreds⟩
      -- Some predecessor had not settled before: it is in the queue.
      by_contra hnone
      refine hnot ⟨hin, fun a ha => ?_⟩
      by_contra hlate
      exact hnone ⟨a, (h.memQueue a).mpr ⟨hpreds a ha, hlate⟩, ha⟩
  · rw [hlookup]
    have := hcount nid
    congr 2
    omega

theorem Round.raises (h : Round ids edges k visited queue inDegree) {a b : String} (ha : a ∈ queue)
    (hab : Leads edges a b) (hb : b ∉ ids) :
    ∃ key, visit (counters ids edges).adjacency inDegree queue = .error (.keyError key) := by
  rw [visit_counters]
  exact foldlM_release_unknown _ [] (fun nid hnid => by rw [h.counts, if_neg hnid]) (mem_released.mpr ⟨a, ha, hab⟩) hb

/-- With nothing in the queue all grounded nodes are visited. -/
theorem Round.done (h : Round ids edges k visited [] inDegree) : Layering ids edges k [] ∧
    ∀ a, Grounded (Leads edges) (· ∈ ids) a → ¬Visited ids edges k a → ∀ b, Leads edges a b → b ∈ ids := by
  have hstable : ∀ nid, Visited ids edges (k + 1) nid → Visited ids edges k nid := fun nid hnext => by
    by_contra hnot
    cases (h.memQueue nid).mpr ⟨hnext, hnot⟩
  exact ⟨.done hstable, fun a ha hnot => absurd (ha.settled ids.finite_toSet hstable) hnot⟩

theorem Round.length_le (h : Round ids edges k visited queue inDegree) :
    visited.length + queue.length ≤ ids.length := by
  have hsub : visited ++ queue ⊆ ids := fun a ha => ((h.mem_append a).mp ha).mem
  simpa using (List.subperm_of_subset h.nodup_append hsub).length_le

/-- What the loop does from round `k` on, given as many rounds as there are nodes left. -/
theorem Round.run (fuel : ℕ) (h : Round ids edges k visited queue inDegree)
    (hfuel : ids.length ≤ fuel + visited.length) :
    (∃ key a b, loop (counters ids edges).adjacency fuel inDegree queue = .error (.keyError key) ∧
        Grounded (Leads edges) (· ∈ ids) a ∧ Leads edges a b ∧ b ∉ ids) ∨
      ∃ layers, loop (counters ids edges).adjacency fuel inDegree queue = .ok (layers, layers.flatten.length) ∧
        Layering ids edges k layers ∧
        ∀ a, Grounded (Leads edges) (· ∈ ids) a → ¬Visited ids edges k a → ∀ b, Leads edges a b → b ∈ ids := by
  induction fuel generalizing k visited queue inDegree with
  | zero =>
    cases queue with
    | nil => exact .inr ⟨[], rfl, h.done⟩
    | cons nid queue =>
      have hle := h.length_le
      rw [List.length_cons] at hle
      omega
  | succ fuel ih =>
    cases queue with
    | nil => exact .inr ⟨[], rfl, h.done⟩
    | cons nid queue =>
      by_cases hknown : ∀ a ∈ nid :: queue, ∀ b, Leads edges a b → b ∈ ids
      · obtain ⟨inDegree', nextQueue, hvisit, hnext⟩ := h.next hknown
        have hloop : loop (counters ids edges).adjacency (fuel + 1) inDegree (nid :: queue) =
            (loop (counters ids edges).adjacency fuel inDegree' nextQueue).bind fun rest =>
              .ok (sorted (nid :: queue) :: rest.1, (nid :: queue).length + rest.2) := by
          rw [loop, hvisit]
          rfl
        have hfuel' : ids.length ≤ fuel + (visited ++ nid :: queue).length := by
          rw [List.length_append, List.length_cons]
          omega
        obtain ⟨key, a, b, hrest, hab⟩ | ⟨layers, hrest, hlayering, hgrounded⟩ := ih hnext hfuel'
        · exact .inl ⟨key, a, b, by rw [hloop, hrest]; rfl, hab⟩
        · refine .inr ⟨sorted (nid :: queue) :: layers, ?_, ?_, fun a ha hnot b hab => ?_⟩
          · rw [hloop, hrest, List.flatten_cons, List.length_append, length_sorted]
            rfl
          · have hne : sorted (nid :: queue) ≠ [] := List.ne_nil_of_mem (mem_sorted.mpr List.mem_cons_self)
            exact .round (pairwise_sorted _) (nodup_sorted h.nodupQueue)
              (fun n => mem_sorted.trans (h.memQueue n)) hne hlayering
          · by_cases hnow : Visited ids edges (k + 1) a
            · exact hknown a ((h.memQueue a).mpr ⟨hnow, hnot⟩) b hab
            · exact hgrounded a ha hnow b hab
      · push Not at hknown
        obtain ⟨a, ha, b, hab, hb⟩ := hknown
        obtain ⟨key, hvisit⟩ := h.raises ha hab hb
        refine .inl ⟨key, a, b, ?_, ((h.memQueue a).mp ha).1.grounded, hab, hb⟩
        rw [loop, hvisit]
        rfl

/-! ## The first round -/

theorem keys_counters (ids : List String) (edges : List WorkflowEdgeSchema) :
    (counters ids edges).inDegree.keys = ids := by
  induction edges using List.reverseRecOn with
  | nil => exact Assoc.keys_map_self ids fun _ => (0 : Int)
  | append_singleton edges e ih =>
    rw [counters_append, countEdge]
    by_cases htarget : e.targetNodeId ∈ ids
    · rw [if_pos htarget, Assoc.keys_set, ih, if_pos htarget]
    · rw [if_neg htarget, ih]

theorem mem_seeds (hids : ids.Nodup) (nid : String) :
    nid ∈ ((counters ids edges).inDegree.filter fun e => e.2 = 0).map Prod.fst ↔ Visited ids edges 1 nid := by
  have hkeys : (counters ids edges).inDegree.keys.Nodup := (keys_counters ids edges).symm ▸ hids
  have hzero : nid ∈ ((counters ids edges).inDegree.filter fun e => e.2 = 0).map Prod.fst ↔
      (counters ids edges).inDegree.lookup nid = some 0 := by
    simp only [List.mem_map, List.mem_filter, decide_eq_true_eq]
    constructor
    · rintro ⟨⟨n, d⟩, ⟨hmem, rfl⟩, rfl⟩
      exact Assoc.lookup_of_mem hkeys hmem
    · exact fun h => ⟨(nid, 0), ⟨Assoc.mem_of_lookup h, rfl⟩, rfl⟩
  rw [hzero, counters_inDegree edges nid]
  by_cases hnid : nid ∈ ids
  · rw [if_pos hnid, Option.some_inj, Int.natCast_eq_zero, waiting_eq_zero_iff]
    exact ⟨fun h => ⟨hnid, fun a ha => absurd (h a ha) List.not_mem_nil⟩, fun h a ha => (h.2 a ha).elim⟩
  · rw [if_neg hnid]
    exact ⟨fun h => (nomatch h), fun h => absurd h.1 hnid⟩

theorem round_zero (hids : ids.Nodup) (edges : List WorkflowEdgeSchema) :
    Round ids edges 0 [] (((counters ids edges).inDegree.filter fun e => e.2 = 0).map Prod.fst)
      (counters ids edges).inDegree where
  nodupVisited := List.nodup_nil
  memVisited nid := by simp [Visited, Settled]
  nodupQueue := by
    have hkeys : (counters ids edges).inDegree.keys.Nodup := (keys_counters ids edges).symm ▸ hids
    exact hkeys.sublist (List.filter_sublist.map Prod.fst)
  memQueue nid := by
    rw [mem_seeds hids]
    exact ⟨fun h => ⟨h, id⟩, fun h => h.1⟩
  counts := counters_inDegree edges

/-! ## The outcome -/

theorem Layering.mem_flatten {layers : List (List String)} (h : Layering ids edges k layers) (nid : String) :
    nid ∈ layers.flatten ↔ Grounded (Leads edges) (· ∈ ids) nid ∧ ¬Visited ids edges k nid := by
  induction h with
  | done hstable =>
    constructor
    · exact fun h => absurd h List.not_mem_nil
    · exact fun h => absurd (h.1.settled ids.finite_toSet hstable) h.2
  | @round k layer layers _ _ hlayer _ _ ih =>
    rw [List.flatten_cons, List.mem_append, hlayer, ih]
    constructor
    · rintro (h | h)
      · exact ⟨h.1.grounded, h.2⟩
      · exact ⟨h.1, fun hold => h.2 hold.next⟩
    · intro h
      by_cases hnow : Visited ids edges (k + 1) nid
      · exact .inl ⟨hnow, h.2⟩
      · exact .inr ⟨h.1, hnow⟩

theorem Layering.nodup_flatten {layers : List (List String)} (h : Layering ids edges k layers) :
    layers.flatten.Nodup := by
  induction h with
  | done => exact List.nodup_nil
  | round _ hnodup hlayer _ hrest ih =>
    rw [List.flatten_cons]
    refine List.nodup_append'.mpr ⟨hnodup, ih, fun nid hnow hlater => ?_⟩
    exact ((hrest.mem_flatten nid).mp hlater).2 ((hlayer nid).mp hnow).1

/-- All nodes are visited when, and only when, all are grounded. -/
theorem Layering.length_flatten {layers : List (List String)} (h : Layering ids edges 0 layers) (hids : ids.Nodup) :
    layers.flatten.length = ids.length ↔ ∀ a ∈ ids, Grounded (Leads edges) (· ∈ ids) a := by
  have hmem (nid : String) : nid ∈ layers.flatten ↔ Grounded (Leads edges) (· ∈ ids) nid :=
    (h.mem_flatten nid).trans (and_iff_left id)
  have hsub : layers.flatten.Subperm ids :=
    List.subperm_of_subset h.nodup_flatten fun nid hnid => ((hmem nid).mp hnid).mem
  constructor
  · intro hlength a ha
    exact (hmem a).mp ((hsub.perm_of_length_le hlength.ge).mem_iff.mpr ha)
  · intro hall
    have hsup : ids ⊆ layers.flatten := fun a ha => (hmem a).mpr (hall a ha)
    exact le_antisymm hsub.length_le (List.subperm_of_subset hids hsup).length_le

/-- A grounded node has an edge to an unknown one. -/
def LeadsAstray (ids : List String) (edges : List WorkflowEdgeSchema) : Prop :=
  ∃ a b, Grounded (Leads edges) (· ∈ ids) a ∧ Leads edges a b ∧ b ∉ ids

/-- What the sort does on any nodes and edges. -/
theorem topologicalSort_cases (ids : NodeIds nodes) (edges : List WorkflowEdgeSchema) :
    (∃ key, topologicalSort ids edges = .error (.keyError key) ∧ LeadsAstray ids.items edges) ∨
      (topologicalSort ids edges = .error cycleError ∧ ¬LeadsAstray ids.items edges ∧
        ¬∀ a ∈ ids.items, Grounded (Leads edges) (· ∈ ids.items) a) ∨
      ∃ layers, topologicalSort ids edges = .ok layers ∧ ¬LeadsAstray ids.items edges ∧
        (∀ a ∈ ids.items, Grounded (Leads edges) (· ∈ ids.items) a) ∧ Layering ids.items edges 0 layers := by
  obtain ⟨key, a, b, hrun, hastray⟩ | ⟨layers, hrun, hlayering, hgrounded⟩ :=
    (round_zero ids.nodup edges).run ids.items.length (by simp)
  · refine .inl ⟨key, ?_, a, b, hastray⟩
    rw [topologicalSort, hrun]
    rfl
  · have hknown : ¬LeadsAstray ids.items edges := fun ⟨a, b, ha, hab, hb⟩ => hb (hgrounded a ha id b hab)
    have hall := hlayering.length_flatten ids.nodup
    by_cases hlength : layers.flatten.length = ids.items.length
    · refine .inr (.inr ⟨layers, ?_, hknown, hall.mp hlength, hlayering⟩)
      rw [topologicalSort, hrun]
      exact if_neg (not_not.mpr hlength)
    · refine .inr (.inl ⟨?_, hknown, fun h => hlength (hall.mpr h)⟩)
      rw [topologicalSort, hrun]
      exact if_pos hlength

theorem layering_of_sort {ids : NodeIds nodes} {layers : List (List String)}
    (h : topologicalSort ids edges = .ok layers) :
    Layering ids.items edges 0 layers ∧ ¬LeadsAstray ids.items edges ∧
      ∀ a ∈ ids.items, Grounded (Leads edges) (· ∈ ids.items) a := by
  obtain ⟨key, hkey, -⟩ | ⟨hcycle, -⟩ | ⟨layers', hok, hknown, hall, hlayering⟩ := topologicalSort_cases ids edges
  · rw [h] at hkey
    cases hkey
  · rw [h] at hcycle
    cases hcycle
  · obtain rfl := Except.ok.inj (h.symm.trans hok)
    exact ⟨hlayering, hknown, hall⟩

/-- There is one layering. -/
theorem Layering.unique {layers layers' : List (List String)} (h : Layering ids edges k layers)
    (h' : Layering ids edges k layers') : layers = layers' := by
  induction h generalizing layers' with
  | done hstable =>
    cases h' with
    | done => rfl
    | round _ _ hlayer hne _ =>
      obtain ⟨nid, hnid⟩ := List.exists_mem_of_ne_nil _ hne
      exact absurd (hstable nid ((hlayer nid).mp hnid).1) ((hlayer nid).mp hnid).2
  | round hsorted hnodup hlayer hne _ ih =>
    cases h' with
    | done hstable =>
      obtain ⟨nid, hnid⟩ := List.exists_mem_of_ne_nil _ hne
      exact absurd (hstable nid ((hlayer nid).mp hnid).1) ((hlayer nid).mp hnid).2
    | round hsorted' hnodup' hlayer' _ hrest' =>
      have hperm := (List.perm_ext_iff_of_nodup hnodup hnodup').mpr fun nid => (hlayer nid).trans (hlayer' nid).symm
      rw [hperm.eq_of_pairwise (fun _ _ _ _ => le_antisymm) hsorted hsorted', ih hrest']

theorem Layering.congr {ids' : List String} {edges' : List WorkflowEdgeSchema} {layers : List (List String)}
    (hids : (· ∈ ids) = (· ∈ ids')) (hedges : Leads edges = Leads edges') (h : Layering ids edges k layers) :
    Layering ids' edges' k layers := by
  have hvisited : Visited ids edges = Visited ids' edges' := by
    funext k nid
    rw [Visited, Visited, hids, hedges]
  induction h with
  | done hstable => exact .done (hvisited ▸ hstable)
  | round hsorted hnodup hlayer hne _ ih => exact .round hsorted hnodup (hvisited ▸ hlayer) hne ih

/-- The layers depend on the set of the nodes and on the relation of the edges only. -/
theorem topologicalSort_congr {nodes' : List WorkflowNodeSchema} {edges' : List WorkflowEdgeSchema} {ids : NodeIds nodes}
    {ids' : NodeIds nodes'} (hids : (· ∈ ids.items) = (· ∈ ids'.items)) (hedges : Leads edges = Leads edges')
    {layers : List (List String)} (h : topologicalSort ids edges = .ok layers) :
    topologicalSort ids' edges' = .ok layers := by
  obtain ⟨hlayering, hknown, hall⟩ := layering_of_sort h
  have hmem (a : String) : a ∈ ids'.items ↔ a ∈ ids.items := iff_of_eq (congrFun hids a).symm
  have hgrounded (a : String) :
      Grounded (Leads edges') (· ∈ ids'.items) a ↔ Grounded (Leads edges) (· ∈ ids.items) a := by
    rw [hids, hedges]
  obtain ⟨key, -, a, b, ha, hab, hb⟩ | ⟨-, -, hnot⟩ | ⟨layers', hok, -, -, hlayering'⟩ :=
    topologicalSort_cases ids' edges'
  · exact absurd ⟨a, b, (hgrounded a).mp ha, hedges ▸ hab, fun h => hb ((hmem b).mpr h)⟩ hknown
  · exact absurd (fun a ha => (hgrounded a).mpr (hall a ((hmem a).mp ha))) hnot
  · rw [hok, (hlayering.congr hids hedges).unique hlayering']

/-! ## The layering -/

/-- The node is in the layer with this index. -/
def InLayer (layers : List (List String)) (i : ℕ) (nid : String) : Prop :=
  ∃ layer, layers[i]? = some layer ∧ nid ∈ layer

theorem Layering.inLayer {layers : List (List String)} (h : Layering ids edges k layers) (i : ℕ) (nid : String) :
    InLayer layers i nid ↔ Visited ids edges (k + i + 1) nid ∧ ¬Visited ids edges (k + i) nid := by
  induction h generalizing i with
  | @done k hstable =>
    constructor
    · rintro ⟨layer, hlayer, -⟩
      cases hlayer
    · exact fun h => absurd (settled_stable hstable (Nat.le_add_right k i) nid h.1) h.2
  | @round k layer layers _ _ hlayer _ _ ih =>
    cases i with
    | zero =>
      rw [← Nat.add_zero k] at hlayer
      simpa [InLayer] using hlayer nid
    | succ i =>
      have hshift : k + (i + 1) = k + 1 + i := by omega
      rw [hshift, ← ih]
      rfl

theorem inLayer_of_mem {layers : List (List String)} {nid : String} (h : nid ∈ layers.flatten) :
    ∃ i, InLayer layers i nid := by
  obtain ⟨layer, hlayer, hnid⟩ := List.mem_flatten.mp h
  obtain ⟨i, hi⟩ := List.mem_iff_getElem?.mp hlayer
  exact ⟨i, layer, hi, hnid⟩

/-- The layers are disjoint and hold every node once; edges lead to later layers; the index of a node's layer is the
length of the longest chain of edges into it. -/
theorem topologicalSort_layering (hdistinct : (nodes.map WorkflowNodeSchema.nodeId).Nodup) (ids : NodeIds nodes)
    (edges : List WorkflowEdgeSchema) (layers : List (List String)) (h : topologicalSort ids edges = .ok layers) :
    layers.Pairwise List.Disjoint ∧ layers.flatten.Perm (nodes.map WorkflowNodeSchema.nodeId) ∧
      (∀ e ∈ edges, e.sourceNodeId ∈ nodes.map WorkflowNodeSchema.nodeId →
        e.targetNodeId ∈ nodes.map WorkflowNodeSchema.nodeId →
        ∃ i j, InLayer layers i e.sourceNodeId ∧ InLayer layers j e.targetNodeId ∧ i < j) ∧
      ∀ nid i, InLayer layers i nid → IsGreatest {k | Into (Leads edges) k nid} i := by
  obtain ⟨hlayering, -, hall⟩ := layering_of_sort h
  have hclosed := (all_grounded_iff.mp hall).2
  have hnodup := hlayering.nodup_flatten
  have hin : ∀ nid ∈ nodes.map WorkflowNodeSchema.nodeId, nid ∈ layers.flatten := fun nid hnid =>
    (hlayering.mem_flatten nid).mpr ⟨hall nid ((ids.mem_iff nid).mpr hnid), id⟩
  have hlongest : ∀ nid i, InLayer layers i nid → IsGreatest {k | Into (Leads edges) k nid} i := fun nid i hi => by
    obtain ⟨hnext, hnot⟩ := (hlayering.inLayer i nid).mp hi
    rw [Nat.zero_add] at hnext hnot
    exact longest_of_settled hclosed hnext hnot
  refine ⟨(List.nodup_flatten.mp hnodup).2, ?_, fun e he hsource htarget => ?_, hlongest⟩
  · refine (List.perm_ext_iff_of_nodup hnodup hdistinct).mpr fun nid => ⟨fun hnid => ?_, hin nid⟩
    exact (ids.mem_iff nid).mp ((hlayering.mem_flatten nid).mp hnid).1.mem
  · obtain ⟨i, hi⟩ := inLayer_of_mem (hin _ hsource)
    obtain ⟨j, hj⟩ := inLayer_of_mem (hin _ htarget)
    have hchain : Into (Leads edges) (i + 1) e.targetNodeId :=
      .step (hlongest _ i hi).1 ⟨e, he, rfl, rfl⟩
    exact ⟨i, j, hi, hj, (hlongest _ j hj).2 hchain⟩

/-- `a` leads to `b`, twice, and to `c`, and both to `d`. -/
def diamondNodes : List WorkflowNodeSchema := ["a", "b", "c", "d"].map fun nid => { nodeId := nid, type := "action" }

def diamondEdges : List WorkflowEdgeSchema :=
  [("a", "b"), ("a", "c"), ("b", "d"), ("a", "b"), ("c", "d"), ("a", "d")].map fun e => ⟨e.1, e.2, none⟩

theorem nodup_diamond : (diamondNodes.map WorkflowNodeSchema.nodeId).Nodup := by decide

theorem perm_diamond : ["c", "d", "a", "b"].Perm (diamondNodes.map WorkflowNodeSchema.nodeId) := by decide

def diamondIds : NodeIds diamondNodes := .ofPerm nodup_diamond perm_diamond

theorem topologicalSort_layering_diamond :
    topologicalSort diamondIds diamondEdges = .ok [["a"], ["b", "c"], ["d"]] ∧
      IsGreatest {k | Into (Leads diamondEdges) k "d"} 2 := by
  have hsort : topologicalSort diamondIds diamondEdges = .ok [["a"], ["b", "c"], ["d"]] := by rfl
  have hlayering := topologicalSort_layering nodup_diamond diamondIds diamondEdges _ hsort
  exact ⟨hsort, hlayering.2.2.2 "d" 2 ⟨["d"], rfl, List.mem_singleton.mpr rfl⟩⟩

/-! ## Cycles -/

/-- A node of the definition has this id. -/
def Known (nodes : List WorkflowNodeSchema) (nid : String) : Prop := nid ∈ nodes.map WorkflowNodeSchema.nodeId

theorem mem_items_eq_known (ids : NodeIds nodes) : (· ∈ ids.items) = Known nodes :=
  funext fun nid => propext (ids.mem_iff nid)

/-- The edges between known nodes contain a directed cycle. -/
def HasCycle (nodes : List WorkflowNodeSchema) (edges : List WorkflowEdgeSchema) : Prop :=
  ∃ a, Relation.TransGen (Within (Leads edges) (Known nodes)) a a

/-- What the claim asks of the sort. -/
def RejectsCycles (ids : NodeIds nodes) (edges : List WorkflowEdgeSchema) : Prop :=
  (topologicalSort ids edges = .error cycleError ↔ HasCycle nodes edges) ∧
    ∀ e, topologicalSort ids edges = .error e → e = cycleError

theorem acyclic_iff : Acyclic (Within (Leads edges) (Known nodes)) ↔ ¬HasCycle nodes edges := by
  rw [HasCycle, not_exists]
  rfl

theorem all_grounded_iff_known (ids : NodeIds nodes) (edges : List WorkflowEdgeSchema) :
    (∀ a ∈ ids.items, Grounded (Leads edges) (· ∈ ids.items) a) ↔
      ¬HasCycle nodes edges ∧ ∀ a b, Leads edges a b → Known nodes b → Known nodes a := by
  rw [← acyclic_iff, ← mem_items_eq_known ids]
  exact all_grounded_iff

/-- The sort rejects exactly the cyclic graphs when, and only when, no grounded node leads to an unknown one, and a
graph without a cycle has no edge from an unknown node to a known one. -/
theorem rejectsCycles_iff (ids : NodeIds nodes) (edges : List WorkflowEdgeSchema) :
    RejectsCycles ids edges ↔
      (∀ a b, Grounded (Leads edges) (Known nodes) a → Leads edges a b → Known nodes b) ∧
        (HasCycle nodes edges ∨ ∀ a b, Leads edges a b → Known nodes b → Known nodes a) := by
  have hall := all_grounded_iff_known ids edges
  have hastray : LeadsAstray ids.items edges ↔
      ∃ a b, Grounded (Leads edges) (Known nodes) a ∧ Leads edges a b ∧ ¬Known nodes b := by
    rw [← mem_items_eq_known ids]
    rfl
  obtain ⟨key, hkey, a, b, ha, hab, hb⟩ | ⟨hcycle, hknown, hnot⟩ | ⟨layers, hok, hknown, hgrounded, -⟩ :=
    topologicalSort_cases ids edges
  -- An unknown target raises a `KeyError`.
  · refine iff_of_false (fun h => ?_) fun h => ?_
    · cases h.2 _ hkey
    · rw [mem_items_eq_known ids] at ha
      exact hb ((ids.mem_iff b).mpr (h.1 a b ha hab))
  · have hraises : ∀ e, topologicalSort ids edges = .error e → e = cycleError := fun e he =>
      Except.error.inj (he.symm.trans hcycle)
    have htargets : ∀ a b, Grounded (Leads edges) (Known nodes) a → Leads edges a b → Known nodes b :=
      fun a b ha hab => by
        by_contra hb
        exact hknown (hastray.mpr ⟨a, b, ha, hab, hb⟩)
    rw [RejectsCycles, and_iff_left hraises, and_iff_right htargets, iff_true_left hcycle]
    constructor
    · exact .inl
    · rintro (h | h)
      · exact h
      · by_contra hacyclic
        exact hnot (hall.mpr ⟨hacyclic, h⟩)
  · obtain ⟨hacyclic, hsources⟩ := hall.mp hgrounded
    have hnoerror : ∀ e, topologicalSort ids edges ≠ .error e := fun e he => by
      rw [hok] at he
      cases he
    refine iff_of_true ⟨iff_of_false (hnoerror _) hacyclic, fun e he => absurd he (hnoerror e)⟩ ⟨?_, .inr hsources⟩
    intro a b ha hab
    by_contra hb
    exact hknown (hastray.mpr ⟨a, b, ha, hab, hb⟩)

/-- One node with an edge to a node that the definition lacks: a `KeyError`, and no cycle. -/
theorem sort_raises_keyError :
    ¬∀ (nodes : List WorkflowNodeSchema) (_ : (nodes.map WorkflowNodeSchema.nodeId).Nodup) (ids : NodeIds nodes)
      (edges : List WorkflowEdgeSchema), RejectsCycles ids edges := by
  intro h
  have hraises := h [{ nodeId := "a", type := "action" }] (by decide) (.ofPerm (by decide) (.refl _))
    [⟨"a", "ghost", none⟩]
  cases hraises.2 (.keyError "ghost") rfl

end Lingshu.Workflow
