import Lingshu.Ontology.Service
import Lingshu.Relation.Search

/-! # The check for cycles of `EXTENDS`

`check_interface_cycle` is a depth-first search from each listed interface. Its answer is exact; what bounds it is how
deep calls may nest. -/
namespace Lingshu.Ontology
open Json Interaction Interaction.Prog Relation
set_option autoImplicit false

/-- The rids at the ends of the `EXTENDS` edges from an interface. -/
def Graph.extended (g : Graph) (tenantId rid : String) : List String :=
  (g.getRelatedNodes .interfaceType rid tenantId .extends .outgoing).map Node.rid

def cycleError (interfaceRid parentRid : String) : Exc :=
  appError .ontologyCycleDetected
    ("Circular dependency: " ++ interfaceRid ++ " extending " ++ parentRid ++ " creates a cycle")
    [("interface_rid", .str interfaceRid), ("parent_rid", .str parentRid)]

def recursionError : Exc := .other "RecursionError"

section Search
variable (w : World) (target tenantId : String)

/-- The loop over the children, alone. -/
theorem run_anyReach {reach : String → List String → Program (Bool × List String)}
    {search : String → List String → Option (Bool × List String)}
    (hreach : ∀ c v, (reach c v).run exec w = ((search c v).elim (.error recursionError) .ok, w))
    (children : List Node) (visited : List String) :
    (anyReach reach children visited).run exec w =
      ((Search.anyReach search (children.map Node.rid) visited).elim (.error recursionError) .ok, w) := by
  induction children generalizing visited with
  | nil => rfl
  | cons child children ih =>
    rw [anyReach, bind_eq, run_bind, hreach, List.map_cons, Search.anyReach]
    rcases search child.rid visited with _ | ⟨found, visited'⟩
    · rfl
    · cases found with
      | true => rfl
      | false => exact ih visited'

/-- The search, alone. -/
theorem run_canReach (depth : ℕ) (current : String) (visited : List String) :
    (canReach target tenantId depth current visited).run exec w =
      ((Search.canReach (w.graph.extended tenantId) target depth current visited).elim (.error recursionError) .ok, w) := by
  induction depth generalizing current visited with
  | zero => rfl
  | succ depth ih =>
    rw [canReach, Search.canReach]
    split
    · rfl
    · split
      · rfl
      · rw [bind_eq, run_bind, run_getRelatedNodes]
        exact run_anyReach w (fun c v => ih c v) _ _

theorem run_checkInterfaceCycle_cons (limit : ℕ) (parent : String) (parents : List String) :
    (checkInterfaceCycle limit target tenantId (parent :: parents)).run exec w =
      match Search.canReach (w.graph.extended tenantId) target limit parent [] with
      | some (true, _) => (.error (cycleError target parent), w)
      | some (false, _) => (checkInterfaceCycle limit target tenantId parents).run exec w
      | none => (.error recursionError, w) := by
  rw [checkInterfaceCycle, bind_eq, run_bind, run_canReach]
  rcases Search.canReach (w.graph.extended tenantId) target limit parent [] with _ | ⟨found, visited⟩
  · rfl
  · cases found <;> rfl

end Search

/-- The edges of `EXTENDS`, between rids. -/
def Graph.Extends (g : Graph) (tenantId : String) : String → String → Prop := Search.Step (g.extended tenantId)

/-- What the check comes to: it raises the error for a listed interface that is the interface itself or reaches it; it
returns if there is none; and only where a listed interface begins a path through as many different interfaces as calls
may nest can it end otherwise. -/
structure CycleCheck (g : Graph) (limit : ℕ) (interfaceRid tenantId : String) (parents : List String)
    (r : Except Exc Unit) : Prop where
  raised : ∀ parent, r = .error (cycleError interfaceRid parent) →
    parent ∈ parents ∧ ReflTransGen (g.Extends tenantId) parent interfaceRid
  returned : ∀ u, r = .ok u → ∀ parent ∈ parents, ¬ReflTransGen (g.Extends tenantId) parent interfaceRid
  ends : (∃ parent, r = .error (cycleError interfaceRid parent)) ∨ r = .ok () ∨
    (r = .error recursionError ∧ ∃ parent ∈ parents, Search.LongPath (g.extended tenantId) interfaceRid limit parent)

theorem CycleCheck.of_rest {g : Graph} {limit : ℕ} {interfaceRid tenantId parent : String} {parents : List String}
    {r : Except Exc Unit} (h : CycleCheck g limit interfaceRid tenantId parents r)
    (hparent : ¬ReflTransGen (g.Extends tenantId) parent interfaceRid) :
    CycleCheck g limit interfaceRid tenantId (parent :: parents) r where
  raised p hp := (h.raised p hp).imp_left (List.mem_cons_of_mem parent)
  returned u hu := List.forall_mem_cons.mpr ⟨hparent, h.returned u hu⟩
  ends := h.ends.imp_right fun hrest => hrest.imp_right fun ⟨hr, p, hp, hlong⟩ => ⟨hr, p, List.mem_cons_of_mem _ hp, hlong⟩

/-- Alone, on any graph, with any bound on the nesting of calls. -/
theorem checkInterfaceCycle_exact (w : World) (limit : ℕ) (interfaceRid tenantId : String) (parents : List String) :
    ∃ r, (checkInterfaceCycle limit interfaceRid tenantId parents).run exec w = (r, w) ∧
      CycleCheck w.graph limit interfaceRid tenantId parents r := by
  induction parents with
  | nil =>
    exact ⟨.ok (), rfl, fun p hp => (nomatch hp), fun _ _ p hp => (nomatch hp), .inr (.inl rfl)⟩
  | cons parent parents ih =>
    rw [run_checkInterfaceCycle_cons]
    cases hsearch : Search.canReach (w.graph.extended tenantId) interfaceRid limit parent [] with
    | none =>
      refine ⟨.error recursionError, rfl, fun p hp => ?_, fun _ hu => (nomatch hu), .inr (.inr ⟨rfl, parent, ?_, ?_⟩)⟩
      · exact nomatch Except.error.inj hp
      · exact List.mem_cons_self
      · exact Search.longPath_of_none hsearch
    | some result =>
      obtain ⟨found, visited⟩ := result
      cases found with
      | true =>
        have hreaches := Search.reaches_of_true hsearch
        refine ⟨.error (cycleError interfaceRid parent), rfl, fun p hp => ?_, fun _ hu => (nomatch hu), .inl ⟨parent, rfl⟩⟩
        obtain rfl : parent = p := by simpa [cycleError, appError] using hp
        exact ⟨List.mem_cons_self, hreaches⟩
      | false =>
        obtain ⟨r, hr, hcheck⟩ := ih
        exact ⟨r, hr, hcheck.of_rest (Search.not_reaches_of_false hsearch)⟩

/-! ### A long chain -/

def chainRid (i : ℕ) : String := String.ofList (List.replicate i 'a')

theorem chainRid_inj {i j : ℕ} : chainRid i = chainRid j ↔ i = j := by
  constructor
  · intro h
    have hlength := congrArg List.length (String.ofList_injective h)
    simpa using hlength
  · rintro rfl
    rfl

def chainNode (i : ℕ) : Node where
  id := i
  label := .interfaceType
  props
    | .rid => .str (chainRid i)
    | .tenantId => .str "t"
    | _ => .null

/-- Each interface extends the next one. -/
def chainGraph (n : ℕ) : Graph where
  nodes := (List.range (n + 1)).map chainNode
  rels := (List.range n).map fun i => ⟨.extends, i, i + 1⟩
  nextId := n + 1

theorem range_flatMap_single {α : Type} (n i : ℕ) (f : ℕ → List α) (h : ∀ j, j ≠ i → f j = []) (hi : i < n) :
    (List.range n).flatMap f = f i := by
  induction n with
  | zero => omega
  | succ n ih =>
    rw [List.range_succ, List.flatMap_append, List.flatMap_cons, List.flatMap_nil, List.append_nil]
    by_cases hn : i = n
    · subst hn
      have hnone : (List.range i).flatMap f = [] :=
        List.flatMap_eq_nil_iff.mpr fun j hj => h j (List.mem_range.mp hj).ne
      rw [hnone, List.nil_append]
    · rw [ih (by omega), h n (Ne.symm hn), List.append_nil]

theorem chainGraph_nodes (n i : ℕ) {p : Node → Bool} (hp : ∀ j, p (chainNode j) = (j == i)) (hi : i ≤ n) :
    (chainGraph n).nodes.filter p = [chainNode i] := by
  have hcomp : p ∘ chainNode = fun j => j == i := funext hp
  have hcount : (List.range (n + 1)).count i = 1 :=
    List.count_eq_one_of_mem List.nodup_range (List.mem_range.mpr (by omega))
  rw [chainGraph, List.filter_map, hcomp, List.filter_beq, hcount]
  rfl

theorem chainGraph_extended {n i : ℕ} (hi : i < n) : (chainGraph n).extended "t" (chainRid i) = [chainRid (i + 1)] := by
  have hkeyed (j : ℕ) : Node.keyed .interfaceType (chainRid i) "t" (chainNode j) = (j == i) := by
    rw [Bool.eq_iff_iff, Node.keyed_iff]
    simp [chainNode, chainRid_inj]
  have hrels : ((chainGraph n).rels.filter fun r => r.type = .extends) = (List.range n).map fun i => ⟨.extends, i, i + 1⟩ :=
    List.filter_eq_self.mpr fun r hr => by
      obtain ⟨j, -, rfl⟩ := List.mem_map.mp hr
      rfl
  rw [Graph.extended, Graph.getRelatedNodes, chainGraph_nodes n i hkeyed (by omega), List.flatMap_singleton, hrels,
    List.flatMap_map, range_flatMap_single n i]
  · rw [chainGraph_nodes n (i + 1) (fun j => ?_) hi]
    · rfl
    · rw [Bool.eq_iff_iff]
      simp only [chainNode, true_and, decide_eq_true_eq, beq_iff_eq]
      exact eq_comm
  · intro j hj
    refine List.filter_eq_nil_iff.mpr fun m _ hm => hj ?_
    exact (of_decide_eq_true hm).1
  · exact hi

theorem search_chain (n : ℕ) {depth i : ℕ} (h : i + depth ≤ n) {visited : List String}
    (hvisited : ∀ rid ∈ visited, ∃ j < i, rid = chainRid j) :
    Search.canReach ((chainGraph n).extended "t") (chainRid n) depth (chainRid i) visited = none := by
  induction depth generalizing i visited with
  | zero => rfl
  | succ depth ih =>
    have hne : chainRid i ≠ chainRid n := fun heq => by
      have := chainRid_inj.mp heq
      omega
    have hfresh : chainRid i ∉ visited := fun hmem => by
      obtain ⟨j, hj, heq⟩ := hvisited _ hmem
      have := chainRid_inj.mp heq
      omega
    rw [Search.canReach, if_neg hne, if_neg hfresh, chainGraph_extended (by omega), Search.anyReach]
    rw [ih (by omega) ?_]
    intro rid hrid
    obtain rfl | hmem := List.mem_cons.mp hrid
    · exact ⟨i, by omega, rfl⟩
    · obtain ⟨j, hj, rfl⟩ := hvisited rid hmem
      exact ⟨j, by omega, rfl⟩

theorem chain_reaches {n i : ℕ} (hi : i ≤ n) : ReflTransGen ((chainGraph n).Extends "t") (chainRid 0) (chainRid i) := by
  induction i with
  | zero => exact .refl
  | succ i ih =>
    refine (ih (by omega)).tail ?_
    rw [Graph.Extends, Search.Step, chainGraph_extended hi]
    exact List.mem_singleton_self _

/-- The last interface of a chain of a thousand edges is to extend the first: a cycle, but the search does not get
to its end. -/
theorem cycle_not_reported :
    let w : World := { World.empty with graph := chainGraph 1000 }
    ¬((∃ parent, ((checkInterfaceCycle recursionLimit (chainRid 1000) "t" [chainRid 0]).run exec w).1 =
        .error (cycleError (chainRid 1000) parent)) ↔
      ∃ parent ∈ [chainRid 0], ReflTransGen (w.graph.Extends "t") parent (chainRid 1000)) := by
  intro w h
  obtain ⟨parent, hparent⟩ := h.mpr ⟨chainRid 0, List.mem_singleton_self _, chain_reaches le_rfl⟩
  have hsearch : Search.canReach (w.graph.extended "t") (chainRid 1000) recursionLimit (chainRid 0) [] = none :=
    search_chain 1000 le_rfl fun rid hrid => nomatch hrid
  rw [run_checkInterfaceCycle_cons, hsearch] at hparent
  exact nomatch Except.error.inj hparent

end Lingshu.Ontology
