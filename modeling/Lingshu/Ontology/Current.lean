import Lingshu.Ontology.Lifecycle

/-! # Current versions

Drafts, Staging versions and Active ones. A version is current because a query has just written it or brought it back,
or because it was current before: what is to hold of all current versions has to be seen to where they are written. -/
namespace Lingshu.Ontology
open Json Interaction
set_option autoImplicit false

def Node.current (n : Node) : Bool := n.draft || n.staging || n.active

/-- The properties that promotions and the first query of a rollback write. -/
def markFields : List Field := [.isStaging, .isActive, .snapshotId]

structure Node.SameContent (n m : Node) : Prop where
  label : n.label = m.label
  props : ∀ f ∉ markFields, n.props f = m.props f

/-- The versions, as they are afterwards, that a query creates, updates by their rid, or brings back. -/
def Cmd.writes (g : Graph) : Cmd → List Node
  | .createNode label base d => if d.storable then [⟨g.nextId, label, base.update d⟩] else []
  | .updateNode label rid tenantId d isDraft draftOwner =>
    if d.storable then
      (g.nodes.filter (Graph.filterOf label rid tenantId isDraft none draftOwner)).map fun n => n.set d
    else []
  | .reactivateSnapshot tenantId snapshotId =>
    (g.nodes.filter fun n => n.ofTenant tenantId && n.stamped snapshotId).map fun n => n.set [(.isActive, .bool true)]
  | _ => []

section After
variable {n m : Node} {g : Graph}

theorem Node.SameContent.refl (n : Node) : n.SameContent n := ⟨rfl, fun _ _ => rfl⟩

theorem sameContent_set (n : Node) {d : Dict} (hd : ∀ f ∈ d.keys, f ∈ markFields) : (n.set d).SameContent n where
  label := rfl
  props := fun f hf => Props.update_of_notMem fun hmem => hf (hd f hmem)

theorem current_of_active (h : n.active) : n.current := by
  unfold Node.current
  rw [h, Bool.or_true]

/-- A node that the update leaves alone, or one that it makes. -/
theorem mem_set_on {p : Node → Bool} {d : Dict} {nodes : List Node} (h : m ∈ (Effect.set p d).on nodes) :
    m ∈ nodes ∨ ∃ n ∈ nodes, p n ∧ m = n.set d := by
  obtain ⟨n, hn, rfl⟩ := List.mem_map.mp h
  split
  next hp => exact .inr ⟨n, hn, hp, rfl⟩
  next => exact .inl hn

/-- A version that is current after a query was written by it, or was current before with the same content. -/
theorem current_after {c : Cmd} (hm : m ∈ (c.effect g).on g.nodes) (hcurrent : m.current) :
    m ∈ c.writes g ∨ ∃ n ∈ g.nodes, n.current ∧ m.SameContent n := by
  have hkept : m ∈ g.nodes → m ∈ c.writes g ∨ ∃ n ∈ g.nodes, n.current ∧ m.SameContent n :=
    fun h => .inr ⟨m, h, hcurrent, .refl m⟩
  have hdropped : ∀ p : Node → Bool, m ∈ (Effect.drop p).on g.nodes → m ∈ g.nodes :=
    fun p h => (List.mem_filter.mp h).1
  cases c with
  | createNode label base d =>
    simp only [Cmd.effect, Cmd.writes] at hm ⊢
    split at hm
    next hs =>
      rcases List.mem_append.mp hm with hm | hm
      · exact .inr ⟨m, hm, hcurrent, .refl m⟩
      · rw [if_pos hs]
        exact .inl hm
    next => exact .inr ⟨m, hm, hcurrent, .refl m⟩
  | updateNode label rid tenantId d isDraft draftOwner =>
    simp only [Cmd.effect, Cmd.writes] at hm ⊢
    split at hm
    next hs =>
      rcases mem_set_on hm with hm | ⟨n, hn, hp, rfl⟩
      · exact .inr ⟨m, hm, hcurrent, .refl m⟩
      · rw [if_pos hs]
        exact .inl (List.mem_map_of_mem (List.mem_filter.mpr ⟨hn, hp⟩))
    next => exact .inr ⟨m, hm, hcurrent, .refl m⟩
  | deactivateStaged tenantId =>
    rcases mem_set_on hm with hm | ⟨n, hn, hp, rfl⟩
    · exact hkept hm
    · have hactive : n.active := by
        simp only [Graph.replacedBy, Bool.and_eq_true] at hp
        exact hp.1.2
      exact .inr ⟨n, hn, current_of_active hactive, sameContent_set n (by decide)⟩
  | promoteStaged tenantId snapshotId =>
    rcases mem_set_on hm with hm | ⟨n, hn, hp, rfl⟩
    · exact hkept hm
    · have hstaging : n.staging := (Bool.and_eq_true_iff.mp hp).2
      refine .inr ⟨n, hn, ?_, sameContent_set n (by simp [Dict.keys, markFields])⟩
      unfold Node.current
      rw [hstaging, Bool.or_true, Bool.true_or]
  | deactivateSnapshot tenantId currentSnapshotId =>
    rcases mem_set_on hm with hm | ⟨n, hn, hp, rfl⟩
    · exact hkept hm
    · refine .inr ⟨n, hn, ?_, sameContent_set n (by decide)⟩
      have hinactive : (n.set [(.isActive, .bool false)]).active = false := by
        simp [Node.active, Node.has, Props.update_cons]
      unfold Node.current at hcurrent ⊢
      rw [hinactive, Bool.or_false] at hcurrent
      have hplace : (n.draft || n.staging) = true := hcurrent
      rw [hplace, Bool.true_or]
  | reactivateSnapshot tenantId snapshotId =>
    rcases mem_set_on hm with hm | ⟨n, hn, hp, rfl⟩
    · exact hkept hm
    · exact .inl (List.mem_map_of_mem (List.mem_filter.mpr ⟨hn, hp⟩))
  | deleteNode label rid tenantId isDraft isStaging draftOwner => exact hkept (hdropped _ hm)
  | cleanupDeleted tenantId snapshotId => exact hkept (hdropped _ hm)
  | _ => exact hkept hm

end After

/-- What the current versions have in common holds all along a run, when it is kept by every query that meets a
condition, and the queries of the run meet it. -/
theorem concurrent_holds_where {es : List CallEvent} {G : Node → Prop} {J : World → Prop} {D : World → Cmd → Prop}
    (hG : ∀ w, J w → ∀ n ∈ w.graph.nodes, G n)
    (hcmd : ∀ call ∈ started es, ∀ c w, Issues G call c → J w → D w c → J (exec c w).2)
    (henv : ∀ (v : Env) w, J w → J (v.apply w)) (h0 : J World.empty)
    (hs : StepsMeet concurrent.next (Pool.Allows D) noCalls es) :
    ∀ fs, fs <+: es → J (runFrom concurrent.next noCalls fs).state := by
  intro fs hfs
  have hstart : System.Holds (IssuesOf (started es) G) (Answers G) J noCalls := ⟨h0, fun t ht => nomatch ht⟩
  have hsteps : StepsMeet concurrent.next
      (fun p e => (∀ call, e = .start call → call ∈ started es) ∧ Pool.Allows D p e) noCalls es :=
    stepsMeet_started.and hs
  refine (steps_inv (J := System.Holds (IssuesOf (started es) G) (Answers G) J) ?_ hstart
    (hsteps.on_initial hfs)).inv
  rintro p e hp ⟨hcalls, hallowed⟩
  refine hp.next ?_ henv ?_ hallowed
  · rintro call rfl
    exact meets_service (hcalls call rfl)
  · intro call c w hw hc hd
    exact ⟨hcmd call hc.1 c w hc.2 hw hd, exec_answers (hG w hw) c⟩

/-! ## Pairs of current versions -/

section Pairs
variable {R : Node → Node → Prop} {w : World} {c : Cmd} {es fs : List CallEvent}

/-- The current versions are pairwise in `R`. -/
def Graph.Apart (R : Node → Node → Prop) (g : Graph) : Prop :=
  ∀ n ∈ g.nodes, ∀ m ∈ g.nodes, n.current → m.current → R n m

/-- The versions that the query writes are pairwise in `R`, and in `R` with the current ones. -/
def Cmd.WritesApart (R : Node → Node → Prop) (w : World) (c : Cmd) : Prop :=
  ∀ n ∈ c.writes w.graph, ∀ m ∈ c.writes w.graph ++ w.graph.nodes.filter Node.current, R n m ∧ R m n

instance Cmd.WritesApart.decidable [∀ n m, Decidable (R n m)] (w : World) (c : Cmd) : Decidable (c.WritesApart R w) :=
  inferInstanceAs (Decidable (∀ n ∈ c.writes w.graph,
    ∀ m ∈ c.writes w.graph ++ w.graph.nodes.filter Node.current, R n m ∧ R m n))

/-- Only content decides. -/
def OnContent (R : Node → Node → Prop) : Prop :=
  ∀ {n n' m m' : Node}, n.SameContent n' → m.SameContent m' → R n' m' → R n m

theorem apart_exec (hR : OnContent R) (hw : w.graph.Apart R) (hc : c.WritesApart R w) :
    (exec c w).2.graph.Apart R := by
  intro n hn m hm hncurrent hmcurrent
  rw [exec_nodes] at hn hm
  rcases current_after hn hncurrent with hnew | ⟨n', hn', hncurrent', hnsame⟩
  · rcases current_after hm hmcurrent with hmnew | ⟨m', hm', hmcurrent', hmsame⟩
    · exact (hc n hnew m (List.mem_append_left _ hmnew)).1
    · refine hR (.refl n) hmsame (hc n hnew m' (List.mem_append_right _ ?_)).1
      exact List.mem_filter.mpr ⟨hm', hmcurrent'⟩
  · rcases current_after hm hmcurrent with hmnew | ⟨m', hm', hmcurrent', hmsame⟩
    · refine hR hnsame (.refl m) (hc m hmnew n' (List.mem_append_right _ ?_)).2
      exact List.mem_filter.mpr ⟨hn', hncurrent'⟩
    · exact hR hnsame hmsame (hw n' hn' m' hm' hncurrent' hmcurrent')

theorem concurrent_apart (hR : OnContent R)
    (hs : StepsMeet concurrent.next (Pool.Allows (Cmd.WritesApart R)) noCalls es) (hfs : fs <+: es) :
    (runFrom concurrent.next noCalls fs).state.graph.Apart R := by
  refine concurrent_holds_where (G := fun _ => True) (J := fun w => w.graph.Apart R) (fun _ _ _ _ => trivial) ?_ ?_ ?_
    hs fs hfs
  · intro call _ c w _ hw hc
    exact apart_exec hR hw hc
  · intro v w hw n hn m hm
    exact hw n ((v.apply_nodes w).mem_iff.mp hn) m ((v.apply_nodes w).mem_iff.mp hm)
  · intro n hn
    cases hn

end Pairs

end Lingshu.Ontology
