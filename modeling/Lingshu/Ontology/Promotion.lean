import Lingshu.Ontology.Lifecycle
import Lingshu.Ontology.Published
import Mathlib.Data.Set.Basic

/-! # The three queries of a promotion

`promote_staging_to_active` may be stopped between its queries and started again. The graph is always at
one of the stages of `promotion`; a query that has been executed already changes nothing, so a restart
takes up where the last attempt stopped. -/
namespace Lingshu.Ontology
open Json Interaction
set_option autoImplicit false

/-- The contents of the Active versions of an entity. -/
def World.activeView (w : World) (tenantId : String) (label : Label) (rid : String) : Set Props :=
  {content | ∃ n ∈ w.graph.nodes, n.keyed label rid tenantId ∧ n.active ∧ n.props = content}

namespace Graph
variable {g : Graph} {tenantId snapshotId : String}

theorem setWhere_eq_self {p : Node → Bool} (h : ∀ n ∈ g.nodes, p n = false) (d : Dict) :
    g.setWhere p d = g := by
  have hmap : (g.nodes.map fun n => if p n then n.set d else n) = g.nodes := by
    refine (List.map_congr_left (g := id) fun n hn => ?_).trans (List.map_id _)
    simp [h n hn]
  rw [setWhere, hmap]

theorem deleteWhere_eq_self {p : Node → Bool} (h : ∀ n ∈ g.nodes, p n = false) : g.deleteWhere p = g := by
  have hnodes : (g.nodes.filter fun n => !p n) = g.nodes :=
    List.filter_eq_self.mpr fun n hn => by simp [h n hn]
  have hdropped : g.nodes.filter p = [] := List.filter_eq_nil_iff.mpr fun n hn => by simp [h n hn]
  simp [deleteWhere, hnodes, hdropped]

/-! ## The stages -/

/-- The graph when the first `k` queries of a promotion have been executed. -/
def promotion (tenantId snapshotId : String) (g : Graph) : ℕ → Graph
  | 0 => g
  | 1 => g.deactivateStaged tenantId
  | 2 => (g.deactivateStaged tenantId).promoteStaged tenantId snapshotId
  | _ + 3 => ((g.deactivateStaged tenantId).promoteStaged tenantId snapshotId).cleanupDeleted tenantId snapshotId

theorem mem_getStagingNodes {n : Node} :
    n ∈ g.getStagingNodes tenantId ↔ n ∈ g.nodes ∧ n.ofTenant tenantId ∧ n.staging := by
  simp [getStagingNodes]

theorem not_staging_of_replacedBy {n : Node} (h : g.replacedBy tenantId n) : n.staging = false := by
  simp only [replacedBy, Node.active, Node.published, Node.has, Bool.and_eq_true, decide_eq_true_eq] at h
  simp [Node.staging, Node.has, h.1.2.1.2]

/-- The first query touches no Staging version. -/
theorem getStagingNodes_deactivateStaged :
    (g.deactivateStaged tenantId).getStagingNodes tenantId = g.getStagingNodes tenantId := by
  refine Effect.Spares.filter_eq (e := .set (g.replacedBy tenantId) [(.isActive, .bool false)]) ?_
  intro n hn
  have hs := not_staging_of_replacedBy hn
  refine ⟨by simp [hs], ?_⟩
  have hs' : (n.set [(.isActive, .bool false)]).staging = n.staging :=
    Node.has_set_of_notMem (by simp [Dict.keys]) _
  simp [hs', hs]

theorem getStagingNodes_promoteStaged : (g.promoteStaged tenantId snapshotId).getStagingNodes tenantId = [] := by
  refine List.filter_eq_nil_iff.mpr fun n hn => ?_
  obtain ⟨m, _, rfl⟩ := List.mem_map.mp hn
  split
  · simp [Node.staging, Node.has, Props.update]
  · rename_i hm
    simpa using hm

theorem getStagingNodes_cleanupDeleted (h : g.getStagingNodes tenantId = []) :
    (g.cleanupDeleted tenantId snapshotId).getStagingNodes tenantId = [] := by
  refine List.filter_eq_nil_iff.mpr fun n hn => ?_
  exact List.filter_eq_nil_iff.mp h n (List.mem_filter.mp hn).1

/-- From the second query on the tenant has no Staging version. -/
theorem getStagingNodes_promotion {k : ℕ} (h : 2 ≤ k) :
    (promotion tenantId snapshotId g k).getStagingNodes tenantId = [] := by
  match k, h with
  | 2, _ => exact getStagingNodes_promoteStaged
  | k + 3, _ => exact getStagingNodes_cleanupDeleted getStagingNodes_promoteStaged

theorem replacedBy_of_no_staging (h : g.getStagingNodes tenantId = []) (n : Node) :
    g.replacedBy tenantId n = false := by
  simp [replacedBy, stagingRids, h]

theorem deactivateStaged_of_no_staging (h : g.getStagingNodes tenantId = []) :
    g.deactivateStaged tenantId = g :=
  setWhere_eq_self (fun n _ => replacedBy_of_no_staging h n) _

theorem promoteStaged_of_no_staging (h : g.getStagingNodes tenantId = []) :
    g.promoteStaged tenantId snapshotId = g := by
  refine setWhere_eq_self (fun n hn => ?_) _
  simpa using List.filter_eq_nil_iff.mp h n hn

/-- What the first query has deactivated, it does not find again. -/
theorem deactivateStaged_twice : (g.deactivateStaged tenantId).deactivateStaged tenantId =
    g.deactivateStaged tenantId := by
  refine setWhere_eq_self (fun n hn => ?_) _
  obtain ⟨m, _, rfl⟩ := List.mem_map.mp hn
  split
  · simp [replacedBy, Node.active, Node.has, Props.update]
  · rename_i hm
    simp only [replacedBy, stagingRids, getStagingNodes_deactivateStaged] at hm ⊢
    simpa using hm

theorem cleanupDeleted_twice : (g.cleanupDeleted tenantId snapshotId).cleanupDeleted tenantId snapshotId =
    g.cleanupDeleted tenantId snapshotId := by
  refine deleteWhere_eq_self fun n hn => ?_
  have hkept := (List.mem_filter.mp hn).2
  rwa [Bool.not_eq_true'] at hkept

theorem deactivateStaged_promotion (k : ℕ) :
    (promotion tenantId snapshotId g k).deactivateStaged tenantId =
      promotion tenantId snapshotId g (max k 1) := by
  match k with
  | 0 => rfl
  | 1 => exact deactivateStaged_twice
  | k + 2 =>
    rw [Nat.max_eq_left (by omega)]
    exact deactivateStaged_of_no_staging (getStagingNodes_promotion (by omega))

theorem promoteStaged_promotion {k : ℕ} (h : 1 ≤ k) :
    (promotion tenantId snapshotId g k).promoteStaged tenantId snapshotId =
      promotion tenantId snapshotId g (max k 2) := by
  match k, h with
  | 1, _ => rfl
  | k + 2, _ =>
    rw [Nat.max_eq_left (by omega)]
    exact promoteStaged_of_no_staging (getStagingNodes_promotion (by omega))

theorem cleanupDeleted_promotion {k : ℕ} (h : 2 ≤ k) :
    (promotion tenantId snapshotId g k).cleanupDeleted tenantId snapshotId =
      promotion tenantId snapshotId g (max k 3) := by
  match k, h with
  | 2, _ => rfl
  | k + 3, _ =>
    rw [Nat.max_eq_left (by omega)]
    exact cleanupDeleted_twice

/-! ## What a promotion makes of a node -/

/-- A node of the published graph, or nothing for a deletion marker. -/
def promotedNode (g : Graph) (tenantId snapshotId : String) (n : Node) : Option Node :=
  if n.ofTenant tenantId && n.staging then
    if n.has .isActive (.bool false) then none
    else some (n.set [(.isStaging, .bool false), (.snapshotId, .str snapshotId)])
  else if g.replacedBy tenantId n then some (n.set [(.isActive, .bool false)])
  else some n

theorem filter_map_map {α : Type} (f : α → α) (h : α → α) (q : α → Bool) (p : α → Option α) (l : List α)
    (hp : ∀ a ∈ l, p a = if q (h (f a)) then some (h (f a)) else none) :
    ((l.map f).map h).filter q = l.filterMap p := by
  induction l with
  | nil => rfl
  | cons a l ih =>
    have ha := hp a (List.mem_cons_self ..)
    rw [List.map_cons, List.map_cons, List.filter_cons, List.filterMap_cons, ha,
      ih fun b hb => hp b (List.mem_cons_of_mem _ hb)]
    split <;> rfl

theorem promotion_nodes (hfresh : ∀ n ∈ g.nodes, n.stamped snapshotId = false) {k : ℕ} (hk : 3 ≤ k) :
    (promotion tenantId snapshotId g k).nodes = g.nodes.filterMap (g.promotedNode tenantId snapshotId) := by
  match k, hk with
  | k + 3, _ =>
    refine filter_map_map _ _ _ _ _ fun n hn => ?_
    have hn' := hfresh n hn
    by_cases hs : (n.ofTenant tenantId && n.staging) = true
    · have hr : g.replacedBy tenantId n = false := by
        by_contra hr
        rw [Bool.not_eq_false] at hr
        rw [not_staging_of_replacedBy hr, Bool.and_false] at hs
        cases hs
      obtain ⟨htenant, hstaging⟩ := Bool.and_eq_true_iff.mp hs
      have htenant' : (n.set [(.isStaging, .bool false), (.snapshotId, .str snapshotId)]).ofTenant tenantId =
          n.ofTenant tenantId := Node.has_set_of_notMem (by simp [Dict.keys]) _
      have hactive : (n.set [(.isStaging, .bool false), (.snapshotId, .str snapshotId)]).has .isActive
          (.bool false) = n.has .isActive (.bool false) := Node.has_set_of_notMem (by simp [Dict.keys]) _
      have hstamp : (n.set [(.isStaging, .bool false), (.snapshotId, .str snapshotId)]).stamped snapshotId =
          true := decide_eq_true rfl
      by_cases ha : n.has .isActive (.bool false) = true <;>
        simp [promotedNode, hr, hstaging, htenant, htenant', hactive, hstamp, ha]
    · by_cases hr : g.replacedBy tenantId n = true
      · have hstamp : (n.set [(.isActive, .bool false)]).stamped snapshotId = n.stamped snapshotId :=
          Node.has_set_of_notMem (by simp [Dict.keys]) _
        have hs' : (n.set [(.isActive, .bool false)]).staging = n.staging :=
          Node.has_set_of_notMem (by simp [Dict.keys]) _
        have hstaging := not_staging_of_replacedBy hr
        simp [promotedNode, hr, hs', hstaging, hstamp, hn']
      · simp [promotedNode, hs, hr, hn']

/-! ## What a promotion makes of a sound graph -/

/-- The content that a Staging version is published with. -/
def publishedContent (snapshotId : String) (n : Node) : Props :=
  n.props.update [(.isStaging, .bool false), (.snapshotId, .str snapshotId)]

theorem filter_filterMap {α : Type} {q : α → Bool} {p : α → Option α} (l : List α)
    (hkeep : ∀ a ∈ l, q a → p a = some a) (hout : ∀ a ∈ l, ¬ q a → ∀ b, p a = some b → ¬ q b) :
    (l.filterMap p).filter q = l.filter q := by
  induction l with
  | nil => rfl
  | cons a l ih =>
    have ih' := ih (fun b hb => hkeep b (List.mem_cons_of_mem _ hb)) fun b hb => hout b (List.mem_cons_of_mem _ hb)
    rw [List.filterMap_cons]
    by_cases ha : q a = true
    · rw [hkeep a (List.mem_cons_self ..) ha, List.filter_cons_of_pos ha, List.filter_cons_of_pos ha, ih']
    · rw [List.filter_cons_of_neg ha]
      split
      · exact ih'
      · rename_i b hb
        rw [List.filter_cons_of_neg (hout a (List.mem_cons_self ..) ha b hb), ih']

section Sound
variable {calls : List Call} {n m : Node}

theorem promotedNode_staging (hs : n.ofTenant tenantId ∧ n.staging) (ha : n.has .isActive (.bool true)) :
    g.promotedNode tenantId snapshotId n =
      some (n.set [(.isStaging, .bool false), (.snapshotId, .str snapshotId)]) := by
  have hfalse : n.has .isActive (.bool false) = false := by
    simp only [Node.has, decide_eq_true_eq] at ha
    simp [Node.has, ha]
  simp [promotedNode, hs, hfalse]

/-- The three kinds of nodes that a promotion leaves. -/
theorem promotedNode_cases (hn : n.Sound calls) (h : g.promotedNode tenantId snapshotId n = some m) :
    (n.ofTenant tenantId ∧ n.staging ∧ n.has .isActive (.bool true) ∧
      m = n.set [(.isStaging, .bool false), (.snapshotId, .str snapshotId)]) ∨
    (g.replacedBy tenantId n ∧ m = n.set [(.isActive, .bool false)]) ∨
    (¬ (n.ofTenant tenantId ∧ n.staging) ∧ g.replacedBy tenantId n = false ∧ m = n) := by
  unfold promotedNode at h
  split at h
  · rename_i hs
    obtain ⟨ht, hs⟩ := Bool.and_eq_true_iff.mp hs
    split at h
    · cases h
    · rename_i ha
      cases h
      refine .inl ⟨ht, hs, ?_, rfl⟩
      rcases hn.isActive with htrue | hfalse
      · simp [Node.has, htrue]
      · simp [Node.has, hfalse] at ha
  · rename_i hs
    rw [Bool.and_eq_true] at hs
    split at h
    · rename_i hr
      cases h
      exact .inr (.inl ⟨hr, rfl⟩)
    · rename_i hr
      cases h
      exact .inr (.inr ⟨hs, Bool.eq_false_iff.mpr hr, rfl⟩)

/-- A staged entity is one with a Staging version of the same rid: the rid tells the label. -/
theorem replacedBy_iff (hg : ∀ n ∈ g.nodes, n.Sound calls) {label : Label} {rid : String} (hn : n ∈ g.nodes)
    (hk : n.keyed label rid tenantId) (ha : n.active) :
    g.replacedBy tenantId n ↔ ∃ s ∈ g.nodes, s.keyed label rid tenantId ∧ s.staging := by
  obtain ⟨hlabel, hrid, htenant⟩ := Node.keyed_iff.mp hk
  have ht : n.ofTenant tenantId = true := by simp [Node.ofTenant, Node.has, htenant]
  simp only [replacedBy, ht, ha, Bool.true_and, Bool.and_true, decide_eq_true_eq, stagingRids,
    List.mem_filter, List.mem_map]
  constructor
  · rintro ⟨⟨s, hs, hsrid⟩, _⟩
    obtain ⟨hs, hst, hss⟩ := mem_getStagingNodes.mp hs
    have hslabel := (hg s hs).label_eq (hg n hn) hsrid
    refine ⟨s, hs, Node.keyed_iff.mpr ⟨hslabel.trans hlabel, hsrid.trans hrid, ?_⟩, hss⟩
    simpa [Node.ofTenant, Node.has] using hst
  · rintro ⟨s, hs, hsk, hss⟩
    obtain ⟨_, hsrid, hst⟩ := Node.keyed_iff.mp hsk
    refine ⟨⟨s, mem_getStagingNodes.mpr ⟨hs, by simp [Node.ofTenant, Node.has, hst], hss⟩, ?_⟩, ?_⟩
    · rw [hsrid, hrid]
    · simp [hrid]

theorem promoted_active (hn : n.Sound calls) (hs : n.staging) (ha : n.has .isActive (.bool true)) :
    (n.set [(.isStaging, .bool false), (.snapshotId, .str snapshotId)]).active := by
  have hdraft : n.props .isDraft = .bool false := by
    cases hn.kind with
    | draft _ hs' => simp [Node.staging, Node.has, hs'] at hs
    | staging hd _ => exact hd
    | published hd _ _ => exact hd
  simp only [Node.has, decide_eq_true_eq] at ha
  simp [Node.active, Node.published, Node.has, Props.update_cons, hdraft, ha]

theorem deactivated_not_active : (n.set [(.isActive, .bool false)]).active = false := by
  simp [Node.active, Node.has, Props.update_cons]

/-- The Active view after a promotion: the old one overridden by what is staged. -/
theorem mem_activeView_promoted {w w' : World} (hg : ∀ n ∈ w.graph.nodes, n.Sound calls)
    (hnodes : w'.graph.nodes = w.graph.nodes.filterMap (w.graph.promotedNode tenantId snapshotId))
    {label : Label} {rid : String} {content : Props} :
    content ∈ w'.activeView tenantId label rid ↔
      (∃ s ∈ w.graph.nodes, s.keyed label rid tenantId ∧ s.staging ∧ s.has .isActive (.bool true) ∧
        publishedContent snapshotId s = content) ∨
      ((∀ s ∈ w.graph.nodes, s.keyed label rid tenantId → s.staging = false) ∧
        content ∈ w.activeView tenantId label rid) := by
  have hpromoted : ∀ n : Node, (n.set [(.isStaging, .bool false), (.snapshotId, .str snapshotId)]).keyed
      label rid tenantId = n.keyed label rid tenantId := fun n =>
    Node.keyed_set (by simp [Dict.keys]) (by simp [Dict.keys]) label rid tenantId
  have hunstaged : ∀ n : Node, n.active → n.staging = false := by
    intro n ha
    simp only [Node.active, Node.published, Node.has, Bool.and_eq_true, decide_eq_true_eq] at ha
    simp [Node.staging, Node.has, ha.1.2]
  constructor
  · rintro ⟨m, hm, hk, ha, hc⟩
    rw [hnodes] at hm
    obtain ⟨n, hn, hnm⟩ := List.mem_filterMap.mp hm
    obtain ⟨_, hs, hactive, rfl⟩ | ⟨_, rfl⟩ | ⟨_, hr, rfl⟩ := promotedNode_cases (hg n hn) hnm
    · rw [hpromoted] at hk
      exact .inl ⟨n, hn, hk, hs, hactive, hc⟩
    · rw [deactivated_not_active] at ha
      cases ha
    · refine .inr ⟨fun s hs hsk => ?_, m, hn, hk, ha, hc⟩
      by_contra hss
      rw [(replacedBy_iff hg hn hk ha).mpr ⟨s, hs, hsk, by simpa using hss⟩] at hr
      cases hr
  · rintro (⟨s, hs, hk, hss, ha, rfl⟩ | ⟨hno, n, hn, hk, ha, rfl⟩)
    · have ht : s.ofTenant tenantId = true := by
        simp [Node.ofTenant, Node.has, (Node.keyed_iff.mp hk).2.2]
      refine ⟨_, ?_, (hpromoted s).trans hk, promoted_active (hg s hs) hss ha, rfl⟩
      rw [hnodes]
      exact List.mem_filterMap.mpr ⟨s, hs, promotedNode_staging ⟨ht, hss⟩ ha⟩
    · refine ⟨n, ?_, hk, ha, rfl⟩
      have hr : w.graph.replacedBy tenantId n = false := by
        by_contra hr
        obtain ⟨s, hs, hsk, hss⟩ := (replacedBy_iff hg hn hk ha).mp (by simpa using hr)
        rw [hno s hs hsk] at hss
        cases hss
      rw [hnodes]
      exact List.mem_filterMap.mpr ⟨n, hn, by simp [promotedNode, hr, hunstaged n ha]⟩

/-- A promotion leaves Drafts alone. -/
theorem drafts_promoted {nodes : List Node} (hg : ∀ n ∈ g.nodes, n.Sound calls)
    (hnodes : nodes = g.nodes.filterMap (g.promotedNode tenantId snapshotId)) :
    nodes.filter Node.draft = g.nodes.filter Node.draft := by
  have hframe : ∀ (n : Node) (d : Dict), .isDraft ∉ d.keys → (n.set d).draft = n.draft := fun n d hd =>
    Node.has_set_of_notMem hd _
  rw [hnodes]
  refine filter_filterMap _ ?_ ?_
  · intro n hn hd
    have hs : n.staging = false := by
      by_contra hs
      rw [(hg n hn).not_draft_of_staging (by simpa using hs)] at hd
      cases hd
    have hr : g.replacedBy tenantId n = false := by
      by_contra hr
      simp only [Bool.not_eq_false, replacedBy, Node.active, Node.published, Node.has, Bool.and_eq_true,
        decide_eq_true_eq] at hr
      simp [Node.draft, Node.has, hr.1.2.1.1] at hd
    simp [promotedNode, hs, hr]
  · intro n hn hd m hm
    obtain ⟨_, _, _, rfl⟩ | ⟨_, rfl⟩ | ⟨_, _, rfl⟩ := promotedNode_cases (hg n hn) hm
    · rwa [hframe n _ (by simp [Dict.keys])]
    · rwa [hframe n _ (by simp [Dict.keys])]
    · exact hd

/-- A promotion keeps every published version, apart from its `is_active`. -/
theorem published_promoted {nodes : List Node}
    (hnodes : nodes = g.nodes.filterMap (g.promotedNode tenantId snapshotId)) (hn : n ∈ g.nodes)
    (hp : n.published) : n ∈ nodes ∨ n.set [(.isActive, .bool false)] ∈ nodes := by
  have hs : n.staging = false := by
    by_contra hs
    rw [Bool.not_eq_false] at hs
    rw [published_false_of_staging (of_decide_eq_true hs)] at hp
    cases hp
  rw [hnodes]
  by_cases hr : g.replacedBy tenantId n = true
  · exact .inr (List.mem_filterMap.mpr ⟨n, hn, by simp [promotedNode, hs, hr]⟩)
  · exact .inl (List.mem_filterMap.mpr ⟨n, hn, by simp [promotedNode, hs, hr]⟩)

end Sound
end Graph
end Lingshu.Ontology
