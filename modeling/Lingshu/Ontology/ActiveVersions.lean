import Lingshu.Ontology.Alone

/-! # How many Active versions an entity has

Calls run one after the other. A commit publishes whatever Staging versions there are, a rollback
activates whatever carries the target's stamp; no other call makes a version Active. -/
namespace Lingshu.Ontology
open Json Interaction
set_option autoImplicit false

/-! ## Calls that publish nothing -/

/-- The fields that tell which published version a node is. -/
def publicationFields : List Field := [.rid, .tenantId, .isActive, .snapshotId]

/-- A node that the effect leaves published was so before, with the same key, flag and stamp. -/
def Effect.PublishesNothing : Effect → Prop
  | .add n => n.published = false
  | .set p d => ∀ n, p n → (n.set d).published →
      n.published ∧ ∀ f ∈ publicationFields, (n.set d).props f = n.props f
  | _ => True

/-- A property of published versions that only looks at the fields above. -/
structure OfPublication (q : Node → Bool) : Prop where
  published : ∀ n, q n → n.published
  congr : ∀ n m : Node, n.label = m.label → n.published → (∀ f ∈ publicationFields, m.props f = n.props f) →
    q m → q n

theorem Effect.PublishesNothing.shrinks {e : Effect} (h : e.PublishesNothing) {q : Node → Bool}
    (hq : OfPublication q) : e.Shrinks q := by
  cases e with
  | keep | drop p => trivial
  | add n =>
    refine Bool.eq_false_iff.mpr fun hn => ?_
    have hp : n.published = false := h
    rw [hq.published n hn] at hp
    cases hp
  | set p d =>
    intro n hp hn
    obtain ⟨hpub, hf⟩ := h n hp (hq.published _ hn)
    exact hq.congr n (n.set d) rfl hpub hf hn

theorem publishesNothing_plain {p : Node → Bool} {d : Dict} (h : ∀ f ∈ versionFields, f ∉ d.keys) :
    (Effect.set p d).PublishesNothing := by
  intro n _ hn
  refine ⟨?_, fun f hf => Props.update_of_notMem (h f ?_)⟩
  · simpa only [Node.published, has_set_plain h (f := .isDraft) (by decide),
      has_set_plain h (f := .isStaging) (by decide)] using hn
  · revert hf
    simp only [publicationFields, List.mem_cons, List.not_mem_nil, or_false]
    rintro (rfl | rfl | rfl | rfl) <;> simp [versionFields]

theorem publishesNothing {G : Node → Prop} {call : Call} {c : Cmd} (ha : call.op.Admitted)
    (hp : ¬ call.op.Publishes) (hc : Issues G call c) (g : Graph) : (c.effect g).PublishesNothing := by
  cases hc with
  | new hnew =>
    exact effect_createNode (published_false_of_draft (by simp [Props.update, (lookup_newNode hnew).2.2.1])) trivial
  | clone good key guarded marks =>
    exact effect_createNode (published_false_of_draft (by simp [Props.update, (marks ha).isDraft])) trivial
  | edit guarded plain => exact effect_updateNode (publishesNothing_plain (plain ha)) trivial
  | cascade content => exact effect_updateNode (publishesNothing_plain (cascade_plain content)) trivial
  | submit =>
    intro n _ hn
    rw [published_false_of_staging rfl] at hn
    cases hn
  | unstage =>
    intro n _ hn
    rw [published_false_of_draft rfl] at hn
    cases hn
  | deactivateStaged | promoteStaged | deactivateSnapshot | reactivateSnapshot => exact absurd trivial hp
  | dropDraft | dropStaging | belongsTo | basedOn | cleanupDeleted | publish | repoint => trivial
  | quiet hq => cases c <;> trivial

theorem keyed_congr {n m : Node} (hlabel : n.label = m.label)
    (hf : ∀ f ∈ publicationFields, m.props f = n.props f) (l : Label) (r t : String) :
    m.keyed l r t = n.keyed l r t := by
  simp only [Node.keyed, Node.has, hlabel, hf .rid (by decide), hf .tenantId (by decide)]

theorem ofPublication_active (l : Label) (r t : String) : OfPublication fun n => n.keyed l r t && n.active where
  published := by
    intro n hn
    exact (Bool.and_eq_true_iff.mp (Bool.and_eq_true_iff.mp hn).2).1
  congr := by
    intro n m hlabel hpub hf hm
    have hactive := hf .isActive (by decide)
    simp only [keyed_congr hlabel hf, Node.active, Node.has, hactive, Bool.and_eq_true] at hm
    simp only [Node.active, Node.has, hpub, Bool.and_eq_true]
    exact ⟨hm.1, trivial, hm.2.2⟩

theorem ofPublication_stamped (l : Label) (r t snapshotId : String) :
    OfPublication fun n => n.keyed l r t && (n.published && n.stamped snapshotId) where
  published := by
    intro n hn
    exact (Bool.and_eq_true_iff.mp (Bool.and_eq_true_iff.mp hn).2).1
  congr := by
    intro n m hlabel hpub hf hm
    have hstamp := hf .snapshotId (by decide)
    simp only [keyed_congr hlabel hf, Node.stamped, Node.has, hstamp, Bool.and_eq_true] at hm
    simp only [Node.stamped, Node.has, hpub, Bool.and_eq_true]
    exact ⟨hm.1, trivial, hm.2.2⟩

/-- A call that does not publish makes no second version of such a kind. -/
theorem after_atMostOne {call : Call} (ha : call.op.Admitted) (hp : ¬ call.op.Publishes) {q : Node → Bool}
    (hq : ∀ l r t, OfPublication fun n => n.keyed l r t && q n) {w : World} (h : AtMostOne q w) :
    AtMostOne q (after call w) := by
  refine after_inv (G := fun _ => True) (J := AtMostOne q) (fun _ _ _ _ => trivial) ?_ h
  intro c w hc hw
  exact hw.exec fun l r t => (publishesNothing ha hp hc w.graph).shrinks (hq l r t)

/-! ## Commits -/

/-- A Staging version that is to be published. -/
def Node.publishable (n : Node) : Bool := n.staging && n.has .isActive (.bool true)

/-- Each published version of an entity has a stamp of its own. -/
def UniqueStamps (w : World) : Prop :=
  ∀ snapshotId, AtMostOne (fun n => n.published && n.stamped snapshotId) w

section Commit
variable {calls : List Call} {w w' : World} {tenantId snapshotId : String}

theorem keyed_promoted (n : Node) (l : Label) (r t : String) :
    (n.set [(.isStaging, .bool false), (.snapshotId, .str snapshotId)]).keyed l r t = n.keyed l r t :=
  Node.keyed_set (by simp [Dict.keys]) (by simp [Dict.keys]) l r t

theorem keyed_isActive (n : Node) (v : Value) (l : Label) (r t : String) :
    (n.set [(.isActive, v)]).keyed l r t = n.keyed l r t :=
  Node.keyed_set (by simp [Dict.keys]) (by simp [Dict.keys]) l r t

theorem tenant_of_keyed {n : Node} {l : Label} {r t : String} (hk : n.keyed l r t) (ht : n.ofTenant tenantId) :
    t = tenantId := by
  have hkey := (Node.keyed_iff.mp hk).2.2
  have htenant : n.props .tenantId = .str tenantId := of_decide_eq_true ht
  exact Value.str.inj (hkey.symm.trans htenant)

theorem ofTenant_of_keyed {n : Node} {l : Label} {r : String} (hk : n.keyed l r tenantId) :
    n.ofTenant tenantId :=
  decide_eq_true (Node.keyed_iff.mp hk).2.2

/-- Counting the nodes that a promotion leaves. -/
theorem countP_promoted {g : Graph} {nodes : List Node}
    (hnodes : nodes = g.nodes.filterMap (g.promotedNode tenantId snapshotId)) {q p : Node → Bool}
    (h : ∀ n ∈ g.nodes, ∀ m, g.promotedNode tenantId snapshotId n = some m → q m → p n) :
    nodes.countP q ≤ g.nodes.countP p := by
  rw [hnodes, List.countP_filterMap]
  refine List.countP_mono_left fun n hn hq => ?_
  cases hm : g.promotedNode tenantId snapshotId n with
  | none =>
    rw [hm] at hq
    cases hq
  | some m =>
    rw [hm] at hq
    exact h n hn m hm hq

/-- A promotion leaves one Active version per entity exactly when it publishes one. -/
theorem promoted_atMostOne_iff (hw : w.Sound calls)
    (hnodes : w'.graph.nodes = w.graph.nodes.filterMap (w.graph.promotedNode tenantId snapshotId))
    (h : AtMostOne Node.active w) :
    AtMostOne Node.active w' ↔ ∀ label rid,
      w.graph.nodes.countP (fun n => n.keyed label rid tenantId && n.publishable) ≤ 1 := by
  constructor
  · intro h' label rid
    refine Nat.le_trans ?_ (h' label rid tenantId)
    rw [hnodes, List.countP_filterMap]
    refine List.countP_mono_left fun n hn hp => ?_
    simp only [Node.publishable, Bool.and_eq_true] at hp
    obtain ⟨hk, hs, ha⟩ := hp
    rw [Graph.promotedNode_staging ⟨ofTenant_of_keyed hk, hs⟩ ha]
    simp [keyed_promoted, hk, Graph.promoted_active (hw.nodes n hn) hs ha]
  · intro hone l r t
    by_cases hex : t = tenantId ∧ ∃ s ∈ w.graph.nodes, s.keyed l r tenantId ∧ s.staging
    · obtain ⟨rfl, s, hs, hsk, hss⟩ := hex
      refine Nat.le_trans (countP_promoted hnodes fun n hn m hm hq => ?_) (hone l r)
      obtain ⟨hk, ha⟩ := Bool.and_eq_true_iff.mp hq
      obtain ⟨_, hstaging, hactive, rfl⟩ | ⟨_, rfl⟩ | ⟨_, hr, rfl⟩ := Graph.promotedNode_cases (hw.nodes n hn) hm
      · rw [keyed_promoted] at hk
        simp [Node.publishable, hk, hstaging, hactive]
      · rw [Graph.deactivated_not_active] at ha
        cases ha
      · rw [(Graph.replacedBy_iff hw.nodes hn hk ha).mpr ⟨s, hs, hsk, hss⟩] at hr
        cases hr
    · refine Nat.le_trans (countP_promoted hnodes fun n hn m hm hq => ?_) (h l r t)
      obtain ⟨hk, ha⟩ := Bool.and_eq_true_iff.mp hq
      obtain ⟨ht, hstaging, _, rfl⟩ | ⟨_, rfl⟩ | ⟨_, _, rfl⟩ := Graph.promotedNode_cases (hw.nodes n hn) hm
      · rw [keyed_promoted] at hk
        obtain rfl := tenant_of_keyed hk ht
        exact absurd ⟨rfl, n, hn, hk, hstaging⟩ hex
      · rw [Graph.deactivated_not_active] at ha
        cases ha
      · exact hq

theorem stamped_promoted (n : Node) (s : String) :
    (n.set [(.isStaging, .bool false), (.snapshotId, .str snapshotId)]).stamped s = decide (snapshotId = s) := by
  simp [Node.stamped, Node.has, Props.update_cons]

theorem stamped_isActive (n : Node) (v : Value) (s : String) :
    (n.set [(.isActive, v)]).stamped s = n.stamped s :=
  Node.has_set_of_notMem (by simp [Dict.keys]) _

theorem published_isActive (n : Node) (v : Value) : (n.set [(.isActive, v)]).published = n.published := by
  have hd : (n.set [(.isActive, v)]).has .isDraft (.bool false) = n.has .isDraft (.bool false) :=
    Node.has_set_of_notMem (by simp [Dict.keys]) _
  have hs : (n.set [(.isActive, v)]).has .isStaging (.bool false) = n.has .isStaging (.bool false) :=
    Node.has_set_of_notMem (by simp [Dict.keys]) _
  rw [Node.published, hd, hs, Node.published]

/-- A promotion that publishes one version per entity gives each a new stamp. -/
theorem promoted_uniqueStamps (hw : w.Sound calls) (hfresh : ∀ n ∈ w.graph.nodes, n.stamped snapshotId = false)
    (hnodes : w'.graph.nodes = w.graph.nodes.filterMap (w.graph.promotedNode tenantId snapshotId))
    (hone : ∀ label rid, w.graph.nodes.countP (fun n => n.keyed label rid tenantId && n.publishable) ≤ 1)
    (h : UniqueStamps w) : UniqueStamps w' := by
  intro s l r t
  by_cases hs : s = snapshotId
  · subst hs
    refine Nat.le_trans (countP_promoted hnodes fun n hn m hm hq => ?_) (hone l r)
    simp only [Bool.and_eq_true] at hq
    obtain ⟨hk, _, hst⟩ := hq
    obtain ⟨ht, hstaging, hactive, rfl⟩ | ⟨_, rfl⟩ | ⟨_, _, rfl⟩ :=
      Graph.promotedNode_cases (hw.nodes n hn) hm
    · rw [keyed_promoted] at hk
      rw [tenant_of_keyed hk ht] at hk
      simp [Node.publishable, hk, hstaging, hactive]
    · rw [stamped_isActive, hfresh n hn] at hst
      cases hst
    · rw [hfresh _ hn] at hst
      cases hst
  · refine Nat.le_trans (countP_promoted hnodes fun n hn m hm hq => ?_) (h s l r t)
    simp only [Bool.and_eq_true] at hq
    obtain ⟨hk, hp, hst⟩ := hq
    obtain ⟨_, _, _, rfl⟩ | ⟨_, rfl⟩ | ⟨_, _, rfl⟩ := Graph.promotedNode_cases (hw.nodes n hn) hm
    · rw [stamped_promoted, decide_eq_true_eq] at hst
      exact absurd hst.symm hs
    · rw [keyed_isActive] at hk
      rw [published_isActive] at hp
      rw [stamped_isActive] at hst
      simp [hk, hp, hst]
    · simp [hk, hp, hst]

end Commit

/-! ## Rollbacks -/

section Rollback
variable {calls : List Call} {w w' : World} {tenantId target current : String}

variable (tenantId target current) in
/-- A rollback writes only `is_active`. -/
theorem rolledBackNode_eq (n : Node) : ∃ d : Dict, (∀ f ∈ d.keys, f = .isActive) ∧
    Graph.rolledBackNode tenantId target current n = n.set d := by
  have hnil : n = n.set [] := by simp only [Node.set, Props.update_nil]
  unfold Graph.rolledBackNode
  split
  · exact ⟨_, by simp [Dict.keys], rfl⟩
  · split
    · exact ⟨_, by simp [Dict.keys], rfl⟩
    · exact ⟨[], by simp [Dict.keys], hnil⟩

theorem rolledBackNode_has (n : Node) {f : Field} (hf : f ≠ .isActive) (v : Value) :
    (Graph.rolledBackNode tenantId target current n).has f v = n.has f v := by
  obtain ⟨d, hd, he⟩ := rolledBackNode_eq tenantId target current n
  rw [he]
  exact Node.has_set_of_notMem (fun hmem => hf (hd f hmem)) v

theorem rolledBackNode_label (n : Node) : (Graph.rolledBackNode tenantId target current n).label = n.label := by
  unfold Graph.rolledBackNode
  split
  · rfl
  · split <;> rfl

theorem rolledBackNode_keyed (n : Node) (l : Label) (r t : String) :
    (Graph.rolledBackNode tenantId target current n).keyed l r t = n.keyed l r t := by
  rw [Node.keyed, Node.keyed, rolledBackNode_label, rolledBackNode_has n (by simp),
    rolledBackNode_has n (by simp)]

theorem rolledBackNode_published (n : Node) :
    (Graph.rolledBackNode tenantId target current n).published = n.published := by
  rw [Node.published, Node.published, rolledBackNode_has n (by simp), rolledBackNode_has n (by simp)]

theorem rolledBackNode_stamped (n : Node) (s : String) :
    (Graph.rolledBackNode tenantId target current n).stamped s = n.stamped s :=
  rolledBackNode_has n (by simp) _

/-- What a rollback leaves Active. -/
theorem rolledBackNode_active {n : Node} (hp : n.published) (ht : n.ofTenant tenantId) :
    (Graph.rolledBackNode tenantId target current n).active =
      (n.stamped target || (n.active && !n.stamped current)) := by
  have hactive : n.active = n.has .isActive (.bool true) := by rw [Node.active, hp, Bool.true_and]
  rw [Node.active, rolledBackNode_published, hp, Bool.true_and, hactive]
  unfold Graph.rolledBackNode
  rw [ht, Bool.true_and, Bool.true_and]
  by_cases htarget : n.stamped target = true
  · simp [htarget, Node.has, Props.update_cons]
  · rw [Bool.not_eq_true] at htarget
    rw [htarget]
    by_cases hc : (n.stamped current && n.has .isActive (.bool true)) = true
    · rw [if_neg (by simp), if_pos hc, (Bool.and_eq_true_iff.mp hc).1]
      simp [Node.has, Props.update_cons]
    · rw [if_neg (by simp), if_neg hc]
      rw [Bool.not_eq_true, Bool.and_eq_false_iff] at hc
      rcases hc with hc | hc <;> simp [hc]

theorem rolledBackNode_of_not {n : Node} (ht : n.ofTenant tenantId = false) :
    Graph.rolledBackNode tenantId target current n = n := by
  simp [Graph.rolledBackNode, ht]

/-- With no Draft and no Staging version around, all versions of the tenant are published. -/
theorem published_of_settled (hw : w.Sound calls) (h : w.graph.hasUncommittedChanges tenantId = false)
    {n : Node} (hn : n ∈ w.graph.nodes) (ht : n.ofTenant tenantId) : n.published := by
  have hnone := List.any_eq_false.mp h n hn
  rw [ht, Bool.true_and, Bool.not_eq_true, Bool.or_eq_false_iff] at hnone
  exact (hw.nodes n hn).published_of_not hnone.1 hnone.2

theorem rolledBack_uniqueStamps
    (hnodes : w'.graph.nodes = w.graph.nodes.map (Graph.rolledBackNode tenantId target current))
    (h : UniqueStamps w) : UniqueStamps w' := by
  intro s l r t
  rw [hnodes, List.countP_map]
  refine Nat.le_trans (Nat.le_of_eq (List.countP_congr fun n _ => ?_)) (h s l r t)
  simp only [Function.comp_apply, rolledBackNode_keyed, rolledBackNode_published, rolledBackNode_stamped]

/-- A rollback leaves one Active version per entity exactly when nothing that it leaves Active belongs to
an entity of which it restores a version. -/
theorem rolledBack_atMostOne_iff (hw : w.Sound calls) (hsettled : w.graph.hasUncommittedChanges tenantId = false)
    (hnodes : w'.graph.nodes = w.graph.nodes.map (Graph.rolledBackNode tenantId target current))
    (hstamps : UniqueStamps w) (h : AtMostOne Node.active w) :
    AtMostOne Node.active w' ↔ ∀ label rid,
      ∀ n ∈ w.graph.nodes, n.keyed label rid tenantId → n.stamped target →
      ∀ m ∈ w.graph.nodes, m.keyed label rid tenantId → m.active → m.stamped target ∨ m.stamped current := by
  have hcount : ∀ l r, w'.graph.nodes.countP (fun n => n.keyed l r tenantId && n.active) =
      w.graph.nodes.countP (fun n => n.keyed l r tenantId && (n.published && n.stamped target)) +
      w.graph.nodes.countP
        (fun n => n.keyed l r tenantId && n.active && !n.stamped target && !n.stamped current) := by
    intro l r
    rw [hnodes, List.countP_map, List.countP_eq_countP_filter_add _ _ (Node.stamped target),
      List.countP_filter, List.countP_filter]
    congr 1 <;> refine List.countP_congr fun n hn => ?_ <;>
      simp only [Function.comp_apply, rolledBackNode_keyed]
    · by_cases hk : n.keyed l r tenantId = true
      · have hp := published_of_settled hw hsettled hn (ofTenant_of_keyed hk)
        rw [rolledBackNode_active hp (ofTenant_of_keyed hk), hp]
        cases n.stamped target <;> simp
      · simp [hk]
    · by_cases hk : n.keyed l r tenantId = true
      · have hp := published_of_settled hw hsettled hn (ofTenant_of_keyed hk)
        rw [rolledBackNode_active hp (ofTenant_of_keyed hk)]
        cases n.stamped target <;> simp [hk]
      · simp [hk]
  constructor
  · intro h' l r n hn hkn hsn m hm hkm ham
    by_contra hno
    rw [not_or, Bool.not_eq_true, Bool.not_eq_true] at hno
    have hp := published_of_settled hw hsettled hn (ofTenant_of_keyed hkn)
    have hone := h' l r tenantId
    rw [hcount] at hone
    have hn1 : 0 < w.graph.nodes.countP
        (fun n => n.keyed l r tenantId && (n.published && n.stamped target)) :=
      List.countP_pos_iff.mpr ⟨n, hn, by simp [hkn, hp, hsn]⟩
    have hm1 : 0 < w.graph.nodes.countP
        (fun n => n.keyed l r tenantId && n.active && !n.stamped target && !n.stamped current) :=
      List.countP_pos_iff.mpr ⟨m, hm, by simp [hkm, ham, hno]⟩
    omega
  · intro halone l r t
    by_cases ht : t = tenantId
    · subst ht
      rw [hcount]
      have ha : w.graph.nodes.countP (fun n => n.keyed l r t && (n.published && n.stamped target)) ≤ 1 :=
        hstamps target l r t
      by_cases hzero : w.graph.nodes.countP
          (fun n => n.keyed l r t && (n.published && n.stamped target)) = 0
      · rw [hzero, Nat.zero_add]
        refine Nat.le_trans (List.countP_mono_left fun n _ hn => ?_) (h l r t)
        simp only [Bool.and_eq_true] at hn ⊢
        exact hn.1.1
      · obtain ⟨n, hn, hq⟩ := List.countP_pos_iff.mp (Nat.pos_of_ne_zero hzero)
        simp only [Bool.and_eq_true] at hq
        have hrest : w.graph.nodes.countP
            (fun n => n.keyed l r t && n.active && !n.stamped target && !n.stamped current) = 0 := by
          refine List.countP_eq_zero.mpr fun m hm hq' => ?_
          simp only [Bool.and_eq_true, Bool.not_eq_true'] at hq'
          obtain ⟨⟨⟨hk, hact⟩, hs⟩, hc⟩ := hq'
          rcases halone l r n hn hq.1 hq.2.2 m hm hk hact with hs' | hc'
          · rw [hs] at hs'
            cases hs'
          · rw [hc] at hc'
            cases hc'
        omega
    · rw [hnodes, List.countP_map]
      refine Nat.le_trans (Nat.le_of_eq (List.countP_congr fun n _ => ?_)) (h l r t)
      simp only [Function.comp_apply, rolledBackNode_keyed]
      by_cases hk : n.keyed l r t = true
      · have hout : n.ofTenant tenantId = false := by
          by_contra hin
          exact ht (tenant_of_keyed hk (by simpa using hin))
        rw [rolledBackNode_of_not hout]
      · simp [hk]

end Rollback

/-! ## Runs -/

/-- If the commit gets the lock, no entity has two Staging versions for it to publish. -/
def PublishesOne (w : World) (tenantId : String) : Prop :=
  w.redis (.commitLock tenantId) = none →
    ∀ label rid, w.graph.nodes.countP (fun n => n.keyed label rid tenantId && n.publishable) ≤ 1

/-- If the rollback passes its checks, an entity of which the target has a version has no Active version
but those of the target and of the current snapshot. -/
def RestoresAlone (w : World) (tenantId target : String) : Prop :=
  RollsBack w tenantId target →
    ∀ label rid, ∀ n ∈ w.graph.nodes, n.keyed label rid tenantId → n.stamped target →
      ∀ m ∈ w.graph.nodes, m.keyed label rid tenantId → m.active →
        m.stamped target ∨ m.stamped ((w.pointers tenantId).getD "")

def KeepsOneActive (s : Serial) : SerialEvent → Prop
  | .call ⟨ctx, .commitStaging _⟩ => PublishesOne s.world ctx.tenantId
  | .call ⟨ctx, .rollbackToSnapshot target⟩ => RestoresAlone s.world ctx.tenantId target
  | _ => True

section Steps
variable {calls : List Call} {w : World} {ctx : Ctx}

theorem SameStores.atMostOne_iff {w w' : World} (h : SameStores w w') (q : Node → Bool) :
    AtMostOne q w' ↔ AtMostOne q w := by
  unfold AtMostOne
  rw [h.graph]

theorem publishesOne_of_refused
    (h : w.redis (.commitLock ctx.tenantId) ≠ none ∨ w.graph.getStagingNodes ctx.tenantId = []) :
    PublishesOne w ctx.tenantId := by
  intro hlock label rid
  have hnone := h.resolve_left fun hne => hne hlock
  refine Nat.le_trans (Nat.le_of_eq (List.countP_eq_zero.mpr fun n hn hp => ?_)) (Nat.zero_le 1)
  simp only [Node.publishable, Bool.and_eq_true] at hp
  have hmem := Graph.mem_getStagingNodes.mpr ⟨hn, ofTenant_of_keyed hp.1, hp.2.1⟩
  rw [hnone] at hmem
  cases hmem

/-- No commit has stored a snapshot under the id of a new call. -/
theorem World.Sound.fresh_snapshot (hw : w.Sound calls) (hctx : ∀ call ∈ calls, call.ctx.uuid ≠ ctx.uuid) :
    ∀ s ∈ w.snapshots, s.snapshotId ≠ ctx.snapshotId := by
  intro s hs he
  obtain ⟨call, hcall, hid⟩ := hw.snapshots s hs
  exact hctx call hcall (snapshotId_injective (hid.symm.trans he))

theorem commit_succeeds_sound {m : Option String} (hw : w.Sound calls)
    (hctx : ∀ call ∈ calls, call.ctx.uuid ≠ ctx.uuid) :
    Succeeds ⟨ctx, .commitStaging m⟩ w ↔
      w.redis (.commitLock ctx.tenantId) = none ∧ w.graph.getStagingNodes ctx.tenantId ≠ [] := by
  constructor
  · intro h
    by_contra hrefused
    rw [not_and_or, not_not] at hrefused
    exact (commit_refused hrefused).1 h
  · rintro ⟨hlock, hstaged⟩
    exact (commit_accepted hlock hstaged (hw.fresh_snapshot hctx)).1

/-- The nodes after a commit that gets the lock and has something to publish. -/
theorem after_commit_nodes {m : Option String} (hw : w.Sound calls)
    (hctx : ∀ call ∈ calls, call.ctx.uuid ≠ ctx.uuid) (hlock : w.redis (.commitLock ctx.tenantId) = none)
    (hstaged : w.graph.getStagingNodes ctx.tenantId ≠ []) :
    (after ⟨ctx, .commitStaging m⟩ w).graph.nodes =
      w.graph.nodes.filterMap (w.graph.promotedNode ctx.tenantId ctx.snapshotId) := by
  obtain ⟨_, k, hk, hg, _⟩ := commit_accepted (m := m) hlock hstaged (hw.fresh_snapshot hctx)
  rw [hg]
  exact Graph.promotion_nodes (fun n hn => (hw.nodes n hn).not_stamped hctx) hk

/-- What a commit that runs alone does to the number of Active versions and to the stamps. -/
theorem commit_step {m : Option String} (hw : w.Sound calls) (hctx : ∀ call ∈ calls, call.ctx.uuid ≠ ctx.uuid)
    (hstamps : UniqueStamps w) (h : AtMostOne Node.active w) :
    (AtMostOne Node.active (after ⟨ctx, .commitStaging m⟩ w) ↔ PublishesOne w ctx.tenantId) ∧
      (PublishesOne w ctx.tenantId → UniqueStamps (after ⟨ctx, .commitStaging m⟩ w)) := by
  by_cases hrefused : w.redis (.commitLock ctx.tenantId) ≠ none ∨ w.graph.getStagingNodes ctx.tenantId = []
  · obtain ⟨_, hsame⟩ := commit_refused (m := m) hrefused
    refine ⟨iff_of_true ((hsame.atMostOne_iff _).mpr h) (publishesOne_of_refused hrefused), fun _ s => ?_⟩
    exact (hsame.atMostOne_iff _).mpr (hstamps s)
  · rw [not_or, not_not] at hrefused
    obtain ⟨hlock, hstaged⟩ := hrefused
    have hnodes := after_commit_nodes (m := m) hw hctx hlock hstaged
    have hfresh : ∀ n ∈ w.graph.nodes, n.stamped ctx.snapshotId = false :=
      fun n hn => (hw.nodes n hn).not_stamped hctx
    refine ⟨?_, fun hone => promoted_uniqueStamps hw hfresh hnodes (hone hlock) hstamps⟩
    rw [promoted_atMostOne_iff hw hnodes h]
    exact ⟨fun hone _ => hone, fun hone => hone hlock⟩

/-- The same for a rollback. -/
theorem rollback_step (hw : w.Sound calls) (hstamps : UniqueStamps w) (h : AtMostOne Node.active w)
    (ctx : Ctx) (target : String) :
    (AtMostOne Node.active (after ⟨ctx, .rollbackToSnapshot target⟩ w) ↔
        RestoresAlone w ctx.tenantId target) ∧
      UniqueStamps (after ⟨ctx, .rollbackToSnapshot target⟩ w) := by
  by_cases hrolls : RollsBack w ctx.tenantId target
  · obtain ⟨_, hafter⟩ := rollback_accepted hrolls
    have hnodes : (after ⟨ctx, .rollbackToSnapshot target⟩ w).graph.nodes = w.graph.nodes.map
        (Graph.rolledBackNode ctx.tenantId target ((w.pointers ctx.tenantId).getD "")) := by
      rw [hafter]
      exact Graph.rolledBack_nodes
    refine ⟨?_, rolledBack_uniqueStamps hnodes hstamps⟩
    rw [rolledBack_atMostOne_iff hw hrolls.1 hnodes hstamps h]
    exact ⟨fun halone _ => halone, fun halone => halone hrolls⟩
  · rw [(rollback_refused hrolls).2]
    exact ⟨iff_of_true h fun hno => absurd hno hrolls, hstamps⟩

theorem Op.Publishes.cases {op : Op} (h : op.Publishes) :
    (∃ m, op = .commitStaging m) ∨ ∃ target, op = .rollbackToSnapshot target := by
  cases op with
  | commitStaging m => exact .inl ⟨m, rfl⟩
  | rollbackToSnapshot target => exact .inr ⟨target, rfl⟩
  | _ => exact h.elim

theorem KeepsOneActive.of_not_publishes {s : Serial} {call : Call} (h : ¬ call.op.Publishes) :
    KeepsOneActive s (.call call) := by
  obtain ⟨ctx, op⟩ := call
  cases op with
  | commitStaging m => exact absurd trivial h
  | rollbackToSnapshot target => exact absurd trivial h
  | _ => trivial

/-- Between two calls every node is sound, and a stamp tells a version of an entity. -/
structure Serial.Sound (s : Serial) : Prop where
  world : s.world.Sound s.calls
  stamps : UniqueStamps s.world

theorem Serial.empty_sound : Serial.empty.Sound := ⟨Ontology.empty_sound [], fun _ _ _ _ => Nat.zero_le 1⟩

theorem Serial.sound_world {s : Serial} {e : SerialEvent} (h : s.world.Sound s.calls) (ha : s.Admits e) :
    (s.next e).world.Sound (s.next e).calls := by
  cases e with
  | env v => exact env_sound v h
  | call call =>
    exact after_sound (List.mem_cons_self ..) (ha call rfl).1
      (h.mono fun earlier he => List.mem_cons_of_mem _ he)

/-- One call: when there was one Active version per entity, there still is exactly under the condition;
and then the stamps stay unique. -/
theorem oneActive_step {s : Serial} {e : SerialEvent} (hs : s.Sound) (ha : s.Admits e)
    (h : AtMostOne Node.active s.world) :
    (AtMostOne Node.active (s.next e).world ↔ KeepsOneActive s e) ∧
      (KeepsOneActive s e → UniqueStamps (s.next e).world) := by
  cases e with
  | env v => exact ⟨iff_of_true (atMostOne_env v _ h) trivial, fun _ sid => atMostOne_env v _ (hs.stamps sid)⟩
  | call call =>
    obtain ⟨hadmitted, hctx⟩ := ha call rfl
    by_cases hp : call.op.Publishes
    · obtain ⟨ctx, op⟩ := call
      obtain ⟨m, rfl⟩ | ⟨target, rfl⟩ := Op.Publishes.cases hp
      · exact commit_step hs.world hctx hs.stamps h
      · obtain ⟨hiff, hstamps⟩ := rollback_step hs.world hs.stamps h ctx target
        exact ⟨hiff, fun _ => hstamps⟩
    · refine ⟨iff_of_true (after_atMostOne hadmitted hp ofPublication_active h) (.of_not_publishes hp), ?_⟩
      intro _ sid
      exact after_atMostOne hadmitted hp (fun l r t => ofPublication_stamped l r t sid) (hs.stamps sid)

end Steps

/-- No entity ever has two Active versions exactly when every commit that gets the lock finds at most one
version per entity to publish, and every rollback that passes its checks restores no version of an entity
beside another that it leaves Active. -/
theorem one_active_iff {es : List SerialEvent} (ha : StepsMeet Serial.next Serial.Admits .empty es) :
    (∀ fs, fs <+: es → AtMostOne Node.active (runFrom Serial.next .empty fs).world) ↔
      StepsMeet Serial.next KeepsOneActive .empty es := by
  have h0 : AtMostOne Node.active Serial.empty.world := fun _ _ _ => Nat.zero_le 1
  refine steps_inv_iff (J := fun s : Serial => AtMostOne Node.active s.world) (K := Serial.Sound) ?_ ?_
    Serial.empty_sound h0 ha
  · intro s e hs hJ he
    exact (oneActive_step hs he hJ).1
  · intro s e hs hJ he hc
    exact ⟨Serial.sound_world hs.world he, (oneActive_step hs he hJ).2 hc⟩

/-- An entity is created and published, changed and published, another one is published, and the first
snapshot is restored. -/
def restoreOldest : List SerialEvent :=
  [.call ⟨⟨"t", "u", "1", "a"⟩, .create .objectType [(.apiName, .str "Order")]⟩,
    .call ⟨⟨"t", "u", "2", "b"⟩, .submitToStaging .objectType "ri.obj.a"⟩,
    .call ⟨⟨"t", "u", "3", "s1"⟩, .commitStaging none⟩,
    .call ⟨⟨"t", "u", "4", "c"⟩, .acquireLock "ri.obj.a"⟩,
    .call ⟨⟨"t", "u", "5", "d"⟩, .update .objectType "ri.obj.a" [(.displayName, .str "Orders")]⟩,
    .call ⟨⟨"t", "u", "6", "e"⟩, .submitToStaging .objectType "ri.obj.a"⟩,
    .call ⟨⟨"t", "u", "7", "s2"⟩, .commitStaging none⟩,
    .call ⟨⟨"t", "u", "8", "f"⟩, .create .objectType [(.apiName, .str "Client")]⟩,
    .call ⟨⟨"t", "u", "9", "g"⟩, .submitToStaging .objectType "ri.obj.f"⟩,
    .call ⟨⟨"t", "u", "10", "s3"⟩, .commitStaging none⟩,
    .call ⟨⟨"t", "u", "11", "h"⟩, .rollbackToSnapshot "ri.snap.s1"⟩]

theorem one_active_iff_restoreOldest :
    (∀ fs, fs <+: restoreOldest → AtMostOne Node.active (runFrom Serial.next .empty fs).world) ↔
      StepsMeet Serial.next KeepsOneActive .empty restoreOldest :=
  one_active_iff (by decide +kernel)

theorem two_active : ¬ ∀ es : List SerialEvent, StepsMeet Serial.next Serial.Admits .empty es →
    AtMostOne Node.active (runFrom Serial.next .empty es).world := by
  intro h
  have h2 := h restoreOldest (by decide +kernel) .objectType "ri.obj.a" "t"
  revert h2
  decide +kernel

end Lingshu.Ontology
