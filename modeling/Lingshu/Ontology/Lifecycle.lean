import Lingshu.Ontology.Versions

/-! # The life cycle of a node

Every node is a Draft, a Staging version or a published one; a published node carries the id of the
snapshot that published it, and no node carries the id of a snapshot that no commit has drawn yet. -/
namespace Lingshu.Ontology
open Json Interaction
set_option autoImplicit false

/-! ## Rids -/

/-- The resource type in a rid tells the label. -/
theorem label_of_generateRid {label label' : Label} {uuid uuid' : String}
    (h : generateRid (entityRidTypes label) uuid = generateRid (entityRidTypes label') uuid') :
    label = label' := by
  have hchars := congrArg String.toList h
  simp only [generateRid, String.toList_append] at hchars
  cases label <;> cases label' <;> first | rfl | simp [entityRidTypes] at hchars

theorem snapshotId_injective {ctx ctx' : Ctx} (h : ctx.snapshotId = ctx'.snapshotId) :
    ctx.uuid = ctx'.uuid :=
  generateRid_injective "snap" h

/-! ## Sound nodes -/

/-- A stamp: the id that one of the calls gives its snapshot. -/
def Minted (calls : List Call) (v : Value) : Prop := ∃ call ∈ calls, v = .str call.ctx.snapshotId

inductive Node.Kind (calls : List Call) (n : Node) : Prop where
  | draft (isDraft : n.props .isDraft = .bool true) (isStaging : n.props .isStaging = .bool false)
  | staging (isDraft : n.props .isDraft = .bool false) (isStaging : n.props .isStaging = .bool true)
  | published (isDraft : n.props .isDraft = .bool false) (isStaging : n.props .isStaging = .bool false)
      (stamp : Minted calls (n.props .snapshotId))

structure Node.Sound (calls : List Call) (n : Node) : Prop where
  descends : n.Descends calls
  kind : n.Kind calls
  isActive : n.props .isActive = .bool true ∨ n.props .isActive = .bool false
  stamp : n.props .snapshotId = .null ∨ Minted calls (n.props .snapshotId)

theorem Minted.mono {calls calls' : List Call} {v : Value} (h : Minted calls v)
    (hsub : ∀ call ∈ calls, call ∈ calls') : Minted calls' v := by
  obtain ⟨call, hcall, hv⟩ := h
  exact ⟨call, hsub call hcall, hv⟩

namespace Node.Sound
variable {calls calls' : List Call} {n m : Node}

theorem mono (h : n.Sound calls) (hsub : ∀ call ∈ calls, call ∈ calls') : n.Sound calls' where
  descends := h.descends.mono hsub
  kind := by
    cases h.kind with
    | draft hd hs => exact .draft hd hs
    | staging hd hs => exact .staging hd hs
    | published hd hs hstamp => exact .published hd hs (hstamp.mono hsub)
  isActive := h.isActive
  stamp := h.stamp.imp_right fun hs => hs.mono hsub

/-- A node that differs from a sound one in no flag and no stamp is sound. -/
theorem congr (h : n.Sound calls) (hd : m.Descends calls)
    (hf : ∀ f ∈ [Field.isDraft, .isStaging, .isActive, .snapshotId], m.props f = n.props f) :
    m.Sound calls := by
  have h1 := hf .isDraft (by decide)
  have h2 := hf .isStaging (by decide)
  have h3 := hf .isActive (by decide)
  have h4 := hf .snapshotId (by decide)
  refine ⟨hd, ?_, by rw [h3]; exact h.isActive, by rw [h4]; exact h.stamp⟩
  cases h.kind with
  | draft hd hs => exact .draft (h1.trans hd) (h2.trans hs)
  | staging hd hs => exact .staging (h1.trans hd) (h2.trans hs)
  | published hd hs hstamp => exact .published (h1.trans hd) (h2.trans hs) (by rw [h4]; exact hstamp)

theorem not_draft_of_staging (h : n.Sound calls) (hs : n.staging) : n.draft = false := by
  cases h.kind with
  | draft hd hs' => simp [Node.staging, Node.has, hs'] at hs
  | staging hd hs' => simp [Node.draft, Node.has, hd]
  | published hd hs' hstamp => simp [Node.draft, Node.has, hd]

theorem published_of_not (h : n.Sound calls) (hd : n.draft = false) (hs : n.staging = false) :
    n.published := by
  cases h.kind with
  | draft hd' hs' => simp [Node.draft, Node.has, hd'] at hd
  | staging hd' hs' => simp [Node.staging, Node.has, hs'] at hs
  | published hd' hs' hstamp => simp [Node.published, Node.has, hd', hs']

theorem rid (h : n.Sound calls) : n.props .rid = .str n.rid := by
  obtain ⟨call, hcall, hd⟩ := h.descends
  simp only [Node.rid, hd.rid]

/-- A rid belongs to one label. -/
theorem label_eq (h : n.Sound calls) (h' : m.Sound calls) (hrid : n.props .rid = m.props .rid) :
    n.label = m.label := by
  obtain ⟨call, hcall, hd⟩ := h.descends
  obtain ⟨call', hcall', hd'⟩ := h'.descends
  rw [hd.rid, hd'.rid] at hrid
  exact label_of_generateRid (Value.str.inj hrid)

/-- No node carries a stamp that is still to be drawn. -/
theorem not_stamped (h : n.Sound calls) {ctx : Ctx} (hctx : ∀ call ∈ calls, call.ctx.uuid ≠ ctx.uuid) :
    n.stamped ctx.snapshotId = false := by
  rcases h.stamp with hnull | ⟨call, hcall, hstr⟩
  · simp [Node.stamped, Node.has, hnull]
  · refine decide_eq_false fun he => hctx call hcall ?_
    rw [hstr] at he
    exact snapshotId_injective (Value.str.inj he)

end Node.Sound

/-! ## Every command keeps nodes sound -/

theorem created_stamp {call : Call} {label : Label} {d : Dict} (ha : call.op.Admitted)
    (h : call.newNode = some (label, d)) : Props.update (fun _ => .null) d .snapshotId = .null := by
  obtain ⟨ctx, op⟩ := call
  cases op with
  | create type props =>
    cases h
    have hown : (newEntityProps ctx type.label).lookup .snapshotId = some .null := rfl
    have hl : (serializeForNeo4j (Dict.update props (newEntityProps ctx type.label))).lookup .snapshotId =
        some .null := by
      rw [serializeForNeo4j_lookup (by decide), Dict.lookup_update_of_some hown]
    simp only [Props.update, hl, Option.getD_some]
  | createPropertyType parentRid parentLabel props =>
    cases h
    refine Props.update_of_notMem ?_
    rw [serializeForNeo4j_keys]
    refine Dict.notMem_keys_update ?_ (by simp [newPropertyProps, Dict.keys])
    exact ha.2.notMem (by decide) .snapshotId (by decide)
  | _ => cases h

theorem sound_created {calls : List Call} {call : Call} (ha : call.op.Admitted) {label : Label} {d : Dict}
    (h : call.newNode = some (label, d)) (id : ℕ)
    (hd : (⟨id, label, Props.update (fun _ => .null) d⟩ : Node).Descends calls) :
    (⟨id, label, Props.update (fun _ => .null) d⟩ : Node).Sound calls := by
  obtain ⟨hrid, htenant, hdraft, hstaging, hactive⟩ := lookup_newNode h
  exact ⟨hd, .draft (by simp [Props.update, hdraft]) (by simp [Props.update, hstaging]),
    .inl (by simp [Props.update, hactive]), .inl (created_stamp ha h)⟩

theorem sound_clone {calls : List Call} {source : Node} (hs : source.Sound calls) {ctx : Ctx} {label : Label}
    {d : Dict} (h : ClonedFrom ctx source d) (id : ℕ)
    (hd : (⟨id, label, source.props.update d⟩ : Node).Descends calls) :
    (⟨id, label, source.props.update d⟩ : Node).Sound calls := by
  refine ⟨hd, .draft (by simp [Props.update, h.isDraft]) (by simp [Props.update, h.isStaging]), ?_, ?_⟩
  · rcases h.isActive with hnone | hfalse
    · simpa [Props.update, hnone] using hs.isActive
    · exact .inr (by simp [Props.update, hfalse])
  · simp only [Props.update_of_notMem h.snapshotId]
    exact hs.stamp

theorem sound_plain {calls : List Call} {n : Node} (hn : n.Sound calls) {d : Dict}
    (hd : (n.set d).Descends calls) (h : ∀ f ∈ versionFields, f ∉ d.keys) : (n.set d).Sound calls := by
  refine hn.congr hd fun f hf => Props.update_of_notMem (h f ?_)
  revert hf
  simp only [versionFields, List.mem_cons, List.not_mem_nil, or_false]
  rintro (rfl | rfl | rfl | rfl) <;> simp

theorem sound_isActive {calls : List Call} {n : Node} (hn : n.Sound calls) {b : Bool}
    (hd : (n.set [(.isActive, .bool b)]).Descends calls) : (n.set [(.isActive, .bool b)]).Sound calls := by
  have hframe : ∀ f ∈ [Field.isDraft, .isStaging, .snapshotId],
      (n.set [(.isActive, .bool b)]).props f = n.props f := by
    intro f hf
    refine Props.update_of_notMem ?_
    revert hf
    simp only [List.mem_cons, List.not_mem_nil, or_false]
    rintro (rfl | rfl | rfl) <;> simp [Dict.keys]
  have h1 := hframe .isDraft (by decide)
  have h2 := hframe .isStaging (by decide)
  have h3 := hframe .snapshotId (by decide)
  refine ⟨hd, ?_, ?_, by rw [h3]; exact hn.stamp⟩
  · cases hn.kind with
    | draft hd hs => exact .draft (h1.trans hd) (h2.trans hs)
    | staging hd hs => exact .staging (h1.trans hd) (h2.trans hs)
    | published hd hs hstamp => exact .published (h1.trans hd) (h2.trans hs) (by rw [h3]; exact hstamp)
  · cases b
    · exact .inr rfl
    · exact .inl rfl

/-- A Staging version that is promoted gets the stamp of the commit. -/
theorem sound_promoted {calls : List Call} {call : Call} (hcall : call ∈ calls) {n : Node}
    (hn : n.Sound calls) (hs : n.staging)
    (hd : (n.set [(.isStaging, .bool false), (.snapshotId, .str call.ctx.snapshotId)]).Descends calls) :
    (n.set [(.isStaging, .bool false), (.snapshotId, .str call.ctx.snapshotId)]).Sound calls := by
  have hstamp : Minted calls (.str call.ctx.snapshotId) := ⟨call, hcall, rfl⟩
  refine ⟨hd, ?_, hn.isActive, .inr hstamp⟩
  cases hn.kind with
  | draft hd' hs' => simp [Node.staging, Node.has, hs'] at hs
  | staging hd' hs' => exact .published hd' rfl hstamp
  | published hd' hs' hstamp' => simp [Node.staging, Node.has, hs'] at hs

/-- Every command of an admitted call keeps the nodes sound. -/
theorem keeps_sound {calls : List Call} {call : Call} (hcall : call ∈ calls) (ha : call.op.Admitted)
    {c : Cmd} (g : Graph) (h : Issues (Node.Sound calls) call c) :
    (c.effect g).Keeps (Node.Sound calls) := by
  have hissues : Issues (Node.Descends calls) call c := h.mono fun n hn => hn.descends
  have hdescends := keeps_descends hcall g hissues
  cases h with
  | new hnew =>
    simp only [Cmd.effect] at hdescends ⊢
    split at hdescends
    · rename_i hs
      rw [if_pos hs]
      exact sound_created ha hnew _ hdescends
    · rename_i hs
      rw [if_neg hs]
      trivial
  | clone good key guarded marks =>
    simp only [Cmd.effect] at hdescends ⊢
    split at hdescends
    · rename_i hs
      rw [if_pos hs]
      exact sound_clone good (marks ha) _ hdescends
    · rename_i hs
      rw [if_neg hs]
      trivial
  | edit guarded plain =>
    simp only [Cmd.effect] at hdescends ⊢
    split at hdescends
    · rename_i hs
      rw [if_pos hs]
      exact fun n hn hp => sound_plain hn (hdescends n hn.descends hp) (plain ha)
    · rename_i hs
      rw [if_neg hs]
      trivial
  | cascade content =>
    simp only [Cmd.effect] at hdescends ⊢
    split at hdescends
    · rename_i hs
      rw [if_pos hs]
      exact fun n hn hp => sound_plain hn (hdescends n hn.descends hp) (cascade_plain content)
    · rename_i hs
      rw [if_neg hs]
      trivial
  | submit => exact fun n hn hp => ⟨hdescends n hn.descends hp, .staging rfl rfl, hn.isActive, hn.stamp⟩
  | unstage => exact fun n hn hp => ⟨hdescends n hn.descends hp, .draft rfl rfl, hn.isActive, hn.stamp⟩
  | deactivateStaged | deactivateSnapshot | reactivateSnapshot =>
    exact fun n hn hp => sound_isActive hn (hdescends n hn.descends hp)
  | @promoteStaged ctx m =>
    intro n hn hp
    have hstaging : n.staging := (Bool.and_eq_true_iff.mp hp).2
    exact sound_promoted hcall hn hstaging (hdescends n hn.descends hp)
  | dropDraft | dropStaging | belongsTo | basedOn | cleanupDeleted | publish | repoint => trivial
  | quiet hq => cases c <;> trivial

/-! ## Sound stores -/

structure World.Sound (calls : List Call) (w : World) : Prop where
  nodes : ∀ n ∈ w.graph.nodes, n.Sound calls
  snapshots : ∀ s ∈ w.snapshots, ∃ call ∈ calls, s.snapshotId = call.ctx.snapshotId

theorem World.Sound.mono {calls calls' : List Call} {w : World} (h : w.Sound calls)
    (hsub : ∀ call ∈ calls, call ∈ calls') : w.Sound calls' where
  nodes := fun n hn => (h.nodes n hn).mono hsub
  snapshots := by
    intro s hs
    obtain ⟨call, hcall, hid⟩ := h.snapshots s hs
    exact ⟨call, hsub call hcall, hid⟩

theorem PgWrite.PointsTo.snapshots {tenantId snapshotId : String} {row : PgWrite}
    (h : row.PointsTo tenantId snapshotId) (w : World) : (row.apply w).snapshots = w.snapshots := by
  rcases h with rfl | rfl <;> rfl

/-- The rows a command adds are those of a commit. -/
theorem exec_snapshots {G : Node → Prop} {call : Call} {c : Cmd} (hc : Issues G call c) (w : World) :
    (exec c w).2.snapshots = w.snapshots ∨ ∃ snapshot, snapshot.snapshotId = call.ctx.snapshotId ∧
      (exec c w).2.snapshots = snapshot :: w.snapshots := by
  cases hc with
  | new | clone | edit | submit | cascade | unstage => simp only [exec]; split <;> exact .inl rfl
  | dropDraft | dropStaging | cleanupDeleted | belongsTo | basedOn | deactivateStaged | promoteStaged
  | deactivateSnapshot | reactivateSnapshot => exact .inl rfl
  | @publish ctx m snapshot row id tenant points =>
    simp only [exec]
    split
    · exact .inl rfl
    · exact .inr ⟨snapshot, id, points.snapshots _⟩
  | repoint points =>
    simp only [exec]
    split
    · exact .inl rfl
    · exact .inl (points.snapshots w)
  | quiet hq => exact .inl (exec_quiet hq w).2.1

theorem exec_sound {calls : List Call} {call : Call} (hcall : call ∈ calls) (ha : call.op.Admitted) {c : Cmd}
    {w : World} (hc : Issues (Node.Sound calls) call c) (h : w.Sound calls) :
    (exec c w).2.Sound calls where
  nodes := by
    rw [exec_nodes]
    exact (keeps_sound hcall ha w.graph hc).mem h.nodes
  snapshots := by
    intro s hs
    obtain he | ⟨snapshot, hid, he⟩ := exec_snapshots hc w
    · rw [he] at hs
      exact h.snapshots s hs
    · rw [he] at hs
      rcases List.mem_cons.mp hs with rfl | hs
      · exact ⟨call, hcall, hid⟩
      · exact h.snapshots s hs

theorem env_sound {calls : List Call} (v : Env) {w : World} (h : w.Sound calls) :
    (v.apply w).Sound calls where
  nodes := fun n hn => h.nodes n ((v.apply_nodes w).mem_iff.mp hn)
  snapshots := by
    rw [Env.apply_snapshots]
    exact h.snapshots

theorem empty_sound (calls : List Call) : World.empty.Sound calls :=
  ⟨fun _ hn => (nomatch hn), fun _ hs => (nomatch hs)⟩

/-- All along an interleaving the stores are sound. -/
theorem concurrent_sound {es : List CallEvent} (ha : ∀ call ∈ started es, call.op.Admitted) :
    (runFrom concurrent.next noCalls es).state.Sound (started es) := by
  refine (concurrent_holds (J := World.Sound (started es)) (fun w hw => hw.nodes) ?_ ?_ ?_).inv
  · intro call hcall c w hc hw
    exact exec_sound hcall (ha call hcall) hc hw
  · intro v w hw
    exact env_sound v hw
  · exact empty_sound _

/-- The same after a call that ran alone. -/
theorem after_sound {calls : List Call} {call : Call} (hcall : call ∈ calls) (ha : call.op.Admitted)
    {w : World} (h : w.Sound calls) : (after call w).Sound calls :=
  after_inv (G := Node.Sound calls) (fun _ hw => hw.nodes)
    (fun _ _ hc hw => exec_sound hcall ha hc hw) h

end Lingshu.Ontology
