import Lingshu.Ontology.ActiveVersions

/-! # What a rollback restores

A rollback activates what carries the target's stamp and deactivates what carries the current one's. The
Active view right after the target's commit consists of the target's own versions and of versions that
earlier snapshots had published and that were still Active. Nothing in a rollback looks at the latter. -/
namespace Lingshu.Ontology
open Json Interaction
set_option autoImplicit false

/-- The contents that the versions of an entity in a snapshot have when they are Active. -/
def World.versionsOf (w : World) (tenantId snapshotId : String) (label : Label) (rid : String) : Set Props :=
  {content | ∃ n ∈ w.graph.nodes, n.keyed label rid tenantId ∧ n.stamped snapshotId ∧
    n.props.update [(.isActive, .bool true)] = content}

/-- `w` is the state right after the commit of the target, `w'` the one before the rollback to it. -/
structure Restorable (tenantId target : String) (w w' : World) : Prop where
  /-- The target's own versions are there, unchanged apart from `is_active`. -/
  own : ∀ label rid, w'.versionsOf tenantId target label rid = w.versionsOf tenantId target label rid
  /-- Versions of earlier snapshots in the target's view are still Active, and not of the current snapshot. -/
  inherited : ∀ n ∈ w.graph.nodes, n.ofTenant tenantId → n.active → n.stamped target = false →
    ∃ m ∈ w'.graph.nodes, m.label = n.label ∧ m.props = n.props ∧
      m.stamped ((w'.pointers tenantId).getD "") = false
  /-- What else is Active, and neither of the target nor of the current snapshot, was in the target's view. -/
  nothingElse : ∀ m ∈ w'.graph.nodes, m.ofTenant tenantId → m.active → m.stamped target = false →
    m.stamped ((w'.pointers tenantId).getD "") = false →
      ∃ n ∈ w.graph.nodes, n.label = m.label ∧ n.props = m.props

section Views
variable {calls : List Call} {n m : Node} {w w' : World} {tenantId target : String}

theorem Node.Sound.keyed (h : n.Sound calls) (ht : n.ofTenant tenantId) : n.keyed n.label n.rid tenantId :=
  Node.keyed_iff.mpr ⟨rfl, h.rid, of_decide_eq_true ht⟩

theorem keyed_of_eq (hlabel : n.label = m.label) (hprops : n.props = m.props) (l : Label) (r t : String) :
    n.keyed l r t = m.keyed l r t := by
  simp only [Node.keyed, Node.has, hlabel, hprops]

theorem active_of_eq (hprops : n.props = m.props) : n.active = m.active := by
  simp only [Node.active, Node.published, Node.has, hprops]

theorem stamped_of_eq (hprops : n.props = m.props) (s : String) : n.stamped s = m.stamped s := by
  simp only [Node.stamped, Node.has, hprops]

/-- An Active node is its content. -/
theorem update_of_active (ha : n.active) : n.props.update [(.isActive, .bool true)] = n.props := by
  simp only [Node.active, Node.has, Bool.and_eq_true, decide_eq_true_eq] at ha
  funext f
  simp only [Props.update_cons, Props.update_nil]
  split
  · rename_i hf
    rw [hf, ha.2]
  · rfl

theorem stamped_of_update {s : String} (h : n.props.update [(.isActive, .bool true)] = m.props) :
    n.stamped s = m.stamped s := by
  rw [← stamped_isActive n (.bool true) s]
  exact stamped_of_eq (n := n.set [(.isActive, .bool true)]) h s

/-- The view after a rollback: the target's versions, and what was Active and is neither of the target nor
of the snapshot that was current. -/
theorem mem_activeView_rolledBack {current : String} (hw : w.Sound calls)
    (hsettled : w.graph.hasUncommittedChanges tenantId = false)
    (hnodes : w'.graph.nodes = w.graph.nodes.map (Graph.rolledBackNode tenantId target current))
    (label : Label) (rid : String) (content : Props) :
    content ∈ w'.activeView tenantId label rid ↔
      content ∈ w.versionsOf tenantId target label rid ∨
      ∃ n ∈ w.graph.nodes, n.keyed label rid tenantId ∧ n.active ∧ n.stamped target = false ∧
        n.stamped current = false ∧ n.props = content := by
  have hstays : ∀ n : Node, n.stamped target = false → n.stamped current = false →
      Graph.rolledBackNode tenantId target current n = n := by
    intro n ht hc
    simp [Graph.rolledBackNode, ht, hc]
  have hrestored : ∀ n : Node, n.ofTenant tenantId → n.stamped target →
      (Graph.rolledBackNode tenantId target current n).props = n.props.update [(.isActive, .bool true)] := by
    intro n ht hs
    rw [Graph.rolledBackNode, ht, hs]
    rfl
  constructor
  · rintro ⟨m, hm, hk, ha, rfl⟩
    rw [hnodes] at hm
    obtain ⟨n, hn, rfl⟩ := List.mem_map.mp hm
    rw [rolledBackNode_keyed] at hk
    have ht := ofTenant_of_keyed hk
    have hp := published_of_settled hw hsettled hn ht
    rw [rolledBackNode_active hp ht] at ha
    cases hs : n.stamped target with
    | true => exact .inl ⟨n, hn, hk, hs, (hrestored n ht hs).symm⟩
    | false =>
      rw [hs, Bool.false_or, Bool.and_eq_true, Bool.not_eq_true'] at ha
      exact .inr ⟨n, hn, hk, ha.1, hs, ha.2, by rw [hstays n hs ha.2]⟩
  · rintro (⟨n, hn, hk, hs, rfl⟩ | ⟨n, hn, hk, ha, hs, hc, rfl⟩)
    · have ht := ofTenant_of_keyed hk
      have hp := published_of_settled hw hsettled hn ht
      refine ⟨_, hnodes ▸ List.mem_map_of_mem hn, (rolledBackNode_keyed n _ _ _).trans hk, ?_, hrestored n ht hs⟩
      rw [rolledBackNode_active hp ht, hs, Bool.true_or]
    · refine ⟨n, ?_, hk, ha, rfl⟩
      rw [hnodes]
      exact List.mem_map.mpr ⟨n, hn, hstays n hs hc⟩

/-- Right after a commit its versions are Active. -/
theorem active_of_promoted (hw : w.Sound calls) (hfresh : ∀ n ∈ w.graph.nodes, n.stamped target = false)
    (hnodes : w'.graph.nodes = w.graph.nodes.filterMap (w.graph.promotedNode tenantId target))
    (hm : m ∈ w'.graph.nodes) (hs : m.stamped target) : m.active := by
  rw [hnodes] at hm
  obtain ⟨n, hn, hnm⟩ := List.mem_filterMap.mp hm
  obtain ⟨_, hstaging, ha, rfl⟩ | ⟨_, rfl⟩ | ⟨_, _, rfl⟩ := Graph.promotedNode_cases (hw.nodes n hn) hnm
  · exact Graph.promoted_active (hw.nodes n hn) hstaging ha
  · rw [stamped_isActive, hfresh n hn] at hs
    cases hs
  · rw [hfresh _ hn] at hs
    cases hs

/-- The view of a state in which the target's versions are Active. -/
theorem mem_activeView_own (hactive : ∀ n ∈ w.graph.nodes, n.stamped target → n.active) (label : Label)
    (rid : String) (content : Props) :
    content ∈ w.activeView tenantId label rid ↔
      content ∈ w.versionsOf tenantId target label rid ∨
      ∃ n ∈ w.graph.nodes, n.keyed label rid tenantId ∧ n.active ∧ n.stamped target = false ∧
        n.props = content := by
  constructor
  · rintro ⟨n, hn, hk, ha, rfl⟩
    cases hs : n.stamped target with
    | true => exact .inl ⟨n, hn, hk, hs, update_of_active ha⟩
    | false => exact .inr ⟨n, hn, hk, ha, hs, rfl⟩
  · rintro (⟨n, hn, hk, hs, rfl⟩ | ⟨n, hn, hk, ha, _, rfl⟩)
    · exact ⟨n, hn, hk, hactive n hn hs, (update_of_active (hactive n hn hs)).symm⟩
    · exact ⟨n, hn, hk, ha, rfl⟩

/-- The target's versions carry its stamp, whatever else has happened to them. -/
theorem stamped_of_mem_versionsOf {label : Label} {rid : String}
    (h : m.props ∈ w.versionsOf tenantId target label rid) : m.stamped target := by
  obtain ⟨n, _, _, hs, hc⟩ := h
  rw [← stamped_of_update hc]
  exact hs

/-- A rollback from `w'` restores the view of `w` exactly when `w'` is as `Restorable` says. -/
theorem view_restored_iff {calls' : List Call} {w'' : World} (hw : w.Sound calls) (hw' : w'.Sound calls')
    (hactive : ∀ n ∈ w.graph.nodes, n.stamped target → n.active)
    (hsettled : w'.graph.hasUncommittedChanges tenantId = false)
    (hnodes : w''.graph.nodes = w'.graph.nodes.map
      (Graph.rolledBackNode tenantId target ((w'.pointers tenantId).getD ""))) :
    (∀ label rid, w''.activeView tenantId label rid = w.activeView tenantId label rid) ↔
      Restorable tenantId target w w' := by
  have hbefore : ∀ l r content, content ∈ w.activeView tenantId l r ↔ _ := mem_activeView_own hactive
  have hafter := mem_activeView_rolledBack hw' hsettled hnodes
  constructor
  · intro hview
    have hmem : ∀ l r content,
        content ∈ w''.activeView tenantId l r ↔ content ∈ w.activeView tenantId l r := by
      intro l r content
      rw [hview l r]
    refine ⟨fun l r => Set.ext fun content => ⟨fun hc => ?_, fun hc => ?_⟩, ?_, ?_⟩
    · obtain ⟨n, _, _, hs, he⟩ := id hc
      rcases (hbefore l r content).mp ((hmem l r content).mp ((hafter l r content).mpr (.inl hc))) with
        hown | ⟨m, _, _, _, hms, rfl⟩
      · exact hown
      · rw [stamped_of_update he, hms] at hs
        cases hs
    · obtain ⟨n, _, _, hs, he⟩ := id hc
      rcases (hafter l r content).mp ((hmem l r content).mpr ((hbefore l r content).mpr (.inl hc))) with
        hown | ⟨m, _, _, _, hms, _, rfl⟩
      · exact hown
      · rw [stamped_of_update he, hms] at hs
        cases hs
    · intro n hn ht ha hs
      have hk := (hw.nodes n hn).keyed ht
      have hin := (hmem n.label n.rid n.props).mpr ⟨n, hn, hk, ha, rfl⟩
      rcases (hafter _ _ _).mp hin with hown | ⟨m, hm, hmk, _, _, hc, he⟩
      · rw [stamped_of_mem_versionsOf hown] at hs
        cases hs
      · exact ⟨m, hm, (Node.keyed_iff.mp hmk).1, he, hc⟩
    · intro m hm ht ha hs hc
      have hk := (hw'.nodes m hm).keyed ht
      have hin := (hafter m.label m.rid m.props).mpr (.inr ⟨m, hm, hk, ha, hs, hc, rfl⟩)
      obtain ⟨n, hn, hnk, _, he⟩ := (hmem _ _ _).mp hin
      exact ⟨n, hn, (Node.keyed_iff.mp hnk).1, he⟩
  · intro hr l r
    refine Set.ext fun content => ?_
    rw [hafter, hbefore, hr.own]
    refine or_congr_right ⟨?_, ?_⟩
    · rintro ⟨m, hm, hk, ha, hs, hc, rfl⟩
      obtain ⟨n, hn, hlabel, hprops⟩ := hr.nothingElse m hm (ofTenant_of_keyed hk) ha hs hc
      refine ⟨n, hn, ?_, ?_, ?_, hprops⟩
      · rw [keyed_of_eq hlabel hprops, hk]
      · rw [active_of_eq hprops, ha]
      · rw [stamped_of_eq hprops, hs]
    · rintro ⟨n, hn, hk, ha, hs, rfl⟩
      obtain ⟨m, hm, hlabel, hprops, hc⟩ := hr.inherited n hn (ofTenant_of_keyed hk) ha hs
      refine ⟨m, hm, ?_, ?_, ?_, hc, hprops⟩
      · rw [keyed_of_eq hlabel hprops, hk]
      · rw [active_of_eq hprops, ha]
      · rw [stamped_of_eq hprops, hs]

end Views

/-! ## Runs -/

/-- The stores after a run of calls. -/
def Serial.ran (es : List SerialEvent) : World := (runFrom Serial.next .empty es).world

theorem Serial.sound_run {es : List SerialEvent} (ha : StepsMeet Serial.next Serial.Admits .empty es) :
    (runFrom Serial.next .empty es).world.Sound (runFrom Serial.next .empty es).calls :=
  steps_inv (J := fun s : Serial => s.world.Sound s.calls) (fun _ _ hs he => sound_world hs he)
    (Ontology.empty_sound []) ha

/-- After any run, a rollback to a snapshot that a commit of the run has made current restores the view of
that commit exactly when the stores before the rollback are `Restorable`. -/
theorem rollback_restores_iff {es es' : List SerialEvent} {ctx ctx' : Ctx} {m : Option String}
    (ha : StepsMeet Serial.next Serial.Admits .empty (es ++ .call ⟨ctx, .commitStaging m⟩ :: es'))
    (htenant : ctx'.tenantId = ctx.tenantId)
    (hcommit : Succeeds ⟨ctx, .commitStaging m⟩ (Serial.ran es))
    (hrollback : Succeeds ⟨ctx', .rollbackToSnapshot ctx.snapshotId⟩
      (Serial.ran (es ++ .call ⟨ctx, .commitStaging m⟩ :: es'))) :
    (∀ label rid,
      (after ⟨ctx', .rollbackToSnapshot ctx.snapshotId⟩
        (Serial.ran (es ++ .call ⟨ctx, .commitStaging m⟩ :: es'))).activeView ctx.tenantId label rid =
      (after ⟨ctx, .commitStaging m⟩ (Serial.ran es)).activeView ctx.tenantId label rid) ↔
    Restorable ctx.tenantId ctx.snapshotId (after ⟨ctx, .commitStaging m⟩ (Serial.ran es))
      (Serial.ran (es ++ .call ⟨ctx, .commitStaging m⟩ :: es')) := by
  obtain ⟨hes, hcall, _⟩ := stepsMeet_append.mp ha
  have hsound := Serial.sound_run hes
  obtain ⟨_, hctx⟩ := hcall _ rfl
  have hlock : (Serial.ran es).redis (.commitLock ctx.tenantId) = none := by
    by_contra hne
    exact (commit_refused (.inl hne)).1 hcommit
  have hstaged : (Serial.ran es).graph.getStagingNodes ctx.tenantId ≠ [] := by
    intro hnone
    exact (commit_refused (.inr hnone)).1 hcommit
  have hpromoted := after_commit_nodes (m := m) hsound hctx hlock hstaged
  have hfresh : ∀ n ∈ (Serial.ran es).graph.nodes, n.stamped ctx.snapshotId = false :=
    fun n hn => (hsound.nodes n hn).not_stamped hctx
  have hrolls : RollsBack (Serial.ran (es ++ .call ⟨ctx, .commitStaging m⟩ :: es')) ctx'.tenantId
      ctx.snapshotId := by
    by_contra hno
    exact (rollback_refused hno).1 hrollback
  obtain ⟨_, hafter⟩ := rollback_accepted hrolls
  rw [htenant] at hrolls hafter
  refine view_restored_iff (Serial.sound_world hsound hcall) (Serial.sound_run ha)
    (fun n hn hs => active_of_promoted hsound hfresh hpromoted hn hs) hrolls.1 ?_
  rw [hafter]
  exact Graph.rolledBack_nodes

/-- A call of the tenant that returns. -/
def Serial.Accepts (tenantId : String) (s : Serial) : SerialEvent → Prop
  | .call call => call.ctx.tenantId = tenantId ∧ Succeeds call s.world
  | .env _ => False

instance Serial.Accepts.decidable (tenantId : String) (s : Serial) :
    ∀ e : SerialEvent, Decidable (s.Accepts tenantId e)
  | .env _ => isFalse id
  | .call call =>
    inferInstanceAs (Decidable (call.ctx.tenantId = tenantId ∧ ((service call).run exec s.world).1.isOk = true))

/-! ## Three snapshots -/

/-- An entity that is created and submitted. -/
def publishFirst : List SerialEvent :=
  [.call ⟨⟨"t", "u", "1", "a"⟩, .create .objectType [(.apiName, .str "Order")]⟩,
    .call ⟨⟨"t", "u", "2", "b"⟩, .submitToStaging .objectType "ri.obj.a"⟩]

/-- A second one, with its commit. -/
def publishSecond : List SerialEvent :=
  [.call ⟨⟨"t", "u", "4", "c"⟩, .create .objectType [(.apiName, .str "Client")]⟩,
    .call ⟨⟨"t", "u", "5", "d"⟩, .submitToStaging .objectType "ri.obj.c"⟩,
    .call ⟨⟨"t", "u", "6", "s2"⟩, .commitStaging none⟩]

def publishThird : List SerialEvent :=
  [.call ⟨⟨"t", "u", "7", "e"⟩, .create .objectType [(.apiName, .str "Invoice")]⟩,
    .call ⟨⟨"t", "u", "8", "f"⟩, .submitToStaging .objectType "ri.obj.e"⟩,
    .call ⟨⟨"t", "u", "9", "s3"⟩, .commitStaging none⟩]

/-- From the second snapshot back to the first. -/
theorem rollback_restores_iff_publishSecond :
    (∀ label rid,
      (after ⟨⟨"t", "u", "10", "g"⟩, .rollbackToSnapshot "ri.snap.s1"⟩ (Serial.ran (publishFirst ++
        .call ⟨⟨"t", "u", "3", "s1"⟩, .commitStaging none⟩ :: publishSecond))).activeView "t" label rid =
      (after ⟨⟨"t", "u", "3", "s1"⟩, .commitStaging none⟩ (Serial.ran publishFirst)).activeView "t" label rid) ↔
    Restorable "t" "ri.snap.s1" (after ⟨⟨"t", "u", "3", "s1"⟩, .commitStaging none⟩ (Serial.ran publishFirst))
      (Serial.ran (publishFirst ++ .call ⟨⟨"t", "u", "3", "s1"⟩, .commitStaging none⟩ :: publishSecond)) :=
  rollback_restores_iff (by decide) rfl (by unfold Succeeds; decide)
    (by unfold Succeeds; decide)

/-- From the third snapshot back to the first: the second one's entity stays Active. -/
theorem rollback_leaves_second : ¬ ∀ (es es' : List SerialEvent) (ctx ctx' : Ctx) (m : Option String),
    StepsMeet Serial.next (fun s e => s.Admits e ∧ s.Accepts ctx.tenantId e) .empty
      (es ++ .call ⟨ctx, .commitStaging m⟩ :: es' ++ [.call ⟨ctx', .rollbackToSnapshot ctx.snapshotId⟩]) →
    ∀ label rid,
      (Serial.ran (es ++ .call ⟨ctx, .commitStaging m⟩ :: es' ++
        [.call ⟨ctx', .rollbackToSnapshot ctx.snapshotId⟩])).activeView ctx.tenantId label rid =
      (Serial.ran (es ++ [.call ⟨ctx, .commitStaging m⟩])).activeView ctx.tenantId label rid := by
  intro h
  have hview := h publishFirst (publishSecond ++ publishThird) ⟨"t", "u", "3", "s1"⟩ ⟨"t", "u", "10", "g"⟩ none
    (by decide) .objectType "ri.obj.c"
  have hnone : ¬ ∃ n ∈ (Serial.ran (publishFirst ++
      [.call ⟨⟨"t", "u", "3", "s1"⟩, .commitStaging none⟩])).graph.nodes,
      n.keyed .objectType "ri.obj.c" "t" ∧ n.active := by decide
  have hsome : ∃ n ∈ (Serial.ran (publishFirst ++ .call ⟨⟨"t", "u", "3", "s1"⟩, .commitStaging none⟩ ::
      (publishSecond ++ publishThird) ++
      [.call ⟨⟨"t", "u", "10", "g"⟩, .rollbackToSnapshot "ri.snap.s1"⟩])).graph.nodes,
      n.keyed .objectType "ri.obj.c" "t" ∧ n.active := by decide
  obtain ⟨n, hn, hk, ha⟩ := hsome
  have hmem : n.props ∈ (Serial.ran (publishFirst ++
      [.call ⟨⟨"t", "u", "3", "s1"⟩, .commitStaging none⟩])).activeView "t" .objectType "ri.obj.c" := by
    rw [← hview]
    exact ⟨n, hn, hk, ha, rfl⟩
  obtain ⟨n', hn', hk', ha', _⟩ := hmem
  exact hnone ⟨n', hn', hk', ha'⟩

end Lingshu.Ontology
