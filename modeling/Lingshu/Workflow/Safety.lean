import Lingshu.Function.Actions
import Lingshu.Workflow.Service
import Mathlib.Data.List.Perm.Subperm

/-! # The level of a workflow against the levels of its nodes

The stored level is the one with the highest rank; a name outside of the four ranks lowest, while the safety check
asks for confirmation there. -/
namespace Lingshu.Workflow
open Json Lingshu.Function
set_option autoImplicit false

variable {px : Pydantic} {levels : List String} {level : String}

/-! ## The computed level -/

/-- The highest rank, 0 when there is no level. -/
def maxRank (levels : List String) : ℕ := ((levels.map rank).max?).getD 0

theorem rank_cases (level : String) :
    (level = "SAFETY_NON_IDEMPOTENT" ∧ rank level = 2) ∨ (level = "SAFETY_CRITICAL" ∧ rank level = 3) ∨
      (level ≠ "SAFETY_NON_IDEMPOTENT" ∧ level ≠ "SAFETY_CRITICAL" ∧ rank level ≤ 1) := by
  by_cases hidempotent : level = "SAFETY_NON_IDEMPOTENT"
  · exact .inl ⟨hidempotent, by subst hidempotent; rfl⟩
  by_cases hcritical : level = "SAFETY_CRITICAL"
  · exact .inr (.inl ⟨hcritical, by subst hcritical; rfl⟩)
  refine .inr (.inr ⟨hidempotent, hcritical, ?_⟩)
  simp only [rank, safetyLevelOrder, Assoc.lookup_cons, hidempotent, hcritical, if_false, List.lookup_nil]
  split <;> [decide; (split <;> decide)]

theorem rank_le_three (level : String) : rank level ≤ 3 := by
  obtain ⟨-, h⟩ | ⟨-, h⟩ | ⟨-, -, h⟩ := rank_cases level <;> omega

theorem maxRank_le_iff {n : ℕ} : maxRank levels ≤ n ↔ ∀ level ∈ levels, rank level ≤ n := by
  unfold maxRank
  cases hmax : (levels.map rank).max? with
  | none =>
    rw [List.max?_eq_none_iff, List.map_eq_nil_iff] at hmax
    subst hmax
    simp
  | some r =>
    rw [Option.getD_some, List.max?_le_iff hmax, List.forall_mem_map]

theorem maxRank_mono {levels' : List String} (h : levels ⊆ levels') : maxRank levels ≤ maxRank levels' :=
  maxRank_le_iff.mpr fun _ hlevel => maxRank_le_iff.mp Nat.le.refl _ (h hlevel)

theorem computeSafetyLevel_eq (levels : List String) :
    computeSafetyLevel levels = (safetyLevelsByRank.lookup (maxRank levels)).getD "SAFETY_READ_ONLY" := by
  unfold computeSafetyLevel maxRank
  cases (levels.map rank).max? <;> rfl

theorem rank_computeSafetyLevel (levels : List String) : rank (computeSafetyLevel levels) = maxRank levels := by
  have hle : maxRank levels ≤ 3 := maxRank_le_iff.mpr fun level _ => rank_le_three level
  rw [computeSafetyLevel_eq]
  have hnames : ∀ n < 4, rank ((safetyLevelsByRank.lookup n).getD "SAFETY_READ_ONLY") = n := by decide
  exact hnames _ (by omega)

/-- The computed level is one of the four names. -/
theorem computeSafetyLevel_known (levels : List String) : computeSafetyLevel levels ∈ safetyLevelOrder.keys := by
  have hle : maxRank levels ≤ 3 := maxRank_le_iff.mpr fun level _ => rank_le_three level
  rw [computeSafetyLevel_eq]
  have hnames : ∀ n < 4, (safetyLevelsByRank.lookup n).getD "SAFETY_READ_ONLY" ∈ safetyLevelOrder.keys := by decide
  exact hnames _ (by omega)

/-! ## The safety check -/

/-- The check asks for confirmation. -/
def RequiresConfirmation (outputs sideEffects : List (Assoc Value)) (level : String) : Prop :=
  ∃ decision, check (.str level) (.list (outputs.map .dict)) (.list (sideEffects.map .dict)) false = .ok decision ∧
    decision.requiresConfirmation = true

theorem affectedOutputs_ok (outputs : List (Assoc Value)) :
    ∃ affected, affectedOutputs (outputs.map .dict) = .ok affected := by
  induction outputs with
  | nil => exact ⟨[], rfl⟩
  | cons o outputs ih =>
    obtain ⟨affected, ih⟩ := ih
    rw [List.map_cons]
    cases hwriteback : ((o.lookup "writeback").getD (.bool false)).truthy with
    | true => exact ⟨_ :: affected, by simp [affectedOutputs, Value.get, ih, hwriteback, bind, Except.bind]; rfl⟩
    | false => exact ⟨affected, by simp [affectedOutputs, Value.get, ih, hwriteback, bind, Except.bind]⟩

theorem requiresConfirmation_iff {outputs sideEffects : List (Assoc Value)} :
    RequiresConfirmation outputs sideEffects level ↔ Value.str level ∉ directExecuteLevels := by
  obtain ⟨affected, haffected⟩ := affectedOutputs_ok outputs
  by_cases hdirect : Value.str level ∈ directExecuteLevels
  · refine iff_of_false (fun ⟨decision, hcheck, hrequires⟩ => ?_) (not_not.mpr hdirect)
    have hdecision : check (.str level) (.list (outputs.map .dict)) (.list (sideEffects.map .dict)) false =
        .ok { requiresConfirmation := false } := if_pos hdirect
    rw [hdecision] at hcheck
    cases hcheck
    cases hrequires
  · refine iff_of_true ?_ hdirect
    simp only [RequiresConfirmation, check, Bool.false_eq_true, if_false, Value.key, Value.elems, if_neg hdirect,
      haffected, bind, Except.bind]
    exact ⟨_, rfl, rfl⟩

/-- A level that is guarded whatever the table of ranks says. -/
def Dangerous (level : String) : Prop := level = "SAFETY_NON_IDEMPOTENT" ∨ level = "SAFETY_CRITICAL"

instance (level : String) : Decidable (Dangerous level) :=
  inferInstanceAs (Decidable (level = "SAFETY_NON_IDEMPOTENT" ∨ level = "SAFETY_CRITICAL"))

theorem dangerous_iff_rank : Dangerous level ↔ 2 ≤ rank level := by
  obtain ⟨h, hrank⟩ | ⟨h, hrank⟩ | ⟨hidempotent, hcritical, hrank⟩ := rank_cases level
  · exact iff_of_true (.inl h) (by omega)
  · exact iff_of_true (.inr h) (by omega)
  · exact iff_of_false (fun h => h.elim hidempotent hcritical) (by omega)

theorem Dangerous.not_direct (h : Dangerous level) : Value.str level ∉ directExecuteLevels := by
  obtain rfl | rfl := h <;> decide

theorem dangerous_of_known (hknown : level ∈ safetyLevelOrder.keys) :
    Dangerous level ↔ Value.str level ∉ directExecuteLevels := by
  have hall : ∀ level ∈ safetyLevelOrder.keys,
      (level = "SAFETY_NON_IDEMPOTENT" ∨ level = "SAFETY_CRITICAL") ↔ Value.str level ∉ directExecuteLevels := by decide
  exact hall level hknown

/-- The check asks for the computed level when one of the levels is dangerous. -/
theorem requires_computed_iff {outputs sideEffects : List (Assoc Value)} :
    RequiresConfirmation outputs sideEffects (computeSafetyLevel levels) ↔ ∃ level ∈ levels, Dangerous level := by
  calc RequiresConfirmation outputs sideEffects (computeSafetyLevel levels)
    _ ↔ Dangerous (computeSafetyLevel levels) := by
      rw [requiresConfirmation_iff, dangerous_of_known (computeSafetyLevel_known levels)]
    _ ↔ ¬maxRank levels ≤ 1 := by
      rw [dangerous_iff_rank, rank_computeSafetyLevel]
      omega
    _ ↔ ∃ level ∈ levels, Dangerous level := by
      simp only [maxRank_le_iff, dangerous_iff_rank, not_forall, exists_prop, Nat.not_le]
      rfl

/-- The levels on which the two tables agree: all of them run directly, or one is dangerous. -/
def Plain (levels : List String) : Prop :=
  (∃ level ∈ levels, Dangerous level) ∨ ∀ level ∈ levels, Value.str level ∈ directExecuteLevels

instance (levels : List String) : Decidable (Plain levels) :=
  inferInstanceAs (Decidable
    ((∃ level ∈ levels, Dangerous level) ∨ ∀ level ∈ levels, Value.str level ∈ directExecuteLevels))

theorem guarded_levels_iff {outputs sideEffects : List (Assoc Value)} :
    (RequiresConfirmation outputs sideEffects (computeSafetyLevel levels) ↔
      ∃ level ∈ levels, RequiresConfirmation outputs sideEffects level) ↔ Plain levels := by
  rw [requires_computed_iff, Plain]
  simp only [requiresConfirmation_iff]
  constructor
  · intro h
    by_cases hdirect : ∀ level ∈ levels, Value.str level ∈ directExecuteLevels
    · exact .inr hdirect
    · push Not at hdirect
      exact .inl (h.mpr hdirect)
  · rintro (⟨level, hlevel, hdangerous⟩ | hdirect)
    · exact iff_of_true ⟨level, hlevel, hdangerous⟩ ⟨level, hlevel, hdangerous.not_direct⟩
    · refine iff_of_false (fun ⟨level, hlevel, hdangerous⟩ => ?_) fun ⟨level, hlevel, h⟩ => h (hdirect level hlevel)
      exact hdangerous.not_direct (hdirect level hlevel)

/-! ## Definitions -/

/-- The levels of the nodes of a definition. -/
def levelsOf (px : Pydantic) (nodes : List Value) : List String :=
  nodes.filterMap fun v => (px.node v).bind nodeLevel

theorem levelsOf_eq {nodes : List Value} {parsed : List WorkflowNodeSchema} (h : nodes.mapM px.node = some parsed) :
    parsed.filterMap nodeLevel = levelsOf px nodes := by
  calc parsed.filterMap nodeLevel
    _ = (parsed.map some).filterMap fun n => n.bind nodeLevel := by
      rw [List.filterMap_map]
      rfl
    _ = levelsOf px nodes := by
      rw [← mapM_eq_some.mp h, List.filterMap_map]
      rfl

/-- pydantic accepts the definition. -/
def Valid (px : Pydantic) (definition : StoredDefinition) : Prop :=
  (∀ v ∈ definition.nodes, ∃ node, px.node v = some node) ∧ ∀ v ∈ definition.edges, ∃ edge, px.edge v = some edge

theorem recompute_iff {definition : StoredDefinition} :
    recomputeSafetyLevel px definition = .ok level ↔
      Valid px definition ∧ level = computeSafetyLevel (levelsOf px definition.nodes) := by
  rw [Valid, ← mapM_isSome, ← mapM_isSome, recomputeSafetyLevel, modelValidate]
  cases hnodes : definition.nodes.mapM px.node with
  | none => simp [bind, Except.bind]
  | some nodes =>
    cases definition.edges.mapM px.edge with
    | none => simp [bind, Except.bind]
    | some edges =>
      rw [← levelsOf_eq hnodes]
      simp [bind, Except.bind, pure, Except.pure, eq_comm]

theorem Valid.perm {nodes nodes' edges : List Value} (h : Valid px ⟨nodes, edges⟩) (hperm : nodes'.Perm nodes) :
    Valid px ⟨nodes', edges⟩ := ⟨fun v hv => h.1 v (hperm.mem_iff.mp hv), h.2⟩

theorem levelsOf_subset {nodes nodes' : List Value} (h : nodes ⊆ nodes') : levelsOf px nodes ⊆ levelsOf px nodes' := by
  intro level hlevel
  obtain ⟨v, hv, hnode⟩ := List.mem_filterMap.mp hlevel
  exact List.mem_filterMap.mpr ⟨v, h hv, hnode⟩

theorem computeSafetyLevel_congr {levels' : List String} (h : levels ⊆ levels') (h' : levels' ⊆ levels) :
    computeSafetyLevel levels = computeSafetyLevel levels' := by
  have hrank : maxRank levels = maxRank levels' := Nat.le_antisymm (maxRank_mono h) (maxRank_mono h')
  rw [computeSafetyLevel_eq, computeSafetyLevel_eq, hrank]

/-! ## Runs -/

/-- The stored level is the one of the stored definition. -/
def Computed (px : Pydantic) (w : Workflow) : Prop := recomputeSafetyLevel px w.definition = .ok w.safetyLevel

theorem computed_create {tenantId rid : String} {new : NewWorkflow} {table : List Workflow}
    (h : ∀ w ∈ table, Computed px w) : ∀ w ∈ (createWorkflow px tenantId rid new table).2, Computed px w := by
  unfold createWorkflow
  cases hsafety : recomputeSafetyLevel px ⟨new.nodes, new.edges⟩ with
  | error e => exact h
  | ok safety =>
    simp only
    split
    · exact h
    · intro w hw
      obtain hw | hw := List.mem_append.mp hw
      · exact h w hw
      · obtain rfl := List.mem_singleton.mp hw
        exact hsafety

/-- The columns that an update sets keep the level that of the definition. -/
theorem computed_apply {w : Workflow} {fields : Fields} (h : Computed px w)
    (hfields : ∀ definition safety, fields.definition = some (definition, safety) →
      recomputeSafetyLevel px definition = .ok safety) : Computed px (fields.apply w) := by
  cases hdefinition : fields.definition with
  | none =>
    have hsame : (fields.apply w).definition = w.definition ∧ (fields.apply w).safetyLevel = w.safetyLevel := by
      simp [Fields.apply, hdefinition]
    rw [Computed, hsame.1, hsame.2]
    exact h
  | some d =>
    have hnew : (fields.apply w).definition = d.1 ∧ (fields.apply w).safetyLevel = d.2 := by
      simp [Fields.apply, hdefinition]
    rw [Computed, hnew.1, hnew.2]
    exact hfields d.1 d.2 hdefinition

theorem rebuild_computed {w : Workflow} {updates : WorkflowUpdates} {built : Option (StoredDefinition × String)}
    (h : rebuild px w updates = .ok built) :
    ∀ definition safety, built = some (definition, safety) → recomputeSafetyLevel px definition = .ok safety := by
  rintro definition safety rfl
  unfold rebuild at h
  split at h
  · simp only at h
    split at h
    · cases h
    next hsafety =>
      cases h
      exact hsafety
  · cases h

theorem computed_update {tenantId rid : String} {updates : WorkflowUpdates} {table : List Workflow}
    (h : ∀ w ∈ table, Computed px w) : ∀ w ∈ (updateWorkflow px tenantId rid updates table).2, Computed px w := by
  unfold updateWorkflow
  cases getByRid table rid tenantId with
  | none => exact h
  | some workflow =>
    dsimp only
    cases hbuilt : rebuild px workflow updates with
    | error e => exact h
    | ok definition =>
      intro w hw
      have hw : w ∈ updateFields table rid tenantId {
          displayName := updates.displayName
          description := updates.description
          isActive := updates.status.map (· = "active")
          definition := definition } := by
        simp only at hw
        split at hw <;> exact hw
      obtain ⟨old, hold, rfl⟩ := List.mem_map.mp hw
      split
      · exact computed_apply (h old hold) (rebuild_computed hbuilt)
      · exact h old hold

theorem computed_delete {tenantId rid : String} {table : List Workflow} (h : ∀ w ∈ table, Computed px w) :
    ∀ w ∈ (deleteWorkflow tenantId rid table).2, Computed px w := by
  unfold deleteWorkflow
  cases getByRid table rid tenantId with
  | none => exact h
  | some _ => exact fun w hw => h w (List.mem_filter.mp hw).1

/-- After every sequence of calls the stored levels are those of the stored definitions. -/
theorem computed_calls (px : Pydantic) (cs : List Call) : ∀ w ∈ calls px cs, Computed px w := by
  have hfrom : ∀ table : List Workflow, (∀ w ∈ table, Computed px w) →
      ∀ w ∈ cs.foldl (call px) table, Computed px w := by
    induction cs with
    | nil => exact fun _ h => h
    | cons c cs ih =>
      intro table h
      refine ih _ ?_
      cases c with
      | create => exact computed_create h
      | update => exact computed_update h
      | delete => exact computed_delete h
  exact hfrom [] fun w hw => absurd hw List.not_mem_nil

/-! ## Guarded workflows -/

/-- What the claim asks of a stored workflow. -/
structure Guarded (px : Pydantic) (w : Workflow) : Prop where
  computed : Computed px w
  permuted : ∀ nodes, nodes.Perm w.definition.nodes →
    recomputeSafetyLevel px ⟨nodes, w.definition.edges⟩ = .ok w.safetyLevel
  added : ∀ nodes level, w.definition.nodes.Subperm nodes →
    recomputeSafetyLevel px ⟨nodes, w.definition.edges⟩ = .ok level → rank w.safetyLevel ≤ rank level
  checked : ∀ outputs sideEffects, RequiresConfirmation outputs sideEffects w.safetyLevel ↔
    ∃ level ∈ levelsOf px w.definition.nodes, RequiresConfirmation outputs sideEffects level

/-- A workflow is as guarded as its nodes when, and only when, its nodes run directly by the check's own list or one of
them is dangerous. -/
theorem guarded_iff (px : Pydantic) (cs : List Call) (w : Workflow) (hw : w ∈ calls px cs) :
    Guarded px w ↔ Plain (levelsOf px w.definition.nodes) := by
  have hcomputed := computed_calls px cs w hw
  obtain ⟨hvalid, hlevel⟩ := recompute_iff.mp hcomputed
  constructor
  · intro h
    have hchecked := h.checked [] []
    rw [hlevel] at hchecked
    exact guarded_levels_iff.mp hchecked
  · intro hplain
    refine ⟨hcomputed, fun nodes hperm => ?_, fun nodes level hmore hnew => ?_, fun outputs sideEffects => ?_⟩
    · refine recompute_iff.mpr ⟨hvalid.perm hperm, hlevel.trans ?_⟩
      exact computeSafetyLevel_congr (levelsOf_subset hperm.symm.subset) (levelsOf_subset hperm.subset)
    · rw [hlevel, (recompute_iff.mp hnew).2, rank_computeSafetyLevel, rank_computeSafetyLevel]
      exact maxRank_mono (levelsOf_subset hmore.subset)
    · rw [hlevel]
      exact guarded_levels_iff.mpr hplain

/-- pydantic on nodes and edges that give their required fields and mappings. -/
def bareFields : Pydantic where
  node
    | .dict entries =>
      match entries.lookup "node_id", entries.lookup "type", (entries.lookup "input_mappings").getD (.dict []) with
      | some (.str nodeId), some (.str type), .dict mappings =>
        some { nodeId := nodeId, type := type, inputMappings := mappings }
      | _, _, _ => none
    | _ => none
  edge
    | .dict entries =>
      match entries.lookup "source_node_id", entries.lookup "target_node_id" with
      | some (.str source), some (.str target) => some ⟨source, target, none⟩
      | _, _ => none
    | _ => none

/-- A node whose mappings name a level. -/
def levelNode (nodeId level : String) : Value :=
  .dict [("node_id", .str nodeId), ("type", .str "action"), ("input_mappings", .dict [("safety_level", .str level)])]

/-- A workflow of two nodes: one writes, the other has a level that the table lacks. -/
def mixedWorkflow (first second : String) : Workflow where
  rid := "ri.workflow.1"
  tenantId := "t1"
  apiName := "wf"
  displayName := "Workflow"
  description := none
  definition := ⟨[levelNode "a" first, levelNode "b" second], []⟩
  safetyLevel := computeSafetyLevel [first, second]

def createMixed (first second : String) : Call :=
  .create "t1" "ri.workflow.1" ⟨"wf", "Workflow", none, [levelNode "a" first, levelNode "b" second], []⟩

theorem guarded_iff_critical : Guarded bareFields (mixedWorkflow "SAFETY_CRITICAL" "SAFETY_HIGH") :=
  (guarded_iff bareFields [createMixed "SAFETY_CRITICAL" "SAFETY_HIGH"] _ (by decide)).mpr (by decide)

/-- A node with an unknown level asks for confirmation, the workflow that holds it runs directly. -/
theorem unknown_level_unguarded :
    ¬∀ (px : Pydantic) (cs : List Call) (w : Workflow), w ∈ calls px cs → Guarded px w := by
  intro h
  have hguarded := h bareFields [createMixed "SAFETY_READ_ONLY" "SAFETY_HIGH"]
    (mixedWorkflow "SAFETY_READ_ONLY" "SAFETY_HIGH") (by decide)
  have hchecked : RequiresConfirmation [] [] (computeSafetyLevel ["SAFETY_READ_ONLY", "SAFETY_HIGH"]) ↔
      ∃ level ∈ ["SAFETY_READ_ONLY", "SAFETY_HIGH"], RequiresConfirmation [] [] level := hguarded.checked [] []
  exact absurd (guarded_levels_iff.mp hchecked) (by decide)

end Lingshu.Workflow
