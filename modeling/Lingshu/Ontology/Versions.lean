import Lingshu.Ontology.Identity

/-! # How many Draft and Staging versions an entity has

`submit_to_staging` turns the caller's Drafts into Staging versions without looking for one that is
there already; `_delete_entity` creates a Draft, and `discard_staging` turns nodes into Drafts, without
looking for one either. These are the only steps that can break uniqueness, and the conditions below say
exactly when they do. -/
namespace Lingshu.Ontology
open Json Interaction
set_option autoImplicit false

/-- No entity has two nodes in `q`. -/
def AtMostOne (q : Node → Bool) (w : World) : Prop :=
  ∀ label rid tenantId, w.graph.nodes.countP (fun n => n.keyed label rid tenantId && q n) ≤ 1

theorem atMostOne_env {q : Node → Bool} (v : Env) (w : World) (h : AtMostOne q w) :
    AtMostOne q (v.apply w) := by
  intro label rid tenantId
  rw [(v.apply_nodes w).countP_eq]
  exact h label rid tenantId

theorem AtMostOne.exec {q : Node → Bool} {w : World} (h : AtMostOne q w) {c : Cmd}
    (hc : ∀ label rid tenantId,
      (c.effect w.graph).Shrinks fun n => n.keyed label rid tenantId && q n) :
    AtMostOne q (exec c w).2 := by
  intro label rid tenantId
  rw [exec_nodes]
  exact Nat.le_trans (hc label rid tenantId).countP_le (h label rid tenantId)

theorem atMostOne_of_pairwise {q : Node → Bool} {w : World}
    (h : w.graph.nodes.Pairwise fun n m => (q n && q m) = true → n.props .rid ≠ m.props .rid) :
    AtMostOne q w := by
  intro label rid tenantId
  generalize w.graph.nodes = nodes at h
  induction nodes with
  | nil => exact Nat.zero_le _
  | cons n nodes ih =>
    obtain ⟨hn, hrest⟩ := List.pairwise_cons.mp h
    by_cases hk : (n.keyed label rid tenantId && q n) = true
    · have hzero : nodes.countP (fun n => n.keyed label rid tenantId && q n) = 0 := by
        refine List.countP_eq_zero.mpr fun m hm hkm => ?_
        obtain ⟨hkn, hqn⟩ := Bool.and_eq_true_iff.mp hk
        obtain ⟨hkm, hqm⟩ := Bool.and_eq_true_iff.mp hkm
        refine hn m hm (by simp [hqn, hqm]) ?_
        rw [(Node.keyed_iff.mp hkn).2.1, (Node.keyed_iff.mp hkm).2.1]
      simp only [List.countP_cons, hzero, hk, if_true]
      omega
    · simp only [List.countP_cons, hk]
      exact ih hrest

/-- Writing neither the key nor the fields `q` looks at. -/
theorem shrinks_set_frame {q : Node → Bool} {p : Node → Bool} {d : Dict} (hrid : .rid ∉ d.keys)
    (htenant : .tenantId ∉ d.keys) (hq : ∀ n : Node, q (n.set d) → q n) (label : Label)
    (rid tenantId : String) : (Effect.set p d).Shrinks fun n => n.keyed label rid tenantId && q n := by
  intro n _ h
  simp only [Node.keyed_set hrid htenant, Bool.and_eq_true] at h ⊢
  exact ⟨h.1, hq n h.2⟩

/-! ## Staging -/

/-- The query of `submit_to_staging` that turns Drafts into Staging versions. -/
def submitCmd (ctx : Ctx) (label : Label) (rid : String) : Cmd :=
  .updateNode label rid ctx.tenantId (submitProps ctx) (some true) (some ctx.userId)

/-- A submission finds one Draft of the caller and no Staging version, or no Draft. -/
def SubmitsAlone (p : Calls) (e : CallEvent) : Prop :=
  ∀ ctx label rid, p.issues e = some (⟨ctx, .submitToStaging label rid⟩, submitCmd ctx label rid) →
    p.state.graph.nodes.countP
      (fun n => n.keyed label rid ctx.tenantId && (n.draftOf ctx.userId || n.staging)) ≤ 1

theorem filterOf_draft {label : Label} {rid tenantId userId : String} {n : Node} :
    Graph.filterOf label rid tenantId (some true) none (some userId) n =
      (n.keyed label rid tenantId && n.draftOf userId) := by
  simp [Graph.filterOf, Node.hasOpt, Node.draftOf, Node.draft, Bool.and_assoc]

theorem keyed_unique {l l' : Label} {r r' t t' : String} {n : Node} (h : n.keyed l r t)
    (h' : n.keyed l' r' t') : l' = l ∧ r' = r ∧ t' = t := by
  rw [Node.keyed_iff] at h h'
  refine ⟨h'.1.symm.trans h.1, ?_, ?_⟩
  · exact Value.str.inj (h'.2.1.symm.trans h.2.1)
  · exact Value.str.inj (h'.2.2.symm.trans h.2.2)

/-- The version fields that an admitted request leaves alone. -/
theorem has_set_plain {d : Dict} (h : ∀ f ∈ versionFields, f ∉ d.keys) {f : Field} (hf : f ∈ versionFields)
    (n : Node) (v : Value) : (n.set d).has f v = n.has f v :=
  Node.has_set_of_notMem (h f hf) v

theorem cascade_plain {d : Dict} (h : ∀ f ∈ d.keys, f ∈ cascadeFields) :
    ∀ f ∈ versionFields, f ∉ d.keys :=
  fun f hf hk => cascadeFields_version f (h f hk) hf

/-- No command but a submission's makes a Staging version. -/
theorem staging_shrinks {G : Node → Prop} {call : Call} {c : Cmd} (ha : call.op.Admitted)
    (hc : Issues G call c) (hne : ∀ ctx label rid, call = ⟨ctx, .submitToStaging label rid⟩ →
      c ≠ submitCmd ctx label rid) (g : Graph) (l : Label) (r t : String) :
    (c.effect g).Shrinks fun n => n.keyed l r t && n.staging := by
  have hplain : ∀ {p : Node → Bool} {d : Dict}, (∀ f ∈ versionFields, f ∉ d.keys) →
      (Effect.set p d).Shrinks fun n => n.keyed l r t && n.staging := by
    intro p d h
    refine shrinks_set_frame (h _ (by decide)) (h _ (by decide)) (fun n hn => ?_) l r t
    rwa [Node.staging, has_set_plain h (by decide)] at hn
  cases hc with
  | @new _ label d hnew =>
    refine effect_createNode ?_ trivial
    have hd := (lookup_newNode hnew).2.2.2.1
    simp [Effect.Shrinks, Node.staging, Node.has, Props.update, hd]
  | clone good key guarded marks =>
    refine effect_createNode ?_ trivial
    have hd := (marks ha).isStaging
    simp [Effect.Shrinks, Node.staging, Node.has, Props.update, hd]
  | edit guarded plain => exact effect_updateNode (hplain (plain ha)) trivial
  | cascade content => exact effect_updateNode (hplain (cascade_plain content)) trivial
  | submit => exact absurd rfl (hne _ _ _ rfl)
  | unstage =>
    refine shrinks_set_frame (by simp [unstageProps, Dict.keys]) (by simp [unstageProps, Dict.keys])
      (fun n hn => ?_) l r t
    simp [Node.staging, Node.has, Props.update, unstageProps] at hn
  | promoteStaged =>
    refine shrinks_set_frame (by simp [Dict.keys]) (by simp [Dict.keys]) (fun n hn => ?_) l r t
    simp [Node.staging, Node.has, Props.update] at hn
  | deactivateStaged | deactivateSnapshot | reactivateSnapshot =>
    refine shrinks_set_frame (by simp [Dict.keys]) (by simp [Dict.keys]) (fun n hn => ?_) l r t
    rwa [Node.staging, Node.has_set_of_notMem (by simp [Dict.keys])] at hn
  | dropDraft | dropStaging | belongsTo | basedOn | cleanupDeleted | publish | repoint => trivial
  | quiet hq => cases c <;> trivial

/-- After a submission the Staging versions are the old ones and the caller's Drafts. -/
theorem countP_submitted (w : World) (ctx : Ctx) (label : Label) (rid : String) :
    (exec (submitCmd ctx label rid) w).2.graph.nodes.countP
        (fun n => n.keyed label rid ctx.tenantId && n.staging) =
      w.graph.nodes.countP
        (fun n => n.keyed label rid ctx.tenantId && (n.draftOf ctx.userId || n.staging)) := by
  rw [exec_nodes]
  have hstore : Dict.storable (submitProps ctx) = true := rfl
  simp only [submitCmd, Cmd.effect, hstore, if_true, Effect.on, List.countP_map]
  refine List.countP_congr fun n _ => ?_
  have hstaged : (n.set (submitProps ctx)).staging = true := by
    unfold Node.staging Node.has
    exact decide_eq_true rfl
  have hkey := Node.keyed_set (n := n) (d := submitProps ctx) (by simp [submitProps, Dict.keys])
    (by simp [submitProps, Dict.keys]) label rid ctx.tenantId
  simp only [Function.comp_apply, filterOf_draft]
  by_cases hk : n.keyed label rid ctx.tenantId = true
  · by_cases hd : n.draftOf ctx.userId = true
    · simp [hk, hd, hstaged, hkey]
    · simp [hk, hd]
  · simp [hk]

/-- A submission changes nothing about other entities. -/
theorem submitted_shrinks (g : Graph) (ctx : Ctx) {label l : Label} {rid r t : String}
    (h : ¬(l = label ∧ r = rid ∧ t = ctx.tenantId)) :
    ((submitCmd ctx label rid).effect g).Shrinks fun n => n.keyed l r t && n.staging := by
  intro n hp hn
  rw [filterOf_draft, Bool.and_eq_true] at hp
  rw [Bool.and_eq_true, Node.keyed_set (by simp [submitProps, Dict.keys])
    (by simp [submitProps, Dict.keys])] at hn
  exact absurd (keyed_unique hp.1 hn.1) h

theorem submit_atMostOne_iff {w : World} (ctx : Ctx) (label : Label) (rid : String)
    (h : AtMostOne Node.staging w) :
    AtMostOne Node.staging (exec (submitCmd ctx label rid) w).2 ↔
      w.graph.nodes.countP
        (fun n => n.keyed label rid ctx.tenantId && (n.draftOf ctx.userId || n.staging)) ≤ 1 := by
  constructor
  · intro h'
    rw [← countP_submitted]
    exact h' label rid ctx.tenantId
  · intro hc l r t
    by_cases hk : l = label ∧ r = rid ∧ t = ctx.tenantId
    · obtain ⟨rfl, rfl, rfl⟩ := hk
      rw [countP_submitted]
      exact hc
    · rw [exec_nodes]
      exact Nat.le_trans (submitted_shrinks w.graph ctx hk).countP_le (h l r t)

/-- In an interleaving, no entity ever has two Staging versions exactly when every submission finds
one Draft of the caller and no Staging version of its entity (or no Draft, and fails). -/
theorem one_staging_iff {es : List CallEvent} (ha : ∀ call ∈ started es, call.op.Admitted) :
    (∀ fs, fs <+: es → AtMostOne Node.staging (runFrom concurrent.next noCalls fs).state) ↔
      StepsMeet concurrent.next SubmitsAlone noCalls es := by
  refine concurrent_inv_iff (fun _ _ _ => Nat.zero_le _) atMostOne_env ?_ ?_
  · intro p e call c hcall hc he hJ
    by_cases hs : ∃ ctx label rid, call = ⟨ctx, .submitToStaging label rid⟩ ∧ c = submitCmd ctx label rid
    · obtain ⟨ctx, label, rid, rfl, rfl⟩ := hs
      rw [submit_atMostOne_iff ctx label rid hJ]
      constructor
      · intro h ctx' label' rid' he'
        rw [he] at he'
        cases he'
        exact h
      · intro h
        exact h ctx label rid he
    · refine iff_of_true (hJ.exec fun l r t => staging_shrinks (ha call hcall) hc ?_ p.state.graph l r t) ?_
      · rintro ctx label rid rfl rfl
        exact hs ⟨ctx, label, rid, rfl, rfl⟩
      · intro ctx label rid he'
        rw [he] at he'
        cases he'
        exact absurd ⟨ctx, label, rid, rfl, rfl⟩ hs
  · intro p e he ctx label rid he'
    rw [he] at he'
    cases he'

/-- An entity is edited again after it was submitted, and submitted again. -/
def submitTwice : List CallEvent :=
  inTurn [⟨⟨"t", "u", "1", "a"⟩, .create .objectType [(.apiName, .str "Order")]⟩,
    ⟨⟨"t", "u", "2", "b"⟩, .submitToStaging .objectType "ri.obj.a"⟩,
    ⟨⟨"t", "u", "3", "c"⟩, .acquireLock "ri.obj.a"⟩,
    ⟨⟨"t", "u", "4", "d"⟩, .update .objectType "ri.obj.a" [(.displayName, .str "Orders")]⟩,
    ⟨⟨"t", "u", "5", "e"⟩, .submitToStaging .objectType "ri.obj.a"⟩]

theorem one_staging_iff_submitTwice :
    (∀ fs, fs <+: submitTwice → AtMostOne Node.staging (runFrom concurrent.next noCalls fs).state) ↔
      StepsMeet concurrent.next SubmitsAlone noCalls submitTwice :=
  one_staging_iff (by decide)

theorem two_staging : ¬ ∀ es : List CallEvent, (∀ call ∈ started es, call.op.Admitted) →
    FreshUuids (started es) → AtMostOne Node.staging (runFrom concurrent.next noCalls es).state := by
  intro h
  have h2 := h submitTwice (by decide) (by unfold FreshUuids; decide) .objectType "ri.obj.a" "t"
  revert h2
  decide +kernel

/-! ## Drafts -/

/-- The query of `discard_staging` that turns nodes into Drafts. -/
def unstageCmd (ctx : Ctx) (label : Label) (rid : String) : Cmd :=
  .updateNode label rid ctx.tenantId (unstageProps ctx) none none

/-- A new Draft finds no Draft of its entity. -/
def CreatesFirstDraft (p : Calls) (e : CallEvent) : Prop :=
  ∀ call label base d, p.issues e = some (call, .createNode label base d) → d.storable →
    ∀ rid tenantId, base.update d .rid = .str rid → base.update d .tenantId = .str tenantId →
      ∀ n ∈ p.state.graph.nodes, n.keyed label rid tenantId → n.draft = false

/-- `discard_staging` turns no second node of the entity into a Draft. -/
def UnstagesOne (p : Calls) (e : CallEvent) : Prop :=
  ∀ ctx label rid, p.issues e = some (⟨ctx, .discardStaging label rid⟩, unstageCmd ctx label rid) →
    p.state.graph.nodes.countP (Node.keyed label rid ctx.tenantId) ≤ 1

/-- No other command makes a Draft. -/
theorem draft_shrinks {G : Node → Prop} {call : Call} {c : Cmd} (ha : call.op.Admitted)
    (hc : Issues G call c) (hnew : ∀ label base d, c ≠ .createNode label base d)
    (hne : ∀ ctx label rid, call = ⟨ctx, .discardStaging label rid⟩ → c ≠ unstageCmd ctx label rid)
    (g : Graph) (l : Label) (r t : String) :
    (c.effect g).Shrinks fun n => n.keyed l r t && n.draft := by
  have hplain : ∀ {p : Node → Bool} {d : Dict}, (∀ f ∈ versionFields, f ∉ d.keys) →
      (Effect.set p d).Shrinks fun n => n.keyed l r t && n.draft := by
    intro p d h
    refine shrinks_set_frame (h _ (by decide)) (h _ (by decide)) (fun n hn => ?_) l r t
    rwa [Node.draft, has_set_plain h (by decide)] at hn
  cases hc with
  | new => exact absurd rfl (hnew _ _ _)
  | clone => exact absurd rfl (hnew _ _ _)
  | edit guarded plain => exact effect_updateNode (hplain (plain ha)) trivial
  | cascade content => exact effect_updateNode (hplain (cascade_plain content)) trivial
  | submit =>
    refine shrinks_set_frame (by simp [submitProps, Dict.keys]) (by simp [submitProps, Dict.keys])
      (fun n hn => ?_) l r t
    simp [Node.draft, Node.has, Props.update, submitProps] at hn
  | unstage => exact absurd rfl (hne _ _ _ rfl)
  | promoteStaged | deactivateStaged | deactivateSnapshot | reactivateSnapshot =>
    refine shrinks_set_frame (by simp [Dict.keys]) (by simp [Dict.keys]) (fun n hn => ?_) l r t
    rwa [Node.draft, Node.has_set_of_notMem (by simp [Dict.keys])] at hn
  | dropDraft | dropStaging | belongsTo | basedOn | cleanupDeleted | publish | repoint => trivial
  | quiet hq => cases c <;> trivial

theorem created_draft {G : Node → Prop} {call : Call} {label : Label} {base : Props} {d : Dict}
    (ha : call.op.Admitted) (hc : Issues G call (.createNode label base d)) :
    base.update d .isDraft = .bool true := by
  cases hc with
  | new hnew => simp [Props.update, (lookup_newNode hnew).2.2.1]
  | clone good key guarded marks => simp [Props.update, (marks ha).isDraft]
  | quiet hq => cases hq

theorem create_atMostOne_iff {w : World} {label : Label} {base : Props} {d : Dict}
    (hd : base.update d .isDraft = .bool true) (h : AtMostOne Node.draft w) :
    AtMostOne Node.draft (exec (.createNode label base d) w).2 ↔
      (d.storable → ∀ rid tenantId, base.update d .rid = .str rid →
        base.update d .tenantId = .str tenantId →
          ∀ n ∈ w.graph.nodes, n.keyed label rid tenantId → n.draft = false) := by
  by_cases hs : d.storable = true
  · have hnodes : (exec (.createNode label base d) w).2.graph.nodes =
        w.graph.nodes ++ [⟨w.graph.nextId, label, base.update d⟩] := by
      rw [exec_nodes]
      simp [Cmd.effect, hs, Effect.on]
    have hdraft : (⟨w.graph.nextId, label, base.update d⟩ : Node).draft = true := decide_eq_true hd
    constructor
    · intro h' _ rid tenantId hrid htenant n hn hk
      have hkey : (⟨w.graph.nextId, label, base.update d⟩ : Node).keyed label rid tenantId :=
        Node.keyed_iff.mpr ⟨rfl, hrid, htenant⟩
      have hcount := h' label rid tenantId
      rw [hnodes, List.countP_append, List.countP_cons_of_pos (by simp [hkey, hdraft])] at hcount
      have hzero : w.graph.nodes.countP (fun n => n.keyed label rid tenantId && n.draft) = 0 := by omega
      have hno := List.countP_eq_zero.mp hzero n hn
      simpa [hk] using hno
    · intro hfree l r t
      rw [hnodes, List.countP_append]
      by_cases hkey : (⟨w.graph.nextId, label, base.update d⟩ : Node).keyed l r t = true
      · obtain ⟨rfl, hrid, htenant⟩ := Node.keyed_iff.mp hkey
        have hzero : w.graph.nodes.countP (fun n => n.keyed label r t && n.draft) = 0 := by
          refine List.countP_eq_zero.mpr fun n hn => ?_
          by_cases hk : n.keyed label r t = true
          · simp [hfree hs r t hrid htenant n hn hk]
          · simp [hk]
        rw [hzero, Nat.zero_add]
        exact List.countP_le_length
      · have hlast : List.countP (fun n : Node => n.keyed l r t && n.draft)
            [⟨w.graph.nextId, label, base.update d⟩] = 0 := by simp [hkey]
        rw [hlast]
        exact h l r t
  · have hnodes : (exec (.createNode label base d) w).2.graph.nodes = w.graph.nodes := by
      rw [exec_nodes]
      simp [Cmd.effect, hs, Effect.on]
    have hkeep : AtMostOne Node.draft (exec (.createNode label base d) w).2 := by
      intro l r t
      rw [hnodes]
      exact h l r t
    exact iff_of_true hkeep fun h' => absurd h' hs

theorem filterOf_all {label : Label} {rid tenantId : String} :
    Graph.filterOf label rid tenantId none none none = Node.keyed label rid tenantId := by
  funext n
  simp [Graph.filterOf, Node.hasOpt]

theorem unstaged_draft (n : Node) (ctx : Ctx) : (n.set (unstageProps ctx)).draft = true := by
  unfold Node.draft Node.has
  exact decide_eq_true rfl

theorem unstaged_key (n : Node) (ctx : Ctx) (l : Label) (r t : String) :
    (n.set (unstageProps ctx)).keyed l r t = n.keyed l r t :=
  Node.keyed_set (by simp [unstageProps, Dict.keys]) (by simp [unstageProps, Dict.keys]) l r t

theorem unstage_atMostOne_iff {w : World} (ctx : Ctx) (label : Label) (rid : String)
    (h : AtMostOne Node.draft w) :
    AtMostOne Node.draft (exec (unstageCmd ctx label rid) w).2 ↔
      w.graph.nodes.countP (Node.keyed label rid ctx.tenantId) ≤ 1 := by
  have hnodes : (exec (unstageCmd ctx label rid) w).2.graph.nodes = w.graph.nodes.map fun n =>
      if n.keyed label rid ctx.tenantId then n.set (unstageProps ctx) else n := by
    have hstore : Dict.storable (unstageProps ctx) = true := rfl
    rw [exec_nodes]
    simp only [unstageCmd, Cmd.effect, hstore, if_true, Effect.on, filterOf_all]
  have hself : (exec (unstageCmd ctx label rid) w).2.graph.nodes.countP
      (fun n => n.keyed label rid ctx.tenantId && n.draft) =
        w.graph.nodes.countP (Node.keyed label rid ctx.tenantId) := by
    rw [hnodes, List.countP_map]
    refine List.countP_congr fun n _ => ?_
    by_cases hk : n.keyed label rid ctx.tenantId = true
    · simp [hk, unstaged_key, unstaged_draft]
    · simp [hk]
  constructor
  · intro h'
    rw [← hself]
    exact h' label rid ctx.tenantId
  · intro hc l r t
    by_cases hk : l = label ∧ r = rid ∧ t = ctx.tenantId
    · obtain ⟨rfl, rfl, rfl⟩ := hk
      rw [hself]
      exact hc
    · rw [hnodes, List.countP_map]
      refine Nat.le_trans (List.countP_mono_left fun n _ hn => ?_) (h l r t)
      simp only [Function.comp_apply] at hn
      split at hn
      · rename_i hp
        rw [unstaged_key, Bool.and_eq_true] at hn
        exact absurd (keyed_unique hp hn.1) hk
      · exact hn

/-- In an interleaving, no entity ever has two Drafts exactly when every new Draft finds none and
`discard_staging` only converts entities with a single node. -/
theorem one_draft_iff {es : List CallEvent} (ha : ∀ call ∈ started es, call.op.Admitted) :
    (∀ fs, fs <+: es → AtMostOne Node.draft (runFrom concurrent.next noCalls fs).state) ↔
      StepsMeet concurrent.next (fun p e => CreatesFirstDraft p e ∧ UnstagesOne p e) noCalls es := by
  refine concurrent_inv_iff (fun _ _ _ => Nat.zero_le _) atMostOne_env ?_ ?_
  · intro p e call c hcall hc he hJ
    by_cases hcreate : ∃ label base d, c = .createNode label base d
    · obtain ⟨label, base, d, rfl⟩ := hcreate
      rw [create_atMostOne_iff (created_draft (ha call hcall) hc) hJ]
      constructor
      · intro h
        refine ⟨?_, ?_⟩
        · intro call' label' base' d' he'
          rw [he] at he'
          cases he'
          exact h
        · intro ctx label' rid he'
          rw [he] at he'
          cases he'
      · intro h
        exact h.1 call label base d he
    · have hfirst : CreatesFirstDraft p e := by
        intro call' label base d he'
        rw [he] at he'
        cases he'
        exact absurd ⟨_, _, _, rfl⟩ hcreate
      by_cases hs : ∃ ctx label rid, call = ⟨ctx, .discardStaging label rid⟩ ∧ c = unstageCmd ctx label rid
      · obtain ⟨ctx, label, rid, rfl, rfl⟩ := hs
        rw [unstage_atMostOne_iff ctx label rid hJ]
        constructor
        · intro h
          refine ⟨hfirst, ?_⟩
          intro ctx' label' rid' he'
          rw [he] at he'
          cases he'
          exact h
        · intro h
          exact h.2 ctx label rid he
      · refine iff_of_true (hJ.exec fun l r t => ?_) ⟨hfirst, ?_⟩
        · refine draft_shrinks (ha call hcall) hc ?_ ?_ p.state.graph l r t
          · rintro label base d rfl
            exact hcreate ⟨label, base, d, rfl⟩
          · rintro ctx label rid rfl rfl
            exact hs ⟨ctx, label, rid, rfl, rfl⟩
        · intro ctx label rid he'
          rw [he] at he'
          cases he'
          exact absurd ⟨ctx, label, rid, rfl, rfl⟩ hs
  · intro p e he
    refine ⟨?_, ?_⟩
    · intro call label base d he'
      rw [he] at he'
      cases he'
    · intro ctx label rid he'
      rw [he] at he'
      cases he'

/-- A user edits a published entity and then deletes it, without discarding the Draft. -/
def editThenDelete : List CallEvent :=
  inTurn [⟨⟨"t", "u", "1", "a"⟩, .create .objectType [(.apiName, .str "Order")]⟩,
    ⟨⟨"t", "u", "2", "b"⟩, .submitToStaging .objectType "ri.obj.a"⟩,
    ⟨⟨"t", "u", "3", "c"⟩, .commitStaging none⟩,
    ⟨⟨"t", "u", "4", "d"⟩, .acquireLock "ri.obj.a"⟩,
    ⟨⟨"t", "u", "5", "e"⟩, .update .objectType "ri.obj.a" [(.displayName, .str "Orders")]⟩,
    ⟨⟨"t", "u", "6", "f"⟩, .delete .objectType "ri.obj.a"⟩]

theorem one_draft_iff_editThenDelete :
    (∀ fs, fs <+: editThenDelete → AtMostOne Node.draft (runFrom concurrent.next noCalls fs).state) ↔
      StepsMeet concurrent.next (fun p e => CreatesFirstDraft p e ∧ UnstagesOne p e) noCalls
        editThenDelete :=
  one_draft_iff (by decide)

theorem two_drafts : ¬ ∀ es : List CallEvent, (∀ call ∈ started es, call.op.Admitted) →
    FreshUuids (started es) → AtMostOne Node.draft (runFrom concurrent.next noCalls es).state := by
  intro h
  have h2 := h editThenDelete (by decide) (by unfold FreshUuids; decide) .objectType
    "ri.obj.a" "t"
  revert h2
  decide +kernel

end Lingshu.Ontology
