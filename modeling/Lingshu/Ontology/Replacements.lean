import Lingshu.Ontology.Versions

/-! # What a commit replaces

A Draft remembers in `parent_snapshot_id` the version it was cloned from. `submit_to_staging` does not
compare it with the version that is Active, so a commit can replace a version that the author of the
Draft never saw. When every submission is based on the current version, no commit does. -/
namespace Lingshu.Ontology
open Json Interaction
set_option autoImplicit false

/-! ## Interleavings with a record of what was replaced -/

/-- Running calls, and the nodes that commits have deactivated for what they have not promoted yet, each
with the thread of its commit. -/
structure Watched where
  calls : Calls
  replaced : List (ℕ × Node)

def Watched.start : Watched := ⟨noCalls, []⟩

def replacedAfter (p : Calls) (replaced : List (ℕ × Node)) (e : CallEvent) : List (ℕ × Node) :=
  match e.thread, p.issues e with
  | some i, some (_, .deactivateStaged tenantId) =>
    (p.state.graph.nodes.filter (p.state.graph.replacedBy tenantId)).map (fun n => (i, n)) ++ replaced
  | some i, some (_, .promoteStaged ..) => replaced.filter fun r => r.1 ≠ i
  | _, _ => replaced

def Watched.next (w : Watched) (e : CallEvent) : Watched :=
  ⟨concurrent.next w.calls e, replacedAfter w.calls w.replaced e⟩

def Watched.nodes (w : Watched) : List Node := w.calls.state.graph.nodes

def SameEntity (n m : Node) : Prop :=
  n.label = m.label ∧ n.props .rid = m.props .rid ∧ n.props .tenantId = m.props .tenantId

instance (n m : Node) : Decidable (SameEntity n m) := by
  unfold SameEntity
  infer_instance

/-- The versions that are Active, or that a commit which has not promoted yet has deactivated. -/
def Watched.current (w : Watched) : List Node := w.nodes.filter Node.active ++ w.replaced.map Prod.snd

/-- Whatever Active version a commit replaces, the Staging version it publishes was cloned from it. -/
def ReplacesSeen (w : Watched) (e : CallEvent) : Prop :=
  ∀ i call tenantId snapshotId, e.thread = some i →
    w.calls.issues e = some (call, .promoteStaged tenantId snapshotId) →
      ∀ a, (i, a) ∈ w.replaced → ∀ n ∈ w.nodes, n.ofTenant tenantId → n.staging → SameEntity n a →
        n.props .parentSnapshotId = a.props .snapshotId

/-- The Drafts that a submission turns into Staging versions were cloned from the current version. -/
def SubmitsCurrent (w : Watched) (e : CallEvent) : Prop :=
  match w.calls.issues e with
  | some (⟨ctx, .submitToStaging label rid⟩, .updateNode ..) =>
    ∀ d ∈ w.nodes, d.keyed label rid ctx.tenantId → d.draftOf ctx.userId →
      ∀ a ∈ w.current, SameEntity d a → d.props .parentSnapshotId = a.props .snapshotId
  | _ => True

instance (w : Watched) (e : CallEvent) : Decidable (SubmitsCurrent w e) := by
  unfold SubmitsCurrent
  split <;> infer_instance

theorem Watched.mem_current {w : Watched} {a : Node} :
    a ∈ w.current ↔ (a ∈ w.nodes ∧ a.active) ∨ ∃ i, (i, a) ∈ w.replaced := by
  simp [Watched.current]

/-! ## The invariant -/

/-- Every Staging version was cloned from the current version. -/
def StagedCurrent (nodes : List Node) (current : Node → Prop) : Prop :=
  ∀ n ∈ nodes, n.staging → ∀ a, current a → SameEntity n a →
    n.props .parentSnapshotId = a.props .snapshotId

/-- Two nodes that differ in nothing the invariant looks at. -/
structure Alike (n m : Node) : Prop where
  entity : SameEntity n m
  parent : n.props .parentSnapshotId = m.props .parentSnapshotId
  snapshot : n.props .snapshotId = m.props .snapshotId

theorem Alike.refl (n : Node) : Alike n n := ⟨⟨rfl, rfl, rfl⟩, rfl, rfl⟩

theorem SameEntity.of_alike {n n' a a' : Node} (h : SameEntity n a) (hn : Alike n' n) (ha : Alike a' a) :
    SameEntity n' a' :=
  ⟨hn.entity.1.trans (h.1.trans ha.entity.1.symm), hn.entity.2.1.trans (h.2.1.trans ha.entity.2.1.symm),
    hn.entity.2.2.trans (h.2.2.trans ha.entity.2.2.symm)⟩

/-- Staging and current versions that come from Staging and current versions keep the invariant. -/
theorem StagedCurrent.back {nodes nodes' : List Node} {current current' : Node → Prop}
    (h : StagedCurrent nodes current)
    (hn : ∀ n' ∈ nodes', n'.staging → ∃ n ∈ nodes, n.staging ∧ Alike n n')
    (ha : ∀ a', current' a' → ∃ a, current a ∧ Alike a a') : StagedCurrent nodes' current' := by
  intro n' hn' hs a' hcur hsame
  obtain ⟨n, hmem, hstaging, hnn⟩ := hn n' hn' hs
  obtain ⟨a, hcurrent, haa⟩ := ha a' hcur
  rw [← hnn.parent, ← haa.snapshot]
  exact h n hmem hstaging a hcurrent (hsame.of_alike hnn haa)

theorem alike_set {n : Node} {d : Dict}
    (h : ∀ f ∈ [Field.rid, .tenantId, .parentSnapshotId, .snapshotId], f ∉ d.keys) : Alike n (n.set d) :=
  ⟨⟨rfl, (Props.update_of_notMem (h _ (by decide))).symm, (Props.update_of_notMem (h _ (by decide))).symm⟩,
    (Props.update_of_notMem (h _ (by decide))).symm, (Props.update_of_notMem (h _ (by decide))).symm⟩

/-- The effect makes no Staging and no Active version of anything else. -/
def Effect.Recedes : Effect → Prop
  | .add n => n.staging = false ∧ n.active = false
  | .set p d => ∀ n, p n → Alike n (n.set d) ∧ ((n.set d).staging → n.staging) ∧ ((n.set d).active → n.active)
  | _ => True

theorem Effect.Recedes.back {e : Effect} {nodes : List Node} (h : e.Recedes) :
    ∀ n' ∈ e.on nodes, (n'.staging ∨ n'.active) →
      ∃ n ∈ nodes, (n'.staging → n.staging) ∧ (n'.active → n.active) ∧ Alike n n' := by
  intro n' hn' hflag
  cases e with
  | keep => exact ⟨n', hn', id, id, Alike.refl n'⟩
  | add n =>
    rcases List.mem_append.mp hn' with hn' | hn'
    · exact ⟨n', hn', id, id, Alike.refl n'⟩
    · rw [List.mem_singleton.mp hn', h.1, h.2] at hflag
      rcases hflag with hflag | hflag <;> cases hflag
  | drop p => exact ⟨n', (List.mem_filter.mp hn').1, id, id, Alike.refl n'⟩
  | set p d =>
    obtain ⟨n, hn, rfl⟩ := List.mem_map.mp hn'
    split
    · rename_i hp
      obtain ⟨h1, h2, h3⟩ := h n hp
      exact ⟨n, hn, h2, h3, h1⟩
    · exact ⟨n, hn, id, id, Alike.refl n⟩

theorem recedes_plain {p : Node → Bool} {d : Dict} (h : ∀ f ∈ versionFields, f ∉ d.keys) :
    (Effect.set p d).Recedes := by
  intro n _
  refine ⟨alike_set fun f hf => h f ?_, ?_, ?_⟩
  · revert hf
    simp only [versionFields, List.mem_cons, List.not_mem_nil, or_false]
    rintro (rfl | rfl | rfl | rfl) <;> simp
  · intro hs
    rwa [Node.staging, has_set_plain h (by decide)] at hs
  · intro ha
    simpa only [Node.active, Node.published, has_set_plain h (f := .isDraft) (by decide),
      has_set_plain h (f := .isStaging) (by decide), has_set_plain h (f := .isActive) (by decide)] using ha

theorem active_false_of_draft {n : Node} (h : n.props .isDraft = .bool true) : n.active = false := by
  simp [Node.active, Node.published, Node.has, h]

theorem active_false_of_staging {n : Node} (h : n.props .isStaging = .bool true) : n.active = false := by
  simp [Node.active, Node.published, Node.has, h]

/-- Only a submission, a promotion and a rollback make Staging or Active versions. -/
theorem recedes {G : Node → Prop} {call : Call} {c : Cmd} (ha : call.op.Admitted)
    (hr : call.op.rollsBack = false) (hc : Issues G call c)
    (hsubmit : ∀ ctx label rid, call = ⟨ctx, .submitToStaging label rid⟩ → c ≠ submitCmd ctx label rid)
    (hpromote : ∀ tenantId snapshotId, c ≠ .promoteStaged tenantId snapshotId) (g : Graph) :
    (c.effect g).Recedes := by
  cases hc with
  | new hnew =>
    refine effect_createNode ?_ trivial
    have hd := lookup_newNode hnew
    refine ⟨?_, active_false_of_draft ?_⟩
    · simp [Node.staging, Node.has, Props.update, hd.2.2.2.1]
    · simp [Props.update, hd.2.2.1]
  | clone good key guarded marks =>
    refine effect_createNode ?_ trivial
    have hd := marks ha
    refine ⟨?_, active_false_of_draft ?_⟩
    · simp [Node.staging, Node.has, Props.update, hd.isStaging]
    · simp [Props.update, hd.isDraft]
  | edit guarded plain => exact effect_updateNode (recedes_plain (plain ha)) trivial
  | cascade content => exact effect_updateNode (recedes_plain (cascade_plain content)) trivial
  | submit => exact absurd rfl (hsubmit _ _ _ rfl)
  | unstage =>
    intro n _
    refine ⟨alike_set (by simp [unstageProps, Dict.keys]), ?_, ?_⟩
    · intro hs
      simp [Node.staging, Node.has, Props.update, unstageProps] at hs
    · intro hactive
      rw [active_false_of_draft (by rfl)] at hactive
      cases hactive
  | deactivateStaged =>
    intro n _
    refine ⟨alike_set (by simp [Dict.keys]), ?_, ?_⟩
    · intro hs
      rwa [Node.staging, Node.has_set_of_notMem (by simp [Dict.keys])] at hs
    · intro hactive
      simp [Node.active, Node.has, Props.update] at hactive
  | promoteStaged => exact absurd rfl (hpromote _ _)
  | deactivateSnapshot | reactivateSnapshot => cases hr
  | dropDraft | dropStaging | belongsTo | basedOn | cleanupDeleted | publish | repoint => trivial
  | quiet hq => cases c <;> trivial

/-- A submission keeps the invariant when its Drafts were cloned from the current version. -/
theorem submit_stagedCurrent {g : Graph} {ctx : Ctx} {label : Label} {rid : String}
    {replaced : Node → Prop}
    (h : StagedCurrent g.nodes fun a => (a ∈ g.nodes ∧ a.active) ∨ replaced a)
    (hd : ∀ d ∈ g.nodes, d.keyed label rid ctx.tenantId → d.draftOf ctx.userId →
      ∀ a, ((a ∈ g.nodes ∧ a.active) ∨ replaced a) → SameEntity d a →
        d.props .parentSnapshotId = a.props .snapshotId) :
    StagedCurrent (((submitCmd ctx label rid).effect g).on g.nodes)
      fun a => (a ∈ ((submitCmd ctx label rid).effect g).on g.nodes ∧ a.active) ∨ replaced a := by
  have hstore : Dict.storable (submitProps ctx) = true := rfl
  simp only [submitCmd, Cmd.effect, hstore, if_true, Effect.on]
  have hcurrent : ∀ a, ((a ∈ g.nodes.map fun n => if Graph.filterOf label rid ctx.tenantId (some true) none
      (some ctx.userId) n then n.set (submitProps ctx) else n) ∧ a.active) ∨ replaced a →
      (a ∈ g.nodes ∧ a.active) ∨ replaced a := by
    rintro a (⟨ha, hactive⟩ | ha)
    · obtain ⟨n, hn, rfl⟩ := List.mem_map.mp ha
      split at hactive
      · rw [active_false_of_staging rfl] at hactive
        cases hactive
      · rename_i hp
        rw [if_neg hp]
        exact .inl ⟨hn, hactive⟩
    · exact .inr ha
  intro n' hn' hs a ha hsame
  obtain ⟨n, hn, rfl⟩ := List.mem_map.mp hn'
  split at hs
  · rename_i hp
    rw [if_pos hp] at hsame ⊢
    have halike : Alike n (n.set (submitProps ctx)) := alike_set (by simp [submitProps, Dict.keys])
    rw [filterOf_draft, Bool.and_eq_true] at hp
    rw [← halike.parent]
    exact hd n hn hp.1 hp.2 a (hcurrent a ha) (hsame.of_alike halike (Alike.refl a))
  · rename_i hp
    rw [if_neg hp] at hsame ⊢
    exact h n hn hs a (hcurrent a ha) hsame

/-- A promotion leaves no Staging version of its tenant that could disagree with what it published. -/
theorem promote_stagedCurrent {g : Graph} {tenantId snapshotId : String} {replaced replaced' : Node → Prop}
    (h : StagedCurrent g.nodes fun a => (a ∈ g.nodes ∧ a.active) ∨ replaced a)
    (hr : ∀ a, replaced' a → replaced a) :
    StagedCurrent ((Cmd.effect g (.promoteStaged tenantId snapshotId)).on g.nodes)
      fun a => (a ∈ (Cmd.effect g (.promoteStaged tenantId snapshotId)).on g.nodes ∧ a.active) ∨
        replaced' a := by
  simp only [Cmd.effect, Effect.on]
  intro n' hn' hs a ha hsame
  obtain ⟨n, hn, rfl⟩ := List.mem_map.mp hn'
  split at hs
  · simp [Node.staging, Node.has, Props.update] at hs
  · rename_i hp
    rw [if_neg hp] at hsame ⊢
    have htenant : ¬ n.ofTenant tenantId := by
      intro ht
      exact hp (by rw [ht, hs]; rfl)
    refine h n hn hs a ?_ hsame
    rcases ha with ⟨ha, hactive⟩ | ha
    · obtain ⟨m, hm, rfl⟩ := List.mem_map.mp ha
      split at hactive
      · -- A node that was promoted belongs to the tenant, of which `n` is not.
        rename_i hq
        rw [if_pos hq] at hsame
        rw [Bool.and_eq_true] at hq
        refine absurd ?_ htenant
        have ht := hsame.2.2
        rw [Node.set_props, Props.update_of_notMem (by simp [Dict.keys])] at ht
        simpa [Node.ofTenant, Node.has, ht] using hq.1
      · rename_i hq
        rw [if_neg hq]
        exact .inl ⟨hm, hactive⟩
    · exact .inr (hr a ha)

/-! ## Runs -/

theorem issues_thread {p : Calls} {e : CallEvent} {call : Call} {c : Cmd}
    (h : p.issues e = some (call, c)) : ∃ i, e.thread = some i := by
  cases e with
  | step i => exact ⟨i, rfl⟩
  | lose i x => exact ⟨i, rfl⟩
  | start | refuse | env => cases h

/-- One step of an interleaving without rollbacks keeps every Staging version current. -/
theorem watched_step {w : Watched} {e : CallEvent} {calls : List Call}
    (ha : ∀ call ∈ calls, call.op.Admitted) (hr : ∀ call ∈ calls, call.op.rollsBack = false)
    (hk : ∀ t ∈ w.calls.threads, t.2.Meets (IssuesOf calls (fun _ => True) t.1) (Answers fun _ => True)
      (fun _ => True))
    (h : StagedCurrent w.nodes (· ∈ w.current)) (hs : SubmitsCurrent w e) :
    StagedCurrent (w.next e).nodes (· ∈ (w.next e).current) := by
  simp only [Watched.mem_current] at h ⊢
  cases he : w.calls.issues e with
  | none =>
    have hreplaced : (w.next e).replaced = w.replaced := by
      simp only [Watched.next, replacedAfter, he]
      cases e.thread <;> rfl
    refine h.back (fun n hn hstaging => ⟨n, (concurrent_nodes_idle he n).mp hn, hstaging, Alike.refl n⟩) ?_
    intro a hcurrent
    refine ⟨a, ?_, Alike.refl a⟩
    rcases hcurrent with ⟨hmem, hactive⟩ | ⟨i, hi⟩
    · exact .inl ⟨(concurrent_nodes_idle he a).mp hmem, hactive⟩
    · rw [hreplaced] at hi
      exact .inr ⟨i, hi⟩
  | some issued =>
    obtain ⟨call, c⟩ := issued
    obtain ⟨hcall, hc⟩ := System.issues_pre hk he
    obtain ⟨i, hi⟩ := issues_thread he
    have hnodes : (w.next e).nodes = (c.effect w.calls.state.graph).on w.nodes := concurrent_nodes_issued he
    by_cases hsubmit : ∃ ctx label rid, call = ⟨ctx, .submitToStaging label rid⟩ ∧ c = submitCmd ctx label rid
    · obtain ⟨ctx, label, rid, rfl, rfl⟩ := hsubmit
      have hreplaced : (w.next e).replaced = w.replaced := by
        simp only [Watched.next, replacedAfter, he, hi, submitCmd]
      rw [hnodes, hreplaced]
      simp only [SubmitsCurrent, he, submitCmd, Watched.mem_current] at hs
      exact submit_stagedCurrent h hs
    by_cases hpromote : ∃ tenantId snapshotId, c = .promoteStaged tenantId snapshotId
    · obtain ⟨tenantId, snapshotId, rfl⟩ := hpromote
      have hreplaced : (w.next e).replaced = w.replaced.filter fun r => r.1 ≠ i := by
        simp only [Watched.next, replacedAfter, he, hi]
      rw [hnodes, hreplaced]
      refine promote_stagedCurrent h ?_
      rintro a ⟨j, hj⟩
      exact ⟨j, (List.mem_filter.mp hj).1⟩
    have hrecedes := recedes (ha call hcall) (hr call hcall) hc
      (fun ctx label rid h1 h2 => hsubmit ⟨ctx, label, rid, h1, h2⟩)
      (fun tenantId snapshotId h1 => hpromote ⟨tenantId, snapshotId, h1⟩) w.calls.state.graph
    refine h.back ?_ ?_
    · intro n' hn' hstaging
      rw [hnodes] at hn'
      obtain ⟨n, hn, h1, _, halike⟩ := hrecedes.back n' hn' (.inl hstaging)
      exact ⟨n, hn, h1 hstaging, halike⟩
    · rintro a' (⟨ha', hactive⟩ | ⟨j, hj⟩)
      · rw [hnodes] at ha'
        obtain ⟨a, hmem, _, h2, halike⟩ := hrecedes.back a' ha' (.inr hactive)
        exact ⟨a, .inl ⟨hmem, h2 hactive⟩, halike⟩
      · refine ⟨a', ?_, Alike.refl a'⟩
        simp only [Watched.next, replacedAfter, he, hi] at hj
        split at hj
        · -- What the commit deactivates was Active.
          rcases List.mem_append.mp hj with hj | hj
          · obtain ⟨n, hn, hij⟩ := List.mem_map.mp hj
            cases hij
            obtain ⟨hn, hrep⟩ := List.mem_filter.mp hn
            simp only [Graph.replacedBy, Bool.and_eq_true] at hrep
            exact .inl ⟨hn, hrep.1.2⟩
          · exact .inr ⟨j, hj⟩
        · exact .inr ⟨j, (List.mem_filter.mp hj).1⟩
        · exact .inr ⟨j, hj⟩

/-- In an interleaving without rollbacks whose submissions are all based on the current version of
their entity, no commit replaces a version that the published one was not cloned from. -/
theorem replaces_seen {es : List CallEvent} (ha : ∀ call ∈ started es, call.op.Admitted)
    (hr : ∀ call ∈ started es, call.op.rollsBack = false)
    (hs : StepsMeet Watched.next SubmitsCurrent Watched.start es) :
    StepsMeet Watched.next ReplacesSeen Watched.start es := by
  let J : Watched → Prop := fun w => (∀ t ∈ w.calls.threads,
    t.2.Meets (IssuesOf (started es) (fun _ => True) t.1) (Answers fun _ => True) (fun _ => True)) ∧
      StagedCurrent w.nodes (· ∈ w.current)
  have hP : StepsMeet Watched.next (fun _ e => ∀ call, e = .start call → call ∈ started es) Watched.start es :=
    StepsMeet.lift (f := Watched.calls) (fun _ _ => rfl) stepsMeet_started
  have hJ0 : J Watched.start := ⟨fun t ht => (nomatch ht), fun n hn => (nomatch hn)⟩
  refine StepsMeet.of_inv (J := J) ?_ hJ0 (hP.and hs)
  rintro w e ⟨hk, hcurrent⟩ ⟨hstart, hsubmit⟩
  refine ⟨⟨?_, watched_step ha hr hk hcurrent hsubmit⟩, ?_⟩
  · refine System.meets_next ?_ ?_ hk
    · rintro call rfl
      exact meets_service (hstart call rfl)
    · intro call c _
      exact exec_answers (fun _ _ => trivial) c
  · intro i call tenantId snapshotId _ _ a hi n hn _ hstaging hsame
    exact hcurrent n hn hstaging a (Watched.mem_current.mpr (.inr ⟨i, hi⟩)) hsame

/-- Two users edit a published entity one after the other, the second publishes, then the first
submits the older Draft and commits; the commit is about to promote. -/
def overwriting : List CallEvent :=
  inTurn [⟨⟨"t", "u", "1", "a"⟩, .create .objectType [(.apiName, .str "Order")]⟩,
    ⟨⟨"t", "u", "2", "b"⟩, .submitToStaging .objectType "ri.obj.a"⟩,
    ⟨⟨"t", "u", "3", "c"⟩, .commitStaging none⟩,
    ⟨⟨"t", "u", "4", "d"⟩, .acquireLock "ri.obj.a"⟩,
    ⟨⟨"t", "u", "5", "e"⟩, .update .objectType "ri.obj.a" [(.displayName, .str "First")]⟩,
    ⟨⟨"t", "u", "6", "f"⟩, .releaseLock "ri.obj.a"⟩,
    ⟨⟨"t", "v", "7", "g"⟩, .acquireLock "ri.obj.a"⟩,
    ⟨⟨"t", "v", "8", "h"⟩, .update .objectType "ri.obj.a" [(.displayName, .str "Second")]⟩,
    ⟨⟨"t", "v", "9", "i"⟩, .submitToStaging .objectType "ri.obj.a"⟩,
    ⟨⟨"t", "v", "10", "j"⟩, .commitStaging none⟩,
    ⟨⟨"t", "u", "11", "k"⟩, .submitToStaging .objectType "ri.obj.a"⟩] ++
  .start ⟨⟨"t", "u", "12", "l"⟩, .commitStaging none⟩ :: List.replicate 6 (.step 11)

def overwritingState : Watched := runFrom Watched.next Watched.start overwriting

/-- The tenant and the snapshot of the promotion that thread `i` is about to make. -/
def promoting (p : Calls) (i : ℕ) : Option (String × String) :=
  match p.pending i with
  | some (_, .promoteStaged tenantId snapshotId) => some (tenantId, snapshotId)
  | _ => none

theorem pending_of_promoting {p : Calls} {i : ℕ} {tenantId snapshotId : String}
    (h : promoting p i = some (tenantId, snapshotId)) :
    ∃ call, p.pending i = some (call, .promoteStaged tenantId snapshotId) := by
  unfold promoting at h
  split at h
  · rename_i call t s hp
    cases h
    exact ⟨call, hp⟩
  · cases h

theorem overwritingState_nodes : 1 < overwritingState.nodes.length := by decide +kernel

theorem overwritingState_replaced : 0 < overwritingState.replaced.length := by decide +kernel

theorem replaces_unseen : ¬ ∀ es : List CallEvent, (∀ call ∈ started es, call.op.Admitted) →
    FreshUuids (started es) → (∀ call ∈ started es, call.op.rollsBack = false) →
      StepsMeet Watched.next ReplacesSeen Watched.start es := by
  intro h
  have hrun := h (overwriting ++ [.step 11]) (by decide) (by unfold FreshUuids; decide)
    (by decide)
  have hpromoting : promoting overwritingState.calls 11 = some ("t", "ri.snap.l") := by decide +kernel
  obtain ⟨call, hpending⟩ := pending_of_promoting hpromoting
  have hreplaced : ((11, (overwritingState.replaced.get ⟨0, overwritingState_replaced⟩).2) : ℕ × Node) ∈
      overwritingState.replaced := by
    have hfirst := List.get_mem overwritingState.replaced ⟨0, overwritingState_replaced⟩
    have hthread : (overwritingState.replaced.get ⟨0, overwritingState_replaced⟩).1 = 11 := by decide +kernel
    rwa [← Prod.mk.eta (p := overwritingState.replaced.get ⟨0, overwritingState_replaced⟩), hthread] at hfirst
  have hlast := (stepsMeet_append.mp hrun).2.1 11 call "t" "ri.snap.l" rfl hpending _ hreplaced
    (overwritingState.nodes.get ⟨1, overwritingState_nodes⟩) (List.get_mem _ _)
    (by decide +kernel) (by decide +kernel) (by decide +kernel)
  revert hlast
  decide +kernel

/-- A published entity is edited, and published again. -/
def publishAgain : List CallEvent :=
  inTurn [⟨⟨"t", "u", "1", "a"⟩, .create .objectType [(.apiName, .str "Order")]⟩,
    ⟨⟨"t", "u", "2", "b"⟩, .submitToStaging .objectType "ri.obj.a"⟩,
    ⟨⟨"t", "u", "3", "c"⟩, .commitStaging none⟩,
    ⟨⟨"t", "u", "4", "d"⟩, .acquireLock "ri.obj.a"⟩,
    ⟨⟨"t", "u", "5", "e"⟩, .update .objectType "ri.obj.a" [(.displayName, .str "Orders")]⟩,
    ⟨⟨"t", "u", "6", "f"⟩, .submitToStaging .objectType "ri.obj.a"⟩,
    ⟨⟨"t", "u", "7", "g"⟩, .commitStaging none⟩]

theorem replaces_seen_publishAgain : StepsMeet Watched.next ReplacesSeen Watched.start publishAgain :=
  replaces_seen (by decide +kernel) (by decide +kernel) (by decide +kernel)

end Lingshu.Ontology
