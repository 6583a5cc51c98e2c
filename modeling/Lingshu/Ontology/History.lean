import Lingshu.Interaction.Typestate
import Lingshu.Ontology.Secluded

/-! # The history of a tenant's snapshots

`commit_staging` reads the current snapshot, promotes and publishes under the commit lock of its tenant. As long as the
lock does not expire under a commit, and no rollback comes between, every snapshot is published on the one it names as
its parent. -/
namespace Lingshu.Ontology
open Json Interaction Interaction.Prog
set_option autoImplicit false

/-! ## Commits and their lock -/

/-- How far a call has come with the commit lock: not in possession of it; holding it; with the parent read; with the
pointer row read again; with the rows sent. -/
inductive Stage where
  | idle
  | holding
  | decided (parent : Option String)
  | ready (parent pointer : Option String)
  | published

/-- The queries of `promote_staging_to_active` for the tenant. -/
def Cmd.promotesFor (tenantId : String) : Cmd → Prop
  | .deactivateStaged owner | .promoteStaged owner _ | .cleanupDeleted owner _ => owner = tenantId
  | _ => False

/-- The row that `set_active_pointer` writes after it has read `pointer`. -/
def rowFor (tenantId snapshotId : String) (pointer : Option String) : PgWrite :=
  if pointer.isSome then .updatePointer tenantId snapshotId else .insertPointer tenantId snapshotId

/-- What the commits of a tenant may do in each stage; all else is everybody's. -/
structure Admits (tenantId : String) (φ : Stage) (c : Cmd) : Prop where
  takes : ∀ owner, c = .redisSetNx (.commitLock tenantId) owner → φ = .idle
  drops : c = .redisDelete (.commitLock tenantId) → φ ≠ .idle
  promotes : c.promotesFor tenantId → φ ≠ .idle
  publishes : ∀ rows s, c = .pgCommit rows → .insertSnapshot s ∈ rows → s.tenantId = tenantId →
    ∃ pointer, φ = .ready s.parentSnapshotId pointer ∧
      rows = [.insertSnapshot s, rowFor tenantId s.snapshotId pointer]

/-- The stage after a command has come to an outcome. -/
def stageAfter (tenantId : String) (φ : Stage) (c : Cmd) (r : Except Exc c.Answer) : Stage :=
  match φ, c, r with
  | .idle, .redisSetNx key _, .ok true => if key = .commitLock tenantId then .holding else .idle
  | .holding, .pgGetPointer owner, .ok parent => if owner = tenantId then .decided parent else .holding
  | .decided parent, .pgGetPointer owner, .ok pointer =>
    if owner = tenantId then .ready parent pointer else .decided parent
  | .ready _ _, .pgCommit _, _ => .published
  | φ, .redisDelete key, _ => if key = .commitLock tenantId then .idle else φ
  | φ, _, _ => φ

def commitStages (tenantId : String) : Discipline Cmd Cmd.Answer Exc Stage := ⟨Admits tenantId, stageAfter tenantId⟩

/-- A commit of the tenant. -/
def Call.commitsTo (tenantId : String) (call : Call) : Prop := call.op.commits = true ∧ call.ctx.tenantId = tenantId

section Stages
variable {tenantId : String} {φ : Stage} {c : Cmd}

/-- Commands that a commit may send in any stage, and stay in it. -/
def Cmd.plain : Cmd → Bool
  | .redisSetNx (.commitLock _) _ | .redisDelete (.commitLock _) | .pgGetPointer _ | .pgCommit _ | .deactivateStaged _
  | .promoteStaged .. | .cleanupDeleted .. => false
  | _ => true

theorem admits_plain (h : c.plain = true) : Admits tenantId φ c where
  takes := by
    rintro owner rfl
    cases h
  drops := by
    rintro rfl
    cases h
  promotes := by
    intro hp
    cases c <;> first | exact hp.elim | cases h
  publishes := by
    rintro rows s rfl
    cases h

/-- Commands after which a stage of the tenant may be another. -/
def Cmd.shifts (tenantId : String) : Cmd → Bool
  | .redisSetNx key _ | .redisDelete key => key = .commitLock tenantId
  | .pgGetPointer owner => owner = tenantId
  | .pgCommit _ => true
  | _ => false

theorem stageAfter_still (h : c.shifts tenantId = false) (r : Except Exc c.Answer) : stageAfter tenantId φ c r = φ := by
  cases c with
  | redisSetNx key owner =>
    have hkey : key ≠ .commitLock tenantId := of_decide_eq_false h
    cases φ with
    | idle =>
      cases r with
      | error e => rfl
      | ok a =>
        cases a with
        | false => rfl
        | true => exact if_neg hkey
    | _ => rfl
  | redisDelete key =>
    have hkey : key ≠ .commitLock tenantId := of_decide_eq_false h
    cases φ <;> exact if_neg hkey
  | pgGetPointer owner =>
    have howner : owner ≠ tenantId := of_decide_eq_false h
    cases φ with
    | holding =>
      cases r with
      | error e => rfl
      | ok a => exact if_neg howner
    | decided parent =>
      cases r with
      | error e => rfl
      | ok a => exact if_neg howner
    | _ => rfl
  | pgCommit => cases h
  | _ => cases φ <;> rfl

theorem shifts_of_plain (h : c.plain = true) : c.shifts tenantId = false := by
  cases c with
  | redisSetNx key owner =>
    cases key with
    | commitLock => cases h
    | lock rid => rfl
  | redisDelete key =>
    cases key with
    | commitLock => cases h
    | lock rid => rfl
  | pgGetPointer | pgCommit => cases h
  | _ => rfl

theorem shifts_of_promotes (h : c.promotesFor tenantId) : c.shifts tenantId = false := by
  cases c with
  | deactivateStaged | promoteStaged | cleanupDeleted => rfl
  | _ => exact h.elim

end Stages

/-! ## The other calls -/

section Others
variable {calls : List Call} {call : Call} {tenantId : String} {c : Cmd}

theorem commitsTo_of_lock (hc : Own calls call c)
    (h : (∃ owner, c = .redisSetNx (.commitLock tenantId) owner) ∨ c = .redisDelete (.commitLock tenantId)) :
    call.commitsTo tenantId := by
  have hkey : RedisKey.seenBy call.ctx.tenantId (.commitLock tenantId) = true ∧ c.locksCommit = true := by
    rcases h with ⟨owner, rfl⟩ | rfl
    · exact ⟨hc.2.2.within, rfl⟩
    · exact ⟨hc.2.2.within, rfl⟩
  exact ⟨hc.2.2.commit hkey.2, (of_decide_eq_true hkey.1).symm⟩

theorem commitsTo_of_promotes (hc : Own calls call c) (h : c.promotesFor tenantId) : call.commitsTo tenantId := by
  obtain ⟨_, hissues, _⟩ := hc
  cases hissues with
  | deactivateStaged | promoteStaged | cleanupDeleted => exact ⟨rfl, h⟩
  | quiet hq => cases c <;> first | exact h.elim | cases hq
  | _ => exact h.elim

/-- A row of the tenant is added by a commit of the tenant, together with the pointer to it. -/
theorem publish_of_insert (hc : Own calls call c) {rows : List PgWrite} {s : Snapshot} (hrows : c = .pgCommit rows)
    (hs : .insertSnapshot s ∈ rows) (ht : s.tenantId = tenantId) : call.commitsTo tenantId ∧
      ∃ row, row.PointsTo tenantId s.snapshotId ∧ rows = [.insertSnapshot s, row] := by
  obtain ⟨_, hissues, _⟩ := hc
  subst hrows
  cases hissues with
  | @publish ctx m snapshot row id tenant points =>
    have hself : s = snapshot := by
      rcases List.mem_cons.mp hs with hs | hs
      · exact PgWrite.insertSnapshot.inj hs
      · rcases points with rfl | rfl <;> simp at hs
    subst hself
    refine ⟨⟨rfl, tenant.symm.trans ht⟩, row, ?_, rfl⟩
    rw [id, ← ht, tenant]
    exact points
  | repoint points => rcases points with rfl | rfl <;> simp at hs
  | quiet hq => cases hq

/-- Calls that do not commit to the tenant stay in their first stage. -/
theorem idle_of_not_commitsTo (hc : Own calls call c) (h : ¬call.commitsTo tenantId) :
    Admits tenantId .idle c ∧ ∀ r, stageAfter tenantId .idle c r = .idle := by
  refine ⟨⟨fun _ _ => rfl, ?_, ?_, ?_⟩, ?_⟩
  · intro hdrop
    exact absurd (commitsTo_of_lock hc (.inr hdrop)) h
  · intro hpromotes
    exact absurd (commitsTo_of_promotes hc hpromotes) h
  · intro rows s hrows hs ht
    exact absurd (publish_of_insert hc hrows hs ht).1 h
  · intro r
    cases c with
    | redisSetNx key owner =>
      have hkey : key ≠ .commitLock tenantId := by
        rintro rfl
        exact h (commitsTo_of_lock hc (.inl ⟨owner, rfl⟩))
      cases r with
      | error e => rfl
      | ok a =>
        cases a with
        | false => rfl
        | true => exact if_neg hkey
    | redisDelete key => exact ite_self _
    | _ => rfl

end Others

/-! ## A commit goes through the stages -/

/-- A command that a call sends without leaving the stage. -/
def StaysIn (tenantId : String) (φ : Stage) (c : Cmd) : Prop :=
  Admits tenantId φ c ∧ ∀ r, stageAfter tenantId φ c r = φ

section Commit
variable {α : Type} {tenantId : String} {φ : Stage} {Post : (c : Cmd) → c.Answer → Prop}

theorem staysIn_plain {c : Cmd} (h : c.plain = true) : StaysIn tenantId φ c :=
  ⟨admits_plain h, stageAfter_still (shifts_of_plain h)⟩

theorem staysIn_promotes {c : Cmd} (h : c.promotesFor tenantId) (hφ : φ ≠ .idle) : StaysIn tenantId φ c := by
  refine ⟨⟨?_, fun _ => hφ, fun _ => hφ, ?_⟩, stageAfter_still (shifts_of_promotes h)⟩
  · rintro _ rfl
    exact h.elim
  · rintro _ _ rfl
    exact h.elim

/-- A part of a commit that stays in its stage. -/
theorem follows_staying {p : Program α} {Q : α → Prop} (h : p.Meets (StaysIn tenantId φ) (fun _ _ => True) Q) :
    p.Follows (commitStages tenantId) Post (fun ψ r => ψ = φ ∧ ∀ a, r = .ok a → Q a) φ :=
  (h.mono (fun _ hc => hc) (fun _ _ _ => trivial) fun _ hq => hq).follows fun _ hc => hc

theorem staying_entityChangesLoop (nodes : List Node) (changes : String → Option Change) :
    Sends (StaysIn tenantId φ) (fun _ _ => True) (entityChangesLoop tenantId nodes changes) := by
  induction nodes generalizing changes with
  | nil => exact Sends.pure _
  | cons node nodes ih => exact Sends.ite (Sends.bind (Sends.issue (staysIn_plain rfl)) fun _ => ih _) (ih _)

theorem staying_createSnapshot (snapshot : Snapshot) :
    (createSnapshot snapshot).Meets (StaysIn tenantId φ) (fun _ _ => True) (· = .insertSnapshot snapshot) :=
  Prog.Meets.bind (Sends.issue (staysIn_plain rfl)) fun _ _ => rfl

theorem staying_promote (hφ : φ ≠ .idle) (snapshotId : String) :
    Sends (StaysIn tenantId φ) (fun _ _ => True) (promoteStagingToActive tenantId snapshotId) := by
  refine Sends.bind (Sends.issue (staysIn_promotes rfl hφ)) fun _ => ?_
  refine Sends.bind (Sends.issue (staysIn_promotes rfl hφ)) fun _ => ?_
  exact Sends.bind (Sends.issue (staysIn_promotes rfl hφ)) fun _ => Sends.pure _

theorem staying_onSchemaPublished (snapshotId : String) :
    Sends (StaysIn tenantId φ) (fun _ _ => True) (onSchemaPublished tenantId snapshotId) := by
  refine Sends.bind (Sends.issue (staysIn_plain rfl)) fun found => ?_
  refine Sends.bind ?_ fun _ => Sends.issue (staysIn_plain rfl)
  induction found with
  | nil => exact Sends.pure _
  | cons keys found ih => exact Sends.ite ih (Sends.bind (Sends.issue (staysIn_plain rfl)) fun _ => ih)

theorem admits_getPointer : Admits tenantId φ (.pgGetPointer tenantId) where
  takes := fun _ h => nomatch h
  drops := fun h => nomatch h
  promotes := fun h => h.elim
  publishes := fun _ _ h => nomatch h

/-- The pointer is read again, and its row is chosen by what was found. -/
theorem follows_setActivePointer (parent : Option String) (snapshotId : String) :
    (setActivePointer tenantId snapshotId).Follows (commitStages tenantId) Post (fun ψ r => ψ ≠ .idle ∧
      ∀ row, r = .ok row → ∃ pointer, ψ = .ready parent pointer ∧ row = rowFor tenantId snapshotId pointer)
      (.decided parent) := by
  refine (Follows.perform admits_getPointer).bind (fun ψ pointer hψ => ?_) fun ψ e hψ => ?_
  · have hready : ψ = .ready parent pointer := hψ.1.trans (if_pos rfl)
    subst hready
    have hflush : Sends (StaysIn tenantId (.ready parent pointer)) (fun _ _ => True)
        (issue (.pgFlush (rowFor tenantId snapshotId pointer))) := Sends.issue (staysIn_plain rfl)
    refine (follows_staying hflush).bind (fun χ _ hχ => ?_) fun χ e hχ => ?_
    · refine ⟨by rw [hχ.1]; exact Stage.noConfusion, ?_⟩
      intro row hrow
      cases hrow
      exact ⟨pointer, hχ.1, rfl⟩
    · exact ⟨by rw [hχ.1]; exact Stage.noConfusion, fun row hrow => nomatch hrow⟩
  · exact ⟨by rw [hψ.1]; exact Stage.noConfusion, fun row hrow => nomatch hrow⟩

/-- The one stage in which rows are sent, with what they are then. -/
theorem admits_publish {parent pointer : Option String} {s : Snapshot} (hparent : s.parentSnapshotId = parent) :
    Admits tenantId (.ready parent pointer)
      (.pgCommit [.insertSnapshot s, rowFor tenantId s.snapshotId pointer]) where
  takes := fun _ h => nomatch h
  drops := fun h => nomatch h
  promotes := fun h => h.elim
  publishes := by
    rintro rows s' hrows hs' -
    cases hrows
    have hrow : ∀ id, rowFor tenantId id pointer ≠ .insertSnapshot s' := by
      intro id
      rw [rowFor]
      split <;> exact PgWrite.noConfusion
    rcases List.mem_cons.mp hs' with hs' | hs'
    · cases hs'
      exact ⟨pointer, by rw [hparent], rfl⟩
    · exact absurd (List.mem_singleton.mp hs').symm (hrow _)

theorem follows_publishStaging (maxRetries : ℕ) (ctx : Ctx) (m : Option String) (nodes : List Node)
    (changes : String → Option Change) : (publishStaging maxRetries ctx m nodes changes).Follows
      (commitStages ctx.tenantId) Post (fun ψ _ => ψ ≠ .idle) .holding := by
  have hbusy : ∀ {φ ψ : Stage} {β : Type} {Q : β → Prop} {r : Except Exc β}, φ ≠ .idle →
      (ψ = φ ∧ ∀ a, r = .ok a → Q a) → ψ ≠ .idle := fun hφ hψ => hψ.1 ▸ hφ
  refine (Follows.perform admits_getPointer).bind (fun ψ parent hψ => ?_) fun ψ e hψ => ?_
  · obtain rfl : ψ = .decided parent := hψ.1.trans (if_pos rfl)
    refine (follows_staying (staying_createSnapshot _)).bind (fun χ inserted hχ => ?_)
      fun χ e => hbusy Stage.noConfusion
    obtain ⟨rfl, hinserted⟩ := hχ
    obtain rfl := hinserted inserted rfl
    have hpromote : Sends (StaysIn ctx.tenantId (.decided parent)) (fun _ _ => True) (retryNeo4jOperation
        (promoteStagingToActive ctx.tenantId (generateRid "snap" ctx.uuid)) maxRetries) :=
      Sends.retry (staying_promote Stage.noConfusion _) maxRetries
    refine (follows_staying hpromote).bind (fun χ _ hχ => ?_) fun χ e => hbusy Stage.noConfusion
    obtain rfl := hχ.1
    refine (follows_setActivePointer parent _).bind (fun χ row hχ => ?_) fun χ e hχ => hχ.1
    obtain ⟨pointer, rfl, rfl⟩ := hχ.2 row rfl
    refine (Follows.perform (admits_publish (by rfl))).bind (fun χ _ hχ => ?_) fun χ e hχ => ?_
    · obtain rfl : χ = .published := hχ.1
      refine (follows_staying (staying_onSchemaPublished _)).bind (fun ω _ hω => ?_)
        fun ω e => hbusy Stage.noConfusion
      rw [hω.1]
      exact Stage.noConfusion
    · rw [hχ.1]
      exact Stage.noConfusion
  · rw [hψ.1]
    exact Stage.noConfusion

theorem follows_commitBody (maxRetries : ℕ) (ctx : Ctx) (m : Option String) : (commitBody maxRetries ctx m).Follows
    (commitStages ctx.tenantId) Post (fun ψ _ => ψ ≠ .idle) .holding := by
  have hread : Sends (StaysIn ctx.tenantId .holding) (fun _ _ => True) (getStagingNodes ctx.tenantId) :=
    Sends.issue (staysIn_plain rfl)
  refine (follows_staying hread).bind (fun ψ nodes hψ => ?_) fun ψ e hψ => by rw [hψ.1]; exact Stage.noConfusion
  obtain rfl := hψ.1
  split
  · exact Stage.noConfusion
  · refine (follows_staying (staying_entityChangesLoop nodes _)).bind (fun ψ changes hψ => ?_)
      fun ψ e hψ => by rw [hψ.1]; exact Stage.noConfusion
    obtain rfl := hψ.1
    exact follows_publishStaging maxRetries ctx m nodes changes

/-- A commit takes the lock first, and drops it in the end. -/
theorem follows_commitStaging (ctx : Ctx) (m : Option String) : (commitStaging ctx m).Follows
    (commitStages ctx.tenantId) Post (fun ψ _ => ψ = .idle) .idle := by
  have htakes : Admits ctx.tenantId .idle (.redisSetNx (.commitLock ctx.tenantId) ctx.userId) :=
    ⟨fun _ _ => rfl, fun h => (nomatch h), fun h => (nomatch h), fun _ _ h => (nomatch h)⟩
  have hdrops : ∀ ψ, ψ ≠ .idle → Admits ctx.tenantId ψ (.redisDelete (.commitLock ctx.tenantId)) :=
    fun ψ hψ => ⟨fun _ h => (nomatch h), fun _ => hψ, fun h => (nomatch h), fun _ _ h => (nomatch h)⟩
  have hdropped : ∀ ψ r, stageAfter ctx.tenantId ψ (.redisDelete (.commitLock ctx.tenantId)) r = .idle := by
    intro ψ r
    cases ψ <;> exact if_pos rfl
  refine (Follows.perform htakes).bind (fun ψ acquired hψ => ?_) fun ψ e hψ => hψ.1
  cases acquired with
  | false => exact hψ.1
  | true =>
    obtain rfl : ψ = .holding := hψ.1.trans (if_pos rfl)
    have hlast : ∀ χ, χ ≠ .idle → (redisDelete (.commitLock ctx.tenantId)).Follows (commitStages ctx.tenantId) Post
        (fun ω _ => ω = .idle) χ :=
      fun χ hχ => (Follows.perform (hdrops χ hχ)).mono fun ω r hω => hω.1.trans (hdropped χ r)
    exact (follows_commitBody defaultMaxRetries ctx m).tryFinally (fun χ _ hχ => hlast χ hχ) (fun ω r hω => hω)
      fun ω e hω => hω

end Commit

/-! ## Turns -/

/-- The tenant's snapshots, the newest first. -/
def World.history (w : World) (tenantId : String) : List Snapshot :=
  w.snapshots.filter fun s => decide (s.tenantId = tenantId)

/-- What the stage knows of the pointer is so. -/
def Stage.Knows (pointer : Option String) : Stage → Prop
  | .decided parent => parent = pointer
  | .ready parent found => parent = pointer ∧ found = pointer
  | _ => True

/-- At most one commit of the tenant is under way; it has the lock, and knows the pointer. -/
structure Turns (tenantId : String) (w : World) (us : List (Call × Stage)) : Prop where
  commits : ∀ u ∈ us, u.2 ≠ .idle → u.1.commitsTo tenantId
  locked : ∀ u ∈ us, u.2 ≠ .idle → (w.redis (.commitLock tenantId)).isSome
  knows : ∀ u ∈ us, u.2.Knows (w.pointers tenantId)
  one : ∀ (i j : ℕ) (u v : Call × Stage), us[i]? = some u → us[j]? = some v → u.2 ≠ .idle → v.2 ≠ .idle → i = j

section Turns
variable {tenantId : String} {w w' : World} {us : List (Call × Stage)} {i : ℕ} {call : Call} {φ ψ : Stage} {c : Cmd}
variable {calls : List Call}

/-- A step that leaves the stages as they are. -/
theorem Turns.mono (h : Turns tenantId w us)
    (hlock : (w.redis (.commitLock tenantId)).isSome → (w'.redis (.commitLock tenantId)).isSome)
    (hpointer : w'.pointers tenantId = w.pointers tenantId) : Turns tenantId w' us where
  commits := h.commits
  locked := fun u hu hbusy => hlock (h.locked u hu hbusy)
  knows := fun u hu => hpointer ▸ h.knows u hu
  one := h.one

/-- When no call is under way, the stores may change in any way. -/
theorem turns_of_idle (h : ∀ u ∈ us, u.2 = .idle) : Turns tenantId w us where
  commits := fun u hu hbusy => absurd (h u hu) hbusy
  locked := fun u hu hbusy => absurd (h u hu) hbusy
  knows := by
    intro u hu
    rw [h u hu]
    trivial
  one := fun i j u v hi hj hbusy => absurd (h u (List.mem_of_getElem? hi)) hbusy

/-- A step of the one call that is under way. -/
theorem turns_of_sole (hothers : ∀ (j : ℕ) (u : Call × Stage), us[j]? = some u → j ≠ i → u.2 = .idle)
    (hcall : ψ ≠ .idle → call.commitsTo tenantId ∧ (w.redis (.commitLock tenantId)).isSome)
    (hknows : ψ.Knows (w.pointers tenantId)) : Turns tenantId w (us.set i (call, ψ)) := by
  have hcases : ∀ (j : ℕ) (u : Call × Stage), (us.set i (call, ψ))[j]? = some u →
      (j = i ∧ u = (call, ψ)) ∨ u.2 = .idle := by
    intro j u hu
    rcases getElem?_set_cases hu with hself | ⟨hne, hu⟩
    · exact .inl hself
    · exact .inr (hothers j u hu hne)
  have hmem : ∀ u ∈ us.set i (call, ψ), u = (call, ψ) ∨ u.2 = .idle := by
    intro u hu
    obtain ⟨j, hj⟩ := List.mem_iff_getElem?.mp hu
    exact (hcases j u hj).imp_left And.right
  refine ⟨fun u hu hbusy => ?_, fun u hu hbusy => ?_, fun u hu => ?_, fun j k u v hj hk hu hv => ?_⟩
  · obtain rfl := (hmem u hu).resolve_right hbusy
    exact (hcall hbusy).1
  · obtain rfl := (hmem u hu).resolve_right hbusy
    exact (hcall hbusy).2
  · rcases hmem u hu with rfl | hidle
    · exact hknows
    · rw [hidle]
      trivial
  · rw [((hcases j u hj).resolve_right hu).1, ((hcases k v hk).resolve_right hv).1]

/-- A call that comes in. -/
theorem Turns.start (h : Turns tenantId w us) (call : Call) : Turns tenantId w (us ++ [(call, .idle)]) := by
  have hmem : ∀ u ∈ us ++ [(call, Stage.idle)], u ∈ us ∨ u.2 = .idle := by
    intro u hu
    rcases List.mem_append.mp hu with hu | hu
    · exact .inl hu
    · exact .inr (congrArg Prod.snd (List.mem_singleton.mp hu))
  have hget : ∀ (i : ℕ) (u : Call × Stage), (us ++ [(call, Stage.idle)])[i]? = some u → u.2 ≠ .idle →
      us[i]? = some u := by
    intro i u hi hbusy
    rw [List.getElem?_append] at hi
    split at hi
    · exact hi
    · exact absurd (congrArg Prod.snd (List.mem_singleton.mp (List.mem_of_getElem? hi))) hbusy
  refine ⟨fun u hu hbusy => ?_, fun u hu hbusy => ?_, fun u hu => ?_, fun i j u v hi hj hbusy hbusy' => ?_⟩
  · exact h.commits u ((hmem u hu).resolve_right hbusy) hbusy
  · exact h.locked u ((hmem u hu).resolve_right hbusy) hbusy
  · rcases hmem u hu with hu | hidle
    · exact h.knows u hu
    · rw [hidle]
      trivial
  · exact h.one i j u v (hget i u hi hbusy) (hget j v hj hbusy') hbusy hbusy'

theorem Turns.others (h : Turns tenantId w us) (hi : us[i]? = some (call, φ)) (hφ : φ ≠ .idle) (j : ℕ)
    (u : Call × Stage) (hj : us[j]? = some u) (hne : j ≠ i) : u.2 = .idle := by
  by_contra hbusy
  exact hne (h.one j i u _ hj hi hbusy hφ)

/-- Without the lock no call is under way. -/
theorem Turns.idle_of_unlocked (h : Turns tenantId w us) (hlock : w.redis (.commitLock tenantId) = none)
    (u : Call × Stage) (hu : u ∈ us) : u.2 = .idle := by
  by_contra hbusy
  have hsome := h.locked u hu hbusy
  rw [hlock] at hsome
  cases hsome

/-- Commands that shift no stage keep the lock and the pointer. -/
theorem exec_still (h : c.shifts tenantId = false) (w : World) :
    (exec c w).2.redis (.commitLock tenantId) = w.redis (.commitLock tenantId) ∧
      (exec c w).2.pointers = w.pointers := by
  cases c with
  | createNode | updateNode | pgFlush =>
    simp only [exec]
    split <;> exact ⟨rfl, rfl⟩
  | redisSetNx key owner =>
    simp only [exec]
    split
    · exact ⟨rfl, rfl⟩
    · exact ⟨Function.update_of_ne (Ne.symm (of_decide_eq_false h)) _ _, rfl⟩
  | redisDelete key => exact ⟨Function.update_of_ne (Ne.symm (of_decide_eq_false h)) _ _, rfl⟩
  | pgCommit => cases h
  | _ => exact ⟨rfl, rfl⟩

/-- A row of the tenant's that is committed with its snapshot. -/
theorem exec_publish {s : Snapshot} {pointer : Option String} (hpointer : pointer = w.pointers tenantId) :
    ((exec (.pgCommit [.insertSnapshot s, rowFor tenantId s.snapshotId pointer]) w).2.snapshots = w.snapshots ∧
      (exec (.pgCommit [.insertSnapshot s, rowFor tenantId s.snapshotId pointer]) w).2.pointers = w.pointers) ∨
    ((exec (.pgCommit [.insertSnapshot s, rowFor tenantId s.snapshotId pointer]) w).2.snapshots = s :: w.snapshots ∧
      (exec (.pgCommit [.insertSnapshot s, rowFor tenantId s.snapshotId pointer]) w).2.pointers tenantId =
        some s.snapshotId) := by
  simp only [exec]
  split
  · exact .inl ⟨rfl, rfl⟩
  · right
    subst hpointer
    cases hp : w.pointers tenantId with
    | none => exact ⟨rfl, Function.update_self ..⟩
    | some old =>
      refine ⟨rfl, (Function.update_self ..).trans ?_⟩
      show (w.pointers tenantId).map (fun _ => s.snapshotId) = _
      rw [hp]
      rfl

/-- A row of another tenant's. -/
theorem pointers_elsewhere {row : PgWrite} {owner id : String} (hrow : row.PointsTo owner id) (hne : tenantId ≠ owner) :
    (row.apply w).pointers tenantId = w.pointers tenantId ∧ (row.apply w).snapshots = w.snapshots := by
  rcases hrow with rfl | rfl <;> exact ⟨Function.update_of_ne hne _ _, rfl⟩

/-- Nothing but the stores changes. -/
theorem Turns.stays (h : Turns tenantId w us) (hi : us[i]? = some (call, φ)) :
    Turns tenantId w (us.set i (call, φ)) := by
  obtain ⟨hlt, hget⟩ := List.getElem?_eq_some_iff.mp hi
  rw [← hget, List.set_getElem_self]
  exact h

theorem Turns.take (h : Turns tenantId w us) (hi : us[i]? = some (call, .idle)) {owner : String}
    (hown : Own calls call (.redisSetNx (.commitLock tenantId) owner))
    {r : Except Exc (Cmd.redisSetNx (.commitLock tenantId) owner).Answer}
    (hr : r = (exec (.redisSetNx (.commitLock tenantId) owner) w).1 ∨ ∃ x, r = .error x) :
    Turns tenantId (exec (.redisSetNx (.commitLock tenantId) owner) w).2
      (us.set i (call, stageAfter tenantId .idle (.redisSetNx (.commitLock tenantId) owner) r)) := by
  simp only [exec] at hr ⊢
  split
  next value hlock =>
    rw [hlock] at hr
    obtain rfl | ⟨x, rfl⟩ := hr <;> exact h.stays hi
  next hlock =>
    have hothers : ∀ (j : ℕ) (u : Call × Stage), us[j]? = some u → j ≠ i → u.2 = .idle :=
      fun j u hj _ => h.idle_of_unlocked hlock u (List.mem_of_getElem? hj)
    have hlocked : ((w.setKey (.commitLock tenantId) (some owner)).redis (.commitLock tenantId)).isSome := by
      simp [World.setKey]
    rw [hlock] at hr
    obtain rfl | ⟨x, rfl⟩ := hr
    · have htaken : stageAfter tenantId .idle (.redisSetNx (.commitLock tenantId) owner) (.ok true) = .holding :=
        if_pos rfl
      refine turns_of_sole hothers (fun _ => ⟨commitsTo_of_lock hown (.inl ⟨owner, rfl⟩), hlocked⟩) ?_
      exact htaken ▸ trivial
    · exact turns_of_sole hothers (fun hne => absurd rfl hne) trivial

theorem Turns.drop (h : Turns tenantId w us) (hi : us[i]? = some (call, φ)) (hbusy : φ ≠ .idle)
    (r : Except Exc (Cmd.redisDelete (.commitLock tenantId)).Answer) :
    Turns tenantId (exec (.redisDelete (.commitLock tenantId)) w).2
      (us.set i (call, stageAfter tenantId φ (.redisDelete (.commitLock tenantId)) r)) := by
  have hidle : stageAfter tenantId φ (.redisDelete (.commitLock tenantId)) r = .idle := by
    cases φ <;> exact if_pos rfl
  rw [hidle]
  exact turns_of_sole (h.others hi hbusy) (fun hne => absurd rfl hne) trivial

theorem Turns.read (h : Turns tenantId w us) (hi : us[i]? = some (call, φ))
    {r : Except Exc (Cmd.pgGetPointer tenantId).Answer}
    (hr : r = (exec (.pgGetPointer tenantId) w).1 ∨ ∃ x, r = .error x) :
    Turns tenantId w (us.set i (call, stageAfter tenantId φ (.pgGetPointer tenantId) r)) := by
  have hmem : (call, φ) ∈ us := List.mem_of_getElem? hi
  have hself : ∀ ψ, φ ≠ .idle → ψ.Knows (w.pointers tenantId) → Turns tenantId w (us.set i (call, ψ)) :=
    fun ψ hbusy => turns_of_sole (h.others hi hbusy) fun _ => ⟨h.commits _ hmem hbusy, h.locked _ hmem hbusy⟩
  obtain rfl | ⟨x, rfl⟩ := hr
  · cases φ with
    | holding =>
      have hread : stageAfter tenantId .holding (.pgGetPointer tenantId) (exec (.pgGetPointer tenantId) w).1 =
          .decided (w.pointers tenantId) := if_pos rfl
      rw [hread]
      exact hself _ Stage.noConfusion rfl
    | decided parent =>
      have hread : stageAfter tenantId (.decided parent) (.pgGetPointer tenantId)
          (exec (.pgGetPointer tenantId) w).1 = .ready parent (w.pointers tenantId) := if_pos rfl
      rw [hread]
      exact hself _ Stage.noConfusion ⟨h.knows _ hmem, rfl⟩
    | _ => exact h.stays hi
  · cases φ <;> exact h.stays hi

theorem pgCommit_redis (rows : List PgWrite) (w : World) : (exec (.pgCommit rows) w).2.redis = w.redis := by
  simp only [exec]
  split
  · rfl
  · exact foldl_apply_redis rows w

/-- The rows of another tenant's call. -/
theorem pgCommit_elsewhere {rows : List PgWrite} (hown : Own calls call (.pgCommit rows))
    (hne : call.ctx.tenantId ≠ tenantId) (w : World) :
    (exec (.pgCommit rows) w).2.pointers tenantId = w.pointers tenantId ∧
      (exec (.pgCommit rows) w).2.history tenantId = w.history tenantId := by
  simp only [exec]
  split
  · exact ⟨rfl, rfl⟩
  · obtain ⟨_, hissues, _⟩ := hown
    cases hissues with
    | @publish ctx m snapshot row id tenant points =>
      obtain ⟨hpointers, hsnapshots⟩ :=
        pointers_elsewhere (w := PgWrite.apply w (.insertSnapshot snapshot)) points (Ne.symm hne)
      refine ⟨hpointers, ?_⟩
      rw [List.foldl_cons, List.foldl_cons, List.foldl_nil, World.history, hsnapshots, World.history]
      exact List.filter_cons_of_neg (by simpa [tenant] using hne)
    | @repoint ctx target row points =>
      obtain ⟨hpointers, hsnapshots⟩ := pointers_elsewhere (w := w) points (Ne.symm hne)
      refine ⟨hpointers, ?_⟩
      rw [List.foldl_cons, List.foldl_nil, World.history, hsnapshots, World.history]
    | quiet hq => cases hq

/-- Rows that are committed; a rollback's, only while no commit is under way. -/
theorem Turns.write (h : Turns tenantId w us) (hi : us[i]? = some (call, φ)) {rows : List PgWrite}
    (hown : Own calls call (.pgCommit rows)) (hadmits : Admits tenantId φ (.pgCommit rows))
    (hrollback : call.ctx.tenantId = tenantId → call.op.commits = false → ∀ u ∈ us, u.2 = .idle)
    (r : Except Exc (Cmd.pgCommit rows).Answer) :
    Turns tenantId (exec (.pgCommit rows) w).2 (us.set i (call, stageAfter tenantId φ (.pgCommit rows) r)) := by
  have hmem : (call, φ) ∈ us := List.mem_of_getElem? hi
  by_cases htenant : call.ctx.tenantId = tenantId
  · have hissues := hown.2.1
    cases hissues with
    | @publish ctx m snapshot row id tenant points =>
      obtain ⟨pointer, hφ, _⟩ := hadmits.publishes _ snapshot rfl List.mem_cons_self (tenant.trans htenant)
      subst hφ
      refine turns_of_sole (h.others hi Stage.noConfusion) (fun _ => ⟨h.commits _ hmem Stage.noConfusion, ?_⟩) trivial
      rw [pgCommit_redis]
      exact h.locked _ hmem Stage.noConfusion
    | repoint points =>
      have hidle : ∀ u ∈ us, u.2 = .idle := hrollback htenant rfl
      obtain rfl : φ = .idle := hidle _ hmem
      exact (turns_of_idle hidle).stays hi
    | quiet hq => cases hq
  · have hidle : φ = .idle := by
      by_contra hbusy
      exact htenant (h.commits _ hmem hbusy).2
    subst hidle
    have hkept : Turns tenantId (exec (.pgCommit rows) w).2 us :=
      h.mono (fun hlock => by rwa [pgCommit_redis]) (pgCommit_elsewhere hown htenant w).1
    exact hkept.stays hi

/-- Each command that takes effect keeps the turns. -/
theorem Turns.executed (h : Turns tenantId w us) (hi : us[i]? = some (call, φ)) (hown : Own calls call c)
    (hadmits : Admits tenantId φ c)
    (hrollback : ∀ rows, c = .pgCommit rows → call.ctx.tenantId = tenantId → call.op.commits = false →
      ∀ u ∈ us, u.2 = .idle)
    {r : Except Exc c.Answer} (hr : r = (exec c w).1 ∨ ∃ x, r = .error x) :
    Turns tenantId (exec c w).2 (us.set i (call, stageAfter tenantId φ c r)) := by
  cases hshift : c.shifts tenantId with
  | false =>
    obtain ⟨hredis, hpointers⟩ := exec_still hshift w
    rw [stageAfter_still hshift]
    exact (h.mono (fun hlock => hredis ▸ hlock) (congrFun hpointers tenantId)).stays hi
  | true =>
    cases c with
    | redisSetNx key owner =>
      obtain rfl : key = .commitLock tenantId := of_decide_eq_true hshift
      obtain rfl : φ = .idle := hadmits.takes owner rfl
      exact h.take hi hown hr
    | redisDelete key =>
      obtain rfl : key = .commitLock tenantId := of_decide_eq_true hshift
      exact h.drop hi (hadmits.drops rfl) r
    | pgGetPointer owner =>
      obtain rfl : owner = tenantId := of_decide_eq_true hshift
      exact h.read hi hr
    | pgCommit rows => exact h.write hi hown hadmits (hrollback rows rfl) r
    | _ => cases hshift

/-- A command that is refused. -/
theorem Turns.refused (h : Turns tenantId w us) (hi : us[i]? = some (call, φ)) (hadmits : Admits tenantId φ c) (x : Exc) :
    Turns tenantId w (us.set i (call, stageAfter tenantId φ c (.error x))) := by
  have hmem : (call, φ) ∈ us := List.mem_of_getElem? hi
  have hself : ∀ ψ, φ ≠ .idle → ψ.Knows (w.pointers tenantId) → Turns tenantId w (us.set i (call, ψ)) :=
    fun ψ hbusy => turns_of_sole (h.others hi hbusy) fun _ => ⟨h.commits _ hmem hbusy, h.locked _ hmem hbusy⟩
  cases hshift : c.shifts tenantId with
  | false =>
    rw [stageAfter_still hshift]
    exact h.stays hi
  | true =>
    cases c with
    | redisSetNx key owner =>
      obtain rfl : key = .commitLock tenantId := of_decide_eq_true hshift
      obtain rfl : φ = .idle := hadmits.takes owner rfl
      exact h.stays hi
    | redisDelete key =>
      obtain rfl : key = .commitLock tenantId := of_decide_eq_true hshift
      have hidle : stageAfter tenantId φ (.redisDelete (.commitLock tenantId)) (.error x) = .idle := by
        cases φ <;> exact if_pos rfl
      rw [hidle]
      exact hself .idle (hadmits.drops rfl) trivial
    | pgGetPointer owner => cases φ <;> exact h.stays hi
    | pgCommit rows =>
      cases φ with
      | ready parent pointer => exact hself .published Stage.noConfusion trivial
      | _ => exact h.stays hi
    | _ => cases hshift

end Turns

/-! ## Runs -/

def Cmd.takesLock (tenantId : String) : Cmd → Bool
  | .redisSetNx key _ => key = .commitLock tenantId
  | _ => false

/-- No commit of the tenant is under way: each has ended, or has yet to take the lock. -/
def BetweenCommits (tenantId : String) (p : Calls) : Prop :=
  ∀ t ∈ p.threads, t.1.commitsTo tenantId → t.2.head.all (Cmd.takesLock tenantId)

/-- The commit lock expires, or a rollback writes the pointer. -/
def disturbs (tenantId : String) (p : Calls) (e : CallEvent) : Bool :=
  match p.issues e, e with
  | some (k, .pgCommit _), _ => decide (k.ctx.tenantId = tenantId) && !k.op.commits
  | _, .env (.expire key) => decide (key = .commitLock tenantId)
  | _, _ => false

/-- The commit lock expires, and rollbacks write the pointer, only between commits. -/
def Undisturbed (tenantId : String) (p : Calls) (e : CallEvent) : Prop :=
  disturbs tenantId p e = true → BetweenCommits tenantId p

/-- What a step may do to the snapshots of the tenant and its pointer. -/
inductive Proceeds (tenantId : String) (p : Calls) (e : CallEvent) : Prop where
  | still (history : (concurrent.next p e).state.history tenantId = p.state.history tenantId)
      (pointer : (concurrent.next p e).state.pointers tenantId = p.state.pointers tenantId)
  /-- A snapshot is published on the one that was current. -/
  | published (s : Snapshot)
      (history : (concurrent.next p e).state.history tenantId = s :: p.state.history tenantId)
      (parent : s.parentSnapshotId = p.state.pointers tenantId)
      (pointer : (concurrent.next p e).state.pointers tenantId = some s.snapshotId)
  | rolledBack {call : Call} {c : Cmd} (issued : p.issues e = some (call, c)) (tenant : call.ctx.tenantId = tenantId)
      (target : call.op.target.isSome) (history : (concurrent.next p e).state.history tenantId = p.state.history tenantId)

/-- Each snapshot names the next older as its parent, from the current one on. -/
inductive Lineage : Option String → List Snapshot → Prop where
  | first : Lineage none []
  | next (s : Snapshot) {older : List Snapshot} (h : Lineage s.parentSnapshotId older) :
    Lineage (some s.snapshotId) (s :: older)

section Runs
variable {tenantId : String} {calls : List Call} {p : Calls} {us : List (Call × Stage)} {e : CallEvent}

instance (tenantId : String) (call : Call) : Decidable (call.commitsTo tenantId) :=
  inferInstanceAs (Decidable (_ ∧ _))

instance (tenantId : String) (p : Calls) : Decidable (BetweenCommits tenantId p) :=
  inferInstanceAs (Decidable (∀ t ∈ p.threads, t.1.commitsTo tenantId → t.2.head.all (Cmd.takesLock tenantId) = true))

instance (tenantId : String) (p : Calls) (e : CallEvent) : Decidable (Undisturbed tenantId p e) :=
  inferInstanceAs (Decidable (_ → _))

/-- A commit keeps to the stages, and to what its call may send. -/
def ownStages (tenantId : String) (calls : List Call) (call : Call) : Discipline Cmd Cmd.Answer Exc Stage :=
  ⟨fun φ c => Own calls call c ∧ Admits tenantId φ c, stageAfter tenantId⟩

theorem follows_service {call : Call} (h : call ∈ calls) : (service call).Follows (ownStages tenantId calls call)
    (Answers fun _ => True) (fun φ _ => φ = .idle) .idle := by
  by_cases hcommits : call.commitsTo tenantId
  · obtain ⟨ctx, op⟩ := call
    obtain ⟨hop, rfl⟩ := hcommits
    cases op with
    | commitStaging m =>
      have hservice : (service ⟨ctx, .commitStaging m⟩).Follows (commitStages ctx.tenantId) (Answers fun _ => True)
          (fun φ _ => φ = .idle) .idle :=
        (follows_commitStaging ctx m).bind (fun ψ _ hψ => hψ) fun ψ _ hψ => hψ
      exact hservice.and_meets (meets_own h)
    | _ => cases hop
  · have hstays := fun c (hc : Own calls call c) => idle_of_not_commitsTo hc hcommits
    have hfollows : (service call).Follows (ownStages tenantId calls call) (Answers fun _ => True) _ .idle :=
      (meets_own h).follows fun c hc => ⟨⟨hc, (hstays c hc).1⟩, (hstays c hc).2⟩
    exact hfollows.mono fun ψ r hψ => hψ.1

/-- The threads with their stages. -/
abbrev InStages (tenantId : String) (calls : List Call) (p : Calls) (us : List (Call × Stage)) : Prop :=
  System.Tracks (ownStages tenantId calls) (Answers fun _ => True) (fun φ _ => φ = .idle) (Turns tenantId) p us

/-- Between commits all calls are in their first stage. -/
theorem idle_of_between (h : InStages tenantId calls p us) (hp : BetweenCommits tenantId p) :
    ∀ u ∈ us, u.2 = .idle := by
  intro u hu
  by_contra hbusy
  obtain ⟨i, hi⟩ := List.mem_iff_getElem?.mp hu
  obtain ⟨⟨k, q⟩, hthread, rfl, hfollows⟩ := System.getElem?_forall₂ h.phases.flip hi
  have hhead := hp _ (List.mem_of_getElem? hthread) (h.inv.commits u hu hbusy)
  cases q with
  | pure a => exact hbusy hfollows
  | throw x => exact hbusy hfollows
  | call c next =>
    obtain ⟨⟨_, hadmits⟩, _⟩ := hfollows
    cases c with
    | redisSetNx key owner =>
      obtain rfl : key = .commitLock tenantId := of_decide_eq_true hhead
      exact hbusy (hadmits.takes owner rfl)
    | _ => cases hhead

/-- A rollback that writes the pointer disturbs the commits. -/
theorem between_of_rollback (h : Undisturbed tenantId p e) {call : Call} {rows : List PgWrite}
    (hissued : p.issues e = some (call, .pgCommit rows)) (htenant : call.ctx.tenantId = tenantId)
    (hop : call.op.commits = false) : BetweenCommits tenantId p := by
  have hdisturbs : disturbs tenantId p e = true := by
    simp [disturbs, hissued, htenant, hop]
  exact h hdisturbs

theorem between_of_expiry (h : Undisturbed tenantId p (.env (.expire (.commitLock tenantId)))) :
    BetweenCommits tenantId p := h (decide_eq_true rfl)

theorem permits_of_undisturbed (h : Undisturbed tenantId p e) : System.Permits
    (fun p call c => ∀ rows, c = .pgCommit rows → call.ctx.tenantId = tenantId → call.op.commits = false →
      BetweenCommits tenantId p)
    (fun p v => v = Env.expire (.commitLock tenantId) → BetweenCommits tenantId p) p e := by
  refine ⟨fun call c hissued rows hc htenant hop => ?_, fun v he hv => ?_⟩
  · subst hc
    exact between_of_rollback h hissued htenant hop
  · subst he hv
    exact between_of_expiry h

theorem keeps_turns : System.Keeps concurrent (ownStages tenantId calls) (Answers fun _ => True) (fun φ _ => φ = .idle)
    (fun _ => .idle) (Turns tenantId)
    (fun p call c => ∀ rows, c = .pgCommit rows → call.ctx.tenantId = tenantId → call.op.commits = false →
      BetweenCommits tenantId p)
    (fun p v => v = Env.expire (.commitLock tenantId) → BetweenCommits tenantId p) where
  start := fun w us call h => h.start call
  env := by
    intro p us v h hv
    by_cases hexpires : v = .expire (.commitLock tenantId)
    · exact turns_of_idle (idle_of_between h (hv hexpires))
    · refine h.inv.mono (fun hlock => ?_) (congrFun (v.apply_pointers p.state) tenantId)
      cases v with
      | expire key =>
        have hkey : RedisKey.commitLock tenantId ≠ key := fun hkey => hexpires (congrArg Env.expire hkey.symm)
        have hkept : (p.state.setKey key none).redis (.commitLock tenantId) = p.state.redis (.commitLock tenantId) :=
          Function.update_of_ne hkey _ _
        show ((p.state.setKey key none).redis (.commitLock tenantId)).isSome
        rw [hkept]
        exact hlock
      | _ => exact hlock
  answers := fun p us call c _ _ a ha => exec_answers (fun _ _ => trivial) c a ha
  executed := by
    intro p us i call φ c r h hi hadmits hcan hr
    refine h.inv.executed hi hadmits.1 hadmits.2 (fun rows hc htenant hop => ?_) hr
    exact idle_of_between h (hcan rows hc htenant hop)
  refused := fun w us i call φ c x h hi hadmits => h.refused hi hadmits.2 x

/-- Commands that commit no rows. -/
theorem exec_rows {c : Cmd} (h : ∀ rows, c ≠ .pgCommit rows) (w : World) :
    (exec c w).2.snapshots = w.snapshots ∧ (exec c w).2.pointers = w.pointers := by
  cases c with
  | createNode | updateNode | pgFlush | redisSetNx =>
    simp only [exec]
    split <;> exact ⟨rfl, rfl⟩
  | pgCommit rows => exact absurd rfl (h rows)
  | _ => exact ⟨rfl, rfl⟩

theorem proceeds (h : InStages tenantId calls p us) : Proceeds tenantId p e := by
  have hstill : (concurrent.next p e).state.snapshots = p.state.snapshots →
      (concurrent.next p e).state.pointers = p.state.pointers → Proceeds tenantId p e :=
    fun hsnapshots hpointers => .still (by rw [World.history, hsnapshots]; rfl) (congrFun hpointers tenantId)
  obtain ⟨call, c, hissued, hstate⟩ | ⟨_, v, hstate⟩ | ⟨_, hstate⟩ := concurrent_step p e
  · obtain ⟨φ, hmem, hown, hadmits⟩ := h.issued hissued
    by_cases hrows : ∃ rows, c = .pgCommit rows
    · obtain ⟨rows, rfl⟩ := hrows
      by_cases htenant : call.ctx.tenantId = tenantId
      · have hissues := hown.2.1
        cases hissues with
        | @publish ctx m snapshot row id tenant points =>
          obtain ⟨pointer, rfl, hall⟩ :=
            hadmits.publishes _ snapshot rfl List.mem_cons_self (tenant.trans htenant)
          obtain ⟨hparent, hpointer⟩ := h.inv.knows _ hmem
          rw [hall] at hstate
          rcases exec_publish (w := p.state) (s := snapshot) hpointer with ⟨hsnapshots, hpointers⟩ | ⟨hsnapshots, hnew⟩
          · exact hstill (hstate ▸ hsnapshots) (hstate ▸ hpointers)
          · refine .published snapshot ?_ hparent (hstate ▸ hnew)
            rw [hstate, World.history, hsnapshots]
            exact List.filter_cons_of_pos (decide_eq_true (tenant.trans htenant))
        | @repoint ctx target row points =>
          refine .rolledBack hissued htenant rfl ?_
          rw [hstate, World.history]
          simp only [exec]
          split
          · rfl
          · rw [List.foldl_cons, List.foldl_nil, points.snapshots]
            rfl
        | quiet hq => cases hq
      · obtain ⟨hpointer, hhistory⟩ := pgCommit_elsewhere hown htenant p.state
        exact .still (hstate ▸ hhistory) (hstate ▸ hpointer)
    · have hsame := exec_rows (fun rows hc => hrows ⟨rows, hc⟩) p.state
      exact hstill (hstate ▸ hsame.1) (hstate ▸ hsame.2)
  · exact hstill (hstate ▸ v.apply_snapshots p.state) (hstate ▸ v.apply_pointers p.state)
  · exact hstill (hstate ▸ rfl) (hstate ▸ rfl)

/-- Two commits are never both about to promote. -/
theorem one_promotes (h : InStages tenantId calls p us) {i j : ℕ} {call call' : Call} {c c' : Cmd}
    (hi : p.pending i = some (call, c)) (hj : p.pending j = some (call', c')) (hc : c.promotesFor tenantId)
    (hc' : c'.promotesFor tenantId) : i = j := by
  obtain ⟨φ, hu, _, hadmits⟩ := h.pending hi
  obtain ⟨φ', hu', _, hadmits'⟩ := h.pending hj
  exact h.inv.one i j _ _ hu hu' (hadmits.promotes hc) (hadmits'.promotes hc')

theorem Lineage.proceeds (h : Lineage (p.state.pointers tenantId) (p.state.history tenantId))
    (hp : Proceeds tenantId p e)
    (hforward : ∀ call c, p.issues e = some (call, c) → call.ctx.tenantId = tenantId → call.op.target = none) :
    Lineage ((concurrent.next p e).state.pointers tenantId) ((concurrent.next p e).state.history tenantId) := by
  cases hp with
  | still history pointer =>
    rw [history, pointer]
    exact h
  | published s history parent pointer =>
    rw [history, pointer]
    exact .next s (parent ▸ h)
  | @rolledBack call c issued tenant target history =>
    rw [hforward call c issued tenant] at target
    cases target

theorem Lineage.run {es : List CallEvent} (h : Lineage (p.state.pointers tenantId) (p.state.history tenantId))
    (hp : StepsMeet concurrent.next (fun p e => Proceeds tenantId p e ∧
      ∀ call c, p.issues e = some (call, c) → call.ctx.tenantId = tenantId → call.op.target = none) p es) :
    Lineage ((runFrom concurrent.next p es).state.pointers tenantId)
      ((runFrom concurrent.next p es).state.history tenantId) :=
  steps_inv (J := fun p : Calls => Lineage (p.state.pointers tenantId) (p.state.history tenantId))
    (fun _ _ hnow hstep => hnow.proceeds hstep.1 hstep.2) h hp

end Runs

/-- As long as the commit lock of a tenant expires, and rollbacks write its pointer, only between its commits, no two
commits of the tenant are ever about to promote, and each snapshot is published on the one that was current; without
rollbacks, the tenant's snapshots are one line, from the current one back to the first. -/
theorem publishes_in_turn {es : List CallEvent} {tenantId : String}
    (h : StepsMeet concurrent.next (Undisturbed tenantId) noCalls es) :
    StepsMeet concurrent.next (fun p e => Proceeds tenantId p e ∧ ∀ (i j : ℕ) (call call' : Call) (c c' : Cmd),
      p.pending i = some (call, c) → p.pending j = some (call', c') → c.promotesFor tenantId →
        c'.promotesFor tenantId → i = j) noCalls es ∧
    ((∀ call ∈ started es, call.ctx.tenantId = tenantId → call.op.target = none) →
      Lineage ((runFrom concurrent.next noCalls es).state.pointers tenantId)
        ((runFrom concurrent.next noCalls es).state.history tenantId)) := by
  have hstart : InStages tenantId (started es) noCalls [] := ⟨.nil, turns_of_idle fun u hu => nomatch hu⟩
  have hcalls : ∀ call, Event.start call ∈ es → (service call).Follows (ownStages tenantId (started es) call)
      (Answers fun _ => True) (fun φ _ => φ = .idle) .idle :=
    fun call hcall => follows_service (List.mem_filterMap.mpr ⟨.start call, hcall, rfl⟩)
  have hpermits := h.mono fun _ _ hstep => permits_of_undisturbed hstep
  refine ⟨?_, fun hforward => ?_⟩
  · refine keeps_turns.run hstart hcalls hpermits fun p us e ht _ => ⟨proceeds ht, ?_⟩
    exact fun i j call call' c c' hi hj hc hc' => one_promotes ht hi hj hc hc'
  · refine Lineage.run .first (keeps_turns.run hstart hcalls hpermits fun p us e ht _ => ⟨proceeds ht, ?_⟩)
    intro call c hissued htenant
    obtain ⟨_, _, hown, _⟩ := ht.issued hissued
    exact hforward call hown.1 htenant

/-- One commit after a first, while another is refused for the lock; the lock expires in the end. -/
def overlappingCommits : List CallEvent :=
  inTurn [⟨⟨"t", "u", "1", "a"⟩, .create .objectType [(.apiName, .str "Order")]⟩,
    ⟨⟨"t", "u", "2", "b"⟩, .submitToStaging .objectType "ri.obj.a"⟩,
    ⟨⟨"t", "u", "3", "c"⟩, .commitStaging none⟩,
    ⟨⟨"t", "u", "4", "d"⟩, .create .objectType [(.apiName, .str "Item")]⟩,
    ⟨⟨"t", "u", "5", "e"⟩, .submitToStaging .objectType "ri.obj.d"⟩] ++
  [.start ⟨⟨"t", "u", "6", "f"⟩, .commitStaging none⟩, .start ⟨⟨"t", "v", "7", "g"⟩, .commitStaging none⟩,
    .step 6, .step 5] ++ List.replicate 15 (.step 6) ++ [.env (.expire (.commitLock "t"))]

theorem publishes_in_turn_overlappingCommits :
    ((runFrom concurrent.next noCalls overlappingCommits).state.history "t").map Snapshot.snapshotId =
      ["ri.snap.g", "ri.snap.c"] ∧
    Lineage ((runFrom concurrent.next noCalls overlappingCommits).state.pointers "t")
      ((runFrom concurrent.next noCalls overlappingCommits).state.history "t") :=
  ⟨by decide +kernel, (publishes_in_turn (by decide +kernel)).2 (by decide +kernel)⟩

end Lingshu.Ontology
