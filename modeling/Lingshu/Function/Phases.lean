import Lingshu.Function.Overlap

/-! # The phases of a run

While calls do not overlap, the pool goes through phases: nobody is at work on the execution, one confirmation
prepares its run or has the engine running, it records the run, the execution has a final status. -/
namespace Lingshu.Function
open Json Data Interaction Interaction.Prog
set_option autoImplicit false

variable {World : Type} {rt : Runtime} {env : Env World} {id T : String}
variable {w w' : Watch World}

/-- A confirmation that started the engine has recorded its run or has ended. -/
def Rested (id : String) (w : Watch World) (i : ℕ) (t : Thread) : Prop :=
  t.1.confirms id = true → began w i = true → recorded w i = true ∨ t.2.head = none

/-- The threads other than `i` are calm. -/
def OthersRest (rt : Runtime) (id : String) (w : Watch World) (i : ℕ) : Prop :=
  ∀ j t, j ≠ i → w.pool.threads[j]? = some t → Calm rt id t ∧ Rested id w j t

/-- The phases of a run in which nobody finds the execution pending while another one is at work on it. -/
inductive Phase (rt : Runtime) (id T : String) (w : Watch World) : Prop where
  /-- It is pending; some may be about to cancel it. -/
  | idle (row : RowIs id T w.pool.state .pendingConfirmation)
      (threads : ∀ j t, w.pool.threads[j]? = some t →
        (Calm rt id t ∧ Rested id w j t) ∨ (t.1.cancels id = true ∧ Cancelling id T t.2))
      (unrecorded : ∀ j t, w.pool.threads[j]? = some t → t.1.confirms id = true → recorded w j = false)
  /-- Thread `i` prepares its run or has the engine running. -/
  | active (i : ℕ) (κ : Call) (q : Program Reply) (thread : w.pool.threads[i]? = some (κ, q))
      (confirms : κ.confirms id = true) (row : RowIs id T w.pool.state .pendingConfirmation)
      (stage : (Preparing id T q ∧ began w i = false) ∨ Running id T q)
      (going : q.head ≠ none) (before : q.head.any Cmd.isCreate = false)
      (others : OthersRest rt id w i)
      (unrecorded : ∀ j t, w.pool.threads[j]? = some t → t.1.confirms id = true → recorded w j = false)
  /-- The run of thread `i` is over, its status is not written yet. -/
  | recording (i : ℕ) (κ : Call) (q : Program Reply) (thread : w.pool.threads[i]? = some (κ, q))
      (confirms : κ.confirms id = true) (row : RowIs id T w.pool.state .pendingConfirmation)
      (stage : Recording id T q) (made : q.head.any Cmd.isCreate = true ∨ recorded w i = true)
      (others : OthersRest rt id w i)
      (unrecorded : ∀ j t, j ≠ i → w.pool.threads[j]? = some t → t.1.confirms id = true → recorded w j = false)
  /-- It has a final status; some may be about to cancel it again. -/
  | settled (st : Status) (final : st ∈ finalStatuses) (row : RowIs id T w.pool.state st)
      (threads : ∀ j t, w.pool.threads[j]? = some t →
        (Calm rt id t ∧ Rested id w j t) ∨ (t.1.cancels id = true ∧ Cancelling id T t.2 ∧ st = .cancelled))
      (one : ∀ i j t t', w.pool.threads[i]? = some t → w.pool.threads[j]? = some t' →
        t.1.confirms id = true → t'.1.confirms id = true → recorded w i = true → recorded w j = true → i = j)

/-- The log is about threads that there are. -/
def Logged (w : Watch World) : Prop := ∀ e ∈ w.log, e.1 < w.pool.threads.length

theorem Logged.none (h : Logged w) {i : ℕ} (hi : w.pool.threads.length ≤ i) :
    began w i = false ∧ recorded w i = false := by
  have hne : ∀ e ∈ w.log, (decide (e.1 = i)) = false := by
    intro e he
    have hlt := h e he
    exact decide_eq_false (by omega)
  constructor <;> refine List.any_eq_false.mpr fun e he => ?_ <;> simp [hne e he]

theorem Logged.moves {i : ℕ} {κ : Call} {c : Cmd} {k : Except Exc (Ans c) → Program Reply}
    {r : Except Exc (Ans c)} (h : Logged w) (hm : ThreadMoves id T w w' i κ c k r) : Logged w' := by
  obtain ⟨hlt, -⟩ := List.getElem?_eq_some_iff.mp hm.thread
  intro e he
  rw [hm.threads, List.length_set]
  rcases hm.log with hlog | ⟨hlog, -⟩
  · rw [hlog] at he
    rcases List.mem_append.mp he with he | he
    · exact h e he
    · rw [List.mem_singleton.mp he]
      exact hlt
  · exact h e (hlog ▸ he)

/-! ### A call comes in -/

theorem Extends.getElem? (h : Extends rt w w') {j : ℕ} {t : Thread} (hj : w'.pool.threads[j]? = some t) :
    w.pool.threads[j]? = some t ∨ (w.pool.threads.length ≤ j ∧ ∃ κ, t = (κ, service rt κ)) := by
  rcases h.threads with ht | ⟨κ, ht⟩
  · exact .inl (ht ▸ hj)
  · rw [ht] at hj
    rcases Nat.lt_or_ge j w.pool.threads.length with hlt | hge
    · exact .inl (by rwa [List.getElem?_append_left hlt] at hj)
    · refine .inr ⟨hge, κ, ?_⟩
      rw [List.getElem?_append_right hge] at hj
      exact (List.mem_singleton.mp (List.mem_of_getElem? hj))

theorem Extends.persists (h : Extends rt w w') {j : ℕ} {t : Thread} (hj : w.pool.threads[j]? = some t) :
    w'.pool.threads[j]? = some t := by
  rcases h.threads with ht | ⟨κ, ht⟩
  · rwa [ht]
  · obtain ⟨hlt, -⟩ := List.getElem?_eq_some_iff.mp hj
    rwa [ht, List.getElem?_append_left hlt]

theorem Extends.row (h : Extends rt w w') {st : Status} (hrow : RowIs id T w.pool.state st) :
    RowIs id T w'.pool.state st := by
  obtain ⟨x, hx, hT, hst⟩ := hrow
  exact ⟨x, (congrFun h.executions id).trans hx, hT, hst⟩

theorem Extends.began (h : Extends rt w w') (j : ℕ) : Function.began w' j = Function.began w j := by
  rw [Function.began, h.log, Function.began]

theorem Extends.recorded (h : Extends rt w w') (j : ℕ) : Function.recorded w' j = Function.recorded w j := by
  rw [Function.recorded, h.log, Function.recorded]

theorem Extends.rested (h : Extends rt w w') {j : ℕ} {t : Thread} (hr : Rested id w j t) : Rested id w' j t := by
  intro hκ hb
  rw [h.recorded]
  exact hr hκ (h.began j ▸ hb)

theorem Extends.unrecorded (h : Extends rt w w') (hl : Logged w) {j : ℕ} (hj : w.pool.threads.length ≤ j) :
    Function.recorded w' j = false := (h.recorded j).trans (hl.none hj).2

/-- A call that comes in is calm and has logged nothing. -/
theorem Extends.fresh (h : Extends rt w w') (hl : Logged w) {j : ℕ} (hj : w.pool.threads.length ≤ j) (κ : Call) :
    Calm rt id (κ, service rt κ) ∧ Rested id w' j (κ, service rt κ) := by
  obtain ⟨hb, -⟩ := hl.none hj
  refine ⟨Calm.arrives κ, ?_⟩
  intro _ hb'
  rw [h.began, hb] at hb'
  cases hb'

theorem Phase.extends (h : Phase rt id T w) (hl : Logged w) (hx : Extends rt w w') : Phase rt id T w' := by
  have hothers : ∀ {i : ℕ} {t : Thread}, w.pool.threads[i]? = some t → OthersRest rt id w i →
      OthersRest rt id w' i := by
    intro i t hi ho j t' hji hj
    rcases hx.getElem? hj with hj | ⟨hge, κ, rfl⟩
    · exact ⟨(ho j t' hji hj).1, hx.rested (ho j t' hji hj).2⟩
    · exact hx.fresh hl hge κ
  have hunrecorded : ∀ {P : ℕ → Prop}, (∀ j t, P j → w.pool.threads[j]? = some t → t.1.confirms id = true →
      recorded w j = false) → ∀ j t, P j → w'.pool.threads[j]? = some t → t.1.confirms id = true →
      recorded w' j = false := by
    intro P hu j t hP hj hκ
    rcases hx.getElem? hj with hj | ⟨hge, κ, rfl⟩
    · exact (hx.recorded j).trans (hu j t hP hj hκ)
    · exact hx.unrecorded hl hge
  cases h with
  | idle row threads unrecorded =>
    refine .idle (hx.row row) ?_ fun j t => hunrecorded (P := fun _ => True) (fun j t _ => unrecorded j t) j t trivial
    intro j t hj
    rcases hx.getElem? hj with hj | ⟨hge, κ, rfl⟩
    · rcases threads j t hj with ⟨hc, hr⟩ | hcancel
      · exact .inl ⟨hc, hx.rested hr⟩
      · exact .inr hcancel
    · exact .inl (hx.fresh hl hge κ)
  | active i κ q thread confirms row stage going before others unrecorded =>
    refine .active i κ q (hx.persists thread) confirms (hx.row row) ?_ going before (hothers thread others)
      fun j t => hunrecorded (P := fun _ => True) (fun j t _ => unrecorded j t) j t trivial
    rw [hx.began]
    exact stage
  | recording i κ q thread confirms row stage made others unrecorded =>
    refine .recording i κ q (hx.persists thread) confirms (hx.row row) stage ?_ (hothers thread others)
      (hunrecorded unrecorded)
    rw [hx.recorded]
    exact made
  | settled st final row threads one =>
    refine .settled st final (hx.row row) ?_ ?_
    · intro j t hj
      rcases hx.getElem? hj with hj | ⟨hge, κ, rfl⟩
      · rcases threads j t hj with ⟨hc, hr⟩ | hcancel
        · exact .inl ⟨hc, hx.rested hr⟩
        · exact .inr hcancel
      · exact .inl (hx.fresh hl hge κ)
    · intro i j t t' hi hj hκ hκ' hri hrj
      rcases hx.getElem? hi with hi | ⟨hge, κ, rfl⟩
      · rcases hx.getElem? hj with hj | ⟨hge, κ, rfl⟩
        · exact one i j t t' hi hj hκ hκ' (hx.recorded i ▸ hri) (hx.recorded j ▸ hrj)
        · rw [hx.unrecorded hl hge] at hrj
          cases hrj
      · rw [hx.unrecorded hl hge] at hri
        cases hri

theorem Logged.extends (h : Logged w) (hx : Extends rt w w') : Logged w' := by
  intro e he
  rw [hx.log] at he
  rcases hx.threads with ht | ⟨κ, ht⟩
  · rw [ht]
    exact h e he
  · rw [ht, List.length_append]
    exact Nat.lt_add_right _ (h e he)

/-! ### A thread moves -/

section Moves
variable {i a : ℕ} {κ : Call} {c : Cmd} {k : Except Exc (Ans c) → Program Reply} {r : Except Exc (Ans c)}

theorem ThreadMoves.rested (hm : ThreadMoves id T w w' i κ c k r) {j : ℕ} (hji : j ≠ i) {t : Thread}
    (hr : Rested id w j t) : Rested id w' j t := by
  intro hκ hb
  rcases hm.began.1 hb with hb | ⟨rfl, -⟩
  · exact (hr hκ hb).imp_left hm.began.2.2
  · exact absurd rfl hji

/-- A calm thread that moves starts no engine. -/
theorem ThreadMoves.rested_calm (hm : ThreadMoves id T w w' i κ c k r) (hc : Calm rt id (κ, .call c k))
    (hr : Rested id w i (κ, .call c k)) : Rested id w' i (κ, k r) := by
  intro hκ hb
  have hhead := hc.head (confirms_concerns id hκ) rfl
  rcases hm.began.1 hb with hb | ⟨-, hinvoke⟩
  · rcases hr hκ hb with hrec | hnone
    · exact .inl (hm.began.2.2 hrec)
    · cases hnone
  · rw [hhead.1] at hinvoke
    cases hinvoke

theorem OthersRest.moves (ho : OthersRest rt id w a) (hm : ThreadMoves id T w w' i κ c k r)
    (hi : i = a ∨ (Calm rt id (κ, k r) ∧ Rested id w' i (κ, k r))) : OthersRest rt id w' a := by
  intro j t hja hj
  rcases hm.getElem? hj with ⟨rfl, rfl⟩ | ⟨hji, hj⟩
  · rcases hi with rfl | hi
    · exact absurd rfl hja
    · exact hi
  · exact ⟨(ho j t hja hj).1, hm.rested hji (ho j t hja hj).2⟩

theorem unrecorded_moves {P : ℕ → Prop} (hm : ThreadMoves id T w w' i κ c k r)
    (hu : ∀ j t, P j → w.pool.threads[j]? = some t → t.1.confirms id = true → recorded w j = false)
    (hc : P i → κ.confirms id = true → c.isCreate = false) :
    ∀ j t, P j → w'.pool.threads[j]? = some t → t.1.confirms id = true → recorded w' j = false := by
  intro j t hP hj hκ
  refine Bool.eq_false_iff.mpr fun hrec => ?_
  rcases hm.getElem? hj with ⟨rfl, rfl⟩ | ⟨hji, hj⟩
  · rcases hm.began.2.1 hrec with hrec | ⟨-, hcreate⟩
    · rw [hu j _ hP hm.thread hκ] at hrec
      cases hrec
    · rw [hc hP hκ] at hcreate
      cases hcreate
  · rcases hm.began.2.1 hrec with hrec | ⟨rfl, -⟩
    · rw [hu j t hP hj hκ] at hrec
      cases hrec
    · exact hji rfl

/-- A confirmation before the record of its run, whatever comes next. -/
theorem Phase.of_stage {q : Program Reply} (thread : w.pool.threads[i]? = some (κ, q))
    (confirms : κ.confirms id = true) (row : RowIs id T w.pool.state .pendingConfirmation)
    (stage : (Preparing id T q ∧ began w i = false) ∨ Running id T q) (others : OthersRest rt id w i)
    (unrecorded : ∀ j t, w.pool.threads[j]? = some t → t.1.confirms id = true → recorded w j = false) :
    Phase rt id T w := by
  by_cases hnone : q.head = none
  · refine .idle row (fun j t hj => .inl ?_) unrecorded
    by_cases hji : j = i
    · subst hji
      rw [thread] at hj
      cases hj
      exact ⟨Calm.closed (confirms_concerns id confirms) (closed_of_head hnone), fun _ _ => .inr hnone⟩
    · exact others j t hji hj
  · by_cases hcreate : q.head.any Cmd.isCreate = true
    · have hrunning : Running id T q := by
        rcases stage with ⟨hpreparing, -⟩ | hrunning
        · rw [hpreparing.head] at hcreate
          cases hcreate
        · exact hrunning
      exact .recording i κ q thread confirms row (hrunning.recording hcreate) (.inl hcreate) others
        fun j t _ => unrecorded j t
    · exact .active i κ q thread confirms row stage hnone (Bool.eq_false_iff.mpr hcreate) others unrecorded

theorem engaged_of_head {t : Thread} {d : Cmd} (hκ : t.1.concerns id = true) (hd : t.2.head = some d)
    (hget : d.isGet = false) : engaged id t = true := by
  simp only [engaged, hκ, hd]
  cases d <;> first | rfl | cases hget

/-- Nobody else is at work on an execution that this step finds pending, or all cancel. -/
def Clear (id : String) (w : Watch World) (i : ℕ) (κ : Call) (c : Cmd) : Prop :=
  c.isGet = true → κ.concerns id = true → statusOf id w.pool.state = some .pendingConfirmation →
    ∀ j t, j ≠ i → w.pool.threads[j]? = some t → engaged id t = true →
      κ.cancels id = true ∧ t.1.cancels id = true

theorem RowIs.statusOf {s : State World} {st : Status} (h : RowIs id T s st) : statusOf id s = some st := by
  obtain ⟨x, hx, -, hst⟩ := h
  simp [Function.statusOf, hx, hst]

variable (hm : ThreadMoves id T w w' i κ c k r)
include hm

/-- What holds of the thread that moved and held of the others holds of all. -/
theorem ThreadMoves.forall {P : ℕ → Thread → Prop} (hi : P i (κ, k r))
    (ho : ∀ j t, j ≠ i → w.pool.threads[j]? = some t → P j t) : ∀ j t, w'.pool.threads[j]? = some t → P j t := by
  intro j t hj
  rcases hm.getElem? hj with ⟨rfl, rfl⟩ | ⟨hji, hj⟩
  · exact hi
  · exact ho j t hji hj

omit hm in
theorem not_confirms_of_cancels (h : κ.cancels id = true) : κ.confirms id = false := by
  refine Bool.eq_false_iff.mpr fun hκ => ?_
  rw [not_cancels_of_confirms id hκ] at h
  cases h

theorem Phase.idle_moves (hclear : Clear id w i κ c) (row : RowIs id T w.pool.state .pendingConfirmation)
    (threads : ∀ j t, w.pool.threads[j]? = some t →
      (Calm rt id t ∧ Rested id w j t) ∨ (t.1.cancels id = true ∧ Cancelling id T t.2))
    (unrecorded : ∀ j t, w.pool.threads[j]? = some t → t.1.confirms id = true → recorded w j = false) :
    Phase rt id T w' := by
  have hothers : ∀ j t, j ≠ i → w.pool.threads[j]? = some t →
      (Calm rt id t ∧ Rested id w' j t) ∨ (t.1.cancels id = true ∧ Cancelling id T t.2) := fun j t hji hj =>
    (threads j t hj).imp_left fun h => ⟨h.1, hm.rested hji h.2⟩
  rcases threads i _ hm.thread with ⟨hcalm, hrest⟩ | ⟨hcancels, hcancelling⟩
  · have hun := unrecorded_moves (P := fun _ => True) hm (fun j t _ => unrecorded j t)
      fun _ hκ => (hcalm.head (confirms_concerns id hκ) (c := c) rfl).2
    obtain ⟨hspares, hcalm' | ⟨hκ, -, rfl, hprepares, hcancels⟩⟩ := hcalm.moves row hm.moved
    · exact .idle (row.spared hm.moved hspares) (hm.forall (.inl ⟨hcalm', hm.rested_calm hcalm hrest⟩) hothers)
        fun j t => hun j t trivial
    · rcases Bool.or_eq_true_iff.mp hκ with hconfirms | hκcancels
      · have hbegan : began w' i = false := by
          refine Bool.eq_false_iff.mpr fun hb => ?_
          rcases hm.began.1 hb with hb | ⟨-, hinvoke⟩
          · rcases hrest hconfirms hb with hrec | hnone
            · rw [unrecorded i _ hm.thread hconfirms] at hrec
              cases hrec
            · cases hnone
          · cases hinvoke
        refine Phase.of_stage hm.self hconfirms (row.spared hm.moved hspares)
          (.inl ⟨hprepares hconfirms, hbegan⟩) ?_ fun j t => hun j t trivial
        intro j t hji hj
        rcases hm.getElem? hj with ⟨rfl, -⟩ | ⟨-, hj⟩
        · exact absurd rfl hji
        · rcases hothers j t hji hj with h | ⟨htcancels, htcancelling⟩
          · exact h
          · -- A cancellation at work would have kept this step away.
            obtain ⟨d, hd, hget⟩ := htcancelling.isGet
            have hboth := hclear rfl hκ row.statusOf j t hji hj
              (engaged_of_head (cancels_concerns id htcancels) hd hget)
            rw [not_cancels_of_confirms id hconfirms] at hboth
            cases hboth.1
      · exact .idle (row.spared hm.moved hspares) (hm.forall (.inr ⟨hκcancels, hcancels hκcancels⟩) hothers)
          fun j t => hun j t trivial
  · have hnot : κ.confirms id = true → False := fun hκ => by
      rw [not_confirms_of_cancels hcancels] at hκ
      cases hκ
    have hun := unrecorded_moves (P := fun _ => True) hm (fun j t _ => unrecorded j t) fun _ hκ => (hnot hκ).elim
    rcases hcancelling.moves row hm.moved with ⟨hrow', hclosed⟩ | ⟨hspares, hcancelling'⟩
    · refine .settled .cancelled (by decide) hrow' (hm.forall (.inl ⟨?_, fun hκ => (hnot hκ).elim⟩) ?_) ?_
      · exact Calm.closed (cancels_concerns id hcancels) hclosed
      · exact fun j t hji hj => (hothers j t hji hj).imp_right fun h => ⟨h.1, h.2, rfl⟩
      · intro a b t t' ha _ hκ _ hrec _
        rw [hun a t trivial ha hκ] at hrec
        cases hrec
    · exact .idle (row.spared hm.moved hspares) (hm.forall (.inr ⟨hcancels, hcancelling'⟩) hothers)
        fun j t => hun j t trivial

/-- A calm thread that moves beside a confirmation at work stays calm. -/
theorem calm_beside (hclear : Clear id w i κ c) {st : Status} (row : RowIs id T w.pool.state st) {κ' : Call}
    {q : Program Reply} (thread : w.pool.threads[a]? = some (κ', q)) (confirms : κ'.confirms id = true)
    (hgoing : ∃ d, q.head = some d ∧ d.isGet = false) (others : OthersRest rt id w a) (hia : i ≠ a) :
    RowIs id T w'.pool.state st ∧ OthersRest rt id w' a ∧
      (κ.confirms id = true → c.isInvoke = false ∧ c.isCreate = false) := by
  obtain ⟨hcalm, hrest⟩ := others i _ hia hm.thread
  obtain ⟨hspares, hcalm' | ⟨hκ, rfl, rfl, -, -⟩⟩ := hcalm.moves row hm.moved
  · exact ⟨row.spared hm.moved hspares, others.moves hm (.inr ⟨hcalm', hm.rested_calm hcalm hrest⟩),
      fun hκ => hcalm.head (confirms_concerns id hκ) rfl⟩
  · obtain ⟨d, hd, hget⟩ := hgoing
    have hboth := hclear rfl hκ row.statusOf a _ (Ne.symm hia) thread
      (engaged_of_head (confirms_concerns id confirms) hd hget)
    rw [show Call.cancels id (κ', q).1 = false from not_cancels_of_confirms id confirms] at hboth
    cases hboth.2

theorem Phase.active_moves (hclear : Clear id w i κ c) {κ' : Call} {q : Program Reply}
    (thread : w.pool.threads[a]? = some (κ', q)) (confirms : κ'.confirms id = true)
    (row : RowIs id T w.pool.state .pendingConfirmation)
    (stage : (Preparing id T q ∧ Function.began w a = false) ∨ Running id T q) (going : q.head ≠ none)
    (before : q.head.any Cmd.isCreate = false) (others : OthersRest rt id w a)
    (unrecorded : ∀ j t, w.pool.threads[j]? = some t → t.1.confirms id = true → Function.recorded w j = false) :
    Phase rt id T w' := by
  by_cases hia : i = a
  · subst hia
    have hthread := hm.thread
    rw [thread] at hthread
    cases hthread
    have hcreate : c.isCreate = false := before
    have hun := unrecorded_moves (P := fun _ => True) hm (fun j t _ => unrecorded j t) fun _ _ => hcreate
    have hrests := others.moves hm (.inl rfl)
    have hnext : Spares id c = true →
        ((c.isInvoke = false ∧ Function.began w i = false ∧ Preparing id T (k r)) ∨ Running id T (k r)) →
        Phase rt id T w' := by
      intro hspares hstage
      refine Phase.of_stage hm.self confirms (row.spared hm.moved hspares) ?_ hrests fun j t => hun j t trivial
      refine hstage.imp_left fun ⟨hinvoke, hbegan, hpreparing⟩ => ⟨hpreparing, Bool.eq_false_iff.mpr fun hb => ?_⟩
      rcases hm.began.1 hb with hb | ⟨-, hc⟩
      · rw [hbegan] at hb
        cases hb
      · rw [hinvoke] at hc
        cases hc
    rcases stage with ⟨hpreparing, hbegan⟩ | hrunning
    · rcases hpreparing.moves row hm.moved with ⟨hrow', hclosed, hinvoke⟩ | ⟨hspares, hstage⟩
      · -- It has expired: the thread is closed and never started the engine.
        refine .settled .expired (by decide) hrow' (hm.forall (.inl ⟨?_, ?_⟩) ?_) ?_
        · exact Calm.closed (confirms_concerns id confirms) hclosed
        · intro _ hb
          rcases hm.began.1 hb with hb | ⟨-, hc⟩
          · rw [hbegan] at hb
            cases hb
          · rw [hinvoke] at hc
            cases hc
        · exact fun j t hji hj => .inl ⟨(others j t hji hj).1, hm.rested hji (others j t hji hj).2⟩
        · intro x y t t' hx _ hκ _ hrec _
          rw [hun x t trivial hx hκ] at hrec
          cases hrec
      · exact hnext hspares (hstage.imp_left fun ⟨hinvoke, hpreparing⟩ => ⟨hinvoke, hbegan, hpreparing⟩)
    · obtain ⟨hspares, -, hrunning'⟩ := hrunning.moves hcreate hm.moved
      exact hnext hspares (.inr hrunning')
  · have hgoing : ∃ d, q.head = some d ∧ d.isGet = false := by
      obtain ⟨d, hd⟩ := Option.ne_none_iff_exists'.mp going
      exact ⟨d, hd, stage.elim (fun h => h.1.isGet hd) fun h => h.isGet hd⟩
    obtain ⟨hrow', hothers', hquiet⟩ := calm_beside hm hclear row thread confirms hgoing others hia
    have hself : w'.pool.threads[a]? = some (κ', q) := by
      rw [hm.threads, List.getElem?_set_ne hia]
      exact thread
    have hun := unrecorded_moves (P := fun _ => True) hm (fun j t _ => unrecorded j t) fun _ hκ => (hquiet hκ).2
    refine Phase.of_stage hself confirms hrow' ?_ hothers' fun j t => hun j t trivial
    refine stage.imp_left fun ⟨hpreparing, hbegan⟩ => ⟨hpreparing, Bool.eq_false_iff.mpr fun hb => ?_⟩
    rcases hm.began.1 hb with hb | ⟨h, -⟩
    · rw [hbegan] at hb
      cases hb
    · exact hia h.symm

theorem Phase.recording_moves (hclear : Clear id w i κ c) {κ' : Call} {q : Program Reply}
    (thread : w.pool.threads[a]? = some (κ', q)) (confirms : κ'.confirms id = true)
    (row : RowIs id T w.pool.state .pendingConfirmation) (stage : Recording id T q)
    (made : q.head.any Cmd.isCreate = true ∨ Function.recorded w a = true) (others : OthersRest rt id w a)
    (unrecorded : ∀ j t, j ≠ a → w.pool.threads[j]? = some t → t.1.confirms id = true →
      Function.recorded w j = false) : Phase rt id T w' := by
  by_cases hia : i = a
  · subst hia
    have hthread := hm.thread
    rw [thread] at hthread
    cases hthread
    have hun := unrecorded_moves hm unrecorded fun h => absurd rfl h
    have hrests := others.moves hm (.inl rfl)
    have hmade : Function.recorded w' i = true := by
      rcases made with hcreate | hrec
      · exact hm.recorded hcreate
      · exact hm.began.2.2 hrec
    rcases stage.moves row hm.moved with ⟨hrow', hclosed, -⟩ | ⟨hspares, hstage⟩
    · refine .settled .success (by decide) hrow' (hm.forall (.inl ⟨?_, fun _ _ => .inl hmade⟩) ?_) ?_
      · exact Calm.closed (confirms_concerns id confirms) hclosed
      · exact fun j t hji hj => .inl ⟨(others j t hji hj).1, hm.rested hji (others j t hji hj).2⟩
      · -- Only this thread has recorded a run.
        have honly : ∀ x t, w'.pool.threads[x]? = some t → t.1.confirms id = true →
            Function.recorded w' x = true → x = i := by
          intro x t hx hκ hrec
          by_cases hxi : x = i
          · exact hxi
          · rw [hun x t hxi hx hκ] at hrec
            cases hrec
        intro x y t t' hx hy hκ hκ' hrx hry
        exact (honly x t hx hκ hrx).trans (honly y t' hy hκ' hry).symm
    · exact .recording i κ _ hm.self confirms (row.spared hm.moved hspares) hstage (.inr hmade) hrests hun
  · have hget : ∃ d, q.head = some d ∧ d.isGet = false := stage.head.imp fun d hd => ⟨hd.1, hd.2.2⟩
    obtain ⟨hrow', hothers', hquiet⟩ := calm_beside hm hclear row thread confirms hget others hia
    have hself : w'.pool.threads[a]? = some (κ', q) := by
      rw [hm.threads, List.getElem?_set_ne hia]
      exact thread
    exact .recording a κ' q hself confirms hrow' stage (made.imp_right hm.began.2.2) hothers'
      (unrecorded_moves hm unrecorded fun _ hκ => (hquiet hκ).2)

theorem Phase.settled_moves {st : Status} (final : st ∈ finalStatuses) (row : RowIs id T w.pool.state st)
    (threads : ∀ j t, w.pool.threads[j]? = some t →
      (Calm rt id t ∧ Rested id w j t) ∨ (t.1.cancels id = true ∧ Cancelling id T t.2 ∧ st = .cancelled))
    (one : ∀ i j t t', w.pool.threads[i]? = some t → w.pool.threads[j]? = some t' →
      t.1.confirms id = true → t'.1.confirms id = true → Function.recorded w i = true →
      Function.recorded w j = true → i = j) :
    Phase rt id T w' ∧ RowIs id T w'.pool.state st := by
  have hothers : ∀ j t, j ≠ i → w.pool.threads[j]? = some t →
      (Calm rt id t ∧ Rested id w' j t) ∨ (t.1.cancels id = true ∧ Cancelling id T t.2 ∧ st = .cancelled) :=
    fun j t hji hj => (threads j t hj).imp_left fun h => ⟨h.1, hm.rested hji h.2⟩
  -- The thread that moves records no run of the execution.
  have hone : (κ.confirms id = true → c.isCreate = false) → ∀ i j t t', w'.pool.threads[i]? = some t →
      w'.pool.threads[j]? = some t' → t.1.confirms id = true → t'.1.confirms id = true →
      Function.recorded w' i = true → Function.recorded w' j = true → i = j := by
    intro hc
    have hold : ∀ x t, w'.pool.threads[x]? = some t → t.1.confirms id = true → Function.recorded w' x = true →
        ∃ t', w.pool.threads[x]? = some t' ∧ t'.1.confirms id = true ∧ Function.recorded w x = true := by
      intro x t hx hκ hrec
      rcases hm.getElem? hx with ⟨rfl, rfl⟩ | ⟨hne, hx⟩
      · rcases hm.began.2.1 hrec with hrec | ⟨-, hcreate⟩
        · exact ⟨_, hm.thread, hκ, hrec⟩
        · rw [hc hκ] at hcreate
          cases hcreate
      · rcases hm.began.2.1 hrec with hrec | ⟨h, -⟩
        · exact ⟨t, hx, hκ, hrec⟩
        · exact absurd h hne
    intro x y t t' hx hy hκ hκ' hrx hry
    obtain ⟨u, hu, huκ, hur⟩ := hold x t hx hκ hrx
    obtain ⟨v, hv, hvκ, hvr⟩ := hold y t' hy hκ' hry
    exact one x y u v hu hv huκ hvκ hur hvr
  rcases threads i _ hm.thread with ⟨hcalm, hrest⟩ | ⟨hcancels, hcancelling, rfl⟩
  · obtain ⟨hspares, hcalm' | ⟨-, rfl, -⟩⟩ := hcalm.moves row hm.moved
    · have hrow' := row.spared hm.moved hspares
      exact ⟨.settled st final hrow' (hm.forall (.inl ⟨hcalm', hm.rested_calm hcalm hrest⟩) hothers)
        (hone fun hκ => (hcalm.head (confirms_concerns id hκ) rfl).2), hrow'⟩
    · exact absurd final (by decide)
  · have hnot : κ.confirms id = true → False := fun hκ => by
      rw [not_confirms_of_cancels hcancels] at hκ
      cases hκ
    have hone' := hone fun hκ => (hnot hκ).elim
    rcases hcancelling.moves row hm.moved with ⟨hrow', hclosed⟩ | ⟨hspares, hcancelling'⟩
    · refine ⟨.settled .cancelled final hrow' (hm.forall (.inl ⟨?_, fun hκ => (hnot hκ).elim⟩) hothers) hone', hrow'⟩
      exact Calm.closed (cancels_concerns id hcancels) hclosed
    · have hrow' := row.spared hm.moved hspares
      exact ⟨.settled .cancelled final hrow' (hm.forall (.inr ⟨hcancels, hcancelling', rfl⟩) hothers) hone', hrow'⟩

theorem Phase.moves (hclear : Clear id w i κ c) (h : Phase rt id T w) : Phase rt id T w' := by
  cases h with
  | idle row threads unrecorded => exact Phase.idle_moves hm hclear row threads unrecorded
  | active a κ' q thread confirms row stage going before others unrecorded =>
    exact Phase.active_moves hm hclear thread confirms row stage going before others unrecorded
  | recording a κ' q thread confirms row stage made others unrecorded =>
    exact Phase.recording_moves hm hclear thread confirms row stage made others unrecorded
  | settled st final row threads one => exact (Phase.settled_moves hm final row threads one).1

end Moves

end Lingshu.Function
