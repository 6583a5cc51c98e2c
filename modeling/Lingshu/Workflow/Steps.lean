import Lingshu.Workflow.Engine

/-! # What a layer adds

A layer that ends adds one step for each node it ran, in the order of the layer and whatever the order in which the
tasks finished. -/
namespace Lingshu.Workflow
open Json
set_option autoImplicit false

variable {O : Type} {rt : Runtime O} {run : Run O} {outcomes : List (Outcome O)} {st st' : RunState O}
  {executable : List String} {k : ℕ}

/-! ## Tasks that finish -/

/-- A task that finishes and stays within the event loop. -/
def Calm (rt : Runtime O) (o : Outcome O) : Prop := exitOf rt o = none ∧ o ≠ .pending

theorem settle_calm (order : List ℕ) (places : List (Option (Outcome O))) (hlength : places.length = outcomes.length)
    (hcalm : ∀ o ∈ outcomes, exitOf rt o = none) :
    ∃ places', settle rt outcomes order places = .ok places' ∧ places'.length = outcomes.length ∧
      ∀ i o, outcomes[i]? = some o → places'[i]? = if i ∈ order then some (some o) else places[i]? := by
  induction order generalizing places with
  | nil => exact ⟨places, rfl, hlength, fun i o _ => by simp⟩
  | cons i order ih =>
    cases ho : outcomes[i]? with
    | none =>
      obtain ⟨places', hrun, hlength', hplaces⟩ := ih places hlength
      refine ⟨places', by rw [settle, ho]; exact hrun, hlength', fun j o hj => ?_⟩
      have hne : j ≠ i := fun heq => by
        rw [heq, ho] at hj
        cases hj
      rw [hplaces j o hj]
      simp [hne]
    | some o =>
      obtain ⟨places', hrun, hlength', hplaces⟩ := ih (places.set i (some o)) (by simpa using hlength)
      refine ⟨places', ?_, hlength', fun j o' hj => ?_⟩
      · rw [settle, ho]
        simp only [hcalm o (List.mem_of_getElem? ho)]
        exact hrun
      · rw [hplaces j o' hj]
        by_cases hj' : j = i
        · subst hj'
          obtain rfl := Option.some.inj (ho.symm.trans hj)
          have hlt : j < places.length := by
            rw [hlength]
            exact (List.getElem?_eq_some_iff.mp ho).1
          simp [hlt]
        · simp [hj', Ne.symm hj']

theorem settle_exit (order : List ℕ) (places : List (Option (Outcome O))) {i : ℕ} (hi : i ∈ order) {o : Outcome O}
    (ho : outcomes[i]? = some o) (hexit : exitOf rt o ≠ none) : ∃ e, settle rt outcomes order places = .error (.exit e) := by
  induction order generalizing places with
  | nil => cases hi
  | cons j order ih =>
    rw [settle]
    cases hj : outcomes[j]? with
    | none =>
      obtain rfl | hi := List.mem_cons.mp hi
      · rw [ho] at hj
        cases hj
      · exact ih places hi
    | some o' =>
      cases he : exitOf rt o' with
      | some e => exact ⟨e, by simp [he]⟩
      | none =>
        obtain rfl | hi := List.mem_cons.mp hi
        · obtain rfl := Option.some.inj (ho.symm.trans hj)
          exact absurd he hexit
        · simp only [he]
          exact ih _ hi

theorem gather_calm (completion : Completion outcomes) (hcalm : ∀ o ∈ outcomes, Calm rt o) :
    gather rt outcomes completion = .ok outcomes := by
  have hstays : ∀ o ∈ outcomes, exitOf rt o = none := fun o ho => (hcalm o ho).1
  obtain ⟨places, hrun, hlength, hplaces⟩ :=
    settle_calm completion.order (outcomes.map fun _ => none) (List.length_map _) hstays
  have hall : places = outcomes.map some := by
    refine List.ext_getElem? fun i => ?_
    rw [List.getElem?_map]
    cases ho : outcomes[i]? with
    | none =>
      have hle : outcomes.length ≤ i := List.getElem?_eq_none_iff.mp ho
      exact List.getElem?_eq_none (hlength ▸ hle)
    | some o =>
      have hin : i ∈ completion.order := (completion.finished i).mpr ⟨o, ho, (hcalm o (List.mem_of_getElem? ho)).2⟩
      rw [hplaces i o ho, if_pos hin]
      rfl
  have hmap : places.mapM id = some outcomes := mapM_eq_some.mpr (by rw [hall, List.map_id])
  have hcollect : collect places = .ok outcomes := by rw [collect, hmap]
  rw [gather, hrun]
  exact hcollect

theorem gather_ok {completion : Completion outcomes} {results : List (Outcome O)}
    (h : gather rt outcomes completion = .ok results) : results = outcomes ∧ ∀ o ∈ outcomes, Calm rt o := by
  suffices hcalm : ∀ o ∈ outcomes, Calm rt o by
    rw [gather_calm completion hcalm] at h
    exact ⟨(Except.ok.inj h).symm, hcalm⟩
  intro o ho
  obtain ⟨i, hi⟩ := List.mem_iff_getElem?.mp ho
  obtain ⟨places, hplaces, h⟩ := bind_ok_iff.mp h
  have hexit : ∀ o ∈ outcomes, exitOf rt o = none := by
    intro o ho
    obtain ⟨i, hi⟩ := List.mem_iff_getElem?.mp ho
    by_contra hexit
    have hpending : o ≠ .pending := by
      rintro rfl
      exact hexit rfl
    obtain ⟨e, he⟩ := settle_exit completion.order (outcomes.map fun _ => none)
      ((completion.finished i).mpr ⟨o, hi, hpending⟩) hi hexit
    rw [he] at hplaces
    cases hplaces
  refine ⟨hexit o ho, fun hpending => ?_⟩
  obtain ⟨places', hrun, -, hplace⟩ := settle_calm completion.order (outcomes.map fun _ => none) (List.length_map _) hexit
  obtain rfl := Except.ok.inj (hplaces.symm.trans hrun)
  -- The place of a task that never finishes stays empty.
  have hout : i ∉ completion.order := fun hin => by
    obtain ⟨o', ho', hnot⟩ := (completion.finished i).mp hin
    obtain rfl := Option.some.inj (ho'.symm.trans hi)
    exact hnot hpending
  have hempty : places[i]? = some none := by
    rw [hplace i o hi, if_neg hout, List.getElem?_map, hi]
    rfl
  cases hmap : places.mapM id with
  | none =>
    rw [collect, hmap] at h
    cases h
  | some results' =>
    have hsome : places = results'.map some := by
      rw [← mapM_eq_some.mp hmap, List.map_id]
    rw [hsome, List.getElem?_map] at hempty
    cases hget : results'[i]? <;> simp [hget] at hempty

/-! ## The steps of a layer -/

/-- What a node's step shows: nothing when its task does not finish, or the text of its exception raises. -/
def taskResult (rt : Runtime O) (run : Run O) (st : RunState O) (nid : String) : Option (StepResult O) :=
  match taskOf rt run st nid with
  | .error _ => none
  | .ok .pending => none
  | .ok o =>
    match exitOf rt o, stepResult rt o with
    | none, .ok r => some r
    | _, _ => none

theorem taskResult_eq_some {nid : String} {r : StepResult O} :
    taskResult rt run st nid = some r ↔
      ∃ o, taskOf rt run st nid = .ok o ∧ Calm rt o ∧ stepResult rt o = .ok r := by
  unfold taskResult Calm
  constructor
  · intro h
    split at h
    · cases h
    · cases h
    next o hpending ho =>
      split at h
      next r' hexit hresult =>
        cases h
        exact ⟨o, ho, ⟨hexit, hpending⟩, hresult⟩
      next => cases h
  · rintro ⟨o, ho, ⟨hexit, hpending⟩, hresult⟩
    rw [ho]
    cases o with
    | pending => exact absurd rfl hpending
    | returned | raised => simp only [hexit, hresult]

theorem foldlM_record (l : List (String × Outcome O)) (st : RunState O) :
    l.foldlM (record rt) st = .ok st' ↔ ∃ results, (l.map fun r => stepResult rt r.2) = results.map .ok ∧
      st' = ((l.map Prod.fst).zip results).foldl addStep st := by
  induction l generalizing st with
  | nil => simp [pure, Except.pure, eq_comm]
  | cons r l ih =>
    rw [List.foldlM_cons, record, List.map_cons, List.map_cons]
    cases hresult : stepResult rt r.2 with
    | error e =>
      refine iff_of_false (fun h => (nomatch h)) ?_
      rintro ⟨results, hresults, -⟩
      cases results <;> cases hresults
    | ok result =>
      refine (ih (addStep st (r.1, result))).trans ?_
      constructor
      · rintro ⟨results, hresults, hst⟩
        exact ⟨result :: results, by rw [hresults, List.map_cons], hst⟩
      · rintro ⟨results, hresults, hst⟩
        cases results with
        | nil => cases hresults
        | cons result' results =>
          obtain ⟨hhead, htail⟩ := List.cons.inj hresults
          obtain rfl := Except.ok.inj hhead
          exact ⟨results, htail, hst⟩

/-- The steps of some nodes are what their tasks lead to. -/
theorem taskResults_iff {results : List (StepResult O)} :
    executable.mapM (taskResult rt run st) = some results ↔
      ∃ outcomes : List (Outcome O), executable.map (taskOf rt run st) = outcomes.map .ok ∧ (∀ o ∈ outcomes, Calm rt o) ∧
        outcomes.map (stepResult rt) = results.map .ok := by
  rw [mapM_eq_some]
  induction executable generalizing results with
  | nil =>
    constructor
    · intro h
      exact ⟨[], rfl, fun o ho => absurd ho List.not_mem_nil, by cases results <;> cases h; rfl⟩
    · rintro ⟨outcomes, houtcomes, -, hresults⟩
      cases outcomes <;> cases houtcomes
      cases results <;> cases hresults
      rfl
  | cons nid executable ih =>
    constructor
    · intro h
      cases results with
      | nil => cases h
      | cons r results =>
        obtain ⟨hr, hrest⟩ := List.cons.inj h
        obtain ⟨o, ho, hcalm, hstep⟩ := taskResult_eq_some.mp hr
        obtain ⟨outcomes, houtcomes, hall, hresults⟩ := ih.mp hrest
        refine ⟨o :: outcomes, ?_, List.forall_mem_cons.mpr ⟨hcalm, hall⟩, ?_⟩
        · rw [List.map_cons, ho, houtcomes]
          rfl
        · rw [List.map_cons, hstep, hresults]
          rfl
    · rintro ⟨outcomes, houtcomes, hall, hresults⟩
      cases outcomes with
      | nil => cases houtcomes
      | cons o outcomes =>
        cases results with
        | nil => cases hresults
        | cons r results =>
          obtain ⟨ho, houtcomes⟩ := List.cons.inj houtcomes
          obtain ⟨hstep, hresults⟩ := List.cons.inj hresults
          obtain ⟨hcalm, hall⟩ := List.forall_mem_cons.mp hall
          rw [List.map_cons, taskResult_eq_some.mpr ⟨o, ho, hcalm, hstep⟩, ih.mpr ⟨outcomes, houtcomes, hall, hresults⟩]
          rfl

/-- Which state a layer leads to does not depend on its place nor on the order in which its tasks finish. -/
theorem runNodes_ok_iff : runNodes rt run k st executable = .ok st' ↔
    ∃ results, executable.mapM (taskResult rt run st) = some results ∧
      st' = (executable.zip results).foldl addStep st := by
  have hzip : ∀ outcomes : List (Outcome O), executable.map (taskOf rt run st) = outcomes.map .ok →
      (executable.zip outcomes).map Prod.fst = executable ∧ (executable.zip outcomes).map Prod.snd = outcomes := by
    intro outcomes h
    have hlength : executable.length = outcomes.length := by simpa using congrArg List.length h
    exact ⟨List.map_fst_zip hlength.le, List.map_snd_zip hlength.ge⟩
  constructor
  · intro h
    obtain ⟨outcomes, houtcomes, hrest⟩ := bind_ok_iff.mp h
    obtain ⟨outcomes', hgather, hrecord⟩ := bind_ok_iff.mp hrest
    obtain ⟨rfl, hcalm⟩ := gather_ok hgather
    have htasks := mapM_eq_ok.mp houtcomes
    obtain ⟨hfst, hsnd⟩ := hzip _ htasks
    obtain ⟨results, hresults, hst⟩ := (foldlM_record _ st).mp hrecord
    rw [hfst] at hst
    rw [← Function.comp_def (stepResult rt) Prod.snd, ← List.map_map, hsnd] at hresults
    exact ⟨results, taskResults_iff.mpr ⟨_, htasks, hcalm, hresults⟩, hst⟩
  · rintro ⟨results, hresults, hst⟩
    obtain ⟨outcomes, htasks, hcalm, hsteps⟩ := taskResults_iff.mp hresults
    obtain ⟨hfst, hsnd⟩ := hzip _ htasks
    refine bind_ok_iff.mpr ⟨outcomes, mapM_eq_ok.mpr htasks, bind_ok_iff.mpr ⟨outcomes, gather_calm _ hcalm, ?_⟩⟩
    refine (foldlM_record _ st).mpr ⟨results, ?_, by rw [hfst]; exact hst⟩
    rw [← Function.comp_def (stepResult rt) Prod.snd, ← List.map_map, hsnd]
    exact hsteps

end Lingshu.Workflow
