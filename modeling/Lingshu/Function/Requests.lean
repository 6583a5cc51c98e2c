import Lingshu.Function.Calls
import Lingshu.Interaction.Yields

/-! # What a parameter asks of the data service

`paramRequest`: the part of the parameter resolver that does not depend on stored data. A parameter is refused,
left out, taken as it is, or asks for the instance with a type and a primary key. -/
namespace Lingshu.Function
open Json Data Interaction Interaction.Prog
set_option autoImplicit false

variable (rt : Runtime)

inductive ParamRequest where
  | absent
  | plain (name : String) (raw : Value)
  | instanceOf (name : String) (raw typeRid primaryKey : Value)
  deriving DecidableEq

def paramRequest (rawParams : Assoc Value) (paramDef : Value) : Except Exc ParamRequest := do
  let apiName ← (paramDef.item "api_name").mapError .access
  let required ← (paramDef.get "required" (.bool false)).mapError .access
  let raw ← (rawValue rawParams apiName).mapError .access
  if raw = .null then
    if required.truthy then
      .error (.app .functionParamInvalid ("Required parameter '" ++ nameText apiName ++ "' is missing"))
    else return .absent
  else
    match ← instanceType paramDef raw (nameText apiName) with
    | none => return .plain (nameText apiName) raw
    | some typeRid => return .instanceOf (nameText apiName) raw typeRid (← instanceKey (nameText apiName) raw)

/-- The instance that a parameter asks for. -/
def fetch (ctx : Ctx) (typeRid primaryKey : Value) (name : String) : Program Row := do
  let row ← getInstance rt typeRid ctx.tenantId primaryKey
  match row with
  | some row => return row
  | none => raise .functionParamInstanceNotFound ("Instance not found for parameter '" ++ name ++ "'")

def answerRequest (ctx : Ctx) (resolved : ResolvedParams) : ParamRequest → Program ResolvedParams
  | .absent => .pure resolved
  | .plain name raw => .pure { resolved with values := resolved.values.set name raw }
  | .instanceOf name raw typeRid primaryKey => do
    let row ← fetch rt ctx typeRid primaryKey name
    return { values := resolved.values.set name raw, instances := resolved.instances.set name row }

theorem ofExcept_bind {α β : Type} (r : Except Exc α) (f : α → Except Exc β) :
    ofExcept (r >>= f) = (ofExcept r).bind fun a => ofExcept (f a) := by
  cases r <;> rfl

/-- One parameter: the request, then the answer to it. -/
theorem resolveParam_eq (ctx : Ctx) (rawParams : Assoc Value) (resolved : ResolvedParams) (paramDef : Value) :
    resolveParam rt ctx rawParams resolved paramDef =
      (ofExcept (paramRequest rawParams paramDef)).bind (answerRequest rt ctx resolved) := by
  simp only [resolveParam, paramRequest, access, bind_eq, ofExcept_bind, Prog.bind_assoc]
  refine congrArg (Prog.bind _) (funext fun apiName => ?_)
  refine congrArg (Prog.bind _) (funext fun required => ?_)
  refine congrArg (Prog.bind _) (funext fun raw => ?_)
  split
  · split <;> rfl
  · simp only [ofExcept_bind, Prog.bind_assoc]
    refine congrArg (Prog.bind _) (funext fun type => ?_)
    cases type with
    | none => rfl
    | some typeRid =>
      unfold resolveInstance
      cases instanceKey (nameText apiName) raw with
      | error e => rfl
      | ok primaryKey => rfl

/-! ## What the resolver may return -/

section Answers
variable {α β : Type} {Pre : Cmd → Prop} {Post : (c : Cmd) → Ans c → Prop}

theorem yields_ofExcept {r : Except Exc α} {a : α} : (ofExcept r).Yields Post a ↔ r = .ok a := by
  cases r with
  | error e =>
    constructor
    · intro h
      cases h
    · intro h
      cases h
  | ok b =>
    rw [Except.ok.injEq, eq_comm]
    exact yields_pure

theorem yields_access {r : Except AccessError α} {a : α} : (access r).Yields Post a ↔ r = .ok a := by
  rw [access, yields_ofExcept]
  cases r with
  | error e =>
    constructor
    · intro h
      cases h
    · intro h
      cases h
  | ok b =>
    constructor
    · intro h
      cases h
      rfl
    · intro h
      cases h
      rfl

theorem stuck_access {r : Except AccessError α} (h : ∀ a, r ≠ .ok a) :
    (access r).Meets Pre Post (fun _ => False) := by
  cases r with
  | error e => trivial
  | ok a => exact h a rfl

theorem Keeps.andThen {Q : β → Prop} {p : Program α} {f : α → Program β} (hp : Keeps Pre Post p)
    (hf : ∀ a, (f a).Meets Pre Post Q) : (p >>= f).Meets Pre Post Q := Prog.Meets.bind hp fun a _ => hf a

/-- A program that does not return keeps what follows it from running. -/
theorem stuck_bind {p : Program α} {f : α → Program β} {Q : β → Prop}
    (hp : p.Meets Pre Post (fun _ => False)) : (p.bind f).Meets Pre Post Q :=
  Prog.Meets.bind hp fun _ h => h.elim

theorem forEach_yields {xs : List α} {f : β → α → Program β}
    (h : ∀ x ∈ xs, ∀ acc, ∃ acc', (f acc x).Yields Post acc') (acc : β) :
    ∃ acc', (forEach xs acc f).Yields Post acc' := by
  induction xs generalizing acc with
  | nil => exact ⟨acc, .pure acc⟩
  | cons x xs ih =>
    obtain ⟨acc₁, h₁⟩ := h x List.mem_cons_self acc
    obtain ⟨acc₂, h₂⟩ := ih (fun y hy => h y (List.mem_cons_of_mem x hy)) acc₁
    exact ⟨acc₂, h₁.bind h₂⟩

theorem forEach_stuck {xs : List α} {f : β → α → Program β} (hkeeps : ∀ acc x, Keeps Pre Post (f acc x)) {x : α}
    (hx : x ∈ xs) (hstuck : ∀ acc, (f acc x).Meets Pre Post (fun _ => False)) (acc : β) :
    (forEach xs acc f).Meets Pre Post (fun _ => False) := by
  induction xs generalizing acc with
  | nil => cases hx
  | cons y xs ih =>
    rcases List.mem_cons.mp hx with rfl | hx
    · exact stuck_bind (hstuck acc)
    · exact (hkeeps acc y).andThen fun acc' => ih hx acc'

/-- The queries behind an instance. -/
def Cmd.data : Cmd → Bool
  | .getPropertyTypes _ _ | .getAssetMapping _ _ | .hasConnector _ | .getRow _ _ _ _ => true
  | _ => false

/-- A request that some stored row answers: a primary key is a dict. -/
def ParamRequest.answerable : ParamRequest → Bool
  | .instanceOf _ _ _ (.dict _) => true
  | .instanceOf _ _ _ _ => false
  | _ => true

def accepts (rawParams : Assoc Value) (paramDef : Value) : Bool :=
  match paramRequest rawParams paramDef with
  | .ok request => request.answerable
  | .error _ => false

theorem fetch_yields (hdata : ∀ c : Cmd, c.data = true → ∀ a, Post c a) (ctx : Ctx) (typeRid : Value)
    (primaryKey : Assoc Value) (name : String) : ∃ row, (fetch rt ctx typeRid (.dict primaryKey) name).Yields Post row := by
  refine ⟨[("id", .null)], Yields.bind (a := some [("id", .null)]) ?_ (.pure _)⟩
  refine Yields.bind (Yields.perform (x := []) (hdata _ rfl _)) ?_
  refine Yields.bind (Yields.perform (x := some {}) (hdata _ rfl _)) ?_
  refine Yields.bind (Yields.perform (x := true) (hdata _ rfl _)) ?_
  refine Yields.bind (a := some [("id", .null)]) ?_ (.pure _)
  refine Yields.bind (.pure primaryKey) ?_
  exact Yields.bind (Yields.perform (x := some [("id", .null)]) (hdata _ rfl _)) (.pure _)

theorem answerRequest_yields (hdata : ∀ c : Cmd, c.data = true → ∀ a, Post c a) (ctx : Ctx)
    (resolved : ResolvedParams) {request : ParamRequest} (h : request.answerable = true) :
    ∃ resolved', (answerRequest rt ctx resolved request).Yields Post resolved' := by
  cases request with
  | absent => exact ⟨_, .pure _⟩
  | plain name raw => exact ⟨_, .pure _⟩
  | instanceOf name raw typeRid primaryKey =>
    cases primaryKey with
    | dict entries =>
      obtain ⟨row, hrow⟩ := fetch_yields rt hdata ctx typeRid entries name
      exact ⟨_, Yields.bind hrow (.pure _)⟩
    | _ => cases h

/-- Where every parameter is accepted, there are rows with which the resolver returns. -/
theorem resolve_yields (hdata : ∀ c : Cmd, c.data = true → ∀ a, Post c a) (ctx : Ctx) {paramDefs : Value}
    {defs : List Value} (hdefs : paramDefs.elems = .ok defs) {rawParams : Assoc Value}
    (h : ∀ d ∈ defs, accepts rawParams d = true) :
    ∃ resolved, (resolve rt ctx paramDefs rawParams).Yields Post resolved := by
  have hone : ∀ d ∈ defs, ∀ resolved, ∃ resolved', (resolveParam rt ctx rawParams resolved d).Yields Post resolved' := by
    intro d hd resolved
    have haccepts := h d hd
    unfold accepts at haccepts
    cases hrequest : paramRequest rawParams d with
    | error e =>
      rw [hrequest] at haccepts
      cases haccepts
    | ok request =>
      rw [hrequest] at haccepts
      obtain ⟨resolved', hyields⟩ := answerRequest_yields rt hdata ctx resolved haccepts
      refine ⟨resolved', ?_⟩
      rw [resolveParam_eq, hrequest]
      exact hyields
  obtain ⟨resolved, hresolved⟩ := forEach_yields hone ⟨[], []⟩
  exact ⟨resolved, Yields.bind (yields_access.mpr hdefs) hresolved⟩

section Stuck
variable (hread : ∀ c : Cmd, c.reads = true → Pre c)
include hread

theorem stuck_fetch (ctx : Ctx) (typeRid : Value) {primaryKey : Value} (h : ∀ entries, primaryKey ≠ .dict entries)
    (name : String) : (fetch rt ctx typeRid primaryKey name).Meets Pre Post (fun _ => False) := by
  refine stuck_bind ?_
  refine (Keeps.perform (hread _ rfl)).andThen fun propertyTypes => ?_
  refine (Keeps.perform (hread _ rfl)).andThen fun assetMapping => ?_
  dsimp only
  split
  · trivial
  · refine (Keeps.perform (hread _ rfl)).andThen fun connected => ?_
    split
    · refine stuck_bind (stuck_bind (stuck_access ?_))
      cases primaryKey <;> simp_all [Value.items]
    · trivial

/-- A parameter that is refused whatever is stored keeps the resolver from returning. -/
theorem stuck_resolve (ctx : Ctx) {paramDefs : Value} {rawParams : Assoc Value}
    (h : ¬∃ defs, paramDefs.elems = .ok defs ∧ ∀ d ∈ defs, accepts rawParams d = true) :
    (resolve rt ctx paramDefs rawParams).Meets Pre Post (fun _ => False) := by
  cases helems : paramDefs.elems with
  | error e =>
    unfold resolve
    rw [helems]
    trivial
  | ok defs =>
    have hnot : ¬∀ d ∈ defs, accepts rawParams d = true := fun hall => h ⟨defs, helems, hall⟩
    obtain ⟨d, hd, hd'⟩ : ∃ d ∈ defs, accepts rawParams d = false := by simpa using hnot
    unfold resolve
    rw [helems]
    refine forEach_stuck (fun resolved d => keeps_resolveParam rt hread _ _ _ _) hd (fun resolved => ?_) _
    rw [resolveParam_eq]
    unfold accepts at hd'
    cases hrequest : paramRequest rawParams d with
    | error e => trivial
    | ok request =>
      rw [hrequest] at hd'
      cases request with
      | absent => cases hd'
      | plain name raw => cases hd'
      | instanceOf name raw typeRid primaryKey =>
        show Prog.Meets Pre Post _ ((fetch rt ctx typeRid primaryKey name).bind _)
        refine stuck_bind (stuck_fetch rt hread ctx typeRid ?_ name)
        rintro entries rfl
        cases hd'

end Stuck

end Answers

/-! ## Addresses -/

/-- The dict of addresses after a request. -/
def ParamRequest.noted (found : Assoc (Value × Value)) : ParamRequest → Assoc (Value × Value)
  | .instanceOf name _ typeRid primaryKey => found.set name (typeRid, primaryKey)
  | _ => found

def noteAddress (rawParams : Assoc Value) (found : Assoc (Value × Value)) (paramDef : Value) :
    Assoc (Value × Value) :=
  match paramRequest rawParams paramDef with
  | .ok request => request.noted found
  | .error _ => found

/-- The type and the primary key with which each parameter is resolved; of two definitions with one name the later
counts. -/
def addresses (rawParams : Assoc Value) (paramDefs : List Value) : Assoc (Value × Value) :=
  paramDefs.foldl (noteAddress rawParams) []

/-- The instances are there, none of them empty, for the parameters that have an address. -/
def Fetched (instances : Assoc Row) (found : Assoc (Value × Value)) : Prop :=
  ∀ name, Option.Rel (fun (row : Row) _ => row ≠ []) (instances.lookup name) (found.lookup name)

theorem Fetched.set {instances : Assoc Row} {found : Assoc (Value × Value)} (h : Fetched instances found)
    (name : String) {row : Row} (hrow : row ≠ []) (address : Value × Value) :
    Fetched (instances.set name row) (found.set name address) := by
  intro name'
  rw [Assoc.lookup_set, Assoc.lookup_set]
  split
  · exact .some hrow
  · exact h name'

section Fetch
variable {Post : (c : Cmd) → Ans c → Prop}

theorem meets_getInstance (typeRid : Value) (tenantId : String) (primaryKey : Value) :
    (getInstance rt typeRid tenantId primaryKey).Meets (fun _ => True) Post (fun found => found ≠ some []) := by
  refine (Keeps.perform trivial).andThen fun propertyTypes => ?_
  refine (Keeps.perform trivial).andThen fun assetMapping => ?_
  dsimp only
  split
  · trivial
  · refine (Keeps.perform trivial).andThen fun connected => ?_
    split
    · refine (keeps_queryInstance (fun _ _ => trivial) _ _ _ _).andThen fun row => ?_
      rcases row with _ | _ | ⟨e, row⟩
      · exact (Option.some_ne_none []).symm
      · exact (Option.some_ne_none []).symm
      · intro h
        exact applyMasking_ne_nil _ (applyVirtualFields_ne_nil _ (List.cons_ne_nil e row) _) _ (Option.some.inj h)
    · trivial

theorem fetch_ne_nil {ctx : Ctx} {typeRid primaryKey : Value} {name : String} {row : Row}
    (h : (fetch rt ctx typeRid primaryKey name).Yields Post row) : row ≠ [] := by
  obtain ⟨found, hfound, hrow⟩ := yields_bind.mp h
  have hfull := (meets_getInstance rt typeRid ctx.tenantId primaryKey).of_yields hfound
  cases found with
  | none => cases hrow
  | some row' =>
    rw [yields_pure.mp hrow]
    rintro rfl
    exact hfull rfl

/-- What one parameter adds to the instances, it adds to the addresses. -/
theorem Fetched.answered {ctx : Ctx} {resolved resolved' : ResolvedParams} {found : Assoc (Value × Value)}
    {request : ParamRequest} (h : Fetched resolved.instances found)
    (hyields : (answerRequest rt ctx resolved request).Yields Post resolved') :
    Fetched resolved'.instances (request.noted found) := by
  cases request with
  | absent =>
    rw [yields_pure.mp hyields]
    exact h
  | plain name raw =>
    rw [yields_pure.mp hyields]
    exact h
  | instanceOf name raw typeRid primaryKey =>
    obtain ⟨row, hrow, hresolved⟩ := yields_bind.mp hyields
    rw [yields_pure.mp hresolved]
    exact h.set name (fetch_ne_nil rt hrow) _

/-- What the resolver returns has an instance for each address, and for nothing else. -/
theorem fetched_resolve {ctx : Ctx} {paramDefs : Value} {rawParams : Assoc Value} {resolved : ResolvedParams}
    (h : (resolve rt ctx paramDefs rawParams).Yields Post resolved) :
    ∃ defs, paramDefs.elems = .ok defs ∧ Fetched resolved.instances (addresses rawParams defs) := by
  obtain ⟨defs, hdefs, hloop⟩ := yields_bind.mp h
  refine ⟨defs, yields_access.mp hdefs, ?_⟩
  have hrun : ∀ (defs : List Value) (acc : ResolvedParams) (found : Assoc (Value × Value)),
      Fetched acc.instances found → (forEach defs acc (resolveParam rt ctx rawParams)).Yields Post resolved →
      Fetched resolved.instances (defs.foldl (noteAddress rawParams) found) := by
    intro defs
    induction defs with
    | nil =>
      intro acc found hacc hyields
      rw [yields_pure.mp hyields]
      exact hacc
    | cons d defs ih =>
      intro acc found hacc hyields
      obtain ⟨acc', hd, hrest⟩ := yields_bind.mp hyields
      rw [resolveParam_eq] at hd
      obtain ⟨request, hrequest, hanswer⟩ := yields_bind.mp hd
      refine ih acc' _ ?_ hrest
      rw [noteAddress, yields_ofExcept.mp hrequest]
      exact hacc.answered rt hanswer
  exact hrun defs _ [] (fun name => .none) hloop

end Fetch

end Lingshu.Function
