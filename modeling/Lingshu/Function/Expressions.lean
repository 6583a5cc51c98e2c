import Lingshu.Function.Store
import Lingshu.Text.Split

/-! # Parameter expressions of the engines

An expression is `param` or `param.field`. Three engines have a resolver of their own: `_lookup` of the SQL runner,
`_resolve_expression` of the webhook engine, `_resolve_source` of the native CRUD engine. `None` is `null`, also
for an expression that is not defined. -/
namespace Lingshu.Function
open Json Data
set_option autoImplicit false

/-- `expr.split(".", 1)`: the name, and the field if there is a dot. -/
def splitDot (expr : List Char) : String × Option String :=
  match Text.splitFirst ['.'] expr with
  | some (name, field) => (String.ofList name, some (String.ofList field))
  | none => (String.ofList expr, none)

theorem splitDot_snd_eq_none_iff (expr : List Char) : (splitDot expr).2 = none ↔ '.' ∉ expr := by
  rw [← List.singleton_infix_iff, ← Text.splitFirst_eq_none_iff, splitDot]
  cases Text.splitFirst ['.'] expr with
  | none => simp
  | some r => simp

/-! ## The resolvers -/

/-- `_lookup` of the SQL runner. -/
def lookup (params : Assoc Value) (instances : Assoc Row) (expr : List Char) : Value :=
  let parts := splitDot expr
  match parts.2 with
  | some fieldName =>
    match instances.lookup parts.1 with
    | some row => field row fieldName
    | none =>
      match field params parts.1 with
      | .dict entries => field entries fieldName
      | _ => .null
  | none => field params parts.1

/-- What the webhook engine reads beside the parameters: `os.environ`, and the user of the request if there is one. -/
structure Surroundings where
  environ : String → Option String
  userId : Option String

/-- `_resolve_expression` of the webhook engine. -/
def resolveExpression (py : Python) (env : Surroundings) (params : Assoc Value) (instances : Assoc Row)
    (expr : List Char) : Value :=
  match expr.dropPrefix? "secret:".toList with
  | some keyName => .str ((env.environ ("LINGSHU_SECRET_" ++ py.upper (String.ofList keyName))).getD "")
  | none =>
    match expr.dropPrefix? "context.".toList with
    | some contextField =>
      if contextField = "user_id".toList then
        match env.userId with
        | some userId => .str userId
        | none => .null
      else .null
    | none =>
      let parts := splitDot ((expr.dropPrefix? "params.".toList).getD expr)
      match parts.2 with
      | some fieldName =>
        match instances.lookup parts.1 with
        | some row => field row fieldName
        | none =>
          match field params parts.1 with
          | .dict entries => field entries fieldName
          | _ => .null
      | none => field params parts.1

/-- `_resolve_source` of the native CRUD engine: a field is one of an instance. -/
def resolveSource (params : Assoc Value) (instances : Assoc Row) (source : List Char) : Value :=
  let parts := splitDot source
  match parts.2, instances.lookup parts.1 with
  | some fieldName, some row => field row fieldName
  | _, _ => field params parts.1

/-! ## The webhook engine and the SQL runner -/

theorem dropPrefix_eq_none {pre expr : List Char} (h : ¬pre <+: expr) : expr.dropPrefix? pre = none := by
  cases hdrop : expr.dropPrefix? pre with
  | none => rfl
  | some rest =>
    obtain ⟨pre', rfl, hpre⟩ := List.dropPrefix?_eq_some_iff.mp hdrop
    exact absurd ((beq_iff_eq.mp hpre) ▸ List.prefix_append _ _) h

section Plain
variable {expr : List Char} (params : Assoc Value) (instances : Assoc Row)

/-- A `params.` that stands before is left out, and the webhook engine looks up the rest as the SQL runner does. -/
theorem resolveExpression_params (py : Python) (env : Surroundings) (hsecret : ¬"secret:".toList <+: expr)
    (hcontext : ¬"context.".toList <+: expr) :
    resolveExpression py env params instances expr =
      lookup params instances ((expr.dropPrefix? "params.".toList).getD expr) := by
  simp only [resolveExpression, dropPrefix_eq_none hsecret, dropPrefix_eq_none hcontext]
  rfl

theorem resolveExpression_eq_lookup (py : Python) (env : Surroundings) (hsecret : ¬"secret:".toList <+: expr)
    (hcontext : ¬"context.".toList <+: expr) (hparams : ¬"params.".toList <+: expr) :
    resolveExpression py env params instances expr = lookup params instances expr := by
  rw [resolveExpression_params params instances py env hsecret hcontext, dropPrefix_eq_none hparams, Option.getD_none]

/-! ## The native CRUD engine -/

/-- A dict is not among its own entries. -/
theorem field_ne_dict (entries : Assoc Value) (name : String) : field entries name ≠ .dict entries := by
  intro h
  cases hlookup : entries.lookup name with
  | none => simp [field, hlookup] at h
  | some v =>
    have hv : v = .dict entries := by simpa [field, hlookup] using h
    have hsize := List.sizeOf_lt_of_mem (Assoc.mem_of_lookup hlookup)
    rw [hv] at hsize
    simp only [Prod.mk.sizeOf_spec, Value.dict.sizeOf_spec] at hsize
    omega

/-- What a field of a parameter is looked up as. -/
theorem nested_eq_iff (v : Value) (name : String) :
    (v = match v with
      | .dict entries => field entries name
      | _ => .null) ↔ v = .null := by
  cases v with
  | dict entries => simp [(field_ne_dict entries name).symm]
  | _ => simp

/-- The native CRUD engine takes the parameter for its field: it finds what the others find where there is no field,
where the field is one of an instance, and where the parameter has no value. -/
theorem resolveSource_eq_lookup_iff :
    resolveSource params instances expr = lookup params instances expr ↔
      '.' ∉ expr ∨ (instances.lookup (splitDot expr).1).isSome ∨ field params (splitDot expr).1 = .null := by
  rw [← splitDot_snd_eq_none_iff]
  simp only [resolveSource, lookup]
  cases (splitDot expr).2 with
  | none => simp
  | some fieldName =>
    cases instances.lookup (splitDot expr).1 with
    | none => simpa using nested_eq_iff _ fieldName
    | some row => simp

/-- The three resolvers find the same for an expression without a prefix, `None` included, exactly then. -/
theorem resolvers_agree_iff (py : Python) (env : Surroundings) (hsecret : ¬"secret:".toList <+: expr)
    (hcontext : ¬"context.".toList <+: expr) (hparams : ¬"params.".toList <+: expr) :
    (resolveExpression py env params instances expr = lookup params instances expr ∧
      resolveSource params instances expr = lookup params instances expr) ↔
      '.' ∉ expr ∨ (instances.lookup (splitDot expr).1).isSome ∨ field params (splitDot expr).1 = .null := by
  rw [← resolveSource_eq_lookup_iff, and_iff_right_iff_imp]
  exact fun _ => resolveExpression_eq_lookup params instances py env hsecret hcontext hparams

end Plain

/-- A field of an instance is found by all three. -/
theorem resolvers_agree_instance :
    resolveExpression Runtime.plain.python ⟨fun _ => none, none⟩ [("robot", .str "r1")]
        [("robot", [("owner", .str "ann")])] "robot.owner".toList =
        lookup [("robot", .str "r1")] [("robot", [("owner", .str "ann")])] "robot.owner".toList ∧
      resolveSource [("robot", .str "r1")] [("robot", [("owner", .str "ann")])] "robot.owner".toList =
        lookup [("robot", .str "r1")] [("robot", [("owner", .str "ann")])] "robot.owner".toList :=
  (resolvers_agree_iff _ _ _ _ (by decide) (by decide) (by decide)).mpr (.inr (.inl (by decide)))

/-- A field of a dict that is given as a parameter: the native CRUD engine finds the dict. -/
theorem resolveSource_nested :
    lookup [("robot", .dict [("owner", .str "ann")])] [] "robot.owner".toList = .str "ann" ∧
      resolveExpression Runtime.plain.python ⟨fun _ => none, none⟩ [("robot", .dict [("owner", .str "ann")])] []
        "robot.owner".toList = .str "ann" ∧
      resolveSource [("robot", .dict [("owner", .str "ann")])] [] "robot.owner".toList =
        .dict [("owner", .str "ann")] := by
  decide

end Lingshu.Function
