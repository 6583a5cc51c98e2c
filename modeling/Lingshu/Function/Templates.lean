import Lingshu.Function.Expressions
import Lingshu.Text.Placeholders
import Lingshu.Workflow.Values

/-! # Templates of the webhook engine

`_resolve_template_string` renders the URL and the headers, `_resolve_template_value` the body. A string of the body
that is one placeholder gives the value itself. -/
namespace Lingshu.Function
open Json Data Text
open Workflow (isSpace strip)
set_option autoImplicit false

/-- `\{\{(.+?)\}\}`; the dot is any character but a line feed. -/
def braces : Delimiters Char where
  opening := ['{', '{']
  closing := ['}', '}']
  inner := fun c => c ≠ '\n'

/-- `str(value)`. -/
def strOf (py : Python) : Value → List Char
  | .str s => s.toList
  | v => (py.str v).toList

variable (py : Python) (env : Surroundings) (params : Assoc Value) (instances : Assoc Row)

/-- The `_replacer` of `_resolve_template_string`. -/
def replacer (content : List Char) : List Char :=
  match resolveExpression py env params instances (strip content) with
  | .null => braces.enclose content
  | v => strOf py v

/-- `_resolve_template_string`. -/
def resolveTemplateString (value : List Char) : List Char := braces.substitute (replacer py env params instances) value

/-- The branch of `_resolve_template_value` for a string. -/
def resolveTemplateText (value : List Char) : Value :=
  match braces.whole value with
  | some content =>
    match resolveExpression py env params instances (strip content) with
    | .null => .str (String.ofList value)
    | v => v
  | none => .str (String.ofList (resolveTemplateString py env params instances value))

mutual

/-- `_resolve_template_value`. -/
def resolveTemplateValue : Value → Value
  | .str s => resolveTemplateText py env params instances s.toList
  | .dict entries => .dict (resolveTemplateEntries entries)
  | .list items => .list (resolveTemplateItems items)
  | v => v

def resolveTemplateEntries : List (String × Value) → List (String × Value)
  | [] => []
  | (k, v) :: entries => (k, resolveTemplateValue v) :: resolveTemplateEntries entries

def resolveTemplateItems : List Value → List Value
  | [] => []
  | v :: items => resolveTemplateValue v :: resolveTemplateItems items

end

/-! ## Rendering -/

theorem replacer_unresolved {content : List Char}
    (h : resolveExpression py env params instances (strip content) = .null) :
    replacer py env params instances content = braces.enclose content := by
  simp only [replacer, h]

theorem replacer_resolved {content : List Char} {v : Value}
    (h : resolveExpression py env params instances (strip content) = v) (hv : v ≠ .null) :
    replacer py env params instances content = strOf py v := by
  cases v with
  | null => exact absurd rfl hv
  | _ => simp only [replacer, h]

@[simp] theorem strOf_str (s : String) : strOf py (.str s) = s.toList := rfl

section Whole
variable {py env params instances} {value content : List Char}

theorem resolveTemplateText_none (h : braces.whole value = none) :
    resolveTemplateText py env params instances value =
      .str (String.ofList (resolveTemplateString py env params instances value)) := by
  simp only [resolveTemplateText, h]

theorem resolveTemplateText_unresolved (h : braces.whole value = some content)
    (hnull : resolveExpression py env params instances (strip content) = .null) :
    resolveTemplateText py env params instances value = .str (String.ofList value) := by
  simp only [resolveTemplateText, h, hnull]

theorem resolveTemplateText_resolved {v : Value} (h : braces.whole value = some content)
    (hv : resolveExpression py env params instances (strip content) = v) (hne : v ≠ .null) :
    resolveTemplateText py env params instances value = v := by
  cases v with
  | null => exact absurd rfl hne
  | _ => simp only [resolveTemplateText, h, hv]

/-- A template whose only placeholder is all of it: the text of what the body gets is the rendered string. -/
theorem resolveTemplateString_whole (h : braces.whole value = some content)
    (hpieces : braces.pieces value = [.hole content]) :
    resolveTemplateString py env params instances value =
      strOf py (resolveTemplateText py env params instances value) := by
  have hstring : resolveTemplateString py env params instances value = replacer py env params instances content := by
    simp [resolveTemplateString, Delimiters.substitute, hpieces, Delimiters.fill]
  rw [hstring]
  by_cases hnull : resolveExpression py env params instances (strip content) = .null
  · rw [replacer_unresolved _ _ _ _ hnull, resolveTemplateText_unresolved h hnull,
      ← (Delimiters.whole_eq_some_iff.mp h).1]
    simp
  · rw [replacer_resolved _ _ _ _ rfl hnull, resolveTemplateText_resolved h rfl hnull]

end Whole

/-! ## Parameters for which an expression resolves -/

/-- The surroundings in which every secret is `x`, and so is the user. -/
def Surroundings.constant : Surroundings := ⟨fun _ => some "x", some "x"⟩

/-- Parameters and instances that hold one value only. -/
structure Holding (v : Value) (params : Assoc Value) (instances : Assoc Row) : Prop where
  params : ∀ name, field params name = .null ∨ field params name = v
  rows : ∀ name row, instances.lookup name = some row → ∀ fieldName, field row fieldName = .null ∨ field row fieldName = v

theorem holding_nil (v : Value) : Holding v [] [] := ⟨fun _ => .inl rfl, fun _ _ h => by simp at h⟩

theorem field_singleton (name name' : String) (v : Value) :
    field [(name, v)] name' = .null ∨ field [(name, v)] name' = v := by
  rw [field, Assoc.lookup_cons]
  split
  · exact .inr rfl
  · exact .inl rfl

theorem holding_param (name : String) (v : Value) : Holding v [(name, v)] [] :=
  ⟨fun name' => field_singleton name name' v, fun _ _ h => by simp at h⟩

theorem holding_row (name fieldName : String) (v : Value) : Holding v [] [(name, [(fieldName, v)])] where
  params := fun _ => .inl rfl
  rows := fun name' row h => by
    rw [Assoc.lookup_cons] at h
    split at h
    · obtain rfl := Option.some.inj h
      exact fun fieldName' => field_singleton fieldName fieldName' v
    · simp at h

/-- A path has any value for some parameters and instances. -/
theorem exists_lookup (v : Value) (path : List Char) :
    ∃ params instances, Holding v params instances ∧ lookup params instances path = v := by
  cases hsplit : splitDot path with
  | mk name fieldName =>
    cases fieldName with
    | none =>
      refine ⟨[(name, v)], [], holding_param name v, ?_⟩
      simp [lookup, hsplit, field]
    | some fieldName =>
      refine ⟨[], [(name, [(fieldName, v)])], holding_row name fieldName v, ?_⟩
      simp [lookup, hsplit, field]

section Constant
variable {params : Assoc Value} {instances : Assoc Row}

/-- Where one value is all there is, a path has it or none. -/
theorem lookup_holding {v : Value} (h : Holding v params instances) (hdict : ∀ entries, v ≠ .dict entries)
    (path : List Char) : lookup params instances path = .null ∨ lookup params instances path = v := by
  simp only [lookup]
  split
  · split
    · next row hrow => exact h.rows _ _ hrow _
    · split
      · next entries hentries =>
        obtain hnull | hv := h.params (splitDot path).1
        · exact absurd (hnull.symm.trans hentries) (by simp)
        · exact absurd (hv.symm.trans hentries) (hdict entries)
      · exact .inl rfl
  · exact h.params _

theorem resolveExpression_constant (h : Holding (.str "x") params instances) (expr : List Char) :
    resolveExpression py .constant params instances expr = .null ∨
      resolveExpression py .constant params instances expr = .str "x" := by
  simp only [resolveExpression]
  split
  · exact .inr rfl
  · split
    · split
      · exact .inr rfl
      · exact .inl rfl
    · exact lookup_holding h (by simp) _

theorem replacer_constant (h : Holding (.str "x") params instances) (content : List Char) :
    replacer py .constant params instances content = braces.enclose content ∨
      replacer py .constant params instances content = ['x'] := by
  obtain hnull | hx := resolveExpression_constant py h (strip content)
  · exact .inl (replacer_unresolved _ _ _ _ hnull)
  · exact .inr (replacer_resolved _ _ _ _ hx (by simp))

theorem length_enclose (content : List Char) : (braces.enclose content).length = content.length + 4 := by
  simp [Delimiters.enclose, braces]

theorem length_replacer_constant (h : Holding (.str "x") params instances) (content : List Char) :
    0 < (replacer py .constant params instances content).length ∧
      (replacer py .constant params instances content).length ≤ (braces.enclose content).length := by
  have hlength := length_enclose content
  obtain hr | hr := replacer_constant py h content <;> rw [hr]
  · omega
  · rw [hlength, List.length_singleton]
    omega

end Constant

/-! ## Secrets and the context -/

section Prefixes
variable {expr rest : List Char}

theorem dropPrefix_append (pre rest : List Char) : (pre ++ rest).dropPrefix? pre = some rest :=
  List.dropPrefix?_eq_some_iff.mpr ⟨pre, rfl, by simp⟩

/-- A secret always resolves. -/
theorem resolveExpression_secret (h : "secret:".toList <+: expr) :
    ∃ keyName, resolveExpression py env params instances expr = .str ((env.environ keyName).getD "") := by
  obtain ⟨keyName, rfl⟩ := h
  simp only [resolveExpression, dropPrefix_append]
  exact ⟨_, rfl⟩

/-- An expression of the context that is not the user never resolves. -/
def Dead (expr : List Char) : Prop := "context.".toList <+: expr ∧ expr ≠ "context.user_id".toList

instance (expr : List Char) : Decidable (Dead expr) := inferInstanceAs (Decidable (_ ∧ _))

theorem resolveExpression_context (h : "context.".toList <+: expr) :
    resolveExpression py env params instances expr =
      if expr = "context.user_id".toList then
        match env.userId with
        | some userId => .str userId
        | none => .null
      else .null := by
  obtain ⟨rest, rfl⟩ := h
  have hsecret : ¬"secret:".toList <+: "context.".toList ++ rest := fun hprefix => by
    exact absurd (List.cons_prefix_cons.mp hprefix).1 (by decide)
  have huser : "context.".toList ++ rest = "context.user_id".toList ↔ rest = "user_id".toList :=
    show "context.".toList ++ rest = "context.".toList ++ "user_id".toList ↔ _ from List.append_right_inj _
  rw [resolveExpression, dropPrefix_eq_none hsecret, dropPrefix_append]
  exact if_congr huser.symm rfl rfl

theorem resolveExpression_dead (h : Dead expr) : resolveExpression py env params instances expr = .null := by
  rw [resolveExpression_context _ _ _ _ h.1, if_neg h.2]

/-- Anything else resolves to `x` in some surroundings. -/
theorem exists_resolving (h : ¬Dead expr) :
    ∃ params instances, Holding (.str "x") params instances ∧
      resolveExpression py .constant params instances expr = .str "x" := by
  by_cases hsecret : "secret:".toList <+: expr
  · obtain ⟨keyName, hkey⟩ := resolveExpression_secret py .constant [] [] hsecret
    exact ⟨[], [], holding_nil _, hkey⟩
  · by_cases hcontext : "context.".toList <+: expr
    · have huser : expr = "context.user_id".toList := Decidable.byContradiction fun hne => h ⟨hcontext, hne⟩
      refine ⟨[], [], holding_nil _, ?_⟩
      rw [resolveExpression_context _ _ _ _ hcontext, if_pos huser]
      rfl
    · obtain ⟨params, instances, hholding, hlookup⟩ :=
        exists_lookup (.str "x") ((expr.dropPrefix? "params.".toList).getD expr)
      exact ⟨params, instances, hholding, by rw [resolveExpression_params _ _ _ _ hsecret hcontext, hlookup]⟩

end Prefixes

/-! ## When the two renderings agree -/

/-- Without braces. -/
def Simple (content : List Char) : Prop := '{' ∉ content ∧ '}' ∉ content

instance (content : List Char) : Decidable (Simple content) := inferInstanceAs (Decidable (_ ∧ _))

/-- A template that is one placeholder which resolves gives the value, every other one the string that the URL and the
headers get; and as texts the two are the same. -/
structure Uniform (value : String) : Prop where
  raw : ∀ content, braces.whole value.toList = some content → Simple content →
    resolveExpression py env params instances (strip content) ≠ .null →
      resolveTemplateValue py env params instances (.str value) = resolveExpression py env params instances (strip content)
  string : (∀ content, braces.whole value.toList = some content → Simple content →
      resolveExpression py env params instances (strip content) = .null) →
    resolveTemplateValue py env params instances (.str value) =
      .str (String.ofList (resolveTemplateString py env params instances value.toList))
  text : strOf py (resolveTemplateValue py env params instances (.str value)) =
    resolveTemplateString py env params instances value.toList

theorem resolveTemplateValue_str (value : String) : resolveTemplateValue py env params instances (.str value) =
    resolveTemplateText py env params instances value.toList := by
  rw [resolveTemplateValue]

section Agree
variable {py env params instances} {value : String} {content : List Char}

theorem uniform_of_none (h : braces.whole value.toList = none) : Uniform py env params instances value where
  raw := fun content hcontent => absurd hcontent (by simp [h])
  string := fun _ => (resolveTemplateValue_str _ _ _ _ value).trans (resolveTemplateText_none h)
  text := by rw [resolveTemplateValue_str, resolveTemplateText_none h, strOf_str, String.toList_ofList]

/-- The whole template is its only placeholder: a difference remains only where the value is not a string. -/
theorem uniform_of_pieces (h : braces.whole value.toList = some content)
    (hpieces : braces.pieces value.toList = [.hole content])
    (hstr : Simple content ∨ ∃ s, resolveExpression py env params instances (strip content) = .str s) :
    Uniform py env params instances value := by
  have htext : resolveTemplateString py env params instances value.toList =
      strOf py (resolveTemplateText py env params instances value.toList) := resolveTemplateString_whole h hpieces
  refine ⟨fun content' hcontent' _ hresolves => ?_, fun hunresolved => ?_, ?_⟩
  · obtain rfl := Option.some.inj (h.symm.trans hcontent')
    rw [resolveTemplateValue_str, resolveTemplateText_resolved h rfl hresolves]
  · obtain ⟨s, hs⟩ : ∃ s, resolveTemplateText py env params instances value.toList = .str s := by
      obtain hsimple | ⟨s, hs⟩ := hstr
      · exact ⟨_, resolveTemplateText_unresolved h (hunresolved content h hsimple)⟩
      · exact ⟨s, resolveTemplateText_resolved h hs (by simp)⟩
    rw [resolveTemplateValue_str, htext, hs, strOf_str, String.ofList_toList]
  · rw [resolveTemplateValue_str, htext]

theorem simple_pieces (h : braces.whole value.toList = some content) (hsimple : Simple content) :
    braces.pieces value.toList = [.hole content] :=
  Delimiters.pieces_whole (by simp [braces]) rfl hsimple.2 h

/-- No placeholder of the template resolves, and neither does the template as a whole. -/
theorem uniform_of_dead (h : braces.whole value.toList = some content)
    (hcontent : resolveExpression py env params instances (strip content) = .null)
    (hdead : ∀ e, .hole e ∈ braces.pieces value.toList → Dead (strip e)) : Uniform py env params instances value := by
  have hstring : resolveTemplateString py env params instances value.toList = value.toList :=
    braces.substitute_eq_self (by simp [braces]) fun e he =>
      replacer_unresolved _ _ _ _ (resolveExpression_dead _ _ _ _ (hdead e he))
  have hvalue : resolveTemplateText py env params instances value.toList = .str value := by
    rw [resolveTemplateText_unresolved h hcontent, String.ofList_toList]
  refine ⟨fun content' hcontent' _ hresolves => ?_, fun _ => ?_, ?_⟩
  · obtain rfl := Option.some.inj (h.symm.trans hcontent')
    exact absurd hcontent hresolves
  · rw [resolveTemplateValue_str, hvalue, hstring, String.ofList_toList]
  · rw [resolveTemplateValue_str, hvalue, hstring, strOf_str]

/-! ## When they do not -/

/-- Where a brace is inside, the template has to give the rendered string. -/
theorem Uniform.string_of_braces (hu : Uniform py env params instances value)
    (h : braces.whole value.toList = some content) (hsimple : ¬Simple content) :
    resolveTemplateText py env params instances value.toList =
      .str (String.ofList (resolveTemplateString py env params instances value.toList)) := by
  rw [← resolveTemplateValue_str]
  refine hu.string fun content' hcontent' hsimple' => ?_
  obtain rfl := Option.some.inj (h.symm.trans hcontent')
  exact absurd hsimple' hsimple

/-- A secret with braces: its placeholder is the only one, for else the text is longer than the secret. -/
theorem pieces_of_secret (hu : Uniform py .constant [] [] value) (h : braces.whole value.toList = some content)
    (hsimple : ¬Simple content) (hsecret : "secret:".toList <+: strip content) :
    braces.pieces value.toList = [.hole content] := by
  obtain ⟨keyName, hkey⟩ := resolveExpression_secret py .constant [] [] hsecret
  obtain ⟨content', rest, hpieces, htext, -⟩ := Delimiters.pieces_of_whole (by simp [braces]) h
  have hstring : resolveTemplateString py .constant [] [] value.toList = ['x'] := by
    have hx := (resolveTemplateText_resolved h hkey (by simp)).symm.trans (hu.string_of_braces h hsimple)
    have hofList := congrArg String.toList (Value.str.inj hx)
    rw [String.toList_ofList] at hofList
    simpa [Surroundings.constant] using hofList.symm
  have hlength := congrArg List.length hstring
  simp only [resolveTemplateString, Delimiters.substitute, hpieces, List.flatMap_cons, List.length_append,
    List.length_singleton, Delimiters.fill] at hlength
  have hpos := (length_replacer_constant py (holding_nil (.str "x")) content').1
  have hrest : rest = [] := by
    refine braces.pieces_eq_nil (by simp [braces]) (List.eq_nil_iff_forall_not_mem.mpr fun piece hpiece => ?_)
    have hnil : (braces.pieces rest).flatMap (Delimiters.fill (replacer py .constant [] [])) = [] :=
      List.eq_nil_of_length_eq_zero (by omega)
    have hfill := List.flatMap_eq_nil_iff.mp hnil piece hpiece
    cases piece with
    | text c => simp [Delimiters.fill] at hfill
    | hole e =>
      have hpos' := (length_replacer_constant py (holding_nil (.str "x")) e).1
      rw [Delimiters.fill] at hfill
      simp [hfill] at hpos'
  have hwhole := (Delimiters.whole_eq_some_iff.mp h).1
  rw [hrest, List.append_nil, hwhole] at htext
  have hcontent : content = content' := by simpa [Delimiters.enclose] using htext
  rw [hpieces, hrest, Delimiters.pieces_nil, hcontent]

theorem not_simple_strip (hsimple : ¬Simple content) : ¬Simple (strip content) := by
  rintro ⟨hopening, hclosing⟩
  exact hsimple ⟨fun h => hopening (Text.mem_strip (by decide) h), fun h => hclosing (Text.mem_strip (by decide) h)⟩

theorem dead_of_braces (hsimple : ¬Simple content) (hcontext : "context.".toList <+: strip content) :
    Dead (strip content) :=
  ⟨hcontext, fun huser => absurd (huser ▸ not_simple_strip hsimple) (by decide)⟩

/-- An expression of the context with braces: it does not resolve, and no placeholder may. -/
theorem dead_of_context (hu : ∀ env params instances, Uniform py env params instances value)
    (h : braces.whole value.toList = some content) (hsimple : ¬Simple content)
    (hcontext : "context.".toList <+: strip content) {e : List Char} (he : .hole e ∈ braces.pieces value.toList) :
    Dead (strip e) := by
  refine Decidable.byContradiction fun hlive => ?_
  obtain ⟨params, instances, hholding, hx⟩ := exists_resolving py hlive
  have hdead := resolveExpression_dead py .constant params instances (dead_of_braces hsimple hcontext)
  have hvalue := (resolveTemplateText_unresolved h hdead).symm.trans
    ((hu .constant params instances).string_of_braces h hsimple)
  have hsame := congrArg List.length (String.ofList_injective (Value.str.inj hvalue))
  have hshorter := braces.length_substitute_lt (by simp [braces])
    (fun e' => (length_replacer_constant py hholding e').2) he (by
      rw [replacer_resolved _ _ _ _ hx (by simp), length_enclose, strOf_str]
      simp)
  rw [resolveTemplateString] at hsame
  omega

/-- Otherwise the value may be a number. -/
theorem prefixed_of_uniform (hu : ∀ env params instances, Uniform py env params instances value)
    (h : braces.whole value.toList = some content) (hsimple : ¬Simple content) :
    "secret:".toList <+: strip content ∨ "context.".toList <+: strip content := by
  by_cases hsecret : "secret:".toList <+: strip content
  · exact .inl hsecret
  · refine .inr (Decidable.byContradiction fun hcontext => ?_)
    obtain ⟨params, instances, -, hlookup⟩ :=
      exists_lookup (.int 7) (((strip content).dropPrefix? "params.".toList).getD (strip content))
    have hseven := (resolveExpression_params params instances py .constant hsecret hcontext).trans hlookup
    have hstring := (resolveTemplateText_resolved h hseven (by simp)).symm.trans
      ((hu .constant params instances).string_of_braces h hsimple)
    simp at hstring

/-- For every parameter, instance, user and secret the two renderings of a template agree, unless it is taken for one
placeholder although there are braces inside. Then it is a `secret:` of which the first closing braces are the last
ones, or a `context.` without a placeholder that could resolve. -/
theorem uniform_iff (py : Python) (value : String) :
    (∀ env params instances, Uniform py env params instances value) ↔
      ∀ content, braces.whole value.toList = some content → Simple content ∨
        ("secret:".toList <+: strip content ∧ braces.pieces value.toList = [.hole content]) ∨
        ("context.".toList <+: strip content ∧ ∀ e, .hole e ∈ braces.pieces value.toList → Dead (strip e)) := by
  constructor
  · intro hu content h
    refine Decidable.or_iff_not_imp_left.mpr fun hsimple => ?_
    obtain hsecret | hcontext := prefixed_of_uniform hu h hsimple
    · exact .inl ⟨hsecret, pieces_of_secret (hu .constant [] []) h hsimple hsecret⟩
    · exact .inr ⟨hcontext, fun e he => dead_of_context hu h hsimple hcontext he⟩
  · intro hcond env params instances
    cases h : braces.whole value.toList with
    | none => exact uniform_of_none h
    | some content =>
      by_cases hsimple : Simple content
      · exact uniform_of_pieces h (simple_pieces h hsimple) (.inl hsimple)
      · obtain ⟨hsecret, hpieces⟩ | ⟨hcontext, hdead⟩ := (hcond content h).resolve_left hsimple
        · obtain ⟨keyName, hkey⟩ := resolveExpression_secret py env params instances hsecret
          exact uniform_of_pieces h hpieces (.inr ⟨_, hkey⟩)
        · exact uniform_of_dead h (resolveExpression_dead _ _ _ _ (dead_of_braces hsimple hcontext)) hdead

end Agree

/-- Two placeholders are taken for one, and neither is resolved in the body. -/
theorem not_uniform_two : ¬Uniform Runtime.plain.python ⟨fun _ => none, none⟩ [("a", .str "1"), ("b", .str "2")] []
    "{{a}} and {{b}}" := by
  intro h
  have hvalue : resolveTemplateValue Runtime.plain.python ⟨fun _ => none, none⟩ [("a", .str "1"), ("b", .str "2")] []
      (.str "{{a}} and {{b}}") = .str "{{a}} and {{b}}" := by decide
  have hstring : resolveTemplateString Runtime.plain.python ⟨fun _ => none, none⟩ [("a", .str "1"), ("b", .str "2")] []
      "{{a}} and {{b}}".toList = "1 and 2".toList := by decide
  have htext := h.text
  rw [hvalue, hstring] at htext
  exact absurd htext (by decide)

end Lingshu.Function
