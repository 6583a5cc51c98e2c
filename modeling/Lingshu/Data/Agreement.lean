import Lingshu.Data.Iceberg
import Mathlib.Data.String.Basic

/-! # Filters over the connectors

When the three connectors select the same rows, those that the filters ask for. -/
namespace Lingshu.Data.Iceberg
open Json Sql
set_option autoImplicit false

/-- `str` of numbers and truth values. -/
structure Texts (py : Python) : Prop where
  int : ∀ i, py.str (.int i) = toString i
  true : py.str (.bool true) = "True"
  false : py.str (.bool false) = "False"
  float : ∀ text, py.str (.float text) = text

/-- The comparison that is written for a filter. -/
def comparison (f : Filter) : Option Comparison :=
  match f.operator with
  | .in => none
  | .contains => some ⟨f.field, .gte, f.value⟩
  | op => some ⟨f.field, op, f.value⟩

/-- `IN` is left out, `CONTAINS` asks for greater texts, and the rest is neither escaped nor quoted: the filters of
which the text says what they say. -/
def Rendered (floats : Floats) (schema : Schema) (f : Filter) : Prop :=
  match f.operator with
  | .in => ∀ type, (f.field, type) ∈ schema.columns → ∀ v, type.has v → (members f.value).any (same floats v)
  | .contains => f.value = .str "" ∧ reserved f.field = false
  | _ => clean f.value ∧ reserved f.field = false

section Text
variable {py : Python} {floats : Floats} {schema : Schema} {type : ColumnType} {f : Filter} {filters : List Filter}
  {row : Row}

theorem quoted_eq (hpy : Texts py) {v : Value} (hv : type.has v) : quoted py v = literalText v := by
  cases v with
  | bool b =>
    cases b with
    | false => exact hpy.false
    | true => exact hpy.true
  | int i => exact hpy.int i
  | float text => exact hpy.float text
  | str s => rfl
  | _ => cases type <;> cases hv

theorem part_eq (hpy : Texts py) (hfits : type.Fits f) : part py f = (comparison f).map Comparison.text := by
  unfold part comparison
  unfold ColumnType.Fits at hfits
  cases hop : f.operator with
  | «in» => rfl
  | contains =>
    rw [hop] at hfits
    obtain ⟨rfl, hvalue⟩ := hfits
    obtain ⟨t, hf⟩ := ColumnType.str_of_has hvalue
    rw [hf]
    exact congrArg some (String.toList_inj.mp (by simp [Comparison.text, symbol, literalText, formatted]))
  | _ =>
    rw [hop] at hfits
    exact congrArg some (String.toList_inj.mp (by simp [Comparison.text, symbol, quoted_eq hpy hfits]))

theorem buildFilter_eq (hpy : Texts py) (htyped : ∀ f ∈ filters, schema.Types f) :
    buildFilter py filters = render (filters.filterMap comparison) := by
  have hparts : filters.filterMap (part py) = (filters.filterMap comparison).map Comparison.text := by
    rw [List.map_filterMap]
    refine List.filterMap_congr fun f hf => ?_
    obtain ⟨type, -, hfits⟩ := htyped f hf
    exact part_eq hpy hfits
  rw [buildFilter, hparts, render]

/-! ## What is written is read -/

theorem empty_within {cell : Value} (hcell : ColumnType.has .string cell) :
    meaning floats cell .contains (.str "") = true ∧ meaning floats cell .gte (.str "") = true := by
  obtain ⟨s, rfl⟩ := ColumnType.str_of_has hcell
  refine ⟨decide_eq_true List.nil_infix, ?_⟩
  rw [meaning, less, same, Bool.or_eq_true, decide_eq_true_eq, decide_eq_true_eq, String.lt_iff_toList_lt]
  cases hs : s.toList with
  | nil => exact .inr (String.toList_eq_nil_iff.mp hs)
  | cons a as => exact .inl (List.nil_lt_cons a as)

/-- The comparison says of the cells what the filter says. -/
theorem comparison_eq (hfits : type.Fits f) (hcolumn : (f.field, type) ∈ schema.columns)
    (h : Rendered floats schema f) (hcell : type.has (field row f.field)) :
    ((comparison f).all fun c => meaning floats (field row c.column) c.operator c.literal) =
      meaning floats (field row f.field) f.operator f.value := by
  unfold comparison
  unfold Rendered at h
  unfold ColumnType.Fits at hfits
  cases hop : f.operator with
  | «in» =>
    rw [hop] at h
    exact (h type hcolumn _ hcell).symm
  | contains =>
    rw [hop] at h hfits
    obtain ⟨rfl, -⟩ := hfits
    rw [h.1, (empty_within hcell).1]
    exact (empty_within hcell).2
  | _ => rfl

theorem plainly_eq (htyped : ∀ f ∈ filters, schema.Types f) (h : ∀ f ∈ filters, Rendered floats schema f)
    (hrow : schema.Holds row) : plainly floats filters row =
      (filters.filterMap comparison).all fun c => meaning floats (field row c.column) c.operator c.literal := by
  induction filters with
  | nil => rfl
  | cons f fs ih =>
    obtain ⟨type, hcolumn, hfits⟩ := htyped f List.mem_cons_self
    have hf := comparison_eq hfits hcolumn (h f List.mem_cons_self) (hrow _ hcolumn)
    have hfs := ih (fun f hf => htyped f (List.mem_cons_of_mem _ hf)) fun f hf => h f (List.mem_cons_of_mem _ hf)
    unfold plainly at hfs ⊢
    rw [List.all_cons, hfs, ← hf]
    cases hc : comparison f with
    | none => rw [List.filterMap_cons_none hc]; rfl
    | some c => rw [List.filterMap_cons_some hc]; rfl

theorem wellFormed_comparison {c : Comparison} (hc : comparison f = some c) (htyped : schema.Types f)
    (h : Rendered floats schema f) : c.WellFormed schema := by
  obtain ⟨type, hcolumn, hfits⟩ := htyped
  unfold comparison at hc
  unfold Rendered at h
  unfold ColumnType.Fits at hfits
  cases hop : f.operator with
  | «in» => rw [hop] at hc; cases hc
  | contains =>
    rw [hop] at hc h hfits
    obtain rfl := Option.some.inj hc
    exact ⟨rfl, h.2, by rw [h.1]; rfl, type, hcolumn, hfits.2⟩
  | _ =>
    rw [hop] at hc h hfits
    obtain rfl := Option.some.inj hc
    exact ⟨rfl, h.2, h.1, type, hcolumn, hfits⟩

theorem render_ne_empty {cs : List Comparison} (hne : cs ≠ []) : render cs ≠ "" := by
  obtain ⟨c, cs, rfl⟩ := List.exists_cons_of_ne_nil hne
  intro hempty
  have htext := toList_render c cs
  obtain ⟨r, hr⟩ := rest_cons cs
  rw [hempty, hr, toList_text] at htext
  have hlength := congrArg List.length htext
  simp at hlength
  omega

theorem right_of_rendered (hpy : Texts py) {scan : Scan} (hscan : Documented floats schema scan)
    (htyped : ∀ f ∈ filters, schema.Types f) (h : ∀ f ∈ filters, Rendered floats schema f) :
    schema.Right floats filters (selects py scan filters) := by
  intro row hrow
  have hformed : ∀ c ∈ filters.filterMap comparison, c.WellFormed schema := fun c hc => by
    obtain ⟨f, hf, hcomparison⟩ := List.mem_filterMap.mp hc
    exact wellFormed_comparison hcomparison (htyped f hf) (h f hf)
  rw [selects, buildFilter_eq hpy htyped, plainly_eq htyped h hrow]
  by_cases hne : filters.filterMap comparison = []
  · rw [hne]
    rfl
  · rw [if_neg (render_ne_empty hne), hscan _ hne hformed]
    rfl

/-! ## What is read is written -/

/-- The texts that begin with `l`. -/
def beginning (l r : List Char) : Value := .str (String.ofList (l ++ r))

/-- A literal that needs no escape does not tell texts apart that begin alike, up to a quote. -/
theorem meaning_beginning {l : List Char} (hquote : '\'' ∈ l) {u : String} (hu : clean (.str u)) {op : FilterOperator}
    (hop : comparing op) (r r' : List Char) :
    meaning floats (beginning l r) op (.str u) = meaning floats (beginning l r') op (.str u) := by
  have hprefix : ¬l <+: u.toList := fun h => quote_notMem hu (h.subset hquote)
  have hne : ∀ r, String.ofList (l ++ r) ≠ u := fun r h =>
    quote_notMem hu (by rw [← h, String.toList_ofList]; exact List.mem_append_left _ hquote)
  have hlt : (String.ofList (l ++ r) < u) ↔ (String.ofList (l ++ r') < u) := by
    rw [String.lt_iff_toList_lt, String.lt_iff_toList_lt, String.toList_ofList, String.toList_ofList]
    exact Text.append_lt_iff hprefix
  have hgt : (u < String.ofList (l ++ r)) ↔ (u < String.ofList (l ++ r')) := by
    rw [String.lt_iff_toList_lt, String.lt_iff_toList_lt, String.toList_ofList, String.toList_ofList]
    exact Text.lt_append_iff hprefix
  cases op with
  | contains | «in» => cases hop
  | _ => simp only [meaning, same, less, beginning, hne, hlt, hgt]

/-- The value itself does. -/
theorem beginning_apart {t : String} {l r : List Char} (ht : t.toList = l ++ r) (hr : r ≠ []) {op : FilterOperator}
    (hop : op ≠ .in) (h : ∀ r', r' ∈ [[], r ++ ['a']] →
      meaning floats (beginning l r') op (.str t) = meaning floats (.str t) op (.str t)) : False := by
  have hlow : String.ofList (l ++ []) < t := by
    rw [String.lt_iff_toList_lt, String.toList_ofList, ht, List.append_nil]
    exact Text.lt_append hr
  have hhigh : t < String.ofList (l ++ (r ++ ['a'])) := by
    rw [String.lt_iff_toList_lt, String.toList_ofList, ht, ← List.append_assoc]
    exact Text.lt_append (List.cons_ne_nil _ _)
  have hbefore := h [] List.mem_cons_self
  have hafter := h (r ++ ['a']) (List.mem_cons_of_mem _ List.mem_cons_self)
  cases op with
  | «in» => exact hop rfl
  | contains =>
    have hout : ¬t.toList <:+: (String.ofList (l ++ [])).toList := fun hin => by
      have hlength := hin.length_le
      rw [String.toList_ofList, ht, List.length_append, List.append_nil] at hlength
      exact hr (List.length_eq_zero_iff.mp (by omega))
    simp only [meaning, within, beginning, hout, List.infix_refl, decide_true, decide_false] at hbefore
    cases hbefore
  | eq => simp only [meaning, same, beginning, hlow.ne, decide_true, decide_false, reduceCtorEq] at hbefore
  | neq => simp only [meaning, same, beginning, hlow.ne, decide_true, decide_false, Bool.not_true, Bool.not_false,
      reduceCtorEq] at hbefore
  | gt => simp only [meaning, less, beginning, hhigh, lt_irrefl, decide_true, decide_false, reduceCtorEq] at hafter
  | gte => simp only [meaning, less, same, beginning, hlow.not_gt, hlow.ne, decide_true, decide_false, Bool.or_true,
      Bool.or_false, reduceCtorEq] at hbefore
  | lt => simp only [meaning, less, beginning, hlow, lt_irrefl, decide_true, decide_false, reduceCtorEq] at hbefore
  | lte => simp only [meaning, less, same, beginning, hhigh.not_gt, hhigh.ne', decide_true, decide_false, Bool.or_true,
      Bool.or_false, reduceCtorEq] at hafter

theorem comparison_of_some {c : Comparison} (h : comparison f = some c) :
    c.column = f.field ∧ comparing c.operator ∧ c.literal = f.value := by
  unfold comparison at h
  cases hop : f.operator with
  | «in» => rw [hop] at h; cases h
  | _ =>
    rw [hop] at h
    obtain rfl := Option.some.inj h
    exact ⟨rfl, rfl, rfl⟩

/-- What the strictest reader makes of one filter. -/
theorem strict_single (hpy : Texts py) (hcolumn : (f.field, type) ∈ schema.columns) (hfits : type.Fits f)
    {c : Comparison} (hc : comparison f = some c)
    (h : schema.Right floats [f] (selects py (strict floats schema) [f])) :
    ∃ c' cs, (∀ c'' ∈ c' :: cs, c''.WellFormed schema) ∧ c'.column = f.field ∧ c'.operator = c.operator ∧
      (literalText c.literal).toList ++ [' '] = (literalText c'.literal).toList ++ rest cs ∧
      ∀ row, schema.Holds row → ((c' :: cs).all fun c => meaning floats (field row c.column) c.operator c.literal) =
        meaning floats (field row f.field) f.operator f.value := by
  have htext : buildFilter py [f] = c.text := by
    have htyped : ∀ f' ∈ [f], schema.Types f' := fun f' hf' => List.mem_singleton.mp hf' ▸ ⟨type, hcolumn, hfits⟩
    rw [buildFilter_eq hpy htyped, List.filterMap_cons_some hc]
    exact String.intercalate_singleton
  have hne : c.text ≠ "" := fun hempty =>
    render_ne_empty (List.cons_ne_nil c []) (String.intercalate_singleton.trans hempty)
  have hselects : ∀ row, schema.Holds row → (strict floats schema c.text).map (fun p => p row) =
      some (meaning floats (field row f.field) f.operator f.value) := fun row hrow => by
    have hright := h row hrow
    rw [selects, htext, plainly_singleton] at hright
    exact (if_neg hne).symm.trans hright
  obtain ⟨row, hrow⟩ := exists_holds schema
  obtain ⟨p, hp, -⟩ := Option.map_eq_some_iff.mp (hselects row hrow)
  obtain ⟨cs, hcs, hformed, hrender, rfl⟩ := strict_reads hp
  obtain ⟨c', cs, rfl⟩ := List.exists_cons_of_ne_nil hcs
  have hsame : c.text.toList ++ [' '] = c'.text.toList ++ rest cs := by rw [← toList_render, hrender]
  obtain ⟨r, hr⟩ := rest_cons cs
  rw [hr] at hsame
  obtain ⟨hfield, hcomparing, -⟩ := comparison_of_some hc
  have hformed' := hformed c' List.mem_cons_self
  obtain ⟨hname, hsymbol, hliteral⟩ := names_inj (hfield ▸ notMem_of_plainIdentifier
    (schema.plain _ (List.mem_map_of_mem (f := Prod.fst) hcolumn))) hformed'.notMem_column hsame
  refine ⟨c', cs, hformed, hname.symm.trans hfield, ?_, by rw [hliteral, hr], fun row hrow => ?_⟩
  · exact symbol_inj hformed'.comparing hcomparing hsymbol.symm
  · have hrow' := hselects row hrow
    rw [hp] at hrow'
    exact Option.some.inj hrow'

/-- A text with a quote ends where the quote stands. -/
theorem quote_unread {cs : List Comparison} (hformed : ∀ c ∈ cs, c.WellFormed schema)
    (hcolumn : (f.field, .string) ∈ schema.columns) {t u : String} (hf : f.value = .str t)
    (htyped : ColumnType.has .string (.str t)) (hop : f.operator ≠ .in) {r : List Char} (ht : t.toList = u.toList ++ '\'' :: r)
    (hr : r ≠ [])
    (h : ∀ row, schema.Holds row → (cs.all fun c => meaning floats (field row c.column) c.operator c.literal) =
      meaning floats (field row f.field) f.operator f.value) : False := by
  obtain ⟨base, hbase⟩ := exists_holds schema
  have hbegin : t.toList = (u.toList ++ ['\'']) ++ r := by rw [ht, List.append_assoc]; rfl
  have hhas : ∀ r', r' ∈ [[], r, r ++ ['a']] → ColumnType.has .string (beginning (u.toList ++ ['\'']) r') := by
    simp only [ColumnType.has, decide_eq_true_eq, beginning, String.toList_ofList] at htyped ⊢
    rw [hbegin, List.mem_append, not_or] at htyped
    intro r' hr' hmem
    refine (List.mem_append.mp hmem).elim htyped.1 fun hmem => ?_
    simp only [List.mem_cons, List.not_mem_nil, or_false] at hr'
    rcases hr' with rfl | rfl | rfl
    · exact List.not_mem_nil hmem
    · exact htyped.2 hmem
    · exact (List.mem_append.mp hmem).elim htyped.2 (by decide)
  have hrow : ∀ r', r' ∈ [[], r, r ++ ['a']] →
      schema.Holds (base.set f.field (beginning (u.toList ++ ['\'']) r')) := fun r' hr' =>
    hbase.set hcolumn (hhas r' hr')
  have hsame : ∀ r', r' ∈ [[], r, r ++ ['a']] →
      meaning floats (beginning (u.toList ++ ['\'']) r') f.operator f.value =
        meaning floats (beginning (u.toList ++ ['\'']) r) f.operator f.value := by
    intro r' hr'
    have hat := h _ (hrow r' hr')
    have hatValue := h _ (hrow r (by simp))
    rw [field_set, if_pos rfl] at hat hatValue
    rw [← hat, ← hatValue]
    refine all_congr_of_mem fun c hc => ?_
    rw [field_set, field_set]
    split
    next heq =>
      obtain ⟨type, hmem, hv⟩ := (hformed c hc).typed
      obtain rfl := type_unique (heq ▸ hmem) hcolumn
      have hclean := (hformed c hc).clean
      obtain ⟨x, hliteral⟩ := ColumnType.str_of_has hv
      rw [hliteral] at hclean ⊢
      exact meaning_beginning (List.mem_append_right _ List.mem_cons_self) hclean (hformed c hc).comparing _ _
    next => rfl
  have hself : beginning (u.toList ++ ['\'']) r = .str t := by rw [beginning, ← hbegin, String.ofList_toList]
  rw [hf, hself] at hsame
  refine beginning_apart hbegin hr hop fun r' hr' => hsame r' ?_
  rcases List.mem_cons.mp hr' with rfl | hr'
  · exact List.mem_cons_self
  · exact List.mem_cons_of_mem _ (List.mem_cons_of_mem _ hr')

variable (floats) in
/-- `>=` is not `CONTAINS`, but for the empty text. -/
theorem empty_of_within {t : String}
    (h : ∀ cell, ColumnType.has .string cell →
      meaning floats cell .gte (.str t) = meaning floats cell .contains (.str t))
    (htyped : ColumnType.has .string (.str t)) : t = "" := by
  cases ht : t.toList with
  | nil => exact String.toList_eq_nil_iff.mp ht
  | cons a as =>
    rcases le_or_gt a 'a' with hle | hgt
    · -- `b` comes after the value and does not contain it
      have hb := h (.str "b") (by decide)
      have hless : t < "b" := by
        rw [String.lt_iff_toList_lt, ht]
        exact List.cons_lt_cons_iff.mpr (.inl (lt_of_le_of_lt hle (by decide)))
      have hout : ¬t.toList <:+: "b".toList := fun hin => by
        rw [ht] at hin
        have heq : a :: as = "b".toList := hin.eq_of_length_le (Nat.succ_le_succ (Nat.zero_le _))
        rw [(List.cons.inj heq).1] at hle
        exact absurd hle (by decide)
      simp only [meaning, less, within, hless, hout, decide_true, decide_false, Bool.true_or, reduceCtorEq] at hb
    · -- with an `a` before it the value comes before itself
      have hcell : ColumnType.has .string (.str ("a" ++ t)) := by
        simp only [ColumnType.has, decide_eq_true_eq, String.toList_append, List.mem_append, not_or] at htyped ⊢
        exact ⟨by decide, htyped⟩
      have ha := h _ hcell
      have hless : "a" ++ t < t := by
        rw [String.lt_iff_toList_lt, String.toList_append, ht]
        exact List.cons_lt_cons_iff.mpr (.inl hgt)
      have hin : t.toList <:+: ("a" ++ t).toList := by
        rw [String.toList_append]
        exact (List.suffix_append _ _).isInfix
      simp only [meaning, less, same, within, hless.not_gt, hless.ne, hin, decide_true, decide_false, Bool.or_false,
        reduceCtorEq] at ha

/-- The text of one string is read as that string or not at all. -/
theorem strict_string (hcolumn : (f.field, .string) ∈ schema.columns) {t : String} (hf : f.value = .str t)
    (htyped : ColumnType.has .string (.str t)) (hop : f.operator ≠ .in) {c : Comparison} {cs : List Comparison}
    (hformed : ∀ c' ∈ c :: cs, c'.WellFormed schema) (hname : c.column = f.field)
    (hliteral : (literalText (.str t)).toList ++ [' '] = (literalText c.literal).toList ++ rest cs)
    (hmeaning : ∀ row, schema.Holds row →
      ((c :: cs).all fun c => meaning floats (field row c.column) c.operator c.literal) =
        meaning floats (field row f.field) f.operator f.value) :
    c.literal = .str t ∧ cs = [] := by
  obtain ⟨type, hmem, hv⟩ := (hformed c List.mem_cons_self).typed
  obtain rfl := type_unique (hname ▸ hmem) hcolumn
  have hclean := (hformed c List.mem_cons_self).clean
  obtain ⟨u, hu⟩ := ColumnType.str_of_has hv
  rw [hu] at hliteral hclean
  rw [toList_str, toList_str] at hliteral
  simp only [List.cons_append, List.append_assoc, List.nil_append, List.cons.injEq, true_and] at hliteral
  by_cases hquote : '\'' ∈ t.toList
  · obtain ⟨t₁, t₂, ht, hnot⟩ := List.eq_append_cons_of_mem hquote
    rw [ht, List.append_assoc, List.cons_append] at hliteral
    obtain ⟨rfl, hrest⟩ := Text.append_cons_inj hnot (quote_notMem hclean) hliteral
    refine (quote_unread hformed hcolumn hf htyped hop ht (fun hnil => ?_) hmeaning).elim
    obtain ⟨r, hr⟩ := rest_cons cs
    rw [hnil, hr] at hrest
    exact absurd (List.cons.inj hrest).1 (by decide)
  · obtain ⟨heq, hrest⟩ := Text.append_cons_inj hquote (quote_notMem hclean) hliteral
    refine ⟨hu.trans (by rw [String.toList_inj.mp heq]), ?_⟩
    cases cs with
    | nil => rfl
    | cons c' cs => cases hrest

theorem rendered_of_strict (hpy : Texts py) (htyped : schema.Types f)
    (h : schema.Right floats [f] (selects py (strict floats schema) [f])) : Rendered floats schema f := by
  obtain ⟨type, hcolumn, hfits⟩ := htyped
  cases hc : comparison f with
  | none =>
    have hop : f.operator = .in := by
      unfold comparison at hc
      split at hc
      next hop => exact hop
      next => cases hc
      next => cases hc
    have hempty : buildFilter py [f] = "" := by
      have hpart : part py f = none := by rw [part, hop]
      rw [buildFilter, List.filterMap_cons_none hpart]
      rfl
    unfold Rendered
    rw [hop]
    intro type' hmem v hv
    obtain ⟨row, hrow, rfl⟩ := exists_cell hmem hv
    have hright := h row hrow
    rw [selects, hempty, plainly_singleton, hop] at hright
    exact (Option.some.inj hright).symm
  | some c =>
    obtain ⟨c', cs, hformed, hname, hoperator, hliteral, hmeaning⟩ := strict_single hpy hcolumn hfits hc h
    obtain ⟨-, -, hvalue⟩ := comparison_of_some hc
    have hformed' := hformed c' List.mem_cons_self
    have hunreserved : reserved f.field = false := hname ▸ hformed'.unreserved
    obtain ⟨type', hmem, hv⟩ := hformed'.typed
    obtain rfl := type_unique (hname ▸ hmem) hcolumn
    have hread : f.operator ≠ .in → type'.has f.value → c'.literal = f.value ∧ (type' = .string → cs = []) := by
      intro hop hhas
      by_cases hstr : type' = .string
      · subst hstr
        obtain ⟨t, hf⟩ := ColumnType.str_of_has hhas
        rw [hf] at hhas hvalue ⊢
        rw [hvalue] at hliteral
        obtain ⟨hsame, hcs⟩ := strict_string hcolumn hf hhas hop hformed hname hliteral hmeaning
        exact ⟨hsame, fun _ => hcs⟩
      · obtain ⟨r, hr⟩ := rest_cons cs
        rw [hr, hvalue] at hliteral
        obtain ⟨htext, -⟩ := Text.append_cons_inj (notMem_literal hhas hstr) (notMem_literal hv hstr) hliteral
        exact ⟨(literalText_inj hhas hv htext).symm, fun h => absurd h hstr⟩
    unfold comparison at hc
    unfold ColumnType.Fits at hfits
    unfold Rendered
    cases hop : f.operator with
    | «in» => rw [hop] at hc; cases hc
    | contains =>
      rw [hop] at hc hfits
      obtain ⟨rfl, hhas⟩ := hfits
      obtain ⟨hsame, hcs⟩ := hread (by rw [hop]; decide) hhas
      obtain ⟨t, hf⟩ := ColumnType.str_of_has hhas
      rw [hf] at hhas
      refine ⟨hf.trans (congrArg Value.str (empty_of_within floats (fun cell hcell => ?_) hhas)), hunreserved⟩
      obtain ⟨row, hrow, rfl⟩ := exists_cell hcolumn hcell
      have hat := hmeaning row hrow
      rw [hcs rfl, List.all_cons, List.all_nil, Bool.and_true, hname, hsame, hoperator, ← Option.some.inj hc, hop,
        hf] at hat
      exact hat
    | _ =>
      rw [hop] at hfits
      exact ⟨(hread (by rw [hop]; decide) hfits).1 ▸ hformed'.clean, hunreserved⟩

end Text

/-! ## All three -/

/-- The three connectors select the rows that the filters ask for. -/
structure Agree (floats : Floats) (py : Python) (schema : Schema) (scan : Scan) (filters : List Filter) : Prop where
  postgresql : schema.Right floats filters (PostgreSQL.selects floats py filters)
  doris : schema.Right floats filters (Doris.selects floats py filters)
  iceberg : schema.Right floats filters (selects py scan filters)

/-- Over all readers that read what is documented, and all lists that are made of the filters. -/
theorem agree_iff (floats : Floats) {py : Python} (hpy : Texts py) (schema : Schema) (filters : List Filter)
    (htyped : ∀ f ∈ filters, schema.Types f) :
    (∀ scan, Documented floats schema scan → ∀ part ⊆ filters, Agree floats py schema scan part) ↔
      ∀ f ∈ filters, Literal f ∧ Listed f ∧ Rendered floats schema f := by
  constructor
  · intro h f hf
    have hstrict := h (strict floats schema) (strict_documented floats schema)
    obtain ⟨hliteral, hlisted⟩ := (Doris.right_iff htyped).mp (fun part hpart => (hstrict part hpart).doris) f hf
    refine ⟨hliteral, hlisted, rendered_of_strict hpy (htyped f hf) ?_⟩
    exact (hstrict [f] (List.cons_subset.mpr ⟨hf, List.nil_subset _⟩)).iceberg
  · intro h scan hscan part hpart
    have hformed : ∀ f ∈ part, schema.Types f := fun f hf => htyped f (hpart hf)
    refine ⟨?_, ?_, right_of_rendered hpy hscan hformed fun f hf => (h f (hpart hf)).2.2⟩
    · exact (PostgreSQL.right_iff floats py htyped).mpr (fun f hf => (h f hf).1) part hpart
    · exact (Doris.right_iff htyped).mpr (fun f hf => ⟨(h f hf).1, (h f hf).2.1⟩) part hpart

/-! ### Robots -/

def spelled : Python where
  __ := Python.plain
  str v := match v with
    | .bool true => "True"
    | .bool false => "False"
    | .float text => text
    | v => dumps v

theorem spelled_texts : Texts spelled := ⟨fun _ => rfl, rfl, rfl, fun _ => rfl⟩

/-- No floats are compared. -/
def noFloats : Floats := ⟨fun _ _ => false, fun _ _ => false⟩

def robots : Schema where
  columns := [("id", .long), ("name", .string)]
  nodup := by decide
  plain := by decide

theorem agree_iff_robots : Agree noFloats spelled robots (strict noFloats robots)
    [⟨"id", .gt, .int 3⟩, ⟨"name", .eq, .str "R2 D2"⟩] := by
  refine (agree_iff noFloats spelled_texts robots [⟨"id", .gt, .int 3⟩, ⟨"name", .eq, .str "R2 D2"⟩]
    fun f hf => ?_).mpr (fun f hf => ?_) _ (strict_documented noFloats robots) _ (List.Subset.refl _)
  · simp only [List.mem_cons, List.not_mem_nil, or_false] at hf
    rcases hf with rfl | rfl
    · exact ⟨.long, by decide, (by decide : ColumnType.long.has (.int 3))⟩
    · exact ⟨.string, by decide, (by decide : ColumnType.string.has (.str "R2 D2"))⟩
  · simp only [List.mem_cons, List.not_mem_nil, or_false] at hf
    rcases hf with rfl | rfl
    · exact ⟨fun h => (by cases h), fun h => (by cases h), by decide, by decide⟩
    · exact ⟨fun h => (by cases h), fun h => (by cases h), by decide, by decide⟩

/-- A filter that is left out, and a pattern. -/
theorem filters_disagree :
    buildFilter spelled [⟨"id", .in, .list [.int 1]⟩] = "" ∧
    PostgreSQL.selects noFloats spelled [⟨"name", .contains, .str "5%"⟩] [("id", .int 1), ("name", .str "50")] =
      some true ∧
    ¬ ∀ scan, Documented noFloats robots scan → ∀ filters : List Filter, (∀ f ∈ filters, robots.Types f) →
      Agree noFloats spelled robots scan filters := by
  refine ⟨by decide, by decide, fun h => ?_⟩
  have htypes : ∀ f ∈ [⟨"id", .in, .list [.int 1]⟩], robots.Types f := fun f hf =>
    List.mem_singleton.mp hf ▸ ⟨.long, by decide, fun v hv => List.mem_singleton.mp hv ▸ by decide⟩
  have hiceberg := (h _ (strict_documented noFloats robots) _ htypes).iceberg
  have hrow : robots.Holds [("id", .int 2), ("name", .str "")] := by
    unfold Schema.Holds
    decide
  exact absurd (hiceberg _ hrow) (by decide)

end Lingshu.Data.Iceberg
