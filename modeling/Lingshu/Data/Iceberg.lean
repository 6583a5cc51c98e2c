import Lingshu.Data.Predicates
import Lingshu.Json.RoundTrip
import Lingshu.Text.Split

/-! # The filter text of the Iceberg connector

The text that `_build_filter` writes, and the part of PyIceberg's row filters that it keeps to: comparisons joined by
`AND`, with names, numbers and texts that need no escapes. -/
namespace Lingshu.Data.Iceberg
open Json Sql
set_option autoImplicit false

/-! ## The connector -/

section Connector
variable (py : Python)

def quoted : Value → String
  | .str s => "'" ++ s ++ "'"
  | v => py.str v

/-- What `_build_filter` appends for a filter. -/
def part (f : Filter) : Option String :=
  match f.operator with
  | .eq => some (f.field ++ " == " ++ quoted py f.value)
  | .neq => some (f.field ++ " != " ++ quoted py f.value)
  | .gt => some (f.field ++ " > " ++ quoted py f.value)
  | .gte => some (f.field ++ " >= " ++ quoted py f.value)
  | .lt => some (f.field ++ " < " ++ quoted py f.value)
  | .lte => some (f.field ++ " <= " ++ quoted py f.value)
  | .contains => some (f.field ++ " >= '" ++ formatted py f.value ++ "'")
  | .in => none

def buildFilter (filters : List Filter) : String := " AND ".intercalate (filters.filterMap (part py))

/-- The predicate of a scan with a row filter, when it is parsed. -/
abbrev Scan : Type := String → Option (Row → Bool)

/-- Whether the scan of `_execute_query_sync` selects the row; without a text there is no row filter. -/
def selects (scan : Scan) (filters : List Filter) (row : Row) : Option Bool :=
  let rowFilter := buildFilter py filters
  if rowFilter = "" then some true else (scan rowFilter).map fun p => p row

end Connector

/-! ## Row filters -/

structure Comparison where
  column : String
  operator : FilterOperator
  literal : Value

/-- The operators that compare. -/
def comparing : FilterOperator → Bool
  | .contains | .in => false
  | _ => true

def symbol : FilterOperator → String
  | .eq => "=="
  | .neq => "!="
  | .gt => ">"
  | .lt => "<"
  | .lte => "<="
  | _ => ">="

def literalText : Value → String
  | .str s => "'" ++ s ++ "'"
  | .int i => toString i
  | .bool true => "True"
  | .bool false => "False"
  | .float text => text
  | _ => ""

def Comparison.text (c : Comparison) : String := c.column ++ " " ++ symbol c.operator ++ " " ++ literalText c.literal

def render (cs : List Comparison) : String := " AND ".intercalate (cs.map Comparison.text)

/-- The words of the grammar. -/
def words : List String :=
  ["and", "or", "not", "is", "in", "null", "nan", "like", "between", "true", "false"]

/-- Words have no case. -/
def reserved (name : String) : Bool := words.any fun word => name.toList.map Char.toLower = word.toList

/-- Digits on both sides of a point. -/
def decimal (text : String) : Bool :=
  let cs := text.toList
  let cs := if cs.head? = some '-' then cs.tail else cs
  match cs.dropWhile Char.isDigit with
  | '.' :: fraction => cs.head?.any Char.isDigit && fraction != [] && fraction.all Char.isDigit
  | _ => false

def escaped (c : Char) : Bool := c = '\'' ∨ c = '\\' ∨ c = '\n' ∨ c = '\r'

/-- The literals that are read as they are written. -/
def clean : Value → Bool
  | .str s => s.toList.all fun c => !escaped c
  | .float text => decimal text
  | _ => true

structure Comparison.WellFormed (schema : Schema) (c : Comparison) : Prop where
  comparing : comparing c.operator
  unreserved : reserved c.column = false
  clean : clean c.literal
  typed : ∃ type, (c.column, type) ∈ schema.columns ∧ type.has c.literal

/-- What is relied on: comparisons joined by `AND` select the rows for which all of them hold. -/
def Documented (floats : Floats) (schema : Schema) (scan : Scan) : Prop :=
  ∀ cs : List Comparison, cs ≠ [] → (∀ c ∈ cs, c.WellFormed schema) →
    scan (render cs) = some fun row => cs.all fun c => meaning floats (field row c.column) c.operator c.literal

/-! ## Reading a text back -/

section Read
variable {schema : Schema} {c c' : Comparison} {cs cs' : List Comparison} {type : ColumnType} {v v' : Value}

theorem notMem_of_plainIdentifier {name : String} (h : plainIdentifier name) : ' ' ∉ name.toList := by
  unfold plainIdentifier at h
  cases hname : name.toList with
  | nil => exact List.not_mem_nil
  | cons a as =>
    rw [hname] at h
    simp only [Bool.and_eq_true, List.all_eq_true, decide_eq_true_eq] at h
    intro hmem
    rcases List.mem_cons.mp hmem with rfl | hmem
    · exact absurd h.1.1 (by decide)
    · exact absurd (h.2 _ hmem) (by decide)

theorem notMem_symbol (op : FilterOperator) : ' ' ∉ (symbol op).toList := by cases op <;> decide

theorem symbol_inj {op op' : FilterOperator} (h : comparing op) (h' : comparing op') (heq : symbol op = symbol op') :
    op = op' := by
  cases op <;> cases op' <;>
    first | rfl | exact absurd heq (by decide) | exact absurd h (by decide) | exact absurd h' (by decide)

theorem Comparison.WellFormed.notMem_column (h : c.WellFormed schema) : ' ' ∉ c.column.toList := by
  obtain ⟨type, hcolumn, -⟩ := h.typed
  exact notMem_of_plainIdentifier (schema.plain _ (List.mem_map_of_mem (f := Prod.fst) hcolumn))

/-! ### Numbers -/

theorem notMem_digits (n : ℕ) : ' ' ∉ n.repr.toList ∧ '-' ∉ n.repr.toList := by
  rw [Nat.toList_repr]
  constructor
  · intro hmem
    exact absurd (Nat.isDigit_of_mem_toDigits (by decide) (by decide) hmem) (by decide)
  · intro hmem
    exact absurd (Nat.isDigit_of_mem_toDigits (by decide) (by decide) hmem) (by decide)

theorem repr_inj {m n : ℕ} (h : m.repr = n.repr) : m = n := by
  have hdigits := congrArg String.toList h
  rw [Nat.toList_repr, Nat.toList_repr] at hdigits
  rw [← Nat.ofDigitChars_toDigits (b := 10) (n := m) (by decide) (by decide), hdigits,
    Nat.ofDigitChars_toDigits (by decide) (by decide)]

theorem notMem_int (i : ℤ) : ' ' ∉ (toString i).toList := by
  rw [toString_int]
  split
  · exact (notMem_digits _).1
  · exact List.not_mem_cons_of_ne_of_not_mem (by decide) (notMem_digits _).1

theorem int_inj {i j : ℤ} (h : (toString i).toList = (toString j).toList) : i = j := by
  rw [toString_int, toString_int] at h
  split at h
  next hi =>
    split at h
    next hj => 
      have hnat := repr_inj (String.toList_inj.mp h)
      omega
    next hj => exact absurd (h ▸ List.mem_cons_self) (notMem_digits _).2
  next hi =>
    split at h
    next hj => exact absurd (h ▸ List.mem_cons_self) (notMem_digits _).2
    next hj =>
      have hnat := repr_inj (String.toList_inj.mp (List.cons.inj h).2)
      omega

/-! ### Literals -/

theorem quote_notMem {s : String} (h : clean (.str s)) : '\'' ∉ s.toList := fun hmem =>
  absurd (List.all_eq_true.mp h _ hmem) (by decide)

theorem toList_str (s : String) : (literalText (.str s)).toList = '\'' :: (s.toList ++ ['\'']) := by
  rw [literalText, String.toList_append, String.toList_append]
  rfl

/-- The values whose texts end at a blank. -/
theorem notMem_literal (hv : type.has v) (hstr : type ≠ .string) : ' ' ∉ (literalText v).toList := by
  cases type with
  | string => exact absurd rfl hstr
  | long =>
    obtain ⟨i, rfl⟩ := ColumnType.int_of_has hv
    exact notMem_int i
  | double =>
    obtain ⟨text, rfl⟩ := ColumnType.float_of_has hv
    exact of_decide_eq_true hv
  | boolean =>
    obtain ⟨b, rfl⟩ := ColumnType.bool_of_has hv
    cases b <;> decide

theorem literalText_inj (hv : type.has v) (hv' : type.has v') (heq : (literalText v).toList = (literalText v').toList) :
    v = v' := by
  cases type with
  | string =>
    obtain ⟨s, rfl⟩ := ColumnType.str_of_has hv
    obtain ⟨s', rfl⟩ := ColumnType.str_of_has hv'
    rw [toList_str, toList_str] at heq
    rw [String.toList_inj.mp (List.append_cancel_right (List.cons.inj heq).2)]
  | long =>
    obtain ⟨i, rfl⟩ := ColumnType.int_of_has hv
    obtain ⟨j, rfl⟩ := ColumnType.int_of_has hv'
    rw [int_inj heq]
  | double =>
    obtain ⟨text, rfl⟩ := ColumnType.float_of_has hv
    obtain ⟨text', rfl⟩ := ColumnType.float_of_has hv'
    exact congrArg Value.float (String.toList_inj.mp heq)
  | boolean =>
    obtain ⟨b, rfl⟩ := ColumnType.bool_of_has hv
    obtain ⟨b', rfl⟩ := ColumnType.bool_of_has hv'
    cases b <;> cases b' <;> first | rfl | exact absurd heq (by decide)

theorem literal_inj (hv : type.has v) (hv' : type.has v') (hclean : clean v) (hclean' : clean v') {r r' : List Char}
    (heq : (literalText v).toList ++ ' ' :: r = (literalText v').toList ++ ' ' :: r') : v = v' ∧ r = r' := by
  by_cases hstr : type = .string
  · subst hstr
    obtain ⟨s, rfl⟩ := ColumnType.str_of_has hv
    obtain ⟨s', rfl⟩ := ColumnType.str_of_has hv'
    rw [toList_str, toList_str] at heq
    simp only [List.cons_append, List.append_assoc, List.nil_append] at heq
    obtain ⟨hs, hr⟩ := Text.append_cons_inj (quote_notMem hclean) (quote_notMem hclean') (List.cons.inj heq).2
    exact ⟨by rw [String.toList_inj.mp hs], (List.cons.inj hr).2⟩
  · obtain ⟨htext, hr⟩ := Text.append_cons_inj (notMem_literal hv hstr) (notMem_literal hv' hstr) heq
    exact ⟨literalText_inj hv hv' htext, hr⟩

/-! ### Sentences -/

/-- What follows a comparison; a blank is put at the end. -/
def rest : List Comparison → List Char
  | [] => [' ']
  | c :: cs => " AND ".toList ++ (c.text.toList ++ rest cs)

theorem toList_render (c : Comparison) (cs : List Comparison) :
    (render (c :: cs)).toList ++ [' '] = c.text.toList ++ rest cs := by
  induction cs generalizing c with
  | nil => rw [render, List.map_singleton, String.intercalate_singleton]; rfl
  | cons c' cs ih =>
    rw [render, List.map_cons, List.map_cons, String.intercalate_cons_cons, ← List.map_cons, ← render,
      String.toList_append, String.toList_append, List.append_assoc, List.append_assoc, ih, rest]

theorem toList_text (c : Comparison) (r : List Char) : c.text.toList ++ ' ' :: r =
    c.column.toList ++ ' ' :: ((symbol c.operator).toList ++ ' ' :: ((literalText c.literal).toList ++ ' ' :: r)) := by
  simp [Comparison.text, String.toList_append]

theorem rest_cons (cs : List Comparison) : ∃ r, rest cs = ' ' :: r := by
  cases cs with
  | nil => exact ⟨[], rfl⟩
  | cons c cs => exact ⟨_, rfl⟩

/-- The name and the symbol of a comparison end at a blank. -/
theorem names_inj (hcolumn : ' ' ∉ c.column.toList) (hcolumn' : ' ' ∉ c'.column.toList) {r r' : List Char}
    (heq : c.text.toList ++ ' ' :: r = c'.text.toList ++ ' ' :: r') :
    c.column = c'.column ∧ symbol c.operator = symbol c'.operator ∧
      (literalText c.literal).toList ++ ' ' :: r = (literalText c'.literal).toList ++ ' ' :: r' := by
  rw [toList_text, toList_text] at heq
  obtain ⟨hname, htail⟩ := Text.append_cons_inj hcolumn hcolumn' heq
  obtain ⟨hsymbol, hliteral⟩ := Text.append_cons_inj (notMem_symbol _) (notMem_symbol _) htail
  exact ⟨String.toList_inj.mp hname, String.toList_inj.mp hsymbol, hliteral⟩

theorem type_unique {column : String} {type' : ColumnType} (h : (column, type) ∈ schema.columns)
    (h' : (column, type') ∈ schema.columns) : type = type' :=
  Option.some.inj ((Assoc.lookup_of_mem schema.nodup h).symm.trans (Assoc.lookup_of_mem schema.nodup h'))

theorem text_inj (h : c.WellFormed schema) (h' : c'.WellFormed schema) {r r' : List Char}
    (heq : c.text.toList ++ ' ' :: r = c'.text.toList ++ ' ' :: r') : c = c' ∧ r = r' := by
  obtain ⟨hcolumn, hsymbol, hliteral⟩ := names_inj h.notMem_column h'.notMem_column heq
  obtain ⟨type, hmem, hv⟩ := h.typed
  obtain ⟨type', hmem', hv'⟩ := h'.typed
  obtain rfl := type_unique hmem (hcolumn ▸ hmem')
  obtain ⟨hvalue, hr⟩ := literal_inj hv hv' h.clean h'.clean hliteral
  refine ⟨?_, hr⟩
  obtain ⟨column, operator, literal⟩ := c
  obtain ⟨column', operator', literal'⟩ := c'
  obtain rfl : column = column' := hcolumn
  obtain rfl : operator = operator' := symbol_inj h.comparing h'.comparing hsymbol
  obtain rfl : literal = literal' := hvalue
  rfl

theorem rest_inj (h : ∀ c ∈ cs, c.WellFormed schema) (h' : ∀ c ∈ cs', c.WellFormed schema) (heq : rest cs = rest cs') :
    cs = cs' := by
  induction cs generalizing cs' with
  | nil =>
    cases cs' with
    | nil => rfl
    | cons c' cs' => cases heq
  | cons c cs ih =>
    cases cs' with
    | nil => cases heq
    | cons c' cs' =>
      obtain ⟨hc, hcs⟩ := List.forall_mem_cons.mp h
      obtain ⟨hc', hcs'⟩ := List.forall_mem_cons.mp h'
      have htext : c.text.toList ++ rest cs = c'.text.toList ++ rest cs' := List.append_cancel_left heq
      obtain ⟨r, hr⟩ := rest_cons cs
      obtain ⟨r', hr'⟩ := rest_cons cs'
      rw [hr, hr'] at htext
      obtain ⟨rfl, hrest⟩ := text_inj hc hc' htext
      rw [ih hcs hcs' (by rw [hr, hr', hrest])]

/-- A text is written by one list of comparisons at most. -/
theorem render_inj (hne : cs ≠ []) (hne' : cs' ≠ []) (h : ∀ c ∈ cs, c.WellFormed schema)
    (h' : ∀ c ∈ cs', c.WellFormed schema) (heq : render cs = render cs') : cs = cs' := by
  obtain ⟨c, cs, rfl⟩ := List.exists_cons_of_ne_nil hne
  obtain ⟨c', cs', rfl⟩ := List.exists_cons_of_ne_nil hne'
  refine rest_inj h h' ?_
  rw [rest, rest, ← toList_render, ← toList_render, heq]

end Read

/-! ## The strictest reader -/

section Strict
variable (floats : Floats) (schema : Schema)

open Classical in
/-- It reads what is documented and refuses all else. -/
noncomputable def strict : Scan := fun text =>
  if h : ∃ cs : List Comparison, cs ≠ [] ∧ (∀ c ∈ cs, c.WellFormed schema) ∧ render cs = text then
    some fun row => h.choose.all fun c => meaning floats (field row c.column) c.operator c.literal
  else none

theorem strict_documented : Documented floats schema (strict floats schema) := by
  intro cs hne h
  have hread : ∃ cs' : List Comparison, cs' ≠ [] ∧ (∀ c ∈ cs', c.WellFormed schema) ∧ render cs' = render cs :=
    ⟨cs, hne, h, rfl⟩
  rw [strict, dif_pos hread, render_inj hread.choose_spec.1 hne hread.choose_spec.2.1 h hread.choose_spec.2.2]

variable {floats schema}

theorem strict_reads {text : String} {p : Row → Bool} (h : strict floats schema text = some p) :
    ∃ cs : List Comparison, cs ≠ [] ∧ (∀ c ∈ cs, c.WellFormed schema) ∧ render cs = text ∧
      p = fun row => cs.all fun c => meaning floats (field row c.column) c.operator c.literal := by
  unfold strict at h
  split at h
  next hread => exact ⟨_, hread.choose_spec.1, hread.choose_spec.2.1, hread.choose_spec.2.2, (Option.some.inj h).symm⟩
  next => cases h

end Strict

end Lingshu.Data.Iceberg
