import Lingshu.Function.Templates
import Lingshu.Text.References
import Mathlib.Data.List.ReduceOption

/-! # Templates of the SQL runner

`_resolve_braces` puts values into the template, and `_collect_bind_params` then searches the result for `:name`
references, in the template's own text and in the text of the values alike. -/
namespace Lingshu.Function
open Json Data Text
open Workflow (strip)
set_option autoImplicit false

/-- `:([a-zA-Z_][a-zA-Z0-9_.]*)`. -/
def bindForm : Form Char where
  sigil c := c = ':'
  start c := c.isAlpha || c = '_'
  part c := c.isAlphanum || c = '_' || c = '.'
  part_of_start c h := by
    simp only [Bool.or_eq_true] at h ⊢
    exact .inl (h.imp_left fun halpha => by simp [Char.isAlphanum, halpha])
  part_of_sigil c h := by
    obtain rfl : c = ':' := of_decide_eq_true h
    decide

variable (py : Python) (params : Assoc Value) (instances : Assoc Row)

/-- The `_replacer` of `_resolve_braces`. -/
def replaceBraces (content : List Char) : List Char :=
  match lookup params instances (strip content) with
  | .null => braces.enclose content
  | v => strOf py v

/-- `_resolve_braces`. -/
def resolveBraces (template : List Char) : List Char := braces.substitute (replaceBraces py params instances) template

/-- `match.group(1)`, for every match. -/
def bindNames (rendered : List Char) : List String :=
  (bindForm.references rendered).map fun r => String.ofList r.tail

/-- `_collect_bind_params`. -/
def collectBindParams (rendered : List Char) : Assoc Value :=
  (bindNames rendered).foldl
    (fun found expr => if expr ∈ found.keys then found else found.set expr (lookup params instances expr.toList)) []

/-- What `execute` binds. -/
def bindParams (template : List Char) : Assoc Value :=
  collectBindParams params instances (resolveBraces py params instances template)

theorem mem_keys_collectBindParams (rendered : List Char) (name : String) :
    name ∈ (collectBindParams params instances rendered).keys ↔ name ∈ bindNames rendered := by
  have hloop : ∀ (names : List String) (found : Assoc Value),
      name ∈ (names.foldl (fun found expr =>
        if expr ∈ found.keys then found else found.set expr (lookup params instances expr.toList)) found).keys ↔
        name ∈ found.keys ∨ name ∈ names := by
    intro names
    induction names with
    | nil => simp
    | cons expr names ih =>
      intro found
      rw [List.foldl_cons, ih, List.mem_cons]
      split
      · next hexpr =>
        constructor
        · exact Or.imp_right .inr
        · rintro (h | rfl | h)
          · exact .inl h
          · exact .inl hexpr
          · exact .inr h
      · next hexpr =>
        rw [Assoc.keys_set, if_neg hexpr, List.mem_append, List.mem_singleton, or_assoc]
  simpa [collectBindParams, Assoc.keys] using hloop (bindNames rendered) []

/-! ## The text of the template, and the text of the values -/

/-- The references that stand in the template outside of its placeholders. -/
def written (template : List Char) : List String :=
  let outside : List (Option Char) := (braces.pieces template).map fun
    | .text c => some c
    | .hole _ => none
  (bindForm.option.references outside).map fun r => String.ofList r.tail.reduceOption

/-- A piece of the template with its characters marked: whether they come from a value. -/
def mark : Piece Char → List (Char × Bool)
  | .text c => [(c, false)]
  | .hole content =>
    match lookup params instances (strip content) with
    | .null => (braces.enclose content).map fun c => (c, false)
    | v => (strOf py v).map fun c => (c, true)

def marked (template : List Char) : List (Char × Bool) := (braces.pieces template).flatMap (mark py params instances)

theorem map_fst_mark (piece : Piece Char) :
    (mark py params instances piece).map Prod.fst = Delimiters.fill (replaceBraces py params instances) piece := by
  cases piece with
  | text c => rfl
  | hole content =>
    simp only [mark, Delimiters.fill, replaceBraces]
    split <;> simp [List.map_map, Function.comp_def]

theorem map_fst_marks (pieces : List (Piece Char)) :
    (pieces.flatMap (mark py params instances)).map Prod.fst =
      pieces.flatMap (Delimiters.fill (replaceBraces py params instances)) := by
  rw [List.map_flatMap]
  exact List.flatMap_congr fun piece _ => map_fst_mark py params instances piece

/-- Without its marks, it is what is rendered. -/
theorem map_fst_marked (template : List Char) :
    (marked py params instances template).map Prod.fst = resolveBraces py params instances template :=
  map_fst_marks py params instances _

theorem mark_resolved {content : List Char} (h : lookup params instances (strip content) ≠ .null) :
    mark py params instances (.hole content) =
      (strOf py (lookup params instances (strip content))).map fun c => (c, true) := by
  cases hvalue : lookup params instances (strip content) with
  | null => exact absurd hvalue h
  | _ => simp only [mark, hvalue]

/-- What is marked in a piece is a placeholder's value. -/
theorem exists_of_mem_mark {piece : Piece Char} {c : Char × Bool} (h : c ∈ mark py params instances piece)
    (hc : c.2 = true) : ∃ content, piece = .hole content ∧ lookup params instances (strip content) ≠ .null := by
  cases piece with
  | text a =>
    obtain rfl := List.mem_singleton.mp h
    exact absurd hc (by simp)
  | hole content =>
    refine ⟨content, rfl, fun hnull => ?_⟩
    simp only [mark, hnull] at h
    obtain ⟨a, -, rfl⟩ := List.mem_map.mp h
    exact absurd hc (by simp)

/-- No reference that is found has a character of a value in it. -/
def Unscanned (template : List Char) : Prop :=
  ∀ r ∈ (bindForm.comap Prod.fst).references (marked py params instances template), ∀ c ∈ r, c.2 = false

/-- With the characters of the values blanked out. -/
def blanked (template : List Char) : List (Option Char) :=
  (marked py params instances template).map fun c => if c.2 then none else some c.1

/-- Where no value is scanned, what is bound is what is found beside the values. -/
theorem bindNames_of_unscanned {template : List Char} (h : Unscanned py params instances template) :
    bindNames (resolveBraces py params instances template) =
      (bindForm.option.references (blanked py params instances template)).map fun r =>
        String.ofList r.tail.reduceOption := by
  have hblank : bindForm.option.references (blanked py params instances template) =
      ((bindForm.comap Prod.fst).references (marked py params instances template)).map
        (List.map fun c => if c.2 then none else some c.1) := by
    refine Form.references_map (P := fun c => c.2 = false) (fun c hc => ?_) (fun c hc => ?_) h
    · rw [hc]
      exact ⟨rfl, rfl, rfl⟩
    · rw [Bool.not_eq_false] at hc
      rw [hc]
      exact ⟨rfl, rfl, rfl⟩
  rw [hblank, bindNames, ← map_fst_marked, Form.references_comap, List.map_map, List.map_map]
  refine List.map_congr_left fun r hr => ?_
  have hr' : r.map (fun c => if c.2 then none else some c.1) = (r.map Prod.fst).map some := by
    rw [List.map_map]
    exact List.map_congr_left fun c hc => by simp [h r hr c hc]
  have hreduce (l : List Char) : (l.map some).reduceOption = l := by
    induction l with
    | nil => rfl
    | cons c l ih => rw [List.map_cons, List.reduceOption_cons_of_some, ih]
  rw [Function.comp_apply, Function.comp_apply, hr', ← List.map_tail (f := some), hreduce]

/-- A value is not scanned if and only if it is harmless between what stands before and behind it. -/
theorem unscanned_iff (template : List Char) : Unscanned py params instances template ↔
    ∀ us content vs, braces.pieces template = us ++ .hole content :: vs →
      lookup params instances (strip content) ≠ .null →
        bindForm.Harmless (us.flatMap (Delimiters.fill (replaceBraces py params instances)))
          (strOf py (lookup params instances (strip content)))
          (vs.flatMap (Delimiters.fill (replaceBraces py params instances))) := by
  rw [Unscanned, Form.forall_mem_references_iff]
  constructor
  · intro h us content vs hpieces hresolved
    rw [Form.harmless_iff]
    intro a c b hw hinside
    have hmarked : marked py params instances template =
        (us.flatMap (mark py params instances) ++ a.map fun c => (c, true)) ++ (c, true) ::
          ((b.map fun c => (c, true)) ++ vs.flatMap (mark py params instances)) := by
      rw [marked, hpieces, List.flatMap_append, List.flatMap_cons, mark_resolved _ _ _ hresolved, hw]
      simp
    refine absurd (h _ (c, true) _ hmarked ((Form.inside_comap _ _ _ _ _).mpr ?_)) (by simp)
    simpa only [List.map_append, map_fst_marks, List.map_map, Function.comp_def, List.map_id'] using hinside
  · intro h u c v hmarked hinside
    refine Bool.eq_false_iff.mpr fun hc => ?_
    obtain ⟨us, piece, vs, a, b, hpieces, hpiece, rfl, rfl⟩ := flatMap_eq_append_cons hmarked
    obtain ⟨content, rfl, hresolved⟩ :=
      exists_of_mem_mark py params instances (hpiece ▸ List.mem_append_right _ List.mem_cons_self) hc
    have hw : strOf py (lookup params instances (strip content)) = a.map Prod.fst ++ c.1 :: b.map Prod.fst := by
      have hfst := congrArg (List.map Prod.fst) (mark_resolved py params instances hresolved ▸ hpiece)
      simpa [List.map_map, Function.comp_def] using hfst
    refine Form.harmless_iff.mp (h us content vs hpieces hresolved) _ _ _ hw ?_
    have hinside' := (Form.inside_comap _ _ _ _ _).mp hinside
    simpa only [List.map_append, map_fst_marks] using hinside'

/-! ## Two runs -/

/-- With either values the same names are bound, those that the template has outside of its placeholders; and no
text of a value is scanned. -/
structure Unsteered (params params' : Assoc Value) (instances instances' : Assoc Row) (template : List Char) : Prop where
  same : ∀ name, name ∈ (bindParams py params instances template).keys ↔
    name ∈ (bindParams py params' instances' template).keys
  written : ∀ name, name ∈ (bindParams py params instances template).keys ↔ name ∈ written template
  unscanned : Unscanned py params instances template
  unscanned' : Unscanned py params' instances' template

/-- Every value is harmless where it stands; and beside the values the references are those outside of placeholders:
none is in a placeholder that does not resolve, and no empty value makes one of the text around it. -/
structure Quiet (template : List Char) : Prop where
  harmless : ∀ us content vs, braces.pieces template = us ++ .hole content :: vs →
    lookup params instances (strip content) ≠ .null →
      bindForm.Harmless (us.flatMap (Delimiters.fill (replaceBraces py params instances)))
        (strOf py (lookup params instances (strip content)))
        (vs.flatMap (Delimiters.fill (replaceBraces py params instances)))
  beside : ∀ name, name ∈ ((bindForm.option.references (blanked py params instances template)).map fun r =>
    String.ofList r.tail.reduceOption) ↔ name ∈ written template

/-- Of one run: the names bound are those written, and no value is scanned. -/
theorem quiet_iff (template : List Char) : Quiet py params instances template ↔
    (∀ name, name ∈ (bindParams py params instances template).keys ↔ name ∈ written template) ∧
      Unscanned py params instances template := by
  have hkeys : Unscanned py params instances template → ∀ name,
      name ∈ (bindParams py params instances template).keys ↔
        name ∈ ((bindForm.option.references (blanked py params instances template)).map fun r =>
          String.ofList r.tail.reduceOption) := fun h name => by
    rw [bindParams, mem_keys_collectBindParams, bindNames_of_unscanned py params instances h]
  constructor
  · intro h
    have hunscanned := (unscanned_iff py params instances template).mpr h.harmless
    exact ⟨fun name => (hkeys hunscanned name).trans (h.beside name), hunscanned⟩
  · rintro ⟨hwritten, hunscanned⟩
    exact ⟨(unscanned_iff py params instances template).mp hunscanned,
      fun name => (hkeys hunscanned name).symm.trans (hwritten name)⟩

/-- The values do not steer what is bound if and only if the template is quiet with either. -/
theorem unsteered_iff (params params' : Assoc Value) (instances instances' : Assoc Row) (template : List Char) :
    Unsteered py params params' instances instances' template ↔
      Quiet py params instances template ∧ Quiet py params' instances' template := by
  rw [quiet_iff, quiet_iff]
  constructor
  · exact fun h => ⟨⟨h.written, h.unscanned⟩, fun name => (h.same name).symm.trans (h.written name), h.unscanned'⟩
  · rintro ⟨⟨hwritten, hunscanned⟩, hwritten', hunscanned'⟩
    exact ⟨fun name => (hwritten name).trans (hwritten' name).symm, hwritten, hunscanned, hunscanned'⟩

/-- With one text as parameter, the expressions that are defined do not depend on the text. -/
theorem lookup_text_eq_null_iff (name s : String) (expr : List Char) :
    lookup [(name, .str s)] [] expr = .null ↔ splitDot expr ≠ (name, none) := by
  cases hsplit : splitDot expr with
  | mk name' fieldName =>
    cases fieldName with
    | none =>
      by_cases hname : name' = name <;> simp [lookup, hsplit, field, Assoc.lookup_cons, hname]
    | some fieldName =>
      by_cases hname : name' = name <;> simp [lookup, hsplit, field, Assoc.lookup_cons, hname]

/-- A table name that holds a reference: the two runs bind different names. -/
theorem bindParams_steered :
    (∀ expr, lookup [("t", .str "a")] [] expr = .null ↔ lookup [("t", .str ":b")] [] expr = .null) ∧
      ¬Unsteered Runtime.plain.python [("t", .str "a")] [("t", .str ":b")] [] [] "FROM {{t}}".toList := by
  constructor
  · intro expr
    rw [lookup_text_eq_null_iff, lookup_text_eq_null_iff]
  · intro h
    exact absurd ((h.same "b").mpr (by decide)) (by decide)

end Lingshu.Function
