import Lingshu.Workflow.Condition
import Lingshu.Workflow.Literals

/-! # Conditions of the form `path op literal`

The operator is searched for in the whole text, so an operator inside a quoted literal that is tried before the one
meant is taken instead. -/
namespace Lingshu.Workflow
open Json
set_option autoImplicit false

variable {O : Type} {py : Python O} {op op' : Op} {path : List (List Char)} {w : Written}

/-- A part of a path: no blank, no point and no character of an operator in it. -/
def Identifier (part : List Char) : Prop :=
  part ≠ [] ∧ ∀ c ∈ part, isSpace c = false ∧ c ∉ ['.', '=', '!', '<', '>']

/-- `p op l`. -/
def conditionText (path : List (List Char)) (op : Op) (literal : Written) : List Char :=
  ['.'].intercalate path ++ ' ' :: (op.text ++ ' ' :: literal.text)

/-! ## Characters -/

def opChars : List Char := ['=', '!', '<', '>']

theorem opChars_of_text : ∀ c ∈ op.text, c ∈ opChars := by
  cases op <;> exact List.all_iff_forall_prop.mp (by decide)

/-- The operators that are searched for before this one. -/
def earlier (op : Op) : List Op := searchOrder.takeWhile (· ≠ op)

theorem searchOrder_split (op : Op) : ∃ later, searchOrder = earlier op ++ op :: later := by
  cases op
  · exact ⟨[.ne, .ge, .le, .gt, .lt], by decide⟩
  · exact ⟨[.ge, .le, .gt, .lt], by decide⟩
  · exact ⟨[.lt], by decide⟩
  · exact ⟨[.le, .gt, .lt], by decide⟩
  · exact ⟨[], by decide⟩
  · exact ⟨[.gt, .lt], by decide⟩

/-- No operator is part of one that is searched for later. -/
theorem not_infix_of_earlier (h : op' ∈ earlier op) : ¬op'.text <:+: op.text := by
  have hall : ∀ op' ∈ earlier op, ¬op'.text <:+: op.text := by cases op <;> decide
  exact hall op' h

theorem exists_opChar (op : Op) : ∃ c ∈ op.text, c ∈ opChars := by
  cases op
  · exact ⟨'=', by decide⟩
  · exact ⟨'!', by decide⟩
  · exact ⟨'>', by decide⟩
  · exact ⟨'>', by decide⟩
  · exact ⟨'<', by decide⟩
  · exact ⟨'<', by decide⟩

theorem notMem_text {c : Char} (h : c ∉ opChars) : c ∉ op.text := fun hmem => h (opChars_of_text c hmem)

/-- In a text without characters of operators there is no operator. -/
theorem not_infix_free {text : List Char} (h : ∀ c ∈ text, c ∉ opChars) : ¬op.text <:+: text := by
  obtain ⟨c, hc, hop⟩ := exists_opChar op
  exact Text.not_infix_of_notMem hc fun hmem => h c hmem hop

theorem isSpace_lower {c : Char} (h : isSpace c = true) : c.toLower ∉ wordLetters := by
  have hsame : c.toLower = c := by
    refine dif_neg fun hupper => ?_
    simp only [isSpace, decide_eq_true_eq] at h
    have hA : (65 : ℕ) ≤ c.toNat := hupper.1
    have hZ : c.toNat ≤ 90 := hupper.2
    omega
  have hletters : ∀ c ∈ wordLetters, isSpace c = false := List.all_iff_forall_prop.mp (by decide)
  intro hmem
  rw [hsame] at hmem
  rw [hletters c hmem] at h
  cases h

/-! ## The texts beside the operator -/

/-- A dotted path of identifiers. -/
def Path (path : List (List Char)) : Prop := path ≠ [] ∧ ∀ part ∈ path, Identifier part

theorem mem_intercalate {c : Char} (h : c ∈ ['.'].intercalate path) : c = '.' ∨ ∃ part ∈ path, c ∈ part := by
  induction path with
  | nil => cases h
  | cons part path ih =>
    cases path with
    | nil => exact .inr ⟨part, List.mem_cons_self, by simpa using h⟩
    | cons part' path =>
      rw [List.intercalate_cons_cons, List.mem_append, List.mem_append, List.mem_singleton] at h
      obtain (h | h) | h := h
      · exact .inr ⟨part, List.mem_cons_self, h⟩
      · exact .inl h
      · obtain h | ⟨p, hp, hc⟩ := ih h
        · exact .inl h
        · exact .inr ⟨p, List.mem_cons_of_mem _ hp, hc⟩

theorem Path.text_chars (h : Path path) : ∀ c ∈ ['.'].intercalate path, isSpace c = false ∧ c ∉ opChars := by
  intro c hc
  obtain rfl | ⟨part, hpart, hc⟩ := mem_intercalate hc
  · decide
  · obtain ⟨hspace, hchar⟩ := (h.2 part hpart).2 c hc
    exact ⟨hspace, fun hop => hchar (List.mem_cons_of_mem _ hop)⟩

theorem Path.text_ne_nil (h : Path path) : ['.'].intercalate path ≠ [] := by
  obtain ⟨hne, hparts⟩ := h
  cases path with
  | nil => exact absurd rfl hne
  | cons part path =>
    have hpart := (hparts part List.mem_cons_self).1
    cases path with
    | nil => simpa using hpart
    | cons part' path =>
      rw [List.intercalate_cons_cons]
      simp [hpart]

/-- What of a literal can hold an operator. -/
def Written.inner : Written → List Char
  | .quoted _ content _ => content
  | _ => []

theorem digit_free : ∀ c ∈ digitChars, c ∉ opChars ∧ isSpace c = false := List.all_iff_forall_prop.mp (by decide)

theorem sign_free (sign : Sign) : ∀ c ∈ sign.text, c ∉ opChars ∧ isSpace c = false := by
  cases sign <;> exact List.all_iff_forall_prop.mp (by decide)

theorem opChar_lower : ∀ c ∈ opChars, c.toLower ∉ wordLetters := List.all_iff_forall_prop.mp (by decide)

/-- The characters of a literal without quotes. -/
theorem unquoted_chars (h : ∀ quote content hq, w ≠ .quoted quote content hq) :
    ∀ c ∈ w.text, c ∉ opChars ∧ isSpace c = false := by
  cases w with
  | bool b text hb =>
    intro c hc
    have hletter : c.toLower ∈ wordLetters := by
      have hwords : (if b then ['t', 'r', 'u', 'e'] else ['f', 'a', 'l', 's', 'e']) ⊆ wordLetters := by
        cases b <;> decide
      exact hwords (hb ▸ List.mem_map_of_mem hc)
    refine ⟨fun hop => opChar_lower c hop hletter, ?_⟩
    by_contra hspace
    exact isSpace_lower (by simpa using hspace) hletter
  | int sign digits _ hdigits =>
    intro c hc
    obtain hc | hc := List.mem_append.mp hc
    · exact sign_free sign c hc
    · exact digit_free c (hdigits c hc)
  | decimal sign whole fraction _ hdigits =>
    intro c hc
    obtain hc | hc := List.mem_append.mp hc
    · exact sign_free sign c hc
    obtain hc | hc := List.mem_append.mp hc
    · exact digit_free c (hdigits c (List.mem_append_left _ hc))
    obtain rfl | hc := List.mem_cons.mp hc
    · decide
    · exact digit_free c (hdigits c (List.mem_append_right _ hc))
  | quoted quote content hq => exact absurd rfl (h quote content hq)

theorem quote_free (quote : Quote) : quote.char ∉ opChars ∧ isSpace quote.char = false := by
  cases quote <;> decide

theorem infix_written (h : op.text <:+: w.text) : op.text <:+: w.inner := by
  cases w with
  | quoted quote content hq =>
    have hquote : quote.char ∉ op.text := notMem_text (quote_free quote).1
    have hempty : ¬op.text <:+: [] := not_infix_free fun c hc => absurd hc List.not_mem_nil
    have h : op.text <:+: [] ++ quote.char :: (content ++ [quote.char]) := h
    obtain h | h := Text.infix_of_append_cons hquote h
    · exact absurd h hempty
    · obtain h | h := Text.infix_of_append_cons hquote h
      · exact h
      · exact absurd h hempty
  | bool | int | decimal => exact absurd h (not_infix_free fun c hc => (unquoted_chars (by simp) c hc).1)

theorem written_ends (w : Written) :
    ∃ hne : w.text ≠ [], isSpace (w.text.head hne) = false ∧ isSpace (w.text.getLast hne) = false := by
  cases w with
  | quoted quote content hq =>
    refine ⟨List.cons_ne_nil _ _, (quote_free quote).2, ?_⟩
    simp only [Written.text, ← List.cons_append, List.getLast_concat]
    exact (quote_free quote).2
  | bool b text hb =>
    have hne : text ≠ [] := by
      rintro rfl
      cases b <;> cases hb
    have hchars := unquoted_chars (w := .bool b text hb) (by simp)
    exact ⟨hne, (hchars _ (List.head_mem hne)).2, (hchars _ (List.getLast_mem hne)).2⟩
  | int sign digits hne hdigits =>
    have hne' : sign.text ++ digits ≠ [] := by simp [hne]
    have hchars := unquoted_chars (w := .int sign digits hne hdigits) (by simp)
    exact ⟨hne', (hchars _ (List.head_mem hne')).2, (hchars _ (List.getLast_mem hne')).2⟩
  | decimal sign whole fraction hne hdigits =>
    have hne' : sign.text ++ (whole ++ '.' :: fraction) ≠ [] := by simp
    have hchars := unquoted_chars (w := .decimal sign whole fraction hne hdigits) (by simp)
    exact ⟨hne', (hchars _ (List.head_mem hne')).2, (hchars _ (List.getLast_mem hne')).2⟩

/-! ## The operator found -/

theorem notMem_space (op : Op) : ' ' ∉ op.text := notMem_text (by decide)

/-- Beside the operator meant, operators stand in the literal only. -/
theorem infix_conditionText (hpath : Path path) (h : op'.text <:+: conditionText path op w) :
    op'.text <:+: op.text ∨ op'.text <:+: w.inner := by
  obtain h | h := Text.infix_of_append_cons (notMem_space op') h
  · exact absurd h (not_infix_free fun c hc => (hpath.text_chars c hc).2)
  · exact (Text.infix_of_append_cons (notMem_space op') h).imp_right infix_written

theorem strip_conditionText (hpath : Path path) : strip (conditionText path op w) = conditionText path op w := by
  obtain ⟨hne, -, hlast⟩ := written_ends w
  have htext : conditionText path op w ≠ [] := by simp [conditionText]
  refine Text.strip_eq_self htext ?_ ?_
  · have hhead : (conditionText path op w).head htext = (['.'].intercalate path).head hpath.text_ne_nil :=
      List.head_append_of_ne_nil _
    rw [hhead]
    exact (hpath.text_chars _ (List.head_mem _)).1
  · have hsplit : conditionText path op w = (['.'].intercalate path ++ ' ' :: (op.text ++ [' '])) ++ w.text := by
      simp [conditionText]
    simp only [hsplit, List.getLast_append_of_ne_nil _ hne]
    exact hlast

theorem lower_conditionText {word : List Char} (hword : word ⊆ wordLetters) : lower (conditionText path op w) ≠ word :=
  lower_ne hword (List.mem_append_right _ List.mem_cons_self) (by decide : ' '.toLower ∉ wordLetters)

theorem evaluate_eq (py : Python O) (hpath : Path path) (context : Context O) {found : Op} {left right : List Char}
    (h : findOperator (conditionText path op w) = some (found, left, right)) :
    evaluateCondition py (conditionText path op w) context =
      compare py found (resolveValue py (strip left) context) (resolveLiteral (strip right)) := by
  rw [evaluateCondition, strip_conditionText hpath, if_neg (lower_conditionText (by decide)),
    if_neg (lower_conditionText (by decide)), h]

theorem findOperator_meant (hpath : Path path) (hfree : ∀ op' ∈ earlier op, ¬op'.text <:+: w.inner) :
    findOperator (conditionText path op w) = some (op, ['.'].intercalate path ++ [' '], ' ' :: w.text) := by
  obtain ⟨later, hlater⟩ := searchOrder_split op
  refine List.findSome?_eq_some_iff.mpr ⟨earlier op, op, later, hlater, ?_, fun op' hop' => ?_⟩
  · obtain ⟨c, sub, hop⟩ : ∃ c sub, op.text = c :: sub := by cases op <;> exact ⟨_, _, rfl⟩
    have hnew : c ∉ ['.'].intercalate path ++ [' '] := by
      have hc : c ∈ opChars := opChars_of_text c (hop ▸ List.mem_cons_self)
      intro hmem
      obtain hmem | hmem := List.mem_append.mp hmem
      · exact (hpath.text_chars c hmem).2 hc
      · obtain rfl := List.mem_singleton.mp hmem
        exact absurd hc (by decide)
    have hsplit : conditionText path op w = (['.'].intercalate path ++ [' ']) ++ (op.text ++ ' ' :: w.text) := by
      simp [conditionText]
    rw [hsplit, hop, Text.splitFirst_append hnew]
    rfl
  · have hnone : Text.splitFirst op'.text (conditionText path op w) = none := by
      refine Text.splitFirst_eq_none_iff.mpr fun h => ?_
      obtain h | h := infix_conditionText hpath h
      · exact not_infix_of_earlier hop' h
      · exact hfree op' hop' h
    rw [hnone]
    rfl

theorem resolveValue_path (py : Python O) (hpath : Path path) (context : Context O) :
    resolveValue py (['.'].intercalate path) context = resolveParts py path context := by
  have hpoint : ∀ part ∈ path, '.' ∉ part := fun part hpart hmem => ((hpath.2 part hpart).2 '.' hmem).2 (by decide)
  rw [resolveValue, List.splitOn_intercalate '.' hpoint hpath.1]

/-- Without an earlier operator in the literal the condition compares what it says, the literal as it is read. -/
theorem evaluate_meant (py : Python O) (hpath : Path path) (hfree : ∀ op' ∈ earlier op, ¬op'.text <:+: w.inner)
    (context : Context O) : evaluateCondition py (conditionText path op w) context =
      compare py op (resolveParts py path context) (readAs w) := by
  have hleft : strip (['.'].intercalate path ++ [' ']) = ['.'].intercalate path := by
    have hne := hpath.text_ne_nil
    have hspace (c : Char) (hc : c ∈ ['.'].intercalate path) := (hpath.text_chars c hc).1
    rw [strip, Text.strip_concat_pos hne (hspace _ (List.head_mem hne)) (by decide)]
    exact Text.strip_eq_self hne (hspace _ (List.head_mem hne)) (hspace _ (List.getLast_mem hne))
  have hright : strip (' ' :: w.text) = w.text := by
    obtain ⟨hne, hhead, hlast⟩ := written_ends w
    rw [strip, Text.strip_cons_pos (by decide)]
    exact Text.strip_eq_self hne hhead hlast
  rw [evaluate_eq py hpath context (findOperator_meant hpath hfree), hleft, hright, resolveValue_path py hpath,
    resolveLiteral_written]

/-! ## An operator inside the literal -/

theorem resolveFrom_null (py : Python O) (parts : List (List Char)) :
    resolveFrom py parts (.json .null) = .json .null := by
  cases parts <;> rfl

/-- A path whose first part is no key of the context. -/
theorem resolveValue_missing (py : Python O) {rest : List Char} (v : Val O) :
    resolveValue py ('a' :: ' ' :: rest) [("a", v)] = .json .null := by
  obtain ⟨part, parts, hsplit⟩ := List.exists_cons_of_ne_nil (List.splitOn_ne_nil '.' rest)
  have hparts : ('a' :: ' ' :: rest).splitOn '.' = ('a' :: ' ' :: part) :: parts := by
    simp [List.splitOn_cons_eq_if_modifyHead, hsplit]
  have hmissing : List.lookup (String.ofList ('a' :: ' ' :: part)) [("a", v)] = none := by
    refine Assoc.lookup_eq_none_of_notMem fun hmem => ?_
    have heq : String.ofList ('a' :: ' ' :: part) = String.ofList ['a'] := List.mem_singleton.mp hmem
    cases String.ofList_inj.mp heq
  rw [resolveValue, hparts, resolveParts, hmissing]
  exact resolveFrom_null py parts

/-- `None` against a literal. -/
def answerNone (op : Op) (literal : Literal) : Except (Exc O) Bool :=
  match op with
  | .eq => .ok false
  | .ne => .ok true
  | _ => .error (.typeError (notSupported op .null literal))

theorem compare_null (py : Python O) (op : Op) (literal : Literal) :
    compare py op (.json .null) literal = answerNone op literal := by
  cases literal <;> rfl

/-- If an earlier operator occurs, one of the earlier ones is found. -/
theorem findOperator_earlier {text : List Char} (hop : op' ∈ earlier op) (h : op'.text <:+: text) :
    ∃ found ∈ earlier op, ∃ left right, findOperator text = some (found, left, right) ∧
      Text.splitFirst found.text text = some (left, right) := by
  obtain ⟨later, hlater⟩ := searchOrder_split op
  let find (op : Op) : Option (Op × List Char × List Char) := (Text.splitFirst op.text text).map fun r => (op, r)
  cases hfound : (earlier op).findSome? find with
  | none =>
    have hnone : find op' = none := List.findSome?_eq_none_iff.mp hfound op' hop
    exact absurd h (Text.splitFirst_eq_none_iff.mp (Option.map_eq_none_iff.mp hnone))
  | some r =>
    obtain ⟨found, hmem, hfind⟩ := List.exists_of_findSome?_eq_some hfound
    obtain ⟨⟨left, right⟩, hsplit, rfl⟩ := Option.map_eq_some_iff.mp hfind
    refine ⟨found, hmem, left, right, ?_, hsplit⟩
    have hfirst : findOperator text = ((earlier op).findSome? find).or ((op :: later).findSome? find) := by
      rw [findOperator, hlater, List.findSome?_append]
    rw [hfirst, hfound]
    rfl

theorem not_prefix_free {c : Char} {text : List Char} (h : c ∉ opChars) : ¬op.text <+: c :: text := by
  intro hprefix
  have hhead : ∃ d sub, op.text = d :: sub ∧ d ∈ opChars := by cases op <;> exact ⟨_, _, rfl, by decide⟩
  obtain ⟨d, sub, hop, hd⟩ := hhead
  rw [hop] at hprefix
  exact h ((List.cons_prefix_cons.mp hprefix).1 ▸ hd)

/-- What stands before an earlier operator goes beyond the path. -/
theorem left_of_earlier {found : Op} {literal left right : List Char} (hfound : found ∈ earlier op)
    (h : Text.splitFirst found.text ('a' :: ' ' :: (op.text ++ ' ' :: literal)) = some (left, right)) :
    ∃ c rest, left = 'a' :: ' ' :: c :: rest ∧ isSpace c = false := by
  obtain ⟨c, sub, hop, hc⟩ : ∃ c sub, op.text = c :: sub ∧ isSpace c = false := by
    cases op <;> exact ⟨_, _, rfl, by decide⟩
  have hmeant : ¬found.text <+: c :: (sub ++ ' ' :: literal) := by
    rw [← List.cons_append, ← hop]
    exact fun hprefix => not_infix_of_earlier hfound (Text.prefix_of_append_cons (notMem_space found) hprefix).isInfix
  rw [Text.splitFirst_cons (not_prefix_free (by decide)), Text.splitFirst_cons (not_prefix_free (by decide)), hop,
    List.cons_append, Text.splitFirst_cons hmeant] at h
  simp only [Option.map_map, Option.map_eq_some_iff] at h
  obtain ⟨r, -, hr⟩ := h
  exact ⟨c, r.1, (Prod.mk.inj hr).1.symm, hc⟩

theorem path_a : Path [['a']] := ⟨by decide, by
  intro part hpart
  obtain rfl := List.mem_singleton.mp hpart
  exact ⟨by decide, List.all_iff_forall_prop.mp (by decide)⟩⟩

/-- With an earlier operator in the literal the left side is read as `None`. -/
theorem evaluate_misread (py : Python O) (hop : op' ∈ earlier op) (hinner : op'.text <:+: w.inner) :
    ∃ found literal, ∀ v,
      evaluateCondition py (conditionText [['a']] op w) [("a", v)] = answerNone found literal := by
  have htext : conditionText [['a']] op w = 'a' :: ' ' :: (op.text ++ ' ' :: w.text) := rfl
  have hin : op'.text <:+: conditionText [['a']] op w := by
    have hliteral : w.inner <:+: w.text := by
      cases w with
      | quoted quote content hq => exact ⟨[quote.char], [quote.char], by simp [Written.inner, Written.text]⟩
      | bool | int | decimal => exact List.nil_infix
    refine (hinner.trans hliteral).trans ?_
    exact ⟨'a' :: ' ' :: (op.text ++ [' ']), [], by simp [htext]⟩
  obtain ⟨found, hfound, left, right, hfind, hsplit⟩ := findOperator_earlier hop hin
  refine ⟨found, resolveLiteral (strip right), fun v => ?_⟩
  obtain ⟨c, rest, rfl, hc⟩ := left_of_earlier hfound (htext ▸ hsplit)
  obtain ⟨rest', hstrip⟩ : ∃ rest', strip ('a' :: ([' '] ++ c :: rest)) = 'a' :: ([' '] ++ c :: rest') :=
    Text.strip_keeps (by decide) hc rest
  have hleft : strip ('a' :: ' ' :: c :: rest) = 'a' :: ' ' :: c :: rest' := hstrip
  rw [evaluate_eq py path_a _ hfind, hleft, resolveValue_missing, compare_null]

/-! ## Which conditions are read as they are written -/

/-- The float that an integer with too many digits is read as compares like the integer, where that compares. -/
def SameNumber (py : Python O) (op : Op) : Written → Prop
  | .int sign digits _ _ => digits.length ≤ maxStrDigits ∨
      ∀ v b, compare py op v (.int (signed sign (digitsValue digits))) = .ok b →
        compare py op v (.float (String.ofList (sign.text ++ digits))) = .ok b
  | _ => True

/-- What the claim asks of an operator and a literal. -/
def ReadAsWritten (py : Python O) (op : Op) (w : Written) : Prop :=
  ∀ path, Path path → ∀ (context : Context O) (b : Bool), compare py op (resolveParts py path context) w.value = .ok b →
    evaluateCondition py (conditionText path op w) context = .ok b

theorem compare_readAs (py : Python O) (h : SameNumber py op w) {v : Val O} {b : Bool}
    (hv : compare py op v w.value = .ok b) : compare py op v (readAs w) = .ok b := by
  cases w with
  | int sign digits hne hdigits =>
    rw [readAs]
    by_cases hlength : digits.length ≤ maxStrDigits
    · rw [if_pos hlength]
      exact hv
    · rw [if_neg hlength]
      exact (h.resolve_left hlength) v b hv
  | bool | decimal | quoted => exact hv

theorem list_lt_append (l : List Char) (c : Char) : l < l ++ [c] := by
  induction l with
  | nil => exact List.nil_lt_cons c []
  | cons a l ih => exact List.cons_lt_cons_iff.mpr (.inr ⟨rfl, ih⟩)

/-- Each outcome of a comparison with a text that is not empty is that of some text. -/
theorem exists_ordering {t : String} (ht : t.toList ≠ []) (o : Ordering) : ∃ s : String, Ord.compare s t = o := by
  cases o with
  | lt =>
    refine ⟨"", compare_lt_iff_lt.mpr (String.lt_iff_toList_lt.mpr ?_)⟩
    obtain ⟨c, rest, hlist⟩ := List.exists_cons_of_ne_nil ht
    rw [hlist]
    exact List.nil_lt_cons c rest
  | eq => exact ⟨t, compare_eq_iff_eq.mpr rfl⟩
  | gt =>
    refine ⟨t ++ "a", compare_gt_iff_gt.mpr (String.lt_iff_toList_lt.mpr ?_)⟩
    rw [String.toList_append]
    exact list_lt_append t.toList 'a'

theorem exists_holds (op : Op) (b : Bool) : ∃ o, op.holds o = b := by
  cases op <;> cases b <;> first | exact ⟨.lt, by decide⟩ | exact ⟨.eq, by decide⟩ | exact ⟨.gt, by decide⟩

/-- `None` gives one answer at most. -/
theorem exists_not_answerNone (op : Op) (literal : Literal) :
    ∃ b, (answerNone op literal : Except (Exc O) Bool) ≠ .ok b := by
  cases op
  · exact ⟨true, fun h => Bool.noConfusion (Except.ok.inj h)⟩
  · exact ⟨false, fun h => Bool.noConfusion (Except.ok.inj h)⟩
  all_goals exact ⟨true, fun h => (nomatch h)⟩

/-- A condition is read as it is written when, and only when, no operator that is searched for earlier stands in the
quoted text, and an integer with too many digits compares like the float of its text. -/
theorem readAsWritten_iff (py : Python O) (op : Op) (w : Written) :
    ReadAsWritten py op w ↔ (∀ op' ∈ earlier op, ¬op'.text <:+: w.inner) ∧ SameNumber py op w := by
  constructor
  · intro h
    have hfree : ∀ op' ∈ earlier op, ¬op'.text <:+: w.inner := by
      intro op' hop hinner
      have hne : w.inner ≠ [] := fun hnil =>
        not_infix_free (fun c hc => absurd hc List.not_mem_nil) (hnil ▸ hinner)
      cases w with
      | quoted quote content hq =>
        -- A text at the path for which the comparison gives what `None` does not give.
        obtain ⟨found, literal, hfound⟩ := evaluate_misread (w := .quoted quote content hq) py hop hinner
        obtain ⟨b, hb⟩ := exists_not_answerNone (O := O) found literal
        obtain ⟨o, ho⟩ := exists_holds op b
        have htext : (String.ofList content).toList ≠ [] := by
          rw [String.toList_ofList]
          exact hne
        obtain ⟨s, hs⟩ := exists_ordering htext o
        have hcompare : compare py op (.json (.str s)) (.str (String.ofList content)) = .ok b := by
          rw [← ho, ← hs]
          rfl
        exact hb ((hfound _).symm.trans (h [['a']] path_a [("a", .json (.str s))] b hcompare))
      | bool | int | decimal => exact hne rfl
    refine ⟨hfree, ?_⟩
    cases w with
    | int sign digits hne hdigits =>
      by_cases hlength : digits.length ≤ maxStrDigits
      · exact .inl hlength
      · refine .inr fun v b hv => ?_
        have heval := h [['a']] path_a [("a", v)] b hv
        rw [evaluate_meant py path_a hfree, readAs, if_neg hlength] at heval
        exact heval
    | bool | decimal | quoted => trivial
  · rintro ⟨hfree, hsame⟩ path hpath context b hb
    rw [evaluate_meant py hpath hfree]
    exact compare_readAs py hsame hb

/-- Python with JSON values only. -/
def jsonOnly : Python Empty where
  floats _ _ _ := false
  entry o := o.elim
  compare _ o _ := o.elim
  truthy o := o.elim

theorem quote_notMem : Quote.single.char ∉ ['p', '=', '=', 'q'] := by decide

/-- `'p==q'`. -/
def equalsInside : Written := .quoted .single ['p', '=', '=', 'q'] quote_notMem

/-- With `x` at `a` the condition holds, and evaluates to false. -/
theorem condition_misread :
    ¬∀ (O : Type) (py : Python O) (op : Op) (w : Written), ReadAsWritten py op w := by
  intro h
  have hmisread : evaluateCondition jsonOnly (conditionText [['a']] .ne equalsInside) [("a", .json (.str "x"))] =
      .ok false := by rfl
  have hmeant := h Empty jsonOnly .ne equalsInside [['a']] path_a [("a", .json (.str "x"))] true (by rfl)
  rw [hmisread] at hmeant
  cases hmeant

end Lingshu.Workflow
