import Mathlib.Algebra.Order.BigOperators.Group.List
import Mathlib.Algebra.Order.Group.Nat
import Mathlib.Data.List.Infix

/-! # Placeholders in a list

A placeholder stands between two delimiters and is as short as it can be: the pattern `opening(.+?)closing`, with
a predicate for what may stand inside. -/
namespace Text
set_option autoImplicit false

structure Delimiters (α : Type) where
  opening : List α
  closing : List α
  inner : α → Bool

/-- An element that stands for itself, or what is inside a placeholder. -/
inductive Piece (α : Type) where
  | text (c : α)
  | hole (content : List α)
  deriving DecidableEq, Repr

variable {α : Type} (d : Delimiters α) {c : α} {content text rest : List α}

/-- The element of a list that an element of its image comes from, and what stands before and behind. -/
theorem flatMap_eq_append_cons {β : Type} {g : β → List α} {l : List β} {u v : List α}
    (h : l.flatMap g = u ++ c :: v) :
    ∃ us x vs a b, l = us ++ x :: vs ∧ g x = a ++ c :: b ∧ u = us.flatMap g ++ a ∧ v = b ++ vs.flatMap g := by
  induction l generalizing u with
  | nil => simp at h
  | cons x l ih =>
    rw [List.flatMap_cons, List.append_eq_append_iff] at h
    obtain ⟨a, hu, htail⟩ | ⟨b, hx, hb⟩ := h
    · obtain ⟨us, y, vs, a', b, rfl, hy, rfl, rfl⟩ := ih htail
      exact ⟨x :: us, y, vs, a', b, rfl, hy, by simp [hu], rfl⟩
    · cases b with
      | nil =>
        obtain ⟨us, y, vs, a', b, rfl, hy, hnil, rfl⟩ := ih (u := []) (by simpa using hb.symm)
        refine ⟨x :: us, y, vs, a', b, rfl, hy, ?_, rfl⟩
        rw [List.flatMap_cons, hx, List.append_nil, List.append_assoc, ← hnil, List.append_nil]
      | cons d b =>
        obtain ⟨rfl, rfl⟩ := List.cons.inj hb
        exact ⟨[], x, l, u, b, rfl, hx, rfl, rfl⟩

variable [DecidableEq α]

namespace Delimiters

def enclose (content : List α) : List α := d.opening ++ content ++ d.closing

/-! ## The shortest content -/

/-- The shortest nonempty content that the closing delimiter follows. -/
def shortest : List α → Option (List α)
  | [] => none
  | c :: text =>
    if d.inner c then
      if d.closing.isPrefixOf text then some [c] else (shortest text).map (c :: ·)
    else none

variable {d}

theorem shortest_spec (h : d.shortest text = some content) :
    content ≠ [] ∧ (∀ c ∈ content, d.inner c = true) ∧ content ++ d.closing <+: text := by
  induction text generalizing content with
  | nil => simp [Delimiters.shortest] at h
  | cons c text ih =>
    simp only [Delimiters.shortest] at h
    split at h
    · next hinner =>
      split at h
      · next hclosing =>
        obtain rfl := (Option.some.inj h).symm
        exact ⟨List.cons_ne_nil _ _, by simpa using hinner,
          List.cons_prefix_cons.mpr ⟨rfl, List.isPrefixOf_iff_prefix.mp hclosing⟩⟩
      · obtain ⟨content', hcontent, rfl⟩ := Option.map_eq_some_iff.mp h
        obtain ⟨-, hall, hprefix⟩ := ih hcontent
        exact ⟨List.cons_ne_nil _ _, List.forall_mem_cons.mpr ⟨hinner, hall⟩,
          List.cons_prefix_cons.mpr ⟨rfl, hprefix⟩⟩
    · simp at h

/-- Where some content can be closed, the shortest one is found, and it is a prefix of that content. -/
theorem shortest_of_closed (hne : content ≠ []) (hinner : ∀ c ∈ content, d.inner c = true) (rest : List α) :
    ∃ content', content' <+: content ∧ d.shortest (content ++ d.closing ++ rest) = some content' := by
  induction content with
  | nil => exact absurd rfl hne
  | cons c content ih =>
    obtain ⟨hc, hinner⟩ := List.forall_mem_cons.mp hinner
    simp only [List.cons_append, Delimiters.shortest, hc, if_true]
    by_cases hclosing : d.closing <+: content ++ d.closing ++ rest
    · rw [if_pos (List.isPrefixOf_iff_prefix.mpr hclosing)]
      exact ⟨[c], List.cons_prefix_cons.mpr ⟨rfl, List.nil_prefix⟩, rfl⟩
    · have hcontent : content ≠ [] := by
        rintro rfl
        exact hclosing (List.prefix_append _ _)
      obtain ⟨content', hprefix, hcontent'⟩ := ih hcontent hinner
      rw [if_neg fun h => hclosing (List.isPrefixOf_iff_prefix.mp h), hcontent']
      exact ⟨c :: content', List.cons_prefix_cons.mpr ⟨rfl, hprefix⟩, rfl⟩

/-! ## The pieces of a text -/

variable (d)

/-- The first `skip` elements belong to a placeholder that has been found. -/
def piecesFrom : ℕ → List α → List (Piece α)
  | _, [] => []
  | skip + 1, _ :: text => piecesFrom skip text
  | 0, c :: text =>
    match ((c :: text).dropPrefix? d.opening).bind d.shortest with
    | some content => .hole content :: piecesFrom ((d.enclose content).length - 1) text
    | none => .text c :: piecesFrom 0 text

/-- The text, cut into placeholders and the elements around them. -/
def pieces (text : List α) : List (Piece α) := d.piecesFrom 0 text

theorem piecesFrom_eq (skip : ℕ) (text : List α) : d.piecesFrom skip text = d.pieces (text.drop skip) := by
  induction text generalizing skip with
  | nil => cases skip <;> rfl
  | cons c text ih =>
    cases skip with
    | zero => rfl
    | succ skip => exact ih skip

@[simp] theorem pieces_nil : d.pieces [] = [] := rfl

/-- Where no placeholder begins, the first element stands for itself. -/
theorem pieces_text (h : ((c :: text).dropPrefix? d.opening).bind d.shortest = none) :
    d.pieces (c :: text) = .text c :: d.pieces text := by
  simp only [pieces, piecesFrom, h]

/-- Where one begins, it is the first piece. -/
theorem pieces_hole (h : d.shortest (content ++ d.closing ++ rest) = some content) (hopening : d.opening ≠ []) :
    d.pieces (d.enclose content ++ rest) = .hole content :: d.pieces rest := by
  obtain ⟨c, opening, hcons⟩ := List.exists_cons_of_ne_nil hopening
  have hdrop : (d.enclose content ++ rest).dropPrefix? d.opening = some (content ++ d.closing ++ rest) :=
    List.dropPrefix?_eq_some_iff.mpr ⟨d.opening, by simp [enclose], by simp⟩
  have htext : d.enclose content ++ rest = c :: (opening ++ content ++ d.closing ++ rest) := by
    simp [enclose, hcons]
  have hlength : (d.enclose content).length - 1 = (opening ++ content ++ d.closing).length := by
    simp [enclose, hcons]
  rw [htext] at hdrop ⊢
  simp only [pieces, piecesFrom, hdrop, Option.bind_some, h]
  rw [piecesFrom_eq, hlength, List.drop_left, pieces]

/-- A text is empty, or it begins with an element that stands for itself, or with a placeholder. -/
theorem pieces_induction {motive : List α → Prop} (hopening : d.opening ≠ []) (nil : motive [])
    (text : ∀ c text, d.pieces (c :: text) = .text c :: d.pieces text → motive text → motive (c :: text))
    (hole : ∀ content rest, d.shortest (content ++ d.closing ++ rest) = some content →
      d.pieces (d.enclose content ++ rest) = .hole content :: d.pieces rest → motive rest →
        motive (d.enclose content ++ rest)) : ∀ text, motive text := by
  intro l
  induction hn : l.length using Nat.strong_induction_on generalizing l with
  | _ n ih =>
    cases l with
    | nil => exact nil
    | cons c l =>
      cases hfound : ((c :: l).dropPrefix? d.opening).bind d.shortest with
      | none => exact text c l (d.pieces_text hfound) (ih l.length (by simp [← hn]) l rfl)
      | some content =>
        obtain ⟨inside, hdrop, hshortest⟩ := Option.bind_eq_some_iff.mp hfound
        obtain ⟨opening, hl, hbeq⟩ := List.dropPrefix?_eq_some_iff.mp hdrop
        obtain rfl := beq_iff_eq.mp hbeq
        obtain ⟨-, -, rest, rfl⟩ := shortest_spec hshortest
        have htext : c :: l = d.enclose content ++ rest := by simp [hl, enclose]
        have hlength : rest.length < n := by
          have hpos := List.length_pos_iff.mpr hopening
          rw [← hn, htext]
          simp only [enclose, List.length_append]
          omega
        rw [htext]
        exact hole content rest hshortest (d.pieces_hole hshortest hopening) (ih rest.length hlength rest rfl)

/-- What a piece is cut from. -/
def source : Piece α → List α
  | .text c => [c]
  | .hole content => d.enclose content

theorem flatMap_source (hopening : d.opening ≠ []) (text : List α) : (d.pieces text).flatMap d.source = text := by
  induction text using d.pieces_induction hopening with
  | nil => rfl
  | text c text hpieces ih => rw [hpieces, List.flatMap_cons, ih]; rfl
  | hole content rest _ hpieces ih => rw [hpieces, List.flatMap_cons, ih]; rfl

/-! ## Substitution -/

/-- The piece, with its content replaced if it is a placeholder. -/
def fill (f : List α → List α) : Piece α → List α
  | .text c => [c]
  | .hole content => f content

/-- The placeholders replaced: `pattern.sub`. -/
def substitute (f : List α → List α) (text : List α) : List α := (d.pieces text).flatMap (fill f)

theorem pieces_eq_nil (hopening : d.opening ≠ []) (h : d.pieces text = []) : text = [] := by
  rw [← d.flatMap_source hopening text, h, List.flatMap_nil]

/-- Placeholders that are put back leave the text. -/
theorem substitute_eq_self {f : List α → List α} (hopening : d.opening ≠ [])
    (h : ∀ content, .hole content ∈ d.pieces text → f content = d.enclose content) : d.substitute f text = text := by
  have hfill : ∀ piece ∈ d.pieces text, fill f piece = d.source piece := fun piece hpiece => by
    cases piece with
    | text c => rfl
    | hole content => exact h content hpiece
  calc d.substitute f text = (d.pieces text).flatMap d.source := List.flatMap_congr hfill
    _ = text := d.flatMap_source hopening text

/-- One placeholder that gets shorter, and none that gets longer, make the text shorter. -/
theorem length_substitute_lt {f : List α → List α} (hopening : d.opening ≠ [])
    (hle : ∀ content, (f content).length ≤ (d.enclose content).length) (hmem : .hole content ∈ d.pieces text)
    (hlt : (f content).length < (d.enclose content).length) : (d.substitute f text).length < text.length := by
  have hpiece : ∀ piece ∈ d.pieces text, (fill f piece).length ≤ (d.source piece).length := fun piece _ => by
    cases piece with
    | text c => exact le_rfl
    | hole content => exact hle content
  calc (d.substitute f text).length = ((d.pieces text).map fun piece => (fill f piece).length).sum :=
        List.length_flatMap
    _ < ((d.pieces text).map fun piece => (d.source piece).length).sum :=
        List.sum_lt_sum _ _ hpiece ⟨_, hmem, hlt⟩
    _ = text.length := by rw [← List.length_flatMap, d.flatMap_source hopening text]

/-! ## A text that is one placeholder -/

/-- The content, if the whole text matches: `pattern.fullmatch`. -/
def whole (text : List α) : Option (List α) :=
  ((text.dropPrefix? d.opening).bind fun rest => rest.dropSuffix? d.closing).filter fun content =>
    content ≠ [] ∧ ∀ c ∈ content, d.inner c = true

variable {d}

theorem whole_eq_some_iff : d.whole text = some content ↔
    text = d.enclose content ∧ content ≠ [] ∧ ∀ c ∈ content, d.inner c = true := by
  rw [whole, Option.filter_eq_some_iff, Option.bind_eq_some_iff]
  constructor
  · rintro ⟨⟨rest, hprefix, hsuffix⟩, hcontent⟩
    obtain ⟨opening, rfl, hopening⟩ := List.dropPrefix?_eq_some_iff.mp hprefix
    obtain ⟨closing, rfl, hclosing⟩ := List.dropSuffix?_eq_some_iff.mp hsuffix
    obtain rfl := beq_iff_eq.mp hopening
    obtain rfl := beq_iff_eq.mp hclosing
    exact ⟨by simp [enclose], by simpa using hcontent⟩
  · rintro ⟨rfl, hcontent⟩
    refine ⟨⟨content ++ d.closing, ?_, ?_⟩, by simpa using hcontent⟩
    · exact List.dropPrefix?_eq_some_iff.mpr ⟨d.opening, by simp [enclose], by simp⟩
    · exact List.dropSuffix?_eq_some_iff.mpr ⟨d.closing, rfl, by simp⟩

/-- A text that matches as a whole begins with a placeholder, which may be shorter. -/
theorem pieces_of_whole (hopening : d.opening ≠ []) (h : d.whole text = some content) :
    ∃ content' rest, d.pieces text = .hole content' :: d.pieces rest ∧ text = d.enclose content' ++ rest ∧
      content' <+: content := by
  obtain ⟨rfl, hne, hinner⟩ := whole_eq_some_iff.mp h
  obtain ⟨content', hprefix, hshortest⟩ := shortest_of_closed hne hinner []
  rw [List.append_nil] at hshortest
  obtain ⟨-, -, rest, hrest⟩ := shortest_spec hshortest
  have htext : d.enclose content = d.enclose content' ++ rest := by
    simp only [enclose, List.append_assoc, List.append_cancel_left_eq]
    rw [← List.append_assoc, hrest]
  rw [← hrest] at hshortest
  exact ⟨content', rest, htext ▸ d.pieces_hole hshortest hopening, htext, hprefix⟩

/-- A content in which the closing delimiter cannot begin is the placeholder. -/
theorem pieces_whole (hopening : d.opening ≠ []) (hclosing : d.closing.head? = some c) (hc : c ∉ content)
    (h : d.whole text = some content) : d.pieces text = [.hole content] := by
  obtain ⟨content', rest, hpieces, htext, ⟨more, rfl⟩⟩ := pieces_of_whole hopening h
  obtain ⟨rfl, -, -⟩ := whole_eq_some_iff.mp h
  obtain ⟨closing, hcons⟩ := List.head?_eq_some_iff.mp hclosing
  have hmore : more = [] := by
    simp only [enclose, hcons, List.append_assoc, List.cons_append, List.append_cancel_left_eq] at htext
    cases more with
    | nil => rfl
    | cons a more =>
      obtain ⟨rfl, -⟩ := List.cons.inj htext
      exact absurd (List.mem_append_right _ List.mem_cons_self) hc
  subst hmore
  have hrest : rest = [] := by simpa using htext
  rw [hpieces, hrest, List.append_nil, pieces_nil]

end Delimiters

end Text
