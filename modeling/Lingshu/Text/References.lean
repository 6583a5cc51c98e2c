import Mathlib.Data.List.Induction

/-! # References in a list

A reference is a sigil and the name right behind it: the pattern `sigil(start part*)`. No part of a name is a sigil, so
references do not overlap and a search may go on behind the sigil. -/
namespace Text
set_option autoImplicit false

structure Form (α : Type) where
  sigil : α → Bool
  start : α → Bool
  part : α → Bool
  part_of_start : ∀ c, start c = true → part c = true
  part_of_sigil : ∀ c, sigil c = true → part c = false

variable {α β : Type}

namespace Form

/-- The references in values that are read as others. -/
def comap (f : Form α) (g : β → α) : Form β where
  sigil := f.sigil ∘ g
  start := f.start ∘ g
  part := f.part ∘ g
  part_of_start c := f.part_of_start (g c)
  part_of_sigil c := f.part_of_sigil (g c)

/-- `none` belongs to no reference. -/
def option (f : Form α) : Form (Option α) where
  sigil c := c.any f.sigil
  start c := c.any f.start
  part c := c.any f.part
  part_of_start c h := by
    cases c with
    | none => simp at h
    | some c => exact f.part_of_start c h
  part_of_sigil c h := by
    cases c with
    | none => rfl
    | some c => exact f.part_of_sigil c h

variable (f : Form α)

/-- All references of a text, in order: `pattern.finditer`. -/
def references : List α → List (List α)
  | [] => []
  | c :: text =>
    if f.sigil c = true ∧ text.head?.any f.start = true then (c :: text.takeWhile f.part) :: references text
    else references text

/-! ## What is read so far -/

/-- Nothing of a reference, its sigil, or some of its name. -/
inductive Scan where
  | idle
  | sigil
  | name
  deriving DecidableEq, Repr

/-- Whether the reference goes on with an element. -/
def takes : Scan → α → Bool
  | .idle, _ => false
  | .sigil, c => f.start c
  | .name, c => f.part c

def step (q : Scan) (c : α) : Scan := if f.sigil c then .sigil else if f.takes q c then .name else .idle

def scan (q : Scan) (text : List α) : Scan := text.foldl f.step q

variable {f} {q : Scan} {c : α} {text u v w : List α}

theorem takes_of_sigil (h : f.sigil c = true) : f.takes q c = false := by
  have hpart := f.part_of_sigil c h
  cases q with
  | idle => rfl
  | sigil => exact Bool.eq_false_iff.mpr fun hstart => by simp [f.part_of_start c hstart] at hpart
  | name => exact hpart

variable (f) in
/-- What the reference that is being read still takes. -/
def openPart (q : Scan) (text : List α) : List α :=
  match q with
  | .idle => []
  | .sigil => if text.head?.any f.start then text.takeWhile f.part else []
  | .name => text.takeWhile f.part

theorem openPart_cons (q : Scan) (c : α) (text : List α) :
    f.openPart q (c :: text) = if f.takes q c then c :: text.takeWhile f.part else [] := by
  cases q with
  | idle => rfl
  | sigil =>
    by_cases hstart : f.start c = true
    · simp [openPart, takes, hstart, f.part_of_start c hstart]
    · simp [openPart, takes, hstart]
  | name =>
    by_cases hpart : f.part c = true <;> simp [openPart, takes, hpart]

/-! ## The elements of references -/

variable (f) in
/-- The element between two parts of a text is the sigil of a reference, or in its name. -/
def Inside (q : Scan) (u : List α) (c : α) (v : List α) : Prop :=
  (f.sigil c = true ∧ v.head?.any f.start = true) ∨ f.takes (f.scan q u) c = true

theorem forall_openPart_iff (P : α → Prop) (q : Scan) (text : List α) :
    ((∀ c ∈ f.openPart q text, P c) ∧ ∀ r ∈ f.references text, ∀ c ∈ r, P c) ↔
      ∀ u c v, text = u ++ c :: v → f.Inside q u c v → P c := by
  induction text generalizing q with
  | nil => cases q <;> simp [openPart, references]
  | cons a text ih =>
    have hsplit : (∀ u c v, a :: text = u ++ c :: v → f.Inside q u c v → P c) ↔
        (f.Inside q [] a text → P a) ∧ ∀ u c v, text = u ++ c :: v → f.Inside (f.step q a) u c v → P c := by
      constructor
      · exact fun h => ⟨h [] a text rfl, fun u c v htext => h (a :: u) c v (by rw [htext]; rfl)⟩
      · rintro ⟨hhead, htail⟩ u c v htext
        cases u with
        | nil =>
          obtain ⟨rfl, rfl⟩ := List.cons.inj htext
          exact hhead
        | cons b u =>
          obtain ⟨rfl, htext'⟩ := List.cons.inj htext
          exact htail u c v htext'
    rw [hsplit, ← ih, openPart_cons, references, Inside, scan, List.foldl_nil]
    by_cases hsigil : f.sigil a = true
    · have hstep : f.step q a = .sigil := if_pos hsigil
      rw [hstep, takes_of_sigil hsigil]
      by_cases hstart : text.head?.any f.start = true
      · simp [hsigil, hstart, openPart, and_assoc]
      · simp [hsigil, hstart, openPart]
    · by_cases htakes : f.takes q a = true
      · have hstep : f.step q a = .name := by rw [step, if_neg hsigil, if_pos htakes]
        simp [hstep, hsigil, htakes, openPart, and_assoc]
      · have hstep : f.step q a = .idle := by rw [step, if_neg hsigil, if_neg htakes]
        simp [hstep, hsigil, htakes, openPart]

/-- What holds of all that is inside of references holds of all their elements. -/
theorem forall_mem_references_iff (P : α → Prop) (text : List α) :
    (∀ r ∈ f.references text, ∀ c ∈ r, P c) ↔ ∀ u c v, text = u ++ c :: v → f.Inside .idle u c v → P c := by
  rw [← forall_openPart_iff P .idle text, iff_and_self]
  exact fun _ c hc => by simp [openPart] at hc

theorem scan_comap (g : β → α) (q : Scan) (text : List β) : (f.comap g).scan q text = f.scan q (text.map g) := by
  have hstep : (f.comap g).step = fun q c => f.step q (g c) := by
    funext q c
    cases q <;> rfl
  rw [scan, scan, List.foldl_map, hstep]

theorem inside_comap (g : β → α) (q : Scan) (u v : List β) (c : β) :
    (f.comap g).Inside q u c v ↔ f.Inside q (u.map g) (g c) (v.map g) := by
  have htakes : (f.comap g).takes ((f.comap g).scan q u) c = f.takes (f.scan q (u.map g)) (g c) := by
    rw [scan_comap]
    cases f.scan q (u.map g) <;> rfl
  rw [Inside, Inside, htakes, List.head?_map, Option.any_map]
  rfl

/-! ## Texts that are read as others -/

theorem takeWhile_map {g : Form β} {h : α → β} {P : α → Prop} (hkeep : ∀ c, P c → g.part (h c) = f.part c)
    (hdrop : ∀ c, ¬P c → g.part (h c) = false) (hclean : ∀ c ∈ text.takeWhile f.part, P c) :
    (text.map h).takeWhile g.part = (text.takeWhile f.part).map h := by
  induction text with
  | nil => rfl
  | cons c text ih =>
    rw [List.map_cons, List.takeWhile_cons, List.takeWhile_cons]
    by_cases hpart : f.part c = true
    · rw [List.takeWhile_cons_of_pos hpart, List.forall_mem_cons] at hclean
      rw [hkeep c hclean.1, if_pos hpart, if_pos hpart, ih hclean.2, List.map_cons]
    · have hg : ¬g.part (h c) = true := by
        by_cases hP : P c
        · rwa [hkeep c hP]
        · simp [hdrop c hP]
      rw [if_neg hg, if_neg hpart, List.map_nil]

/-- A map that keeps some elements as they are and makes the others no part of references yields the same references,
if these consist of elements that are kept. -/
theorem references_map {g : Form β} {h : α → β} {P : α → Prop}
    (hkeep : ∀ c, P c → g.sigil (h c) = f.sigil c ∧ g.start (h c) = f.start c ∧ g.part (h c) = f.part c)
    (hdrop : ∀ c, ¬P c → g.sigil (h c) = false ∧ g.start (h c) = false ∧ g.part (h c) = false)
    (hclean : ∀ r ∈ f.references text, ∀ c ∈ r, P c) :
    g.references (text.map h) = (f.references text).map (List.map h) := by
  induction text with
  | nil => rfl
  | cons c text ih =>
    have hguard : (g.sigil (h c) = true ∧ (text.map h).head?.any g.start = true) ↔
        (f.sigil c = true ∧ text.head?.any f.start = true) := by
      cases text with
      | nil => simp
      | cons b text =>
        simp only [List.map_cons, List.head?_cons, Option.any_some]
        constructor
        · rintro ⟨hsigil, hstart⟩
          have hc : P c := Classical.byContradiction fun hP => by simp [(hdrop c hP).1] at hsigil
          have hb : P b := Classical.byContradiction fun hP => by simp [(hdrop b hP).2.1] at hstart
          exact ⟨(hkeep c hc).1 ▸ hsigil, (hkeep b hb).2.1 ▸ hstart⟩
        · rintro ⟨hsigil, hstart⟩
          have hmem : (c :: b :: text.takeWhile f.part) ∈ f.references (c :: b :: text) := by
            simp [references, hsigil, hstart, f.part_of_start b hstart]
          have hc : P c := hclean _ hmem c (by simp)
          have hb : P b := hclean _ hmem b (by simp)
          exact ⟨(hkeep c hc).1.trans hsigil, (hkeep b hb).2.1.trans hstart⟩
    simp only [List.map_cons, references]
    by_cases hbegins : f.sigil c = true ∧ text.head?.any f.start = true
    · rw [references, if_pos hbegins, List.forall_mem_cons, List.forall_mem_cons] at hclean
      rw [if_pos hbegins, if_pos (hguard.mpr hbegins), ih hclean.2, List.map_cons, List.map_cons,
        takeWhile_map (fun c hc => (hkeep c hc).2.2) (fun c hc => (hdrop c hc).2.2) hclean.1.2]
    · rw [references, if_neg hbegins] at hclean
      rw [if_neg hbegins, if_neg fun hg => hbegins (hguard.mp hg), ih hclean]

theorem references_comap (h : β → α) (text : List β) :
    f.references (text.map h) = ((f.comap h).references text).map (List.map h) :=
  references_map (P := fun _ => True) (fun _ _ => ⟨rfl, rfl, rfl⟩) (fun _ hc => absurd trivial hc) fun _ _ _ _ => trivial

/-! ## A part of a text that no reference reaches -/

variable (f) in
/-- Between two other parts, `w` does not go on with a reference and none begins in it. -/
structure Harmless (u w v : List α) : Prop where
  continues : ∀ c ∈ w.head?, f.takes (f.scan .idle u) c = false
  begins : ∀ a c b, w = a ++ c :: b → f.sigil c = true → (b ++ v).head?.any f.start = false

theorem Harmless.takes_eq_false (h : f.Harmless u w v) {a b : List α} (hw : w = a ++ c :: b) :
    f.takes (f.scan .idle (u ++ a)) c = false := by
  induction a using List.reverseRecOn generalizing c b with
  | nil =>
    rw [List.append_nil]
    exact h.continues c (by simp [hw])
  | append_singleton a d ih =>
    have hw' : w = a ++ d :: (c :: b) := by simpa using hw
    have hd := ih hw'
    rw [← List.append_assoc, scan, List.foldl_append, List.foldl_cons, List.foldl_nil, ← scan, step]
    by_cases hsigil : f.sigil d = true
    · rw [if_pos hsigil, takes]
      simpa using h.begins a d (c :: b) hw' hsigil
    · rw [if_neg hsigil, hd]
      rfl

theorem harmless_iff : f.Harmless u w v ↔ ∀ a c b, w = a ++ c :: b → ¬f.Inside .idle (u ++ a) c (b ++ v) := by
  constructor
  · rintro h a c b hw (⟨hsigil, hstart⟩ | htakes)
    · exact Bool.false_ne_true ((h.begins a c b hw hsigil).symm.trans hstart)
    · simp [h.takes_eq_false hw] at htakes
  · refine fun h => ⟨fun c hc => ?_, fun a c b hw hsigil => ?_⟩
    · cases w with
      | nil => simp at hc
      | cons d w =>
        obtain rfl := Option.some.inj hc
        exact Bool.eq_false_iff.mpr fun htakes => h [] d w rfl (.inr (by rwa [List.append_nil]))
    · exact Bool.eq_false_iff.mpr fun hstart => h a c b hw (.inl ⟨hsigil, hstart⟩)

end Form

end Text
