import Mathlib.Data.List.Infix

/-! # Machines that read a stream in chunks

* `Machine`: reads symbols one by one, gives out what it has found, and is told where a chunk ends.
* `tags`: the symbols of a stream, each with whether a chunk ends right after it.
* `chunked_eq_tagged`: a machine for which a second cut in one place is no cut sees nothing of the chunks but that. -/
namespace Text
set_option autoImplicit false

structure Machine (S B O : Type) where
  next : S → B → List O × S
  cut : S → S

variable {S B O : Type}

namespace Machine
variable (m : Machine S B O)

def feed : S → List B → List O × S
  | s, [] => ([], s)
  | s, b :: bs =>
    let r := m.next s b
    let r' := feed r.2 bs
    (r.1 ++ r'.1, r'.2)

/-- Chunk by chunk. -/
def chunked : S → List (List B) → List O × S
  | s, [] => ([], s)
  | s, chunk :: chunks =>
    let r := m.feed s chunk
    let r' := chunked (m.cut r.2) chunks
    (r.1 ++ r'.1, r'.2)

/-- Symbol by symbol, each with whether a chunk ends there. -/
def tagged : S → List (B × Bool) → List O × S
  | s, [] => ([], s)
  | s, (b, ends) :: bs =>
    let r := m.next s b
    let r' := tagged (if ends then m.cut r.2 else r.2) bs
    (r.1 ++ r'.1, r'.2)

theorem feed_append (s : S) (xs ys : List B) :
    m.feed s (xs ++ ys) = ((m.feed s xs).1 ++ (m.feed (m.feed s xs).2 ys).1, (m.feed (m.feed s xs).2 ys).2) := by
  induction xs generalizing s with
  | nil => rfl
  | cons x xs ih =>
    rw [List.cons_append, feed, ih, feed, List.append_assoc]

theorem tagged_append (s : S) (xs ys : List (B × Bool)) : m.tagged s (xs ++ ys) =
    ((m.tagged s xs).1 ++ (m.tagged (m.tagged s xs).2 ys).1, (m.tagged (m.tagged s xs).2 ys).2) := by
  induction xs generalizing s with
  | nil => rfl
  | cons x xs ih => rw [List.cons_append, tagged, ih, tagged, List.append_assoc]

/-- One machine after the other. -/
def andThen {S' C : Type} (m : Machine S B C) (m' : Machine S' C O) : Machine (S × S') B O where
  next s b :=
    let r := m.next s.1 b
    let r' := m'.feed s.2 r.1
    (r'.1, (r.2, r'.2))
  cut s := (m.cut s.1, m'.cut s.2)

theorem feed_andThen {S' C : Type} (m : Machine S B C) (m' : Machine S' C O) (s : S) (s' : S') (bs : List B) :
    (m.andThen m').feed (s, s') bs = ((m'.feed s' (m.feed s bs).1).1, (m.feed s bs).2, (m'.feed s' (m.feed s bs).1).2) := by
  induction bs generalizing s s' with
  | nil => rfl
  | cons b bs ih =>
    rw [feed, feed, feed_append]
    exact congrArg (fun r : List O × S × S' => ((m'.feed s' (m.next s b).1).1 ++ r.1, r.2)) (ih _ _)

end Machine

/-! ## Where chunks end -/

/-- A chunk ends after its last symbol. -/
def tagChunk : List B → List (B × Bool)
  | [] => []
  | [b] => [(b, true)]
  | b :: bs => (b, false) :: tagChunk bs

def tags (chunks : List (List B)) : List (B × Bool) := chunks.flatMap tagChunk

theorem tagChunk_cons (b : B) {bs : List B} (h : bs ≠ []) : tagChunk (b :: bs) = (b, false) :: tagChunk bs := by
  cases bs with
  | nil => exact absurd rfl h
  | cons b' bs => rfl

theorem tagChunk_fst (chunk : List B) : (tagChunk chunk).map Prod.fst = chunk := by
  induction chunk with
  | nil => rfl
  | cons b bs ih =>
    cases bs with
    | nil => rfl
    | cons b' bs =>
      rw [tagChunk_cons b (List.cons_ne_nil _ _), List.map_cons, ih]

theorem tags_fst (chunks : List (List B)) : (tags chunks).map Prod.fst = chunks.flatten := by
  rw [tags, List.map_flatMap, List.flatten_eq_flatMap]
  exact List.flatMap_congr fun chunk _ => tagChunk_fst chunk

theorem length_tags (chunks : List (List B)) : (tags chunks).length = chunks.flatten.length := by
  rw [← tags_fst, List.length_map]

/-- The symbols of a chunk are tagged but for the last one of it. -/
theorem tagChunk_getElem? {chunk : List B} {i : ℕ} {b : B} {ends : Bool} (h : (tagChunk chunk)[i]? = some (b, ends)) :
    ends = true ↔ chunk.length = i + 1 := by
  induction chunk generalizing i with
  | nil => cases h
  | cons a bs ih =>
    cases bs with
    | nil =>
      cases i with
      | zero =>
        cases h
        exact ⟨fun _ => rfl, fun _ => rfl⟩
      | succ i => cases h
    | cons a' bs =>
      rw [tagChunk_cons a (List.cons_ne_nil _ _)] at h
      cases i with
      | zero =>
        cases h
        simp
      | succ i =>
        rw [List.length_cons, ih h]
        omega

/-- A symbol is tagged if some of the chunks end right after it. -/
theorem tags_getElem? {chunks : List (List B)} {i : ℕ} {b : B} {ends : Bool} (h : (tags chunks)[i]? = some (b, ends)) :
    ends = true ↔ ∃ k ≤ chunks.length, (chunks.take k).flatten.length = i + 1 := by
  induction chunks generalizing i with
  | nil => cases h
  | cons chunk chunks ih =>
    have hlength : (tagChunk chunk).length = chunk.length := by
      rw [← List.length_map Prod.fst, tagChunk_fst]
    have hflat : tags (chunk :: chunks) = tagChunk chunk ++ tags chunks := List.flatMap_cons
    rw [hflat, List.getElem?_append, hlength] at h
    have hfirst : (∃ k ≤ (chunk :: chunks).length, ((chunk :: chunks).take k).flatten.length = i + 1) ↔
        ∃ k ≤ chunks.length, chunk.length + (chunks.take k).flatten.length = i + 1 := by
      constructor
      · rintro ⟨k, hk, hlen⟩
        cases k with
        | zero => simp at hlen
        | succ k =>
          refine ⟨k, by simpa using hk, ?_⟩
          simpa using hlen
      · rintro ⟨k, hk, hlen⟩
        exact ⟨k + 1, by simpa using hk, by simpa using hlen⟩
    rw [hfirst]
    split at h
    next hlt =>
      rw [tagChunk_getElem? h]
      constructor
      · intro hlen
        exact ⟨0, Nat.zero_le _, by simpa using hlen⟩
      · rintro ⟨k, _, hlen⟩
        omega
    next hge =>
      rw [ih h]
      constructor
      · rintro ⟨k, hk, hlen⟩
        exact ⟨k, hk, by omega⟩
      · rintro ⟨k, hk, hlen⟩
        exact ⟨k, hk, by omega⟩

namespace Machine
variable {m : Machine S B O}

theorem feed_cut {chunk : List B} (h : chunk ≠ []) (s : S) :
    ((m.feed s chunk).1, m.cut (m.feed s chunk).2) = m.tagged s (tagChunk chunk) := by
  induction chunk generalizing s with
  | nil => exact absurd rfl h
  | cons b bs ih =>
    cases bs with
    | nil => rfl
    | cons b' bs =>
      rw [tagChunk_cons b (List.cons_ne_nil _ _), tagged, if_neg Bool.false_ne_true,
        ← ih (List.cons_ne_nil _ _), feed]

/-- What a machine gives out depends on the places in which chunks end, and not on how many do. -/
theorem chunked_eq_tagged (hcut : ∀ s, m.cut (m.cut s) = m.cut s) {s : S} (hs : m.cut s = s) (chunks : List (List B)) :
    m.chunked s chunks = m.tagged s (tags chunks) := by
  induction chunks generalizing s with
  | nil => rfl
  | cons chunk chunks ih =>
    have hflat : tags (chunk :: chunks) = tagChunk chunk ++ tags chunks := List.flatMap_cons
    rw [hflat, tagged_append, chunked]
    by_cases hempty : chunk = []
    · subst hempty
      rw [feed, hs, ih hs]
      rfl
    · rw [← feed_cut hempty, ih (hcut _)]

end Machine
end Text
