import Mathlib.Data.List.Chain
import Mathlib.Logic.Relation

/-! # Depth-first search with a shared list of visited nodes

A search for a node along the edges of a graph, each node entered once, with a bound on the depth. A search that is
through without a hit has entered a set that no edge leaves; one that runs out of depth has gone down a path without
repetition that is as long as the bound. -/
namespace Search
open Relation
set_option autoImplicit false

variable {α : Type}

/-- The branches one after the other; each goes on with what the ones before have visited. -/
def anyReach (reach : α → List α → Option (Bool × List α)) : List α → List α → Option (Bool × List α)
  | [], visited => some (false, visited)
  | c :: cs, visited =>
    match reach c visited with
    | some (true, visited) => some (true, visited)
    | some (false, visited) => anyReach reach cs visited
    | none => none

/-! ## Branches -/

theorem exists_of_anyReach_true {reach : α → List α → Option (Bool × List α)} {cs visited visited' : List α}
    (h : anyReach reach cs visited = some (true, visited')) : ∃ c ∈ cs, ∃ v v', reach c v = some (true, v') := by
  induction cs generalizing visited with
  | nil => cases h
  | cons c cs ih =>
    unfold anyReach at h
    split at h
    · next hc => exact ⟨c, List.mem_cons_self, _, _, hc⟩
    · obtain ⟨c', hc', hreach⟩ := ih h
      exact ⟨c', List.mem_cons_of_mem c hc', hreach⟩
    · cases h

/-- What has been visited since is not the target, and its children have been visited too. -/
structure Explored (children : α → List α) (target : α) (visited visited' : List α) : Prop where
  subset : visited ⊆ visited'
  closed : ∀ x ∈ visited', x ∉ visited → x ≠ target ∧ ∀ y ∈ children x, y ∈ visited'

variable {children : α → List α} {target : α} {visited visited' visited'' : List α}

theorem Explored.refl : Explored children target visited visited :=
  ⟨fun _ hx => hx, fun _ hx hnot => absurd hx hnot⟩

theorem Explored.trans (h : Explored children target visited visited')
    (h' : Explored children target visited' visited'') : Explored children target visited visited'' := by
  refine ⟨fun x hx => h'.subset (h.subset hx), fun x hx hnot => ?_⟩
  by_cases hmem : x ∈ visited'
  · obtain ⟨hne, hchildren⟩ := h.closed x hmem hnot
    exact ⟨hne, fun y hy => h'.subset (hchildren y hy)⟩
  · exact h'.closed x hx hmem

theorem explored_anyReach {reach : α → List α → Option (Bool × List α)} {cs : List α}
    (hreach : ∀ c v v', reach c v = some (false, v') → Explored children target v v' ∧ c ∈ v')
    (h : anyReach reach cs visited = some (false, visited')) :
    Explored children target visited visited' ∧ ∀ c ∈ cs, c ∈ visited' := by
  induction cs generalizing visited with
  | nil =>
    obtain ⟨-, rfl⟩ := Prod.mk.inj (Option.some.inj h)
    exact ⟨.refl, fun _ hc => nomatch hc⟩
  | cons c cs ih =>
    unfold anyReach at h
    split at h
    · cases h
    · next v hc =>
      obtain ⟨hexplored, hmem⟩ := hreach c visited v hc
      obtain ⟨hrest, hcs⟩ := ih h
      exact ⟨hexplored.trans hrest, List.forall_mem_cons.mpr ⟨hrest.subset hmem, hcs⟩⟩
    · cases h

theorem exists_of_anyReach_none {reach : α → List α → Option (Bool × List α)} {cs : List α}
    (hreach : ∀ c v v', reach c v = some (false, v') → v ⊆ v') (h : anyReach reach cs visited = none) :
    ∃ c ∈ cs, ∃ v, visited ⊆ v ∧ reach c v = none := by
  induction cs generalizing visited with
  | nil => cases h
  | cons c cs ih =>
    unfold anyReach at h
    split at h
    · cases h
    · next v hc =>
      obtain ⟨c', hc', v', hsub, hnone⟩ := ih h
      exact ⟨c', List.mem_cons_of_mem c hc', v', fun x hx => hsub (hreach c visited v hc hx), hnone⟩
    · next hc => exact ⟨c, List.mem_cons_self, visited, fun _ hx => hx, hc⟩

/-! ## The search -/

section Reach
variable [DecidableEq α] (children : α → List α) (target : α)

/-- Whether the target is found, and what has been visited; `none` out of depth. -/
def canReach : ℕ → α → List α → Option (Bool × List α)
  | 0, _, _ => none
  | depth + 1, current, visited =>
    if current = target then some (true, visited)
    else if current ∈ visited then some (false, visited)
    else anyReach (canReach depth) (children current) (current :: visited)

end Reach

def Step (children : α → List α) (a b : α) : Prop := b ∈ children a

section Outcomes
variable [DecidableEq α]

/-! ## A hit -/

theorem reaches_of_true {depth : ℕ} {current : α}
    (h : canReach children target depth current visited = some (true, visited')) :
    ReflTransGen (Step children) current target := by
  induction depth generalizing current visited visited' with
  | zero => cases h
  | succ depth ih =>
    unfold canReach at h
    split at h
    · next hcurrent => exact hcurrent ▸ .refl
    · split at h
      · cases h
      · obtain ⟨c, hc, v, v', hreach⟩ := exists_of_anyReach_true h
        exact .head hc (ih hreach)

/-! ## No hit -/

theorem explored_of_false {depth : ℕ} {current : α}
    (h : canReach children target depth current visited = some (false, visited')) :
    Explored children target visited visited' ∧ current ∈ visited' := by
  induction depth generalizing current visited visited' with
  | zero => cases h
  | succ depth ih =>
    unfold canReach at h
    split at h
    · cases h
    · next hne =>
      split at h
      · next hmem =>
        obtain ⟨-, rfl⟩ := Prod.mk.inj (Option.some.inj h)
        exact ⟨.refl, hmem⟩
      · obtain ⟨hexplored, hchildren⟩ := explored_anyReach (fun c v v' => ih) h
        refine ⟨⟨fun x hx => hexplored.subset (List.mem_cons_of_mem _ hx), fun x hx hnot => ?_⟩,
          hexplored.subset List.mem_cons_self⟩
        by_cases hx' : x = current
        · exact hx' ▸ ⟨hne, hchildren⟩
        · exact hexplored.closed x hx fun hcons => (List.mem_cons.mp hcons).elim hx' hnot

/-- From a fresh start, the search that is through without a hit has covered all that can be reached. -/
theorem not_reaches_of_false {depth : ℕ} {current : α}
    (h : canReach children target depth current [] = some (false, visited')) :
    ¬ReflTransGen (Step children) current target := by
  obtain ⟨hexplored, hcurrent⟩ := explored_of_false h
  intro hreaches
  have hvisited : ∀ x, ReflTransGen (Step children) current x → x ∈ visited' := fun x hx => by
    induction hx with
    | refl => exact hcurrent
    | tail _ hstep ih => exact (hexplored.closed _ ih List.not_mem_nil).2 _ hstep
  exact (hexplored.closed target (hvisited target hreaches) List.not_mem_nil).1 rfl

/-! ## Out of depth -/

variable (children target) in
/-- A path along the edges, through as many nodes as given before its last one, all different and none of them the
target. -/
def LongPath (length : ℕ) (first : α) : Prop :=
  ∃ path last, path.length = length ∧ path.Nodup ∧ target ∉ path ∧ (path ++ [last]).head? = some first ∧
    List.IsChain (Step children) (path ++ [last])

/-- The nodes on the way down are all different: those entered before have been visited. -/
theorem path_of_none {depth : ℕ} {current : α} (h : canReach children target depth current visited = none) :
    ∃ path last, path.length = depth ∧ path.Nodup ∧ (∀ x ∈ path, x ∉ visited ∧ x ≠ target) ∧
      (path ++ [last]).head? = some current ∧ List.IsChain (Step children) (path ++ [last]) := by
  induction depth generalizing current visited with
  | zero => exact ⟨[], current, rfl, List.nodup_nil, fun _ hx => (nomatch hx), rfl, List.isChain_singleton _⟩
  | succ depth ih =>
    unfold canReach at h
    split at h
    · cases h
    · next hne =>
      split at h
      · cases h
      · next hfresh =>
        obtain ⟨c, hc, v, hsub, hnone⟩ :=
          exists_of_anyReach_none (fun c v v' hfalse => (explored_of_false hfalse).1.subset) h
        obtain ⟨path, last, hlength, hnodup, hpath, hhead, hchain⟩ := ih hnone
        refine ⟨current :: path, last, by rw [List.length_cons, hlength], ?_, ?_, rfl, ?_⟩
        · exact List.nodup_cons.mpr ⟨fun hmem => (hpath current hmem).1 (hsub List.mem_cons_self), hnodup⟩
        · refine List.forall_mem_cons.mpr ⟨⟨hfresh, hne⟩, fun x hx => ⟨fun hv => ?_, (hpath x hx).2⟩⟩
          exact (hpath x hx).1 (hsub (List.mem_cons_of_mem _ hv))
        · rw [List.cons_append, List.isChain_cons]
          refine ⟨fun y hy => ?_, hchain⟩
          rw [hhead] at hy
          exact Option.some.inj hy ▸ hc

theorem longPath_of_none {depth : ℕ} {current : α} (h : canReach children target depth current [] = none) :
    LongPath children target depth current := by
  obtain ⟨path, last, hlength, hnodup, hpath, hhead, hchain⟩ := path_of_none h
  exact ⟨path, last, hlength, hnodup, fun hmem => (hpath target hmem).2 rfl, hhead, hchain⟩

end Outcomes

end Search
