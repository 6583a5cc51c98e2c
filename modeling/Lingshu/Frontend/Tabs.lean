import Lingshu.Interaction.Run
import Mathlib.Data.List.Nodup

/-! # Open tabs

The store of `tab-store.ts`. Opening a tab in a full list closes the first clean tab of the list, and the list already has
the new tab in it. -/
namespace Lingshu.Frontend
open Interaction
set_option autoImplicit false

/-! ## The store -/

/-- `Omit<Tab, "isDirty">`. -/
structure NewTab where
  id : String
  title : String
  path : String
  module : String
  deriving DecidableEq

structure Tab extends NewTab where
  isDirty : Bool
  deriving DecidableEq

/-- `{ ...tab, isDirty: false }`. -/
def NewTab.clean (tab : NewTab) : Tab := { tab with isDirty := false }

structure TabState where
  tabs : List Tab
  activeTabId : Option String
  deriving DecidableEq

def maxTabs : ℕ := 20

/-- `xs[i]`; `undefined` out of range. -/
def elementAt {α : Type} (xs : List α) : Int → Option α
  | .ofNat i => xs[i]?
  | .negSucc _ => none

/-- `xs.findIndex(p)`. -/
def findIndex {α : Type} (p : α → Bool) (xs : List α) : Int :=
  match xs.findIdx? p with
  | some i => i
  | none => -1

/-- LRU eviction, of the first clean tab. -/
def evict (tabs : List Tab) : List Tab :=
  match tabs.filter fun t => !t.isDirty with
  | [] => tabs
  | clean :: _ => tabs.filter fun t => t.id ≠ clean.id

namespace TabState

def initial : TabState := ⟨[], none⟩

def ids (s : TabState) : List String := s.tabs.map fun t => t.id

def openTab (s : TabState) (tab : NewTab) : TabState :=
  if s.tabs.any fun t => t.id = tab.id then { s with activeTabId := some tab.id }
  else
    let newTabs := s.tabs ++ [tab.clean]
    { tabs := if newTabs.length > maxTabs then evict newTabs else newTabs
      activeTabId := some tab.id }

def closeTab (s : TabState) (id : String) : TabState :=
  let newTabs := s.tabs.filter fun t => t.id ≠ id
  let idx := findIndex (fun t => t.id = id) s.tabs
  { tabs := newTabs
    activeTabId :=
      if s.activeTabId = some id then (elementAt newTabs (min idx (newTabs.length - 1))).map fun t => t.id
      else s.activeTabId }

def activateTab (s : TabState) (id : String) : TabState := { s with activeTabId := some id }

def markDirty (s : TabState) (id : String) (isDirty : Bool) : TabState :=
  { s with tabs := s.tabs.map fun t => if t.id = id then { t with isDirty } else t }

def closeAllTabs (_ : TabState) : TabState := ⟨[], none⟩

def closeOtherTabs (s : TabState) (id : String) : TabState :=
  { tabs := s.tabs.filter fun t => t.id = id
    activeTabId := some id }

/-- What `persist` keeps, and the store starts with when the page is loaded again. -/
def partialize (s : TabState) : TabState := { s with tabs := s.tabs.map fun t => { t with isDirty := false } }

end TabState

theorem elementAt_mem {α : Type} {xs : List α} {i : Int} {x : α} (h : elementAt xs i = some x) : x ∈ xs := by
  cases i with
  | ofNat i => exact List.mem_of_getElem? h
  | negSucc i => cases h

theorem findIndex_of_mem {α : Type} {p : α → Bool} {xs : List α} {x : α} (hx : x ∈ xs) (hp : p x = true) :
    0 ≤ findIndex p xs := by
  unfold findIndex
  cases h : xs.findIdx? p with
  | none => exact absurd hp (List.findIdx?_eq_none_iff.mp h x hx ▸ Bool.false_ne_true)
  | some i => exact Int.natCast_nonneg i

theorem elementAt_min {α : Type} {xs : List α} {i : Int} (hi : 0 ≤ i) (hxs : 0 < xs.length) :
    ∃ x, elementAt xs (min i (xs.length - 1)) = some x := by
  obtain ⟨n, hn⟩ := Int.eq_ofNat_of_zero_le (show 0 ≤ min i ((xs.length : Int) - 1) by omega)
  have hlt : n < xs.length := by omega
  rw [hn]
  exact ⟨xs[n], List.getElem?_eq_getElem hlt⟩

/-! ## Runs -/

inductive TabEvent where
  | openTab (tab : NewTab)
  | closeTab (id : String)
  | activateTab (id : String)
  | markDirty (id : String) (isDirty : Bool)
  | closeAllTabs
  | closeOtherTabs (id : String)
  | reload

namespace TabState

def next (s : TabState) : TabEvent → TabState
  | .openTab tab => s.openTab tab
  | .closeTab id => s.closeTab id
  | .activateTab id => s.activateTab id
  | .markDirty id isDirty => s.markDirty id isDirty
  | .closeAllTabs => s.closeAllTabs
  | .closeOtherTabs id => s.closeOtherTabs id
  | .reload => s.partialize

/-- The tab to be activated, or to be left alone, is open. -/
def Names (s : TabState) : TabEvent → Prop
  | .activateTab id | .closeOtherTabs id => id ∈ s.ids
  | _ => True

instance Names.decidable (s : TabState) : ∀ e, Decidable (s.Names e)
  | .activateTab id | .closeOtherTabs id => inferInstanceAs (Decidable (id ∈ s.ids))
  | .openTab _ | .closeTab _ | .markDirty .. | .closeAllTabs | .reload => inferInstanceAs (Decidable True)

structure Sound (s : TabState) : Prop where
  unique : s.ids.Nodup
  bounded : s.tabs.length ≤ maxTabs ∨ ∀ t ∈ s.tabs, t.isDirty = true
  active : ∀ id, s.activeTabId = some id → id ∈ s.ids
  shown : s.tabs ≠ [] → s.activeTabId ≠ none

/-- Opening the tab keeps all unsaved changes, and the tab is then open and active. -/
structure Opens (s : TabState) (tab : NewTab) : Prop where
  kept : ∀ t ∈ s.tabs, t.isDirty = true → t ∈ (s.openTab tab).tabs
  isOpen : tab.id ∈ (s.openTab tab).ids
  isActive : (s.openTab tab).activeTabId = some tab.id

/-- What is asked of a step. -/
structure Keeps (s : TabState) (e : TabEvent) : Prop where
  sound : (s.next e).Sound
  opens : ∀ tab, e = .openTab tab → s.Opens tab

/-- A new tab is opened below the bound, or besides a clean tab. -/
def HasRoom (s : TabState) : TabEvent → Prop
  | .openTab tab => tab.id ∈ s.ids ∨ s.tabs.length < maxTabs ∨ ∃ t ∈ s.tabs, t.isDirty = false
  | _ => True

/-! ## One step -/

variable {s : TabState} {tab : NewTab} {id : String}

theorem mem_ids : id ∈ s.ids ↔ ∃ t ∈ s.tabs, t.id = id := List.mem_map

theorem openTab_of_mem (h : tab.id ∈ s.ids) : s.openTab tab = { s with activeTabId := some tab.id } := by
  obtain ⟨t, ht, hid⟩ := mem_ids.mp h
  exact if_pos (List.any_eq_true.mpr ⟨t, ht, decide_eq_true hid⟩)

theorem openTab_of_not_mem (h : tab.id ∉ s.ids) : s.openTab tab =
    ⟨if (s.tabs ++ [tab.clean]).length > maxTabs then evict (s.tabs ++ [tab.clean]) else s.tabs ++ [tab.clean],
      some tab.id⟩ := by
  refine if_neg fun hany => h ?_
  obtain ⟨t, ht, hid⟩ := List.any_eq_true.mp hany
  exact mem_ids.mpr ⟨t, ht, of_decide_eq_true hid⟩

/-- The invariant of the runs with room: the bound is never exceeded. -/
structure Tidy (s : TabState) : Prop where
  unique : s.ids.Nodup
  bounded : s.tabs.length ≤ maxTabs
  active : ∀ id, s.activeTabId = some id → id ∈ s.ids
  shown : s.tabs ≠ [] → s.activeTabId ≠ none

theorem Tidy.sound (h : s.Tidy) : s.Sound := ⟨h.unique, .inl h.bounded, h.active, h.shown⟩

/-- The ids of a list that has the same tabs up to their other fields. -/
theorem ids_map {f : Tab → Tab} (hf : ∀ t, (f t).id = t.id) : (s.tabs.map f).map (fun t => t.id) = s.ids := by
  rw [List.map_map]
  exact List.map_congr_left fun t _ => hf t

theorem Tidy.map (h : s.Tidy) {f : Tab → Tab} (hf : ∀ t, (f t).id = t.id) : Tidy { s with tabs := s.tabs.map f } where
  unique := by
    rw [ids, ids_map hf]
    exact h.unique
  bounded := by
    rw [List.length_map]
    exact h.bounded
  active id hid := by
    rw [ids, ids_map hf]
    exact h.active id hid
  shown hne := h.shown fun hnil => hne (List.map_eq_nil_iff.mpr hnil)

/-- Leaving out tabs, with an active one among the rest. -/
theorem Tidy.filter (h : s.Tidy) (p : Tab → Bool) {active : Option String}
    (hactive : ∀ id, active = some id → ∃ t ∈ s.tabs, p t = true ∧ t.id = id)
    (hshown : s.tabs.filter p ≠ [] → active ≠ none) : Tidy ⟨s.tabs.filter p, active⟩ where
  unique := h.unique.sublist (List.filter_sublist.map _)
  bounded := Nat.le_trans (List.length_filter_le _ _) h.bounded
  active id hid := by
    obtain ⟨t, ht, hp, hid⟩ := hactive id hid
    exact mem_ids.mpr ⟨t, List.mem_filter.mpr ⟨ht, hp⟩, hid⟩
  shown := hshown

theorem Tidy.activate (h : s.Tidy) (hid : id ∈ s.ids) : Tidy { s with activeTabId := some id } where
  unique := h.unique
  bounded := h.bounded
  active _ hid' := Option.some.inj hid' ▸ hid
  shown _ := Option.some_ne_none id

theorem Tidy.closeTab (h : s.Tidy) (id : String) : (s.closeTab id).Tidy := by
  refine h.filter (fun t => t.id ≠ id) ?_ ?_
  · intro id' hid'
    by_cases hactive : s.activeTabId = some id
    · rw [if_pos hactive, Option.map_eq_some_iff] at hid'
      obtain ⟨t, ht, hid'⟩ := hid'
      obtain ⟨hmem, hne⟩ := List.mem_filter.mp (elementAt_mem ht)
      exact ⟨t, hmem, hne, hid'⟩
    · rw [if_neg hactive] at hid'
      obtain ⟨t, ht, rfl⟩ := mem_ids.mp (h.active id' hid')
      refine ⟨t, ht, decide_eq_true fun hid => hactive (hid ▸ hid'), rfl⟩
  · intro hne
    by_cases hactive : s.activeTabId = some id
    · rw [if_pos hactive]
      obtain ⟨t, ht, hid⟩ := mem_ids.mp (h.active id hactive)
      obtain ⟨x, hx⟩ := elementAt_min (findIndex_of_mem (p := fun t => t.id = id) ht (decide_eq_true hid)) (List.length_pos_of_ne_nil hne)
      rw [hx]
      exact Option.some_ne_none _
    · rw [if_neg hactive]
      refine h.shown fun hnil => hne ?_
      rw [hnil]
      rfl

theorem evict_eq {tabs : List Tab} {c : Tab} {cs : List Tab} (h : tabs.filter (fun t => !t.isDirty) = c :: cs) :
    evict tabs = tabs.filter fun t => t.id ≠ c.id := by
  rw [evict, h]

/-- Next to unsaved changes only, the new tab is the one that goes. -/
theorem evict_of_dirty (hnew : tab.id ∉ s.ids) (hdirty : ∀ t ∈ s.tabs, t.isDirty = true) :
    evict (s.tabs ++ [tab.clean]) = s.tabs := by
  have hclean : (s.tabs ++ [tab.clean]).filter (fun t => !t.isDirty) = [tab.clean] := by
    rw [List.filter_append, List.filter_eq_nil_iff.mpr fun t ht => by simp [hdirty t ht]]
    rfl
  rw [evict_eq hclean, List.filter_append, List.filter_eq_self.mpr]
  · simp [NewTab.clean]
  · exact fun t ht => decide_eq_true fun hid => hnew (mem_ids.mpr ⟨t, ht, hid⟩)

theorem evict_of_clean (hnew : tab.id ∉ s.ids) (hclean : ∃ t ∈ s.tabs, t.isDirty = false) :
    ∃ c ∈ s.tabs, c.isDirty = false ∧
      evict (s.tabs ++ [tab.clean]) = s.tabs.filter (fun t => t.id ≠ c.id) ++ [tab.clean] := by
  cases hcleans : s.tabs.filter fun t => !t.isDirty with
  | nil =>
    obtain ⟨t, ht, hc⟩ := hclean
    exact absurd (List.filter_eq_nil_iff.mp hcleans t ht) (by simp [hc])
  | cons c cs =>
    obtain ⟨hc, hfirst⟩ : c ∈ s.tabs ∧ (!c.isDirty) = true :=
      List.mem_filter.mp (hcleans ▸ List.mem_cons_self)
    refine ⟨c, hc, by simpa using hfirst, ?_⟩
    have hne : tab.id ≠ c.id := fun hid => hnew (mem_ids.mpr ⟨c, hc, hid.symm⟩)
    have hcons : (s.tabs ++ [tab.clean]).filter (fun t => !t.isDirty) =
        c :: (cs ++ [tab.clean].filter fun t => !t.isDirty) := by
      rw [List.filter_append, hcleans, List.cons_append]
    rw [evict_eq hcons, List.filter_append]
    simp [NewTab.clean, hne]

/-- A new tab comes last, after all the tabs that are kept. -/
theorem openTab_of_room (h : s.Tidy) (hnew : tab.id ∉ s.ids)
    (hroom : s.tabs.length < maxTabs ∨ ∃ t ∈ s.tabs, t.isDirty = false) :
    ∃ p : Tab → Bool, (∀ t ∈ s.tabs, t.isDirty = true → p t = true) ∧ (s.tabs.filter p).length < maxTabs ∧
      s.openTab tab = ⟨s.tabs.filter p ++ [tab.clean], some tab.id⟩ := by
  rw [openTab_of_not_mem hnew, List.length_append, List.length_singleton]
  by_cases hfull : s.tabs.length + 1 > maxTabs
  · obtain ⟨c, hc, hclean, hevict⟩ := evict_of_clean hnew (hroom.resolve_left (Nat.not_lt.mpr (Nat.le_of_lt_succ hfull)))
    refine ⟨fun t => t.id ≠ c.id, ?_, ?_, ?_⟩
    · intro t ht hdirty
      refine decide_eq_true fun hid => ?_
      rw [List.inj_on_of_nodup_map h.unique ht hc hid, hclean] at hdirty
      cases hdirty
    · refine Nat.lt_of_lt_of_le (List.length_filter_lt_length_iff_exists.mpr ⟨c, hc, by simp⟩) h.bounded
    · rw [if_pos hfull, hevict]
  · refine ⟨fun _ => true, fun _ _ _ => rfl, ?_, ?_⟩
    · rw [List.filter_true]
      exact Nat.lt_of_succ_le (Nat.le_of_not_gt hfull)
    · rw [if_neg hfull, List.filter_true]

theorem Tidy.openTab (h : s.Tidy) (hroom : s.HasRoom (.openTab tab)) : (s.openTab tab).Tidy ∧ s.Opens tab := by
  by_cases hmem : tab.id ∈ s.ids
  · rw [openTab_of_mem hmem]
    refine ⟨h.activate hmem, ?_, ?_, ?_⟩ <;> rw [openTab_of_mem hmem]
    · exact fun t ht _ => ht
    · exact hmem
  · obtain ⟨p, hkept, hlt, heq⟩ := openTab_of_room h hmem (hroom.resolve_left hmem)
    have hlast : tab.id ∈ (s.openTab tab).ids := by
      rw [heq]
      exact mem_ids.mpr ⟨tab.clean, List.mem_append_right _ List.mem_cons_self, rfl⟩
    refine ⟨⟨?_, ?_, ?_, ?_⟩, ?_, hlast, ?_⟩
    · have hsub : List.Sublist ((s.tabs.filter p).map fun t => t.id) s.ids := List.filter_sublist.map _
      rw [heq, ids, List.map_append, List.map_singleton]
      refine List.nodup_append.mpr ⟨h.unique.sublist hsub, List.nodup_singleton _, ?_⟩
      rintro a ha b hb rfl
      exact hmem (List.mem_singleton.mp hb ▸ hsub.subset ha)
    · rw [heq, List.length_append, List.length_singleton]
      exact hlt
    · intro id hid
      rw [heq] at hid
      obtain rfl := Option.some.inj hid
      exact hlast
    · rw [heq]
      exact fun _ => Option.some_ne_none _
    · intro t ht hdirty
      rw [heq]
      exact List.mem_append_left _ (List.mem_filter.mpr ⟨ht, hkept t ht hdirty⟩)
    · rw [heq]

/-- Without room, the new tab is not open. -/
theorem not_opens (hroom : ¬ s.HasRoom (.openTab tab)) : ¬ s.Opens tab := by
  obtain ⟨hnew, hfull, hdirty⟩ : tab.id ∉ s.ids ∧ maxTabs ≤ s.tabs.length ∧ ∀ t ∈ s.tabs, t.isDirty = true := by
    simpa [HasRoom] using hroom
  intro hopens
  have hmem := hopens.isOpen
  have hlong : (s.tabs ++ [tab.clean]).length > maxTabs := by
    rw [List.length_append]
    exact Nat.lt_succ_of_le hfull
  rw [openTab_of_not_mem hnew, if_pos hlong, evict_of_dirty hnew hdirty] at hmem
  exact hnew hmem

theorem tidy_empty : Tidy ⟨[], none⟩ where
  unique := List.nodup_nil
  bounded := Nat.zero_le _
  active _ hid := by cases hid
  shown hne := absurd rfl hne

/-- One step, of an event that names open tabs and has room. -/
theorem Tidy.next (h : s.Tidy) {e : TabEvent} (hnames : s.Names e) (hroom : s.HasRoom e) : (s.next e).Tidy := by
  cases e with
  | openTab tab => exact (h.openTab hroom).1
  | closeTab id => exact h.closeTab id
  | activateTab id => exact h.activate hnames
  | markDirty id isDirty =>
    refine h.map fun t => ?_
    split <;> rfl
  | closeAllTabs => exact tidy_empty
  | closeOtherTabs id =>
    refine h.filter (fun t => t.id = id) ?_ fun _ => Option.some_ne_none id
    rintro id' hid'
    obtain ⟨t, ht, hid⟩ := mem_ids.mp hnames
    exact ⟨t, ht, decide_eq_true hid, hid.trans (Option.some.inj hid')⟩
  | reload => exact h.map fun _ => rfl

end TabState

/-- In a run that activates, and leaves alone, open tabs only: the invariants hold after every step, and every tab that
is opened is open and active, if and only if every new tab finds room. -/
theorem keeps_iff_hasRoom {es : List TabEvent} (h : StepsMeet TabState.next TabState.Names .initial es) :
    StepsMeet TabState.next TabState.Keeps .initial es ↔ StepsMeet TabState.next TabState.HasRoom .initial es := by
  refine StepsMeet.iff_of_inv (K := TabState.Tidy) ?_ ?_ TabState.tidy_empty h
  · intro s e htidy hnames
    constructor
    · intro hkeeps
      cases e with
      | openTab tab => exact by_contra fun hroom => TabState.not_opens hroom (hkeeps.opens tab rfl)
      | closeTab | activateTab | markDirty | closeAllTabs | closeOtherTabs | reload => trivial
    · intro hroom
      refine ⟨(htidy.next hnames hroom).sound, ?_⟩
      rintro tab rfl
      exact (htidy.openTab hroom).2
  · exact fun s e htidy hnames hroom => htidy.next hnames hroom

/-- The object with the rid, as a tab. -/
def objectTab (rid : String) : NewTab := ⟨rid, rid, "/ontology/" ++ rid, "ontology"⟩

/-- Two tabs, the first one active again, and then alone. -/
theorem keeps_iff_hasRoom_two :
    StepsMeet TabState.next TabState.Keeps .initial
      [.openTab (objectTab "a"), .openTab (objectTab "b"), .activateTab "a", .closeOtherTabs "a", .closeTab "a"] ↔
    StepsMeet TabState.next TabState.HasRoom .initial
      [.openTab (objectTab "a"), .openTab (objectTab "b"), .activateTab "a", .closeOtherTabs "a", .closeTab "a"] :=
  keeps_iff_hasRoom (by decide +kernel)

/-- Twenty tabs, all with unsaved changes. -/
def unsavedTabs : List TabEvent :=
  (List.range 20).flatMap fun n => [.openTab (objectTab (toString n)), .markDirty (toString n) true]

/-- One more tab, besides twenty tabs with unsaved changes, is not open afterwards. -/
theorem unsaved_not_kept : StepsMeet TabState.next TabState.Names .initial (unsavedTabs ++ [.openTab (objectTab "20")]) ∧
    ¬ StepsMeet TabState.next TabState.Keeps .initial (unsavedTabs ++ [.openTab (objectTab "20")]) := by
  refine ⟨by decide +kernel, fun h => ?_⟩
  have hlast : TabState.Keeps (runFrom TabState.next .initial unsavedTabs) (.openTab (objectTab "20")) :=
    (stepsMeet_append.mp h).2.1
  have hclosed : "20" ∉ ((runFrom TabState.next .initial unsavedTabs).openTab (objectTab "20")).ids := by
    decide +kernel
  exact hclosed (hlast.opens _ rfl).isOpen

end Lingshu.Frontend
