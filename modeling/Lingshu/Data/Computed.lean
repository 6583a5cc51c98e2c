import Lingshu.Data.Masking
import Mathlib.Data.List.Induction
import Mathlib.Data.List.Perm.Basic

/-! # The order of computed fields

`apply_virtual_fields` computes one field after the other, each over the row as it has become. A field that refers to a
later one sees what stands under that name in the row itself, or nothing. -/
namespace Lingshu.Data
open Json
set_option autoImplicit false

variable (py : Python)

/-- Along references among the computed fields a rank goes down. -/
def Acyclic (fields : Assoc String) : Prop :=
  ∃ rank : String → ℕ, ∀ e ∈ fields, ∀ id ∈ readsOf py e.2, id ∈ fields.keys → rank id < rank e.1

/-- Every order of the fields ends in the same row, and in that row each field has the value of its expression. -/
structure OrderFree (row : Row) (fields : Assoc String) : Prop where
  same : ∀ order, order.Perm fields → ∀ name,
    (applyVirtualFields py row order).lookup name = (applyVirtualFields py row fields).lookup name
  equation : ∀ e ∈ fields, (applyVirtualFields py row fields).lookup e.1 =
    some (evaluateExpression py e.2 (applyVirtualFields py row fields))

/-- The row with some fields filled in, each as it is computed over the row itself. -/
def filled (row : Row) (part : Assoc String) : Row :=
  part.foldl (fun r e => r.set e.1 (evaluateExpression py e.2 row)) row

/-- Fields that are filled in change no expression. -/
def Steady (row : Row) (fields : Assoc String) : Prop :=
  ∀ part, (∀ e ∈ part, e ∈ fields) → ∀ e ∈ fields,
    evaluateExpression py e.2 (filled py row part) = evaluateExpression py e.2 row

section Lookups
variable {α β : Type}

theorem lookup_foldl_set_of_notMem {value : String × α → β} {part : Assoc α} {name : String} (h : name ∉ part.keys)
    (d : Assoc β) : (part.foldl (fun r e => r.set e.1 (value e)) d).lookup name = d.lookup name := by
  induction part generalizing d with
  | nil => rfl
  | cons e part ih =>
    have hne : name ≠ e.1 := fun heq => h (heq ▸ List.mem_cons_self)
    have hrest : name ∉ Assoc.keys part := fun hmem => h (List.mem_cons_of_mem _ hmem)
    rw [List.foldl_cons, ih hrest, Assoc.lookup_set, if_neg hne]

theorem lookup_foldl_set_of_mem {value : String × α → β} {part : Assoc α} {e : String × α} (he : e ∈ part)
    (hsame : ∀ e' ∈ part, e'.1 = e.1 → e' = e) (d : Assoc β) :
    (part.foldl (fun r e => r.set e.1 (value e)) d).lookup e.1 = some (value e) := by
  induction part generalizing d with
  | nil => cases he
  | cons e' part ih =>
    rw [List.foldl_cons]
    by_cases hrest : e ∈ part
    · exact ih hrest (fun e'' he'' => hsame e'' (List.mem_cons_of_mem _ he'')) _
    · obtain rfl := (List.mem_cons.mp he).resolve_right hrest
      have hname : e.1 ∉ Assoc.keys part := by
        intro hmem
        obtain ⟨e'', he'', hkey⟩ := List.mem_map.mp hmem
        rw [hsame e'' (List.mem_cons_of_mem _ he'') hkey] at he''
        exact hrest he''
      rw [lookup_foldl_set_of_notMem hname, Assoc.lookup_set, if_pos rfl]

/-- In a dict a key has one entry. -/
theorem eq_of_key {fields : Assoc α} (hnodup : fields.keys.Nodup) {e e' : String × α} (he : e ∈ fields)
    (he' : e' ∈ fields) (h : e'.1 = e.1) : e' = e := by
  have hlookup : fields.lookup e.1 = some e.2 := Assoc.lookup_of_mem hnodup he
  have hlookup' : fields.lookup e.1 = some e'.2 := Assoc.lookup_of_mem hnodup (h ▸ he')
  exact Prod.ext h (Option.some.inj (hlookup'.symm.trans hlookup))

end Lookups

section Orders
variable {py} {row : Row} {fields part order : Assoc String} {name : String}

theorem lookup_filled (hnodup : fields.keys.Nodup) (hpart : ∀ e ∈ part, e ∈ fields) {e : String × String}
    (he : e ∈ part) : (filled py row part).lookup e.1 = some (evaluateExpression py e.2 row) :=
  lookup_foldl_set_of_mem he (fun e' he' => eq_of_key hnodup (hpart e he) (hpart e' he')) row

theorem lookup_filled_of_notMem (h : name ∉ part.keys) : (filled py row part).lookup name = row.lookup name :=
  lookup_foldl_set_of_notMem h row

/-- What is filled in depends on the fields, not on their order. -/
theorem lookup_filled_congr (hnodup : fields.keys.Nodup) {part' : Assoc String} (hpart : ∀ e ∈ part, e ∈ fields)
    (hpart' : ∀ e ∈ part', e ∈ fields) (hsame : ∀ e : String × String, e.1 = name → (e ∈ part ↔ e ∈ part')) :
    (filled py row part).lookup name = (filled py row part').lookup name := by
  by_cases hname : name ∈ part.keys
  · obtain ⟨e, he, rfl⟩ := List.mem_map.mp hname
    rw [lookup_filled hnodup hpart he, lookup_filled hnodup hpart' ((hsame e rfl).mp he)]
  · have hname' : name ∉ part'.keys := by
      intro hmem
      obtain ⟨e, he, rfl⟩ := List.mem_map.mp hmem
      exact hname (List.mem_map_of_mem ((hsame e rfl).mpr he))
    rw [lookup_filled_of_notMem hname, lookup_filled_of_notMem hname']

theorem applyVirtualFields_append (row : Row) (part rest : Assoc String) :
    applyVirtualFields py row (part ++ rest) = applyVirtualFields py (applyVirtualFields py row part) rest :=
  List.foldl_append ..

/-! ## Steady rows -/

/-- Each field is computed as over the row itself. -/
theorem Steady.lookup_applyVirtualFields (h : Steady py row fields) (hpart : ∀ e ∈ part, e ∈ fields) (name : String) :
    (applyVirtualFields py row part).lookup name = (filled py row part).lookup name := by
  induction part using List.reverseRecOn generalizing name with
  | nil => rfl
  | append_singleton part e ih =>
    have hrest : ∀ e ∈ part, e ∈ fields := fun e' he' => hpart e' (List.mem_append_left _ he')
    have heval : evaluateExpression py e.2 (applyVirtualFields py row part) = evaluateExpression py e.2 row :=
      (evaluateExpression_congr fun id _ => ih hrest id).trans
        (h part hrest e (hpart e (List.mem_append_right _ List.mem_cons_self)))
    have happly : applyVirtualFields py row (part ++ [e]) =
        (applyVirtualFields py row part).set e.1 (evaluateExpression py e.2 (applyVirtualFields py row part)) :=
      applyVirtualFields_append row part [e]
    have hfilled : filled py row (part ++ [e]) = (filled py row part).set e.1 (evaluateExpression py e.2 row) :=
      List.foldl_append ..
    rw [happly, hfilled, Assoc.lookup_set, Assoc.lookup_set, heval, ih hrest]

theorem Steady.orderFree (hnodup : fields.keys.Nodup) (h : Steady py row fields) : OrderFree py row fields := by
  constructor
  · intro order hperm name
    have horder : ∀ e ∈ order, e ∈ fields := fun e he => hperm.mem_iff.mp he
    rw [h.lookup_applyVirtualFields horder, h.lookup_applyVirtualFields fun e he => he]
    exact lookup_filled_congr hnodup horder (fun e he => he) fun e _ => hperm.mem_iff
  · intro e he
    have hfinished : evaluateExpression py e.2 (applyVirtualFields py row fields) = evaluateExpression py e.2 row :=
      (evaluateExpression_congr fun id _ => h.lookup_applyVirtualFields (fun e he => he) id).trans
        (h fields (fun e he => he) e he)
    rw [h.lookup_applyVirtualFields fun e he => he, lookup_filled hnodup (fun e he => he) he, hfinished]

/-- Fields that refer to no computed field. -/
theorem steady_of_physical (h : ∀ e ∈ fields, ∀ id ∈ readsOf py e.2, id ∉ fields.keys) : Steady py row fields := by
  intro part hpart e he
  refine evaluateExpression_congr fun id hid => lookup_filled_of_notMem fun hmem => ?_
  obtain ⟨e', he', rfl⟩ := List.mem_map.mp hmem
  exact h e he e'.1 hid (List.mem_map_of_mem (hpart e' he'))

/-! ## Every order -/

/-- Nothing after a field changes it. -/
theorem lookup_of_split {rest : Assoc String} {e : String × String} (hnodup : (part ++ e :: rest).keys.Nodup) :
    (applyVirtualFields py row (part ++ e :: rest)).lookup e.1 =
      some (evaluateExpression py e.2 (applyVirtualFields py row part)) := by
  have hkeys : (Assoc.keys part ++ e.1 :: Assoc.keys rest).Nodup := by
    rw [Assoc.keys, List.map_append, List.map_cons] at hnodup
    exact hnodup
  have hlast : e.1 ∉ Assoc.keys rest := (List.nodup_cons.mp (List.nodup_append.mp hkeys).2.1).1
  have happly : applyVirtualFields py row (part ++ e :: rest) =
      applyVirtualFields py ((applyVirtualFields py row part).set e.1
        (evaluateExpression py e.2 (applyVirtualFields py row part))) rest := applyVirtualFields_append row part (e :: rest)
  rw [happly, Data.lookup_applyVirtualFields hlast, Assoc.lookup_set, if_pos rfl]

theorem nodup_of_perm (hnodup : fields.keys.Nodup) (hperm : order.Perm fields) : order.keys.Nodup :=
  (List.Perm.nodup_iff (hperm.map Prod.fst)).mpr hnodup

/-- Computed first, a field is computed over the row itself. -/
theorem OrderFree.lookup_eq (h : OrderFree py row fields) (hnodup : fields.keys.Nodup) {e : String × String}
    (he : e ∈ fields) (hperm : order.Perm fields) :
    (applyVirtualFields py row order).lookup e.1 = some (evaluateExpression py e.2 row) := by
  have hfirst : (e :: fields.erase e).Perm fields := (List.perm_cons_erase he).symm
  rw [h.same order hperm, ← h.same _ hfirst]
  exact @lookup_of_split py row [] _ _ (nodup_of_perm hnodup hfirst)

/-- In the middle of an order the fields that are done have their last values. -/
theorem OrderFree.lookup_part (h : OrderFree py row fields) (hnodup : fields.keys.Nodup) {rest : Assoc String}
    (hperm : (part ++ rest).Perm fields) (name : String) :
    (applyVirtualFields py row part).lookup name = (filled py row part).lookup name := by
  have hpart : ∀ e ∈ part, e ∈ fields := fun e he => hperm.mem_iff.mp (List.mem_append_left _ he)
  by_cases hname : name ∈ part.keys
  · obtain ⟨e, he, rfl⟩ := List.mem_map.mp hname
    have hkeys : (Assoc.keys part ++ Assoc.keys rest).Nodup := by
      have hall := nodup_of_perm hnodup hperm
      rwa [Assoc.keys, List.map_append] at hall
    have hlast : e.1 ∉ Assoc.keys rest := fun hmem =>
      (List.nodup_append.mp hkeys).2.2 e.1 (List.mem_map_of_mem he) e.1 hmem rfl
    have hkept := @Data.lookup_applyVirtualFields py _ _ hlast (applyVirtualFields py row part)
    rw [← applyVirtualFields_append, h.lookup_eq hnodup (hpart e he) hperm] at hkept
    rw [← hkept, lookup_filled hnodup hpart he]
  · rw [Data.lookup_applyVirtualFields hname, lookup_filled_of_notMem hname]

theorem OrderFree.steady (h : OrderFree py row fields) (hnodup : fields.keys.Nodup) (hacyclic : Acyclic py fields) :
    Steady py row fields := by
  obtain ⟨rank, hrank⟩ := hacyclic
  intro part hpart e he
  -- the other fields of the part first, then this one, then the rest
  let before := (fields.erase e).filter fun e' => e' ∈ part
  let after := (fields.erase e).filter fun e' => e' ∉ part
  have hperm : (before ++ e :: after).Perm fields := by
    have hsplit : (before ++ after).Perm (fields.erase e) := by
      have hfilter := List.filter_append_perm (fun e' => decide (e' ∈ part)) (fields.erase e)
      simpa only [before, after, decide_not] using hfilter
    exact List.perm_middle.trans ((List.Perm.cons e hsplit).trans (List.perm_cons_erase he).symm)
  have hbefore : ∀ e' ∈ before, e' ∈ fields := fun e' he' => hperm.mem_iff.mp (List.mem_append_left _ he')
  have hfilled : evaluateExpression py e.2 (filled py row part) = evaluateExpression py e.2 (filled py row before) := by
    refine evaluateExpression_congr fun id hid => lookup_filled_congr hnodup hpart hbefore fun e' hname => ?_
    have hother : e' ∈ fields → e' ≠ e := by
      rintro hmem rfl
      exact absurd (hrank e' he id hid (hname ▸ List.mem_map_of_mem he)) (hname ▸ lt_irrefl _)
    constructor
    · intro hmem
      have hother := hother (hpart e' hmem)
      exact List.mem_filter.mpr ⟨(List.mem_erase_of_ne hother).mpr (hpart e' hmem), by simpa using hmem⟩
    · intro hmem
      simpa using (List.mem_filter.mp hmem).2
  have hcomputed := @lookup_of_split py row _ _ _ (nodup_of_perm hnodup hperm)
  rw [h.lookup_eq hnodup he hperm] at hcomputed
  have hdone : evaluateExpression py e.2 (applyVirtualFields py row before) =
      evaluateExpression py e.2 (filled py row before) :=
    evaluateExpression_congr fun id _ => h.lookup_part hnodup hperm id
  rw [hfilled, ← hdone]
  exact (Option.some.inj hcomputed).symm

end Orders

/-- The order does not count just where no computed field is of use to another. -/
theorem orderFree_iff {row : Row} {fields : Assoc String} (hnodup : fields.keys.Nodup) (hacyclic : Acyclic py fields) :
    OrderFree py row fields ↔ Steady py row fields :=
  ⟨fun h => h.steady hnodup hacyclic, fun h => h.orderFree hnodup⟩

/-- Python as far as it parses single names. -/
def Python.references : Python := { Python.plain with parse := fun source => some (.name source) }

theorem orderFree_physical : OrderFree .references [("a", .int 1)] [("b", "a"), ("c", "a")] :=
  (orderFree_iff .references (by decide) ⟨fun _ => 0, by decide⟩).mpr (steady_of_physical (by decide))

/-- A reference to a later field. -/
theorem order_matters :
    applyVirtualFields .references [("a", .int 1)] [("c", "b"), ("b", "a")] =
        [("a", .int 1), ("c", .null), ("b", .int 1)] ∧
      Acyclic .references [("c", "b"), ("b", "a")] ∧ ¬ OrderFree .references [("a", .int 1)] [("c", "b"), ("b", "a")] := by
  refine ⟨by decide, ⟨fun name => if name = "c" then 1 else 0, by decide⟩, fun h => ?_⟩
  exact absurd (h.equation ("c", "b") List.mem_cons_self) (by decide)

end Lingshu.Data
