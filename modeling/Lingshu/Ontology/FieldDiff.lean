import Lingshu.Json.Equality

/-! # Field diffs

`_compute_field_diff` reports what has to be removed, added and changed to come from the fields of one snapshot to those
of another. -/
namespace Lingshu.Ontology
open Json
set_option autoImplicit false

structure FieldChange where
  old : Value
  new : Value
  deriving DecidableEq

def FieldChange.swap (change : FieldChange) : FieldChange := ⟨change.new, change.old⟩

structure FieldDiff where
  added : Assoc Value := []
  removed : Assoc Value := []
  changed : Assoc FieldChange := []
  deriving DecidableEq

/-- `set(fields_a.keys()) | set(fields_b.keys())`, in the order in which it is walked. -/
structure AllKeys (fieldsA fieldsB : Assoc Value) where
  keys : List String
  nodup : keys.Nodup
  mem_iff : ∀ key, key ∈ keys ↔ key ∈ fieldsA.keys ∨ key ∈ fieldsB.keys

section Diff
variable (fieldsA fieldsB : Assoc Value)

/-- The body of the loop. -/
def diffKey (diff : FieldDiff) (key : String) : FieldDiff :=
  match fieldsA.lookup key, fieldsB.lookup key with
  | none, some new => { diff with added := diff.added.set key new }
  | some old, none => { diff with removed := diff.removed.set key old }
  | some old, some new => if old.equal new then diff else { diff with changed := diff.changed.set key ⟨old, new⟩ }
  | none, none => diff

/-- `_compute_field_diff`. -/
def computeFieldDiff (allKeys : AllKeys fieldsA fieldsB) : FieldDiff := allKeys.keys.foldl (diffKey fieldsA fieldsB) {}

/-- The fields with the removed ones deleted, the added ones added and the changed ones set to their new value. -/
def FieldDiff.patch (diff : FieldDiff) (fields : Assoc Value) : Assoc Value :=
  ((fields.without diff.removed.keys).update diff.added).update (diff.changed.map fun e => (e.1, e.2.new))

/-- `d == e` of two dicts, where a value of `d` may be the very value of `e`. -/
def Gives (d e : Assoc Value) : Prop :=
  ∀ key, Option.Rel (fun v w => v = w ∨ v.equal w = true) (d.lookup key) (e.lookup key)

/-! ## What is reported -/

def addedAt (key : String) : Option Value :=
  match fieldsA.lookup key, fieldsB.lookup key with
  | none, some new => some new
  | _, _ => none

def removedAt (key : String) : Option Value :=
  match fieldsA.lookup key, fieldsB.lookup key with
  | some old, none => some old
  | _, _ => none

def changedAt (key : String) : Option FieldChange :=
  match fieldsA.lookup key, fieldsB.lookup key with
  | some old, some new => if old.equal new then none else some ⟨old, new⟩
  | _, _ => none

end Diff

/-- Of the keys that were seen, the dict has what `f` says. -/
structure Collects {α : Type} (f : String → Option α) (seen : List String) (d : Assoc α) : Prop where
  nodup : d.keys.Nodup
  lookup : ∀ key, d.lookup key = if key ∈ seen then f key else none

section Collects
variable {α : Type} {f : String → Option α} {seen : List String} {d : Assoc α} {key : String}

theorem seen_cons (name : String) : (if name ∈ key :: seen then f name else none) =
    if name = key then f key else if name ∈ seen then f name else none := by
  by_cases hname : name = key
  · subst hname
    rw [if_pos List.mem_cons_self, if_pos rfl]
  · simp only [List.mem_cons, hname, false_or, if_false]

theorem Collects.set (h : Collects f seen d) {v : α} (hv : f key = some v) :
    Collects f (key :: seen) (d.set key v) where
  nodup := Assoc.nodup_keys_set h.nodup key v
  lookup name := by rw [Assoc.lookup_set, h.lookup, seen_cons, hv]

theorem Collects.skip (h : Collects f seen d) (hv : f key = none) : Collects f (key :: seen) d where
  nodup := h.nodup
  lookup name := by
    rw [h.lookup, seen_cons, hv]
    by_cases hname : name = key
    · subst hname
      rw [if_pos rfl, hv, ite_self]
    · rw [if_neg hname]

theorem Collects.all (h : Collects f seen d) (hseen : ∀ key, key ∉ seen → f key = none) (key : String) :
    List.lookup key d = f key := by
  rw [h.lookup]
  split
  · rfl
  next hkey => exact (hseen key hkey).symm

end Collects

section Report
variable {a b : Assoc Value}

/-- The report after the keys that were seen. -/
structure Tells (a b : Assoc Value) (seen : List String) (diff : FieldDiff) : Prop where
  added : Collects (addedAt a b) seen diff.added
  removed : Collects (removedAt a b) seen diff.removed
  changed : Collects (changedAt a b) seen diff.changed

theorem Tells.diffKey {seen : List String} {diff : FieldDiff} (h : Tells a b seen diff) (key : String) :
    Tells a b (key :: seen) (diffKey a b diff key) := by
  unfold Ontology.diffKey
  cases ha : a.lookup key with
  | none =>
    cases hb : b.lookup key with
    | none => exact ⟨h.added.skip (by rw [addedAt, ha, hb]), h.removed.skip (by rw [removedAt, ha, hb]),
        h.changed.skip (by rw [changedAt, ha, hb])⟩
    | some new => exact ⟨h.added.set (by rw [addedAt, ha, hb]), h.removed.skip (by rw [removedAt, ha, hb]),
        h.changed.skip (by rw [changedAt, ha, hb])⟩
  | some old =>
    cases hb : b.lookup key with
    | none => exact ⟨h.added.skip (by rw [addedAt, ha, hb]), h.removed.set (by rw [removedAt, ha, hb]),
        h.changed.skip (by rw [changedAt, ha, hb])⟩
    | some new =>
      have hadded : Collects _ (key :: seen) _ := h.added.skip (by rw [addedAt, ha, hb])
      have hremoved : Collects _ (key :: seen) _ := h.removed.skip (by rw [removedAt, ha, hb])
      by_cases hequal : old.equal new = true
      · simp only [if_pos hequal]
        exact ⟨hadded, hremoved, h.changed.skip (by simp only [changedAt, ha, hb, if_pos hequal])⟩
      · simp only [if_neg hequal]
        exact ⟨hadded, hremoved, h.changed.set (by simp only [changedAt, ha, hb, if_neg hequal])⟩

theorem computeFieldDiff_tells (allKeys : AllKeys a b) :
    Tells a b allKeys.keys.reverse (computeFieldDiff a b allKeys) := by
  have hfrom : ∀ (keys seen : List String) (diff : FieldDiff), Tells a b seen diff →
      Tells a b (keys.reverse ++ seen) (keys.foldl (Ontology.diffKey a b) diff) := by
    intro keys
    induction keys with
    | nil => exact fun _ _ h => h
    | cons key keys ih =>
      intro seen diff h
      rw [List.reverse_cons, List.append_assoc]
      exact ih (key :: seen) _ (h.diffKey key)
  have hempty : Tells a b [] {} := ⟨⟨List.nodup_nil, fun _ => rfl⟩, ⟨List.nodup_nil, fun _ => rfl⟩,
    ⟨List.nodup_nil, fun _ => rfl⟩⟩
  rw [← List.append_nil allKeys.keys.reverse]
  exact hfrom allKeys.keys [] {} hempty

variable (allKeys : AllKeys a b)

/-- Keys that neither has. -/
theorem AllKeys.lookup_none {key : String} (h : key ∉ allKeys.keys.reverse) :
    a.lookup key = none ∧ b.lookup key = none := by
  rw [List.mem_reverse, allKeys.mem_iff, not_or] at h
  exact ⟨Assoc.lookup_eq_none_of_notMem h.1, Assoc.lookup_eq_none_of_notMem h.2⟩

theorem lookup_added (key : String) : (computeFieldDiff a b allKeys).added.lookup key = addedAt a b key :=
  (computeFieldDiff_tells allKeys).added.all (fun key hkey => by
    obtain ⟨ha, hb⟩ := allKeys.lookup_none hkey
    rw [addedAt, ha, hb]) key

theorem lookup_removed (key : String) : (computeFieldDiff a b allKeys).removed.lookup key = removedAt a b key :=
  (computeFieldDiff_tells allKeys).removed.all (fun key hkey => by
    obtain ⟨ha, hb⟩ := allKeys.lookup_none hkey
    rw [removedAt, ha, hb]) key

theorem lookup_changed (key : String) : (computeFieldDiff a b allKeys).changed.lookup key = changedAt a b key :=
  (computeFieldDiff_tells allKeys).changed.all (fun key hkey => by
    obtain ⟨ha, hb⟩ := allKeys.lookup_none hkey
    rw [changedAt, ha, hb]) key

/-! ## Applying a report -/

theorem lookup_map_values {α β : Type} (g : α → β) (d : Assoc α) (key : String) :
    List.lookup key (d.map fun e => (e.1, g e.2)) = (d.lookup key).map g := by
  induction d with
  | nil => rfl
  | cons e d ih =>
    rw [List.map_cons, Assoc.lookup_cons, ih, Assoc.lookup_cons]
    split <;> rfl

theorem lookup_update_nodup {d entries : Assoc Value} (h : entries.keys.Nodup) (key : String) :
    (d.update entries).lookup key = (entries.lookup key).or (d.lookup key) := by
  rw [Assoc.lookup_update, Assoc.lookup_reverse h]

theorem lookup_patch (key : String) : ((computeFieldDiff a b allKeys).patch a).lookup key =
    ((changedAt a b key).map FieldChange.new).or
      ((addedAt a b key).or (if (removedAt a b key).isSome then none else a.lookup key)) := by
  have htells := computeFieldDiff_tells allKeys
  have hkeys : Assoc.keys ((computeFieldDiff a b allKeys).changed.map fun e => (e.1, e.2.new)) =
      (computeFieldDiff a b allKeys).changed.keys := by
    rw [Assoc.keys, Assoc.keys, List.map_map]
    rfl
  rw [FieldDiff.patch, lookup_update_nodup (hkeys ▸ htells.changed.nodup), lookup_update_nodup htells.added.nodup,
    lookup_map_values, lookup_changed, lookup_added, ← lookup_removed allKeys]
  by_cases hremoved : key ∈ (computeFieldDiff a b allKeys).removed.keys
  · rw [Assoc.lookup_without_of_mem hremoved, if_pos (mem_keys_iff_isSome.mp hremoved)]
  · rw [Assoc.lookup_without hremoved, if_neg (mt mem_keys_iff_isSome.mpr hremoved)]

theorem patch_gives : Gives ((computeFieldDiff a b allKeys).patch a) b := by
  intro key
  rw [lookup_patch, changedAt, addedAt, removedAt]
  cases a.lookup key with
  | none =>
    cases b.lookup key with
    | none => exact .none
    | some new => exact .some (.inl rfl)
  | some old =>
    cases b.lookup key with
    | none => exact .none
    | some new =>
      by_cases hequal : old.equal new = true
      · simp only [if_pos hequal]
        exact .some (.inr hequal)
      · simp only [if_neg hequal]
        exact .some (.inl rfl)

theorem nodup_keys_update {d : Assoc Value} (h : d.keys.Nodup) (entries : Assoc Value) :
    (d.update entries).keys.Nodup := by
  unfold Assoc.update
  induction entries generalizing d with
  | nil => exact h
  | cons e entries ih => exact ih (Assoc.nodup_keys_set h e.1 e.2)

theorem nodup_keys_patch (ha : a.keys.Nodup) (diff : FieldDiff) : (diff.patch a).keys.Nodup := by
  have hwithout : (a.without diff.removed.keys).keys.Nodup := by
    rw [Assoc.keys_without]
    exact ha.filter _
  exact nodup_keys_update (nodup_keys_update hwithout _) _

/-- The report says nothing of a key exactly when both fields are equal, or neither is there. -/
theorem quiet_iff (key : String) : (addedAt a b key = none ∧ removedAt a b key = none ∧ changedAt a b key = none) ↔
    Option.Rel (fun v w => v.equal w = true) (a.lookup key) (b.lookup key) := by
  rw [addedAt, removedAt, changedAt]
  cases a.lookup key with
  | none => cases b.lookup key <;> simp
  | some old => cases b.lookup key <;> simp

theorem eq_nil_iff_lookup {α : Type} {d : Assoc α} : d = [] ↔ ∀ key, d.lookup key = none := by
  constructor
  · rintro rfl key
    rfl
  · intro h
    cases d with
    | nil => rfl
    | cons e d =>
      have hfirst := h e.1
      rw [Assoc.lookup_cons, if_pos rfl] at hfirst
      cases hfirst

theorem empty_iff : computeFieldDiff a b allKeys = {} ↔
    ∀ key, Option.Rel (fun v w => v.equal w = true) (a.lookup key) (b.lookup key) := by
  simp only [← quiet_iff, ← lookup_added allKeys, ← lookup_removed allKeys, ← lookup_changed allKeys, forall_and,
    ← eq_nil_iff_lookup]
  exact FieldDiff.mk.injEq .. ▸ Iff.rfl

/-- Values of Python's equality do not depend on the side. -/
theorem changedAt_swap (hequal : ∀ key v w, a.lookup key = some v → b.lookup key = some w → v.equal w = w.equal v)
    (key : String) : changedAt b a key = (changedAt a b key).map FieldChange.swap := by
  rw [changedAt, changedAt]
  cases ha : a.lookup key with
  | none => cases b.lookup key <;> rfl
  | some old =>
    cases hb : b.lookup key with
    | none => rfl
    | some new =>
      simp only [← hequal key old new ha hb]
      split <;> rfl

theorem addedAt_swap (key : String) : addedAt b a key = removedAt a b key := by
  rw [addedAt, removedAt]
  cases a.lookup key <;> cases b.lookup key <;> rfl

theorem disjoint_of_lookup {α β : Type} {d : Assoc α} {e : Assoc β}
    (h : ∀ key, d.lookup key = none ∨ e.lookup key = none) : d.keys.Disjoint e.keys := by
  intro key hd he
  obtain ⟨v, hv⟩ := Assoc.exists_lookup_of_mem hd
  obtain ⟨w, hw⟩ := Assoc.exists_lookup_of_mem he
  rcases h key with hnone | hnone
  · rw [hv] at hnone
    cases hnone
  · rw [hw] at hnone
    cases hnone

/-- A key is told once. -/
theorem told_once (key : String) : (addedAt a b key = none ∨ removedAt a b key = none) ∧
    (addedAt a b key = none ∨ changedAt a b key = none) ∧ (removedAt a b key = none ∨ changedAt a b key = none) := by
  rw [addedAt, removedAt, changedAt]
  cases a.lookup key <;> cases b.lookup key <;> simp

end Report

/-- Where every value equals itself, as every number but `nan` does, the dicts are equal. -/
theorem Gives.equal {d e : Assoc Value} (h : Gives d e) (hd : d.keys.Nodup) (he : e.keys.Nodup)
    (hself : ∀ entry ∈ e, entry.2.equal entry.2) : (Value.dict d).equal (.dict e) := by
  refine (dict_equal_iff hd he).mpr fun key => ?_
  have hkey := h key
  have hvalue : ∀ w, e.lookup key = some w → w.equal w := fun w hw => hself _ (Assoc.mem_of_lookup hw)
  revert hkey hvalue
  generalize d.lookup key = x
  generalize e.lookup key = y
  rintro (hvw | _) hvalue
  · rcases hvw with rfl | hequal
    · exact .some (hvalue _ rfl)
    · exact .some hequal
  · exact .none

/-- The report of one direction, as a report of the other. -/
structure Mirrors (diff back : FieldDiff) : Prop where
  added : ∀ key, back.added.lookup key = diff.removed.lookup key
  removed : ∀ key, back.removed.lookup key = diff.added.lookup key
  changed : ∀ key, back.changed.lookup key = (diff.changed.lookup key).map FieldChange.swap

/-- A report is a patch from the first fields to the second; it names no field twice, is empty exactly between equal
fields, and is the mirror image of the report back. -/
theorem field_diff_patches {a b : Assoc Value} (ha : (Value.dict a).wellFormed) (hb : (Value.dict b).wellFormed)
    (allKeys : AllKeys a b) :
    Gives ((computeFieldDiff a b allKeys).patch a) b ∧
    ((∀ e ∈ b, e.2.equal e.2) → (Value.dict ((computeFieldDiff a b allKeys).patch a)).equal (.dict b)) ∧
    ((computeFieldDiff a b allKeys).added.keys.Disjoint (computeFieldDiff a b allKeys).removed.keys ∧
      (computeFieldDiff a b allKeys).added.keys.Disjoint (computeFieldDiff a b allKeys).changed.keys ∧
      (computeFieldDiff a b allKeys).removed.keys.Disjoint (computeFieldDiff a b allKeys).changed.keys) ∧
    (computeFieldDiff a b allKeys = {} ↔ (Value.dict a).equal (.dict b)) ∧
    ∀ back : AllKeys b a, Mirrors (computeFieldDiff a b allKeys) (computeFieldDiff b a back) := by
  obtain ⟨hna, hva⟩ := wellFormed_dict ha
  obtain ⟨hnb, hvb⟩ := wellFormed_dict hb
  refine ⟨patch_gives allKeys, (patch_gives allKeys).equal (nodup_keys_patch hna _) hnb, ⟨?_, ?_, ?_⟩, ?_,
    fun back => ⟨fun key => ?_, fun key => ?_, fun key => ?_⟩⟩
  · exact disjoint_of_lookup fun key => by
      rw [lookup_added, lookup_removed]
      exact (told_once key).1
  · exact disjoint_of_lookup fun key => by
      rw [lookup_added, lookup_changed]
      exact (told_once key).2.1
  · exact disjoint_of_lookup fun key => by
      rw [lookup_removed, lookup_changed]
      exact (told_once key).2.2
  · rw [empty_iff, dict_equal_iff hna hnb]
  · rw [lookup_added, lookup_removed, addedAt_swap]
  · rw [lookup_removed, lookup_added, addedAt_swap]
  · rw [lookup_changed, lookup_changed]
    exact changedAt_swap (fun key v w hv hw => Value.equal_comm (hva _ (Assoc.mem_of_lookup hv))
      (hvb _ (Assoc.mem_of_lookup hw))) key

/-- An entity whose name went and whose note came, as a null; the limit is only spelled in another way. -/
def fieldsBefore : Assoc Value := [("name", .str "Order"), ("limit", .int 1), ("tags", .list [.str "a"])]

def fieldsAfter : Assoc Value := [("limit", .float "1.0"), ("tags", .list []), ("note", .null)]

def fieldKeys : AllKeys fieldsBefore fieldsAfter where
  keys := ["note", "name", "tags", "limit"]
  nodup := by decide
  mem_iff key := by
    simp only [fieldsBefore, fieldsAfter, Assoc.keys, List.map_cons, List.map_nil, List.mem_cons, List.not_mem_nil,
      or_false]
    tauto

theorem field_diff_patches_note :
    computeFieldDiff fieldsBefore fieldsAfter fieldKeys =
      ⟨[("note", .null)], [("name", .str "Order")], [("tags", ⟨.list [.str "a"], .list []⟩)]⟩ ∧
    Gives ((computeFieldDiff fieldsBefore fieldsAfter fieldKeys).patch fieldsBefore) fieldsAfter :=
  ⟨by decide +kernel, (field_diff_patches (by decide +kernel) (by decide +kernel) fieldKeys).1⟩

end Lingshu.Ontology
