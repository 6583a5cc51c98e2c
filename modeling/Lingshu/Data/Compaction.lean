import Lingshu.Data.Merge
import Lingshu.Json.Heap

/-! # Merging in parts

`merge_row` is a fold, and what it does in memory: it makes new objects and writes into none that it was given. -/
namespace Lingshu.Data
open Json Memory
set_option autoImplicit false

/-! ## The fold -/

/-- A backend that reads these entries. -/
def EditLogBackend.reading (entries : List EditLogEntry) : EditLogBackend where
  readByKey _ _ _ _ := entries

theorem mergeRow_reading (entries : List EditLogEntry) (baseRow : Option Row) (tenantId typeRid : String)
    (primaryKey : Assoc Value) (branch : String) :
    mergeRow (.reading entries) baseRow tenantId typeRid primaryKey branch = entries.foldl replayEntry baseRow := by
  cases entries <;> rfl

theorem mergeRow_append (entries later : List EditLogEntry) (baseRow : Option Row) (tenantId typeRid : String)
    (primaryKey : Assoc Value) (branch : String) :
    mergeRow (.reading (entries ++ later)) baseRow tenantId typeRid primaryKey branch =
      mergeRow (.reading later) (mergeRow (.reading entries) baseRow tenantId typeRid primaryKey branch) tenantId
        typeRid primaryKey branch := by
  rw [mergeRow_reading, mergeRow_reading, mergeRow_reading, List.foldl_append]

/-! ## In memory -/

/-- An entry, whose `field_values` is an object. -/
structure EntryRef where
  operation : EditOperation
  fieldValues : Ref
  deriving DecidableEq, Repr

/-- `None`, or the dict of the row. -/
def rowValue : Option Row → Value
  | none => .null
  | some row => .dict row

def HoldsEntry (h : Heap) (ref : EntryRef) (entry : EditLogEntry) : Prop :=
  ref.operation = entry.operation ∧ Holds h ref.fieldValues (.dict entry.fieldValues)

/-- The body of the loop of `merge_row`. -/
def replayIn (row : Ref) (entry : EntryRef) : Mem Ref :=
  match entry.operation with
  | .create => copyDict entry.fieldValues
  | .update => if row = .null then copyDict entry.fieldValues else mergeDicts row entry.fieldValues
  | .delete => pure .null

/-- The row before the first entry. -/
def copyRow (fuel : ℕ) (baseRow : Ref) : Mem Ref := if baseRow = .null then pure .null else deepcopy fuel baseRow

/-- `merge_row`, after it has read the entries. -/
def mergeRowIn (fuel : ℕ) (baseRow : Ref) (entries : List EntryRef) : Mem Ref :=
  if entries = [] then pure baseRow
  else do
    let row ← copyRow fuel baseRow
    entries.foldlM replayIn row

section Memory
variable {h : Heap} {C : ℕ → Prop}

theorem holds_rowValue {r : Ref} {row : Option Row} (hrow : Holds h r (rowValue row)) :
    (r = .null ∧ row = none) ∨ r ≠ .null ∧ ∃ fields, row = some fields ∧ Holds h r (.dict fields) := by
  cases row with
  | none => exact .inl ⟨hrow.null, rfl⟩
  | some fields =>
    refine .inr ⟨?_, fields, rfl, hrow⟩
    rintro rfl
    have hnull : Holds h .null .null := ⟨0, rfl⟩
    cases hrow.unique hnull

theorem made_null (hclosed : Closed C h) : Made C h h .null (rowValue none) :=
  ⟨List.prefix_refl h, ⟨0, rfl⟩, hclosed, trivial⟩

theorem replayIn_run (hclosed : Closed C h) (hnew : ∀ p, h.length ≤ p → C p) {r : Ref} {row : Option Row}
    (hrow : Holds h r (rowValue row)) (hin : r.Inside C) {ref : EntryRef} {entry : EditLogEntry}
    (hentry : HoldsEntry h ref entry) (hin' : ref.fieldValues.Inside C) :
    ∃ r' h', replayIn r ref h = some (r', h') ∧ Made C h h' r' (rowValue (replayEntry row entry)) := by
  obtain ⟨hoperation, hvalues⟩ := hentry
  have hlen := hnew h.length (Nat.le_refl _)
  obtain ⟨copied, hcopy, hcopied⟩ := copyDict_run hclosed hlen hvalues hin'
  rw [replayIn, hoperation]
  unfold replayEntry
  cases entry.operation with
  | create => exact ⟨_, copied, hcopy, hcopied⟩
  | delete => exact ⟨.null, h, rfl, made_null hclosed⟩
  | update =>
    rcases holds_rowValue hrow with ⟨rfl, rfl⟩ | ⟨hne, fields, rfl, hfields⟩
    · exact ⟨_, copied, hcopy, hcopied⟩
    · obtain ⟨merged, hrun, hmerged⟩ := mergeDicts_run hclosed hlen hfields hin hvalues hin'
      exact ⟨_, merged, (if_neg hne).symm ▸ hrun, hmerged⟩

theorem replayIn_all {refs : List EntryRef} {entries : List EditLogEntry} {start : Heap}
    (hentries : List.Forall₂ (HoldsEntry start) refs entries) (hin : ∀ ref ∈ refs, ref.fieldValues.Inside C)
    (hnew : ∀ p, start.length ≤ p → C p) :
    ∀ {r : Ref} {row : Option Row}, Made C start h r (rowValue row) →
      ∃ r' h', refs.foldlM replayIn r h = some (r', h') ∧
        Made C start h' r' (rowValue (entries.foldl replayEntry row)) := by
  induction hentries generalizing h with
  | nil => exact fun {r row} hmade => ⟨r, h, rfl, hmade⟩
  | @cons ref entry refs entries hentry _ ih =>
    intro r row hmade
    obtain ⟨hin₁, hin⟩ := List.forall_mem_cons.mp hin
    obtain ⟨r₁, h₁, hrun₁, hmade₁⟩ := replayIn_run hmade.closed
      (fun p hp => hnew p (hmade.kept.length_le.trans hp)) hmade.holds hmade.inside
      ⟨hentry.1, hentry.2.extend hmade.kept⟩ hin₁
    obtain ⟨r₂, h₂, hrun₂, hmade₂⟩ :=
      ih hin ⟨hmade.kept.trans hmade₁.kept, hmade₁.holds, hmade₁.closed, hmade₁.inside⟩
    refine ⟨r₂, h₂, ?_, hmade₂⟩
    rw [List.foldlM_cons]
    exact (bind_run hrun₁).trans hrun₂

theorem copyRow_run {fuel : ℕ} {r : Ref} {row : Option Row} (hrow : read h fuel r = some (rowValue row)) :
    ∃ r' h', copyRow fuel r h = some (r', h') ∧ Made (h.length ≤ ·) h h' r' (rowValue row) := by
  rw [copyRow]
  rcases holds_rowValue ⟨fuel, hrow⟩ with ⟨rfl, rfl⟩ | ⟨hne, -⟩
  · exact ⟨.null, h, rfl, made_null (closed_new h)⟩
  · rw [if_neg hne]
    exact deepcopy_run hrow

/-- Where what a merge returns lies: in new objects, and in those of the entries. -/
def FromEntries (h : Heap) (refs : List EntryRef) (p : ℕ) : Prop :=
  h.length ≤ p ∨ ∃ r ∈ refs.map EntryRef.fieldValues, Reaches h r p

/-- A merge of entries returned: every object that there was is as it was, the row is the one of the fold, and with any
entry at all nothing of the base row is part of it, but by way of the entries. -/
structure Merged (h h' : Heap) (refs : List EntryRef) (r : Ref) (row : Option Row) : Prop where
  kept : h <+: h'
  holds : Holds h' r (rowValue row)
  apart : refs ≠ [] → ∀ p, Reaches h' r p → FromEntries h refs p

theorem mergeRowIn_run {fuel : ℕ} {r : Ref} {row : Option Row} (hrow : read h fuel r = some (rowValue row))
    {refs : List EntryRef} {entries : List EditLogEntry} (hentries : List.Forall₂ (HoldsEntry h) refs entries) :
    ∃ r' h', mergeRowIn fuel r refs h = some (r', h') ∧ Merged h h' refs r' (entries.foldl replayEntry row) := by
  rw [mergeRowIn]
  by_cases hnil : refs = []
  · subst hnil
    cases hentries
    exact ⟨r, h, rfl, List.prefix_refl h, ⟨fuel, hrow⟩, fun hne => absurd rfl hne⟩
  · rw [if_neg hnil]
    obtain ⟨r₁, h₁, hrun₁, hmade₁⟩ := copyRow_run hrow
    have hmade₁' : Made (FromEntries h refs) h h₁ r₁ (rowValue row) :=
      hmade₁.mono (Closed.join hmade₁.kept hmade₁.closed _) fun _ hp => .inl hp
    have hin : ∀ ref ∈ refs, ref.fieldValues.Inside (FromEntries h refs) := by
      intro ref href
      cases hvalues : ref.fieldValues with
      | constant c => trivial
      | object p => exact .inr ⟨.object p, hvalues ▸ List.mem_map_of_mem href, Relation.ReflTransGen.refl⟩
    obtain ⟨r₂, h₂, hrun₂, hmade₂⟩ := replayIn_all hentries hin (fun _ hp => .inl hp) hmade₁'
    exact ⟨r₂, h₂, (bind_run hrun₁).trans hrun₂, hmade₂.kept, hmade₂.holds,
      fun _ _ hp => hmade₂.closed.reaches hmade₂.inside hp⟩

end Memory

/-- Merging a log is merging its first part and then the rest into what came out; in memory too, where no merge writes
into an object that it was given. -/
theorem merging_folds (tenantId typeRid : String) (primaryKey : Assoc Value) (branch : String) :
    (∀ (baseRow : Option Row) (entries later : List EditLogEntry),
      mergeRow (.reading (entries ++ later)) baseRow tenantId typeRid primaryKey branch =
        mergeRow (.reading later) (mergeRow (.reading entries) baseRow tenantId typeRid primaryKey branch) tenantId
          typeRid primaryKey branch) ∧
    ∀ (h : Heap) (fuel : ℕ) (base : Ref) (baseRow : Option Row) (refs laterRefs : List EntryRef)
      (entries later : List EditLogEntry), read h fuel base = some (rowValue baseRow) →
      List.Forall₂ (HoldsEntry h) refs entries → List.Forall₂ (HoldsEntry h) laterRefs later →
      (∃ r once, mergeRowIn fuel base (refs ++ laterRefs) h = some (r, once) ∧ Merged h once (refs ++ laterRefs) r
        (mergeRow (.reading (entries ++ later)) baseRow tenantId typeRid primaryKey branch)) ∧
      ∃ r first, mergeRowIn fuel base refs h = some (r, first) ∧
        Merged h first refs r (mergeRow (.reading entries) baseRow tenantId typeRid primaryKey branch) ∧
        ∃ enough, ∀ fuel' ≥ enough, ∃ r' second, mergeRowIn fuel' r laterRefs first = some (r', second) ∧
          Merged first second laterRefs r'
            (mergeRow (.reading (entries ++ later)) baseRow tenantId typeRid primaryKey branch) := by
  refine ⟨fun baseRow entries later => mergeRow_append entries later baseRow tenantId typeRid primaryKey branch, ?_⟩
  intro h fuel base baseRow refs laterRefs entries later hbase hentries hlater
  constructor
  · rw [mergeRow_reading]
    exact mergeRowIn_run hbase (List.rel_append hentries hlater)
  · obtain ⟨r, first, hrun, hmerged⟩ := mergeRowIn_run hbase hentries
    obtain ⟨enough, hread⟩ := hmerged.holds
    refine ⟨r, first, hrun, (mergeRow_reading entries baseRow tenantId typeRid primaryKey branch).symm ▸ hmerged,
      enough, fun fuel' hle => ?_⟩
    rw [mergeRow_reading, List.foldl_append]
    exact mergeRowIn_run (read_mono hle (List.prefix_refl first) hread)
      (hlater.imp fun _ _ hentry => ⟨hentry.1, hentry.2.extend hmerged.kept⟩)

/-- An order with a list of tags, and the values of two entries. -/
def orderHeap : Heap :=
  [.list [.constant (.str "new")], .dict [("id", .constant (.int 1)), ("tags", .object 0)],
    .dict [("status", .constant (.str "paid"))], .dict []]

def taggedOrder : Row := [("id", .int 1), ("tags", .list [.str "new"])]

theorem merging_folds_order :
    ∃ r first, mergeRowIn 2 (.object 1) [⟨.update, .object 2⟩] orderHeap = some (r, first) ∧
      Merged orderHeap first [⟨.update, .object 2⟩] r (mergeRow
        (.reading [orderEdit .update 1 [("status", .str "paid")]]) (some taggedOrder) "t" "ri.obj.1" [("id", .int 1)]
        "main") ∧
      ∃ enough, ∀ fuel' ≥ enough, ∃ r' second, mergeRowIn fuel' r [⟨.delete, .object 3⟩] first = some (r', second) ∧
        Merged first second [⟨.delete, .object 3⟩] r' (mergeRow
          (.reading ([orderEdit .update 1 [("status", .str "paid")]] ++ [orderEdit .delete 1 []])) (some taggedOrder)
          "t" "ri.obj.1" [("id", .int 1)] "main") := by
  have hupdate : HoldsEntry orderHeap ⟨.update, .object 2⟩ (orderEdit .update 1 [("status", .str "paid")]) :=
    ⟨rfl, 1, rfl⟩
  have hdelete : HoldsEntry orderHeap ⟨.delete, .object 3⟩ (orderEdit .delete 1 []) := ⟨rfl, 1, rfl⟩
  exact ((merging_folds "t" "ri.obj.1" [("id", .int 1)] "main").2 orderHeap 2 (.object 1) (some taggedOrder) _ _ _ _ rfl
    (.cons hupdate .nil) (.cons hdelete .nil)).2

end Lingshu.Data
