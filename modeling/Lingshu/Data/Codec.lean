import Lingshu.Data.Backends
import Lingshu.Data.Timestamps

/-! # The values in FoundationDB

`FdbEditLogStore.write` stores the fields of an entry as one JSON text, and `_data_to_entry` puts an entry together from
the text. -/
namespace Lingshu.Data.Fdb
open Json
set_option autoImplicit false

/-! ## Writing -/

def operationText : EditOperation → String
  | .create => "create"
  | .update => "update"
  | .delete => "delete"

/-- The dict that `write` dumps. -/
def entryToData (entry : EditLogEntry) : Assoc Value :=
  [("entry_id", .str entry.entryId),
   ("tenant_id", .str entry.tenantId),
   ("type_rid", .str entry.typeRid),
   ("operation", .str (operationText entry.operation)),
   ("primary_key", .dict entry.primaryKey),
   ("field_values", .dict entry.fieldValues),
   ("user_id", .str entry.userId),
   ("action_type_rid", entry.actionTypeRid.elim .null .str),
   ("branch", .str entry.branch),
   ("created_at", .str entry.createdAt.isoformat)]

/-- `json.dumps(...).encode()`. -/
def storedValue (entry : EditLogEntry) : ByteArray := (dumps (.dict (entryToData entry))).toUTF8

/-! ## Reading -/

def asText : Value → Option String
  | .str s => some s
  | _ => none

def asDict : Value → Option (Assoc Value)
  | .dict entries => some entries
  | _ => none

def asOptionalText : Value → Option (Option String)
  | .null => some none
  | .str s => some (some s)
  | _ => none

def createdAtOf (now : DateTime) (data : Assoc Value) : Option DateTime :=
  let createdAtRaw := (data.lookup "created_at").getD .null
  if createdAtRaw.truthy then
    (asText createdAtRaw).bind fun text => (DateTime.fromisoformat text).map DateTime.assumeUtc
  else some now

/-- `_data_to_entry`; there is no entry where it raises, or where a field has not the type that the class declares. -/
def dataToEntry (now : DateTime) (data : Assoc Value) : Option EditLogEntry := do
  let createdAt ← createdAtOf now data
  let entryId ← (data.lookup "entry_id").bind asText
  let tenantId ← asText ((data.lookup "tenant_id").getD (.str ""))
  let typeRid ← asText ((data.lookup "type_rid").getD (.str ""))
  let primaryKey ← (data.lookup "primary_key").bind asDict
  let operation ← ((data.lookup "operation").bind asText).bind EditOperation.ofString
  let fieldValues ← (data.lookup "field_values").bind asDict
  let userId ← (data.lookup "user_id").bind asText
  let actionTypeRid ← asOptionalText ((data.lookup "action_type_rid").getD .null)
  let branch ← asText ((data.lookup "branch").getD (.str "main"))
  some { entryId, tenantId, typeRid, primaryKey, operation, fieldValues, userId, actionTypeRid, branch, createdAt }

/-- `_data_to_entry(json.loads(value.decode()))`. -/
def readStored (now : DateTime) (value : ByteArray) : Option EditLogEntry := do
  let text ← String.fromUTF8? value
  let data ← (loads text).bind asDict
  dataToEntry now data

section Entries
variable {entry : EditLogEntry} (now : DateTime)

theorem decode_encode (text : String) : String.fromUTF8? text.toUTF8 = some text :=
  dif_pos text.isValidUTF8

theorem ofString_operationText (operation : EditOperation) :
    EditOperation.ofString (operationText operation) = some operation := by
  cases operation <;> rfl

theorem asOptionalText_elim (text : Option String) : asOptionalText (text.elim .null .str) = some text := by
  cases text <;> rfl

theorem isoformat_ne_empty (t : DateTime) : t.isoformat ≠ "" := by
  obtain ⟨tail, htext, -⟩ := DateTime.toList_isoformat t
  intro hempty
  have hlength := congrArg (fun s => s.toList.length) hempty
  simp [htext] at hlength

theorem nodup_entryToData (entry : EditLogEntry) : (entryToData entry).keys.Nodup := by
  simp [entryToData, Assoc.keys]

theorem createdAtOf_entryToData (hcreated : entry.createdAt.Valid) :
    createdAtOf now (entryToData entry) = some entry.createdAt.assumeUtc := by
  have hlookup : (entryToData entry).lookup "created_at" = some (.str entry.createdAt.isoformat) := by
    simp [entryToData, Assoc.lookup_cons]
  have htruthy : (Value.str entry.createdAt.isoformat).truthy = true := by
    rw [Value.truthy]
    exact decide_eq_true (isoformat_ne_empty entry.createdAt)
  simp only [createdAtOf, hlookup, Option.getD_some, if_pos htruthy, asText, Option.bind_some,
    DateTime.fromisoformat_isoformat hcreated, Option.map_some]

/-- An entry is put together from its own data, with the time in UTC where it has no offset. -/
theorem dataToEntry_entryToData (hcreated : entry.createdAt.Valid) :
    dataToEntry now (entryToData entry) = some (Data.dataToEntry entry) := by
  simp only [dataToEntry, createdAtOf_entryToData now hcreated, Option.bind_eq_bind, Option.bind_some]
  simp [entryToData, Assoc.lookup_cons, asText, asDict, ofString_operationText, asOptionalText_elim, Data.dataToEntry]

theorem wellFormed_entryToData (hkey : (Value.dict entry.primaryKey).wellFormed)
    (hvalues : (Value.dict entry.fieldValues).wellFormed) : (Value.dict (entryToData entry)).wellFormed := by
  have haction : (entry.actionTypeRid.elim Value.null .str).wellFormed := by cases entry.actionTypeRid <;> rfl
  have htext : ∀ text, (Value.str text).wellFormed = true := fun _ => rfl
  have hkeys : ((entryToData entry).map Prod.fst).Nodup := nodup_entryToData entry
  rw [Value.wellFormed, decide_eq_true hkeys]
  simp only [entryToData, entriesWellFormed, htext, haction, hkey, hvalues, Bool.and_self]

theorem readStored_storedValue (hcreated : entry.createdAt.Valid) (hkey : (Value.dict entry.primaryKey).wellFormed)
    (hvalues : (Value.dict entry.fieldValues).wellFormed) :
    readStored now (storedValue entry) = some (Data.dataToEntry entry) := by
  rw [readStored, storedValue, decode_encode]
  simp only [Option.bind_eq_bind, Option.bind_some, loads_dumps (wellFormed_entryToData hkey hvalues), asDict]
  exact dataToEntry_entryToData now hcreated

theorem assumeUtc_aware {t : DateTime} (haware : t.aware) : t.assumeUtc = t := by
  obtain ⟨offset, hoffset⟩ := Option.isSome_iff_exists.mp haware
  obtain ⟨clock, _⟩ := t
  cases hoffset
  rfl

/-- An entry whose time has an offset is read as it was written. -/
theorem stored_entry_read (haware : entry.createdAt.aware) (hcreated : entry.createdAt.Valid)
    (hkey : (Value.dict entry.primaryKey).wellFormed) (hvalues : (Value.dict entry.fieldValues).wellFormed) :
    readStored now (storedValue entry) = some entry := by
  rw [readStored_storedValue now hcreated hkey hvalues, Data.dataToEntry, assumeUtc_aware haware]

end Entries

/-- An edit in Newfoundland, with nested values. -/
def shippedOrder : EditLogEntry where
  entryId := "e1"
  tenantId := "t"
  typeRid := "ri.obj.1"
  primaryKey := [("id", .int 1)]
  operation := .update
  fieldValues := [("note", .null), ("lines", .list [.dict [("price", .float "9.5")]])]
  userId := "u"
  branch := "b"
  createdAt := ⟨63908992800000001, some (-12600000000)⟩

theorem stored_entry_read_order : readStored (.ofInstant 0) (storedValue shippedOrder) = some shippedOrder :=
  stored_entry_read (.ofInstant 0) rfl ⟨by decide, by decide⟩ (by decide) (by decide)

end Lingshu.Data.Fdb
