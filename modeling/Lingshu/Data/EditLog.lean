import Lingshu.Data.Pipeline
import Mathlib.Data.Int.Notation

/-! # Edit log entries

`EditLogEntry` of `data/writeback`, with the types that the class declares, and `datetime` as far as the log uses
it. -/
namespace Lingshu.Data
open Json
set_option autoImplicit false

/-! ## Datetimes -/

/-- A `datetime`: the microseconds of its clock since the start of the year 1, and how far that clock is ahead of
UTC, in microseconds; a naive one has no offset. -/
structure DateTime where
  clock : ℤ
  offset : Option ℤ
  deriving DecidableEq, Repr

namespace DateTime

/-- `datetime.now(timezone.utc)` at an instant. -/
def ofInstant (instant : ℤ) : DateTime := ⟨instant, some 0⟩

/-- `t.replace(tzinfo=timezone.utc)` where there is no offset. -/
def assumeUtc (t : DateTime) : DateTime := { t with offset := some (t.offset.getD 0) }

def aware (t : DateTime) : Bool := t.offset.isSome

/-- The instant that a clock shows; a naive one is read as UTC. -/
def instant (t : DateTime) : ℤ := t.clock - t.offset.getD 0

/-- Two datetimes are `==` when they have the same normal form. -/
def normal (t : DateTime) : DateTime := if t.aware then ofInstant t.instant else t

def pad (width : ℕ) (n : ℤ) : String :=
  let digits := toString n.toNat
  String.ofList (List.replicate (width - digits.length) '0') ++ digits

def daysBeforeMonth : List ℤ := [0, 31, 59, 90, 120, 151, 181, 212, 243, 273, 304, 334]

def daysInMonth : List ℤ := [31, 28, 31, 30, 31, 30, 31, 31, 30, 31, 30, 31]

/-- `_ord2ymd`. -/
def ordToYmd (ordinal : ℤ) : ℤ × ℤ × ℤ :=
  let n := ordinal - 1
  let n400 := n / 146097
  let n := n % 146097
  let n100 := n / 36524
  let n := n % 36524
  let n4 := n / 1461
  let n := n % 1461
  let n1 := n / 365
  let n := n % 365
  let year := n400 * 400 + 1 + n100 * 100 + n4 * 4 + n1
  if n1 = 4 ∨ n100 = 4 then (year - 1, 12, 31)
  else
    let leap := n1 = 3 ∧ (n4 ≠ 24 ∨ n100 = 3)
    let month := (n + 50) / 32
    let preceding := daysBeforeMonth.getD (month.toNat - 1) 0 + if month > 2 ∧ leap then 1 else 0
    if preceding > n then
      let month := month - 1
      let preceding := preceding - (daysInMonth.getD (month.toNat - 1) 0 + if month = 2 ∧ leap then 1 else 0)
      (year, month, n - preceding + 1)
    else (year, month, n - preceding + 1)

/-- `_format_offset`. -/
def formatOffset : Option ℤ → String
  | none => ""
  | some offset =>
    let sign := if offset < 0 then "-" else "+"
    let off : ℤ := offset.natAbs
    let seconds := off / 1000000
    let text := sign ++ pad 2 (seconds / 3600) ++ ":" ++ pad 2 (seconds / 60 % 60)
    if off % 60000000 = 0 then text
    else
      let text := text ++ ":" ++ pad 2 (seconds % 60)
      if off % 1000000 = 0 then text else text ++ "." ++ pad 6 (off % 1000000)

/-- `t.isoformat()`; the microseconds are left out when there are none. -/
def isoformat (t : DateTime) : String :=
  let seconds := t.clock / 1000000
  let (year, month, day) := ordToYmd (seconds / 86400 + 1)
  let second := seconds % 86400
  let date := pad 4 year ++ "-" ++ pad 2 month ++ "-" ++ pad 2 day
  let time := pad 2 (second / 3600) ++ ":" ++ pad 2 (second / 60 % 60) ++ ":" ++ pad 2 (second % 60)
  let micros := if t.clock % 1000000 = 0 then "" else "." ++ pad 6 (t.clock % 1000000)
  date ++ "T" ++ time ++ micros ++ formatOffset t.offset

example : isoformat ⟨63908992800000000, some 0⟩ = "2026-03-13T10:00:00+00:00" := by decide

end DateTime

/-! ## Entries -/

/-- What `__post_init__` lets through. -/
inductive EditOperation where
  | create
  | update
  | delete
  deriving DecidableEq, Repr

def EditOperation.ofString : String → Option EditOperation
  | "create" => some .create
  | "update" => some .update
  | "delete" => some .delete
  | _ => none

structure EditLogEntry where
  entryId : String
  tenantId : String
  typeRid : String
  primaryKey : Assoc Value
  operation : EditOperation
  fieldValues : Assoc Value
  userId : String
  actionTypeRid : Option String := none
  branch : String := "main"
  createdAt : DateTime
  deriving DecidableEq

end Lingshu.Data
