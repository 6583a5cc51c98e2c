import Lingshu.Data.EditLog
import Lingshu.Log.Erasure

/-! # Checkpoints of agent graphs

`copilot/checkpoint.py`: the tables `checkpoints`, `checkpoint_writes` and `checkpoint_blobs`, and the methods of
`AsyncPostgresSaver`. A JSONB column holds a value as Python compares them; what the driver shows of it is a parameter. -/
namespace Lingshu.Copilot.Saver
open Lingshu.Data
set_option autoImplicit false

/-! ## JSON columns -/

/-- The JSON values other than `None`, as far as the saver looks into them. -/
structure PyJson (J : Type) where
  /-- The text that a value is: `isinstance(v, str)`. -/
  asStr : J → Option String
  /-- `json.loads`; `none` when it raises. -/
  loads : String → Option J
  emptyDict : J
  asStr_emptyDict : asStr emptyDict = none

variable {J : Type} {json : PyJson J}

/-- A dict is no text. -/
abbrev PyJson.Dict (json : PyJson J) : Type := { v : J // json.asStr v = none }

def PyJson.noEntries (json : PyJson J) : json.Dict := ⟨json.emptyDict, json.asStr_emptyDict⟩

/-- Whether the driver decodes JSONB columns or shows their text. -/
inductive Driver (json : PyJson J) where
  | decoding
  | textual (text : J → String) (roundtrip : ∀ v, json.loads (text v) = some v)

/-- What a row shows in a JSONB column. -/
inductive Fetched (J : Type) where
  | str (text : String)
  | other (v : J)

inductive Exc where
  | jsonDecodeError (text : String)
  deriving DecidableEq

namespace Driver

def fetch : Driver json → J → Fetched J
  | decoding, v =>
    match json.asStr v with
    | some text => .str text
    | none => .other v
  | textual text _, v => .str (text v)

/-- `if isinstance(v, str): v = json.loads(v)`. -/
def load (driver : Driver json) (v : J) : Except Exc J :=
  match driver.fetch v with
  | .str text =>
    match json.loads text with
    | some v => .ok v
    | none => .error (.jsonDecodeError text)
  | .other v => .ok v

end Driver

/-! ## Tables -/

structure CheckpointRow (json : PyJson J) where
  threadId : String
  checkpointNs : String
  checkpointId : String
  parentCheckpointId : Option String
  type : Option String
  checkpoint : json.Dict
  metadata : json.Dict
  createdAt : ℤ

structure WriteRow (J : Type) where
  threadId : String
  checkpointNs : String
  checkpointId : String
  taskId : String
  idx : ℕ
  channel : String
  type : Option String
  /-- `NULL` for `None`. -/
  value : Option J

structure Blob where
  threadId : String
  checkpointNs : String
  channel : String
  version : String
  type : String
  blob : Option (List UInt8)

structure Tables (json : PyJson J) where
  checkpoints : List (CheckpointRow json)
  writes : List (WriteRow J)
  blobs : List Blob

/-- The primary keys. -/
def CheckpointRow.key (row : CheckpointRow json) : String × String × String :=
  (row.threadId, row.checkpointNs, row.checkpointId)

def WriteRow.key (row : WriteRow J) : String × String × String × String × ℕ :=
  (row.threadId, row.checkpointNs, row.checkpointId, row.taskId, row.idx)

/-- `INSERT ... ON CONFLICT (key) DO UPDATE SET ...`. -/
def upsert {κ ε : Type} [DecidableEq κ] (key : ε → κ) (update : ε → ε → ε) (table : List ε) (row : ε) : List ε :=
  Log.put key table (((table.find? fun old => key old = key row).map fun old => update old row).getD row)

/-! ## Methods that write -/

/-- The arguments of `put`, and the time of the call. -/
structure Put (json : PyJson J) where
  threadId : String
  checkpointId : String
  checkpointNs : String
  parentCheckpointId : Option String
  checkpoint : json.Dict
  metadata : Option json.Dict
  now : ℤ

def Put.row (put : Put json) : CheckpointRow json where
  threadId := put.threadId
  checkpointNs := put.checkpointNs
  checkpointId := put.checkpointId
  parentCheckpointId := put.parentCheckpointId
  type := some "json"
  checkpoint := put.checkpoint
  metadata := put.metadata.getD json.noEntries
  createdAt := put.now

/-- `type` is not among the columns that an update sets. -/
def CheckpointRow.update (old row : CheckpointRow json) : CheckpointRow json := { row with type := old.type }

def WriteRow.update (old row : WriteRow J) : WriteRow J := { row with type := old.type }

def put (tables : Tables json) (call : Put json) : Tables json :=
  { tables with checkpoints := upsert CheckpointRow.key CheckpointRow.update tables.checkpoints call.row }

/-- A write: task, channel, value. -/
structure Write (J : Type) where
  taskId : String
  channel : String
  value : Option J

structure PutWrites (J : Type) where
  threadId : String
  checkpointId : String
  checkpointNs : String
  writes : List (Write J)

def Write.row (call : PutWrites J) (write : Write J) (idx : ℕ) : WriteRow J where
  threadId := call.threadId
  checkpointNs := call.checkpointNs
  checkpointId := call.checkpointId
  taskId := write.taskId
  idx := idx
  channel := write.channel
  type := some "json"
  value := write.value

def PutWrites.rows (call : PutWrites J) : List (WriteRow J) :=
  call.writes.zipIdx.map fun write => write.1.row call write.2

def putWrites (tables : Tables json) (call : PutWrites J) : Tables json :=
  { tables with writes := call.rows.foldl (upsert WriteRow.key WriteRow.update) tables.writes }

def deleteThread (tables : Tables json) (threadId : String) : Tables json where
  writes := tables.writes.filter fun row => row.threadId ≠ threadId
  blobs := tables.blobs.filter fun row => row.threadId ≠ threadId
  checkpoints := tables.checkpoints.filter fun row => row.threadId ≠ threadId

/-! ## Methods that read -/

/-- `ORDER BY created_at DESC` and `ORDER BY idx`; rows that are equal there come in any order. -/
structure Planner (json : PyJson J) where
  newestFirst : List (CheckpointRow json) → List (CheckpointRow json)
  newestFirst_perm : ∀ rows, (newestFirst rows).Perm rows
  newestFirst_sorted : ∀ rows, (newestFirst rows).Pairwise fun a b => b.createdAt ≤ a.createdAt
  byIdx : List (WriteRow J) → List (WriteRow J)
  byIdx_perm : ∀ rows, (byIdx rows).Perm rows
  byIdx_sorted : ∀ rows, (byIdx rows).Pairwise fun a b => a.idx ≤ b.idx

/-- What `get` and `list` return for a row. -/
structure Checkpoint (J : Type) where
  threadId : String
  checkpointNs : String
  checkpointId : String
  parentCheckpointId : Option String
  type : Option String
  checkpoint : J
  metadata : J
  createdAt : String

structure PendingWrite (J : Type) where
  taskId : String
  idx : ℕ
  channel : String
  type : Option String
  value : Option J

variable (driver : Driver json) (planner : Planner json) (tables : Tables json)

def readCheckpoint (row : CheckpointRow json) : Except Exc (Checkpoint J) := do
  let checkpoint ← driver.load row.checkpoint.1
  let metadata ← driver.load row.metadata.1
  return { threadId := row.threadId, checkpointNs := row.checkpointNs, checkpointId := row.checkpointId,
           parentCheckpointId := row.parentCheckpointId, type := row.type, checkpoint := checkpoint,
           metadata := metadata, createdAt := (DateTime.ofInstant row.createdAt).isoformat }

/-- `result.first()`, as it is returned. -/
def firstCheckpoint (rows : List (CheckpointRow json)) : Except Exc (Option (Checkpoint J)) :=
  match rows.head? with
  | none => .ok none
  | some row => (readCheckpoint driver row).map some

/-- The rows of a thread in a namespace. -/
def Tables.checkpointsOf (threadId checkpointNs : String) : List (CheckpointRow json) :=
  tables.checkpoints.filter fun row => row.threadId = threadId ∧ row.checkpointNs = checkpointNs

/-- `get`; an empty `checkpoint_id` is as good as none. -/
def get (threadId checkpointNs : String) (checkpointId : Option String) : Except Exc (Option (Checkpoint J)) :=
  let latest := (planner.newestFirst (tables.checkpointsOf threadId checkpointNs)).take 1
  firstCheckpoint driver <| match checkpointId with
    | none => latest
    | some id =>
      if id = "" then latest
      else (tables.checkpointsOf threadId checkpointNs).filter fun row => row.checkpointId = id

def list (threadId checkpointNs : String) (limit : ℕ) : Except Exc (List (Checkpoint J)) :=
  ((planner.newestFirst (tables.checkpointsOf threadId checkpointNs)).take limit).mapM (readCheckpoint driver)

def readWrite (row : WriteRow J) : Except Exc (PendingWrite J) := do
  let value ← match row.value with
    | none => pure none
    | some v => (driver.load v).map some
  return { taskId := row.taskId, idx := row.idx, channel := row.channel, type := row.type, value := value }

def Tables.writesOf (threadId checkpointNs checkpointId : String) : List (WriteRow J) :=
  tables.writes.filter fun row =>
    row.threadId = threadId ∧ row.checkpointNs = checkpointNs ∧ row.checkpointId = checkpointId

def getWrites (threadId checkpointNs checkpointId : String) : Except Exc (List (PendingWrite J)) :=
  (planner.byIdx (tables.writesOf threadId checkpointNs checkpointId)).mapM (readWrite driver)

/-! ## Sequences of calls -/

inductive Op (json : PyJson J) where
  | put (call : Put json)
  | putWrites (call : PutWrites J)
  | deleteThread (threadId : String)

def Op.apply (tables : Tables json) : Op json → Tables json
  | .put call => Saver.put tables call
  | .putWrites call => Saver.putWrites tables call
  | .deleteThread threadId => Saver.deleteThread tables threadId

/-- The tables after a sequence of calls on empty ones. -/
def run (ops : List (Op json)) : Tables json := ops.foldl Op.apply ⟨[], [], []⟩

end Lingshu.Copilot.Saver
