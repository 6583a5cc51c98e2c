import Lingshu.Copilot.Saver

/-! # The checkpoint store against a map

What each read should return after a sequence of calls, when it does, and why it does for checkpoints: the tables hold
what lasts of the calls since the thread was deleted. -/
namespace Lingshu.Copilot.Saver
open Lingshu.Data Json
set_option autoImplicit false

variable {J : Type} {json : PyJson J} {driver : Driver json} {planner : Planner json} {ops : List (Op json)}
  {t ns id : String}

/-! ## The map -/

def Op.deletes (threadId : String) : Op json → Bool
  | .deleteThread t => t = threadId
  | _ => false

/-- The calls since the thread was deleted. -/
def live (ops : List (Op json)) (threadId : String) : List (Op json) := ops.rtakeWhile fun op => !op.deletes threadId

def Op.putIn (threadId checkpointNs : String) : Op json → Option (Put json)
  | .put call => if call.threadId = threadId ∧ call.checkpointNs = checkpointNs then some call else none
  | _ => none

/-- The puts on a thread and a namespace that no `delete_thread` follows. -/
def putsOf (ops : List (Op json)) (threadId checkpointNs : String) : List (Put json) :=
  (live ops threadId).filterMap (Op.putIn threadId checkpointNs)

def Op.writesTo (threadId checkpointNs checkpointId : String) : Op json → Option (PutWrites J)
  | .putWrites call =>
    if call.threadId = threadId ∧ call.checkpointNs = checkpointNs ∧ call.checkpointId = checkpointId then some call
    else none
  | _ => none

/-- The `put_writes` calls on a checkpoint that no `delete_thread` follows. -/
def callsOf (ops : List (Op json)) (threadId checkpointNs checkpointId : String) : List (PutWrites J) :=
  (live ops threadId).filterMap (Op.writesTo threadId checkpointNs checkpointId)

/-- What was put. -/
def Put.checkpointOf (call : Put json) : Checkpoint J where
  threadId := call.threadId
  checkpointNs := call.checkpointNs
  checkpointId := call.checkpointId
  parentCheckpointId := call.parentCheckpointId
  type := some "json"
  checkpoint := call.checkpoint.1
  metadata := (call.metadata.getD json.noEntries).1
  createdAt := (DateTime.ofInstant call.now).isoformat

/-- The last put under each id, the newest first. -/
def newest (ops : List (Op json)) (threadId checkpointNs : String) : List (Put json) :=
  (Log.lasting Put.checkpointId (putsOf ops threadId checkpointNs)).reverse

/-- The call names the task at a position. -/
def PutWrites.NamesAt (call : PutWrites J) (task : String) (i : ℕ) : Prop :=
  (call.writes[i]?).map Write.taskId = some task

def PutWrites.names (call : PutWrites J) (task : String) : Bool := call.writes.any fun write => write.taskId = task

/-- The last call that names the task. -/
def lastNaming (ops : List (Op json)) (threadId checkpointNs checkpointId task : String) : Option (PutWrites J) :=
  ((callsOf ops threadId checkpointNs checkpointId).filter fun call => call.names task).getLast?

/-- Its writes for the task. -/
def writesFor (ops : List (Op json)) (threadId checkpointNs checkpointId task : String) : List (Write J) :=
  match lastNaming ops threadId checkpointNs checkpointId task with
  | some call => call.writes.filter fun write => write.taskId = task
  | none => []

/-! ## Reads -/

inductive Read where
  | get (threadId checkpointNs : String) (checkpointId : Option String)
  | list (threadId checkpointNs : String) (limit : ℕ)
  | getWrites (threadId checkpointNs checkpointId task : String)

def Read.threadId : Read → String
  | get t _ _ | list t _ _ | getWrites t _ _ _ => t

def Read.checkpointNs : Read → String
  | get _ ns _ | list _ ns _ | getWrites _ ns _ _ => ns

/-- What is read: a checkpoint, checkpoints, the channels and values of a task. -/
inductive Answer (J : Type) where
  | checkpoint (found : Option (Checkpoint J))
  | checkpoints (found : List (Checkpoint J))
  | writes (found : List (String × Option J))

def perform (driver : Driver json) (planner : Planner json) (tables : Tables json) : Read → Except Exc (Answer J)
  | .get t ns id => (get driver planner tables t ns id).map .checkpoint
  | .list t ns limit => (list driver planner tables t ns limit).map .checkpoints
  | .getWrites t ns id task => (getWrites driver planner tables t ns id).map fun items =>
      .writes ((items.filter fun write => write.taskId = task).map fun write => (write.channel, write.value))

/-- What the map holds there. -/
def expected (ops : List (Op json)) : Read → Answer J
  | .get t ns none => .checkpoint ((putsOf ops t ns).getLast?.map Put.checkpointOf)
  | .get t ns (some id) =>
    .checkpoint (((putsOf ops t ns).filter fun call => call.checkpointId = id).getLast?.map Put.checkpointOf)
  | .list t ns limit => .checkpoints (((newest ops t ns).take limit).map Put.checkpointOf)
  | .getWrites t ns id task => .writes ((writesFor ops t ns id task).map fun write => (write.channel, write.value))

/-- The operation is on the thread, and on the namespace when it is not on all. -/
def Op.concerns (threadId checkpointNs : String) : Op json → Prop
  | .put call => call.threadId = threadId ∧ call.checkpointNs = checkpointNs
  | .putWrites call => call.threadId = threadId ∧ call.checkpointNs = checkpointNs
  | .deleteThread t => t = threadId

/-- A read returns what the map holds, and goes on to whatever is done to other threads and namespaces. -/
structure Recalls (driver : Driver json) (planner : Planner json) (ops : List (Op json)) (read : Read) : Prop where
  value : perform driver planner (run ops) read = .ok (expected ops read)
  apart : ∀ op : Op json, ¬op.concerns read.threadId read.checkpointNs →
    perform driver planner (run (ops ++ [op])) read = perform driver planner (run ops) read

/-- The clock goes forward from put to put. -/
def Op.time : Op json → Option ℤ
  | .put call => some call.now
  | _ => none

def Ticking (ops : List (Op json)) : Prop := (ops.filterMap Op.time).Pairwise (· < ·)

instance (ops : List (Op json)) : Decidable (Ticking ops) :=
  inferInstanceAs (Decidable ((ops.filterMap Op.time).Pairwise (· < ·)))

/-- When a read is right: an empty id is that of the last put, or nothing is put; the values that last for a checkpoint
can be decoded, the last call naming a task overwrites all earlier positions of it, and its values decode to
themselves. -/
def Faithful (driver : Driver json) (ops : List (Op json)) : Read → Prop
  | .get _ _ none => True
  | .get t ns (some id) => id = "" → ∀ call ∈ (putsOf ops t ns).getLast?, call.checkpointId = ""
  | .list _ _ _ => True
  | .getWrites t ns id task =>
    (∀ row ∈ Log.lasting WriteRow.key ((callsOf ops t ns id).flatMap PutWrites.rows), ∀ v ∈ row.value,
        ∃ v', driver.load v = .ok v') ∧
      (∀ last ∈ lastNaming ops t ns id task, ∀ call ∈ callsOf ops t ns id, ∀ i,
        call.NamesAt task i → last.NamesAt task i) ∧
        ∀ write ∈ writesFor ops t ns id task, ∀ v ∈ write.value, driver.load v = .ok v

/-! ## The tables after a sequence of calls -/

/-- `checkpoints` as a log of puts and deletions. -/
def Op.checkpointEvent : Op json → Log.Event String (CheckpointRow json)
  | .put call => .write [call.row]
  | .putWrites _ => .write []
  | .deleteThread t => .erase t

def Op.writeEvent : Op json → Log.Event String (WriteRow J)
  | .put _ => .write []
  | .putWrites call => .write call.rows
  | .deleteThread t => .erase t

/-- All rows have the same type, so an update leaves nothing of the old row. -/
theorem upsert_eq {κ ε : Type} [DecidableEq κ] {key : ε → κ} {update : ε → ε → ε} {table : List ε} {row : ε}
    (h : ∀ old ∈ table, update old row = row) : upsert key update table row = Log.put key table row := by
  rw [upsert]
  cases hfind : table.find? fun old => key old = key row with
  | none => rfl
  | some old => rw [Option.map_some, Option.getD_some, h old (List.mem_of_find?_eq_some hfind)]

theorem mem_put {κ ε : Type} [DecidableEq κ] {key : ε → κ} {table : List ε} {row row' : ε}
    (h : row' ∈ Log.put key table row) : row' ∈ table ∨ row' = row := by
  obtain h | h := List.mem_append.mp h
  · exact .inl (List.mem_of_mem_filter h)
  · exact .inr (List.mem_singleton.mp h)

/-- The type of every row. -/
structure Typed (tables : Tables json) : Prop where
  checkpoints : ∀ row ∈ tables.checkpoints, row.type = some "json"
  writes : ∀ row ∈ tables.writes, row.type = some "json"

theorem CheckpointRow.update_eq {old row : CheckpointRow json} (h : old.type = row.type) : old.update row = row := by
  rw [update, h]

theorem WriteRow.update_eq {old row : WriteRow J} (h : old.type = row.type) : old.update row = row := by
  rw [update, h]

theorem type_rows {call : PutWrites J} : ∀ row ∈ call.rows, row.type = some "json" := by
  intro row hrow
  obtain ⟨write, -, rfl⟩ := List.mem_map.mp hrow
  rfl

theorem foldl_upsert_writes (rows table : List (WriteRow J)) (hrows : ∀ row ∈ rows, row.type = some "json")
    (htable : ∀ row ∈ table, row.type = some "json") :
    rows.foldl (upsert WriteRow.key WriteRow.update) table = rows.foldl (Log.put WriteRow.key) table ∧
      ∀ row ∈ rows.foldl (Log.put WriteRow.key) table, row.type = some "json" := by
  induction rows generalizing table with
  | nil => exact ⟨rfl, htable⟩
  | cons row rows ih =>
    obtain ⟨hrow, hrows⟩ := List.forall_mem_cons.mp hrows
    rw [List.foldl_cons, List.foldl_cons,
      upsert_eq fun old hold => WriteRow.update_eq ((htable old hold).trans hrow.symm)]
    refine ih _ hrows fun row' hrow' => ?_
    obtain hold | rfl := mem_put hrow'
    · exact htable row' hold
    · exact hrow

/-- The tables hold what the logs of the calls leave. -/
theorem run_tables (ops : List (Op json)) : Typed (run ops) ∧
    (run ops).checkpoints = Log.replay CheckpointRow.key CheckpointRow.threadId (ops.map Op.checkpointEvent) ∧
      (run ops).writes = Log.replay WriteRow.key WriteRow.threadId (ops.map Op.writeEvent) := by
  induction ops using List.reverseRecOn with
  | nil => exact ⟨⟨fun row h => absurd h List.not_mem_nil, fun row h => absurd h List.not_mem_nil⟩, rfl, rfl⟩
  | append_singleton ops op ih =>
    obtain ⟨htyped, hcheckpoints, hwrites⟩ := ih
    rw [run, List.foldl_concat, ← run, List.map_append, List.map_append, Log.replay, Log.replay, List.map_singleton,
      List.map_singleton, List.foldl_concat, List.foldl_concat, ← Log.replay, ← Log.replay, ← hcheckpoints, ← hwrites]
    cases op with
    | put call =>
      have hput : upsert CheckpointRow.key CheckpointRow.update (run ops).checkpoints call.row =
          Log.put CheckpointRow.key (run ops).checkpoints call.row :=
        upsert_eq fun old hold => CheckpointRow.update_eq (htyped.checkpoints old hold)
      refine ⟨⟨fun row hrow => ?_, htyped.writes⟩, hput, rfl⟩
      have hrow' : row ∈ Log.put CheckpointRow.key (run ops).checkpoints call.row := by
        rw [← hput]
        exact hrow
      obtain hold | rfl := mem_put hrow'
      · exact htyped.checkpoints row hold
      · rfl
    | putWrites call =>
      obtain ⟨heq, htypes⟩ := foldl_upsert_writes call.rows (run ops).writes type_rows htyped.writes
      exact ⟨⟨htyped.checkpoints, fun row hrow => htypes row (heq ▸ hrow)⟩, rfl, heq⟩
    | deleteThread t =>
      exact ⟨⟨fun row hrow => htyped.checkpoints row (List.mem_of_mem_filter hrow),
        fun row hrow => htyped.writes row (List.mem_of_mem_filter hrow)⟩, rfl, rfl⟩

/-! ## The rows of a checkpoint -/

theorem flatMap_checkpointEvent (l : List (Op json)) : ((l.map Op.checkpointEvent).flatMap Log.Event.entries).filter
      (fun row => row.threadId = t ∧ row.checkpointNs = ns) = (l.filterMap (Op.putIn t ns)).map Put.row := by
  induction l with
  | nil => rfl
  | cons op l ih =>
    rw [List.map_cons, List.flatMap_cons, List.filter_append, ih]
    cases op with
    | put call =>
      by_cases hin : call.threadId = t ∧ call.checkpointNs = ns
      · simp [Op.checkpointEvent, Log.Event.entries, Op.putIn, Put.row, hin]
      · simp [Op.checkpointEvent, Log.Event.entries, Op.putIn, Put.row, hin]
    | putWrites call => rfl
    | deleteThread t => rfl

theorem filter_rows (call : PutWrites J) : call.rows.filter
      (fun row => row.threadId = t ∧ row.checkpointNs = ns ∧ row.checkpointId = id) =
      if call.threadId = t ∧ call.checkpointNs = ns ∧ call.checkpointId = id then call.rows else [] := by
  have hrow : ∀ row ∈ call.rows, row.threadId = call.threadId ∧ row.checkpointNs = call.checkpointNs ∧
      row.checkpointId = call.checkpointId := by
    intro row hrow
    obtain ⟨write, -, rfl⟩ := List.mem_map.mp hrow
    exact ⟨rfl, rfl, rfl⟩
  by_cases hin : call.threadId = t ∧ call.checkpointNs = ns ∧ call.checkpointId = id
  · rw [if_pos hin, List.filter_eq_self]
    intro row h
    obtain ⟨ht, hns, hid⟩ := hrow row h
    simp [ht, hns, hid, hin]
  · rw [if_neg hin, List.filter_eq_nil_iff]
    intro row h
    obtain ⟨ht, hns, hid⟩ := hrow row h
    simpa [ht, hns, hid] using hin

theorem flatMap_writeEvent (l : List (Op json)) : ((l.map Op.writeEvent).flatMap Log.Event.entries).filter
      (fun row => row.threadId = t ∧ row.checkpointNs = ns ∧ row.checkpointId = id) =
      (l.filterMap (Op.writesTo t ns id)).flatMap PutWrites.rows := by
  induction l with
  | nil => rfl
  | cons op l ih =>
    rw [List.map_cons, List.flatMap_cons, List.filter_append, ih]
    cases op with
    | put call => rfl
    | putWrites call =>
      rw [Op.writeEvent, Log.Event.entries, filter_rows]
      by_cases hin : call.threadId = t ∧ call.checkpointNs = ns ∧ call.checkpointId = id
      · have hsome : Op.writesTo t ns id (.putWrites call : Op json) = some call := if_pos hin
        rw [if_pos hin, List.filterMap_cons_some hsome, List.flatMap_cons]
      · have hnone : Op.writesTo t ns id (.putWrites call : Op json) = none := if_neg hin
        rw [if_neg hin, List.filterMap_cons_none hnone, List.nil_append]
    | deleteThread t => rfl

/-- The rows of a thread in a namespace are what lasts of the puts on them. -/
theorem checkpointsOf_run (ops : List (Op json)) (t ns : String) :
    (run ops).checkpointsOf t ns = Log.lasting CheckpointRow.key ((putsOf ops t ns).map Put.row) := by
  have hkey (row row' : CheckpointRow json) (h : row.key = row'.key) :
      decide (row.threadId = t ∧ row.checkpointNs = ns) = decide (row'.threadId = t ∧ row'.checkpointNs = ns) := by
    obtain ⟨ht, hrest⟩ := Prod.mk.inj h
    rw [ht, (Prod.mk.inj hrest).1]
  have herases (op : Op json) : op.checkpointEvent.erases t = op.deletes t := by cases op <;> rfl
  rw [Tables.checkpointsOf, (run_tables ops).2.1,
    Log.filter_replay (g := t) hkey (fun row h => (of_decide_eq_true h).1), Log.rtakeWhile_map, flatMap_checkpointEvent]
  simp only [Function.comp_def, herases]
  rfl

theorem writesOf_run (ops : List (Op json)) (t ns id : String) :
    (run ops).writesOf t ns id = Log.lasting WriteRow.key ((callsOf ops t ns id).flatMap PutWrites.rows) := by
  have hkey (row row' : WriteRow J) (h : row.key = row'.key) :
      decide (row.threadId = t ∧ row.checkpointNs = ns ∧ row.checkpointId = id) =
        decide (row'.threadId = t ∧ row'.checkpointNs = ns ∧ row'.checkpointId = id) := by
    obtain ⟨ht, hrest⟩ := Prod.mk.inj h
    obtain ⟨hns, hrest⟩ := Prod.mk.inj hrest
    rw [ht, hns, (Prod.mk.inj hrest).1]
  have herases (op : Op json) : op.writeEvent.erases t = op.deletes t := by cases op <;> rfl
  rw [Tables.writesOf, (run_tables ops).2.2,
    Log.filter_replay (g := t) hkey (fun row h => (of_decide_eq_true h).1), Log.rtakeWhile_map, flatMap_writeEvent]
  simp only [Function.comp_def, herases]
  rfl

/-! ## Checkpoints -/

/-- A dict is read as it was written. -/
theorem load_dict (driver : Driver json) (d : json.Dict) : driver.load d.1 = .ok d.1 := by
  cases driver with
  | decoding => rw [Driver.load, Driver.fetch, d.2]
  | textual text roundtrip => simp only [Driver.load, Driver.fetch, roundtrip]

theorem readCheckpoint_row (driver : Driver json) (call : Put json) :
    readCheckpoint driver call.row = .ok call.checkpointOf := by
  have hcheckpoint : driver.load call.row.checkpoint.1 = .ok call.checkpoint.1 := load_dict driver call.checkpoint
  have hmetadata := load_dict driver call.row.metadata
  rw [readCheckpoint, hcheckpoint, hmetadata]
  rfl

theorem mem_putsOf {call : Put json} (h : call ∈ putsOf ops t ns) : call.threadId = t ∧ call.checkpointNs = ns := by
  obtain ⟨op, -, hop⟩ := List.mem_filterMap.mp h
  cases op with
  | put call' =>
    by_cases hin : call'.threadId = t ∧ call'.checkpointNs = ns
    · have hsome : Op.putIn t ns (.put call') = some call' := if_pos hin
      obtain rfl := Option.some.inj (hsome.symm.trans hop)
      exact hin
    · have hnone : Op.putIn t ns (.put call') = none := if_neg hin
      cases hnone.symm.trans hop
  | putWrites | deleteThread => cases hop

theorem now_filterMap (l : List (Op json)) :
    ((l.filterMap (Op.putIn t ns)).map Put.now).Sublist (l.filterMap Op.time) := by
  induction l with
  | nil => exact .slnil
  | cons op l ih =>
    cases op with
    | put call =>
      by_cases hin : call.threadId = t ∧ call.checkpointNs = ns
      · have hsome : Op.putIn t ns (.put call) = some call := if_pos hin
        rw [List.filterMap_cons_some hsome]
        exact ih.cons_cons call.now
      · have hnone : Op.putIn t ns (.put call) = none := if_neg hin
        rw [List.filterMap_cons_none hnone]
        exact ih.cons call.now
    | putWrites | deleteThread => exact ih

theorem Ticking.putsOf (h : Ticking ops) (t ns : String) : (putsOf ops t ns).Pairwise fun a b => a.now < b.now := by
  have hlive : (live ops t).Sublist ops := List.IsSuffix.sublist (List.rtakeWhile_suffix _ _)
  exact List.pairwise_map.mp ((h.sublist (hlive.filterMap Op.time)).sublist (now_filterMap (live ops t)))

/-- The rows of a thread in a namespace, as puts. -/
theorem checkpointsOf_eq (ops : List (Op json)) (t ns : String) :
    (run ops).checkpointsOf t ns = (Log.lasting Put.checkpointId (putsOf ops t ns)).map Put.row := by
  rw [checkpointsOf_run, Log.lasting_map]
  refine congrArg _ (Log.lasting_congr fun a ha b hb => ?_)
  obtain ⟨hat, hans⟩ := mem_putsOf ha
  obtain ⟨hbt, hbns⟩ := mem_putsOf hb
  simp [CheckpointRow.key, Put.row, hat, hans, hbt, hbns]

/-- Newest first is the reverse of the order of the puts. -/
theorem newestFirst_eq (planner : Planner json) (hclock : Ticking ops) (t ns : String) :
    planner.newestFirst ((run ops).checkpointsOf t ns) = (newest ops t ns).map Put.row := by
  rw [checkpointsOf_eq, newest, List.map_reverse]
  have htimes : (Log.lasting Put.checkpointId (putsOf ops t ns)).Pairwise fun a b => a.now < b.now :=
    (hclock.putsOf t ns).sublist (Log.lasting_sublist _ _)
  rw [← List.reverse_eq_iff]
  refine Log.eq_of_sorted CheckpointRow.createdAt ?_ ?_ (List.pairwise_map.mpr htimes)
  · exact (List.reverse_perm _).trans (planner.newestFirst_perm _)
  · exact List.pairwise_reverse.mpr (planner.newestFirst_sorted _)

theorem head?_newest (ops : List (Op json)) (t ns : String) : (newest ops t ns).head? = (putsOf ops t ns).getLast? := by
  rw [newest, List.head?_reverse, Log.getLast?_lasting]

/-- The checkpoint of the first row that a query of `get` finds. -/
theorem firstCheckpoint_eq {rows : List (CheckpointRow json)} {call : Option (Put json)}
    (h : rows.head? = call.map Put.row) : firstCheckpoint driver rows = .ok (call.map Put.checkpointOf) := by
  rw [firstCheckpoint, h]
  cases call with
  | none => rfl
  | some call =>
    simp only [Option.map_some, readCheckpoint_row]
    rfl

theorem head?_take_newestFirst (planner : Planner json) (hclock : Ticking ops) (t ns : String) :
    ((planner.newestFirst ((run ops).checkpointsOf t ns)).take 1).head? = (putsOf ops t ns).getLast?.map Put.row := by
  rw [newestFirst_eq planner hclock, List.head?_take, if_neg Nat.one_ne_zero, List.head?_map, head?_newest]

theorem get_latest (hclock : Ticking ops) (t ns : String) :
    get driver planner (run ops) t ns none = .ok ((putsOf ops t ns).getLast?.map Put.checkpointOf) :=
  firstCheckpoint_eq (head?_take_newestFirst planner hclock t ns)

theorem get_emptyId (hclock : Ticking ops) (t ns : String) :
    get driver planner (run ops) t ns (some "") = .ok ((putsOf ops t ns).getLast?.map Put.checkpointOf) :=
  firstCheckpoint_eq (head?_take_newestFirst planner hclock t ns)

theorem get_byId (hid : id ≠ "") (t ns : String) : get driver planner (run ops) t ns (some id) =
    .ok (((putsOf ops t ns).filter fun call => call.checkpointId = id).getLast?.map Put.checkpointOf) := by
  have hrows : (((run ops).checkpointsOf t ns).filter fun row => row.checkpointId = id).head? =
      ((putsOf ops t ns).filter fun call => call.checkpointId = id).getLast?.map Put.row := by
    rw [checkpointsOf_eq, List.filter_map, List.head?_map]
    refine congrArg _ ?_
    have hkey (a b : Put json) (h : a.checkpointId = b.checkpointId) :
        decide (a.checkpointId = id) = decide (b.checkpointId = id) := by rw [h]
    have hone : (Log.lasting Put.checkpointId ((putsOf ops t ns).filter fun call => call.checkpointId = id)).head? =
        ((putsOf ops t ns).filter fun call => call.checkpointId = id).getLast? := by
      refine Log.lasting_of_one_key fun a ha b hb => ?_
      exact (of_decide_eq_true (List.mem_filter.mp ha).2).trans (of_decide_eq_true (List.mem_filter.mp hb).2).symm
    rw [← hone, ← Log.filter_lasting hkey]
    rfl
  rw [get]
  simp only [if_neg hid]
  exact firstCheckpoint_eq hrows

theorem list_eq (hclock : Ticking ops) (t ns : String) (limit : ℕ) :
    list driver planner (run ops) t ns limit = .ok (((newest ops t ns).take limit).map Put.checkpointOf) := by
  rw [list, newestFirst_eq planner hclock, ← List.map_take]
  refine mapM_eq_ok.mpr ?_
  rw [List.map_map, List.map_map]
  exact List.map_congr_left fun call _ => readCheckpoint_row driver call

end Lingshu.Copilot.Saver
