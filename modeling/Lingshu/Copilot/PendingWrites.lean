import Lingshu.Copilot.Checkpoints

/-! # What the checkpoint store recalls of pending writes

Writes are keyed by their position in the call, so those of earlier calls stay where the last one has none; and where the
driver decodes JSON, a text is decoded once more than it was encoded. -/
namespace Lingshu.Copilot.Saver
open Lingshu.Data Json
set_option autoImplicit false

variable {J : Type} {json : PyJson J} {driver : Driver json} {planner : Planner json} {ops : List (Op json)}
  {t ns id task : String}

/-! ## Writes -/

/-- The value of the row can be decoded. -/
def Decodes (driver : Driver json) (row : WriteRow J) : Prop := ∀ v ∈ row.value, ∃ v', driver.load v = .ok v'

/-- What it decodes to. -/
def WriteRow.shown (driver : Driver json) (row : WriteRow J) : Option J :=
  row.value.bind fun v => (driver.load v).toOption

def WriteRow.pending (driver : Driver json) (row : WriteRow J) : PendingWrite J where
  taskId := row.taskId
  idx := row.idx
  channel := row.channel
  type := row.type
  value := row.shown driver

theorem readWrite_ok_iff {row : WriteRow J} {item : PendingWrite J} :
    readWrite driver row = .ok item ↔ Decodes driver row ∧ item = row.pending driver := by
  rw [readWrite, Decodes, WriteRow.pending, WriteRow.shown]
  cases row.value with
  | none => simp [bind, Except.bind, pure, Except.pure, eq_comm]
  | some v =>
    cases hload : driver.load v with
    | error e => simp [hload, Except.map, bind, Except.bind]
    | ok v' => simp [hload, Except.map, Except.toOption, bind, Except.bind, pure, Except.pure, eq_comm]

theorem mapM_readWrite {rows : List (WriteRow J)} {items : List (PendingWrite J)} :
    rows.mapM (readWrite driver) = .ok items ↔
      (∀ row ∈ rows, Decodes driver row) ∧ items = rows.map (WriteRow.pending driver) := by
  rw [mapM_eq_ok]
  induction rows generalizing items with
  | nil => cases items <;> simp
  | cons row rows ih =>
    rw [List.map_cons, List.map_cons, List.forall_mem_cons]
    cases items with
    | nil => simp
    | cons item items =>
      rw [List.map_cons, List.cons.injEq, List.cons.injEq, ih, readWrite_ok_iff]
      tauto

/-- The rows of a task, in the order in which they are read. -/
def taskRows (planner : Planner json) (ops : List (Op json)) (t ns id task : String) : List (WriteRow J) :=
  (planner.byIdx ((run ops).writesOf t ns id)).filter fun row => row.taskId = task

theorem perform_getWrites (ops : List (Op json)) (t ns id task : String) (found : List (String × Option J)) :
    perform driver planner (run ops) (.getWrites t ns id task) = .ok (.writes found) ↔
      (∀ row ∈ (run ops).writesOf t ns id, Decodes driver row) ∧
        (taskRows planner ops t ns id task).map (fun row => (row.channel, row.shown driver)) = found := by
  have hmem : (∀ row ∈ planner.byIdx ((run ops).writesOf t ns id), Decodes driver row) ↔
      ∀ row ∈ (run ops).writesOf t ns id, Decodes driver row :=
    forall_congr' fun row => imp_congr_left (planner.byIdx_perm _).mem_iff
  have hitems (rows : List (WriteRow J)) :
      (((rows.map (WriteRow.pending driver)).filter fun write => write.taskId = task).map fun write =>
        (write.channel, write.value)) =
      (rows.filter fun row => row.taskId = task).map fun row => (row.channel, row.shown driver) := by
    rw [List.filter_map, List.map_map]
    rfl
  rw [perform, getWrites, ← hmem]
  cases hread : (planner.byIdx ((run ops).writesOf t ns id)).mapM (readWrite driver) with
  | error e =>
    refine iff_of_false (fun h => (nomatch h)) fun h => ?_
    rw [mapM_readWrite.mpr ⟨h.1, rfl⟩] at hread
    cases hread
  | ok items =>
    obtain ⟨hdecodes, rfl⟩ := mapM_readWrite.mp hread
    rw [and_iff_right hdecodes, taskRows, ← hitems, Except.map, Except.ok.injEq, Answer.writes.injEq]

/-! ## Positions -/

theorem mem_rows {call : PutWrites J} {row : WriteRow J} :
    row ∈ call.rows ↔ ∃ (write : Write J) (i : ℕ), call.writes[i]? = some write ∧ row = write.row call i := by
  rw [PutWrites.rows, List.mem_map]
  constructor
  · rintro ⟨⟨write, i⟩, hmem, rfl⟩
    exact ⟨write, i, List.mem_zipIdx_iff_getElem?.mp hmem, rfl⟩
  · rintro ⟨write, i, hwrite, rfl⟩
    exact ⟨(write, i), List.mem_zipIdx_iff_getElem?.mpr hwrite, rfl⟩

theorem namesAt_iff {call : PutWrites J} {i : ℕ} :
    call.NamesAt task i ↔ ∃ row ∈ call.rows, row.taskId = task ∧ row.idx = i := by
  rw [PutWrites.NamesAt, Option.map_eq_some_iff]
  constructor
  · rintro ⟨write, hwrite, rfl⟩
    exact ⟨write.row call i, mem_rows.mpr ⟨write, i, hwrite, rfl⟩, rfl, rfl⟩
  · rintro ⟨row, hrow, rfl, rfl⟩
    obtain ⟨write, i, hwrite, rfl⟩ := mem_rows.mp hrow
    exact ⟨write, hwrite, rfl⟩

/-- The rows that a call writes for the task. -/
def PutWrites.rowsFor (call : PutWrites J) (task : String) : List (WriteRow J) :=
  call.rows.filter fun row => row.taskId = task

theorem mem_rowsFor {call : PutWrites J} {row : WriteRow J} :
    row ∈ call.rowsFor task ↔ row ∈ call.rows ∧ row.taskId = task := by
  simp [PutWrites.rowsFor]

theorem names_iff {call : PutWrites J} : call.names task = true ↔ ∃ i, call.NamesAt task i := by
  rw [PutWrites.names, List.any_eq_true]
  constructor
  · rintro ⟨write, hmem, htask⟩
    obtain ⟨i, hi⟩ := List.mem_iff_getElem?.mp hmem
    exact ⟨i, by rw [PutWrites.NamesAt, hi, Option.map_some, of_decide_eq_true htask]⟩
  · rintro ⟨i, hi⟩
    obtain ⟨write, hwrite, rfl⟩ := Option.map_eq_some_iff.mp hi
    exact ⟨write, List.mem_of_getElem? hwrite, decide_eq_true rfl⟩

theorem rows_sorted (call : PutWrites J) : call.rows.Pairwise fun a b => a.idx < b.idx := by
  refine List.pairwise_map.mpr ?_
  have hindices : (call.writes.zipIdx.map Prod.snd).Pairwise (· < ·) := by
    rw [List.zipIdx_map_snd]
    exact List.pairwise_lt_range'
  exact List.pairwise_map.mp hindices

theorem rowsFor_sorted (call : PutWrites J) (task : String) : (call.rowsFor task).Pairwise fun a b => a.idx < b.idx :=
  (rows_sorted call).filter _

theorem rowsFor_map {α : Type} (call : PutWrites J) (task : String) (f : String → Option J → α) :
    (call.rowsFor task).map (fun row => f row.channel row.value) =
      (call.writes.filter fun write => write.taskId = task).map fun write => f write.channel write.value := by
  have hwrites : call.writes = call.writes.zipIdx.map Prod.fst := (List.zipIdx_map_fst 0 call.writes).symm
  rw [PutWrites.rowsFor, PutWrites.rows, List.filter_map, List.map_map]
  conv_rhs => rw [hwrites, List.filter_map, List.map_map]
  rfl

/-! ## What is read for a task -/

theorem mem_callsOf {call : PutWrites J} (h : call ∈ callsOf ops t ns id) :
    call.threadId = t ∧ call.checkpointNs = ns ∧ call.checkpointId = id := by
  obtain ⟨op, -, hop⟩ := List.mem_filterMap.mp h
  cases op with
  | putWrites call' =>
    by_cases hin : call'.threadId = t ∧ call'.checkpointNs = ns ∧ call'.checkpointId = id
    · have hsome : Op.writesTo t ns id (.putWrites call' : Op json) = some call' := if_pos hin
      obtain rfl := Option.some.inj (hsome.symm.trans hop)
      exact hin
    · have hnone : Op.writesTo t ns id (.putWrites call' : Op json) = none := if_neg hin
      cases hnone.symm.trans hop
  | put | deleteThread => cases hop

/-- Rows of one checkpoint and one task have different keys at different positions. -/
theorem key_eq_iff {call call' : PutWrites J} (hcall : call ∈ callsOf ops t ns id) (hcall' : call' ∈ callsOf ops t ns id)
    {row row' : WriteRow J} (hrow : row ∈ call.rowsFor task) (hrow' : row' ∈ call'.rowsFor task) :
    row'.key = row.key ↔ row'.idx = row.idx := by
  obtain ⟨hrow, htask⟩ := mem_rowsFor.mp hrow
  obtain ⟨hrow', htask'⟩ := mem_rowsFor.mp hrow'
  obtain ⟨write, i, -, rfl⟩ := mem_rows.mp hrow
  obtain ⟨write', i', -, rfl⟩ := mem_rows.mp hrow'
  obtain ⟨ht, hns, hid⟩ := mem_callsOf hcall
  obtain ⟨ht', hns', hid'⟩ := mem_callsOf hcall'
  simp [WriteRow.key, Write.row, ht, hns, hid, ht', hns', hid',
    show write'.taskId = write.taskId from htask'.trans htask.symm]

/-- The rows of the task that a sequence of calls writes. -/
def rowsOfTask (calls : List (PutWrites J)) (task : String) : List (WriteRow J) :=
  calls.flatMap fun call => call.rowsFor task

theorem filter_rowsOf (calls : List (PutWrites J)) (task : String) :
    (calls.flatMap PutWrites.rows).filter (fun row => row.taskId = task) =
      rowsOfTask (calls.filter fun call => call.names task) task := by
  rw [List.filter_flatMap, rowsOfTask]
  induction calls with
  | nil => rfl
  | cons call calls ih =>
    rw [List.flatMap_cons, ih, List.filter_cons]
    cases hnames : call.names task with
    | true => rfl
    | false =>
      have hnone : call.rows.filter (fun row => row.taskId = task) = [] := by
        refine List.filter_eq_nil_iff.mpr fun row hrow htask => ?_
        have hat : call.NamesAt task row.idx := namesAt_iff.mpr ⟨row, hrow, of_decide_eq_true htask, rfl⟩
        rw [names_iff.mpr ⟨row.idx, hat⟩] at hnames
        cases hnames
      rw [hnone, if_neg Bool.false_ne_true]
      rfl

/-- The rows of a task are what lasts of the calls that name it. -/
theorem taskRows_perm_lasting (planner : Planner json) (ops : List (Op json)) (t ns id task : String) :
    (taskRows planner ops t ns id task).Perm
      (Log.lasting WriteRow.key (rowsOfTask ((callsOf ops t ns id).filter fun call => call.names task) task)) := by
  have hkey (a b : WriteRow J) (hab : a.key = b.key) : decide (a.taskId = task) = decide (b.taskId = task) := by
    have htask : a.taskId = b.taskId := (Prod.mk.inj (Prod.mk.inj (Prod.mk.inj (Prod.mk.inj hab).2).2).2).1
    rw [htask]
  rw [taskRows, ← filter_rowsOf, ← Log.filter_lasting hkey, ← writesOf_run]
  exact (planner.byIdx_perm _).filter _

/-- Rows of the task that the last call naming it leaves where they are. -/
def leftOver (earlier : List (PutWrites J)) (last : PutWrites J) (task : String) : List (WriteRow J) :=
  (Log.lasting WriteRow.key (rowsOfTask earlier task)).filter fun row => ∀ row' ∈ last.rowsFor task, row'.key ≠ row.key

section Last
variable {earlier : List (PutWrites J)} {last : PutWrites J}

theorem mem_calls_of_last (h : (callsOf ops t ns id).filter (fun call => call.names task) = earlier ++ [last])
    {call : PutWrites J} : call ∈ earlier ++ [last] ↔ call ∈ callsOf ops t ns id ∧ call.names task = true := by
  rw [← h, List.mem_filter]

theorem taskRows_perm (planner : Planner json)
    (h : (callsOf ops t ns id).filter (fun call => call.names task) = earlier ++ [last]) :
    (taskRows planner ops t ns id task).Perm (leftOver earlier last task ++ last.rowsFor task) := by
  have hlast : last ∈ callsOf ops t ns id :=
    ((mem_calls_of_last h).mp (List.mem_append_right _ List.mem_cons_self)).1
  have hdistinct : (last.rowsFor task).Pairwise fun a b => a.key ≠ b.key :=
    (rowsFor_sorted last task).imp_of_mem fun ha hb hab hkeys =>
      absurd ((key_eq_iff hlast hlast hb ha).mp hkeys) (ne_of_lt hab)
  have hrows := taskRows_perm_lasting planner ops t ns id task
  rw [h, rowsOfTask, List.flatMap_append, List.flatMap_singleton, Log.lasting_append,
    Log.lasting_eq_self hdistinct] at hrows
  exact hrows

theorem taskRows_sorted (planner : Planner json) (ops : List (Op json)) (t ns id task : String) :
    (taskRows planner ops t ns id task).Pairwise fun a b => a.idx ≤ b.idx :=
  (planner.byIdx_sorted _).filter _

/-- Nothing is left over when the last call names the task wherever an earlier one did. -/
theorem leftOver_eq_nil_iff (h : (callsOf ops t ns id).filter (fun call => call.names task) = earlier ++ [last]) :
    leftOver earlier last task = [] ↔
      ∀ call ∈ callsOf ops t ns id, ∀ i, call.NamesAt task i → last.NamesAt task i := by
  have hmem (call : PutWrites J) : call ∈ earlier ++ [last] ↔ call ∈ callsOf ops t ns id ∧ call.names task = true :=
    mem_calls_of_last h
  have hlast := ((hmem last).mp (List.mem_append_right _ List.mem_cons_self)).1
  constructor
  · intro hnil call hcall i hat
    obtain hearlier | hsame := List.mem_append.mp ((hmem call).mpr ⟨hcall, names_iff.mpr ⟨i, hat⟩⟩)
    · obtain ⟨row, hrow, htask, rfl⟩ := namesAt_iff.mp hat
      have hfor : row ∈ call.rowsFor task := mem_rowsFor.mpr ⟨hrow, htask⟩
      obtain ⟨row', hrow', hkey⟩ : ∃ row' ∈ Log.lasting WriteRow.key (rowsOfTask earlier task), row'.key = row.key :=
        Log.exists_lasting (List.mem_flatMap.mpr ⟨call, hearlier, hfor⟩)
      -- A row that lasts is overwritten, so the last call has one with its key.
      have hover := List.filter_eq_nil_iff.mp hnil row' hrow'
      simp only [decide_eq_true_eq, not_forall, not_not] at hover
      obtain ⟨row'', hrow'', hkey'⟩ := hover
      have hidx := (key_eq_iff hcall hlast hfor hrow'').mp (hkey'.trans hkey)
      obtain ⟨hin, htask''⟩ := mem_rowsFor.mp hrow''
      exact namesAt_iff.mpr ⟨row'', hin, htask'', hidx⟩
    · obtain rfl := List.mem_singleton.mp hsame
      exact hat
  · intro hover
    refine List.filter_eq_nil_iff.mpr fun row hrow hkeys => ?_
    obtain ⟨call, hcall, hfor⟩ := List.mem_flatMap.mp ((Log.lasting_sublist _ _).subset hrow)
    have hin := ((hmem call).mp (List.mem_append_left _ hcall)).1
    obtain ⟨hrow', htask⟩ := mem_rowsFor.mp hfor
    obtain ⟨row', hlastRow, htask', hidx⟩ :=
      namesAt_iff.mp (hover call hin row.idx (namesAt_iff.mpr ⟨row, hrow', htask, rfl⟩))
    have hfor' : row' ∈ last.rowsFor task := mem_rowsFor.mpr ⟨hlastRow, htask'⟩
    exact of_decide_eq_true hkeys row' hfor' ((key_eq_iff hin hlast hfor hfor').mpr hidx)

end Last

/-- The last call's writes are read back when nothing is left over and its values decode to themselves. -/
theorem taskRows_read_iff (planner : Planner json) {earlier : List (PutWrites J)} {last : PutWrites J}
    (h : (callsOf ops t ns id).filter (fun call => call.names task) = earlier ++ [last])
    (hdecodes : ∀ row ∈ last.rowsFor task, Decodes driver row) :
    (taskRows planner ops t ns id task).map (fun row => (row.channel, row.shown driver)) =
        (last.rowsFor task).map (fun row => (row.channel, row.value)) ↔
      leftOver earlier last task = [] ∧ ∀ row ∈ last.rowsFor task, ∀ v ∈ row.value, driver.load v = .ok v := by
  have hperm := taskRows_perm planner h
  have hsame (hnil : leftOver earlier last task = []) : taskRows planner ops t ns id task = last.rowsFor task := by
    rw [hnil, List.nil_append] at hperm
    exact Log.eq_of_sorted WriteRow.idx hperm (taskRows_sorted planner ops t ns id task) (rowsFor_sorted last task)
  have hshown (row : WriteRow J) (hrow : row ∈ last.rowsFor task) :
      row.shown driver = row.value ↔ ∀ v ∈ row.value, driver.load v = .ok v := by
    have hrow := hdecodes row hrow
    rw [Decodes] at hrow
    rw [WriteRow.shown]
    cases hvalue : row.value with
    | none => simp
    | some v =>
      obtain ⟨v', hv'⟩ := hrow v hvalue
      simp [hv', Except.toOption]
  constructor
  · intro heq
    have hnil : leftOver earlier last task = [] := by
      have hlength := congrArg List.length heq
      rw [List.length_map, List.length_map, hperm.length_eq, List.length_append] at hlength
      exact List.eq_nil_of_length_eq_zero (by omega)
    rw [hsame hnil] at heq
    refine ⟨hnil, fun row hrow => (hshown row hrow).mp ?_⟩
    exact (Prod.mk.inj (List.map_inj_left.mp heq row hrow)).2
  · rintro ⟨hnil, hvalues⟩
    rw [hsame hnil]
    exact List.map_congr_left fun row hrow => by rw [(hshown row hrow).mpr (hvalues row hrow)]

/-! ## Other threads and namespaces -/

theorem live_concat (ops : List (Op json)) {op : Op json} (h : op.deletes t = false) :
    live (ops ++ [op]) t = live ops t ++ [op] := by
  rw [live, List.rtakeWhile_concat_pos _ _ _ (by simp [h])]
  rfl

theorem not_deletes_of_apart {op : Op json} (h : ¬op.concerns t ns) : op.deletes t = false := by
  cases op with
  | put | putWrites => rfl
  | deleteThread t' => exact decide_eq_false h

theorem tables_apart (ops : List (Op json)) {op : Op json} (h : ¬op.concerns t ns) :
    (run (ops ++ [op])).checkpointsOf t ns = (run ops).checkpointsOf t ns ∧
      ∀ id, (run (ops ++ [op])).writesOf t ns id = (run ops).writesOf t ns id := by
  have hlive := live_concat ops (not_deletes_of_apart h)
  have hput : op.putIn t ns = none := by
    cases op with
    | put call => exact if_neg h
    | putWrites | deleteThread => rfl
  have hwrites (id : String) : op.writesTo t ns id = none := by
    cases op with
    | putWrites call => exact if_neg fun hin => h ⟨hin.1, hin.2.1⟩
    | put | deleteThread => rfl
  refine ⟨?_, fun id => ?_⟩
  · rw [checkpointsOf_run, checkpointsOf_run, putsOf, putsOf, hlive, List.filterMap_append,
      List.filterMap_cons_none hput, List.filterMap_nil, List.append_nil]
  · rw [writesOf_run, writesOf_run, callsOf, callsOf, hlive, List.filterMap_append,
      List.filterMap_cons_none (hwrites id), List.filterMap_nil, List.append_nil]

/-- No read of a thread and a namespace sees what is done to others. -/
theorem perform_apart (driver : Driver json) (planner : Planner json) (ops : List (Op json)) (read : Read)
    (op : Op json)
    (h : ¬op.concerns read.threadId read.checkpointNs) :
    perform driver planner (run (ops ++ [op])) read = perform driver planner (run ops) read := by
  obtain ⟨hcheckpoints, hwrites⟩ := tables_apart ops h
  cases read with
  | get t ns id =>
    have hrows : (run (ops ++ [op])).checkpointsOf t ns = (run ops).checkpointsOf t ns := hcheckpoints
    simp only [perform, get, hrows]
  | list t ns limit =>
    have hrows : (run (ops ++ [op])).checkpointsOf t ns = (run ops).checkpointsOf t ns := hcheckpoints
    rw [perform, perform, list, list, hrows]
  | getWrites t ns id task =>
    have hrows : (run (ops ++ [op])).writesOf t ns id = (run ops).writesOf t ns id := hwrites id
    rw [perform, perform, getWrites, getWrites, hrows]

/-! ## The store against the map -/

/-- An empty id finds the newest checkpoint. -/
theorem emptyId_iff (puts : List (Put json)) :
    puts.getLast?.map Put.checkpointOf =
        (puts.filter fun call => call.checkpointId = "").getLast?.map Put.checkpointOf ↔
      ∀ call ∈ puts.getLast?, call.checkpointId = "" := by
  induction puts using List.reverseRecOn with
  | nil => simp
  | append_singleton puts call _ =>
    rw [List.getLast?_concat, List.filter_append]
    by_cases hid : call.checkpointId = ""
    · rw [List.filter_cons_of_pos (by simpa using hid), List.filter_nil, List.getLast?_concat]
      simpa using hid
    · rw [List.filter_cons_of_neg (by simpa using hid), List.filter_nil, List.append_nil]
      refine iff_of_false (fun heq => ?_) fun h => hid (h call rfl)
      obtain ⟨found, hfound, hsame⟩ := Option.map_eq_some_iff.mp heq.symm
      have hempty := of_decide_eq_true (List.mem_filter.mp (List.mem_of_getLast? hfound)).2
      exact hid ((congrArg Checkpoint.checkpointId hsame).symm.trans hempty)

theorem getWrites_iff (driver : Driver json) (planner : Planner json) (ops : List (Op json)) (t ns id task : String) :
    perform driver planner (run ops) (.getWrites t ns id task) = .ok (expected ops (.getWrites t ns id task)) ↔
      Faithful driver ops (.getWrites t ns id task) := by
  rw [expected, perform_getWrites, Faithful, writesOf_run]
  refine and_congr_right fun hdecodes => ?_
  cases hlast : lastNaming ops t ns id task with
  | none =>
    have hnone : (callsOf ops t ns id).filter (fun call => call.names task) = [] := List.getLast?_eq_none_iff.mp hlast
    have hrows := taskRows_perm_lasting planner ops t ns id task
    rw [hnone] at hrows
    have hwrites : writesFor ops t ns id task = [] := by rw [writesFor, hlast]
    rw [hrows.eq_nil, hwrites]
    simp
  | some last =>
    obtain ⟨earlier, hcalls⟩ := List.getLast?_eq_some_iff.mp hlast
    have hwrites : writesFor ops t ns id task = last.writes.filter fun write => write.taskId = task := by
      rw [writesFor, hlast]
    have hdecodesLast : ∀ row ∈ last.rowsFor task, Decodes driver row := fun row hrow => by
      have hread := (taskRows_perm planner hcalls).mem_iff.mpr (List.mem_append_right _ hrow)
      refine hdecodes row ?_
      rw [← writesOf_run]
      exact (planner.byIdx_perm _).mem_iff.mp (List.mem_of_mem_filter hread)
    have hvalues : (∀ write ∈ last.writes.filter (fun write => write.taskId = task), ∀ v ∈ write.value,
        driver.load v = .ok v) ↔
        ∀ row ∈ last.rowsFor task, ∀ v ∈ row.value, driver.load v = .ok v := by
      have hmap := rowsFor_map last task fun _ value => value
      have hforall := List.forall_mem_map (f := WriteRow.value) (l := last.rowsFor task)
        (P := fun value => ∀ v ∈ value, driver.load v = .ok v)
      rw [← hforall, hmap, List.forall_mem_map]
    rw [hwrites, ← rowsFor_map last task Prod.mk, taskRows_read_iff planner hcalls hdecodesLast, hvalues,
      leftOver_eq_nil_iff hcalls]
    simp

/-- The store is a faithful map at a read when, and only when, the condition on the calls before it holds. -/
theorem recalls_iff (driver : Driver json) (planner : Planner json) (ops : List (Op json)) (hclock : Ticking ops)
    (read : Read) : Recalls driver planner ops read ↔ Faithful driver ops read := by
  have hvalue : Recalls driver planner ops read ↔ perform driver planner (run ops) read = .ok (expected ops read) :=
    ⟨Recalls.value, fun h => ⟨h, perform_apart driver planner ops read⟩⟩
  rw [hvalue]
  cases read with
  | get t ns id =>
    cases id with
    | none =>
      refine iff_of_true ?_ trivial
      rw [perform, get_latest hclock]
      rfl
    | some id =>
      by_cases hid : id = ""
      · subst hid
        rw [perform, get_emptyId hclock, expected, Except.map, Except.ok.injEq, Answer.checkpoint.injEq, emptyId_iff,
          Faithful]
        exact ⟨fun h _ => h, fun h => h rfl⟩
      · refine iff_of_true ?_ fun h => absurd h hid
        rw [perform, get_byId hid]
        rfl
  | list t ns limit =>
    refine iff_of_true ?_ trivial
    rw [perform, list_eq hclock]
    rfl
  | getWrites t ns id task => exact getWrites_iff driver planner ops t ns id task

/-! ## Examples -/

/-- JSON values, with `json.loads` on the texts of the literals. -/
def jsonValues : PyJson Value where
  asStr v := match v with
    | .str text => some text
    | _ => none
  loads text := [("null", Value.null), ("true", .bool true), ("false", .bool false)].lookup text
  emptyDict := .dict []
  asStr_emptyDict := rfl

def stablePlanner : Planner jsonValues where
  newestFirst := Log.sortBy fun row => -row.createdAt
  newestFirst_perm := Log.sortBy_perm _
  newestFirst_sorted rows := (Log.sortBy_pairwise (fun row : CheckpointRow jsonValues => -row.createdAt) rows).imp
    Int.neg_le_neg_iff.mp
  byIdx := Log.sortBy WriteRow.idx
  byIdx_perm := Log.sortBy_perm _
  byIdx_sorted := Log.sortBy_pairwise WriteRow.idx

/-- A put of a step of a thread. -/
def putStep (id : String) (step : ℤ) : Op jsonValues :=
  .put ⟨"thread-1", id, "", none, ⟨.dict [("step", .int step)], rfl⟩, none, step⟩

/-- The id `cp-1` is put again. -/
def steps : List (Op jsonValues) := [putStep "cp-1" 1, putStep "cp-2" 2, putStep "cp-1" 3]

theorem recalls_iff_again : Recalls .decoding stablePlanner steps (.list "thread-1" "" 10) :=
  (recalls_iff .decoding stablePlanner steps (by decide) _).mpr trivial

def bufferFor (channels : List String) : Op jsonValues :=
  .putWrites ⟨"thread-1", "cp-1", "", channels.map fun channel => ⟨"task-1", channel, none⟩⟩

/-- A call with one write after a call with two: the second write of the first is still read. -/
theorem writes_left_over : ¬∀ (ops : List (Op jsonValues)) (read : Read), Ticking ops →
    Recalls .decoding stablePlanner ops read := by
  intro h
  have hvalue := (h [bufferFor ["a", "b"], bufferFor ["a"]] (.getWrites "thread-1" "" "cp-1" "task-1") .nil).value
  have hread : perform .decoding stablePlanner (run [bufferFor ["a", "b"], bufferFor ["a"]])
      (.getWrites "thread-1" "" "cp-1" "task-1") = .ok (.writes [("a", none), ("b", none)]) := rfl
  rw [hread] at hvalue
  cases hvalue

end Lingshu.Copilot.Saver
