import AdbcBridge.Bind.MultiRow
import AdbcBridge.Bind.Unnest
import AdbcBridge.Bind.ArrayExecute
import Mathlib

/-!
# Executing a bound stream

`ExecuteRows` runs every batch of the bound stream through four paths in turn:
the array-ingest form, the multi-row INSERT, parameter arrays and one execute
per row, each taking over where the one before it stopped, and at the end the
retry list of the parameter arrays.  One implicit transaction spans the stream;
it opens once more than one row has been seen and starts over after a refusal
that applied nothing.
-/

namespace AdbcBridge.Bind.Execute

open AdbcBridge.Lib AdbcBridge.Bind.Session AdbcBridge.Bind.MultiRow AdbcBridge.Bind.Unnest
  AdbcBridge.Bind.ArrayExecute

/-- The bound stream: whether `get_schema` and the array view succeed, the
columns, the batches `get_next` hands out and whether it then reports the end of
the stream or an error. -/
structure BoundStream where
  schemaOk : Bool := true
  viewOk : Bool := true
  ncols : Nat := 1
  spellable : Bool := true
  batches : List Batch
  ends : Bool := true

/-- What the batch loop carries from one batch to the next; `base` is the number
of rows in the batches before. -/
structure Progress where
  useArray : Bool
  mr : MultiRowInsert
  ai : ArrayIngest
  active : Bool
  seen : Nat
  applied : Bool
  total : Int
  base : Nat
  world : World

/-! ## Rows one at a time -/

/-- `BindAndExecuteRow`. -/
def bindAndExecuteRow (d : Driver) (b : Batch) (base row : Nat) (w : World) :
    Option Failure × World :=
  if !b.converts row then (some .convert, w)
  else if !d.binds w.tick then (some .bindParameter, w.next)
  else if !d.executes w.tick then (some .execute, w.next)
  else (none, (w.apply [base + row]).next)

structure RowsRun where
  status : Option Failure
  applied : Bool
  total : Int
  world : World

/-- The row-at-a-time loop over the given rows of the batch, up to a failure. -/
def executeEach (d : Driver) (b : Batch) (base : Nat) : List Nat → Int → World → RowsRun
  | [], total, w => ⟨none, false, total, w⟩
  | row :: rest, total, w =>
      let run := bindAndExecuteRow d b base row w
      match run.1 with
      | some failure => ⟨some failure, false, total, run.2⟩
      | none =>
          let later := executeEach d b base rest (total + max (d.rowCount run.2.tick) 0) run.2
          { later with applied := true }

/-! ## The paths of one batch -/

/-- A batch between two of its paths: the status so far and the next row. -/
structure Phase where
  status : Option Failure
  row : Nat
  progress : Progress

namespace Progress

/-! What the loop takes over from each of its calls. -/

def multiRowSet (p : Progress) (setup : MultiRowInsert × World) : Progress :=
  { p with mr := setup.1, world := setup.2 }

def arrayIngestSet (p : Progress) (setup : ArrayIngest × World) : Progress :=
  { p with ai := setup.1, world := setup.2 }

def arrayIngested (p : Progress) (r : PathResult Carried) : Progress :=
  { p with ai := { p.ai with rows := r.kept }, total := r.total, world := r.world }

def multiRowInserted (p : Progress) (r : PathResult Prepared) : Progress :=
  { p with mr := { p.mr with prepared := r.kept }, total := r.total, world := r.world }

def arraysExecuted (p : Progress) (r : ArrayResult) : Progress :=
  { p with useArray := p.useArray && r.useArray, total := r.total, world := r.world }

def rowsExecuted (p : Progress) (r : RowsRun) : Progress :=
  { p with applied := p.applied || r.applied, total := r.total, world := r.world }

def setTxn (p : Progress) (txn : Bool × World) : Progress :=
  { p with active := txn.1, world := txn.2 }

end Progress

/-- Start the transaction over after a refusal. -/
def restartTxn (d : Driver) (s : OdbcStatement) (p : Progress) : Progress :=
  let ended := odbcAutoTxnEnd d p.active false p.world
  if 1 < p.seen then p.setTxn (odbcAutoTxnBegin d s false ended.2) else p.setTxn (false, ended.2)

def multiRowSetupPhase (d : Driver) (s : OdbcStatement) (st : BoundStream) (wanted : Bool)
    (p : Progress) : Progress :=
  if wanted && !p.mr.ready then p.multiRowSet (multiRowSetup d s st.ncols p.mr p.world) else p

def arrayIngestSetupPhase (d : Driver) (s : OdbcStatement) (st : BoundStream) (b : Batch)
    (p : Progress) : Progress :=
  if p.ai.enabled && !p.ai.ready && decide (1 < b.length) then
    p.arrayIngestSet (arrayIngestSetup d s st.spellable p.ai p.world)
  else p

/-- Count the batch, and open the transaction once more than one row is in play. -/
def beginPhase (d : Driver) (s : OdbcStatement) (b : Batch) (p : Progress) : Progress :=
  let p := { p with seen := p.seen + b.length }
  if 1 < p.seen then p.setTxn (odbcAutoTxnBegin d s p.active p.world) else p

/-- What follows a form that may have been refused as a probe. -/
def afterProbe {β : Type} (d : Driver) (s : OdbcStatement) (r : PathResult β) (p : Progress) :
    Phase :=
  ⟨r.status, r.done, if r.fellBack then restartTxn d s p else p⟩

def arrayIngestPhase (d : Driver) (s : OdbcStatement) (b : Batch) (p : Progress) : Phase :=
  match p.ai.rows with
  | none => ⟨none, 0, p⟩
  | some rows =>
      if b.length ≤ 1 then ⟨none, 0, p⟩
      else
        let r := arrayIngestExecuteBatch d b p.base 0 b.length (!p.applied) rows p.total p.world
        afterProbe d s r (p.arrayIngested r)

def multiRowFirstPhase (d : Driver) (s : OdbcStatement) (st : BoundStream)
    (multirowFirst : Bool) (b : Batch) (ph : Phase) : Phase :=
  match ph.progress.mr.prepared with
  | none => ph
  | some prepared =>
      if multirowFirst = true ∧ ph.row = 0 ∧ 1 < b.length ∧ ph.status = none then
        let p := ph.progress
        let r := multiRowExecuteBatch d p.mr.form st.ncols b p.base 0 b.length (!p.applied)
          prepared p.total p.world
        afterProbe d s r (p.multiRowInserted r)
      else ph

/-- Parameter arrays, and the rows they leave for a retry. -/
def arrayPhase (d : Driver) (s : OdbcStatement) (b : Batch) (ph : Phase) : Phase × List Nat :=
  if ph.progress.useArray = true ∧ ph.row = 0 ∧ 1 < b.length ∧ ph.status = none then
    let p := ph.progress
    let r := executeBatchArray d s.opts b p.base p.total p.world
    (⟨r.status, r.done, p.arraysExecuted r⟩, r.retry)
  else (ph, [])

/-- The multi-row INSERT over what parameter arrays left. -/
def multiRowRestPhase (d : Driver) (s : OdbcStatement) (st : BoundStream) (b : Batch)
    (ph : Phase) : Phase :=
  if 1 < b.length - ph.row ∧ ph.status = none then
    let p := multiRowSetupPhase d s st ph.progress.mr.enabled ph.progress
    match p.mr.prepared with
    | none => ⟨ph.status, ph.row, p⟩
    | some prepared =>
        let r := multiRowExecuteBatch d p.mr.form st.ncols b p.base ph.row (b.length - ph.row)
          (!p.applied && decide (ph.row = 0)) prepared p.total p.world
        ⟨r.status, ph.row + r.done, p.multiRowInserted r⟩
  else ph

/-- Something has reached the server once a row is behind us. -/
def markApplied (ph : Phase) : Phase :=
  { ph with progress := { ph.progress with
    applied := ph.progress.applied || decide (0 < ph.row) } }

/-- Run the given rows one at a time, if there was no error so far. -/
def rowsPhase (d : Driver) (b : Batch) (rows : List Nat) (ph : Phase) : Phase :=
  if ph.status = none then
    let run := executeEach d b ph.progress.base rows ph.progress.total ph.progress.world
    ⟨run.status, ph.row, ph.progress.rowsExecuted run⟩
  else ph

/-- The insert forms are prepared before the transaction opens. -/
def openBatch (d : Driver) (s : OdbcStatement) (st : BoundStream) (multirowFirst : Bool)
    (b : Batch) (p : Progress) : Progress :=
  let p := multiRowSetupPhase d s st (multirowFirst && decide (1 < b.length)) p
  beginPhase d s b (arrayIngestSetupPhase d s st b p)

/-- The paths that carry many rows at once, and the rows left for a retry. -/
def bulkPaths (d : Driver) (s : OdbcStatement) (st : BoundStream) (multirowFirst : Bool)
    (b : Batch) (p : Progress) : Phase × List Nat :=
  let arrays :=
    arrayPhase d s b (multiRowFirstPhase d s st multirowFirst b (arrayIngestPhase d s b p))
  (multiRowRestPhase d s st b arrays.1, arrays.2)

/-- What the bulk paths left, one row at a time, and then the retry list. -/
def rowPaths (d : Driver) (b : Batch) (bulk : Phase × List Nat) : Phase :=
  let ph := markApplied bulk.1
  rowsPhase d b bulk.2 (rowsPhase d b (List.range' ph.row (b.length - ph.row)) ph)

/-- One batch of the loop of `ExecuteRows`. -/
def executeBatch (d : Driver) (s : OdbcStatement) (st : BoundStream) (multirowFirst : Bool)
    (b : Batch) (p : Progress) : Option Failure × Progress :=
  let ph := rowPaths d b
    (bulkPaths d s st multirowFirst b (openBatch d s st multirowFirst b p))
  (ph.status, { ph.progress with base := ph.progress.base + b.length })

/-! ## The stream -/

/-- The batch loop of `ExecuteRows`. -/
def executeBatches (d : Driver) (s : OdbcStatement) (st : BoundStream) (multirowFirst : Bool) :
    List Batch → Progress → Option Failure × Progress
  | [], p => (if st.ends then none else some .getNext, p)
  | b :: rest, p =>
      if b.valid then
        let run := executeBatch d s st multirowFirst b p
        match run.1 with
        | none => executeBatches d s st multirowFirst rest run.2
        | some failure => (some failure, run.2)
      else (some .invalidBatch, p)

structure Outcome where
  status : Option Failure
  rowsAffected : Option Int
  world : World

/-- What `ExecuteRows` starts the batch loop from. -/
def startProgress (s : OdbcStatement) (st : BoundStream) (w : World) : Progress where
  useArray := s.arrayBinding && decide (0 < st.ncols)
  mr := multiRowInit s st.ncols
  ai := arrayIngestInit s st.ncols
  active := false
  seen := 0
  applied := false
  total := 0
  base := 0
  world := w

def multirowFirst (s : OdbcStatement) (st : BoundStream) : Bool :=
  (multiRowInit s st.ncols).enabled &&
    !((s.arrayBinding && decide (0 < st.ncols)) && s.opts.preferParamArrays)

/-- How `ExecuteRows` returns: the status of the loop, and then that of ending
the transaction. -/
def finish (d : Driver) (status : Option Failure) (p : Progress) : Outcome :=
  let ended := odbcAutoTxnEnd d p.active (status = none) p.world
  let status := if status = none then ended.1 else status
  ⟨status, if status = none then some p.total else none, ended.2⟩

/-- `ExecuteRows`. -/
def executeRows (d : Driver) (s : OdbcStatement) (st : BoundStream) (w : World) : Outcome :=
  if !st.schemaOk then ⟨some .getSchema, none, w⟩
  else if !st.viewOk then ⟨some .initView, none, w⟩
  else
    let run := executeBatches d s st (multirowFirst s st) st.batches (startProgress s st w)
    finish d run.1 run.2

/-- The rows of the whole stream. -/
def BoundStream.rows (st : BoundStream) : Nat := (st.batches.map (·.length)).sum

/-- A connection on which nothing of the stream has been applied yet. -/
def fresh (autocommit : Bool) (m : Memory) : World :=
  ⟨0, .empty autocommit, [], m, []⟩

/-! ## One row, and rows in turn -/

theorem bindAndExecuteRow_ok {d : Driver} {b : Batch} {base row : Nat} {w : World}
    (h : (bindAndExecuteRow d b base row w).1 = none) :
    Applies w (bindAndExecuteRow d b base row w).2 [base + row] [] := by
  revert h
  unfold bindAndExecuteRow
  split
  · simp
  split
  · simp
  split
  · simp
  · exact fun _ => .applied w _

theorem bindAndExecuteRow_failed {d : Driver} {b : Batch} {base row : Nat} {w : World}
    {failure : Failure} (h : (bindAndExecuteRow d b base row w).1 = some failure) :
    Applies w (bindAndExecuteRow d b base row w).2 [] [] := by
  revert h
  unfold bindAndExecuteRow
  split
  · exact fun _ => .refl w
  split
  · exact fun _ => .next w
  split
  · exact fun _ => .next w
  · simp

/-- The rows run one at a time are a leading part of the list, all of it when
there was no error. -/
theorem executeEach_applies (d : Driver) (b : Batch) (base : Nat) (rows : List Nat)
    (total : Int) (w : World) :
    ∃ done, done <+: rows ∧
      Applies w (executeEach d b base rows total w).world (done.map (base + ·)) [] ∧
      ((executeEach d b base rows total w).status = none → done = rows) ∧
      ((executeEach d b base rows total w).applied = false → done = []) := by
  induction rows generalizing total w with
  | nil => exact ⟨[], List.prefix_rfl, .refl w, fun _ => rfl, fun _ => rfl⟩
  | cons row rest ih =>
      rw [executeEach]
      dsimp only
      split
      · rename_i failure hrun
        exact ⟨[], List.nil_prefix, bindAndExecuteRow_failed hrun, by simp, fun _ => rfl⟩
      · rename_i hrun
        obtain ⟨done, hprefix, happ, hok, -⟩ :=
          ih (total + max (d.rowCount (bindAndExecuteRow d b base row w).2.tick) 0)
            (bindAndExecuteRow d b base row w).2
        refine ⟨row :: done, (List.cons_prefix_cons).2 ⟨rfl, hprefix⟩, ?_, ?_, by simp⟩
        · exact (bindAndExecuteRow_ok hrun).trans happ
        · exact fun hstatus => by rw [hok hstatus]

end AdbcBridge.Bind.Execute
