import AdbcBridge.Ingest.Replace
import Mathlib

/-!
# Statements and their handles

The statements of one connection: what each operation of `odbc_driver.c`, the bound
execution and `ExecutePartitions` do to the statement, to the reference count of its
handle and to the log of driver calls.  What the driver, the allocator and the bound
stream answer is an argument, so an operation may fail at every call it makes.
-/

namespace AdbcBridge.Statement.Handle

open AdbcBridge.Adbc AdbcBridge.Ingest.Ddl
open AdbcBridge.Ingest.Replace (IngestMode)

/-- The calls that matter to a statement handle, with the opening and the release of
the result streams; a rollback is one that succeeded. -/
inductive Call where
  | alloc (h : Nat)
  | prepare (h : Nat) (sql : List Char) (ok : Bool)
  | execDirect (h : Nat) (sql : List Char)
  | execute (h : Nat)
  | streamExecute (h : Nat)
  | rollback
  | openStream (id h : Nat)
  | closeStream (id : Nat)
deriving DecidableEq, Repr

/-- An `OdbcReader`, or a `BoundReader` with or without an inner reader open. -/
inductive Reader where
  | odbc
  | bound (inner : Bool)
deriving DecidableEq, Repr

/-- The references a reader holds. -/
def Reader.refs : Reader → Nat
  | .odbc => 1
  | .bound inner => if inner then 2 else 1

/-- An open result stream. -/
structure ResultStream where
  id : Nat
  ref : Nat
  reader : Reader
deriving DecidableEq, Repr

/-- A connection with the handles allocated on it, named by their number, and the open
result streams.  A reference count of 0 is a handle that was freed. -/
structure Session where
  autocommit : Bool := true
  txnCapable : Bool := true
  rollbackEpoch : Nat := 0
  refcount : Nat → Nat := fun _ => 0
  handles : Nat := 0
  streams : List ResultStream := []
  opened : Nat := 0
  calls : List Call := []

namespace Session

def log (c : Session) (call : Call) : Session := { c with calls := c.calls ++ [call] }

/-- `refcount++`. -/
def retain (c : Session) (h : Nat) : Session :=
  { c with refcount := Function.update c.refcount h (c.refcount h + 1) }

/-- `OdbcHandleRefRelease`. -/
def release (c : Session) (h : Nat) : Session :=
  { c with refcount := Function.update c.refcount h (c.refcount h - 1) }

/-- `SQLAllocHandle` and `OdbcHandleRefNew`. -/
def alloc (c : Session) : Session :=
  { c with
    refcount := Function.update c.refcount c.handles 1
    handles := c.handles + 1
    calls := c.calls ++ [.alloc c.handles] }

/-- A reader that already holds its references becomes a stream of the caller's. -/
def openStream (c : Session) (h : Nat) (reader : Reader) : Session :=
  { c with
    streams := c.streams ++ [⟨c.opened, h, reader⟩]
    opened := c.opened + 1
    calls := c.calls ++ [.openStream c.opened h] }

end Session

/-- The fields of the statement that its operations read and write. -/
structure OdbcStatement where
  ref : Option Nat := none
  rollbackEpoch : Nat := 0
  query : Option (List Char) := none
  prepared : Bool := false
  prepareRequested : Bool := false
  executed : Bool := false
  hasBind : Bool := false
  ingestConnections : Nat := 1
  ingestTable : Option Target := none
  ingestMode : Option IngestMode := none
deriving DecidableEq, Repr

/-- A statement and the connection it runs on. -/
structure Owner where
  session : Session
  stmt : OdbcStatement

/-- A step of an operation: what it leaves, and the error it returns if it fails. -/
abbrev Step := Owner × Option AdbcError

/-- `RAISE_ADBC`. -/
def raise (r : Step) (k : Owner → Step) : Step :=
  match r.2 with
  | some e => (r.1, some e)
  | none => k r.1

def outOfMemory : AdbcError := ⟨.internal, "out of memory".toList⟩

def noQuery : AdbcError := ⟨.invalidState, "Must call StatementSetSqlQuery first".toList⟩

/-! ## The handle -/

/-- The answers to `EnsureHandle`: to `SQLCloseCursor`, whether a refusal is 24000, to
`SQLFreeStmt(SQL_CLOSE)`, to `SQLAllocHandle` and to the allocation of the reference. -/
structure EnsureAnswer where
  closeCursor : Bool := true
  noCursor : Bool := false
  freeStmt : Bool := true
  allocHandle : Option AdbcError := none
  refNew : Bool := true

/-- The handle cannot be made idle. -/
def EnsureAnswer.busy (a : EnsureAnswer) : Bool :=
  !a.closeCursor && !a.noCursor && !a.freeStmt

namespace Owner

/-- Give the handle up. -/
def detach (o : Owner) : Owner :=
  match o.stmt.ref with
  | none => o
  | some h => ⟨o.session.release h, { o.stmt with ref := none, prepared := false }⟩

/-- A result stream still owns the handle. -/
def shared (o : Owner) : Bool := o.stmt.ref.any fun h => decide (1 < o.session.refcount h)

/-- A rollback happened while the statement held the handle. -/
def stale (o : Owner) : Bool :=
  o.stmt.ref.isSome && decide (o.stmt.rollbackEpoch ≠ o.session.rollbackEpoch)

def markReady (o : Owner) : Owner :=
  { o with stmt := { o.stmt with rollbackEpoch := o.session.rollbackEpoch } }

/-- Take a fresh handle. -/
def allocate (o : Owner) : Owner :=
  ⟨o.session.alloc, { o.stmt with ref := some o.session.handles }⟩

/-- The checks of `EnsureHandle` on the handle the statement has. -/
def detachUnfit (a : EnsureAnswer) (o : Owner) : Owner :=
  let o := if o.shared then o.detach else o
  let o := if o.stale then o.detach else o
  if a.busy then o.detach else o

/-- One of those checks fails. -/
def givesUp (a : EnsureAnswer) (o : Owner) : Bool :=
  o.shared || o.stale || (o.stmt.ref.isSome && a.busy)

end Owner

/-- `OdbcStatementEnsureHandle`. -/
def ensureHandle (a : EnsureAnswer) (o : Owner) : Step :=
  let o := o.detachUnfit a
  match o.stmt.ref with
  | some _ => (o.markReady, none)
  | none =>
      match a.allocHandle with
      | some e => (o, some e)
      | none =>
          if a.refNew then (o.allocate.markReady, none)
          else ({ o with session := o.session.alloc.release o.session.handles },
            some outOfMemory)

/-- `OdbcPrepareSql` on the statement's handle, and the flag; the argument is what
`OdbcSetError` makes of a refusal. -/
def prepareSql (failure : Option AdbcError) (o : Owner) : Step :=
  match o.stmt.ref, o.stmt.query with
  | some h, some q =>
      (⟨o.session.log (.prepare h q failure.isNone),
        if failure.isNone then { o.stmt with prepared := true } else o.stmt⟩, failure)
  | _, _ => (o, failure)

structure PrepareAnswer where
  ensure : EnsureAnswer := {}
  prepare : Option AdbcError := none

/-- `OdbcStatementDoPrepare`. -/
def doPrepare (a : PrepareAnswer) (o : Owner) : Step :=
  if o.stmt.prepared then (o, none)
  else raise (ensureHandle a.ensure o) (prepareSql a.prepare)

/-! ## Readers -/

/-- `OdbcReaderInit`: the allocation, and `DescribeColumns` with `BuildSchema`. -/
structure ReaderAnswer where
  allocates : Bool := true
  describe : Option AdbcError := none

/-- `OdbcReaderInit` over the statement's handle. -/
def readerInit (a : ReaderAnswer) (o : Owner) : Step :=
  match o.stmt.ref with
  | none => (o, some outOfMemory)
  | some h =>
      if !a.allocates then (o, some outOfMemory)
      else
        let session := o.session.retain h
        match a.describe with
        | some e => ({ o with session := session.release h }, some e)
        | none => ({ o with session := session.openStream h .odbc }, none)

/-- How the rows a `BoundReader` executes at once come out: an error, no result set at
all, or the first of them. -/
inductive FirstResult where
  | fails (e : AdbcError)
  | exhausted
  | opens
deriving Repr

structure BoundReaderAnswer where
  allocates : Bool := true
  executes : Nat := 0
  result : FirstResult := .exhausted

/-- So many executes of the prepared statement. -/
def Session.executes (c : Session) (h n : Nat) : Session :=
  { c with calls := c.calls ++ List.replicate n (.execute h) }

/-- `BoundReaderInit`. -/
def boundReaderInit (a : BoundReaderAnswer) (o : Owner) : Step :=
  match o.stmt.ref with
  | none => (o, some outOfMemory)
  | some h =>
      if !a.allocates then (o, some outOfMemory)
      else
        let stmt := { o.stmt with hasBind := false }
        let session := (o.session.retain h).executes h a.executes
        match a.result with
        | .fails e => (⟨session.release h, stmt⟩, some e)
        | .exhausted => (⟨session.release h, stmt⟩, none)
        -- The inner reader takes a reference of its own.
        | .opens => (⟨(session.retain h).openStream h (.bound true), stmt⟩, none)

/-! ## Bound rows -/

/-- What one batch of `ExecuteRows` does to the statement's own handle and to the
implicit transaction: whether the array form and the multi-row form fell back, what
the three attempts to open the transaction and the two rollbacks of a fallback are
answered, how often the statement itself is executed, and the error that ends it.
The insert forms run on handles of their own. -/
structure BatchAnswer where
  length : Nat
  begins : Bool := true
  ingestFellBack : Bool := false
  ingestRollsBack : Bool := true
  ingestBegins : Bool := true
  insertFellBack : Bool := false
  insertRollsBack : Bool := true
  insertBegins : Bool := true
  executes : Nat := 0
  failure : Option AdbcError := none

/-- `get_schema`, the batches, the error that ends the stream, and how the `SQLEndTran`
at the end goes. -/
structure RowsAnswer where
  schema : Option AdbcError := none
  batches : List BatchAnswer := []
  ends : Option AdbcError := none
  endTran : Option AdbcError := none

/-- What `ExecuteRows` calls, as far as it concerns the statement's own handle. -/
inductive RowsCall where
  | execute
  | rollback
deriving DecidableEq, Repr

/-- `OdbcAutoTxnBegin`; `opens` is whether the connection is one it takes out of
autocommit. -/
def odbcAutoTxnBegin (opens accepted active : Bool) : Bool := active || (opens && accepted)

/-- `OdbcAutoTxnEnd`, as far as it rolls back. -/
def odbcAutoTxnEnd (active commit succeeds : Bool) : List RowsCall :=
  if active && !commit && succeeds then [.rollback] else []

/-- Start the transaction over after a form fell back. -/
def restartTxn (opens : Bool) (seen : Nat) (fellBack rollsBack begins active : Bool) :
    Bool × List RowsCall :=
  if fellBack then
    (decide (1 < seen) && odbcAutoTxnBegin opens begins false,
      odbcAutoTxnEnd active false rollsBack)
  else (active, [])

/-- One batch: whether the transaction is open after it, and its calls. -/
def batchCalls (opens : Bool) (b : BatchAnswer) (seen : Nat) (active : Bool) :
    Bool × List RowsCall :=
  let active := if 1 < seen then odbcAutoTxnBegin opens b.begins active else active
  let many := decide (1 < b.length)
  let ingest :=
    restartTxn opens seen (b.ingestFellBack && many) b.ingestRollsBack b.ingestBegins active
  let insert :=
    restartTxn opens seen (b.insertFellBack && many) b.insertRollsBack b.insertBegins ingest.1
  (insert.1, ingest.2 ++ insert.2 ++ List.replicate b.executes .execute)

/-- The batch loop and the end of the transaction. -/
def batchesCalls (opens : Bool) (a : RowsAnswer) :
    List BatchAnswer → Nat → Bool → List RowsCall × Option AdbcError
  | [], _, active =>
      match a.ends with
      | some e => (odbcAutoTxnEnd active false a.endTran.isNone, some e)
      | none => ([], if active then a.endTran else none)
  | b :: rest, seen, active =>
      let seen := seen + b.length
      let r := batchCalls opens b seen active
      match b.failure with
      | some e => (r.2 ++ odbcAutoTxnEnd r.1 false a.endTran.isNone, some e)
      | none =>
          let later := batchesCalls opens a rest seen r.1
          (r.2 ++ later.1, later.2)

/-- The calls of a whole bound execution. -/
def rowsCalls (opens : Bool) (a : RowsAnswer) : List RowsCall × Option AdbcError :=
  match a.schema with
  | some e => ([], some e)
  | none => batchesCalls opens a a.batches 0 false

/-- The connection is one that an implicit transaction takes out of autocommit. -/
def Session.opensTxn (c : Session) : Bool := c.autocommit && c.txnCapable

def RowsCall.call (h : Nat) : RowsCall → Call
  | .execute => .execute h
  | .rollback => .rollback

/-- `ExecuteRows`. -/
def executeRows (a : RowsAnswer) (o : Owner) : Step :=
  match o.stmt.ref with
  | none => (o, some outOfMemory)
  | some h =>
      let r := rowsCalls o.session.opensTxn a
      (⟨{ o.session with calls := o.session.calls ++ r.1.map (RowsCall.call h) },
        { o.stmt with hasBind := o.stmt.hasBind && a.schema.isSome }⟩, r.2)

structure BoundAnswer where
  ensure : EnsureAnswer := {}
  prepare : Option AdbcError := none
  reader : BoundReaderAnswer := {}
  rows : RowsAnswer := {}

/-- `OdbcStatementExecuteBound`. -/
def executeBound (out : Bool) (a : BoundAnswer) (o : Owner) : Step :=
  raise (ensureHandle a.ensure o) fun o =>
  raise (if o.stmt.prepared then (o, none) else prepareSql a.prepare o) fun o =>
  if out then boundReaderInit a.reader o else executeRows a.rows o

/-! ## Bulk ingest -/

/-- The answers to an ingest: the bound stream's schema, the identifier quote, how the
definition of the table ends, and either the bound execution of the INSERT or the load
over several connections, with whether it leaves the stream bound. -/
structure IngestAnswer where
  getSchema : Except (List Char) (List ArrowSchema) := .ok []
  quoteChar : Option (List Char) := none
  define : Option AdbcError := none
  bound : BoundAnswer := {}
  parallel : Option AdbcError := none
  parallelKeeps : Bool := false

/-- The query becomes another one. -/
def Owner.rewrite (o : Owner) (q : List Char) : Owner :=
  { o with stmt := { o.stmt with query := some q, prepared := false } }

/-- `fan_out`: the load runs on connections of its own. -/
def Owner.fansOut (o : Owner) : Bool :=
  decide (1 < o.stmt.ingestConnections) && o.session.autocommit

/-- The INSERT, over connections of its own or as a bound execution. -/
def ingestLoad (a : IngestAnswer) (target : Target) (fields : List ArrowSchema) (o : Owner) :
    Step :=
  let o := o.rewrite
    (insertText (odbcQuoteChar a.quoteChar) target (fields.map ArrowSchema.nameText))
  if o.fansOut then
    ({ o with stmt := { o.stmt with hasBind := a.parallelKeeps } }, a.parallel)
  else executeBound false a.bound o

/-- `OdbcStatementIngest`. -/
def ingest (a : IngestAnswer) (target : Target) (o : Owner) : Step :=
  if !o.stmt.hasBind then
    (o, some ⟨.invalidState, "Must bind data before bulk ingest".toList⟩)
  else
    match a.getSchema with
    | .error message =>
        (o, some ⟨.invalidArgument, "Bound stream get_schema failed: ".toList ++ message⟩)
    | .ok fields =>
        -- `do_create`: the handle goes before the DDL, the INSERT allocates a new one.
        if o.stmt.ingestMode.getD .create = .append then ingestLoad a target fields o
        else raise (o.detach, a.define) (ingestLoad a target fields)

/-! ## The operations -/

/-- `OdbcStatementSetSqlQuery`. -/
def setSqlQuery (q : List Char) (o : Owner) : Owner :=
  { o with stmt := { o.stmt with
    query := some q, prepared := false, prepareRequested := false, executed := false,
    ingestTable := none } }

/-- `OdbcStatementSetOption` for the ingest options. -/
def setIngest (connections : Nat) (target : Option Target) (mode : Option IngestMode)
    (o : Owner) : Owner :=
  { o with stmt := { o.stmt with
    ingestConnections := connections, ingestTable := target, ingestMode := mode } }

/-- `OdbcStatementBindStream`, and `OdbcStatementBind` once its batch is a stream. -/
def bindStream (o : Owner) : Owner := { o with stmt := { o.stmt with hasBind := true } }

/-- `OdbcStatementPrepare`. -/
def prepare (a : EnsureAnswer) (o : Owner) : Step :=
  if o.stmt.query.isNone then (o, some noQuery)
  else raise (ensureHandle a o) fun o =>
    ({ o with stmt := { o.stmt with prepareRequested := true } }, none)

structure ExecuteAnswer where
  ingest : IngestAnswer := {}
  bound : BoundAnswer := {}
  prepare : PrepareAnswer := {}
  ensure : EnsureAnswer := {}
  execute : Option AdbcError := none
  producesRows : Bool := true
  reader : ReaderAnswer := {}

/-- `SQLExecute` or `SQLExecDirect` on the statement's handle. -/
def Owner.exec (o : Owner) : Owner :=
  match o.stmt.ref, o.stmt.query with
  | some h, some q =>
      { o with session := o.session.log (if o.stmt.prepared then .execute h else .execDirect h q) }
  | _, _ => o

/-- The unbound execute of `OdbcStatementExecuteQuery`. -/
def runQuery (out : Bool) (a : ExecuteAnswer) (o : Owner) : Step :=
  let o : Owner := { o with stmt := { o.stmt with executed := true } }
  raise (o.exec, a.execute) fun o =>
  if out && a.producesRows then readerInit a.reader o else (o, none)

/-- `OdbcStatementExecuteQuery`. -/
def executeQuery (out : Bool) (a : ExecuteAnswer) (o : Owner) : Step :=
  match o.stmt.ingestTable with
  | some target =>
      if out then
        (o, some ⟨.invalidState, "Bulk ingest does not produce a result set".toList⟩)
      else ingest a.ingest target o
  | none =>
      if o.stmt.query.isNone then (o, some noQuery)
      else if o.stmt.hasBind then executeBound out a.bound o
      else
        -- The second execute of the same query is where a prepare starts to pay off.
        let promote := o.stmt.prepareRequested && o.stmt.executed && !o.stmt.prepared
        raise (if promote then doPrepare a.prepare o else (o, none)) fun o =>
        raise (ensureHandle a.ensure o) (runQuery out a)

structure DescribeAnswer where
  prepare : PrepareAnswer := {}
  describe : Option AdbcError := none

/-- The query is prepared and described. -/
def describeQuery (a : DescribeAnswer) (o : Owner) : Step :=
  if o.stmt.query.isNone then (o, some noQuery)
  else raise (doPrepare a.prepare o) fun o => (o, a.describe)

/-- `OdbcStatementExecuteSchema`. -/
def executeSchema (a : DescribeAnswer) (o : Owner) : Step := describeQuery a o

/-- `OdbcStatementGetParameterSchema`. -/
def getParameterSchema (a : DescribeAnswer) (o : Owner) : Step := describeQuery a o

structure PartitionsAnswer where
  ensure : EnsureAnswer := {}
  prepare : Option AdbcError := none
  describe : Option AdbcError := none
  partitions : Option AdbcError := none

/-- `OdbcStatementExecutePartitionsOdbc`; the schema is only described when asked for. -/
def executePartitions (schema : Bool) (a : PartitionsAnswer) (o : Owner) : Step :=
  if o.stmt.query.isNone then (o, some noQuery)
  else if o.stmt.ingestTable.isSome then
    (o, some ⟨.invalidState,
      "Bulk ingest does not produce a partitioned result set".toList⟩)
  else if o.stmt.hasBind then
    (o, some ⟨.notImplemented,
      "Partitioned results are not supported for a statement with bound parameters".toList⟩)
  else
    raise
      (if schema then
        raise (ensureHandle a.ensure o) fun o =>
        raise (prepareSql a.prepare o) fun o => (o, a.describe)
      else (o, none))
      fun o => (o, a.partitions)

/-! ## Runs -/

/-- A connection and its statements. -/
structure World where
  session : Session := {}
  stmts : Nat → Option OdbcStatement := fun _ => none

/-- The operations, each with the driver's answers to it. -/
inductive Op where
  | newStatement (i : Nat)
  | releaseStatement (i : Nat)
  | setSqlQuery (i : Nat) (q : List Char)
  | setIngest (i connections : Nat) (target : Option Target) (mode : Option IngestMode)
  | bindStream (i : Nat)
  | prepare (i : Nat) (a : EnsureAnswer)
  | executeQuery (i : Nat) (out : Bool) (a : ExecuteAnswer)
  | executeSchema (i : Nat) (a : DescribeAnswer)
  | getParameterSchema (i : Nat) (a : DescribeAnswer)
  | executePartitions (i : Nat) (schema : Bool) (a : PartitionsAnswer)
  | getNext (id executes : Nat) (inner : Bool)
  | releaseStream (id : Nat)
  | setAutocommit (autocommit accepted : Bool)
  | rollback (succeeds : Bool)

/-- The statement an operation works on; a statement is not worked on while it is
created or released. -/
def Op.target : Op → Option Nat
  | .setSqlQuery i _ | .setIngest i _ _ _ | .bindStream i | .prepare i _
  | .executeQuery i _ _ | .executeSchema i _ | .getParameterSchema i _
  | .executePartitions i _ _ => some i
  | _ => none

namespace World

/-- What the statement and its connection become. -/
def put (w : World) (i : Nat) (o : Owner) : World :=
  ⟨o.session, Function.update w.stmts i (some o.stmt)⟩

/-- An operation of one statement; without the statement nothing happens. -/
def run (w : World) (i : Nat) (f : Owner → Owner) : World :=
  match w.stmts i with
  | some s => w.put i (f ⟨w.session, s⟩)
  | none => w

/-- `OdbcStatementRelease`. -/
def releaseStatement (w : World) (i : Nat) : World :=
  match w.stmts i with
  | some s =>
      ⟨(Owner.mk w.session s).detach.session, Function.update w.stmts i none⟩
  | none => w

/-- The stream with this id, if it is open. -/
def stream (w : World) (id : Nat) : Option ResultStream :=
  w.session.streams.find? (·.id = id)

end World

/-- The stream `id` gets another reader. -/
def setReader (id : Nat) (reader : Reader) (s : ResultStream) : ResultStream :=
  if s.id = id then { s with reader } else s

/-- `BoundReaderGetNext` beyond the current result set: its reader is released, further
rows are executed, and a reader over the next result set is opened.  An `OdbcReader`
only fetches. -/
def Session.getNext (c : Session) (r : ResultStream) (executes : Nat) (inner : Bool) :
    Session :=
  match r.reader with
  | .odbc => c
  | .bound wasOpen =>
      let closed := if wasOpen then c.release r.ref else c
      let executed : Session :=
        { closed with calls := c.calls ++ List.replicate executes (.streamExecute r.ref) }
      let reopened := if inner then executed.retain r.ref else executed
      { reopened with streams := c.streams.map (setReader r.id (.bound inner)) }

/-- `ReaderRelease` and `BoundReaderRelease`. -/
def Session.releaseStream (c : Session) (r : ResultStream) : Session :=
  { c with
    refcount := Function.update c.refcount r.ref (c.refcount r.ref - r.reader.refs)
    streams := c.streams.filter (·.id ≠ r.id)
    calls := c.calls ++ [.closeStream r.id] }

/-- `OdbcConnectionRollback`; the epoch is a `uint64_t`. -/
def Session.rollback (c : Session) (succeeds : Bool) : Session :=
  if c.autocommit || !succeeds then c
  else { (c.log .rollback) with rollbackEpoch := (c.rollbackEpoch + 1) % 2 ^ 64 }

/-- One operation on the connection or on one of its statements or streams. -/
def World.step (w : World) : Op → World
  | .newStatement i => if (w.stmts i).isSome then w else
      { w with stmts := Function.update w.stmts i (some {}) }
  | .releaseStatement i => w.releaseStatement i
  | .setSqlQuery i q => w.run i (setSqlQuery q)
  | .setIngest i connections target mode => w.run i (setIngest connections target mode)
  | .bindStream i => w.run i bindStream
  | .prepare i a => w.run i fun o => (prepare a o).1
  | .executeQuery i out a => w.run i fun o => (executeQuery out a o).1
  | .executeSchema i a => w.run i fun o => (executeSchema a o).1
  | .getParameterSchema i a => w.run i fun o => (getParameterSchema a o).1
  | .executePartitions i schema a => w.run i fun o => (executePartitions schema a o).1
  | .getNext id executes inner =>
      match w.stream id with
      | some r => { w with session := w.session.getNext r executes inner }
      | none => w
  | .releaseStream id =>
      match w.stream id with
      | some r => { w with session := w.session.releaseStream r }
      | none => w
  | .setAutocommit autocommit accepted =>
      if accepted then { w with session := { w.session with autocommit } } else w
  | .rollback succeeds => { w with session := w.session.rollback succeeds }

end AdbcBridge.Statement.Handle
