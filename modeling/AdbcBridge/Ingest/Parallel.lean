import AdbcBridge.Ingest.Slice
import AdbcBridge.Ingest.Queue
import AdbcBridge.Bind.Execute
import Mathlib.Data.List.FinRange

/-!
# Parallel ingest

`IngestParallel` pumps the bound stream, batch by batch and cut into slices,
into the queue from which its workers take their share.  The pump and the
workers take turns in any order; each of their steps may fail where the source
can fail.  A row is a number in the stream, and a piece of a batch an interval
of rows.
-/

namespace AdbcBridge.Ingest.Parallel

open AdbcBridge.Lib AdbcBridge.Ingest.Queue
open AdbcBridge.Ingest.Slice (ingestSliceRows)

/-! ## The stream and its pieces -/

/-- A batch of the bound stream, and whether `BatchIsFlat`. -/
structure SourceBatch where
  length : Nat
  flat : Bool

/-- The bound stream: the batches `get_next` hands out, and whether it then
reports the end of the stream or an error. -/
structure Source where
  batches : List SourceBatch
  ends : Bool

def rowsOf (batches : List SourceBatch) : Nat := (batches.map (·.length)).sum

def Source.rows (src : Source) : Nat := rowsOf src.batches

/-- The rows `first` to `first + len` of the stream, as one entry of the queue. -/
structure Chunk where
  first : Nat
  len : Nat
  deriving DecidableEq

def Chunk.rows (c : Chunk) : List Nat := List.range' c.first c.len

/-- Where the pump is in a batch: the rows before the batch, the batch and the
batches behind it, and the piece it is about to queue. -/
structure Piece where
  base : Nat
  batch : SourceBatch
  rest : List SourceBatch
  off : Nat
  len : Nat

def Piece.chunk (p : Piece) : Chunk := ⟨p.base + p.off, p.len⟩

/-! ## The threads -/

inductive IngestStatus (n : Nat)
  | ok
  | invalidArgument
  | internal
  | worker (w : Fin n)
  deriving DecidableEq

/-- Where the calling thread of `IngestParallel` is. -/
inductive Pump (n : Nat)
  | opening
  | starting (i : Nat)
  | started (nstarted : Nat)
  | fetching (base : Nat) (batches : List SourceBatch)
  | pumpBatch (base : Nat) (batch : SourceBatch) (rest : List SourceBatch)
  | allocating (p : Piece)
  | pushing (p : Piece)
  | finishing
  | joining
  | returned (status : IngestStatus n)

/-- What a worker leaves behind. -/
structure WorkerResult where
  ok : Bool
  collateral : Bool
  deriving DecidableEq

/-- Where a worker is; it works inside `OdbcStatementExecuteBound` until its
stream has ended or something has failed. -/
inductive Worker
  | unstarted
  | working
  | ended
  | failing (collateral : Bool)
  | exited (result : WorkerResult)
  deriving DecidableEq

structure State (n : Nat) where
  sys : System Chunk (Fin n)
  pump : Pump n
  status : IngestStatus n
  workers : Fin n → Worker

namespace State

variable {n : Nat}

def start : State n := ⟨.start, .opening, .ok, fun _ => .unstarted⟩

def setWorker (s : State n) (w : Fin n) (worker : Worker) : State n :=
  { s with workers := Function.update s.workers w worker }

end State

/-- What the batch loop of `ExecuteRows` does with an answer of its stream. -/
def Worker.answered : StreamAnswer Chunk → Worker
  | .batch _ => .working
  | .endOfStream => .ended
  | .error collateral => .failing collateral

/-! ## The pump -/

/-- Where `PumpBatch` goes with a batch; `owned` is whether the `BatchOwner`
could be allocated. -/
def pumpBatch (base : Nat) (b : SourceBatch) (rest : List SourceBatch) (owned : Bool) : Piece :=
  if b.length ≤ ingestSliceRows ∨ b.flat = false ∨ owned = false then
    ⟨base, b, rest, 0, b.length⟩
  else ⟨base, b, rest, 0, min b.length ingestSliceRows⟩

/-- Where the pump goes once a piece is in the queue. -/
def afterPush (n : Nat) (p : Piece) : Pump n :=
  if p.off + p.len < p.batch.length then
    .allocating { p with
      off := p.off + p.len
      len := min (p.batch.length - (p.off + p.len)) ingestSliceRows }
  else .fetching (p.base + p.batch.length) p.rest

/-- Where the calling thread goes when the workers have been started. -/
def afterStart {n : Nat} (src : Source) (status : IngestStatus n) : Pump n :=
  if status = .ok then .fetching 0 src.batches else .finishing

/-- One turn of the search for the worker to blame. -/
def blameStep {n : Nat} (result : Fin n → WorkerResult) (blame : Option (Fin n)) (i : Fin n) :
    Option (Fin n) :=
  if (result i).ok then blame
  else match blame with
    | none => some i
    | some j => if (result j).collateral && !(result i).collateral then some i else some j

/-- The worker whose failure is reported. -/
def blame {n : Nat} (result : Fin n → WorkerResult) : Option (Fin n) :=
  (List.finRange n).foldl (blameStep result) none

/-- What a joined worker left behind; one that never started has failed nowhere. -/
def Worker.result : Worker → WorkerResult
  | .exited result => result
  | _ => ⟨true, false⟩

/-- The status `IngestParallel` returns after the join. -/
def returnStatus {n : Nat} (status : IngestStatus n) (workers : Fin n → Worker) :
    IngestStatus n :=
  match status with
  | .ok =>
      match blame fun w => (workers w).result with
      | some w => .worker w
      | none => .ok
  | _ => status

def Worker.Joined (worker : Worker) : Prop :=
  worker = .unstarted ∨ ∃ result, worker = .exited result

/-! ## The steps -/

/-- What a step is to the others: a turn in the queue, an allocation of
`PumpWhole` or `SliceMake` that failed, or nothing. -/
inductive Action (n : Nat)
  | queue (e : Event Chunk (Fin n))
  | unallocated
  | own

/-- Two batches of slack per worker. -/
def queueCap (nconn : Nat) : Nat := nconn * 2 + 2

section Steps

variable {n : Nat}

/-- A turn in the queue of `n` workers. -/
abbrev QueueStep (n : Nat) : System Chunk (Fin n) → Event Chunk (Fin n) →
    System Chunk (Fin n) → Prop :=
  Queue.Step (queueCap n)

/-- A step of the calling thread. -/
inductive PumpStep (src : Source) : State n → Action n → State n → Prop
  -- Before the workers: get_schema and the allocations.
  | getSchemaFails {s : State n} (h : s.pump = .opening) :
      PumpStep src s .own { s with pump := .returned .invalidArgument }
  | outOfMemory {s : State n} (h : s.pump = .opening) :
      PumpStep src s .own { s with pump := .returned .internal }
  | opened {s : State n} (h : s.pump = .opening) :
      PumpStep src s .own { s with pump := .starting 0 }
  -- Starting the workers; every failure ends the loop.
  | threadStarts {s : State n} (w : Fin n) (h : s.pump = .starting w) :
      PumpStep src s .own { s.setWorker w .working with pump := .starting (w + 1) }
  | startFails {s : State n} (w : Fin n) (h : s.pump = .starting w) :
      PumpStep src s .own { s with pump := .started w, status := .internal }
  | allStarted {s : State n} (h : s.pump = .starting n) :
      PumpStep src s .own { s with pump := .started n }
  | goesOn {s : State n} (nstarted : Nat) (h : s.pump = .started nstarted)
      (hstarted : nstarted ≠ 0) :
      PumpStep src s .own { s with pump := afterStart src s.status }
  | noneStarted {s : State n} {sys : System Chunk (Fin n)} (h : s.pump = .started 0)
      (hturn : QueueStep n s.sys (.fail .pump) sys) :
      PumpStep src s (.queue (.fail .pump)) { s with sys := sys, pump := afterStart src s.status }
  -- The pump loop.
  | getNextFails {s : State n} {sys : System Chunk (Fin n)} (base : Nat)
      (h : s.pump = .fetching base []) (hends : src.ends = false)
      (hturn : QueueStep n s.sys (.fail .pump) sys) :
      PumpStep src s (.queue (.fail .pump))
        { s with sys := sys, pump := .finishing, status := .invalidArgument }
  | streamEnds {s : State n} (base : Nat) (h : s.pump = .fetching base [])
      (hends : src.ends = true) :
      PumpStep src s .own { s with pump := .finishing }
  | skips {s : State n} (base : Nat) (b : SourceBatch) (rest : List SourceBatch)
      (h : s.pump = .fetching base (b :: rest)) (hempty : b.length = 0) :
      PumpStep src s .own { s with pump := .fetching base rest }
  | fetches {s : State n} (base : Nat) (b : SourceBatch) (rest : List SourceBatch)
      (h : s.pump = .fetching base (b :: rest)) (hempty : b.length ≠ 0) :
      PumpStep src s .own { s with pump := .pumpBatch base b rest }
  | pumps {s : State n} (base : Nat) (b : SourceBatch) (rest : List SourceBatch) (owned : Bool)
      (h : s.pump = .pumpBatch base b rest) :
      PumpStep src s .own { s with pump := .allocating (pumpBatch base b rest owned) }
  | allocates {s : State n} (p : Piece) (h : s.pump = .allocating p) :
      PumpStep src s .own { s with pump := .pushing p }
  | allocationFails {s : State n} (p : Piece) (h : s.pump = .allocating p) :
      PumpStep src s .unallocated { s with pump := .finishing }
  | pushWaits {s : State n} {sys : System Chunk (Fin n)} (p : Piece) (h : s.pump = .pushing p)
      (hturn : QueueStep n s.sys (.pushWaits p.chunk) sys) :
      PumpStep src s (.queue (.pushWaits p.chunk)) { s with sys := sys }
  | pushed {s : State n} {sys : System Chunk (Fin n)} (p : Piece) (h : s.pump = .pushing p)
      (hturn : QueueStep n s.sys (.pushed p.chunk) sys) :
      PumpStep src s (.queue (.pushed p.chunk)) { s with sys := sys, pump := afterPush n p }
  | pushFailed {s : State n} {sys : System Chunk (Fin n)} (p : Piece) (h : s.pump = .pushing p)
      (hturn : QueueStep n s.sys (.pushFailed p.chunk) sys) :
      PumpStep src s (.queue (.pushFailed p.chunk)) { s with sys := sys, pump := .finishing }
  -- The end of the ingest.
  | finishes {s : State n} {sys : System Chunk (Fin n)} (h : s.pump = .finishing)
      (hturn : QueueStep n s.sys (.finish .pump) sys) :
      PumpStep src s (.queue (.finish .pump)) { s with sys := sys, pump := .joining }
  | returns {s : State n} (h : s.pump = .joining) (hjoined : ∀ w, (s.workers w).Joined) :
      PumpStep src s .own { s with pump := .returned (returnStatus s.status s.workers) }

/-- A step of one worker: `IngestWorkerMain`, reading its stream. -/
inductive WorkerStep (w : Fin n) : State n → Action n → State n → Prop
  | popWaits {s : State n} {sys : System Chunk (Fin n)} (h : s.workers w = .working)
      (hturn : QueueStep n s.sys (.popWaits w) sys) :
      WorkerStep w s (.queue (.popWaits w)) { s with sys := sys }
  | popped {s : State n} {sys : System Chunk (Fin n)} (out : Option Chunk)
      (h : s.workers w = .working) (hturn : QueueStep n s.sys (.popped w out) sys) :
      WorkerStep w s (.queue (.popped w out))
        { s.setWorker w (.answered (.batch out)) with sys := sys }
  | popEnd {s : State n} {sys : System Chunk (Fin n)} (h : s.workers w = .working)
      (hturn : QueueStep n s.sys (.popEnd w) sys) :
      WorkerStep w s (.queue (.popEnd w))
        { s.setWorker w (.answered .endOfStream) with sys := sys }
  | popFailed {s : State n} {sys : System Chunk (Fin n)} (h : s.workers w = .working)
      (hturn : QueueStep n s.sys (.popFailed w) sys) :
      WorkerStep w s (.queue (.popFailed w))
        { s.setWorker w (.answered (.error true)) with sys := sys }
  -- Opening the connection, a batch or the commit fails.
  | fails {s : State n} (h : s.workers w = .working ∨ s.workers w = .ended)
      (hidle : s.sys.workers w = .idle) :
      WorkerStep w s .own (s.setWorker w (.failing false))
  | trips {s : State n} {sys : System Chunk (Fin n)} (collateral : Bool)
      (h : s.workers w = .failing collateral)
      (hturn : QueueStep n s.sys (.fail (.worker w)) sys) :
      WorkerStep w s (.queue (.fail (.worker w)))
        { s.setWorker w (.exited ⟨false, collateral⟩) with sys := sys }
  | returns {s : State n} (h : s.workers w = .ended) :
      WorkerStep w s .own (s.setWorker w (.exited ⟨true, false⟩))

/-- One step of one thread, or a wakeup without a cause. -/
inductive Step (src : Source) : State n → Action n → State n → Prop
  | pump {s s' : State n} {a : Action n} (h : PumpStep src s a s') : Step src s a s'
  | worker {s s' : State n} {a : Action n} (w : Fin n) (h : WorkerStep w s a s') :
      Step src s a s'
  | wakes {s : State n} {sys : System Chunk (Fin n)} (p : Party (Fin n))
      (hturn : QueueStep n s.sys (.wakes p) sys) :
      Step src s (.queue (.wakes p)) { s with sys := sys }

end Steps

/-! ## The worker and its stream -/

section WorkerStream

open AdbcBridge.Bind.Session AdbcBridge.Bind.Execute

variable {d : Driver} {stmt : OdbcStatement} {st : BoundStream} {multirowFirst : Bool}

theorem executeBatches_ok_ends {batches : List Batch} {p : Progress}
    (h : (executeBatches d stmt st multirowFirst batches p).1 = none) : st.ends = true := by
  induction batches generalizing p with
  | nil => simpa [executeBatches] using h
  | cons b rest ih =>
      rw [executeBatches] at h
      dsimp only at h
      split at h
      · split at h
        · exact ih h
        · exact nomatch h
      · exact nomatch h

/-- `ExecuteRows` returns OK only from the end of its stream, so a worker returns
OK only when a pop has told it of the end. -/
theorem executeRows_ok_ends {w : World} (h : (executeRows d stmt st w).status = none) :
    st.ends = true := by
  unfold executeRows at h
  split at h
  · exact nomatch h
  split at h
  · exact nomatch h
  · dsimp only [finish] at h
    apply executeBatches_ok_ends
    by_contra hfailed
    rw [if_neg hfailed] at h
    exact hfailed h

end WorkerStream

/-! ## What a trace says -/

section Traces

variable {n : Nat}

def queueTrace (trace : List (Action n)) : List (Event Chunk (Fin n)) :=
  trace.filterMap fun
    | .queue e => some e
    | _ => none

/-- The rows pushed into the queue, in order. -/
def pushedRows (trace : List (Action n)) : List Nat :=
  (pushes (queueTrace trace)).flatMap Chunk.rows

/-- The rows handed out, in order, each with its worker. -/
def handedRows (trace : List (Action n)) : List (Fin n × Nat) :=
  (handed (queueTrace trace)).flatMap fun x =>
    x.2.toList.flatMap fun c => c.rows.map (Prod.mk x.1)

/-- The row was handed out once, to a worker that has returned OK. -/
def IngestedOnce (trace : List (Action n)) (s : State n) (row : Nat) : Prop :=
  ∃ w, (handedRows trace).filter (fun x => x.2 = row) = [(w, row)] ∧
    ∃ collateral, s.workers w = .exited ⟨true, collateral⟩

theorem queueTrace_append (trace later : List (Action n)) :
    queueTrace (trace ++ later) = queueTrace trace ++ queueTrace later :=
  List.filterMap_append

theorem pushedRows_append (trace later : List (Action n)) :
    pushedRows (trace ++ later) = pushedRows trace ++ pushedRows later := by
  rw [pushedRows, queueTrace_append, pushes_append, List.flatMap_append]
  rfl

/-- The rows an action pushes. -/
def Action.rows : Action n → List Nat
  | .queue (.pushed c) => c.rows
  | _ => []

theorem pushedRows_concat (trace : List (Action n)) (a : Action n) :
    pushedRows (trace ++ [a]) = pushedRows trace ++ a.rows := by
  rw [pushedRows_append]
  congr 1
  cases a with
  | queue e => cases e <;> simp [pushedRows, queueTrace, pushes, Action.rows]
  | unallocated => rfl
  | own => rfl

theorem handedRows_map (trace : List (Action n)) :
    (handedRows trace).map Prod.snd =
      ((handed (queueTrace trace)).map Prod.snd).flatMap fun out =>
        out.toList.flatMap Chunk.rows := by
  rw [handedRows, List.map_flatMap, List.flatMap_map]
  congr 1
  funext x
  cases x.2 with
  | none => rfl
  | some c => simp [Function.comp_def]

end Traces

/-! ## The queue inside -/

section Inside

variable {n : Nat} {src : Source} {trace : List (Action n)} {s s' : State n} {a : Action n}

/-- A step takes a turn in the queue or leaves it alone. -/
theorem Step.sys (h : Step src s a s') :
    (∃ e, a = .queue e ∧ QueueStep n s.sys e s'.sys) ∨
      (s'.sys = s.sys ∧ queueTrace [a] = []) := by
  cases h with
  | pump h => cases h <;> first | exact Or.inl ⟨_, rfl, ‹_›⟩ | exact Or.inr ⟨rfl, rfl⟩
  | worker w h => cases h <;> first | exact Or.inl ⟨_, rfl, ‹_›⟩ | exact Or.inr ⟨rfl, rfl⟩
  | wakes p hturn => exact Or.inl ⟨_, rfl, hturn⟩

/-- What the threads do to the queue is a run of the queue. -/
theorem queue_run (run : Run (Step src) .start trace s) :
    Run (QueueStep n) .start (queueTrace trace) s.sys := by
  apply run.invariant (I := fun trace s => Run (QueueStep n) .start (queueTrace trace) s.sys)
  · exact .nil
  · intro trace s a s' hrun hstep
    rw [queueTrace_append]
    rcases hstep.sys with ⟨e, rfl, hturn⟩ | ⟨hsys, htrace⟩
    · exact hrun.snoc hturn
    · rwa [hsys, htrace, List.append_nil]

theorem protocol_run (run : Run (Step src) .start trace s) :
    Protocol (queueCap n) (queueTrace trace) s.sys :=
  queue_protocol (by rw [queueCap]; omega) (queue_run run)

end Inside

/-! ## The reported failure -/

section Blame

variable {n : Nat}

theorem blameStep_eq_none {result : Fin n → WorkerResult} {acc : Option (Fin n)} {i : Fin n}
    (h : blameStep result acc i = none) : acc = none ∧ (result i).ok = true := by
  cases acc <;> grind [blameStep]

theorem foldl_blame_eq_none {result : Fin n → WorkerResult} (l : List (Fin n))
    {acc : Option (Fin n)} (h : l.foldl (blameStep result) acc = none) :
    acc = none ∧ ∀ i ∈ l, (result i).ok = true := by
  induction l generalizing acc with
  | nil => exact ⟨h, by simp⟩
  | cons i l ih =>
      obtain ⟨hstep, hrest⟩ := ih h
      obtain ⟨hacc, hi⟩ := blameStep_eq_none hstep
      exact ⟨hacc, List.forall_mem_cons.2 ⟨hi, hrest⟩⟩

/-- Nobody is to blame only when every worker succeeded. -/
theorem ok_of_blame {result : Fin n → WorkerResult} (h : blame result = none) (w : Fin n) :
    (result w).ok = true :=
  (foldl_blame_eq_none _ h).2 w (List.mem_finRange w)

theorem returnStatus_ok {status : IngestStatus n} {workers : Fin n → Worker}
    (h : returnStatus status workers = .ok) :
    status = .ok ∧ ∀ w, (workers w).result.ok = true := by
  cases status with
  | ok =>
      rw [returnStatus] at h
      cases hblame : blame fun w => (workers w).result with
      | none => exact ⟨rfl, ok_of_blame hblame⟩
      | some w =>
          rw [hblame] at h
          exact nomatch h
  | invalidArgument => exact nomatch h
  | internal => exact nomatch h
  | worker w => exact nomatch h

end Blame

/-! ## Where the pump is -/

section Pumping

variable {n : Nat} {src : Source} {rows : List Nat} {lost : Prop} {s s' : State n}
  {a : Action n}

/-- The piece lies in its batch, and the batch where it says in the stream. -/
structure Piece.Valid (src : Source) (p : Piece) : Prop where
  total : p.base + p.batch.length + rowsOf p.rest = src.rows
  nonempty : 0 < p.len
  inside : p.off + p.len ≤ p.batch.length

/-- How much the pump has left behind it when it stops. -/
def Left (src : Source) (rows : List Nat) (lost : Prop) (s : State n) : Prop :=
  ∃ k, rows = List.range k ∧
    (k = src.rows ∧ ¬lost ∨ k < src.rows ∧ lost ∨ s.sys.queue.failed = true ∨ s.status ≠ .ok)

/-- What the pump's place says about the rows pushed so far, and about whether
a piece has been lost to a failed allocation. -/
def Pumped (src : Source) (rows : List Nat) (lost : Prop) (s : State n) : Prop :=
  match s.pump with
  | .opening | .starting _ | .started _ => rows = List.range 0 ∧ ¬lost
  | .fetching base rest => rows = List.range base ∧ base + rowsOf rest = src.rows ∧ ¬lost
  | .pumpBatch base b rest =>
      rows = List.range base ∧ base + b.length + rowsOf rest = src.rows ∧ b.length ≠ 0 ∧ ¬lost
  | .allocating p | .pushing p => rows = List.range (p.base + p.off) ∧ p.Valid src ∧ ¬lost
  | .finishing | .joining => Left src rows lost s
  | .returned status => status = .ok → Left src rows lost s

theorem rowsOf_cons (b : SourceBatch) (rest : List SourceBatch) :
    rowsOf (b :: rest) = b.length + rowsOf rest := by
  simp [rowsOf]

theorem pumpBatch_valid {base : Nat} {b : SourceBatch} {rest : List SourceBatch}
    (owned : Bool) (htotal : base + b.length + rowsOf rest = src.rows) (hne : b.length ≠ 0) :
    (pumpBatch base b rest owned).Valid src ∧
      (pumpBatch base b rest owned).base + (pumpBatch base b rest owned).off = base := by
  unfold pumpBatch
  split
  · exact ⟨⟨htotal, Nat.pos_of_ne_zero hne, by simp⟩, rfl⟩
  · refine ⟨⟨htotal, ?_, ?_⟩, rfl⟩
    · rw [ingestSliceRows]
      dsimp only
      omega
    · dsimp only
      omega

theorem range_append_chunk (p : Piece) :
    List.range (p.base + p.off) ++ p.chunk.rows = List.range (p.base + (p.off + p.len)) := by
  have happend := @List.range'_append_1 0 (p.base + p.off) p.len
  rw [Nat.zero_add, Nat.add_assoc] at happend
  rw [List.range_eq_range', List.range_eq_range', ← happend]
  rfl

theorem afterPush_pumped {p : Piece} (hvalid : p.Valid src) (hlost : ¬lost)
    (hpump : s.pump = afterPush n p) :
    Pumped src (List.range (p.base + (p.off + p.len))) lost s := by
  unfold afterPush at hpump
  split at hpump
  · rename_i hmore
    simp only [Pumped, hpump]
    refine ⟨trivial, ⟨hvalid.total, ?_, ?_⟩, hlost⟩
    · rw [ingestSliceRows]
      dsimp only
      omega
    · dsimp only
      omega
  · rename_i hend
    have hinside := hvalid.inside
    simp only [Pumped, hpump]
    refine ⟨by congr 1; omega, hvalid.total, hlost⟩

/-- A step that leaves the pump where it is. -/
theorem Pumped.frame (h : Pumped src rows lost s) (hpump : s'.pump = s.pump)
    (hstatus : s'.status = s.status)
    (hfailed : s.sys.queue.failed = true → s'.sys.queue.failed = true) :
    Pumped src rows lost s' := by
  have hleft : Left src rows lost s → Left src rows lost s' := by
    rintro ⟨k, hrows, hk⟩
    refine ⟨k, hrows, ?_⟩
    rw [hstatus]
    exact hk.imp_right fun hk => hk.imp_right fun hk => hk.imp_left hfailed
  unfold Pumped at h ⊢
  rw [hpump]
  split at h <;> first | exact h | exact hleft h | exact fun hok => hleft (h hok)

theorem afterStart_pumped (hrows : rows = List.range 0) (hlost : ¬lost)
    (hpump : s.pump = afterStart src s.status) : Pumped src rows lost s := by
  unfold afterStart at hpump
  split at hpump
  · simp only [Pumped, hpump]
    exact ⟨hrows, Nat.zero_add _, hlost⟩
  · rename_i hstatus
    simp only [Pumped, hpump]
    exact ⟨0, hrows, Or.inr (Or.inr (Or.inr hstatus))⟩

theorem pumped_step (h : Pumped src rows lost s) (hstep : PumpStep src s a s') :
    Pumped src (rows ++ a.rows) (lost ∨ a = .unallocated) s' := by
  unfold Pumped at h
  cases hstep with
  | getSchemaFails hpump | outOfMemory hpump => exact nofun
  | opened hpump | threadStarts w hpump | startFails w hpump | allStarted hpump =>
      simp only [hpump] at h
      simpa [Pumped, Action.rows] using h
  | goesOn nstarted hpump hstarted =>
      simp only [hpump] at h
      exact afterStart_pumped (by simp [Action.rows, h.1]) (by simp [h.2]) rfl
  | noneStarted hpump hturn =>
      simp only [hpump] at h
      exact afterStart_pumped (by simp [Action.rows, h.1]) (by simp [h.2]) rfl
  | getNextFails base hpump hends hturn =>
      simp only [hpump] at h
      exact ⟨base, by simp [Action.rows, h.1], Or.inr (Or.inr (Or.inr (by simp)))⟩
  | streamEnds base hpump hends =>
      simp only [hpump] at h
      exact ⟨base, by simp [Action.rows, h.1], Or.inl ⟨h.2.1, by simp [h.2.2]⟩⟩
  | skips base b rest hpump hempty =>
      simp only [hpump, rowsOf_cons, hempty, Nat.zero_add] at h
      simpa [Pumped, Action.rows] using h
  | fetches base b rest hpump hempty =>
      simp only [hpump, rowsOf_cons, ← Nat.add_assoc] at h
      simpa [Pumped, Action.rows, hempty] using h
  | pumps base b rest owned hpump =>
      simp only [hpump] at h
      obtain ⟨hrows, htotal, hne, hlost⟩ := h
      obtain ⟨hvalid, hbase⟩ := pumpBatch_valid owned htotal hne
      simp only [Pumped, Action.rows, List.append_nil, hbase]
      exact ⟨hrows, hvalid, by simp [hlost]⟩
  | allocates p hpump =>
      simp only [hpump] at h
      simpa [Pumped, Action.rows] using h
  | allocationFails p hpump =>
      simp only [hpump] at h
      obtain ⟨hrows, hvalid, hlost⟩ := h
      have htotal := hvalid.total
      have hnonempty := hvalid.nonempty
      have hinside := hvalid.inside
      exact ⟨p.base + p.off, by simp [Action.rows, hrows], Or.inr (Or.inl ⟨by omega, by simp⟩)⟩
  | pushWaits p hpump hturn =>
      simp only [hpump] at h
      simpa [Pumped, Action.rows, hpump] using h
  | pushed p hpump hturn =>
      simp only [hpump] at h
      obtain ⟨hrows, hvalid, hlost⟩ := h
      rw [hrows, Action.rows, range_append_chunk]
      exact afterPush_pumped hvalid (by simp [hlost]) rfl
  | pushFailed p hpump hturn =>
      simp only [hpump] at h
      exact ⟨p.base + p.off, by simp [Action.rows, h.1],
        Or.inr (Or.inr (Or.inl hturn.failed_of_pushFailed))⟩
  | finishes hpump hturn =>
      simp only [hpump] at h
      obtain ⟨k, hrows, hk⟩ := h
      exact ⟨k, by simp [Action.rows, hrows], by simpa [hturn.failed_eq] using hk⟩
  | returns hpump hjoined =>
      simp only [hpump] at h
      exact fun _ => by simpa [Left, Action.rows] using h

end Pumping

/-! ## What one step does to the rest -/

section Inversion

variable {n : Nat} {src : Source} {w : Fin n} {s s' : State n} {a : Action n}

/-- The worker has read its stream to the end without a failure. -/
def Worker.Finished (worker : Worker) : Prop :=
  worker = .ended ∨ ∃ collateral, worker = .exited ⟨true, collateral⟩

def Stopped (pump : Pump n) : Prop := pump = .joining ∨ ∃ status, pump = .returned status

/-- A step of the calling thread leaves the workers and the status alone, unless
it starts a worker or something goes wrong. -/
theorem PumpStep.workers (h : PumpStep src s a s') :
    s'.status ≠ .ok ∨
      (∃ v : Fin n, s.pump = .starting v ∧ s' = { s.setWorker v .working with
        pump := .starting (v + 1) }) ∨
      (s'.workers = s.workers ∧ s'.status = s.status ∧
        (s'.sys.queue.failed = s.sys.queue.failed ∨ s.pump = .started 0)) := by
  cases h with
  | threadStarts v hpump => exact Or.inr (Or.inl ⟨v, hpump, rfl⟩)
  | startFails | getNextFails => exact Or.inl (by simp)
  | noneStarted hpump hturn => exact Or.inr (Or.inr ⟨rfl, rfl, Or.inr hpump⟩)
  | pushWaits p hpump hturn => exact Or.inr (Or.inr ⟨rfl, rfl, Or.inl (hturn.failed_eq (by simp))⟩)
  | pushed p hpump hturn => exact Or.inr (Or.inr ⟨rfl, rfl, Or.inl (hturn.failed_eq (by simp))⟩)
  | pushFailed p hpump hturn =>
      exact Or.inr (Or.inr ⟨rfl, rfl, Or.inl (hturn.failed_eq (by simp))⟩)
  | finishes hpump hturn => exact Or.inr (Or.inr ⟨rfl, rfl, Or.inl (hturn.failed_eq (by simp))⟩)
  | _ => exact Or.inr (Or.inr ⟨rfl, rfl, Or.inl rfl⟩)

theorem PumpStep.done (h : PumpStep src s a s') :
    s'.sys.queue.done = s.sys.queue.done ∨ s'.pump = .joining := by
  cases h with
  | finishes hpump hturn => exact Or.inr rfl
  | noneStarted hpump hturn => exact Or.inl (hturn.done_eq (by simp))
  | getNextFails base hpump hends hturn => exact Or.inl (hturn.done_eq (by simp))
  | pushWaits p hpump hturn => exact Or.inl (hturn.done_eq (by simp))
  | pushed p hpump hturn => exact Or.inl (hturn.done_eq (by simp))
  | pushFailed p hpump hturn => exact Or.inl (hturn.done_eq (by simp))
  | _ => exact Or.inl rfl

/-- Once the stream has been pumped only the return is left. -/
theorem PumpStep.stopped (h : PumpStep src s a s') (hstopped : Stopped s.pump) :
    s.pump = .joining ∧ (∀ w, (s.workers w).Joined) ∧ a = .own ∧
      s' = { s with pump := .returned (returnStatus s.status s.workers) } := by
  cases h with
  | returns hpump hjoined => exact ⟨hpump, hjoined, rfl, rfl⟩
  | _ => simp [Stopped, *] at hstopped

/-- The calling thread finishes no worker. -/
theorem PumpStep.finished (h : PumpStep src s a s') (hfinished : (s'.workers w).Finished) :
    (s.workers w).Finished := by
  cases h with
  | threadStarts v hpump =>
      by_cases hw : w = v
      · simp [State.setWorker, hw, Worker.Finished] at hfinished
      · simpa [State.setWorker, hw] using hfinished
  | _ => exact hfinished

/-- A step of a worker leaves the calling thread and the other workers alone. -/
theorem WorkerStep.frame (h : WorkerStep w s a s') :
    s'.pump = s.pump ∧ s'.status = s.status ∧ ∀ v ≠ w, s'.workers v = s.workers v := by
  cases h <;>
    exact ⟨rfl, rfl, fun v hv => by simp [State.setWorker, Function.update_of_ne hv]⟩

theorem WorkerStep.quiet (h : WorkerStep w s a s') : a.rows = [] ∧ a ≠ .unallocated := by
  cases h <;> exact ⟨rfl, nofun⟩

theorem WorkerStep.active (h : WorkerStep w s a s') : ¬(s.workers w).Joined := by
  rw [Worker.Joined]
  cases h with
  | fails h hidle => rcases h with h | h <;> simp [h]
  | _ => simp [*]

theorem WorkerStep.started (h : WorkerStep w s a s') : s'.workers w ≠ .unstarted := by
  cases h <;> simp [State.setWorker, Worker.answered, *]

theorem WorkerStep.failed_mono (h : WorkerStep w s a s') (hfailed : s.sys.queue.failed = true) :
    s'.sys.queue.failed = true := by
  cases h with
  | fails | returns => exact hfailed
  | popWaits _ hturn | popped _ _ hturn | popEnd _ hturn | popFailed _ hturn | trips _ _ hturn =>
      exact hturn.failed_mono hfailed

theorem WorkerStep.failed (h : WorkerStep w s a s') (hfailed : s'.sys.queue.failed = true) :
    s.sys.queue.failed = true ∨ ∃ collateral, s'.workers w = .exited ⟨false, collateral⟩ := by
  cases h with
  | trips collateral h hturn => exact Or.inr ⟨collateral, by simp [State.setWorker]⟩
  | fails | returns => exact Or.inl hfailed
  | popWaits _ hturn | popped _ _ hturn | popEnd _ hturn | popFailed _ hturn =>
      exact Or.inl ((hturn.failed_eq (by simp)) ▸ hfailed)

theorem WorkerStep.done (h : WorkerStep w s a s') :
    s'.sys.queue.done = s.sys.queue.done := by
  cases h with
  | fails | returns => rfl
  | popWaits _ hturn | popped _ _ hturn | popEnd _ hturn | popFailed _ hturn | trips _ _ hturn =>
      exact hturn.done_eq (by simp)

theorem WorkerStep.drained (h : WorkerStep w s a s') (hdrained : Drained s.sys.queue) :
    Drained s'.sys.queue := by
  cases h with
  | fails | returns => exact hdrained
  | popWaits _ hturn | popped _ _ hturn | popEnd _ hturn | popFailed _ hturn | trips _ _ hturn =>
      exact hturn.drained (by simp) hdrained

theorem WorkerStep.finished (h : WorkerStep w s a s') (hfinished : (s'.workers w).Finished) :
    (s.workers w).Finished ∨ Drained s'.sys.queue := by
  cases h with
  | popEnd h hturn => exact Or.inr hturn.drained_of_popEnd
  | returns h => exact Or.inl (Or.inl h)
  | popWaits => exact Or.inl hfinished
  | _ => simp [State.setWorker, Worker.answered, Worker.Finished] at hfinished

end Inversion

/-! ## What holds in every run -/

section Invariant

variable {n : Nat} {src : Source} {trace : List (Action n)} {s s' : State n} {a : Action n}
  {w : Fin n}

/-- The workers started so far. -/
def Launched (s : State n) : Prop :=
  match s.pump with
  | .opening => ∀ w, s.workers w = .unstarted
  | .starting i => ∀ w : Fin n, s.workers w = .unstarted ↔ i ≤ w
  | .started k => (∀ w : Fin n, s.workers w = .unstarted ↔ k ≤ w) ∧ (s.status = .ok → k = n)
  | .returned status => status = .ok → s.status = .ok → ∀ w, s.workers w ≠ .unstarted
  | _ => s.status = .ok → ∀ w, s.workers w ≠ .unstarted

/-- A queue that has failed has somebody to answer for it. -/
def Blamed (s : State n) : Prop :=
  s.sys.queue.failed = true →
    s.status ≠ .ok ∨ ∃ w collateral, s.workers w = .exited ⟨false, collateral⟩

def Returned (s : State n) : Prop :=
  s.pump = .returned .ok →
    s.status = .ok ∧ ∀ w, (s.workers w).Joined ∧ (s.workers w).result.ok = true

structure Invariant (src : Source) (trace : List (Action n)) (s : State n) : Prop where
  pumped : Pumped src (pushedRows trace) (.unallocated ∈ trace) s
  launched : Launched s
  blamed : Blamed s
  stopped : s.sys.queue.done = true → Stopped s.pump
  finished : ∀ w, (s.workers w).Finished → Drained s.sys.queue
  returned : Returned s

theorem launched_afterStart {k : Nat} (hstarted : ∀ w : Fin n, s.workers w = .unstarted ↔ k ≤ w)
    (hk : s.status = .ok → k = n) (hpump : s.pump = afterStart src s.status) : Launched s := by
  have hall : s.status = .ok → ∀ w, s.workers w ≠ .unstarted := by
    intro hok w hw
    have hle := (hstarted w).1 hw
    rw [hk hok] at hle
    omega
  unfold afterStart at hpump
  split at hpump <;> simpa only [Launched, hpump] using hall

theorem launched_pump (h : Launched s) (hstep : PumpStep src s a s') : Launched s' := by
  unfold Launched at h
  cases hstep with
  | getSchemaFails hpump | outOfMemory hpump => exact nofun
  | opened hpump =>
      simp only [hpump] at h
      exact fun w => by simp [h w]
  | threadStarts w hpump =>
      simp only [hpump] at h
      intro v
      by_cases hvw : v = w
      · simp [State.setWorker, hvw]
      · have hne : (v : Nat) ≠ w := fun heq => hvw (Fin.ext heq)
        have hv := h v
        simp only [State.setWorker, Function.update_of_ne hvw, hv]
        omega
  | startFails w hpump =>
      simp only [hpump] at h
      exact ⟨h, nofun⟩
  | allStarted hpump =>
      simp only [hpump] at h
      exact ⟨h, fun _ => rfl⟩
  | goesOn k hpump hstarted =>
      simp only [hpump] at h
      exact launched_afterStart h.1 h.2 rfl
  | noneStarted hpump hturn =>
      simp only [hpump] at h
      exact launched_afterStart h.1 h.2 rfl
  | getNextFails => exact nofun
  | pushed p hpump hturn =>
      simp only [hpump] at h
      unfold afterPush
      split <;> exact h
  | returns hpump hjoined =>
      simp only [hpump] at h
      exact fun _ => h
  | _ => simp_all [Launched]

theorem launched_worker (h : Launched s) (hstep : WorkerStep w s a s') : Launched s' := by
  obtain ⟨hpump, hstatus, hothers⟩ := hstep.frame
  have hworkers : ∀ v, s'.workers v = .unstarted ↔ s.workers v = .unstarted := by
    intro v
    by_cases hv : v = w
    · subst hv
      have hbefore : s.workers v ≠ .unstarted := fun h => hstep.active (Or.inl h)
      simp [hbefore, hstep.started]
    · rw [hothers v hv]
  unfold Launched at h ⊢
  simpa only [hpump, hstatus, hworkers, ne_eq] using h

theorem blamed_pump (hn : 0 < n) (hlaunched : Launched s) (h : Blamed s)
    (hstep : PumpStep src s a s') : Blamed s' := by
  rcases hstep.workers with hstatus | ⟨w, hpump, rfl⟩ | ⟨hworkers, hstatus, hfailed | hpump⟩
  · exact fun _ => Or.inl hstatus
  · simp only [Launched, hpump] at hlaunched
    intro hfailed
    refine (h hfailed).imp id fun ⟨v, collateral, hv⟩ => ⟨v, collateral, ?_⟩
    have hne : v ≠ w := by
      rintro rfl
      simp [(hlaunched v).2 le_rfl] at hv
    simpa [State.setWorker, hne] using hv
  · intro hfail
    rw [hstatus, hworkers]
    exact h (hfailed ▸ hfail)
  · simp only [Launched, hpump] at hlaunched
    exact fun _ => Or.inl fun hok => by
      have := hlaunched.2 (hstatus ▸ hok)
      omega

theorem blamed_worker (h : Blamed s) (hstep : WorkerStep w s a s') : Blamed s' := by
  obtain ⟨-, hstatus, hothers⟩ := hstep.frame
  intro hfailed
  rw [hstatus]
  rcases hstep.failed hfailed with hbefore | hexited
  · refine (h hbefore).imp id fun ⟨v, collateral, hv⟩ => ⟨v, collateral, ?_⟩
    have hne : v ≠ w := by
      rintro rfl
      exact hstep.active (Or.inr ⟨_, hv⟩)
    rw [hothers v hne, hv]
  · exact Or.inr ⟨w, hexited⟩

/-- While the calling thread has work left the stream has not ended. -/
theorem drained_pump (hstopped : s.sys.queue.done = true → Stopped s.pump)
    (hstep : PumpStep src s a s') (hdrained : Drained s.sys.queue) : Drained s'.sys.queue := by
  obtain ⟨-, -, -, rfl⟩ := hstep.stopped (hstopped hdrained.1)
  exact hdrained

theorem stopped_pump (h : s.sys.queue.done = true → Stopped s.pump)
    (hstep : PumpStep src s a s') (hdone : s'.sys.queue.done = true) : Stopped s'.pump := by
  rcases hstep.done with hsame | hjoining
  · obtain ⟨-, -, -, rfl⟩ := hstep.stopped (h (hsame ▸ hdone))
    exact Or.inr ⟨_, rfl⟩
  · exact Or.inl hjoining

theorem returned_pump (hstep : PumpStep src s a s') : Returned s' := by
  intro hreturned
  cases hstep with
  | returns hpump hjoined =>
      obtain ⟨hok, hresult⟩ := returnStatus_ok (Pump.returned.inj hreturned)
      exact ⟨hok, fun w => ⟨hjoined w, hresult w⟩⟩
  | goesOn | noneStarted =>
      simp only [afterStart] at hreturned
      split at hreturned <;> exact nomatch hreturned
  | pushed =>
      simp only [afterPush] at hreturned
      split at hreturned <;> exact nomatch hreturned
  | pushWaits p hpump hturn => simp [hpump] at hreturned
  | _ => exact nomatch hreturned

theorem returned_worker (h : Returned s) (hstep : WorkerStep w s a s') : Returned s' := by
  obtain ⟨hpump, -, -⟩ := hstep.frame
  intro hreturned
  exact absurd ((h (hpump ▸ hreturned)).2 w).1 hstep.active

theorem invariant_start : Invariant src [] (.start : State n) where
  pumped := ⟨rfl, by simp⟩
  launched := fun _ => rfl
  blamed := nofun
  stopped := nofun
  finished := fun w h => by simp [State.start, Worker.Finished] at h
  returned := nofun

theorem invariant_pump (hn : 0 < n) (h : Invariant src trace s) (hstep : PumpStep src s a s') :
    Invariant src (trace ++ [a]) s' where
  pumped := by
    have hpumped := pumped_step h.pumped hstep
    rwa [pushedRows_concat, List.mem_append, List.mem_singleton, eq_comm (a := Action.unallocated)]
  launched := launched_pump h.launched hstep
  blamed := blamed_pump hn h.launched h.blamed hstep
  stopped := stopped_pump h.stopped hstep
  finished := fun w hw => drained_pump h.stopped hstep (h.finished w (hstep.finished hw))
  returned := returned_pump hstep

theorem invariant_worker (h : Invariant src trace s) (hstep : WorkerStep w s a s') :
    Invariant src (trace ++ [a]) s' where
  pumped := by
    obtain ⟨hpump, hstatus, -⟩ := hstep.frame
    obtain ⟨hrows, ha⟩ := hstep.quiet
    rw [pushedRows_concat, hrows, List.append_nil]
    have hlost : (.unallocated ∈ trace ++ [a]) = (.unallocated ∈ trace) := by simp [ha.symm]
    rw [hlost]
    exact h.pumped.frame hpump hstatus hstep.failed_mono
  launched := launched_worker h.launched hstep
  blamed := blamed_worker h.blamed hstep
  stopped := by
    rw [hstep.done, hstep.frame.1]
    exact h.stopped
  finished := by
    intro v hv
    by_cases hvw : v = w
    · subst hvw
      exact (hstep.finished hv).elim (fun hbefore => hstep.drained (h.finished v hbefore)) id
    · rw [hstep.frame.2.2 v hvw] at hv
      exact hstep.drained (h.finished v hv)
  returned := returned_worker h.returned hstep

theorem invariant_wakes (h : Invariant src trace s) {sys : System Chunk (Fin n)}
    {p : Party (Fin n)} (hturn : QueueStep n s.sys (.wakes p) sys) :
    Invariant src (trace ++ [.queue (.wakes p)]) { s with sys := sys } := by
  have hqueue : sys.queue = s.sys.queue := hturn.queue_eq
  refine ⟨?_, h.launched, ?_, ?_, ?_, h.returned⟩
  · have hrows : (Action.queue (.wakes p)).rows = [] := rfl
    rw [pushedRows_concat, hrows, List.append_nil]
    have hlost : (.unallocated ∈ trace ++ [.queue (.wakes p)]) = (.unallocated ∈ trace) := by
      simp
    rw [hlost]
    exact h.pumped.frame rfl rfl hturn.failed_mono
  · simpa only [Blamed, hqueue] using h.blamed
  · simpa only [hqueue] using h.stopped
  · simpa only [hqueue] using h.finished

theorem invariant_run (hn : 0 < n) (run : Run (Step src) .start trace s) :
    Invariant src trace s := by
  apply run.invariant (I := Invariant src) invariant_start
  intro trace s a s' h hstep
  cases hstep with
  | pump hstep => exact invariant_pump hn h hstep
  | worker w hstep => exact invariant_worker h hstep
  | wakes p hturn => exact invariant_wakes h hturn

end Invariant

/-! ## Nothing is lost -/

section Main

variable {n : Nat} {src : Source} {trace : List (Action n)} {s : State n}

/-- A run that returns OK has all its workers at the end of their streams. -/
theorem Invariant.all_ok (h : Invariant src trace s) (hret : s.pump = .returned .ok) (w : Fin n) :
    ∃ collateral, s.workers w = .exited ⟨true, collateral⟩ := by
  obtain ⟨hok, hjoined⟩ := h.returned hret
  obtain ⟨hunstarted | ⟨⟨ok, collateral⟩, hexited⟩, hresult⟩ := hjoined w
  · have hlaunched := h.launched
    simp only [Launched, hret] at hlaunched
    exact absurd hunstarted (hlaunched trivial hok w)
  · rw [hexited] at hresult
    exact ⟨collateral, by rw [hexited, show ok = true from hresult]⟩

/-- How many rows a run that returns OK has pushed. -/
theorem Invariant.pushed_of_ok (h : Invariant src trace s) (hret : s.pump = .returned .ok) :
    ∃ k, pushedRows trace = List.range k ∧
      (k = src.rows ∧ .unallocated ∉ trace ∨ k < src.rows ∧ .unallocated ∈ trace) := by
  have hpumped := h.pumped
  simp only [Pumped, hret] at hpumped
  obtain ⟨k, hrows, hk⟩ := hpumped trivial
  refine ⟨k, hrows, ?_⟩
  rcases hk with hk | hk | hfailed | hstatus
  · exact Or.inl hk
  · exact Or.inr hk
  · rcases h.blamed hfailed with hstatus | ⟨w, collateral, hw⟩
    · exact absurd (h.returned hret).1 hstatus
    · obtain ⟨collateral', hok⟩ := h.all_ok hret w
      rw [hok] at hw
      exact nomatch hw
  · exact absurd (h.returned hret).1 hstatus

/-- With the queue empty everything pushed has been handed out, in order. -/
theorem handedRows_eq_pushed (hrun : Protocol (queueCap n) (queueTrace trace) s.sys)
    (hdrained : Drained s.sys.queue) :
    (handedRows trace).map Prod.snd = pushedRows trace := by
  have horder := hrun.order
  rw [queueDestroy, RingBuffer.toList, hdrained.2, List.range_zero, List.filterMap_nil,
    List.map_nil, List.append_nil] at horder
  rw [handedRows_map, horder, List.flatMap_map, pushedRows]
  congr 1
  funext c
  simp

/-- The entries for one number in a list whose numbers are a range. -/
theorem filter_of_map_range {β : Type} {l : List (β × Nat)} {k row : Nat}
    (h : l.map Prod.snd = List.range k) :
    (l.filter fun x => x.2 = row).map Prod.snd = if row < k then [row] else [] := by
  have hcomp : (fun x : β × Nat => decide (x.2 = row)) = (fun r => decide (r = row)) ∘ Prod.snd :=
    rfl
  rw [hcomp, ← List.filter_map, h, List.filter_eq, List.count_range]
  split <;> rfl

theorem ingestedOnce_iff (hn : 0 < n) (run : Run (Step src) .start trace s)
    (hret : s.pump = .returned .ok) {k row : Nat} (hpushed : pushedRows trace = List.range k) :
    IngestedOnce trace s row ↔ row < k := by
  have h := invariant_run hn run
  obtain ⟨collateral, hw⟩ := h.all_ok hret ⟨0, hn⟩
  have hdrained := h.finished _ (Or.inr ⟨collateral, hw⟩)
  have hmap := handedRows_eq_pushed (protocol_run run) hdrained
  have hfilter := @filter_of_map_range _ _ _ row (hmap.trans hpushed)
  constructor
  · rintro ⟨w, honce, -⟩
    rw [honce] at hfilter
    by_contra hrow
    rw [if_neg hrow] at hfilter
    exact nomatch hfilter
  · intro hrow
    rw [if_pos hrow] at hfilter
    obtain ⟨⟨w, r⟩, hsingle, hr⟩ := List.map_eq_singleton_iff.1 hfilter
    rw [show r = row from hr] at hsingle
    exact ⟨w, hsingle, h.all_ok hret w⟩

/-- A parallel ingest that returns OK has ingested every row of the stream
exactly once, unless an allocation for a piece failed on the way. -/
theorem ingested_once_iff (hn : 0 < n) (run : Run (Step src) .start trace s)
    (hret : s.pump = .returned .ok) :
    (∀ row < src.rows, IngestedOnce trace s row) ↔ .unallocated ∉ trace := by
  obtain ⟨k, hpushed, ⟨hk, hlost⟩ | ⟨hk, hlost⟩⟩ := (invariant_run hn run).pushed_of_ok hret
  · refine iff_of_true (fun row hrow => ?_) hlost
    exact (ingestedOnce_iff hn run hret hpushed).2 (hk ▸ hrow)
  · refine iff_of_false (fun hall => ?_) (not_not.2 hlost)
    exact lt_irrefl k ((ingestedOnce_iff hn run hret hpushed).1 (hall k hk))

/-- One worker takes the row, the other finds the end of the stream. -/
theorem ingested_once_one : ∃ (trace : List (Action 2)) (s : State 2),
    Run (Step ⟨[⟨1, true⟩], true⟩) .start trace s ∧ s.pump = .returned .ok ∧
      ∀ row < 1, IngestedOnce trace s row := by
  have start : Run (Step ⟨[⟨1, true⟩], true⟩) (.start : State 2) [] .start := .nil
  have opened := start.snoc (.pump (.opened rfl))
  have first := opened.snoc (.pump (.threadStarts 0 rfl))
  have second := first.snoc (.pump (.threadStarts 1 rfl))
  have started := (second.snoc (.pump (.allStarted rfl))).snoc (.pump (.goesOn 2 rfl (by decide)))
  have fetched := started.snoc (.pump (.fetches 0 ⟨1, true⟩ [] rfl (by decide)))
  have pumped := fetched.snoc (.pump (.pumps 0 ⟨1, true⟩ [] true rfl))
  have waits := pumped.snoc (.worker 0 (.popWaits rfl (.popWaits 0 (Or.inl rfl) rfl)))
  have pushed := (waits.snoc (.pump (.allocates _ rfl))).snoc
    (.pump (.pushed _ rfl (.pushed _ (Or.inl rfl) rfl (.wakes 0 rfl))))
  have finished := (pushed.snoc (.pump (.streamEnds _ rfl rfl))).snoc
    (.pump (.finishes rfl (.finish .pump rfl)))
  have popped := finished.snoc (.worker 0 (.popped _ rfl (.popped 0 (Or.inr rfl) rfl)))
  have ended := (popped.snoc (.worker 0 (.popEnd rfl (.popEnd 0 (Or.inl rfl) rfl)))).snoc
    (.worker 1 (.popEnd rfl (.popEnd 1 (Or.inl rfl) rfl)))
  have exited := (ended.snoc (.worker 0 (.returns rfl))).snoc (.worker 1 (.returns rfl))
  have returned := exited.snoc (.pump (.returns rfl fun
    | 0 => Or.inr ⟨_, rfl⟩
    | 1 => Or.inr ⟨_, rfl⟩))
  exact ⟨_, _, returned, rfl, (ingested_once_iff (by decide) returned rfl).2 (by simp)⟩

/-- A stream of one row whose only allocation in `PumpWhole` fails: both workers
find an ended stream and the ingest returns OK. -/
theorem lost_row : ∃ (trace : List (Action 2)) (s : State 2),
    Run (Step ⟨[⟨1, true⟩], true⟩) .start trace s ∧ s.pump = .returned .ok ∧
      ¬∀ row < 1, IngestedOnce trace s row := by
  have start : Run (Step ⟨[⟨1, true⟩], true⟩) (.start : State 2) [] .start := .nil
  have opened := start.snoc (.pump (.opened rfl))
  have first := opened.snoc (.pump (.threadStarts 0 rfl))
  have second := first.snoc (.pump (.threadStarts 1 rfl))
  have started := (second.snoc (.pump (.allStarted rfl))).snoc (.pump (.goesOn 2 rfl (by decide)))
  have fetched := started.snoc (.pump (.fetches 0 ⟨1, true⟩ [] rfl (by decide)))
  have pumped := fetched.snoc (.pump (.pumps 0 ⟨1, true⟩ [] true rfl))
  have lost := pumped.snoc (.pump (.allocationFails _ rfl))
  have finished := lost.snoc (.pump (.finishes rfl (.finish .pump rfl)))
  have ended := (finished.snoc (.worker 0 (.popEnd rfl (.popEnd 0 (Or.inl rfl) rfl)))).snoc
    (.worker 1 (.popEnd rfl (.popEnd 1 (Or.inl rfl) rfl)))
  have exited := (ended.snoc (.worker 0 (.returns rfl))).snoc (.worker 1 (.returns rfl))
  have returned := exited.snoc (.pump (.returns rfl fun
    | 0 => Or.inr ⟨_, rfl⟩
    | 1 => Or.inr ⟨_, rfl⟩))
  refine ⟨_, _, returned, rfl, fun hall => ?_⟩
  obtain ⟨w, honce, -⟩ := hall 0 (by decide)
  exact nomatch honce

end Main

end AdbcBridge.Ingest.Parallel
