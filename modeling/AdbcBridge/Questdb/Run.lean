import AdbcBridge.Adbc.Interface
import AdbcBridge.Lib.Loop
import Mathlib

/-!
# Runs of a QuestDB statement

`QdbRunNextBindRow`, `QdbRunNextExecution`, `QdbRunNextArrow`, the exported stream and
its export.  The server, the bound stream and the cancel flag answer through arguments;
a parameter row stands for the values that are bound of it.
-/

namespace AdbcBridge.Questdb.Run

open AdbcBridge.Adbc AdbcBridge.Lib

/-! ## What the run is given -/

/-- An answer of the bound stream: a batch of rows, or why there is none; a batch of
which no view can be made is none. -/
inductive BindAnswer (ρ : Type*) where
  | batch (rows : List ρ)
  | failed (e : AdbcError)
deriving DecidableEq, Repr

/-- A bound stream: the failure of `get_schema`, if any, and the answers of `get_next`
before its end. -/
structure BindStream (ρ : Type*) where
  getSchema : Option AdbcError := none
  answers : List (BindAnswer ρ) := []
deriving DecidableEq, Repr

/-- How an execution ends: with the rows its terminals report, or with a failed fetch. -/
inductive Ending where
  | done (execDone terminalEnd : Option Nat)
  | failed (e : AdbcError)
deriving DecidableEq, Repr

/-- The batches a cursor has left, each with its schema. -/
structure Execution (σ α : Type*) where
  batches : List (σ × α)
  ending : Ending
deriving DecidableEq, Repr

/-- The answers of the client library: the SQL text as UTF-8, the cancel flag at each
look at it, and what becomes of each execution with the row that is bound. -/
structure Driver (ρ σ α : Type*) where
  utf8 : Option AdbcError := none
  cancelled : Nat → Bool := fun _ => false
  execute : Nat → Option ρ → Except AdbcError (Execution σ α)

/-- `struct QdbRun`, with the rows it has executed. -/
structure QdbRun (ρ σ α : Type*) where
  started : Bool := false
  hasBind : Bool
  bind : BindStream ρ := {}
  bindSchemaValid : Bool := false
  bindBatch : Option (List ρ × Nat) := none
  cursor : Option (Execution σ α) := none
  schema : Option σ := none
  first : Option (σ × α) := none
  rowsAffected : Nat := 0
  rowsKnown : Bool := false
  looks : Nat := 0
  executed : List (Option ρ) := []

variable {ρ σ α : Type*}

/-! ## The steps -/

/-- The next batch with rows in it, and the answers after it. -/
def nextRows : List (BindAnswer ρ) →
    Except AdbcError (Option (ρ × List ρ)) × List (BindAnswer ρ)
  | [] => (.ok none, [])
  | .batch [] :: answers => nextRows answers
  | .batch (row :: rows) :: answers => (.ok (some (row, rows)), answers)
  | .failed e :: answers => (.error e, answers)

/-- `QdbRunNextBindRow` behind the last row of a batch. -/
def QdbRun.nextBindBatch (run : QdbRun ρ σ α) : Except AdbcError (Option ρ) × QdbRun ρ σ α :=
  match (if run.bindSchemaValid then none else run.bind.getSchema) with
  | some e => (.error e, { run with bindBatch := none })
  | none =>
      let left : QdbRun ρ σ α := { run with
        bindBatch := none
        bindSchemaValid := true
        bind := { run.bind with answers := (nextRows run.bind.answers).2 } }
      match (nextRows run.bind.answers).1 with
      | .error e => (.error e, left)
      | .ok none => (.ok none, left)
      | .ok (some (row, rows)) =>
          (.ok (some row), { left with bindBatch := some (row :: rows, 0) })

/-- `QdbRunNextBindRow`: the next row, if there is one. -/
def QdbRun.nextBindRow (run : QdbRun ρ σ α) : Except AdbcError (Option ρ) × QdbRun ρ σ α :=
  match run.bindBatch with
  | none => run.nextBindBatch
  | some (rows, bindRow) =>
      match rows[bindRow + 1]? with
      | some row => (.ok (some row), { run with bindBatch := some (rows, bindRow + 1) })
      | none => run.nextBindBatch

def cancelledError : AdbcError := ⟨.cancelled, "Statement cancelled".toList⟩

/-- Preparing, binding and executing one row. -/
def QdbRun.execute (d : Driver ρ σ α) (run : QdbRun ρ σ α) (row : Option ρ) :
    Except AdbcError (Option (Execution σ α)) × QdbRun ρ σ α :=
  ((d.execute run.executed.length row).map some,
    { run with started := true, executed := run.executed ++ [row] })

/-- `QdbRunNextExecution`: the cursor of the next execution, if there is one. -/
def QdbRun.nextExecution (d : Driver ρ σ α) (run : QdbRun ρ σ α) :
    Except AdbcError (Option (Execution σ α)) × QdbRun ρ σ α :=
  let looked := { run with looks := run.looks + 1 }
  if d.cancelled run.looks then (.error cancelledError, looked)
  else
    match d.utf8 with
    | some e => (.error e, looked)
    | none =>
        if ¬ run.hasBind then
          if run.started then (.ok none, looked) else looked.execute d none
        else
          match looked.nextBindRow with
          | (.error e, next) => (.error e, next)
          | (.ok none, next) => (.ok none, next)
          | (.ok (some row), next) => next.execute d (some row)

/-- What a pull comes to: a batch with its schema, the end, or a failure. -/
abbrev Pulled (σ α : Type*) := Except AdbcError (Option (σ × α))

/-- The fetch of `QdbRunNextArrow` from a cursor; an ended one is accounted for and
freed. -/
def QdbRun.fetch (d : Driver ρ σ α) (run : QdbRun ρ σ α) (cursor : Execution σ α) :
    Turn (QdbRun ρ σ α) (Pulled σ α × QdbRun ρ σ α) :=
  let looked := { run with cursor := some cursor, looks := run.looks + 1 }
  if d.cancelled run.looks then .leave (.error cancelledError, looked)
  else
    match cursor.batches with
    | batch :: batches =>
        .leave (.ok (some batch),
          { looked with
            cursor := some { cursor with batches := batches }
            -- A batch behind the first one is delivered whatever its schema is.
            schema := run.schema.or (some batch.1) })
    | [] =>
        match cursor.ending with
        | .failed e => .leave (.error e, looked)
        | .done execDone terminalEnd =>
            .again { looked with
              cursor := none
              rowsAffected := run.rowsAffected + execDone.getD 0 + terminalEnd.getD 0
              rowsKnown := run.rowsKnown || execDone.isSome || terminalEnd.isSome }

/-- One pass of the loop of `QdbRunNextArrow`. -/
def QdbRun.turn (d : Driver ρ σ α) (run : QdbRun ρ σ α) :
    Turn (QdbRun ρ σ α) (Pulled σ α × QdbRun ρ σ α) :=
  match run.cursor with
  | some cursor => run.fetch d cursor
  | none =>
      match run.nextExecution d with
      | (.error e, next) => .leave (.error e, next)
      | (.ok none, next) => .leave (.ok none, next)
      | (.ok (some cursor), next) => next.fetch d cursor

/-! ## The rows that are left -/

/-- The rows of the answers; a failed one has none. -/
def answerRows (answers : List (BindAnswer ρ)) : List ρ :=
  answers.flatMap fun answer =>
    match answer with
    | .batch rows => rows
    | .failed _ => []

/-- The bound rows that have not been executed, in order. -/
def QdbRun.bindRest (run : QdbRun ρ σ α) : List ρ :=
  (run.bindBatch.map fun b => b.1.drop (b.2 + 1)).getD [] ++ answerRows run.bind.answers

/-- What is left to execute; SQL without bound rows is executed once. -/
def QdbRun.rest (run : QdbRun ρ σ α) : List (Option ρ) :=
  if run.hasBind then run.bindRest.map some else if run.started then [] else [none]

/-- The row of an answer. -/
def answered (r : Except AdbcError (Option ρ)) : List ρ :=
  match r with
  | .ok row => row.toList
  | .error _ => []

theorem nextRows_rows (answers : List (BindAnswer ρ)) :
    answerRows answers =
      (match (nextRows answers).1 with
        | .ok (some (row, rows)) => row :: rows
        | _ => []) ++ answerRows (nextRows answers).2 := by
  induction answers using nextRows.induct with
  | case1 => rfl
  | case2 answers ih =>
      rw [nextRows]
      exact ih
  | case3 row rows answers => rfl
  | case4 e answers => rfl

theorem nextRows_none {answers : List (BindAnswer ρ)} (h : (nextRows answers).1 = .ok none) :
    (nextRows answers).2 = [] := by
  induction answers using nextRows.induct with
  | case1 => rfl
  | case2 answers ih =>
      rw [nextRows] at h ⊢
      exact ih h
  | case3 row rows answers => cases h
  | case4 e answers => cases h

/-- What looking for the next row does: nothing but to take it from the rows left. -/
structure BindStep (run : QdbRun ρ σ α) (r : Except AdbcError (Option ρ))
    (next : QdbRun ρ σ α) : Prop where
  rows : run.bindRest = answered r ++ next.bindRest
  none : r = .ok none → next.bindRest = []
  frame : ∃ valid bind batch,
    next = { run with bindSchemaValid := valid, bind := bind, bindBatch := batch }

theorem nextBindBatch_step {run : QdbRun ρ σ α}
    (hdone : run.bindRest = answerRows run.bind.answers) :
    BindStep run run.nextBindBatch.1 run.nextBindBatch.2 := by
  have hrows := nextRows_rows run.bind.answers
  unfold QdbRun.nextBindBatch
  split
  · rename_i e he
    refine ⟨?_, (fun h => nomatch h), _, _, _, rfl⟩
    rw [hdone]
    rfl
  · dsimp only
    split
    · rename_i e he
      rw [he] at hrows
      refine ⟨?_, (fun h => nomatch h), _, _, _, rfl⟩
      rw [hdone, hrows]
      rfl
    · rename_i hnone
      rw [hnone] at hrows
      refine ⟨?_, fun _ => ?_, _, _, _, rfl⟩
      · rw [hdone, hrows]
        rfl
      · rw [QdbRun.bindRest, nextRows_none hnone]
        rfl
    · rename_i row rows hsome
      rw [hsome] at hrows
      refine ⟨?_, (fun h => nomatch h), _, _, _, rfl⟩
      rw [hdone, hrows]
      rfl

theorem nextBindRow_step (run : QdbRun ρ σ α) :
    BindStep run run.nextBindRow.1 run.nextBindRow.2 := by
  unfold QdbRun.nextBindRow
  split
  · rename_i hnone
    apply nextBindBatch_step
    rw [QdbRun.bindRest, hnone]
    rfl
  · rename_i rows bindRow hsome
    split
    · rename_i row hrow
      refine ⟨?_, (fun h => nomatch h), run.bindSchemaValid, run.bind, _, rfl⟩
      obtain ⟨hlt, heq⟩ := List.getElem?_eq_some_iff.mp hrow
      rw [QdbRun.bindRest, QdbRun.bindRest, hsome, Option.map_some, Option.getD_some,
        List.drop_eq_getElem_cons hlt, heq]
      rfl
    · rename_i hrow
      apply nextBindBatch_step
      rw [QdbRun.bindRest, hsome, Option.map_some, Option.getD_some,
        List.drop_eq_nil_of_le (List.getElem?_eq_none_iff.mp hrow), List.nil_append]

/-- What starting an execution does: it takes one row of those left and executes it, it
finds none, or it fails before or in that. -/
inductive ExecStep (d : Driver ρ σ α) (run : QdbRun ρ σ α) :
    Except AdbcError (Option (Execution σ α)) → QdbRun ρ σ α → Prop where
  | started {next : QdbRun ρ σ α} {row : Option ρ} {cursor : Execution σ α} :
      run.rest = row :: next.rest → next.executed = run.executed ++ [row] →
      d.execute run.executed.length row = .ok cursor → ExecStep d run (.ok (some cursor)) next
  | refused {next : QdbRun ρ σ α} {row : Option ρ} {e : AdbcError} :
      run.rest = row :: next.rest → next.executed = run.executed ++ [row] →
      d.execute run.executed.length row = .error e → ExecStep d run (.error e) next
  | ended {next : QdbRun ρ σ α} :
      run.rest = [] → next.rest = [] → next.executed = run.executed →
      ExecStep d run (.ok none) next
  | failed {next : QdbRun ρ σ α} {e : AdbcError} :
      run.rest = next.rest → next.executed = run.executed → ExecStep d run (.error e) next

/-- The results of an execution are no business of its start. -/
def SameResults (run next : QdbRun ρ σ α) : Prop :=
  next.cursor = run.cursor ∧ next.schema = run.schema ∧ next.first = run.first

theorem execute_step {d : Driver ρ σ α} {run next : QdbRun ρ σ α} {row : Option ρ}
    (hexecuted : next.executed = run.executed)
    (hrest : run.rest = row :: (next.execute d row).2.rest) :
    ExecStep d run (next.execute d row).1 (next.execute d row).2 := by
  have hlog : (next.execute d row).2.executed = run.executed ++ [row] := by
    rw [QdbRun.execute, hexecuted]
  have hresult : (next.execute d row).1 = (d.execute run.executed.length row).map some := by
    rw [QdbRun.execute, hexecuted]
  rw [hresult]
  cases hexec : d.execute run.executed.length row with
  | error e => exact .refused hrest hlog hexec
  | ok cursor => exact .started hrest hlog hexec

theorem nextExecution_step (d : Driver ρ σ α) (run : QdbRun ρ σ α) :
    ExecStep d run (run.nextExecution d).1 (run.nextExecution d).2 ∧
      SameResults run (run.nextExecution d).2 := by
  unfold QdbRun.nextExecution
  dsimp only
  split
  · exact ⟨.failed rfl rfl, rfl, rfl, rfl⟩
  · split
    · exact ⟨.failed rfl rfl, rfl, rfl, rfl⟩
    · split
      · rename_i hbind
        split
        · rename_i hstarted
          have hnone : run.rest = [] := by rw [QdbRun.rest, if_neg hbind, if_pos hstarted]
          exact ⟨.ended hnone hnone rfl, rfl, rfl, rfl⟩
        · rename_i hstarted
          refine ⟨execute_step rfl ?_, rfl, rfl, rfl⟩
          rw [QdbRun.rest, if_neg hbind, if_neg hstarted, QdbRun.execute, QdbRun.rest,
            if_neg hbind, if_pos rfl]
      · rename_i hbind
        rw [not_not] at hbind
        have hstep := nextBindRow_step { run with looks := run.looks + 1 }
        have hrest : run.rest = (QdbRun.bindRest { run with looks := run.looks + 1 }).map some := by
          rw [QdbRun.rest, if_pos hbind]
          rfl
        split
        · rename_i e next hres
          rw [hres] at hstep
          obtain ⟨valid, bind, batch, rfl⟩ := hstep.frame
          refine ⟨.failed ?_ rfl, rfl, rfl, rfl⟩
          rw [hrest, hstep.rows, QdbRun.rest, if_pos hbind]
          rfl
        · rename_i next hres
          rw [hres] at hstep
          obtain ⟨valid, bind, batch, rfl⟩ := hstep.frame
          have hnone := hstep.none rfl
          refine ⟨.ended ?_ ?_ rfl, rfl, rfl, rfl⟩
          · rw [hrest, hstep.rows, hnone]
            rfl
          · rw [QdbRun.rest, if_pos hbind, hnone]
            rfl
        · rename_i row next hres
          rw [hres] at hstep
          obtain ⟨valid, bind, batch, rfl⟩ := hstep.frame
          refine ⟨execute_step rfl ?_, rfl, rfl, rfl⟩
          rw [hrest, hstep.rows, QdbRun.execute, QdbRun.rest, if_pos hbind]
          rfl

/-! ## The next batch -/

/-- Two for each row that is left, and one for an open cursor. -/
def QdbRun.rank (run : QdbRun ρ σ α) : Nat :=
  2 * run.rest.length + if run.cursor.isSome then 1 else 0

/-- What a fetch does: it delivers a batch, goes on behind an ended execution, or fails. -/
inductive FetchStep (run : QdbRun ρ σ α) (cursor : Execution σ α) :
    Turn (QdbRun ρ σ α) (Pulled σ α × QdbRun ρ σ α) → Prop where
  | batch {next : QdbRun ρ σ α} {b : σ × α} {batches : List (σ × α)} :
      cursor.batches = b :: batches →
      next.cursor = some { cursor with batches := batches } →
      next.schema = run.schema.or (some b.1) →
      next.rest = run.rest → next.executed = run.executed → next.first = run.first →
      FetchStep run cursor (.leave (.ok (some b), next))
  | ended {next : QdbRun ρ σ α} {execDone terminalEnd : Option Nat} :
      cursor.batches = [] → cursor.ending = .done execDone terminalEnd →
      next.cursor = none → next.schema = run.schema →
      next.rest = run.rest → next.executed = run.executed → next.first = run.first →
      FetchStep run cursor (.again next)
  | failed {next : QdbRun ρ σ α} {e : AdbcError} :
      next.cursor = some cursor → next.schema = run.schema →
      next.rest = run.rest → next.executed = run.executed → next.first = run.first →
      FetchStep run cursor (.leave (.error e, next))

theorem fetch_step (d : Driver ρ σ α) (run : QdbRun ρ σ α) (cursor : Execution σ α) :
    FetchStep run cursor (run.fetch d cursor) := by
  unfold QdbRun.fetch
  dsimp only
  split
  · exact .failed rfl rfl rfl rfl rfl
  · split
    · rename_i b batches hbatches
      exact .batch hbatches rfl rfl rfl rfl rfl
    · rename_i hbatches
      split
      · exact .failed rfl rfl rfl rfl rfl
      · rename_i execDone terminalEnd hending
        exact .ended hbatches hending rfl rfl rfl rfl rfl

theorem turn_descends {d : Driver ρ σ α} {run next : QdbRun ρ σ α}
    (h : run.turn d = .again next) : next.rank < run.rank := by
  unfold QdbRun.turn at h
  split at h
  · rename_i cursor hcursor
    have hstep := fetch_step d run cursor
    rw [h] at hstep
    cases hstep with
    | ended _ _ hnone _ hrest _ _ =>
        rw [QdbRun.rank, QdbRun.rank, hrest, hnone, hcursor]
        simp
  · rename_i hcursor
    obtain ⟨hexec, -⟩ := nextExecution_step d run
    split at h
    · cases h
    · cases h
    · rename_i cursor started hstarted
      have hstep := fetch_step d started cursor
      rw [h] at hstep
      rw [hstarted] at hexec
      cases hstep with
      | ended _ _ hnone _ hrest _ _ =>
          cases hexec with
          | started hrow _ _ =>
              rw [QdbRun.rank, QdbRun.rank, hrest, hnone, hcursor, hrow, List.length_cons]
              simp

def arrowLoop (d : Driver ρ σ α) : Loop (QdbRun ρ σ α) (Pulled σ α × QdbRun ρ σ α) where
  turn := QdbRun.turn d
  rank := QdbRun.rank
  descends := turn_descends

/-- `QdbRunNextArrow`. -/
def QdbRun.nextArrow (d : Driver ρ σ α) (run : QdbRun ρ σ α) : Pulled σ α × QdbRun ρ σ α :=
  (arrowLoop d).run run

/-! ## Where a run stands -/

/-- The batches an execution gives. -/
def batchesOf (d : Driver ρ σ α) (e : Option ρ × Nat) : List (σ × α) :=
  match d.execute e.2 e.1 with
  | .ok x => x.batches
  | .error _ => []

/-- The batches of one execution for each row, in order. -/
def results (d : Driver ρ σ α) (rows : List (Option ρ)) : List (σ × α) :=
  rows.zipIdx.flatMap (batchesOf d)

/-- An execution that came to its end, or is the one whose cursor is open. -/
def WentThrough (d : Driver ρ σ α) (run : QdbRun ρ σ α) (e : Option ρ × Nat) : Prop :=
  ∃ x, d.execute e.2 e.1 = .ok x ∧
    ((∃ execDone terminalEnd, x.ending = .done execDone terminalEnd) ∨
      ∃ c, run.cursor = some c ∧ c.ending = x.ending ∧ e.2 + 1 = run.executed.length)

/-- The batches the open cursor has left. -/
def QdbRun.pending (run : QdbRun ρ σ α) : List (σ × α) :=
  (run.cursor.map Execution.batches).getD []

/-- The rows are executed in order, and what was taken is what the executions gave up to
the open cursor. -/
structure Stands (d : Driver ρ σ α) (rows : List (Option ρ)) (run : QdbRun ρ σ α)
    (taken : List (σ × α)) : Prop where
  rows : run.executed ++ run.rest = rows
  taken : taken ++ run.pending = results d run.executed

/-- So it is without a failure so far. -/
structure Sound (d : Driver ρ σ α) (rows : List (Option ρ)) (run : QdbRun ρ σ α)
    (taken : List (σ × α)) : Prop extends Stands d rows run taken where
  through : ∀ e ∈ run.executed.zipIdx, WentThrough d run e

theorem results_snoc (d : Driver ρ σ α) (rows : List (Option ρ)) (row : Option ρ) :
    results d (rows ++ [row]) = results d rows ++ batchesOf d (row, rows.length) := by
  rw [results, List.zipIdx_append, List.flatMap_append, results]
  simp

theorem results_initial (d : Driver ρ σ α) {rows rows' : List (Option ρ)} (h : rows <+: rows') :
    results d rows <+: results d rows' := by
  obtain ⟨rest, rfl⟩ := h
  rw [results, results, List.zipIdx_append, List.flatMap_append]
  exact List.prefix_append _ _

/-- An execution that was started stands at its first batch. -/
theorem Sound.started {d : Driver ρ σ α} {rows : List (Option ρ)} {run next : QdbRun ρ σ α}
    {taken : List (σ × α)} {row : Option ρ} {cursor : Execution σ α}
    (h : Sound d rows run taken) (hcursor : run.cursor = none)
    (hrest : run.rest = row :: next.rest) (hexecuted : next.executed = run.executed ++ [row])
    (hexec : d.execute run.executed.length row = .ok cursor) :
    Sound d rows { next with cursor := some cursor } taken := by
  have hpending : run.pending = [] := by rw [QdbRun.pending, hcursor]; rfl
  refine ⟨⟨?_, ?_⟩, ?_⟩
  · change next.executed ++ next.rest = rows
    rw [hexecuted, List.append_assoc, List.singleton_append, ← hrest, h.rows]
  · change taken ++ cursor.batches = results d next.executed
    rw [hexecuted, results_snoc, ← h.taken, hpending, List.append_nil, batchesOf, hexec]
  · intro e he
    change e ∈ next.executed.zipIdx at he
    rw [hexecuted, List.zipIdx_append, List.mem_append] at he
    rcases he with he | he
    · obtain ⟨x, hx, hdone | ⟨c, hc, -⟩⟩ := h.through e he
      · exact ⟨x, hx, .inl hdone⟩
      · rw [hcursor] at hc
        cases hc
    · simp only [List.zipIdx_cons, List.zipIdx_nil, List.mem_singleton, Nat.zero_add] at he
      rw [he]
      refine ⟨cursor, hexec, .inr ⟨cursor, rfl, rfl, ?_⟩⟩
      change run.executed.length + 1 = next.executed.length
      rw [hexecuted, List.length_append, List.length_singleton]

section Fetched

variable {d : Driver ρ σ α} {rows : List (Option ρ)} {run next : QdbRun ρ σ α}
  {taken : List (σ × α)} {cursor : Execution σ α}

theorem Sound.batch {b : σ × α} {batches : List (σ × α)} (h : Sound d rows run taken)
    (hcursor : run.cursor = some cursor) (hbatches : cursor.batches = b :: batches)
    (hnext : next.cursor = some { cursor with batches := batches })
    (hrest : next.rest = run.rest) (hexecuted : next.executed = run.executed) :
    Sound d rows next (taken ++ [b]) := by
  refine ⟨⟨by rw [hexecuted, hrest, h.rows], ?_⟩, fun e he => ?_⟩
  · rw [hexecuted, ← h.taken, QdbRun.pending, QdbRun.pending, hnext, hcursor, List.append_assoc]
    simp [hbatches]
  · rw [hexecuted] at he
    obtain ⟨x, hx, hdone | ⟨c, hc, hending, hlast⟩⟩ := h.through e he
    · exact ⟨x, hx, .inl hdone⟩
    · rw [hcursor, Option.some.injEq] at hc
      refine ⟨x, hx, .inr ⟨_, hnext, ?_, by rw [hexecuted, hlast]⟩⟩
      rw [← hending, ← hc]

theorem Sound.ended {execDone terminalEnd : Option Nat} (h : Sound d rows run taken)
    (hcursor : run.cursor = some cursor) (hbatches : cursor.batches = [])
    (hending : cursor.ending = .done execDone terminalEnd) (hnext : next.cursor = none)
    (hrest : next.rest = run.rest) (hexecuted : next.executed = run.executed) :
    Sound d rows next taken := by
  refine ⟨⟨by rw [hexecuted, hrest, h.rows], ?_⟩, fun e he => ?_⟩
  · rw [hexecuted, ← h.taken, QdbRun.pending, QdbRun.pending, hnext, hcursor]
    simp [hbatches]
  · rw [hexecuted] at he
    obtain ⟨x, hx, hdone | ⟨c, hc, hsame, -⟩⟩ := h.through e he
    · exact ⟨x, hx, .inl hdone⟩
    · rw [hcursor, Option.some.injEq] at hc
      exact ⟨x, hx, .inl ⟨execDone, terminalEnd, by rw [← hsame, ← hc, hending]⟩⟩

/-- A state that differs in neither the rows nor the cursor. -/
theorem Stands.congr (h : Stands d rows run taken) (hcursor : next.cursor = run.cursor)
    (hrest : next.rest = run.rest) (hexecuted : next.executed = run.executed) :
    Stands d rows next taken := by
  refine ⟨by rw [hexecuted, hrest, h.rows], ?_⟩
  rw [hexecuted, ← h.taken, QdbRun.pending, QdbRun.pending, hcursor]

theorem Sound.congr (h : Sound d rows run taken) (hcursor : next.cursor = run.cursor)
    (hrest : next.rest = run.rest) (hexecuted : next.executed = run.executed) :
    Sound d rows next taken := by
  refine ⟨h.toStands.congr hcursor hrest hexecuted, fun e he => ?_⟩
  rw [hexecuted] at he
  obtain ⟨x, hx, hthrough⟩ := h.through e he
  refine ⟨x, hx, ?_⟩
  rw [hcursor, hexecuted]
  exact hthrough

/-- A refused execution gives no batch. -/
theorem Stands.refused {row : Option ρ} {e : AdbcError} (h : Stands d rows run taken)
    (hcursor : run.cursor = none) (hsame : next.cursor = run.cursor)
    (hrest : run.rest = row :: next.rest) (hexecuted : next.executed = run.executed ++ [row])
    (hexec : d.execute run.executed.length row = .error e) : Stands d rows next taken := by
  refine ⟨?_, ?_⟩
  · rw [hexecuted, List.append_assoc, List.singleton_append, ← hrest, h.rows]
  · have htaken := h.taken
    rw [QdbRun.pending, hcursor] at htaken
    rw [hexecuted, results_snoc, ← htaken, QdbRun.pending, hsame, hcursor, batchesOf, hexec,
      List.append_nil]

/-- Where a pull arrives. -/
def Arrived (d : Driver ρ σ α) (rows : List (Option ρ)) (taken : List (σ × α))
    (schema : Option σ) (p : Pulled σ α × QdbRun ρ σ α) : Prop :=
  match p.1 with
  | .ok (some b) => Sound d rows p.2 (taken ++ [b]) ∧ p.2.schema = schema.or (some b.1)
  | .ok none =>
      Sound d rows p.2 taken ∧ p.2.schema = schema ∧ p.2.rest = [] ∧ p.2.cursor = none
  | .error _ => Stands d rows p.2 taken ∧ p.2.schema = schema

theorem arrived_fetch {schema : Option σ} {p : Pulled σ α × QdbRun ρ σ α}
    (h : Sound d rows run taken) (hschema : run.schema = schema)
    (hcursor : run.cursor = some cursor) (hleave : run.fetch d cursor = .leave p) :
    Arrived d rows taken schema p := by
  have hstep := fetch_step d run cursor
  rw [hleave] at hstep
  cases hstep with
  | batch hbatches hnext hnextSchema hrest hexecuted _ =>
      exact ⟨h.batch hcursor hbatches hnext hrest hexecuted, hschema ▸ hnextSchema⟩
  | failed hnext hnextSchema hrest hexecuted _ =>
      exact ⟨h.toStands.congr (hnext.trans hcursor.symm) hrest hexecuted,
        hnextSchema.trans hschema⟩

theorem sound_fetch {schema : Option σ} (h : Sound d rows run taken)
    (hschema : run.schema = schema) (hcursor : run.cursor = some cursor)
    (hagain : run.fetch d cursor = .again next) :
    Sound d rows next taken ∧ next.schema = schema := by
  have hstep := fetch_step d run cursor
  rw [hagain] at hstep
  cases hstep with
  | ended hbatches hending hnext hnextSchema hrest hexecuted _ =>
      exact ⟨h.ended hcursor hbatches hending hnext hrest hexecuted, hnextSchema.trans hschema⟩

theorem fetch_cursor (started : QdbRun ρ σ α) :
    QdbRun.fetch d { started with cursor := some cursor } cursor = started.fetch d cursor := by
  unfold QdbRun.fetch
  rfl

/-- The step lemma of the loop: a turn that goes on keeps the run sound, one that leaves
arrives. -/
theorem turn_step {schema : Option σ} (h : Sound d rows run taken) (hschema : run.schema = schema) :
    (∀ next, run.turn d = .again next → Sound d rows next taken ∧ next.schema = schema) ∧
      ∀ p, run.turn d = .leave p → Arrived d rows taken schema p := by
  unfold QdbRun.turn
  split
  · rename_i cursor hcursor
    exact ⟨fun next => sound_fetch h hschema hcursor, fun p => arrived_fetch h hschema hcursor⟩
  · rename_i hcursor
    obtain ⟨hexec, hsame, hsameSchema, -⟩ := nextExecution_step d run
    split
    · rename_i e next hres
      rw [hres] at hexec hsame hsameSchema
      refine ⟨(fun _ heq => nomatch heq), fun p hp => ?_⟩
      rw [← Turn.leave.inj hp]
      refine ⟨?_, hsameSchema.trans hschema⟩
      cases hexec with
      | refused hrest hexecuted herror =>
          exact h.toStands.refused hcursor hsame hrest hexecuted herror
      | failed hrest hexecuted => exact h.toStands.congr hsame hrest.symm hexecuted
    · rename_i next hres
      rw [hres] at hexec hsame hsameSchema
      refine ⟨(fun _ heq => nomatch heq), fun p hp => ?_⟩
      rw [← Turn.leave.inj hp]
      cases hexec with
      | ended hnone hnext hexecuted =>
          exact ⟨h.congr hsame (hnext.trans hnone.symm) hexecuted, hsameSchema.trans hschema,
            hnext, hsame.trans hcursor⟩
    · rename_i cursor started hres
      rw [hres] at hexec hsame hsameSchema
      cases hexec with
      | started hrest hexecuted hcursor' =>
          have hsound := h.started hcursor hrest hexecuted hcursor'
          rw [← fetch_cursor]
          exact ⟨fun next => sound_fetch hsound (hsameSchema.trans hschema) rfl,
            fun p => arrived_fetch hsound (hsameSchema.trans hschema) rfl⟩

theorem nextArrow_arrived {schema : Option σ} (h : Sound d rows run taken)
    (hschema : run.schema = schema) : Arrived d rows taken schema (run.nextArrow d) := by
  apply Loop.run_rule (l := arrowLoop d)
    (I := fun run => Sound d rows run taken ∧ run.schema = schema)
  · exact fun run next hrun hturn => (turn_step hrun.1 hrun.2).1 next hturn
  · exact fun run p hrun hturn => (turn_step hrun.1 hrun.2).2 p hturn
  · exact ⟨h, hschema⟩

end Fetched

theorem turn_first {d : Driver ρ σ α} {run : QdbRun ρ σ α} :
    (∀ next, run.turn d = .again next → next.first = run.first) ∧
      ∀ p, run.turn d = .leave p → p.2.first = run.first := by
  have hfetch (run : QdbRun ρ σ α) (cursor : Execution σ α) :
      (∀ next, run.fetch d cursor = .again next → next.first = run.first) ∧
        ∀ p, run.fetch d cursor = .leave p → p.2.first = run.first := by
    have hstep := fetch_step d run cursor
    constructor
    · intro next hnext
      rw [hnext] at hstep
      cases hstep
      assumption
    · intro p hp
      rw [hp] at hstep
      cases hstep <;> assumption
  obtain ⟨-, -, -, hfirst⟩ := nextExecution_step d run
  unfold QdbRun.turn
  split
  · exact hfetch run _
  · split
    · rename_i e next hres
      rw [hres] at hfirst
      exact ⟨(fun _ heq => nomatch heq), fun p hp => Turn.leave.inj hp ▸ hfirst⟩
    · rename_i next hres
      rw [hres] at hfirst
      exact ⟨(fun _ heq => nomatch heq), fun p hp => Turn.leave.inj hp ▸ hfirst⟩
    · rename_i cursor started hres
      rw [hres] at hfirst
      exact ⟨fun next hnext => ((hfetch started cursor).1 next hnext).trans hfirst,
        fun p hp => ((hfetch started cursor).2 p hp).trans hfirst⟩

/-- The batch that is kept back is no business of a fetch. -/
theorem nextArrow_first (d : Driver ρ σ α) (run : QdbRun ρ σ α) :
    (run.nextArrow d).2.first = run.first := by
  apply Loop.run_rule (l := arrowLoop d) (I := fun r => r.first = run.first)
    (P := fun p => p.2.first = run.first)
  · exact fun r next hr hturn => (turn_first.1 next hturn).trans hr
  · exact fun r p hr hturn => (turn_first.2 p hturn).trans hr
  · rfl

/-! ## The exported stream -/

/-- A run that is exported, or why it is not; a result without a batch has no columns. -/
def qdbRunExport (d : Driver ρ σ α) (noColumns : σ) (run : QdbRun ρ σ α) :
    Except AdbcError (QdbRun ρ σ α) :=
  match run.nextArrow d with
  | (.error e, _) => .error e
  | (.ok first, next) =>
      .ok { next with first := first, schema := some (next.schema.getD noColumns) }

/-- `QdbStreamGetNext`: the batch that told the schema first. -/
def qdbStreamGetNext (d : Driver ρ σ α) (run : QdbRun ρ σ α) : Pulled σ α × QdbRun ρ σ α :=
  match run.first with
  | some b => (.ok (some b), { run with first := none })
  | none => run.nextArrow d

/-- A consumer of the stream: what it was delivered, and how the stream ended, if it
did. -/
structure Consumer (ρ σ α : Type*) where
  run : QdbRun ρ σ α
  delivered : List (σ × α) := []
  ended : Option (Option AdbcError) := none

/-- The run of a statement: `QdbRunNew`. -/
def QdbRun.start (bind : Option (BindStream ρ)) : QdbRun ρ σ α where
  hasBind := bind.isSome
  bind := bind.getD {}

/-- A consumer that is given the stream, or its failure. -/
def Consumer.start (d : Driver ρ σ α) (noColumns : σ) (bind : Option (BindStream ρ)) :
    Consumer ρ σ α :=
  match qdbRunExport d noColumns (QdbRun.start bind) with
  | .ok run => { run := run }
  | .error e => { run := QdbRun.start bind, ended := some (some e) }

/-- It asks for the next batch, also behind the end, up to the first failure. -/
def Consumer.pull (d : Driver ρ σ α) (c : Consumer ρ σ α) : Consumer ρ σ α :=
  match c.ended with
  | some (some _) => c
  | _ =>
      match qdbStreamGetNext d c.run with
      | (.ok (some b), next) => { c with run := next, delivered := c.delivered ++ [b] }
      | (.ok none, next) => { c with run := next, ended := some none }
      | (.error e, next) => { c with run := next, ended := some (some e) }

/-- The rows a statement is executed with. -/
def boundRows (bind : Option (BindStream ρ)) : List (Option ρ) :=
  match bind with
  | some stream => (answerRows stream.answers).map some
  | none => [none]

/-- The batches come in the order of the rows, each row is executed once, and no batch has
a schema other than the one that was announced. -/
structure Delivers (d : Driver ρ σ α) (rows : List (Option ρ)) (c : Consumer ρ σ α) : Prop where
  executed : c.run.executed <+: rows
  batches : c.delivered <+: results d rows
  complete : c.ended = some none →
    c.run.executed = rows ∧ c.delivered = results d rows ∧
      ∀ e ∈ rows.zipIdx, ∃ x execDone terminalEnd,
        d.execute e.2 e.1 = .ok x ∧ x.ending = .done execDone terminalEnd
  schema : ∀ b ∈ c.delivered, c.run.schema = some b.1

/-- No two executions give batches of different schemas. -/
def Uniform (d : Driver ρ σ α) (rows : List (Option ρ)) : Prop :=
  ∀ b ∈ results d rows, ∀ b' ∈ results d rows, b.1 = b'.1

/-! ## What is delivered -/

/-- The schema that was announced is that of the first result. -/
def Announces (d : Driver ρ σ α) (rows : List (Option ρ)) (run : QdbRun ρ σ α) : Prop :=
  run.schema.isSome ∧ ∀ b ∈ (results d rows).head?, run.schema = some b.1

/-- Where a consumer stands while the stream is open, at its end, and after a failure. -/
def Consumer.Ok (d : Driver ρ σ α) (rows : List (Option ρ)) (c : Consumer ρ σ α) : Prop :=
  match c.ended with
  | none => Sound d rows c.run (c.delivered ++ c.run.first.toList) ∧ Announces d rows c.run
  | some none =>
      Sound d rows c.run c.delivered ∧ Announces d rows c.run ∧ c.run.rest = [] ∧
        c.run.cursor = none ∧ c.run.first = none
  | some (some _) =>
      c.run.executed <+: rows ∧ c.delivered <+: results d rows ∧
        (c.delivered = [] ∨ Announces d rows c.run)

section Pulls

variable {d : Driver ρ σ α} {noColumns : σ} {bind : Option (BindStream ρ)}
  {rows : List (Option ρ)} {run : QdbRun ρ σ α} {taken : List (σ × α)}

theorem Stands.executed_initial (h : Stands d rows run taken) : run.executed <+: rows :=
  ⟨run.rest, h.rows⟩

theorem Stands.taken_initial (h : Stands d rows run taken) : taken <+: results d rows :=
  List.IsPrefix.trans ⟨run.pending, h.taken⟩ (results_initial d h.executed_initial)

theorem sound_start : Sound d (boundRows bind) (QdbRun.start bind) [] := by
  refine ⟨⟨?_, rfl⟩, fun e he => absurd he List.not_mem_nil⟩
  cases bind with
  | none => rfl
  | some stream => rfl

theorem start_ok : (Consumer.start d noColumns bind).Ok d (boundRows bind) := by
  have harrived : Arrived d (boundRows bind) [] none ((QdbRun.start bind).nextArrow d) :=
    nextArrow_arrived sound_start rfl
  unfold Consumer.start qdbRunExport
  cases hres : (QdbRun.start bind).nextArrow d with
  | mk r next =>
      rw [hres] at harrived
      cases r with
      | error e => exact ⟨List.nil_prefix, List.nil_prefix, .inl rfl⟩
      | ok first =>
          cases first with
          | some b =>
              obtain ⟨hsound, hschema⟩ := harrived
              have hannounced : next.schema = some b.1 := hschema
              refine ⟨hsound.congr rfl rfl rfl, rfl, fun b' hb' => ?_⟩
              obtain ⟨rest, hrest⟩ := hsound.toStands.taken_initial
              rw [← hrest] at hb'
              have hfirst : b = b' := Option.some.inj hb'
              change some (next.schema.getD noColumns) = some b'.1
              rw [hannounced, Option.getD_some, hfirst]
          | none =>
              obtain ⟨hsound, -, hrest, hcursor⟩ := harrived
              refine ⟨hsound.congr rfl rfl rfl, rfl, fun b hb => ?_⟩
              have hrows := hsound.rows
              rw [hrest, List.append_nil] at hrows
              have hnone := hsound.taken
              rw [QdbRun.pending, hcursor, hrows] at hnone
              rw [← hnone] at hb
              cases hb

/-- Nothing is left at the end: all the rows are executed and all the batches taken. -/
theorem Stands.all (h : Stands d rows run taken) (hrest : run.rest = [])
    (hcursor : run.cursor = none) : run.executed = rows ∧ taken = results d rows := by
  have hrows := h.rows
  have htaken := h.taken
  rw [hrest, List.append_nil] at hrows
  rw [QdbRun.pending, hcursor, hrows] at htaken
  exact ⟨hrows, (List.append_nil taken).symm.trans htaken⟩

/-- The step of a consumer whose stream is open. -/
theorem pull_open {c : Consumer ρ σ α} (h : c.Ok d rows) (hended : c.ended = none) :
    (c.pull d).Ok d rows := by
  unfold Consumer.pull
  rw [Consumer.Ok, hended] at h
  obtain ⟨hsound, hsome, hannounces⟩ := h
  rw [hended]
  unfold qdbStreamGetNext
  cases hfirst : c.run.first with
  | some b =>
      rw [hfirst, Option.toList_some] at hsound
      rw [Consumer.Ok]
      dsimp only
      refine ⟨?_, hsome, hannounces⟩
      have hcleared : Sound d rows { c.run with first := none } _ := hsound.congr rfl rfl rfl
      simpa using hcleared
  | none =>
      rw [hfirst, Option.toList_none, List.append_nil] at hsound
      have harrived := nextArrow_arrived hsound rfl
      have hnone : (c.run.nextArrow d).2.first = none := (nextArrow_first d c.run).trans hfirst
      revert harrived hnone
      rcases c.run.nextArrow d with ⟨e | got, next⟩
      · rintro ⟨hstands, hschema⟩ hnone
        have hsame : next.schema = c.run.schema := hschema
        refine ⟨hstands.executed_initial, hstands.taken_initial, .inr ?_⟩
        rw [Announces, hsame]
        exact ⟨hsome, hannounces⟩
      · cases got with
        | none =>
            rintro ⟨hnext, hschema, hrest, hcursor⟩ hnone
            have hsame : next.schema = c.run.schema := hschema
            refine ⟨hnext, ?_, hrest, hcursor, hnone⟩
            rw [Announces, hsame]
            exact ⟨hsome, hannounces⟩
        | some b =>
            rintro ⟨hnext, hschema⟩ hnone
            have hsame : next.schema = c.run.schema := by
              obtain ⟨s, hs⟩ := Option.isSome_iff_exists.mp hsome
              rw [hschema, hs, Option.some_or]
            rw [Consumer.Ok]
            dsimp only at hnone ⊢
            refine ⟨?_, ?_⟩
            · rw [hnone, Option.toList_none, List.append_nil]
              exact hnext
            · rw [Announces, hsame]
              exact ⟨hsome, hannounces⟩

/-- The step behind the end: there is no batch any more. -/
theorem pull_ended {c : Consumer ρ σ α} (h : c.Ok d rows) (hended : c.ended = some none) :
    (c.pull d).Ok d rows := by
  unfold Consumer.pull
  rw [Consumer.Ok, hended] at h
  obtain ⟨hsound, ⟨hsome, hannounces⟩, hrest, hcursor, hfirst⟩ := h
  have hall := (hsound.toStands.all hrest hcursor).2
  rw [hended]
  unfold qdbStreamGetNext
  rw [hfirst]
  have harrived := nextArrow_arrived hsound rfl
  have hnone : (c.run.nextArrow d).2.first = none := (nextArrow_first d c.run).trans hfirst
  revert harrived hnone
  rcases c.run.nextArrow d with ⟨e | got, next⟩
  · rintro ⟨hstands, hschema⟩ hnone
    have hsame : next.schema = c.run.schema := hschema
    refine ⟨hstands.executed_initial, hstands.taken_initial, .inr ?_⟩
    rw [Announces, hsame]
    exact ⟨hsome, hannounces⟩
  · cases got with
    | none =>
        rintro ⟨hnext, hschema, hrest, hcursor⟩ hnone
        have hsame : next.schema = c.run.schema := hschema
        refine ⟨hnext, ?_, hrest, hcursor, hnone⟩
        rw [Announces, hsame]
        exact ⟨hsome, hannounces⟩
    | some b =>
        rintro ⟨hnext, -⟩ -
        have hmore := hnext.toStands.taken_initial.length_le
        rw [hall, List.length_append, List.length_singleton] at hmore
        omega

theorem pull_ok {c : Consumer ρ σ α} (h : c.Ok d rows) : (c.pull d).Ok d rows := by
  match hended : c.ended with
  | none => exact pull_open h hended
  | some none => exact pull_ended h hended
  | some (some e) =>
      rw [Consumer.pull, hended]
      exact h

theorem pulls_ok (n : Nat) :
    ((Consumer.pull d)^[n] (Consumer.start d noColumns bind)).Ok d (boundRows bind) := by
  induction n with
  | zero => exact start_ok
  | succ n ih =>
      rw [Function.iterate_succ_apply']
      exact pull_ok ih

/-- As long as it is open, every pull delivers a batch. -/
theorem open_length {n : Nat}
    (h : ((Consumer.pull d)^[n] (Consumer.start d noColumns bind)).ended = none) :
    ((Consumer.pull d)^[n] (Consumer.start d noColumns bind)).delivered.length = n := by
  induction n with
  | zero =>
      rw [Function.iterate_zero_apply, Consumer.start]
      split <;> rfl
  | succ n ih =>
      rw [Function.iterate_succ_apply'] at h ⊢
      generalize (Consumer.pull d)^[n] (Consumer.start d noColumns bind) = c at h ih ⊢
      unfold Consumer.pull at h ⊢
      split at h
      · rename_i e hended
        rw [hended] at h
        cases h
      · split at h
        · dsimp only at h ⊢
          rw [List.length_append, ih h, List.length_singleton]
        · cases h
        · cases h

theorem delivered_initial {c : Consumer ρ σ α} (h : c.Ok d rows) :
    c.delivered <+: results d rows := by
  unfold Consumer.Ok at h
  split at h
  · exact (List.prefix_append _ _).trans h.1.toStands.taken_initial
  · exact h.1.toStands.taken_initial
  · exact h.2.1

/-- Every stream comes to its end, or to a failure. -/
theorem pulls_end :
    ∃ n, ((Consumer.pull d)^[n] (Consumer.start d noColumns bind)).ended ≠ none := by
  by_contra hopen
  push Not at hopen
  have hlen := open_length (hopen ((results d (boundRows bind)).length + 1))
  have hok : Consumer.Ok d (boundRows bind)
      ((Consumer.pull d)^[(results d (boundRows bind)).length + 1]
        (Consumer.start d noColumns bind)) := pulls_ok _
  have hle := (delivered_initial hok).length_le
  omega

theorem executed_initial {c : Consumer ρ σ α} (h : c.Ok d rows) : c.run.executed <+: rows := by
  unfold Consumer.Ok at h
  split at h
  · exact h.1.toStands.executed_initial
  · exact h.1.toStands.executed_initial
  · exact h.1

theorem complete_of_ok {c : Consumer ρ σ α} (h : c.Ok d rows) (hended : c.ended = some none) :
    c.run.executed = rows ∧ c.delivered = results d rows ∧
      ∀ e ∈ rows.zipIdx, ∃ x execDone terminalEnd,
        d.execute e.2 e.1 = .ok x ∧ x.ending = .done execDone terminalEnd := by
  rw [Consumer.Ok, hended] at h
  obtain ⟨hsound, -, hrest, hcursor, -⟩ := h
  obtain ⟨hrows, hdelivered⟩ := hsound.toStands.all hrest hcursor
  refine ⟨hrows, hdelivered, fun e he => ?_⟩
  obtain ⟨x, hx, ⟨execDone, terminalEnd, hdone⟩ | ⟨cursor, hopen, -⟩⟩ :=
    hsound.through e (by rwa [hrows])
  · exact ⟨x, execDone, terminalEnd, hx, hdone⟩
  · rw [hcursor] at hopen
    cases hopen

/-- What was announced is the schema of the first batch that was delivered. -/
theorem announced_of_ok {c : Consumer ρ σ α} {b : σ × α} (h : c.Ok d rows)
    (hb : b ∈ c.delivered.head?) : c.run.schema = some b.1 := by
  obtain ⟨rest, hrest⟩ := delivered_initial h
  have hhead : b ∈ (results d rows).head? := by
    rw [← hrest, List.head?_append, hb]
    rfl
  unfold Consumer.Ok at h
  split at h
  · exact h.2.2 b hhead
  · exact h.2.1.2 b hhead
  · rcases h.2.2 with hnone | hannounces
    · rw [hnone] at hb
      cases hb
    · exact hannounces.2 b hhead

/-- A consumer is delivered what it should be exactly as long as the batches have one
schema. -/
theorem delivers_of_ok {c : Consumer ρ σ α} (h : c.Ok d rows) :
    Delivers d rows c ↔ ∀ b ∈ c.delivered, ∀ b' ∈ c.delivered, b.1 = b'.1 := by
  constructor
  · intro hdelivers b hb b' hb'
    have hsame := (hdelivers.schema b hb).symm.trans (hdelivers.schema b' hb')
    exact Option.some.inj hsame
  · intro hsame
    refine ⟨executed_initial h, delivered_initial h, complete_of_ok h, fun b hb => ?_⟩
    obtain ⟨first, hfirst⟩ := Option.ne_none_iff_exists'.mp
      (fun hnone => List.ne_nil_of_mem hb (List.head?_eq_none_iff.mp hnone))
    rw [announced_of_ok h hfirst, hsame first (List.mem_of_head? hfirst) b hb]

end Pulls

/-! ## The result -/

/-- Without two schemas in the results each consumer is delivered the batches of one
execution for each row; at the end of its stream this condition is also needed. -/
theorem delivers (d : Driver ρ σ α) (noColumns : σ) (bind : Option (BindStream ρ)) :
    (Uniform d (boundRows bind) → ∀ n,
        Delivers d (boundRows bind) ((Consumer.pull d)^[n] (Consumer.start d noColumns bind))) ∧
      (∀ n, ((Consumer.pull d)^[n] (Consumer.start d noColumns bind)).ended = some none →
        (Delivers d (boundRows bind) ((Consumer.pull d)^[n] (Consumer.start d noColumns bind)) ↔
          Uniform d (boundRows bind))) ∧
      ∃ n, ((Consumer.pull d)^[n] (Consumer.start d noColumns bind)).ended ≠ none := by
  refine ⟨fun huniform n => ?_, fun n hended => ?_, pulls_end⟩
  · have hok : ((Consumer.pull d)^[n] (Consumer.start d noColumns bind)).Ok d (boundRows bind) :=
      pulls_ok n
    have hsub := (delivered_initial hok).subset
    exact (delivers_of_ok hok).mpr fun b hb b' hb' => huniform b (hsub hb) b' (hsub hb')
  · have hok : ((Consumer.pull d)^[n] (Consumer.start d noColumns bind)).Ok d (boundRows bind) :=
      pulls_ok n
    rw [delivers_of_ok hok, (complete_of_ok hok hended).2.1]
    rfl

/-- Two executions, the second of them with a schema of its own. -/
def retyped : Driver Nat Nat String where
  execute n _ := .ok ⟨[(n, "batch")], .done none none⟩

/-- The batch of the second row is delivered under the schema of the first. -/
theorem delivers_retyped :
    ((Consumer.pull retyped)^[2] (Consumer.start retyped 9
        (some { answers := [.batch [7], .batch [], .batch [8]] }))).delivered =
      [(0, "batch"), (1, "batch")] ∧
    ((Consumer.pull retyped)^[2] (Consumer.start retyped 9
        (some { answers := [.batch [7], .batch [], .batch [8]] }))).run.schema = some 0 ∧
    ¬ Delivers retyped (boundRows (some { answers := [.batch [7], .batch [], .batch [8]] }))
      ((Consumer.pull retyped)^[2] (Consumer.start retyped 9
        (some { answers := [.batch [7], .batch [], .batch [8]] }))) := by
  refine ⟨by decide +kernel, by decide +kernel, fun h => ?_⟩
  have hsecond := h.schema (1, "batch") (by decide +kernel)
  revert hsecond
  decide +kernel

/-- Two executions of one schema, with a batch of no rows between them. -/
def steady : Driver Nat Nat String where
  execute n row := .ok ⟨[(0, if row = some 8 then "eight" else "seven")], .done (some n) none⟩

theorem delivers_steady :
    Uniform steady (boundRows (some { answers := [.batch [7], .batch [], .batch [8]] })) ∧
      ((Consumer.pull steady)^[3] (Consumer.start steady 9
        (some { answers := [.batch [7], .batch [], .batch [8]] }))).ended = some none ∧
      ∀ n, Delivers steady (boundRows (some { answers := [.batch [7], .batch [], .batch [8]] }))
        ((Consumer.pull steady)^[n] (Consumer.start steady 9
          (some { answers := [.batch [7], .batch [], .batch [8]] }))) := by
  have huniform :
      Uniform steady (boundRows (some { answers := [.batch [7], .batch [], .batch [8]] })) := by
    unfold Uniform
    decide
  exact ⟨huniform, by decide +kernel, (delivers steady 9 _).1 huniform⟩

end AdbcBridge.Questdb.Run
