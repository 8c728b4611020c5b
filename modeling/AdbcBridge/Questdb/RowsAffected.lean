import AdbcBridge.Questdb.Run

/-!
# The rows affected of a QuestDB run

`QdbRunDrain`, and what `QdbStatementExecuteQuery` reports: behind the drained run without a
result stream, behind the first batch with one.
-/

namespace AdbcBridge.Questdb.Run

open AdbcBridge.Adbc AdbcBridge.Lib

variable {ρ σ α : Type*}

/-! ## Draining -/

/-- The inner loop of `QdbRunDrain`: whether it is cancelled, and the looks it has taken. -/
def drainBatches {β : Type*} (cancelled : Nat → Bool) : List β → Nat → Bool × Nat
  | [], looks => (false, looks)
  | _ :: batches, looks =>
      if cancelled looks then (true, looks + 1)
      else drainBatches cancelled batches (looks + 1)

/-- A cursor that is drained, accounted for and freed. -/
def QdbRun.drainCursor (d : Driver ρ σ α) (run : QdbRun ρ σ α) (cursor : Execution σ α) :
    Turn (QdbRun ρ σ α) (Except AdbcError Unit × QdbRun ρ σ α) :=
  let read := drainBatches d.cancelled cursor.batches run.looks
  let looked := { run with cursor := some cursor, looks := read.2 }
  if read.1 then .leave (.error cancelledError, looked)
  else
    match cursor.ending with
    | .failed e => .leave (.error e, looked)
    | .done execDone terminalEnd =>
        .again { looked with
          cursor := none
          rowsAffected := run.rowsAffected + execDone.getD 0 + terminalEnd.getD 0
          rowsKnown := run.rowsKnown || execDone.isSome || terminalEnd.isSome }

/-- One pass of the loop of `QdbRunDrain`. -/
def QdbRun.drainTurn (d : Driver ρ σ α) (run : QdbRun ρ σ α) :
    Turn (QdbRun ρ σ α) (Except AdbcError Unit × QdbRun ρ σ α) :=
  match run.cursor with
  | some cursor => run.drainCursor d cursor
  | none =>
      match run.nextExecution d with
      | (.error e, next) => .leave (.error e, next)
      | (.ok none, next) => .leave (.ok (), next)
      | (.ok (some cursor), next) => next.drainCursor d cursor

/-- What draining a cursor does: it leaves with a failure, or accounts for what the terminals
report. -/
inductive DrainStep (run : QdbRun ρ σ α) (cursor : Execution σ α) :
    Turn (QdbRun ρ σ α) (Except AdbcError Unit × QdbRun ρ σ α) → Prop where
  | ended {next : QdbRun ρ σ α} {execDone terminalEnd : Option Nat} :
      cursor.ending = .done execDone terminalEnd → next.cursor = none →
      next.rowsAffected = run.rowsAffected + execDone.getD 0 + terminalEnd.getD 0 →
      next.rowsKnown = (run.rowsKnown || execDone.isSome || terminalEnd.isSome) →
      next.rest = run.rest → next.executed = run.executed →
      DrainStep run cursor (.again next)
  | failed {next : QdbRun ρ σ α} {e : AdbcError} :
      DrainStep run cursor (.leave (.error e, next))

theorem drainCursor_step (d : Driver ρ σ α) (run : QdbRun ρ σ α) (cursor : Execution σ α) :
    DrainStep run cursor (run.drainCursor d cursor) := by
  unfold QdbRun.drainCursor
  dsimp only
  split
  · exact .failed
  · split
    · exact .failed
    · rename_i execDone terminalEnd hending
      exact .ended hending rfl rfl rfl rfl rfl

theorem drainTurn_descends {d : Driver ρ σ α} {run next : QdbRun ρ σ α}
    (h : run.drainTurn d = .again next) : next.rank < run.rank := by
  unfold QdbRun.drainTurn at h
  split at h
  · rename_i cursor hcursor
    have hstep := drainCursor_step d run cursor
    rw [h] at hstep
    cases hstep with
    | ended _ hnone _ _ hrest _ =>
        rw [QdbRun.rank, QdbRun.rank, hrest, hnone, hcursor]
        simp
  · rename_i hcursor
    obtain ⟨hexec, -⟩ := nextExecution_step d run
    split at h
    · cases h
    · cases h
    · rename_i cursor started hstarted
      have hstep := drainCursor_step d started cursor
      rw [h] at hstep
      rw [hstarted] at hexec
      cases hstep with
      | ended _ hnone _ _ hrest _ =>
          cases hexec with
          | started hrow _ _ =>
              rw [QdbRun.rank, QdbRun.rank, hrest, hnone, hcursor, hrow, List.length_cons]
              simp

def drainLoop (d : Driver ρ σ α) :
    Loop (QdbRun ρ σ α) (Except AdbcError Unit × QdbRun ρ σ α) where
  turn := QdbRun.drainTurn d
  rank := QdbRun.rank
  descends := drainTurn_descends

/-- `QdbRunDrain`. -/
def QdbRun.drain (d : Driver ρ σ α) (run : QdbRun ρ σ α) :
    Except AdbcError Unit × QdbRun ρ σ α :=
  (drainLoop d).run run

/-! ## The report -/

/-- `run->rows_known ? run->rows_affected : -1`, in 64 bits. -/
def QdbRun.reported (run : QdbRun ρ σ α) : Int :=
  if run.rowsKnown then Int.bmod run.rowsAffected (2 ^ 64) else -1

/-- `QdbStatementExecuteQuery` for a statement with SQL text: its status, with the exported run
if a stream is asked for, and `*rows_affected`. -/
def qdbStatementExecuteQuery (d : Driver ρ σ α) (noColumns : σ) (borrowReader : Option AdbcError)
    (bind : Option (BindStream ρ)) (out : Bool) :
    Except AdbcError (Option (QdbRun ρ σ α)) × Int :=
  match borrowReader with
  | some e => (.error e, -1)
  | none =>
      if out then
        match qdbRunExport d noColumns (QdbRun.start bind) with
        | .error e => (.error e, -1)
        | .ok run => (.ok (some run), run.reported)
      else
        match (QdbRun.start bind).drain d with
        | (.error e, _) => (.error e, -1)
        | (.ok (), run) => (.ok none, run.reported)

/-! ## What the executions report -/

/-- What becomes of the execution of each row. -/
def outcomes (d : Driver ρ σ α) (rows : List (Option ρ)) :
    List (Except AdbcError (Execution σ α)) :=
  rows.zipIdx.map fun e => d.execute e.2 e.1

/-- The rows that the terminals report, if they do. -/
def Ending.count : Ending → Option Nat
  | .failed _ => none
  | .done none none => none
  | .done execDone terminalEnd => some (execDone.getD 0 + terminalEnd.getD 0)

/-- The rows that an execution affects, if that is known. -/
def rowCount : Except AdbcError (Execution σ α) → Option Nat
  | .error _ => none
  | .ok x => x.ending.count

/-- An execution without a batch. -/
def batchless : Except AdbcError (Execution σ α) → Bool
  | .error _ => false
  | .ok x => x.batches.isEmpty

/-- The rows that some executions are known to affect. -/
def knownRows (os : List (Except AdbcError (Execution σ α))) : Nat := (os.filterMap rowCount).sum

/-- The executions that are over when the report is made: those before the first one with a
batch if there is a stream, and all of them without one. -/
def finished (d : Driver ρ σ α) (rows : List (Option ρ)) (out : Bool) :
    List (Except AdbcError (Execution σ α)) :=
  if out then (outcomes d rows).takeWhile batchless else outcomes d rows

/-- What is reported is "unknown", or the total of what every execution reports. -/
def ExactOrUnknown (d : Driver ρ σ α) (rows : List (Option ρ)) (reported : Int) : Prop :=
  reported = -1 ∨
    ∃ counts : List Nat, (outcomes d rows).map rowCount = counts.map some ∧ reported = counts.sum

/-- The executions that are over report nothing, or wrap to -1; or all of the run report, those
that are not over no rows, and the total fits 63 bits. -/
def Told (d : Driver ρ σ α) (rows : List (Option ρ)) (out : Bool) : Prop :=
  (∀ o ∈ finished d rows out, rowCount o = none) ∨
    Int.bmod (knownRows (finished d rows out)) (2 ^ 64) = -1 ∨
    ((∀ o ∈ outcomes d rows, (rowCount o).isSome) ∧
      knownRows ((outcomes d rows).drop (finished d rows out).length) = 0 ∧
      knownRows (finished d rows out) < 2 ^ 63)

/-! ## Keeping count -/

theorem outcomes_snoc (d : Driver ρ σ α) (rows : List (Option ρ)) (row : Option ρ) :
    outcomes d (rows ++ [row]) = outcomes d rows ++ [d.execute rows.length row] := by
  unfold outcomes
  rw [List.zipIdx_append, List.map_append]
  simp

theorem outcomes_initial (d : Driver ρ σ α) (a b : List (Option ρ)) :
    outcomes d a <+: outcomes d (a ++ b) := by
  unfold outcomes
  rw [List.zipIdx_append, List.map_append]
  exact List.prefix_append _ _

theorem knownRows_append (a b : List (Except AdbcError (Execution σ α))) :
    knownRows (a ++ b) = knownRows a + knownRows b := by
  unfold knownRows
  rw [List.filterMap_append, List.sum_append]

/-- The totals of a run are those of the executions `os`. -/
structure Counted (run : QdbRun ρ σ α) (os : List (Except AdbcError (Execution σ α))) : Prop where
  rows : run.rowsAffected = knownRows os
  known : run.rowsKnown = os.any fun o => (rowCount o).isSome

theorem Counted.ended {run next : QdbRun ρ σ α} {os : List (Except AdbcError (Execution σ α))}
    {x : Execution σ α} {execDone terminalEnd : Option Nat} (h : Counted run os)
    (hending : x.ending = .done execDone terminalEnd)
    (hrows : next.rowsAffected = run.rowsAffected + execDone.getD 0 + terminalEnd.getD 0)
    (hknown : next.rowsKnown = (run.rowsKnown || execDone.isSome || terminalEnd.isSome)) :
    Counted next (os ++ [.ok x]) := by
  have hcount : rowCount (.ok x : Except AdbcError (Execution σ α)) =
      (Ending.done execDone terminalEnd).count := congrArg Ending.count hending
  constructor
  · rw [hrows, h.rows, knownRows_append, Nat.add_assoc]
    congr 1
    unfold knownRows
    rw [List.filterMap_cons, hcount]
    cases execDone <;> cases terminalEnd <;> rfl
  · rw [hknown, h.known, List.any_append, List.any_cons, List.any_nil, Bool.or_false, hcount,
      Bool.or_assoc]
    congr 1
    cases execDone <;> cases terminalEnd <;> rfl

theorem Counted.congr {run next : QdbRun ρ σ α} {os : List (Except AdbcError (Execution σ α))}
    (h : Counted run os) (hrows : next.rowsAffected = run.rowsAffected)
    (hknown : next.rowsKnown = run.rowsKnown) : Counted next os :=
  ⟨hrows.trans h.rows, hknown.trans h.known⟩

/-- Starting an execution leaves the totals as they are. -/
theorem nextExecution_counts (d : Driver ρ σ α) (run : QdbRun ρ σ α) :
    (run.nextExecution d).2.rowsAffected = run.rowsAffected ∧
      (run.nextExecution d).2.rowsKnown = run.rowsKnown := by
  have hbind : ∀ r : QdbRun ρ σ α, r.nextBindRow.2.rowsAffected = r.rowsAffected ∧
      r.nextBindRow.2.rowsKnown = r.rowsKnown := by
    intro r
    obtain ⟨valid, bind, batch, hnext⟩ := (nextBindRow_step r).frame
    rw [hnext]
    exact ⟨rfl, rfl⟩
  unfold QdbRun.nextExecution
  dsimp only
  split
  · exact ⟨rfl, rfl⟩
  · split
    · exact ⟨rfl, rfl⟩
    · split
      · split
        · exact ⟨rfl, rfl⟩
        · exact ⟨rfl, rfl⟩
      · have hnext := hbind { run with looks := run.looks + 1 }
        split <;> rename_i hres <;> rw [hres] at hnext <;> exact hnext

/-- A run between two executions: those of the rows so far are over and counted. -/
structure Between (d : Driver ρ σ α) (rows : List (Option ρ)) (run : QdbRun ρ σ α) : Prop where
  cursor : run.cursor = none
  rows : run.executed ++ run.rest = rows
  counted : Counted run (outcomes d run.executed)

theorem between_start (d : Driver ρ σ α) (bind : Option (BindStream ρ)) :
    Between d (boundRows bind) (QdbRun.start bind) := by
  refine ⟨rfl, ?_, rfl, rfl⟩
  cases bind with
  | none => rfl
  | some stream => rfl

section
variable {d : Driver ρ σ α} {rows : List (Option ρ)} {run next opened : QdbRun ρ σ α}
  {cursor : Execution σ α}

/-- A row that was started is the next one, with the totals as they were. -/
theorem Between.begun (h : Between d rows run)
    (hres : run.nextExecution d = (.ok (some cursor), opened)) :
    (∃ row, opened.executed = run.executed ++ [row] ∧
        d.execute run.executed.length row = .ok cursor) ∧
      opened.executed ++ opened.rest = rows ∧ Counted opened (outcomes d run.executed) := by
  obtain ⟨hexec, -⟩ := nextExecution_step d run
  have hcounts := nextExecution_counts d run
  rw [hres] at hexec hcounts
  cases hexec with
  | started hrow hexecuted hcursor =>
      refine ⟨⟨_, hexecuted, hcursor⟩, ?_, h.counted.congr hcounts.1 hcounts.2⟩
      rw [hexecuted, List.append_assoc, List.singleton_append, ← hrow, h.rows]

/-- Behind the last row the run is counted in full. -/
theorem Between.over (h : Between d rows run)
    (hres : run.nextExecution d = (.ok none, next)) :
    run.executed = rows ∧ Counted next (outcomes d rows) := by
  obtain ⟨hexec, -⟩ := nextExecution_step d run
  have hcounts := nextExecution_counts d run
  rw [hres] at hexec hcounts
  cases hexec with
  | ended hnone _ _ =>
      have hrows := h.rows
      rw [hnone, List.append_nil] at hrows
      refine ⟨hrows, ?_⟩
      rw [← hrows]
      exact h.counted.congr hcounts.1 hcounts.2

/-- Behind an execution that has ended the run is between two again. -/
theorem Between.ended (h : Between d rows run) {execDone terminalEnd : Option Nat}
    (hres : run.nextExecution d = (.ok (some cursor), opened))
    (hending : cursor.ending = .done execDone terminalEnd) (hcursor : next.cursor = none)
    (hrows : next.rowsAffected = opened.rowsAffected + execDone.getD 0 + terminalEnd.getD 0)
    (hknown : next.rowsKnown = (opened.rowsKnown || execDone.isSome || terminalEnd.isSome))
    (hrest : next.rest = opened.rest) (hexecuted : next.executed = opened.executed) :
    Between d rows next ∧ outcomes d next.executed = outcomes d run.executed ++ [.ok cursor] := by
  obtain ⟨⟨row, hrow, hexec⟩, hsplit, hcounted⟩ := h.begun hres
  have houtcomes : outcomes d next.executed = outcomes d run.executed ++ [.ok cursor] := by
    rw [hexecuted, hrow, outcomes_snoc, hexec]
  refine ⟨⟨hcursor, by rw [hrest, hexecuted, hsplit], ?_⟩, houtcomes⟩
  rw [houtcomes]
  exact hcounted.ended hending hrows hknown

/-- A drained run has counted every execution. -/
theorem drain_counted (h : Between d rows run) (hdrain : run.drain d = (.ok (), next)) :
    Counted next (outcomes d rows) := by
  have hrun : ∀ p, run.drain d = p → p.1 = .ok () → Counted p.2 (outcomes d rows) := by
    intro p hp
    rw [← hp]
    apply Loop.run_rule (l := drainLoop d) (I := Between d rows)
      (P := fun p => p.1 = .ok () → Counted p.2 (outcomes d rows)) _ _ h
    · intro r r' hr hturn
      change r.drainTurn d = .again r' at hturn
      unfold QdbRun.drainTurn at hturn
      rw [hr.cursor] at hturn
      dsimp only at hturn
      split at hturn
      · cases hturn
      · cases hturn
      · rename_i cursor opened hres
        have hstep := drainCursor_step d opened cursor
        rw [hturn] at hstep
        cases hstep with
        | ended hending hcursor hrows hknown hrest hexecuted =>
            exact (hr.ended hres hending hcursor hrows hknown hrest hexecuted).1
    · intro r p hr hturn hok
      change r.drainTurn d = .leave p at hturn
      unfold QdbRun.drainTurn at hturn
      rw [hr.cursor] at hturn
      dsimp only at hturn
      split at hturn
      · rw [← Turn.leave.inj hturn] at hok
        cases hok
      · rename_i next hres
        rw [← Turn.leave.inj hturn]
        exact (hr.over hres).2
      · rename_i cursor opened hres
        have hstep := drainCursor_step d opened cursor
        rw [hturn] at hstep
        cases hstep with
        | failed => cases hok
  exact hrun _ hdrain rfl

theorem fetch_leave_counts {p : Pulled σ α × QdbRun ρ σ α} (h : run.fetch d cursor = .leave p) :
    p.2.rowsAffected = run.rowsAffected ∧ p.2.rowsKnown = run.rowsKnown := by
  unfold QdbRun.fetch at h
  dsimp only at h
  split at h
  · rw [← Turn.leave.inj h]
    exact ⟨rfl, rfl⟩
  · split at h
    · rw [← Turn.leave.inj h]
      exact ⟨rfl, rfl⟩
    · split at h
      · rw [← Turn.leave.inj h]
        exact ⟨rfl, rfl⟩
      · cases h

theorem fetch_again_counts (h : run.fetch d cursor = .again next) :
    ∃ execDone terminalEnd, cursor.ending = .done execDone terminalEnd ∧
      next.rowsAffected = run.rowsAffected + execDone.getD 0 + terminalEnd.getD 0 ∧
      next.rowsKnown = (run.rowsKnown || execDone.isSome || terminalEnd.isSome) := by
  unfold QdbRun.fetch at h
  dsimp only at h
  split at h
  · cases h
  · split at h
    · cases h
    · split at h
      · cases h
      · rename_i execDone terminalEnd hending
        rw [← Turn.again.inj h]
        exact ⟨execDone, terminalEnd, hending, rfl, rfl⟩

/-- So far there has been no batch. -/
structure Unprimed (d : Driver ρ σ α) (rows : List (Option ρ)) (run : QdbRun ρ σ α) : Prop
    extends Between d rows run where
  batchless : ∀ o ∈ outcomes d run.executed, batchless o

theorem unprimed_turn (h : Unprimed d rows run) (hturn : run.turn d = .again next) :
    Unprimed d rows next := by
  unfold QdbRun.turn at hturn
  rw [h.cursor] at hturn
  dsimp only at hturn
  split at hturn
  · cases hturn
  · cases hturn
  · rename_i cursor opened hres
    have hstep := fetch_step d opened cursor
    obtain ⟨execDone, terminalEnd, hending, hrows, hknown⟩ := fetch_again_counts hturn
    rw [hturn] at hstep
    cases hstep with
    | ended hbatches _ hcursor _ hrest hexecuted _ =>
        obtain ⟨hbetween, houtcomes⟩ :=
          h.toBetween.ended hres hending hcursor hrows hknown hrest hexecuted
        refine ⟨hbetween, ?_⟩
        rw [houtcomes]
        intro o ho
        rcases List.mem_append.mp ho with ho | ho
        · exact h.batchless o ho
        · rw [List.mem_singleton.mp ho, batchless, hbatches]
          rfl

theorem takeWhile_batchless {executed rest : List (Option ρ)} {row : Option ρ}
    (h : ∀ o ∈ outcomes d executed, batchless o)
    (hbatch : batchless (d.execute executed.length row) = false) :
    (outcomes d (executed ++ row :: rest)).takeWhile batchless = outcomes d executed := by
  obtain ⟨tail, htail⟩ := outcomes_initial d (executed ++ [row]) rest
  rw [List.append_assoc, List.singleton_append] at htail
  rw [← htail, outcomes_snoc, List.append_assoc, List.takeWhile_append_of_pos h,
    List.singleton_append, List.takeWhile_cons_of_neg (by rw [hbatch]; decide), List.append_nil]

/-- The first pull has counted the executions before the first one with a batch. -/
theorem unprimed_leave (h : Unprimed d rows run) {p : Pulled σ α × QdbRun ρ σ α}
    (hturn : run.turn d = .leave p) {first : Option (σ × α)} (hok : p.1 = .ok first) :
    Counted p.2 (finished d rows true) := by
  unfold finished
  rw [if_pos rfl]
  unfold QdbRun.turn at hturn
  rw [h.cursor] at hturn
  dsimp only at hturn
  split at hturn
  · rw [← Turn.leave.inj hturn] at hok
    cases hok
  · rename_i next hres
    obtain ⟨hrows, hcounted⟩ := h.toBetween.over hres
    have hall := h.batchless
    rw [hrows] at hall
    rw [← Turn.leave.inj hturn, List.takeWhile_eq_self_iff.mpr hall]
    exact hcounted
  · rename_i cursor opened hres
    obtain ⟨⟨row, hrow, hexec⟩, hsplit, hcounted⟩ := h.toBetween.begun hres
    have hcounts := fetch_leave_counts hturn
    have hstep := fetch_step d opened cursor
    rw [hturn] at hstep
    cases hstep with
    | failed => cases hok
    | batch hbatches _ _ hrest _ _ =>
        have hbatch : batchless (d.execute run.executed.length row) = false := by
          rw [hexec, batchless, hbatches]
          rfl
        rw [hrow, List.append_assoc, List.singleton_append] at hsplit
        rw [← hsplit, takeWhile_batchless h.batchless hbatch]
        exact hcounted.congr hcounts.1 hcounts.2

theorem export_counted {noColumns : σ} {bind : Option (BindStream ρ)} {run : QdbRun ρ σ α}
    (h : qdbRunExport d noColumns (QdbRun.start bind) = .ok run) :
    Counted run (finished d (boundRows bind) true) := by
  have hprimed : ∀ p, (QdbRun.start bind).nextArrow d = p → ∀ first, p.1 = .ok first →
      Counted p.2 (finished d (boundRows bind) true) := by
    intro p hp
    rw [← hp]
    apply Loop.run_rule (l := arrowLoop d) (I := Unprimed d (boundRows bind))
      (P := fun p => ∀ first, p.1 = .ok first →
        Counted p.2 (finished d (boundRows bind) true))
    · exact fun r r' hr hturn => unprimed_turn hr hturn
    · exact fun r p hr hturn first hok => unprimed_leave hr hturn hok
    · refine ⟨between_start d bind, ?_⟩
      intro o ho
      cases ho
  unfold qdbRunExport at h
  split at h
  · cases h
  · rename_i first next hres
    rw [← Except.ok.inj h]
    exact (hprimed _ hres first rfl).congr rfl rfl

end

/-! ## Exact or unknown -/

theorem filterMap_rowCount {os : List (Except AdbcError (Execution σ α))} {counts : List Nat}
    (h : os.map rowCount = counts.map some) : os.filterMap rowCount = counts := by
  have hid := List.filterMap_map (l := os) (f := rowCount) (g := id)
  rw [h, List.filterMap_map] at hid
  have hcounts : List.filterMap (id ∘ some) counts = counts := List.filterMap_some
  rw [hcounts] at hid
  exact hid.symm

theorem map_rowCount {os : List (Except AdbcError (Execution σ α))}
    (h : ∀ o ∈ os, (rowCount o).isSome) : os.map rowCount = (os.filterMap rowCount).map some := by
  induction os with
  | nil => rfl
  | cons o os ih =>
      obtain ⟨n, hn⟩ := Option.isSome_iff_exists.mp (h o List.mem_cons_self)
      rw [List.map_cons, List.filterMap_cons, hn, ih fun x hx => h x (List.mem_cons_of_mem _ hx)]
      rfl

theorem finished_cut (d : Driver ρ σ α) (rows : List (Option ρ)) (out : Bool) :
    outcomes d rows =
      finished d rows out ++ (outcomes d rows).drop (finished d rows out).length := by
  have hprefix : finished d rows out <+: outcomes d rows := by
    unfold finished
    split
    · exact List.takeWhile_prefix _
    · exact List.prefix_rfl
  exact (List.prefix_iff_eq_append.mp hprefix).symm

theorem bmod_small {n : Nat} (h : n < 2 ^ 63) : Int.bmod n (2 ^ 64) = n := by
  rw [Int.bmod_def]
  omega

theorem bmod_lt (n : Nat) : Int.bmod n (2 ^ 64) < 2 ^ 63 := by
  rw [Int.bmod_def]
  omega

/-- The report on the executions that are over is exact or unknown just as it is told. -/
theorem reported_iff {d : Driver ρ σ α} {rows : List (Option ρ)} {run : QdbRun ρ σ α} {out : Bool}
    (h : Counted run (finished d rows out)) :
    ExactOrUnknown d rows run.reported ↔ Told d rows out := by
  have hcut := finished_cut d rows out
  have hsum := knownRows_append (finished d rows out)
    ((outcomes d rows).drop (finished d rows out).length)
  rw [← hcut] at hsum
  have hnone : run.rowsKnown = false ↔ ∀ o ∈ finished d rows out, rowCount o = none := by
    rw [h.known, List.any_eq_false]
    simp
  unfold ExactOrUnknown Told QdbRun.reported
  rw [h.rows]
  by_cases hknown : run.rowsKnown = true
  · rw [if_pos hknown]
    constructor
    · rintro (hwraps | ⟨counts, hcounts, hexact⟩)
      · exact Or.inr (Or.inl hwraps)
      · refine Or.inr (Or.inr ?_)
        have hlt := bmod_lt (knownRows (finished d rows out))
        have htotal : knownRows (outcomes d rows) = counts.sum :=
          congrArg List.sum (filterMap_rowCount hcounts)
        have hsmall : knownRows (finished d rows out) < 2 ^ 63 := by omega
        rw [bmod_small hsmall] at hexact
        refine ⟨?_, by omega, hsmall⟩
        intro o ho
        have hmem := List.mem_map_of_mem (f := rowCount) ho
        rw [hcounts] at hmem
        obtain ⟨n, -, hn⟩ := List.mem_map.mp hmem
        rw [← hn]
        rfl
    · rintro (hall | hwraps | ⟨hall, hrest, hsmall⟩)
      · rw [hnone.mpr hall] at hknown
        cases hknown
      · exact Or.inl hwraps
      · refine Or.inr ⟨(outcomes d rows).filterMap rowCount, map_rowCount hall, ?_⟩
        have htotal : ((outcomes d rows).filterMap rowCount).sum =
            knownRows (finished d rows out) := by
          unfold knownRows at hsum hrest ⊢
          omega
        rw [bmod_small hsmall, htotal]
  · rw [if_neg hknown]
    exact iff_of_true (Or.inl rfl) (Or.inl (hnone.mp (Bool.eq_false_iff.mpr hknown)))

/-- The rows affected that `QdbStatementExecuteQuery` reports are unknown behind a failure; and
otherwise they are unknown or exact if and only if the executions that are over when it
returns tell the total of the run. -/
theorem rowsAffected_exact_iff (d : Driver ρ σ α) (noColumns : σ)
    (borrowReader : Option AdbcError) (bind : Option (BindStream ρ)) (out : Bool) :
    (∀ e, (qdbStatementExecuteQuery d noColumns borrowReader bind out).1 = .error e →
      (qdbStatementExecuteQuery d noColumns borrowReader bind out).2 = -1) ∧
    ∀ stream, (qdbStatementExecuteQuery d noColumns borrowReader bind out).1 = .ok stream →
      (ExactOrUnknown d (boundRows bind)
          (qdbStatementExecuteQuery d noColumns borrowReader bind out).2 ↔
        Told d (boundRows bind) out) := by
  unfold qdbStatementExecuteQuery
  cases borrowReader with
  | some e =>
      refine ⟨fun _ _ => rfl, ?_⟩
      intro stream hok
      cases hok
  | none =>
      cases out with
      | true =>
          cases hexport : qdbRunExport d noColumns (QdbRun.start bind) with
          | error e =>
              refine ⟨fun _ _ => rfl, ?_⟩
              intro stream hok
              cases hok
          | ok run =>
              refine ⟨?_, fun _ _ => reported_iff (export_counted hexport)⟩
              intro e herror
              cases herror
      | false =>
          rcases hdrain : (QdbRun.start bind).drain d with ⟨e | u, run⟩
          · refine ⟨fun _ _ => rfl, ?_⟩
            intro stream hok
            cases hok
          · refine ⟨?_, fun _ _ => reported_iff (drain_counted (between_start d bind) hdrain)⟩
            intro e herror
            cases herror

/-- An insert of three rows, and a query of five rows with the second parameter. -/
def mixed : Driver Nat Nat String where
  execute _ row :=
    if row = some 0 then .ok ⟨[], .done (some 3) none⟩
    else .ok ⟨[(0, "batch")], .done none (some 5)⟩

/-- With a stream three rows are reported of eight, without one all eight. -/
theorem partialTotal :
    (qdbStatementExecuteQuery mixed 9 none (some { answers := [.batch [0, 1]] }) true).2 = 3 ∧
      (qdbStatementExecuteQuery mixed 9 none (some { answers := [.batch [0, 1]] }) false).2 = 8 ∧
      ¬ ExactOrUnknown mixed (boundRows (some { answers := [.batch [0, 1]] }))
        (qdbStatementExecuteQuery mixed 9 none (some { answers := [.batch [0, 1]] }) true).2 := by
  have hthree : (qdbStatementExecuteQuery mixed 9 none
      (some { answers := [.batch [0, 1]] }) true).2 = 3 := by decide +kernel
  refine ⟨hthree, by decide +kernel, ?_⟩
  rw [hthree]
  rintro (hminus | ⟨counts, hcounts, htotal⟩)
  · cases hminus
  · have hsum : counts.sum = 8 := by
      rw [← filterMap_rowCount hcounts]
      decide
    omega

/-- Without a stream all eight rows are reported, and nothing is with one when the query comes
first. -/
theorem mixed_exact :
    ExactOrUnknown mixed (boundRows (some { answers := [.batch [0, 1]] }))
      (qdbStatementExecuteQuery mixed 9 none (some { answers := [.batch [0, 1]] }) false).2 ∧
    ExactOrUnknown mixed (boundRows (some { answers := [.batch [1, 0]] }))
      (qdbStatementExecuteQuery mixed 9 none (some { answers := [.batch [1, 0]] }) true).2 := by
  have hok : ∃ r, (qdbStatementExecuteQuery mixed 9 none
      (some { answers := [.batch [0, 1]] }) false).1 = .ok r := by
    cases hres : (qdbStatementExecuteQuery mixed 9 none
        (some { answers := [.batch [0, 1]] }) false).1 with
    | ok r => exact ⟨r, rfl⟩
    | error e =>
        have hunknown := (rowsAffected_exact_iff mixed 9 none _ false).1 e hres
        exact absurd hunknown (by decide +kernel)
  have hok' : (qdbStatementExecuteQuery mixed 9 none
      (some { answers := [.batch [1, 0]] }) true).2 = -1 := by decide +kernel
  obtain ⟨r, hr⟩ := hok
  refine ⟨((rowsAffected_exact_iff mixed 9 none _ false).2 r hr).mpr ?_, Or.inl hok'⟩
  refine Or.inr (Or.inr ⟨?_, by decide, by decide⟩)
  decide

end AdbcBridge.Questdb.Run
