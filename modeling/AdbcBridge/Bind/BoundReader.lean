import AdbcBridge.Adbc.Interface
import AdbcBridge.Lib.Loop
import AdbcBridge.Reader.RowCount
import Mathlib

/-!
# The reader over a bound query

`struct BoundReader`: a query that returns rows is executed once for each bound parameter
row, eagerly up to the first result set and lazily behind it, and the results are one
stream.  The bound stream, the executions and the readers over their result sets answer
through arguments; a parameter row stands for the values that are bound of it.
-/

namespace AdbcBridge.Bind.Reexecute

open AdbcBridge.Adbc AdbcBridge.Lib AdbcBridge.Reader.RowCount

/-! ## What the reader is given -/

/-- An answer of the bound stream's `get_next`: a batch, one of which no view can be made,
or a failure. -/
inductive ParamAnswer (ρ : Type*) where
  | batch (rows : List ρ)
  | invalid (message : List Char)
  | failed (message : List Char)
deriving DecidableEq, Repr

/-- A bound stream: the failure to make views of its schema, if any, and the answers before
its end. -/
structure ParamStream (ρ : Type*) where
  schema : Option AdbcError := none
  answers : List (ParamAnswer ρ) := []
deriving DecidableEq, Repr

/-- A column of a result schema. -/
structure Column where
  name : List Char
  format : List Char
deriving DecidableEq, Repr

/-- The stream that `OdbcReaderInit` opens: its `get_schema`, its batches, and the return code
of the `get_next` behind them. -/
structure ResultSet (α : Type*) where
  schema : Except Int (List Column)
  batches : List α
  ending : Int := 0
deriving DecidableEq, Repr

/-- An execution that did not fail: the number of its result columns, its answer to
`SQLRowCount`, and what `OdbcReaderInit` makes of it. -/
structure Execution (α : Type*) where
  resultCols : Int
  rowCount : RowCountAnswer
  result : Except AdbcError (ResultSet α)
deriving DecidableEq, Repr

/-- The width of the driver's `SQLLEN`, and what becomes of each `BindAndExecuteRow`. -/
structure Driver (ρ α : Type*) where
  sqllen32 : Bool := false
  execute : Nat → ρ → Except AdbcError (Execution α)

/-- `struct BoundReader`, with the rows it has executed. -/
structure BoundReader (ρ α : Type*) where
  params : List (ParamAnswer ρ)
  batch : Option (List ρ) := none
  row : Nat := 0
  paramsDone : Bool := false
  schema : Option (List Column) := none
  inner : Option (ResultSet α) := none
  done : Bool := false
  executed : List ρ := []

variable {ρ α : Type*}

/-! ## The steps -/

/-- `InternalAdbcStatusCodeToErrno`, for the codes of a failure, with the values of Linux. -/
def adbcStatusCodeToErrno : AdbcStatusCode → Int
  | .unknown => 5
  | .notImplemented => 95
  | .notFound => 2
  | .alreadyExists => 17
  | .invalidArgument | .invalidState => 22
  | .invalidData | .integrity | .internal | .io => 5
  | .cancelled => 125
  | .timeout => 110
  | .unauthenticated | .unauthorized => 13

def formats (s : List Column) : List (List Char) := s.map Column.format

/-- `ResultSchemaMatches`. -/
def resultSchemaMatches (a b : List Column) : Bool :=
  a.length == b.length && (a.zip b).all fun c => c.1.format == c.2.format

def getNextFailed (message : List Char) : AdbcError :=
  ⟨.invalidArgument, "Bound stream get_next failed: ".toList ++ message⟩

def invalidBatch (message : List Char) : AdbcError :=
  ⟨.invalidArgument, "Invalid bound batch: ".toList ++ message⟩

def noSchema : AdbcError := ⟨.internal, "Failed to read result schema".toList⟩

def schemaDiffers (row : Int) : AdbcError :=
  ⟨.invalidState, "Bound parameter row ".toList ++ (toString row).toList ++
    " produced a result set with a different schema than the first row".toList⟩

/-- The loop of `BoundReaderExecuteNextRow` behind the last row of a batch. -/
def BoundReader.nextBatch (r : BoundReader ρ α) :
    List (ParamAnswer ρ) → Except AdbcError (Option ρ) × BoundReader ρ α
  | [] => (.ok none, { r with params := [], batch := none, paramsDone := true })
  | .batch [] :: params => r.nextBatch params
  | .batch (row :: rows) :: params =>
      (.ok (some row), { r with params := params, batch := some (row :: rows), row := 1 })
  -- The batch is kept up to the release of the reader, which does not look at it again.
  | .invalid message :: params =>
      (.error (invalidBatch message), { r with params := params, batch := none })
  | .failed message :: params =>
      (.error (getNextFailed message), { r with params := params, batch := none })

/-- The parameter row that `BoundReaderExecuteNextRow` executes, if there is one. -/
def BoundReader.nextRow (r : BoundReader ρ α) : Except AdbcError (Option ρ) × BoundReader ρ α :=
  match r.batch.bind (·[r.row]?) with
  | some row => (.ok (some row), { r with row := r.row + 1 })
  | none =>
      if r.paramsDone then (.ok none, { r with batch := none }) else r.nextBatch r.params

/-- `BoundReaderExecuteNextRow`: the next execution, and none when the stream is spent. -/
def BoundReader.executeNextRow (d : Driver ρ α) (r : BoundReader ρ α) :
    Except AdbcError (Option (Execution α)) × BoundReader ρ α :=
  match r.nextRow with
  | (.error e, next) => (.error e, next)
  | (.ok none, next) => (.ok none, next)
  | (.ok (some row), next) =>
      ((d.execute r.executed.length row).map some,
        { next with executed := r.executed ++ [row] })

/-- What `BoundReaderOpenNextResult` comes to: whether the stream is spent. -/
abbrev Opened := Except AdbcError Bool

/-- The reader over a result set, whose schema has to be that of the first one. -/
def BoundReader.openResult (r : BoundReader ρ α) (result : Except AdbcError (ResultSet α)) :
    Opened × BoundReader ρ α :=
  match result with
  | .error e => (.error e, r)
  | .ok inner =>
      let opened := { r with inner := some inner }
      match inner.schema with
      | .error _ => (.error noSchema, opened)
      | .ok next =>
          match r.schema with
          | none => (.ok false, { opened with schema := some next })
          | some schema =>
              if resultSchemaMatches schema next then (.ok false, opened)
              else (.error (schemaDiffers (r.row - 1)), opened)

/-- One pass of the loop of `BoundReaderOpenNextResult`. -/
def BoundReader.openTurn (d : Driver ρ α) (r : BoundReader ρ α) :
    Turn (BoundReader ρ α) (Opened × BoundReader ρ α) :=
  match r.executeNextRow d with
  | (.error e, next) => .leave (.error e, next)
  | (.ok none, next) => .leave (.ok true, next)
  | (.ok (some x), next) =>
      if x.resultCols ≤ 0 then .again next else .leave (next.openResult x.result)

/-! ## The parameter rows that are left -/

/-- The parameter stream, row by row up to its end or its failures. -/
def events (answers : List (ParamAnswer ρ)) : List (Except AdbcError ρ) :=
  answers.flatMap fun answer =>
    match answer with
    | .batch rows => rows.map .ok
    | .invalid message => [.error (invalidBatch message)]
    | .failed message => [.error (getNextFailed message)]

/-- What is left of the parameter stream. -/
def BoundReader.rest (r : BoundReader ρ α) : List (Except AdbcError ρ) :=
  ((r.batch.map fun rows => rows.drop r.row).getD []).map .ok ++
    if r.paramsDone then [] else events r.params

/-- What looking for the next row does: it takes it from those left. -/
inductive RowStep (r : BoundReader ρ α) : Except AdbcError (Option ρ) → BoundReader ρ α → Prop where
  | row {next : BoundReader ρ α} {row : ρ} :
      r.rest = .ok row :: next.rest → RowStep r (.ok (some row)) next
  | spent {next : BoundReader ρ α} :
      r.rest = [] → next.rest = [] → RowStep r (.ok none) next
  | failed {next : BoundReader ρ α} {e : AdbcError} :
      r.rest.head? = some (.error e) → RowStep r (.error e) next

/-- The results are no business of the parameter stream. -/
def SameResults (r next : BoundReader ρ α) : Prop :=
  next.schema = r.schema ∧ next.inner = r.inner ∧ next.done = r.done ∧ next.executed = r.executed

theorem nextBatch_step {r : BoundReader ρ α} {params : List (ParamAnswer ρ)}
    (hrest : r.rest = events params) (hopen : r.paramsDone = false) :
    RowStep r (r.nextBatch params).1 (r.nextBatch params).2 ∧
      SameResults r (r.nextBatch params).2 := by
  induction params with
  | nil => exact ⟨.spent hrest rfl, rfl, rfl, rfl, rfl⟩
  | cons answer params ih =>
      match answer with
      | .batch [] => exact ih hrest
      | .batch (row :: rows) =>
          refine ⟨.row ?_, rfl, rfl, rfl, rfl⟩
          rw [hrest, BoundReader.rest]
          simp [BoundReader.nextBatch, hopen, events]
      | .invalid message => exact ⟨.failed (by rw [hrest]; rfl), rfl, rfl, rfl, rfl⟩
      | .failed message => exact ⟨.failed (by rw [hrest]; rfl), rfl, rfl, rfl, rfl⟩

theorem nextRow_step (r : BoundReader ρ α) :
    RowStep r r.nextRow.1 r.nextRow.2 ∧ SameResults r r.nextRow.2 := by
  unfold BoundReader.nextRow
  split
  · rename_i row hrow
    refine ⟨.row ?_, rfl, rfl, rfl, rfl⟩
    obtain ⟨rows, hbatch, hrow⟩ := Option.bind_eq_some_iff.mp hrow
    obtain ⟨hlt, heq⟩ := List.getElem?_eq_some_iff.mp hrow
    rw [BoundReader.rest, BoundReader.rest, hbatch]
    simp only [Option.map_some, Option.getD_some]
    rw [List.drop_eq_getElem_cons hlt, heq]
    rfl
  · rename_i hnone
    have hempty : (r.batch.map fun rows => rows.drop r.row).getD [] = [] := by
      cases hbatch : r.batch with
      | none => rfl
      | some rows =>
          rw [hbatch, Option.bind_some, List.getElem?_eq_none_iff] at hnone
          exact List.drop_eq_nil_of_le hnone
    split
    · rename_i hdone
      refine ⟨.spent ?_ ?_, rfl, rfl, rfl, rfl⟩
      · rw [BoundReader.rest, hempty, hdone]
        rfl
      · rw [BoundReader.rest, hdone]
        rfl
    · rename_i hopen
      rw [Bool.not_eq_true] at hopen
      refine nextBatch_step ?_ hopen
      rw [BoundReader.rest, hempty, hopen]
      rfl

/-- What executing the next row does. -/
inductive ExecStep (d : Driver ρ α) (r : BoundReader ρ α) :
    Except AdbcError (Option (Execution α)) → BoundReader ρ α → Prop where
  | executed {next : BoundReader ρ α} {row : ρ} {x : Execution α} :
      r.rest = .ok row :: next.rest → next.executed = r.executed ++ [row] →
      d.execute r.executed.length row = .ok x → ExecStep d r (.ok (some x)) next
  | refused {next : BoundReader ρ α} {row : ρ} {e : AdbcError} :
      r.rest = .ok row :: next.rest → next.executed = r.executed ++ [row] →
      d.execute r.executed.length row = .error e → ExecStep d r (.error e) next
  | spent {next : BoundReader ρ α} :
      r.rest = [] → next.rest = [] → next.executed = r.executed → ExecStep d r (.ok none) next
  | failed {next : BoundReader ρ α} {e : AdbcError} :
      r.rest.head? = some (.error e) → next.executed = r.executed → ExecStep d r (.error e) next

theorem executeNextRow_step (d : Driver ρ α) (r : BoundReader ρ α) :
    ExecStep d r (r.executeNextRow d).1 (r.executeNextRow d).2 ∧
      (r.executeNextRow d).2.schema = r.schema ∧ (r.executeNextRow d).2.inner = r.inner ∧
      (r.executeNextRow d).2.done = r.done := by
  obtain ⟨hrow, hschema, hinner, hdone, hexecuted⟩ := nextRow_step r
  unfold BoundReader.executeNextRow
  split
  · rename_i e next hres
    rw [hres] at hrow hschema hinner hdone hexecuted
    cases hrow with
    | failed hhead => exact ⟨.failed hhead hexecuted, hschema, hinner, hdone⟩
  · rename_i next hres
    rw [hres] at hrow hschema hinner hdone hexecuted
    cases hrow with
    | spent hrest hnext => exact ⟨.spent hrest hnext hexecuted, hschema, hinner, hdone⟩
  · rename_i row next hres
    rw [hres] at hrow hschema hinner hdone hexecuted
    refine ⟨?_, hschema, hinner, hdone⟩
    cases hrow with
    | row hrest =>
        have hleft : r.rest = .ok row ::
            BoundReader.rest { next with executed := r.executed ++ [row] } := hrest
        cases hexec : d.execute r.executed.length row with
        | error e => exact .refused hleft rfl hexec
        | ok x => exact .executed hleft rfl hexec

/-! ## The loops -/

theorem rest_shrinks {d : Driver ρ α} {r next : BoundReader ρ α} {x : Execution α}
    (h : r.executeNextRow d = (.ok (some x), next)) : next.rest.length < r.rest.length := by
  obtain ⟨hstep, -⟩ := executeNextRow_step d r
  rw [h] at hstep
  cases hstep with
  | executed hrest _ _ =>
      rw [hrest, List.length_cons]
      exact Nat.lt_succ_self _

theorem openTurn_descends {d : Driver ρ α} {r next : BoundReader ρ α}
    (h : r.openTurn d = .again next) : next.rest.length < r.rest.length := by
  unfold BoundReader.openTurn at h
  split at h
  · cases h
  · cases h
  · rename_i x executed hres
    split at h
    · rw [← Turn.again.inj h]
      exact rest_shrinks hres
    · cases h

def openLoop (d : Driver ρ α) : Loop (BoundReader ρ α) (Opened × BoundReader ρ α) where
  turn := BoundReader.openTurn d
  rank r := r.rest.length
  descends := openTurn_descends

/-- `BoundReaderOpenNextResult`. -/
def BoundReader.openNextResult (d : Driver ρ α) (r : BoundReader ρ α) :
    Opened × BoundReader ρ α :=
  (openLoop d).run r

/-! ## One execution for each row -/

/-- What one execution for each row comes to: the rows that are executed, the batches of their
results, and whether there is a failure behind them. -/
structure Whole (ρ α : Type*) where
  executed : List ρ
  batches : List α
  failed : Bool
deriving DecidableEq, Repr

/-- What comes behind some rows and batches. -/
def Whole.after (executed : List ρ) (batches : List α) (w : Whole ρ α) : Whole ρ α :=
  ⟨executed ++ w.executed, batches ++ w.batches, w.failed⟩

theorem Whole.after_after (rows rows' : List ρ) (batches batches' : List α) (w : Whole ρ α) :
    (w.after rows' batches').after rows batches =
      w.after (rows ++ rows') (batches ++ batches') := by
  rw [Whole.after, Whole.after, Whole.after, List.append_assoc, List.append_assoc]

theorem Whole.after_nil (w : Whole ρ α) : w.after [] [] = w := rfl

/-- A result set of the column types of the first one, with the first schema. -/
def followOn (first : Option (List Column)) (result : Except AdbcError (ResultSet α)) :
    Option (List Column × ResultSet α) :=
  match result with
  | .error _ => none
  | .ok inner =>
      match inner.schema with
      | .error _ => none
      | .ok next =>
          if ∀ schema ∈ first, formats schema = formats next then some (first.getD next, inner)
          else none

/-- The executions of the rows in turn, up to the first failure. -/
def concatenation (d : Driver ρ α) (n : Nat) (first : Option (List Column)) :
    List (Except AdbcError ρ) → Whole ρ α
  | [] => ⟨[], [], false⟩
  | .error _ :: _ => ⟨[], [], true⟩
  | .ok row :: rest =>
      match d.execute n row with
      | .error _ => ⟨[row], [], true⟩
      | .ok x =>
          if x.resultCols ≤ 0 then (concatenation d (n + 1) first rest).after [row] []
          else
            match followOn first x.result with
            | none => ⟨[row], [], true⟩
            | some (schema, inner) =>
                if inner.ending ≠ 0 then ⟨[row], inner.batches, true⟩
                else (concatenation d (n + 1) (some schema) rest).after [row] inner.batches

/-- What the reader comes to from between two results. -/
def BoundReader.between (d : Driver ρ α) (r : BoundReader ρ α) : Whole ρ α :=
  (concatenation d r.executed.length r.schema r.rest).after r.executed []

/-- What the reader comes to from here. -/
def BoundReader.ahead (d : Driver ρ α) (r : BoundReader ρ α) : Whole ρ α :=
  match r.inner with
  | none => r.between d
  | some inner =>
      if inner.ending ≠ 0 then ⟨r.executed, inner.batches, true⟩
      else (r.between d).after [] inner.batches

theorem resultSchemaMatches_iff (a b : List Column) :
    resultSchemaMatches a b = true ↔ formats a = formats b := by
  unfold resultSchemaMatches formats
  induction a generalizing b with
  | nil => cases b <;> simp
  | cons column a ih =>
      cases b with
      | nil => simp
      | cons column' b =>
          have hrest := ih b
          rw [Bool.and_eq_true, beq_iff_eq] at hrest ⊢
          rw [List.map_cons, List.map_cons, List.cons.injEq, ← hrest, List.zip_cons_cons,
            List.all_cons, Bool.and_eq_true, beq_iff_eq, List.length_cons, List.length_cons,
            Nat.succ_inj]
          exact and_left_comm

/-- Opening a reader goes wrong exactly when its result set does not follow the first one. -/
theorem openResult_followOn (r : BoundReader ρ α) (result : Except AdbcError (ResultSet α)) :
    (∀ schema inner, followOn r.schema result = some (schema, inner) →
        r.openResult result = (.ok false, { r with inner := some inner, schema := some schema })) ∧
      (followOn r.schema result = none →
        ∃ e next, r.openResult result = (.error e, next) ∧ next.executed = r.executed) := by
  unfold followOn BoundReader.openResult
  cases result with
  | error e => exact ⟨(fun _ _ h => by cases h), fun _ => ⟨e, r, rfl, rfl⟩⟩
  | ok inner =>
      dsimp only
      cases hnext : inner.schema with
      | error code => exact ⟨(fun _ _ h => by cases h), fun _ => ⟨_, _, rfl, rfl⟩⟩
      | ok next =>
          cases hschema : r.schema with
          | none =>
              constructor
              · intro schema inner' h
                obtain ⟨rfl, rfl⟩ := Prod.mk.inj (Option.some.inj h)
                rfl
              · intro h
                cases h
          | some first =>
              by_cases hformats : formats first = formats next
              · have hall : ∀ schema ∈ some first, formats schema = formats next := by
                  intro schema hmem
                  rw [← Option.some.inj hmem]
                  exact hformats
                dsimp only
                rw [if_pos hall, if_pos ((resultSchemaMatches_iff _ _).mpr hformats)]
                constructor
                · intro schema inner' h
                  obtain ⟨hfirst, rfl⟩ := Prod.mk.inj (Option.some.inj h)
                  rw [← hfirst, Option.getD_some, ← hschema]
                · intro h
                  cases h
              · have hnone : ¬ ∀ schema ∈ some first, formats schema = formats next :=
                  fun hall => hformats (hall first rfl)
                dsimp only
                rw [if_neg hnone, if_neg (mt (resultSchemaMatches_iff _ _).mp hformats)]
                exact ⟨(fun _ _ h => by cases h), fun _ => ⟨_, _, rfl, rfl⟩⟩

section
variable {d : Driver ρ α} {r next : BoundReader ρ α}

theorem between_spent (hrest : r.rest = []) (hexecuted : next.executed = r.executed) :
    r.between d = ⟨next.executed, [], false⟩ := by
  rw [BoundReader.between, hrest, concatenation, Whole.after, List.append_nil, hexecuted,
    List.append_nil]

theorem between_failed {e : AdbcError} (hrest : r.rest.head? = some (.error e))
    (hexecuted : next.executed = r.executed) : r.between d = ⟨next.executed, [], true⟩ := by
  obtain ⟨rest, hrest⟩ := List.head?_eq_some_iff.mp hrest
  rw [BoundReader.between, hrest, concatenation, Whole.after, List.append_nil, hexecuted,
    List.append_nil]

theorem between_refused {row : ρ} {rest : List (Except AdbcError ρ)} {e : AdbcError}
    (hrest : r.rest = .ok row :: rest) (hexecuted : next.executed = r.executed ++ [row])
    (hexec : d.execute r.executed.length row = .error e) :
    r.between d = ⟨next.executed, [], true⟩ := by
  rw [BoundReader.between, hrest, concatenation, hexec, Whole.after, hexecuted]
  rfl

/-- A row without a result is behind the reader. -/
theorem between_resultless {row : ρ} {x : Execution α}
    (hrest : r.rest = .ok row :: next.rest) (hexecuted : next.executed = r.executed ++ [row])
    (hschema : next.schema = r.schema) (hexec : d.execute r.executed.length row = .ok x)
    (hcols : x.resultCols ≤ 0) : r.between d = next.between d := by
  rw [BoundReader.between, BoundReader.between, hrest, concatenation, hexec]
  dsimp only
  rw [if_pos hcols, Whole.after_after, hexecuted, List.length_append, List.length_singleton,
    hschema, List.append_nil]

/-- A row with a result is a failure, or what it gives is ahead. -/
theorem between_opened {row : ρ} {x : Execution α}
    (hrest : r.rest = .ok row :: next.rest) (hexecuted : next.executed = r.executed ++ [row])
    (hschema : next.schema = r.schema) (hexec : d.execute r.executed.length row = .ok x)
    (hcols : ¬ x.resultCols ≤ 0) :
    (∃ e opened, next.openResult x.result = (.error e, opened) ∧
        r.between d = ⟨opened.executed, [], true⟩) ∨
      ∃ schema inner, next.openResult x.result =
          (.ok false, { next with inner := some inner, schema := some schema }) ∧
        r.between d =
          BoundReader.ahead d { next with inner := some inner, schema := some schema } := by
  have hbetween : r.between d = (match followOn next.schema x.result with
      | none => (⟨[row], [], true⟩ : Whole ρ α)
      | some (schema, inner) =>
          if inner.ending ≠ 0 then ⟨[row], inner.batches, true⟩
          else (concatenation d next.executed.length (some schema) next.rest).after [row]
            inner.batches).after r.executed [] := by
    rw [BoundReader.between, hrest, concatenation, hexec]
    dsimp only
    rw [if_neg hcols, hschema, hexecuted, List.length_append, List.length_singleton]
  obtain ⟨hopens, hfails⟩ := openResult_followOn next x.result
  cases hfollow : followOn next.schema x.result with
  | none =>
      obtain ⟨e, opened, hopen, hopened⟩ := hfails hfollow
      refine .inl ⟨e, opened, hopen, ?_⟩
      rw [hbetween, hfollow, hopened, hexecuted]
      rfl
  | some result =>
      obtain ⟨schema, inner⟩ := result
      refine .inr ⟨schema, inner, hopens schema inner hfollow, ?_⟩
      rw [hbetween, hfollow, BoundReader.ahead]
      dsimp only
      split
      · rw [hexecuted]
        rfl
      · rw [BoundReader.between, Whole.after_after, Whole.after_after, List.append_nil,
          List.nil_append, List.nil_append, ← hexecuted]
        rfl

/-- Where an opening arrives that starts with so many rows left. -/
def OpenedAt (d : Driver ρ α) (w : Whole ρ α) (left : Nat) (done : Bool)
    (p : Opened × BoundReader ρ α) : Prop :=
  match p.1 with
  | .ok true => w = ⟨p.2.executed, [], false⟩
  | .ok false =>
      w = p.2.ahead d ∧ p.2.inner.isSome ∧ p.2.rest.length < left ∧ p.2.done = done
  | .error _ => w = ⟨p.2.executed, [], true⟩

theorem openTurn_step (r : BoundReader ρ α) :
    (∀ next, r.openTurn d = .again next → r.between d = next.between d ∧ next.done = r.done) ∧
      ∀ p, r.openTurn d = .leave p → OpenedAt d (r.between d) r.rest.length r.done p := by
  obtain ⟨hstep, hschema, -, hdone⟩ := executeNextRow_step d r
  unfold BoundReader.openTurn
  split
  · rename_i e next hres
    rw [hres] at hstep
    refine ⟨(fun _ h => by cases h), fun p hp => ?_⟩
    rw [← Turn.leave.inj hp]
    cases hstep with
    | refused hrest hexecuted hexec => exact between_refused hrest hexecuted hexec
    | failed hrest hexecuted => exact between_failed hrest hexecuted
  · rename_i next hres
    rw [hres] at hstep
    refine ⟨(fun _ h => by cases h), fun p hp => ?_⟩
    rw [← Turn.leave.inj hp]
    cases hstep with
    | spent hrest _ hexecuted => exact between_spent hrest hexecuted
  · rename_i x next hres
    have hshorter := rest_shrinks hres
    rw [hres] at hstep hschema hdone
    cases hstep with
    | executed hrest hexecuted hexec =>
        split
        · rename_i hcols
          refine ⟨fun next' h => ?_, (fun _ h => by cases h)⟩
          rw [← Turn.again.inj h]
          exact ⟨between_resultless hrest hexecuted hschema hexec hcols, hdone⟩
        · rename_i hcols
          refine ⟨(fun _ h => by cases h), fun p hp => ?_⟩
          rw [← Turn.leave.inj hp]
          rcases between_opened hrest hexecuted hschema hexec hcols with
            ⟨e, opened, hopen, hbetween⟩ | ⟨schema, inner, hopen, hbetween⟩
          · rw [hopen]
            exact hbetween
          · rw [hopen]
            exact ⟨hbetween, rfl, hshorter, hdone⟩

/-- An arrival with fewer rows left is one with more. -/
theorem OpenedAt.mono {left left' : Nat} {done : Bool} {p : Opened × BoundReader ρ α}
    {w : Whole ρ α} (h : OpenedAt d w left done p) (hle : left ≤ left') :
    OpenedAt d w left' done p := by
  unfold OpenedAt at h ⊢
  split
  · rename_i hres
    rwa [hres] at h
  · rename_i hres
    rw [hres] at h
    exact ⟨h.1, h.2.1, Nat.lt_of_lt_of_le h.2.2.1 hle, h.2.2.2⟩
  · rename_i e hres
    rwa [hres] at h

theorem openNextResult_arrives (r : BoundReader ρ α) :
    OpenedAt d (r.between d) r.rest.length r.done (r.openNextResult d) := by
  have hrule := Loop.run_rule (l := openLoop d) (s := r)
    (I := fun s => s.between d = r.between d ∧ s.done = r.done ∧ s.rest.length ≤ r.rest.length)
    (P := OpenedAt d (r.between d) r.rest.length r.done)
  apply hrule
  · intro s next hs hturn
    obtain ⟨hbetween, hdone⟩ := (openTurn_step s).1 next hturn
    exact ⟨hbetween.symm.trans hs.1, hdone.trans hs.2.1,
      Nat.le_of_lt (Nat.lt_of_lt_of_le (openTurn_descends hturn) hs.2.2)⟩
  · intro s p hs hturn
    have harrives := (openTurn_step s).2 p hturn
    rw [hs.1, hs.2.1] at harrives
    exact harrives.mono hs.2.2
  · exact ⟨rfl, rfl, Nat.le_refl _⟩

end

/-! ## The stream -/

/-- What a pull comes to: a batch, the end, or a failure with its return code. -/
abbrev Pulled (α : Type*) := Except Int (Option α)

/-- One pass of the loop of `BoundReaderGetNext`. -/
def BoundReader.getNextTurn (d : Driver ρ α) (r : BoundReader ρ α) :
    Turn (BoundReader ρ α) (Pulled α × BoundReader ρ α) :=
  match r.inner with
  | some inner =>
      match inner.batches with
      | batch :: batches =>
          .leave (.ok (some batch), { r with inner := some { inner with batches := batches } })
      | [] =>
          if inner.ending ≠ 0 then .leave (.error inner.ending, { r with done := true })
          else .again { r with inner := none }
  | none =>
      match r.openNextResult d with
      | (.error e, next) =>
          .leave (.error (adbcStatusCodeToErrno e.status), { next with done := true })
      | (.ok true, next) => .leave (.ok none, { next with done := true })
      | (.ok false, next) => .again next

/-- Two for each row that is left, and one for an open result. -/
def BoundReader.rank (r : BoundReader ρ α) : Nat :=
  2 * r.rest.length + if r.inner.isSome then 1 else 0

theorem getNextTurn_descends {d : Driver ρ α} {r next : BoundReader ρ α}
    (h : r.getNextTurn d = .again next) : next.rank < r.rank := by
  unfold BoundReader.getNextTurn at h
  unfold BoundReader.rank
  split at h
  · rename_i inner hinner
    split at h
    · cases h
    · split at h
      · cases h
      · rw [← Turn.again.inj h, hinner]
        exact Nat.lt_succ_self _
  · rename_i hinner
    have harrives : OpenedAt d (r.between d) r.rest.length r.done (r.openNextResult d) :=
      openNextResult_arrives r
    split at h
    · cases h
    · cases h
    · rename_i opened hres
      rw [hres] at harrives
      obtain ⟨-, hopen, hshorter, -⟩ := harrives
      rw [← Turn.again.inj h, hinner, hopen]
      dsimp only at hshorter
      simp only [if_true, Option.isSome_none, Bool.false_eq_true, if_false]
      omega

def getNextLoop (d : Driver ρ α) : Loop (BoundReader ρ α) (Pulled α × BoundReader ρ α) where
  turn := BoundReader.getNextTurn d
  rank := BoundReader.rank
  descends := getNextTurn_descends

/-- `BoundReaderGetNext`. -/
def BoundReader.getNext (d : Driver ρ α) (r : BoundReader ρ α) : Pulled α × BoundReader ρ α :=
  if r.done then (.ok none, r) else (getNextLoop d).run r

/-- One pass of the loop of `BoundReaderInit`; no schema is set in it yet. -/
def initTurn (d : Driver ρ α) (s : BoundReader ρ α × Int) :
    Turn (BoundReader ρ α × Int) (Opened × BoundReader ρ α × Int) :=
  match s.1.executeNextRow d with
  | (.error e, next) => .leave (.error e, next, s.2)
  | (.ok none, next) => .leave (.ok true, next, s.2)
  | (.ok (some x), next) =>
      if 0 < x.resultCols then
        .leave ((next.openResult x.result).1, (next.openResult x.result).2, s.2)
      else
        -- The count is read as it is, from a variable that was zero.
        let counted := sqlRowCount d.sqllen32 x.rowCount 0
        .again (next, if counted.1 ∧ 0 < counted.2.toInt then s.2 + counted.2.toInt else s.2)

theorem initTurn_descends {d : Driver ρ α} {s next : BoundReader ρ α × Int}
    (h : initTurn d s = .again next) : next.1.rest.length < s.1.rest.length := by
  unfold initTurn at h
  split at h
  · cases h
  · cases h
  · rename_i x executed hres
    split at h
    · cases h
    · rw [← Turn.again.inj h]
      exact rest_shrinks hres

def initLoop (d : Driver ρ α) :
    Loop (BoundReader ρ α × Int) (Opened × BoundReader ρ α × Int) where
  turn := initTurn d
  rank s := s.1.rest.length
  descends := initTurn_descends

/-- What `BoundReaderInit` leaves behind: a failure, or what it reports with the stream, which
is empty without a reader. -/
structure Init (ρ α : Type*) where
  status : Option AdbcError
  rowsAffected : Option Int
  stream : Option (BoundReader ρ α)
  executed : List ρ

/-- `BoundReaderInit`. -/
def boundReaderInit (d : Driver ρ α) (st : ParamStream ρ) : Init ρ α :=
  match st.schema with
  | some e => ⟨some e, none, none, []⟩
  | none =>
      match (initLoop d).run ({ params := st.answers }, 0) with
      | (.error e, r, _) => ⟨some e, none, none, r.executed⟩
      | (.ok true, r, total) => ⟨none, some total, none, r.executed⟩
      | (.ok false, r, _) => ⟨none, some (-1), some r, r.executed⟩

inductive Ending where
  | complete
  | failed
deriving DecidableEq, Repr

/-- A consumer of the stream: the rows executed for it, what it was delivered, and how the
stream ended first, if it did. -/
structure Consumer (ρ α : Type*) where
  stream : Option (BoundReader ρ α)
  executed : List ρ
  delivered : List α := []
  ended : Option Ending := none

/-- A consumer that is given the stream, or its failure; an empty one is at its end. -/
def Consumer.start (d : Driver ρ α) (st : ParamStream ρ) : Consumer ρ α :=
  let init := boundReaderInit d st
  { stream := init.stream
    executed := init.executed
    ended :=
      if init.status.isSome then some .failed
      else if init.stream.isNone then some .complete
      else none }

/-- It asks for the next batch, also behind the end and behind a failure. -/
def Consumer.pull (d : Driver ρ α) (c : Consumer ρ α) : Consumer ρ α :=
  match c.stream with
  | none => c
  | some r =>
      let pulled := r.getNext d
      let next := { c with stream := some pulled.2, executed := pulled.2.executed }
      match pulled.1 with
      | .ok (some batch) => { next with delivered := c.delivered ++ [batch] }
      | .ok none => { next with ended := c.ended.or (some .complete) }
      | .error _ => { next with ended := c.ended.or (some .failed) }

end AdbcBridge.Bind.Reexecute
