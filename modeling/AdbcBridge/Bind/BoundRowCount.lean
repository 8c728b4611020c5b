import AdbcBridge.Bind.Concatenation
import AdbcBridge.Bind.Session

/-!
# The rows affected of a bound statement

A bound statement is executed by `BoundReaderInit` when a stream is asked for and by
`ExecuteRows` when not, here with its rows run one at a time.  Both add up what the driver
reports of each execution, the first from a count that is read as it is.
-/

namespace AdbcBridge.Bind.Reexecute

open AdbcBridge.Adbc AdbcBridge.Lib AdbcBridge.Reader.RowCount

variable {ρ α : Type*}

/-! ## Rows one at a time -/

/-- A failure of `ExecuteRows`: one of a row or of the stream, or that of the commit. -/
inductive RowsFailure where
  | row (e : AdbcError)
  | endTran
deriving DecidableEq, Repr

/-- The implicit transaction: the rows seen so far, its flag, and the clock of its calls. -/
structure Txn where
  seen : Nat := 0
  active : Bool := false
  world : Session.World

/-- What the loop of `ExecuteRows` carries. -/
structure RowsProgress where
  executed : Nat := 0
  total : Int := 0
  txn : Txn

/-- The rows of a batch; an open cursor behind one is closed without a look at its status. -/
def executeEach (d : Driver ρ α) : List ρ → Nat → Int → Except AdbcError Int
  | [], _, total => .ok total
  | row :: rows, n, total =>
      match d.execute n row with
      | .error e => .error e
      | .ok x =>
          let count := odbcRowCount d.sqllen32 x.rowCount
          executeEach d rows (n + 1) (if 0 < count then total + count else total)

/-- The transaction is opened once more than one row is in play. -/
def Txn.begin (t : Session.Driver) (s : Session.OdbcStatement) (length : Nat) (txn : Txn) : Txn :=
  let seen := txn.seen + length
  if 1 < seen then
    let begun := Session.odbcAutoTxnBegin t s txn.active txn.world
    ⟨seen, begun.1, begun.2⟩
  else { txn with seen := seen }

/-- The batch loop of `ExecuteRows`. -/
def executeBatches (d : Driver ρ α) (t : Session.Driver) (s : Session.OdbcStatement) :
    List (ParamAnswer ρ) → RowsProgress → Except AdbcError RowsProgress
  | [], p => .ok p
  | .failed message :: _, _ => .error (getNextFailed message)
  | .invalid message :: _, _ => .error (invalidBatch message)
  | .batch rows :: answers, p =>
      let txn := p.txn.begin t s rows.length
      match executeEach d rows p.executed p.total with
      | .error e => .error e
      | .ok total => executeBatches d t s answers ⟨p.executed + rows.length, total, txn⟩

/-- `ExecuteRows`: what it reports, if it does not fail.  A failure rolls the transaction back. -/
def executeRows (d : Driver ρ α) (t : Session.Driver) (s : Session.OdbcStatement)
    (w : Session.World) (st : ParamStream ρ) : Except RowsFailure Int :=
  match st.schema with
  | some e => .error (.row e)
  | none =>
      match executeBatches d t s st.answers { txn := { world := w } } with
      | .error e => .error (.row e)
      | .ok p =>
          match (Session.odbcAutoTxnEnd t p.txn.active true p.txn.world).1 with
          | some _ => .error .endTran
          | none => .ok p.total

/-! ## What both add up -/

/-- What `BoundReaderInit` adds for an execution. -/
def streamCount (sqllen32 : Bool) (answer : RowCountAnswer) : Int :=
  let counted := sqlRowCount sqllen32 answer 0
  if counted.1 ∧ 0 < counted.2.toInt then counted.2.toInt else 0

/-- What `ExecuteRows` adds for an execution. -/
def rowsCount (sqllen32 : Bool) (answer : RowCountAnswer) : Int :=
  if 0 < odbcRowCount sqllen32 answer then odbcRowCount sqllen32 answer else 0

/-- The sum of what is added for each execution, if none of them fails. -/
def tally (count : RowCountAnswer → Int) (d : Driver ρ α) (n : Nat) :
    List (Except AdbcError ρ) → Option Int
  | [] => some 0
  | .error _ :: _ => none
  | .ok row :: es =>
      match d.execute n row with
      | .error _ => none
      | .ok x => (tally count d (n + 1) es).map (count x.rowCount + ·)

/-- The driver reports a negative count, which says that it does not know, with a 32-bit
`SQLLEN`. -/
def NegativeLow (d : Driver ρ α) (answer : RowCountAnswer) : Prop :=
  d.sqllen32 = true ∧ ∃ count, reported d.sqllen32 answer = some count ∧ count < 0

theorem rowsCount_wrote (sqllen32 : Bool) (count : BitVec 64) :
    rowsCount sqllen32 (.wrote count) =
      max (if sqllen32 then (count.setWidth 32).toInt else count.toInt) 0 := by
  unfold rowsCount
  rw [odbcRowCount_eq, reported, Option.getD_some]
  omega

/-- Both add the same but for a negative count of a 32-bit `SQLLEN`, which is read as one from
2^31 on. -/
theorem counts_agree (d : Driver ρ α) (answer : RowCountAnswer) :
    rowsCount d.sqllen32 answer ≤ streamCount d.sqllen32 answer ∧
      (streamCount d.sqllen32 answer = rowsCount d.sqllen32 answer ↔ ¬ NegativeLow d answer) := by
  cases answer with
  | failed =>
      refine ⟨Int.le_refl _, iff_of_true rfl ?_⟩
      rintro ⟨-, count, hcount, -⟩
      cases hcount
  | silent =>
      have hrows : rowsCount d.sqllen32 .silent = 0 := by
        unfold rowsCount
        rw [odbcRowCount_eq]
        rfl
      have hstream : streamCount d.sqllen32 .silent = 0 := rfl
      rw [hrows, hstream]
      refine ⟨Int.le_refl _, iff_of_true rfl ?_⟩
      rintro ⟨-, count, hcount, -⟩
      cases hcount
  | wrote count =>
      rw [rowsCount_wrote]
      unfold streamCount NegativeLow reported
      dsimp only [sqlRowCount]
      cases d.sqllen32 with
      | false =>
          simp only [store, Bool.false_eq_true, if_false, true_and, false_and, not_false_eq_true,
            iff_true]
          omega
      | true =>
          rw [BitVec.ofNat_eq_ofNat, store_zero]
          have hlow := (count.setWidth 32).isLt
          have hsign := BitVec.toInt_eq_toNat_cond (count.setWidth 32)
          simp only [if_true, true_and, Option.some.injEq, exists_eq_left', Int.not_lt]
          split at hsign <;> omega

/-! ## The condition -/

/-- The rows of a stream are all executed: nothing fails before or in that. -/
structure Completes (d : Driver ρ α) (st : ParamStream ρ) : Prop where
  schema : st.schema = none
  params : ∀ answer ∈ st.answers, ∃ rows, answer = .batch rows
  executes : ∀ e ∈ st.rows.zipIdx, ∃ x, d.execute e.2 e.1 = .ok x

/-- No execution gives a result set. -/
def Resultless (d : Driver ρ α) (rows : List (ρ × Nat)) : Prop :=
  ∀ e ∈ rows, ∀ x, d.execute e.2 e.1 = .ok x → x.resultCols ≤ 0

/-- No execution reports a negative count with a 32-bit `SQLLEN`. -/
def Counts (d : Driver ρ α) (rows : List (ρ × Nat)) : Prop :=
  ∀ e ∈ rows, ∀ x, d.execute e.2 e.1 = .ok x → ¬ NegativeLow d x.rowCount

def ParamAnswer.length : ParamAnswer ρ → Nat
  | .batch rows => rows.length
  | .invalid _ => 0
  | .failed _ => 0

/-- The transaction behind all the batches. -/
def txnAfter (t : Session.Driver) (s : Session.OdbcStatement) (answers : List (ParamAnswer ρ))
    (txn : Txn) : Txn :=
  answers.foldl (fun txn answer => txn.begin t s answer.length) txn

/-- The commit of the implicit transaction succeeds, or there is none to commit. -/
def Commits (t : Session.Driver) (s : Session.OdbcStatement) (w : Session.World)
    (st : ParamStream ρ) : Prop :=
  (Session.odbcAutoTxnEnd t (txnAfter t s st.answers { world := w }).active true
    (txnAfter t s st.answers { world := w }).world).1 = none

/-! ## The two loops -/

section
variable {d : Driver ρ α} {count : RowCountAnswer → Int} {st : ParamStream ρ}

theorem tally_row {row : ρ} {x : Execution α} {n : Nat} {es : List (Except AdbcError ρ)}
    (hexec : d.execute n row = .ok x) (total : Int) :
    (tally count d n (.ok row :: es)).map (total + ·) =
      (tally count d (n + 1) es).map (total + count x.rowCount + ·) := by
  rw [tally, hexec]
  dsimp only
  rw [Option.map_map]
  congr 1
  funext sum
  exact (Int.add_assoc _ _ _).symm

theorem tally_refused {row : ρ} {e : AdbcError} {n : Nat} {es : List (Except AdbcError ρ)}
    (hexec : d.execute n row = .error e) : tally count d n (.ok row :: es) = none := by
  rw [tally, hexec]

/-- The total is there exactly when nothing fails. -/
theorem tally_isSome (n : Nat) (es : List (Except AdbcError ρ)) :
    (tally count d n es).isSome ↔ (∀ e ∈ es, ∃ row, e = .ok row) ∧
      ∀ e ∈ (eventRows es).zipIdx n, ∃ x, d.execute e.2 e.1 = .ok x := by
  induction es generalizing n with
  | nil =>
      refine iff_of_true rfl ⟨?_, ?_⟩ <;> exact fun e he => absurd he List.not_mem_nil
  | cons event es ih =>
      cases event with
      | error e =>
          refine iff_of_false Bool.noConfusion ?_
          rintro ⟨hok, -⟩
          obtain ⟨row, hrow⟩ := hok _ List.mem_cons_self
          cases hrow
      | ok row =>
          change _ ↔ _ ∧ ∀ e ∈ (row, n) :: (eventRows es).zipIdx (n + 1), _
          have hrow : ∃ row' : ρ, (.ok row : Except AdbcError ρ) = .ok row' := ⟨row, rfl⟩
          rw [List.forall_mem_cons, List.forall_mem_cons, and_iff_right hrow]
          cases hexec : d.execute n row with
          | error e =>
              rw [tally_refused hexec]
              refine iff_of_false Bool.noConfusion ?_
              rintro ⟨-, ⟨x, hx⟩, -⟩
              cases hx
          | ok x =>
              have hx : ∃ x', (.ok x : Except AdbcError (Execution α)) = .ok x' := ⟨x, rfl⟩
              rw [tally, hexec]
              dsimp only
              rw [Option.isSome_map, ih, and_iff_right hx]

/-- What the eager loop comes to for `total` as the sum of all that is added. -/
def CountedAt (total : Option Int) (p : Opened × BoundReader ρ α × Int) : Prop :=
  match p.1 with
  | .ok true => total = some p.2.2
  | .ok false => False
  | .error _ => total = none

theorem initTurn_count {s : BoundReader ρ α × Int}
    (hnone : Resultless d ((eventRows s.1.rest).zipIdx s.1.executed.length)) :
    (∀ next, initTurn d s = .again next →
        (tally (streamCount d.sqllen32) d s.1.executed.length s.1.rest).map (s.2 + ·) =
          (tally (streamCount d.sqllen32) d next.1.executed.length next.1.rest).map (next.2 + ·) ∧
        Resultless d ((eventRows next.1.rest).zipIdx next.1.executed.length)) ∧
      ∀ p, initTurn d s = .leave p →
        CountedAt ((tally (streamCount d.sqllen32) d s.1.executed.length s.1.rest).map (s.2 + ·))
          p := by
  obtain ⟨hstep, -⟩ := executeNextRow_step d s.1
  unfold initTurn
  split
  · rename_i e next hres
    rw [hres] at hstep
    refine ⟨(fun _ h => by cases h), fun p hp => ?_⟩
    rw [← Turn.leave.inj hp]
    cases hstep with
    | refused hrest _ hexec =>
        rw [hrest, tally_refused hexec]
        rfl
    | failed hhead _ =>
        obtain ⟨rest, hrest⟩ := List.head?_eq_some_iff.mp hhead
        rw [hrest]
        rfl
  · rename_i next hres
    rw [hres] at hstep
    refine ⟨(fun _ h => by cases h), fun p hp => ?_⟩
    rw [← Turn.leave.inj hp]
    cases hstep with
    | spent hrest _ _ =>
        rw [hrest]
        exact congrArg some (Int.add_zero _)
  · rename_i x next hres
    rw [hres] at hstep
    cases hstep with
    | executed hrest hexecuted hexec =>
        rename_i row
        have hlength : next.executed.length = s.1.executed.length + 1 := by
          rw [hexecuted, List.length_append, List.length_singleton]
        rw [hrest] at hnone
        change Resultless d ((row, _) :: (eventRows next.rest).zipIdx (_ + 1)) at hnone
        have hcols := hnone _ List.mem_cons_self x hexec
        rw [if_neg (not_lt.mpr hcols)]
        refine ⟨fun next' h => ?_, (fun _ h => by cases h)⟩
        rw [← Turn.again.inj h, hrest, tally_row hexec]
        dsimp only
        rw [hlength]
        refine ⟨?_, fun e he => hnone e (List.mem_cons_of_mem _ he)⟩
        unfold streamCount
        dsimp only
        split
        · rfl
        · rw [Int.add_zero]

/-- What `BoundReaderInit` reports, when there is no result set. -/
theorem boundReaderInit_rowsAffected (hnone : Resultless d st.rows.zipIdx) :
    (boundReaderInit d st).rowsAffected =
      match st.schema with
      | some _ => none
      | none => tally (streamCount d.sqllen32) d 0 (events st.answers) := by
  unfold boundReaderInit
  cases st.schema with
  | some e => rfl
  | none =>
      have hrun : CountedAt (tally (streamCount d.sqllen32) d 0 (events st.answers))
          ((initLoop d).run ({ params := st.answers }, 0)) := by
        apply Loop.run_rule (l := initLoop d)
          (I := fun s => (tally (streamCount d.sqllen32) d s.1.executed.length s.1.rest).map
              (s.2 + ·) = tally (streamCount d.sqllen32) d 0 (events st.answers) ∧
            Resultless d ((eventRows s.1.rest).zipIdx s.1.executed.length))
        · intro s next hs hturn
          obtain ⟨htally, hnext⟩ := (initTurn_count hs.2).1 next hturn
          exact ⟨htally.symm.trans hs.1, hnext⟩
        · intro s p hs hturn
          rw [← hs.1]
          exact (initTurn_count hs.2).2 p hturn
        · constructor
          · change (tally _ d 0 (events st.answers)).map (0 + ·) = _
            simp
          · change Resultless d ((eventRows (events st.answers)).zipIdx 0)
            rw [eventRows_events]
            exact hnone
      dsimp only
      split
      · rename_i hres
        rw [hres] at hrun
        exact hrun.symm
      · rename_i hres
        rw [hres] at hrun
        exact hrun.symm
      · rename_i hres
        rw [hres] at hrun
        exact absurd hrun id

theorem executeEach_tally (rows : List ρ) (n : Nat) (total : Int)
    (es : List (Except AdbcError ρ)) :
    (tally (rowsCount d.sqllen32) d n (rows.map .ok ++ es)).map (total + ·) =
      match executeEach d rows n total with
      | .error _ => none
      | .ok total => (tally (rowsCount d.sqllen32) d (n + rows.length) es).map (total + ·) := by
  induction rows generalizing n total with
  | nil => rfl
  | cons row rows ih =>
      rw [List.map_cons, List.cons_append, executeEach]
      cases hexec : d.execute n row with
      | error e =>
          rw [tally_refused hexec]
          rfl
      | ok x =>
          have hcount : (if 0 < odbcRowCount d.sqllen32 x.rowCount then
              total + odbcRowCount d.sqllen32 x.rowCount else total) =
              total + rowsCount d.sqllen32 x.rowCount := by
            unfold rowsCount
            split
            · rfl
            · exact (Int.add_zero _).symm
          rw [tally_row hexec, ih]
          dsimp only
          rw [hcount, List.length_cons, Nat.add_right_comm, Nat.add_assoc]

/-- What the batch loop of `ExecuteRows` comes to: the total, and the transaction behind all the
batches. -/
theorem executeBatches_tally (t : Session.Driver) (s : Session.OdbcStatement)
    (answers : List (ParamAnswer ρ)) (p : RowsProgress) :
    (tally (rowsCount d.sqllen32) d p.executed (events answers)).map (p.total + ·) =
        (executeBatches d t s answers p).toOption.map RowsProgress.total ∧
      ∀ q, executeBatches d t s answers p = .ok q → q.txn = txnAfter t s answers p.txn := by
  induction answers generalizing p with
  | nil =>
      constructor
      · exact congrArg some (Int.add_zero _)
      · intro q hq
        rw [← Except.ok.inj hq]
        rfl
  | cons answer answers ih =>
      cases answer with
      | invalid message => exact ⟨rfl, fun q hq => by cases hq⟩
      | failed message => exact ⟨rfl, fun q hq => by cases hq⟩
      | batch rows =>
          rw [executeBatches]
          have heach : (tally (rowsCount d.sqllen32) d p.executed
              (events (.batch rows :: answers))).map (p.total + ·) = _ :=
            executeEach_tally rows p.executed p.total (events answers)
          rw [heach]
          cases executeEach d rows p.executed p.total with
          | error e => exact ⟨rfl, fun q hq => by cases hq⟩
          | ok total =>
              exact ih ⟨p.executed + rows.length, total, p.txn.begin t s rows.length⟩

/-- The sum of the eager loop is the larger one, and the same exactly when each summand is. -/
theorem tally_compare {n : Nat} {es : List (Except AdbcError ρ)} {stream rows : Int}
    (hstream : tally (streamCount d.sqllen32) d n es = some stream)
    (hrows : tally (rowsCount d.sqllen32) d n es = some rows) :
    rows ≤ stream ∧ (stream = rows ↔ Counts d ((eventRows es).zipIdx n)) := by
  induction es generalizing n stream rows with
  | nil =>
      obtain rfl := Option.some.inj hstream
      obtain rfl := Option.some.inj hrows
      exact ⟨Int.le_refl _, iff_of_true rfl fun e he => absurd he List.not_mem_nil⟩
  | cons event es ih =>
      cases event with
      | error e => cases hstream
      | ok row =>
          cases hexec : d.execute n row with
          | error e =>
              rw [tally_refused hexec] at hstream
              cases hstream
          | ok x =>
              rw [tally, hexec] at hstream hrows
              obtain ⟨stream', hstream', rfl⟩ := Option.map_eq_some_iff.mp hstream
              obtain ⟨rows', hrows', rfl⟩ := Option.map_eq_some_iff.mp hrows
              obtain ⟨hle, heq⟩ := ih hstream' hrows'
              obtain ⟨hcount, hsame⟩ := counts_agree d x.rowCount
              have hfirst : (∀ x', d.execute n row = .ok x' → ¬ NegativeLow d x'.rowCount) ↔
                  ¬ NegativeLow d x.rowCount := by
                constructor
                · exact fun h => h x hexec
                · intro h x' hx'
                  rw [hexec] at hx'
                  rwa [← Except.ok.inj hx']
              have hsplit : Counts d ((eventRows (.ok row :: es)).zipIdx n) ↔
                  ¬ NegativeLow d x.rowCount ∧ Counts d ((eventRows es).zipIdx (n + 1)) := by
                change Counts d ((row, n) :: (eventRows es).zipIdx (n + 1)) ↔ _
                unfold Counts
                rw [List.forall_mem_cons, hfirst]
              refine ⟨Int.add_le_add hcount hle, ?_⟩
              rw [hsplit, ← hsame, ← heq]
              omega

theorem completes_iff (count : RowCountAnswer → Int) (hschema : st.schema = none) :
    (tally count d 0 (events st.answers)).isSome ↔ Completes d st := by
  have hrows : eventRows (events st.answers) = st.rows := eventRows_events st.answers
  rw [tally_isSome, events_ok, hrows]
  exact ⟨fun ⟨hparams, hexecutes⟩ => ⟨hschema, hparams, hexecutes⟩,
    fun h => ⟨h.params, h.executes⟩⟩

/-- What `ExecuteRows` reports. -/
theorem executeRows_reports (t : Session.Driver) (s : Session.OdbcStatement) (w : Session.World)
    (hschema : st.schema = none) :
    (Commits t s w st → (executeRows d t s w st).toOption =
        tally (rowsCount d.sqllen32) d 0 (events st.answers)) ∧
      (¬ Commits t s w st → (executeRows d t s w st).toOption = none) := by
  obtain ⟨htally, htxn⟩ :=
    executeBatches_tally (d := d) t s st.answers { txn := { world := w } }
  have hzero (o : Option Int) : o.map (0 + ·) = o := by simp
  dsimp only at htally htxn
  rw [hzero] at htally
  unfold executeRows Commits
  rw [hschema, htally]
  dsimp only
  cases hrun : executeBatches d t s st.answers { txn := { world := w } } with
  | error e => exact ⟨fun _ => rfl, fun _ => rfl⟩
  | ok q =>
      rw [← htxn q hrun]
      dsimp only
      cases (Session.odbcAutoTxnEnd t q.txn.active true q.txn.world).1 with
      | none => exact ⟨fun _ => rfl, fun h => absurd rfl h⟩
      | some failure => exact ⟨(fun h => by cases h), fun _ => rfl⟩

end

/-- Where no execution gives a result set, `BoundReaderInit` reports what `ExecuteRows` reports
exactly when both fail, or the transaction of the latter is committed and no execution reports
a negative count with a 32-bit `SQLLEN`. -/
theorem rowsAffected_agree_iff (d : Driver ρ α) (t : Session.Driver) (s : Session.OdbcStatement)
    (w : Session.World) (st : ParamStream ρ) (hnone : Resultless d st.rows.zipIdx) :
    (boundReaderInit d st).rowsAffected = (executeRows d t s w st).toOption ↔
      ¬ Completes d st ∨ (Commits t s w st ∧ Counts d st.rows.zipIdx) := by
  rw [boundReaderInit_rowsAffected hnone]
  cases hschema : st.schema with
  | some e =>
      refine iff_of_true ?_ (.inl fun h => ?_)
      · unfold executeRows
        rw [hschema]
        rfl
      · rw [h.schema] at hschema
        cases hschema
  | none =>
      dsimp only
      obtain ⟨hcommitted, hrefused⟩ := executeRows_reports (d := d) t s w hschema
      have hrows : eventRows (events st.answers) = st.rows := eventRows_events st.answers
      cases hstream : tally (streamCount d.sqllen32) d 0 (events st.answers) with
      | none =>
          have hfails : ¬ Completes d st := by
            rw [← completes_iff (streamCount d.sqllen32) hschema, hstream]
            exact Bool.noConfusion
          have htotal : tally (rowsCount d.sqllen32) d 0 (events st.answers) = none := by
            rw [← Option.not_isSome_iff_eq_none, completes_iff (rowsCount d.sqllen32) hschema]
            exact hfails
          refine iff_of_true ?_ (.inl hfails)
          by_cases hcommits : Commits t s w st
          · rw [hcommitted hcommits, htotal]
          · rw [hrefused hcommits]
      | some stream =>
          have hcompletes : Completes d st := by
            rw [← completes_iff (streamCount d.sqllen32) hschema, hstream]
            rfl
          rw [or_iff_right (not_not.mpr hcompletes)]
          by_cases hcommits : Commits t s w st
          · obtain ⟨rows, hsum⟩ :=
              Option.isSome_iff_exists.mp
                ((completes_iff (rowsCount d.sqllen32) hschema).mpr hcompletes)
            obtain ⟨-, hsame⟩ := tally_compare hstream hsum
            rw [hrows] at hsame
            rw [hcommitted hcommits, hsum, Option.some.injEq, hsame]
            exact (and_iff_right hcommits).symm
          · rw [hrefused hcommits]
            exact iff_of_false (fun h => by cases h) fun h => hcommits h.1

/-- A driver with a 32-bit `SQLLEN` that knows the count of its first execution only. -/
def forgetful : Driver Nat Nat where
  sqllen32 := true
  execute n _ := .ok ⟨0, .wrote (if n = 0 then 3 else 0xffffffff), .error noSchema⟩

/-- A driver that grants every call of a transaction. -/
def granting : Session.Driver where
  serverOk _ := true
  prepares _ := true
  setsAttr _ := true
  binds _ := true
  executes _ := true
  arrayAnswer _ _ := ⟨.success, 0, fun _ => .success, 0, [], fun _ => true⟩
  rowCount _ := 0
  allocates _ := true
  switches _ := true
  endsTran _ := true
  rollsBack _ := true

theorem forgetful_resultless (rows : List (Nat × Nat)) : Resultless forgetful rows := by
  intro e _ x hx
  rw [← Except.ok.inj hx]

/-- The count that is not known is reported as one of 2^32 - 1 rows when a stream is asked
for. -/
theorem forgetful_disagrees :
    Resultless forgetful (ParamStream.rows { answers := [.batch [7, 8]] }).zipIdx ∧
      (boundReaderInit forgetful { answers := [.batch [7, 8]] }).rowsAffected =
        some 4294967298 ∧
      (executeRows forgetful granting {} ⟨0, .empty true, [], {}, []⟩
        { answers := [.batch [7, 8]] }).toOption = some 3 :=
  ⟨forgetful_resultless _, by decide +kernel, by decide +kernel⟩

/-- A row alone, whose count is known. -/
theorem forgetful_agrees :
    (boundReaderInit forgetful { answers := [.batch [7]] }).rowsAffected =
      (executeRows forgetful granting {} ⟨0, .empty true, [], {}, []⟩
        { answers := [.batch [7]] }).toOption := by
  apply (rowsAffected_agree_iff forgetful granting {} ⟨0, .empty true, [], {}, []⟩
    { answers := [.batch [7]] } (forgetful_resultless _)).mpr
  refine .inr ⟨rfl, ?_⟩
  intro e he x hx
  obtain rfl : e = (7, 0) := List.mem_singleton.mp he
  rw [← Except.ok.inj hx]
  rintro ⟨-, count, hcount, hneg⟩
  rw [← Option.some.inj hcount] at hneg
  revert hneg
  decide

end AdbcBridge.Bind.Reexecute
