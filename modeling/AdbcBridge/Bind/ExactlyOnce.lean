import AdbcBridge.Bind.Execute
import Mathlib

/-!
# Every row of a bound stream, exactly once

The paths of one batch hand over at a row: what came before it is applied, what
lies beyond is still to do, and the retry list makes up for the sets in between
that a driver refused.  Following that hand-over through a batch and through the
stream shows that a run without an error applied every row exactly once, if and
only if every report of a parameter-array execute counted its sets.
-/

namespace AdbcBridge.Bind.ExactlyOnce

open AdbcBridge.Lib AdbcBridge.Bind.Session AdbcBridge.Bind.MultiRow AdbcBridge.Bind.Unnest
  AdbcBridge.Bind.ArrayExecute AdbcBridge.Bind.Execute

/-- From `p` to `p'` these rows were applied and these reports came in, and the
connection still keeps every row ever applied to it. -/
structure Reached (p p' : Progress) (rows : List Nat) (reports : List Report) : Prop where
  log : p'.world.ledger.log = p.world.ledger.log ++ rows
  reports : p'.world.reports = p.world.reports ++ reports
  base : p'.base = p.base
  complete : p'.world.ledger.Complete

/-- What the batch loop keeps: nothing is lost, and nothing has been applied
while the loop says so. -/
structure LoopInv (p : Progress) : Prop where
  complete : p.world.ledger.Complete
  virgin : p.applied = false → p.world.ledger.log = []

theorem Reached.refl {p : Progress} (h : p.world.ledger.Complete) : Reached p p [] [] :=
  ⟨by simp, by simp, rfl, h⟩

theorem Reached.applies {p p' p'' : Progress} {rows rows' : List Nat}
    {reports reports' : List Report} (h : Reached p p' rows reports)
    (h' : Applies p'.world p''.world rows' reports') (hbase : p''.base = p'.base) :
    Reached p p'' (rows ++ rows') (reports ++ reports') where
  log := by rw [h'.log, h.log, List.append_assoc]
  reports := by rw [h'.reports, h.reports, List.append_assoc]
  base := by rw [hbase, h.base]
  complete := h'.complete h.complete

theorem Reached.quiet {p p' p'' : Progress} {rows : List Nat} {reports : List Report}
    (h : Reached p p' rows reports) (h' : Applies p'.world p''.world [] [])
    (hbase : p''.base = p'.base) : Reached p p'' rows reports := by
  simpa using h.applies h' hbase

/-! ## The transaction keeps every row -/

theorem odbcAutoTxnBegin_complete (d : Driver) (s : OdbcStatement) (active : Bool) {w : World}
    (h : w.ledger.Complete) : (odbcAutoTxnBegin d s active w).2.ledger.Complete := by
  unfold odbcAutoTxnBegin
  split
  · exact h
  · exact setAutocommit_complete d false h

/-- A switch or an end of the transaction keeps log and reports. -/
theorem Reached.setTxn {p p' : Progress} {rows : List Nat} {reports : List Report}
    (h : Reached p p' rows reports) {txn : Bool × World}
    (hlog : txn.2.ledger.log = p'.world.ledger.log) (hreports : txn.2.reports = p'.world.reports)
    (hcomplete : txn.2.ledger.Complete) : Reached p (p'.setTxn txn) rows reports where
  log := hlog.trans h.log
  reports := hreports.trans h.reports
  base := h.base
  complete := hcomplete

/-- Starting the transaction over drops nothing when nothing has been applied. -/
theorem Reached.restart {p p' : Progress} {rows : List Nat} {reports : List Report}
    (h : Reached p p' rows reports) (hlog : p'.world.ledger.log = []) (d : Driver)
    (s : OdbcStatement) : Reached p (restartTxn d s p') rows reports := by
  have hpending := Ledger.pending_of_complete h.complete hlog
  have hended : (odbcAutoTxnEnd d p'.active false p'.world).2.ledger.Complete :=
    odbcAutoTxnEnd_complete d p'.active h.complete (.inl hpending)
  unfold restartTxn
  dsimp only
  split
  · apply h.setTxn
    · rw [odbcAutoTxnBegin_log, odbcAutoTxnEnd_log]
    · rw [odbcAutoTxnBegin_reports, odbcAutoTxnEnd_reports]
    · exact odbcAutoTxnBegin_complete d s false hended
  · apply h.setTxn
    · exact odbcAutoTxnEnd_log d p'.active false p'.world
    · exact odbcAutoTxnEnd_reports d p'.active false p'.world
    · exact hended

theorem restartTxn_applied (d : Driver) (s : OdbcStatement) (p : Progress) :
    (restartTxn d s p).applied = p.applied := by
  unfold restartTxn
  dsimp only
  split <;> rfl

theorem multiRowSetupPhase_reached (d : Driver) (s : OdbcStatement) (st : BoundStream)
    (wanted : Bool) {p p' : Progress} {rows : List Nat} {reports : List Report}
    (h : Reached p p' rows reports) :
    Reached p (multiRowSetupPhase d s st wanted p') rows reports := by
  unfold multiRowSetupPhase
  split
  · exact h.quiet (multiRowSetup_quiet d s st.ncols p'.mr p'.world) rfl
  · exact h

theorem multiRowSetupPhase_kept (d : Driver) (s : OdbcStatement) (st : BoundStream)
    (wanted : Bool) (p : Progress) :
    (multiRowSetupPhase d s st wanted p).applied = p.applied ∧
      (multiRowSetupPhase d s st wanted p).base = p.base := by
  unfold multiRowSetupPhase
  split <;> exact ⟨rfl, rfl⟩

theorem arrayIngestSetupPhase_reached (d : Driver) (s : OdbcStatement) (st : BoundStream)
    (b : Batch) {p p' : Progress} {rows : List Nat} {reports : List Report}
    (h : Reached p p' rows reports) :
    Reached p (arrayIngestSetupPhase d s st b p') rows reports := by
  unfold arrayIngestSetupPhase
  split
  · exact h.quiet (arrayIngestSetup_quiet d s st.spellable p'.ai p'.world) rfl
  · exact h

theorem arrayIngestSetupPhase_applied (d : Driver) (s : OdbcStatement) (st : BoundStream)
    (b : Batch) (p : Progress) : (arrayIngestSetupPhase d s st b p).applied = p.applied := by
  unfold arrayIngestSetupPhase
  split <;> rfl

theorem beginPhase_reached (d : Driver) (s : OdbcStatement) (b : Batch) {p p' : Progress}
    {rows : List Nat} {reports : List Report} (h : Reached p p' rows reports) :
    Reached p (beginPhase d s b p') rows reports := by
  have hcounted : Reached p { p' with seen := p'.seen + b.length } rows reports :=
    ⟨h.log, h.reports, h.base, h.complete⟩
  unfold beginPhase
  dsimp only
  split
  · apply hcounted.setTxn
    · exact odbcAutoTxnBegin_log d s p'.active p'.world
    · exact odbcAutoTxnBegin_reports d s p'.active p'.world
    · exact odbcAutoTxnBegin_complete d s p'.active h.complete
  · exact hcounted

theorem beginPhase_applied (d : Driver) (s : OdbcStatement) (b : Batch) (p : Progress) :
    (beginPhase d s b p).applied = p.applied := by
  unfold beginPhase
  dsimp only
  split <;> rfl

/-! ## The hand-over between the paths of a batch -/

/-- A leading run of the batch went in, up to the row of the hand-over. -/
structure LeadingRun (p : Progress) (len : Nat) (ph : Phase) : Prop where
  run : ∃ n, n ≤ len ∧ Reached p ph.progress (List.range' p.base n) [] ∧
    (ph.status = none → ph.row = n)
  applied : ph.progress.applied = p.applied

/-- The rows up to the hand-over are settled with the retry list. -/
def SettledTo (p : Progress) (len row : Nat) (retry : List Nat) (ph : Phase) : Prop :=
  ∃ rows reports, Reached p ph.progress rows reports ∧
    (ph.status = none → Settled p.base len row retry rows reports)

theorem LeadingRun.start {p p' : Progress} {len : Nat} (h : Reached p p' [] [])
    (happlied : p'.applied = p.applied) : LeadingRun p len ⟨none, 0, p'⟩ :=
  ⟨⟨0, Nat.zero_le _, h, fun _ => rfl⟩, happlied⟩

/-- An insert form over the whole batch, with the fallback after a refusal. -/
theorem LeadingRun.afterProbe {β : Type} {p p' q : Progress} {len : Nat} {r : PathResult β}
    (hp : LoopInv p) (h : Reached p p' [] []) (happlied : p'.applied = p.applied)
    (hlead : Leading p'.base 0 len (!p'.applied) p'.world r) (hworld : q.world = r.world)
    (hbase : q.base = p'.base) (hq : q.applied = p'.applied) (d : Driver) (s : OdbcStatement) :
    LeadingRun p len (afterProbe d s r q) := by
  obtain ⟨n, hn, happ, hdone, hback⟩ := hlead
  rw [Nat.add_zero, h.base, ← hworld] at happ
  have hreached : Reached p q (List.range' p.base n) [] := h.applies happ hbase
  refine ⟨⟨n, hn, ?_, hdone⟩, ?_⟩
  · unfold Execute.afterProbe
    dsimp only
    split
    · rename_i hfell
      obtain ⟨hzero, hvirgin⟩ := hback hfell
      have hempty : p.world.ledger.log = [] := by
        apply hp.virgin
        rw [← happlied]
        simpa using hvirgin
      apply hreached.restart
      rw [hreached.log, hempty, hzero]
      rfl
    · exact hreached
  · unfold Execute.afterProbe
    dsimp only
    split
    · rw [restartTxn_applied, hq, happlied]
    · rw [hq, happlied]

theorem arrayIngestPhase_leading (d : Driver) (s : OdbcStatement) (b : Batch)
    {p p' : Progress} (hp : LoopInv p) (h : Reached p p' [] [])
    (happlied : p'.applied = p.applied) :
    LeadingRun p b.length (arrayIngestPhase d s b p') := by
  unfold arrayIngestPhase
  split
  · exact .start h happlied
  split
  · exact .start h happlied
  · apply LeadingRun.afterProbe hp h happlied
    · exact arrayIngestExecuteBatch_leading d b p'.base 0 b.length _ _ _ _
    · rfl
    · rfl
    · rfl

theorem multiRowFirstPhase_leading (d : Driver) (s : OdbcStatement) (st : BoundStream)
    (multirowFirst : Bool) (b : Batch) {p : Progress} {ph : Phase} (hp : LoopInv p)
    (h : LeadingRun p b.length ph) :
    LeadingRun p b.length (multiRowFirstPhase d s st multirowFirst b ph) := by
  unfold multiRowFirstPhase
  split
  · exact h
  split
  · rename_i hrun
    obtain ⟨⟨n, hn, hreached, hrow⟩, happlied⟩ := h
    have hzero : n = 0 := by rw [← hrow hrun.2.2.2, hrun.2.1]
    subst hzero
    apply LeadingRun.afterProbe hp hreached happlied
    · exact multiRowExecuteBatch_leading d _ st.ncols b _ 0 b.length _ _ _ _
    · rfl
    · rfl
    · rfl
  · exact h

theorem arrayPhase_settled {d : Driver} (hd : ArrayConforming d) (s : OdbcStatement) (b : Batch)
    {p : Progress} {ph : Phase} (h : LeadingRun p b.length ph) :
    SettledTo p b.length (arrayPhase d s b ph).1.row (arrayPhase d s b ph).2
      (arrayPhase d s b ph).1 := by
  obtain ⟨⟨n, hn, hreached, hrow⟩, -⟩ := h
  unfold arrayPhase
  split
  · rename_i hrun
    have hzero : n = 0 := by rw [← hrow hrun.2.2.2, hrun.2.1]
    subst hzero
    dsimp only
    rw [hreached.base]
    obtain ⟨rows, reports, happ, hsettled⟩ := executeBatchArray_spec hd s.opts b
      p.base ph.progress.total ph.progress.world
    exact ⟨_, _, hreached.applies happ rfl, hsettled⟩
  · refine ⟨_, _, hreached, fun hstatus => ?_⟩
    rw [hrow hstatus]
    exact .leading p.base hn

theorem multiRowRestPhase_settled (d : Driver) (s : OdbcStatement) (st : BoundStream) (b : Batch)
    {p : Progress} {ph : Phase} {retry : List Nat} (h : SettledTo p b.length ph.row retry ph) :
    SettledTo p b.length (multiRowRestPhase d s st b ph).row retry
      (multiRowRestPhase d s st b ph) := by
  unfold multiRowRestPhase
  split
  · rename_i hrun
    obtain ⟨rows, reports, hreached, hsettled⟩ := h
    have hset := multiRowSetupPhase_reached d s st ph.progress.mr.enabled hreached
    dsimp only
    generalize multiRowSetupPhase d s st ph.progress.mr.enabled ph.progress = q at hset
    split
    · exact ⟨rows, reports, hset, hsettled⟩
    · obtain ⟨n, hn, happ, hdone, -⟩ := multiRowExecuteBatch_leading d q.mr.form st.ncols b q.base
        ph.row (b.length - ph.row) (!q.applied && decide (ph.row = 0)) _ q.total q.world
      refine ⟨_, _, hset.applies happ rfl, fun hstatus => ?_⟩
      rw [List.append_nil, hdone hstatus, hset.base]
      exact (hsettled hrun.2).extend hn
  · exact h

theorem markApplied_settled {p : Progress} {len row : Nat} {retry : List Nat} {ph : Phase}
    (h : SettledTo p len row retry ph) : SettledTo p len row retry (markApplied ph) := by
  obtain ⟨rows, reports, hreached, hsettled⟩ := h
  exact ⟨rows, reports, ⟨hreached.log, hreached.reports, hreached.base, hreached.complete⟩,
    hsettled⟩

/-- Running the remaining rows one at a time settles the whole batch. -/
theorem rowsPhase_settled (d : Driver) (b : Batch) {p : Progress} {row : Nat}
    {retry : List Nat} {ph : Phase} (h : SettledTo p b.length row retry ph) :
    SettledTo p b.length b.length retry
      (rowsPhase d b (List.range' row (b.length - row)) ph) := by
  obtain ⟨rows, reports, hreached, hsettled⟩ := h
  unfold rowsPhase
  split
  · rename_i hstatus
    obtain ⟨done, -, happ, hok, -⟩ := executeEach_applies d b ph.progress.base
      (List.range' row (b.length - row)) ph.progress.total ph.progress.world
    refine ⟨_, _, hreached.applies happ rfl, fun hnone => ?_⟩
    have hdone := (hsettled hstatus).done_le
    have hextend := (hsettled hstatus).extend (Nat.le_refl (b.length - row))
    rw [Nat.add_sub_cancel' hdone] at hextend
    rw [hok hnone, hreached.base, List.map_add_range', List.append_nil]
    exact hextend
  · rename_i hstatus
    exact ⟨rows, reports, hreached, fun hnone => absurd hnone hstatus⟩

/-- What one batch did: the rows it applied are its own, each of them once if and
only if its reports counted their sets. -/
structure BatchDone (p p' : Progress) (len : Nat) (rows : List Nat) (reports : List Report) :
    Prop where
  rows_lt : ∀ x ∈ rows, p.base ≤ x ∧ x < p.base + len
  once_iff : (∀ i < len, rows.count (p.base + i) = 1) ↔ ∀ r ∈ reports, Counted r.answer r.sets
  inv : LoopInv p'

theorem rowsPhase_retry (d : Driver) (b : Batch) {p : Progress} {retry : List Nat} {ph : Phase}
    (h : SettledTo p b.length b.length retry ph) :
    ∃ rows reports, Reached p (rowsPhase d b retry ph).progress rows reports ∧
      ((rowsPhase d b retry ph).status = none →
        (∀ x ∈ rows, p.base ≤ x ∧ x < p.base + b.length) ∧
        ((∀ i < b.length, rows.count (p.base + i) = 1) ↔
          ∀ r ∈ reports, Counted r.answer r.sets)) := by
  obtain ⟨rows, reports, hreached, hsettled⟩ := h
  unfold rowsPhase
  split
  · rename_i hstatus
    obtain ⟨done, -, happ, hok, -⟩ := executeEach_applies d b ph.progress.base retry
      ph.progress.total ph.progress.world
    refine ⟨_, _, hreached.applies happ rfl, fun hnone => ?_⟩
    have hset := hsettled hstatus
    rw [hok hnone, hreached.base, List.append_nil]
    refine ⟨fun x hx => ?_, hset.retried⟩
    rcases List.mem_append.1 hx with hx | hx
    · exact hset.rows_lt x hx
    · obtain ⟨i, hi, rfl⟩ := List.mem_map.1 hx
      have := hset.retry_lt i hi
      omega
  · rename_i hstatus
    exact ⟨rows, reports, hreached, fun hnone => absurd hnone hstatus⟩

theorem bulkPaths_applied (d : Driver) (s : OdbcStatement) (st : BoundStream)
    (multirowFirst : Bool) (b : Batch) {p p' : Progress}
    (h : LeadingRun p b.length
      (multiRowFirstPhase d s st multirowFirst b (arrayIngestPhase d s b p'))) :
    (bulkPaths d s st multirowFirst b p').1.progress.applied = p.applied := by
  have harray : ∀ ph, (arrayPhase d s b ph).1.progress.applied = ph.progress.applied := by
    intro ph
    unfold arrayPhase
    split <;> rfl
  have hrest : ∀ ph, (multiRowRestPhase d s st b ph).progress.applied = ph.progress.applied := by
    intro ph
    have hkept := (multiRowSetupPhase_kept d s st ph.progress.mr.enabled ph.progress).1
    unfold multiRowRestPhase
    split
    · dsimp only
      split
      · exact hkept
      · exact hkept
    · rfl
  rw [bulkPaths, hrest, harray, h.applied]

/-- Without an error, rows run one at a time are marked as applied. -/
theorem rowsPhase_applied {d : Driver} {b : Batch} {rows : List Nat} {ph : Phase}
    (hstatus : (rowsPhase d b rows ph).status = none)
    (h : (rowsPhase d b rows ph).progress.applied = false) :
    ph.status = none ∧ ph.progress.applied = false ∧ rows = [] := by
  unfold rowsPhase at h hstatus
  split at h
  · rename_i hnone
    rw [if_pos hnone] at hstatus
    obtain ⟨done, -, -, hok, hnil⟩ := executeEach_applies d b ph.progress.base rows
      ph.progress.total ph.progress.world
    simp only [Progress.rowsExecuted, Bool.or_eq_false_iff] at h
    exact ⟨hnone, h.1, by rw [← hok hstatus, hnil h.2]⟩
  · rename_i hsome
    rw [if_neg hsome] at hstatus
    exact absurd hstatus hsome

theorem openBatch_reached (d : Driver) (s : OdbcStatement) (st : BoundStream)
    (multirowFirst : Bool) (b : Batch) {p : Progress} (h : p.world.ledger.Complete) :
    Reached p (openBatch d s st multirowFirst b p) [] [] :=
  beginPhase_reached d s b (arrayIngestSetupPhase_reached d s st b
    (multiRowSetupPhase_reached d s st _ (Reached.refl h)))

theorem openBatch_applied (d : Driver) (s : OdbcStatement) (st : BoundStream)
    (multirowFirst : Bool) (b : Batch) (p : Progress) :
    (openBatch d s st multirowFirst b p).applied = p.applied := by
  unfold openBatch
  rw [beginPhase_applied, arrayIngestSetupPhase_applied, (multiRowSetupPhase_kept ..).1]

/-- Without an error, a batch after which nothing is marked as applied had no
row. -/
theorem rowPaths_applied {d : Driver} {b : Batch} {bulk : Phase × List Nat}
    (hstatus : (rowPaths d b bulk).status = none)
    (h : (rowPaths d b bulk).progress.applied = false) :
    bulk.1.progress.applied = false ∧ b.length = 0 := by
  obtain ⟨hstatus, hfalse, -⟩ := rowsPhase_applied hstatus h
  obtain ⟨-, hfalse, hempty⟩ := rowsPhase_applied hstatus hfalse
  simp only [markApplied, Bool.or_eq_false_iff, decide_eq_false_iff_not] at hfalse hempty
  rw [List.range'_eq_nil_iff] at hempty
  exact ⟨hfalse.1, by omega⟩

theorem executeBatch_done {d : Driver} (hd : ArrayConforming d) (s : OdbcStatement)
    (st : BoundStream) (multirowFirst : Bool) (b : Batch) {p : Progress} (hp : LoopInv p) :
    ∃ rows reports,
      (executeBatch d s st multirowFirst b p).2.world.ledger.log =
        p.world.ledger.log ++ rows ∧
      (executeBatch d s st multirowFirst b p).2.world.reports = p.world.reports ++ reports ∧
      (executeBatch d s st multirowFirst b p).2.base = p.base + b.length ∧
      ((executeBatch d s st multirowFirst b p).1 = none →
        BatchDone p (executeBatch d s st multirowFirst b p).2 b.length rows reports) := by
  have hlead := multiRowFirstPhase_leading d s st multirowFirst b hp
    (arrayIngestPhase_leading d s b hp (openBatch_reached d s st multirowFirst b hp.complete)
      (openBatch_applied d s st multirowFirst b p))
  have hbulk : SettledTo p b.length _ _ (bulkPaths d s st multirowFirst b _).1 :=
    multiRowRestPhase_settled d s st b (arrayPhase_settled hd s b hlead)
  obtain ⟨rows, reports, hreached, hdone⟩ :=
    rowsPhase_retry d b (rowsPhase_settled d b (markApplied_settled hbulk))
  refine ⟨rows, reports, hreached.log, hreached.reports,
    congrArg (· + b.length) hreached.base, fun hnone => ?_⟩
  obtain ⟨hlt, honce⟩ := hdone hnone
  refine ⟨hlt, honce, hreached.complete, fun hfalse => ?_⟩
  -- nothing marked as applied: the batch was empty and nothing came before it
  obtain ⟨hvirgin, hlen⟩ := rowPaths_applied hnone hfalse
  rw [bulkPaths_applied d s st multirowFirst b hlead] at hvirgin
  have hrows : rows = [] := by
    apply List.eq_nil_iff_forall_not_mem.2
    intro x hx
    have := hlt x hx
    omega
  calc _ = p.world.ledger.log ++ rows := hreached.log
    _ = [] := by rw [hp.virgin hvirgin, hrows, List.append_nil]

/-! ## The stream -/

/-- Rows of one batch and rows of the batches after it do not meet. -/
theorem count_append_of_lt {base len : Nat} {rows rows' : List Nat} {n : Nat}
    (h : ∀ x ∈ rows, base ≤ x ∧ x < base + len)
    (h' : ∀ x ∈ rows', base + len ≤ x ∧ x < base + len + n) :
    (∀ i < len + n, (rows ++ rows').count (base + i) = 1) ↔
      (∀ i < len, rows.count (base + i) = 1) ∧
        ∀ i < n, rows'.count (base + len + i) = 1 := by
  have hleft : ∀ i, len ≤ i → rows.count (base + i) = 0 := fun i hi =>
    List.count_eq_zero.2 fun hmem => by have := h _ hmem; omega
  have hright : ∀ i < len, rows'.count (base + i) = 0 := fun i hi =>
    List.count_eq_zero.2 fun hmem => by have := h' _ hmem; omega
  simp only [List.count_append]
  constructor
  · intro hone
    refine ⟨fun i hi => ?_, fun i hi => ?_⟩
    · have := hone i (by omega)
      rwa [hright i hi, Nat.add_zero] at this
    · have := hone (len + i) (by omega)
      rwa [hleft (len + i) (by omega), Nat.zero_add, ← Nat.add_assoc] at this
  · rintro ⟨hlow, hhigh⟩ i hi
    by_cases hlen : i < len
    · rw [hlow i hlen, hright i hlen]
    · have := hhigh (i - len) (by omega)
      rw [show base + len + (i - len) = base + i by omega] at this
      rw [hleft i (by omega), this]

/-- The batch loop, by induction on the batches still to come: without an error
the rows it applied are those of these batches, each once if and only if every
report counted its sets. -/
theorem executeBatches_done {d : Driver} (hd : ArrayConforming d) (s : OdbcStatement)
    (st : BoundStream) (multirowFirst : Bool) (batches : List Batch) {p : Progress}
    (hp : LoopInv p) (hok : (executeBatches d s st multirowFirst batches p).1 = none) :
    ∃ rows reports,
      (executeBatches d s st multirowFirst batches p).2.world.ledger.log =
        p.world.ledger.log ++ rows ∧
      (executeBatches d s st multirowFirst batches p).2.world.reports =
        p.world.reports ++ reports ∧
      BatchDone p (executeBatches d s st multirowFirst batches p).2
        (batches.map (·.length)).sum rows reports := by
  induction batches generalizing p with
  | nil =>
      refine ⟨[], [], by simp [executeBatches], by simp [executeBatches], by simp, ?_, ?_⟩
      · simp
      · exact hp
  | cons b rest ih =>
      obtain ⟨rows, reports, hlog, hreports, hbase, hdone⟩ :=
        executeBatch_done hd s st multirowFirst b hp
      rw [executeBatches] at hok ⊢
      split at hok
      · rename_i hvalid
        rw [if_pos hvalid]
        dsimp only at hok ⊢
        split at hok
        · rename_i hnone
          obtain ⟨hlt, honce, hinv⟩ := hdone hnone
          obtain ⟨rows', reports', hlog', hreports', hlt', honce', hinv'⟩ := ih hinv hok
          rw [hbase] at hlt' honce'
          refine ⟨rows ++ rows', reports ++ reports', ?_, ?_, ?_, ?_, hinv'⟩
          · rw [hlog', hlog, List.append_assoc]
          · rw [hreports', hreports, List.append_assoc]
          · intro x hx
            rw [List.map_cons, List.sum_cons]
            rcases List.mem_append.1 hx with hx | hx
            · have := hlt x hx
              omega
            · have := hlt' x hx
              omega
          · rw [List.map_cons, List.sum_cons, count_append_of_lt hlt hlt', honce, honce']
            simp only [List.mem_append, or_imp, forall_and]
        · simp at hok
      · simp at hok

theorem startProgress_inv (s : OdbcStatement) (st : BoundStream) (autocommit : Bool)
    (m : Memory) : LoopInv (startProgress s st (fresh autocommit m)) :=
  ⟨Ledger.complete_empty autocommit, fun _ => rfl⟩

/-- A list holds every number below `n` once, and no other, exactly when it is a
rearrangement of them. -/
theorem perm_range_iff {l : List Nat} {n : Nat} (h : ∀ x ∈ l, x < n) :
    l.Perm (List.range n) ↔ ∀ i < n, l.count i = 1 := by
  rw [List.perm_iff_count]
  constructor
  · intro hcount i hi
    rw [hcount i, List.nodup_range.count, if_pos (List.mem_range.2 hi)]
  · intro hone i
    rw [List.nodup_range.count]
    by_cases hi : i < n
    · rw [if_pos (List.mem_range.2 hi), hone i hi]
    · rw [if_neg (by rwa [List.mem_range])]
      exact List.count_eq_zero.2 fun hmem => hi (h i hmem)

/-- Without an error the loop had none, and neither had the commit. -/
theorem finish_ok {d : Driver} {status : Option Failure} {p : Progress}
    (h : (finish d status p).status = none) :
    status = none ∧ (odbcAutoTxnEnd d p.active true p.world).1 = none ∧
      (finish d status p).world = (odbcAutoTxnEnd d p.active true p.world).2 := by
  by_cases hnone : status = none
  · subst hnone
    exact ⟨rfl, by simpa [finish] using h, by simp [finish]⟩
  · simp [finish, hnone] at h

theorem executeRows_ok {d : Driver} {s : OdbcStatement} {st : BoundStream} {w : World}
    (hok : (executeRows d s st w).status = none) :
    executeRows d s st w =
      finish d (executeBatches d s st (multirowFirst s st) st.batches (startProgress s st w)).1
        (executeBatches d s st (multirowFirst s st) st.batches (startProgress s st w)).2 := by
  revert hok
  unfold executeRows
  split
  · simp
  split
  · simp
  · exact fun _ => rfl

/-- A bound execution that returns without an error has applied every row of the
stream exactly once, none of them rolled back, if and only if every report of a
parameter-array execute counted its sets. -/
theorem applied_once_iff (d : Driver) (s : OdbcStatement) (st : BoundStream) (autocommit : Bool)
    (m : Memory) (hd : ArrayConforming d)
    (hok : (executeRows d s st (fresh autocommit m)).status = none) :
    (executeRows d s st (fresh autocommit m)).world.ledger.Complete ∧
      ((executeRows d s st (fresh autocommit m)).world.ledger.log.Perm (List.range st.rows) ↔
        ∀ r ∈ (executeRows d s st (fresh autocommit m)).world.reports,
          Counted r.answer r.sets) := by
  have hrun := executeRows_ok hok
  rw [hrun] at hok ⊢
  obtain ⟨hnone, hend, hworld⟩ := finish_ok hok
  obtain ⟨rows, reports, hlog, hreports, hlt, honce, hinv⟩ :=
    executeBatches_done hd s st (multirowFirst s st) st.batches
      (startProgress_inv s st autocommit m) hnone
  rw [hworld, odbcAutoTxnEnd_log, odbcAutoTxnEnd_reports, hlog, hreports]
  refine ⟨odbcAutoTxnEnd_complete d _ hinv.complete (.inr ⟨rfl, hend⟩), ?_⟩
  have hstart : (startProgress s st (fresh autocommit m)).base = 0 := rfl
  simp only [hstart, Nat.zero_add, Nat.zero_le, true_and] at hlt honce
  calc rows.Perm (List.range st.rows)
      ↔ ∀ i < st.rows, rows.count i = 1 := perm_range_iff hlt
    _ ↔ ∀ r ∈ reports, Counted r.answer r.sets := honce

/-- A driver that takes everything and answers each parameter array the same way. -/
def answering (answer : Nat → ArrayAnswer) : Driver where
  serverOk := fun _ => true
  prepares := fun _ => true
  setsAttr := fun _ => true
  binds := fun _ => true
  executes := fun _ => true
  arrayAnswer := fun _ n => answer n
  rowCount := fun _ => 1
  allocates := fun _ => true
  switches := fun _ => true
  endsTran := fun _ => true
  rollsBack := fun _ => true

/-- Every set in, by count and by status. -/
def allProcessed (n : Nat) : ArrayAnswer :=
  ⟨.success, n, fun _ => .success, n, [], fun _ => true⟩

/-- The second set refused, which only the status array tells. -/
def secondRefused (n : Nat) : ArrayAnswer :=
  ⟨.successWithInfo, 0, fun i => if i = 1 then .error else .success, n - 1, [],
    fun i => decide (i ≠ 1)⟩

theorem allProcessed_conforming : ArrayConforming (answering allProcessed) := by
  intro tick n _
  refine ⟨by simp [answering, allProcessed], fun _ => ⟨?_, ?_, ?_, ?_, ?_⟩⟩
  · simp [answering, allProcessed]
  · simp [answering, allProcessed, ParamStatus.succeeded]
  · simp [answering, allProcessed]
  · simp [answering, allProcessed]
  · simp [answering, allProcessed]

theorem secondRefused_conforming : ArrayConforming (answering secondRefused) := by
  intro tick n _
  refine ⟨by simp [answering, secondRefused], fun _ => ⟨?_, ?_, ?_, ?_, ?_⟩⟩
  · intro i _
    by_cases hi : i = 1 <;> simp [answering, secondRefused, hi]
  · intro _ i _
    by_cases hi : i = 1 <;> simp [answering, secondRefused, hi, ParamStatus.succeeded]
  · simp [answering, secondRefused]
  · simp [answering, secondRefused]
  · simp [answering, secondRefused]

/-- Three rows of which the driver refuses the second and says so by the status
array alone: the third row goes in twice. -/
theorem status_array_replays :
    ¬ ∀ (d : Driver) (s : OdbcStatement) (st : BoundStream) (autocommit : Bool) (m : Memory),
      ArrayConforming d → (executeRows d s st (fresh autocommit m)).status = none →
      (executeRows d s st (fresh autocommit m)).world.ledger.log.Perm (List.range st.rows) := by
  intro hclaim
  have hlog : (executeRows (answering secondRefused) {} { batches := [{ length := 3 }] }
      (fresh true {})).world.ledger.log = [0, 2, 2, 1] := by decide +kernel
  have hperm := hclaim (answering secondRefused) {} { batches := [{ length := 3 }] } true {}
    secondRefused_conforming (by decide +kernel)
  rw [hlog] at hperm
  exact absurd hperm.length_eq (by decide)

/-- The same three rows with every set counted. -/
theorem applied_once_three :
    (executeRows (answering allProcessed) {} { batches := [{ length := 3 }] }
      (fresh true {})).world.ledger.Complete ∧
      ((executeRows (answering allProcessed) {} { batches := [{ length := 3 }] }
        (fresh true {})).world.ledger.log.Perm (List.range 3) ↔
        ∀ r ∈ (executeRows (answering allProcessed) {} { batches := [{ length := 3 }] }
          (fresh true {})).world.reports, Counted r.answer r.sets) :=
  applied_once_iff (answering allProcessed) {} { batches := [{ length := 3 }] } true {}
    allProcessed_conforming (by decide +kernel)

end AdbcBridge.Bind.ExactlyOnce
