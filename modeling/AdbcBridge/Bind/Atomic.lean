import AdbcBridge.Bind.Execute

/-!
# A failed bound execution and the rows it leaves

Inside the implicit transaction nothing is committed, so an error rolls every
row back, unless the driver answers `SQLEndTran` with a failure and leaves the
transaction open: then the switch back to autocommit commits it.  The transaction
opens once two rows have been seen, and a first non-empty batch of one row is
executed before that: if that row goes in, it is committed, whatever happens
later.  With a driver that rolls back where it fails, which streams can fail with
a row left behind is therefore decided by where their first row stands.
-/

namespace AdbcBridge.Bind.Atomic

open AdbcBridge.Lib AdbcBridge.Bind.Session AdbcBridge.Bind.MultiRow AdbcBridge.Bind.Unnest
  AdbcBridge.Bind.ArrayExecute AdbcBridge.Bind.Execute

/-- A connection in autocommit mode whose driver supports transactions and
accepts turning autocommit off and on. -/
structure ImplicitTxn (d : Driver) (s : OdbcStatement) : Prop where
  accepts : AcceptsAutocommit d
  connected : s.connected = true
  autocommit : s.autocommit = true
  capable : s.opts.txnCapable = true

/-- The transaction is open and `kept` is what was committed before it. -/
structure Inside (kept : List Nat) (p : Progress) : Prop where
  seen : 1 < p.seen
  active : p.active = true
  suspended : p.world.ledger.autocommit = false
  committed : p.world.ledger.committed = kept

/-- The transaction has not been opened and `kept` is what is committed. -/
structure Outside (kept : List Nat) (p : Progress) : Prop where
  seen : p.seen ≤ 1
  active : p.active = false
  autocommit : p.world.ledger.autocommit = true
  committed : p.world.ledger.committed = kept

section

variable {d : Driver} {s : OdbcStatement} {kept : List Nat}

theorem Inside.applies {p p' : Progress} {rows : List Nat} {reports : List Report}
    (h : Inside kept p) (happ : Applies p.world p'.world rows reports)
    (hseen : p'.seen = p.seen) (hactive : p'.active = p.active) : Inside kept p' where
  seen := by rw [hseen]; exact h.seen
  active := by rw [hactive, h.active]
  suspended := by rw [happ.autocommit, h.suspended]
  committed := by rw [happ.committed h.suspended, h.committed]

/-- Opening the transaction from autocommit. -/
theorem odbcAutoTxnBegin_opens (hd : ImplicitTxn d s) {w : World} :
    odbcAutoTxnBegin d s false w = (true, (w.setLedger w.ledger.suspend).next) := by
  simp [odbcAutoTxnBegin, setAutocommit, hd.accepts w.tick, hd.connected, hd.autocommit,
    hd.capable]

/-- However the transaction ends, the connection is in autocommit mode again. -/
theorem odbcAutoTxnEnd_autocommit (hd : ImplicitTxn d s) (commit : Bool) (w : World) :
    (odbcAutoTxnEnd d true commit w).2.ledger.autocommit = true := by
  simp [odbcAutoTxnEnd, setAutocommit, hd.accepts _]

/-- Rolling back commits nothing, if the rollback fails with nothing left to commit. -/
theorem odbcAutoTxnEnd_rollback (hd : ImplicitTxn d s) (hback : RollsBackOnFailure d)
    (w : World) : (odbcAutoTxnEnd d true false w).2.ledger.committed = w.ledger.committed := by
  have hended : ∀ w', w'.ledger.pending = [] → w'.ledger.committed = w.ledger.committed →
      (setAutocommit d true w').2.ledger.committed = w.ledger.committed := by
    intro w' hpending hcommitted
    simp [setAutocommit, hd.accepts w'.tick, Ledger.resume_committed_of_pending hpending,
      hcommitted]
  simp only [odbcAutoTxnEnd, if_true]
  apply hended
  · by_cases hends : d.endsTran w.tick = true
    · simp [endTran, hends]
    · simp [endTran, hends, hback w.tick (by simpa using hends)]
  · by_cases hends : d.endsTran w.tick = true
    · simp [endTran, hends]
    · simp [endTran, hends, hback w.tick (by simpa using hends)]

/-- A commit that fails commits nothing, if it leaves nothing to commit. -/
theorem odbcAutoTxnEnd_commit (hd : ImplicitTxn d s) (hback : RollsBackOnFailure d) (w : World)
    (hfail : (odbcAutoTxnEnd d true true w).1 ≠ none) :
    (odbcAutoTxnEnd d true true w).2.ledger.committed = w.ledger.committed := by
  simp only [odbcAutoTxnEnd, if_true, endTran_fst] at hfail ⊢
  have hends : d.endsTran w.tick = false := by
    by_contra htrue
    simp [htrue] at hfail
  simp only [setAutocommit, hd.accepts _, endTran, hends, hback w.tick hends]
  exact Ledger.resume_committed_of_pending rfl

/-- The transaction is open, and what is committed before it is what was, if `SQLEndTran` leaves
nothing behind where it fails. -/
def StaysInside (d : Driver) (kept : List Nat) (p : Progress) : Prop :=
  ∃ kept', Inside kept' p ∧ (RollsBackOnFailure d → kept' = kept)

theorem Inside.stays {p : Progress} (h : Inside kept p) : StaysInside d kept p :=
  ⟨kept, h, fun _ => rfl⟩

theorem StaysInside.then {p p' : Progress} (h : StaysInside d kept p)
    (hstep : ∀ {kept}, Inside kept p → StaysInside d kept p') : StaysInside d kept p' := by
  obtain ⟨kept', hinside, hsame⟩ := h
  obtain ⟨kept'', hinside', hsame'⟩ := hstep hinside
  exact ⟨kept'', hinside', fun hback => (hsame' hback).trans (hsame hback)⟩

theorem Inside.restart (hd : ImplicitTxn d s) {p : Progress} (h : Inside kept p) :
    StaysInside d kept (restartTxn d s p) := by
  unfold restartTxn
  rw [if_pos h.seen, h.active, odbcAutoTxnBegin_opens hd]
  exact ⟨_, ⟨h.seen, rfl, rfl, rfl⟩, fun hback =>
    (odbcAutoTxnEnd_rollback hd hback p.world).trans h.committed⟩

/-! ## The paths of a batch, inside the transaction -/

theorem Inside.afterProbe (hd : ImplicitTxn d s) {β : Type} {r : PathResult β} {p : Progress}
    (h : Inside kept p) : StaysInside d kept (afterProbe d s r p).progress := by
  unfold Execute.afterProbe
  dsimp only
  split
  · exact h.restart hd
  · exact h.stays

theorem Inside.arrayIngestPhase (hd : ImplicitTxn d s) (b : Batch) {p : Progress}
    (h : Inside kept p) : StaysInside d kept (arrayIngestPhase d s b p).progress := by
  unfold Execute.arrayIngestPhase
  split
  · exact h.stays
  split
  · exact h.stays
  · obtain ⟨n, -, happ, -, -⟩ := arrayIngestExecuteBatch_leading d b p.base 0 b.length
      (!p.applied) _ p.total p.world
    apply Inside.afterProbe hd
    exact h.applies happ rfl rfl

theorem Inside.multiRowFirstPhase (hd : ImplicitTxn d s) (st : BoundStream)
    (multirowFirst : Bool) (b : Batch) {ph : Phase} (h : Inside kept ph.progress) :
    StaysInside d kept (multiRowFirstPhase d s st multirowFirst b ph).progress := by
  unfold Execute.multiRowFirstPhase
  split
  · exact h.stays
  split
  · obtain ⟨n, -, happ, -, -⟩ := multiRowExecuteBatch_leading d ph.progress.mr.form st.ncols b
      ph.progress.base 0 b.length (!ph.progress.applied) _ ph.progress.total ph.progress.world
    apply Inside.afterProbe hd
    exact h.applies happ rfl rfl
  · exact h.stays

theorem Inside.arrayPhase (b : Batch) {ph : Phase} (h : Inside kept ph.progress) :
    Inside kept (arrayPhase d s b ph).1.progress := by
  unfold Execute.arrayPhase
  split
  · obtain ⟨rows, reports, happ⟩ := executeBatchArray_applies d s.opts b ph.progress.base
      ph.progress.total ph.progress.world
    exact h.applies happ rfl rfl
  · exact h

theorem Inside.multiRowSetupPhase (st : BoundStream) (wanted : Bool) {p : Progress}
    (h : Inside kept p) : Inside kept (multiRowSetupPhase d s st wanted p) := by
  unfold Execute.multiRowSetupPhase
  split
  · exact h.applies (multiRowSetup_quiet d s st.ncols p.mr p.world) rfl rfl
  · exact h

theorem Inside.multiRowRestPhase (st : BoundStream) (b : Batch) {ph : Phase}
    (h : Inside kept ph.progress) :
    Inside kept (multiRowRestPhase d s st b ph).progress := by
  have hset := h.multiRowSetupPhase (d := d) (s := s) st ph.progress.mr.enabled
  unfold Execute.multiRowRestPhase
  split
  · dsimp only
    generalize Execute.multiRowSetupPhase d s st ph.progress.mr.enabled ph.progress = q at hset
    split
    · exact hset
    · obtain ⟨n, -, happ, -, -⟩ := multiRowExecuteBatch_leading d q.mr.form st.ncols b q.base ph.row
        (b.length - ph.row) (!q.applied && decide (ph.row = 0)) _ q.total q.world
      exact hset.applies happ rfl rfl
  · exact h

theorem Inside.rowsPhase (b : Batch) (rows : List Nat) {ph : Phase}
    (h : Inside kept ph.progress) : Inside kept (rowsPhase d b rows ph).progress := by
  unfold Execute.rowsPhase
  split
  · obtain ⟨done, -, happ, -, -⟩ := executeEach_applies d b ph.progress.base rows
      ph.progress.total ph.progress.world
    exact h.applies happ rfl rfl
  · exact h

theorem Inside.rowPaths (b : Batch) {bulk : Phase × List Nat}
    (h : Inside kept bulk.1.progress) : Inside kept (rowPaths d b bulk).progress := by
  unfold Execute.rowPaths
  apply Inside.rowsPhase
  apply Inside.rowsPhase
  exact ⟨h.seen, h.active, h.suspended, h.committed⟩

/-- Preparing the forms changes neither the transaction nor what is committed. -/
theorem setups_applies (st : BoundStream) (wanted : Bool) (b : Batch) (p : Progress) :
    Applies p.world (arrayIngestSetupPhase d s st b
      (Execute.multiRowSetupPhase d s st wanted p)).world [] [] ∧
    (arrayIngestSetupPhase d s st b (Execute.multiRowSetupPhase d s st wanted p)).seen = p.seen ∧
    (arrayIngestSetupPhase d s st b
      (Execute.multiRowSetupPhase d s st wanted p)).active = p.active := by
  have hmulti : Applies p.world (Execute.multiRowSetupPhase d s st wanted p).world [] [] ∧
      (Execute.multiRowSetupPhase d s st wanted p).seen = p.seen ∧
      (Execute.multiRowSetupPhase d s st wanted p).active = p.active := by
    unfold Execute.multiRowSetupPhase
    split
    · exact ⟨multiRowSetup_quiet d s st.ncols p.mr p.world, rfl, rfl⟩
    · exact ⟨.refl _, rfl, rfl⟩
  generalize Execute.multiRowSetupPhase d s st wanted p = q at hmulti
  obtain ⟨happ, hseen, hactive⟩ := hmulti
  unfold arrayIngestSetupPhase
  split
  · exact ⟨happ.then_quiet (arrayIngestSetup_quiet d s st.spellable q.ai q.world), hseen,
      hactive⟩
  · exact ⟨happ, hseen, hactive⟩

/-- From the second row on a batch starts inside the transaction. -/
theorem openBatch_inside (hd : ImplicitTxn d s) (st : BoundStream) (multirowFirst : Bool)
    (b : Batch) {p : Progress} (h : Outside kept p ∨ Inside kept p)
    (hseen : 1 < p.seen + b.length) : Inside kept (openBatch d s st multirowFirst b p) := by
  obtain ⟨happ, hseen', hactive⟩ := setups_applies (d := d) (s := s) st
    (multirowFirst && decide (1 < b.length)) b p
  unfold openBatch
  dsimp only
  generalize arrayIngestSetupPhase d s st b (Execute.multiRowSetupPhase d s st
    (multirowFirst && decide (1 < b.length)) p) = q at happ hseen' hactive
  have hq : 1 < q.seen + b.length := by rw [hseen']; exact hseen
  simp only [beginPhase, if_pos hq]
  rcases h with h | h
  · rw [hactive, h.active, odbcAutoTxnBegin_opens hd]
    refine ⟨hq, rfl, rfl, ?_⟩
    have hcommitted : q.world.ledger.committed = p.world.ledger.committed := by
      rw [happ.ledger, Ledger.apply_nil]
    exact hcommitted.trans h.committed
  · have hinside := h.applies happ hseen' hactive
    have hbegin : odbcAutoTxnBegin d s q.active q.world = (true, q.world) := by
      simp [odbcAutoTxnBegin, hinside.active]
    rw [hbegin]
    exact ⟨hq, rfl, hinside.suspended, hinside.committed⟩

/-- A batch that starts inside the transaction, or opens it, commits nothing. -/
theorem executeBatch_inside (hd : ImplicitTxn d s) (st : BoundStream) (multirowFirst : Bool)
    (b : Batch) {p : Progress} (h : Outside kept p ∨ Inside kept p)
    (hseen : 1 < p.seen + b.length) :
    StaysInside d kept (executeBatch d s st multirowFirst b p).2 := by
  have hopen := openBatch_inside hd st multirowFirst b h hseen
  have hforms := (hopen.arrayIngestPhase hd b).then fun hinside =>
    hinside.multiRowFirstPhase hd st multirowFirst b
  refine hforms.then fun hinside => Inside.stays ?_
  have hbulk : Inside _ (bulkPaths d s st multirowFirst b
      (openBatch d s st multirowFirst b p)).1.progress :=
    (hinside.arrayPhase b).multiRowRestPhase st b
  have hrows := hbulk.rowPaths (d := d) b
  exact ⟨hrows.seen, hrows.active, hrows.suspended, hrows.committed⟩

/-! ## A batch before the transaction -/

/-- A batch of at most one row takes only the row path, and while no more than
one row has been seen it opens no transaction. -/
theorem executeBatch_small (st : BoundStream) (multirowFirst : Bool) {b : Batch} {p : Progress}
    (hlen : b.length ≤ 1) (hseen : p.seen + b.length ≤ 1) :
    let run := executeEach d b p.base (List.range' 0 b.length) p.total p.world
    let result := executeBatch d s st multirowFirst b p
    result.1 = run.status ∧ result.2.world = run.world ∧
      result.2.seen = p.seen + b.length ∧ result.2.active = p.active ∧
      result.2.mr = p.mr ∧ result.2.ai = p.ai := by
  intro run result
  have hopen : openBatch d s st multirowFirst b p = { p with seen := p.seen + b.length } := by
    have hone : ¬ 1 < b.length := by omega
    have htwo : ¬ 1 < p.seen + b.length := by omega
    simp [openBatch, Execute.multiRowSetupPhase, arrayIngestSetupPhase, beginPhase, hone, htwo]
  have hbulk : ∀ q : Progress, bulkPaths d s st multirowFirst b q = (⟨none, 0, q⟩, []) := by
    intro q
    have hone : ¬ 1 < b.length := by omega
    have hingest : Execute.arrayIngestPhase d s b q = ⟨none, 0, q⟩ := by
      unfold Execute.arrayIngestPhase
      split
      · rfl
      · rw [if_pos hlen]
    have hfirst : Execute.multiRowFirstPhase d s st multirowFirst b ⟨none, 0, q⟩ =
        ⟨none, 0, q⟩ := by
      unfold Execute.multiRowFirstPhase
      split
      · rfl
      · rw [if_neg fun h => hone h.2.2.1]
    simp [bulkPaths, hingest, hfirst, Execute.arrayPhase, Execute.multiRowRestPhase, hone]
  have hresult : result = executeBatch d s st multirowFirst b p := rfl
  simp only [executeBatch, hopen, hbulk, Execute.rowPaths, markApplied] at hresult
  have hrun : run = executeEach d b p.base (List.range' 0 b.length) p.total p.world := rfl
  simp only [Execute.rowsPhase, if_true, Nat.sub_zero, ← hrun] at hresult
  rw [hresult]
  by_cases hstatus : run.status = none
  · simp [hstatus, executeEach, Progress.rowsExecuted]
  · simp [hstatus, Progress.rowsExecuted]

/-- An empty batch leaves things as they are. -/
theorem executeBatch_empty (st : BoundStream) (multirowFirst : Bool) {b : Batch} {p : Progress}
    (hlen : b.length = 0) (h : Outside kept p) :
    (executeBatch d s st multirowFirst b p).1 = none ∧
      Outside kept (executeBatch d s st multirowFirst b p).2 ∧
      (executeBatch d s st multirowFirst b p).2.seen = p.seen ∧
      (executeBatch d s st multirowFirst b p).2.world = p.world ∧
      (executeBatch d s st multirowFirst b p).2.mr = p.mr ∧
      (executeBatch d s st multirowFirst b p).2.ai = p.ai := by
  have hseen := h.seen
  obtain ⟨hstatus, hworld, hseen', hactive, hmr, hai⟩ :=
    executeBatch_small (d := d) (s := s) st multirowFirst (by omega : b.length ≤ 1)
      (by omega : p.seen + b.length ≤ 1)
  rw [hlen] at hstatus hworld hseen'
  simp only [List.range'_zero, executeEach] at hstatus hworld
  refine ⟨hstatus, ⟨by omega, hactive.trans h.active, ?_, ?_⟩, hseen', hworld, hmr, hai⟩
  · rw [hworld, h.autocommit]
  · rw [hworld, h.committed]

/-- A first row on its own is executed in autocommit mode. -/
theorem executeBatch_first (st : BoundStream) (multirowFirst : Bool) {b : Batch} {p : Progress}
    (hlen : b.length = 1) (hseen : p.seen = 0) (h : Outside kept p) :
    (executeBatch d s st multirowFirst b p).1 = (bindAndExecuteRow d b p.base 0 p.world).1 ∧
      (executeBatch d s st multirowFirst b p).2.world =
        (bindAndExecuteRow d b p.base 0 p.world).2 ∧
      Outside (if (bindAndExecuteRow d b p.base 0 p.world).1 = none then kept ++ [p.base]
        else kept) (executeBatch d s st multirowFirst b p).2 ∧
      (executeBatch d s st multirowFirst b p).2.mr = p.mr ∧
      (executeBatch d s st multirowFirst b p).2.ai = p.ai := by
  obtain ⟨hstatus, hworld, hseen', hactive, hmr, hai⟩ :=
    executeBatch_small (d := d) (s := s) st multirowFirst (by omega : b.length ≤ 1)
      (by omega : p.seen + b.length ≤ 1)
  have hrun : (executeEach d b p.base (List.range' 0 b.length) p.total p.world).status =
        (bindAndExecuteRow d b p.base 0 p.world).1 ∧
      (executeEach d b p.base (List.range' 0 b.length) p.total p.world).world =
        (bindAndExecuteRow d b p.base 0 p.world).2 := by
    rw [hlen]
    simp only [List.range'_one, executeEach]
    split
    · rename_i hfail
      exact ⟨hfail.symm, rfl⟩
    · rename_i hnone
      exact ⟨hnone.symm, rfl⟩
  rw [hrun.1] at hstatus
  rw [hrun.2] at hworld
  refine ⟨hstatus, hworld, ⟨by omega, hactive.trans h.active, ?_, ?_⟩, hmr, hai⟩
  · rw [hworld]
    cases hone : (bindAndExecuteRow d b p.base 0 p.world).1 with
    | none => rw [(bindAndExecuteRow_ok hone).autocommit, h.autocommit]
    | some failure => rw [(bindAndExecuteRow_failed hone).autocommit, h.autocommit]
  · rw [hworld]
    cases hone : (bindAndExecuteRow d b p.base 0 p.world).1 with
    | none =>
        rw [(bindAndExecuteRow_ok hone).ledger,
          Ledger.apply_committed_of_autocommit h.autocommit, h.committed]
        rfl
    | some failure =>
        rw [(bindAndExecuteRow_failed hone).ledger, Ledger.apply_nil, h.committed]
        rfl

/-- Whatever the batches, the transaction flag follows the connection. -/
theorem executeBatch_tracked (hd : ImplicitTxn d s) (st : BoundStream) (multirowFirst : Bool)
    (b : Batch) {p : Progress} (h : Outside kept p ∨ Inside kept p) :
    ∃ kept', Outside kept' (executeBatch d s st multirowFirst b p).2 ∨
      Inside kept' (executeBatch d s st multirowFirst b p).2 := by
  by_cases hseen : 1 < p.seen + b.length
  · obtain ⟨kept', hinside, -⟩ := executeBatch_inside hd st multirowFirst b h hseen
    exact ⟨kept', .inr hinside⟩
  · rcases h with h | h
    · by_cases hlen : b.length = 0
      · exact ⟨kept, .inl (executeBatch_empty st multirowFirst hlen h).2.1⟩
      · exact ⟨_, .inl (executeBatch_first st multirowFirst (by omega) (by omega) h).2.2.1⟩
    · have := h.seen
      omega

/-! ## The stream -/

theorem executeBatches_tracked (hd : ImplicitTxn d s) (st : BoundStream) (multirowFirst : Bool)
    (batches : List Batch) {p : Progress} (h : Outside kept p ∨ Inside kept p) :
    ∃ kept', Outside kept' (executeBatches d s st multirowFirst batches p).2 ∨
      Inside kept' (executeBatches d s st multirowFirst batches p).2 := by
  induction batches generalizing p kept with
  | nil => exact ⟨kept, h⟩
  | cons b rest ih =>
      rw [executeBatches]
      split
      · obtain ⟨kept', hbatch⟩ := executeBatch_tracked hd st multirowFirst b h
        dsimp only
        split
        · exact ih hbatch
        · exact ⟨kept', hbatch⟩
      · exact ⟨kept, h⟩

theorem executeBatches_inside (hd : ImplicitTxn d s) (st : BoundStream) (multirowFirst : Bool)
    (batches : List Batch) {p : Progress} (h : Inside kept p) :
    StaysInside d kept (executeBatches d s st multirowFirst batches p).2 := by
  induction batches generalizing p kept with
  | nil => exact h.stays
  | cons b rest ih =>
      have hseen := h.seen
      have hbatch := executeBatch_inside hd st multirowFirst b (.inr h)
        (by omega : 1 < p.seen + b.length)
      rw [executeBatches]
      split
      · dsimp only
        split
        · exact hbatch.then ih
        · exact hbatch
      · exact h.stays

end

/-- A batch without rows that is not an error either. -/
def Batch.isBlank (b : Batch) : Bool := b.valid && decide (b.length = 0)

/-- Whether the stream, from its first row on, has no way to fail after that row
has gone in on its own. -/
def atomicFrom (ends : Bool) : List Batch → Bool
  | [] => true
  | b :: rest =>
      if !b.valid then true
      else if b.length = 0 then atomicFrom ends rest
      else if b.length = 1 then !b.converts 0 || (ends && rest.all Batch.isBlank)
      else true

/-- The stream never gets as far as a batch, or `atomicFrom` holds of its
batches. -/
def AtomicStream (st : BoundStream) : Prop :=
  st.schemaOk = true → st.viewOk = true → atomicFrom st.ends st.batches = true

section

variable {d : Driver} {s : OdbcStatement} {kept : List Nat}

/-- Blank batches and the end of the stream cannot fail. -/
theorem executeBatches_blank (st : BoundStream) (multirowFirst : Bool) (hends : st.ends = true)
    (batches : List Batch) (hblank : batches.all Batch.isBlank = true) {p : Progress}
    (h : Outside kept p) :
    (executeBatches d s st multirowFirst batches p).1 = none ∧
      Outside kept (executeBatches d s st multirowFirst batches p).2 := by
  induction batches generalizing p with
  | nil => exact ⟨by simp [executeBatches, hends], h⟩
  | cons b rest ih =>
      simp only [List.all_cons, Bool.and_eq_true, Batch.isBlank, decide_eq_true_eq] at hblank
      obtain ⟨hnone, hout, -⟩ := executeBatch_empty (d := d) (s := s) st multirowFirst
        hblank.1.2 h
      rw [executeBatches, if_pos hblank.1.1]
      dsimp only
      rw [hnone]
      exact ih (by simpa [Batch.isBlank] using hblank.2) hout

/-- A loop over a stream that meets the condition ends inside the transaction
with nothing committed before it, or outside it with no error or nothing kept. -/
theorem executeBatches_atomic (hd : ImplicitTxn d s) (st : BoundStream) (multirowFirst : Bool)
    (batches : List Batch) (hatomic : atomicFrom st.ends batches = true) {p : Progress}
    (h : Outside [] p) (hseen : p.seen = 0) :
    StaysInside d [] (executeBatches d s st multirowFirst batches p).2 ∨
      ∃ kept', Outside kept' (executeBatches d s st multirowFirst batches p).2 ∧
        ((executeBatches d s st multirowFirst batches p).1 = none ∨ kept' = []) := by
  induction batches generalizing p with
  | nil => exact .inr ⟨[], h, .inr rfl⟩
  | cons b rest ih =>
      rw [executeBatches]
      by_cases hvalid : b.valid = true
      swap
      · rw [if_neg hvalid]
        exact .inr ⟨[], h, .inr rfl⟩
      rw [if_pos hvalid]
      rw [atomicFrom, if_neg (by simp [hvalid])] at hatomic
      dsimp only
      by_cases hempty : b.length = 0
      · rw [if_pos hempty] at hatomic
        obtain ⟨hnone, hout, hseen', -⟩ := executeBatch_empty (d := d) (s := s) st
          multirowFirst hempty h
        rw [hnone]
        exact ih hatomic hout (hseen'.trans hseen)
      rw [if_neg hempty] at hatomic
      by_cases hone : b.length = 1
      · rw [if_pos hone, Bool.or_eq_true, Bool.and_eq_true] at hatomic
        obtain ⟨hstatus, -, hout, -⟩ := executeBatch_first (d := d) (s := s) st multirowFirst
          hone hseen h
        rw [hstatus]
        cases hrun : (bindAndExecuteRow d b p.base 0 p.world).1 with
        | some failure =>
            rw [hrun] at hout
            exact .inr ⟨[], hout, .inr rfl⟩
        | none =>
            have hrest := hatomic.resolve_left fun hconv => by
              simp [bindAndExecuteRow, show b.converts 0 = false by simpa using hconv] at hrun
            obtain ⟨hnone, hout'⟩ := executeBatches_blank (d := d) (s := s) st multirowFirst
              hrest.1 rest hrest.2 hout
            exact .inr ⟨_, hout', .inl hnone⟩
      · have hinside := executeBatch_inside hd st multirowFirst b (.inl h)
          (by omega : 1 < p.seen + b.length)
        split
        · exact .inl (hinside.then fun h => executeBatches_inside hd st multirowFirst rest h)
        · exact .inl hinside

/-! ## Returning -/

theorem finish_outside {status : Option Failure} {p : Progress} (h : Outside kept p) :
    (finish d status p).world.ledger.autocommit = true ∧
      (finish d status p).status = status ∧
      (finish d status p).world.ledger.committed = kept := by
  by_cases hnone : status = none
  · simp [finish, odbcAutoTxnEnd, h.active, h.autocommit, h.committed, hnone]
  · simp [finish, odbcAutoTxnEnd, h.active, h.autocommit, h.committed, hnone]

theorem finish_inside (hd : ImplicitTxn d s) {status : Option Failure} {p : Progress}
    (h : Inside kept p) :
    (finish d status p).world.ledger.autocommit = true ∧
      (status ≠ none → (finish d status p).status ≠ none) ∧
      (RollsBackOnFailure d → (finish d status p).status ≠ none →
        (finish d status p).world.ledger.committed = kept) := by
  by_cases hnone : status = none
  · simp only [finish, h.active, hnone, decide_true, if_true]
    exact ⟨odbcAutoTxnEnd_autocommit hd true p.world, by simp, fun hback hfail =>
      (odbcAutoTxnEnd_commit hd hback p.world hfail).trans h.committed⟩
  · simp only [finish, h.active, hnone, decide_false, if_false]
    exact ⟨odbcAutoTxnEnd_autocommit hd false p.world, fun hstatus => hstatus, fun hback _ =>
      (odbcAutoTxnEnd_rollback hd hback p.world).trans h.committed⟩

theorem start_outside (st : BoundStream) (m : Memory) :
    Outside [] (startProgress s st (fresh true m)) :=
  ⟨Nat.zero_le 1, rfl, rfl, rfl⟩

end

/-! ## Drivers that take rows one at a time -/

/-- No insert form and no array attribute is taken. -/
structure RowsOnly (d : Driver) : Prop where
  prepares : ∀ tick, d.prepares tick = false
  setsAttr : ∀ tick, d.setsAttr tick = false
  allocates : ∀ tick, d.allocates tick = true

/-- No insert form is prepared, and `n` calls are behind us. -/
structure Refused (n : Nat) (p : Progress) : Prop where
  multiRow : p.mr.prepared = none
  arrayIngest : p.ai.rows = none
  late : n ≤ p.world.tick

section

variable {d : Driver} {s : OdbcStatement} {n : Nat}

theorem prepareHalving_refused (hd : RowsOnly d) (form : MultiRowForm) (k : Nat) (w : World) :
    (prepareHalving d form k w).1 = none := by
  induction k, w using prepareHalving.induct d form with
  | case1 k w h prepared hprep =>
      have hno : prepared.1 = false := hd.prepares w.tick
      rw [hno] at hprep
      cases hprep
  | case2 k w h prepared hprep ih =>
      rw [prepareHalving, dif_pos h, if_neg hprep]
      dsimp only
      rw [ih]
      rfl
  | case3 k w h => rw [prepareHalving, dif_neg h]

theorem multiRowSetup_refused (hd : RowsOnly d) (ncols : Nat) (mr : MultiRowInsert) (w : World)
    (h : mr.prepared = none) : (multiRowSetup d s ncols mr w).1.prepared = none := by
  have hfull : ∀ form w', (prepareFull d s ncols form w').1 = none := by
    intro form w'
    simp only [prepareFull, prepareHalving_refused hd]
    split <;> rfl
  unfold multiRowSetup
  split
  · exact h
  · dsimp only
    split
    · exact h
    · split
      · exact h
      · exact hfull _ _

theorem arrayIngestSetup_refused (hd : RowsOnly d) (spellable : Bool) (ai : ArrayIngest)
    (w : World) (h : ai.rows = none) : (arrayIngestSetup d s spellable ai w).1.rows = none := by
  unfold arrayIngestSetup
  dsimp only
  split
  · exact h
  · rw [if_pos (by simp [hd.prepares])]
    exact h

theorem Refused.multiRowSetupPhase (hd : RowsOnly d) (st : BoundStream) (wanted : Bool)
    {p : Progress} (h : Refused n p) : Refused n (multiRowSetupPhase d s st wanted p) := by
  unfold Execute.multiRowSetupPhase
  split
  · have happ := multiRowSetup_quiet d s st.ncols p.mr p.world
    exact ⟨multiRowSetup_refused hd st.ncols p.mr p.world h.multiRow, h.arrayIngest,
      Nat.le_trans h.late happ.tick_le⟩
  · exact h

theorem Refused.openBatch (hd : RowsOnly d) (st : BoundStream) (multirowFirst : Bool) (b : Batch)
    {p : Progress} (h : Refused n p) : Refused n (openBatch d s st multirowFirst b p) := by
  have hmulti := h.multiRowSetupPhase (s := s) hd st (multirowFirst && decide (1 < b.length))
  unfold Execute.openBatch
  dsimp only
  generalize Execute.multiRowSetupPhase d s st
    (multirowFirst && decide (1 < b.length)) p = q at hmulti
  have hset : Refused n (arrayIngestSetupPhase d s st b q) := by
    unfold arrayIngestSetupPhase
    split
    · have happ := arrayIngestSetup_quiet d s st.spellable q.ai q.world
      exact ⟨hmulti.multiRow, arrayIngestSetup_refused hd st.spellable q.ai q.world
        hmulti.arrayIngest, Nat.le_trans hmulti.late happ.tick_le⟩
    · exact hmulti
  generalize arrayIngestSetupPhase d s st b q = q' at hset
  unfold beginPhase
  dsimp only
  split
  · refine ⟨hset.multiRow, hset.arrayIngest, ?_⟩
    have hlate := hset.late
    simp only [Progress.setTxn, odbcAutoTxnBegin]
    split
    · exact hlate
    · unfold setAutocommit
      split
      · exact Nat.le_succ_of_le hlate
      · exact Nat.le_succ_of_le hlate
  · exact ⟨hset.multiRow, hset.arrayIngest, hset.late⟩

/-- Without a form and without array attributes nothing goes in in bulk. -/
theorem Refused.bulkPaths (hd : RowsOnly d) (st : BoundStream) (multirowFirst : Bool) (b : Batch)
    {p : Progress} (h : Refused n p) :
    (bulkPaths d s st multirowFirst b p).1.status = none ∧
      (bulkPaths d s st multirowFirst b p).1.row = 0 ∧
      Refused n (bulkPaths d s st multirowFirst b p).1.progress ∧
      (∃ rows reports, Applies p.world (bulkPaths d s st multirowFirst b p).1.progress.world
        rows reports) ∧
      (bulkPaths d s st multirowFirst b p).1.progress.seen = p.seen ∧
      (bulkPaths d s st multirowFirst b p).1.progress.active = p.active := by
  have hingest : Execute.arrayIngestPhase d s b p = ⟨none, 0, p⟩ := by
    unfold Execute.arrayIngestPhase
    rw [h.arrayIngest]
  have hfirst : Execute.multiRowFirstPhase d s st multirowFirst b ⟨none, 0, p⟩ =
      ⟨none, 0, p⟩ := by
    unfold Execute.multiRowFirstPhase
    simp only [h.multiRow]
  have harray : (Execute.arrayPhase d s b ⟨none, 0, p⟩).1.status = none ∧
      (Execute.arrayPhase d s b ⟨none, 0, p⟩).1.row = 0 ∧
      Refused n (Execute.arrayPhase d s b ⟨none, 0, p⟩).1.progress ∧
      (∃ rows reports, Applies p.world (Execute.arrayPhase d s b ⟨none, 0, p⟩).1.progress.world
        rows reports) ∧
      (Execute.arrayPhase d s b ⟨none, 0, p⟩).1.progress.seen = p.seen ∧
      (Execute.arrayPhase d s b ⟨none, 0, p⟩).1.progress.active = p.active := by
    unfold Execute.arrayPhase
    split
    · obtain ⟨rows, reports, happ⟩ := executeBatchArray_applies d s.opts b p.base
        p.total p.world
      have hstop : (executeBatchArray d s.opts b p.base p.total p.world).status = none ∧
          (executeBatchArray d s.opts b p.base p.total p.world).done = 0 := by
        unfold executeBatchArray
        rw [if_neg (by simp [hd.allocates])]
        dsimp only
        split
        · exact ⟨rfl, rfl⟩
        split
        · exact ⟨rfl, rfl⟩
        · rw [if_neg (by simp [hd.allocates]), if_pos (by simp [hd.setsAttr])]
          exact ⟨rfl, rfl⟩
      exact ⟨hstop.1, hstop.2, ⟨h.multiRow, h.arrayIngest, Nat.le_trans h.late happ.tick_le⟩,
        ⟨rows, reports, happ⟩, rfl, rfl⟩
    · exact ⟨rfl, rfl, h, ⟨[], [], .refl _⟩, rfl, rfl⟩
  simp only [Execute.bulkPaths, hingest, hfirst]
  generalize (Execute.arrayPhase d s b ⟨none, 0, p⟩).1 = ph at harray
  obtain ⟨hstatus, hrow, hrefused, ⟨rows, reports, happ⟩, hseen, hactive⟩ := harray
  unfold Execute.multiRowRestPhase
  split
  · have hset := hrefused.multiRowSetupPhase (s := s) hd st ph.progress.mr.enabled
    have hquiet : Applies ph.progress.world
        (Execute.multiRowSetupPhase d s st ph.progress.mr.enabled ph.progress).world [] [] ∧
        (Execute.multiRowSetupPhase d s st ph.progress.mr.enabled ph.progress).seen =
          ph.progress.seen ∧
        (Execute.multiRowSetupPhase d s st ph.progress.mr.enabled ph.progress).active =
          ph.progress.active := by
      unfold Execute.multiRowSetupPhase
      split
      · exact ⟨multiRowSetup_quiet d s st.ncols _ _, rfl, rfl⟩
      · exact ⟨.refl _, rfl, rfl⟩
    dsimp only
    rw [hset.multiRow]
    exact ⟨hstatus, hrow, hset, ⟨rows, reports, happ.then_quiet hquiet.1⟩,
      hquiet.2.1.trans hseen, hquiet.2.2.trans hactive⟩
  · exact ⟨hstatus, hrow, hrefused, ⟨rows, reports, happ⟩, hseen, hactive⟩

/-- The transaction goes on: rows are applied, and no form is prepared. -/
structure GoesOn (p p' : Progress) : Prop where
  applies : ∃ rows reports, Applies p.world p'.world rows reports
  active : p'.active = p.active
  refused : Refused n p → Refused n p'

theorem GoesOn.trans {p p' p'' : Progress} (h : GoesOn (n := n) p p')
    (h' : GoesOn (n := n) p' p'') : GoesOn (n := n) p p'' := by
  obtain ⟨rows, reports, happ⟩ := h.applies
  obtain ⟨rows', reports', happ'⟩ := h'.applies
  exact ⟨⟨_, _, happ.trans happ'⟩, h'.active.trans h.active, fun hp => h'.refused (h.refused hp)⟩

theorem rowsPhase_goesOn (b : Batch) (rows : List Nat) (ph : Phase) :
    GoesOn (n := n) ph.progress (rowsPhase d b rows ph).progress := by
  unfold Execute.rowsPhase
  split
  · obtain ⟨done, -, happ, -, -⟩ := executeEach_applies d b ph.progress.base rows
      ph.progress.total ph.progress.world
    exact ⟨⟨_, _, happ⟩, rfl, fun h => ⟨h.multiRow, h.arrayIngest,
      Nat.le_trans h.late happ.tick_le⟩⟩
  · exact ⟨⟨[], [], .refl _⟩, rfl, fun h => h⟩

/-- What the batch counts beside its rows changes nothing of that. -/
theorem GoesOn.counted {p p' q : Progress} (h : GoesOn (n := n) p p')
    (hmr : q.mr = p'.mr) (hai : q.ai = p'.ai) (hactive : q.active = p'.active)
    (hworld : q.world = p'.world) : GoesOn (n := n) p q := by
  obtain ⟨rows, reports, happ⟩ := h.applies
  refine ⟨⟨rows, reports, hworld ▸ happ⟩, hactive.trans h.active, fun hp => ?_⟩
  obtain ⟨hmulti, hingest, hlate⟩ := h.refused hp
  exact ⟨hmr ▸ hmulti, hai ▸ hingest, hworld ▸ hlate⟩

/-- In an open transaction a batch goes on with it. -/
theorem executeBatch_goesOn (hd : RowsOnly d) (st : BoundStream) (multirowFirst : Bool)
    (b : Batch) {p : Progress} (h : Refused n p) (hactive : p.active = true) :
    GoesOn (n := n) p (executeBatch d s st multirowFirst b p).2 := by
  have hopen : GoesOn (n := n) p (openBatch d s st multirowFirst b p) := by
    obtain ⟨happ, -, hsame⟩ := setups_applies (d := d) (s := s) st
      (multirowFirst && decide (1 < b.length)) b p
    have hrefused := h.openBatch (s := s) hd st multirowFirst b
    unfold Execute.openBatch at hrefused ⊢
    dsimp only at hrefused ⊢
    generalize arrayIngestSetupPhase d s st b (Execute.multiRowSetupPhase d s st
      (multirowFirst && decide (1 < b.length)) p) = q at happ hsame hrefused
    have hbegin : odbcAutoTxnBegin d s q.active q.world = (q.active, q.world) := by
      simp [odbcAutoTxnBegin, hsame, hactive]
    have hworld : (beginPhase d s b q).world = q.world ∧
        (beginPhase d s b q).active = q.active := by
      unfold beginPhase
      dsimp only
      rw [hbegin]
      split
      · exact ⟨rfl, rfl⟩
      · exact ⟨rfl, rfl⟩
    exact ⟨⟨[], [], hworld.1 ▸ happ⟩, hworld.2.trans hsame, fun _ => hrefused⟩
  obtain ⟨-, -, hrefused, hrows, -, hsame⟩ :=
    (hopen.refused h).bulkPaths (s := s) hd st multirowFirst b
  refine (hopen.trans ⟨hrows, hsame, fun _ => hrefused⟩).trans ?_
  unfold Execute.executeBatch
  generalize Execute.bulkPaths d s st multirowFirst b
    (Execute.openBatch d s st multirowFirst b p) = bulk
  have hmarked : GoesOn (n := n) bulk.1.progress (markApplied bulk.1).progress :=
    GoesOn.counted ⟨⟨[], [], .refl _⟩, rfl, fun hp => hp⟩ rfl rfl rfl rfl
  exact ((hmarked.trans (rowsPhase_goesOn b _ _)).trans (rowsPhase_goesOn b bulk.2 _)).counted
    rfl rfl rfl rfl

/-- The transaction is open and holds a row. -/
structure HoldsRow (p : Progress) : Prop where
  refused : Refused 0 p
  active : p.active = true
  suspended : p.world.ledger.autocommit = false
  pending : p.world.ledger.pending ≠ []

theorem HoldsRow.goesOn {p p' : Progress} (h : HoldsRow p) (hstep : GoesOn (n := 0) p p') :
    HoldsRow p' := by
  obtain ⟨⟨rows, reports, happ⟩, hactive, hrefused⟩ := hstep
  refine ⟨hrefused h.refused, hactive.trans h.active, happ.autocommit.trans h.suspended, ?_⟩
  have hpending : p'.world.ledger.pending = p.world.ledger.pending ++ rows := by
    rw [happ.ledger]
    simp [Ledger.apply, h.suspended]
  rw [hpending]
  exact List.append_ne_nil_of_left_ne_nil h.pending rows

theorem HoldsRow.executeBatches (hd : RowsOnly d) (st : BoundStream) (multirowFirst : Bool)
    (batches : List Batch) {p : Progress} (h : HoldsRow p) :
    HoldsRow (executeBatches d s st multirowFirst batches p).2 := by
  induction batches generalizing p with
  | nil => exact h
  | cons b rest ih =>
      have hbatch :=
        h.goesOn (executeBatch_goesOn (s := s) hd st multirowFirst b h.refused h.active)
      rw [Execute.executeBatches]
      split
      · dsimp only
        split
        · exact ih hbatch
        · exact hbatch
      · exact h

/-! ## A driver that leaves the transaction open -/

/-- Every row goes in one at a time, and every `SQLEndTran` fails and leaves the transaction
open. -/
def leavesOpen : Driver where
  serverOk := fun _ => true
  prepares := fun _ => false
  setsAttr := fun _ => false
  binds := fun _ => true
  executes := fun _ => true
  arrayAnswer := fun _ _ => ⟨.error, 0, fun _ => .unused, -1, [], fun _ => false⟩
  rowCount := fun _ => 1
  allocates := fun _ => true
  switches := fun _ => true
  endsTran := fun _ => false
  rollsBack := fun _ => false

theorem leavesOpen_implicit {s : OdbcStatement} (hc : s.connected = true)
    (ha : s.autocommit = true) (ht : s.opts.txnCapable = true) :
    ImplicitTxn leavesOpen s := ⟨fun _ => rfl, hc, ha, ht⟩

theorem leavesOpen_rowsOnly : RowsOnly leavesOpen := ⟨fun _ => rfl, fun _ => rfl, fun _ => rfl⟩

/-- The switch back to autocommit commits the row, and the failure is returned. -/
theorem HoldsRow.finish {p : Progress} (h : HoldsRow p) (status : Option Failure) :
    (finish leavesOpen status p).status ≠ none ∧
      (finish leavesOpen status p).world.ledger.committed ≠ [] := by
  have hended (commit : Bool) : (odbcAutoTxnEnd leavesOpen true commit p.world).2.ledger.committed =
      p.world.ledger.committed ++ p.world.ledger.pending := by
    simp [odbcAutoTxnEnd, endTran, setAutocommit, leavesOpen, Ledger.resume]
  have hkept := List.append_ne_nil_of_right_ne_nil p.world.ledger.committed h.pending
  unfold Execute.finish
  rw [h.active]
  refine ⟨?_, by rw [hended]; exact hkept⟩
  by_cases hnone : status = none
  · simp [hnone, odbcAutoTxnEnd, endTran, leavesOpen]
  · simp [hnone]

/-- The first row of the batch that opens the transaction goes in. -/
theorem executeBatch_holdsRow (hd : ImplicitTxn leavesOpen s) (st : BoundStream)
    (multirowFirst : Bool) {b : Batch} {p : Progress} (h : Outside [] p) (hrefused : Refused 0 p)
    (hlen : 1 < b.length) (hconverts : b.converts 0 = true) :
    HoldsRow (executeBatch leavesOpen s st multirowFirst b p).2 := by
  have hinside := openBatch_inside hd st multirowFirst b (.inl h) (by omega)
  obtain ⟨hstatus, hrow, hrefused', ⟨rows, reports, happ⟩, -, hsame⟩ :=
    (hrefused.openBatch (s := s) leavesOpen_rowsOnly st multirowFirst b).bulkPaths (s := s)
      leavesOpen_rowsOnly st multirowFirst b
  have hactive := hsame.trans hinside.active
  have hsuspended := happ.autocommit.trans hinside.suspended
  unfold Execute.executeBatch
  generalize Execute.bulkPaths leavesOpen s st multirowFirst b
    (Execute.openBatch leavesOpen s st multirowFirst b p) = bulk at *
  have hfirst : HoldsRow (Execute.rowsPhase leavesOpen b
      (List.range' (markApplied bulk.1).row (b.length - (markApplied bulk.1).row))
      (markApplied bulk.1)).progress := by
    obtain ⟨k, hk⟩ : ∃ k, b.length = k + 1 := ⟨b.length - 1, by omega⟩
    have hrange : List.range' (markApplied bulk.1).row (b.length - (markApplied bulk.1).row) =
        0 :: List.range' 1 k := by
      rw [show (markApplied bulk.1).row = 0 from hrow, Nat.sub_zero, hk, List.range'_succ]
    have hgoes := rowsPhase_goesOn (d := leavesOpen) (n := 0) b
      (List.range' (markApplied bulk.1).row (b.length - (markApplied bulk.1).row))
      (markApplied bulk.1)
    refine ⟨hgoes.refused ⟨hrefused'.multiRow, hrefused'.arrayIngest, Nat.zero_le _⟩,
      hgoes.active.trans hactive, ?_, ?_⟩
    · obtain ⟨rows', reports', happ'⟩ := hgoes.applies
      exact happ'.autocommit.trans hsuspended
    · have hone (w : World) : bindAndExecuteRow leavesOpen b bulk.1.progress.base 0 w =
          (none, (w.apply [bulk.1.progress.base + 0]).next) := by
        simp [bindAndExecuteRow, leavesOpen, hconverts]
      rw [hrange, Execute.rowsPhase, if_pos (show (markApplied bulk.1).status = none from hstatus)]
      show (executeEach leavesOpen b bulk.1.progress.base (0 :: List.range' 1 k)
        bulk.1.progress.total bulk.1.progress.world).world.ledger.pending ≠ []
      rw [executeEach, hone]
      dsimp only
      obtain ⟨done, -, happ', -, -⟩ := executeEach_applies leavesOpen b bulk.1.progress.base
        (List.range' 1 k) (bulk.1.progress.total + max (leavesOpen.rowCount
          (bulk.1.progress.world.apply [bulk.1.progress.base + 0]).next.tick) 0)
        (bulk.1.progress.world.apply [bulk.1.progress.base + 0]).next
      rw [happ'.ledger]
      simp [Ledger.apply, hsuspended]
  exact hfirst.goesOn ((rowsPhase_goesOn b bulk.2 _).counted rfl rfl rfl rfl)

end

/-- The first row of the stream that is not alone in its batch can be sent. -/
def opensWithRow : List Batch → Bool
  | [] => false
  | b :: rest =>
      if !b.valid then false
      else if b.length = 0 then opensWithRow rest
      else decide (1 < b.length) && b.converts 0

/-- The stream gets as far as its first row, which opens the transaction together with others and
can be sent. -/
def OpensWithRow (st : BoundStream) : Prop :=
  st.schemaOk = true ∧ st.viewOk = true ∧ opensWithRow st.batches = true

section

variable {s : OdbcStatement}

theorem executeBatches_holdsRow (hd : ImplicitTxn leavesOpen s) (st : BoundStream)
    (multirowFirst : Bool) (batches : List Batch) (hopens : opensWithRow batches = true)
    {p : Progress} (h : Outside [] p) (hrefused : Refused 0 p) :
    HoldsRow (executeBatches leavesOpen s st multirowFirst batches p).2 := by
  induction batches generalizing p with
  | nil => cases hopens
  | cons b rest ih =>
      rw [opensWithRow] at hopens
      by_cases hvalid : b.valid = true
      swap
      · simp [hvalid] at hopens
      rw [if_neg (by simp [hvalid])] at hopens
      rw [executeBatches, if_pos hvalid]
      dsimp only
      by_cases hempty : b.length = 0
      · rw [if_pos hempty] at hopens
        obtain ⟨hnone, hout, -, -, hmr, hai⟩ :=
          executeBatch_empty (d := leavesOpen) (s := s) st multirowFirst hempty h
        rw [hnone]
        exact ih hopens hout ⟨by rw [hmr, hrefused.multiRow], by rw [hai, hrefused.arrayIngest],
          Nat.zero_le _⟩
      · rw [if_neg hempty, Bool.and_eq_true, decide_eq_true_eq] at hopens
        have hholds := executeBatch_holdsRow hd st multirowFirst h hrefused hopens.1 hopens.2
        split
        · exact hholds.executeBatches leavesOpen_rowsOnly st multirowFirst rest
        · exact hholds

/-! ## A driver that takes one row and refuses the rest -/

/-- The first execute of the run goes in; after it every execute is refused, and
so is every prepare and every array attribute. -/
def firstRowOnly : Driver where
  serverOk := fun _ => true
  prepares := fun _ => false
  setsAttr := fun _ => false
  binds := fun _ => true
  executes := fun tick => decide (tick = 0)
  arrayAnswer := fun _ _ => ⟨.error, 0, fun _ => .unused, -1, [], fun _ => false⟩
  rowCount := fun _ => 1
  allocates := fun _ => true
  switches := fun _ => true
  endsTran := fun _ => true
  rollsBack := fun _ => true

theorem firstRowOnly_implicit {s : OdbcStatement} (hc : s.connected = true)
    (ha : s.autocommit = true) (ht : s.opts.txnCapable = true) :
    ImplicitTxn firstRowOnly s := ⟨fun _ => rfl, hc, ha, ht⟩

theorem firstRowOnly_rollsBack : RollsBackOnFailure firstRowOnly := fun _ _ => rfl

theorem firstRowOnly_rowsOnly : RowsOnly firstRowOnly := ⟨fun _ => rfl, fun _ => rfl, fun _ => rfl⟩

/-- Once the first execute is behind us, no row goes in any more. -/
theorem executeEach_refused (b : Batch) (base : Nat) {rows : List Nat} (total : Int) {w : World}
    (hlate : 0 < w.tick) (hrows : rows ≠ []) :
    (executeEach firstRowOnly b base rows total w).status ≠ none := by
  cases rows with
  | nil => exact absurd rfl hrows
  | cons row rest =>
      have hno : firstRowOnly.executes w.tick = false := by
        simp only [firstRowOnly, decide_eq_false_iff_not]
        omega
      have hfail : (bindAndExecuteRow firstRowOnly b base row w).1 ≠ none := by
        unfold bindAndExecuteRow
        split
        · simp
        split
        · simp
        · rw [if_pos (by simp [hno])]
          simp
      rw [executeEach]
      dsimp only
      split
      · simp
      · rename_i hnone
        exact absurd hnone hfail

/-- A later batch with a row in it fails. -/
theorem executeBatch_refused (st : BoundStream) (multirowFirst : Bool) {b : Batch}
    {p : Progress} (h : Refused 1 p) (hlen : b.length ≠ 0) :
    (executeBatch firstRowOnly s st multirowFirst b p).1 ≠ none := by
  obtain ⟨hstatus, hrow, hrefused, -⟩ :=
    (h.openBatch (s := s) firstRowOnly_rowsOnly st multirowFirst b).bulkPaths (s := s)
      firstRowOnly_rowsOnly st multirowFirst b
  generalize hbulk : Execute.bulkPaths firstRowOnly s st multirowFirst b
    (Execute.openBatch firstRowOnly s st multirowFirst b p) = bulk at *
  have hrows : (Execute.rowsPhase firstRowOnly b
      (List.range' (markApplied bulk.1).row (b.length - (markApplied bulk.1).row))
      (markApplied bulk.1)).status ≠ none := by
    rw [Execute.rowsPhase, if_pos (show (markApplied bulk.1).status = none from hstatus)]
    apply executeEach_refused
    · exact hrefused.late
    · simp only [markApplied, hrow, Nat.sub_zero, ne_eq, List.range'_eq_nil_iff]
      exact hlen
  simp only [executeBatch, hbulk, Execute.rowPaths]
  rw [Execute.rowsPhase, if_neg hrows]
  exact hrows

/-- After a first row on its own, a stream that can fail does. -/
theorem executeBatches_refused (hd : ImplicitTxn firstRowOnly s) (st : BoundStream)
    (multirowFirst : Bool) (batches : List Batch)
    (hmore : (st.ends && batches.all Batch.isBlank) = false) {kept : List Nat} {p : Progress}
    (h : Outside kept p) (hseen : p.seen = 1) (hrefused : Refused 1 p) :
    (executeBatches firstRowOnly s st multirowFirst batches p).1 ≠ none ∧
      (Outside kept (executeBatches firstRowOnly s st multirowFirst batches p).2 ∨
        Inside kept (executeBatches firstRowOnly s st multirowFirst batches p).2) := by
  induction batches generalizing p with
  | nil =>
      have hends : st.ends = false := by simpa using hmore
      exact ⟨by simp [executeBatches, hends], .inl h⟩
  | cons b rest ih =>
      rw [executeBatches]
      by_cases hvalid : b.valid = true
      swap
      · rw [if_neg hvalid]
        exact ⟨by simp, .inl h⟩
      rw [if_pos hvalid]
      dsimp only
      by_cases hempty : b.length = 0
      · obtain ⟨hnone, hout, hseen', hworld, hmr, hai⟩ :=
          executeBatch_empty (d := firstRowOnly) (s := s) st multirowFirst hempty h
        rw [hnone]
        refine ih ?_ hout (hseen'.trans hseen) ⟨?_, ?_, ?_⟩
        · simpa [Batch.isBlank, hvalid, hempty] using hmore
        · rw [hmr, hrefused.multiRow]
        · rw [hai, hrefused.arrayIngest]
        · rw [hworld]
          exact hrefused.late
      · have hfail := executeBatch_refused (s := s) st multirowFirst hrefused hempty
        obtain ⟨kept', hinside, hsame⟩ := executeBatch_inside hd st multirowFirst b (.inl h)
          (by omega : 1 < p.seen + b.length)
        rw [hsame firstRowOnly_rollsBack] at hinside
        split
        · rename_i hnone
          exact absurd hnone hfail
        · exact ⟨by simp, .inr hinside⟩

/-- On a stream that does not meet the condition this driver leaves a row behind. -/
theorem executeBatches_leaves (hd : ImplicitTxn firstRowOnly s) (st : BoundStream)
    (multirowFirst : Bool) (batches : List Batch) (hfalse : atomicFrom st.ends batches = false)
    {p : Progress} (h : Outside [] p) (hseen : p.seen = 0) (hmr : p.mr.prepared = none)
    (hai : p.ai.rows = none) (htick : p.world.tick = 0) :
    (executeBatches firstRowOnly s st multirowFirst batches p).1 ≠ none ∧
      ∃ row, Outside [row] (executeBatches firstRowOnly s st multirowFirst batches p).2 ∨
        Inside [row] (executeBatches firstRowOnly s st multirowFirst batches p).2 := by
  induction batches generalizing p with
  | nil => simp [atomicFrom] at hfalse
  | cons b rest ih =>
      rw [atomicFrom] at hfalse
      by_cases hvalid : b.valid = true
      swap
      · simp [hvalid] at hfalse
      rw [if_neg (by simp [hvalid])] at hfalse
      rw [executeBatches, if_pos hvalid]
      dsimp only
      by_cases hempty : b.length = 0
      · rw [if_pos hempty] at hfalse
        obtain ⟨hnone, hout, hseen', hworld, hmr', hai'⟩ :=
          executeBatch_empty (d := firstRowOnly) (s := s) st multirowFirst hempty h
        rw [hnone]
        exact ih hfalse hout (hseen'.trans hseen) (by rw [hmr', hmr]) (by rw [hai', hai])
          (by rw [hworld, htick])
      rw [if_neg hempty] at hfalse
      by_cases hone : b.length = 1
      swap
      · simp [hone] at hfalse
      rw [if_pos hone, Bool.or_eq_false_iff] at hfalse
      have hrun : bindAndExecuteRow firstRowOnly b p.base 0 p.world =
          (none, (p.world.apply [p.base + 0]).next) := by
        simp [bindAndExecuteRow, firstRowOnly, htick, by simpa using hfalse.1]
      obtain ⟨hstatus, hworld, hout, hmr', hai'⟩ :=
        executeBatch_first (d := firstRowOnly) (s := s) st multirowFirst hone hseen h
      rw [hrun] at hstatus hworld hout
      rw [hstatus]
      obtain ⟨hsmall, -, hseen', -⟩ := executeBatch_small (d := firstRowOnly) (s := s) st
        multirowFirst (by omega : b.length ≤ 1) (by omega : p.seen + b.length ≤ 1)
      obtain ⟨hfail, hkept⟩ := executeBatches_refused hd st multirowFirst rest hfalse.2 hout
        (by omega) ⟨by rw [hmr', hmr], by rw [hai', hai], by rw [hworld]; exact Nat.le_add_left _ _⟩
      exact ⟨hfail, p.base, hkept⟩

end

/-! ## Which streams can fail with a row left behind -/

/-- A failed run leaves no committed row. -/
def LeavesNone (d : Driver) (s : OdbcStatement) (st : BoundStream) (m : Memory) : Prop :=
  (executeRows d s st (fresh true m)).status ≠ none →
    (executeRows d s st (fresh true m)).world.ledger.committed = []

theorem executeRows_autocommit {d : Driver} {s : OdbcStatement} (hd : ImplicitTxn d s)
    (st : BoundStream) (m : Memory) :
    (executeRows d s st (fresh true m)).world.ledger.autocommit = true := by
  unfold executeRows
  split
  · rfl
  split
  · rfl
  · obtain ⟨kept, hout | hin⟩ := executeBatches_tracked hd st (multirowFirst s st) st.batches
      (.inl (start_outside st m))
    · exact (finish_outside hout).1
    · exact (finish_inside hd hin).1

/-- A driver that rolls back where `SQLEndTran` fails leaves no row of a stream that meets the
condition. -/
theorem leavesNone_of_atomic {d : Driver} {s : OdbcStatement} (hd : ImplicitTxn d s)
    (hback : RollsBackOnFailure d) {st : BoundStream} (hatomic : AtomicStream st) (m : Memory) :
    LeavesNone d s st m := by
  unfold LeavesNone executeRows
  split
  · exact fun _ => rfl
  split
  · exact fun _ => rfl
  · rename_i hschema hview
    have hfrom := hatomic (by simpa using hschema) (by simpa using hview)
    rcases executeBatches_atomic hd st (multirowFirst s st) st.batches hfrom
      (start_outside st m) rfl with ⟨kept, hin, hsame⟩ | ⟨kept, hout, hsafe⟩
    · rw [hsame hback] at hin
      exact (finish_inside hd hin).2.2 hback
    · obtain ⟨-, hstatus, hcommitted⟩ := finish_outside (d := d) hout
      intro hfail
      rw [hstatus] at hfail
      rw [hcommitted]
      exact hsafe.resolve_left hfail

/-- On a connection in autocommit mode that can do transactions, every driver that takes the
switches leaves the connection in autocommit mode.  No driver that also rolls back where
`SQLEndTran` fails leaves a committed row after an error if and only if the stream meets the
condition; and if its first row can be sent inside the transaction, a driver that leaves the
transaction open there does. -/
theorem failed_leaves_none_iff (s : OdbcStatement) (st : BoundStream) (m : Memory)
    (hconnected : s.connected = true) (hautocommit : s.autocommit = true)
    (hcapable : s.opts.txnCapable = true) :
    (∀ d, AcceptsAutocommit d →
      (executeRows d s st (fresh true m)).world.ledger.autocommit = true) ∧
    ((∀ d, AcceptsAutocommit d → RollsBackOnFailure d → LeavesNone d s st m) ↔
      AtomicStream st) ∧
    (OpensWithRow st → ∃ d, AcceptsAutocommit d ∧ ¬ LeavesNone d s st m) := by
  have hstart := start_outside (s := s) st m
  refine ⟨fun d ha => executeRows_autocommit ⟨ha, hconnected, hautocommit, hcapable⟩ st m,
    ⟨?_, fun hatomic d ha hback =>
      leavesNone_of_atomic ⟨ha, hconnected, hautocommit, hcapable⟩ hback hatomic m⟩, ?_⟩
  · intro hall hschema hview
    by_contra hfalse
    have hd := firstRowOnly_implicit hconnected hautocommit hcapable
    obtain ⟨hfail, row, hkept⟩ := executeBatches_leaves hd st (multirowFirst s st) st.batches
      (by simpa using hfalse) hstart rfl rfl rfl rfl
    have hnone := hall firstRowOnly hd.accepts firstRowOnly_rollsBack
    unfold LeavesNone executeRows at hnone
    rw [if_neg (by simp [hschema]), if_neg (by simp [hview])] at hnone
    rcases hkept with hout | hin
    · obtain ⟨-, hstatus, hcommitted⟩ := finish_outside (d := firstRowOnly) hout
      have := hnone (by rw [hstatus]; exact hfail)
      rw [hcommitted] at this
      exact List.cons_ne_nil _ _ this
    · obtain ⟨-, hstatus, hcommitted⟩ := finish_inside hd hin
      have := hnone (hstatus hfail)
      rw [hcommitted firstRowOnly_rollsBack (hstatus hfail)] at this
      exact List.cons_ne_nil _ _ this
  · intro hopens
    obtain ⟨hschema, hview, hbatches⟩ := hopens
    have hd := leavesOpen_implicit hconnected hautocommit hcapable
    have hholds := executeBatches_holdsRow hd st (multirowFirst s st) st.batches hbatches hstart
      ⟨rfl, rfl, Nat.zero_le _⟩
    obtain ⟨hfail, hcommitted⟩ := hholds.finish
      (executeBatches leavesOpen s st (multirowFirst s st) st.batches
        (startProgress s st (fresh true m))).1
    refine ⟨leavesOpen, hd.accepts, fun hnone => hcommitted ?_⟩
    unfold LeavesNone executeRows at hnone
    rw [if_neg (by simp [hschema]), if_neg (by simp [hview])] at hnone
    exact hnone hfail

/-- A stream of three rows in one batch. -/
theorem failed_leaves_none_three :
    (∀ d, AcceptsAutocommit d →
      (executeRows d {} { batches := [{ length := 3 }] } (fresh true {})).world.ledger.autocommit =
        true) ∧
    ((∀ d, AcceptsAutocommit d → RollsBackOnFailure d →
      LeavesNone d {} { batches := [{ length := 3 }] } {}) ↔
        AtomicStream { batches := [{ length := 3 }] }) ∧
    (OpensWithRow { batches := [{ length := 3 }] } →
      ∃ d, AcceptsAutocommit d ∧ ¬ LeavesNone d {} { batches := [{ length := 3 }] } {}) :=
  failed_leaves_none_iff {} { batches := [{ length := 3 }] } {} rfl rfl rfl

/-- A first batch of one row and a second row that the driver refuses: the first
row stays committed. -/
theorem first_row_stays :
    ¬ ∀ (d : Driver) (s : OdbcStatement) (st : BoundStream) (m : Memory),
      AcceptsAutocommit d → s.connected = true → s.autocommit = true →
      s.opts.txnCapable = true → LeavesNone d s st m := by
  intro hclaim
  have hd : ImplicitTxn firstRowOnly {} := firstRowOnly_implicit rfl rfl rfl
  have hnone := hclaim firstRowOnly {} { batches := [{ length := 1 }, { length := 1 }] } {}
    hd.accepts rfl rfl rfl (by decide)
  exact absurd hnone (by decide)

end AdbcBridge.Bind.Atomic
