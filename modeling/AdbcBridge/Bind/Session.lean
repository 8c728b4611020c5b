import AdbcBridge.Lib.Ledger

/-!
# The statement, the driver and the implicit transaction of a bound execution

A driver is what it answers at every moment: each call reads the answer standing
at the current tick and moves the clock on, so a driver ranges over every
sequence of responses.  The world of a run is that clock, the connection's
ledger of applied rows (a row is named by its position in the bound stream), the
reports of the parameter-array executes, and what the connection remembers about
the insert forms its server took.
-/

namespace AdbcBridge.Bind.Session

open AdbcBridge.Lib

/-- An error status with the call or the message it comes from. -/
inductive Failure where
  | getSchema
  | initView
  | getNext
  | invalidBatch
  | outOfMemory
  | convert
  | bindParameter
  | execute
  | unaccounted (sets : Nat)
  | endTran
deriving DecidableEq, Repr

inductive SqlReturn where
  | success
  | successWithInfo
  | noData
  | error
deriving DecidableEq, Repr

/-- An element of the array behind `SQL_ATTR_PARAM_STATUS_PTR`. -/
inductive ParamStatus where
  | success
  | successWithInfo
  | error
  | unused
  | diagUnavailable
deriving DecidableEq, Repr

/-- `SQL_PARAM_SUCCESS` and `SQL_PARAM_SUCCESS_WITH_INFO`. -/
def ParamStatus.succeeded : ParamStatus → Bool
  | success | successWithInfo => true
  | _ => false

/-- A driver's answer to the execute of a parameter array.  `lands` is what the
database took, which the code never sees; the rest is what the driver reports of
it: the processed count, the status of each set and the row counts that
`SQLRowCount` and then `SQLMoreResults` give. -/
structure ArrayAnswer where
  ret : SqlReturn
  processed : Int
  status : Nat → ParamStatus
  rowCount : Int
  moreResults : List Int
  lands : Nat → Bool

/-- What the driver, the server and the allocator answer at every tick; the answer
to a parameter array also depends on the number of its sets. -/
structure Driver where
  serverOk : Nat → Bool
  prepares : Nat → Bool
  setsAttr : Nat → Bool
  binds : Nat → Bool
  executes : Nat → Bool
  arrayAnswer : Nat → Nat → ArrayAnswer
  rowCount : Nat → Int
  allocates : Nat → Bool
  switches : Nat → Bool
  endsTran : Nat → Bool
  rollsBack : Nat → Bool

/-- A row-group form of the multi-row insert (`enum OdbcMultiRowForm`). -/
inductive MultiRowForm where
  | values
  | insertAll
  | union
deriving DecidableEq, Repr

/-- What a multi-row INSERT asks for: a statement of so many row-groups (`MultiRowPrepare`), its
parameter slots, a slot filled with a cell (`SlotFromArrow`), and a slot bound by an ordinal
(`SQLBindParameter`). -/
inductive MultiRowCall where
  | prepare (form : MultiRowForm) (rows : Nat)
  | allocate (slots : Nat)
  | fill (slot : Nat)
  | bind (slot : Nat) (ordinal : BitVec 16)
deriving DecidableEq, Repr

/-- What an `OdbcConnection` remembers from one ingest to the next. -/
structure Memory where
  multirowProbed : Bool := false
  multirowUnsupported : Bool := false
  multirowForm : MultiRowForm := .values
  multirowMaxParams : Nat := 0
  arrayIngestProbed : Bool := false
  arrayIngestUnsupported : Bool := false
deriving DecidableEq, Repr

structure Options where
  txnCapable : Bool := true
  preferParamArrays : Bool := false
  noBatchRowCounts : Bool := false
  pgArrayIngest : Bool := false
  multirowInsertAll : Bool := false
  multirowUnionFrom : Option String := none
  maxStatementParams : Nat := 0
  maxStatementLen : Nat := 0
deriving DecidableEq, Repr

/-- The statement's own settings.  `castTypes` is the answer of
`MultiRowCastTypes` for the bound schema and `slotBytes` is
`sizeof(struct ParamSlot)`. -/
structure OdbcStatement where
  arrayBinding : Bool := true
  ingestInto : Option String := none
  rowsPerInsert : Nat := 0
  connected : Bool := true
  autocommit : Bool := true
  opts : Options := {}
  castTypes : Option (List String) := none
  slotBytes : Nat := 256
deriving DecidableEq, Repr

/-- A bound batch as the execution paths see it: whether it passes
`ArrowArrayViewSetArray`, which rows `SlotFromArrow` converts and the column it
stops at in the others, what `ArrayParamPlan` makes of its columns (`per_row`, or
a refusal), which chunks `ArrayParamFill` fills, and how many of the rows on offer
`ArrayIngestFillColumn` can spell. -/
structure Batch where
  length : Nat
  valid : Bool := true
  converts : Nat → Bool := fun _ => true
  stopsAt : Nat → Nat := fun _ => 0
  arrayPlan : Option Nat := some 8
  fills : Nat → Nat → Bool := fun _ _ => true
  renders : Nat → Nat → Bool := fun _ _ => true
  fit : Nat → Nat → Nat := fun _ n => n

/-- One parameter-array execute the driver answered as a success. -/
structure Report where
  sets : Nat
  answer : ArrayAnswer

structure World where
  tick : Nat
  ledger : Ledger Nat
  reports : List Report
  memory : Memory
  calls : List MultiRowCall

namespace World

/-- The driver has answered once more. -/
def next (w : World) : World := { w with tick := w.tick + 1 }

/-- An execute applied these rows. -/
def apply (w : World) (rows : List Nat) : World := { w with ledger := w.ledger.apply rows }

def setLedger (w : World) (l : Ledger Nat) : World := { w with ledger := l }

def setMemory (w : World) (m : Memory) : World := { w with memory := m }

def report (w : World) (r : Report) : World := { w with reports := w.reports ++ [r] }

def call (w : World) (c : MultiRowCall) : World := { w with calls := w.calls ++ [c] }

@[simp] theorem next_tick (w : World) : w.next.tick = w.tick + 1 := rfl
@[simp] theorem next_ledger (w : World) : w.next.ledger = w.ledger := rfl
@[simp] theorem next_reports (w : World) : w.next.reports = w.reports := rfl
@[simp] theorem apply_ledger (w : World) (rows : List Nat) :
    (w.apply rows).ledger = w.ledger.apply rows := rfl
@[simp] theorem apply_reports (w : World) (rows : List Nat) :
    (w.apply rows).reports = w.reports := rfl
@[simp] theorem setLedger_ledger (w : World) (l : Ledger Nat) : (w.setLedger l).ledger = l := rfl
@[simp] theorem setLedger_reports (w : World) (l : Ledger Nat) :
    (w.setLedger l).reports = w.reports := rfl
@[simp] theorem setMemory_ledger (w : World) (m : Memory) :
    (w.setMemory m).ledger = w.ledger := rfl
@[simp] theorem setMemory_reports (w : World) (m : Memory) :
    (w.setMemory m).reports = w.reports := rfl
@[simp] theorem call_tick (w : World) (c : MultiRowCall) : (w.call c).tick = w.tick := rfl
@[simp] theorem call_ledger (w : World) (c : MultiRowCall) : (w.call c).ledger = w.ledger := rfl
@[simp] theorem call_reports (w : World) (c : MultiRowCall) :
    (w.call c).reports = w.reports := rfl
@[simp] theorem report_ledger (w : World) (r : Report) : (w.report r).ledger = w.ledger := rfl
@[simp] theorem report_reports (w : World) (r : Report) :
    (w.report r).reports = w.reports ++ [r] := rfl

end World

/-- From `w` to `w'` exactly these rows were applied and these reports came in;
the clock went on and the transaction was left alone. -/
structure Applies (w w' : World) (rows : List Nat) (reports : List Report) : Prop where
  ledger : w'.ledger = w.ledger.apply rows
  reports : w'.reports = w.reports ++ reports
  tick_le : w.tick ≤ w'.tick

namespace Applies

variable {w w' w'' : World} {rows rows' : List Nat} {reports reports' : List Report}

/-- Calls that touch neither the ledger nor the reports apply nothing. -/
theorem quiet (hl : w'.ledger = w.ledger) (hr : w'.reports = w.reports)
    (ht : w.tick ≤ w'.tick) : Applies w w' [] [] := ⟨by simp [hl], by simp [hr], ht⟩

theorem refl (w : World) : Applies w w [] [] := quiet rfl rfl (Nat.le_refl _)

theorem next (w : World) : Applies w w.next [] [] := quiet rfl rfl (Nat.le_succ _)

theorem memory (w : World) (m : Memory) : Applies w (w.setMemory m) [] [] :=
  quiet rfl rfl (Nat.le_refl _)

theorem call (w : World) (c : MultiRowCall) : Applies w (w.call c) [] [] :=
  quiet rfl rfl (Nat.le_refl _)

/-- A call that applied rows. -/
theorem applied (w : World) (rows : List Nat) : Applies w (w.apply rows).next rows [] :=
  ⟨rfl, by simp, Nat.le_succ _⟩

theorem trans (h : Applies w w' rows reports) (h' : Applies w' w'' rows' reports') :
    Applies w w'' (rows ++ rows') (reports ++ reports') where
  ledger := by rw [h'.ledger, h.ledger, Ledger.apply_append]
  reports := by rw [h'.reports, h.reports, List.append_assoc]
  tick_le := Nat.le_trans h.tick_le h'.tick_le

/-- A quiet step before changes nothing. -/
theorem after_quiet (h : Applies w w' [] []) (h' : Applies w' w'' rows reports) :
    Applies w w'' rows reports := h.trans h'

/-- A quiet step after changes nothing. -/
theorem then_quiet (h : Applies w w' rows reports) (h' : Applies w' w'' [] []) :
    Applies w w'' rows reports := by simpa using h.trans h'

theorem log (h : Applies w w' rows reports) : w'.ledger.log = w.ledger.log ++ rows := by
  rw [h.ledger, Ledger.apply_log]

theorem autocommit (h : Applies w w' rows reports) :
    w'.ledger.autocommit = w.ledger.autocommit := by rw [h.ledger, Ledger.apply_autocommit]

theorem complete (h : Applies w w' rows reports) (hc : w.ledger.Complete) :
    w'.ledger.Complete := by rw [h.ledger]; exact hc.apply rows

/-- Inside a transaction nothing is committed by applying rows. -/
theorem committed (h : Applies w w' rows reports) (hw : w.ledger.autocommit = false) :
    w'.ledger.committed = w.ledger.committed := by
  rw [h.ledger, Ledger.apply_committed_of_suspended hw]

end Applies

/-! ## The implicit transaction -/

/-- `SQLSetConnectAttr(SQL_ATTR_AUTOCOMMIT)`: switching back on commits what is
pending. -/
def setAutocommit (d : Driver) (on : Bool) (w : World) : Bool × World :=
  if d.switches w.tick then
    (true, (w.setLedger (if on then w.ledger.resume else w.ledger.suspend)).next)
  else
    (false, w.next)

/-- `SQLEndTran`: a refusal either rolls the transaction back or leaves it open. -/
def endTran (d : Driver) (commit : Bool) (w : World) : Bool × World :=
  if d.endsTran w.tick then
    (true, (w.setLedger (if commit then w.ledger.commit else w.ledger.rollback)).next)
  else if d.rollsBack w.tick then
    (false, (w.setLedger w.ledger.rollback).next)
  else
    (false, w.next)

/-- `OdbcAutoTxnBegin`, for a transaction that is open or not: the flag and the
world it leaves. -/
def odbcAutoTxnBegin (d : Driver) (s : OdbcStatement) (active : Bool) (w : World) :
    Bool × World :=
  if active || !s.connected || !s.autocommit || !s.opts.txnCapable then (active, w)
  else setAutocommit d false w

/-- `OdbcAutoTxnEnd`: the flag is false afterwards. -/
def odbcAutoTxnEnd (d : Driver) (active commit : Bool) (w : World) : Option Failure × World :=
  if active then
    let ended := endTran d commit w
    (if commit && !ended.1 then some .endTran else none, (setAutocommit d true ended.2).2)
  else
    (none, w)

/-- The driver takes every switch of autocommit. -/
def AcceptsAutocommit (d : Driver) : Prop := ∀ tick, d.switches tick = true

/-- A `SQLEndTran` that fails has rolled the transaction back, and leaves nothing that the switch
back to autocommit would commit. -/
def RollsBackOnFailure (d : Driver) : Prop :=
  ∀ tick, d.endsTran tick = false → d.rollsBack tick = true

/-- The transaction flag follows the connection: while it is set autocommit is
off, and the ledger still holds every applied row. -/
structure TxnInv (w : World) (active : Bool) : Prop where
  complete : w.ledger.Complete
  suspended : active = true → w.ledger.autocommit = false

theorem setAutocommit_reports (d : Driver) (on : Bool) (w : World) :
    (setAutocommit d on w).2.reports = w.reports := by
  unfold setAutocommit
  split <;> simp

theorem setAutocommit_log (d : Driver) (on : Bool) (w : World) :
    (setAutocommit d on w).2.ledger.log = w.ledger.log := by
  unfold setAutocommit
  split
  · cases on <;> simp
  · simp

theorem endTran_reports (d : Driver) (commit : Bool) (w : World) :
    (endTran d commit w).2.reports = w.reports := by
  unfold endTran
  split
  · simp
  · split <;> simp

theorem endTran_log (d : Driver) (commit : Bool) (w : World) :
    (endTran d commit w).2.ledger.log = w.ledger.log := by
  unfold endTran
  split
  · cases commit <;> simp
  · split <;> simp

theorem endTran_fst (d : Driver) (commit : Bool) (w : World) :
    (endTran d commit w).1 = d.endsTran w.tick := by
  unfold endTran
  split
  · simp_all
  · split <;> simp_all

theorem odbcAutoTxnBegin_log (d : Driver) (s : OdbcStatement) (active : Bool) (w : World) :
    (odbcAutoTxnBegin d s active w).2.ledger.log = w.ledger.log := by
  unfold odbcAutoTxnBegin
  split
  · rfl
  · exact setAutocommit_log d false w

theorem odbcAutoTxnBegin_reports (d : Driver) (s : OdbcStatement) (active : Bool) (w : World) :
    (odbcAutoTxnBegin d s active w).2.reports = w.reports := by
  unfold odbcAutoTxnBegin
  split
  · rfl
  · exact setAutocommit_reports d false w

theorem odbcAutoTxnBegin_inv (d : Driver) (s : OdbcStatement) {active : Bool} {w : World}
    (h : TxnInv w active) :
    TxnInv (odbcAutoTxnBegin d s active w).2 (odbcAutoTxnBegin d s active w).1 := by
  unfold odbcAutoTxnBegin
  split
  · exact h
  · unfold setAutocommit
    split
    · exact ⟨by simpa using h.complete.suspend, by simp⟩
    · exact ⟨by simpa using h.complete, by simp⟩

theorem odbcAutoTxnEnd_log (d : Driver) (active commit : Bool) (w : World) :
    (odbcAutoTxnEnd d active commit w).2.ledger.log = w.ledger.log := by
  unfold odbcAutoTxnEnd
  split
  · simp only [setAutocommit_log, endTran_log]
  · rfl

theorem odbcAutoTxnEnd_reports (d : Driver) (active commit : Bool) (w : World) :
    (odbcAutoTxnEnd d active commit w).2.reports = w.reports := by
  unfold odbcAutoTxnEnd
  split
  · simp only [setAutocommit_reports, endTran_reports]
  · rfl

/-- Ending the transaction when nothing is pending keeps the ledger complete. -/
theorem setAutocommit_complete (d : Driver) (on : Bool) {w : World} (h : w.ledger.Complete) :
    (setAutocommit d on w).2.ledger.Complete := by
  unfold setAutocommit
  split
  · cases on
    · simpa using h.suspend
    · simpa using h.resume
  · simpa using h

/-- A rollback that finds nothing pending, or a commit that succeeds, drops no
row. -/
theorem odbcAutoTxnEnd_complete (d : Driver) (active : Bool) {commit : Bool} {w : World}
    (h : w.ledger.Complete)
    (hsafe : w.ledger.pending = [] ∨
      (commit = true ∧ (odbcAutoTxnEnd d active commit w).1 = none)) :
    (odbcAutoTxnEnd d active commit w).2.ledger.Complete := by
  cases active with
  | false => simpa [odbcAutoTxnEnd] using h
  | true =>
      simp only [odbcAutoTxnEnd, if_true, endTran_fst] at hsafe ⊢
      apply setAutocommit_complete
      by_cases hends : d.endsTran w.tick = true
      · cases commit with
        | true => simpa [endTran, hends] using h.commit
        | false => simpa [endTran, hends] using h.rollback (by simpa using hsafe)
      · have hpending : w.ledger.pending = [] := by
          apply hsafe.resolve_right
          rintro ⟨rfl, hnone⟩
          simp [hends] at hnone
        simp only [endTran, hends]
        by_cases hroll : d.rollsBack w.tick = true
        · simpa [hroll] using h.rollback hpending
        · simpa [hroll] using h

end AdbcBridge.Bind.Session
