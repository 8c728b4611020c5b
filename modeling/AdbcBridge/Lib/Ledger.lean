import Mathlib.Data.List.Basic

/-!
# Ledgers: what a connection keeps of the rows applied to it

A ledger follows one database connection: the rows applied in its open
transaction, the rows it has committed, and the log of everything ever applied.
With autocommit on nothing is ever pending, which the structure carries as a
field, so that turning autocommit on has to commit.  A ledger is complete when
it still keeps every row of its log; only a rollback that drops rows ends that.
-/

namespace AdbcBridge.Lib

variable {α : Type*}

structure Ledger (α : Type*) where
  autocommit : Bool
  pending : List α
  committed : List α
  log : List α
  idle : autocommit = true → pending = []

namespace Ledger

/-- A connection nothing has been applied to. -/
def empty (autocommit : Bool) : Ledger α := ⟨autocommit, [], [], [], fun _ => rfl⟩

/-- Apply rows: committed at once under autocommit, pending otherwise. -/
def apply (l : Ledger α) (rows : List α) : Ledger α where
  autocommit := l.autocommit
  pending := if l.autocommit then [] else l.pending ++ rows
  committed := if l.autocommit then l.committed ++ rows else l.committed
  log := l.log ++ rows
  idle := fun h => by simp [h]

/-- Turn autocommit off: the next rows stay pending. -/
def suspend (l : Ledger α) : Ledger α where
  autocommit := false
  pending := l.pending
  committed := l.committed
  log := l.log
  idle := fun h => by simp at h

/-- Commit what is pending. -/
def commit (l : Ledger α) : Ledger α where
  autocommit := l.autocommit
  pending := []
  committed := l.committed ++ l.pending
  log := l.log
  idle := fun _ => rfl

/-- Drop what is pending. -/
def rollback (l : Ledger α) : Ledger α where
  autocommit := l.autocommit
  pending := []
  committed := l.committed
  log := l.log
  idle := fun _ => rfl

/-- Turn autocommit on, which commits what is pending. -/
def resume (l : Ledger α) : Ledger α where
  autocommit := true
  pending := []
  committed := l.committed ++ l.pending
  log := l.log
  idle := fun _ => rfl

/-- The rows the connection still keeps, committed or pending. -/
def held (l : Ledger α) : List α := l.committed ++ l.pending

/-- Every row ever applied is still kept, in the order of application. -/
def Complete (l : Ledger α) : Prop := l.held = l.log

@[simp] theorem apply_nil (l : Ledger α) : l.apply [] = l := by
  rcases l with ⟨autocommit, pending, committed, log, idle⟩
  cases autocommit <;> simp_all [apply]

theorem apply_append (l : Ledger α) (rows rows' : List α) :
    (l.apply rows).apply rows' = l.apply (rows ++ rows') := by
  rcases l with ⟨autocommit, pending, committed, log, idle⟩
  cases autocommit <;> simp [apply, List.append_assoc]

@[simp] theorem apply_autocommit (l : Ledger α) (rows : List α) :
    (l.apply rows).autocommit = l.autocommit := rfl

@[simp] theorem apply_log (l : Ledger α) (rows : List α) :
    (l.apply rows).log = l.log ++ rows := rfl

@[simp] theorem suspend_autocommit (l : Ledger α) : l.suspend.autocommit = false := rfl
@[simp] theorem suspend_log (l : Ledger α) : l.suspend.log = l.log := rfl
@[simp] theorem suspend_committed (l : Ledger α) : l.suspend.committed = l.committed := rfl
@[simp] theorem commit_autocommit (l : Ledger α) : l.commit.autocommit = l.autocommit := rfl
@[simp] theorem commit_log (l : Ledger α) : l.commit.log = l.log := rfl
@[simp] theorem rollback_autocommit (l : Ledger α) :
    l.rollback.autocommit = l.autocommit := rfl
@[simp] theorem rollback_log (l : Ledger α) : l.rollback.log = l.log := rfl
@[simp] theorem rollback_committed (l : Ledger α) : l.rollback.committed = l.committed := rfl
@[simp] theorem rollback_pending (l : Ledger α) : l.rollback.pending = [] := rfl
@[simp] theorem resume_autocommit (l : Ledger α) : l.resume.autocommit = true := rfl
@[simp] theorem resume_log (l : Ledger α) : l.resume.log = l.log := rfl

theorem resume_committed_of_pending {l : Ledger α} (h : l.pending = []) :
    l.resume.committed = l.committed := by simp [resume, h]

/-- Outside autocommit, applying rows commits none of them. -/
theorem apply_committed_of_suspended {l : Ledger α} (h : l.autocommit = false)
    (rows : List α) : (l.apply rows).committed = l.committed := by simp [apply, h]

theorem apply_committed_of_autocommit {l : Ledger α} (h : l.autocommit = true)
    (rows : List α) : (l.apply rows).committed = l.committed ++ rows := by simp [apply, h]

theorem held_apply (l : Ledger α) (rows : List α) : (l.apply rows).held = l.held ++ rows := by
  rcases l with ⟨autocommit, pending, committed, log, idle⟩
  cases autocommit <;> simp_all [apply, held, List.append_assoc]

@[simp] theorem held_suspend (l : Ledger α) : l.suspend.held = l.held := rfl
@[simp] theorem held_commit (l : Ledger α) : l.commit.held = l.held := by simp [commit, held]
@[simp] theorem held_resume (l : Ledger α) : l.resume.held = l.held := by simp [resume, held]

theorem held_rollback_of_pending {l : Ledger α} (h : l.pending = []) :
    l.rollback.held = l.held := by simp [rollback, held, h]

/-- A complete ledger with an empty log has nothing pending. -/
theorem pending_of_complete {l : Ledger α} (h : l.Complete) (hlog : l.log = []) :
    l.pending = [] := by
  rw [Complete, hlog, held] at h
  exact (List.append_eq_nil_iff.1 h).2

theorem complete_empty (autocommit : Bool) : (empty autocommit : Ledger α).Complete := rfl

theorem Complete.apply {l : Ledger α} (h : l.Complete) (rows : List α) :
    (l.apply rows).Complete := by rw [Complete, held_apply, h, apply_log]

theorem Complete.suspend {l : Ledger α} (h : l.Complete) : l.suspend.Complete := h

theorem Complete.commit {l : Ledger α} (h : l.Complete) : l.commit.Complete := by
  rw [Complete, held_commit, h, commit_log]

theorem Complete.resume {l : Ledger α} (h : l.Complete) : l.resume.Complete := by
  rw [Complete, held_resume, h, resume_log]

/-- Rolling back a transaction that applied nothing drops nothing. -/
theorem Complete.rollback {l : Ledger α} (h : l.Complete) (hp : l.pending = []) :
    l.rollback.Complete := by rw [Complete, held_rollback_of_pending hp, h, rollback_log]

end Ledger

end AdbcBridge.Lib
