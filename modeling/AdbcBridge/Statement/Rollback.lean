import AdbcBridge.Statement.Ownership
import Mathlib

/-!
# Rollbacks and the epoch

The epoch of a connection counts the rollbacks on it, except those of an implicit
transaction.  Where there are none of these, no statement executes a handle it had
before a rollback.
-/

namespace AdbcBridge.Statement.Rollback

open AdbcBridge.Adbc AdbcBridge.Lib AdbcBridge.Statement.Handle AdbcBridge.Statement.Moves
open AdbcBridge.Statement.Ownership

/-- A statement executes the handle. -/
def Executes (h : Nat) : Call → Prop
  | .execDirect k _ => k = h
  | .execute k => k = h
  | _ => False

/-- The handle a call executes was obtained after the last rollback. -/
def Fresh (past : List Call) (c : Call) : Prop :=
  ∀ h, Executes h c → Since (· = .alloc h) (· = .rollback) past

/-- No statement executed a handle it had before a rollback. -/
def NoStale (w : World) : Prop := Historically Fresh w.session.calls

/-- Every rollback has advanced the epoch, a `uint64_t`. -/
def EpochCounts (w : World) : Prop :=
  w.session.rollbackEpoch = w.session.calls.count .rollback % 2 ^ 64

/-- `EnsureHandle` lets go of the handles of an older epoch. -/
def Refreshes (w : World) : Prop :=
  ∀ i s h a, w.stmts i = some s → s.ref = some h → s.rollbackEpoch ≠ w.session.rollbackEpoch →
    (ensureHandle a ⟨w.session, s⟩).1.stmt.ref ≠ some h

/-- The rollbacks since the handle was obtained. -/
def age (c : Session) (h : Nat) : Nat := countSince (.alloc h) .rollback c.calls

/-- The statements know the epoch in which their handle was obtained. -/
def Dated (w : World) : Prop :=
  ∀ i s h, w.stmts i = some s → s.ref = some h →
    (s.rollbackEpoch + age w.session h) % 2 ^ 64 = w.session.rollbackEpoch

/-- The handle of the statement `i` is so old that the epoch came round to it again. -/
def Wraps (w : World) (i : Nat) : Prop := ∃ h, Holds w i h ∧ 2 ^ 64 ≤ age w.session h

variable {w w' : World} {i : Nat} {o o' : Owner} {refused : Prop} {target : Option Nat}

theorem executes_usedBy {h : Nat} {c : Call} (hc : Executes h c) : UsedBy h c := by
  cases c <;> first | exact hc | exact hc.elim

theorem alloc_mem (own : Owned w) {h : Nat} (hold : Holds w i h) :
    .alloc h ∈ w.session.calls := (own.known h).2 (own.held_lt i h hold)

/-- Without the permission to roll back, a step leaves the epoch and the rollbacks as
they are. -/
theorem act_rollbacks (act : Act refused False o o') :
    o'.session.rollbackEpoch = o.session.rollbackEpoch ∧
      ∃ m, o'.session.calls = o.session.calls ++ m ∧ m.count .rollback = 0 := by
  constructor
  · cases act with
    | detach h ref => simp [Owner.detach, ref, Session.release]
    | _ => rfl
  · rcases act.call with hcalls | ⟨c, hcalls, -, hnot⟩
    · exact ⟨[], by simpa using hcalls, rfl⟩
    · exact ⟨[c], hcalls, List.count_eq_zero.2 (by simpa using fun h => hnot h.symm)⟩

theorem age_append {c c' : Session} {h : Nat} {m : List Call} (hmem : .alloc h ∈ c.calls)
    (hcalls : c'.calls = c.calls ++ m) (hm : m.count .rollback = 0) : age c' h = age c h := by
  rw [age, hcalls, countSince_append hmem, hm, age, Nat.add_zero]

/-- What the handle of the statement `i` is after a step: the one it was, or one just
obtained. -/
theorem act_hold (act : Act refused False o o') {h : Nat} (ref : o'.stmt.ref = some h) :
    (o.stmt.ref = some h ∧ o'.stmt.rollbackEpoch = o.stmt.rollbackEpoch) ∨
      (h = o.session.handles ∧ o'.stmt.rollbackEpoch = o.session.rollbackEpoch ∧
        o'.session.calls = o.session.calls ++ [.alloc h]) := by
  cases act with
  | settle s hold => exact .inl ⟨hold.ref ▸ ref, hold.epoch⟩
  | detach k hk => simp [detach_ref] at ref
  | obtain hnone =>
      simp only [Owner.allocate, Owner.markReady, Option.some.injEq] at ref
      exact .inr ⟨ref.symm, rfl, by simp [Owner.allocate, Owner.markReady, Session.alloc, ref]⟩
  | _ => exact .inl ⟨ref, rfl⟩

theorem dated_act (own : Owned (w.put i o)) (hcounts : EpochCounts (w.put i o))
    (hdated : Dated (w.put i o)) (act : Act refused False o o') : Dated (w.put i o') := by
  obtain ⟨hepoch, m, hcalls, hm⟩ := act_rollbacks act
  intro j s h hs ref
  by_cases hij : j = i
  · simp only [hij, World.put, Function.update_self, Option.some.injEq] at hs
    subst hs
    rcases act_hold act ref with ⟨ref, hkept⟩ | ⟨rfl, hkept, hnew⟩
    · have hold : Holds (w.put i o) i h := holds_self ref
      simp only [World.put, hepoch, hkept, age_append (alloc_mem own hold) hcalls hm]
      exact hdated i o.stmt h (by simp [World.put]) ref
    · have hfresh : Call.alloc o.session.handles ∉ o.session.calls :=
        fun hmem => absurd ((own.known _).1 hmem) (Nat.lt_irrefl _)
      have hcounts' : o.session.rollbackEpoch = o.session.calls.count .rollback % 2 ^ 64 := hcounts
      simp only [World.put, age, hnew, countSince_new hfresh, hkept, hepoch, Nat.add_zero]
      rw [hcounts', Nat.mod_mod]
  · have hs' : (w.put i o).stmts j = some s := by simpa [World.put, hij] using hs
    simp only [World.put, hepoch, age_append (alloc_mem own ⟨s, hs', ref⟩) hcalls hm]
    exact hdated j s h hs' ref

theorem epochCounts_act (hcounts : EpochCounts (w.put i o)) (act : Act refused False o o') :
    EpochCounts (w.put i o') := by
  obtain ⟨hepoch, m, hcalls, hm⟩ := act_rollbacks act
  simp only [EpochCounts, World.put, hepoch, hcalls, List.count_append, hm, Nat.add_zero]
  exact hcounts

/-- A handle that passed the check of the epoch is no older than the last rollback, if
the epoch has not come round. -/
theorem ready_fresh (own : Owned (w.put i o)) (hcounts : EpochCounts (w.put i o))
    (hdated : Dated (w.put i o)) (hwraps : ¬ Wraps (w.put i o) i) {h : Nat}
    (ready : Ready o h) : Since (· = .alloc h) (· = .rollback) o.session.calls := by
  have hold : Holds (w.put i o) i h := holds_self ready.ref
  have hlt : age o.session h < 2 ^ 64 := by
    by_contra hge
    exact hwraps ⟨h, hold, Nat.le_of_not_lt hge⟩
  have hdate : (o.stmt.rollbackEpoch + age o.session h) % 2 ^ 64 = o.session.rollbackEpoch :=
    hdated i o.stmt h (by simp [World.put]) ready.ref
  have hcount : o.session.rollbackEpoch = o.session.calls.count .rollback % 2 ^ 64 := hcounts
  have hbound : o.session.rollbackEpoch < 2 ^ 64 := by omega
  rw [ready.epoch] at hdate
  have hzero : age o.session h = 0 := by omega
  exact since_of_countSince (alloc_mem own hold) hzero

theorem noStale_act (own : Owned (w.put i o)) (hcounts : EpochCounts (w.put i o))
    (hdated : Dated (w.put i o)) (hwraps : ¬ Wraps (w.put i o) i)
    (hfresh : NoStale (w.put i o)) (act : Act refused False o o') : NoStale (w.put i o') := by
  rcases act.call with hcalls | ⟨c, hcalls, hused, -⟩
  · simpa [NoStale, World.put, hcalls] using hfresh
  · simp only [NoStale, World.put, hcalls, historically_snoc]
    exact ⟨hfresh, fun h hc =>
      ready_fresh own hcounts hdated hwraps (hused h (executes_usedBy hc))⟩

theorem wraps_act (own : Owned (w.put i o)) (hwraps : ¬ Wraps (w.put i o) i)
    (act : Act refused False o o') : ¬ Wraps (w.put i o') i := by
  obtain ⟨-, m, hcalls, hm⟩ := act_rollbacks act
  rintro ⟨h, hold, hage⟩
  have ref : o'.stmt.ref = some h := by simpa [holds_put] using hold
  rcases act_hold act ref with ⟨ref, -⟩ | ⟨rfl, -, hnew⟩
  · have hold : Holds (w.put i o) i h := holds_self ref
    refine hwraps ⟨h, hold, ?_⟩
    have hsame : age o'.session h = age o.session h := age_append (alloc_mem own hold) hcalls hm
    exact hsame ▸ hage
  · have hfresh : Call.alloc o.session.handles ∉ o.session.calls :=
      fun hmem => absurd ((own.known _).1 hmem) (Nat.lt_irrefl _)
    simp [World.put, age, hnew, countSince_new hfresh] at hage

/-! ## Whole runs -/

/-- What holds in every state of a run without implicit rollbacks. -/
structure Tracked (w : World) : Prop where
  own : Owned w
  counts : EpochCounts w
  dated : Dated w
  fresh : NoStale w

/-- Calls that neither roll back nor execute a handle for a statement. -/
theorem Tracked.quiet (t : Tracked w) (own : Owned w') {m : List Call}
    (hepoch : w'.session.rollbackEpoch = w.session.rollbackEpoch)
    (hcalls : w'.session.calls = w.session.calls ++ m)
    (hm : ∀ c ∈ m, c ≠ .rollback ∧ ∀ h, ¬ Executes h c)
    (hs : ∀ i s h, w'.stmts i = some s → s.ref = some h → w.stmts i = some s) : Tracked w' := by
  have hcount : m.count .rollback = 0 := List.count_eq_zero.2 fun hmem => (hm _ hmem).1 rfl
  refine ⟨own, ?_, fun i s h hi ref => ?_, ?_⟩
  · rw [EpochCounts, hepoch, hcalls, List.count_append, hcount]
    exact t.counts
  · have hold : Holds w i h := ⟨s, hs i s h hi ref, ref⟩
    rw [age_append (alloc_mem t.own hold) hcalls hcount, hepoch]
    exact t.dated i s h (hs i s h hi ref) ref
  · rw [NoStale, hcalls]
    exact t.fresh.append fun past c hc h hexec => absurd hexec ((hm c hc).2 h)

theorem Tracked.rollback (t : Tracked w) (own : Owned w')
    (hepoch : w'.session.rollbackEpoch = (w.session.rollbackEpoch + 1) % 2 ^ 64)
    (hcalls : w'.session.calls = w.session.calls ++ [.rollback])
    (hs : w'.stmts = w.stmts) : Tracked w' := by
  refine ⟨own, ?_, fun i s h hi ref => ?_, ?_⟩
  · have := t.counts
    rw [EpochCounts] at this ⊢
    rw [hepoch, hcalls, List.count_append, List.count_singleton_self]
    omega
  · rw [hs] at hi
    have hage : age w'.session h = age w.session h + 1 := by
      rw [age, hcalls, countSince_append (alloc_mem t.own ⟨s, hi, ref⟩),
        List.count_singleton_self, age]
    have := t.dated i s h hi ref
    omega
  · rw [NoStale, hcalls, historically_snoc]
    exact ⟨t.fresh, fun h => False.elim⟩

theorem Tracked.effect (t : Tracked w) (effect : Effect refused False w target w')
    (hwraps : ∀ i, target = some i → ¬ Wraps w i) : Tracked w' := by
  have own := t.own.effect effect
  cases effect with
  | statement i s o hi hs acts =>
      have hboth := acts_keep (I := fun w => Tracked w ∧ ¬ Wraps w i)
        (fun o o' h act =>
          ⟨⟨h.1.own.act act, epochCounts_act h.1.counts act,
            dated_act h.1.own h.1.counts h.1.dated act,
            noStale_act h.1.own h.1.counts h.1.dated h.2 h.1.fresh act⟩,
          wraps_act h.1.own h.2 act⟩)
        (by rw [put_self hs]; exact ⟨t, hwraps i hi⟩) acts
      exact hboth.1
  | idle => exact t
  | newStatement i hs =>
      refine t.quiet own (m := []) rfl (by simp) (by simp) fun j s h hj ref => ?_
      have hji : j ≠ i := (holds_update_none (s := {}) rfl _ (.inr rfl) ⟨s, hj, ref⟩).1
      simpa [hji] using hj
  | releaseStatement i s hs =>
      have hsame : (Owner.mk w.session s).detach.session.rollbackEpoch = w.session.rollbackEpoch ∧
          (Owner.mk w.session s).detach.session.calls = w.session.calls := by
        cases ref : s.ref <;> simp [Owner.detach, ref, Session.release]
      refine t.quiet own (m := []) hsame.1 (by simpa using hsame.2) (by simp) fun j u h hj ref => ?_
      have hji : j ≠ i := (holds_update_none (s := {}) rfl none (.inl rfl) ⟨u, hj, ref⟩).1
      simpa [hji] using hj
  | getNext r hr executes inner =>
      cases hreader : r.reader with
      | odbc =>
          exact t.quiet own (m := []) (by simp [Session.getNext, hreader])
            (by simp [Session.getNext, hreader]) (by simp) fun i s h hi _ => hi
      | bound wasOpen =>
          refine t.quiet own (m := List.replicate executes (.streamExecute r.ref)) ?_ ?_ ?_
            fun i s h hi _ => hi
          · rw [getNext_bound executes inner hreader]
          · rw [getNext_bound executes inner hreader]
          · exact fun c hc => by simp [List.eq_of_mem_replicate hc, Executes]
  | releaseStream r hr =>
      exact t.quiet own (m := [.closeStream r.id]) rfl rfl (by simp [Executes])
        fun i s h hi _ => hi
  | setAutocommit autocommit =>
      exact t.quiet own (m := []) rfl (by simp) (by simp) fun i s h hi _ => hi
  | rollback => exact t.rollback own rfl rfl rfl

theorem tracked_start (autocommit txnCapable : Bool) : Tracked (start autocommit txnCapable) := by
  refine ⟨owned_start autocommit txnCapable, ?_, ?_, historically_nil _⟩
  · simp [EpochCounts, start]
  · exact fun i s h hs => by simp [start] at hs

theorem refreshes (own : Owned w) : Refreshes w := by
  intro i s h a hs ref hepoch
  have hup : (Owner.mk w.session s).givesUp a = true := by
    simp [Owner.givesUp, Owner.stale, ref, hepoch]
  have hlt : h < w.session.handles := own.held_lt i h ⟨s, hs, ref⟩
  have hhandles : (Owner.mk w.session s).detach.session.handles = w.session.handles := by
    simp [Owner.detach, ref, Session.release]
  rw [ensureHandle_givesUp hup]
  rcases ensureHandle_fresh (a := a) (detach_ref ⟨w.session, s⟩) with ⟨e, hfresh⟩ | hfresh | hfresh
  · simp [hfresh, detach_ref]
  · simp [hfresh, detach_ref]
  · rw [hfresh]
    simp only [Owner.allocate, Owner.markReady, hhandles, ne_eq, Option.some.injEq]
    exact hlt.ne'

/-- A step of a run that rolls no implicit transaction back, and that meets no handle so
old that the epoch has come round to it. -/
def Advances (w : World) (op : Op) (w' : World) : Prop :=
  ¬ Undoes w op ∧ (∀ i, op.target = some i → ¬ Wraps w i) ∧ Steps w op w'

/-- In a run of such steps no statement executes a handle it had before a rollback: every
rollback has advanced the epoch, and a handle of an older one is let go of. -/
theorem noStale_run {autocommit txnCapable : Bool} {trace : List Op}
    (run : Run Advances (start autocommit txnCapable) trace w) :
    NoStale w ∧ EpochCounts w ∧ Refreshes w := by
  have t : Tracked w := by
    refine run.state_invariant (tracked_start autocommit txnCapable) ?_
    rintro w op _ t ⟨hundo, hwraps, rfl⟩
    exact t.effect (@step_effect True False w op (fun _ => trivial) hundo) hwraps
  exact ⟨t.fresh, t.counts, refreshes t.own⟩

theorem not_wraps (h : w.session.calls.length < 2 ^ 64) : ¬ Wraps w i := by
  rintro ⟨k, -, hage⟩
  have : age w.session k ≤ w.session.calls.length := countSince_le ..
  omega

/-- Without bound rows there is no implicit transaction. -/
theorem unbound {s : OdbcStatement} {out : Bool} {a : ExecuteAnswer} (hs : w.stmts i = some s)
    (hbind : s.hasBind = false) : ¬ Undoes w (.executeQuery i out a) := by
  rintro ⟨t, ht, -, hbound, -⟩
  rw [hs, Option.some.injEq] at ht
  simp [← ht, hbind] at hbound

/-- One statement is executed, rolled back and executed again. -/
theorem noStale_rolledBack :
    let ops : List Op := [.setAutocommit false true, .newStatement 0,
      .setSqlQuery 0 "SELECT 1".toList, .executeQuery 0 false {}, .rollback true,
      .executeQuery 0 false {}]
    let w := ops.foldl World.step (start true true)
    NoStale w ∧ EpochCounts w ∧ Refreshes w := by
  have h₀ : Run Advances (start true true) [] (start true true) := .nil
  have h₁ := h₀.snoc (e := .setAutocommit false true) ⟨id, nofun, rfl⟩
  have h₂ := h₁.snoc (e := .newStatement 0) ⟨id, nofun, rfl⟩
  have h₃ := h₂.snoc (e := .setSqlQuery 0 "SELECT 1".toList)
    ⟨id, fun _ _ => not_wraps (by decide), rfl⟩
  have h₄ := h₃.snoc (e := .executeQuery 0 false {})
    ⟨unbound rfl rfl, fun _ _ => not_wraps (by decide), rfl⟩
  have h₅ := h₄.snoc (e := .rollback true) ⟨id, nofun, rfl⟩
  have h₆ := h₅.snoc (e := .executeQuery 0 false {})
    ⟨unbound rfl rfl, fun _ _ => not_wraps (by decide), rfl⟩
  exact noStale_run h₆

/-- A bound execution of the second statement fails and rolls back, and the first
executes the handle it had before. -/
theorem implicit_rollback_unseen :
    ¬ ∀ trace w, Run Steps (start true true) trace w → NoStale w := by
  intro hall
  have h₀ : Run Steps (start true true) [] (start true true) := .nil
  have h₁ := h₀.snoc (e := .newStatement 0) rfl
  have h₂ := h₁.snoc (e := .setSqlQuery 0 "SELECT * FROM t".toList) rfl
  have h₃ := h₂.snoc (e := .executeSchema 0 {}) rfl
  have h₄ := h₃.snoc (e := .newStatement 1) rfl
  have h₅ := h₄.snoc (e := .setSqlQuery 1 "INSERT INTO t VALUES (?)".toList) rfl
  have h₆ := h₅.snoc (e := .bindStream 1) rfl
  let failing : BatchAnswer :=
    { length := 2, executes := 1
      failure := some ⟨.integrity, "UNIQUE constraint failed".toList⟩ }
  have h₇ := h₆.snoc
    (e := .executeQuery 1 false { bound := { rows := { batches := [failing] } } }) rfl
  have h₈ := h₇.snoc (e := .executeQuery 0 false {}) rfl
  let past : List Call := [.alloc 0, .prepare 0 "SELECT * FROM t".toList true, .alloc 1,
    .prepare 1 "INSERT INTO t VALUES (?)".toList true, .execute 1]
  have hstale := hall _ _ h₈
  have hsince : Since (· = Call.alloc 0) (· = Call.rollback) (past ++ [.rollback]) :=
    hstale (past ++ [.rollback]) (.execute 0) [] (by decide) 0 rfl
  have hnot : ¬ Since (· = Call.alloc 0) (· = Call.rollback) (past ++ [.rollback]) :=
    not_since_snoc (by simp) rfl
  exact hnot hsince

end AdbcBridge.Statement.Rollback
