import AdbcBridge.Questdb.Run

/-!
# Cancelling a QuestDB statement

A statement and the streams it has exported share one `QdbCancel`: `AdbcStatementCancel` sets
its flag, each execution of the statement takes the flag back, and the streams look at it.  The
operations of the statement and the reads of the streams come in any order.  A read goes on in
steps: a look at the flag, what follows it when the flag is down (an execution or a fetch), and the
return with the batch that was fetched.
-/

namespace AdbcBridge.Questdb.Cancel

open AdbcBridge.Adbc AdbcBridge.Lib AdbcBridge.Questdb.Run

/-- Where a run is: in `QdbRunExport`, waiting for a read, in `QdbStreamGetNext`, or freed. -/
inductive Phase where
  | priming
  | idle
  | pulling
  | gone
deriving DecidableEq, Repr

/-- How far `QdbRunNextArrow` has come: it is about to look at the flag, it has found it down, or
it has fetched a batch that it has not returned yet. -/
inductive Progress (σ α : Type*) where
  | looking
  | passed
  | fetched (b : σ × α)
deriving Repr

instance {σ α : Type*} (p : Progress σ α) : Decidable (p = .looking) :=
  match p with
  | .looking => isTrue rfl
  | .passed => isFalse fun h => by cases h
  | .fetched _ => isFalse fun h => by cases h

/-- A run of the statement and the stream it becomes, with what it has delivered.  `behindCancel`
is whether an `AdbcStatementCancel` has returned since its start; `cancelledAt` are the numbers of
batches delivered and of executions started when the first one returned behind its export. -/
structure Stream (ρ σ α : Type*) where
  driver : Driver ρ σ α
  noColumns : σ
  run : QdbRun ρ σ α
  phase : Phase := .priming
  progress : Progress σ α := .looking
  delivered : List (σ × α) := []
  behindCancel : Bool := false
  cancelledAt : Option (Nat × Nat) := none

variable {ρ σ α : Type*}

namespace Stream

/-- The answers of the client library behind a look that found the flag down. -/
def unflagged (s : Stream ρ σ α) : Driver ρ σ α := { s.driver with cancelled := fun _ => false }

/-- The end of `QdbRunNextArrow`, in `QdbRunExport` or in `QdbStreamGetNext`. -/
def leave (s : Stream ρ σ α) (p : Pulled σ α × QdbRun ρ σ α) : Stream ρ σ α :=
  match s.phase, p.1 with
  | .priming, .error _ => { s with run := p.2, progress := .looking, phase := .gone }
  | .priming, .ok first =>
      { s with
        run := { p.2 with first := first, schema := some (p.2.schema.getD s.noColumns) }
        progress := .looking
        phase := .idle }
  | _, .ok (some b) =>
      { s with run := p.2, progress := .looking, phase := .idle, delivered := s.delivered ++ [b] }
  | _, _ => { s with run := p.2, progress := .looking, phase := .idle }

/-- A look at the flag. -/
def look (cancelled : Bool) (s : Stream ρ σ α) : Stream ρ σ α :=
  if cancelled then s.leave (.error cancelledError, { s.run with looks := s.run.looks + 1 })
  else { s with progress := .passed }

/-- What follows a look that found the flag down: the next execution is started, or the cursor is
asked for a batch. -/
def follow (s : Stream ρ σ α) : Stream ρ σ α :=
  match s.run.cursor with
  | none =>
      match s.run.nextExecution s.unflagged with
      | (.error e, next) => s.leave (.error e, next)
      | (.ok none, next) => s.leave (.ok none, next)
      | (.ok (some cursor), next) =>
          { s with run := { next with cursor := some cursor }, progress := .looking }
  | some cursor =>
      match s.run.fetch s.unflagged cursor with
      | .leave (.ok (some b), next) => { s with run := next, progress := .fetched b }
      | .leave p => s.leave p
      | .again next => { s with run := next, progress := .looking }

/-- One step of `QdbRunNextArrow`. -/
def advance (cancelled : Bool) (s : Stream ρ σ α) : Stream ρ σ α :=
  match s.progress with
  | .looking => s.look cancelled
  | .passed => s.follow
  | .fetched b => s.leave (.ok (some b), s.run)

/-- Behind a look that finds the flag down there is a batch to be fetched, or a row to be
executed. -/
def hasMore (s : Stream ρ σ α) : Bool :=
  match s.run.cursor with
  | some cursor => !cursor.batches.isEmpty
  | none =>
      s.driver.utf8.isNone &&
        if s.run.hasBind then
          match s.run.nextBindRow.1 with
          | .ok row => row.isSome
          | .error _ => false
        else !s.run.started

/-- The start of `QdbStreamGetNext`: a batch that is there already is handed out without a look
at the flag. -/
def read (s : Stream ρ σ α) : Stream ρ σ α :=
  match s.run.first with
  | some b =>
      { s with run := { s.run with first := none }, delivered := s.delivered ++ [b] }
  | none => { s with phase := .pulling }

/-- What a cancel leaves on record. -/
def cancel (s : Stream ρ σ α) : Stream ρ σ α :=
  { s with
    behindCancel := true
    cancelledAt :=
      if s.phase = .priming then s.cancelledAt
      else s.cancelledAt.or (some (s.delivered.length, s.run.executed.length)) }

/-- Nothing was delivered or executed since the cancel. -/
def Kept (s : Stream ρ σ α) : Prop :=
  ∀ c ∈ s.cancelledAt, c = (s.delivered.length, s.run.executed.length)

instance (s : Stream ρ σ α) : Decidable s.Kept :=
  inferInstanceAs (Decidable (∀ c ∈ s.cancelledAt, c = _))

/-- No batch and no execution follows the look that was made last. -/
def Halted (s : Stream ρ σ α) : Prop :=
  match s.progress with
  | .looking => True
  | .passed => s.hasMore = false
  | .fetched _ => False

instance (s : Stream ρ σ α) : Decidable s.Halted :=
  match h : s.progress with
  | .looking => isTrue (by unfold Halted; rw [h]; trivial)
  | .passed => decidable_of_iff (s.hasMore = false) (by unfold Halted; rw [h])
  | .fetched _ => isFalse (by unfold Halted; rw [h]; exact id)

end Stream

/-- A statement, by its flag and the runs it has started. -/
structure Statement (ρ σ α : Type*) where
  cancelled : Bool := false
  streams : List (Stream ρ σ α) := []

/-- The operations: `executeOther` is an `ExecuteQuery` that starts no run that is exported (an
ingest, an update, or a failure in between). -/
inductive Operation (ρ σ α : Type*) where
  | cancel
  | executeQuery (driver : Driver ρ σ α) (noColumns : σ) (bind : Option (BindStream ρ))
  | executeOther
  | executeSchema
  | read (i : Nat)
  | advance (i : Nat)
  | release (i : Nat)

namespace Statement

/-- One stream made another one. -/
def update (st : Statement ρ σ α) (i : Nat) (f : Stream ρ σ α → Stream ρ σ α) :
    Statement ρ σ α :=
  { st with streams := st.streams.modify i f }

/-- One operation. -/
def step (st : Statement ρ σ α) : Operation ρ σ α → Statement ρ σ α
  | .cancel => { cancelled := true, streams := st.streams.map Stream.cancel }
  | .executeQuery driver noColumns bind =>
      { cancelled := false
        streams := st.streams ++ [{ driver, noColumns, run := QdbRun.start bind }] }
  | .executeOther => { st with cancelled := false }
  | .executeSchema => st
  | .read i => st.update i fun s => if s.phase = .idle then s.read else s
  | .advance i =>
      st.update i fun s =>
        if s.phase = .priming ∨ s.phase = .pulling then s.advance st.cancelled else s
  | .release i => st.update i fun s => if s.phase = .idle then { s with phase := .gone } else s

/-- The statement behind a sequence of operations. -/
def after (ops : List (Operation ρ σ α)) : Statement ρ σ α := ops.foldl step {}

/-- A cancel does not return between the look of a read at the flag and a batch or an execution
that follows it; a read does not take a primed batch of a cancelled stream; and one of a cancelled
stream that has more does not look at the flag when the statement has been executed since. -/
def Careful (st : Statement ρ σ α) : Operation ρ σ α → Prop
  | .cancel => ∀ s ∈ st.streams, s.phase = .pulling → s.Halted
  | .read i => ∀ s ∈ st.streams[i]?, s.cancelledAt.isSome → s.phase = .idle → s.run.first = none
  | .advance i =>
      ∀ s ∈ st.streams[i]?, s.cancelledAt.isSome → s.phase = .pulling → s.progress = .looking →
        s.hasMore = true → st.cancelled = true
  | _ => True

instance (st : Statement ρ σ α) (op : Operation ρ σ α) : Decidable (st.Careful op) :=
  match op with
  | .read i => inferInstanceAs (Decidable (∀ s ∈ st.streams[i]?, _ → _ → s.run.first = none))
  | .advance i =>
      inferInstanceAs
        (Decidable (∀ s ∈ st.streams[i]?, _ → s.phase = .pulling → s.progress = .looking → _ → _))
  | .cancel => inferInstanceAs (Decidable (∀ s ∈ st.streams, _ → s.Halted))
  | .executeQuery _ _ _ => isTrue trivial
  | .executeOther => isTrue trivial
  | .executeSchema => isTrue trivial
  | .release _ => isTrue trivial

/-- Every operation is careful where it is made. -/
def CarefulFrom (st : Statement ρ σ α) : List (Operation ρ σ α) → Prop
  | [] => True
  | op :: ops => st.Careful op ∧ (st.step op).CarefulFrom ops

instance (st : Statement ρ σ α) (ops : List (Operation ρ σ α)) :
    Decidable (st.CarefulFrom ops) := by
  induction ops generalizing st with
  | nil => exact isTrue trivial
  | cons op ops ih => exact inferInstanceAs (Decidable (_ ∧ _))

/-- No stream has delivered a batch or started an execution since it was cancelled. -/
def Final (st : Statement ρ σ α) : Prop := ∀ s ∈ st.streams, s.Kept

/-- A stream that was started behind every cancel finds the flag down. -/
def Unaffected (st : Statement ρ σ α) : Prop :=
  ∀ s ∈ st.streams, s.behindCancel = false → st.cancelled = false

end Statement

/-! ## One step of a stream -/

/-- What a step may not change of a cancelled stream. -/
def SameRecord (s t : Stream ρ σ α) : Prop :=
  t.delivered = s.delivered ∧ t.run.executed = s.run.executed ∧ t.cancelledAt = s.cancelledAt

theorem SameRecord.kept {s t : Stream ρ σ α} (h : SameRecord s t) (hkept : s.Kept) : t.Kept := by
  obtain ⟨hdelivered, hexecuted, hcancelled⟩ := h
  unfold Stream.Kept
  rw [hdelivered, hexecuted, hcancelled]
  exact hkept

/-- Leaving ends the read, and touches no cancel. -/
theorem leave_frame (s : Stream ρ σ α) (p : Pulled σ α × QdbRun ρ σ α) :
    (s.leave p).progress = .looking ∧ (s.leave p).cancelledAt = s.cancelledAt ∧
      (s.leave p).behindCancel = s.behindCancel ∧ (s.leave p).phase ≠ .priming := by
  unfold Stream.leave
  split
  · exact ⟨rfl, rfl, rfl, fun h => by cases h⟩
  · exact ⟨rfl, rfl, rfl, fun h => by cases h⟩
  · exact ⟨rfl, rfl, rfl, fun h => by cases h⟩
  · exact ⟨rfl, rfl, rfl, fun h => by cases h⟩

/-- Without a batch there is nothing to deliver. -/
theorem leave_record (s : Stream ρ σ α) {result : Pulled σ α} {next : QdbRun ρ σ α}
    (hresult : ∀ b, result ≠ .ok (some b)) (h : next.executed = s.run.executed) :
    SameRecord s (s.leave (result, next)) := by
  unfold Stream.leave
  split
  · exact ⟨rfl, h, rfl⟩
  · exact ⟨rfl, h, rfl⟩
  · rename_i b hsome _
    exact absurd hsome (hresult b)
  · exact ⟨rfl, h, rfl⟩

theorem look_cancelled (s : Stream ρ σ α) : SameRecord s (s.look true) :=
  leave_record s (fun _ h => by cases h) rfl

/-- The next row is no matter of the looks so far. -/
theorem nextBindRow_looks (run : QdbRun ρ σ α) (n : Nat) :
    (QdbRun.nextBindRow { run with looks := n }).1 = run.nextBindRow.1 ∧
      (QdbRun.nextBindRow { run with looks := n }).2.executed = run.executed := by
  have hbatch : (QdbRun.nextBindBatch { run with looks := n }).1 = run.nextBindBatch.1 := by
    unfold QdbRun.nextBindBatch
    dsimp only
    cases (if run.bindSchemaValid then none else run.bind.getSchema) with
    | some e => rfl
    | none =>
        cases (nextRows run.bind.answers).1 with
        | error e => rfl
        | ok row =>
            cases row with
            | none => rfl
            | some row => rfl
  constructor
  · unfold QdbRun.nextBindRow
    dsimp only
    cases run.bindBatch with
    | none => exact hbatch
    | some b =>
        obtain ⟨rows, bindRow⟩ := b
        dsimp only
        cases rows[bindRow + 1]? with
        | none => exact hbatch
        | some row => rfl
  · obtain ⟨valid, bind, batch, hframe⟩ :=
      (nextBindRow_step ({ run with looks := n } : QdbRun ρ σ α)).frame
    rw [hframe]

/-- When there is no more, what follows a look neither executes nor fetches. -/
theorem follow_halted {s : Stream ρ σ α} (h : s.hasMore = false) :
    SameRecord s s.follow ∧ s.follow.progress = .looking := by
  unfold Stream.hasMore at h
  unfold Stream.follow
  cases hcursor : s.run.cursor with
  | some cursor =>
      rw [hcursor] at h
      have hbatches : cursor.batches = [] := by
        rw [Bool.not_eq_false', List.isEmpty_iff] at h
        exact h
      have hstep := fetch_step s.unflagged s.run cursor
      dsimp only
      cases hfetch : s.run.fetch s.unflagged cursor with
      | again next =>
          rw [hfetch] at hstep
          cases hstep with
          | ended _ _ _ _ _ hexecuted _ => exact ⟨⟨rfl, hexecuted, rfl⟩, rfl⟩
      | leave p =>
          rw [hfetch] at hstep
          cases hstep with
          | batch hsome => rw [hbatches] at hsome; cases hsome
          | failed _ _ _ hexecuted _ =>
              exact ⟨leave_record s (fun _ heq => by cases heq) hexecuted, (leave_frame s _).1⟩
  | none =>
      rw [hcursor] at h
      dsimp only at h ⊢
      obtain ⟨hrow, hexecuted⟩ := nextBindRow_looks s.run (s.run.looks + 1)
      unfold QdbRun.nextExecution Stream.unflagged
      dsimp only
      rw [if_neg Bool.false_ne_true]
      cases hutf8 : s.driver.utf8 with
      | some e => exact ⟨leave_record s (fun _ heq => by cases heq) rfl, (leave_frame s _).1⟩
      | none =>
          rw [hutf8, Option.isNone_none, Bool.true_and] at h
          dsimp only
          by_cases hbind : s.run.hasBind
          · rw [if_pos hbind] at h
            rw [if_neg (not_not.mpr hbind)]
            cases hres : QdbRun.nextBindRow { s.run with looks := s.run.looks + 1 } with
            | mk result next =>
                rw [hres] at hrow hexecuted
                rw [← hrow] at h
                cases result with
                | error e =>
                    exact ⟨leave_record s (fun _ heq => by cases heq) hexecuted,
                      (leave_frame s _).1⟩
                | ok row =>
                    cases row with
                    | some row => cases h
                    | none =>
                        exact ⟨leave_record s (fun _ heq => by cases heq) hexecuted,
                          (leave_frame s _).1⟩
          · rw [if_neg hbind] at h
            have hstarted : s.run.started = true := by
              rw [Bool.not_eq_false'] at h
              exact h
            rw [if_pos hbind, if_pos hstarted]
            exact ⟨leave_record s (fun _ heq => by cases heq) rfl, (leave_frame s _).1⟩

/-- A step touches no cancel, and does not come to rest between two looks. -/
theorem advance_frame (cancelled : Bool) (s : Stream ρ σ α) :
    (s.advance cancelled).cancelledAt = s.cancelledAt ∧
      (s.advance cancelled).behindCancel = s.behindCancel ∧
      ((s.advance cancelled).phase = s.phase ∨
        (s.advance cancelled).phase ≠ .priming ∧ (s.advance cancelled).progress = .looking) := by
  have hleave (p : Pulled σ α × QdbRun ρ σ α) :
      (s.leave p).cancelledAt = s.cancelledAt ∧ (s.leave p).behindCancel = s.behindCancel ∧
        ((s.leave p).phase = s.phase ∨
          (s.leave p).phase ≠ .priming ∧ (s.leave p).progress = .looking) := by
    obtain ⟨hlooking, hcancelledAt, hbehind, hphase⟩ := leave_frame s p
    exact ⟨hcancelledAt, hbehind, .inr ⟨hphase, hlooking⟩⟩
  unfold Stream.advance
  split
  · unfold Stream.look
    split
    · exact hleave _
    · exact ⟨rfl, rfl, .inl rfl⟩
  · unfold Stream.follow
    split
    · split
      · exact hleave _
      · exact hleave _
      · exact ⟨rfl, rfl, .inl rfl⟩
    · split
      · exact ⟨rfl, rfl, .inl rfl⟩
      · exact hleave _
      · exact ⟨rfl, rfl, .inl rfl⟩
  · exact hleave _

theorem read_frame (s : Stream ρ σ α) :
    s.read.cancelledAt = s.cancelledAt ∧ s.read.behindCancel = s.behindCancel := by
  unfold Stream.read
  split
  · exact ⟨rfl, rfl⟩
  · exact ⟨rfl, rfl⟩

theorem mem_update {st : Statement ρ σ α} {i : Nat} {f : Stream ρ σ α → Stream ρ σ α}
    {t : Stream ρ σ α} (h : t ∈ (st.update i f).streams) :
    t ∈ st.streams ∨ ∃ s, st.streams[i]? = some s ∧ t = f s := by
  obtain ⟨j, hj⟩ := List.mem_iff_getElem?.mp h
  unfold Statement.update at hj
  rw [List.getElem?_modify] at hj
  obtain ⟨s, hs, rfl⟩ := Option.map_eq_some_iff.mp hj
  by_cases hij : i = j
  · rw [if_pos hij]
    exact .inr ⟨s, hij ▸ hs, rfl⟩
  · rw [if_neg hij]
    exact .inl (List.mem_iff_getElem?.mpr ⟨j, hs⟩)

theorem mem_of_getElem? {st : Statement ρ σ α} {i : Nat} {s : Stream ρ σ α}
    (h : st.streams[i]? = some s) : s ∈ st.streams := List.mem_iff_getElem?.mpr ⟨i, h⟩

/-! ## One operation -/

/-- The flag is up only if a cancel has returned behind the start of every stream there is. -/
theorem step_unaffected {st : Statement ρ σ α} (h : st.Unaffected) (op : Operation ρ σ α) :
    (st.step op).Unaffected := by
  have hupdate : ∀ (i : Nat) (f : Stream ρ σ α → Stream ρ σ α),
      (∀ s, (f s).behindCancel = s.behindCancel) → (st.update i f).Unaffected := by
    intro i f hf t ht hbehind
    rcases mem_update ht with ht | ⟨s, hs, rfl⟩
    · exact h t ht hbehind
    · exact h s (mem_of_getElem? hs) ((hf s).symm.trans hbehind)
  cases op with
  | cancel =>
      intro t ht hbehind
      obtain ⟨s, -, rfl⟩ := List.mem_map.mp ht
      cases hbehind
  | executeQuery driver noColumns bind => exact fun _ _ _ => rfl
  | executeOther => exact fun _ _ _ => rfl
  | executeSchema => exact h
  | read i =>
      apply hupdate
      intro s
      split
      · exact (read_frame s).2
      · rfl
  | advance i =>
      apply hupdate
      intro s
      split
      · exact (advance_frame st.cancelled s).2.1
      · rfl
  | release i =>
      apply hupdate
      intro s
      split
      · rfl
      · rfl

/-- The invariant of a stream: once it was cancelled it keeps its record, and has nothing under
way. -/
structure Stopped (s : Stream ρ σ α) : Prop where
  kept : s.Kept
  exported : s.phase = .priming → s.cancelledAt = none
  resting : s.phase ≠ .priming → s.phase ≠ .pulling → s.progress = .looking
  halted : s.cancelledAt.isSome → s.Halted

theorem Stream.Halted.of_looking {s : Stream ρ σ α} (h : s.progress = .looking) : s.Halted := by
  unfold Stream.Halted
  rw [h]
  trivial

/-- A stream that was never cancelled. -/
theorem Stopped.of_none {s : Stream ρ σ α} (hnone : s.cancelledAt = none)
    (hresting : s.phase ≠ .priming → s.phase ≠ .pulling → s.progress = .looking) : Stopped s := by
  refine ⟨fun c hc => ?_, fun _ => hnone, hresting, fun hsome => ?_⟩
  · rw [hnone] at hc
    cases hc
  · rw [hnone] at hsome
    cases hsome

theorem Stopped.cancel {s : Stream ρ σ α} (h : Stopped s)
    (hhalted : s.phase = .pulling → s.Halted) :
    Stopped s.cancel := by
  by_cases hpriming : s.phase = .priming
  · apply Stopped.of_none
    · unfold Stream.cancel
      rw [if_pos hpriming]
      exact h.exported hpriming
    · exact fun hphase _ => absurd hpriming hphase
  refine ⟨?_, fun hphase => absurd hphase hpriming, h.resting, fun _ => ?_⟩
  · unfold Stream.Kept Stream.cancel
    rw [if_neg hpriming]
    intro c hc
    cases hcancelled : s.cancelledAt with
    | none =>
        rw [hcancelled] at hc
        exact (Option.some.inj hc).symm
    | some c' =>
        rw [hcancelled] at hc
        exact h.kept c (hcancelled.trans hc)
  · change s.Halted
    by_cases hpulling : s.phase = .pulling
    · exact hhalted hpulling
    · exact .of_looking (h.resting hpriming hpulling)

theorem Stopped.read {s : Stream ρ σ α} (h : Stopped s) (hidle : s.phase = .idle)
    (hfirst : s.cancelledAt.isSome → s.run.first = none) : Stopped s.read := by
  have hlooking : s.progress = .looking :=
    h.resting (by rw [hidle]; decide) (by rw [hidle]; decide)
  unfold Stream.read
  cases hbatch : s.run.first with
  | none =>
      refine ⟨SameRecord.kept ⟨rfl, rfl, rfl⟩ h.kept, fun hphase => ?_, fun _ hphase => ?_,
        fun _ => .of_looking hlooking⟩
      · cases hphase
      · exact absurd rfl hphase
  | some b =>
      -- only a stream that was never cancelled has a batch to hand out here
      have hnone : s.cancelledAt = none := by
        rw [← Option.not_isSome_iff_eq_none]
        intro hsome
        rw [hfirst hsome] at hbatch
        cases hbatch
      exact .of_none hnone fun _ _ => hlooking

theorem Stopped.advance {s : Stream ρ σ α} (h : Stopped s) (cancelled : Bool)
    (hactive : s.phase = .priming ∨ s.phase = .pulling)
    (hflag : s.cancelledAt.isSome → s.progress = .looking → s.hasMore = true → cancelled = true) :
    Stopped (s.advance cancelled) := by
  obtain ⟨hcancelledAt, -, hframe⟩ := advance_frame cancelled s
  have hresting : (s.advance cancelled).phase ≠ .priming → (s.advance cancelled).phase ≠ .pulling →
      (s.advance cancelled).progress = .looking := by
    intro hpriming hpulling
    rcases hframe with hphase | ⟨-, hlooking⟩
    · rw [hphase] at hpriming hpulling
      exact (hactive.elim hpriming hpulling).elim
    · exact hlooking
  by_cases hnone : s.cancelledAt = none
  · exact .of_none (hcancelledAt.trans hnone) hresting
  have hsome : s.cancelledAt.isSome := Option.isSome_iff_ne_none.mpr hnone
  have hstep : SameRecord s (s.advance cancelled) ∧ (s.advance cancelled).Halted := by
    have hhalted := h.halted hsome
    unfold Stream.Halted at hhalted
    unfold Stream.advance
    cases hprogress : s.progress with
    | looking =>
        cases cancelled with
        | true => exact ⟨look_cancelled s, .of_looking (leave_frame s _).1⟩
        | false =>
            have hmore : s.hasMore = false := by
              rw [← Bool.not_eq_true]
              exact fun hmore => by cases hflag hsome hprogress hmore
            exact ⟨⟨rfl, rfl, rfl⟩, hmore⟩
    | passed =>
        rw [hprogress] at hhalted
        obtain ⟨hrecord, hlooking⟩ := follow_halted hhalted
        exact ⟨hrecord, .of_looking hlooking⟩
    | fetched b =>
        rw [hprogress] at hhalted
        exact hhalted.elim
  refine ⟨hstep.1.kept h.kept, fun hpriming => ?_, hresting, fun _ => hstep.2⟩
  rcases hframe with hphase | ⟨hphase, -⟩
  · exact hcancelledAt.trans (h.exported (hphase.symm.trans hpriming))
  · exact absurd hpriming hphase

/-- The invariant of the statement. -/
def AllStopped (st : Statement ρ σ α) : Prop := ∀ s ∈ st.streams, Stopped s

/-- A careful operation keeps what was delivered and executed before the cancels. -/
theorem step_stopped {st : Statement ρ σ α} (h : AllStopped st) {op : Operation ρ σ α}
    (hcareful : st.Careful op) : AllStopped (st.step op) := by
  have hupdate : ∀ (i : Nat) (f : Stream ρ σ α → Stream ρ σ α),
      (∀ s, st.streams[i]? = some s → Stopped (f s)) → AllStopped (st.update i f) := by
    intro i f hf t ht
    rcases mem_update ht with ht | ⟨s, hs, rfl⟩
    · exact h t ht
    · exact hf s hs
  cases op with
  | cancel =>
      intro t ht
      obtain ⟨s, hs, rfl⟩ := List.mem_map.mp ht
      exact (h s hs).cancel (hcareful s hs)
  | executeQuery driver noColumns bind =>
      intro t ht
      rcases List.mem_append.mp ht with ht | ht
      · exact h t ht
      · rw [List.mem_singleton.mp ht]
        exact .of_none rfl fun _ _ => rfl
  | executeOther => exact h
  | executeSchema => exact h
  | read i =>
      apply hupdate
      intro s hs
      have hstopped := h s (mem_of_getElem? hs)
      split
      · rename_i hidle
        exact hstopped.read hidle fun hsome => hcareful s hs hsome hidle
      · exact hstopped
  | advance i =>
      apply hupdate
      intro s hs
      have hstopped := h s (mem_of_getElem? hs)
      split
      · rename_i hactive
        apply hstopped.advance st.cancelled hactive
        intro hsome
        apply hcareful s hs hsome
        apply hactive.resolve_left
        intro hpriming
        rw [hstopped.exported hpriming] at hsome
        cases hsome
      · exact hstopped
  | release i =>
      apply hupdate
      intro s hs
      have hstopped := h s (mem_of_getElem? hs)
      split
      · rename_i hidle
        refine ⟨SameRecord.kept ⟨rfl, rfl, rfl⟩ hstopped.kept, fun hphase => ?_, fun _ _ => ?_,
          hstopped.halted⟩
        · cases hphase
        · exact hstopped.resting (by rw [hidle]; decide) (by rw [hidle]; decide)
      · exact hstopped

/-! ## Every run -/

theorem run_unaffected (ops : List (Operation ρ σ α)) :
    (Statement.after ops).Unaffected := by
  have hrun : ∀ (ops : List (Operation ρ σ α)) (st : Statement ρ σ α), st.Unaffected →
      (ops.foldl Statement.step st).Unaffected := by
    intro ops
    induction ops with
    | nil => exact fun _ h => h
    | cons op ops ih => exact fun st h => ih (st.step op) (step_unaffected h op)
  apply hrun
  intro s hs
  cases hs

theorem run_stopped (ops : List (Operation ρ σ α)) :
    ∀ st : Statement ρ σ α, AllStopped st → st.CarefulFrom ops →
      AllStopped (ops.foldl Statement.step st) := by
  induction ops with
  | nil => exact fun _ h _ => h
  | cons op ops ih =>
      exact fun st h hcareful => ih (st.step op) (step_stopped h hcareful.1) hcareful.2

/-- Of every run, a stream that was started behind every cancel finds the flag down; and of
every run of careful operations, no stream delivers a batch or starts an execution once it was
cancelled. -/
theorem cancel_final (ops : List (Operation ρ σ α)) :
    (Statement.after ops).Unaffected ∧
      (Statement.CarefulFrom {} ops → (Statement.after ops).Final) := by
  refine ⟨run_unaffected ops, fun hcareful s hs => ?_⟩
  have hstart : AllStopped ({} : Statement ρ σ α) := fun s hs => by cases hs
  exact (run_stopped ops {} hstart hcareful s hs).kept

/-- Two executions of two batches each. -/
def twice : Driver Nat Nat String where
  execute _ _ := .ok ⟨[(0, "first"), (0, "second")], .done none none⟩

/-- So many steps of one stream. -/
def steps (n i : Nat) : List (Operation Nat Nat String) := List.replicate n (.advance i)

/-- A bound query, exported, and its first batch read. -/
def boundQuery : List (Operation Nat Nat String) :=
  .executeQuery twice 9 (some { answers := [.batch [7, 8]] }) :: steps 5 0 ++ [.read 0]

/-- Its stream is cancelled behind the first batch: the next read is refused, and a later execution
is not. -/
def refusedRead : List (Operation Nat Nat String) :=
  boundQuery ++ [.cancel, .read 0, .advance 0, .release 0, .executeQuery twice 9 none] ++
    steps 5 1 ++ [.read 1, .read 1] ++ steps 3 1

theorem cancel_final_refused :
    Statement.CarefulFrom {} refusedRead ∧ (Statement.after refusedRead).Final ∧
      (Statement.after refusedRead).Unaffected := by
  have hcareful : Statement.CarefulFrom {} refusedRead := by decide
  exact ⟨hcareful, (cancel_final refusedRead).2 hcareful, (cancel_final refusedRead).1⟩

/-- A cancel before the first read: the primed batch is handed out behind it. -/
def primedRead : List (Operation Nat Nat String) :=
  .executeQuery twice 9 none :: steps 5 0 ++ [.cancel, .read 0]

/-- A cancel that returns between the look of a read and its fetch. -/
def overtakenRead : List (Operation Nat Nat String) :=
  boundQuery ++ [.read 0, .advance 0, .cancel] ++ steps 2 0

/-- A cancel behind the first batch, and the statement executed again: the old stream goes on
with its second batch and its second row. -/
def executedAgain : List (Operation Nat Nat String) :=
  boundQuery ++ [.cancel, .executeQuery twice 9 none, .read 0] ++ steps 3 0 ++ [.read 0] ++
    steps 4 0

theorem cancel_not_final :
    ¬ (Statement.after primedRead).Final ∧ ¬ (Statement.after overtakenRead).Final ∧
      ¬ (Statement.after executedAgain).Final ∧
      (Statement.after executedAgain).streams.map (fun s => (s.cancelledAt, s.delivered,
          s.run.executed)) =
        [(some (1, 1), [(0, "first"), (0, "second")], [some 7, some 8]), (none, [], [])] := by
  unfold Statement.Final
  exact ⟨by decide, by decide, by decide, by decide⟩

/-! ## Steps and turns -/

section

variable {s : Stream ρ σ α}

theorem advance_looking (cancelled : Bool) (h : s.progress = .looking) :
    s.advance cancelled = s.look cancelled := by
  unfold Stream.advance
  rw [h]

theorem advance_passed (cancelled : Bool) (h : s.progress = .passed) :
    s.advance cancelled = s.follow := by
  unfold Stream.advance
  rw [h]

theorem leave_progress (s : Stream ρ σ α) (progress : Progress σ α)
    (p : Pulled σ α × QdbRun ρ σ α) :
    Stream.leave { s with progress := progress } p = s.leave p := by
  unfold Stream.leave
  rfl

/-- With the flag down, a look and a fetch, and the return when there is a batch. -/
theorem fetch_steps {cursor : Execution σ α} (h : s.progress = .looking)
    (hcursor : s.run.cursor = some cursor) :
    ∃ n, (Stream.advance false)^[n + 1] s =
      match s.run.fetch s.unflagged cursor with
      | .leave p => s.leave p
      | .again next => { s with run := next } := by
  have hlook : s.advance false = { s with progress := .passed } := advance_looking false h
  have hfollow : Stream.advance false { s with progress := .passed } =
      Stream.follow { s with progress := .passed } := advance_passed false rfl
  unfold Stream.follow at hfollow
  rw [hcursor] at hfollow
  change _ = match s.run.fetch s.unflagged cursor with
    | .leave (.ok (some b), next) => { s with run := next, progress := .fetched b }
    | .leave p => Stream.leave { s with progress := .passed } p
    | .again next => { s with run := next, progress := .looking } at hfollow
  cases hfetch : s.run.fetch s.unflagged cursor with
  | again next =>
      refine ⟨1, ?_⟩
      rw [Function.iterate_succ_apply, Function.iterate_one, hlook, hfollow, hfetch, ← h]
  | leave p =>
      rw [hfetch] at hfollow
      obtain ⟨result, next⟩ := p
      cases result with
      | error e =>
          refine ⟨1, ?_⟩
          rw [Function.iterate_succ_apply, Function.iterate_one, hlook, hfollow]
          exact leave_progress s _ _
      | ok batch =>
          cases batch with
          | none =>
              refine ⟨1, ?_⟩
              rw [Function.iterate_succ_apply, Function.iterate_one, hlook, hfollow]
              exact leave_progress s _ _
          | some b =>
              refine ⟨2, ?_⟩
              rw [Function.iterate_succ_apply, Function.iterate_succ_apply, Function.iterate_one,
                hlook, hfollow]
              unfold Stream.advance Stream.leave
              rfl

/-- With the flag down, the steps from one look on are a turn of the loop of `QdbRunNextArrow`. -/
theorem advance_turn (h : s.progress = .looking) :
    ∃ n, (Stream.advance false)^[n + 1] s =
      match s.run.turn s.unflagged with
      | .leave p => s.leave p
      | .again next => { s with run := next } := by
  unfold QdbRun.turn
  cases hcursor : s.run.cursor with
  | some cursor => exact fetch_steps h hcursor
  | none =>
      have hlook : s.advance false = { s with progress := .passed } := advance_looking false h
      have hfollow : Stream.advance false { s with progress := .passed } =
          Stream.follow { s with progress := .passed } := advance_passed false rfl
      unfold Stream.follow at hfollow
      rw [hcursor] at hfollow
      change _ = match s.run.nextExecution s.unflagged with
        | (.error e, next) => Stream.leave { s with progress := .passed } (.error e, next)
        | (.ok none, next) => Stream.leave { s with progress := .passed } (.ok none, next)
        | (.ok (some cursor), next) =>
            { s with run := { next with cursor := some cursor }, progress := .looking } at hfollow
      cases hnext : s.run.nextExecution s.unflagged with
      | mk result next =>
          rw [hnext] at hfollow
          cases result with
          | error e =>
              refine ⟨1, ?_⟩
              rw [Function.iterate_succ_apply, Function.iterate_one, hlook, hfollow]
              exact leave_progress s _ _
          | ok cursor =>
              cases cursor with
              | none =>
                  refine ⟨1, ?_⟩
                  rw [Function.iterate_succ_apply, Function.iterate_one, hlook, hfollow]
                  exact leave_progress s _ _
              | some cursor =>
                  obtain ⟨n, hsteps⟩ := @fetch_steps _ _ _
                    { s with run := { next with cursor := some cursor }, progress := .looking }
                    cursor rfl rfl
                  refine ⟨n + 2, ?_⟩
                  rw [Function.iterate_succ_apply, Function.iterate_succ_apply, hlook, hfollow,
                    hsteps]
                  change (match QdbRun.fetch s.unflagged { next with cursor := some cursor } cursor
                    with
                    | .leave p => _
                    | .again next => _) = _
                  rw [fetch_cursor]
                  dsimp only
                  cases next.fetch s.unflagged cursor with
                  | leave p => rfl
                  | again next => rw [← h]

/-- With the flag up, a look ends the read. -/
theorem advance_refused (h : s.progress = .looking) :
    s.advance true =
      s.leave (.error cancelledError, { s.run with looks := s.run.looks + 1 }) := by
  rw [advance_looking true h]
  rfl

end

end AdbcBridge.Questdb.Cancel
