import AdbcBridge.Questdb.Ingest
import Mathlib

/-!
# The frames of a QuestDB ingest

The loop of `QdbIngest` that sends the bound batches one by one, and what a statement
keeps of the stream from one `ExecuteQuery` to the next.  What comes before the loop is
`Ingest.qdbIngest`; the server, the stream and the `Cancel` calls answer through
arguments.
-/

namespace AdbcBridge.Questdb.SendLoop

open AdbcBridge.Adbc AdbcBridge.Lib.Decimal AdbcBridge.Questdb.Ingest

/-- An answer of `get_next` before the end of the stream. -/
inductive StreamAnswer (ρ : Type*) where
  | batch (rows : List ρ)
  | failed (message : List Char)
deriving DecidableEq, Repr

/-- The answers during one execution: those before the loop, whether a `Cancel` came
before the n-th look at the flag, the n-th flush, and the wait for the rows. -/
structure Attempt where
  stmt : QdbStatement
  setup : Driver Unit
  cancelled : Nat → Bool := fun _ => false
  flush : Nat → Option AdbcError := fun _ => none
  waitForApply : Bool := true
  applied : Option AdbcError := none

/-- The part of a statement that outlives an execution, with the stream as it was bound
and the batches sent of it. -/
structure Statement (ρ : Type*) where
  cancelled : Bool := false
  bind : Option (List (StreamAnswer ρ)) := none
  bound : List (StreamAnswer ρ) := []
  sent : List (List ρ) := []
deriving DecidableEq, Repr

variable {ρ : Type*}

/-! ## The loop -/

/-- What the loop leaves. -/
structure Frames (ρ : Type*) where
  status : Option AdbcError
  left : List (StreamAnswer ρ)
  sent : List (List ρ)
  rows : Nat
  cancelled : Bool
deriving DecidableEq, Repr

def cancelledError (rows : Nat) : AdbcError :=
  ⟨.cancelled, "Ingest cancelled after ".toList ++ intText rows ++ " rows".toList⟩

def getNextError (message : List Char) : AdbcError :=
  ⟨.invalidArgument, "Bound data: get_next failed: ".toList ++ message⟩

/-- The send loop of `QdbIngest`, with the flag, the batches sent so far and their rows. -/
def sendLoop (a : Attempt) : List (StreamAnswer ρ) → Bool → List (List ρ) → Nat → Frames ρ
  | [], cancelled, sent, rows => ⟨none, [], sent, rows, cancelled⟩
  | .failed message :: answers, cancelled, sent, rows =>
      ⟨some (getNextError message), answers, sent, rows, cancelled⟩
  | .batch [] :: answers, cancelled, sent, rows => sendLoop a answers cancelled sent rows
  | .batch (row :: more) :: answers, cancelled, sent, rows =>
      -- The batch has been taken from the stream: neither failure gives it back.
      if cancelled || a.cancelled sent.length then
        ⟨some (cancelledError rows), answers, sent, rows, true⟩
      else
        match a.flush sent.length with
        | some e => ⟨some e, answers, sent, rows, false⟩
        | none =>
            sendLoop a answers false (sent ++ [row :: more]) (rows + (row :: more).length)

/-- `QdbIngest` of a statement, from its first call on. -/
def qdbIngestFrames (a : Attempt) (s : Statement ρ) : Option AdbcError × Frames ρ :=
  match (qdbIngest a.setup { a.stmt with hasBind := s.bind.isSome } none).failure with
  | some failure =>
      (some (failure.error a.stmt), ⟨none, s.bind.getD [], [], 0, s.cancelled⟩)
  | none =>
      let frames := sendLoop a (s.bind.getD []) s.cancelled [] 0
      (if frames.status = none ∧ 0 < frames.rows ∧ a.waitForApply then a.applied
        else frames.status, frames)

/-- `QdbStatementExecuteQuery` of an ingest: the rows it reports, and the statement. -/
def executeQuery (a : Attempt) (s : Statement ρ) : Except AdbcError Nat × Statement ρ :=
  let reset := { s with cancelled := false }
  let (status, frames) := qdbIngestFrames a reset
  match status with
  | some e =>
      (.error e, { reset with
        cancelled := frames.cancelled
        bind := s.bind.map fun _ => frames.left
        sent := s.sent ++ frames.sent })
  | none =>
      (.ok frames.rows, { reset with
        cancelled := frames.cancelled
        bind := none
        sent := s.sent ++ frames.sent })

/-- A call on the statement: `Bind` or `BindStream`, `ExecuteQuery`, or a `Cancel`
outside of one. -/
inductive Call (ρ : Type*) where
  | bind (answers : List (StreamAnswer ρ))
  | execute (a : Attempt)
  | cancel

def Statement.step (s : Statement ρ) : Call ρ → Statement ρ
  | .bind answers => { s with bind := some answers, bound := answers, sent := [] }
  | .execute a => (executeQuery a s).2
  | .cancel => { s with cancelled := true }

/-- The statement after a run of calls. -/
def run (calls : List (Call ρ)) : Statement ρ :=
  calls.foldl Statement.step {}

/-! ## Which batches are there -/

/-- The batches of a stream that are not empty. -/
def batches : List (StreamAnswer ρ) → List (List ρ)
  | [] => []
  | .failed _ :: answers => batches answers
  | .batch [] :: answers => batches answers
  | .batch (row :: more) :: answers => (row :: more) :: batches answers

/-- Those that come before the next failure of the stream. -/
def ahead : List (StreamAnswer ρ) → List (List ρ)
  | [] => []
  | .failed _ :: _ => []
  | .batch [] :: answers => ahead answers
  | .batch (row :: more) :: answers => (row :: more) :: ahead answers

def rowCount (sent : List (List ρ)) : Nat :=
  (sent.map List.length).sum

/-- No look at the flag behind one of the batches ahead finds it set, and no flush of one
fails; `n` have been sent before. -/
def Clear (a : Attempt) (n : Nat) (answers : List (StreamAnswer ρ)) : Prop :=
  ∀ k < (ahead answers).length, a.cancelled (n + k) = false ∧ a.flush (n + k) = none

/-- An execution that gets to its loop and loses a batch there. -/
def Drops (a : Attempt) (s : Statement ρ) : Prop :=
  (qdbIngest a.setup { a.stmt with hasBind := s.bind.isSome } none).failure = none ∧
    ¬ Clear a 0 (s.bind.getD [])

/-- No execution since the last `Bind` has lost a batch. -/
def Kept (calls : List (Call ρ)) : Prop :=
  ∀ pre a post, calls = pre ++ .execute a :: post →
    (∀ call ∈ post, ∀ answers, call ≠ .bind answers) → ¬ Drops a (run pre)

/-! ## One execution -/

theorem clear_cons {a : Attempt} {n : Nat} {row : ρ} {more : List ρ}
    {answers : List (StreamAnswer ρ)} :
    Clear a n (.batch (row :: more) :: answers) ↔
      (a.cancelled n = false ∧ a.flush n = none) ∧ Clear a (n + 1) answers := by
  unfold Clear
  rw [ahead, List.length_cons]
  constructor
  · intro h
    refine ⟨h 0 (Nat.succ_pos _), fun k hk => ?_⟩
    have hnext := h (k + 1) (Nat.succ_lt_succ hk)
    rwa [← Nat.add_assoc, Nat.add_right_comm] at hnext
  · rintro ⟨hhere, hnext⟩ k hk
    cases k with
    | zero => exact hhere
    | succ k =>
        rw [← Nat.add_assoc, Nat.add_right_comm]
        exact hnext k (Nat.lt_of_succ_lt_succ hk)

theorem ahead_le (answers : List (StreamAnswer ρ)) :
    (ahead answers).length ≤ (batches answers).length := by
  induction answers using batches.induct with
  | case1 => exact Nat.le_refl 0
  | case2 message answers ih => exact Nat.zero_le _
  | case3 answers ih => exact ih
  | case4 row more answers ih => exact Nat.succ_le_succ ih

/-- What the loop does: it sends `now`, and either nothing is lost or it fails and less
is left than there was. -/
structure SendStep (a : Attempt) (answers : List (StreamAnswer ρ)) (before : List (List ρ))
    (counted : Nat) (frames : Frames ρ) (now : List (List ρ)) : Prop where
  sent : frames.sent = before ++ now
  rows : frames.rows = counted + rowCount now
  ended : frames.status = none → frames.left = []
  kept : Clear a before.length answers → now ++ batches frames.left = batches answers
  lost : ¬ Clear a before.length answers → frames.status ≠ none ∧
    now.length + (batches frames.left).length < (batches answers).length

/-- The loop on one batch that is not empty: it is lost, or sent before the others. -/
theorem sendLoop_batch {a : Attempt} {row : ρ} {more : List ρ}
    {answers : List (StreamAnswer ρ)} {sent : List (List ρ)} {rows : Nat}
    (ih : ∃ now, SendStep a answers (sent ++ [row :: more]) (rows + (row :: more).length)
      (sendLoop a answers false (sent ++ [row :: more]) (rows + (row :: more).length)) now) :
    ∃ now, SendStep a (.batch (row :: more) :: answers) sent rows
      (sendLoop a (.batch (row :: more) :: answers) false sent rows) now := by
  rw [sendLoop, Bool.false_or]
  split
  · rename_i hcancelled
    have hdropped : ¬ Clear a sent.length (.batch (row :: more) :: answers) := by
      rw [clear_cons, hcancelled]
      simp
    refine ⟨[], (List.append_nil sent).symm, rfl, (fun h => nomatch h),
      fun hclear => absurd hclear hdropped, fun _ => ⟨(fun h => nomatch h), ?_⟩⟩
    rw [List.length_nil, Nat.zero_add, batches]
    exact Nat.lt_succ_self _
  · rename_i hopen
    split
    · rename_i e hflush
      have hdropped : ¬ Clear a sent.length (.batch (row :: more) :: answers) := by
        rw [clear_cons, hflush]
        simp
      refine ⟨[], (List.append_nil sent).symm, rfl, (fun h => nomatch h),
        fun hclear => absurd hclear hdropped, fun _ => ⟨(fun h => nomatch h), ?_⟩⟩
      rw [List.length_nil, Nat.zero_add, batches]
      exact Nat.lt_succ_self _
    · rename_i hflush
      obtain ⟨now, h⟩ := ih
      have hhere : a.cancelled sent.length = false ∧ a.flush sent.length = none :=
        ⟨by simpa using hopen, hflush⟩
      have hclear : Clear a sent.length (.batch (row :: more) :: answers) ↔
          Clear a (sent ++ [row :: more]).length answers := by
        rw [clear_cons, List.length_append, List.length_singleton]
        exact and_iff_right hhere
      refine ⟨(row :: more) :: now, ?_, ?_, h.ended, fun hc => ?_, fun hc => ?_⟩
      · rw [h.sent, List.append_assoc, List.singleton_append]
      · rw [h.rows, rowCount, rowCount, List.map_cons, List.sum_cons, Nat.add_assoc]
      · rw [List.cons_append, h.kept (hclear.mp hc), batches]
      · obtain ⟨hstatus, hless⟩ := h.lost (hclear.not.mp hc)
        refine ⟨hstatus, ?_⟩
        change now.length + 1 + _ < (batches answers).length + 1
        omega

theorem sendLoop_step (a : Attempt) (answers : List (StreamAnswer ρ)) (sent : List (List ρ))
    (rows : Nat) :
    ∃ now, SendStep a answers sent rows (sendLoop a answers false sent rows) now := by
  induction answers using batches.induct generalizing sent rows with
  | case1 =>
      exact ⟨[], (List.append_nil sent).symm, rfl, fun _ => rfl, fun _ => rfl,
        fun h => absurd (fun k hk => absurd hk (Nat.not_lt_zero k)) h⟩
  | case2 message answers ih =>
      exact ⟨[], (List.append_nil sent).symm, rfl, (fun h => nomatch h), fun _ => rfl,
        fun h => absurd (fun k hk => absurd hk (Nat.not_lt_zero k)) h⟩
  | case3 answers ih =>
      obtain ⟨now, h⟩ := ih sent rows
      exact ⟨now, h.sent, h.rows, h.ended, h.kept, h.lost⟩
  | case4 row more answers ih => exact sendLoop_batch (ih _ _)

/-- What an execution does to the stream and to what was sent of it. -/
structure ExecuteStep (a : Attempt) (s : Statement ρ) (now : List (List ρ)) : Prop where
  sent : (executeQuery a s).2.sent = s.sent ++ now
  bound : (executeQuery a s).2.bound = s.bound
  rows : ∀ n, (executeQuery a s).1 = .ok n → n = rowCount now
  ended : ∀ n, (executeQuery a s).1 = .ok n → (executeQuery a s).2.bind = none ∧ ¬ Drops a s
  kept : ¬ Drops a s →
    now ++ batches ((executeQuery a s).2.bind.getD []) = batches (s.bind.getD [])
  lost : Drops a s → now.length + (batches ((executeQuery a s).2.bind.getD [])).length <
    (batches (s.bind.getD [])).length

theorem executeQuery_step (a : Attempt) (s : Statement ρ) : ∃ now, ExecuteStep a s now := by
  cases hsetup : (qdbIngest a.setup { a.stmt with hasBind := s.bind.isSome } none).failure with
  | some failure =>
      have hrun : executeQuery a s = (.error (failure.error a.stmt),
          { s with cancelled := false, bind := s.bind.map fun _ => s.bind.getD [] }) := by
        simp only [executeQuery, qdbIngestFrames, hsetup, List.append_nil]
      have hbind : (s.bind.map fun _ => s.bind.getD []).getD [] = s.bind.getD [] := by
        cases s.bind <;> rfl
      have hdrops : ¬ Drops a s := by
        rintro ⟨hnone, -⟩
        rw [hsetup] at hnone
        cases hnone
      refine ⟨[], ?_, ?_, ?_, ?_, fun _ => ?_, fun h => absurd h hdrops⟩
      · rw [hrun, List.append_nil]
      · rw [hrun]
      · rw [hrun]
        exact fun n h => absurd h (by simp)
      · rw [hrun]
        exact fun n h => absurd h (by simp)
      · rw [hrun, List.nil_append, hbind]
  | none =>
      obtain ⟨now, h⟩ := sendLoop_step a (s.bind.getD []) [] 0
      generalize hframes : sendLoop a (s.bind.getD []) false [] 0 = frames at h
      have hdrops : Drops a s ↔ ¬ Clear a 0 (s.bind.getD []) := by
        rw [Drops, hsetup]
        exact and_iff_right rfl
      have hsent : frames.sent = now := h.sent
      have hrows : frames.rows = rowCount now := h.rows.trans (Nat.zero_add _)
      have hcalled : qdbIngestFrames a { s with cancelled := false } =
          (if frames.status = none ∧ 0 < frames.rows ∧ a.waitForApply then a.applied
            else frames.status, frames) := by
        simp only [qdbIngestFrames, hsetup, hframes]
      have hbound : s.bind.isSome := by
        by_contra hnone
        rw [Bool.not_eq_true] at hnone
        rw [hnone] at hsetup
        simp [qdbIngest] at hsetup
      have hleft : (s.bind.map fun _ => frames.left).getD [] = frames.left := by
        obtain ⟨answers, hanswers⟩ := Option.isSome_iff_exists.mp hbound
        rw [hanswers]
        rfl
      refine ⟨now, ?_⟩
      cases hstatus : (if frames.status = none ∧ 0 < frames.rows ∧ a.waitForApply then a.applied
          else frames.status) with
      | some e =>
          have hrun : executeQuery a s = (.error e, { s with
              cancelled := frames.cancelled
              bind := s.bind.map fun _ => frames.left
              sent := s.sent ++ frames.sent }) := by
            simp only [executeQuery, hcalled, hstatus]
          constructor
          · rw [hrun, hsent]
          · rw [hrun]
          · rw [hrun]
            exact fun n h => absurd h (by simp)
          · rw [hrun]
            exact fun n h => absurd h (by simp)
          · intro hkept
            rw [hrun]
            dsimp only
            rw [hleft]
            exact h.kept (not_not.mp (hdrops.not.mp hkept))
          · intro hlost
            rw [hrun]
            dsimp only
            rw [hleft]
            exact (h.lost (hdrops.mp hlost)).2
      | none =>
          have hrun : executeQuery a s = (.ok frames.rows, { s with
              cancelled := frames.cancelled
              bind := none
              sent := s.sent ++ frames.sent }) := by
            simp only [executeQuery, hcalled, hstatus]
          have hdone : frames.status = none := by
            split at hstatus
            · rename_i hdone
              exact hdone.1
            · exact hstatus
          have hclear : ¬ Drops a s := fun hlost => (h.lost (hdrops.mp hlost)).1 hdone
          refine ⟨?_, ?_, ?_, ?_, fun _ => ?_, fun hlost => absurd hlost hclear⟩
          · rw [hrun, hsent]
          · rw [hrun]
          · rw [hrun]
            intro n hn
            rw [← Except.ok.inj hn, hrows]
          · rw [hrun]
            exact fun n _ => ⟨rfl, hclear⟩
          · have hall := h.kept (not_not.mp (hdrops.not.mp hclear))
            rw [h.ended hdone] at hall
            rw [hrun]
            exact hall

/-! ## A run of calls -/

theorem run_snoc (calls : List (Call ρ)) (call : Call ρ) :
    run (calls ++ [call]) = (run calls).step call := by
  rw [run, List.foldl_append]
  rfl

theorem kept_nil : Kept ([] : List (Call ρ)) := by
  intro pre a post h
  simp at h

theorem kept_bind (calls : List (Call ρ)) (answers : List (StreamAnswer ρ)) :
    Kept (calls ++ [.bind answers]) := by
  intro pre a post h hpost
  rcases post.eq_nil_or_concat with rfl | ⟨post, call, rfl⟩
  · cases (List.append_inj' h rfl).2
  · rw [List.concat_eq_append, ← List.cons_append, ← List.append_assoc] at h
    have hcall := List.singleton_inj.mp (List.append_inj' h rfl).2
    exact absurd hcall.symm (hpost call (by simp) answers)

/-- A call that is no `Bind` adds itself to those that matter. -/
theorem kept_snoc {calls : List (Call ρ)} {call : Call ρ}
    (hcall : ∀ answers, call ≠ .bind answers) :
    Kept (calls ++ [call]) ↔ Kept calls ∧ ∀ a, call = .execute a → ¬ Drops a (run calls) := by
  constructor
  · intro h
    refine ⟨fun pre a post heq hpost => h pre a (post ++ [call]) (by simp [heq]) ?_, ?_⟩
    · intro c hc
      rcases List.mem_append.mp hc with hc | hc
      · exact hpost c hc
      · rw [List.mem_singleton.mp hc]
        exact hcall
    · rintro a rfl
      exact h calls a [] rfl (by simp)
  · rintro ⟨h, hlast⟩ pre a post heq hpost
    rcases post.eq_nil_or_concat with rfl | ⟨post, c, rfl⟩
    · obtain ⟨rfl, hc⟩ := List.append_inj' heq rfl
      exact hlast a (List.singleton_inj.mp hc)
    · rw [List.concat_eq_append, ← List.cons_append, ← List.append_assoc] at heq
      exact h pre a post (List.append_inj' heq rfl).1 fun c hc => hpost c (by simp [hc])

/-- The batches of the bound stream are those sent and those left, unless one was lost. -/
structure Accounts (s : Statement ρ) (kept : Prop) : Prop where
  all : kept → s.sent ++ batches (s.bind.getD []) = batches s.bound
  less : ¬ kept → s.sent.length + (batches (s.bind.getD [])).length < (batches s.bound).length

theorem execute_accounts {a : Attempt} {s : Statement ρ} {kept : Prop} (h : Accounts s kept) :
    Accounts (executeQuery a s).2 (kept ∧ ¬ Drops a s) := by
  obtain ⟨now, hstep⟩ := executeQuery_step a s
  constructor
  · rintro ⟨hkept, hdrops⟩
    rw [hstep.sent, hstep.bound, List.append_assoc, hstep.kept hdrops, h.all hkept]
  · intro hlost
    rw [hstep.sent, hstep.bound, List.length_append]
    have hwas : s.sent.length + (batches (s.bind.getD [])).length ≤ (batches s.bound).length := by
      by_cases hkept : kept
      · rw [← h.all hkept, List.length_append]
      · exact (h.less hkept).le
    by_cases hdrops : Drops a s
    · have hless := hstep.lost hdrops
      omega
    · have hkept : ¬ kept := fun hkept => hlost ⟨hkept, hdrops⟩
      have hsame := congrArg List.length (hstep.kept hdrops)
      rw [List.length_append] at hsame
      have hless := h.less hkept
      omega

theorem run_accounts (calls : List (Call ρ)) : Accounts (run calls) (Kept calls) := by
  induction calls using List.reverseRecOn with
  | nil => exact ⟨fun _ => rfl, fun h => absurd kept_nil h⟩
  | append_singleton calls call ih =>
      rw [run_snoc]
      cases call with
      | bind answers => exact ⟨fun _ => rfl, fun h => absurd (kept_bind calls answers) h⟩
      | execute a =>
          have hkept : Kept (calls ++ [.execute a]) ↔ Kept calls ∧ ¬ Drops a (run calls) := by
            rw [kept_snoc (by simp)]
            exact and_congr_right fun _ =>
              ⟨fun h => h a rfl, fun h a' ha' => Call.execute.inj ha' ▸ h⟩
          rw [hkept]
          exact execute_accounts ih
      | cancel =>
          have hkept : Kept (calls ++ [.cancel]) ↔ Kept calls := by
            rw [kept_snoc (by simp)]
            exact and_iff_left fun a h => nomatch h
          rw [hkept]
          exact ⟨ih.all, ih.less⟩

/-- An execution that succeeds has sent its rows, and all the batches of the stream have
been sent once exactly when none was lost since it was bound. -/
theorem sends_all_iff (calls : List (Call ρ)) (a : Attempt) {n : Nat} {s : Statement ρ}
    (h : executeQuery a (run calls) = (.ok n, s)) :
    (∃ now, s.sent = (run calls).sent ++ now ∧ n = rowCount now) ∧
      (s.sent = batches s.bound ↔ Kept calls) := by
  obtain ⟨now, hstep⟩ := executeQuery_step a (run calls)
  have hresult : (executeQuery a (run calls)).1 = .ok n := congrArg Prod.fst h
  have hs : (executeQuery a (run calls)).2 = s := congrArg Prod.snd h
  obtain ⟨hbind, hdrops⟩ := hstep.ended n hresult
  have haccounts := execute_accounts (a := a) (run_accounts calls)
  rw [hs] at haccounts hbind
  refine ⟨⟨now, hs ▸ hstep.sent, hstep.rows n hresult⟩, fun hall => ?_, fun hkept => ?_⟩
  · by_contra hlost
    have hless := haccounts.less fun hkept => hlost hkept.1
    rw [hall, hbind] at hless
    simp [batches] at hless
  · have hall := haccounts.all ⟨hkept, hdrops⟩
    rw [hbind] at hall
    exact (List.append_nil s.sent).symm.trans hall

/-- A client that has no table yet and creates it. -/
def fresh : Attempt where
  stmt := { hasBind := true, ingestTable := ['t'], ingestMode := .createAppend }
  setup :=
    { tableNameInit := none
      findTable := .ok (some ⟨none⟩)
      drop := ⟨none, id⟩
      getSchema := .ok []
      create := ⟨none, id⟩
      frames := none
      sent := id }

/-- The calls of an application that cancels behind the first batch and tries again. -/
def cancelledOnce : List (Call Nat) :=
  [.bind [.batch [1, 2], .batch [3], .batch [4]],
    .execute { fresh with cancelled := fun n => n = 1 }]

/-- The second attempt succeeds with one row and the batch in the middle was never sent. -/
theorem cancelled_loses_batch :
    (executeQuery fresh (run cancelledOnce)).1 = .ok 1 ∧
      (executeQuery fresh (run cancelledOnce)).2.sent = [[1, 2], [4]] ∧
      batches (executeQuery fresh (run cancelledOnce)).2.bound = [[1, 2], [3], [4]] := by
  decide

/-- A stream whose `get_next` fails once is gone on with where it stood. -/
def failedOnce : List (Call Nat) :=
  [.bind [.batch [1, 2], .batch [], .failed [], .batch [4]], .execute fresh, .cancel]

theorem sends_all_failedOnce :
    (executeQuery fresh (run failedOnce)).2.sent = [[1, 2], [4]] ∧
      (executeQuery fresh (run failedOnce)).2.sent =
        batches (executeQuery fresh (run failedOnce)).2.bound ∧ Kept failedOnce := by
  have hok : executeQuery fresh (run failedOnce) =
      (.ok 1, (executeQuery fresh (run failedOnce)).2) := by decide
  have hsent : (executeQuery fresh (run failedOnce)).2.sent =
      batches (executeQuery fresh (run failedOnce)).2.bound := by decide
  exact ⟨by decide, hsent, (sends_all_iff failedOnce fresh hok).2.mp hsent⟩

end AdbcBridge.Questdb.SendLoop
