import AdbcBridge.Lib.Ring
import AdbcBridge.Lib.Run
import Mathlib.Data.Fintype.Card

/-!
# The ingest queue

The bounded queue between the pump and the workers of a parallel ingest.  Each
operation is what it does in one turn under the lock; a party whose turn has to
wait sleeps on a condition variable and takes another turn once it has been
woken, by a signal, by a broadcast or for no reason at all.
-/

namespace AdbcBridge.Ingest.Queue

open AdbcBridge.Lib

variable {α ω : Type*}

/-! ## The operations, one turn under the lock -/

/-- `IngestQueue`; the capacity never changes and is a parameter. -/
structure IngestQueue (α : Type*) where
  ring : RingBuffer α
  done : Bool
  failed : Bool

/-- `QueueInit`. -/
def queueInit : IngestQueue α := ⟨.empty, false, false⟩

inductive PushTurn (α : Type*)
  | wait
  | failed
  | pushed (q : IngestQueue α)

/-- `QueuePush`; a push that went through signals `not_empty`. -/
def queuePush (cap : Nat) (q : IngestQueue α) (a : α) : PushTurn α :=
  if q.ring.count = cap ∧ q.failed = false then .wait
  else if q.failed then .failed
  else .pushed { q with ring := q.ring.push cap a }

inductive PopTurn (α : Type*)
  | wait
  | failed
  | endOfStream
  | ok (out : Option α) (q : IngestQueue α)

/-- `QueuePop`; a pop that takes a batch signals `not_full`. -/
def queuePop (cap : Nat) (q : IngestQueue α) : PopTurn α :=
  if q.ring.count = 0 ∧ q.done = false ∧ q.failed = false then .wait
  else if q.failed then .failed
  else if q.ring.count = 0 then .endOfStream
  else .ok (q.ring.slots q.ring.head) { q with ring := q.ring.drop cap }

/-- `QueueFinish`; it broadcasts both condition variables. -/
def queueFinish (q : IngestQueue α) : IngestQueue α := { q with done := true }

/-- `QueueFail`; it broadcasts both condition variables. -/
def queueFail (q : IngestQueue α) : IngestQueue α := { q with failed := true }

/-- The batches `QueueDestroy` drops. -/
def queueDestroy (cap : Nat) (q : IngestQueue α) : List α := q.ring.toList cap

inductive StreamAnswer (α : Type*)
  | batch (out : Option α)
  | endOfStream
  | error (collateral : Bool)

/-- `WorkerStreamGetNext`, for a turn of its pop that does not have to wait. -/
def workerStreamGetNext (cap : Nat) (q : IngestQueue α) : Option (StreamAnswer α) :=
  match queuePop cap q with
  | .wait => none
  | .ok out _ => some (.batch out)
  | .endOfStream => some .endOfStream
  | .failed => some (.error true)

/-! ## The parties -/

/-- Where a party stands: outside the queue, asleep in a condition variable, or
woken and on its way to the lock; the last two inside a call. -/
inductive Phase (β : Type*)
  | idle
  | waiting (call : β)
  | woken (call : β)
  deriving DecidableEq

/-- What a broadcast does to a party. -/
def Phase.wake {β : Type*} : Phase β → Phase β
  | .waiting call => .woken call
  | phase => phase

section Wake

variable {β : Type*} (phase : Phase β) (call : β)

@[simp] theorem Phase.wake_idle : (idle : Phase β).wake = .idle := rfl
@[simp] theorem Phase.wake_waiting : (waiting call).wake = .woken call := rfl
@[simp] theorem Phase.wake_woken : (woken call).wake = .woken call := rfl

theorem Phase.wake_ne_waiting : phase.wake ≠ .waiting call := by
  cases phase <;> simp

end Wake

/-- The party may take a turn: for a new call, or for the one it was woken in. -/
def Phase.Enters {β : Type*} (phase : Phase β) (call : β) : Prop :=
  phase = .idle ∨ phase = .woken call

inductive Party (ω : Type*)
  | pump
  | worker (w : ω)

structure System (α ω : Type*) where
  queue : IngestQueue α
  pump : Phase α
  workers : ω → Phase Unit

namespace System

def start : System α ω := ⟨queueInit, .idle, fun _ => .idle⟩

/-- The party is outside the queue. -/
def Outside (s : System α ω) : Party ω → Prop
  | .pump => s.pump = .idle
  | .worker w => s.workers w = .idle

/-- Both broadcasts, with the queue they leave. -/
def broadcast (s : System α ω) (q : IngestQueue α) : System α ω :=
  ⟨q, s.pump.wake, fun w => (s.workers w).wake⟩

/-- No party is on its way to the lock. -/
def Quiet (s : System α ω) : Prop :=
  (∀ a, s.pump ≠ .woken a) ∧ ∀ w, s.workers w ≠ .woken ()

end System

inductive Event (α ω : Type*)
  | pushWaits (a : α)
  | pushFailed (a : α)
  | pushed (a : α)
  | popWaits (w : ω)
  | popFailed (w : ω)
  | popEnd (w : ω)
  | popped (w : ω) (out : Option α)
  | finish (p : Party ω)
  | fail (p : Party ω)
  | wakes (p : Party ω)

section Steps

variable [DecidableEq ω]

/-- A signal on `not_empty` wakes one of the sleeping workers, whichever, if any
sleeps there. -/
inductive Signal (workers : ω → Phase Unit) : (ω → Phase Unit) → Prop
  | nobody (h : ∀ w, workers w ≠ .waiting ()) : Signal workers workers
  | wakes (w : ω) (h : workers w = .waiting ()) :
      Signal workers (Function.update workers w (.woken ()))

/-- One turn of one party, or a wakeup without a cause. -/
inductive Step (cap : Nat) : System α ω → Event α ω → System α ω → Prop
  | pushWaits {s : System α ω} (a : α) (henter : s.pump.Enters a)
      (hturn : queuePush cap s.queue a = .wait) :
      Step cap s (.pushWaits a) { s with pump := .waiting a }
  | pushFailed {s : System α ω} (a : α) (henter : s.pump.Enters a)
      (hturn : queuePush cap s.queue a = .failed) :
      Step cap s (.pushFailed a) { s with pump := .idle }
  | pushed {s : System α ω} {q : IngestQueue α} {workers : ω → Phase Unit} (a : α)
      (henter : s.pump.Enters a) (hturn : queuePush cap s.queue a = .pushed q)
      (hsignal : Signal s.workers workers) :
      Step cap s (.pushed a) ⟨q, .idle, workers⟩
  | popWaits {s : System α ω} (w : ω) (henter : (s.workers w).Enters ())
      (hturn : queuePop cap s.queue = .wait) :
      Step cap s (.popWaits w) { s with workers := Function.update s.workers w (.waiting ()) }
  | popFailed {s : System α ω} (w : ω) (henter : (s.workers w).Enters ())
      (hturn : queuePop cap s.queue = .failed) :
      Step cap s (.popFailed w) { s with workers := Function.update s.workers w .idle }
  | popEnd {s : System α ω} (w : ω) (henter : (s.workers w).Enters ())
      (hturn : queuePop cap s.queue = .endOfStream) :
      Step cap s (.popEnd w) { s with workers := Function.update s.workers w .idle }
  | popped {s : System α ω} {q : IngestQueue α} {out : Option α} (w : ω)
      (henter : (s.workers w).Enters ()) (hturn : queuePop cap s.queue = .ok out q) :
      Step cap s (.popped w out) ⟨q, s.pump.wake, Function.update s.workers w .idle⟩
  | finish {s : System α ω} (p : Party ω) (houtside : s.Outside p) :
      Step cap s (.finish p) (s.broadcast (queueFinish s.queue))
  | fail {s : System α ω} (p : Party ω) (houtside : s.Outside p) :
      Step cap s (.fail p) (s.broadcast (queueFail s.queue))
  | pumpWakes {s : System α ω} : Step cap s (.wakes .pump) { s with pump := s.pump.wake }
  | workerWakes {s : System α ω} (w : ω) :
      Step cap s (.wakes (.worker w))
        { s with workers := Function.update s.workers w (s.workers w).wake }

end Steps

/-! ## What a trace says -/

/-- The batches pushed, in order. -/
def pushes (trace : List (Event α ω)) : List α :=
  trace.filterMap fun
    | .pushed a => some a
    | _ => none

/-- The batches handed out, in order, each with the worker that took it. -/
def handed (trace : List (Event α ω)) : List (ω × Option α) :=
  trace.filterMap fun
    | .popped w out => some (w, out)
    | _ => none

/-- What an event does to the queue, whoever takes part in it. -/
def Event.applied (cap : Nat) (q : IngestQueue α) : Event α ω → IngestQueue α
  | .pushed a => { q with ring := q.ring.push cap a }
  | .popped _ _ => { q with ring := q.ring.drop cap }
  | .finish _ => queueFinish q
  | .fail _ => queueFail q
  | _ => q

theorem pushes_append (trace later : List (Event α ω)) :
    pushes (trace ++ later) = pushes trace ++ pushes later :=
  List.filterMap_append

theorem handed_append (trace later : List (Event α ω)) :
    handed (trace ++ later) = handed trace ++ handed later :=
  List.filterMap_append

/-- The end of the stream has been reached and nothing is left. -/
def Drained (q : IngestQueue α) : Prop := q.done = true ∧ q.ring.count = 0

/-- What the queue promises at a state a run has reached. -/
structure Protocol [DecidableEq ω] (cap : Nat) (trace : List (Event α ω)) (s : System α ω) :
    Prop where
  /-- At most `cap` entries, in the consecutive slots from the head. -/
  window : ∃ entries, s.queue.ring.Holds cap entries
  /-- Batches leave in push order, each once: to a worker or to `QueueDestroy`. -/
  order : (handed trace).map Prod.snd ++ (queueDestroy cap s.queue).map some =
    (pushes trace).map some
  /-- A pop takes a batch off a queue that has one. -/
  taken : ∀ w out s', Step cap s (.popped w out) s' →
    out.isSome ∧ s.queue.ring.count = s'.queue.ring.count + 1
  /-- The end of the stream is answered only when the queue is done and empty. -/
  ended : queuePop cap s.queue = .endOfStream ∨
      workerStreamGetNext cap s.queue = some .endOfStream →
    Drained s.queue
  /-- After a failure every turn of a push or a pop is answered as failed. -/
  afterFailure : (∃ p, .fail p ∈ trace) →
    (∀ a, queuePush cap s.queue a = .failed) ∧ queuePop cap s.queue = .failed
  /-- Once nobody is on the way to the lock, who sleeps has to. -/
  noLostWakeup : s.Quiet →
    (∀ a, s.pump = .waiting a → queuePush cap s.queue a = .wait) ∧
      ∀ w, s.workers w = .waiting () → queuePop cap s.queue = .wait

/-! ## The turns -/

section Turns

variable {cap : Nat} {q q' : IngestQueue α} {a : α} {out : Option α}

theorem queuePush_eq_wait :
    queuePush cap q a = .wait ↔ q.ring.count = cap ∧ q.failed = false := by
  grind [queuePush]

theorem queuePush_eq_failed : queuePush cap q a = .failed ↔ q.failed = true := by
  grind [queuePush]

theorem queuePush_eq_pushed :
    queuePush cap q a = .pushed q' ↔
      q.failed = false ∧ q.ring.count ≠ cap ∧ q' = { q with ring := q.ring.push cap a } := by
  grind [queuePush]

theorem queuePop_eq_wait :
    queuePop cap q = .wait ↔ q.ring.count = 0 ∧ q.done = false ∧ q.failed = false := by
  grind [queuePop]

theorem queuePop_eq_failed : queuePop cap q = .failed ↔ q.failed = true := by
  grind [queuePop]

theorem queuePop_eq_end :
    queuePop cap q = .endOfStream ↔
      q.failed = false ∧ q.done = true ∧ q.ring.count = 0 := by
  grind [queuePop]

theorem queuePop_eq_ok :
    queuePop cap q = .ok out q' ↔
      q.failed = false ∧ q.ring.count ≠ 0 ∧ out = q.ring.slots q.ring.head ∧
        q' = { q with ring := q.ring.drop cap } := by
  grind [queuePop]

theorem workerStreamGetNext_end :
    workerStreamGetNext cap q = some .endOfStream ↔ queuePop cap q = .endOfStream := by
  unfold workerStreamGetNext
  cases queuePop cap q <;> simp

end Turns

section Applied

variable [DecidableEq ω] {cap : Nat} {s s' : System α ω} {e : Event α ω}

theorem Step.queue_eq (h : Step cap s e s') : s'.queue = e.applied cap s.queue := by
  cases h with
  | pushed a henter hturn hsignal => exact (queuePush_eq_pushed.1 hturn).2.2
  | popped w henter hturn => exact (queuePop_eq_ok.1 hturn).2.2.2
  | _ => rfl

theorem Step.failed_mono (h : Step cap s e s') (hfailed : s.queue.failed = true) :
    s'.queue.failed = true := by
  rw [h.queue_eq]
  cases e <;> first | rfl | exact hfailed

theorem Step.failed_eq (h : Step cap s e s') (hfail : ∀ p, e ≠ .fail p) :
    s'.queue.failed = s.queue.failed := by
  rw [h.queue_eq]
  cases e with
  | fail p => exact absurd rfl (hfail p)
  | _ => rfl

theorem Step.done_eq (h : Step cap s e s') (hfinish : ∀ p, e ≠ .finish p) :
    s'.queue.done = s.queue.done := by
  rw [h.queue_eq]
  cases e with
  | finish p => exact absurd rfl (hfinish p)
  | _ => rfl

/-- A drained queue stays so until something is pushed. -/
theorem Step.drained (h : Step cap s e s') (hpushed : ∀ a, e ≠ .pushed a)
    (hdrained : Drained s.queue) : Drained s'.queue := by
  cases h with
  | pushed a => exact absurd rfl (hpushed a)
  | popped w henter hturn => exact absurd hdrained.2 (queuePop_eq_ok.1 hturn).2.1
  | finish p houtside => exact ⟨rfl, hdrained.2⟩
  | _ => exact hdrained

theorem Step.drained_of_popEnd {w : ω} (h : Step cap s (.popEnd w) s') : Drained s'.queue := by
  cases h with
  | popEnd _ henter hturn => exact (queuePop_eq_end.1 hturn).2

theorem Step.failed_of_pushFailed {a : α} (h : Step cap s (.pushFailed a) s') :
    s'.queue.failed = true := by
  cases h with
  | pushFailed _ henter hturn => exact queuePush_eq_failed.1 hturn

end Applied

/-! ## Counting who is on the way to the lock -/

section Woken

variable [Fintype ω] [DecidableEq ω] {workers workers' : ω → Phase Unit} {w : ω}

def wokenCount (workers : ω → Phase Unit) : Nat :=
  (Finset.univ.filter fun w => workers w = .woken ()).card

theorem woken_le_update (phase : Phase Unit) :
    wokenCount workers ≤ wokenCount (Function.update workers w phase) + 1 := by
  have hsub : (Finset.univ.filter fun v => workers v = .woken ()) ⊆
      insert w (Finset.univ.filter fun v => Function.update workers w phase v = .woken ()) := by
    intro v hv
    rw [Finset.mem_insert, Finset.mem_filter]
    rw [Finset.mem_filter] at hv
    by_cases hw : v = w
    · exact Or.inl hw
    · exact Or.inr ⟨hv.1, by rw [Function.update_of_ne hw, hv.2]⟩
  exact (Finset.card_le_card hsub).trans (Finset.card_insert_le _ _)

/-- Who becomes woken without having been so adds one. -/
theorem woken_update_woken (h : workers w ≠ .woken ()) :
    wokenCount (Function.update workers w (.woken ())) = wokenCount workers + 1 := by
  have hset : (Finset.univ.filter fun v => Function.update workers w (.woken ()) v = .woken ()) =
      insert w (Finset.univ.filter fun v => workers v = .woken ()) := by
    ext v
    rw [Finset.mem_insert, Finset.mem_filter, Finset.mem_filter]
    by_cases hw : v = w
    · simp [hw]
    · simp [hw]
  rw [wokenCount, hset, Finset.card_insert_of_notMem (by simp [h]), wokenCount]

theorem woken_update_idle (h : workers w = .idle) :
    wokenCount (Function.update workers w .idle) = wokenCount workers := by
  rw [← h, Function.update_eq_self]

theorem woken_le_wake : wokenCount workers ≤
    wokenCount (Function.update workers w (workers w).wake) := by
  cases h : workers w with
  | waiting call =>
      rw [Phase.wake_waiting, woken_update_woken (by simp [h])]
      omega
  | idle => rw [Phase.wake_idle, ← h, Function.update_eq_self]
  | woken call => rw [Phase.wake_woken, ← h, Function.update_eq_self]

/-- A signal that leaves somebody asleep has woken one. -/
theorem Signal.woken (h : Signal workers workers') {v : ω} (hv : workers' v = .waiting ()) :
    workers v = .waiting () ∧ wokenCount workers' = wokenCount workers + 1 := by
  cases h with
  | nobody hnobody => exact absurd hv (hnobody v)
  | wakes w hw =>
      refine ⟨?_, woken_update_woken (by simp [hw])⟩
      by_cases hvw : v = w
      · rw [hvw, hw]
      · rwa [Function.update_of_ne hvw] at hv

omit [DecidableEq ω] in
theorem woken_eq_zero (h : ∀ v, workers v ≠ .woken ()) : wokenCount workers = 0 := by
  rw [wokenCount, Finset.card_eq_zero, Finset.filter_eq_empty_iff]
  exact fun v _ => h v

end Woken

/-! ## The invariant -/

section Invariant

variable [DecidableEq ω] {cap : Nat} {trace : List (Event α ω)} {s s' : System α ω}
  {e : Event α ω}

/-- The ring holds what was pushed and has not been handed out. -/
def Contents (cap : Nat) (trace : List (Event α ω)) (s : System α ω) : Prop :=
  ∃ entries, s.queue.ring.Holds cap entries ∧
    (handed trace).map Prod.snd ++ entries.map some = (pushes trace).map some

/-- A sleeping pump has a full queue before it. -/
def PumpAsleep (cap : Nat) (s : System α ω) : Prop :=
  ∀ a, s.pump = .waiting a → s.queue.ring.count = cap ∧ s.queue.failed = false

def Marked (trace : List (Event α ω)) (s : System α ω) : Prop :=
  (∃ p, .fail p ∈ trace) → s.queue.failed = true

theorem contents_step (h : Contents cap trace s) (hstep : Step cap s e s') :
    Contents cap (trace ++ [e]) s' := by
  obtain ⟨entries, hholds, horder⟩ := h
  cases hstep with
  | @pushed q workers a henter hturn hsignal =>
      obtain ⟨-, hroom, rfl⟩ := queuePush_eq_pushed.1 hturn
      rw [hholds.count_eq] at hroom
      refine ⟨entries ++ [a], hholds.push (lt_of_le_of_ne hholds.count_le hroom), ?_⟩
      rw [pushes_append, handed_append]
      simpa [handed, pushes, ← List.append_assoc] using horder
  | @popped q out w henter hturn =>
      obtain ⟨-, hne, rfl, rfl⟩ := queuePop_eq_ok.1 hturn
      cases entries with
      | nil => exact absurd hholds.count_eq hne
      | cons a entries =>
          refine ⟨entries, hholds.drop, ?_⟩
          rw [pushes_append, handed_append]
          simpa [handed, pushes, hholds.head] using horder
  | _ =>
      refine ⟨entries, hholds, ?_⟩
      rw [pushes_append, handed_append]
      simpa [handed, pushes] using horder

theorem pumpAsleep_step (h : PumpAsleep cap s) (hstep : Step cap s e s') :
    PumpAsleep cap s' := by
  cases hstep with
  | pushWaits a henter hturn => exact fun _ _ => queuePush_eq_wait.1 hturn
  | popped | finish | fail | pumpWakes =>
      exact fun a ha => absurd ha (Phase.wake_ne_waiting _ a)
  | pushed | pushFailed => exact fun a ha => nomatch ha
  | popWaits | popFailed | popEnd | workerWakes => exact h

theorem marked_step (h : Marked trace s) (hstep : Step cap s e s') :
    Marked (trace ++ [e]) s' := by
  intro hfail
  cases hstep with
  | fail p houtside => rfl
  | @pushed q workers a henter hturn hsignal =>
      obtain ⟨-, -, rfl⟩ := queuePush_eq_pushed.1 hturn
      exact h (by simpa using hfail)
  | @popped q out w henter hturn =>
      obtain ⟨-, -, -, rfl⟩ := queuePop_eq_ok.1 hturn
      exact h (by simpa using hfail)
  | _ => exact h (by simpa using hfail)

variable [Fintype ω]

/-- While a worker sleeps the stream goes on, and every entry has a worker on
its way to the lock. -/
def WorkersAsleep (s : System α ω) : Prop :=
  ∀ w, s.workers w = .waiting () →
    s.queue.done = false ∧ s.queue.failed = false ∧ s.queue.ring.count ≤ wokenCount s.workers

/-- A worker that leaves the lock takes at most its own wakeup with it. -/
theorem workersAsleep_update {w : ω} {phase : Phase Unit} (h : WorkersAsleep s)
    (hcount : s.queue.ring.count = 0) (hphase : phase ≠ .waiting ()) :
    WorkersAsleep { s with workers := Function.update s.workers w phase } := by
  intro v hv
  have hne : v ≠ w := fun hvw => hphase (by simpa [hvw] using hv)
  have hv' : s.workers v = .waiting () := by simpa [hne] using hv
  refine ⟨(h v hv').1, (h v hv').2.1, ?_⟩
  change s.queue.ring.count ≤ _
  omega

theorem workersAsleep_step (h : WorkersAsleep s) (hstep : Step cap s e s') : WorkersAsleep s' := by
  cases hstep with
  | pushWaits | pushFailed | pumpWakes => exact h
  | @pushed q workers a henter hturn hsignal =>
      obtain ⟨-, -, rfl⟩ := queuePush_eq_pushed.1 hturn
      intro v hv
      obtain ⟨hasleep, hwoken⟩ := hsignal.woken hv
      obtain ⟨hdone, hfailed, hle⟩ := h v hasleep
      refine ⟨hdone, hfailed, ?_⟩
      change s.queue.ring.count + 1 ≤ wokenCount workers
      omega
  | popWaits w henter hturn =>
      obtain ⟨hcount, hdone, hfailed⟩ := queuePop_eq_wait.1 hturn
      exact fun v _ => ⟨hdone, hfailed, by change s.queue.ring.count ≤ _; omega⟩
  | popFailed w henter hturn =>
      intro v hv
      have hne : v ≠ w := fun hvw => by simp [hvw] at hv
      have hv' : s.workers v = .waiting () := by simpa [hne] using hv
      exact absurd (queuePop_eq_failed.1 hturn) (by simp [(h v hv').2.1])
  | popEnd w henter hturn =>
      exact workersAsleep_update h (queuePop_eq_end.1 hturn).2.2 (by simp)
  | @popped q out w henter hturn =>
      obtain ⟨-, hne, -, rfl⟩ := queuePop_eq_ok.1 hturn
      intro v hv
      have hvw : v ≠ w := fun hvw => by simp [hvw] at hv
      have hv' : s.workers v = .waiting () := by simpa [hvw] using hv
      obtain ⟨hdone, hfailed, hle⟩ := h v hv'
      refine ⟨hdone, hfailed, ?_⟩
      have hwoken := @woken_le_update _ _ _ s.workers w .idle
      change s.queue.ring.count - 1 ≤ wokenCount (Function.update s.workers w .idle)
      omega
  | finish | fail => exact fun v hv => absurd hv (Phase.wake_ne_waiting _ ())
  | workerWakes w =>
      intro v hv
      have hvw : v ≠ w := fun hvw => Phase.wake_ne_waiting (s.workers w) () (by
        simpa [hvw] using hv)
      have hv' : s.workers v = .waiting () := by simpa [hvw] using hv
      obtain ⟨hdone, hfailed, hle⟩ := h v hv'
      exact ⟨hdone, hfailed, hle.trans woken_le_wake⟩

structure Invariant (cap : Nat) (trace : List (Event α ω)) (s : System α ω) : Prop where
  contents : Contents cap trace s
  pump : PumpAsleep cap s
  workers : WorkersAsleep s
  marked : Marked trace s

omit [DecidableEq ω] in
theorem invariant_start (hcap : 0 < cap) : Invariant cap [] (.start : System α ω) where
  contents := ⟨[], RingBuffer.holds_empty hcap, rfl⟩
  pump := fun _ h => nomatch h
  workers := fun _ h => nomatch h
  marked := fun ⟨_, h⟩ => nomatch h

theorem invariant_step (h : Invariant cap trace s) (hstep : Step cap s e s') :
    Invariant cap (trace ++ [e]) s' where
  contents := contents_step h.contents hstep
  pump := pumpAsleep_step h.pump hstep
  workers := workersAsleep_step h.workers hstep
  marked := marked_step h.marked hstep

theorem invariant_run (hcap : 0 < cap) (run : Run (Step cap) .start trace s) :
    Invariant cap trace s :=
  run.invariant (I := Invariant cap) (invariant_start hcap) fun _ _ _ _ => invariant_step

end Invariant

/-! ## The protocol -/

section Main

variable [Fintype ω] [DecidableEq ω] {cap : Nat} {trace : List (Event α ω)}
  {s : System α ω}

theorem Invariant.taken (h : Invariant cap trace s) {w : ω} {out : Option α} {s' : System α ω}
    (hstep : Step cap s (.popped w out) s') :
    out.isSome ∧ s.queue.ring.count = s'.queue.ring.count + 1 := by
  obtain ⟨entries, hholds, -⟩ := h.contents
  cases hstep with
  | @popped q _ _ henter hturn =>
      obtain ⟨-, hne, rfl, rfl⟩ := queuePop_eq_ok.1 hturn
      cases entries with
      | nil => exact absurd hholds.count_eq hne
      | cons a entries =>
          refine ⟨by rw [hholds.head]; rfl, ?_⟩
          change s.queue.ring.count = s.queue.ring.count - 1 + 1
          omega

omit [DecidableEq ω] in
theorem Invariant.noLostWakeup (h : Invariant cap trace s) (hquiet : s.Quiet) :
    (∀ a, s.pump = .waiting a → queuePush cap s.queue a = .wait) ∧
      ∀ w, s.workers w = .waiting () → queuePop cap s.queue = .wait := by
  refine ⟨fun a ha => queuePush_eq_wait.2 (h.pump a ha), fun w hw => ?_⟩
  obtain ⟨hdone, hfailed, hle⟩ := h.workers w hw
  rw [woken_eq_zero hquiet.2] at hle
  exact queuePop_eq_wait.2 ⟨Nat.le_zero.1 hle, hdone, hfailed⟩

/-- Every run of one pump and any number of workers keeps the protocol. -/
theorem queue_protocol (hcap : 0 < cap) (run : Run (Step cap) .start trace s) :
    Protocol cap trace s := by
  have h := invariant_run hcap run
  obtain ⟨entries, hholds, horder⟩ := h.contents
  constructor
  case window => exact ⟨entries, hholds⟩
  case order => rw [queueDestroy, hholds.toList, horder]
  case taken => exact fun w out s' => h.taken
  case ended =>
    rintro (hend | hend)
    · exact (queuePop_eq_end.1 hend).2
    · exact (queuePop_eq_end.1 (workerStreamGetNext_end.1 hend)).2
  case afterFailure =>
    intro hfail
    exact ⟨fun a => queuePush_eq_failed.2 (h.marked hfail), queuePop_eq_failed.2 (h.marked hfail)⟩
  case noLostWakeup => exact h.noLostWakeup

/-- One worker sleeps and is woken by the push, the other finds the end. -/
theorem queue_protocol_two :
    ∃ s : System Nat (Fin 2), Protocol 4
      [.popWaits 0, .pushed 7, .popped 0 (some 7), .finish .pump, .popEnd 1] s := by
  have start : Run (Step 4) (.start : System Nat (Fin 2)) [] .start := .nil
  have waits := start.snoc (.popWaits 0 (Or.inl rfl) rfl)
  have pushed := waits.snoc (.pushed 7 (Or.inl rfl) rfl (.wakes 0 rfl))
  have popped := pushed.snoc (.popped 0 (Or.inr rfl) rfl)
  have finished := popped.snoc (.finish .pump rfl)
  exact ⟨_, queue_protocol (by decide) (finished.snoc (.popEnd 1 (Or.inl rfl) rfl))⟩

end Main

end AdbcBridge.Ingest.Queue
