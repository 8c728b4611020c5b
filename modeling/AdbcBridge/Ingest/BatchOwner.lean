import AdbcBridge.Lib.RefCount
import AdbcBridge.Ingest.Parallel
import Mathlib.Algebra.BigOperators.Group.Finset.Piecewise
import Mathlib.Data.Fintype.BigOperators

/-!
# The arrays of a parallel ingest

Who holds the batches of the bound stream while `IngestParallel` runs: the pump, the queue, and
the workers, each worker the array of its current batch.  A batch that is cut into slices has a
`BatchOwner`, whose references are those of the pump and of the slices; a batch that stays whole
is an array with one holder.  The steps are those of the threads, and the release of a batch by
the worker that has read it.
-/

namespace AdbcBridge.Ingest.BatchOwner

open AdbcBridge.Lib AdbcBridge.Ingest.Queue AdbcBridge.Ingest.Parallel

/-! ## The arrays -/

/-- The arrays at a point of a run, where a batch is named by the number of batches behind it in
the stream.  `counts.refs` are the references to a batch and `counts.freed` the batches whose own
`release` was called; `fetched` are the batches taken from the stream so far. -/
structure Arrays (n : Nat) where
  counts : RefCounts Nat := {}
  fetched : List Nat := []
  queued : List Nat := []
  workers : Fin n → Option Nat := fun _ => none

/-- The batch of a piece. -/
def batchOf (p : Piece) : Nat := p.rest.length

/-- The piece is a slice of a batch with a `BatchOwner`. -/
def Sliced (p : Piece) : Prop := p.len < p.batch.length

instance (p : Piece) : Decidable (Sliced p) := inferInstanceAs (Decidable (_ < _))

namespace Arrays

variable {n : Nat} (x : Arrays n)

/-- `get_next` of the bound stream. -/
def getNext (id : Nat) : Arrays n :=
  { x with counts := x.counts.make id, fetched := id :: x.fetched }

/-- A batch without rows is released at once. -/
def skip (id : Nat) : Arrays n :=
  { x.getNext id with counts := (x.getNext id).counts.unref id }

/-- `BatchOwnerRef` and `SliceMake`; a whole batch is only moved. -/
def sliceMake (p : Piece) : Arrays n :=
  if Sliced p then { x with counts := x.counts.ref (batchOf p) } else x

/-- `SliceMake` or the allocation of `PumpWhole` fails: the reference that was taken is given
back, and the pump lets go of the batch. -/
def sliceFails (p : Piece) : Arrays n :=
  if Sliced p then
    { x with counts := ((x.counts.ref (batchOf p)).unref (batchOf p)).unref (batchOf p) }
  else { x with counts := x.counts.unref (batchOf p) }

/-- `QueuePush`, and the `BatchOwnerUnref` of `PumpBatch` behind the last slice. -/
def queuePush (p : Piece) : Arrays n :=
  if Sliced p ∧ ¬ p.off + p.len < p.batch.length then
    { x with queued := x.queued ++ [batchOf p], counts := x.counts.unref (batchOf p) }
  else { x with queued := x.queued ++ [batchOf p] }

/-- The queue has failed: the array is released, and the pump lets go of the batch. -/
def pushFails (p : Piece) : Arrays n :=
  if Sliced p then { x with counts := (x.counts.unref (batchOf p)).unref (batchOf p) }
  else { x with counts := x.counts.unref (batchOf p) }

/-- `QueueDestroy`. -/
def queueDestroy : Arrays n :=
  { x with counts := x.counts.unrefAll x.queued, queued := [] }

/-- `QueuePop`, as `WorkerStreamGetNext` hands it on. -/
def queuePop (w : Fin n) : Arrays n :=
  { x with queued := x.queued.tail, workers := Function.update x.workers w x.queued.head? }

/-- The worker releases the batch it has read. -/
def release (w : Fin n) (id : Nat) : Arrays n :=
  { x with counts := x.counts.unref id, workers := Function.update x.workers w none }

/-- What a step of the calling thread does, from one place to another. -/
def pumped (pump : Pump n) (a : Action n) (pump' : Pump n) : Arrays n :=
  match pump with
  | .fetching _ (_ :: rest) =>
      match pump' with
      | .pumpBatch .. => x.getNext rest.length
      | _ => x.skip rest.length
  | .allocating p =>
      match a with
      | .unallocated => x.sliceFails p
      | _ => x.sliceMake p
  | .pushing p =>
      match a with
      | .queue (.pushed _) => x.queuePush p
      | .queue (.pushFailed _) => x.pushFails p
      | _ => x
  | .joining => x.queueDestroy
  | _ => x

/-- What a step of a worker does. -/
def worked (w : Fin n) (a : Action n) : Arrays n :=
  match a with
  | .queue (.popped _ _) => x.queuePop w
  | _ => x

/-- What a worker has. -/
def taken (o : Option Nat) : Multiset Nat := o.elim 0 fun id => {id}

/-- The batches the workers have. -/
def inHand : Multiset Nat := ∑ w, taken (x.workers w)

end Arrays

/-- The threads and the arrays. -/
structure Pool (n : Nat) where
  threads : State n
  arrays : Arrays n

def start {n : Nat} : Pool n := ⟨.start, {}⟩

section Steps

variable {n : Nat} (src : Source)

/-- A step of the threads, or a worker's release.  A worker has no batch when it asks for the
next one, trips the queue or returns. -/
inductive Step : Pool n → Option (Action n) → Pool n → Prop
  | pump {s : Pool n} {a : Action n} {t : State n} (h : PumpStep src s.threads a t) :
      Step s (some a) ⟨t, s.arrays.pumped s.threads.pump a t.pump⟩
  | worker {s : Pool n} {a : Action n} {t : State n} (w : Fin n)
      (h : WorkerStep w s.threads a t)
      (hread : s.arrays.workers w = none ∨ t = s.threads.setWorker w (.failing false)) :
      Step s (some a) ⟨t, s.arrays.worked w a⟩
  | wakes {s : Pool n} {sys : System Chunk (Fin n)} (p : Party (Fin n))
      (hturn : QueueStep n s.threads.sys (.wakes p) sys) :
      Step s (some (.queue (.wakes p))) ⟨{ s.threads with sys := sys }, s.arrays⟩
  | releases {s : Pool n} (w : Fin n) (id : Nat) (h : s.arrays.workers w = some id) :
      Step s none ⟨s.threads, s.arrays.release w id⟩

variable {src}

/-- The threads do what they do without the arrays. -/
theorem Step.threads {s s' : Pool n} {e : Option (Action n)} (h : Step src s e s') :
    (∃ a, e = some a ∧ Parallel.Step src s.threads a s'.threads) ∨
      e = none ∧ s'.threads = s.threads := by
  cases h with
  | pump h => exact Or.inl ⟨_, rfl, .pump h⟩
  | worker w h _ => exact Or.inl ⟨_, rfl, .worker w h⟩
  | wakes p hturn => exact Or.inl ⟨_, rfl, .wakes p hturn⟩
  | releases => exact Or.inr ⟨rfl, rfl⟩

/-- A run of threads and arrays is a run of the threads. -/
theorem threads_run {s : Pool n} {trace : List (Option (Action n))}
    (run : Run (Step src) start trace s) :
    Run (Parallel.Step src) .start (trace.filterMap id) s.threads := by
  apply run.invariant (I := fun trace s =>
    Run (Parallel.Step src) .start (trace.filterMap id) s.threads)
  · exact .nil
  · intro trace s e s' hrun hstep
    rw [List.filterMap_append]
    cases hstep.threads with
    | inl hacts =>
        obtain ⟨a, ha, hacts⟩ := hacts
        rw [ha]
        exact hrun.snoc hacts
    | inr hstays =>
        rw [hstays.1, hstays.2]
        exact (List.append_nil _).symm ▸ hrun

end Steps

/-! ## What is held -/

section Held

variable {n : Nat}

/-- The references of the calling thread. -/
def pumpRefs : Pump n → Multiset Nat
  | .pumpBatch _ _ rest => {rest.length}
  | .allocating p => {batchOf p}
  | .pushing p => if Sliced p then batchOf p ::ₘ {batchOf p} else {batchOf p}
  | _ => 0

/-- The references of everybody. -/
def held (s : Pool n) : Multiset Nat :=
  pumpRefs s.threads.pump + (s.arrays.queued + s.arrays.inHand)

/-- The batches that may still come. -/
def behind (src : Source) : Pump n → Nat
  | .opening | .starting _ | .started _ => src.batches.length
  | .fetching _ batches => batches.length
  | .pumpBatch _ _ rest => rest.length
  | .allocating p | .pushing p => batchOf p
  | _ => 0

variable (x : Arrays n) (w : Fin n)

/-- What one worker has changes; the others keep what they have. -/
theorem inHand_update (o : Option Nat) :
    Arrays.inHand { x with workers := Function.update x.workers w o } +
      Arrays.taken (x.workers w) = x.inHand + Arrays.taken o := by
  have hothers : ∑ v ∈ Finset.univ.erase w, Arrays.taken (Function.update x.workers w o v) =
      ∑ v ∈ Finset.univ.erase w, Arrays.taken (x.workers v) := by
    apply Finset.sum_congr rfl
    intro v hv
    rw [Function.update_of_ne (Finset.ne_of_mem_erase hv)]
  have hafter := Finset.add_sum_erase Finset.univ
    (fun v => Arrays.taken (Function.update x.workers w o v)) (Finset.mem_univ w)
  have hbefore := Finset.add_sum_erase Finset.univ
    (fun v => Arrays.taken (x.workers v)) (Finset.mem_univ w)
  rw [Function.update_self, hothers] at hafter
  unfold Arrays.inHand
  dsimp only
  rw [← hafter, ← hbefore]
  ac_rfl

theorem inHand_takes {id : Nat} (h : x.workers w = none) :
    Arrays.inHand { x with workers := Function.update x.workers w (some id) } =
      id ::ₘ x.inHand := by
  have hsum := inHand_update x w (some id)
  rw [h] at hsum
  rw [← Multiset.singleton_add, add_comm ({id} : Multiset Nat)]
  exact (add_zero _).symm.trans hsum

theorem inHand_drops {id : Nat} (h : x.workers w = some id) :
    x.inHand = id ::ₘ Arrays.inHand { x with workers := Function.update x.workers w none } := by
  have hsum := inHand_update x w none
  rw [h] at hsum
  rw [← Multiset.singleton_add, add_comm ({id} : Multiset Nat)]
  exact (add_zero _).symm.trans hsum.symm

theorem inHand_none (h : ∀ v, x.workers v = none) : x.inHand = 0 := by
  apply Finset.sum_eq_zero
  intro v _
  rw [h v]
  rfl

end Held

/-! ## What holds in every run -/

section Invariant

variable {n : Nat} {src : Source} {s s' : Pool n}

/-- What the threads leave in order: the counts are the references held, the stream has not
given out what is still behind it, the queue has an array for each of its entries, a worker that
has been joined has no array, and before the start and behind the join nobody has. -/
structure Owned (src : Source) (s : Pool n) : Prop where
  accounts : s.arrays.counts.Accounts s.arrays.fetched (held s)
  fresh : ∀ id ∈ s.arrays.fetched, behind src s.threads.pump ≤ id
  queue : (∀ status, s.threads.pump ≠ .returned status) →
    s.arrays.queued.length = s.threads.sys.queue.ring.count
  joined : ∀ w, (s.threads.workers w).Joined → s.arrays.workers w = none
  opening : s.threads.pump = .opening →
    s.arrays.queued = [] ∧ ∀ w, s.threads.workers w = .unstarted
  returned : ∀ status, s.threads.pump = .returned status →
    s.arrays.queued = [] ∧ ∀ w, (s.threads.workers w).Joined

theorem owned_start : Owned src (start : Pool n) where
  accounts := by
    have hheld : held (start : Pool n) = 0 := by
      have hhand : ({} : Arrays n).inHand = 0 := inHand_none _ fun _ => rfl
      simp [held, hhand, start, State.start, pumpRefs]
    rw [hheld]
    exact .empty
  fresh := by simp [start]
  queue := fun _ => rfl
  joined := fun _ _ => rfl
  opening := fun _ => ⟨rfl, fun _ => rfl⟩
  returned := fun _ h => nomatch h

/-! ### The calling thread -/

section Calling

variable {a : Action n} {t : State n}

/-- What the arrays are behind a step of the calling thread. -/
def Pool.pumped (s : Pool n) (a : Action n) (t : State n) : Arrays n :=
  s.arrays.pumped s.threads.pump a t.pump

theorem Pool.pumped_eq {pump : Pump n} (hpump : s.threads.pump = pump) :
    s.pumped a t = s.arrays.pumped pump a t.pump := by
  rw [Pool.pumped, hpump]

theorem afterStart_refs (status : IngestStatus n) : pumpRefs (afterStart src status) = 0 := by
  unfold afterStart
  split_ifs <;> rfl

theorem Owned.stays (h : Owned src s) (harrays : s.pumped a t = s.arrays)
    (hrefs : pumpRefs t.pump = pumpRefs s.threads.pump) :
    (s.pumped a t).counts.Accounts (s.pumped a t).fetched (held ⟨t, s.pumped a t⟩) := by
  rw [harrays, held, hrefs]
  exact h.accounts

/-- The references beside those of the calling thread. -/
def others (x : Arrays n) : Multiset Nat := x.queued + x.inHand

/-- The batch taken from the stream is a new one. -/
theorem Owned.getNext {rest : Nat} (h : Owned src s)
    (hrefs : pumpRefs s.threads.pump = 0) (hbehind : behind src s.threads.pump = rest + 1) :
    (s.arrays.counts.make rest).Accounts (rest :: s.arrays.fetched) (rest ::ₘ others s.arrays) := by
  have haccounts := h.accounts
  rw [held, hrefs, zero_add] at haccounts
  apply haccounts.make
  intro hin
  have hle := h.fresh rest hin
  omega

theorem Owned.holding {p : Piece} (h : Owned src s) (hpump : s.threads.pump = .allocating p) :
    s.arrays.counts.Accounts s.arrays.fetched (batchOf p ::ₘ others s.arrays) := by
  have haccounts := h.accounts
  rw [held, hpump, pumpRefs, Multiset.singleton_add] at haccounts
  exact haccounts

theorem Owned.pushing {p : Piece} (h : Owned src s) (hpump : s.threads.pump = .pushing p) :
    s.arrays.counts.Accounts s.arrays.fetched
      (if Sliced p then batchOf p ::ₘ batchOf p ::ₘ others s.arrays
        else batchOf p ::ₘ others s.arrays) := by
  have haccounts := h.accounts
  rw [held, hpump, pumpRefs] at haccounts
  split_ifs at haccounts ⊢
  · rw [Multiset.cons_add, Multiset.singleton_add] at haccounts
    exact haccounts
  · rw [Multiset.singleton_add] at haccounts
    exact haccounts

/-- The calling thread has nothing. -/
theorem letsGo {x : Arrays n} {pump : Pump n}
    (h : x.counts.Accounts x.fetched (others x)) (hrefs : pumpRefs pump = 0) :
    x.counts.Accounts x.fetched (pumpRefs pump + others x) := by
  rw [hrefs, zero_add]
  exact h

/-- The slice takes a reference of its own; a whole batch goes on with the pump's. -/
theorem accounts_allocates {p : Piece} (h : Owned src s)
    (hpump : s.threads.pump = .allocating p) :
    (s.arrays.sliceMake p).counts.Accounts (s.arrays.sliceMake p).fetched
      (pumpRefs (.pushing p : Pump n) + others (s.arrays.sliceMake p)) := by
  have haccounts := h.holding hpump
  unfold Arrays.sliceMake
  rw [pumpRefs]
  split_ifs
  · rw [Multiset.cons_add, Multiset.singleton_add]
    exact haccounts.ref_cons
  · rw [Multiset.singleton_add]
    exact haccounts

theorem accounts_unallocated {p : Piece} (h : Owned src s)
    (hpump : s.threads.pump = .allocating p) :
    (s.arrays.sliceFails p).counts.Accounts (s.arrays.sliceFails p).fetched
      (others (s.arrays.sliceFails p)) := by
  have haccounts := h.holding hpump
  unfold Arrays.sliceFails
  split_ifs
  · exact haccounts.ref_cons.unref_cons.unref_cons
  · exact haccounts.unref_cons

theorem batchOf_pumpBatch (base : Nat) (b : SourceBatch) (rest : List SourceBatch)
    (owned : Bool) : batchOf (pumpBatch base b rest owned) = rest.length := by
  unfold batchOf pumpBatch
  split_ifs <;> rfl

/-- What the pump gives away is the queue's; the pump lets go of a batch with its last slice. -/
theorem accounts_pushed {p : Piece} (h : Owned src s) (hpump : s.threads.pump = .pushing p) :
    (s.arrays.queuePush p).counts.Accounts (s.arrays.queuePush p).fetched
      (pumpRefs (afterPush n p) + others (s.arrays.queuePush p)) := by
  have haccounts := h.pushing hpump
  have hqueued : ∀ counts, others { s.arrays with
      counts := counts, queued := s.arrays.queued ++ [batchOf p] } =
        batchOf p ::ₘ others s.arrays := by
    intro counts
    rw [others, ← Multiset.coe_add, add_right_comm, add_comm]
    rfl
  by_cases hsliced : Sliced p
  · rw [if_pos hsliced] at haccounts
    by_cases hmore : p.off + p.len < p.batch.length
    · -- The pump keeps its reference for the slices to come.
      have hpiece : ¬(Sliced p ∧ ¬p.off + p.len < p.batch.length) := fun hlast => hlast.2 hmore
      rw [Arrays.queuePush, if_neg hpiece, afterPush, if_pos hmore, pumpRefs, hqueued,
        Multiset.singleton_add]
      exact haccounts
    · rw [Arrays.queuePush, if_pos ⟨hsliced, hmore⟩, afterPush, if_neg hmore]
      exact letsGo ((hqueued _).symm ▸ haccounts.unref_cons) rfl
  · rw [if_neg hsliced] at haccounts
    have hmore : ¬p.off + p.len < p.batch.length := by
      rw [Sliced] at hsliced
      omega
    rw [Arrays.queuePush, if_neg fun hlast => hsliced hlast.1, afterPush, if_neg hmore]
    exact letsGo ((hqueued _).symm ▸ haccounts) rfl

theorem accounts_pushFailed {p : Piece} (h : Owned src s) (hpump : s.threads.pump = .pushing p) :
    (s.arrays.pushFails p).counts.Accounts (s.arrays.pushFails p).fetched
      (others (s.arrays.pushFails p)) := by
  have haccounts := h.pushing hpump
  unfold Arrays.pushFails
  split_ifs at haccounts ⊢
  · exact haccounts.unref_cons.unref_cons
  · exact haccounts.unref_cons

/-- The workers have gone: what is left in the queue is all there is. -/
theorem accounts_returns (h : Owned src s) (hpump : s.threads.pump = .joining) :
    s.arrays.queueDestroy.counts.Accounts s.arrays.queueDestroy.fetched
      (others s.arrays.queueDestroy) := by
  have haccounts := h.accounts
  have hrefs : pumpRefs (.joining : Pump n) = 0 := rfl
  rw [held, hpump, hrefs, zero_add] at haccounts
  have hdestroy := haccounts.unrefAll (Multiset.le_add_right _ _)
  rw [add_tsub_cancel_left] at hdestroy
  have hothers : others s.arrays.queueDestroy = s.arrays.inHand := zero_add _
  rw [hothers]
  exact hdestroy

theorem accounts_pump (h : Owned src s) (hstep : PumpStep src s.threads a t) :
    (s.pumped a t).counts.Accounts (s.pumped a t).fetched (held ⟨t, s.pumped a t⟩) := by
  cases hstep with
  | getSchemaFails hpump | outOfMemory hpump | opened hpump | allStarted hpump =>
      exact h.stays (Pool.pumped_eq hpump) (by rw [hpump]; rfl)
  | threadStarts w hpump | startFails w hpump | streamEnds w hpump =>
      exact h.stays (Pool.pumped_eq hpump) (by rw [hpump]; rfl)
  | finishes hpump =>
      exact h.stays (Pool.pumped_eq hpump) (by rw [hpump]; rfl)
  | goesOn k hpump hk =>
      exact h.stays (Pool.pumped_eq hpump) (by rw [hpump]; exact afterStart_refs _)
  | noneStarted hpump hturn =>
      exact h.stays (Pool.pumped_eq hpump) (by rw [hpump]; exact afterStart_refs _)
  | getNextFails base hpump hends hturn =>
      exact h.stays (Pool.pumped_eq hpump) (by rw [hpump]; rfl)
  | skips base b rest hpump hempty =>
      have hnext := h.getNext (by rw [hpump]; rfl) (by rw [hpump]; rfl)
      rw [Pool.pumped_eq hpump]
      exact letsGo hnext.unref_cons rfl
  | fetches base b rest hpump hempty =>
      have hnext := h.getNext (by rw [hpump]; rfl) (by rw [hpump]; rfl)
      rw [← Multiset.singleton_add] at hnext
      rw [Pool.pumped_eq hpump]
      exact hnext
  | pumps base b rest owned hpump =>
      apply h.stays (Pool.pumped_eq hpump)
      rw [hpump]
      exact congrArg (fun id => ({id} : Multiset Nat)) (batchOf_pumpBatch base b rest owned)
  | allocates p hpump => 
      rw [Pool.pumped_eq hpump]
      exact accounts_allocates h hpump
  | allocationFails p hpump => 
      rw [Pool.pumped_eq hpump]
      exact letsGo (accounts_unallocated h hpump) rfl
  | pushWaits p hpump hturn => 
      exact h.stays (Pool.pumped_eq hpump) rfl
  | pushed p hpump hturn =>
      rw [Pool.pumped_eq hpump]
      exact accounts_pushed h hpump
  | pushFailed p hpump hturn =>
      rw [Pool.pumped_eq hpump]
      exact letsGo (accounts_pushFailed h hpump) rfl
  | returns hpump hjoined =>
      rw [Pool.pumped_eq hpump]
      exact letsGo (accounts_returns h hpump) rfl

theorem behind_afterStart (status : IngestStatus n) :
    behind src (afterStart src status) ≤ src.batches.length := by
  unfold afterStart
  split_ifs
  · exact le_rfl
  · exact Nat.zero_le _

theorem behind_afterPush (p : Piece) : behind src (afterPush n p) = batchOf p := by
  unfold afterPush
  split_ifs <;> rfl

@[simp] theorem sliceMake_fetched (x : Arrays n) (p : Piece) :
    (x.sliceMake p).fetched = x.fetched := by
  unfold Arrays.sliceMake
  split_ifs <;> rfl

@[simp] theorem queuePush_fetched (x : Arrays n) (p : Piece) :
    (x.queuePush p).fetched = x.fetched := by
  unfold Arrays.queuePush
  split_ifs <;> rfl

/-- A step takes the next batch from the stream or none. -/
theorem fetched_pump (hstep : PumpStep src s.threads a t) :
    behind src t.pump = 0 ∨
      (s.pumped a t).fetched = s.arrays.fetched ∧
        behind src t.pump ≤ behind src s.threads.pump ∨
      ∃ rest, (s.pumped a t).fetched = rest :: s.arrays.fetched ∧
        behind src s.threads.pump = rest + 1 ∧ behind src t.pump = rest := by
  cases hstep with
  | getSchemaFails | outOfMemory | getNextFails | streamEnds => exact Or.inl rfl
  | allocationFails | pushFailed | finishes | returns => exact Or.inl rfl
  | opened hpump | allStarted hpump | threadStarts w hpump | startFails w hpump =>
      exact Or.inr (Or.inl ⟨congrArg _ (Pool.pumped_eq hpump), by rw [hpump]; rfl⟩)
  | goesOn k hpump hk =>
      refine Or.inr (Or.inl ⟨congrArg _ (Pool.pumped_eq hpump), ?_⟩)
      rw [hpump]
      exact behind_afterStart _
  | noneStarted hpump hturn =>
      refine Or.inr (Or.inl ⟨congrArg _ (Pool.pumped_eq hpump), ?_⟩)
      rw [hpump]
      exact behind_afterStart _
  | skips base b rest hpump hempty =>
      refine Or.inr (Or.inr ⟨rest.length, congrArg _ (Pool.pumped_eq hpump), ?_, rfl⟩)
      rw [hpump]
      rfl
  | fetches base b rest hpump hempty =>
      refine Or.inr (Or.inr ⟨rest.length, congrArg _ (Pool.pumped_eq hpump), ?_, rfl⟩)
      rw [hpump]
      rfl
  | pumps base b rest owned hpump =>
      refine Or.inr (Or.inl ⟨congrArg _ (Pool.pumped_eq hpump), ?_⟩)
      rw [hpump]
      exact (batchOf_pumpBatch base b rest owned).le
  | allocates p hpump =>
      refine Or.inr (Or.inl ⟨?_, by rw [hpump]; rfl⟩)
      rw [Pool.pumped_eq hpump]
      exact sliceMake_fetched s.arrays p
  | pushWaits p hpump hturn =>
      exact Or.inr (Or.inl ⟨congrArg _ (Pool.pumped_eq hpump), le_rfl⟩)
  | pushed p hpump hturn =>
      refine Or.inr (Or.inl ⟨?_, ?_⟩)
      · rw [Pool.pumped_eq hpump]
        exact queuePush_fetched s.arrays p
      · rw [hpump]
        exact (behind_afterPush p).le

theorem fresh_pump (h : Owned src s) (hstep : PumpStep src s.threads a t) :
    ∀ id ∈ (s.pumped a t).fetched, behind src t.pump ≤ id := by
  intro id hid
  rcases fetched_pump hstep with hzero | ⟨hsame, hle⟩ | ⟨rest, hcons, hbefore, hafter⟩
  · rw [hzero]
    exact Nat.zero_le id
  · exact hle.trans (h.fresh id (hsame ▸ hid))
  · rw [hafter]
    rw [hcons, List.mem_cons] at hid
    apply hid.elim (fun heq => heq.ge)
    intro hbehind
    have hle := h.fresh id hbehind
    omega

theorem queuePush_queued (x : Arrays n) (p : Piece) :
    (x.queuePush p).queued = x.queued ++ [batchOf p] := by
  unfold Arrays.queuePush
  split_ifs <;> rfl

/-- An array for each entry, as long as the call has not returned. -/
theorem Owned.counted (h : Owned src s) {pump : Pump n} (hpump : s.threads.pump = pump)
    (hrunning : ∀ status, pump ≠ .returned status) :
    s.arrays.queued.length = s.threads.sys.queue.ring.count :=
  h.queue (hpump ▸ hrunning)

theorem queue_pump (h : Owned src s) (hstep : PumpStep src s.threads a t)
    (hrunning : ∀ status, t.pump ≠ .returned status) :
    (s.pumped a t).queued.length = t.sys.queue.ring.count := by
  have hstays : ∀ {pump : Pump n}, s.threads.pump = pump → (∀ status, pump ≠ .returned status) →
      (s.arrays.pumped pump a t.pump).queued = s.arrays.queued →
      t.sys.queue.ring = s.threads.sys.queue.ring →
      (s.pumped a t).queued.length = t.sys.queue.ring.count := by
    intro pump hpump hbefore hqueued hring
    rw [Pool.pumped_eq hpump, hqueued, hring]
    exact h.counted hpump hbefore
  cases hstep with
  | getSchemaFails | outOfMemory | returns => exact absurd rfl (hrunning _)
  | opened hpump | allStarted hpump | threadStarts w hpump | startFails w hpump =>
      exact hstays hpump nofun rfl rfl
  | goesOn w hpump | streamEnds w hpump => exact hstays hpump nofun rfl rfl
  | skips base b rest hpump | fetches base b rest hpump | pumps base b rest owned hpump =>
      exact hstays hpump nofun rfl rfl
  | allocates p hpump =>
      apply hstays hpump nofun _ rfl
      unfold Arrays.pumped Arrays.sliceMake
      dsimp only
      split_ifs <;> rfl
  | allocationFails p hpump =>
      apply hstays hpump nofun _ rfl
      unfold Arrays.pumped Arrays.sliceFails
      dsimp only
      split_ifs <;> rfl
  | pushFailed p hpump hturn =>
      apply hstays hpump nofun _ (by rw [hturn.queue_eq]; rfl)
      unfold Arrays.pumped Arrays.pushFails
      dsimp only
      split_ifs <;> rfl
  | noneStarted hpump hturn => exact hstays hpump nofun rfl (by rw [hturn.queue_eq]; rfl)
  | getNextFails base hpump hends hturn =>
      exact hstays hpump nofun rfl (by rw [hturn.queue_eq]; rfl)
  | pushWaits p hpump hturn => exact hstays hpump nofun rfl (by rw [hturn.queue_eq]; rfl)
  | finishes hpump hturn => exact hstays hpump nofun rfl (by rw [hturn.queue_eq]; rfl)
  | pushed p hpump hturn =>
      rw [Pool.pumped_eq hpump]
      change (s.arrays.queuePush p).queued.length = _
      rw [queuePush_queued, hturn.queue_eq, List.length_append, h.counted hpump nofun]
      rfl

/-- The calling thread leaves the workers what they have. -/
theorem pumped_workers (x : Arrays n) (pump : Pump n) (a : Action n) (pump' : Pump n) :
    (x.pumped pump a pump').workers = x.workers := by
  have hmake : ∀ p, (x.sliceMake p).workers = x.workers := by
    intro p
    unfold Arrays.sliceMake
    split_ifs <;> rfl
  have hfails : ∀ p, (x.sliceFails p).workers = x.workers := by
    intro p
    unfold Arrays.sliceFails
    split_ifs <;> rfl
  have hpush : ∀ p, (x.queuePush p).workers = x.workers := by
    intro p
    unfold Arrays.queuePush
    split_ifs <;> rfl
  have hpushFails : ∀ p, (x.pushFails p).workers = x.workers := by
    intro p
    unfold Arrays.pushFails
    split_ifs <;> rfl
  unfold Arrays.pumped
  split
  · split <;> rfl
  · split
    · exact hfails _
    · exact hmake _
  · split
    · exact hpush _
    · exact hpushFails _
    · rfl
  · rfl
  · rfl

/-- The calling thread joins nobody who was not there before. -/
theorem joined_of_pump (hstep : PumpStep src s.threads a t) {w : Fin n}
    (hjoined : (t.workers w).Joined) : (s.threads.workers w).Joined := by
  cases hstep with
  | threadStarts v hpump =>
      by_cases hw : w = v
      · simp [State.setWorker, hw, Worker.Joined] at hjoined
      · simpa [State.setWorker, hw] using hjoined
  | _ => exact hjoined

theorem returned_of_pump (h : Owned src s) (hstep : PumpStep src s.threads a t)
    {status : IngestStatus n} (hreturned : t.pump = .returned status) :
    (s.pumped a t).queued = [] ∧ ∀ w, (t.workers w).Joined := by
  cases hstep with
  | getSchemaFails hpump | outOfMemory hpump =>
      rw [Pool.pumped_eq hpump]
      exact ⟨(h.opening hpump).1, fun w => Or.inl ((h.opening hpump).2 w)⟩
  | returns hpump hjoined =>
      rw [Pool.pumped_eq hpump]
      exact ⟨rfl, hjoined⟩
  | goesOn | noneStarted =>
      simp only [afterStart] at hreturned
      split at hreturned <;> cases hreturned
  | pushed =>
      simp only [afterPush] at hreturned
      split at hreturned <;> cases hreturned
  | pushWaits p hpump hturn => simp [hpump] at hreturned
  | _ => cases hreturned

theorem opening_of_pump (hstep : PumpStep src s.threads a t) : t.pump ≠ .opening := by
  intro hopening
  cases hstep with
  | goesOn | noneStarted =>
      simp only [afterStart] at hopening
      split at hopening <;> cases hopening
  | pushed =>
      simp only [afterPush] at hopening
      split at hopening <;> cases hopening
  | pushWaits p hpump hturn => simp [hpump] at hopening
  | _ => cases hopening

theorem owned_pump (h : Owned src s) (hstep : PumpStep src s.threads a t) :
    Owned src ⟨t, s.pumped a t⟩ where
  accounts := accounts_pump h hstep
  fresh := fresh_pump h hstep
  queue := queue_pump h hstep
  joined := by
    intro w hjoined
    change (s.pumped a t).workers w = none
    rw [Pool.pumped, pumped_workers]
    exact h.joined w (joined_of_pump hstep hjoined)
  opening := fun hopening => absurd hopening (opening_of_pump hstep)
  returned := fun _ hreturned => returned_of_pump h hstep hreturned

end Calling

/-! ### The workers -/

section Working

variable {a : Action n} {t : State n} {w : Fin n}

/-- What the queue gives away is the worker's, which had nothing. -/
theorem others_queuePop (x : Arrays n) (hnone : x.workers w = none) :
    others (x.queuePop w) = others x := by
  cases hqueued : x.queued with
  | nil =>
      have hsame : Function.update x.workers w none = x.workers := by
        rw [← hnone, Function.update_eq_self]
      rw [Arrays.queuePop, hqueued, List.head?_nil, hsame, others, others, hqueued]
      rfl
  | cons id rest =>
      have hhand : (x.queuePop w).inHand = id ::ₘ x.inHand := by
        rw [Arrays.queuePop, hqueued]
        exact inHand_takes x w hnone
      have htail : (x.queuePop w).queued = rest := by
        rw [Arrays.queuePop, hqueued]
        rfl
      rw [others, hhand, htail, others, hqueued, Multiset.add_cons, ← Multiset.cons_coe,
        Multiset.cons_add]

/-- A step of a worker that takes nothing from the queue. -/
theorem owned_idles (h : Owned src s) (hpump : t.pump = s.threads.pump)
    (hring : t.sys.queue.ring = s.threads.sys.queue.ring)
    (hworkers : ∀ v ≠ w, t.workers v = s.threads.workers v)
    (hactive : ¬(s.threads.workers w).Joined)
    (hnone : (t.workers w).Joined → s.arrays.workers w = none) :
    Owned src ⟨t, s.arrays⟩ where
  accounts := by
    have haccounts := h.accounts
    rw [held] at haccounts ⊢
    rw [hpump]
    exact haccounts
  fresh := by
    rw [hpump]
    exact h.fresh
  queue := by
    intro hrunning
    rw [hpump] at hrunning
    rw [hring]
    exact h.queue hrunning
  joined := by
    intro v hjoined
    by_cases hvw : v = w
    · rw [hvw] at hjoined ⊢
      exact hnone hjoined
    · exact h.joined v (hworkers v hvw ▸ hjoined)
  opening := by
    rw [hpump]
    intro hopening
    exact absurd (Or.inl ((h.opening hopening).2 w)) hactive
  returned := by
    rw [hpump]
    intro status hreturned
    exact absurd ((h.returned status hreturned).2 w) hactive

/-- A worker takes the first array of the queue. -/
theorem owned_popped (h : Owned src s) {sys : System Chunk (Fin n)} {out : Option Chunk}
    (hworking : s.threads.workers w = .working)
    (hturn : QueueStep n s.threads.sys (.popped w out) sys)
    (hnone : s.arrays.workers w = none) :
    Owned src ⟨{ s.threads.setWorker w .working with sys := sys }, s.arrays.queuePop w⟩ where
  accounts := by
    have haccounts := h.accounts
    have hheld : held ⟨{ s.threads.setWorker w .working with sys := sys },
        s.arrays.queuePop w⟩ = held s :=
      congrArg (pumpRefs s.threads.pump + ·) (others_queuePop s.arrays hnone)
    rw [hheld]
    exact haccounts
  fresh := h.fresh
  queue := by
    intro hrunning
    have hring : sys.queue.ring.count = s.threads.sys.queue.ring.count - 1 := by
      rw [hturn.queue_eq]
      rfl
    change s.arrays.queued.tail.length = sys.queue.ring.count
    rw [List.length_tail, hring, h.queue hrunning]
  joined := by
    intro v hjoined
    have hvw : v ≠ w := by
      intro hvw
      simp [State.setWorker, hvw, Worker.Joined] at hjoined
    have hv : (s.threads.setWorker w .working).workers v = s.threads.workers v :=
      Function.update_of_ne hvw _ _
    exact (Function.update_of_ne hvw _ _).trans (h.joined v (hv ▸ hjoined))
  opening := by
    intro hopening
    have hunstarted := (h.opening hopening).2 w
    rw [hworking] at hunstarted
    cases hunstarted
  returned := by
    intro status hreturned
    have hjoined := (h.returned status hreturned).2 w
    simp [hworking, Worker.Joined] at hjoined

/-- A worker that has been handed an array had none. -/
theorem owned_worker (h : Owned src s) (hstep : WorkerStep w s.threads a t)
    (hread : s.arrays.workers w = none ∨ t = s.threads.setWorker w (.failing false)) :
    Owned src ⟨t, s.arrays.worked w a⟩ := by
  have hactive := hstep.active
  have hframe := hstep.frame
  have hnone : (t.workers w).Joined → s.arrays.workers w = none := by
    intro hjoined
    apply hread.resolve_right
    intro hfailing
    simp [hfailing, State.setWorker, Worker.Joined] at hjoined
  have hidles : t.sys.queue.ring = s.threads.sys.queue.ring → Owned src ⟨t, s.arrays⟩ :=
    fun hring => owned_idles h hframe.1 hring hframe.2.2 hactive hnone
  cases hstep with
  | popped out hworking hturn =>
      apply owned_popped h hworking hturn
      apply hread.resolve_right
      intro hfailing
      have hw := congrArg (fun t : State n => t.workers w) hfailing
      simp [State.setWorker, Worker.answered] at hw
  | fails | returns => exact hidles rfl
  | popWaits _ hturn | popEnd _ hturn | popFailed _ hturn | trips _ _ hturn =>
      exact hidles (by rw [hturn.queue_eq]; rfl)

/-- A worker lets go of the array it has. -/
theorem owned_releases (h : Owned src s) {id : Nat} (hhas : s.arrays.workers w = some id) :
    Owned src ⟨s.threads, s.arrays.release w id⟩ where
  accounts := by
    have haccounts := h.accounts
    have hheld : held s = id ::ₘ held ⟨s.threads, s.arrays.release w id⟩ := by
      rw [held, inHand_drops s.arrays w hhas, Multiset.add_cons, Multiset.add_cons]
      rfl
    rw [hheld] at haccounts
    exact haccounts.unref_cons
  fresh := h.fresh
  queue := h.queue
  joined := by
    intro v hjoined
    have hv := h.joined v hjoined
    by_cases hvw : v = w
    · rw [hvw, hhas] at hv
      exact nomatch hv
    · exact (Function.update_of_ne hvw _ _).trans hv
  opening := h.opening
  returned := h.returned

end Working

theorem owned_step (h : Owned src s) {e : Option (Action n)} (hstep : Step src s e s') :
    Owned src s' := by
  cases hstep with
  | pump hpump => exact owned_pump h hpump
  | worker w hworker hread => exact owned_worker h hworker hread
  | wakes p hturn =>
      have hqueue := hturn.queue_eq
      have hcounted := h.queue
      exact ⟨h.accounts, h.fresh, hqueue ▸ hcounted, h.joined, h.opening, h.returned⟩
  | releases w id hhas => exact owned_releases h hhas

theorem owned_run {trace : List (Option (Action n))} (run : Run (Step src) start trace s) :
    Owned src s := by
  apply run.invariant (I := fun _ s => Owned src s) owned_start
  intro _ _ _ _ h hstep
  exact owned_step h hstep

end Invariant

/-! ## No batch is lost -/

section Main

variable {n : Nat} {src : Source} {s : Pool n} {trace : List (Option (Action n))}

/-- Once the call has returned nobody holds anything. -/
theorem Owned.held_returned (h : Owned src s) {status : IngestStatus n}
    (hreturned : s.threads.pump = .returned status) : held s = 0 := by
  have hrefs : pumpRefs (.returned status : Pump n) = 0 := rfl
  have hhand : s.arrays.inHand = 0 :=
    inHand_none s.arrays fun w => h.joined w ((h.returned status hreturned).2 w)
  rw [held, hreturned, hrefs, (h.returned status hreturned).1, hhand]
  rfl

/-- The references of a batch are those of its holders, no batch is released while somebody has
it or one of its slices, none is released twice, and when the call returns, with whatever
status, every batch it took from the stream has been. -/
theorem batches_released_once (run : Run (Step src) start trace s) :
    (∀ id, s.arrays.counts.refs id = (held s).count id) ∧
      (∀ id ∈ held s, id ∉ s.arrays.counts.freed) ∧
      s.arrays.counts.freed.Nodup ∧
      ∀ status, s.threads.pump = .returned status →
        s.arrays.counts.freed.Perm s.arrays.fetched := by
  have h := owned_run run
  refine ⟨h.accounts.counted, fun _ hid => h.accounts.alive hid, h.accounts.once, ?_⟩
  intro status hreturned
  have haccounts := h.accounts
  rw [h.held_returned hreturned] at haccounts
  exact haccounts.all_freed

/-- A batch in two slices, one for each worker: the second to be read releases it. -/
theorem two_slices_released : ∃ (trace : List (Option (Action 2))) (s : Pool 2),
    Run (Step ⟨[⟨20000, true⟩], true⟩) start trace s ∧ s.threads.pump = .returned .ok ∧
      s.arrays.fetched = [0] ∧ s.arrays.counts.freed.Perm [0] := by
  have first : Run (Step ⟨[⟨20000, true⟩], true⟩) (start : Pool 2) [] start := .nil
  have opened := first.snoc (.pump (.opened rfl))
  have zero := opened.snoc (.pump (.threadStarts 0 rfl))
  have one := zero.snoc (.pump (.threadStarts 1 rfl))
  have started := (one.snoc (.pump (.allStarted rfl))).snoc (.pump (.goesOn 2 rfl (by decide)))
  have fetched := started.snoc (.pump (.fetches 0 ⟨20000, true⟩ [] rfl (by decide)))
  have pumped := fetched.snoc (.pump (.pumps 0 ⟨20000, true⟩ [] true rfl))
  have slice := (pumped.snoc (.pump (.allocates _ rfl))).snoc
    (.pump (.pushed _ rfl (.pushed _ (Or.inl rfl) rfl (.nobody (by decide)))))
  have slices := (slice.snoc (.pump (.allocates _ rfl))).snoc
    (.pump (.pushed _ rfl (.pushed _ (Or.inl rfl) rfl (.nobody (by decide)))))
  have finished := (slices.snoc (.pump (.streamEnds _ rfl rfl))).snoc
    (.pump (.finishes rfl (.finish .pump rfl)))
  have popped := finished.snoc (.worker 0 (.popped _ rfl (.popped 0 (Or.inl rfl) rfl)) (Or.inl rfl))
  have both := popped.snoc (.worker 1 (.popped _ rfl (.popped 1 (Or.inl rfl) rfl)) (Or.inl rfl))
  have read := (both.snoc (.releases 1 0 rfl)).snoc (.releases 0 0 rfl)
  have ended := (read.snoc (.worker 0 (.popEnd rfl (.popEnd 0 (Or.inl rfl) rfl)) (Or.inl rfl))).snoc
    (.worker 1 (.popEnd rfl (.popEnd 1 (Or.inl rfl) rfl)) (Or.inl rfl))
  have exited := (ended.snoc (.worker 0 (.returns rfl) (Or.inl rfl))).snoc
    (.worker 1 (.returns rfl) (Or.inl rfl))
  have returned := exited.snoc (.pump (.returns rfl fun
    | 0 => Or.inr ⟨_, rfl⟩
    | 1 => Or.inr ⟨_, rfl⟩))
  exact ⟨_, _, returned, rfl, rfl, (batches_released_once returned).2.2.2 _ rfl⟩

end Main

end AdbcBridge.Ingest.BatchOwner
