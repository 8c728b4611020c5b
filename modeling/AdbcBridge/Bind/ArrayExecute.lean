import AdbcBridge.Lib.Loop
import AdbcBridge.Bind.Session
import Mathlib

/-!
# Column-wise parameter arrays

`ExecuteBatchArray` hands a chunk of rows to the driver as parameter sets and
reads back how far it came: from the processed count, or, when that was not
written, from the number of sets the status array marks as successes.  Sets it
finds marked as errors go on a retry list; whatever lies beyond the accounted
rows is replayed by the caller.  This module follows one chunk and then the
loop, and finds which reports account for every set exactly once.
-/

namespace AdbcBridge.Bind.ArrayExecute

open AdbcBridge.Lib AdbcBridge.Bind.Session

/-- The numbers `c + i` for the `i < n` that `p` selects. -/
def pick (c n : Nat) (p : Nat → Bool) : List Nat := ((List.range n).filter p).map (c + ·)

theorem mem_pick {c n : Nat} {p : Nat → Bool} {x : Nat} :
    x ∈ pick c n p ↔ c ≤ x ∧ x < c + n ∧ p (x - c) = true := by
  simp only [pick, List.mem_map, List.mem_filter, List.mem_range]
  constructor
  · rintro ⟨i, ⟨hi, hp⟩, rfl⟩
    exact ⟨by omega, by omega, by rwa [Nat.add_sub_cancel_left]⟩
  · rintro ⟨hle, hlt, hp⟩
    exact ⟨x - c, ⟨by omega, hp⟩, by omega⟩

theorem nodup_pick (c n : Nat) (p : Nat → Bool) : (pick c n p).Nodup :=
  (List.nodup_range.filter p).map fun _ _ h => Nat.add_left_cancel h

/-- A selected number is picked once, any other never. -/
theorem count_pick (c n : Nat) (p : Nat → Bool) (x : Nat) :
    (pick c n p).count x = if c ≤ x ∧ x < c + n ∧ p (x - c) = true then 1 else 0 := by
  rw [(nodup_pick c n p).count]
  simp only [mem_pick]

/-! ## One chunk -/

/-- `ArrayParamsRowCount`: whether the driver answered, and the rows affected. -/
def arrayParamsRowCount (o : Options) (nsets : Nat) (a : ArrayAnswer) : Bool × Int :=
  let walked := if o.noBatchRowCounts then [] else a.moreResults.take (nsets - 1)
  let counts := (a.rowCount :: walked).filter (0 ≤ ·)
  (!counts.isEmpty, counts.sum)

def chunkRowCount (o : Options) (nsets : Nat) (a : ArrayAnswer) : Bool × Int :=
  if a.ret = .noData then (true, 0) else arrayParamsRowCount o nsets a

/-- `status_filled`. -/
def statusFilled (a : ArrayAnswer) (n : Nat) : Bool :=
  (List.range n).any fun i => a.status i ≠ .unused

def succeededSets (a : ArrayAnswer) (n : Nat) : Nat :=
  (List.range n).countP fun i => (a.status i).succeeded

def unavailableSets (a : ArrayAnswer) (n : Nat) : Nat :=
  (List.range n).countP fun i => a.status i = .diagUnavailable

/-- `unknown_landed`: the row count covers the sets the driver cannot tell about. -/
def unknownLanded (o : Options) (a : ArrayAnswer) (n : Nat) : Bool :=
  let counted := chunkRowCount o n a
  decide (0 < unavailableSets a n) && decide (a.ret = .success) && counted.1 &&
    decide ((succeededSets a n + unavailableSets a n : Nat) ≤ counted.2)

/-- `applied` after the unknown sets have been settled. -/
def appliedSets (o : Options) (a : ArrayAnswer) (n : Nat) : Nat :=
  succeededSets a n + if unknownLanded o a n then unavailableSets a n else 0

/-- The sets of the chunk that are run again on their own. -/
def retried (o : Options) (a : ArrayAnswer) (n i : Nat) : Bool :=
  a.status i = .error || (a.status i = .diagUnavailable && !unknownLanded o a n)

/-- `done`: the parameter sets the driver owns up to having run. -/
def accounted (o : Options) (a : ArrayAnswer) (n : Nat) : Nat :=
  if 0 < a.processed then min a.processed.toNat n
  else if statusFilled a n then appliedSets o a n else 0

/-- What the chunk adds to the rows affected. -/
def chunkTotal (o : Options) (a : ArrayAnswer) (n : Nat) : Int :=
  if (chunkRowCount o n a).1 then (chunkRowCount o n a).2
  else if statusFilled a n then appliedSets o a n else accounted o a n

/-! ## The loop over the batch -/

structure ArrayState where
  row : Nat
  total : Int
  retry : List Nat
  world : World

structure ArrayResult where
  status : Option Failure
  useArray : Bool
  done : Nat
  total : Int
  retry : List Nat
  world : World

namespace ArrayState

/-- Leave the loop where it stands. -/
def stop (st : ArrayState) (status : Option Failure) (useArray : Bool) (w : World) :
    ArrayResult := ⟨status, useArray, st.row, st.total, st.retry, w⟩

end ArrayState

/-- The rows of one chunk. -/
def arrayChunk (perRow nrows : Nat) : Nat :=
  min (if 0 < perRow ∧ 16777216 / perRow < nrows then 16777216 / perRow else nrows) 65536

/-- The capacity of the retry list once it holds `n` rows (`RetryRowsAppend`). -/
def retryCap (n : Nat) : Nat := if n = 0 then 0 else 16 * Nat.nextPowerOfTwo ((n + 15) / 16)

/-- Appending these rows to the retry list needs no memory, or gets it. -/
def retryAppends (d : Driver) (retry again : List Nat) (w : World) : Bool :=
  decide (retryCap (retry.length + again.length) = retryCap retry.length) || d.allocates w.tick

/-- What the driver did with one chunk: it may have applied sets whatever it
answers. -/
def arrayExecute (d : Driver) (base row n : Nat) (w : World) : ArrayAnswer × World :=
  let a := d.arrayAnswer w.tick n
  (a, (w.apply (pick (base + row) n a.lands)).next)

/-- Read the driver's answer to the chunk of `n` sets from `st.row` on; `w` is
the world after the execute. -/
def arraySettle (d : Driver) (o : Options) (n : Nat) (a : ArrayAnswer) (st : ArrayState)
    (w : World) : Turn ArrayState ArrayResult :=
  if a.ret = .error then
    if a.processed = 0 ∧ st.row = 0 then
      -- nothing was applied: the row-at-a-time path replays the batch
      .leave (st.stop none false w)
    else .leave (st.stop (some .execute) true w)
  else
    let w := w.report ⟨n, a⟩
    let again := pick st.row n (retried o a n)
    if !retryAppends d st.retry again w then .leave (st.stop (some .outOfMemory) true w)
    else if accounted o a n = 0 then
      .leave ({ st with retry := st.retry ++ again }.stop (some (.unaccounted n)) true w)
    else
      let st' : ArrayState :=
        ⟨st.row + accounted o a n, st.total + chunkTotal o a n, st.retry ++ again, w⟩
      if accounted o a n < n then .leave (st'.stop none false w) else .again st'

/-- One turn of the loop of `ExecuteBatchArray`. -/
def arrayTurn (d : Driver) (o : Options) (b : Batch) (base chunk : Nat) (st : ArrayState) :
    Turn ArrayState ArrayResult :=
  let n := min (b.length - st.row) chunk
  if n < 2 then .leave (st.stop none true st.world)
  else if !d.setsAttr st.world.tick then .leave (st.stop none false st.world.next)
  else if !b.fills st.row n then .leave (st.stop (some .convert) true st.world.next)
  else if !d.binds st.world.tick then .leave (st.stop (some .bindParameter) true st.world.next)
  else
    let run := arrayExecute d base st.row n st.world.next
    arraySettle d o n run.1 st run.2

theorem countP_add_countP_le {p q : Nat → Bool} (h : ∀ i, p i = true → q i = false)
    (l : List Nat) : l.countP p + l.countP q ≤ l.length := by
  have hq : l.countP q ≤ l.countP fun i => !p i :=
    List.countP_mono_left fun i _ hi => by
      cases hp : p i with
      | false => rfl
      | true => rw [h i hp] at hi; exact hi
  have hsum := List.length_eq_countP_add_countP p (l := l)
  simp only [Bool.not_eq_true, Bool.decide_eq_false] at hsum
  omega

theorem accounted_le (o : Options) (a : ArrayAnswer) (n : Nat) : accounted o a n ≤ n := by
  have hcount : succeededSets a n + unavailableSets a n ≤ n := by
    have h := countP_add_countP_le (p := fun i => (a.status i).succeeded)
      (q := fun i => decide (a.status i = .diagUnavailable))
      (fun i hi => by cases hs : a.status i <;> simp_all [ParamStatus.succeeded])
      (List.range n)
    rwa [List.length_range] at h
  unfold accounted
  split
  · omega
  split
  · unfold appliedSets
    split <;> omega
  · omega

/-- What one turn can do: leave without an execute; leave because the execute
failed; leave with an error after it; leave because not every set is accounted
for; or go on with the next chunk. -/
inductive ArrayTurn (d : Driver) (o : Options) (b : Batch) (base : Nat) (st : ArrayState) :
    Turn ArrayState ArrayResult → Prop
  | idle {r : ArrayResult} (happ : Applies st.world r.world [] []) (hdone : r.done = st.row)
      (hretry : r.retry = st.retry) : ArrayTurn d o b base st (.leave r)
  | declined {r : ArrayResult} {n tick : Nat} (hn : 2 ≤ n)
      (hret : (d.arrayAnswer tick n).ret = .error) (hdone : r.done = st.row)
      (hretry : r.retry = st.retry)
      (happ : Applies st.world r.world (pick (base + st.row) n (d.arrayAnswer tick n).lands) []) :
      ArrayTurn d o b base st (.leave r)
  | broke {r : ArrayResult} {rows : List Nat} {reports : List Report} (hstatus : r.status ≠ none)
      (happ : Applies st.world r.world rows reports) : ArrayTurn d o b base st (.leave r)
  | short {r : ArrayResult} {n tick : Nat} (hn : 2 ≤ n) (hlen : st.row + n ≤ b.length)
      (hret : (d.arrayAnswer tick n).ret ≠ .error)
      (hpos : 0 < accounted o (d.arrayAnswer tick n) n)
      (hdone : r.done = st.row + accounted o (d.arrayAnswer tick n) n)
      (hretry : r.retry = st.retry ++ pick st.row n (retried o (d.arrayAnswer tick n) n))
      (happ : Applies st.world r.world (pick (base + st.row) n (d.arrayAnswer tick n).lands)
        [⟨n, d.arrayAnswer tick n⟩]) : ArrayTurn d o b base st (.leave r)
  | whole {st' : ArrayState} {n tick : Nat} (hn : 2 ≤ n) (hlen : st.row + n ≤ b.length)
      (hret : (d.arrayAnswer tick n).ret ≠ .error)
      (hall : accounted o (d.arrayAnswer tick n) n = n) (hrow : st'.row = st.row + n)
      (hretry : st'.retry = st.retry ++ pick st.row n (retried o (d.arrayAnswer tick n) n))
      (happ : Applies st.world st'.world (pick (base + st.row) n (d.arrayAnswer tick n).lands)
        [⟨n, d.arrayAnswer tick n⟩]) : ArrayTurn d o b base st (.again st')

theorem arrayTurn_cases (d : Driver) (o : Options) (b : Batch) (base chunk : Nat)
    (st : ArrayState) : ArrayTurn d o b base st (arrayTurn d o b base chunk st) := by
  unfold arrayTurn
  dsimp only
  split
  · exact .idle (.refl _) rfl rfl
  rename_i hmin
  split
  · exact .idle (.next _) rfl rfl
  split
  · exact .idle (.next _) rfl rfl
  split
  · exact .idle (.next _) rfl rfl
  generalize hn : min (b.length - st.row) chunk = n at *
  generalize ht : st.world.next.tick = tick
  have hrun : (arrayExecute d base st.row n st.world.next).1 = d.arrayAnswer tick n := by
    rw [← ht]; rfl
  have happ : Applies st.world (arrayExecute d base st.row n st.world.next).2
      (pick (base + st.row) n (d.arrayAnswer tick n).lands) [] :=
    (Applies.next st.world).after_quiet (by rw [← ht]; exact .applied st.world.next _)
  rw [hrun]
  generalize (arrayExecute d base st.row n st.world.next).2 = w at happ
  have hreport : Applies st.world (w.report ⟨n, d.arrayAnswer tick n⟩)
      (pick (base + st.row) n (d.arrayAnswer tick n).lands) [⟨n, d.arrayAnswer tick n⟩] :=
    ⟨happ.ledger, by simp [happ.reports], happ.tick_le⟩
  unfold arraySettle
  split
  · rename_i hret
    split
    · exact .declined (by omega) hret rfl rfl happ
    · exact .declined (by omega) hret rfl rfl happ
  rename_i hret
  dsimp only
  split
  · exact .broke (by simp [ArrayState.stop]) hreport
  split
  · exact .broke (by simp [ArrayState.stop]) hreport
  rename_i hpos
  have hle := accounted_le o (d.arrayAnswer tick n) n
  split
  · exact .short (by omega) (by omega) hret (by omega) rfl rfl hreport
  · exact .whole (by omega) (by omega) hret (by omega) (by simp only; omega) rfl hreport

def arrayLoop (d : Driver) (o : Options) (b : Batch) (base chunk : Nat) :
    Loop ArrayState ArrayResult where
  turn := arrayTurn d o b base chunk
  rank := fun st => b.length - st.row
  descends := by
    intro st st' h
    have hcases := arrayTurn_cases d o b base chunk st
    rw [h] at hcases
    cases hcases with
    | whole hn hlen _ _ hrow _ _ => omega

/-- `ExecuteBatchArray`. -/
def executeBatchArray (d : Driver) (o : Options) (b : Batch) (base : Nat) (total : Int)
    (w : World) : ArrayResult :=
  let st (w : World) : ArrayState := ⟨0, total, [], w⟩
  if !d.allocates w.tick then (st w.next).stop (some .outOfMemory) true w.next
  else
    match b.arrayPlan with
    | none => (st w.next).stop none true w.next
    | some perRow =>
        let chunk := arrayChunk perRow b.length
        if chunk < 2 then (st w.next).stop none true w.next
        else if !d.allocates w.next.tick then
          (st w.next).stop (some .outOfMemory) true w.next.next
        else if !d.setsAttr w.next.tick then (st w.next).stop none false w.next.next
        else (arrayLoop d o b base chunk).run (st w.next.next)

/-! ## Reports that account for every set once -/

/-- What a driver says of an execute it answered as a success: by the status
array (success, success with info, error, unused), by the processed count, or by
both, in which case the processed sets are the ones not left unused. -/
structure Reports (a : ArrayAnswer) (n : Nat) : Prop where
  known : ∀ i < n, a.status i ≠ .diagUnavailable
  marked : statusFilled a n = true → ∀ i < n, a.lands i = (a.status i).succeeded
  count_le : 0 ≤ a.processed ∧ a.processed ≤ n
  count_marked : a.processed ≠ 0 → statusFilled a n = true →
    ∀ i < n, (a.status i ≠ .unused ↔ (i : Int) < a.processed)
  count_only : a.processed ≠ 0 → statusFilled a n = false →
    ∀ i < n, (a.lands i = true ↔ (i : Int) < a.processed)

/-- A failed execute applies nothing, and a successful one reports its sets. -/
structure Conforms (a : ArrayAnswer) (n : Nat) : Prop where
  failed : a.ret = .error → ∀ i < n, a.lands i = false
  reports : a.ret ≠ .error → Reports a n

/-- The number of sets is known from the processed count, or from a status array
that is a run of successes followed by unused sets only. -/
def Counted (a : ArrayAnswer) (n : Nat) : Prop :=
  a.processed = 0 → ∀ i < n, (a.status i).succeeded = false →
    ∀ j < n, i ≤ j → a.status j = .unused

/-- How often set `i` of a chunk is applied in the end: by the execute, by the
retry list, and by the replay of the remainder. -/
def setCount (o : Options) (a : ArrayAnswer) (n i : Nat) : Nat :=
  (if a.lands i then 1 else 0) + (if retried o a n i then 1 else 0) +
    (if accounted o a n ≤ i then 1 else 0)

theorem countP_range_succ (p : Nat → Bool) (n : Nat) :
    (List.range (n + 1)).countP p = (List.range n).countP p + if p n then 1 else 0 := by
  rw [List.range_succ, List.countP_append, List.countP_singleton]

/-- Counting a downward closed predicate finds where it ends. -/
theorem lt_countP_range {p : Nat → Bool} :
    ∀ {n : Nat}, (∀ i j, i ≤ j → j < n → p j = true → p i = true) →
      ∀ i < n, (p i = true ↔ i < (List.range n).countP p) := by
  intro n
  induction n with
  | zero => intro _ i hi; omega
  | succ n ih =>
      intro hdown i hi
      have hih := ih fun i j hij hj => hdown i j hij (by omega)
      have hle : (List.range n).countP p ≤ n := by
        simpa using List.countP_le_length (p := p) (l := List.range n)
      rw [countP_range_succ]
      by_cases hpn : p n = true
      · have hall : (List.range n).countP p = n := by
          rw [List.countP_eq_length.2, List.length_range]
          intro k hk
          exact hdown k n (by simpa using Nat.le_of_lt (List.mem_range.1 hk)) (by omega) hpn
        have hi' : p i = true := hdown i n (by omega) (by omega) hpn
        simp only [hpn, if_true, hall]
        exact ⟨fun _ => by omega, fun _ => hi'⟩
      · simp only [hpn, Bool.false_eq_true, if_false, Nat.add_zero]
        by_cases hin : i = n
        · subst hin
          exact ⟨fun h => absurd h hpn, fun h => by omega⟩
        · exact hih i (by omega)

/-- A predicate that holds of nothing from its own count on holds of everything
below. -/
theorem all_of_countP_range {p : Nat → Bool} {n : Nat}
    (h : ∀ i < n, p i = true → i < (List.range n).countP p) :
    ∀ i < (List.range n).countP p, p i = true := by
  generalize hk : (List.range n).countP p = k at h
  have hkn : k ≤ n := by
    rw [← hk]
    simpa using List.countP_le_length (p := p) (l := List.range n)
  have hsplit : (List.range n).countP p =
      (List.range k).countP p + (List.range' k (n - k)).countP p := by
    rw [← List.countP_append, List.range_eq_range', List.range_eq_range']
    congr 1
    have hjoin := List.range'_append_1 (s := 0) (m := k) (n := n - k)
    rw [Nat.zero_add, Nat.add_sub_cancel' hkn] at hjoin
    exact hjoin.symm
  have hnone : (List.range' k (n - k)).countP p = 0 := by
    rw [List.countP_eq_zero]
    intro i hi hp
    rw [List.mem_range'_1] at hi
    have := h i (by omega) hp
    omega
  have hfull : (List.range k).countP p = (List.range k).length := by
    rw [List.length_range]; omega
  intro i hi
  exact List.countP_eq_length.1 hfull i (List.mem_range.2 hi)

section Chunk

variable {o : Options} {a : ArrayAnswer} {n : Nat}

theorem statusFilled_of_succeeded {i : Nat} (hi : i < n)
    (h : (a.status i).succeeded = true) : statusFilled a n = true := by
  rw [statusFilled, List.any_eq_true]
  refine ⟨i, List.mem_range.2 hi, ?_⟩
  cases hs : a.status i <;> simp_all [ParamStatus.succeeded]

theorem unused_of_not_filled (h : statusFilled a n = false) {i : Nat} (hi : i < n) :
    a.status i = .unused := by
  rw [statusFilled, List.any_eq_false] at h
  simpa using h i (List.mem_range.2 hi)

/-- A driver that knows every set's fate leaves no unknown one to be settled. -/
theorem unavailableSets_eq_zero (h : Reports a n) : unavailableSets a n = 0 := by
  rw [unavailableSets, List.countP_eq_zero]
  intro i hi
  simpa using h.known i (List.mem_range.1 hi)

theorem retried_iff (h : Reports a n) {i : Nat} (hi : i < n) :
    retried o a n i = true ↔ a.status i = .error := by
  simp [retried, h.known i hi]

/-- Without a processed count, the accounted sets are the marked successes. -/
theorem accounted_of_uncounted (h : Reports a n) (hzero : a.processed = 0)
    (hpos : 0 < accounted o a n) : accounted o a n = succeededSets a n := by
  revert hpos
  unfold accounted appliedSets
  rw [if_neg (by omega), unavailableSets_eq_zero h]
  split <;> simp

theorem accounted_of_counted (h : Reports a n) (hcount : a.processed ≠ 0) :
    (accounted o a n : Int) = a.processed := by
  have := h.count_le
  unfold accounted
  rw [if_pos (by omega)]
  omega

/-- Counted by the processed count, every set is applied once. -/
theorem setCount_of_counted (h : Reports a n) (hcount : a.processed ≠ 0) {i : Nat}
    (hi : i < n) : setCount o a n i = 1 := by
  have hacc : (accounted o a n ≤ i) ↔ ¬ (i : Int) < a.processed := by
    have := accounted_of_counted (o := o) h hcount
    omega
  unfold setCount
  simp only [hacc, retried_iff h hi]
  by_cases hfilled : statusFilled a n = true
  · have hran := h.count_marked hcount hfilled i hi
    rw [h.marked hfilled i hi]
    have hknown := h.known i hi
    cases hs : a.status i <;> simp_all [ParamStatus.succeeded]
  · rw [Bool.not_eq_true] at hfilled
    have hlands := h.count_only hcount hfilled i hi
    rw [unused_of_not_filled hfilled hi]
    by_cases hlt : (i : Int) < a.processed
    · simp [hlands.2 hlt, hlt]
    · have : a.lands i = false := by
        rw [← Bool.not_eq_true, hlands]
        exact hlt
      simp [this, hlt]

/-- Counted by the status array alone, every set is applied once exactly when
the array is a run of successes followed by unused sets. -/
theorem setCount_of_uncounted (h : Reports a n) (hzero : a.processed = 0)
    (hpos : 0 < accounted o a n) : (∀ i < n, setCount o a n i = 1) ↔ Counted a n := by
  have hacc := accounted_of_uncounted h hzero hpos
  have hfilled : statusFilled a n = true := by
    rw [hacc, succeededSets, List.countP_pos_iff] at hpos
    obtain ⟨i, hi, hs⟩ := hpos
    exact statusFilled_of_succeeded (List.mem_range.1 hi) hs
  have hset : ∀ i < n, setCount o a n i = 1 ↔
      ((a.status i).succeeded = true ∧ i < accounted o a n) ∨
      (a.status i = .error ∧ i < accounted o a n) ∨
      (a.status i = .unused ∧ accounted o a n ≤ i) := by
    intro i hi
    have hknown := h.known i hi
    unfold setCount
    simp only [retried_iff h hi, h.marked hfilled i hi]
    by_cases hle : accounted o a n ≤ i
    · cases hs : a.status i <;> simp_all [ParamStatus.succeeded]
    · cases hs : a.status i <;> simp_all [ParamStatus.succeeded]
  constructor
  · intro hone _ i hi hfail j hj hij
    -- the successes lie below their own number, so they fill that run
    have hall : ∀ k < accounted o a n, (a.status k).succeeded = true := by
      rw [hacc]
      apply all_of_countP_range
      intro k hk hs
      have hk' := (hset k hk).1 (hone k hk)
      rw [hacc] at hk'
      rcases hk' with h | h | h
      · exact h.2
      · simp [h.1, ParamStatus.succeeded] at hs
      · simp [h.1, ParamStatus.succeeded] at hs
    have hi' : accounted o a n ≤ i := by
      by_contra hlt
      rw [hall i (by omega)] at hfail
      exact Bool.noConfusion hfail
    rcases (hset j hj).1 (hone j hj) with h | h | h
    · omega
    · omega
    · exact h.1
  · intro hcounted i hi
    have hdown : ∀ k j, k ≤ j → j < n →
        (a.status j).succeeded = true → (a.status k).succeeded = true := by
      intro k j hkj hj hs
      by_contra hk
      have := hcounted hzero k (by omega) (by simpa using hk) j hj hkj
      simp [this, ParamStatus.succeeded] at hs
    have hcut := lt_countP_range hdown i hi
    rw [hset i hi, hacc, succeededSets, ← hcut]
    by_cases hs : (a.status i).succeeded = true
    · exact .inl ⟨hs, hs⟩
    · have hunused := hcounted hzero i hi (by simpa using hs) i hi le_rfl
      exact .inr (.inr ⟨hunused, by rw [hcut] at hs; exact not_lt.1 hs⟩)

theorem setCount_iff (h : Reports a n) (hpos : 0 < accounted o a n) :
    (∀ i < n, setCount o a n i = 1) ↔ Counted a n := by
  by_cases hcount : a.processed = 0
  · exact setCount_of_uncounted h hcount hpos
  · exact iff_of_true (fun i hi => setCount_of_counted h hcount hi)
      (fun hzero => absurd hzero hcount)

end Chunk

/-! ## The batch -/

/-- Rows `[0, row)` of the batch are each applied once so far, by the executes
(as `base + i`) or by being on the retry list. -/
structure Covered (base row : Nat) (retry rows : List Nat) : Prop where
  rows_lt : ∀ x ∈ rows, base ≤ x ∧ x < base + row
  retry_lt : ∀ i ∈ retry, i < row
  once : ∀ i < row, rows.count (base + i) + retry.count i = 1

/-- What the array path leaves: how the rows it applied, its retry list and the
remainder the caller replays add up over the batch, given the reports it had. -/
structure Settled (base len done : Nat) (retry rows : List Nat) (reports : List Report) :
    Prop where
  done_le : done ≤ len
  rows_lt : ∀ x ∈ rows, base ≤ x ∧ x < base + len
  retry_lt : ∀ i ∈ retry, i < len
  untouched : done = 0 → rows = []
  once_iff : (∀ i < len, rows.count (base + i) + retry.count i +
      (if done ≤ i then 1 else 0) = 1) ↔ ∀ r ∈ reports, Counted r.answer r.sets

theorem Covered.nil (base : Nat) : Covered base 0 [] [] := ⟨by simp, by simp, by simp⟩

theorem Covered.rows_nil {base row : Nat} {retry rows : List Nat}
    (h : Covered base row retry rows) (hrow : row = 0) : rows = [] := by
  apply List.eq_nil_iff_forall_not_mem.2
  intro x hx
  have := h.rows_lt x hx
  omega

/-- The counts after one more chunk. -/
theorem Covered.count_chunk {base row n : Nat} {retry rows : List Nat} {p q : Nat → Bool}
    (h : Covered base row retry rows) (i : Nat) :
    (rows ++ pick (base + row) n p).count (base + i) + (retry ++ pick row n q).count i =
      if i < row then 1
      else if i < row + n then
        (if p (i - row) then 1 else 0) + (if q (i - row) then 1 else 0)
      else 0 := by
  rw [List.count_append, List.count_append, count_pick, count_pick]
  have hshift : base + i - (base + row) = i - row := by omega
  rw [hshift]
  by_cases hi : i < row
  · have := h.once i hi
    rw [if_pos hi, if_neg (by omega), if_neg (by omega)]
    omega
  · have hrows : rows.count (base + i) = 0 := by
      apply List.count_eq_zero.2
      intro hmem
      have := h.rows_lt _ hmem
      omega
    have hretry : retry.count i = 0 := by
      apply List.count_eq_zero.2
      intro hmem
      have := h.retry_lt i hmem
      omega
    rw [hrows, hretry, if_neg hi, Nat.zero_add, Nat.zero_add]
    by_cases hin : i < row + n
    · rw [if_pos hin]
      simp only [show base + row ≤ base + i by omega, show row ≤ i by omega, hin, true_and,
        show base + i < base + row + n by omega]
    · rw [if_neg hin, if_neg (by omega), if_neg (by omega)]

theorem Covered.rows_lt_chunk {base row n : Nat} {retry rows : List Nat} {p : Nat → Bool}
    (h : Covered base row retry rows) :
    ∀ x ∈ rows ++ pick (base + row) n p, base ≤ x ∧ x < base + (row + n) := by
  intro x hx
  rcases List.mem_append.1 hx with hx | hx
  · have := h.rows_lt x hx
    omega
  · have := mem_pick.1 hx
    omega

theorem Covered.retry_lt_chunk {base row n : Nat} {retry rows : List Nat} {q : Nat → Bool}
    (h : Covered base row retry rows) : ∀ i ∈ retry ++ pick row n q, i < row + n := by
  intro i hi
  rcases List.mem_append.1 hi with hi | hi
  · have := h.retry_lt i hi
    omega
  · exact (mem_pick.1 hi).2.1

section Batch

variable {base row len n : Nat} {retry rows : List Nat} {reports : List Report}
  {o : Options} {a : ArrayAnswer}

/-- A chunk accounted for as a whole extends the cover. -/
theorem Covered.whole (h : Covered base row retry rows) (ha : Reports a n) (hn : 0 < n)
    (hall : accounted o a n = n) (hcounted : Counted a n) :
    Covered base (row + n) (retry ++ pick row n (retried o a n))
      (rows ++ pick (base + row) n a.lands) where
  rows_lt := h.rows_lt_chunk
  retry_lt := h.retry_lt_chunk
  once := by
    intro i hi
    rw [h.count_chunk]
    by_cases hlow : i < row
    · rw [if_pos hlow]
    · rw [if_neg hlow, if_pos hi]
      have hone := (setCount_iff (o := o) ha (by omega)).2 hcounted (i - row) (by omega)
      rw [setCount, hall, if_neg (by omega : ¬ n ≤ i - row)] at hone
      omega

/-- A whole chunk is always counted: as many successes as sets leave no gap. -/
theorem counted_of_whole (ha : Reports a n) (hn : 0 < n) (hall : accounted o a n = n) :
    Counted a n := by
  intro hzero i hi hfail
  rw [accounted_of_uncounted ha hzero (by omega), succeededSets] at hall
  have hfull : ∀ k ∈ List.range n, (a.status k).succeeded = true :=
    List.countP_eq_length.1 (by rw [hall, List.length_range])
  rw [hfull i (List.mem_range.2 hi)] at hfail
  exact Bool.noConfusion hfail

/-- Stopping with nothing more executed leaves the rest to the replay. -/
theorem Covered.settled (h : Covered base row retry rows) (hrow : row ≤ len)
    (hreports : ∀ r ∈ reports, Counted r.answer r.sets) :
    Settled base len row retry rows reports where
  done_le := hrow
  rows_lt := fun x hx => by have := h.rows_lt x hx; omega
  retry_lt := fun i hi => by have := h.retry_lt i hi; omega
  untouched := h.rows_nil
  once_iff := by
    refine iff_of_true (fun i _ => ?_) hreports
    have hcount := h.count_chunk (n := 0) (p := fun _ => false) (q := fun _ => false) i
    simp only [pick, List.range_zero, List.filter_nil, List.map_nil, List.append_nil,
      Nat.add_zero] at hcount
    rw [hcount]
    by_cases hi : i < row
    · simp [hi]
    · simp [hi, Nat.not_lt.1 hi]

/-- A chunk accounted for only in part ends the array path. -/
theorem Covered.short (h : Covered base row retry rows) (ha : Reports a n)
    (hlen : row + n ≤ len) (hpos : 0 < accounted o a n)
    (hreports : ∀ r ∈ reports, Counted r.answer r.sets) :
    Settled base len (row + accounted o a n) (retry ++ pick row n (retried o a n))
      (rows ++ pick (base + row) n a.lands) (reports ++ [⟨n, a⟩]) where
  done_le := by have := accounted_le o a n; omega
  rows_lt := fun x hx => by have := h.rows_lt_chunk x hx; omega
  retry_lt := fun i hi => by have := h.retry_lt_chunk i hi; omega
  untouched := by omega
  once_iff := by
    have hle := accounted_le o a n
    calc (∀ i < len, (rows ++ pick (base + row) n a.lands).count (base + i) +
            (retry ++ pick row n (retried o a n)).count i +
            (if row + accounted o a n ≤ i then 1 else 0) = 1)
        ↔ ∀ i < n, setCount o a n i = 1 := by
          constructor
          · intro hone i hi
            have := hone (row + i) (by omega)
            rw [h.count_chunk, if_neg (by omega), if_pos (by omega), Nat.add_sub_cancel_left]
              at this
            simpa only [setCount, Nat.add_le_add_iff_left] using this
          · intro hone i hi
            rw [h.count_chunk]
            by_cases hlow : i < row
            · rw [if_pos hlow, if_neg (by omega)]
            rw [if_neg hlow]
            by_cases hin : i < row + n
            · have := hone (i - row) (by omega)
              rw [if_pos hin]
              rw [setCount] at this
              simpa only [show (row + accounted o a n ≤ i) ↔ (accounted o a n ≤ i - row) by omega]
                using this
            · rw [if_neg hin, if_pos (by omega)]
      _ ↔ Counted a n := setCount_iff ha hpos
      _ ↔ ∀ r ∈ reports ++ [⟨n, a⟩], Counted r.answer r.sets := by
          simp only [List.mem_append, List.mem_singleton]
          constructor
          · rintro hc r (hr | rfl)
            · exact hreports r hr
            · exact hc
          · exact fun hc => hc ⟨n, a⟩ (.inr rfl)

end Batch

/-- Nothing lands in an execute that failed. -/
theorem pick_lands_of_failed {a : ArrayAnswer} {n : Nat} (h : Conforms a n)
    (hret : a.ret = .error) (c : Nat) : pick c n a.lands = [] := by
  apply List.eq_nil_iff_forall_not_mem.2
  intro x hx
  have hmem := mem_pick.1 hx
  rw [h.failed hret (x - c) (by omega)] at hmem
  exact Bool.noConfusion hmem.2.2

/-- A driver whose parameter-array executes all conform. -/
def ArrayConforming (d : Driver) : Prop :=
  ∀ tick n, 2 ≤ n → Conforms (d.arrayAnswer tick n) n

/-- Whatever the array path does, it applies some rows; when it leaves without an
error they settle the batch. -/
def ArraySpec (base len : Nat) (w : World) (r : ArrayResult) : Prop :=
  ∃ rows reports, Applies w r.world rows reports ∧
    (r.status = none → Settled base len r.done r.retry rows reports)

theorem arrayLoop_spec {d : Driver} (hd : ArrayConforming d) (o : Options) (b : Batch)
    (base chunk : Nat) (total : Int) (w : World) :
    ArraySpec base b.length w ((arrayLoop d o b base chunk).run ⟨0, total, [], w⟩) := by
  apply Loop.run_rule (I := fun st => ∃ rows reports, Applies w st.world rows reports ∧
    st.row ≤ b.length ∧ Covered base st.row st.retry rows ∧
    ∀ r ∈ reports, Counted r.answer r.sets)
  · rintro st st' ⟨rows, reports, happ, hrow, hcov, hreports⟩ hturn
    have hcases := arrayTurn_cases d o b base chunk st
    rw [show arrayTurn d o b base chunk st = .again st' from hturn] at hcases
    cases hcases with
    | whole hn hlen hret hall hrow' hretry hstep =>
        have ha := (hd _ _ hn).reports hret
        have hcounted := counted_of_whole ha (by omega) hall
        refine ⟨_, _, happ.trans hstep, by omega, ?_, ?_⟩
        · rw [hrow', hretry]
          exact hcov.whole ha (by omega) hall hcounted
        · intro r hr
          rcases List.mem_append.1 hr with hr | hr
          · exact hreports r hr
          · rw [List.mem_singleton.1 hr]
            exact hcounted
  · rintro st r ⟨rows, reports, happ, hrow, hcov, hreports⟩ hturn
    have hcases := arrayTurn_cases d o b base chunk st
    rw [show arrayTurn d o b base chunk st = .leave r from hturn] at hcases
    cases hcases with
    | idle hstep hdone hretry =>
        refine ⟨rows, reports, happ.then_quiet hstep, fun _ => ?_⟩
        rw [hdone, hretry]
        exact hcov.settled hrow hreports
    | declined hn hret hdone hretry hstep =>
        rw [pick_lands_of_failed (hd _ _ hn) hret] at hstep
        refine ⟨rows, reports, happ.then_quiet hstep, fun _ => ?_⟩
        rw [hdone, hretry]
        exact hcov.settled hrow hreports
    | broke hstatus hstep => exact ⟨_, _, happ.trans hstep, fun h => absurd h hstatus⟩
    | short hn hlen hret hpos hdone hretry hstep =>
        refine ⟨_, _, happ.trans hstep, fun _ => ?_⟩
        rw [hdone, hretry]
        exact hcov.short ((hd _ _ hn).reports hret) hlen hpos hreports
  · exact ⟨[], [], .refl w, Nat.zero_le _, .nil base, by simp⟩

theorem ArraySpec.quiet {base len : Nat} {w : World} {r : ArrayResult}
    (happ : Applies w r.world [] []) (hdone : r.done = 0) (hretry : r.retry = []) :
    ArraySpec base len w r := by
  refine ⟨[], [], happ, fun _ => ?_⟩
  rw [hdone, hretry]
  exact (Covered.nil base).settled (Nat.zero_le _) (by simp)

/-- `ExecuteBatchArray` settles the batch. -/
theorem executeBatchArray_spec {d : Driver} (hd : ArrayConforming d) (o : Options) (b : Batch)
    (base : Nat) (total : Int) (w : World) :
    ArraySpec base b.length w (executeBatchArray d o b base total w) := by
  unfold executeBatchArray
  dsimp only
  split
  · exact .quiet (.next w) rfl rfl
  split
  · exact .quiet (.next w) rfl rfl
  split
  · exact .quiet (.next w) rfl rfl
  split
  · exact .quiet ((Applies.next w).then_quiet (.next _)) rfl rfl
  split
  · exact .quiet ((Applies.next w).then_quiet (.next _)) rfl rfl
  · obtain ⟨rows, reports, happ, hsettled⟩ := arrayLoop_spec hd o b base _ total w.next.next
    exact ⟨rows, reports, ((Applies.next w).then_quiet (.next _)).after_quiet happ, hsettled⟩

/-- Whatever the driver answers, the array path only applies rows. -/
theorem executeBatchArray_applies (d : Driver) (o : Options) (b : Batch) (base : Nat)
    (total : Int) (w : World) :
    ∃ rows reports, Applies w (executeBatchArray d o b base total w).world rows reports := by
  have hloop : ∀ chunk, ∃ rows reports, Applies w
      ((arrayLoop d o b base chunk).run ⟨0, total, [], w.next.next⟩).world rows reports := by
    intro chunk
    apply Loop.run_rule
      (I := fun st : ArrayState => ∃ rows reports, Applies w st.world rows reports)
      (P := fun r : ArrayResult => ∃ rows reports, Applies w r.world rows reports)
    · rintro st st' ⟨rows, reports, happ⟩ hturn
      have hcases := arrayTurn_cases d o b base chunk st
      rw [show arrayTurn d o b base chunk st = .again st' from hturn] at hcases
      cases hcases with
      | whole _ _ _ _ _ _ hstep => exact ⟨_, _, happ.trans hstep⟩
    · rintro st r ⟨rows, reports, happ⟩ hturn
      have hcases := arrayTurn_cases d o b base chunk st
      rw [show arrayTurn d o b base chunk st = .leave r from hturn] at hcases
      cases hcases with
      | idle hstep => exact ⟨_, _, happ.trans hstep⟩
      | declined _ _ _ _ hstep => exact ⟨_, _, happ.trans hstep⟩
      | broke _ hstep => exact ⟨_, _, happ.trans hstep⟩
      | short _ _ _ _ _ _ hstep => exact ⟨_, _, happ.trans hstep⟩
    · exact ⟨[], [], (Applies.next w).then_quiet (.next _)⟩
  unfold executeBatchArray
  dsimp only
  split
  · exact ⟨[], [], .next w⟩
  split
  · exact ⟨[], [], .next w⟩
  split
  · exact ⟨[], [], .next w⟩
  split
  · exact ⟨[], [], (Applies.next w).then_quiet (.next _)⟩
  split
  · exact ⟨[], [], (Applies.next w).then_quiet (.next _)⟩
  · exact hloop _

/-! ## After the array path -/

/-- A leading run settles its rows without a retry. -/
theorem Settled.leading (base : Nat) {len n : Nat} (hn : n ≤ len) :
    Settled base len n [] (List.range' base n) [] where
  done_le := hn
  rows_lt := fun x hx => by rw [List.mem_range'_1] at hx; omega
  retry_lt := by simp
  untouched := by rintro rfl; rfl
  once_iff := by
    refine iff_of_true (fun i hi => ?_) (by simp)
    rw [List.count_nil, Nat.add_zero, (List.nodup_range' : (List.range' base n).Nodup).count]
    simp only [List.mem_range'_1]
    by_cases hin : i < n
    · rw [if_pos (by omega), if_neg (by omega)]
    · rw [if_neg (by omega), if_pos (by omega)]

/-- Applying the next rows moves the hand-over. -/
theorem Settled.extend {base len row : Nat} {retry rows : List Nat} {reports : List Report}
    (h : Settled base len row retry rows reports) {n : Nat} (hn : n ≤ len - row) :
    Settled base len (row + n) retry (rows ++ List.range' (base + row) n) reports where
  done_le := by have := h.done_le; omega
  rows_lt := by
    intro x hx
    have hle := h.done_le
    rcases List.mem_append.1 hx with hx | hx
    · exact h.rows_lt x hx
    · rw [List.mem_range'_1] at hx
      omega
  retry_lt := h.retry_lt
  untouched := by
    intro hzero
    rw [h.untouched (by omega), show n = 0 by omega]
    rfl
  once_iff := by
    rw [← h.once_iff]
    refine forall_congr' fun i => imp_congr_right fun _ => ?_
    rw [List.count_append,
      (List.nodup_range' : (List.range' (base + row) n).Nodup).count]
    simp only [List.mem_range'_1]
    by_cases hlow : row ≤ i
    · by_cases hin : i < row + n
      · rw [if_pos (by omega), if_neg (by omega), if_pos hlow]
        omega
      · rw [if_neg (by omega), if_pos (by omega), if_pos hlow]
        omega
    · rw [if_neg (by omega), if_neg (by omega), if_neg hlow]
      omega

/-- The retry list makes up for the rest. -/
theorem Settled.retried {base len : Nat} {retry rows : List Nat} {reports : List Report}
    (h : Settled base len len retry rows reports) :
    (∀ i < len, (rows ++ retry.map (base + ·)).count (base + i) = 1) ↔
      ∀ r ∈ reports, Counted r.answer r.sets := by
  rw [← h.once_iff]
  refine forall_congr' fun i => imp_congr_right fun hi => ?_
  rw [List.count_append, List.count_map_of_injective retry _ (fun _ _ h => Nat.add_left_cancel h),
    if_neg (by omega), Nat.add_zero]

end AdbcBridge.Bind.ArrayExecute
