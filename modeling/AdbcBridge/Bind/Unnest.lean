import AdbcBridge.Bind.MultiRow

/-!
# Array ingest

PostgreSQL takes a whole column of a batch as one array literal.  The path
renders as many rows as every column can spell, executes them at once and goes
on; a row that cannot be spelled ends the form for the rest of the ingest, and a
refusal before anything was applied lets the caller replay the batch.
-/

namespace AdbcBridge.Bind.Unnest

open AdbcBridge.Lib AdbcBridge.Bind.Session AdbcBridge.Bind.MultiRow

/-- `ArrayIngest::rows`, the rows one execute carries. -/
abbrev Carried := {n : Nat // 0 < n}

/-- `struct ArrayIngest`; it is active while it carries rows. -/
structure ArrayIngest where
  enabled : Bool
  ready : Bool := false
  rows : Option Carried := none

def arrayIngestInit (s : OdbcStatement) (ncols : Nat) : ArrayIngest where
  enabled := s.ingestInto.isSome && decide (0 < ncols) && decide (s.rowsPerInsert ≠ 1) &&
    s.connected && s.opts.pgArrayIngest

/-- The once-per-connection server check; the world remembers its answer. -/
def arrayIngestProbe (d : Driver) (w : World) : Bool × World :=
  if w.memory.arrayIngestUnsupported then (false, w)
  else if w.memory.arrayIngestProbed then (true, w)
  else
    let ok := d.serverOk w.tick
    (ok, (w.setMemory
      { w.memory with arrayIngestProbed := true, arrayIngestUnsupported := !ok }).next)

def arrayIngestRows (s : OdbcStatement) : Carried :=
  if h : 1 < s.rowsPerInsert then ⟨s.rowsPerInsert, by omega⟩ else ⟨10000, by omega⟩

/-- `ArrayIngestSetup`; `spellable` says that every column has an element type. -/
def arrayIngestSetup (d : Driver) (s : OdbcStatement) (spellable : Bool) (ai : ArrayIngest)
    (w : World) : ArrayIngest × World :=
  let probed := arrayIngestProbe d w
  if !probed.1 || !spellable then ({ ai with ready := true }, probed.2)
  else if !d.prepares probed.2.tick then ({ ai with ready := true }, probed.2.next)
  else if !d.allocates probed.2.next.tick then ({ ai with ready := true }, probed.2.next.next)
  else ({ ai with ready := true, rows := some (arrayIngestRows s) }, probed.2.next.next)

/-- Render every column, and again for the shortest that came back, until all of
them carry the same rows; `none` is a rendering error. -/
def arrayIngestFit (b : Batch) (row n : Nat) : Option {m : Nat // m ≤ n} :=
  if b.renders row n then
    let smallest := min n (b.fit row n)
    if smallest = n then some ⟨n, Nat.le_refl n⟩
    else if smallest = 0 then some ⟨0, Nat.zero_le n⟩
    else (arrayIngestFit b row smallest).map fun m => ⟨m.1, by have := m.2; omega⟩
  else none
termination_by n
decreasing_by omega

structure ArrayIngestState where
  row : Nat
  total : Int
  world : World

/-- One turn of `ArrayIngestExecuteBatch`. -/
def arrayIngestTurn (d : Driver) (b : Batch) (base row0 nrows : Nat) (virgin : Bool)
    (rows : Carried) (st : ArrayIngestState) : Turn ArrayIngestState (PathResult Carried) :=
  if nrows - st.row < 1 then .leave ⟨none, st.row, false, st.total, st.world, some rows⟩
  else
    match arrayIngestFit b (row0 + st.row) (min (nrows - st.row) rows.1) with
    | none => .leave ⟨some .convert, 0, false, st.total, st.world, some rows⟩
    | some n =>
        if n.1 = 0 then
          -- not even one row can be spelled here: the form stops for good
          .leave ⟨none, st.row, false, st.total, st.world, none⟩
        else if !d.allocates st.world.tick then
          .leave ⟨some .outOfMemory, 0, false, st.total, st.world.next, some rows⟩
        else if !d.binds st.world.tick then
          .leave ⟨some .bindParameter, 0, false, st.total, st.world.next, some rows⟩
        else if d.executes st.world.tick then
          .again ⟨st.row + n.1, st.total + n.1,
            (st.world.apply (List.range' (base + (row0 + st.row)) n.1)).next⟩
        else if !virgin || decide (st.row ≠ 0) then
          .leave ⟨some .execute, 0, false, st.total, st.world.next, some rows⟩
        else .leave ⟨none, 0, true, st.total, st.world.next, none⟩

/-- What one turn can do. -/
inductive ArrayIngestTurn (base row0 nrows : Nat) (virgin : Bool) (st : ArrayIngestState) :
    Turn ArrayIngestState (PathResult Carried) → Prop
  | finished {r : PathResult Carried} (happ : Applies st.world r.world [] [])
      (hstatus : r.status = none → r.done = st.row)
      (hback : r.fellBack = true → st.row = 0 ∧ virgin = true) :
      ArrayIngestTurn base row0 nrows virgin st (.leave r)
  | applied {n : Nat} {st' : ArrayIngestState} (hpos : 0 < n) (hn : st.row + n ≤ nrows)
      (hrow : st'.row = st.row + n)
      (happ : Applies st.world st'.world (List.range' (base + (row0 + st.row)) n) []) :
      ArrayIngestTurn base row0 nrows virgin st (.again st')

theorem arrayIngestProbe_quiet (d : Driver) (w : World) :
    Applies w (arrayIngestProbe d w).2 [] [] := by
  unfold arrayIngestProbe
  split
  · exact .refl w
  split
  · exact .refl w
  · exact (Applies.memory w _).then_quiet (.next _)

theorem arrayIngestSetup_quiet (d : Driver) (s : OdbcStatement) (spellable : Bool)
    (ai : ArrayIngest) (w : World) :
    Applies w (arrayIngestSetup d s spellable ai w).2 [] [] := by
  have hprobe := arrayIngestProbe_quiet d w
  unfold arrayIngestSetup
  dsimp only
  split
  · exact hprobe
  split
  · exact hprobe.then_quiet (.next _)
  split
  · exact (hprobe.then_quiet (.next _)).then_quiet (.next _)
  · exact (hprobe.then_quiet (.next _)).then_quiet (.next _)

theorem arrayIngestTurn_cases (d : Driver) (b : Batch) (base row0 nrows : Nat) (virgin : Bool)
    (rows : Carried) (st : ArrayIngestState) :
    ArrayIngestTurn base row0 nrows virgin st
      (arrayIngestTurn d b base row0 nrows virgin rows st) := by
  unfold arrayIngestTurn
  split
  · exact .finished (.refl _) (fun _ => rfl) (by simp)
  split
  · exact .finished (.refl _) (by simp) (by simp)
  rename_i n _
  have hn := n.2
  split
  · exact .finished (.refl _) (fun _ => rfl) (by simp)
  split
  · exact .finished (.next _) (by simp) (by simp)
  split
  · exact .finished (.next _) (by simp) (by simp)
  split
  · exact .applied (by omega) (by omega) rfl (.applied st.world _)
  split
  · exact .finished (.next _) (by simp) (by simp)
  · rename_i hvirgin
    have hprobe : st.row = 0 ∧ virgin = true := by simpa [and_comm] using hvirgin
    exact .finished (.next _) (fun _ => hprobe.1.symm) (fun _ => hprobe)

def arrayIngestLoop (d : Driver) (b : Batch) (base row0 nrows : Nat) (virgin : Bool)
    (rows : Carried) : Loop ArrayIngestState (PathResult Carried) where
  turn := arrayIngestTurn d b base row0 nrows virgin rows
  rank := fun st => nrows - st.row
  descends := by
    intro st st' h
    have hcases := arrayIngestTurn_cases d b base row0 nrows virgin rows st
    rw [h] at hcases
    cases hcases with
    | applied hpos hn hrow _ => omega

/-- `ArrayIngestExecuteBatch` over the `nrows` rows from `row0` on. -/
def arrayIngestExecuteBatch (d : Driver) (b : Batch) (base row0 nrows : Nat) (virgin : Bool)
    (rows : Carried) (total : Int) (w : World) : PathResult Carried :=
  (arrayIngestLoop d b base row0 nrows virgin rows).run ⟨0, total, w⟩

/-- The rows `ArrayIngestExecuteBatch` applied are a leading run. -/
theorem arrayIngestExecuteBatch_leading (d : Driver) (b : Batch) (base row0 nrows : Nat)
    (virgin : Bool) (rows : Carried) (total : Int) (w : World) :
    Leading base row0 nrows virgin w
      (arrayIngestExecuteBatch d b base row0 nrows virgin rows total w) := by
  apply Loop.run_rule (I := fun st => st.row ≤ nrows ∧
    Applies w st.world (List.range' (base + row0) st.row) [])
  · rintro st st' ⟨hrow, happ⟩ hturn
    have hcases := arrayIngestTurn_cases d b base row0 nrows virgin rows st
    rw [show arrayIngestTurn d b base row0 nrows virgin rows st = .again st' from hturn]
      at hcases
    cases hcases with
    | applied hpos hn hrow' hstep =>
        rw [hrow', ← range'_extend]
        exact ⟨hn, by simpa using happ.trans hstep⟩
  · rintro st r ⟨hrow, happ⟩ hturn
    have hcases := arrayIngestTurn_cases d b base row0 nrows virgin rows st
    rw [show arrayIngestTurn d b base row0 nrows virgin rows st = .leave r from hturn]
      at hcases
    cases hcases with
    | finished hstep hstatus hback =>
        exact ⟨st.row, hrow, happ.then_quiet hstep, hstatus, hback⟩
  · exact ⟨Nat.zero_le _, .refl w⟩

/-! ## The contract of both forms -/

/-- The total follows the row. -/
theorem arrayIngestTurn_total (d : Driver) (b : Batch) (base row0 nrows : Nat) (virgin : Bool)
    (rows : Carried) {st : ArrayIngestState} {total : Int} (h : st.total = total + st.row) :
    (∀ st', arrayIngestTurn d b base row0 nrows virgin rows st = .again st' →
        st'.total = total + st'.row) ∧
      ∀ r, arrayIngestTurn d b base row0 nrows virgin rows st = .leave r → TotalAt total r := by
  have hfailed (f : Failure) (w : World) (n : Nat) (kept : Option Carried) :
      TotalAt total (⟨some f, n, false, st.total, w, kept⟩ : PathResult Carried) :=
    fun hstatus => by cases hstatus
  unfold arrayIngestTurn
  split
  · refine ⟨(fun st' heq => by cases heq), fun r heq _ => ?_⟩
    rw [← Turn.leave.inj heq]
    exact h
  split
  · exact ⟨(fun st' heq => by cases heq), fun r heq => Turn.leave.inj heq ▸ hfailed _ _ _ _⟩
  split
  · refine ⟨(fun st' heq => by cases heq), fun r heq _ => ?_⟩
    rw [← Turn.leave.inj heq]
    exact h
  split
  · exact ⟨(fun st' heq => by cases heq), fun r heq => Turn.leave.inj heq ▸ hfailed _ _ _ _⟩
  split
  · exact ⟨(fun st' heq => by cases heq), fun r heq => Turn.leave.inj heq ▸ hfailed _ _ _ _⟩
  split
  · refine ⟨fun st' heq => ?_, (fun r heq => by cases heq)⟩
    rw [← Turn.again.inj heq]
    dsimp only
    rw [h, Int.natCast_add, Int.add_assoc]
  split
  · exact ⟨(fun st' heq => by cases heq), fun r heq => Turn.leave.inj heq ▸ hfailed _ _ _ _⟩
  · rename_i hvirgin
    have hzero : st.row = 0 := by
      by_contra hrow
      exact hvirgin (by rw [decide_eq_true hrow, Bool.or_true])
    refine ⟨(fun st' heq => by cases heq), fun r heq _ => ?_⟩
    rw [← Turn.leave.inj heq]
    rw [hzero] at h
    exact h

theorem arrayIngestExecuteBatch_total (d : Driver) (b : Batch) (base row0 nrows : Nat)
    (virgin : Bool) (rows : Carried) (total : Int) (w : World) :
    TotalAt total (arrayIngestExecuteBatch d b base row0 nrows virgin rows total w) := by
  apply Loop.run_rule (I := fun st => st.total = total + st.row)
  · exact fun st st' h hturn =>
      (arrayIngestTurn_total d b base row0 nrows virgin rows h).1 st' hturn
  · exact fun st r h hturn => (arrayIngestTurn_total d b base row0 nrows virgin rows h).2 r hturn
  · exact (Int.add_zero total).symm

/-- What a caller may rely on that resumes behind a batch path: without an error exactly the
first `done` rows on offer were applied, once each and in order, and counted; the path falls
back only as a probe that applied nothing. -/
structure Contract {β : Type} (base row0 nrows : Nat) (virgin : Bool) (total : Int) (w : World)
    (r : PathResult β) : Prop where
  applied : r.status = none →
    r.done ≤ nrows ∧ Applies w r.world (List.range' (base + row0) r.done) []
  total : r.status = none → r.total = total + r.done
  fellBack : r.fellBack = true → virgin = true ∧ Applies w r.world [] []

theorem contract_of_leading {β : Type} {base row0 nrows : Nat} {virgin : Bool} {total : Int}
    {w : World} {r : PathResult β} (h : Leading base row0 nrows virgin w r)
    (htotal : TotalAt total r) : Contract base row0 nrows virgin total w r := by
  obtain ⟨n, hn, happ, hdone, hback⟩ := h
  refine ⟨fun hstatus => ?_, htotal, fun hfell => ?_⟩
  · rw [hdone hstatus]
    exact ⟨hn, happ⟩
  · obtain ⟨rfl, hvirgin⟩ := hback hfell
    exact ⟨hvirgin, happ⟩

/-- The contract of `MultiRowExecuteBatch` and of `ArrayIngestExecuteBatch`. -/
theorem batch_contracts (d : Driver) (form : MultiRowForm) (ncols : Nat) (b : Batch)
    (base row0 nrows : Nat) (virgin : Bool) (p : Prepared) (rows : Carried) (total : Int)
    (w : World) :
    Contract base row0 nrows virgin total w
        (multiRowExecuteBatch d form ncols b base row0 nrows virgin p total w) ∧
      Contract base row0 nrows virgin total w
        (arrayIngestExecuteBatch d b base row0 nrows virgin rows total w) :=
  ⟨contract_of_leading
      (multiRowExecuteBatch_leading d form ncols b base row0 nrows virgin p total w)
      (multiRowExecuteBatch_total d form ncols b base row0 nrows virgin p total w),
    contract_of_leading (arrayIngestExecuteBatch_leading d b base row0 nrows virgin rows total w)
      (arrayIngestExecuteBatch_total d b base row0 nrows virgin rows total w)⟩

end AdbcBridge.Bind.Unnest
