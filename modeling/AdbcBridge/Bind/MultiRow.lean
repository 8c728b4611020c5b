import AdbcBridge.Lib.Loop
import AdbcBridge.Bind.Session
import Mathlib

/-!
# Multi-row INSERT batching

`MultiRowSetup` decides how many row-groups one prepared INSERT carries and
`MultiRowExecuteBatch` feeds a batch through it, halving the group while nothing
has been applied yet and giving the form up when even two groups are refused.
The one fact the execution needs of it is that whatever happens it applies a
leading run of the rows on offer, in order, and says how long the run is.
-/

namespace AdbcBridge.Bind.MultiRow

open AdbcBridge.Lib AdbcBridge.Bind.Session

/-- A prepared multi-row insert always carries at least two row-groups; the tail
is the size of the cached statement for a last partial group. -/
structure Prepared where
  rows : Nat
  two_le : 2 ≤ rows
  tail : Option Nat := none

/-- `struct MultiRowInsert`; it is active while it holds a prepared statement. -/
structure MultiRowInsert where
  enabled : Bool
  ready : Bool := false
  form : MultiRowForm := .values
  prepared : Option Prepared := none

/-- What a batch path leaves behind: its status, how many leading rows went in,
whether the form was refused before anything was applied, the rows affected so
far, the world, and the prepared statement it keeps. -/
structure PathResult (β : Type) where
  status : Option Failure
  done : Nat
  fellBack : Bool
  total : Int
  world : World
  kept : Option β

/-! ## The setup -/

def multiRowInit (s : OdbcStatement) (ncols : Nat) : MultiRowInsert where
  enabled := s.ingestInto.isSome && decide (0 < ncols) && decide (s.rowsPerInsert ≠ 1) &&
    s.connected

/-- The first form the server prepares, out of those the driver has. -/
def firstPrepared (d : Driver) : List MultiRowForm → World → Option MultiRowForm × World
  | [], w => (none, w)
  | form :: rest, w =>
      if d.prepares w.tick then (some form, w.next) else firstPrepared d rest w.next

def unionOffered (o : Options) : Bool :=
  match o.multirowUnionFrom with
  | some name => !name.isEmpty
  | none => false

/-- The forms `MultiRowSetup` asks for, in its order. -/
def offeredForms (s : OdbcStatement) (castTypes : Option (List String)) : List MultiRowForm :=
  [.values] ++ (if s.opts.multirowInsertAll then [.insertAll] else []) ++
    (if castTypes.isSome then [.union] else [])

/-- The form this connection takes, remembered or probed for. -/
def probeForm (d : Driver) (s : OdbcStatement) (castTypes : Option (List String)) (w : World) :
    Option MultiRowForm × World :=
  if w.memory.multirowProbed then (some w.memory.multirowForm, w)
  else
    let probed := firstPrepared d (offeredForms s castTypes) w
    match probed.1 with
    | some form =>
        (some form, probed.2.setMemory
          { probed.2.memory with multirowProbed := true, multirowForm := form })
    | none =>
        if !unionOffered s.opts || castTypes.isSome then
          (none, probed.2.setMemory
            { probed.2.memory with multirowProbed := true, multirowUnsupported := true })
        else (none, probed.2)

/-- SQL text of one row-group, in bytes. -/
def groupBytes (s : OdbcStatement) (ncols into : Nat) : MultiRowForm → Nat
  | .values => ncols * 3 + 4
  | .insertAll => ncols * 3 + 4 + (into + 20)
  | .union =>
      (s.opts.multirowUnionFrom.getD "").utf8ByteSize + 24 +
        ((s.castTypes.getD []).map fun type => type.utf8ByteSize + 14).sum

/-- K, the row-groups of the full statement before the server is asked.  The
text budget is a signed division in the source; a negative one ends below two
like the zero it is here. -/
def multiRowRows (s : OdbcStatement) (ncols : Nat) (form : MultiRowForm) (m : Memory) : Nat :=
  let into := (s.ingestInto.getD "").utf8ByteSize
  let asked := if 0 < s.rowsPerInsert then s.rowsPerInsert else 2000 / ncols
  let remembered :=
    if 0 < m.multirowMaxParams then min asked (m.multirowMaxParams / ncols) else asked
  let allowed :=
    if 0 < s.opts.maxStatementParams then min remembered (s.opts.maxStatementParams / ncols)
    else remembered
  let sqlMax :=
    if 0 < s.opts.maxStatementLen ∧ s.opts.maxStatementLen < 1048576 then s.opts.maxStatementLen
    else 1048576
  let textBudget := (sqlMax - into - 64) / groupBytes s ncols into form
  let slotBudget := 16777216 / max 1 (s.slotBytes * ncols)
  min (min (min allowed 1000) textBudget) slotBudget

/-- `MultiRowPrepare`: whether the statement of so many row-groups is prepared. -/
def multiRowPrepare (d : Driver) (form : MultiRowForm) (rows : Nat) (w : World) : Bool × World :=
  (d.prepares w.tick, (w.call (.prepare form rows)).next)

/-- Prepare `k` row-groups, halving on refusal, as long as two are left. -/
def prepareHalving (d : Driver) (form : MultiRowForm) (k : Nat) (w : World) :
    Option {n : Nat // 2 ≤ n ∧ n ≤ k} × World :=
  if h : 2 ≤ k then
    let prepared := multiRowPrepare d form k w
    if prepared.1 then (some ⟨k, h, Nat.le_refl k⟩, prepared.2)
    else
      let narrower := prepareHalving d form (k / 2) prepared.2
      (narrower.1.map fun n => ⟨n.1, n.2.1, Nat.le_trans n.2.2 (Nat.div_le_self k 2)⟩, narrower.2)
  else (none, w)
termination_by k
decreasing_by omega

/-- The slots of a full statement, if there is room for them. -/
def allocateSlots (d : Driver) (ncols rows : Nat) (h : 2 ≤ rows) (w : World) :
    Option Prepared × World :=
  if d.allocates w.tick then (some ⟨rows, h, none⟩, (w.call (.allocate (rows * ncols))).next)
  else (none, w.next)

/-- Choose K, prepare the full statement and allocate its slots, remembering a
ceiling that was hit. -/
def prepareFull (d : Driver) (s : OdbcStatement) (ncols : Nat) (form : MultiRowForm)
    (w : World) : Option Prepared × World :=
  let k := multiRowRows s ncols form w.memory
  if k < 2 then (none, w)
  else
    let narrowed := prepareHalving d form k w
    match narrowed.1 with
    | none =>
        (none, narrowed.2.setMemory { narrowed.2.memory with multirowUnsupported := true })
    | some n =>
        let ceiling := if n.1 = k then narrowed.2.memory.multirowMaxParams else n.1 * ncols
        let w := narrowed.2.setMemory { narrowed.2.memory with multirowMaxParams := ceiling }
        allocateSlots d ncols n.1 n.2.1 w

/-- The cast types the union form would use, when the driver has that form. -/
def offeredCastTypes (s : OdbcStatement) : Option (List String) :=
  if unionOffered s.opts then s.castTypes else none

/-- `MultiRowSetup`. -/
def multiRowSetup (d : Driver) (s : OdbcStatement) (ncols : Nat) (mr : MultiRowInsert)
    (w : World) : MultiRowInsert × World :=
  if w.memory.multirowUnsupported then ({ mr with ready := true }, w)
  else
    let probed := probeForm d s (offeredCastTypes s) w
    match probed.1 with
    | none => ({ mr with ready := true }, probed.2)
    | some form =>
        if form = .union ∧ offeredCastTypes s = none then
          ({ mr with ready := true, form := form }, probed.2)
        else
          let full := prepareFull d s ncols form probed.2
          ({ mr with ready := true, form := form, prepared := full.1 }, full.2)

/-! ## The batch -/

/-- `MultiRowGroupFor`: whether a statement of exactly `n` row-groups is at hand
or can be prepared, and the tail statement that is cached then. -/
def multiRowGroupFor (d : Driver) (form : MultiRowForm) (p : Prepared) (n : Nat) (w : World) :
    Bool × Option Nat × World :=
  if n = p.rows ∨ p.tail = some n then (true, p.tail, w)
  else
    let prepared := multiRowPrepare d form n w
    (prepared.1, if prepared.1 then some n else none, prepared.2)

/-- `MultiRowNarrow`: half the row-groups, prepared anew. -/
def multiRowNarrow (d : Driver) (form : MultiRowForm) (ncols rows : Nat) (w : World) :
    Option {n : Nat // 2 ≤ n ∧ n ≤ rows / 2} × World :=
  let narrowed := prepareHalving d form (rows / 2) w
  match narrowed.1 with
  | none => (none, narrowed.2)
  | some n =>
      (some n, narrowed.2.setMemory
        { narrowed.2.memory with multirowMaxParams := n.1 * ncols })

/-- Fill and bind the cells of row-group `r` in these columns. -/
def bindCells (d : Driver) (ncols r : Nat) : List Nat → World → Option Failure × World
  | [], w => (none, w)
  | c :: rest, w =>
      let slot := r * ncols + c
      let w := (w.call (.fill slot)).call (.bind slot (BitVec.ofNat 16 (slot + 1)))
      if d.binds w.tick then bindCells d ncols r rest w.next else (some .bindParameter, w.next)

/-- The cells of row-group `r`, which holds row `row + r`; of a row that does not convert,
those in front of the column it stops at, whose slot is filled as far as it goes. -/
def bindRow (d : Driver) (ncols : Nat) (b : Batch) (row r : Nat) (w : World) :
    Option Failure × World :=
  if b.converts (row + r) then bindCells d ncols r (List.range ncols) w
  else
    let stop := min (b.stopsAt (row + r)) (ncols - 1)
    let bound := bindCells d ncols r (List.range stop) w
    match bound.1 with
    | some failure => (some failure, bound.2)
    | none => (some .convert, bound.2.call (.fill (r * ncols + stop)))

def bindRows (d : Driver) (ncols : Nat) (b : Batch) (row : Nat) :
    List Nat → World → Option Failure × World
  | [], w => (none, w)
  | r :: rest, w =>
      let bound := bindRow d ncols b row r w
      match bound.1 with
      | some failure => (some failure, bound.2)
      | none => bindRows d ncols b row rest bound.2

/-- `MultiRowExecGroup`: bind rows `[row, row + n)` and execute once. -/
def multiRowExecGroup (d : Driver) (ncols : Nat) (b : Batch) (base row n : Nat) (w : World) :
    Option Failure × World :=
  let bound := bindRows d ncols b row (List.range n) w
  match bound.1 with
  | some failure => (some failure, bound.2)
  | none =>
      if d.executes bound.2.tick then
        (none, (bound.2.apply (List.range' (base + row) n)).next)
      else (some .execute, bound.2.next)

structure MultiRowState where
  row : Nat
  prepared : Prepared
  total : Int
  world : World

/-- One turn of `MultiRowExecuteBatch`: `row` of the `nrows` rows from `row0` on
have gone in. -/
def multiRowTurn (d : Driver) (form : MultiRowForm) (ncols : Nat) (b : Batch)
    (base row0 nrows : Nat) (virgin : Bool) (st : MultiRowState) :
    Turn MultiRowState (PathResult Prepared) :=
  if nrows - st.row < 2 then .leave ⟨none, st.row, false, st.total, st.world, some st.prepared⟩
  else
    let n := min (nrows - st.row) st.prepared.rows
    let group := multiRowGroupFor d form st.prepared n st.world
    let p : Prepared := ⟨st.prepared.rows, st.prepared.two_le, group.2.1⟩
    if group.1 then
      let run := multiRowExecGroup d ncols b base (row0 + st.row) n group.2.2
      match run.1 with
      | none => .again ⟨st.row + n, p, st.total + n, run.2⟩
      | some failure =>
          if !virgin || decide (st.row ≠ 0) then
            .leave ⟨some failure, 0, false, st.total, run.2, some p⟩
          else
            let narrowed := multiRowNarrow d form ncols st.prepared.rows run.2
            match narrowed.1 with
            | some k => .again ⟨st.row, ⟨k.1, k.2.1, none⟩, st.total, narrowed.2⟩
            | none =>
                -- the form is given up for good, with nothing applied
                .leave ⟨none, 0, true, st.total, narrowed.2.setMemory
                  { narrowed.2.memory with multirowUnsupported := true }, none⟩
    else .leave ⟨none, st.row, false, st.total, group.2.2, some p⟩

/-- What one turn can do. -/
inductive MultiRowTurn (base row0 nrows : Nat) (virgin : Bool) (st : MultiRowState) :
    Turn MultiRowState (PathResult Prepared) → Prop
  | finished {r : PathResult Prepared} (happ : Applies st.world r.world [] [])
      (hstatus : r.status = none → r.done = st.row)
      (hback : r.fellBack = true → st.row = 0 ∧ virgin = true) :
      MultiRowTurn base row0 nrows virgin st (.leave r)
  | applied {n : Nat} {st' : MultiRowState} (hpos : 0 < n) (hn : st.row + n ≤ nrows)
      (hrow : st'.row = st.row + n) (hrows : st'.prepared.rows = st.prepared.rows)
      (happ : Applies st.world st'.world (List.range' (base + (row0 + st.row)) n) []) :
      MultiRowTurn base row0 nrows virgin st (.again st')
  | narrowed {st' : MultiRowState} (hrow : st'.row = st.row)
      (hrows : st'.prepared.rows < st.prepared.rows)
      (happ : Applies st.world st'.world [] []) :
      MultiRowTurn base row0 nrows virgin st (.again st')

/-! ## What these steps do to the world -/

theorem firstPrepared_quiet (d : Driver) (forms : List MultiRowForm) (w : World) :
    Applies w (firstPrepared d forms w).2 [] [] := by
  induction forms generalizing w with
  | nil => exact .refl w
  | cons form rest ih =>
      unfold firstPrepared
      split
      · exact .next w
      · exact (Applies.next w).after_quiet (ih w.next)

theorem probeForm_quiet (d : Driver) (s : OdbcStatement) (castTypes : Option (List String))
    (w : World) : Applies w (probeForm d s castTypes w).2 [] [] := by
  have hprobe := firstPrepared_quiet d (offeredForms s castTypes) w
  unfold probeForm
  split
  · exact .refl w
  · dsimp only
    split
    · exact hprobe.then_quiet (.memory _ _)
    · split
      · exact hprobe.then_quiet (.memory _ _)
      · exact hprobe

theorem multiRowPrepare_quiet (d : Driver) (form : MultiRowForm) (rows : Nat) (w : World) :
    Applies w (multiRowPrepare d form rows w).2 [] [] :=
  (Applies.call w _).then_quiet (.next _)

theorem prepareHalving_quiet (d : Driver) (form : MultiRowForm) (k : Nat) (w : World) :
    Applies w (prepareHalving d form k w).2 [] [] := by
  induction k, w using prepareHalving.induct d form with
  | case1 k w h prepared hprep =>
      rw [prepareHalving, dif_pos h, if_pos hprep]
      exact multiRowPrepare_quiet d form k w
  | case2 k w h prepared hprep ih =>
      rw [prepareHalving, dif_pos h, if_neg hprep]
      exact (multiRowPrepare_quiet d form k w).after_quiet ih
  | case3 k w h =>
      rw [prepareHalving, dif_neg h]
      exact .refl w

theorem allocateSlots_quiet (d : Driver) (ncols rows : Nat) (h : 2 ≤ rows) (w : World) :
    Applies w (allocateSlots d ncols rows h w).2 [] [] := by
  unfold allocateSlots
  split
  · exact (Applies.call w _).then_quiet (.next _)
  · exact .next w

theorem prepareFull_quiet (d : Driver) (s : OdbcStatement) (ncols : Nat) (form : MultiRowForm)
    (w : World) : Applies w (prepareFull d s ncols form w).2 [] [] := by
  have hhalve := prepareHalving_quiet d form (multiRowRows s ncols form w.memory) w
  unfold prepareFull
  dsimp only
  split
  · exact .refl w
  split
  · exact hhalve.then_quiet (.memory _ _)
  · exact hhalve.then_quiet ((Applies.memory _ _).then_quiet (allocateSlots_quiet d ncols _ _ _))

theorem multiRowSetup_quiet (d : Driver) (s : OdbcStatement) (ncols : Nat) (mr : MultiRowInsert)
    (w : World) : Applies w (multiRowSetup d s ncols mr w).2 [] [] := by
  have hprobe := probeForm_quiet d s (offeredCastTypes s) w
  unfold multiRowSetup
  dsimp only
  split
  · exact .refl w
  split
  · exact hprobe
  split
  · exact hprobe
  · exact hprobe.then_quiet (prepareFull_quiet d s ncols _ _)

theorem multiRowGroupFor_quiet (d : Driver) (form : MultiRowForm) (p : Prepared) (n : Nat)
    (w : World) : Applies w (multiRowGroupFor d form p n w).2.2 [] [] := by
  unfold multiRowGroupFor
  split
  · exact .refl w
  · exact multiRowPrepare_quiet d form n w

theorem multiRowNarrow_quiet (d : Driver) (form : MultiRowForm) (ncols rows : Nat) (w : World) :
    Applies w (multiRowNarrow d form ncols rows w).2 [] [] := by
  have hhalve := prepareHalving_quiet d form (rows / 2) w
  unfold multiRowNarrow
  dsimp only
  split
  · exact hhalve
  · exact hhalve.then_quiet (.memory _ _)

theorem bindCells_quiet (d : Driver) (ncols r : Nat) (cs : List Nat) (w : World) :
    Applies w (bindCells d ncols r cs w).2 [] [] := by
  induction cs generalizing w with
  | nil => exact .refl w
  | cons c cs ih =>
      have hcalls := (Applies.call w (.fill (r * ncols + c))).then_quiet
        (.call _ (.bind (r * ncols + c) (BitVec.ofNat 16 (r * ncols + c + 1))))
      rw [bindCells]
      split
      · exact (hcalls.then_quiet (.next _)).after_quiet (ih _)
      · exact hcalls.then_quiet (.next _)

theorem bindRow_quiet (d : Driver) (ncols : Nat) (b : Batch) (row r : Nat) (w : World) :
    Applies w (bindRow d ncols b row r w).2 [] [] := by
  unfold bindRow
  split
  · exact bindCells_quiet d ncols r _ w
  · dsimp only
    split
    · exact bindCells_quiet d ncols r _ w
    · exact (bindCells_quiet d ncols r _ w).then_quiet (.call _ _)

theorem bindRows_quiet (d : Driver) (ncols : Nat) (b : Batch) (row : Nat) (rs : List Nat)
    (w : World) : Applies w (bindRows d ncols b row rs w).2 [] [] := by
  induction rs generalizing w with
  | nil => exact .refl w
  | cons r rs ih =>
      have hrow := bindRow_quiet d ncols b row r w
      rw [bindRows]
      split
      · exact hrow
      · exact hrow.after_quiet (ih _)

/-- A group execute that succeeds applies its rows. -/
theorem multiRowExecGroup_ok {d : Driver} {ncols : Nat} {b : Batch} {base row n : Nat} {w : World}
    (h : (multiRowExecGroup d ncols b base row n w).1 = none) :
    Applies w (multiRowExecGroup d ncols b base row n w).2 (List.range' (base + row) n) [] := by
  have hbound := bindRows_quiet d ncols b row (List.range n) w
  revert h
  unfold multiRowExecGroup
  dsimp only
  split
  · simp
  · split
    · exact fun _ => hbound.after_quiet (.applied _ _)
    · simp

/-- One that fails applies nothing. -/
theorem multiRowExecGroup_failed {d : Driver} {ncols : Nat} {b : Batch} {base row n : Nat}
    {w : World} {failure : Failure}
    (h : (multiRowExecGroup d ncols b base row n w).1 = some failure) :
    Applies w (multiRowExecGroup d ncols b base row n w).2 [] [] := by
  have hbound := bindRows_quiet d ncols b row (List.range n) w
  revert h
  unfold multiRowExecGroup
  dsimp only
  split
  · exact fun _ => hbound
  · split
    · simp
    · exact fun _ => hbound.then_quiet (.next _)

/-- What a batch path promises: whatever happens it applied a leading run of the
rows on offer; without an error the run has length `done`, and it falls back
only as a probe, with nothing applied here or before. -/
def Leading {β : Type} (base row0 nrows : Nat) (virgin : Bool) (w : World)
    (r : PathResult β) : Prop :=
  ∃ n, n ≤ nrows ∧ Applies w r.world (List.range' (base + row0) n) [] ∧
    (r.status = none → r.done = n) ∧ (r.fellBack = true → n = 0 ∧ virgin = true)

/-- The turn does one of these things. -/
theorem multiRowTurn_cases (d : Driver) (form : MultiRowForm) (ncols : Nat) (b : Batch)
    (base row0 nrows : Nat) (virgin : Bool) (st : MultiRowState) :
    MultiRowTurn base row0 nrows virgin st
      (multiRowTurn d form ncols b base row0 nrows virgin st) := by
  unfold multiRowTurn
  dsimp only
  split
  · exact .finished (.refl _) (fun _ => rfl) (by simp)
  rename_i hmore
  have htwo := st.prepared.two_le
  have hgroup := multiRowGroupFor_quiet d form st.prepared
    (min (nrows - st.row) st.prepared.rows) st.world
  split
  · split
    · rename_i hrun
      exact .applied (by omega) (by omega) rfl rfl
        (hgroup.after_quiet (multiRowExecGroup_ok hrun))
    · rename_i hrun
      have hquiet := hgroup.then_quiet (multiRowExecGroup_failed hrun)
      split
      · exact .finished hquiet (by simp) (by simp)
      · rename_i hvirgin
        have hnarrow := hquiet.then_quiet (multiRowNarrow_quiet d form ncols st.prepared.rows _)
        split
        · rename_i k _
          refine .narrowed rfl ?_ hnarrow
          have := k.2.2
          simp only at this ⊢
          omega
        · have hprobe : st.row = 0 ∧ virgin = true := by
            simpa [and_comm] using hvirgin
          exact .finished (hnarrow.then_quiet (.memory _ _)) (fun _ => hprobe.1.symm)
            (fun _ => hprobe)
  · exact .finished hgroup (fun _ => rfl) (by simp)

/-- The rows still to go and the row-groups of a statement: a turn that goes on
lowers one of them. -/
def multiRowLoop (d : Driver) (form : MultiRowForm) (ncols : Nat) (b : Batch)
    (base row0 nrows : Nat) (virgin : Bool) :
    Loop MultiRowState (PathResult Prepared) where
  turn := multiRowTurn d form ncols b base row0 nrows virgin
  rank := fun st => (nrows - st.row) + st.prepared.rows
  descends := by
    intro st st' h
    have hcases := multiRowTurn_cases d form ncols b base row0 nrows virgin st
    rw [h] at hcases
    cases hcases with
    | applied hpos hn hrow hrows _ => omega
    | narrowed hrow hrows _ => omega

/-- `MultiRowExecuteBatch` over the `nrows` rows from `row0` on. -/
def multiRowExecuteBatch (d : Driver) (form : MultiRowForm) (ncols : Nat) (b : Batch)
    (base row0 nrows : Nat) (virgin : Bool) (p : Prepared) (total : Int) (w : World) :
    PathResult Prepared :=
  (multiRowLoop d form ncols b base row0 nrows virgin).run ⟨0, p, total, w⟩

theorem range'_extend (base row0 row n : Nat) :
    List.range' (base + row0) row ++ List.range' (base + (row0 + row)) n =
      List.range' (base + row0) (row + n) := by
  rw [← Nat.add_assoc, List.range'_append_1]

/-- What `MultiRowExecuteBatch` does: the rows it applied are a leading run. -/
theorem multiRowExecuteBatch_leading (d : Driver) (form : MultiRowForm) (ncols : Nat) (b : Batch)
    (base row0 nrows : Nat) (virgin : Bool) (p : Prepared) (total : Int) (w : World) :
    Leading base row0 nrows virgin w
      (multiRowExecuteBatch d form ncols b base row0 nrows virgin p total w) := by
  apply Loop.run_rule (I := fun st => st.row ≤ nrows ∧
    Applies w st.world (List.range' (base + row0) st.row) [])
  · rintro st st' ⟨hrow, happ⟩ hturn
    have hcases := multiRowTurn_cases d form ncols b base row0 nrows virgin st
    rw [show multiRowTurn d form ncols b base row0 nrows virgin st = .again st'
      from hturn] at hcases
    cases hcases with
    | applied hpos hn hrow' _ hstep =>
        rw [hrow', ← range'_extend]
        exact ⟨hn, by simpa using happ.trans hstep⟩
    | narrowed hrow' _ hstep =>
        rw [hrow']
        exact ⟨hrow, happ.then_quiet hstep⟩
  · rintro st r ⟨hrow, happ⟩ hturn
    have hcases := multiRowTurn_cases d form ncols b base row0 nrows virgin st
    rw [show multiRowTurn d form ncols b base row0 nrows virgin st = .leave r from hturn] at hcases
    cases hcases with
    | finished hstep hstatus hback =>
        exact ⟨st.row, hrow, happ.then_quiet hstep, hstatus, hback⟩
  · exact ⟨Nat.zero_le _, .refl w⟩

/-! ## The total -/

/-- Without an error the total counts the leading rows on top of what it was. -/
def TotalAt {β : Type} (total : Int) (r : PathResult β) : Prop :=
  r.status = none → r.total = total + r.done

/-- The total follows the row. -/
theorem multiRowTurn_total (d : Driver) (form : MultiRowForm) (ncols : Nat) (b : Batch)
    (base row0 nrows : Nat) (virgin : Bool) {st : MultiRowState} {total : Int}
    (h : st.total = total + st.row) :
    (∀ st', multiRowTurn d form ncols b base row0 nrows virgin st = .again st' →
        st'.total = total + st'.row) ∧
      ∀ r, multiRowTurn d form ncols b base row0 nrows virgin st = .leave r → TotalAt total r := by
  unfold multiRowTurn
  dsimp only
  split
  · refine ⟨(fun st' heq => by cases heq), fun r heq _ => ?_⟩
    rw [← Turn.leave.inj heq]
    exact h
  split
  · split
    · refine ⟨fun st' heq => ?_, (fun r heq => by cases heq)⟩
      rw [← Turn.again.inj heq]
      dsimp only
      rw [h, Int.natCast_add, Int.add_assoc]
    · split
      · refine ⟨(fun st' heq => by cases heq), fun r heq hstatus => ?_⟩
        rw [← Turn.leave.inj heq] at hstatus
        cases hstatus
      · rename_i hvirgin
        have hzero : st.row = 0 := by
          by_contra hrow
          exact hvirgin (by rw [decide_eq_true hrow, Bool.or_true])
        split
        · refine ⟨fun st' heq => ?_, (fun r heq => by cases heq)⟩
          rw [← Turn.again.inj heq]
          exact h
        · refine ⟨(fun st' heq => by cases heq), fun r heq _ => ?_⟩
          rw [← Turn.leave.inj heq]
          rw [hzero] at h
          exact h
  · refine ⟨(fun st' heq => by cases heq), fun r heq _ => ?_⟩
    rw [← Turn.leave.inj heq]
    exact h

theorem multiRowExecuteBatch_total (d : Driver) (form : MultiRowForm) (ncols : Nat) (b : Batch)
    (base row0 nrows : Nat) (virgin : Bool) (p : Prepared) (total : Int) (w : World) :
    TotalAt total (multiRowExecuteBatch d form ncols b base row0 nrows virgin p total w) := by
  apply Loop.run_rule (I := fun st => st.total = total + st.row)
  · exact fun st st' h hturn =>
      (multiRowTurn_total d form ncols b base row0 nrows virgin h).1 st' hturn
  · exact fun st r h hturn => (multiRowTurn_total d form ncols b base row0 nrows virgin h).2 r hturn
  · exact (Int.add_zero total).symm

end AdbcBridge.Bind.MultiRow
