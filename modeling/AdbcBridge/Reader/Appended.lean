import AdbcBridge.Reader.Contract
import Mathlib

/-!
# What a rowset appends

On a driver that keeps the contract of a block cursor `ConvertRowset` and `RepairRowset` append
the values of the result that the cursor has moved over, each column's in order: those that fit
from the buffers, the others as `SQLGetData` reads them.
-/

namespace AdbcBridge.Reader

open AdbcBridge.Adbc

variable {δ v : Type*}

/-- What a reader knows of its columns and of the cursor while it converts a rowset. -/
structure Agrees (opts : OdbcReaderOptions) (cols : List OdbcColumn) (r : OdbcReader δ)
    (V : CursorView) : Prop where
  options : r.opts = opts
  columns : r.ncols = cols.length
  widths : ∀ i < r.ncols, boundValueTruncated (r.col i) = boundValueTruncated (described cols i)
  bound : ∀ i < r.ncols, V.bound i = (r.col i).bound
  wasBound : ∀ i < r.ncols, (r.col i).bound = true → (described cols i).bound = true
  repairable : ∀ i < r.ncols, (r.col i).bound = true → (described cols i).clipped = true →
    truncationRepairable opts = true
  size : V.size = r.rowsPerFetch

/-- A cell of the rowset that the reader can append where its cursor is. -/
structure Legible (r : OdbcReader δ) (V : CursorView) (rowset : Rowset v) (c : Nat × Nat) :
    Prop where
  column : c.2 < r.ncols
  fetched : V.base + c.1 < V.next
  repaired : (r.col c.2).bound = true →
    boundValueTruncated (r.col c.2) (rowset.cell c.1 c.2).ind = true →
      r.opts.getdataRepair = true ∨ r.rowsPerFetch ≤ 1 ∧ r.opts.getdataBound = true
  single : (r.col c.2).bound = false → r.rowsPerFetch ≤ 1

/-- Only where `SQLGetData` reads has changed. -/
def CursorView.Moved (V V' : CursorView) : Prop :=
  V' = { V with row := V'.row, column := V'.column }

theorem CursorView.Moved.refl (V : CursorView) : V.Moved V := rfl

theorem CursorView.Moved.trans {V V' V'' : CursorView} (h : V.Moved V') (h' : V'.Moved V'') :
    V.Moved V'' := by
  unfold CursorView.Moved at *
  rw [h', h]

theorem Agrees.moved {opts : OdbcReaderOptions} {cols : List OdbcColumn} {r : OdbcReader δ}
    {V V' : CursorView} (h : Agrees opts cols r V) (hmoved : V.Moved V') :
    Agrees opts cols r V' := by
  rw [hmoved]
  exact ⟨h.options, h.columns, h.widths, h.bound, h.wasBound, h.repairable, h.size⟩

theorem Shows.moved {cols : List OdbcColumn} {R : ResultSet v} {faults : Prop}
    {V V' : CursorView} {rowset : Rowset v} {base k : Nat}
    (h : Shows cols R faults V rowset base k) (hmoved : V.Moved V') :
    Shows cols R faults V' rowset base k := by
  rw [hmoved]
  exact ⟨h.count, h.status, h.held, h.outgrown, h.declared⟩

theorem Legible.moved {r : OdbcReader δ} {V V' : CursorView} {rowset : Rowset v}
    {c : Nat × Nat} (h : Legible r V rowset c) (hmoved : V.Moved V') :
    Legible r V' rowset c := by
  rw [hmoved]
  exact ⟨h.column, h.fetched, h.repaired, h.single⟩

section Convert

variable {D : Driver δ v} {opts : OdbcReaderOptions} {cols : List OdbcColumn} {R : ResultSet v}
  {faults : Prop} {sees : δ → CursorView → Prop} {r : OdbcReader δ} {s : δ} {V : CursorView}
  {rowset : Rowset v}

/-- Where the cursor may be behind a cell: it has moved, on a single row to the next column. -/
def Behind (r : OdbcReader δ) (V : CursorView) (i : Nat) (V' : CursorView) : Prop :=
  V.Moved V' ∧ (r.rowsPerFetch ≤ 1 → V'.row = V.row ∧ V'.column ≤ i + 1)

theorem getDataLong_spec (h : FollowsContract D opts cols R faults sees) (hs : sees s V)
    (hsize : V.size = r.rowsPerFetch) {i row : Nat} (hreadable : MayRead opts cols R.outgrows V i)
    (hrow : V.row = row) (hbound : V.bound i = (r.col i).bound) :
    Gives faults (fun x s' => x = R.value (V.base + row) i ∧
      ∃ V', sees s' V' ∧ V' = { V with column := i + 1 }) (getDataLong D r s i row) := by
  have hfound : ∀ {s'}, sees s' { V with column := i + 1 } →
      ∃ V', sees s' V' ∧ V' = { V with column := i + 1 } := fun hs' => ⟨_, hs', rfl⟩
  rw [← hrow]
  unfold getDataLong
  rw [← hbound]
  cases hread : D.getData s i with
  | mk answer s' =>
      cases answer with
      | value read =>
          have hvalue := h.read hs hreadable hread
          exact hvalue.1.gives (hfound hvalue.2)
      | noData empty =>
          have hempty := h.readEmpty hs hreadable hread
          dsimp only
          split_ifs with hblock
          · exact hempty.2.1 (hsize ▸ hblock)
          · exact hempty.1.gives (hfound hempty.2.2)
      | failed e => exact h.notRead hs hreadable hread

theorem positionOnRow_spec (h : FollowsContract D opts cols R faults sees) (hs : sees s V)
    {row : Nat} (hfetched : V.base + row < V.next)
    (hrepair : opts.getdataRepair = true ∨ r.rowsPerFetch ≤ 1)
    (hsingle : r.rowsPerFetch ≤ 1 → V.row = row) :
    Done faults (fun s' => ∃ V', sees s' V' ∧ V'.row = row ∧ V.Moved V' ∧
      if r.rowsPerFetch ≤ 1 then V' = V else V'.column = 0) (positionOnRow D r s row) := by
  unfold positionOnRow
  split_ifs with hone
  · exact ⟨V, hs, hsingle hone, rfl, rfl⟩
  · have hdrv := hrepair.resolve_right hone
    have hnext : V.base + (row + 1) ≤ V.next := hfetched
    cases hset : D.setPos s (row + 1) with
    | mk answer s' =>
        cases answer with
        | none =>
            exact ⟨_, h.positioned hs hdrv (Nat.succ_pos row) hnext hset, rfl, rfl, rfl⟩
        | some e => exact h.notPositioned hs hdrv (Nat.succ_pos row) hnext hset

/-- A cell is appended as the value of the result. -/
theorem appendValue_spec (h : FollowsContract D opts cols R faults sees) (hs : sees s V)
    (hagrees : Agrees opts cols r V) {k : Nat} (hshows : Shows cols R faults V rowset V.base k)
    {i row : Nat} (hrow : row < k) (hlegible : Legible r V rowset (row, i))
    (hsingle : r.rowsPerFetch ≤ 1 → V.row = row ∧ V.column ≤ i) :
    Gives faults (fun x s' => x = R.value (V.base + row) i ∧ ∃ V', sees s' V' ∧ Behind r V i V')
      (appendValue D r s i row (rowset.cell row i)) := by
  have hi : i < cols.length := hagrees.columns ▸ hlegible.column
  unfold appendValue
  cases hbound : (r.col i).bound with
  | false =>
      have hone := hlegible.single hbound
      rw [if_neg Bool.false_ne_true]
      have hsame : V.bound i = (r.col i).bound := hagrees.bound i hlegible.column
      have hreadable : MayRead opts cols R.outgrows V i := by
        refine ⟨hi, (hsingle hone).2, ?_, ?_, ?_⟩
        · rw [(hsingle hone).1]
          exact hlegible.fetched
        · intro hblock
          rw [hagrees.size] at hblock
          omega
        · intro hdrv
          rw [hsame, hbound] at hdrv
          cases hdrv
      refine (getDataLong_spec h hs hagrees.size hreadable (hsingle hone).1 hsame).mono ?_
      intro x s' hx
      obtain ⟨hvalue, V', hs', hV'⟩ := hx
      rw [hV'] at hs'
      exact ⟨hvalue, _, hs', rfl, fun _ => ⟨rfl, le_rfl⟩⟩
  | true =>
      have hdrv : V.bound i = true := (hagrees.bound i hlegible.column).trans hbound
      rw [if_pos rfl]
      cases htrunc : boundValueTruncated (r.col i) (rowset.cell row i).ind with
      | false =>
          rw [Bool.false_and, if_neg Bool.false_ne_true]
          rw [hagrees.widths i hlegible.column] at htrunc
          exact (hshows.held row hrow i hi hdrv htrunc .appendValue).gives
            ⟨V, hs, rfl, fun h => ⟨rfl, (hsingle h).2.trans (Nat.le_succ i)⟩⟩
      | true =>
          have hrepaired := hlegible.repaired hbound htrunc
          have hcond : (r.opts.getdataRepair ||
              (decide (r.rowsPerFetch ≤ 1) && r.opts.getdataBound)) = true := by
            simpa using hrepaired
          rw [Bool.true_and, if_pos hcond]
          have hposition := positionOnRow_spec h hs hlegible.fetched
            (hrepaired.imp (fun hr => hagrees.options ▸ hr) And.left) fun h => (hsingle h).1
          cases hset : positionOnRow D r s row with
          | mk answer s' =>
              rw [hset] at hposition
              cases answer with
              | some e => exact hposition
              | none =>
                  obtain ⟨V', hs', hrowV', hmoved, horder⟩ := hposition
                  have hsame : V'.base = V.base ∧ V'.next = V.next ∧ V'.size = V.size ∧
                      V'.bound = V.bound := by
                    rw [hmoved]
                    exact ⟨rfl, rfl, rfl, rfl⟩
                  rw [hagrees.widths i hlegible.column] at htrunc
                  have houtgrown := hshows.outgrown row hrow i hi hdrv htrunc
                  have hreadable : MayRead opts cols R.outgrows V' i := by
                    refine ⟨hi, ?_, ?_, ?_, ?_⟩
                    · split_ifs at horder with hone
                      · rw [horder]
                        exact (hsingle hone).2
                      · rw [horder]
                        exact Nat.zero_le i
                    · rw [hsame.1, hrowV', hsame.2.1]
                      exact hlegible.fetched
                    · intro hblock
                      rw [hsame.2.2.1, hagrees.size] at hblock
                      rw [← hagrees.options]
                      exact hrepaired.resolve_right fun h => absurd h.1 (by omega)
                    · intro _
                      rw [← hagrees.options, hsame.1, hrowV']
                      exact ⟨hrepaired.imp_right And.right,
                        hagrees.wasBound i hlegible.column hbound, houtgrown⟩
                  refine (getDataLong_spec h hs' (hsame.2.2.1.trans hagrees.size) hreadable
                    hrowV' ((congrFun hsame.2.2.2 i).trans
                      (hagrees.bound i hlegible.column))).mono ?_
                  intro x s'' hx
                  obtain ⟨hvalue, V'', hs'', hV''⟩ := hx
                  rw [hsame.1] at hvalue
                  refine ⟨hvalue, V'', hs'', hmoved.trans (by rw [hV'']; rfl), ?_⟩
                  intro hone
                  rw [if_pos hone] at horder
                  rw [hV'', horder]
                  exact ⟨rfl, le_rfl⟩

/-- What is appended at these cells. -/
def appended (R : ResultSet v) (base : Nat) (cells : List (Nat × Nat)) (columns : Nat → List v)
    (i : Nat) : List v :=
  columns i ++ (cells.filter fun c => c.2 = i).map fun c => R.value (base + c.1) i

theorem appended_cons (R : ResultSet v) (base : Nat) (c : Nat × Nat) (rest : List (Nat × Nat))
    (columns : Nat → List v) :
    appended R base rest
        (Function.update columns c.2 (columns c.2 ++ [R.value (base + c.1) c.2])) =
      appended R base (c :: rest) columns := by
  funext i
  unfold appended
  rw [List.filter_cons]
  by_cases hi : c.2 = i
  · rw [if_pos (decide_eq_true hi), ← hi, Function.update_self, List.map_cons, List.append_assoc]
    rfl
  · rw [if_neg (by simpa using hi), Function.update_of_ne (Ne.symm hi)]

/-- On a single row the cells go up by their columns. -/
def InOrder (r : OdbcReader δ) (V : CursorView) (cells : List (Nat × Nat)) : Prop :=
  r.rowsPerFetch ≤ 1 →
    (∀ c ∈ cells, V.row = c.1 ∧ V.column ≤ c.2) ∧ cells.Pairwise fun c d => c.2 < d.2

/-- `BulkAppendColumn` is left the values that fit in their buffers. -/
def Held (r : OdbcReader δ) (rowset : Rowset v) (converter : Nat → Converter)
    (cells : List (Nat × Nat)) : Prop :=
  ∀ c ∈ cells, converter c.2 = .bulkAppendColumn → Fits r rowset c

/-- A cell is appended as the value of the result, whichever function converts it. -/
theorem convertCell_spec (h : FollowsContract D opts cols R faults sees) (hs : sees s V)
    (hagrees : Agrees opts cols r V) {k : Nat} (hshows : Shows cols R faults V rowset V.base k)
    {i row : Nat} (hrow : row < k) (hlegible : Legible r V rowset (row, i))
    (hsingle : r.rowsPerFetch ≤ 1 → V.row = row ∧ V.column ≤ i) {converter : Converter}
    (hfits : converter = .bulkAppendColumn → Fits r rowset (row, i)) :
    Gives faults (fun x s' => x = R.value (V.base + row) i ∧ ∃ V', sees s' V' ∧ Behind r V i V')
      (convertCell D r s i row (rowset.cell row i) converter) := by
  cases converter with
  | appendValue => exact appendValue_spec h hs hagrees hshows hrow hlegible hsingle
  | bulkAppendColumn =>
      obtain ⟨hbound, hfit⟩ := hfits rfl
      have hi : i < cols.length := hagrees.columns ▸ hlegible.column
      have hdrv : V.bound i = true := (hagrees.bound i hlegible.column).trans hbound
      rw [hagrees.widths i hlegible.column] at hfit
      exact (hshows.held row hrow i hi hdrv hfit .bulkAppendColumn).gives
        ⟨V, hs, rfl, fun h => ⟨rfl, (hsingle h).2.trans (Nat.le_succ i)⟩⟩

theorem appendCells_spec (h : FollowsContract D opts cols R faults sees) {k base : Nat}
    {converter : Nat → Converter} {cells : List (Nat × Nat)} {columns : Nat → List v}
    (hs : sees s V) (hagrees : Agrees opts cols r V)
    (hshows : Shows cols R faults V rowset V.base k)
    (hbase : V.base = base) (hrows : ∀ c ∈ cells, c.1 < k)
    (hlegible : ∀ c ∈ cells, Legible r V rowset c) (horder : InOrder r V cells)
    (hheld : Held r rowset converter cells) :
    Gives faults (fun columns' s' => columns' = appended R base cells columns ∧
      ∃ V', sees s' V' ∧ V.Moved V') (appendCells D r rowset converter cells s columns) := by
  induction cells generalizing s V columns with
  | nil =>
      refine ⟨?_, V, hs, rfl⟩
      funext i
      exact (List.append_nil _).symm
  | cons c rest ih =>
      have hvalue := convertCell_spec h hs hagrees hshows (hrows c List.mem_cons_self)
        (hlegible c List.mem_cons_self) (fun hone => (horder hone).1 c List.mem_cons_self)
        (hheld c List.mem_cons_self)
      rw [appendCells]
      cases hcell : convertCell D r s c.2 c.1 (rowset.cell c.1 c.2) (converter c.2) with
      | mk result s' =>
          rw [hcell] at hvalue
          cases result with
          | error e => exact hvalue
          | ok x =>
              obtain ⟨hx, V', hs', hmoved, hnext⟩ := hvalue
              dsimp only
              rw [hx, hbase, ← appended_cons]
              have hrest : Gives faults (fun columns' s' => columns' = appended R base rest
                  (Function.update columns c.2 (columns c.2 ++ [R.value (base + c.1) c.2])) ∧
                  ∃ V'', sees s' V'' ∧ V'.Moved V'') (appendCells D r rowset converter rest s'
                    (Function.update columns c.2 (columns c.2 ++ [R.value (base + c.1) c.2]))) := by
                have hbase' : V'.base = V.base := by rw [hmoved]
                have hcells : ∀ d ∈ rest, d ∈ c :: rest := fun d => List.mem_cons_of_mem c
                refine ih hs' (hagrees.moved hmoved) ?_ (hbase'.trans hbase)
                  (fun d hd => hrows d (hcells d hd))
                  (fun d hd => (hlegible d (hcells d hd)).moved hmoved) ?_
                  fun d hd => hheld d (hcells d hd)
                · rw [hbase']
                  exact hshows.moved hmoved
                · intro hone
                  obtain ⟨hfirst, hsorted⟩ := horder hone
                  rw [List.pairwise_cons] at hsorted
                  refine ⟨?_, hsorted.2⟩
                  intro d hd
                  rw [(hnext hone).1]
                  exact ⟨(hfirst d (hcells d hd)).1,
                    (hnext hone).2.trans (hsorted.1 d hd)⟩
              refine hrest.mono ?_
              intro columns' s'' hcolumns
              exact ⟨hcolumns.1, hcolumns.2.imp fun V'' hV'' => ⟨hV''.1, hmoved.trans hV''.2⟩⟩

/-! ## The order of the cells -/

theorem filter_eq_single {l : List Nat} (hl : l.Nodup) (i : Nat) :
    (l.filter fun x => x = i) = if i ∈ l then [i] else [] := by
  rw [List.filter_eq]
  split_ifs with hi
  · rw [List.count_eq_one_of_mem hl hi]
    rfl
  · rw [List.count_eq_zero_of_not_mem hi]
    rfl

/-- The cells of a row at column `i`, where the row has the columns `l`. -/
theorem filter_row {l : List Nat} (hl : l.Nodup) (row i : Nat) :
    ((l.map fun x => (row, x)).filter fun c => c.2 = i) = if i ∈ l then [(row, i)] else [] := by
  rw [List.filter_map]
  change List.map _ (l.filter fun x => x = i) = _
  rw [filter_eq_single hl]
  split_ifs
  · rfl
  · rfl

theorem flatMap_single {α : Type*} {l : List Nat} (hl : l.Nodup) (i : Nat) (cells : List α) :
    (l.flatMap fun x => if x = i then cells else []) = if i ∈ l then cells else [] := by
  induction l with
  | nil => rfl
  | cons x l ih =>
      rw [List.nodup_cons] at hl
      rw [List.flatMap_cons, ih hl.2]
      by_cases hx : x = i
      · rw [hx] at hl
        rw [if_pos hx, if_neg hl.1, List.append_nil, if_pos (by rw [hx]; exact List.mem_cons_self)]
      · rw [if_neg hx, List.nil_append]
        simp only [List.mem_cons, Ne.symm hx, false_or]

theorem mem_boundCols {i : Nat} : i ∈ r.boundCols ↔ i < r.ncols ∧ (r.col i).bound = true := by
  rw [OdbcReader.boundCols, List.mem_filter, List.mem_range]

theorem mem_unboundCols {i : Nat} : i ∈ r.unboundCols ↔ i < r.ncols ∧ (r.col i).bound = false := by
  rw [OdbcReader.unboundCols, List.mem_filter, List.mem_range, Bool.not_eq_true']

theorem boundCols_nodup : r.boundCols.Nodup := List.nodup_range.filter _

theorem unboundCols_nodup : r.unboundCols.Nodup := List.nodup_range.filter _

/-- Every row has each column once, whichever way it is read. -/
theorem filter_bulkCells (hall : r.allBound = true → ∀ i < r.ncols, (r.col i).bound = true)
    {i : Nat} (hi : i < r.ncols) (k : Nat) :
    ((bulkCells r k).filter fun c => c.2 = i) = (List.range k).map fun row => (row, i) := by
  have hfirst : ((r.boundCols.flatMap fun x => (List.range k).map fun row => (row, x)).filter
      fun c => c.2 = i) =
        if (r.col i).bound = true then (List.range k).map fun row => (row, i) else [] := by
    have hcol : ∀ x : Nat, (((List.range k).map fun row => (row, x)).filter fun c => c.2 = i) =
        if x = i then (List.range k).map fun row => (row, i) else [] := by
      intro x
      rw [List.filter_map]
      split_ifs with hx
      · rw [hx]
        congr 1
        exact List.filter_eq_self.mpr fun _ _ => decide_eq_true rfl
      · rw [List.map_eq_nil_iff]
        exact List.filter_eq_nil_iff.mpr fun _ _ hc => hx (of_decide_eq_true hc)
    rw [List.filter_flatMap]
    simp only [hcol]
    rw [flatMap_single boundCols_nodup]
    simp only [mem_boundCols, hi, true_and]
  have hlater : (((List.range k).flatMap fun row => r.unboundCols.map fun x => (row, x)).filter
      fun c => c.2 = i) =
        if (r.col i).bound = true then [] else (List.range k).map fun row => (row, i) := by
    rw [List.filter_flatMap]
    simp only [filter_row unboundCols_nodup, mem_unboundCols, hi, true_and]
    cases (r.col i).bound with
    | true => exact List.flatMap_eq_nil_iff.mpr fun _ _ => if_neg (by simp)
    | false => exact (List.map_eq_flatMap ..).symm
  unfold bulkCells
  rw [List.filter_append, hfirst]
  cases hbound : (r.col i).bound with
  | true =>
      rw [if_pos rfl]
      split_ifs
      · exact List.append_nil _
      · rw [hlater, if_pos hbound, List.append_nil]
  | false =>
      rw [if_neg Bool.false_ne_true, List.nil_append]
      rw [if_neg fun h => by rw [hall h i hi] at hbound; cases hbound]
      rw [hlater, if_neg (by rw [hbound]; exact Bool.false_ne_true)]

theorem appended_rowCells {i : Nat} (hi : i < r.ncols) (base row : Nat) (columns : Nat → List v) :
    appended R base (rowCells r row) columns i = columns i ++ R.slice i (base + row) 1 := by
  unfold appended rowCells
  rw [filter_row List.nodup_range, if_pos (List.mem_range.mpr hi)]
  rfl

theorem appended_bulkCells (hall : r.allBound = true → ∀ i < r.ncols, (r.col i).bound = true)
    {i : Nat} (hi : i < r.ncols) (base k : Nat) (columns : Nat → List v) :
    appended R base (bulkCells r k) columns i = columns i ++ R.slice i base k := by
  unfold appended
  rw [filter_bulkCells hall hi, List.map_map]
  rfl

theorem rowCells_sorted (row : Nat) :
    (rowCells r row).Pairwise fun c d => c.2 < d.2 := by
  rw [rowCells, List.pairwise_map]
  exact List.pairwise_lt_range

/-- The unbound columns come last, by their numbers. -/
theorem unboundLast_col (hlast : UnboundLast r.cols) {i j : Nat} (hij : i < j) (hj : j < r.ncols)
    (hi : (r.col i).bound = false) : (r.col j).bound = false := by
  have hcol : ∀ n (hn : n < r.cols.length), r.col n = r.cols[n] := fun n hn =>
    List.getD_eq_getElem _ _ hn
  have hpair := List.pairwise_iff_getElem.mp hlast i j (hij.trans hj) hj hij
  rw [← hcol i (hij.trans hj), ← hcol j hj] at hpair
  exact hpair hi

theorem bulkCells_sorted (hlast : UnboundLast r.cols) :
    (bulkCells r 1).Pairwise fun c d => c.2 < d.2 := by
  have hsorted : ∀ p : Nat → Bool, ((List.range r.ncols).filter p).Pairwise (· < ·) := fun p =>
    List.pairwise_lt_range.filter p
  have hfirst : (r.boundCols.flatMap fun i => (List.range 1).map fun row => (row, i)) =
      r.boundCols.map fun i => (0, i) := (List.map_eq_flatMap ..).symm
  have hlater : ((List.range 1).flatMap fun row => r.unboundCols.map fun i => (row, i)) =
      r.unboundCols.map fun i => (0, i) := List.append_nil _
  unfold bulkCells
  rw [hfirst, hlater, List.pairwise_append, List.pairwise_map]
  refine ⟨hsorted _, ?_, ?_⟩
  · split_ifs
    · exact List.Pairwise.nil
    · rw [List.pairwise_map]
      exact hsorted _
  · intro c hc d hd
    obtain ⟨i, hi, hci⟩ := List.mem_map.mp hc
    split_ifs at hd
    · cases hd
    obtain ⟨j, hj, hdj⟩ := List.mem_map.mp hd
    rw [← hci, ← hdj]
    rw [mem_boundCols] at hi
    rw [mem_unboundCols] at hj
    -- an unbound column in front of a bound one would unbind that too
    by_contra hle
    have hne : j ≠ i := fun heq => by
      rw [heq, hi.2] at hj
      cases hj.2
    have hlt : j < i := lt_of_le_of_ne (not_lt.mp hle) hne
    have hcol := unboundLast_col hlast hlt hi.1 hj.2
    rw [hi.2] at hcol
    cases hcol

/-! ## A rowset -/

/-- The cursor has just fetched `k` rows, and the reader can append them. -/
structure Fetched (opts : OdbcReaderOptions) (cols : List OdbcColumn) (R : ResultSet v)
    (faults : Prop) (r : OdbcReader δ) (V : CursorView) (rowset : Rowset v) (k : Nat) : Prop where
  agrees : Agrees opts cols r V
  shows : Shows cols R faults V rowset V.base k
  start : V.row = 0 ∧ V.column = 0
  next : V.next = V.base + k
  pos : 0 < k
  fits : k ≤ V.size
  all : r.allBound = true → ∀ i < r.ncols, (r.col i).bound = true
  wide : 1 < r.rowsPerFetch → ∀ i < r.ncols, (r.col i).bound = true
  last : UnboundLast r.cols

/-- A value that was cut off belongs to a column that was bound narrow because it can be read
again. -/
theorem Fetched.repairable {k : Nat} (h : Fetched opts cols R faults r V rowset k) {row i : Nat}
    (hrow : row < k) (hi : i < r.ncols) (hbound : (r.col i).bound = true)
    (htrunc : boundValueTruncated (r.col i) (rowset.cell row i).ind = true) :
    truncationRepairable opts = true := by
  apply h.agrees.repairable i hi hbound
  by_contra hclipped
  have hdrv : V.bound i = true := (h.agrees.bound i hi).trans hbound
  have hwhole := h.shows.declared row hrow i (h.agrees.columns ▸ hi) hdrv
    (Bool.eq_false_iff.mpr hclipped)
  rw [← h.agrees.widths i hi, htrunc] at hwhole
  cases hwhole

theorem convertRows_error {rows : List Nat} {batch : Batch v} {row : Nat} (hrow : row ∈ rows)
    (hstatus : rowset.status row = .error) :
    ∃ e s', convertRows D r rowset rows s batch = (.error e, s') := by
  induction rows generalizing s batch with
  | nil => cases hrow
  | cons first rest ih =>
      rw [List.mem_cons] at hrow
      rw [convertRows]
      cases hrow with
      | inl heq =>
          rw [← heq, hstatus]
          exact ⟨_, _, rfl⟩
      | inr hmem =>
          split
          · exact ih hmem
          · exact ⟨_, _, rfl⟩
          · cases appendCells D r rowset rowConverter (rowCells r first) s batch.columns with
            | mk result s' =>
                cases result with
                | error e => exact ⟨_, _, rfl⟩
                | ok columns => exact ih hmem

/-- A fetched row that is not usable has failed. -/
theorem Fetched.failed {k : Nat} (h : Fetched opts cols R faults r V rowset k)
    (hbulk : rowsetIsBulk rowset k = false) : ∃ row < k, rowset.status row = .error := by
  rw [rowsetIsBulk, Bool.and_eq_false_iff, decide_eq_false_iff_not, not_not] at hbulk
  have hsome := hbulk.resolve_left h.pos.ne'
  rw [List.all_eq_false] at hsome
  obtain ⟨row, hrow, hstatus⟩ := hsome
  rw [List.mem_range] at hrow
  refine ⟨row, hrow, ?_⟩
  have hnoRow := (h.shows.status row hrow).1
  by_contra herror
  exact hstatus (decide_eq_true ⟨hnoRow, herror⟩)

theorem mem_bulkCells {k : Nat} {c : Nat × Nat} (hc : c ∈ bulkCells r k) :
    c.1 < k ∧ c.2 < r.ncols := by
  unfold bulkCells at hc
  rw [List.mem_append] at hc
  cases hc with
  | inl hfirst =>
      obtain ⟨i, hi, hmem⟩ := List.mem_flatMap.mp hfirst
      obtain ⟨row, hrow, heq⟩ := List.mem_map.mp hmem
      rw [← heq]
      exact ⟨List.mem_range.mp hrow, (mem_boundCols.mp hi).1⟩
  | inr hlater =>
      split_ifs at hlater
      · cases hlater
      · obtain ⟨row, hrow, hmem⟩ := List.mem_flatMap.mp hlater
        obtain ⟨i, hi, heq⟩ := List.mem_map.mp hmem
        rw [← heq]
        exact ⟨List.mem_range.mp hrow, (mem_unboundCols.mp hi).1⟩

/-- The values that were cut off and can be read again where they are. -/
def RepairedInPlace (r : OdbcReader δ) (rowset : Rowset v) (k : Nat) : Prop :=
  ∀ row < k, ∀ i < r.ncols, (r.col i).bound = true →
    boundValueTruncated (r.col i) (rowset.cell row i).ind = true →
      r.opts.getdataRepair = true ∨ r.rowsPerFetch ≤ 1 ∧ r.opts.getdataBound = true

theorem Fetched.legible {k : Nat} (h : Fetched opts cols R faults r V rowset k)
    (hrepaired : RepairedInPlace r rowset k) {c : Nat × Nat} (hc : c.1 < k ∧ c.2 < r.ncols) :
    Legible r V rowset c where
  column := hc.2
  fetched := by
    rw [h.next]
    exact Nat.add_lt_add_left hc.1 V.base
  repaired := hrepaired c.1 hc.1 c.2 hc.2
  single := by
    intro hunbound
    by_contra hblock
    have hbound := h.wide (not_le.mp hblock) c.2 hc.2
    rw [hunbound] at hbound
    cases hbound

theorem Fetched.bulkCells_inOrder {k : Nat} (h : Fetched opts cols R faults r V rowset k) :
    InOrder r V (bulkCells r k) := by
  intro hone
  have hk : k = 1 := by
    have hpos := h.pos
    have hfits := h.fits
    rw [h.agrees.size] at hfits
    omega
  rw [hk]
  refine ⟨?_, bulkCells_sorted h.last⟩
  intro c hc
  have hrow := (mem_bulkCells hc).1
  rw [h.start.1, h.start.2]
  exact ⟨by omega, Nat.zero_le _⟩

theorem bulkConverter_held (r : OdbcReader δ) (rowset : Rowset v) (k : Nat) :
    Held r rowset (bulkConverter r rowset k) (bulkCells r k) := by
  intro c hc hbulk
  have hrow := (mem_bulkCells hc).1
  unfold bulkConverter at hbulk
  split_ifs at hbulk with htaken
  rw [Bool.and_eq_true, Bool.not_eq_true', List.any_eq_false] at htaken
  exact ⟨htaken.1, Bool.eq_false_iff.mpr (htaken.2 c.1 (List.mem_range.mpr hrow))⟩

theorem rowConverter_held (rowset : Rowset v) (cells : List (Nat × Nat)) :
    Held r rowset rowConverter cells :=
  fun _ _ hrow => by cases hrow

theorem convertRowset_spec (h : FollowsContract D opts cols R faults sees) (hs : sees s V)
    {k : Nat} (hfetched : Fetched opts cols R faults r V rowset k) (batch : Batch v)
    (hrepaired : rowsetIsBulk rowset k = true → RepairedInPlace r rowset k) :
    Gives faults (fun batch' s' => rowsetIsBulk rowset k = true ∧
      batch'.total = batch.total + k ∧
      (∀ i < r.ncols, batch'.columns i = batch.columns i ++ R.slice i V.base k) ∧
      ∃ V', sees s' V' ∧ V.Moved V')
      (convertRowset D r rowset k (rowsetIsBulk rowset k) s batch) := by
  unfold convertRowset
  cases hbulk : rowsetIsBulk rowset k with
  | false =>
      obtain ⟨row, hrow, hstatus⟩ := hfetched.failed hbulk
      obtain ⟨e, s', herror⟩ := @convertRows_error _ _ D r s rowset (List.range k) batch row
        (List.mem_range.mpr hrow) hstatus
      rw [if_neg Bool.false_ne_true, herror]
      exact (hfetched.shows.status row hrow).2 hstatus
  | true =>
      rw [if_pos rfl]
      have hcells : Gives faults (fun columns' s' =>
          columns' = appended R V.base (bulkCells r k) batch.columns ∧
            ∃ V', sees s' V' ∧ V.Moved V')
          (appendCells D r rowset (bulkConverter r rowset k) (bulkCells r k) s
            batch.columns) := by
        apply appendCells_spec h hs hfetched.agrees hfetched.shows rfl
        · exact fun c hc => (mem_bulkCells hc).1
        · exact fun c hc => hfetched.legible (hrepaired hbulk) (mem_bulkCells hc)
        · exact hfetched.bulkCells_inOrder
        · exact bulkConverter_held r rowset k
      cases hrun : appendCells D r rowset (bulkConverter r rowset k) (bulkCells r k) s
          batch.columns with
      | mk result s' =>
          rw [hrun] at hcells
          cases result with
          | error e => exact hcells
          | ok columns =>
              refine ⟨rfl, rfl, ?_, hcells.2⟩
              intro i hi
              rw [hcells.1]
              exact appended_bulkCells hfetched.all hi V.base k batch.columns

/-! ## Reading a rowset again -/

/-- All but where the cursor is has stayed. -/
structure CursorView.Kept (V V' : CursorView) : Prop where
  size : V'.size = V.size
  bound : V'.bound = V.bound
  counts : V'.counts = V.counts

theorem CursorView.Kept.trans {V V' V'' : CursorView} (h : V.Kept V') (h' : V'.Kept V'') :
    V.Kept V'' :=
  ⟨h'.size.trans h.size, h'.bound.trans h.bound, h'.counts.trans h.counts⟩

theorem CursorView.kept_on (V : CursorView) (base k : Nat) : V.Kept (V.on base k) :=
  ⟨rfl, rfl, rfl⟩

theorem CursorView.Moved.kept {V V' : CursorView} (h : V.Moved V') : V.Kept V' := by
  rw [h]
  exact ⟨rfl, rfl, rfl⟩

theorem Agrees.kept {V' : CursorView} (h : Agrees opts cols r V) (hkept : V.Kept V') :
    Agrees opts cols r V' where
  options := h.options
  columns := h.columns
  widths := h.widths
  bound := fun i hi => (congrFun hkept.bound i).trans (h.bound i hi)
  wasBound := h.wasBound
  repairable := h.repairable
  size := hkept.size.trans h.size

theorem Shows.kept {V' : CursorView} {base k : Nat} (h : Shows cols R faults V rowset base k)
    (hkept : V.Kept V') : Shows cols R faults V' rowset base k where
  count := fun hcounts => h.count (hkept.counts ▸ hcounts)
  status := h.status
  held := fun row hrow i hi hbound => h.held row hrow i hi (hkept.bound ▸ hbound)
  outgrown := fun row hrow i hi hbound => h.outgrown row hrow i hi (hkept.bound ▸ hbound)
  declared := fun row hrow i hi hbound => h.declared row hrow i hi (hkept.bound ▸ hbound)

/-- One row after the other is fetched alone and appended. -/
theorem repairRows_spec (h : FollowsContract D opts cols R faults sees) (hs : sees s V)
    (hagrees : Agrees opts cols r V) (hone : r.rowsPerFetch = 1)
    (hrefetch : opts.refetchRepair = true) (hgetdata : opts.getdataBound = true) {n first : Nat}
    (hfirst : 0 < first) (hlast : first + n ≤ R.count + 1) (columns : Nat → List v) :
    Gives faults (fun columns' s' =>
      (∀ i < r.ncols, columns' i = columns i ++ R.slice i (first - 1) n) ∧
        ∃ V', sees s' V' ∧ V.Kept V' ∧ V'.next = if n = 0 then V.next else first - 1 + n)
      (repairRows D r (List.range' first n) s columns) := by
  induction n generalizing s V first columns with
  | zero =>
      exact ⟨fun i _ => (List.append_nil _).symm, V, hs, ⟨rfl, rfl, rfl⟩, rfl⟩
  | succ n ih =>
      rw [List.range'_succ, repairRows]
      have hle : first ≤ R.count := by omega
      cases hscroll : D.fetchAbsolute s first with
      | mk answer s' =>
          cases answer with
          | error e => exact h.notScrolled hs hrefetch hfirst hle hscroll
          | ok rowset =>
              have hsize : V.size = 1 := hagrees.size.trans hone
              obtain ⟨k, hpos, hfits, hshows, hs'⟩ :=
                h.scrolled hs hrefetch (by omega) hfirst hle hscroll
              have hk : k = 1 := by omega
              rw [hk] at hshows hs'
              have hkept := V.kept_on (first - 1) 1
              have hcells : Gives faults (fun columns' s'' =>
                  columns' = appended R (first - 1) (rowCells r 0) columns ∧
                    ∃ V', sees s'' V' ∧ (V.on (first - 1) 1).Moved V')
                  (appendCells D r rowset rowConverter (rowCells r 0) s' columns) := by
                apply appendCells_spec h hs' (hagrees.kept hkept) (hshows.kept hkept) rfl
                · intro c hc
                  obtain ⟨i, -, heq⟩ := List.mem_map.mp hc
                  rw [← heq]
                  exact Nat.one_pos
                · intro c hc
                  obtain ⟨i, hi, heq⟩ := List.mem_map.mp hc
                  rw [← heq]
                  exact ⟨List.mem_range.mp hi, Nat.lt_succ_self _,
                    fun _ _ => Or.inr ⟨hone.le, hagrees.options ▸ hgetdata⟩, fun _ => hone.le⟩
                · intro _
                  refine ⟨?_, rowCells_sorted 0⟩
                  intro c hc
                  obtain ⟨i, -, heq⟩ := List.mem_map.mp hc
                  rw [← heq]
                  exact ⟨rfl, Nat.zero_le i⟩
                · exact rowConverter_held rowset (rowCells r 0)
              dsimp only
              cases hrun : appendCells D r rowset rowConverter (rowCells r 0) s' columns with
              | mk result s'' =>
                  rw [hrun] at hcells
                  cases result with
                  | error e => exact hcells
                  | ok columns' =>
                      obtain ⟨hcolumns, V', hs'', hmoved⟩ := hcells
                      have hkept' : V.Kept V' := hkept.trans hmoved.kept
                      have hnext : V'.next = first := by
                        rw [hmoved]
                        exact Nat.sub_add_cancel hfirst
                      refine (ih hs'' (hagrees.kept hkept') (Nat.succ_pos first) (by omega)
                        columns').mono ?_
                      intro columns'' t hrest
                      obtain ⟨hvalues, V'', ht, hkept'', hnext''⟩ := hrest
                      refine ⟨?_, V'', ht, hkept'.trans hkept'', ?_⟩
                      · intro i hi
                        rw [hvalues i hi, hcolumns, appended_rowCells hi, List.append_assoc,
                          Nat.add_comm n 1, R.slice_add]
                        congr 3
                        omega
                      · rw [hnext'', if_neg (Nat.succ_ne_zero n)]
                        split_ifs
                        · omega
                        · omega

/-- The cursor goes on where it was, with the rowset it had. -/
structure CursorView.Stays (V V' : CursorView) : Prop where
  next : V'.next = V.next
  size : V'.size = V.size
  bound : V'.bound = V.bound
  counts : V'.counts = V.counts

theorem CursorView.Moved.stays {V V' : CursorView} (h : V.Moved V') : V.Stays V' := by
  rw [h]
  exact ⟨rfl, rfl, rfl, rfl⟩

theorem Agrees.alone (h : Agrees opts cols r V) :
    Agrees opts cols { r with rowsPerFetch := 1 } (V.resize 1) :=
  ⟨h.options, h.columns, h.widths, h.bound, h.wasBound, h.repairable, rfl⟩

theorem repairRowset_spec (h : FollowsContract D opts cols R faults sees) (hs : sees r.cursor V)
    {k : Nat} (hfetched : Fetched opts cols R faults r V rowset k) (hcount : V.next ≤ R.count)
    (hrefetch : opts.refetchRepair = true) (hgetdata : opts.getdataBound = true)
    (columns : Nat → List v) :
    Gives faults (fun columns' s' =>
      (∀ i < r.ncols, columns' i = columns i ++ R.slice i V.base k) ∧ ∃ V', sees s' V' ∧ V.Stays V')
      (repairRowset D r (V.base + 1) k columns) := by
  have hopen : V.next ≠ 0 := by
    have hnext := hfetched.next
    have hpos := hfetched.pos
    omega
  unfold repairRowset
  cases hsingle : D.setRowArraySize r.cursor 1 with
  | mk answer s =>
      cases answer with
      | some e => exact (h.notResized hs hsingle).2.2 hopen
      | none =>
          have hrows := repairRows_spec h (h.resized hs hsingle) hfetched.agrees.alone rfl hrefetch
            hgetdata (Nat.succ_pos V.base)
            (show V.base + 1 + k ≤ R.count + 1 by rw [hfetched.next] at hcount; omega) columns
          dsimp only
          cases hrun : repairRows D { r with rowsPerFetch := 1 } (List.range' (V.base + 1) k) s
              columns with
          | mk result s' =>
              rw [hrun] at hrows
              cases result with
              | error e => exact hrows
              | ok columns' =>
                  obtain ⟨hvalues, V', hs', hkept, hnext⟩ := hrows
                  rw [if_neg hfetched.pos.ne', Nat.succ_sub_one, ← hfetched.next] at hnext
                  dsimp only
                  cases hblock : D.setRowArraySize s' r.rowsPerFetch with
                  | mk answer s'' =>
                      cases answer with
                      | some e => exact (h.notResized hs' hblock).2.2 (hnext ▸ hopen)
                      | none =>
                          exact ⟨hvalues, _, h.resized hs' hblock, hnext,
                            hfetched.agrees.size.symm, hkept.bound, hkept.counts⟩

end Convert

end AdbcBridge.Reader
