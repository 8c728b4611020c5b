import AdbcBridge.Reader.Column
import AdbcBridge.Reader.Driver
import Mathlib.Data.List.Range
import Mathlib.Logic.Function.Basic

/-!
# From a rowset to a batch

How the reader appends a fetched rowset to an Arrow batch, which values it reads again
with `SQLGetData`, and how `RepairRowset` fetches a rowset again row by row.
-/

namespace AdbcBridge.Reader

open AdbcBridge.Adbc

/-- `struct OdbcReader`, less what belongs to prefetching.  `capacity` is the number of
rows the buffers were allocated for. -/
structure OdbcReader (δ : Type*) where
  opts : OdbcReaderOptions
  cols : List OdbcColumn
  cursor : δ
  rowsPerFetch : Nat := 0
  rowsSeen : Nat := 0
  rowsSeenExact : Bool := true
  rowsetsRead : Nat := 0
  rowsetsRepaired : Nat := 0
  adaptOpen : Bool := false
  adaptRows : Nat := 0
  rowsetRestore : Bool := false
  rowsetFull : Nat := 0
  noRowsFetchedPtr : Bool := false
  done : Bool := false
  bound : Bool := false
  allBound : Bool := false
  capacity : Nat := 0

/-- A batch under construction, or one delivered. -/
structure Batch (v : Type*) where
  columns : Nat → List v := fun _ => []
  total : Nat := 0

namespace OdbcReader

variable {δ : Type*}

def ncols (r : OdbcReader δ) : Nat := r.cols.length

def col (r : OdbcReader δ) (i : Nat) : OdbcColumn :=
  r.cols.getD i { name := [], cType := .fixed, elemSize := 0 }

/-- The columns that `SQLBindCol` has a buffer for. -/
def boundCols (r : OdbcReader δ) : List Nat :=
  (List.range r.ncols).filter fun i => (r.col i).bound

def unboundCols (r : OdbcReader δ) : List Nat :=
  (List.range r.ncols).filter fun i => !(r.col i).bound

end OdbcReader

section Convert

variable {δ v : Type*} (D : Driver δ v)

/-- `PositionOnRow`. -/
def positionOnRow (r : OdbcReader δ) (s : δ) (row : Nat) : Option AdbcError × δ :=
  if r.rowsPerFetch ≤ 1 then (none, s) else D.setPos s (row + 1)

def noDataError (name : List Char) (row : Nat) : AdbcError where
  status := .io
  message :=
    "[ODBC] SQLGetData returned no data for column ".toList ++ name ++
      " after SQLSetPos positioned on row ".toList ++ Nat.toDigits 10 (row + 1) ++
      (" of a rowset: this driver's SQL_GETDATA_EXTENSIONS overstates what it supports. " ++
        "Set adbc.odbc.long_bind_bytes higher, or adbc.odbc.batch_size=1 to read one row " ++
        "per fetch.").toList

/-- `GetDataLong`, and what `AppendValue` makes of the value. -/
def getDataLong (r : OdbcReader δ) (s : δ) (i row : Nat) : Except AdbcError v × δ :=
  match D.getData s i with
  | (.value read, s) => (read (r.col i).bound, s)
  | (.noData empty, s) =>
      if 1 < r.rowsPerFetch then (.error (noDataError (r.col i).name row), s)
      else (empty (r.col i).bound, s)
  | (.failed e, s) => (.error e, s)

/-- `AppendValue`, up to the append. -/
def appendValue (r : OdbcReader δ) (s : δ) (i row : Nat) (cell : Cell v) :
    Except AdbcError v × δ :=
  if (r.col i).bound then
    if boundValueTruncated (r.col i) cell.ind &&
        (r.opts.getdataRepair || (decide (r.rowsPerFetch ≤ 1) && r.opts.getdataBound)) then
      match positionOnRow D r s row with
      | (some e, s) => (.error e, s)
      | (none, s) => getDataLong D r s i row
    else (cell.held .appendValue, s)
  else getDataLong D r s i row

/-- The value of a cell, by the function that its column is left to. -/
def convertCell (r : OdbcReader δ) (s : δ) (i row : Nat) (cell : Cell v) :
    Converter → Except AdbcError v × δ
  | .appendValue => appendValue D r s i row cell
  | .bulkAppendColumn => (cell.held .bulkAppendColumn, s)

/-- Append the values at these rows and columns, in this order. -/
def appendCells (r : OdbcReader δ) (rowset : Rowset v) (converter : Nat → Converter) :
    List (Nat × Nat) → δ → (Nat → List v) → Except AdbcError (Nat → List v) × δ
  | [], s, columns => (.ok columns, s)
  | (row, i) :: rest, s, columns =>
      match convertCell D r s i row (rowset.cell row i) (converter i) with
      | (.error e, s) => (.error e, s)
      | (.ok x, s) =>
          appendCells r rowset converter rest s (Function.update columns i (columns i ++ [x]))

/-- The cells of one row. -/
def rowCells (r : OdbcReader δ) (row : Nat) : List (Nat × Nat) :=
  (List.range r.ncols).map fun i => (row, i)

/-- The order of a rowset whose rows are all usable: the bound columns one after the
other, then the unbound ones row by row. -/
def bulkCells (r : OdbcReader δ) (fetched : Nat) : List (Nat × Nat) :=
  (r.boundCols.flatMap fun i => (List.range fetched).map fun row => (row, i)) ++
    if r.allBound then []
    else (List.range fetched).flatMap fun row => r.unboundCols.map fun i => (row, i)

/-- Row by row every value is left to `AppendValue`. -/
def rowConverter (_ : Nat) : Converter := .appendValue

/-- In a rowset whose rows are all usable `BulkAppendColumn` takes a bound column, unless a value
of it outgrew its buffer. -/
def bulkConverter (r : OdbcReader δ) (rowset : Rowset v) (fetched i : Nat) : Converter :=
  if (r.col i).bound && !(List.range fetched).any fun row =>
      boundValueTruncated (r.col i) (rowset.cell row i).ind then .bulkAppendColumn
  else .appendValue

/-- The loop of `ConvertRowset` over the rows. -/
def convertRows (r : OdbcReader δ) (rowset : Rowset v) :
    List Nat → δ → Batch v → Except AdbcError (Batch v) × δ
  | [], s, batch => (.ok batch, s)
  | row :: rest, s, batch =>
      match rowset.status row with
      | .noRow => convertRows r rowset rest s batch
      | .error =>
          (.error ⟨.io, "[ODBC] row ".toList ++ Nat.toDigits 10 row ++
            " reported SQL_ROW_ERROR".toList⟩, s)
      | _ =>
          match appendCells D r rowset rowConverter (rowCells r row) s batch.columns with
          | (.error e, s) => (.error e, s)
          | (.ok columns, s) =>
              convertRows r rowset rest s { columns, total := batch.total + 1 }

/-- `ConvertRowset`. -/
def convertRowset (r : OdbcReader δ) (rowset : Rowset v) (fetched : Nat) (bulk : Bool)
    (s : δ) (batch : Batch v) : Except AdbcError (Batch v) × δ :=
  if bulk then
    match appendCells D r rowset (bulkConverter r rowset fetched) (bulkCells r fetched) s
        batch.columns with
    | (.error e, s) => (.error e, s)
    | (.ok columns, s) => (.ok { columns, total := batch.total + fetched }, s)
  else convertRows D r rowset (List.range fetched) s batch

/-- `ResolveFetched`. -/
def resolveFetched (r : OdbcReader δ) (rowset : Rowset v) : Nat :=
  if r.noRowsFetchedPtr then 1 else rowset.fetched

/-- `RowsetIsBulk`. -/
def rowsetIsBulk (rowset : Rowset v) (fetched : Nat) : Bool :=
  decide (fetched ≠ 0) &&
    (List.range fetched).all fun row =>
      decide (rowset.status row ≠ .noRow ∧ rowset.status row ≠ .error)

/-- `RowsetTruncated`. -/
def rowsetTruncated (r : OdbcReader δ) (rowset : Rowset v) (fetched : Nat) : Bool :=
  (List.range r.ncols).any fun i =>
    (r.col i).bound &&
      (List.range fetched).any fun row => boundValueTruncated (r.col i) (rowset.cell row i).ind

/-- `ReaderResizeRowset`: whether the cursor is now fetching that many rows. -/
def resizeRowset (r : OdbcReader δ) (rows : Nat) : Bool × δ :=
  if r.opts.fixedRowset then (false, r.cursor)
  else
    let (answer, s) := D.setRowArraySize r.cursor rows
    (answer.isNone, s)

/-- The loop of `RepairRowset`: fetch these rows again, one by one. -/
def repairRows (r : OdbcReader δ) :
    List Nat → δ → (Nat → List v) → Except AdbcError (Nat → List v) × δ
  | [], s, columns => (.ok columns, s)
  | row :: rest, s, columns =>
      match D.fetchAbsolute s row with
      | (.error e, s) => (.error e, s)
      | (.ok rowset, s) =>
          match appendCells D r rowset rowConverter (rowCells r 0) s columns with
          | (.error e, s) => (.error e, s)
          | (.ok columns, s) => repairRows r rest s columns

/-- `RepairRowset`; the answer is the batch's columns.  The rows count from 1. -/
def repairRowset (r : OdbcReader δ) (first fetched : Nat) (columns : Nat → List v) :
    Except AdbcError (Nat → List v) × δ :=
  match D.setRowArraySize r.cursor 1 with
  | (some e, s) => (.error e, s)
  | (none, s) =>
      match repairRows D { r with rowsPerFetch := 1 } (List.range' first fetched) s columns with
      | (.error e, s) => (.error e, (D.setRowArraySize s r.rowsPerFetch).2)
      | (.ok columns, s) =>
          match D.setRowArraySize s r.rowsPerFetch with
          | (some e, s) => (.error e, s)
          | (none, s) => (.ok columns, s)

end Convert

/-! ## Rowsets with nothing to read again -/

section Held

variable {δ v : Type*}

/-- Append what the buffers hold. -/
def heldCells (rowset : Rowset v) (converter : Nat → Converter) :
    List (Nat × Nat) → (Nat → List v) → Except AdbcError (Nat → List v)
  | [], columns => .ok columns
  | (row, i) :: rest, columns =>
      match (rowset.cell row i).held (converter i) with
      | .error e => .error e
      | .ok x => heldCells rowset converter rest (Function.update columns i (columns i ++ [x]))

def heldRows (rowset : Rowset v) (cells : Nat → List (Nat × Nat)) :
    List Nat → Batch v → Except AdbcError (Batch v)
  | [], batch => .ok batch
  | row :: rest, batch =>
      match rowset.status row with
      | .noRow => heldRows rowset cells rest batch
      | .error =>
          .error ⟨.io, "[ODBC] row ".toList ++ Nat.toDigits 10 row ++
            " reported SQL_ROW_ERROR".toList⟩
      | _ =>
          match heldCells rowset rowConverter (cells row) batch.columns with
          | .error e => .error e
          | .ok columns => heldRows rowset cells rest { columns, total := batch.total + 1 }

/-- `ConvertRowset`, where every value is the one its buffer holds. -/
def heldRowset (r : OdbcReader δ) (rowset : Rowset v) (fetched : Nat) (bulk : Bool)
    (batch : Batch v) : Except AdbcError (Batch v) :=
  if bulk then
    match heldCells rowset (bulkConverter r rowset fetched) (bulkCells r fetched) batch.columns with
    | .error e => .error e
    | .ok columns => .ok { columns, total := batch.total + fetched }
  else heldRows rowset (rowCells r) (List.range fetched) batch

variable (D : Driver δ v) (r : OdbcReader δ) (rowset : Rowset v)

/-- A bound value that fits in its buffer. -/
def Fits (c : Nat × Nat) : Prop :=
  (r.col c.2).bound = true ∧
    boundValueTruncated (r.col c.2) (rowset.cell c.1 c.2).ind = false

theorem appendCells_held (converter : Nat → Converter) {cells : List (Nat × Nat)}
    (hfits : ∀ c ∈ cells, Fits r rowset c) (s : δ) (columns : Nat → List v) :
    appendCells D r rowset converter cells s columns =
      (heldCells rowset converter cells columns, s) := by
  induction cells generalizing columns with
  | nil => rfl
  | cons c rest ih =>
      have ⟨hbound, hfit⟩ := hfits c (by simp)
      have hvalue : convertCell D r s c.2 c.1 (rowset.cell c.1 c.2) (converter c.2) =
          ((rowset.cell c.1 c.2).held (converter c.2), s) := by
        cases converter c.2 with
        | bulkAppendColumn => rfl
        | appendValue =>
            rw [convertCell, appendValue, if_pos hbound, hfit]
            rfl
      rw [appendCells, heldCells, hvalue]
      cases (rowset.cell c.1 c.2).held (converter c.2) with
      | error e => rfl
      | ok x => exact ih (fun c hc => hfits c (by simp [hc])) _

theorem convertRows_held {rows : List Nat}
    (hfits : ∀ row ∈ rows, ∀ c ∈ rowCells r row, Fits r rowset c) (s : δ) (batch : Batch v) :
    convertRows D r rowset rows s batch = (heldRows rowset (rowCells r) rows batch, s) := by
  induction rows generalizing batch with
  | nil => rfl
  | cons row rest ih =>
      have hrest := ih fun row hrow => hfits row (by simp [hrow])
      rw [convertRows, heldRows]
      cases rowset.status row with
      | noRow => exact hrest batch
      | error => rfl
      | _ =>
          rw [appendCells_held D r rowset rowConverter (hfits row (by simp))]
          cases heldCells rowset rowConverter (rowCells r row) batch.columns with
          | error e => rfl
          | ok columns => exact hrest _

variable {r rowset} {fetched : Nat}

/-- A rowset of bound columns with no value that outgrew its buffer is converted from
memory. -/
theorem convertRowset_held (hbound : ∀ i < r.ncols, (r.col i).bound = true)
    (hall : r.allBound = true) (hfit : rowsetTruncated r rowset fetched = false) (bulk : Bool)
    (s : δ) (batch : Batch v) :
    convertRowset D r rowset fetched bulk s batch =
      (heldRowset r rowset fetched bulk batch, s) := by
  have hfits : ∀ row < fetched, ∀ i < r.ncols, Fits r rowset (row, i) := by
    intro row hrow i hi
    refine ⟨hbound i hi, ?_⟩
    simp only [rowsetTruncated, List.any_eq_false, List.mem_range] at hfit
    have hcol := hfit i hi
    rw [hbound i hi, Bool.true_and, Bool.not_eq_true, List.any_eq_false] at hcol
    simpa using hcol row (List.mem_range.2 hrow)
  cases bulk with
  | true =>
      have hcells : ∀ c ∈ bulkCells r fetched, Fits r rowset c := by
        intro c hc
        rw [bulkCells, if_pos hall, List.append_nil, List.mem_flatMap] at hc
        obtain ⟨i, hi, hc⟩ := hc
        obtain ⟨row, hrow, rfl⟩ := List.mem_map.1 hc
        rw [OdbcReader.boundCols, List.mem_filter, List.mem_range] at hi
        exact hfits row (List.mem_range.1 hrow) i hi.1
      rw [convertRowset, if_pos rfl, heldRowset, if_pos rfl,
        appendCells_held D r rowset (bulkConverter r rowset fetched) hcells]
      cases heldCells rowset (bulkConverter r rowset fetched) (bulkCells r fetched)
        batch.columns <;> rfl
  | false =>
      refine convertRows_held D r rowset ?_ s batch
      intro row hrow c hc
      obtain ⟨i, hi, rfl⟩ := List.mem_map.1 hc
      exact hfits row (List.mem_range.1 hrow) i (List.mem_range.1 hi)

end Held

end AdbcBridge.Reader
