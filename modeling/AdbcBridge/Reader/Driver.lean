import AdbcBridge.Adbc.Interface

/-!
# The driver under a reader

The ODBC calls the reader issues on its statement handle, each as a function of the
driver's state, and the same driver with a log of the calls.
-/

namespace AdbcBridge.Reader

open AdbcBridge.Adbc

/-- The row statuses the reader tells apart from `SQL_ROW_SUCCESS`, and that one. -/
inductive RowStatus where
  | success
  | successWithInfo
  | error
  | noRow
deriving DecidableEq, Repr

/-- The functions that convert a value in its buffer. -/
inductive Converter where
  | appendValue
  | bulkAppendColumn
deriving DecidableEq, Repr

/-- What a bound column's buffer and indicator hold for one row: the indicator, and what
becomes of the bytes the buffer has. -/
structure Cell (v : Type*) where
  ind : Int
  held : Converter → Except AdbcError v

/-- What a fetch leaves behind: the count it wrote through `SQL_ATTR_ROWS_FETCHED_PTR`,
the row statuses, and the buffers by row and column. -/
structure Rowset (v : Type*) where
  fetched : Nat
  status : Nat → RowStatus
  cell : Nat → Nat → Cell v

/-- The answers of `SQLFetch`. -/
inductive FetchAnswer (ρ : Type*) where
  | noData
  | failed (e : AdbcError)
  | rows (rowset : ρ)

/-- What the `SQLGetData` calls for one value come to: the value, or no data at the first call,
each with what `AppendValue` makes of the bytes read, by whether the column is bound; or a call
that failed. -/
inductive GetDataAnswer (v : Type*) where
  | value (read : Bool → Except AdbcError v)
  | noData (empty : Bool → Except AdbcError v)
  | failed (e : AdbcError)

/-- The calls that move no values, over the driver's state.  An answer `none` is success. -/
structure Handle (δ : Type*) where
  setRowArraySize : δ → Nat → Option AdbcError × δ
  setRowsFetchedPtr : δ → Option Nat → Option AdbcError × δ
  setRowStatusPtr : δ → Nat → δ
  bindCol : δ → Nat → Nat → Option AdbcError × δ
  unbindCol : δ → Nat → Option AdbcError × δ
  setPos : δ → Nat → Option AdbcError × δ
  closeCursor : δ → δ

/-- A driver, as the reader sees it through the functions that convert a value. -/
structure Driver (δ v : Type*) extends Handle δ where
  fetch : δ → FetchAnswer (Rowset v) × δ
  fetchAbsolute : δ → Nat → Except AdbcError (Rowset v) × δ
  getData : δ → Nat → GetDataAnswer v × δ

/-- The calls a driver sees; a slot of the ring stands for its buffers. -/
inductive Call where
  | setRowArraySize (rows : Nat) (accepted : Bool)
  | setRowsFetchedPtr (slot : Option Nat)
  | setRowStatusPtr (slot : Nat)
  | bindCol (slot col : Nat)
  | unbindCol (col : Nat)
  | fetch
  | fetchAbsolute (row : Nat)
  | setPos (row : Nat)
  | getData (col : Nat)
  | closeCursor
deriving DecidableEq, Repr

namespace Driver

variable {δ v : Type*}

/-- The driver with a log of the calls it has seen. -/
def logged (D : Driver δ v) : Driver (δ × List Call) v where
  setRowArraySize s rows :=
    let (answer, s') := D.setRowArraySize s.1 rows
    (answer, s', s.2 ++ [.setRowArraySize rows answer.isNone])
  setRowsFetchedPtr s slot :=
    let (answer, s') := D.setRowsFetchedPtr s.1 slot
    (answer, s', s.2 ++ [.setRowsFetchedPtr slot])
  setRowStatusPtr s slot := (D.setRowStatusPtr s.1 slot, s.2 ++ [.setRowStatusPtr slot])
  bindCol s slot col :=
    let (answer, s') := D.bindCol s.1 slot col
    (answer, s', s.2 ++ [.bindCol slot col])
  unbindCol s col :=
    let (answer, s') := D.unbindCol s.1 col
    (answer, s', s.2 ++ [.unbindCol col])
  fetch s :=
    let (answer, s') := D.fetch s.1
    (answer, s', s.2 ++ [.fetch])
  fetchAbsolute s row :=
    let (answer, s') := D.fetchAbsolute s.1 row
    (answer, s', s.2 ++ [.fetchAbsolute row])
  setPos s row :=
    let (answer, s') := D.setPos s.1 row
    (answer, s', s.2 ++ [.setPos row])
  getData s col :=
    let (answer, s') := D.getData s.1 col
    (answer, s', s.2 ++ [.getData col])
  closeCursor s := (D.closeCursor s.1, s.2 ++ [.closeCursor])

end Driver

end AdbcBridge.Reader
