import AdbcBridge.Reader.Driver

/-!
# A driver over a table

A block cursor over the rows of a table, as the ODBC documentation describes one.  Every
call succeeds, but for a scroll to a row the table does not have, or to any row where the
cursor only goes forward.
-/

namespace AdbcBridge.Reader

open AdbcBridge.Adbc

/-- A value of the table, and what a bound buffer and its indicator show of it. -/
structure Entry (v : Type*) where
  cell : Cell v
  value : v

structure Table (v : Type*) where
  rows : List (Nat → Entry v)
  scrolls : Bool

/-- Where the cursor is: the next row to fetch, the first row of the rowset, the row in it
that `SQLGetData` reads, and the rowset size. -/
structure TableCursor where
  next : Nat := 0
  base : Nat := 0
  row : Nat := 0
  size : Nat := 1
deriving DecidableEq, Repr

namespace TableCursor

variable {ρ : Type*}

/-- The calls that move no values. -/
def handle : Handle TableCursor where
  setRowArraySize s rows := (none, { s with size := rows })
  setRowsFetchedPtr s _ := (none, s)
  setRowStatusPtr s _ := s
  bindCol s _ _ := (none, s)
  unbindCol s _ := (none, s)
  setPos s row := (none, { s with row := row - 1 })
  closeCursor _ := {}

/-- The rows a fetch from here on returns, of so many in all. -/
def available (s : TableCursor) (count first : Nat) : Nat := min s.size (count - first)

def fetched (s : TableCursor) (first k : Nat) : TableCursor :=
  { s with next := first + k, base := first, row := 0 }

/-- `SQLFetch` over rows of which so many make up a rowset. -/
def fetch (s : TableCursor) (count : Nat) (rowset : Nat → Nat → ρ) : FetchAnswer ρ × TableCursor :=
  if s.available count s.next = 0 then (.noData, s)
  else
    (.rows (rowset s.next (s.available count s.next)),
      s.fetched s.next (s.available count s.next))

/-- `SQLFetchScroll` to a row, by its number from 1. -/
def fetchAbsolute (s : TableCursor) (count : Nat) (scrolls : Bool) (rowset : Nat → Nat → ρ)
    (row : Nat) : Except AdbcError ρ × TableCursor :=
  if scrolls = true ∧ 0 < row ∧ row ≤ count then
    (.ok (rowset (row - 1) (s.available count (row - 1))),
      s.fetched (row - 1) (s.available count (row - 1)))
  else (.error ⟨.io, "fetch type out of range".toList⟩, s)

end TableCursor

namespace Table

variable {v : Type*}

def rowset (t : Table v) (base count : Nat) : Rowset v where
  fetched := count
  status _ := .success
  cell row i :=
    match t.rows[base + row]? with
    | some entries => (entries i).cell
    | none => ⟨0, fun _ => .error ⟨.unknown, []⟩⟩

def driver (t : Table v) : Driver TableCursor v where
  toHandle := TableCursor.handle
  fetch s := s.fetch t.rows.length t.rowset
  fetchAbsolute s row := s.fetchAbsolute t.rows.length t.scrolls t.rowset row
  getData s i :=
    match t.rows[s.base + s.row]? with
    | some entries => (.value fun _ => .ok (entries i).value, s)
    | none => (.noData fun _ => .error ⟨.unknown, []⟩, s)

end Table

end AdbcBridge.Reader
