import AdbcBridge.Reader.Convert
import Mathlib

/-!
# The synchronous reader

`ReaderBind`, the adaptation of the bind widths, and `ReaderNextBatch` one rowset at a
time: a session holds the reader, the batch under construction and what `get_next` has
delivered.
-/

namespace AdbcBridge.Reader

open AdbcBridge.Adbc

/-- `ODBC_ADAPT_WINDOW_ROWS`. -/
def adaptWindowRows : Nat := 256

/-- `ODBC_ADAPT_PROBE_ROWS`. -/
def adaptProbeRows : Nat := 128

/-- `ODBC_ADAPT_REREAD_BUDGET`. -/
def adaptRereadBudget : Nat := 256

/-! ## Binding -/

/-- The rows of a rowset that fit in `rowset_bytes`; a `SQLLEN` has eight bytes. -/
def fitRows (opts : OdbcReaderOptions) (cols : List OdbcColumn) (rows : Nat) : Nat :=
  let rowBytes := ((cols.filter (·.bound)).map fun c => c.elemSize + 8).sum
  if 0 < opts.rowsetBytes ∧ 1 < rows ∧ 0 < rowBytes then
    min rows (max (opts.rowsetBytes / rowBytes) 1)
  else rows

/-- The rowset `ReaderBind` sizes, before any probe. -/
def rowsetRows (opts : OdbcReaderOptions) (cols : List OdbcColumn) (allBound : Bool) : Nat :=
  let rows := fitRows opts cols (if allBound then opts.batchSize else 1)
  if 0 < opts.minBufferRows ∧ allBound = true then
    (rows + opts.minBufferRows - 1) / opts.minBufferRows * opts.minBufferRows
  else rows

section NextBatch

variable {δ v : Type*} (D : Driver δ v)

/-- The `SQLBindCol` loop of `ReaderBindSlot`. -/
def bindCols (sl : Nat) : List Nat → δ → Option AdbcError × δ
  | [], s => (none, s)
  | i :: rest, s =>
      match D.bindCol s sl i with
      | (some e, s) => (some e, s)
      | (none, s) => bindCols sl rest s

/-- `ReaderBindSlot`. -/
def bindSlot (r : OdbcReader δ) (s : δ) (sl : Nat) : Option AdbcError × δ :=
  let s := D.setRowStatusPtr s sl
  let s := if r.noRowsFetchedPtr then s else (D.setRowsFetchedPtr s (some sl)).2
  bindCols D sl r.boundCols s

/-- `ReaderBind`, up to the slots: the rowset and whether the widths may adapt. -/
def sizeRowset (r : OdbcReader δ) : OdbcReader δ :=
  let allBound := r.cols.all (·.bound)
  let rows := rowsetRows r.opts r.cols allBound
  let adaptOpen :=
    r.opts.getdataRepair && decide (1 < rows) && !r.opts.fixedRowset &&
      r.cols.any fun c => c.bound && c.clipped
  { r with
    allBound
    capacity := max rows r.opts.minBufferRows
    rowsetFull := rows
    adaptOpen
    rowsPerFetch :=
      if adaptOpen = true ∧ r.opts.minBufferRows = 0 ∧ adaptProbeRows < rows then adaptProbeRows
      else rows }

/-- Set the rowset, and fall back to single rows on a driver without block cursors. -/
def setRowset (r : OdbcReader δ) : OdbcReader δ :=
  match D.setRowArraySize r.cursor r.rowsPerFetch with
  | (none, s) => { r with cursor := s }
  | (some _, s) => { r with rowsPerFetch := 1, cursor := (D.setRowArraySize s 1).2 }

/-- The probe of `SQL_ATTR_ROWS_FETCHED_PTR`; a driver without it fetches single rows. -/
def probeRowsFetchedPtr (r : OdbcReader δ) : OdbcReader δ :=
  match D.setRowsFetchedPtr r.cursor none with
  | (none, s) => { r with cursor := s }
  | (some _, s) =>
      { r with
        noRowsFetchedPtr := true
        rowsPerFetch := 1
        cursor := (D.setRowArraySize s 1).2 }

/-- A driver that refused the block cursor outright has nothing to adapt. -/
def settleRowset (r : OdbcReader δ) : OdbcReader δ :=
  if r.rowsPerFetch ≤ 1 then { r with adaptOpen := false, rowsetFull := 1 } else r

/-- `ReaderBind`, less the prefetching. -/
def readerBind (r : OdbcReader δ) : Option AdbcError × OdbcReader δ :=
  let r := settleRowset (probeRowsFetchedPtr D (setRowset D (sizeRowset r)))
  match bindSlot D r r.cursor 0 with
  | (some e, s) => (some e, { r with cursor := s })
  | (none, s) => (none, { r with cursor := s, bound := true })

/-! ## Adapting the widths -/

/-- Give up the binding of column `i`. -/
def OdbcReader.unbind (r : OdbcReader δ) (i : Nat) : OdbcReader δ :=
  { r with cols := r.cols.modify i fun c => { c with bound := false, clipped := false } }

/-- The loop of `ReaderUnbindFrom`. -/
def unbindCols : List Nat → OdbcReader δ → Option AdbcError × OdbcReader δ
  | [], r => (none, { r with allBound := false })
  | i :: rest, r =>
      if (r.col i).bound then
        match D.unbindCol r.cursor i with
        | (some e, s) => (some e, { r with cursor := s })
        | (none, s) => unbindCols rest ({ r with cursor := s }.unbind i)
      else unbindCols rest r

/-- `ReaderUnbindFrom`. -/
def unbindFrom (r : OdbcReader δ) (first : Nat) : Option AdbcError × OdbcReader δ :=
  let cols := List.range' first (r.ncols - first)
  if 1 < r.rowsPerFetch then
    match resizeRowset D r 1 with
    | (false, s) => (none, { r with cursor := s, rowsetRestore := !r.opts.fixedRowset })
    | (true, s) => unbindCols D cols { r with cursor := s, rowsPerFetch := 1 }
  else unbindCols D cols r

/-- What `AdaptBindWidth` charges column `i` for the values of a rowset that did not fit. -/
def chargeTruncated (rowset : Rowset v) (fetched i : Nat) (c : OdbcColumn) : OdbcColumn :=
  if c.bound && c.clipped then
    { c with
      truncBytes := c.truncBytes + ((List.range fetched).map fun row =>
        if boundValueTruncated c (rowset.cell row i).ind then
          max (rowset.cell row i).ind.toNat c.elemSize
        else 0).sum }
  else c

def charged (r : OdbcReader δ) (rowset : Rowset v) (fetched : Nat) : OdbcReader δ :=
  { r with
    cols := r.cols.mapIdx (chargeTruncated rowset fetched)
    adaptRows := r.adaptRows + fetched }

/-- A clipped column that cost more than it saved. -/
def overBudget (adaptRows : Nat) (c : OdbcColumn) : Bool :=
  c.bound && c.clipped && decide (adaptRows * adaptRereadBudget < c.truncBytes)

/-- The decision of `AdaptBindWidth`, once its window is over. -/
def settleWidths (r : OdbcReader δ) : Option AdbcError × OdbcReader δ :=
  match r.cols.findIdx? (overBudget r.adaptRows) with
  | some i => unbindFrom D { r with adaptOpen := false } i
  | none => (none, { r with adaptOpen := false, rowsetRestore := true })

/-- `AdaptBindWidth`. -/
def adaptBindWidth (r : OdbcReader δ) (rowset : Rowset v) (fetched : Nat) :
    Option AdbcError × OdbcReader δ :=
  if (charged r rowset fetched).adaptRows < adaptWindowRows then
    (none, charged r rowset fetched)
  else settleWidths D (charged r rowset fetched)

/-! ## Sessions -/

/-- What `get_next` has come to. -/
inductive Outcome where
  | reading
  | ended
  | failed (e : AdbcError)
deriving DecidableEq, Repr

structure Session (δ v : Type*) where
  reader : OdbcReader δ
  batch : Option (Batch v) := none
  delivered : List (Batch v) := []
  outcome : Outcome := .reading

namespace Session

/-- `ReaderGetNext` reports an error; the batch under construction is released. -/
def fail (S : Session δ v) (r : OdbcReader δ) (e : AdbcError) : Session δ v :=
  { S with reader := { r with done := true }, batch := none, outcome := .failed e }

/-- Take the full rowset back at the start of a batch. -/
def restoreRowset (r : OdbcReader δ) : OdbcReader δ :=
  if r.rowsetRestore then
    match resizeRowset D r r.rowsetFull with
    | (true, s) => { r with rowsetRestore := false, cursor := s, rowsPerFetch := r.rowsetFull }
    | (false, s) => { r with rowsetRestore := false, cursor := s }
  else r

/-- A call of `get_next` up to the loop. -/
def begin (S : Session δ v) : Session δ v :=
  if S.reader.done then { S with outcome := .ended }
  else if S.reader.bound then { S with reader := restoreRowset D S.reader, batch := some {} }
  else
    match readerBind D S.reader with
    | (some e, r) => S.fail r e
    | (none, r) => { S with reader := restoreRowset D r, batch := some {} }

/-- Whether the loop of `ReaderNextBatch` goes on; a rowset that would take the batch
past `batch_size` waits for the next one. -/
def wantsRowset (S : Session δ v) (batch : Batch v) : Bool :=
  (decide (batch.total = 0) ||
    decide (batch.total + S.reader.rowsPerFetch ≤ S.reader.opts.batchSize)) && !S.reader.done

/-- Whether the loop reads this rowset again row by row. -/
def repairs (r : OdbcReader δ) (rowset : Rowset v) (fetched : Nat) (bulk : Bool) : Bool :=
  bulk && r.rowsSeenExact && decide (1 < r.rowsPerFetch) && !r.opts.getdataRepair &&
    r.opts.refetchRepair && !r.opts.fixedRowset && rowsetTruncated r rowset fetched

/-- The loop after a repair: once most rowsets had to be repaired, fetch single rows. -/
def repaired (r : OdbcReader δ) : OdbcReader δ :=
  let r := { r with rowsetsRepaired := r.rowsetsRepaired + 1 }
  if 4 ≤ r.rowsetsRepaired ∧ r.rowsetsRead * 3 ≤ r.rowsetsRepaired * 4 then
    match resizeRowset D r 1 with
    | (true, s) => { r with cursor := s, rowsPerFetch := 1 }
    | (false, s) => { r with cursor := s }
  else r

/-- The reader has read another rowset. -/
def counted (r : OdbcReader δ) (fetched : Nat) (bulk : Bool) : OdbcReader δ :=
  { r with
    rowsSeen := r.rowsSeen + fetched
    rowsSeenExact := r.rowsSeenExact && bulk
    rowsetsRead := r.rowsetsRead + 1 }

/-- The loop after a conversion. -/
def converted (r : OdbcReader δ) (rowset : Rowset v) (fetched : Nat) (bulk : Bool) :
    Option AdbcError × OdbcReader δ :=
  if r.adaptOpen && bulk then adaptBindWidth D r rowset fetched else (none, r)

/-- A turn of the loop, from a rowset on. -/
def take (S : Session δ v) (batch : Batch v) (rowset : Rowset v) : Session δ v :=
  let fetched := resolveFetched S.reader rowset
  let bulk := rowsetIsBulk rowset fetched
  let first := S.reader.rowsSeen + 1
  let r := counted S.reader fetched bulk
  if repairs r rowset fetched bulk then
    match repairRowset D r first fetched batch.columns with
    | (.error e, s) => S.fail { r with cursor := s } e
    | (.ok columns, s) =>
        { S with
          reader := repaired D { r with cursor := s }
          batch := some { columns, total := batch.total + fetched } }
  else
    match convertRowset D r rowset fetched bulk r.cursor batch with
    | (.error e, s) => S.fail { r with cursor := s } e
    | (.ok batch, s) =>
        match converted D { r with cursor := s } rowset fetched bulk with
        | (some e, r) => S.fail r e
        | (none, r) => { S with reader := r, batch := some batch }

/-- A turn of the loop. -/
def turn (S : Session δ v) (batch : Batch v) : Session δ v :=
  match D.fetch S.reader.cursor with
  | (.noData, s) => { S with reader := { S.reader with cursor := s, done := true } }
  | (.failed e, s) => S.fail { S.reader with cursor := s } e
  | (.rows rowset, s) => take D { S with reader := { S.reader with cursor := s } } batch rowset

/-- The end of `ReaderNextBatch`. -/
def finish (S : Session δ v) (batch : Batch v) : Session δ v :=
  if batch.total = 0 then { S with batch := none, outcome := .ended }
  else { S with batch := none, delivered := S.delivered ++ [batch] }

/-- What the caller of `get_next` does next, or the call it is in: begin a call, a turn
of the loop, or its end. -/
def advance (S : Session δ v) : Session δ v :=
  match S.outcome, S.batch with
  | .reading, none => S.begin D
  | .reading, some batch => if S.wantsRowset batch then S.turn D batch else S.finish batch
  | _, _ => S

end Session

end NextBatch

/-! ## What stays -/

/-- What no turn of a bound reader changes. -/
structure Kept where
  opts : OdbcReaderOptions
  ncols : Nat
  bound : Bool
  noRowsFetchedPtr : Bool
  capacity : Nat
  rowsetFull : Nat

section Kept

variable {δ v : Type*} (D : Driver δ v)

def OdbcReader.kept (r : OdbcReader δ) : Kept :=
  ⟨r.opts, r.ncols, r.bound, r.noRowsFetchedPtr, r.capacity, r.rowsetFull⟩

/-- A reader without what the calls of `ReaderBind` settle. -/
def OdbcReader.unsized (r : OdbcReader δ) : OdbcReader Unit :=
  { r with
    cursor := ()
    rowsPerFetch := 0
    rowsetFull := 0
    adaptOpen := false
    noRowsFetchedPtr := false
    bound := false }

theorem setRowset_unsized (r : OdbcReader δ) : (setRowset D r).unsized = r.unsized := by
  unfold setRowset
  split <;> rfl

theorem probeRowsFetchedPtr_unsized (r : OdbcReader δ) :
    (probeRowsFetchedPtr D r).unsized = r.unsized := by
  unfold probeRowsFetchedPtr
  split <;> rfl

theorem settleRowset_unsized (r : OdbcReader δ) : (settleRowset r).unsized = r.unsized := by
  unfold settleRowset
  split <;> rfl

theorem readerBind_unsized (r : OdbcReader δ) :
    (readerBind D r).2.unsized = (sizeRowset r).unsized := by
  have hsized : (settleRowset (probeRowsFetchedPtr D (setRowset D (sizeRowset r)))).unsized =
      (sizeRowset r).unsized :=
    (settleRowset_unsized _).trans
      ((probeRowsFetchedPtr_unsized D _).trans (setRowset_unsized D _))
  unfold readerBind
  dsimp only
  split <;> exact hsized

theorem readerBind_bound {r r' : OdbcReader δ} (h : readerBind D r = (none, r')) :
    r'.bound = true := by
  unfold readerBind at h
  dsimp only at h
  split at h
  · simp at h
  · exact (Prod.mk.inj h).2 ▸ rfl

theorem readerBind_unbound {r r' : OdbcReader δ} {e : AdbcError}
    (h : readerBind D r = (some e, r')) : r'.bound = r.bound := by
  have hsettle : ∀ r : OdbcReader δ, (settleRowset r).bound = r.bound := by
    intro r
    unfold settleRowset
    split <;> rfl
  have hprobe : ∀ r : OdbcReader δ, (probeRowsFetchedPtr D r).bound = r.bound := by
    intro r
    unfold probeRowsFetchedPtr
    split <;> rfl
  have hset : (setRowset D (sizeRowset r)).bound = r.bound := by
    unfold setRowset
    split <;> rfl
  unfold readerBind at h
  dsimp only at h
  split at h
  · rw [← (Prod.mk.inj h).2]
    exact (hsettle _).trans ((hprobe _).trans hset)
  · simp at h

theorem unbind_kept (r : OdbcReader δ) (i : Nat) : (r.unbind i).kept = r.kept := by
  simp [OdbcReader.kept, OdbcReader.unbind, OdbcReader.ncols]

theorem unbindCols_kept (cols : List Nat) (r : OdbcReader δ) :
    (unbindCols D cols r).2.kept = r.kept := by
  induction cols generalizing r with
  | nil => rfl
  | cons i rest ih =>
      rw [unbindCols]
      split
      · split
        · rfl
        · exact (ih _).trans (unbind_kept _ i)
      · exact ih r

theorem unbindFrom_kept (r : OdbcReader δ) (first : Nat) :
    (unbindFrom D r first).2.kept = r.kept := by
  unfold unbindFrom
  dsimp only
  split
  · split
    · rfl
    · exact unbindCols_kept D _ _
  · exact unbindCols_kept D _ r

theorem charged_kept (r : OdbcReader δ) (rowset : Rowset v) (fetched : Nat) :
    (charged r rowset fetched).kept = r.kept := by
  simp [OdbcReader.kept, charged, OdbcReader.ncols]

theorem settleWidths_kept (r : OdbcReader δ) : (settleWidths D r).2.kept = r.kept := by
  unfold settleWidths
  split
  · exact unbindFrom_kept D _ _
  · rfl

theorem adaptBindWidth_kept (r : OdbcReader δ) (rowset : Rowset v) (fetched : Nat) :
    (adaptBindWidth D r rowset fetched).2.kept = r.kept := by
  unfold adaptBindWidth
  split
  · exact charged_kept r rowset fetched
  · exact (settleWidths_kept D _).trans (charged_kept r rowset fetched)

namespace Session

theorem restoreRowset_kept (r : OdbcReader δ) : (restoreRowset D r).kept = r.kept := by
  unfold restoreRowset
  split
  · split <;> rfl
  · rfl

theorem repaired_kept (r : OdbcReader δ) : (repaired D r).kept = r.kept := by
  unfold repaired
  dsimp only
  split
  · split <;> rfl
  · rfl

theorem converted_kept (r : OdbcReader δ) (rowset : Rowset v) (fetched : Nat) (bulk : Bool) :
    (converted D r rowset fetched bulk).2.kept = r.kept := by
  unfold converted
  split
  · exact adaptBindWidth_kept D r rowset fetched
  · rfl

theorem take_kept (S : Session δ v) (batch : Batch v) (rowset : Rowset v) :
    (S.take D batch rowset).reader.kept = S.reader.kept := by
  unfold take
  dsimp only
  split
  · split
    · rfl
    · exact repaired_kept D _
  · split
    · rfl
    · rename_i s _
      have hkept := converted_kept D
        { counted S.reader (resolveFetched S.reader rowset)
            (rowsetIsBulk rowset (resolveFetched S.reader rowset)) with cursor := s }
        rowset (resolveFetched S.reader rowset)
        (rowsetIsBulk rowset (resolveFetched S.reader rowset))
      split <;> rename_i heq <;> rw [heq] at hkept <;> exact hkept

theorem turn_kept (S : Session δ v) (batch : Batch v) :
    (S.turn D batch).reader.kept = S.reader.kept := by
  unfold turn
  split
  · rfl
  · rfl
  · exact take_kept D _ batch _

end Session

end Kept

/-- A reader as `OdbcReaderInit` leaves it. -/
def readerInit {δ : Type*} (opts : OdbcReaderOptions) (declared : List (List Char × Declared))
    (cursor : δ) : OdbcReader δ :=
  { opts, cols := describeColumns opts declared, cursor }

def Session.start {δ v : Type*} (r : OdbcReader δ) : Session δ v := { reader := r }

end AdbcBridge.Reader
