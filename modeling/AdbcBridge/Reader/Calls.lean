import AdbcBridge.Reader.NextBatch
import Mathlib.Logic.Relation

/-!
# The calls of the reader

Which ODBC calls each function of the reader issues: it takes the cursor from one state
to another by calls of some kinds only.
-/

namespace AdbcBridge.Reader

open AdbcBridge.Adbc Relation

namespace Driver

variable {δ v : Type*} (D : Driver δ v)

/-- A call takes the cursor from a state to another. -/
def Issues (s : δ) : Call → δ → Prop
  | .setRowArraySize rows accepted, t =>
      (D.setRowArraySize s rows).2 = t ∧ (D.setRowArraySize s rows).1.isNone = accepted
  | .setRowsFetchedPtr slot, t => (D.setRowsFetchedPtr s slot).2 = t
  | .setRowStatusPtr slot, t => D.setRowStatusPtr s slot = t
  | .bindCol slot col, t => (D.bindCol s slot col).2 = t
  | .unbindCol col, t => (D.unbindCol s col).2 = t
  | .fetch, t => (D.fetch s).2 = t
  | .fetchAbsolute row, t => (D.fetchAbsolute s row).2 = t
  | .setPos row, t => (D.setPos s row).2 = t
  | .getData col, t => (D.getData s col).2 = t
  | .closeCursor, t => D.closeCursor s = t

/-- Calls that are all of the kind `P`. -/
def Calls (P : Call → Prop) : δ → δ → Prop :=
  ReflTransGen fun s t => ∃ c, P c ∧ D.Issues s c t

variable {D} {P Q : Call → Prop} {s t u : δ}

namespace Calls

theorem refl : D.Calls P s s := ReflTransGen.refl

theorem trans (h : D.Calls P s t) (h' : D.Calls P t u) : D.Calls P s u :=
  ReflTransGen.trans h h'

theorem call {c : Call} (hc : P c) (h : D.Issues s c t) : D.Calls P s t :=
  ReflTransGen.single ⟨c, hc, h⟩

theorem mono (h : D.Calls P s t) (hPQ : ∀ c, P c → Q c) : D.Calls Q s t :=
  ReflTransGen.mono (fun _ _ ⟨c, hc, hissues⟩ => ⟨c, hPQ c hc, hissues⟩) _ _ h

theorem of_eq (h : s = t) : D.Calls P s t := h ▸ refl

end Calls

theorem Issues.logged {s t : δ × List Call} {c : Call} (h : D.logged.Issues s c t) :
    t.2 = s.2 ++ [c] := by
  cases c with
  | setRowArraySize rows accepted =>
      obtain ⟨rfl, rfl⟩ := h
      rfl
  | _ => exact h ▸ rfl

/-- What the log of a driver says about the calls it has seen. -/
theorem Calls.logged {s t : δ × List Call} (h : D.logged.Calls P s t) :
    ∃ m, t.2 = s.2 ++ m ∧ ∀ c ∈ m, P c := by
  induction h with
  | refl => exact ⟨[], by simp⟩
  | tail _ hcall ih =>
      obtain ⟨m, hm, hP⟩ := ih
      obtain ⟨c, hc, hissues⟩ := hcall
      refine ⟨m ++ [c], by rw [hissues.logged, hm, List.append_assoc], ?_⟩
      intro c' hc'
      rcases List.mem_append.1 hc' with hc' | hc'
      · exact hP c' hc'
      · exact List.mem_singleton.1 hc' ▸ hc

end Driver

open Driver

/-- The calls that read a value of a row already fetched. -/
def Call.Reads : Call → Prop
  | .setPos _ | .getData _ => True
  | _ => False

/-- The calls that aim the handle at a slot. -/
def Call.Aims (sl : Nat) : Call → Prop
  | .setRowStatusPtr slot | .bindCol slot _ => slot = sl
  | .setRowsFetchedPtr slot => slot = some sl
  | _ => False

/-- A call aims the handle at one slot only. -/
theorem Call.Aims.aims_eq {c : Call} {sl sl' : Nat} (h : c.Aims sl) (h' : c.Aims sl') :
    sl' = sl := by
  cases c with
  | setRowStatusPtr slot => exact h'.symm.trans h
  | bindCol slot col => exact h'.symm.trans h
  | setRowsFetchedPtr slot => exact Option.some.inj (h'.symm.trans h)
  | _ => exact h.elim

def Call.Resizes : Call → Prop
  | .setRowArraySize _ _ => True
  | _ => False

def Call.Fetches : Call → Prop
  | .fetch | .fetchAbsolute _ => True
  | _ => False

section Conversion

variable {δ v : Type*} (D : Driver δ v) (r : OdbcReader δ)

theorem getDataLong_calls (s : δ) (i row : Nat) :
    D.Calls Call.Reads s (getDataLong D r s i row).2 := by
  have hcall : D.Calls Call.Reads s (D.getData s i).2 := .call (c := .getData i) trivial rfl
  unfold getDataLong
  split <;> rename_i hread <;> rw [hread] at hcall
  · exact hcall
  · split <;> exact hcall
  · exact hcall

theorem positionOnRow_calls (s : δ) (row : Nat) :
    D.Calls Call.Reads s (positionOnRow D r s row).2 := by
  unfold positionOnRow
  split
  · exact .refl
  · exact .call (c := .setPos (row + 1)) trivial rfl

theorem appendValue_calls (s : δ) (i row : Nat) (cell : Cell v) :
    D.Calls Call.Reads s (appendValue D r s i row cell).2 := by
  unfold appendValue
  split
  · split
    · have hposition := positionOnRow_calls D r s row
      split <;> rename_i hpos <;> rw [hpos] at hposition
      · exact hposition
      · exact hposition.trans (getDataLong_calls D r _ i row)
    · exact .refl
  · exact getDataLong_calls D r s i row

theorem convertCell_calls (s : δ) (i row : Nat) (cell : Cell v) (converter : Converter) :
    D.Calls Call.Reads s (convertCell D r s i row cell converter).2 := by
  cases converter with
  | appendValue => exact appendValue_calls D r s i row cell
  | bulkAppendColumn => exact .refl

theorem appendCells_calls (rowset : Rowset v) (converter : Nat → Converter)
    (cells : List (Nat × Nat)) (s : δ) (columns : Nat → List v) :
    D.Calls Call.Reads s (appendCells D r rowset converter cells s columns).2 := by
  induction cells generalizing s columns with
  | nil => exact .refl
  | cons cell rest ih =>
      have happend := convertCell_calls D r s cell.2 cell.1 (rowset.cell cell.1 cell.2)
        (converter cell.2)
      rw [appendCells]
      split <;> rename_i heq <;> rw [heq] at happend
      · exact happend
      · exact happend.trans (ih _ _)

theorem convertRows_calls (rowset : Rowset v) (rows : List Nat) (s : δ) (batch : Batch v) :
    D.Calls Call.Reads s (convertRows D r rowset rows s batch).2 := by
  induction rows generalizing s batch with
  | nil => exact .refl
  | cons row rest ih =>
      rw [convertRows]
      split
      · exact ih _ _
      · exact .refl
      · have happend := appendCells_calls D r rowset rowConverter (rowCells r row) s batch.columns
        split <;> rename_i heq <;> rw [heq] at happend
        · exact happend
        · exact happend.trans (ih _ _)

theorem convertRowset_calls (rowset : Rowset v) (fetched : Nat) (bulk : Bool) (s : δ)
    (batch : Batch v) :
    D.Calls Call.Reads s (convertRowset D r rowset fetched bulk s batch).2 := by
  unfold convertRowset
  split
  · have happend := appendCells_calls D r rowset (bulkConverter r rowset fetched)
      (bulkCells r fetched) s batch.columns
    split <;> rename_i heq <;> rw [heq] at happend <;> exact happend
  · exact convertRows_calls D r rowset _ s batch

theorem bindCols_calls (sl : Nat) (cols : List Nat) (s : δ) :
    D.Calls (Call.Aims sl) s (bindCols D sl cols s).2 := by
  induction cols generalizing s with
  | nil => exact .refl
  | cons i rest ih =>
      have hcall : D.Calls (Call.Aims sl) s (D.bindCol s sl i).2 :=
        .call (c := .bindCol sl i) rfl rfl
      rw [bindCols]
      split <;> rename_i heq <;> rw [heq] at hcall
      · exact hcall
      · exact hcall.trans (ih _)

theorem bindSlot_calls (s : δ) (sl : Nat) :
    D.Calls (Call.Aims sl) s (bindSlot D r s sl).2 := by
  have hstatus : D.Calls (Call.Aims sl) s (D.setRowStatusPtr s sl) :=
    .call (c := .setRowStatusPtr sl) rfl rfl
  unfold bindSlot
  refine hstatus.trans (.trans ?_ (bindCols_calls D sl _ _))
  split
  · exact .refl
  · exact .call (c := .setRowsFetchedPtr (some sl)) rfl rfl

end Conversion

section Rowset

variable {δ v : Type*} (D : Driver δ v)

theorem setRowset_calls (r : OdbcReader δ) :
    D.Calls (fun c => ¬ c.Fetches) r.cursor (setRowset D r).cursor := by
  have hcall : ∀ (s : δ) rows, D.Calls (fun c => ¬ c.Fetches) s (D.setRowArraySize s rows).2 :=
    fun s rows => .call (c := .setRowArraySize rows _) id ⟨rfl, rfl⟩
  have hset := hcall r.cursor r.rowsPerFetch
  unfold setRowset
  split <;> rename_i heq <;> rw [heq] at hset
  · exact hset
  · exact hset.trans (hcall _ 1)

theorem probeRowsFetchedPtr_calls (r : OdbcReader δ) :
    D.Calls (fun c => ¬ c.Fetches) r.cursor (probeRowsFetchedPtr D r).cursor := by
  have hprobe : D.Calls (fun c => ¬ c.Fetches) r.cursor (D.setRowsFetchedPtr r.cursor none).2 :=
    .call (c := .setRowsFetchedPtr none) id rfl
  unfold probeRowsFetchedPtr
  split <;> rename_i heq <;> rw [heq] at hprobe
  · exact hprobe
  · exact hprobe.trans (.call (c := .setRowArraySize 1 _) id ⟨rfl, rfl⟩)

theorem Call.Aims.not_fetches {c : Call} {sl : Nat} (h : c.Aims sl) : ¬ c.Fetches := by
  cases c <;> first | exact id | exact h.elim

theorem Call.Aims.not_resizes {c : Call} {sl : Nat} (h : c.Aims sl) : ¬ c.Resizes := by
  cases c <;> first | exact id | exact h.elim

theorem Call.Reads.not_resizes {c : Call} (h : c.Reads) : ¬ c.Resizes := by
  cases c <;> first | exact id | exact h.elim

/-- `ReaderBind` fetches nothing. -/
theorem readerBind_calls (r : OdbcReader δ) :
    D.Calls (fun c => ¬ c.Fetches) r.cursor (readerBind D r).2.cursor := by
  have hsettle : ∀ r : OdbcReader δ, (settleRowset r).cursor = r.cursor := by
    intro r
    unfold settleRowset
    split <;> rfl
  have hrowset : D.Calls (fun c => ¬ c.Fetches) r.cursor
      (settleRowset (probeRowsFetchedPtr D (setRowset D (sizeRowset r)))).cursor := by
    rw [hsettle]
    exact (setRowset_calls D (sizeRowset r)).trans (probeRowsFetchedPtr_calls D _)
  unfold readerBind
  dsimp only
  generalize settleRowset (probeRowsFetchedPtr D (setRowset D (sizeRowset r))) = b at hrowset ⊢
  have hbind : D.Calls (fun c => ¬ c.Fetches) b.cursor (bindSlot D b b.cursor 0).2 :=
    (bindSlot_calls D b b.cursor 0).mono fun _ hc => Call.Aims.not_fetches hc
  split <;> rename_i heq <;> rw [heq] at hbind <;> exact hrowset.trans hbind

/-! On a driver of fixed rowsets no turn of the loop resizes. -/

theorem unbindCols_calls (cols : List Nat) (r : OdbcReader δ) :
    D.Calls (fun c => ¬ c.Resizes) r.cursor (unbindCols D cols r).2.cursor := by
  induction cols generalizing r with
  | nil => exact .refl
  | cons i rest ih =>
      rw [unbindCols]
      split
      · have hcall : D.Calls (fun c => ¬ c.Resizes) r.cursor (D.unbindCol r.cursor i).2 :=
          .call (c := .unbindCol i) id rfl
        split <;> rename_i heq <;> rw [heq] at hcall
        · exact hcall
        · rename_i s
          exact hcall.trans (ih ({ r with cursor := s }.unbind i))
      · exact ih r

variable {r : OdbcReader δ}

theorem resizeRowset_fixed (hfixed : r.opts.fixedRowset = true) (rows : Nat) :
    resizeRowset D r rows = (false, r.cursor) := by
  rw [resizeRowset, if_pos hfixed]

theorem unbindFrom_calls (hfixed : r.opts.fixedRowset = true) (first : Nat) :
    D.Calls (fun c => ¬ c.Resizes) r.cursor (unbindFrom D r first).2.cursor := by
  unfold unbindFrom
  dsimp only
  split
  · rw [resizeRowset_fixed D hfixed]
    exact .refl
  · exact unbindCols_calls D _ r

theorem adaptBindWidth_calls (hfixed : r.opts.fixedRowset = true) (rowset : Rowset v)
    (fetched : Nat) :
    D.Calls (fun c => ¬ c.Resizes) r.cursor (adaptBindWidth D r rowset fetched).2.cursor := by
  unfold adaptBindWidth settleWidths
  split
  · exact .refl
  · split
    · exact unbindFrom_calls D (r := { charged r rowset fetched with adaptOpen := false }) hfixed _
    · exact .refl

namespace Session

theorem converted_calls (hfixed : r.opts.fixedRowset = true) (rowset : Rowset v)
    (fetched : Nat) (bulk : Bool) :
    D.Calls (fun c => ¬ c.Resizes) r.cursor (converted D r rowset fetched bulk).2.cursor := by
  unfold converted
  split
  · exact adaptBindWidth_calls D hfixed rowset fetched
  · exact .refl

theorem take_calls (S : Session δ v) (hfixed : S.reader.opts.fixedRowset = true)
    (batch : Batch v) (rowset : Rowset v) :
    D.Calls (fun c => ¬ c.Resizes) S.reader.cursor (S.take D batch rowset).reader.cursor := by
  have hconvert := (convertRowset_calls D (counted S.reader (resolveFetched S.reader rowset)
    (rowsetIsBulk rowset (resolveFetched S.reader rowset))) rowset
    (resolveFetched S.reader rowset) (rowsetIsBulk rowset (resolveFetched S.reader rowset))
    S.reader.cursor batch).mono fun _ hc => Call.Reads.not_resizes hc
  unfold take
  dsimp only
  rw [if_neg (by simp [repairs, counted, hfixed])]
  split <;> rename_i heq <;> rw [show (counted S.reader _ _).cursor = S.reader.cursor from rfl]
    at heq <;> rw [heq] at hconvert
  · exact hconvert
  · rename_i s
    have hadapt := converted_calls D
      (r := { counted S.reader (resolveFetched S.reader rowset)
        (rowsetIsBulk rowset (resolveFetched S.reader rowset)) with cursor := s })
      hfixed rowset (resolveFetched S.reader rowset)
      (rowsetIsBulk rowset (resolveFetched S.reader rowset))
    split <;> rename_i heq <;> rw [heq] at hadapt <;> exact hconvert.trans hadapt

theorem turn_calls (S : Session δ v) (hfixed : S.reader.opts.fixedRowset = true)
    (batch : Batch v) :
    D.Calls (fun c => ¬ c.Resizes) S.reader.cursor (S.turn D batch).reader.cursor := by
  have hfetch : D.Calls (fun c => ¬ c.Resizes) S.reader.cursor (D.fetch S.reader.cursor).2 :=
    .call (c := .fetch) id rfl
  unfold turn
  split <;> rename_i heq <;> rw [heq] at hfetch
  · exact hfetch
  · exact hfetch
  · rename_i rowset s
    exact hfetch.trans
      (take_calls D { S with reader := { S.reader with cursor := s } } hfixed batch rowset)

end Session

end Rowset

end AdbcBridge.Reader
