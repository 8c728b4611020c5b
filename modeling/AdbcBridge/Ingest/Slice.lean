import AdbcBridge.Lib.Chop

/-!
# Slices of a batch

The pump of a parallel ingest cuts a long flat batch into slices by moving its
columns, the serial ingest reads the columns of the batch as it stands.  Buffers
are modelled by their elements: what the validity bitmap and the values say of
each physical place of a column.
-/

namespace AdbcBridge.Ingest.Slice

open AdbcBridge.Lib

variable {α : Type*}

/-- `ADBC_ODBC_INGEST_SLICE_ROWS`. -/
def ingestSliceRows : Nat := 16384

structure ArrowArray (α : Type*) where
  length : Nat
  nullCount : Int
  offset : Nat
  validity : Option (Nat → Bool)
  values : Nat → α
  children : List (ArrowArray α)
  dictionary : Option (ArrowArray α)

namespace ArrowArray

/-- `ArrowArrayViewIsNull`. -/
def isNull (c : ArrowArray α) (i : Nat) : Bool :=
  match c.validity with
  | none => false
  | some valid => !valid (c.offset + i)

def get (c : ArrowArray α) (i : Nat) : α := c.values (c.offset + i)

end ArrowArray

/-- What a row has in one column: NULL, a value, or an index that is out of the
range of its dictionary. -/
inductive Cell (α : Type*)
  | null
  | value (a : α)
  | badIndex

def cellOf (isNull : Bool) (a : α) : Cell α := if isNull then .null else .value a

/-- A plain column at a row. -/
def cellAt (c : ArrowArray α) (row : Nat) : Cell α := cellOf (c.isNull row) (c.get row)

/-- `SlotFromArrow`; `getInt` is `ArrowArrayViewGetIntUnsafe` on a stored element. -/
def slotFromArrow (getInt : α → Int) (c : ArrowArray α) (row : Nat) : Cell α :=
  match c.dictionary with
  | none => cellAt c row
  | some values =>
      let idx := if c.isNull row then 0 else getInt (c.get row)
      if idx < 0 ∨ (values.length : Int) ≤ idx then
        if c.isNull row then .null else .badIndex
      else
        cellOf (c.isNull row || values.isNull idx.toNat) (values.get idx.toNat)

/-- The rows `ExecuteRows` binds from a batch: the columns are read by row
number, whatever the offset of the batch. -/
def boundRows (getInt : α → Int) (a : ArrowArray α) : List (List (Cell α)) :=
  (List.range a.length).map fun row => a.children.map fun c => slotFromArrow getInt c row

/-- What `ArrowArrayViewSetArray` asks of a batch and its columns. -/
def viewAccepts (a : ArrowArray α) : Prop :=
  ∀ c ∈ a.children, a.offset + a.length ≤ c.length ∧
    (c.validity = none → c.nullCount = 0 ∨ c.offset + c.length = 0)

/-- A record batch that is legal Arrow: its columns reach to its end, and a column
without a bitmap has no NULL. -/
structure RecordBatch (α : Type*) where
  array : ArrowArray α
  reach : ∀ c ∈ array.children, array.offset + array.length ≤ c.length
  nulls : ∀ c ∈ array.children, c.validity = none → c.nullCount = 0

/-! ## Cutting -/

/-- `BatchIsFlat`. -/
def batchIsFlat (a : ArrowArray α) : Bool :=
  a.dictionary.isNone && a.validity.isNone &&
    a.children.all fun c => c.children.isEmpty && c.dictionary.isNone

/-- A column of a slice. -/
def sliceColumn (src : ArrowArray α) (off len : Nat) (c : ArrowArray α) : ArrowArray α :=
  { c with offset := c.offset + src.offset + off, length := len }

/-- `SliceMake`. -/
def sliceMake (src : ArrowArray α) (off len : Nat) : ArrowArray α :=
  { src with
    offset := 0
    length := len
    children := src.children.map (sliceColumn src off len) }

/-- What `PumpBatch` queues of a batch; `owned` is whether the `BatchOwner` could
be allocated. -/
def pumpBatch (owned : Bool) (a : ArrowArray α) : List (ArrowArray α) :=
  if a.length ≤ ingestSliceRows ∨ batchIsFlat a = false ∨ owned = false then [a]
  else (Chop.pieces ingestSliceRows a.length 0).map fun p => sliceMake a p.1 p.2

/-- The batch is cut. -/
def Cut (owned : Bool) (a : ArrowArray α) : Prop :=
  ingestSliceRows < a.length ∧ batchIsFlat a = true ∧ owned = true

/-- The columns repeat themselves after as many rows as the batch's offset. -/
def Repeats (a : ArrowArray α) : Prop :=
  ∀ c ∈ a.children, ∀ row < a.length, cellAt c (a.offset + row) = cellAt c row

/-- The pump and the serial ingest agree on the batch, and the slices are cut
as they should be. -/
structure Agrees (getInt : α → Int) (owned : Bool) (a : ArrowArray α) : Prop where
  rows : (pumpBatch owned a).flatMap (boundRows getInt) = boundRows getInt a
  accepted : viewAccepts a ∧ ∀ s ∈ pumpBatch owned a, viewAccepts s
  cut : Cut owned a → ∃ pieces : List (Nat × Nat),
    pumpBatch owned a = pieces.map (fun p => sliceMake a p.1 p.2) ∧
      (∀ p ∈ pieces, 0 < p.2 ∧ p.2 ≤ ingestSliceRows) ∧
      pieces.flatMap (fun p => List.range' p.1 p.2) = List.range a.length

/-! ## Reading a slice -/

section Reading

variable {getInt : α → Int} {owned : Bool} {a c : ArrowArray α} {off len row : Nat}

theorem slotFromArrow_plain (h : c.dictionary = none) (row : Nat) :
    slotFromArrow getInt c row = cellAt c row := by
  rw [slotFromArrow, h]

/-- A column of a slice reads from where the batch and the slice begin. -/
theorem cellAt_sliceColumn :
    cellAt (sliceColumn a off len c) row = cellAt c (a.offset + (off + row)) := by
  have hplace : (sliceColumn a off len c).offset + row = c.offset + (a.offset + (off + row)) := by
    dsimp only [sliceColumn]
    omega
  simp only [cellAt, ArrowArray.isNull, ArrowArray.get, hplace]
  rfl

theorem dictionary_of_flat (h : batchIsFlat a = true) (hc : c ∈ a.children) :
    c.dictionary = none := by
  simp only [batchIsFlat, Bool.and_eq_true, List.all_eq_true] at h
  simpa using (h.2 c hc).2

/-- The rows of the batch from the place its offset says. -/
def rowAt (a : ArrowArray α) (row : Nat) : List (Cell α) :=
  a.children.map fun c => cellAt c (a.offset + row)

theorem boundRows_sliceMake (h : batchIsFlat a = true) :
    boundRows getInt (sliceMake a off len) = (List.range' off len).map (rowAt a) := by
  have hrow : ∀ row, (sliceMake a off len).children.map (fun c => slotFromArrow getInt c row) =
      rowAt a (off + row) := by
    intro row
    rw [sliceMake, List.map_map, rowAt]
    apply List.map_congr_left
    intro c hc
    have hplain : c.dictionary = none := dictionary_of_flat h hc
    rw [Function.comp_apply, slotFromArrow_plain (by exact hplain), cellAt_sliceColumn]
  rw [boundRows, List.range'_eq_map_range, List.map_map]
  exact List.map_congr_left fun row _ => hrow row

theorem pumpBatch_cut (h : Cut owned a) :
    pumpBatch owned a =
      (Chop.pieces ingestSliceRows a.length 0).map fun p => sliceMake a p.1 p.2 := by
  rw [pumpBatch, if_neg]
  rintro (hshort | hflat | howned)
  · exact absurd h.1 (Nat.not_lt.2 hshort)
  · exact absurd h.2.1 (by simp [hflat])
  · exact absurd h.2.2 (by simp [howned])

theorem pumpBatch_whole (h : ¬Cut owned a) : pumpBatch owned a = [a] := by
  rw [pumpBatch, if_pos]
  by_contra hcut
  simp only [not_or, Bool.not_eq_false, Nat.not_le] at hcut
  exact h hcut

theorem pieces_cover_batch :
    (Chop.pieces ingestSliceRows a.length 0).flatMap (fun p => List.range' p.1 p.2) =
      List.range a.length := by
  rw [Chop.pieces_cover (by decide), Nat.sub_zero, List.range_eq_range']

/-- The slices together read the rows the batch has. -/
theorem rows_of_cut (h : Cut owned a) :
    (pumpBatch owned a).flatMap (boundRows getInt) = (List.range a.length).map (rowAt a) := by
  rw [pumpBatch_cut h, List.flatMap_map, ← pieces_cover_batch, List.map_flatMap]
  congr 1
  funext p
  exact boundRows_sliceMake h.2.1

theorem boundRows_flat (h : batchIsFlat a = true) :
    boundRows getInt a =
      (List.range a.length).map fun row => a.children.map fun c => cellAt c row := by
  apply List.map_congr_left
  intro row _
  exact List.map_congr_left fun c hc => slotFromArrow_plain (dictionary_of_flat h hc) row

theorem rows_eq_iff (h : Cut owned a) :
    (pumpBatch owned a).flatMap (boundRows getInt) = boundRows getInt a ↔ Repeats a := by
  rw [rows_of_cut h, boundRows_flat h.2.1, List.map_inj_left]
  simp only [rowAt, List.map_inj_left, List.mem_range]
  exact ⟨fun hrows c hc row hrow => hrows row hrow c hc,
    fun hrows row hrow c hc => hrows c hc row hrow⟩

end Reading

/-! ## Serial and parallel ingest -/

section Main

variable {getInt : α → Int} {owned : Bool}

theorem RecordBatch.accepted (b : RecordBatch α) : viewAccepts b.array := fun c hc =>
  ⟨b.reach c hc, fun hvalidity => Or.inl (b.nulls c hc hvalidity)⟩

theorem RecordBatch.slice_accepted (b : RecordBatch α) (off len : Nat) :
    viewAccepts (sliceMake b.array off len) := by
  intro s hs
  obtain ⟨c, hc, rfl⟩ := List.mem_map.1 hs
  exact ⟨by simp [sliceMake, sliceColumn], fun hvalidity => Or.inl (b.nulls c hc hvalidity)⟩

theorem RecordBatch.pump_accepted (b : RecordBatch α) :
    ∀ s ∈ pumpBatch owned b.array, viewAccepts s := by
  intro s hs
  by_cases hcut : Cut owned b.array
  · rw [pumpBatch_cut hcut] at hs
    obtain ⟨p, -, rfl⟩ := List.mem_map.1 hs
    exact b.slice_accepted p.1 p.2
  · rw [pumpBatch_whole hcut, List.mem_singleton] at hs
    rw [hs]
    exact b.accepted

theorem agrees_of_rows (b : RecordBatch α)
    (h : (pumpBatch owned b.array).flatMap (boundRows getInt) = boundRows getInt b.array) :
    Agrees getInt owned b.array where
  rows := h
  accepted := ⟨b.accepted, b.pump_accepted⟩
  cut hcut :=
    ⟨_, pumpBatch_cut hcut, fun _ hp => ⟨(Chop.mem_pieces hp).1, (Chop.mem_pieces hp).2.1⟩,
      pieces_cover_batch⟩

/-- The two ingests agree on a batch unless it is cut and has an offset, and
then only where its columns repeat themselves. -/
theorem agrees_iff (getInt : α → Int) (owned : Bool) (b : RecordBatch α) :
    Agrees getInt owned b.array ↔
      ¬Cut owned b.array ∨ b.array.offset = 0 ∨ Repeats b.array := by
  constructor
  · intro h
    by_cases hcut : Cut owned b.array
    · exact Or.inr (Or.inr ((rows_eq_iff hcut).1 h.rows))
    · exact Or.inl hcut
  · intro h
    apply agrees_of_rows
    by_cases hcut : Cut owned b.array
    · refine (rows_eq_iff hcut).2 ?_
      rcases h with h | h | h
      · exact absurd hcut h
      · intro c _ row _
        rw [h, Nat.zero_add]
      · exact h
    · rw [pumpBatch_whole hcut, List.flatMap_singleton]

/-- A batch that is itself a slice: one column, and the batch begins at its
second row. -/
def slicedBatch : RecordBatch Nat where
  array :=
    { length := 16385
      nullCount := 0
      offset := 1
      validity := none
      values := id
      children := [⟨16386, 0, 0, none, id, [], none⟩]
      dictionary := none }
  reach := by simp
  nulls := by simp

theorem slicedBatch_differs : ¬Agrees Int.ofNat true slicedBatch.array := by
  intro h
  have hcut : Cut true slicedBatch.array := ⟨by decide, rfl, rfl⟩
  have hrepeats := (rows_eq_iff hcut).1 h.rows _ (List.mem_singleton.2 rfl) 0 (by decide)
  exact nomatch hrepeats

end Main

end AdbcBridge.Ingest.Slice
