import AdbcBridge.Adbc.ArrowBits
import AdbcBridge.Adbc.DateTime
import AdbcBridge.Lib.Binary32
import AdbcBridge.Lib.Bytes

/-!
# The builder side of `struct ArrowArray`

The array of one column while rows are appended to it, with the validity bitmap that comes
into being with the first null, and the appends of nanoarrow one value at a time.  What a
reader of the array sees are its length, its null count, its validity, its offsets, and the
values where they are valid; memory behind a null is of no account.
-/

namespace AdbcBridge.Adbc

open AdbcBridge.Lib AdbcBridge.Lib.Bits

/-! ## Appending to a buffer -/

namespace ArrowBuffer

/-- `ArrowBufferAppend`. -/
def append (b : ArrowBuffer) (bytes : List UInt8) : ArrowBuffer :=
  let b := b.reserve bytes.length
  (b.write b.sizeBytes bytes).setSize (b.sizeBytes + bytes.length) <| by
    unfold write overlay
    rw [List.length_append, List.length_append, List.length_take, Nat.min_eq_left b.size_le]
    omega

/-- `ArrowBufferAppendFill`. -/
def appendFill (b : ArrowBuffer) (v : UInt8) (n : Nat) : ArrowBuffer :=
  b.append (List.replicate n v)

/-- `ArrowBitSetTo` in the memory of a buffer. -/
def bitSetTo (b : ArrowBuffer) (i : Nat) (v : Bool) : ArrowBuffer where
  data := arrowBitSetTo b.data i v
  sizeBytes := b.sizeBytes
  size_le := by
    rw [length_arrowBitSetTo]
    exact b.size_le

theorem append_sizeBytes (b : ArrowBuffer) (bytes : List UInt8) :
    (b.append bytes).sizeBytes = b.sizeBytes + bytes.length := by
  show (b.reserve bytes.length).sizeBytes + bytes.length = b.sizeBytes + bytes.length
  rw [reserve_sizeBytes]

/-- What is in use grows by the bytes. -/
theorem append_content (b : ArrowBuffer) (bytes : List UInt8) :
    (b.append bytes).content = b.content ++ bytes := by
  have hreserve := b.reserve_content bytes.length
  have hsize := b.reserve_sizeBytes bytes.length
  have hle := (b.reserve bytes.length).size_le
  calc
    (b.append bytes).content =
        (overlay (b.reserve bytes.length).data (b.reserve bytes.length).sizeBytes bytes).take
          ((b.reserve bytes.length).sizeBytes + bytes.length) := rfl
    _ = (b.reserve bytes.length).content ++ bytes := take_overlay hle bytes
    _ = b.content ++ bytes := by rw [hreserve]

theorem bitSetTo_content (b : ArrowBuffer) {i : Nat} (h : i < 8 * b.sizeBytes) (v : Bool)
    (j : Nat) :
    bitAt (b.bitSetTo i v).data j = if j = i then v else bitAt b.data j := by
  have hle := b.size_le
  exact bitAt_arrowBitSetTo (by omega) v j

end ArrowBuffer

/-! ## The array -/

/-- The storage types of the columns that a reader builds. -/
inductive ArrowStorage where
  | bool
  | int8
  | int16
  | int32
  | int64
  | uint8
  | uint16
  | uint32
  | uint64
  | float
  | double
  | decimal128
  | string
  | binary
deriving DecidableEq, Repr

namespace ArrowStorage

/-- The bytes of a value of fixed width, `layout.element_size_bits[1] / 8`. -/
def elementBytes : ArrowStorage → Nat
  | .int8 | .uint8 => 1
  | .int16 | .uint16 => 2
  | .int32 | .uint32 | .float => 4
  | .int64 | .uint64 | .double => 8
  | .decimal128 => 16
  | .bool | .string | .binary => 0

/-- The types with offsets into a buffer of bytes. -/
def hasOffsets : ArrowStorage → Bool
  | .string | .binary => true
  | _ => false

end ArrowStorage

/-- `struct ArrowArray` with its private data; the first buffer has the values of fixed width
or the offsets, the second the bytes of strings. -/
structure ArrowArray where
  storageType : ArrowStorage
  length : Nat
  nullCount : Nat
  bitmap : ArrowBitmap
  buffer1 : ArrowBuffer
  buffer2 : ArrowBuffer

/-- `ArrowErrorCode`, less `NANOARROW_OK`. -/
inductive ArrowErrorCode where
  | einval
  | eoverflow
deriving DecidableEq, Repr

namespace ArrowArray

/-- `ArrowArrayInitFromType` and `ArrowArrayStartAppending`. -/
def startAppending (storageType : ArrowStorage) : ArrowArray where
  storageType
  length := 0
  nullCount := 0
  bitmap := { data := [], sizeBits := 0 }
  buffer1 := if storageType.hasOffsets then ArrowBuffer.init.append (Bytes.intDigits 4 0)
    else ArrowBuffer.init
  buffer2 := ArrowBuffer.init

/-- An offset. -/
def offsetAt (a : ArrowArray) (i : Nat) : Int := Bytes.intValue (Bytes.slot 4 a.buffer1.content i)

/-- The buffer of a boolean array with zeros up to `bytes`. -/
def fillTo (b : ArrowBuffer) (bytes : Nat) : ArrowBuffer :=
  if b.sizeBytes < bytes then b.appendFill 0 (bytes - b.sizeBytes) else b

/-- `_ArrowArrayAppendBits` for one bit. -/
def appendBits (a : ArrowArray) (v : Bool) : ArrowArray :=
  { a with buffer1 := (fillTo a.buffer1 (arrowBytesForBits (a.length + 1))).bitSetTo a.length v }

/-- The end of every append of a value. -/
def finishAppend (a : ArrowArray) : ArrowArray :=
  { a with
    bitmap := if a.bitmap.data ≠ [] then a.bitmap.append true 1 else a.bitmap
    length := a.length + 1 }

/-- A value of fixed width. -/
def appendFixed (a : ArrowArray) (bytes : List UInt8) : ArrowArray :=
  finishAppend { a with buffer1 := a.buffer1.append bytes }

/-- `ArrowArrayAppendNull` for one row. -/
def appendNull (a : ArrowArray) : ArrowArray :=
  let bitmap :=
    if a.bitmap.data = [] then (a.bitmap.materialise a.length 1).appendUnsafe false 1
    else a.bitmap.append false 1
  let a' :=
    match a.storageType with
    | .string | .binary =>
        { a with buffer1 := a.buffer1.append (Bytes.slot 4 a.buffer1.content a.length) }
    | .bool => appendBits a false
    | s => { a with buffer1 := a.buffer1.appendFill 0 s.elementBytes }
  { a' with bitmap, length := a.length + 1, nullCount := a.nullCount + 1 }

/-- The cases of `ArrowArrayAppendUInt` for unsigned storage. -/
def appendUnsigned (a : ArrowArray) (v : Nat) : Except ArrowErrorCode ArrowArray :=
  let bytes := a.storageType.elementBytes
  if v < 256 ^ bytes then .ok (appendFixed a (Bytes.digits bytes v)) else .error .einval

/-- The cases of `ArrowArrayAppendInt` for signed storage. -/
def appendSigned (a : ArrowArray) (v : Int) : Except ArrowErrorCode ArrowArray :=
  let bytes := a.storageType.elementBytes
  if InSigned (8 * bytes) v then .ok (appendFixed a (Bytes.intDigits bytes v)) else .error .einval

/-- `ArrowArrayAppendInt`; no column appends an integer to floats. -/
def appendInt (a : ArrowArray) (v : Int) : Except ArrowErrorCode ArrowArray :=
  match a.storageType with
  | .int8 | .int16 | .int32 | .int64 => appendSigned a v
  | .uint8 | .uint16 | .uint32 | .uint64 =>
      if 0 ≤ v then appendUnsigned a v.toNat else .error .einval
  | .bool => .ok (finishAppend (appendBits a (decide (v ≠ 0))))
  | _ => .error .einval

/-- `ArrowArrayAppendUInt`; no column appends an integer to floats. -/
def appendUInt (a : ArrowArray) (v : Nat) : Except ArrowErrorCode ArrowArray :=
  match a.storageType with
  | .uint8 | .uint16 | .uint32 | .uint64 => appendUnsigned a v
  | .int8 | .int16 | .int32 | .int64 =>
      if v < 2 ^ 63 then appendSigned a v else .error .einval
  | .bool => .ok (finishAppend (appendBits a (decide (v ≠ 0))))
  | _ => .error .einval

/-- `ArrowArrayAppendDouble`, of the bits of a `double`. -/
def appendDouble (a : ArrowArray) (v : Nat) : Except ArrowErrorCode ArrowArray :=
  match a.storageType with
  | .double => .ok (appendFixed a (Bytes.digits 8 v))
  | .float => .ok (appendFixed a (Bytes.digits 4 (Binary32.narrow v)))
  | _ => .error .einval

/-- `ArrowArrayAppendBytes`. -/
def appendBytes (a : ArrowArray) (bytes : List UInt8) : Except ArrowErrorCode ArrowArray :=
  match a.storageType with
  | .string | .binary =>
      let offset := a.offsetAt a.length
      if 2147483647 < offset + bytes.length then .error .eoverflow
      else .ok <| finishAppend
        { a with
          buffer1 := a.buffer1.append (Bytes.intDigits 4 (offset + bytes.length))
          buffer2 := a.buffer2.append bytes }
  | _ => .error .einval

/-- `ArrowArrayAppendString`; string and binary storage take it alike. -/
def appendString (a : ArrowArray) (text : List UInt8) : Except ArrowErrorCode ArrowArray :=
  appendBytes a text

/-! ## What a reader sees -/

/-- The value of a row. -/
inductive Value where
  | bit (v : Bool)
  /-- The bits of a single; all NaNs are one value. -/
  | single (bits : Option Nat)
  | bytes (v : List UInt8)
deriving DecidableEq, Repr

/-- A value of fixed width, of its bytes. -/
def fixedValue (s : ArrowStorage) (bytes : List UInt8) : Value :=
  match s with
  | .float =>
      let bits := Bytes.value bytes
      .single (if Binary32.isNaN bits then none else some bits)
  | _ => .bytes bytes

/-- The value at a row, which means something where the row is valid. -/
def valueAt (a : ArrowArray) (i : Nat) : Value :=
  match a.storageType with
  | .bool => .bit (bitAt a.buffer1.content i)
  | .string | .binary =>
      .bytes ((a.buffer2.content.drop (a.offsetAt i).toNat).take
        (a.offsetAt (i + 1) - a.offsetAt i).toNat)
  | s => fixedValue s (Bytes.slot s.elementBytes a.buffer1.content i)

def validAt (a : ArrowArray) (i : Nat) : Bool := a.bitmap.isValid i

/-- Two builds of one array. -/
structure Same (a b : ArrowArray) : Prop where
  storageType : a.storageType = b.storageType
  length : a.length = b.length
  nullCount : a.nullCount = b.nullCount
  validity : ∀ i < a.length, a.validAt i = b.validAt i
  offsets : a.storageType.hasOffsets = true → ∀ i ≤ a.length, a.offsetAt i = b.offsetAt i
  values : ∀ i < a.length, a.validAt i = true → a.valueAt i = b.valueAt i

/-- What every builder array keeps to: its buffers have what its rows take, and the offsets
lie in the bytes, the last one at their end. -/
structure Built (a : ArrowArray) : Prop where
  bitmap : a.bitmap.Built a.length
  fixed : a.storageType ≠ .bool → a.storageType.hasOffsets = false →
    a.buffer1.sizeBytes = a.storageType.elementBytes * a.length
  bits : a.storageType = .bool → a.buffer1.sizeBytes = arrowBytesForBits a.length
  offsets : a.storageType.hasOffsets = true →
    a.buffer1.sizeBytes = 4 * (a.length + 1) ∧
      (∀ i ≤ a.length, 0 ≤ a.offsetAt i ∧ a.offsetAt i ≤ a.buffer2.sizeBytes) ∧
      a.offsetAt a.length = a.buffer2.sizeBytes

/-! ## Rows appended -/

/-- The bytes that a row takes behind the offsets. -/
def extent : Option Value → Nat
  | some (.bytes v) => v.length
  | _ => 0

/-- A row is this value, or NULL. -/
structure Shows (a : ArrowArray) (i : Nat) (x : Option Value) : Prop where
  valid : a.validAt i = x.isSome
  value : ∀ v, x = some v → a.valueAt i = v
  offset : a.storageType.hasOffsets = true → a.offsetAt (i + 1) = a.offsetAt i + extent x

/-- The rows of the one array are the first rows of the other. -/
structure Keeps (a b : ArrowArray) : Prop where
  storageType : b.storageType = a.storageType
  validity : ∀ i < a.length, b.validAt i = a.validAt i
  values : ∀ i < a.length, b.valueAt i = a.valueAt i
  offsets : a.storageType.hasOffsets = true → ∀ i ≤ a.length, b.offsetAt i = a.offsetAt i

/-- The array after these rows were appended. -/
structure Appends (a b : ArrowArray) (xs : List (Option Value)) : Prop extends Keeps a b where
  length : b.length = a.length + xs.length
  nullCount : b.nullCount = a.nullCount + xs.countP Option.isNone
  rows : ∀ k x, xs[k]? = some x → b.Shows (a.length + k) x

namespace Appends

theorem refl (a : ArrowArray) : Appends a a [] where
  storageType := rfl
  validity _ _ := rfl
  values _ _ := rfl
  offsets _ _ _ := rfl
  length := rfl
  nullCount := rfl
  rows k x h := by
    rw [List.getElem?_nil] at h
    cases h

theorem trans {a b c : ArrowArray} {xs ys : List (Option Value)} (hab : Appends a b xs)
    (hbc : Appends b c ys) : Appends a c (xs ++ ys) := by
  have hlength := hab.length
  have htype := hab.storageType
  constructor
  · constructor
    · rw [hbc.storageType, hab.storageType]
    · intro i hi
      rw [hbc.validity i (by omega), hab.validity i hi]
    · intro i hi
      rw [hbc.values i (by omega), hab.values i hi]
    · intro hoffsets i hi
      rw [hbc.offsets (by rw [htype]; exact hoffsets) i (by omega), hab.offsets hoffsets i hi]
  · rw [hbc.length, hab.length, List.length_append, Nat.add_assoc]
  · rw [hbc.nullCount, hab.nullCount, List.countP_append, Nat.add_assoc]
  · intro k x hx
    by_cases hk : k < xs.length
    · rw [List.getElem?_append_left hk] at hx
      have hrow := hab.rows k x hx
      constructor
      · rw [hbc.validity _ (by omega), hrow.valid]
      · intro v hv
        rw [hbc.values _ (by omega), hrow.value v hv]
      · intro hoffsets
        rw [hbc.storageType] at hoffsets
        rw [hbc.offsets hoffsets _ (by omega), hbc.offsets hoffsets _ (by omega),
          hrow.offset hoffsets]
    · rw [List.getElem?_append_right (by omega)] at hx
      have hrow := hbc.rows _ x hx
      have hplace : b.length + (k - xs.length) = a.length + k := by omega
      rwa [hplace] at hrow

/-- The same rows appended in two ways make one array. -/
theorem same {a b c : ArrowArray} {xs : List (Option Value)} (hab : Appends a b xs)
    (hac : Appends a c xs) : Same b c := by
  have hlength := hab.length
  have hnew : ∀ i, a.length ≤ i → i < b.length →
      ∃ x, b.Shows i x ∧ c.Shows i x := by
    intro i hle hlt
    have hx := List.getElem?_eq_getElem (l := xs) (i := i - a.length) (by omega)
    have hb := hab.rows _ _ hx
    have hc := hac.rows _ _ hx
    rw [Nat.add_sub_cancel' hle] at hb hc
    exact ⟨_, hb, hc⟩
  constructor
  · rw [hab.storageType, hac.storageType]
  · rw [hab.length, hac.length]
  · rw [hab.nullCount, hac.nullCount]
  · intro i hi
    by_cases hold : i < a.length
    · rw [hab.validity i hold, hac.validity i hold]
    · obtain ⟨x, hb, hc⟩ := hnew i (by omega) hi
      rw [hb.valid, hc.valid]
  · intro hoffsets i hi
    rw [hab.storageType] at hoffsets
    -- behind the old rows, from one offset to the next
    induction i with
    | zero =>
        rw [hab.offsets hoffsets 0 (by omega), hac.offsets hoffsets 0 (by omega)]
    | succ i ih =>
        by_cases hold : i + 1 ≤ a.length
        · rw [hab.offsets hoffsets _ hold, hac.offsets hoffsets _ hold]
        · obtain ⟨x, hb, hc⟩ := hnew i (by omega) (by omega)
          rw [hb.offset (by rw [hab.storageType]; exact hoffsets),
            hc.offset (by rw [hac.storageType]; exact hoffsets), ih (by omega)]
  · intro i hi hvalid
    by_cases hold : i < a.length
    · rw [hab.values i hold, hac.values i hold]
    · obtain ⟨x, hb, hc⟩ := hnew i (by omega) hi
      rw [hb.valid] at hvalid
      obtain ⟨v, hv⟩ := Option.isSome_iff_exists.mp hvalid
      rw [hb.value v hv, hc.value v hv]

end Appends

/-- `n` rows, of which some are valid. -/
def cells (n : Nat) (valid : Nat → Bool) (value : Nat → Value) : List (Option Value) :=
  (List.range n).map fun k => if valid k then some (value k) else none

theorem length_cells (n : Nat) (valid : Nat → Bool) (value : Nat → Value) :
    (cells n valid value).length = n := by
  unfold cells
  rw [List.length_map, List.length_range]

theorem cells_succ (n : Nat) (valid : Nat → Bool) (value : Nat → Value) :
    cells (n + 1) valid value =
      cells n valid value ++ [if valid n then some (value n) else none] := by
  unfold cells
  rw [List.range_succ, List.map_append, List.map_singleton]

/-- What is behind a NULL does not matter. -/
theorem cells_congr {n : Nat} {valid : Nat → Bool} {value value' : Nat → Value}
    (h : ∀ k < n, valid k = true → value k = value' k) :
    cells n valid value = cells n valid value' := by
  unfold cells
  apply List.map_congr_left
  intro k hk
  by_cases hvalid : valid k = true
  · rw [if_pos hvalid, if_pos hvalid, h k (List.mem_range.mp hk) hvalid]
  · rw [if_neg hvalid, if_neg hvalid]

/-- The rows among `n` that are NULL. -/
def countNulls (n : Nat) (valid : Nat → Bool) : Nat := (List.range n).countP fun k => !valid k

theorem countP_cells (n : Nat) (valid : Nat → Bool) (value : Nat → Value) :
    (cells n valid value).countP Option.isNone = countNulls n valid := by
  unfold cells countNulls
  rw [List.countP_map]
  apply List.countP_congr
  intro k _
  dsimp only [Function.comp]
  cases valid k <;> simp

theorem getElem?_cells {n : Nat} {valid : Nat → Bool} {value : Nat → Value} {k : Nat}
    {x : Option Value} (h : (cells n valid value)[k]? = some x) :
    k < n ∧ x = if valid k then some (value k) else none := by
  unfold cells at h
  rw [List.getElem?_map, Option.map_eq_some_iff] at h
  obtain ⟨j, hj, hx⟩ := h
  have hk : k < n := by
    by_contra hge
    rw [List.getElem?_eq_none (by rw [List.length_range]; omega)] at hj
    cases hj
  rw [List.getElem?_range hk, Option.some.injEq] at hj
  exact ⟨hk, by rw [← hx, hj]⟩

theorem cells_getElem? {n k : Nat} (hk : k < n) (valid : Nat → Bool) (value : Nat → Value) :
    (cells n valid value)[k]? = some (if valid k then some (value k) else none) := by
  unfold cells
  rw [List.getElem?_map, List.getElem?_range hk]
  rfl

/-- The offset behind some texts. -/
theorem Appends.offset_texts {a b : ArrowArray} {n : Nat} {valid : Nat → Bool}
    {text : Nat → List UInt8} (h : Appends a b (cells n valid fun k => .bytes (text k)))
    (hoff : a.storageType.hasOffsets = true) (hnull : ∀ k < n, valid k = false → text k = [])
    {j : Nat} (hj : j ≤ n) :
    b.offsetAt (a.length + j) = a.offsetAt a.length + (Bytes.blocks j text).length := by
  induction j with
  | zero =>
      rw [Nat.add_zero, h.offsets hoff _ (Nat.le_refl _)]
      exact (Int.add_zero _).symm
  | succ j ih =>
      have hrow := (h.rows j _ (cells_getElem? (by omega) _ _)).offset
        (by rw [h.storageType]; exact hoff)
      have hextent : extent (if valid j then some (.bytes (text j)) else none) =
          (text j).length := by
        cases hvalid : valid j with
        | true => rfl
        | false =>
            rw [hnull j (by omega) hvalid]
            rfl
      rw [← Nat.add_assoc, hrow, hextent, ih (by omega), Bytes.blocks_succ, List.length_append]
      push_cast
      omega

/-- An array with `n` more rows, whatever its buffers have. -/
structure Grows (a b : ArrowArray) (n : Nat) (valid : Nat → Bool) : Prop where
  storageType : b.storageType = a.storageType
  length : b.length = a.length + n
  nullCount : b.nullCount = a.nullCount + countNulls n valid
  bitmap : a.bitmap.Extended b.bitmap a.length n valid

section Rows

variable {a b : ArrowArray} {n : Nat} {valid : Nat → Bool}

theorem Grows.appends {value : Nat → Value} (h : Grows a b n valid)
    (hold : ∀ i < a.length, b.valueAt i = a.valueAt i)
    (hoffsets : a.storageType.hasOffsets = true → ∀ i ≤ a.length, b.offsetAt i = a.offsetAt i)
    (hnew : ∀ k < n, valid k = true → b.valueAt (a.length + k) = value k)
    (hextent : a.storageType.hasOffsets = true → ∀ k < n,
      b.offsetAt (a.length + k + 1) = b.offsetAt (a.length + k) +
        extent (if valid k then some (value k) else none)) :
    Appends a b (cells n valid value) where
  storageType := h.storageType
  validity := h.bitmap.old
  values := hold
  offsets := hoffsets
  length := by rw [h.length, length_cells]
  nullCount := by rw [h.nullCount, countP_cells]
  rows k x hx := by
    obtain ⟨hk, rfl⟩ := getElem?_cells hx
    constructor
    · show b.bitmap.isValid (a.length + k) = _
      rw [h.bitmap.new k hk]
      cases valid k <;> rfl
    · intro v hv
      by_cases hvalid : valid k = true
      · rw [if_pos hvalid, Option.some.injEq] at hv
        rw [hnew k hk hvalid, hv]
      · rw [if_neg hvalid] at hv
        cases hv
    · intro hoff
      rw [h.storageType] at hoff
      exact hextent hoff k hk

/-! ### Values of fixed width -/

theorem valueAt_fixed (hbool : a.storageType ≠ .bool) (hoff : a.storageType.hasOffsets = false)
    (i : Nat) : a.valueAt i = fixedValue a.storageType
      (Bytes.slot a.storageType.elementBytes a.buffer1.content i) := by
  unfold valueAt
  split
  · rename_i hs
    exact absurd hs hbool
  · rename_i hs
    rw [hs] at hoff
    cases hoff
  · rename_i hs
    rw [hs] at hoff
    cases hoff
  · rfl

/-- A block of slots behind the ones there are. -/
theorem Grows.fixed {row : Nat → List UInt8} {block : List UInt8} (h : Grows a b n valid)
    (hbuilt : a.Built) (hbool : a.storageType ≠ .bool)
    (hoff : a.storageType.hasOffsets = false)
    (hcontent : b.buffer1.content = a.buffer1.content ++ block)
    (hblock : block.length = a.storageType.elementBytes * n)
    (hrow : ∀ k < n, valid k = true →
      Bytes.slot a.storageType.elementBytes block k = row k) :
    b.Built ∧ Appends a b (cells n valid fun k => fixedValue a.storageType (row k)) := by
  have hsize : a.buffer1.content.length = a.storageType.elementBytes * a.length := by
    rw [ArrowBuffer.length_content, hbuilt.fixed hbool hoff]
  have hboolb : b.storageType ≠ .bool := by
    rw [h.storageType]
    exact hbool
  have hoffb : b.storageType.hasOffsets = false := by
    rw [h.storageType]
    exact hoff
  constructor
  · constructor
    · rw [h.length]
      exact h.bitmap.built
    · intro _ _
      rw [← ArrowBuffer.length_content, hcontent, List.length_append, hsize, hblock,
        h.storageType, h.length, Nat.mul_add]
    · intro hs
      exact absurd hs hboolb
    · intro hs
      rw [hoffb] at hs
      cases hs
  · apply h.appends
    · intro i hi
      rw [valueAt_fixed hboolb hoffb, valueAt_fixed hbool hoff, h.storageType, hcontent,
        Bytes.slot_append_left]
      rw [hsize]
      exact Nat.mul_le_mul_left _ hi
    · intro hs
      rw [hoff] at hs
      cases hs
    · intro k hk hvalid
      rw [valueAt_fixed hboolb hoffb, h.storageType, hcontent, Bytes.slot_append_right hsize,
        hrow k hk hvalid]
    · intro hs
      rw [hoff] at hs
      cases hs

/-! ### Bits -/

theorem valueAt_bool (hbool : a.storageType = .bool) (i : Nat) :
    a.valueAt i = .bit (bitAt a.buffer1.content i) := by
  unfold valueAt
  rw [hbool]

/-- Bits behind the ones there are. -/
theorem Grows.bits {bit : Nat → Bool} (h : Grows a b n valid) (hbuilt : a.Built)
    (hbool : a.storageType = .bool)
    (hsize : b.buffer1.sizeBytes = arrowBytesForBits (a.length + n))
    (hold : ∀ i < a.length, bitAt b.buffer1.data i = bitAt a.buffer1.data i)
    (hnew : ∀ k < n, valid k = true → bitAt b.buffer1.data (a.length + k) = bit k) :
    b.Built ∧ Appends a b (cells n valid fun k => .bit (bit k)) := by
  have hboolb : b.storageType = .bool := by rw [h.storageType, hbool]
  have hrooma := le_arrowBytesForBits a.length
  have hroomb := le_arrowBytesForBits (a.length + n)
  have hnoOffsets : ArrowStorage.bool.hasOffsets = false := rfl
  constructor
  · constructor
    · rw [h.length]
      exact h.bitmap.built
    · intro hs
      exact absurd hboolb hs
    · intro _
      rw [hsize, h.length]
    · intro hs
      rw [hboolb, hnoOffsets] at hs
      cases hs
  · apply h.appends
    · intro i hi
      have hasize := hbuilt.bits hbool
      rw [valueAt_bool hboolb, valueAt_bool hbool]
      unfold ArrowBuffer.content
      rw [bitAt_take (by omega), bitAt_take (by omega), hold i hi]
    · intro hs
      rw [hbool, hnoOffsets] at hs
      cases hs
    · intro k hk hvalid
      rw [valueAt_bool hboolb]
      unfold ArrowBuffer.content
      rw [bitAt_take (by omega), hnew k hk hvalid]
    · intro hs
      rw [hbool, hnoOffsets] at hs
      cases hs

/-! ### Strings -/

theorem valueAt_bytes (hoff : a.storageType.hasOffsets = true) (i : Nat) :
    a.valueAt i = .bytes ((a.buffer2.content.drop (a.offsetAt i).toNat).take
      (a.offsetAt (i + 1) - a.offsetAt i).toNat) := by
  unfold valueAt
  cases hs : a.storageType with
  | string | binary => rfl
  | _ =>
      rw [hs] at hoff
      cases hoff

/-- The offsets behind a start, one for the end of each text. -/
def endsBlock (start : Int) (n : Nat) (text : Nat → List UInt8) : List UInt8 :=
  Bytes.blocks n fun k => Bytes.intDigits 4 (start + (Bytes.blocks (k + 1) text).length)

theorem intValue_intDigits_int32 {v : Int} (h0 : 0 ≤ v) (h : v ≤ 2147483647) :
    Bytes.intValue (Bytes.intDigits 4 v) = v := by
  rw [Bytes.intValue_intDigits]
  apply Int.bmod_eq_of_le
  all_goals
    norm_num
    omega

/-- Texts behind the ones there are, with an offset for the end of each. -/
theorem Grows.texts {text : Nat → List UInt8} (h : Grows a b n valid) (hbuilt : a.Built)
    (hoff : a.storageType.hasOffsets = true)
    (hoffsets : b.buffer1.content =
      a.buffer1.content ++ endsBlock (a.offsetAt a.length) n text)
    (hdata : b.buffer2.content = a.buffer2.content ++ Bytes.blocks n text)
    (hfits : a.offsetAt a.length + (Bytes.blocks n text).length ≤ 2147483647)
    (hnull : ∀ k < n, valid k = false → text k = []) :
    b.Built ∧ Appends a b (cells n valid fun k => .bytes (text k)) := by
  obtain ⟨hsize, hrange, hlast⟩ := hbuilt.offsets hoff
  have hbool : a.storageType ≠ .bool := by
    intro hs
    rw [hs] at hoff
    cases hoff
  have hslots : a.buffer1.content.length = 4 * (a.length + 1) := by
    rw [ArrowBuffer.length_content, hsize]
  have hbytes : a.buffer2.content.length = (a.offsetAt a.length).toNat := by
    rw [ArrowBuffer.length_content, hlast, Int.toNat_natCast]
  have hstart : 0 ≤ a.offsetAt a.length := (hrange _ (Nat.le_refl _)).1
  have hwidth : ∀ k < n, (Bytes.intDigits 4
      (a.offsetAt a.length + (Bytes.blocks (k + 1) text).length)).length = 4 :=
    fun k _ => Bytes.length_intDigits 4 _
  -- the old offsets are kept, and behind them lie those of the texts
  have hkept : ∀ i ≤ a.length, b.offsetAt i = a.offsetAt i := by
    intro i hi
    unfold offsetAt
    rw [hoffsets, Bytes.slot_append_left]
    rw [hslots]
    omega
  have hend : ∀ k ≤ n, b.offsetAt (a.length + k) =
      a.offsetAt a.length + (Bytes.blocks k text).length := by
    intro k hk
    cases k with
    | zero =>
        rw [Nat.add_zero, hkept _ (Nat.le_refl _)]
        exact (Int.add_zero _).symm
    | succ k =>
        have hle := Bytes.length_blocks_le hk text
        have hplace : a.length + (k + 1) = a.length + 1 + k := by omega
        calc
          b.offsetAt (a.length + (k + 1)) =
              Bytes.intValue (Bytes.slot 4 b.buffer1.content (a.length + 1 + k)) := by
            rw [hplace]
            rfl
          _ = Bytes.intValue (Bytes.intDigits 4
              (a.offsetAt a.length + (Bytes.blocks (k + 1) text).length)) := by
            rw [hoffsets, Bytes.slot_append_right hslots]
            unfold endsBlock
            rw [Bytes.slot_blocks hwidth (by omega)]
          _ = a.offsetAt a.length + (Bytes.blocks (k + 1) text).length :=
            intValue_intDigits_int32 (by omega) (by omega)
  have hoffb : b.storageType.hasOffsets = true := by
    rw [h.storageType]
    exact hoff
  have hsizeb : (b.buffer2.sizeBytes : Int) =
      a.offsetAt a.length + (Bytes.blocks n text).length := by
    rw [← ArrowBuffer.length_content, hdata, List.length_append, hbytes]
    push_cast
    omega
  constructor
  · constructor
    · rw [h.length]
      exact h.bitmap.built
    · intro _ hs
      rw [hoffb] at hs
      cases hs
    · intro hs
      rw [h.storageType] at hs
      exact absurd hs hbool
    · intro _
      refine ⟨?_, ?_, ?_⟩
      · rw [← ArrowBuffer.length_content, hoffsets, List.length_append, hslots]
        unfold endsBlock
        rw [Bytes.length_blocks hwidth, h.length]
        omega
      · intro i hi
        rw [h.length] at hi
        by_cases hold : i ≤ a.length
        · have hi := hrange i hold
          rw [hkept i hold, hsizeb]
          omega
        · obtain ⟨k, rfl⟩ : ∃ k, i = a.length + k := ⟨i - a.length, by omega⟩
          have hle := Bytes.length_blocks_le (show k ≤ n by omega) text
          rw [hend k (by omega), hsizeb]
          omega
      · rw [h.length, hend n (Nat.le_refl _), hsizeb]
  · apply h.appends
    · intro i hi
      have hi0 := hrange i (by omega)
      have hi1 := hrange (i + 1) (by omega)
      rw [valueAt_bytes hoffb, valueAt_bytes hoff, hkept i (by omega), hkept (i + 1) (by omega),
        hdata, List.drop_append_of_le_length (by omega), List.take_append_of_le_length]
      rw [List.length_drop]
      omega
    · intro _
      exact hkept
    · intro k hk _
      obtain ⟨rest, hsplit⟩ := Bytes.blocks_split hk text
      have hstartk : (a.offsetAt a.length + (Bytes.blocks k text).length).toNat =
          (a.buffer2.content ++ Bytes.blocks k text).length := by
        rw [List.length_append, hbytes]
        omega
      have hsum : ((Bytes.blocks (k + 1) text).length : Int) =
          (Bytes.blocks k text).length + (text k).length := by
        rw [Bytes.blocks_succ, List.length_append]
        push_cast
        rfl
      have hlength : (a.offsetAt a.length + (Bytes.blocks (k + 1) text).length -
          (a.offsetAt a.length + (Bytes.blocks k text).length)).toNat = (text k).length := by
        omega
      rw [valueAt_bytes hoffb, Nat.add_assoc, hend k (by omega), hend (k + 1) (by omega), hlength,
        hdata, hsplit, hstartk, List.append_assoc, ← List.append_assoc a.buffer2.content,
        List.drop_left, List.take_left]
    · intro _ k hk
      rw [Nat.add_assoc, hend k (by omega), hend (k + 1) (by omega), Bytes.blocks_succ,
        List.length_append]
      cases hvalid : valid k with
      | false =>
          rw [hnull k hk hvalid]
          simp [extent]
      | true =>
          simp only [if_true, extent]
          push_cast
          omega

end Rows

/-! ## One value at a time -/

section Values

variable {a : ArrowArray}

theorem blocks_one (row : Nat → List UInt8) : Bytes.blocks 1 row = row 0 := by
  rw [Bytes.blocks_succ]
  rfl

/-- An array whose buffers have taken a value, before the end of the append. -/
theorem finishAppend_grows (hbuilt : a.Built) {b : ArrowArray}
    (htype : b.storageType = a.storageType) (hlength : b.length = a.length)
    (hnulls : b.nullCount = a.nullCount) (hbitmap : b.bitmap = a.bitmap) :
    Grows a (finishAppend b) 1 fun _ => true where
  storageType := htype
  length := congrArg (· + 1) hlength
  nullCount := hnulls
  bitmap := by
    show a.bitmap.Extended (if b.bitmap.data ≠ [] then b.bitmap.append true 1 else b.bitmap) _ _ _
    rw [hbitmap]
    by_cases hdata : a.bitmap.data = []
    · rw [if_neg (not_not.mpr hdata)]
      have hsize : a.bitmap.sizeBits = 0 := by
        rcases hbuilt.bitmap with ⟨_, hsize⟩ | ⟨hne, _⟩
        · exact hsize
        · exact absurd hdata hne
      exact ArrowBitmap.extended_nil hdata hsize fun _ _ => rfl
    · rw [if_pos hdata]
      exact ArrowBitmap.append_extended hbuilt.bitmap hdata (by omega) true

theorem appendFixed_spec (hbuilt : a.Built) (hbool : a.storageType ≠ .bool)
    (hoff : a.storageType.hasOffsets = false) {bytes : List UInt8}
    (hlength : bytes.length = a.storageType.elementBytes) :
    (appendFixed a bytes).Built ∧
      Appends a (appendFixed a bytes) [some (fixedValue a.storageType bytes)] := by
  have hgrows : Grows a (appendFixed a bytes) 1 fun _ => true :=
    finishAppend_grows hbuilt rfl rfl rfl rfl
  apply @Grows.fixed _ _ _ _ (fun _ => bytes) _ hgrows hbuilt hbool hoff
  · exact a.buffer1.append_content bytes
  · rw [hlength, Nat.mul_one]
  · intro k hk _
    obtain rfl : k = 0 := by omega
    unfold Bytes.slot
    rw [Nat.mul_zero, List.drop_zero, ← hlength, List.take_length]

/-- The memory of the bits has a place for one more. -/
theorem fillTo_spec (b : ArrowBuffer) {rows n : Nat}
    (hsize : b.sizeBytes = arrowBytesForBits rows) :
    (fillTo b (arrowBytesForBits (rows + n))).sizeBytes = arrowBytesForBits (rows + n) ∧
      ∀ i < rows, bitAt (fillTo b (arrowBytesForBits (rows + n))).data i = bitAt b.data i := by
  have hroom := le_arrowBytesForBits rows
  have hmono : arrowBytesForBits rows ≤ arrowBytesForBits (rows + n) := by
    unfold arrowBytesForBits
    split <;> split <;> omega
  unfold fillTo
  by_cases hmore : b.sizeBytes < arrowBytesForBits (rows + n)
  · rw [if_pos hmore]
    have hfilled : (b.appendFill 0 (arrowBytesForBits (rows + n) - b.sizeBytes)).sizeBytes =
        arrowBytesForBits (rows + n) := by
      unfold ArrowBuffer.appendFill
      rw [ArrowBuffer.append_sizeBytes, List.length_replicate]
      omega
    refine ⟨hfilled, ?_⟩
    intro i hi
    have hcontent := b.append_content
      (List.replicate (arrowBytesForBits (rows + n) - b.sizeBytes) 0)
    calc
      bitAt (b.appendFill 0 (arrowBytesForBits (rows + n) - b.sizeBytes)).data i =
          bitAt (b.appendFill 0 (arrowBytesForBits (rows + n) - b.sizeBytes)).content i := by
        unfold ArrowBuffer.content
        rw [bitAt_take]
        omega
      _ = bitAt b.content i := by
        unfold ArrowBuffer.appendFill
        rw [hcontent, bitAt_append_left]
        rw [ArrowBuffer.length_content]
        omega
      _ = bitAt b.data i := by
        unfold ArrowBuffer.content
        rw [bitAt_take]
        omega
  · rw [if_neg hmore]
    exact ⟨by omega, fun _ _ => rfl⟩

/-- One more bit, whatever becomes of the bitmap. -/
theorem appendBits_grows {b : ArrowArray} {valid : Nat → Bool} (h : Grows a b 1 valid)
    (hbuilt : a.Built) (hbool : a.storageType = .bool) {v : Bool}
    (hbuffer : b.buffer1 = (appendBits a v).buffer1) :
    b.Built ∧ Appends a b (cells 1 valid fun _ => .bit v) := by
  have hfill := fillTo_spec (n := 1) a.buffer1 (hbuilt.bits hbool)
  have hroom := le_arrowBytesForBits (a.length + 1)
  have hbits : ∀ j, bitAt b.buffer1.data j = if j = a.length then v
      else bitAt (fillTo a.buffer1 (arrowBytesForBits (a.length + 1))).data j := by
    intro j
    rw [hbuffer]
    exact ArrowBuffer.bitSetTo_content _ (by omega) v j
  apply h.bits hbuilt hbool
  · rw [hbuffer]
    exact hfill.1
  · intro i hi
    rw [hbits, if_neg (by omega), hfill.2 i hi]
  · intro k hk _
    rw [hbits, if_pos (by omega)]

theorem appendBit_spec (hbuilt : a.Built) (hbool : a.storageType = .bool) (v : Bool) :
    (finishAppend (appendBits a v)).Built ∧
      Appends a (finishAppend (appendBits a v)) [some (.bit v)] := by
  have hgrows : Grows a (finishAppend (appendBits a v)) 1 fun _ => true :=
    finishAppend_grows hbuilt rfl rfl rfl rfl
  exact appendBits_grows hgrows hbuilt hbool rfl

/-- A string is appended if its end can be an offset. -/
theorem appendBytes_spec (hbuilt : a.Built) (hoff : a.storageType.hasOffsets = true)
    {bytes : List UInt8} (hfits : a.offsetAt a.length + bytes.length ≤ 2147483647) :
    ∃ b, appendBytes a bytes = .ok b ∧ b.Built ∧ Appends a b [some (.bytes bytes)] := by
  obtain ⟨b, hb⟩ : ∃ b, b = finishAppend
      { a with
        buffer1 := a.buffer1.append (Bytes.intDigits 4 (a.offsetAt a.length + bytes.length))
        buffer2 := a.buffer2.append bytes } := ⟨_, rfl⟩
  have happend : appendBytes a bytes = .ok b := by
    unfold appendBytes
    cases hs : a.storageType with
    | string | binary =>
        dsimp only
        rw [if_neg (by omega), hb, hs]
    | _ =>
        rw [hs] at hoff
        cases hoff
  have hgrows : Grows a b 1 fun _ => true := by
    rw [hb]
    exact finishAppend_grows hbuilt rfl rfl rfl rfl
  refine ⟨b, happend, ?_⟩
  apply @Grows.texts _ _ _ _ (fun _ => bytes) hgrows hbuilt hoff
  · unfold endsBlock
    rw [blocks_one, blocks_one, hb]
    exact a.buffer1.append_content _
  · rw [blocks_one, hb]
    exact a.buffer2.append_content bytes
  · rw [blocks_one]
    exact hfits
  · intro k _ hk
    cases hk

/-- The bitmap that a NULL leaves. -/
theorem appendNull_grows (hbuilt : a.Built) : Grows a (appendNull a) 1 fun _ => false where
  storageType := by
    unfold appendNull
    dsimp only
    split <;> rfl
  length := rfl
  nullCount := rfl
  bitmap := by
    show a.bitmap.Extended
      (if a.bitmap.data = [] then (a.bitmap.materialise a.length 1).appendUnsafe false 1
        else a.bitmap.append false 1) _ _ _
    by_cases hdata : a.bitmap.data = []
    · rw [if_pos hdata]
      have hsize : a.bitmap.sizeBits = 0 := by
        rcases hbuilt.bitmap with ⟨_, hsize⟩ | ⟨hne, _⟩
        · exact hsize
        · exact absurd hdata hne
      obtain ⟨hrows, hroom, hones⟩ := ArrowBitmap.materialise_spec hsize a.length 1
      have hspec := @ArrowBitmap.appendUnsafe_spec (a.bitmap.materialise a.length 1) 1
        (by omega) false
      apply ArrowBitmap.extended_of_bits
      · apply ArrowBitmap.data_ne_nil (n := a.length + 1) (by omega)
        rw [hspec.1]
        exact hroom
      · show (a.bitmap.materialise a.length 1).sizeBits + 1 = a.length + 1
        rw [hrows]
      · rw [hspec.1]
        exact hroom
      · intro i hi
        rw [hspec.2, if_neg (by omega), hones i hi, ArrowBitmap.isValid_of_nil hdata]
      · intro k hk
        rw [hspec.2, if_pos (by omega)]
    · rw [if_neg hdata]
      exact ArrowBitmap.append_extended hbuilt.bitmap hdata (by omega) false

theorem appendNull_spec (hbuilt : a.Built) :
    (appendNull a).Built ∧ Appends a (appendNull a) [none] := by
  have hgrows := appendNull_grows hbuilt
  cases hs : a.storageType with
  | bool =>
      apply appendBits_grows (v := false) hgrows hbuilt hs
      unfold appendNull
      rw [hs]
  | string | binary =>
      have hoff : a.storageType.hasOffsets = true := by
        rw [hs]
        rfl
      obtain ⟨hsize, _, _⟩ := hbuilt.offsets hoff
      have hslot : (Bytes.slot 4 a.buffer1.content a.length).length = 4 := by
        apply Bytes.length_slot
        rw [ArrowBuffer.length_content, hsize]
      apply @Grows.texts _ _ _ _ (fun _ => []) hgrows hbuilt hoff
      · have hcopy : endsBlock (a.offsetAt a.length) 1 (fun _ => []) =
            Bytes.slot 4 a.buffer1.content a.length := by
          unfold endsBlock
          rw [blocks_one, blocks_one, List.length_nil]
          calc
            Bytes.intDigits 4 (a.offsetAt a.length + (0 : Nat)) =
                Bytes.intDigits 4 (a.offsetAt a.length) := congrArg _ (Int.add_zero _)
            _ = Bytes.slot 4 a.buffer1.content a.length := by
              have hwrite := Bytes.intDigits_intValue (Bytes.slot 4 a.buffer1.content a.length)
              rw [hslot] at hwrite
              exact hwrite
        unfold appendNull
        rw [hcopy, hs]
        exact a.buffer1.append_content _
      · unfold appendNull
        rw [hs, blocks_one, List.append_nil]
      · have hlt := Int.bmod_lt (x := Bytes.value (Bytes.slot 4 a.buffer1.content a.length))
          (m := 256 ^ (Bytes.slot 4 a.buffer1.content a.length).length) (by positivity)
        rw [blocks_one, List.length_nil]
        unfold offsetAt Bytes.intValue
        rw [hslot] at hlt ⊢
        norm_num at hlt ⊢
        omega
      · intro _ _ _
        rfl
  | _ =>
      have hbool : a.storageType ≠ .bool := by
        rw [hs]
        decide
      have hoff : a.storageType.hasOffsets = false := by
        rw [hs]
        rfl
      apply @Grows.fixed _ _ _ _ (fun _ => []) (List.replicate a.storageType.elementBytes 0) hgrows
        hbuilt hbool hoff
      · unfold appendNull
        rw [hs]
        exact a.buffer1.append_content _
      · rw [List.length_replicate, Nat.mul_one]
      · intro _ _ hvalid
        cases hvalid

theorem fixedValue_bytes {s : ArrowStorage} (h : s ≠ .float) (bytes : List UInt8) :
    fixedValue s bytes = .bytes bytes := by
  unfold fixedValue
  split
  · exact absurd rfl h
  · rfl

/-- An integer that fits is appended. -/
theorem appendSigned_spec (hbuilt : a.Built) (hbool : a.storageType ≠ .bool)
    (hoff : a.storageType.hasOffsets = false) (hfloat : a.storageType ≠ .float) {v : Int}
    (hv : InSigned (8 * a.storageType.elementBytes) v) :
    ∃ b, appendSigned a v = .ok b ∧ b.Built ∧
      Appends a b [some (.bytes (Bytes.intDigits a.storageType.elementBytes v))] := by
  have hspec := @appendFixed_spec a hbuilt hbool hoff
    (Bytes.intDigits a.storageType.elementBytes v) (Bytes.length_intDigits _ _)
  rw [fixedValue_bytes hfloat] at hspec
  exact ⟨_, if_pos hv, hspec⟩

theorem appendUnsigned_spec (hbuilt : a.Built) (hbool : a.storageType ≠ .bool)
    (hoff : a.storageType.hasOffsets = false) (hfloat : a.storageType ≠ .float) {v : Nat}
    (hv : v < 256 ^ a.storageType.elementBytes) :
    ∃ b, appendUnsigned a v = .ok b ∧ b.Built ∧
      Appends a b [some (.bytes (Bytes.digits a.storageType.elementBytes v))] := by
  have hspec := @appendFixed_spec a hbuilt hbool hoff
    (Bytes.digits a.storageType.elementBytes v) (Bytes.length_digits _ _)
  rw [fixedValue_bytes hfloat] at hspec
  exact ⟨_, if_pos hv, hspec⟩

end Values

/-- The array that the first row is appended to. -/
theorem startAppending_built (s : ArrowStorage) : (startAppending s).Built where
  bitmap := Or.inl ⟨rfl, rfl⟩
  fixed _ hoff := by
    have hbuffer : (startAppending s).buffer1 = ArrowBuffer.init := by
      unfold startAppending
      exact if_neg (by rw [show s.hasOffsets = false from hoff]; decide)
    rw [hbuffer]
    rfl
  bits hs := by
    have hbuffer : (startAppending s).buffer1 = ArrowBuffer.init := by
      unfold startAppending
      exact if_neg (by rw [show s = .bool from hs]; decide)
    have hnone : arrowBytesForBits 0 = 0 := by decide
    rw [hbuffer]
    exact hnone.symm
  offsets hoff := by
    have hbuffer : (startAppending s).buffer1 = ArrowBuffer.init.append (Bytes.intDigits 4 0) :=
      if_pos hoff
    have hcontent : (startAppending s).buffer1.content = Bytes.intDigits 4 0 := by
      rw [hbuffer, ArrowBuffer.append_content]
      rfl
    have hfirst : (startAppending s).offsetAt 0 = 0 := by
      unfold offsetAt
      rw [hcontent]
      decide
    refine ⟨?_, ?_, hfirst⟩
    · rw [← ArrowBuffer.length_content, hcontent]
      rfl
    · intro i hi
      obtain rfl : i = 0 := Nat.le_zero.mp hi
      rw [hfirst]
      exact ⟨Int.le_refl 0, Int.le_refl 0⟩

end ArrowArray

end AdbcBridge.Adbc
