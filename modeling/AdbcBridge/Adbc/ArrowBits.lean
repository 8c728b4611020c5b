import AdbcBridge.Adbc.ArrowBuffer
import AdbcBridge.Lib.Bits

/-!
# Bits and bitmaps of nanoarrow

`ArrowBitSetTo` and `ArrowBitsSetTo` with their tables of masks, and `struct ArrowBitmap`, to
which bits are appended in memory that was reserved for them.
-/

namespace AdbcBridge.Adbc

open AdbcBridge.Lib AdbcBridge.Lib.Bits

/-! ## Bits -/

/-- `_ArrowkBitmask`. -/
def arrowkBitmask : List UInt8 := [1, 2, 4, 8, 16, 32, 64, 128]

/-- `_ArrowkPrecedingBitmask`. -/
def arrowkPrecedingBitmask : List UInt8 := [0, 1, 3, 7, 15, 31, 63, 127]

/-- `_ArrowkTrailingBitmask`. -/
def arrowkTrailingBitmask : List UInt8 := [255, 254, 252, 248, 240, 224, 192, 128]

/-- `ArrowBitSetTo`. -/
def arrowBitSetTo (bits : List UInt8) (i : Nat) (v : Bool) : List UInt8 :=
  bits.modify (i / 8) fun b => b ^^^ ((fillByte v ^^^ b) &&& byteAt arrowkBitmask (i % 8))

/-- `ArrowBitsSetTo`. -/
def arrowBitsSetTo (bits : List UInt8) (start length : Nat) (v : Bool) : List UInt8 :=
  if length = 0 then bits
  else
    let stop := start + length
    let bytesBegin := start / 8
    let bytesEnd := stop / 8 + 1
    let firstByteMask := byteAt arrowkPrecedingBitmask (start % 8)
    let lastByteMask := byteAt arrowkTrailingBitmask (stop % 8)
    if bytesEnd = bytesBegin + 1 then
      let onlyByteMask :=
        if stop % 8 = 0 then firstByteMask else firstByteMask ||| lastByteMask
      bits.modify bytesBegin fun b => blend onlyByteMask b (fillByte v)
    else
      let bits := bits.modify bytesBegin fun b => blend firstByteMask b (fillByte v)
      let bits :=
        if 2 < bytesEnd - bytesBegin then
          overlay bits (bytesBegin + 1) (List.replicate (bytesEnd - bytesBegin - 2) (fillByte v))
        else bits
      if stop % 8 = 0 then bits
      else bits.modify (bytesEnd - 1) fun b => blend lastByteMask b (fillByte v)

theorem length_arrowBitSetTo (bits : List UInt8) (i : Nat) (v : Bool) :
    (arrowBitSetTo bits i v).length = bits.length := List.length_modify _ _ _

theorem getLsbD_bitmask {i k : Nat} (hi : i < 8) (hk : k < 8) :
    (byteAt arrowkBitmask i).toBitVec.getLsbD k = decide (k = i) := by
  have hall : ∀ i < 8, ∀ k < 8,
      (byteAt arrowkBitmask i).toBitVec.getLsbD k = decide (k = i) := by decide
  exact hall i hi k hk

theorem getLsbD_precedingBitmask {i k : Nat} (hi : i < 8) (hk : k < 8) :
    (byteAt arrowkPrecedingBitmask i).toBitVec.getLsbD k = decide (k < i) := by
  have hall : ∀ i < 8, ∀ k < 8,
      (byteAt arrowkPrecedingBitmask i).toBitVec.getLsbD k = decide (k < i) := by decide
  exact hall i hi k hk

theorem getLsbD_trailingBitmask {i k : Nat} (hi : i < 8) (hk : k < 8) :
    (byteAt arrowkTrailingBitmask i).toBitVec.getLsbD k = decide (i ≤ k) := by
  have hall : ∀ i < 8, ∀ k < 8,
      (byteAt arrowkTrailingBitmask i).toBitVec.getLsbD k = decide (i ≤ k) := by decide
  exact hall i hi k hk

/-- The one bit is set. -/
theorem bitAt_arrowBitSetTo {bits : List UInt8} {i : Nat} (h : i < 8 * bits.length) (v : Bool)
    (j : Nat) : bitAt (arrowBitSetTo bits i v) j = if j = i then v else bitAt bits j := by
  have hi : i % 8 < 8 := Nat.mod_lt _ (by omega)
  have hj : j % 8 < 8 := Nat.mod_lt _ (by omega)
  unfold bitAt arrowBitSetTo
  rw [byteAt_modify (by omega)]
  by_cases hbyte : j / 8 = i / 8
  · rw [if_pos hbyte, UInt8.toBitVec_xor, UInt8.toBitVec_and, UInt8.toBitVec_xor,
      BitVec.getLsbD_xor, BitVec.getLsbD_and, BitVec.getLsbD_xor, getLsbD_fillByte v hj,
      getLsbD_bitmask hi hj, hbyte]
    by_cases hbit : j % 8 = i % 8
    · rw [if_pos (by omega), decide_eq_true hbit]
      cases v <;> simp
    · rw [if_neg (by omega), decide_eq_false hbit]
      simp
  · rw [if_neg hbyte, if_neg (by omega)]

/-- The bits of one byte after a stretch of it was set. -/
theorem getLsbD_blend_fill (mask b : UInt8) (v : Bool) {k : Nat} (hk : k < 8) :
    (blend mask b (fillByte v)).toBitVec.getLsbD k =
      if mask.toBitVec.getLsbD k then b.toBitVec.getLsbD k else v := by
  rw [getLsbD_blend mask b _ hk, getLsbD_fillByte v hk]

/-- The stretch is set, and no bit outside of it. -/
theorem arrowBitsSetTo_spec {bits : List UInt8} {start length : Nat}
    (h : start + length ≤ 8 * bits.length) (v : Bool) :
    (arrowBitsSetTo bits start length v).length = bits.length ∧
      ∀ i, bitAt (arrowBitsSetTo bits start length v) i =
        if start ≤ i ∧ i < start + length then v else bitAt bits i := by
  by_cases hempty : length = 0
  · unfold arrowBitsSetTo
    rw [if_pos hempty]
    refine ⟨rfl, ?_⟩
    intro i
    rw [if_neg (by omega)]
  · have hs : start % 8 < 8 := Nat.mod_lt _ (by omega)
    have he : (start + length) % 8 < 8 := Nat.mod_lt _ (by omega)
    unfold arrowBitsSetTo
    rw [if_neg hempty]
    dsimp only
    by_cases hone : (start + length) / 8 + 1 = start / 8 + 1
    · -- both ends lie in one byte
      rw [if_pos hone, if_neg (by omega)]
      refine ⟨List.length_modify _ _ _, ?_⟩
      intro i
      have hi : i % 8 < 8 := Nat.mod_lt _ (by omega)
      unfold bitAt
      rw [byteAt_modify (by omega)]
      by_cases hbyte : i / 8 = start / 8
      · rw [if_pos hbyte, getLsbD_blend_fill _ _ v hi, UInt8.toBitVec_or, BitVec.getLsbD_or,
          getLsbD_precedingBitmask hs hi, getLsbD_trailingBitmask he hi, hbyte]
        by_cases hin : start ≤ i ∧ i < start + length
        · rw [if_pos hin, if_neg]
          simp only [Bool.or_eq_true, decide_eq_true_eq]
          omega
        · rw [if_neg hin, if_pos]
          simp only [Bool.or_eq_true, decide_eq_true_eq]
          omega
      · rw [if_neg hbyte, if_neg (by omega)]
    · rw [if_neg hone]
      obtain ⟨first, hfirst⟩ : ∃ first, first = bits.modify (start / 8) fun b =>
          blend (byteAt arrowkPrecedingBitmask (start % 8)) b (fillByte v) := ⟨_, rfl⟩
      have hfirstLength : first.length = bits.length := by
        rw [hfirst, List.length_modify]
      have hfirstByte : ∀ k, byteAt first k = if k = start / 8 then
          blend (byteAt arrowkPrecedingBitmask (start % 8)) (byteAt bits (start / 8)) (fillByte v)
          else byteAt bits k := by
        intro k
        rw [hfirst, byteAt_modify (by omega)]
      obtain ⟨middle, hmiddle⟩ : ∃ middle, middle =
          if 2 < (start + length) / 8 + 1 - start / 8 then
            overlay first (start / 8 + 1)
              (List.replicate ((start + length) / 8 + 1 - start / 8 - 2) (fillByte v))
          else first := ⟨_, rfl⟩
      have hmiddleLength : middle.length = bits.length := by
        rw [hmiddle]
        split
        · rw [length_overlay, hfirstLength]
          rw [List.length_replicate]
          omega
        · exact hfirstLength
      have hmiddleByte : ∀ k, byteAt middle k =
          if start / 8 < k ∧ k < (start + length) / 8 then fillByte v else byteAt first k := by
        intro k
        rw [hmiddle]
        split
        · rw [byteAt_overlay, List.length_replicate]
          · by_cases hk : start / 8 < k ∧ k < (start + length) / 8
            · rw [if_pos (by omega), if_pos hk]
              unfold byteAt
              rw [List.getElem?_replicate, if_pos (by omega)]
              rfl
            · rw [if_neg (by omega), if_neg hk]
          · rw [List.length_replicate]
            omega
        · rw [if_neg (by omega)]
      rw [← hfirst, ← hmiddle]
      have hwhole : ∀ i, i % 8 < 8 := fun i => Nat.mod_lt _ (by omega)
      -- a byte before the last one, of the stretch or outside of it
      have hbefore : ∀ i, i / 8 ≠ (start + length) / 8 ∨ (start + length) % 8 = 0 →
          bitAt middle i = if start ≤ i ∧ i < start + length then v else bitAt bits i := by
        intro i hplace
        unfold bitAt
        rw [hmiddleByte]
        by_cases hinner : start / 8 < i / 8 ∧ i / 8 < (start + length) / 8
        · rw [if_pos hinner, getLsbD_fillByte v (hwhole i), if_pos (by omega)]
        · rw [if_neg hinner, hfirstByte]
          by_cases hbyte : i / 8 = start / 8
          · rw [if_pos hbyte, getLsbD_blend_fill _ _ v (hwhole i),
              getLsbD_precedingBitmask hs (hwhole i), hbyte]
            by_cases hin : start ≤ i ∧ i < start + length
            · rw [if_pos hin, if_neg]
              rw [decide_eq_true_eq]
              omega
            · rw [if_neg hin, if_pos]
              rw [decide_eq_true_eq]
              omega
          · rw [if_neg hbyte, if_neg (by omega)]
      by_cases hround : (start + length) % 8 = 0
      · rw [if_pos hround]
        exact ⟨hmiddleLength, fun i => hbefore i (Or.inr hround)⟩
      · rw [if_neg hround, Nat.add_sub_cancel]
        refine ⟨by rw [List.length_modify, hmiddleLength], ?_⟩
        intro i
        have hkept : byteAt middle ((start + length) / 8) =
            byteAt bits ((start + length) / 8) := by
          rw [hmiddleByte, if_neg (by omega), hfirstByte, if_neg (by omega)]
        by_cases hlast : i / 8 = (start + length) / 8
        · unfold bitAt
          rw [byteAt_modify (by omega), if_pos hlast, getLsbD_blend_fill _ _ v (hwhole i),
            getLsbD_trailingBitmask he (hwhole i), hkept, hlast]
          by_cases hin : start ≤ i ∧ i < start + length
          · rw [if_pos hin, if_neg]
            rw [decide_eq_true_eq]
            omega
          · rw [if_neg hin, if_pos]
            rw [decide_eq_true_eq]
            omega
        · rw [← hbefore i (Or.inl hlast)]
          unfold bitAt
          rw [byteAt_modify (by omega), if_neg hlast]

/-! ## Bitmaps -/

/-- `_ArrowBytesForBits`. -/
def arrowBytesForBits (bits : Nat) : Nat := bits / 8 + if bits % 8 ≠ 0 then 1 else 0

theorem le_arrowBytesForBits (bits : Nat) : bits ≤ 8 * arrowBytesForBits bits := by
  unfold arrowBytesForBits
  split <;> omega

/-- `struct ArrowBitmap`: the memory of its buffer, none of it before the first bit, and the
number of bits.  The bytes in use are those of the bits. -/
structure ArrowBitmap where
  data : List UInt8
  sizeBits : Nat
deriving DecidableEq, Repr

namespace ArrowBitmap

/-- `ArrowBitmapReserve`. -/
def reserve (m : ArrowBitmap) (additional : Nat) : ArrowBitmap :=
  let minCapacity := arrowBytesForBits (m.sizeBits + additional)
  if minCapacity ≤ m.data.length then m
  else
    { m with
      data := m.data ++ List.replicate
        (ArrowBuffer.growByFactor m.data.length minCapacity - m.data.length) 0 }

/-- `ArrowBitmapAppendUnsafe`. -/
def appendUnsafe (m : ArrowBitmap) (v : Bool) (length : Nat) : ArrowBitmap where
  data := arrowBitsSetTo m.data m.sizeBits length v
  sizeBits := m.sizeBits + length

/-- `ArrowBitmapAppend`. -/
def append (m : ArrowBitmap) (v : Bool) (length : Nat) : ArrowBitmap :=
  (m.reserve length).appendUnsafe v length

/-- A row is valid if its bit is set, and all are as long as there is no bitmap. -/
def isValid (m : ArrowBitmap) (i : Nat) : Bool := decide (m.data = []) || bitAt m.data i

theorem reserve_sizeBits (m : ArrowBitmap) (additional : Nat) :
    (m.reserve additional).sizeBits = m.sizeBits := by
  unfold reserve
  dsimp only
  split <;> rfl

theorem reserve_room (m : ArrowBitmap) (additional : Nat) :
    m.sizeBits + additional ≤ 8 * (m.reserve additional).data.length := by
  have hbits := le_arrowBytesForBits (m.sizeBits + additional)
  unfold reserve
  dsimp only
  split
  · omega
  · dsimp only
    rw [List.length_append, List.length_replicate]
    unfold ArrowBuffer.growByFactor
    split <;> omega

/-- The bits that were there stay. -/
theorem reserve_bits (m : ArrowBitmap) (additional : Nat) {i : Nat} (h : i < 8 * m.data.length) :
    bitAt (m.reserve additional).data i = bitAt m.data i := by
  unfold reserve
  dsimp only
  split
  · rfl
  · exact bitAt_append_left h _

theorem reserve_ne_nil {m : ArrowBitmap} (h : m.data ≠ []) (additional : Nat) :
    (m.reserve additional).data ≠ [] := by
  unfold reserve
  dsimp only
  split
  · exact h
  · exact List.append_ne_nil_of_left_ne_nil h _

/-- In memory that has room for them, bits are appended and nothing else changes. -/
theorem appendUnsafe_spec {m : ArrowBitmap} {length : Nat}
    (h : m.sizeBits + length ≤ 8 * m.data.length) (v : Bool) :
    (m.appendUnsafe v length).data.length = m.data.length ∧
      ∀ i, bitAt (m.appendUnsafe v length).data i =
        if m.sizeBits ≤ i ∧ i < m.sizeBits + length then v else bitAt m.data i :=
  arrowBitsSetTo_spec h v

/-- The bitmap of an array of so many rows: either there is none, or it has their bits. -/
def Built (m : ArrowBitmap) (rows : Nat) : Prop :=
  (m.data = [] ∧ m.sizeBits = 0) ∨
    (m.data ≠ [] ∧ m.sizeBits = rows ∧ rows ≤ 8 * m.data.length)

/-- A bitmap after `n` more rows, of which these are valid. -/
structure Extended (m m' : ArrowBitmap) (rows n : Nat) (valid : Nat → Bool) : Prop where
  built : m'.Built (rows + n)
  old : ∀ i < rows, m'.isValid i = m.isValid i
  new : ∀ k < n, m'.isValid (rows + k) = valid k

theorem isValid_of_data {m : ArrowBitmap} (h : m.data ≠ []) (i : Nat) :
    m.isValid i = bitAt m.data i := by
  unfold isValid
  rw [decide_eq_false h, Bool.false_or]

theorem isValid_of_nil {m : ArrowBitmap} (h : m.data = []) (i : Nat) : m.isValid i = true := by
  unfold isValid
  rw [decide_eq_true h, Bool.true_or]

theorem data_ne_nil {m : ArrowBitmap} {n : Nat} (hn : 0 < n) (h : n ≤ 8 * m.data.length) :
    m.data ≠ [] := by
  intro hnil
  rw [hnil, List.length_nil] at h
  omega

/-- Bits appended to a bitmap with room for them. -/
theorem extended_of_bits {m m' : ArrowBitmap} {rows n : Nat} {valid : Nat → Bool}
    (hdata : m'.data ≠ []) (hsize : m'.sizeBits = rows + n)
    (hroom : rows + n ≤ 8 * m'.data.length)
    (hold : ∀ i < rows, bitAt m'.data i = m.isValid i)
    (hnew : ∀ k < n, bitAt m'.data (rows + k) = valid k) : m.Extended m' rows n valid where
  built := Or.inr ⟨hdata, hsize, hroom⟩
  old i hi := by rw [isValid_of_data hdata, hold i hi]
  new k hk := by rw [isValid_of_data hdata, hnew k hk]

/-- Rows that are all valid leave an array without a bitmap. -/
theorem extended_nil {m : ArrowBitmap} {rows n : Nat} {valid : Nat → Bool} (hdata : m.data = [])
    (hsize : m.sizeBits = 0) (hvalid : ∀ k < n, valid k = true) :
    m.Extended m rows n valid where
  built := Or.inl ⟨hdata, hsize⟩
  old i _ := rfl
  new k hk := by rw [isValid_of_nil hdata, hvalid k hk]

/-- Bits of one value appended where there is a bitmap already. -/
theorem append_extended {m : ArrowBitmap} {rows n : Nat} (h : m.Built rows)
    (hdata : m.data ≠ []) (hn : 0 < n) (v : Bool) :
    m.Extended (m.append v n) rows n fun _ => v := by
  obtain ⟨hsize, hrows⟩ : m.sizeBits = rows ∧ rows ≤ 8 * m.data.length := by
    rcases h with ⟨hnil, _⟩ | ⟨_, hsize, hrows⟩
    · exact absurd hnil hdata
    · exact ⟨hsize, hrows⟩
  have hroom := m.reserve_room n
  have hreserved := m.reserve_sizeBits n
  have hspec := appendUnsafe_spec (by rw [hreserved]; exact hroom) v
  rw [hreserved, hsize] at hspec
  rw [hsize] at hroom
  apply extended_of_bits
  · apply data_ne_nil (n := rows + n) (by omega)
    rw [append, hspec.1]
    exact hroom
  · show (m.reserve n).sizeBits + n = rows + n
    rw [hreserved, hsize]
  · show rows + n ≤ 8 * ((m.reserve n).appendUnsafe v n).data.length
    rw [hspec.1]
    exact hroom
  · intro i hi
    show bitAt ((m.reserve n).appendUnsafe v n).data i = m.isValid i
    rw [hspec.2, if_neg (by omega), reserve_bits _ _ (by omega), isValid_of_data hdata]
  · intro k hk
    show bitAt ((m.reserve n).appendUnsafe v n).data (rows + k) = v
    rw [hspec.2, if_pos (by omega)]

/-- The bitmap of an array that has seen no null: one bit for each of its rows, and room for
`n` more. -/
def materialise (m : ArrowBitmap) (rows n : Nat) : ArrowBitmap :=
  (m.reserve (rows + n)).appendUnsafe true rows

theorem materialise_spec {m : ArrowBitmap} (hsize : m.sizeBits = 0) (rows n : Nat) :
    (m.materialise rows n).sizeBits = rows ∧
      rows + n ≤ 8 * (m.materialise rows n).data.length ∧
      ∀ i < rows, bitAt (m.materialise rows n).data i = true := by
  have hroom := m.reserve_room (rows + n)
  have hreserved := m.reserve_sizeBits (rows + n)
  rw [hsize, Nat.zero_add] at hroom
  have hspec := @appendUnsafe_spec (m.reserve (rows + n)) rows
    (by rw [hreserved, hsize]; omega) true
  rw [hreserved, hsize] at hspec
  unfold materialise
  refine ⟨?_, ?_, ?_⟩
  · show (m.reserve (rows + n)).sizeBits + rows = rows
    rw [hreserved, hsize, Nat.zero_add]
  · rw [hspec.1]
    exact hroom
  · intro i hi
    rw [hspec.2, if_pos (by omega)]

end ArrowBitmap

end AdbcBridge.Adbc
