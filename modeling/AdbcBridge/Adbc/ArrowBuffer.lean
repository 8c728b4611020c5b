import AdbcBridge.Lib.Overlay

/-!
# `struct ArrowBuffer`

A growing byte array: its memory up to the capacity, and how much of it is in use.
Allocations succeed, and what they add reads as zero.
-/

namespace AdbcBridge.Adbc

open AdbcBridge.Lib

/-- `struct ArrowBuffer`; the capacity is the length of the memory. -/
structure ArrowBuffer where
  data : List UInt8
  sizeBytes : Nat
  size_le : sizeBytes ≤ data.length

namespace ArrowBuffer

/-- `ArrowBufferInit`. -/
def init : ArrowBuffer where
  data := []
  sizeBytes := 0
  size_le := Nat.le_refl 0

/-- The bytes in use. -/
def content (b : ArrowBuffer) : List UInt8 := b.data.take b.sizeBytes

theorem length_content (b : ArrowBuffer) : b.content.length = b.sizeBytes := by
  unfold content
  rw [List.length_take, Nat.min_eq_left b.size_le]

/-- `_ArrowGrowByFactor`. -/
def growByFactor (currentCapacity newCapacity : Nat) : Nat :=
  if newCapacity < currentCapacity * 2 then currentCapacity * 2 else newCapacity

/-- `ArrowBufferReserve`. -/
def reserve (b : ArrowBuffer) (additional : Nat) : ArrowBuffer :=
  let minCapacity := b.sizeBytes + additional
  if minCapacity ≤ b.data.length then b
  else
    { b with
      data := b.data ++
        List.replicate (growByFactor b.data.length minCapacity - b.data.length) 0
      size_le := by
        have hsize := b.size_le
        rw [List.length_append]
        omega }

theorem reserve_sizeBytes (b : ArrowBuffer) (additional : Nat) :
    (b.reserve additional).sizeBytes = b.sizeBytes := by
  unfold reserve
  dsimp only
  split
  · rfl
  · rfl

/-- What was in the memory stays there. -/
theorem reserve_data (b : ArrowBuffer) (additional : Nat) :
    ∃ fresh, (b.reserve additional).data = b.data ++ fresh := by
  unfold reserve
  dsimp only
  split
  · exact ⟨[], (List.append_nil _).symm⟩
  · exact ⟨_, rfl⟩

theorem reserve_room (b : ArrowBuffer) (additional : Nat) :
    b.sizeBytes + additional ≤ (b.reserve additional).data.length := by
  unfold reserve
  dsimp only
  split
  · assumption
  · rw [List.length_append, List.length_replicate]
    unfold growByFactor
    split <;> omega

theorem reserve_content (b : ArrowBuffer) (additional : Nat) :
    (b.reserve additional).content = b.content := by
  obtain ⟨fresh, hdata⟩ := b.reserve_data additional
  unfold content
  rw [hdata, reserve_sizeBytes, List.take_append_of_le_length b.size_le]

/-- Bytes put into the memory from an address on, in use or not. -/
def write (b : ArrowBuffer) (k : Nat) (bytes : List UInt8) : ArrowBuffer where
  data := overlay b.data k bytes
  sizeBytes := b.sizeBytes
  size_le := Nat.le_trans b.size_le (le_length_overlay _ _ _)

/-- `size_bytes` set to a size within the capacity. -/
def setSize (b : ArrowBuffer) (n : Nat) (h : n ≤ b.data.length) : ArrowBuffer where
  data := b.data
  sizeBytes := n
  size_le := h

/-- `scratch->size_bytes = 0`. -/
def clear (b : ArrowBuffer) : ArrowBuffer := b.setSize 0 (Nat.zero_le _)

theorem clear_content (b : ArrowBuffer) : b.clear.content = [] := rfl

end ArrowBuffer

end AdbcBridge.Adbc
