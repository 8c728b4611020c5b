import AdbcBridge.Lib.Overlay
import Mathlib

/-!
# Bits in bytes

A list of bytes as a list of bits, the lowest bit of a byte first.  A stretch of bits is
written by blending the bytes at its two ends with a byte whose bits are all alike.
-/

namespace AdbcBridge.Lib.Bits

/-- Below the bits that are shifted in, an "or" is a sum. -/
theorem shiftLeft_or {a b i : Nat} (hb : b < 2 ^ i) : a <<< i ||| b = a * 2 ^ i + b := by
  rw [← Nat.shiftLeft_add_eq_or_of_lt hb, Nat.shiftLeft_eq]

/-- The `n`-th byte; behind the end there are zeros. -/
def byteAt (bytes : List UInt8) (n : Nat) : UInt8 := bytes[n]?.getD 0

/-- Bit `i` of some bytes. -/
def bitAt (bytes : List UInt8) (i : Nat) : Bool := (byteAt bytes (i / 8)).toBitVec.getLsbD (i % 8)

theorem bitAt_append_left {a : List UInt8} {i : Nat} (h : i < 8 * a.length) (b : List UInt8) :
    bitAt (a ++ b) i = bitAt a i := by
  unfold bitAt byteAt
  rw [List.getElem?_append_left (by omega)]

theorem bitAt_take {bytes : List UInt8} {n i : Nat} (h : i < 8 * n) :
    bitAt (bytes.take n) i = bitAt bytes i := by
  unfold bitAt byteAt
  rw [List.getElem?_take_of_lt (by omega)]

theorem byteAt_modify {bytes : List UInt8} {n : Nat} (hn : n < bytes.length)
    (f : UInt8 → UInt8) (k : Nat) :
    byteAt (bytes.modify n f) k = if k = n then f (byteAt bytes n) else byteAt bytes k := by
  unfold byteAt
  rw [List.getElem?_modify]
  by_cases hk : k = n
  · rw [if_pos hk, hk, List.getElem?_eq_getElem hn]
    simp
  · have hne : ¬ n = k := Ne.symm hk
    simp [hk, hne]

theorem byteAt_overlay {bytes block : List UInt8} {n : Nat} (h : n + block.length ≤ bytes.length)
    (k : Nat) :
    byteAt (overlay bytes n block) k =
      if n ≤ k ∧ k < n + block.length then byteAt block (k - n) else byteAt bytes k := by
  have htake : (bytes.take n).length = n := by
    rw [List.length_take]
    omega
  unfold byteAt overlay
  rw [List.append_assoc]
  by_cases hleft : k < n
  · rw [if_neg (by omega), List.getElem?_append_left (by omega), List.getElem?_take_of_lt hleft]
  · rw [List.getElem?_append_right (by omega), htake]
    by_cases hright : k < n + block.length
    · rw [if_pos ⟨by omega, hright⟩, List.getElem?_append_left (by omega)]
    · rw [if_neg (by omega), List.getElem?_append_right (by omega), List.getElem?_drop]
      congr 2
      omega

/-! ## Blending -/

/-- A byte whose bits are all alike. -/
def fillByte (v : Bool) : UInt8 := if v then 255 else 0

theorem getLsbD_fillByte (v : Bool) {k : Nat} (hk : k < 8) :
    (fillByte v).toBitVec.getLsbD k = v := by
  cases v with
  | false => simp [fillByte]
  | true =>
      have hones : (fillByte true).toBitVec = BitVec.allOnes 8 := by decide
      rw [hones, BitVec.getLsbD_allOnes]
      exact decide_eq_true hk

/-- The bits of the one byte under the mask, and those of the other where it is clear. -/
def blend (mask a b : UInt8) : UInt8 := (a &&& mask) ||| (b &&& ~~~mask)

theorem getLsbD_blend (mask a b : UInt8) {k : Nat} (hk : k < 8) :
    (blend mask a b).toBitVec.getLsbD k =
      if mask.toBitVec.getLsbD k then a.toBitVec.getLsbD k else b.toBitVec.getLsbD k := by
  unfold blend
  rw [UInt8.toBitVec_or, UInt8.toBitVec_and, UInt8.toBitVec_and, UInt8.toBitVec_not,
    BitVec.getLsbD_or, BitVec.getLsbD_and, BitVec.getLsbD_and, BitVec.getLsbD_not,
    decide_eq_true hk]
  cases mask.toBitVec.getLsbD k <;> simp

end AdbcBridge.Lib.Bits
