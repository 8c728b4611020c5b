import Mathlib.Algebra.Order.Ring.Nat
import Mathlib.Data.List.Basic
import Mathlib.Tactic.Common
import Mathlib.Tactic.Ring

/-!
# Numbers in bytes

Numbers in a fixed number of bytes, the least significant first, in two's complement where
they are signed; and a list of bytes as slots of one width.
-/

namespace AdbcBridge.Lib.Bytes

/-! ## Numbers -/

/-- The number that some bytes hold. -/
def value : List UInt8 → Nat
  | [] => 0
  | b :: bytes => b.toNat + 256 * value bytes

/-- A number in `k` bytes; what does not fit is lost. -/
def digits : Nat → Nat → List UInt8
  | 0, _ => []
  | k + 1, n => n.toUInt8 :: digits k (n / 256)

theorem length_digits (k n : Nat) : (digits k n).length = k := by
  induction k generalizing n with
  | zero => rfl
  | succ k ih => rw [digits, List.length_cons, ih]

theorem value_lt (bytes : List UInt8) : value bytes < 256 ^ bytes.length := by
  induction bytes with
  | nil => decide
  | cons b bytes ih =>
      have hb := b.toNat_lt
      rw [value, List.length_cons, Nat.pow_succ]
      omega

theorem digits_value (bytes : List UInt8) : digits bytes.length (value bytes) = bytes := by
  induction bytes with
  | nil => rfl
  | cons b bytes ih =>
      have hb : b.toNat < 256 := b.toNat_lt
      have hlow : (b.toNat + 256 * value bytes).toUInt8 = b := by
        apply UInt8.toNat_inj.mp
        rw [UInt8.toNat_ofNat']
        omega
      have hhigh : (b.toNat + 256 * value bytes) / 256 = value bytes := by omega
      rw [value, List.length_cons, digits, hlow, hhigh, ih]

theorem value_digits (k n : Nat) : value (digits k n) = n % 256 ^ k := by
  induction k generalizing n with
  | zero => simp [digits, value, Nat.mod_one]
  | succ k ih =>
      have hlow : n.toUInt8.toNat = n % 256 := UInt8.toNat_ofNat'
      rw [digits, value, ih, hlow, Nat.pow_succ, Nat.mul_comm (256 ^ k), Nat.mod_mul]

/-- The signed number that some bytes hold. -/
def intValue (bytes : List UInt8) : Int := (value bytes : Int).bmod (256 ^ bytes.length)

/-- A signed number in `k` bytes. -/
def intDigits (k : Nat) (v : Int) : List UInt8 := digits k (v % (256 ^ k : Nat)).toNat

theorem length_intDigits (k : Nat) (v : Int) : (intDigits k v).length = k := length_digits k _

/-- Only the rest of the number matters. -/
theorem intDigits_bmod (k : Nat) (v : Int) : intDigits k (v.bmod (256 ^ k)) = intDigits k v := by
  unfold intDigits
  rw [Int.bmod_emod]

theorem intDigits_natCast {k n : Nat} (h : n < 256 ^ k) : intDigits k n = digits k n := by
  unfold intDigits
  rw [Int.emod_eq_of_lt (by omega) (by exact_mod_cast h), Int.toNat_natCast]

/-- Bytes that are read as a signed number are written back. -/
theorem intDigits_intValue (bytes : List UInt8) :
    intDigits bytes.length (intValue bytes) = bytes := by
  calc
    intDigits bytes.length (intValue bytes) = intDigits bytes.length (value bytes) :=
      intDigits_bmod _ _
    _ = digits bytes.length (value bytes) := intDigits_natCast (value_lt bytes)
    _ = bytes := digits_value bytes

theorem intValue_intDigits (k : Nat) (v : Int) :
    intValue (intDigits k v) = v.bmod (256 ^ k) := by
  have hpos : (0 : Int) < (256 ^ k : Nat) := by exact_mod_cast Nat.pow_pos (by decide)
  have hrest := Int.emod_nonneg v hpos.ne'
  have hlt := Int.emod_lt_of_pos v hpos
  unfold intValue
  rw [length_intDigits, intDigits, value_digits, Nat.mod_eq_of_lt (by omega),
    Int.toNat_of_nonneg hrest, Int.emod_bmod]

/-! ## Slots -/

/-- The `i`-th of the slots of so many bytes. -/
def slot (width : Nat) (bytes : List UInt8) (i : Nat) : List UInt8 :=
  (bytes.drop (width * i)).take width

theorem length_slot {width i : Nat} {bytes : List UInt8} (h : width * (i + 1) ≤ bytes.length) :
    (slot width bytes i).length = width := by
  unfold slot
  rw [List.length_take, List.length_drop]
  rw [Nat.mul_succ] at h
  omega

theorem slot_append_left {width i : Nat} {a : List UInt8} (h : width * (i + 1) ≤ a.length)
    (b : List UInt8) : slot width (a ++ b) i = slot width a i := by
  rw [Nat.mul_succ] at h
  unfold slot
  rw [List.drop_append_of_le_length (by omega), List.take_append_of_le_length]
  rw [List.length_drop]
  omega

theorem slot_append_right {width n : Nat} {a : List UInt8} (h : a.length = width * n)
    (b : List UInt8) (i : Nat) : slot width (a ++ b) (n + i) = slot width b i := by
  unfold slot
  rw [Nat.mul_add, ← h, List.drop_append, List.drop_eq_nil_of_le (by omega), List.nil_append,
    Nat.add_sub_cancel_left]

theorem slot_take {width n i : Nat} (hi : i < n) (bytes : List UInt8) :
    slot width (bytes.take (width * n)) i = slot width bytes i := by
  have hle : width * (i + 1) ≤ width * n := Nat.mul_le_mul_left width hi
  rw [Nat.mul_succ] at hle
  unfold slot
  rw [List.drop_take, List.take_take, Nat.min_eq_left (by omega)]

/-- One block for each of the rows, all of one width. -/
def blocks (n : Nat) (row : Nat → List UInt8) : List UInt8 := (List.range n).flatMap row

theorem blocks_succ (n : Nat) (row : Nat → List UInt8) :
    blocks (n + 1) row = blocks n row ++ row n := by
  unfold blocks
  rw [List.range_succ, List.flatMap_append, List.flatMap_singleton]

theorem length_blocks {width n : Nat} {row : Nat → List UInt8}
    (h : ∀ i < n, (row i).length = width) : (blocks n row).length = width * n := by
  induction n with
  | zero => rfl
  | succ n ih =>
      have hinit := ih fun i hi => h i (by omega)
      rw [blocks_succ, List.length_append, hinit, h n (by omega), Nat.mul_succ]

theorem slot_blocks {width n i : Nat} {row : Nat → List UInt8}
    (h : ∀ i < n, (row i).length = width) (hi : i < n) :
    slot width (blocks n row) i = row i := by
  induction n with
  | zero => omega
  | succ n ih =>
      have hrows : ∀ i < n, (row i).length = width := fun i hi => h i (by omega)
      have hlength := length_blocks hrows
      rw [blocks_succ]
      by_cases hlast : i < n
      · rw [slot_append_left, ih hrows hlast]
        rw [hlength]
        exact Nat.mul_le_mul_left width hlast
      · have heq : i = n := by omega
        have hrow := h n (by omega)
        have hzero := slot_append_right hlength (row n) 0
        rw [Nat.add_zero] at hzero
        rw [heq, hzero]
        unfold slot
        rw [Nat.mul_zero, List.drop_zero, ← hrow, List.take_length]

/-- A block lies behind those before it. -/
theorem blocks_split {n k : Nat} (hk : k < n) (row : Nat → List UInt8) :
    ∃ rest, blocks n row = blocks k row ++ row k ++ rest := by
  induction n with
  | zero => omega
  | succ n ih =>
      by_cases hlast : k < n
      · obtain ⟨rest, hrest⟩ := ih hlast
        exact ⟨rest ++ row n, by rw [blocks_succ, hrest, List.append_assoc]⟩
      · have heq : k = n := by omega
        exact ⟨[], by rw [heq, blocks_succ, List.append_nil]⟩

theorem length_blocks_le {n k : Nat} (hk : k ≤ n) (row : Nat → List UInt8) :
    (blocks k row).length ≤ (blocks n row).length := by
  by_cases hlast : k < n
  · obtain ⟨rest, hrest⟩ := blocks_split hlast row
    rw [hrest, List.length_append, List.length_append]
    omega
  · rw [Nat.le_antisymm hk (by omega)]

end AdbcBridge.Lib.Bytes
