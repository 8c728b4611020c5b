import Mathlib.Data.List.Basic
import Mathlib.Tactic.Common

/-!
# Writing over a stretch of a list

Memory as a list of its cells: a write puts a block over the cells from an address on.
-/

namespace AdbcBridge.Lib

variable {α : Type*}

/-- The block `bs` over the cells of `mem` from the `k`-th on. -/
def overlay (mem : List α) (k : Nat) (bs : List α) : List α :=
  mem.take k ++ bs ++ mem.drop (k + bs.length)

theorem overlay_nil (mem : List α) (k : Nat) : overlay mem k [] = mem := by
  simp [overlay]

theorem length_overlay {mem bs : List α} {k : Nat} (h : k + bs.length ≤ mem.length) :
    (overlay mem k bs).length = mem.length := by
  unfold overlay
  rw [List.length_append, List.length_append, List.length_take, List.length_drop]
  omega

/-- A write never makes the memory shorter. -/
theorem le_length_overlay (mem bs : List α) (k : Nat) :
    mem.length ≤ (overlay mem k bs).length := by
  unfold overlay
  rw [List.length_append, List.length_append, List.length_take, List.length_drop]
  omega

theorem take_overlay {mem : List α} {k : Nat} (h : k ≤ mem.length) (bs : List α) :
    (overlay mem k bs).take (k + bs.length) = mem.take k ++ bs := by
  have hlength : (mem.take k ++ bs).length = k + bs.length := by
    rw [List.length_append, List.length_take, Nat.min_eq_left h]
  unfold overlay
  rw [← hlength, List.take_left]

/-- Of a block that was written, the first `n` cells are read back. -/
theorem take_overlay_le {mem bs : List α} {k n : Nat} (h : k ≤ mem.length)
    (hn : n ≤ bs.length) : (overlay mem k bs).take (k + n) = mem.take k ++ bs.take n := by
  have hcut : (overlay mem k bs).take (k + n) =
      ((overlay mem k bs).take (k + bs.length)).take (k + n) := by
    rw [List.take_take, Nat.min_eq_left (by omega)]
  rw [hcut, take_overlay h, List.take_append, List.take_take, List.length_take]
  congr 2
  · omega
  · omega

/-- A block and the one behind it are one block. -/
theorem overlay_append {mem : List α} {k : Nat} (h : k ≤ mem.length) (a b : List α) :
    overlay (overlay mem k a) (k + a.length) b = overlay mem k (a ++ b) := by
  have hlength : (mem.take k ++ a).length = k + a.length := by
    rw [List.length_append, List.length_take, Nat.min_eq_left h]
  have hrest : (overlay mem k a).drop (k + a.length + b.length) =
      mem.drop (k + (a ++ b).length) := by
    unfold overlay
    rw [List.drop_append, List.drop_eq_nil_of_le (by omega), List.nil_append, List.drop_drop,
      hlength, List.length_append]
    congr 1
    omega
  have hunfold : overlay (overlay mem k a) (k + a.length) b =
      (overlay mem k a).take (k + a.length) ++ b ++
        (overlay mem k a).drop (k + a.length + b.length) := rfl
  rw [hunfold, take_overlay h, hrest]
  unfold overlay
  rw [List.append_assoc (mem.take k) a b]

/-- A cell behind the block keeps its value. -/
theorem getElem?_overlay_of_le {mem bs : List α} {k j : Nat} (h : k ≤ mem.length)
    (hj : k + bs.length ≤ j) : (overlay mem k bs)[j]? = mem[j]? := by
  have hlength : (mem.take k ++ bs).length = k + bs.length := by
    rw [List.length_append, List.length_take, Nat.min_eq_left h]
  unfold overlay
  rw [List.getElem?_append_right (by omega), List.getElem?_drop, hlength]
  congr 1
  omega

end AdbcBridge.Lib
