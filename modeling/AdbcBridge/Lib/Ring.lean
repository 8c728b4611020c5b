import Mathlib.Data.List.Basic
import Mathlib.Data.Nat.ModEq
import Mathlib.Logic.Function.Basic

/-!
# Ring buffers

A ring of `cap` slots with a head and a count holds a list: its entries are the
`count` consecutive slots from the head, wrapping at the end, and every other
slot is empty.  Writing behind the last entry appends to the list, and clearing
the head and stepping over it takes the first element.
-/

namespace AdbcBridge.Lib

variable {α : Type*}

structure RingBuffer (α : Type*) where
  slots : Nat → Option α
  head : Nat
  count : Nat

namespace RingBuffer

def push (cap : Nat) (r : RingBuffer α) (a : α) : RingBuffer α :=
  { r with
    slots := Function.update r.slots ((r.head + r.count) % cap) (some a)
    count := r.count + 1 }

/-- Clear the head slot and step over it. -/
def drop (cap : Nat) (r : RingBuffer α) : RingBuffer α where
  slots := Function.update r.slots r.head none
  head := (r.head + 1) % cap
  count := r.count - 1

/-- The entries from the head on, with the empty slots left out. -/
def toList (cap : Nat) (r : RingBuffer α) : List α :=
  (List.range r.count).filterMap fun i => r.slots ((r.head + i) % cap)

def empty : RingBuffer α := ⟨fun _ => none, 0, 0⟩

/-- The ring holds exactly this list, in the consecutive slots from its head. -/
structure Holds (cap : Nat) (r : RingBuffer α) (l : List α) : Prop where
  head_lt : r.head < cap
  count_eq : r.count = l.length
  count_le : l.length ≤ cap
  entry : ∀ i < l.length, r.slots ((r.head + i) % cap) = l[i]?
  free : ∀ j < cap, (∀ i < l.length, j ≠ (r.head + i) % cap) → r.slots j = none

/-- Two places of the window are different slots. -/
theorem slot_inj {cap head i j : Nat} (hi : i < cap) (hj : j < cap)
    (h : (head + i) % cap = (head + j) % cap) : i = j := by
  have hmod : i ≡ j [MOD cap] := Nat.ModEq.add_left_cancel' head h
  rwa [Nat.ModEq, Nat.mod_eq_of_lt hi, Nat.mod_eq_of_lt hj] at hmod

theorem holds_empty {cap : Nat} (hcap : 0 < cap) : Holds cap (empty : RingBuffer α) [] :=
  ⟨hcap, rfl, Nat.zero_le _, by simp, fun _ _ _ => rfl⟩

variable {cap : Nat} {r : RingBuffer α} {l : List α} {a : α}

theorem Holds.push (h : Holds cap r l) (hroom : l.length < cap) :
    Holds cap (r.push cap a) (l ++ [a]) where
  head_lt := h.head_lt
  count_eq := by simp [RingBuffer.push, h.count_eq]
  count_le := by
    rw [List.length_append, List.length_singleton]
    omega
  entry := by
    intro i hi
    rw [List.length_append, List.length_singleton] at hi
    simp only [RingBuffer.push, h.count_eq]
    by_cases hlast : i = l.length
    · rw [hlast, Function.update_self, List.getElem?_concat_length]
    · have hne : (r.head + i) % cap ≠ (r.head + l.length) % cap := fun heq =>
        hlast (slot_inj (by omega) hroom heq)
      rw [Function.update_of_ne hne, List.getElem?_append_left (by omega)]
      exact h.entry i (by omega)
  free := by
    intro j hj hfree
    simp only [RingBuffer.push, h.count_eq] at hfree ⊢
    rw [Function.update_of_ne (hfree l.length (by simp))]
    exact h.free j hj fun i hi => hfree i (by rw [List.length_append]; omega)

/-- The slot behind the last entry is empty. -/
theorem Holds.free_tail (h : Holds cap r l) (hroom : l.length < cap) :
    r.slots ((r.head + l.length) % cap) = none := by
  apply h.free _ (Nat.mod_lt _ (Nat.lt_of_le_of_lt (Nat.zero_le _) hroom))
  intro i hi heq
  exact absurd (slot_inj hroom (by omega) heq) (by omega)

theorem Holds.head (h : Holds cap r (a :: l)) : r.slots r.head = some a := by
  have hentry := h.entry 0 (by simp)
  rw [Nat.add_zero, Nat.mod_eq_of_lt h.head_lt] at hentry
  simpa using hentry

theorem Holds.drop (h : Holds cap r (a :: l)) : Holds cap (r.drop cap) l where
  head_lt := Nat.mod_lt _ (Nat.lt_of_le_of_lt (Nat.zero_le _) h.head_lt)
  count_eq := by simp [RingBuffer.drop, h.count_eq]
  count_le := by
    have := h.count_le
    rw [List.length_cons] at this
    omega
  entry := by
    intro i hi
    have hlen := h.count_le
    rw [List.length_cons] at hlen
    simp only [RingBuffer.drop, Nat.mod_add_mod]
    have hne : (r.head + 1 + i) % cap ≠ r.head := by
      intro heq
      have hzero : (r.head + (1 + i)) % cap = (r.head + 0) % cap := by
        rw [← Nat.add_assoc, heq, Nat.add_zero, Nat.mod_eq_of_lt h.head_lt]
      by_cases hwrap : 1 + i < cap
      · have := slot_inj hwrap (by omega) hzero
        omega
      · omega
    rw [Function.update_of_ne hne]
    have hentry := h.entry (i + 1) (by simp; omega)
    rw [List.getElem?_cons_succ] at hentry
    rw [← hentry, show r.head + 1 + i = r.head + (i + 1) by omega]
  free := by
    intro j hj hfree
    simp only [RingBuffer.drop] at hfree ⊢
    by_cases hhead : j = r.head
    · rw [hhead, Function.update_self]
    · rw [Function.update_of_ne hhead]
      apply h.free j hj
      intro i hi
      rw [List.length_cons] at hi
      cases i with
      | zero => rwa [Nat.add_zero, Nat.mod_eq_of_lt h.head_lt]
      | succ i =>
          have := hfree i (by omega)
          rwa [Nat.mod_add_mod, Nat.add_assoc, Nat.add_comm 1 i] at this

theorem Holds.toList (h : Holds cap r l) : r.toList cap = l := by
  have hentries : (List.range l.length).filterMap (fun i => r.slots ((r.head + i) % cap)) =
      (List.range l.length).filterMap (fun i => l[i]?) :=
    List.filterMap_congr fun i hi => h.entry i (List.mem_range.1 hi)
  rw [RingBuffer.toList, h.count_eq, hentries]
  clear hentries h
  induction l with
  | nil => rfl
  | cons a l ih =>
      rw [List.length_cons, List.range_succ_eq_map, List.filterMap_cons]
      simpa [List.filterMap_map, Function.comp_def] using ih

end RingBuffer

end AdbcBridge.Lib
