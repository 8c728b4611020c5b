import AdbcBridge.Lib.Ring
import AdbcBridge.Reader.Driver

/-!
# The ring of rowset slots

The slots a prefetching reader shares between its threads.  The fetch thread writes the
slot at the tail and publishes it; the caller takes the slot at the head and gives it
back.
-/

namespace AdbcBridge.Reader

open AdbcBridge.Lib

/-- A slot the fetch thread has filled. -/
inductive Slot (v : Type*) where
  | eos
  | rows (rowset : Rowset v) (fetched firstRow : Nat) (needsRepair : Bool)

namespace Slot

variable {v : Type*}

/-- Whether the fetch thread leaves after this slot. -/
def leaves : Slot v → Bool
  | eos => true
  | rows _ _ _ needsRepair => needsRepair

def isEos : Slot v → Bool
  | eos => true
  | rows .. => false

end Slot

/-- The ring.  `slots` is the memory of the slots, empty where nothing has been fetched;
the last four fields are its history: the slots published and not yet given back, the
contents fetched and taken so far, and whether the head slot has been taken. -/
structure SlotRing (v : Type*) where
  nslots : Nat := 1
  slots : Nat → Option (Slot v) := fun _ => none
  head : Nat := 0
  tail : Nat := 0
  filled : Nat := 0
  full : Nat → Option (Slot v) := fun _ => none
  fetched : List (Slot v) := []
  taken : List (Slot v) := []
  inHand : Bool := false

namespace SlotRing

variable {v : Type*}

/-- Before the fetch into slot `sl`. -/
def clear (r : SlotRing v) (sl : Nat) : SlotRing v :=
  { r with slots := Function.update r.slots sl none }

def fill (r : SlotRing v) (sl : Nat) (x : Slot v) : SlotRing v :=
  { r with slots := Function.update r.slots sl (some x), fetched := r.fetched ++ [x] }

def publish (r : SlotRing v) (sl : Nat) (x : Slot v) : SlotRing v :=
  { r with
    tail := (r.tail + 1) % r.nslots
    filled := r.filled + 1
    full := Function.update r.full sl (some x) }

def take (r : SlotRing v) (x : Slot v) : SlotRing v :=
  { r with inHand := true, taken := r.taken ++ [x] }

def release (r : SlotRing v) : SlotRing v :=
  { r with
    head := (r.head + 1) % r.nslots
    filled := r.filled - 1
    full := Function.update r.full r.head none
    inHand := false }

section

variable (r : SlotRing v) (sl : Nat) (x : Slot v)

@[simp] theorem clear_slots : (r.clear sl).slots = Function.update r.slots sl none := rfl

@[simp] theorem clear_full : (r.clear sl).full = r.full := rfl

@[simp] theorem fill_slots : (r.fill sl x).slots = Function.update r.slots sl (some x) := rfl

@[simp] theorem fill_full : (r.fill sl x).full = r.full := rfl

@[simp] theorem publish_slots : (r.publish sl x).slots = r.slots := rfl

@[simp] theorem publish_full : (r.publish sl x).full = Function.update r.full sl (some x) := rfl

@[simp] theorem release_slots : r.release.slots = r.slots := rfl

@[simp] theorem release_full : r.release.full = Function.update r.full r.head none := rfl

end

/-- The slots in use, as a ring buffer. -/
def unread (r : SlotRing v) : RingBuffer (Slot v) := ⟨r.full, r.head, r.filled⟩

/-- The ring holds the slots `l`, the first of them in the caller's hand or not; the fetch
thread is at work on the slot `work` and has fetched `pending` into it. -/
structure Ok (r : SlotRing v) (l : List (Slot v)) (pending : Option (Slot v))
    (work : Option Nat) : Prop where
  holds : r.unread.Holds r.nslots l
  memory : ∀ sl x, r.full sl = some x → r.slots sl = some x
  tail : r.tail = (r.head + r.filled) % r.nslots
  work : ∀ sl, work = some sl → sl = r.tail ∧ r.filled < r.nslots
  history : r.taken ++ (if r.inHand then l.tail else l) ++ pending.toList = r.fetched
  inHand : r.inHand = true → l ≠ []

namespace Ok

variable {r : SlotRing v} {l : List (Slot v)} {pending : Option (Slot v)} {work : Option Nat}
  {x : Slot v} {sl : Nat}

theorem filled_eq (h : Ok r l pending work) : r.filled = l.length := h.holds.count_eq

theorem filled_le (h : Ok r l pending work) : r.filled ≤ r.nslots :=
  h.filled_eq ▸ h.holds.count_le

theorem init {nslots : Nat} (hpos : 0 < nslots) :
    Ok ({ nslots } : SlotRing v) [] none none where
  holds := RingBuffer.holds_empty hpos
  memory := nofun
  tail := by simp
  work := nofun
  history := rfl
  inHand := nofun

/-- The slot the fetch thread is at work on is not in use. -/
theorem free (h : Ok r l pending (some sl)) : r.full sl = none := by
  have ⟨htail, hroom⟩ := h.work sl rfl
  rw [htail, h.tail, h.filled_eq]
  exact h.holds.free_tail (h.filled_eq ▸ hroom)

theorem idle (h : Ok r l none work) : Ok r l none none := { h with work := nofun }

theorem room (h : Ok r l none none) (hroom : r.filled < r.nslots) :
    Ok r l none (some r.tail) :=
  { h with work := fun _ hsl => ⟨(Option.some.inj hsl).symm, hroom⟩ }

theorem clear (h : Ok r l pending (some sl)) : Ok (r.clear sl) l pending (some sl) :=
  { h with
    memory := by
      intro sl' x hx
      have hne : sl' ≠ sl := by
        rintro rfl
        rw [clear_full, h.free] at hx
        cases hx
      rw [clear_slots, Function.update_of_ne hne]
      exact h.memory sl' x hx }

theorem fill (h : Ok r l none (some sl)) : Ok (r.fill sl x) l (some x) (some sl) where
  holds := h.holds
  memory := by
    intro sl' y hy
    have hne : sl' ≠ sl := by
      rintro rfl
      rw [fill_full, h.free] at hy
      cases hy
    rw [fill_slots, Function.update_of_ne hne]
    exact h.memory sl' y hy
  tail := h.tail
  work := h.work
  history := by
    have hhistory := h.history
    simp only [Option.toList_none, List.append_nil] at hhistory
    simp [SlotRing.fill, ← hhistory]
  inHand := h.inHand

theorem publish (h : Ok r l (some x) (some sl)) (hslot : r.slots sl = some x) :
    Ok (r.publish sl x) (l ++ [x]) none none where
  holds := by
    have ⟨htail, hroom⟩ := h.work sl rfl
    have hpush := h.holds.push (a := x) (h.filled_eq ▸ hroom)
    rwa [RingBuffer.push, show r.unread.count = r.filled from rfl,
      show r.unread.head = r.head from rfl, ← h.tail, ← htail] at hpush
  memory := by
    intro sl' y hy
    by_cases heq : sl' = sl
    · subst heq
      rw [publish_full, Function.update_self] at hy
      exact hslot.trans hy
    · rw [publish_full, Function.update_of_ne heq] at hy
      exact h.memory sl' y hy
  tail := by
    simp only [SlotRing.publish, h.tail, Nat.mod_add_mod, Nat.add_assoc]
  work := nofun
  history := by
    have hhistory := h.history
    have hin := h.inHand
    simp only [SlotRing.publish, ← hhistory, Option.toList_none, Option.toList_some,
      List.append_nil]
    cases hhand : r.inHand with
    | true =>
        rw [if_pos rfl, if_pos rfl, List.tail_append_of_ne_nil (hin hhand), List.append_assoc]
    | false => simp
  inHand := by simp

theorem take (h : Ok r (x :: l) pending work) (hhand : r.inHand = false) :
    Ok (r.take x) (x :: l) pending work where
  holds := h.holds
  memory := h.memory
  tail := h.tail
  work := h.work
  history := by
    have hhistory := h.history
    rw [hhand] at hhistory
    simpa [SlotRing.take] using hhistory
  inHand := by simp

theorem release (h : Ok r (x :: l) pending work) (hhand : r.inHand = true) :
    Ok r.release l pending work where
  holds := h.holds.drop
  memory := by
    intro sl' y hy
    by_cases heq : sl' = r.head
    · rw [release_full, heq, Function.update_self] at hy
      cases hy
    · rw [release_full, Function.update_of_ne heq] at hy
      exact h.memory sl' y hy
  tail := by
    have hfilled := h.filled_eq
    rw [List.length_cons] at hfilled
    simp only [SlotRing.release, h.tail, Nat.mod_add_mod]
    congr 1
    omega
  work := by
    intro sl' hsl
    have ⟨htail, hroom⟩ := h.work sl' hsl
    exact ⟨htail, Nat.lt_of_le_of_lt (Nat.sub_le _ _) hroom⟩
  history := by
    have hhistory := h.history
    rw [hhand] at hhistory
    simpa [SlotRing.release] using hhistory
  inHand := by simp [SlotRing.release]

/-- The head slot is the first of the list. -/
theorem head (h : Ok r (x :: l) pending work) : r.slots r.head = some x :=
  h.memory _ _ h.holds.head

end Ok

end SlotRing

end AdbcBridge.Reader
