import Mathlib

/-!
# Half-open cuts of a linear order

A finite increasing list of cut points divides a linear order into half-open
slices, the first unbounded below and the last unbounded above.  This module
proves that the slices partition the order: every point lies in exactly one of
them, whatever the cut points are.  It also gives the consequence for a table:
filtering by a family of predicates of which exactly one holds of each row, and
putting the pieces together again, gives back the same multiset of rows.
-/

namespace AdbcBridge.Lib.Cuts

variable {α β : Type*}

/-- A half-open interval with optional ends: `lower ≤ x < upper`. -/
structure Slice (α : Type*) where
  lower : Option α
  upper : Option α
deriving DecidableEq, Repr

namespace Slice

/-- Transport both ends along a function. -/
def map (f : α → β) (s : Slice α) : Slice β := ⟨s.lower.map f, s.upper.map f⟩

/-- Membership in the half-open interval. -/
def Holds [LE α] [LT α] (s : Slice α) (x : α) : Prop :=
  (∀ b, s.lower = some b → b ≤ x) ∧ (∀ b, s.upper = some b → x < b)

end Slice

/-- Slice `k` of the `n` slices cut at `b 1, …, b (n - 1)`. -/
def cutSlice (b : Nat → α) (n k : Nat) : Slice α where
  lower := if k = 0 then none else some (b k)
  upper := if k + 1 = n then none else some (b (k + 1))

theorem cutSlice_map (f : α → β) (b : Nat → α) (n k : Nat) :
    (cutSlice b n k).map f = cutSlice (fun i => f (b i)) n k := by
  simp only [cutSlice, Slice.map]
  split <;> split <;> rfl

section Partition

variable [LinearOrder α] {b : Nat → α} {n : Nat}

theorem cutSlice_holds {k : Nat} {x : α} :
    (cutSlice b n k).Holds x ↔
      (k ≠ 0 → b k ≤ x) ∧ (k + 1 ≠ n → x < b (k + 1)) := by
  simp only [cutSlice, Slice.Holds]
  by_cases hk : k = 0 <;> by_cases hn : k + 1 = n <;> simp [hk, hn]

/-- Some slice holds: the last one whose lower end is at most the point. -/
theorem exists_cutSlice_holds (hn : 0 < n) (x : α) :
    ∃ k, k < n ∧ (cutSlice b n k).Holds x := by
  induction n with
  | zero => omega
  | succ n ih =>
      by_cases hlast : n = 0
      · exact ⟨0, by omega, cutSlice_holds.2 ⟨by simp, by omega⟩⟩
      by_cases hx : b n ≤ x
      · exact ⟨n, by omega, cutSlice_holds.2 ⟨fun _ => hx, by omega⟩⟩
      · obtain ⟨k, hk, hholds⟩ := ih (by omega)
        rw [cutSlice_holds] at hholds
        refine ⟨k, by omega, cutSlice_holds.2 ⟨hholds.1, fun _ => ?_⟩⟩
        by_cases hkn : k + 1 = n
        · rw [hkn]; exact lt_of_not_ge hx
        · exact hholds.2 hkn

/-- Two slices of the same cut never share a point. -/
theorem cutSlice_disjoint (hmono : ∀ i j, 1 ≤ i → i ≤ j → j < n → b i ≤ b j)
    {k l : Nat} {x : α} (hl : l < n) (hkl : k < l)
    (hk : (cutSlice b n k).Holds x) (hx : (cutSlice b n l).Holds x) : False := by
  rw [cutSlice_holds] at hk hx
  have hbelow : x < b (k + 1) := hk.2 (by omega)
  have habove : b l ≤ x := hx.1 (by omega)
  have hle : b (k + 1) ≤ b l := hmono (k + 1) l (by omega) (by omega) hl
  exact absurd hbelow (not_lt_of_ge (hle.trans habove))

/-- The slices of a cut partition the order. -/
theorem existsUnique_cutSlice (hn : 0 < n)
    (hmono : ∀ i j, 1 ≤ i → i ≤ j → j < n → b i ≤ b j) (x : α) :
    ∃! k, k < n ∧ (cutSlice b n k).Holds x := by
  obtain ⟨k, hk, hholds⟩ := exists_cutSlice_holds (b := b) hn x
  refine ⟨k, ⟨hk, hholds⟩, ?_⟩
  rintro l ⟨hl, hlx⟩
  rcases Nat.lt_trichotomy l k with h | h | h
  · exact (cutSlice_disjoint hmono hk h hlx hholds).elim
  · exact h
  · exact (cutSlice_disjoint hmono hl h hholds hlx).elim

/-- A sequence that increases at every step is monotone on the cut's range. -/
theorem le_of_step_lt (hstep : ∀ i, 1 ≤ i → i + 1 < n → b i < b (i + 1)) :
    ∀ i j, 1 ≤ i → i ≤ j → j < n → b i ≤ b j := by
  intro i j hi hij
  induction j, hij using Nat.le_induction with
  | base => intro _; exact le_rfl
  | succ j hij ih =>
      intro hj
      exact (ih (by omega)).trans (hstep j (by omega) hj).le

end Partition

/-! ## Covers of a table by row predicates -/

/-- Exactly one of the `n` predicates holds of every row. -/
def DisjointCover (p : Nat → α → Bool) (n : Nat) : Prop :=
  ∀ x, ∃! k, k < n ∧ p k x = true

/-- The pieces a family of predicates cuts a table into, one after another. -/
def pieces (p : Nat → α → Bool) (n : Nat) (rows : List α) : List α :=
  (List.range n).flatMap fun k => rows.filter (p k)

theorem flatMap_indicator_eq_nil (p : Nat → α → Bool) (x : α) (n : Nat)
    (h : ∀ k, k < n → p k x = false) :
    ((List.range n).flatMap fun k => if p k x then [x] else []) = [] := by
  rw [List.flatMap_eq_nil_iff]
  intro k hk
  simp [h k (List.mem_range.1 hk)]

theorem flatMap_indicator_eq_single (p : Nat → α → Bool) (x : α) (n : Nat)
    (h : ∃! k, k < n ∧ p k x = true) :
    ((List.range n).flatMap fun k => if p k x then [x] else []) = [x] := by
  induction n with
  | zero => obtain ⟨k, ⟨hk, _⟩, _⟩ := h; omega
  | succ n ih =>
      obtain ⟨k, ⟨hk, hpk⟩, huniq⟩ := h
      rw [List.range_succ, List.flatMap_append]
      by_cases hkn : k = n
      · subst k
        have hzero : ∀ i, i < n → p i x = false := by
          intro i hi
          by_contra hpi
          have hin := huniq i ⟨by omega, by simpa using hpi⟩
          omega
        rw [flatMap_indicator_eq_nil p x n hzero]
        simp [hpk]
      · have hlast : p n x = false := by
          by_contra hpn
          exact hkn (huniq n ⟨by omega, by simpa using hpn⟩).symm
        rw [ih ⟨k, ⟨by omega, hpk⟩, fun i hi => huniq i ⟨by omega, hi.2⟩⟩]
        simp [hlast]

theorem pieces_cons (p : Nat → α → Bool) (x : α) (rows : List α) (n : Nat) :
    (pieces p n (x :: rows)).Perm
      (((List.range n).flatMap fun k => if p k x then [x] else []) ++ pieces p n rows) := by
  have hsplit : (fun k => (x :: rows).filter (p k)) =
      fun k => (if p k x then [x] else []) ++ rows.filter (p k) := by
    funext k
    by_cases hp : p k x = true <;> simp [hp]
  rw [pieces, hsplit]
  exact (List.flatMap_append_perm _ _ _).symm

/-- Putting the pieces of a disjoint cover together gives back the table. -/
theorem pieces_perm (p : Nat → α → Bool) (n : Nat) (hcover : DisjointCover p n)
    (rows : List α) : (pieces p n rows).Perm rows := by
  induction rows with
  | nil => simp [pieces]
  | cons x rows ih =>
      refine (pieces_cons p x rows n).trans ?_
      rw [flatMap_indicator_eq_single p x n (hcover x)]
      exact ih.cons x

/-- A query evaluated row by row gives the same rows from the pieces of a
disjoint cover as from the whole table. -/
theorem map_pieces_perm (f : α → β) (p : Nat → α → Bool) (n : Nat)
    (hcover : DisjointCover p n) (rows : List α) :
    ((List.range n).flatMap fun k => (rows.filter (p k)).map f).Perm (rows.map f) := by
  have hmap := (pieces_perm p n hcover rows).map f
  rwa [pieces, List.map_flatMap] at hmap

end AdbcBridge.Lib.Cuts
