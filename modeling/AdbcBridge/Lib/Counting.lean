import Mathlib

/-!
# Lists that count

Strictly increasing lists of numbers, and families of them: a family whose sum is the
least that its lengths allow counts `n + 1, n + 2, ...` in each of its lists.
-/

namespace AdbcBridge.Lib

/-- The sum of the first numbers above `n`. -/
def countSum (n len : Nat) : Nat := (List.range' (n + 1) len).sum

/-- Numbers that increase from above `n` add up to at least as much as if they counted. -/
theorem countSum_le {l : List Nat} {n : Nat} (h : l.Pairwise (· < ·)) (hpos : ∀ a ∈ l, n < a) :
    countSum n l.length ≤ l.sum := by
  induction l generalizing n with
  | nil => exact Nat.le_refl _
  | cons a l ih =>
      obtain ⟨hhead, htail⟩ := List.pairwise_cons.mp h
      have ha := hpos a List.mem_cons_self
      have hrest := ih htail fun b hb => lt_of_le_of_lt ha (hhead b hb)
      rw [countSum, List.length_cons, List.range'_succ, List.sum_cons, List.sum_cons]
      exact Nat.add_le_add ha hrest

/-- They add up to that only if they count. -/
theorem eq_range'_of_sum {l : List Nat} {n : Nat} (h : l.Pairwise (· < ·))
    (hpos : ∀ a ∈ l, n < a) (hsum : l.sum = countSum n l.length) :
    l = List.range' (n + 1) l.length := by
  induction l generalizing n with
  | nil => rfl
  | cons a l ih =>
      obtain ⟨hhead, htail⟩ := List.pairwise_cons.mp h
      have ha := hpos a List.mem_cons_self
      have habove : ∀ b ∈ l, n + 1 < b := fun b hb => lt_of_le_of_lt ha (hhead b hb)
      have hrest := countSum_le htail habove
      rw [countSum, List.length_cons, List.range'_succ, List.sum_cons, List.sum_cons] at hsum
      change a + l.sum = n + 1 + countSum (n + 1) l.length at hsum
      have hfirst : a = n + 1 := by omega
      have hothers := ih htail habove (by omega)
      rw [List.length_cons, List.range'_succ, ← hothers, hfirst]

/-- In a family whose sum is the least its lengths allow every list counts. -/
theorem family_counts {ls : List (List Nat)} {n : Nat} (h : ∀ l ∈ ls, l.Pairwise (· < ·))
    (hpos : ∀ l ∈ ls, ∀ a ∈ l, n < a)
    (hsum : ls.flatten.sum = (ls.map fun l => countSum n l.length).sum) :
    ∀ l ∈ ls, l = List.range' (n + 1) l.length := by
  induction ls with
  | nil => exact fun l hl => absurd hl List.not_mem_nil
  | cons l ls ih =>
      rw [List.forall_mem_cons] at h hpos
      rw [List.flatten_cons, List.sum_append, List.map_cons, List.sum_cons] at hsum
      have hfirst := countSum_le h.1 hpos.1
      have hothers : (ls.map fun l => countSum n l.length).sum ≤ ls.flatten.sum := by
        rw [List.sum_flatten]
        exact List.sum_le_sum fun l hl => countSum_le (h.2 l hl) (hpos.2 l hl)
      refine List.forall_mem_cons.mpr ⟨eq_range'_of_sum h.1 hpos.1 (by omega), ?_⟩
      exact ih h.2 hpos.2 (by omega)

end AdbcBridge.Lib
