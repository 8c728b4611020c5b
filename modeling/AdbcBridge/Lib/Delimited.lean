import Mathlib

/-!
# Cutting at a delimiter

A list cut at the first or at the last place of a delimiter; without one there is no
second part.
-/

namespace AdbcBridge.Lib.Delimited

variable {α : Type*} [DecidableEq α]

/-- What stands in front of the first delimiter, and what stands behind it. -/
def cut (sep : α) (s : List α) : List α × Option (List α) :=
  (s.takeWhile (· ≠ sep), (s.dropWhile (· ≠ sep)).tail?)

/-- What stands in front of the last delimiter, and what stands behind it. -/
def lastCut (sep : α) (s : List α) : Option (List α) × List α :=
  ((cut sep s.reverse).2.map List.reverse, (cut sep s.reverse).1.reverse)

theorem cut_append {sep : α} {a : List α} (h : sep ∉ a) (b : List α) :
    cut sep (a ++ sep :: b) = (a, some b) := by
  have hall : ∀ c ∈ a, decide (c ≠ sep) = true :=
    fun c hc => decide_eq_true fun heq => h (heq ▸ hc)
  rw [cut, List.takeWhile_append_of_pos hall, List.dropWhile_append_of_pos hall,
    List.takeWhile_cons_of_neg (by simp), List.dropWhile_cons_of_neg (by simp),
    List.append_nil, List.tail?_cons]

theorem cut_of_not_mem {sep : α} {a : List α} (h : sep ∉ a) : cut sep a = (a, none) := by
  have hall : ∀ c ∈ a, decide (c ≠ sep) = true :=
    fun c hc => decide_eq_true fun heq => h (heq ▸ hc)
  rw [cut, List.takeWhile_eq_self_iff.mpr hall, List.dropWhile_eq_nil_iff.mpr hall,
    List.tail?_nil]

theorem cut_snd_eq_none_iff {sep : α} {s : List α} : (cut sep s).2 = none ↔ sep ∉ s := by
  constructor
  · intro h hmem
    cases hdrop : s.dropWhile (· ≠ sep) with
    | nil => exact absurd (List.dropWhile_eq_nil_iff.mp hdrop sep hmem) (by simp)
    | cons c rest =>
        rw [cut, hdrop, List.tail?_cons] at h
        cases h
  · intro h
    rw [cut_of_not_mem h]

/-- What stands behind a delimiter is shorter by it. -/
theorem cut_length {sep : α} {s b : List α} (h : (cut sep s).2 = some b) :
    b.length < s.length := by
  have hdrop := List.length_dropWhile_le (· ≠ sep) s
  cases hrest : s.dropWhile (· ≠ sep) with
  | nil =>
      rw [cut, hrest] at h
      cases h
  | cons c rest =>
      rw [cut, hrest, List.tail?_cons, Option.some.injEq] at h
      rw [hrest, List.length_cons, h] at hdrop
      omega

theorem lastCut_append {sep : α} {b : List α} (h : sep ∉ b) (a : List α) :
    lastCut sep (a ++ sep :: b) = (some a, b) := by
  have hrev : (a ++ sep :: b).reverse = b.reverse ++ sep :: a.reverse := by simp
  rw [lastCut, hrev, cut_append fun hmem => h (List.mem_reverse.mp hmem)]
  simp

theorem lastCut_of_not_mem {sep : α} {a : List α} (h : sep ∉ a) :
    lastCut sep a = (none, a) := by
  rw [lastCut, cut_of_not_mem fun hmem => h (List.mem_reverse.mp hmem)]
  simp

end AdbcBridge.Lib.Delimited
