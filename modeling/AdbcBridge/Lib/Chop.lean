import Mathlib.Data.List.Basic

/-!
# Chopping an interval

An interval of numbers is chopped from the left into pieces of a limited
length.  Each piece is a start and a length; the pieces follow one another and
together are the interval.
-/

namespace AdbcBridge.Lib.Chop

/-- The pieces of `off` to `n`, each as long as the limit allows. -/
def pieces (limit n off : Nat) : List (Nat × Nat) :=
  if off < n ∧ 0 < limit then
    (off, min (n - off) limit) :: pieces limit n (off + min (n - off) limit)
  else []
termination_by n - off

variable {limit n off : Nat}

/-- Every piece is nonempty, within the limit and inside the interval. -/
theorem mem_pieces {p : Nat × Nat} (h : p ∈ pieces limit n off) :
    0 < p.2 ∧ p.2 ≤ limit ∧ off ≤ p.1 ∧ p.1 + p.2 ≤ n := by
  induction off using pieces.induct limit n with
  | case1 off hoff ih =>
      rw [pieces, if_pos hoff, List.mem_cons] at h
      rcases h with rfl | h
      · dsimp only
        omega
      · have := ih h
        omega
  | case2 off hoff =>
      rw [pieces, if_neg hoff] at h
      exact absurd h List.not_mem_nil

/-- The pieces cover the interval in order, without gap or overlap. -/
theorem pieces_cover (hlimit : 0 < limit) :
    (pieces limit n off).flatMap (fun p => List.range' p.1 p.2) = List.range' off (n - off) := by
  induction off using pieces.induct limit n with
  | case1 off hoff ih =>
      have hsum : min (n - off) limit + (n - (off + min (n - off) limit)) = n - off := by omega
      rw [pieces, if_pos hoff, List.flatMap_cons, ih, List.range'_append_1, hsum]
  | case2 off hoff =>
      have hzero : n - off = 0 := by omega
      rw [pieces, if_neg hoff, hzero, List.flatMap_nil, List.range'_zero]

end AdbcBridge.Lib.Chop
