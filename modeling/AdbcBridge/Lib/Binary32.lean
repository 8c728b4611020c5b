import Mathlib.Algebra.Order.Ring.Nat
import Mathlib.Data.Nat.Log
import Mathlib.Tactic.Common
import Mathlib.Tactic.NormNum

/-!
# Single and double precision

The binary interchange formats of 32 and of 64 bits, as bit patterns.  A single is widened to
a double exactly, and narrowing, which rounds to the nearest and ties to even, gives it back.
Both conversions make a NaN quiet.
-/

namespace AdbcBridge.Lib.Binary32

/-- A single that is not a number. -/
def isNaN (x : Nat) : Bool := decide (x / 2 ^ 23 % 2 ^ 8 = 255 ∧ x % 2 ^ 23 ≠ 0)

/-- The exponent and the fraction of a single, as those of a double. -/
def widenMagnitude (e m : Nat) : Nat :=
  if e = 255 then 2047 * 2 ^ 52 + if m = 0 then 0 else 2 ^ 51 + m * 2 ^ 29 % 2 ^ 51
  else if e = 0 then
    if m = 0 then 0
    else (Nat.log2 m + 874) * 2 ^ 52 + (m * 2 ^ (52 - Nat.log2 m) - 2 ^ 52)
  else (e + 896) * 2 ^ 52 + m * 2 ^ 29

/-- A single as a double. -/
def widen (x : Nat) : Nat :=
  x / 2 ^ 31 * 2 ^ 63 + widenMagnitude (x / 2 ^ 23 % 2 ^ 8) (x % 2 ^ 23)

/-- `n` over a power of two, rounded to the nearest and ties to even. -/
def roundEven (n d : Nat) : Nat :=
  let q := n / 2 ^ d
  let rest := n % 2 ^ d
  if 2 ^ d < 2 * rest ∨ (2 ^ d = 2 * rest ∧ q % 2 = 1) then q + 1 else q

/-- The exponent and the fraction of a double, as those of a single. -/
def narrowMagnitude (e m : Nat) : Nat :=
  if e = 2047 then 255 * 2 ^ 23 + if m = 0 then 0 else 2 ^ 22 + m / 2 ^ 29 % 2 ^ 22
  else
    let significand := if e = 0 then m else 2 ^ 52 + m
    let place := max e 1
    -- the last place of the result is that of its 24 digits, or of the smallest single
    let dropped := max (Nat.log2 significand - 23) (926 - place)
    min ((place + dropped - 926) * 2 ^ 23 + roundEven significand dropped) (255 * 2 ^ 23)

/-- A double as a single. -/
def narrow (y : Nat) : Nat :=
  y / 2 ^ 63 * 2 ^ 31 + narrowMagnitude (y / 2 ^ 52 % 2 ^ 11) (y % 2 ^ 52)

theorem roundEven_mul (n d : Nat) : roundEven (n * 2 ^ d) d = n := by
  have hpos : 0 < 2 ^ d := Nat.two_pow_pos d
  unfold roundEven
  dsimp only
  rw [Nat.mul_mod_left, Nat.mul_div_cancel _ hpos, if_neg (by omega)]

theorem roundEven_zero (d : Nat) : roundEven 0 d = 0 := by
  have hmul := roundEven_mul 0 d
  rwa [Nat.zero_mul] at hmul

/-! ## There and back -/

theorem narrow_zero : narrowMagnitude 0 0 = 0 := by
  have hlead : Nat.log2 0 = 0 := by decide
  unfold narrowMagnitude
  rw [if_neg (by omega), if_pos rfl]
  dsimp only
  rw [roundEven_zero, hlead]
  omega

/-- The double of a subnormal single is normal. -/
theorem narrow_subnormal {m : Nat} (hm : m ≠ 0) (hlt : m < 2 ^ 23) :
    m * 2 ^ (52 - Nat.log2 m) < 2 ^ 53 ∧ 2 ^ 52 ≤ m * 2 ^ (52 - Nat.log2 m) ∧
      narrowMagnitude (Nat.log2 m + 874) (m * 2 ^ (52 - Nat.log2 m) - 2 ^ 52) = m := by
  have hlog : Nat.log2 m < 23 := (Nat.log2_lt hm).mpr hlt
  have hlow : 2 ^ Nat.log2 m ≤ m := Nat.log2_self_le hm
  have hhigh : m < 2 ^ (Nat.log2 m + 1) := Nat.lt_log2_self
  generalize Nat.log2 m = k at hlog hlow hhigh ⊢
  have hpos : 0 < 2 ^ (52 - k) := Nat.two_pow_pos _
  have hfloor : 2 ^ 52 ≤ m * 2 ^ (52 - k) := by
    calc
      2 ^ 52 = 2 ^ k * 2 ^ (52 - k) := by rw [← Nat.pow_add, Nat.add_sub_cancel' (by omega)]
      _ ≤ m * 2 ^ (52 - k) := Nat.mul_le_mul_right _ hlow
  have hceil : m * 2 ^ (52 - k) < 2 ^ 53 := by
    calc
      m * 2 ^ (52 - k) < 2 ^ (k + 1) * 2 ^ (52 - k) := Nat.mul_lt_mul_of_pos_right hhigh hpos
      _ = 2 ^ 53 := by
        rw [← Nat.pow_add]
        congr 1
        omega
  refine ⟨hceil, hfloor, ?_⟩
  have hlead : Nat.log2 (m * 2 ^ (52 - k)) = 52 := by
    apply (Nat.log2_eq_iff (by omega)).mpr
    exact ⟨hfloor, hceil⟩
  have hplace : max (k + 874) 1 = k + 874 := by omega
  have hdropped : max (52 - 23) (926 - (k + 874)) = 52 - k := by omega
  unfold narrowMagnitude
  rw [if_neg (by omega), if_neg (by omega), Nat.add_sub_cancel' hfloor]
  dsimp only
  rw [hlead, hplace, hdropped, roundEven_mul]
  omega

theorem narrow_normal {e m : Nat} (he : e ≠ 0) (hlt : e < 255) (hm : m < 2 ^ 23) :
    narrowMagnitude (e + 896) (m * 2 ^ 29) = e * 2 ^ 23 + m := by
  have hsig : 2 ^ 52 + m * 2 ^ 29 = (2 ^ 23 + m) * 2 ^ 29 := by omega
  have hlead : Nat.log2 (2 ^ 52 + m * 2 ^ 29) = 52 := by
    apply (Nat.log2_eq_iff (by omega)).mpr
    omega
  have hplace : max (e + 896) 1 = e + 896 := by omega
  have hdropped : max (52 - 23) (926 - (e + 896)) = 29 := by omega
  unfold narrowMagnitude
  rw [if_neg (by omega), if_neg (by omega)]
  dsimp only
  rw [hlead, hplace, hdropped, hsig, roundEven_mul]
  omega

/-- A magnitude is widened into the exponent and the fraction of a double, and from there it
is narrowed again. -/
theorem widenMagnitude_fields {e m : Nat} (he : e < 2 ^ 8) (hm : m < 2 ^ 23)
    (hnan : ¬ (e = 255 ∧ m ≠ 0)) :
    ∃ e' m', widenMagnitude e m = e' * 2 ^ 52 + m' ∧ e' < 2 ^ 11 ∧ m' < 2 ^ 52 ∧
      narrowMagnitude e' m' = e * 2 ^ 23 + m := by
  unfold widenMagnitude
  by_cases htop : e = 255
  · have hzero : m = 0 := by omega
    refine ⟨2047, 0, ?_, by norm_num, by norm_num, ?_⟩
    · rw [if_pos htop, if_pos hzero]
    · rw [htop, hzero]
      decide
  · rw [if_neg htop]
    by_cases hsub : e = 0
    · rw [if_pos hsub]
      by_cases hzero : m = 0
      · refine ⟨0, 0, ?_, by norm_num, by norm_num, ?_⟩
        · rw [if_pos hzero, Nat.zero_mul]
        · rw [hsub, hzero, narrow_zero, Nat.zero_mul]
      · have hlog : Nat.log2 m < 23 := (Nat.log2_lt hzero).mpr hm
        have hspec := narrow_subnormal hzero hm
        refine ⟨_, _, if_neg hzero, by omega, by omega, ?_⟩
        rw [hspec.2.2, hsub]
        omega
    · rw [if_neg hsub]
      exact ⟨e + 896, m * 2 ^ 29, rfl, by omega, by omega, narrow_normal hsub (by omega) hm⟩

/-- Narrowing goes by the fields of the double. -/
theorem narrow_fields {s e m : Nat} (he : e < 2 ^ 11) (hm : m < 2 ^ 52) :
    narrow (s * 2 ^ 63 + (e * 2 ^ 52 + m)) = s * 2 ^ 31 + narrowMagnitude e m := by
  have hsign : (s * 2 ^ 63 + (e * 2 ^ 52 + m)) / 2 ^ 63 = s := by omega
  have hexponent : (s * 2 ^ 63 + (e * 2 ^ 52 + m)) / 2 ^ 52 % 2 ^ 11 = e := by omega
  have hfraction : (s * 2 ^ 63 + (e * 2 ^ 52 + m)) % 2 ^ 52 = m := by omega
  unfold narrow
  rw [hsign, hexponent, hfraction]

/-- A number comes back as it was. -/
theorem narrow_widen {x : Nat} (h : isNaN x = false) : narrow (widen x) = x := by
  have hnumber : ¬ (x / 2 ^ 23 % 2 ^ 8 = 255 ∧ x % 2 ^ 23 ≠ 0) := of_decide_eq_false h
  obtain ⟨e', m', hwide, he, hm, hnarrow⟩ :=
    widenMagnitude_fields (Nat.mod_lt _ (by norm_num)) (Nat.mod_lt _ (by norm_num)) hnumber
  unfold widen
  rw [hwide, narrow_fields he hm, hnarrow]
  omega

/-- A NaN stays one. -/
theorem isNaN_narrow_widen {x : Nat} (h : isNaN x = true) : isNaN (narrow (widen x)) = true := by
  obtain ⟨hexponent, hfraction⟩ : x / 2 ^ 23 % 2 ^ 8 = 255 ∧ x % 2 ^ 23 ≠ 0 := of_decide_eq_true h
  have hwide : widenMagnitude 255 (x % 2 ^ 23) =
      2047 * 2 ^ 52 + (2 ^ 51 + x % 2 ^ 23 * 2 ^ 29 % 2 ^ 51) := by
    unfold widenMagnitude
    rw [if_pos rfl, if_neg hfraction]
  have hlt : 2 ^ 51 + x % 2 ^ 23 * 2 ^ 29 % 2 ^ 51 < 2 ^ 52 := by omega
  generalize hrest : 2 ^ 51 + x % 2 ^ 23 * 2 ^ 29 % 2 ^ 51 = m at hwide hlt
  have hnarrow : narrowMagnitude 2047 m = 255 * 2 ^ 23 + (2 ^ 22 + m / 2 ^ 29 % 2 ^ 22) := by
    unfold narrowMagnitude
    rw [if_pos rfl, if_neg (by omega)]
  unfold widen
  rw [hexponent, hwide, narrow_fields (by norm_num) hlt, hnarrow]
  unfold isNaN
  apply decide_eq_true
  omega

theorem widen_lt {x : Nat} (h : x < 2 ^ 32) : widen x < 2 ^ 64 := by
  have he : x / 2 ^ 23 % 2 ^ 8 < 2 ^ 8 := Nat.mod_lt _ (by norm_num)
  have hm : x % 2 ^ 23 < 2 ^ 23 := Nat.mod_lt _ (by norm_num)
  have hmagnitude : widenMagnitude (x / 2 ^ 23 % 2 ^ 8) (x % 2 ^ 23) < 2 ^ 63 := by
    by_cases hnan : x / 2 ^ 23 % 2 ^ 8 = 255 ∧ x % 2 ^ 23 ≠ 0
    · unfold widenMagnitude
      rw [if_pos hnan.1, if_neg hnan.2]
      omega
    · obtain ⟨e', m', hwide, he', hm', -⟩ := widenMagnitude_fields he hm hnan
      rw [hwide]
      omega
  unfold widen
  omega

theorem narrow_lt {y : Nat} (h : y < 2 ^ 64) : narrow y < 2 ^ 32 := by
  have hmagnitude : ∀ e m, narrowMagnitude e m < 2 ^ 31 := by
    intro e m
    unfold narrowMagnitude
    split
    · split <;> omega
    · dsimp only
      omega
  have hlt := hmagnitude (y / 2 ^ 52 % 2 ^ 11) (y % 2 ^ 52)
  unfold narrow
  omega

end AdbcBridge.Lib.Binary32
