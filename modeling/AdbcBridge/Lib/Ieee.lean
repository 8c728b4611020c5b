import AdbcBridge.Lib.Binary32
import Mathlib.Tactic.Ring

/-!
# The values of binary floating-point patterns

The value of a bit pattern in an interchange format of up to 64 bits.  Every number of such a
format is a whole number of units of 2 to the power of -1074, the smallest positive double.
-/

namespace AdbcBridge.Lib.Ieee

/-- What a pattern stands for; a magnitude counts units of 2 to the power of -1074. -/
inductive Value where
  | nan
  | infinite (negative : Bool)
  | finite (negative : Bool) (magnitude : Nat)
deriving DecidableEq, Repr

/-- The magnitude of a number, by its exponent and its fraction of `m` bits. -/
def magnitude (e m exponent fraction : Nat) : Nat :=
  (if exponent = 0 then fraction else (2 ^ m + fraction) * 2 ^ (exponent - 1)) *
    2 ^ (1074 - (2 ^ (e - 1) + m - 2))

/-- The value of a pattern with `e` bits of exponent and `m` bits of fraction. -/
def value (e m x : Nat) : Value :=
  if x / 2 ^ m % 2 ^ e = 2 ^ e - 1 then
    if x % 2 ^ m = 0 then .infinite (decide (x / 2 ^ (m + e) % 2 = 1)) else .nan
  else
    .finite (decide (x / 2 ^ (m + e) % 2 = 1)) (magnitude e m (x / 2 ^ m % 2 ^ e) (x % 2 ^ m))

/-- A value by its fields. -/
theorem value_fields {e m s exponent fraction : Nat} (hexponent : exponent < 2 ^ e)
    (hfraction : fraction < 2 ^ m) (hs : s < 2) :
    value e m (s * 2 ^ (m + e) + (exponent * 2 ^ m + fraction)) =
      if exponent = 2 ^ e - 1 then
        if fraction = 0 then .infinite (decide (s = 1)) else .nan
      else .finite (decide (s = 1)) (magnitude e m exponent fraction) := by
  have hm : 0 < 2 ^ m := Nat.two_pow_pos m
  have he : 0 < 2 ^ e := Nat.two_pow_pos e
  have hrest : exponent * 2 ^ m + fraction < 2 ^ (m + e) := by
    calc
      exponent * 2 ^ m + fraction < exponent * 2 ^ m + 2 ^ m := Nat.add_lt_add_left hfraction _
      _ = (exponent + 1) * 2 ^ m := (Nat.succ_mul _ _).symm
      _ ≤ 2 ^ e * 2 ^ m := Nat.mul_le_mul_right _ hexponent
      _ = 2 ^ (m + e) := by rw [Nat.add_comm, Nat.pow_add]
  have hsplit : s * 2 ^ (m + e) + (exponent * 2 ^ m + fraction) =
      fraction + 2 ^ m * (exponent + 2 ^ e * s) := by
    rw [Nat.pow_add]
    ring
  have hlow : (s * 2 ^ (m + e) + (exponent * 2 ^ m + fraction)) % 2 ^ m = fraction := by
    rw [hsplit, Nat.add_mul_mod_self_left, Nat.mod_eq_of_lt hfraction]
  have hmid : (s * 2 ^ (m + e) + (exponent * 2 ^ m + fraction)) / 2 ^ m % 2 ^ e = exponent := by
    rw [hsplit, Nat.add_mul_div_left _ _ hm, Nat.div_eq_of_lt hfraction, Nat.zero_add,
      Nat.add_mul_mod_self_left, Nat.mod_eq_of_lt hexponent]
  have hhigh : (s * 2 ^ (m + e) + (exponent * 2 ^ m + fraction)) / 2 ^ (m + e) % 2 = s := by
    rw [Nat.add_comm, Nat.add_mul_div_right _ _ (Nat.two_pow_pos _), Nat.div_eq_of_lt hrest,
      Nat.zero_add, Nat.mod_eq_of_lt hs]
  unfold value
  rw [hlow, hmid, hhigh]

theorem value_nan {x : Nat} (h : Binary32.isNaN x = true) : value 8 23 x = .nan := by
  obtain ⟨hexponent, hfraction⟩ : x / 2 ^ 23 % 2 ^ 8 = 255 ∧ x % 2 ^ 23 ≠ 0 := of_decide_eq_true h
  have htop : x / 2 ^ 23 % 2 ^ 8 = 2 ^ 8 - 1 := hexponent
  unfold value
  rw [if_pos htop, if_neg hfraction]

/-- A single that is widened to a double and narrowed again stands for the same value. -/
theorem value_narrow_widen (x : Nat) :
    value 8 23 (Binary32.narrow (Binary32.widen x)) = value 8 23 x := by
  cases hnan : Binary32.isNaN x with
  | true => rw [value_nan hnan, value_nan (Binary32.isNaN_narrow_widen hnan)]
  | false => rw [Binary32.narrow_widen hnan]

end AdbcBridge.Lib.Ieee
