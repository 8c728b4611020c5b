import Mathlib

/-!
# Decimal text of an integer

The text `printf` writes for a signed integer, and the reader that takes it back.
The lemmas bound its length, name its characters and give the round trip.
-/

namespace AdbcBridge.Lib.Decimal

/-- The decimal text of an integer, with a sign only if it is negative. -/
def intText (v : Int) : List Char :=
  if v < 0 then '-' :: Nat.toDigits 10 v.natAbs else Nat.toDigits 10 v.natAbs

/-- An unsigned decimal: one or more digits. -/
def parseNat (cs : List Char) : Option Nat :=
  if cs ≠ [] ∧ ∀ c ∈ cs, c.isDigit = true then some (Nat.ofDigitChars 10 cs 0) else none

/-- A decimal with an optional sign. -/
def parseInt (cs : List Char) : Option Int :=
  if cs.head? = some '-' then (parseNat cs.tail).map fun n : Nat => -Int.ofNat n
  else (parseNat cs).map Int.ofNat

theorem isDigit_of_mem_toDigits {n : Nat} {c : Char} (h : c ∈ Nat.toDigits 10 n) :
    c.isDigit = true :=
  Nat.isDigit_of_mem_toDigits (by omega) (by omega) h

theorem parseNat_toDigits (n : Nat) : parseNat (Nat.toDigits 10 n) = some n := by
  rw [parseNat, if_pos ⟨Nat.toDigits_ne_nil, fun c hc => isDigit_of_mem_toDigits hc⟩,
    Nat.ofDigitChars_ten_toDigits]

theorem toDigits_head_ne_minus (n : Nat) : (Nat.toDigits 10 n).head? ≠ some '-' := by
  intro h
  have hmem : '-' ∈ Nat.toDigits 10 n := List.mem_of_mem_head? h
  exact absurd (isDigit_of_mem_toDigits hmem) (by decide)

/-- The text of an integer reads back as the integer. -/
theorem parseInt_intText (v : Int) : parseInt (intText v) = some v := by
  unfold intText parseInt
  by_cases hv : v < 0
  · rw [if_pos hv, if_pos (List.head?_cons), List.tail_cons, parseNat_toDigits,
      Option.map_some, Option.some.injEq, Int.ofNat_eq_natCast]
    omega
  · rw [if_neg hv, if_neg (toDigits_head_ne_minus _), parseNat_toDigits,
      Option.map_some, Option.some.injEq, Int.ofNat_eq_natCast]
    omega

theorem intText_length_le {v : Int} {k : Nat} (hk : 0 < k) (hv : v.natAbs < 10 ^ k) :
    (intText v).length ≤ k + 1 := by
  have hdigits := (Nat.length_toDigits_le_iff (n := v.natAbs) (b := 10) (by omega) hk).2 hv
  unfold intText
  split
  · rw [List.length_cons]
    omega
  · omega

theorem intText_ne_nil (v : Int) : intText v ≠ [] := by
  unfold intText
  split
  · exact List.cons_ne_nil _ _
  · exact Nat.toDigits_ne_nil

theorem mem_intText {v : Int} {c : Char} (h : c ∈ intText v) : c = '-' ∨ c.isDigit = true := by
  unfold intText at h
  split at h
  · rcases List.mem_cons.1 h with h | h
    · exact Or.inl h
    · exact Or.inr (isDigit_of_mem_toDigits h)
  · exact Or.inr (isDigit_of_mem_toDigits h)

theorem intText_injective {v w : Int} (h : intText v = intText w) : v = w := by
  have hv := parseInt_intText v
  rw [h, parseInt_intText] at hv
  exact (Option.some.inj hv).symm

end AdbcBridge.Lib.Decimal
