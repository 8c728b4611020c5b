import AdbcBridge.Adbc.DateTime
import AdbcBridge.Lib.Numeral

/-!
# `struct ArrowDecimal`

How nanoarrow makes an integer of a string of digits, in 32-bit words that are multiplied
and added to nine digits at a time, and how it writes a decimal as text.
-/

namespace AdbcBridge.Adbc

open AdbcBridge.Lib

/-! ## From digits to words -/

/-- The inner loop of `ShiftAndAdd`: the words, the least significant first, multiplied and
added to. -/
def mulAdd (multiple : Nat) : Nat → List Nat → List Nat
  | _, [] => []
  | chunk, w :: words =>
      (w * multiple + chunk) % 2 ^ 32 :: mulAdd multiple ((w * multiple + chunk) / 2 ^ 32) words

/-- `ShiftAndAdd`. -/
def shiftAndAdd (value : List Char) (out : List Nat) : List Nat :=
  if value = [] then out
  else
    let group := value.take 9
    shiftAndAdd (value.drop 9) (mulAdd (10 ^ group.length) (digitsValue group) out)
termination_by value.length
decreasing_by
  rename_i hne
  have := List.length_pos_iff.mpr hne
  rw [List.length_drop]
  omega

/-- The number that the words hold. -/
def wordsValue : List Nat → Nat
  | [] => 0
  | w :: words => w + 2 ^ 32 * wordsValue words

theorem length_mulAdd (multiple chunk : Nat) (words : List Nat) :
    (mulAdd multiple chunk words).length = words.length := by
  induction words generalizing chunk with
  | nil => rfl
  | cons w words ih => rw [mulAdd, List.length_cons, ih, List.length_cons]

/-- The words take the product and the sum round at their end. -/
theorem wordsValue_mulAdd (multiple chunk : Nat) (words : List Nat) :
    wordsValue (mulAdd multiple chunk words) =
      (wordsValue words * multiple + chunk) % 2 ^ (32 * words.length) := by
  induction words generalizing chunk with
  | nil => simp [mulAdd, wordsValue, Nat.mod_one]
  | cons w words ih =>
      have hshift : (w + 2 ^ 32 * wordsValue words) * multiple + chunk =
          (w * multiple + chunk) + 2 ^ 32 * (wordsValue words * multiple) := by ring
      have hquot : ((w + 2 ^ 32 * wordsValue words) * multiple + chunk) / 2 ^ 32 =
          wordsValue words * multiple + (w * multiple + chunk) / 2 ^ 32 := by
        rw [hshift, Nat.add_mul_div_left _ _ (by norm_num), add_comm]
      have hrest : ((w + 2 ^ 32 * wordsValue words) * multiple + chunk) % 2 ^ 32 =
          (w * multiple + chunk) % 2 ^ 32 := by
        rw [hshift, Nat.add_mul_mod_self_left]
      rw [mulAdd, wordsValue, ih, wordsValue, List.length_cons, Nat.mul_succ, Nat.add_comm,
        Nat.pow_add, Nat.mul_comm (2 ^ (32 * words.length)), Nat.mod_mul, hquot, hrest,
        Nat.add_comm]

theorem wordsValue_shiftAndAdd (value : List Char) (out : List Nat) :
    wordsValue (shiftAndAdd value out) % 2 ^ (32 * out.length) =
      (wordsValue out * 10 ^ value.length + digitsValue value) % 2 ^ (32 * out.length) := by
  induction value, out using shiftAndAdd.induct with
  | case1 out => simp [shiftAndAdd, digitsValue_nil]
  | case2 value out hne group ih =>
      have hsplit : digitsValue value =
          digitsValue group * 10 ^ (value.drop 9).length + digitsValue (value.drop 9) := by
        rw [← digitsValue_append, List.take_append_drop]
      have hlength : value.length = group.length + (value.drop 9).length := by
        rw [← List.length_append, List.take_append_drop]
      rw [length_mulAdd, wordsValue_mulAdd] at ih
      rw [shiftAndAdd, if_neg hne, ih, Nat.add_mod, Nat.mod_mul_mod, ← Nat.add_mod, hsplit,
        hlength, pow_add]
      congr 1
      ring

/-- `ArrowDecimalNegate`, in two's complement. -/
def arrowDecimalNegate (bits : Nat) (v : Int) : Int := signedCast bits (-v)

/-- `ArrowDecimalSetDigits` for a decimal of so many bits; `none` is `EINVAL`. -/
def arrowDecimalSetDigits (bits : Nat) (value : List Char) : Option Int :=
  let isNegative := value.head? = some '-'
  let hasSign := isNegative ∨ value.head? = some '+'
  let value := if hasSign then value.tail else value
  if AllDigits value then
    let digits := value.dropWhile (· = '0')
    let words := shiftAndAdd digits (List.replicate (bits / 32) 0)
    let v := signedCast bits (wordsValue words)
    some (if isNegative then arrowDecimalNegate bits v else v)
  else none

theorem digitsValue_dropZeros (ds : List Char) :
    digitsValue (ds.dropWhile (· = '0')) = digitsValue ds := by
  induction ds with
  | nil => rfl
  | cons c ds ih =>
      by_cases hc : c = '0'
      · have hzero : digitsValue ['0'] = 0 := by decide
        rw [List.dropWhile_cons_of_pos (by simpa using hc), ih, hc, ← List.singleton_append,
          digitsValue_append, hzero, zero_mul, zero_add]
      · rw [List.dropWhile_cons_of_neg (by simpa using hc)]

theorem wordsValue_zeros (k : Nat) : wordsValue (List.replicate k 0) = 0 := by
  induction k with
  | zero => rfl
  | succ k ih => rw [List.replicate_succ, wordsValue, ih, mul_zero, add_zero]

/-- A cast depends on the rest modulo its width only. -/
theorem signedCast_congr {bits a b : Nat} (h : a % 2 ^ bits = b % 2 ^ bits) :
    signedCast bits a = signedCast bits b := by
  have hint : (a : Int) % (2 ^ bits : Nat) = (b : Int) % (2 ^ bits : Nat) := by
    exact_mod_cast h
  unfold signedCast
  rw [← Int.emod_bmod, hint, Int.emod_bmod]

/-- A string of digits is taken as its number, round the width of the decimal. -/
theorem arrowDecimalSetDigits_eq {value : List Char} (h : AllDigits value) (words : Nat) :
    arrowDecimalSetDigits (32 * words) value =
      some (signedCast (32 * words) (digitsValue value)) := by
  have hunsigned : ∀ c, c.isDigit = false → value.head? ≠ some c := by
    intro c hc hhead
    rw [h c (List.mem_of_mem_head? hhead)] at hc
    cases hc
  have hminus := hunsigned '-' (by decide)
  have hplus := hunsigned '+' (by decide)
  have hwords := wordsValue_shiftAndAdd (value.dropWhile (· = '0')) (List.replicate words 0)
  rw [List.length_replicate, wordsValue_zeros, zero_mul, zero_add,
    digitsValue_dropZeros] at hwords
  unfold arrowDecimalSetDigits
  simp only [hminus, hplus, or_self, if_false]
  rw [if_pos h, Nat.mul_div_cancel_left _ (by omega), signedCast_congr hwords]

/-! ## From a decimal to its text -/

/-- `ArrowDecimalAppendStringToBuffer` into an empty buffer.  The digits themselves are those
of `ArrowDecimalAppendDigitsToBuffer`, the integer in decimal. -/
def arrowDecimalString (unscaled scale : Int) : List Char :=
  let digits := Decimal.intText unscaled
  if scale ≤ 0 then digits ++ List.replicate (-scale).toNat '0'
  else
    let isNegative : Nat := if digits.head? = some '-' then 1 else 0
    let numDigits := digits.length - isNegative
    let scale := scale.toNat
    if numDigits ≤ scale then
      digits.take isNegative ++ '0' :: '.' :: List.replicate (scale - numDigits) '0' ++
        digits.drop isNegative
    else digits.take (digits.length - scale) ++ '.' :: digits.drop (digits.length - scale)

/-- The digits of a decimal before the point. -/
def wholeDigits (unscaled scale : Int) : List Char :=
  let digits := Nat.toDigits 10 unscaled.natAbs
  if scale ≤ 0 then digits ++ List.replicate (-scale).toNat '0'
  else if digits.length ≤ scale.toNat then ['0']
  else digits.take (digits.length - scale.toNat)

/-- The digits of a decimal behind the point. -/
def fracDigits (unscaled scale : Int) : List Char :=
  let digits := Nat.toDigits 10 unscaled.natAbs
  if scale ≤ 0 then []
  else if digits.length ≤ scale.toNat then
    List.replicate (scale.toNat - digits.length) '0' ++ digits
  else digits.drop (digits.length - scale.toNat)

theorem wholeDigits_digits (unscaled scale : Int) : AllDigits (wholeDigits unscaled scale) := by
  unfold wholeDigits
  dsimp only
  split
  · exact allDigits_append.mpr ⟨allDigits_toDigits _, allDigits_zeros _⟩
  · split
    · exact allDigits_zeros 1
    · exact allDigits_take (allDigits_toDigits _) _

theorem fracDigits_digits (unscaled scale : Int) : AllDigits (fracDigits unscaled scale) := by
  unfold fracDigits
  dsimp only
  split
  · exact allDigits_zeros 0
  · split
    · exact allDigits_append.mpr ⟨allDigits_zeros _, allDigits_toDigits _⟩
    · exact allDigits_drop (allDigits_toDigits _) _

theorem wholeDigits_ne_nil (unscaled scale : Int) : wholeDigits unscaled scale ≠ [] := by
  have hdigits : Nat.toDigits 10 unscaled.natAbs ≠ [] := Nat.toDigits_ne_nil
  unfold wholeDigits
  dsimp only
  split
  · exact List.append_ne_nil_of_left_ne_nil hdigits _
  · split
    · exact List.cons_ne_nil _ _
    · rw [ne_eq, List.take_eq_nil_iff]
      have hlength := List.length_pos_iff.mpr hdigits
      push Not
      exact ⟨by omega, hdigits⟩

/-- The numeral of a decimal. -/
def decimalNumeral (unscaled scale : Int) : Numeral where
  neg := decide (unscaled < 0)
  whole := wholeDigits unscaled scale
  frac := fracDigits unscaled scale
  whole_digits := wholeDigits_digits unscaled scale
  frac_digits := fracDigits_digits unscaled scale
  nonempty := List.append_ne_nil_of_left_ne_nil (wholeDigits_ne_nil unscaled scale) _

/-- The text of a decimal, by its sign and its digits. -/
theorem arrowDecimalString_eq (unscaled scale : Int) :
    arrowDecimalString unscaled scale =
      (if unscaled < 0 then ['-'] else []) ++ (wholeDigits unscaled scale ++
        if scale ≤ 0 then [] else '.' :: fracDigits unscaled scale) := by
  have hhead := Decimal.toDigits_head_ne_minus unscaled.natAbs
  have hne : Nat.toDigits 10 unscaled.natAbs ≠ [] := Nat.toDigits_ne_nil
  unfold arrowDecimalString wholeDigits fracDigits Decimal.intText
  generalize Nat.toDigits 10 unscaled.natAbs = digits at hhead hne ⊢
  have hlength := List.length_pos_iff.mpr hne
  by_cases hscale : scale ≤ 0
  · simp only [if_pos hscale, List.append_nil]
    split
    · rfl
    · rfl
  · simp only [if_neg hscale]
    by_cases hneg : unscaled < 0
    · simp only [if_pos hneg, List.head?_cons, if_true, List.length_cons, Nat.add_sub_cancel]
      by_cases hshort : digits.length ≤ scale.toNat
      · simp [if_pos hshort]
      · have hcut : digits.length + 1 - scale.toNat = digits.length - scale.toNat + 1 := by
          omega
        simp only [if_neg hshort, hcut, List.take_succ_cons, List.drop_succ_cons]
        rfl
    · simp only [if_neg hneg, if_neg hhead, Nat.sub_zero]
      by_cases hshort : digits.length ≤ scale.toNat
      · simp [if_pos hshort]
      · simp only [if_neg hshort]
        rfl

theorem arrowDecimalString_writes (unscaled scale : Int) :
    (decimalNumeral unscaled scale).Writes (arrowDecimalString unscaled scale) := by
  refine ⟨_, _, ?_, ?_, arrowDecimalString_eq unscaled scale⟩
  · unfold Numeral.IsSign decimalNumeral
    by_cases hneg : unscaled < 0
    · simp [hneg]
    · simp [hneg]
  · unfold Numeral.IsTail decimalNumeral
    dsimp only
    by_cases hscale : scale ≤ 0
    · rw [if_pos hscale]
      refine .inr ⟨?_, rfl⟩
      unfold fracDigits
      rw [if_pos hscale]
    · rw [if_neg hscale]
      exact .inl rfl

theorem digitsValue_toDigits (n : Nat) : digitsValue (Nat.toDigits 10 n) = n :=
  Nat.ofDigitChars_ten_toDigits

/-- The digits around the point are those of the integer, with zeros at one end. -/
theorem digitsValue_decimal (unscaled scale : Int) :
    digitsValue (wholeDigits unscaled scale ++ fracDigits unscaled scale) =
        unscaled.natAbs * 10 ^ (-scale).toNat ∧
      (fracDigits unscaled scale).length = scale.toNat := by
  have hvalue := digitsValue_toDigits unscaled.natAbs
  unfold wholeDigits fracDigits
  generalize Nat.toDigits 10 unscaled.natAbs = digits at hvalue ⊢
  dsimp only
  by_cases hscale : scale ≤ 0
  · rw [if_pos hscale, if_pos hscale, List.append_nil, digitsValue_append, digitsValue_zeros,
      hvalue, List.length_replicate, add_zero]
    exact ⟨rfl, by rw [List.length_nil]; omega⟩
  · have hzero : (-scale).toNat = 0 := by omega
    rw [if_neg hscale, if_neg hscale, hzero, pow_zero, mul_one]
    by_cases hshort : digits.length ≤ scale.toNat
    · have hnull : digitsValue ['0'] = 0 := by decide
      rw [if_pos hshort, if_pos hshort, digitsValue_append, digitsValue_append, digitsValue_zeros,
        hnull, hvalue, List.length_append, List.length_replicate]
      exact ⟨by ring, by omega⟩
    · rw [if_neg hshort, if_neg hshort, List.take_append_drop, List.length_drop]
      exact ⟨hvalue, by omega⟩

/-- The numeral has the value of the decimal. -/
theorem decimalNumeral_value (unscaled scale : Int) :
    (decimalNumeral unscaled scale).value = (unscaled : ℚ) * 10 ^ (-scale) := by
  obtain ⟨hvalue, hlength⟩ := digitsValue_decimal unscaled scale
  have hsigned :
      Numeral.signed (decide (unscaled < 0)) (unscaled.natAbs * 10 ^ (-scale).toNat : Nat) =
        unscaled * 10 ^ (-scale).toNat := by
    unfold Numeral.signed
    by_cases hneg : unscaled < 0
    · have habs : (unscaled.natAbs : Int) = -unscaled := by omega
      rw [if_pos (decide_eq_true hneg)]
      push_cast
      rw [Int.abs_eq_natAbs, habs]
      ring
    · have habs : (unscaled.natAbs : Int) = unscaled := by omega
      rw [if_neg (by simpa using hneg)]
      push_cast
      rw [Int.abs_eq_natAbs, habs]
  unfold Numeral.value decimalNumeral
  dsimp only
  rw [hvalue, hlength, hsigned]
  by_cases hscale : scale ≤ 0
  · obtain ⟨k, rfl⟩ : ∃ k : Nat, scale = -k := ⟨(-scale).toNat, by omega⟩
    simp
  · obtain ⟨k, rfl⟩ : ∃ k : Nat, scale = k := ⟨scale.toNat, by omega⟩
    simp [div_eq_mul_inv]

end AdbcBridge.Adbc
