import AdbcBridge.Lib.Decimal

/-!
# Decimal numerals

A decimal numeral is a sign that may be left out, digits, and a point with more digits
that may be left out as well.  A text is read as at most one numeral, whose value is a
rational; cutting it behind a number of fraction digits is a matter of digits, and so is
cutting a string of digits short.
-/

namespace AdbcBridge.Lib

/-- The number that a string of digits writes. -/
def digitsValue (ds : List Char) : Nat := Nat.ofDigitChars 10 ds 0

def AllDigits (ds : List Char) : Prop := ∀ c ∈ ds, c.isDigit = true

instance (ds : List Char) : Decidable (AllDigits ds) :=
  inferInstanceAs (Decidable (∀ c ∈ ds, c.isDigit = true))

theorem allDigits_nil : AllDigits [] := List.forall_mem_nil _

theorem allDigits_append {a b : List Char} : AllDigits (a ++ b) ↔ AllDigits a ∧ AllDigits b :=
  List.forall_mem_append

theorem allDigits_take {ds : List Char} (h : AllDigits ds) (k : Nat) : AllDigits (ds.take k) :=
  fun c hc => h c (List.mem_of_mem_take hc)

theorem allDigits_drop {ds : List Char} (h : AllDigits ds) (k : Nat) : AllDigits (ds.drop k) :=
  fun c hc => h c (List.mem_of_mem_drop hc)

theorem allDigits_zeros (k : Nat) : AllDigits (List.replicate k '0') := by
  intro c hc
  rw [List.eq_of_mem_replicate hc]
  decide

theorem allDigits_toDigits (n : Nat) : AllDigits (Nat.toDigits 10 n) :=
  fun _ hc => Decimal.isDigit_of_mem_toDigits hc

theorem digitsValue_nil : digitsValue [] = 0 := Nat.ofDigitChars_nil

theorem digitsValue_append (a b : List Char) :
    digitsValue (a ++ b) = digitsValue a * 10 ^ b.length + digitsValue b := by
  unfold digitsValue
  rw [Nat.ofDigitChars_append, Nat.ofDigitChars_eq_ofDigitChars_zero, mul_comm]

theorem digitsValue_zeros (k : Nat) : digitsValue (List.replicate k '0') = 0 := by
  unfold digitsValue
  rw [Nat.ofDigitChars_replicate_zero, mul_zero]

theorem digitsValue_lt {ds : List Char} (h : AllDigits ds) : digitsValue ds < 10 ^ ds.length := by
  induction ds using List.reverseRecOn with
  | nil => decide
  | append_singleton ds c ih =>
      have hc : c.toNat - '0'.toNat < 10 := by
        have hdigit := h c (by simp)
        unfold Char.isDigit at hdigit
        simp at hdigit
        have hle := UInt32.le_iff_toNat_le.mp hdigit.2
        simp at hle ⊢
        omega
      have hlast : digitsValue [c] = c.toNat - '0'.toNat := by
        simp [digitsValue, Nat.ofDigitChars_cons]
      have hds := ih fun d hd => h d (by simp [hd])
      rw [digitsValue_append, hlast, List.length_append, List.length_singleton, pow_add]
      omega

/-- Cutting digits off at the end divides by a power of ten. -/
theorem digitsValue_take {ds : List Char} (h : AllDigits ds) (k : Nat) :
    digitsValue (ds.take k) = digitsValue ds / 10 ^ (ds.length - k) := by
  have hdrop : digitsValue (ds.drop k) < 10 ^ (ds.length - k) := by
    have hlt := digitsValue_lt (allDigits_drop h k)
    rwa [List.length_drop] at hlt
  conv_rhs => rw [← List.take_append_drop k ds, digitsValue_append]
  rw [List.length_drop, List.take_append_drop, mul_comm,
    Nat.mul_add_div (Nat.pow_pos (by omega)), Nat.div_eq_of_lt hdrop, add_zero]

/-- Digits that are cut short keep their value if nothing is cut off or there is only
zero. -/
theorem digitsValue_take_eq_iff {ds : List Char} (h : AllDigits ds) (k : Nat) :
    digitsValue (ds.take k) = digitsValue ds ↔ ds.length ≤ k ∨ digitsValue ds = 0 := by
  rw [digitsValue_take h]
  constructor
  · intro hsame
    by_contra hcut
    push Not at hcut
    obtain ⟨hlong, hvalue⟩ := hcut
    have hpow : 1 < 10 ^ (ds.length - k) := Nat.one_lt_pow (by omega) (by omega)
    have hlt := Nat.div_lt_self (Nat.pos_of_ne_zero hvalue) hpow
    omega
  · intro hkept
    rcases hkept with hshort | hzero
    · rw [Nat.sub_eq_zero_of_le hshort, pow_zero, Nat.div_one]
    · rw [hzero, Nat.zero_div]

/-- The text is so many digits and writes this number. -/
structure FixedField (width n : Nat) (text : List Char) : Prop where
  digits : AllDigits text
  length : text.length = width
  value : digitsValue text = n

/-! ## Numerals -/

/-- A decimal numeral: its sign and the digits before and behind the point. -/
structure Numeral where
  neg : Bool
  whole : List Char
  frac : List Char
  whole_digits : AllDigits whole
  frac_digits : AllDigits frac
  nonempty : whole ++ frac ≠ []

namespace Numeral

def signed (neg : Bool) (v : Int) : Int := if neg then -v else v

/-- The value of a numeral. -/
def value (n : Numeral) : ℚ :=
  (signed n.neg (digitsValue (n.whole ++ n.frac)) : ℚ) / 10 ^ n.frac.length

/-- A sign, which a positive numeral may leave out. -/
def IsSign (neg : Bool) (s : List Char) : Prop :=
  if neg then s = ['-'] else s = [] ∨ s = ['+']

/-- What follows the digits before the point. -/
def IsTail (frac t : List Char) : Prop := t = '.' :: frac ∨ frac = [] ∧ t = []

/-- The text writes the numeral. -/
def Writes (n : Numeral) (text : List Char) : Prop :=
  ∃ sign tail, IsSign n.neg sign ∧ IsTail n.frac tail ∧ text = sign ++ (n.whole ++ tail)

def parseBody (neg : Bool) (body : List Char) : Option Numeral :=
  let whole := body.takeWhile Char.isDigit
  let rest := body.dropWhile Char.isDigit
  if h : (rest = [] ∨ rest.head? = some '.') ∧ AllDigits rest.tail ∧
      whole ++ rest.tail ≠ [] then
    some
      { neg
        whole
        frac := rest.tail
        whole_digits := fun _ hc => List.mem_takeWhile_imp hc
        frac_digits := h.2.1
        nonempty := h.2.2 }
  else none

/-- The numeral that a text writes. -/
def parse : List Char → Option Numeral
  | '-' :: body => parseBody true body
  | '+' :: body => parseBody false body
  | body => parseBody false body

theorem isTail_head {frac t : List Char} (h : IsTail frac t) :
    ∀ c ∈ t.head?, c.isDigit = false := by
  intro c hc
  rcases h with rfl | ⟨-, rfl⟩
  · rw [← Option.some.inj hc]
    decide
  · cases hc

/-- Digits, then something that begins with none. -/
theorem takeWhile_digits {ds t : List Char} (hds : AllDigits ds)
    (ht : ∀ c ∈ t.head?, c.isDigit = false) :
    (ds ++ t).takeWhile Char.isDigit = ds ∧ (ds ++ t).dropWhile Char.isDigit = t := by
  have htake : t.takeWhile Char.isDigit = [] ∧ t.dropWhile Char.isDigit = t := by
    cases t with
    | nil => exact ⟨rfl, rfl⟩
    | cons c t =>
        have hc := ht c rfl
        rw [List.takeWhile_cons, List.dropWhile_cons, hc]
        exact ⟨rfl, rfl⟩
  rw [List.takeWhile_append_of_pos hds, List.dropWhile_append_of_pos hds, htake.1, htake.2,
    List.append_nil]
  exact ⟨rfl, rfl⟩

theorem parseBody_tail {n : Numeral} {tail : List Char} (htail : IsTail n.frac tail) :
    parseBody n.neg (n.whole ++ tail) = some n := by
  obtain ⟨hwhole, hrest⟩ := takeWhile_digits n.whole_digits (isTail_head htail)
  have hfrac : tail.tail = n.frac := by
    rcases htail with rfl | ⟨hnone, rfl⟩
    · rfl
    · exact hnone.symm
  have hpoint : tail = [] ∨ tail.head? = some '.' := by
    rcases htail with rfl | ⟨-, rfl⟩
    · exact .inr rfl
    · exact .inl rfl
  unfold parseBody
  simp only [hwhole, hrest, hfrac]
  rw [dif_pos ⟨hpoint, n.frac_digits, n.nonempty⟩]

theorem parseBody_writes {neg : Bool} {body : List Char} {n : Numeral}
    (h : parseBody neg body = some n) :
    n.neg = neg ∧ ∃ tail, IsTail n.frac tail ∧ body = n.whole ++ tail := by
  unfold parseBody at h
  dsimp only at h
  split at h
  · rename_i hform
    rw [← Option.some.inj h]
    refine ⟨rfl, body.dropWhile Char.isDigit, ?_, List.takeWhile_append_dropWhile.symm⟩
    unfold IsTail
    dsimp only
    rcases hform.1 with hnone | hpoint
    · rw [hnone]
      exact .inr ⟨rfl, rfl⟩
    · exact .inl (List.eq_cons_of_mem_head? hpoint)
  · cases h

/-- The characters of a numeral behind its sign. -/
def IsBodyChar (c : Char) : Prop := c.isDigit = true ∨ c = '.'

theorem IsBodyChar.ne {c d : Char} (hc : IsBodyChar c) (hd : d.isDigit = false)
    (hpoint : d ≠ '.') : c ≠ d := by
  rintro rfl
  rcases hc with hdigit | rfl
  · rw [hd] at hdigit
    cases hdigit
  · exact hpoint rfl

theorem isBodyChar_of_mem {n : Numeral} {tail : List Char} (htail : IsTail n.frac tail) {c : Char}
    (hc : c ∈ n.whole ++ tail) : IsBodyChar c := by
  rcases List.mem_append.mp hc with hc | hc
  · exact .inl (n.whole_digits c hc)
  · rcases htail with rfl | ⟨-, rfl⟩
    · rcases List.mem_cons.mp hc with rfl | hc
      · exact .inr rfl
      · exact .inl (n.frac_digits c hc)
    · cases hc

theorem body_ne_nil {n : Numeral} {tail : List Char} (htail : IsTail n.frac tail) :
    n.whole ++ tail ≠ [] := by
  intro hnone
  obtain ⟨hwhole, htail'⟩ := List.append_eq_nil_iff.mp hnone
  rcases htail with rfl | ⟨hfrac, -⟩
  · cases htail'
  · exact n.nonempty (by rw [hwhole, hfrac]; rfl)

/-- A text is read as the numeral it writes, and as no other. -/
theorem parse_eq_some_iff {text : List Char} {n : Numeral} :
    parse text = some n ↔ n.Writes text := by
  constructor
  · intro h
    unfold parse at h
    split at h
    · obtain ⟨hneg, tail, htail, hbody⟩ := parseBody_writes h
      exact ⟨['-'], tail, by rw [IsSign, if_pos hneg], htail, by rw [hbody]; rfl⟩
    · obtain ⟨hneg, tail, htail, hbody⟩ := parseBody_writes h
      exact ⟨['+'], tail, by rw [IsSign, hneg]; simp, htail, by rw [hbody]; rfl⟩
    · obtain ⟨hneg, tail, htail, hbody⟩ := parseBody_writes h
      exact ⟨[], tail, by rw [IsSign, hneg]; simp, htail, by rw [hbody]; rfl⟩
  · intro h
    obtain ⟨sign, tail, hsign, htail, htext⟩ := h
    have hbody := parseBody_tail htail
    rw [htext]
    unfold IsSign at hsign
    split at hsign
    · rename_i hneg
      rw [hneg] at hbody
      rw [hsign]
      exact hbody
    · rename_i hneg
      rw [Bool.not_eq_true] at hneg
      rw [hneg] at hbody
      rcases hsign with hnone | hplus
      · obtain ⟨c, body, hhead⟩ := List.exists_cons_of_ne_nil (body_ne_nil htail)
        have hc := isBodyChar_of_mem htail (hhead ▸ List.mem_cons_self)
        rw [hhead] at hbody
        rw [hnone, List.nil_append, hhead]
        unfold parse
        split
        · rename_i heq
          exact absurd (List.cons.inj heq).1 (hc.ne (by decide) (by decide))
        · rename_i heq
          exact absurd (List.cons.inj heq).1 (hc.ne (by decide) (by decide))
        · exact hbody
      · rw [hplus]
        exact hbody

/-! ## Cutting the fraction -/

/-- A rational cut to an integer, toward zero. -/
def truncate (q : ℚ) : Int := if 0 ≤ q then ⌊q⌋ else -⌊-q⌋

/-- The digits up to the given number of fraction digits, filled up with zeros. -/
def scaled (n : Numeral) (scale : Nat) : List Char :=
  n.whole ++ (n.frac ++ List.replicate scale '0').take scale

theorem scaled_length (n : Numeral) (scale : Nat) :
    (n.scaled scale).length = n.whole.length + scale := by
  unfold scaled
  rw [List.length_append, List.length_take, List.length_append, List.length_replicate]
  omega

theorem scaled_digits (n : Numeral) (scale : Nat) : AllDigits (n.scaled scale) := by
  refine allDigits_append.mpr ⟨n.whole_digits, allDigits_take ?_ scale⟩
  exact allDigits_append.mpr ⟨n.frac_digits, allDigits_zeros scale⟩

/-- The digits of a numeral cut to a scale, as a quotient of its own. -/
theorem digitsValue_scaled (n : Numeral) (scale : Nat) :
    digitsValue (n.scaled scale) =
      digitsValue (n.whole ++ n.frac) * 10 ^ scale / 10 ^ n.frac.length := by
  have hall : n.scaled scale =
      ((n.whole ++ n.frac) ++ List.replicate scale '0').take (n.whole.length + scale) := by
    rw [List.append_assoc, List.take_length_add_append]
    rfl
  have hdigits : AllDigits ((n.whole ++ n.frac) ++ List.replicate scale '0') :=
    allDigits_append.mpr
      ⟨allDigits_append.mpr ⟨n.whole_digits, n.frac_digits⟩, allDigits_zeros scale⟩
  have hcut :
      ((n.whole ++ n.frac) ++ List.replicate scale '0').length - (n.whole.length + scale) =
        n.frac.length := by
    simp only [List.length_append, List.length_replicate]
    omega
  rw [hall, digitsValue_take hdigits, hcut, digitsValue_append, digitsValue_zeros,
    List.length_replicate, add_zero]

theorem truncate_signed (neg : Bool) (a b : Nat) :
    truncate ((signed neg a : Int) / (b : ℚ)) = signed neg (a / b : Nat) := by
  have hpos : (0 : ℚ) ≤ a / b := by positivity
  have hfloor : ⌊(a / b : ℚ)⌋ = ((a / b : Nat) : Int) := by
    rw [Rat.floor_natCast_div_natCast]
    rfl
  unfold truncate signed
  cases neg with
  | false =>
      simp only [Bool.false_eq_true, if_false]
      push_cast
      rw [if_pos hpos, hfloor]
      push_cast
      rfl
  | true =>
      simp only [if_true]
      push_cast
      rw [neg_div, neg_neg, hfloor]
      split
      · rename_i hneg
        have hzero : (a / b : ℚ) = 0 := by linarith
        rw [hzero] at hfloor ⊢
        rw [neg_zero, Int.floor_zero] at *
        push_cast at hfloor ⊢
        omega
      · push_cast
        rfl

/-- The value cut to a scale is written by the digits cut to it. -/
theorem truncate_value (n : Numeral) (scale : Nat) :
    truncate (n.value * 10 ^ scale) = signed n.neg (digitsValue (n.scaled scale)) := by
  have hquot : n.value * 10 ^ scale =
      (signed n.neg (digitsValue (n.whole ++ n.frac) * 10 ^ scale : Nat) : Int) /
        ((10 ^ n.frac.length : Nat) : ℚ) := by
    unfold value signed
    push_cast
    split
    · ring
    · ring
  rw [hquot, truncate_signed, digitsValue_scaled]

end Numeral

end AdbcBridge.Lib
