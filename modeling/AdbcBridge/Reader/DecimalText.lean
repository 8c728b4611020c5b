import AdbcBridge.Adbc.ArrowDecimal

/-!
# Decimals read from text

`AppendDecimalString` collects the digits of a text in a buffer that has room for 63 of
them.  What it makes of a text is the number of the first 63 digits of the text's numeral
cut to the column's scale, and it stops at the first blank.
-/

namespace AdbcBridge.Reader

open AdbcBridge.Adbc AdbcBridge.Lib

/-- The digits that `char digits[64]` has room for. -/
def digitRoom : Nat := 63

/-- `if (nd < sizeof(digits) - 1) digits[nd++] = ch`. -/
def pushDigit (digits : List Char) (ch : Char) : List Char :=
  if digits.length < digitRoom then digits ++ [ch] else digits

/-- The loop over the characters.  `fracSeen` is none before the point; the answer none is
`EINVAL`. -/
def scanDigits (scale : Nat) : List Char → List Char → Option Nat →
    Option (List Char × Option Nat)
  | [], digits, fracSeen => some (digits, fracSeen)
  | ch :: s, digits, fracSeen =>
      if ch.isDigit then
        match fracSeen with
        | some seen =>
            if scale ≤ seen then scanDigits scale s digits (some seen)
            else scanDigits scale s (pushDigit digits ch) (some (seen + 1))
        | none => scanDigits scale s (pushDigit digits ch) none
      else if ch = '.' ∧ fracSeen = none then scanDigits scale s digits (some 0)
      else if ch = '\x00' ∨ ch = ' ' then some (digits, fracSeen)
      else none

/-- The loop that fills up the fraction with zeros. -/
def padDigits : Nat → List Char → List Char
  | 0, digits => digits
  | missing + 1, digits =>
      if digits.length < digitRoom then padDigits missing (digits ++ ['0']) else digits

/-- The text behind the blanks and the plus signs that `AppendDecimalString` skips. -/
def lead (s : List Char) : List Char := s.dropWhile fun c => c = ' ' ∨ c = '+'

/-- The text behind a minus as well. -/
def unsignedText (s : List Char) : List Char :=
  if (lead s).head? = some '-' then (lead s).tail else lead s

/-- `AppendDecimalString`, up to the append of the 128-bit integer; none is an error.  The
precision goes into `ArrowDecimalInit`, and nothing reads it there. -/
def appendDecimalString (s : List Char) (_precision scale : Nat) : Option Int :=
  (scanDigits scale (unsignedText s) [] none).bind fun (digits, fracSeen) =>
    let digits := padDigits (scale - fracSeen.getD 0) digits
    let digits := if digits = [] then ['0'] else digits
    (arrowDecimalSetDigits 128 digits).map fun v =>
      if (lead s).head? = some '-' then arrowDecimalNegate 128 v else v

/-! ## The loop -/

theorem pushDigit_eq {digits : List Char} (h : digits.length ≤ digitRoom) (ch : Char) :
    pushDigit digits ch = (digits ++ [ch]).take digitRoom := by
  unfold pushDigit
  split
  · rw [List.take_of_length_le (by simp; omega)]
  · have hfull : digits.length = digitRoom := by omega
    rw [← hfull, List.take_left]

theorem padDigits_eq {digits : List Char} (h : digits.length ≤ digitRoom) (missing : Nat) :
    padDigits missing digits = (digits ++ List.replicate missing '0').take digitRoom := by
  induction missing generalizing digits with
  | zero =>
      rw [padDigits, List.replicate_zero, List.append_nil, List.take_of_length_le h]
  | succ missing ih =>
      rw [padDigits]
      split
      · rename_i hroom
        rw [ih (by simp; omega), List.append_assoc, List.singleton_append,
          ← List.replicate_succ]
      · have hfull : digits.length = digitRoom := by omega
        rw [← hfull, List.take_left]

/-- What comes before the first blank. -/
def field (s : List Char) : List Char := s.takeWhile fun c => c ≠ '\x00' ∧ c ≠ ' '

/-- Digits, and at most one point in or around them. -/
def Acceptable (body : List Char) : Prop :=
  let rest := body.dropWhile Char.isDigit
  rest = [] ∨ rest.head? = some '.' ∧ AllDigits rest.tail

instance (body : List Char) : Decidable (Acceptable body) :=
  inferInstanceAs (Decidable (_ ∨ _ ∧ AllDigits _))

theorem field_nil : field [] = [] := rfl

theorem field_cons {c : Char} (hc : c ≠ '\x00' ∧ c ≠ ' ') (s : List Char) :
    field (c :: s) = c :: field s := by
  unfold field
  rw [List.takeWhile_cons_of_pos (by simpa using hc)]

theorem field_blank {c : Char} (hc : c = '\x00' ∨ c = ' ') (s : List Char) :
    field (c :: s) = [] := by
  unfold field
  rw [List.takeWhile_cons_of_neg (by rcases hc with rfl | rfl <;> decide)]

theorem not_blank_of_digit {c : Char} (hc : c.isDigit = true) : c ≠ '\x00' ∧ c ≠ ' ' := by
  constructor
  · rintro rfl
    exact absurd hc (by decide)
  · rintro rfl
    exact absurd hc (by decide)

/-- A buffer that is cut takes more digits as one that is not. -/
theorem take_append_take (a b : List Char) (k : Nat) :
    (a.take k ++ b).take k = (a ++ b).take k := by
  rw [List.take_append, List.take_append, List.take_take, Nat.min_self, List.length_take]
  congr 1
  by_cases hlong : k ≤ a.length
  · have hzero : k - min k a.length = k - a.length := by omega
    rw [hzero]
  · have hmin : min k a.length = a.length := by omega
    rw [hmin]

/-- The fraction: its digits up to the scale are kept, and nothing but digits accepted. -/
theorem scanDigits_frac (scale : Nat) (s : List Char) {digits : List Char} {seen : Nat}
    (hroom : digits.length ≤ digitRoom) (hseen : seen ≤ scale) :
    scanDigits scale s digits (some seen) =
      if AllDigits (field s) then
        some ((digits ++ (field s).take (scale - seen)).take digitRoom,
          some (min scale (seen + (field s).length)))
      else none := by
  induction s generalizing digits seen with
  | nil =>
      rw [field_nil, if_pos allDigits_nil, scanDigits, List.take_nil, List.append_nil,
        List.take_of_length_le hroom, List.length_nil, add_zero, Nat.min_eq_right hseen]
  | cons c s ih =>
      rw [scanDigits]
      by_cases hdigit : c.isDigit = true
      · rw [if_pos hdigit, field_cons (not_blank_of_digit hdigit)]
        have hall : AllDigits (c :: field s) ↔ AllDigits (field s) := by
          unfold AllDigits
          rw [List.forall_mem_cons]
          exact and_iff_right hdigit
        simp only [hall, List.length_cons]
        by_cases hdone : scale ≤ seen
        · have hzero : scale - seen = 0 := by omega
          rw [if_pos hdone, ih hroom hseen, hzero, List.take_zero, List.take_zero]
          have hmin : min scale (seen + (field s).length) =
              min scale (seen + ((field s).length + 1)) := by omega
          rw [hmin]
        · obtain ⟨k, hk⟩ : ∃ k, scale - seen = k + 1 := ⟨scale - seen - 1, by omega⟩
          have hnext : scale - (seen + 1) = k := by omega
          have hlength : ((digits ++ [c]).take digitRoom).length ≤ digitRoom := by
            rw [List.length_take]
            omega
          rw [if_neg hdone, pushDigit_eq hroom, ih hlength (by omega), take_append_take, hk,
            hnext, List.take_succ_cons, List.append_assoc, List.singleton_append]
          have hmin : min scale (seen + 1 + (field s).length) =
              min scale (seen + ((field s).length + 1)) := by omega
          rw [hmin]
      · rw [if_neg hdigit, if_neg (by simp)]
        by_cases hblank : c = '\x00' ∨ c = ' '
        · rw [if_pos hblank, field_blank hblank, if_pos allDigits_nil, List.take_nil,
            List.append_nil, List.take_of_length_le hroom, List.length_nil, add_zero,
            Nat.min_eq_right hseen]
        · push Not at hblank
          rw [if_neg (by push Not; exact hblank), field_cons hblank, if_neg]
          exact fun hall => hdigit (hall c List.mem_cons_self)

/-- The digits before the point, then the fraction behind it. -/
theorem scanDigits_whole (scale : Nat) (s : List Char) {digits : List Char}
    (hroom : digits.length ≤ digitRoom) :
    scanDigits scale s digits none =
      if Acceptable (field s) then
        some ((digits ++ ((field s).takeWhile Char.isDigit ++
            ((field s).dropWhile Char.isDigit).tail.take scale)).take digitRoom,
          ((field s).dropWhile Char.isDigit).head?.map fun _ =>
            min scale ((field s).dropWhile Char.isDigit).tail.length)
      else none := by
  induction s generalizing digits with
  | nil =>
      rw [field_nil, if_pos (.inl rfl), scanDigits]
      simp [List.take_of_length_le hroom]
  | cons c s ih =>
      rw [scanDigits]
      by_cases hdigit : c.isDigit = true
      · have hlength : ((digits ++ [c]).take digitRoom).length ≤ digitRoom := by
          rw [List.length_take]
          omega
        have hsame : Acceptable (c :: field s) ↔ Acceptable (field s) := by
          unfold Acceptable
          rw [List.dropWhile_cons_of_pos hdigit]
        rw [if_pos hdigit, field_cons (not_blank_of_digit hdigit), pushDigit_eq hroom,
          ih hlength, take_append_take, List.append_assoc]
        simp only [hsame, List.takeWhile_cons_of_pos hdigit, List.dropWhile_cons_of_pos hdigit]
        rfl
      · rw [if_neg hdigit]
        by_cases hpoint : c = '.'
        · have hbody : field (c :: s) = c :: field s := field_cons (by rw [hpoint]; decide) s
          have hrest : (c :: field s).dropWhile Char.isDigit = c :: field s :=
            List.dropWhile_cons_of_neg hdigit
          have hnone : (c :: field s).takeWhile Char.isDigit = [] :=
            List.takeWhile_cons_of_neg hdigit
          have hall : Acceptable (c :: field s) ↔ AllDigits (field s) := by
            unfold Acceptable
            rw [hrest, hpoint]
            simp
          rw [if_pos ⟨hpoint, rfl⟩, scanDigits_frac scale s hroom (Nat.zero_le _), hbody]
          simp only [hall, hrest, hnone, List.nil_append, List.tail_cons, List.head?_cons,
            Option.map_some, Nat.sub_zero, zero_add]
        · rw [if_neg (fun h => hpoint h.1)]
          by_cases hblank : c = '\x00' ∨ c = ' '
          · rw [if_pos hblank, field_blank hblank, if_pos (.inl rfl)]
            simp [List.take_of_length_le hroom]
          · rw [if_neg hblank, field_cons (by push Not at hblank; exact hblank), if_neg]
            unfold Acceptable
            rw [List.dropWhile_cons_of_neg hdigit]
            simp [hpoint]

/-! ## What a text is read as -/

/-- The part of a text whose digits are collected. -/
def decimalField (s : List Char) : List Char := field (unsignedText s)

/-- The digits of an accepted text, cut to the scale. -/
def keptDigits (scale : Nat) (s : List Char) : List Char :=
  (decimalField s).takeWhile Char.isDigit ++
    (((decimalField s).dropWhile Char.isDigit).tail ++ List.replicate scale '0').take scale

theorem signedCast_neg_signedCast (bits : Nat) (v : Int) :
    signedCast bits (-signedCast bits v) = signedCast bits (-v) := by
  exact Int.bmod_neg_bmod

/-- The digits collected and the zeros filled up are the fraction cut to the scale. -/
theorem take_pad (scale : Nat) (frac : List Char) :
    frac.take scale ++ List.replicate (scale - min scale frac.length) '0' =
      (frac ++ List.replicate scale '0').take scale := by
  have hpad : min (scale - frac.length) scale = scale - min scale frac.length := by omega
  rw [List.take_append, List.take_replicate, hpad]

/-- What the two loops leave in the buffer. -/
theorem collected_eq (scale : Nat) (body : List Char) :
    padDigits
        (scale - (((body.dropWhile Char.isDigit).head?.map fun _ =>
          min scale (body.dropWhile Char.isDigit).tail.length).getD 0))
        (([] ++ (body.takeWhile Char.isDigit ++
          (body.dropWhile Char.isDigit).tail.take scale)).take digitRoom) =
      (body.takeWhile Char.isDigit ++
        ((body.dropWhile Char.isDigit).tail ++ List.replicate scale '0').take scale).take
          digitRoom := by
  have hroom : ∀ ds : List Char, (ds.take digitRoom).length ≤ digitRoom := by
    intro ds
    rw [List.length_take]
    omega
  have hmissing : ((body.dropWhile Char.isDigit).head?.map fun _ =>
      min scale (body.dropWhile Char.isDigit).tail.length).getD 0 =
        min scale (body.dropWhile Char.isDigit).tail.length := by
    cases body.dropWhile Char.isDigit with
    | nil => simp
    | cons c rest => rfl
  rw [padDigits_eq (hroom _), take_append_take, List.nil_append, hmissing, List.append_assoc,
    take_pad]

theorem keptDigits_digits (scale : Nat) {s : List Char} (h : Acceptable (decimalField s)) :
    AllDigits (keptDigits scale s) := by
  have hfrac : AllDigits ((decimalField s).dropWhile Char.isDigit).tail := by
    rcases h with hnone | hpoint
    · rw [hnone]
      exact allDigits_nil
    · exact hpoint.2
  refine allDigits_append.mpr ⟨fun _ hc => List.mem_takeWhile_imp hc, allDigits_take ?_ scale⟩
  exact allDigits_append.mpr ⟨hfrac, allDigits_zeros scale⟩

/-- `AppendDecimalString` takes an accepted text for the number of the digits it has room
for, and no other text. -/
theorem appendDecimalString_eq (s : List Char) (precision scale : Nat) :
    appendDecimalString s precision scale =
      if Acceptable (decimalField s) then
        some (signedCast 128 (Numeral.signed (decide ((lead s).head? = some '-'))
          (digitsValue ((keptDigits scale s).take digitRoom))))
      else none := by
  have hscan : scanDigits scale (unsignedText s) [] none = _ :=
    scanDigits_whole scale (unsignedText s) (Nat.zero_le digitRoom)
  unfold appendDecimalString
  rw [hscan]
  by_cases haccept : Acceptable (decimalField s)
  · have hkept := allDigits_take (keptDigits_digits scale haccept) digitRoom
    have hcollected := collected_eq scale (decimalField s)
    have hset : arrowDecimalSetDigits 128
        (if (keptDigits scale s).take digitRoom = [] then ['0']
          else (keptDigits scale s).take digitRoom) =
        some (signedCast 128 (digitsValue ((keptDigits scale s).take digitRoom))) := by
      split
      · rename_i hnone
        rw [hnone]
        exact arrowDecimalSetDigits_eq (allDigits_zeros 1) 4
      · exact arrowDecimalSetDigits_eq hkept 4
    have haccept' : Acceptable (field (unsignedText s)) := haccept
    rw [if_pos haccept', if_pos haccept, Option.bind_some]
    dsimp only
    rw [← decimalField.eq_def, hcollected, ← keptDigits.eq_def, hset, Option.map_some]
    unfold Numeral.signed arrowDecimalNegate
    by_cases hneg : (lead s).head? = some '-'
    · rw [if_pos hneg, if_pos (decide_eq_true hneg), signedCast_neg_signedCast]
    · rw [if_neg hneg, if_neg (by simpa using hneg)]
  · have hreject : ¬ Acceptable (field (unsignedText s)) := haccept
    rw [if_neg hreject, if_neg haccept, Option.bind_none]

/-! ## Texts that write a numeral -/

/-- The text without the blanks around it; a driver may fill up with NUL behind it. -/
def trim (s : List Char) : List Char :=
  (s.dropWhile fun c => c = ' ').rdropWhile fun c => c = '\x00' ∨ c = ' '

theorem eq_trim (s : List Char) :
    ∃ spaces blanks, s = spaces ++ (trim s ++ blanks) ∧ (∀ c ∈ spaces, c = ' ') ∧
      ∀ c ∈ blanks, c = '\x00' ∨ c = ' ' := by
  refine ⟨s.takeWhile fun c => c = ' ',
    (s.dropWhile fun c => c = ' ').rtakeWhile fun c => c = '\x00' ∨ c = ' ', ?_, ?_, ?_⟩
  · unfold trim
    rw [List.rdropWhile_append_rtakeWhile, List.takeWhile_append_dropWhile]
  · intro c hc
    simpa using List.mem_takeWhile_imp hc
  · intro c hc
    simpa using List.mem_rtakeWhile_imp hc

/-- The blanks and the sign in front of a numeral are skipped. -/
theorem lead_numeral {n : Numeral} {spaces sign tail : List Char} (rest : List Char)
    (hspaces : ∀ c ∈ spaces, c = ' ') (hsign : Numeral.IsSign n.neg sign)
    (htail : Numeral.IsTail n.frac tail) :
    let s := spaces ++ (sign ++ (n.whole ++ tail) ++ rest)
    ((lead s).head? = some '-' ↔ n.neg = true) ∧
      unsignedText s = n.whole ++ tail ++ rest := by
  intro s
  obtain ⟨c, body, hhead⟩ := List.exists_cons_of_ne_nil (Numeral.body_ne_nil htail)
  have hc := Numeral.isBodyChar_of_mem htail (hhead ▸ List.mem_cons_self)
  have hspace : c ≠ ' ' := hc.ne (by decide) (by decide)
  have hplus : c ≠ '+' := hc.ne (by decide) (by decide)
  have hminus : c ≠ '-' := hc.ne (by decide) (by decide)
  have hskip : lead s = lead (sign ++ (n.whole ++ tail) ++ rest) := by
    unfold lead
    apply List.dropWhile_append_of_pos
    intro c hc
    simp [hspaces c hc]
  have hbody : lead (n.whole ++ tail ++ rest) = n.whole ++ tail ++ rest := by
    unfold lead
    rw [hhead, List.cons_append, List.dropWhile_cons_of_neg (by simp [hspace, hplus])]
  have hbodyhead : (n.whole ++ tail ++ rest).head? ≠ some '-' := by
    rw [hhead]
    simpa using hminus
  unfold Numeral.IsSign at hsign
  unfold unsignedText
  rw [hskip]
  by_cases hneg : n.neg = true
  · rw [if_pos hneg] at hsign
    have hlead : lead (sign ++ (n.whole ++ tail) ++ rest) = '-' :: (n.whole ++ tail ++ rest) := by
      rw [hsign]
      exact List.dropWhile_cons_of_neg (by decide)
    rw [hlead, List.head?_cons, if_pos rfl]
    exact ⟨iff_of_true rfl hneg, rfl⟩
  · have hlead : lead (sign ++ (n.whole ++ tail) ++ rest) = n.whole ++ tail ++ rest := by
      rw [if_neg hneg] at hsign
      rcases hsign with hnone | hsome
      · rw [hnone]
        exact hbody
      · rw [hsome]
        exact (List.dropWhile_cons_of_pos (by decide)).trans hbody
    rw [hlead, if_neg hbodyhead]
    exact ⟨iff_of_false hbodyhead hneg, rfl⟩

theorem field_numeral {n : Numeral} {tail blanks : List Char} (htail : Numeral.IsTail n.frac tail)
    (hblanks : ∀ c ∈ blanks, c = '\x00' ∨ c = ' ') :
    field (n.whole ++ tail ++ blanks) = n.whole ++ tail := by
  have hbody : ∀ c ∈ n.whole ++ tail, c ≠ '\x00' ∧ c ≠ ' ' := by
    intro c hc
    have hchar := Numeral.isBodyChar_of_mem htail hc
    exact ⟨hchar.ne (by decide) (by decide), hchar.ne (by decide) (by decide)⟩
  have hrest : field blanks = [] := by
    cases blanks with
    | nil => rfl
    | cons c blanks => exact field_blank (hblanks c List.mem_cons_self) blanks
  unfold field at hrest ⊢
  rw [List.takeWhile_append_of_pos (by simpa using hbody), hrest, List.append_nil]

/-- A text that writes a numeral is accepted, and its digits are those of the numeral. -/
theorem appendDecimalString_numeral {s : List Char} {n : Numeral}
    (h : Numeral.parse (trim s) = some n) (precision scale : Nat) :
    appendDecimalString s precision scale =
      some (signedCast 128 (Numeral.signed n.neg
        (digitsValue ((n.scaled scale).take digitRoom)))) := by
  obtain ⟨sign, tail, hsign, htail, htext⟩ := Numeral.parse_eq_some_iff.mp h
  obtain ⟨spaces, blanks, hs, hspaces, hblanks⟩ := eq_trim s
  rw [htext] at hs
  obtain ⟨hneg, hunsigned⟩ := lead_numeral blanks hspaces hsign htail
  rw [← hs] at hneg hunsigned
  have hfield : decimalField s = n.whole ++ tail := by
    unfold decimalField
    rw [hunsigned]
    exact field_numeral htail hblanks
  obtain ⟨hwhole, hrest⟩ :=
    Numeral.takeWhile_digits n.whole_digits (Numeral.isTail_head htail)
  have hfrac : tail.tail = n.frac := by
    rcases htail with rfl | ⟨hnone, rfl⟩
    · rfl
    · exact hnone.symm
  have haccept : Acceptable (decimalField s) := by
    unfold Acceptable
    rw [hfield, hrest]
    dsimp only
    rw [hfrac]
    rcases htail with rfl | ⟨-, rfl⟩
    · exact .inr ⟨rfl, n.frac_digits⟩
    · exact .inl rfl
  have hkept : keptDigits scale s = n.scaled scale := by
    unfold keptDigits Numeral.scaled
    rw [hfield, hwhole, hrest, hfrac]
  rw [appendDecimalString_eq, if_pos haccept, hkept]
  simp only [hneg, Bool.decide_eq_true]

/-! ## Read exactly or refused -/

/-- A decimal column, as `ClassifyColumn` lets one be. -/
structure DecimalColumn where
  precision : Nat
  scale : Nat
  precision_legal : 1 ≤ precision ∧ precision ≤ 38
  scale_legal : scale ≤ precision

/-- The value of a numeral in units of the column, what lies behind the scale cut off. -/
def unitsOf (c : DecimalColumn) (n : Numeral) : Int := Numeral.truncate (n.value * 10 ^ c.scale)

/-- A text is read as what it writes, or refused if it writes nothing or nothing that fits. -/
def ReadExactly (c : DecimalColumn) (s : List Char) (r : Option Int) : Prop :=
  ∀ v ∈ r, ∃ n, Numeral.parse (trim s) = some n ∧ v = unitsOf c n ∧
    (unitsOf c n).natAbs < 10 ^ c.precision

/-- A decimal that fits the column fits 128 bits. -/
theorem signedCast_signed {c : DecimalColumn} {m : Nat} (h : m < 10 ^ c.precision) (neg : Bool) :
    signedCast 128 (Numeral.signed neg m) = Numeral.signed neg m := by
  have hpow : 10 ^ c.precision ≤ 10 ^ 38 := Nat.pow_le_pow_right (by omega) c.precision_legal.2
  have hlt : m < 10 ^ 38 := by omega
  apply signedCast_eq (by omega)
  unfold InSigned Numeral.signed
  split
  · norm_num at hlt ⊢
    omega
  · norm_num at hlt ⊢
    omega

theorem signed_inj {neg : Bool} {a b : Nat} (h : Numeral.signed neg a = Numeral.signed neg b) :
    a = b := by
  unfold Numeral.signed at h
  split at h <;> omega

theorem natAbs_signed (neg : Bool) (m : Nat) : (Numeral.signed neg m).natAbs = m := by
  unfold Numeral.signed
  split <;> omega

/-- A decimal text is read exactly or refused if and only if the loop refuses it, or it
writes a numeral that fits the column and has no more digits than the buffer has room for,
those of its integer part and those of the scale together, unless they are all zero. -/
theorem decimals_read_iff (c : DecimalColumn) (s : List Char) :
    ReadExactly c s (appendDecimalString s c.precision c.scale) ↔
      ¬ Acceptable (decimalField s) ∨
        ∃ n, Numeral.parse (trim s) = some n ∧ (unitsOf c n).natAbs < 10 ^ c.precision ∧
          (n.whole.length + c.scale ≤ 63 ∨ unitsOf c n = 0) := by
  have hkept : ∀ n : Numeral, (unitsOf c n).natAbs < 10 ^ c.precision →
      (signedCast 128 (Numeral.signed n.neg
          (digitsValue ((n.scaled c.scale).take digitRoom))) = unitsOf c n ↔
        n.whole.length + c.scale ≤ 63 ∨ unitsOf c n = 0) := by
    intro n hfits
    have hunits : unitsOf c n = Numeral.signed n.neg (digitsValue (n.scaled c.scale)) :=
      Numeral.truncate_value n c.scale
    rw [hunits, natAbs_signed] at hfits
    have hle : digitsValue ((n.scaled c.scale).take digitRoom) ≤
        digitsValue (n.scaled c.scale) := by
      rw [digitsValue_take (n.scaled_digits c.scale)]
      exact Nat.div_le_self _ _
    have hsame : _ ↔ _ ≤ 63 ∨ _ :=
      digitsValue_take_eq_iff (n.scaled_digits c.scale) digitRoom
    rw [n.scaled_length] at hsame
    have hzero : Numeral.signed n.neg (digitsValue (n.scaled c.scale)) = 0 ↔
        digitsValue (n.scaled c.scale) = 0 := by
      rw [← Int.natAbs_eq_zero, natAbs_signed]
    rw [hunits, hzero, ← hsame, signedCast_signed (hle.trans_lt hfits)]
    constructor
    · exact signed_inj
    · intro heq
      rw [heq]
  constructor
  · intro h
    by_cases haccept : Acceptable (decimalField s)
    · right
      rw [appendDecimalString_eq, if_pos haccept] at h
      obtain ⟨n, hparse, hv, hfits⟩ := h _ rfl
      have hread := appendDecimalString_numeral hparse c.precision c.scale
      rw [appendDecimalString_eq, if_pos haccept, Option.some.injEq] at hread
      refine ⟨n, hparse, hfits, (hkept n hfits).mp ?_⟩
      rw [← hread, hv]
    · exact .inl haccept
  · intro h
    rcases h with hreject | ⟨n, hparse, hfits, hdigits⟩
    · rw [appendDecimalString_eq, if_neg hreject]
      intro v hv
      cases hv
    · rw [appendDecimalString_numeral hparse]
      intro v hv
      refine ⟨n, hparse, ?_, hfits⟩
      rw [← Option.some.inj hv]
      exact (hkept n hfits).mpr hdigits

/-! ## Texts that are misread -/

def plainDecimal : DecimalColumn := ⟨38, 0, by decide, by decide⟩

def shortDecimal : DecimalColumn := ⟨3, 0, by decide, by decide⟩

/-- What is read of an accepted text whose digits in the buffer fit 128 bits. -/
theorem appendDecimalString_small {s : List Char} {precision scale m : Nat}
    (haccept : Acceptable (decimalField s))
    (hdigits : digitsValue ((keptDigits scale s).take digitRoom) = m) (hm : m < 10 ^ 38) :
    appendDecimalString s precision scale =
      some (Numeral.signed (decide ((lead s).head? = some '-')) m) := by
  rw [appendDecimalString_eq, if_pos haccept, hdigits, signedCast_signed (c := plainDecimal) hm]

/-- The numeral of 63 zeros and a five. -/
def paddedFive : Numeral where
  neg := false
  whole := List.replicate 63 '0' ++ ['5']
  frac := []
  whole_digits := allDigits_append.mpr ⟨allDigits_zeros 63, by simp [AllDigits]⟩
  frac_digits := allDigits_nil
  nonempty := by simp

/-- A five behind 63 zeros is read as zero, two numbers as the first of them, nothing at all
as zero, and a number of four digits into a column of three. -/
theorem decimalTexts_misread :
    ¬ ReadExactly plainDecimal (List.replicate 63 '0' ++ ['5'])
        (appendDecimalString (List.replicate 63 '0' ++ ['5']) 38 0) ∧
      ¬ ReadExactly plainDecimal "12 34".toList (appendDecimalString "12 34".toList 38 0) ∧
      ¬ ReadExactly plainDecimal [] (appendDecimalString [] 38 0) ∧
      ¬ ReadExactly shortDecimal "1000".toList (appendDecimalString "1000".toList 3 0) := by
  refine ⟨fun h => ?_, fun h => ?_, fun h => ?_, fun h => ?_⟩
  · have hread : appendDecimalString (List.replicate 63 '0' ++ ['5']) 38 0 = some 0 :=
      appendDecimalString_small (m := 0) (by decide) (by decide) (by norm_num)
    obtain ⟨n, hparse, hv, -⟩ := h 0 hread
    have htrim : trim (List.replicate 63 '0' ++ ['5']) = List.replicate 63 '0' ++ ['5'] := by
      decide
    have hfive : Numeral.parse (trim (List.replicate 63 '0' ++ ['5'])) = some paddedFive := by
      rw [htrim]
      exact Numeral.parse_eq_some_iff.mpr ⟨[], [], .inl rfl, .inr ⟨rfl, rfl⟩, rfl⟩
    rw [hfive, Option.some.injEq] at hparse
    rw [← hparse, unitsOf, Numeral.truncate_value] at hv
    exact absurd hv (by decide)
  · have hread : appendDecimalString "12 34".toList 38 0 = some 12 :=
      appendDecimalString_small (m := 12) (by decide) (by decide) (by norm_num)
    obtain ⟨n, hparse, -⟩ := h 12 hread
    have hnone : (Numeral.parse (trim "12 34".toList)).isNone = true := by
      decide +kernel
    rw [hparse] at hnone
    cases hnone
  · have hread : appendDecimalString [] 38 0 = some 0 :=
      appendDecimalString_small (m := 0) (by decide) (by decide) (by norm_num)
    obtain ⟨n, hparse, -⟩ := h 0 hread
    obtain ⟨sign, tail, -, htail, htext⟩ := Numeral.parse_eq_some_iff.mp hparse
    exact Numeral.body_ne_nil htail (List.append_eq_nil_iff.mp htext.symm).2
  · have hread : appendDecimalString "1000".toList 3 0 = some 1000 :=
      appendDecimalString_small (m := 1000) (by decide) (by decide) (by norm_num)
    obtain ⟨n, -, hv, hfits⟩ := h 1000 hread
    rw [← hv] at hfits
    exact absurd hfits (by decide)

end AdbcBridge.Reader
