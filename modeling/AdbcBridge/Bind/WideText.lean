import AdbcBridge.Lib.Bits
import AdbcBridge.Lib.Bytes
import AdbcBridge.Reader.WideRepair

/-!
# Text in `SQLWCHAR` units

`OdbcUtf8ToUtf16Into`, which writes statements, parameters and connection strings for the wide
entry points, and `Utf8ToUtf16`, its copy in the text layer.  How many bytes are read for one
code point goes by the lead byte and by how many bytes are left; the bytes behind the lead byte
are taken as they come.
-/

namespace AdbcBridge.Bind.WideText

open AdbcBridge.Lib AdbcBridge.Lib.Utf16 AdbcBridge.Reader.Scratch

/-- `(unsigned char)s[i]`. -/
def byteAt (s : List UInt8) (i : Nat) : Nat := (s.getD i 0).toNat

/-- The code point `cp` that is read at the head of the bytes that are left, and the number
`len` of bytes it is read from. -/
def readSequence (s : List UInt8) : Nat × Nat :=
  let c := byteAt s 0
  if c < 0x80 then (c, 1)
  else if c &&& 0xE0 = 0xC0 ∧ 1 < s.length then
    (((c &&& 0x1F) <<< 6) ||| (byteAt s 1 &&& 0x3F), 2)
  else if c &&& 0xF0 = 0xE0 ∧ 2 < s.length then
    (((c &&& 0x0F) <<< 12) ||| ((byteAt s 1 &&& 0x3F) <<< 6) ||| (byteAt s 2 &&& 0x3F), 3)
  else if c &&& 0xF8 = 0xF0 ∧ 3 < s.length then
    (((c &&& 0x07) <<< 18) ||| ((byteAt s 1 &&& 0x3F) <<< 12) |||
      ((byteAt s 2 &&& 0x3F) <<< 6) ||| (byteAt s 3 &&& 0x3F), 4)
  else (0xFFFD, 1)

/-- `(SQLWCHAR)v`. -/
def sqlWchar (w : SqlWchar) (v : Nat) : Nat := v % 256 ^ w.bytes

/-- The units that are written for a code point. -/
def writeUnits (w : SqlWchar) (pairs : Bool) (cp : Nat) : List Nat :=
  if 0x10000 ≤ cp ∧ pairs then
    [sqlWchar w (0xD800 + ((cp - 0x10000) >>> 10)),
      sqlWchar w (0xDC00 + ((cp - 0x10000) &&& 0x3FF))]
  else [sqlWchar w cp]

theorem readSequence_len (s : List UInt8) : 0 < (readSequence s).2 := by
  unfold readSequence
  dsimp only
  split_ifs <;> exact Nat.succ_pos _

/-- The loop that both converters are, with the bytes that are left. -/
def convert (w : SqlWchar) (pairs : Bool) (s : List UInt8) : List Nat :=
  if 0 < s.length then
    writeUnits w pairs (readSequence s).1 ++ convert w pairs (s.drop (readSequence s).2)
  else []
termination_by s.length
decreasing_by
  have hlen := readSequence_len s
  rw [List.length_drop]
  omega

/-- `OdbcUtf8ToUtf16Into`: the units before the terminator. -/
def odbcUtf8ToUtf16Into (w : SqlWchar) (utf16Pairs : Bool) (s : List UInt8) : List Nat :=
  convert w (decide (w.bytes < 4) || utf16Pairs) s

/-- `Utf8ToUtf16` of the text layer. -/
def utf8ToUtf16 (w : SqlWchar) (s : List UInt8) : List Nat := convert w (decide (w.bytes < 4)) s

/-! ## One sequence -/

theorem byteAt_lt (s : List UInt8) (i : Nat) : byteAt s i < 256 := (s.getD i 0).toNat_lt

theorem lead_two : ∀ c < 256, (c &&& 0xE0 = 0xC0) = (c / 32 = 6) := by decide +kernel

theorem lead_three : ∀ c < 256, (c &&& 0xF0 = 0xE0) = (c / 16 = 14) := by decide +kernel

theorem lead_four : ∀ c < 256, (c &&& 0xF8 = 0xF0) = (c / 8 = 30) := by decide +kernel

theorem low_lt (v : Nat) : v % 64 < 2 ^ 6 := Nat.mod_lt v (by decide)

theorem and_low (v : Nat) : v &&& 0x3F = v % 64 := Nat.and_two_pow_sub_one_eq_mod v 6

theorem bits_two (a b : Nat) : ((a &&& 0x1F) <<< 6) ||| (b &&& 0x3F) = a % 32 * 64 + b % 64 := by
  have ha : a &&& 0x1F = a % 32 := Nat.and_two_pow_sub_one_eq_mod a 5
  have hor : ((a % 32) <<< 6) ||| (b % 64) = a % 32 * 64 + b % 64 := Bits.shiftLeft_or (low_lt b)
  rw [ha, and_low, hor]

theorem bits_three (a b c : Nat) :
    ((a &&& 0x0F) <<< 12) ||| ((b &&& 0x3F) <<< 6) ||| (c &&& 0x3F) =
      a % 16 * 4096 + b % 64 * 64 + c % 64 := by
  have ha : a &&& 0x0F = a % 16 := Nat.and_two_pow_sub_one_eq_mod a 4
  have htail : b % 64 * 2 ^ 6 + c % 64 < 2 ^ 12 := by omega
  rw [ha, and_low, and_low, Nat.or_assoc, Bits.shiftLeft_or (low_lt c),
    Bits.shiftLeft_or htail, Nat.add_assoc]
  rfl

theorem bits_four (a b c d : Nat) :
    ((a &&& 0x07) <<< 18) ||| ((b &&& 0x3F) <<< 12) ||| ((c &&& 0x3F) <<< 6) ||| (d &&& 0x3F) =
      a % 8 * 262144 + b % 64 * 4096 + c % 64 * 64 + d % 64 := by
  have ha : a &&& 0x07 = a % 8 := Nat.and_two_pow_sub_one_eq_mod a 3
  have htail : c % 64 * 2 ^ 6 + d % 64 < 2 ^ 12 := by omega
  have htails : b % 64 * 2 ^ 12 + (c % 64 * 2 ^ 6 + d % 64) < 2 ^ 18 := by omega
  rw [ha, and_low, and_low, and_low, Nat.or_assoc, Nat.or_assoc,
    Bits.shiftLeft_or (low_lt d), Bits.shiftLeft_or htail, Bits.shiftLeft_or htails]
  omega

/-- What is read of a sequence, by the ranges of the lead byte. -/
theorem readSequence_eq (s : List UInt8) :
    readSequence s =
      if byteAt s 0 < 0x80 then (byteAt s 0, 1)
      else if byteAt s 0 / 32 = 6 ∧ 1 < s.length then
        (byteAt s 0 % 32 * 64 + byteAt s 1 % 64, 2)
      else if byteAt s 0 / 16 = 14 ∧ 2 < s.length then
        (byteAt s 0 % 16 * 4096 + byteAt s 1 % 64 * 64 + byteAt s 2 % 64, 3)
      else if byteAt s 0 / 8 = 30 ∧ 3 < s.length then
        (byteAt s 0 % 8 * 262144 + byteAt s 1 % 64 * 4096 + byteAt s 2 % 64 * 64 +
          byteAt s 3 % 64, 4)
      else (0xFFFD, 1) := by
  have hlead := byteAt_lt s 0
  unfold readSequence
  simp only [lead_two _ hlead, lead_three _ hlead, lead_four _ hlead, bits_two, bits_three,
    bits_four]

theorem byteAt_head (v : Nat) (s : List UInt8) : byteAt (UInt8.ofNat v :: s) 0 = v % 256 :=
  UInt8.toNat_ofNat'

theorem byteAt_succ (b : UInt8) (s : List UInt8) (i : Nat) :
    byteAt (b :: s) (i + 1) = byteAt s i := rfl

/-- A character is read back from its UTF-8. -/
theorem readSequence_char (c : Char) (rest : List UInt8) :
    readSequence (String.utf8EncodeChar c ++ rest) =
      (c.toNat, (String.utf8EncodeChar c).length) := by
  have hvalid := toNat_valid c
  have hval : c.val.toNat = c.toNat := rfl
  have hone : ∀ b : UInt8, ∀ s : List UInt8, byteAt (b :: s) 1 = byteAt s 0 := fun _ _ => rfl
  have htwo : ∀ b : UInt8, ∀ s : List UInt8, byteAt (b :: s) 2 = byteAt s 1 := fun _ _ => rfl
  have hthree : ∀ b : UInt8, ∀ s : List UInt8, byteAt (b :: s) 3 = byteAt s 2 := fun _ _ => rfl
  rw [readSequence_eq]
  unfold String.utf8EncodeChar
  simp only [hval]
  generalize c.toNat = v at hvalid ⊢
  by_cases h1 : v ≤ 0x7F
  · simp only [if_pos h1, List.cons_append, List.nil_append, byteAt_head, List.length_cons,
      List.length_nil]
    rw [if_pos (by omega), Nat.mod_eq_of_lt (by omega)]
  · by_cases h2 : v ≤ 0x7FF
    · simp only [if_neg h1, if_pos h2, List.cons_append, List.nil_append, byteAt_head, hone,
        List.length_cons, List.length_nil]
      rw [if_neg (by omega), if_pos (by omega)]
      congr 1
      omega
    · by_cases h3 : v ≤ 0xFFFF
      · simp only [if_neg h1, if_neg h2, if_pos h3, List.cons_append, List.nil_append,
          byteAt_head, hone, htwo, List.length_cons, List.length_nil]
        rw [if_neg (by omega), if_neg (by omega), if_pos (by omega)]
        congr 1
        omega
      · simp only [if_neg h1, if_neg h2, if_neg h3, List.cons_append, List.nil_append,
          byteAt_head, hone, htwo, hthree, List.length_cons, List.length_nil]
        rw [if_neg (by omega), if_neg (by omega), if_neg (by omega), if_pos (by omega)]
        congr 1
        omega

/-- The units of a code point are those of two bytes, where these are all there are. -/
theorem writeUnits_eq {w : SqlWchar} {pairs : Bool} {cp : Nat} (hcp : cp < 0x200000)
    (hpairs : w = .two → pairs = true) :
    writeUnits w pairs cp =
      if 0x10000 ≤ cp ∧ pairs then
        [0xD800 + (cp - 0x10000) / 1024, 0xDC00 + (cp - 0x10000) % 1024]
      else [cp] := by
  have hkeep : ∀ v, v < 0x10000 → sqlWchar w v = v := by
    intro v hv
    unfold sqlWchar
    apply Nat.mod_eq_of_lt
    cases w with
    | two => exact hv
    | four => exact hv.trans (by decide)
  have hlow : (cp - 0x10000) &&& 0x3FF = (cp - 0x10000) % 1024 :=
    Nat.and_two_pow_sub_one_eq_mod _ 10
  unfold writeUnits
  rw [hlow, Nat.shiftRight_eq_div_pow]
  by_cases hpair : 0x10000 ≤ cp ∧ pairs
  · rw [if_pos hpair, if_pos hpair, hkeep _ (by omega), hkeep _ (by omega)]
  · rw [if_neg hpair, if_neg hpair]
    cases w with
    | two => rw [hkeep cp (by simp [hpairs] at hpair; omega)]
    | four =>
        unfold sqlWchar
        rw [Nat.mod_eq_of_lt (hcp.trans (by decide))]

theorem writeUnits_char {w : SqlWchar} {pairs : Bool} (hpairs : w = .two → pairs = true)
    (c : Char) : writeUnits w pairs c.toNat = charUnits pairs c := by
  have hvalid := toNat_valid c
  exact writeUnits_eq (by omega) hpairs

/-! ## There and back -/

/-- A text is converted to the units of its characters. -/
theorem convert_text {w : SqlWchar} {pairs : Bool} (hpairs : w = .two → pairs = true)
    (cs : List Char) : convert w pairs (utf8 cs) = textUnits pairs cs := by
  induction cs with
  | nil =>
      rw [convert]
      rfl
  | cons c cs ih =>
      have hcons : utf8 (c :: cs) = String.utf8EncodeChar c ++ utf8 cs := rfl
      have hne : 0 < (utf8 (c :: cs)).length := by
        have hpos := Char.utf8Size_pos c
        rw [hcons, List.length_append, String.length_utf8EncodeChar]
        omega
      rw [convert, if_pos hne, hcons, readSequence_char, List.drop_left, ih,
        writeUnits_char hpairs]
      rfl

/-- Units as they lie in memory. -/
def unitBytes (w : SqlWchar) (units : List Nat) : List UInt8 :=
  units.flatMap (Bytes.digits w.bytes)

theorem length_unitBytes (w : SqlWchar) (units : List Nat) :
    (unitBytes w units).length = units.length * w.bytes := by
  unfold unitBytes
  induction units with
  | nil => exact (Nat.zero_mul _).symm
  | cons u units ih =>
      rw [List.flatMap_cons, List.length_append, Bytes.length_digits, ih, List.length_cons,
        Nat.succ_mul, Nat.add_comm]

theorem bytes_pos (w : SqlWchar) : 0 < w.bytes := by cases w <;> decide

theorem length_unitBytes_div (w : SqlWchar) (units : List Nat) :
    (unitBytes w units).length / w.bytes = units.length := by
  rw [length_unitBytes, Nat.mul_div_cancel _ (bytes_pos w)]

theorem littleEndian_eq (bytes : List UInt8) : littleEndian bytes = Bytes.value bytes := by
  induction bytes with
  | nil => rfl
  | cons b bytes ih =>
      rw [Bytes.value, ← ih]
      rfl

theorem unitsOf_unitBytes {w : SqlWchar} {units : List Nat}
    (h : ∀ u ∈ units, u < 256 ^ w.bytes) : unitsOf w (unitBytes w units) = units := by
  apply List.ext_getElem
  · rw [length_unitsOf, length_unitBytes_div]
  · intro i hi hlt
    have hunit : (unitsOf w (unitBytes w units))[i] = unitAt w (unitBytes w units) i := by
      simp [unitsOf]
    have hslot : ((unitBytes w units).drop (w.bytes * i)).take w.bytes =
        Bytes.digits w.bytes units[i] := by
      have hsplit : units = units.take i ++ units[i] :: units.drop (i + 1) := by
        rw [← List.drop_eq_getElem_cons hlt, List.take_append_drop]
      have hbytes : unitBytes w units = unitBytes w (units.take i) ++
          (Bytes.digits w.bytes units[i] ++ unitBytes w (units.drop (i + 1))) := by
        conv_lhs => rw [hsplit]
        unfold unitBytes
        rw [List.flatMap_append, List.flatMap_cons]
      have hbefore : (unitBytes w (units.take i)).length = w.bytes * i := by
        rw [length_unitBytes, List.length_take, Nat.min_eq_left (by omega), Nat.mul_comm]
      rw [hbytes, ← hbefore, List.drop_left]
      exact List.take_left' (Bytes.length_digits _ _)
    rw [hunit]
    unfold unitAt
    rw [hslot, littleEndian_eq, Bytes.value_digits, Nat.mod_eq_of_lt (h _ (List.getElem_mem hlt))]

theorem charUnits_lt {w : SqlWchar} {pairs : Bool} (hpairs : w = .two → pairs = true) (c : Char) :
    ∀ u ∈ charUnits pairs c, u < 256 ^ w.bytes := by
  have hvalid := toNat_valid c
  have hwide : 0x10000 ≤ 256 ^ w.bytes := by cases w <;> decide
  intro u hu
  unfold charUnits at hu
  by_cases hpair : 0x10000 ≤ c.toNat ∧ pairs
  · rw [if_pos hpair, List.mem_cons, List.mem_singleton] at hu
    omega
  · rw [if_neg hpair, List.mem_singleton] at hu
    cases w with
    | two =>
        simp only [hpairs, and_true] at hpair
        omega
    | four =>
        have hfour : 0x110000 ≤ 256 ^ SqlWchar.four.bytes := by decide
        omega

/-- Every text comes back byte for byte from the units that `OdbcUtf8ToUtf16Into` writes, of
either width and with or without pairs; and `Utf16ToUtf8` writes UTF-8 for any units whatever,
within `Utf16Utf8MaxBytes`. -/
theorem utf8_roundTrips (w : SqlWchar) :
    (∀ (utf16Pairs : Bool) (cs : List Char) (out : List UInt8),
      utf16ToUtf8 w false (unitBytes w (odbcUtf8ToUtf16Into w utf16Pairs (utf8 cs)))
          (odbcUtf8ToUtf16Into w utf16Pairs (utf8 cs)).length 0 0 out =
        (overlay out 0 (utf8 cs), (utf8 cs).length)) ∧
    ∀ (inPlace : Bool) (src : List UInt8) (n : Nat) (out : List UInt8),
      ∃ cs, utf16ToUtf8 w inPlace src n 0 0 out =
          (overlay out 0 (utf8 cs), (utf8 cs).length) ∧
        (utf8 cs).length ≤ utf16Utf8MaxBytes w n := by
  constructor
  · intro utf16Pairs cs out
    have hpairs : w = .two → (decide (w.bytes < 4) || utf16Pairs) = true := by
      rintro rfl
      rfl
    unfold odbcUtf8ToUtf16Into
    rw [convert_text hpairs]
    generalize (decide (w.bytes < 4) || utf16Pairs) = pairs at hpairs
    have hlt : ∀ u ∈ textUnits pairs cs, u < 256 ^ w.bytes := by
      intro u hu
      obtain ⟨c, -, hc⟩ := List.mem_flatMap.mp hu
      exact charUnits_lt hpairs c u hc
    have hrun := @utf16ToUtf8_apart w _ (unitBytes w (textUnits pairs cs)) List.take_length out
    rw [length_unitBytes_div] at hrun
    rw [hrun]
    unfold textOf charsOf
    rw [unitsOf_unitBytes hlt, encoded_textUnits]
  · intro inPlace src n out
    obtain ⟨cs, hcs, hbound⟩ := utf16ToUtf8_extends w inPlace src out n n 0 [] (Nat.le_refl _)
    rw [overlay_nil, List.nil_append, List.length_nil] at hcs
    exact ⟨cs, hcs, hbound⟩

/-! ## Malformed text -/

/-- The conversion, sequence by sequence: the bytes that are taken and the units that are
written for them. -/
def trace (w : SqlWchar) (pairs : Bool) (s : List UInt8) : List (List UInt8 × List Nat) :=
  if 0 < s.length then
    (s.take (readSequence s).2, writeUnits w pairs (readSequence s).1) ::
      trace w pairs (s.drop (readSequence s).2)
  else []
termination_by s.length
decreasing_by
  have hlen := readSequence_len s
  rw [List.length_drop]
  omega

/-- The UTF-8 of a character. -/
def WellFormed (bytes : List UInt8) : Prop := ∃ c : Char, bytes = String.utf8EncodeChar c

/-- The units below 0x80. -/
def asciiUnits (units : List Nat) : List Nat := units.filter fun u => decide (u < 0x80)

/-- The bytes below 0x80. -/
def asciiBytes (s : List UInt8) : List Nat := asciiUnits (s.map UInt8.toNat)

/-- Malformed text becomes U+FFFD in the units `out`: they are those of some text, a sequence
that is not UTF-8 gives U+FFFD and nothing else, and the units below 0x80 are the bytes below
0x80. -/
structure Replaces (w : SqlWchar) (pairs : Bool) (s : List UInt8) (out : List Nat) : Prop where
  written : out = (trace w pairs s).flatMap Prod.snd
  valid : ∃ cs, out = textUnits pairs cs
  malformed : ∀ x ∈ trace w pairs s, ¬ WellFormed x.1 → x.2 = [0xFFFD]
  ascii : asciiUnits out = asciiBytes s

/-- The number of bytes that the lead byte asks for, if so many are left. -/
def sequenceLength (s : List UInt8) : Nat :=
  if byteAt s 0 < 0x80 then 1
  else if byteAt s 0 / 32 = 6 ∧ 1 < s.length then 2
  else if byteAt s 0 / 16 = 14 ∧ 2 < s.length then 3
  else if byteAt s 0 / 8 = 30 ∧ 3 < s.length then 4
  else 1

theorem sequenceLength_pos (s : List UInt8) : 0 < sequenceLength s := by
  unfold sequenceLength
  split_ifs <;> decide

/-- A byte string cut where its lead bytes say. -/
def sequences (s : List UInt8) : List (List UInt8) :=
  if 0 < s.length then s.take (sequenceLength s) :: sequences (s.drop (sequenceLength s)) else []
termination_by s.length
decreasing_by
  have hlen := sequenceLength_pos s
  rw [List.length_drop]
  omega

/-- A sequence of bytes from 0x80 on whose low bits are those of U+FFFD. -/
def MaskedReplacement (bytes : List UInt8) : Prop :=
  (∃ x y, bytes = [0xEF, x, y] ∧ (x = 0xBF ∨ x = 0xFF) ∧ (y = 0xBD ∨ y = 0xFD)) ∨
    ∃ x y z, bytes = [0xF0, x, y, z] ∧ (x = 0x8F ∨ x = 0xCF) ∧ (y = 0xBF ∨ y = 0xFF) ∧
      (z = 0xBD ∨ z = 0xFD)

/-- Each sequence is a byte by itself, or UTF-8, or one of the few that give U+FFFD by the bits
of their bytes. -/
def Readable (s : List UInt8) : Prop :=
  ∀ bytes ∈ sequences s, bytes.length = 1 ∨ WellFormed bytes ∨ MaskedReplacement bytes

theorem readSequence_length (s : List UInt8) : (readSequence s).2 = sequenceLength s := by
  rw [readSequence_eq]
  unfold sequenceLength
  split_ifs <;> rfl

theorem readSequence_lt (s : List UInt8) : (readSequence s).1 < 0x200000 := by
  rw [readSequence_eq]
  have hlead := byteAt_lt s 0
  split_ifs <;> dsimp only <;> omega

theorem trace_fst (w : SqlWchar) (pairs : Bool) (s : List UInt8) :
    (trace w pairs s).map Prod.fst = sequences s := by
  induction s using sequences.induct with
  | case1 s hs ih =>
      rw [trace, sequences, if_pos hs, if_pos hs, List.map_cons, readSequence_length, ih]
  | case2 s hs =>
      rw [trace, sequences, if_neg hs, if_neg hs]
      rfl

theorem trace_snd (w : SqlWchar) (pairs : Bool) (s : List UInt8) :
    (trace w pairs s).flatMap Prod.snd = convert w pairs s := by
  induction s using convert.induct with
  | case1 s hs ih => rw [trace, convert, if_pos hs, if_pos hs, List.flatMap_cons, ih]
  | case2 s hs =>
      rw [trace, convert, if_neg hs, if_neg hs]
      rfl

theorem asciiUnits_append (a b : List Nat) :
    asciiUnits (a ++ b) = asciiUnits a ++ asciiUnits b := List.filter_append ..

theorem asciiBytes_append (a b : List UInt8) :
    asciiBytes (a ++ b) = asciiBytes a ++ asciiBytes b := by
  unfold asciiBytes
  rw [List.map_append, asciiUnits_append]

theorem asciiUnits_nil {units : List Nat} (h : ∀ u ∈ units, 0x80 ≤ u) : asciiUnits units = [] := by
  apply List.filter_eq_nil_iff.mpr
  intro u hu
  have hle := h u hu
  simp only [decide_eq_true_eq]
  omega

/-- A character below 0x80 is the only one with units or bytes below 0x80. -/
theorem ascii_char (pairs : Bool) (c : Char) :
    asciiUnits (charUnits pairs c) = asciiBytes (String.utf8EncodeChar c) := by
  have hval : c.val.toNat = c.toNat := rfl
  by_cases hone : c.toNat ≤ 0x7F
  · have hunits : charUnits pairs c = [c.toNat] := if_neg (by omega)
    have hbytes : String.utf8EncodeChar c = [UInt8.ofNat c.toNat] := by
      unfold String.utf8EncodeChar
      simp only [hval, if_pos hone]
    have hbyte : (UInt8.ofNat c.toNat).toNat = c.toNat := by
      rw [UInt8.toNat_ofNat']
      omega
    unfold asciiBytes
    rw [hunits, hbytes, List.map_cons, List.map_nil, hbyte]
  · have hunits : ∀ u ∈ charUnits pairs c, 0x80 ≤ u := by
      intro u hu
      unfold charUnits at hu
      split at hu
      · rw [List.mem_cons, List.mem_singleton] at hu
        omega
      · rw [List.mem_singleton] at hu
        omega
    have hbytes : ∀ u ∈ (String.utf8EncodeChar c).map UInt8.toNat, 0x80 ≤ u := by
      have hvalid := toNat_valid c
      intro u hu
      unfold String.utf8EncodeChar at hu
      simp only [hval, if_neg hone] at hu
      split_ifs at hu <;>
        simp only [List.map_cons, List.map_nil, UInt8.toNat_ofNat', List.mem_cons,
          List.not_mem_nil, or_false] at hu <;> omega
    unfold asciiBytes
    rw [asciiUnits_nil hunits, asciiUnits_nil hbytes]

theorem sequenceLength_le {s : List UInt8} (hs : 0 < s.length) : sequenceLength s ≤ s.length := by
  unfold sequenceLength
  split_ifs <;> omega

/-- What is read of a sequence: a character, which is U+FFFD unless the sequence is its UTF-8,
with nothing lost or added below 0x80. -/
def ReadAs (pairs : Bool) (s : List UInt8) (c : Char) : Prop :=
  (readSequence s).1 = c.toNat ∧
    (¬ WellFormed (s.take (sequenceLength s)) → c.toNat = 0xFFFD) ∧
    asciiUnits (charUnits pairs c) = asciiBytes (s.take (sequenceLength s))

theorem readAs_wellFormed {s : List UInt8} {c : Char}
    (h : s.take (sequenceLength s) = String.utf8EncodeChar c) (pairs : Bool) :
    ReadAs pairs s c := by
  have hsplit := List.take_append_drop (sequenceLength s) s
  have hread := readSequence_char c (s.drop (sequenceLength s))
  rw [← h, hsplit] at hread
  unfold ReadAs
  rw [h]
  exact ⟨congrArg Prod.fst hread, fun hnot => absurd ⟨c, rfl⟩ hnot, ascii_char pairs c⟩

theorem readAs_replacement {s : List UInt8} (hread : (readSequence s).1 = 0xFFFD)
    (hascii : asciiBytes (s.take (sequenceLength s)) = []) (pairs : Bool) :
    ReadAs pairs s (Char.ofNat 0xFFFD) := by
  refine ⟨hread, fun _ => rfl, ?_⟩
  rw [hascii]
  rfl

theorem readSequence_masked {s rest : List UInt8} {bytes : List UInt8}
    (h : MaskedReplacement bytes) (hs : s = bytes ++ rest) :
    (readSequence s).1 = 0xFFFD ∧ asciiBytes bytes = [] := by
  rw [readSequence_eq]
  rcases h with ⟨x, y, rfl, rfl | rfl, rfl | rfl⟩ |
      ⟨x, y, z, rfl, rfl | rfl, rfl | rfl, rfl | rfl⟩ <;>
    exact ⟨by subst hs; simp [byteAt], by decide⟩

/-- A sequence that is a byte by itself, or UTF-8, or has the bits of U+FFFD is read as it
should be. -/
theorem readSequence_readable {s : List UInt8} (hs : 0 < s.length)
    (h : (s.take (sequenceLength s)).length = 1 ∨ WellFormed (s.take (sequenceLength s)) ∨
      MaskedReplacement (s.take (sequenceLength s))) (pairs : Bool) :
    ∃ c : Char, ReadAs pairs s c := by
  rcases h with hone | ⟨c, hc⟩ | hmasked
  · have hle := sequenceLength_le hs
    have hlen : sequenceLength s = 1 := by
      rw [List.length_take] at hone
      omega
    cases s with
    | nil => cases hs
    | cons b rest =>
        have htake : (b :: rest).take (sequenceLength (b :: rest)) = [b] := by
          rw [hlen]
          rfl
        have hbyte : byteAt (b :: rest) 0 = b.toNat := rfl
        by_cases hascii : b.toNat < 0x80
        · refine ⟨Char.ofNat b.toNat, readAs_wellFormed ?_ pairs⟩
          have hvalid : b.toNat.isValidChar := Or.inl (by omega)
          have hval : (Char.ofNat b.toNat).val.toNat = b.toNat := toNat_ofNat_of_valid hvalid
          rw [htake]
          unfold String.utf8EncodeChar
          simp only [hval]
          rw [if_pos (by omega)]
          exact congrArg (fun x => [x]) UInt8.ofNat_toNat.symm
        · refine ⟨Char.ofNat 0xFFFD, readAs_replacement ?_ ?_ pairs⟩
          · rw [readSequence_eq]
            unfold sequenceLength at hlen
            rw [hbyte] at hlen ⊢
            split_ifs at hlen ⊢
            · omega
            · omega
            · omega
            · rfl
          · rw [htake]
            unfold asciiBytes
            apply asciiUnits_nil
            intro u hu
            rw [List.map_cons, List.map_nil, List.mem_singleton] at hu
            omega
  · exact ⟨c, readAs_wellFormed hc pairs⟩
  · have hmask := readSequence_masked hmasked (List.take_append_drop (sequenceLength s) s).symm
    exact ⟨Char.ofNat 0xFFFD, readAs_replacement hmask.1 hmask.2 pairs⟩

section
variable {w : SqlWchar} {pairs : Bool}

theorem trace_cons {s : List UInt8} (hs : 0 < s.length) :
    trace w pairs s = (s.take (sequenceLength s), writeUnits w pairs (readSequence s).1) ::
      trace w pairs (s.drop (sequenceLength s)) := by
  rw [trace, if_pos hs, readSequence_length]

theorem convert_cons {s : List UInt8} (hs : 0 < s.length) :
    convert w pairs s = writeUnits w pairs (readSequence s).1 ++
      convert w pairs (s.drop (sequenceLength s)) := by
  rw [convert, if_pos hs, readSequence_length]

theorem asciiBytes_cut (s : List UInt8) :
    asciiBytes s = asciiBytes (s.take (sequenceLength s)) ++
      asciiBytes (s.drop (sequenceLength s)) := by
  rw [← asciiBytes_append, List.take_append_drop]

theorem replaces_of_readable (hpairs : w = .two → pairs = true) {s : List UInt8}
    (h : Readable s) : Replaces w pairs s (convert w pairs s) := by
  induction s using sequences.induct with
  | case1 s hs ih =>
      have hcut : sequences s = s.take (sequenceLength s) ::
          sequences (s.drop (sequenceLength s)) := by
        rw [sequences, if_pos hs]
      have hhead := h (s.take (sequenceLength s)) (by rw [hcut]; exact List.mem_cons_self)
      have hrest := ih fun bytes hbytes => h bytes (by
        rw [hcut]
        exact List.mem_cons_of_mem _ hbytes)
      obtain ⟨c, hread, hbad, hascii⟩ := readSequence_readable hs hhead pairs
      have hunits : writeUnits w pairs (readSequence s).1 = charUnits pairs c := by
        rw [hread, writeUnits_char hpairs]
      refine ⟨(trace_snd w pairs s).symm, ?_, ?_, ?_⟩
      · obtain ⟨cs, hcs⟩ := hrest.valid
        refine ⟨c :: cs, ?_⟩
        rw [convert_cons hs, hunits, hcs]
        rfl
      · intro x hx hnot
        rw [trace_cons hs, List.mem_cons] at hx
        rcases hx with rfl | hx
        · have hc : c = Char.ofNat 0xFFFD := Char.toNat_inj.mp (hbad hnot)
          dsimp only
          rw [hunits, hc]
          rfl
        · exact hrest.malformed x hx hnot
      · rw [convert_cons hs, asciiUnits_append, hunits, hascii, hrest.ascii, ← asciiBytes_cut]
  | case2 s hs =>
      have hnil : s = [] := List.eq_nil_of_length_eq_zero (by omega)
      have hconvert : convert w pairs s = [] := by rw [convert, if_neg hs]
      refine ⟨(trace_snd w pairs s).symm, ⟨[], hconvert⟩, ?_, ?_⟩
      · intro x hx
        rw [trace, if_neg hs] at hx
        cases hx
      · rw [hconvert, hnil]
        rfl

/-- What is written for a sequence has no more units below 0x80 than the sequence has bytes. -/
theorem asciiUnits_written (hpairs : w = .two → pairs = true) {s : List UInt8}
    (h : ¬ WellFormed (s.take (sequenceLength s)) →
      writeUnits w pairs (readSequence s).1 = [0xFFFD]) :
    (WellFormed (s.take (sequenceLength s)) ∧
        asciiUnits (writeUnits w pairs (readSequence s).1) =
          asciiBytes (s.take (sequenceLength s))) ∨
      asciiUnits (writeUnits w pairs (readSequence s).1) = [] := by
  by_cases hwell : WellFormed (s.take (sequenceLength s))
  · obtain ⟨c, hc⟩ := hwell
    obtain ⟨hread, -, hascii⟩ := readAs_wellFormed hc pairs
    refine Or.inl ⟨⟨c, hc⟩, ?_⟩
    rw [hread, writeUnits_char hpairs, hascii]
  · refine Or.inr ?_
    rw [h hwell]
    rfl

/-- A malformed sequence has no byte below 0x80 when all of these are accounted for. -/
theorem malformed_ascii (hpairs : w = .two → pairs = true) {s : List UInt8}
    (h : ∀ x ∈ trace w pairs s, ¬ WellFormed x.1 → x.2 = [0xFFFD]) :
    (asciiUnits (convert w pairs s)).length ≤ (asciiBytes s).length ∧
      ((asciiUnits (convert w pairs s)).length = (asciiBytes s).length →
        ∀ x ∈ trace w pairs s, ¬ WellFormed x.1 → asciiBytes x.1 = []) := by
  induction s using sequences.induct with
  | case1 s hs ih =>
      have hmem : ∀ x, x ∈ trace w pairs s ↔
          x = (s.take (sequenceLength s), writeUnits w pairs (readSequence s).1) ∨
            x ∈ trace w pairs (s.drop (sequenceLength s)) := by
        intro x
        rw [trace_cons hs, List.mem_cons]
      have hhead := h _ ((hmem _).mpr (Or.inl rfl))
      obtain ⟨hle, hequal⟩ := ih fun x hx => h x ((hmem x).mpr (Or.inr hx))
      rw [convert_cons hs, asciiUnits_append, asciiBytes_cut s, List.length_append,
        List.length_append]
      rcases asciiUnits_written hpairs hhead with ⟨hwell, hascii⟩ | hnone
      · rw [hascii]
        refine ⟨Nat.add_le_add_left hle _, ?_⟩
        intro hsum x hx hnot
        rcases (hmem x).mp hx with rfl | hx
        · exact absurd hwell hnot
        · exact hequal (Nat.add_left_cancel hsum) x hx hnot
      · rw [hnone, List.length_nil, Nat.zero_add]
        refine ⟨hle.trans (Nat.le_add_left _ _), ?_⟩
        intro hsum x hx hnot
        have hzero : (asciiBytes (s.take (sequenceLength s))).length = 0 := by omega
        rcases (hmem x).mp hx with rfl | hx
        · exact List.eq_nil_of_length_eq_zero hzero
        · exact hequal (by omega) x hx hnot
  | case2 s hs =>
      have hnone : trace w pairs s = [] := by rw [trace, if_neg hs]
      rw [convert, if_neg hs, hnone]
      refine ⟨Nat.zero_le _, ?_⟩
      intro _ x hx
      cases hx

theorem eq_of_toNat {b : UInt8} {n : Nat} (h : b.toNat = n) : b = n.toUInt8 := by
  rw [← h]
  exact UInt8.ofNat_toNat.symm

theorem asciiBytes_nil {bytes : List UInt8} (h : asciiBytes bytes = []) :
    ∀ b ∈ bytes, 0x80 ≤ b.toNat := by
  intro b hb
  have hnot := List.filter_eq_nil_iff.mp h b.toNat (List.mem_map_of_mem hb)
  simp only [decide_eq_true_eq] at hnot
  omega

theorem writeUnits_replacement (hpairs : w = .two → pairs = true) {cp : Nat} (hcp : cp < 0x200000)
    (h : writeUnits w pairs cp = [0xFFFD]) : cp = 0xFFFD := by
  rw [writeUnits_eq hcp hpairs] at h
  by_cases hpair : 0x10000 ≤ cp ∧ pairs
  · rw [if_pos hpair] at h
    have hlength : 2 = 1 := congrArg List.length h
    omega
  · rw [if_neg hpair] at h
    exact (List.cons.inj h).1

theorem cut_three {s : List UInt8} (h : 2 < s.length) :
    ∃ x y z rest, s = x :: y :: z :: rest :=
  match s, h with
  | x :: y :: z :: rest, _ => ⟨x, y, z, rest, rfl⟩

theorem eq_or_eq_of_low {b : UInt8} {m n : Nat} (h : b.toNat = m ∨ b.toNat = n) :
    b = m.toUInt8 ∨ b = n.toUInt8 := h.imp eq_of_toNat eq_of_toNat

/-- A sequence of several bytes that gives U+FFFD, with none of them below 0x80. -/
theorem masked_of_read {s : List UInt8} (hs : 0 < s.length)
    (hlen : (s.take (sequenceLength s)).length ≠ 1) (hread : (readSequence s).1 = 0xFFFD)
    (hascii : asciiBytes (s.take (sequenceLength s)) = []) :
    MaskedReplacement (s.take (sequenceLength s)) := by
  have hle := sequenceLength_le hs
  have hhigh := asciiBytes_nil hascii
  rw [List.length_take, Nat.min_eq_left hle] at hlen
  rw [readSequence_eq] at hread
  unfold sequenceLength at hlen hhigh ⊢
  split_ifs at hlen hhigh hread ⊢ with h1 h2 h3 h4
  · exact absurd rfl hlen
  · dsimp only at hread
    omega
  · obtain ⟨x, y, z, rest, rfl⟩ := cut_three h3.2
    have hlead : x.toNat / 16 = 14 := h3.1
    have hcp : x.toNat % 16 * 4096 + y.toNat % 64 * 64 + z.toNat % 64 = 0xFFFD := hread
    have hy := hhigh y (by simp)
    have hz := hhigh z (by simp)
    have hy' : y.toNat < 256 := y.toNat_lt
    have hz' : z.toNat < 256 := z.toNat_lt
    have hx : x = 0xEF := @eq_of_toNat x 0xEF (by omega)
    refine Or.inl ⟨y, z, congrArg (· :: [y, z]) hx, ?_, ?_⟩
    · exact @eq_or_eq_of_low y 0xBF 0xFF (by omega)
    · exact @eq_or_eq_of_low z 0xBD 0xFD (by omega)
  · obtain ⟨x, y, z, rest, rfl⟩ := cut_three (Nat.lt_of_succ_lt h4.2)
    cases rest with
    | nil => exact absurd h4.2 (Nat.lt_irrefl 3)
    | cons v rest =>
        have hlead : x.toNat / 8 = 30 := h4.1
        have hcp : x.toNat % 8 * 262144 + y.toNat % 64 * 4096 + z.toNat % 64 * 64 +
            v.toNat % 64 = 0xFFFD := hread
        have hy := hhigh y (by simp)
        have hz := hhigh z (by simp)
        have hv := hhigh v (by simp)
        have hy' : y.toNat < 256 := y.toNat_lt
        have hz' : z.toNat < 256 := z.toNat_lt
        have hv' : v.toNat < 256 := v.toNat_lt
        have hx : x = 0xF0 := @eq_of_toNat x 0xF0 (by omega)
        refine Or.inr ⟨y, z, v, congrArg (· :: [y, z, v]) hx, ?_, ?_, ?_⟩
        · exact @eq_or_eq_of_low y 0x8F 0xCF (by omega)
        · exact @eq_or_eq_of_low z 0xBF 0xFF (by omega)
        · exact @eq_or_eq_of_low v 0xBD 0xFD (by omega)
  · exact absurd rfl hlen

theorem mem_sequences {s bytes : List UInt8} (h : bytes ∈ sequences s) :
    ∃ rest, 0 < rest.length ∧ bytes = rest.take (sequenceLength rest) ∧
      ∀ (w : SqlWchar) (pairs : Bool),
        (bytes, writeUnits w pairs (readSequence rest).1) ∈ trace w pairs s := by
  induction s using sequences.induct with
  | case1 s hs ih =>
      rw [sequences, if_pos hs, List.mem_cons] at h
      rcases h with rfl | h
      · refine ⟨s, hs, rfl, ?_⟩
        intro w pairs
        rw [trace_cons hs]
        exact List.mem_cons_self
      · obtain ⟨rest, hrest, hbytes, htrace⟩ := ih h
        refine ⟨rest, hrest, hbytes, ?_⟩
        intro w pairs
        rw [trace_cons hs]
        exact List.mem_cons_of_mem _ (htrace w pairs)
  | case2 s hs =>
      rw [sequences, if_neg hs] at h
      cases h

theorem readable_of_replaces (hpairs : w = .two → pairs = true) {s : List UInt8}
    (h : Replaces w pairs s (convert w pairs s)) : Readable s := by
  have hlength := congrArg List.length h.ascii
  have hascii := (malformed_ascii hpairs h.malformed).2 hlength
  intro bytes hbytes
  obtain ⟨rest, hrest, rfl, htrace⟩ := mem_sequences hbytes
  by_cases hone : (rest.take (sequenceLength rest)).length = 1
  · exact Or.inl hone
  by_cases hwell : WellFormed (rest.take (sequenceLength rest))
  · exact Or.inr (Or.inl hwell)
  have hwritten := h.malformed _ (htrace w pairs) hwell
  have hread := writeUnits_replacement hpairs (readSequence_lt rest) hwritten
  exact Or.inr (Or.inr (masked_of_read hrest hone hread (hascii _ (htrace w pairs) hwell)))

end

theorem pairs_of_two {w : SqlWchar} (utf16Pairs : Bool) (hw : w = .two) :
    (decide (w.bytes < 4) || utf16Pairs) = true := by
  rw [hw]
  rfl

/-- Both converters replace malformed text by U+FFFD exactly in byte strings whose sequences
are well formed, or a single byte, or have the bits of U+FFFD and no byte below 0x80. -/
theorem convert_replaces_iff (w : SqlWchar) (utf16Pairs : Bool) (s : List UInt8) :
    (Replaces w (decide (w.bytes < 4) || utf16Pairs) s (odbcUtf8ToUtf16Into w utf16Pairs s) ↔
      Readable s) ∧
    (Replaces w (decide (w.bytes < 4)) s (utf8ToUtf16 w s) ↔ Readable s) := by
  have htwo : w = .two → decide (w.bytes < 4) = true := by
    rintro rfl
    rfl
  exact ⟨⟨readable_of_replaces (pairs_of_two utf16Pairs),
      replaces_of_readable (pairs_of_two utf16Pairs)⟩,
    ⟨readable_of_replaces htwo, replaces_of_readable htwo⟩⟩

/-- A lead byte takes the quote behind it: of `C3 27` there is one unit, U+00E7. -/
theorem quote_swallowed :
    ¬ Replaces .two true [0xC3, 0x27] (odbcUtf8ToUtf16Into .two false [0xC3, 0x27]) ∧
      ¬ Replaces .two true [0xC3, 0x27] (utf8ToUtf16 .two [0xC3, 0x27]) := by
  have hunits : convert .two true [0xC3, 0x27] = [0xE7] := by
    rw [convert, if_pos (by decide), convert, if_neg (by decide)]
    rfl
  have hquote : ¬ Replaces .two true [0xC3, 0x27] (convert .two true [0xC3, 0x27]) := by
    intro h
    have hascii := h.ascii
    rw [hunits] at hascii
    exact absurd hascii (by decide)
  exact ⟨hquote, hquote⟩

end AdbcBridge.Bind.WideText
