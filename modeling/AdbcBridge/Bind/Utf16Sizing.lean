import AdbcBridge.Bind.WideText

/-!
# How many units a text takes

`Utf16Units` counts what `OdbcUtf8ToUtf16Into` writes without writing it, and
`ArrayParamVarLenMax` sizes the cells of a parameter array by that count.  The two walk the
same sequences; they differ in when a pair is counted, which the counter decides by the lead
byte and the writer by the code point.
-/

namespace AdbcBridge.Bind.WideText

open AdbcBridge.Lib.Utf16 AdbcBridge.Reader.Scratch

/-- The `len` and the `pair` of one turn of `Utf16Units`. -/
def measureSequence (s : List UInt8) : Nat × Bool :=
  let c := byteAt s 0
  if c < 0x80 then (1, false)
  else if c &&& 0xE0 = 0xC0 ∧ 1 < s.length then (2, false)
  else if c &&& 0xF0 = 0xE0 ∧ 2 < s.length then (3, false)
  else if c &&& 0xF8 = 0xF0 ∧ 3 < s.length then (4, true)
  else (1, false)

theorem measureSequence_len (s : List UInt8) : 0 < (measureSequence s).1 := by
  unfold measureSequence
  dsimp only
  split_ifs <;> exact Nat.succ_pos _

/-- The loop of `Utf16Units`, with the bytes that are left. -/
def countUnits (pairs : Bool) (s : List UInt8) : Nat :=
  if 0 < s.length then
    (if (measureSequence s).2 && pairs then 2 else 1) +
      countUnits pairs (s.drop (measureSequence s).1)
  else 0
termination_by s.length
decreasing_by
  have hlen := measureSequence_len s
  rw [List.length_drop]
  omega

/-- `Utf16Units`. -/
def utf16Units (w : SqlWchar) (utf16Pairs : Bool) (s : List UInt8) : Nat :=
  countUnits (decide (w.bytes < 4) || utf16Pairs) s

/-! ## One sequence -/

theorem length_writeUnits (w : SqlWchar) (pairs : Bool) (cp : Nat) :
    (writeUnits w pairs cp).length = if 0x10000 ≤ cp ∧ pairs then 2 else 1 := by
  unfold writeUnits
  split_ifs <;> rfl

/-- Both loops go on by the same number of bytes. -/
theorem measureSequence_fst (s : List UInt8) : (measureSequence s).1 = (readSequence s).2 := by
  unfold measureSequence readSequence
  dsimp only
  split_ifs <;> rfl

/-- A pair is counted for a lead byte of four. -/
theorem measureSequence_snd (s : List UInt8) :
    (measureSequence s).2 = true ↔ (readSequence s).2 = 4 := by
  unfold measureSequence readSequence
  dsimp only
  split_ifs <;> simp

/-- What is read from fewer than four bytes is below the code points that take a pair. -/
theorem readSequence_short {s : List UInt8} (h : 0x10000 ≤ (readSequence s).1) :
    (readSequence s).2 = 4 := by
  have hlead := byteAt_lt s 0
  have hnext := Nat.mod_lt (byteAt s 1) (show 0 < 64 by decide)
  have hlast := Nat.mod_lt (byteAt s 2) (show 0 < 64 by decide)
  rw [readSequence_eq] at h ⊢
  split_ifs at h ⊢ with h1 h2 h3 h4
  · dsimp only at h
    omega
  · dsimp only at h
    omega
  · dsimp only at h
    omega
  · rfl
  · exact absurd h (by decide)

/-- The lead byte that asks for four bytes gets them. -/
theorem readSequence_len_le {s : List UInt8} (hs : 0 < s.length) :
    (readSequence s).2 ≤ s.length := by
  rw [readSequence_eq]
  split_ifs with h1 h2 h3 h4 <;> dsimp only <;> omega

/-! ## A whole text -/

/-- By induction on the sequences: where the writer makes a pair, the counter has counted one. -/
theorem length_convert_le (w : SqlWchar) (pairs : Bool) (s : List UInt8) :
    (convert w pairs s).length ≤ countUnits pairs s := by
  induction s using convert.induct with
  | case1 s hs ih =>
      rw [convert, countUnits, if_pos hs, if_pos hs, List.length_append, length_writeUnits,
        measureSequence_fst]
      apply Nat.add_le_add _ ih
      by_cases hpair : 0x10000 ≤ (readSequence s).1 ∧ pairs
      · have hfour := (measureSequence_snd s).mpr (readSequence_short hpair.1)
        rw [if_pos hpair, hfour, hpair.2]
        exact Nat.le_refl 2
      · rw [if_neg hpair]
        split_ifs <;> decide
  | case2 s hs =>
      rw [convert, if_neg hs]
      exact Nat.zero_le _

/-- A pair stands for four bytes. -/
theorem countUnits_le (pairs : Bool) (s : List UInt8) : countUnits pairs s ≤ s.length := by
  induction s using countUnits.induct with
  | case1 s hs ih =>
      have hle := readSequence_len_le hs
      have hpos := readSequence_len s
      rw [List.length_drop] at ih
      rw [measureSequence_fst] at ih
      have hunits : (if (measureSequence s).2 && pairs then 2 else 1) ≤ (readSequence s).2 := by
        split_ifs with hpair
        · have hfour := (measureSequence_snd s).mp (Bool.and_elim_left hpair)
          omega
        · exact hpos
      calc countUnits pairs s
          = (if (measureSequence s).2 && pairs then 2 else 1) +
              countUnits pairs (s.drop (readSequence s).2) := by
            rw [countUnits, if_pos hs, measureSequence_fst]
        _ ≤ (readSequence s).2 + (s.length - (readSequence s).2) := Nat.add_le_add hunits ih
        _ = s.length := Nat.add_sub_of_le hle
  | case2 s hs =>
      rw [countUnits, if_neg hs]
      exact Nat.zero_le _

/-- Of a character the lead byte says whether it takes a pair. -/
theorem measureSequence_char (c : Char) (rest : List UInt8) :
    measureSequence (String.utf8EncodeChar c ++ rest) =
      ((String.utf8EncodeChar c).length, decide (0x10000 ≤ c.toNat)) := by
  have hread := readSequence_char c rest
  have hlen := congrArg Prod.snd hread
  have hfour : (String.utf8EncodeChar c).length = 4 ↔ 0x10000 ≤ c.toNat := by
    rw [String.length_utf8EncodeChar, Char.utf8Size_eq_four_iff, UInt32.lt_iff_toNat_lt]
    exact Iff.rfl
  apply Prod.ext
  · rw [measureSequence_fst, hlen]
  · rw [Bool.eq_iff_iff, measureSequence_snd, hlen, hfour, decide_eq_true_iff]

theorem countUnits_text (pairs : Bool) (cs : List Char) :
    countUnits pairs (utf8 cs) = (textUnits pairs cs).length := by
  induction cs with
  | nil =>
      rw [countUnits]
      rfl
  | cons c cs ih =>
      have hcons : utf8 (c :: cs) = String.utf8EncodeChar c ++ utf8 cs := rfl
      have hunits : textUnits pairs (c :: cs) = charUnits pairs c ++ textUnits pairs cs := rfl
      have hne : 0 < (utf8 (c :: cs)).length := by
        have hpos := Char.utf8Size_pos c
        rw [hcons, List.length_append, String.length_utf8EncodeChar]
        omega
      have hchar : (charUnits pairs c).length =
          if decide (0x10000 ≤ c.toNat) && pairs then 2 else 1 := by
        unfold charUnits
        cases pairs <;> by_cases hbig : 0x10000 ≤ c.toNat <;> simp [hbig]
      rw [countUnits, if_pos hne, hcons, measureSequence_char, List.drop_left, ih, hunits,
        List.length_append, hchar]

/-! ## The cells of a parameter array -/

/-- `ARRAY_BIND_MAX_VARLEN`. -/
def arrayBindMaxVarlen : Nat := 32768

/-- The loop of `ArrayParamVarLenMax` from a row on. -/
def longest (measure : List UInt8 → Option Nat) (max : Nat) :
    List (Option (List UInt8)) → Option Nat
  | [] => some max
  | none :: rows => longest measure max rows
  | some v :: rows =>
      match measure v with
      | none => none
      | some len =>
          if max < len then
            if arrayBindMaxVarlen < len then none else longest measure len rows
          else longest measure max rows

/-- `ArrayParamVarLenMax`; `none` is its -1. -/
def arrayParamVarLenMax (w : SqlWchar) (binary wide utf16Pairs : Bool)
    (rows : List (Option (List UInt8))) : Option Nat :=
  longest (fun v =>
    if binary then some v.length
    else if arrayBindMaxVarlen < v.length then none
    else some (if wide then utf16Units w utf16Pairs v else v.length)) 0 rows

/-- `elem_size` of a column of wide text. -/
def wideElemSize (w : SqlWchar) (max : Nat) : Nat :=
  ((if max < 1 then 1 else max) + 1) * w.bytes

theorem le_longest {measure : List UInt8 → Option Nat} {max result : Nat}
    {rows : List (Option (List UInt8))} (h : longest measure max rows = some result) :
    max ≤ result ∧ ∀ v, some v ∈ rows → ∃ len, measure v = some len ∧ len ≤ result := by
  induction rows generalizing max with
  | nil =>
      rw [longest, Option.some.injEq] at h
      exact ⟨h.le, fun v hv => absurd hv List.not_mem_nil⟩
  | cons row rows ih =>
      cases row with
      | none =>
          rw [longest] at h
          refine ⟨(ih h).1, ?_⟩
          intro v hv
          rw [List.mem_cons] at hv
          exact (ih h).2 v (hv.resolve_left (Option.some_ne_none v))
      | some u =>
          rw [longest] at h
          cases hmeasure : measure u with
          | none =>
              rw [hmeasure] at h
              cases h
          | some len =>
              simp only [hmeasure] at h
              have hrest : ∃ max', max ≤ max' ∧ len ≤ max' ∧
                  longest measure max' rows = some result := by
                split_ifs at h with hmore hlong
                · exact ⟨len, hmore.le, Nat.le_refl len, h⟩
                · exact ⟨max, Nat.le_refl max, not_lt.mp hmore, h⟩
              obtain ⟨max', hmax, hlen, hlongest⟩ := hrest
              have hresult := (ih hlongest).1
              refine ⟨hmax.trans hresult, ?_⟩
              intro v hv
              rw [List.mem_cons, Option.some.injEq] at hv
              cases hv with
              | inl heq =>
                  rw [heq]
                  exact ⟨len, hmeasure, hlen.trans hresult⟩
              | inr hmem => exact (ih hlongest).2 v hmem

/-- The units of every row are within the maximum that the column was sized by. -/
theorem utf16Units_le_max {w : SqlWchar} {utf16Pairs : Bool} {rows : List (Option (List UInt8))}
    {max : Nat} (h : arrayParamVarLenMax w false true utf16Pairs rows = some max)
    {s : List UInt8} (hs : some s ∈ rows) : utf16Units w utf16Pairs s ≤ max := by
  obtain ⟨len, hlen, hle⟩ := (le_longest h).2 s hs
  simp only [Bool.false_eq_true, if_false, if_true] at hlen
  split_ifs at hlen
  rw [Option.some.inj hlen]
  exact hle

/-- `Utf16Units` is never below what `OdbcUtf8ToUtf16Into` writes and neither is above the
number of bytes; for text they are the same; and the units of a row and their terminator fit
the cell of an array that was sized by the longest row. -/
theorem utf16Units_covers (w : SqlWchar) (utf16Pairs : Bool) :
    (∀ s, (odbcUtf8ToUtf16Into w utf16Pairs s).length ≤ utf16Units w utf16Pairs s ∧
      utf16Units w utf16Pairs s ≤ s.length ∧
      (odbcUtf8ToUtf16Into w utf16Pairs s).length ≤ s.length) ∧
    (∀ cs, utf16Units w utf16Pairs (utf8 cs) =
      (odbcUtf8ToUtf16Into w utf16Pairs (utf8 cs)).length) ∧
    ∀ rows max, arrayParamVarLenMax w false true utf16Pairs rows = some max →
      ∀ s, some s ∈ rows →
        ((odbcUtf8ToUtf16Into w utf16Pairs s).length + 1) * w.bytes ≤ wideElemSize w max := by
  have hwritten : ∀ s, (odbcUtf8ToUtf16Into w utf16Pairs s).length ≤ utf16Units w utf16Pairs s :=
    fun s => length_convert_le w _ s
  have hcounted : ∀ s, utf16Units w utf16Pairs s ≤ s.length := fun s => countUnits_le _ s
  refine ⟨?_, ?_, ?_⟩
  · intro s
    exact ⟨hwritten s, hcounted s, (hwritten s).trans (hcounted s)⟩
  · intro cs
    unfold utf16Units odbcUtf8ToUtf16Into
    rw [convert_text (pairs_of_two utf16Pairs), countUnits_text]
  · intro rows max hmax s hs
    have hfits : (odbcUtf8ToUtf16Into w utf16Pairs s).length ≤ max :=
      (hwritten s).trans (utf16Units_le_max hmax hs)
    apply Nat.mul_le_mul_right
    apply Nat.succ_le_succ
    split_ifs <;> omega

/-- A row of two bytes and a row that is null: the cell has room for one unit and the
terminator. -/
theorem utf16Units_covers_row :
    ((odbcUtf8ToUtf16Into .two false [0xC3, 0xA9]).length + 1) * 2 ≤ wideElemSize .two 1 :=
  (utf16Units_covers .two false).2.2 [none, some [0xC3, 0xA9]] 1
    (by
      have hunits : utf16Units .two false [0xC3, 0xA9] = 1 := by
        unfold utf16Units
        rw [countUnits, if_pos (by decide), countUnits, if_neg (by decide)]
        rfl
      simp [arrayParamVarLenMax, longest, hunits, arrayBindMaxVarlen])
    [0xC3, 0xA9] (by decide)

end AdbcBridge.Bind.WideText
