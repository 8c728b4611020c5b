import AdbcBridge.Reader.ScanText

/-!
# What is written as text is read back

The times and the timestamps that the parameter side writes are read back, a time of day
in nanoseconds cut to the seven digits that are written.  An offset that is appended moves
the instant by its seconds.  Zoned timestamps are read in seconds, milliseconds and
microseconds, and there no instant of four-digit years overflows.
-/

namespace AdbcBridge.Reader

open AdbcBridge.Adbc AdbcBridge.Lib AdbcBridge.Bind

/-! ## Offsets and their spellings -/

/-- An offset from UTC of at most 23:59. -/
structure UtcOffset where
  negative : Bool
  hours : Nat
  minutes : Nat
  hours_le : hours ≤ 23
  minutes_le : minutes ≤ 59

namespace UtcOffset

def seconds (o : UtcOffset) : Int :=
  (if o.negative then -1 else 1) * (o.hours * 3600 + o.minutes * 60)

def sign (o : UtcOffset) : Char := if o.negative then '-' else '+'

/-- One digit or two that write a number. -/
structure Short (n : Nat) (text : List Char) : Prop where
  digits : AllDigits text
  nonempty : text ≠ []
  length : text.length ≤ 2
  value : digitsValue text = n

/-- The texts of an offset: `Z`, or a sign, the hours, and the minutes that may be left out
if they are zero.  Without a colon the hours need both digits. -/
inductive Spells : UtcOffset → List Char → Prop
  | utc {o c} : c = 'Z' ∨ c = 'z' → o.seconds = 0 → Spells o [c]
  | hours {o hh} : Short o.hours hh → o.minutes = 0 → Spells o (o.sign :: hh)
  | colon {o hh mm} :
      Short o.hours hh → Short o.minutes mm → Spells o (o.sign :: hh ++ ':' :: mm)
  | plain {o hh mm} :
      Short o.hours hh → hh.length = 2 → Short o.minutes mm → Spells o (o.sign :: hh ++ mm)

/-- Blanks may follow. -/
def Spelling (o : UtcOffset) (t : List Char) : Prop :=
  ∃ core blanks, t = core ++ blanks ∧ Spells o core ∧ skipBlanks blanks = []

end UtcOffset

theorem blank_head {b : List Char} (hb : skipBlanks b = []) {c : Char} (hc : b.head? = some c) :
    isBlank c = true := by
  obtain ⟨rest, rfl⟩ := List.head?_eq_some_iff.mp hc
  exact List.dropWhile_eq_nil_iff.mp hb c (List.mem_cons_self)

theorem blank_noDigit {c : Char} (hc : isBlank c = true) : c.isDigit = false := by
  unfold isBlank at hc
  simp only [Bool.or_eq_true, decide_eq_true_eq] at hc
  rcases hc with (h | h) | h
  all_goals
    rw [h]
    decide

theorem noDigitAhead_blank {b : List Char} (hb : skipBlanks b = []) : NoDigitAhead b :=
  fun _ hc => blank_noDigit (blank_head hb hc)

theorem head_blank {b : List Char} (hb : skipBlanks b = []) {c : Char} (hc : isBlank c = false) :
    b.head? ≠ some c := by
  intro h
  have hblank := blank_head hb h
  rw [hc] at hblank
  cases hblank

theorem noDigitAhead_iff {s : List Char} :
    NoDigitAhead s ↔ s.head?.any Char.isDigit = false := by
  unfold NoDigitAhead
  cases s.head? <;> simp

namespace UtcOffset

theorem short_scan {n : Nat} {ds rest : List Char} (h : Short n ds)
    (hstop : ds.length = 2 ∨ NoDigitAhead rest) : scanUInt 2 (ds ++ rest) = some (n, rest) := by
  rw [scanUInt_append h.digits h.nonempty h.length hstop, h.value]

theorem short_of_scan {n : Nat} {s rest : List Char} (h : scanUInt 2 s = some (n, rest)) :
    ∃ ds, s = ds ++ rest ∧ Short n ds ∧ (ds.length = 2 ∨ NoDigitAhead rest) := by
  obtain ⟨ds, hs, hds, hne, hlength, hvalue, hstop⟩ := scanUInt_spec h
  exact ⟨ds, hs, ⟨hds, hne, hlength, hvalue⟩, hstop⟩

/-- The scan of a sign and what follows, once the hours and the minutes are scanned. -/
theorem scanOffset_signed (o : UtcOffset) {s s' rest : List Char}
    (hhours : scanUInt 2 s = some (o.hours, s'))
    (hminutes : scanOffsetMinutes s' = some (o.minutes, rest)) :
    scanOffset (o.sign :: s) = some (o.seconds, rest) := by
  have hhle := o.hours_le
  have hmle := o.minutes_le
  have hrange : ¬ (23 < o.hours ∨ 59 < o.minutes) := by omega
  unfold scanOffset sign seconds
  cases o.negative with
  | false => simp [hhours, hminutes, hrange]
  | true => simp [hhours, hminutes, hrange]

/-- Minutes are scanned behind two digits of the hours. -/
theorem scanOffsetMinutes_plain {n : Nat} {mm b : List Char} (h : Short n mm)
    (hb : skipBlanks b = []) : scanOffsetMinutes (mm ++ b) = some (n, b) := by
  have hscan := short_scan h (Or.inr (noDigitAhead_blank hb))
  obtain ⟨d, ds, rfl⟩ := List.exists_cons_of_ne_nil h.nonempty
  have hdigit := h.digits d List.mem_cons_self
  have hcolon : d ≠ ':' := by
    intro heq
    rw [heq] at hdigit
    exact absurd hdigit (by decide)
  unfold scanOffsetMinutes
  rw [if_neg (by simpa using hcolon), if_pos (by simpa using hdigit)]
  exact hscan

/-- Every spelling is scanned as its offset. -/
theorem scanOffset_of_spells {o : UtcOffset} {core b : List Char} (h : Spells o core)
    (hb : skipBlanks b = []) : scanOffset (core ++ b) = some (o.seconds, b) := by
  have hblank := noDigitAhead_blank hb
  cases h with
  | utc hc hzero =>
      unfold scanOffset
      rw [if_pos (by simpa using hc), hzero]
      rfl
  | hours hhours hzero =>
      apply scanOffset_signed o (short_scan hhours (Or.inr hblank))
      unfold scanOffsetMinutes
      rw [if_neg (head_blank hb (by decide)), if_neg (by simp [noDigitAhead_iff.mp hblank]),
        hzero]
  | colon hhours hminutes =>
      rw [List.append_assoc]
      apply scanOffset_signed o (short_scan hhours (Or.inr fun c hc => by cases hc; decide))
      exact short_scan hminutes (Or.inr hblank)
  | plain hhours hfull hminutes =>
      rw [List.append_assoc]
      apply scanOffset_signed o (short_scan hhours (Or.inl hfull))
      exact scanOffsetMinutes_plain hminutes hb

/-- A spelling begins as an offset does. -/
theorem Spelling.offsetAhead {o : UtcOffset} {t : List Char} (h : o.Spelling t) :
    OffsetAhead t := by
  obtain ⟨core, b, rfl, hcore, -⟩ := h
  have hsign : startsOffset o.sign = true := by
    unfold sign
    cases o.negative <;> decide
  cases hcore with
  | @utc c hc hzero =>
      refine ⟨c, rfl, ?_⟩
      rcases hc with rfl | rfl <;> decide
  | hours => exact ⟨o.sign, rfl, hsign⟩
  | colon => exact ⟨o.sign, rfl, hsign⟩
  | plain => exact ⟨o.sign, rfl, hsign⟩

/-- What is scanned behind a sign is the spelling of an offset. -/
theorem spells_of_scan {oh om : Nat} {s s' b : List Char}
    (hhours : scanUInt 2 s = some (oh, s')) (hminutes : scanOffsetMinutes s' = some (om, b))
    (o : UtcOffset) (hoh : o.hours = oh) (hom : o.minutes = om) :
    ∃ core, o.sign :: s = core ++ b ∧ Spells o core := by
  obtain ⟨hh, rfl, hshort, hstop⟩ := short_of_scan hhours
  rw [← hoh] at hshort
  unfold scanOffsetMinutes at hminutes
  by_cases hcolon : s'.head? = some ':'
  · rw [if_pos hcolon] at hminutes
    obtain ⟨s'', rfl⟩ := List.head?_eq_some_iff.mp hcolon
    obtain ⟨mm, hmm, hshort', -⟩ := short_of_scan hminutes
    rw [List.tail_cons] at hmm
    rw [← hom] at hshort'
    refine ⟨o.sign :: hh ++ ':' :: mm, ?_, Spells.colon hshort hshort'⟩
    rw [hmm]
    simp only [List.cons_append, List.append_assoc]
  · rw [if_neg hcolon] at hminutes
    by_cases hdigit : s'.head?.any Char.isDigit = true
    · rw [if_pos hdigit] at hminutes
      obtain ⟨mm, rfl, hshort', -⟩ := short_of_scan hminutes
      rw [← hom] at hshort'
      -- a digit is left only behind both digits of the hours
      have hfull : hh.length = 2 := by
        rcases hstop with hfull | hnone
        · exact hfull
        · rw [noDigitAhead_iff.mp hnone] at hdigit
          cases hdigit
      refine ⟨o.sign :: hh ++ mm, ?_, Spells.plain hshort hfull hshort'⟩
      simp only [List.cons_append, List.append_assoc]
    · rw [if_neg hdigit, Option.some.injEq, Prod.mk.injEq] at hminutes
      refine ⟨o.sign :: hh, ?_, Spells.hours hshort (hom.trans hminutes.1.symm)⟩
      rw [hminutes.2]
      rfl

/-- There are no other spellings that the parser accepts. -/
theorem spelling_of_scanOffset {t b : List Char} {off : Int} (ht : OffsetAhead t)
    (h : scanOffset t = some (off, b)) (hb : skipBlanks b = []) :
    ∃ o : UtcOffset, o.Spelling t ∧ o.seconds = off := by
  obtain ⟨c, hc, hstarts⟩ := ht
  obtain ⟨s, rfl⟩ := List.head?_eq_some_iff.mp hc
  unfold scanOffset at h
  by_cases hutc : (c :: s).head? = some 'Z' ∨ (c :: s).head? = some 'z'
  · rw [if_pos hutc, Option.some.injEq, Prod.mk.injEq] at h
    refine ⟨⟨false, 0, 0, by omega, by omega⟩, ⟨[c], b, ?_, ?_, hb⟩, ?_⟩
    · rw [← h.2]
      rfl
    · exact Spells.utc (by simpa using hutc) (by simp [seconds])
    · rw [← h.1]
      simp [seconds]
  · rw [if_neg hutc] at h
    have hsigned : (c :: s).head? = some '+' ∨ (c :: s).head? = some '-' := by
      unfold startsOffset at hstarts
      simp only [List.head?_cons, Option.some.injEq, Bool.or_eq_true, decide_eq_true_eq]
        at hstarts hutc ⊢
      tauto
    rw [if_pos hsigned] at h
    simp only [Option.bind_eq_bind, Option.bind_eq_some_iff, List.tail_cons] at h
    obtain ⟨⟨oh, s'⟩, hhours, ⟨om, s''⟩, hminutes, h⟩ := h
    by_cases hrange : 23 < oh ∨ 59 < om
    · rw [if_pos hrange] at h
      cases h
    · rw [if_neg hrange, Option.some.injEq, Prod.mk.injEq] at h
      obtain ⟨hoff, rfl⟩ := h
      obtain ⟨o, hneg, hoh, hom⟩ : ∃ o : UtcOffset, o.negative = decide (c = '-') ∧
          o.hours = oh ∧ o.minutes = om :=
        ⟨⟨decide (c = '-'), oh, om, by omega, by omega⟩, rfl, rfl, rfl⟩
      have hsign : o.sign = c := by
        unfold sign
        rw [hneg]
        simp only [List.head?_cons, Option.some.injEq] at hsigned
        rcases hsigned with rfl | rfl <;> rfl
      obtain ⟨core, hcore, hspells⟩ := spells_of_scan hhours hminutes o hoh hom
      refine ⟨o, ⟨core, s'', hsign ▸ hcore, hspells, hb⟩, ?_⟩
      unfold seconds
      rw [hneg, hoh, hom, ← hoff]
      simp

end UtcOffset

/-! ## Parsed instants -/

/-- The instant of scanned fields in ticks. -/
def ScannedCivil.ticks (fracDigits : Nat) (f : ScannedCivil) : Int :=
  f.secs * 10 ^ fracDigits + f.clock.frac

/-- A timestamp text without an offset: the parser takes all of it before it looks for
one. -/
def Bare (fracDigits : Nat) (s : List Char) (f : ScannedCivil) : Prop :=
  f.InRange ∧ ∃ blanks, scanCivil fracDigits s = some (f, blanks) ∧ skipBlanks blanks = []

theorem parse_bare {n : Nat} {s : List Char} {f : ScannedCivil} (h : Bare n s f) :
    parseTimestampUtcScaled n s = some (scaledTicks f.secs (10 ^ n) f.clock.frac) := by
  obtain ⟨hrange, blanks, hscan, hblanks⟩ := h
  have hnone : scanOffset [] = some (0, []) := by decide
  unfold parseTimestampUtcScaled
  simp only [Option.bind_eq_bind]
  rw [hscan, Option.bind_some]
  dsimp only
  rw [hblanks, hnone, Option.bind_some]
  dsimp only
  rw [if_neg (by decide), if_pos hrange, sub_zero]

/-- A text with an offset behind it is parsed if and only if the offset is spelled out, and
its seconds are taken from the instant. -/
theorem parse_offset {n : Nat} {s t : List Char} {f : ScannedCivil} (h : Bare n s f)
    {o : UtcOffset} (ht : o.Spelling t) :
    parseTimestampUtcScaled n (s ++ t) =
      some (scaledTicks (f.secs - o.seconds) (10 ^ n) f.clock.frac) := by
  obtain ⟨hrange, blanks, hscan, hblanks⟩ := h
  have hahead := ht.offsetAhead
  obtain ⟨core, b, rfl, hcore, hb⟩ := ht
  unfold parseTimestampUtcScaled
  simp only [Option.bind_eq_bind]
  rw [scanCivil_extend hahead hscan, Option.bind_some]
  dsimp only
  rw [skipBlanks_extend hahead, hblanks, List.nil_append,
    UtcOffset.scanOffset_of_spells hcore hb, Option.bind_some]
  dsimp only
  rw [hb, if_neg (by decide), if_pos hrange]

/-- The parser accepts nothing else behind a text that an offset could begin. -/
theorem spelling_of_parse {n : Nat} {s t : List Char} {f : ScannedCivil} (h : Bare n s f)
    (ht : OffsetAhead t) (hparse : (parseTimestampUtcScaled n (s ++ t)).isSome) :
    ∃ o : UtcOffset, o.Spelling t := by
  obtain ⟨-, blanks, hscan, hblanks⟩ := h
  unfold parseTimestampUtcScaled at hparse
  simp only [Option.bind_eq_bind] at hparse
  rw [scanCivil_extend ht hscan, Option.bind_some] at hparse
  dsimp only at hparse
  rw [skipBlanks_extend ht, hblanks, List.nil_append] at hparse
  cases hoffset : scanOffset t with
  | none =>
      rw [hoffset] at hparse
      cases hparse
  | some r =>
      rw [hoffset, Option.bind_some] at hparse
      by_cases hb : skipBlanks r.2 = []
      · obtain ⟨o, ho, -⟩ := UtcOffset.spelling_of_scanOffset ht hoffset hb
        exact ⟨o, ho⟩
      · rw [if_pos hb] at hparse
        cases hparse

/-! ## Nothing overflows -/

/-- The number that `DaysFromCivil` gives for a year of four digits, whether the day exists or
not. -/
theorem daysFromCivil_near {y : Int} {m d : Nat} (hy : 0 ≤ y ∧ y ≤ 9999) (hm : 1 ≤ m ∧ m ≤ 12)
    (hd : 1 ≤ d ∧ d ≤ 31) :
    -1000000 ≤ daysFromCivil y m d ∧ daysFromCivil y m d ≤ 4000000 := by
  obtain ⟨y', hy'⟩ : ∃ y', y' = if m ≤ 2 then y - 1 else y := ⟨_, rfl⟩
  have hrange : -1 ≤ y' ∧ y' ≤ 9999 := by
    split at hy' <;> omega
  obtain ⟨yoe, hyoe⟩ : ∃ yoe : Nat, (yoe : Int) = y' - y' / 400 * 400 :=
    ⟨(y' - y' / 400 * 400).toNat, by omega⟩
  obtain ⟨doy, hdoy, hdays⟩ : ∃ doy : Nat,
      (doy : Int) = (153 * ((m : Int) + if 2 < m then -3 else 9) + 2) / 5 + d - 1 ∧ doy < 400 := by
    refine ⟨((153 * ((m : Int) + if 2 < m then -3 else 9) + 2) / 5 + d - 1).toNat, ?_, ?_⟩
    · split <;> omega
    · split <;> omega
  obtain ⟨doe, hdoe⟩ : ∃ doe : Nat,
      (doe : Int) = (yoe : Int) * 365 + (yoe : Int) / 4 - (yoe : Int) / 100 + doy :=
    ⟨((yoe : Int) * 365 + (yoe : Int) / 4 - (yoe : Int) / 100 + doy).toNat, by omega⟩
  unfold daysFromCivil
  dsimp only
  rw [← hy', readEra_eq, ← hyoe, asUnsigned_of_lt (by omega), ← hdoy, asUnsigned_of_lt (by omega),
    ← hdoe, asUnsigned_of_lt (by omega)]
  omega

/-- What is scanned has a year of four digits and a fraction of the wanted ones. -/
theorem scanCivil_bounds {n : Nat} {s rest : List Char} {f : ScannedCivil}
    (h : scanCivil n s = some (f, rest)) : f.year ≤ 9999 ∧ f.clock.frac < 10 ^ n := by
  have hfraction : ∀ t, (scanFractionDigits n t).1 < 10 ^ n := by
    intro t
    unfold scanFractionDigits
    split_ifs
    · calc digitsValue _ < 10 ^ (List.take n _).length := digitsValue_lt ?_
        _ ≤ 10 ^ n := Nat.pow_le_pow_right (by omega) (List.length_take_le n _)
      intro c hc
      rcases List.mem_append.mp (List.mem_of_mem_take hc) with hdigit | hzero
      · exact List.mem_takeWhile_imp hdigit
      · rw [(List.mem_replicate.mp hzero).2]
        rfl
    · exact Nat.pow_pos (by omega)
  have hclock : ∀ t k t', scanClock n t = some (k, t') → k.frac < 10 ^ n := by
    intro t k t' hk
    simp only [scanClock, Option.bind_eq_bind, Option.bind_eq_some_iff] at hk
    obtain ⟨⟨hour, t₁⟩, -, t₂, -, ⟨minute, t₃⟩, -, ⟨second, t₄⟩, -, hk⟩ := hk
    rw [Option.some.injEq, Prod.mk.injEq] at hk
    rw [← hk.1]
    exact hfraction t₄
  simp only [scanCivil, Option.bind_eq_bind, Option.bind_eq_some_iff] at h
  obtain ⟨⟨year, s₁⟩, hyear, s₂, -, ⟨month, s₃⟩, -, s₄, -, ⟨day, s₅⟩, -, ⟨clock, s₆⟩, htime, h⟩ := h
  rw [Option.some.injEq, Prod.mk.injEq] at h
  rw [← h.1]
  constructor
  · obtain ⟨ds, -, hds, -, hlength, hvalue, -⟩ := scanUInt_spec hyear
    have hlt := digitsValue_lt hds
    have hpow : 10 ^ ds.length ≤ 10 ^ 4 := Nat.pow_le_pow_right (by omega) hlength
    change year ≤ 9999
    omega
  · unfold scanTimePart at htime
    split_ifs at htime
    · exact hclock _ _ _ htime
    · rw [Option.some.injEq, Prod.mk.injEq] at htime
      rw [← htime.1]
      exact Nat.pow_pos (by omega)

theorem UtcOffset.seconds_bounds (o : UtcOffset) : -86400 < o.seconds ∧ o.seconds < 86400 := by
  have hhours := o.hours_le
  have hminutes := o.minutes_le
  unfold UtcOffset.seconds
  split <;> omega

/-- Within a day of an instant that was scanned nothing overflows, down to microseconds. -/
theorem scaledTicks_bare {unit : ArrowTimeUnit} (hunit : unit ≠ .nano) {s : List Char}
    {f : ScannedCivil} (h : Bare (unitFractionDigits unit) s f) {shift : Int}
    (hshift : -86400 < shift ∧ shift < 86400) :
    scaledTicks (f.secs - shift) (10 ^ unitFractionDigits unit) f.clock.frac =
      some (f.ticks (unitFractionDigits unit) - shift * unit.ticksPerSecond) := by
  obtain ⟨⟨hmonth, hday, hhour, hminute, hsecond⟩, blanks, hscan, -⟩ := h
  obtain ⟨hyear, hfrac⟩ := scanCivil_bounds hscan
  have hdays := @daysFromCivil_near f.year _ _ ⟨Int.natCast_nonneg _, by exact_mod_cast hyear⟩
    hmonth hday
  have hsecs : -100000000000 < f.secs ∧ f.secs < 400000000000 := by
    unfold ScannedCivil.secs
    omega
  rw [scaledTicks_eq_some]
  unfold ScannedCivil.ticks InSigned
  cases unit with
  | second | milli | micro =>
      unfold unitFractionDigits at hfrac ⊢
      unfold ArrowTimeUnit.ticksPerSecond
      norm_num at hfrac ⊢
      omega
  | nano => exact absurd rfl hunit

theorem scaledTicks_unshifted {unit : ArrowTimeUnit} (hunit : unit ≠ .nano) {s : List Char}
    {f : ScannedCivil} (h : Bare (unitFractionDigits unit) s f) :
    scaledTicks f.secs (10 ^ unitFractionDigits unit) f.clock.frac =
      some (f.ticks (unitFractionDigits unit)) := by
  have hscaled := scaledTicks_bare hunit h (show (-86400 : Int) < 0 ∧ (0 : Int) < 86400 by decide)
  rwa [sub_zero, zero_mul, sub_zero] at hscaled

/-! ## Rendered texts -/

theorem skipBlanks_digits {ds rest : List Char} (hds : AllDigits ds) (hne : ds ≠ []) :
    skipBlanks (ds ++ rest) = ds ++ rest := by
  obtain ⟨d, ds, rfl⟩ := List.exists_cons_of_ne_nil hne
  have hblank : ¬ isBlank d = true := by
    intro hd
    have hdigit := hds d List.mem_cons_self
    rw [blank_noDigit hd] at hdigit
    cases hdigit
  exact List.dropWhile_cons_of_neg hblank

/-- A field of a fixed width is scanned whole. -/
theorem scan_field {width n : Nat} (hwidth : 0 < width) {ds : List Char}
    (h : FixedField width n ds) (rest : List Char) :
    scanUInt width (ds ++ rest) = some (n, rest) := by
  have hne : ds ≠ [] := List.ne_nil_of_length_pos (by rw [h.length]; exact hwidth)
  rw [scanUInt_append h.digits hne h.length.le (Or.inl h.length), h.value]

/-- The digits of a text's fraction filled up to those of the unit. -/
def filledUp (unit : ArrowTimeUnit) (f : Nat) : Nat :=
  if fractionalDigits unit = 0 then 0
  else f * 10 ^ (unitFractionDigits unit - fractionalDigits unit)

theorem scan_fraction (unit : ArrowTimeUnit) {f : Nat} {frac : List Char}
    (h : fractionalDigits unit ≠ 0 → FixedField (fractionalDigits unit) f frac) :
    scanFractionDigits (unitFractionDigits unit)
        (if fractionalDigits unit = 0 then [] else '.' :: frac) =
      (filledUp unit f, []) := by
  unfold filledUp
  by_cases hdigits : fractionalDigits unit = 0
  · rw [if_pos hdigits, if_pos hdigits]
    rfl
  · rw [if_neg hdigits, if_neg hdigits]
    obtain ⟨hall, hlength, hvalue⟩ := h hdigits
    have htaken : frac.takeWhile Char.isDigit = frac := by
      have hnone : NoDigitAhead [] := fun c hc => by cases hc
      simpa using takeWhile_digits hall hnone
    have hwide : frac.length ≤ unitFractionDigits unit := by
      rw [hlength]
      cases unit <;> decide
    unfold scanFractionDigits
    rw [if_pos (Or.inl List.head?_cons), List.tail_cons]
    dsimp only
    rw [htaken, List.drop_length, List.take_append, List.take_of_length_le hwide,
      List.take_replicate, Nat.min_eq_left (Nat.sub_le _ _), digitsValue_append,
      digitsValue_zeros, List.length_replicate, hvalue, hlength, add_zero]

theorem scan_clockText (unit : ArrowTimeUnit) {h m sec f : Nat}
    {hour minute second frac : List Char} (hhour : FixedField 2 h hour)
    (hminute : FixedField 2 m minute) (hsecond : FixedField 2 sec second)
    (hfrac : fractionalDigits unit ≠ 0 → FixedField (fractionalDigits unit) f frac) :
    scanClock (unitFractionDigits unit)
        (clockText (fractionalDigits unit) hour minute second frac) =
      some (⟨h, m, sec, filledUp unit f⟩, []) := by
  have hcolon (s : List Char) : scanChar ':' (':' :: s) = some s := rfl
  have hscanned (s : List Char) : scanSecond (':' :: (second ++ s)) = some (sec, s) :=
    scan_field (by omega) hsecond s
  unfold scanClock clockText
  simp only [Option.bind_eq_bind, List.append_assoc, List.cons_append]
  rw [scan_field (by omega) hhour, Option.bind_some]
  dsimp only
  rw [hcolon, Option.bind_some, scan_field (by omega) hminute, Option.bind_some]
  dsimp only
  rw [hscanned, Option.bind_some]
  dsimp only
  rw [scan_fraction unit hfrac]

/-- The whole seconds and the scanned fraction add up to the value, but for the digits that
are not written. -/
theorem rendered_eq (unit : ArrowTimeUnit) {v secs : Int} {f : Nat} (hf : f < 1000000000)
    (h : v * unit.nanos = secs * 1000000000 + f) :
    secs * 10 ^ unitFractionDigits unit +
      (filledUp unit (f / 10 ^ (9 - fractionalDigits unit)) : Nat) = rendered unit v := by
  unfold filledUp rendered
  cases unit with
  | second | milli | micro | nano =>
      unfold ArrowTimeUnit.nanos at h
      unfold fractionalDigits unitFractionDigits
      norm_num at h ⊢
      omega

/-- Microseconds are written with all their digits. -/
theorem rendered_whole {unit : ArrowTimeUnit} (hunit : unit ≠ .nano) (v : Int) :
    rendered unit v = v := by
  unfold rendered
  cases unit with
  | second | milli | micro => rfl
  | nano => exact absurd rfl hunit

/-- A time of day is read back. -/
theorem time_read_back {unit : ArrowTimeUnit} {v : Int} (h : IsTimeOfDay unit v) :
    parseTimeScaled (unitFractionDigits unit) (timeTextFromArrow v unit) =
      some (rendered unit v) := by
  obtain ⟨hour, minute, second, frac, htext, hhour, hminute, hsecond, hfrac⟩ :=
    timeTextFromArrow_fields h
  have hpos := unit.ticksPerSecond_pos
  have hnonneg : 0 ≤ v / unit.ticksPerSecond := Int.ediv_nonneg h.1 hpos.le
  have hday : v / unit.ticksPerSecond < 86400 := Int.ediv_lt_of_lt_mul hpos h.2
  have hne : hour ≠ [] := List.ne_nil_of_length_pos (by rw [hhour.length]; omega)
  have hskip : skipBlanks (clockText (fractionalDigits unit) hour minute second frac) =
      clockText (fractionalDigits unit) hour minute second frac := by
    unfold clockText
    simp only [List.append_assoc]
    exact skipBlanks_digits hhour.digits hne
  have hnil : ¬ skipBlanks [] ≠ [] := by decide
  obtain ⟨hf, hflt⟩ := fraction_lt unit v
  obtain ⟨f, hfeq⟩ := Int.eq_ofNat_of_zero_le hf
  have hsplit : v * unit.nanos = v / unit.ticksPerSecond * 1000000000 + f := by
    rw [← hfeq, ← unit.ticksPerSecond_mul_nanos, ← mul_assoc, ← add_mul, Int.ediv_mul_add_emod]
  have hrendered := rendered_eq unit (by omega) hsplit
  unfold parseTimeScaled
  simp only [Option.bind_eq_bind]
  rw [htext, hskip, scan_clockText unit hhour hminute hsecond hfrac, Option.bind_some]
  dsimp only
  rw [if_neg hnil, if_neg (by omega), Option.some.injEq, ← hrendered, hfeq]
  have hcut : ((f : Int) / 10 ^ (9 - fractionalDigits unit)).toNat =
      f / 10 ^ (9 - fractionalDigits unit) := by
    rw [← Int.toNat_natCast (f / 10 ^ (9 - fractionalDigits unit))]
    push_cast
    rfl
  have hsecs : ((((v / unit.ticksPerSecond / 3600).toNat : Int) * 60 +
      ((v / unit.ticksPerSecond % 3600 / 60).toNat : Int)) * 60 +
        ((v / unit.ticksPerSecond % 60).toNat : Int)) = v / unit.ticksPerSecond := by
    omega
  rw [hcut, hsecs]

/-- The timestamp lies in the years 1 to 9999. -/
def InYears (unit : ArrowTimeUnit) (v : Int) : Prop :=
  Civil.dayNumber 1 1 1 ≤ dayOfTimestamp unit v ∧
    dayOfTimestamp unit v ≤ Civil.dayNumber 9999 12 31

instance (unit : ArrowTimeUnit) (v : Int) : Decidable (InYears unit v) :=
  inferInstanceAs (Decidable (_ ∧ _))

theorem InYears.yearFits {unit : ArrowTimeUnit} {v : Int} (h : InYears unit v) :
    YearFits (dayOfTimestamp unit v) := by
  have hfirst : Civil.dayNumber (-32768) 1 1 ≤ Civil.dayNumber 1 1 1 := by decide
  have hlast : Civil.dayNumber 9999 12 31 ≤ Civil.dayNumber 32767 12 31 := by decide
  exact ⟨hfirst.trans h.1, h.2.trans hlast⟩

theorem InYears.year {unit : ArrowTimeUnit} {v : Int} (h : InYears unit v) :
    1 ≤ (timestampFromArrow v unit).year ∧ (timestampFromArrow v unit).year ≤ 9999 := by
  obtain ⟨hlegal, hday⟩ := civilOfDays_spec (dayOfTimestamp unit v)
  have hyear : (timestampFromArrow v unit).year = (civilOfDays (dayOfTimestamp unit v)).1 := by
    rw [timestampFromArrow_eq]
    exact (cast_year_iff _).mpr h.yearFits
  have hfrom := Civil.le_year_iff hlegal 1
  have hto := Civil.le_year_iff hlegal 10000
  have hend : Civil.dayNumber 10000 1 1 = Civil.dayNumber 9999 12 31 + 1 := by decide
  obtain ⟨hle, hge⟩ := h
  rw [hyear]
  rw [hday] at hfrom hto
  omega

/-- The text that the parameter side writes for a timestamp. -/
def timestampText (unit : ArrowTimeUnit) (v : Int) : List Char :=
  timestampTextFromStruct (timestampFromArrow v unit) unit

/-- The fields that are scanned of a timestamp's text. -/
def scannedStruct (unit : ArrowTimeUnit) (ts : TimestampStruct) : ScannedCivil :=
  { year := ts.year.toNat
    month := ts.month
    day := ts.day
    clock := ⟨ts.hour, ts.minute, ts.second,
      filledUp unit (ts.fraction / 10 ^ (9 - fractionalDigits unit))⟩ }

theorem scanCivil_timestampText {ts : TimestampStruct} (h : ts.Legal)
    (hyears : 1 ≤ ts.year ∧ ts.year ≤ 9999) (unit : ArrowTimeUnit) :
    scanCivil (unitFractionDigits unit) (timestampTextFromStruct ts unit) =
      some (scannedStruct unit ts, []) := by
  obtain ⟨year, month, day, hour, minute, second, frac, htext, hyear, hmonth, hday, hhour,
    hminute, hsecond, hfrac⟩ := timestampTextFromStruct_fields h hyears unit
  have hyear' : year ≠ [] := List.ne_nil_of_length_pos (by rw [hyear.length]; omega)
  have hhour' : hour ≠ [] := List.ne_nil_of_length_pos (by rw [hhour.length]; omega)
  have hdash (s : List Char) : scanChar '-' ('-' :: s) = some s := rfl
  have hpart : scanTimePart (unitFractionDigits unit)
      (' ' :: clockText (fractionalDigits unit) hour minute second frac) =
        some ((scannedStruct unit ts).clock, []) := by
    rw [scannedStruct, ← scan_clockText unit hhour hminute hsecond hfrac]
    unfold scanTimePart clockText
    rw [if_pos (Or.inl List.head?_cons), List.tail_cons]
    simp only [List.append_assoc]
    rw [skipBlanks_digits hhour.digits hhour']
  rw [htext]
  unfold scanCivil
  simp only [Option.bind_eq_bind, List.append_assoc, List.cons_append]
  rw [skipBlanks_digits hyear.digits hyear', scan_field (by omega) hyear, Option.bind_some]
  dsimp only
  rw [hdash, Option.bind_some, scan_field (by omega) hmonth, Option.bind_some]
  dsimp only
  rw [hdash, Option.bind_some, scan_field (by omega) hday, Option.bind_some]
  dsimp only
  rw [hpart, Option.bind_some]
  rfl

/-- A timestamp's text has no offset, and its instant is the value with the digits that are
written. -/
theorem timestampText_bare {unit : ArrowTimeUnit} {v : Int} (h : InYears unit v) :
    ∃ f, Bare (unitFractionDigits unit) (timestampText unit v) f ∧
      f.ticks (unitFractionDigits unit) = rendered unit v := by
  obtain ⟨hlegal, hinstant⟩ := (timestampFromArrow_denotes_iff v unit).mpr h.yearFits
  have hranges := timestampFromArrow_ranges v unit
  obtain ⟨ts, hts⟩ : ∃ ts, ts = timestampFromArrow v unit := ⟨_, rfl⟩
  have hyears := h.year
  unfold timestampText
  rw [← hts] at hlegal hinstant hyears hranges ⊢
  obtain ⟨hmonth, hday, hhour, hminute, hsecond, hfraction⟩ := hranges
  refine ⟨scannedStruct unit ts, ⟨⟨hmonth, hday, ?_, ?_, ?_⟩, [],
    scanCivil_timestampText hlegal hyears unit, by decide⟩, ?_⟩
  · exact Nat.le_of_lt_succ hhour
  · exact Nat.le_of_lt_succ hminute
  · exact Nat.le_of_lt_succ hsecond
  · have hyear : (ts.year.toNat : Int) = ts.year := by omega
    have hsecs : (scannedStruct unit ts).secs = timestampSecs ts := by
      unfold ScannedCivil.secs timestampSecs scannedStruct
      dsimp only
      rw [hyear]
    have hsplit : v * unit.nanos = timestampSecs ts * 1000000000 + ts.fraction := by
      rw [← hinstant]
      unfold timestampSecs TimestampStruct.instant
      rw [daysFromCivil_eq hlegal.1]
    unfold ScannedCivil.ticks
    rw [hsecs]
    exact rendered_eq unit hfraction hsplit

/-! ## The round trip -/

/-- An offset appended to a timestamp text takes its seconds from the parsed instant. -/
def Shifts (unit : ArrowTimeUnit) (s t : List Char) (o : UtcOffset) : Prop :=
  ∃ a, parseTimestampUtcScaled (unitFractionDigits unit) s = some (some a) ∧
    parseTimestampUtcScaled (unitFractionDigits unit) (s ++ t) =
      some (some (a - o.seconds * unit.ticksPerSecond))

/-- Times of day survive as text, and so do timestamps in the units in which texts are read.
There an offset, in any spelling that is accepted, moves the instant of a text by its
seconds. -/
theorem texts_read_back (unit : ArrowTimeUnit) :
    (∀ v, IsTimeOfDay unit v →
      parseTimeScaled (unitFractionDigits unit) (timeTextFromArrow v unit) =
        some (rendered unit v)) ∧
    (unit ≠ .nano →
      (∀ v, InYears unit v →
        parseTimestampUtcScaled (unitFractionDigits unit) (timestampText unit v) =
          some (some v)) ∧
      ∀ s f, Bare (unitFractionDigits unit) s f → ∀ t, OffsetAhead t →
        ((parseTimestampUtcScaled (unitFractionDigits unit) (s ++ t)).isSome ↔
          ∃ o : UtcOffset, o.Spelling t) ∧
        ∀ o : UtcOffset, o.Spelling t → Shifts unit s t o) := by
  refine ⟨fun v hv => time_read_back hv, fun hunit => ⟨?_, ?_⟩⟩
  · intro v hyears
    obtain ⟨f, hbare, hticks⟩ := timestampText_bare hyears
    rw [parse_bare hbare, scaledTicks_unshifted hunit hbare, hticks, rendered_whole hunit]
  · intro s f hbare t ht
    constructor
    · constructor
      · exact spelling_of_parse hbare ht
      · intro hspelling
        obtain ⟨o, ho⟩ := hspelling
        rw [parse_offset hbare ho]
        rfl
    · intro o ho
      have hscaled := scaledTicks_unshifted hunit hbare
      refine ⟨f.ticks (unitFractionDigits unit), ?_, ?_⟩
      · rw [parse_bare hbare, hscaled]
      · rw [parse_offset hbare ho, scaledTicks_bare hunit hbare o.seconds_bounds]

/-- Half past five, ahead of UTC. -/
def halfPastFive : UtcOffset :=
  { negative := false, hours := 5, minutes := 30, hours_le := by decide, minutes_le := by decide }

theorem halfPastFive_spelling : halfPastFive.Spelling "+05:30".toList := by
  have hhours : UtcOffset.Short halfPastFive.hours ['0', '5'] :=
    ⟨by simp [AllDigits, Char.isDigit], by decide, by decide, rfl⟩
  have hminutes : UtcOffset.Short halfPastFive.minutes ['3', '0'] :=
    ⟨by simp [AllDigits, Char.isDigit], by decide, by decide, rfl⟩
  exact ⟨_, [], (List.append_nil _).symm, UtcOffset.Spells.colon hhours hminutes, rfl⟩

/-- The last microsecond of a day, and of the year 1969. -/
theorem lastMicrosecond_read_back :
    parseTimeScaled 6 (timeTextFromArrow 86399999999 .micro) = some 86399999999 ∧
      parseTimestampUtcScaled 6 (timestampText .micro (-1)) = some (some (-1)) ∧
      Shifts .micro (timestampText .micro (-1)) "+05:30".toList halfPastFive := by
  obtain ⟨htimes, hzoned⟩ := texts_read_back .micro
  obtain ⟨htimestamps, hoffsets⟩ := hzoned (by decide)
  obtain ⟨f, hbare, -⟩ := timestampText_bare (show InYears .micro (-1) by decide)
  have hspelling := halfPastFive_spelling
  exact ⟨htimes 86399999999 (by decide), htimestamps (-1) (by decide),
    (hoffsets _ f hbare _ hspelling.offsetAhead).2 _ hspelling⟩

/-- In nanoseconds the parser overflows at the text of the least 64-bit value. -/
theorem leastNanosecond_misread :
    InSigned 64 (-9223372036854775808) ∧ InYears .nano (-9223372036854775808) ∧
      parseTimestampUtcScaled (unitFractionDigits .nano)
          (timestampText .nano (-9223372036854775808)) ≠
        some (some (rendered .nano (-9223372036854775808))) := by
  have hleast : InYears .nano (-9223372036854775808) := by decide
  obtain ⟨f, hbare, hticks⟩ := timestampText_bare hleast
  refine ⟨by decide, hleast, ?_⟩
  intro h
  rw [parse_bare hbare, Option.some.injEq, scaledTicks_eq_some] at h
  have hsum : ¬ InSigned 64 (rendered .nano (-9223372036854775808)) := by decide
  rw [h.2.2] at h
  exact hsum h.2.1

end AdbcBridge.Reader
