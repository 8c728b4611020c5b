import AdbcBridge.Bind.ParamSlot
import AdbcBridge.Lib.Numeral

/-!
# Times of day as text

`TIME_STRUCT` has no fraction, so a time of day with one is bound as text.  The fields of
such a text are numbers of a fixed width: that many digits, which write the number.
-/

namespace AdbcBridge.Bind

open AdbcBridge.Adbc AdbcBridge.Lib

/-- `TimeOfDayFromArrow`: the seconds since midnight and the ticks that are left. -/
def timeOfDayFromArrow (v : Int) (unit : ArrowTimeUnit) : Int × Int :=
  let perSec := unit.ticksPerSecond
  let (s, f) := (v.tdiv perSec, v.tmod perSec)
  let (s, f) := if f < 0 then (s - 1, f + perSec) else (s, f)
  let s := s.tmod 86400
  let s := if s < 0 then s + 86400 else s
  (s, f)

/-- `TimeTextFromArrow`. -/
def timeTextFromArrow (v : Int) (unit : ArrowTimeUnit) : List Char :=
  let (secs, frac) := timeOfDayFromArrow v unit
  let digits := fractionalDigits unit
  let whole := zeroPadded 2 (secs.tdiv 3600) ++
    ':' :: zeroPadded 2 ((secs.tmod 3600).tdiv 60) ++ ':' :: zeroPadded 2 (secs.tmod 60)
  if digits = 0 then whole
  else whole ++ '.' :: zeroPadded digits ((frac * 10 ^ digits).tdiv unit.ticksPerSecond)

/-! ## The texts field by field -/

/-- The fields of the clock, with the fraction if the unit has digits for it. -/
def clockText (digits : Nat) (hour minute second frac : List Char) : List Char :=
  hour ++ ':' :: minute ++ ':' :: second ++ if digits = 0 then [] else '.' :: frac

/-- A value with its fraction cut to the digits of the text. -/
def rendered (unit : ArrowTimeUnit) (v : Int) : Int :=
  match unit with
  | .nano => v / 100 * 100
  | _ => v

/-- The value is a time of day. -/
def IsTimeOfDay (unit : ArrowTimeUnit) (v : Int) : Prop :=
  0 ≤ v ∧ v < 86400 * unit.ticksPerSecond

instance (unit : ArrowTimeUnit) (v : Int) : Decidable (IsTimeOfDay unit v) :=
  inferInstanceAs (Decidable (_ ∧ _))

/-- The seconds are those of the day, whatever day it is. -/
theorem timeOfDayFromArrow_eq (v : Int) (unit : ArrowTimeUnit) :
    timeOfDayFromArrow v unit = (v / unit.ticksPerSecond % 86400, v % unit.ticksPerSecond) := by
  have hday : (0 : Int) < 86400 := by decide
  have hwrap (s : Int) : (if s.tmod 86400 < 0 then s.tmod 86400 + 86400 else s.tmod 86400) =
      s % 86400 := by
    have hfloor := congrArg Prod.snd (floor_of_trunc s hday)
    rwa [apply_ite Prod.snd] at hfloor
  unfold timeOfDayFromArrow
  dsimp only
  rw [floor_of_trunc v unit.ticksPerSecond_pos]
  dsimp only
  rw [hwrap]

/-- Another day has the same texts. -/
theorem timeTextFromArrow_wraps (v : Int) (unit : ArrowTimeUnit) :
    timeTextFromArrow (v % (86400 * unit.ticksPerSecond)) unit = timeTextFromArrow v unit := by
  have hsecs : v % (86400 * unit.ticksPerSecond) / unit.ticksPerSecond % 86400 =
      v / unit.ticksPerSecond % 86400 := by
    cases unit with
    | second | milli | micro | nano =>
        unfold ArrowTimeUnit.ticksPerSecond
        dsimp only
        omega
  have hfrac : v % (86400 * unit.ticksPerSecond) % unit.ticksPerSecond =
      v % unit.ticksPerSecond := Int.emod_emod_of_dvd v (Dvd.intro_left _ rfl)
  unfold timeTextFromArrow
  rw [timeOfDayFromArrow_eq, timeOfDayFromArrow_eq, hsecs, hfrac]

/-- The digits of the fraction write the fraction cut to them. -/
theorem fraction_digits {unit : ArrowTimeUnit} {f : Int} (hf : 0 ≤ f)
    (hlt : f < unit.ticksPerSecond) :
    ∃ n : Nat, (n : Int) = (f * 10 ^ fractionalDigits unit).tdiv unit.ticksPerSecond ∧
      n < 10 ^ fractionalDigits unit ∧
      (n : Int) = f * unit.nanos / 10 ^ (9 - fractionalDigits unit) := by
  have hscaled : (0 : Int) ≤ f * 10 ^ fractionalDigits unit := by positivity
  rw [Int.tdiv_eq_ediv_of_nonneg hscaled]
  cases unit with
  | second | milli | micro | nano =>
      unfold fractionalDigits ArrowTimeUnit.ticksPerSecond at *
      unfold ArrowTimeUnit.nanos
      norm_num at *
      first
        | exact ⟨f.toNat, by omega, by omega, by omega⟩
        | exact ⟨(f / 100).toNat, by omega, by omega, by omega⟩

/-- The text of a time of day. -/
theorem timeTextFromArrow_fields {unit : ArrowTimeUnit} {v : Int} (h : IsTimeOfDay unit v) :
    ∃ hour minute second frac,
      timeTextFromArrow v unit =
        clockText (fractionalDigits unit) hour minute second frac ∧
      FixedField 2 (v / unit.ticksPerSecond / 3600).toNat hour ∧
      FixedField 2 (v / unit.ticksPerSecond % 3600 / 60).toNat minute ∧
      FixedField 2 (v / unit.ticksPerSecond % 60).toNat second ∧
      (fractionalDigits unit ≠ 0 →
        FixedField (fractionalDigits unit)
          (v % unit.ticksPerSecond * unit.nanos / 10 ^ (9 - fractionalDigits unit)).toNat
          frac) := by
  have hpos := unit.ticksPerSecond_pos
  obtain ⟨secs, hsecs⟩ : ∃ secs, secs = v / unit.ticksPerSecond := ⟨_, rfl⟩
  have hnonneg : 0 ≤ secs := hsecs ▸ Int.ediv_nonneg h.1 hpos.le
  have hday : secs < 86400 := hsecs ▸ Int.ediv_lt_of_lt_mul hpos h.2
  obtain ⟨n, hn, hlt, hcut⟩ :=
    fraction_digits (Int.emod_nonneg v hpos.ne') (Int.emod_lt_of_pos v hpos)
  have hhour : secs.tdiv 3600 = ((secs / 3600).toNat : Int) := by
    rw [Int.tdiv_eq_ediv_of_nonneg hnonneg]
    omega
  have hminute : (secs.tmod 3600).tdiv 60 = ((secs % 3600 / 60).toNat : Int) := by
    rw [Int.tmod_eq_emod_of_nonneg hnonneg, Int.tdiv_eq_ediv_of_nonneg (by omega)]
    omega
  have hsecond : secs.tmod 60 = ((secs % 60).toNat : Int) := by
    rw [Int.tmod_eq_emod_of_nonneg hnonneg]
    omega
  refine ⟨zeroPadded 2 (secs / 3600).toNat, zeroPadded 2 (secs % 3600 / 60).toNat,
    zeroPadded 2 (secs % 60).toNat, zeroPadded (fractionalDigits unit) n, ?_,
    hsecs ▸ zeroPadded_field (by omega) (by omega),
    hsecs ▸ zeroPadded_field (by omega) (by omega),
    hsecs ▸ zeroPadded_field (by omega) (by omega), ?_⟩
  · unfold timeTextFromArrow clockText
    rw [timeOfDayFromArrow_eq, ← hsecs, Int.emod_eq_of_lt hnonneg hday]
    dsimp only
    rw [hhour, hminute, hsecond, ← hn]
    by_cases hdigits : fractionalDigits unit = 0
    · rw [if_pos hdigits, if_pos hdigits, List.append_nil]
    · rw [if_neg hdigits, if_neg hdigits]
  · intro hdigits
    rw [← hcut, Int.toNat_natCast]
    exact zeroPadded_field (by omega) hlt

/-- The text of a timestamp. -/
theorem timestampTextFromStruct_fields {ts : TimestampStruct} (h : ts.Legal)
    (hyear : 1 ≤ ts.year ∧ ts.year ≤ 9999) (unit : ArrowTimeUnit) :
    ∃ year month day hour minute second frac,
      timestampTextFromStruct ts unit = year ++ '-' :: month ++ '-' :: day ++
        ' ' :: clockText (fractionalDigits unit) hour minute second frac ∧
      FixedField 4 ts.year.toNat year ∧ FixedField 2 ts.month month ∧ FixedField 2 ts.day day ∧
      FixedField 2 ts.hour hour ∧ FixedField 2 ts.minute minute ∧ FixedField 2 ts.second second ∧
      (fractionalDigits unit ≠ 0 →
        FixedField (fractionalDigits unit) (ts.fraction / 10 ^ (9 - fractionalDigits unit))
          frac) := by
  obtain ⟨⟨⟨-, hmonth⟩, -, hday⟩, hhour, hminute, hsecond, hfraction⟩ := h
  have hday' : ts.day ≤ 31 := by
    unfold Civil.daysInMonth at hday
    split_ifs at hday <;> omega
  have hyear' : ts.year = (ts.year.toNat : Int) := by omega
  refine ⟨zeroPadded 4 ts.year.toNat, zeroPadded 2 ts.month, zeroPadded 2 ts.day,
    zeroPadded 2 ts.hour, zeroPadded 2 ts.minute, zeroPadded 2 ts.second,
    zeroPadded (fractionalDigits unit)
      (ts.fraction / 10 ^ (9 - fractionalDigits unit) : Nat),
    ?_, zeroPadded_field (by omega) (by omega), zeroPadded_field (by omega) (by omega),
    zeroPadded_field (by omega) (by omega), zeroPadded_field (by omega) (by omega),
    zeroPadded_field (by omega) (by omega), zeroPadded_field (by omega) (by omega), ?_⟩
  · unfold timestampTextFromStruct dateText clockText
    rw [← hyear']
    dsimp only
    push_cast
    by_cases hdigits : fractionalDigits unit = 0
    · rw [if_pos hdigits, if_pos hdigits]
      simp only [List.append_assoc, List.cons_append, List.append_nil]
    · rw [if_neg hdigits, if_neg hdigits]
      simp only [List.append_assoc, List.cons_append]
  · intro hdigits
    apply zeroPadded_field (by omega)
    have hpow : 10 ^ fractionalDigits unit * 10 ^ (9 - fractionalDigits unit) = 1000000000 := by
      cases unit <;> decide
    rw [Nat.div_lt_iff_lt_mul (Nat.pow_pos (by omega)), hpow]
    exact hfraction

end AdbcBridge.Bind
