import AdbcBridge.Bind.DateTime

/-!
# Dates and timestamps read from a column

`DaysFromCivil` is right for every date of the calendar, and the inverse of the
`CivilFromDays` of the parameter side.  The seconds of a timestamp are multiplied by the
column's unit in `int64_t`, in `AppendValue` and in `BulkAppendColumn` alike, and nothing
looks whether the product fits.
-/

namespace AdbcBridge.Reader

open AdbcBridge.Adbc AdbcBridge.Lib

/-- A value of C's `unsigned`. -/
def asUnsigned (v : Int) : Nat := (v % 2 ^ 32).toNat

/-- `DaysFromCivil`.  Month and day are `unsigned`, and what is computed from them is. -/
def daysFromCivil (y : Int) (m d : Nat) : Int :=
  let y := if m ≤ 2 then y - 1 else y
  let era := (if 0 ≤ y then y else y - 399).tdiv 400
  let yoe := asUnsigned (y - era * 400)
  let doy := asUnsigned ((153 * (m + if 2 < m then -3 else 9) + 2) / 5 + d - 1)
  let doe := asUnsigned (yoe * 365 + yoe / 4 - yoe / 100 + doy)
  era * 146097 + doe - 719468

theorem asUnsigned_of_lt {n : Nat} (hlt : n < 2 ^ 32) : asUnsigned n = n := by
  unfold asUnsigned
  rw [Int.emod_eq_of_lt (by omega) (by exact_mod_cast hlt), Int.toNat_natCast]

theorem readEra_eq (y : Int) : (if 0 ≤ y then y else y - 399).tdiv 400 = y / 400 := by
  have hsign : Int.sign 400 = 1 := by decide
  by_cases hy : 0 ≤ y
  · rw [if_pos hy, Int.tdiv_eq_ediv_of_nonneg hy]
  · rw [if_neg hy, Int.tdiv_eq_ediv, hsign]
    split
    · omega
    · omega

/-- For the dates of the calendar it is the day number. -/
theorem daysFromCivil_eq {y : Int} {m d : Nat} (h : Civil.Legal y m d) :
    daysFromCivil y m d = Civil.dayNumber y m d := by
  obtain ⟨⟨hm, hm'⟩, hd, hd'⟩ := h
  have hday : d ≤ 31 := by
    unfold Civil.daysInMonth at hd'
    split_ifs at hd' <;> omega
  obtain ⟨y', hy'⟩ : ∃ y', y' = if m ≤ 2 then y - 1 else y := ⟨_, rfl⟩
  obtain ⟨yoe, hyoe⟩ : ∃ yoe : Nat, (yoe : Int) = y' - y' / 400 * 400 :=
    ⟨(y' - y' / 400 * 400).toNat, by omega⟩
  have hlt : yoe < 400 := by omega
  have hyear : y = y' / 400 * 400 + yoe + if m ≤ 2 then 1 else 0 := by
    split at hy' <;> omega
  rw [hyear, Civil.dayNumber_march _ hlt hm hm', ← hyear]
  obtain ⟨mp, hmp⟩ : ∃ mp, mp = if m ≤ 2 then m + 9 else m - 3 := ⟨_, rfl⟩
  have hdoy : (153 * ((m : Int) + if 2 < m then -3 else 9) + 2) / 5 + d - 1 =
      ((Civil.daysBeforeMarchMonth mp + d - 1 : Nat) : Int) := by
    unfold Civil.daysBeforeMarchMonth
    split <;> split at hmp <;> omega
  have hdoe : (yoe * 365 + yoe / 4 - yoe / 100 +
      (Civil.daysBeforeMarchMonth mp + d - 1 : Nat) : Int) =
        ((Civil.daysBeforeYearOfEra yoe +
          (Civil.daysBeforeMarchMonth mp + d - 1) : Nat) : Int) := by
    unfold Civil.daysBeforeYearOfEra
    omega
  have hmarch : Civil.daysBeforeMarchMonth mp < 400 := by
    unfold Civil.daysBeforeMarchMonth
    split at hmp <;> omega
  have hera : Civil.daysBeforeYearOfEra yoe < 146097 := by
    unfold Civil.daysBeforeYearOfEra
    omega
  unfold daysFromCivil
  dsimp only
  rw [← hy', readEra_eq, ← hyoe, asUnsigned_of_lt (by omega), hdoy, asUnsigned_of_lt (by omega),
    hdoe, asUnsigned_of_lt (by omega), ← hmp]
  omega

/-! ## Timestamps -/

/-- `TimestampUnitForColumn`. -/
def timestampUnitForColumn (decimalDigits : Int) (columnSize : Nat) (scaleZeroTrusted : Bool) :
    ArrowTimeUnit :=
  let ofDigits (digits : Int) : ArrowTimeUnit :=
    if digits ≤ 0 then .second
    else if digits ≤ 3 then .milli
    else if digits ≤ 6 then .micro
    else .nano
  if decimalDigits ≤ 0 then
    if 20 < columnSize ∧ columnSize ≤ 29 then ofDigits (columnSize - 20)
    else if scaleZeroTrusted ∧ columnSize = 19 then .second
    else .micro
  else ofDigits decimalDigits

/-- The seconds of a `TIMESTAMP_STRUCT`. -/
def timestampSecs (t : TimestampStruct) : Int :=
  daysFromCivil t.year t.month t.day * 86400 + t.hour * 3600 + t.minute * 60 + t.second

/-- The `FETCH_TIMESTAMP` case of `AppendValue`, up to `ArrowArrayAppendInt`, which takes
every 64-bit value for a timestamp column; nothing where the ticks overflow. -/
def appendTimestamp (unit : ArrowTimeUnit) (t : TimestampStruct) :
    Option (Except AdbcError Int) :=
  let secs := timestampSecs t
  let v : Option Int :=
    match unit with
    | .second => some secs
    | .milli => scaledTicks secs 1000 ((t.fraction : Int).tdiv 1000000)
    | .micro => scaledTicks secs 1000000 ((t.fraction : Int).tdiv 1000)
    | .nano => scaledTicks secs 1000000000 t.fraction
  v.map .ok

/-- The `FETCH_TIMESTAMP` loop of `BulkAppendColumn`, for one row that is not NULL. -/
def bulkTimestamp (unit : ArrowTimeUnit) (t : TimestampStruct) : Option (Except AdbcError Int) :=
  let mul : Int := match unit with
    | .second => 1
    | .milli => 1000
    | .micro => 1000000
    | .nano => 1000000000
  let div := (1000000000 : Int).tdiv mul
  (scaledTicks (timestampSecs t) mul ((t.fraction : Int).tdiv div)).map .ok

/-- Every unit is chosen for some column. -/
theorem timestampUnitForColumn_surjective (unit : ArrowTimeUnit) :
    ∃ decimalDigits columnSize scaleZeroTrusted,
      timestampUnitForColumn decimalDigits columnSize scaleZeroTrusted = unit := by
  cases unit with
  | second => exact ⟨0, 19, true, rfl⟩
  | milli => exact ⟨3, 23, false, rfl⟩
  | micro => exact ⟨6, 26, false, rfl⟩
  | nano => exact ⟨9, 29, false, rfl⟩

/-- The instant of a struct in ticks of the unit, the rest of a tick dropped. -/
def ticks (unit : ArrowTimeUnit) (t : TimestampStruct) : Int := t.instant / unit.nanos

/-- A struct whose date exists, with a time of day that may be a leap second. -/
structure Timely (t : TimestampStruct) : Prop where
  year : InSigned 16 t.year
  date : Civil.Legal t.year t.month t.day
  time : t.hour < 24 ∧ t.minute < 60 ∧ t.second < 62
  fraction : t.fraction < 1000000000

theorem ticks_eq {t : TimestampStruct} (h : Civil.Legal t.year t.month t.day)
    (unit : ArrowTimeUnit) :
    ticks unit t = timestampSecs t * unit.ticksPerSecond + t.fraction / unit.nanos := by
  have hinstant : t.instant = timestampSecs t * 1000000000 + t.fraction := by
    unfold timestampSecs TimestampStruct.instant
    rw [daysFromCivil_eq h]
  have hnanos := unit.nanos_pos
  calc ticks unit t
      = (t.fraction + timestampSecs t * unit.ticksPerSecond * unit.nanos) / unit.nanos := by
        rw [mul_assoc, unit.ticksPerSecond_mul_nanos, add_comm, ← hinstant]
        rfl
    _ = _ := by rw [Int.add_mul_ediv_right _ _ hnanos.ne', add_comm]

/-- The days of the 16-bit years are far from the ends of 64 bits. -/
theorem day_bounds {y : Int} {m d : Nat} (hyear : InSigned 16 y) (h : Civil.Legal y m d) :
    -12687794 ≤ Civil.dayNumber y m d ∧ Civil.dayNumber y m d < 11248738 := by
  have hfrom := (Civil.le_year_iff h (-32768)).mp hyear.1
  have hto := (Civil.le_year_iff h 32768).not.mp (not_le.mpr hyear.2)
  have hfirst : Civil.dayNumber (-32768) 1 1 = -12687794 := by decide
  have hlast : Civil.dayNumber 32768 1 1 = 11248738 := by decide
  omega

theorem timestampSecs_bounds {t : TimestampStruct} (h : Timely t) :
    -1200000000000 < timestampSecs t ∧ timestampSecs t < 1200000000000 := by
  have hday := day_bounds h.year h.date
  have htime := h.time
  unfold timestampSecs
  rw [daysFromCivil_eq h.date]
  omega

theorem Timely.secs {t : TimestampStruct} (h : Timely t) : InSigned 64 (timestampSecs t) := by
  have hsecs := timestampSecs_bounds h
  unfold InSigned
  norm_num
  omega

/-- The ticks of a timestamp as both paths compute them. -/
def computedTicks (unit : ArrowTimeUnit) (t : TimestampStruct) : Option Int :=
  scaledTicks (timestampSecs t) unit.ticksPerSecond (t.fraction / unit.nanos)

/-- The per-value path computes these ticks; seconds are taken as they are. -/
theorem appendTimestamp_eq (unit : ArrowTimeUnit) {t : TimestampStruct}
    (hsecs : InSigned 64 (timestampSecs t)) (hfraction : t.fraction < 1000000000) :
    appendTimestamp unit t = (computedTicks unit t).map .ok := by
  have hnonneg : (0 : Int) ≤ t.fraction := Int.natCast_nonneg _
  unfold appendTimestamp computedTicks
  dsimp only
  congr 1
  cases unit with
  | second =>
      have hwhole : (t.fraction : Int) / 1000000000 = 0 := by omega
      symm
      rw [scaledTicks_eq_some]
      change InSigned 64 (timestampSecs t * 1) ∧
        InSigned 64 (timestampSecs t * 1 + (t.fraction : Int) / 1000000000) ∧
          timestampSecs t * 1 + (t.fraction : Int) / 1000000000 = timestampSecs t
      rw [hwhole, mul_one, add_zero]
      exact ⟨hsecs, hsecs, rfl⟩
  | milli | micro => rw [Int.tdiv_eq_ediv_of_nonneg hnonneg]; rfl
  | nano =>
      change _ = scaledTicks (timestampSecs t) 1000000000 (t.fraction / 1)
      rw [Int.ediv_one]

theorem bulkTimestamp_eq (unit : ArrowTimeUnit) (t : TimestampStruct) :
    bulkTimestamp unit t = (computedTicks unit t).map .ok := by
  have hnonneg : (0 : Int) ≤ t.fraction := Int.natCast_nonneg _
  unfold bulkTimestamp computedTicks
  dsimp only
  rw [Int.tdiv_eq_ediv_of_nonneg hnonneg]
  cases unit <;> rfl

theorem computedTicks_inSigned {unit : ArrowTimeUnit} {t : TimestampStruct} {ticks : Int}
    (h : computedTicks unit t = some ticks) : InSigned 64 ticks := by
  rw [computedTicks, scaledTicks_eq_some] at h
  rw [← h.2.2]
  exact h.2.1

/-! ## Read exactly or refused -/

/-- The ticks that a value is read as are those of the instant, or the value is refused
because they do not fit. -/
def ExactOrRefused (unit : ArrowTimeUnit) (t : TimestampStruct)
    (r : Option (Except AdbcError Int)) : Prop :=
  if InSigned 64 (ticks unit t) then r = some (.ok (ticks unit t))
  else ∃ e, r = some (.error e)

/-- Ticks that are computed are right exactly if they and those of the whole second fit. -/
theorem exactOrRefused_iff (unit : ArrowTimeUnit) {t : TimestampStruct}
    (h : Civil.Legal t.year t.month t.day) :
    ExactOrRefused unit t ((computedTicks unit t).map .ok) ↔
      InSigned 64 (timestampSecs t * unit.ticksPerSecond) ∧ InSigned 64 (ticks unit t) := by
  have hcomputed : ∀ v, computedTicks unit t = some v ↔
      InSigned 64 (timestampSecs t * unit.ticksPerSecond) ∧ InSigned 64 (ticks unit t) ∧
        ticks unit t = v := by
    intro v
    rw [ticks_eq h, computedTicks]
    exact scaledTicks_eq_some
  unfold ExactOrRefused
  split_ifs with hfits
  · rw [Option.map_eq_some_iff, and_iff_left hfits]
    constructor
    · rintro ⟨v, hv, -⟩
      exact ((hcomputed v).mp hv).1
    · intro hsecs
      exact ⟨_, (hcomputed _).mpr ⟨hsecs, hfits, rfl⟩, rfl⟩
  · refine iff_of_false ?_ fun hboth => hfits hboth.2
    rintro ⟨e, he⟩
    obtain ⟨v, -, hv⟩ := Option.map_eq_some_iff.mp he
    cases hv

/-- Only nanoseconds can leave the 64 bits. -/
theorem ticks_inSigned {unit : ArrowTimeUnit} (hunit : unit ≠ .nano) {t : TimestampStruct}
    (h : Timely t) : InSigned 64 (timestampSecs t * unit.ticksPerSecond) ∧
      InSigned 64 (ticks unit t) := by
  have hsecs := timestampSecs_bounds h
  have hfraction := h.fraction
  rw [ticks_eq h.date]
  unfold InSigned
  cases unit with
  | second | milli | micro =>
      unfold ArrowTimeUnit.ticksPerSecond ArrowTimeUnit.nanos
      norm_num
      omega
  | nano => exact absurd rfl hunit

/-- The nanoseconds of the instant, and those of the whole second it lies in, are 64-bit
numbers. -/
def Counted (t : TimestampStruct) : Prop :=
  InSigned 64 (t.instant - t.fraction) ∧ InSigned 64 t.instant

instance (t : TimestampStruct) : Decidable (Counted t) := inferInstanceAs (Decidable (_ ∧ _))

/-- A timestamp a driver can return. -/
structure Readable (t : TimestampStruct) : Prop extends Timely t where
  years : 1 ≤ t.year ∧ t.year ≤ 9999

/-- Both paths read a timestamp exactly or refuse it, if and only if it is not one whose
nanoseconds leave the 64 bits. -/
theorem timestamps_read_iff (unit : ArrowTimeUnit) {t : TimestampStruct} (h : Readable t) :
    (ExactOrRefused unit t (appendTimestamp unit t) ∧
        ExactOrRefused unit t (bulkTimestamp unit t)) ↔
      (unit = .nano → Counted t) := by
  rw [appendTimestamp_eq unit h.secs h.fraction, bulkTimestamp_eq, and_self,
    exactOrRefused_iff unit h.date]
  by_cases hunit : unit = .nano
  · have hnano : ticks .nano t = t.instant := Int.ediv_one _
    have hwhole : timestampSecs t * 1000000000 = t.instant - t.fraction := by
      have hsplit := ticks_eq h.date .nano
      rw [hnano, show (ArrowTimeUnit.nano).nanos = 1 from rfl, Int.ediv_one] at hsplit
      exact eq_sub_of_add_eq hsplit.symm
    rw [hunit, hnano]
    change InSigned 64 (timestampSecs t * 1000000000) ∧ _ ↔ _
    rw [hwhole]
    exact ⟨fun hfits _ => hfits, fun hfits => hfits rfl⟩
  · exact iff_of_true (ticks_inSigned hunit h.toTimely) fun hnano => absurd hnano hunit

/-- The last second of the year 2262, behind the nanoseconds that 64 bits can count. -/
def lateTimestamp : TimestampStruct :=
  { year := 2262, month := 12, day := 31, hour := 23, minute := 59, second := 59, fraction := 0 }

theorem lateTimestamp_readable : Readable lateTimestamp where
  year := by decide
  date := by decide
  time := by decide
  fraction := by decide
  years := by decide

theorem lateTimestamp_micro :
    Readable lateTimestamp ∧
      ExactOrRefused .micro lateTimestamp (appendTimestamp .micro lateTimestamp) :=
  ⟨lateTimestamp_readable,
    ((timestamps_read_iff .micro lateTimestamp_readable).mpr (by decide)).1⟩

/-- In nanoseconds it overflows, and no error is reported. -/
theorem lateTimestamp_overflows :
    Readable lateTimestamp ∧
      ¬ ExactOrRefused .nano lateTimestamp (appendTimestamp .nano lateTimestamp) ∧
      ¬ ExactOrRefused .nano lateTimestamp (bulkTimestamp .nano lateTimestamp) := by
  have hlarge : ¬ InSigned 64 (ticks .nano lateTimestamp) := by decide
  refine ⟨lateTimestamp_readable, ?_, ?_⟩
  · rw [appendTimestamp_eq .nano lateTimestamp_readable.secs (by decide),
      exactOrRefused_iff .nano lateTimestamp_readable.date]
    exact fun hboth => hlarge hboth.2
  · rw [bulkTimestamp_eq, exactOrRefused_iff .nano lateTimestamp_readable.date]
    exact fun hboth => hlarge hboth.2

/-! ## What is written is read back -/

theorem timestampFromArrow_timely {v : Int} {unit : ArrowTimeUnit}
    (h : Bind.YearFits (Bind.dayOfTimestamp unit v)) : Timely (Bind.timestampFromArrow v unit) := by
  obtain ⟨hlegal, hhour, hminute, hsecond, hfraction⟩ :=
    ((Bind.timestampFromArrow_denotes_iff v unit).mpr h).1
  constructor
  · rw [Bind.timestampFromArrow_eq]
    exact signedCast_inSigned (by omega) _
  · exact hlegal
  · exact ⟨hhour, hminute, by omega⟩
  · exact hfraction

/-- The ticks that are computed of a struct that was written are those it was written of, unless
its whole second does not fit. -/
theorem computedTicks_written (v : Int64) (unit : ArrowTimeUnit)
    (hv : Bind.YearFits (Bind.dayOfTimestamp unit v.toInt)) :
    computedTicks unit (Bind.timestampFromArrow v.toInt unit) = some v.toInt ↔
      (unit = .nano → -9223372036000000000 ≤ v.toInt) := by
  have htimely := timestampFromArrow_timely hv
  have hticks : ticks unit (Bind.timestampFromArrow v.toInt unit) = v.toInt := by
    have hdenotes := ((Bind.timestampFromArrow_denotes_iff v.toInt unit).mpr hv).2
    unfold ticks
    rw [hdenotes, Int.mul_ediv_cancel _ unit.nanos_pos.ne']
  have hsum := ticks_eq htimely.date unit
  have hfraction := htimely.fraction
  have hlow := v.le_toInt
  have hhigh := v.toInt_lt
  rw [computedTicks, scaledTicks_eq_some, ← hsum, hticks, and_iff_left rfl]
  by_cases hunit : unit = .nano
  · subst hunit
    rw [hticks] at hsum
    unfold ArrowTimeUnit.ticksPerSecond ArrowTimeUnit.nanos at hsum
    unfold ArrowTimeUnit.ticksPerSecond InSigned
    norm_num at hsum ⊢
    omega
  · refine iff_of_true ⟨(ticks_inSigned hunit htimely).1, hlow, hhigh⟩ fun hnano => ?_
    exact absurd hnano hunit

/-- A day of the years that fit 16 bits survives being written as a date of the calendar and read
back, and so does a timestamp, unless it is one of the nanoseconds whose whole second does not
fit 64 bits. -/
theorem written_read_back_iff {day : Int} (hday : Bind.YearFits day) (v : Int64)
    (unit : ArrowTimeUnit) (hv : Bind.YearFits (Bind.dayOfTimestamp unit v.toInt)) :
    ((∃ y m d, Bind.civilFromDays day = (y, m, d) ∧ Civil.Legal y m d ∧
        daysFromCivil y m d = day) ∧
      appendTimestamp unit (Bind.timestampFromArrow v.toInt unit) = some (.ok v.toInt) ∧
      bulkTimestamp unit (Bind.timestampFromArrow v.toInt unit) = some (.ok v.toInt)) ↔
    (unit = .nano → -9223372036000000000 ≤ v.toInt) := by
  have hdays : ∃ y m d, Bind.civilFromDays day = (y, m, d) ∧ Civil.Legal y m d ∧
      daysFromCivil y m d = day := by
    obtain ⟨hlegal, hnumber⟩ := Bind.civilOfDays_spec day
    have hyear : (Bind.civilFromDays day).1 = (Bind.civilOfDays day).1 := by
      apply signedCast_eq (by omega)
      have hfits := (Bind.yearFits_iff day).mp hday
      unfold InSigned at hfits ⊢
      norm_num at hfits ⊢
      omega
    refine ⟨(Bind.civilOfDays day).1, (Bind.civilOfDays day).2.1, (Bind.civilOfDays day).2.2,
      ?_, hlegal, (daysFromCivil_eq hlegal).trans hnumber⟩
    rw [← hyear]
    rfl
  have hmap : ∀ o : Option Int,
      o.map (Except.ok (ε := AdbcError)) = some (.ok v.toInt) ↔ o = some v.toInt := by
    intro o
    cases o with
    | none => exact iff_of_false (by simp) (by simp)
    | some w => simp
  have htimely := timestampFromArrow_timely hv
  rw [and_iff_right hdays, appendTimestamp_eq unit htimely.secs htimely.fraction, bulkTimestamp_eq,
    and_self, hmap]
  exact computedTicks_written v unit hv

/-- The first day of the year 0, and half a second before 1970. -/
theorem written_read_back_early :
    Bind.YearFits (-719528) ∧
      (∃ y m d, Bind.civilFromDays (-719528) = (y, m, d) ∧ Civil.Legal y m d ∧
        daysFromCivil y m d = -719528) ∧
      appendTimestamp .milli (Bind.timestampFromArrow (-500) .milli) = some (.ok (-500)) := by
  have hday : Bind.YearFits (-719528) := by decide
  have hback := (written_read_back_iff hday (-500) .milli (by decide)).mpr (by decide)
  exact ⟨by decide, hback.1, hback.2.1⟩

/-- The least nanosecond that 64 bits count lies in a second whose nanoseconds they do not. -/
theorem leastNanosecond_overflows :
    Bind.YearFits (Bind.dayOfTimestamp .nano Int64.minValue.toInt) ∧
      appendTimestamp .nano (Bind.timestampFromArrow Int64.minValue.toInt .nano) = none ∧
      bulkTimestamp .nano (Bind.timestampFromArrow Int64.minValue.toInt .nano) = none := by
  have hyear : Bind.YearFits (Bind.dayOfTimestamp .nano Int64.minValue.toInt) := by decide
  have hnone : computedTicks .nano (Bind.timestampFromArrow Int64.minValue.toInt .nano) = none := by
    decide
  refine ⟨hyear, ?_, ?_⟩
  · have htimely := timestampFromArrow_timely hyear
    rw [appendTimestamp_eq .nano htimely.secs htimely.fraction, hnone]
    rfl
  · rw [bulkTimestamp_eq, hnone]
    rfl

end AdbcBridge.Reader
