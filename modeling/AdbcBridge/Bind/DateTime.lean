import AdbcBridge.Adbc.DateTime

/-!
# Date and timestamp parameters

What `SlotFromArrowValue` and `ArrayParamFill` make of a date32 or a timestamp.  Both go
through `CivilFromDays`, whose month and day are right for every day; the year passes an
`int` and the 16 bits of the struct's field.
-/

namespace AdbcBridge.Bind

open AdbcBridge.Adbc AdbcBridge.Lib

/-! ## The calendar of the code -/

/-- The year, the month and the day that `CivilFromDays` computes, before the cast of the
year to `int`.  The division of C truncates. -/
def civilOfDays (z : Int) : Int × Nat × Nat :=
  let z := z + 719468
  let era := (if 0 ≤ z then z else z - 146096).tdiv 146097
  let doe := (z - era * 146097).toNat
  let yoe := (doe - doe / 1460 + doe / 36524 - doe / 146096) / 365
  let yy := (yoe : Int) + era * 400
  let doy := doe - (365 * yoe + yoe / 4 - yoe / 100)
  let mp := (5 * doy + 2) / 153
  let d := doy - (153 * mp + 2) / 5 + 1
  let m := if mp < 10 then mp + 3 else mp - 9
  (yy + if m ≤ 2 then 1 else 0, m, d)

/-- `CivilFromDays`. -/
def civilFromDays (z : Int) : Int × Nat × Nat :=
  (asInt (civilOfDays z).1, (civilOfDays z).2)

/-- `TimestampFromArrow`. -/
def timestampFromArrow (v : Int) (unit : ArrowTimeUnit) : TimestampStruct :=
  let perSec := unit.ticksPerSecond
  let fracMul := unit.nanos
  let (secs, frac) := (v.tdiv perSec, v.tmod perSec)
  let (secs, frac) := if frac < 0 then (secs - 1, frac + perSec) else (secs, frac)
  let (days, sod) := (secs.tdiv 86400, secs.tmod 86400)
  let (days, sod) := if sod < 0 then (days - 1, sod + 86400) else (days, sod)
  let (y, m, d) := civilFromDays days
  { year := asSmallInt y
    month := m
    day := d
    hour := (sod / 3600).toNat
    minute := (sod % 3600 / 60).toNat
    second := (sod % 60).toNat
    fraction := (frac * fracMul).toNat }

/-- The truncated division of a negative number, moved to the floor. -/
theorem era_eq (z : Int) :
    (if 0 ≤ z then z else z - 146096).tdiv 146097 = z / 146097 := by
  have hsign : Int.sign 146097 = 1 := by decide
  by_cases hz : 0 ≤ z
  · rw [if_pos hz, Int.tdiv_eq_ediv_of_nonneg hz]
  · rw [if_neg hz, Int.tdiv_eq_ediv, hsign]
    split
    · omega
    · omega

/-- A truncated division whose remainder is made positive is the floor division. -/
theorem floor_of_trunc (v : Int) {k : Int} (hk : 0 < k) :
    (if v.tmod k < 0 then (v.tdiv k - 1, v.tmod k + k) else (v.tdiv k, v.tmod k)) =
      (v / k, v % k) := by
  have hnonneg := Int.emod_nonneg v hk.ne'
  have hlt := Int.emod_lt_of_pos v hk
  have habs : (k.natAbs : Int) = k := Int.natAbs_of_nonneg hk.le
  rw [Int.tdiv_eq_ediv, Int.tmod_eq_emod, Int.sign_eq_one_of_pos hk]
  by_cases hexact : 0 ≤ v ∨ k ∣ v
  · simp only [if_pos hexact, Nat.cast_zero, sub_zero, add_zero]
    rw [if_neg (by omega)]
  · simp only [if_neg hexact, habs]
    rw [if_pos (by omega), add_sub_cancel_right, sub_add_cancel]

/-- The computation of `CivilFromDays`, step by step in the terms of the calendar. -/
theorem civilOfDays_eq (z : Int) {era : Int} {doe yoe doy mp m : Nat}
    (hera : era = (z + 719468) / 146097) (hdoe : doe = (z + 719468 - era * 146097).toNat)
    (hyoe : yoe = Civil.yearOfEra doe) (hdoy : doy = doe - Civil.daysBeforeYearOfEra yoe)
    (hmp : mp = (5 * doy + 2) / 153) (hm : m = if mp < 10 then mp + 3 else mp - 9) :
    civilOfDays z =
      (era * 400 + yoe + if m ≤ 2 then 1 else 0, m, doy - Civil.daysBeforeMarchMonth mp + 1) := by
  unfold civilOfDays
  dsimp only
  rw [era_eq, ← hera, ← hdoe]
  unfold Civil.yearOfEra at hyoe
  unfold Civil.daysBeforeYearOfEra at hdoy
  rw [← hyoe, ← hdoy, ← hmp, ← hm, add_comm (yoe : Int)]
  rfl

/-- `CivilFromDays` finds the day, but for the cast of the year. -/
theorem civilOfDays_spec (z : Int) :
    Civil.Legal (civilOfDays z).1 (civilOfDays z).2.1 (civilOfDays z).2.2 ∧
      Civil.dayNumber (civilOfDays z).1 (civilOfDays z).2.1 (civilOfDays z).2.2 = z := by
  obtain ⟨era, hera⟩ : ∃ era, era = (z + 719468) / 146097 := ⟨_, rfl⟩
  obtain ⟨doe, hdoe⟩ : ∃ doe, doe = (z + 719468 - era * 146097).toNat := ⟨_, rfl⟩
  obtain ⟨yoe, hyoe⟩ : ∃ yoe, yoe = Civil.yearOfEra doe := ⟨_, rfl⟩
  obtain ⟨doy, hdoy⟩ : ∃ doy, doy = doe - Civil.daysBeforeYearOfEra yoe := ⟨_, rfl⟩
  obtain ⟨mp, hmp⟩ : ∃ mp, mp = (5 * doy + 2) / 153 := ⟨_, rfl⟩
  obtain ⟨m, hm⟩ : ∃ m, m = if mp < 10 then mp + 3 else mp - 9 := ⟨_, rfl⟩
  rw [civilOfDays_eq z hera hdoe hyoe hdoy hmp hm]
  dsimp only
  have hdoelt : doe < 146097 := by omega
  obtain ⟨hyear, hfrom, hto⟩ := Civil.yearOfEra_spec hdoelt
  rw [← hyoe] at hyear hfrom hto
  rw [Civil.daysBeforeYearOfEra_succ era hyear] at hto
  have hlength : doy < if Civil.IsLeap (era * 400 + yoe + 1) then 366 else 365 := by omega
  have hlegal := Civil.legal_of_march era hlength hmp hm
  refine ⟨hlegal, ?_⟩
  have hdoy' : doy < 366 := by split at hlength <;> omega
  obtain ⟨hmp12, hmonth, -⟩ := Civil.marchMonth_spec hdoy'
  have hback : (if m ≤ 2 then m + 9 else m - 3) = mp := by
    rw [hm]
    unfold Civil.marchMonth at hmp12
    split <;> split <;> omega
  rw [Civil.dayNumber_march era hyear hlegal.1.1 hlegal.1.2, hback]
  have hmp' : Civil.daysBeforeMarchMonth mp ≤ doy := hmp ▸ hmonth
  push_cast
  omega

/-! ## The year that the structs have room for -/

/-- The day lies in a year that fits a `SQLSMALLINT`. -/
def YearFits (day : Int) : Prop :=
  Civil.dayNumber (-32768) 1 1 ≤ day ∧ day ≤ Civil.dayNumber 32767 12 31

instance (day : Int) : Decidable (YearFits day) :=
  inferInstanceAs (Decidable (_ ∧ _))

theorem yearFits_iff (day : Int) : YearFits day ↔ InSigned 16 (civilOfDays day).1 := by
  obtain ⟨hlegal, hday⟩ := civilOfDays_spec day
  have hfrom := Civil.le_year_iff hlegal (-32768)
  have hto := Civil.le_year_iff hlegal 32768
  have hend : Civil.dayNumber 32768 1 1 = Civil.dayNumber 32767 12 31 + 1 := by decide
  rw [hday] at hfrom hto
  unfold YearFits InSigned
  norm_num
  omega

/-- The year of the struct is the year of the day exactly if it fits. -/
theorem cast_year_iff (day : Int) :
    asSmallInt (civilFromDays day).1 = (civilOfDays day).1 ↔ YearFits day := by
  have hcast : asSmallInt (civilFromDays day).1 = asSmallInt (civilOfDays day).1 :=
    asSmallInt_asInt _
  rw [hcast, yearFits_iff]
  constructor
  · intro h
    rw [← h]
    exact signedCast_inSigned (by omega) _
  · exact signedCast_eq (by omega)

/-- The date with the year cast names the day exactly if the year fits. -/
theorem dayNumber_cast_iff (day : Int) :
    (Civil.Legal (asSmallInt (civilFromDays day).1) (civilFromDays day).2.1
        (civilFromDays day).2.2 ∧
      Civil.dayNumber (asSmallInt (civilFromDays day).1) (civilFromDays day).2.1
        (civilFromDays day).2.2 = day) ↔ YearFits day := by
  obtain ⟨hlegal, hday⟩ := civilOfDays_spec day
  rw [← cast_year_iff]
  constructor
  · intro h
    apply Civil.year_unique h.1 hlegal
    rw [h.2, hday]
  · intro h
    rw [h]
    exact ⟨hlegal, hday⟩

/-- The `DATE_STRUCT` of a date32: the casts of `SlotFromArrowValue` and `ArrayParamFill`. -/
def dateFromArrow (v : Int) : DateStruct :=
  let (y, m, d) := civilFromDays v
  { year := asSmallInt y, month := m, day := d }

theorem dateFromArrow_denotes_iff (v : Int) : (dateFromArrow v).Denotes v ↔ YearFits v :=
  dayNumber_cast_iff v

/-! ## Timestamps -/

/-- The day that a timestamp lies in. -/
def dayOfTimestamp (unit : ArrowTimeUnit) (v : Int) : Int := v / unit.ticksPerSecond / 86400

/-- The seconds of the day at which a timestamp lies. -/
def secondOfDay (unit : ArrowTimeUnit) (v : Int) : Int := v / unit.ticksPerSecond % 86400

/-- `TimestampFromArrow` in terms of floor division. -/
theorem timestampFromArrow_eq (v : Int) (unit : ArrowTimeUnit) :
    timestampFromArrow v unit =
      { year := asSmallInt (civilFromDays (dayOfTimestamp unit v)).1
        month := (civilFromDays (dayOfTimestamp unit v)).2.1
        day := (civilFromDays (dayOfTimestamp unit v)).2.2
        hour := (secondOfDay unit v / 3600).toNat
        minute := (secondOfDay unit v % 3600 / 60).toNat
        second := (secondOfDay unit v % 60).toNat
        fraction := (v % unit.ticksPerSecond * unit.nanos).toNat } := by
  unfold timestampFromArrow
  dsimp only
  rw [floor_of_trunc v unit.ticksPerSecond_pos]
  dsimp only
  rw [floor_of_trunc _ (by norm_num : (0 : Int) < 86400)]
  rfl

/-- A fraction of a second in nanoseconds stays below a second. -/
theorem fraction_lt (unit : ArrowTimeUnit) (v : Int) :
    0 ≤ v % unit.ticksPerSecond * unit.nanos ∧
      v % unit.ticksPerSecond * unit.nanos < 1000000000 := by
  have hpos := unit.ticksPerSecond_pos
  have hnonneg := Int.emod_nonneg v hpos.ne'
  have hlt := Int.emod_lt_of_pos v hpos
  have hnanos := unit.nanos_pos
  constructor
  · exact mul_nonneg hnonneg hnanos.le
  · calc v % unit.ticksPerSecond * unit.nanos
        < unit.ticksPerSecond * unit.nanos := mul_lt_mul_of_pos_right hlt hnanos
      _ = 1000000000 := unit.ticksPerSecond_mul_nanos

/-- A timestamp in nanoseconds: its day, its second of the day and the fraction. -/
theorem nanos_split (unit : ArrowTimeUnit) (v : Int) :
    v * unit.nanos = (dayOfTimestamp unit v * 86400 + secondOfDay unit v) * 1000000000 +
      v % unit.ticksPerSecond * unit.nanos := by
  have hsecs : dayOfTimestamp unit v * 86400 + secondOfDay unit v = v / unit.ticksPerSecond := by
    unfold dayOfTimestamp secondOfDay
    omega
  calc v * unit.nanos
      = (v / unit.ticksPerSecond * unit.ticksPerSecond + v % unit.ticksPerSecond) *
          unit.nanos := by rw [Int.ediv_mul_add_emod]
    _ = v / unit.ticksPerSecond * (unit.ticksPerSecond * unit.nanos) +
          v % unit.ticksPerSecond * unit.nanos := by ring
    _ = _ := by rw [unit.ticksPerSecond_mul_nanos, hsecs]

theorem timestampFromArrow_denotes_iff (v : Int) (unit : ArrowTimeUnit) :
    (timestampFromArrow v unit).Denotes (v * unit.nanos) ↔ YearFits (dayOfTimestamp unit v) := by
  obtain ⟨hnonneg, hlt⟩ := fraction_lt unit v
  have hsplit := nanos_split unit v
  have hsod : 0 ≤ secondOfDay unit v ∧ secondOfDay unit v < 86400 := by
    unfold secondOfDay
    omega
  rw [← dayNumber_cast_iff, timestampFromArrow_eq, hsplit]
  unfold TimestampStruct.Denotes TimestampStruct.Legal TimestampStruct.instant
  dsimp only
  constructor
  · intro h
    refine ⟨h.1.1, ?_⟩
    have heq := h.2
    omega
  · intro h
    refine ⟨⟨h.1, by omega, by omega, by omega, by omega⟩, ?_⟩
    rw [h.2]
    omega

/-- Month, day and time of day are legal whatever the year. -/
theorem timestampFromArrow_ranges (v : Int) (unit : ArrowTimeUnit) :
    let t := timestampFromArrow v unit
    (1 ≤ t.month ∧ t.month ≤ 12) ∧ (1 ≤ t.day ∧ t.day ≤ 31) ∧ t.hour < 24 ∧ t.minute < 60 ∧
      t.second < 60 ∧ t.fraction < 1000000000 := by
  obtain ⟨hmonth, hday, hday'⟩ := (civilOfDays_spec (dayOfTimestamp unit v)).1
  obtain ⟨hnonneg, hlt⟩ := fraction_lt unit v
  have hsod : 0 ≤ secondOfDay unit v ∧ secondOfDay unit v < 86400 := by
    unfold secondOfDay
    omega
  have hmax : (civilOfDays (dayOfTimestamp unit v)).2.2 ≤ 31 := by
    unfold Civil.daysInMonth at hday'
    split_ifs at hday' <;> omega
  rw [timestampFromArrow_eq]
  dsimp only
  exact ⟨hmonth, ⟨hday, hmax⟩, by omega, by omega, by omega, by omega⟩

end AdbcBridge.Bind
