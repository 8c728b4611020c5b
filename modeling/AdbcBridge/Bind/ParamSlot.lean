import AdbcBridge.Adbc.ArrowDecimal
import AdbcBridge.Bind.DateTime
import AdbcBridge.Lib.Numeral

/-!
# Dates, timestamps and decimals as parameters

The cases of `SlotFromArrowValue`, which binds one row, of `ArrayParamPlan` and
`ArrayParamFill`, which bind a column of rows, and of `ArrayIngestFillColumn`, which writes
a PostgreSQL array.  A struct has 16 bits for the year, and a decimal text 64 bytes; neither
the row path nor the array path looks whether a value fits.
-/

namespace AdbcBridge.Bind

open AdbcBridge.Adbc AdbcBridge.Lib

/-- The quirks of `OdbcReaderOptions` that these cases look at. -/
structure ParamOptions where
  nullParamAsVarchar : Bool := false
  temporalBinaryParamAsVarchar : Bool := false
  timestampAsText : Bool := false
  noTimestampParamArrays : Bool := false
  decimalParamAsVarchar : Bool := false
deriving DecidableEq, Repr

/-- The Arrow types of these cases. -/
inductive ParamType where
  | date32
  | timestamp (unit : ArrowTimeUnit)
  | decimal (precision scale : Int)
deriving DecidableEq, Repr

inductive ParamCType where
  | char
  | typeDate
  | typeTimestamp
deriving DecidableEq, Repr

inductive ParamSqlType where
  | varchar
  | typeDate
  | typeTimestamp
  | decimal
deriving DecidableEq, Repr

/-- What a parameter's buffer holds. -/
inductive ParamData where
  | date (d : DateStruct)
  | timestamp (t : TimestampStruct)
  | text (s : List Char)
deriving DecidableEq, Repr

def ParamData.text? : ParamData → Option (List Char)
  | .text s => some s
  | _ => none

/-- `struct ParamSlot`, less what only strings and dictionaries use. -/
structure ParamSlot where
  cType : ParamCType
  sqlType : ParamSqlType
  columnSize : Int
  decimalDigits : Int
  indicator : Int
  bufferLength : Int
  data : ParamData
deriving DecidableEq, Repr

/-- `SQL_NULL_DATA`. -/
def nullIndicator : Int := -1

/-! ## Texts -/

/-- `printf` of an integer with leading zeros up to a width. -/
def zeroPadded (width : Nat) (v : Int) : List Char :=
  let digits := Nat.toDigits 10 v.natAbs
  let sign := if v < 0 then ['-'] else []
  sign ++ List.replicate (width - sign.length - digits.length) '0' ++ digits

/-- `FractionalDigits`. -/
def fractionalDigits : ArrowTimeUnit → Nat
  | .second => 0
  | .milli => 3
  | .micro => 6
  | .nano => 7

/-- `TimestampTextColumnSize`, and the column size of `TimestampParamSize`. -/
def timestampColumnSize (unit : ArrowTimeUnit) : Int :=
  if fractionalDigits unit = 0 then 19 else 20 + fractionalDigits unit

/-- The text of a date. -/
def dateText (y : Int) (m d : Nat) : List Char :=
  zeroPadded 4 y ++ '-' :: zeroPadded 2 m ++ '-' :: zeroPadded 2 d

/-- `TimestampTextFromStruct`. -/
def timestampTextFromStruct (ts : TimestampStruct) (unit : ArrowTimeUnit) : List Char :=
  let digits := fractionalDigits unit
  let whole := dateText ts.year ts.month ts.day ++ ' ' :: zeroPadded 2 ts.hour ++
    ':' :: zeroPadded 2 ts.minute ++ ':' :: zeroPadded 2 ts.second
  if digits = 0 then whole
  else whole ++ '.' :: zeroPadded digits (ts.fraction / 10 ^ (9 - digits))

/-! ## One row -/

/-- `char text[64]` of a slot, and `ARRAY_BIND_DECIMAL_CHARS`. -/
def decimalChars : Nat := 64

/-- The cases of `SlotFromArrowValue` for these types; `value` is the integer of the element,
unscaled for a decimal.  A NULL goes through the cases as any value, but for its indicator. -/
def slotFromArrowValue (opts : ParamOptions) (type : ParamType) (value : Int) (isNull : Bool)
    (p : ParamSlot) : ParamSlot :=
  let p := { p with indicator := if isNull then nullIndicator else 0 }
  let withLength (p : ParamSlot) (n : Nat) : ParamSlot :=
    if p.indicator ≠ nullIndicator then { p with indicator := n } else p
  if isNull && opts.nullParamAsVarchar then
    { p with
      cType := .char, sqlType := .varchar, columnSize := 1, decimalDigits := 0,
      bufferLength := 0, data := .text [] }
  else
    match type with
    | .date32 =>
        let (y, m, d) := civilFromDays value
        if opts.temporalBinaryParamAsVarchar then
          let text := dateText y m d
          withLength
            { p with
              cType := .char, sqlType := .varchar, columnSize := 10,
              bufferLength := text.length + 1, data := .text text }
            text.length
        else
          { p with
            cType := .typeDate, sqlType := .typeDate, bufferLength := 6,
            data := .date { year := asSmallInt y, month := m, day := d } }
    | .timestamp unit =>
        if opts.temporalBinaryParamAsVarchar || opts.timestampAsText then
          let text := timestampTextFromStruct (timestampFromArrow value unit) unit
          withLength
            { p with
              cType := .char, sqlType := .varchar, columnSize := timestampColumnSize unit,
              decimalDigits := 0, bufferLength := text.length + 1, data := .text text }
            text.length
        else
          { p with
            cType := .typeTimestamp, sqlType := .typeTimestamp,
            columnSize := timestampColumnSize unit, decimalDigits := fractionalDigits unit,
            bufferLength := 16, data := .timestamp (timestampFromArrow value unit) }
    | .decimal precision scale =>
        let p :=
          if isNull then p
          else
            let buf := arrowDecimalString value scale
            let n := if buf.length < decimalChars - 1 then buf.length else decimalChars - 1
            { p with data := .text (buf.take n), indicator := n }
        let p := { p with cType := .char, bufferLength := decimalChars }
        if opts.decimalParamAsVarchar then
          { p with sqlType := .varchar, columnSize := decimalChars, decimalDigits := 0 }
        else { p with sqlType := .decimal, columnSize := precision, decimalDigits := scale }

/-! ## A column of rows -/

/-- `struct ArrayParam`, less the buffers. -/
structure ArrayParam where
  cType : ParamCType
  sqlType : ParamSqlType
  columnSize : Int := 0
  decimalDigits : Int := 0
  elemSize : Nat
  needsIndicators : Bool
deriving DecidableEq, Repr

/-- The cases of `ArrayParamPlan` for these types; none is a batch that goes row by row. -/
def arrayParamPlan (opts : ParamOptions) (type : ParamType) (hasNulls : Bool) :
    Option ArrayParam :=
  if hasNulls && opts.nullParamAsVarchar then none
  else
    match type with
    | .date32 =>
        if opts.temporalBinaryParamAsVarchar then none
        else
          some
            { cType := .typeDate, sqlType := .typeDate, elemSize := 6
              needsIndicators := hasNulls }
    | .timestamp unit =>
        if opts.temporalBinaryParamAsVarchar || opts.noTimestampParamArrays then none
        else if opts.timestampAsText then
          some
            { cType := .char, sqlType := .varchar, columnSize := timestampColumnSize unit
              elemSize := 32, needsIndicators := true }
        else
          some
            { cType := .typeTimestamp, sqlType := .typeTimestamp
              columnSize := timestampColumnSize unit, decimalDigits := fractionalDigits unit
              elemSize := 16, needsIndicators := hasNulls }
    | .decimal precision scale =>
        some <|
          if opts.decimalParamAsVarchar then
            { cType := .char, sqlType := .varchar, columnSize := decimalChars
              elemSize := decimalChars, needsIndicators := true }
          else
            { cType := .char, sqlType := .decimal, columnSize := precision
              decimalDigits := scale, elemSize := decimalChars, needsIndicators := true }

/-- The cases of `ArrayParamFill` for one element that is not NULL: what is staged, and the
indicator. -/
def arrayParamFill (p : ArrayParam) (type : ParamType) (value : Int) : ParamData × Int :=
  match type with
  | .date32 =>
      let (y, m, d) := civilFromDays value
      (.date { year := asSmallInt y, month := m, day := d }, 0)
  | .timestamp unit =>
      let ts := timestampFromArrow value unit
      if p.cType = .char then
        let text := timestampTextFromStruct ts unit
        (.text (text.take (p.elemSize - 1)), text.length)
      else (.timestamp ts, 0)
  | .decimal _ scale =>
      let buf := arrowDecimalString value scale
      let len := if buf.length < p.elemSize - 1 then buf.length else p.elemSize - 1
      (.text (buf.take len), len)

/-- The element that `ArrayIngestFillColumn` appends to its array literal for a decimal: the
whole text, into a buffer that grows. -/
def arrayIngestDecimal (unscaled scale : Int) : List Char := arrowDecimalString unscaled scale

/-! ## What the two paths bind -/

/-- The values that the row path and the array path bind for an element that is not NULL. -/
def boundData (opts : ParamOptions) (type : ParamType) (value : Int) (hasNulls : Bool)
    (p : ParamSlot) : List ParamData :=
  (slotFromArrowValue opts type value false p).data ::
    ((arrayParamPlan opts type hasNulls).map fun q => (arrayParamFill q type value).1).toList

/-- The data says the day: as a struct that denotes it, or as the text of its date. -/
def ParamData.SaysDay (day : Int) : ParamData → Prop
  | .date d => d.Denotes day
  | .timestamp _ => False
  | .text s => ∃ d : DateStruct, d.Denotes day ∧ s = dateText d.year d.month d.day

/-- The data says the instant so many nanoseconds after 1970: as a struct that denotes it, or as
the text of such a struct, with the digits that a text has for the unit. -/
def ParamData.SaysInstant (unit : ArrowTimeUnit) (nanos : Int) : ParamData → Prop
  | .date _ => False
  | .timestamp t => t.Denotes nanos
  | .text s => ∃ t : TimestampStruct, t.Denotes nanos ∧ s = timestampTextFromStruct t unit

/-- A number below the power of ten of the width fills its field. -/
theorem zeroPadded_field {width n : Nat} (hwidth : 0 < width) (hn : n < 10 ^ width) :
    FixedField width n (zeroPadded width n) := by
  have hlength : (Nat.toDigits 10 n).length ≤ width :=
    (Nat.length_toDigits_le_iff (by omega) hwidth).2 hn
  have htext : zeroPadded width n =
      List.replicate (width - (Nat.toDigits 10 n).length) '0' ++ Nat.toDigits 10 n := by
    have hsign : ¬ (n : Int) < 0 := by omega
    unfold zeroPadded
    simp [hsign]
  rw [htext]
  constructor
  · exact allDigits_append.mpr ⟨allDigits_zeros _, allDigits_toDigits n⟩
  · rw [List.length_append, List.length_replicate]
    omega
  · rw [digitsValue_append, digitsValue_zeros, digitsValue_toDigits, zero_mul, zero_add]

/-- A padded number is a sign and digits that write it. -/
theorem zeroPadded_eq (width : Nat) (v : Int) :
    ∃ ds, zeroPadded width v = (if v < 0 then ['-'] else []) ++ ds ∧ AllDigits ds ∧ ds ≠ [] ∧
      digitsValue ds = v.natAbs := by
  refine ⟨_, List.append_assoc _ _ _, ?_, ?_, ?_⟩
  · exact allDigits_append.mpr ⟨allDigits_zeros _, allDigits_toDigits _⟩
  · exact List.append_ne_nil_of_right_ne_nil _ Nat.toDigits_ne_nil
  · rw [digitsValue_append, digitsValue_zeros, digitsValue_toDigits, zero_mul, zero_add]

theorem length_zeroPadded_le {width n : Nat} {v : Int} (hn : 0 < n) (hwidth : width ≤ n + 1)
    (hv : v.natAbs < 10 ^ n) : (zeroPadded width v).length ≤ n + 1 := by
  have hdigits := (Nat.length_toDigits_le_iff (by omega) hn).2 hv
  unfold zeroPadded
  dsimp only
  rw [List.length_append, List.length_append, List.length_replicate]
  split_ifs
  · rw [List.length_singleton]
    omega
  · rw [List.length_nil]
    omega

/-- Only the year stands in front of the dash behind it. -/
theorem year_of_text {y y' : Int} {r r' : List Char}
    (h : zeroPadded 4 y ++ '-' :: r = zeroPadded 4 y' ++ '-' :: r') : y = y' := by
  obtain ⟨ds, hds, hdigits, hne, hvalue⟩ := zeroPadded_eq 4 y
  obtain ⟨ds', hds', hdigits', hne', hvalue'⟩ := zeroPadded_eq 4 y'
  have hdash : ∀ (t : List Char), ∀ c ∈ ('-' :: t).head?, c.isDigit = false := by
    intro t c hc
    rw [← Option.some.inj hc]
    rfl
  have hread := (Numeral.takeWhile_digits hdigits (hdash r)).1
  have hread' := (Numeral.takeWhile_digits hdigits' (hdash r')).1
  have hsign : ∀ t : List Char, ('-' :: t).takeWhile Char.isDigit = [] := fun _ => rfl
  rw [hds, hds', List.append_assoc, List.append_assoc] at h
  by_cases hy : y < 0
  · by_cases hy' : y' < 0
    · rw [if_pos hy, if_pos hy', List.append_cancel_left_eq] at h
      rw [h, hread'] at hread
      rw [hread, hvalue] at hvalue'
      omega
    · rw [if_pos hy, if_neg hy', List.nil_append] at h
      rw [← h] at hread'
      exact absurd hread'.symm hne'
  · by_cases hy' : y' < 0
    · rw [if_neg hy, if_pos hy', List.nil_append] at h
      rw [h] at hread
      exact absurd hread.symm hne
    · rw [if_neg hy, if_neg hy', List.nil_append, List.nil_append] at h
      rw [h, hread'] at hread
      rw [hread, hvalue] at hvalue'
      omega

/-- The text of a timestamp begins with its year. -/
theorem timestampText_year (ts : TimestampStruct) (unit : ArrowTimeUnit) :
    ∃ r, timestampTextFromStruct ts unit = zeroPadded 4 ts.year ++ '-' :: r := by
  unfold timestampTextFromStruct dateText
  dsimp only
  split_ifs
  · simp only [List.append_assoc, List.cons_append]
    exact ⟨_, rfl⟩
  · simp only [List.append_assoc, List.cons_append]
    exact ⟨_, rfl⟩

/-- The text of a year of 16 bits is shorter than what the array path has room for. -/
theorem length_timestampText_le {ts : TimestampStruct} (hyear : InSigned 16 ts.year)
    (hmonth : ts.month ≤ 12) (hday : ts.day ≤ 31)
    (hclock : ts.hour < 24 ∧ ts.minute < 60 ∧ ts.second < 60) (hfraction : ts.fraction < 10 ^ 9)
    (unit : ArrowTimeUnit) : (timestampTextFromStruct ts unit).length ≤ 31 := by
  have hfield : ∀ n : Nat, n < 100 → (zeroPadded 2 n).length ≤ 2 := by
    intro n hn
    exact (zeroPadded_field (by omega) hn).length.le
  have hyear' : (zeroPadded 4 ts.year).length ≤ 6 := by
    apply length_zeroPadded_le
    · omega
    · omega
    · unfold InSigned at hyear
      norm_num at hyear
      omega
  have hmonth' := hfield ts.month (by omega)
  have hday' := hfield ts.day (by omega)
  have hhour := hfield ts.hour (by omega)
  have hminute := hfield ts.minute (by omega)
  have hsecond := hfield ts.second (by omega)
  have hfrac : (zeroPadded (fractionalDigits unit)
      ((ts.fraction : Int) / 10 ^ (9 - fractionalDigits unit))).length ≤ 8 := by
    apply length_zeroPadded_le
    · omega
    · cases unit <;> decide
    · cases unit <;> simp only [fractionalDigits] <;> omega
  unfold timestampTextFromStruct dateText
  dsimp only
  split_ifs
  · simp only [List.length_append, List.length_cons]
    omega
  · simp only [List.length_append, List.length_cons]
    omega

/-- All that is bound for a date is one struct, or its text. -/
theorem mem_boundDates (opts : ParamOptions) (v : Int) (hasNulls : Bool) (p : ParamSlot)
    (b : ParamData) :
    b ∈ boundData opts .date32 v hasNulls p ↔
      b = if opts.temporalBinaryParamAsVarchar then
          .text (dateText (civilFromDays v).1 (civilFromDays v).2.1 (civilFromDays v).2.2)
        else .date (dateFromArrow v) := by
  have hrow : (slotFromArrowValue opts .date32 v false p).data =
      if opts.temporalBinaryParamAsVarchar then
        .text (dateText (civilFromDays v).1 (civilFromDays v).2.1 (civilFromDays v).2.2)
      else .date (dateFromArrow v) := by
    cases hquirk : opts.temporalBinaryParamAsVarchar with
    | true => simp [slotFromArrowValue, hquirk, nullIndicator]
    | false => simp [slotFromArrowValue, hquirk, dateFromArrow]
  have hfill : ∀ q ∈ arrayParamPlan opts .date32 hasNulls,
      (arrayParamFill q .date32 v).1 = (slotFromArrowValue opts .date32 v false p).data := by
    intro q hq
    cases hquirk : opts.temporalBinaryParamAsVarchar with
    | true =>
        unfold arrayParamPlan at hq
        simp [hquirk] at hq
    | false =>
        rw [hrow, hquirk]
        rfl
  unfold boundData
  rw [List.mem_cons, hrow, or_iff_left_of_imp]
  intro hb
  rw [Option.mem_toList, Option.map_eq_some_iff] at hb
  obtain ⟨q, hq, rfl⟩ := hb
  rw [hfill q hq, hrow]

/-- Timestamps go out as text. -/
def asText (opts : ParamOptions) : Bool :=
  opts.temporalBinaryParamAsVarchar || opts.timestampAsText

/-- All that is bound for a timestamp is one struct, or its text. -/
theorem mem_boundTimestamps (opts : ParamOptions) (v : Int) (unit : ArrowTimeUnit)
    (hasNulls : Bool) (p : ParamSlot) (b : ParamData) :
    b ∈ boundData opts (.timestamp unit) v hasNulls p ↔
      b = if asText opts then .text (timestampTextFromStruct (timestampFromArrow v unit) unit)
        else .timestamp (timestampFromArrow v unit) := by
  have hrow : (slotFromArrowValue opts (.timestamp unit) v false p).data =
      if asText opts then .text (timestampTextFromStruct (timestampFromArrow v unit) unit)
      else .timestamp (timestampFromArrow v unit) := by
    unfold asText
    cases hbinary : opts.temporalBinaryParamAsVarchar with
    | true => simp [slotFromArrowValue, hbinary, nullIndicator]
    | false =>
        cases htext : opts.timestampAsText with
        | true => simp [slotFromArrowValue, hbinary, htext, nullIndicator]
        | false => simp [slotFromArrowValue, hbinary, htext]
  have hshort : (timestampTextFromStruct (timestampFromArrow v unit) unit).take 31 =
      timestampTextFromStruct (timestampFromArrow v unit) unit := by
    obtain ⟨hmonth, hday, hhour, hminute, hsecond, hfraction⟩ := timestampFromArrow_ranges v unit
    apply List.take_of_length_le
    apply length_timestampText_le _ hmonth.2 hday.2 ⟨hhour, hminute, hsecond⟩ hfraction
    rw [timestampFromArrow_eq]
    exact signedCast_inSigned (by omega) _
  have hfill : ∀ q ∈ arrayParamPlan opts (.timestamp unit) hasNulls,
      (arrayParamFill q (.timestamp unit) v).1 =
        (slotFromArrowValue opts (.timestamp unit) v false p).data := by
    intro q hq
    rw [hrow]
    unfold arrayParamPlan at hq
    split at hq
    · cases hq
    · dsimp only at hq
      split at hq
      · cases hq
      · rename_i hplain
        rw [Bool.or_eq_true, not_or, Bool.not_eq_true] at hplain
        unfold asText
        rw [hplain.1, Bool.false_or]
        cases htext : opts.timestampAsText with
        | true =>
            rw [htext, if_pos rfl] at hq
            rw [← Option.some.inj hq, if_pos rfl]
            exact congrArg ParamData.text hshort
        | false =>
            rw [htext, if_neg (by simp)] at hq
            rw [← Option.some.inj hq, if_neg Bool.false_ne_true]
            rfl
  unfold boundData
  rw [List.mem_cons, hrow, or_iff_left_of_imp]
  intro hb
  rw [Option.mem_toList, Option.map_eq_some_iff] at hb
  obtain ⟨q, hq, rfl⟩ := hb
  rw [hfill q hq, hrow]

/-- The text of a date has the year as an `int`, and that is the year of every day. -/
theorem dateText_spells (day : Int32) :
    (ParamData.text (dateText (civilFromDays day.toInt).1 (civilFromDays day.toInt).2.1
      (civilFromDays day.toInt).2.2)).SaysDay day.toInt := by
  obtain ⟨hlegal, hnumber⟩ := civilOfDays_spec day.toInt
  have hyear : (civilFromDays day.toInt).1 = (civilOfDays day.toInt).1 := by
    have hfrom := Civil.le_year_iff hlegal (-10000000)
    have hto := Civil.le_year_iff hlegal 10000000
    have hfirst : Civil.dayNumber (-10000000) 1 1 < -2 ^ 31 := by decide
    have hlast : 2 ^ 31 < Civil.dayNumber 10000000 1 1 := by decide
    have hlow := day.le_toInt
    have hhigh := day.toInt_lt
    rw [hnumber] at hfrom hto
    apply signedCast_eq (by omega)
    unfold InSigned
    norm_num at hfirst hlast hlow hhigh ⊢
    omega
  refine ⟨⟨_, _, _⟩, ⟨hlegal, hnumber⟩, ?_⟩
  rw [hyear]
  rfl

/-- The text of a timestamp is that of its instant exactly if its year fits the struct that it is
made from. -/
theorem timestampText_says_iff (v : Int) (unit : ArrowTimeUnit) :
    (ParamData.text (timestampTextFromStruct (timestampFromArrow v unit) unit)).SaysInstant unit
        (v * unit.nanos) ↔
      YearFits (dayOfTimestamp unit v) := by
  constructor
  · intro h
    obtain ⟨t, ⟨hlegal, hinstant⟩, htext⟩ := h
    obtain ⟨r, hr⟩ := timestampText_year t unit
    obtain ⟨r', hr'⟩ := timestampText_year (timestampFromArrow v unit) unit
    rw [hr, hr'] at htext
    have hyear := year_of_text htext
    obtain ⟨hdate, hhour, hminute, hsecond, hfraction⟩ := hlegal
    have hsplit := nanos_split unit v
    have hrest := fraction_lt unit v
    have hsod : 0 ≤ secondOfDay unit v ∧ secondOfDay unit v < 86400 := by
      unfold secondOfDay
      omega
    obtain ⟨hlegal', hnumber⟩ := civilOfDays_spec (dayOfTimestamp unit v)
    have hday : Civil.dayNumber t.year t.month t.day = dayOfTimestamp unit v := by
      rw [hsplit] at hinstant
      unfold TimestampStruct.instant at hinstant
      omega
    rw [← cast_year_iff, ← Civil.year_unique hdate hlegal' (hday.trans hnumber.symm), ← hyear,
      timestampFromArrow_eq]
  · intro h
    exact ⟨_, (timestampFromArrow_denotes_iff v unit).mpr h, rfl⟩

/-- All that is bound for a date or for a timestamp says it, exactly if its year fits the struct
that it goes through; the text of a date goes through none. -/
theorem dateTimes_sent_iff (opts : ParamOptions) (hasNulls : Bool) (p : ParamSlot) (day : Int32)
    (v : Int64) (unit : ArrowTimeUnit) :
    ((∀ b ∈ boundData opts .date32 day.toInt hasNulls p, b.SaysDay day.toInt) ↔
      opts.temporalBinaryParamAsVarchar = true ∨ YearFits day.toInt) ∧
    ((∀ b ∈ boundData opts (.timestamp unit) v.toInt hasNulls p,
        b.SaysInstant unit (v.toInt * unit.nanos)) ↔
      YearFits (dayOfTimestamp unit v.toInt)) := by
  simp only [mem_boundDates, mem_boundTimestamps, forall_eq]
  constructor
  · by_cases hquirk : opts.temporalBinaryParamAsVarchar = true
    · rw [if_pos hquirk]
      exact iff_of_true (dateText_spells day) (Or.inl hquirk)
    · rw [if_neg hquirk, or_iff_right hquirk]
      exact dateFromArrow_denotes_iff _
  · by_cases htext : asText opts = true
    · rw [if_pos htext]
      exact timestampText_says_iff _ _
    · rw [if_neg htext]
      exact timestampFromArrow_denotes_iff _ _

def plainSlot : ParamSlot where
  cType := .char
  sqlType := .varchar
  columnSize := 0
  decimalDigits := 0
  indicator := 0
  bufferLength := 0
  data := .text []

/-- The first of January of the year 40000 is sent as one of the year -25536, and as its text
where timestamps go out as text. -/
theorem farDate_wraps :
    (dateFromArrow 13890172).year = -25536 ∧
      (¬ ∀ b ∈ boundData {} .date32 (13890172 : Int32).toInt false plainSlot,
        b.SaysDay (13890172 : Int32).toInt) ∧
      ¬ ∀ b ∈ boundData { timestampAsText := true } (.timestamp .second)
          (1200110860800 : Int64).toInt false plainSlot,
        b.SaysInstant .second ((1200110860800 : Int64).toInt * ArrowTimeUnit.second.nanos) := by
  refine ⟨by decide, fun h => ?_, fun h => ?_⟩
  · have hmem := (mem_boundDates {} (13890172 : Int32).toInt false plainSlot _).mpr rfl
    have hfits := (dateFromArrow_denotes_iff _).mp (h _ hmem)
    exact absurd hfits (by decide)
  · have hmem := (mem_boundTimestamps { timestampAsText := true } (1200110860800 : Int64).toInt
      .second false plainSlot _).mpr rfl
    rw [if_pos (by rfl)] at hmem
    have hfits := (timestampText_says_iff _ _).mp (h _ hmem)
    exact absurd hfits (by decide)

/-! ## Decimals -/

/-- The texts that the row path, the array path and a PostgreSQL array send for a decimal. -/
def decimalTexts (opts : ParamOptions) (precision scale unscaled : Int) (hasNulls : Bool)
    (p : ParamSlot) : List (List Char) :=
  (boundData opts (.decimal precision scale) unscaled hasNulls p).filterMap ParamData.text? ++
    [arrayIngestDecimal unscaled scale]

/-- The length of a decimal's text: the sign, the digits with the zeros of a negative scale,
or at least one digit, the point and the fraction. -/
def decimalLength (unscaled scale : Int) : Nat :=
  let digits := (Nat.toDigits 10 unscaled.natAbs).length
  (if unscaled < 0 then 1 else 0) +
    if scale ≤ 0 then digits + (-scale).toNat
    else max 1 (digits - scale.toNat) + 1 + scale.toNat

theorem length_arrowDecimalString (unscaled scale : Int) :
    (arrowDecimalString unscaled scale).length = decimalLength unscaled scale := by
  have hne : Nat.toDigits 10 unscaled.natAbs ≠ [] := Nat.toDigits_ne_nil
  have hfrac := (digitsValue_decimal unscaled scale).2
  have hsign : (if unscaled < 0 then ['-'] else []).length = if unscaled < 0 then 1 else 0 := by
    split <;> rfl
  rw [arrowDecimalString_eq, List.length_append, List.length_append, hsign]
  unfold decimalLength wholeDigits
  have hlength := List.length_pos_iff.mpr hne
  generalize Nat.toDigits 10 unscaled.natAbs = digits at hne hlength ⊢
  dsimp only
  by_cases hscale : scale ≤ 0
  · rw [if_pos hscale, if_pos hscale, if_pos hscale, List.length_append, List.length_replicate]
    rfl
  · rw [if_neg hscale, if_neg hscale, if_neg hscale, List.length_cons, hfrac]
    by_cases hshort : digits.length ≤ scale.toNat
    · rw [if_pos hshort, List.length_singleton]
      omega
    · rw [if_neg hshort, List.length_take]
      omega

/-- The text is a decimal number of the value, and nothing of it is cut off. -/
def SentExactly (unscaled scale : Int) (text : List Char) : Prop :=
  (∃ n : Numeral, n.Writes text ∧ n.value = (unscaled : ℚ) * 10 ^ (-scale)) ∧
    text = arrowDecimalString unscaled scale

theorem sentExactly_whole (unscaled scale : Int) :
    SentExactly unscaled scale (arrowDecimalString unscaled scale) :=
  ⟨⟨decimalNumeral unscaled scale, arrowDecimalString_writes unscaled scale,
    decimalNumeral_value unscaled scale⟩, rfl⟩

/-- The row path and the array path send the first 63 characters. -/
theorem mem_decimalTexts (opts : ParamOptions) (precision scale unscaled : Int) (hasNulls : Bool)
    (p : ParamSlot) (text : List Char) :
    text ∈ decimalTexts opts precision scale unscaled hasNulls p ↔
      text = (arrowDecimalString unscaled scale).take 63 ∨
        text = arrowDecimalString unscaled scale := by
  have hcut : ∀ buf : List Char,
      buf.take (if buf.length < decimalChars - 1 then buf.length else decimalChars - 1) =
        buf.take 63 := by
    intro buf
    split
    · rename_i hshort
      unfold decimalChars at hshort
      rw [List.take_length, List.take_of_length_le (by omega)]
    · rfl
  have hrow : (slotFromArrowValue opts (.decimal precision scale) unscaled false p).data =
      .text ((arrowDecimalString unscaled scale).take 63) := by
    rw [← hcut]
    unfold slotFromArrowValue
    dsimp only
    split
    · rename_i hnull
      simp at hnull
    · split <;> rfl
  have hfill : ∀ q ∈ arrayParamPlan opts (.decimal precision scale) hasNulls,
      (arrayParamFill q (.decimal precision scale) unscaled).1 =
        .text ((arrowDecimalString unscaled scale).take 63) := by
    intro q hq
    have helem : q.elemSize = decimalChars := by
      unfold arrayParamPlan at hq
      split at hq
      · cases hq
      · dsimp only at hq
        rw [← Option.some.inj hq]
        split <;> rfl
    rw [← hcut]
    unfold arrayParamFill
    rw [helem]
  unfold decimalTexts boundData arrayIngestDecimal
  rw [hrow]
  cases harray : arrayParamPlan opts (.decimal precision scale) hasNulls with
  | none => simp [ParamData.text?]
  | some q => simp [ParamData.text?, hfill q harray]

/-- Every text that is sent for a decimal denotes it and loses no digit, exactly if the text
has no more than 63 characters. -/
theorem decimals_sent_iff (opts : ParamOptions) (precision scale unscaled : Int)
    (hasNulls : Bool) (p : ParamSlot) :
    (∀ text ∈ decimalTexts opts precision scale unscaled hasNulls p,
        SentExactly unscaled scale text) ↔
      decimalLength unscaled scale ≤ 63 := by
  rw [← length_arrowDecimalString]
  constructor
  · intro h
    have hcut := (h _ ((mem_decimalTexts _ _ _ _ _ _ _).mpr (.inl rfl))).2
    rw [← hcut, List.length_take]
    omega
  · intro hshort text htext
    rw [mem_decimalTexts, List.take_of_length_le hshort, or_self] at htext
    rw [htext]
    exact sentExactly_whole unscaled scale

/-- A one with 63 zeros, as a decimal256: the row path sends a one with 62 zeros. -/
theorem longDecimal_cut :
    ∃ text ∈ decimalTexts {} 76 0 (10 ^ 63) false plainSlot,
      ∀ n : Numeral, n.Writes text → n.value ≠ ((10 ^ 63 : Int) : ℚ) * 10 ^ (-0 : Int) := by
  refine ⟨_, (mem_decimalTexts _ _ _ _ _ _ _).mpr (.inl rfl), fun n hn hvalue => ?_⟩
  have htext : (arrowDecimalString (10 ^ 63) 0).take 63 = arrowDecimalString (10 ^ 62) 0 := by
    decide +kernel
  have hshort := arrowDecimalString_writes (10 ^ 62) 0
  rw [htext, ← Numeral.parse_eq_some_iff] at hn
  rw [← Numeral.parse_eq_some_iff, hn, Option.some.injEq] at hshort
  rw [hshort, decimalNumeral_value] at hvalue
  norm_num at hvalue

end AdbcBridge.Bind
