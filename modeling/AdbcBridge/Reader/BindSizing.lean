import AdbcBridge.Reader.DateTime
import AdbcBridge.Reader.GetDataLong

/-!
# How wide a column is bound

`ClassifyColumn`, with the arithmetic of `SQLLEN`: a width is computed from the column size of
the driver, a `SQLULEN`, and the clamps of `ApplyBindWidth` and `UseTextBuffer` come behind it.
No octet length goes into a width.
-/

namespace AdbcBridge.Reader

/-- `enum OdbcFetchKind`. -/
inductive FetchKind where
  | bool
  | i8
  | i16
  | i32
  | i64
  | u8
  | u16
  | u32
  | u64
  | f32
  | f64
  | char
  | wchar
  | binary
  | date
  | time
  | timeMs
  | time64
  | timestamp
  | timestampTz
  | timestampText
  | decimal
  | boolStr
deriving DecidableEq, Repr

namespace Sizing

open AdbcBridge.Adbc AdbcBridge.Reader.Scratch

/-- The SQL types that `ClassifyColumn` tells apart; `interval` is any of the interval types
and `other` any code that it does not know. -/
inductive SqlType where
  | bit
  | tinyint
  | smallint
  | integer
  | bigint
  | real
  | float
  | double
  | decimal
  | numeric
  | typeDate
  | date
  | typeTime
  | time
  | ssTime2
  | typeTimeWithTimezone
  | ssTimestampOffset
  | typeTimestampWithTimezone
  | typeTimestamp
  | timestamp
  | guid
  | interval
  | binary
  | varbinary
  | longVarbinary
  | blobIbm
  | blobAltibase
  | byteAltibase
  | varbyteAltibase
  | wchar
  | wvarchar
  | wlongVarchar
  | char
  | varchar
  | longVarchar
  | other
deriving DecidableEq, Repr

/-- What differs from build to build. -/
structure Build where
  wchar : SqlWchar
  windows : Bool
deriving DecidableEq, Repr

/-- The options of `OdbcReaderOptions` that go into a column's plan; `OdbcReaderInit` has put
the defaults in place of bind sizes that are not positive. -/
structure BindOptions where
  maxBindBytes : Int := 32768
  longBindBytes : Int := 2048
  maxBindBytes_pos : 0 < maxBindBytes := by decide
  longBindBytes_pos : 0 < longBindBytes := by decide
  getdataBound : Bool := false
  getdataRepair : Bool := false
  refetchRepair : Bool := false
  fixedRowset : Bool := false
  decimalAsString : Bool := false
  decimalFixedPrecision : Int := 0
  decimalFixedScale : Int := 0
  timestampAsText : Bool := false
  timestampScaleZeroTrusted : Bool := false
  textAsBinary : Bool := false
  wcharAsUtf8 : Bool := false
  sqllen32 : Bool := false

/-- What the driver says of a column: `SQLDescribeCol`, with the column size as the bytes of a
`SQLULEN`, and what `TypeNameIsBool`, `IsUnsigned` and `IsTimestampWithTimezone` find. -/
structure Described where
  sqlType : SqlType
  columnSize : UInt64
  decimalDigits : Int := 0
  typeNameIsBool : Bool := false
  isUnsigned : Bool := false
  isTimestampWithTimezone : Bool := false

/-- An `SQLLEN`, and whether a step on the way to it left the 64 bits. -/
structure Len where
  val : Int
  wrapped : Bool
deriving DecidableEq, Repr

namespace Len

/-- The value of a step, taken round. -/
def step (wrapped : Bool) (v : Int) : Len where
  val := asInt64 v
  wrapped := wrapped || !decide (InSigned 64 v)

def const (v : Int) : Len := ⟨v, false⟩

/-- `(SQLLEN)column_size`. -/
def ofSize (n : Nat) : Len := step false n

def add (l : Len) (k : Int) : Len := step l.wrapped (l.val + k)

def mul (l : Len) (k : Int) : Len := step l.wrapped (l.val * k)

/-- Another width in its place. -/
def setVal (l : Len) (v : Int) : Len := { l with val := v }

@[simp]
theorem setVal_val (l : Len) (v : Int) : (l.setVal v).val = v := rfl

@[simp]
theorem setVal_wrapped (l : Len) (v : Int) : (l.setVal v).wrapped = l.wrapped := rfl

theorem step_val (wrapped : Bool) (v : Int) : (step wrapped v).val = asInt64 v := rfl

theorem step_wrapped_iff (wrapped : Bool) (v : Int) :
    (step wrapped v).wrapped = false ↔ wrapped = false ∧ InSigned 64 v := by
  unfold step
  rw [Bool.or_eq_false_iff, Bool.not_eq_false', decide_eq_true_eq]

end Len

/-- `struct OdbcColumn`, less the name, the buffers and the counter of truncated bytes. -/
structure Column where
  kind : FetchKind
  cType : CType
  elemSize : Len
  bound : Bool := true
  clipped : Bool := false
  unit : ArrowTimeUnit := .second
  precision : Int := 0
  scale : Int := 0
deriving DecidableEq, Repr

/-- `OdbcReadULen`. -/
def odbcReadULen (sqllen32 : Bool) (v : UInt64) : Nat :=
  if sqllen32 then v.toNat % 2 ^ 32 else v.toNat

/-- The column size that the plan goes by. -/
def sizeOf (opts : BindOptions) (d : Described) : Nat := odbcReadULen opts.sqllen32 d.columnSize

/-- `TruncationRepairable`, as `ApplyBindWidth` asks for it. -/
def repairable (opts : BindOptions) : Bool :=
  opts.getdataBound && (opts.getdataRepair || (opts.refetchRepair && !opts.fixedRowset)) &&
    decide (0 < opts.longBindBytes)

def noDeclaredLength : SqlType → Bool
  | .longVarchar | .wlongVarchar | .longVarbinary | .blobIbm | .blobAltibase => true
  | _ => false

/-- `ApplyBindWidth`. -/
def applyBindWidth (opts : BindOptions) (d : Described) (c : Column) : Column :=
  let noLength := noDeclaredLength d.sqlType
  if sizeOf opts d = 0 ∧ (!noLength || !repairable opts) then { c with bound := false }
  else if sizeOf opts d ≠ 0 ∧ (noLength && !repairable opts) then { c with bound := false }
  else
    let c := if noLength then { c with clipped := true } else c
    let c :=
      if (noLength && repairable opts) ∧ c.elemSize.val < opts.longBindBytes then
        { c with elemSize := c.elemSize.setVal opts.longBindBytes }
      else c
    if opts.maxBindBytes < c.elemSize.val then
      if repairable opts then
        { c with elemSize := c.elemSize.setVal opts.longBindBytes, clipped := true }
      else { c with bound := false }
    else c

/-- `UseTextBuffer`. -/
def useTextBuffer (opts : BindOptions) (d : Described) (minimum : Int) (c : Column) : Column :=
  let elemSize := (Len.ofSize (sizeOf opts d)).add 8
  let elemSize := if elemSize.val < minimum then elemSize.setVal minimum else elemSize
  { c with
    cType := .char
    elemSize
    bound := c.bound && !decide (opts.maxBindBytes < elemSize.val) }

/-- `ZonedTimestampUnitForColumn`. -/
def zonedTimestampUnitForColumn (decimalDigits : Int) (columnSize : Nat)
    (scaleZeroTrusted : Bool) : ArrowTimeUnit :=
  if 0 < decimalDigits then if decimalDigits ≤ 3 then .milli else .micro
  else if scaleZeroTrusted ∧ columnSize = 19 then .second
  else .micro

/-- The columns of the character types whose type name may be that of a boolean. -/
def mayBeBool : SqlType → Bool
  | .char | .varchar | .wchar | .wvarchar => true
  | _ => false

def fixedColumn (kind : FetchKind) (bytes : Int) : Column where
  kind
  cType := .fixed
  elemSize := .const bytes

def textColumn (kind : FetchKind) : Column where
  kind
  cType := .char
  elemSize := .const 0

/-- The case of `SQL_DECIMAL` and `SQL_NUMERIC`. -/
def decimalColumn (opts : BindOptions) (d : Described) : Column :=
  let precision := asInt (sizeOf opts d)
  let scale := d.decimalDigits
  let precision := if 0 < opts.decimalFixedPrecision then opts.decimalFixedPrecision else precision
  let scale := if 0 < opts.decimalFixedPrecision then opts.decimalFixedScale else scale
  let fits := !opts.decimalAsString && decide (0 < precision ∧ precision ≤ 38 ∧ 0 ≤ scale ∧
    scale ≤ precision)
  let elemSize := (Len.ofSize (sizeOf opts d)).add 4
  { kind := if fits then .decimal else .char
    cType := .char
    elemSize := if elemSize.val < 48 then elemSize.setVal 48 else elemSize
    precision
    scale }

/-- The case of the byte types. -/
def binaryColumn (opts : BindOptions) (d : Described) : Column :=
  applyBindWidth opts d
    { kind := .binary, cType := .binary, elemSize := Len.ofSize (sizeOf opts d) }

/-- A text of UTF-8, four bytes for each character. -/
def utf8Column (opts : BindOptions) (d : Described) (cType : CType) : Column :=
  applyBindWidth opts d
    { kind := .char, cType, elemSize := ((Len.ofSize (sizeOf opts d)).mul 4).add 1 }

/-- The case of the wide types. -/
def wideColumn (b : Build) (opts : BindOptions) (d : Described) : Column :=
  if opts.textAsBinary then utf8Column opts d .binary
  else if opts.wcharAsUtf8 then utf8Column opts d .char
  else
    let c := applyBindWidth opts d
      { kind := .wchar
        cType := .wchar
        elemSize := ((Len.ofSize (sizeOf opts d)).add 1).mul b.wchar.bytes }
    { c with
      elemSize := c.elemSize.setVal (c.elemSize.val - c.elemSize.val.tmod b.wchar.bytes) }

/-- The case of the narrow types, and of the types that are not known. -/
def narrowColumn (b : Build) (opts : BindOptions) (d : Described) : Column :=
  if b.windows then wideColumn b opts d else utf8Column opts d .char

/-- `ClassifyColumn`. -/
def classifyColumn (b : Build) (opts : BindOptions) (d : Described) : Column :=
  if (mayBeBool d.sqlType && d.typeNameIsBool) ∧ sizeOf opts d ≤ 8 then
    { kind := .boolStr, cType := .char, elemSize := .const 16 }
  else
    match d.sqlType with
    | .bit => fixedColumn .bool 1
    | .tinyint => fixedColumn (if d.isUnsigned then .u8 else .i8) 1
    | .smallint => fixedColumn (if d.isUnsigned then .u16 else .i16) 2
    | .integer => fixedColumn (if d.isUnsigned then .u32 else .i32) 4
    | .bigint => fixedColumn (if d.isUnsigned then .u64 else .i64) 8
    | .real => fixedColumn .f32 4
    | .float | .double => fixedColumn .f64 8
    | .decimal | .numeric => decimalColumn opts d
    | .typeDate | .date => fixedColumn .date 6
    | .typeTime | .time | .ssTime2 =>
        if 0 < d.decimalDigits ∧ d.decimalDigits ≤ 3 then
          useTextBuffer opts d 40 { textColumn .timeMs with unit := .milli }
        else if 0 < d.decimalDigits then
          useTextBuffer opts d 40
            { textColumn .time64 with unit := if 6 < d.decimalDigits then .nano else .micro }
        else fixedColumn .time 6
    | .typeTimeWithTimezone => useTextBuffer opts d 40 (textColumn .char)
    | .ssTimestampOffset | .typeTimestampWithTimezone =>
        useTextBuffer opts d 80
          { textColumn .timestampTz with
            unit := zonedTimestampUnitForColumn d.decimalDigits (sizeOf opts d)
              opts.timestampScaleZeroTrusted }
    | .typeTimestamp | .timestamp =>
        if d.isTimestampWithTimezone then
          useTextBuffer opts d 80
            { textColumn .timestampTz with
              unit := zonedTimestampUnitForColumn d.decimalDigits (sizeOf opts d)
                opts.timestampScaleZeroTrusted }
        else if opts.timestampAsText then
          useTextBuffer opts d 80 { textColumn .timestampText with unit := .micro }
        else
          { fixedColumn .timestamp 16 with
            unit := timestampUnitForColumn d.decimalDigits (sizeOf opts d)
              opts.timestampScaleZeroTrusted }
    | .guid | .interval => useTextBuffer opts d 64 (textColumn .char)
    | .binary | .varbinary | .longVarbinary | .blobIbm | .blobAltibase | .byteAltibase
    | .varbyteAltibase => binaryColumn opts d
    | .wchar | .wvarchar | .wlongVarchar => wideColumn b opts d
    | .char | .varchar | .longVarchar | .other => narrowColumn b opts d

/-- The pass of `DescribeColumns` that unbinds what follows an unbound column. -/
def unbindAfter : Bool → List Column → List Column
  | _, [] => []
  | seenUnbound, c :: rest =>
      let c := if seenUnbound then { c with bound := false } else c
      c :: unbindAfter (!c.bound) rest

/-- `DescribeColumns`. -/
def describeColumns (b : Build) (opts : BindOptions) (ds : List Described) : List Column :=
  unbindAfter false (ds.map (classifyColumn b opts))

/-! ## What a bound column owes -/

/-- The larger one of the two limits. -/
def limit (opts : BindOptions) : Int := max opts.maxBindBytes opts.longBindBytes

/-- The width of a bound column: it has room for the terminator, is made of whole characters,
comes from a computation without a wrap, and of a type of variable length it is in the limits. -/
structure Sound (b : Build) (opts : BindOptions) (c : Column) : Prop where
  positive : 0 < c.elemSize.val
  terminator : (termBytes b.wchar c.cType : Int) ≤ c.elemSize.val
  whole : c.cType = .wchar → (b.wchar.bytes : Int) ∣ c.elemSize.val - termBytes b.wchar c.cType
  exact : c.elemSize.wrapped = false
  within : c.cType ≠ .fixed → c.elemSize.val ≤ limit opts

/-- The length is that of steps which come to `v`, if there is no wrap. -/
structure Len.Computes (l : Len) (v : Int) : Prop where
  nonneg : 0 ≤ v
  val : l.val = asInt64 v
  wrapped : l.wrapped = false ↔ v < 2 ^ 63

theorem asInt64_eq {v : Int} (h : 0 ≤ v) (hv : v < 2 ^ 63) : asInt64 v = v := by
  apply signedCast_eq (by omega)
  unfold InSigned
  norm_num at hv ⊢
  omega

theorem inSigned_iff {v : Int} (h : 0 ≤ v) : InSigned 64 v ↔ v < 2 ^ 63 := by
  unfold InSigned
  norm_num
  omega

namespace Len.Computes

theorem ofSize (n : Nat) : (Len.ofSize n).Computes n where
  nonneg := Int.natCast_nonneg n
  val := by rw [Len.ofSize, step_val]
  wrapped := by
    rw [← inSigned_iff (Int.natCast_nonneg n), Len.ofSize, step_wrapped_iff]
    exact and_iff_right rfl

/-- A step that does not make the value smaller. -/
theorem step {l : Len} {v v' : Int} (h : l.Computes v) (hle : v ≤ v') {machine : Int}
    (hmachine : asInt64 machine = asInt64 v') (hexact : l.val = v → machine = v') :
    (Len.step l.wrapped machine).Computes v' where
  nonneg := h.nonneg.trans hle
  val := by rw [step_val, hmachine]
  wrapped := by
    have hv' := inSigned_iff (h.nonneg.trans hle)
    rw [step_wrapped_iff, h.wrapped]
    constructor
    · rintro ⟨hv, hin⟩
      rw [hexact (h.val.trans (asInt64_eq h.nonneg hv)), hv'] at hin
      exact hin
    · intro hlt
      have hv : v < 2 ^ 63 := by omega
      rw [hexact (h.val.trans (asInt64_eq h.nonneg hv)), hv']
      exact ⟨hv, hlt⟩

theorem add {l : Len} {v : Int} (h : l.Computes v) {k : Int} (hk : 0 ≤ k) :
    (l.add k).Computes (v + k) := by
  refine h.step (by omega) ?_ ?_
  · rw [h.val]
    exact Int.bmod_add_bmod
  · intro hval
    rw [hval]

theorem mul {l : Len} {v : Int} (h : l.Computes v) {k : Int} (hk : 1 ≤ k) :
    (l.mul k).Computes (v * k) := by
  refine h.step ?_ ?_ ?_
  · have hnonneg := h.nonneg
    nlinarith
  · rw [h.val]
    exact Int.bmod_mul_bmod
  · intro hval
    rw [hval]

end Len.Computes

theorem fixed_sound (b : Build) (opts : BindOptions) {c : Column} {bytes : Int}
    (htype : c.cType = .fixed) (hsize : c.elemSize = .const bytes) (h : 0 < bytes) :
    Sound b opts c where
  positive := by
    rw [hsize]
    exact h
  terminator := by
    rw [htype, hsize]
    exact h.le
  whole := by
    intro hwide
    rw [htype] at hwide
    cases hwide
  exact := by
    rw [hsize]
    rfl
  within := fun hne => absurd htype hne

/-! ## Text buffers -/

/-- A text buffer is bound, by a size that may have gone round, as long as its minimum is in
the limit. -/
theorem useTextBuffer_sound_iff (b : Build) (opts : BindOptions) (d : Described) {minimum : Int}
    (hmin : 8 ≤ minimum) {c : Column} (hc : c.bound = true) :
    ((useTextBuffer opts d minimum c).bound = true →
        Sound b opts (useTextBuffer opts d minimum c)) ↔
      (sizeOf opts d : Int) + 8 < 2 ^ 63 ∨ opts.maxBindBytes < minimum := by
  have hcomputes := (Len.Computes.ofSize (sizeOf opts d)).add (k := 8) (by decide)
  have hsize : sizeOf opts d < 2 ^ 64 := by
    have hlt := d.columnSize.toNat_lt
    unfold sizeOf odbcReadULen
    split
    · omega
    · omega
  have hbound : (useTextBuffer opts d minimum c).bound = true ↔
      (useTextBuffer opts d minimum c).elemSize.val ≤ opts.maxBindBytes := by
    simp [useTextBuffer, hc]
  have hwrapped : (useTextBuffer opts d minimum c).elemSize.wrapped =
      ((Len.ofSize (sizeOf opts d)).add 8).wrapped := by
    unfold useTextBuffer
    dsimp only
    split
    · rw [Len.setVal_wrapped]
    · rfl
  have hval : (useTextBuffer opts d minimum c).elemSize.val =
      max ((Len.ofSize (sizeOf opts d)).add 8).val minimum := by
    unfold useTextBuffer
    dsimp only
    split
    · rename_i hlt
      rw [max_eq_right hlt.le, Len.setVal_val]
    · rename_i hle
      rw [max_eq_left (by omega)]
  have hchar : (useTextBuffer opts d minimum c).cType = .char := rfl
  rw [hbound]
  by_cases hlt : (sizeOf opts d : Int) + 8 < 2 ^ 63
  · refine ⟨fun _ => .inl hlt, fun _ hin => ?_⟩
    constructor
    · omega
    · rw [hchar, termBytes]
      omega
    · intro hwide
      rw [hchar] at hwide
      cases hwide
    · rw [hwrapped]
      exact hcomputes.wrapped.mpr hlt
    · exact fun _ => hin.trans (le_max_left _ _)
  · have hround : ((Len.ofSize (sizeOf opts d)).add 8).val < 8 := by
      rw [hcomputes.val]
      unfold asInt64 signedCast
      rw [Int.bmod_def]
      split
      · omega
      · omega
    rw [max_eq_right (by omega)] at hval
    rw [hval]
    constructor
    · intro hsound
      by_contra hnot
      have hexact := (hsound (by omega)).exact
      rw [hwrapped, hcomputes.wrapped] at hexact
      omega
    · rintro (h | h) hin
      · omega
      · omega

/-! ## Decimals -/

/-- A decimal is always bound, whatever the limits are. -/
theorem decimalColumn_sound_iff (b : Build) (opts : BindOptions) (d : Described) :
    ((decimalColumn opts d).bound = true → Sound b opts (decimalColumn opts d)) ↔
      (sizeOf opts d : Int) + 4 < 2 ^ 63 ∧ max ((sizeOf opts d : Int) + 4) 48 ≤ limit opts := by
  have hcomputes := (Len.Computes.ofSize (sizeOf opts d)).add (k := 4) (by decide)
  have hwrapped : (decimalColumn opts d).elemSize.wrapped =
      ((Len.ofSize (sizeOf opts d)).add 4).wrapped := by
    unfold decimalColumn
    dsimp only
    split
    · rw [Len.setVal_wrapped]
    · rfl
  have hval : (decimalColumn opts d).elemSize.val =
      max ((Len.ofSize (sizeOf opts d)).add 4).val 48 := by
    unfold decimalColumn
    dsimp only
    split
    · rename_i hlt
      rw [max_eq_right hlt.le, Len.setVal_val]
    · rename_i hle
      rw [max_eq_left (by omega)]
  have hchar : (decimalColumn opts d).cType = .char := rfl
  constructor
  · intro hsound
    have hs := hsound rfl
    have hlt := hs.exact
    have hin := hs.within (by rw [hchar]; decide)
    rw [hwrapped, hcomputes.wrapped] at hlt
    rw [hval, hcomputes.val, asInt64_eq hcomputes.nonneg hlt] at hin
    exact ⟨hlt, hin⟩
  · rintro ⟨hlt, hin⟩ -
    rw [hcomputes.val, asInt64_eq hcomputes.nonneg hlt] at hval
    constructor
    · omega
    · rw [hchar, termBytes]
      omega
    · intro hwide
      rw [hchar] at hwide
      cases hwide
    · rw [hwrapped, hcomputes.wrapped]
      exact hlt
    · intro _
      rw [hval]
      exact hin

/-! ## Columns that `ApplyBindWidth` settles -/

/-- A column whose width comes to `v` is bound: a value can be read again where the type has
no length or `v`, taken round, is over the limit, and a type that has a length has one. -/
def Binds (opts : BindOptions) (d : Described) (v : Int) : Prop :=
  (noDeclaredLength d.sqlType = true → repairable opts = true) ∧
    (sizeOf opts d = 0 → noDeclaredLength d.sqlType = true) ∧
    (repairable opts = true ∨ asInt64 v ≤ opts.maxBindBytes)

/-- The width before the upper clamp. -/
def widened (opts : BindOptions) (d : Described) (v : Int) : Int :=
  if (noDeclaredLength d.sqlType && repairable opts) ∧ v < opts.longBindBytes then
    opts.longBindBytes
  else v

/-- What `ApplyBindWidth` makes of a column: whether it is bound, and at which width. -/
theorem applyBindWidth_spec (opts : BindOptions) (d : Described) {c : Column}
    (hc : c.bound = true) :
    ((applyBindWidth opts d c).bound = true ↔
        (noDeclaredLength d.sqlType = true → repairable opts = true) ∧
          (sizeOf opts d = 0 → noDeclaredLength d.sqlType = true) ∧
          (repairable opts = true ∨ c.elemSize.val ≤ opts.maxBindBytes)) ∧
      (applyBindWidth opts d c).cType = c.cType ∧
      (applyBindWidth opts d c).elemSize.wrapped = c.elemSize.wrapped ∧
      ((applyBindWidth opts d c).bound = true →
        (applyBindWidth opts d c).elemSize.val =
          if opts.maxBindBytes < widened opts d c.elemSize.val then opts.longBindBytes
          else widened opts d c.elemSize.val) := by
  unfold applyBindWidth widened
  cases hrep : repairable opts with
  | true =>
      cases hno : noDeclaredLength d.sqlType with
      | true =>
          by_cases hshort : c.elemSize.val < opts.longBindBytes
          · by_cases hlong : opts.maxBindBytes < opts.longBindBytes
            · simp [hshort, hlong, hc]
            · simp [hshort, hlong, hc]
          · by_cases hlong : opts.maxBindBytes < c.elemSize.val
            · simp [hshort, hlong, hc]
            · simp [hshort, hlong, hc]
      | false =>
          by_cases hzero : sizeOf opts d = 0
          · simp [hzero]
          · by_cases hlong : opts.maxBindBytes < c.elemSize.val
            · simp [hzero, hlong, hc]
            · simp [hzero, hlong, hc]
  | false =>
      cases hno : noDeclaredLength d.sqlType with
      | true =>
          by_cases hzero : sizeOf opts d = 0
          · simp [hzero]
          · simp [hzero]
      | false =>
          by_cases hzero : sizeOf opts d = 0
          · simp [hzero]
          · by_cases hlong : opts.maxBindBytes < c.elemSize.val
            · simp [hzero, hlong]
            · simp [hzero, hlong, hc]
              omega

theorem le_widened (opts : BindOptions) (d : Described) (v : Int) : v ≤ widened opts d v := by
  unfold widened
  split
  · rename_i h
    exact h.2.le
  · exact le_refl v

/-- The width of a bound column whose computation has no wrap. -/
theorem applyBindWidth_width {opts : BindOptions} {d : Described} {c : Column} {v : Int}
    (hc : c.bound = true) (hcomputes : c.elemSize.Computes v) (hv : v < 2 ^ 63)
    (hbinds : (applyBindWidth opts d c).bound = true) :
    (applyBindWidth opts d c).elemSize.val = opts.longBindBytes ∧ repairable opts = true ∧
        opts.maxBindBytes < widened opts d v ∨
      (applyBindWidth opts d c).elemSize.val = widened opts d v ∧
        widened opts d v ≤ opts.maxBindBytes := by
  obtain ⟨hbound, -, -, hval⟩ := applyBindWidth_spec opts d hc
  have hwidth := hval hbinds
  have hraw : c.elemSize.val = v := hcomputes.val.trans (asInt64_eq hcomputes.nonneg hv)
  rw [hraw] at hwidth hbound
  obtain ⟨hlength, -, hfits⟩ := hbound.mp hbinds
  split at hwidth
  · rename_i hlong
    refine .inl ⟨hwidth, ?_, hlong⟩
    rcases hfits with hrep | hle
    · exact hrep
    · unfold widened at hlong
      split at hlong
      · rename_i hboth
        exact (Bool.and_eq_true_iff.mp hboth.1).2
      · omega
  · exact .inr ⟨hwidth, by omega⟩

theorem width_le_limit {opts : BindOptions} {d : Described} {v e : Int}
    (h : e = opts.longBindBytes ∧ repairable opts = true ∧
        opts.maxBindBytes < widened opts d v ∨
      e = widened opts d v ∧ widened opts d v ≤ opts.maxBindBytes) : e ≤ limit opts := by
  rcases h with ⟨rfl, -, -⟩ | ⟨rfl, hle⟩
  · exact le_max_right _ _
  · exact hle.trans (le_max_left _ _)

/-- A column of bytes is sound unless its width has gone round and it is bound. -/
theorem applyBindWidth_sound_iff (b : Build) (opts : BindOptions) (d : Described) {c : Column}
    {v : Int} (hc : c.bound = true) (htype : c.cType = .binary ∨ c.cType = .char)
    (hcomputes : c.elemSize.Computes v) (hv : 0 < sizeOf opts d → 1 ≤ v) :
    ((applyBindWidth opts d c).bound = true → Sound b opts (applyBindWidth opts d c)) ↔
      (Binds opts d v → v < 2 ^ 63) := by
  obtain ⟨hbound, hctype, hwrapped, -⟩ := applyBindWidth_spec opts d hc
  rw [hcomputes.val] at hbound
  have hbinds : (applyBindWidth opts d c).bound = true ↔ Binds opts d v := hbound
  rw [← hbinds]
  constructor
  · intro hsound hb
    have hexact := (hsound hb).exact
    rwa [hwrapped, hcomputes.wrapped] at hexact
  · intro hfits hb
    have hlt := hfits hb
    have hwidth := applyBindWidth_width hc hcomputes hlt hb
    have hpos : 1 ≤ (applyBindWidth opts d c).elemSize.val := by
      have hlong := opts.longBindBytes_pos
      rcases hwidth with ⟨h, -, -⟩ | ⟨h, -⟩
      · omega
      · rw [h]
        obtain ⟨hlength, hzero, -⟩ := hbinds.mp hb
        by_cases hsize : sizeOf opts d = 0
        · have hboth : (noDeclaredLength d.sqlType && repairable opts) = true := by
            rw [hzero hsize, hlength (hzero hsize)]
            rfl
          unfold widened
          split
          · omega
          · rename_i hnot
            have hge : ¬ v < opts.longBindBytes := fun hshort => hnot ⟨hboth, hshort⟩
            omega
        · exact (hv (by omega)).trans (le_widened opts d v)
    have hterm : termBytes b.wchar (applyBindWidth opts d c).cType ≤ 1 := by
      rw [hctype]
      rcases htype with h | h
      · rw [h]
        exact Nat.zero_le 1
      · rw [h]
        exact Nat.le_refl 1
    constructor
    · omega
    · omega
    · intro hwide
      rw [hctype] at hwide
      rcases htype with h | h
      · rw [h] at hwide
        cases hwide
      · rw [h] at hwide
        cases hwide
    · rw [hwrapped, hcomputes.wrapped]
      exact hlt
    · exact fun _ => width_le_limit hwidth

/-- The case of `SQL_C_WCHAR`, whose width is rounded down behind the clamps. -/
theorem wideColumn_sound_iff (b : Build) {opts : BindOptions} (d : Described)
    (hbinary : opts.textAsBinary = false) (hutf8 : opts.wcharAsUtf8 = false) :
    ((wideColumn b opts d).bound = true → Sound b opts (wideColumn b opts d)) ↔
      (Binds opts d ((sizeOf opts d + 1) * b.wchar.bytes) →
        ((sizeOf opts d : Int) + 1) * b.wchar.bytes < 2 ^ 63 ∧
          (repairable opts = true →
            opts.maxBindBytes < ((sizeOf opts d : Int) + 1) * b.wchar.bytes →
            (b.wchar.bytes : Int) ≤ opts.longBindBytes)) := by
  have hbytes : b.wchar.bytes = 2 ∨ b.wchar.bytes = 4 := by
    cases b.wchar with
    | two => exact .inl rfl
    | four => exact .inr rfl
  obtain ⟨raw, hraw⟩ : ∃ raw : Column, raw =
      { kind := .wchar
        cType := .wchar
        elemSize := ((Len.ofSize (sizeOf opts d)).add 1).mul b.wchar.bytes } := ⟨_, rfl⟩
  have hc : raw.bound = true := by rw [hraw]
  have hctypeRaw : raw.cType = .wchar := by rw [hraw]
  have hcomputes : raw.elemSize.Computes (((sizeOf opts d : Int) + 1) * b.wchar.bytes) := by
    rw [hraw]
    exact ((Len.Computes.ofSize (sizeOf opts d)).add (by decide)).mul (by omega)
  have hcolumn : wideColumn b opts d =
      { applyBindWidth opts d raw with
        elemSize := (applyBindWidth opts d raw).elemSize.setVal
          ((applyBindWidth opts d raw).elemSize.val -
            (applyBindWidth opts d raw).elemSize.val.tmod b.wchar.bytes) } := by
    unfold wideColumn
    rw [hbinary, hutf8, if_neg (by decide), if_neg (by decide), ← hraw]
  have hle : (b.wchar.bytes : Int) ≤ ((sizeOf opts d : Int) + 1) * b.wchar.bytes := by
    nlinarith
  generalize ((sizeOf opts d : Int) + 1) * b.wchar.bytes = v at hcomputes hle
  obtain ⟨hbound, hctype, hwrapped, -⟩ := applyBindWidth_spec opts d hc
  rw [hctypeRaw] at hctype
  rw [hcomputes.val] at hbound
  have hbinds : (applyBindWidth opts d raw).bound = true ↔ Binds opts d v := hbound
  rw [hcolumn, ← hbinds]
  generalize hplanned : applyBindWidth opts d raw = planned at hbinds hctype hwrapped
  have hterm : (termBytes b.wchar CType.wchar : Int) = b.wchar.bytes := rfl
  constructor
  · intro hsound hb
    have hs := hsound hb
    have hlt : v < 2 ^ 63 := by
      rw [← hcomputes.wrapped, ← hwrapped]
      exact hs.exact
    refine ⟨hlt, fun hrep hover => ?_⟩
    have hroom := hs.terminator
    dsimp only at hroom
    rw [hctype, hterm, Len.setVal_val] at hroom
    have hwidth := applyBindWidth_width hc hcomputes hlt (hplanned ▸ hb)
    rw [hplanned] at hwidth
    have hwidened := le_widened opts d v
    have hlong := opts.longBindBytes_pos
    rcases hwidth with ⟨h, -, -⟩ | ⟨-, h⟩
    · rw [h, Int.tmod_eq_emod_of_nonneg hlong.le] at hroom
      have hmod := Int.emod_nonneg opts.longBindBytes (b := b.wchar.bytes) (by omega)
      omega
    · omega
  · intro hfits hb
    obtain ⟨hlt, hroom⟩ := hfits hb
    have hwidth := applyBindWidth_width hc hcomputes hlt (hplanned ▸ hb)
    rw [hplanned] at hwidth
    have hwidened := le_widened opts d v
    have hin := width_le_limit hwidth
    have hlarge : (b.wchar.bytes : Int) ≤ planned.elemSize.val := by
      rcases hwidth with ⟨h, hrep, hover⟩ | ⟨h, -⟩
      · rw [h]
        by_cases hmax : opts.maxBindBytes < v
        · exact hroom hrep hmax
        · unfold widened at hover
          split at hover
          · omega
          · omega
      · omega
    have hdvd : (b.wchar.bytes : Int) ∣
        planned.elemSize.val - planned.elemSize.val.tmod b.wchar.bytes := by
      rw [Int.tmod_eq_emod_of_nonneg (by omega)]
      exact Int.dvd_self_sub_emod
    have hround : (b.wchar.bytes : Int) ≤
        planned.elemSize.val - planned.elemSize.val.tmod b.wchar.bytes := by
      rw [Int.tmod_eq_emod_of_nonneg (by omega)]
      rcases hbytes with h | h
      · rw [h] at hlarge ⊢
        omega
      · rw [h] at hlarge ⊢
        omega
    have hless : planned.elemSize.val - planned.elemSize.val.tmod b.wchar.bytes ≤
        planned.elemSize.val := by
      have hmod := Int.tmod_nonneg (a := planned.elemSize.val) b.wchar.bytes (by omega)
      omega
    constructor
    · dsimp only
      rw [Len.setVal_val]
      omega
    · dsimp only
      rw [hctype, hterm, Len.setVal_val]
      exact hround
    · intro _
      dsimp only
      rw [hctype, hterm, Len.setVal_val]
      exact Int.dvd_sub hdvd (dvd_refl _)
    · dsimp only
      rw [Len.setVal_wrapped, hwrapped, hcomputes.wrapped]
      exact hlt
    · intro _
      dsimp only
      rw [Len.setVal_val]
      exact hless.trans hin

/-! ## Every column -/

/-- The ways a width comes about. -/
inductive Width where
  | fixed
  | boolText
  | decimal
  | text (minimum : Int)
  | bytes
  | utf8
  | wide
deriving DecidableEq, Repr

/-- The way of the wide types. -/
def wideWidth (opts : BindOptions) : Width :=
  if opts.textAsBinary then .utf8 else if opts.wcharAsUtf8 then .utf8 else .wide

/-- The way of a column. -/
def widthOf (b : Build) (opts : BindOptions) (d : Described) : Width :=
  if (mayBeBool d.sqlType && d.typeNameIsBool) ∧ sizeOf opts d ≤ 8 then .boolText
  else
    match d.sqlType with
    | .bit | .tinyint | .smallint | .integer | .bigint | .real | .float | .double | .typeDate
    | .date => .fixed
    | .decimal | .numeric => .decimal
    | .typeTime | .time | .ssTime2 => if 0 < d.decimalDigits then .text 40 else .fixed
    | .typeTimeWithTimezone => .text 40
    | .ssTimestampOffset | .typeTimestampWithTimezone => .text 80
    | .typeTimestamp | .timestamp =>
        if d.isTimestampWithTimezone || opts.timestampAsText then .text 80 else .fixed
    | .guid | .interval => .text 64
    | .binary | .varbinary | .longVarbinary | .blobIbm | .blobAltibase | .byteAltibase
    | .varbyteAltibase => .bytes
    | .wchar | .wvarchar | .wlongVarchar => wideWidth opts
    | .char | .varchar | .longVarchar | .other => if b.windows then wideWidth opts else .utf8

/-- What a description and the settings must keep to, by the way of the width `n`. -/
def Width.Fits (b : Build) (opts : BindOptions) (d : Described) (n : Int) : Width → Prop
  | .fixed => True
  | .boolText => 16 ≤ limit opts
  | .decimal => n + 4 < 2 ^ 63 ∧ max (n + 4) 48 ≤ limit opts
  | .text minimum => n + 8 < 2 ^ 63 ∨ opts.maxBindBytes < minimum
  | .bytes => Binds opts d n → n < 2 ^ 63
  | .utf8 => Binds opts d (n * 4 + 1) → n * 4 + 1 < 2 ^ 63
  | .wide =>
      Binds opts d ((n + 1) * b.wchar.bytes) →
        (n + 1) * b.wchar.bytes < 2 ^ 63 ∧
          (repairable opts = true → opts.maxBindBytes < (n + 1) * b.wchar.bytes →
            (b.wchar.bytes : Int) ≤ opts.longBindBytes)

/-- A column, when it is bound, is sound. -/
def SoundIfBound (b : Build) (opts : BindOptions) (c : Column) : Prop :=
  c.bound = true → Sound b opts c

theorem fixed_iff (b : Build) (opts : BindOptions) (d : Described) (n : Int) {c : Column}
    {bytes : Int} (htype : c.cType = .fixed) (hsize : c.elemSize = .const bytes)
    (h : 0 < bytes) : SoundIfBound b opts c ↔ Width.Fits b opts d n .fixed :=
  iff_of_true (fun _ => fixed_sound b opts htype hsize h) trivial

theorem textColumn_iff (b : Build) (opts : BindOptions) (d : Described) {minimum : Int}
    (hmin : 8 ≤ minimum) {c : Column} (hc : c.bound = true) :
    SoundIfBound b opts (useTextBuffer opts d minimum c) ↔
      Width.Fits b opts d (sizeOf opts d) (.text minimum) :=
  useTextBuffer_sound_iff b opts d hmin hc

theorem binaryColumn_iff (b : Build) (opts : BindOptions) (d : Described) :
    SoundIfBound b opts (binaryColumn opts d) ↔ Width.Fits b opts d (sizeOf opts d) .bytes :=
  applyBindWidth_sound_iff b opts d rfl (.inl rfl) (.ofSize _) (by omega)

theorem utf8Column_iff (b : Build) (opts : BindOptions) (d : Described) {cType : CType}
    (h : cType = .binary ∨ cType = .char) :
    SoundIfBound b opts (utf8Column opts d cType) ↔
      Width.Fits b opts d (sizeOf opts d) .utf8 :=
  applyBindWidth_sound_iff b opts d rfl h
    (((Len.Computes.ofSize _).mul (by decide)).add (by decide)) (by omega)

theorem wideColumn_iff (b : Build) (opts : BindOptions) (d : Described) :
    SoundIfBound b opts (wideColumn b opts d) ↔
      Width.Fits b opts d (sizeOf opts d) (wideWidth opts) := by
  cases hbinary : opts.textAsBinary with
  | true =>
      have hcolumn : wideColumn b opts d = utf8Column opts d .binary := by
        unfold wideColumn
        rw [hbinary, if_pos rfl]
      have hwidth : wideWidth opts = .utf8 := by
        unfold wideWidth
        rw [hbinary, if_pos rfl]
      rw [hcolumn, hwidth]
      exact utf8Column_iff b opts d (.inl rfl)
  | false =>
      cases hutf8 : opts.wcharAsUtf8 with
      | true =>
          have hcolumn : wideColumn b opts d = utf8Column opts d .char := by
            unfold wideColumn
            rw [hbinary, hutf8, if_neg (by decide), if_pos rfl]
          have hwidth : wideWidth opts = .utf8 := by
            unfold wideWidth
            rw [hbinary, hutf8, if_neg (by decide), if_pos rfl]
          rw [hcolumn, hwidth]
          exact utf8Column_iff b opts d (.inr rfl)
      | false =>
          have hwidth : wideWidth opts = .wide := by
            unfold wideWidth
            rw [hbinary, hutf8, if_neg (by decide), if_neg (by decide)]
          rw [hwidth]
          exact wideColumn_sound_iff b d hbinary hutf8

theorem boolText_iff (b : Build) (opts : BindOptions) (d : Described) (n : Int) :
    SoundIfBound b opts { kind := .boolStr, cType := .char, elemSize := .const 16 } ↔
      Width.Fits b opts d n .boolText := by
  constructor
  · intro hsound
    exact (hsound rfl).within (by decide)
  · intro hlimit _
    constructor
    · decide
    · have hterm : (1 : Int) ≤ 16 := by decide
      exact hterm
    · intro hwide
      cases hwide
    · rfl
    · exact fun _ => hlimit

/-- A column, when it is bound, is sound if and only if its description and the settings
fit. -/
theorem classifyColumn_iff (b : Build) (opts : BindOptions) (d : Described) :
    SoundIfBound b opts (classifyColumn b opts d) ↔
      (widthOf b opts d).Fits b opts d (sizeOf opts d) := by
  have hfixed := @fixed_iff b opts d (sizeOf opts d)
  have htext := @textColumn_iff b opts d
  unfold classifyColumn widthOf
  by_cases hbool : (mayBeBool d.sqlType && d.typeNameIsBool) ∧ sizeOf opts d ≤ 8
  · rw [if_pos hbool, if_pos hbool]
    exact boolText_iff b opts d _
  · rw [if_neg hbool, if_neg hbool]
    cases d.sqlType with
    | bit | tinyint | smallint | integer | bigint | real | float | double | typeDate | date =>
        exact hfixed rfl rfl (by decide)
    | decimal | numeric => exact decimalColumn_sound_iff b opts d
    | typeTime | time | ssTime2 =>
        dsimp only
        split
        · rename_i hdigits
          rw [if_pos hdigits.1]
          exact htext (by decide) rfl
        · split
          · exact htext (by decide) rfl
          · exact hfixed rfl rfl (by decide)
    | typeTimeWithTimezone | ssTimestampOffset | typeTimestampWithTimezone | guid | interval =>
        exact htext (by decide) rfl
    | typeTimestamp | timestamp =>
        dsimp only
        cases d.isTimestampWithTimezone with
        | true => exact htext (by decide) rfl
        | false =>
            cases opts.timestampAsText with
            | true => exact htext (by decide) rfl
            | false => exact hfixed rfl rfl (by decide)
    | binary | varbinary | longVarbinary | blobIbm | blobAltibase | byteAltibase
    | varbyteAltibase => exact binaryColumn_iff b opts d
    | wchar | wvarchar | wlongVarchar => exact wideColumn_iff b opts d
    | char | varchar | longVarchar | other =>
        dsimp only
        unfold narrowColumn
        cases b.windows with
        | true => exact wideColumn_iff b opts d
        | false => exact utf8Column_iff b opts d (.inr rfl)

theorem mem_unbindAfter {seenUnbound : Bool} {cols : List Column} {c : Column}
    (h : c ∈ unbindAfter seenUnbound cols) (hbound : c.bound = true) : c ∈ cols := by
  induction cols generalizing seenUnbound with
  | nil => exact h
  | cons c' rest ih =>
      rw [unbindAfter, List.mem_cons] at h
      rcases h with rfl | h
      · cases seenUnbound with
        | true => cases hbound
        | false => exact List.mem_cons_self
      · exact List.mem_cons_of_mem _ (ih h)

/-- For each column by itself, the plan is sound exactly if the description and the settings
fit; and a plan of columns that all fit binds sound ones only. -/
theorem bind_sizing_iff (b : Build) (opts : BindOptions) :
    (∀ d, SoundIfBound b opts (classifyColumn b opts d) ↔
        (widthOf b opts d).Fits b opts d (sizeOf opts d)) ∧
      ∀ ds : List Described, (∀ d ∈ ds, (widthOf b opts d).Fits b opts d (sizeOf opts d)) →
        ∀ c ∈ describeColumns b opts ds, c.bound = true → Sound b opts c := by
  refine ⟨classifyColumn_iff b opts, fun ds hds c hc hbound => ?_⟩
  obtain ⟨d, hd, rfl⟩ := List.mem_map.mp (mem_unbindAfter hc hbound)
  exact (classifyColumn_iff b opts d).mpr (hds d hd) hbound

def unixBuild : Build where
  wchar := .two
  windows := false

/-- A number and a short text. -/
def shortTable : List Described :=
  [{ sqlType := .integer, columnSize := 10 }, { sqlType := .varchar, columnSize := 50 }]

theorem bind_sizing_default :
    ∀ c ∈ describeColumns unixBuild {} shortTable, c.bound = true → Sound unixBuild {} c := by
  refine (bind_sizing_iff unixBuild {}).2 shortTable fun d hd => ?_
  rw [shortTable, List.mem_cons, List.mem_singleton] at hd
  rcases hd with rfl | rfl
  · trivial
  · intro _
    decide

/-- A driver whose truncated values can be read again where they are. -/
def narrowOptions : BindOptions where
  maxBindBytes := 1
  longBindBytes := 1
  getdataBound := true
  getdataRepair := true

/-- A `VARCHAR` of size `SQL_NO_TOTAL` is bound with a negative width, one of size 2^62 with
a width of one byte, a decimal of a hundred thousand digits with its whole width, and an
`NVARCHAR` under limits of one byte with no width at all. -/
theorem bind_sizing_unsound :
    ¬ SoundIfBound unixBuild {} (classifyColumn unixBuild {}
        { sqlType := .varchar, columnSize := 18446744073709551612 }) ∧
      ¬ SoundIfBound unixBuild {} (classifyColumn unixBuild {}
        { sqlType := .varchar, columnSize := 4611686018427387904 }) ∧
      ¬ SoundIfBound unixBuild {} (classifyColumn unixBuild {}
        { sqlType := .decimal, columnSize := 100000 }) ∧
      ¬ SoundIfBound unixBuild narrowOptions (classifyColumn unixBuild narrowOptions
        { sqlType := .wvarchar, columnSize := 10 }) := by
  refine ⟨fun h => ?_, fun h => ?_, fun h => ?_, fun h => ?_⟩
  · exact absurd (h (by decide)).positive (by decide)
  · exact absurd (h (by decide)).exact (by decide)
  · exact absurd ((h (by decide)).within (by decide)) (by decide)
  · exact absurd (h (by decide)).positive (by decide)

end Sizing

end AdbcBridge.Reader
