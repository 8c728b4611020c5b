import AdbcBridge.Adbc.Interface
import AdbcBridge.Lib.Bits
import AdbcBridge.Lib.Ieee
import Mathlib.Data.BitVec

/-!
# The parameters of a QuestDB query

`QdbBindValue`: one Arrow value of a bound batch as a parameter of a QWP query.  A column is
what its view says of it; a slot has a validity bit and a value of its storage type, which is
there whether the slot is valid or not.
-/

namespace AdbcBridge.Questdb.BindValue

open AdbcBridge.Adbc AdbcBridge.Lib

/-! ## Arrow values -/

/-- The values of a storage type; of a type no parameter has, nothing is read. -/
def Plain : ArrowType → Type
  | .bool => Bool
  | .int8 | .uint8 => BitVec 8
  | .int16 | .uint16 | .halfFloat => BitVec 16
  | .int32 | .uint32 | .float | .date32 => BitVec 32
  | .int64 | .uint64 | .double | .date64 | .timestamp => BitVec 64
  | .decimal128 => BitVec 128
  | .string | .largeString | .stringView => List UInt8
  | .binary | .largeBinary | .binaryView | .fixedSizeBinary => List UInt8
  | _ => Unit

/-- A slot of an array of a storage type. -/
structure Slot (t : ArrowType) where
  valid : Bool
  held : Plain t

/-- A column: the view of its field, and the storage type of its dictionary. -/
structure Column where
  view : ArrowSchemaView
  dictionary : ArrowType

/-- A slot of a column, with the entry of the dictionary that its index is for; where there is
no dictionary, the entry is not looked at. -/
structure Cell (c : Column) extends Slot c.view.type where
  entry : Slot c.dictionary

/-- `ArrowArrayViewIsNull`. -/
def arrowArrayViewIsNull (t : ArrowType) (valid : Bool) : Bool :=
  match t with
  | .na => true
  | .denseUnion | .sparseUnion => false
  | _ => !valid

/-- `ArrowArrayViewGetIntUnsafe`. -/
def arrowArrayViewGetInt : (t : ArrowType) → Plain t → BitVec 64
  | .int64, v => v
  | .uint64, v => v
  | .date64, v => v
  | .timestamp, v => v
  | .int32, v => BitVec.signExtend 64 v
  | .date32, v => BitVec.signExtend 64 v
  | .uint32, v => BitVec.setWidth 64 v
  | .int16, v => BitVec.signExtend 64 v
  | .uint16, v => BitVec.setWidth 64 v
  | .int8, v => BitVec.signExtend 64 v
  | .uint8, v => BitVec.setWidth 64 v
  | .bool, v => BitVec.setWidth 64 (BitVec.ofBool v)
  | _, _ => BitVec.intMax 64

/-- `ArrowArrayViewGetStringUnsafe`, and `ArrowArrayViewGetBytesUnsafe`. -/
def arrowArrayViewGetBytes : (t : ArrowType) → Plain t → List UInt8
  | .string, s => s
  | .largeString, s => s
  | .stringView, s => s
  | .binary, s => s
  | .largeBinary, s => s
  | .binaryView, s => s
  | .fixedSizeBinary, s => s
  | _, _ => []

/-- `ArrowHalfFloatToFloat`. -/
def arrowHalfFloatToFloat (v : Nat) : Nat :=
  let sn := (v >>> 15) &&& 0x1
  let exp := (v >>> 10) &&& 0x1F
  let fc := v &&& 0x3FF
  let res := if exp = 0 then 0 else if exp = 0x1F then 0xFF else exp + 127 - 15
  (sn <<< 31) ||| (res <<< 23) ||| (fc <<< 13)

/-! ## Parameters -/

/-- `qwp_reader_column_kind`, with those of the calls that take no kind. -/
inductive ColumnKind where
  | boolean
  | byte
  | short
  | int
  | long
  | float
  | double
  | varchar
  | binary
  | uuid
  | timestamp
  | timestampNanos
  | date
  | decimal128
deriving DecidableEq, Repr

/-- A `qwp_reader_query_bind_` call. -/
inductive Param where
  | null (kind : ColumnKind)
  | nullDecimal128 (scale : BitVec 8)
  | bool (b : Bool)
  | i8 (v : BitVec 8)
  | i16 (v : BitVec 16)
  | i32 (v : BitVec 32)
  | i64 (v : BitVec 64)
  | f32 (bits : BitVec 32)
  | f64 (bits : BitVec 64)
  | varchar (bytes : List UInt8)
  | binary (bytes : List UInt8)
  | uuid (bytes : List UInt8)
  | timestampMicros (v : BitVec 64)
  | timestampNanos (v : BitVec 64)
  | dateMillis (v : BitVec 64)
  | decimal128 (lo hi : BitVec 64) (scale : BitVec 8)
deriving DecidableEq

def Param.kind : Param → ColumnKind
  | .null kind => kind
  | .nullDecimal128 _ => .decimal128
  | .bool _ => .boolean
  | .i8 _ => .byte
  | .i16 _ => .short
  | .i32 _ => .int
  | .i64 _ => .long
  | .f32 _ => .float
  | .f64 _ => .double
  | .varchar _ => .varchar
  | .binary _ => .binary
  | .uuid _ => .uuid
  | .timestampMicros _ => .timestamp
  | .timestampNanos _ => .timestampNanos
  | .dateMillis _ => .date
  | .decimal128 _ _ _ => .decimal128

/-! ## Binding -/

/-- The parameter of a NULL. -/
def bindNull (sv : ArrowSchemaView) : Param :=
  match sv.type with
  | .bool => .null .boolean
  | .int8 | .uint8 => .null .byte
  | .int16 | .uint16 => .null .short
  | .int32 | .uint32 => .null .int
  | .int64 | .uint64 => .null .long
  | .float => .null .float
  | .double => .null .double
  | .timestamp => .null (if sv.timeUnit = .nano then .timestampNanos else .timestamp)
  | .date32 | .date64 => .null .date
  | .binary | .largeBinary => .null .binary
  | .fixedSizeBinary => if sv.fixedSize = 16 then .null .uuid else .null .binary
  | .decimal128 => .nullDecimal128 (BitVec.ofInt 8 sv.decimalScale)
  | _ => .null .varchar

/-- The message of an unsigned value above `INT64_MAX`. -/
def longRange (index row : Int) (v : BitVec 64) : AdbcError :=
  ⟨.invalidArgument, ("Parameter " ++ toString (index + 1) ++ " row " ++ toString row ++ ": " ++
    toString v.toNat ++ " does not fit a QuestDB LONG").toList⟩

/-- The message of a type no parameter has. -/
def notBound (index : Int) (t : ArrowType) : AdbcError :=
  ⟨.notImplemented, ("Parameter " ++ toString (index + 1) ++ ": Arrow type ").toList ++ t.text ++
    " cannot be bound over QWP".toList⟩

/-- A text parameter, unless `line_sender_utf8_init` refuses it. -/
def bindVarchar (utf8 : List UInt8 → Option AdbcError) (s : List UInt8) : Except AdbcError Param :=
  match utf8 s with
  | some e => .error e
  | none => .ok (.varchar s)

/-- The parameter of a value that is not NULL. -/
def bindHeld (utf8 : List UInt8 → Option AdbcError) (sv : ArrowSchemaView) {entries : ArrowType}
    (entry : Slot entries) (row index : Int) : (t : ArrowType) → Plain t → Except AdbcError Param
  | .bool, b => .ok (.bool (arrowArrayViewGetInt .bool b != 0))
  | .int8, v => .ok (.i8 ((arrowArrayViewGetInt .int8 v).setWidth 8))
  | .int16, v => .ok (.i16 ((arrowArrayViewGetInt .int16 v).setWidth 16))
  | .uint8, v => .ok (.i16 ((arrowArrayViewGetInt .uint8 v).setWidth 16))
  | .int32, v => .ok (.i32 ((arrowArrayViewGetInt .int32 v).setWidth 32))
  | .uint16, v => .ok (.i32 ((arrowArrayViewGetInt .uint16 v).setWidth 32))
  | .int64, v => .ok (.i64 (arrowArrayViewGetInt .int64 v))
  | .uint32, v => .ok (.i64 (arrowArrayViewGetInt .uint32 v))
  | .uint64, v =>
      let v : BitVec 64 := v
      if (BitVec.intMax 64).toNat < v.toNat then .error (longRange index row v) else .ok (.i64 v)
  | .halfFloat, v =>
      let v : BitVec 16 := v
      let single := arrowHalfFloatToFloat v.toNat
      .ok (.f32 (BitVec.ofNat 32 (Binary32.narrow (Binary32.widen single))))
  | .float, v =>
      let v : BitVec 32 := v
      .ok (.f32 (BitVec.ofNat 32 (Binary32.narrow (Binary32.widen v.toNat))))
  | .double, v => .ok (.f64 v)
  | .string, s => bindVarchar utf8 (arrowArrayViewGetBytes .string s)
  | .largeString, s => bindVarchar utf8 (arrowArrayViewGetBytes .largeString s)
  | .stringView, s => bindVarchar utf8 (arrowArrayViewGetBytes .stringView s)
  | .binary, s => .ok (.binary (arrowArrayViewGetBytes .binary s))
  | .largeBinary, s => .ok (.binary (arrowArrayViewGetBytes .largeBinary s))
  | .binaryView, s => .ok (.binary (arrowArrayViewGetBytes .binaryView s))
  | .fixedSizeBinary, s =>
      if sv.fixedSize = 16 then .ok (.uuid (arrowArrayViewGetBytes .fixedSizeBinary s))
      else .ok (.binary (arrowArrayViewGetBytes .fixedSizeBinary s))
  | .timestamp, v =>
      let v := arrowArrayViewGetInt .timestamp v
      match sv.timeUnit with
      | .second => .ok (.timestampMicros (v * 1000000))
      | .milli => .ok (.timestampMicros (v * 1000))
      | .micro => .ok (.timestampMicros v)
      | .nano => .ok (.timestampNanos v)
  | .date32, v => .ok (.dateMillis (arrowArrayViewGetInt .date32 v * 86400000))
  | .date64, v => .ok (.dateMillis (arrowArrayViewGetInt .date64 v))
  | .decimal128, v =>
      let v : BitVec 128 := v
      .ok (.decimal128 (v.setWidth 64) ((v >>> 64).setWidth 64) (BitVec.ofInt 8 sv.decimalScale))
  | .dictionary, _ => bindVarchar utf8 (arrowArrayViewGetBytes entries entry.held)
  | t, _ => .error (notBound index t)

/-- `QdbBindValue`. -/
def qdbBindValue (utf8 : List UInt8 → Option AdbcError) (c : Column) (cell : Cell c)
    (row index : Int) : Except AdbcError Param :=
  if arrowArrayViewIsNull c.view.type cell.valid then .ok (bindNull c.view)
  else bindHeld utf8 c.view cell.entry row index c.view.type cell.held

/-! ## What values and parameters denote -/

/-- What a value stands for: an instant in nanoseconds, a date in milliseconds, a decimal as its
unscaled value and its scale; `other` is what no parameter stands for. -/
inductive Meaning where
  | null
  | bool (b : Bool)
  | integer (v : Int)
  | real (v : Ieee.Value)
  | text (bytes : List UInt8)
  | binary (bytes : List UInt8)
  | instant (nanos : Int)
  | date (millis : Int)
  | decimal (unscaled scale : Int)
  | other
deriving DecidableEq

/-- The nanoseconds of a unit. -/
def unitNanos : ArrowTimeUnit → Int
  | .second => 1000000000
  | .milli => 1000000
  | .micro => 1000
  | .nano => 1

/-- What an Arrow value denotes. -/
def plainMeaning (sv : ArrowSchemaView) : (t : ArrowType) → Plain t → Meaning
  | .bool, b => .bool b
  | .int8, v => .integer (BitVec.toInt v)
  | .int16, v => .integer (BitVec.toInt v)
  | .int32, v => .integer (BitVec.toInt v)
  | .int64, v => .integer (BitVec.toInt v)
  | .uint8, v => .integer (BitVec.toNat v)
  | .uint16, v => .integer (BitVec.toNat v)
  | .uint32, v => .integer (BitVec.toNat v)
  | .uint64, v => .integer (BitVec.toNat v)
  | .halfFloat, v => .real (Ieee.value 5 10 (BitVec.toNat v))
  | .float, v => .real (Ieee.value 8 23 (BitVec.toNat v))
  | .double, v => .real (Ieee.value 11 52 (BitVec.toNat v))
  | .string, s => .text s
  | .largeString, s => .text s
  | .stringView, s => .text s
  | .binary, s => .binary s
  | .largeBinary, s => .binary s
  | .binaryView, s => .binary s
  | .fixedSizeBinary, s => .binary s
  | .timestamp, v => .instant (BitVec.toInt v * unitNanos sv.timeUnit)
  | .date32, v => .date (BitVec.toInt v * 86400000)
  | .date64, v => .date (BitVec.toInt v)
  | .decimal128, v => .decimal (BitVec.toInt v) sv.decimalScale
  | _, _ => .other

/-- What a slot of a dictionary denotes. -/
def slotMeaning (sv : ArrowSchemaView) (t : ArrowType) (slot : Slot t) : Meaning :=
  if arrowArrayViewIsNull t slot.valid then .null else plainMeaning sv t slot.held

/-- What a slot of a column denotes. -/
def Cell.meaning {c : Column} (cell : Cell c) : Meaning :=
  if arrowArrayViewIsNull c.view.type cell.valid then .null
  else if c.view.type = .dictionary then
    slotMeaning { type := c.dictionary } c.dictionary cell.entry
  else plainMeaning c.view c.view.type cell.held

/-- What a parameter denotes. -/
def Param.meaning : Param → Meaning
  | .null _ => .null
  | .nullDecimal128 _ => .null
  | .bool b => .bool b
  | .i8 v => .integer v.toInt
  | .i16 v => .integer v.toInt
  | .i32 v => .integer v.toInt
  | .i64 v => .integer v.toInt
  | .f32 bits => .real (Ieee.value 8 23 bits.toNat)
  | .f64 bits => .real (Ieee.value 11 52 bits.toNat)
  | .varchar bytes => .text bytes
  | .binary bytes => .binary bytes
  | .uuid bytes => .binary bytes
  | .timestampMicros v => .instant (v.toInt * 1000)
  | .timestampNanos v => .instant v.toInt
  | .dateMillis v => .date v.toInt
  | .decimal128 lo hi scale => .decimal (hi ++ lo).toInt scale.toInt

/-- In 64 bits, with a sign. -/
def InLong (v : Int) : Prop := -2 ^ 63 ≤ v ∧ v < 2 ^ 63

/-- What a timestamp or a date is multiplied by. -/
def scaling (sv : ArrowSchemaView) : Int :=
  match sv.type, sv.timeUnit with
  | .timestamp, .second => 1000000
  | .timestamp, .milli => 1000
  | .date32, _ => 86400000
  | _, _ => 1

/-- The parameters of a column are exact: each denotes its value or NULL, they have one kind,
and no scaling wraps. -/
structure BindsExactly (utf8 : List UInt8 → Option AdbcError) (c : Column)
    (cells : List (Cell c)) : Prop where
  exact : ∀ x ∈ cells, ∀ row index p, qdbBindValue utf8 c x row index = .ok p →
    p.meaning = x.meaning
  kind : ∀ x ∈ cells, ∀ y ∈ cells, ∀ row row' index p q,
    qdbBindValue utf8 c x row index = .ok p → qdbBindValue utf8 c y row' index = .ok q →
      p.kind = q.kind
  scaled : ∀ x ∈ cells, arrowArrayViewIsNull c.view.type x.valid = false →
    c.view.type = .timestamp ∨ c.view.type = .date32 →
      InLong ((arrowArrayViewGetInt c.view.type x.held).toInt * scaling c.view)

/-- The types with one kind for NULL and another one for a value. -/
def twoKinds : ArrowType → Bool
  | .uint8 | .uint16 | .uint32 | .halfFloat | .binaryView => true
  | _ => false

/-- A type of text. -/
def isText : ArrowType → Bool
  | .string | .largeString | .stringView => true
  | _ => false

/-- A value that is bound as what it denotes, or refused. -/
def Fits (utf8 : List UInt8 → Option AdbcError) (sv : ArrowSchemaView) {entries : ArrowType}
    (entry : Slot entries) : (t : ArrowType) → Plain t → Prop
  | .timestamp, v =>
      match sv.timeUnit with
      | .second => InLong (BitVec.toInt v * 1000000)
      | .milli => InLong (BitVec.toInt v * 1000)
      | _ => True
  | .halfFloat, v => BitVec.toNat v / 2 ^ 10 % 2 ^ 5 = 0 → BitVec.toNat v % 2 ^ 10 = 0
  | .decimal128, _ => -128 ≤ sv.decimalScale ∧ sv.decimalScale < 128
  | .dictionary, _ =>
      (utf8 (arrowArrayViewGetBytes entries entry.held)).isSome ∨
        (isText entries ∧ entry.valid)
  | _, _ => True

/-- The column does not mix NULLs and values of two kinds, and its values fit: a timestamp in
seconds or milliseconds does in microseconds, a half float is not subnormal, the scale of a
decimal is in 8 bits, and an entry of a dictionary is a text, not NULL, or refused. -/
structure Bindable (utf8 : List UInt8 → Option AdbcError) (c : Column)
    (cells : List (Cell c)) : Prop where
  kinds : twoKinds c.view.type → ∀ x ∈ cells, ∀ y ∈ cells,
    arrowArrayViewIsNull c.view.type x.valid = arrowArrayViewIsNull c.view.type y.valid
  fits : ∀ x ∈ cells, arrowArrayViewIsNull c.view.type x.valid = false →
    Fits utf8 c.view x.entry c.view.type x.held

/-! ## Casts -/

theorem setWidth_signExtend {w k : Nat} (h : w ≤ k) (v : BitVec w) :
    (v.signExtend k).setWidth w = v := by
  ext i hi
  rw [BitVec.getElem_setWidth, BitVec.getLsbD_signExtend]
  simp [hi]
  omega

/-- An unsigned value in a wider parameter is not negative. -/
theorem toInt_setWidth_unsigned {w k : Nat} (hw : w < k) (hk : k ≤ 64) (v : BitVec w) :
    ((v.setWidth 64).setWidth k).toInt = v.toNat := by
  have hv := v.isLt
  have hpow : 2 ^ w * 2 ≤ 2 ^ k := by
    rw [← Nat.pow_succ]
    exact Nat.pow_le_pow_right (by omega) hw
  have hnat : ((v.setWidth 64).setWidth k).toNat = v.toNat := by
    rw [BitVec.toNat_setWidth, BitVec.toNat_setWidth_of_le (by omega)]
    exact Nat.mod_eq_of_lt (by omega)
  rw [BitVec.toInt_eq_toNat_of_lt (by omega), hnat]

theorem append_words (v : BitVec 128) :
    ((v >>> 64).setWidth 64 ++ v.setWidth 64 : BitVec 128) = v := by
  have hlow : v.toNat % 2 ^ 64 < 2 ^ 64 := Nat.mod_lt _ (by decide)
  apply BitVec.eq_of_toNat_eq
  rw [BitVec.toNat_append, BitVec.toNat_setWidth, BitVec.toNat_setWidth, BitVec.toNat_ushiftRight,
    ← Nat.shiftLeft_add_eq_or_of_lt hlow, Nat.shiftLeft_eq, Nat.shiftRight_eq_div_pow]
  omega

/-- A product in 64 bits is the product just where it fits. -/
theorem toInt_mul_iff (v : BitVec 64) (c : Int) (k : BitVec 64) (hk : k.toInt = c) :
    (v * k).toInt = v.toInt * c ↔ InLong (v.toInt * c) := by
  rw [BitVec.toInt_mul, hk]
  unfold InLong
  rw [Int.bmod_def]
  omega

theorem toInt_ofInt_iff (scale : Int) :
    (BitVec.ofInt 8 scale).toInt = scale ↔ -128 ≤ scale ∧ scale < 128 := by
  rw [BitVec.toInt_ofInt, Int.bmod_def]
  omega

/-! ## Half floats -/

/-- The exponent of a half float as that of a single. -/
def singleExponent (e : Nat) : Nat := if e = 0 then 0 else if e = 31 then 255 else e + 112

theorem packed_lt {res fc : Nat} (hres : res < 2 ^ 8) (hfc : fc < 2 ^ 10) :
    res * 2 ^ 23 + fc * 2 ^ 13 < 2 ^ 31 := by omega

theorem arrowHalfFloatToFloat_eq {v : Nat} (hv : v < 2 ^ 16) :
    arrowHalfFloatToFloat v =
      v / 2 ^ 15 * 2 ^ 31 +
        (singleExponent (v / 2 ^ 10 % 2 ^ 5) * 2 ^ 23 + v % 2 ^ 10 * 2 ^ 13) := by
  have hsign : (v >>> 15) &&& 0x1 = v / 2 ^ 15 := by
    rw [Nat.and_two_pow_sub_one_eq_mod _ 1, Nat.shiftRight_eq_div_pow]
    omega
  have hexponent : (v >>> 10) &&& 0x1F = v / 2 ^ 10 % 2 ^ 5 := by
    rw [Nat.and_two_pow_sub_one_eq_mod _ 5, Nat.shiftRight_eq_div_pow]
  have hfraction : v &&& 0x3FF = v % 2 ^ 10 := Nat.and_two_pow_sub_one_eq_mod _ 10
  have hres : (if v / 2 ^ 10 % 2 ^ 5 = 0 then 0 else if v / 2 ^ 10 % 2 ^ 5 = 0x1F then 0xFF
      else v / 2 ^ 10 % 2 ^ 5 + 127 - 15) = singleExponent (v / 2 ^ 10 % 2 ^ 5) := by
    unfold singleExponent
    rfl
  have hsmall : singleExponent (v / 2 ^ 10 % 2 ^ 5) < 2 ^ 8 := by
    unfold singleExponent
    split_ifs <;> omega
  unfold arrowHalfFloatToFloat
  dsimp only
  rw [hsign, hexponent, hfraction, hres]
  generalize singleExponent (v / 2 ^ 10 % 2 ^ 5) = res at hsmall
  have hfc : (v % 2 ^ 10) * 2 ^ 13 < 2 ^ 23 := by omega
  have hlow := packed_lt hsmall (Nat.mod_lt v (by decide))
  have hbits : res <<< 23 ||| (v % 2 ^ 10) <<< 13 = res * 2 ^ 23 + v % 2 ^ 10 * 2 ^ 13 := by
    rw [Nat.shiftLeft_eq (v % 2 ^ 10), Bits.shiftLeft_or hfc]
  calc
    (v / 2 ^ 15) <<< 31 ||| res <<< 23 ||| (v % 2 ^ 10) <<< 13 =
        (v / 2 ^ 15) <<< 31 ||| (res <<< 23 ||| (v % 2 ^ 10) <<< 13) := Nat.or_assoc _ _ _
    _ = (v / 2 ^ 15) <<< 31 ||| (res * 2 ^ 23 + v % 2 ^ 10 * 2 ^ 13) :=
      congrArg ((v / 2 ^ 15) <<< 31 ||| ·) hbits
    _ = v / 2 ^ 15 * 2 ^ 31 + (res * 2 ^ 23 + v % 2 ^ 10 * 2 ^ 13) := Bits.shiftLeft_or hlow

theorem magnitude_normal {e : Nat} (he : e ≠ 0) (fc : Nat) :
    Ieee.magnitude 8 23 (e + 112) (fc * 2 ^ 13) = Ieee.magnitude 5 10 e fc := by
  have hshift : e + 112 - 1 = (e - 1) + 112 := by omega
  have hfields : 2 ^ 23 + fc * 2 ^ 13 = (2 ^ 10 + fc) * 2 ^ 13 := by omega
  have hunits : 2 ^ 13 * 2 ^ 112 * 2 ^ 925 = 2 ^ 1050 := by
    have hsum : 1050 = 13 + 112 + 925 := rfl
    rw [hsum, Nat.pow_add, Nat.pow_add]
  have hsingle : 1074 - (2 ^ (8 - 1) + 23 - 2) = 925 := rfl
  have hhalf : 1074 - (2 ^ (5 - 1) + 10 - 2) = 1050 := rfl
  unfold Ieee.magnitude
  rw [if_neg (by omega), if_neg he, hshift, hfields, Nat.pow_add]
  rw [hsingle, hhalf, ← hunits]
  generalize (2 : Nat) ^ 925 = unit
  ring

/-- A half float is widened to a single of the same value unless it is subnormal. -/
theorem value_half_iff {v : Nat} (hv : v < 2 ^ 16) :
    Ieee.value 8 23 (arrowHalfFloatToFloat v) = Ieee.value 5 10 v ↔
      (v / 2 ^ 10 % 2 ^ 5 = 0 → v % 2 ^ 10 = 0) := by
  have hexponent : v / 2 ^ 10 % 2 ^ 5 < 2 ^ 5 := Nat.mod_lt _ (by decide)
  have hfraction : v % 2 ^ 10 < 2 ^ 10 := Nat.mod_lt _ (by decide)
  have hsplit : v = v / 2 ^ 15 * 2 ^ (10 + 5) + (v / 2 ^ 10 % 2 ^ 5 * 2 ^ 10 + v % 2 ^ 10) := by
    omega
  have hsign : v / 2 ^ 15 < 2 := by omega
  have hhalf := Ieee.value_fields hexponent hfraction hsign
  rw [← hsplit] at hhalf
  have hbits : 2 ^ 31 = 2 ^ (23 + 8) := rfl
  rw [arrowHalfFloatToFloat_eq hv, hhalf, hbits]
  generalize v / 2 ^ 15 = s at hsign
  generalize v / 2 ^ 10 % 2 ^ 5 = e at hexponent
  generalize v % 2 ^ 10 = fc at hfraction
  clear hsplit hhalf hv
  by_cases hzero : e = 0
  · have hsingle : singleExponent e = 0 := if_pos hzero
    rw [hsingle, Ieee.value_fields (by decide) (by omega) hsign, hzero, if_neg (by decide),
      if_neg (by decide)]
    unfold Ieee.magnitude
    rw [if_pos rfl, if_pos rfl]
    constructor
    · intro hsame _
      have hmagnitude := (Ieee.Value.finite.inj hsame).2
      norm_num at hmagnitude
      omega
    · intro hfc
      rw [hfc rfl, Nat.zero_mul, Nat.zero_mul, Nat.zero_mul]
  · refine iff_of_true ?_ fun h => absurd h hzero
    by_cases htop : e = 31
    · have hsingleTop : 255 = 2 ^ 8 - 1 := rfl
      have hhalfTop : 31 = 2 ^ 5 - 1 := rfl
      have hsingle : singleExponent e = 255 := by rw [singleExponent, if_neg hzero, if_pos htop]
      rw [hsingle, Ieee.value_fields (by decide) (by omega) hsign, htop, if_pos hsingleTop,
        if_pos hhalfTop]
      by_cases hfc : fc = 0
      · rw [hfc, Nat.zero_mul, if_pos rfl]
      · rw [if_neg hfc, if_neg (by omega)]
    · have hsingle : singleExponent e = e + 112 := by
        rw [singleExponent, if_neg hzero, if_neg htop]
      rw [hsingle, Ieee.value_fields (by omega) (by omega) hsign, if_neg (by omega),
        if_neg (by omega), magnitude_normal hzero]

/-! ## One value -/

section
variable {utf8 : List UInt8 → Option AdbcError} {sv : ArrowSchemaView} {entries : ArrowType}
  {entry : Slot entries} {row index : Int}

/-- What a value denotes, through the dictionary if there is one. -/
def heldMeaning (sv : ArrowSchemaView) {entries : ArrowType} (entry : Slot entries)
    (t : ArrowType) (v : Plain t) : Meaning :=
  if t = .dictionary then slotMeaning { type := entries } entries entry else plainMeaning sv t v

/-- A value is bound as what it denotes. -/
def Exact (utf8 : List UInt8 → Option AdbcError) (sv : ArrowSchemaView) {entries : ArrowType}
    (entry : Slot entries) (row index : Int) (t : ArrowType) (v : Plain t) : Prop :=
  ∀ p, bindHeld utf8 sv entry row index t v = .ok p → p.meaning = heldMeaning sv entry t v

theorem exact_of_ok {t : ArrowType} {v : Plain t} {p : Param}
    (h : bindHeld utf8 sv entry row index t v = .ok p) :
    Exact utf8 sv entry row index t v ↔ p.meaning = heldMeaning sv entry t v := by
  constructor
  · intro hexact
    exact hexact p h
  · intro hp q hq
    rw [h] at hq
    rw [← Except.ok.inj hq, hp]

theorem exact_of_error {t : ArrowType} {v : Plain t} {e : AdbcError}
    (h : bindHeld utf8 sv entry row index t v = .error e) :
    Exact utf8 sv entry row index t v := by
  intro p hp
  rw [h] at hp
  cases hp

theorem exact_text {t : ArrowType} {v : Plain t} {s : List UInt8}
    (h : bindHeld utf8 sv entry row index t v = bindVarchar utf8 s) :
    Exact utf8 sv entry row index t v ↔
      ((utf8 s).isSome ∨ heldMeaning sv entry t v = .text s) := by
  unfold bindVarchar at h
  cases hutf8 : utf8 s with
  | some e =>
      rw [hutf8] at h
      exact iff_of_true (exact_of_error h) (Or.inl rfl)
  | none =>
      rw [hutf8] at h
      rw [exact_of_ok h, eq_comm]
      have hnone : (none : Option AdbcError).isSome = false := rfl
      rw [hnone]
      exact (or_iff_right Bool.false_ne_true).symm

/-- A timestamp is exact in microseconds where the product fits. -/
theorem exact_timestamp (v : BitVec 64) :
    Exact utf8 sv entry row index .timestamp v ↔ Fits utf8 sv entry .timestamp v := by
  have hheld : heldMeaning sv entry .timestamp v =
      .instant (BitVec.toInt v * unitNanos sv.timeUnit) := rfl
  unfold Fits
  cases hunit : sv.timeUnit with
  | second =>
      have hbind : bindHeld utf8 sv entry row index .timestamp v =
          .ok (.timestampMicros (v * 1000000)) := by
        unfold bindHeld
        dsimp only
        rw [hunit]
        rfl
      have hproduct := toInt_mul_iff v 1000000 1000000 (by decide)
      rw [exact_of_ok hbind, hheld, hunit]
      unfold Param.meaning unitNanos
      dsimp only
      rw [Meaning.instant.injEq, ← hproduct]
      omega
  | milli =>
      have hbind : bindHeld utf8 sv entry row index .timestamp v =
          .ok (.timestampMicros (v * 1000)) := by
        unfold bindHeld
        dsimp only
        rw [hunit]
        rfl
      have hproduct := toInt_mul_iff v 1000 1000 (by decide)
      rw [exact_of_ok hbind, hheld, hunit]
      unfold Param.meaning unitNanos
      dsimp only
      rw [Meaning.instant.injEq, ← hproduct]
      omega
  | micro =>
      have hbind : bindHeld utf8 sv entry row index .timestamp v =
          .ok (.timestampMicros v) := by
        unfold bindHeld
        dsimp only
        rw [hunit]
        rfl
      rw [exact_of_ok hbind, hheld, hunit]
      exact iff_of_true rfl trivial
  | nano =>
      have hbind : bindHeld utf8 sv entry row index .timestamp v =
          .ok (.timestampNanos v) := by
        unfold bindHeld
        dsimp only
        rw [hunit]
        rfl
      rw [exact_of_ok hbind, hheld, hunit]
      refine iff_of_true ?_ trivial
      exact congrArg Meaning.instant (Int.mul_one _).symm

/-- A half float is exact unless it is subnormal. -/
theorem exact_halfFloat (v : BitVec 16) :
    Exact utf8 sv entry row index .halfFloat v ↔ Fits utf8 sv entry .halfFloat v := by
  have hbind : bindHeld utf8 sv entry row index .halfFloat v =
      .ok (.f32 (BitVec.ofNat 32
        (Binary32.narrow (Binary32.widen (arrowHalfFloatToFloat v.toNat))))) := rfl
  have hhalf : arrowHalfFloatToFloat v.toNat < 2 ^ 32 := by
    have hv : v.toNat < 2 ^ 16 := v.isLt
    have hexponent : singleExponent (v.toNat / 2 ^ 10 % 2 ^ 5) < 2 ^ 8 := by
      unfold singleExponent
      split_ifs <;> omega
    have hpacked := packed_lt hexponent (Nat.mod_lt v.toNat (by decide))
    have hsign : v.toNat / 2 ^ 15 < 2 := by omega
    rw [arrowHalfFloatToFloat_eq hv]
    calc
      v.toNat / 2 ^ 15 * 2 ^ 31 + _ < v.toNat / 2 ^ 15 * 2 ^ 31 + 2 ^ 31 :=
        Nat.add_lt_add_left hpacked _
      _ = (v.toNat / 2 ^ 15 + 1) * 2 ^ 31 := (Nat.succ_mul _ _).symm
      _ ≤ 2 * 2 ^ 31 := Nat.mul_le_mul_right _ hsign
      _ = 2 ^ 32 := by norm_num
  have hsingle : Binary32.narrow (Binary32.widen (arrowHalfFloatToFloat v.toNat)) < 2 ^ 32 :=
    Binary32.narrow_lt (Binary32.widen_lt hhalf)
  have hheld : heldMeaning sv entry .halfFloat v = .real (Ieee.value 5 10 v.toNat) := rfl
  rw [exact_of_ok hbind, hheld]
  unfold Param.meaning Fits
  dsimp only
  rw [BitVec.toNat_ofNat, Nat.mod_eq_of_lt hsingle, Meaning.real.injEq, Ieee.value_narrow_widen,
    value_half_iff v.isLt]

theorem exact_float (v : BitVec 32) : Exact utf8 sv entry row index .float v := by
  have hbind : bindHeld utf8 sv entry row index .float v =
      .ok (.f32 (BitVec.ofNat 32 (Binary32.narrow (Binary32.widen v.toNat)))) := rfl
  have hsingle : Binary32.narrow (Binary32.widen v.toNat) < 2 ^ 32 :=
    Binary32.narrow_lt (Binary32.widen_lt v.isLt)
  have hheld : heldMeaning sv entry .float v = .real (Ieee.value 8 23 v.toNat) := rfl
  rw [exact_of_ok hbind, hheld]
  unfold Param.meaning
  dsimp only
  rw [BitVec.toNat_ofNat, Nat.mod_eq_of_lt hsingle, Ieee.value_narrow_widen]

/-- A date is in 64 bits as milliseconds. -/
theorem toInt_date32 (v : BitVec 32) :
    InLong (v.toInt * 86400000) ∧
      (v.signExtend 64 * 86400000).toInt = v.toInt * 86400000 := by
  have hlow := v.le_toInt
  have hhigh := v.toInt_lt
  have hsign : (v.signExtend 64).toInt = v.toInt := BitVec.toInt_signExtend_of_le (by decide)
  have hproduct := toInt_mul_iff (v.signExtend 64) 86400000 86400000 (by decide)
  rw [hsign] at hproduct
  have hfits : InLong (v.toInt * 86400000) := by
    unfold InLong
    omega
  exact ⟨hfits, hproduct.mpr hfits⟩

theorem exact_date32 (v : BitVec 32) : Exact utf8 sv entry row index .date32 v := by
  have hbind : bindHeld utf8 sv entry row index .date32 v =
      .ok (.dateMillis (v.signExtend 64 * 86400000)) := rfl
  rw [exact_of_ok hbind]
  exact congrArg Meaning.date (toInt_date32 v).2

/-- A decimal is exact where its scale is in 8 bits. -/
theorem exact_decimal128 (v : BitVec 128) :
    Exact utf8 sv entry row index .decimal128 v ↔ Fits utf8 sv entry .decimal128 v := by
  have hbind : bindHeld utf8 sv entry row index .decimal128 v =
      .ok (.decimal128 (v.setWidth 64) ((v >>> 64).setWidth 64)
        (BitVec.ofInt 8 sv.decimalScale)) := rfl
  have hheld : heldMeaning sv entry .decimal128 v = .decimal v.toInt sv.decimalScale := rfl
  rw [exact_of_ok hbind, hheld]
  unfold Param.meaning Fits
  dsimp only
  rw [append_words, Meaning.decimal.injEq, toInt_ofInt_iff]
  exact and_iff_right rfl

theorem exact_uint64 (v : BitVec 64) : Exact utf8 sv entry row index .uint64 v := by
  by_cases hlarge : (BitVec.intMax 64).toNat < v.toNat
  · have hbind : bindHeld utf8 sv entry row index .uint64 v = .error (longRange index row v) :=
      if_pos hlarge
    exact exact_of_error hbind
  · have hbind : bindHeld utf8 sv entry row index .uint64 v = .ok (.i64 v) := if_neg hlarge
    have hmax : (BitVec.intMax 64).toNat = 2 ^ 63 - 1 := by decide
    rw [exact_of_ok hbind]
    exact congrArg Meaning.integer (BitVec.toInt_eq_toNat_of_lt (by omega))

/-- The bytes of a value are what it denotes if it is a text. -/
theorem plainMeaning_text (t : ArrowType) (v : Plain t) :
    plainMeaning sv t v = .text (arrowArrayViewGetBytes t v) ↔ isText t := by
  cases t
  case string => exact iff_of_true rfl rfl
  case largeString => exact iff_of_true rfl rfl
  case stringView => exact iff_of_true rfl rfl
  all_goals
    refine iff_of_false ?_ Bool.false_ne_true
    intro h
    exact Meaning.noConfusion h

theorem slotMeaning_text (slot : Slot entries) :
    slotMeaning sv entries slot = .text (arrowArrayViewGetBytes entries slot.held) ↔
      isText entries ∧ slot.valid := by
  have htext :
      plainMeaning sv entries slot.held = .text (arrowArrayViewGetBytes entries slot.held) ↔
        isText entries := plainMeaning_text entries slot.held
  unfold slotMeaning
  by_cases hkind : isText entries = true
  · have hnull : arrowArrayViewIsNull entries slot.valid = !slot.valid := by
      cases entries <;> first | rfl | exact absurd hkind Bool.false_ne_true
    rw [hnull]
    cases slot.valid with
    | false => exact iff_of_false (fun h => Meaning.noConfusion h) fun h => Bool.false_ne_true h.2
    | true => exact iff_of_true (htext.mpr hkind) ⟨hkind, rfl⟩
  · refine iff_of_false ?_ fun h => hkind h.1
    split
    · exact fun h => Meaning.noConfusion h
    · exact fun h => hkind (htext.mp h)

/-- Of a dictionary only a text that is there is bound as what it denotes. -/
theorem exact_dictionary (v : Plain .dictionary) :
    Exact utf8 sv entry row index .dictionary v ↔ Fits utf8 sv entry .dictionary v := by
  have hbind : bindHeld utf8 sv entry row index .dictionary v =
      bindVarchar utf8 (arrowArrayViewGetBytes entries entry.held) := rfl
  have hheld : heldMeaning sv entry .dictionary v =
      slotMeaning { type := entries } entries entry := rfl
  rw [exact_text hbind, hheld, slotMeaning_text]
  exact Iff.rfl

theorem exact_ok {t : ArrowType} {v : Plain t} {p : Param}
    (h : bindHeld utf8 sv entry row index t v = .ok p)
    (hp : p.meaning = heldMeaning sv entry t v) :
    Exact utf8 sv entry row index t v ↔ True :=
  iff_of_true ((exact_of_ok h).mpr hp) trivial

/-- A value is bound as what it denotes exactly where it fits. -/
theorem exact_iff_fits (t : ArrowType) (v : Plain t) :
    Exact utf8 sv entry row index t v ↔ Fits utf8 sv entry t v := by
  have hsigned : ∀ {w : Nat}, w ≤ 64 → ∀ v : BitVec w,
      ((v.signExtend 64).setWidth w).toInt = v.toInt := by
    intro w hw v
    rw [setWidth_signExtend hw]
  have htext : ∀ {t : ArrowType} {v : Plain t} {s : List UInt8},
      bindHeld utf8 sv entry row index t v = bindVarchar utf8 s →
        heldMeaning sv entry t v = .text s → Exact utf8 sv entry row index t v :=
    fun hbind hheld => (exact_text hbind).mpr (Or.inr hheld)
  cases t
  case bool =>
    obtain ⟨b, hb⟩ : ∃ b : Bool, b = v := ⟨v, rfl⟩
    refine exact_ok rfl ?_
    rw [← hb]
    cases b <;> rfl
  case int8 => exact exact_ok rfl (congrArg Meaning.integer (hsigned (by decide) v))
  case int16 => exact exact_ok rfl (congrArg Meaning.integer (hsigned (by decide) v))
  case int32 => exact exact_ok rfl (congrArg Meaning.integer (hsigned (by decide) v))
  case int64 => exact exact_ok rfl rfl
  case uint8 =>
    exact exact_ok rfl (congrArg Meaning.integer
      (toInt_setWidth_unsigned (by decide) (by decide) v))
  case uint16 =>
    exact exact_ok rfl (congrArg Meaning.integer
      (toInt_setWidth_unsigned (by decide) (by decide) v))
  case uint32 =>
    have hlong := @toInt_setWidth_unsigned 32 64 (by decide) (by decide) v
    rw [BitVec.setWidth_eq] at hlong
    exact exact_ok rfl (congrArg Meaning.integer hlong)
  case uint64 => exact iff_of_true (exact_uint64 v) trivial
  case halfFloat => exact exact_halfFloat v
  case float => exact iff_of_true (exact_float v) trivial
  case double => exact exact_ok rfl rfl
  case string => exact iff_of_true (htext rfl rfl) trivial
  case largeString => exact iff_of_true (htext rfl rfl) trivial
  case stringView => exact iff_of_true (htext rfl rfl) trivial
  case binary => exact exact_ok rfl rfl
  case largeBinary => exact exact_ok rfl rfl
  case binaryView => exact exact_ok rfl rfl
  case fixedSizeBinary =>
    by_cases huuid : sv.fixedSize = 16
    · exact exact_ok (if_pos huuid) rfl
    · exact exact_ok (if_neg huuid) rfl
  case timestamp => exact exact_timestamp v
  case date32 => exact iff_of_true (exact_date32 v) trivial
  case date64 => exact exact_ok rfl rfl
  case decimal128 => exact exact_decimal128 v
  case dictionary => exact exact_dictionary v
  all_goals exact iff_of_true (exact_of_error rfl) trivial

/-! ## The kind -/

/-- The kind of a value that is bound. -/
def valueKind (sv : ArrowSchemaView) : ArrowType → ColumnKind
  | .bool => .boolean
  | .int8 => .byte
  | .int16 | .uint8 => .short
  | .int32 | .uint16 => .int
  | .int64 | .uint32 | .uint64 => .long
  | .halfFloat | .float => .float
  | .double => .double
  | .binary | .largeBinary | .binaryView => .binary
  | .fixedSizeBinary => if sv.fixedSize = 16 then .uuid else .binary
  | .timestamp => if sv.timeUnit = .nano then .timestampNanos else .timestamp
  | .date32 | .date64 => .date
  | .decimal128 => .decimal128
  | _ => .varchar

theorem bindVarchar_kind {s : List UInt8} {p : Param} (h : bindVarchar utf8 s = .ok p) :
    p.kind = .varchar := by
  unfold bindVarchar at h
  split at h
  · cases h
  · rw [← Except.ok.inj h]
    rfl

/-- Values of one type are bound as one kind. -/
theorem bindHeld_kind {t : ArrowType} {v : Plain t} {p : Param}
    (h : bindHeld utf8 sv entry row index t v = .ok p) : p.kind = valueKind sv t := by
  cases t
  case string => exact bindVarchar_kind h
  case largeString => exact bindVarchar_kind h
  case stringView => exact bindVarchar_kind h
  case dictionary => exact bindVarchar_kind h
  case uint64 =>
    unfold bindHeld at h
    dsimp only at h
    split at h
    · cases h
    · rw [← Except.ok.inj h]
      rfl
  case fixedSizeBinary =>
    have hbind : bindHeld utf8 sv entry row index .fixedSizeBinary v =
      if sv.fixedSize = 16 then .ok (.uuid v) else .ok (.binary v) := rfl
    have hkind : valueKind sv .fixedSizeBinary =
      if sv.fixedSize = 16 then .uuid else .binary := rfl
    rw [hbind] at h
    rw [hkind]
    split at h <;> rename_i huuid
    · rw [if_pos huuid, ← Except.ok.inj h]
      rfl
    · rw [if_neg huuid, ← Except.ok.inj h]
      rfl
  case timestamp =>
    unfold bindHeld at h
    unfold valueKind
    cases hunit : sv.timeUnit <;> rw [hunit] at h <;> rw [← Except.ok.inj h] <;> rfl
  all_goals first | cases h; rfl | cases h

/-- The kind of a NULL is that of the values but for five types. -/
theorem bindNull_kind (sv : ArrowSchemaView) :
    (bindNull sv).kind = valueKind sv sv.type ↔ twoKinds sv.type = false := by
  have hfixed : (if sv.fixedSize = 16 then Param.null .uuid else .null .binary).kind =
      if sv.fixedSize = 16 then ColumnKind.uuid else .binary := apply_ite Param.kind _ _ _
  unfold bindNull
  cases sv.type
  case fixedSizeBinary => exact iff_of_true hfixed rfl
  all_goals
    first
    | exact iff_of_true rfl rfl
    | exact iff_of_false (fun h => ColumnKind.noConfusion h) fun h => Bool.noConfusion h

/-- Of these types every value is bound. -/
theorem twoKinds_bound {t : ArrowType} (h : twoKinds t = true) (v : Plain t) :
    ∃ p, bindHeld utf8 sv entry row index t v = .ok p := by
  cases t <;> first | exact ⟨_, rfl⟩ | exact absurd h Bool.false_ne_true

/-! ## A column -/

end

section
variable {utf8 : List UInt8 → Option AdbcError} {c : Column} {row index : Int}

theorem qdbBindValue_null {cell : Cell c}
    (h : arrowArrayViewIsNull c.view.type cell.valid = true) :
    qdbBindValue utf8 c cell row index = .ok (bindNull c.view) := if_pos h

theorem qdbBindValue_held {cell : Cell c}
    (h : arrowArrayViewIsNull c.view.type cell.valid = false) :
    qdbBindValue utf8 c cell row index =
      bindHeld utf8 c.view cell.entry row index c.view.type cell.held := by
  unfold qdbBindValue
  rw [h]
  exact if_neg Bool.false_ne_true

theorem bindNull_meaning (sv : ArrowSchemaView) : (bindNull sv).meaning = .null := by
  unfold bindNull
  cases sv.type
  case fixedSizeBinary =>
    by_cases huuid : sv.fixedSize = 16
    · exact congrArg Param.meaning (if_pos huuid)
    · exact congrArg Param.meaning (if_neg huuid)
  all_goals rfl

/-- What is bound of a slot denotes what the slot does, just where it fits. -/
theorem cell_exact_iff (cell : Cell c) :
    (∀ row index p, qdbBindValue utf8 c cell row index = .ok p → p.meaning = cell.meaning) ↔
      (arrowArrayViewIsNull c.view.type cell.valid = false →
        Fits utf8 c.view cell.entry c.view.type cell.held) := by
  unfold Cell.meaning
  cases hnull : arrowArrayViewIsNull c.view.type cell.valid with
  | true =>
      refine iff_of_true ?_ fun h => Bool.noConfusion h
      intro row index p hp
      rw [qdbBindValue_null hnull] at hp
      rw [← Except.ok.inj hp, bindNull_meaning]
      rfl
  | false =>
      constructor
      · intro hexact _
        have hzero : Exact utf8 c.view cell.entry 0 0 c.view.type cell.held := by
          intro p hp
          exact hexact 0 0 p ((qdbBindValue_held hnull).trans hp)
        exact (exact_iff_fits _ _).mp hzero
      · intro hfits row index p hp
        rw [qdbBindValue_held hnull] at hp
        exact (exact_iff_fits _ _).mpr (hfits rfl) p hp

/-- A value that fits is not wrapped by its scaling. -/
theorem scaled_of_fits {cell : Cell c} (h : Fits utf8 c.view cell.entry c.view.type cell.held)
    (ht : c.view.type = .timestamp ∨ c.view.type = .date32) :
    InLong ((arrowArrayViewGetInt c.view.type cell.held).toInt * scaling c.view) := by
  obtain ⟨view, entries⟩ := c
  obtain ⟨type, fixedSize, precision, scale, unit, timezone⟩ := view
  obtain ⟨⟨valid, held⟩, entry⟩ := cell
  rcases ht with ht | ht
  · have htype : type = .timestamp := ht
    subst htype
    have hlow := BitVec.le_toInt (held : BitVec 64)
    have hhigh := BitVec.toInt_lt (x := (held : BitVec 64))
    have hheld : InLong (BitVec.toInt (held : BitVec 64) * 1) := by
      unfold InLong
      omega
    cases unit with
    | second => exact h
    | milli => exact h
    | micro => exact hheld
    | nano => exact hheld
  · have htype : type = .date32 := ht
    subst htype
    have hsign : (BitVec.signExtend 64 (held : BitVec 32)).toInt =
        BitVec.toInt (held : BitVec 32) :=
      BitVec.toInt_signExtend_of_le (by decide)
    have hdate := (toInt_date32 held).1
    rw [← hsign] at hdate
    exact hdate

/-- The parameters of a column are exact if and only if the column is bindable. -/
theorem bindsExactly_iff (utf8 : List UInt8 → Option AdbcError) (c : Column)
    (cells : List (Cell c)) : BindsExactly utf8 c cells ↔ Bindable utf8 c cells := by
  constructor
  · intro h
    refine ⟨?_, fun x hx => (cell_exact_iff x).mp (h.exact x hx)⟩
    intro htwo
    have hmixed : ∀ x ∈ cells, ∀ y ∈ cells,
        arrowArrayViewIsNull c.view.type x.valid = true →
          arrowArrayViewIsNull c.view.type y.valid = false → False := by
      intro x hx y hy hnull hheld
      obtain ⟨p, hp⟩ := @twoKinds_bound utf8 c.view _ y.entry 0 0 _ htwo y.held
      have hkind := h.kind x hx y hy 0 0 0 _ p (qdbBindValue_null hnull)
        ((qdbBindValue_held hheld).trans hp)
      rw [bindHeld_kind hp, bindNull_kind, htwo] at hkind
      cases hkind
    intro x hx y hy
    cases hxnull : arrowArrayViewIsNull c.view.type x.valid <;>
      cases hynull : arrowArrayViewIsNull c.view.type y.valid
    · rfl
    · exact (hmixed y hy x hx hynull hxnull).elim
    · exact (hmixed x hx y hy hxnull hynull).elim
    · rfl
  · intro h
    have hkind : ∀ x ∈ cells, ∀ row index p, qdbBindValue utf8 c x row index = .ok p →
        p.kind = if arrowArrayViewIsNull c.view.type x.valid then (bindNull c.view).kind
          else valueKind c.view c.view.type := by
      intro x _ row index p hp
      cases hnull : arrowArrayViewIsNull c.view.type x.valid with
      | true =>
          rw [qdbBindValue_null hnull] at hp
          rw [← Except.ok.inj hp]
          rfl
      | false =>
          rw [qdbBindValue_held hnull] at hp
          exact bindHeld_kind hp
    refine ⟨fun x hx => (cell_exact_iff x).mpr (h.fits x hx), ?_, ?_⟩
    · intro x hx y hy row row' index p q hp hq
      rw [hkind x hx row index p hp, hkind y hy row' index q hq]
      cases htwo : twoKinds c.view.type with
      | true => rw [h.kinds htwo x hx y hy]
      | false => rw [(bindNull_kind c.view).mpr htwo, ite_self, ite_self]
    · intro x hx hheld ht
      exact scaled_of_fits (h.fits x hx hheld) ht

end

/-- A nullable `uint8`, a timestamp in seconds, and a dictionary of strings. -/
def byteColumn : Column := ⟨{ type := .uint8 }, .na⟩

def secondColumn : Column := ⟨{ type := .timestamp, timeUnit := .second }, .na⟩

def symbolColumn : Column := ⟨{ type := .dictionary }, .string⟩

/-- A NULL `uint8` is a BYTE and the value 7 a SHORT; a second of the year 294248 wraps in
microseconds; an entry that is NULL is bound as an empty string. -/
theorem bindsExactly_fails :
    ¬ BindsExactly (fun _ => none) byteColumn
        [⟨⟨false, (0 : BitVec 8)⟩, ⟨false, ()⟩⟩, ⟨⟨true, (7 : BitVec 8)⟩, ⟨false, ()⟩⟩] ∧
      ¬ BindsExactly (fun _ => none) secondColumn
        [⟨⟨true, (9223372036855 : BitVec 64)⟩, ⟨false, ()⟩⟩] ∧
      ¬ BindsExactly (fun _ => none) symbolColumn
        [⟨⟨true, ()⟩, ⟨false, ([] : List UInt8)⟩⟩] := by
  refine ⟨?_, ?_, ?_⟩
  · intro h
    have hkind := h.kind _ List.mem_cons_self _ (List.mem_cons_of_mem _ List.mem_cons_self) 0 0 0
      _ _ rfl rfl
    exact absurd hkind (by decide)
  · intro h
    have hscaled := h.scaled _ List.mem_cons_self rfl (Or.inl rfl)
    exact absurd hscaled.2 (by decide)
  · intro h
    have hexact := h.exact _ List.mem_cons_self 0 0 _ rfl
    exact absurd hexact (by decide)

/-! ## The parameters of a row -/

/-- The loop of `QdbRunNextExecution` over the columns of the bound batch. -/
def bindParameters (utf8 : List UInt8 → Option AdbcError) (row : Int) :
    Int → List ((c : Column) × Cell c) → Except AdbcError (List Param)
  | _, [] => .ok []
  | index, ⟨c, cell⟩ :: columns => do
      let p ← qdbBindValue utf8 c cell row index
      let ps ← bindParameters utf8 row (index + 1) columns
      return p :: ps

/-- The parameters of a row denote its values, if these fit. -/
theorem bindParameters_meaning {utf8 : List UInt8 → Option AdbcError} {row index : Int}
    {columns : List ((c : Column) × Cell c)} {ps : List Param}
    (hfits : ∀ x ∈ columns, arrowArrayViewIsNull x.1.view.type x.2.valid = false →
      Fits utf8 x.1.view x.2.entry x.1.view.type x.2.held)
    (h : bindParameters utf8 row index columns = .ok ps) :
    ps.map Param.meaning = columns.map fun x => x.2.meaning := by
  induction columns generalizing index ps with
  | nil =>
      rw [← Except.ok.inj h]
      rfl
  | cons x columns ih =>
      obtain ⟨c, cell⟩ := x
      unfold bindParameters at h
      cases hp : qdbBindValue utf8 c cell row index with
      | error e =>
          rw [hp] at h
          cases h
      | ok p =>
          rw [hp] at h
          cases hps : bindParameters utf8 row (index + 1) columns with
          | error e =>
              simp only [hps, bind, Except.bind] at h
              cases h
          | ok rest =>
              simp only [hps, bind, Except.bind, pure, Except.pure] at h
              rw [← Except.ok.inj h, List.map_cons, List.map_cons,
                ih (fun y hy => hfits y (List.mem_cons_of_mem _ hy)) hps]
              congr 1
              exact (cell_exact_iff cell).mpr (hfits ⟨c, cell⟩ List.mem_cons_self) row index p hp

end AdbcBridge.Questdb.BindValue
