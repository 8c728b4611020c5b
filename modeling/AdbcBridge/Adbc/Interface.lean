import Mathlib.Tactic.Common

/-!
# What crosses the ADBC interface

Arrow schemas as a bound stream hands them over, and the errors a call returns.
What `ArrowSchemaViewInit` makes of a field is part of the field here.
-/

namespace AdbcBridge.Adbc

/-- `enum ArrowType`. -/
inductive ArrowType where
  | uninitialized
  | na
  | bool
  | uint8
  | int8
  | uint16
  | int16
  | uint32
  | int32
  | uint64
  | int64
  | halfFloat
  | float
  | double
  | string
  | binary
  | fixedSizeBinary
  | date32
  | date64
  | timestamp
  | time32
  | time64
  | intervalMonths
  | intervalDayTime
  | decimal128
  | decimal256
  | list
  | struct
  | sparseUnion
  | denseUnion
  | dictionary
  | map
  | extension
  | fixedSizeList
  | duration
  | largeString
  | largeBinary
  | largeList
  | intervalMonthDayNano
  | runEndEncoded
  | binaryView
  | stringView
  | decimal32
  | decimal64
  | listView
  | largeListView
deriving DecidableEq, Repr

/-- `ArrowTypeString`. -/
def ArrowType.text : ArrowType → List Char
  | .uninitialized => "<unknown type identifier>".toList
  | .na => "na".toList
  | .bool => "bool".toList
  | .uint8 => "uint8".toList
  | .int8 => "int8".toList
  | .uint16 => "uint16".toList
  | .int16 => "int16".toList
  | .uint32 => "uint32".toList
  | .int32 => "int32".toList
  | .uint64 => "uint64".toList
  | .int64 => "int64".toList
  | .halfFloat => "half_float".toList
  | .float => "float".toList
  | .double => "double".toList
  | .string => "string".toList
  | .binary => "binary".toList
  | .fixedSizeBinary => "fixed_size_binary".toList
  | .date32 => "date32".toList
  | .date64 => "date64".toList
  | .timestamp => "timestamp".toList
  | .time32 => "time32".toList
  | .time64 => "time64".toList
  | .intervalMonths => "interval_months".toList
  | .intervalDayTime => "interval_day_time".toList
  | .decimal128 => "decimal128".toList
  | .decimal256 => "decimal256".toList
  | .list => "list".toList
  | .struct => "struct".toList
  | .sparseUnion => "sparse_union".toList
  | .denseUnion => "dense_union".toList
  | .dictionary => "dictionary".toList
  | .map => "map".toList
  | .extension => "extension".toList
  | .fixedSizeList => "fixed_size_list".toList
  | .duration => "duration".toList
  | .largeString => "large_string".toList
  | .largeBinary => "large_binary".toList
  | .largeList => "large_list".toList
  | .intervalMonthDayNano => "interval_month_day_nano".toList
  | .runEndEncoded => "run_end_encoded".toList
  | .binaryView => "binary_view".toList
  | .stringView => "string_view".toList
  | .decimal32 => "decimal32".toList
  | .decimal64 => "decimal64".toList
  | .listView => "list_view".toList
  | .largeListView => "large_list_view".toList

inductive ArrowTimeUnit where
  | second
  | milli
  | micro
  | nano
deriving DecidableEq, Repr

/-- The fields of `struct ArrowSchemaView` the code reads. -/
structure ArrowSchemaView where
  type : ArrowType
  fixedSize : Int := 0
  decimalPrecision : Int := 0
  decimalScale : Int := 0
  timeUnit : ArrowTimeUnit := .second
  timezone : List Char := []
deriving DecidableEq, Repr

/-- A field of a schema; `view` is the answer of `ArrowSchemaViewInit`, a message
when the field does not parse. -/
structure ArrowSchema where
  name : Option (List Char)
  nullable : Bool
  view : Except (List Char) ArrowSchemaView
  dictionary : Option ArrowSchema
  children : List ArrowSchema

/-- A field of a plain type. -/
def ArrowSchema.plain (name : List Char) (view : ArrowSchemaView) : ArrowSchema :=
  { name := some name, nullable := true, view := .ok view, dictionary := none, children := [] }

/-- The name of a field, empty when it has none. -/
def ArrowSchema.nameText (s : ArrowSchema) : List Char := s.name.getD []

/-- The `ADBC_STATUS_` codes of an error. -/
inductive AdbcStatusCode where
  | unknown
  | notImplemented
  | notFound
  | alreadyExists
  | invalidArgument
  | invalidState
  | invalidData
  | integrity
  | internal
  | io
  | cancelled
  | timeout
  | unauthenticated
  | unauthorized
deriving DecidableEq, Repr

structure AdbcError where
  status : AdbcStatusCode
  message : List Char
deriving DecidableEq, Repr

end AdbcBridge.Adbc
