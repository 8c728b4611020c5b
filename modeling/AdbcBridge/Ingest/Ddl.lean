import AdbcBridge.Adbc.Interface
import AdbcBridge.Lib.Decimal
import Mathlib.Data.List.Infix

/-!
# The SQL of a bulk ingest

The texts `OdbcStatementIngest` writes (`DROP`, `CREATE` and `INSERT`) and the
column types in them: `ColumnTypeSql` and what it asks of the driver's
`SQLGetTypeInfo`.
-/

namespace AdbcBridge.Ingest.Ddl

open AdbcBridge.Adbc AdbcBridge.Lib.Decimal

/-! ## Names -/

/-- `OdbcQuoteChar`; the argument is the driver's answer to
`SQL_IDENTIFIER_QUOTE_CHAR`, of which eight bytes of buffer keep seven. -/
def odbcQuoteChar : Option (List Char) → List Char
  | none => ['"']
  | some [] => []
  | some (' ' :: _) => []
  | some reported => reported.take 7

/-- `%s%s%s`: a name between two quotes. -/
def quoted (q name : List Char) : List Char := q ++ name ++ q

/-- `ingest_catalog`, `ingest_schema` and `ingest_table`; also the arguments of
`GetTableSchema`. -/
structure Target where
  catalog : Option (List Char)
  schema : Option (List Char)
  table : List Char
deriving DecidableEq, Repr

/-- A catalog or schema in front of a table, when it is there and not empty. -/
def qualifier (q : List Char) : Option (List Char) → List Char
  | none => []
  | some [] => []
  | some name => quoted q name ++ ['.']

/-- `AppendQualifiedName`. -/
def appendQualifiedName (q : List Char) (t : Target) : List Char :=
  qualifier q t.catalog ++ qualifier q t.schema ++ quoted q t.table

/-! ## Column types -/

/-- The `SQL_` type codes `ColumnTypeSql` asks about. -/
inductive SqlType where
  | bit
  | tinyint
  | smallint
  | integer
  | bigint
  | decimal
  | numeric
  | real
  | float
  | double
  | varchar
  | longVarchar
  | wLongVarchar
  | varbinary
  | longVarbinary
  | typeDate
  | typeTime
  | typeTimestamp
  | ssTime2
deriving DecidableEq, Repr

/-- The first row of `SQLGetTypeInfo`, as the code reads it. -/
structure TypeInfoRow where
  typeName : List Char
  createParams : List Char
  maximumScale : Option Int
  columnSize : Option Int
deriving DecidableEq, Repr

structure TypeParams where
  length : Int := 0
  precision : Int := 0
  scale : Int := 0
  fracDigits : Int := 0
deriving DecidableEq, Repr

/-- The fields of `struct OdbcReaderOptions` that shape the DDL; a format is the
text it makes of its argument. -/
structure OdbcReaderOptions where
  ansiDdlTypeNames : Bool := false
  ddlStringTypeName : Option (List Char) := none
  ddlStringAsMaxVarchar : Bool := false
  fractionalTimeFormatForSeconds : Bool := false
  fractionalTimeTypeFormat : Option (Int → List Char) := none
  fractionalTimeMaxDigits : Int := 0
  ddlTimestampTypeFormat : Option (Int → List Char) := none
  ddlTimestamptzTypeFormat : Option (Int → List Char) := none
  ddlTimestampMaxDigits : Int := 0
  ddlTimestampTypeName : Option (List Char) := none
  nullableTypeFormat : Option (List Char → List Char) := none
  ddlExtraColumn : Option (List Char) := none
  ddlTableOptions : Option (List Char) := none
  zeroRowSuffix : Option (List Char) := none

/-- What `snprintf` leaves in a buffer. -/
def bufferText (size : Nat) (text : List Char) : List Char := text.take (size - 1)

/-- `FractionalDigits`. -/
def fractionalDigits : ArrowTimeUnit → Int
  | .second => 0
  | .milli => 3
  | .micro => 6
  | .nano => 7

/-- The fold of `CREATE_PARAMS` to lower case. -/
def lowerParams (params : List Char) : List Char :=
  params.map fun c => if 'A' ≤ c ∧ c ≤ 'Z' then c.toLower else c

/-- A type name as the server wants it: the driver's name without parameters of its
own, with those of the column the type takes. -/
def typeNameWithParams (row : TypeInfoRow) (tp : TypeParams) : List Char :=
  let name := row.typeName.takeWhile (· ≠ '(')
  let params := lowerParams row.createParams
  let mentions (word : String) : Bool := decide (word.toList <:+: params)
  if params ≠ [] ∧ 0 < tp.fracDigits ∧ ',' ∉ params ∧ (mentions "scale" ∨ mentions "precision") then
    let digits :=
      match row.maximumScale with
      | some most => if 0 < most ∧ most < tp.fracDigits then most else tp.fracDigits
      | none => tp.fracDigits
    name ++ "(".toList ++ intText digits ++ ")".toList
  else if params ≠ [] ∧ mentions "precision" ∧ 0 < tp.precision then
    name ++ "(".toList ++ intText tp.precision ++ ",".toList ++ intText tp.scale ++ ")".toList
  else if params ≠ [] ∧ mentions "length" ∧ 0 < tp.length then
    name ++ "(".toList ++ intText tp.length ++ ")".toList
  else name

section Driver

variable (info : SqlType → Option TypeInfoRow) (opts : OdbcReaderOptions)

/-- `TypeNameOne`. -/
def typeNameOne (type : SqlType) (tp : TypeParams) : Option (List Char) :=
  if opts.ansiDdlTypeNames then none
  else
    match info type with
    | none => none
    | some row =>
        if row.typeName = [] then none else some (bufferText 300 (typeNameWithParams row tp))

/-- `TypeMaxLength`. -/
def typeMaxLength (type : SqlType) : Int :=
  match info type with
  | none => 0
  | some row =>
      match row.columnSize with
      | some size => if 0 < size then size else 0
      | none => 0

/-- `TypeNameFor`: the first candidate the driver has a name for. -/
def typeNameFor (candidates : List SqlType) (tp : TypeParams) (fallback : List Char) :
    List Char :=
  (candidates.findSome? fun type => typeNameOne info opts type tp).getD (bufferText 300 fallback)

/-- The `TIME32` and `TIME64` case. -/
def timeTypeSql (sv : ArrowSchemaView) : List Char :=
  let digits := fractionalDigits sv.timeUnit
  let chain :=
    let fallback :=
      if 0 < digits then "TIME(".toList ++ intText digits ++ ")".toList else "TIME".toList
    typeNameFor info opts [.typeTime, .ssTime2] { fracDigits := digits } fallback
  match opts.fractionalTimeTypeFormat with
  | none => chain
  | some format =>
      if 0 < digits ∨ opts.fractionalTimeFormatForSeconds then
        let d :=
          if 0 < opts.fractionalTimeMaxDigits ∧ opts.fractionalTimeMaxDigits < digits then
            opts.fractionalTimeMaxDigits
          else digits
        bufferText 300 (format d)
      else chain

/-- The `TIMESTAMP` case. -/
def timestampTypeSql (sv : ArrowSchemaView) : List Char :=
  let digits := fractionalDigits sv.timeUnit
  let format :=
    if sv.timezone ≠ [] then opts.ddlTimestamptzTypeFormat else opts.ddlTimestampTypeFormat
  match format with
  | some format =>
      let d :=
        if 0 < opts.ddlTimestampMaxDigits ∧ opts.ddlTimestampMaxDigits < digits then
          opts.ddlTimestampMaxDigits
        else digits
      bufferText 300 (format d)
  | none =>
      match opts.ddlTimestampTypeName with
      | some name => bufferText 300 name
      | none =>
          typeNameFor info opts [.typeTimestamp] { fracDigits := digits } "TIMESTAMP".toList

/-- The `STRING` case. -/
def stringTypeSql : List Char :=
  let chain :=
    typeNameFor info opts [.longVarchar, .wLongVarchar, .varchar] {} "TEXT".toList
  match opts.ddlStringTypeName with
  | some name => bufferText 300 name
  | none =>
      if opts.ddlStringAsMaxVarchar ∧ 0 < typeMaxLength info .varchar then
        (typeNameOne info opts .varchar { length := typeMaxLength info .varchar }).getD chain
      else chain

/-- The `DECIMAL` case. -/
def decimalTypeSql (sv : ArrowSchemaView) : List Char :=
  typeNameFor info opts [.decimal, .numeric]
    { precision := sv.decimalPrecision, scale := sv.decimalScale }
    ("DECIMAL(".toList ++ intText sv.decimalPrecision ++ ",".toList ++
      intText sv.decimalScale ++ ")".toList)

/-- The 64-bit integers: a type of its own, else 19 digits of a decimal. -/
def bigintTypeSql : List Char :=
  ((typeNameOne info opts .bigint {}).or
    ((typeNameOne info opts .decimal { precision := 19 }).or
      (typeNameOne info opts .numeric { precision := 19 }))).getD "BIGINT".toList

/-- `ColumnTypeSql` for a type that is not a dictionary. -/
def valueTypeSql (sv : ArrowSchemaView) : Except AdbcError (List Char) :=
  match sv.type with
  | .bool => .ok (typeNameFor info opts [.bit, .tinyint, .smallint] {} "BOOLEAN".toList)
  | .int8 | .uint8 | .int16 =>
      .ok (typeNameFor info opts [.smallint, .integer] {} "SMALLINT".toList)
  | .uint16 | .int32 => .ok (typeNameFor info opts [.integer, .bigint] {} "INTEGER".toList)
  | .uint32 | .int64 | .uint64 => .ok (bigintTypeSql info opts)
  | .halfFloat | .float =>
      .ok (typeNameFor info opts [.real, .float, .double] {} "REAL".toList)
  | .double => .ok (typeNameFor info opts [.double, .float] {} "DOUBLE".toList)
  | .string | .largeString | .stringView => .ok (stringTypeSql info opts)
  | .binary | .largeBinary | .fixedSizeBinary | .binaryView =>
      .ok (typeNameFor info opts [.longVarbinary, .varbinary] {} "BLOB".toList)
  | .date32 => .ok (typeNameFor info opts [.typeDate, .typeTimestamp] {} "DATE".toList)
  | .time32 | .time64 => .ok (timeTypeSql info opts sv)
  | .timestamp => .ok (timestampTypeSql info opts sv)
  | .decimal128 | .decimal256 => .ok (decimalTypeSql info opts sv)
  | _ =>
      .error ⟨.notImplemented, "Unsupported Arrow type for ingest: ".toList ++ sv.type.text⟩

/-- The value type of a dictionary-encoded field. -/
def dictionaryView (field : ArrowSchema) : Option ArrowSchemaView :=
  match field.dictionary with
  | none => none
  | some values =>
      match values.view with
      | .error _ => none
      | .ok dsv => if dsv.type = .dictionary then none else some dsv

/-- `ColumnTypeSql`. -/
def columnTypeSql (field : ArrowSchema) (sv : ArrowSchemaView) : Except AdbcError (List Char) :=
  if sv.type = .dictionary then
    match dictionaryView field with
    | none =>
        .error ⟨.invalidArgument, "Dictionary-encoded column has no usable value type".toList⟩
    | some dsv => valueTypeSql info opts dsv
  else valueTypeSql info opts sv

/-! ## Statements -/

/-- A column of the new table: its name and the SQL of its type. -/
structure ColumnDef where
  name : List Char
  type : List Char
deriving DecidableEq, Repr

/-- One turn of the loop that writes the column definitions. -/
def columnDef (field : ArrowSchema) : Except AdbcError ColumnDef :=
  match field.view with
  | .error message => .error ⟨.invalidArgument, "Bad schema: ".toList ++ message⟩
  | .ok sv =>
      match columnTypeSql info opts field sv with
      | .error e => .error e
      | .ok tname =>
          match opts.nullableTypeFormat with
          | some format =>
              if field.nullable then .ok ⟨field.nameText, bufferText 340 (format tname)⟩
              else .ok ⟨field.nameText, tname⟩
          | none => .ok ⟨field.nameText, tname⟩

/-- The column definitions of a schema; the first field that has none stops the
loop. -/
def columnDefs (fields : List ArrowSchema) : Except AdbcError (List ColumnDef) :=
  fields.mapM (columnDef info opts)

end Driver

/-- `%s` between the items of a list, with `, ` in front of all but the first. -/
def commaJoin (items : List (List Char)) : List Char := List.intercalate ", ".toList items

/-- `DROP TABLE`, sent in replace mode. -/
def dropText (q : List Char) (t : Target) : List Char :=
  "DROP TABLE ".toList ++ appendQualifiedName q t

/-- What follows the column list of a `CREATE TABLE`. -/
def tableOptionsText (opts : OdbcReaderOptions) : List Char :=
  match opts.ddlTableOptions with
  | none => []
  | some options => " ".toList ++ options

/-- `CREATE TABLE`. -/
def createText (opts : OdbcReaderOptions) (temporary : Bool) (q : List Char) (t : Target)
    (columns : List ColumnDef) : List Char :=
  "CREATE ".toList ++ (if temporary then "TEMPORARY ".toList else []) ++ "TABLE ".toList ++
    appendQualifiedName q t ++ " (".toList ++
    commaJoin (columns.map (fun c => quoted q c.name ++ " ".toList ++ c.type) ++
      opts.ddlExtraColumn.toList) ++
    ")".toList ++ tableOptionsText opts

/-- `ingest_into`: the target and its columns, as every insert names them. -/
def ingestInto (q : List Char) (t : Target) (names : List (List Char)) : List Char :=
  appendQualifiedName q t ++ " (".toList ++ commaJoin (names.map (quoted q)) ++ ")".toList

/-- `INSERT INTO`, one row of parameter markers. -/
def insertText (q : List Char) (t : Target) (names : List (List Char)) : List Char :=
  "INSERT INTO ".toList ++ ingestInto q t names ++ " VALUES (".toList ++
    commaJoin (names.map fun _ => "?".toList) ++ ")".toList

end AdbcBridge.Ingest.Ddl
