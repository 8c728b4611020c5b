import AdbcBridge.Lib.Groups
import AdbcBridge.Objects.Constraints
import AdbcBridge.Objects.Names
import Mathlib

/-!
# `GetObjects`

What `OdbcConnectionGetObjects` makes of the answers of a driver's catalog functions: the rows
of `SQLTables` that `CollectTables` keeps, sorted and without repetition, and the columns that
`AppendColumns` puts under each.  How `qsort` leaves rows that compare equal is up to the C
library; memory is not short.
-/

namespace AdbcBridge.Objects

open AdbcBridge.Lib
open AdbcBridge.Objects.Constraints (PkResultRow FkResultRow Constraint appendConstraints)

/-! ## The catalog functions -/

/-- `struct TableRow`. -/
structure TableRow where
  catalog : Option Text := none
  schema : Option Text := none
  table : Option Text := none
  type : Option Text := none
deriving DecidableEq, Repr

/-- What `TableRowCmp` looks at. -/
abbrev TableName := Option Text × Option Text × Option Text

def TableRow.name (r : TableRow) : TableName := (r.catalog, r.schema, r.table)

def nameCmp (x y : TableName) : Ordering :=
  (strCmpNull x.1 y.1).then ((strCmpNull x.2.1 y.2.1).then (strCmpNull x.2.2 y.2.2))

/-- `TableRowCmp`. -/
def tableRowCmp (x y : TableRow) : Ordering := nameCmp x.name y.name

/-- The fields of a column behind its name, under what `SQLColumns` calls them. -/
structure ColumnInfo where
  dataType : Option Int := none
  typeName : Option Text := none
  columnSize : Option Int := none
  decimalDigits : Option Int := none
  numPrecRadix : Option Int := none
  nullable : Option Int := none
  remarks : Option Text := none
  columnDef : Option Text := none
  sqlDataType : Option Int := none
  sqlDatetimeSub : Option Int := none
  charOctetLength : Option Int := none
  ordinalPosition : Option Int := none
  isNullable : Option Text := none
deriving DecidableEq, Repr

/-- A row of `SQLColumns`: the table it is about, and the column. -/
structure ColumnRow where
  tableCat : Option Text
  tableSchem : Option Text
  tableName : Option Text
  columnName : Option Text
  info : ColumnInfo := {}
deriving DecidableEq, Repr

/-- What `SQLDescribeCol` and `SQL_DESC_TYPE_NAME` say of a column of a result. -/
structure DescribedColumn where
  name : Text
  dataType : Int
  columnSize : Int
  decimalDigits : Int
  nullable : Int
  typeName : Text
deriving DecidableEq, Repr

/-- The arguments of `SQLTables`. -/
structure TablesArgs where
  catalog : Option Text := none
  schema : Option Text := none
  table : Option Text := none
  types : Option Text := none
deriving DecidableEq, Repr

/-- A connection as far as `GetObjects` asks it.  Texts are as `GetStrCol` reads them; the
zero-row SELECT of a table has nothing for a column that cannot be described. -/
structure Connection (ε : Type*) where
  noSqlColumns : Bool
  currentCatalog : Option Text
  tables : TablesArgs → Except ε (List TableRow)
  columns : TableName → Option Text → Except ε (List ColumnRow)
  select : TableName → Option (List (Option DescribedColumn))
  primaryKeys : TableName → Option (List PkResultRow)
  foreignKeys : TableName → Option (List FkResultRow)

inductive Depth where
  | all
  | catalogs
  | dbSchemas
  | tables
deriving DecidableEq, Repr

/-- The depth and the filters of a call. -/
structure ObjectsQuery where
  depth : Depth
  catalog : Option Text := none
  dbSchema : Option Text := none
  tableName : Option Text := none
  tableType : Option (List Text) := none
  columnName : Option Text := none
deriving DecidableEq, Repr

/-! ## Tables -/

variable {ε : Type*}

/-- `GetNameCol` for the catalog and the schema. -/
def TableRow.read (r : TableRow) : TableRow :=
  { r with catalog := nameOrNull r.catalog, schema := nameOrNull r.schema }

/-- `FetchTables`. -/
def fetchTables (conn : Connection ε) (args : TablesArgs) : Except ε (List TableRow) :=
  (conn.tables args).map fun rows => rows.map TableRow.read

/-- `FetchTables` with `tolerate_failure`. -/
def probeTables (conn : Connection ε) (args : TablesArgs) : List TableRow :=
  (fetchTables conn args).toOption.getD []

/-- `CurrentCatalog`. -/
def Connection.current (conn : Connection ε) : Option Text := nameOrNull conn.currentCatalog

/-- `SQL_ALL_CATALOGS`. -/
def allCatalogs : TablesArgs where
  catalog := some (ascii "%")
  schema := some []
  table := some []
  types := some []

/-- `SQL_ALL_SCHEMAS`. -/
def allSchemas : TablesArgs where
  catalog := some []
  schema := some (ascii "%")
  table := some []
  types := some []

/-- The types of the filter, as `SQLTables` takes them. -/
def joinTypes (tableType : Option (List Text)) : Option Text :=
  (tableType.filter (· ≠ [])).map fun types => (ascii ",").intercalate types

/-- `TruncateRows` at a depth that reports no tables. -/
def truncateRow (depth : Depth) (r : TableRow) : TableRow where
  catalog := r.catalog
  schema := if depth = .catalogs then none else r.schema

def catalogRows (conn : Connection ε) (q : ObjectsQuery) : Except ε (List TableRow) :=
  let probe := probeTables conn allCatalogs
  let rows := if probe = [] then fetchTables conn { catalog := q.catalog } else .ok probe
  rows.map fun rows => rows.map (truncateRow .catalogs) ++ [{ catalog := conn.current }]

def schemaRows (conn : Connection ε) (q : ObjectsQuery) : Except ε (List TableRow) :=
  let probe :=
    if q.catalog = none then
      (probeTables conn allSchemas).map fun r => { r with catalog := r.catalog.or conn.current }
    else []
  let rows :=
    if probe = [] then fetchTables conn { catalog := q.catalog, schema := q.dbSchema }
    else .ok probe
  rows.map fun rows =>
    if rows = [] then [{ catalog := conn.current }] else rows.map (truncateRow .dbSchemas)

/-- The listing of tables. -/
def tableRows (conn : Connection ε) (q : ObjectsQuery) : Except ε (List TableRow) :=
  fetchTables conn
    { catalog := q.catalog
      schema := q.dbSchema
      table := q.tableName
      types := joinTypes q.tableType }

def listRows (conn : Connection ε) (q : ObjectsQuery) : Except ε (List TableRow) :=
  match q.depth with
  | .catalogs => catalogRows conn q
  | .dbSchemas => schemaRows conn q
  | .tables => tableRows conn q
  | .all => tableRows conn q

/-- `has_table`. -/
def Depth.hasTable (depth : Depth) : Bool := depth ≠ .catalogs ∧ depth ≠ .dbSchemas

/-- The filters that `CollectTables` enforces. -/
def keepRow (q : ObjectsQuery) (r : TableRow) : Bool :=
  nameMatches q.catalog r.catalog &&
    (q.depth = .catalogs || nameMatches q.dbSchema r.schema) &&
    (!q.depth.hasTable || nameMatches q.tableName r.table)

/-- `SortAndDedupe`, with the `qsort` of the C library. -/
def sortAndDedupe (qsort : List TableRow → List TableRow) (rows : List TableRow) :
    List TableRow :=
  Groups.dedupe TableRow.name (qsort rows)

/-- `CollectTables`. -/
def collectTables (qsort : List TableRow → List TableRow) (conn : Connection ε)
    (q : ObjectsQuery) : Except ε (List TableRow) :=
  (listRows conn q).map fun rows => sortAndDedupe qsort (rows.filter (keepRow q))

/-- What `qsort` promises. -/
structure Sorts (qsort : List TableRow → List TableRow) : Prop where
  perm : ∀ rows, (qsort rows).Perm rows
  sorted : ∀ rows, (qsort rows).Pairwise fun x y => tableRowCmp x y ≠ .gt

/-! ## Columns -/

/-- Where a column that is emitted comes from: a row of `SQLColumns`, or the result of the
SELECT under one of the spellings of the table. -/
inductive ColumnSource where
  | row (r : ColumnRow)
  | described (spelling : TableName) (ordinal : Nat) (c : DescribedColumn)
deriving DecidableEq, Repr

def ColumnSource.name : ColumnSource → Option Text
  | .row r => r.columnName
  | .described _ _ c => some c.name

/-- `SQL_NO_NULLS` and `SQL_NULLABLE` in words. -/
def yesNo (nullable : Int) : Option Text :=
  if nullable = 0 then some (ascii "NO") else if nullable = 1 then some (ascii "YES") else none

/-- What `EmitColumn` writes behind the name. -/
def ColumnSource.info : ColumnSource → ColumnInfo
  | .row r => r.info
  | .described _ ordinal c =>
      { dataType := some c.dataType
        typeName := nameOrNull (some c.typeName)
        columnSize := if 0 < c.columnSize then some c.columnSize else none
        decimalDigits := some c.decimalDigits
        nullable := some c.nullable
        sqlDataType := some c.dataType
        ordinalPosition := some ordinal
        isNullable := yesNo c.nullable }

/-- `EmitColumn`. -/
def emitColumn (c : ColumnSource) : Text × ColumnInfo := (c.name.getD [], c.info)

/-- The spellings of `DescribeTableStmt`, the most qualified first. -/
def spellings (t : TableRow) : List TableName :=
  let catalog := nameOrNull t.catalog
  let schema := nameOrNull t.schema
  (if catalog = none then [] else [(catalog, schema, t.table)]) ++
    (if schema = none then [] else [(none, schema, t.table)]) ++ [(none, none, t.table)]

/-- `DescribeTableStmt`: the first spelling that executes, and what it describes. -/
def describeTableStmt (conn : Connection ε) (t : TableRow) :
    Option (TableName × List (Option DescribedColumn)) :=
  (spellings t).findSome? fun spelling =>
    (conn.select spelling).map fun columns => (spelling, columns)

/-- The columns of `AppendColumnsViaDescribe`: the filter is applied here. -/
def describedColumns (spelling : TableName) (columns : List (Option DescribedColumn))
    (columnName : Option Text) : List ColumnSource :=
  (columns.zipIdx 1).filterMap fun c =>
    (c.1.filter fun column => columnName.all fun pat => likeMatch pat column.name).map
      fun column => .described spelling c.2 column

/-- `AppendColumnsViaDescribe`. -/
def appendColumnsViaDescribe (conn : Connection ε) (t : TableRow) (columnName : Option Text) :
    Option (List ColumnSource) :=
  (describeTableStmt conn t).map fun found => describedColumns found.1 found.2 columnName

/-- Why a call fails: with the diagnostic of the driver, or because a table can neither be
listed nor described. -/
inductive ObjectsError (ε : Type*) where
  | driver (e : ε)
  | io

/-- `AppendColumns`. -/
def appendColumns (conn : Connection ε) (t : TableRow) (columnName : Option Text) :
    Except (ObjectsError ε) (List ColumnSource) :=
  let described (e : ObjectsError ε) : Except (ObjectsError ε) (List ColumnSource) :=
    match appendColumnsViaDescribe conn t columnName with
    | some columns => .ok columns
    | none => .error e
  if conn.noSqlColumns then described .io
  else
    match conn.columns t.name columnName with
    | .ok rows => .ok (rows.map .row)
    | .error e => described (.driver e)

/-! ## The nested lists -/

/-- An element of `db_schema_tables`: the row it is written from, its columns and its
constraints. -/
structure TableOut where
  row : TableRow
  columns : Option (List ColumnSource)
  constraints : Option (List Constraint)

/-- `table_name` and `table_type` as they are written. -/
def TableOut.written (t : TableOut) : Text × Text := (t.row.table.getD [], t.row.type.getD [])

structure SchemaOut where
  name : Option Text
  tables : Option (List TableOut)

structure CatalogOut where
  name : Option Text
  schemas : Option (List SchemaOut)

def tableOut (conn : Connection ε) (q : ObjectsQuery) (r : TableRow) :
    Except (ObjectsError ε) TableOut :=
  if q.depth = .tables then .ok ⟨r, none, none⟩
  else
    (appendColumns conn r q.columnName).map fun columns =>
      ⟨r, some columns,
        some (appendConstraints (conn.primaryKeys r.name) (conn.foreignKeys r.name))⟩

def schemaOut (conn : Connection ε) (q : ObjectsQuery) (g : Option Text × List TableRow) :
    Except (ObjectsError ε) SchemaOut :=
  if q.depth = .dbSchemas then .ok ⟨g.1, none⟩
  else (g.2.mapM (tableOut conn q)).map fun tables => ⟨g.1, some tables⟩

def catalogOut (conn : Connection ε) (q : ObjectsQuery) (g : Option Text × List TableRow) :
    Except (ObjectsError ε) CatalogOut :=
  if q.depth = .catalogs then .ok ⟨g.1, none⟩
  else
    ((Groups.groups TableRow.schema g.2).mapM (schemaOut conn q)).map fun schemas =>
      ⟨g.1, some schemas⟩

/-- `OdbcConnectionGetObjects`. -/
def getObjects (qsort : List TableRow → List TableRow) (conn : Connection ε)
    (q : ObjectsQuery) : Except (ObjectsError ε) (List CatalogOut) :=
  match collectTables qsort conn q with
  | .error e => .error (.driver e)
  | .ok rows => (Groups.groups TableRow.catalog rows).mapM (catalogOut conn q)

end AdbcBridge.Objects
