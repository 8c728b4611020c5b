import AdbcBridge.Partition.SliceText

/-!
# Choosing a split from the catalog

`ChooseSplit` and the lookups behind it.  A database is the list of its tables in
the order in which the catalog reports them.  `SQLPrimaryKeys` takes its names
literally; `SQLColumns` takes its schema and table names as `LIKE` patterns, so that
the names of another table can match.  What the server answers to the driver's own
queries is left open (`Server`).
-/

namespace AdbcBridge.Partition.Catalog

open AdbcBridge.Partition.Scanner AdbcBridge.Partition.Split AdbcBridge.Partition.Slices

/-! ## The database and its catalog -/

structure Column where
  name : List Char
  dataType : Option Int
  nullable : Option Int
deriving DecidableEq, Repr

/-- A table; its primary key lists column names in key order. -/
structure Table where
  catalog : Option (List Char)
  schema : Option (List Char)
  name : List Char
  columns : List Column
  primaryKey : List (List Char)
deriving DecidableEq, Repr

/-- A row of `SQLPrimaryKeys`. -/
structure KeyRow where
  catalog : Option (List Char)
  schema : Option (List Char)
  table : Option (List Char)
  column : Option (List Char)
  seq : Option Int
deriving DecidableEq, Repr

/-- A row of `SQLColumns`. -/
structure ColumnRow where
  catalog : Option (List Char)
  schema : Option (List Char)
  table : Option (List Char)
  column : Option (List Char)
  dataType : Option Int
  nullable : Option Int
deriving DecidableEq, Repr

def keyRowsOf (t : Table) : List KeyRow :=
  t.primaryKey.zipIdx.map fun c => ⟨t.catalog, t.schema, some t.name, some c.1, some (c.2 + 1)⟩

def columnRowsOf (t : Table) : List ColumnRow :=
  t.columns.map fun c => ⟨t.catalog, t.schema, some t.name, some c.name, c.dataType, c.nullable⟩

/-- Some split of the text at which `rest` accepts what is left. -/
def anySuffix (rest : List Char → Bool) : List Char → Bool
  | [] => rest []
  | c :: cs => rest (c :: cs) || anySuffix rest cs

/-- A `LIKE` pattern: `_` stands for any character, `%` for any text. -/
def likeMatch : List Char → List Char → Bool
  | [], cs => cs.isEmpty
  | p :: ps, cs =>
      if p = '%' then anySuffix (likeMatch ps) cs
      else
        match cs with
        | [] => false
        | c :: cs => (p = '_' || p = c) && likeMatch ps cs

/-- The three names of a table reference; an absent level is empty. -/
structure TableRef where
  catalog : List Char
  schema : List Char
  table : List Char
deriving DecidableEq, Repr

/-- An argument taken literally; an empty one is passed as `NULL` and asks nothing. -/
def literalArg (arg : List Char) (name : Option (List Char)) : Bool :=
  arg.isEmpty || name == some arg

/-- A pattern argument. -/
def patternArg (arg : List Char) (name : Option (List Char)) : Bool :=
  arg.isEmpty || likeMatch arg (name.getD [])

/-- `SQLPrimaryKeys`. -/
def sqlPrimaryKeys (db : List Table) (ref : TableRef) : List KeyRow :=
  (db.filter fun t => literalArg ref.catalog t.catalog && literalArg ref.schema t.schema &&
    t.name == ref.table).flatMap keyRowsOf

/-- `SQLColumns`, for every column of the tables the patterns match. -/
def sqlColumns (db : List Table) (ref : TableRef) : List ColumnRow :=
  (db.filter fun t => literalArg ref.catalog t.catalog && patternArg ref.schema t.schema &&
    likeMatch ref.table t.name).flatMap columnRowsOf

/-! ## Reading the catalog -/

/-- `ODBC_PARTITION_IDENT_MAX`. -/
def identMax : Nat := 128

/-- `GetDataString` into a buffer of `identMax` bytes: what the buffer holds, and
whether the value was there whole. -/
def getDataString (value : Option (List Char)) : List Char × Bool :=
  match value with
  | none => ([], false)
  | some s => if s.length < identMax then (s, !s.isEmpty) else (s.take (identMax - 1), false)

/-- `IsSafeIdentifier`; bytes outside ASCII pass. -/
def isSafeIdentifier (s : List Char) : Bool :=
  !s.isEmpty && s.all fun c => 128 ≤ c.toNat || isIdentChar c

/-- The pieces between dots. -/
def splitDots : List Char → List (List Char)
  | [] => [[]]
  | c :: cs =>
      if c = '.' then [] :: splitDots cs
      else
        match splitDots cs with
        | [] => [[c]]
        | part :: parts => (c :: part) :: parts

/-- `SplitTableRef`: one part is the table, two are schema and table, three have a
catalog in front. -/
def splitTableRef (text : List Char) : Option TableRef :=
  let parts := splitDots text
  if parts.all (fun part => !part.isEmpty && decide (part.length < identMax)) then
    match parts with
    | [table] => some ⟨[], [], table⟩
    | [schema, table] => some ⟨[], schema, table⟩
    | [catalog, schema, table] => some ⟨catalog, schema, table⟩
    | _ => none
  else none

/-- The variables of the loop over the key rows. -/
structure KeyScan where
  columns : Nat
  found : TableRef
  lead : Option (List Char)
deriving DecidableEq, Repr

/-- The names of a key row as the buffers hold them. -/
def keyRowNames (row : KeyRow) : TableRef :=
  ⟨(getDataString row.catalog).1, (getDataString row.schema).1, (getDataString row.table).1⟩

/-- `TABLE_NAME`, `COLUMN_NAME` and `KEY_SEQ` are not optional. -/
def keyRowReadable (row : KeyRow) : Bool :=
  (getDataString row.table).2 && (getDataString row.column).2 && row.seq.isSome

/-- The loop of `PrimaryKeyLeadColumn`; `none` is the ambiguous outcome. -/
def keyLoop : List KeyRow → KeyScan → Option KeyScan
  | [], st => some st
  | row :: rows, st =>
      if !keyRowReadable row then none
      else if st.columns ≠ 0 && st.found ≠ keyRowNames row then none
      else
        keyLoop rows
          { columns := st.columns + 1
            found := if st.columns = 0 then keyRowNames row else st.found
            lead := if row.seq = some 1 then some (getDataString row.column).1 else st.lead }

/-- `PrimaryKeyLeadColumn`: the leading key column and the table it was found in. -/
def primaryKeyLeadColumn (rows : List KeyRow) : Option (TableRef × List Char) :=
  match keyLoop rows ⟨0, ⟨[], [], []⟩, none⟩ with
  | none => none
  | some st =>
    match st.lead with
    | none => none
    | some column =>
      if st.columns < 1 || !isSafeIdentifier column then none else some (st.found, column)

def sqlTinyint : Int := -6
def sqlSmallint : Int := 5
def sqlInteger : Int := 4
def sqlBigint : Int := -5
def sqlNoNulls : Int := 0

/-- An integer column declared `NOT NULL`. -/
def splittable (dataType nullable : Option Int) : Bool :=
  match dataType, nullable with
  | some type, some nulls =>
      (type = sqlTinyint || type = sqlSmallint || type = sqlInteger || type = sqlBigint) &&
        nulls = sqlNoNulls
  | _, _ => false

/-- The row that decides about `column`: the first one whose `COLUMN_NAME` it is. -/
def decidingRow (rows : List ColumnRow) (column : List Char) : Option ColumnRow :=
  rows.find? fun row => (getDataString row.column).2 && (getDataString row.column).1 == column

/-- `ColumnIsSplittableInteger`. -/
def columnIsSplittableInteger (rows : List ColumnRow) (column : List Char) : Bool :=
  match decidingRow rows column with
  | none => false
  | some row => splittable row.dataType row.nullable

/-! ## The strategies -/

/-- What the server says about the ordering of the leading key column. -/
structure PgIndexFacts where
  leadIsHash : Bool
  hashColumns : Int
  hasYbHashCode : Bool
  estRows : Int64
deriving DecidableEq, Repr

/-- The connection's answers: to `SQLGetInfo` (of the quote, its first character), to the two
catalog calls (whether they succeed), and to the driver's own queries, by their text (`none` where
the query fails or answers `NULL`). -/
structure Server where
  dbmsName : List Char
  quoteChar : Option Char
  primaryKeysCall : Bool
  columnsCall : Bool
  heapBlocks : List Char → Option Int64
  indexFacts : List Char → Option (Int × Int × Int × Option Int64)
  minMax : List Char → Option (Int64 × Int64)

def dbmsIsPostgres (server : Server) : Bool := server.dbmsName.take 10 == "PostgreSQL".toList

/-- `IdentifierQuote`: a blank stands for none. -/
def Server.identifierQuote (server : Server) : Option Char :=
  server.quoteChar.filter fun q => q ≠ ' ' ∧ q ≠ '\x00'

/-- `PostgresHeapBlocks`. -/
def postgresHeapBlocks (server : Server) (table : List Char) : Option Int64 :=
  if table.all fun c => c = '.' || isIdentChar c then
    let sql := "SELECT (pg_relation_size(c.oid) / current_setting('block_size')::bigint)".toList ++
      "::bigint FROM pg_class c WHERE c.oid = to_regclass('".toList ++ table ++
      "') AND '(0,0)'::tid < '(1,0)'::tid".toList
    if sql.length < 512 then
      match server.heapBlocks sql with
      | some blocks => if 0 < blocks then some blocks else none
      | none => none
    else none
  else none

/-- `WriteQuotedIdent`. -/
def writeQuotedIdent (quote : Option Char) (column : List Char) : Option (List Char) :=
  let text :=
    match quote with
    | some q => q :: (column ++ [q])
    | none => column
  if 0 < text.length && text.length < identMax + 4 then some text else none

/-- The query for the index facts, up to the table's name. -/
def pgIndexHead : List Char :=
  "SELECT (i.indoption[0] & 4)::int, ".toList ++
    "(SELECT count(*) FROM generate_subscripts(i.indoption, 1) s ".toList ++
    "WHERE (i.indoption[s] & 4) <> 0)::int, ".toList ++
    "(SELECT count(*) FROM pg_proc p WHERE p.proname = 'yb_hash_code')::int, ".toList ++
    "c.reltuples::bigint FROM pg_index i JOIN pg_class c ON c.oid = i.indrelid ".toList ++
    "JOIN pg_attribute a ON a.attrelid = i.indrelid AND a.attnum = i.indkey[0] ".toList ++
    "WHERE i.indrelid = to_regclass('".toList

/-- The query for the index facts, between the table's name and the column's. -/
def pgIndexMiddle : List Char := "') AND i.indisprimary AND a.attname = '".toList

/-- `PgIndexFacts`. -/
def pgIndexFacts (server : Server) (table column : List Char) : Option PgIndexFacts :=
  let sql := pgIndexHead ++ table ++ pgIndexMiddle ++ column ++ ['\x27']
  if sql.length < 1024 then
    match server.indexFacts sql with
    | some (lead, hashes, ybHash, rows) => some ⟨lead ≠ 0, hashes, 0 < ybHash, rows.getD (-1)⟩
    | none => none
  else none

/-- `ExpressionExtent`. -/
def expressionExtent (server : Server) (table expr : List Char) : Option (Int64 × Int64) :=
  let sql := "SELECT MIN(".toList ++ expr ++ "), MAX(".toList ++ expr ++ ") FROM ".toList ++ table
  if sql.length < 512 then
    match server.minMax sql with
    | some (lo, hi) => if lo ≤ hi then some (lo, hi) else none
    | none => none
  else none

/-- The split that `ChooseSplit` starts from. -/
def noSplit : OdbcSplit := ⟨.none, [], 0, 0, -1⟩

/-- The automatic count of a key range without a row estimate: one partition a
million values. -/
def autoFromSpan (lo hi : Int64) : Int64 :=
  let span := extentSpan lo hi
  let values := if span = 18446744073709551615 then span else span + 1
  let want := values / partitionAutoRows.toUInt64
  if want > partitionAutoMax.toUInt64 then partitionAutoMax else want.toInt64

/-- The facts where the server is not asked for them. -/
def noFacts : PgIndexFacts := ⟨false, 0, false, -1⟩

/-- Strategies 2 and 3, once the key column is known to be an integer without nulls. -/
def splitOnKey (server : Server) (table column : List Char) : OdbcSplit :=
  match writeQuotedIdent server.identifierQuote column with
  | none => noSplit
  | some quoted =>
    let pgWire := dbmsIsPostgres server
    match if pgWire then pgIndexFacts server table column else some noFacts with
    | none => noSplit
    | some facts =>
      let auto := if pgWire && 0 < facts.estRows then facts.estRows / partitionAutoRows else -1
      if facts.leadIsHash then
        if !facts.hasYbHashCode || facts.hashColumns ≠ 1 then
          { noSplit with autoPartitions := auto }
        else ⟨.ybHash, "yb_hash_code(".toList ++ quoted ++ ")".toList, 0, 65535, auto⟩
      else
        match expressionExtent server table quoted with
        | none => { noSplit with autoPartitions := auto }
        | some (lo, hi) =>
            ⟨.keyRange, quoted, lo, hi, if auto < 0 then autoFromSpan lo hi else auto⟩

/-- The leading key column of the reference and the table it was found in, as the
catalog answers. -/
def keyAnswer (server : Server) (db : List Table) (table : List Char) :
    Option (TableRef × List Char) :=
  (splitTableRef table).bind fun ref =>
    primaryKeyLeadColumn (if server.primaryKeysCall then sqlPrimaryKeys db ref else [])

/-- `ChooseSplit`. -/
def chooseSplit (server : Server) (db : List Table) (table : List Char) : OdbcSplit :=
  match if dbmsIsPostgres server then postgresHeapBlocks server table else none with
  | some blocks => ⟨.ctid, "ctid".toList, 0, blocks, blocks / partitionAutoBlocks⟩
  | none =>
    match keyAnswer server db table with
    | none => noSplit
    | some (ref, column) =>
      if columnIsSplittableInteger (if server.columnsCall then sqlColumns db ref else [])
          column then
        splitOnKey server table column
      else noSplit

/-! ## The key lookup -/

/-- The leading column among key rows: that of the last row with `KEY_SEQ` 1. -/
def leadColumn (rows : List KeyRow) : Option (List Char) :=
  ((rows.filter fun row => row.seq = some 1).getLast?).map fun row => (getDataString row.column).1

theorem leadColumn_cons (row : KeyRow) (rows : List KeyRow) :
    leadColumn (row :: rows) = (leadColumn rows).or
      (if row.seq = some 1 then some (getDataString row.column).1 else none) := by
  unfold leadColumn
  by_cases hseq : row.seq = some 1
  · rw [List.filter_cons_of_pos (by simpa using hseq), List.getLast?_cons, if_pos hseq]
    cases (rows.filter fun row => row.seq = some 1).getLast? <;> rfl
  · rw [List.filter_cons_of_neg (by simpa using hseq), if_neg hseq, Option.or_none]

theorem keyLoop_eq_some {rows : List KeyRow} {st out : KeyScan} :
    keyLoop rows st = some out ↔
      (∀ row ∈ rows, keyRowReadable row = true ∧ keyRowNames row = out.found) ∧
        out.columns = st.columns + rows.length ∧ out.lead = (leadColumn rows).or st.lead ∧
        (st.columns ≠ 0 ∨ rows = [] → out.found = st.found) := by
  induction rows generalizing st with
  | nil =>
      obtain ⟨columns, found, lead⟩ := st
      obtain ⟨columns', found', lead'⟩ := out
      simp only [keyLoop, Option.some.injEq, KeyScan.mk.injEq]
      simp [leadColumn]
      constructor
      · rintro ⟨rfl, rfl, rfl⟩
        exact ⟨rfl, rfl, rfl⟩
      · rintro ⟨rfl, rfl, rfl⟩
        exact ⟨rfl, rfl, rfl⟩
  | cons row rows ih =>
      rw [keyLoop]
      by_cases hread : keyRowReadable row = true
      swap
      · rw [if_pos (by simpa using hread)]
        simp [hread]
      rw [if_neg (by simpa using hread)]
      by_cases hsame : st.columns ≠ 0 ∧ st.found ≠ keyRowNames row
      · rw [if_pos (by simpa using hsame)]
        simp only [reduceCtorEq, false_iff]
        rintro ⟨hall, -, -, hfound⟩
        have hrow := (hall row (by simp)).2
        rw [hfound (Or.inl hsame.1)] at hrow
        exact hsame.2 hrow.symm
      rw [if_neg (by simpa using hsame), ih]
      simp only [List.mem_cons, forall_eq_or_imp, hread, true_and, List.length_cons,
        leadColumn_cons, Nat.add_eq_zero_iff, one_ne_zero, and_false, ne_eq,
        not_false_eq_true, true_or, forall_const, reduceCtorEq, or_false]
      have hlead : ((leadColumn rows).or
          (if row.seq = some 1 then some (getDataString row.column).1 else none)).or st.lead =
          (leadColumn rows).or
            (if row.seq = some 1 then some (getDataString row.column).1 else st.lead) := by
        cases leadColumn rows <;> split <;> rfl
      have hcolumns : st.columns + 1 + rows.length = st.columns + (rows.length + 1) := by omega
      rw [hlead, hcolumns]
      by_cases hzero : st.columns = 0
      · simp only [hzero, if_true, not_true_eq_false, false_implies, and_true]
        constructor
        · rintro ⟨hall, hcols, hl, hfound⟩
          exact ⟨⟨hfound.symm, hall⟩, hcols, hl⟩
        · rintro ⟨⟨hfound, hall⟩, hcols, hl⟩
          exact ⟨hall, hcols, hl, hfound.symm⟩
      · have hstFound : st.found = keyRowNames row := by
          by_contra hne
          exact hsame ⟨hzero, hne⟩
        simp only [hzero, if_false, not_false_eq_true, true_implies]
        constructor
        · rintro ⟨hall, hcols, hl, hfound⟩
          exact ⟨⟨by rw [hfound, hstFound], hall⟩, hcols, hl, hfound⟩
        · rintro ⟨⟨-, hall⟩, hcols, hl, hfound⟩
          exact ⟨hall, hcols, hl, hfound⟩

/-- What `SQLPrimaryKeys` has to answer for the lookup to find column `c` of the table
named `found`: rows of one table only, each of them readable. -/
structure KeysAnswer (rows : List KeyRow) (found : TableRef) (c : List Char) : Prop where
  nonempty : rows ≠ []
  readable : ∀ row ∈ rows, keyRowReadable row = true
  oneTable : ∀ row ∈ rows, keyRowNames row = found
  lead : leadColumn rows = some c
  safe : isSafeIdentifier c = true

theorem primaryKeyLeadColumn_eq_some {rows : List KeyRow} {found : TableRef} {c : List Char} :
    primaryKeyLeadColumn rows = some (found, c) ↔ KeysAnswer rows found c := by
  unfold primaryKeyLeadColumn
  constructor
  · intro h
    split at h
    · cases h
    rename_i st hloop
    split at h
    · cases h
    rename_i column hlead
    split at h
    · cases h
    rename_i hok
    obtain ⟨rfl, rfl⟩ := Prod.mk.inj (Option.some.inj h)
    obtain ⟨hall, hcolumns, hst, -⟩ := keyLoop_eq_some.1 hloop
    rw [hlead, Option.or_none] at hst
    simp only [Nat.lt_one_iff, Bool.or_eq_true, decide_eq_true_eq, Bool.not_eq_true',
      not_or, Bool.not_eq_false] at hok
    refine ⟨?_, fun row hrow => (hall row hrow).1, fun row hrow => (hall row hrow).2, hst.symm,
      hok.2⟩
    rintro rfl
    exact hok.1 hcolumns
  · rintro ⟨hne, hread, hone, hlead, hsafe⟩
    have hloop : keyLoop rows ⟨0, ⟨[], [], []⟩, none⟩ = some ⟨rows.length, found, some c⟩ := by
      rw [keyLoop_eq_some]
      refine ⟨fun row hrow => ⟨hread row hrow, hone row hrow⟩, by simp, by simp [hlead], ?_⟩
      simp [hne]
    have hpos := List.length_pos_iff.2 hne
    rw [hloop]
    simp only [hsafe]
    rw [if_neg (by simp; omega)]

/-! ## Which row decides -/

/-- The table the reference names: the given levels are its own. -/
structure Refers (ref : TableRef) (t : Table) : Prop where
  catalog : literalArg ref.catalog t.catalog = true
  schema : literalArg ref.schema t.schema = true
  name : t.name = ref.table

/-- `row` is the catalog row of the leading primary-key column `c` of `t`, an integer
without nulls. -/
structure OwnKey (t : Table) (c : List Char) (row : ColumnRow) : Prop where
  lead : t.primaryKey.head? = some c
  own : row ∈ columnRowsOf t
  named : row.column = some c
  splittable : splittable row.dataType row.nullable = true

/-- The table of the database that a reference names. -/
structure Referenced (db : List Table) (ref : TableRef) where
  table : Table
  mem : table ∈ db
  refers : Refers ref table

def PicksKey (split : OdbcSplit) : Prop := split.kind = .keyRange ∨ split.kind = .ybHash

/-- The column a key split would be made on, and the catalog row that decides it. -/
def decision (db : List Table) (table : List Char) : Option (List Char × ColumnRow) :=
  (splitTableRef table).bind fun ref =>
    (primaryKeyLeadColumn (sqlPrimaryKeys db ref)).bind fun found =>
      (decidingRow (sqlColumns db found.1) found.2).map fun row => (found.2, row)

/-- The split's expression is built on column `c`. -/
def SplitsOn (server : Server) (split : OdbcSplit) (c : List Char) : Prop :=
  ∃ quoted, writeQuotedIdent server.identifierQuote c = some quoted ∧
    (split.expr = quoted ∨ split.expr = "yb_hash_code(".toList ++ quoted ++ ")".toList)

/-- A key split of `t` is made on the leading column of its own primary key, decided
by its own catalog row. -/
def SoundPick (server : Server) (db : List Table) (table : List Char) (t : Table) : Prop :=
  PicksKey (chooseSplit server db table) → ∃ c row, decision db table = some (c, row) ∧
    OwnKey t c row ∧ SplitsOn server (chooseSplit server db table) c

/-! ## Which table decides, in the database -/

/-- A name that is read whole: there is one, of no more than 127 bytes. -/
def Short (name : List Char) : Prop := name ≠ [] ∧ name.length < identMax

/-- The names of a table as far as they are read. -/
def Table.shown (t : Table) : TableRef :=
  ⟨(t.catalog.getD []).take (identMax - 1), (t.schema.getD []).take (identMax - 1),
    t.name.take (identMax - 1)⟩

/-- The tables with the names of a reference that have a primary key. -/
def keyed (db : List Table) (ref : TableRef) : List Table :=
  db.filter fun t => (literalArg ref.catalog t.catalog && literalArg ref.schema t.schema &&
    t.name == ref.table) && !t.primaryKey.isEmpty

/-- `k` is the one table with the names of the reference and a primary key, as far as names are
read, and `c` the leading column of its key, with a name that can be quoted. -/
structure TheKey (db : List Table) (ref : TableRef) (k : Table) (c : List Char) : Prop where
  last : (keyed db ref).getLast? = some k
  alone : ∀ k' ∈ keyed db ref, k'.shown = k.shown
  readable : ∀ k' ∈ keyed db ref, Short k'.name ∧ ∀ name ∈ k'.primaryKey, Short name
  lead : k.primaryKey.head? = some c
  safe : isSafeIdentifier c = true

/-- The columns of the tables that match names as patterns, in the order of the catalog. -/
def matching (db : List Table) (names : TableRef) : List (Table × Column) :=
  (db.filter fun t => literalArg names.catalog t.catalog && patternArg names.schema t.schema &&
    likeMatch names.table t.name).flatMap fun t => t.columns.map fun col => (t, col)

/-- The column is that of the leading column of the table's own primary key. -/
structure OwnColumn (t : Table) (c : List Char) (u : Table) (col : Column) : Prop where
  sameTable : u.catalog = t.catalog ∧ u.schema = t.schema ∧ u.name = t.name
  own : col ∈ t.columns
  lead : t.primaryKey.head? = some c

/-- Another table decides: the first column of the key's name, among the tables whose names match
those of the key's table as patterns, is an integer without nulls, and it is not the leading key
column of `t` itself. -/
def Misled (db : List Table) (ref : TableRef) (t : Table) : Prop :=
  ∃ k c u col, TheKey db ref k c ∧
    (matching db k.shown).find? (fun e => e.2.name = c) = some (u, col) ∧
    splittable col.dataType col.nullable = true ∧ ¬ OwnColumn t c u col

theorem getDataString_fst (value : Option (List Char)) :
    (getDataString value).1 = (value.getD []).take (identMax - 1) := by
  unfold getDataString
  cases value with
  | none => rfl
  | some name =>
      by_cases hlen : name.length < identMax
      · dsimp only
        rw [if_pos hlen, Option.getD_some, List.take_of_length_le (Nat.le_sub_one_of_lt hlen)]
      · dsimp only
        rw [if_neg hlen, Option.getD_some]

theorem getDataString_snd (name : List Char) :
    (getDataString (some name)).2 = true ↔ Short name := by
  unfold getDataString Short
  by_cases hlen : name.length < identMax
  · simp [hlen]
  · simp [hlen]

theorem getDataString_short {name : List Char} (h : Short name) :
    (getDataString (some name)).1 = name := by
  rw [getDataString_fst, Option.getD_some, List.take_of_length_le (Nat.le_sub_one_of_lt h.2)]

/-- A column is read as this one exactly if it is this one. -/
theorem read_as_iff {c : List Char} (hc : Short c) (name : List Char) :
    ((getDataString (some name)).2 && (getDataString (some name)).1 == c) = true ↔ name = c := by
  rw [Bool.and_eq_true, beq_iff_eq, getDataString_snd]
  constructor
  · rintro ⟨hshort, hsame⟩
    rwa [getDataString_short hshort] at hsame
  · rintro rfl
    exact ⟨hc, getDataString_short hc⟩

/-- What contributes nothing may be filtered out. -/
theorem flatMap_filter_and {α β : Type} {p q : α → Bool} {f : α → List β}
    (h : ∀ a, q a = false → f a = []) (l : List α) :
    (l.filter fun a => p a && q a).flatMap f = (l.filter p).flatMap f := by
  induction l with
  | nil => rfl
  | cons a l ih =>
      rw [List.filter_cons, List.filter_cons]
      cases hp : p a with
      | false => simpa using ih
      | true =>
          cases hq : q a with
          | false => simpa [h a hq] using ih
          | true => simpa using ih

theorem sqlPrimaryKeys_keyed (db : List Table) (ref : TableRef) :
    sqlPrimaryKeys db ref = (keyed db ref).flatMap keyRowsOf := by
  refine (flatMap_filter_and (fun t hkey => ?_) db).symm
  rw [Bool.not_eq_false', List.isEmpty_iff] at hkey
  unfold keyRowsOf
  rw [hkey]
  rfl

theorem leadColumn_append (rows rows' : List KeyRow) :
    leadColumn (rows ++ rows') = (leadColumn rows').or (leadColumn rows) := by
  induction rows with
  | nil =>
      have hnil : leadColumn [] = none := rfl
      rw [List.nil_append, hnil, Option.or_none]
  | cons row rows ih =>
      rw [List.cons_append, leadColumn_cons, leadColumn_cons, ih, Option.or_assoc]

theorem leadColumn_keyRowsOf (t : Table) :
    leadColumn (keyRowsOf t) = t.primaryKey.head?.map fun c => (getDataString (some c)).1 := by
  have hlater (names : List (List Char)) (n : Nat) (hn : n ≠ 0) :
      leadColumn ((names.zipIdx n).map fun c =>
        ⟨t.catalog, t.schema, some t.name, some c.1, some (c.2 + 1)⟩) = none := by
    induction names generalizing n with
    | nil => rfl
    | cons name names ih =>
        rw [List.zipIdx_cons, List.map_cons, leadColumn_cons, ih (n + 1) (Nat.succ_ne_zero n),
          Option.none_or, if_neg]
        simp only [Option.some.injEq]
        omega
  unfold keyRowsOf
  cases t.primaryKey with
  | nil => rfl
  | cons c names =>
      rw [List.zipIdx_cons, List.map_cons, leadColumn_cons, hlater names _ (by omega),
        Option.none_or]
      rfl

theorem mem_keyed_ne_nil {db : List Table} {ref : TableRef} {t : Table} (h : t ∈ keyed db ref) :
    t.primaryKey ≠ [] := by
  have hmem := (List.mem_filter.mp h).2
  rw [Bool.and_eq_true] at hmem
  simpa using hmem.2

theorem keyRowNames_shown {t : Table} {row : KeyRow} (h : row ∈ keyRowsOf t) :
    keyRowNames row = t.shown := by
  obtain ⟨c, -, rfl⟩ := List.mem_map.mp h
  unfold keyRowNames Table.shown
  rw [getDataString_fst, getDataString_fst, getDataString_fst, Option.getD_some]

theorem keyRow_readable {t : Table} :
    (∀ row ∈ keyRowsOf t, keyRowReadable row = true) ↔
      ∀ name ∈ t.primaryKey, Short t.name ∧ Short name := by
  have hrow (c : List Char × Nat) : keyRowReadable
      ⟨t.catalog, t.schema, some t.name, some c.1, some (c.2 + 1)⟩ = true ↔
        Short t.name ∧ Short c.1 := by
    simp only [keyRowReadable, Bool.and_eq_true, getDataString_snd, Option.isSome_some, and_true]
  unfold keyRowsOf
  rw [List.forall_mem_map]
  simp only [hrow]
  constructor
  · intro h name hname
    obtain ⟨i, hi, rfl⟩ := List.mem_iff_getElem.mp hname
    exact h (t.primaryKey[i], i) (List.mk_mem_zipIdx_iff_getElem?.mpr (List.getElem?_eq_getElem hi))
  · rintro h ⟨name, i⟩ hmem
    exact h name (List.mem_of_getElem? (List.mk_mem_zipIdx_iff_getElem?.mp hmem))

/-- The key lookup finds the leading column of the one table with a key. -/
theorem keysAnswer_iff {db : List Table} {ref found : TableRef} {c : List Char} :
    KeysAnswer (sqlPrimaryKeys db ref) found c ↔ ∃ k, TheKey db ref k c ∧ found = k.shown := by
  rw [sqlPrimaryKeys_keyed]
  rcases List.eq_nil_or_concat (keyed db ref) with hnil | ⟨ks, k, hks⟩
  · rw [hnil]
    constructor
    · exact fun h => absurd rfl h.nonempty
    · rintro ⟨k, hkey, -⟩
      have hlast := hkey.last
      rw [hnil] at hlast
      cases hlast
  have hlast : (keyed db ref).getLast? = some k := by
    rw [hks, List.concat_eq_append, List.getLast?_concat]
  have hmem : k ∈ keyed db ref := List.mem_of_getLast? hlast
  obtain ⟨lead, names, hpk⟩ := List.exists_cons_of_ne_nil (mem_keyed_ne_nil hmem)
  have hlead : leadColumn ((keyed db ref).flatMap keyRowsOf) =
      some (getDataString (some lead)).1 := by
    rw [hks, List.concat_eq_append, List.flatMap_append, leadColumn_append, List.flatMap_singleton,
      leadColumn_keyRowsOf, hpk]
    rfl
  constructor
  · rintro ⟨hne, hread, hone, hfound, hsafe⟩
    have hreadable : ∀ k' ∈ keyed db ref, Short k'.name ∧ ∀ name ∈ k'.primaryKey, Short name := by
      intro k' hk'
      have hall := keyRow_readable.mp fun row hrow =>
        hread row (List.mem_flatMap.mpr ⟨k', hk', hrow⟩)
      obtain ⟨name, names, hpk'⟩ := List.exists_cons_of_ne_nil (mem_keyed_ne_nil hk')
      exact ⟨(hall name (hpk' ▸ List.mem_cons_self)).1, fun name hname => (hall name hname).2⟩
    have hshown : ∀ k' ∈ keyed db ref, k'.shown = found := by
      intro k' hk'
      obtain ⟨name, names, hpk'⟩ := List.exists_cons_of_ne_nil (mem_keyed_ne_nil hk')
      have hrow : (⟨k'.catalog, k'.schema, some k'.name, some name, some (0 + 1)⟩ : KeyRow) ∈
          keyRowsOf k' := by
        unfold keyRowsOf
        rw [hpk', List.zipIdx_cons, List.map_cons]
        exact List.mem_cons_self
      rw [← keyRowNames_shown hrow]
      exact hone _ (List.mem_flatMap.mpr ⟨k', hk', hrow⟩)
    have hshort : Short lead := (hreadable k hmem).2 lead (hpk ▸ List.mem_cons_self)
    rw [hlead, getDataString_short hshort, Option.some.injEq] at hfound
    refine ⟨k, ⟨hlast, fun k' hk' => ?_, hreadable, ?_, hsafe⟩, (hshown k hmem).symm⟩
    · rw [hshown k' hk', hshown k hmem]
    · rw [hpk, hfound]
      rfl
  · rintro ⟨k', ⟨hlast', halone, hreadable, hlead', hsafe⟩, rfl⟩
    rw [hlast, Option.some.injEq] at hlast'
    subst hlast'
    rw [hpk, List.head?_cons, Option.some.injEq] at hlead'
    subst hlead'
    have hshort : Short lead := (hreadable k hmem).2 lead (hpk ▸ List.mem_cons_self)
    refine ⟨fun hnil => ?_, fun row hrow => ?_, fun row hrow => ?_, ?_, hsafe⟩
    · rw [hnil] at hlead
      cases hlead
    · obtain ⟨k', hk', hrow⟩ := List.mem_flatMap.mp hrow
      obtain ⟨hname, hnames⟩ := hreadable k' hk'
      exact keyRow_readable.mpr (fun name h => ⟨hname, hnames name h⟩) row hrow
    · obtain ⟨k', hk', hrow⟩ := List.mem_flatMap.mp hrow
      rw [keyRowNames_shown hrow, halone k' hk']
    · rw [hlead, getDataString_short hshort]

/-- The row of a column. -/
def columnRow (e : Table × Column) : ColumnRow :=
  ⟨e.1.catalog, e.1.schema, some e.1.name, some e.2.name, e.2.dataType, e.2.nullable⟩

theorem sqlColumns_matching (db : List Table) (names : TableRef) :
    sqlColumns db names = (matching db names).map columnRow := by
  unfold sqlColumns matching
  rw [List.map_flatMap]
  congr 1
  funext t
  unfold columnRowsOf
  rw [List.map_map]
  rfl

/-- The row that decides is that of the first column of this name. -/
theorem decidingRow_matching {c : List Char} (hc : Short c) (db : List Table) (names : TableRef) :
    decidingRow (sqlColumns db names) c =
      ((matching db names).find? fun e => e.2.name = c).map columnRow := by
  unfold decidingRow
  rw [sqlColumns_matching, List.find?_map]
  congr 2
  funext e
  rw [Bool.eq_iff_iff, decide_eq_true_eq]
  exact read_as_iff hc e.2.name

theorem ownKey_iff {t u : Table} {c : List Char} {col : Column} (hname : col.name = c)
    (hsplit : splittable col.dataType col.nullable = true) :
    OwnKey t c (columnRow (u, col)) ↔ OwnColumn t c u col := by
  constructor
  · rintro ⟨hlead, hown, -, -⟩
    obtain ⟨col', hcol', hrow⟩ := List.mem_map.mp hown
    simp only [columnRow, ColumnRow.mk.injEq, Option.some.injEq] at hrow
    obtain ⟨hcatalog, hschema, htable, hcolumn, htype, hnulls⟩ := hrow
    have hsame : col' = col := by
      obtain ⟨name, type, nulls⟩ := col
      obtain ⟨name', type', nulls'⟩ := col'
      rw [Column.mk.injEq]
      exact ⟨hcolumn, htype, hnulls⟩
    exact ⟨⟨hcatalog.symm, hschema.symm, htable.symm⟩, hsame ▸ hcol', hlead⟩
  · rintro ⟨⟨hcatalog, hschema, htable⟩, hown, hlead⟩
    refine ⟨hlead, List.mem_map.mpr ⟨col, hown, ?_⟩, congrArg some hname, hsplit⟩
    simp only [columnRow, hcatalog, hschema, htable]

/-- What misleads the lookups is what the database holds. -/
theorem misled_iff {db : List Table} {ref : TableRef} {t : Table} :
    Misled db ref t ↔ ∃ found c row, KeysAnswer (sqlPrimaryKeys db ref) found c ∧
      decidingRow (sqlColumns db found) c = some row ∧
      splittable row.dataType row.nullable = true ∧ ¬ OwnKey t c row := by
  have hshort {k : Table} {c : List Char} (h : TheKey db ref k c) : Short c :=
    (h.readable k (List.mem_of_getLast? h.last)).2 c (List.mem_of_head? h.lead)
  have hname {k u : Table} {c : List Char} {col : Column}
      (h : (matching db k.shown).find? (fun e => e.2.name = c) = some (u, col)) : col.name = c := by
    simpa using List.find?_some h
  constructor
  · rintro ⟨k, c, u, col, hkey, hfirst, hsplit, hnot⟩
    refine ⟨k.shown, c, columnRow (u, col), keysAnswer_iff.mpr ⟨k, hkey, rfl⟩, ?_, hsplit, ?_⟩
    · rw [decidingRow_matching (hshort hkey), hfirst]
      rfl
    · exact fun hown => hnot ((ownKey_iff (hname hfirst) hsplit).mp hown)
  · rintro ⟨found, c, row, hkeys, hrow, hsplit, hnot⟩
    obtain ⟨k, hkey, rfl⟩ := keysAnswer_iff.mp hkeys
    rw [decidingRow_matching (hshort hkey)] at hrow
    obtain ⟨⟨u, col⟩, hfirst, rfl⟩ := Option.map_eq_some_iff.mp hrow
    refine ⟨k, c, u, col, hkey, hfirst, hsplit, ?_⟩
    exact fun hown => hnot ((ownKey_iff (hname hfirst) hsplit).mpr hown)

section Choice

variable {server : Server} {db : List Table} {table : List Char}

theorem splitOnKey_splitsOn {c : List Char} (h : PicksKey (splitOnKey server table c)) :
    SplitsOn server (splitOnKey server table c) c := by
  unfold splitOnKey at h ⊢
  cases hquoted : writeQuotedIdent server.identifierQuote c with
  | none => simp [hquoted, noSplit, PicksKey] at h
  | some quoted =>
      simp only [hquoted] at h ⊢
      generalize (if dbmsIsPostgres server = true then pgIndexFacts server table c
        else some noFacts) = facts at h ⊢
      cases facts with
      | none => simp [noSplit, PicksKey] at h
      | some facts =>
          simp only at h ⊢
          by_cases hhash : facts.leadIsHash = true
          · rw [if_pos hhash] at h ⊢
            by_cases hrefuse : (!facts.hasYbHashCode || decide (facts.hashColumns ≠ 1)) = true
            · rw [if_pos hrefuse] at h
              exact absurd h (by simp [PicksKey, noSplit])
            · rw [if_neg hrefuse]
              exact ⟨quoted, hquoted, Or.inr rfl⟩
          · rw [if_neg hhash] at h ⊢
            cases hextent : expressionExtent server table quoted with
            | none =>
                rw [hextent] at h
                exact absurd h (by simp [PicksKey, noSplit])
            | some extent => exact ⟨quoted, hquoted, Or.inl rfl⟩

theorem not_picksKey_noSplit : ¬ PicksKey noSplit := by simp [PicksKey, noSplit]

theorem primaryKeyLeadColumn_nil : primaryKeyLeadColumn [] = none := rfl

/-- What a key split goes through. -/
theorem chooseSplit_picks (h : PicksKey (chooseSplit server db table)) :
    ∃ ref found c row, splitTableRef table = some ref ∧
      primaryKeyLeadColumn (sqlPrimaryKeys db ref) = some (found, c) ∧
      decidingRow (sqlColumns db found) c = some row ∧
      splittable row.dataType row.nullable = true ∧
      chooseSplit server db table = splitOnKey server table c := by
  unfold chooseSplit at h ⊢
  cases hheap : (if dbmsIsPostgres server = true then postgresHeapBlocks server table
    else none) with
  | some blocks =>
      rw [hheap] at h
      exact absurd h (by simp [PicksKey])
  | none =>
      simp only [hheap] at h ⊢
      cases hkey : keyAnswer server db table with
      | none =>
          rw [hkey] at h
          exact absurd h not_picksKey_noSplit
      | some answer =>
          obtain ⟨found, c⟩ := answer
          simp only [hkey] at h ⊢
          by_cases hcol : columnIsSplittableInteger
              (if server.columnsCall = true then sqlColumns db found else []) c = true
          swap
          · rw [if_neg hcol] at h
            exact absurd h not_picksKey_noSplit
          rw [if_pos hcol]
          unfold keyAnswer at hkey
          obtain ⟨ref, href, hlead⟩ := Option.bind_eq_some_iff.1 hkey
          have hkeys : server.primaryKeysCall = true := by
            by_contra hcall
            rw [if_neg hcall, primaryKeyLeadColumn_nil] at hlead
            cases hlead
          rw [if_pos hkeys] at hlead
          unfold columnIsSplittableInteger at hcol
          cases hrow : decidingRow (if server.columnsCall = true then sqlColumns db found
              else []) c with
          | none => simp [hrow] at hcol
          | some row =>
              have hcolumns : server.columnsCall = true := by
                by_contra hcall
                rw [if_neg hcall] at hrow
                cases hrow
              rw [if_pos hcolumns] at hrow
              simp only [if_pos hcolumns, hrow] at hcol
              exact ⟨ref, found, c, row, href, hlead, hrow, by simpa using hcol, rfl⟩

theorem getDataString_whole {value : Option (List Char)}
    (h : (getDataString value).2 = true) :
    value = some (getDataString value).1 ∧ (getDataString value).1.length < identMax ∧
      (getDataString value).1 ≠ [] := by
  unfold getDataString at h ⊢
  cases value with
  | none => cases h
  | some s =>
      by_cases hlen : s.length < identMax
      · simp only [if_pos hlen] at h ⊢
        exact ⟨trivial, hlen, by simpa using h⟩
      · simp only [if_neg hlen] at h
        cases h

theorem decidingRow_spec {rows : List ColumnRow} {c : List Char} {row : ColumnRow}
    (h : decidingRow rows c = some row) :
    row ∈ rows ∧ row.column = some c ∧ c.length < identMax ∧ c ≠ [] := by
  have hmem := List.mem_of_find?_eq_some h
  have hrow := List.find?_some h
  simp only [Bool.and_eq_true, beq_iff_eq] at hrow
  obtain ⟨hvalue, hlen, hne⟩ := getDataString_whole hrow.1
  rw [hrow.2] at hvalue hlen hne
  exact ⟨hmem, hvalue, hlen, hne⟩

theorem splitDots_ne_nil (text : List Char) : splitDots text ≠ [] := by
  cases text with
  | nil => simp [splitDots]
  | cons c cs =>
      rw [splitDots]
      split
      · exact List.cons_ne_nil _ _
      · split <;> exact List.cons_ne_nil _ _

/-- Dots and parts make up the whole reference. -/
theorem splitDots_length (text : List Char) :
    ((splitDots text).map fun part => part.length + 1).sum = text.length + 1 := by
  induction text with
  | nil => rfl
  | cons c cs ih =>
      rw [splitDots]
      split
      · simp [ih]
        omega
      · cases hparts : splitDots cs with
        | nil => exact absurd hparts (splitDots_ne_nil cs)
        | cons part parts =>
            rw [hparts] at ih
            simp at ih ⊢
            omega

theorem splitTableRef_length {ref : TableRef} (h : splitTableRef table = some ref) :
    table.length < 3 * identMax := by
  have hlen := splitDots_length table
  unfold splitTableRef at h
  simp only at h
  split at h
  swap
  · cases h
  rename_i hall
  simp only [List.all_eq_true, Bool.and_eq_true, decide_eq_true_eq] at hall
  generalize splitDots table = parts at h hlen hall
  match parts, h with
  | [a], _ =>
      have ha := (hall a (by simp)).2
      simp at hlen
      omega
  | [a, b], _ =>
      have ha := (hall a (by simp)).2
      have hb := (hall b (by simp)).2
      simp at hlen
      omega
  | [a, b, c], _ =>
      have ha := (hall a (by simp)).2
      have hb := (hall b (by simp)).2
      have hc := (hall c (by simp)).2
      simp at hlen
      omega

/-- A server with a hash-partitioned key, which needs no extent to be split. -/
def hashServer : Server where
  dbmsName := "PostgreSQL".toList
  quoteChar := some '\x22'
  primaryKeysCall := true
  columnsCall := true
  heapBlocks := fun _ => none
  indexFacts := fun _ => some (1, 1, 1, none)
  minMax := fun _ => none

theorem postgresHeapBlocks_hashServer (table : List Char) :
    postgresHeapBlocks hashServer table = none := by
  unfold postgresHeapBlocks
  split
  · simp only
    split
    · rfl
    · rfl
  · rfl

theorem pgIndexFacts_hashServer {c : List Char} (htable : table.length < 3 * identMax)
    (hc : c.length < identMax) :
    pgIndexFacts hashServer table c = some ⟨true, 1, true, -1⟩ := by
  have hmax : identMax = 128 := rfl
  unfold pgIndexFacts
  simp only
  rw [if_pos]
  · rfl
  · have hhead : pgIndexHead.length = 385 := by decide +kernel
    have hmiddle : pgIndexMiddle.length = 39 := by decide
    simp only [List.length_append, hhead, hmiddle, List.length_singleton]
    omega

/-- The hash-partitioned server splits whatever key the catalog gates let through. -/
theorem chooseSplit_hashServer {ref found : TableRef} {c : List Char} {row : ColumnRow}
    (href : splitTableRef table = some ref)
    (hkeys : primaryKeyLeadColumn (sqlPrimaryKeys db ref) = some (found, c))
    (hrow : decidingRow (sqlColumns db found) c = some row)
    (hsplit : splittable row.dataType row.nullable = true) :
    PicksKey (chooseSplit hashServer db table) := by
  obtain ⟨-, -, hc, hne⟩ := decidingRow_spec hrow
  have hpg : dbmsIsPostgres hashServer = true := by decide
  have hmax : identMax = 128 := rfl
  have hpos := List.length_pos_iff.2 hne
  have hquote : hashServer.identifierQuote = some '\x22' := rfl
  have hquoted : writeQuotedIdent hashServer.identifierQuote c =
      some ('\x22' :: (c ++ ['\x22'])) := by
    rw [hquote]
    unfold writeQuotedIdent
    simp
    omega
  have hanswer : keyAnswer hashServer db table = some (found, c) := by
    rw [keyAnswer, href]
    exact hkeys
  have hcolumn : columnIsSplittableInteger (sqlColumns db found) c = true := by
    rw [columnIsSplittableInteger, hrow]
    exact hsplit
  unfold chooseSplit
  rw [if_pos hpg, postgresHeapBlocks_hashServer]
  simp only [hanswer]
  rw [if_pos (show hashServer.columnsCall = true from rfl), if_pos hcolumn, splitOnKey]
  simp only [hquoted, hpg, if_true, pgIndexFacts_hashServer (splitTableRef_length href) hc]
  exact Or.inr rfl

theorem soundPick_of_not_misled {ref : TableRef} {t : Table}
    (href : splitTableRef table = some ref) (hnot : ¬ Misled db ref t) (server : Server) :
    SoundPick server db table t := by
  intro hpicks
  obtain ⟨ref', found, c, row, href', hlead, hrow, hsplit, hsame⟩ := chooseSplit_picks hpicks
  rw [href] at href'
  cases href'
  refine ⟨c, row, by simp [decision, href, hlead, hrow], ?_, ?_⟩
  · by_contra hown
    exact hnot (misled_iff.mpr
      ⟨found, c, row, primaryKeyLeadColumn_eq_some.1 hlead, hrow, hsplit, hown⟩)
  · rw [hsame] at hpicks ⊢
    exact splitOnKey_splitsOn hpicks

/-- Key splits of the table a reference names are sound on every server if and only if
the database does not let another table decide. -/
theorem soundPick_iff_not_misled (db : List Table) (table : List Char) (ref : TableRef)
    (href : splitTableRef table = some ref) (t : Referenced db ref) :
    (∀ server, SoundPick server db table t.table) ↔ ¬ Misled db ref t.table := by
  constructor
  · intro hsound hmisled
    obtain ⟨found, c, row, hkeys, hrow, hsplit, hnot⟩ := misled_iff.mp hmisled
    have hlead := primaryKeyLeadColumn_eq_some.2 hkeys
    obtain ⟨c', row', hdecision, hown, -⟩ :=
      hsound hashServer (chooseSplit_hashServer href hlead hrow hsplit)
    have heq : decision db table = some (c, row) := by simp [decision, href, hlead, hrow]
    rw [heq] at hdecision
    cases hdecision
    exact hnot hown
  · exact fun hnot server => soundPick_of_not_misled href hnot server

/-! ## What is true of every split -/

/-- A quoted key column is a text of C. -/
theorem nul_notMem_quoted {c quoted : List Char} (hsafe : isSafeIdentifier c = true)
    (h : writeQuotedIdent server.identifierQuote c = some quoted) : '\x00' ∉ quoted := by
  have hc : '\x00' ∉ c := by
    unfold isSafeIdentifier at hsafe
    rw [Bool.and_eq_true, List.all_eq_true] at hsafe
    intro hmem
    exact absurd (hsafe.2 _ hmem) (by decide)
  have hquote : ∀ q ∈ server.identifierQuote, q ≠ '\x00' := by
    intro q hq
    have hfilter := (Option.filter_eq_some_iff.mp hq).2
    exact (of_decide_eq_true hfilter).2
  unfold writeQuotedIdent at h
  cases hq : server.identifierQuote with
  | none =>
      rw [hq] at h
      dsimp only at h
      split at h
      · exact Option.some.inj h ▸ hc
      · cases h
  | some q =>
      rw [hq] at h
      dsimp only at h
      split at h
      · rw [← Option.some.inj h]
        simp [hc, (hquote q hq).symm]
      · cases h

theorem expressionExtent_le {expr : List Char} {lo hi : Int64}
    (h : expressionExtent server table expr = some (lo, hi)) : lo ≤ hi := by
  unfold expressionExtent at h
  dsimp only at h
  split at h
  · split at h
    · split at h
      · rename_i hle
        obtain ⟨rfl, rfl⟩ := Prod.mk.inj (Option.some.inj h)
        exact hle
      · cases h
    · cases h
  · cases h

theorem splitOnKey_spec {c : List Char} (hsafe : isSafeIdentifier c = true)
    (h : PicksKey (splitOnKey server table c)) :
    (splitOnKey server table c).lo ≤ (splitOnKey server table c).hi ∧
      '\x00' ∉ (splitOnKey server table c).expr := by
  obtain ⟨quoted, hquoted, hexpr⟩ := splitOnKey_splitsOn h
  have hnul := nul_notMem_quoted hsafe hquoted
  constructor
  · unfold splitOnKey at h ⊢
    simp only [hquoted] at h ⊢
    generalize (if dbmsIsPostgres server = true then pgIndexFacts server table c
      else some noFacts) = facts at h ⊢
    cases facts with
    | none => exact absurd h not_picksKey_noSplit
    | some facts =>
        dsimp only at h ⊢
        split
        · rename_i hhash
          rw [if_pos hhash] at h
          split
          · exact Int64.le_refl _
          · exact show (0 : Int64) ≤ 65535 by decide
        · cases hextent : expressionExtent server table quoted with
          | none => exact Int64.le_refl _
          | some extent => exact expressionExtent_le hextent
  · rcases hexpr with hexpr | hexpr
    · rw [hexpr]
      exact hnul
    · rw [hexpr]
      simp [hnul]

theorem splitOnKey_picks {c : List Char} (h : (splitOnKey server table c).kind ≠ .none) :
    PicksKey (splitOnKey server table c) := by
  unfold splitOnKey at h ⊢
  cases hquoted : writeQuotedIdent server.identifierQuote c with
  | none => simp [hquoted, noSplit] at h
  | some quoted =>
      simp only [hquoted] at h ⊢
      generalize (if dbmsIsPostgres server = true then pgIndexFacts server table c
        else some noFacts) = facts at h ⊢
      cases facts with
      | none => exact absurd rfl h
      | some facts =>
          dsimp only at h ⊢
          by_cases hhash : facts.leadIsHash = true
          · rw [if_pos hhash] at h ⊢
            by_cases hrefuse : (!facts.hasYbHashCode || decide (facts.hashColumns ≠ 1)) = true
            · rw [if_pos hrefuse] at h
              exact absurd rfl h
            · rw [if_neg hrefuse]
              exact .inr rfl
          · rw [if_neg hhash] at h ⊢
            cases hextent : expressionExtent server table quoted with
            | none =>
                rw [hextent] at h
                exact absurd rfl h
            | some extent => exact .inl rfl

theorem postgresHeapBlocks_pos {blocks : Int64}
    (h : postgresHeapBlocks server table = some blocks) : 0 < blocks := by
  unfold postgresHeapBlocks at h
  dsimp only at h
  split at h
  · split at h
    · split at h
      · split at h
        · rename_i hpos
          exact Option.some.inj h ▸ hpos
        · cases h
      · cases h
    · cases h
  · cases h

/-- A split is by heap blocks or by the key; it has an extent, and its expression is a text of
C. -/
theorem chooseSplit_spec (h : (chooseSplit server db table).kind ≠ .none) :
    ((chooseSplit server db table).expr = "ctid".toList ∨
        PicksKey (chooseSplit server db table)) ∧
      (chooseSplit server db table).lo ≤ (chooseSplit server db table).hi ∧
      '\x00' ∉ (chooseSplit server db table).expr := by
  unfold chooseSplit at h ⊢
  cases hheap : (if dbmsIsPostgres server = true then postgresHeapBlocks server table
    else none) with
  | some blocks =>
      have hpos : 0 < blocks := by
        split at hheap
        · exact postgresHeapBlocks_pos hheap
        · cases hheap
      have hexpr : '\x00' ∉ "ctid".toList := by decide
      exact ⟨.inl rfl, Int64.le_of_lt hpos, hexpr⟩
  | none =>
      simp only [hheap] at h ⊢
      cases hkey : keyAnswer server db table with
      | none =>
          rw [hkey] at h
          exact absurd rfl h
      | some answer =>
          obtain ⟨found, c⟩ := answer
          simp only [hkey] at h ⊢
          by_cases hcol : columnIsSplittableInteger
              (if server.columnsCall = true then sqlColumns db found else []) c = true
          swap
          · rw [if_neg hcol] at h
            exact absurd rfl h
          rw [if_pos hcol] at h ⊢
          obtain ⟨ref, -, hlead⟩ := Option.bind_eq_some_iff.1 hkey
          have hsafe := (primaryKeyLeadColumn_eq_some.1 hlead).safe
          have hpicks := splitOnKey_picks h
          exact ⟨.inr hpicks, splitOnKey_spec hsafe hpicks⟩

end Choice

/-! ## A look-alike -/

/-- A table whose key may be `NULL`. -/
def nullableKey : Table :=
  ⟨none, none, "a_b".toList, [⟨"id".toList, some sqlInteger, some 1⟩], ["id".toList]⟩

/-- A table whose name matches `a_b` as a pattern and sorts before it. -/
def lookalike : Table :=
  ⟨none, none, "aXb".toList, [⟨"id".toList, some sqlInteger, some sqlNoNulls⟩], []⟩

/-- A server that answers the extent of a key. -/
def extentServer : Server where
  dbmsName := "SQLite".toList
  quoteChar := some '\x22'
  primaryKeysCall := true
  columnsCall := true
  heapBlocks := fun _ => none
  indexFacts := fun _ => none
  minMax := fun _ => some (0, 1000)

/-- The look-alike decides that the nullable key is split. -/
theorem lookalike_decides :
    chooseSplit extentServer [lookalike, nullableKey] "a_b".toList =
        ⟨.keyRange, ['\x22', 'i', 'd', '\x22'], 0, 1000, 0⟩ ∧
      ¬ SoundPick extentServer [lookalike, nullableKey] "a_b".toList nullableKey := by
  have hpick : chooseSplit extentServer [lookalike, nullableKey] "a_b".toList =
      ⟨.keyRange, ['\x22', 'i', 'd', '\x22'], 0, 1000, 0⟩ := by decide
  refine ⟨hpick, fun hsound => ?_⟩
  obtain ⟨c, row, -, hown, -⟩ := hsound (by rw [hpick]; exact Or.inl rfl)
  have hrow : row = ⟨none, none, some "a_b".toList, some "id".toList, some sqlInteger, some 1⟩ :=
    List.mem_singleton.1 hown.own
  have hsplittable := hown.splittable
  rw [hrow] at hsplittable
  revert hsplittable
  decide

/-- A table with an integer key that is never `NULL`. -/
def integerKey : Table :=
  ⟨none, none, "a_b".toList, [⟨"id".toList, some sqlInteger, some sqlNoNulls⟩], ["id".toList]⟩

/-- A table that is alone decides about itself. -/
theorem not_misled_alone (t : Table) (ref : TableRef) : ¬ Misled [t] ref t := by
  rintro ⟨k, c, u, col, hkey, hfirst, -, hnot⟩
  have hk : k = t :=
    List.mem_singleton.1 (List.mem_filter.1 (List.mem_of_getLast? hkey.last)).1
  obtain ⟨t', ht', hmem⟩ := List.mem_flatMap.1 (List.mem_of_find?_eq_some hfirst)
  obtain ⟨col', hcol', hentry⟩ := List.mem_map.1 hmem
  obtain ⟨rfl, rfl⟩ := Prod.mk.inj hentry
  have hu := List.mem_singleton.1 (List.mem_filter.1 ht').1
  subst hu
  exact hnot ⟨⟨rfl, rfl, rfl⟩, hcol', hk ▸ hkey.lead⟩

/-- On its own, an integer key decides its own split. -/
theorem soundPick_alone : SoundPick extentServer [integerKey] "a_b".toList integerKey :=
  (soundPick_iff_not_misled [integerKey] "a_b".toList ⟨[], [], "a_b".toList⟩ (by decide)
    ⟨integerKey, by simp, ⟨by decide, by decide, rfl⟩⟩).2
    (not_misled_alone integerKey ⟨[], [], "a_b".toList⟩) extentServer

end AdbcBridge.Partition.Catalog
