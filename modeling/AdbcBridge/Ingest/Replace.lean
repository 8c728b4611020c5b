import AdbcBridge.Ingest.Ddl
import AdbcBridge.Lib.Loop

/-!
# Replacing a table

`OdbcStatementIngest` up to the insert: the `DROP` of replace mode, the column
definitions, the `CREATE` and its recoveries.  What the driver and the server
answer is an argument, the table behind the target's name is followed through.
-/

namespace AdbcBridge.Ingest.Replace

open AdbcBridge.Adbc AdbcBridge.Ingest.Ddl

variable {τ : Type*}

/-- `ADBC_INGEST_OPTION_MODE_*`. -/
inductive IngestMode where
  | create
  | append
  | replace
  | createAppend
deriving DecidableEq, Repr

/-- The fields of the statement that the ingest reads and writes; `ref` is whether
it holds an ODBC handle. -/
structure OdbcStatement where
  hasBind : Bool
  ref : Bool := false
  prepared : Bool := false
  query : Option (List Char) := none
  ingestMode : Option IngestMode
  ingestTemporary : Bool := false
  target : Target
  ingestInto : Option (List Char) := none
deriving DecidableEq, Repr

/-- A statement of the data definition language, with its text. -/
inductive Ddl where
  | drop (sql : List Char)
  | create (sql : List Char)
deriving DecidableEq, Repr

def Ddl.sql : Ddl → List Char
  | .drop sql => sql
  | .create sql => sql

/-- What has been sent so far and the table behind the target's name. -/
structure World (τ : Type*) where
  sent : List Ddl
  table : Option τ

/-- How one `ExecSimple` goes: whether it gets a handle, whether the text reaches the
driver (a wide one needs memory first), whether the call succeeds, what
`OdbcSetError` reports if not, and what the server makes of the table. -/
structure ExecAnswer (τ : Type*) where
  allocates : Bool
  sends : Bool
  succeeds : Bool
  failure : AdbcError
  after : Option τ → Option τ

/-- The answers of an ingest: the bound stream's schema, the driver's quote and type
names, the two statements, `IngestTableExists`, `IngestCheckAppendable` and the load
of the rows. -/
structure Driver (τ : Type*) where
  getSchema : Except (List Char) (List ArrowSchema)
  quoteChar : Option (List Char)
  typeInfo : SqlType → Option TypeInfoRow
  drop : ExecAnswer τ
  create : ExecAnswer τ
  tableExists : Bool
  checkAppendable : Option AdbcError
  load : Option AdbcError
  loaded : Option τ → Option τ

/-- `ExecSimple`. -/
def execSimple (a : ExecAnswer τ) (ignoreError : Bool) (stmt : Ddl) (w : World τ) :
    World τ × Option AdbcError :=
  if ¬ a.allocates then (w, some a.failure)
  else if ¬ a.sends then (w, if ignoreError then none else some a.failure)
  else
    (⟨w.sent ++ [stmt], a.after w.table⟩,
      if a.succeeds ∨ ignoreError then none else some a.failure)

/-- What the code makes of a failed `CREATE`: the catalog may know that the table
exists, and create-append takes an existing table with the right columns. -/
def createError (d : Driver τ) (createAppend : Bool) : Option AdbcError → Option AdbcError
  | none => none
  | some e =>
      let e' := if e.status ≠ .alreadyExists ∧ d.tableExists then
        { e with status := .alreadyExists } else e
      if createAppend ∧ e'.status = .alreadyExists then d.checkAppendable else some e'

/-- The outcome of an ingest; no error is `ADBC_STATUS_OK`. -/
structure Outcome (τ : Type*) where
  stmt : OdbcStatement
  world : World τ
  error : Option AdbcError

/-- The insert and what it leaves of the statement. -/
def loadRows (d : Driver τ) (stmt : OdbcStatement) (fields : List ArrowSchema) (w : World τ) :
    Outcome τ :=
  let names := fields.map ArrowSchema.nameText
  let sql := insertText (odbcQuoteChar d.quoteChar) stmt.target names
  { stmt := { stmt with query := some sql, prepared := false, ingestInto := none }
    world := { w with table := d.loaded w.table }
    error := d.load }

/-- The column definitions, the `CREATE` and, when it went well, the load. -/
def createTable (opts : OdbcReaderOptions) (d : Driver τ) (stmt : OdbcStatement)
    (mode : IngestMode) (fields : List ArrowSchema) (w : World τ) : Outcome τ :=
  match columnDefs d.typeInfo opts fields with
  | .error e => ⟨stmt, w, some e⟩
  | .ok columns =>
      let sql :=
        createText opts stmt.ingestTemporary (odbcQuoteChar d.quoteChar) stmt.target columns
      let r := execSimple d.create false (.create sql) w
      match createError d (mode = .createAppend) r.2 with
      | some e => ⟨stmt, r.1, some e⟩
      | none => loadRows d stmt fields r.1

/-- `OdbcStatementIngest`. -/
def odbcStatementIngest (opts : OdbcReaderOptions) (d : Driver τ) (stmt : OdbcStatement)
    (w : World τ) : Outcome τ :=
  if ¬ stmt.hasBind then
    ⟨stmt, w, some ⟨.invalidState, "Must bind data before bulk ingest".toList⟩⟩
  else
    match d.getSchema with
    | .error message =>
        ⟨stmt, w, some ⟨.invalidArgument, "Bound stream get_schema failed: ".toList ++ message⟩⟩
    | .ok fields =>
        let mode := stmt.ingestMode.getD .create
        -- The statement's own handle goes before the DDL, the INSERT allocates a new one.
        let stmt' :=
          if mode ≠ .append ∧ stmt.ref then { stmt with ref := false, prepared := false }
          else stmt
        let q := odbcQuoteChar d.quoteChar
        let w' :=
          if mode = .replace then (execSimple d.drop true (.drop (dropText q stmt.target)) w).1
          else w
        if mode = .append then loadRows d stmt' fields w'
        else createTable opts d stmt' mode fields w'

/-! ## Which schemas can be written -/

/-- The Arrow types `ColumnTypeSql` has a column type for. -/
def HasColumnType (sv : ArrowSchemaView) : Prop :=
  sv.type ∈ [.bool, .int8, .uint8, .int16, .uint16, .int32, .uint32, .int64, .uint64,
    .halfFloat, .float, .double, .string, .largeString, .stringView, .binary, .largeBinary,
    .fixedSizeBinary, .binaryView, .date32, .time32, .time64, .timestamp, .decimal128,
    .decimal256]

instance (sv : ArrowSchemaView) : Decidable (HasColumnType sv) :=
  inferInstanceAs (Decidable (sv.type ∈ _))

/-- A field that parses and has a column type, a dictionary that of its values. -/
def Renders (field : ArrowSchema) : Prop :=
  ∃ sv, field.view = .ok sv ∧
    if sv.type = .dictionary then ∃ dsv, dictionaryView field = some dsv ∧ HasColumnType dsv
    else HasColumnType sv

theorem valueTypeSql_ok_iff (info : SqlType → Option TypeInfoRow) (opts : OdbcReaderOptions)
    (sv : ArrowSchemaView) : (∃ sql, valueTypeSql info opts sv = .ok sql) ↔ HasColumnType sv := by
  unfold valueTypeSql HasColumnType
  cases sv.type <;> simp

theorem columnTypeSql_ok_iff (info : SqlType → Option TypeInfoRow) (opts : OdbcReaderOptions)
    (field : ArrowSchema) (sv : ArrowSchemaView) :
    (∃ sql, columnTypeSql info opts field sv = .ok sql) ↔
      if sv.type = .dictionary then ∃ dsv, dictionaryView field = some dsv ∧ HasColumnType dsv
      else HasColumnType sv := by
  unfold columnTypeSql
  by_cases hdict : sv.type = .dictionary
  · rw [if_pos hdict, if_pos hdict]
    cases dictionaryView field with
    | none => simp
    | some dsv => simpa using valueTypeSql_ok_iff info opts dsv
  · rw [if_neg hdict, if_neg hdict]
    exact valueTypeSql_ok_iff info opts sv

theorem columnDef_ok_iff (info : SqlType → Option TypeInfoRow) (opts : OdbcReaderOptions)
    (field : ArrowSchema) : (∃ c, columnDef info opts field = .ok c) ↔ Renders field := by
  unfold columnDef Renders
  cases field.view with
  | error message => simp
  | ok sv =>
      have htype := columnTypeSql_ok_iff info opts field sv
      simp only [Except.ok.injEq, exists_eq_left', ← htype]
      cases columnTypeSql info opts field sv with
      | error e => simp
      | ok sql =>
          refine iff_of_true ?_ ⟨sql, rfl⟩
          cases opts.nullableTypeFormat with
          | none => exact ⟨_, rfl⟩
          | some format =>
              cases field.nullable with
              | false => exact ⟨_, rfl⟩
              | true => exact ⟨_, rfl⟩

/-- The column definitions depend on the driver for their text only: whether there are
any is a matter of the schema. -/
theorem columnDefs_ok_iff (info : SqlType → Option TypeInfoRow) (opts : OdbcReaderOptions)
    (fields : List ArrowSchema) :
    (∃ columns, columnDefs info opts fields = .ok columns) ↔ ∀ field ∈ fields, Renders field := by
  rw [columnDefs, Lib.mapM_ok_iff]
  exact forall₂_congr fun field _ => columnDef_ok_iff info opts field

/-! ## What a failed replace leaves -/

/-- Some `CREATE TABLE` has been sent. -/
def World.createSent (w : World τ) : Prop := ∃ sql, Ddl.create sql ∈ w.sent

/-- A replace-mode ingest that fails before it has sent its `CREATE TABLE` leaves the
table as it was. -/
def KeepsTable (opts : OdbcReaderOptions) (d : Driver τ) (stmt : OdbcStatement)
    (table : Option τ) : Prop :=
  stmt.ingestMode = some .replace →
    let r := odbcStatementIngest opts d stmt ⟨[], table⟩
    r.error ≠ none → ¬ r.world.createSent → r.world.table = table

/-- The `CREATE` is not sent: a field has no column definition, or the call fails
before the driver has the text. -/
def CreateFails (d : Driver τ) (fields : List ArrowSchema) : Prop :=
  (∃ field ∈ fields, ¬ Renders field) ∨ ¬ d.create.allocates ∨ ¬ d.create.sends

/-- The server runs the `DROP` of a replace, and then the column definitions fail or
the `CREATE` never reaches the driver. -/
def DropsFirst (d : Driver τ) (stmt : OdbcStatement) (table : Option τ) : Prop :=
  stmt.hasBind ∧ stmt.ingestMode = some .replace ∧
    ∃ fields, d.getSchema = .ok fields ∧
      (d.drop.allocates ∧ d.drop.sends ∧ d.drop.after table ≠ table) ∧
      CreateFails d fields

theorem execSimple_world (a : ExecAnswer τ) (ignoreError : Bool) (stmt : Ddl) (w : World τ) :
    (execSimple a ignoreError stmt w).1 =
      if a.allocates ∧ a.sends then ⟨w.sent ++ [stmt], a.after w.table⟩ else w := by
  unfold execSimple
  cases a.allocates with
  | false => simp
  | true =>
      cases a.sends with
      | false => simp
      | true => simp

/-- A statement that does not reach the driver is reported, unless errors are ignored. -/
theorem execSimple_unsent {a : ExecAnswer τ} {stmt : Ddl} {w : World τ}
    (h : ¬ a.allocates ∨ ¬ a.sends) : execSimple a false stmt w = (w, some a.failure) := by
  unfold execSimple
  cases hallocates : a.allocates with
  | false => simp
  | true =>
      have hsends : a.sends = false := by simpa [hallocates] using h
      simp [hsends]

/-- Outside of create-append a failed `CREATE` stays failed. -/
theorem createError_some (d : Driver τ) (e : AdbcError) :
    createError d false (some e) ≠ none := by
  simp [createError]

/-- Where the `CREATE` is not sent, nothing but the error comes of it. -/
theorem createTable_unsent {opts : OdbcReaderOptions} {d : Driver τ} {stmt : OdbcStatement}
    {fields : List ArrowSchema} {w : World τ} (h : CreateFails d fields) :
    (createTable opts d stmt .replace fields w).world = w ∧
      (createTable opts d stmt .replace fields w).error ≠ none := by
  unfold createTable
  cases hcolumns : columnDefs d.typeInfo opts fields with
  | error e => exact ⟨rfl, Option.some_ne_none e⟩
  | ok columns =>
      have hrenders := (columnDefs_ok_iff _ _ _).mp ⟨columns, hcolumns⟩
      have hunsent : ¬ d.create.allocates ∨ ¬ d.create.sends := by
        rcases h with ⟨field, hfield, hnot⟩ | h
        · exact absurd (hrenders field hfield) hnot
        · exact h
      dsimp only
      rw [execSimple_unsent hunsent]
      cases herror : createError d (IngestMode.replace = .createAppend) (some d.create.failure) with
      | none => exact absurd herror (createError_some d _)
      | some e => exact ⟨rfl, Option.some_ne_none e⟩

/-- Otherwise the `CREATE` is sent, whatever comes of it. -/
theorem createTable_sent {opts : OdbcReaderOptions} {d : Driver τ} {stmt : OdbcStatement}
    {mode : IngestMode} {fields : List ArrowSchema} {w : World τ} (h : ¬ CreateFails d fields) :
    (createTable opts d stmt mode fields w).world.createSent := by
  simp only [CreateFails, not_or, not_exists, not_and, not_not] at h
  obtain ⟨columns, hcolumns⟩ := (columnDefs_ok_iff d.typeInfo opts fields).mpr h.1
  have hsent : ∀ sql, (execSimple d.create false (.create sql) w).1.createSent := by
    intro sql
    rw [execSimple_world, if_pos h.2]
    exact ⟨sql, List.mem_append_right _ (List.mem_singleton_self _)⟩
  unfold createTable
  rw [hcolumns]
  dsimp only
  split
  · exact hsent _
  · exact hsent _

/-- A replace that passes the first checks is the `DROP` and then the `CREATE`. -/
theorem ingest_replace (opts : OdbcReaderOptions) {d : Driver τ} {stmt : OdbcStatement}
    {fields : List ArrowSchema} (w : World τ) (hbind : stmt.hasBind)
    (hmode : stmt.ingestMode = some .replace) (hfields : d.getSchema = .ok fields) :
    ∃ stmt' sql, odbcStatementIngest opts d stmt w =
      createTable opts d stmt' .replace fields (execSimple d.drop true (.drop sql) w).1 := by
  refine ⟨if stmt.ref then { stmt with ref := false, prepared := false } else stmt,
    dropText (odbcQuoteChar d.quoteChar) stmt.target, ?_⟩
  unfold odbcStatementIngest
  rw [hfields]
  simp [hbind, hmode]

/-- A replace keeps the table through a failure before its `CREATE` exactly when it has
not dropped it first. -/
theorem replace_keeps_iff (opts : OdbcReaderOptions) (d : Driver τ) (stmt : OdbcStatement)
    (table : Option τ) : KeepsTable opts d stmt table ↔ ¬ DropsFirst d stmt table := by
  by_cases hbind : stmt.hasBind
  swap
  · refine iff_of_true (fun _ _ _ => ?_) (fun h => hbind h.1)
    simp [odbcStatementIngest, hbind]
  by_cases hmode : stmt.ingestMode = some .replace
  swap
  · exact iff_of_true (fun h => absurd h hmode) (fun h => hmode h.2.1)
  cases hfields : d.getSchema with
  | error message =>
      refine iff_of_true (fun _ _ _ => ?_) (fun h => ?_)
      · simp [odbcStatementIngest, hbind, hfields]
      · obtain ⟨_, _, fields, hok, _⟩ := h
        rw [hfields] at hok
        cases hok
  | ok fields =>
      obtain ⟨stmt', sql, hrun⟩ :=
        ingest_replace opts ⟨[], table⟩ hbind hmode hfields
      have hdrops : DropsFirst d stmt table ↔
          (d.drop.allocates ∧ d.drop.sends ∧ d.drop.after table ≠ table) ∧
            CreateFails d fields := by
        simp [DropsFirst, hbind, hmode, hfields]
      rw [hdrops, KeepsTable, hrun]
      dsimp only
      by_cases hfails : CreateFails d fields
      · obtain ⟨hworld, herror⟩ := @createTable_unsent _ opts d stmt' fields
          (execSimple d.drop true (.drop sql) ⟨[], table⟩).1 hfails
        by_cases hsent : d.drop.allocates ∧ d.drop.sends
        · rw [execSimple_world, if_pos hsent] at hworld herror
          rw [execSimple_world, if_pos hsent, hworld]
          have hcreate : ¬ World.createSent ⟨[.drop sql], d.drop.after table⟩ := by
            simp [World.createSent]
          constructor
          · exact fun h hdrop => hdrop.1.2.2 (h hmode herror hcreate)
          · intro h _ _ _
            by_contra hafter
            exact h ⟨⟨hsent.1, hsent.2, hafter⟩, hfails⟩
        · rw [hworld, execSimple_world, if_neg hsent]
          exact iff_of_true (fun _ _ _ => rfl) (fun h => hsent ⟨h.1.1, h.1.2.1⟩)
      · refine iff_of_true (fun _ _ h => ?_) (fun h => hfails h.2)
        exact absurd (createTable_sent hfails) h

/-- A schema of one field without a column type. -/
def durationSchema : List ArrowSchema := [.plain ['a'] { type := .duration }]

/-- A server that drops and creates as it is told. -/
def plainServer (fields : List ArrowSchema) : Driver Unit where
  getSchema := .ok fields
  quoteChar := none
  typeInfo := fun _ => none
  drop := ⟨true, true, true, ⟨.unknown, []⟩, fun _ => none⟩
  create := ⟨true, true, true, ⟨.unknown, []⟩, fun _ => some ()⟩
  tableExists := false
  checkAppendable := none
  load := none
  loaded := id

/-- The old table is gone although no `CREATE` has been sent. -/
theorem replace_loses_table :
    ¬ KeepsTable {} (plainServer durationSchema)
      { hasBind := true, ingestMode := some .replace, target := ⟨none, none, ['t']⟩ }
      (some ()) := by
  intro h
  have hcreate : ¬ World.createSent
      ⟨[Ddl.drop "DROP TABLE \"t\"".toList], (none : Option Unit)⟩ := by
    simp [World.createSent]
  cases h rfl (Option.some_ne_none _) hcreate

end AdbcBridge.Ingest.Replace
