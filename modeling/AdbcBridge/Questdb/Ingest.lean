import AdbcBridge.Adbc.Interface
import AdbcBridge.Lib.Decimal
import AdbcBridge.Lib.Loop

/-!
# Bulk ingest into QuestDB

`QdbIngest` up to the frames: the look-up of the table, the `DROP` of replace mode,
the choice of the designated timestamp and the `CREATE TABLE`.  What the server and
the bound stream answer is an argument, the table behind the target's name is
followed through.  Memory is not short here.
-/

namespace AdbcBridge.Questdb.Ingest

open AdbcBridge.Adbc AdbcBridge.Lib.Decimal

variable {τ : Type*}

/-- `QDB_INGEST_*`. -/
inductive QdbIngestMode where
  | create
  | append
  | replace
  | createAppend
deriving DecidableEq, Repr

inductive QdbSymbolMode where
  | auto
  | symbol
  | notSymbol
deriving DecidableEq, Repr

/-- The fields of the statement the ingest reads. -/
structure QdbStatement where
  hasBind : Bool
  ingestTable : List Char
  ingestMode : QdbIngestMode
  ingestTs : Option (List Char) := none
  symbolMode : QdbSymbolMode := .auto
  partitionBy : Option (List Char) := none
deriving DecidableEq, Repr

/-- What the list of tables says of an existing one. -/
structure QdbTableInfo where
  designatedTs : Option (List Char)
deriving DecidableEq, Repr

/-! ## Fields of the data -/

/-- `QdbColIndex`. -/
def qdbColIndex (fields : List ArrowSchema) (name : List Char) : Option Nat :=
  fields.findIdx? fun field => field.name = some name

/-- `QdbSchemaIsTimestamp`. -/
def qdbSchemaIsTimestamp (field : ArrowSchema) : Bool :=
  match field.view with
  | .error _ => false
  | .ok sv => sv.type = .timestamp

/-- The Arrow types of text. -/
def arrowTypeIsText : ArrowType → Bool
  | .string | .largeString | .stringView => true
  | _ => false

/-- `QdbSchemaIsText`. -/
def qdbSchemaIsText (field : ArrowSchema) : Bool :=
  match field.view with
  | .error _ => false
  | .ok sv =>
      if sv.type = .dictionary then
        match field.dictionary with
        | none => false
        | some values =>
            match values.view with
            | .error _ => false
            | .ok dv => arrowTypeIsText dv.type
      else arrowTypeIsText sv.type

/-- `QdbQuestTypeFor`; nothing for a field the client cannot send. -/
def qdbQuestTypeFor (field : ArrowSchema) (mode : QdbSymbolMode) : Option (List Char) :=
  match field.view with
  | .error _ => none
  | .ok sv =>
      match sv.type with
      | .bool => some "BOOLEAN".toList
      | .int8 => some "BYTE".toList
      | .int16 | .uint8 => some "SHORT".toList
      | .int32 | .uint16 => some "INT".toList
      | .int64 | .uint32 | .uint64 => some "LONG".toList
      | .halfFloat | .float => some "FLOAT".toList
      | .double => some "DOUBLE".toList
      | .string | .largeString | .stringView =>
          some (if mode = .symbol then "SYMBOL".toList else "VARCHAR".toList)
      | .dictionary =>
          if qdbSchemaIsText field then
            some (if mode = .notSymbol then "VARCHAR".toList else "SYMBOL".toList)
          else none
      | .binary | .largeBinary | .binaryView => some "BINARY".toList
      | .fixedSizeBinary => some (if sv.fixedSize = 16 then "UUID".toList else "BINARY".toList)
      | .timestamp =>
          some (if sv.timeUnit = .nano then "TIMESTAMP_NS".toList else "TIMESTAMP".toList)
      | .date32 | .date64 => some "DATE".toList
      | .decimal128 =>
          some ("DECIMAL(".toList ++ intText sv.decimalPrecision ++ ",".toList ++
            intText sv.decimalScale ++ ")".toList)
      | .list | .largeList | .fixedSizeList =>
          match field.children with
          | [child] =>
              match child.view with
              | .error _ => none
              | .ok cv => if cv.type = .double then some "DOUBLE[]".toList else none
          | _ => none
      | _ => none

/-! ## Failures -/

/-- What the driver itself refuses about the data. -/
inductive Refusal where
  | getSchema (message : List Char)
  | designatedMissing (name : List Char)
  | timestampTaken
  | noQuestType (column type : List Char)
deriving DecidableEq, Repr

inductive Failure where
  | unbound
  | exists
  | notFound
  | client (e : AdbcError)
  | refused (r : Refusal)
deriving DecidableEq, Repr

/-- The error a refusal is reported as. -/
def Refusal.error : Refusal → AdbcError
  | .getSchema message => ⟨.invalidArgument, "Bound data: get_schema failed: ".toList ++ message⟩
  | .designatedMissing name =>
      ⟨.invalidArgument,
        "Designated timestamp column ".toList ++ name ++ " is not in the bound data".toList⟩
  | .timestampTaken =>
      ⟨.invalidArgument,
        ("No timestamp column to use as the designated timestamp, and the data already has a " ++
          "column named \"timestamp\"; set adbc.questdb.ingest.timestamp_column").toList⟩
  | .noQuestType column type =>
      ⟨.notImplemented, "Column ".toList ++ column ++ ": Arrow type ".toList ++ type ++
        " has no QuestDB column type for ingest".toList⟩

/-- The error a failure is reported as. -/
def Failure.error (stmt : QdbStatement) : Failure → AdbcError
  | .unbound => ⟨.invalidState, "Bulk ingest needs bound data (AdbcStatementBind)".toList⟩
  | .exists => ⟨.alreadyExists, "Table ".toList ++ stmt.ingestTable ++ " already exists".toList⟩
  | .notFound => ⟨.notFound, "Table ".toList ++ stmt.ingestTable ++ " does not exist".toList⟩
  | .client e => e
  | .refused r => r.error

/-! ## The statements -/

/-- `QdbQuoteIdent`. -/
def qdbQuoteIdent (name : List Char) : List Char :=
  '"' :: name.flatMap (fun c => if c = '"' then ['"', '"'] else [c]) ++ ['"']

/-- A field in the column list of the `CREATE TABLE`. -/
def columnText (mode : QdbSymbolMode) (field : ArrowSchema) : Except Refusal (List Char) :=
  match qdbQuestTypeFor field mode with
  | some type => .ok (qdbQuoteIdent field.nameText ++ " ".toList ++ type)
  | none =>
      match field.view with
      | .ok sv => .error (.noQuestType field.nameText sv.type.text)
      | .error _ => .error (.noQuestType field.nameText "?".toList)

/-- The column list; the first field without a QuestDB type is refused. -/
def columnTexts (mode : QdbSymbolMode) (fields : List ArrowSchema) :
    Except Refusal (List (List Char)) :=
  fields.mapM (columnText mode)

/-- The text of the statement around its columns. -/
def tableText (stmt : QdbStatement) (columns : List (List Char)) (tsName : List Char)
    (addTs : Bool) : List Char :=
  let stamp := if addTs then [['"'] ++ tsName ++ "\" TIMESTAMP".toList] else []
  let partitionBy := stmt.partitionBy.getD "DAY".toList
  "CREATE TABLE ".toList ++ qdbQuoteIdent stmt.ingestTable ++ " (".toList ++
    List.intercalate ", ".toList (columns ++ stamp) ++ ")".toList ++
    " TIMESTAMP(".toList ++ qdbQuoteIdent tsName ++ ")".toList ++
    if partitionBy = "NONE".toList then [] else
      " PARTITION BY ".toList ++ partitionBy ++ " WAL".toList

/-- The text of `QdbCreateTableFromSchema`. -/
def createText (stmt : QdbStatement) (fields : List ArrowSchema) (tsName : List Char)
    (addTs : Bool) : Except Refusal (List Char) :=
  match columnTexts stmt.symbolMode fields with
  | .error r => .error r
  | .ok columns => .ok (tableText stmt columns tsName addTs)

/-- The column a table without a timestamp of its own is stamped in. -/
def stampColumn : List Char := "timestamp".toList

/-- The designated timestamp: the option, else the table's own if the data have it,
else the only timestamp column of a new table. -/
def designatedTs (stmt : QdbStatement) (existing : Option QdbTableInfo)
    (fields : List ArrowSchema) : Option (List Char) :=
  match stmt.ingestTs with
  | some ts => some ts
  | none =>
      match existing with
      | some info =>
          match info.designatedTs with
          | some (c :: ts) => if (qdbColIndex fields (c :: ts)).isSome then some (c :: ts) else none
          | _ => none
      | none =>
          match fields.filter qdbSchemaIsTimestamp with
          | [field] => field.name
          | _ => none

/-- What is settled between the schema and the first frame: nothing to create, or the
text that creates the table. -/
def plan (stmt : QdbStatement) (existing : Option QdbTableInfo) (fields : List ArrowSchema) :
    Except Refusal (Option (List Char)) :=
  let creates (name : List Char) (addTs : Bool) : Except Refusal (Option (List Char)) :=
    match existing with
    | some _ => .ok none
    | none => (createText stmt fields name addTs).map some
  match designatedTs stmt existing fields with
  | some name =>
      if qdbColIndex fields name = none then .error (.designatedMissing name)
      else creates name false
  | none =>
      -- A new table is stamped by the server, in a column of its own.
      if existing = none ∧ qdbColIndex fields stampColumn ≠ none then
        .error .timestampTaken
      else creates stampColumn true

/-! ## The ingest -/

/-- How a `QdbExecSimple` goes: the error it returns and what the server makes of the
table. -/
structure ExecAnswer (τ : Type*) where
  error : Option AdbcError
  after : Option τ → Option τ

/-- The answers of an ingest: the name check of the client library, `QdbFindTable`, the
two statements, the stream's schema and the frames. -/
structure Driver (τ : Type*) where
  tableNameInit : Option AdbcError
  findTable : Except AdbcError (Option QdbTableInfo)
  drop : ExecAnswer τ
  getSchema : Except (List Char) (List ArrowSchema)
  create : ExecAnswer τ
  frames : Option AdbcError
  sent : Option τ → Option τ

/-- The table after an ingest and the failure, if any. -/
structure Outcome (τ : Type*) where
  table : Option τ
  failure : Option Failure

/-- From `get_schema` on, with the table there is by then. -/
def fromSchema (d : Driver τ) (stmt : QdbStatement) (existing : Option QdbTableInfo)
    (table : Option τ) : Outcome τ :=
  match d.getSchema with
  | .error message => ⟨table, some (.refused (.getSchema message))⟩
  | .ok fields =>
      match plan stmt existing fields with
      | .error r => ⟨table, some (.refused r)⟩
      | .ok none => ⟨d.sent table, d.frames.map .client⟩
      | .ok (some _) =>
          match d.create.error with
          | some e => ⟨d.create.after table, some (.client e)⟩
          | none => ⟨d.sent (d.create.after table), d.frames.map .client⟩

/-- `QdbIngest`. -/
def qdbIngest (d : Driver τ) (stmt : QdbStatement) (table : Option τ) : Outcome τ :=
  if ¬ stmt.hasBind then ⟨table, some .unbound⟩
  else
    match d.tableNameInit with
    | some e => ⟨table, some (.client e)⟩
    | none =>
        match d.findTable with
        | .error e => ⟨table, some (.client e)⟩
        | .ok existing =>
            match stmt.ingestMode, existing with
            | .create, some _ => ⟨table, some .exists⟩
            | .append, none => ⟨table, some .notFound⟩
            | .replace, some _ =>
                match d.drop.error with
                | some e => ⟨d.drop.after table, some (.client e)⟩
                | none => fromSchema d stmt none (d.drop.after table)
            | _, existing => fromSchema d stmt existing table

/-! ## What a refused replace leaves -/

/-- The driver itself refuses data with these fields for a new table: the designated
timestamp is not among them, its own would have a name that is taken, or a field has
no QuestDB type. -/
def RefusesFields (stmt : QdbStatement) (fields : List ArrowSchema) : Prop :=
  (∃ name, designatedTs stmt none fields = some name ∧ qdbColIndex fields name = none) ∨
    (designatedTs stmt none fields = none ∧ qdbColIndex fields stampColumn ≠ none) ∨
    ∃ field ∈ fields, qdbQuestTypeFor field stmt.symbolMode = none

/-- The driver itself refuses the bound stream for a new table. -/
def Refuses (d : Driver τ) (stmt : QdbStatement) : Prop :=
  ∀ fields, d.getSchema = .ok fields → RefusesFields stmt fields

/-- A replace that the driver itself refuses leaves the table as it was. -/
def KeepsTable (d : Driver τ) (stmt : QdbStatement) (table : Option τ) : Prop :=
  stmt.ingestMode = .replace →
    ∀ r, (qdbIngest d stmt table).failure = some (.refused r) →
      (qdbIngest d stmt table).table = table

/-- A replace of a table the look-up finds, whose `DROP` goes through before the data
are refused. -/
def DropsFirst (d : Driver τ) (stmt : QdbStatement) (table : Option τ) : Prop :=
  stmt.hasBind ∧ stmt.ingestMode = .replace ∧ d.tableNameInit = none ∧
    (∃ info, d.findTable = .ok (some info)) ∧
    (d.drop.error = none ∧ d.drop.after table ≠ table) ∧ Refuses d stmt

theorem columnText_ok_iff {mode : QdbSymbolMode} {field : ArrowSchema} :
    (∃ text, columnText mode field = .ok text) ↔ qdbQuestTypeFor field mode ≠ none := by
  unfold columnText
  cases qdbQuestTypeFor field mode with
  | some type => exact iff_of_true ⟨_, rfl⟩ (Option.some_ne_none type)
  | none =>
      refine iff_of_false (fun h => ?_) (fun h => h rfl)
      obtain ⟨text, htext⟩ := h
      cases hview : field.view with
      | ok sv => simp [hview] at htext
      | error message => simp [hview] at htext

/-- The text of the new table fails exactly for a field without a QuestDB type. -/
theorem createText_error_iff {stmt : QdbStatement} {fields : List ArrowSchema}
    {tsName : List Char} {addTs : Bool} :
    (∃ r, createText stmt fields tsName addTs = .error r) ↔
      ∃ field ∈ fields, qdbQuestTypeFor field stmt.symbolMode = none := by
  have hok : (∃ columns, columnTexts stmt.symbolMode fields = .ok columns) ↔
      ∀ field ∈ fields, qdbQuestTypeFor field stmt.symbolMode ≠ none := by
    rw [columnTexts, Lib.mapM_ok_iff]
    exact forall₂_congr fun field _ => columnText_ok_iff
  rw [← not_iff_not]
  push Not
  rw [← hok]
  unfold createText
  cases columnTexts stmt.symbolMode fields with
  | error r => simp
  | ok columns => simp

/-- For a new table the plan fails exactly when the driver refuses the fields. -/
theorem plan_error_iff {stmt : QdbStatement} {fields : List ArrowSchema} :
    (∃ r, plan stmt none fields = .error r) ↔ RefusesFields stmt fields := by
  have hmap : ∀ name addTs, (∃ r, (createText stmt fields name addTs).map some = .error r) ↔
      ∃ field ∈ fields, qdbQuestTypeFor field stmt.symbolMode = none := by
    intro name addTs
    rw [← createText_error_iff]
    cases createText stmt fields name addTs with
    | error r => simp [Except.map]
    | ok text => simp [Except.map]
  unfold plan RefusesFields
  cases hts : designatedTs stmt none fields with
  | none =>
      by_cases hcol : qdbColIndex fields stampColumn = none
      · simpa [hcol] using hmap stampColumn true
      · simp [hcol]
  | some name =>
      by_cases hcol : qdbColIndex fields name = none
      · simp [hcol]
      · simpa [hcol] using hmap name false

/-- From the schema on, a refusal leaves the table as it is by then, and there is one
for a new table exactly when the driver refuses the stream. -/
theorem fromSchema_refused {d : Driver τ} {stmt : QdbStatement} {existing : Option QdbTableInfo}
    {table : Option τ} {r : Refusal}
    (h : (fromSchema d stmt existing table).failure = some (.refused r)) :
    (fromSchema d stmt existing table).table = table := by
  unfold fromSchema at h ⊢
  cases hschema : d.getSchema with
  | error message => rfl
  | ok fields =>
      rw [hschema] at h
      dsimp only at h ⊢
      cases hplan : plan stmt existing fields with
      | error r => rfl
      | ok text =>
          rw [hplan] at h
          cases text with
          | none => simp at h
          | some text =>
              dsimp only at h
              cases hcreate : d.create.error with
              | none => simp [hcreate] at h
              | some e => simp [hcreate] at h

theorem fromSchema_refuses {d : Driver τ} {stmt : QdbStatement} {table : Option τ} :
    (∃ r, (fromSchema d stmt none table).failure = some (.refused r)) ↔ Refuses d stmt := by
  unfold fromSchema Refuses
  cases hschema : d.getSchema with
  | error message => simp
  | ok fields =>
      simp only [Except.ok.injEq, forall_eq', ← plan_error_iff]
      cases hplan : plan stmt none fields with
      | error r => simp
      | ok text =>
          refine iff_of_false (fun h => ?_) (fun h => ?_)
          · obtain ⟨r, hr⟩ := h
            cases text with
            | none => simp at hr
            | some text =>
                dsimp only at hr
                cases hcreate : d.create.error with
                | none => simp [hcreate] at hr
                | some e => simp [hcreate] at hr
          · obtain ⟨r, hr⟩ := h
            cases hr

/-- The replace of a table the look-up finds, once its `DROP` has gone through. -/
theorem qdbIngest_dropped {d : Driver τ} {stmt : QdbStatement} {table : Option τ}
    {info : QdbTableInfo} (hbind : stmt.hasBind) (hmode : stmt.ingestMode = .replace)
    (hname : d.tableNameInit = none) (hfind : d.findTable = .ok (some info))
    (hdrop : d.drop.error = none) :
    qdbIngest d stmt table = fromSchema d stmt none (d.drop.after table) := by
  simp [qdbIngest, hbind, hmode, hname, hfind, hdrop]

/-- Any other replace that is refused has not dropped. -/
theorem qdbIngest_kept {d : Driver τ} {stmt : QdbStatement} {table : Option τ} {r : Refusal}
    (hmode : stmt.ingestMode = .replace)
    (hkept : ¬ ((∃ info, d.findTable = .ok (some info)) ∧ d.drop.error = none))
    (h : (qdbIngest d stmt table).failure = some (.refused r)) :
    (qdbIngest d stmt table).table = table := by
  unfold qdbIngest at h ⊢
  by_cases hbind : stmt.hasBind
  swap
  · rw [if_pos hbind]
  rw [if_neg (not_not.mpr hbind)] at h ⊢
  cases hname : d.tableNameInit with
  | some e => rfl
  | none =>
      cases hfind : d.findTable with
      | error e => rfl
      | ok existing =>
          simp only [hname, hfind, hmode] at h ⊢
          cases existing with
          | none => exact fromSchema_refused h
          | some info =>
              cases hdrop : d.drop.error with
              | none => exact absurd ⟨⟨info, hfind⟩, hdrop⟩ hkept
              | some e => simp [hdrop] at h

/-- A replace that the driver refuses keeps the table exactly when it has not dropped
it first. -/
theorem refused_keeps_iff (d : Driver τ) (stmt : QdbStatement) (table : Option τ) :
    KeepsTable d stmt table ↔ ¬ DropsFirst d stmt table := by
  constructor
  · rintro h ⟨hbind, hmode, hname, ⟨info, hfind⟩, ⟨hdrop, hafter⟩, hrefuses⟩
    have hrun := @qdbIngest_dropped _ d stmt table info hbind hmode hname hfind hdrop
    obtain ⟨r, hr⟩ := (@fromSchema_refuses _ d stmt (d.drop.after table)).mpr hrefuses
    have htable := h hmode r (hrun ▸ hr)
    rw [hrun, fromSchema_refused hr] at htable
    exact hafter htable
  · intro h hmode r hr
    by_cases hkept : (∃ info, d.findTable = .ok (some info)) ∧ d.drop.error = none
    swap
    · exact qdbIngest_kept hmode hkept hr
    obtain ⟨⟨info, hfind⟩, hdrop⟩ := hkept
    have hbind : stmt.hasBind := by
      by_contra hbind
      simp [qdbIngest, hbind] at hr
    have hname : d.tableNameInit = none := by
      by_contra hname
      obtain ⟨e, he⟩ := Option.ne_none_iff_exists'.mp hname
      simp [qdbIngest, hbind, he] at hr
    rw [qdbIngest_dropped hbind hmode hname hfind hdrop] at hr ⊢
    rw [fromSchema_refused hr]
    by_contra hafter
    exact h ⟨hbind, hmode, hname, ⟨info, hfind⟩, ⟨hdrop, hafter⟩, fromSchema_refuses.mp ⟨r, hr⟩⟩

/-- A server that drops and creates as it is told, and a stream that fails. -/
def failingStream : Driver Unit where
  tableNameInit := none
  findTable := .ok (some ⟨none⟩)
  drop := ⟨none, fun _ => none⟩
  getSchema := .error []
  create := ⟨none, fun _ => some ()⟩
  frames := none
  sent := id

/-- The old table is gone although the stream never had a schema. -/
theorem refused_loses_table :
    ¬ KeepsTable failingStream
      { hasBind := true, ingestTable := ['t'], ingestMode := .replace } (some ()) := by
  intro h
  cases h rfl (.getSchema []) rfl

end AdbcBridge.Questdb.Ingest
