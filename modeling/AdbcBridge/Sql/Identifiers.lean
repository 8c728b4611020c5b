import AdbcBridge.Ingest.Ddl
import AdbcBridge.Lib.Quoting

/-!
# Names in SQL

Every statement the code writes with names of the caller's in it: the `DROP`,
`CREATE` and `INSERT` of a bulk ingest, the zero-row `SELECT` of `GetTableSchema`
and those of `DescribeTableStmt`.  Each text is compared with what a reader of
quoted identifiers makes of it.
-/

namespace AdbcBridge.Sql.Identifiers

open AdbcBridge.Ingest.Ddl AdbcBridge.Lib.Quoting

/-! ## The texts -/

/-- The zero-row `SELECT` of `OdbcConnectionGetTableSchema`. -/
def selectText (q : List Char) (opts : OdbcReaderOptions) (t : Target) : List Char :=
  "SELECT * FROM ".toList ++ appendQualifiedName q t ++ " ".toList ++
    opts.zeroRowSuffix.getD "WHERE 1=0".toList

/-- The spellings `DescribeTableStmt` tries: with the catalog and the schema, with
the schema, and the bare table, each left out when the one qualifier it adds is
missing. -/
def describeTargets (t : Target) : List Target :=
  (if t.catalog.getD [] ≠ [] then [t] else []) ++
    (if t.schema.getD [] ≠ [] then [{ t with catalog := none }] else []) ++
    [{ t with catalog := none, schema := none }]

/-- A statement with names in it. -/
inductive Statement where
  | drop (t : Target)
  | create (opts : OdbcReaderOptions) (temporary : Bool) (t : Target) (columns : List ColumnDef)
  | insert (t : Target) (columns : List (List Char))
  | tableSchema (opts : OdbcReaderOptions) (t : Target)
  | describe (opts : OdbcReaderOptions) (row t : Target) (tried : t ∈ describeTargets row)

/-- The text sent to the server. -/
def Statement.text (q : List Char) : Statement → List Char
  | .drop t => dropText q t
  | .create opts temporary t columns => createText opts temporary q t columns
  | .insert t columns => insertText q t columns
  | .tableSchema opts t => selectText q opts t
  | .describe opts _ t _ => selectText q opts t

/-! ## What the texts say -/

def qualifierPieces : Option (List Char) → List (Piece Char)
  | none => []
  | some [] => []
  | some name => [.name name, .sql ['.']]

def targetPieces (t : Target) : List (Piece Char) :=
  qualifierPieces t.catalog ++ qualifierPieces t.schema ++ [.name t.table]

/-- The pieces of a comma separated list. -/
def commaPieces (items : List (List (Piece Char))) : List (Piece Char) :=
  List.intercalate [.sql ", ".toList] items

def columnPieces (c : ColumnDef) : List (Piece Char) :=
  [.name c.name, .sql (" ".toList ++ c.type)]

/-- A statement as SQL and names: what its text is meant to say. -/
def Statement.pieces : Statement → List (Piece Char)
  | .drop t => .sql "DROP TABLE ".toList :: targetPieces t
  | .create opts temporary t columns =>
      .sql ("CREATE ".toList ++ (if temporary then "TEMPORARY ".toList else []) ++
        "TABLE ".toList) :: targetPieces t ++ .sql " (".toList ::
      commaPieces (columns.map columnPieces ++ opts.ddlExtraColumn.toList.map fun s => [.sql s]) ++
      [.sql (")".toList ++ tableOptionsText opts)]
  | .insert t columns =>
      .sql "INSERT INTO ".toList :: targetPieces t ++ .sql " (".toList ::
      commaPieces (columns.map fun name => [.name name]) ++
      [.sql (")".toList ++ " VALUES (".toList ++
        commaJoin (columns.map fun _ => "?".toList) ++ ")".toList)]
  | .tableSchema opts t =>
      .sql "SELECT * FROM ".toList :: targetPieces t ++
      [.sql (" ".toList ++ opts.zeroRowSuffix.getD "WHERE 1=0".toList)]
  | .describe opts _ t _ =>
      .sql "SELECT * FROM ".toList :: targetPieces t ++
      [.sql (" ".toList ++ opts.zeroRowSuffix.getD "WHERE 1=0".toList)]

theorem text_qualifier (q : Quote Char) (name : Option (List Char)) :
    text q (qualifierPieces name) = qualifier q.text name := by
  cases name with
  | none => rfl
  | some name =>
      cases name with
      | nil => rfl
      | cons c name => simp [qualifierPieces, qualifier, quoted, text, Piece.text]

theorem text_target (q : Quote Char) (t : Target) :
    text q (targetPieces t) = appendQualifiedName q.text t := by
  simp only [targetPieces, appendQualifiedName, text_append, text_qualifier]
  simp only [text, Piece.text, quoted, List.flatMap_cons, List.flatMap_nil, List.append_nil]

theorem text_comma (q : Quote Char) (items : List (List (Piece Char))) :
    text q (commaPieces items) = commaJoin (items.map (text q)) :=
  text_intercalate q _ items

theorem text_columns (q : Quote Char) (columns : List ColumnDef) (extra : List (List Char)) :
    (columns.map columnPieces ++ extra.map fun s => [Piece.sql s]).map (text q) =
      columns.map (fun c => quoted q.text c.name ++ " ".toList ++ c.type) ++ extra := by
  rw [List.map_append, List.map_map, List.map_map]
  congr 1
  · apply List.map_congr_left
    intro c _
    simp [columnPieces, text, Piece.text, quoted]
  · calc extra.map (text q ∘ fun s => [Piece.sql s])
        = extra.map id := by
          apply List.map_congr_left
          intro s _
          exact List.append_nil s
      _ = extra := List.map_id extra

theorem text_names (q : Quote Char) (names : List (List Char)) :
    (names.map fun name => [Piece.name name]).map (text q) = names.map (quoted q.text) := by
  rw [List.map_map]
  apply List.map_congr_left
  intro name _
  simp [text, Piece.text, quoted]

theorem text_sql (q : Quote Char) (s : List Char) : text q [.sql s] = s :=
  List.append_nil s

/-- A statement begins with some SQL and the name of its table. -/
theorem text_head (q : Quote Char) (s : List Char) (t : Target) (rest : List (Piece Char)) :
    text q (.sql s :: targetPieces t ++ rest) =
      s ++ appendQualifiedName q.text t ++ text q rest := by
  rw [text_append, text_cons, text_target]
  rfl

/-- A list in parentheses behind the table. -/
theorem text_list (q : Quote Char) (s close : List Char) (items : List (List (Piece Char))) :
    text q (.sql s :: commaPieces items ++ [.sql close]) =
      s ++ commaJoin (items.map (text q)) ++ close := by
  rw [text_append, text_cons, text_comma, text_sql]
  rfl

theorem dropText_pieces (q : Quote Char) (t : Target) :
    dropText q.text t = text q (Statement.drop t).pieces := by
  rw [Statement.pieces, text_cons, text_target]
  rfl

theorem createText_pieces (q : Quote Char) (opts : OdbcReaderOptions) (temporary : Bool)
    (t : Target) (columns : List ColumnDef) :
    createText opts temporary q.text t columns =
      text q (Statement.create opts temporary t columns).pieces := by
  rw [Statement.pieces, List.append_assoc, text_head, text_list, text_columns]
  unfold createText
  generalize "CREATE ".toList = create, "TABLE ".toList = table, " (".toList = opening,
    ")".toList = closing
  simp only [List.append_assoc]

theorem insertText_pieces (q : Quote Char) (t : Target) (columns : List (List Char)) :
    insertText q.text t columns = text q (Statement.insert t columns).pieces := by
  rw [Statement.pieces, List.append_assoc, text_head, text_list, text_names]
  unfold insertText ingestInto
  generalize "INSERT INTO ".toList = insert, " (".toList = opening, ")".toList = closing,
    " VALUES (".toList = values
  simp only [List.append_assoc]

theorem selectText_pieces (q : Quote Char) (opts : OdbcReaderOptions) (t : Target) :
    selectText q.text opts t = text q (Statement.tableSchema opts t).pieces := by
  rw [Statement.pieces, text_head, text_sql]
  unfold selectText
  generalize "SELECT * FROM ".toList = select, " ".toList = blank
  simp only [List.append_assoc]

/-- A statement's text is the text of its pieces. -/
theorem text_pieces (q : Quote Char) (st : Statement) :
    st.text q.text = text q st.pieces := by
  cases st with
  | drop t => exact dropText_pieces q t
  | create opts temporary t columns => exact createText_pieces q opts temporary t columns
  | insert t columns => exact insertText_pieces q t columns
  | tableSchema opts t => exact selectText_pieces q opts t
  | describe opts row t tried => exact selectText_pieces q opts t

/-! ## The names in order -/

/-- The catalog or schema that is written. -/
def givenQualifier (name : Option (List Char)) : List (List Char) :=
  name.toList.filter (· ≠ [])

def givenTarget (t : Target) : List (List Char) :=
  givenQualifier t.catalog ++ givenQualifier t.schema ++ [t.table]

/-- The names a statement is given, in order. -/
def Statement.names : Statement → List (List Char)
  | .drop t => givenTarget t
  | .create _ _ t columns => givenTarget t ++ columns.map ColumnDef.name
  | .insert t columns => givenTarget t ++ columns
  | .tableSchema _ t => givenTarget t
  | .describe _ _ t _ => givenTarget t

/-- The names among some pieces. -/
def pieceNames (ps : List (Piece Char)) : List (List Char) :=
  ps.filterMap fun
    | .sql _ => none
    | .name name => some name

theorem pieceNames_append (ps rs : List (Piece Char)) :
    pieceNames (ps ++ rs) = pieceNames ps ++ pieceNames rs :=
  List.filterMap_append

theorem pieceNames_target (t : Target) : pieceNames (targetPieces t) = givenTarget t := by
  have hqualifier : ∀ name, pieceNames (qualifierPieces name) = givenQualifier name := by
    intro name
    match name with
    | none => rfl
    | some [] => rfl
    | some (c :: name) => rfl
  rw [targetPieces, pieceNames_append, pieceNames_append, hqualifier, hqualifier]
  rfl

theorem pieceNames_comma (items : List (List (Piece Char))) :
    pieceNames (commaPieces items) = items.flatMap pieceNames := by
  induction items with
  | nil => rfl
  | cons ps items ih =>
      cases items with
      | nil => simp [commaPieces, List.intercalate]
      | cons rs rest =>
          have hcomma : ∀ s, pieceNames [Piece.sql s] = [] := fun _ => rfl
          rw [commaPieces] at ih ⊢
          rw [List.intercalate_cons_cons, pieceNames_append, pieceNames_append, ih, hcomma,
            List.append_nil]
          simp only [List.flatMap_cons]

/-- The names among the pieces of a statement are those it is given, in order. -/
theorem pieceNames_pieces (st : Statement) : pieceNames st.pieces = st.names := by
  have hsql : ∀ s ps, pieceNames (Piece.sql s :: ps) = pieceNames ps := fun _ _ => rfl
  have hnil : pieceNames [] = [] := rfl
  cases st with
  | drop t => exact pieceNames_target t
  | create opts temporary t columns =>
      have hcolumns : columns.flatMap (pieceNames ∘ columnPieces) = columns.map ColumnDef.name :=
        List.flatMap_pure_eq_map _ _
      have hextra : (opts.ddlExtraColumn.toList.map fun s => [Piece.sql s]).flatMap pieceNames
          = [] := by
        simp [List.flatMap_map, hsql, hnil]
      rw [Statement.pieces, pieceNames_append, pieceNames_append, hsql, hsql, hsql, hnil,
        pieceNames_target, pieceNames_comma, List.flatMap_append, List.flatMap_map, hextra,
        List.append_nil, List.append_nil]
      exact congrArg (givenTarget t ++ ·) hcolumns
  | insert t columns =>
      have hcolumns : (columns.map fun name => [Piece.name name]).flatMap pieceNames = columns := by
        simp [List.flatMap_map, pieceNames]
      rw [Statement.pieces, pieceNames_append, pieceNames_append, hsql, hsql, hsql, hnil,
        pieceNames_target, pieceNames_comma, hcolumns, List.append_nil]
      rfl
  | tableSchema opts t =>
      rw [Statement.pieces, pieceNames_append, hsql, hsql, hnil, pieceNames_target,
        List.append_nil]
      rfl
  | describe opts row t tried =>
      rw [Statement.pieces, pieceNames_append, hsql, hsql, hnil, pieceNames_target,
        List.append_nil]
      rfl

/-! ## Reading the texts back -/

/-- For every quote string a driver reports, a reader of quoted identifiers finds in
a statement's text the given names in their places, each in all that was written
for it, and the SQL around them, exactly when they are clean. -/
theorem readsBack_iff_clean (info : Option (List Char)) (q : Quote Char)
    (hq : odbcQuoteChar info = q.text) (st : Statement) :
    (lex q (st.text (odbcQuoteChar info)) = tokens q st.pieces ∧
        pieceNames st.pieces = st.names) ↔
      Clean q st.pieces := by
  rw [hq, text_pieces, lex_text_iff]
  exact and_iff_left (pieceNames_pieces st)

theorem readsBack_iff_clean_drop :
    (lex (Quote.single '"') ((Statement.drop ⟨none, none, ['t']⟩).text ['"']) =
        tokens (Quote.single '"') (Statement.drop ⟨none, none, ['t']⟩).pieces ∧
        pieceNames (Statement.drop ⟨none, none, ['t']⟩).pieces = [['t']]) ↔
      Clean (Quote.single '"') (Statement.drop ⟨none, none, ['t']⟩).pieces :=
  readsBack_iff_clean (some ['"']) (Quote.single '"') rfl (.drop ⟨none, none, ['t']⟩)

/-! ## One character of quote -/

theorem spaced_target (t : Target) : Spaced (targetPieces t) := by
  have hqualifier : ∀ name ps, Spaced ps → Spaced (qualifierPieces name ++ ps) := by
    intro name ps hps
    match name with
    | none => exact hps
    | some [] => exact hps
    | some (c :: name) =>
        exact Spaced.append (List.isChain_singleton _) (List.cons_ne_nil _ _) hps
  rw [targetPieces, List.append_assoc]
  exact hqualifier _ _ (hqualifier _ _ (List.isChain_singleton _))

theorem spaced_comma {items : List (List (Piece Char))} (h : ∀ ps ∈ items, Spaced ps) :
    Spaced (commaPieces items) :=
  Spaced.intercalate h (List.cons_ne_nil _ _)

/-- In every statement some SQL follows each name but a last one. -/
theorem spaced_pieces (st : Statement) : Spaced st.pieces := by
  have hend : ∀ {s : List Char} {ps : List (Piece Char)}, Spaced ps → s ≠ [] →
      Spaced (ps ++ [.sql s]) := fun hps hs => hps.append hs List.IsChain.nil
  cases st with
  | drop t => exact spaced_sql.mpr (spaced_target t)
  | create opts temporary t columns =>
      have hitems : ∀ ps ∈ columns.map columnPieces ++
          opts.ddlExtraColumn.toList.map (fun s => [Piece.sql s]), Spaced ps := by
        intro ps hps
        rcases List.mem_append.mp hps with hps | hps
        · obtain ⟨c, _, rfl⟩ := List.mem_map.mp hps
          exact hend (List.isChain_singleton _) (List.cons_ne_nil _ _)
        · obtain ⟨s, _, rfl⟩ := List.mem_map.mp hps
          exact List.isChain_singleton _
      rw [Statement.pieces, List.append_assoc]
      exact (spaced_sql.mpr (spaced_target t)).append (List.cons_ne_nil _ _)
        (hend (spaced_comma hitems) (List.cons_ne_nil _ _))
  | insert t columns =>
      have hitems : ∀ ps ∈ columns.map (fun name => [Piece.name name]), Spaced ps := by
        intro ps hps
        obtain ⟨name, _, rfl⟩ := List.mem_map.mp hps
        exact List.isChain_singleton _
      rw [Statement.pieces, List.append_assoc]
      exact (spaced_sql.mpr (spaced_target t)).append (List.cons_ne_nil _ _)
        (hend (spaced_comma hitems) (List.cons_ne_nil _ _))
  | tableSchema opts t =>
      exact hend (spaced_sql.mpr (spaced_target t)) (List.cons_ne_nil _ _)
  | describe opts row t tried =>
      exact hend (spaced_sql.mpr (spaced_target t)) (List.cons_ne_nil _ _)

theorem mem_pieceNames {name : List Char} {ps : List (Piece Char)} :
    name ∈ pieceNames ps ↔ Piece.name name ∈ ps := by
  rw [pieceNames, List.mem_filterMap]
  constructor
  · rintro ⟨p, hp, hname⟩
    cases p with
    | sql s => cases hname
    | name m =>
        rw [Option.some.injEq] at hname
        exact hname ▸ hp
  · exact fun h => ⟨.name name, h, rfl⟩

/-- With a quote of one character that the SQL of a statement does not hold, the
names are clean exactly when none of them holds it. -/
theorem clean_iff_names {c : Char} {st : Statement} (hsql : ∀ s, .sql s ∈ st.pieces → c ∉ s) :
    Clean (Quote.single c) st.pieces ↔ ∀ name ∈ st.names, c ∉ name := by
  rw [clean_single_iff (spaced_pieces st) hsql, ← pieceNames_pieces]
  constructor
  · exact fun h name hname => h name (mem_pieceNames.mp hname)
  · exact fun h name hname => h name (mem_pieceNames.mpr hname)

/-- A quote in a table's name ends the identifier early: the rest of the name is
read as SQL. -/
theorem quote_in_name :
    lex (Quote.single '"') (dropText ['"'] ⟨none, none, ['a', '"', 'b']⟩) ≠
      tokens (Quote.single '"') (Statement.drop ⟨none, none, ['a', '"', 'b']⟩).pieces := by
  intro h
  have htext := dropText_pieces (Quote.single '"') ⟨none, none, ['a', '"', 'b']⟩
  have hclean := (lex_text_iff _ _).mp (htext ▸ h)
  have hsql : ∀ s, .sql s ∈ (Statement.drop ⟨none, none, ['a', '"', 'b']⟩).pieces → '"' ∉ s := by
    intro s hs
    have hdrop : s = "DROP TABLE ".toList := by
      simpa [Statement.pieces, targetPieces, qualifierPieces] using hs
    rw [hdrop]
    decide
  have hname := (clean_iff_names hsql).mp hclean ['a', '"', 'b'] (by decide)
  exact hname (by decide)

end AdbcBridge.Sql.Identifiers
