import AdbcBridge.Objects.GetObjects
import AdbcBridge.Objects.Like

/-!
# The filters of `GetObjects`

`CollectTables` enforces the filters of names itself; the types of tables, the columns and the
table that a column is of are left to the driver.  What is emitted keeps all filters exactly
when the driver keeps these, and lists no two tables of one name.
-/

namespace AdbcBridge.Objects

open AdbcBridge.Lib

variable {ε : Type*}

/-- The filter of types; no type and an empty list are no filter. -/
def typeMatches (tableType : Option (List Text)) (type : Option Text) : Bool :=
  (tableType.filter (· ≠ [])).all fun types => type.any fun t => types.contains t

/-- A table row that satisfies the filters. -/
structure Satisfies (q : ObjectsQuery) (r : TableRow) : Prop where
  catalog : nameMatches q.catalog r.catalog = true
  schema : nameMatches q.dbSchema r.schema = true
  table : nameMatches q.tableName r.table = true
  type : typeMatches q.tableType r.type = true

/-- A row of `SQLColumns` is about the table; a column that was described has no row, and was
selected under a spelling of the table. -/
def ColumnSource.BelongsTo (t : TableRow) : ColumnSource → Prop
  | .row r => nameOrNull r.tableCat = t.catalog ∧ nameOrNull r.tableSchem = t.schema ∧
      r.tableName = t.table
  | .described spelling _ _ => spelling ∈ spellings t

def CatalogOut.tables (c : CatalogOut) : List TableOut :=
  (c.schemas.getD []).flatMap fun s => s.tables.getD []

/-- All tables that are emitted. -/
def allTables (out : List CatalogOut) : List TableOut := out.flatMap CatalogOut.tables

/-- What is emitted keeps the filters, is nested where it belongs, and leaves nothing out. -/
structure Sound (conn : Connection ε) (q : ObjectsQuery) (out : List CatalogOut) : Prop where
  catalogs : (out.map CatalogOut.name).Nodup ∧ ∀ c ∈ out, nameMatches q.catalog c.name = true
  schemas : ∀ c ∈ out, ((c.schemas.getD []).map SchemaOut.name).Nodup ∧
    ∀ s ∈ c.schemas.getD [], nameMatches q.dbSchema s.name = true
  listed : ∀ rows, listRows conn q = .ok rows → ∀ r ∈ rows, keepRow q r = true →
    ∃ c ∈ out, c.name = r.catalog ∧
      (q.depth ≠ .catalogs → ∃ s ∈ c.schemas.getD [], s.name = r.schema)
  tables : ∀ c ∈ out, ∀ s ∈ c.schemas.getD [], ∀ t ∈ s.tables.getD [],
    t.row.catalog = c.name ∧ t.row.schema = s.name ∧ Satisfies q t.row ∧
      ∃ rows, listRows conn q = .ok rows ∧ t.row ∈ rows
  columns : ∀ t ∈ allTables out, ∀ col ∈ t.columns.getD [],
    col.BelongsTo t.row ∧ nameMatches q.columnName col.name = true
  complete : q.depth.hasTable = true → ∀ rows, listRows conn q = .ok rows → ∀ r ∈ rows,
    Satisfies q r → ((allTables out).map TableOut.row).count r = 1

/-- The catalog functions answer for what is reported. -/
structure Answers (conn : Connection ε) (q : ObjectsQuery) : Prop where
  listed : ∃ rows, listRows conn q = .ok rows
  columns : q.depth = .all → ∀ rows, listRows conn q = .ok rows → ∀ r ∈ rows,
    keepRow q r = true → ∃ columns, appendColumns conn r q.columnName = .ok columns

/-- What is left to the driver: it lists only tables of the types that were asked for and no
two of one name, and for a table it lists its own columns and of these what was asked for. -/
structure Enforced (conn : Connection ε) (q : ObjectsQuery) : Prop where
  types : q.depth.hasTable = true → ∀ rows, listRows conn q = .ok rows → ∀ r ∈ rows,
    keepRow q r = true → typeMatches q.tableType r.type = true
  names : q.depth.hasTable = true → ∀ rows, listRows conn q = .ok rows → ∀ r ∈ rows, ∀ r' ∈ rows,
    keepRow q r = true → keepRow q r' = true → r.name = r'.name → r = r'
  columns : q.depth = .all → conn.noSqlColumns = false →
    ∀ rows, listRows conn q = .ok rows → ∀ r ∈ rows, keepRow q r = true →
      ∀ cs, conn.columns r.name q.columnName = .ok cs → ∀ c ∈ cs,
        (ColumnSource.row c).BelongsTo r ∧ nameMatches q.columnName c.columnName = true

/-! ## The order of rows -/

theorem nameCmp_eq_iff {x y : TableName} : nameCmp x y = .eq ↔ x = y := by
  unfold nameCmp
  rw [Ordering.then_eq_eq, Ordering.then_eq_eq, strCmpNull_eq_iff, strCmpNull_eq_iff,
    strCmpNull_eq_iff, Prod.ext_iff, Prod.ext_iff]

instance : Std.TransCmp nameCmp :=
  inferInstanceAs (Std.TransCmp (compareLex (fun x y : TableName => strCmpNull x.1 y.1)
    (compareLex (fun x y : TableName => strCmpNull x.2.1 y.2.1)
      (fun x y : TableName => strCmpNull x.2.2 y.2.2))))

/-- Where neither is behind the other, a comparison that tells names apart finds them equal. -/
theorem eq_of_not_gt {α : Type*} {cmp : α → α → Ordering} [Std.OrientedCmp cmp]
    (heq : ∀ x y, cmp x y = .eq → x = y) (x y : α) (h : cmp x y ≠ .gt) (h' : cmp y x ≠ .gt) :
    x = y := by
  apply heq
  cases hcmp : cmp x y with
  | lt => exact absurd (Std.OrientedCmp.gt_of_lt hcmp) h'
  | eq => rfl
  | gt => exact absurd hcmp h

instance : Std.TransCmp strCmpNull :=
  inferInstanceAs (Std.TransCmp fun a b => strCmpNull (id a) (id b))

theorem nameCmp_antisymm (x y : TableName) : nameCmp x y ≠ .gt → nameCmp y x ≠ .gt → x = y :=
  eq_of_not_gt (fun _ _ => nameCmp_eq_iff.mp) x y

theorem strCmpNull_antisymm (x y : Option Text) :
    strCmpNull x y ≠ .gt → strCmpNull y x ≠ .gt → x = y :=
  eq_of_not_gt (fun _ _ => strCmpNull_eq_iff.mp) x y

/-- Rows in order are in the order of their catalogs. -/
theorem catalog_sorted {rows : List TableRow}
    (h : rows.Pairwise fun x y => tableRowCmp x y ≠ .gt) :
    rows.Pairwise fun x y => strCmpNull x.catalog y.catalog ≠ .gt := by
  apply h.imp
  intro x y hle hgt
  apply hle
  change (strCmpNull x.catalog y.catalog).then _ = _
  rw [hgt]
  rfl

/-- Rows of one catalog are in the order of their schemas. -/
theorem schema_sorted {rows : List TableRow} {catalog : Option Text}
    (hcatalog : ∀ r ∈ rows, r.catalog = catalog)
    (h : rows.Pairwise fun x y => tableRowCmp x y ≠ .gt) :
    rows.Pairwise fun x y => strCmpNull x.schema y.schema ≠ .gt := by
  apply h.imp_of_mem
  intro x y hx hy hle hgt
  apply hle
  change (strCmpNull x.catalog y.catalog).then _ = _
  rw [strCmpNull_eq_iff.mpr ((hcatalog x hx).trans (hcatalog y hy).symm)]
  change (strCmpNull x.schema y.schema).then _ = _
  rw [hgt]
  rfl

/-! ## The rows that are kept -/

section
variable {qsort : List TableRow → List TableRow} {rows : List TableRow} {r : TableRow}

theorem mem_of_kept (hsorts : Sorts qsort) (h : r ∈ sortAndDedupe qsort rows) : r ∈ rows :=
  (hsorts.perm rows).subset (Groups.dedupe_sublist.subset h)

theorem kept_sorted (hsorts : Sorts qsort) :
    (sortAndDedupe qsort rows).Pairwise fun x y => tableRowCmp x y ≠ .gt :=
  (hsorts.sorted rows).sublist Groups.dedupe_sublist

theorem kept_nodup (hsorts : Sorts qsort) :
    ((sortAndDedupe qsort rows).map TableRow.name).Nodup :=
  Groups.nodup_dedupe nameCmp_antisymm (hsorts.sorted rows)

theorem exists_kept_name (hsorts : Sorts qsort) (h : r ∈ rows) :
    ∃ r' ∈ sortAndDedupe qsort rows, r'.name = r.name :=
  Groups.exists_mem_dedupe ((hsorts.perm rows).mem_iff.mpr h)

end

/-- The rows in the order of `TableRowCmp`, those that compare equal as they came. -/
def sortRows (rows : List TableRow) : List TableRow :=
  rows.insertionSort fun x y => tableRowCmp x y ≠ .gt

instance : Std.TransCmp tableRowCmp where
  eq_swap := @fun x y => @Std.OrientedCmp.eq_swap _ nameCmp _ x.name y.name
  isLE_trans := @fun x y z => @Std.TransCmp.isLE_trans _ nameCmp _ x.name y.name z.name

instance : IsTrans TableRow fun x y => tableRowCmp x y ≠ .gt where
  trans := by
    intro x y z hxy hyz
    exact Ordering.isLE_iff_ne_gt.mp (Std.TransCmp.isLE_trans (Ordering.isLE_iff_ne_gt.mpr hxy)
      (Ordering.isLE_iff_ne_gt.mpr hyz))

instance : Std.Total fun x y : TableRow => tableRowCmp x y ≠ .gt where
  total := by
    intro x y
    by_cases h : tableRowCmp x y = .gt
    · right
      intro h'
      have hlt := Std.OrientedCmp.lt_of_gt h'
      rw [h] at hlt
      cases hlt
    · exact Or.inl h

theorem sortRows_sorts : Sorts sortRows where
  perm := fun rows => List.perm_insertionSort _ rows
  sorted := fun rows => List.pairwise_insertionSort _ rows

/-- A sort that puts `r` before the rows it compares equal to. -/
def sortFirst (r : TableRow) (rows : List TableRow) : List TableRow :=
  if r ∈ rows then sortRows (r :: rows.erase r) else sortRows rows

theorem sortFirst_sorts (r : TableRow) : Sorts (sortFirst r) where
  perm := by
    intro rows
    unfold sortFirst
    split_ifs with h
    · exact (sortRows_sorts.perm _).trans (List.perm_cons_erase h).symm
    · exact sortRows_sorts.perm rows
  sorted := by
    intro rows
    unfold sortFirst
    split_ifs
    · exact sortRows_sorts.sorted _
    · exact sortRows_sorts.sorted rows

theorem sortFirst_keeps {r : TableRow} {rows : List TableRow} (h : r ∈ rows) :
    r ∈ sortAndDedupe (sortFirst r) rows := by
  unfold sortAndDedupe
  rw [sortFirst, if_pos h, sortRows, List.insertionSort_cons_eq_take_drop]
  apply Groups.mem_dedupeFrom_append (Option.some_ne_none _).symm
  -- what stands before `r` is before it in the order too
  intro b hb hname
  have hgt := List.mem_takeWhile_imp hb
  rw [decide_eq_true_eq, not_not] at hgt
  have heq : tableRowCmp r b = .eq := nameCmp_eq_iff.mpr hname.symm
  rw [heq] at hgt
  cases hgt

/-! ## What is emitted -/

section
variable {conn : Connection ε} {q : ObjectsQuery} {qsort : List TableRow → List TableRow}
  {out : List CatalogOut}

theorem map_eq_ok {α β γ : Type*} {f : α → β} {x : Except γ α} {y : β}
    (h : x.map f = .ok y) : ∃ a, x = .ok a ∧ f a = y := by
  cases x with
  | error e => cases h
  | ok a => exact ⟨a, rfl, Except.ok.inj h⟩

theorem tableOut_row {r : TableRow} {t : TableOut} (h : tableOut conn q r = .ok t) :
    t.row = r := by
  unfold tableOut at h
  split_ifs at h
  · rw [← Except.ok.inj h]
  · obtain ⟨columns, -, ht⟩ := map_eq_ok h
    rw [← ht]

theorem schemaOut_name {g : Option Text × List TableRow} {s : SchemaOut}
    (h : schemaOut conn q g = .ok s) : s.name = g.1 := by
  unfold schemaOut at h
  split_ifs at h
  · rw [← Except.ok.inj h]
  · obtain ⟨tables, -, hs⟩ := map_eq_ok h
    rw [← hs]

theorem catalogOut_name {g : Option Text × List TableRow} {c : CatalogOut}
    (h : catalogOut conn q g = .ok c) : c.name = g.1 := by
  unfold catalogOut at h
  split_ifs at h
  · rw [← Except.ok.inj h]
  · obtain ⟨schemas, -, hc⟩ := map_eq_ok h
    rw [← hc]

/-- The tables of a schema come from its rows. -/
theorem schemaOut_tables {g : Option Text × List TableRow} {s : SchemaOut} {t : TableOut}
    (h : schemaOut conn q g = .ok s) (ht : t ∈ s.tables.getD []) :
    ∃ r ∈ g.2, tableOut conn q r = .ok t := by
  unfold schemaOut at h
  split_ifs at h
  · rw [← Except.ok.inj h] at ht
    cases ht
  · obtain ⟨tables, htables, hs⟩ := map_eq_ok h
    rw [← hs] at ht
    exact mem_of_mapM htables ht

/-- The schemas of a catalog are the groups of its rows. -/
theorem catalogOut_schemas {g : Option Text × List TableRow} {c : CatalogOut} {s : SchemaOut}
    (h : catalogOut conn q g = .ok c) (hs : s ∈ c.schemas.getD []) :
    ∃ g' ∈ Groups.groups TableRow.schema g.2, schemaOut conn q g' = .ok s := by
  unfold catalogOut at h
  split_ifs at h
  · rw [← Except.ok.inj h] at hs
    cases hs
  · obtain ⟨schemas, hschemas, hc⟩ := map_eq_ok h
    rw [← hc] at hs
    exact mem_of_mapM hschemas hs

theorem catalogOut_schemaNames {g : Option Text × List TableRow} {c : CatalogOut}
    (h : catalogOut conn q g = .ok c) (hdepth : q.depth ≠ .catalogs) :
    (c.schemas.getD []).map SchemaOut.name =
      (Groups.groups TableRow.schema g.2).map Prod.fst := by
  unfold catalogOut at h
  rw [if_neg hdepth] at h
  obtain ⟨schemas, hschemas, hc⟩ := map_eq_ok h
  rw [← hc]
  exact map_of_mapM (fun _ _ => schemaOut_name) hschemas

theorem catalogOut_atCatalogs {g : Option Text × List TableRow} {c : CatalogOut}
    (h : catalogOut conn q g = .ok c) (hdepth : q.depth = .catalogs) : c.schemas.getD [] = [] := by
  unfold catalogOut at h
  rw [if_pos hdepth] at h
  rw [← Except.ok.inj h]
  rfl

/-- At a depth that reports tables each row of a schema is one. -/
theorem schemaOut_rows {g : Option Text × List TableRow} {s : SchemaOut}
    (h : schemaOut conn q g = .ok s) (hdepth : q.depth.hasTable = true) :
    (s.tables.getD []).map TableOut.row = g.2 := by
  have hdeep := (of_decide_eq_true hdepth).2
  unfold schemaOut at h
  rw [if_neg hdeep] at h
  obtain ⟨tables, htables, hs⟩ := map_eq_ok h
  have hrows : tables.map TableOut.row = g.2.map id := map_of_mapM (fun _ _ => tableOut_row) htables
  rw [List.map_id] at hrows
  rw [← hs]
  exact hrows

theorem catalogOut_rows {g : Option Text × List TableRow} {c : CatalogOut}
    (h : catalogOut conn q g = .ok c) (hdepth : q.depth.hasTable = true) :
    c.tables.map TableOut.row = g.2 := by
  have hdeep := (of_decide_eq_true hdepth).1
  unfold catalogOut at h
  rw [if_neg hdeep] at h
  obtain ⟨schemas, hschemas, hc⟩ := map_eq_ok h
  have hrows : schemas.map (fun s => (s.tables.getD []).map TableOut.row) =
      (Groups.groups TableRow.schema g.2).map Prod.snd :=
    map_of_mapM (fun _ _ hs => schemaOut_rows hs hdepth) hschemas
  rw [← hc, CatalogOut.tables, List.map_flatMap]
  calc
    _ = (schemas.map fun s => (s.tables.getD []).map TableOut.row).flatten := List.flatMap_def ..
    _ = ((Groups.groups TableRow.schema g.2).map Prod.snd).flatten := by rw [hrows]
    _ = (Groups.groups TableRow.schema g.2).flatMap Prod.snd := (List.flatMap_def ..).symm
    _ = g.2 := Groups.flatMap_groups g.2

end

/-! ## The filters that are enforced -/

theorem keepRow_iff {q : ObjectsQuery} {r : TableRow} :
    keepRow q r = true ↔ nameMatches q.catalog r.catalog = true ∧
      (q.depth ≠ .catalogs → nameMatches q.dbSchema r.schema = true) ∧
      (q.depth.hasTable = true → nameMatches q.tableName r.table = true) := by
  simp [keepRow, and_assoc, or_iff_not_imp_left]

theorem satisfies_iff {q : ObjectsQuery} {r : TableRow} (hdepth : q.depth.hasTable = true) :
    Satisfies q r ↔ keepRow q r = true ∧ typeMatches q.tableType r.type = true := by
  rw [keepRow_iff]
  constructor
  · intro h
    exact ⟨⟨h.catalog, fun _ => h.schema, fun _ => h.table⟩, h.type⟩
  · intro h
    exact ⟨h.1.1, h.1.2.1 (of_decide_eq_true hdepth).1, h.1.2.2 hdepth, h.2⟩

/-- The rows that are emitted. -/
def keptRows (qsort : List TableRow → List TableRow) (q : ObjectsQuery) (rows : List TableRow) :
    List TableRow :=
  sortAndDedupe qsort (rows.filter (keepRow q))

/-- `rows` were listed and `out` is what was emitted of them. -/
structure Emitted (qsort : List TableRow → List TableRow) (conn : Connection ε) (q : ObjectsQuery)
    (rows : List TableRow) (out : List CatalogOut) : Prop where
  sorts : Sorts qsort
  listed : listRows conn q = .ok rows
  built : (Groups.groups TableRow.catalog (keptRows qsort q rows)).mapM (catalogOut conn q) =
    .ok out

section
variable {conn : Connection ε} {q : ObjectsQuery} {qsort : List TableRow → List TableRow}
  {rows : List TableRow} {out : List CatalogOut}

theorem emitted_of_getObjects (hsorts : Sorts qsort) (h : getObjects qsort conn q = .ok out) :
    ∃ rows, Emitted qsort conn q rows out := by
  unfold getObjects at h
  cases hcollect : collectTables qsort conn q with
  | error e =>
      rw [hcollect] at h
      cases h
  | ok kept =>
      rw [hcollect] at h
      obtain ⟨rows, hrows, hkept⟩ := map_eq_ok hcollect
      rw [← hkept] at h
      exact ⟨rows, hsorts, hrows, h⟩

theorem Emitted.kept (h : Emitted qsort conn q rows out) {r : TableRow}
    (hr : r ∈ keptRows qsort q rows) : r ∈ rows ∧ keepRow q r = true :=
  List.mem_filter.mp (mem_of_kept h.sorts hr)

theorem Emitted.sorted (h : Emitted qsort conn q rows out) :
    (keptRows qsort q rows).Pairwise fun x y => tableRowCmp x y ≠ .gt := kept_sorted h.sorts

/-- A catalog that is emitted is a group of rows. -/
theorem Emitted.group (h : Emitted qsort conn q rows out) {c : CatalogOut} (hc : c ∈ out) :
    ∃ g ∈ Groups.groups TableRow.catalog (keptRows qsort q rows), catalogOut conn q g = .ok c :=
  mem_of_mapM h.built hc

theorem Emitted.catalogNames (h : Emitted qsort conn q rows out) :
    out.map CatalogOut.name =
      (Groups.groups TableRow.catalog (keptRows qsort q rows)).map Prod.fst :=
  map_of_mapM (fun _ _ => catalogOut_name) h.built

theorem Emitted.catalogs_nodup (h : Emitted qsort conn q rows out) :
    (out.map CatalogOut.name).Nodup := by
  rw [h.catalogNames]
  exact Groups.nodup_groups strCmpNull_antisymm (catalog_sorted h.sorted)

/-- The rows of a catalog are in order, and of one catalog. -/
theorem Emitted.schema_sorted (h : Emitted qsort conn q rows out)
    {g : Option Text × List TableRow}
    (hg : g ∈ Groups.groups TableRow.catalog (keptRows qsort q rows)) :
    g.2.Pairwise fun x y => strCmpNull x.schema y.schema ≠ .gt :=
  Objects.schema_sorted (Groups.key_of_mem_groups hg) (h.sorted.sublist (Groups.groups_sublist hg))

theorem Emitted.schemas_nodup (h : Emitted qsort conn q rows out) {c : CatalogOut} (hc : c ∈ out) :
    ((c.schemas.getD []).map SchemaOut.name).Nodup := by
  obtain ⟨g, hg, hbuilt⟩ := h.group hc
  by_cases hdepth : q.depth = .catalogs
  · rw [catalogOut_atCatalogs hbuilt hdepth]
    exact List.nodup_nil
  · rw [catalogOut_schemaNames hbuilt hdepth]
    exact Groups.nodup_groups strCmpNull_antisymm (h.schema_sorted hg)

/-- What is listed and kept has its catalog and its schema among what is emitted. -/
theorem Emitted.names_listed (h : Emitted qsort conn q rows out) {r : TableRow} (hr : r ∈ rows)
    (hkeep : keepRow q r = true) : ∃ c ∈ out, c.name = r.catalog ∧
      (q.depth ≠ .catalogs → ∃ s ∈ c.schemas.getD [], s.name = r.schema) := by
  obtain ⟨r', hkept, hname⟩ := exists_kept_name h.sorts (List.mem_filter.mpr ⟨hr, hkeep⟩)
  have hcatalog : r'.catalog = r.catalog := congrArg Prod.fst hname
  have hschema : r'.schema = r.schema := congrArg (fun n => n.2.1) hname
  obtain ⟨g, hg, hkey, hmem⟩ := Groups.exists_group TableRow.catalog hkept
  have hin : g.1 ∈ out.map CatalogOut.name := by
    rw [h.catalogNames]
    exact List.mem_map_of_mem hg
  obtain ⟨c, hc, hcname⟩ := List.mem_map.mp hin
  refine ⟨c, hc, by rw [hcname, hkey, hcatalog], ?_⟩
  intro hdepth
  obtain ⟨g', hg', hbuilt⟩ := h.group hc
  -- one catalog has one group
  have hsame : g' = g := by
    apply List.inj_on_of_nodup_map (Groups.nodup_groups strCmpNull_antisymm
      (catalog_sorted h.sorted)) hg' hg
    rw [← catalogOut_name hbuilt, hcname]
  rw [hsame] at hbuilt
  obtain ⟨gs, hgs, hskey, -⟩ := Groups.exists_group TableRow.schema hmem
  have hsin : gs.1 ∈ (c.schemas.getD []).map SchemaOut.name := by
    rw [catalogOut_schemaNames hbuilt hdepth]
    exact List.mem_map_of_mem hgs
  obtain ⟨s, hs, hsname⟩ := List.mem_map.mp hsin
  exact ⟨s, hs, by rw [hsname, hskey, hschema]⟩

theorem Emitted.catalog_matches (h : Emitted qsort conn q rows out) {c : CatalogOut}
    (hc : c ∈ out) : nameMatches q.catalog c.name = true := by
  obtain ⟨g, hg, hbuilt⟩ := h.group hc
  obtain ⟨r, hr, hkey⟩ := Groups.exists_of_mem_groups hg
  rw [catalogOut_name hbuilt, ← hkey]
  exact (keepRow_iff.mp (h.kept hr).2).1

/-- A schema that is emitted is a group of the rows of its catalog. -/
theorem Emitted.schema_group (h : Emitted qsort conn q rows out) {c : CatalogOut} (hc : c ∈ out)
    {s : SchemaOut} (hs : s ∈ c.schemas.getD []) :
    ∃ g ∈ Groups.groups TableRow.catalog (keptRows qsort q rows), g.1 = c.name ∧
      ∃ g' ∈ Groups.groups TableRow.schema g.2, schemaOut conn q g' = .ok s := by
  obtain ⟨g, hg, hbuilt⟩ := h.group hc
  obtain ⟨g', hg', hschema⟩ := catalogOut_schemas hbuilt hs
  exact ⟨g, hg, (catalogOut_name hbuilt).symm, g', hg', hschema⟩

theorem Emitted.schema_matches (h : Emitted qsort conn q rows out) {c : CatalogOut} (hc : c ∈ out)
    {s : SchemaOut} (hs : s ∈ c.schemas.getD []) : nameMatches q.dbSchema s.name = true := by
  have hdepth : q.depth ≠ .catalogs := by
    intro hdepth
    obtain ⟨g, -, hbuilt⟩ := h.group hc
    rw [catalogOut_atCatalogs hbuilt hdepth] at hs
    cases hs
  obtain ⟨g, hg, -, g', hg', hschema⟩ := h.schema_group hc hs
  obtain ⟨r, hr, hkey⟩ := Groups.exists_of_mem_groups hg'
  rw [schemaOut_name hschema, ← hkey]
  exact (keepRow_iff.mp (h.kept ((Groups.groups_sublist hg).subset hr)).2).2.1 hdepth

/-- A table that is emitted is a row that is kept, under its own catalog and schema. -/
theorem Emitted.table (h : Emitted qsort conn q rows out) {c : CatalogOut} (hc : c ∈ out)
    {s : SchemaOut} (hs : s ∈ c.schemas.getD []) {t : TableOut} (ht : t ∈ s.tables.getD []) :
    t.row ∈ keptRows qsort q rows ∧ t.row.catalog = c.name ∧ t.row.schema = s.name ∧
      tableOut conn q t.row = .ok t := by
  obtain ⟨g, hg, hcname, g', hg', hschema⟩ := h.schema_group hc hs
  obtain ⟨r, hr, hbuilt⟩ := schemaOut_tables hschema ht
  have hrow := tableOut_row hbuilt
  have hmem := (Groups.groups_sublist hg').subset hr
  rw [hrow, schemaOut_name hschema, ← hcname]
  exact ⟨(Groups.groups_sublist hg).subset hmem, Groups.key_of_mem_groups hg r hmem,
    Groups.key_of_mem_groups hg' r hr, hbuilt⟩

theorem mem_allTables {t : TableOut} : t ∈ allTables out ↔
    ∃ c ∈ out, ∃ s ∈ c.schemas.getD [], t ∈ s.tables.getD [] := by
  simp only [allTables, CatalogOut.tables, List.mem_flatMap]

/-- Each row that is kept is a table once. -/
theorem Emitted.rows_eq (h : Emitted qsort conn q rows out) (hdepth : q.depth.hasTable = true) :
    (allTables out).map TableOut.row = keptRows qsort q rows := by
  have hrows : out.map (fun c => c.tables.map TableOut.row) =
      (Groups.groups TableRow.catalog (keptRows qsort q rows)).map Prod.snd :=
    map_of_mapM (fun _ _ hc => catalogOut_rows hc hdepth) h.built
  rw [allTables, List.map_flatMap]
  calc
    _ = (out.map fun c => c.tables.map TableOut.row).flatten := List.flatMap_def ..
    _ = ((Groups.groups TableRow.catalog (keptRows qsort q rows)).map Prod.snd).flatten := by
      rw [hrows]
    _ = (Groups.groups TableRow.catalog (keptRows qsort q rows)).flatMap Prod.snd :=
      (List.flatMap_def ..).symm
    _ = keptRows qsort q rows := Groups.flatMap_groups _

end

/-! ## Columns -/

theorem nameMatches_some (pat name : Text) :
    nameMatches (some pat) (some name) = likeMatch pat name := by
  cases pat with
  | cons p pat => rfl
  | nil =>
      cases name with
      | nil => exact (likeMatch_iff [] [] |>.mpr Like.done).symm
      | cons c s =>
          have hunmatched : ¬ likeMatch [] (c :: s) = true := by
            rw [likeMatch_iff]
            intro h
            cases h
          exact (Bool.eq_false_iff.mpr hunmatched).symm

section
variable {conn : Connection ε} {q : ObjectsQuery} {qsort : List TableRow → List TableRow}
  {rows : List TableRow} {out : List CatalogOut} {columnName : Option Text}

/-- What is described has passed the filter. -/
theorem describedColumns_match {spelling : TableName} {columns : List (Option DescribedColumn)}
    {col : ColumnSource} (h : col ∈ describedColumns spelling columns columnName) :
    (∃ ordinal c, col = .described spelling ordinal c) ∧
      nameMatches columnName col.name = true := by
  obtain ⟨c, -, hc⟩ := List.mem_filterMap.mp h
  rw [Option.map_eq_some_iff] at hc
  obtain ⟨column, hcolumn, hcol⟩ := hc
  have hmatch := (Option.filter_eq_some_iff.mp hcolumn).2
  rw [← hcol]
  refine ⟨⟨c.2, column, rfl⟩, ?_⟩
  cases columnName with
  | none => rfl
  | some pat => exact (nameMatches_some pat column.name).trans hmatch

theorem describeTableStmt_spelling {t : TableRow}
    {found : TableName × List (Option DescribedColumn)}
    (h : describeTableStmt conn t = some found) : found.1 ∈ spellings t := by
  obtain ⟨spelling, hmem, hselect⟩ := List.exists_of_findSome?_eq_some h
  obtain ⟨columns, -, hfound⟩ := Option.map_eq_some_iff.mp hselect
  rw [← hfound]
  exact hmem

/-- A column of a table is a row of `SQLColumns`, or it was described and passed the filter. -/
theorem appendColumns_cases {t : TableRow} {columns : List ColumnSource}
    (h : appendColumns conn t columnName = .ok columns) {col : ColumnSource}
    (hcol : col ∈ columns) :
    (conn.noSqlColumns = false ∧ ∃ cs, conn.columns t.name columnName = .ok cs ∧
        ∃ c ∈ cs, col = .row c) ∨
      col.BelongsTo t ∧ nameMatches columnName col.name = true := by
  have hdescribed : ∀ found, appendColumnsViaDescribe conn t columnName = some found →
      col ∈ found → col.BelongsTo t ∧ nameMatches columnName col.name = true := by
    intro found hfound hmem
    obtain ⟨stmt, hstmt, hcolumns⟩ := Option.map_eq_some_iff.mp hfound
    rw [← hcolumns] at hmem
    obtain ⟨⟨ordinal, c, heq⟩, hmatch⟩ := describedColumns_match hmem
    refine ⟨?_, hmatch⟩
    rw [heq]
    exact describeTableStmt_spelling hstmt
  unfold appendColumns at h
  dsimp only at h
  split_ifs at h with hskip
  · split at h
    · rename_i found hfound
      rw [← Except.ok.inj h] at hcol
      exact Or.inr (hdescribed found hfound hcol)
    · cases h
  · split at h
    · rename_i cs hcs
      rw [← Except.ok.inj h] at hcol
      obtain ⟨c, hc, heq⟩ := List.mem_map.mp hcol
      exact Or.inl ⟨Bool.eq_false_iff.mpr hskip, cs, hcs, c, hc, heq.symm⟩
    · split at h
      · rename_i found hfound
        rw [← Except.ok.inj h] at hcol
        exact Or.inr (hdescribed found hfound hcol)
      · cases h

/-- The columns are asked for by the name of the table alone. -/
theorem appendColumns_congr {r r' : TableRow} (hname : r.name = r'.name) :
    appendColumns conn r columnName = appendColumns conn r' columnName := by
  have hspellings : spellings r = spellings r' := by
    simp only [TableRow.name, Prod.mk.injEq] at hname
    unfold spellings
    rw [hname.1, hname.2.1, hname.2.2]
  unfold appendColumns appendColumnsViaDescribe describeTableStmt
  rw [hname, hspellings]

theorem tableOut_columns {r : TableRow} {t : TableOut} (h : tableOut conn q r = .ok t)
    {col : ColumnSource} (hcol : col ∈ t.columns.getD []) :
    q.depth ≠ .tables ∧ ∃ columns, appendColumns conn r q.columnName = .ok columns ∧
      col ∈ columns := by
  unfold tableOut at h
  split_ifs at h with hdepth
  · rw [← Except.ok.inj h] at hcol
    cases hcol
  · obtain ⟨columns, hcolumns, ht⟩ := map_eq_ok h
    rw [← ht] at hcol
    exact ⟨hdepth, columns, hcolumns, hcol⟩

/-- Tables are reported at two depths, and their columns at one of them. -/
theorem depth_all {depth : Depth} (htable : depth.hasTable = true) (h : depth ≠ .tables) :
    depth = .all := by
  cases depth with
  | all => rfl
  | catalogs => exact absurd rfl (of_decide_eq_true htable).1
  | dbSchemas => exact absurd rfl (of_decide_eq_true htable).2
  | tables => exact absurd rfl h

theorem schemaOut_atSchemas {g : Option Text × List TableRow} {s : SchemaOut} {t : TableOut}
    (h : schemaOut conn q g = .ok s) (ht : t ∈ s.tables.getD []) : q.depth ≠ .dbSchemas := by
  intro hdepth
  unfold schemaOut at h
  rw [if_pos hdepth] at h
  rw [← Except.ok.inj h] at ht
  cases ht

theorem Emitted.hasTable (h : Emitted qsort conn q rows out) {t : TableOut}
    (ht : t ∈ allTables out) : q.depth.hasTable = true := by
  obtain ⟨c, hc, s, hs, htable⟩ := mem_allTables.mp ht
  obtain ⟨g, hg, hbuilt⟩ := h.group hc
  obtain ⟨g', -, hschema⟩ := catalogOut_schemas hbuilt hs
  apply decide_eq_true
  refine ⟨?_, schemaOut_atSchemas hschema htable⟩
  intro hdepth
  rw [catalogOut_atCatalogs hbuilt hdepth] at hs
  cases hs

/-- A table that is emitted is a row that is kept. -/
theorem Emitted.table_kept (h : Emitted qsort conn q rows out) {t : TableOut}
    (ht : t ∈ allTables out) : t.row ∈ keptRows qsort q rows ∧ tableOut conn q t.row = .ok t := by
  obtain ⟨c, hc, s, hs, htable⟩ := mem_allTables.mp ht
  have htable := h.table hc hs htable
  exact ⟨htable.1, htable.2.2.2⟩

/-- Every row that is kept is a table. -/
theorem Emitted.kept_table (h : Emitted qsort conn q rows out) (hdepth : q.depth.hasTable = true)
    {r : TableRow} (hr : r ∈ keptRows qsort q rows) :
    ∃ t ∈ allTables out, t.row = r ∧ tableOut conn q r = .ok t := by
  rw [← h.rows_eq hdepth] at hr
  obtain ⟨t, ht, hrow⟩ := List.mem_map.mp hr
  have hbuilt := (h.table_kept ht).2
  rw [hrow] at hbuilt
  exact ⟨t, ht, hrow, hbuilt⟩

theorem Emitted.names_nodup (h : Emitted qsort conn q rows out) :
    ((keptRows qsort q rows).map TableRow.name).Nodup := kept_nodup h.sorts

theorem Enforced.columns_sound (henforced : Enforced conn q) (h : Emitted qsort conn q rows out)
    {t : TableOut} (ht : t ∈ allTables out) {col : ColumnSource} (hcol : col ∈ t.columns.getD []) :
    col.BelongsTo t.row ∧ nameMatches q.columnName col.name = true := by
  obtain ⟨hkept, hbuilt⟩ := h.table_kept ht
  obtain ⟨hdepth, columns, hcolumns, hmem⟩ := tableOut_columns hbuilt hcol
  cases appendColumns_cases hcolumns hmem with
  | inl hrow =>
      obtain ⟨hasked, cs, hcs, c, hc, heq⟩ := hrow
      rw [heq]
      exact henforced.columns (depth_all (h.hasTable ht) hdepth) hasked rows h.listed t.row
        (h.kept hkept).1 (h.kept hkept).2 cs hcs c hc
  | inr hdescribed => exact hdescribed

/-- A row that satisfies the filters is kept, where no other has its name. -/
theorem Enforced.complete (henforced : Enforced conn q) (h : Emitted qsort conn q rows out)
    (hdepth : q.depth.hasTable = true) {r : TableRow} (hr : r ∈ rows) (hsatisfies : Satisfies q r) :
    ((allTables out).map TableOut.row).count r = 1 := by
  have hkeep := ((satisfies_iff hdepth).mp hsatisfies).1
  obtain ⟨r', hkept, hname⟩ := exists_kept_name h.sorts (List.mem_filter.mpr ⟨hr, hkeep⟩)
  have hsame : r' = r := henforced.names hdepth rows h.listed r' (h.kept hkept).1 r hr
    (h.kept hkept).2 hkeep hname
  rw [h.rows_eq hdepth]
  apply List.count_eq_one_of_mem h.names_nodup.of_map
  rw [← hsame]
  exact hkept

theorem Enforced.sound (henforced : Enforced conn q) (h : Emitted qsort conn q rows out) :
    Sound conn q out where
  catalogs := ⟨h.catalogs_nodup, fun _ hc => h.catalog_matches hc⟩
  schemas := fun _ hc => ⟨h.schemas_nodup hc, fun _ hs => h.schema_matches hc hs⟩
  listed := by
    intro rows' hrows' r hr hkeep
    rw [Except.ok.inj (hrows'.symm.trans h.listed)] at hr
    exact h.names_listed hr hkeep
  tables := by
    intro c hc s hs t ht
    obtain ⟨hkept, hcatalog, hschema, -⟩ := h.table hc hs ht
    have hdepth := h.hasTable (mem_allTables.mpr ⟨c, hc, s, hs, ht⟩)
    obtain ⟨hr, hkeep⟩ := h.kept hkept
    have htype := henforced.types hdepth rows h.listed t.row hr hkeep
    exact ⟨hcatalog, hschema, (satisfies_iff hdepth).mpr ⟨hkeep, htype⟩, rows, h.listed, hr⟩
  columns := fun _ ht _ hcol => henforced.columns_sound h ht hcol
  complete := by
    intro hdepth rows' hrows' r hr hsatisfies
    rw [Except.ok.inj (hrows'.symm.trans h.listed)] at hr
    exact henforced.complete h hdepth hr hsatisfies

/-! ## What has to be enforced -/

/-- A call succeeds exactly when the catalog functions answer, in whatever order `qsort` leaves
rows of one name. -/
theorem Answers.emits (hanswers : Answers conn q) (hsorts : Sorts qsort) :
    ∃ out, getObjects qsort conn q = .ok out := by
  obtain ⟨rows, hrows⟩ := hanswers.listed
  have htable : ∀ r ∈ keptRows qsort q rows, q.depth.hasTable = true →
      ∃ t, tableOut conn q r = .ok t := by
    intro r hr hdepth
    unfold tableOut
    split_ifs with htables
    · exact ⟨_, rfl⟩
    · have hmem := List.mem_filter.mp (mem_of_kept hsorts hr)
      obtain ⟨columns, hcolumns⟩ := hanswers.columns (depth_all hdepth htables) rows hrows r
        hmem.1 hmem.2
      rw [hcolumns]
      exact ⟨_, rfl⟩
  have hbuilt : ∃ out, (Groups.groups TableRow.catalog (keptRows qsort q rows)).mapM
      (catalogOut conn q) = .ok out := by
    rw [mapM_ok_iff]
    intro g hg
    unfold catalogOut
    split_ifs with hcatalogs
    · exact ⟨_, rfl⟩
    have hschemas : ∃ schemas, (Groups.groups TableRow.schema g.2).mapM (schemaOut conn q) =
        .ok schemas := by
      rw [mapM_ok_iff]
      intro g' hg'
      unfold schemaOut
      split_ifs with hschemas
      · exact ⟨_, rfl⟩
      have htables : ∃ tables, g'.2.mapM (tableOut conn q) = .ok tables := by
        rw [mapM_ok_iff]
        intro r hr
        exact htable r ((Groups.groups_sublist hg).subset ((Groups.groups_sublist hg').subset hr))
          (decide_eq_true ⟨hcatalogs, hschemas⟩)
      obtain ⟨tables, htables⟩ := htables
      rw [htables]
      exact ⟨_, rfl⟩
    obtain ⟨schemas, hschemas⟩ := hschemas
    rw [hschemas]
    exact ⟨_, rfl⟩
  obtain ⟨out, hout⟩ := hbuilt
  refine ⟨out, ?_⟩
  unfold getObjects collectTables
  rw [hrows]
  exact hout

theorem Emitted.answers (h : Emitted qsort conn q rows out) : Answers conn q where
  listed := ⟨rows, h.listed⟩
  columns := by
    intro hdepth rows' hrows' r hr hkeep
    rw [Except.ok.inj (hrows'.symm.trans h.listed)] at hr
    obtain ⟨r', hkept, hname⟩ := exists_kept_name h.sorts (List.mem_filter.mpr ⟨hr, hkeep⟩)
    have htable : q.depth.hasTable = true := by rw [hdepth]; rfl
    obtain ⟨t, -, -, hbuilt⟩ := h.kept_table htable hkept
    unfold tableOut at hbuilt
    rw [if_neg (by rw [hdepth]; decide)] at hbuilt
    obtain ⟨columns, hcolumns, -⟩ := map_eq_ok hbuilt
    exact ⟨columns, (appendColumns_congr hname).symm.trans hcolumns⟩

/-- Any row that is kept may be the one of its name that is emitted. -/
theorem Answers.emits_row (hanswers : Answers conn q) (hdepth : q.depth.hasTable = true)
    (hrows : listRows conn q = .ok rows) {r : TableRow} (hr : r ∈ rows)
    (hkeep : keepRow q r = true) : ∃ qsort out, Sorts qsort ∧ getObjects qsort conn q = .ok out ∧
      Emitted qsort conn q rows out ∧
      ∃ t ∈ allTables out, t.row = r ∧ tableOut conn q r = .ok t := by
  have hsorts := sortFirst_sorts r
  obtain ⟨out, hout⟩ := hanswers.emits hsorts
  obtain ⟨rows', hemitted⟩ := emitted_of_getObjects hsorts hout
  have hsame : rows' = rows := Except.ok.inj (hemitted.listed.symm.trans hrows)
  rw [hsame] at hemitted
  have hkept : r ∈ keptRows (sortFirst r) q rows :=
    sortFirst_keeps (List.mem_filter.mpr ⟨hr, hkeep⟩)
  exact ⟨sortFirst r, out, hsorts, hout, hemitted, hemitted.kept_table hdepth hkept⟩

/-- Every call that succeeds emits what the filters say exactly when the driver enforces what
is left to it. -/
theorem getObjects_sound_iff (conn : Connection ε) (q : ObjectsQuery) :
    (∀ qsort, Sorts qsort → ∀ out, getObjects qsort conn q = .ok out → Sound conn q out) ↔
      (Answers conn q → Enforced conn q) := by
  constructor
  · intro h hanswers
    have hsatisfies : q.depth.hasTable = true → ∀ rows, listRows conn q = .ok rows → ∀ r ∈ rows,
        keepRow q r = true → Satisfies q r := by
      intro hdepth rows hrows r hr hkeep
      obtain ⟨qsort, out, hsorts, hout, -, t, ht, hrow, -⟩ :=
        hanswers.emits_row hdepth hrows hr hkeep
      obtain ⟨c, hc, s, hs, htable⟩ := mem_allTables.mp ht
      have hsound := (h qsort hsorts out hout).tables c hc s hs t htable
      rw [hrow] at hsound
      exact hsound.2.2.1
    refine ⟨?_, ?_, ?_⟩
    · intro hdepth rows hrows r hr hkeep
      exact (hsatisfies hdepth rows hrows r hr hkeep).type
    · intro hdepth rows hrows r hr r' hr' hkeep hkeep' hname
      obtain ⟨qsort, out, hsorts, hout, hemitted, -⟩ := hanswers.emits_row hdepth hrows hr hkeep
      have hcomplete := (h qsort hsorts out hout).complete hdepth rows hrows
      have hcount := hcomplete r hr (hsatisfies hdepth rows hrows r hr hkeep)
      have hcount' := hcomplete r' hr' (hsatisfies hdepth rows hrows r' hr' hkeep')
      rw [hemitted.rows_eq hdepth] at hcount hcount'
      have hmem := List.count_pos_iff.mp (hcount ▸ Nat.one_pos)
      have hmem' := List.count_pos_iff.mp (hcount' ▸ Nat.one_pos)
      exact List.inj_on_of_nodup_map hemitted.names_nodup hmem hmem' hname
    · intro hdepth hasked rows hrows r hr hkeep cs hcs c hc
      have htable : q.depth.hasTable = true := by rw [hdepth]; rfl
      obtain ⟨qsort, out, hsorts, hout, -, t, ht, hrow, hbuilt⟩ :=
        hanswers.emits_row htable hrows hr hkeep
      have hcolumns : appendColumns conn r q.columnName = .ok (cs.map .row) := by
        unfold appendColumns
        dsimp only
        rw [if_neg (Bool.eq_false_iff.mp hasked), hcs]
      unfold tableOut at hbuilt
      rw [if_neg (by rw [hdepth]; decide), hcolumns] at hbuilt
      have hcol : ColumnSource.row c ∈ t.columns.getD [] := by
        rw [← Except.ok.inj hbuilt]
        exact List.mem_map_of_mem hc
      have hsound := (h qsort hsorts out hout).columns t ht _ hcol
      rw [hrow] at hsound
      exact hsound
  · intro henforced qsort hsorts out hout
    obtain ⟨rows, hemitted⟩ := emitted_of_getObjects hsorts hout
    exact (henforced hemitted.answers).sound hemitted

end

/-! ## A name that is a pattern -/

def tableNamed (name : String) : TableRow where
  table := some (ascii name)
  type := some (ascii "TABLE")

def columnOf (table : String) : ColumnRow where
  tableCat := none
  tableSchem := none
  tableName := some (ascii table)
  columnName := some (ascii "id")

/-- A driver with the tables `a_b` and `axb`, whose `SQLColumns` takes the name of a table as
the pattern it is. -/
def patternDriver : Connection Unit where
  noSqlColumns := false
  currentCatalog := none
  tables := fun _ => .ok [tableNamed "a_b", tableNamed "axb"]
  columns := fun name _ =>
    .ok (if name.2.2 = some (ascii "a_b") then [columnOf "a_b", columnOf "axb"]
      else [columnOf "axb"])
  select := fun _ => none
  primaryKeys := fun _ => none
  foreignKeys := fun _ => none

theorem patternDriver_answers : Answers patternDriver { depth := .all } where
  listed := ⟨_, rfl⟩
  columns := fun _ _ _ _ _ _ => ⟨_, rfl⟩

/-- The column of `axb` is emitted under `a_b` too. -/
theorem underscore_borrows_column : ∃ out,
    getObjects sortRows patternDriver { depth := .all } = .ok out ∧
      ¬ Sound patternDriver { depth := .all } out := by
  obtain ⟨out, hout⟩ := patternDriver_answers.emits sortRows_sorts
  refine ⟨out, hout, ?_⟩
  intro hsound
  obtain ⟨rows, hemitted⟩ := emitted_of_getObjects sortRows_sorts hout
  have hrows : [tableNamed "a_b", tableNamed "axb"] = rows := Except.ok.inj hemitted.listed
  have hkept : tableNamed "a_b" ∈ keptRows sortRows { depth := .all } rows := by
    rw [← hrows]
    decide
  obtain ⟨t, ht, hrow, hbuilt⟩ := hemitted.kept_table rfl hkept
  have hcol : ColumnSource.row (columnOf "axb") ∈ t.columns.getD [] := by
    rw [← Except.ok.inj hbuilt]
    decide
  have hbelongs := (hsound.columns t ht _ hcol).1
  rw [hrow] at hbelongs
  exact absurd hbelongs.2.2 (by decide)

end AdbcBridge.Objects
