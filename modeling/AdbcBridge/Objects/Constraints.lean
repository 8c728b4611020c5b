import AdbcBridge.Lib.Counting
import Mathlib

/-!
# Constraints of a table

`AppendConstraints` of `GetObjects`: what is emitted for the rows of `SQLPrimaryKeys` and
`SQLForeignKeys`, and which results of the latter come out key by key.
-/

namespace AdbcBridge.Objects.Constraints

open AdbcBridge.Lib

abbrev Text := List Char

/-! ## What is emitted -/

inductive ConstraintType where
  | primaryKey
  | foreignKey
deriving DecidableEq, Repr

/-- An element of `constraint_column_usage`. -/
structure Usage where
  catalog : Option Text
  schema : Option Text
  table : Text
  column : Text
deriving DecidableEq, Repr

/-- An element of `table_constraints`. -/
structure Constraint where
  name : Option Text
  type : ConstraintType
  columnNames : List Text
  columnUsage : Option (List Usage)
deriving DecidableEq, Repr

/-- The columns `AppendConstraints` reads of a row of `SQLPrimaryKeys`. -/
structure PkResultRow where
  columnName : Option Text
  pkName : Option Text
deriving DecidableEq, Repr

/-- The columns it reads of a row of `SQLForeignKeys`. -/
structure FkResultRow where
  pkTableCat : Option Text
  pkTableSchem : Option Text
  pkTableName : Option Text
  pkColumnName : Option Text
  fkColumnName : Option Text
  keySeq : Option Nat
  fkName : Option Text
deriving DecidableEq, Repr

/-- `AppendNameOrNull`. -/
def nameOrNull (s : Option Text) : Option Text := s.filter (· ≠ [])

/-- A row of `SQLForeignKeys` as it is emitted, with its key and its place there. -/
@[ext] structure FkRow where
  name : Option Text
  seq : Nat
  column : Text
  usage : Usage
deriving DecidableEq, Repr

def FkResultRow.read (row : FkResultRow) : FkRow where
  name := row.fkName
  seq := row.keySeq.getD 0
  column := row.fkColumnName.getD []
  usage :=
    { catalog := nameOrNull row.pkTableCat
      schema := nameOrNull row.pkTableSchem
      table := row.pkTableName.getD []
      column := row.pkColumnName.getD [] }

/-! ## The loops -/

/-- The one constraint of the primary key, with the first name there is. -/
def primaryKey (rows : List PkResultRow) : List Constraint :=
  if rows = [] then []
  else
    [{ name := rows.findSome? PkResultRow.pkName
       type := .primaryKey
       columnNames := rows.map fun row => row.columnName.getD []
       columnUsage := none }]

/-- The constraint that is open, and those that are finished. -/
structure FkState where
  finished : List Constraint := []
  current : Option (Option Text × List Text × List Usage) := none
  seqPrev : Nat := 0

/-- The constraint of an open group. -/
def foreignKeyOf (group : Option Text × List Text × List Usage) : Constraint where
  name := group.1
  type := .foreignKey
  columnNames := group.2.1
  columnUsage := some group.2.2

/-- One row: it is added to the open constraint, or opens one. -/
def FkState.add (st : FkState) (row : FkRow) : FkState :=
  let opened := (row.name, [row.column], [row.usage])
  match st.current with
  | none => { st with current := some opened, seqPrev := row.seq }
  | some (name, columns, usages) =>
      if row.name ≠ name ∨ row.seq ≤ st.seqPrev then
        { finished := st.finished ++ [foreignKeyOf (name, columns, usages)]
          current := some opened
          seqPrev := row.seq }
      else
        { st with
          current := some (name, columns ++ [row.column], usages ++ [row.usage])
          seqPrev := row.seq }

def FkState.close (st : FkState) : List Constraint :=
  st.finished ++ (st.current.map foreignKeyOf).toList

def foreignKeys (rows : List FkRow) : List Constraint := (rows.foldl FkState.add {}).close

/-- `AppendConstraints`, on what the two catalog functions return. -/
def appendConstraints (primaryKeys : Option (List PkResultRow))
    (foreignKeyRows : Option (List FkResultRow)) : List Constraint :=
  (primaryKeys.map primaryKey).getD [] ++
    (foreignKeyRows.map fun rows => foreignKeys (rows.map FkResultRow.read)).getD []

/-! ## The keys of a table -/

/-- A foreign key as the driver reports it: its columns with those they refer to. -/
structure ForeignKey where
  name : Option Text
  catalog : Option Text
  schema : Option Text
  table : Text
  columns : List (Text × Text)
  nonempty : columns ≠ []

def ForeignKey.usage (key : ForeignKey) (column : Text × Text) : Usage where
  catalog := nameOrNull key.catalog
  schema := nameOrNull key.schema
  table := key.table
  column := column.2

/-- The rows of a key, `KEY_SEQ` from one on. -/
def ForeignKey.rows (key : ForeignKey) : List FkRow :=
  key.columns.mapIdx fun i column => ⟨key.name, i + 1, column.1, key.usage column⟩

/-- The one constraint of a key, its columns in the order of `KEY_SEQ`. -/
def ForeignKey.constraint (key : ForeignKey) : Constraint where
  name := key.name
  type := .foreignKey
  columnNames := key.columns.map Prod.fst
  columnUsage := some (key.columns.map key.usage)

/-- A result that says the keys, row for row, in whatever order. -/
def Reports (result : List FkResultRow) (keys : List ForeignKey) : Prop :=
  (result.map FkResultRow.read).Perm (keys.flatMap ForeignKey.rows)

/-- The order of `SQLForeignKeys` for the keys of a table: by the referenced table, in
some collation, and then by `KEY_SEQ`. -/
def InOrder (result : List FkResultRow) : Prop :=
  ∃ rank : Option Text → Option Text → Option Text → Nat,
    result.Pairwise fun a b =>
      let rankOf (row : FkResultRow) := rank row.pkTableCat row.pkTableSchem row.pkTableName
      rankOf a < rankOf b ∨ rankOf a = rankOf b ∧ a.keySeq.getD 0 ≤ b.keySeq.getD 0

/-- Every key comes out as one constraint with its own columns, and nothing else does. -/
def Exact (result : List FkResultRow) (keys : List ForeignKey) : Prop :=
  ∀ primaryKeys : Option (List PkResultRow),
    ((appendConstraints primaryKeys (some result)).filter (·.type = .foreignKey)).Perm
      (keys.map ForeignKey.constraint)

/-- The rows of each key stand next to each other, in order. -/
def Adjacent (result : List FkResultRow) (keys : List ForeignKey) : Prop :=
  ∃ keys' : List ForeignKey, keys'.Perm keys ∧
    result.map FkResultRow.read = keys'.flatMap ForeignKey.rows

/-! ## The groups -/

/-- A row that goes on with the key of the row before it, as the loop sees it. -/
def goesOn (a b : FkRow) : Bool := b.name = a.name ∧ a.seq < b.seq

/-- The constraint of the rows of a group, the first of which names it. -/
def constraintOf (group : List FkRow) : Constraint where
  name := (group.head?.bind FkRow.name)
  type := .foreignKey
  columnNames := group.map FkRow.column
  columnUsage := some (group.map FkRow.usage)

/-- A group whose rows have one name is emitted under it. -/
theorem foreignKeyOf_group {a : FkRow} {g : List FkRow} (hname : ∀ b ∈ g, b.name = a.name) :
    foreignKeyOf (a.name, (a :: g).reverse.map FkRow.column, (a :: g).reverse.map FkRow.usage) =
      constraintOf (a :: g).reverse := by
  have hhead : ((a :: g).reverse.head?.bind FkRow.name) = a.name := by
    obtain ⟨b, hb⟩ := Option.ne_none_iff_exists'.mp fun hnone =>
      absurd (List.head?_eq_none_iff.mp hnone) (by simp : (a :: g).reverse ≠ [])
    rw [hb, Option.bind_some]
    rcases List.mem_cons.mp (List.mem_reverse.mp (List.mem_of_head? hb)) with rfl | hmem
    · rfl
    · exact hname b hmem
  rw [constraintOf, hhead, foreignKeyOf]

/-- The loop from an open group on, whose rows stand in reverse. -/
theorem foldl_add (rows : List FkRow) (a : FkRow) (g : List FkRow) (gs : List (List FkRow))
    (hname : ∀ b ∈ g, b.name = a.name) :
    (rows.foldl FkState.add
        { finished := gs.reverse.map constraintOf
          current := some (a.name, (a :: g).reverse.map FkRow.column,
            (a :: g).reverse.map FkRow.usage)
          seqPrev := a.seq }).close =
      (List.splitBy.loop goesOn rows a g gs).map constraintOf := by
  induction rows generalizing a g gs with
  | nil =>
      rw [List.foldl_nil, FkState.close, List.splitBy.loop, Option.map_some,
        foreignKeyOf_group hname]
      simp
  | cons b rows ih =>
      rw [List.foldl_cons, FkState.add, List.splitBy.loop]
      dsimp only
      by_cases hgoes : goesOn a b
      · have hsame : b.name = a.name ∧ a.seq < b.seq := by simpa [goesOn] using hgoes
        have hmore := ih b (a :: g) gs (by
          rintro c hc
          rcases List.mem_cons.mp hc with rfl | hc
          · exact hsame.1.symm
          · exact (hname c hc).trans hsame.1.symm)
        rw [if_neg (by rw [not_or, not_not, not_le]; exact hsame), hgoes, ← hsame.1, ← hmore]
        simp
      · have hother : b.name ≠ a.name ∨ b.seq ≤ a.seq := by
          rw [goesOn, decide_eq_true_eq, not_and_or, not_lt] at hgoes
          exact hgoes
        have hmore := ih b [] ((a :: g).reverse :: gs) fun c hc => absurd hc List.not_mem_nil
        rw [if_pos hother, Bool.eq_false_iff.mpr hgoes, foreignKeyOf_group hname, ← hmore]
        simp

/-- The loop cuts the rows where one does not go on with the one before. -/
theorem foreignKeys_eq (rows : List FkRow) :
    foreignKeys rows = (rows.splitBy goesOn).map constraintOf := by
  cases rows with
  | nil => rfl
  | cons a rows => exact foldl_add rows a [] [] fun b hb => absurd hb List.not_mem_nil

/-- Of the constraints that are emitted the foreign keys are those of the loop. -/
theorem appendConstraints_foreign (primaryKeys : Option (List PkResultRow))
    (result : List FkResultRow) :
    (appendConstraints primaryKeys (some result)).filter (·.type = .foreignKey) =
      ((result.map FkResultRow.read).splitBy goesOn).map constraintOf := by
  have hprimary : ((primaryKeys.map primaryKey).getD []).filter (·.type = .foreignKey) = [] := by
    rw [List.filter_eq_nil_iff]
    intro c hc
    cases primaryKeys with
    | none => exact absurd hc List.not_mem_nil
    | some rows =>
        rw [Option.map_some, Option.getD_some, primaryKey] at hc
        split at hc
        · exact absurd hc List.not_mem_nil
        · rw [List.mem_singleton.mp hc]
          simp
  have hforeign : (((result.map FkResultRow.read).splitBy goesOn).map constraintOf).filter
      (·.type = .foreignKey) = ((result.map FkResultRow.read).splitBy goesOn).map constraintOf := by
    rw [List.filter_eq_self]
    intro c hc
    obtain ⟨g, -, rfl⟩ := List.mem_map.mp hc
    rfl
  rw [appendConstraints, List.filter_append, hprimary, List.nil_append, Option.map_some,
    Option.getD_some, foreignKeys_eq, hforeign]

/-! ## Keys whose rows stand together -/

theorem rows_ne_nil (key : ForeignKey) : key.rows ≠ [] := by
  intro h
  rw [ForeignKey.rows, List.mapIdx_eq_nil_iff] at h
  exact key.nonempty h

theorem rows_length (key : ForeignKey) : key.rows.length = key.columns.length :=
  List.length_mapIdx

theorem constraintOf_rows (key : ForeignKey) : constraintOf key.rows = key.constraint := by
  have hname : key.rows.head?.bind FkRow.name = key.name := by
    rw [ForeignKey.rows, List.head?_mapIdx]
    obtain ⟨c, columns, hcolumns⟩ := List.exists_cons_of_ne_nil key.nonempty
    rw [hcolumns]
    rfl
  have hcolumn : key.rows.map FkRow.column = key.columns.map Prod.fst := by
    apply List.ext_getElem
    · simp [ForeignKey.rows]
    · intro i _ _
      simp [ForeignKey.rows]
  have husage : key.rows.map FkRow.usage = key.columns.map key.usage := by
    apply List.ext_getElem
    · simp [ForeignKey.rows]
    · intro i _ _
      simp [ForeignKey.rows]
  rw [constraintOf, hname, hcolumn, husage, ForeignKey.constraint]

theorem rows_goOn (key : ForeignKey) : key.rows.IsChain fun a b => goesOn a b = true := by
  rw [List.isChain_iff_getElem]
  intro i hi
  simp [ForeignKey.rows, goesOn]

theorem one_le_seq {key : ForeignKey} {row : FkRow} (h : row ∈ key.rows) : 1 ≤ row.seq := by
  obtain ⟨i, hi, rfl⟩ := List.mem_mapIdx.mp h
  exact Nat.succ_pos i

/-- The first row of a key goes on with nothing. -/
theorem not_goesOn_head {key : ForeignKey} {a : FkRow} (ha : 1 ≤ a.seq)
    (hne : key.rows ≠ []) : goesOn a (key.rows.head hne) = false := by
  have hseq : (key.rows.head hne).seq = 1 := by
    rw [List.head_eq_getElem]
    simp [ForeignKey.rows]
  rw [goesOn, hseq, decide_eq_false_iff_not]
  omega

theorem exact_of_adjacent {result : List FkResultRow} {keys : List ForeignKey}
    (h : Adjacent result keys) : Exact result keys := by
  obtain ⟨keys', hperm, hrows⟩ := h
  intro primaryKeys
  have hgroups : (keys'.map ForeignKey.rows).flatten.splitBy goesOn =
      keys'.map ForeignKey.rows := by
    apply List.splitBy_flatten
    · intro hmem
      obtain ⟨key, -, hnil⟩ := List.mem_map.mp hmem
      exact rows_ne_nil key hnil
    · intro g hg
      obtain ⟨key, -, rfl⟩ := List.mem_map.mp hg
      exact rows_goOn key
    · rw [List.isChain_map]
      apply List.Pairwise.isChain
      apply List.pairwise_of_forall
      intro key key'
      have hlast := one_le_seq (List.getLast_mem (rows_ne_nil key))
      exact ⟨rows_ne_nil key, rows_ne_nil key', not_goesOn_head hlast (rows_ne_nil key')⟩
  have hconstraints : (keys'.map ForeignKey.rows).map constraintOf =
      keys'.map ForeignKey.constraint := by
    rw [List.map_map]
    exact List.map_congr_left fun key _ => constraintOf_rows key
  rw [appendConstraints_foreign, hrows, List.flatMap_def, hgroups, hconstraints]
  exact hperm.map ForeignKey.constraint

/-! ## Keys that come out as they are -/

instance : IsTrans FkRow fun a b => goesOn a b = true where
  trans a b c hab hbc := by
    simp only [goesOn, decide_eq_true_eq] at hab hbc ⊢
    exact ⟨hbc.1.trans hab.1, hab.2.trans hbc.2⟩

theorem group_pairwise {rows g : List FkRow} (h : g ∈ rows.splitBy goesOn) :
    g.Pairwise fun a b => goesOn a b = true :=
  List.isChain_iff_pairwise.mp (List.isChain_of_mem_splitBy h)

theorem pairwise_seq {g : List FkRow} (h : g.Pairwise fun a b => goesOn a b = true) :
    (g.map FkRow.seq).Pairwise (· < ·) := by
  rw [List.pairwise_map]
  exact h.imp fun hab => by
    rw [goesOn, decide_eq_true_eq] at hab
    exact hab.2

/-- The rows of a group have the name of the first. -/
theorem group_name {g : List FkRow} (h : g.Pairwise fun a b => goesOn a b = true) {a : FkRow}
    (ha : a ∈ g) : a.name = g.head?.bind FkRow.name := by
  cases g with
  | nil => exact absurd ha List.not_mem_nil
  | cons b g =>
      rw [List.head?_cons, Option.bind_some]
      rcases List.mem_cons.mp ha with rfl | ha
      · rfl
      · have hgoes := (List.pairwise_cons.mp h).1 a ha
        rw [goesOn, decide_eq_true_eq] at hgoes
        exact hgoes.1

theorem rows_seq (key : ForeignKey) :
    key.rows.map FkRow.seq = List.range' 1 key.rows.length := by
  apply List.ext_getElem
  · rw [List.length_map, List.length_range']
  · intro i _ _
    simp [ForeignKey.rows, Nat.add_comm]

/-- A group that counts and is emitted as a key is the rows of the key. -/
theorem group_eq_rows {g : List FkRow} {key : ForeignKey}
    (h : g.Pairwise fun a b => goesOn a b = true)
    (hseq : g.map FkRow.seq = List.range' 1 g.length)
    (hconstraint : constraintOf g = key.constraint) : g = key.rows := by
  rw [← constraintOf_rows, constraintOf, constraintOf, Constraint.mk.injEq,
    Option.some.injEq] at hconstraint
  obtain ⟨hname, -, hcolumn, husage⟩ := hconstraint
  have hlength : g.length = key.rows.length := by
    simpa using congrArg List.length hcolumn
  apply List.ext_getElem hlength
  intro i hi hi'
  have hfield {β : Type} {f : FkRow → β} (hf : g.map f = key.rows.map f) :
      f g[i] = f key.rows[i] := by
    have hat := congrArg (·[i]?) hf
    simpa [List.getElem?_eq_getElem hi, List.getElem?_eq_getElem hi'] using hat
  apply FkRow.ext
  · calc g[i].name = g.head?.bind FkRow.name := group_name h (List.getElem_mem hi)
      _ = key.rows.head?.bind FkRow.name := hname
      _ = key.rows[i].name := (group_name (List.isChain_iff_pairwise.mp (rows_goOn key))
          (List.getElem_mem hi')).symm
  · exact hfield (by rw [hseq, rows_seq, hlength])
  · exact hfield hcolumn
  · exact hfield husage

/-- The groups of a result that comes out exactly count: they are as long as the keys. -/
theorem groups_count {rows : List FkRow} {keys keys' : List ForeignKey}
    (hreports : rows.Perm (keys.flatMap ForeignKey.rows)) (hperm : keys'.Perm keys)
    (hconstraints : (rows.splitBy goesOn).map constraintOf = keys'.map ForeignKey.constraint) :
    ∀ g ∈ rows.splitBy goesOn, g.map FkRow.seq = List.range' 1 g.length := by
  have hpositive : ∀ row ∈ rows, 0 < row.seq := by
    intro row hrow
    obtain ⟨key, -, hkey⟩ := List.mem_flatMap.mp (hreports.mem_iff.mp hrow)
    exact one_le_seq hkey
  have hlengths : (rows.splitBy goesOn).map List.length =
      keys'.map fun key => key.rows.length := by
    have hcolumns := congrArg (List.map fun c => c.columnNames.length) hconstraints
    simpa [constraintOf, ForeignKey.constraint, rows_length, Function.comp_def] using hcolumns
  have hkey (key : ForeignKey) : (key.rows.map FkRow.seq).sum = countSum 0 key.rows.length := by
    rw [rows_seq, countSum]
  have hsum : ((rows.splitBy goesOn).map (List.map FkRow.seq)).flatten.sum =
      (((rows.splitBy goesOn).map (List.map FkRow.seq)).map
        fun l => countSum 0 l.length).sum := by
    calc ((rows.splitBy goesOn).map (List.map FkRow.seq)).flatten.sum
        = (rows.map FkRow.seq).sum := by rw [← List.map_flatten, List.flatten_splitBy]
      _ = ((keys'.flatMap ForeignKey.rows).map FkRow.seq).sum :=
          ((hreports.trans (hperm.flatMap_right ForeignKey.rows).symm).map FkRow.seq).sum_eq
      _ = (keys'.map fun key => countSum 0 key.rows.length).sum := by
          rw [List.flatMap_def, List.map_flatten, List.sum_flatten, List.map_map, List.map_map]
          exact congrArg List.sum (List.map_congr_left fun key _ => hkey key)
      _ = ((keys'.map fun key => key.rows.length).map (countSum 0)).sum := by
          rw [List.map_map]
          rfl
      _ = _ := by
          rw [← hlengths, List.map_map, List.map_map]
          simp [Function.comp_def]
  have hcounts := family_counts (n := 0) ?_ ?_ hsum
  · intro g hg
    have hcount := hcounts (g.map FkRow.seq) (List.mem_map_of_mem hg)
    rwa [List.length_map] at hcount
  · intro l hl
    obtain ⟨g, hg, rfl⟩ := List.mem_map.mp hl
    exact pairwise_seq (group_pairwise hg)
  · intro l hl a ha
    obtain ⟨g, hg, rfl⟩ := List.mem_map.mp hl
    obtain ⟨row, hrow, rfl⟩ := List.mem_map.mp ha
    apply hpositive
    rw [← List.flatten_splitBy goesOn rows]
    exact List.mem_flatten_of_mem hg hrow

theorem adjacent_of_exact {result : List FkResultRow} {keys : List ForeignKey}
    (hreports : Reports result keys) (h : Exact result keys) : Adjacent result keys := by
  have hemitted := h none
  rw [appendConstraints_foreign] at hemitted
  generalize hrows : result.map FkResultRow.read = rows at hemitted
  have hlift := (congrFun (congrFun (List.eq_map_comp_perm ForeignKey.constraint) _) keys).mpr
    hemitted
  obtain ⟨keys', hconstraints, hperm⟩ := hlift
  have hcounts := groups_count (hrows ▸ hreports) hperm hconstraints
  refine ⟨keys', hperm, ?_⟩
  have hgroups : rows.splitBy goesOn = keys'.map ForeignKey.rows := by
    have hlength : (rows.splitBy goesOn).length = keys'.length := by
      simpa using congrArg List.length hconstraints
    apply List.ext_getElem
    · rw [hlength, List.length_map]
    · intro i hi hi'
      have hmem := List.getElem_mem hi
      have hkey : i < keys'.length := hlength ▸ hi
      have hsame : constraintOf (rows.splitBy goesOn)[i] = keys'[i].constraint := by
        have hat := congrArg (·[i]?) hconstraints
        simpa [List.getElem?_eq_getElem hi, List.getElem?_eq_getElem hkey] using hat
      rw [List.getElem_map]
      exact group_eq_rows (group_pairwise hmem) (hcounts _ hmem) hsame
  rw [hrows, List.flatMap_def, ← hgroups, List.flatten_splitBy]

/-- Foreign keys come out exactly, each as one constraint, if and only if the rows of each
stand next to each other. -/
theorem keys_exact_iff {result : List FkResultRow} {keys : List ForeignKey}
    (h : Reports result keys) : Exact result keys ↔ Adjacent result keys :=
  ⟨adjacent_of_exact h, exact_of_adjacent⟩

/-- A row of a result whose referenced tables have a name only. -/
def plainRow (name : Option Text) (seq : Nat) (column table referenced : Text) : FkResultRow where
  pkTableCat := some []
  pkTableSchem := none
  pkTableName := some table
  pkColumnName := some referenced
  fkColumnName := some column
  keySeq := some seq
  fkName := name

def plainKey (name : Option Text) (table : Text) (first : Text × Text)
    (others : List (Text × Text)) : ForeignKey where
  name := name
  catalog := none
  schema := none
  table := table
  columns := first :: others
  nonempty := List.cons_ne_nil _ _

/-- Two keys of two columns each to one table, in the order of `SQLForeignKeys`. -/
def twoComposite : List FkResultRow :=
  [plainRow (some ['a']) 1 ['a', '1'] ['p'] ['x'], plainRow (some ['b']) 1 ['b', '1'] ['p'] ['x'],
    plainRow (some ['a']) 2 ['a', '2'] ['p'] ['y'], plainRow (some ['b']) 2 ['b', '2'] ['p'] ['y']]

def twoCompositeKeys : List ForeignKey :=
  [plainKey (some ['a']) ['p'] (['a', '1'], ['x']) [(['a', '2'], ['y'])],
    plainKey (some ['b']) ['p'] (['b', '1'], ['x']) [(['b', '2'], ['y'])]]

/-- They come out as four constraints of one column. -/
theorem twoComposite_not_exact : Reports twoComposite twoCompositeKeys ∧ InOrder twoComposite ∧
    (appendConstraints none (some twoComposite)).length = 4 ∧
    ¬ Exact twoComposite twoCompositeKeys := by
  refine ⟨?_, ⟨fun _ _ _ => 0, ?_⟩, by decide, fun h => ?_⟩
  · unfold Reports
    decide
  · decide
  · have hlength := (h none).length_eq
    revert hlength
    decide

/-- A key of two columns between keys to other tables, all without names. -/
theorem keys_exact_unnamed :
    Exact [plainRow none 1 ['a'] ['p'] ['x'], plainRow none 1 ['b'] ['q'] ['x'],
        plainRow none 2 ['c'] ['q'] ['y'], plainRow none 1 ['d'] ['r'] ['x']]
      [plainKey none ['q'] (['b'], ['x']) [(['c'], ['y'])],
        plainKey none ['p'] (['a'], ['x']) [], plainKey none ['r'] (['d'], ['x']) []] := by
  have hreports : Reports
      [plainRow none 1 ['a'] ['p'] ['x'], plainRow none 1 ['b'] ['q'] ['x'],
        plainRow none 2 ['c'] ['q'] ['y'], plainRow none 1 ['d'] ['r'] ['x']]
      [plainKey none ['q'] (['b'], ['x']) [(['c'], ['y'])],
        plainKey none ['p'] (['a'], ['x']) [], plainKey none ['r'] (['d'], ['x']) []] := by
    unfold Reports
    decide
  refine (keys_exact_iff hreports).mpr ⟨[plainKey none ['p'] (['a'], ['x']) [],
    plainKey none ['q'] (['b'], ['x']) [(['c'], ['y'])],
    plainKey none ['r'] (['d'], ['x']) []], .swap _ _ _, ?_⟩
  decide

end AdbcBridge.Objects.Constraints
