import AdbcBridge.Partition.Catalog
import AdbcBridge.Statement.ReadPartition

/-!
# From a query to its rows over partitions

`ExecutePartitions` hands out descriptors, and whoever gets one reads it with `ReadPartition` on a
connection of its own, at any time and in any order.  What the readers get together is what the
query would have given, but for the rows without a split key.
-/

namespace AdbcBridge.Partition.Reassemble

open AdbcBridge.Lib.Cuts AdbcBridge.Lib.Decimal
open AdbcBridge.Partition.Scanner AdbcBridge.Partition.Split AdbcBridge.Partition.Slices
open AdbcBridge.Partition.Catalog (Table Misled OwnKey PicksKey Referenced SplitsOn chooseSplit
  chooseSplit_spec not_misled_alone soundPick_of_not_misled splitTableRef)
open AdbcBridge.Statement.Handle (Session Call)
open AdbcBridge.Statement.ReadPartition

/-! ## The server -/

/-- What a row has for the expression a table is split by: an integer, where its tuple is, or
`NULL`. -/
inductive SplitKey where
  | value (v : Int64)
  | tuple (block offset : Nat)
  | null

def SplitKey.isNull : SplitKey → Bool
  | .null => true
  | _ => false

instance {α : Type*} [LE α] [LT α] [DecidableLE α] [DecidableLT α] (s : Slice α) (x : α) :
    Decidable (s.Holds x) :=
  decidable_of_iff ((∀ b ∈ s.lower, b ≤ x) ∧ ∀ b ∈ s.upper, x < b) Iff.rfl

/-- Whether a predicate is true of a key; no comparison with `NULL` is. -/
def holds (p : Slice Int64) : SplitKey → Bool
  | .null => p.lower.isNone && p.upper.isNone
  | .value v => decide (p.Holds v)
  | .tuple block offset =>
      decide ((p.map fun b => toLex (b.toInt, (0 : Nat))).Holds (toLex ((block : Int), offset)))

theorem holds_value (p : Slice Int64) (v : Int64) : holds p (.value v) = true ↔ HoldsKey p v :=
  decide_eq_true_iff

theorem holds_tuple (p : Slice Int64) (block offset : Nat) :
    holds p (.tuple block offset) = true ↔ HoldsTid p block offset :=
  decide_eq_true_iff

/-- What the server answers to a text, and what it has for an expression in a row. -/
structure Server (ρ : Type*) where
  rows : List Char → List ρ
  key : List Char → ρ → SplitKey
  ctid_not_null : ∀ r, (key "ctid".toList r).isNull = false

variable {ρ : Type*}

/-- A slice of the query is answered with the rows its predicate holds of. -/
def Server.AnswersSlices (server : Server ρ) (query : List Char) (head : Int) (split : OdbcSplit)
    (n : Int64) : Prop :=
  ∀ k < n.toNatClampNeg, server.rows (sliceSql query head split n k) =
    (server.rows query).filter fun r => holds (slicePredicate split n k) (server.key split.expr r)

/-- The rows of the query have a value for the leading key column of the table, and so for a split
on it, when the catalog declares it an integer that is `NOT NULL`. -/
def Server.Honours (server : Server ρ) (catalog : Catalog.Server) (query : List Char) (t : Table) :
    Prop :=
  ∀ c row, OwnKey t c row → ∀ split, SplitsOn catalog split c →
    ∀ r ∈ server.rows query, (server.key split.expr r).isNull = false

/-! ## The readers -/

/-- A `ReadPartition` call, wherever it is made. -/
structure Read where
  session : Session
  connected : Bool
  out : Bool
  serialized : List Char
  answer : ReadAnswer

namespace Read

def result (r : Read) : Session × Option Adbc.AdbcError :=
  readPartition r.connected r.out r.serialized r.answer r.session

/-- The text the call had the driver execute. -/
def executed (r : Read) : Option (List Char) :=
  (r.result.1.calls.drop r.session.calls.length).findSome? fun
    | .execDirect _ sql => some sql
    | _ => none

/-- The rows of the stream the call returns. -/
def rows (server : Server ρ) (r : Read) : List ρ :=
  if r.result.2 = none then (r.executed.map server.rows).getD [] else []

end Read

/-- The rows behind a descriptor. -/
def rowsBehind (server : Server ρ) (serialized : List Char) : List ρ :=
  ((partitionSql serialized).map server.rows).getD []

/-- A call that succeeds streams the rows of the text in its descriptor. -/
theorem read_rows (server : Server ρ) {r : Read} (hok : r.result.2 = none) :
    r.rows server = rowsBehind server r.serialized := by
  have hcases := readPartition_cases r.session r.connected r.out r.serialized r.answer
  have hresult : readPartition r.connected r.out r.serialized r.answer r.session = r.result := rfl
  rw [hresult] at hcases
  rcases hcases with hfails | ⟨sql, hsql, hgoes⟩
  · rw [hok] at hfails
    exact nomatch hfails.2
  · rcases streamPartition_cases r.session sql r.answer with hfreed | hstreamed
    · rw [← hgoes, hok] at hfreed
      exact nomatch hfreed.2
    · have hexecuted : r.executed = some sql := by
        rw [Read.executed, hgoes, hstreamed.1, streamed, List.drop_left]
        rfl
      rw [Read.rows, if_pos hok, hexecuted, rowsBehind, hsql]

/-! ## No slice has a NUL -/

theorem nul_notMem_intText (v : Int) : '\x00' ∉ intText v := by
  intro hmem
  cases mem_intText hmem with
  | inl hminus => exact absurd hminus (by decide)
  | inr hdigit => exact absurd hdigit (by decide)

theorem nul_notMem_boundText (split : OdbcSplit) (v : Int64) : '\x00' ∉ boundText split v := by
  have hint := nul_notMem_intText v.toInt
  unfold boundText
  split_ifs
  · simp [hint]
  · exact hint

theorem nul_notMem_precisionText {head : Int} {query : List Char} (hquery : '\x00' ∉ query) :
    '\x00' ∉ precisionText head query := by
  unfold precisionText
  split_ifs
  · exact hquery
  · exact fun hmem => hquery (List.mem_of_mem_take hmem)

theorem nul_notMem_renderPredicate {split : OdbcSplit} (hexpr : '\x00' ∉ split.expr)
    (p : Slice Int64) : '\x00' ∉ renderPredicate split p := by
  have hbound := nul_notMem_boundText split
  unfold renderPredicate
  cases p.lower with
  | none =>
      cases p.upper with
      | none => exact List.not_mem_nil
      | some hi => simp [hexpr, hbound hi]
  | some lo =>
      cases p.upper with
      | none => simp [hexpr, hbound lo]
      | some hi => simp [hexpr, hbound lo, hbound hi]

theorem nul_notMem_sliceSql {query : List Char} {head : Int} {split : OdbcSplit} {n : Int64}
    (hquery : '\x00' ∉ query) (hexpr : '\x00' ∉ split.expr) (k : Nat) :
    '\x00' ∉ sliceSql query head split n k := by
  have hfront := @nul_notMem_precisionText head query hquery
  have hpredicate := nul_notMem_renderPredicate hexpr (slicePredicate split n k)
  unfold sliceSql
  simp [hfront, hpredicate]

/-! ## The rows of the slices -/

/-- A slice is bounded on one side at least, so no row without a key is in it. -/
theorem holds_null (split : OdbcSplit) (n : Int64) (k : Nat) :
    holds (slicePredicate split n k) .null = false := by
  change ((slicePredicate split n k).lower.isNone &&
    (slicePredicate split n k).upper.isNone) = false
  unfold slicePredicate
  dsimp only
  split_ifs
  · rfl
  · rfl
  · rfl

/-- Every row with a key is in one slice and in no other. -/
theorem holds_cover {requested n : Int64} {split : OdbcSplit} (hle : split.lo ≤ split.hi)
    (hn : resolvePartitionCount requested split = n) (h2 : 2 ≤ n) {key : SplitKey}
    (hkey : key.isNull = false) :
    ∃! k, k < n.toNatClampNeg ∧ holds (slicePredicate split n k) key = true := by
  cases key with
  | value v =>
      simp only [holds_value]
      exact slices_cover_keys hle hn h2 v
  | tuple block offset =>
      simp only [holds_tuple]
      exact slices_cover_tids hle hn h2 block offset
  | null => cases hkey

/-- The slices together are the rows with a key. -/
theorem slices_perm {requested n : Int64} {split : OdbcSplit} (hle : split.lo ≤ split.hi)
    (hn : resolvePartitionCount requested split = n) (h2 : 2 ≤ n) (key : ρ → SplitKey)
    (rows : List ρ) :
    (pieces (fun k r => holds (slicePredicate split n k) (key r)) n.toNatClampNeg rows).Perm
      (rows.filter fun r => !(key r).isNull) := by
  -- the rows without a key are all put into the first piece, which makes it a cover
  let p : Nat → ρ → Bool := fun k r =>
    if (key r).isNull then k == 0 else holds (slicePredicate split n k) (key r)
  have hcount := toNatClampNeg_eq h2
  have hcover : DisjointCover p n.toNatClampNeg := by
    intro r
    cases hnull : (key r).isNull with
    | true =>
        have h2' := Int64.le_iff_toInt_le.1 h2
        have htwo : (2 : Int64).toInt = 2 := rfl
        refine ⟨0, ⟨by omega, ?_⟩, fun k hk => ?_⟩
        · simp [p, hnull]
        · simpa [p, hnull] using hk.2
    | false =>
        simp only [p, hnull, Bool.false_eq_true, if_false]
        exact holds_cover hle hn h2 hnull
  have hsame : pieces (fun k r => holds (slicePredicate split n k) (key r)) n.toNatClampNeg rows =
      pieces p n.toNatClampNeg (rows.filter fun r => !(key r).isNull) := by
    unfold pieces
    apply List.flatMap_congr
    intro k _
    rw [List.filter_filter]
    apply List.filter_congr
    intro r _
    cases hkey : key r with
    | null => simp [hkey, holds_null, SplitKey.isNull]
    | value v => simp [p, hkey, SplitKey.isNull]
    | tuple block offset => simp [p, hkey, SplitKey.isNull]
  rw [hsame]
  exact pieces_perm p n.toNatClampNeg hcover _

theorem rowsBehind_descriptor (server : Server ρ) {sql : List Char} (hsql : '\x00' ∉ sql) :
    rowsBehind server (descriptor sql) = server.rows sql := by
  rw [rowsBehind, partitionSql_descriptor hsql]
  rfl

theorem sliced_rows {server : Server ρ} {requested : Int64} {query : List Char}
    {spans : SelectSpans} {split : OdbcSplit} {parts : List (List Char)}
    (hsliced : Sliced requested query spans split (resolvePartitionCount requested split) parts)
    (hquery : '\x00' ∉ query) (hle : split.lo ≤ split.hi) (hexpr : '\x00' ∉ split.expr)
    (hanswers : server.AnswersSlices query (sliceHead spans) split
      (resolvePartitionCount requested split)) :
    (parts.flatMap (rowsBehind server)).Perm
      ((server.rows query).filter fun r => !(server.key split.expr r).isNull) := by
  have hcount := hsliced.count
  generalize hn : resolvePartitionCount requested split = n at hsliced hcount hanswers
  have hpieces : parts.flatMap (rowsBehind server) =
      pieces (fun k r => holds (slicePredicate split n k) (server.key split.expr r))
        n.toNatClampNeg (server.rows query) := by
    rw [hsliced.texts, List.flatMap_map, pieces]
    apply List.flatMap_congr
    intro k hk
    rw [rowsBehind_descriptor server (nul_notMem_sliceSql hquery hexpr k)]
    exact hanswers k (List.mem_range.mp hk)
  rw [hpieces]
  exact slices_perm hle hn hcount (server.key split.expr) (server.rows query)

section Main

variable {memory : Memory} {catalog : Catalog.Server} {db : List Table}
  {schema : Option (Except AdbcError Unit)} {stmt : OdbcStatement} {parts : List (List Char)}
  {query : List Char}

/-- What the descriptors leave out. -/
theorem descriptors_rows {server : Server ρ} (hstmt : stmt.query = some query)
    (hquery : '\x00' ∉ query)
    (h : executePartitions memory (chooseSplit catalog db) schema stmt = .ok parts)
    (hanswers : ∀ spans, parseSimpleSelect query = some spans →
      server.AnswersSlices query (sliceHead spans) (chooseSplit catalog db (tableText query spans))
        (resolvePartitionCount stmt.partitions (chooseSplit catalog db (tableText query spans)))) :
    ∃ lost, (parts.flatMap (rowsBehind server) ++ lost).Perm (server.rows query) ∧
      ∀ r ∈ lost, ∃ spans, parseSimpleSelect query = some spans ∧
        PicksKey (chooseSplit catalog db (tableText query spans)) ∧
        (server.key (chooseSplit catalog db (tableText query spans)).expr r).isNull = true := by
  have hone : ∃ lost, ([descriptor query].flatMap (rowsBehind server) ++ lost).Perm
      (server.rows query) ∧ ∀ r ∈ lost, ∃ spans, parseSimpleSelect query = some spans ∧
        PicksKey (chooseSplit catalog db (tableText query spans)) ∧
        (server.key (chooseSplit catalog db (tableText query spans)).expr r).isNull = true := by
    refine ⟨[], ?_, List.forall_mem_nil _⟩
    rw [List.append_nil, List.flatMap_singleton, rowsBehind_descriptor server hquery]
  obtain ⟨query', hquery', hparts⟩ := executePartitions_ok h
  have heq : query' = query := Option.some.inj (hquery'.symm.trans hstmt)
  rw [heq] at hparts
  rcases hparts with hwhole | ⟨spans, hspans, hsplit⟩
  · rw [hwhole]
    exact hone
  rcases splitPartitions_ok hsplit with hwhole | hsliced
  · rw [hwhole]
    exact hone
  obtain ⟨hkind, hle, hexpr⟩ := chooseSplit_spec hsliced.strategy
  have hrows := sliced_rows hsliced hquery hle hexpr (hanswers spans hspans)
  generalize hsplit' : chooseSplit catalog db (tableText query spans) = split at hrows hkind
  refine ⟨(server.rows query).filter fun r => (server.key split.expr r).isNull, ?_, ?_⟩
  · refine (hrows.append_right _).trans ?_
    have hjoin := List.filter_append_perm (fun r => !(server.key split.expr r).isNull)
      (server.rows query)
    simpa using hjoin
  · intro r hr
    have hnull := (List.mem_filter.mp hr).2
    refine ⟨spans, hspans, ?_, by rw [hsplit']; exact hnull⟩
    rw [hsplit']
    rcases hkind with hctid | hpicks
    · rw [hctid, server.ctid_not_null r] at hnull
      cases hnull
    · exact hpicks

/-- Whoever reads the partitions of a query, wherever, whenever and in whatever order: when each
descriptor has been read once, the streams together have the rows of the query, each as often as
the query has it, but for rows whose key is `NULL`, which a split on the key leaves out; and for
none when the referenced table's own catalog row decides and its rows honour it. -/
theorem partitions_reassemble (server : Server ρ) (hstmt : stmt.query = some query)
    (hquery : '\x00' ∉ query)
    (h : executePartitions memory (chooseSplit catalog db) schema stmt = .ok parts)
    (hanswers : ∀ spans, parseSimpleSelect query = some spans →
      server.AnswersSlices query (sliceHead spans) (chooseSplit catalog db (tableText query spans))
        (resolvePartitionCount stmt.partitions (chooseSplit catalog db (tableText query spans))))
    {reads : List Read} (hreads : (reads.map (·.serialized)).Perm parts)
    (hok : ∀ r ∈ reads, r.result.2 = none) :
    (∃ lost, (reads.flatMap (·.rows server) ++ lost).Perm (server.rows query) ∧
      ∀ r ∈ lost, ∃ spans, parseSimpleSelect query = some spans ∧
        PicksKey (chooseSplit catalog db (tableText query spans)) ∧
        (server.key (chooseSplit catalog db (tableText query spans)).expr r).isNull = true) ∧
    ((∀ spans ref, parseSimpleSelect query = some spans →
        splitTableRef (tableText query spans) = some ref →
        ∃ t : Referenced db ref, ¬ Misled db ref t.table ∧ server.Honours catalog query t.table) →
      (reads.flatMap (·.rows server)).Perm (server.rows query)) := by
  have hrows : reads.flatMap (·.rows server) =
      (reads.map (·.serialized)).flatMap (rowsBehind server) := by
    rw [List.flatMap_map]
    apply List.flatMap_congr
    intro r hr
    exact read_rows server (hok r hr)
  obtain ⟨lost, hperm, hlost⟩ := descriptors_rows hstmt hquery h hanswers
  have hall : (reads.flatMap (·.rows server) ++ lost).Perm (server.rows query) := by
    rw [hrows]
    exact ((hreads.flatMap_right _).append_right lost).trans hperm
  refine ⟨⟨lost, hall, hlost⟩, fun hown => ?_⟩
  have hnone : lost = [] := by
    apply List.eq_nil_iff_forall_not_mem.mpr
    intro r hr
    obtain ⟨spans, hspans, hpicks, hnull⟩ := hlost r hr
    obtain ⟨ref, -, -, -, href, -⟩ := Catalog.chooseSplit_picks hpicks
    obtain ⟨t, hnot, hhonours⟩ := hown spans ref hspans href
    obtain ⟨c, row, -, hkey, hsplits⟩ := soundPick_of_not_misled href hnot catalog hpicks
    have hvalue := hhonours c row hkey _ hsplits r (hall.subset (List.mem_append_right _ hr))
    rw [hvalue] at hnull
    cases hnull
  rwa [hnone, List.append_nil] at hall

end Main

/-- A table of two rows. -/
def idTable : Table :=
  ⟨none, none, "t".toList, [⟨"id".toList, some Catalog.sqlInteger, some Catalog.sqlNoNulls⟩],
    ["id".toList]⟩

def idCatalog : Catalog.Server where
  dbmsName := "SQLite".toList
  quoteChar := some ' '
  primaryKeysCall := true
  columnsCall := true
  heapBlocks := fun _ => none
  indexFacts := fun _ => none
  minMax := fun _ => some (0, 10)

def twoIds : Server Nat where
  rows sql :=
    if sql = "SELECT id FROM t WHERE id < 5".toList then [3]
    else if sql = "SELECT id FROM t WHERE id >= 5".toList then [7]
    else [7, 3]
  key _ r := .value (Int64.ofNat r)
  ctid_not_null _ := rfl

/-- The second partition is read before the first, each on a connection of its own. -/
theorem two_partitions_reassemble : ∃ parts,
    executePartitions ⟨true, true, fun _ => true⟩ (chooseSplit idCatalog [idTable]) none
      ⟨some "SELECT id FROM t".toList, none, false, 2⟩ = .ok parts ∧ parts.length = 2 ∧
    ((parts.reverse.map fun d => Read.mk {} true true d {}).flatMap (·.rows twoIds)).Perm
      [7, 3] := by
  have hsplit : chooseSplit idCatalog [idTable] "t".toList =
      ⟨.keyRange, "id".toList, 0, 10, 0⟩ := by
    decide
  have hparsed : parseSimpleSelect "SELECT id FROM t".toList = some ⟨6, 4, 15, 1⟩ := by decide
  have hparts : executePartitions ⟨true, true, fun _ => true⟩ (chooseSplit idCatalog [idTable]) none
      ⟨some "SELECT id FROM t".toList, none, false, 2⟩ =
        .ok [descriptor "SELECT id FROM t WHERE id < 5".toList,
          descriptor "SELECT id FROM t WHERE id >= 5".toList] := by
    decide
  refine ⟨_, hparts, rfl, ?_⟩
  refine (partitions_reassemble twoIds rfl (by decide) hparts ?_ ?_ ?_).2 ?_
  · intro spans hspans
    rw [hparsed, Option.some.injEq] at hspans
    rw [← hspans]
    have htable : tableText "SELECT id FROM t".toList ⟨6, 4, 15, 1⟩ = "t".toList := by decide
    rw [htable, hsplit]
    unfold Server.AnswersSlices
    decide
  · rw [List.map_map]
    exact (List.map_id _).symm ▸ List.reverse_perm _
  · decide
  · intro spans ref hspans href
    rw [hparsed, Option.some.injEq] at hspans
    rw [← hspans] at href
    have href' : ref = ⟨[], [], "t".toList⟩ := by
      have hread : splitTableRef (tableText "SELECT id FROM t".toList ⟨6, 4, 15, 1⟩) =
          some ⟨[], [], "t".toList⟩ := by decide
      rw [hread] at href
      exact (Option.some.inj href).symm
    rw [href']
    exact ⟨⟨idTable, List.mem_singleton_self _, ⟨rfl, rfl, rfl⟩⟩, not_misled_alone _ _,
      fun _ _ _ _ _ _ _ => rfl⟩

end AdbcBridge.Partition.Reassemble
