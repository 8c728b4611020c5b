import AdbcBridge.Lib.Decimal
import AdbcBridge.Partition.Scanner
import AdbcBridge.Partition.Split

/-!
# Building the partitions

`OdbcStatementExecutePartitionsOdbc`: the checks in front, the fallback to one
partition, and the loop that writes one query text a slice.  `ChooseSplit` is an
argument here, the split it picks for the text of a table reference.  Which of the
call's allocations succeed is an argument too (`Memory`).
-/

namespace AdbcBridge.Partition.Slices

open AdbcBridge.Lib.Cuts AdbcBridge.Lib.Decimal
open AdbcBridge.Partition.Scanner AdbcBridge.Partition.Split

/-- The status codes of the entry point. -/
inductive AdbcStatusCode where
  | invalidState
  | notImplemented
  | internal
  | driver
deriving DecidableEq, Repr

structure AdbcError where
  status : AdbcStatusCode
  message : String
deriving DecidableEq, Repr

/-- The fields of the statement the entry point reads. -/
structure OdbcStatement where
  query : Option (List Char)
  ingestTable : Option (List Char)
  hasBind : Bool
  partitions : Int64
deriving DecidableEq, Repr

/-- Which allocations succeed: the partitions' state, the slice buffer and the
descriptor of each partition. -/
structure Memory where
  state : Bool
  slice : Bool
  blob : Nat → Bool

/-- The magic and version prefix of a descriptor. -/
def odbcPartitionMagic : List Char := "ADBCODBCPART\x01\n".toList

/-- A partition descriptor: the magic, then the query text it carries. -/
def descriptor (sql : List Char) : List Char := odbcPartitionMagic ++ sql

/-- What `snprintf` returns for a text: its length, or `-1` beyond `INT_MAX`. -/
def snprintfResult (text : List Char) : Int :=
  if text.length ≤ 2147483647 then text.length else -1

/-- The text `%.*s` writes: a negative precision counts as none. -/
def precisionText (precision : Int) (s : List Char) : List Char :=
  if precision < 0 then s else s.take precision.toNat

/-- The literal of a boundary in the split expression's domain. -/
def boundText (split : OdbcSplit) (v : Int64) : List Char :=
  if split.kind = .ctid then "'(".toList ++ intText v.toInt ++ ",0)'::tid".toList
  else intText v.toInt

/-- `WriteBound`, into a buffer of `cap` bytes. -/
def writeBound (split : OdbcSplit) (cap : Nat) (v : Int64) : Option (List Char) :=
  let wrote := snprintfResult (boundText split v)
  if 0 < wrote ∧ wrote.toNat < cap then some (boundText split v) else none

def boundCap : Nat := 64

/-- The text of slice `k`, before its length is looked at. -/
def sliceText (query : List Char) (head : Int) (split : OdbcSplit) (nparts : Int64) (k : Nat) :
    Option (List Char) :=
  let boundary := fun i : Nat =>
    writeBound split boundCap (splitBoundary split.lo split.hi nparts (Int64.ofNat i))
  let front := precisionText head query ++ " WHERE ".toList
  if k = 0 then
    (boundary 1).map fun hi => front ++ (split.expr ++ " < ".toList ++ hi)
  else if k = nparts.toNatClampNeg - 1 then
    (boundary k).map fun lo => front ++ (split.expr ++ " >= ".toList ++ lo)
  else
    (boundary k).bind fun lo => (boundary (k + 1)).map fun hi =>
      front ++ (split.expr ++ " >= ".toList ++ lo ++ " AND ".toList ++
        split.expr ++ " < ".toList ++ hi)

/-- The buffer one slice is written into. -/
def sliceCap (query : List Char) (split : OdbcSplit) : Nat :=
  query.length + 2 * split.expr.length + 128

def buildSlice (memory : Memory) (query : List Char) (head : Int) (split : OdbcSplit)
    (nparts : Int64) (k : Nat) : Except AdbcError (List Char) :=
  let failed := AdbcError.mk .internal s!"failed to build partition {k}"
  match sliceText query head split nparts k with
  | none => .error failed
  | some text =>
    let wrote := snprintfResult text
    if wrote ≤ 0 ∨ sliceCap query split ≤ wrote.toNat ∨ memory.blob k = false then .error failed
    else .ok (descriptor text)

/-- The slice loop: slices `k` to `k + remaining - 1`. -/
def buildSlices (memory : Memory) (query : List Char) (head : Int) (split : OdbcSplit)
    (nparts : Int64) (k : Nat) : Nat → Except AdbcError (List (List Char))
  | 0 => .ok []
  | remaining + 1 => do
      let slice ← buildSlice memory query head split nparts k
      let rest ← buildSlices memory query head split nparts (k + 1) remaining
      return slice :: rest

def outOfMemory : AdbcError := ⟨.internal, "out of memory"⟩

/-- `OnePartition`: the query verbatim. -/
def onePartition (memory : Memory) (query : List Char) : Except AdbcError (List (List Char)) :=
  if memory.state = true ∧ memory.blob 0 = true then .ok [descriptor query]
  else .error outOfMemory

/-- The head of every slice: the query up to the end of its table reference, cast
to `int` as the source does. -/
def sliceHead (spans : SelectSpans) : Int := (Int32.ofNat (spans.tblOff + spans.tblLen)).toInt

/-- The text of the table reference. -/
def tableText (query : List Char) (spans : SelectSpans) : List Char :=
  (query.drop spans.tblOff).take spans.tblLen

/-- The entry point behind the recogniser, once a split is chosen. -/
def splitPartitions (memory : Memory) (requested : Int64) (query : List Char)
    (spans : SelectSpans) (split : OdbcSplit) : Except AdbcError (List (List Char)) :=
  if split.kind = .none then onePartition memory query
  else
    let nparts := resolvePartitionCount requested split
    if nparts ≤ 1 then onePartition memory query
    else if memory.state = true ∧ memory.slice = true then
      buildSlices memory query (sliceHead spans) split nparts 0 nparts.toNatClampNeg
    else .error outOfMemory

/-- `OdbcStatementExecutePartitionsOdbc`.  `schema` is what describing the query
answers, if the caller wants the schema. -/
def executePartitions (memory : Memory) (chooseSplit : List Char → OdbcSplit)
    (schema : Option (Except AdbcError Unit)) (stmt : OdbcStatement) :
    Except AdbcError (List (List Char)) :=
  match stmt.query with
  | none => .error ⟨.invalidState, "Must call StatementSetSqlQuery first"⟩
  | some query =>
    if stmt.ingestTable.isSome then
      .error ⟨.invalidState, "Bulk ingest does not produce a partitioned result set"⟩
    else if stmt.hasBind then
      .error ⟨.notImplemented,
        "Partitioned results are not supported for a statement with bound parameters"⟩
    else
      match schema with
      | some (.error e) => .error e
      | _ =>
        if stmt.partitions = 1 then onePartition memory query
        else
          match parseSimpleSelect query with
          | none => onePartition memory query
          | some spans =>
            splitPartitions memory stmt.partitions query spans
              (chooseSplit (tableText query spans))

/-! ## The slices as predicates -/

/-- A predicate of the split expression, as `ExecutePartitions` writes it. -/
def renderPredicate (split : OdbcSplit) (p : Slice Int64) : List Char :=
  match p.lower, p.upper with
  | none, none => []
  | none, some hi => split.expr ++ " < ".toList ++ boundText split hi
  | some lo, none => split.expr ++ " >= ".toList ++ boundText split lo
  | some lo, some hi =>
      split.expr ++ " >= ".toList ++ boundText split lo ++ " AND ".toList ++
        split.expr ++ " < ".toList ++ boundText split hi

/-- A boundary literal always fits its buffer. -/
theorem boundText_length (split : OdbcSplit) (v : Int64) :
    0 < (boundText split v).length ∧ (boundText split v).length < 64 := by
  have hlo := Int64.le_toInt v
  have hhi := Int64.toInt_lt v
  have hlen := intText_length_le (v := v.toInt) (k := 19) (by omega) (by omega)
  have hpos := List.length_pos_iff.2 (intText_ne_nil v.toInt)
  unfold boundText
  split
  · simp only [List.length_append, String.length_toList]
    have h1 : "'(".length = 2 := by decide
    have h2 : ",0)'::tid".length = 9 := by decide
    omega
  · omega

theorem writeBound_eq (split : OdbcSplit) (v : Int64) :
    writeBound split boundCap v = some (boundText split v) := by
  obtain ⟨hpos, hlt⟩ := boundText_length split v
  have hresult : snprintfResult (boundText split v) = (boundText split v).length := by
    rw [snprintfResult, if_pos (by omega)]
  simp only [writeBound, hresult, boundCap]
  rw [if_pos (by omega)]

/-- The query text of slice `k`. -/
def sliceSql (query : List Char) (head : Int) (split : OdbcSplit) (nparts : Int64) (k : Nat) :
    List Char :=
  precisionText head query ++ " WHERE ".toList ++
    renderPredicate split (slicePredicate split nparts k)

theorem sliceText_eq (query : List Char) (head : Int) (split : OdbcSplit) (nparts : Int64)
    (k : Nat) :
    sliceText query head split nparts k = some (sliceSql query head split nparts k) := by
  unfold sliceText sliceSql slicePredicate renderPredicate
  simp only [writeBound_eq, Option.map_some, Option.bind_some]
  by_cases hk0 : k = 0
  · subst hk0
    simp
  · by_cases hlast : k = nparts.toNatClampNeg - 1
    · rw [if_neg hk0, if_pos hlast, if_neg hk0, if_pos hlast]
    · rw [if_neg hk0, if_neg hlast, if_neg hk0, if_neg hlast]

/-! ## What the entry point hands back -/

section Built

variable {memory : Memory} {query : List Char} {head : Int} {split : OdbcSplit} {nparts : Int64}

theorem buildSlice_ok {k : Nat} {slice : List Char}
    (h : buildSlice memory query head split nparts k = .ok slice) :
    slice = descriptor (sliceSql query head split nparts k) ∧
      (sliceSql query head split nparts k).length ≤ 2147483647 := by
  unfold buildSlice at h
  simp only [sliceText_eq] at h
  by_cases hfit : (sliceSql query head split nparts k).length ≤ 2147483647
  · split at h
    · cases h
    · exact ⟨(Except.ok.inj h).symm, hfit⟩
  · rw [snprintfResult, if_neg hfit, if_pos (Or.inl (by omega))] at h
    cases h

theorem buildSlices_ok {k remaining : Nat} {slices : List (List Char)}
    (h : buildSlices memory query head split nparts k remaining = .ok slices) :
    slices = (List.range' k remaining).map
        (fun i => descriptor (sliceSql query head split nparts i)) ∧
      ∀ i, k ≤ i → i < k + remaining →
        (sliceSql query head split nparts i).length ≤ 2147483647 := by
  induction remaining generalizing k slices with
  | zero =>
      have hnil : slices = [] := (Except.ok.inj h).symm
      exact ⟨by rw [hnil]; rfl, by omega⟩
  | succ remaining ih =>
      rw [buildSlices] at h
      cases hslice : buildSlice memory query head split nparts k with
      | error e =>
          rw [hslice] at h
          cases h
      | ok slice =>
          cases hrest : buildSlices memory query head split nparts (k + 1) remaining with
          | error e =>
              rw [hslice, hrest] at h
              cases h
          | ok rest =>
              rw [hslice, hrest] at h
              have hcons : slices = slice :: rest := (Except.ok.inj h).symm
              obtain ⟨htext, hfit⟩ := buildSlice_ok hslice
              obtain ⟨htexts, hfits⟩ := ih hrest
              refine ⟨?_, ?_⟩
              · rw [hcons, htext, htexts, List.range'_succ, List.map_cons]
              · intro i hki hi
                by_cases heq : i = k
                · rwa [heq]
                · exact hfits i (by omega) (by omega)

end Built

theorem onePartition_ok {memory : Memory} {query : List Char} {parts : List (List Char)}
    (h : onePartition memory query = .ok parts) : parts = [descriptor query] := by
  unfold onePartition at h
  split at h
  · exact (Except.ok.inj h).symm
  · cases h

/-- `parts` are the `n` slices of `query` cut by `split`. -/
structure Sliced (requested : Int64) (query : List Char) (spans : SelectSpans)
    (split : OdbcSplit) (n : Int64) (parts : List (List Char)) : Prop where
  strategy : split.kind ≠ .none
  resolved : resolvePartitionCount requested split = n
  count : 2 ≤ n
  texts : parts = (List.range n.toNatClampNeg).map
    fun k => descriptor (sliceSql query (sliceHead spans) split n k)
  fits : ∀ k, k < n.toNatClampNeg →
    (sliceSql query (sliceHead spans) split n k).length ≤ 2147483647

/-- With a strategy and a count above one the partitions are the slices. -/
theorem splitPartitions_sliced {memory : Memory} {requested n : Int64} {query : List Char}
    {spans : SelectSpans} {split : OdbcSplit} {parts : List (List Char)}
    (hkind : split.kind ≠ .none) (hn : resolvePartitionCount requested split = n) (h2 : 2 ≤ n)
    (h : splitPartitions memory requested query spans split = .ok parts) :
    Sliced requested query spans split n parts := by
  have hone : ¬ n ≤ 1 := by
    rw [Int64.le_iff_toInt_le] at h2 ⊢
    have h1 : (1 : Int64).toInt = 1 := rfl
    have h2' : (2 : Int64).toInt = 2 := rfl
    omega
  unfold splitPartitions at h
  rw [if_neg hkind] at h
  simp only [hn] at h
  rw [if_neg hone] at h
  split at h
  · obtain ⟨htexts, hfits⟩ := buildSlices_ok h
    refine ⟨hkind, hn, h2, ?_, fun k hk => hfits k (by omega) (by omega)⟩
    rw [htexts, List.range_eq_range']
  · cases h

/-- Behind the recogniser: the query verbatim, or its slices. -/
theorem splitPartitions_ok {memory : Memory} {requested : Int64} {query : List Char}
    {spans : SelectSpans} {split : OdbcSplit} {parts : List (List Char)}
    (h : splitPartitions memory requested query spans split = .ok parts) :
    parts = [descriptor query] ∨
      Sliced requested query spans split (resolvePartitionCount requested split) parts := by
  by_cases hkind : split.kind = .none
  · rw [splitPartitions, if_pos hkind] at h
    exact Or.inl (onePartition_ok h)
  by_cases hone : resolvePartitionCount requested split ≤ 1
  · rw [splitPartitions, if_neg hkind, if_pos hone] at h
    exact Or.inl (onePartition_ok h)
  · refine Or.inr (splitPartitions_sliced hkind rfl ?_ h)
    rw [Int64.le_iff_toInt_le] at hone ⊢
    have h1 : (1 : Int64).toInt = 1 := rfl
    have h2 : (2 : Int64).toInt = 2 := rfl
    omega

/-- What the entry point hands back: the query verbatim, or its slices. -/
theorem executePartitions_ok {memory : Memory} {chooseSplit : List Char → OdbcSplit}
    {schema : Option (Except AdbcError Unit)} {stmt : OdbcStatement} {parts : List (List Char)}
    (h : executePartitions memory chooseSplit schema stmt = .ok parts) :
    ∃ query, stmt.query = some query ∧ (parts = [descriptor query] ∨
      ∃ spans, parseSimpleSelect query = some spans ∧
        splitPartitions memory stmt.partitions query spans
          (chooseSplit (tableText query spans)) = .ok parts) := by
  unfold executePartitions at h
  split at h
  · cases h
  rename_i query hquery
  refine ⟨query, hquery, ?_⟩
  split at h
  · cases h
  split at h
  · cases h
  split at h
  · cases h
  split at h
  · exact Or.inl (onePartition_ok h)
  split at h
  · exact Or.inl (onePartition_ok h)
  · rename_i spans hspans
    exact Or.inr ⟨spans, hspans, h⟩

/-- An accepted text goes on to its split. -/
theorem executePartitions_accepted {memory : Memory} {chooseSplit : List Char → OdbcSplit}
    {schema : Option (Except AdbcError Unit)} {stmt : OdbcStatement} {parts : List (List Char)}
    {query : List Char} {spans : SelectSpans} (hquery : stmt.query = some query)
    (hspans : parseSimpleSelect query = some spans) (hne : stmt.partitions ≠ 1)
    (h : executePartitions memory chooseSplit schema stmt = .ok parts) :
    splitPartitions memory stmt.partitions query spans
      (chooseSplit (tableText query spans)) = .ok parts := by
  unfold executePartitions at h
  simp only [hquery, hspans, if_neg hne] at h
  split at h
  · cases h
  split at h
  · cases h
  split at h
  · cases h
  · exact h

/-- A text the scanner does not accept gets one partition. -/
theorem executePartitions_rejected {memory : Memory} {chooseSplit : List Char → OdbcSplit}
    {schema : Option (Except AdbcError Unit)} {stmt : OdbcStatement} {parts : List (List Char)}
    {query : List Char} (hquery : stmt.query = some query)
    (hparse : parseSimpleSelect query = none)
    (h : executePartitions memory chooseSplit schema stmt = .ok parts) :
    parts = [descriptor query] := by
  obtain ⟨query', hquery', hparts⟩ := executePartitions_ok h
  rw [hquery] at hquery'
  cases hquery'
  rcases hparts with hparts | ⟨spans, hspans, _⟩
  · exact hparts
  · rw [hspans] at hparse
    cases hparse

/-- An accepted text with a split and a resolved count above one gets its slices. -/
theorem executePartitions_sliced {memory : Memory} {chooseSplit : List Char → OdbcSplit}
    {schema : Option (Except AdbcError Unit)} {stmt : OdbcStatement} {parts : List (List Char)}
    {query : List Char} {spans : SelectSpans} {split : OdbcSplit} {n : Int64}
    (hquery : stmt.query = some query) (hspans : parseSimpleSelect query = some spans)
    (hsplit : chooseSplit (tableText query spans) = split) (hkind : split.kind ≠ .none)
    (hn : resolvePartitionCount stmt.partitions split = n) (h2 : 2 ≤ n)
    (h : executePartitions memory chooseSplit schema stmt = .ok parts) :
    Sliced stmt.partitions query spans split n parts := by
  have hne : stmt.partitions ≠ 1 := by
    intro hone
    rw [← hn, hone, resolvePartitionCount_one] at h2
    exact absurd h2 (by decide)
  have hsplitOk := executePartitions_accepted hquery hspans hne h
  rw [hsplit] at hsplitOk
  exact splitPartitions_sliced hkind hn h2 hsplitOk

/-! ## The slices cover the table -/

/-- The slices of a split partition the domain of its expression: the boundaries are
exact, increase strictly and lie in the extent, and every key and every tuple is in
one slice and no other; the texts handed back say just these predicates. -/
theorem slices_partition_domain (requested n : Int64) (split : OdbcSplit)
    (hle : split.lo ≤ split.hi) (hn : resolvePartitionCount requested split = n) (h2 : 2 ≤ n) :
    n ≤ 256 ∧
    (∀ k : Nat, 1 ≤ k → k < n.toNatClampNeg →
      SplitExact split.lo split.hi n (Int64.ofNat k) ∧
        split.lo < splitBoundary split.lo split.hi n (Int64.ofNat k) ∧
        splitBoundary split.lo split.hi n (Int64.ofNat k) ≤ split.hi) ∧
    (∀ k : Nat, 1 ≤ k → k + 1 < n.toNatClampNeg →
      splitBoundary split.lo split.hi n (Int64.ofNat k) <
        splitBoundary split.lo split.hi n (Int64.ofNat (k + 1))) ∧
    (∀ v : Int64, ∃! k, k < n.toNatClampNeg ∧ HoldsKey (slicePredicate split n k) v) ∧
    (∀ block offset : Nat, 1 ≤ offset →
      ∃! k, k < n.toNatClampNeg ∧ HoldsTid (slicePredicate split n k) block offset) ∧
    (∀ memory chooseSplit schema stmt query spans parts, stmt.query = some query →
      stmt.partitions = requested → parseSimpleSelect query = some spans →
      chooseSplit (tableText query spans) = split → split.kind ≠ .none →
      executePartitions memory chooseSplit schema stmt = .ok parts →
      parts = (List.range n.toNatClampNeg).map fun k =>
        descriptor (precisionText (sliceHead spans) query ++ " WHERE ".toList ++
          renderPredicate split (slicePredicate split n k))) := by
  obtain ⟨_, hmax, _⟩ := resolvePartitionCount_spec requested split hle
  rw [hn] at hmax
  have hcount := toNatClampNeg_eq h2
  refine ⟨Int64.le_iff_toInt_le.2 hmax, ?_, ?_, slices_cover_keys hle hn h2, ?_, ?_⟩
  · intro k h1 hk
    exact ⟨resolved_exact hle hn (by omega), resolved_boundary_mem hle hn h2 h1 (by omega)⟩
  · intro k _ hk
    exact resolved_boundary_lt_succ hle hn h2 (by omega)
  · intro block offset _
    exact slices_cover_tids hle hn h2 block offset
  · intro memory chooseSplit schema stmt query spans parts hquery hreq hspans hsplit hkind h
    rw [← hreq] at hn
    exact (executePartitions_sliced hquery hspans hsplit hkind hn h2 h).texts

/-- A `ctid` split over a thousand blocks, cut in four. -/
theorem slices_partition_domain_ctid :
    ∃! k, k < (4 : Int64).toNatClampNeg ∧
      HoldsTid (slicePredicate ⟨.ctid, "ctid".toList, 0, 1000, 0⟩ 4 k) 250 1 :=
  (slices_partition_domain 4 4 ⟨.ctid, "ctid".toList, 0, 1000, 0⟩ (by decide) (by decide)
    (by decide)).2.2.2.2.1 250 1 (by decide)

end AdbcBridge.Partition.Slices
