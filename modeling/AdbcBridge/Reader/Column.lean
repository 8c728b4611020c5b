import AdbcBridge.Adbc.Interface

/-!
# The columns of a result set

How `ClassifyColumn` and `DescribeColumns` decide which columns are bound and how wide,
and when a bound value has outgrown its buffer.
-/

namespace AdbcBridge.Reader

open AdbcBridge.Adbc

/-- The options of `OdbcReaderOptions` that the reader goes by; `OdbcReaderInit` has put
the default in place of a batch size that is not positive. -/
structure OdbcReaderOptions where
  batchSize : Nat
  batchSize_pos : 0 < batchSize
  maxBindBytes : Nat := 32768
  longBindBytes : Nat := 2048
  rowsetBytes : Nat := 8 * 1024 * 1024
  minBufferRows : Nat := 0
  getdataRepair : Bool := false
  getdataBound : Bool := false
  refetchRepair : Bool := false
  fixedRowset : Bool := false
  sqllen32bit : Bool := false

/-- The C type a column is fetched as; the last stands for those of a fixed size. -/
inductive CType where
  | char
  | wchar
  | binary
  | fixed
deriving DecidableEq, Repr

structure OdbcColumn where
  name : List Char
  cType : CType
  elemSize : Nat
  bound : Bool := true
  clipped : Bool := false
  truncBytes : Nat := 0
deriving DecidableEq, Repr

/-- What the type and the length a driver declares for a column come to in
`ClassifyColumn`: a size that is bound as it stands, a text buffer of at least so many
bytes, or a width for `ApplyBindWidth`. -/
inductive Declared where
  | plain (cType : CType) (elemSize : Nat)
  | text (columnSize minimum : Nat)
  | sized (cType : CType) (elemSize columnSize : Nat) (noDeclaredLength : Bool)
deriving DecidableEq, Repr

/-- `TruncationRepairable`. -/
def truncationRepairable (opts : OdbcReaderOptions) : Bool :=
  opts.getdataBound && (opts.getdataRepair || (opts.refetchRepair && !opts.fixedRowset))

/-- `ApplyBindWidth`. -/
def applyBindWidth (opts : OdbcReaderOptions) (columnSize : Nat) (noDeclaredLength : Bool)
    (c : OdbcColumn) : OdbcColumn :=
  let repairable := truncationRepairable opts && decide (0 < opts.longBindBytes)
  if columnSize = 0 ∧ (!noDeclaredLength || !repairable) then { c with bound := false }
  else if noDeclaredLength && !repairable then { c with bound := false }
  else
    let c := if noDeclaredLength then { c with clipped := true } else c
    let c :=
      if noDeclaredLength && repairable && decide (c.elemSize < opts.longBindBytes) then
        { c with elemSize := opts.longBindBytes }
      else c
    if opts.maxBindBytes < c.elemSize then
      if repairable then { c with elemSize := opts.longBindBytes, clipped := true }
      else { c with bound := false }
    else c

/-- `UseTextBuffer`. -/
def useTextBuffer (opts : OdbcReaderOptions) (columnSize minimum : Nat) (c : OdbcColumn) :
    OdbcColumn :=
  let elemSize := max (columnSize + 8) minimum
  { c with
    cType := .char
    elemSize
    bound := c.bound && !decide (opts.maxBindBytes < elemSize) }

/-- `ClassifyColumn`, once it knows what the driver declares. -/
def classifyColumn (opts : OdbcReaderOptions) (name : List Char) : Declared → OdbcColumn
  | .plain cType elemSize => { name, cType, elemSize }
  | .text columnSize minimum =>
      useTextBuffer opts columnSize minimum { name, cType := .char, elemSize := 0 }
  | .sized cType elemSize columnSize noDeclaredLength =>
      applyBindWidth opts columnSize noDeclaredLength { name, cType, elemSize }

/-- The pass of `DescribeColumns` that unbinds what follows an unbound column. -/
def unbindAfter : Bool → List OdbcColumn → List OdbcColumn
  | _, [] => []
  | seenUnbound, c :: rest =>
      let c := if seenUnbound then { c with bound := false } else c
      c :: unbindAfter (!c.bound) rest

/-- `DescribeColumns`. -/
def describeColumns (opts : OdbcReaderOptions) (declared : List (List Char × Declared)) :
    List OdbcColumn :=
  unbindAfter false (declared.map fun d => classifyColumn opts d.1 d.2)

/-- `BoundValueCap`; a `SQLWCHAR` has two bytes. -/
def boundValueCap (c : OdbcColumn) : Nat :=
  c.elemSize - match c.cType with
    | .char => 1
    | .wchar => 2
    | _ => 0

/-- `SQL_NULL_DATA`. -/
def nullData : Int := -1

/-- `SQL_NO_TOTAL`. -/
def noTotal : Int := -4

/-- `BoundValueTruncated`. -/
def boundValueTruncated (c : OdbcColumn) (ind : Int) : Bool :=
  decide (c.cType ≠ .fixed ∧ ind ≠ nullData ∧
    (ind = noTotal ∨ ind < 0 ∨ (boundValueCap c : Int) < ind))

/-! ## What is bound -/

/-- A bound column narrower than its declaration can be read again. -/
def Repairable (opts : OdbcReaderOptions) (c : OdbcColumn) : Prop :=
  c.bound = true → c.clipped = true → truncationRepairable opts = true

theorem applyBindWidth_repairable (opts : OdbcReaderOptions) (columnSize : Nat)
    (noDeclaredLength : Bool) {c : OdbcColumn} (hc : c.clipped = false) :
    Repairable opts (applyBindWidth opts columnSize noDeclaredLength c) := by
  unfold Repairable applyBindWidth
  cases hrep : truncationRepairable opts with
  | true => exact fun _ _ => rfl
  | false =>
      simp only [Bool.false_and, Bool.not_false, Bool.or_true, Bool.and_true, Bool.and_false,
        Bool.false_eq_true, if_false]
      cases noDeclaredLength with
      | true => simp
      | false =>
          by_cases hwide : opts.maxBindBytes < c.elemSize <;> split <;> simp [hwide, hc]

theorem classifyColumn_repairable (opts : OdbcReaderOptions) (name : List Char)
    (declared : Declared) : Repairable opts (classifyColumn opts name declared) := by
  cases declared with
  | plain cType elemSize => exact fun _ hclipped => absurd hclipped (by simp [classifyColumn])
  | text columnSize minimum =>
      exact fun _ hclipped => absurd hclipped (by simp [classifyColumn, useTextBuffer])
  | sized cType elemSize columnSize noDeclaredLength => exact applyBindWidth_repairable _ _ _ rfl

/-- The unbound columns come last. -/
def UnboundLast (cols : List OdbcColumn) : Prop :=
  cols.Pairwise fun c c' => c.bound = false → c'.bound = false

theorem unbindAfter_true (cols : List OdbcColumn) :
    ∀ c ∈ unbindAfter true cols, c.bound = false := by
  induction cols with
  | nil => simp [unbindAfter]
  | cons c rest ih => simpa [unbindAfter] using ih

theorem unbindAfter_unboundLast (seenUnbound : Bool) (cols : List OdbcColumn) :
    UnboundLast (unbindAfter seenUnbound cols) := by
  induction cols generalizing seenUnbound with
  | nil => exact .nil
  | cons c rest ih =>
      rw [unbindAfter]
      refine List.pairwise_cons.2 ⟨fun c' hc' hbound => ?_, ih _⟩
      rw [hbound] at hc'
      exact unbindAfter_true rest c' hc'

theorem unbindAfter_repairable {opts : OdbcReaderOptions} (seenUnbound : Bool)
    {cols : List OdbcColumn} (hcols : ∀ c ∈ cols, Repairable opts c) :
    ∀ c ∈ unbindAfter seenUnbound cols, Repairable opts c := by
  induction cols generalizing seenUnbound with
  | nil => simp [unbindAfter]
  | cons c rest ih =>
      intro c' hc'
      rw [unbindAfter, List.mem_cons] at hc'
      rcases hc' with rfl | hc'
      · split
        · exact fun hbound => absurd hbound (by simp)
        · exact hcols c (by simp)
      · exact ih _ (fun c hc => hcols c (by simp [hc])) c' hc'

theorem describeColumns_unboundLast (opts : OdbcReaderOptions)
    (declared : List (List Char × Declared)) : UnboundLast (describeColumns opts declared) :=
  unbindAfter_unboundLast _ _

theorem describeColumns_repairable (opts : OdbcReaderOptions)
    (declared : List (List Char × Declared)) :
    ∀ c ∈ describeColumns opts declared, Repairable opts c := by
  refine unbindAfter_repairable _ fun c hc => ?_
  obtain ⟨d, -, rfl⟩ := List.mem_map.1 hc
  exact classifyColumn_repairable opts d.1 d.2

end AdbcBridge.Reader
