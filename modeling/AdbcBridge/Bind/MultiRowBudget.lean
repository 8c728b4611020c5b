import AdbcBridge.Bind.MultiRow

/-!
# The budgets of a multi-row INSERT

The text of `MultiRowSql`, and the calls that an ingest makes for its multi-row INSERT: the
statements `MultiRowSetup`, `MultiRowGroupFor` and `MultiRowNarrow` prepare and the slots that
`MultiRowExecGroup` fills and binds.  One bound on the row-groups carries all of it: they are
never more than the setup reckoned.
-/

namespace AdbcBridge.Bind.MultiRowBudget

open AdbcBridge.Lib AdbcBridge.Bind.Session AdbcBridge.Bind.MultiRow

/-! ## The parameter slots -/

/-- The size and the alignment of a C type. -/
structure CType where
  size : Nat
  align : Nat
deriving DecidableEq, Repr

namespace CType

def roundUp (n align : Nat) : Nat := (n + align - 1) / align * align

/-- A struct of these fields. -/
def struct (fields : List CType) : CType :=
  let align := (fields.map CType.align).foldl max 1
  ⟨roundUp (fields.foldl (fun offset field => roundUp offset field.align + field.size) 0) align,
    align⟩

/-- A union of these members. -/
def union (members : List CType) : CType :=
  let align := (members.map CType.align).foldl max 1
  ⟨roundUp ((members.map CType.size).foldl max 0) align, align⟩

def array (n : Nat) (t : CType) : CType := ⟨n * t.size, t.align⟩

def char : CType := ⟨1, 1⟩
def short : CType := ⟨2, 2⟩
def int : CType := ⟨4, 4⟩
def int64 : CType := ⟨8, 8⟩

end CType

/-- The targets: 64-bit ones, and 32-bit Windows with its 32-bit pointers and `SQLLEN`. -/
inductive Target where
  | bits64
  | win32
deriving DecidableEq, Repr

/-- A pointer, and an `SQLLEN` or `SQLULEN`. -/
def Target.word : Target → CType
  | .bits64 => .int64
  | .win32 => .int

/-- `struct ArrowBuffer`, with its `struct ArrowBufferAllocator`. -/
def arrowBuffer (t : Target) : CType :=
  .struct [t.word, .int64, .int64, .struct [t.word, t.word, t.word]]

def arrowStringView (t : Target) : CType := .struct [t.word, .int64]

def arrowLayout : CType := .struct [.array 3 .int, .array 3 .int, .array 3 .int64, .int64]

/-- `struct ArrowSchemaView`. -/
def arrowSchemaView (t : Target) : CType :=
  .struct [t.word, .int, .int, arrowLayout, arrowStringView t, arrowStringView t, .int, .int, .int,
    .int, .int, t.word, t.word]

/-- The values that are bound from the slot itself. -/
def fixedValue : CType :=
  .union [.char, .int, .int64, .int64, .int64, .struct [.short, .short, .short],
    .struct [.short, .short, .short],
    .struct [.short, .short, .short, .short, .short, .short, .int], .array 64 .char]

/-- `struct ParamSlot`. -/
def paramSlot (t : Target) : CType :=
  .struct [.short, .short, t.word, .short, t.word, t.word, t.word, t.word, arrowBuffer t,
    arrowSchemaView t, .char, fixedValue]

/-! ## The text -/

/-- A piece of a statement: SQL as it stands, or a parameter. -/
inductive SqlPiece where
  | sql (text : String)
  | placeholder
deriving DecidableEq, Repr

def SqlPiece.text : SqlPiece → String
  | .sql text => text
  | .placeholder => "?"

def SqlPiece.isPlaceholder : SqlPiece → Bool
  | .sql _ => false
  | .placeholder => true

def text : List SqlPiece → String
  | [] => ""
  | piece :: pieces => piece.text ++ text pieces

def placeholders (pieces : List SqlPiece) : Nat := pieces.countP SqlPiece.isPlaceholder

/-- A column of a row-group. -/
def columnSql (form : MultiRowForm) (castTypes : List String) (c : Nat) : List SqlPiece :=
  match form with
  | .union =>
      [.sql ((if c = 0 then "" else ", ") ++ "CAST("), .placeholder,
        .sql (" AS " ++ castTypes.getD c "" ++ ")")]
  | .values | .insertAll => [.sql (if c = 0 then "" else ", "), .placeholder]

def columnsSql (ncols : Nat) (form : MultiRowForm) (castTypes : List String) : List SqlPiece :=
  (List.range ncols).flatMap (columnSql form castTypes)

/-- A row-group. -/
def groupSql (into : String) (ncols r : Nat) (form : MultiRowForm) (castTypes : List String)
    (unionFrom : String) : List SqlPiece :=
  let before := match form with
    | .insertAll => " INTO " ++ into ++ " VALUES ("
    | .union => if r = 0 then "SELECT " else " UNION ALL SELECT "
    | .values => if r = 0 then "(" else ", ("
  let behind := match form with
    | .union => " FROM " ++ unionFrom
    | .insertAll | .values => ")"
  .sql before :: columnsSql ncols form castTypes ++ [.sql behind]

/-- `MultiRowSql`. -/
def multiRowSql (into : String) (ncols rows : Nat) (form : MultiRowForm) (castTypes : List String)
    (unionFrom : String) : List SqlPiece :=
  let before := match form with
    | .insertAll => "INSERT ALL"
    | .union => "INSERT INTO " ++ into ++ " "
    | .values => "INSERT INTO " ++ into ++ " VALUES "
  let behind := match form with
    | .insertAll => " SELECT 1 FROM dual"
    | .union | .values => ""
  .sql before ::
    (List.range rows).flatMap (fun r => groupSql into ncols r form castTypes unionFrom) ++
    [.sql behind]

/-- The statement that `MultiRowPrepare` prepares for so many row-groups. -/
def statementSql (s : OdbcStatement) (ncols : Nat) (form : MultiRowForm) (rows : Nat) :
    List SqlPiece :=
  multiRowSql (s.ingestInto.getD "") ncols rows form (s.castTypes.getD [])
    (s.opts.multirowUnionFrom.getD "")

/-- The text budget. -/
def textLimit (s : OdbcStatement) : Nat :=
  if 0 < s.opts.maxStatementLen then min s.opts.maxStatementLen 1048576 else 1048576

/-- A statement of so many row-groups keeps to the budgets. -/
structure Fits (s : OdbcStatement) (ncols : Nat) (form : MultiRowForm) (n : Nat) : Prop where
  two_le : 2 ≤ n
  placeholders : placeholders (statementSql s ncols form n) = n * ncols
  text : (text (statementSql s ncols form n)).utf8ByteSize ≤ textLimit s
  params : 0 < s.opts.maxStatementParams → n * ncols ≤ s.opts.maxStatementParams
  rows : n ≤ 1000

/-! ## The calls of an ingest -/

/-- The slots at hand behind a call. -/
def slotsBehind (slots : Nat) : MultiRowCall → Nat
  | .allocate n => n
  | _ => slots

/-- The slots that were allocated last. -/
def allocated (calls : List MultiRowCall) : Nat := calls.foldl slotsBehind 0

/-- A call keeps to the budgets, with so many slots at hand. -/
def Keeps (s : OdbcStatement) (ncols slots : Nat) : MultiRowCall → Prop
  | .prepare form rows => Fits s ncols form rows
  | .allocate _ => True
  | .fill slot => slot < slots
  | .bind slot ordinal => slot < slots ∧ ordinal.toNat = slot + 1

/-- Every call keeps to the budgets with the slots that were allocated in front of it. -/
def Budgeted (s : OdbcStatement) (ncols : Nat) (calls : List MultiRowCall) : Prop :=
  ∀ front c, front ++ [c] <+: calls → Keeps s ncols (allocated front) c

/-- The multi-row INSERT of an ingest and the calls that were made for it: a setup, and the batches
that are fed through it, with anything between them that makes no such call. -/
inductive Ingest (s : OdbcStatement) (ncols : Nat) : MultiRowInsert → World → Prop
  | setup {d : Driver} {w : World} :
      (multiRowInit s ncols).enabled = true → w.calls = [] →
      Ingest s ncols (multiRowSetup d s ncols (multiRowInit s ncols) w).1
        (multiRowSetup d s ncols (multiRowInit s ncols) w).2
  | elsewhere {mr : MultiRowInsert} {w w' : World} :
      Ingest s ncols mr w → w'.calls = w.calls → Ingest s ncols mr w'
  | batch {mr : MultiRowInsert} {w : World} {p : Prepared} {d : Driver} {b : Batch}
      {base row0 nrows : Nat} {virgin : Bool} {total : Int} {r : PathResult Prepared} :
      Ingest s ncols mr w → mr.prepared = some p →
      multiRowExecuteBatch d mr.form ncols b base row0 nrows virgin p total w = r →
      Ingest s ncols { mr with prepared := r.kept } r.world

/-! ## The text of so many row-groups -/

def bytes (pieces : List SqlPiece) : Nat := (text pieces).utf8ByteSize

@[simp] theorem bytes_nil : bytes [] = 0 := rfl

@[simp] theorem bytes_cons (piece : SqlPiece) (pieces : List SqlPiece) :
    bytes (piece :: pieces) = piece.text.utf8ByteSize + bytes pieces := by
  unfold bytes
  exact String.utf8ByteSize_append

@[simp] theorem bytes_append (as bs : List SqlPiece) : bytes (as ++ bs) = bytes as + bytes bs := by
  induction as with
  | nil => simp
  | cons piece as ih =>
      rw [List.cons_append, bytes_cons, bytes_cons, ih]
      omega

@[simp] theorem placeholders_append (as bs : List SqlPiece) :
    placeholders (as ++ bs) = placeholders as + placeholders bs :=
  List.countP_append

theorem bytes_flatMap {β : Type*} (xs : List β) (f : β → List SqlPiece) :
    bytes (xs.flatMap f) = (xs.map fun x => bytes (f x)).sum := by
  induction xs with
  | nil => rfl
  | cons x xs ih =>
      rw [List.flatMap_cons, bytes_append, List.map_cons, List.sum_cons, ih]

theorem bytes_flatMap_le {β : Type*} {xs : List β} {f : β → List SqlPiece} {g : Nat}
    (h : ∀ x ∈ xs, bytes (f x) ≤ g) : bytes (xs.flatMap f) ≤ xs.length * g := by
  rw [bytes_flatMap]
  calc (xs.map fun x => bytes (f x)).sum
      ≤ (xs.map fun _ => g).sum := List.sum_le_sum h
    _ = xs.length * g := by simp

theorem placeholders_flatMap {β : Type*} {xs : List β} {f : β → List SqlPiece} {k : Nat}
    (h : ∀ x ∈ xs, placeholders (f x) = k) : placeholders (xs.flatMap f) = xs.length * k := by
  induction xs with
  | nil => simp [placeholders]
  | cons x xs ih =>
      have hrest := ih fun y hy => h y (List.mem_cons_of_mem x hy)
      rw [List.flatMap_cons, placeholders_append, h x List.mem_cons_self, hrest,
        List.length_cons, Nat.succ_mul, Nat.add_comm]

theorem columnsSql_placeholders (ncols : Nat) (form : MultiRowForm) (castTypes : List String) :
    placeholders (columnsSql ncols form castTypes) = ncols := by
  have hone : ∀ c ∈ List.range ncols, placeholders (columnSql form castTypes c) = 1 := by
    intro c _
    cases form <;> rfl
  rw [columnsSql, placeholders_flatMap hone, List.length_range, Nat.mul_one]

/-- Every parameter of every row-group is there once. -/
theorem multiRowSql_placeholders (into : String) (ncols rows : Nat) (form : MultiRowForm)
    (castTypes : List String) (unionFrom : String) :
    placeholders (multiRowSql into ncols rows form castTypes unionFrom) = rows * ncols := by
  have hgroup : ∀ r ∈ List.range rows,
      placeholders (groupSql into ncols r form castTypes unionFrom) = ncols := by
    intro r _
    change placeholders ([.sql _] ++ (columnsSql ncols form castTypes ++ [.sql _])) = ncols
    rw [placeholders_append, placeholders_append, columnsSql_placeholders]
    simp [placeholders, SqlPiece.isPlaceholder]
  have hgroups := placeholders_flatMap hgroup
  rw [List.length_range] at hgroups
  change placeholders ([.sql _] ++ (_ ++ [.sql _])) = rows * ncols
  rw [placeholders_append, placeholders_append, hgroups]
  simp [placeholders, SqlPiece.isPlaceholder]

/-- Two bytes between two columns, and one for the parameter. -/
theorem columnsSql_bytes {form : MultiRowForm} (hform : form ≠ .union) (ncols : Nat)
    (castTypes : List String) : bytes (columnsSql ncols form castTypes) ≤ ncols * 3 := by
  have hsep (c : Nat) : bytes [.sql (if c = 0 then "" else ", "), .placeholder] ≤ 3 := by
    by_cases hc : c = 0
    · rw [if_pos hc]
      decide
    · rw [if_neg hc]
      decide
  have hone : ∀ c ∈ List.range ncols, bytes (columnSql form castTypes c) ≤ 3 := by
    intro c _
    cases form with
    | union => exact absurd rfl hform
    | values => exact hsep c
    | insertAll => exact hsep c
  have hall := bytes_flatMap_le hone
  rwa [List.length_range] at hall

/-- With the casts, each to its type. -/
theorem columnsSql_union_bytes {ncols : Nat} {castTypes : List String}
    (hlength : castTypes.length = ncols) :
    bytes (columnsSql ncols .union castTypes) ≤
      (castTypes.map fun type => type.utf8ByteSize + 14).sum := by
  have htypes : castTypes = (List.range ncols).map fun c => castTypes.getD c "" := by
    apply List.ext_getElem
    · simp [hlength]
    · intro c hc _
      simp [List.getD_eq_getElem?_getD, List.getElem?_eq_getElem hc]
  unfold columnsSql
  rw [bytes_flatMap]
  conv_rhs => rw [htypes, List.map_map]
  apply List.sum_le_sum
  intro c _
  have hfirst : ((if c = 0 then "" else ", ") ++ "CAST(").utf8ByteSize ≤ 7 := by
    by_cases hc : c = 0 <;> simp [hc] <;> decide
  simp only [columnSql, bytes_cons, bytes_nil, SqlPiece.text, String.utf8ByteSize_append,
    Function.comp_apply] at hfirst ⊢
  have hmark : "?".utf8ByteSize = 1 := by decide
  have has : " AS ".utf8ByteSize = 4 := by decide
  have hclose : ")".utf8ByteSize = 1 := by decide
  omega

/-- A row-group is no longer than the setup reckons. -/
theorem groupSql_bytes (s : OdbcStatement) {ncols : Nat} {form : MultiRowForm}
    (hcast : form = .union → (s.castTypes.getD []).length = ncols) (r : Nat) :
    bytes (groupSql (s.ingestInto.getD "") ncols r form (s.castTypes.getD [])
        (s.opts.multirowUnionFrom.getD "")) ≤
      groupBytes s ncols (s.ingestInto.getD "").utf8ByteSize form := by
  have hclose : ")".utf8ByteSize = 1 := by decide
  cases form with
  | values =>
      have hcolumns := columnsSql_bytes (show MultiRowForm.values ≠ .union by decide) ncols
        (s.castTypes.getD [])
      have hopen : (if r = 0 then "(" else ", (").utf8ByteSize ≤ 3 := by
        by_cases hr : r = 0
        · rw [if_pos hr]
          decide
        · rw [if_neg hr]
          decide
      simp only [groupSql, groupBytes, bytes_cons, bytes_append, bytes_nil, List.cons_append,
        SqlPiece.text]
      omega
  | insertAll =>
      have hcolumns := columnsSql_bytes (show MultiRowForm.insertAll ≠ .union by decide) ncols
        (s.castTypes.getD [])
      have hinto : " INTO ".utf8ByteSize = 6 := by decide
      have hvalues : " VALUES (".utf8ByteSize = 9 := by decide
      simp only [groupSql, groupBytes, bytes_cons, bytes_append, bytes_nil, List.cons_append,
        SqlPiece.text, String.utf8ByteSize_append]
      omega
  | union =>
      have hcolumns := columnsSql_union_bytes (hcast rfl)
      have hselect : (if r = 0 then "SELECT " else " UNION ALL SELECT ").utf8ByteSize ≤ 18 := by
        by_cases hr : r = 0
        · rw [if_pos hr]
          decide
        · rw [if_neg hr]
          decide
      have hfrom : " FROM ".utf8ByteSize = 6 := by decide
      simp only [groupSql, groupBytes, bytes_cons, bytes_append, bytes_nil, List.cons_append,
        SqlPiece.text, String.utf8ByteSize_append]
      omega

theorem statementSql_bytes (s : OdbcStatement) {ncols : Nat} {form : MultiRowForm}
    (hcast : form = .union → (s.castTypes.getD []).length = ncols) (n : Nat) :
    bytes (statementSql s ncols form n) ≤
      (s.ingestInto.getD "").utf8ByteSize + 29 +
        n * groupBytes s ncols (s.ingestInto.getD "").utf8ByteSize form := by
  have hgroups := @bytes_flatMap_le _ (List.range n) _ _ fun r _ => groupSql_bytes s hcast r
  rw [List.length_range] at hgroups
  have hinsert : "INSERT INTO ".utf8ByteSize = 12 := by decide
  have hvalues : " VALUES ".utf8ByteSize = 8 := by decide
  have hblank : " ".utf8ByteSize = 1 := by decide
  have hall : "INSERT ALL".utf8ByteSize = 10 := by decide
  have hdual : " SELECT 1 FROM dual".utf8ByteSize = 19 := by decide
  have hempty : "".utf8ByteSize = 0 := by decide
  unfold statementSql multiRowSql
  cases form with
  | values =>
      simp only [bytes_cons, bytes_append, bytes_nil, List.cons_append, SqlPiece.text,
        String.utf8ByteSize_append] at hgroups ⊢
      omega
  | insertAll =>
      simp only [bytes_cons, bytes_append, bytes_nil, List.cons_append, SqlPiece.text]
        at hgroups ⊢
      omega
  | union =>
      simp only [bytes_cons, bytes_append, bytes_nil, List.cons_append, SqlPiece.text,
        String.utf8ByteSize_append] at hgroups ⊢
      omega

/-! ## What the setup reckons -/

theorem paramSlot_size (t : Target) : 256 < (paramSlot t).size := by
  cases t <;> decide

theorem groupBytes_pos (s : OdbcStatement) (ncols into : Nat) (form : MultiRowForm) :
    0 < groupBytes s ncols into form := by
  cases form <;> simp only [groupBytes] <;> omega

/-- The limits on the row-groups of the setup, one by one. -/
theorem multiRowRows_limits {s : OdbcStatement} {ncols n : Nat} {form : MultiRowForm} {m : Memory}
    (h : n ≤ multiRowRows s ncols form m) :
    (0 < s.opts.maxStatementParams → n ≤ s.opts.maxStatementParams / ncols) ∧ n ≤ 1000 ∧
      n ≤ (textLimit s - (s.ingestInto.getD "").utf8ByteSize - 64) /
        groupBytes s ncols (s.ingestInto.getD "").utf8ByteSize form ∧
      n ≤ 16777216 / max 1 (s.slotBytes * ncols) := by
  have hlimit : (if 0 < s.opts.maxStatementLen ∧ s.opts.maxStatementLen < 1048576 then
      s.opts.maxStatementLen else 1048576) = textLimit s := by
    unfold textLimit
    split
    · rename_i hlen
      rw [if_pos hlen.1, Nat.min_eq_left (Nat.le_of_lt hlen.2)]
    · rename_i hlen
      split
      · rename_i hpos
        rw [Nat.min_eq_right]
        exact Nat.le_of_not_lt fun hlt => hlen ⟨hpos, hlt⟩
      · rfl
  unfold multiRowRows at h
  dsimp only at h
  rw [hlimit] at h
  simp only [Nat.le_min] at h
  obtain ⟨⟨⟨hallowed, hrows⟩, htext⟩, hslots⟩ := h
  refine ⟨fun hpos => ?_, hrows, htext, hslots⟩
  rw [if_pos hpos] at hallowed
  exact (Nat.le_min.mp hallowed).2

theorem mul_le_of_le_div {n a b : Nat} (h : n ≤ a / b) : n * b ≤ a :=
  (Nat.mul_le_mul_right b h).trans (Nat.div_mul_le_self a b)

/-- Two row-groups or more, and no more than the setup reckons, keep to the budgets. -/
theorem fits_of_le {s : OdbcStatement} {ncols n : Nat} {form : MultiRowForm} {m : Memory}
    (hcast : form = .union → (s.castTypes.getD []).length = ncols) (htwo : 2 ≤ n)
    (h : n ≤ multiRowRows s ncols form m) : Fits s ncols form n := by
  obtain ⟨hparams, hrows, htext, -⟩ := multiRowRows_limits h
  refine ⟨htwo, multiRowSql_placeholders _ ncols n form _ _, ?_,
    fun hpos => mul_le_of_le_div (hparams hpos), hrows⟩
  have hbytes := statementSql_bytes s hcast n
  have hgroups := mul_le_of_le_div htext
  have hpos := Nat.mul_pos (Nat.lt_of_lt_of_le Nat.zero_lt_two htwo)
    (groupBytes_pos s ncols (s.ingestInto.getD "").utf8ByteSize form)
  -- A text budget of nothing has no room for a row-group, so the subtraction is exact.
  change bytes (statementSql s ncols form n) ≤ textLimit s
  omega

/-- The slots of the row-groups that the setup reckons are bound by ordinals of 16 bits. -/
theorem slots_le {s : OdbcStatement} {ncols n : Nat} {form : MultiRowForm} {m : Memory} {t : Target}
    (hslot : s.slotBytes = (paramSlot t).size) (h : n ≤ multiRowRows s ncols form m) :
    n * ncols < 65536 := by
  obtain ⟨-, -, -, hslots⟩ := multiRowRows_limits h
  have hbytes := mul_le_of_le_div hslots
  have hsize := paramSlot_size t
  have hgroup : n * (s.slotBytes * ncols) ≤ 16777216 :=
    (Nat.mul_le_mul_left n (Nat.le_max_right 1 _)).trans hbytes
  have hall : 257 * (n * ncols) ≤ 16777216 :=
    calc 257 * (n * ncols)
        ≤ s.slotBytes * (n * ncols) := Nat.mul_le_mul_right _ (by omega)
      _ = n * (s.slotBytes * ncols) := Nat.mul_left_comm _ _ _
      _ ≤ 16777216 := hgroup
  omega

/-! ## What the calls keep to -/

/-- From `w` to `w'` calls were made that keep to the budgets, and no slots were allocated. -/
def Adds (s : OdbcStatement) (ncols slots : Nat) (w w' : World) : Prop :=
  ∃ cs, w'.calls = w.calls ++ cs ∧ ∀ c ∈ cs, Keeps s ncols slots c ∧ ∀ n, c ≠ .allocate n

namespace Adds

variable {s : OdbcStatement} {ncols slots : Nat} {w w' w'' : World}

theorem same (h : w'.calls = w.calls) : Adds s ncols slots w w' :=
  ⟨[], by rw [h, List.append_nil], List.forall_mem_nil _⟩

theorem one {c : MultiRowCall} (h : w'.calls = w.calls ++ [c]) (hkeeps : Keeps s ncols slots c)
    (hno : ∀ n, c ≠ .allocate n) : Adds s ncols slots w w' :=
  ⟨[c], h, List.forall_mem_singleton.mpr ⟨hkeeps, hno⟩⟩

theorem trans (h : Adds s ncols slots w w') (h' : Adds s ncols slots w' w'') :
    Adds s ncols slots w w'' := by
  obtain ⟨cs, hcalls, hkeep⟩ := h
  obtain ⟨cs', hcalls', hkeep'⟩ := h'
  refine ⟨cs ++ cs', by rw [hcalls', hcalls, List.append_assoc], ?_⟩
  exact List.forall_mem_append.mpr ⟨hkeep, hkeep'⟩

end Adds

theorem allocated_append {cs : List MultiRowCall} (h : ∀ c ∈ cs, ∀ n, c ≠ .allocate n)
    (calls : List MultiRowCall) : allocated (calls ++ cs) = allocated calls := by
  unfold allocated
  rw [List.foldl_append]
  generalize calls.foldl slotsBehind 0 = slots
  induction cs with
  | nil => rfl
  | cons c cs ih =>
      have hsame : slotsBehind slots c = slots := by
        cases c with
        | allocate n => exact absurd rfl (h _ List.mem_cons_self n)
        | prepare form rows => rfl
        | fill slot => rfl
        | bind slot ordinal => rfl
      rw [List.foldl_cons, hsame]
      exact ih fun c hc => h c (List.mem_cons_of_mem _ hc)

theorem Budgeted.snoc {s : OdbcStatement} {ncols : Nat} {calls : List MultiRowCall}
    {c : MultiRowCall} (h : Budgeted s ncols calls) (hc : Keeps s ncols (allocated calls) c) :
    Budgeted s ncols (calls ++ [c]) := by
  intro front c' hprefix
  rcases List.prefix_concat_iff.mp hprefix with hsame | hearlier
  · obtain ⟨rfl, hone⟩ := List.append_inj' hsame rfl
    rw [List.singleton_inj.mp hone]
    exact hc
  · exact h front c' hearlier

theorem Budgeted.adds {s : OdbcStatement} {ncols : Nat} {w w' : World}
    (h : Budgeted s ncols w.calls) (hadds : Adds s ncols (allocated w.calls) w w') :
    Budgeted s ncols w'.calls ∧ allocated w'.calls = allocated w.calls := by
  obtain ⟨cs, hcalls, hkeep⟩ := hadds
  rw [hcalls]
  refine ⟨?_, allocated_append (fun c hc => (hkeep c hc).2) _⟩
  clear hcalls
  induction cs using List.reverseRecOn with
  | nil => rwa [List.append_nil]
  | append_singleton cs c ih =>
      obtain ⟨hfront, hc⟩ := List.forall_mem_append.mp hkeep
      rw [← List.append_assoc]
      apply (ih hfront).snoc
      rw [allocated_append fun c hc => (hfront c hc).2]
      exact (hc c List.mem_cons_self).1

section

variable {s : OdbcStatement} {ncols slots : Nat} {form : MultiRowForm} {m : Memory}

theorem multiRowPrepare_adds (d : Driver) {n : Nat} (w : World) (h : Fits s ncols form n) :
    Adds s ncols slots w (multiRowPrepare d form n w).2 :=
  .one rfl h fun _ heq => by cases heq

/-- A halving loop asks for row-groups that the setup reckoned with, and ends with some it asked
for, or gives up. -/
theorem prepareHalving_adds (hcast : form = .union → (s.castTypes.getD []).length = ncols)
    (d : Driver) {k : Nat} (hk : k ≤ multiRowRows s ncols form m) (w : World) :
    Adds s ncols slots w (prepareHalving d form k w).2 := by
  induction k, w using prepareHalving.induct d form with
  | case1 k w h prepared hprep =>
      rw [prepareHalving, dif_pos h, if_pos hprep]
      exact multiRowPrepare_adds d w (fits_of_le hcast h hk)
  | case2 k w h prepared hprep ih =>
      rw [prepareHalving, dif_pos h, if_neg hprep]
      exact (multiRowPrepare_adds d w (fits_of_le hcast h hk)).trans
        (ih ((Nat.div_le_self k 2).trans hk))
  | case3 k w h =>
      rw [prepareHalving, dif_neg h]
      exact .same rfl

theorem prepareHalving_asked (d : Driver) (form : MultiRowForm) (k : Nat) (w : World) :
    ∀ n ∈ (prepareHalving d form k w).1,
      .prepare form n.1 ∈ (prepareHalving d form k w).2.calls := by
  induction k, w using prepareHalving.induct d form with
  | case1 k w h prepared hprep =>
      rw [prepareHalving, dif_pos h, if_pos hprep]
      intro n hn
      rw [← Option.some.inj hn]
      exact List.mem_append_right _ List.mem_cons_self
  | case2 k w h prepared hprep ih =>
      rw [prepareHalving, dif_pos h, if_neg hprep]
      intro n hn
      obtain ⟨n', hn', rfl⟩ := Option.map_eq_some_iff.mp hn
      exact ih n' hn'
  | case3 k w h =>
      rw [prepareHalving, dif_neg h]
      intro n hn
      cases hn

theorem multiRowGroupFor_adds (hcast : form = .union → (s.castTypes.getD []).length = ncols)
    (d : Driver) {p : Prepared} {n : Nat} (htwo : 2 ≤ n)
    (hn : n ≤ multiRowRows s ncols form m) (w : World) :
    Adds s ncols slots w (multiRowGroupFor d form p n w).2.2 := by
  unfold multiRowGroupFor
  split
  · exact .same rfl
  · exact multiRowPrepare_adds d w (fits_of_le hcast htwo hn)

theorem multiRowNarrow_adds (hcast : form = .union → (s.castTypes.getD []).length = ncols)
    (d : Driver) {rows : Nat} (hrows : rows ≤ multiRowRows s ncols form m) (w : World) :
    Adds s ncols slots w (multiRowNarrow d form ncols rows w).2 := by
  have hhalve : Adds s ncols slots w (prepareHalving d form (rows / 2) w).2 :=
    prepareHalving_adds hcast d ((Nat.div_le_self rows 2).trans hrows) w
  unfold multiRowNarrow
  dsimp only
  split
  · exact hhalve
  · exact hhalve.trans (.same rfl)

/-- The cells of a row-group go through its own slots. -/
theorem bindCells_adds (d : Driver) {r : Nat} (hsmall : slots < 65536) {cs : List Nat}
    (hcs : ∀ c ∈ cs, r * ncols + c < slots) (w : World) :
    Adds s ncols slots w (bindCells d ncols r cs w).2 := by
  induction cs generalizing w with
  | nil => exact .same rfl
  | cons c cs ih =>
      have hslot := hcs c List.mem_cons_self
      have hordinal : (BitVec.ofNat 16 (r * ncols + c + 1)).toNat = r * ncols + c + 1 := by
        rw [BitVec.toNat_ofNat]
        exact Nat.mod_eq_of_lt (by omega)
      have hcell : Adds s ncols slots w ((w.call (.fill (r * ncols + c))).call
          (.bind (r * ncols + c) (BitVec.ofNat 16 (r * ncols + c + 1)))) :=
        Adds.trans (Adds.one (c := .fill _) rfl hslot fun _ heq => by cases heq)
          (Adds.one (c := .bind _ _) rfl ⟨hslot, hordinal⟩ fun _ heq => by cases heq)
      rw [bindCells]
      split
      · exact (hcell.trans (.same rfl)).trans (ih (fun c hc => hcs c (List.mem_cons_of_mem _ hc)) _)
      · exact hcell.trans (.same rfl)

theorem bindRow_adds (d : Driver) (b : Batch) (row : Nat) {r : Nat} (hsmall : slots < 65536)
    (hpos : 0 < ncols) (hr : (r + 1) * ncols ≤ slots) (w : World) :
    Adds s ncols slots w (bindRow d ncols b row r w).2 := by
  rw [Nat.succ_mul] at hr
  unfold bindRow
  split
  · apply bindCells_adds d hsmall
    intro c hc
    have hlt := List.mem_range.mp hc
    omega
  · obtain ⟨stop, hstop⟩ : ∃ stop, stop = min (b.stopsAt (row + r)) (ncols - 1) := ⟨_, rfl⟩
    have hcells : Adds s ncols slots w (bindCells d ncols r (List.range stop) w).2 := by
      apply bindCells_adds d hsmall
      intro c hc
      have hlt := List.mem_range.mp hc
      omega
    have hlast : r * ncols + stop < slots := by omega
    rw [← hstop]
    dsimp only
    split
    · exact hcells
    · exact hcells.trans (Adds.one (c := .fill _) rfl hlast fun _ heq => by cases heq)

theorem bindRows_adds (d : Driver) (b : Batch) (row : Nat) (hsmall : slots < 65536)
    (hpos : 0 < ncols) {rs : List Nat} (hrs : ∀ r ∈ rs, (r + 1) * ncols ≤ slots) (w : World) :
    Adds s ncols slots w (bindRows d ncols b row rs w).2 := by
  induction rs generalizing w with
  | nil => exact .same rfl
  | cons r rs ih =>
      have hrow := bindRow_adds (s := s) d b row hsmall hpos (hrs r List.mem_cons_self) w
      rw [bindRows]
      split
      · exact hrow
      · exact hrow.trans (ih (fun r hr => hrs r (List.mem_cons_of_mem _ hr)) _)

theorem multiRowExecGroup_adds (d : Driver) (b : Batch) (base row : Nat) (hsmall : slots < 65536)
    (hpos : 0 < ncols) {n : Nat} (hn : n * ncols ≤ slots) (w : World) :
    Adds s ncols slots w (multiRowExecGroup d ncols b base row n w).2 := by
  have hrows : Adds s ncols slots w (bindRows d ncols b row (List.range n) w).2 := by
    apply bindRows_adds d b row hsmall hpos
    intro r hr
    exact (Nat.mul_le_mul_right ncols (List.mem_range.mp hr)).trans hn
  unfold multiRowExecGroup
  dsimp only
  split
  · exact hrows
  · split
    · exact hrows.trans (.same rfl)
    · exact hrows.trans (.same rfl)

/-! ## Turns and batches -/

/-- The step lemma: a turn keeps to the budgets and never grows the row-groups. -/
theorem multiRowTurn_adds (hcast : form = .union → (s.castTypes.getD []).length = ncols)
    (hsmall : slots < 65536) (hpos : 0 < ncols) (d : Driver) (b : Batch) (base row0 nrows : Nat)
    (virgin : Bool) {st : MultiRowState} (hrows : st.prepared.rows ≤ multiRowRows s ncols form m)
    (hslots : st.prepared.rows * ncols ≤ slots) :
    (∀ st', multiRowTurn d form ncols b base row0 nrows virgin st = .again st' →
      Adds s ncols slots st.world st'.world ∧ st'.prepared.rows ≤ st.prepared.rows) ∧
    ∀ r, multiRowTurn d form ncols b base row0 nrows virgin st = .leave r →
      Adds s ncols slots st.world r.world ∧ ∀ p, r.kept = some p → p.rows ≤ st.prepared.rows := by
  have htwo := st.prepared.two_le
  unfold multiRowTurn
  dsimp only
  split
  · refine ⟨(fun st' heq => by cases heq), fun r heq => ?_⟩
    rw [← Turn.leave.inj heq]
    exact ⟨.same rfl, fun p hp => by rw [← Option.some.inj hp]⟩
  rename_i hmore
  obtain ⟨n, hn⟩ : ∃ n, n = min (nrows - st.row) st.prepared.rows := ⟨_, rfl⟩
  rw [← hn]
  have hle : n ≤ st.prepared.rows := hn ▸ Nat.min_le_right _ _
  have hgroup : Adds s ncols slots st.world
      (multiRowGroupFor d form st.prepared n st.world).2.2 :=
    multiRowGroupFor_adds hcast d (by omega) (hle.trans hrows) st.world
  have hexec := hgroup.trans (multiRowExecGroup_adds (s := s) d b base (row0 + st.row) hsmall hpos
    ((Nat.mul_le_mul_right ncols hle).trans hslots) _)
  split
  · split
    · refine ⟨fun st' heq => ?_, (fun r heq => by cases heq)⟩
      rw [← Turn.again.inj heq]
      exact ⟨hexec, Nat.le_refl _⟩
    · split
      · refine ⟨(fun st' heq => by cases heq), fun r heq => ?_⟩
        rw [← Turn.leave.inj heq]
        exact ⟨hexec, fun p hp => by rw [← Option.some.inj hp]⟩
      · have hnarrow := hexec.trans (multiRowNarrow_adds hcast d hrows _)
        split
        · rename_i k _
          refine ⟨fun st' heq => ?_, (fun r heq => by cases heq)⟩
          rw [← Turn.again.inj heq]
          exact ⟨hnarrow, k.2.2.trans (Nat.div_le_self _ 2)⟩
        · refine ⟨(fun st' heq => by cases heq), fun r heq => ?_⟩
          rw [← Turn.leave.inj heq]
          exact ⟨hnarrow.trans (.same rfl), fun p hp => by cases hp⟩
  · refine ⟨(fun st' heq => by cases heq), fun r heq => ?_⟩
    rw [← Turn.leave.inj heq]
    exact ⟨hgroup, fun p hp => by rw [← Option.some.inj hp]⟩

/-- The run lemma of a batch. -/
theorem multiRowExecuteBatch_adds (hcast : form = .union → (s.castTypes.getD []).length = ncols)
    (hsmall : slots < 65536) (hpos : 0 < ncols) (d : Driver) (b : Batch) (base row0 nrows : Nat)
    (virgin : Bool) {p : Prepared} (total : Int) (w : World)
    (hrows : p.rows ≤ multiRowRows s ncols form m) (hslots : p.rows * ncols ≤ slots)
    {r : PathResult Prepared}
    (hr : multiRowExecuteBatch d form ncols b base row0 nrows virgin p total w = r) :
    Adds s ncols slots w r.world ∧ ∀ p', r.kept = some p' → p'.rows ≤ p.rows := by
  rw [← hr]
  apply Loop.run_rule (l := multiRowLoop d form ncols b base row0 nrows virgin)
    (I := fun st => Adds s ncols slots w st.world ∧ st.prepared.rows ≤ p.rows)
    (P := fun r => Adds s ncols slots w r.world ∧ ∀ p', r.kept = some p' → p'.rows ≤ p.rows)
  · intro st st' h hturn
    obtain ⟨hadds, hle⟩ := h
    obtain ⟨hstep, hle'⟩ := (multiRowTurn_adds (m := m) hcast hsmall hpos d b base row0 nrows virgin
      (hle.trans hrows) ((Nat.mul_le_mul_right ncols hle).trans hslots)).1 st' hturn
    exact ⟨hadds.trans hstep, hle'.trans hle⟩
  · intro st r h hturn
    obtain ⟨hadds, hle⟩ := h
    obtain ⟨hstep, hkept⟩ := (multiRowTurn_adds (m := m) hcast hsmall hpos d b base row0 nrows
      virgin (hle.trans hrows) ((Nat.mul_le_mul_right ncols hle).trans hslots)).2 r hturn
    exact ⟨hadds.trans hstep, fun p' hp' => (hkept p' hp').trans hle⟩
  · exact ⟨.same rfl, Nat.le_refl _⟩

end

/-! ## The setup -/

theorem firstPrepared_calls (d : Driver) (forms : List MultiRowForm) (w : World) :
    (firstPrepared d forms w).2.calls = w.calls := by
  induction forms generalizing w with
  | nil => rfl
  | cons form rest ih =>
      unfold firstPrepared
      split
      · rfl
      · exact ih w.next

theorem probeForm_calls (d : Driver) (s : OdbcStatement) (castTypes : Option (List String))
    (w : World) : (probeForm d s castTypes w).2.calls = w.calls := by
  have hprobe := firstPrepared_calls d (offeredForms s castTypes) w
  unfold probeForm
  split
  · rfl
  · dsimp only
    split
    · exact hprobe
    · split
      · exact hprobe
      · exact hprobe

/-- The calls so far keep to the budgets, and the statement that is held has its slots and no more
row-groups than a setup reckoned. -/
structure Ready (s : OdbcStatement) (ncols : Nat) (mr : MultiRowInsert) (w : World) : Prop where
  budgeted : Budgeted s ncols w.calls
  held : ∀ p, mr.prepared = some p → p.rows * ncols ≤ allocated w.calls ∧
    allocated w.calls < 65536 ∧ (mr.form = .union → (s.castTypes.getD []).length = ncols) ∧
    ∃ m, p.rows ≤ multiRowRows s ncols mr.form m

section

variable {t : Target} {s : OdbcStatement} {ncols : Nat}
  (hslot : s.slotBytes = (paramSlot t).size)
  (hcast : ∀ types, s.castTypes = some types → types.length = ncols)

include hslot in
theorem allocateSlots_ready {d : Driver} {form : MultiRowForm} {mr : MultiRowInsert} {n : Nat}
    {htwo : 2 ≤ n} {m : Memory} {w : World} (hw : Budgeted s ncols w.calls)
    (hcasts : form = .union → (s.castTypes.getD []).length = ncols)
    (hn : n ≤ multiRowRows s ncols form m) :
    Ready s ncols { mr with form := form, prepared := (allocateSlots d ncols n htwo w).1 }
      (allocateSlots d ncols n htwo w).2 := by
  by_cases hroom : d.allocates w.tick = true
  · rw [allocateSlots, if_pos hroom]
    have hslots : allocated (w.calls ++ [.allocate (n * ncols)]) = n * ncols := by
      unfold allocated
      rw [List.foldl_append]
      rfl
    refine ⟨hw.snoc (c := .allocate _) trivial, fun p hp => ?_⟩
    rw [← Option.some.inj hp]
    exact ⟨hslots.ge, lt_of_eq_of_lt hslots (slots_le hslot hn), hcasts, m, hn⟩
  · rw [allocateSlots, if_neg hroom]
    exact ⟨hw, fun p hp => by cases hp⟩

include hslot in
theorem prepareFull_ready {d : Driver} {form : MultiRowForm} {mr : MultiRowInsert} {w : World}
    (hcasts : form = .union → (s.castTypes.getD []).length = ncols) (hw : w.calls = []) :
    Ready s ncols { mr with form := form, prepared := (prepareFull d s ncols form w).1 }
      (prepareFull d s ncols form w).2 := by
  have hempty : Budgeted s ncols w.calls := by
    intro front c hprefix
    rw [hw] at hprefix
    exact absurd (List.prefix_nil.mp hprefix) (by simp)
  have hhalve := hempty.adds (prepareHalving_adds (m := w.memory) hcasts d (Nat.le_refl _) w)
  unfold prepareFull
  dsimp only
  split
  · exact ⟨hempty, fun p hp => by cases hp⟩
  split
  · exact ⟨hhalve.1, fun p hp => by cases hp⟩
  · rename_i n _
    exact allocateSlots_ready hslot hhalve.1 hcasts n.2.2

include hslot hcast in
theorem multiRowSetup_ready {d : Driver} {mr : MultiRowInsert} {w : World}
    (hmr : mr.prepared = none) (hw : w.calls = []) :
    Ready s ncols (multiRowSetup d s ncols mr w).1 (multiRowSetup d s ncols mr w).2 := by
  have hnone {mr' : MultiRowInsert} {w' : World} (hcalls : w'.calls = [])
      (hprepared : mr'.prepared = none) : Ready s ncols mr' w' := by
    refine ⟨fun front c hprefix => ?_, fun p hp => ?_⟩
    · rw [hcalls] at hprefix
      exact absurd (List.prefix_nil.mp hprefix) (by simp)
    · rw [hprepared] at hp
      cases hp
  have hprobe := (probeForm_calls d s (offeredCastTypes s) w).trans hw
  unfold multiRowSetup
  split
  · exact hnone hw hmr
  dsimp only
  split
  · exact hnone hprobe hmr
  split
  · exact hnone hprobe hmr
  · rename_i form _ hcasts
    refine @prepareFull_ready t s ncols hslot d form { mr with ready := true } _ ?_ hprobe
    intro hunion
    have hoffered : offeredCastTypes s ≠ none := fun hnone => hcasts ⟨hunion, hnone⟩
    unfold offeredCastTypes at hoffered
    cases hs : s.castTypes with
    | none =>
        rw [hs] at hoffered
        exact absurd (ite_self _) hoffered
    | some types => exact hcast types hs

include hslot hcast in
/-- The run lemma of an ingest. -/
theorem ingest_ready {mr : MultiRowInsert} {w : World} (h : Ingest s ncols mr w) :
    0 < ncols ∧ Ready s ncols mr w := by
  induction h with
  | setup henabled hw =>
      refine ⟨?_, multiRowSetup_ready hslot hcast rfl hw⟩
      unfold multiRowInit at henabled
      simp only [Bool.and_eq_true, decide_eq_true_eq] at henabled
      exact henabled.1.1.2
  | elsewhere _ hsame ih =>
      obtain ⟨hpos, hbudgeted, hheld⟩ := ih
      exact ⟨hpos, hsame ▸ hbudgeted, hsame ▸ hheld⟩
  | @batch mr w p d b base row0 nrows virgin total r _ hp hr ih =>
      obtain ⟨hpos, hbudgeted, hheld⟩ := ih
      obtain ⟨hslots, hsmall, hcasts, m, hm⟩ := hheld p hp
      obtain ⟨hadds, hkept⟩ := multiRowExecuteBatch_adds hcasts hsmall hpos d b base row0 nrows
        virgin total w hm hslots hr
      obtain ⟨hbudgeted', hsame⟩ := hbudgeted.adds hadds
      refine ⟨hpos, hbudgeted', fun p' hp' => ?_⟩
      have hle := hkept p' hp'
      rw [hsame]
      exact ⟨(Nat.mul_le_mul_right ncols hle).trans hslots, hsmall, hcasts, m, hle.trans hm⟩

end

/-- Every multi-row INSERT that an ingest prepares keeps to the budgets, every slot that it fills
or binds was allocated, and every parameter is bound by an ordinal that does not wrap; and a halving
loop ends with two row-groups or more that it prepared, or gives the form up. -/
theorem multiRow_budgets (t : Target) (s : OdbcStatement) (ncols : Nat)
    (hslot : s.slotBytes = (paramSlot t).size)
    (hcast : ∀ types, s.castTypes = some types → types.length = ncols) :
    (∀ mr w, Ingest s ncols mr w → Budgeted s ncols w.calls) ∧
    ∀ d form k w, (prepareHalving d form k w).1 = none ∨
      ∃ n, (prepareHalving d form k w).1 = some n ∧ 2 ≤ n.1 ∧
        .prepare form n.1 ∈ (prepareHalving d form k w).2.calls := by
  refine ⟨fun mr w h => (ingest_ready hslot hcast h).2.budgeted, fun d form k w => ?_⟩
  cases hn : (prepareHalving d form k w).1 with
  | none => exact .inl rfl
  | some n => exact .inr ⟨n, rfl, n.2.1, prepareHalving_asked d form k w n hn⟩

/-- A thousand rows asked for of a table of twenty thousand columns. -/
def wideIngest : OdbcStatement where
  ingestInto := some "t (a)"
  rowsPerInsert := 1000
  slotBytes := 320

/-- Every call succeeds. -/
def willing : Driver where
  serverOk := fun _ => true
  prepares := fun _ => true
  setsAttr := fun _ => true
  binds := fun _ => true
  executes := fun _ => true
  arrayAnswer := fun _ _ => ⟨.success, 0, fun _ => .success, 0, [], fun _ => true⟩
  rowCount := fun _ => 1
  allocates := fun _ => true
  switches := fun _ => true
  endsTran := fun _ => true
  rollsBack := fun _ => true

/-- An ingest into it holds a statement of two rows. -/
theorem wideIngest_prepared :
    (multiRowSetup willing wideIngest 20000 (multiRowInit wideIngest 20000)
      ⟨0, .empty true, [], { multirowProbed := true }, []⟩).2.calls =
        [.prepare .values 2, .allocate (2 * 20000)] := by
  have hrows : multiRowRows wideIngest 20000 .values { multirowProbed := true } = 2 := by decide
  have hfull (w : World) (hw : w.memory = { multirowProbed := true }) :
      (prepareFull willing wideIngest 20000 .values w).2.calls =
        w.calls ++ [.prepare .values 2, .allocate (2 * 20000)] := by
    have hk : multiRowRows wideIngest 20000 .values w.memory = 2 := by rw [hw, hrows]
    unfold prepareFull
    dsimp only
    rw [if_neg (by omega), prepareHalving, dif_pos (by omega)]
    simp only [multiRowPrepare, allocateSlots, willing, if_true, World.call, World.next,
      World.setMemory]
    rw [hk, List.append_assoc]
    rfl
  exact hfull _ rfl

theorem wideIngest_budgets :
    ∃ mr w, Ingest wideIngest 20000 mr w ∧
      w.calls = [.prepare .values 2, .allocate (2 * 20000)] ∧
      Budgeted wideIngest 20000 w.calls := by
  obtain ⟨hbudgets, -⟩ := multiRow_budgets .bits64 wideIngest 20000 (by decide)
    (fun types h => by cases h)
  have hingest := @Ingest.setup wideIngest 20000 willing
    ⟨0, .empty true, [], { multirowProbed := true }, []⟩ (by decide) rfl
  exact ⟨_, _, hingest, wideIngest_prepared, hbudgets _ _ hingest⟩

end AdbcBridge.Bind.MultiRowBudget
