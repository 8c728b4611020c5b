import AdbcBridge.Reader.Contract
import AdbcBridge.Reader.WideRepair

/-!
# Values from bytes

A driver answers with bytes: buffers and indicators behind a fetch, chunks behind `SQLGetData`.
What `AppendValue`, `GetDataLong` and `BulkAppendColumn` make of them are the values that the
reader appends.  Where the driver keeps its contract on the bytes they are the values of the
result, but for a wide value that is read again into the buffer its text is written to.
-/

namespace AdbcBridge.Reader

open AdbcBridge.Adbc
open AdbcBridge.Reader.Scratch (ChunkAnswer getDataLoop getDataLoop_exact odbcReadLen appendUtf16
  appendUtf16_apart appendUtf16_inPlace_iff textOf Undisturbed Conforming WholeUnits
  truncationState filled)

/-! ## The driver's answers -/

/-- The buffer of a bound column for one row, and its indicator. -/
structure BoundCell where
  ind : Int
  bytes : List UInt8

/-- What a fetch leaves in the memory that is bound to the statement. -/
structure BoundRowset where
  fetched : Nat
  status : Nat → RowStatus
  cell : Nat → Nat → BoundCell

/-- A driver by its answers.  `getData` has those of the `SQLGetData` calls for one value in
turn; behind the last of them there is no data. -/
structure OdbcDriver (δ : Type*) extends Handle δ where
  fetch : δ → FetchAnswer BoundRowset × δ
  fetchAbsolute : δ → Nat → Except AdbcError BoundRowset × δ
  getData : δ → Nat → List ChunkAnswer × δ

/-- The `k`-th answer. -/
def answerAt (answers : List ChunkAnswer) (k : Nat) : ChunkAnswer :=
  answers.getD k { ret := .noData, ind := 0, written := [] }

theorem answerAt_cons (a : ChunkAnswer) (rest : List ChunkAnswer) (k : Nat) :
    answerAt (a :: rest) (k + 1) = answerAt rest k := rfl

section Loop

variable {c : OdbcColumn} {sqllen32 : Bool} {answers : List ChunkAnswer}

/-- The loop of `GetDataLong` ends with the answers. -/
theorem getDataLoop_ends (noData : Option AdbcError) {fuel k : Nat} (hk : k ≤ answers.length)
    (hfuel : answers.length < k + fuel) (scratch : ArrowBuffer) :
    (getDataLoop .two c.cType sqllen32 noData (answerAt answers) fuel k scratch).isSome = true := by
  induction fuel generalizing k scratch with
  | zero => omega
  | succ fuel ih =>
      by_cases hlast : k = answers.length
      · have hnone : (answerAt answers k).ret = .noData := by
          rw [answerAt, List.getD_eq_default _ _ hlast.ge]
        unfold getDataLoop
        simp only [hnone]
        cases noData with
        | none => rfl
        | some e =>
            dsimp only
            split_ifs
            · rfl
            · rfl
      · unfold getDataLoop
        dsimp only
        split
        · split
          · split_ifs
            · rfl
            · rfl
          · rfl
        · rfl
        · split_ifs
          · rfl
          · rfl
        · split_ifs
          · rfl
          · exact ih (by omega) (by omega) _
          · rfl

/-- More calls than it takes change nothing. -/
theorem getDataLoop_mono (noData : Option AdbcError) (answers : Nat → ChunkAnswer)
    {fuel k : Nat} {scratch : ArrowBuffer} {result : Except AdbcError Bool × ArrowBuffer}
    (h : getDataLoop .two c.cType sqllen32 noData answers fuel k scratch = some result)
    (more : Nat) :
    getDataLoop .two c.cType sqllen32 noData answers (fuel + more) k scratch = some result := by
  induction fuel generalizing k scratch with
  | zero =>
      unfold getDataLoop at h
      cases h
  | succ fuel ih =>
      rw [Nat.succ_add]
      unfold getDataLoop at h ⊢
      dsimp only at h ⊢
      split at h
      · exact h
      · exact h
      · exact h
      · split_ifs at h ⊢
        · exact h
        · exact ih h
        · exact h

end Loop

/-- `GetDataLong` on the answers for a value: whether it is NULL, and the scratch buffer. -/
def collect (opts : OdbcReaderOptions) (c : OdbcColumn) (answers : List ChunkAnswer) :
    Except AdbcError Bool × ArrowBuffer :=
  (getDataLoop .two c.cType opts.sqllen32bit none (answerAt answers) (answers.length + 1) 0
    ArrowBuffer.init).get (getDataLoop_ends none (Nat.zero_le _) (by omega) _)

/-! ## Conversion -/

/-- How values become those of an array, by column: NULL, what the switch of `AppendValue` makes
of the bytes of a value, and what `BulkAppendColumn` makes of them unless it leaves the column to
`AppendValue`.  The bytes of a wide value are its UTF-8. -/
structure Conversion (v : Type*) where
  null : v
  append : Nat → List UInt8 → Except AdbcError v
  bulk : Nat → Option (List UInt8 → v)

/-- `len` bytes from `data` on, or the struct there of a type that has a fixed size. -/
def bytesAt (c : OdbcColumn) (data : List UInt8) (len : Nat) : List UInt8 :=
  data.take (if c.cType = .fixed then c.elemSize else len)

/-- `len` of a value in its buffer. -/
def boundLen (c : OdbcColumn) (ind : Int) : Nat :=
  if ind = noTotal ∨ ind < 0 then 0
  else if boundValueTruncated c ind then boundValueCap c
  else ind.toNat

/-- What is appended or converted of a value in its buffer. -/
def boundBytes (c : OdbcColumn) (cell : BoundCell) : List UInt8 :=
  match c.cType with
  | .wchar => (appendUtf16 .two false cell.bytes (boundLen c cell.ind / 2) ArrowBuffer.init).1
  | _ => bytesAt c cell.bytes (boundLen c cell.ind)

/-- What is appended or converted of a value that `GetDataLong` has read. -/
def readBytes (c : OdbcColumn) (bound : Bool) (read : ArrowBuffer) : List UInt8 :=
  match c.cType with
  | .wchar =>
      -- only an unbound column gets a buffer of its own for the text
      if bound then (appendUtf16 .two true [] (read.sizeBytes / 2) read).1
      else (appendUtf16 .two false read.data (read.sizeBytes / 2) ArrowBuffer.init).1
  | _ => bytesAt c read.data read.sizeBytes

section Reading

variable {δ v : Type*} (K : Conversion v)

/-- `AppendValue`, or `BulkAppendColumn`, on a value in its buffer. -/
def Conversion.bound (c : OdbcColumn) (i : Nat) (cell : BoundCell) (converter : Converter) :
    Except AdbcError v :=
  if cell.ind = nullData then .ok K.null
  else
    match converter, K.bulk i with
    | .bulkAppendColumn, some f => .ok (f (boundBytes c cell))
    | _, _ => K.append i (boundBytes c cell)

/-- `GetDataLong`, and `AppendValue` on what it has read. -/
def Conversion.read (opts : OdbcReaderOptions) (c : OdbcColumn) (i : Nat)
    (answers : List ChunkAnswer) : GetDataAnswer v :=
  match collect opts c answers with
  | (.error e, _) => .failed e
  | (.ok true, _) => .value fun _ => .ok K.null
  | (.ok false, read) =>
      if (answerAt answers 0).ret = .noData then
        .noData fun bound => K.append i (readBytes c bound read)
      else .value fun bound => K.append i (readBytes c bound read)

def Conversion.rowset (cols : List OdbcColumn) (rowset : BoundRowset) : Rowset v where
  fetched := rowset.fetched
  status := rowset.status
  cell row i :=
    { ind := (rowset.cell row i).ind
      held := K.bound (described cols i) i (rowset.cell row i) }

/-- A driver as the reader sees it: no call changes the type or the size of a column. -/
def OdbcDriver.reading (H : OdbcDriver δ) (opts : OdbcReaderOptions) (cols : List OdbcColumn) :
    Driver δ v where
  toHandle := H.toHandle
  fetch s :=
    match H.fetch s with
    | (.noData, s) => (.noData, s)
    | (.failed e, s) => (.failed e, s)
    | (.rows rowset, s) => (.rows (K.rowset cols rowset), s)
  fetchAbsolute s row :=
    match H.fetchAbsolute s row with
    | (.error e, s) => (.error e, s)
    | (.ok rowset, s) => (.ok (K.rowset cols rowset), s)
  getData s i :=
    let (answers, s) := H.getData s i
    (K.read opts (described cols i) i answers, s)

end Reading

/-! ## The contract on bytes -/

/-- The rows of a result as the driver has them: the bytes of a value in the C type of its
column, or NULL. -/
structure ResultBytes where
  count : Nat
  bytes : Nat → Nat → Option (List UInt8)

namespace ResultBytes

variable (B : ResultBytes) (cols : List OdbcColumn)

/-- A value is longer than the buffer of its column. -/
def Outgrows (row i : Nat) : Prop :=
  ∃ x, B.bytes row i = some x ∧ boundValueCap (described cols i) < x.length

/-- The rows as values. -/
def result {v : Type*} (value : Nat → Nat → v) : ResultSet v where
  count := B.count
  value := value
  outgrows := B.Outgrows cols

/-- No wide value that outgrows the buffer of its column is overtaken by its own text. -/
def Intact : Prop :=
  ∀ row < B.count, ∀ i < cols.length, ∀ x, B.bytes row i = some x →
    (described cols i).cType = .wchar → (described cols i).bound = true →
      boundValueCap (described cols i) < x.length → Undisturbed .two x

end ResultBytes

/-- The bytes of a value are those of its type. -/
structure OfType (c : OdbcColumn) (x : List UInt8) : Prop where
  fixed : c.cType = .fixed → x.length = c.elemSize
  wide : WholeUnits .two c.cType x

/-- What the buffer and the indicator of a bound column show of a value.  Of one that is longer
than the buffer the length may be left open. -/
inductive Shown (c : OdbcColumn) (cell : BoundCell) : Option (List UInt8) → Prop where
  | null (ind : cell.ind = nullData) : Shown c cell none
  | whole {x : List UInt8} (fits : x.length ≤ boundValueCap c) (ind : cell.ind = x.length)
      (bytes : cell.bytes.take x.length = x) : Shown c cell (some x)
  | cut {x : List UInt8} (long : boundValueCap c < x.length)
      (ind : cell.ind = noTotal ∨ cell.ind = x.length) : Shown c cell (some x)

/-- The buffers after a fetch of `k` rows from `base` on. -/
structure ShowsBytes (cols : List OdbcColumn) (B : ResultBytes) (faults : Prop) (V : CursorView)
    (rowset : BoundRowset) (base k : Nat) : Prop where
  count : V.counts = true → rowset.fetched = k
  status : ∀ row < k, rowset.status row ≠ .noRow ∧ (rowset.status row = .error → faults)
  shown : ∀ row < k, ∀ i < cols.length, V.bound i = true →
    Shown (described cols i) (rowset.cell row i) (B.bytes (base + row) i)
  declared : ∀ row < k, ∀ i < cols.length, V.bound i = true →
    (described cols i).clipped = false →
      boundValueTruncated (described cols i) (rowset.cell row i).ind = false

/-- What the answers of `SQLGetData` tell of a value.  One of no length may be no data. -/
inductive Told (c : OdbcColumn) (sqllen32 : Bool) (answers : List ChunkAnswer) :
    Option (List UInt8) → Prop where
  | null (ret : (answerAt answers 0).ret = .success ∨ (answerAt answers 0).ret = .successWithInfo)
      (ind : odbcReadLen sqllen32 (answerAt answers 0).ind = nullData) :
      Told c sqllen32 answers none
  | empty (ret : (answerAt answers 0).ret = .noData) (sized : c.cType ≠ .fixed) :
      Told c sqllen32 answers (some [])
  | value {x : List UInt8}
      (conforms : Conforming .two c.cType sqllen32 x (answerAt answers)) :
      Told c sqllen32 answers (some x)

/-- The answers come to a call that failed. -/
inductive Fails (sqllen32 : Bool) : List ChunkAnswer → Prop where
  | here {a : ChunkAnswer} {rest : List ChunkAnswer} {e : AdbcError} (ret : a.ret = .error e) :
      Fails sqllen32 (a :: rest)
  | later {a : ChunkAnswer} {rest : List ChunkAnswer} (ret : a.ret = .successWithInfo)
      (diag : a.diag = some truncationState) (ind : odbcReadLen sqllen32 a.ind ≠ nullData)
      (behind : Fails sqllen32 rest) : Fails sqllen32 (a :: rest)

/-- A driver that keeps the contract of a block cursor on the bytes of a result. -/
structure KeepsContract {δ : Type*} (H : OdbcDriver δ) (opts : OdbcReaderOptions)
    (cols : List OdbcColumn) (B : ResultBytes) (faults : Prop) (sees : δ → CursorView → Prop) :
    Prop extends HandleContract H.toHandle opts faults sees where
  typed : ∀ row < B.count, ∀ i < cols.length, ∀ x, B.bytes row i = some x →
    OfType (described cols i) x
  within : ∀ {s V}, sees s V → V.next ≤ B.count
  fetched : ∀ {s s' V rowset}, sees s V → H.fetch s = (.rows rowset, s') →
    ∃ k, 0 < k ∧ k ≤ V.size ∧ V.next + k ≤ B.count ∧
      ShowsBytes cols B faults V rowset V.next k ∧ sees s' (V.on V.next k)
  noData : ∀ {s s' V}, sees s V → 0 < V.size → H.fetch s = (.noData, s') →
    B.count ≤ V.next ∧ sees s' V
  notFetched : ∀ {s s' V e}, sees s V → H.fetch s = (.failed e, s') → faults
  scrolled : ∀ {s s' V n rowset}, sees s V → opts.refetchRepair = true → 0 < V.size →
    0 < n → n ≤ B.count → H.fetchAbsolute s n = (.ok rowset, s') →
    ∃ k, 0 < k ∧ k ≤ V.size ∧ n - 1 + k ≤ B.count ∧
      ShowsBytes cols B faults V rowset (n - 1) k ∧ sees s' (V.on (n - 1) k)
  notScrolled : ∀ {s s' V n e}, sees s V → opts.refetchRepair = true → 0 < n → n ≤ B.count →
    H.fetchAbsolute s n = (.error e, s') → faults
  read : ∀ {s s' V i answers}, sees s V → MayRead opts cols (B.Outgrows cols) V i →
    H.getData s i = (answers, s') →
    Fails opts.sqllen32bit answers ∧ faults ∨
      Told (described cols i) opts.sqllen32bit answers (B.bytes (V.base + V.row) i) ∧
        ((answerAt answers 0).ret = .noData → 1 < V.size → faults) ∧
        sees s' { V with column := i + 1 }

/-! ## What is read -/

section

variable {opts : OdbcReaderOptions} {c : OdbcColumn} {answers : List ChunkAnswer}

theorem collect_eq {fuel : Nat} {result : Except AdbcError Bool × ArrowBuffer}
    (h : getDataLoop .two c.cType opts.sqllen32bit none (answerAt answers) fuel 0
      ArrowBuffer.init = some result) : collect opts c answers = result := by
  have hends := @getDataLoop_ends c opts.sqllen32bit answers none (answers.length + 1) 0
    (Nat.zero_le _) (by omega) ArrowBuffer.init
  obtain ⟨found, hfound⟩ := Option.isSome_iff_exists.mp hends
  have hsame := (getDataLoop_mono none _ hfound fuel).symm.trans
    ((congrArg (fun n => getDataLoop .two c.cType opts.sqllen32bit none (answerAt answers) n 0
      ArrowBuffer.init) (Nat.add_comm _ _)).trans
        (getDataLoop_mono none _ h (answers.length + 1)))
  unfold collect
  rw [Option.get_of_eq_some _ hfound]
  exact Option.some.inj hsame

/-- A value that the driver gives is collected. -/
theorem collect_value {x : List UInt8} (htype : OfType c x)
    (hconforms : Conforming .two c.cType opts.sqllen32bit x (answerAt answers)) :
    ∃ read, collect opts c answers = (.ok false, read) ∧ read.content = x ∧
      (answerAt answers 0).ret ≠ .noData := by
  obtain ⟨read, hread, hcontent⟩ := getDataLoop_exact none htype.wide hconforms (x.length + 1) 0
    ArrowBuffer.init (.inl rfl) (by omega) (by rw [Nat.zero_mul]; rfl)
  refine ⟨read, collect_eq hread, hcontent, ?_⟩
  cases hconforms 0 (.inl rfl) with
  | last pad fits ind written inBuffer ret =>
      rcases ret with ret | ⟨ret, -⟩ <;> simp [ret]
  | truncated long ind written ret diag => simp [ret]

theorem collect_null
    (ret : (answerAt answers 0).ret = .success ∨ (answerAt answers 0).ret = .successWithInfo)
    (ind : odbcReadLen opts.sqllen32bit (answerAt answers 0).ind = nullData) :
    (collect opts c answers).1 = .ok true := by
  have hloop : getDataLoop .two c.cType opts.sqllen32bit none (answerAt answers) 1 0
      ArrowBuffer.init = some (.ok true, filled ArrowBuffer.init (answerAt answers 0).written) := by
    unfold getDataLoop
    rcases ret with ret | ret <;> simp only [ret, ind, if_true]
  rw [collect_eq hloop]

theorem collect_empty (ret : (answerAt answers 0).ret = .noData) :
    ∃ read, collect opts c answers = (.ok false, read) ∧ read.content = [] := by
  have hloop : getDataLoop .two c.cType opts.sqllen32bit none (answerAt answers) 1 0
      ArrowBuffer.init =
        some (.ok false, filled ArrowBuffer.init (answerAt answers 0).written) := by
    unfold getDataLoop
    simp only [ret]
  exact ⟨_, collect_eq hloop, rfl⟩

theorem getDataLoop_fails (h : Fails opts.sqllen32bit answers) (before : List ChunkAnswer)
    (scratch : ArrowBuffer) :
    ∃ e read, getDataLoop .two c.cType opts.sqllen32bit none (answerAt (before ++ answers))
      (answers.length + 1) before.length scratch = some (.error e, read) := by
  induction h generalizing before scratch with
  | @here a rest e ret =>
      have hfirst : answerAt (before ++ a :: rest) before.length = a := by
        simp [answerAt]
      unfold getDataLoop
      simp only [hfirst, ret]
      exact ⟨_, _, rfl⟩
  | @later a rest ret diag ind behind ih =>
      have hfirst : answerAt (before ++ a :: rest) before.length = a := by
        simp [answerAt]
      unfold getDataLoop
      simp only [hfirst, ret, diag, if_neg ind, if_true]
      have hrest := ih (before ++ [a])
      simp only [List.append_assoc, List.singleton_append, List.length_append,
        List.length_singleton] at hrest
      exact hrest _

theorem collect_fails (h : Fails opts.sqllen32bit answers) :
    ∃ e, (collect opts c answers).1 = .error e := by
  obtain ⟨e, read, hloop⟩ := @getDataLoop_fails opts c answers h [] ArrowBuffer.init
  have hcollect : collect opts c answers = (.error e, read) := collect_eq hloop
  exact ⟨e, congrArg Prod.fst hcollect⟩

/-! ## What is converted -/

/-- The bytes that the switch of `AppendValue` goes by. -/
def textBytes (c : OdbcColumn) (x : List UInt8) : List UInt8 :=
  if c.cType = .wchar then textOf .two x else x

theorem not_truncated {ind : Int} {n : Nat} (hind : ind = n) (hfits : n ≤ boundValueCap c) :
    boundValueTruncated c ind = false := by
  unfold boundValueTruncated noTotal
  rw [decide_eq_false_iff_not]
  omega

theorem boundLen_eq {ind : Int} {n : Nat} (hind : ind = n) (hfits : n ≤ boundValueCap c) :
    boundLen c ind = n := by
  unfold boundLen
  rw [not_truncated hind hfits, if_neg (by unfold noTotal; omega), if_neg Bool.false_ne_true]
  omega

/-- A value that fits is converted from its own bytes. -/
theorem boundBytes_whole {cell : BoundCell} {x : List UInt8} (htype : OfType c x)
    (hfits : x.length ≤ boundValueCap c) (hind : cell.ind = x.length)
    (hbytes : cell.bytes.take x.length = x) : boundBytes c cell = textBytes c x := by
  unfold boundBytes textBytes
  rw [boundLen_eq hind hfits]
  have hrest : c.cType ≠ .wchar → bytesAt c cell.bytes x.length =
      if c.cType = .wchar then textOf .two x else x := by
    intro hnarrow
    rw [if_neg hnarrow]
    unfold bytesAt
    split_ifs with hfixed
    · rw [← htype.fixed hfixed, hbytes]
    · exact hbytes
  split
  · rename_i hwide
    rw [if_pos hwide]
    exact appendUtf16_apart hbytes ArrowBuffer.init
  · rename_i hnarrow
    exact hrest hnarrow

/-- A value that was read is converted from its own bytes, unless it is overtaken. -/
theorem readBytes_exact {bound : Bool} {read : ArrowBuffer} {x : List UInt8}
    (htype : c.cType = .fixed → x.length = c.elemSize) (hcontent : read.content = x)
    (hintact : bound = true → c.cType = .wchar → Undisturbed .two x) :
    readBytes c bound read = textBytes c x := by
  have hlength := read.length_content
  rw [hcontent] at hlength
  unfold readBytes textBytes
  rw [← hlength]
  split
  · rename_i hwide
    rw [if_pos hwide]
    cases bound with
    | true =>
        rw [if_pos rfl, ← hcontent, read.length_content]
        exact (appendUtf16_inPlace_iff .two read).mpr fun _ => hcontent ▸ hintact rfl hwide
    | false =>
        rw [if_neg Bool.false_ne_true]
        refine appendUtf16_apart ?_ ArrowBuffer.init
        rw [hlength]
        exact hcontent
  · rename_i hnarrow
    rw [if_neg hnarrow]
    unfold bytesAt
    rw [hlength]
    split_ifs with hfixed
    · rw [← htype hfixed, hlength]
      exact hcontent
    · exact hcontent

end

/-! ## The reader's view of a driver that keeps the contract -/

/-- The value of a column, from its own bytes. -/
def Conversion.value {v : Type*} (K : Conversion v) (c : OdbcColumn) (i : Nat) :
    Option (List UInt8) → Except AdbcError v
  | none => .ok K.null
  | some x => K.append i (textBytes c x)

section

variable {δ v : Type*} {K : Conversion v} {H : OdbcDriver δ} {opts : OdbcReaderOptions}
  {cols : List OdbcColumn} {B : ResultBytes} {value : Nat → Nat → v} {faults : Prop}
  {sees : δ → CursorView → Prop}

/-- The values of the result are what the conversions make of their bytes, `BulkAppendColumn`
and `AppendValue` alike; a value that cannot be converted is a fault. -/
structure Converts (K : Conversion v) (cols : List OdbcColumn) (B : ResultBytes) (faults : Prop)
    (value : Nat → Nat → v) : Prop where
  append : ∀ row < B.count, ∀ i < cols.length,
    Reads faults (K.value (described cols i) i (B.bytes row i)) (value row i)
  bulk : ∀ row < B.count, ∀ i < cols.length, ∀ x f, B.bytes row i = some x →
    K.bulk i = some f → f (textBytes (described cols i) x) = value row i

theorem Converts.bound (h : Converts K cols B faults value) {row i : Nat} (hrow : row < B.count)
    (hi : i < cols.length) {cell : BoundCell}
    (htyped : ∀ x, B.bytes row i = some x → OfType (described cols i) x)
    (hshown : Shown (described cols i) cell (B.bytes row i))
    (hfits : boundValueTruncated (described cols i) cell.ind = false) (converter : Converter) :
    Reads faults (K.bound (described cols i) i cell converter) (value row i) := by
  have happend := h.append row hrow i hi
  have hbulk := h.bulk row hrow i hi
  unfold Conversion.bound
  generalize B.bytes row i = shown at htyped hshown happend hbulk
  cases hshown with
  | null ind =>
      rw [if_pos ind]
      exact happend
  | @whole x fits ind bytes =>
      have hvalue : ¬ cell.ind = nullData := by
        unfold nullData
        omega
      rw [if_neg hvalue, boundBytes_whole (htyped x rfl) fits ind bytes]
      split
      · rename_i f hf
        rw [hbulk x f rfl hf]
        exact reads_value _ _
      · exact happend
  | @cut x long ind =>
      have hsized : (described cols i).cType ≠ .fixed := by
        intro hfixed
        have hsize := (htyped x rfl).fixed hfixed
        unfold boundValueCap at long
        rw [hfixed] at long
        dsimp only at long
        omega
      have htrunc : boundValueTruncated (described cols i) cell.ind = true := by
        unfold boundValueTruncated
        unfold noTotal at ind ⊢
        unfold nullData
        rw [decide_eq_true_eq]
        exact ⟨hsized, by omega, by omega⟩
      rw [htrunc] at hfits
      cases hfits

theorem shows_reading (hconverts : Converts K cols B faults value)
    (htyped : ∀ row < B.count, ∀ i < cols.length, ∀ x, B.bytes row i = some x →
      OfType (described cols i) x)
    {V : CursorView} {rowset : BoundRowset} {base k : Nat} (hcount : base + k ≤ B.count)
    (h : ShowsBytes cols B faults V rowset base k) :
    Shows cols (B.result cols value) faults V (K.rowset cols rowset) base k where
  count := h.count
  status := h.status
  held := by
    intro row hrow i hi hbound hfits converter
    have hlt : base + row < B.count := by omega
    exact hconverts.bound hlt hi (htyped _ hlt i hi) (h.shown row hrow i hi hbound) hfits converter
  outgrown := by
    intro row hrow i hi hbound htrunc
    have hshown := h.shown row hrow i hi hbound
    change boundValueTruncated (described cols i) (rowset.cell row i).ind = true at htrunc
    change B.Outgrows cols (base + row) i
    unfold ResultBytes.Outgrows
    generalize B.bytes (base + row) i = shown at hshown ⊢
    cases hshown with
    | null ind =>
        rw [ind, boundValueTruncated, decide_eq_true_eq] at htrunc
        exact absurd rfl htrunc.2.1
    | @whole x fits ind bytes =>
        rw [not_truncated ind fits] at htrunc
        cases htrunc
    | @cut x long ind => exact ⟨x, rfl, long⟩
  declared := h.declared

/-- What reading a value comes to. -/
theorem read_reading (hcontract : KeepsContract H opts cols B faults sees)
    (hconverts : Converts K cols B faults value) (hintact : B.Intact cols) {s s' : δ}
    {V : CursorView} {i : Nat} {answers : List ChunkAnswer} (hs : sees s V)
    (hreadable : MayRead opts cols (B.Outgrows cols) V i)
    (hcall : H.getData s i = (answers, s')) :
    (∃ e, K.read opts (described cols i) i answers = .failed e ∧ faults) ∨
      sees s' { V with column := i + 1 } ∧
        ((∃ read, K.read opts (described cols i) i answers = .value read ∧
          Reads faults (read (V.bound i)) (value (V.base + V.row) i)) ∨
        ∃ empty, K.read opts (described cols i) i answers = .noData empty ∧
          Reads faults (empty (V.bound i)) (value (V.base + V.row) i) ∧
            (1 < V.size → faults)) := by
  have hrow : V.base + V.row < B.count := hreadable.fetched.trans_le (hcontract.within hs)
  have htyped := hcontract.typed _ hrow i hreadable.column
  have hvalue := hconverts.append _ hrow i hreadable.column
  have hoverlap : ∀ x, B.bytes (V.base + V.row) i = some x → V.bound i = true →
      (described cols i).cType = .wchar → Undisturbed .two x := by
    intro x hx hbound hwide
    obtain ⟨-, hdescribed, x', hx', hlong⟩ := hreadable.bound hbound
    rw [hx, Option.some.injEq] at hx'
    exact hintact _ hrow i hreadable.column x hx hwide hdescribed (hx' ▸ hlong)
  unfold Conversion.read
  rcases hcontract.read hs hreadable hcall with ⟨hfails, hfaults⟩ | ⟨htold, hnone, hs'⟩
  · obtain ⟨e, he⟩ := @collect_fails opts (described cols i) answers hfails
    left
    refine ⟨e, ?_, hfaults⟩
    split
    · rename_i heq
      rw [heq] at he
      rw [Except.error.inj he]
    · rename_i heq
      rw [heq] at he
      cases he
    · rename_i heq
      rw [heq] at he
      cases he
  · refine .inr ⟨hs', ?_⟩
    generalize B.bytes (V.base + V.row) i = told at htyped hvalue hoverlap htold
    cases htold with
    | null ret ind =>
        have hnull := @collect_null opts (described cols i) answers ret ind
        left
        split
        · rename_i heq
          rw [heq] at hnull
          cases hnull
        · exact ⟨_, rfl, hvalue⟩
        · rename_i heq
          rw [heq] at hnull
          cases hnull
    | empty ret sized =>
        obtain ⟨read, hcollect, hcontent⟩ := @collect_empty opts (described cols i) answers ret
        right
        rw [hcollect]
        dsimp only
        rw [if_pos ret]
        refine ⟨_, rfl, ?_, hnone ret⟩
        rw [readBytes_exact (fun hfixed => absurd hfixed sized) hcontent (hoverlap [] rfl)]
        exact hvalue
    | @value x conforms =>
        obtain ⟨read, hcollect, hcontent, hfirst⟩ := collect_value (htyped x rfl) conforms
        left
        rw [hcollect]
        dsimp only
        rw [if_neg hfirst]
        refine ⟨_, rfl, ?_⟩
        rw [readBytes_exact (htyped x rfl).fixed hcontent (hoverlap x rfl)]
        exact hvalue

/-- A driver that keeps the contract on the bytes keeps it on the values that the reader's
functions make of them. -/
theorem KeepsContract.follows (hcontract : KeepsContract H opts cols B faults sees)
    (hconverts : Converts K cols B faults value) (hintact : B.Intact cols) :
    FollowsContract (H.reading K opts cols) opts cols (B.result cols value) faults sees where
  toHandleContract := hcontract.toHandleContract
  fetched := by
    intro s s' V rowset hs hcall
    unfold OdbcDriver.reading at hcall
    dsimp only at hcall
    split at hcall
    · cases hcall
    · cases hcall
    · rename_i found s'' hfetch
      cases hcall
      obtain ⟨k, hpos, hsize, hcount, hshows, hs'⟩ := hcontract.fetched hs hfetch
      exact ⟨k, hpos, hsize, hcount, shows_reading hconverts hcontract.typed hcount hshows, hs'⟩
  noData := by
    intro s s' V hs hsize hcall
    unfold OdbcDriver.reading at hcall
    dsimp only at hcall
    split at hcall
    · rename_i s'' hfetch
      cases hcall
      exact hcontract.noData hs hsize hfetch
    · cases hcall
    · cases hcall
  notFetched := by
    intro s s' V e hs hcall
    unfold OdbcDriver.reading at hcall
    dsimp only at hcall
    split at hcall
    · cases hcall
    · rename_i e' s'' hfetch
      exact hcontract.notFetched hs hfetch
    · cases hcall
  scrolled := by
    intro s s' V n rowset hs hrefetch hsize hpos hle hcall
    unfold OdbcDriver.reading at hcall
    dsimp only at hcall
    split at hcall
    · cases hcall
    · rename_i found s'' hfetch
      cases hcall
      obtain ⟨k, hk, hfits, hcount, hshows, hs'⟩ :=
        hcontract.scrolled hs hrefetch hsize hpos hle hfetch
      exact ⟨k, hk, hfits, shows_reading hconverts hcontract.typed hcount hshows, hs'⟩
  notScrolled := by
    intro s s' V n e hs hrefetch hpos hle hcall
    unfold OdbcDriver.reading at hcall
    dsimp only at hcall
    split at hcall
    · rename_i e' s'' hfetch
      exact hcontract.notScrolled hs hrefetch hpos hle hfetch
    · cases hcall
  read := by
    intro s s' V i answer hs hreadable hcall
    obtain ⟨hanswer, hstate⟩ := Prod.mk.inj hcall
    rw [← hstate]
    rcases read_reading hcontract hconverts hintact hs hreadable rfl with
      ⟨e, hfailed, -⟩ | ⟨hs', ⟨read, hread, hvalue⟩ | ⟨empty, hempty, -⟩⟩
    · cases hfailed.symm.trans hanswer
    · cases hread.symm.trans hanswer
      exact ⟨hvalue, hs'⟩
    · cases hempty.symm.trans hanswer
  readEmpty := by
    intro s s' V i answer hs hreadable hcall
    obtain ⟨hanswer, hstate⟩ := Prod.mk.inj hcall
    rw [← hstate]
    rcases read_reading hcontract hconverts hintact hs hreadable rfl with
      ⟨e, hfailed, -⟩ | ⟨hs', ⟨read, hread, -⟩ | ⟨empty, hempty, hvalue, halone⟩⟩
    · cases hfailed.symm.trans hanswer
    · cases hread.symm.trans hanswer
    · cases hempty.symm.trans hanswer
      exact ⟨hvalue, halone, hs'⟩
  notRead := by
    intro s s' V i e hs hreadable hcall
    obtain ⟨hanswer, -⟩ := Prod.mk.inj hcall
    rcases read_reading hcontract hconverts hintact hs hreadable rfl with
      ⟨e', -, hfaults⟩ | ⟨-, ⟨read, hread, -⟩ | ⟨empty, hempty, -⟩⟩
    · exact hfaults
    · cases hread.symm.trans hanswer
    · cases hempty.symm.trans hanswer

end

end AdbcBridge.Reader
