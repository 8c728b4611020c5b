import AdbcBridge.Adbc.ArrowArray
import AdbcBridge.Reader.BindSizing
import AdbcBridge.Reader.WideRepair

/-!
# A rowset converted column by column

`AppendValue` appends one value of a bound column to the Arrow array, `BulkAppendColumn` all
values of a rowset at once, with buffers written as a whole and the validity in runs.  The
two differ in nothing but a date whose day number is too large for 32 bits: the one refuses
it, the other cuts it.
-/

namespace AdbcBridge.Reader.Bulk

open AdbcBridge.Adbc AdbcBridge.Lib AdbcBridge.Lib.Bits
open AdbcBridge.Reader.Sizing (Column Build BindOptions Described)
open AdbcBridge.Reader.Scratch (SqlWchar termBytes utf16ToUtf8 appendUtf16 utf16Utf8MaxBytes textOf)

/-! ## The rowset -/

/-- The storage type of a column's array, by `BuildSchema`. -/
def storageOf : FetchKind → ArrowStorage
  | .bool | .boolStr => .bool
  | .i8 => .int8
  | .i16 => .int16
  | .i32 => .int32
  | .i64 => .int64
  | .u8 => .uint8
  | .u16 => .uint16
  | .u32 => .uint32
  | .u64 => .uint64
  | .f32 => .float
  | .f64 => .double
  | .char | .wchar => .string
  | .binary => .binary
  | .date | .time | .timeMs => .int32
  | .time64 | .timestamp | .timestampTz | .timestampText => .int64
  | .decimal => .decimal128

/-- What a fetch has left of a column: the memory from its buffer and from its indicators
on. -/
structure Rowset where
  buffer : List UInt8
  indicators : List UInt8

/-- `OdbcIndicatorGet`. -/
def odbcIndicatorGet (base : List UInt8) (row : Nat) (sqllen32 : Bool) : Int :=
  Bytes.intValue (Bytes.slot (if sqllen32 then 4 else 8) base row)

/-- What `AppendValue` goes by besides the column and the rowset: the options, the contents
of the scratch buffer when a row's turn comes, what positioning on the row and `GetDataLong`
make of it, the parsers of the kinds that are fetched as text and are no text, and the ticks
that come of a timestamp where C leaves open what they are. -/
structure Env where
  wchar : SqlWchar
  sqllen32 : Bool
  indStride32 : Bool
  getdataRepair : Bool
  getdataBound : Bool
  rowsPerFetch : Nat
  scratch : Nat → ArrowBuffer
  reread : Nat → Except AdbcError (Option ArrowBuffer)
  parseText : Column → ArrowArray → List UInt8 → Except AdbcError ArrowArray
  overflowed : ArrowTimeUnit → TimestampStruct → Int64

/-- The ticks of a timestamp, as they were computed if they do not overflow. -/
def Env.ticks (e : Env) (unit : ArrowTimeUnit) (t : TimestampStruct)
    (computed : Option (Except AdbcError Int)) : Except AdbcError Int :=
  computed.getD (.ok (e.overflowed unit t).toInt)

/-- `(size_t)c->elem_size`, of a bound column. -/
def stride (c : Column) : Nat := c.elemSize.val.toNat

/-- The memory from a row of the column on. -/
def rowData (c : Column) (rs : Rowset) (row : Nat) : List UInt8 := rs.buffer.drop (stride c * row)

/-- `BoundValueCap`; a bound column has room for its terminator. -/
def boundValueCap (w : SqlWchar) (c : Column) : Nat := stride c - termBytes w c.cType

/-- `BoundValueTruncated`. -/
def boundValueTruncated (w : SqlWchar) (c : Column) (ind : Int) : Bool :=
  decide (c.cType ≠ .fixed ∧ ind ≠ nullData ∧
    (ind = noTotal ∨ ind < 0 ∨ (boundValueCap w c : Int) < ind))

/-! ## The structs of a value -/

/-- A field of a struct. -/
def field (data : List UInt8) (start size : Nat) : List UInt8 := (data.drop start).take size

/-- A `DATE_STRUCT` in memory. -/
def dateStruct (data : List UInt8) : DateStruct where
  year := Bytes.intValue (field data 0 2)
  month := Bytes.value (field data 2 2)
  day := Bytes.value (field data 4 2)

/-- The seconds of a `TIME_STRUCT` in memory. -/
def timeSeconds (data : List UInt8) : Nat :=
  Bytes.value (field data 0 2) * 3600 + Bytes.value (field data 2 2) * 60 +
    Bytes.value (field data 4 2)

/-- A `TIMESTAMP_STRUCT` in memory. -/
def timestampStruct (data : List UInt8) : TimestampStruct where
  year := Bytes.intValue (field data 0 2)
  month := Bytes.value (field data 2 2)
  day := Bytes.value (field data 4 2)
  hour := Bytes.value (field data 6 2)
  minute := Bytes.value (field data 8 2)
  second := Bytes.value (field data 10 2)
  fraction := Bytes.value (field data 12 4)

/-- `DaysFromCivil` of a `DATE_STRUCT`. -/
def dayNumber (d : DateStruct) : Int := daysFromCivil d.year d.month d.day

/-- A first character that stands for true. -/
def isTrueChar (ch : UInt8) : Bool :=
  ch == 't'.val.toUInt8 || ch == 'T'.val.toUInt8 || ch == '1'.val.toUInt8 ||
    ch == 'y'.val.toUInt8 || ch == 'Y'.val.toUInt8

/-! ## `AppendValue` -/

/-- Where a value is: in the bound buffer, or read again into the scratch buffer. -/
inductive Located where
  | inBuffer (data : List UInt8) (len : Nat)
  | inScratch (read : ArrowBuffer)

def Located.data : Located → List UInt8
  | .inBuffer data _ => data
  | .inScratch read => read.data

def Located.len : Located → Nat
  | .inBuffer _ len => len
  | .inScratch read => read.sizeBytes

/-- `CHECK_NA`; the rest of the message is about the source. -/
def checkNa : Except ArrowErrorCode ArrowArray → Except AdbcError ArrowArray
  | .ok arr => .ok arr
  | .error .einval => .error { status := .internal, message := "Invalid argument".toList }
  | .error .eoverflow =>
      .error { status := .internal, message := "Value too large for defined data type".toList }

/-- The string of a `FETCH_WCHAR` value, whose column is bound. -/
def wideText (w : SqlWchar) (scratch : ArrowBuffer) : Located → List UInt8
  | .inBuffer data len => (appendUtf16 w false data (len / w.bytes) scratch).1
  | .inScratch read => (appendUtf16 w true [] (read.sizeBytes / w.bytes) read).1

/-- The switch of `AppendValue`, for a value that is not NULL. -/
def appendData (e : Env) (c : Column) (row : Nat) (arr : ArrowArray) (v : Located) :
    Except AdbcError ArrowArray :=
  let data := v.data
  match c.kind with
  | .bool => checkNa (arr.appendInt (if byteAt data 0 ≠ 0 then 1 else 0))
  | .i8 => checkNa (arr.appendInt (Bytes.intValue (data.take 1)))
  | .i16 => checkNa (arr.appendInt (Bytes.intValue (data.take 2)))
  | .i32 => checkNa (arr.appendInt (Bytes.intValue (data.take 4)))
  | .i64 => checkNa (arr.appendInt (Bytes.intValue (data.take 8)))
  | .u8 => checkNa (arr.appendUInt (Bytes.value (data.take 1)))
  | .u16 => checkNa (arr.appendUInt (Bytes.value (data.take 2)))
  | .u32 => checkNa (arr.appendUInt (Bytes.value (data.take 4)))
  | .u64 => checkNa (arr.appendUInt (Bytes.value (data.take 8)))
  | .f32 => checkNa (arr.appendDouble (Binary32.widen (Bytes.value (data.take 4))))
  | .f64 => checkNa (arr.appendDouble (Bytes.value (data.take 8)))
  | .char => checkNa (arr.appendString (data.take v.len))
  | .wchar => checkNa (arr.appendString (wideText e.wchar (e.scratch row) v))
  | .binary => checkNa (arr.appendBytes (data.take v.len))
  | .date => checkNa (arr.appendInt (dayNumber (dateStruct data)))
  | .time => checkNa (arr.appendInt (timeSeconds data))
  | .timestamp =>
      let t := timestampStruct data
      match e.ticks c.unit t (appendTimestamp c.unit t) with
      | .ok ticks => checkNa (arr.appendInt ticks)
      | .error err => .error err
  | .boolStr =>
      let ch := if 0 < v.len then byteAt data 0 else '0'.val.toUInt8
      checkNa (arr.appendInt (if isTrueChar ch then 1 else 0))
  | .timeMs | .time64 | .timestampTz | .timestampText | .decimal =>
      e.parseText c arr (data.take v.len)

/-- `AppendValue` for a bound column. -/
def appendValue (e : Env) (c : Column) (rs : Rowset) (row : Nat) (arr : ArrowArray) :
    Except AdbcError ArrowArray :=
  let ind := odbcIndicatorGet rs.indicators row (e.sqllen32 || e.indStride32)
  let inBuffer (len : Nat) : Except AdbcError ArrowArray :=
    if ind = nullData then .ok arr.appendNull
    else appendData e c row arr (.inBuffer (rowData c rs row) len)
  if boundValueTruncated e.wchar c ind then
    if e.getdataRepair || (decide (e.rowsPerFetch ≤ 1) && e.getdataBound) then
      match e.reread row with
      | .error err => .error err
      | .ok none => .ok arr.appendNull
      | .ok (some read) => appendData e c row arr (.inScratch read)
    else inBuffer (if ind = noTotal ∨ ind < 0 then 0 else boundValueCap e.wchar c)
  else inBuffer (if ind = noTotal ∨ ind < 0 then 0 else ind.toNat)

/-- `AppendValue` called row by row. -/
def appendRows (e : Env) (c : Column) (rs : Rowset) (n : Nat) (arr : ArrowArray) :
    Except AdbcError ArrowArray :=
  (List.range n).foldlM (fun arr row => appendValue e c rs row arr) arr

/-! ## `BulkAppendColumn` -/

/-- `MemcpyWidth`. -/
def memcpyWidth : FetchKind → Nat
  | .i8 | .u8 => 1
  | .i16 | .u16 => 2
  | .i32 | .u32 | .f32 => 4
  | .i64 | .u64 | .f64 => 8
  | _ => 0

/-- The kinds that `BulkAppendColumn` converts. -/
def hasBulk : FetchKind → Bool
  | .timeMs | .time64 | .timestampTz | .timestampText | .decimal => false
  | _ => true

/-- `BoundValueLen`. -/
def boundValueLen (w : SqlWchar) (c : Column) (ind : Int) : Nat :=
  if ind = noTotal ∨ ind < 0 then 0 else min ind.toNat (boundValueCap w c)

/-- The runs of `BulkValidity`. -/
def appendRuns (m : ArrowBitmap) (valid : List Bool) : ArrowBitmap :=
  match valid with
  | [] => m
  | v :: rest =>
      let run := (rest.takeWhile (· == v)).length + 1
      appendRuns (m.appendUnsafe v run) (rest.drop (run - 1))
termination_by valid.length
decreasing_by
  rw [List.length_drop, List.length_cons]
  omega

/-- `BulkValidity`. -/
def bulkValidity (arr : ArrowArray) (valid : Nat → Bool) (n nulls : Nat) : ArrowArray :=
  if nulls = 0 ∧ arr.bitmap.data = [] then arr
  else
    let bitmap :=
      if arr.bitmap.data = [] then arr.bitmap.materialise arr.length n else arr.bitmap.reserve n
    { arr with
      bitmap := appendRuns bitmap ((List.range n).map valid)
      nullCount := arr.nullCount + nulls }

/-- The bits that the loop over the rows of a boolean column sets. -/
def setBits (b : ArrowBuffer) (len0 : Nat) (bit : Nat → Bool) : Nat → ArrowBuffer
  | 0 => b
  | row + 1 => (setBits b len0 bit row).bitSetTo (len0 + row) (bit row)

/-- The loop over the texts of a rowset: the offset it has come to, and what it has put into
the offsets and into the data. -/
def textLoop (text : Nat → List UInt8) (start : Int) : Nat → Int × List UInt8 × List UInt8
  | 0 => (start, [], [])
  | row + 1 =>
      let done := textLoop text start row
      let stop := asInt (done.1 + (text row).length)
      (stop, done.2.1 ++ Bytes.intDigits 4 stop, done.2.2 ++ text row)

/-- What the loop writes for a row. -/
def bulkText (e : Env) (c : Column) (rs : Rowset) (ind : Nat → Int) (row : Nat) : List UInt8 :=
  let len := if ind row = nullData then 0 else boundValueLen e.wchar c (ind row)
  if 0 < len then
    match c.kind with
    | .wchar =>
        let written := utf16ToUtf8 e.wchar false (rowData c rs row) (len / e.wchar.bytes) 0 0 []
        written.1.take written.2
    | _ => (rowData c rs row).take len
  else []

/-- The source bytes of the rows that are not NULL. -/
def srcBytes (e : Env) (c : Column) (ind : Nat → Int) : Nat → Nat
  | 0 => 0
  | row + 1 =>
      srcBytes e c ind row +
        if ind row = nullData then 0 else boundValueLen e.wchar c (ind row)

/-- The conversion of `BulkAppendColumn`; `none` leaves the column to `AppendValue`. -/
def bulkData (e : Env) (c : Column) (rs : Rowset) (ind : Nat → Int) (n : Nat)
    (arr : ArrowArray) : Option ArrowArray :=
  let width := memcpyWidth c.kind
  -- one slot for each row, zero where the row is NULL
  let slots (size : Nat) (value : List UInt8 → List UInt8) : Option ArrowArray :=
    some { arr with
      buffer1 := arr.buffer1.append <| Bytes.blocks n fun row =>
        if ind row = nullData then List.replicate size 0 else value (rowData c rs row) }
  let bits (value : Nat → Bool) : Option ArrowArray :=
    some { arr with
      buffer1 := setBits (ArrowArray.fillTo arr.buffer1 (arrowBytesForBits (arr.length + n)))
        arr.length (fun row => decide (ind row ≠ nullData) && value row) n }
  if 0 < width then
    if stride c ≠ width then none
    else some { arr with buffer1 := arr.buffer1.append (rs.buffer.take (width * n)) }
  else
    match c.kind with
    | .date => slots 4 fun data => Bytes.intDigits 4 (asInt (dayNumber (dateStruct data)))
    | .time => slots 4 fun data => Bytes.intDigits 4 (asInt (timeSeconds data))
    | .timestamp => slots 8 fun data =>
        let t := timestampStruct data
        match e.ticks c.unit t (bulkTimestamp c.unit t) with
        | .ok ticks => Bytes.intDigits 8 ticks
        | .error _ => List.replicate 8 0
    | .bool => bits fun row => decide (byteAt (rowData c rs row) 0 ≠ 0)
    | .boolStr => bits fun row =>
        decide (0 < boundValueLen e.wchar c (ind row)) && isTrueChar (byteAt (rowData c rs row) 0)
    | _ =>
        let src := srcBytes e c ind n
        let maxBytes :=
          if c.kind = .wchar then utf16Utf8MaxBytes e.wchar (src / e.wchar.bytes) else src
        let start := arr.offsetAt arr.length
        if 2147483647 < start + maxBytes then none
        else
          let done := textLoop (bulkText e c rs ind) start n
          some { arr with
            buffer1 := arr.buffer1.append done.2.1
            buffer2 := arr.buffer2.append done.2.2 }

/-- How `BulkAppendColumn` ends. -/
inductive BulkStatus where
  | ok
  | notImplemented
deriving DecidableEq, Repr

/-- `BulkAppendColumn`. -/
def bulkAppendColumn (e : Env) (c : Column) (rs : Rowset) (n : Nat) (arr : ArrowArray) :
    BulkStatus × ArrowArray :=
  if e.sqllen32 || e.indStride32 then (.notImplemented, arr)
  else
    let ind (row : Nat) : Int := odbcIndicatorGet rs.indicators row false
    if !hasBulk c.kind then (.notImplemented, arr)
    else
      let nulls := (List.range n).countP fun row => decide (ind row = nullData)
      if decide (c.cType ≠ .fixed) &&
          (List.range n).any fun row => boundValueTruncated e.wchar c (ind row) then
        (.notImplemented, arr)
      else
        match bulkData e c rs ind n arr with
        | none => (.notImplemented, arr)
        | some arr =>
            let arr := bulkValidity arr (fun row => decide (ind row ≠ nullData)) n nulls
            (.ok, { arr with length := arr.length + n })

/-! ## The validity -/

/-- The runs are the bits one by one. -/
theorem appendRuns_spec (valid : List Bool) {m : ArrowBitmap}
    (h : m.sizeBits + valid.length ≤ 8 * m.data.length) :
    (appendRuns m valid).sizeBits = m.sizeBits + valid.length ∧
      (appendRuns m valid).data.length = m.data.length ∧
      (∀ i < m.sizeBits, bitAt (appendRuns m valid).data i = bitAt m.data i) ∧
      ∀ k v, valid[k]? = some v → bitAt (appendRuns m valid).data (m.sizeBits + k) = v := by
  induction m, valid using appendRuns.induct with
  | case1 m =>
      rw [appendRuns]
      refine ⟨rfl, rfl, fun _ _ => rfl, ?_⟩
      intro k v hk
      rw [List.getElem?_nil] at hk
      cases hk
  | case2 m v rest run ih =>
      have hrun : run = (rest.takeWhile (· == v)).length + 1 := rfl
      have hle : (rest.takeWhile (· == v)).length ≤ rest.length :=
        (List.takeWhile_sublist _).length_le
      have hsame : ∀ k < run, (v :: rest)[k]? = some v := by
        intro k hk
        cases k with
        | zero => rfl
        | succ k =>
            have hlt : k < (rest.takeWhile (· == v)).length := by omega
            have hall := List.mem_takeWhile_imp (List.getElem_mem hlt)
            rw [List.getElem?_cons_succ, List.getElem?_eq_getElem (by omega),
              ← (List.takeWhile_prefix _).getElem hlt, beq_iff_eq.mp hall]
      rw [List.length_cons] at h
      obtain ⟨hlength, hbits⟩ := @ArrowBitmap.appendUnsafe_spec m run (by omega) v
      have hsize : (m.appendUnsafe v run).sizeBits = m.sizeBits + run := rfl
      have hdrop : (rest.drop (run - 1)).length = rest.length - (run - 1) := List.length_drop
      obtain ⟨ihsize, ihlength, ihold, ihnew⟩ := ih (by
        rw [hsize, hlength, hdrop]
        omega)
      rw [hsize, hdrop] at ihsize
      rw [hsize] at ihold ihnew
      rw [appendRuns]
      refine ⟨?_, by rw [ihlength, hlength], ?_, ?_⟩
      · rw [ihsize, List.length_cons]
        omega
      · intro i hi
        rw [ihold i (by omega), hbits, if_neg (by omega)]
      · intro k x hk
        by_cases hin : k < run
        · rw [hsame k hin, Option.some.injEq] at hk
          rw [ihold _ (by omega), hbits, if_pos (by omega), hk]
        · have hplace : m.sizeBits + k = m.sizeBits + run + (k - run) := by omega
          rw [hplace]
          apply ihnew
          rw [List.getElem?_drop, ← hk]
          have hindex : k = run - 1 + (k - run) + 1 := by omega
          conv_rhs => rw [hindex]
          rw [List.getElem?_cons_succ]

/-- The validity of a rowset comes to that of its rows. -/
theorem bulkValidity_extended {arr : ArrowArray} {n nulls : Nat} {valid : Nat → Bool}
    (h : arr.bitmap.Built arr.length) (hnulls : nulls = ArrowArray.countNulls n valid) :
    arr.bitmap.Extended (bulkValidity arr valid n nulls).bitmap arr.length n valid ∧
      (bulkValidity arr valid n nulls).nullCount = arr.nullCount + nulls := by
  have hflags : ∀ k < n, ((List.range n).map valid)[k]? = some (valid k) := by
    intro k hk
    rw [List.getElem?_map, List.getElem?_range hk]
    rfl
  have hcount : ((List.range n).map valid).length = n := by
    rw [List.length_map, List.length_range]
  unfold bulkValidity
  by_cases hlazy : nulls = 0 ∧ arr.bitmap.data = []
  · rw [if_pos hlazy]
    have hsize : arr.bitmap.sizeBits = 0 := by
      rcases h with ⟨_, hsize⟩ | ⟨hne, _⟩
      · exact hsize
      · exact absurd hlazy.2 hne
    have hall : ∀ k < n, valid k = true := by
      intro k hk
      have hzero : ArrowArray.countNulls n valid = 0 := by rw [← hnulls, hlazy.1]
      unfold ArrowArray.countNulls at hzero
      have hnone := List.countP_eq_zero.mp hzero k (List.mem_range.mpr hk)
      simpa using hnone
    exact ⟨ArrowBitmap.extended_nil hlazy.2 hsize hall, by rw [hlazy.1]; rfl⟩
  · rw [if_neg hlazy]
    refine ⟨?_, rfl⟩
    dsimp only
    by_cases hdata : arr.bitmap.data = []
    · -- the first null: a bitmap is made, with a bit for every row there is
      rw [if_pos hdata]
      have hsize : arr.bitmap.sizeBits = 0 := by
        rcases h with ⟨_, hsize⟩ | ⟨hne, _⟩
        · exact hsize
        · exact absurd hdata hne
      have hn : 0 < n := by
        apply Nat.pos_of_ne_zero
        intro hnone
        apply hlazy
        rw [hnulls, hnone]
        exact ⟨rfl, hdata⟩
      obtain ⟨hrows, hroom, hones⟩ := ArrowBitmap.materialise_spec hsize arr.length n
      obtain ⟨hfinal, hlength, hold, hnew⟩ := appendRuns_spec ((List.range n).map valid)
        (m := arr.bitmap.materialise arr.length n) (by rw [hrows, hcount]; exact hroom)
      rw [hrows] at hold hnew
      apply ArrowBitmap.extended_of_bits
      · apply ArrowBitmap.data_ne_nil (n := arr.length + n) (by omega)
        rw [hlength]
        exact hroom
      · rw [hfinal, hrows, hcount]
      · rw [hlength]
        exact hroom
      · intro i hi
        rw [hold i hi, hones i hi, ArrowBitmap.isValid_of_nil hdata]
      · intro k hk
        exact hnew k _ (hflags k hk)
    · rw [if_neg hdata]
      obtain ⟨hsize, hrows⟩ : arr.bitmap.sizeBits = arr.length ∧
          arr.length ≤ 8 * arr.bitmap.data.length := by
        rcases h with ⟨hnil, _⟩ | ⟨_, hsize, hrows⟩
        · exact absurd hnil hdata
        · exact ⟨hsize, hrows⟩
      have hreserved := arr.bitmap.reserve_sizeBits n
      have hroom := arr.bitmap.reserve_room n
      rw [hsize] at hreserved hroom
      obtain ⟨hfinal, hlength, hold, hnew⟩ := appendRuns_spec ((List.range n).map valid)
        (m := arr.bitmap.reserve n) (by rw [hreserved, hcount]; exact hroom)
      rw [hreserved] at hold hnew
      apply ArrowBitmap.extended_of_bits
      · intro hnil
        rw [hnil, List.length_nil, eq_comm, List.length_eq_zero_iff] at hlength
        exact ArrowBitmap.reserve_ne_nil hdata n hlength
      · rw [hfinal, hreserved, hcount]
      · rw [hlength]
        exact hroom
      · intro i hi
        rw [hold i hi, ArrowBitmap.reserve_bits _ _ (by omega), ArrowBitmap.isValid_of_data hdata]
      · intro k hk
        exact hnew k _ (hflags k hk)

/-! ## The loops of the bulk path -/

/-- The loop sets the bits of the rows. -/
theorem setBits_spec (b : ArrowBuffer) {len0 n : Nat} (hroom : len0 + n ≤ 8 * b.sizeBytes)
    (bit : Nat → Bool) :
    (setBits b len0 bit n).sizeBytes = b.sizeBytes ∧
      (∀ i < len0, bitAt (setBits b len0 bit n).data i = bitAt b.data i) ∧
      ∀ k < n, bitAt (setBits b len0 bit n).data (len0 + k) = bit k := by
  induction n with
  | zero => exact ⟨rfl, fun _ _ => rfl, fun k hk => absurd hk (Nat.not_lt_zero k)⟩
  | succ n ih =>
      obtain ⟨hsize, hold, hnew⟩ := ih (by omega)
      have hbits := (setBits b len0 bit n).bitSetTo_content (i := len0 + n)
        (by rw [hsize]; omega) (bit n)
      refine ⟨hsize, ?_, ?_⟩
      · intro i hi
        rw [setBits, hbits, if_neg (by omega), hold i hi]
      · intro k hk
        rw [setBits, hbits]
        by_cases hlast : k = n
        · rw [hlast, if_pos rfl]
        · rw [if_neg (by omega), hnew k (by omega)]

/-- The loop writes the texts and the offsets of their ends. -/
theorem textLoop_spec (text : Nat → List UInt8) {start : Int} (h0 : 0 ≤ start) {n : Nat}
    (hfits : start + (Bytes.blocks n text).length ≤ 2147483647) :
    textLoop text start n =
      (start + (Bytes.blocks n text).length, ArrowArray.endsBlock start n text,
        Bytes.blocks n text) := by
  induction n with
  | zero =>
      show (start, [], []) = (start + ((0 : Nat) : Int), [], [])
      rw [Int.natCast_zero, Int.add_zero]
  | succ n ih =>
      have hsum : ((Bytes.blocks (n + 1) text).length : Int) =
          (Bytes.blocks n text).length + (text n).length := by
        rw [Bytes.blocks_succ, List.length_append]
        push_cast
        rfl
      have hstop : asInt (start + (Bytes.blocks n text).length + (text n).length) =
          start + (Bytes.blocks (n + 1) text).length := by
        rw [hsum, ← Int.add_assoc]
        apply signedCast_eq (by omega)
        unfold InSigned
        norm_num
        omega
      have hends : ArrowArray.endsBlock start (n + 1) text =
          ArrowArray.endsBlock start n text ++
            Bytes.intDigits 4 (start + (Bytes.blocks (n + 1) text).length) := by
        unfold ArrowArray.endsBlock
        rw [Bytes.blocks_succ]
      rw [textLoop, ih (by omega), hends]
      dsimp only
      rw [hstop, ← Bytes.blocks_succ]

/-! ## What a row denotes -/

/-- The columns whose buffer has text or bytes. -/
def hasText : FetchKind → Bool
  | .char | .wchar | .binary | .boolStr | .timeMs | .time64 | .timestampTz | .timestampText
  | .decimal => true
  | _ => false

/-- A column as `DescribeColumns` leaves it, where its width came without a wrap. -/
structure Planned (w : SqlWchar) (c : Column) : Prop where
  typed : c.cType = .fixed ↔ hasText c.kind = false
  terminator : termBytes w c.cType ≤ stride c

/-- The indicator of a row, with `SQLLEN` of 64 bits. -/
def indicator (rs : Rowset) (row : Nat) : Int := odbcIndicatorGet rs.indicators row false

def isValid (rs : Rowset) (row : Nat) : Bool := decide (indicator rs row ≠ nullData)

/-- The value of a row that is not NULL. -/
def rowValue (e : Env) (c : Column) (rs : Rowset) (row : Nat) : ArrowArray.Value :=
  let data := rowData c rs row
  match c.kind with
  | .bool => .bit (decide (byteAt data 0 ≠ 0))
  | .boolStr => .bit (decide (0 < boundValueLen e.wchar c (indicator rs row)) &&
      isTrueChar (byteAt data 0))
  | .char | .wchar | .binary => .bytes (bulkText e c rs (indicator rs) row)
  | .date => .bytes (Bytes.intDigits 4 (dayNumber (dateStruct data)))
  | .time => .bytes (Bytes.intDigits 4 (timeSeconds data))
  | .timestamp =>
      let t := timestampStruct data
      match e.ticks c.unit t (appendTimestamp c.unit t) with
      | .ok ticks => .bytes (Bytes.intDigits 8 ticks)
      | .error _ => .bytes []
  | k => ArrowArray.fixedValue (storageOf k) (data.take (memcpyWidth k))

theorem elementBytes_width {k : FetchKind} (h : 0 < memcpyWidth k) :
    (storageOf k).elementBytes = memcpyWidth k ∧ storageOf k ≠ .bool ∧
      (storageOf k).hasOffsets = false := by
  cases k <;> first | exact ⟨rfl, by decide, rfl⟩ | exact absurd h (by decide)

theorem planned_text {w : SqlWchar} {c : Column} (h : Planned w c) (htext : hasText c.kind = true) :
    c.cType ≠ .fixed := by
  intro hfixed
  rw [h.typed.mp hfixed] at htext
  cases htext

/-- A value that is not truncated is as long as its indicator says. -/
theorem boundValueLen_eq {w : SqlWchar} {c : Column} {ind : Int} (htype : c.cType ≠ .fixed)
    (hvalid : ind ≠ nullData) (h : boundValueTruncated w c ind = false) :
    0 ≤ ind ∧ boundValueLen w c ind = ind.toNat ∧ ind.toNat ≤ boundValueCap w c := by
  have hfits : ¬ (c.cType ≠ .fixed ∧ ind ≠ nullData ∧
      (ind = noTotal ∨ ind < 0 ∨ (boundValueCap w c : Int) < ind)) := of_decide_eq_false h
  have hnone : ¬ (ind = noTotal ∨ ind < 0 ∨ (boundValueCap w c : Int) < ind) :=
    fun hor => hfits ⟨htype, hvalid, hor⟩
  unfold boundValueLen
  rw [if_neg (by omega)]
  omega

/-! ## Timestamps of both paths -/

theorem value_field_lt (data : List UInt8) (start size : Nat) :
    Bytes.value (field data start size) < 256 ^ size := by
  calc
    Bytes.value (field data start size) < 256 ^ (field data start size).length := Bytes.value_lt _
    _ ≤ 256 ^ size := Nat.pow_le_pow_right (by omega) (List.length_take_le _ _)

theorem intValue_field (data : List UInt8) (start : Nat) :
    -32768 ≤ Bytes.intValue (field data start 2) ∧ Bytes.intValue (field data start 2) ≤ 32767 := by
  have hle : (field data start 2).length ≤ 2 := List.length_take_le _ _
  have hpos : 0 < 256 ^ (field data start 2).length := Nat.pow_pos (by omega)
  have hpow : 256 ^ (field data start 2).length ≤ 256 ^ 2 := Nat.pow_le_pow_right (by omega) hle
  have hlow := Int.le_bmod (x := Bytes.value (field data start 2)) hpos
  have hhigh := Int.bmod_lt (x := Bytes.value (field data start 2)) hpos
  unfold Bytes.intValue
  omega

/-- The number that `DaysFromCivil` gives for the fields a struct can have. -/
theorem daysFromCivil_bounds {y : Int} (m d : Nat) (hlow : -32768 ≤ y) (hhigh : y ≤ 32767) :
    -13000000 ≤ daysFromCivil y m d ∧ daysFromCivil y m d ≤ 4310000000 := by
  obtain ⟨y', hy'⟩ : ∃ y', y' = if m ≤ 2 then y - 1 else y := ⟨_, rfl⟩
  have hrange : -32769 ≤ y' ∧ y' ≤ 32767 := by
    split at hy' <;> omega
  unfold daysFromCivil
  dsimp only
  rw [← hy', readEra_eq]
  generalize hdoe : asUnsigned _ = doe
  have hlt : doe < 2 ^ 32 := by
    rw [← hdoe]
    unfold asUnsigned
    omega
  omega

/-- With a legal fraction both paths compute the same ticks, and they are a 64-bit value. -/
theorem timestamp_paths (e : Env) (unit : ArrowTimeUnit) (data : List UInt8)
    (h : (timestampStruct data).fraction < 1000000000) :
    ∃ ticks,
      e.ticks unit (timestampStruct data) (appendTimestamp unit (timestampStruct data)) =
        .ok ticks ∧
      e.ticks unit (timestampStruct data) (bulkTimestamp unit (timestampStruct data)) =
        .ok ticks ∧
      InSigned 64 ticks := by
  have hyear := intValue_field data 0
  have hdays := daysFromCivil_bounds (Bytes.value (field data 2 2)) (Bytes.value (field data 4 2))
    hyear.1 hyear.2
  have hhour := value_field_lt data 6 2
  have hminute := value_field_lt data 8 2
  have hsecond := value_field_lt data 10 2
  have hsecs : InSigned 64 (timestampSecs (timestampStruct data)) := by
    unfold InSigned timestampSecs timestampStruct
    norm_num
    omega
  generalize timestampStruct data = t at h hsecs
  rw [appendTimestamp_eq unit hsecs h, bulkTimestamp_eq]
  cases hcomputed : computedTicks unit t with
  | none =>
      exact ⟨(e.overflowed unit t).toInt, rfl, rfl, Int64.le_toInt _, Int64.toInt_lt _⟩
  | some ticks => exact ⟨ticks, rfl, rfl, computedTicks_inSigned hcomputed⟩

/-! ## The bulk path -/

section Bulk

variable {e : Env} {c : Column} {rs : Rowset} {n : Nat} {arr mid b : ArrowArray}

/-- The conversion only writes buffers. -/
theorem bulkData_kept {ind : Nat → Int} (h : bulkData e c rs ind n arr = some mid) :
    mid.storageType = arr.storageType ∧ mid.length = arr.length ∧
      mid.nullCount = arr.nullCount ∧ mid.bitmap = arr.bitmap := by
  unfold bulkData at h
  dsimp only at h
  split at h
  · rw [Option.ite_none_left_eq_some] at h
    cases h.2
    exact ⟨rfl, rfl, rfl, rfl⟩
  · split at h
    on_goal 6 =>
      rw [Option.ite_none_left_eq_some] at h
      replace h := h.2
    all_goals
      cases h
      exact ⟨rfl, rfl, rfl, rfl⟩

/-- The column was not left to the per-value path. -/
structure Converted (e : Env) (c : Column) (rs : Rowset) (n : Nat) (arr b : ArrowArray) : Prop where
  wideLen : e.sqllen32 = false ∧ e.indStride32 = false
  kind : hasBulk c.kind = true
  untruncated : ∀ row < n, boundValueTruncated e.wchar c (indicator rs row) = false
  data : ∃ mid, bulkData e c rs (indicator rs) n arr = some mid ∧
    b.buffer1 = mid.buffer1 ∧ b.buffer2 = mid.buffer2
  grows : arr.Grows b n (isValid rs)

theorem countNulls_isValid (rs : Rowset) (n : Nat) :
    ((List.range n).countP fun row => decide (indicator rs row = nullData)) =
      ArrowArray.countNulls n (isValid rs) := by
  unfold ArrowArray.countNulls
  apply List.countP_congr
  intro row _
  unfold isValid
  by_cases hnull : indicator rs row = nullData
  · simp [hnull]
  · simp [hnull]

theorem boundValueTruncated_fixed {w : SqlWchar} {c : Column} (h : c.cType = .fixed) (ind : Int) :
    boundValueTruncated w c ind = false :=
  decide_eq_false fun hor => hor.1 h

/-- Either the column is left alone, or it is converted. -/
theorem bulkAppendColumn_cases (hbitmap : arr.bitmap.Built arr.length) :
    bulkAppendColumn e c rs n arr = (.notImplemented, arr) ∨
      ∃ b, bulkAppendColumn e c rs n arr = (.ok, b) ∧ Converted e c rs n arr b := by
  unfold bulkAppendColumn
  by_cases hwide : (e.sqllen32 || e.indStride32) = true
  · rw [if_pos hwide]
    exact Or.inl rfl
  · rw [if_neg hwide]
    dsimp only
    by_cases hkind : (!hasBulk c.kind) = true
    · rw [if_pos hkind]
      exact Or.inl rfl
    · rw [if_neg hkind]
      by_cases htrunc : (decide (c.cType ≠ .fixed) && (List.range n).any fun row =>
          boundValueTruncated e.wchar c (odbcIndicatorGet rs.indicators row false)) = true
      · rw [if_pos htrunc]
        exact Or.inl rfl
      · rw [if_neg htrunc]
        cases hdata :
            bulkData e c rs (fun row => odbcIndicatorGet rs.indicators row false) n arr with
        | none => exact Or.inl rfl
        | some mid =>
            right
            obtain ⟨htype, hlength, hnulls, hmap⟩ := bulkData_kept hdata
            have hextended := @bulkValidity_extended mid n _ (isValid rs)
              (by rw [hmap, hlength]; exact hbitmap) (countNulls_isValid rs n)
            rw [hmap, hlength, hnulls, countNulls_isValid] at hextended
            have hvalidity : ∀ nulls, (bulkValidity mid (isValid rs) n nulls).buffer1 =
                mid.buffer1 ∧ (bulkValidity mid (isValid rs) n nulls).buffer2 = mid.buffer2 ∧
                (bulkValidity mid (isValid rs) n nulls).storageType = mid.storageType ∧
                (bulkValidity mid (isValid rs) n nulls).length = mid.length := by
              intro nulls
              unfold bulkValidity
              split <;> exact ⟨rfl, rfl, rfl, rfl⟩
            obtain ⟨hbuffer1, hbuffer2, hstorage, hrows⟩ := hvalidity
              ((List.range n).countP fun row => decide (indicator rs row = nullData))
            refine ⟨_, rfl, ?_⟩
            constructor
            · rw [Bool.or_eq_true, not_or] at hwide
              exact ⟨Bool.eq_false_iff.mpr hwide.1, Bool.eq_false_iff.mpr hwide.2⟩
            · simpa using hkind
            · intro row hrow
              by_cases hfixed : c.cType = .fixed
              · exact boundValueTruncated_fixed hfixed _
              · rw [decide_eq_true hfixed, Bool.true_and, List.any_eq_true] at htrunc
                apply Bool.eq_false_iff.mpr
                intro htrue
                exact htrunc ⟨row, List.mem_range.mpr hrow, htrue⟩
            · exact ⟨mid, hdata, hbuffer1, hbuffer2⟩
            · constructor
              · exact hstorage.trans htype
              · exact congrArg (· + n) (hrows.trans hlength)
              · rw [← countNulls_isValid] at hextended ⊢
                exact hextended.2
              · rw [← countNulls_isValid] at hextended
                exact hextended.1

theorem rowValue_width (h : 0 < memcpyWidth c.kind) (row : Nat) :
    rowValue e c rs row =
      ArrowArray.fixedValue (storageOf c.kind) ((rowData c rs row).take (memcpyWidth c.kind)) := by
  unfold rowValue
  cases hk : c.kind
  all_goals
    first
    | rfl
    | rw [hk] at h
      exact absurd h (by decide)

theorem indicator_of_valid {row : Nat} (h : isValid rs row = true) : indicator rs row ≠ nullData :=
  of_decide_eq_true h

/-- A buffer that is copied as it is. -/
theorem converted_width (h : Converted e c rs n arr b) (hbuilt : arr.Built)
    (htype : arr.storageType = storageOf c.kind) (hroom : stride c * n ≤ rs.buffer.length)
    (hwidth : 0 < memcpyWidth c.kind) :
    b.Built ∧ arr.Appends b (ArrowArray.cells n (isValid rs) (rowValue e c rs)) := by
  obtain ⟨hbytes, hbool, hoff⟩ := elementBytes_width hwidth
  obtain ⟨mid, hdata, hbuffer, -⟩ := h.data
  unfold bulkData at hdata
  dsimp only at hdata
  rw [if_pos hwidth, Option.ite_none_left_eq_some] at hdata
  obtain ⟨hstride, hmid⟩ := hdata
  rw [not_not] at hstride
  rw [Option.some.injEq] at hmid
  rw [← htype] at hbytes hbool hoff
  have hvalue : rowValue e c rs = fun row => ArrowArray.fixedValue arr.storageType
      ((rowData c rs row).take (memcpyWidth c.kind)) := by
    funext row
    rw [rowValue_width hwidth, htype]
  rw [hvalue]
  apply @ArrowArray.Grows.fixed _ _ _ _ _ (rs.buffer.take (memcpyWidth c.kind * n)) h.grows hbuilt
    hbool hoff
  · rw [hbuffer, ← hmid]
    exact arr.buffer1.append_content _
  · rw [List.length_take, hbytes]
    rw [hstride] at hroom
    omega
  · intro row hrow _
    rw [hbytes, Bytes.slot_take hrow]
    unfold rowData
    rw [hstride]
    rfl

/-- Slots that are computed row by row. -/
theorem converted_slots {size : Nat} {value : List UInt8 → List UInt8}
    (h : Converted e c rs n arr b) (hbuilt : arr.Built) (hbool : arr.storageType ≠ .bool)
    (hoff : arr.storageType.hasOffsets = false) (hsize : arr.storageType.elementBytes = size)
    (hbuffer : b.buffer1 = arr.buffer1.append (Bytes.blocks n fun row =>
      if indicator rs row = nullData then List.replicate size 0 else value (rowData c rs row)))
    (hlength : ∀ data, (value data).length = size) :
    b.Built ∧ arr.Appends b (ArrowArray.cells n (isValid rs) fun row =>
      ArrowArray.fixedValue arr.storageType (value (rowData c rs row))) := by
  have hwidth : ∀ row < n, (if indicator rs row = nullData then List.replicate size 0
      else value (rowData c rs row)).length = size := by
    intro row _
    split
    · exact List.length_replicate
    · exact hlength _
  apply h.grows.fixed hbuilt hbool hoff
  · rw [hbuffer]
    exact arr.buffer1.append_content _
  · rw [hsize, Bytes.length_blocks hwidth]
  · intro row hrow hvalid
    rw [hsize, Bytes.slot_blocks hwidth hrow, if_neg (indicator_of_valid hvalid)]

/-- The loop over the rows of a boolean column. -/
theorem converted_bits {value : Nat → Bool} (h : Converted e c rs n arr b) (hbuilt : arr.Built)
    (hbool : arr.storageType = .bool)
    (hbuffer : b.buffer1 =
      setBits (ArrowArray.fillTo arr.buffer1 (arrowBytesForBits (arr.length + n))) arr.length
        (fun row => decide (indicator rs row ≠ nullData) && value row) n) :
    b.Built ∧ arr.Appends b (ArrowArray.cells n (isValid rs) fun row => .bit (value row)) := by
  have hfill := ArrowArray.fillTo_spec (n := n) arr.buffer1 (hbuilt.bits hbool)
  have hbits := setBits_spec (ArrowArray.fillTo arr.buffer1 (arrowBytesForBits (arr.length + n)))
    (by rw [hfill.1]; exact le_arrowBytesForBits _)
    fun row => decide (indicator rs row ≠ nullData) && value row
  apply h.grows.bits hbuilt hbool
  · rw [hbuffer, hbits.1, hfill.1]
  · intro i hi
    rw [hbuffer, hbits.2.1 i hi, hfill.2 i hi]
  · intro row hrow hvalid
    rw [hbuffer, hbits.2.2 row hrow, decide_eq_true (indicator_of_valid hvalid), Bool.true_and]

/-- What the bulk path writes for a row. -/
theorem bulkText_eq (hroom : stride c * n ≤ rs.buffer.length)
    {row : Nat} (hrow : row < n) {len : Nat}
    (hlen : len = if indicator rs row = nullData then 0
      else boundValueLen e.wchar c (indicator rs row)) :
    len ≤ (rowData c rs row).length ∧
      bulkText e c rs (indicator rs) row =
        if c.kind = .wchar then textOf e.wchar ((rowData c rs row).take len)
        else (rowData c rs row).take len := by
  have hcap : len ≤ stride c := by
    rw [hlen]
    unfold boundValueLen boundValueCap
    split
    · omega
    · split <;> omega
  have hlength : len ≤ (rowData c rs row).length := by
    have hnext : stride c * (row + 1) ≤ stride c * n := Nat.mul_le_mul_left _ hrow
    rw [Nat.mul_succ] at hnext
    unfold rowData
    rw [List.length_drop]
    omega
  refine ⟨hlength, ?_⟩
  have htake : ((rowData c rs row).take len).length = len := by
    rw [List.length_take]
    omega
  have hzero : textOf e.wchar [] = [] := by
    have hmax := Scratch.length_textOf_le e.wchar []
    have hnone : utf16Utf8MaxBytes e.wchar (([] : List UInt8).length / e.wchar.bytes) = 0 := by
      rw [List.length_nil, Nat.zero_div]
      exact Nat.zero_mul _
    rw [hnone, Nat.le_zero] at hmax
    exact List.length_eq_zero_iff.mp hmax
  unfold bulkText
  rw [← hlen]
  dsimp only
  by_cases hpos : 0 < len
  · rw [if_pos hpos]
    by_cases hwide : c.kind = .wchar
    · have happart := @Scratch.utf16ToUtf8_apart e.wchar (rowData c rs row)
        ((rowData c rs row).take len) (by rw [htake]) []
      rw [htake] at happart
      rw [if_pos hwide, hwide]
      dsimp only
      rw [happart]
      exact Scratch.take_overlay_zero _ _
    · rw [if_neg hwide]
      split
      · rename_i hk
        exact absurd hk hwide
      · rfl
  · obtain rfl : len = 0 := by omega
    rw [if_neg hpos, List.take_zero, hzero, ite_self]

theorem bulkText_null {row : Nat} (h : isValid rs row = false) :
    bulkText e c rs (indicator rs) row = [] := by
  have hnull : indicator rs row = nullData := not_not.mp (of_decide_eq_false h)
  unfold bulkText
  rw [if_pos hnull]
  exact if_neg (Nat.lt_irrefl 0)

/-- What the bulk path writes has room in what it has reserved. -/
theorem length_texts_le (hroom : stride c * n ≤ rs.buffer.length) {k : Nat} (hk : k ≤ n) :
    (Bytes.blocks k (bulkText e c rs (indicator rs))).length ≤
      if c.kind = .wchar then
        utf16Utf8MaxBytes e.wchar (srcBytes e c (indicator rs) k / e.wchar.bytes)
      else srcBytes e c (indicator rs) k := by
  induction k with
  | zero => exact Nat.zero_le _
  | succ k ih =>
      have hinit := ih (by omega)
      obtain ⟨len, hlen⟩ : ∃ len, len = if indicator rs k = nullData then 0
        else boundValueLen e.wchar c (indicator rs k) := ⟨_, rfl⟩
      obtain ⟨hle, htext⟩ := bulkText_eq (e := e) hroom (show k < n by omega) hlen
      have htake : ((rowData c rs k).take len).length = len := by
        rw [List.length_take]
        omega
      rw [Bytes.blocks_succ, List.length_append, htext, srcBytes, ← hlen]
      by_cases hwide : c.kind = .wchar
      · have hmax := Scratch.length_textOf_le e.wchar ((rowData c rs k).take len)
        rw [htake] at hmax
        rw [if_pos hwide] at hinit ⊢
        rw [if_pos hwide]
        calc
          _ ≤ utf16Utf8MaxBytes e.wchar (srcBytes e c (indicator rs) k / e.wchar.bytes) +
              utf16Utf8MaxBytes e.wchar (len / e.wchar.bytes) := Nat.add_le_add hinit hmax
          _ = utf16Utf8MaxBytes e.wchar
              (srcBytes e c (indicator rs) k / e.wchar.bytes + len / e.wchar.bytes) :=
            (Nat.add_mul _ _ _).symm
          _ ≤ utf16Utf8MaxBytes e.wchar ((srcBytes e c (indicator rs) k + len) / e.wchar.bytes) :=
            Nat.mul_le_mul_right _ (Nat.div_add_div_le_add_div)
      · rw [if_neg hwide] at hinit ⊢
        rw [if_neg hwide, htake]
        omega

/-- The loop over the texts of a rowset. -/
theorem converted_texts (h : Converted e c rs n arr b) (hbuilt : arr.Built)
    (htype : arr.storageType = storageOf c.kind) (hroom : stride c * n ≤ rs.buffer.length)
    (hkind : c.kind = .char ∨ c.kind = .wchar ∨ c.kind = .binary) :
    arr.offsetAt arr.length + (Bytes.blocks n (bulkText e c rs (indicator rs))).length ≤
        2147483647 ∧
      b.Built ∧ arr.Appends b (ArrowArray.cells n (isValid rs) (rowValue e c rs)) := by
  have hoff : arr.storageType.hasOffsets = true := by
    rw [htype]
    rcases hkind with hk | hk | hk <;> rw [hk] <;> rfl
  have hvalue : rowValue e c rs = fun row => .bytes (bulkText e c rs (indicator rs) row) := by
    funext row
    unfold rowValue
    rcases hkind with hk | hk | hk <;> rw [hk]
  obtain ⟨mid, hdata, hbuffer1, hbuffer2⟩ := h.data
  obtain ⟨maxBytes, hmax⟩ : ∃ maxBytes, maxBytes =
      if c.kind = .wchar then
        utf16Utf8MaxBytes e.wchar (srcBytes e c (indicator rs) n / e.wchar.bytes)
      else srcBytes e c (indicator rs) n := ⟨_, rfl⟩
  have hbranch : bulkData e c rs (indicator rs) n arr =
      if 2147483647 < arr.offsetAt arr.length + maxBytes then none
      else some { arr with
        buffer1 := arr.buffer1.append
          (textLoop (bulkText e c rs (indicator rs)) (arr.offsetAt arr.length) n).2.1
        buffer2 := arr.buffer2.append
          (textLoop (bulkText e c rs (indicator rs)) (arr.offsetAt arr.length) n).2.2 } := by
    rw [hmax]
    unfold bulkData
    rcases hkind with hk | hk | hk <;> rw [hk] <;> rfl
  have hstart := (hbuilt.offsets hoff).2.1 arr.length (Nat.le_refl _)
  have htexts := length_texts_le (e := e) hroom (Nat.le_refl n)
  rw [← hmax] at htexts
  rw [hbranch, Option.ite_none_left_eq_some, Option.some.injEq] at hdata
  obtain ⟨hfits, hmid⟩ := hdata
  have hroomed : arr.offsetAt arr.length +
      (Bytes.blocks n (bulkText e c rs (indicator rs))).length ≤ 2147483647 := by omega
  have hloop := textLoop_spec (bulkText e c rs (indicator rs)) hstart.1 hroomed
  rw [hvalue]
  refine ⟨hroomed, ?_⟩
  apply h.grows.texts hbuilt hoff
  · rw [hbuffer1, ← hmid, hloop]
    exact arr.buffer1.append_content _
  · rw [hbuffer2, ← hmid, hloop]
    exact arr.buffer2.append_content _
  · exact hroomed
  · intro row _ hvalid
    exact bulkText_null hvalid

/-- Fractions below a second, as every legal timestamp has. -/
def LegalFractions (c : Column) (rs : Rowset) (n : Nat) : Prop :=
  c.kind = .timestamp → ∀ row < n, isValid rs row = true →
    (timestampStruct (rowData c rs row)).fraction < 1000000000

/-- A converted column has the values of its rows. -/
theorem converted_appends (h : Converted e c rs n arr b) (hbuilt : arr.Built)
    (htype : arr.storageType = storageOf c.kind) (hroom : stride c * n ≤ rs.buffer.length)
    (hlegal : LegalFractions c rs n) :
    b.Built ∧ arr.Appends b (ArrowArray.cells n (isValid rs) (rowValue e c rs)) := by
  have hbulk := h.kind
  obtain ⟨mid, hdata, hbuffer, -⟩ := h.data
  cases hk : c.kind with
  | i8 | i16 | i32 | i64 | u8 | u16 | u32 | u64 | f32 | f64 =>
      exact converted_width h hbuilt htype hroom (by rw [hk]; decide)
  | char => exact (converted_texts h hbuilt htype hroom (Or.inl hk)).2
  | wchar => exact (converted_texts h hbuilt htype hroom (Or.inr (Or.inl hk))).2
  | binary => exact (converted_texts h hbuilt htype hroom (Or.inr (Or.inr hk))).2
  | bool =>
      have hvalue : rowValue e c rs = fun row =>
          .bit (decide (byteAt (rowData c rs row) 0 ≠ 0)) := by
        funext row
        unfold rowValue
        rw [hk]
      unfold bulkData at hdata
      rw [hk] at hdata htype
      rw [hvalue]
      apply converted_bits h hbuilt htype
      rw [hbuffer, ← Option.some.inj hdata]
  | boolStr =>
      have hvalue : rowValue e c rs = fun row =>
          .bit (decide (0 < boundValueLen e.wchar c (indicator rs row)) &&
            isTrueChar (byteAt (rowData c rs row) 0)) := by
        funext row
        unfold rowValue
        rw [hk]
      unfold bulkData at hdata
      rw [hk] at hdata htype
      rw [hvalue]
      apply converted_bits h hbuilt htype
      rw [hbuffer, ← Option.some.inj hdata]
  | date =>
      unfold bulkData at hdata
      rw [hk] at hdata htype
      have hslots := @converted_slots _ _ _ _ _ _ 4
        (fun data => Bytes.intDigits 4 (asInt (dayNumber (dateStruct data)))) h hbuilt
        (by rw [htype]; decide) (by rw [htype]; rfl) (by rw [htype]; rfl)
        (by rw [hbuffer, ← Option.some.inj hdata]) fun _ => Bytes.length_intDigits 4 _
      have hvalue : rowValue e c rs = fun row => ArrowArray.fixedValue arr.storageType
          (Bytes.intDigits 4 (asInt (dayNumber (dateStruct (rowData c rs row))))) := by
        funext row
        rw [ArrowArray.fixedValue_bytes (by rw [htype]; decide)]
        unfold rowValue
        rw [hk]
        exact congrArg _ (Bytes.intDigits_bmod 4 _).symm
      rw [hvalue]
      exact hslots
  | time =>
      unfold bulkData at hdata
      rw [hk] at hdata htype
      have hslots := @converted_slots _ _ _ _ _ _ 4
        (fun data => Bytes.intDigits 4 (asInt (timeSeconds data))) h hbuilt
        (by rw [htype]; decide) (by rw [htype]; rfl) (by rw [htype]; rfl)
        (by rw [hbuffer, ← Option.some.inj hdata]) fun _ => Bytes.length_intDigits 4 _
      have hvalue : rowValue e c rs = fun row => ArrowArray.fixedValue arr.storageType
          (Bytes.intDigits 4 (asInt (timeSeconds (rowData c rs row)))) := by
        funext row
        rw [ArrowArray.fixedValue_bytes (by rw [htype]; decide)]
        unfold rowValue
        rw [hk]
        exact congrArg _ (Bytes.intDigits_bmod 4 _).symm
      rw [hvalue]
      exact hslots
  | timestamp =>
      unfold bulkData at hdata
      rw [hk] at hdata htype
      have hslots := @converted_slots _ _ _ _ _ _ 8
        (fun data =>
          match e.ticks c.unit (timestampStruct data)
              (bulkTimestamp c.unit (timestampStruct data)) with
          | .ok ticks => Bytes.intDigits 8 ticks
          | .error _ => List.replicate 8 0) h hbuilt
        (by rw [htype]; decide) (by rw [htype]; rfl) (by rw [htype]; rfl)
        (by rw [hbuffer, ← Option.some.inj hdata]) fun data => by
          cases e.ticks c.unit (timestampStruct data)
              (bulkTimestamp c.unit (timestampStruct data)) with
          | ok ticks => exact Bytes.length_intDigits 8 ticks
          | error err => exact List.length_replicate
      have hvalue : ArrowArray.cells n (isValid rs) (rowValue e c rs) =
          ArrowArray.cells n (isValid rs) fun row => ArrowArray.fixedValue arr.storageType
            (match e.ticks c.unit (timestampStruct (rowData c rs row))
                (bulkTimestamp c.unit (timestampStruct (rowData c rs row))) with
            | .ok ticks => Bytes.intDigits 8 ticks
            | .error _ => List.replicate 8 0) := by
        apply ArrowArray.cells_congr
        intro row hrow hvalid
        obtain ⟨ticks, happend, hbulkTicks, -⟩ :=
          timestamp_paths e c.unit _ (hlegal hk row hrow hvalid)
        rw [ArrowArray.fixedValue_bytes (by rw [htype]; decide)]
        unfold rowValue
        rw [hk]
        dsimp only
        rw [happend, hbulkTicks]
      rw [hvalue]
      exact hslots
  | timeMs | time64 | timestampTz | timestampText | decimal =>
      rw [hk] at hbulk
      cases hbulk

end Bulk

/-! ## The per-value path -/

section PerValue

variable {e : Env} {c : Column} {rs : Rowset} {n : Nat} {arr : ArrowArray}

/-- What comes of an append that takes this value. -/
def Takes (arr : ArrowArray) (r : Except ArrowErrorCode ArrowArray) (v : ArrowArray.Value) : Prop :=
  ∃ b, r = .ok b ∧ b.Built ∧ arr.Appends b [some v]

theorem inSigned_intValue {bytes : List UInt8} (h : 0 < bytes.length) :
    InSigned (8 * bytes.length) (Bytes.intValue bytes) := by
  have hpow : 256 ^ bytes.length = 2 ^ (8 * bytes.length) := by
    rw [pow_mul]
    norm_num
  unfold Bytes.intValue
  rw [hpow]
  exact signedCast_inSigned (by omega) _

/-- An integer of the array's own type. -/
theorem appendInt_takes (hbuilt : arr.Built)
    (htype : arr.storageType = .int8 ∨ arr.storageType = .int16 ∨ arr.storageType = .int32 ∨
      arr.storageType = .int64) {v : Int} (hv : InSigned (8 * arr.storageType.elementBytes) v) :
    Takes arr (arr.appendInt v) (.bytes (Bytes.intDigits arr.storageType.elementBytes v)) := by
  have hspec := ArrowArray.appendSigned_spec (v := v) hbuilt
    (by rcases htype with h | h | h | h <;> rw [h] <;> decide)
    (by rcases htype with h | h | h | h <;> rw [h] <;> rfl)
    (by rcases htype with h | h | h | h <;> rw [h] <;> decide) hv
  have hcase : arr.appendInt v = arr.appendSigned v := by
    unfold ArrowArray.appendInt
    rcases htype with h | h | h | h <;> rw [h]
  unfold Takes
  rw [hcase]
  exact hspec

/-- Bytes that are read as a signed integer are appended as they are. -/
theorem appendInt_bytes (hbuilt : arr.Built)
    (htype : arr.storageType = .int8 ∨ arr.storageType = .int16 ∨ arr.storageType = .int32 ∨
      arr.storageType = .int64) {bytes : List UInt8}
    (hlength : bytes.length = arr.storageType.elementBytes) :
    Takes arr (arr.appendInt (Bytes.intValue bytes)) (.bytes bytes) := by
  have hpos : 0 < bytes.length := by
    rw [hlength]
    rcases htype with h | h | h | h <;> rw [h] <;> decide
  have htakes := appendInt_takes hbuilt htype (by rw [← hlength]; exact inSigned_intValue hpos)
  rwa [← hlength, Bytes.intDigits_intValue] at htakes

theorem appendUInt_bytes (hbuilt : arr.Built)
    (htype : arr.storageType = .uint8 ∨ arr.storageType = .uint16 ∨ arr.storageType = .uint32 ∨
      arr.storageType = .uint64) {bytes : List UInt8}
    (hlength : bytes.length = arr.storageType.elementBytes) :
    Takes arr (arr.appendUInt (Bytes.value bytes)) (.bytes bytes) := by
  have hspec := ArrowArray.appendUnsigned_spec (v := Bytes.value bytes) hbuilt
    (by rcases htype with h | h | h | h <;> rw [h] <;> decide)
    (by rcases htype with h | h | h | h <;> rw [h] <;> rfl)
    (by rcases htype with h | h | h | h <;> rw [h] <;> decide)
    (by rw [← hlength]; exact Bytes.value_lt bytes)
  have hcase : arr.appendUInt (Bytes.value bytes) = arr.appendUnsigned (Bytes.value bytes) := by
    unfold ArrowArray.appendUInt
    rcases htype with h | h | h | h <;> rw [h]
  rw [← hlength, Bytes.digits_value] at hspec
  unfold Takes
  rw [hcase]
  exact hspec

theorem appendInt_bit (hbuilt : arr.Built) (htype : arr.storageType = .bool) (v : Bool) :
    Takes arr (arr.appendInt (if v then 1 else 0)) (.bit v) := by
  have hspec := ArrowArray.appendBit_spec hbuilt htype v
  have hcase : arr.appendInt (if v then 1 else 0) =
      .ok (ArrowArray.finishAppend (arr.appendBits v)) := by
    unfold ArrowArray.appendInt
    rw [htype]
    cases v <;> rfl
  exact ⟨_, hcase, hspec⟩

theorem appendDouble_double (hbuilt : arr.Built) (htype : arr.storageType = .double)
    {bytes : List UInt8} (hlength : bytes.length = 8) :
    Takes arr (arr.appendDouble (Bytes.value bytes)) (.bytes bytes) := by
  have hspec := @ArrowArray.appendFixed_spec arr hbuilt (by rw [htype]; decide)
    (by rw [htype]; rfl) bytes (by rw [htype]; exact hlength)
  rw [ArrowArray.fixedValue_bytes (by rw [htype]; decide)] at hspec
  have hcase : arr.appendDouble (Bytes.value bytes) = .ok (arr.appendFixed bytes) := by
    unfold ArrowArray.appendDouble
    rw [htype]
    dsimp only
    rw [← hlength, Bytes.digits_value]
  exact ⟨_, hcase, hspec⟩

/-- A single goes through a `double`; a NaN may come out as another one. -/
theorem appendDouble_single (hbuilt : arr.Built) (htype : arr.storageType = .float)
    {bytes : List UInt8} (hlength : bytes.length = 4) :
    Takes arr (arr.appendDouble (Binary32.widen (Bytes.value bytes)))
      (ArrowArray.fixedValue .float bytes) := by
  obtain ⟨x, hx⟩ : ∃ x, x = Binary32.narrow (Binary32.widen (Bytes.value bytes)) := ⟨_, rfl⟩
  have hspec := @ArrowArray.appendFixed_spec arr hbuilt (by rw [htype]; decide)
    (by rw [htype]; rfl) (Bytes.digits 4 x) (by rw [htype]; exact Bytes.length_digits 4 x)
  have hcase : arr.appendDouble (Binary32.widen (Bytes.value bytes)) =
      .ok (arr.appendFixed (Bytes.digits 4 x)) := by
    unfold ArrowArray.appendDouble
    rw [htype, hx]
  have hvalue : ArrowArray.fixedValue .float (Bytes.digits 4 x) =
      ArrowArray.fixedValue .float bytes := by
    cases hnan : Binary32.isNaN (Bytes.value bytes) with
    | false =>
        rw [hx, Binary32.narrow_widen hnan, ← hlength, Bytes.digits_value]
    | true =>
        have hquiet := Binary32.isNaN_narrow_widen hnan
        have hlt : x < 256 ^ 4 := by
          have hbytes := Bytes.value_lt bytes
          rw [hlength] at hbytes
          have hnarrow := Binary32.narrow_lt (Binary32.widen_lt (by omega))
          rw [← hx] at hnarrow
          omega
        unfold ArrowArray.fixedValue
        dsimp only
        rw [Bytes.value_digits, Nat.mod_eq_of_lt hlt, hx, hquiet, hnan, if_pos rfl, if_pos rfl]
  rw [htype, hvalue] at hspec
  exact ⟨_, hcase, hspec⟩

theorem appendBytes_takes (hbuilt : arr.Built) (hoff : arr.storageType.hasOffsets = true)
    {bytes : List UInt8} (hfits : arr.offsetAt arr.length + bytes.length ≤ 2147483647) :
    Takes arr (arr.appendBytes bytes) (.bytes bytes) :=
  ArrowArray.appendBytes_spec hbuilt hoff hfits

theorem checkNa_takes {r : Except ArrowErrorCode ArrowArray} {v : ArrowArray.Value}
    (h : Takes arr r v) : ∃ b, checkNa r = .ok b ∧ b.Built ∧ arr.Appends b [some v] := by
  obtain ⟨b, hr, hspec⟩ := h
  exact ⟨b, by rw [hr]; rfl, hspec⟩

/-- The length that `AppendValue` goes by for a value in the bound buffer. -/
def valueLen (ind : Int) : Nat := if ind = noTotal ∨ ind < 0 then 0 else ind.toNat

theorem valueLen_eq {w : SqlWchar} {c : Column} {ind : Int} (htype : c.cType ≠ .fixed)
    (hvalid : ind ≠ nullData) (h : boundValueTruncated w c ind = false) :
    valueLen ind = boundValueLen w c ind := by
  obtain ⟨hnonneg, hlen, -⟩ := boundValueLen_eq htype hvalid h
  have hnotTotal : ind ≠ noTotal := by
    unfold noTotal
    omega
  unfold valueLen
  rw [hlen, if_neg]
  omega

/-- What a row has to meet for `AppendValue` to take its value from the buffer. -/
structure RowFits (e : Env) (c : Column) (rs : Rowset) (n row : Nat) (arr : ArrowArray) : Prop where
  room : stride c * n ≤ rs.buffer.length
  inRowset : row < n
  width : 0 < memcpyWidth c.kind → stride c = memcpyWidth c.kind
  untruncated : boundValueTruncated e.wchar c (indicator rs row) = false
  fraction : c.kind = .timestamp → (timestampStruct (rowData c rs row)).fraction < 1000000000
  date : c.kind = .date → InSigned 32 (dayNumber (dateStruct (rowData c rs row)))
  offset : arr.storageType.hasOffsets = true →
    arr.offsetAt arr.length + (bulkText e c rs (indicator rs) row).length ≤ 2147483647

theorem length_rowData_take {row : Nat} (hroom : stride c * n ≤ rs.buffer.length) (hrow : row < n)
    (hstride : stride c = memcpyWidth c.kind) :
    ((rowData c rs row).take (memcpyWidth c.kind)).length = memcpyWidth c.kind := by
  have hnext : stride c * (row + 1) ≤ stride c * n := Nat.mul_le_mul_left _ hrow
  rw [Nat.mul_succ] at hnext
  unfold rowData
  rw [List.length_take, List.length_drop]
  omega

theorem timeSeconds_lt (data : List UInt8) : timeSeconds data < 300000000 := by
  have hhour := value_field_lt data 0 2
  have hminute := value_field_lt data 2 2
  have hsecond := value_field_lt data 4 2
  unfold timeSeconds
  omega

/-- `AppendValue` takes the value of the row. -/
theorem appendData_spec (hbuilt : arr.Built) (htype : arr.storageType = storageOf c.kind)
    (hbulk : hasBulk c.kind = true) (hplanned : Planned e.wchar c) {row : Nat}
    (hfits : RowFits e c rs n row arr) (hvalid : isValid rs row = true) :
    ∃ b, appendData e c row arr
        (.inBuffer (rowData c rs row) (valueLen (indicator rs row))) = .ok b ∧
      b.Built ∧ arr.Appends b [some (rowValue e c rs row)] := by
  have hindicator := indicator_of_valid hvalid
  have hlen : hasText c.kind = true →
      valueLen (indicator rs row) = boundValueLen e.wchar c (indicator rs row) :=
    fun htext => valueLen_eq (planned_text hplanned htext) hindicator hfits.untruncated
  have htext : ∀ len, len = valueLen (indicator rs row) → hasText c.kind = true →
      bulkText e c rs (indicator rs) row =
        if c.kind = .wchar then textOf e.wchar ((rowData c rs row).take len)
        else (rowData c rs row).take len := by
    intro len hl hkind
    exact (bulkText_eq hfits.room hfits.inRowset
      (by rw [hl, hlen hkind, if_neg hindicator])).2
  have hwidth : 0 < memcpyWidth c.kind →
      ((rowData c rs row).take (memcpyWidth c.kind)).length = memcpyWidth c.kind :=
    fun hpos => length_rowData_take hfits.room hfits.inRowset (hfits.width hpos)
  unfold appendData
  dsimp only [Located.data, Located.len]
  cases hk : c.kind with
  | i8 | i16 | i32 | i64 =>
      have hlength := hwidth (by rw [hk]; decide)
      rw [hk] at htype hlength
      rw [rowValue_width (by rw [hk]; decide), hk,
        ArrowArray.fixedValue_bytes (by decide)]
      apply checkNa_takes
      apply appendInt_bytes hbuilt
      · rw [htype]
        decide
      · rw [htype]
        exact hlength
  | u8 | u16 | u32 | u64 =>
      have hlength := hwidth (by rw [hk]; decide)
      rw [hk] at htype hlength
      rw [rowValue_width (by rw [hk]; decide), hk,
        ArrowArray.fixedValue_bytes (by decide)]
      apply checkNa_takes
      apply appendUInt_bytes hbuilt
      · rw [htype]
        decide
      · rw [htype]
        exact hlength
  | f32 =>
      have hlength := hwidth (by rw [hk]; decide)
      rw [hk] at htype hlength
      rw [rowValue_width (by rw [hk]; decide), hk]
      exact checkNa_takes (appendDouble_single hbuilt htype hlength)
  | f64 =>
      have hlength := hwidth (by rw [hk]; decide)
      rw [hk] at htype hlength
      rw [rowValue_width (by rw [hk]; decide), hk,
        ArrowArray.fixedValue_bytes (by decide)]
      exact checkNa_takes (appendDouble_double hbuilt htype hlength)
  | bool =>
      rw [hk] at htype
      unfold rowValue
      rw [hk]
      have htakes := appendInt_bit hbuilt htype (decide (byteAt (rowData c rs row) 0 ≠ 0))
      simp only [decide_eq_true_eq] at htakes
      exact checkNa_takes htakes
  | boolStr =>
      have hlength := hlen (by rw [hk]; rfl)
      rw [hk] at htype
      unfold rowValue
      rw [hk]
      have hcase : isTrueChar (if 0 < valueLen (indicator rs row) then
            byteAt (rowData c rs row) 0 else '0'.val.toUInt8) =
          (decide (0 < boundValueLen e.wchar c (indicator rs row)) &&
            isTrueChar (byteAt (rowData c rs row) 0)) := by
        rw [hlength]
        by_cases hpos : 0 < boundValueLen e.wchar c (indicator rs row)
        · rw [if_pos hpos, decide_eq_true hpos, Bool.true_and]
        · rw [if_neg hpos, decide_eq_false hpos, Bool.false_and]
          decide
      have htakes := appendInt_bit hbuilt htype (isTrueChar
        (if 0 < valueLen (indicator rs row) then byteAt (rowData c rs row) 0
          else '0'.val.toUInt8))
      dsimp only
      rw [← hcase]
      exact checkNa_takes htakes
  | char | binary =>
      have happend := htext _ rfl (by rw [hk]; rfl)
      rw [if_neg (by rw [hk]; decide)] at happend
      rw [hk] at htype
      have hoff : arr.storageType.hasOffsets = true := by
        rw [htype]
        rfl
      unfold rowValue
      rw [hk, ← happend]
      exact checkNa_takes (appendBytes_takes hbuilt hoff (hfits.offset hoff))
  | wchar =>
      have happend := htext _ rfl (by rw [hk]; rfl)
      have hlength := (@bulkText_eq e _ _ _ hfits.room _ hfits.inRowset
        (valueLen (indicator rs row))
        (by rw [hlen (by rw [hk]; rfl), if_neg hindicator])).1
      rw [if_pos hk] at happend
      rw [hk] at htype
      have hoff : arr.storageType.hasOffsets = true := by
        rw [htype]
        rfl
      have htake : ((rowData c rs row).take (valueLen (indicator rs row))).length =
          valueLen (indicator rs row) := by
        rw [List.length_take]
        omega
      have hwide := @Scratch.appendUtf16_apart e.wchar (rowData c rs row)
        ((rowData c rs row).take (valueLen (indicator rs row))) (by rw [htake])
        (e.scratch row)
      rw [htake, ← happend] at hwide
      unfold rowValue wideText
      rw [hk]
      dsimp only
      rw [hwide]
      exact checkNa_takes (appendBytes_takes hbuilt hoff (hfits.offset hoff))
  | date =>
      have hdate := hfits.date hk
      rw [hk] at htype
      have htakes := appendInt_takes hbuilt (by rw [htype]; decide)
        (v := dayNumber (dateStruct (rowData c rs row))) (by rw [htype]; exact hdate)
      rw [htype] at htakes
      unfold rowValue
      rw [hk]
      exact checkNa_takes htakes
  | time =>
      have hlt := timeSeconds_lt (rowData c rs row)
      rw [hk] at htype
      have htakes := appendInt_takes hbuilt (by rw [htype]; decide)
        (v := timeSeconds (rowData c rs row)) (by
          rw [htype]
          unfold InSigned ArrowStorage.elementBytes storageOf
          norm_num
          omega)
      rw [htype] at htakes
      unfold rowValue
      rw [hk]
      exact checkNa_takes htakes
  | timestamp =>
      obtain ⟨ticks, happend, -, hticks⟩ := timestamp_paths e c.unit _ (hfits.fraction hk)
      rw [hk] at htype
      have htakes := appendInt_takes hbuilt (by rw [htype]; decide) (v := ticks)
        (by rw [htype]; exact hticks)
      rw [htype] at htakes
      unfold rowValue
      rw [hk]
      dsimp only
      rw [happend]
      exact checkNa_takes htakes
  | timeMs | time64 | timestampTz | timestampText | decimal =>
      rw [hk] at hbulk
      cases hbulk

/-- `AppendValue` appends the row, NULL or not. -/
theorem appendValue_spec (hbuilt : arr.Built) (htype : arr.storageType = storageOf c.kind)
    (hbulk : hasBulk c.kind = true) (hplanned : Planned e.wchar c)
    (hwide : e.sqllen32 = false ∧ e.indStride32 = false) {row : Nat}
    (hfits : isValid rs row = true → RowFits e c rs n row arr) :
    ∃ b, appendValue e c rs row arr = .ok b ∧ b.Built ∧
      arr.Appends b [if isValid rs row then some (rowValue e c rs row) else none] := by
  have hget : odbcIndicatorGet rs.indicators row (e.sqllen32 || e.indStride32) =
      indicator rs row := by
    rw [hwide.1, hwide.2]
    rfl
  unfold appendValue
  dsimp only
  rw [hget]
  cases hvalid : isValid rs row with
  | false =>
      have hnull : indicator rs row = nullData := not_not.mp (of_decide_eq_false hvalid)
      have huntruncated : boundValueTruncated e.wchar c (indicator rs row) = false :=
        decide_eq_false fun hor => hor.2.1 hnull
      rw [huntruncated, if_neg (by decide), if_pos hnull]
      exact ⟨_, rfl, ArrowArray.appendNull_spec hbuilt⟩
  | true =>
      have hrow := hfits hvalid
      rw [hrow.untruncated, if_neg (by decide), if_neg (indicator_of_valid hvalid)]
      exact appendData_spec hbuilt htype hbulk hplanned hrow hvalid

theorem appendRows_succ (e : Env) (c : Column) (rs : Rowset) (n : Nat) (arr : ArrowArray) :
    appendRows e c rs (n + 1) arr =
      match appendRows e c rs n arr with
      | .ok b => appendValue e c rs n b
      | .error err => .error err := by
  unfold appendRows
  rw [List.range_succ, List.foldlM_append]
  cases (List.range n).foldlM (fun arr row => appendValue e c rs row arr) arr with
  | error err => rfl
  | ok b =>
      show (appendValue e c rs n b >>= pure) = _
      exact bind_pure _

/-- Rows that fit one after the other are all appended. -/
theorem appendRows_spec (hbuilt : arr.Built) (htype : arr.storageType = storageOf c.kind)
    (hbulk : hasBulk c.kind = true) (hplanned : Planned e.wchar c)
    (hwide : e.sqllen32 = false ∧ e.indStride32 = false) {k : Nat}
    (hfits : ∀ row < k, ∀ mid : ArrowArray,
      arr.Appends mid (ArrowArray.cells row (isValid rs) (rowValue e c rs)) →
        isValid rs row = true → RowFits e c rs n row mid) :
    ∃ b, appendRows e c rs k arr = .ok b ∧ b.Built ∧
      arr.Appends b (ArrowArray.cells k (isValid rs) (rowValue e c rs)) := by
  induction k with
  | zero => exact ⟨arr, rfl, hbuilt, ArrowArray.Appends.refl arr⟩
  | succ k ih =>
      obtain ⟨mid, hrun, hmid, happends⟩ := ih fun row hrow => hfits row (by omega)
      obtain ⟨b, hvalue, hb, hlast⟩ := appendValue_spec (n := n) hmid
        (happends.storageType.trans htype) hbulk hplanned hwide
        (hfits k (by omega) mid happends)
      refine ⟨b, ?_, hb, ?_⟩
      · rw [appendRows_succ, hrun]
        exact hvalue
      · rw [ArrowArray.cells_succ]
        exact happends.trans hlast

end PerValue

/-! ## Both paths -/

section Agreement

variable {e : Env} {c : Column} {rs : Rowset} {n : Nat} {arr : ArrowArray}

/-- `BulkAppendColumn` leaves the array as it is, or as `AppendValue` called row by row leaves
it. -/
def Agrees (e : Env) (c : Column) (rs : Rowset) (n : Nat) (arr : ArrowArray) : Prop :=
  match bulkAppendColumn e c rs n arr with
  | (.notImplemented, b) => b.Same arr
  | (.ok, b) => ∃ b', appendRows e c rs n arr = .ok b' ∧ b.Same b'

/-- Day 0 of March in a year that begins an era of 400 years, which `DaysFromCivil` takes
round the 32 bits of its day of the era. -/
def BeforeEra (d : DateStruct) : Prop := d.month = 3 ∧ d.day = 0 ∧ d.year % 400 = 0

instance (d : DateStruct) : Decidable (BeforeEra d) := inferInstanceAs (Decidable (_ ∧ _ ∧ _))

/-- Of all fields a `DATE_STRUCT` can have, only these have no 32-bit day number. -/
theorem dayNumber_inSigned_iff (data : List UInt8) :
    InSigned 32 (dayNumber (dateStruct data)) ↔ ¬ BeforeEra (dateStruct data) := by
  have hyear := intValue_field data 0
  have hmonth := value_field_lt data 2 2
  have hday := value_field_lt data 4 2
  unfold dayNumber dateStruct BeforeEra
  dsimp only
  generalize Bytes.intValue (field data 0 2) = y at hyear ⊢
  generalize Bytes.value (field data 2 2) = m at hmonth ⊢
  generalize Bytes.value (field data 4 2) = d at hday ⊢
  obtain ⟨y', hy'⟩ : ∃ y', y' = if m ≤ 2 then y - 1 else y := ⟨_, rfl⟩
  obtain ⟨yoe, hyoe⟩ : ∃ yoe : Nat, (yoe : Int) = y' - y' / 400 * 400 :=
    ⟨(y' - y' / 400 * 400).toNat, by omega⟩
  obtain ⟨doy, hdoy⟩ : ∃ doy : Int,
      doy = (153 * ((m : Int) + if 2 < m then -3 else 9) + 2) / 5 + d - 1 := ⟨_, rfl⟩
  have hrange : -1 ≤ doy ∧ doy < 2200000 := by
    split at hdoy <;> omega
  have hearly : doy = -1 ↔ m = 3 ∧ d = 0 := by
    split at hdoy <;> omega
  have hera : -82 ≤ y' / 400 ∧ y' / 400 ≤ 81 := by
    split at hy' <;> omega
  obtain ⟨days, hdays⟩ : ∃ days : Int, days = yoe * 365 + yoe / 4 - yoe / 100 := ⟨_, rfl⟩
  have hdaysRange : 0 ≤ days ∧ days < 146100 := by omega
  have hdaysZero : days = 0 ↔ yoe = 0 := by omega
  unfold daysFromCivil
  dsimp only
  rw [← hy', readEra_eq, ← hyoe, asUnsigned_of_lt (by omega), ← hdoy, ← hdays]
  by_cases hbefore : doy = -1
  · have hmarch := hearly.mp hbefore
    have hsame : y' = y := by
      rw [hy', if_neg (by omega)]
    have hround : asUnsigned doy = 4294967295 := by
      rw [hbefore]
      decide
    have hfirst : yoe = 0 ↔ y % 400 = 0 := by omega
    have hwrapped : asUnsigned (days + (4294967295 : Nat)) =
        if days = 0 then 4294967295 else (days - 1).toNat := by
      unfold asUnsigned
      split <;> omega
    rw [hround, hwrapped]
    unfold InSigned
    norm_num
    split <;> omega
  · have hplain : asUnsigned doy = doy.toNat := by
      obtain ⟨k, hk⟩ : ∃ k : Nat, doy = k := ⟨doy.toNat, by omega⟩
      rw [hk, asUnsigned_of_lt (by omega), Int.toNat_natCast]
    have hsum : asUnsigned (days + doy.toNat) = (days + doy).toNat := by
      unfold asUnsigned
      omega
    rw [hplain, hsum]
    unfold InSigned
    norm_num
    omega

/-- A buffer is copied as it is only if its rows are as wide as the slots. -/
theorem converted_stride {b : ArrowArray} (h : Converted e c rs n arr b)
    (hwidth : 0 < memcpyWidth c.kind) : stride c = memcpyWidth c.kind := by
  obtain ⟨mid, hdata, -, -⟩ := h.data
  unfold bulkData at hdata
  dsimp only at hdata
  rw [if_pos hwidth, Option.ite_none_left_eq_some] at hdata
  exact not_not.mp hdata.1

theorem kind_of_offsets (h : (storageOf c.kind).hasOffsets = true) :
    c.kind = .char ∨ c.kind = .wchar ∨ c.kind = .binary := by
  cases hk : c.kind
  all_goals
    first
    | decide
    | rw [hk] at h
      exact absurd h (by decide)

/-- Where the rowset was converted, `AppendValue` takes a row behind those before it. -/
theorem converted_rowFits {b mid : ArrowArray} (h : Converted e c rs n arr b) (hbuilt : arr.Built)
    (htype : arr.storageType = storageOf c.kind) (hroom : stride c * n ≤ rs.buffer.length)
    (hlegal : LegalFractions c rs n) {row : Nat} (hrow : row < n)
    (hdate : c.kind = .date → InSigned 32 (dayNumber (dateStruct (rowData c rs row))))
    (happends : arr.Appends mid (ArrowArray.cells row (isValid rs) (rowValue e c rs)))
    (hvalid : isValid rs row = true) : RowFits e c rs n row mid where
  room := hroom
  inRowset := hrow
  width := converted_stride h
  untruncated := h.untruncated row hrow
  fraction hk := hlegal hk row hrow hvalid
  date := hdate
  offset hoff := by
    rw [happends.storageType] at hoff
    have hkind : c.kind = .char ∨ c.kind = .wchar ∨ c.kind = .binary := by
      rw [htype] at hoff
      exact kind_of_offsets hoff
    have hvalue : rowValue e c rs = fun row => .bytes (bulkText e c rs (indicator rs) row) := by
      funext row
      unfold rowValue
      rcases hkind with hk | hk | hk <;> rw [hk]
    obtain ⟨hfits, -⟩ := converted_texts h hbuilt htype hroom hkind
    have hlength : mid.length = arr.length + row := by
      rw [happends.length, ArrowArray.length_cells]
    rw [hvalue] at happends
    have hoffset := happends.offset_texts hoff (fun k _ => bulkText_null) (Nat.le_refl row)
    have hle := Bytes.length_blocks_le (show row + 1 ≤ n by omega)
      (bulkText e c rs (indicator rs))
    rw [Bytes.blocks_succ, List.length_append] at hle
    rw [hlength, hoffset]
    omega

/-- A date column is converted unless the driver's `SQLLEN` has 32 bits. -/
theorem bulkAppendColumn_date (hk : c.kind = .date) (hplanned : Planned e.wchar c)
    (hwide : e.sqllen32 = false ∧ e.indStride32 = false) :
    (bulkAppendColumn e c rs n arr).1 = .ok := by
  have hfixed : c.cType = .fixed := hplanned.typed.mpr (by rw [hk]; rfl)
  unfold bulkAppendColumn bulkData
  rw [hwide.1, hwide.2, hk, hfixed]
  rfl

/-- A date whose day number has no 32 bits ends the per-value path. -/
theorem appendRows_date (hk : c.kind = .date) (hplanned : Planned e.wchar c)
    (hwide : e.sqllen32 = false ∧ e.indStride32 = false) {k : Nat} {b : ArrowArray}
    (htype : arr.storageType = .int32) (h : appendRows e c rs k arr = .ok b) :
    b.storageType = .int32 ∧ ∀ row < k, isValid rs row = true →
      InSigned 32 (dayNumber (dateStruct (rowData c rs row))) := by
  have hfixed : c.cType = .fixed := hplanned.typed.mpr (by rw [hk]; rfl)
  induction k generalizing b with
  | zero =>
      cases h
      exact ⟨htype, fun row hrow => absurd hrow (Nat.not_lt_zero row)⟩
  | succ k ih =>
      rw [appendRows_succ] at h
      cases hrun : appendRows e c rs k arr with
      | error err =>
          rw [hrun] at h
          cases h
      | ok mid =>
          rw [hrun] at h
          obtain ⟨hmid, hrows⟩ := ih hrun
          unfold appendValue at h
          dsimp only at h
          rw [boundValueTruncated_fixed hfixed, if_neg (by decide), hwide.1, hwide.2] at h
          change (if indicator rs k = nullData then _ else _) = _ at h
          by_cases hnull : indicator rs k = nullData
          · rw [if_pos hnull] at h
            cases h
            refine ⟨?_, ?_⟩
            · unfold ArrowArray.appendNull
              rw [hmid]
            · intro row hrow hvalid
              by_cases hlast : row < k
              · exact hrows row hlast hvalid
              · obtain rfl : row = k := by omega
                exact absurd hnull (indicator_of_valid hvalid)
          · rw [if_neg hnull] at h
            unfold appendData ArrowArray.appendInt ArrowArray.appendSigned at h
            rw [hk] at h
            dsimp only [Located.data] at h
            rw [hmid] at h
            dsimp only at h
            by_cases hfits : InSigned (8 * ArrowStorage.int32.elementBytes)
                (dayNumber (dateStruct (rowData c rs k)))
            · rw [if_pos hfits] at h
              cases h
              refine ⟨hmid, ?_⟩
              intro row hrow hvalid
              by_cases hlast : row < k
              · exact hrows row hlast hvalid
              · obtain rfl : row = k := by omega
                exact hfits
            · rw [if_neg hfits] at h
              cases h

/-- Bulk conversion is per-value conversion, but for a date column with a date that has no
32-bit day number. -/
theorem bulkAppendColumn_agrees_iff (hplanned : Planned e.wchar c) (hbuilt : arr.Built)
    (htype : arr.storageType = storageOf c.kind) (hroom : stride c * n ≤ rs.buffer.length)
    (hlegal : LegalFractions c rs n) :
    Agrees e c rs n arr ↔
      (c.kind = .date → e.sqllen32 = false → e.indStride32 = false →
        ∀ row < n, isValid rs row = true → ¬ BeforeEra (dateStruct (rowData c rs row))) := by
  rcases @bulkAppendColumn_cases e c rs n arr hbuilt.bitmap with
    hleft | ⟨b, hbulk, hconverted⟩
  · have hagrees : Agrees e c rs n arr := by
      unfold Agrees
      rw [hleft]
      exact (ArrowArray.Appends.refl arr).same (ArrowArray.Appends.refl arr)
    refine iff_of_true hagrees ?_
    intro hk hsqllen hstride
    have hok := @bulkAppendColumn_date e c rs n arr hk hplanned
      ⟨hsqllen, hstride⟩
    rw [hleft] at hok
    cases hok
  · have hbappends := (converted_appends hconverted hbuilt htype hroom hlegal).2
    have hagrees : Agrees e c rs n arr ↔
        ∃ b', appendRows e c rs n arr = .ok b' ∧ b.Same b' := by
      unfold Agrees
      rw [hbulk]
    rw [hagrees]
    constructor
    · intro hsame hk hsqllen hstride row hrow hvalid
      obtain ⟨b', hrows, -⟩ := hsame
      rw [hk] at htype
      have hdates := (appendRows_date hk hplanned ⟨hsqllen, hstride⟩ htype hrows).2
      exact (dayNumber_inSigned_iff _).mp (hdates row hrow hvalid)
    · intro hdates
      obtain ⟨b', hrows, -, happends⟩ := appendRows_spec (n := n) (k := n) hbuilt htype
        hconverted.kind hplanned hconverted.wideLen fun row hrow mid hmid hvalid =>
          converted_rowFits hconverted hbuilt htype hroom hlegal hrow
            (fun hk => (dayNumber_inSigned_iff _).mpr
              (hdates hk hconverted.wideLen.1 hconverted.wideLen.2 row hrow hvalid)) hmid hvalid
      exact ⟨b', hrows, hbappends.same happends⟩

end Agreement

/-! ## The columns of a reader -/

theorem applyBindWidth_kept (opts : BindOptions) (d : Described) (c : Column) :
    (Sizing.applyBindWidth opts d c).kind = c.kind ∧
      (Sizing.applyBindWidth opts d c).cType = c.cType := by
  unfold Sizing.applyBindWidth
  dsimp only
  split_ifs <;> exact ⟨rfl, rfl⟩

/-- A kind goes with a C type of its own. -/
def Typed (c : Column) : Prop := c.cType = .fixed ↔ hasText c.kind = false

theorem typed_fixed {kind : FetchKind} (h : hasText kind = false) (bytes : Int) :
    Typed (Sizing.fixedColumn kind bytes) := iff_of_true rfl h

theorem typed_text {c : Column} (hkind : hasText c.kind = true)
    (htype : decide (c.cType = .fixed) = false) : Typed c := by
  refine iff_of_false (of_decide_eq_false htype) ?_
  rw [hkind]
  decide

theorem typed_applyBindWidth {opts : BindOptions} {d : Described} {c : Column} (h : Typed c) :
    Typed (Sizing.applyBindWidth opts d c) := by
  obtain ⟨hkind, htype⟩ := applyBindWidth_kept opts d c
  unfold Typed
  rw [hkind, htype]
  exact h

theorem typed_wideColumn (b : Build) (opts : BindOptions) (d : Described) :
    Typed (Sizing.wideColumn b opts d) := by
  unfold Sizing.wideColumn Sizing.utf8Column
  split_ifs
  · exact typed_applyBindWidth (typed_text rfl rfl)
  · exact typed_applyBindWidth (typed_text rfl rfl)
  · exact typed_applyBindWidth (c := { kind := .wchar, cType := .wchar, elemSize := _ })
      (typed_text rfl rfl)

theorem classifyColumn_typed (b : Build) (opts : BindOptions) (d : Described) :
    Typed (Sizing.classifyColumn b opts d) := by
  unfold Sizing.classifyColumn
  by_cases hbool : (Sizing.mayBeBool d.sqlType && d.typeNameIsBool) ∧ Sizing.sizeOf opts d ≤ 8
  · rw [if_pos hbool]
    exact typed_text rfl rfl
  · rw [if_neg hbool]
    cases d.sqlType with
    | wchar | wvarchar | wlongVarchar => exact typed_wideColumn b opts d
    | char | varchar | longVarchar | other =>
        unfold Sizing.narrowColumn
        dsimp only
        split_ifs
        · exact typed_wideColumn b opts d
        · exact typed_applyBindWidth (typed_text rfl rfl)
    | binary | varbinary | longVarbinary | blobIbm | blobAltibase | byteAltibase
    | varbyteAltibase => exact typed_applyBindWidth (typed_text rfl rfl)
    | decimal | numeric =>
        unfold Sizing.decimalColumn
        refine typed_text ?_ rfl
        dsimp only
        split_ifs <;> rfl
    | tinyint | smallint | integer | bigint =>
        dsimp only
        refine typed_fixed ?_ _
        split_ifs <;> rfl
    | typeTime | time | ssTime2 =>
        dsimp only
        split_ifs
        · exact typed_text rfl rfl
        · exact typed_text rfl rfl
        · exact typed_text rfl rfl
        · exact typed_fixed rfl _
    | typeTimestamp | timestamp =>
        dsimp only
        split_ifs
        · exact typed_text rfl rfl
        · exact typed_text rfl rfl
        · exact iff_of_true rfl rfl
    | typeTimeWithTimezone | ssTimestampOffset | typeTimestampWithTimezone | guid | interval =>
        exact typed_text rfl rfl
    | bit | real | float | double | typeDate | date => exact typed_fixed rfl _

/-- The bound columns of a reader are as the conversions take them. -/
theorem planned_of_describeColumns {b : Build} {opts : BindOptions} {ds : List Described}
    {c : Column} (hc : c ∈ Sizing.describeColumns b opts ds) (hbound : c.bound = true)
    (hsound : Sizing.Sound b opts c) : Planned b.wchar c := by
  obtain ⟨d, -, rfl⟩ := List.mem_map.mp (Sizing.mem_unbindAfter hc hbound)
  have hterminator := hsound.terminator
  constructor
  · exact classifyColumn_typed b opts d
  · unfold stride
    omega

/-! ## Dates -/

/-- A reader of a Unix driver with `SQLLEN` of 64 bits. -/
def unixEnv : Env where
  wchar := .two
  sqllen32 := false
  indStride32 := false
  getdataRepair := false
  getdataBound := false
  rowsPerFetch := 2
  scratch := fun _ => ArrowBuffer.init
  reread := fun _ => .ok none
  parseText := fun _ _ _ => .error { status := .invalidData, message := [] }
  overflowed := fun unit t => Int64.ofInt (ticks unit t)

def dateColumn : Column := Sizing.fixedColumn .date 6

/-- The 29th of February 2000, and NULL over what is left of an older row. -/
def leapDayRowset : Rowset where
  buffer := [0xD0, 0x07, 2, 0, 29, 0, 0xD0, 0x07, 3, 0, 0, 0]
  indicators := [6, 0, 0, 0, 0, 0, 0, 0, 255, 255, 255, 255, 255, 255, 255, 255]

/-- Day 0 of March 2000. -/
def dayZeroRowset : Rowset where
  buffer := [0xD0, 0x07, 3, 0, 0, 0]
  indicators := [6, 0, 0, 0, 0, 0, 0, 0]

theorem dateColumn_planned (w : SqlWchar) : Planned w dateColumn where
  typed := iff_of_true rfl rfl
  terminator := Nat.zero_le _

theorem dateColumn_fractions (rs : Rowset) (n : Nat) : LegalFractions dateColumn rs n := by
  intro hk
  cases hk

theorem leapDay_agrees :
    Agrees unixEnv dateColumn leapDayRowset 2 (ArrowArray.startAppending .int32) := by
  refine (bulkAppendColumn_agrees_iff (dateColumn_planned .two)
    (ArrowArray.startAppending_built .int32) rfl (by decide) (dateColumn_fractions _ _)).mpr ?_
  intro _ _ _ row hrow hvalid
  have hrows : ∀ row < 2, isValid leapDayRowset row = true →
      ¬ BeforeEra (dateStruct (rowData dateColumn leapDayRowset row)) := by decide
  exact hrows row hrow hvalid

/-- The bulk path makes it the 29th of February, and the per-value path fails. -/
theorem dayZero_differs :
    Planned .two dateColumn ∧ (ArrowArray.startAppending .int32).Built ∧
      stride dateColumn * 1 ≤ dayZeroRowset.buffer.length ∧
      LegalFractions dateColumn dayZeroRowset 1 ∧
      ¬ Agrees unixEnv dateColumn dayZeroRowset 1 (ArrowArray.startAppending .int32) := by
  refine ⟨dateColumn_planned .two, ArrowArray.startAppending_built .int32, by decide,
    dateColumn_fractions _ _, ?_⟩
  have hok := @bulkAppendColumn_date unixEnv _ dayZeroRowset 1
    (ArrowArray.startAppending .int32) rfl (dateColumn_planned .two) ⟨rfl, rfl⟩
  intro hagrees
  unfold Agrees at hagrees
  obtain ⟨status, b⟩ := bulkAppendColumn unixEnv dateColumn dayZeroRowset 1
    (ArrowArray.startAppending .int32)
  cases hok
  obtain ⟨b', hrows, -⟩ := hagrees
  have hdates := (appendRows_date rfl (dateColumn_planned .two) ⟨rfl, rfl⟩ rfl hrows).2
  exact absurd (hdates 0 (by decide) (by decide)) (by decide)

end AdbcBridge.Reader.Bulk
