import AdbcBridge.Adbc.ArrowBuffer
import AdbcBridge.Adbc.DateTime
import AdbcBridge.Reader.Convert

/-!
# Long values

`GetDataLong` reads one value with as many `SQLGetData` calls as it takes.  The answers of a
driver are those of its calls in turn, each with the same arguments.
-/

namespace AdbcBridge.Reader.Scratch

open AdbcBridge.Adbc AdbcBridge.Lib

/-- The builds of `SQLWCHAR`: UTF-16 units of two bytes, or four bytes. -/
inductive SqlWchar where
  | two
  | four
deriving DecidableEq, Repr

/-- `sizeof(SQLWCHAR)`. -/
def SqlWchar.bytes : SqlWchar → Nat
  | .two => 2
  | .four => 4

/-- `term`. -/
def termBytes (w : SqlWchar) : CType → Nat
  | .char => 1
  | .wchar => w.bytes
  | _ => 0

/-- `chunk`. -/
def chunkBytes : Nat := 65536

/-- What a chunk holds of a value that it does not hold all of. -/
def roomBytes (w : SqlWchar) (cType : CType) : Nat := chunkBytes - termBytes w cType

theorem termBytes_le (w : SqlWchar) (cType : CType) : termBytes w cType ≤ 4 := by
  cases cType <;> cases w <;> decide

theorem roomBytes_add (w : SqlWchar) (cType : CType) :
    roomBytes w cType + termBytes w cType = chunkBytes := by
  have hterm := termBytes_le w cType
  unfold roomBytes chunkBytes
  omega

theorem roomBytes_pos (w : SqlWchar) (cType : CType) : 0 < roomBytes w cType := by
  have hterm := termBytes_le w cType
  unfold roomBytes chunkBytes
  omega

inductive SqlReturn where
  | success
  | successWithInfo
  | noData
  | error (e : AdbcError)
deriving DecidableEq

/-- One `SQLGetData` call: the return code, the bytes of the `SQLLEN` it set, the bytes it
wrote from the buffer's start, and the SQLSTATE of the first diagnostic if there is one. -/
structure ChunkAnswer where
  ret : SqlReturn
  ind : Int
  written : List UInt8
  diag : Option (List Char) := none

/-- `OdbcReadLen`. -/
def odbcReadLen (sqllen32 : Bool) (ind : Int) : Int :=
  if sqllen32 then signedCast 32 ind else ind

/-- The SQLSTATE of a truncation. -/
def truncationState : List Char := "01004".toList

/-- `got`. -/
def gotBytes (w : SqlWchar) (cType : CType) (ind : Int) : Nat :=
  if ind = noTotal ∨ ind < 0 ∨ (chunkBytes : Int) ≤ ind then roomBytes w cType else ind.toNat

theorem gotBytes_le (w : SqlWchar) (cType : CType) (ind : Int) :
    gotBytes w cType ind ≤ chunkBytes := by
  have hroom := roomBytes_add w cType
  unfold gotBytes
  split <;> omega

/-- The buffer behind one call: the room reserved and what the driver wrote in it. -/
def filled (scratch : ArrowBuffer) (written : List UInt8) : ArrowBuffer :=
  (scratch.reserve chunkBytes).write scratch.sizeBytes written

theorem filled_room (scratch : ArrowBuffer) (written : List UInt8) {got : Nat}
    (hgot : got ≤ chunkBytes) :
    scratch.sizeBytes + got ≤ (filled scratch written).data.length := by
  have hroom := scratch.reserve_room chunkBytes
  have hlength := le_length_overlay (scratch.reserve chunkBytes).data written scratch.sizeBytes
  unfold filled ArrowBuffer.write
  dsimp only
  omega

/-- `GetDataLong`: whether the value is NULL, and the scratch buffer.  `k` counts the calls,
and `none` is a loop that has not ended with the calls it was given. -/
def getDataLoop (w : SqlWchar) (cType : CType) (sqllen32 : Bool) (noData : Option AdbcError)
    (answers : Nat → ChunkAnswer) :
    Nat → Nat → ArrowBuffer → Option (Except AdbcError Bool × ArrowBuffer)
  | 0, _, _ => none
  | fuel + 1, k, scratch =>
      let a := answers k
      let ind := odbcReadLen sqllen32 a.ind
      let buffer := filled scratch a.written
      let next := buffer.setSize (scratch.sizeBytes + gotBytes w cType ind)
        (filled_room scratch a.written (gotBytes_le w cType ind))
      match a.ret with
      | .noData =>
          match noData with
          | some e => if k = 0 then some (.error e, buffer) else some (.ok false, buffer)
          | none => some (.ok false, buffer)
      | .error e => some (.error e, buffer)
      | .success =>
          if ind = nullData then some (.ok true, buffer) else some (.ok false, next)
      | .successWithInfo =>
          if ind = nullData then some (.ok true, buffer)
          else if a.diag = some truncationState then
            getDataLoop w cType sqllen32 noData answers fuel (k + 1) next
          else some (.ok false, next)

/-- `GetDataLong` on a cursor of so many rows per fetch; `noData` is what it reports when the
first call has no data for a row of a larger rowset. -/
def getDataLong (w : SqlWchar) (c : OdbcColumn) (sqllen32 : Bool) (rowsPerFetch row : Nat)
    (answers : Nat → ChunkAnswer) (fuel : Nat) (scratch : ArrowBuffer) :
    Option (Except AdbcError Bool × ArrowBuffer) :=
  let noData := if 1 < rowsPerFetch then some (noDataError c.name row) else none
  getDataLoop w c.cType sqllen32 noData answers fuel 0 scratch.clear

/-! ## A driver that conforms -/

/-- A call of a conforming driver that has `left` of the value still to give.  The last chunk
may leave anything behind its terminator. -/
inductive Answers (w : SqlWchar) (cType : CType) (sqllen32 : Bool) (left : List UInt8)
    (a : ChunkAnswer) : Prop where
  | last (pad : List UInt8) (fits : left.length + termBytes w cType ≤ chunkBytes)
      (ind : odbcReadLen sqllen32 a.ind = left.length)
      (written : a.written = left ++ (List.replicate (termBytes w cType) 0 ++ pad))
      (inBuffer : a.written.length ≤ chunkBytes)
      (ret : a.ret = .success ∨ a.ret = .successWithInfo ∧ a.diag ≠ some truncationState)
  | truncated (long : chunkBytes < left.length + termBytes w cType)
      (ind : odbcReadLen sqllen32 a.ind = noTotal ∨ odbcReadLen sqllen32 a.ind = left.length)
      (written : a.written =
        left.take (roomBytes w cType) ++ List.replicate (termBytes w cType) 0)
      (ret : a.ret = .successWithInfo) (diag : a.diag = some truncationState)

/-- Every call there is room for answers with what the calls before it have left. -/
def Conforming (w : SqlWchar) (cType : CType) (sqllen32 : Bool) (value : List UInt8)
    (answers : Nat → ChunkAnswer) : Prop :=
  ∀ k, k = 0 ∨ k * roomBytes w cType < value.length →
    Answers w cType sqllen32 (value.drop (k * roomBytes w cType)) (answers k)

/-- A wide value has no half units. -/
def WholeUnits (w : SqlWchar) (cType : CType) (value : List UInt8) : Prop :=
  cType = .wchar → w.bytes ∣ value.length

/-- A driver that never tells the length of what it cuts. -/
def chunkedDriver (w : SqlWchar) (cType : CType) (value : List UInt8) (k : Nat) : ChunkAnswer :=
  let left := value.drop (k * roomBytes w cType)
  if left.length + termBytes w cType ≤ chunkBytes then
    { ret := .success
      ind := left.length
      written := left ++ (List.replicate (termBytes w cType) 0 ++ []) }
  else
    { ret := .successWithInfo
      ind := noTotal
      written := left.take (roomBytes w cType) ++ List.replicate (termBytes w cType) 0
      diag := some truncationState }

theorem odbcReadLen_eq {n : Int} (h : InSigned 32 n) (sqllen32 : Bool) :
    odbcReadLen sqllen32 n = n := by
  unfold odbcReadLen
  split
  · exact signedCast_eq (by omega) h
  · rfl

/-- Every value can be given by a driver that conforms. -/
theorem chunkedDriver_conforming (w : SqlWchar) (cType : CType) (sqllen32 : Bool)
    (value : List UInt8) :
    Conforming w cType sqllen32 value (chunkedDriver w cType value) := by
  intro k _
  unfold chunkedDriver
  dsimp only
  generalize value.drop (k * roomBytes w cType) = left
  split
  · rename_i fits
    refine .last [] fits ?_ rfl ?_ (.inl rfl)
    · have hint : InSigned 32 left.length := by
        unfold chunkBytes at fits
        unfold InSigned
        omega
      exact odbcReadLen_eq hint sqllen32
    · dsimp only
      rw [List.append_nil, List.length_append, List.length_replicate]
      exact fits
  · rename_i long
    have hint : InSigned 32 noTotal := by decide
    exact .truncated (by omega) (.inl (odbcReadLen_eq hint sqllen32)) rfl rfl rfl

theorem gotBytes_last {w : SqlWchar} {cType : CType} {n : Nat}
    (h : n + termBytes w cType ≤ chunkBytes) : gotBytes w cType n = n := by
  have hroom := roomBytes_add w cType
  unfold gotBytes noTotal
  split
  · omega
  · omega

/-- A truncated chunk is taken for full, whichever size the driver reports. -/
theorem gotBytes_truncated {w : SqlWchar} {cType : CType} {left : List UInt8} {ind : Int}
    (hwhole : WholeUnits w cType left) (hlong : chunkBytes < left.length + termBytes w cType)
    (hind : ind = noTotal ∨ ind = left.length) : gotBytes w cType ind = roomBytes w cType := by
  have hle : chunkBytes ≤ left.length := by
    unfold WholeUnits at hwhole
    cases cType with
    | char =>
        simp only [termBytes] at hlong
        omega
    | wchar =>
        have hdvd := hwhole rfl
        unfold chunkBytes at hlong ⊢
        cases w with
        | two =>
            simp only [termBytes, SqlWchar.bytes] at hlong hdvd
            omega
        | four =>
            simp only [termBytes, SqlWchar.bytes] at hlong hdvd
            omega
    | binary =>
        simp only [termBytes] at hlong
        omega
    | fixed =>
        simp only [termBytes] at hlong
        omega
  unfold gotBytes
  rw [if_pos]
  rcases hind with hind | hind
  · exact .inl hind
  · exact .inr (.inr (by omega))

theorem wholeUnits_drop {w : SqlWchar} {cType : CType} {value : List UInt8}
    (h : WholeUnits w cType value) (k : Nat) :
    WholeUnits w cType (value.drop (k * roomBytes w cType)) := by
  rintro rfl
  have hroom : w.bytes ∣ roomBytes w .wchar := by cases w <;> decide
  rw [List.length_drop]
  exact Nat.dvd_sub (h rfl) (hroom.mul_left k)

/-- A chunk goes behind what the buffer had. -/
theorem filled_content (scratch : ArrowBuffer) (written : List UInt8) {got : Nat}
    (hgot : got ≤ chunkBytes) (hwritten : got ≤ written.length) :
    ((filled scratch written).setSize (scratch.sizeBytes + got)
      (filled_room scratch written hgot)).content = scratch.content ++ written.take got := by
  have hsize : scratch.sizeBytes ≤ (scratch.reserve chunkBytes).data.length := by
    have hroom := scratch.reserve_room chunkBytes
    omega
  have hbefore := scratch.reserve_content chunkBytes
  unfold ArrowBuffer.content at hbefore ⊢
  rw [ArrowBuffer.reserve_sizeBytes] at hbefore
  rw [← hbefore]
  exact take_overlay_le hsize hwritten

/-- The loop from its `k`-th call on, when the calls before it have filled the buffer with
what they gave: each call takes the next stretch of the value, and the last one ends it. -/
theorem getDataLoop_exact {w : SqlWchar} {cType : CType} {sqllen32 : Bool}
    (noData : Option AdbcError) {value : List UInt8} {answers : Nat → ChunkAnswer}
    (hwhole : WholeUnits w cType value) (hanswers : Conforming w cType sqllen32 value answers)
    (fuel : Nat) :
    ∀ (k : Nat) (scratch : ArrowBuffer),
      k = 0 ∨ k * roomBytes w cType < value.length →
      value.length < k * roomBytes w cType + fuel →
      scratch.content = value.take (k * roomBytes w cType) →
      ∃ scratch', getDataLoop w cType sqllen32 noData answers fuel k scratch =
          some (.ok false, scratch') ∧ scratch'.content = value := by
  have hpos := roomBytes_pos w cType
  induction fuel with
  | zero =>
      intro k scratch hk hfuel
      rcases hk with rfl | hk
      · omega
      · omega
  | succ fuel ih =>
      intro k scratch hk hfuel hcontent
      have hunits := wholeUnits_drop hwhole k
      unfold getDataLoop
      cases hanswers k hk with
      | last pad fits ind written inBuffer ret =>
          have hgot := gotBytes_last fits
          have hnull : odbcReadLen sqllen32 (answers k).ind ≠ nullData := by
            rw [ind]
            unfold nullData
            omega
          have hnext := filled_content scratch (answers k).written
            (gotBytes_le w cType (odbcReadLen sqllen32 (answers k).ind)) (by
              rw [ind, hgot, written, List.length_append]
              omega)
          have hall : scratch.content ++
              (answers k).written.take
                (gotBytes w cType (odbcReadLen sqllen32 (answers k).ind)) = value := by
            rw [ind, hgot, written, List.take_left, hcontent, List.take_append_drop]
          rcases ret with ret | ⟨ret, hdiag⟩
          · refine ⟨_, ?_, hnext.trans hall⟩
            simp only [ret, hnull, if_false]
          · refine ⟨_, ?_, hnext.trans hall⟩
            simp only [ret, hnull, hdiag, if_false]
      | truncated long ind written ret diag =>
          have hgot := gotBytes_truncated hunits long ind
          have hroom := roomBytes_add w cType
          have hlong : k * roomBytes w cType + roomBytes w cType < value.length := by
            rw [List.length_drop] at long
            omega
          have htake : ((value.drop (k * roomBytes w cType)).take (roomBytes w cType)).length =
              roomBytes w cType := by
            rw [List.length_take, List.length_drop]
            omega
          have hnull : odbcReadLen sqllen32 (answers k).ind ≠ nullData := by
            unfold noTotal at ind
            unfold nullData
            omega
          have hnext := filled_content scratch (answers k).written
            (gotBytes_le w cType (odbcReadLen sqllen32 (answers k).ind)) (by
              rw [hgot, written, List.length_append, htake]
              omega)
          have hall : scratch.content ++
              (answers k).written.take
                (gotBytes w cType (odbcReadLen sqllen32 (answers k).ind)) =
              value.take ((k + 1) * roomBytes w cType) := by
            rw [hgot, written, hcontent, List.take_left' htake, Nat.add_mul, one_mul,
              List.take_add]
          simp only [ret, hnull, diag, if_true, if_false]
          exact ih (k + 1) _ (.inr (by rw [Nat.add_mul]; omega))
            (by rw [Nat.add_mul]; omega) (hnext.trans hall)

/-- The value as the calls give it: `GetDataLong` ends, and its buffer holds the value. -/
theorem getDataLong_exact {w : SqlWchar} {c : OdbcColumn} {sqllen32 : Bool}
    (rowsPerFetch row : Nat) {value : List UInt8} {answers : Nat → ChunkAnswer}
    (hwhole : WholeUnits w c.cType value)
    (hanswers : Conforming w c.cType sqllen32 value answers) (scratch : ArrowBuffer)
    {fuel : Nat} (hfuel : value.length < fuel) :
    ∃ scratch', getDataLong w c sqllen32 rowsPerFetch row answers fuel scratch =
      some (.ok false, scratch') ∧ scratch'.content = value := by
  refine getDataLoop_exact _ hwhole hanswers fuel 0 scratch.clear (.inl rfl) ?_ ?_
  · omega
  · rw [zero_mul, List.take_zero]
    exact scratch.clear_content

/-- A text of 70000 bytes, with lengths of four bytes. -/
theorem getDataLong_exact_twoChunks :
    ∃ scratch', getDataLong .two { name := [], cType := .char, elemSize := 0 } true 1 0
        (chunkedDriver .two .char (List.replicate 70000 65)) 70001 ArrowBuffer.init =
      some (.ok false, scratch') ∧ scratch'.content = List.replicate 70000 65 := by
  apply getDataLong_exact 1 0
  · intro hwide
    cases hwide
  · exact chunkedDriver_conforming .two .char true _
  · rw [List.length_replicate]
    omega

end AdbcBridge.Reader.Scratch
