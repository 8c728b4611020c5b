import AdbcBridge.Reader.Conversion
import AdbcBridge.Reader.PrefetchDelivery

/-!
# The rows of a result, each once

A driver that keeps the contract of a block cursor on the bytes of a result is read as its
values, in order and each row once, with a fetch thread or without one, where no wide value that
outgrows the buffer of its column is overtaken by its own text.
-/

namespace AdbcBridge.Reader

open AdbcBridge.Adbc AdbcBridge.Lib
open AdbcBridge.Reader.SharedReader (twoRowsOptions twoRowsColumn)
open AdbcBridge.Reader.Scratch (ChunkAnswer Conforming Undisturbed chunkedDriver
  chunkedDriver_conforming odbcReadLen_eq roomBytes roomBytes_pos repeatedUnit
  undisturbed_of_short appendUtf16_inPlace_iff)

section

variable {δ v : Type*} {K : Conversion v} {H : OdbcDriver δ} {opts : OdbcReaderOptions}
  {declared : List (List Char × Declared)} {B : ResultBytes} {value : Nat → Nat → v}
  {faults : Prop} {sees : δ → CursorView → Prop} {cursor : δ}

/-- On every driver that keeps the contract of a block cursor `ReaderNextBatch` delivers each
row once, whatever it repairs, resizes and unbinds on the way, and comes to its end. -/
theorem delivers_each_row_once
    (hcontract : KeepsContract H opts (describeColumns opts declared) B faults sees)
    (hconverts : Converts K (describeColumns opts declared) B faults value)
    (hintact : B.Intact (describeColumns opts declared)) (hopen : sees cursor {}) :
    (∀ n, DeliversInOrder opts declared.length
      (B.result (describeColumns opts declared) value) faults
      ((Session.advance (H.reading K opts (describeColumns opts declared)).logged)^[n]
        (Session.start (readerInit opts declared (cursor, []))))) ∧
    ∃ n, ((Session.advance (H.reading K opts (describeColumns opts declared)).logged)^[n]
      (Session.start (readerInit opts declared (cursor, [])))).outcome ≠ .reading :=
  session_inOrder (hcontract.follows hconverts hintact) hopen

/-- Whatever `adbc.odbc.prefetch` asks for, and in whatever order the two threads take their
steps, the batches are the rows of the result in order, each once. -/
theorem prefetch_delivers_each_row_once {prefetch : Nat} {trace : List Party}
    {s : SharedReader δ v}
    (hcontract : KeepsContract H opts (describeColumns opts declared) B faults sees)
    (hconverts : Converts K (describeColumns opts declared) B faults value)
    (hintact : B.Intact (describeColumns opts declared)) (hopen : sees cursor {})
    (run : Run (SharedReader.Step (H.reading K opts (describeColumns opts declared)))
      (SharedReader.start prefetch (readerInit opts declared cursor)) trace s) :
    s.DeliversInOrder opts declared.length (B.result (describeColumns opts declared) value)
      faults :=
  SharedReader.run_inOrder (hcontract.follows hconverts hintact) hopen run

end

/-! ## A table of bytes -/

/-- The rows of a table by their bytes. -/
structure ByteTable where
  rows : List (Nat → Option (List UInt8))
  scrolls : Bool

/-- What a bound buffer shows of a value. -/
def boundCell (c : OdbcColumn) : Option (List UInt8) → BoundCell
  | none => { ind := nullData, bytes := [] }
  | some x => { ind := x.length, bytes := x.take (boundValueCap c) }

/-- The calls that read a value, chunk by chunk. -/
def chunks (c : OdbcColumn) : Option (List UInt8) → List ChunkAnswer
  | none => [{ ret := .success, ind := nullData, written := [] }]
  | some x => (List.range (x.length + 1)).map (chunkedDriver .two c.cType x)

namespace ByteTable

variable (t : ByteTable) (cols : List OdbcColumn)

def result : ResultBytes where
  count := t.rows.length
  bytes row i := t.rows[row]?.bind fun values => values i

def rowset (base count : Nat) : BoundRowset where
  fetched := count
  status _ := .success
  cell row i := boundCell (described cols i) (t.result.bytes (base + row) i)

def driver : OdbcDriver TableCursor where
  toHandle := TableCursor.handle
  fetch s := s.fetch t.rows.length (t.rowset cols)
  fetchAbsolute s row := s.fetchAbsolute t.rows.length t.scrolls (t.rowset cols) row
  getData s i := (chunks (described cols i) (t.result.bytes (s.base + s.row) i), s)

variable {t cols} {opts : OdbcReaderOptions}

theorem boundCell_shown (c : OdbcColumn) (x : Option (List UInt8)) : Shown c (boundCell c x) x := by
  cases x with
  | none => exact .null rfl
  | some x =>
      by_cases hfits : x.length ≤ boundValueCap c
      · refine .whole hfits rfl ?_
        rw [boundCell, List.take_take, Nat.min_eq_left hfits, List.take_length]
      · exact .cut (not_le.mp hfits) (.inr rfl)

theorem inSigned_nullData : InSigned 32 nullData := by
  decide

theorem chunks_conforming (c : OdbcColumn) (sqllen32 : Bool) (x : List UInt8) :
    Conforming .two c.cType sqllen32 x (answerAt (chunks c (some x))) := by
  intro k hk
  have hroom := roomBytes_pos .two c.cType
  have hlt : k < x.length + 1 := by
    rcases hk with rfl | hk
    · omega
    · have hle : k ≤ k * roomBytes .two c.cType := Nat.le_mul_of_pos_right k hroom
      omega
  have hanswer : answerAt (chunks c (some x)) k = chunkedDriver .two c.cType x k := by
    simp [answerAt, chunks, hlt]
  rw [hanswer]
  exact chunkedDriver_conforming .two c.cType sqllen32 x k hk

theorem chunks_told (c : OdbcColumn) (sqllen32 : Bool) (x : Option (List UInt8)) :
    Told c sqllen32 (chunks c x) x := by
  cases x with
  | none => exact .null (.inl rfl) (odbcReadLen_eq inSigned_nullData sqllen32)
  | some x => exact .value (chunks_conforming c sqllen32 x)

theorem rowset_shows (hdeclared : ∀ row < t.rows.length, ∀ i < cols.length,
      (described cols i).clipped = false → ∀ x, t.result.bytes row i = some x →
        x.length ≤ boundValueCap (described cols i))
    (V : CursorView) {base k : Nat} (hfit : base + k ≤ t.rows.length) :
    ShowsBytes cols t.result False V (t.rowset cols base k) base k where
  count := fun _ => rfl
  status := fun _ _ => ⟨RowStatus.noConfusion, fun h => by cases h⟩
  shown := fun row _ i _ _ => boundCell_shown (described cols i) (t.result.bytes (base + row) i)
  declared := by
    intro row hrow i hi _ hclipped
    have hlong := hdeclared (base + row) (by omega) i hi hclipped
    change boundValueTruncated (described cols i)
      (boundCell (described cols i) (t.result.bytes (base + row) i)).ind = false
    generalize t.result.bytes (base + row) i = shown at hlong ⊢
    cases shown with
    | none => simp [boundCell, boundValueTruncated]
    | some x => exact not_truncated rfl (hlong x rfl)

/-- A table of values that are as wide as they are declared keeps the contract. -/
theorem keeps (htyped : ∀ row < t.rows.length, ∀ i < cols.length, ∀ x,
      t.result.bytes row i = some x → OfType (described cols i) x)
    (hdeclared : ∀ row < t.rows.length, ∀ i < cols.length,
      (described cols i).clipped = false → ∀ x, t.result.bytes row i = some x →
        x.length ≤ boundValueCap (described cols i))
    (hscrolls : opts.refetchRepair = true → t.scrolls = true) :
    KeepsContract (t.driver cols) opts cols t.result False (TableCursor.Sees t.rows.length) where
  toHandleContract := TableCursor.handle_contract opts t.rows.length
  typed := htyped
  within := fun hs => hs.next ▸ hs.within
  fetched := by
    intro s s' V rowset hs hcall
    obtain ⟨k, hpos, hsize, hcount, hrows, hs'⟩ := hs.fetch hcall
    exact ⟨k, hpos, hsize, hcount, hrows ▸ rowset_shows hdeclared V hcount, hs'⟩
  noData := fun hs hsize hcall => hs.noData hsize hcall
  notFetched := by
    intro s s' V e _ hcall
    exact TableCursor.fetch_answers s t.rows.length (t.rowset cols) e (congrArg Prod.fst hcall)
  scrolled := by
    intro s s' V n rowset hs hrefetch hsize hpos hle hcall
    obtain ⟨k, hfound, hk, hfits, hcount, hs'⟩ := hs.fetchAbsolute hsize hpos hle (t.rowset cols)
    rw [← hscrolls hrefetch] at hfound
    obtain ⟨hrows, hstate⟩ := Prod.mk.inj (hfound.symm.trans hcall)
    rw [← hstate, ← Except.ok.inj hrows]
    exact ⟨k, hk, hfits, hcount, rowset_shows hdeclared V hcount, hs'⟩
  notScrolled := by
    intro s s' V n e _ hrefetch hpos hle hcall
    have hfound : (t.driver cols).fetchAbsolute s n = (.ok _, _) :=
      if_pos ⟨hscrolls hrefetch, hpos, hle⟩
    cases hfound.symm.trans hcall
  read := by
    intro s s' V i answers hs hreadable hcall
    obtain ⟨hanswers, hstate⟩ := Prod.mk.inj hcall
    rw [← hstate, ← hanswers, ← hs.base, ← hs.row]
    refine .inr ⟨chunks_told _ _ _, ?_, hs.next, rfl, rfl, hs.size, hs.within⟩
    generalize t.result.bytes (s.base + s.row) i = shown
    intro hnone
    cases shown with
    | none => cases hnone
    | some x =>
        exfalso
        have hfirst : answerAt (chunks (described cols i) (some x)) 0 =
            chunkedDriver .two (described cols i).cType x 0 := by
          simp [answerAt, chunks]
        rw [hfirst] at hnone
        unfold chunkedDriver at hnone
        dsimp only at hnone
        split_ifs at hnone

end ByteTable

/-- The values are the bytes that are appended. -/
def bytesConversion : Conversion (Option (List UInt8)) where
  null := none
  append _ x := .ok (some x)
  bulk _ := some some

def ResultBytes.texts (B : ResultBytes) (cols : List OdbcColumn) (row i : Nat) :
    Option (List UInt8) :=
  (B.bytes row i).map (textBytes (described cols i))

theorem bytesConversion_converts (B : ResultBytes) (cols : List OdbcColumn) :
    Converts bytesConversion cols B False (B.texts cols) where
  append := by
    intro row _ i _
    unfold ResultBytes.texts
    cases B.bytes row i with
    | none => exact reads_value _ _
    | some x => exact reads_value _ _
  bulk := by
    intro row _ i _ x f hx hf
    unfold ResultBytes.texts
    rw [hx, ← Option.some.inj hf]
    rfl

/-! ## A wide column -/

/-- A reader that binds a column narrower than it is declared and scrolls back to repair. -/
def narrowOptions : OdbcReaderOptions where
  batchSize := 2
  batchSize_pos := Nat.two_pos
  maxBindBytes := 64
  longBindBytes := 8
  getdataBound := true
  refetchRepair := true

def wideDeclared : List (List Char × Declared) := [(['t'], .sized .wchar 200 100 false)]

def wideColumns : List OdbcColumn := describeColumns narrowOptions wideDeclared

/-- A table of one column. -/
def textTable (texts : List (List UInt8)) : ByteTable where
  rows := texts.map fun x _ => some x
  scrolls := true

/-- The driver of the table, as the reader sees it. -/
def wideReading (texts : List (List UInt8)) : Driver TableCursor (Option (List UInt8)) :=
  ((textTable texts).driver wideColumns).reading bytesConversion narrowOptions wideColumns

/-- The rows of the table as UTF-8. -/
def wideRows (texts : List (List UInt8)) : ResultSet (Option (List UInt8)) :=
  (textTable texts).result.result wideColumns ((textTable texts).result.texts wideColumns)

section

variable {texts : List (List UInt8)}

theorem textTable_mem {row i : Nat} {x : List UInt8}
    (h : (textTable texts).result.bytes row i = some x) : x ∈ texts := by
  obtain ⟨values, hvalues, hx⟩ := Option.bind_eq_some_iff.mp h
  obtain ⟨y, hy, hrow⟩ := List.mem_map.mp (List.mem_of_getElem? hvalues)
  rw [← hrow, Option.some.injEq] at hx
  exact hx ▸ hy

theorem wideTable_keeps (hwhole : ∀ x ∈ texts, 2 ∣ x.length) :
    KeepsContract ((textTable texts).driver wideColumns) narrowOptions wideColumns
      (textTable texts).result False (TableCursor.Sees texts.length) := by
  have hcount : (textTable texts).rows.length = texts.length := List.length_map _
  rw [← hcount]
  apply ByteTable.keeps
  · intro row _ i hi x hx
    have hzero : i = 0 := Nat.lt_one_iff.mp hi
    subst hzero
    exact ⟨fun hfixed => (by cases hfixed), fun _ => hwhole x (textTable_mem hx)⟩
  · intro row _ i hi hclipped
    have hzero : i = 0 := Nat.lt_one_iff.mp hi
    subst hzero
    cases hclipped
  · exact fun _ => rfl

theorem wideTable_intact (h : ∀ x ∈ texts, Undisturbed .two x) :
    (textTable texts).result.Intact wideColumns :=
  fun _ _ _ _ x hx _ _ _ => h x (textTable_mem hx)

end

/-- Three texts of ASCII, the second of which is longer than the buffer. -/
def letters : List (List UInt8) := [repeatedUnit 65 0 1, repeatedUnit 66 0 4, repeatedUnit 67 0 2]

theorem letters_undisturbed : ∀ x ∈ letters, Undisturbed .two x := by
  intro x hx
  apply undisturbed_of_short
  revert x
  decide

theorem letters_delivered :
    (∀ n, DeliversInOrder narrowOptions 1 (wideRows letters) False
      ((Session.advance (wideReading letters).logged)^[n]
        (Session.start (readerInit narrowOptions wideDeclared ({}, []))))) ∧
    ∃ n, ((Session.advance (wideReading letters).logged)^[n]
      (Session.start (readerInit narrowOptions wideDeclared ({}, [])))).outcome ≠ .reading :=
  delivers_each_row_once (wideTable_keeps (by decide)) (bytesConversion_converts _ _)
    (wideTable_intact letters_undisturbed) ⟨rfl, rfl, rfl, rfl, Nat.zero_le _⟩

/-- Four times U+4E2D, which is longer in UTF-8 than in the units it is read in. -/
def overtaken : List (List UInt8) := [repeatedUnit 0x2D 0x4E 4]

/-- The row is delivered as another one. -/
theorem overtaken_differs :
    KeepsContract ((textTable overtaken).driver wideColumns) narrowOptions wideColumns
      (textTable overtaken).result False (TableCursor.Sees 1) ∧
    Converts bytesConversion wideColumns (textTable overtaken).result False
      ((textTable overtaken).result.texts wideColumns) ∧
    ¬ ∀ n, DeliversInOrder narrowOptions 1 (wideRows overtaken) False
      ((Session.advance (wideReading overtaken).logged)^[n]
        (Session.start (readerInit narrowOptions wideDeclared ({}, [])))) := by
  refine ⟨wideTable_keeps (by decide), bytesConversion_converts _ _, fun h => ?_⟩
  have hdelivered := ((h 6).ended rfl).columns 0 Nat.one_pos
  have htype : OfType (described wideColumns 0) (repeatedUnit 0x2D 0x4E 4) :=
    ⟨fun hfixed => (by cases hfixed), fun _ => by decide⟩
  obtain ⟨read, hcollect, hcontent, -⟩ := @collect_value narrowOptions _ _ _ htype
    (ByteTable.chunks_conforming (described wideColumns 0) false _)
  have hread : (((Session.advance (wideReading overtaken).logged)^[6]
      (Session.start (readerInit narrowOptions wideDeclared ({}, [])))).delivered.flatMap
        fun b => b.columns 0) =
      [some (readBytes (described wideColumns 0) true (collect narrowOptions
        (described wideColumns 0) (chunks (described wideColumns 0)
          (some (repeatedUnit 0x2D 0x4E 4)))).2)] :=
    rfl
  rw [hread, hcollect] at hdelivered
  have hsame : readBytes (described wideColumns 0) true read =
      Scratch.textOf .two (repeatedUnit 0x2D 0x4E 4) :=
    Option.some.inj (List.head_eq_of_cons_eq hdelivered)
  rw [← hcontent] at hsame
  have hundisturbed := (appendUtf16_inPlace_iff .two read).mp hsame rfl
  rw [hcontent] at hundisturbed
  exact Scratch.repeatedUnit_overtaken 2 hundisturbed

/-! ## A fetch thread -/

/-- Two texts that fit in the buffer of a column of type `CHAR`. -/
def shortTexts : ByteTable := textTable [[65], [66, 67]]

def shortReading : Driver TableCursor (Option (List UInt8)) :=
  (shortTexts.driver (describeColumns twoRowsOptions twoRowsColumn)).reading bytesConversion
    twoRowsOptions (describeColumns twoRowsOptions twoRowsColumn)

theorem shortTexts_keeps :
    KeepsContract (shortTexts.driver (describeColumns twoRowsOptions twoRowsColumn)) twoRowsOptions
      (describeColumns twoRowsOptions twoRowsColumn) shortTexts.result False
      (TableCursor.Sees 2) := by
  apply ByteTable.keeps
  · intro row _ i hi x hx
    have hzero : i = 0 := Nat.lt_one_iff.mp hi
    subst hzero
    exact ⟨fun hfixed => (by cases hfixed), fun hwide => (by cases hwide)⟩
  · intro row _ i hi _ x hx
    have hzero : i = 0 := Nat.lt_one_iff.mp hi
    subst hzero
    have hshort : ∀ x ∈ [[65], [66, 67]], (x : List UInt8).length ≤ 2 := by
      decide
    exact (hshort x (textTable_mem hx)).trans (by decide)
  · intro h
    cases h

theorem shortTexts_intact :
    shortTexts.result.Intact (describeColumns twoRowsOptions twoRowsColumn) := by
  intro row _ i hi x _ hwide
  have hzero : i = 0 := Nat.lt_one_iff.mp hi
  subst hzero
  cases hwide

/-- The thread fetches both rows, and the caller delivers them. -/
theorem shortTexts_delivered : ∃ trace s,
    Run (SharedReader.Step shortReading)
      (SharedReader.start 1 (readerInit twoRowsOptions twoRowsColumn {})) trace s ∧
      s.session.delivered.length = 1 ∧
      s.DeliversInOrder twoRowsOptions 1
        (shortTexts.result.result (describeColumns twoRowsOptions twoRowsColumn)
          (shortTexts.result.texts (describeColumns twoRowsOptions twoRowsColumn))) False := by
  have begun : Run (SharedReader.Step shortReading)
      (SharedReader.start 1 (readerInit twoRowsOptions twoRowsColumn {})) [.caller] _ :=
    Run.nil.snoc (.begin true rfl rfl rfl)
  have fetched := ((begun.snoc (.room rfl rfl (by decide))).snoc (.bind rfl)).snoc (.fetch rfl)
  have taken := (fetched.snoc (.publish rfl rfl)).snoc
    (.take ⟨rfl, rfl, rfl, rfl⟩ nofun (by decide) rfl)
  have converted := (taken.snoc (.convert rfl rfl rfl)).snoc (.release rfl)
  have delivered := converted.snoc (.finish rfl rfl rfl rfl)
  exact ⟨_, _, delivered, rfl, prefetch_delivers_each_row_once shortTexts_keeps
    (bytesConversion_converts _ _) shortTexts_intact ⟨rfl, rfl, rfl, rfl, Nat.zero_le _⟩
    delivered⟩

end AdbcBridge.Reader
