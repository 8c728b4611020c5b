import AdbcBridge.Lib.Utf16
import AdbcBridge.Reader.GetDataLong

/-!
# Wide values

`AppendValue` for a `SQL_C_WCHAR` column: `Utf16ToUtf8` writes a value as UTF-8 into a buffer,
which is the scratch buffer when the column is bound.  A value that did not fit its bound
buffer has been read again into that same buffer, so the loop writes over the units it has
still to read; a reservation in between lets the buffer grow where it is.
-/

namespace AdbcBridge.Reader.Scratch

open AdbcBridge.Adbc AdbcBridge.Lib AdbcBridge.Lib.Utf16

/-- A little-endian number. -/
def littleEndian (bytes : List UInt8) : Nat := bytes.foldr (fun b acc => b.toNat + 256 * acc) 0

/-- `w[i]`, of units from the start of the memory. -/
def unitAt (w : SqlWchar) (mem : List UInt8) (i : Nat) : Nat :=
  littleEndian ((mem.drop (w.bytes * i)).take w.bytes)

/-- The code point of `Utf16ToUtf8` at the `i`-th of `n` units, and the units it takes. -/
def decodeAt (w : SqlWchar) (mem : List UInt8) (n i : Nat) : Nat × Nat :=
  let cp := unitAt w mem i
  if w = .four ∧ 0x10FFFF < cp then (0xFFFD, 1)
  else if 0xD800 ≤ cp ∧ cp ≤ 0xDBFF then
    let lo := if i + 1 < n then unitAt w mem (i + 1) else 0
    if 0xDC00 ≤ lo ∧ lo ≤ 0xDFFF then (0x10000 + ((cp - 0xD800) <<< 10) + (lo - 0xDC00), 2)
    else (0xFFFD, 1)
  else if 0xDC00 ≤ cp ∧ cp ≤ 0xDFFF then (0xFFFD, 1)
  else (cp, 1)

/-- The bytes that `Utf16ToUtf8` writes for a code point. -/
def encodeUtf8 (cp : Nat) : List UInt8 :=
  if cp < 0x80 then [cp.toUInt8]
  else if cp < 0x800 then [(0xC0 ||| (cp >>> 6)).toUInt8, (0x80 ||| (cp &&& 0x3F)).toUInt8]
  else if cp < 0x10000 then
    [(0xE0 ||| (cp >>> 12)).toUInt8, (0x80 ||| ((cp >>> 6) &&& 0x3F)).toUInt8,
      (0x80 ||| (cp &&& 0x3F)).toUInt8]
  else
    [(0xF0 ||| (cp >>> 18)).toUInt8, (0x80 ||| ((cp >>> 12) &&& 0x3F)).toUInt8,
      (0x80 ||| ((cp >>> 6) &&& 0x3F)).toUInt8, (0x80 ||| (cp &&& 0x3F)).toUInt8]

/-- The unit behind the `i`-th, or 0 at the end. -/
def nextUnit (w : SqlWchar) (mem : List UInt8) (n i : Nat) : Nat :=
  if i + 1 < n then unitAt w mem (i + 1) else 0

theorem littleEndian_lt (bytes : List UInt8) : littleEndian bytes < 256 ^ bytes.length := by
  induction bytes with
  | nil => decide
  | cons b bytes ih =>
      have hb := b.toNat_lt
      have hcons : littleEndian (b :: bytes) = b.toNat + 256 * littleEndian bytes := rfl
      rw [hcons, List.length_cons, Nat.pow_succ]
      omega

theorem unitAt_lt (w : SqlWchar) (mem : List UInt8) (i : Nat) :
    unitAt w mem i < 256 ^ w.bytes := by
  calc
    unitAt w mem i < 256 ^ ((mem.drop (w.bytes * i)).take w.bytes).length := littleEndian_lt _
    _ ≤ 256 ^ w.bytes := Nat.pow_le_pow_right (by omega) (List.length_take_le _ _)

/-- Whatever the memory holds, a character is read from it. -/
theorem decodeAt_eq (w : SqlWchar) (mem : List UInt8) (n i : Nat) :
    decodeAt w mem n i =
      ((span (unitAt w mem i) (nextUnit w mem n i)).1.toNat,
        (span (unitAt w mem i) (nextUnit w mem n i)).2) := by
  have hlt := unitAt_lt w mem i
  unfold decodeAt nextUnit
  dsimp only
  generalize unitAt w mem i = u at hlt ⊢
  generalize (if i + 1 < n then unitAt w mem (i + 1) else 0) = v
  unfold span
  by_cases hpair : IsHigh u ∧ IsLow v
  · obtain ⟨hhigh, hlow⟩ := hpair
    have hrange : ¬ (w = .four ∧ 0x10FFFF < u) := by
      unfold IsHigh at hhigh
      omega
    have hboth : IsHigh u ∧ IsLow v := ⟨hhigh, hlow⟩
    have hh : 0xD800 ≤ u ∧ u ≤ 0xDBFF := hhigh
    have hl : 0xDC00 ≤ v ∧ v ≤ 0xDFFF := hlow
    rw [if_neg hrange, if_pos hboth, if_pos hh, if_pos hl, pair_toNat hhigh hlow,
      Nat.shiftLeft_eq]
  · rw [if_neg hpair, scalar_toNat]
    unfold Nat.isValidChar
    unfold IsHigh IsLow at hpair
    split
    · rw [if_neg (by omega)]
    · rename_i hrange
      split
      · rw [if_neg (by omega), if_neg (by omega)]
      · split
        · rw [if_neg (by omega)]
        · have hunit : u < 0x110000 := by
            cases w with
            | two =>
                norm_num [SqlWchar.bytes] at hlt
                omega
            | four =>
                simp at hrange
                omega
          rw [if_pos (by omega)]

theorem decodeAt_units (w : SqlWchar) (mem : List UInt8) (n i : Nat) :
    0 < (decodeAt w mem n i).2 := by
  rw [decodeAt_eq]
  have hunits := span_units (unitAt w mem i) (nextUnit w mem n i)
  dsimp only
  omega

/-- The memory that the units are in: that of the output, or one of their own. -/
def unitMemory (inPlace : Bool) (src out : List UInt8) : List UInt8 := if inPlace then out else src

/-- `Utf16ToUtf8` from the `i`-th unit and the `k`-th byte on. -/
def utf16ToUtf8 (w : SqlWchar) (inPlace : Bool) (src : List UInt8) (n i k : Nat)
    (out : List UInt8) : List UInt8 × Nat :=
  if i < n then
    let read := decodeAt w (unitMemory inPlace src out) n i
    let bytes := encodeUtf8 read.1
    utf16ToUtf8 w inPlace src n (i + read.2) (k + bytes.length) (overlay out k bytes)
  else (out, k)
termination_by n - i
decreasing_by
  have hunits := decodeAt_units w (unitMemory inPlace src out) n i
  omega

/-- Of units of two bytes, how many were read can be told from the character. -/
theorem decodeAt_char (w : SqlWchar) (mem : List UInt8) (n i : Nat) :
    ∃ (c : Char) (units : Nat), decodeAt w mem n i = (c.toNat, units) ∧
      (units = 1 ∨ units = 2) ∧ (w = .two → (units = 2 ↔ 0x10000 ≤ c.toNat)) := by
  refine ⟨_, _, decodeAt_eq w mem n i, span_units _ _, ?_⟩
  rintro rfl
  exact span_units_iff (unitAt_lt .two mem i)

/-- `Utf16Utf8MaxBytes`. -/
def utf16Utf8MaxBytes (w : SqlWchar) (units : Nat) : Nat :=
  units * if w.bytes < 4 then 3 else 4

/-- `AppendUtf16`: the string it appends, and the buffer it was put together in. -/
def appendUtf16 (w : SqlWchar) (inPlace : Bool) (src : List UInt8) (n : Nat)
    (scratch : ArrowBuffer) : List UInt8 × List UInt8 :=
  let scratch := scratch.clear.reserve (utf16Utf8MaxBytes w n + 1)
  let written := utf16ToUtf8 w inPlace src n 0 0 scratch.data
  (written.1.take written.2, written.1)

/-- `BoundValueCap`. -/
def boundValueCap (w : SqlWchar) (c : OdbcColumn) : Nat := c.elemSize - termBytes w c.cType

/-- `BoundValueTruncated`. -/
def boundValueTruncated (w : SqlWchar) (c : OdbcColumn) (ind : Int) : Bool :=
  decide (c.cType ≠ .fixed ∧ ind ≠ nullData ∧
    (ind = noTotal ∨ ind < 0 ∨ (boundValueCap w c : Int) < ind))

/-- What `AppendValue` goes by for one value of a wide column: the indicator and the bytes of
the bound buffer, what positioning on the row comes to, and the answers of `SQLGetData`. -/
structure WideCell where
  ind : Int
  held : List UInt8
  position : Option AdbcError := none
  answers : Nat → ChunkAnswer

/-- The bytes of a value, by where they are. -/
inductive Located where
  | inBuffer (len : Nat)
  | inScratch (scratch : ArrowBuffer)

/-- The string that `AppendValue` appends for the bytes, in a `FETCH_WCHAR` column. -/
def appendWchar (w : SqlWchar) (bound : Bool) (cell : WideCell) (scratch : ArrowBuffer) :
    Located → List UInt8
  | .inBuffer len => (appendUtf16 w false cell.held (len / w.bytes) scratch).1
  | .inScratch read =>
      -- only an unbound column gets a buffer of its own for the output
      if bound then (appendUtf16 w true [] (read.sizeBytes / w.bytes) read).1
      else (appendUtf16 w false read.data (read.sizeBytes / w.bytes) ArrowBuffer.init).1

/-- `AppendValue` for a wide column; `none` in the result is NULL, and `none` outside is a
`GetDataLong` that has not ended. -/
def appendValue (w : SqlWchar) (opts : OdbcReaderOptions) (sqllen32 : Bool)
    (rowsPerFetch row : Nat) (c : OdbcColumn) (cell : WideCell) (fuel : Nat)
    (scratch : ArrowBuffer) : Option (Except AdbcError (Option (List UInt8))) :=
  let reread : Option (Except AdbcError (Option (List UInt8))) :=
    match getDataLong w c sqllen32 rowsPerFetch row cell.answers fuel scratch with
    | none => none
    | some (.error e, _) => some (.error e)
    | some (.ok true, _) => some (.ok none)
    | some (.ok false, read) =>
        some (.ok (some (appendWchar w c.bound cell read (.inScratch read))))
  let inBuffer (len : Nat) : Option (Except AdbcError (Option (List UInt8))) :=
    some (.ok (if cell.ind = nullData then none
      else some (appendWchar w c.bound cell scratch (.inBuffer len))))
  if c.bound then
    if boundValueTruncated w c cell.ind then
      if opts.getdataRepair || (decide (rowsPerFetch ≤ 1) && opts.getdataBound) then
        match cell.position with
        | some e => some (.error e)
        | none => reread
      else
        inBuffer (if cell.ind = noTotal ∨ cell.ind < 0 then 0 else boundValueCap w c)
    else
      inBuffer (if cell.ind = noTotal ∨ cell.ind < 0 then 0 else cell.ind.toNat)
  else reread

/-! ## The bytes of a character -/

theorem or_of_lt {a b i : Nat} (hb : b < 2 ^ i) : 2 ^ i * a ||| b = 2 ^ i * a + b :=
  (Nat.two_pow_add_eq_or_of_lt hb a).symm

/-- The bytes that are written for a character are its UTF-8. -/
theorem encodeUtf8_eq (c : Char) : encodeUtf8 c.toNat = String.utf8EncodeChar c := by
  have hlast : ∀ v : Nat, 0x80 ||| (v &&& 0x3F) = v % 64 + 0x80 := by
    intro v
    rw [Nat.and_two_pow_sub_one_eq_mod v 6]
    have hor : 0x80 ||| v % 64 = 0x80 + v % 64 :=
      or_of_lt (a := 2) (i := 6) (Nat.mod_lt _ (by decide))
    exact hor.trans (Nat.add_comm _ _)
  have hfirst : ∀ v : Nat, v < 32 → 0xC0 ||| v = v % 32 + 0xC0 := by
    intro v hv
    have hor : 0xC0 ||| v = 0xC0 + v := or_of_lt (a := 6) (i := 5) hv
    omega
  have hsecond : ∀ v : Nat, v < 16 → 0xE0 ||| v = v % 16 + 0xE0 := by
    intro v hv
    have hor : 0xE0 ||| v = 0xE0 + v := or_of_lt (a := 14) (i := 4) hv
    omega
  have hthird : ∀ v : Nat, v < 8 → 0xF0 ||| v = v % 8 + 0xF0 := by
    intro v hv
    have hor : 0xF0 ||| v = 0xF0 + v := or_of_lt (a := 30) (i := 3) hv
    omega
  have hvalid : c.toNat < 0x110000 := by
    have hc := c.valid
    unfold UInt32.isValidChar Nat.isValidChar at hc
    unfold Char.toNat
    omega
  unfold encodeUtf8 String.utf8EncodeChar
  have hval : c.val.toNat = c.toNat := rfl
  dsimp only
  rw [hval]
  generalize c.toNat = v at hvalid ⊢
  simp only [Nat.shiftRight_eq_div_pow, hlast]
  by_cases hone : v < 0x80
  · have hone' : v ≤ 0x7F := by omega
    rw [if_pos hone, if_pos hone']
  · have hone' : ¬ v ≤ 0x7F := by omega
    rw [if_neg hone, if_neg hone']
    by_cases htwo : v < 0x800
    · have htwo' : v ≤ 0x7FF := by omega
      rw [if_pos htwo, if_pos htwo', hfirst (v / 2 ^ 6) (by omega)]
    · have htwo' : ¬ v ≤ 0x7FF := by omega
      rw [if_neg htwo, if_neg htwo']
      by_cases hthree : v < 0x10000
      · have hthree' : v ≤ 0xFFFF := by omega
        rw [if_pos hthree, if_pos hthree', hsecond (v / 2 ^ 12) (by omega)]
      · have hthree' : ¬ v ≤ 0xFFFF := by omega
        rw [if_neg hthree, if_neg hthree', hthird (v / 2 ^ 18) (by omega)]

/-! ## The loop -/

/-- The units of a value. -/
def unitsOf (w : SqlWchar) (bytes : List UInt8) : List Nat :=
  (List.range (bytes.length / w.bytes)).map (unitAt w bytes)

theorem length_unitsOf (w : SqlWchar) (bytes : List UInt8) :
    (unitsOf w bytes).length = bytes.length / w.bytes := by
  unfold unitsOf
  rw [List.length_map, List.length_range]

/-- The characters of a value. -/
def charsOf (w : SqlWchar) (bytes : List UInt8) : List (Char × Nat) := spans (unitsOf w bytes)

/-- From the unit that the loop is at, the first character of the rest is read. -/
theorem decodeAt_chars {w : SqlWchar} {bytes : List UInt8} {pre suf : List (Char × Nat)}
    {x : Char × Nat} (h : charsOf w bytes = pre ++ x :: suf) :
    width pre < bytes.length / w.bytes ∧
      decodeAt w bytes (bytes.length / w.bytes) (width pre) = (x.1.toNat, x.2) := by
  have hrest := spans_drop h
  have hlt : width pre < (unitsOf w bytes).length := by
    by_contra hend
    rw [List.drop_eq_nil_of_le (by omega)] at hrest
    cases hrest
  have hnext : ((unitsOf w bytes).drop (width pre + 1)).headD 0 =
      nextUnit w bytes (bytes.length / w.bytes) (width pre) := by
    unfold nextUnit unitsOf
    by_cases hmore : width pre + 1 < bytes.length / w.bytes
    · rw [if_pos hmore, List.headD_eq_head?_getD, List.head?_drop, List.getElem?_map,
        List.getElem?_range hmore]
      rfl
    · rw [if_neg hmore, List.drop_eq_nil_of_le]
      · rfl
      · rw [List.length_map, List.length_range]
        omega
  rw [List.drop_eq_getElem_cons hlt, spans_cons, hnext, List.cons.injEq] at hrest
  have hunit : (unitsOf w bytes)[width pre] = unitAt w bytes (width pre) := by
    simp [unitsOf]
  rw [length_unitsOf] at hlt
  refine ⟨hlt, ?_⟩
  rw [decodeAt_eq, ← hrest.1, hunit]

theorem width_chars (w : SqlWchar) (bytes : List UInt8) :
    bytes.length / w.bytes ≤ width (charsOf w bytes) := by
  have hrest := spans_drop (List.append_nil (charsOf w bytes)).symm
  have hnil := List.drop_eq_nil_iff.mp (spans_eq_nil hrest)
  rwa [length_unitsOf] at hnil

theorem encoded_snoc (pre : List (Char × Nat)) (x : Char × Nat) :
    encoded (pre ++ [x]) = encoded pre ++ encodeUtf8 x.1.toNat := by
  rw [encoded_append, encoded_singleton, encodeUtf8_eq]

theorem width_snoc (pre : List (Char × Nat)) (x : Char × Nat) :
    width (pre ++ [x]) = width pre + x.2 := by
  rw [width_append]
  simp [width]

theorem overlay_zero_append (mem a b : List UInt8) :
    overlay (overlay mem 0 a) a.length b = overlay mem 0 (a ++ b) := by
  have happend := overlay_append (Nat.zero_le mem.length) a b
  rwa [Nat.zero_add] at happend

/-- One round of the loop, from the place it has come to with `done` written. -/
theorem utf16ToUtf8_step {w : SqlWchar} {inPlace : Bool} {src out done : List UInt8} {n i : Nat}
    (hi : i < n) {cp units : Nat}
    (hread : decodeAt w (unitMemory inPlace src (overlay out 0 done)) n i = (cp, units)) :
    utf16ToUtf8 w inPlace src n i done.length (overlay out 0 done) =
      utf16ToUtf8 w inPlace src n (i + units) (done ++ encodeUtf8 cp).length
        (overlay out 0 (done ++ encodeUtf8 cp)) := by
  rw [utf16ToUtf8, if_pos hi]
  dsimp only
  rw [hread, overlay_zero_append, List.length_append]

/-- The character that is read behind what has been written of the characters before it is
the one the value has there, for each of them. -/
def ReadsThrough (w : SqlWchar) (mem : List UInt8 → List UInt8) (bytes : List UInt8) : Prop :=
  ∀ pre x suf, charsOf w bytes = pre ++ x :: suf →
    decodeAt w (mem (encoded pre)) (bytes.length / w.bytes) (width pre) = (x.1.toNat, x.2)

/-- The loop goes through the characters of the value, if it reads them. -/
theorem utf16ToUtf8_exact {w : SqlWchar} {inPlace : Bool} {src out bytes : List UInt8}
    (hreads : ReadsThrough w (fun done => unitMemory inPlace src (overlay out 0 done)) bytes)
    (suf : List (Char × Nat)) :
    ∀ pre, charsOf w bytes = pre ++ suf →
      utf16ToUtf8 w inPlace src (bytes.length / w.bytes) (width pre) (encoded pre).length
          (overlay out 0 (encoded pre)) =
        (overlay out 0 (encoded (charsOf w bytes)), (encoded (charsOf w bytes)).length) := by
  induction suf with
  | nil =>
      intro pre hpre
      have hend := width_chars w bytes
      rw [List.append_nil] at hpre
      rw [hpre] at hend ⊢
      rw [utf16ToUtf8, if_neg (by omega)]
  | cons x suf ih =>
      intro pre hpre
      have hlt := (decodeAt_chars hpre).1
      rw [utf16ToUtf8_step hlt (hreads pre x suf hpre), ← encoded_snoc, ← width_snoc]
      exact ih (pre ++ [x]) (by rw [hpre, List.append_assoc, List.singleton_append])

/-- A character is no longer in UTF-8 than `Utf16Utf8MaxBytes` allows for its units. -/
theorem utf8Size_le_maxBytes {w : SqlWchar} {c : Char} {units : Nat}
    (hunits : units = 1 ∨ units = 2) (htwo : w = .two → (units = 2 ↔ 0x10000 ≤ c.toNat)) :
    c.utf8Size ≤ utf16Utf8MaxBytes w units := by
  have hfour := c.utf8Size_le_four
  unfold utf16Utf8MaxBytes
  cases w with
  | four =>
      rw [if_neg (by decide)]
      omega
  | two =>
      rw [if_pos (by decide)]
      rcases hunits with rfl | rfl
      · have hlt : c.toNat < 0x10000 := by
          have hiff := htwo rfl
          omega
        have hthree := utf8Size_scalar_le hlt
        rw [scalar_of_toNat] at hthree
        omega
      · omega

/-- A pair is not read across the end. -/
theorem decodeAt_within {w : SqlWchar} {n i : Nat} (hi : i < n) (mem : List UInt8) :
    i + (decodeAt w mem n i).2 ≤ n := by
  have hunits := span_units (unitAt w mem i) (nextUnit w mem n i)
  rw [decodeAt_eq]
  unfold nextUnit at hunits ⊢
  by_cases hmore : i + 1 < n
  · dsimp only
    omega
  · have hlow : ¬ (IsHigh (unitAt w mem i) ∧ IsLow 0) := fun h => absurd h.2 (by decide)
    unfold span
    rw [if_neg hmore, if_neg hlow]
    dsimp only
    omega

/-- Whatever the loop reads, it goes on writing characters, within the bytes that are reserved
for the units that are left. -/
theorem utf16ToUtf8_extends (w : SqlWchar) (inPlace : Bool) (src out : List UInt8) (n : Nat) :
    ∀ (left i : Nat) (done : List UInt8), n - i ≤ left →
      ∃ cs, utf16ToUtf8 w inPlace src n i done.length (overlay out 0 done) =
          (overlay out 0 (done ++ utf8 cs), (done ++ utf8 cs).length) ∧
        (utf8 cs).length ≤ utf16Utf8MaxBytes w (n - i) := by
  intro left
  induction left with
  | zero =>
      intro i done hleft
      refine ⟨[], ?_, Nat.zero_le _⟩
      have hnone : utf8 [] = [] := rfl
      rw [utf16ToUtf8, if_neg (by omega), hnone, List.append_nil]
  | succ left ih =>
      intro i done hleft
      by_cases hi : i < n
      · obtain ⟨c, units, hread, hunits, htwo⟩ :=
          decodeAt_char w (unitMemory inPlace src (overlay out 0 done)) n i
        obtain ⟨cs, hcs, hbound⟩ := ih (i + units) (done ++ encodeUtf8 c.toNat) (by omega)
        have hcons : utf8 (c :: cs) = encodeUtf8 c.toNat ++ utf8 cs := by
          rw [encodeUtf8_eq]
          rfl
        refine ⟨c :: cs, ?_, ?_⟩
        · rw [utf16ToUtf8_step hi hread, hcs, hcons, List.append_assoc]
        · have hwithin := decodeAt_within hi
            (unitMemory inPlace src (overlay out 0 done)) (w := w)
          rw [hread] at hwithin
          have hlength : (utf8 (c :: cs)).length = c.utf8Size + (utf8 cs).length := by
            rw [hcons, List.length_append, encodeUtf8_eq, String.length_utf8EncodeChar]
          calc
            (utf8 (c :: cs)).length = c.utf8Size + (utf8 cs).length := hlength
            _ ≤ utf16Utf8MaxBytes w units + utf16Utf8MaxBytes w (n - (i + units)) :=
              Nat.add_le_add (utf8Size_le_maxBytes hunits htwo) hbound
            _ = utf16Utf8MaxBytes w (n - i) := by
              unfold utf16Utf8MaxBytes
              rw [← Nat.add_mul]
              congr 1
              dsimp only at hwithin
              omega
      · refine ⟨[], ?_, Nat.zero_le _⟩
        have hnone : utf8 [] = [] := rfl
        rw [utf16ToUtf8, if_neg hi, hnone, List.append_nil]

/-- The text of what the loop has written. -/
theorem take_overlay_zero (mem done : List UInt8) :
    (overlay mem 0 done).take done.length = done := by
  have htake := take_overlay (Nat.zero_le mem.length) done
  rwa [Nat.zero_add, List.take_zero, List.nil_append] at htake

/-- With two-byte units the loop writes the value's text only if it reads its characters. -/
theorem utf16ToUtf8_reads {inPlace : Bool} {src out bytes : List UInt8}
    (suf : List (Char × Nat)) :
    ∀ pre, charsOf .two bytes = pre ++ suf →
      (∀ written, utf16ToUtf8 .two inPlace src (bytes.length / 2) (width pre)
          (encoded pre).length (overlay out 0 (encoded pre)) = written →
        written.1.take written.2 = encoded (charsOf .two bytes)) →
      ∀ mid x rest, suf = mid ++ x :: rest →
        decodeAt .two (unitMemory inPlace src (overlay out 0 (encoded (pre ++ mid))))
          (bytes.length / 2) (width (pre ++ mid)) = (x.1.toNat, x.2) := by
  induction suf with
  | nil =>
      intro pre _ _ mid x rest hsplit
      simp at hsplit
  | cons y suf ih =>
      intro pre hpre hrun mid x rest hsplit
      obtain ⟨hlt, hvalue⟩ := decodeAt_chars hpre
      obtain ⟨d, units', hread', hunits', htwo'⟩ :=
        decodeAt_char .two bytes (bytes.length / 2) (width pre)
      have hsame : (y.1.toNat, y.2) = (d.toNat, units') := hvalue.symm.trans hread'
      rw [Prod.mk.injEq] at hsame
      -- what is read must be the next character, since it is written and the text is right
      have hfirst : decodeAt .two (unitMemory inPlace src (overlay out 0 (encoded pre)))
          (bytes.length / 2) (width pre) = (y.1.toNat, y.2) := by
        obtain ⟨c, units, hread, hunits, htwo⟩ := decodeAt_char .two
          (unitMemory inPlace src (overlay out 0 (encoded pre))) (bytes.length / 2) (width pre)
        obtain ⟨cs, hcs, -⟩ := utf16ToUtf8_extends .two inPlace src out (bytes.length / 2)
          (bytes.length / 2) (width pre + units) (encoded pre ++ encodeUtf8 c.toNat) (by omega)
        have htext := hrun _ ((utf16ToUtf8_step hlt hread).trans hcs)
        have hcons : encoded (y :: suf) = String.utf8EncodeChar y.1 ++ encoded suf := rfl
        rw [take_overlay_zero, hpre, encoded_append, List.append_assoc, hcons,
          encodeUtf8_eq] at htext
        have hchar := (utf8EncodeChar_append_inj (List.append_cancel_left htext)).1
        rw [hread, hchar]
        rw [hchar] at htwo
        have hcount := htwo rfl
        have hcount' := htwo' rfl
        rw [hsame.2]
        rw [← hsame.1] at hcount'
        congr 1
        omega
      cases mid with
      | nil =>
          rw [List.nil_append, List.cons.injEq] at hsplit
          rw [List.append_nil, ← hsplit.1]
          exact hfirst
      | cons z mid =>
          rw [List.cons_append, List.cons.injEq] at hsplit
          rw [← hsplit.1, ← List.singleton_append, ← List.append_assoc]
          refine ih (pre ++ [y]) ?_ ?_ mid x rest hsplit.2
          · rw [hpre, List.append_assoc, List.singleton_append]
          · intro written hwritten
            apply hrun
            rw [← hwritten, encoded_snoc, width_snoc]
            exact utf16ToUtf8_step hlt hfirst

/-! ## What is written over -/

theorem unitAt_congr {w : SqlWchar} {a b : List UInt8} {m i : Nat} (h : a.take m = b.take m)
    (hi : w.bytes * i + w.bytes ≤ m) : unitAt w a i = unitAt w b i := by
  have hcut : ∀ l : List UInt8, (l.drop (w.bytes * i)).take w.bytes =
      ((l.take m).take (w.bytes * i + w.bytes)).drop (w.bytes * i) := by
    intro l
    rw [List.take_take, Nat.min_eq_left hi, List.drop_take, Nat.add_sub_cancel_left]
  unfold unitAt
  rw [hcut a, hcut b, h]

/-- A unit of the value is read from the bytes of the value. -/
theorem decodeAt_congr {w : SqlWchar} {a b bytes : List UInt8} {i : Nat}
    (h : a.take bytes.length = b.take bytes.length) (hi : i < bytes.length / w.bytes) :
    decodeAt w a (bytes.length / w.bytes) i = decodeAt w b (bytes.length / w.bytes) i := by
  have hunit : ∀ j, j < bytes.length / w.bytes → unitAt w a j = unitAt w b j := by
    intro j hj
    apply unitAt_congr h
    calc
      w.bytes * j + w.bytes = w.bytes * (j + 1) := (Nat.mul_succ _ _).symm
      _ ≤ w.bytes * (bytes.length / w.bytes) := Nat.mul_le_mul_left _ hj
      _ ≤ bytes.length := Nat.mul_div_le _ _
  have hnext : nextUnit w a (bytes.length / w.bytes) i =
      nextUnit w b (bytes.length / w.bytes) i := by
    unfold nextUnit
    split
    · rename_i hmore
      exact hunit _ hmore
    · rfl
  rw [decodeAt_eq, decodeAt_eq, hunit i hi, hnext]

theorem readsThrough_congr {w : SqlWchar} {f g : List UInt8 → List UInt8} {bytes : List UInt8}
    (h : ∀ done, (f done).take bytes.length = (g done).take bytes.length) :
    ReadsThrough w f bytes ↔ ReadsThrough w g bytes := by
  constructor
  · intro hreads pre x suf hsplit
    rw [← decodeAt_congr (h _) (decodeAt_chars hsplit).1]
    exact hreads pre x suf hsplit
  · intro hreads pre x suf hsplit
    rw [decodeAt_congr (h _) (decodeAt_chars hsplit).1]
    exact hreads pre x suf hsplit

theorem take_overlay_of_take {mem bytes : List UInt8} (h : mem.take bytes.length = bytes)
    (done : List UInt8) :
    (overlay mem 0 done).take bytes.length = (overlay bytes 0 done).take bytes.length := by
  have hsplit := List.take_append_drop bytes.length mem
  rw [h] at hsplit
  rw [← hsplit]
  generalize mem.drop bytes.length = rest
  unfold overlay
  rw [List.take_zero, List.take_zero, List.nil_append, Nat.zero_add, List.take_append,
    List.take_append, List.drop_append]
  congr 1
  rw [List.take_append_of_le_length]
  rw [List.length_drop]

/-- The value's characters are read behind the UTF-8 of those before them, when that is
written over the value's own bytes. -/
def Undisturbed (w : SqlWchar) (bytes : List UInt8) : Prop :=
  ReadsThrough w (overlay bytes 0) bytes

/-- What is written does not reach the unit that is read next. -/
theorem unitAt_overlay {w : SqlWchar} {bytes done : List UInt8} {i j : Nat}
    (h : done.length ≤ w.bytes * i) (hj : i ≤ j) :
    unitAt w (overlay bytes 0 done) j = unitAt w bytes j := by
  have hle : done.length ≤ w.bytes * j := h.trans (Nat.mul_le_mul_left _ hj)
  have hdrop : (overlay bytes 0 done).drop (w.bytes * j) = bytes.drop (w.bytes * j) := by
    unfold overlay
    rw [List.take_zero, List.nil_append, Nat.zero_add, List.drop_append,
      List.drop_eq_nil_of_le hle, List.nil_append, List.drop_drop, Nat.add_sub_cancel' hle]
  unfold unitAt
  rw [hdrop]

/-- A value of characters that are no longer in UTF-8 than in the units they took is not
disturbed: with two-byte units, one without a character of U+0800 to U+FFFF. -/
theorem undisturbed_of_short {w : SqlWchar} {bytes : List UInt8}
    (h : ∀ x ∈ charsOf w bytes, (String.utf8EncodeChar x.1).length ≤ w.bytes * x.2) :
    Undisturbed w bytes := by
  intro pre x suf hsplit
  have hshort : (encoded pre).length ≤ w.bytes * width pre := by
    have hpre : ∀ y ∈ pre, (String.utf8EncodeChar y.1).length ≤ w.bytes * y.2 := by
      intro y hy
      exact h y (by rw [hsplit]; exact List.mem_append_left _ hy)
    clear hsplit h
    induction pre with
    | nil => exact Nat.zero_le _
    | cons y pre ih =>
        have hrest := ih fun z hz => hpre z (List.mem_cons_of_mem _ hz)
        have hy := hpre y List.mem_cons_self
        have hlength : (encoded (y :: pre)).length =
            (String.utf8EncodeChar y.1).length + (encoded pre).length := List.length_append
        have hwidth : width (y :: pre) = y.2 + width pre := by simp [width]
        rw [hlength, hwidth, Nat.mul_add]
        omega
  obtain ⟨-, hread⟩ := decodeAt_chars hsplit
  rw [← hread, decodeAt_eq, decodeAt_eq]
  unfold nextUnit
  rw [unitAt_overlay hshort (Nat.le_refl _), unitAt_overlay hshort (Nat.le_succ _)]

/-- Units of four bytes have room for every character. -/
theorem undisturbed_four (bytes : List UInt8) : Undisturbed .four bytes := by
  apply undisturbed_of_short
  intro x hx
  obtain ⟨pre, suf, hsplit⟩ := List.append_of_mem hx
  obtain ⟨c, units, hread, hunits, -⟩ :=
    decodeAt_char .four bytes (bytes.length / 4) (width pre)
  have hsame : (x.1.toNat, x.2) = (c.toNat, units) :=
    (decodeAt_chars hsplit).2.symm.trans hread
  rw [Prod.mk.injEq] at hsame
  have hsize := x.1.utf8Size_le_four
  rw [String.length_utf8EncodeChar, hsame.2]
  unfold SqlWchar.bytes
  dsimp only
  omega

/-! ## The strings that are appended -/

/-- The UTF-8 of a value's units. -/
def textOf (w : SqlWchar) (bytes : List UInt8) : List UInt8 := encoded (charsOf w bytes)

theorem utf16ToUtf8_start {w : SqlWchar} {inPlace : Bool} {src out bytes : List UInt8}
    (hreads : ReadsThrough w (fun done => unitMemory inPlace src (overlay out 0 done)) bytes) :
    utf16ToUtf8 w inPlace src (bytes.length / w.bytes) 0 0 out =
      (overlay out 0 (textOf w bytes), (textOf w bytes).length) := by
  have hrun := utf16ToUtf8_exact hreads (charsOf w bytes) [] rfl
  have hnone : encoded [] = [] := rfl
  rwa [hnone, overlay_nil] at hrun

/-- `Utf16Utf8MaxBytes` has room for every text. -/
theorem length_textOf_le (w : SqlWchar) (bytes : List UInt8) :
    (textOf w bytes).length ≤ utf16Utf8MaxBytes w (bytes.length / w.bytes) := by
  rw [← length_unitsOf]
  unfold utf16Utf8MaxBytes
  rw [Nat.mul_comm]
  cases w with
  | two =>
      apply length_encoded_spans_le (by decide)
      intro u hu
      unfold unitsOf at hu
      obtain ⟨i, -, rfl⟩ := List.mem_map.mp hu
      exact utf8Size_scalar_le (unitAt_lt .two bytes i)
  | four =>
      apply length_encoded_spans_le (by decide)
      intro u _
      exact (scalar u).utf8Size_le_four

/-- Units apart from the output are transcoded exactly. -/
theorem utf16ToUtf8_apart {w : SqlWchar} {src bytes : List UInt8}
    (h : src.take bytes.length = bytes) (out : List UInt8) :
    utf16ToUtf8 w false src (bytes.length / w.bytes) 0 0 out =
      (overlay out 0 (textOf w bytes), (textOf w bytes).length) := by
  have hreads : ReadsThrough w (fun _ => src) bytes := by
    rw [readsThrough_congr (g := fun _ => bytes)]
    · intro pre x suf hsplit
      exact (decodeAt_chars hsplit).2
    · intro done
      rw [h, List.take_length]
  exact utf16ToUtf8_start hreads

/-- Units with a buffer of their own are transcoded exactly. -/
theorem appendUtf16_apart {w : SqlWchar} {src bytes : List UInt8}
    (h : src.take bytes.length = bytes) (scratch : ArrowBuffer) :
    (appendUtf16 w false src (bytes.length / w.bytes) scratch).1 = textOf w bytes := by
  unfold appendUtf16
  dsimp only
  rw [utf16ToUtf8_apart h, take_overlay_zero]

/-- Units in the buffer that is written are transcoded exactly if and only if they are not
disturbed. -/
theorem appendUtf16_inPlace_iff (w : SqlWchar) (read : ArrowBuffer) :
    (appendUtf16 w true [] (read.sizeBytes / w.bytes) read).1 = textOf w read.content ↔
      (w = .two → Undisturbed .two read.content) := by
  have hlength := read.length_content
  have hclear : read.clear.data = read.data := rfl
  obtain ⟨fresh, hdata⟩ :=
    read.clear.reserve_data (utf16Utf8MaxBytes w (read.sizeBytes / w.bytes) + 1)
  have hmem : (read.clear.reserve
      (utf16Utf8MaxBytes w (read.sizeBytes / w.bytes) + 1)).data.take read.content.length =
        read.content := by
    rw [hdata, hclear, hlength, List.take_append_of_le_length read.size_le]
    rfl
  unfold appendUtf16
  dsimp only
  rw [← hlength] at hmem ⊢
  generalize (read.clear.reserve _).data = mem at hmem ⊢
  have hsame : ReadsThrough w (fun done => unitMemory true [] (overlay mem 0 done)) read.content ↔
      Undisturbed w read.content := by
    apply readsThrough_congr
    exact take_overlay_of_take hmem
  constructor
  · rintro htext rfl
    rw [← hsame]
    intro pre x suf hsplit
    have hnone : encoded [] = [] := rfl
    have hpre := @utf16ToUtf8_reads true [] mem read.content (charsOf .two read.content) [] rfl
      ?_ pre x suf hsplit
    · exact hpre
    · rintro written rfl
      rw [hnone, overlay_nil]
      exact htext
  · intro hundisturbed
    have hreads : Undisturbed w read.content := by
      cases w with
      | two => exact hundisturbed rfl
      | four => exact undisturbed_four _
    rw [utf16ToUtf8_start (hsame.mpr hreads), take_overlay_zero]

/-- A value of a bound wide column that overflowed its buffer is read again with
`SQLGetData`, and `read` is what `GetDataLong` has collected. -/
structure Repaired (w : SqlWchar) (opts : OdbcReaderOptions) (sqllen32 : Bool)
    (rowsPerFetch row : Nat) (c : OdbcColumn) (cell : WideCell) (fuel : Nat)
    (scratch read : ArrowBuffer) : Prop where
  bound : c.bound = true
  wide : c.cType = .wchar
  truncated : boundValueTruncated w c cell.ind = true
  repair : (opts.getdataRepair || (decide (rowsPerFetch ≤ 1) && opts.getdataBound)) = true
  positioned : cell.position = none
  collected : getDataLong w c sqllen32 rowsPerFetch row cell.answers fuel scratch =
    some (.ok false, read)

theorem appendValue_repaired {w : SqlWchar} {opts : OdbcReaderOptions} {sqllen32 : Bool}
    {rowsPerFetch row : Nat} {c : OdbcColumn} {cell : WideCell} {fuel : Nat}
    {scratch read : ArrowBuffer}
    (h : Repaired w opts sqllen32 rowsPerFetch row c cell fuel scratch read) :
    appendValue w opts sqllen32 rowsPerFetch row c cell fuel scratch =
      some (.ok (some (appendUtf16 w true [] (read.sizeBytes / w.bytes) read).1)) := by
  unfold appendValue
  dsimp only
  rw [if_pos h.bound, if_pos h.truncated, if_pos h.repair, h.positioned, h.collected]
  unfold appendWchar
  dsimp only
  rw [if_pos h.bound]

/-- The string appended for a value that was read again is the UTF-8 of the units that were
collected, if and only if these are not disturbed or a unit has four bytes; the same column,
not bound, always gives that string. -/
theorem wide_repaired_iff {w : SqlWchar} {opts : OdbcReaderOptions} {sqllen32 : Bool}
    {rowsPerFetch row : Nat} {c : OdbcColumn} {cell : WideCell} {fuel : Nat}
    {scratch read : ArrowBuffer}
    (h : Repaired w opts sqllen32 rowsPerFetch row c cell fuel scratch read) :
    (appendValue w opts sqllen32 rowsPerFetch row c cell fuel scratch =
        some (.ok (some (textOf w read.content))) ↔
      (w = .two → Undisturbed .two read.content)) ∧
    appendValue w opts sqllen32 rowsPerFetch row { c with bound := false } cell fuel scratch =
      some (.ok (some (textOf w read.content))) := by
  have hlength := read.length_content
  have hunbound : getDataLong w { c with bound := false } sqllen32 rowsPerFetch row cell.answers
      fuel scratch = some (.ok false, read) := h.collected
  constructor
  · rw [← appendUtf16_inPlace_iff, appendValue_repaired h, Option.some.injEq, Except.ok.injEq,
      Option.some.injEq]
  · unfold appendValue
    dsimp only
    rw [if_neg (by decide), hunbound]
    unfold appendWchar
    dsimp only
    rw [if_neg (by decide), ← hlength, appendUtf16_apart]
    rw [hlength]
    rfl

/-- A column of `NVARCHAR`s, bound at the default width. -/
def wideColumn : OdbcColumn where
  name := "t".toList
  cType := .wchar
  elemSize := 2048

def wideOptions : OdbcReaderOptions where
  batchSize := 1
  batchSize_pos := by decide
  getdataBound := true

/-- A value of so many times the same unit. -/
def repeatedUnit (low high : UInt8) (count : Nat) : List UInt8 :=
  (List.replicate count [low, high]).flatten

/-- The value as a conforming driver gives it. -/
def wideCell (value : List UInt8) : WideCell where
  ind := value.length
  held := value.take 2046
  answers := chunkedDriver .two .wchar value

theorem length_repeatedUnit (low high : UInt8) (count : Nat) :
    (repeatedUnit low high count).length = 2 * count := by
  unfold repeatedUnit
  rw [List.length_flatten, List.map_replicate, List.sum_replicate]
  exact Nat.mul_comm _ _

/-- A long value of one unit is one that is read again. -/
theorem repeatedUnit_repaired (low high : UInt8) {count : Nat} (h : 1023 < count) :
    ∃ read, Repaired .two wideOptions false 1 0 wideColumn (wideCell (repeatedUnit low high count))
        (2 * count + 1) ArrowBuffer.init read ∧
      read.content = repeatedUnit low high count := by
  have hlength := length_repeatedUnit low high count
  have hwhole : WholeUnits .two .wchar (repeatedUnit low high count) := by
    intro _
    rw [hlength]
    exact Nat.dvd_mul_right 2 count
  obtain ⟨read, hread, hcontent⟩ :=
    getDataLoop_exact none hwhole (chunkedDriver_conforming .two .wchar false _) (2 * count + 1) 0
      ArrowBuffer.init.clear (.inl rfl) (by omega) (by rw [zero_mul]; rfl)
  refine ⟨read, ⟨rfl, rfl, ?_, rfl, rfl, hread⟩, hcontent⟩
  apply decide_eq_true
  have hind : (wideCell (repeatedUnit low high count)).ind = 2 * count := by
    unfold wideCell
    rw [hlength]
    exact Nat.cast_mul 2 count
  have hcap : boundValueCap .two wideColumn = 2046 := rfl
  rw [hind, hcap]
  unfold nullData
  exact ⟨by decide, by omega, .inr (.inr (by omega))⟩

theorem spans_replicate {u : Nat} (hu : ¬ IsHigh u) (count : Nat) :
    spans (List.replicate count u) = List.replicate count (scalar u, 1) := by
  induction count with
  | zero => rfl
  | succ count ih =>
      have hspan : ∀ v, span u v = (scalar u, 1) := by
        intro v
        unfold span
        rw [if_neg fun hpair => hu hpair.1]
      rw [List.replicate_succ, spans_cons, hspan, List.drop_one, List.tail_cons, ih,
        List.replicate_succ]

theorem charsOf_repeatedUnit {low high : UInt8} (h : ¬ IsHigh (low.toNat + 256 * high.toNat))
    (count : Nat) :
    charsOf .two (repeatedUnit low high count) =
      List.replicate count (scalar (low.toNat + 256 * high.toNat), 1) := by
  rw [← spans_replicate h]
  have hunits : unitsOf .two (repeatedUnit low high count) =
      List.replicate count (low.toNat + 256 * high.toNat) := by
    rw [List.eq_replicate_iff, length_unitsOf, length_repeatedUnit]
    refine ⟨Nat.mul_div_cancel_left count (by decide), fun u hu => ?_⟩
    obtain ⟨i, hi, rfl⟩ := List.mem_map.mp hu
    rw [List.mem_range, length_repeatedUnit, SqlWchar.bytes,
      Nat.mul_div_cancel_left count (by decide)] at hi
    obtain ⟨more, rfl⟩ := Nat.exists_eq_add_of_lt hi
    have hsplit : repeatedUnit low high (i + more + 1) =
        repeatedUnit low high i ++ (low :: high :: repeatedUnit low high more) := by
      unfold repeatedUnit
      rw [Nat.add_assoc, List.replicate_add, List.flatten_append, List.replicate_succ,
        List.flatten_cons]
      rfl
    have hlength := length_repeatedUnit low high i
    unfold unitAt
    rw [hsplit, SqlWchar.bytes, ← hlength, List.drop_left]
    simp [littleEndian]
  unfold charsOf
  rw [hunits]

/-- Letters of ASCII are read again as they are. -/
theorem wide_repaired_ascii :
    ∃ read, Repaired .two wideOptions false 1 0 wideColumn (wideCell (repeatedUnit 65 0 1024)) 2049
        ArrowBuffer.init read ∧
      read.content = repeatedUnit 65 0 1024 ∧
      appendValue .two wideOptions false 1 0 wideColumn (wideCell (repeatedUnit 65 0 1024)) 2049
        ArrowBuffer.init = some (.ok (some (textOf .two read.content))) := by
  have hlong : 1023 < 1024 := by decide
  obtain ⟨read, hread, hcontent⟩ := repeatedUnit_repaired 65 0 hlong
  refine ⟨read, hread, hcontent, ?_⟩
  refine (wide_repaired_iff hread).1.mpr fun _ => ?_
  rw [hcontent]
  apply undisturbed_of_short
  intro x hx
  rw [charsOf_repeatedUnit (by decide)] at hx
  rw [List.eq_of_mem_replicate hx]
  decide

/-- The UTF-8 of U+4E2D takes three bytes and overtakes the unit behind it. -/
theorem repeatedUnit_overtaken (count : Nat) :
    ¬ Undisturbed .two (repeatedUnit 0x2D 0x4E (count + 2)) := by
  intro hsame
  have hchars : charsOf .two (repeatedUnit 0x2D 0x4E (count + 2)) =
      [(scalar 0x4E2D, 1)] ++ (scalar 0x4E2D, 1) :: List.replicate count (scalar 0x4E2D, 1) := by
    have hunits : (0x2D : UInt8).toNat + 256 * (0x4E : UInt8).toNat = 0x4E2D := by decide
    rw [charsOf_repeatedUnit (by decide), hunits, List.replicate_succ, List.replicate_succ,
      List.singleton_append]
  have hsecond := hsame _ _ _ hchars
  have hunit : unitAt .two
      (overlay (repeatedUnit 0x2D 0x4E (count + 2)) 0 (encoded [(scalar 0x4E2D, 1)])) 1 =
        0x4EAD := by
    have htwo : ((overlay (repeatedUnit 0x2D 0x4E (count + 2)) 0
        (encoded [(scalar 0x4E2D, 1)])).drop 2).take 2 = [0xAD, 0x4E] :=
      rfl
    exact (congrArg littleEndian htwo).trans (by decide)
  have hwidth : width [(scalar 0x4E2D, 1)] = 1 := rfl
  unfold decodeAt at hsecond
  rw [hwidth, hunit, if_neg (by decide), if_neg (by decide), if_neg (by decide)] at hsecond
  exact absurd (congrArg Prod.fst hsecond) (by decide)

/-- 1024 times U+4E2D, the first unit of which is overtaken by three bytes. -/
theorem wide_repaired_overtaken :
    ∃ read, Repaired .two wideOptions false 1 0 wideColumn
        (wideCell (repeatedUnit 0x2D 0x4E 1024)) 2049 ArrowBuffer.init read ∧
      read.content = repeatedUnit 0x2D 0x4E 1024 ∧
      appendValue .two wideOptions false 1 0 wideColumn (wideCell (repeatedUnit 0x2D 0x4E 1024))
        2049 ArrowBuffer.init ≠ some (.ok (some (textOf .two read.content))) := by
  have hlong : 1023 < 1024 := by decide
  obtain ⟨read, hread, hcontent⟩ := repeatedUnit_repaired 0x2D 0x4E hlong
  refine ⟨read, hread, hcontent, fun hsame => ?_⟩
  rw [appendValue_repaired hread, Option.some.injEq, Except.ok.injEq, Option.some.injEq,
    appendUtf16_inPlace_iff, hcontent] at hsame
  exact repeatedUnit_overtaken 1022 (hsame rfl)

end AdbcBridge.Reader.Scratch
