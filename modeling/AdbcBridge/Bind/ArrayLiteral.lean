import AdbcBridge.Lib.PgArray
import AdbcBridge.Lib.PgInput
import AdbcBridge.Reader.TextRoundTrip

/-!
# Array literals of a column

`ArrayIngestFillColumn` writes the rows of one column as a PostgreSQL array literal and
stops in front of the first row it cannot spell.  Texts are quoted; the text of every other
type stands as it is, since none of them has a byte that needs a quote.
-/

namespace AdbcBridge.Bind.ArrayLiteral

open AdbcBridge.Adbc AdbcBridge.Lib AdbcBridge.Reader

/-- The types that `ArrayIngestElemType` accepts, less the floating-point ones; the widths
of one kind share a case of `ArrayIngestFillColumn`. -/
inductive IngestType where
  | bool
  | int
  | uint
  | decimal (scale : Int)
  | date32
  | time (unit : ArrowTimeUnit)
  | timestamp (unit : ArrowTimeUnit)
  | text
deriving DecidableEq, Repr

/-- What the array view returns for an element: a decimal is its unscaled integer, a text
its bytes. -/
abbrev IngestType.Value : IngestType → Type
  | .bool => Bool
  | .int => Int64
  | .uint => UInt64
  | .decimal _ => Int
  | .date32 => Int32
  | .time _ => Int64
  | .timestamp _ => Int64
  | .text => List UInt8

structure IngestColumn where
  type : IngestType
  values : List (Option type.Value)

/-- The rows `[row0, row0 + n)` of a column. -/
def IngestColumn.rows (c : IngestColumn) (row0 n : Nat) : List (Option c.type.Value) :=
  (c.values.drop row0).take n

/-- `ADBC_ODBC_ARRAY_INGEST_MAX_BYTES`. -/
def arrayIngestMaxBytes : Nat := 32 * 1024 * 1024

/-- The bytes of an ASCII text. -/
def ascii (text : List Char) : List UInt8 := text.map fun c => UInt8.ofNat c.toNat

/-- `ArrayIngestAppendQuoted`. -/
def arrayIngestAppendQuoted (s : List UInt8) : List UInt8 :=
  PgArray.quote ::
    (s.flatMap fun c =>
      if c = PgArray.quote ∨ c = PgArray.backslash then [PgArray.backslash, c] else [c]) ++
    [PgArray.quote]

/-- The cases of `ArrayIngestFillColumn` for an element that is not NULL; `none` is a value
that cannot be spelled. -/
def renderElement : (t : IngestType) → t.Value → Option (List UInt8)
  | .bool, v => some (ascii (if v then ['t'] else ['f']))
  | .int, v => some (ascii (Decimal.intText v.toInt))
  | .uint, v => some (ascii (Nat.toDigits 10 v.toNat))
  | .decimal scale, v => some (ascii (arrayIngestDecimal v scale))
  | .date32, v =>
      let (y, m, d) := civilFromDays v.toInt
      if y < 1 ∨ 9999 < y then none else some (ascii (dateText y m d))
  | .time unit, v => some (ascii (timeTextFromArrow v.toInt unit))
  | .timestamp unit, v =>
      let perSec := unit.ticksPerSecond
      let secs := v.toInt.tdiv perSec
      let secs := if v.toInt.tmod perSec < 0 then secs - 1 else secs
      if secs < -62135596800 ∨ 253402300799 < secs then none
      else some (ascii (timestampText unit v.toInt))
  | .text, s => if 0 ∈ s then none else some (arrayIngestAppendQuoted s)

/-- A text behind the first row is refused by the room its bytes could need at most. -/
def overCeiling : (t : IngestType) → (i size : Nat) → t.Value → Bool
  | .text, i, size, s => decide (arrayIngestMaxBytes < size + s.length * 2 + 4) && decide (0 < i)
  | _, _, _, _ => false

/-- One turn of the loops over a column's rows; `none` leaves the loop. -/
def appendRow (t : IngestType) (i : Nat) (b : List UInt8) (v : Option t.Value) :
    Option (List UInt8) :=
  let b := if 0 < i then b ++ [PgArray.comma] else b
  match v with
  | none => some (b ++ PgArray.nullWord)
  | some v =>
      match renderElement t v with
      | none => none
      | some item => if overCeiling t i b.length v then none else some (b ++ item)

/-- The loop from row `i` on, and the row it stops at. -/
def fillRows (t : IngestType) : Nat → List UInt8 → List (Option t.Value) → List UInt8 × Nat
  | i, b, [] => (b, i)
  | i, b, v :: vs =>
      match appendRow t i b v with
      | none => (b, i)
      | some b => fillRows t (i + 1) b vs

/-- `ArrayIngestFillColumn`: the literal, and `*fit`. -/
def arrayIngestFillColumn (c : IngestColumn) (row0 n : Nat) : List UInt8 × Nat :=
  let (b, fit) := fillRows c.type 0 [PgArray.openBrace] (c.rows row0 n)
  (b ++ [PgArray.closeBrace], fit)

/-! ## The bytes of the texts -/

/-- The characters of the texts, but for the blank of a timestamp. -/
def isSolid (c : Char) : Bool :=
  c.isDigit || c = '-' || c = '.' || c = ':' || c = 't' || c = 'f'

def Solid (text : List Char) : Prop := ∀ c ∈ text, isSolid c = true

theorem solid_append {a b : List Char} : Solid (a ++ b) ↔ Solid a ∧ Solid b :=
  List.forall_mem_append

theorem solid_cons {c : Char} {b : List Char} : Solid (c :: b) ↔ isSolid c = true ∧ Solid b :=
  List.forall_mem_cons

theorem solid_nil : Solid [] := List.forall_mem_nil _

theorem solid_digits {ds : List Char} (h : AllDigits ds) : Solid ds := by
  intro c hc
  unfold isSolid
  rw [h c hc]
  rfl

theorem digit_range {c : Char} (h : c.isDigit = true) : 48 ≤ c.toNat ∧ c.toNat ≤ 57 := by
  unfold Char.isDigit at h
  simpa [UInt32.le_iff_toNat_le] using h

/-- The byte of such a character. -/
structure SolidByte (b : UInt8) : Prop where
  ordinary : PgArray.ordinary b = true
  notSpace : PgArray.isSpace b = false
  notN : PgArray.upper b ≠ 78

theorem solidByte_of_solid {c : Char} (h : isSolid c = true) :
    SolidByte (UInt8.ofNat c.toNat) ∧ c.toNat < 128 := by
  unfold isSolid at h
  simp only [Bool.or_eq_true, decide_eq_true_eq] at h
  rcases h with ((((hdigit | h) | h) | h) | h) | h
  · obtain ⟨hle, hge⟩ := digit_range hdigit
    refine ⟨?_, by omega⟩
    generalize c.toNat = n at hle hge ⊢
    interval_cases n <;> exact ⟨by decide, by decide, by decide⟩
  all_goals
    rw [h]
    exact ⟨⟨by decide, by decide, by decide⟩, by decide⟩

/-- The characters that the bytes of an ASCII text stand for. -/
def chars (b : List UInt8) : List Char := b.map fun c => Char.ofNat c.toNat

theorem chars_ascii {text : List Char} (h : ∀ c ∈ text, c.toNat < 128) :
    chars (ascii text) = text := by
  unfold chars ascii
  rw [List.map_map]
  conv_rhs => rw [← List.map_id text]
  apply List.map_congr_left
  intro c hc
  have hlt := h c hc
  have hbyte : (UInt8.ofNat c.toNat).toNat = c.toNat :=
    UInt8.toNat_ofNat_of_lt' (by unfold UInt8.size; omega)
  rw [Function.comp_apply, hbyte, Char.ofNat_toNat]
  rfl

/-- A text of such characters, with blanks inside at most. -/
structure Tame (text : List Char) : Prop where
  nonempty : text ≠ []
  all : ∀ c ∈ text, isSolid c = true ∨ c = ' '
  first : ∀ c ∈ text.head?, isSolid c = true
  last : ∀ c ∈ text.getLast?, isSolid c = true

theorem tame_solid {text : List Char} (hne : text ≠ []) (h : Solid text) : Tame text where
  nonempty := hne
  all := fun c hc => Or.inl (h c hc)
  first := fun c hc => h c (List.mem_of_mem_head? hc)
  last := fun c hc => h c (List.mem_of_getLast? hc)

theorem tame_blank {a b : List Char} (hane : a ≠ []) (ha : Solid a) (hbne : b ≠ [])
    (hb : Solid b) : Tame (a ++ ' ' :: b) where
  nonempty := by simp
  all := by
    intro c hc
    rcases List.mem_append.mp hc with hc | hc
    · exact Or.inl (ha c hc)
    · rcases List.mem_cons.mp hc with hc | hc
      · exact Or.inr hc
      · exact Or.inl (hb c hc)
  first := by
    intro c hc
    rw [List.head?_append_of_ne_nil _ hane] at hc
    exact ha c (List.mem_of_mem_head? hc)
  last := by
    intro c hc
    rw [List.getLast?_append, List.getLast?_cons, List.getLast?_eq_some_getLast hbne,
      Option.getD_some, Option.some_or, Option.mem_some_iff] at hc
    rw [← hc]
    exact hb _ (List.getLast_mem hbne)

theorem Tame.chars_ascii {text : List Char} (h : Tame text) : chars (ascii text) = text := by
  apply ArrayLiteral.chars_ascii
  intro c hc
  rcases h.all c hc with hsolid | hblank
  · exact (solidByte_of_solid hsolid).2
  · rw [hblank]
    decide

/-- Such a text is an element as it stands. -/
theorem Tame.plain {text : List Char} (h : Tame text) : PgArray.Plain (ascii text) where
  nonempty := by
    intro hnil
    exact h.nonempty (List.map_eq_nil_iff.mp hnil)
  ordinary := by
    intro b hb
    obtain ⟨c, hc, rfl⟩ := List.mem_map.mp hb
    rcases h.all c hc with hsolid | hblank
    · exact (solidByte_of_solid hsolid).1.ordinary
    · rw [hblank]
      decide
  first := by
    intro b hb
    rw [ascii, List.head?_map] at hb
    obtain ⟨c, hc, rfl⟩ := Option.map_eq_some_iff.mp hb
    exact (solidByte_of_solid (h.first c hc)).1.notSpace
  last := by
    intro b hb
    rw [ascii, List.getLast?_map] at hb
    obtain ⟨c, hc, rfl⟩ := Option.map_eq_some_iff.mp hb
    exact (solidByte_of_solid (h.last c hc)).1.notSpace
  notNull := by
    intro hnull
    obtain ⟨c, text, rfl⟩ := List.exists_cons_of_ne_nil h.nonempty
    have hhead := congrArg List.head? hnull
    exact (solidByte_of_solid (h.first c rfl)).1.notN (Option.some.inj hhead)

/-! ## The texts of each type -/

theorem intText_tame (v : Int) : Tame (Decimal.intText v) := by
  apply tame_solid (Decimal.intText_ne_nil v)
  intro c hc
  rcases Decimal.mem_intText hc with h | h
  · rw [h]
    decide
  · unfold isSolid
    rw [h]
    rfl

theorem toDigits_tame (n : Nat) : Tame (Nat.toDigits 10 n) :=
  tame_solid Nat.toDigits_ne_nil (solid_digits (allDigits_toDigits n))

theorem decimal_tame (v scale : Int) : Tame (arrayIngestDecimal v scale) := by
  have hwhole := solid_digits (wholeDigits_digits v scale)
  have hfrac := solid_digits (fracDigits_digits v scale)
  unfold arrayIngestDecimal
  rw [arrowDecimalString_eq]
  apply tame_solid
  · exact List.append_ne_nil_of_right_ne_nil _
      (List.append_ne_nil_of_left_ne_nil (wholeDigits_ne_nil v scale) _)
  · rw [solid_append, solid_append]
    refine ⟨?_, hwhole, ?_⟩
    · split
      · exact solid_cons.mpr ⟨by decide, solid_nil⟩
      · exact solid_nil
    · split
      · exact solid_nil
      · exact solid_cons.mpr ⟨by decide, hfrac⟩

theorem zeroPadded_solid (width : Nat) (v : Int) : Solid (zeroPadded width v) := by
  unfold zeroPadded
  dsimp only
  rw [solid_append, solid_append]
  refine ⟨⟨?_, solid_digits (allDigits_zeros _)⟩, solid_digits (allDigits_toDigits _)⟩
  split
  · exact solid_cons.mpr ⟨by decide, solid_nil⟩
  · exact solid_nil

theorem zeroPadded_ne_nil (width : Nat) (v : Int) : zeroPadded width v ≠ [] := by
  unfold zeroPadded
  exact List.append_ne_nil_of_right_ne_nil _ Nat.toDigits_ne_nil

theorem dateText_solid (y : Int) (m d : Nat) : Solid (dateText y m d) := by
  have hdash : isSolid '-' = true := by decide
  unfold dateText
  simp only [solid_append, solid_cons]
  exact ⟨⟨zeroPadded_solid 4 y, hdash, zeroPadded_solid 2 m⟩, hdash, zeroPadded_solid 2 d⟩

theorem dateText_ne_nil (y : Int) (m d : Nat) : dateText y m d ≠ [] := by
  unfold dateText
  exact List.append_ne_nil_of_left_ne_nil
    (List.append_ne_nil_of_left_ne_nil (zeroPadded_ne_nil 4 y) _) _

/-- A time of day, alone or behind a date. -/
theorem clock_solid (h m s f : Int) (digits : Nat) :
    Solid (zeroPadded 2 h ++ ':' :: zeroPadded 2 m ++ ':' :: zeroPadded 2 s) ∧
      Solid (zeroPadded 2 h ++ ':' :: zeroPadded 2 m ++ ':' :: zeroPadded 2 s ++
        '.' :: zeroPadded digits f) := by
  have hcolon : isSolid ':' = true := by decide
  have hpoint : isSolid '.' = true := by decide
  simp only [solid_append, solid_cons]
  exact ⟨⟨⟨zeroPadded_solid 2 h, hcolon, zeroPadded_solid 2 m⟩, hcolon, zeroPadded_solid 2 s⟩,
    ⟨⟨zeroPadded_solid 2 h, hcolon, zeroPadded_solid 2 m⟩, hcolon, zeroPadded_solid 2 s⟩, hpoint,
    zeroPadded_solid digits f⟩

theorem timeText_tame (v : Int) (unit : ArrowTimeUnit) : Tame (timeTextFromArrow v unit) := by
  unfold timeTextFromArrow
  dsimp only
  apply tame_solid
  · split
    · simp [zeroPadded_ne_nil]
    · simp [zeroPadded_ne_nil]
  · split
    · exact (clock_solid _ _ _ 0 0).1
    · exact (clock_solid _ _ _ _ _).2

theorem timestampText_tame (unit : ArrowTimeUnit) (v : Int) : Tame (timestampText unit v) := by
  unfold timestampText timestampTextFromStruct
  generalize timestampFromArrow v unit = ts
  have hsplit (tail : List Char) :
      dateText ts.year ts.month ts.day ++ ' ' :: zeroPadded 2 ts.hour ++
      ':' :: zeroPadded 2 ts.minute ++ ':' :: zeroPadded 2 ts.second ++ tail =
        dateText ts.year ts.month ts.day ++ ' ' :: (zeroPadded 2 ts.hour ++
          ':' :: zeroPadded 2 ts.minute ++ ':' :: zeroPadded 2 ts.second ++ tail) := by
    simp only [List.append_assoc, List.cons_append]
  dsimp only
  split
  · rw [← List.append_nil (_ ++ ':' :: zeroPadded 2 (ts.second : Int)), hsplit, List.append_nil]
    exact tame_blank (dateText_ne_nil _ _ _) (dateText_solid _ _ _) (by simp [zeroPadded_ne_nil])
      (clock_solid _ _ _ 0 0).1
  · rw [hsplit]
    exact tame_blank (dateText_ne_nil _ _ _) (dateText_solid _ _ _) (by simp [zeroPadded_ne_nil])
      (clock_solid _ _ _ _ _).2

/-- What the element type's input function is given for a value. -/
def content : (t : IngestType) → t.Value → List UInt8 → List UInt8
  | .text, s, _ => s
  | _, _, item => item

theorem renderElement_text (s : IngestType.text.Value) :
    renderElement .text s = if 0 ∈ s then none else some (PgArray.quoteElement s) := rfl

/-- The range check is that of the years 1 to 9999. -/
theorem renderElement_timestamp (unit : ArrowTimeUnit) (v : Int64) :
    renderElement (.timestamp unit) v =
      if InYears unit v.toInt then some (ascii (timestampText unit v.toInt)) else none := by
  have hfloor := congrArg Prod.fst (floor_of_trunc v.toInt unit.ticksPerSecond_pos)
  rw [apply_ite Prod.fst] at hfloor
  have hfirst : Civil.dayNumber 1 1 1 = -719162 := by decide
  have hlast : Civil.dayNumber 9999 12 31 = 2932896 := by decide
  have hyears : InYears unit v.toInt ↔
      ¬ (v.toInt / unit.ticksPerSecond < -62135596800 ∨
        253402300799 < v.toInt / unit.ticksPerSecond) := by
    unfold InYears dayOfTimestamp
    rw [hfirst, hlast]
    omega
  unfold renderElement
  dsimp only at hfloor ⊢
  rw [hfloor, if_congr hyears rfl rfl, ite_not]

theorem renderElement_date32 (v : Int32) :
    renderElement .date32 v =
      if (civilFromDays v.toInt).1 < 1 ∨ 9999 < (civilFromDays v.toInt).1 then none
      else some (ascii (dateText (civilFromDays v.toInt).1 (civilFromDays v.toInt).2.1
        (civilFromDays v.toInt).2.2)) := rfl

/-- The text of a value of any other type than text. -/
theorem renderElement_tame {t : IngestType} (ht : t ≠ .text) {v : t.Value} {item : List UInt8}
    (h : renderElement t v = some item) : ∃ text, item = ascii text ∧ Tame text := by
  cases t with
  | bool =>
      refine ⟨_, (Option.some.inj h).symm, ?_⟩
      cases v with
      | false => exact tame_solid (by simp) (solid_cons.mpr ⟨by decide, solid_nil⟩)
      | true => exact tame_solid (by simp) (solid_cons.mpr ⟨by decide, solid_nil⟩)
  | int => exact ⟨_, (Option.some.inj h).symm, intText_tame _⟩
  | uint => exact ⟨_, (Option.some.inj h).symm, toDigits_tame _⟩
  | decimal scale => exact ⟨_, (Option.some.inj h).symm, decimal_tame _ _⟩
  | date32 =>
      rw [renderElement_date32] at h
      split at h
      · cases h
      · exact ⟨_, (Option.some.inj h).symm,
          tame_solid (dateText_ne_nil _ _ _) (dateText_solid _ _ _)⟩
  | time unit => exact ⟨_, (Option.some.inj h).symm, timeText_tame _ _⟩
  | timestamp unit =>
      rw [renderElement_timestamp] at h
      split at h
      · exact ⟨_, (Option.some.inj h).symm, timestampText_tame _ _⟩
      · cases h
  | text => exact absurd rfl ht

/-- Every element is read back as its content. -/
theorem renderElement_spells {t : IngestType} {v : t.Value} {item : List UInt8}
    (h : renderElement t v = some item) : PgArray.Spells item (some (content t v item)) := by
  by_cases ht : t = .text
  · subst ht
    rw [renderElement_text] at h
    split at h
    · cases h
    · rw [← Option.some.inj h]
      exact PgArray.Spells.quoted v
  · obtain ⟨text, rfl, htame⟩ := renderElement_tame ht h
    have hcontent : content t v (ascii text) = ascii text := by
      cases t <;> first | rfl | exact absurd rfl ht
    rw [hcontent]
    exact PgArray.Spells.plain htame.plain

/-! ## What the elements say -/

/-- The input function of the element type takes this value from the bytes.  An unsigned integer
is a `bigint`, those of 64 bits are `numeric`; times and timestamps are kept in microseconds. -/
def Reads (pg : PgInput) : (t : IngestType) → List UInt8 → t.Value → Prop
  | .bool, e, v => pg.boolean (chars e) = some v
  | .int, e, v => pg.bigint (chars e) = some v.toInt
  | .uint, e, v =>
      pg.numeric (chars e) = some (v.toNat : ℚ) ∧
        (v.toNat < 2 ^ 32 → pg.bigint (chars e) = some (v.toNat : Int))
  | .decimal scale, e, v => pg.numeric (chars e) = some ((v : ℚ) * 10 ^ (-scale))
  | .date32, e, v => pg.date (chars e) = some v.toInt
  | .time unit, e, v => ∃ us, pg.time (chars e) = some us ∧ us * 1000 = v.toInt * unit.nanos
  | .timestamp unit, e, v =>
      ∃ us, pg.timestamp (chars e) = some us ∧ us * 1000 = v.toInt * unit.nanos
  | .text, e, v => e = v

/-- The element type has the value: a decimal is within the limits of `numeric`, a time of day
lies in a day, and times are whole microseconds. -/
def Exact : (t : IngestType) → t.Value → Prop
  | .decimal scale, v =>
      |(v : ℚ) * 10 ^ (-scale)| < PgInput.numericBound ∧ scale ≤ PgInput.numericDigits
  | .time unit, v => IsTimeOfDay unit v.toInt ∧ 1000 ∣ v.toInt * unit.nanos
  | .timestamp unit, v => 1000 ∣ v.toInt * unit.nanos
  | _, _ => True

/-- The fields of a clock say the microseconds. -/
theorem clockText_spells {digits h m s f k : Nat} {hour minute second frac : List Char}
    (hhour : FixedField 2 h hour) (hminute : FixedField 2 m minute)
    (hsecond : FixedField 2 s second) (hfrac : digits ≠ 0 → FixedField digits f frac)
    (hh : h < 24) (hm : m < 60) (hs : s < 60)
    (hk : if digits = 0 then k = 0 else f * 10 ^ 6 = k * 10 ^ digits) :
    PgInput.SaysTime (clockText digits hour minute second frac)
      (((h * 60 + m) * 60 + s) * 10 ^ 6 + k) := by
  by_cases hdigits : digits = 0
  · rw [if_pos hdigits] at hk
    refine ⟨h, m, s, hour, minute, second, [], hhour, hminute, hsecond, allDigits_nil, hh, hm, hs,
      ⟨k, ?_, rfl⟩, ?_⟩
    · rw [hk]
      rfl
    · unfold clockText
      rw [if_pos hdigits, if_pos rfl]
  · rw [if_neg hdigits] at hk
    have hfield := hfrac hdigits
    have hne : frac ≠ [] := List.ne_nil_of_length_pos (by rw [hfield.length]; omega)
    refine ⟨h, m, s, hour, minute, second, frac, hhour, hminute, hsecond, hfield.digits, hh, hm, hs,
      ⟨k, ?_, rfl⟩, ?_⟩
    · rw [hfield.value, hfield.length, hk]
    · unfold clockText
      rw [if_neg hdigits, if_neg hne]

/-- The digits of a fraction that is whole microseconds. -/
theorem fraction_micros (unit : ArrowTimeUnit) {v us secs : Int} {fr : Nat} (hlt : fr < 1000000000)
    (hsplit : v * unit.nanos = secs * 1000000000 + fr) (hus : us * 1000 = v * unit.nanos) :
    us = secs * 1000000 + (fr / 1000 : Nat) ∧
      if fractionalDigits unit = 0 then fr / 1000 = 0
      else fr / 10 ^ (9 - fractionalDigits unit) * 10 ^ 6 =
        fr / 1000 * 10 ^ fractionalDigits unit := by
  have hmicros := hus.trans hsplit
  refine ⟨by omega, ?_⟩
  cases unit with
  | second =>
      have hwhole : v * 1000000000 = secs * 1000000000 + fr := hsplit
      show fr / 1000 = 0
      omega
  | milli =>
      have hwhole : v * 1000000 = secs * 1000000000 + fr := hsplit
      show fr / 10 ^ 6 * 10 ^ 6 = fr / 1000 * 10 ^ 3
      omega
  | micro => rfl
  | nano =>
      show fr / 10 ^ 2 * 10 ^ 6 = fr / 1000 * 10 ^ 7
      omega

/-- A time of whole microseconds says them. -/
theorem timeText_spells {unit : ArrowTimeUnit} {v us : Int} (h : IsTimeOfDay unit v)
    (hus : us * 1000 = v * unit.nanos) : PgInput.SaysTime (timeTextFromArrow v unit) us := by
  obtain ⟨hour, minute, second, frac, htext, hhour, hminute, hsecond, hfrac⟩ :=
    timeTextFromArrow_fields h
  have hpos := unit.ticksPerSecond_pos
  have hnonneg : 0 ≤ v / unit.ticksPerSecond := Int.ediv_nonneg h.1 hpos.le
  have hday : v / unit.ticksPerSecond < 86400 := Int.ediv_lt_of_lt_mul hpos h.2
  obtain ⟨hf, hflt⟩ := fraction_lt unit v
  obtain ⟨f, hfeq⟩ := Int.eq_ofNat_of_zero_le hf
  have hsplit : v * unit.nanos = v / unit.ticksPerSecond * 1000000000 + f := by
    rw [← hfeq, ← unit.ticksPerSecond_mul_nanos, ← mul_assoc, ← add_mul, Int.ediv_mul_add_emod]
  obtain ⟨hsum, hmicros⟩ := fraction_micros unit (by omega) hsplit hus
  have hcut : ((f : Int) / 10 ^ (9 - fractionalDigits unit)).toNat =
      f / 10 ^ (9 - fractionalDigits unit) := by
    rw [← Int.toNat_natCast (f / 10 ^ (9 - fractionalDigits unit))]
    push_cast
    rfl
  rw [hfeq, hcut] at hfrac
  have hmeans := clockText_spells hhour hminute hsecond hfrac (by omega) (by omega) (by omega)
    hmicros
  have hsecs : ((((v / unit.ticksPerSecond / 3600).toNat : Int) * 60 +
      ((v / unit.ticksPerSecond % 3600 / 60).toNat : Int)) * 60 +
        ((v / unit.ticksPerSecond % 60).toNat : Int)) = v / unit.ticksPerSecond := by
    omega
  rw [htext, hsum]
  rw [hsecs] at hmeans
  exact hmeans

theorem dateText_spells {y : Int} {m d : Nat} {day : Int} (hyear : 1 ≤ y ∧ y ≤ 9999)
    (hlegal : Civil.Legal y m d) (hday : Civil.dayNumber y m d = day) :
    PgInput.SaysDate (dateText y m d) day := by
  obtain ⟨⟨-, hm⟩, -, hd⟩ := id hlegal
  have hd' : d ≤ 31 := by
    unfold Civil.daysInMonth at hd
    split_ifs at hd <;> omega
  obtain ⟨n, rfl⟩ := Int.eq_ofNat_of_zero_le (show 0 ≤ y by omega)
  exact ⟨n, m, d, zeroPadded 4 n, zeroPadded 2 m, zeroPadded 2 d,
    zeroPadded_field (by omega) (by omega), zeroPadded_field (by omega) (by omega),
    zeroPadded_field (by omega) (by omega), by omega, hlegal, hday, rfl⟩

/-- A timestamp of whole microseconds says them, by its day and its time of day. -/
theorem timestampText_spells {unit : ArrowTimeUnit} {v us : Int} (h : InYears unit v)
    (hus : us * 1000 = v * unit.nanos) :
    ∃ date time day micros, timestampText unit v = date ++ ' ' :: time ∧
      PgInput.SaysDate date day ∧ PgInput.SaysTime time micros ∧
      us = day * 86400000000 + micros := by
  obtain ⟨hlegal, hinstant⟩ := (timestampFromArrow_denotes_iff v unit).mpr h.yearFits
  have hranges := timestampFromArrow_ranges v unit
  have hyears := h.year
  unfold timestampText
  generalize timestampFromArrow v unit = ts at hlegal hinstant hranges hyears
  obtain ⟨-, -, hh, hm, hs, hfraction⟩ := hranges
  obtain ⟨year, month, day, hour, minute, second, frac, htext, hyear, hmonth, hday, hhour,
    hminute, hsecond, hfrac⟩ := timestampTextFromStruct_fields hlegal hyears unit
  obtain ⟨days, hdays⟩ : ∃ days, days = Civil.dayNumber ts.year ts.month ts.day := ⟨_, rfl⟩
  have hsplit : v * unit.nanos =
      (days * 86400 + ts.hour * 3600 + ts.minute * 60 + ts.second) * 1000000000 + ts.fraction := by
    rw [hdays]
    exact hinstant.symm
  obtain ⟨hsum, hmicros⟩ := fraction_micros unit hfraction hsplit hus
  have hyear' : (ts.year.toNat : Int) = ts.year := by omega
  refine ⟨_, _, days, _, htext, ?_,
    clockText_spells hhour hminute hsecond hfrac hh hm hs hmicros, ?_⟩
  · refine ⟨_, _, _, year, month, day, hyear, hmonth, hday, by omega, ?_, ?_, rfl⟩
    · rw [hyear']
      exact hlegal.1
    · rw [hyear', hdays]
  · rw [hsum]
    omega

theorem year_int32 (v : Int32) :
    asInt (civilOfDays v.toInt).1 = (civilOfDays v.toInt).1 := by
  obtain ⟨hlegal, hday⟩ := civilOfDays_spec v.toInt
  have hle := v.le_toInt
  have hlt := v.toInt_lt
  have hfrom := Civil.le_year_iff hlegal (-2147483648)
  have hto := Civil.le_year_iff hlegal 2147483648
  have hfirst : Civil.dayNumber (-2147483648) 1 1 ≤ -2147483648 := by decide
  have hlast : 2147483648 ≤ Civil.dayNumber 2147483648 1 1 := by decide
  rw [hday] at hfrom hto
  apply signedCast_eq (by omega)
  unfold InSigned
  norm_num at hle hlt ⊢
  omega

section
variable {pg : PgInput} (hpg : pg.Documented)
include hpg

theorem date_reads {v : Int32} {item : List UInt8} (h : renderElement .date32 v = some item) :
    Reads pg .date32 item v := by
  obtain ⟨hlegal, hday⟩ := civilOfDays_spec v.toInt
  have hyear : (civilFromDays v.toInt).1 = (civilOfDays v.toInt).1 := year_int32 v
  have hmd : (civilFromDays v.toInt).2 = (civilOfDays v.toInt).2 := rfl
  rw [renderElement_date32, hyear, hmd] at h
  split at h
  · cases h
  · rename_i hrange
    rw [← Option.some.inj h]
    show pg.date (chars (ascii _)) = _
    rw [(tame_solid (dateText_ne_nil _ _ _) (dateText_solid _ _ _)).chars_ascii]
    exact hpg.date _ _ (dateText_spells (by omega) hlegal hday)

/-- A time is read as what it is exactly if it is a time of day of whole microseconds. -/
theorem time_reads_iff (unit : ArrowTimeUnit) (v : Int64) :
    Reads pg (.time unit) (ascii (timeTextFromArrow v.toInt unit)) v ↔ Exact (.time unit) v := by
  have hpos : 0 < 86400 * unit.ticksPerSecond := by
    have := unit.ticksPerSecond_pos
    omega
  obtain ⟨w, hw⟩ : ∃ w, w = v.toInt % (86400 * unit.ticksPerSecond) := ⟨_, rfl⟩
  have hday : IsTimeOfDay unit w :=
    hw ▸ ⟨Int.emod_nonneg _ hpos.ne', Int.emod_lt_of_pos _ hpos⟩
  have hread {us : Int} (hus : us * 1000 = w * unit.nanos) :
      pg.time (chars (ascii (timeTextFromArrow v.toInt unit))) = some us := by
    rw [(timeText_tame _ _).chars_ascii, ← timeTextFromArrow_wraps, ← hw]
    exact hpg.time _ _ (timeText_spells hday hus)
  constructor
  · intro hreads
    obtain ⟨us, hus, hmicros⟩ := hreads
    -- The days that are dropped are whole microseconds, so the text says some as well.
    obtain ⟨us', hus'⟩ : ∃ us', us' * 1000 = w * unit.nanos := by
      have hunit := unit.ticksPerSecond_mul_nanos
      have hsplit := Int.emod_add_mul_ediv v.toInt (86400 * unit.ticksPerSecond)
      rw [← hw] at hsplit
      generalize v.toInt / (86400 * unit.ticksPerSecond) = days at hsplit
      refine ⟨us - days * 86400000000, ?_⟩
      have hwhole : v.toInt * unit.nanos =
          w * unit.nanos + 86400 * (unit.ticksPerSecond * unit.nanos) * days := by
        rw [← hsplit]
        ring
      rw [hunit] at hwhole
      linarith
    have hsame : us = us' := Option.some.inj (hus.symm.trans (hread hus'))
    have hvalue : v.toInt = w := by
      have hnanos := unit.nanos_pos
      apply Int.eq_of_mul_eq_mul_right hnanos.ne'
      rw [← hmicros, ← hus', hsame]
    exact ⟨hvalue ▸ hday, us, by rw [← hmicros, mul_comm]⟩
  · intro hexact
    obtain ⟨hinDay, us, hus⟩ := hexact
    have hvalue : w = v.toInt := hw.trans (Int.emod_eq_of_lt hinDay.1 hinDay.2)
    have hmicros : us * 1000 = v.toInt * unit.nanos := by rw [hus, mul_comm]
    exact ⟨us, hread (by rw [hvalue, hmicros]), hmicros⟩

theorem timestamp_reads_iff {unit : ArrowTimeUnit} {v : Int64} (h : InYears unit v.toInt) :
    Reads pg (.timestamp unit) (ascii (timestampText unit v.toInt)) v ↔
      Exact (.timestamp unit) v := by
  constructor
  · intro hreads
    obtain ⟨us, -, hus⟩ := hreads
    exact ⟨us, by rw [← hus, mul_comm]⟩
  · intro hexact
    obtain ⟨us, hus⟩ := hexact
    have hmicros : us * 1000 = v.toInt * unit.nanos := by rw [hus, mul_comm]
    obtain ⟨date, time, day, micros, htext, hdate, htime, hsum⟩ := timestampText_spells h hmicros
    refine ⟨us, ?_, hmicros⟩
    rw [(timestampText_tame unit v.toInt).chars_ascii, htext, hsum]
    exact hpg.timestamp _ _ _ _ hdate htime

/-- A decimal within the limits of `numeric`, and no other, is read as what it is. -/
theorem decimal_reads_iff (v scale : Int) :
    Reads pg (.decimal scale) (ascii (arrayIngestDecimal v scale)) v ↔
      Exact (.decimal scale) v := by
  have hread := hpg.numeric _ _ (arrowDecimalString_writes v scale)
  have hdigits : (decimalNumeral v scale).frac.length ≤ PgInput.numericDigits ↔
      scale ≤ PgInput.numericDigits := by
    show (fracDigits v scale).length ≤ _ ↔ _
    rw [(digitsValue_decimal v scale).2]
    exact Int.toNat_le
  rw [decimalNumeral_value] at hread
  show pg.numeric (chars (ascii _)) = _ ↔ _ ∧ _
  rw [(decimal_tame v scale).chars_ascii]
  show pg.numeric (arrowDecimalString v scale) = _ ↔ _
  rw [hread, if_congr (and_congr_right_iff.mpr fun _ => hdigits) rfl rfl]
  constructor
  · intro hsome
    by_contra hover
    rw [if_neg hover] at hsome
    cases hsome
  · intro hwithin
    rw [if_pos hwithin]

theorem uint_reads (v : UInt64) :
    Reads pg .uint (ascii (Nat.toDigits 10 v.toNat)) v := by
  have htext : Nat.toDigits 10 v.toNat = Decimal.intText v.toNat := by
    unfold Decimal.intText
    rw [if_neg (by omega), Int.natAbs_natCast]
  show pg.numeric (chars (ascii _)) = _ ∧ (_ → pg.bigint (chars (ascii _)) = _)
  rw [(toDigits_tame _).chars_ascii]
  constructor
  · have hwhole := (decimal_reads_iff hpg v.toNat 0).mpr
    have hsmall : |((v.toNat : Int) : ℚ) * 10 ^ (-(0 : Int))| < PgInput.numericBound := by
      have hlt : (v.toNat : ℚ) < 10 ^ 20 := by
        have hword := v.toNat_lt
        have hpow : 2 ^ 64 ≤ 10 ^ 20 := by norm_num
        exact_mod_cast hword.trans_le hpow
      have hmono : (10 : ℚ) ^ 20 ≤ PgInput.numericBound :=
        pow_le_pow_right₀ (by norm_num) (by norm_num)
      rw [neg_zero, zpow_zero, mul_one, Int.cast_natCast, abs_of_nonneg (Nat.cast_nonneg _)]
      exact hlt.trans_le hmono
    have hread := hwhole ⟨hsmall, by decide⟩
    have hdecimal : arrayIngestDecimal v.toNat 0 = Nat.toDigits 10 v.toNat := by
      unfold arrayIngestDecimal arrowDecimalString
      rw [htext]
      simp
    rw [hdecimal] at hread
    have hread' : pg.numeric (chars (ascii (Nat.toDigits 10 v.toNat))) = _ := hread
    rw [(toDigits_tame _).chars_ascii] at hread'
    rw [hread', neg_zero, zpow_zero, mul_one, Int.cast_natCast]
  · intro hsmall
    rw [htext]
    exact hpg.bigint _ (by omega) (by omega)

/-- An element is read as its value exactly if the element type has the value. -/
theorem reads_iff {t : IngestType} {v : t.Value} {item : List UInt8}
    (h : renderElement t v = some item) : Reads pg t (content t v item) v ↔ Exact t v := by
  cases t with
  | bool =>
      rw [← Option.some.inj h]
      refine iff_of_true ?_ trivial
      have hsmall : ∀ c ∈ (if v then ['t'] else ['f']), c.toNat < 128 := by
        cases v <;> simp
      show pg.boolean (chars (ascii (if v then ['t'] else ['f']))) = some v
      rw [chars_ascii hsmall]
      cases v with
      | false => exact hpg.boolean.2
      | true => exact hpg.boolean.1
  | int =>
      rw [← Option.some.inj h]
      refine iff_of_true ?_ trivial
      show pg.bigint (chars (ascii _)) = _
      rw [(intText_tame _).chars_ascii]
      exact hpg.bigint _ v.le_toInt v.toInt_lt
  | uint =>
      rw [← Option.some.inj h]
      exact iff_of_true (uint_reads hpg v) trivial
  | decimal scale =>
      rw [← Option.some.inj h]
      exact decimal_reads_iff hpg v scale
  | date32 => exact iff_of_true (date_reads hpg h) trivial
  | time unit =>
      rw [← Option.some.inj h]
      exact time_reads_iff hpg unit v
  | timestamp unit =>
      rw [renderElement_timestamp] at h
      split at h
      · rename_i hyears
        rw [← Option.some.inj h]
        exact timestamp_reads_iff hpg hyears
      · cases h
  | text => exact iff_of_true rfl trivial

end

/-! ## The rows of a literal -/

/-- The rows are appended one after the other, from row `i` on. -/
inductive Appends (t : IngestType) :
    Nat → List UInt8 → List (Option t.Value) → List UInt8 → Prop
  | nil {i b} : Appends t i b [] b
  | cons {i b v b' vs b''} :
      appendRow t i b v = some b' → Appends t (i + 1) b' vs b'' → Appends t i b (v :: vs) b''

/-- The loop appends the rows in front of the one it stops at. -/
theorem fillRows_appends (t : IngestType) (i : Nat) (b : List UInt8)
    (vs : List (Option t.Value)) :
    ∃ k ≤ vs.length, ∃ b', fillRows t i b vs = (b', i + k) ∧ Appends t i b (vs.take k) b' := by
  induction vs generalizing i b with
  | nil => exact ⟨0, Nat.le_refl 0, b, rfl, .nil⟩
  | cons v vs ih =>
      cases hone : appendRow t i b v with
      | none =>
          refine ⟨0, Nat.zero_le _, b, ?_, .nil⟩
          unfold fillRows
          rw [hone]
          rfl
      | some b₁ =>
          obtain ⟨k, hk, b', hfill, happ⟩ := ih (i + 1) b₁
          refine ⟨k + 1, Nat.succ_le_succ hk, b', ?_, .cons hone happ⟩
          unfold fillRows
          rw [hone]
          dsimp only
          rw [hfill, Nat.add_right_comm, Nat.add_assoc]

/-- Rows that can all be appended are all carried. -/
theorem Appends.fillRows {t : IngestType} {i : Nat} {b b' : List UInt8}
    {vs : List (Option t.Value)} (h : Appends t i b vs b') :
    fillRows t i b vs = (b', i + vs.length) := by
  induction h with
  | nil => rfl
  | cons hone _ ih =>
      unfold ArrayLiteral.fillRows
      rw [hone]
      dsimp only
      rw [ih, List.length_cons, Nat.add_right_comm, Nat.add_assoc]

theorem Appends.split {t : IngestType} {i : Nat} {b b'' : List UInt8}
    {vs ws : List (Option t.Value)} (h : Appends t i b (vs ++ ws) b'') :
    ∃ b', Appends t i b vs b' ∧ Appends t (i + vs.length) b' ws b'' := by
  induction vs generalizing i b with
  | nil => exact ⟨b, .nil, h⟩
  | cons v vs ih =>
      cases h with
      | cons hone htail =>
          obtain ⟨b', hfirst, hrest⟩ := ih htail
          refine ⟨b', .cons hone hfirst, ?_⟩
          rw [List.length_cons, Nat.add_comm vs.length, ← Nat.add_assoc]
          exact hrest

/-- What a turn of the loop does. -/
theorem appendRow_cases {t : IngestType} {i : Nat} {b b' : List UInt8} {v : Option t.Value}
    (h : appendRow t i b v = some b') :
    (v = none ∧ b' = (if 0 < i then b ++ [PgArray.comma] else b) ++ PgArray.nullWord) ∨
      ∃ x item, v = some x ∧ renderElement t x = some item ∧
        overCeiling t i (if 0 < i then b ++ [PgArray.comma] else b).length x = false ∧
        b' = (if 0 < i then b ++ [PgArray.comma] else b) ++ item := by
  unfold appendRow at h
  dsimp only at h
  generalize (if 0 < i then b ++ [PgArray.comma] else b) = b₀ at h ⊢
  cases v with
  | none => exact Or.inl ⟨rfl, (Option.some.inj h).symm⟩
  | some x =>
      cases hrender : renderElement t x with
      | none =>
          simp only [hrender] at h
          cases h
      | some item =>
          simp only [hrender] at h
          split at h
          · cases h
          · rename_i hunder
            exact Or.inr ⟨x, item, rfl, hrender, by simpa using hunder, (Option.some.inj h).symm⟩

/-- The element that a row's text is read as. -/
def rowElement (t : IngestType) : Option t.Value → PgArray.Element
  | none => none
  | some v => (renderElement t v).map (content t v)

theorem rowElement_some {t : IngestType} {x : t.Value} {item : List UInt8}
    (h : renderElement t x = some item) : rowElement t (some x) = some (content t x item) := by
  show (renderElement t x).map (content t x) = _
  rw [h]
  rfl

theorem appendRow_holds {t : IngestType} {b b' : List UInt8} {es : List PgArray.Element}
    {v : Option t.Value} (h : appendRow t es.length b v = some b') (hb : PgArray.Holds b es) :
    PgArray.Holds b' (es ++ [rowElement t v]) := by
  have hdelim : (if 0 < es.length then b ++ [PgArray.comma] else b) =
      b ++ if es = [] then [] else [PgArray.comma] := by
    cases es with
    | nil => exact (List.append_nil b).symm
    | cons e es => rfl
  rcases appendRow_cases h with ⟨rfl, hb'⟩ | ⟨x, item, rfl, hrender, -, hb'⟩
  · rw [hb', hdelim]
    exact hb.push .null
  · rw [hb', hdelim, rowElement_some hrender]
    exact hb.push (renderElement_spells hrender)

/-- The literal so far holds the elements of its rows. -/
theorem Appends.holds {t : IngestType} {b b' : List UInt8} {vs : List (Option t.Value)}
    {es : List PgArray.Element} (h : Appends t es.length b vs b') (hb : PgArray.Holds b es) :
    PgArray.Holds b' (es ++ vs.map (rowElement t)) := by
  induction vs generalizing es b with
  | nil =>
      cases h
      rwa [List.map_nil, List.append_nil]
  | cons v vs ih =>
      cases h with
      | cons hone htail =>
          have hnext := appendRow_holds hone hb
          have hlength : es.length + 1 = (es ++ [rowElement t v]).length := by simp
          rw [hlength] at htail
          rw [List.map_cons, ← List.singleton_append, ← List.append_assoc]
          exact ih htail hnext

theorem Appends.rendered {t : IngestType} {i : Nat} {b b' : List UInt8}
    {vs : List (Option t.Value)} (h : Appends t i b vs b') {x : t.Value} (hx : some x ∈ vs) :
    ∃ item, renderElement t x = some item := by
  induction h with
  | nil => cases hx
  | cons hone _ ih =>
      rcases List.mem_cons.mp hx with rfl | hx
      · rcases appendRow_cases hone with ⟨hnone, -⟩ | ⟨y, item, hy, hrender, -⟩
        · cases hnone
        · exact ⟨item, Option.some.inj hy ▸ hrender⟩
      · exact ih hx

/-- The element is NULL as the row is, or is read as the row's value. -/
def RowReads (pg : PgInput) (t : IngestType) : PgArray.Element → Option t.Value → Prop
  | none, none => True
  | some e, some v => Reads pg t e v
  | _, _ => False

def RowExact (t : IngestType) : Option t.Value → Prop
  | none => True
  | some v => Exact t v

/-- The elements are read as the rows exactly if the element type has every value. -/
theorem Appends.says_iff {pg : PgInput} (hpg : pg.Documented) {t : IngestType} {i : Nat}
    {b b' : List UInt8} {vs : List (Option t.Value)} (h : Appends t i b vs b') :
    List.Forall₂ (RowReads pg t) (vs.map (rowElement t)) vs ↔ ∀ v ∈ vs, RowExact t v := by
  rw [List.forall₂_map_left_iff, List.forall₂_same]
  apply forall₂_congr
  intro v hv
  cases v with
  | none => exact Iff.rfl
  | some x =>
      obtain ⟨item, hrender⟩ := h.rendered hv
      rw [rowElement_some hrender]
      exact reads_iff hpg hrender

/-- `ArrayIngestFillColumn` for the rows it carries. -/
theorem arrayIngestFillColumn_spec (c : IngestColumn) (row0 n : Nat) :
    ∃ k ≤ (c.rows row0 n).length, ∃ b,
      arrayIngestFillColumn c row0 n = (b ++ [PgArray.closeBrace], k) ∧
      Appends c.type 0 [PgArray.openBrace] ((c.rows row0 n).take k) b := by
  obtain ⟨k, hk, b, hfill, happ⟩ :=
    fillRows_appends c.type 0 [PgArray.openBrace] (c.rows row0 n)
  refine ⟨k, hk, b, ?_, happ⟩
  unfold arrayIngestFillColumn
  rw [hfill, Nat.zero_add]

/-- A literal is parsed, and to as many elements as it carries rows; they are read as the rows
exactly if the element type has every value. -/
theorem literal_parses {pg : PgInput} (hpg : pg.Documented) (c : IngestColumn) (row0 n : Nat) :
    ∃ es, PgArray.parse (arrayIngestFillColumn c row0 n).1 = some es ∧
      es.length = (arrayIngestFillColumn c row0 n).2 ∧
      (List.Forall₂ (RowReads pg c.type) es
          ((c.rows row0 n).take (arrayIngestFillColumn c row0 n).2) ↔
        ∀ v ∈ (c.rows row0 n).take (arrayIngestFillColumn c row0 n).2, RowExact c.type v) := by
  obtain ⟨k, hk, b, hfill, happ⟩ := arrayIngestFillColumn_spec c row0 n
  have hholds := @Appends.holds _ _ _ _ [] happ PgArray.holds_nil
  rw [hfill]
  refine ⟨_, hholds.parse, ?_, happ.says_iff hpg⟩
  rw [List.nil_append, List.length_map, List.length_take, Nat.min_eq_left hk]

end AdbcBridge.Bind.ArrayLiteral
