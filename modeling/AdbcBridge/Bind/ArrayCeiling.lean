import AdbcBridge.Bind.ArrayLiteral
import AdbcBridge.Bind.Unnest

/-!
# What one array statement carries

`ArrayIngestExecuteBatch` narrows the rows until the literals of all columns carry the same.
The ceiling of a literal is looked at in front of a text that is not the first row, and
nowhere else.
-/

namespace AdbcBridge.Bind.ArrayLiteral

open AdbcBridge.Adbc AdbcBridge.Lib AdbcBridge.Reader AdbcBridge.Bind.Session
  AdbcBridge.Bind.Unnest

/-! ## The bytes of a literal -/

/-- The point and the digits behind it. -/
def fractionBytes (unit : ArrowTimeUnit) : Nat :=
  if fractionalDigits unit = 0 then 0 else 1 + fractionalDigits unit

/-- The bytes that a value takes: a text its own, with one more for each quote and each
backslash and for the two quotes around it. -/
def valueBytes : (t : IngestType) → t.Value → Nat
  | .bool, _ => 1
  | .int, v => (if v.toInt < 0 then 1 else 0) + (Nat.toDigits 10 v.toInt.natAbs).length
  | .uint, v => (Nat.toDigits 10 v.toNat).length
  | .decimal scale, v => decimalLength v scale
  | .date32, _ => 10
  | .time unit, _ => 8 + fractionBytes unit
  | .timestamp unit, _ => 19 + fractionBytes unit
  | .text, s => s.length + (s.countP fun c => c = PgArray.quote ∨ c = PgArray.backslash) + 2

/-- The bytes of a row: NULL is a word of four. -/
def rowBytes (t : IngestType) : Option t.Value → Nat
  | none => 4
  | some v => valueBytes t v

/-- The bytes that the rows of a column take: the opening brace, and each row with the delimiter
or the brace behind it. -/
def columnBytes (t : IngestType) (vs : List (Option t.Value)) : Nat :=
  1 + (vs.map fun v => rowBytes t v + 1).sum

theorem length_ascii (text : List Char) : (ascii text).length = text.length :=
  List.length_map _

theorem length_clockText {unit : ArrowTimeUnit} {h m s f : Nat}
    {hour minute second frac : List Char} (hhour : FixedField 2 h hour)
    (hminute : FixedField 2 m minute) (hsecond : FixedField 2 s second)
    (hfrac : fractionalDigits unit ≠ 0 → FixedField (fractionalDigits unit) f frac) :
    (clockText (fractionalDigits unit) hour minute second frac).length =
      8 + fractionBytes unit := by
  unfold clockText fractionBytes
  simp only [List.length_append, List.length_cons, hhour.length, hminute.length, hsecond.length]
  split
  · rfl
  · rename_i hdigits
    rw [List.length_cons, (hfrac hdigits).length]
    omega

theorem length_timeText (unit : ArrowTimeUnit) (v : Int) :
    (timeTextFromArrow v unit).length = 8 + fractionBytes unit := by
  have hpos : 0 < 86400 * unit.ticksPerSecond := by
    have := unit.ticksPerSecond_pos
    omega
  have hday : IsTimeOfDay unit (v % (86400 * unit.ticksPerSecond)) :=
    ⟨Int.emod_nonneg _ hpos.ne', Int.emod_lt_of_pos _ hpos⟩
  obtain ⟨hour, minute, second, frac, htext, hhour, hminute, hsecond, hfrac⟩ :=
    timeTextFromArrow_fields hday
  rw [← timeTextFromArrow_wraps, htext]
  exact length_clockText hhour hminute hsecond hfrac

theorem length_timestampText {unit : ArrowTimeUnit} {v : Int} (h : InYears unit v) :
    (timestampText unit v).length = 19 + fractionBytes unit := by
  obtain ⟨hlegal, -⟩ := (timestampFromArrow_denotes_iff v unit).mpr h.yearFits
  obtain ⟨year, month, day, hour, minute, second, frac, htext, hyear, hmonth, hday, hhour,
    hminute, hsecond, hfrac⟩ := timestampTextFromStruct_fields hlegal h.year unit
  unfold timestampText
  rw [htext, List.length_append, List.length_cons,
    length_clockText hhour hminute hsecond hfrac]
  simp only [List.length_append, List.length_cons, hyear.length, hmonth.length, hday.length]
  omega

theorem length_quoteElement (s : List UInt8) :
    (PgArray.quoteElement s).length =
      s.length + (s.countP fun c => c = PgArray.quote ∨ c = PgArray.backslash) + 2 := by
  have hescape : (PgArray.escape s).length =
      s.length + s.countP fun c => c = PgArray.quote ∨ c = PgArray.backslash := by
    induction s with
    | nil => rfl
    | cons c s ih =>
        unfold PgArray.escape at ih ⊢
        rw [List.flatMap_cons, List.length_append, ih, List.countP_cons, List.length_cons]
        by_cases hc : c = PgArray.quote ∨ c = PgArray.backslash
        · rw [if_pos hc, if_pos (decide_eq_true hc)]
          simp only [List.length_cons, List.length_nil]
          omega
        · rw [if_neg hc, if_neg (by simpa using hc)]
          simp only [List.length_cons, List.length_nil]
          omega
  unfold PgArray.quoteElement
  rw [List.length_append, List.length_cons, List.length_singleton, hescape]

/-- The years 1 to 9999 of a day, as the range check of a date has them. -/
theorem date_in_years (v : Int32) :
    ¬ ((civilFromDays v.toInt).1 < 1 ∨ 9999 < (civilFromDays v.toInt).1) ↔
      Civil.dayNumber 1 1 1 ≤ v.toInt ∧ v.toInt ≤ Civil.dayNumber 9999 12 31 := by
  obtain ⟨hlegal, hday⟩ := civilOfDays_spec v.toInt
  have hyear : (civilFromDays v.toInt).1 = (civilOfDays v.toInt).1 := year_int32 v
  have hfrom := Civil.le_year_iff hlegal 1
  have hto := Civil.le_year_iff hlegal 10000
  have hend : Civil.dayNumber 10000 1 1 = Civil.dayNumber 9999 12 31 + 1 := by decide
  rw [hday] at hfrom hto
  rw [hyear]
  omega

/-- The text of a value has the bytes that the value takes. -/
theorem length_renderElement {t : IngestType} {v : t.Value} {item : List UInt8}
    (h : renderElement t v = some item) : item.length = valueBytes t v := by
  cases t with
  | bool =>
      rw [← Option.some.inj h]
      cases v <;> rfl
  | int =>
      rw [← Option.some.inj h, length_ascii]
      show (Decimal.intText v.toInt).length = (if v.toInt < 0 then 1 else 0) + _
      unfold Decimal.intText
      split
      · rw [List.length_cons, Nat.add_comm]
      · rw [Nat.zero_add]
  | uint =>
      rw [← Option.some.inj h, length_ascii]
      rfl
  | decimal scale =>
      rw [← Option.some.inj h, length_ascii]
      exact length_arrowDecimalString v scale
  | date32 =>
      rw [renderElement_date32] at h
      split at h
      · cases h
      · rename_i hrange
        obtain ⟨hlegal, hday⟩ := civilOfDays_spec v.toInt
        have hyear : (civilFromDays v.toInt).1 = (civilOfDays v.toInt).1 := year_int32 v
        have hmd : (civilFromDays v.toInt).2 = (civilOfDays v.toInt).2 := rfl
        rw [hyear] at hrange
        rw [← Option.some.inj h, length_ascii, hyear, hmd]
        exact (PgInput.dateAt_reads (dateText_spells (by omega) hlegal hday)).2
  | time unit =>
      rw [← Option.some.inj h, length_ascii]
      exact length_timeText unit _
  | timestamp unit =>
      rw [renderElement_timestamp] at h
      split at h
      · rename_i hyears
        rw [← Option.some.inj h, length_ascii]
        exact length_timestampText hyears
      · cases h
  | text =>
      rw [renderElement_text] at h
      split at h
      · cases h
      · rw [← Option.some.inj h]
        exact length_quoteElement v

theorem appendRow_length {t : IngestType} {i : Nat} {b b' : List UInt8} {v : Option t.Value}
    (h : appendRow t i b v = some b') :
    b'.length = b.length + (if 0 < i then 1 else 0) + rowBytes t v := by
  have hdelim : (if 0 < i then b ++ [PgArray.comma] else b).length =
      b.length + if 0 < i then 1 else 0 := by
    split
    · rw [List.length_append, List.length_singleton]
    · rfl
  rcases appendRow_cases h with ⟨rfl, hb'⟩ | ⟨x, item, rfl, hrender, -, hb'⟩
  · rw [hb', List.length_append, hdelim]
    rfl
  · rw [hb', List.length_append, hdelim, length_renderElement hrender]
    rfl

theorem Appends.length_behind {t : IngestType} {i : Nat} {b b' : List UInt8}
    {vs : List (Option t.Value)} (h : Appends t i b vs b') (hi : 0 < i) :
    b'.length = b.length + (vs.map fun v => rowBytes t v + 1).sum := by
  induction h with
  | nil => rfl
  | cons hone _ ih =>
      have hlength := appendRow_length hone
      rw [if_pos hi] at hlength
      rw [ih (by omega), hlength, List.map_cons, List.sum_cons]
      omega

/-- A literal of one row or more has the bytes of its rows. -/
theorem Appends.length {t : IngestType} {b' : List UInt8} {vs : List (Option t.Value)}
    (h : Appends t 0 [PgArray.openBrace] vs b') (hne : vs ≠ []) :
    (b' ++ [PgArray.closeBrace]).length = columnBytes t vs := by
  cases h with
  | nil => exact absurd rfl hne
  | cons hone htail =>
      have hfirst := appendRow_length hone
      have hrest := htail.length_behind (by omega)
      rw [if_neg (by omega), List.length_singleton] at hfirst
      unfold columnBytes
      rw [List.length_append, List.length_singleton, hrest, hfirst, List.map_cons, List.sum_cons]
      omega

/-! ## The rows that are carried -/

/-- Behind these rows the value can be spelled: a date or a timestamp lies in the years 1 to 9999,
and a text has no NUL and, unless it is the first, room for twice its bytes. -/
def Admits : (t : IngestType) → List (Option t.Value) → t.Value → Prop
  | .date32, _, v =>
      Civil.dayNumber 1 1 1 ≤ v.toInt ∧ v.toInt ≤ Civil.dayNumber 9999 12 31
  | .timestamp unit, _, v => InYears unit v.toInt
  | .text, front, s =>
      0 ∉ s ∧ (front = [] ∨ columnBytes .text front + s.length * 2 + 4 ≤ arrayIngestMaxBytes)
  | _, _, _ => True

/-- Every value can be spelled behind the rows in front of it. -/
def Admitted (t : IngestType) (vs : List (Option t.Value)) : Prop :=
  ∀ front x, front ++ [some x] <+: vs → Admits t front x

/-- The column has so many rows from there on, and all can be spelled. -/
structure Carried (c : IngestColumn) (row n : Nat) : Prop where
  length : (c.rows row n).length = n
  admitted : Admitted c.type (c.rows row n)

theorem appendRow_some_iff {t : IngestType} {front : List (Option t.Value)} {b : List UInt8}
    {x : t.Value} (hb : front ≠ [] → b.length + 1 = columnBytes t front) :
    (∃ b', appendRow t front.length b (some x) = some b') ↔ Admits t front x := by
  obtain ⟨b₀, hb₀⟩ : ∃ b₀, b₀ = if 0 < front.length then b ++ [PgArray.comma] else b := ⟨_, rfl⟩
  have hrow : (∃ b', appendRow t front.length b (some x) = some b') ↔
      ∃ item, renderElement t x = some item ∧
        overCeiling t front.length b₀.length x = false := by
    unfold appendRow
    dsimp only
    rw [← hb₀]
    cases hrender : renderElement t x with
    | none => simp
    | some item =>
        cases hover : overCeiling t front.length b₀.length x with
        | true => simp
        | false => simp
  have hsize : front ≠ [] → b₀.length = columnBytes t front := by
    intro hne
    rw [hb₀, if_pos (List.length_pos_of_ne_nil hne), List.length_append, List.length_singleton]
    exact hb hne
  rw [hrow]
  cases t with
  | bool | int | uint | decimal _ | time _ => exact iff_of_true ⟨_, rfl, rfl⟩ trivial
  | date32 =>
      show (∃ item, _ ∧ false = false) ↔ _ ∧ _
      rw [← date_in_years, renderElement_date32]
      split
      · rename_i hout
        exact iff_of_false (by simp) (not_not_intro hout)
      · rename_i hin
        exact iff_of_true ⟨_, rfl, rfl⟩ hin
  | timestamp unit =>
      show (∃ item, _ ∧ false = false) ↔ InYears unit x.toInt
      rw [renderElement_timestamp]
      split
      · rename_i hin
        exact iff_of_true ⟨_, rfl, rfl⟩ hin
      · rename_i hout
        exact iff_of_false (by simp) hout
  | text =>
      have hover : overCeiling .text front.length b₀.length x = false ↔
          (front = [] ∨ columnBytes .text front + x.length * 2 + 4 ≤ arrayIngestMaxBytes) := by
        show (decide (arrayIngestMaxBytes < b₀.length + x.length * 2 + 4) &&
          decide (0 < front.length)) = false ↔ _
        rw [Bool.and_eq_false_iff, decide_eq_false_iff_not, decide_eq_false_iff_not]
        by_cases hnil : front = []
        · exact iff_of_true (Or.inr (by simp [hnil])) (Or.inl hnil)
        · have hlength := List.length_pos_of_ne_nil hnil
          rw [hsize hnil, or_iff_left (by omega), or_iff_right hnil, not_lt]
      show (∃ item, _ ∧ _) ↔ 0 ∉ x ∧ _
      rw [← hover, renderElement_text]
      split
      · rename_i hnul
        exact iff_of_false (by simp) fun h => h.1 hnul
      · rename_i hnul
        rw [and_iff_right hnul]
        exact ⟨fun h => h.choose_spec.2, fun h => ⟨_, rfl, h⟩⟩

theorem Appends.snoc {t : IngestType} {i : Nat} {b b' b'' : List UInt8}
    {vs : List (Option t.Value)} {v : Option t.Value} (h : Appends t i b vs b')
    (hone : appendRow t (i + vs.length) b' v = some b'') : Appends t i b (vs ++ [v]) b'' := by
  induction h with
  | nil => exact .cons hone .nil
  | cons hfirst _ ih =>
      refine .cons hfirst (ih ?_)
      rwa [List.length_cons, Nat.add_comm _ 1, ← Nat.add_assoc] at hone

theorem Appends.size {t : IngestType} {b : List UInt8} {vs : List (Option t.Value)}
    (h : Appends t 0 [PgArray.openBrace] vs b) (hne : vs ≠ []) :
    b.length + 1 = columnBytes t vs := by
  rw [← h.length hne, List.length_append, List.length_singleton]

/-- Rows are appended exactly if every value can be spelled. -/
theorem appends_iff {t : IngestType} {vs : List (Option t.Value)} :
    (∃ b, Appends t 0 [PgArray.openBrace] vs b) ↔ Admitted t vs := by
  induction vs using List.reverseRecOn with
  | nil =>
      refine iff_of_true ⟨_, .nil⟩ fun front x hpre => ?_
      exact absurd (List.prefix_nil.mp hpre) (by simp)
  | append_singleton vs v ih =>
      have hlast {b : List UInt8} (happ : Appends t 0 [PgArray.openBrace] vs b) {x : t.Value} :
          (∃ b', appendRow t vs.length b (some x) = some b') ↔ Admits t vs x :=
        appendRow_some_iff happ.size
      constructor
      · intro happ
        obtain ⟨b', happ⟩ := happ
        obtain ⟨b, hfront, hone⟩ := happ.split
        intro front x hpre
        rcases List.prefix_concat_iff.mp hpre with hsame | hearlier
        · obtain ⟨rfl, hx⟩ := List.append_inj' hsame rfl
          obtain rfl := List.singleton_inj.mp hx
          apply (hlast hfront).mp
          rw [Nat.zero_add] at hone
          cases hone with
          | cons hone _ => exact ⟨_, hone⟩
        · exact ih.mp ⟨b, hfront⟩ front x hearlier
      · intro hadmitted
        obtain ⟨b, hfront⟩ := ih.mpr fun front x hpre =>
          hadmitted front x (hpre.trans (List.prefix_append vs [v]))
        cases v with
        | none => exact ⟨_, hfront.snoc rfl⟩
        | some x =>
            obtain ⟨b', hone⟩ := (hlast hfront).mpr (hadmitted vs x (List.prefix_refl _))
            exact ⟨b', hfront.snoc (by rwa [Nat.zero_add])⟩

/-- A value in front of a NULL is the only one that is asked for room. -/
theorem admitted_pair {t : IngestType} {x : t.Value} (h : Admits t [] x) :
    Admitted t [some x, none] := by
  intro front y hpre
  obtain ⟨rest, hrest⟩ := hpre
  match front with
  | [] =>
      have hy : y = x := Option.some.inj (List.cons.inj hrest).1
      rw [hy]
      exact h
  | [_] => exact absurd (List.cons.inj (List.cons.inj hrest).2).1 (by simp)
  | _ :: _ :: front =>
      have hlength := congrArg List.length hrest
      simp only [List.length_append, List.length_cons, List.length_nil] at hlength
      omega

/-! ## Narrowing -/

theorem fill_of_appends {c : IngestColumn} {row n : Nat} {b : List UInt8}
    (h : Appends c.type 0 [PgArray.openBrace] (c.rows row n) b) :
    arrayIngestFillColumn c row n = (b ++ [PgArray.closeBrace], (c.rows row n).length) := by
  unfold arrayIngestFillColumn
  rw [h.fillRows, Nat.zero_add]

theorem Appends.le_fillRows {t : IngestType} {i : Nat} {b b' : List UInt8}
    {vs : List (Option t.Value)} (h : Appends t i b vs b') (ws : List (Option t.Value)) :
    i + vs.length ≤ (ArrayLiteral.fillRows t i b (vs ++ ws)).2 := by
  induction h with
  | nil =>
      obtain ⟨k, -, b', hfill, -⟩ := fillRows_appends t _ _ ws
      rw [List.nil_append, hfill]
      exact Nat.le_add_right _ _
  | cons hone _ ih =>
      rw [List.cons_append, ArrayLiteral.fillRows, hone, List.length_cons]
      dsimp only
      omega

theorem rows_take (c : IngestColumn) (row : Nat) {k n : Nat} (hkn : k ≤ n) :
    (c.rows row n).take k = c.rows row k := by
  unfold IngestColumn.rows
  rw [List.take_take, Nat.min_eq_left hkn]

/-- A literal carries the rows up to the first that cannot be spelled. -/
theorem le_fit_iff (c : IngestColumn) (row : Nat) {k n : Nat} (hkn : k ≤ n) :
    k ≤ (arrayIngestFillColumn c row n).2 ↔ Carried c row k := by
  constructor
  · intro hk
    obtain ⟨j, hj, b, hfill, happ⟩ := arrayIngestFillColumn_spec c row n
    rw [hfill] at hk
    dsimp only at hk
    have hrows : ((c.rows row n).take j).take k = c.rows row k := by
      rw [List.take_take, Nat.min_eq_left hk, rows_take c row hkn]
    constructor
    · rw [← rows_take c row hkn, List.length_take, Nat.min_eq_left (hk.trans hj)]
    · rw [← List.take_append_drop k ((c.rows row n).take j), hrows] at happ
      obtain ⟨b', hfront, -⟩ := happ.split
      exact appends_iff.mp ⟨b', hfront⟩
  · intro hcarried
    obtain ⟨b, happ⟩ := appends_iff.mpr hcarried.admitted
    have hle := happ.le_fillRows ((c.rows row n).drop k)
    rw [← rows_take c row hkn, List.take_append_drop, rows_take c row hkn, Nat.zero_add,
      hcarried.length] at hle
    exact hle

/-- A batch of these columns, as the loop of `ArrayIngestExecuteBatch` looks at it: every
column is rendered, and the smallest `fit` is kept. -/
def ingestBatch (cols : List IngestColumn) (length : Nat) : Batch where
  length := length
  fit := fun row n => cols.foldr (fun c s => min (arrayIngestFillColumn c row n).2 s) n

theorem le_foldr_min_iff (cols : List IngestColumn) (f : IngestColumn → Nat) {k n : Nat}
    (hkn : k ≤ n) :
    k ≤ cols.foldr (fun c s => min (f c) s) n ↔ ∀ c ∈ cols, k ≤ f c := by
  induction cols with
  | nil => exact iff_of_true hkn fun c hc => by cases hc
  | cons c cols ih => rw [List.foldr_cons, le_min_iff, ih, List.forall_mem_cons]

/-- The loop ends, with the most rows that every column carries. -/
theorem arrayIngestFit_spec (cols : List IngestColumn) (length row n : Nat) :
    ∃ m : {m : Nat // m ≤ n}, arrayIngestFit (ingestBatch cols length) row n = some m ∧
      ∀ k ≤ n, k ≤ m.1 ↔ ∀ c ∈ cols, Carried c row k := by
  induction n using Nat.strongRecOn with
  | ind n ih =>
      have hfit (k : Nat) (hk : k ≤ n) :
          k ≤ min n ((ingestBatch cols length).fit row n) ↔ ∀ c ∈ cols, Carried c row k := by
        rw [le_min_iff, and_iff_right hk]
        show k ≤ cols.foldr _ n ↔ _
        rw [le_foldr_min_iff cols _ hk]
        exact forall₂_congr fun c _ => le_fit_iff c row hk
      rw [arrayIngestFit, if_pos (show (ingestBatch cols length).renders row n = true from rfl)]
      dsimp only
      by_cases hall : min n ((ingestBatch cols length).fit row n) = n
      · rw [hall] at hfit
        rw [if_pos hall]
        exact ⟨⟨n, Nat.le_refl n⟩, rfl, hfit⟩
      · rw [if_neg hall]
        by_cases hnone : min n ((ingestBatch cols length).fit row n) = 0
        · rw [hnone] at hfit
          rw [if_pos hnone]
          exact ⟨⟨0, Nat.zero_le n⟩, rfl, hfit⟩
        · rw [if_neg hnone]
          have hless : min n ((ingestBatch cols length).fit row n) < n := by omega
          obtain ⟨m, hm, hlongest⟩ := ih _ hless
          refine ⟨⟨m.1, by have := m.2; omega⟩, ?_, ?_⟩
          · rw [hm]
            rfl
          · intro k hk
            constructor
            · intro hkm
              exact (hfit k hk).mp (le_trans hkm m.2)
            · intro hcarried
              have hle := (hfit k hk).mpr hcarried
              exact (hlongest k hle).mpr hcarried

/-! ## Behind a text -/

/-- The last row of a column is a text. -/
def EndsInText (c : IngestColumn) (row n : Nat) : Prop :=
  c.type = .text ∧ ∃ v, (c.rows row n).getLast? = some (some v)

/-- Behind a text that is not the first row the literal is below the ceiling. -/
theorem length_of_text {i : Nat} {b b' : List UInt8} {s : List UInt8} (hi : 0 < i)
    (h : appendRow .text i b (some s) = some b') :
    (b' ++ [PgArray.closeBrace]).length ≤ arrayIngestMaxBytes := by
  rcases appendRow_cases h with ⟨hnone, -⟩ | ⟨x, item, hx, hrender, hunder, hb'⟩
  · cases hnone
  · rw [renderElement_text] at hrender
    split at hrender
    · cases hrender
    · have hitem : item.length ≤ 2 * x.length + 2 := by
        rw [← Option.some.inj hrender, length_quoteElement]
        have hmost := List.countP_le_length
          (p := fun c => decide (c = PgArray.quote ∨ c = PgArray.backslash)) (l := x)
        omega
      have hroom : ¬ arrayIngestMaxBytes <
          (if 0 < i then b ++ [PgArray.comma] else b).length + x.length * 2 + 4 := by
        have hceiling (size : Nat) : overCeiling .text i size x =
            (decide (arrayIngestMaxBytes < size + x.length * 2 + 4) && decide (0 < i)) := rfl
        rw [hceiling, decide_eq_true hi, Bool.and_true] at hunder
        exact of_decide_eq_false hunder
      rw [hb', List.length_append, List.length_append, List.length_singleton]
      omega

theorem Appends.length_text {b' : List UInt8} {vs : List (Option IngestType.text.Value)}
    {s : IngestType.text.Value}
    (h : Appends .text 0 [PgArray.openBrace] vs b') (hlast : vs.getLast? = some (some s))
    (hlong : vs.length ≠ 1) : (b' ++ [PgArray.closeBrace]).length ≤ arrayIngestMaxBytes := by
  obtain ⟨front, rfl⟩ := List.getLast?_eq_some_iff.mp hlast
  obtain ⟨b, -, hone⟩ := h.split
  rw [List.length_append, List.length_singleton] at hlong
  cases hone with
  | cons hone htail =>
      cases htail
      exact length_of_text (by omega) hone

/-! ## One statement -/

/-- What the literal of a column is to be: it carries the rows of the statement, is parsed as
them, and fits the ceiling unless it carries a single row. -/
structure Carries (pg : PgInput) (c : IngestColumn) (row n : Nat) : Prop where
  aligned : (arrayIngestFillColumn c row n).2 = n
  tells : ∃ es, PgArray.parse (arrayIngestFillColumn c row n).1 = some es ∧
    List.Forall₂ (RowReads pg c.type) es (c.rows row n)
  fits : n = 1 ∨ (arrayIngestFillColumn c row n).1.length ≤ arrayIngestMaxBytes

/-- Rows that a literal carries as it should: the element type has every value, and the values
have room below the ceiling unless there is one, or the last is a text. -/
structure Carriable (c : IngestColumn) (row n : Nat) : Prop where
  exact : ∀ v ∈ c.rows row n, RowExact c.type v
  room : n = 1 ∨ EndsInText c row n ∨ columnBytes c.type (c.rows row n) ≤ arrayIngestMaxBytes

theorem carries_iff {pg : PgInput} (hpg : pg.Documented) {c : IngestColumn} {row n : Nat}
    (hn : n ≠ 0) (hcarried : Carried c row n) : Carries pg c row n ↔ Carriable c row n := by
  obtain ⟨hlength, hadmitted⟩ := hcarried
  obtain ⟨b, happ⟩ := appends_iff.mpr hadmitted
  have hfill := fill_of_appends happ
  rw [hlength] at hfill
  have hparse : PgArray.parse (b ++ [PgArray.closeBrace]) =
      some ((c.rows row n).map (rowElement c.type)) := by
    have hholds := @Appends.holds _ _ _ _ [] happ PgArray.holds_nil
    exact hholds.parse
  have hbytes := happ.length (List.ne_nil_of_length_pos (by omega))
  constructor
  · intro h
    obtain ⟨-, ⟨es, hes, hmeans⟩, hfits⟩ := h
    rw [hfill] at hes hfits
    refine ⟨?_, ?_⟩
    · rw [hparse, Option.some.injEq] at hes
      rw [← hes] at hmeans
      exact (happ.says_iff hpg).mp hmeans
    · rcases hfits with hone | hfits
      · exact Or.inl hone
      · exact Or.inr (Or.inr (hbytes ▸ hfits))
  · intro h
    obtain ⟨hexact, hroom⟩ := h
    refine ⟨?_, ⟨_, ?_, (happ.says_iff hpg).mpr hexact⟩, ?_⟩
    · rw [hfill]
    · rw [hfill]
      exact hparse
    · rw [hfill]
      by_cases hone : n = 1
      · exact Or.inl hone
      · apply Or.inr
        rcases hroom with hone' | htext | hroom
        · exact absurd hone' hone
        · obtain ⟨htype, v, hlast⟩ := htext
          obtain ⟨type, values⟩ := c
          dsimp only at htype
          subst htype
          exact happ.length_text hlast (by omega)
        · exact hbytes ▸ hroom

/-- A literal carries the rows up to the first that cannot be spelled and is parsed to as many
elements, which are read as the rows exactly if the element type has every value.  The loop ends
with the most rows that every column can carry, and of these a column carries as it should exactly
those that can be carried. -/
theorem arrayIngest_carries_iff {pg : PgInput} (hpg : pg.Documented) (cols : List IngestColumn)
    (length row n : Nat) :
    (∀ c ∈ cols, (∀ k ≤ n, k ≤ (arrayIngestFillColumn c row n).2 ↔ Carried c row k) ∧
      ∃ es, PgArray.parse (arrayIngestFillColumn c row n).1 = some es ∧
        es.length = (arrayIngestFillColumn c row n).2 ∧
        (List.Forall₂ (RowReads pg c.type) es
            ((c.rows row n).take (arrayIngestFillColumn c row n).2) ↔
          ∀ v ∈ (c.rows row n).take (arrayIngestFillColumn c row n).2, RowExact c.type v)) ∧
    ∃ m : {m : Nat // m ≤ n}, arrayIngestFit (ingestBatch cols length) row n = some m ∧
      (∀ k ≤ n, k ≤ m.1 ↔ ∀ c ∈ cols, Carried c row k) ∧
      (m.1 ≠ 0 → ∀ c ∈ cols, Carries pg c row m.1 ↔ Carriable c row m.1) := by
  refine ⟨fun c _ => ⟨fun k hk => le_fit_iff c row hk, literal_parses hpg c row n⟩, ?_⟩
  obtain ⟨m, hm, hlongest⟩ := arrayIngestFit_spec cols length row n
  refine ⟨m, hm, hlongest, fun hpos c hc => ?_⟩
  exact carries_iff hpg hpos ((hlongest m.1 m.2).mp (Nat.le_refl _) c hc)

/-- A microsecond behind midnight of 1970, and NULL. -/
def oneMicrosecond : IngestColumn := ⟨.timestamp .micro, [some 1, none]⟩

theorem oneMicrosecond_carried : Carried oneMicrosecond 0 2 :=
  ⟨rfl, admitted_pair (show InYears .micro (Int64.toInt 1) by decide)⟩

/-- Both rows are carried as they should. -/
theorem oneMicrosecond_carries :
    ∃ m : {m : Nat // m ≤ 2}, m.1 = 2 ∧
      arrayIngestFit (ingestBatch [oneMicrosecond] 2) 0 2 = some m ∧
      Carries PgInput.fieldwise oneMicrosecond 0 2 := by
  obtain ⟨-, m, hm, hlongest, hcarries⟩ :=
    arrayIngest_carries_iff PgInput.fieldwise_documented [oneMicrosecond] 2 0 2
  have htwo : m.1 = 2 := by
    have hle := (hlongest 2 (Nat.le_refl 2)).mpr
      (List.forall_mem_singleton.mpr oneMicrosecond_carried)
    have hmost := m.2
    omega
  refine ⟨m, htwo, hm, ?_⟩
  have hiff := hcarries (by omega) oneMicrosecond List.mem_cons_self
  rw [htwo] at hiff
  apply hiff.mpr
  constructor
  · show ∀ v ∈ [some (1 : Int64), none], RowExact (.timestamp .micro) v
    rw [List.forall_mem_cons, List.forall_mem_singleton]
    exact ⟨Dvd.intro_left (Int64.toInt 1) rfl, trivial⟩
  · exact Or.inr (Or.inr (by decide))

/-! ## Where a literal fails -/

/-- A text and a NULL behind it. -/
def textThenNull (s : List UInt8) : IngestColumn := ⟨.text, [some s, none]⟩

theorem textThenNull_carried {s : List UInt8} (hnul : 0 ∉ s) : Carried (textThenNull s) 0 2 :=
  ⟨rfl, admitted_pair (t := .text) ⟨hnul, Or.inl rfl⟩⟩

/-- Nothing looks at the ceiling: not for the first row, and not for a NULL. -/
theorem textThenNull_over {pg : PgInput} (hpg : pg.Documented) {s : List UInt8} (hnul : 0 ∉ s)
    (hlong : arrayIngestMaxBytes ≤ s.length) :
    (∃ m : {m : Nat // m ≤ 2}, m.1 = 2 ∧
      arrayIngestFit (ingestBatch [textThenNull s] 2) 0 2 = some m) ∧
    ¬ Carries pg (textThenNull s) 0 2 := by
  have hcarried := textThenNull_carried hnul
  constructor
  · obtain ⟨m, hm, hlongest⟩ := arrayIngestFit_spec [textThenNull s] 2 0 2
    have hle := (hlongest 2 (Nat.le_refl 2)).mpr (List.forall_mem_singleton.mpr hcarried)
    exact ⟨m, by have := m.2; omega, hm⟩
  · rw [carries_iff hpg (by omega) hcarried]
    intro hcarriable
    rcases hcarriable.room with hone | ⟨-, v, hlast⟩ | hroom
    · omega
    · cases hlast
    · have hbytes : columnBytes .text ((textThenNull s).rows 0 2) =
          1 + (valueBytes .text s + 1 + (4 + 1 + 0)) := rfl
      have hvalue : s.length ≤ valueBytes .text s := by
        show s.length ≤ s.length + _ + 2
        omega
      have hsize : columnBytes .text ((textThenNull s).rows 0 2) ≤ arrayIngestMaxBytes := hroom
      omega

/-- A nanosecond behind midnight of 1970. -/
def oneNanosecond : IngestColumn := ⟨.timestamp .nano, [some 1]⟩

/-- No number of microseconds is a nanosecond. -/
theorem oneNanosecond_lost (pg : PgInput) : ¬ Carries pg oneNanosecond 0 1 := by
  intro hcarries
  obtain ⟨es, -, hreads⟩ := hcarries.tells
  obtain ⟨e, -, hread, -, -⟩ := List.forall₂_cons_right_iff.mp
    (show List.Forall₂ (RowReads pg (.timestamp .nano)) es [some (1 : Int64)] from hreads)
  cases e with
  | none => exact hread
  | some text =>
      obtain ⟨us, -, hus⟩ := hread
      have hone : us * 1000 = 1 := hus
      omega

/-- Two rows in more than the ceiling, and a nanosecond that is not in its text. -/
theorem literals_fail :
    ((∃ m : {m : Nat // m ≤ 2}, m.1 = 2 ∧
        arrayIngestFit
          (ingestBatch [textThenNull (List.replicate arrayIngestMaxBytes 97)] 2) 0 2 = some m) ∧
      ¬ Carries PgInput.fieldwise (textThenNull (List.replicate arrayIngestMaxBytes 97)) 0 2) ∧
    ¬ Carries PgInput.fieldwise oneNanosecond 0 1 := by
  refine ⟨textThenNull_over PgInput.fieldwise_documented ?_ ?_, oneNanosecond_lost _⟩
  · rw [List.mem_replicate]
    exact fun h => absurd h.2 (by decide)
  · rw [List.length_replicate]

end AdbcBridge.Bind.ArrayLiteral
