import AdbcBridge.Lib.Civil
import AdbcBridge.Lib.Numeral

/-!
# Input functions of PostgreSQL

What a server takes from a text is the business of the type's input function.  The functions
are arbitrary here but for the texts that the manual describes: an integer, a numeral within
the limits of `numeric`, a date of ISO 8601, and a time of day, alone or behind a date, whose
fraction is a whole number of microseconds.
-/

namespace AdbcBridge.Lib

/-- The input functions; `none` refuses the text.  A date is its day, counted from the beginning
of 1970, a time the microseconds since midnight, a timestamp those since 1970. -/
structure PgInput where
  boolean : List Char → Option Bool
  bigint : List Char → Option Int
  numeric : List Char → Option ℚ
  date : List Char → Option Int
  time : List Char → Option Int
  timestamp : List Char → Option Int

namespace PgInput

/-- A `numeric` has up to 131072 digits before the point. -/
def numericBound : ℚ := 10 ^ 131072

/-- A `numeric` has up to 16383 digits behind the point. -/
def numericDigits : Nat := 16383

/-- The text `YYYY-MM-DD` of a day. -/
def SaysDate (text : List Char) (day : Int) : Prop :=
  ∃ y m d year month dayOfMonth, FixedField 4 y year ∧ FixedField 2 m month ∧
    FixedField 2 d dayOfMonth ∧ 1 ≤ y ∧ Civil.Legal y m d ∧ Civil.dayNumber y m d = day ∧
    text = year ++ '-' :: month ++ '-' :: dayOfMonth

/-- The text `HH:MM:SS` of a time of day in microseconds, with any number of digits that add up to
whole microseconds behind a point. -/
def SaysTime (text : List Char) (micros : Int) : Prop :=
  ∃ h m s hour minute second frac, FixedField 2 h hour ∧ FixedField 2 m minute ∧
    FixedField 2 s second ∧ AllDigits frac ∧ h < 24 ∧ m < 60 ∧ s < 60 ∧
    (∃ f : Nat, digitsValue frac * 10 ^ 6 = f * 10 ^ frac.length ∧
      micros = ((h * 60 + m) * 60 + s) * 10 ^ 6 + f) ∧
    text = hour ++ ':' :: minute ++ ':' :: second ++ if frac = [] then [] else '.' :: frac

/-- What the manual says of the functions. -/
structure Documented (pg : PgInput) : Prop where
  boolean : pg.boolean ['t'] = some true ∧ pg.boolean ['f'] = some false
  bigint : ∀ v : Int, -2 ^ 63 ≤ v → v < 2 ^ 63 → pg.bigint (Decimal.intText v) = some v
  numeric : ∀ n : Numeral, ∀ text, n.Writes text →
    pg.numeric text =
      if |n.value| < numericBound ∧ n.frac.length ≤ numericDigits then some n.value else none
  date : ∀ text day, SaysDate text day → pg.date text = some day
  time : ∀ text micros, SaysTime text micros → pg.time text = some micros
  timestamp : ∀ date time day micros, SaysDate date day → SaysTime time micros →
    pg.timestamp (date ++ ' ' :: time) = some (day * 86400000000 + micros)

/-! ## Functions that read the fields where they stand -/

def dateAt : List Char → Option Int
  | y₁ :: y₂ :: y₃ :: y₄ :: '-' :: m₁ :: m₂ :: '-' :: d₁ :: d₂ :: [] =>
      some (Civil.dayNumber (digitsValue [y₁, y₂, y₃, y₄]) (digitsValue [m₁, m₂])
        (digitsValue [d₁, d₂]))
  | _ => none

/-- A fraction is cut to microseconds. -/
def timeAt : List Char → Option Int
  | h₁ :: h₂ :: ':' :: m₁ :: m₂ :: ':' :: s₁ :: s₂ :: tail =>
      some (((digitsValue [h₁, h₂] * 60 + digitsValue [m₁, m₂]) * 60 + digitsValue [s₁, s₂]) *
        10 ^ 6 + (digitsValue tail.tail * 10 ^ 6 / 10 ^ tail.tail.length : Nat))
  | _ => none

def fieldwise : PgInput where
  boolean := fun text =>
    if text = ['t'] then some true else if text = ['f'] then some false else none
  bigint := fun text => (Decimal.parseInt text).filter fun v => -2 ^ 63 ≤ v ∧ v < 2 ^ 63
  numeric := fun text =>
    (Numeral.parse text).bind fun n =>
      if |n.value| < numericBound ∧ n.frac.length ≤ numericDigits then some n.value else none
  date := dateAt
  time := timeAt
  timestamp := fun text => do
    let day ← dateAt (text.take 10)
    let micros ← timeAt (text.drop 11)
    some (day * 86400000000 + micros)

theorem two_chars {n : Nat} {text : List Char} (h : FixedField 2 n text) :
    ∃ a b, text = [a, b] ∧ digitsValue [a, b] = n := by
  obtain ⟨a, b, rfl⟩ := List.length_eq_two.mp h.length
  exact ⟨a, b, rfl, h.value⟩

theorem dateAt_reads {text : List Char} {day : Int} (h : SaysDate text day) :
    dateAt text = some day ∧ text.length = 10 := by
  obtain ⟨y, m, d, year, month, dayOfMonth, hyear, hmonth, hday, -, -, hnumber, rfl⟩ := h
  obtain ⟨m₁, m₂, rfl, hm⟩ := two_chars hmonth
  obtain ⟨d₁, d₂, rfl, hd⟩ := two_chars hday
  obtain ⟨y₁, y₂, y₃, y₄, rfl⟩ : ∃ y₁ y₂ y₃ y₄, year = [y₁, y₂, y₃, y₄] := by
    match year, hyear.length with
    | [y₁, y₂, y₃, y₄], _ => exact ⟨y₁, y₂, y₃, y₄, rfl⟩
  refine ⟨?_, rfl⟩
  show some (Civil.dayNumber (digitsValue [y₁, y₂, y₃, y₄]) (digitsValue [m₁, m₂])
    (digitsValue [d₁, d₂])) = _
  rw [hyear.value, hm, hd, hnumber]

theorem timeAt_reads {text : List Char} {micros : Int} (h : SaysTime text micros) :
    timeAt text = some micros := by
  obtain ⟨h, m, s, hour, minute, second, frac, hhour, hminute, hsecond, -, -, -, -,
    ⟨f, hf, rfl⟩, rfl⟩ := h
  obtain ⟨h₁, h₂, rfl, hh⟩ := two_chars hhour
  obtain ⟨m₁, m₂, rfl, hm⟩ := two_chars hminute
  obtain ⟨s₁, s₂, rfl, hs⟩ := two_chars hsecond
  have htail : (if frac = [] then [] else '.' :: frac).tail = frac := by
    by_cases hnil : frac = []
    · rw [if_pos hnil, hnil]
      rfl
    · rw [if_neg hnil]
      rfl
  have hcut : digitsValue frac * 10 ^ 6 / 10 ^ frac.length = f := by
    rw [hf, Nat.mul_div_cancel _ (Nat.pow_pos (by omega))]
  have hread (tail : List Char) :
      timeAt ([h₁, h₂] ++ ':' :: [m₁, m₂] ++ ':' :: [s₁, s₂] ++ tail) =
        some ((((digitsValue [h₁, h₂] : Int) * 60 + digitsValue [m₁, m₂]) * 60 +
          digitsValue [s₁, s₂]) * 10 ^ 6 +
            (digitsValue tail.tail * 10 ^ 6 / 10 ^ tail.tail.length : Nat)) := rfl
  rw [hread, htail, hcut, hh, hm, hs]

theorem fieldwise_documented : fieldwise.Documented where
  boolean := ⟨by decide, by decide⟩
  bigint := by
    intro v hle hlt
    show (Decimal.parseInt (Decimal.intText v)).filter _ = _
    rw [Decimal.parseInt_intText]
    exact Option.filter_some_pos (by simpa using ⟨hle, hlt⟩)
  numeric := by
    intro n text hwrites
    show (Numeral.parse text).bind _ = _
    rw [Numeral.parse_eq_some_iff.mpr hwrites]
    rfl
  date := fun text day h => (dateAt_reads h).1
  time := fun text micros h => timeAt_reads h
  timestamp := by
    intro date time day micros hdate htime
    obtain ⟨hday, hlength⟩ := dateAt_reads hdate
    have htake : (date ++ ' ' :: time).take 10 = date := by
      rw [← hlength, List.take_left]
    have hdrop : (date ++ ' ' :: time).drop 11 = time := by
      rw [show 11 = date.length + 1 by omega, List.drop_length_add_append]
      rfl
    show (dateAt _).bind (fun day => (timeAt _).bind _) = _
    rw [htake, hdrop, hday, timeAt_reads htime]
    rfl

end PgInput

end AdbcBridge.Lib
