import AdbcBridge.Bind.TimeText
import AdbcBridge.Reader.DateTime

/-!
# Times and timestamps read from text

The scanners take a text from its front and return what they leave of it.  Behind the
civil part of a timestamp an offset from UTC may stand; a character that begins one is
none that a scanner of the civil part takes, so the civil part is read alike with an
offset behind it and without.
-/

namespace AdbcBridge.Reader

open AdbcBridge.Adbc AdbcBridge.Lib

/-! ## Scanners -/

/-- `ScanUInt`: the digits at the front, up to so many. -/
def scanUInt (maxDigits : Nat) (s : List Char) : Option (Nat × List Char) :=
  let ds := (s.take maxDigits).takeWhile Char.isDigit
  if ds = [] then none else some (digitsValue ds, s.drop ds.length)

/-- `ScanFractionDigits`: digits behind the wanted ones are dropped, missing ones zero. -/
def scanFractionDigits (want : Nat) (s : List Char) : Nat × List Char :=
  if s.head? = some '.' ∨ s.head? = some ',' then
    let ds := s.tail.takeWhile Char.isDigit
    (digitsValue ((ds ++ List.replicate want '0').take want), s.tail.drop ds.length)
  else (0, s)

def isBlank (c : Char) : Bool := c = ' ' || c = '\t' || c = '\x00'

/-- `SkipBlanks`. -/
def skipBlanks (s : List Char) : List Char := s.dropWhile isBlank

/-- A character that must stand at the front. -/
def scanChar (c : Char) (s : List Char) : Option (List Char) :=
  if s.head? = some c then some s.tail else none

/-- A time of day as it is scanned. -/
structure ScannedClock where
  hour : Nat
  minute : Nat
  second : Nat
  frac : Nat
deriving DecidableEq, Repr

/-- `[:SS]`. -/
def scanSecond (s : List Char) : Option (Nat × List Char) :=
  if s.head? = some ':' then scanUInt 2 s.tail else some (0, s)

/-- `HH:MM[:SS[.frac]]`, the part that both parsers have. -/
def scanClock (fracDigits : Nat) (s : List Char) : Option (ScannedClock × List Char) := do
  let (h, s) ← scanUInt 2 s
  let s ← scanChar ':' s
  let (m, s) ← scanUInt 2 s
  let (sec, s) ← scanSecond s
  let (frac, s) := scanFractionDigits fracDigits s
  some ({ hour := h, minute := m, second := sec, frac }, s)

/-- `ParseTimeScaled`. -/
def parseTimeScaled (fracDigits : Nat) (s : List Char) : Option Int := do
  let (t, s) ← scanClock fracDigits (skipBlanks s)
  if skipBlanks s ≠ [] then none
  else if 23 < t.hour ∨ 59 < t.minute ∨ 59 < t.second then none
  else some (((t.hour * 60 + t.minute) * 60 + t.second) * 10 ^ fracDigits + t.frac)

/-- A date and a time of day as they are scanned. -/
structure ScannedCivil where
  year : Nat
  month : Nat
  day : Nat
  clock : ScannedClock
deriving DecidableEq, Repr

/-- `[[ T]HH:MM[:SS[.frac]]]`. -/
def scanTimePart (fracDigits : Nat) (s : List Char) : Option (ScannedClock × List Char) :=
  if s.head? = some ' ' ∨ s.head? = some 'T' ∨ s.head? = some 't' then
    scanClock fracDigits (skipBlanks s.tail)
  else some ({ hour := 0, minute := 0, second := 0, frac := 0 }, s)

/-- `YYYY-MM-DD[[ T]HH:MM[:SS[.frac]]]`. -/
def scanCivil (fracDigits : Nat) (s : List Char) : Option (ScannedCivil × List Char) := do
  let (y, s) ← scanUInt 4 (skipBlanks s)
  let s ← scanChar '-' s
  let (mo, s) ← scanUInt 2 s
  let s ← scanChar '-' s
  let (d, s) ← scanUInt 2 s
  let (clock, s) ← scanTimePart fracDigits s
  some ({ year := y, month := mo, day := d, clock }, s)

/-- `[[:]MM]` behind the hours of an offset. -/
def scanOffsetMinutes (s : List Char) : Option (Nat × List Char) :=
  if s.head? = some ':' then scanUInt 2 s.tail
  else if s.head?.any Char.isDigit = true then scanUInt 2 s
  else some (0, s)

/-- `[Z|(+|-)HH[:]MM]`, in seconds. -/
def scanOffset (s : List Char) : Option (Int × List Char) :=
  if s.head? = some 'Z' ∨ s.head? = some 'z' then some (0, s.tail)
  else if s.head? = some '+' ∨ s.head? = some '-' then do
    let sign : Int := if s.head? = some '-' then -1 else 1
    let (oh, s) ← scanUInt 2 s.tail
    let (om, s) ← scanOffsetMinutes s
    if 23 < oh ∨ 59 < om then none else some (sign * (oh * 3600 + om * 60), s)
  else some (0, s)

namespace ScannedCivil

/-- The range check at the end of `ParseTimestampUtcScaled`. -/
def InRange (f : ScannedCivil) : Prop :=
  (1 ≤ f.month ∧ f.month ≤ 12) ∧ (1 ≤ f.day ∧ f.day ≤ 31) ∧ f.clock.hour ≤ 23 ∧
    f.clock.minute ≤ 59 ∧ f.clock.second ≤ 59

instance (f : ScannedCivil) : Decidable f.InRange :=
  inferInstanceAs (Decidable (_ ∧ _ ∧ _ ∧ _ ∧ _))

/-- `secs` of `ParseTimestampUtcScaled`. -/
def secs (f : ScannedCivil) : Int :=
  daysFromCivil f.year f.month f.day * 86400 + f.clock.hour * 3600 + f.clock.minute * 60 +
    f.clock.second

end ScannedCivil

/-- `ParseTimestampUtcScaled`: nothing where it returns false, and no instant where the ticks
overflow. -/
def parseTimestampUtcScaled (fracDigits : Nat) (s : List Char) : Option (Option Int) := do
  let (f, s) ← scanCivil fracDigits s
  let (offset, s) ← scanOffset (skipBlanks s)
  if skipBlanks s ≠ [] then none
  else if f.InRange then some (scaledTicks (f.secs - offset) (10 ^ fracDigits) f.clock.frac)
  else none

/-- `UnitFractionDigits`. -/
def unitFractionDigits : ArrowTimeUnit → Nat
  | .second => 0
  | .milli => 3
  | .micro => 6
  | .nano => 9

theorem pow_unitFractionDigits (unit : ArrowTimeUnit) :
    (10 : Int) ^ unitFractionDigits unit = unit.ticksPerSecond := by
  cases unit <;> rfl

/-! ## What the scanners take -/

/-- No digit stands at the front. -/
def NoDigitAhead (s : List Char) : Prop := ∀ c ∈ s.head?, c.isDigit = false

theorem takeWhile_digits {ds rest : List Char} (hds : AllDigits ds) (hrest : NoDigitAhead rest) :
    (ds ++ rest).takeWhile Char.isDigit = ds := by
  have hstop : rest.takeWhile Char.isDigit = [] := by
    cases rest with
    | nil => rfl
    | cons c rest => rw [List.takeWhile_cons_of_neg (by simp [hrest c rfl])]
  rw [List.takeWhile_append_of_pos hds, hstop, List.append_nil]

theorem takeWhile_spec (s : List Char) :
    ∃ ds rest, s = ds ++ rest ∧ AllDigits ds ∧ NoDigitAhead rest ∧
      s.takeWhile Char.isDigit = ds := by
  refine ⟨s.takeWhile Char.isDigit, s.dropWhile Char.isDigit,
    List.takeWhile_append_dropWhile.symm, fun c hc => List.mem_takeWhile_imp hc, ?_, rfl⟩
  intro c hc
  have hhead := List.head?_dropWhile_not Char.isDigit s
  rw [Option.mem_def.mp hc] at hhead
  simpa using hhead

/-- Digits that fill the width, or end before the width does, are taken. -/
theorem scanUInt_append {max : Nat} {ds rest : List Char} (hds : AllDigits ds) (hne : ds ≠ [])
    (hlength : ds.length ≤ max) (hstop : ds.length = max ∨ NoDigitAhead rest) :
    scanUInt max (ds ++ rest) = some (digitsValue ds, rest) := by
  have htaken : ((ds ++ rest).take max).takeWhile Char.isDigit = ds := by
    rw [List.take_append, List.take_of_length_le hlength]
    apply takeWhile_digits hds
    rcases hstop with hfull | hrest
    · rw [hfull, Nat.sub_self, List.take_zero]
      intro c hc
      cases hc
    · intro c hc
      rw [List.head?_take] at hc
      split at hc
      · cases hc
      · exact hrest c hc
  unfold scanUInt
  dsimp only
  rw [htaken, if_neg hne, List.drop_left]

/-- What a scan takes is such digits. -/
theorem scanUInt_spec {max v : Nat} {s rest : List Char} (h : scanUInt max s = some (v, rest)) :
    ∃ ds, s = ds ++ rest ∧ AllDigits ds ∧ ds ≠ [] ∧ ds.length ≤ max ∧ digitsValue ds = v ∧
      (ds.length = max ∨ NoDigitAhead rest) := by
  obtain ⟨ds, tail, hsplit, hds, htail, htaken⟩ := takeWhile_spec (s.take max)
  have hprefix : ds <+: s := by
    calc ds <+: s.take max := ⟨tail, hsplit.symm⟩
      _ <+: s := List.take_prefix _ _
  unfold scanUInt at h
  dsimp only at h
  rw [htaken] at h
  by_cases hne : ds = []
  · rw [if_pos hne] at h
    cases h
  · rw [if_neg hne, Option.some.injEq, Prod.mk.injEq] at h
    obtain ⟨hvalue, hrest⟩ := h
    have hs : s = ds ++ rest := by
      rw [← hrest]
      exact (List.prefix_iff_eq_append.mp hprefix).symm
    have hlength : ds.length ≤ max := by
      have hle := congrArg List.length hsplit
      rw [List.length_append, List.length_take] at hle
      omega
    refine ⟨ds, hs, hds, hne, hlength, hvalue, ?_⟩
    by_cases hfull : ds.length = max
    · exact Or.inl hfull
    · apply Or.inr
      intro c hc
      apply htail c
      have htake : tail = rest.take (max - ds.length) := by
        have hsame : ds ++ tail = ds ++ rest.take (max - ds.length) := by
          rw [← hsplit, hs, List.take_append, List.take_of_length_le hlength]
        exact List.append_cancel_left hsame
      rw [htake, List.head?_take, if_neg (by omega)]
      exact hc

/-! ## What follows a civil part -/

/-- An offset begins with the character. -/
def startsOffset (c : Char) : Bool := c = 'Z' || c = 'z' || c = '+' || c = '-'

/-- The text begins as an offset does. -/
def OffsetAhead (t : List Char) : Prop := ∃ c, t.head? = some c ∧ startsOffset c = true

section Extend

variable {t : List Char} (ht : OffsetAhead t)
include ht

theorem head_offset {c : Char} (hc : startsOffset c = false) : t.head? ≠ some c := by
  intro h
  obtain ⟨c', hc', hstarts⟩ := ht
  rw [hc', Option.some.injEq] at h
  rw [h, hc] at hstarts
  cases hstarts

/-- For a character that begins no offset, an offset behind does not change the test. -/
theorem head_extend (s : List Char) {c : Char} (hc : startsOffset c = false) :
    (s ++ t).head? = some c ↔ s.head? = some c := by
  cases s with
  | nil => exact iff_of_false (head_offset ht hc) (by simp)
  | cons d s => rfl

theorem noDigitAhead_offset : NoDigitAhead t := by
  intro c hc
  obtain ⟨c', hc', hstarts⟩ := ht
  have heq : c' = c := Option.some.inj (hc'.symm.trans hc)
  rw [← heq]
  unfold startsOffset at hstarts
  simp only [Bool.or_eq_true, decide_eq_true_eq] at hstarts
  rcases hstarts with ((h | h) | h) | h
  all_goals
    rw [h]
    decide

theorem noDigitAhead_extend {s : List Char} (h : NoDigitAhead s) : NoDigitAhead (s ++ t) := by
  cases s with
  | nil => exact noDigitAhead_offset ht
  | cons d s => exact h

theorem skipBlanks_offset : skipBlanks t = t := by
  obtain ⟨c, hc, hstarts⟩ := ht
  obtain ⟨rest, rfl⟩ := List.head?_eq_some_iff.mp hc
  have hblank : isBlank c = false := by
    unfold startsOffset at hstarts
    simp only [Bool.or_eq_true, decide_eq_true_eq] at hstarts
    rcases hstarts with ((h | h) | h) | h
    all_goals
      rw [h]
      decide
  exact List.dropWhile_cons_of_neg (by simp [hblank])

theorem skipBlanks_extend (s : List Char) : skipBlanks (s ++ t) = skipBlanks s ++ t := by
  unfold skipBlanks
  rw [List.dropWhile_append]
  split
  · rename_i hnil
    rw [List.isEmpty_iff.mp hnil, List.nil_append]
    exact skipBlanks_offset ht
  · rfl

theorem scanUInt_extend {max v : Nat} {s rest : List Char}
    (h : scanUInt max s = some (v, rest)) : scanUInt max (s ++ t) = some (v, rest ++ t) := by
  obtain ⟨ds, hs, hds, hne, hlength, hvalue, hstop⟩ := scanUInt_spec h
  rw [hs, List.append_assoc, ← hvalue]
  apply scanUInt_append hds hne hlength
  rcases hstop with hfull | hrest
  · exact Or.inl hfull
  · exact Or.inr (noDigitAhead_extend ht hrest)

omit ht in
theorem scanChar_extend {c : Char} {s rest : List Char} (h : scanChar c s = some rest) :
    scanChar c (s ++ t) = some (rest ++ t) := by
  unfold scanChar at h ⊢
  split at h
  · rename_i hhead
    obtain ⟨tail, rfl⟩ := List.head?_eq_some_iff.mp hhead
    rw [Option.some.injEq] at h
    rw [List.cons_append, List.head?_cons, if_pos rfl, ← h]
    rfl
  · cases h

theorem scanFractionDigits_extend (want : Nat) (s : List Char) :
    scanFractionDigits want (s ++ t) =
      ((scanFractionDigits want s).1, (scanFractionDigits want s).2 ++ t) := by
  have htest := or_congr (head_extend ht s (show startsOffset '.' = false by decide))
    (head_extend ht s (show startsOffset ',' = false by decide))
  unfold scanFractionDigits
  rw [if_congr htest rfl rfl]
  by_cases hpoint : s.head? = some '.' ∨ s.head? = some ','
  · rw [if_pos hpoint, if_pos hpoint]
    cases s with
    | nil => simp at hpoint
    | cons c s =>
        obtain ⟨ds, rest, rfl, hds, hrest, htaken⟩ := takeWhile_spec s
        have hextended : (ds ++ rest ++ t).takeWhile Char.isDigit = ds := by
          rw [List.append_assoc]
          exact takeWhile_digits hds (noDigitAhead_extend ht hrest)
        simp only [List.cons_append, List.tail_cons]
        rw [hextended, htaken, List.append_assoc, List.drop_left, List.drop_left]
  · rw [if_neg hpoint, if_neg hpoint]

theorem scanSecond_extend {v : Nat} {s rest : List Char} (h : scanSecond s = some (v, rest)) :
    scanSecond (s ++ t) = some (v, rest ++ t) := by
  have htest := head_extend ht s (show startsOffset ':' = false by decide)
  unfold scanSecond at h ⊢
  by_cases hhead : s.head? = some ':'
  · rw [if_pos (htest.mpr hhead)]
    rw [if_pos hhead] at h
    obtain ⟨tail, rfl⟩ := List.head?_eq_some_iff.mp hhead
    exact scanUInt_extend ht h
  · rw [if_neg (mt htest.mp hhead)]
    rw [if_neg hhead, Option.some.injEq, Prod.mk.injEq] at h
    rw [h.1, h.2]

theorem scanClock_extend {fracDigits : Nat} {s rest : List Char} {k : ScannedClock}
    (h : scanClock fracDigits s = some (k, rest)) :
    scanClock fracDigits (s ++ t) = some (k, rest ++ t) := by
  simp only [scanClock, Option.bind_eq_bind, Option.bind_eq_some_iff] at h
  obtain ⟨⟨hour, s₁⟩, hhour, s₂, hcolon, ⟨minute, s₃⟩, hminute, ⟨second, s₄⟩, hsecond, h⟩ := h
  rw [Option.some.injEq, Prod.mk.injEq] at h
  simp only [scanClock, Option.bind_eq_bind]
  rw [scanUInt_extend ht hhour, Option.bind_some]
  dsimp only
  rw [scanChar_extend hcolon, Option.bind_some, scanUInt_extend ht hminute, Option.bind_some]
  dsimp only
  rw [scanSecond_extend ht hsecond, Option.bind_some]
  dsimp only
  rw [scanFractionDigits_extend ht, ← h.1, ← h.2]

theorem scanTimePart_extend {fracDigits : Nat} {s rest : List Char} {k : ScannedClock}
    (h : scanTimePart fracDigits s = some (k, rest)) :
    scanTimePart fracDigits (s ++ t) = some (k, rest ++ t) := by
  have htest := or_congr (head_extend ht s (show startsOffset ' ' = false by decide))
    (or_congr (head_extend ht s (show startsOffset 'T' = false by decide))
      (head_extend ht s (show startsOffset 't' = false by decide)))
  unfold scanTimePart at h ⊢
  by_cases hhead : s.head? = some ' ' ∨ s.head? = some 'T' ∨ s.head? = some 't'
  · rw [if_pos (htest.mpr hhead)]
    rw [if_pos hhead] at h
    cases s with
    | nil => simp at hhead
    | cons c s =>
        rw [List.cons_append, List.tail_cons, skipBlanks_extend ht]
        exact scanClock_extend ht h
  · rw [if_neg (mt htest.mp hhead)]
    rw [if_neg hhead, Option.some.injEq, Prod.mk.injEq] at h
    rw [h.1, h.2]

/-- The civil part is read alike with an offset behind it. -/
theorem scanCivil_extend {fracDigits : Nat} {s rest : List Char} {f : ScannedCivil}
    (h : scanCivil fracDigits s = some (f, rest)) :
    scanCivil fracDigits (s ++ t) = some (f, rest ++ t) := by
  simp only [scanCivil, Option.bind_eq_bind, Option.bind_eq_some_iff] at h
  obtain ⟨⟨year, s₁⟩, hyear, s₂, hdash, ⟨month, s₃⟩, hmonth, s₄, hdash', ⟨day, s₅⟩, hday,
    ⟨clock, s₆⟩, hclock, h⟩ := h
  rw [Option.some.injEq, Prod.mk.injEq] at h
  simp only [scanCivil, Option.bind_eq_bind]
  rw [skipBlanks_extend ht, scanUInt_extend ht hyear, Option.bind_some]
  dsimp only
  rw [scanChar_extend hdash, Option.bind_some, scanUInt_extend ht hmonth, Option.bind_some]
  dsimp only
  rw [scanChar_extend hdash', Option.bind_some, scanUInt_extend ht hday, Option.bind_some]
  dsimp only
  rw [scanTimePart_extend ht hclock, Option.bind_some, ← h.1, ← h.2]

end Extend

end AdbcBridge.Reader
