import AdbcBridge.Adbc.Interface
import AdbcBridge.Lib.Civil

/-!
# The date and timestamp structs of ODBC

`DATE_STRUCT` and `TIMESTAMP_STRUCT`, the casts a C compiler makes of their fields, and
the day and the instant a struct denotes.
-/

namespace AdbcBridge.Adbc

open AdbcBridge.Lib

/-! ## Casts -/

/-- A cast to a signed integer of so many bits. -/
def signedCast (bits : Nat) (v : Int) : Int := v.bmod (2 ^ bits)

/-- A cast to `SQLSMALLINT`. -/
def asSmallInt (v : Int) : Int := signedCast 16 v

/-- A cast to `int`. -/
def asInt (v : Int) : Int := signedCast 32 v

/-- A sum or a product of `int64_t`, taken round when it overflows. -/
def asInt64 (v : Int) : Int := signedCast 64 v

/-- A value of the signed integers of so many bits. -/
def InSigned (bits : Nat) (v : Int) : Prop := -2 ^ (bits - 1) ≤ v ∧ v < 2 ^ (bits - 1)

instance (bits : Nat) (v : Int) : Decidable (InSigned bits v) :=
  inferInstanceAs (Decidable (-2 ^ (bits - 1) ≤ v ∧ v < 2 ^ (bits - 1)))

theorem signedCast_eq {bits : Nat} (hbits : 0 < bits) {v : Int} (h : InSigned bits v) :
    signedCast bits v = v := by
  obtain ⟨n, rfl⟩ : ∃ n, bits = n + 1 := ⟨bits - 1, by omega⟩
  obtain ⟨hle, hlt⟩ := h
  rw [Nat.add_sub_cancel] at hle hlt
  unfold signedCast
  apply Int.bmod_eq_of_le
  all_goals
    push_cast
    rw [pow_succ]
    omega

theorem signedCast_inSigned {bits : Nat} (hbits : 0 < bits) (v : Int) :
    InSigned bits (signedCast bits v) := by
  obtain ⟨n, rfl⟩ : ∃ n, bits = n + 1 := ⟨bits - 1, by omega⟩
  have hpos : 0 < 2 ^ (n + 1) := Nat.two_pow_pos _
  have hle := Int.le_bmod (x := v) hpos
  have hlt := Int.bmod_lt (x := v) hpos
  unfold InSigned signedCast
  generalize v.bmod (2 ^ (n + 1)) = w at hle hlt ⊢
  rw [Nat.add_sub_cancel]
  push_cast at hle hlt
  rw [pow_succ] at hle hlt
  omega

/-- A sum or a product of `int64_t`; what one that overflows comes to is left open by C, and is no
number here. -/
def int64 (v : Int) : Option Int := if InSigned 64 v then some v else none

theorem int64_eq_some {v w : Int} : int64 v = some w ↔ InSigned 64 v ∧ v = w := by
  unfold int64
  by_cases hfits : InSigned 64 v
  · rw [if_pos hfits, Option.some.injEq, and_iff_right hfits]
  · rw [if_neg hfits]
    exact iff_of_false (Option.some_ne_none w).symm fun h => hfits h.1

/-- Seconds in ticks of a scale, with the ticks of a fraction behind them. -/
def scaledTicks (secs scale frac : Int) : Option Int :=
  (int64 (secs * scale)).bind fun ticks => int64 (ticks + frac)

theorem scaledTicks_eq_some {secs scale frac v : Int} :
    scaledTicks secs scale frac = some v ↔
      InSigned 64 (secs * scale) ∧ InSigned 64 (secs * scale + frac) ∧
        secs * scale + frac = v := by
  rw [scaledTicks, Option.bind_eq_some_iff]
  simp only [int64_eq_some]
  constructor
  · rintro ⟨ticks, ⟨hticks, rfl⟩, hsum⟩
    exact ⟨hticks, hsum⟩
  · intro h
    exact ⟨_, ⟨h.1, rfl⟩, h.2⟩

/-- A cast to a narrower type sees through one to a wider. -/
theorem asSmallInt_asInt (v : Int) : asSmallInt (asInt v) = asSmallInt v :=
  Int.bmod_bmod_of_dvd ⟨2 ^ 16, by norm_num⟩

/-! ## Units -/

namespace ArrowTimeUnit

/-- `TicksPerSecond`. -/
def ticksPerSecond : ArrowTimeUnit → Int
  | .second => 1
  | .milli => 1000
  | .micro => 1000000
  | .nano => 1000000000

/-- The nanoseconds of a tick. -/
def nanos : ArrowTimeUnit → Int
  | .second => 1000000000
  | .milli => 1000000
  | .micro => 1000
  | .nano => 1

theorem ticksPerSecond_pos (unit : ArrowTimeUnit) : 0 < unit.ticksPerSecond := by
  cases unit <;> decide

theorem nanos_pos (unit : ArrowTimeUnit) : 0 < unit.nanos := by
  cases unit <;> decide

theorem ticksPerSecond_mul_nanos (unit : ArrowTimeUnit) :
    unit.ticksPerSecond * unit.nanos = 1000000000 := by
  cases unit <;> decide

end ArrowTimeUnit

/-! ## Structs -/

/-- `DATE_STRUCT`. -/
structure DateStruct where
  year : Int
  month : Nat
  day : Nat
deriving DecidableEq, Repr

/-- `TIMESTAMP_STRUCT`; the fraction counts nanoseconds. -/
structure TimestampStruct where
  year : Int
  month : Nat
  day : Nat
  hour : Nat
  minute : Nat
  second : Nat
  fraction : Nat
deriving DecidableEq, Repr

/-- The struct is a date of the calendar and names the day of this number. -/
def DateStruct.Denotes (d : DateStruct) (day : Int) : Prop :=
  Civil.Legal d.year d.month d.day ∧ Civil.dayNumber d.year d.month d.day = day

namespace TimestampStruct

/-- Every field is in its range. -/
def Legal (t : TimestampStruct) : Prop :=
  Civil.Legal t.year t.month t.day ∧ t.hour < 24 ∧ t.minute < 60 ∧ t.second < 60 ∧
    t.fraction < 1000000000

/-- The nanoseconds from the beginning of 1970 to the instant the struct names. -/
def instant (t : TimestampStruct) : Int :=
  (Civil.dayNumber t.year t.month t.day * 86400 + t.hour * 3600 + t.minute * 60 + t.second) *
    1000000000 + t.fraction

/-- The struct is legal and names the instant so many nanoseconds after 1970. -/
def Denotes (t : TimestampStruct) (nanos : Int) : Prop := t.Legal ∧ t.instant = nanos

instance (t : TimestampStruct) : Decidable t.Legal :=
  inferInstanceAs (Decidable (_ ∧ _ ∧ _ ∧ _ ∧ _))

instance (t : TimestampStruct) (nanos : Int) : Decidable (t.Denotes nanos) :=
  inferInstanceAs (Decidable (_ ∧ _))

end TimestampStruct

instance (d : DateStruct) (day : Int) : Decidable (d.Denotes day) :=
  inferInstanceAs (Decidable (_ ∧ _))

end AdbcBridge.Adbc
