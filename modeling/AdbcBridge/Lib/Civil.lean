import Mathlib

/-!
# The civil calendar

The proleptic Gregorian calendar: leap years, the length of a month, and the number of
a day counted from 1970-01-01.  Two facts carry what is proved with it: which year a day
number lies in, and the form the day number takes when the year is counted from March in
eras of 400 years.
-/

namespace AdbcBridge.Lib.Civil

def IsLeap (y : Int) : Prop := y % 4 = 0 ∧ (y % 100 ≠ 0 ∨ y % 400 = 0)

instance : DecidablePred IsLeap := fun y =>
  inferInstanceAs (Decidable (y % 4 = 0 ∧ (y % 100 ≠ 0 ∨ y % 400 = 0)))

def daysInMonth (y : Int) (m : Nat) : Nat :=
  if m = 2 then if IsLeap y then 29 else 28
  else if m = 4 ∨ m = 6 ∨ m = 9 ∨ m = 11 then 30
  else 31

/-- The days from the first of January of the year 1 to that of this year. -/
def daysBeforeYear (y : Int) : Int :=
  365 * (y - 1) + (y - 1) / 4 - (y - 1) / 100 + (y - 1) / 400

def daysBeforeMonth (y : Int) (m : Nat) : Nat :=
  ((List.range' 1 (m - 1)).map (daysInMonth y)).sum

/-- The days from 1970-01-01 to this day. -/
def dayNumber (y : Int) (m d : Nat) : Int :=
  daysBeforeYear y + daysBeforeMonth y m + d - 1 - daysBeforeYear 1970

/-- The month and the day exist in the year. -/
def Legal (y : Int) (m d : Nat) : Prop :=
  (1 ≤ m ∧ m ≤ 12) ∧ 1 ≤ d ∧ d ≤ daysInMonth y m

instance (y : Int) (m d : Nat) : Decidable (Legal y m d) :=
  inferInstanceAs (Decidable ((1 ≤ m ∧ m ≤ 12) ∧ 1 ≤ d ∧ d ≤ daysInMonth y m))

example : dayNumber 2000 2 29 = 11016 := by decide

/-! ## The year of a day number -/

theorem daysBeforeYear_succ (y : Int) :
    daysBeforeYear (y + 1) = daysBeforeYear y + if IsLeap y then 366 else 365 := by
  unfold daysBeforeYear
  by_cases hleap : IsLeap y
  · rw [if_pos hleap]
    unfold IsLeap at hleap
    omega
  · rw [if_neg hleap]
    unfold IsLeap at hleap
    omega

theorem daysBeforeYear_mono {y y' : Int} (h : y ≤ y') :
    daysBeforeYear y ≤ daysBeforeYear y' := by
  unfold daysBeforeYear
  omega

/-- A year is exactly as long as its months. -/
theorem daysBeforeMonth_add_le {y : Int} {m d : Nat} (h : Legal y m d) :
    daysBeforeMonth y m + d ≤ if IsLeap y then 366 else 365 := by
  obtain ⟨⟨hm, hm'⟩, -, hd⟩ := h
  unfold daysBeforeMonth
  unfold daysInMonth at *
  interval_cases m <;> by_cases hleap : IsLeap y <;>
    simp [hleap, List.range'_succ] at hd ⊢ <;> omega

/-- A day lies in the year or behind it exactly if its number is not below that of the
year's first day. -/
theorem le_year_iff {y : Int} {m d : Nat} (h : Legal y m d) (a : Int) :
    a ≤ y ↔ dayNumber a 1 1 ≤ dayNumber y m d := by
  have hlength := daysBeforeMonth_add_le h
  have hsucc := daysBeforeYear_succ y
  have hfirst : daysBeforeMonth a 1 = 0 := rfl
  have hday := h.2.1
  unfold dayNumber
  rw [hfirst]
  constructor
  · intro hle
    have hmono := daysBeforeYear_mono hle
    omega
  · intro hle
    by_contra hlt
    have hmono : daysBeforeYear (y + 1) ≤ daysBeforeYear a := daysBeforeYear_mono (by omega)
    split at hlength <;> split at hsucc <;> omega

/-- Days of one number lie in one year. -/
theorem year_unique {y y' : Int} {m d m' d' : Nat} (h : Legal y m d) (h' : Legal y' m' d')
    (heq : dayNumber y m d = dayNumber y' m' d') : y = y' := by
  apply le_antisymm
  · rw [le_year_iff h', ← heq, ← le_year_iff h]
  · rw [le_year_iff h, heq, ← le_year_iff h']

/-! ## Years that begin in March -/

/-- The days of an era, of 400 years, that lie before one of its years. -/
def daysBeforeYearOfEra (yoe : Nat) : Nat := 365 * yoe + yoe / 4 - yoe / 100

/-- The days from the first of March to the first of the month so many months later. -/
def daysBeforeMarchMonth (mp : Nat) : Nat := (153 * mp + 2) / 5

theorem daysBeforeYear_era (era : Int) {yoe : Nat} (hyoe : yoe < 400) :
    daysBeforeYear (era * 400 + yoe + 1) = era * 146097 + daysBeforeYearOfEra yoe := by
  unfold daysBeforeYear daysBeforeYearOfEra
  omega

/-- The months from March on have their lengths whatever the year. -/
theorem daysBeforeMonth_march {y : Int} {m : Nat} (hm : 1 ≤ m) (hm' : m ≤ 12) :
    daysBeforeMonth y m + 306 =
      if m ≤ 2 then daysBeforeMarchMonth (m + 9)
      else daysBeforeMarchMonth (m - 3) + if IsLeap y then 366 else 365 := by
  unfold daysBeforeMonth daysBeforeMarchMonth daysInMonth
  interval_cases m <;> by_cases hleap : IsLeap y <;> simp [hleap, List.range'_succ]

/-- The day number, by the era, the year of the era and the month counted from March. -/
theorem dayNumber_march (era : Int) {yoe m : Nat} (hyoe : yoe < 400) (hm : 1 ≤ m)
    (hm' : m ≤ 12) (d : Nat) :
    dayNumber (era * 400 + yoe + if m ≤ 2 then 1 else 0) m d =
      era * 146097 + daysBeforeYearOfEra yoe +
        daysBeforeMarchMonth (if m ≤ 2 then m + 9 else m - 3) + d - 719469 := by
  have hyear := daysBeforeYear_era era hyoe
  have hepoch : daysBeforeYear 1970 = 719162 := by decide
  unfold dayNumber
  rw [hepoch]
  by_cases hmonth : m ≤ 2
  · have hmarch := daysBeforeMonth_march (y := era * 400 + yoe + 1) hm hm'
    rw [if_pos hmonth] at hmarch ⊢
    rw [if_pos hmonth, hyear]
    omega
  · have hmarch := daysBeforeMonth_march (y := era * 400 + yoe) hm hm'
    have hsucc := daysBeforeYear_succ (era * 400 + yoe)
    rw [if_neg hmonth] at hmarch ⊢
    rw [if_neg hmonth, add_zero]
    split at hsucc <;> split at hmarch <;> first | contradiction | omega

/-- The year of the era that a day of the era falls in. -/
def yearOfEra (doe : Nat) : Nat := (doe - doe / 1460 + doe / 36524 - doe / 146096) / 365

theorem yearOfEra_spec {doe : Nat} (h : doe < 146097) :
    yearOfEra doe < 400 ∧ daysBeforeYearOfEra (yearOfEra doe) ≤ doe ∧
      doe < daysBeforeYearOfEra (yearOfEra doe + 1) + (yearOfEra doe + 1) / 400 := by
  unfold daysBeforeYearOfEra
  obtain ⟨yoe, hyoe⟩ : ∃ yoe, yoe = yearOfEra doe := ⟨_, rfl⟩
  rw [← hyoe]
  unfold yearOfEra at hyoe
  by_cases hend : doe = 146096
  · rw [hend] at hyoe ⊢
    norm_num at hyoe
    rw [hyoe]
    decide
  -- Centuries and the four years' cycles are named, and the quotients bounded.
  obtain ⟨c, hc⟩ : ∃ c, c = doe / 36524 := ⟨_, rfl⟩
  obtain ⟨q, hq⟩ : ∃ q, q = doe / 1460 := ⟨_, rfl⟩
  have hera : doe / 146096 = 0 := by omega
  rw [hera, ← hc, ← hq] at hyoe
  have hc1 : 36524 * c ≤ doe := by omega
  have hc2 : doe < 36524 * c + 36524 := by omega
  have hq1 : 1460 * q ≤ doe := by omega
  have hq2 : doe < 1460 * q + 1460 := by omega
  have hy1 : 365 * yoe ≤ doe - q + c := by omega
  have hy2 : doe - q + c < 365 * yoe + 365 := by omega
  have hc3 : c ≤ 3 := by omega
  clear hyoe hc hq hera
  obtain ⟨p, r, hp, hr⟩ : ∃ p r, yoe = 4 * p + r ∧ r < 4 :=
    ⟨yoe / 4, yoe % 4, by omega, by omega⟩
  have hcentury : yoe / 100 = c := by omega
  have hcycle : yoe / 4 = p := by omega
  have hcycles : 25 * c ≤ p ∧ p < 25 * c + 25 := by omega
  rw [hcentury, hcycle]
  refine ⟨by omega, by omega, ?_⟩
  have hnext : (yoe + 1) / 4 = if r = 3 then p + 1 else p := by
    split <;> omega
  have hnext100 : (yoe + 1) / 100 - (yoe + 1) / 400 ≤
      if r = 3 ∧ p = 25 * c + 24 ∧ c < 3 then c + 1 else c := by
    split <;> omega
  have hbound : doe < 365 * (yoe + 1) + (if r = 3 then p + 1 else p) -
      if r = 3 ∧ p = 25 * c + 24 ∧ c < 3 then c + 1 else c := by
    split_ifs <;> omega
  omega

/-- A year that begins in March has the leap day of the year it ends in. -/
theorem daysBeforeYearOfEra_succ (era : Int) {yoe : Nat} (hyoe : yoe < 400) :
    daysBeforeYearOfEra (yoe + 1) + (yoe + 1) / 400 =
      daysBeforeYearOfEra yoe + if IsLeap (era * 400 + yoe + 1) then 366 else 365 := by
  unfold daysBeforeYearOfEra
  by_cases hleap : IsLeap (era * 400 + yoe + 1)
  · rw [if_pos hleap]
    unfold IsLeap at hleap
    omega
  · rw [if_neg hleap]
    unfold IsLeap at hleap
    omega

/-- The month, from March on, that a day of the year lies in. -/
def marchMonth (doy : Nat) : Nat := (5 * doy + 2) / 153

theorem marchMonth_spec {doy : Nat} (h : doy < 366) :
    marchMonth doy < 12 ∧ daysBeforeMarchMonth (marchMonth doy) ≤ doy ∧
      doy < daysBeforeMarchMonth (marchMonth doy + 1) := by
  unfold daysBeforeMarchMonth marchMonth
  omega

/-- A day of a year from March on, as a month and a day of the civil year. -/
theorem legal_of_march (era : Int) {yoe doy mp m : Nat}
    (hdoy : doy < if IsLeap (era * 400 + yoe + 1) then 366 else 365) (hmp : mp = marchMonth doy)
    (hm : m = if mp < 10 then mp + 3 else mp - 9) :
    Legal (era * 400 + yoe + if m ≤ 2 then 1 else 0) m (doy - daysBeforeMarchMonth mp + 1) := by
  have hdoy' : doy < 366 := by split at hdoy <;> omega
  obtain ⟨hlt, hfrom, hto⟩ := marchMonth_spec hdoy'
  rw [← hmp] at hlt hfrom hto
  unfold daysBeforeMarchMonth at hfrom hto ⊢
  unfold Legal daysInMonth
  rw [hm]
  interval_cases mp <;> by_cases hleap : IsLeap (era * 400 + yoe + 1) <;>
    simp [hleap] at hdoy ⊢ <;> omega

end AdbcBridge.Lib.Civil
