import Mathlib.Algebra.Order.Ring.Nat
import Mathlib.Data.Char
import Mathlib.Data.List.Basic
import Mathlib.Tactic.Common

/-!
# UTF-16 and UTF-8

The characters of a list of UTF-16 units, with the number of units that each took, and
their UTF-8.  A unit that is no character by itself stands for U+FFFD.
-/

namespace AdbcBridge.Lib.Utf16

/-- A high surrogate. -/
def IsHigh (u : Nat) : Prop := 0xD800 ≤ u ∧ u ≤ 0xDBFF

/-- A low surrogate. -/
def IsLow (u : Nat) : Prop := 0xDC00 ≤ u ∧ u ≤ 0xDFFF

instance (u : Nat) : Decidable (IsHigh u) := inferInstanceAs (Decidable (_ ∧ _))

instance (u : Nat) : Decidable (IsLow u) := inferInstanceAs (Decidable (_ ∧ _))

/-- The character of a unit by itself. -/
def scalar (u : Nat) : Char := if u.isValidChar then Char.ofNat u else Char.ofNat 0xFFFD

/-- The character of a surrogate pair. -/
def pair (high low : Nat) : Char :=
  Char.ofNat (0x10000 + (high - 0xD800) * 1024 + (low - 0xDC00))

/-- The character that starts with the unit `u`, when `v` is the unit behind it, and the
number of units it takes. -/
def span (u v : Nat) : Char × Nat :=
  if IsHigh u ∧ IsLow v then (pair u v, 2) else (scalar u, 1)

/-- The characters of a list of units, and how many units each of them takes. -/
def spans : List Nat → List (Char × Nat)
  | [] => []
  | [u] => [span u 0]
  | u :: v :: rest =>
      if IsHigh u ∧ IsLow v then (pair u v, 2) :: spans rest
      else (scalar u, 1) :: spans (v :: rest)

/-- The UTF-8 of a list of characters. -/
def utf8 (cs : List Char) : List UInt8 := cs.flatMap String.utf8EncodeChar

/-- The number of units of a list of spans. -/
def width (xs : List (Char × Nat)) : Nat := (xs.map Prod.snd).sum

/-- The UTF-8 of a list of spans. -/
def encoded (xs : List (Char × Nat)) : List UInt8 := utf8 (xs.map Prod.fst)

theorem width_append (xs ys : List (Char × Nat)) : width (xs ++ ys) = width xs + width ys := by
  unfold width
  rw [List.map_append, List.sum_append]

theorem encoded_append (xs ys : List (Char × Nat)) :
    encoded (xs ++ ys) = encoded xs ++ encoded ys := by
  unfold encoded utf8
  rw [List.map_append, List.flatMap_append]

theorem encoded_singleton (x : Char × Nat) : encoded [x] = String.utf8EncodeChar x.1 := by
  simp [encoded, utf8]

theorem span_units (u v : Nat) : (span u v).2 = 1 ∨ (span u v).2 = 2 := by
  unfold span
  split
  · exact .inr rfl
  · exact .inl rfl

theorem spans_cons (u : Nat) (rest : List Nat) :
    spans (u :: rest) =
      span u (rest.headD 0) :: spans ((u :: rest).drop (span u (rest.headD 0)).2) := by
  cases rest with
  | nil =>
      have hlow : ¬ IsLow 0 := by decide
      simp [spans, span, hlow]
  | cons v rest =>
      rw [spans, List.headD_cons, span]
      by_cases hpair : IsHigh u ∧ IsLow v
      · rw [if_pos hpair, if_pos hpair]
        rfl
      · rw [if_neg hpair, if_neg hpair]
        rfl

/-- Where a list of spans goes on, the rest of the units has the rest of the spans. -/
theorem spans_drop {units : List Nat} {pre suf : List (Char × Nat)}
    (h : spans units = pre ++ suf) : spans (units.drop (width pre)) = suf := by
  induction pre generalizing units with
  | nil => simpa [width] using h
  | cons x pre ih =>
      cases units with
      | nil => cases h
      | cons u rest =>
          rw [spans_cons, List.cons_append, List.cons.injEq] at h
          have hwidth : width (x :: pre) = x.2 + width pre := by simp [width]
          rw [hwidth, ← List.drop_drop, ← h.1]
          exact ih h.2

theorem spans_eq_nil {units : List Nat} (h : spans units = []) : units = [] := by
  cases units with
  | nil => rfl
  | cons u rest =>
      rw [spans_cons] at h
      cases h

/-- Two texts with the same UTF-8 start with the same character. -/
theorem utf8EncodeChar_append_inj {c d : Char} {a b : List UInt8}
    (h : String.utf8EncodeChar c ++ a = String.utf8EncodeChar d ++ b) : c = d ∧ a = b := by
  have hread := congrArg (fun l : List UInt8 => l.toByteArray.utf8DecodeChar? 0) h
  simp only [List.toByteArray_append, ByteArray.utf8DecodeChar?_utf8EncodeChar_append] at hread
  have hchar := Option.some.inj hread
  rw [hchar] at h
  exact ⟨hchar, List.append_cancel_left h⟩

theorem toNat_ofNat_of_valid {n : Nat} (h : n.isValidChar) : (Char.ofNat n).toNat = n := by
  unfold Char.ofNat
  rw [dif_pos h]
  rfl

theorem scalar_toNat (u : Nat) :
    (scalar u).toNat = if u.isValidChar then u else 0xFFFD := by
  unfold scalar
  by_cases hvalid : u.isValidChar
  · rw [if_pos hvalid, if_pos hvalid, toNat_ofNat_of_valid hvalid]
  · rw [if_neg hvalid, if_neg hvalid]
    decide

theorem pair_toNat {u v : Nat} (hu : IsHigh u) (hv : IsLow v) :
    (pair u v).toNat = 0x10000 + (u - 0xD800) * 1024 + (v - 0xDC00) := by
  obtain ⟨hu, hu'⟩ := hu
  obtain ⟨hv, hv'⟩ := hv
  apply toNat_ofNat_of_valid
  unfold Nat.isValidChar
  omega

/-- Of the units of two bytes, only a pair is a character of the upper planes. -/
theorem span_units_iff {u v : Nat} (hu : u < 0x10000) :
    (span u v).2 = 2 ↔ 0x10000 ≤ (span u v).1.toNat := by
  unfold span
  by_cases hpair : IsHigh u ∧ IsLow v
  · rw [if_pos hpair, pair_toNat hpair.1 hpair.2]
    omega
  · rw [if_neg hpair, scalar_toNat]
    split <;> omega

/-- How long a text can be in UTF-8, by what a single unit can take. -/
theorem length_encoded_spans_le {k : Nat} (hk : 2 ≤ k) {units : List Nat}
    (h : ∀ u ∈ units, (scalar u).utf8Size ≤ k) :
    (encoded (spans units)).length ≤ k * units.length := by
  have hcons : ∀ (x : Char × Nat) (xs : List (Char × Nat)),
      (encoded (x :: xs)).length = x.1.utf8Size + (encoded xs).length := by
    intro x xs
    rw [← List.singleton_append, encoded_append, List.length_append, encoded_singleton,
      String.length_utf8EncodeChar]
  induction units using spans.induct with
  | case1 => exact Nat.zero_le _
  | case2 u =>
      have hlow : ¬ (IsHigh u ∧ IsLow 0) := fun hpair => absurd hpair.2 (by decide)
      have hu := h u List.mem_cons_self
      have hspan : span u 0 = (scalar u, 1) := if_neg hlow
      have hnone : (encoded []).length = 0 := rfl
      rw [spans, hspan, hcons, hnone, List.length_singleton]
      dsimp only
      omega
  | case3 u v rest hpair ih =>
      have hrest := ih fun x hx => h x (List.mem_cons_of_mem _ (List.mem_cons_of_mem _ hx))
      have hsize := (pair u v).utf8Size_le_four
      rw [spans, if_pos hpair, hcons, List.length_cons, List.length_cons, Nat.mul_add, Nat.mul_add]
      dsimp only
      omega
  | case4 u v rest hpair ih =>
      have hrest := ih fun x hx => h x (List.mem_cons_of_mem _ hx)
      have hu := h u List.mem_cons_self
      rw [spans, if_neg hpair, hcons, List.length_cons, Nat.mul_add]
      dsimp only
      omega

/-- A unit of two bytes is a character of at most three. -/
theorem utf8Size_scalar_le {u : Nat} (h : u < 0x10000) : (scalar u).utf8Size ≤ 3 := by
  have hval := scalar_toNat u
  have hlt : (scalar u).toNat ≤ 0xFFFF := by
    rw [hval]
    split <;> omega
  have hle : (scalar u).val ≤ 0xFFFF := by
    rw [UInt32.le_iff_toNat_le]
    exact hlt
  unfold Char.utf8Size
  dsimp only
  split
  · omega
  · split
    · omega
    · exact Nat.le_of_eq (if_pos hle)

/-! ## The units of a text -/

/-- The units of a character: a surrogate pair above U+FFFF, where pairs are written. -/
def charUnits (pairs : Bool) (c : Char) : List Nat :=
  if 0x10000 ≤ c.toNat ∧ pairs then
    [0xD800 + (c.toNat - 0x10000) / 1024, 0xDC00 + (c.toNat - 0x10000) % 1024]
  else [c.toNat]

/-- The units of a text. -/
def textUnits (pairs : Bool) (cs : List Char) : List Nat := cs.flatMap (charUnits pairs)

theorem toNat_valid (c : Char) : c.toNat < 0xD800 ∨ 0xDFFF < c.toNat ∧ c.toNat < 0x110000 :=
  c.valid

theorem scalar_of_toNat (c : Char) : scalar c.toNat = c := by
  have hvalid : c.toNat.isValidChar := c.valid
  unfold scalar
  rw [if_pos hvalid]
  exact Char.ofNat_toNat c

/-- Before the units of a text there is its first character. -/
theorem spans_charUnits (pairs : Bool) (c : Char) (rest : List Nat) :
    spans (charUnits pairs c ++ rest) =
      (c, (charUnits pairs c).length) :: spans rest := by
  have hvalid := toNat_valid c
  unfold charUnits
  by_cases hpair : 0x10000 ≤ c.toNat ∧ pairs
  · have hhigh : IsHigh (0xD800 + (c.toNat - 0x10000) / 1024) := by
      unfold IsHigh
      omega
    have hlow : IsLow (0xDC00 + (c.toNat - 0x10000) % 1024) := by
      unfold IsLow
      omega
    have hc : pair (0xD800 + (c.toNat - 0x10000) / 1024)
        (0xDC00 + (c.toNat - 0x10000) % 1024) = c := by
      apply Char.toNat_inj.mp
      rw [pair_toNat hhigh hlow]
      omega
    rw [if_pos hpair, List.cons_append, List.singleton_append, spans, if_pos ⟨hhigh, hlow⟩, hc]
    rfl
  · have hspan : ∀ v, span c.toNat v = (c, 1) := by
      intro v
      have hhigh : ¬ IsHigh c.toNat := by
        unfold IsHigh
        omega
      unfold span
      rw [if_neg fun h => hhigh h.1, scalar_of_toNat]
    rw [if_neg hpair, List.singleton_append, spans_cons, hspan]
    rfl

/-- The characters of the units of a text are the text. -/
theorem encoded_textUnits (pairs : Bool) (cs : List Char) :
    encoded (spans (textUnits pairs cs)) = utf8 cs := by
  induction cs with
  | nil => rfl
  | cons c cs ih =>
      have hcons : textUnits pairs (c :: cs) = charUnits pairs c ++ textUnits pairs cs := rfl
      rw [hcons, spans_charUnits, ← List.singleton_append, encoded_append, encoded_singleton, ih]
      rfl

end AdbcBridge.Lib.Utf16
