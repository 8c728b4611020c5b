import AdbcBridge.Lib.Loop
import Mathlib

/-!
# Names of objects

The helpers of `GetObjects` for names: `LikeMatch` and `NameMatches`, the comparison of
names that may be missing, and the names that are empty.  A name is its bytes.
-/

namespace AdbcBridge.Objects

open AdbcBridge.Lib

abbrev Text := List UInt8

/-- The bytes of a literal of ASCII characters. -/
def ascii (s : String) : Text := s.toList.map fun c => c.toNat.toUInt8

/-- A name that is there and not empty. -/
def nameOrNull (s : Option Text) : Option Text := s.filter (· ≠ [])

/-! ## Patterns -/

def percent : UInt8 := 37
def underscore : UInt8 := 95
def backslash : UInt8 := 92

/-- `AsciiLower`. -/
def asciiLower (c : UInt8) : UInt8 := if 65 ≤ c ∧ c ≤ 90 then c - 65 + 97 else c

/-- The next byte a pattern stands for and the pattern behind it. -/
def literal : Text → Option (UInt8 × Text)
  | [] => none
  | c :: pat =>
      match pat with
      | l :: rest => if c = backslash then some (l, rest) else some (c, pat)
      | [] => some (c, pat)

theorem literal_length {pat rest : Text} {l : UInt8} (h : literal pat = some (l, rest)) :
    rest.length < pat.length := by
  unfold literal at h
  split at h
  · cases h
  · split at h
    · split at h
      all_goals
        cases h
        simp
    · cases h
      simp

theorem literal_suffix {pat rest : Text} {l : UInt8} (h : literal pat = some (l, rest)) :
    rest <:+ pat := by
  unfold literal at h
  split at h
  · cases h
  · split at h
    · split at h
      · cases h
        exact (List.suffix_cons _ _).trans (List.suffix_cons _ _)
      · cases h
        exact List.suffix_cons _ _
    · cases h
      exact List.suffix_cons _ _

/-- Where the loop of `LikeMatch` stands: the rest of the pattern and of the value, and
both as they were behind the last `%`. -/
structure LikeState (whole : Text) where
  pat : Text
  s : Text
  star : Option (Text × Text)
  ofWhole : pat <:+ whole
  behind : ∀ p ∈ star, p.1 <:+ whole ∧ s <:+ p.2

variable {whole : Text}

/-- Back to the last `%`, which takes one byte more. -/
def LikeState.retry (st : LikeState whole) : Turn (LikeState whole) Bool :=
  match hstar : st.star with
  | some (pat, _ :: s) =>
      .again
        { pat := pat
          s := s
          star := some (pat, s)
          ofWhole := (st.behind _ hstar).1
          behind := by
            rintro p ⟨⟩
            exact ⟨(st.behind _ hstar).1, List.suffix_rfl⟩ }
  | _ => .leave false

/-- The rest of the pattern behind what stood for the next byte. -/
def LikeState.next (st : LikeState whole) (pat s : Text) (hpat : pat <:+ st.pat)
    (hs : s <:+ st.s) : LikeState whole where
  pat := pat
  s := s
  star := st.star
  ofWhole := hpat.trans st.ofWhole
  behind := fun p hp => ⟨(st.behind p hp).1, hs.trans (st.behind p hp).2⟩

/-- One turn of the loop. -/
def LikeState.turn (st : LikeState whole) : Turn (LikeState whole) Bool :=
  match hs : st.s with
  | [] => .leave (st.pat.dropWhile (· = percent) = [])
  | c :: s =>
      match hpat : st.pat with
      | [] => st.retry
      | p :: pat =>
          have hrest : pat <:+ st.pat := hpat ▸ List.suffix_cons p pat
          have hmore : s <:+ st.s := hs ▸ List.suffix_cons c s
          if p = percent then
            .again
              { pat := pat
                s := c :: s
                star := some (pat, c :: s)
                ofWhole := hrest.trans st.ofWhole
                behind := by
                  rintro p ⟨⟩
                  exact ⟨hrest.trans st.ofWhole, List.suffix_rfl⟩ }
          else if p = underscore then .again (st.next pat s hrest hmore)
          else
            match hliteral : literal (p :: pat) with
            | none => st.retry
            | some (l, rest) =>
                if asciiLower l = asciiLower c then
                  .again (st.next rest s (hpat ▸ literal_suffix hliteral) hmore)
                else st.retry

/-- What is left of the value behind the last `%`, and then of the pattern. -/
def likeRank (whole pat s : Text) (star : Option (Text × Text)) : Nat :=
  (star.elim (s.length + 1) fun p => p.2.length) * (whole.length + 1) + pat.length

def LikeState.rank (st : LikeState whole) : Nat := likeRank whole st.pat st.s st.star

theorem retry_descends {st st' : LikeState whole} (h : st.retry = .again st') :
    st'.rank < st.rank := by
  unfold LikeState.retry at h
  split at h
  · rename_i pat c s hstar
    cases h
    have hlength : pat.length ≤ whole.length := (st.behind _ hstar).1.length_le
    change likeRank whole pat s (some (pat, s)) < likeRank whole st.pat st.s st.star
    rw [hstar]
    simp only [likeRank, Option.elim_some, List.length_cons, Nat.succ_mul]
    omega
  · cases h

theorem next_descends {st : LikeState whole} {pat s : Text} {hpat : pat <:+ st.pat}
    {hs : s <:+ st.s} (hless : pat.length < st.pat.length) :
    (st.next pat s hpat hs).rank < st.rank := by
  change likeRank whole pat s st.star < likeRank whole st.pat st.s st.star
  cases st.star with
  | none =>
      have hmul : (s.length + 1) * (whole.length + 1) ≤ (st.s.length + 1) * (whole.length + 1) :=
        Nat.mul_le_mul_right _ (Nat.succ_le_succ hs.length_le)
      simp only [likeRank, Option.elim_none]
      omega
  | some p =>
      simp only [likeRank, Option.elim_some]
      omega

/-- A `%` moves the mark forward, and the pattern is shorter behind it. -/
theorem mark_descends {st : LikeState whole} {p : UInt8} {pat : Text}
    (hpat : st.pat = p :: pat) : likeRank whole pat st.s (some (pat, st.s)) < st.rank := by
  change _ < likeRank whole st.pat st.s st.star
  rw [hpat]
  cases hstar : st.star with
  | none =>
      simp only [likeRank, Option.elim_some, Option.elim_none, List.length_cons, Nat.succ_mul]
      omega
  | some q =>
      have hsuffix := (st.behind q hstar).2.length_le
      have hmul := Nat.mul_le_mul_right (whole.length + 1) hsuffix
      simp only [likeRank, Option.elim_some, List.length_cons]
      omega

theorem turn_descends {st st' : LikeState whole} (h : st.turn = .again st') :
    st'.rank < st.rank := by
  unfold LikeState.turn at h
  split at h
  · cases h
  · rename_i c s hs
    split at h
    · exact retry_descends h
    · rename_i p pat hpat
      dsimp only at h
      split at h
      · cases h
        have hmark := mark_descends hpat
        rwa [hs] at hmark
      · split at h
        · cases h
          exact next_descends (by rw [hpat]; exact Nat.lt_succ_self _)
        · split at h
          · exact retry_descends h
          · rename_i l rest hliteral
            split at h
            · cases h
              exact next_descends (by rw [hpat]; exact literal_length hliteral)
            · exact retry_descends h

def likeLoop (whole : Text) : Loop (LikeState whole) Bool where
  turn := LikeState.turn
  rank := LikeState.rank
  descends := turn_descends

/-- `LikeMatch`. -/
def likeMatch (pat s : Text) : Bool :=
  (likeLoop pat).run ⟨pat, s, none, List.suffix_rfl, fun _ hp => nomatch hp⟩

/-- `NameMatches`. -/
def nameMatches (pattern name : Option Text) : Bool :=
  match pattern with
  | none => true
  | some [] => (nameOrNull name).isNone
  | some pat =>
      match name with
      | none => false
      | some name => likeMatch pat name

/-! ## The order of names -/

/-- `strcmp`. -/
def strcmp (a b : Text) : Ordering := compare a b

/-- `StrCmpNull`. -/
def strCmpNull (a b : Option Text) : Ordering :=
  match a, b with
  | none, none => .eq
  | none, some _ => .lt
  | some _, none => .gt
  | some a, some b => strcmp a b

theorem strCmpNull_eq (a b : Option Text) : strCmpNull a b = compare a b := by
  cases a with
  | none =>
      cases b with
      | none => rfl
      | some b => rfl
  | some a =>
      cases b with
      | none => rfl
      | some b => rfl

theorem strCmpNull_eq_iff {a b : Option Text} : strCmpNull a b = .eq ↔ a = b := by
  rw [strCmpNull_eq, Std.LawfulEqOrd.compare_eq_iff_eq]

instance (α : Type*) (name : α → Option Text) :
    Std.TransCmp fun a b => strCmpNull (name a) (name b) where
  eq_swap := by
    intro a b
    rw [strCmpNull_eq, strCmpNull_eq]
    exact Std.OrientedCmp.eq_swap
  isLE_trans := by
    intro a b c
    rw [strCmpNull_eq, strCmpNull_eq, strCmpNull_eq]
    exact Std.TransCmp.isLE_trans

end AdbcBridge.Objects
