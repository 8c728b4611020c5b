import AdbcBridge.Objects.Like

/-!
# `QdbLikeMatch`

The second matcher of LIKE patterns, for a server whose names are read over HTTP.  It calls
itself for every place behind a run of `%` and knows no escapes; without a backslash in the
pattern the two matchers are one.
-/

namespace AdbcBridge.Questdb

open AdbcBridge.Lib AdbcBridge.Lib.Wildcard AdbcBridge.Objects

/-- `QdbLower`. -/
def qdbLower (c : UInt8) : UInt8 := if 65 ≤ c ∧ c ≤ 90 then c - 65 + 97 else c

/-- `QdbLikeMatch` for a pattern that is there. -/
def qdbMatch (pat s : Text) : Bool :=
  match pat with
  | [] => decide (s = [])
  | p :: pat =>
      if p = percent then
        let rest := pat.dropWhile (· = percent)
        if rest = [] then true else s.tails.any fun t => qdbMatch rest t
      else
        match s with
        | [] => false
        | c :: s =>
            if p ≠ underscore ∧ qdbLower p ≠ qdbLower c then false else qdbMatch pat s
termination_by pat.length
decreasing_by
  · exact Nat.lt_succ_of_le (List.dropWhile_suffix _).length_le
  · exact Nat.lt_succ_self _

/-- `QdbLikeMatch`. -/
def qdbLikeMatch (pat : Option Text) (s : Text) : Bool :=
  match pat with
  | none => true
  | some pat => qdbMatch pat s

/-- The bytes behind a run of `%` match at the same places as behind its first one. -/
theorem matches_dropWhile (pat s : Text) :
    Matches SameLetter (.run :: likeItems (pat.dropWhile (· = percent))) s ↔
      Matches SameLetter (.run :: likeItems pat) s := by
  induction pat generalizing s with
  | nil => exact Iff.rfl
  | cons p pat ih =>
      by_cases hp : p = percent
      · rw [hp, List.dropWhile_cons_of_pos (by decide), ih, likeItems_percent]
        constructor
        · intro h
          obtain ⟨t, ht, hmatches⟩ := h
          exact ⟨s, List.suffix_rfl, t, ht, hmatches⟩
        · intro h
          obtain ⟨u, hu, t, ht, hmatches⟩ := h
          exact ⟨t, ht.trans hu, hmatches⟩
      · rw [List.dropWhile_cons_of_neg (by simpa using hp)]

/-- By induction on the pattern: with no backslash in it every byte is an item. -/
theorem qdbMatch_iff {pat : Text} (h : backslash ∉ pat) (s : Text) :
    qdbMatch pat s = true ↔ Matches SameLetter (likeItems pat) s := by
  induction hlen : pat.length using Nat.strong_induction_on generalizing pat s with
  | _ n ih =>
    cases pat with
    | nil =>
        rw [qdbMatch, decide_eq_true_iff]
        exact Iff.rfl
    | cons p pat =>
        have hrest : backslash ∉ pat := fun hmem => h (List.mem_cons_of_mem _ hmem)
        have hless : pat.length < n := by
          rw [← hlen]
          exact Nat.lt_succ_self _
        rw [qdbMatch.eq_def]
        dsimp only
        by_cases hp : p = percent
        · have hsuffix : pat.dropWhile (· = percent) <:+ pat := List.dropWhile_suffix _
          rw [if_pos hp, hp, likeItems_percent, ← matches_dropWhile]
          generalize pat.dropWhile (· = percent) = rest at hsuffix
          by_cases hend : rest = []
          · rw [if_pos hend, hend]
            exact iff_of_true rfl ⟨[], List.nil_suffix, rfl⟩
          · have hbehind : ∀ t, qdbMatch rest t = true ↔
                Matches SameLetter (likeItems rest) t := fun t =>
              ih _ (lt_of_le_of_lt hsuffix.length_le hless)
                (fun hmem => hrest (hsuffix.subset hmem)) t rfl
            rw [if_neg hend, List.any_eq_true]
            simp only [hbehind, List.mem_tails]
            exact Iff.rfl
        · rw [if_neg hp]
          cases s with
          | nil =>
              dsimp only
              apply iff_of_false Bool.false_ne_true
              by_cases hu : p = underscore
              · rw [hu, likeItems_underscore]
                exact not_matches_one_nil
              · rw [likeItems_byte hp hu fun hb => absurd (hb ▸ List.mem_cons_self) h]
                exact not_matches_is_nil
          | cons c s =>
              have htail := ih _ hless hrest s rfl
              dsimp only
              by_cases hu : p = underscore
              · rw [if_neg fun hboth => hboth.1 hu, hu, likeItems_underscore, matches_one, htail]
              · have hitems : likeItems (p :: pat) = .is p :: likeItems pat :=
                  likeItems_byte hp hu fun hb => absurd (hb ▸ List.mem_cons_self) h
                rw [hitems, matches_is, ← htail]
                by_cases hsame : SameLetter p c
                · rw [if_neg fun hboth => hboth.2 hsame]
                  exact (and_iff_right hsame).symm
                · rw [if_pos ⟨hu, hsame⟩]
                  exact iff_of_false Bool.false_ne_true fun hboth => hsame hboth.1

/-- Both matchers decide LIKE up to ASCII case: `LikeMatch` leaves its loop with whether the
value is like the pattern, and `QdbLikeMatch` says the same of every pattern without a
backslash. -/
theorem likeMatch_exact (pat s : Text) :
    (likeLoop pat).Leaves (likeStart pat s) (likeMatch pat s) ∧
      (likeMatch pat s = true ↔ Like SameLetter pat s) ∧
      (backslash ∉ pat → qdbLikeMatch (some pat) s = likeMatch pat s) := by
  refine ⟨(likeLoop pat).leaves_run _, likeMatch_iff pat s, ?_⟩
  intro h
  rw [Bool.eq_iff_iff, likeMatch_iff, like_iff_matches]
  exact qdbMatch_iff h s

/-- Of the pattern `a%_` and the value `Abc`. -/
theorem likeMatch_exact_mixed :
    qdbLikeMatch (some (ascii "a%_")) (ascii "Abc") = likeMatch (ascii "a%_") (ascii "Abc") :=
  (likeMatch_exact (ascii "a%_") (ascii "Abc")).2.2 (by decide)

/-- An escaped letter is no more literal than any other: the pattern `\A` matches `a`. -/
theorem escape_folds :
    ¬ ∀ pat s : Text, likeMatch pat s = true ↔ Like (fun l c => l = c) pat s := by
  intro h
  have hmatch : likeMatch (ascii "\\A") (ascii "a") = true :=
    (likeMatch_iff _ _).mpr (.escape (by decide) .done)
  have hlike := (h (ascii "\\A") (ascii "a")).mp hmatch
  cases hlike with
  | escape hl _ => exact absurd hl (by decide)
  | byte _ _ hb _ _ => exact absurd (hb rfl) (List.cons_ne_nil _ _)

end AdbcBridge.Questdb
