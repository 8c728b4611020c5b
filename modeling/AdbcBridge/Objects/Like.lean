import AdbcBridge.Lib.Wildcard
import AdbcBridge.Objects.Names

/-!
# What `LikeMatch` decides

The meaning of a LIKE pattern by recursion on its bytes, and that the loop of `LikeMatch`,
which remembers only the last `%`, decides it.  The loop loses nothing when it gives up the
`%` before: whatever matches from a later place behind that one also matches from where the
new one was reached.
-/

namespace AdbcBridge.Objects

open AdbcBridge.Lib AdbcBridge.Lib.Wildcard

/-- Equal up to ASCII case. -/
def SameLetter (a c : UInt8) : Prop := asciiLower a = asciiLower c

instance : DecidableRel SameLetter := fun a c => decEq (asciiLower a) (asciiLower c)

/-- LIKE: `%` is any run of bytes and `_` one byte, a backslash takes the byte behind it as
`escaped` says, and every other byte is itself up to ASCII case. -/
inductive Like (escaped : UInt8 → UInt8 → Prop) : Text → Text → Prop where
  | done : Like escaped [] []
  | run {pat s t : Text} : t <:+ s → Like escaped pat t → Like escaped (percent :: pat) s
  | one {pat s : Text} (c : UInt8) : Like escaped pat s → Like escaped (underscore :: pat) (c :: s)
  | escape {l c : UInt8} {pat s : Text} : escaped l c → Like escaped pat s →
      Like escaped (backslash :: l :: pat) (c :: s)
  | byte {p c : UInt8} {pat s : Text} : p ≠ percent → p ≠ underscore → (p = backslash → pat = []) →
      SameLetter p c → Like escaped pat s → Like escaped (p :: pat) (c :: s)

/-- The signs of LIKE in bytes. -/
def byteSigns : Signs UInt8 where
  run := percent
  one := underscore
  escape := backslash

/-- The items of a pattern in bytes. -/
def likeItems (pat : Text) : List (Item UInt8) := items byteSigns pat

theorem likeItems_percent (pat : Text) : likeItems (percent :: pat) = .run :: likeItems pat :=
  items_cons (by decide) pat

theorem likeItems_underscore (pat : Text) :
    likeItems (underscore :: pat) = .one :: likeItems pat :=
  items_cons (by decide) pat

theorem likeItems_escape (l : UInt8) (pat : Text) :
    likeItems (backslash :: l :: pat) = .is l :: likeItems pat :=
  items_escape byteSigns l pat

/-- A byte that is no sign, or a backslash with nothing behind it. -/
theorem likeItems_byte {p : UInt8} {pat : Text} (hp : p ≠ percent) (hu : p ≠ underscore)
    (hb : p = backslash → pat = []) : likeItems (p :: pat) = .is p :: likeItems pat := by
  have hitem : byteSigns.item p = .is p := (if_neg hp).trans (if_neg hu)
  unfold likeItems
  cases pat with
  | nil => exact congrArg (fun item => [item]) hitem
  | cons b pat =>
      have hescape : p ≠ byteSigns.escape := fun h => absurd (hb h) (List.cons_ne_nil b pat)
      rw [items_cons hescape, hitem]

theorem literal_cons (p : UInt8) (pat : Text) : ∃ l rest, literal (p :: pat) = some (l, rest) := by
  unfold literal
  cases pat with
  | nil => exact ⟨p, [], rfl⟩
  | cons l rest =>
      by_cases hb : p = backslash
      · exact ⟨l, rest, if_pos hb⟩
      · exact ⟨p, l :: rest, if_neg hb⟩

theorem likeItems_literal {p l : UInt8} {pat rest : Text} (hp : p ≠ percent) (hu : p ≠ underscore)
    (h : literal (p :: pat) = some (l, rest)) :
    likeItems (p :: pat) = .is l :: likeItems rest := by
  cases pat with
  | nil =>
      rw [literal, Option.some.injEq, Prod.mk.injEq] at h
      rw [← h.1, ← h.2]
      exact likeItems_byte hp hu fun _ => rfl
  | cons b pat =>
      rw [literal] at h
      by_cases hb : p = backslash
      · rw [if_pos hb, Option.some.injEq, Prod.mk.injEq] at h
        rw [hb, ← h.1, ← h.2]
        exact likeItems_escape b pat
      · rw [if_neg hb, Option.some.injEq, Prod.mk.injEq] at h
        rw [← h.1, ← h.2]
        exact likeItems_byte hp hu fun h => absurd h hb

/-- Escaped bytes are taken up to ASCII case as all others are. -/
theorem like_iff_matches {pat s : Text} :
    Like SameLetter pat s ↔ Matches SameLetter (likeItems pat) s := by
  constructor
  · intro h
    induction h with
    | done => exact rfl
    | run ht _ ih =>
        rw [likeItems_percent]
        exact ⟨_, ht, ih⟩
    | one c _ ih =>
        rw [likeItems_underscore]
        exact matches_one.mpr ih
    | escape hsame _ ih =>
        rw [likeItems_escape]
        exact matches_is.mpr ⟨hsame, ih⟩
    | byte hp hu hb hsame _ ih =>
        rw [likeItems_byte hp hu hb]
        exact matches_is.mpr ⟨hsame, ih⟩
  · intro h
    induction hlen : pat.length using Nat.strong_induction_on generalizing pat s with
    | _ n ih =>
      cases pat with
      | nil =>
          rw [matches_nil.mp h]
          exact .done
      | cons p pat =>
          have hless : pat.length < n := by
            rw [← hlen]
            exact Nat.lt_succ_self _
          by_cases hp : p = percent
          · rw [hp, likeItems_percent] at h
            obtain ⟨t, ht, hmatches⟩ := h
            rw [hp]
            exact .run ht (ih _ hless hmatches rfl)
          by_cases hu : p = underscore
          · rw [hu, likeItems_underscore] at h
            obtain ⟨c, t, rfl, hmatches⟩ := h
            rw [hu]
            exact .one c (ih _ hless hmatches rfl)
          by_cases hb : p = backslash → pat = []
          · rw [likeItems_byte hp hu hb] at h
            obtain ⟨c, t, rfl, hsame, hmatches⟩ := h
            exact .byte hp hu hb hsame (ih _ hless hmatches rfl)
          · rw [Classical.not_imp] at hb
            cases pat with
            | nil => exact absurd rfl hb.2
            | cons l pat =>
                rw [hb.1, likeItems_escape] at h
                obtain ⟨c, t, rfl, hsame, hmatches⟩ := h
                rw [hb.1]
                exact .escape hsame (ih _ (Nat.lt_of_succ_lt hless) hmatches rfl)

/-! ## The loop -/

variable {whole : Text} {st st' : LikeState whole} {b : Bool}

/-- What is left can still match: from where the loop is, or from a later place behind the
last `%`. -/
def Pending (st : LikeState whole) : Prop :=
  Matches SameLetter (likeItems st.pat) st.s ∨
    ∃ p ∈ st.star, ∃ t, t <:+ p.2 ∧ t.length < p.2.length ∧
      Matches SameLetter (likeItems p.1) t

/-- Since the last `%` the pattern and the value have gone on by one byte for each item. -/
def InStep (st : LikeState whole) : Prop :=
  ∀ p ∈ st.star, ∃ q, likeItems p.1 = q ++ likeItems st.pat ∧
    (∀ item ∈ q, item.single = true) ∧ q.length + st.s.length = p.2.length

theorem inStep_fresh {pat s : Text} {hpat : pat <:+ whole}
    {hbehind : ∀ p ∈ some (pat, s), p.1 <:+ whole ∧ s <:+ p.2} :
    InStep ⟨pat, s, some (pat, s), hpat, hbehind⟩ := by
  intro p hp
  rw [Option.mem_some_iff] at hp
  rw [← hp]
  exact ⟨[], rfl, fun item hitem => absurd hitem List.not_mem_nil, Nat.zero_add _⟩

/-- The place behind the last `%` and everything behind that are all the places left. -/
theorem pending_fresh {pat s : Text} {hpat : pat <:+ whole}
    {hbehind : ∀ p ∈ some (pat, s), p.1 <:+ whole ∧ s <:+ p.2} :
    Pending ⟨pat, s, some (pat, s), hpat, hbehind⟩ ↔
      ∃ t, t <:+ s ∧ Matches SameLetter (likeItems pat) t := by
  unfold Pending
  constructor
  · intro h
    cases h with
    | inl hhere => exact ⟨s, List.suffix_rfl, hhere⟩
    | inr hlater =>
        obtain ⟨p, hp, t, ht, -, hmatches⟩ := hlater
        rw [Option.mem_some_iff] at hp
        rw [← hp] at ht hmatches
        exact ⟨t, ht, hmatches⟩
  · intro h
    obtain ⟨t, ht, hmatches⟩ := h
    cases Nat.lt_or_ge t.length s.length with
    | inl hless => exact Or.inr ⟨(pat, s), rfl, t, ht, hless, hmatches⟩
    | inr hge =>
        rw [ht.eq_of_length_le hge] at hmatches
        exact Or.inl hmatches

/-- One item and one byte further. -/
theorem inStep_next {pat s : Text} {hpat : pat <:+ st.pat} {hs : s <:+ st.s} {item : Item UInt8}
    {c : UInt8} (h : InStep st) (hitem : likeItems st.pat = item :: likeItems pat)
    (hsingle : item.single = true) (hc : st.s = c :: s) : InStep (st.next pat s hpat hs) := by
  intro p hp
  obtain ⟨q, hq, hqs, hlen⟩ := h p hp
  refine ⟨q ++ [item], ?_, ?_, ?_⟩
  · rw [hq, hitem, List.append_assoc]
    rfl
  · intro i hi
    rw [List.mem_append, List.mem_singleton] at hi
    cases hi with
    | inl hmem => exact hqs i hmem
    | inr heq =>
        rw [heq]
        exact hsingle
  · rw [hc, List.length_cons] at hlen
    rw [List.length_append, List.length_singleton]
    change q.length + 1 + s.length = p.2.length
    omega

theorem pending_next {pat s : Text} {hpat : pat <:+ st.pat} {hs : s <:+ st.s}
    (h : Matches SameLetter (likeItems st.pat) st.s ↔ Matches SameLetter (likeItems pat) s) :
    Pending (st.next pat s hpat hs) ↔ Pending st :=
  or_congr_left h.symm

/-- A new `%`: the one before need not be gone back to. -/
theorem pending_mark {pat s : Text} (h : InStep st) (hpat : st.pat = percent :: pat)
    (hs : st.s = s) {hwhole : pat <:+ whole}
    {hbehind : ∀ p ∈ some (pat, s), p.1 <:+ whole ∧ s <:+ p.2} :
    Pending ⟨pat, s, some (pat, s), hwhole, hbehind⟩ ↔ Pending st := by
  subst hs
  have hrun : Matches SameLetter (likeItems st.pat) st.s ↔
      ∃ t, t <:+ st.s ∧ Matches SameLetter (likeItems pat) t := by
    rw [hpat, likeItems_percent, matches_run]
  rw [pending_fresh, ← hrun]
  constructor
  · intro hhere
    exact Or.inl hhere
  · intro hpending
    cases hpending with
    | inl hhere => exact hhere
    | inr hlater =>
        obtain ⟨p, hp, t, ht, -, hmatches⟩ := hlater
        obtain ⟨q, hq, hsingle, hlen⟩ := h p hp
        rw [hpat, likeItems_percent] at hq ⊢
        rw [hq] at hmatches
        exact matches_run_of_earlier hsingle hlen (st.behind p hp).2 ht hmatches

/-- Back to the last `%` when nothing matches here. -/
theorem retry_again (hfail : ¬ Matches SameLetter (likeItems st.pat) st.s)
    (h : st.retry = .again st') : InStep st' ∧ (Pending st' ↔ Pending st) := by
  unfold LikeState.retry at h
  split at h
  · rename_i pat c s hstar
    rw [← Turn.again.inj h]
    refine ⟨inStep_fresh, pending_fresh.trans ?_⟩
    unfold Pending
    rw [or_iff_right hfail]
    constructor
    · intro hlater
      obtain ⟨t, ht, hmatches⟩ := hlater
      exact ⟨_, hstar, t, ht.trans (List.suffix_cons c s),
        Nat.lt_succ_of_le ht.length_le, hmatches⟩
    · intro hlater
      obtain ⟨p, hp, t, ht, hless, hmatches⟩ := hlater
      rw [hstar, Option.mem_some_iff] at hp
      rw [← hp] at ht hless hmatches
      rw [List.suffix_cons_iff] at ht
      cases ht with
      | inl heq =>
          rw [heq] at hless
          exact absurd hless (Nat.lt_irrefl _)
      | inr hsuffix => exact ⟨t, hsuffix, hmatches⟩
  · cases h

/-- With no `%` to go back to there is no match. -/
theorem retry_leave (hfail : ¬ Matches SameLetter (likeItems st.pat) st.s)
    (h : st.retry = .leave b) : b = true ↔ Pending st := by
  unfold LikeState.retry at h
  split at h
  · cases h
  · rename_i hnone
    rw [← Turn.leave.inj h]
    apply iff_of_false Bool.false_ne_true
    unfold Pending
    rw [or_iff_right hfail]
    intro hlater
    obtain ⟨p, hp, t, ht, hless, -⟩ := hlater
    obtain ⟨pat, s⟩ := p
    cases s with
    | nil => exact absurd hless (Nat.not_lt_zero _)
    | cons c s => exact hnone pat c s hp

/-- Only runs match the empty text. -/
theorem matches_empty_iff (pat : Text) :
    Matches SameLetter (likeItems pat) [] ↔ pat.dropWhile (· = percent) = [] := by
  induction pat with
  | nil => exact iff_of_true rfl rfl
  | cons p pat ih =>
      by_cases hp : p = percent
      · have hrun : (∃ t, t <:+ [] ∧ Matches SameLetter (likeItems pat) t) ↔
            Matches SameLetter (likeItems pat) [] := by
          constructor
          · intro h
            obtain ⟨t, ht, hmatches⟩ := h
            rwa [List.suffix_nil.mp ht] at hmatches
          · intro h
            exact ⟨[], List.suffix_rfl, h⟩
        rw [hp, likeItems_percent, matches_run, hrun, ih, List.dropWhile_cons_of_pos (by decide)]
      · have hkept : (p :: pat).dropWhile (· = percent) = p :: pat :=
          List.dropWhile_cons_of_neg (by simpa using hp)
        apply iff_of_false
        · by_cases hu : p = underscore
          · rw [hu, likeItems_underscore]
            exact not_matches_one_nil
          · obtain ⟨l, rest, hl⟩ := literal_cons p pat
            rw [likeItems_literal hp hu hl]
            exact not_matches_is_nil
        · rw [hkept]
          exact List.cons_ne_nil p pat

/-- At the end of the value the rest of the pattern decides: behind an earlier place of the
last `%` there would be more bytes to read than are left. -/
theorem pending_end (h : InStep st) (hs : st.s = []) :
    Pending st ↔ st.pat.dropWhile (· = percent) = [] := by
  rw [← matches_empty_iff, ← hs]
  apply or_iff_left
  intro hlater
  obtain ⟨p, hp, t, -, hless, hmatches⟩ := hlater
  obtain ⟨q, hq, hsingle, hlen⟩ := h p hp
  rw [hq] at hmatches
  have hle := length_le_of_matches hsingle hmatches
  rw [hs, List.length_nil] at hlen
  omega

/-- One turn: it goes on in step with the same matches pending, or leaves with the answer. -/
def Decides (st : LikeState whole) (turn : Turn (LikeState whole) Bool) : Prop :=
  (∀ st', turn = .again st' → InStep st' ∧ (Pending st' ↔ Pending st)) ∧
    ∀ b, turn = .leave b → (b = true ↔ Pending st)

theorem decides_again (h : InStep st' ∧ (Pending st' ↔ Pending st)) :
    Decides st (.again st') := by
  constructor
  · intro st'' heq
    rwa [← Turn.again.inj heq]
  · intro b heq
    cases heq

theorem decides_retry (hfail : ¬ Matches SameLetter (likeItems st.pat) st.s) :
    Decides st st.retry :=
  ⟨fun _ h => retry_again hfail h, fun _ h => retry_leave hfail h⟩

theorem turn_decides (h : InStep st) : Decides st st.turn := by
  unfold LikeState.turn
  split
  · rename_i hs
    constructor
    · intro st' heq
      cases heq
    · intro b heq
      rw [← Turn.leave.inj heq, decide_eq_true_iff, pending_end h hs]
  · rename_i c s hs
    split
    · rename_i hpat
      apply decides_retry
      rw [hpat, hs]
      exact List.cons_ne_nil c s
    · rename_i p pat hpat
      dsimp only
      split_ifs with hp hu
      · rw [hp] at hpat
        exact decides_again ⟨inStep_fresh, pending_mark h hpat hs⟩
      · have hitem : likeItems st.pat = .one :: likeItems pat := by
          rw [hpat, hu, likeItems_underscore]
        apply decides_again
        refine ⟨inStep_next h hitem rfl hs, pending_next ?_⟩
        rw [hitem, hs, matches_one]
      · split
        · rename_i hnone
          obtain ⟨l, rest, hl⟩ := literal_cons p pat
          rw [hl] at hnone
          cases hnone
        · rename_i l rest hliteral
          have hitem : likeItems st.pat = .is l :: likeItems rest := by
            rw [hpat, likeItems_literal hp hu hliteral]
          have hmatches : Matches SameLetter (likeItems st.pat) st.s ↔
              SameLetter l c ∧ Matches SameLetter (likeItems rest) s := by
            rw [hitem, hs, matches_is]
          split_ifs with hsame
          · apply decides_again
            exact ⟨inStep_next h hitem rfl hs, pending_next (hmatches.trans (and_iff_right hsame))⟩
          · apply decides_retry
            rw [hmatches]
            exact fun hboth => hsame hboth.1

theorem behind_none (whole s : Text) (p : Text × Text) (hp : p ∈ none) :
    p.1 <:+ whole ∧ s <:+ p.2 := by
  cases hp

/-- The loop of `LikeMatch` as it is entered. -/
def likeStart (pat s : Text) : LikeState pat :=
  ⟨pat, s, none, List.suffix_rfl, behind_none pat s⟩

theorem likeMatch_iff (pat s : Text) : likeMatch pat s = true ↔ Like SameLetter pat s := by
  have hstart : InStep (likeStart pat s) := by
    intro p hp
    cases hp
  have hpending : Pending (likeStart pat s) ↔ Matches SameLetter (likeItems pat) s := by
    apply or_iff_left
    intro h
    obtain ⟨p, hp, -⟩ := h
    cases hp
  rw [like_iff_matches, ← hpending]
  refine @Loop.run_rule _ _ (likeLoop pat) _
    (fun st => InStep st ∧ (Pending st ↔ Pending (likeStart pat s)))
    (fun b => b = true ↔ Pending (likeStart pat s)) ?_ ?_ ⟨hstart, Iff.rfl⟩
  · intro st st' hst hturn
    have hnext := (turn_decides hst.1).1 st' hturn
    exact ⟨hnext.1, hnext.2.trans hst.2⟩
  · intro st b hst hturn
    exact ((turn_decides hst.1).2 b hturn).trans hst.2

end AdbcBridge.Objects
