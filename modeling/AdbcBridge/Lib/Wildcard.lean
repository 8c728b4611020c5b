import Mathlib.Data.List.Basic
import Mathlib.Data.List.Forall2
import Mathlib.Tactic.Common

/-!
# Patterns with wildcards

A pattern is a list of items: any run of letters, any one letter, or a letter of its own.
What a text matches is said by recursion on the items.  A matcher that only goes back to the
last run it has passed loses nothing by it, which `matches_run_of_earlier` says.

Wildcards next to each other are one gap, which takes so many letters, or so many and more.
Where every letter is coded by several smaller ones, a text that matches letter by letter
matches in code as long as no gap takes an exact number of letters.
-/

namespace AdbcBridge.Lib.Wildcard

inductive Item (α : Type*) where
  | run
  | one
  | is (a : α)

/-- The letters that stand for wildcards, and the one that takes the next letter as it is. -/
structure Signs (α : Type*) where
  run : α
  one : α
  escape : α

variable {α β : Type*}

section
variable [DecidableEq α]

def Signs.item (signs : Signs α) (a : α) : Item α :=
  if a = signs.run then .run else if a = signs.one then .one else .is a

/-- The items of a pattern as it is written.  An escape at the end stands for itself. -/
def items (signs : Signs α) : List α → List (Item α)
  | [] => []
  | [a] => [signs.item a]
  | a :: b :: pat =>
      if a = signs.escape then .is b :: items signs pat
      else signs.item a :: items signs (b :: pat)

theorem items_cons {signs : Signs α} {a : α} (h : a ≠ signs.escape) (pat : List α) :
    items signs (a :: pat) = signs.item a :: items signs pat := by
  cases pat with
  | nil => rfl
  | cons b pat => rw [items, if_neg h]

theorem items_escape (signs : Signs α) (b : α) (pat : List α) :
    items signs (signs.escape :: b :: pat) = .is b :: items signs pat := by
  rw [items, if_pos rfl]

theorem mem_items {signs : Signs α} {pat : List α} {a : α} (h : .is a ∈ items signs pat) :
    a ∈ pat := by
  have hitem : ∀ b, .is a = signs.item b → a = b := by
    intro b hb
    unfold Signs.item at hb
    split_ifs at hb
    exact Item.is.inj hb
  induction pat using items.induct signs with
  | case1 => cases h
  | case2 b =>
      rw [items, List.mem_singleton] at h
      rw [hitem b h]
      exact List.mem_cons_self
  | case3 c pat ih =>
      rw [items_escape, List.mem_cons] at h
      cases h with
      | inl heq =>
          rw [Item.is.inj heq]
          exact List.mem_cons_of_mem _ List.mem_cons_self
      | inr hmem => exact List.mem_cons_of_mem _ (List.mem_cons_of_mem _ (ih hmem))
  | case4 b c pat hb ih =>
      rw [items_cons hb, List.mem_cons] at h
      cases h with
      | inl heq =>
          rw [hitem b heq]
          exact List.mem_cons_self
      | inr hmem => exact List.mem_cons_of_mem _ (ih hmem)

end

/-- `ok a c`: the letter `c` of a text will do for the letter `a` of the pattern. -/
def Matches (ok : α → β → Prop) : List (Item α) → List β → Prop
  | [], s => s = []
  | .run :: pat, s => ∃ t, t <:+ s ∧ Matches ok pat t
  | .one :: pat, s => ∃ c t, s = c :: t ∧ Matches ok pat t
  | .is a :: pat, s => ∃ c t, s = c :: t ∧ ok a c ∧ Matches ok pat t

section
variable {ok : α → β → Prop} {pat q : List (Item α)} {s t : List β} {a : α} {c : β}

@[simp]
theorem matches_nil : Matches ok [] s ↔ s = [] := Iff.rfl

@[simp]
theorem matches_run : Matches ok (.run :: pat) s ↔ ∃ t, t <:+ s ∧ Matches ok pat t := Iff.rfl

@[simp]
theorem matches_one : Matches ok (.one :: pat) (c :: s) ↔ Matches ok pat s := by
  constructor
  · intro h
    obtain ⟨c', t, heq, ht⟩ := h
    rwa [(List.cons.inj heq).2]
  · intro h
    exact ⟨c, s, rfl, h⟩

@[simp]
theorem matches_is : Matches ok (.is a :: pat) (c :: s) ↔ ok a c ∧ Matches ok pat s := by
  constructor
  · intro h
    obtain ⟨c', t, heq, hok, ht⟩ := h
    rw [(List.cons.inj heq).1, (List.cons.inj heq).2]
    exact ⟨hok, ht⟩
  · intro h
    exact ⟨c, s, rfl, h⟩

@[simp]
theorem not_matches_one_nil : ¬ Matches ok (.one :: pat) [] := by
  intro h
  obtain ⟨c, t, heq, -⟩ := h
  cases heq

@[simp]
theorem not_matches_is_nil : ¬ Matches ok (.is a :: pat) [] := by
  intro h
  obtain ⟨c, t, heq, -⟩ := h
  cases heq

theorem matches_append : Matches ok (q ++ pat) s ↔
    ∃ u t, s = u ++ t ∧ Matches ok q u ∧ Matches ok pat t := by
  induction q generalizing s with
  | nil =>
      constructor
      · intro h
        exact ⟨[], s, rfl, rfl, h⟩
      · intro h
        obtain ⟨u, t, hs, hu, ht⟩ := h
        rwa [hs, matches_nil.mp hu]
  | cons item q ih =>
      cases item with
      | run =>
          constructor
          · intro h
            obtain ⟨s', ⟨v, hv⟩, h'⟩ := h
            obtain ⟨u, t, hs', hu, ht⟩ := ih.mp h'
            refine ⟨v ++ u, t, ?_, ⟨u, List.suffix_append v u, hu⟩, ht⟩
            rw [← hv, hs', List.append_assoc]
          · intro h
            obtain ⟨u, t, hs, ⟨u', ⟨v, hv⟩, hu⟩, ht⟩ := h
            refine ⟨u' ++ t, ⟨v, ?_⟩, ih.mpr ⟨u', t, rfl, hu, ht⟩⟩
            rw [hs, ← hv, List.append_assoc]
      | one =>
          constructor
          · intro h
            obtain ⟨c, s', hs, h'⟩ := h
            obtain ⟨u, t, hs', hu, ht⟩ := ih.mp h'
            exact ⟨c :: u, t, by rw [hs, hs', List.cons_append], matches_one.mpr hu, ht⟩
          · intro h
            obtain ⟨u, t, hs, ⟨c, u', hu', hu⟩, ht⟩ := h
            exact ⟨c, u' ++ t, by rw [hs, hu', List.cons_append], ih.mpr ⟨u', t, rfl, hu, ht⟩⟩
      | is a =>
          constructor
          · intro h
            obtain ⟨c, s', hs, hok, h'⟩ := h
            obtain ⟨u, t, hs', hu, ht⟩ := ih.mp h'
            exact ⟨c :: u, t, by rw [hs, hs', List.cons_append], matches_is.mpr ⟨hok, hu⟩, ht⟩
          · intro h
            obtain ⟨u, t, hs, ⟨c, u', hu', hok, hu⟩, ht⟩ := h
            exact ⟨c, u' ++ t, by rw [hs, hu', List.cons_append], hok,
              ih.mpr ⟨u', t, rfl, hu, ht⟩⟩

/-! ## The last run is the only one to go back to -/

/-- An item that takes exactly one letter. -/
def Item.single : Item α → Bool
  | .run => false
  | .one => true
  | .is _ => true

theorem length_of_matches (hq : ∀ item ∈ q, item.single = true) (h : Matches ok q s) :
    s.length = q.length := by
  induction q generalizing s with
  | nil =>
      rw [matches_nil.mp h]
      rfl
  | cons item q ih =>
      have hrest : ∀ item ∈ q, item.single = true :=
        fun item hitem => hq item (List.mem_cons_of_mem _ hitem)
      cases item with
      | run => exact absurd (hq _ List.mem_cons_self) Bool.false_ne_true
      | one =>
          obtain ⟨c, t, hs, ht⟩ := h
          rw [hs, List.length_cons, List.length_cons, ih hrest ht]
      | is a =>
          obtain ⟨c, t, hs, -, ht⟩ := h
          rw [hs, List.length_cons, List.length_cons, ih hrest ht]

/-- Before the text is as long as the items that take one letter each, nothing matches. -/
theorem length_le_of_matches (hq : ∀ item ∈ q, item.single = true)
    (h : Matches ok (q ++ pat) s) : q.length ≤ s.length := by
  obtain ⟨u, t, hs, hu, -⟩ := matches_append.mp h
  rw [hs, List.length_append, length_of_matches hq hu]
  exact Nat.le_add_right _ _

/-- A text `whole` is read up to `s` by the items `q`, behind which a run comes: what matches
from any other place of `whole` on also matches with that run at `s`. -/
theorem matches_run_of_earlier {whole : List β} (hq : ∀ item ∈ q, item.single = true)
    (hread : q.length + s.length = whole.length) (hs : s <:+ whole) (ht : t <:+ whole)
    (h : Matches ok (q ++ .run :: pat) t) : Matches ok (.run :: pat) s := by
  obtain ⟨u, v, htv, hu, hrun⟩ := matches_append.mp h
  obtain ⟨r, hr, hmatches⟩ := hrun
  have hvt : v <:+ t := ⟨u, htv.symm⟩
  have hlength : v.length ≤ s.length := by
    have hsum := congrArg List.length htv
    have hqu := length_of_matches hq hu
    have hle := ht.length_le
    rw [List.length_append] at hsum
    omega
  have hvs : v <:+ s := List.suffix_of_suffix_length_le (hvt.trans ht) hs hlength
  exact ⟨r, hr.trans hvs, hmatches⟩

end

/-! ## Gaps -/

/-- A letter of a pattern, or the wildcards next to each other: `least` letters, or at least
so many if one of them is a run. -/
inductive Segment (α : Type*) where
  | letter (a : α)
  | gap (least : Nat) (wide : Bool)

def Segment.isGap : Segment α → Bool
  | .letter _ => false
  | .gap _ _ => true

/-- A gap that takes an exact number of letters. -/
def Segment.exact : Segment α → Bool
  | .letter _ => false
  | .gap _ wide => !wide

/-- Wildcards before some segments. -/
def join (least : Nat) (wide : Bool) : List (Segment α) → List (Segment α)
  | [] => [.gap least wide]
  | .letter a :: segs => .gap least wide :: .letter a :: segs
  | .gap k w :: segs => .gap (least + k) (wide || w) :: segs

def segments : List (Item α) → List (Segment α)
  | [] => []
  | .run :: pat => join 0 true (segments pat)
  | .one :: pat => join 1 false (segments pat)
  | .is a :: pat => .letter a :: segments pat

/-- `n` letters fill a gap. -/
def Fills (least : Nat) (wide : Bool) (n : Nat) : Prop := n = least ∨ wide = true ∧ least ≤ n

def Covers (ok : α → β → Prop) : List (Segment α) → List β → Prop
  | [], s => s = []
  | .letter a :: segs, s => ∃ c t, s = c :: t ∧ ok a c ∧ Covers ok segs t
  | .gap least wide :: segs, s => ∃ u t, s = u ++ t ∧ Fills least wide u.length ∧ Covers ok segs t

theorem le_of_fills {least n : Nat} {wide : Bool} (h : Fills least wide n) : least ≤ n := by
  cases h with
  | inl heq => exact Nat.le_of_eq heq.symm
  | inr hmore => exact hmore.2

theorem fills_add {j k n : Nat} {v w : Bool} :
    Fills (j + k) (v || w) n ↔ ∃ a b, n = a + b ∧ Fills j v a ∧ Fills k w b := by
  unfold Fills
  constructor
  · intro h
    cases h with
    | inl heq => exact ⟨j, k, heq, Or.inl rfl, Or.inl rfl⟩
    | inr hmore =>
        cases v with
        | true => exact ⟨n - k, k, by omega, Or.inr ⟨rfl, by omega⟩, Or.inl rfl⟩
        | false => exact ⟨j, n - j, by omega, Or.inl rfl, Or.inr ⟨hmore.1, by omega⟩⟩
  · intro h
    obtain ⟨a, b, hn, ha, hb⟩ := h
    cases v <;> cases w <;> simp at ha hb ⊢ <;> omega

section
variable {ok : α → β → Prop} {pat : List (Item α)} {segs : List (Segment α)} {s : List β}

theorem covers_join {least : Nat} {wide : Bool} :
    Covers ok (join least wide segs) s ↔
      ∃ u t, s = u ++ t ∧ Fills least wide u.length ∧ Covers ok segs t := by
  cases segs with
  | nil => exact Iff.rfl
  | cons seg segs =>
      cases seg with
      | letter a => exact Iff.rfl
      | gap k w =>
          constructor
          · intro h
            obtain ⟨u, t, hs, hfills, ht⟩ := h
            obtain ⟨a, b, hlen, ha, hb⟩ := fills_add.mp hfills
            refine ⟨u.take a, u.drop a ++ t, ?_, ?_, u.drop a, t, rfl, ?_, ht⟩
            · rw [← List.append_assoc, List.take_append_drop, hs]
            · rwa [List.length_take, Nat.min_eq_left (by omega)]
            · rwa [List.length_drop, hlen, Nat.add_sub_cancel_left]
          · intro h
            obtain ⟨u, t, hs, hu, u', t', ht, hu', hcovers⟩ := h
            refine ⟨u ++ u', t', ?_, ?_, hcovers⟩
            · rw [hs, ht, List.append_assoc]
            · rw [List.length_append]
              exact fills_add.mpr ⟨_, _, rfl, hu, hu'⟩

theorem matches_iff_covers : Matches ok pat s ↔ Covers ok (segments pat) s := by
  induction pat generalizing s with
  | nil => exact Iff.rfl
  | cons item pat ih =>
      cases item with
      | run =>
          rw [segments, covers_join]
          constructor
          · intro h
            obtain ⟨t, ⟨u, hu⟩, ht⟩ := h
            exact ⟨u, t, hu.symm, Or.inr ⟨rfl, Nat.zero_le _⟩, ih.mp ht⟩
          · intro h
            obtain ⟨u, t, hs, -, ht⟩ := h
            exact ⟨t, ⟨u, hs.symm⟩, ih.mpr ht⟩
      | one =>
          rw [segments, covers_join]
          constructor
          · intro h
            obtain ⟨c, t, hs, ht⟩ := h
            exact ⟨[c], t, hs, Or.inl rfl, ih.mp ht⟩
          · intro h
            obtain ⟨u, t, hs, hfills, ht⟩ := h
            have hone : u.length = 1 := hfills.resolve_right fun hmore =>
              absurd hmore.1 Bool.false_ne_true
            obtain ⟨c, hc⟩ := List.length_eq_one_iff.mp hone
            exact ⟨c, t, by rw [hs, hc, List.singleton_append], ih.mpr ht⟩
      | is a =>
          constructor
          · intro h
            obtain ⟨c, t, hs, hok, ht⟩ := h
            exact ⟨c, t, hs, hok, ih.mp ht⟩
          · intro h
            obtain ⟨c, t, hs, hok, ht⟩ := h
            exact ⟨c, t, hs, hok, ih.mpr ht⟩

theorem covers_append {pre post : List (Segment α)} :
    Covers ok (pre ++ post) s ↔ ∃ u v, s = u ++ v ∧ Covers ok pre u ∧ Covers ok post v := by
  induction pre generalizing s with
  | nil =>
      constructor
      · intro h
        exact ⟨[], s, rfl, rfl, h⟩
      · intro h
        obtain ⟨u, v, hs, hu, hv⟩ := h
        have hnil : u = [] := hu
        rwa [hs, hnil]
  | cons seg pre ih =>
      cases seg with
      | letter a =>
          constructor
          · intro h
            obtain ⟨c, t, hs, hok, ht⟩ := h
            obtain ⟨u, v, ht', hu, hv⟩ := ih.mp ht
            exact ⟨c :: u, v, by rw [hs, ht', List.cons_append], ⟨c, u, rfl, hok, hu⟩, hv⟩
          · intro h
            obtain ⟨u, v, hs, ⟨c, u', hu', hok, hu⟩, hv⟩ := h
            exact ⟨c, u' ++ v, by rw [hs, hu', List.cons_append], hok, ih.mpr ⟨u', v, rfl, hu, hv⟩⟩
      | gap least wide =>
          constructor
          · intro h
            obtain ⟨g, t, hs, hfills, ht⟩ := h
            obtain ⟨u, v, ht', hu, hv⟩ := ih.mp ht
            refine ⟨g ++ u, v, ?_, ⟨g, u, rfl, hfills, hu⟩, hv⟩
            rw [hs, ht', List.append_assoc]
          · intro h
            obtain ⟨u, v, hs, ⟨g, u', hu', hfills, hu⟩, hv⟩ := h
            refine ⟨g, u' ++ v, ?_, hfills, ih.mpr ⟨u', v, rfl, hu, hv⟩⟩
            rw [hs, hu', List.append_assoc]

end

/-- The fewest letters that segments take. -/
def leastLength : List (Segment α) → Nat
  | [] => 0
  | .letter _ :: segs => leastLength segs + 1
  | .gap least _ :: segs => leastLength segs + least

theorem leastLength_le {ok : α → β → Prop} {segs : List (Segment α)} {s : List β}
    (h : Covers ok segs s) : leastLength segs ≤ s.length := by
  induction segs generalizing s with
  | nil => exact Nat.zero_le _
  | cons seg segs ih =>
      cases seg with
      | letter a =>
          obtain ⟨c, t, hs, -, ht⟩ := h
          rw [hs, List.length_cons]
          exact Nat.succ_le_succ (ih ht)
      | gap least wide =>
          obtain ⟨u, t, hs, hfills, ht⟩ := h
          have hrest := ih ht
          have hgap := le_of_fills hfills
          rw [hs, List.length_append, leastLength]
          omega

/-! ## Where gaps stand -/

/-- No two gaps are next to each other. -/
def Apart (x y : Segment α) : Prop := x.isGap = true → y.isGap = false

theorem isChain_join {least : Nat} {wide : Bool} {segs : List (Segment α)}
    (h : segs.IsChain Apart) : (join least wide segs).IsChain Apart := by
  cases segs with
  | nil => exact List.IsChain.singleton _
  | cons seg segs =>
      cases seg with
      | letter a => exact List.isChain_cons_cons.mpr ⟨fun _ => rfl, h⟩
      | gap k w =>
          cases segs with
          | nil => exact List.IsChain.singleton _
          | cons next segs =>
              rw [List.isChain_cons_cons] at h
              exact List.isChain_cons_cons.mpr ⟨fun _ => h.1 rfl, h.2⟩

theorem isChain_segments (pat : List (Item α)) : (segments pat).IsChain Apart := by
  induction pat with
  | nil => exact List.IsChain.nil
  | cons item pat ih =>
      cases item with
      | run => exact isChain_join ih
      | one => exact isChain_join ih
      | is a =>
          rw [segments]
          cases hsegs : segments pat with
          | nil => exact List.IsChain.singleton _
          | cons next segs =>
              rw [hsegs] at ih
              exact List.isChain_cons_cons.mpr ⟨fun h => absurd h Bool.false_ne_true, ih⟩

theorem mem_join {least : Nat} {wide : Bool} {segs : List (Segment α)} {k : Nat}
    (h : Segment.gap k false ∈ join least wide segs) :
    Segment.gap k false ∈ segs ∨ wide = false ∧ least ≤ k := by
  cases segs with
  | nil =>
      rw [join, List.mem_singleton, Segment.gap.injEq] at h
      exact Or.inr ⟨h.2.symm, Nat.le_of_eq h.1.symm⟩
  | cons seg segs =>
      cases seg with
      | letter a =>
          rw [join, List.mem_cons, Segment.gap.injEq] at h
          cases h with
          | inl heq => exact Or.inr ⟨heq.2.symm, Nat.le_of_eq heq.1.symm⟩
          | inr hmem => exact Or.inl hmem
      | gap j w =>
          rw [join, List.mem_cons, Segment.gap.injEq] at h
          cases h with
          | inl heq =>
              have hwide := Bool.or_eq_false_iff.mp heq.2.symm
              exact Or.inr ⟨hwide.1, heq.1 ▸ Nat.le_add_right least j⟩
          | inr hmem => exact Or.inl (List.mem_cons_of_mem _ hmem)

theorem letter_ne_gap (a : α) (least : Nat) (wide : Bool) :
    Segment.letter a ≠ .gap least wide := by
  intro h
  cases h

theorem letter_of_mem_join {least : Nat} {wide : Bool} {segs : List (Segment α)} {a : α}
    (h : Segment.letter a ∈ join least wide segs) : Segment.letter a ∈ segs := by
  cases segs with
  | nil =>
      rw [join, List.mem_singleton] at h
      cases h
  | cons seg segs =>
      cases seg with
      | letter b =>
          rw [join, List.mem_cons] at h
          exact h.resolve_left (letter_ne_gap a _ _)
      | gap j w =>
          rw [join, List.mem_cons] at h
          exact List.mem_cons_of_mem _ (h.resolve_left (letter_ne_gap a _ _))

theorem letter_mem {pat : List (Item α)} {a : α} (h : Segment.letter a ∈ segments pat) :
    Item.is a ∈ pat := by
  induction pat with
  | nil => cases h
  | cons item pat ih =>
      cases item with
      | run => exact List.mem_cons_of_mem _ (ih (letter_of_mem_join h))
      | one => exact List.mem_cons_of_mem _ (ih (letter_of_mem_join h))
      | is b =>
          rw [segments, List.mem_cons] at h
          cases h with
          | inl heq =>
              rw [Segment.letter.inj heq]
              exact List.mem_cons_self
          | inr hmem => exact List.mem_cons_of_mem _ (ih hmem)

/-- A gap of an exact number of letters takes at least one. -/
theorem gap_pos {pat : List (Item α)} {k : Nat} (h : Segment.gap k false ∈ segments pat) :
    0 < k := by
  induction pat with
  | nil => cases h
  | cons item pat ih =>
      cases item with
      | run =>
          cases mem_join h with
          | inl hmem => exact ih hmem
          | inr hjoin => exact absurd hjoin.1.symm Bool.false_ne_true
      | one =>
          cases mem_join h with
          | inl hmem => exact ih hmem
          | inr hjoin => exact hjoin.2
      | is a =>
          rw [segments, List.mem_cons] at h
          cases h with
          | inl heq => cases heq
          | inr hmem => exact ih hmem

/-! ## Letters in code -/

section
variable {γ δ : Type*} (code : α → List γ)

/-- An item in code: a letter becomes the letters that code it. -/
def Item.coded : Item α → List (Item γ)
  | .run => [.run]
  | .one => [.one]
  | .is a => (code a).map .is

def Segment.coded : Segment α → List (Segment γ)
  | .letter a => (code a).map .letter
  | .gap least wide => [.gap least wide]

variable {code}

theorem segments_letters (as : List γ) (pat : List (Item γ)) :
    segments (as.map .is ++ pat) = as.map .letter ++ segments pat := by
  induction as with
  | nil => rfl
  | cons a as ih =>
      rw [List.map_cons, List.cons_append, segments, ih]
      rfl

theorem coded_join (hcode : ∀ a, code a ≠ []) {least : Nat} {wide : Bool}
    (segs : List (Segment α)) :
    join least wide (segs.flatMap (Segment.coded code)) =
      (join least wide segs).flatMap (Segment.coded code) := by
  cases segs with
  | nil => rfl
  | cons seg segs =>
      cases seg with
      | letter a =>
          rw [join, List.flatMap_cons, List.flatMap_cons, List.flatMap_cons, Segment.coded,
            Segment.coded]
          cases hletters : code a with
          | nil => exact absurd hletters (hcode a)
          | cons b bs => rfl
      | gap k w => rfl

theorem segments_coded (hcode : ∀ a, code a ≠ []) (pat : List (Item α)) :
    segments (pat.flatMap (Item.coded code)) =
      (segments pat).flatMap (Segment.coded code) := by
  induction pat with
  | nil => rfl
  | cons item pat ih =>
      rw [List.flatMap_cons]
      cases item with
      | run =>
          rw [segments, ← coded_join hcode, ← ih]
          rfl
      | one =>
          rw [segments, ← coded_join hcode, ← ih]
          rfl
      | is a =>
          rw [Item.coded, segments_letters, ih, segments, List.flatMap_cons]
          rfl

/-- Letters and nothing else. -/
theorem covers_word {ok : γ → δ → Prop} {as : List γ} {s : List δ} :
    Covers ok (as.map .letter) s ↔ List.Forall₂ ok as s := by
  induction as generalizing s with
  | nil => exact List.forall₂_nil_left_iff.symm
  | cons a as ih =>
      rw [List.forall₂_cons_left_iff]
      constructor
      · intro h
        obtain ⟨c, t, hs, hok, ht⟩ := h
        exact ⟨c, t, hok, ih.mp ht, hs⟩
      · intro h
        obtain ⟨c, t, hok, ht, hs⟩ := h
        exact ⟨c, t, hs, hok, ih.mpr ht⟩

/-- The letters of a pattern against those of a text, each as it is coded. -/
theorem covers_letters {ok : γ → δ → Prop} {as : List γ} {cs : List δ} {segs : List (Segment γ)}
    {s : List δ} (h : List.Forall₂ ok as cs) (hs : Covers ok segs s) :
    Covers ok (as.map .letter ++ segs) (cs ++ s) :=
  covers_append.mpr ⟨cs, s, rfl, covers_word.mpr h, hs⟩

theorem length_le_coded {code' : β → List δ} (hcode : ∀ c, 0 < (code' c).length) (s : List β) :
    s.length ≤ (s.flatMap code').length := by
  induction s with
  | nil => exact Nat.le_refl 0
  | cons c s ih =>
      have hc := hcode c
      rw [List.flatMap_cons, List.length_append, List.length_cons]
      omega

theorem length_coded {code' : β → List δ} {s : List β} (h : ∀ c ∈ s, (code' c).length = 1) :
    (s.flatMap code').length = s.length := by
  induction s with
  | nil => rfl
  | cons c s ih =>
      rw [List.flatMap_cons, List.length_append, List.length_cons, h c List.mem_cons_self,
        ih fun c hc => h c (List.mem_cons_of_mem _ hc), Nat.add_comm]

/-- A text that is covered letter by letter is covered in code, if each of its letters fills
the exact gaps alone or there are none. -/
theorem covers_coded {code' : β → List δ} {ok : α → β → Prop} {ok' : γ → δ → Prop}
    {segs : List (Segment α)} {s : List β}
    (hok : ∀ a c, ok a c → List.Forall₂ ok' (code a) (code' c))
    (hcode : ∀ c, 0 < (code' c).length)
    (hgaps : (∃ seg ∈ segs, seg.exact = true) → ∀ c ∈ s, (code' c).length = 1)
    (h : Covers ok segs s) :
    Covers ok' (segs.flatMap (Segment.coded code)) (s.flatMap code') := by
  induction segs generalizing s with
  | nil =>
      have hnil : s = [] := h
      rw [hnil]
      exact rfl
  | cons seg segs ih =>
      cases seg with
      | letter a =>
          obtain ⟨c, t, hs, hac, ht⟩ := h
          rw [hs] at hgaps ⊢
          rw [List.flatMap_cons, List.flatMap_cons]
          apply covers_letters (hok a c hac)
          apply ih _ ht
          intro hex c' hc'
          obtain ⟨seg, hseg, hexact⟩ := hex
          exact hgaps ⟨seg, List.mem_cons_of_mem _ hseg, hexact⟩ c' (List.mem_cons_of_mem _ hc')
      | gap least wide =>
          obtain ⟨u, t, hs, hfills, ht⟩ := h
          rw [hs] at hgaps ⊢
          rw [List.flatMap_append]
          refine ⟨u.flatMap code', t.flatMap code', rfl, ?_, ih ?_ ht⟩
          · have hge := length_le_coded hcode u
            cases wide with
            | true => exact Or.inr ⟨rfl, Nat.le_trans (le_of_fills hfills) hge⟩
            | false =>
                have halone := hgaps ⟨_, List.mem_cons_self, rfl⟩
                rwa [length_coded fun c hc => halone c (List.mem_append_left t hc)]
          · intro hex c' hc'
            obtain ⟨seg, hseg, hexact⟩ := hex
            exact hgaps ⟨seg, List.mem_cons_of_mem _ hseg, hexact⟩ c' (List.mem_append_right u hc')

end

end AdbcBridge.Lib.Wildcard
