import AdbcBridge.Lib.Utf16
import AdbcBridge.Objects.Like

/-!
# The name filter and a driver that matches characters

`NameMatches` filters names that a driver has matched already.  The driver's LIKE goes by the
characters of a name, and the filter's by its bytes: a `_` that has no `%` next to it takes one
character there and one byte here.
-/

namespace AdbcBridge.Objects

open AdbcBridge.Lib AdbcBridge.Lib.Wildcard AdbcBridge.Lib.Utf16

/-- The signs of LIKE in characters. -/
def charSigns : Signs Char where
  run := '%'
  one := '_'
  escape := '\\'

/-- Equal, or up to ASCII case where the driver folds it. -/
def SameChar (fold : Bool) (a c : Char) : Prop :=
  if fold then a.toLower = c.toLower else a = c

/-- The driver's LIKE. -/
def CharLike (fold : Bool) (pattern name : List Char) : Prop :=
  Matches (SameChar fold) (items charSigns pattern) name

/-- Wherever the pattern has `_`, a `%` is among the wildcards next to it. -/
def Roomy (pattern : List Char) : Prop :=
  ∀ seg ∈ segments (items charSigns pattern), seg.exact = false

instance (pattern : List Char) : Decidable (Roomy pattern) :=
  inferInstanceAs (Decidable (∀ seg ∈ _, _))

/-! ## UTF-8 -/

theorem utf8_ascii {c : Char} (h : c.toNat < 0x80) :
    String.utf8EncodeChar c = [UInt8.ofNat c.toNat] := by
  have hle : c.val.toNat ≤ 0x7F := Nat.le_of_lt_succ h
  unfold String.utf8EncodeChar
  exact if_pos hle

theorem utf8_lead {c : Char} (h : 0x80 ≤ c.toNat) :
    ∃ b bs, String.utf8EncodeChar c = b :: bs ∧ 0xC0 ≤ b.toNat ∧ bs ≠ [] ∧
      ∀ x ∈ bs, 0x80 ≤ x.toNat ∧ x.toNat < 0xC0 := by
  have hval : c.val.toNat = c.toNat := rfl
  unfold String.utf8EncodeChar
  simp only [hval]
  generalize c.toNat = v at h
  rw [if_neg (by omega)]
  split_ifs
  all_goals
    refine ⟨_, _, rfl, ?_, List.cons_ne_nil _ _, ?_⟩
    · rw [UInt8.toNat_ofNat']
      omega
    · intro x hx
      simp only [List.mem_cons, List.not_mem_nil, or_false] at hx
      rcases hx with rfl | rfl | rfl
      all_goals
        rw [UInt8.toNat_ofNat']
        omega

theorem utf8_ne_nil (c : Char) : String.utf8EncodeChar c ≠ [] := by
  apply List.ne_nil_of_length_pos
  rw [String.length_utf8EncodeChar]
  exact Char.utf8Size_pos c

theorem asciiLower_high {b : UInt8} (h : 0x80 ≤ b.toNat) : asciiLower b = b := by
  apply if_neg
  rintro ⟨-, hz⟩
  have hz' : b.toNat ≤ 90 := UInt8.le_iff_toNat_le.mp hz
  omega

theorem asciiLower_ascii : ∀ b : UInt8, b.toNat < 0x80 → (asciiLower b).toNat < 0x80 := by
  decide +kernel

theorem toLower_high {c : Char} (h : 0x80 ≤ c.toNat) : c.toLower = c := by
  apply dif_neg
  intro hupper
  have hz : c.toNat ≤ 90 := UInt32.le_iff_toNat_le.mp hupper.2
  omega

theorem map_asciiLower_ascii : ∀ n < 0x80,
    (String.utf8EncodeChar (Char.ofNat n)).map asciiLower =
      String.utf8EncodeChar (Char.ofNat n).toLower := by
  decide +kernel

/-- Case is folded in bytes as it is in characters. -/
theorem map_asciiLower (c : Char) :
    (String.utf8EncodeChar c).map asciiLower = String.utf8EncodeChar c.toLower := by
  cases Nat.lt_or_ge c.toNat 0x80 with
  | inl hascii =>
      have hc := map_asciiLower_ascii c.toNat hascii
      rwa [Char.ofNat_toNat] at hc
  | inr hhigh =>
      obtain ⟨b, bs, hbytes, hb, -, hbs⟩ := utf8_lead hhigh
      rw [toLower_high hhigh, hbytes, List.map_cons, asciiLower_high (by omega)]
      congr 1
      calc bs.map asciiLower
          = bs.map id := List.map_congr_left fun x hx => asciiLower_high (hbs x hx).1
        _ = bs := List.map_id bs

theorem sameLetter_of_sameChar {fold : Bool} {a c : Char} (h : SameChar fold a c) :
    List.Forall₂ SameLetter (String.utf8EncodeChar a) (String.utf8EncodeChar c) := by
  have hlower : a.toLower = c.toLower := by
    cases fold with
    | true => exact h
    | false => exact congrArg Char.toLower h
  have hmap : (String.utf8EncodeChar a).map asciiLower =
      (String.utf8EncodeChar c).map asciiLower := by
    rw [map_asciiLower, map_asciiLower, hlower]
  rw [← List.forall₂_eq_eq_eq, List.forall₂_map_left_iff, List.forall₂_map_right_iff] at hmap
  exact hmap

/-! ## A pattern in bytes -/

/-- Bytes of which none is a sign. -/
theorem likeItems_plain {bs : Text} (h : ∀ b ∈ bs, 0x80 ≤ b.toNat) (rest : Text) :
    likeItems (bs ++ rest) = bs.map .is ++ likeItems rest := by
  induction bs with
  | nil => rfl
  | cons b bs ih =>
      have hb := h b List.mem_cons_self
      have hsign : ∀ sign : UInt8, sign.toNat < 0x80 → b ≠ sign := by
        intro sign hless heq
        rw [heq] at hb
        omega
      rw [List.cons_append, likeItems_byte (hsign percent (by decide))
        (hsign underscore (by decide)) fun heq => absurd heq (hsign backslash (by decide)),
        ih fun b hb => h b (List.mem_cons_of_mem _ hb)]
      rfl

/-- One character and what follows it. -/
theorem likeItems_char {c : Char} (hc : c ≠ charSigns.escape) (rest : Text) :
    likeItems (String.utf8EncodeChar c ++ rest) =
      Item.coded String.utf8EncodeChar (charSigns.item c) ++ likeItems rest := by
  by_cases hp : c = '%'
  · rw [hp]
    exact likeItems_percent rest
  by_cases hu : c = '_'
  · rw [hu]
    exact likeItems_underscore rest
  have hitem : charSigns.item c = .is c := (if_neg hp).trans (if_neg hu)
  rw [hitem]
  cases Nat.lt_or_ge c.toNat 0x80 with
  | inl hascii =>
      have hsign : ∀ d : Char, d.toNat < 0x80 → c ≠ d →
          UInt8.ofNat c.toNat ≠ UInt8.ofNat d.toNat := by
        intro d hd hne heq
        apply hne
        apply Char.toNat_inj.mp
        have hnat := congrArg UInt8.toNat heq
        rw [UInt8.toNat_ofNat', UInt8.toNat_ofNat'] at hnat
        omega
      rw [Item.coded, utf8_ascii hascii]
      exact likeItems_byte (hsign '%' (by decide) hp) (hsign '_' (by decide) hu)
        fun heq => absurd heq (hsign '\\' (by decide) hc)
  | inr hhigh =>
      obtain ⟨b, bs, hbytes, hb, -, hbs⟩ := utf8_lead hhigh
      apply likeItems_plain
      intro x hx
      rw [hbytes, List.mem_cons] at hx
      cases hx with
      | inl heq =>
          rw [heq]
          omega
      | inr hmem => exact (hbs x hmem).1

/-- The items of a pattern in bytes are those in characters, coded. -/
theorem likeItems_utf8 (pattern : List Char) :
    likeItems (utf8 pattern) =
      (items charSigns pattern).flatMap (Item.coded String.utf8EncodeChar) := by
  induction hlen : pattern.length using Nat.strong_induction_on generalizing pattern with
  | _ n ih =>
    cases pattern with
    | nil => rfl
    | cons c pattern =>
        have hless : pattern.length < n := by
          rw [← hlen]
          exact Nat.lt_succ_self _
        have hcons : utf8 (c :: pattern) = String.utf8EncodeChar c ++ utf8 pattern := rfl
        by_cases hescape : c = charSigns.escape
        · cases pattern with
          | nil =>
              rw [hescape]
              rfl
          | cons l pattern =>
              have hl : utf8 (l :: pattern) = String.utf8EncodeChar l ++ utf8 pattern := rfl
              have hrest := ih _ (Nat.lt_of_succ_lt hless) pattern rfl
              have hletter : likeItems (backslash :: (String.utf8EncodeChar l ++ utf8 pattern)) =
                  (String.utf8EncodeChar l).map .is ++ likeItems (utf8 pattern) := by
                cases Nat.lt_or_ge l.toNat 0x80 with
                | inl hascii =>
                    rw [utf8_ascii hascii]
                    exact likeItems_escape _ _
                | inr hhigh =>
                    obtain ⟨b, bs, hbytes, -, -, hbs⟩ := utf8_lead hhigh
                    rw [hbytes, List.cons_append, likeItems_escape,
                      likeItems_plain fun x hx => (hbs x hx).1]
                    rfl
              rw [hcons, hescape, hl, items_escape, List.flatMap_cons, ← hrest]
              exact hletter
        · rw [hcons, likeItems_char hescape, ih _ hless pattern rfl, items_cons hescape,
            List.flatMap_cons]

/-- What a driver matches is like the pattern in bytes too, if no `_` is left to itself or no
character of the name has more than one byte. -/
theorem like_of_charLike {fold : Bool} {pattern name : List Char}
    (hroom : (∃ seg ∈ segments (items charSigns pattern), seg.exact = true) →
      ∀ c ∈ name, c.toNat < 0x80) (h : CharLike fold pattern name) :
    Like SameLetter (utf8 pattern) (utf8 name) := by
  have hcovers : Covers (SameChar fold) (segments (items charSigns pattern)) name :=
    matches_iff_covers.mp h
  rw [like_iff_matches, likeItems_utf8, matches_iff_covers, segments_coded utf8_ne_nil]
  change Covers SameLetter _ (name.flatMap String.utf8EncodeChar)
  refine covers_coded ?_ ?_ ?_ hcovers
  · intro a c hsame
    exact sameLetter_of_sameChar hsame
  · intro c
    exact List.length_pos_of_ne_nil (utf8_ne_nil c)
  · intro hex c hc
    rw [utf8_ascii (hroom hex c hc)]
    rfl

/-! ## A name that is lost -/

/-- The letters of some segments, with as few letters in the gaps as there may be. -/
def fill : List (Segment Char) → List Char
  | [] => []
  | .letter a :: segs => a :: fill segs
  | .gap least _ :: segs => List.replicate least 'x' ++ fill segs

theorem covers_fill (fold : Bool) (segs : List (Segment Char)) :
    Covers (SameChar fold) segs (fill segs) := by
  induction segs with
  | nil => exact rfl
  | cons seg segs ih =>
      cases seg with
      | letter a =>
          refine ⟨a, fill segs, rfl, ?_, ih⟩
          cases fold <;> exact rfl
      | gap least wide =>
          exact ⟨List.replicate least 'x', fill segs, rfl, Or.inl List.length_replicate, ih⟩

theorem utf8_append (a b : List Char) : utf8 (a ++ b) = utf8 a ++ utf8 b := List.flatMap_append

theorem leastLength_letters (as : Text) (segs : List (Segment UInt8)) :
    leastLength (as.map .letter ++ segs) = as.length + leastLength segs := by
  induction as with
  | nil => exact (Nat.zero_add _).symm
  | cons a as ih =>
      rw [List.map_cons, List.cons_append, leastLength, ih, List.length_cons]
      omega

theorem length_fill (segs : List (Segment Char)) :
    (utf8 (fill segs)).length =
      leastLength (segs.flatMap (Segment.coded String.utf8EncodeChar)) := by
  induction segs with
  | nil => rfl
  | cons seg segs ih =>
      cases seg with
      | letter a =>
          rw [List.flatMap_cons, Segment.coded, leastLength_letters, ← ih]
          exact List.length_append
      | gap least wide =>
          have hx : (utf8 (List.replicate least 'x')).length = least := by
            unfold utf8
            rw [length_coded fun c hc => by rw [List.eq_of_mem_replicate hc]; rfl,
              List.length_replicate]
          rw [fill, utf8_append, List.length_append, hx, ih, List.flatMap_cons, Nat.add_comm]
          rfl

/-- A letter that is not the first byte behind the gap. -/
def filler (post : List (Segment Char)) : Char :=
  match post with
  | .letter b :: _ =>
      if asciiLower ((String.utf8EncodeChar b).headD 0) = 120 then 'y' else 'x'
  | _ => 'x'

/-- A character of two bytes at the head of the gap of `k` letters. -/
def lostGap (k : Nat) (post : List (Segment Char)) : List Char :=
  'é' :: List.replicate (k - 1) (filler post)

def lostName (k : Nat) (pre post : List (Segment Char)) : List Char :=
  fill pre ++ (lostGap k post ++ fill post)

theorem covers_lostName (fold : Bool) {k : Nat} (hk : 0 < k) (pre post : List (Segment Char)) :
    Covers (SameChar fold) (pre ++ .gap k false :: post) (lostName k pre post) := by
  have hlength : (lostGap k post).length = k := by
    rw [lostGap, List.length_cons, List.length_replicate]
    omega
  apply covers_append.mpr
  exact ⟨_, _, rfl, covers_fill fold pre, _, _, rfl, Or.inl hlength, covers_fill fold post⟩

/-- No character ends in a byte that starts one of several. -/
theorem utf8_last (a : Char) :
    ∃ init x, String.utf8EncodeChar a = init ++ [x] ∧ x.toNat < 0xC0 := by
  cases Nat.lt_or_ge a.toNat 0x80 with
  | inl hascii =>
      refine ⟨[], _, utf8_ascii hascii, ?_⟩
      rw [UInt8.toNat_ofNat']
      omega
  | inr hhigh =>
      obtain ⟨b, bs, hbytes, -, hne, hbs⟩ := utf8_lead hhigh
      refine ⟨b :: bs.dropLast, bs.getLast hne, ?_, (hbs _ (List.getLast_mem hne)).2⟩
      rw [hbytes, List.cons_append, List.dropLast_append_getLast]

theorem sameLetter_lt {x z : UInt8} (h : SameLetter x z) (hx : x.toNat < 0xC0) :
    z.toNat < 0xC0 := by
  by_contra hz
  have hlower : asciiLower x = z := h.trans (asciiLower_high (by omega))
  cases Nat.lt_or_ge x.toNat 0x80 with
  | inl hascii =>
      have hless := asciiLower_ascii x hascii
      rw [hlower] at hless
      omega
  | inr hhigh =>
      rw [asciiLower_high hhigh] at hlower
      rw [hlower] at hx
      exact hz hx

/-- Segments that end in a letter take no byte at the end that starts a character of several. -/
theorem last_not_lead {pre : List (Segment Char)} (hpre : ∀ seg ∈ pre.getLast?, seg.isGap = false)
    {u : Text} {z : UInt8}
    (h : Covers SameLetter (pre.flatMap (Segment.coded String.utf8EncodeChar)) (u ++ [z])) :
    z.toNat < 0xC0 := by
  cases List.eq_nil_or_concat' pre with
  | inl hnil =>
      rw [hnil] at h
      exact absurd h (List.append_ne_nil_of_right_ne_nil u (List.cons_ne_nil z []))
  | inr hconcat =>
      obtain ⟨before, seg, heq⟩ := hconcat
      rw [heq] at h hpre
      cases seg with
      | gap k w => exact absurd (hpre _ List.getLast?_concat).symm Bool.false_ne_true
      | letter a =>
          obtain ⟨init, x, hbytes, hx⟩ := utf8_last a
          rw [List.flatMap_append, List.flatMap_singleton, Segment.coded, hbytes, List.map_append,
            ← List.append_assoc] at h
          obtain ⟨u₁, u₂, hu, -, hlast⟩ := covers_append.mp h
          obtain ⟨c, t, hu₂, hsame, ht⟩ := hlast
          have hnil : t = [] := ht
          rw [hu₂, hnil] at hu
          rw [List.singleton_inj.mp (List.append_inj' hu rfl).2]
          exact sameLetter_lt hsame hx

/-- Segments that start with a letter take a byte that its first byte takes. -/
theorem first_of_covers {post : List (Segment Char)}
    (hpost : ∀ seg ∈ post.head?, seg.isGap = false) {v : Text} {z : UInt8}
    (h : Covers SameLetter (post.flatMap (Segment.coded String.utf8EncodeChar)) (z :: v)) :
    ∃ b segs, post = .letter b :: segs ∧ SameLetter ((String.utf8EncodeChar b).headD 0) z := by
  cases post with
  | nil => exact absurd h (List.cons_ne_nil z v)
  | cons seg segs =>
      cases seg with
      | gap k w => exact absurd (hpost _ rfl).symm Bool.false_ne_true
      | letter b =>
          refine ⟨b, segs, rfl, ?_⟩
          rw [List.flatMap_cons, Segment.coded] at h
          cases hbytes : String.utf8EncodeChar b with
          | nil => exact absurd hbytes (utf8_ne_nil b)
          | cons x xs =>
              rw [hbytes] at h
              obtain ⟨c, t, hz, hsame, -⟩ := h
              rwa [(List.cons.inj hz).1]

/-- Nor does any character start with a byte that only goes on with one. -/
theorem not_sameLetter_head (b : Char) : ¬ SameLetter ((String.utf8EncodeChar b).headD 0) 0xA9 := by
  intro h
  have hlower : asciiLower ((String.utf8EncodeChar b).headD 0) = 0xA9 := h
  cases Nat.lt_or_ge b.toNat 0x80 with
  | inl hascii =>
      rw [utf8_ascii hascii, List.headD_cons] at hlower
      have hless := asciiLower_ascii (UInt8.ofNat b.toNat) (by rw [UInt8.toNat_ofNat']; omega)
      rw [hlower] at hless
      exact absurd hless (by decide)
  | inr hhigh =>
      obtain ⟨x, xs, hbytes, hx, -⟩ := utf8_lead hhigh
      rw [hbytes, List.headD_cons, asciiLower_high (by omega)] at hlower
      rw [hlower] at hx
      exact absurd hx (by decide)

/-- The filler as a byte. -/
def fillerByte (post : List (Segment Char)) : UInt8 := UInt8.ofNat (filler post).toNat

theorem utf8_filler (post : List (Segment Char)) :
    String.utf8EncodeChar (filler post) = [fillerByte post] := by
  apply utf8_ascii
  unfold filler
  split
  · split_ifs <;> decide
  · decide

theorem not_sameLetter_filler (b : Char) (segs : List (Segment Char)) :
    ¬ SameLetter ((String.utf8EncodeChar b).headD 0) (fillerByte (.letter b :: segs)) := by
  unfold SameLetter fillerByte filler
  dsimp only
  split_ifs with hx
  · rw [hx]
    decide
  · exact hx

theorem utf8_lostGap (k : Nat) (post : List (Segment Char)) :
    utf8 (lostGap k post) = 0xC3 :: 0xA9 :: List.replicate (k - 1) (fillerByte post) := by
  have hfill : utf8 (List.replicate (k - 1) (filler post)) =
      List.replicate (k - 1) (fillerByte post) := by
    unfold utf8
    rw [List.flatMap_replicate, utf8_filler]
    simp
  change String.utf8EncodeChar 'é' ++ utf8 (List.replicate (k - 1) (filler post)) = _
  rw [hfill]
  rfl

/-- By the lengths of its parts the name has one byte too many: it is taken before the gap or
behind it, and the letter there is not that byte. -/
theorem not_covers_lostName {k : Nat} (hk : 0 < k) {pre post : List (Segment Char)}
    (hpre : ∀ seg ∈ pre.getLast?, seg.isGap = false)
    (hpost : ∀ seg ∈ post.head?, seg.isGap = false) :
    ¬ Covers SameLetter
        ((pre ++ .gap k false :: post).flatMap (Segment.coded String.utf8EncodeChar))
        (utf8 (lostName k pre post)) := by
  intro h
  rw [List.flatMap_append, List.flatMap_cons, Segment.coded, List.singleton_append] at h
  obtain ⟨u, w, hname, hu, g, v, hw, hfills, hv⟩ := covers_append.mp h
  have hg : g.length = k := hfills.resolve_right fun hmore => absurd hmore.1 Bool.false_ne_true
  have hule := leastLength_le hu
  have hvle := leastLength_le hv
  rw [← length_fill] at hule hvle
  rw [lostName, utf8_append, utf8_append, utf8_lostGap, hw] at hname
  have hlength := congrArg List.length hname
  simp only [List.length_append, List.length_cons, List.length_replicate] at hlength
  by_cases hbefore : u.length = (utf8 (fill pre)).length
  · have htail : ∃ init z, 0xA9 :: List.replicate (k - 1) (fillerByte post) = init ++ [z] := by
      refine ⟨_, _, (List.dropLast_append_getLast (List.cons_ne_nil _ _)).symm⟩
    obtain ⟨init, z, hz⟩ := htail
    have hv' : v = z :: utf8 (fill post) := by
      have hsplit : utf8 (fill pre) ++
          (0xC3 :: 0xA9 :: List.replicate (k - 1) (fillerByte post) ++ utf8 (fill post)) =
          (utf8 (fill pre) ++ 0xC3 :: init) ++ (z :: utf8 (fill post)) := by
        rw [hz]
        simp
      rw [hsplit, ← List.append_assoc] at hname
      apply (List.append_inj' hname.symm _).2
      rw [List.length_cons]
      omega
    have hmem : z ∈ 0xA9 :: List.replicate (k - 1) (fillerByte post) := by
      rw [hz]
      exact List.mem_append_right init List.mem_cons_self
    rw [hv'] at hv
    obtain ⟨b, segs, rfl, hsame⟩ := first_of_covers hpost hv
    rw [List.mem_cons] at hmem
    cases hmem with
    | inl heq =>
        rw [heq] at hsame
        exact not_sameLetter_head b hsame
    | inr hfiller =>
        rw [List.eq_of_mem_replicate hfiller] at hsame
        exact not_sameLetter_filler b segs hsame
  · have hu' : u = utf8 (fill pre) ++ [0xC3] := by
      have hsplit : utf8 (fill pre) ++
          (0xC3 :: 0xA9 :: List.replicate (k - 1) (fillerByte post) ++ utf8 (fill post)) =
          (utf8 (fill pre) ++ [0xC3]) ++
            (0xA9 :: List.replicate (k - 1) (fillerByte post) ++ utf8 (fill post)) := by
        simp
      rw [hsplit] at hname
      apply (List.append_inj hname.symm _).1
      rw [List.length_append, List.length_singleton]
      omega
    rw [hu'] at hu
    exact absurd (last_not_lead hpre hu) (by decide)

/-! ## The filter -/

theorem mem_fill {segs : List (Segment Char)} {c : Char} (h : c ∈ fill segs) :
    c = 'x' ∨ .letter c ∈ segs := by
  induction segs with
  | nil => cases h
  | cons seg segs ih =>
      cases seg with
      | letter a =>
          rw [fill, List.mem_cons] at h
          cases h with
          | inl heq =>
              rw [heq]
              exact Or.inr List.mem_cons_self
          | inr hmem => exact (ih hmem).imp_right (List.mem_cons_of_mem _)
      | gap least wide =>
          rw [fill, List.mem_append] at h
          cases h with
          | inl hfill => exact Or.inl (List.eq_of_mem_replicate hfill)
          | inr hmem => exact (ih hmem).imp_right (List.mem_cons_of_mem _)

theorem filler_ne_nul (post : List (Segment Char)) : filler post ≠ '\x00' := by
  unfold filler
  split
  · split_ifs <;> decide
  · decide

/-- The lost name has no NUL when the pattern has none. -/
theorem nul_not_mem_lostName {k : Nat} {pre post : List (Segment Char)}
    (h : ∀ a, .letter a ∈ pre ++ post → a ≠ '\x00') : '\x00' ∉ lostName k pre post := by
  have hfill : ∀ segs, (∀ a, .letter a ∈ segs → a ≠ '\x00') → '\x00' ∉ fill segs := by
    intro segs hsegs hmem
    cases mem_fill hmem with
    | inl hx => exact absurd hx (by decide)
    | inr hletter => exact hsegs _ hletter rfl
  unfold lostName lostGap
  rw [List.mem_append, List.mem_append, List.mem_cons, List.mem_replicate]
  intro hmem
  rcases hmem with hpre | (hlead | hfiller) | hpost
  · exact hfill pre (fun a ha => h a (List.mem_append_left _ ha)) hpre
  · exact absurd hlead (by decide)
  · exact filler_ne_nul post hfiller.2.symm
  · exact hfill post (fun a ha => h a (List.mem_append_right _ ha)) hpost

theorem nameMatches_like {pattern : List Char} (hne : pattern ≠ []) (name : List Char) :
    nameMatches (some (utf8 pattern)) (some (utf8 name)) = true ↔
      Like SameLetter (utf8 pattern) (utf8 name) := by
  rw [← likeMatch_iff]
  cases hbytes : utf8 pattern with
  | nil =>
      cases pattern with
      | nil => exact absurd rfl hne
      | cons c pattern =>
          have hcons : utf8 (c :: pattern) = String.utf8EncodeChar c ++ utf8 pattern := rfl
          rw [hcons] at hbytes
          exact absurd (List.append_eq_nil_iff.mp hbytes).1 (utf8_ne_nil c)
  | cons b bs => exact Iff.rfl

/-- A `_` without a `%` next to it loses some name. -/
theorem lost_of_exact (fold : Bool) {pattern : List Char} (hnul : '\x00' ∉ pattern)
    {seg : Segment Char} (hseg : seg ∈ segments (items charSigns pattern))
    (hexact : seg.exact = true) :
    ∃ name, '\x00' ∉ name ∧ CharLike fold pattern name ∧
      ¬ Like SameLetter (utf8 pattern) (utf8 name) := by
  cases seg with
  | letter a => cases hexact
  | gap k wide =>
      have hwide : wide = false := by
        rw [← Bool.not_eq_true']
        exact hexact
      rw [hwide] at hseg
      have hk := gap_pos hseg
      have hchain := isChain_segments (items charSigns pattern)
      have hletters : ∀ a, .letter a ∈ segments (items charSigns pattern) → a ≠ '\x00' := by
        intro a ha heq
        rw [heq] at ha
        exact hnul (mem_items (letter_mem ha))
      obtain ⟨pre, post, hsegs⟩ := List.append_of_mem hseg
      rw [hsegs] at hchain hletters
      have hpre : ∀ seg ∈ pre.getLast?, seg.isGap = false := by
        intro seg hlast
        have hapart := (List.isChain_append.mp hchain).2.2 seg hlast _ rfl
        cases hgap : seg.isGap with
        | false => rfl
        | true => exact absurd (hapart hgap).symm Bool.false_ne_true
      have hpost : ∀ seg ∈ post.head?, seg.isGap = false := by
        intro seg hhead
        cases post with
        | nil => cases hhead
        | cons next post =>
            have hbehind := (List.isChain_append.mp hchain).2.1
            rw [← Option.some.inj hhead]
            exact (List.isChain_cons_cons.mp hbehind).1 rfl
      refine ⟨lostName k pre post, ?_, ?_, ?_⟩
      · apply nul_not_mem_lostName
        intro a ha
        apply hletters
        rw [List.mem_append] at ha ⊢
        exact ha.imp_right (List.mem_cons_of_mem _)
      · unfold CharLike
        rw [matches_iff_covers, hsegs]
        exact covers_lostName fold hk pre post
      · rw [like_iff_matches, likeItems_utf8, matches_iff_covers, segments_coded utf8_ne_nil, hsegs]
        exact not_covers_lostName hk hpre hpost

/-- The filter keeps every name that the driver matched exactly when the pattern has no `_`
without a `%` next to it; and whatever the pattern, it keeps every such name in ASCII. -/
theorem nameMatches_keeps_iff (fold : Bool) {pattern : List Char} (hne : pattern ≠ [])
    (hnul : '\x00' ∉ pattern) :
    ((∀ name, '\x00' ∉ name → CharLike fold pattern name →
      nameMatches (some (utf8 pattern)) (some (utf8 name)) = true) ↔ Roomy pattern) ∧
    ∀ name, (∀ c ∈ name, c.toNat < 0x80) → CharLike fold pattern name →
      nameMatches (some (utf8 pattern)) (some (utf8 name)) = true := by
  simp only [nameMatches_like hne]
  constructor
  · constructor
    · intro hkept seg hseg
      cases hexact : seg.exact with
      | false => rfl
      | true =>
          obtain ⟨name, hname, hlike, hlost⟩ := lost_of_exact fold hnul hseg hexact
          exact absurd (hkept name hname hlike) hlost
    · intro hroomy name _ hlike
      apply like_of_charLike _ hlike
      intro hex
      obtain ⟨seg, hseg, hexact⟩ := hex
      rw [hroomy seg hseg] at hexact
      exact absurd hexact Bool.false_ne_true
  · intro name hascii hlike
    exact like_of_charLike (fun _ => hascii) hlike

/-- The pattern `_%`, which the driver matches with `é`. -/
theorem nameMatches_keeps_wide :
    nameMatches (some (utf8 ['_', '%'])) (some (utf8 ['é'])) = true :=
  (nameMatches_keeps_iff false (by decide) (by decide)).1.mpr (by decide) ['é'] (by decide)
    ⟨'é', [], rfl, [], List.suffix_rfl, rfl⟩

/-- The name `é` is one character and two bytes, so the pattern `_` loses it. -/
theorem underscore_loses :
    ¬ ∀ pattern name : List Char, pattern ≠ [] → '\x00' ∉ pattern → '\x00' ∉ name →
      CharLike false pattern name →
        nameMatches (some (utf8 pattern)) (some (utf8 name)) = true := by
  intro h
  have hkept := h ['_'] ['é'] (by decide) (by decide) (by decide) ⟨'é', [], rfl, rfl⟩
  rw [nameMatches_like (by decide), like_iff_matches] at hkept
  obtain ⟨c, t, hname, ht⟩ := hkept
  have htail : t = [0xA9] := (List.cons.inj hname).2.symm
  rw [htail] at ht
  exact List.cons_ne_nil _ _ ht

end AdbcBridge.Objects
