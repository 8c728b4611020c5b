import Mathlib

/-!
# Quoted identifiers

The SQL rule for quoted identifiers: the quote string opens an identifier, two
of them in a row inside it stand for one, and a single one closes it.  A text
that was put together from pieces (SQL written as it stands, and names set
between two quote strings) is compared with what a reader following that rule
makes of it.
-/

namespace AdbcBridge.Lib.Quoting

variable {α : Type*}

/-- A quote string; the blank one quotes nothing and is not among them. -/
structure Quote (α : Type*) where
  text : List α
  nonblank : text ≠ []

theorem Quote.length_pos (q : Quote α) : 0 < q.text.length := by
  exact List.length_pos_iff.mpr q.nonblank

/-- No quote string begins inside the name, not even one that ends in the closing
quote. -/
def NoQuote (q : Quote α) (n : List α) : Prop :=
  ∀ i < n.length, ¬ q.text <+: (n ++ q.text).drop i

theorem noQuote_cons {q : Quote α} {c : α} {n : List α} :
    NoQuote q (c :: n) ↔ ¬ q.text <+: c :: n ++ q.text ∧ NoQuote q n := by
  constructor
  · intro h
    exact ⟨h 0 (Nat.succ_pos _), fun i hi => h (i + 1) (Nat.succ_lt_succ hi)⟩
  · rintro ⟨hzero, hsucc⟩ i hi
    cases i with
    | zero => exact hzero
    | succ i => exact hsucc i (Nat.lt_of_succ_lt_succ hi)

/-- A quote string at the front of a name, its closing quote and more lies within
the name and its closing quote. -/
theorem prefix_of_closed {q : Quote α} {n t : List α} :
    q.text <+: n ++ q.text ++ t ↔ q.text <+: n ++ q.text := by
  constructor
  · intro h
    refine List.prefix_of_prefix_length_le h (List.prefix_append _ _) ?_
    rw [List.length_append]
    exact Nat.le_add_left _ _
  · exact fun h => h.trans (List.prefix_append _ _)

theorem prefix_doubled {q : Quote α} {t : List α} :
    q.text ++ q.text <+: q.text ++ t ↔ q.text <+: t :=
  List.prefix_append_right_inj _

/-- The quote of one character. -/
def Quote.single (c : α) : Quote α := ⟨[c], List.cons_ne_nil c []⟩

theorem prefix_single_iff {c : α} {t : List α} :
    (Quote.single c).text <+: t ↔ t.head? = some c := by
  cases t with
  | nil => simp [Quote.single]
  | cons d t => simp [Quote.single, List.cons_prefix_cons, eq_comm]

/-- A quote of one character is in no name that does not hold it. -/
theorem noQuote_single {c : α} {n : List α} : NoQuote (Quote.single c) n ↔ c ∉ n := by
  induction n with
  | nil => simp [NoQuote]
  | cons d n ih => simp [noQuote_cons, prefix_single_iff, ih, eq_comm]

/-! ## Reading a text -/

/-- What the reader sees: a character outside of quotes, a quoted identifier with
the number of characters it was read from, or a quote that never closes. -/
inductive Token (α : Type*) where
  | char (c : α)
  | ident (name : List α) (width : Nat)
  | unclosed (width : Nat)
deriving DecidableEq, Repr

/-- The number of characters a token was read from. -/
def Token.width : Token α → Nat
  | .char _ => 1
  | .ident _ width => width
  | .unclosed width => width

/-- The number of characters a list of tokens was read from. -/
def width (tokens : List (Token α)) : Nat := (tokens.map Token.width).sum

theorem width_cons (k : Token α) (ks : List (Token α)) :
    width (k :: ks) = k.width + width ks := by
  simp [width]

variable [DecidableEq α]

/-- The rest of an identifier whose quote has just opened: its name and the text
after its closing quote, or nothing when no quote closes it. -/
def readIdent (q : Quote α) (t : List α) : Option (List α × List α) :=
  if q.text ++ q.text <+: t then
    (readIdent q (t.drop (q.text.length + q.text.length))).map fun r => (q.text ++ r.1, r.2)
  else if q.text <+: t then some ([], t.drop q.text.length)
  else
    match t with
    | [] => none
    | c :: u => (readIdent q u).map fun r => (c :: r.1, r.2)
termination_by t.length
decreasing_by
  · rename_i h
    have := h.length_le
    have := q.length_pos
    simp only [List.length_append, List.length_drop] at *
    omega
  · simp

theorem readIdent_doubled {q : Quote α} {t : List α} (h : q.text ++ q.text <+: t) :
    readIdent q t =
      (readIdent q (t.drop (q.text.length + q.text.length))).map
        fun r => (q.text ++ r.1, r.2) := by
  rw [readIdent.eq_def, if_pos h]

theorem readIdent_closing {q : Quote α} {t : List α} (h2 : ¬ q.text ++ q.text <+: t)
    (h : q.text <+: t) : readIdent q t = some ([], t.drop q.text.length) := by
  rw [readIdent.eq_def, if_neg h2, if_pos h]

theorem readIdent_char {q : Quote α} {c : α} {u : List α} (h : ¬ q.text <+: c :: u) :
    readIdent q (c :: u) = (readIdent q u).map fun r => (c :: r.1, r.2) := by
  have h2 : ¬ q.text ++ q.text <+: c :: u := fun h2 => h ((List.prefix_append _ _).trans h2)
  rw [readIdent, if_neg h2, if_neg h]

/-- Every character of the name, a quote string and the rest were in the text. -/
theorem readIdent_length {q : Quote α} {t n v : List α} (h : readIdent q t = some (n, v)) :
    n.length + q.text.length + v.length ≤ t.length := by
  induction t using readIdent.induct q generalizing n v with
  | case1 t hqq ih =>
      rw [readIdent_doubled hqq, Option.map_eq_some_iff] at h
      obtain ⟨⟨m, w⟩, hm, heq⟩ := h
      simp only [Prod.mk.injEq] at heq
      have hle := hqq.length_le
      have hlen := ih hm
      rw [← heq.1, ← heq.2]
      simp only [List.length_append, List.length_drop] at *
      omega
  | case2 t hqq hq =>
      rw [readIdent_closing hqq hq] at h
      simp only [Option.some.injEq, Prod.mk.injEq] at h
      have hle := hq.length_le
      rw [← h.1, ← h.2, List.length_drop, List.length_nil]
      omega
  | case3 hqq hq => simp [readIdent, hqq, hq] at h
  | case4 c u hqq hq ih =>
      rw [readIdent_char hq, Option.map_eq_some_iff] at h
      obtain ⟨⟨m, w⟩, hm, heq⟩ := h
      simp only [Prod.mk.injEq] at heq
      have hlen := ih hm
      rw [← heq.1, ← heq.2]
      simp only [List.length_cons]
      omega

/-- What is left after an identifier is the end of the text. -/
theorem readIdent_suffix {q : Quote α} {t n v : List α} (h : readIdent q t = some (n, v)) :
    v <:+ t := by
  induction t using readIdent.induct q generalizing n v with
  | case1 t hqq ih =>
      rw [readIdent_doubled hqq, Option.map_eq_some_iff] at h
      obtain ⟨⟨m, w⟩, hm, heq⟩ := h
      simp only [Prod.mk.injEq] at heq
      rw [← heq.2]
      exact (ih hm).trans (List.drop_suffix _ _)
  | case2 t hqq hq =>
      rw [readIdent_closing hqq hq] at h
      simp only [Option.some.injEq, Prod.mk.injEq] at h
      rw [← h.2]
      exact List.drop_suffix _ _
  | case3 hqq hq => simp [readIdent, hqq, hq] at h
  | case4 c u hqq hq ih =>
      rw [readIdent_char hq, Option.map_eq_some_iff] at h
      obtain ⟨⟨m, w⟩, hm, heq⟩ := h
      simp only [Prod.mk.injEq] at heq
      rw [← heq.2]
      exact (ih hm).trans (List.suffix_cons _ _)

/-- The tokens of a text. -/
def lex (q : Quote α) (t : List α) : List (Token α) :=
  if q.text <+: t then
    match _h : readIdent q (t.drop q.text.length) with
    | some (n, v) => .ident n (t.length - v.length) :: lex q v
    | none => [.unclosed t.length]
  else
    match t with
    | [] => []
    | c :: u => .char c :: lex q u
termination_by t.length
decreasing_by
  · rename_i hq
    have := readIdent_length _h
    have := hq.length_le
    have := q.length_pos
    simp only [List.length_drop] at *
    omega
  · simp

@[simp] theorem lex_nil (q : Quote α) : lex q [] = [] := by
  have h : ¬ q.text <+: [] := by simpa using q.nonblank
  rw [lex, if_neg h]

theorem lex_char {q : Quote α} {c : α} {u : List α} (h : ¬ q.text <+: c :: u) :
    lex q (c :: u) = .char c :: lex q u := by
  rw [lex, if_neg h]

theorem lex_ident {q : Quote α} {t n v : List α} (h : readIdent q t = some (n, v)) :
    lex q (q.text ++ t) =
      .ident n (q.text.length + t.length - v.length) :: lex q v := by
  rw [lex.eq_def, if_pos (List.prefix_append _ _)]
  split
  · rename_i m w hm
    rw [List.drop_left, h] at hm
    simp only [Option.some.injEq, Prod.mk.injEq] at hm
    rw [← hm.1, ← hm.2, List.length_append]
  · rename_i hm
    rw [List.drop_left, h] at hm
    cases hm

theorem lex_unclosed {q : Quote α} {t : List α} (h : readIdent q t = none) :
    lex q (q.text ++ t) = [.unclosed (q.text.length + t.length)] := by
  rw [lex.eq_def, if_pos (List.prefix_append _ _)]
  split
  · rename_i m w hm
    rw [List.drop_left, h] at hm
    cases hm
  · rw [List.length_append]

/-- The tokens cover the text. -/
theorem width_lex (q : Quote α) (t : List α) : width (lex q t) = t.length := by
  induction t using lex.induct q with
  | case1 t hq n v h ih =>
      obtain ⟨u, rfl⟩ := hq
      rw [List.drop_left] at h
      have hlen := readIdent_length h
      rw [lex_ident h, width_cons, ih, List.length_append]
      simp only [Token.width]
      omega
  | case2 t hq h =>
      obtain ⟨u, rfl⟩ := hq
      rw [List.drop_left] at h
      rw [lex_unclosed h, List.length_append]
      simp [width, Token.width]
  | case3 hq => rw [lex_nil]; rfl
  | case4 c u hq ih =>
      rw [lex_char hq, width_cons, ih, List.length_cons]
      simp only [Token.width]
      omega

/-- Past its first token a text has the tokens that followed. -/
theorem lex_drop_token {q : Quote α} {t : List α} {k : Token α} {ks : List (Token α)}
    (h : lex q t = k :: ks) : lex q (t.drop k.width) = ks := by
  cases t using lex.fun_cases q with
  | case1 t hq n v hread =>
      obtain ⟨u, rfl⟩ := hq
      rw [List.drop_left] at hread
      rw [lex_ident hread, List.cons.injEq] at h
      have hv := (readIdent_suffix hread).trans (List.suffix_append q.text u)
      rw [← h.1, ← h.2]
      simp only [Token.width]
      rw [← List.length_append, ← List.suffix_iff_eq_drop.mp hv]
  | case2 t hq hread =>
      obtain ⟨u, rfl⟩ := hq
      rw [List.drop_left] at hread
      rw [lex_unclosed hread, List.cons.injEq] at h
      rw [← h.1, ← h.2]
      simp only [Token.width]
      rw [← List.length_append, List.drop_length, lex_nil]
  | case3 hq => simp at h
  | case4 c u hq =>
      rw [lex_char hq, List.cons.injEq] at h
      rw [← h.1, ← h.2]
      rfl

/-- Past its first tokens a text has the tokens that followed. -/
theorem lex_drop {q : Quote α} {t : List α} {ks ls : List (Token α)}
    (h : lex q t = ks ++ ls) : lex q (t.drop (width ks)) = ls := by
  induction ks generalizing t with
  | nil => exact h
  | cons k ks ih =>
      rw [width_cons, ← List.drop_drop]
      exact ih (lex_drop_token h)

/-! ## Texts made of pieces -/

instance (q : Quote α) (n : List α) : Decidable (NoQuote q n) :=
  inferInstanceAs (Decidable (∀ i < n.length, ¬ q.text <+: (n ++ q.text).drop i))

/-- A piece of a text: SQL as it stands, or a name to be set in quotes. -/
inductive Piece (α : Type*) where
  | sql (text : List α)
  | name (text : List α)
deriving DecidableEq, Repr

/-- A piece as it is written: a name between two quote strings, unchanged. -/
def Piece.text (q : Quote α) : Piece α → List α
  | .sql s => s
  | .name n => q.text ++ n ++ q.text

def text (q : Quote α) (ps : List (Piece α)) : List α := ps.flatMap (Piece.text q)

/-- What a piece says: SQL says what it says alone, a name is one identifier, read
from all that was written for it. -/
def Piece.tokens (q : Quote α) : Piece α → List (Token α)
  | .sql s => lex q s
  | .name n => [.ident n (q.text ++ n ++ q.text).length]

def tokens (q : Quote α) (ps : List (Piece α)) : List (Token α) := ps.flatMap (Piece.tokens q)

omit [DecidableEq α] in
theorem text_append (q : Quote α) (ps rs : List (Piece α)) :
    text q (ps ++ rs) = text q ps ++ text q rs :=
  List.flatMap_append

omit [DecidableEq α] in
theorem text_cons (q : Quote α) (p : Piece α) (ps : List (Piece α)) :
    text q (p :: ps) = p.text q ++ text q ps :=
  List.flatMap_cons

omit [DecidableEq α] in
/-- Joining pieces with SQL in between joins their texts with it. -/
theorem text_intercalate (q : Quote α) (s : List α) (pss : List (List (Piece α))) :
    text q (List.intercalate [.sql s] pss) = List.intercalate s (pss.map (text q)) := by
  induction pss with
  | nil => rfl
  | cons ps pss ih =>
      cases pss with
      | nil => simp [List.intercalate]
      | cons rs rest =>
          rw [List.map_cons, List.map_cons, List.intercalate_cons_cons,
            List.intercalate_cons_cons, text_append, text_append, ih, List.map_cons]
          simp only [text, Piece.text, List.flatMap_cons, List.flatMap_nil, List.append_nil]

/-- The first text is read in front of the second as it is read alone. -/
def ReadsAlone (q : Quote α) (s t : List α) : Prop := lex q (s ++ t) = lex q s ++ lex q t

/-- The names hold no quote string, no quote string directly follows a name, and
the SQL in between is read where it stands as it is read alone. -/
def Clean (q : Quote α) : List (Piece α) → Prop
  | [] => True
  | .sql s :: ps => ReadsAlone q s (text q ps) ∧ Clean q ps
  | .name n :: ps => NoQuote q n ∧ ¬ q.text <+: text q ps ∧ Clean q ps

/-- A name is read back from between its quotes, up to the closing one, exactly
when no quote string begins inside it or follows it. -/
theorem readIdent_closed_iff {q : Quote α} {n t : List α} :
    readIdent q (n ++ q.text ++ t) = some (n, t) ↔ NoQuote q n ∧ ¬ q.text <+: t := by
  induction n with
  | nil =>
      rw [List.nil_append]
      by_cases ht : q.text <+: t
      · have hqq : q.text ++ q.text <+: q.text ++ t := prefix_doubled.mpr ht
        refine iff_of_false (fun h => ?_) (fun h => h.2 ht)
        have hlen := readIdent_length h
        rw [readIdent_doubled hqq, Option.map_eq_some_iff] at h
        obtain ⟨r, hr, heq⟩ := h
        simp only [Prod.mk.injEq, List.append_eq_nil_iff] at heq
        exact q.nonblank heq.1.1
      · rw [readIdent_closing (fun h => ht (prefix_doubled.mp h)) (List.prefix_append _ _),
          List.drop_left]
        exact iff_of_true rfl ⟨fun i hi => absurd hi (Nat.not_lt_zero i), ht⟩
  | cons c n ih =>
      rw [noQuote_cons, and_assoc, ← ih]
      by_cases hq : q.text <+: c :: n ++ q.text
      · refine iff_of_false (fun h => ?_) (fun h => h.1 hq)
        by_cases hqq : q.text ++ q.text <+: c :: n ++ q.text ++ t
        · rw [readIdent_doubled hqq, Option.map_eq_some_iff] at h
          obtain ⟨⟨m, w⟩, hr, heq⟩ := h
          simp only [Prod.mk.injEq] at heq
          have hlen := readIdent_length hr
          have hle := hqq.length_le
          have hpos := q.length_pos
          have hm := congrArg List.length heq.1
          rw [heq.2] at hlen
          simp only [List.length_append, List.length_cons, List.length_drop] at *
          omega
        · rw [readIdent_closing hqq (prefix_of_closed.mpr hq)] at h
          simp at h
      · have hchar : ¬ q.text <+: c :: (n ++ q.text ++ t) := fun h => hq (prefix_of_closed.mp h)
        rw [List.cons_append, List.cons_append, readIdent_char hchar, Option.map_eq_some_iff]
        constructor
        · rintro ⟨⟨m, w⟩, hr, heq⟩
          simp only [Prod.mk.injEq, List.cons.injEq, true_and] at heq
          rw [heq.1, heq.2] at hr
          exact ⟨hq, hr⟩
        · exact fun h => ⟨(n, t), h.2, rfl⟩

/-- The reader takes all that was written for a name, and no more, for one
identifier of that name exactly when it reads the name back. -/
theorem lex_name_iff {q : Quote α} {n t : List α} {ks : List (Token α)} :
    lex q (q.text ++ n ++ q.text ++ t) =
        .ident n (q.text ++ n ++ q.text).length :: ks ↔
      readIdent q (n ++ q.text ++ t) = some (n, t) ∧ lex q t = ks := by
  have happ : q.text ++ n ++ q.text ++ t = q.text ++ (n ++ q.text ++ t) := by
    simp only [List.append_assoc]
  rw [happ]
  cases hread : readIdent q (n ++ q.text ++ t) with
  | none =>
      rw [lex_unclosed hread]
      simp
  | some r =>
      obtain ⟨m, v⟩ := r
      have hsuffix := readIdent_suffix hread
      have hlen := readIdent_length hread
      rw [lex_ident hread, List.cons.injEq, Token.ident.injEq, Option.some.injEq, Prod.mk.injEq]
      constructor
      · rintro ⟨⟨hname, hwidth⟩, hrest⟩
        have hv : v.length = t.length := by
          simp only [List.length_append] at hlen hwidth
          omega
        have hvt : v = t := by
          refine List.IsSuffix.eq_of_length ?_ hv
          exact List.suffix_of_suffix_length_le hsuffix (List.suffix_append _ _) hv.le
        exact ⟨⟨hname, hvt⟩, hvt ▸ hrest⟩
      · rintro ⟨⟨hname, hvt⟩, hrest⟩
        refine ⟨⟨hname, ?_⟩, hvt ▸ hrest⟩
        rw [hvt]
        simp only [List.length_append]
        omega

/-- The reader makes of a text what its pieces say exactly when they are clean. -/
theorem lex_text_iff (q : Quote α) (ps : List (Piece α)) :
    lex q (text q ps) = tokens q ps ↔ Clean q ps := by
  induction ps with
  | nil => exact iff_of_true (lex_nil q) trivial
  | cons p ps ih =>
      cases p with
      | sql s =>
          rw [Clean, ← ih, text, tokens, List.flatMap_cons, List.flatMap_cons, ← text, ← tokens]
          simp only [Piece.text, Piece.tokens, ReadsAlone]
          constructor
          · intro h
            have htail := lex_drop h
            rw [width_lex, List.drop_left] at htail
            rw [h, htail]
            exact ⟨rfl, rfl⟩
          · rintro ⟨hsql, htail⟩
            rw [hsql, htail]
      | name n =>
          rw [Clean, ← ih, ← and_assoc, ← readIdent_closed_iff, text, tokens,
            List.flatMap_cons, List.flatMap_cons, ← text, ← tokens]
          exact lex_name_iff

/-! ## A quote of one character -/

/-- A text without the quote is read one character at a time. -/
theorem lex_append_of_not_mem {c : α} {s t : List α} (h : c ∉ s) :
    lex (Quote.single c) (s ++ t) = s.map Token.char ++ lex (Quote.single c) t := by
  induction s with
  | nil => rfl
  | cons d s ih =>
      rw [List.mem_cons, not_or] at h
      have hd : ¬ (Quote.single c).text <+: d :: (s ++ t) := by
        rw [prefix_single_iff]
        simpa [eq_comm] using h.1
      rw [List.cons_append, lex_char hd, ih h.2, List.map_cons, List.cons_append]

/-- SQL without the quote is read in front of anything as it is read alone. -/
theorem readsAlone_of_not_mem {c : α} {s t : List α} (h : c ∉ s) :
    ReadsAlone (Quote.single c) s t := by
  have halone := lex_append_of_not_mem (t := []) h
  rw [List.append_nil, lex_nil, List.append_nil] at halone
  rw [ReadsAlone, lex_append_of_not_mem h, halone]

/-- Behind a name comes some SQL. -/
def Follows : Piece α → Piece α → Prop
  | .sql _, _ => True
  | .name _, .sql s => s ≠ []
  | .name _, .name _ => False

/-- Every name but one at the very end has some SQL behind it. -/
def Spaced (ps : List (Piece α)) : Prop := ps.IsChain Follows

omit [DecidableEq α] in
theorem spaced_sql {s : List α} {ps : List (Piece α)} : Spaced (.sql s :: ps) ↔ Spaced ps := by
  rw [Spaced, List.isChain_cons]
  exact and_iff_right fun _ _ => trivial

omit [DecidableEq α] in
/-- SQL keeps what stands in front of it apart from what comes behind it. -/
theorem Spaced.append {s : List α} {ps rs : List (Piece α)} (hps : Spaced ps) (hs : s ≠ [])
    (hrs : Spaced rs) : Spaced (ps ++ .sql s :: rs) := by
  refine List.isChain_append.mpr ⟨hps, spaced_sql.mpr hrs, ?_⟩
  intro p _ r hr
  rw [List.head?_cons, Option.mem_some_iff] at hr
  subst hr
  cases p with
  | sql _ => trivial
  | name _ => exact hs

omit [DecidableEq α] in
theorem Spaced.intercalate {s : List α} {pss : List (List (Piece α))}
    (h : ∀ ps ∈ pss, Spaced ps) (hs : s ≠ []) : Spaced (List.intercalate [.sql s] pss) := by
  induction pss with
  | nil => exact List.IsChain.nil
  | cons ps pss ih =>
      have htail := ih fun rs hrs => h rs (List.mem_cons_of_mem ps hrs)
      have hhead := h ps List.mem_cons_self
      cases pss with
      | nil => simpa [List.intercalate] using hhead
      | cons rs rest =>
          rw [List.intercalate_cons_cons, List.append_assoc, List.singleton_append]
          exact hhead.append hs htail

/-- Where the quote is one character and the SQL has none of it, the pieces are
clean exactly when no name has one either. -/
theorem clean_single_iff {c : α} {ps : List (Piece α)} (hspaced : Spaced ps)
    (hsql : ∀ s, .sql s ∈ ps → c ∉ s) :
    Clean (Quote.single c) ps ↔ ∀ n, .name n ∈ ps → c ∉ n := by
  induction ps with
  | nil => simp [Clean]
  | cons p ps ih =>
      have htail := ih (List.IsChain.tail hspaced) fun s hs => hsql s (List.mem_cons_of_mem p hs)
      cases p with
      | sql s =>
          have hs : c ∉ s := hsql s List.mem_cons_self
          simp [Clean, readsAlone_of_not_mem hs, htail]
      | name n =>
          have hnext : ¬ (Quote.single c).text <+: text (Quote.single c) ps := by
            rw [prefix_single_iff]
            cases ps with
            | nil => simp [text]
            | cons r rs =>
                have hfollows := (List.isChain_cons_cons.mp hspaced).1
                cases r with
                | name m => exact hfollows.elim
                | sql s =>
                    have hs : c ∉ s := hsql s (by simp)
                    cases s with
                    | nil => exact absurd rfl hfollows
                    | cons d s =>
                        rw [List.mem_cons, not_or] at hs
                        simpa [text, Piece.text, eq_comm] using hs.1
          simp [Clean, hnext, htail, noQuote_single]

end AdbcBridge.Lib.Quoting
