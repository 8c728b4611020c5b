import AdbcBridge.Lib.Cuts
import AdbcBridge.Lib.SqlLexer
import AdbcBridge.Partition.Slices

/-!
# What the scanner lets through

The recogniser is meant to accept row-local queries only: a bare `SELECT` of one
table, whose rows can be read slice by slice.  This module says what that means on
the tokens of the query (`RowLocal`), and proves exactly which accepted texts miss
it (`Escapes`): a keyword glued to a number or a `$`, a second `SELECT`, a row-set
word that is missing from `kUnsplittableWords`, a dot after the table reference, and
letters outside ASCII that run into `SELECT` or `FROM`.
-/

namespace AdbcBridge.Partition.ScannerSound

open AdbcBridge.Lib.Cuts AdbcBridge.Lib.SqlLexer
open AdbcBridge.Partition.Scanner AdbcBridge.Partition.Slices

/-! ## Row-local queries -/

/-- The token is this keyword, in any case. -/
def spells (kw : List Char) : Token → Bool
  | .word _ text => lower text == kw
  | _ => false

/-- Row-limiting, de-duplicating, aggregating and set-combining words of the
dialects the driver serves. -/
def rowSetWords : List (List Char) :=
  ["distinct".toList, "distinctrow".toList, "unique".toList, "top".toList, "first".toList,
    "skip".toList, "limit".toList, "offset".toList, "fetch".toList, "sample".toList,
    "tablesample".toList, "qualify".toList, "union".toList, "except".toList,
    "intersect".toList, "minus".toList, "group".toList, "having".toList, "final".toList]

/-- The tokens of a table name. -/
def nameTokens : List (List Char) → List Token
  | [] => []
  | [w] => [.word false w]
  | w :: ws => .word false w :: .symbol '.' :: nameTokens ws

/-- A bare `SELECT` of one table, in tokens. -/
structure BareSelect where
  selectKw : List Char
  list : List Token
  fromKw : List Char
  names : List (List Char)
  bareAlias : Option (List Char)
  semicolons : Nat

namespace BareSelect

def aliasTokens (t : BareSelect) : List Token := (t.bareAlias.map (Token.word false)).toList

/-- The tokens between the keywords and the trailing semicolons. -/
def inner (t : BareSelect) : List Token := t.list ++ (nameTokens t.names ++ t.aliasTokens)

def tokens (t : BareSelect) : List Token :=
  .word false t.selectKw :: (t.list ++ (.word false t.fromKw ::
    (nameTokens t.names ++ (t.aliasTokens ++ List.replicate t.semicolons (.symbol ';')))))

end BareSelect

/-- `SELECT list FROM name(.name){0,2} [alias]` with no second `SELECT` or `FROM` and
no row-set word in the list or as the alias. -/
structure RowLocalTokens (words : List (List Char)) (t : BareSelect) : Prop where
  selectKw : lower t.selectKw = selectWord
  fromKw : lower t.fromKw = fromWord
  list : t.list ≠ []
  parts : 1 ≤ t.names.length ∧ t.names.length ≤ 3
  oneSelect : ∀ tok ∈ t.inner, spells selectWord tok = false
  oneFrom : ∀ tok ∈ t.inner, spells fromWord tok = false
  noRowSet : ∀ w ∈ words, ∀ tok ∈ t.list ++ t.aliasTokens, spells w tok = false

/-- The accepted text tokenises as a row-local query whose list and table are the
spans the scanner reports. -/
structure RowLocal (words : List (List Char)) (sql : List Char) (spans : SelectSpans)
    (t : BareSelect) : Prop where
  shape : RowLocalTokens words t
  tokens : lex sql = t.tokens
  list : lex ((sql.drop spans.listOff).take spans.listLen) = t.list
  table : lex (tableText sql spans) = nameTokens t.names

/-- A query evaluator for which row-local queries work row by row. -/
def Rowwise (words : List (List Char)) {Row Out : Type}
    (eval : List Token → List Row → List Out) : Prop :=
  ∀ t, RowLocalTokens words t → ∃ f : Row → Out, ∀ rows, eval t.tokens rows = rows.map f

/-- Reading the pieces of any disjoint cover of the table gives the rows of the query. -/
def SplitsExactly (words : List (List Char)) (sql : List Char) : Prop :=
  ∀ (Row Out : Type) (eval : List Token → List Row → List Out), Rowwise words eval →
    ∀ (p : Nat → Row → Bool) (n : Nat), DisjointCover p n → ∀ rows,
      ((List.range n).flatMap fun k => eval (lex sql) (rows.filter (p k))).Perm
        (eval (lex sql) rows)

theorem RowLocal.splitsExactly {words : List (List Char)} {sql : List Char}
    {spans : SelectSpans} {t : BareSelect} (h : RowLocal words sql spans t) :
    SplitsExactly words sql := by
  intro Row Out eval heval p n hcover rows
  obtain ⟨f, hf⟩ := heval t h.shape
  simp only [h.tokens, hf]
  exact map_pieces_perm f p n hcover rows

/-! ## The ways out of the scan -/

/-- The tokens of the select list: after the first token, before the first `FROM`. -/
def listTokens (tokens : List Token) : List Token :=
  (tokens.takeWhile fun tok => !spells fromWord tok).tail

/-- The bare alias: a last word that follows a word other than `FROM`. -/
def lastAlias (tokens : List Token) : List Token :=
  match tokens.reverse.dropWhile (· == .symbol ';') with
  | .word g w :: .word _ v :: _ => if lower v = fromWord then [] else [.word g w]
  | _ => []

/-- A letter outside ASCII directly after the leading `SELECT`. -/
def SelectRunsOn (sql : List Char) : Prop :=
  ∃ kw c rest, sql.dropWhile isSpace = kw ++ c :: rest ∧ lower kw = selectWord ∧
    isExtended c = true

/-- A letter outside ASCII directly before a `FROM`. -/
def FromRunsOn (sql : List Char) : Prop :=
  ∃ pre c kw post, trimEnd sql = pre ++ c :: (kw ++ post) ∧ isExtended c = true ∧
    lower kw = fromWord ∧ post.head?.any isIdentChar = false

/-- The accepted texts the scan is right about. -/
structure NoEscape (words : List (List Char)) (sql : List Char) : Prop where
  selectEnds : ¬ SelectRunsOn sql
  fromStarts : ¬ FromRunsOn sql
  noGluedFrom : ∀ w, Token.word true w ∈ lex sql → lower w ≠ fromWord
  noGluedWord : ∀ w, Token.word true w ∈ lex sql →
    ¬ (lower w ∈ kUnsplittableWords ∧ lower w ∈ words)
  oneSelect : (lex sql).countP (spells selectWord) = 1
  noMissingWord : ∀ w ∈ words, w ∉ kUnsplittableWords →
    ∀ tok ∈ listTokens (lex sql) ++ lastAlias (lex sql), spells w tok = false
  noFinalDot : (trimEnd sql).getLast? ≠ some '.'

/-! ## Character classes of the scanner and of the lexer -/

theorem isAsciiLetter_eq : isAsciiLetter = isIdentStart := rfl

theorem isBlank_eq : isBlank = isSpace := rfl

theorem isWordChar_eq (c : Char) : isWordChar c = (isIdentChar c || isExtended c) := by
  simp only [isWordChar, isLetter, isAsciiLetter_eq, isIdentChar, isDigit]
  cases isIdentStart c <;> cases isExtended c <;> simp

theorem isIdentChar_of_wordChar {c : Char} (h : isWordChar c = false) :
    isIdentChar c = false := by
  rw [isWordChar_eq, Bool.or_eq_false_iff] at h
  exact h.1

theorem isWordChar_of_isIdentChar {c : Char} (h : isIdentChar c = true) :
    isWordChar c = true := by
  simp [isWordChar_eq, h]

theorem isLetter_of_isIdentStart {c : Char} (h : isIdentStart c = true) : isLetter c = true := by
  simp [isLetter, isAsciiLetter_eq, h]

theorem isExtended_not_ident {c : Char} (h : isExtended c = true) : isIdentChar c = false := by
  have h128 : 128 ≤ c.toNat := by simpa [isExtended] using h
  have hlower : (c ≤ 'z') = False := eq_false fun hle => by
    have hz : c.toNat ≤ 122 := hle
    omega
  have hupper : (c ≤ 'Z') = False := eq_false fun hle => by
    have hz : c.toNat ≤ 90 := hle
    omega
  have hdigit : (c ≤ '9') = False := eq_false fun hle => by
    have hz : c.toNat ≤ 57 := hle
    omega
  have hne : ∀ d : Char, d.toNat < 128 → (c == d) = false := by
    intro d hd
    rw [beq_eq_false_iff_ne]
    rintro rfl
    omega
  simp [isIdentChar, isIdentStart, hlower, hupper, hdigit, hne '_' (by decide),
    hne '$' (by decide)]

theorem isWord_of_isIdent {w : List Char} (h : IsIdent w) : IsWord w := by
  obtain ⟨c, cs, rfl, hc, hcs⟩ := h
  exact ⟨c, cs, rfl, isLetter_of_isIdentStart hc, fun x hx => isWordChar_of_isIdentChar (hcs x hx)⟩

/-- The keywords are spelled in lower-case letters. -/
theorem keyword_identStart :
    ∀ kw ∈ selectWord :: fromWord :: kUnsplittableWords,
      lower kw = kw ∧ kw ≠ [] ∧ ∀ c ∈ kw, isIdentStart c = true := by
  have hwords : ∀ kw ∈ selectWord :: fromWord :: kUnsplittableWords,
      lower kw = kw ∧ kw ≠ [] ∧ kw.all isIdentStart = true := by decide
  intro kw hkw
  have ⟨hlower, hne, hall⟩ := hwords kw hkw
  exact ⟨hlower, hne, List.all_eq_true.1 hall⟩

/-! ## What the scan sees -/

/-- A keyword that starts where no identifier runs is never passed over. -/
theorem scanAt_keyword {prev : Option Char} {w bs : List Char} {c : Char} {kw : List Char}
    (hprev : prev.any isIdentChar = false) (hkw : kw ∈ fromWord :: kUnsplittableWords)
    (hlower : lower (c :: w) = kw) (hbs : bs.head?.any isIdentChar = false) :
    scanAt prev c (w ++ bs) ≠ .pass := by
  obtain ⟨hself, _, hstart⟩ := keyword_identStart kw (List.mem_cons_of_mem _ hkw)
  have hident : isIdentStart c = true := by
    apply isIdentStart_of_toLower
    apply hstart
    rw [← hlower]
    exact List.mem_cons_self
  have hmatch : matchWord (c :: (w ++ bs)) kw = some kw.length :=
    @matchWord_isSome (c :: w) bs kw (by rw [hlower, hself]) hbs
  obtain ⟨hforbidden, hdash, hslash⟩ :=
    not_forbidden_of_isIdentChar (isIdentChar_of_isIdentStart hident)
  intro hpass
  unfold scanAt at hpass
  simp only [hforbidden, hident, hprev, hdash, hslash, Bool.false_eq_true, if_false,
    Bool.not_true, beq_iff_eq, Bool.and_eq_true, false_and] at hpass
  split at hpass
  · cases hpass
  · rename_i hnone
    rcases List.mem_cons.1 hkw with rfl | hkw
    · rw [hmatch] at hnone
      cases hnone
    · rw [if_pos (List.any_eq_true.2 ⟨kw, hkw, by rw [hmatch]; rfl⟩)] at hpass
      cases hpass

section Accepted

variable {sql : List Char} {p : Shape}

/-- Away from its `FROM` the text holds no keyword where no identifier runs. -/
theorem parsed_no_keyword (h : Parsed sql p) (as : List Char) (c : Char) (w bs : List Char)
    (hrest : p.rest = as ++ (c :: w ++ bs)) (has : as ≠ p.list)
    (hprev : as.getLast?.any isIdentChar = false) (hbs : bs.head?.any isIdentChar = false) :
    lower (c :: w) ∉ fromWord :: kUnsplittableWords := by
  intro hkw
  have hprev' : (lastOr none as).any isIdentChar = false := by simpa [lastOr] using hprev
  have hpass := scanAt_keyword hprev' hkw rfl hbs
  have hreject := h.passes as c (w ++ bs) hrest
  cases hseen : scanAt (lastOr none as) c (w ++ bs) with
  | reject => exact hreject hseen
  | pass => exact hpass hseen
  | fromKeyword len => exact has (h.onlyFrom as c (w ++ bs) len hrest hseen)

theorem isForbidden_of_closingQuote {c : Char} (h : closingQuote c ≠ none) :
    isForbidden c = true := by
  unfold closingQuote at h
  split at h
  · rename_i hc; rw [hc]; rfl
  split at h
  · rename_i hc; rw [hc]; rfl
  split at h
  · rename_i hc; rw [hc]; rfl
  split at h
  · rename_i hc; rw [hc]; rfl
  · exact absurd rfl h

/-- The scanned text has no quotes and no comments. -/
theorem parsed_plain_rest (h : Parsed sql p) : Plain p.rest where
  quotes c hc := by
    obtain ⟨as, bs, hrest⟩ := List.append_of_mem hc
    by_contra hquote
    apply h.passes as c bs hrest
    simp [scanAt, isForbidden_of_closingQuote hquote]
  dashes as bs hrest := by
    apply h.passes as '-' ('-' :: bs) hrest
    unfold scanAt
    split
    · rfl
    · rfl
  stars as bs hrest := by
    apply h.passes as '/' ('*' :: bs) hrest
    unfold scanAt
    split
    · rfl
    · rfl

theorem parsed_plain_list (h : Parsed sql p) : Plain p.list :=
  @Plain.of_append p.list (p.fromKw ++ (p.gap ++ (p.ref ++ p.tail))) (parsed_plain_rest h)

theorem parsed_list_ne_nil (h : Parsed sql p) : p.list ≠ [] := by
  obtain ⟨c, hc, _⟩ := h.listNonblank
  exact List.ne_nil_of_mem hc

theorem getLast?_any_append {as w : List Char} (hw : w ≠ []) (q : Char → Bool) :
    (as ++ w).getLast?.any q = w.getLast?.any q := by
  rw [List.getLast?_append_of_ne_nil _ hw]

/-- The words of the select list that are not glued are no keywords. -/
theorem parsed_list_word (h : Parsed sql p) {w : List Char}
    (hw : Token.word false w ∈ lex p.list) : lower w ∉ fromWord :: kUnsplittableWords := by
  intro hkw
  obtain ⟨as, bs, hlist, hword, ⟨hstart, _⟩, hbs⟩ := mem_lex_occurs hw
  obtain ⟨c, cs, rfl, _, _⟩ := hword
  have hident : ∀ x ∈ c :: cs, isIdentChar x = true := fun x hx =>
    isIdentChar_of_isIdentStart (isIdentStart_of_toLower
      ((keyword_identStart _ (List.mem_cons_of_mem _ hkw)).2.2 _ (List.mem_map_of_mem hx)))
  -- the list does not end in an identifier, so the word ends inside it
  have hbsne : bs ≠ [] := by
    rintro rfl
    have hlast := h.listLast
    rw [hlist, List.append_nil, getLast?_any_append (List.cons_ne_nil c cs),
      List.getLast?_eq_getLast_of_ne_nil (List.cons_ne_nil c cs)] at hlast
    simp [hident _ (List.getLast_mem (List.cons_ne_nil c cs))] at hlast
  refine parsed_no_keyword h as c cs
    (bs ++ (p.fromKw ++ (p.gap ++ (p.ref ++ p.tail)))) ?_ ?_ ?_ ?_ hkw
  · simp [Shape.rest, hlist]
  · intro has
    rw [has] at hlist
    simp at hlist
  · cases hl : as.getLast? with
    | none => rfl
    | some x =>
        rw [hl] at hstart
        exact isIdentChar_of_wordChar hstart
  · cases bs with
    | nil => exact absurd rfl hbsne
    | cons b bs => exact isIdentChar_of_wordChar hbs

theorem joinDots_split {names : List (List Char)} {w : List Char} (hw : w ∈ names) :
    ∃ as bs, joinDots names = as ++ w ++ bs ∧ (as = [] ∨ as.getLast? = some '.') ∧
      (bs = [] ∨ bs.head? = some '.') := by
  induction names with
  | nil => cases hw
  | cons v names ih =>
      by_cases hnil : names = []
      · subst hnil
        rw [List.mem_singleton] at hw
        subst hw
        exact ⟨[], [], by simp [joinDots], Or.inl rfl, Or.inl rfl⟩
      · rw [joinDots_cons hnil]
        rcases List.mem_cons.1 hw with rfl | hw
        · exact ⟨[], '.' :: joinDots names, by simp, Or.inl rfl, Or.inr rfl⟩
        · obtain ⟨as, bs, hjoin, has, hbs⟩ := ih hw
          refine ⟨v ++ '.' :: as, bs, by simp [hjoin], Or.inr ?_, hbs⟩
          rcases has with rfl | has
          · simp
          · rw [List.getLast?_append_of_ne_nil _ (List.cons_ne_nil _ _), List.getLast?_cons, has]
            rfl

theorem isIdentChar_of_isSpace {c : Char} (h : isSpace c = true) : isIdentChar c = false :=
  isIdentChar_of_wordChar (isWordChar_of_isBlank h)

theorem gap_last {gap : List Char} (hne : gap ≠ []) (h : ∀ c ∈ gap, isSpace c = true)
    (as : List Char) : (as ++ gap).getLast?.any isIdentChar = false := by
  rw [getLast?_any_append hne, List.getLast?_eq_getLast_of_ne_nil hne]
  exact isIdentChar_of_isSpace (h _ (List.getLast_mem hne))

theorem gap_head {gap : List Char} (hne : gap ≠ []) (h : ∀ c ∈ gap, isSpace c = true)
    (bs : List Char) : (gap ++ bs).head?.any isIdentChar = false := by
  cases gap with
  | nil => exact absurd rfl hne
  | cons c gap => exact isIdentChar_of_isSpace (h c (by simp))

theorem tail_head (h : Parsed sql p) : p.tail.head?.any isIdentChar = false := by
  unfold Shape.tail
  cases hal : p.bareAlias with
  | none => rfl
  | some a =>
      obtain ⟨hne, hsp, _⟩ := h.bareAlias a hal
      exact gap_head hne hsp a.2

theorem prefix_ne_list {xs ys zs : List Char} (hys : ys ≠ []) : xs ++ (ys ++ zs) ≠ xs := by
  intro h
  simp [hys] at h

/-- No part of the table name is a keyword. -/
theorem parsed_name_word (h : Parsed sql p) {w : List Char} (hw : w ∈ p.names) :
    lower w ∉ fromWord :: kUnsplittableWords := by
  obtain ⟨as, bs, hjoin, has, hbs⟩ := joinDots_split hw
  obtain ⟨c, cs, rfl, _, _⟩ := h.names w hw
  refine parsed_no_keyword h (p.list ++ ((p.fromKw ++ p.gap) ++ as)) c cs
    (bs ++ (refDot p.dot ++ p.tail)) ?_ ?_ ?_ ?_
  · simp [Shape.rest, Shape.ref, hjoin]
  · rw [← List.append_nil p.list]
    simp [h.gapNonempty]
  · rcases has with rfl | has
    · rw [List.append_nil, ← List.append_assoc]
      exact gap_last h.gapNonempty h.gap _
    · rw [← List.append_assoc, List.getLast?_append, has]
      rfl
  · rcases hbs with rfl | hbs
    · rw [List.nil_append]
      cases hdot : p.dot with
      | false => exact tail_head h
      | true => rfl
    · rw [List.head?_append, hbs]
      rfl

/-- The alias is no keyword. -/
theorem parsed_alias_word (h : Parsed sql p) {a : List Char × List Char}
    (ha : p.bareAlias = some a) : lower a.2 ∉ fromWord :: kUnsplittableWords := by
  obtain ⟨hne, hsp, c, cs, halias, _, _⟩ := h.bareAlias a ha
  rw [halias]
  refine parsed_no_keyword h (p.list ++ ((p.fromKw ++ p.gap ++ p.ref) ++ a.1)) c cs
    [] ?_ ?_ ?_ rfl
  · simp [Shape.rest, Shape.tail, ha, halias]
  · rw [← List.append_nil p.list]
    simp [hne]
  · rw [← List.append_assoc]
    exact gap_last hne hsp _

/-! ## The tokens of an accepted text -/

theorem joinDots_head_word {names : List (List Char)} (hne : names ≠ [])
    (h : ∀ w ∈ names, IsIdent w) (cs : List Char) :
    (joinDots names ++ cs).head?.any isWordChar = true := by
  have hident := joinDots_head hne h cs
  cases hhead : (joinDots names ++ cs).head? with
  | none => rw [hhead] at hident; cases hident
  | some c =>
      rw [hhead] at hident
      exact isWordChar_of_isIdentChar hident

theorem lex_names {names : List (List Char)} (h : ∀ w ∈ names, IsIdent w) {cs : List Char}
    (hcs : cs.head?.any isWordChar = false) :
    lex (joinDots names ++ cs) = nameTokens names ++ lex cs := by
  induction names with
  | nil => rfl
  | cons w names ih =>
      have hw := isWord_of_isIdent (h w (by simp))
      cases names with
      | nil => exact lex_word_append hw hcs
      | cons v names =>
          have htail := ih fun x hx => h x (List.mem_cons_of_mem _ hx)
          rw [joinDots_cons (List.cons_ne_nil v names), List.append_assoc, List.cons_append,
            lex_word_append hw rfl, lex_dot_cons, htail]
          rfl

theorem lex_trailer {cs : List Char} (h : ∀ c ∈ cs, isTrailer c = true) :
    ∃ n, lex cs = List.replicate n (.symbol ';') := by
  induction cs with
  | nil => exact ⟨0, rfl⟩
  | cons c cs ih =>
      obtain ⟨n, hn⟩ := ih fun x hx => h x (List.mem_cons_of_mem _ hx)
      have hc := h c (by simp)
      rw [isTrailer, Bool.or_eq_true] at hc
      rcases hc with hc | hc
      · exact ⟨n, by rw [lex_blank_cons hc, hn]⟩
      · rw [beq_iff_eq] at hc
        subst hc
        exact ⟨n + 1, by rw [lex_semicolon_cons, hn]; rfl⟩

theorem isWordChar_of_isTrailer {c : Char} (h : isTrailer c = true) : isWordChar c = false := by
  rw [isTrailer, Bool.or_eq_true] at h
  rcases h with h | h
  · exact isWordChar_of_isBlank h
  · rw [beq_iff_eq] at h
    rw [h]
    decide

theorem head_of_all {cs : List Char} {q : Char → Bool} (h : ∀ c ∈ cs, q c = false) :
    cs.head?.any q = false := by
  cases cs with
  | nil => rfl
  | cons c cs => exact h c (by simp)

theorem isWord_keyword {w kw : List Char} (h : lower w = lower kw)
    (hkw : kw ∈ selectWord :: fromWord :: kUnsplittableWords) : IsWord w := by
  obtain ⟨hself, hne, hstart⟩ := keyword_identStart kw hkw
  have hall : ∀ c ∈ w, isIdentStart c = true := fun c hc =>
    isIdentStart_of_lower h (by rwa [hself]) hc
  cases w with
  | nil =>
      rw [hself] at h
      exact absurd h.symm hne
  | cons c cs =>
      refine ⟨c, cs, rfl, isLetter_of_isIdentStart (hall c (by simp)), fun x hx => ?_⟩
      exact isWordChar_of_isIdentChar
        (isIdentChar_of_isIdentStart (hall x (List.mem_cons_of_mem _ hx)))

theorem any_isWordChar_eq_false {o : Option Char} (hident : o.any isIdentChar = false)
    (hext : o.any isExtended = false) : o.any isWordChar = false := by
  cases o with
  | none => rfl
  | some c =>
      rw [Option.any_some] at hident hext ⊢
      rw [isWordChar_eq, hident, hext]
      rfl

/-- The tokens of a trailing dot. -/
def dotTokens (dot : Bool) : List Token := if dot then [.symbol '.'] else []

def shapeAlias (p : Shape) : List Token := (p.bareAlias.map fun a => Token.word false a.2).toList

theorem lex_shape_tail (h : Parsed sql p) {n : Nat}
    (htrail : lex p.trail = List.replicate n (.symbol ';')) :
    lex (refDot p.dot ++ (p.tail ++ p.trail)) =
      dotTokens p.dot ++ (shapeAlias p ++ List.replicate n (.symbol ';')) := by
  have htrailHead : p.trail.head?.any isWordChar = false :=
    head_of_all fun c hc => isWordChar_of_isTrailer (h.trail c hc)
  unfold Shape.tail shapeAlias
  cases hal : p.bareAlias with
  | none =>
      cases p.dot with
      | false => simpa [refDot, dotTokens] using htrail
      | true =>
          change lex ('.' :: p.trail) = _
          rw [lex_dot_cons, htrail]
          rfl
  | some a =>
      obtain ⟨_, hsp, hident⟩ := h.bareAlias a hal
      have hdot : p.dot = false := by
        cases hd : p.dot with
        | false => rfl
        | true => rw [h.dotEnds hd] at hal; cases hal
      rw [hdot]
      change lex (a.1 ++ a.2 ++ p.trail) = _
      rw [List.append_assoc, lex_blanks_append hsp,
        lex_word_append (isWord_of_isIdent hident) htrailHead, htrail]
      rfl

theorem shape_tail_head (h : Parsed sql p) :
    (refDot p.dot ++ (p.tail ++ p.trail)).head?.any isWordChar = false := by
  cases hdot : p.dot with
  | true => rfl
  | false =>
      change (p.tail ++ p.trail).head?.any isWordChar = false
      unfold Shape.tail
      cases hal : p.bareAlias with
      | none => exact head_of_all fun c hc => isWordChar_of_isTrailer (h.trail c hc)
      | some a =>
          obtain ⟨hne, hsp, _⟩ := h.bareAlias a hal
          obtain ⟨sp, al⟩ := a
          cases sp with
          | nil => exact absurd rfl hne
          | cons c sp => exact isWordChar_of_isBlank (hsp c (by simp))

/-- The tokens of an accepted text whose keywords run into nothing. -/
theorem lex_accepted (h : Parsed sql p) (hhead : p.list.head?.any isExtended = false)
    (hlast : p.list.getLast?.any isExtended = false) :
    ∃ n, lex sql = .word false p.selectKw :: (lex p.list ++ (.word false p.fromKw ::
      (nameTokens p.names ++ (dotTokens p.dot ++ (shapeAlias p ++
        List.replicate n (.symbol ';')))))) := by
  obtain ⟨n, htrail⟩ := lex_trailer h.trail
  refine ⟨n, ?_⟩
  have hfrom : IsWord p.fromKw := isWord_keyword h.fromKw (by simp)
  have hgap : (p.gap ++ (joinDots p.names ++ (refDot p.dot ++ (p.tail ++ p.trail)))).head?.any
      isWordChar = false := by
    obtain ⟨c, gap, hcons⟩ := List.exists_cons_of_ne_nil h.gapNonempty
    rw [hcons]
    exact isWordChar_of_isBlank (h.gap c (by rw [hcons]; simp))
  have hafter : lex (p.fromKw ++ (p.gap ++ (joinDots p.names ++
      (refDot p.dot ++ (p.tail ++ p.trail))))) =
      .word false p.fromKw :: (nameTokens p.names ++ (dotTokens p.dot ++ (shapeAlias p ++
        List.replicate n (.symbol ';')))) := by
    rw [lex_word_append hfrom hgap, lex_blanks_append h.gap,
      lex_names h.names (shape_tail_head h), lex_shape_tail h htrail]
  have hlistFrom : lex (p.list ++ (p.fromKw ++ (p.gap ++ (joinDots p.names ++
      (refDot p.dot ++ (p.tail ++ p.trail)))))) = lex p.list ++ lex (p.fromKw ++ (p.gap ++
        (joinDots p.names ++ (refDot p.dot ++ (p.tail ++ p.trail))))) := by
    obtain ⟨c, cs, hkw, hc, _⟩ := hfrom
    rw [hkw]
    refine lex_append_of_plain _ (parsed_plain_list h) ?_ ?_
      (Or.inr (any_isWordChar_eq_false h.listLast hlast))
    · rintro rfl
      revert hc
      decide
    · rintro rfl
      revert hc
      decide
  have hselect : (p.list ++ (p.fromKw ++ (p.gap ++ (joinDots p.names ++
      (refDot p.dot ++ (p.tail ++ p.trail)))))).head?.any isWordChar = false := by
    rw [list_head_ne_nil h.listNonblank]
    exact any_isWordChar_eq_false h.listHead hhead
  have htext : sql = p.blanks ++ (p.selectKw ++ (p.list ++ (p.fromKw ++ (p.gap ++
      (joinDots p.names ++ (refDot p.dot ++ (p.tail ++ p.trail))))))) := by
    rw [h.text]
    simp [Shape.body, Shape.rest, Shape.ref]
  rw [htext, lex_blanks_append h.blanks,
    lex_word_append (isWord_keyword h.selectKw (by simp)) hselect, hlistFrom, hafter]

theorem list_span (h : Parsed sql p) :
    (sql.drop p.spans.listOff).take p.spans.listLen = p.list := by
  have htext : sql = (p.blanks ++ p.selectKw) ++ (p.list ++ (p.fromKw ++ (p.gap ++
      (p.ref ++ (p.tail ++ p.trail))))) := by
    rw [h.text]
    simp [Shape.body, Shape.rest]
  rw [drop_piece htext (by simp [Shape.spans])]
  exact List.take_left' rfl

theorem table_span (h : Parsed sql p) : tableText sql p.spans = p.ref := by
  have htext : sql = (p.blanks ++ p.selectKw ++ p.list ++ p.fromKw ++ p.gap) ++
      (p.ref ++ (p.tail ++ p.trail)) := by
    rw [h.text]
    simp [Shape.body, Shape.rest]
  rw [tableText, drop_piece htext (by simp [Shape.spans]; omega)]
  exact List.take_left' rfl

theorem lex_ref (h : Parsed sql p) : lex p.ref = nameTokens p.names ++ dotTokens p.dot := by
  unfold Shape.ref
  cases hdot : p.dot with
  | false => simpa [refDot, dotTokens, lex, run, flush] using @lex_names p.names h.names [] rfl
  | true => exact @lex_names p.names h.names ['.'] rfl

/-! ## The escapes in terms of the pieces -/

theorem isSpace_of_mem_keyword {w kw : List Char} (h : lower w = lower kw)
    (hkw : kw ∈ selectWord :: fromWord :: kUnsplittableWords) {c : Char} (hc : c ∈ w) :
    isSpace c = false := by
  obtain ⟨hself, _, hstart⟩ := keyword_identStart kw hkw
  have hident := isIdentStart_of_lower h (by rwa [hself]) hc
  exact isBlank_of_isWordChar (isWordChar_of_isIdentChar (isIdentChar_of_isIdentStart hident))

theorem dropWhile_blanks {ws cs : List Char} (h : ∀ c ∈ ws, isSpace c = true)
    (hcs : cs.head?.any isSpace = false) : (ws ++ cs).dropWhile isSpace = cs := by
  rw [List.dropWhile_append_of_pos h]
  cases cs with
  | nil => rfl
  | cons c cs => rw [List.dropWhile_cons_of_neg]; simpa using hcs

theorem selectRunsOn_iff (h : Parsed sql p) :
    SelectRunsOn sql ↔ p.list.head?.any isExtended = true := by
  have hskip : sql.dropWhile isSpace = p.selectKw ++ (p.rest ++ p.trail) := by
    rw [h.text, Shape.body, List.append_assoc, List.append_assoc]
    refine dropWhile_blanks h.blanks ?_
    obtain ⟨c, cs, hkw, _, _⟩ := isWord_keyword h.selectKw (by simp)
    rw [hkw]
    exact isSpace_of_mem_keyword h.selectKw (by simp) (by rw [hkw]; simp)
  have hhead : (p.rest ++ p.trail).head? = p.list.head? := by
    rw [Shape.rest, List.append_assoc, list_head_ne_nil h.listNonblank]
  constructor
  · rintro ⟨kw, c, rest, htext, hkw, hc⟩
    rw [hskip] at htext
    have hlen : p.selectKw.length = kw.length := by
      rw [length_eq_of_lower h.selectKw, ← lower_length kw, hkw]
    obtain ⟨_, hrest⟩ := List.append_inj htext hlen
    rw [← hhead, hrest]
    exact hc
  · intro hext
    cases hl : p.list.head? with
    | none => rw [hl] at hext; cases hext
    | some c =>
        rw [hl] at hext hhead
        obtain ⟨rest, hrest⟩ := List.head?_eq_some_iff.1 hhead
        exact ⟨p.selectKw, c, rest, by rw [hskip, hrest],
          by rw [h.selectKw, (keyword_identStart _ (by simp)).1], hext⟩

theorem fromRunsOn_of_last (h : Parsed sql p)
    (hlast : p.list.getLast?.any isExtended = true) : FromRunsOn sql := by
  cases hl : p.list.getLast? with
  | none => rw [hl] at hlast; cases hlast
  | some c =>
      rw [hl] at hlast
      obtain ⟨as, has⟩ := List.getLast?_eq_some_iff.1 hl
      refine ⟨p.blanks ++ p.selectKw ++ as, c, p.fromKw, p.gap ++ (p.ref ++ p.tail), ?_, hlast,
        by rw [h.fromKw, (keyword_identStart _ (by simp)).1],
        gap_head h.gapNonempty h.gap _⟩
      rw [h.trimmed, Shape.body, Shape.rest, has]
      simp

theorem ascii_of_isSpace {c : Char} (h : isSpace c = true) : isExtended c = false := by
  simp only [isSpace, Bool.or_eq_true, beq_iff_eq] at h
  rcases h with (((h | h) | h) | h) | h <;> subst h <;> decide

/-- Only the text after `SELECT` has letters outside ASCII. -/
theorem extended_in_rest (h : Parsed sql p) {pre post : List Char} {c : Char}
    (htext : p.body = pre ++ c :: post) (hc : isExtended c = true) :
    ∃ as, pre = p.blanks ++ p.selectKw ++ as ∧ p.rest = as ++ c :: post := by
  rw [Shape.body, ← List.append_assoc] at htext
  rcases List.append_eq_append_iff.1 htext with ⟨as, hpre, hrest⟩ | ⟨bs, hfront, hrest⟩
  · exact ⟨as, hpre, hrest⟩
  · cases bs with
    | nil =>
        rw [List.append_nil] at hfront
        exact ⟨[], by simp [hfront], hrest.symm⟩
    | cons b bs =>
        -- the letter would be a blank or a letter of `SELECT`
        obtain ⟨rfl, _⟩ := List.cons.inj hrest
        have hmem : c ∈ p.blanks ++ p.selectKw := by rw [hfront]; simp
        rcases List.mem_append.1 hmem with hmem | hmem
        · rw [ascii_of_isSpace (h.blanks c hmem)] at hc
          cases hc
        · have hident := isIdentStart_of_lower h.selectKw selectWord_identStart hmem
          have hnot := isExtended_not_ident hc
          rw [isIdentChar_of_isIdentStart hident] at hnot
          cases hnot

theorem fromRunsOn_iff (h : Parsed sql p) :
    FromRunsOn sql ↔ p.list.getLast?.any isExtended = true := by
  refine ⟨?_, fromRunsOn_of_last h⟩
  rintro ⟨pre, c, kw, post, htext, hc, hkw, hpost⟩
  rw [h.trimmed] at htext
  obtain ⟨as, -, hrest⟩ := extended_in_rest h htext hc
  obtain ⟨hself, -, hstart⟩ := keyword_identStart fromWord (by simp)
  cases kw with
  | nil => exact absurd hkw (by decide)
  | cons d kw =>
      by_contra hlast
      refine parsed_no_keyword h (as ++ [c]) d kw post ?_ ?_ ?_ hpost
        (by rw [hkw]; simp)
      · rw [hrest]
        simp
      · rintro hlist
        rw [← hlist] at hlast
        simp [hc] at hlast
      · simp [isExtended_not_ident hc]

theorem nameTokens_snoc {names : List (List Char)} (hne : names ≠ []) :
    ∃ pre w, nameTokens names = pre ++ [Token.word false w] ∧ w ∈ names ∧
      (pre = [] ∨ ∃ pre', pre = pre' ++ [Token.symbol '.']) := by
  induction names with
  | nil => exact absurd rfl hne
  | cons v names ih =>
      cases names with
      | nil => exact ⟨[], v, rfl, by simp, Or.inl rfl⟩
      | cons u names =>
          obtain ⟨pre, w, htok, hw, hpre⟩ := ih (List.cons_ne_nil u names)
          refine ⟨.word false v :: .symbol '.' :: pre, w, ?_, List.mem_cons_of_mem _ hw, ?_⟩
          · rw [nameTokens, htok]
            · rfl
            · simp
          · rcases hpre with rfl | ⟨pre', rfl⟩
            · exact Or.inr ⟨[.word false v], rfl⟩
            · exact Or.inr ⟨.word false v :: .symbol '.' :: pre', rfl⟩

/-! ## The parts of a token list -/

theorem nameTokens_words {names : List (List Char)} {tok : Token} (h : tok ∈ nameTokens names) :
    tok = .symbol '.' ∨ ∃ w ∈ names, tok = .word false w := by
  induction names with
  | nil => cases h
  | cons v names ih =>
      cases names with
      | nil => exact Or.inr ⟨v, by simp, List.mem_singleton.1 h⟩
      | cons u names =>
          rcases List.mem_cons.1 h with h | h
          · exact Or.inr ⟨v, by simp, h⟩
          rcases List.mem_cons.1 h with h | h
          · exact Or.inl h
          · rcases ih h with h | ⟨w, hw, h⟩
            · exact Or.inl h
            · exact Or.inr ⟨w, List.mem_cons_of_mem _ hw, h⟩

theorem listTokens_eq {sel fr : List Char} {list rest : List Token}
    (hsel : lower sel = selectWord) (hfr : lower fr = fromWord)
    (hlist : ∀ tok ∈ list, spells fromWord tok = false) :
    listTokens (.word false sel :: (list ++ (.word false fr :: rest))) = list := by
  have hselNot : spells fromWord (.word false sel) = false := by
    simp only [spells, hsel]
    decide
  have hfrIs : spells fromWord (.word false fr) = true := by simp [spells, hfr]
  rw [listTokens, List.takeWhile_cons_of_pos (by simp [hselNot]), List.tail_cons,
    List.takeWhile_append_of_pos (by simpa using hlist),
    List.takeWhile_cons_of_neg (by simp [hfrIs]), List.append_nil]

theorem dropWhile_replicate_append (n : Nat) (tokens : List Token) :
    (List.replicate n (Token.symbol ';') ++ tokens).dropWhile (· == .symbol ';') =
      tokens.dropWhile (· == .symbol ';') := by
  rw [List.dropWhile_append_of_pos]
  intro tok htok
  rw [List.eq_of_mem_replicate htok]
  rfl

theorem lastAlias_eq {pre : List Token} {fr : List Char} {names : List (List Char)}
    {al : Option (List Char)} {n : Nat} (hne : names ≠ []) (hfr : lower fr = fromWord)
    (hnames : ∀ w ∈ names, lower w ≠ fromWord) :
    lastAlias (pre ++ (.word false fr :: (nameTokens names ++
      ((al.map (Token.word false)).toList ++ List.replicate n (.symbol ';'))))) =
      (al.map (Token.word false)).toList := by
  obtain ⟨front, w, htok, hw, hfront⟩ := nameTokens_snoc hne
  rw [htok]
  unfold lastAlias
  cases al with
  | some a =>
      simp only [Option.map_some, Option.toList_some, List.reverse_append, List.reverse_cons,
        List.reverse_replicate, List.append_assoc, List.nil_append, List.cons_append,
        dropWhile_replicate_append]
      rw [List.dropWhile_cons_of_neg (by simp)]
      simp only [hnames w hw, if_false]
  | none =>
      simp only [Option.map_none, Option.toList_none, List.reverse_append, List.reverse_cons,
        List.reverse_replicate, List.append_assoc, List.nil_append, List.cons_append,
        dropWhile_replicate_append]
      rw [List.dropWhile_cons_of_neg (by simp)]
      rcases hfront with rfl | ⟨front, rfl⟩
      · simp only [List.reverse_nil, List.nil_append, hfr, if_true]
      · simp only [List.reverse_append, List.reverse_cons, List.reverse_nil, List.nil_append,
          List.cons_append]

theorem nameTokens_ne_dot {names names' : List (List Char)} {dot : Bool}
    (hne : names' ≠ []) (h : nameTokens names ++ dotTokens dot = nameTokens names') :
    dot = false := by
  cases dot with
  | false => rfl
  | true =>
      obtain ⟨front, w, htok, -, -⟩ := nameTokens_snoc hne
      have hlast := congrArg List.getLast? h
      simp [dotTokens, htok] at hlast

theorem alias_cancel {al al' : Option (List Char)} {n m : Nat}
    (h : (al.map (Token.word false)).toList ++ List.replicate n (Token.symbol ';') =
      (al'.map (Token.word false)).toList ++ List.replicate m (Token.symbol ';')) : al = al' := by
  cases al with
  | none =>
      cases al' with
      | none => rfl
      | some a => cases n <;> simp [List.replicate_succ] at h
  | some a =>
      cases al' with
      | none => cases m <;> simp [List.replicate_succ] at h
      | some b => simp at h; rw [h.1]

theorem isIdent_last {w : List Char} (h : IsIdent w) (as : List Char) :
    (as ++ w).getLast?.any isIdentChar = true := by
  obtain ⟨c, cs, rfl, hc, hcs⟩ := h
  rw [getLast?_any_append (List.cons_ne_nil c cs),
    List.getLast?_eq_getLast_of_ne_nil (List.cons_ne_nil c cs)]
  rcases List.mem_cons.1 (List.getLast_mem (List.cons_ne_nil c cs)) with h | h
  · rw [h]
    exact isIdentChar_of_isIdentStart hc
  · exact hcs _ h

theorem joinDots_last {names : List (List Char)} (hne : names ≠ [])
    (h : ∀ w ∈ names, IsIdent w) (as : List Char) :
    (as ++ joinDots names).getLast?.any isIdentChar = true := by
  induction names generalizing as with
  | nil => exact absurd rfl hne
  | cons v names ih =>
      cases names with
      | nil => exact isIdent_last (h v (by simp)) as
      | cons u names =>
          have htail := ih (List.cons_ne_nil u names)
            (fun w hw => h w (List.mem_cons_of_mem _ hw)) (as ++ v ++ ['.'])
          simpa [joinDots] using htail

theorem names_ne_nil (h : Parsed sql p) : p.names ≠ [] := by
  intro hnil
  have hparts := h.parts.1
  rw [hnil] at hparts
  exact absurd hparts (by decide)

/-- The text ends in a dot exactly if the table reference does. -/
theorem body_last (h : Parsed sql p) : p.body.getLast? = some '.' ↔ p.dot = true := by
  have hident : p.dot = false → p.body.getLast?.any isIdentChar = true := by
    intro hdot
    have hbody : p.body = p.blanks ++ (p.selectKw ++ (p.list ++ (p.fromKw ++ p.gap))) ++
        (joinDots p.names ++ p.tail) := by
      simp [Shape.body, Shape.rest, Shape.ref, refDot, hdot]
    rw [hbody, Shape.tail]
    cases hal : p.bareAlias with
    | none =>
        change (_ ++ (joinDots p.names ++ [])).getLast?.any isIdentChar = true
        rw [List.append_nil]
        exact joinDots_last (names_ne_nil h) h.names _
    | some a =>
        obtain ⟨-, -, hident⟩ := h.bareAlias a hal
        rw [← List.append_assoc]
        change (_ ++ (a.1 ++ a.2)).getLast?.any isIdentChar = true
        rw [← List.append_assoc]
        exact isIdent_last hident _
  cases hdot : p.dot with
  | false =>
      have hlast := hident hdot
      constructor
      · intro hdotLast
        rw [hdotLast] at hlast
        exact absurd hlast (by decide)
      · intro hfalse
        cases hfalse
  | true =>
      simp [Shape.body, Shape.rest, Shape.ref, Shape.tail, refDot, hdot, h.dotEnds hdot]

/-! ## Exactly the texts without an escape are row-local -/

theorem spells_iff {kw : List Char} {tok : Token} :
    spells kw tok = true ↔ ∃ g w, tok = .word g w ∧ lower w = kw := by
  cases tok <;> simp [spells]

/-- The query the pieces of an accepted text stand for. -/
def bareSelect (p : Shape) (n : Nat) : BareSelect where
  selectKw := p.selectKw
  list := lex p.list
  fromKw := p.fromKw
  names := p.names
  bareAlias := p.bareAlias.map Prod.snd
  semicolons := n

theorem aliasTokens_bareSelect (n : Nat) : (bareSelect p n).aliasTokens = shapeAlias p := by
  cases hal : p.bareAlias <;> simp [BareSelect.aliasTokens, bareSelect, shapeAlias, hal]

theorem lower_keyword {w kw : List Char} (h : lower w = lower kw)
    (hkw : kw ∈ selectWord :: fromWord :: kUnsplittableWords) : lower w = kw := by
  rw [h, (keyword_identStart kw hkw).1]

theorem lex_list_ne_nil (h : Parsed sql p) : lex p.list ≠ [] := by
  intro hnil
  have hweight := lex_weight (parsed_plain_list h)
  rw [hnil, weight_nil] at hweight
  obtain ⟨c, hc, hblank⟩ := h.listNonblank
  have hpos : 0 < p.list.countP (fun c => !isBlank c) :=
    List.countP_pos_iff.2 ⟨c, hc, by rw [isBlank_eq, hblank]; rfl⟩
  omega

/-- A keyword among the tokens between the two keywords of the query is glued. -/
theorem list_keyword_glued (h : Parsed sql p) {g : Bool} {w : List Char}
    (hw : Token.word g w ∈ lex p.list) (hkw : lower w ∈ fromWord :: kUnsplittableWords) :
    g = true := by
  cases g with
  | true => rfl
  | false => exact absurd hkw (parsed_list_word h hw)

theorem name_or_alias_keyword (h : Parsed sql p) {tok : Token} {kw : List Char}
    (htok : tok ∈ nameTokens p.names ++ shapeAlias p)
    (hkw : kw ∈ fromWord :: kUnsplittableWords) : spells kw tok = false := by
  by_contra hspells
  obtain ⟨g, w, rfl, hw⟩ := spells_iff.1 (by simpa using hspells)
  rcases List.mem_append.1 htok with htok | htok
  · rcases nameTokens_words htok with htok | ⟨v, hv, htok⟩
    · cases htok
    · cases htok
      exact parsed_name_word h hv (hw ▸ hkw)
  · cases hal : p.bareAlias with
    | none => simp [shapeAlias, hal] at htok
    | some a =>
        simp only [shapeAlias, hal, Option.map_some, Option.toList_some,
          List.mem_singleton] at htok
        cases htok
        exact parsed_alias_word h hal (hw ▸ hkw)

theorem lastAlias_lex (h : Parsed sql p) {n : Nat}
    (hlex : lex sql = .word false p.selectKw :: (lex p.list ++ (.word false p.fromKw ::
      (nameTokens p.names ++ (shapeAlias p ++ List.replicate n (.symbol ';')))))) :
    lastAlias (lex sql) = shapeAlias p := by
  have hfrom := lower_keyword h.fromKw (by simp)
  have hnames : ∀ w ∈ p.names, lower w ≠ fromWord := by
    intro w hw hfromWord
    exact parsed_name_word h hw (by rw [hfromWord]; simp)
  have heq := @lastAlias_eq (.word false p.selectKw :: lex p.list) _ _
    (bareSelect p n).bareAlias n (names_ne_nil h) hfrom hnames
  rw [hlex, ← aliasTokens_bareSelect n]
  exact heq

section Exact

variable {words : List (List Char)}

theorem noEscape_rowLocal (h : Parsed sql p) (hno : NoEscape words sql) :
    ∃ t, RowLocal words sql p.spans t := by
  have hhead : p.list.head?.any isExtended = false := by
    have hnot := mt (selectRunsOn_iff h).2 hno.selectEnds
    simpa using hnot
  have hlast : p.list.getLast?.any isExtended = false := by
    have hnot := mt (fromRunsOn_iff h).2 hno.fromStarts
    simpa using hnot
  obtain ⟨n, hlex⟩ := lex_accepted h hhead hlast
  have hdot : p.dot = false := by
    have hnot := hno.noFinalDot
    rw [h.trimmed] at hnot
    simpa using mt (body_last h).2 hnot
  simp only [hdot, dotTokens, Bool.false_eq_true, if_false, List.nil_append] at hlex
  have hselect := lower_keyword h.selectKw (by simp)
  have hfrom := lower_keyword h.fromKw (by simp)
  have hlistFrom : ∀ tok ∈ lex p.list, spells fromWord tok = false := by
    intro tok htok
    by_contra hspells
    obtain ⟨g, w, rfl, hw⟩ := spells_iff.1 (by simpa using hspells)
    have hglued := list_keyword_glued h htok (by rw [hw]; simp)
    subst hglued
    exact hno.noGluedFrom w (by rw [hlex]; simp [htok]) hw
  have hlistTokens : listTokens (lex sql) = lex p.list := by
    rw [hlex]
    exact listTokens_eq hselect hfrom hlistFrom
  have hlastAlias : lastAlias (lex sql) = shapeAlias p := lastAlias_lex h hlex
  have hnoSelect : ∀ tok ∈ lex p.list ++ (nameTokens p.names ++ shapeAlias p),
      spells selectWord tok = false := by
    have hcount := hno.oneSelect
    have hself : spells selectWord (.word false p.selectKw) = true := by simp [spells, hselect]
    have hnot : spells selectWord (.word false p.fromKw) = false := by
      simp only [spells, hfrom]
      decide
    rw [hlex, List.countP_cons_of_pos hself, List.countP_append, List.countP_cons_of_neg
      (by simp [hnot]), List.countP_append, List.countP_append] at hcount
    have hzero : (lex p.list ++ (nameTokens p.names ++ shapeAlias p)).countP
        (spells selectWord) = 0 := by
      rw [List.countP_append, List.countP_append]
      omega
    intro tok htok
    simpa using List.countP_eq_zero.1 hzero tok htok
  refine ⟨bareSelect p n, ⟨hselect, hfrom, lex_list_ne_nil h, h.parts, ?_, ?_, ?_⟩, ?_, ?_, ?_⟩
  · rw [BareSelect.inner, aliasTokens_bareSelect]
    exact hnoSelect
  · rw [BareSelect.inner, aliasTokens_bareSelect]
    intro tok htok
    rcases List.mem_append.1 htok with htok | htok
    · exact hlistFrom tok htok
    · exact name_or_alias_keyword h htok (by simp)
  · rw [aliasTokens_bareSelect]
    intro w hw tok htok
    by_cases hlisted : w ∈ kUnsplittableWords
    · rcases List.mem_append.1 htok with htok | htok
      · by_contra hspells
        obtain ⟨g, v, rfl, hv⟩ := spells_iff.1 (by simpa using hspells)
        have hglued := list_keyword_glued h htok (by rw [hv]; exact List.mem_cons_of_mem _ hlisted)
        subst hglued
        exact hno.noGluedWord v (by rw [hlex]; simp [show Token.word true v ∈ lex p.list from htok])
          (by rw [hv]; exact ⟨hlisted, hw⟩)
      · exact name_or_alias_keyword h (List.mem_append_right _ htok)
          (List.mem_cons_of_mem _ hlisted)
    · exact hno.noMissingWord w hw hlisted tok (by rw [hlistTokens, hlastAlias]; exact htok)
  · rw [hlex, BareSelect.tokens, aliasTokens_bareSelect]
    rfl
  · rw [list_span h]
    rfl
  · rw [table_span h, lex_ref h, hdot]
    exact List.append_nil _

/-- The first token of a row-local text is the whole word `SELECT`. -/
theorem rowLocal_head {t : BareSelect} (h : Parsed sql p) (ht : RowLocal words sql p.spans t) :
    p.list.head?.any isExtended = false := by
  by_contra hext
  cases hl : p.list.head? with
  | none => simp [hl] at hext
  | some c =>
      have hc : isWordChar c = true := by
        rw [hl] at hext
        have hext' : isExtended c = true := by simpa using hext
        simp [isWordChar_eq, hext']
      have hhead : (p.rest ++ p.trail).head? = some c := by
        rw [Shape.rest, List.append_assoc, list_head_ne_nil h.listNonblank, hl]
      obtain ⟨post, hpost⟩ := List.head?_eq_some_iff.1 hhead
      have hword := isWord_keyword h.selectKw (by simp)
      obtain ⟨rest, hrest⟩ := run_word false p.selectKw (c :: post)
      have hlex : lex sql =
          .word false (p.selectKw ++ (c :: post).takeWhile isWordChar) :: rest := by
        rw [h.text, Shape.body, List.append_assoc, List.append_assoc, lex_blanks_append h.blanks,
          hpost, lex, run_append, (modeAfter_word hword).1, (modeAfter_word hword).2, hrest]
        rfl
      have htokens := ht.tokens
      rw [hlex, BareSelect.tokens] at htokens
      have htext := (Token.word.inj (List.cons.inj htokens).1).2
      have hlen := congrArg List.length htext
      have hsel := length_eq_of_lower h.selectKw
      have hsel' : t.selectKw.length = selectWord.length := by
        rw [← lower_length t.selectKw, ht.shape.selectKw]
      rw [List.takeWhile_cons_of_pos hc, List.length_append, List.length_cons] at hlen
      omega

/-- `FROM` is a word of its own in a row-local text. -/
theorem rowLocal_last {t : BareSelect} (h : Parsed sql p) (ht : RowLocal words sql p.spans t) :
    p.list.getLast?.any isExtended = false := by
  by_contra hext
  have hletter : p.list.getLast?.any isLetter = true := by
    cases hl : p.list.getLast? with
    | none => simp [hl] at hext
    | some c =>
        have hext' : isExtended c = true := by simpa [hl] using hext
        simp [isLetter, hext']
  have hselect : (p.list ++ (p.fromKw ++ (p.gap ++ (p.ref ++ p.tail) ++ p.trail))).head?.any
      isWordChar = false := by
    rw [list_head_ne_nil h.listNonblank]
    exact any_isWordChar_eq_false h.listHead (rowLocal_head h ht)
  have htext : sql = p.blanks ++ (p.selectKw ++ (p.list ++ (p.fromKw ++
      (p.gap ++ (p.ref ++ p.tail) ++ p.trail)))) := by
    rw [h.text]
    simp [Shape.body, Shape.rest]
  have htokens := ht.tokens
  rw [htext, lex_blanks_append h.blanks,
    lex_word_append (isWord_keyword h.selectKw (by simp)) hselect, BareSelect.tokens,
    ← ht.list, list_span h] at htokens
  have hword := isWord_keyword h.fromKw (by simp)
  obtain ⟨c, cs, hkw, hc, hcs⟩ := hword
  refine @lex_append_ne_of_letter _ _ p.fromKw _ (parsed_plain_list h) hletter
    (by rw [hkw]; exact List.cons_ne_nil c cs) ?_ (List.cons.inj htokens).2
  intro x hx
  rw [hkw] at hx
  rcases List.mem_cons.1 hx with rfl | hx
  · simp [isWordChar, hc]
  · exact hcs x hx

theorem rowLocal_noEscape {t : BareSelect} (h : Parsed sql p)
    (ht : RowLocal words sql p.spans t) : NoEscape words sql := by
  have hhead := rowLocal_head h ht
  have hlast := rowLocal_last h ht
  obtain ⟨n, hlex⟩ := lex_accepted h hhead hlast
  have hlist : lex p.list = t.list := by rw [← ht.list, list_span h]
  have htable : nameTokens p.names ++ dotTokens p.dot = nameTokens t.names := by
    rw [← lex_ref h, ← table_span h, ht.table]
  have htnames : t.names ≠ [] := by
    intro hnil
    have hparts := ht.shape.parts.1
    rw [hnil] at hparts
    exact absurd hparts (by decide)
  have hdot := nameTokens_ne_dot htnames htable
  simp only [hdot, dotTokens, Bool.false_eq_true, if_false, List.append_nil] at htable
  simp only [hdot, dotTokens, Bool.false_eq_true, if_false, List.nil_append] at hlex
  have halias : shapeAlias p = t.aliasTokens := by
    have htokens := ht.tokens
    rw [hlex, BareSelect.tokens, hlist, htable] at htokens
    have hrest := List.append_cancel_left (List.cons.inj htokens).2
    have hends := List.append_cancel_left (List.cons.inj hrest).2
    rw [← aliasTokens_bareSelect n] at hends ⊢
    have hal := alias_cancel hends
    rw [BareSelect.aliasTokens, hal, ← BareSelect.aliasTokens]
  have hselect := lower_keyword h.selectKw (by simp)
  have hfrom := lower_keyword h.fromKw (by simp)
  have hlistFrom : ∀ tok ∈ lex p.list, spells fromWord tok = false := fun tok htok =>
    ht.shape.oneFrom tok (List.mem_append_left _ (hlist ▸ htok))
  have hinList : ∀ w, Token.word true w ∈ lex sql → Token.word true w ∈ lex p.list := by
    intro w hw
    rw [hlex] at hw
    rcases List.mem_cons.1 hw with hw | hw
    · cases hw
    rcases List.mem_append.1 hw with hw | hw
    · exact hw
    rcases List.mem_cons.1 hw with hw | hw
    · cases hw
    rcases List.mem_append.1 hw with hw | hw
    · rcases nameTokens_words hw with hw | ⟨_, _, hw⟩ <;> cases hw
    rcases List.mem_append.1 hw with hw | hw
    · cases hal : p.bareAlias <;> simp [shapeAlias, hal] at hw
    · exact absurd (List.eq_of_mem_replicate hw) (by simp)
  refine ⟨?_, ?_, ?_, ?_, ?_, ?_, ?_⟩
  · rw [selectRunsOn_iff h, hhead]
    simp
  · rw [fromRunsOn_iff h, hlast]
    simp
  · intro w hw hwFrom
    have hnot := hlistFrom _ (hinList w hw)
    simp [spells, hwFrom] at hnot
  · rintro w hw ⟨_, hwords⟩
    have hmem : Token.word true w ∈ t.list ++ t.aliasTokens :=
      List.mem_append_left _ (hlist ▸ hinList w hw)
    have hnot := ht.shape.noRowSet (lower w) hwords _ hmem
    simp [spells] at hnot
  · have hinner := ht.shape.oneSelect
    rw [BareSelect.inner, ← hlist, ← htable, ← halias] at hinner
    have hself : spells selectWord (.word false p.selectKw) = true := by simp [spells, hselect]
    have hnot : spells selectWord (.word false p.fromKw) = false := by
      simp only [spells, hfrom]
      decide
    have hcount := List.countP_eq_zero.2 fun tok htok => by
      simpa using hinner tok htok
    rw [List.countP_append, List.countP_append] at hcount
    have hsemis : (List.replicate n (Token.symbol ';')).countP (spells selectWord) = 0 := by
      rw [List.countP_eq_zero]
      intro tok htok
      rw [List.eq_of_mem_replicate htok]
      simp [spells]
    rw [hlex, List.countP_cons_of_pos hself, List.countP_append, List.countP_cons_of_neg
      (by simp [hnot]), List.countP_append, List.countP_append, hsemis]
    omega
  · intro w hw _ tok htok
    have hlistTokens : listTokens (lex sql) = lex p.list := by
      rw [hlex]
      exact listTokens_eq hselect hfrom hlistFrom
    have hlastAlias : lastAlias (lex sql) = shapeAlias p := lastAlias_lex h hlex
    rw [hlistTokens, hlastAlias, hlist, halias] at htok
    exact ht.shape.noRowSet w hw tok htok
  · rw [h.trimmed, Ne, body_last h, hdot]
    simp

/-- An accepted text is row-local, and so exactly read by its slices, if and only if
no escape is in it; every other text is one partition that holds it verbatim. -/
theorem accepted_rowLocal_iff (words : List (List Char)) :
    (∀ sql spans, parseSimpleSelect sql = some spans →
      ((∃ t, RowLocal words sql spans t ∧ SplitsExactly words sql) ↔ NoEscape words sql)) ∧
    (∀ memory chooseSplit schema stmt sql parts, stmt.query = some sql →
      parseSimpleSelect sql = none →
      executePartitions memory chooseSplit schema stmt = .ok parts →
      parts = [descriptor sql]) := by
  refine ⟨?_, ?_⟩
  · intro sql spans hparse
    obtain ⟨p, h, rfl⟩ := parseSimpleSelect_parsed hparse
    constructor
    · rintro ⟨t, ht, -⟩
      exact rowLocal_noEscape h ht
    · intro hno
      obtain ⟨t, ht⟩ := noEscape_rowLocal h hno
      exact ⟨t, ht, ht.splitsExactly⟩
  · intro memory chooseSplit schema stmt sql parts hquery hparse h
    exact executePartitions_rejected hquery hparse h

/-- `UNIQUE` is the older spelling of `DISTINCT`, and the scan does not look for it. -/
theorem unique_not_rowLocal :
    ¬ ∀ sql spans, parseSimpleSelect sql = some spans →
      ∃ t, RowLocal rowSetWords sql spans t := by
  intro hall
  obtain ⟨t, ht⟩ := hall "SELECT UNIQUE a FROM t".toList ⟨6, 10, 21, 1⟩ (by decide)
  have hmem : Token.word false "UNIQUE".toList ∈ t.list := by
    rw [← ht.list]
    decide
  have hnot := ht.shape.noRowSet "unique".toList (by decide) _ (List.mem_append_left _ hmem)
  revert hnot
  decide

end Exact

end Accepted

end AdbcBridge.Partition.ScannerSound
