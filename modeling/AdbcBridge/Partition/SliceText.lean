import AdbcBridge.Partition.ScannerSound

/-!
# What a slice keeps of its query

A slice is meant to be the query with one `WHERE` clause added, so its tokens are
the query's followed by `WHERE` and the predicate, and the column the predicate
names is the table's.  The text is cut where the table reference ends, before any
alias, at an offset that is cast to `int`; this module proves when that keeps the
query and when it does not.
-/

namespace AdbcBridge.Partition.SliceText

open AdbcBridge.Lib.Cuts AdbcBridge.Lib.SqlLexer
open AdbcBridge.Partition.Scanner AdbcBridge.Partition.Slices AdbcBridge.Partition.ScannerSound
open AdbcBridge.Partition.Split

/-! ## How a server resolves the predicate's column -/

def whereToken : Token := .word false "WHERE".toList

/-- How a server reads names: the output aliases it sees in the select list of a statement, whether
a `WHERE` clause looks names up among these before the table's columns, and which names a token is
written for. -/
structure Dialect where
  outputAliases : List Token → List (List Char)
  aliasesFirst : Bool
  names : Token → List Char → Bool
  /-- A `WHERE` clause behind a statement is no part of its select list. -/
  list_ends : ∀ tokens clause, outputAliases (tokens ++ whereToken :: clause) = outputAliases tokens

/-- What a name stands for. -/
inductive Binding where
  | column (name : List Char)
  | outputAlias (name : List Char)
deriving DecidableEq, Repr

def Binding.name : Binding → List Char
  | .column name => name
  | .outputAlias name => name

namespace Dialect

/-- What a name in the `WHERE` clause of a statement can stand for, in the order of lookup. -/
def scope (d : Dialect) (tokens : List Token) (columns : List (List Char)) : List Binding :=
  if d.aliasesFirst then (d.outputAliases tokens).map .outputAlias ++ columns.map .column
  else columns.map .column ++ (d.outputAliases tokens).map .outputAlias

/-- The first thing in the scope that the token names. -/
def resolve (d : Dialect) (tokens : List Token) (columns : List (List Char)) (tok : Token) :
    Option Binding :=
  (d.scope tokens columns).find? fun b => d.names tok b.name

end Dialect

def isName : Token → Bool
  | .word _ _ => true
  | .quoted _ => true
  | _ => false

/-- The column a split expression is written with: `c`, `"c"` or `f("c")`. -/
def exprColumn (expr : List Char) : Option Token := ((lex expr).filter isName).getLast?

/-- The token names this column of the table, as far as the table's columns go. -/
def NamesKey (d : Dialect) (columns : List (List Char)) (key expr : List Char) : Prop :=
  ∃ tok, exprColumn expr = some tok ∧ columns.find? (d.names tok) = some key

/-- Slice `k` is the query and one predicate over the table's own column. -/
structure SliceFaithful (d : Dialect) (columns : List (List Char)) (key sql : List Char)
    (split : OdbcSplit) (n : Int64) (k : Nat) (text : List Char) : Prop where
  tokens : lex text =
    lex (trimEnd sql) ++ whereToken :: lex (renderPredicate split (slicePredicate split n k))
  column : ∃ tok, exprColumn split.expr = some tok ∧
    d.resolve (lex text) columns tok = some (.column key)

/-- The server looks names up among the output aliases first, and the query gives one of them the
name that the expression is written with. -/
def Captured (d : Dialect) (sql expr : List Char) : Prop :=
  d.aliasesFirst = true ∧ ∃ tok, exprColumn expr = some tok ∧
    ∃ name ∈ d.outputAliases (lex (trimEnd sql)), d.names tok name = true

/-- In a slice the expression names the table's column exactly if the query does not capture it. -/
theorem resolve_iff {d : Dialect} {columns : List (List Char)} {key sql expr : List Char}
    {text : List Token} {clause : List Token} (hkey : NamesKey d columns key expr)
    (htext : text = lex (trimEnd sql) ++ whereToken :: clause) :
    (∃ tok, exprColumn expr = some tok ∧ d.resolve text columns tok = some (.column key)) ↔
      ¬ Captured d sql expr := by
  obtain ⟨tok, htok, hfound⟩ := hkey
  have hcolumn : (columns.map Binding.column).find? (fun b => d.names tok b.name) =
      some (.column key) := by
    rw [List.find?_map]
    change (columns.find? fun name => d.names tok name).map Binding.column = _
    rw [hfound]
    rfl
  rw [htext]
  unfold Captured Dialect.resolve Dialect.scope
  rw [d.list_ends]
  simp only [htok, Option.some.injEq, exists_eq_left']
  cases d.aliasesFirst with
  | false =>
      rw [if_neg Bool.false_ne_true, List.find?_append, hcolumn]
      simp
  | true =>
      rw [if_pos rfl, List.find?_append]
      constructor
      · rintro hresolved ⟨-, name, hname, hnames⟩
        cases halias : ((d.outputAliases (lex (trimEnd sql))).map Binding.outputAlias).find?
            (fun b => d.names tok b.name) with
        | none =>
            exact absurd hnames (List.find?_eq_none.mp halias _ (List.mem_map_of_mem hname))
        | some b =>
            obtain ⟨name, -, rfl⟩ := List.mem_map.mp (List.mem_of_find?_eq_some halias)
            rw [halias] at hresolved
            cases hresolved
      · intro hfree
        have hnone : ((d.outputAliases (lex (trimEnd sql))).map Binding.outputAlias).find?
            (fun b => d.names tok b.name) = none := by
          apply List.find?_eq_none.mpr
          intro b hb hnames
          obtain ⟨name, hname, rfl⟩ := List.mem_map.mp hb
          exact hfree ⟨rfl, name, hname, hnames⟩
        rw [hnone, hcolumn]
        rfl

/-- The last blank-separated chunk of the statement is an alias: what stands before
it is not `FROM`. -/
def hasBareAlias (sql : List Char) : Bool :=
  lower ((((trimEnd sql).rdropWhile fun c => !isSpace c).rdropWhile isSpace).rtakeWhile
    isIdentChar) != fromWord

/-! ## Prefixes of a plain text -/

/-- A character that neither quotes nor takes part in a comment marker. -/
def Inert (c : Char) : Prop := closingQuote c = none ∧ c ≠ '-' ∧ c ≠ '/' ∧ c ≠ '*'

theorem inert_of_isWordChar {c : Char} (h : isWordChar c = true) : Inert c := by
  refine ⟨?_, ?_, ?_, ?_⟩
  · by_contra hquote
    cases hclose : closingQuote c with
    | none => exact hquote hclose
    | some d =>
        unfold closingQuote at hclose
        split at hclose
        · subst c; revert h; decide
        split at hclose
        · subst c; revert h; decide
        split at hclose
        · subst c; revert h; decide
        split at hclose
        · subst c; revert h; decide
        · cases hclose
  · rintro rfl; revert h; decide
  · rintro rfl; revert h; decide
  · rintro rfl; revert h; decide

theorem inert_of_isTrailer {c : Char} (h : isTrailer c = true) : Inert c := by
  simp only [isTrailer, isSpace, Bool.or_eq_true, beq_iff_eq] at h
  rcases h with ((((h | h) | h) | h) | h) | h <;> subst h <;>
    exact ⟨by decide, by decide, by decide, by decide⟩

/-- Two marker characters next to each other in `xs ++ ys` lie on one side, or one
of them is in the inert part. -/
theorem pair_append {xs ys as bs : List Char} {a b : Char}
    (h : xs ++ ys = as ++ a :: b :: bs) :
    (∃ cs, xs = as ++ a :: b :: cs) ∨ (∃ cs, ys = cs ++ a :: b :: bs) ∨
      (a ∈ xs ∧ b ∈ ys) := by
  rcases List.append_eq_append_iff.1 h with ⟨cs, -, hys⟩ | ⟨cs, hxs, hpair⟩
  · exact Or.inr (Or.inl ⟨cs, hys⟩)
  · cases cs with
    | nil => exact Or.inr (Or.inl ⟨[], by simpa using hpair.symm⟩)
    | cons c cs =>
        obtain ⟨rfl, hrest⟩ := List.cons.inj hpair
        cases cs with
        | nil =>
            refine Or.inr (Or.inr ⟨by simp [hxs], ?_⟩)
            have hys : ys = b :: bs := hrest.symm
            simp [hys]
        | cons d cs =>
            obtain ⟨rfl, -⟩ := List.cons.inj hrest
            exact Or.inl ⟨cs, hxs⟩

theorem plain_append_inert {xs ys : List Char} (hx : Plain xs) (hy : ∀ c ∈ ys, Inert c) :
    Plain (xs ++ ys) where
  quotes c hc := by
    rcases List.mem_append.1 hc with hc | hc
    · exact hx.quotes c hc
    · exact (hy c hc).1
  dashes as bs h := by
    rcases pair_append h with ⟨cs, hxs⟩ | ⟨cs, hys⟩ | ⟨-, hys⟩
    · exact hx.dashes as cs hxs
    · exact (hy '-' (by simp [hys])).2.1 rfl
    · exact (hy '-' hys).2.1 rfl
  stars as bs h := by
    rcases pair_append h with ⟨cs, hxs⟩ | ⟨cs, hys⟩ | ⟨-, hys⟩
    · exact hx.stars as cs hxs
    · exact (hy '*' (by simp [hys])).2.2.2 rfl
    · exact (hy '*' hys).2.2.2 rfl

theorem plain_inert_append {xs ys : List Char} (hx : ∀ c ∈ xs, Inert c) (hy : Plain ys) :
    Plain (xs ++ ys) where
  quotes c hc := by
    rcases List.mem_append.1 hc with hc | hc
    · exact (hx c hc).1
    · exact hy.quotes c hc
  dashes as bs h := by
    rcases pair_append h with ⟨cs, hxs⟩ | ⟨cs, hys⟩ | ⟨hxs, -⟩
    · exact (hx '-' (by simp [hxs])).2.1 rfl
    · exact hy.dashes cs bs hys
    · exact (hx '-' hxs).2.1 rfl
  stars as bs h := by
    rcases pair_append h with ⟨cs, hxs⟩ | ⟨cs, hys⟩ | ⟨hxs, -⟩
    · exact (hx '/' (by simp [hxs])).2.2.1 rfl
    · exact hy.stars cs bs hys
    · exact (hx '/' hxs).2.2.1 rfl

/-- A `WHERE` clause put behind a plain text is lexed on its own. -/
theorem lex_where_clause {text : List Char} (h : Plain text) (pred : List Char) :
    lex (text ++ " WHERE ".toList ++ pred) = lex text ++ whereToken :: lex pred := by
  have hword : IsWord "WHERE".toList :=
    ⟨'W', "HERE".toList, rfl, rfl, List.all_eq_true.1 (by decide)⟩
  have hsplit : text ++ " WHERE ".toList ++ pred =
      text ++ ' ' :: ("WHERE".toList ++ ' ' :: pred) := by simp
  rw [hsplit, lex_append_of_plain _ h (by decide) (by decide) (Or.inl rfl),
    lex_blank_cons rfl, lex_word_append hword rfl, lex_blank_cons rfl]
  rfl

section Accepted

variable {sql : List Char} {p : Shape}

/-- The text up to the end of the table reference. -/
def front (p : Shape) : List Char :=
  p.blanks ++ (p.selectKw ++ (p.list ++ (p.fromKw ++ (p.gap ++ p.ref))))

theorem body_eq_front (p : Shape) : p.body = front p ++ p.tail := by
  simp [Shape.body, Shape.rest, front]

theorem front_length (p : Shape) : (front p).length = p.spans.tblOff + p.spans.tblLen := by
  simp [front, Shape.spans]
  omega

theorem plain_text (h : Parsed sql p) : Plain sql := by
  rw [h.text, Shape.body, ← List.append_assoc]
  refine plain_append_inert (plain_inert_append ?_ (parsed_plain_rest h))
    fun c hc => inert_of_isTrailer (h.trail c hc)
  intro c hc
  rcases List.mem_append.1 hc with hc | hc
  · exact inert_of_isTrailer (by simp [isTrailer, h.blanks c hc])
  · exact inert_of_isWordChar (isWordChar_of_isIdentChar (isIdentChar_of_isIdentStart
      (isIdentStart_of_lower h.selectKw selectWord_identStart hc)))

theorem not_isSpace_of_isIdentChar {c : Char} (h : isIdentChar c = true) : isSpace c = false :=
  isBlank_of_isWordChar (isWordChar_of_isIdentChar h)

theorem isIdent_all {w : List Char} (h : IsIdent w) {c : Char} (hc : c ∈ w) :
    isIdentChar c = true := by
  obtain ⟨d, cs, rfl, hd, hcs⟩ := h
  rcases List.mem_cons.1 hc with rfl | hc
  · exact isIdentChar_of_isIdentStart hd
  · exact hcs c hc

theorem mem_joinDots {names : List (List Char)} (h : ∀ w ∈ names, IsIdent w) {c : Char}
    (hc : c ∈ joinDots names) : isIdentChar c = true ∨ c = '.' := by
  induction names with
  | nil => cases hc
  | cons v names ih =>
      by_cases hnil : names = []
      · subst hnil
        exact Or.inl (isIdent_all (h v (by simp)) hc)
      · rw [joinDots_cons hnil] at hc
        rcases List.mem_append.1 hc with hc | hc
        · exact Or.inl (isIdent_all (h v (by simp)) hc)
        · rcases List.mem_cons.1 hc with hc | hc
          · exact Or.inr hc
          · exact ih (fun w hw => h w (List.mem_cons_of_mem _ hw)) hc

/-- The table reference holds no blank. -/
theorem ref_no_space (h : Parsed sql p) {c : Char} (hc : c ∈ p.ref) : isSpace c = false := by
  rcases List.mem_append.1 hc with hc | hc
  · rcases mem_joinDots h.names hc with hc | rfl
    · exact not_isSpace_of_isIdentChar hc
    · rfl
  · have hdot : c = '.' := by
      cases hd : p.dot with
      | false => simp [refDot, hd] at hc
      | true => simpa [refDot, hd] using hc
    subst hdot
    rfl

theorem ref_ne_nil (h : Parsed sql p) : p.ref ≠ [] := by
  have hhead := joinDots_head (names_ne_nil h) h.names (refDot p.dot)
  intro hnil
  change p.ref.head?.any isIdentChar = true at hhead
  rw [hnil] at hhead
  cases hhead

theorem getLast_mem_ref (h : Parsed sql p) : ∃ c ∈ p.ref, (front p).getLast? = some c := by
  have hfront : front p =
      p.blanks ++ (p.selectKw ++ (p.list ++ (p.fromKw ++ p.gap))) ++ p.ref := by
    simp [front]
  refine ⟨p.ref.getLast (ref_ne_nil h), List.getLast_mem _, ?_⟩
  rw [hfront, List.getLast?_append_of_ne_nil _ (ref_ne_nil h),
    List.getLast?_eq_getLast_of_ne_nil (ref_ne_nil h)]

/-- How many characters of a text are no blanks. -/
def nonblank (s : List Char) : Nat := s.countP fun c => !isBlank c

theorem nonblank_append (xs ys : List Char) : nonblank (xs ++ ys) = nonblank xs + nonblank ys :=
  List.countP_append

theorem nonblank_pos {s : List Char} {c : Char} (hc : c ∈ s) (hblank : isSpace c = false) :
    0 < nonblank s :=
  List.countP_pos_iff.2 ⟨c, hc, by rw [isBlank_eq, hblank]; rfl⟩

theorem nonblank_tail (h : Parsed sql p) : 0 < nonblank p.tail ↔ p.bareAlias ≠ none := by
  unfold Shape.tail
  cases hal : p.bareAlias with
  | none => simp [nonblank]
  | some a =>
      obtain ⟨-, -, c, cs, halias, hc, -⟩ := h.bareAlias a hal
      refine ⟨fun _ => by simp, fun _ => ?_⟩
      refine @nonblank_pos _ c ?_ (not_isSpace_of_isIdentChar (isIdentChar_of_isIdentStart hc))
      simp [halias]

/-- A prefix of the statement has its tokens only if it reaches the end of a table
reference that nothing follows. -/
theorem lex_take_eq_iff (h : Parsed sql p) {m : Nat} (hm : m ≤ (front p).length) :
    lex (sql.take m) = lex (trimEnd sql) ↔ m = (front p).length ∧ p.bareAlias = none := by
  have htake : sql.take m = (front p).take m := by
    rw [h.text, body_eq_front, List.append_assoc, List.take_append_of_le_length hm]
  constructor
  · intro heq
    have hplain := plain_text h
    have hplainTake : Plain (sql.take m) :=
      @Plain.of_append (sql.take m) (sql.drop m) (by rwa [List.take_append_drop])
    have hplainBody : Plain p.body := by
      rw [h.text] at hplain
      exact hplain.of_append
    have hweight := congrArg weight heq
    rw [lex_weight hplainTake, h.trimmed, lex_weight hplainBody] at hweight
    change nonblank (sql.take m) = nonblank p.body at hweight
    rw [htake, body_eq_front, nonblank_append] at hweight
    have hcut : nonblank (front p) =
        nonblank ((front p).take m) + nonblank ((front p).drop m) := by
      rw [← nonblank_append, List.take_append_drop]
    refine ⟨?_, ?_⟩
    · by_contra hne
      obtain ⟨c, hc, hlast⟩ := getLast_mem_ref h
      have hmem : c ∈ (front p).drop m := by
        refine List.mem_of_getLast? (by rwa [List.getLast?_drop, if_neg (by omega)])
      have hpos := nonblank_pos hmem (ref_no_space h hc)
      omega
    · by_contra hne
      have hpos := (nonblank_tail h).2 hne
      omega
  · rintro ⟨rfl, hal⟩
    rw [htake, List.take_length, h.trimmed, body_eq_front, Shape.tail, hal]
    simp

/-! ## The bare alias, on the text -/

theorem rdropWhile_append_all {q : Char → Bool} {xs ys : List Char}
    (hys : ∀ c ∈ ys, q c = true) (hxs : xs.getLast?.any q = false) :
    (xs ++ ys).rdropWhile q = xs := by
  rw [List.rdropWhile, List.reverse_append,
    List.dropWhile_append_of_pos (by simpa using hys)]
  cases hrev : xs.reverse with
  | nil => simpa using hrev.symm
  | cons c cs =>
      have hlast : xs.getLast? = some c := by rw [← List.head?_reverse, hrev]; rfl
      rw [hlast] at hxs
      rw [List.dropWhile_cons_of_neg (by simpa using hxs), ← hrev, List.reverse_reverse]

theorem rtakeWhile_append_all {q : Char → Bool} {xs ys : List Char}
    (hys : ∀ c ∈ ys, q c = true) (hxs : xs.getLast?.any q = false) :
    (xs ++ ys).rtakeWhile q = ys := by
  rw [List.rtakeWhile, List.reverse_append,
    List.takeWhile_append_of_pos (by simpa using hys)]
  cases hrev : xs.reverse with
  | nil => simp
  | cons c cs =>
      have hlast : xs.getLast? = some c := by rw [← List.head?_reverse, hrev]; rfl
      rw [hlast] at hxs
      rw [List.takeWhile_cons_of_neg (by simpa using hxs)]
      simp

theorem joinDots_snoc {names : List (List Char)} (hne : names ≠ []) :
    ∃ as w, joinDots names = as ++ w ∧ w ∈ names ∧ (as = [] ∨ as.getLast? = some '.') := by
  induction names with
  | nil => exact absurd rfl hne
  | cons v names ih =>
      by_cases hnil : names = []
      · subst hnil
        exact ⟨[], v, rfl, by simp, Or.inl rfl⟩
      · obtain ⟨as, w, hjoin, hw, has⟩ := ih hnil
        refine ⟨v ++ '.' :: as, w, by simp [joinDots_cons hnil, hjoin],
          List.mem_cons_of_mem _ hw, Or.inr ?_⟩
        rcases has with rfl | has
        · simp
        · rw [List.getLast?_append_of_ne_nil _ (List.cons_ne_nil _ _), List.getLast?_cons, has]
          rfl

theorem spaces_last {gap : List Char} (hne : gap ≠ []) (h : ∀ c ∈ gap, isSpace c = true)
    (as : List Char) : (as ++ gap).getLast?.any isSpace = true := by
  rw [getLast?_any_append hne, List.getLast?_eq_getLast_of_ne_nil hne]
  exact h _ (List.getLast_mem hne)

theorem hasBareAlias_eq (h : Parsed sql p) : hasBareAlias sql = p.bareAlias.isSome := by
  have hfrontLast : (front p).getLast?.any isSpace = false := by
    obtain ⟨c, hc, hlast⟩ := getLast_mem_ref h
    rw [hlast]
    exact ref_no_space h hc
  unfold hasBareAlias
  rw [h.trimmed, body_eq_front, Shape.tail]
  cases hal : p.bareAlias with
  | none =>
      have hcut : front p =
          (p.blanks ++ (p.selectKw ++ p.list)) ++ p.fromKw ++ p.gap ++ p.ref := by
        simp [front]
      have hgapLast := spaces_last h.gapNonempty h.gap
        ((p.blanks ++ (p.selectKw ++ p.list)) ++ p.fromKw)
      have hident : ∀ c ∈ p.fromKw, isIdentChar c = true := fun c hc =>
        isIdentChar_of_isIdentStart (isIdentStart_of_lower h.fromKw fromWord_identStart hc)
      have hfromne : p.fromKw ≠ [] := by
        obtain ⟨c, cs, hkw, -, -⟩ := isWord_keyword h.fromKw (by simp)
        rw [hkw]
        exact List.cons_ne_nil c cs
      have hfromLast : ((p.blanks ++ (p.selectKw ++ p.list)) ++ p.fromKw).getLast?.any isSpace =
          false := by
        rw [getLast?_any_append hfromne, List.getLast?_eq_getLast_of_ne_nil hfromne]
        exact not_isSpace_of_isIdentChar (hident _ (List.getLast_mem hfromne))
      have hlistLast : (p.blanks ++ (p.selectKw ++ p.list)).getLast?.any isIdentChar = false := by
        rw [← List.append_assoc, getLast?_any_append (parsed_list_ne_nil h)]
        exact h.listLast
      simp only [Option.map_none, Option.getD_none, List.append_nil]
      rw [hcut, rdropWhile_append_all (fun c hc => by simp [ref_no_space h hc])
        (by cases hl : (p.blanks ++ (p.selectKw ++ p.list) ++ p.fromKw ++ p.gap).getLast? with
            | none => rfl
            | some c => rw [hl] at hgapLast; simpa using hgapLast),
        rdropWhile_append_all h.gap hfromLast, rtakeWhile_append_all hident hlistLast,
        lower_keyword h.fromKw (by simp)]
      rfl
  | some a =>
      obtain ⟨hne, hsp, hident⟩ := h.bareAlias a hal
      have hdot : p.dot = false := by
        cases hd : p.dot with
        | false => rfl
        | true => rw [h.dotEnds hd] at hal; cases hal
      have hspLast := spaces_last hne hsp (front p)
      obtain ⟨as, w, hjoin, hw, has⟩ := joinDots_snoc (names_ne_nil h)
      have hcut : front p =
          (p.blanks ++ (p.selectKw ++ (p.list ++ p.fromKw)) ++ p.gap ++ as) ++ w := by
        simp [front, Shape.ref, hdot, refDot, hjoin]
      have hasLast : (p.blanks ++ (p.selectKw ++ (p.list ++ p.fromKw)) ++ p.gap ++
          as).getLast?.any isIdentChar = false := by
        rcases has with rfl | has
        · rw [List.append_nil]
          exact gap_last h.gapNonempty h.gap _
        · rw [List.getLast?_append, has]
          rfl
      simp only [Option.map_some, Option.getD_some]
      rw [← List.append_assoc, rdropWhile_append_all
        (fun c hc => by simp [not_isSpace_of_isIdentChar (isIdent_all hident hc)])
        (by cases hl : (front p ++ a.1).getLast? with
            | none => rfl
            | some c => rw [hl] at hspLast; simpa using hspLast),
        rdropWhile_append_all hsp hfrontLast, hcut,
        rtakeWhile_append_all (fun c hc => isIdent_all (h.names w hw) hc) hasLast]
      have hnot := parsed_name_word h hw
      simp only [Option.isSome_some, bne_iff_ne, ne_eq]
      intro heq
      exact hnot (by rw [heq]; simp)

/-! ## The head of a slice -/

/-- The head that `%.*s` copies: the offset itself if it fits an `int`. -/
theorem sliceHead_eq (spans : SelectSpans) :
    sliceHead spans = Int.bmod (spans.tblOff + spans.tblLen : Nat) (2 ^ 32) :=
  Int32.toInt_ofNat'

theorem sliceHead_cases (spans : SelectSpans) (hpos : 0 ≤ sliceHead spans) :
    (sliceHead spans).toNat ≤ spans.tblOff + spans.tblLen ∧
      ((sliceHead spans).toNat = spans.tblOff + spans.tblLen ↔
        spans.tblOff + spans.tblLen < 2 ^ 32) := by
  have hhead := sliceHead_eq spans
  rw [Int.bmod_def] at hhead
  split at hhead <;> omega

theorem sliceHead_neg (spans : SelectSpans) (hneg : sliceHead spans < 0) :
    2 ^ 31 ≤ spans.tblOff + spans.tblLen := by
  have hhead := sliceHead_eq spans
  rw [Int.bmod_def] at hhead
  split at hhead <;> omega

/-- A slice that was built keeps the query's tokens exactly if no alias follows the
table and the cast of the head lost nothing. -/
theorem slice_tokens_iff (h : Parsed sql p) {split : OdbcSplit} {n : Int64} {k : Nat}
    (hfits : (sliceSql sql (sliceHead p.spans) split n k).length ≤ 2147483647) :
    lex (sliceSql sql (sliceHead p.spans) split n k) =
        lex (trimEnd sql) ++ whereToken ::
          lex (renderPredicate split (slicePredicate split n k)) ↔
      p.bareAlias = none ∧ (front p).length < 2 ^ 32 := by
  have hlen := front_length p
  have hfront : (front p).length ≤ sql.length := by
    rw [h.text, body_eq_front]
    simp only [List.length_append]
    omega
  have hpos : 0 ≤ sliceHead p.spans := by
    by_contra hneg
    have hbig := sliceHead_neg p.spans (by omega)
    rw [sliceSql, precisionText, if_pos (by omega)] at hfits
    simp only [List.length_append] at hfits
    omega
  obtain ⟨hle, heq⟩ := sliceHead_cases p.spans hpos
  have hplain : Plain (sql.take (sliceHead p.spans).toNat) := by
    refine @Plain.of_append _ (sql.drop (sliceHead p.spans).toNat) ?_
    rw [List.take_append_drop]
    exact plain_text h
  rw [sliceSql, precisionText, if_neg (by omega), lex_where_clause hplain,
    List.append_left_inj, lex_take_eq_iff h (by omega), hlen, heq]
  exact And.comm

theorem front_length_of_no_alias (h : Parsed sql p) (hal : p.bareAlias = none) :
    (front p).length = (trimEnd sql).length := by
  rw [h.trimmed, body_eq_front, Shape.tail, hal]
  simp

end Accepted

/-- The slices handed back are the query with one `WHERE` clause over the table's own
column if and only if the query has no alias, is shorter than the `int` offsets can
tell apart, and captures the column with none of its output aliases. -/
theorem slices_faithful_iff (d : Dialect) (columns : List (List Char)) (key : List Char)
    (memory : Memory) (chooseSplit : List Char → OdbcSplit)
    (schema : Option (Except AdbcError Unit)) (stmt : OdbcStatement) (sql : List Char)
    (spans : SelectSpans) (split : OdbcSplit) (n : Int64) (parts : List (List Char))
    (hquery : stmt.query = some sql) (hparse : parseSimpleSelect sql = some spans)
    (hsplit : chooseSplit (tableText sql spans) = split) (hkind : split.kind ≠ .none)
    (hkey : NamesKey d columns key split.expr)
    (hn : resolvePartitionCount stmt.partitions split = n) (h2 : 2 ≤ n)
    (hparts : executePartitions memory chooseSplit schema stmt = .ok parts) :
    (∀ k, k < n.toNatClampNeg → ∃ text, parts[k]? = some (descriptor text) ∧
      SliceFaithful d columns key sql split n k text) ↔
    hasBareAlias sql = false ∧ (trimEnd sql).length < 2 ^ 32 ∧ ¬ Captured d sql split.expr := by
  have hsliced := executePartitions_sliced hquery hparse hsplit hkind hn h2 hparts
  obtain ⟨p, h, rfl⟩ := parseSimpleSelect_parsed hparse
  have htext : ∀ k, k < n.toNatClampNeg → parts[k]? =
      some (descriptor (sliceSql sql (sliceHead p.spans) split n k)) := by
    intro k hk
    rw [hsliced.texts]
    simp [hk]
  have halias : p.bareAlias = none ↔ hasBareAlias sql = false := by
    rw [hasBareAlias_eq h]
    simp
  constructor
  · intro hall
    have hpos : 0 < n.toNatClampNeg := by
      have hcount := toNatClampNeg_eq h2
      have h2' := Int64.le_iff_toInt_le.1 h2
      have htwo : (2 : Int64).toInt = 2 := rfl
      omega
    obtain ⟨text, hpart, hfaithful⟩ := hall 0 hpos
    rw [htext 0 hpos, Option.some.injEq, descriptor, descriptor,
      List.append_cancel_left_eq] at hpart
    subst hpart
    obtain ⟨hal, hlen⟩ := (slice_tokens_iff h (hsliced.fits 0 hpos)).1 hfaithful.tokens
    rw [front_length_of_no_alias h hal] at hlen
    exact ⟨halias.1 hal, hlen, (resolve_iff hkey hfaithful.tokens).1 hfaithful.column⟩
  · rintro ⟨hal, hlen, hfree⟩ k hk
    have hal' := halias.2 hal
    rw [← front_length_of_no_alias h hal'] at hlen
    have htokens := (slice_tokens_iff h (hsliced.fits k hk)).2 ⟨hal', hlen⟩
    exact ⟨_, htext k hk, htokens, (resolve_iff hkey htokens).2 hfree⟩

/-! ## Two queries, with and without an alias -/

/-- A two-way split of an integer key. -/
def keySplit : OdbcSplit := ⟨.keyRange, "id".toList, 0, 100, 0⟩

/-- A statement that asks for two partitions. -/
def twoPartitions (sql : List Char) : OdbcStatement := ⟨some sql, none, false, 2⟩

def fullMemory : Memory := ⟨true, true, fun _ => true⟩

/-- Names are compared without case, those in quotes as well; an output alias is none that this
query has. -/
def columnsFirst : Dialect where
  outputAliases := fun _ => []
  aliasesFirst := false
  names
    | .word _ w, name => lower w == lower name
    | .quoted text, name => lower text.tail.dropLast == lower name
    | _, _ => false
  list_ends := fun _ _ => rfl

/-- Without an alias a slice is the query and its predicate. -/
theorem slices_faithful_bench :
    ∃ text, [descriptor "SELECT id FROM bench WHERE id < 50".toList,
        descriptor "SELECT id FROM bench WHERE id >= 50".toList][0]? = some (descriptor text) ∧
      SliceFaithful columnsFirst ["id".toList] "id".toList "SELECT id FROM bench".toList keySplit 2
        0 text :=
  (slices_faithful_iff columnsFirst ["id".toList] "id".toList fullMemory (fun _ => keySplit) none
    (twoPartitions "SELECT id FROM bench".toList) "SELECT id FROM bench".toList ⟨6, 4, 15, 5⟩
    keySplit 2 _ rfl (by decide) rfl (by decide) ⟨_, rfl, rfl⟩ (by decide) (by decide) rfl).2
    ⟨by decide, by decide, fun h => by cases h.1⟩ 0 (by decide)

/-- The alias is dropped from the slices, and with it the name the list uses. -/
theorem slices_drop_alias :
    executePartitions fullMemory (fun _ => keySplit) none
        (twoPartitions "SELECT b.id FROM bench b".toList) =
      .ok [descriptor "SELECT b.id FROM bench WHERE id < 50".toList,
        descriptor "SELECT b.id FROM bench WHERE id >= 50".toList] ∧
    ¬ SliceFaithful columnsFirst ["id".toList] "id".toList "SELECT b.id FROM bench b".toList
      keySplit 2 0 "SELECT b.id FROM bench WHERE id < 50".toList := by
  refine ⟨rfl, fun h => ?_⟩
  have htokens := h.tokens
  revert htokens
  decide

end AdbcBridge.Partition.SliceText
