import Mathlib

/-!
# The tiny SQL scanner

`ParseSimpleSelect` of `odbc_partition.c`: the hand-written recogniser of the one
query shape that is cut into slices, `SELECT <list> FROM <table>` with an optional
bare alias.  A text is a list of bytes, written as characters.  Positions of the
source are kept as offsets where they are part of the result, and as suffixes of
the text where the scanner only walks forward.

The second half says what an accepted text looks like (`parseSimpleSelect_spec`);
everything else about the scanner is derived from that.
-/

namespace AdbcBridge.Partition.Scanner

def isIdentStart (c : Char) : Bool :=
  ('a' ≤ c && c ≤ 'z') || ('A' ≤ c && c ≤ 'Z') || c == '_'

def isIdentChar (c : Char) : Bool :=
  isIdentStart c || ('0' ≤ c && c ≤ '9') || c == '$'

def isSpace (c : Char) : Bool :=
  c == ' ' || c == '\t' || c == '\n' || c == '\r' || c == '\x0c'

/-- `SkipSpace`: how many blanks the text starts with. -/
def skipSpace (cs : List Char) : Nat := (cs.takeWhile isSpace).length

/-- The text after `word`, read without regard to ASCII case. -/
def matchPrefix : List Char → List Char → Option (List Char)
  | cs, [] => some cs
  | [], _ :: _ => none
  | c :: cs, w :: ws => if c.toLower = w.toLower then matchPrefix cs ws else none

/-- `MatchWord`: the length of `word` if the text starts with it and a word
boundary follows. -/
def matchWord (cs word : List Char) : Option Nat :=
  match matchPrefix cs word with
  | none => none
  | some rest => if rest.head?.any isIdentChar then none else some word.length

def selectWord : List Char := "select".toList
def fromWord : List Char := "from".toList

/-- Words whose presence anywhere in the statement means that the query is not
the bare single-table `SELECT`. -/
def kUnsplittableWords : List (List Char) :=
  ["where".toList, "join".toList, "group".toList, "order".toList, "limit".toList,
    "offset".toList, "union".toList, "except".toList, "having".toList, "window".toList,
    "fetch".toList, "for".toList, "into".toList, "with".toList, "values".toList,
    "using".toList, "natural".toList, "cross".toList, "inner".toList, "outer".toList,
    "left".toList, "right".toList, "full".toList, "lateral".toList, "only".toList,
    "distinct".toList, "all".toList, "top".toList, "as".toList, "on".toList,
    "intersect".toList, "tablesample".toList]

/-- The characters that end the scan at once: quotes, parentheses, parameter
markers and the rest. -/
def isForbidden (c : Char) : Bool :=
  c == '\x27' || c == '\x22' || c == '\x60' || c == '(' || c == ')' || c == ';' || c == '?' ||
    c == '[' || c == ']' || c == '\x7b' || c == '\x7d' || c == '@' || c == ':' || c == '\x5c'

/-- What the scan makes of one position. -/
inductive Seen where
  | reject
  | pass
  | fromKeyword (len : Nat)
deriving DecidableEq, Repr

/-- The body of the scan loop, at a character `c` after `prev` and before `cs`. -/
def scanAt (prev : Option Char) (c : Char) (cs : List Char) : Seen :=
  if isForbidden c then .reject
  else if c == '-' && cs.head? == some '-' then .reject
  else if c == '/' && cs.head? == some '*' then .reject
  else if !isIdentStart c then .pass
  else if prev.any isIdentChar then .pass
  else
    match matchWord (c :: cs) fromWord with
    | some len => .fromKeyword len
    | none =>
      if kUnsplittableWords.any fun w => (matchWord (c :: cs) w).isSome then .reject
      else .pass

/-- `from_count`, `from_start` and `from_end` of the scan. -/
structure FromFound where
  count : Nat
  start : Nat
  stop : Nat
deriving DecidableEq, Repr

/-- What the loop keeps of a position: how many characters of a `FROM` are still
to be stepped over (`k = end - 1` in the source), and the `FROM` itself. -/
def scanKeep (k : Nat) (found : FromFound) : Seen → Option (Nat × FromFound)
  | .reject => none
  | .pass => some (0, found)
  | .fromKeyword len => some (len - 1, ⟨found.count + 1, k, k + len⟩)

/-- The scan of the whole statement, from position `k` on. -/
def scanLoop : Option Char → Nat → Nat → List Char → FromFound → Option FromFound
  | _, _, _, [], found => some found
  | _, skip + 1, k, c :: cs, found => scanLoop (some c) skip (k + 1) cs found
  | prev, 0, k, c :: cs, found =>
      (scanKeep k found (scanAt prev c cs)).bind fun next =>
        scanLoop (some c) next.1 (k + 1) cs next.2

/-- The loop over the parts of the table reference: how many there are, how long
the reference is, and the text after it.  `inPart` tells whether a part has
started. -/
def refLoop : Bool → Nat → Nat → List Char → Option (Nat × Nat × List Char)
  | false, parts, len, [] => some (parts, len, [])
  | false, parts, len, c :: cs =>
      if isIdentStart c then refLoop true parts (len + 1) cs else none
  | true, parts, len, [] => some (parts + 1, len, [])
  | true, parts, len, c :: cs =>
      if isIdentChar c then refLoop true parts (len + 1) cs
      else if c == '.' then refLoop false (parts + 1) (len + 1) cs
      else some (parts + 1, len, c :: cs)

/-- What may follow the table reference: blanks, or a bare alias. -/
def aliasAccepted (rest : List Char) : Bool :=
  match rest.dropWhile isSpace with
  | [] => true
  | c :: cs => isIdentStart c && ((cs.dropWhile isIdentChar).dropWhile isSpace).isEmpty

/-- The spans of an accepted query, as offsets into its text. -/
structure SelectSpans where
  listOff : Nat
  listLen : Nat
  tblOff : Nat
  tblLen : Nat
deriving DecidableEq, Repr

/-- The text less its trailing blanks and semicolons. -/
def trimEnd (sql : List Char) : List Char := sql.rdropWhile fun c => isSpace c || c == ';'

/-- `ParseSimpleSelect`. -/
def parseSimpleSelect (sql : List Char) : Option SelectSpans :=
  let s := trimEnd sql
  let i := skipSpace s
  match matchWord (s.drop i) selectWord with
  | none => none
  | some selectLen =>
    let afterSelect := i + selectLen
    match scanLoop none 0 afterSelect (s.drop afterSelect) ⟨0, 0, 0⟩ with
    | none => none
    | some found =>
      if found.count ≠ 1 then none
      else
        let listLen := found.start - afterSelect
        let hasList := ((s.drop afterSelect).take listLen).any fun c => !isSpace c
        if !hasList then none
        else
          let t := found.stop + skipSpace (s.drop found.stop)
          match refLoop false 0 0 (s.drop t) with
          | none => none
          | some (parts, tblLen, rest) =>
            if parts < 1 || 3 < parts then none
            else if !aliasAccepted rest then none
            else if 0 < tblLen then
              some { listOff := afterSelect, listLen := listLen, tblOff := t, tblLen := tblLen }
            else none

example : parseSimpleSelect "SELECT id FROM db.t b ; ".toList = some ⟨6, 4, 15, 4⟩ := by decide

/-! ## Words -/

/-- A word in lower case. -/
def lower (w : List Char) : List Char := w.map Char.toLower

@[simp] theorem lower_length (w : List Char) : (lower w).length = w.length := by
  simp [lower]

theorem matchPrefix_eq_some {cs w rest : List Char} :
    matchPrefix cs w = some rest ↔ ∃ kw, cs = kw ++ rest ∧ lower kw = lower w := by
  induction w generalizing cs with
  | nil =>
      simp only [matchPrefix, Option.some.injEq]
      constructor
      · rintro rfl
        exact ⟨[], rfl, rfl⟩
      · rintro ⟨kw, rfl, hkw⟩
        have hnil : kw = [] := by simpa [lower] using hkw
        rw [hnil, List.nil_append]
  | cons a w ih =>
      cases cs with
      | nil =>
          simp only [matchPrefix, reduceCtorEq, false_iff]
          rintro ⟨kw, hcs, hkw⟩
          have hnil : kw = [] := (List.append_eq_nil_iff.1 hcs.symm).1
          simp [hnil, lower] at hkw
      | cons c cs =>
          simp only [matchPrefix]
          by_cases hc : c.toLower = a.toLower
          · rw [if_pos hc, ih]
            constructor
            · rintro ⟨kw, rfl, hkw⟩
              exact ⟨c :: kw, rfl, by simpa [lower, hc] using hkw⟩
            · rintro ⟨kw, hcs, hkw⟩
              cases kw with
              | nil => simp [lower] at hkw
              | cons d kw =>
                  obtain ⟨rfl, rfl⟩ := List.cons.inj hcs
                  exact ⟨kw, rfl, (List.cons.inj hkw).2⟩
          · rw [if_neg hc]
            simp only [reduceCtorEq, false_iff]
            rintro ⟨kw, hcs, hkw⟩
            cases kw with
            | nil => simp [lower] at hkw
            | cons d kw =>
                obtain ⟨rfl, _⟩ := List.cons.inj hcs
                exact hc (List.cons.inj hkw).1

theorem matchWord_eq_some {cs w : List Char} {len : Nat} :
    matchWord cs w = some len ↔
      ∃ kw rest, cs = kw ++ rest ∧ lower kw = lower w ∧
        rest.head?.any isIdentChar = false ∧ len = w.length := by
  unfold matchWord
  constructor
  · intro h
    split at h
    · cases h
    · rename_i rest hrest
      obtain ⟨kw, hcs, hkw⟩ := matchPrefix_eq_some.1 hrest
      by_cases hb : rest.head?.any isIdentChar = true
      · rw [if_pos hb] at h
        cases h
      · rw [if_neg hb] at h
        cases h
        exact ⟨kw, rest, hcs, hkw, by simpa using hb, rfl⟩
  · rintro ⟨kw, rest, hcs, hkw, hrest, rfl⟩
    rw [matchPrefix_eq_some.2 ⟨kw, hcs, hkw⟩]
    simp [hrest]

/-- A word the text starts with, boundary included, is found under any casing. -/
theorem matchWord_isSome {kw rest w : List Char} (hkw : lower kw = lower w)
    (hrest : rest.head?.any isIdentChar = false) :
    matchWord (kw ++ rest) w = some w.length :=
  matchWord_eq_some.2 ⟨kw, rest, rfl, hkw, hrest, rfl⟩

/-! ## The scan -/

/-- The character before the one that follows `as`. -/
def lastOr (prev : Option Char) (as : List Char) : Option Char := as.getLast?.or prev

@[simp] theorem lastOr_nil (prev : Option Char) : lastOr prev [] = prev := rfl

theorem lastOr_cons (prev : Option Char) (c : Char) (as : List Char) :
    lastOr prev (c :: as) = lastOr (some c) as := by
  simp only [lastOr, List.getLast?_cons]
  cases as.getLast? <;> rfl

theorem not_forbidden_of_isIdentChar {c : Char} (h : isIdentChar c = true) :
    isForbidden c = false ∧ c ≠ '-' ∧ c ≠ '/' := by
  refine ⟨?_, ?_, ?_⟩
  · by_contra hf
    simp only [isForbidden, Bool.not_eq_false, Bool.or_eq_true, beq_iff_eq] at hf
    rcases hf with ((((((((((((h | h) | h) | h) | h) | h) | h) | h) | h) | h) | h) | h) | h) | h
    all_goals subst c; revert h; decide
  · rintro rfl
    revert h
    decide
  · rintro rfl
    revert h
    decide

/-- Inside a word the scan passes on. -/
theorem scanAt_inside {prev : Option Char} {c : Char} (cs : List Char)
    (hprev : prev.any isIdentChar = true) (hc : isIdentChar c = true) :
    scanAt prev c cs = .pass := by
  obtain ⟨hf, hdash, hslash⟩ := not_forbidden_of_isIdentChar hc
  simp [scanAt, hf, hdash, hslash, hprev]

/-- What the scan makes of the position where a keyword `FROM` starts. -/
theorem scanAt_eq_fromKeyword {prev : Option Char} {c : Char} {cs : List Char} {len : Nat}
    (h : scanAt prev c cs = .fromKeyword len) :
    prev.any isIdentChar = false ∧ matchWord (c :: cs) fromWord = some len := by
  unfold scanAt at h
  split at h
  · cases h
  split at h
  · cases h
  split at h
  · cases h
  split at h
  · cases h
  split at h
  · cases h
  rename_i hprev
  split at h
  · rename_i len' hmatch
    cases h
    exact ⟨by simpa using hprev, hmatch⟩
  · split at h <;> cases h

/-- The characters still to be stepped over belong to the word before them. -/
def Skipping (prev : Option Char) (skip : Nat) (cs : List Char) : Prop :=
  skip = 0 ∨ (prev.any isIdentChar = true ∧ ∀ c ∈ cs.take skip, isIdentChar c = true)

theorem Skipping.tail {prev : Option Char} {skip : Nat} {c : Char} {cs : List Char}
    (h : Skipping prev (skip + 1) (c :: cs)) : Skipping (some c) skip cs := by
  rcases h with h | ⟨_, h⟩
  · omega
  · refine Or.inr ⟨?_, fun x hx => h x ?_⟩
    · simpa using h c (by simp)
    · simp [hx]

theorem Skipping.head {prev : Option Char} {skip : Nat} {c : Char} {cs : List Char}
    (h : Skipping prev (skip + 1) (c :: cs)) : scanAt prev c cs = .pass := by
  rcases h with h | ⟨hprev, h⟩
  · omega
  · exact scanAt_inside cs hprev (h c (by simp))

theorem isIdentStart_of_toLower {c : Char} (h : isIdentStart c.toLower = true) :
    isIdentStart c = true := by
  by_cases hc : 'A'.val ≤ c.val ∧ c.val ≤ 'Z'.val
  · have hupper : ('A' ≤ c && c ≤ 'Z') = true := by
      simp only [Bool.and_eq_true, decide_eq_true_eq]
      exact hc
    simp [isIdentStart, hupper]
  · have hsame : c.toLower = c := by
      simp only [Char.toLower]
      rw [dif_neg]
      exact hc
    rwa [hsame] at h

/-- A word that spells a keyword consists of identifier characters. -/
theorem isIdentStart_of_lower {kw w : List Char} (h : lower kw = lower w)
    (hw : ∀ c ∈ lower w, isIdentStart c = true) {c : Char} (hc : c ∈ kw) :
    isIdentStart c = true := by
  apply isIdentStart_of_toLower
  apply hw
  rw [← h]
  exact List.mem_map_of_mem hc

theorem isIdentChar_of_isIdentStart {c : Char} (h : isIdentStart c = true) :
    isIdentChar c = true := by
  simp [isIdentChar, h]

theorem fromWord_identStart : ∀ c ∈ lower fromWord, isIdentStart c = true :=
  List.all_eq_true.1 (by decide)

theorem selectWord_identStart : ∀ c ∈ lower selectWord, isIdentStart c = true :=
  List.all_eq_true.1 (by decide)

/-- After the first letter of `FROM` the scan steps over the rest of the word. -/
theorem skipping_of_fromKeyword {prev : Option Char} {c : Char} {cs : List Char} {len : Nat}
    (h : scanAt prev c cs = .fromKeyword len) : Skipping (some c) (len - 1) cs := by
  obtain ⟨_, hmatch⟩ := scanAt_eq_fromKeyword h
  obtain ⟨kw, rest, hcs, hkw, _, hlen⟩ := matchWord_eq_some.1 hmatch
  have hall := fun x (hx : x ∈ kw) =>
    isIdentChar_of_isIdentStart (isIdentStart_of_lower hkw fromWord_identStart hx)
  have hkwlen : kw.length = len := by
    rw [hlen, ← lower_length kw, hkw, lower_length]
  cases kw with
  | nil => exact Or.inl (by simp at hkwlen; omega)
  | cons d kw =>
      obtain ⟨rfl, rfl⟩ := List.cons.inj hcs
      refine Or.inr ⟨by simpa using hall c (by simp), fun x hx => hall x ?_⟩
      rw [List.length_cons] at hkwlen
      refine List.mem_cons_of_mem _ ?_
      have htake : (kw.append rest).take (len - 1) = kw := by
        rw [← hkwlen, Nat.add_sub_cancel]
        exact List.take_left
      rwa [htake] at hx

/-- The span of a `FROM` keyword. -/
def fromSpan (k : Nat) : Seen → List (Nat × Nat)
  | .fromKeyword len => [(k, k + len)]
  | _ => []

/-- The spans of the `FROM` keywords a scan meets, without the stepping over. -/
def fromKeywords : Option Char → Nat → List Char → List (Nat × Nat)
  | _, _, [] => []
  | prev, k, c :: cs => fromSpan k (scanAt prev c cs) ++ fromKeywords (some c) (k + 1) cs

theorem scanLoop_found {prev : Option Char} {skip k : Nat} {cs : List Char}
    {found out : FromFound} (hskip : Skipping prev skip cs)
    (h : scanLoop prev skip k cs found = some out) :
    out.count = found.count + (fromKeywords prev k cs).length ∧
      (out.start, out.stop) =
        (fromKeywords prev k cs).getLast?.getD (found.start, found.stop) := by
  induction cs generalizing prev skip k found with
  | nil =>
      have hout : found = out := by cases skip <;> exact Option.some.inj h
      subst hout
      exact ⟨rfl, rfl⟩
  | cons c cs ih =>
      rw [fromKeywords]
      cases skip with
      | succ skip =>
          rw [scanLoop] at h
          rw [hskip.head]
          exact ih hskip.tail h
      | zero =>
          rw [scanLoop] at h
          have hnext := @skipping_of_fromKeyword prev c cs
          generalize scanAt prev c cs = seen at h hnext
          cases seen with
          | reject => cases h
          | pass => exact ih (Or.inl rfl) h
          | fromKeyword len =>
              obtain ⟨hcount, hspan⟩ := ih (hnext rfl) h
              refine ⟨?_, ?_⟩
              · simp only [fromSpan, List.singleton_append, List.length_cons, hcount]
                omega
              · rw [hspan, fromSpan, List.singleton_append, List.getLast?_cons]
                cases (fromKeywords (some c) (k + 1) cs).getLast? <;> rfl

/-- The scan gets past every position of the text. -/
theorem scanLoop_passes {prev : Option Char} {skip k : Nat} {cs : List Char}
    {found out : FromFound} (hskip : Skipping prev skip cs)
    (h : scanLoop prev skip k cs found = some out) {as bs : List Char} {c : Char}
    (hcs : cs = as ++ c :: bs) : scanAt (lastOr prev as) c bs ≠ .reject := by
  induction as generalizing prev skip k found cs with
  | nil =>
      subst hcs
      rw [lastOr_nil]
      cases skip with
      | succ skip => rw [hskip.head]; simp
      | zero =>
          intro hreject
          rw [List.nil_append, scanLoop, hreject] at h
          cases h
  | cons a as ih =>
      subst hcs
      rw [lastOr_cons]
      rw [List.cons_append] at h hskip
      cases skip with
      | succ skip =>
          rw [scanLoop] at h
          exact ih hskip.tail h rfl
      | zero =>
          rw [scanLoop] at h
          have hnext := @skipping_of_fromKeyword prev a (as ++ c :: bs)
          generalize scanAt prev a (as ++ c :: bs) = seen at h hnext
          cases seen with
          | reject => cases h
          | pass => exact ih (Or.inl rfl) h rfl
          | fromKeyword len => exact ih (hnext rfl) h rfl

theorem mem_fromSpan {k : Nat} {seen : Seen} {p : Nat × Nat} :
    p ∈ fromSpan k seen ↔ ∃ len, seen = .fromKeyword len ∧ p = (k, k + len) := by
  cases seen <;> simp [fromSpan]

theorem mem_fromKeywords {prev : Option Char} {k : Nat} {cs : List Char} {p : Nat × Nat} :
    p ∈ fromKeywords prev k cs ↔ ∃ as c bs len, cs = as ++ c :: bs ∧
      scanAt (lastOr prev as) c bs = .fromKeyword len ∧
      p = (k + as.length, k + as.length + len) := by
  induction cs generalizing prev k with
  | nil => simp [fromKeywords]
  | cons a cs ih =>
      rw [fromKeywords, List.mem_append, mem_fromSpan, ih]
      constructor
      · rintro (⟨len, hat, hp⟩ | ⟨as, c, bs, len, hcs, hat, hp⟩)
        · exact ⟨[], a, cs, len, rfl, hat, hp⟩
        · refine ⟨a :: as, c, bs, len, by rw [hcs]; rfl, by rwa [lastOr_cons], ?_⟩
          rw [hp, List.length_cons, show k + 1 + as.length = k + (as.length + 1) by omega]
      · rintro ⟨as, c, bs, len, hcs, hat, hp⟩
        cases as with
        | nil =>
            obtain ⟨rfl, rfl⟩ := List.cons.inj hcs
            exact Or.inl ⟨len, hat, hp⟩
        | cons d as =>
            obtain ⟨rfl, rfl⟩ := List.cons.inj hcs
            refine Or.inr ⟨as, c, bs, len, rfl, by rwa [lastOr_cons] at hat, ?_⟩
            rw [hp, List.length_cons, show k + 1 + as.length = k + (as.length + 1) by omega]

/-! ## The table reference -/

/-- `IsIdentStart` followed by `IsIdentChar`s. -/
def IsIdent (w : List Char) : Prop :=
  ∃ c cs, w = c :: cs ∧ isIdentStart c = true ∧ ∀ x ∈ cs, isIdentChar x = true

/-- Names with dots between them. -/
def joinDots : List (List Char) → List Char
  | [] => []
  | [w] => w
  | w :: ws => w ++ '.' :: joinDots ws

/-- The text the reference loop reads: names joined by dots, and a dot after the
last one only where the text ends. -/
structure RefText (names : List (List Char)) (dot : Bool) (rest : List Char) : Prop where
  idents : ∀ w ∈ names, IsIdent w
  dotEnds : dot = true → rest = []
  boundary : rest.head?.any isIdentChar = false

def refDot (dot : Bool) : List Char := if dot then ['.'] else []

theorem refLoop_inPart {parts len : Nat} {cs rest : List Char} {parts' len' : Nat}
    (h : refLoop true parts len cs = some (parts', len', rest)) :
    ∃ w cs', cs = w ++ cs' ∧ (∀ x ∈ w, isIdentChar x = true) ∧
      ((rest = cs' ∧ cs'.head?.any isIdentChar = false ∧ parts' = parts + 1 ∧
          len' = len + w.length) ∨
        (∃ cs'', cs' = '.' :: cs'' ∧
          refLoop false (parts + 1) (len + w.length + 1) cs'' = some (parts', len', rest))) := by
  induction cs generalizing len with
  | nil =>
      simp only [refLoop, Option.some.injEq, Prod.mk.injEq] at h
      obtain ⟨rfl, rfl, rfl⟩ := h
      exact ⟨[], [], rfl, by simp, Or.inl ⟨rfl, by simp, rfl, by simp⟩⟩
  | cons c cs ih =>
      rw [refLoop] at h
      by_cases hc : isIdentChar c = true
      · rw [if_pos hc] at h
        obtain ⟨w, cs', rfl, hw, hcase⟩ := ih h
        refine ⟨c :: w, cs', rfl, ?_, ?_⟩
        · intro x hx
          rcases List.mem_cons.1 hx with rfl | hx
          · exact hc
          · exact hw x hx
        · rw [List.length_cons, show len + (w.length + 1) = len + 1 + w.length by omega]
          exact hcase
      · rw [if_neg hc] at h
        refine ⟨[], c :: cs, rfl, by simp, ?_⟩
        by_cases hdot : (c == '.') = true
        · rw [if_pos hdot] at h
          rw [beq_iff_eq] at hdot
          exact Or.inr ⟨cs, by rw [hdot], h⟩
        · rw [if_neg hdot] at h
          simp only [Option.some.injEq, Prod.mk.injEq] at h
          obtain ⟨rfl, rfl, rfl⟩ := h
          exact Or.inl ⟨rfl, by simpa using hc, rfl, by simp⟩

theorem joinDots_cons {w : List Char} {ws : List (List Char)} (hws : ws ≠ []) :
    joinDots (w :: ws) = w ++ '.' :: joinDots ws := by
  cases ws with
  | nil => exact absurd rfl hws
  | cons v ws => rfl

theorem refLoop_start {fuel parts len : Nat} {cs rest : List Char} {parts' len' : Nat}
    (hfuel : cs.length ≤ fuel)
    (h : refLoop false parts len cs = some (parts', len', rest)) :
    ∃ names dot, cs = joinDots names ++ refDot dot ++ rest ∧ RefText names dot rest ∧
      parts' = parts + names.length ∧ (dot = true → names ≠ []) ∧ (names = [] → rest = []) ∧
      len' = len + (joinDots names ++ refDot dot).length := by
  induction fuel generalizing cs parts len with
  | zero =>
      have hnil : cs = [] := List.length_eq_zero_iff.1 (by omega)
      subst hnil
      simp only [refLoop, Option.some.injEq, Prod.mk.injEq] at h
      obtain ⟨rfl, rfl, rfl⟩ := h
      exact ⟨[], false, rfl, ⟨by simp, by simp, by simp⟩, rfl, by simp, by simp, rfl⟩
  | succ fuel ih =>
      cases cs with
      | nil =>
          simp only [refLoop, Option.some.injEq, Prod.mk.injEq] at h
          obtain ⟨rfl, rfl, rfl⟩ := h
          exact ⟨[], false, rfl, ⟨by simp, by simp, by simp⟩, rfl, by simp, by simp, rfl⟩
      | cons c cs =>
          rw [refLoop] at h
          by_cases hc : isIdentStart c = true
          · rw [if_pos hc] at h
            obtain ⟨w, cs', rfl, hw, hcase⟩ := refLoop_inPart h
            have hident : IsIdent (c :: w) := ⟨c, w, rfl, hc, hw⟩
            rcases hcase with ⟨rfl, hbound, hparts, hlen⟩ | ⟨cs'', rfl, hnext⟩
            · refine ⟨[c :: w], false, ?_, ⟨?_, by simp, hbound⟩, hparts, by simp, by simp, ?_⟩
              · simp [joinDots, refDot]
              · simpa using hident
              · simp [joinDots, refDot]
                omega
            · -- a dot: either the last thing of the text, or followed by another name
              have hshort : cs''.length ≤ fuel := by
                simp only [List.length_cons, List.length_append] at hfuel
                omega
              obtain ⟨names, dot, htext, href, hparts, hdot, hrest, hlen⟩ := ih hshort hnext
              cases names with
              | nil =>
                  have hdot' : dot = false := by
                    cases dot with
                    | false => rfl
                    | true => exact absurd rfl (hdot rfl)
                  subst hdot'
                  have hrest := hrest rfl
                  subst hrest
                  refine ⟨[c :: w], true, ?_, ⟨by simpa using hident, by simp, by simp⟩,
                    ?_, by simp, by simp, ?_⟩
                  · simp [htext, joinDots, refDot]
                  · simp [hparts]
                  · simp [hlen, joinDots, refDot]
                    omega
              | cons v names =>
                  refine ⟨(c :: w) :: v :: names, dot, ?_, ⟨?_, href.dotEnds, href.boundary⟩,
                    ?_, by simp, by simp, ?_⟩
                  · simp [htext, joinDots]
                  · intro x hx
                    rcases List.mem_cons.1 hx with rfl | hx
                    · exact hident
                    · exact href.idents x hx
                  · simp [hparts]
                    omega
                  · simp [hlen, joinDots]
                    omega
          · rw [if_neg hc] at h
            cases h

/-! ## What an accepted text looks like -/

/-- The pieces of an accepted text, in order. -/
structure Shape where
  blanks : List Char
  selectKw : List Char
  list : List Char
  fromKw : List Char
  gap : List Char
  names : List (List Char)
  dot : Bool
  bareAlias : Option (List Char × List Char)
  trail : List Char

namespace Shape

/-- The table reference. -/
def ref (p : Shape) : List Char := joinDots p.names ++ refDot p.dot

/-- The alias with the blanks before it. -/
def tail (p : Shape) : List Char := (p.bareAlias.map fun a => a.1 ++ a.2).getD []

/-- The text after `SELECT`, less the trailer. -/
def rest (p : Shape) : List Char := p.list ++ (p.fromKw ++ (p.gap ++ (p.ref ++ p.tail)))

/-- The text less the trailer. -/
def body (p : Shape) : List Char := p.blanks ++ (p.selectKw ++ p.rest)

/-- The spans the scanner reports for these pieces. -/
def spans (p : Shape) : SelectSpans where
  listOff := p.blanks.length + p.selectKw.length
  listLen := p.list.length
  tblOff := p.blanks.length + p.selectKw.length + p.list.length + p.fromKw.length + p.gap.length
  tblLen := p.ref.length

end Shape

/-- The characters `trimEnd` takes off. -/
def isTrailer (c : Char) : Bool := isSpace c || c == ';'

/-- `p` are the pieces of the accepted text `sql`. -/
structure Parsed (sql : List Char) (p : Shape) : Prop where
  text : sql = p.body ++ p.trail
  trimmed : trimEnd sql = p.body
  trail : ∀ c ∈ p.trail, isTrailer c = true
  blanks : ∀ c ∈ p.blanks, isSpace c = true
  selectKw : lower p.selectKw = lower selectWord
  listHead : p.list.head?.any isIdentChar = false
  listLast : p.list.getLast?.any isIdentChar = false
  listNonblank : ∃ c ∈ p.list, isSpace c = false
  fromKw : lower p.fromKw = lower fromWord
  gapNonempty : p.gap ≠ []
  gap : ∀ c ∈ p.gap, isSpace c = true
  names : ∀ w ∈ p.names, IsIdent w
  parts : 1 ≤ p.names.length ∧ p.names.length ≤ 3
  dotEnds : p.dot = true → p.bareAlias = none
  bareAlias : ∀ a, p.bareAlias = some a →
    a.1 ≠ [] ∧ (∀ c ∈ a.1, isSpace c = true) ∧ IsIdent a.2
  passes : ∀ as c bs, p.rest = as ++ c :: bs → scanAt (lastOr none as) c bs ≠ .reject
  onlyFrom : ∀ as c bs len, p.rest = as ++ c :: bs →
    scanAt (lastOr none as) c bs = .fromKeyword len → as = p.list

theorem skipSpace_split (s : List Char) :
    ∃ ws rest, s = ws ++ rest ∧ skipSpace s = ws.length ∧ (∀ c ∈ ws, isSpace c = true) ∧
      rest.head?.any isSpace = false ∧ rest = s.dropWhile isSpace := by
  refine ⟨s.takeWhile isSpace, s.dropWhile isSpace, List.takeWhile_append_dropWhile.symm, rfl,
    ?_, ?_, rfl⟩
  · intro c hc
    exact List.mem_takeWhile_imp hc
  · have h := List.head?_dropWhile_not isSpace s
    cases hd : (s.dropWhile isSpace).head? with
    | none => rfl
    | some c => simpa [hd] using h

theorem trimEnd_split (sql : List Char) :
    ∃ trail, sql = trimEnd sql ++ trail ∧ (∀ c ∈ trail, isTrailer c = true) ∧
      (trimEnd sql).getLast?.any isTrailer = false := by
  refine ⟨sql.rtakeWhile isTrailer, List.rdropWhile_append_rtakeWhile.symm, ?_, ?_⟩
  · intro c hc
    exact List.mem_rtakeWhile_imp hc
  · by_cases hnil : trimEnd sql = []
    · simp [hnil]
    · rw [List.getLast?_eq_getLast_of_ne_nil hnil]
      have h : ¬ isTrailer ((trimEnd sql).getLast hnil) = true :=
        List.rdropWhile_last_not isTrailer sql hnil
      simpa using h

/-- An accepted remainder is a bare alias with blanks around it, or blanks. -/
theorem aliasAccepted_split {rest : List Char} (h : aliasAccepted rest = true) :
    (∀ c ∈ rest, isSpace c = true) ∨
      ∃ sp w tl, rest = sp ++ w ++ tl ∧ (∀ c ∈ sp, isSpace c = true) ∧ IsIdent w ∧
        ∀ c ∈ tl, isSpace c = true := by
  obtain ⟨sp, r, hrest, _, hsp, _, hr⟩ := skipSpace_split rest
  unfold aliasAccepted at h
  rw [← hr] at h
  cases r with
  | nil => exact Or.inl (by simpa [hrest] using hsp)
  | cons c cs =>
      simp only [Bool.and_eq_true, List.isEmpty_iff] at h
      refine Or.inr ⟨sp, c :: cs.takeWhile isIdentChar, cs.dropWhile isIdentChar, ?_, hsp,
        ⟨c, _, rfl, h.1, fun x hx => List.mem_takeWhile_imp hx⟩, ?_⟩
      · rw [hrest, List.append_assoc, List.cons_append, List.takeWhile_append_dropWhile]
      · exact List.dropWhile_eq_nil_iff.1 h.2

/-- The tail of an accepted text whose last character is no blank. -/
theorem tail_split {pre rest : List Char} (h : aliasAccepted rest = true)
    (hrest : rest.head?.any isIdentChar = false)
    (hlast : (pre ++ rest).getLast?.any isTrailer = false) :
    ∃ al : Option (List Char × List Char), rest = (al.map fun a => a.1 ++ a.2).getD [] ∧
      ∀ a, al = some a → a.1 ≠ [] ∧ (∀ c ∈ a.1, isSpace c = true) ∧ IsIdent a.2 := by
  have hspaces : ∀ tl, (∀ c ∈ tl, isSpace c = true) → ∀ xs, xs ++ tl = pre ++ rest → tl = [] := by
    intro tl htl xs heq
    by_contra hne
    rw [← heq, List.getLast?_append_of_ne_nil _ hne, List.getLast?_eq_getLast_of_ne_nil hne]
      at hlast
    have hsp := htl _ (List.getLast_mem hne)
    simp [isTrailer, hsp] at hlast
  rcases aliasAccepted_split h with hall | ⟨sp, w, tl, rfl, hsp, hw, htl⟩
  · exact ⟨none, hspaces rest hall pre rfl, by simp⟩
  · have hnil := hspaces tl htl (pre ++ (sp ++ w)) (by simp)
    subst hnil
    refine ⟨some (sp, w), by simp, ?_⟩
    intro a ha
    cases ha
    refine ⟨?_, hsp, hw⟩
    intro hsp0
    obtain ⟨c, cs, rfl, hc, _⟩ := hw
    simp only at hsp0
    simp [hsp0, isIdentChar_of_isIdentStart hc] at hrest

theorem isIdent_head {w : List Char} (h : IsIdent w) (cs : List Char) :
    (w ++ cs).head?.any isIdentChar = true := by
  obtain ⟨c, w, rfl, hc, _⟩ := h
  simp [isIdentChar_of_isIdentStart hc]

theorem joinDots_head {names : List (List Char)} (hnames : names ≠ [])
    (h : ∀ w ∈ names, IsIdent w) (cs : List Char) :
    (joinDots names ++ cs).head?.any isIdentChar = true := by
  cases names with
  | nil => exact absurd rfl hnames
  | cons w ws =>
      have hw := h w (by simp)
      cases ws with
      | nil => exact isIdent_head hw cs
      | cons v ws =>
          rw [joinDots_cons (by simp), List.append_assoc]
          exact isIdent_head hw _

/-- A scan that counts one `FROM` cuts the text at it. -/
theorem scanLoop_one {k : Nat} {cs : List Char} {found : FromFound}
    (h : scanLoop none 0 k cs ⟨0, 0, 0⟩ = some found) (hcount : found.count = 1) :
    ∃ list fromKw rest, cs = list ++ (fromKw ++ rest) ∧ lower fromKw = lower fromWord ∧
      list.getLast?.any isIdentChar = false ∧ rest.head?.any isIdentChar = false ∧
      found.start = k + list.length ∧ found.stop = k + list.length + fromKw.length ∧
      ∀ as c bs len, cs = as ++ c :: bs →
        scanAt (lastOr none as) c bs = .fromKeyword len → as = list := by
  obtain ⟨hlen, hspan⟩ := scanLoop_found (Or.inl rfl) h
  rw [hcount, Nat.zero_add] at hlen
  obtain ⟨p, hp⟩ := List.length_eq_one_iff.1 hlen.symm
  have hspan' : (found.start, found.stop) = p := by rw [hspan, hp]; rfl
  obtain ⟨list, c, bs, len, hcs, hat, hpe⟩ :=
    mem_fromKeywords.1 (show p ∈ fromKeywords none k cs by rw [hp]; simp)
  obtain ⟨hprev, hmatch⟩ := scanAt_eq_fromKeyword hat
  obtain ⟨fromKw, rest, hkw, hlower, hrest, hlenKw⟩ := matchWord_eq_some.1 hmatch
  have hkwLen : fromKw.length = len := by
    rw [hlenKw, ← lower_length fromKw, hlower, lower_length]
  rw [hpe, Prod.mk.injEq] at hspan'
  refine ⟨list, fromKw, rest, by rw [hcs, hkw], hlower, ?_, hrest, hspan'.1, ?_, ?_⟩
  · simpa [lastOr] using hprev
  · rw [hspan'.2, hkwLen]
  · intro as d ds len' hcs' hat'
    have hmem : (k + as.length, k + as.length + len') ∈ fromKeywords none k cs :=
      mem_fromKeywords.2 ⟨as, d, ds, len', hcs', hat', rfl⟩
    rw [hp, List.mem_singleton, hpe, Prod.mk.injEq] at hmem
    have heq : as ++ d :: ds = list ++ c :: bs := by rw [← hcs', ← hcs]
    exact (List.append_inj heq (by omega)).1

theorem length_eq_of_lower {kw w : List Char} (h : lower kw = lower w) :
    kw.length = w.length := by
  rw [← lower_length kw, h, lower_length]

theorem list_head_ne_nil {list rest : List Char} (h : ∃ c ∈ list, isSpace c = false) :
    (list ++ rest).head? = list.head? := by
  cases list with
  | nil => simp at h
  | cons c list => rfl

/-- The text after a piece of known length. -/
theorem drop_piece {whole xs ys : List Char} {n : Nat} (h : whole = xs ++ ys)
    (hn : xs.length = n) : whole.drop n = ys := by
  rw [h]
  exact List.drop_left' hn

theorem parseSimpleSelect_parsed {sql : List Char} {spans : SelectSpans}
    (h : parseSimpleSelect sql = some spans) : ∃ p, Parsed sql p ∧ spans = p.spans := by
  obtain ⟨trail, htext, htrail, hlast⟩ := trimEnd_split sql
  unfold parseSimpleSelect at h
  generalize htrim : trimEnd sql = s at h htext hlast
  obtain ⟨blanks, s1, rfl, hskip, hblanks, -, -⟩ := skipSpace_split s
  simp only [hskip, List.drop_left] at h
  cases hselect : matchWord s1 selectWord with
  | none => simp [hselect] at h
  | some selectLen =>
  simp only [hselect] at h
  obtain ⟨selectKw, s2, rfl, hselectKw, hs2, hselectLen⟩ := matchWord_eq_some.1 hselect
  have hkwLen : selectKw.length = selectLen := by
    rw [hselectLen, length_eq_of_lower hselectKw]
  subst hkwLen
  have hdrop : (blanks ++ (selectKw ++ s2)).drop (blanks.length + selectKw.length) = s2 :=
    drop_piece (List.append_assoc _ _ _).symm (List.length_append)
  rw [hdrop] at h
  cases hscan : scanLoop none 0 (blanks.length + selectKw.length) s2 ⟨0, 0, 0⟩ with
  | none => simp [hscan] at h
  | some found =>
  simp only [hscan] at h
  by_cases hcount : found.count = 1
  swap
  · simp [hcount] at h
  obtain ⟨list, fromKw, s3, rfl, hfromKw, hlistLast, hs3, hstart, hstop, honly⟩ :=
    scanLoop_one hscan hcount
  obtain ⟨gap, s4, rfl, hskip3, hgap, -, -⟩ := skipSpace_split s3
  have hdropStop : (blanks ++ (selectKw ++ (list ++ (fromKw ++ (gap ++ s4))))).drop found.stop =
      gap ++ s4 :=
    @drop_piece _ (blanks ++ selectKw ++ list ++ fromKw) _ _ (by simp) (by simp; omega)
  have hdropT : (blanks ++ (selectKw ++ (list ++ (fromKw ++ (gap ++ s4))))).drop
      (found.stop + gap.length) = s4 :=
    @drop_piece _ (blanks ++ selectKw ++ list ++ fromKw ++ gap) _ _ (by simp) (by simp; omega)
  have hlistLen : found.start - (blanks.length + selectKw.length) = list.length := by omega
  rw [hdropStop, hskip3, hdropT, hlistLen, List.take_left] at h
  by_cases hnonblank : list.any (fun c => !isSpace c) = true
  swap
  · simp [hcount, hnonblank] at h
  cases href : refLoop false 0 0 s4 with
  | none => simp [href] at h
  | some out =>
  obtain ⟨parts, tblLen, rest⟩ := out
  simp only [href, hcount, hnonblank] at h
  by_cases hparts : parts < 1 ∨ 3 < parts
  · rcases hparts with hparts | hparts <;> simp [hparts] at h
  by_cases halias : aliasAccepted rest = true
  swap
  · simp [halias] at h
  by_cases hpos : 0 < tblLen
  swap
  · simp [hpos] at h
  obtain ⟨names, dot, rfl, hreftext, hpartsEq, hdot, -, hlenEq⟩ := refLoop_start le_rfl href
  have hnames : names ≠ [] := by
    rintro rfl
    simp at hpartsEq
    omega
  have hnonblank' : ∃ c ∈ list, isSpace c = false := by simpa using hnonblank
  obtain ⟨al, hal, halspec⟩ := @tail_split
    (blanks ++ selectKw ++ list ++ fromKw ++ gap ++ (joinDots names ++ refDot dot)) rest
    halias hreftext.boundary (by simpa using hlast)
  have hgapne : gap ≠ [] := by
    rintro rfl
    rw [List.nil_append, List.append_assoc,
      joinDots_head hnames hreftext.idents] at hs3
    cases hs3
  have hdotEnds : dot = true → al = none := by
    intro hd
    cases al with
    | none => rfl
    | some a =>
        have hnil := hreftext.dotEnds hd
        rw [hal] at hnil
        exact absurd (List.append_eq_nil_iff.1 hnil).1 (halspec a rfl).1
  refine ⟨⟨blanks, selectKw, list, fromKw, gap, names, dot, al, trail⟩, ?_, ?_⟩
  · exact {
      text := by simp [htext, Shape.body, Shape.rest, Shape.ref, Shape.tail, hal]
      trimmed := by simp [htrim, Shape.body, Shape.rest, Shape.ref, Shape.tail, hal]
      trail := htrail
      blanks := hblanks
      selectKw := hselectKw
      listHead := by rwa [list_head_ne_nil hnonblank'] at hs2
      listLast := hlistLast
      listNonblank := hnonblank'
      fromKw := hfromKw
      gapNonempty := hgapne
      gap := hgap
      names := hreftext.idents
      parts := by dsimp only; omega
      dotEnds := hdotEnds
      bareAlias := halspec
      passes := fun as c bs heq => scanLoop_passes (Or.inl rfl) hscan (by
        rw [← heq]; simp [Shape.rest, Shape.ref, Shape.tail, hal])
      onlyFrom := fun as c bs len heq hat => honly as c bs len (by
        rw [← heq]; simp [Shape.rest, Shape.ref, Shape.tail, hal]) hat }
  · have hend : 0 < tblLen := hpos
    simp [halias, hend] at h
    rw [← h.2, Shape.spans, SelectSpans.mk.injEq]
    exact ⟨rfl, rfl, by rw [hstop], by rw [hlenEq, Nat.zero_add]; rfl⟩

end AdbcBridge.Partition.Scanner
