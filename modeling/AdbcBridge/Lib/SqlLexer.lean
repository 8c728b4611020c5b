import Mathlib

/-!
# A SQL lexer

Words, numbers, quoted text and symbols, with `--` and block comments skipped.
A number is a run of digits and ends where a letter starts, so `1union` is the
number `1` and the word `union`; a word remembers whether it was glued in this
way to a digit or to a `$`.  Bytes outside ASCII are letters.

The lexer is a state machine over the characters.  What the proofs need of it is
that it can be cut at any point (`run_append`), that it forgets its past where a
token ends (`lex_append_of_breaks`), and that every word token is a maximal run
of word characters of the text (`mem_lex_occurs`).
-/

namespace AdbcBridge.Lib.SqlLexer

/-! ## Characters -/

def isDigit (c : Char) : Bool := '0' ≤ c && c ≤ '9'

def isAsciiLetter (c : Char) : Bool :=
  ('a' ≤ c && c ≤ 'z') || ('A' ≤ c && c ≤ 'Z') || c == '_'

/-- A character outside ASCII. -/
def isExtended (c : Char) : Bool := 128 ≤ c.toNat

def isLetter (c : Char) : Bool := isAsciiLetter c || isExtended c

def isWordChar (c : Char) : Bool := isLetter c || isDigit c || c == '$'

def isBlank (c : Char) : Bool :=
  c == ' ' || c == '\t' || c == '\n' || c == '\r' || c == '\x0c'

/-- The closing character of the quoted text that `c` opens. -/
def closingQuote (c : Char) : Option Char :=
  if c = '\x27' then some '\x27'
  else if c = '\x22' then some '\x22'
  else if c = '\x60' then some '\x60'
  else if c = '[' then some ']'
  else none

/-! ## Tokens and the state machine -/

inductive Token where
  | word (glued : Bool) (text : List Char)
  | number (text : List Char)
  | quoted (text : List Char)
  | symbol (c : Char)
deriving DecidableEq, Repr

/-- The lexer's state: the token being read, or the gap between two tokens
(`glued` after a `$`). -/
inductive Mode where
  | gap (glued : Bool)
  | word (glued : Bool) (text : List Char)
  | number (text : List Char)
  | quoted (close : Char) (text : List Char)
  | dash
  | slash
  | lineComment
  | blockComment (star : Bool)
deriving DecidableEq, Repr

/-- The first character of a token. -/
def start (glued : Bool) (c : Char) : List Token × Mode :=
  if isBlank c then ([], .gap false)
  else if isLetter c then ([], .word glued [c])
  else if isDigit c then ([], .number [c])
  else if c = '-' then ([], .dash)
  else if c = '/' then ([], .slash)
  else
    match closingQuote c with
    | some close => ([], .quoted close [c])
    | none => ([.symbol c], .gap (c == '$'))

/-- Put a finished token before what the next character gives. -/
def after (token : Token) (next : List Token × Mode) : List Token × Mode :=
  (token :: next.1, next.2)

def step : Mode → Char → List Token × Mode
  | .gap glued, c => start glued c
  | .word glued text, c =>
      if isWordChar c then ([], .word glued (text ++ [c]))
      else after (.word glued text) (start false c)
  | .number text, c =>
      if isDigit c then ([], .number (text ++ [c]))
      else after (.number text) (start true c)
  | .quoted close text, c =>
      if c = close then ([.quoted (text ++ [c])], .gap false)
      else ([], .quoted close (text ++ [c]))
  | .dash, c =>
      if c = '-' then ([], .lineComment) else after (.symbol '-') (start false c)
  | .slash, c =>
      if c = '*' then ([], .blockComment false) else after (.symbol '/') (start false c)
  | .lineComment, c =>
      if c = '\n' then ([], .gap false) else ([], .lineComment)
  | .blockComment star, c =>
      if star && c == '/' then ([], .gap false) else ([], .blockComment (c == '*'))

/-- The token that the end of the text finishes. -/
def flush : Mode → List Token
  | .gap _ => []
  | .word glued text => [.word glued text]
  | .number text => [.number text]
  | .quoted _ text => [.quoted text]
  | .dash => [.symbol '-']
  | .slash => [.symbol '/']
  | .lineComment => []
  | .blockComment _ => []

def run (m : Mode) : List Char → List Token
  | [] => flush m
  | c :: cs => (step m c).1 ++ run (step m c).2 cs

/-- The tokens of a text. -/
def lex (cs : List Char) : List Token := run (.gap false) cs

/-- The state after a text. -/
def modeAfter (m : Mode) : List Char → Mode
  | [] => m
  | c :: cs => modeAfter (step m c).2 cs

/-- The tokens finished inside a text. -/
def emitted (m : Mode) : List Char → List Token
  | [] => []
  | c :: cs => (step m c).1 ++ emitted (step m c).2 cs

/-! ## Cutting a text -/

theorem run_eq (m : Mode) (cs : List Char) :
    run m cs = emitted m cs ++ flush (modeAfter m cs) := by
  induction cs generalizing m with
  | nil => simp [run, emitted, modeAfter]
  | cons c cs ih => simp [run, emitted, modeAfter, ih]

theorem run_append (m : Mode) (as bs : List Char) :
    run m (as ++ bs) = emitted m as ++ run (modeAfter m as) bs := by
  induction as generalizing m with
  | nil => simp [emitted, modeAfter]
  | cons c as ih => simp [run, emitted, modeAfter, ih]

theorem modeAfter_append (m : Mode) (as bs : List Char) :
    modeAfter m (as ++ bs) = modeAfter (modeAfter m as) bs := by
  induction as generalizing m with
  | nil => rfl
  | cons c as ih => simp [modeAfter, ih]

/-- The character finishes the pending token and starts afresh. -/
def Breaks (m : Mode) (c : Char) : Prop :=
  step m c = (flush m ++ (start false c).1, (start false c).2)

theorem lex_append_of_breaks {as : List Char} {c : Char} (cs : List Char)
    (h : Breaks (modeAfter (.gap false) as) c) :
    lex (as ++ c :: cs) = lex as ++ lex (c :: cs) := by
  have hcut : run (modeAfter (.gap false) as) (c :: cs) =
      flush (modeAfter (.gap false) as) ++ lex (c :: cs) := by
    rw [run, h, List.append_assoc]
    rfl
  have has : lex as = emitted (.gap false) as ++ flush (modeAfter (.gap false) as) :=
    run_eq _ _
  rw [lex, run_append, hcut, has, List.append_assoc]

theorem breaks_gap (c : Char) : Breaks (.gap false) c := by
  simp [Breaks, step, flush]

theorem breaks_word {c : Char} (h : isWordChar c = false) (glued : Bool) (text : List Char) :
    Breaks (.word glued text) c := by
  simp [Breaks, step, flush, h, after]

theorem breaks_dash {c : Char} (h : c ≠ '-') : Breaks .dash c := by
  simp [Breaks, step, flush, h, after]

theorem breaks_slash {c : Char} (h : c ≠ '*') : Breaks .slash c := by
  simp [Breaks, step, flush, h, after]

theorem start_eq_of_not_letter {c : Char} (h : isLetter c = false) (glued : Bool) :
    start glued c = start false c := by
  simp [start, h]

theorem breaks_gap_of_not_letter {c : Char} (h : isLetter c = false) (glued : Bool) :
    Breaks (.gap glued) c := by
  simp [Breaks, step, flush, start_eq_of_not_letter h glued]

theorem breaks_number {c : Char} (h : isLetter c = false) (hd : isDigit c = false)
    (text : List Char) : Breaks (.number text) c := by
  simp [Breaks, step, flush, hd, after, start_eq_of_not_letter h true]

theorem isLetter_of_not_wordChar {c : Char} (h : isWordChar c = false) :
    isLetter c = false := by
  simp only [isWordChar, Bool.or_eq_false_iff] at h
  exact h.1.1

theorem isDigit_of_not_wordChar {c : Char} (h : isWordChar c = false) :
    isDigit c = false := by
  simp only [isWordChar, Bool.or_eq_false_iff] at h
  exact h.1.2

/-! ## Words of a text -/

/-- A letter followed by word characters. -/
def IsWord (w : List Char) : Prop :=
  ∃ c cs, w = c :: cs ∧ isLetter c = true ∧ ∀ x ∈ cs, isWordChar x = true

/-- A word may start after `pre`: its last character is no letter, and the word
is glued exactly if it is a digit or a `$`. -/
def Starts (glued : Bool) (pre : List Char) : Prop :=
  pre.getLast?.any isWordChar = glued ∧ pre.getLast?.any isLetter = false

/-- `w` is a maximal run of word characters of `s`, up to a glued number. -/
def Occurs (glued : Bool) (w s : List Char) : Prop :=
  ∃ as bs, s = as ++ w ++ bs ∧ IsWord w ∧ Starts glued as ∧
    bs.head?.any isWordChar = false

/-- What the lexer's state says of the text read so far. -/
def Tracks : Mode → List Char → Prop
  | .gap glued, pre => Starts glued pre
  | .word glued text, pre => ∃ as, pre = as ++ text ∧ IsWord text ∧ Starts glued as
  | .number _, pre => Starts true pre
  | .quoted close _, _ => isWordChar close = false
  | .dash, pre => Starts false pre
  | .slash, pre => Starts false pre
  | .lineComment, _ => True
  | .blockComment _, _ => True

theorem IsWord.snoc {w : List Char} (h : IsWord w) {c : Char} (hc : isWordChar c = true) :
    IsWord (w ++ [c]) := by
  obtain ⟨a, cs, rfl, ha, hcs⟩ := h
  refine ⟨a, cs ++ [c], rfl, ha, ?_⟩
  intro x hx
  rcases List.mem_append.1 hx with hx | hx
  · exact hcs x hx
  · rwa [List.mem_singleton.1 hx]

theorem isWord_singleton {c : Char} (h : isLetter c = true) : IsWord [c] :=
  ⟨c, [], rfl, h, by simp⟩

theorem starts_snoc {c : Char} (pre : List Char) (h : isLetter c = false) :
    Starts (isWordChar c) (pre ++ [c]) := by
  simp [Starts, h]

theorem starts_snoc_false {c : Char} (pre : List Char) (h : isWordChar c = false) :
    Starts false (pre ++ [c]) := by
  simp [Starts, h, isLetter_of_not_wordChar h]

theorem isWordChar_of_isBlank {c : Char} (h : isBlank c = true) : isWordChar c = false := by
  simp only [isBlank, Bool.or_eq_true, beq_iff_eq] at h
  rcases h with (((h | h) | h) | h) | h <;> subst h <;> decide

theorem isLetter_of_isDigit {c : Char} (h : isDigit c = true) : isLetter c = false := by
  simp only [isDigit, Bool.and_eq_true, decide_eq_true_eq] at h
  have h0 : 48 ≤ c.toNat := h.1
  have h9 : c.toNat ≤ 57 := h.2
  have ha : ¬ 97 ≤ c.toNat := by omega
  have hA : ¬ 65 ≤ c.toNat := by omega
  have hlower : ('a' ≤ c) = False := eq_false ha
  have hupper : ('A' ≤ c) = False := eq_false hA
  have hscore : (c == '_') = false := by
    rw [beq_eq_false_iff_ne]
    rintro rfl
    exact absurd h9 (by decide)
  simp [isLetter, isAsciiLetter, isExtended, hlower, hupper, hscore]
  omega

theorem closingQuote_not_wordChar {c close : Char} (h : closingQuote c = some close) :
    isWordChar close = false := by
  unfold closingQuote at h
  split at h
  · cases h; decide
  split at h
  · cases h; decide
  split at h
  · cases h; decide
  split at h
  · cases h; decide
  · cases h

/-- A character that is no letter leaves a state that fits any text before it. -/
theorem start_tracks_of_not_letter {c : Char} (hletter : isLetter c = false) (glued : Bool)
    (pre : List Char) : Tracks (start glued c).2 (pre ++ [c]) := by
  unfold start
  by_cases hblank : isBlank c = true
  · rw [if_pos hblank]
    exact starts_snoc_false pre (isWordChar_of_isBlank hblank)
  rw [if_neg hblank, if_neg (by simp [hletter])]
  have hsnoc := starts_snoc pre hletter
  by_cases hdigit : isDigit c = true
  · rw [if_pos hdigit]
    rwa [show isWordChar c = true by simp [isWordChar, hdigit]] at hsnoc
  rw [if_neg hdigit]
  by_cases hdash : c = '-'
  · rw [if_pos hdash]
    subst hdash
    exact hsnoc
  rw [if_neg hdash]
  by_cases hslash : c = '/'
  · rw [if_pos hslash]
    subst hslash
    exact hsnoc
  rw [if_neg hslash]
  split
  · rename_i close hclose
    exact closingQuote_not_wordChar hclose
  · rwa [show isWordChar c = (c == '$') by simp [isWordChar, hletter, hdigit]] at hsnoc

/-- The first character of a token keeps the state in step with the text. -/
theorem start_tracks {glued : Bool} {pre : List Char} (hpre : Starts glued pre) (c : Char) :
    Tracks (start glued c).2 (pre ++ [c]) := by
  by_cases hletter : isLetter c = true
  · have hblank : isBlank c = false := by
      by_contra hblank
      have hnot := isLetter_of_not_wordChar (isWordChar_of_isBlank (by simpa using hblank))
      rw [hletter] at hnot
      cases hnot
    rw [start, if_neg (by simp [hblank]), if_pos hletter]
    exact ⟨pre, rfl, isWord_singleton hletter, hpre⟩
  · exact start_tracks_of_not_letter (by simpa using hletter) glued pre

theorem start_words {glued g : Bool} {c : Char} {w : List Char} :
    Token.word g w ∉ (start glued c).1 := by
  unfold start
  repeat' split
  all_goals simp

/-- The words a step finishes end right before the character it reads. -/
def EndsHere (pre : List Char) (c : Char) (g : Bool) (w : List Char) : Prop :=
  ∃ as, pre = as ++ w ∧ IsWord w ∧ Starts g as ∧ isWordChar c = false

theorem step_tracks {m : Mode} {pre : List Char} (h : Tracks m pre) (c : Char) :
    Tracks (step m c).2 (pre ++ [c]) ∧
      ∀ g w, Token.word g w ∈ (step m c).1 → EndsHere pre c g w := by
  cases m with
  | gap glued => exact ⟨start_tracks h c, fun g w hw => absurd hw start_words⟩
  | word glued text =>
      obtain ⟨as, hpre, hword, hstart⟩ := h
      by_cases hc : isWordChar c = true
      · simp only [step, if_pos hc]
        exact ⟨⟨as, by rw [hpre, List.append_assoc], hword.snoc hc, hstart⟩, by simp⟩
      · have hc : isWordChar c = false := by simpa using hc
        simp only [step, hc, Bool.false_eq_true, if_false, after, List.mem_cons]
        refine ⟨start_tracks_of_not_letter (isLetter_of_not_wordChar hc) false pre, ?_⟩
        rintro g w (hw | hw)
        · cases hw
          exact ⟨as, hpre, hword, hstart, hc⟩
        · exact absurd hw start_words
  | number text =>
      by_cases hc : isDigit c = true
      · simp only [step, if_pos hc]
        refine ⟨?_, by simp⟩
        have hletter : isLetter c = false := isLetter_of_isDigit hc
        have hsnoc := starts_snoc pre hletter
        rwa [show isWordChar c = true by simp [isWordChar, hc]] at hsnoc
      · simp only [step, hc, after]
        exact ⟨start_tracks h c, fun g w hw => absurd hw (by simp [start_words])⟩
  | quoted close text =>
      by_cases hc : c = close
      · subst hc
        simp only [step, if_true]
        exact ⟨starts_snoc_false pre h, by simp⟩
      · simp only [step, if_neg hc]
        exact ⟨h, by simp⟩
  | dash =>
      by_cases hc : c = '-'
      · simp only [step, if_pos hc]
        exact ⟨trivial, by simp⟩
      · simp only [step, if_neg hc, after, List.mem_cons]
        exact ⟨start_tracks h c, fun g w hw => absurd hw (by simp [start_words])⟩
  | slash =>
      by_cases hc : c = '*'
      · simp only [step, if_pos hc]
        exact ⟨trivial, by simp⟩
      · simp only [step, if_neg hc, after, List.mem_cons]
        exact ⟨start_tracks h c, fun g w hw => absurd hw (by simp [start_words])⟩
  | lineComment =>
      by_cases hc : c = '\n'
      · subst hc
        simp only [step, if_true]
        exact ⟨starts_snoc_false pre (by decide), by simp⟩
      · simp only [step, if_neg hc]
        exact ⟨trivial, by simp⟩
  | blockComment star =>
      by_cases hc : (star && c == '/') = true
      · have hslash : c = '/' := by simp only [Bool.and_eq_true, beq_iff_eq] at hc; exact hc.2
        simp only [step, if_pos hc]
        subst hslash
        exact ⟨starts_snoc_false pre (by decide), by simp⟩
      · simp only [step, hc]
        exact ⟨trivial, by simp⟩

theorem modeAfter_tracks {m : Mode} {pre : List Char} (h : Tracks m pre) (cs : List Char) :
    Tracks (modeAfter m cs) (pre ++ cs) := by
  induction cs generalizing m pre with
  | nil => simpa [modeAfter] using h
  | cons c cs ih =>
      have hnext := ih (step_tracks h c).1
      simpa [modeAfter] using hnext

/-- Every word token of a run is a maximal run of word characters. -/
theorem mem_run_occurs {m : Mode} {pre cs : List Char} (h : Tracks m pre) {g : Bool}
    {w : List Char} (hw : Token.word g w ∈ run m cs) : Occurs g w (pre ++ cs) := by
  induction cs generalizing m pre with
  | nil =>
      cases m <;> simp [run, flush] at hw
      obtain ⟨hg, hw⟩ := hw
      subst hg hw
      obtain ⟨as, hpre, hword, hstart⟩ := h
      exact ⟨as, [], by simp [hpre], hword, hstart, by simp⟩
  | cons c cs ih =>
      obtain ⟨hnext, hends⟩ := step_tracks h c
      rcases List.mem_append.1 hw with hw | hw
      · obtain ⟨as, hpre, hword, hstart, hc⟩ := hends g w hw
        exact ⟨as, c :: cs, by simp [hpre], hword, hstart, by simpa using hc⟩
      · simpa using ih hnext hw

theorem lex_tracks (s : List Char) : Tracks (modeAfter (.gap false) s) s := by
  have h := @modeAfter_tracks (.gap false) [] (by simp [Tracks, Starts]) s
  simpa using h

theorem mem_lex_occurs {s w : List Char} {g : Bool} (hw : Token.word g w ∈ lex s) :
    Occurs g w s := by
  have h := @mem_run_occurs (.gap false) [] s (by simp [Tracks, Starts]) g w hw
  simpa using h

/-! ## Text without quotes and comments -/

/-- No quote opens in the text, and no comment. -/
structure Plain (s : List Char) : Prop where
  quotes : ∀ c ∈ s, closingQuote c = none
  dashes : ∀ as bs, s ≠ as ++ '-' :: '-' :: bs
  stars : ∀ as bs, s ≠ as ++ '/' :: '*' :: bs

/-- The states the lexer can be in after plain text. -/
def PlainMode : Mode → List Char → Prop
  | .gap _, _ => True
  | .word _ _, _ => True
  | .number _, _ => True
  | .quoted _ _, _ => False
  | .dash, pre => ∃ as, pre = as ++ ['-']
  | .slash, pre => ∃ as, pre = as ++ ['/']
  | .lineComment, _ => False
  | .blockComment _, _ => False

theorem start_plain {c : Char} (h : closingQuote c = none) (glued : Bool) (pre : List Char) :
    PlainMode (start glued c).2 (pre ++ [c]) := by
  unfold start
  by_cases hblank : isBlank c = true
  · simp [hblank, PlainMode]
  by_cases hletter : isLetter c = true
  · simp [hblank, hletter, PlainMode]
  by_cases hdigit : isDigit c = true
  · simp [hblank, hletter, hdigit, PlainMode]
  by_cases hdash : c = '-'
  · rw [if_neg hblank, if_neg hletter, if_neg hdigit, if_pos hdash, hdash]
    exact ⟨pre, rfl⟩
  by_cases hslash : c = '/'
  · rw [if_neg hblank, if_neg hletter, if_neg hdigit, if_neg hdash, if_pos hslash, hslash]
    exact ⟨pre, rfl⟩
  simp [hblank, hletter, hdigit, hdash, hslash, h, PlainMode]

theorem step_plain {m : Mode} {pre : List Char} {c : Char} (h : PlainMode m pre)
    (hs : Plain (pre ++ [c])) : PlainMode (step m c).2 (pre ++ [c]) := by
  have hquote : closingQuote c = none := hs.quotes c (by simp)
  have hstart := fun glued => start_plain hquote glued pre
  cases m with
  | gap glued => exact hstart glued
  | word glued text =>
      simp only [step]
      split
      · trivial
      · exact hstart false
  | number text =>
      simp only [step]
      split
      · trivial
      · exact hstart true
  | dash =>
      obtain ⟨as, rfl⟩ := h
      have hc : c ≠ '-' := by
        rintro rfl
        exact hs.dashes as [] (by simp)
      simp only [step, if_neg hc]
      exact hstart false
  | slash =>
      obtain ⟨as, rfl⟩ := h
      have hc : c ≠ '*' := by
        rintro rfl
        exact hs.stars as [] (by simp)
      simp only [step, if_neg hc]
      exact hstart false
  | quoted close text => exact h.elim
  | lineComment => exact h.elim
  | blockComment star => exact h.elim

theorem Plain.of_append {as bs : List Char} (h : Plain (as ++ bs)) : Plain as where
  quotes c hc := h.quotes c (List.mem_append_left _ hc)
  dashes xs ys hxy := h.dashes xs (ys ++ bs) (by simp [hxy])
  stars xs ys hxy := h.stars xs (ys ++ bs) (by simp [hxy])

theorem modeAfter_plain {m : Mode} {pre : List Char} (h : PlainMode m pre) (cs : List Char)
    (hs : Plain (pre ++ cs)) : PlainMode (modeAfter m cs) (pre ++ cs) := by
  induction cs generalizing m pre with
  | nil => simpa [modeAfter] using h
  | cons c cs ih =>
      have hs' : Plain ((pre ++ [c]) ++ cs) := by simpa using hs
      have hnext := ih (step_plain h hs'.of_append) hs'
      simpa [modeAfter] using hnext

theorem lex_plain {s : List Char} (hs : Plain s) : PlainMode (modeAfter (.gap false) s) s := by
  have h := @modeAfter_plain (.gap false) [] trivial s (by simpa using hs)
  simpa using h

theorem isWord_getLast {w : List Char} (h : IsWord w) (as : List Char) :
    (as ++ w).getLast?.any isWordChar = true := by
  obtain ⟨c, cs, rfl, hc, hcs⟩ := h
  rw [List.getLast?_append_of_ne_nil _ (List.cons_ne_nil c cs),
    List.getLast?_eq_getLast_of_ne_nil (List.cons_ne_nil c cs)]
  have hmem := List.getLast_mem (List.cons_ne_nil c cs)
  rcases List.mem_cons.1 hmem with h | h
  · rw [h]; simp [isWordChar, hc]
  · simp [hcs _ h]

/-- After plain text a token ends where either side is no word character. -/
theorem breaks_of_plain {m : Mode} {pre : List Char} {c : Char} (htracks : Tracks m pre)
    (hplain : PlainMode m pre) (hdash : c ≠ '-') (hstar : c ≠ '*')
    (h : isWordChar c = false ∨ pre.getLast?.any isWordChar = false) : Breaks m c := by
  cases m with
  | gap glued =>
      rcases h with h | h
      · exact breaks_gap_of_not_letter (isLetter_of_not_wordChar h) glued
      · rw [htracks.1] at h
        rw [h]
        exact breaks_gap c
  | word glued text =>
      rcases h with h | h
      · exact breaks_word h glued text
      · obtain ⟨as, hpre, hword, _⟩ := htracks
        rw [hpre, isWord_getLast hword as] at h
        cases h
  | number text =>
      rcases h with h | h
      · exact breaks_number (isLetter_of_not_wordChar h) (isDigit_of_not_wordChar h) text
      · rw [htracks.1] at h
        cases h
  | dash => exact breaks_dash hdash
  | slash => exact breaks_slash hstar
  | quoted close text => exact hplain.elim
  | lineComment => exact hplain.elim
  | blockComment star => exact hplain.elim

theorem lex_append_of_plain {as : List Char} {c : Char} (cs : List Char) (hs : Plain as)
    (hdash : c ≠ '-') (hstar : c ≠ '*')
    (h : isWordChar c = false ∨ as.getLast?.any isWordChar = false) :
    lex (as ++ c :: cs) = lex as ++ lex (c :: cs) :=
  lex_append_of_breaks cs (breaks_of_plain (lex_tracks as) (lex_plain hs) hdash hstar h)

/-! ## Blanks, words and symbols -/

theorem lex_blank_cons {c : Char} (h : isBlank c = true) (cs : List Char) :
    lex (c :: cs) = lex cs := by
  simp [lex, run, step, start, h]

theorem lex_blanks_append {ws : List Char} (h : ∀ c ∈ ws, isBlank c = true) (cs : List Char) :
    lex (ws ++ cs) = lex cs := by
  induction ws with
  | nil => rfl
  | cons c ws ih =>
      rw [List.cons_append, lex_blank_cons (h c (by simp)), ih fun x hx => h x (by simp [hx])]

theorem modeAfter_wordChars {glued : Bool} (w : List Char) {cs : List Char}
    (h : ∀ c ∈ cs, isWordChar c = true) :
    modeAfter (.word glued w) cs = .word glued (w ++ cs) ∧ emitted (.word glued w) cs = [] := by
  induction cs generalizing w with
  | nil => simp [modeAfter, emitted]
  | cons c cs ih =>
      have hc := h c (by simp)
      obtain ⟨hmode, hemit⟩ := ih (w ++ [c]) fun x hx => h x (by simp [hx])
      simp [modeAfter, emitted, step, hc, hmode, hemit]

theorem isBlank_of_isLetter {c : Char} (h : isLetter c = true) : isBlank c = false := by
  by_contra hblank
  have hnot := isLetter_of_not_wordChar (isWordChar_of_isBlank (by simpa using hblank))
  rw [h] at hnot
  cases hnot

theorem start_letter {c : Char} (h : isLetter c = true) (glued : Bool) :
    start glued c = ([], .word glued [c]) := by
  simp [start, isBlank_of_isLetter h, h]

theorem modeAfter_word {w : List Char} (h : IsWord w) :
    modeAfter (.gap false) w = .word false w ∧ emitted (.gap false) w = [] := by
  obtain ⟨c, cs, rfl, hc, hcs⟩ := h
  obtain ⟨hmode, hemit⟩ := @modeAfter_wordChars false [c] cs hcs
  simp [modeAfter, emitted, step, start_letter hc, hmode, hemit]

theorem lex_word {w : List Char} (h : IsWord w) : lex w = [.word false w] := by
  obtain ⟨hmode, hemit⟩ := modeAfter_word h
  rw [lex, run_eq, hmode, hemit]
  rfl

/-- A word ends where the next character is no word character. -/
theorem lex_word_append {w cs : List Char} (h : IsWord w)
    (hcs : cs.head?.any isWordChar = false) :
    lex (w ++ cs) = .word false w :: lex cs := by
  cases cs with
  | nil => rw [List.append_nil, lex_word h]; rfl
  | cons c cs =>
      have hc : isWordChar c = false := by simpa using hcs
      rw [lex_append_of_breaks cs (by rw [(modeAfter_word h).1]; exact breaks_word hc _ _),
        lex_word h]
      rfl

theorem lex_dot_cons (cs : List Char) : lex ('.' :: cs) = .symbol '.' :: lex cs := by
  rfl

theorem lex_semicolon_cons (cs : List Char) : lex (';' :: cs) = .symbol ';' :: lex cs := by
  rfl

/-- A pending word takes every word character that follows. -/
theorem run_word (glued : Bool) (w cs : List Char) :
    ∃ rest, run (.word glued w) cs = .word glued (w ++ cs.takeWhile isWordChar) :: rest := by
  induction cs generalizing w with
  | nil => exact ⟨[], by simp [run, flush]⟩
  | cons c cs ih =>
      by_cases hc : isWordChar c = true
      · obtain ⟨rest, hrest⟩ := ih (w ++ [c])
        exact ⟨rest, by simp [run, step, hc, hrest]⟩
      · exact ⟨(start false c).1 ++ run (start false c).2 cs, by simp [run, step, hc, after]⟩

/-- After plain text that ends in a letter a word is pending. -/
theorem modeAfter_word_of_letter {s : List Char} (hs : Plain s)
    (hlast : s.getLast?.any isLetter = true) :
    ∃ glued w, modeAfter (.gap false) s = .word glued w := by
  have htracks := lex_tracks s
  have hplain := lex_plain hs
  generalize modeAfter (.gap false) s = m at htracks hplain
  cases m with
  | word glued w => exact ⟨glued, w, rfl⟩
  | gap glued => rw [htracks.2] at hlast; cases hlast
  | number text => rw [htracks.2] at hlast; cases hlast
  | dash => rw [htracks.2] at hlast; cases hlast
  | slash => rw [htracks.2] at hlast; cases hlast
  | quoted close text => exact hplain.elim
  | lineComment => exact hplain.elim
  | blockComment star => exact hplain.elim

/-- A letter run cut in two is not lexed piece by piece. -/
theorem lex_append_ne_of_letter {s cs ts : List Char} {tokens : List Token} (hs : Plain s)
    (hlast : s.getLast?.any isLetter = true) (hne : ts ≠ [])
    (hts : ∀ c ∈ ts, isWordChar c = true) :
    lex (s ++ (ts ++ cs)) ≠ lex s ++ tokens := by
  obtain ⟨glued, w, hmode⟩ := modeAfter_word_of_letter hs hlast
  intro heq
  obtain ⟨rest, hrest⟩ := run_word glued w (ts ++ cs)
  rw [lex, run_append, hmode, hrest, lex, run_eq, hmode, flush, List.append_assoc,
    List.append_cancel_left_eq] at heq
  have hw := (Token.word.inj (List.cons.inj heq).1).2
  rw [List.takeWhile_append_of_pos hts] at hw
  have hlen := congrArg List.length hw
  have hpos := List.length_pos_iff.2 hne
  simp only [List.length_append] at hlen
  omega

/-! ## Nothing but blanks is dropped -/

/-- The characters of a token. -/
def Token.chars : Token → List Char
  | .word _ text => text
  | .number text => text
  | .quoted text => text
  | .symbol c => [c]

/-- How many characters a list of tokens holds. -/
def weight (tokens : List Token) : Nat := (tokens.map fun t => t.chars.length).sum

@[simp] theorem weight_nil : weight [] = 0 := rfl

@[simp] theorem weight_cons (t : Token) (tokens : List Token) :
    weight (t :: tokens) = t.chars.length + weight tokens := by
  simp [weight]

@[simp] theorem weight_append (as bs : List Token) : weight (as ++ bs) = weight as + weight bs := by
  simp [weight]

theorem start_weight {c : Char} (h : closingQuote c = none) (glued : Bool) :
    weight (start glued c).1 + weight (flush (start glued c).2) =
      if isBlank c then 0 else 1 := by
  unfold start
  by_cases hblank : isBlank c = true
  · simp [hblank, flush]
  by_cases hletter : isLetter c = true
  · simp [hblank, hletter, flush, Token.chars]
  by_cases hdigit : isDigit c = true
  · simp [hblank, hletter, hdigit, flush, Token.chars]
  by_cases hdash : c = '-'
  · rw [if_neg hblank, if_neg hletter, if_neg hdigit, if_pos hdash]
    simp [hblank, flush, Token.chars]
  by_cases hslash : c = '/'
  · rw [if_neg hblank, if_neg hletter, if_neg hdigit, if_neg hdash, if_pos hslash]
    simp [hblank, flush, Token.chars]
  simp [hblank, hletter, hdigit, hdash, hslash, h, flush, Token.chars]

theorem isBlank_of_isWordChar {c : Char} (h : isWordChar c = true) : isBlank c = false := by
  by_contra hblank
  have hnot := isWordChar_of_isBlank (c := c) (by simpa using hblank)
  rw [h] at hnot
  cases hnot

theorem isWordChar_of_isDigit {c : Char} (h : isDigit c = true) : isWordChar c = true := by
  simp [isWordChar, h]

theorem after_weight (t : Token) (next : List Token × Mode) :
    weight (after t next).1 + weight (flush (after t next).2) =
      weight [t] + (weight next.1 + weight (flush next.2)) := by
  simp [after, Nat.add_assoc]

theorem step_weight {m : Mode} {pre : List Char} {c : Char} (h : PlainMode m pre)
    (hs : Plain (pre ++ [c])) :
    weight (step m c).1 + weight (flush (step m c).2) =
      weight (flush m) + if isBlank c then 0 else 1 := by
  have hquote : closingQuote c = none := hs.quotes c (by simp)
  cases m with
  | gap glued =>
      rw [step, start_weight hquote]
      simp [flush]
  | word glued text =>
      by_cases hc : isWordChar c = true
      · simp [step, hc, flush, Token.chars, isBlank_of_isWordChar hc]
      · rw [step, if_neg hc, after_weight, start_weight hquote, flush]
  | number text =>
      by_cases hc : isDigit c = true
      · simp [step, hc, flush, Token.chars, isBlank_of_isWordChar (isWordChar_of_isDigit hc)]
      · rw [step, if_neg hc, after_weight, start_weight hquote, flush]
  | dash =>
      obtain ⟨as, rfl⟩ := h
      have hc : c ≠ '-' := by
        rintro rfl
        exact hs.dashes as [] (by simp)
      rw [step, if_neg hc, after_weight, start_weight hquote, flush]
  | slash =>
      obtain ⟨as, rfl⟩ := h
      have hc : c ≠ '*' := by
        rintro rfl
        exact hs.stars as [] (by simp)
      rw [step, if_neg hc, after_weight, start_weight hquote, flush]
  | quoted close text => exact h.elim
  | lineComment => exact h.elim
  | blockComment star => exact h.elim

theorem run_weight {m : Mode} {pre cs : List Char} (h : PlainMode m pre)
    (hs : Plain (pre ++ cs)) :
    weight (run m cs) = weight (flush m) + cs.countP (fun c => !isBlank c) := by
  induction cs generalizing m pre with
  | nil => simp [run]
  | cons c cs ih =>
      have hs' : Plain ((pre ++ [c]) ++ cs) := by simpa using hs
      have hstep := step_weight h hs'.of_append
      have hrest := ih (step_plain h hs'.of_append) hs'
      rw [run, weight_append, hrest, List.countP_cons]
      cases hblank : isBlank c <;> simp [hblank] at hstep ⊢ <;> omega

/-- Every character of a plain text that is no blank is in one of its tokens. -/
theorem lex_weight {s : List Char} (hs : Plain s) :
    weight (lex s) = s.countP (fun c => !isBlank c) := by
  have h := @run_weight (.gap false) [] s trivial (by simpa using hs)
  simpa [lex, flush] using h

end AdbcBridge.Lib.SqlLexer
