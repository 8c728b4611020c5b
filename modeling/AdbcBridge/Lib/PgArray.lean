import Mathlib

/-!
# Array literals of PostgreSQL

The text `{a,"b c",NULL}` of a one-dimensional array, read byte by byte.  An element is
quoted, with a backslash before a byte that is meant as it stands, or it is plain; a plain
element ends at the delimiter, its trailing blanks are dropped, and the word NULL, however
its letters are cased, is the NULL element.
-/

namespace AdbcBridge.Lib.PgArray

/-- An element: NULL, or the bytes that the element type's input function is given. -/
abbrev Element := Option (List UInt8)

def openBrace : UInt8 := 123
def closeBrace : UInt8 := 125
def comma : UInt8 := 44
def quote : UInt8 := 34
def backslash : UInt8 := 92

/-- The letters N, U, L, L. -/
def nullWord : List UInt8 := [78, 85, 76, 76]

def isSpace (c : UInt8) : Bool := c = 32 || (9 ≤ c && c ≤ 13)

def upper (c : UInt8) : UInt8 := if 97 ≤ c && c ≤ 122 then c - 32 else c

/-- What a plain element is read as; an escaped byte is neither a blank nor a letter of
NULL. -/
def plainElement (cur : List (UInt8 × Bool)) : Element :=
  let kept := cur.rdropWhile fun c => isSpace c.1 && !c.2
  if (kept.all fun c => !c.2) && (kept.map fun c => upper c.1) = nullWord then none
  else some (kept.map Prod.fst)

/-- How far a literal is read.  A byte of a plain element comes with whether it was
escaped. -/
inductive State where
  | opening
  | before (done : List Element) (first : Bool)
  | quoted (done : List Element) (cur : List UInt8)
  | quotedEscape (done : List Element) (cur : List UInt8)
  | closed (done : List Element) (cur : List UInt8)
  | plain (done : List Element) (cur : List (UInt8 × Bool))
  | plainEscape (done : List Element) (cur : List (UInt8 × Bool))
  | finished (done : List Element)

/-- One byte; `none` is a malformed literal, or an array of more dimensions than one. -/
def step : State → UInt8 → Option State
  | .opening, c =>
      if isSpace c then some .opening
      else if c = openBrace then some (.before [] true)
      else none
  | .before done first, c =>
      if isSpace c then some (.before done first)
      else if c = quote then some (.quoted done [])
      else if c = backslash then some (.plainEscape done [])
      else if c = closeBrace && first then some (.finished done)
      else if c = openBrace || c = closeBrace || c = comma then none
      else some (.plain done [(c, false)])
  | .quoted done cur, c =>
      if c = quote then some (.closed done cur)
      else if c = backslash then some (.quotedEscape done cur)
      else some (.quoted done (cur ++ [c]))
  | .quotedEscape done cur, c => some (.quoted done (cur ++ [c]))
  | .closed done cur, c =>
      if isSpace c then some (.closed done cur)
      else if c = comma then some (.before (done ++ [some cur]) false)
      else if c = closeBrace then some (.finished (done ++ [some cur]))
      else none
  | .plain done cur, c =>
      if c = comma then some (.before (done ++ [plainElement cur]) false)
      else if c = closeBrace then some (.finished (done ++ [plainElement cur]))
      else if c = backslash then some (.plainEscape done cur)
      else if c = quote || c = openBrace then none
      else some (.plain done (cur ++ [(c, false)]))
  | .plainEscape done cur, c => some (.plain done (cur ++ [(c, true)]))
  | .finished done, c => if isSpace c then some (.finished done) else none

def run (st : State) (s : List UInt8) : Option State := s.foldlM step st

/-- The elements of a literal. -/
def parse (s : List UInt8) : Option (List Element) :=
  match run .opening s with
  | some (.finished done) => some done
  | _ => none

theorem run_cons (st : State) (c : UInt8) (s : List UInt8) :
    run st (c :: s) = (step st c).bind fun st => run st s := rfl

theorem run_append (st : State) (s t : List UInt8) :
    run st (s ++ t) = (run st s).bind fun st => run st t := List.foldlM_append

/-! ## Elements -/

/-- A backslash before each quote and each backslash. -/
def escape (s : List UInt8) : List UInt8 :=
  s.flatMap fun c => if c = quote ∨ c = backslash then [backslash, c] else [c]

/-- An element in quotes. -/
def quoteElement (s : List UInt8) : List UInt8 := quote :: escape s ++ [quote]

/-- A byte that stands for itself inside a plain element. -/
def ordinary (c : UInt8) : Bool :=
  c ≠ openBrace && c ≠ closeBrace && c ≠ comma && c ≠ quote && c ≠ backslash

/-- Bytes that are an element as they stand: no blank is at either end. -/
structure Plain (s : List UInt8) : Prop where
  nonempty : s ≠ []
  ordinary : ∀ c ∈ s, ordinary c = true
  first : ∀ c ∈ s.head?, isSpace c = false
  last : ∀ c ∈ s.getLast?, isSpace c = false
  notNull : s.map upper ≠ nullWord

/-- The texts of an element that need no other to be read. -/
inductive Spells : List UInt8 → Element → Prop
  | null : Spells nullWord none
  | quoted (s : List UInt8) : Spells (quoteElement s) (some s)
  | plain {s : List UInt8} : Plain s → Spells s (some s)

/-- A state behind the elements: the delimiter or the brace is next. -/
def Settled (st : State) (es : List Element) : Prop :=
  step st comma = some (.before es false) ∧ step st closeBrace = some (.finished es)

theorem settled_closed (done : List Element) (cur : List UInt8) :
    Settled (.closed done cur) (done ++ [some cur]) := ⟨rfl, rfl⟩

theorem settled_plain (done : List Element) (cur : List (UInt8 × Bool)) :
    Settled (.plain done cur) (done ++ [plainElement cur]) := ⟨rfl, rfl⟩

/-- The escaped bytes are read as they were. -/
theorem run_escape (done : List Element) (cur s : List UInt8) :
    run (.quoted done cur) (escape s) = some (.quoted done (cur ++ s)) := by
  induction s generalizing cur with
  | nil =>
      rw [List.append_nil]
      rfl
  | cons c s ih =>
      have hcons : escape (c :: s) =
          (if c = quote ∨ c = backslash then [backslash, c] else [c]) ++ escape s := by
        rw [escape, List.flatMap_cons, escape]
      have hone : run (.quoted done cur)
          (if c = quote ∨ c = backslash then [backslash, c] else [c]) =
            some (.quoted done (cur ++ [c])) := by
        by_cases hc : c = quote ∨ c = backslash
        · rw [if_pos hc]
          rfl
        · rw [not_or] at hc
          have hstep : step (.quoted done cur) c = some (.quoted done (cur ++ [c])) := by
            simp [step, hc.1, hc.2]
          rw [if_neg (not_or.mpr hc), run_cons, hstep]
          rfl
      rw [hcons, run_append, hone, Option.bind_some, ih, List.append_assoc,
        List.singleton_append]

theorem run_quoteElement (done : List Element) (first : Bool) (s : List UInt8) :
    run (.before done first) (quoteElement s) = some (.closed done s) := by
  have hopen : run (.before done first) [quote] = some (.quoted done []) := rfl
  have hclose : run (.quoted done s) [quote] = some (.closed done s) := rfl
  calc run (.before done first) (quoteElement s)
      = (run (.before done first) [quote]).bind fun st => run st (escape s ++ [quote]) := rfl
    _ = (run (.quoted done []) (escape s)).bind fun st => run st [quote] := by
        rw [hopen, Option.bind_some, run_append]
    _ = some (.closed done s) := by
        rw [run_escape, Option.bind_some, List.nil_append, hclose]

theorem step_plain_ordinary (done : List Element) (cur : List (UInt8 × Bool)) {c : UInt8}
    (hc : ordinary c = true) :
    step (.plain done cur) c = some (.plain done (cur ++ [(c, false)])) := by
  unfold ordinary at hc
  simp only [Bool.and_eq_true, decide_eq_true_eq] at hc
  obtain ⟨⟨⟨⟨hopen, hclose⟩, hcomma⟩, hquote⟩, hbackslash⟩ := hc
  simp [step, hopen, hclose, hcomma, hquote, hbackslash]

theorem step_before_ordinary (done : List Element) (first : Bool) {c : UInt8}
    (hc : ordinary c = true) (hspace : isSpace c = false) :
    step (.before done first) c = some (.plain done [(c, false)]) := by
  unfold ordinary at hc
  simp only [Bool.and_eq_true, decide_eq_true_eq] at hc
  obtain ⟨⟨⟨⟨hopen, hclose⟩, hcomma⟩, hquote⟩, hbackslash⟩ := hc
  simp [step, hspace, hopen, hclose, hcomma, hquote, hbackslash]

theorem run_plain_ordinary (done : List Element) (cur : List (UInt8 × Bool)) {s : List UInt8}
    (hs : ∀ c ∈ s, ordinary c = true) :
    run (.plain done cur) s = some (.plain done (cur ++ s.map fun c => (c, false))) := by
  induction s generalizing cur with
  | nil =>
      rw [List.map_nil, List.append_nil]
      rfl
  | cons c s ih =>
      rw [run_cons, step_plain_ordinary done cur (hs c List.mem_cons_self), Option.bind_some,
        ih _ fun d hd => hs d (List.mem_cons_of_mem c hd), List.map_cons, List.append_assoc,
        List.singleton_append]

/-- Bytes that no blank begins are collected up to the delimiter. -/
theorem run_before_ordinary (done : List Element) (first : Bool) {s : List UInt8} (hne : s ≠ [])
    (hs : ∀ c ∈ s, ordinary c = true) (hfirst : ∀ c ∈ s.head?, isSpace c = false) :
    run (.before done first) s = some (.plain done (s.map fun c => (c, false))) := by
  obtain ⟨c, s, rfl⟩ := List.exists_cons_of_ne_nil hne
  rw [run_cons, step_before_ordinary done first (hs c List.mem_cons_self) (hfirst c rfl),
    Option.bind_some, run_plain_ordinary done _ fun d hd => hs d (List.mem_cons_of_mem c hd)]
  rfl

/-- Bytes that no blank ends are kept, and are NULL only as that word. -/
theorem plainElement_eq {s : List UInt8} (hlast : ∀ c ∈ s.getLast?, isSpace c = false) :
    plainElement (s.map fun c => (c, false)) =
      if s.map upper = nullWord then none else some s := by
  have hkept : (s.map fun c => (c, false)).rdropWhile (fun c => isSpace c.1 && !c.2) =
      s.map fun c => (c, false) := by
    rw [List.rdropWhile_eq_self_iff]
    intro hne
    have hs : s ≠ [] := fun h => hne (by rw [h, List.map_nil])
    have hspace := hlast _ (List.getLast?_eq_some_getLast hs)
    rw [List.getLast_map, hspace, Bool.false_and]
    exact Bool.false_ne_true
  have hall : ((s.map fun c => (c, false)).all fun c => !c.2) = true := by simp
  have hfst : (s.map fun c => (c, false)).map Prod.fst = s := by
    rw [List.map_map]
    exact List.map_id s
  have hupper : ((s.map fun c => (c, false)).map fun c => upper c.1) = s.map upper := by
    rw [List.map_map]
    rfl
  unfold plainElement
  dsimp only
  rw [hkept, hall, hfst, hupper, Bool.true_and]
  by_cases hnull : s.map upper = nullWord
  · rw [if_pos hnull, if_pos (decide_eq_true hnull)]
  · rw [if_neg hnull, if_neg (by simpa using hnull)]

/-- What spells an element is read as it, up to the delimiter. -/
theorem Spells.run {item : List UInt8} {e : Element} (h : Spells item e) (done : List Element)
    (first : Bool) :
    ∃ st, run (.before done first) item = some st ∧ Settled st (done ++ [e]) := by
  cases h with
  | null =>
      have hs : ∀ c ∈ nullWord, ordinary c = true := by
        simp [nullWord, ordinary, openBrace, closeBrace, comma, quote, backslash]
      have helement : plainElement (nullWord.map fun c => (c, false)) = none := by
        rw [plainElement_eq (by simp [nullWord, isSpace]), if_pos (by rfl)]
      refine ⟨_, run_before_ordinary done first (by simp [nullWord]) hs
        (by simp [nullWord, isSpace]), ?_⟩
      rw [← helement]
      exact settled_plain done _
  | quoted s => exact ⟨_, run_quoteElement done first s, settled_closed done s⟩
  | plain hplain =>
      have helement : plainElement (item.map fun c => (c, false)) = some item := by
        rw [plainElement_eq hplain.last, if_neg hplain.notNull]
      refine ⟨_, run_before_ordinary done first hplain.nonempty hplain.ordinary hplain.first, ?_⟩
      rw [← helement]
      exact settled_plain done _

/-! ## Literals -/

/-- A literal without its closing brace holds these elements. -/
def Holds (b : List UInt8) (es : List Element) : Prop :=
  if es = [] then run .opening b = some (.before [] true)
  else ∃ st, run .opening b = some st ∧ Settled st es

theorem holds_nil : Holds [openBrace] [] := rfl

/-- One more element, behind a delimiter unless it is the first. -/
theorem Holds.push {b item : List UInt8} {es : List Element} {e : Element} (h : Holds b es)
    (hitem : Spells item e) :
    Holds (b ++ (if es = [] then [] else [comma]) ++ item) (es ++ [e]) := by
  unfold Holds at h ⊢
  rw [if_neg (by simp)]
  by_cases hes : es = []
  · subst hes
    rw [if_pos rfl] at h
    obtain ⟨st, hst, hsettled⟩ := hitem.run [] true
    refine ⟨st, ?_, hsettled⟩
    rw [if_pos rfl, List.append_nil, run_append, h, Option.bind_some, hst]
  · rw [if_neg hes] at h
    obtain ⟨st, hst, hcomma, -⟩ := h
    obtain ⟨st', hst', hsettled⟩ := hitem.run es false
    refine ⟨st', ?_, hsettled⟩
    have hone : PgArray.run st [comma] = some (.before es false) := by
      rw [run_cons, hcomma]
      rfl
    rw [if_neg hes, run_append, run_append, hst, Option.bind_some, hone, Option.bind_some, hst']

/-- The closing brace makes a literal of it. -/
theorem Holds.parse {b : List UInt8} {es : List Element} (h : Holds b es) :
    parse (b ++ [closeBrace]) = some es := by
  unfold Holds at h
  unfold PgArray.parse
  by_cases hes : es = []
  · rw [if_pos hes] at h
    rw [run_append, h, hes]
    rfl
  · rw [if_neg hes] at h
    obtain ⟨st, hst, -, hclose⟩ := h
    have hone : PgArray.run st [closeBrace] = some (.finished es) := by
      rw [run_cons, hclose]
      rfl
    rw [run_append, hst, Option.bind_some, hone]

end AdbcBridge.Lib.PgArray
