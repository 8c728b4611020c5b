import AdbcBridge.Delegate.Keywords
import AdbcBridge.Lib.Doubled
import Mathlib

/-!
# Writing connection strings

`AppendOdbcValue`, and what `ConnStringNext` reads of a string that was put together
from attributes: plain or brace-quoted values, blanks around the keywords and text
behind a closing brace.
-/

namespace AdbcBridge.Delegate.ConnString

open AdbcBridge.Lib AdbcBridge.Delegate.Keywords

/-- A keyword a pair can be written with. -/
structure Keyword where
  text : Text
  nonempty : text ≠ []
  noEquals : '=' ∉ text
  noSemicolon : ';' ∉ text
  front : ∀ c ∈ text.head?, ¬ isSeparator c
  back : ∀ c ∈ text.getLast?, ¬ isSeparator c

theorem not_isSeparator_of_isAlpha {c : Char} (h : c.isAlpha = true) : ¬ isSeparator c := by
  intro hsep
  simp only [isSeparator, Bool.decide_or, Bool.or_eq_true, decide_eq_true_eq] at hsep
  rcases hsep with rfl | rfl | rfl | rfl | rfl <;> exact absurd h (by decide)

/-- A word of letters is a keyword. -/
def Keyword.word (text : Text) (hne : text ≠ []) (hletters : text.all Char.isAlpha = true) :
    Keyword where
  text := text
  nonempty := hne
  noEquals := fun hmem => absurd (List.all_eq_true.mp hletters _ hmem) (by decide)
  noSemicolon := fun hmem => absurd (List.all_eq_true.mp hletters _ hmem) (by decide)
  front := fun _ hc => not_isSeparator_of_isAlpha
    (List.all_eq_true.mp hletters _ (List.mem_of_mem_head? hc))
  back := fun _ hc => not_isSeparator_of_isAlpha
    (List.all_eq_true.mp hletters _ (List.mem_of_getLast? hc))

theorem isSeparator_of_isBlank {c : Char} (h : isBlank c) : isSeparator c := by
  simp only [isBlank, isSeparator, Bool.decide_or, Bool.or_eq_true, decide_eq_true_eq] at h ⊢
  tauto

/-! ## Values in braces -/

/-- `AppendOdbcValue`. -/
def appendOdbcValue (value : Text) : Text := '{' :: (Doubled.escape '}' value ++ ['}'])

theorem readBraced_eq (s : Text) : readBraced s = Doubled.read '}' s := by
  induction s using readBraced.induct with
  | case1 => rfl
  | case2 s ih => rw [readBraced, Doubled.read_doubled, ih]
  | case3 s hs =>
      have hhead : s.head? ≠ some '}' := fun h =>
        (List.head?_eq_some_iff.mp h).elim fun t ht => hs t ht
      rw [readBraced, Doubled.read_close hhead]
      exact hs
  | case4 c s h1 h2 ih =>
      rw [readBraced, Doubled.read_ordinary h2, ih]
      · exact h1
      · exact h2

/-- The value ends at a single brace. -/
theorem readBraced_escape (value : Text) {t : Text} (ht : t.head? ≠ some '}') :
    readBraced (Doubled.escape '}' value ++ '}' :: t) = (value, t) := by
  rw [readBraced_eq, Doubled.read_escape value ht]

theorem readValue_suffix (s : Text) : (readValue s).2 <:+ s := by
  unfold readValue
  split
  · rename_i s
    calc (readBraced s).2.dropWhile (· ≠ ';')
        <:+ (readBraced s).2 := List.dropWhile_suffix _
      _ <:+ s := readBraced_eq s ▸ Doubled.read_suffix _ s
      _ <:+ '{' :: s := List.suffix_cons _ _
  · exact List.dropWhile_suffix _

/-- What follows a value in braces up to the next `;` is no part of it. -/
theorem readValue_braced (value : Text) {junk t : Text} (hjunk : ';' ∉ junk)
    (hbrace : junk.head? ≠ some '}') (ht : t = [] ∨ t.head? = some ';') :
    readValue (appendOdbcValue value ++ (junk ++ t)) = (value, t) := by
  have hclose : (junk ++ t).head? ≠ some '}' := by
    cases junk with
    | cons c junk => exact hbrace
    | nil =>
        rcases ht with rfl | ht
        · simp
        · rw [List.nil_append, ht]
          decide
  have hskip : (junk ++ t).dropWhile (· ≠ ';') = t := by
    rw [List.dropWhile_append_of_pos]
    · rcases ht with rfl | ht
      · rfl
      · obtain ⟨u, rfl⟩ := List.head?_eq_some_iff.mp ht
        exact List.dropWhile_cons_of_neg (by simp)
    · intro c hc
      have hne : c ≠ ';' := fun heq => hjunk (heq ▸ hc)
      simpa using hne
  rw [appendOdbcValue, List.cons_append, List.append_assoc, List.singleton_append, readValue,
    readBraced_escape value hclose, hskip]

/-- A value without braces ends at the next `;`. -/
theorem readValue_plain {value t : Text} (hvalue : ';' ∉ value) (hbrace : value.head? ≠ some '{')
    (ht : t = [] ∨ t.head? = some ';') : readValue (value ++ t) = (value, t) := by
  have hopen : ∀ s, value ++ t ≠ '{' :: s := by
    intro s heq
    cases value with
    | cons c value => exact hbrace (congrArg List.head? heq)
    | nil =>
        rcases ht with rfl | ht
        · cases heq
        · rw [List.nil_append] at heq
          rw [heq, List.head?_cons] at ht
          exact absurd ht (by decide)
  have hall : ∀ c ∈ value, (decide (c ≠ ';')) = true := by
    intro c hc
    exact decide_eq_true fun heq => hvalue (heq ▸ hc)
  rw [readValue]
  · rw [List.takeWhile_append_of_pos hall, List.dropWhile_append_of_pos hall]
    rcases ht with rfl | ht
    · simp
    · obtain ⟨u, rfl⟩ := List.head?_eq_some_iff.mp ht
      rw [List.takeWhile_cons_of_neg (by simp), List.dropWhile_cons_of_neg (by simp),
        List.append_nil]
  · exact hopen

/-! ## The next pair -/

theorem connStringNext_separator {c : Char} (hc : isSeparator c) (s : Text) :
    connStringNext (c :: s) = connStringNext s := by
  rw [connStringNext, List.dropWhile_cons_of_pos hc, connStringNext]

theorem connStringNext_nil : connStringNext [] = none := rfl

/-- A pair begins with its keyword; blanks may stand in front of the `=`. -/
theorem connStringNext_pair (key : Keyword) {blanks : Text} (hblanks : ∀ c ∈ blanks, isBlank c)
    (v : Text) :
    connStringNext (key.text ++ (blanks ++ '=' :: v)) =
      some ((key.text, (readValue v).1), (readValue v).2) := by
  have hfront : (key.text ++ (blanks ++ '=' :: v)).dropWhile isSeparator =
      key.text ++ (blanks ++ '=' :: v) := by
    obtain ⟨c, rest, htext⟩ := List.exists_cons_of_ne_nil key.nonempty
    rw [htext, List.cons_append]
    exact List.dropWhile_cons_of_neg (key.front c (by rw [htext]; rfl))
  have hname : ∀ c ∈ key.text ++ blanks, decide (c ≠ '=') = true := by
    intro c hc
    apply decide_eq_true
    rintro rfl
    rcases List.mem_append.mp hc with hc | hc
    · exact key.noEquals hc
    · exact absurd (hblanks _ hc) (by decide)
  have hback : (key.text ++ blanks).rdropWhile isBlank = key.text := by
    rw [List.rdropWhile, List.reverse_append, List.dropWhile_append_of_pos
      fun c hc => hblanks c (List.mem_reverse.mp hc)]
    change key.text.rdropWhile isBlank = key.text
    rw [List.rdropWhile_eq_self_iff]
    intro hne hblank
    exact key.back _ (List.getLast?_eq_some_getLast hne) (isSeparator_of_isBlank hblank)
  have hdrop : (key.text ++ (blanks ++ '=' :: v)).dropWhile (fun c => decide (c ≠ '=')) =
      '=' :: v := by
    rw [← List.append_assoc, List.dropWhile_append_of_pos hname]
    exact List.dropWhile_cons_of_neg (by decide)
  have htake : (key.text ++ (blanks ++ '=' :: v)).takeWhile (fun c => decide (c ≠ '=')) =
      key.text ++ blanks := by
    rw [← List.append_assoc, List.takeWhile_append_of_pos hname,
      List.takeWhile_cons_of_neg (by decide), List.append_nil]
  rw [connStringNext]
  dsimp only
  rw [hfront, hdrop, htake, hback]

/-- Each pair that is read leaves a suffix of the text. -/
theorem connStringNext_suffix {s rest : Text} {kv : Text × Text}
    (h : connStringNext s = some (kv, rest)) : rest <:+ s := by
  unfold connStringNext at h
  dsimp only at h
  split at h
  · cases h
  · rename_i c v hv
    rw [Option.some.injEq, Prod.mk.injEq] at h
    rw [← h.2]
    calc (readValue v).2
        <:+ v := readValue_suffix v
      _ <:+ c :: v := List.suffix_cons _ _
      _ = (s.dropWhile isSeparator).dropWhile (· ≠ '=') := hv.symm
      _ <:+ s.dropWhile isSeparator := List.dropWhile_suffix _
      _ <:+ s := List.dropWhile_suffix _

/-- The text left after some calls, while they succeed. -/
def afterCalls : Nat → Text → Option Text
  | 0, s => some s
  | n + 1, s => (connStringNext s).bind fun next => afterCalls n next.2

/-- The calls come to an end. -/
theorem afterCalls_end (s : Text) :
    ∃ n ≤ s.length, ∃ rest, afterCalls n s = some rest ∧ connStringNext rest = none := by
  induction h : s.length using Nat.strong_induction_on generalizing s with
  | _ len ih =>
      cases hnext : connStringNext s with
      | none => exact ⟨0, Nat.zero_le _, s, rfl, hnext⟩
      | some next =>
          have hlen := @connStringNext_length _ next.1 next.2 hnext
          obtain ⟨n, hn, rest, hrest, hend⟩ := ih next.2.length (h ▸ hlen) next.2 rfl
          refine ⟨n + 1, by omega, rest, ?_, hend⟩
          rw [afterCalls, hnext, Option.bind_some, hrest]

/-- The pairs of a string that has no more than the given number of them. -/
def pairsWithin : Nat → Text → List (Text × Text)
  | 0, _ => []
  | n + 1, s =>
      match connStringNext s with
      | none => []
      | some next => next.1 :: pairsWithin n next.2

theorem connPairs_eq_pairsWithin {n : Nat} {s : Text} (h : s.length ≤ n) :
    connPairs s = pairsWithin n s := by
  induction n generalizing s with
  | zero =>
      rw [List.length_eq_zero_iff.mp (Nat.le_zero.mp h), connPairs_end connStringNext_nil,
        pairsWithin]
  | succ n ih =>
      rw [pairsWithin]
      cases hnext : connStringNext s with
      | none => exact connPairs_end hnext
      | some next =>
          have hlen := connStringNext_length hnext
          rw [connPairs_next hnext, ih (by omega)]

theorem connPairs_separator {c : Char} (hc : isSeparator c) (s : Text) :
    connPairs (c :: s) = connPairs s := by
  rw [connPairs.eq_def, connPairs.eq_def, connStringNext_separator hc]

theorem connPairs_pair (key : Keyword) {blanks : Text} (hblanks : ∀ c ∈ blanks, isBlank c)
    (v : Text) :
    connPairs (key.text ++ (blanks ++ '=' :: v)) =
      (key.text, (readValue v).1) :: connPairs (readValue v).2 :=
  connPairs_next (connStringNext_pair key hblanks v)

/-! ## Rendering -/

/-- A pair as `OdbcDelegateNativeUriToOdbc` writes it. -/
def odbcAttribute (kv : Text × Text) : Text := kv.1 ++ '=' :: (appendOdbcValue kv.2 ++ [';'])

/-- Pairs one after the other. -/
def rendered (kvs : List (Text × Text)) : Text := kvs.flatMap odbcAttribute

theorem connPairs_attribute (key : Keyword) (value t : Text) :
    connPairs (odbcAttribute (key.text, value) ++ t) = (key.text, value) :: connPairs t := by
  have hread : readValue (appendOdbcValue value ++ ';' :: t) = (value, ';' :: t) :=
    @readValue_braced value [] (';' :: t) List.not_mem_nil (by decide) (.inr rfl)
  have htext : odbcAttribute (key.text, value) ++ t =
      key.text ++ ([] ++ '=' :: (appendOdbcValue value ++ ';' :: t)) := by
    simp [odbcAttribute]
  rw [htext, connPairs_pair key (fun c hc => absurd hc List.not_mem_nil), hread,
    connPairs_separator (by decide)]

theorem connPairs_rendered_append {kvs : List (Text × Text)}
    (hkeys : ∀ kv ∈ kvs, ∃ key : Keyword, key.text = kv.1) (t : Text) :
    connPairs (rendered kvs ++ t) = kvs ++ connPairs t := by
  induction kvs with
  | nil => rfl
  | cons kv kvs ih =>
      obtain ⟨k, value⟩ := kv
      obtain ⟨⟨key, rfl⟩, hrest⟩ := List.forall_mem_cons.mp hkeys
      rw [rendered, List.flatMap_cons, List.append_assoc, connPairs_attribute, ← rendered,
        ih hrest, List.cons_append]

/-- Nothing is read but what was rendered. -/
theorem connPairs_rendered_keys {kvs : List (Text × Text)}
    (hkeys : ∀ kv ∈ kvs, ∃ key : Keyword, key.text = kv.1) : connPairs (rendered kvs) = kvs := by
  have happ := connPairs_rendered_append hkeys []
  rwa [List.append_nil, connPairs_end connStringNext_nil, List.append_nil] at happ

/-- What was rendered is read back pair by pair, and on any text at all the reader goes
forward within it and comes to an end. -/
theorem connPairs_rendered :
    (∀ kvs : List (Keyword × Text),
      connPairs (rendered (kvs.map fun kv => (kv.1.text, kv.2))) =
        kvs.map fun kv => (kv.1.text, kv.2)) ∧
    (∀ s kv rest, connStringNext s = some (kv, rest) →
      rest <:+ s ∧ rest.length < s.length) ∧
    ∀ s, ∃ n ≤ s.length, ∃ rest, afterCalls n s = some rest ∧ connStringNext rest = none := by
  refine ⟨?_, ?_, afterCalls_end⟩
  · intro kvs
    apply connPairs_rendered_keys
    intro kv hkv
    obtain ⟨⟨key, value⟩, -, rfl⟩ := List.mem_map.mp hkv
    exact ⟨key, rfl⟩
  · exact fun s kv rest h => ⟨connStringNext_suffix h, connStringNext_length h⟩

/-- The keyword psqlodbc reads the password from. -/
def pwd : Keyword := .word "Pwd".toList (by decide) (by decide)

/-- A value with the delimiters in it, a text whose brace never closes. -/
theorem connPairs_rendered_password :
    connPairs (rendered [("Pwd".toList, "a\x7d;b=\x7b".toList)]) =
        [("Pwd".toList, "a\x7d;b=\x7b".toList)] ∧
      ([] : Text) <:+ "Pwd=\x7bx;".toList ∧ 0 < "Pwd=\x7bx;".toList.length := by
  have hread := connPairs_rendered.1 [(pwd, "a\x7d;b=\x7b".toList)]
  have hnext := connPairs_rendered.2.1 "Pwd=\x7bx;".toList ("Pwd".toList, "x;".toList) [] rfl
  exact ⟨hread, hnext⟩

end AdbcBridge.Delegate.ConnString
