import AdbcBridge.Delegate.OpenHdbc

/-!
# The `pqopt` block and libpq

A `pqopt` block is a conninfo string of libpq.  `ParsePqopt` reads it with a scanner of its
own, which knows two of the six white-space characters, takes a quote that is never closed for
closed at the end, keeps a backslash with nothing behind it, and reads an empty value from a block
that nothing was written to.
-/

namespace AdbcBridge.Delegate.Conninfo

open AdbcBridge.Lib AdbcBridge.Delegate.Keywords AdbcBridge.Delegate.OpenHdbc

/-! ## The conninfo string -/

/-- A value in single quotes; it must be closed. -/
def conninfoQuoted : Text → Option (Text × Text)
  | [] => none
  | '\\' :: c :: s => (conninfoQuoted s).map fun value => (c :: value.1, value.2)
  | c :: s =>
      if c = '\'' then some ([], s)
      else (conninfoQuoted s).map fun value => (c :: value.1, value.2)

/-- A value up to the next white space; a backslash at the end is dropped. -/
def conninfoBare : Text → Text × Text
  | [] => ([], [])
  | '\\' :: c :: s => (c :: (conninfoBare s).1, (conninfoBare s).2)
  | c :: s =>
      if c = '\\' then ([], [])
      else if isSpace c then ([], c :: s)
      else (c :: (conninfoBare s).1, (conninfoBare s).2)

def conninfoValue : Text → Option (Text × Text)
  | '\'' :: s => conninfoQuoted s
  | s => some (conninfoBare s)

/-- The first keyword, its value and the text after it. -/
def conninfoNext (s : Text) : Option ((Text × Text) × Text) :=
  let key := s.takeWhile fun c => c ≠ '=' ∧ ¬ isSpace c
  match (s.drop key.length).dropWhile isSpace with
  | '=' :: v =>
      (conninfoValue (v.dropWhile isSpace)).map fun value => ((key, value.1), value.2)
  | _ => none

theorem conninfoQuoted_length {s : Text} {value : Text × Text}
    (h : conninfoQuoted s = some value) : value.2.length ≤ s.length := by
  induction s using conninfoQuoted.induct generalizing value with
  | case1 => cases h
  | case2 c s ih =>
      rw [conninfoQuoted, Option.map_eq_some_iff] at h
      obtain ⟨value', hvalue, rfl⟩ := h
      have hle := ih hvalue
      simp only [List.length_cons]
      omega
  | case3 s hs =>
      rw [conninfoQuoted, if_pos rfl, Option.some.injEq] at h
      · rw [← h]
        exact Nat.le_succ _
      · exact hs
  | case4 c s hs hc ih =>
      rw [conninfoQuoted, if_neg hc, Option.map_eq_some_iff] at h
      · obtain ⟨value', hvalue, rfl⟩ := h
        have hle := ih hvalue
        simp only [List.length_cons]
        omega
      · exact hs

theorem conninfoBare_length (s : Text) : (conninfoBare s).2.length ≤ s.length := by
  induction s using conninfoBare.induct with
  | case1 => exact Nat.le_refl _
  | case2 c s ih =>
      rw [conninfoBare]
      simp only [List.length_cons]
      omega
  | case3 s hs =>
      rw [conninfoBare, if_pos rfl]
      · exact Nat.zero_le _
      · exact hs
  | case4 c s hs hb hc =>
      rw [conninfoBare, if_neg hb, if_pos hc]
      exact hs
  | case5 c s hs hb hc ih =>
      rw [conninfoBare, if_neg hb, if_neg hc]
      · simp only [List.length_cons]
        omega
      · exact hs

theorem conninfoValue_length {s : Text} {value : Text × Text} (h : conninfoValue s = some value) :
    value.2.length ≤ s.length := by
  unfold conninfoValue at h
  split at h
  · exact (conninfoQuoted_length h).trans (Nat.le_succ _)
  · rw [← Option.some.inj h]
    exact conninfoBare_length _

theorem conninfoNext_length {s rest : Text} {kv : Text × Text}
    (h : conninfoNext s = some (kv, rest)) : rest.length < s.length := by
  unfold conninfoNext at h
  dsimp only at h
  split at h
  · rename_i v hv
    rw [Option.map_eq_some_iff] at h
    obtain ⟨value, hvalue, heq⟩ := h
    have hdrop := List.length_dropWhile_le isSpace
      (s.drop (s.takeWhile fun c => c ≠ '=' ∧ ¬ isSpace c).length)
    have hspace := List.length_dropWhile_le isSpace v
    have hle := conninfoValue_length hvalue
    rw [hv, List.length_cons, List.length_drop] at hdrop
    rw [← (Prod.mk.inj heq).2]
    omega
  · cases h

/-- The keywords and values of a conninfo string in order, or none where it is malformed. -/
def conninfo (s : Text) : Option (List (Text × Text)) :=
  if s.dropWhile isSpace = [] then some []
  else
    match _h : conninfoNext (s.dropWhile isSpace) with
    | none => none
    | some (kv, rest) => (conninfo rest).map fun kvs => kv :: kvs
termination_by s.length
decreasing_by
  have hless := conninfoNext_length _h
  have hle := List.length_dropWhile_le isSpace s
  omega

/-- The settings that libpq takes from a conninfo string: of a keyword that is given twice the
later value. -/
def conninfoSettings (s : Text) : Option (List (Text × Text)) :=
  (conninfo s).map (KeyValue.addAll id [])

/-! ## The loop of `ParsePqopt` -/

/-- The text that is left and the parameters recorded so far. -/
structure PqoptState where
  p : Text
  params : List (Text × Text)

def PqoptState.turn (heap : Text) (st : PqoptState) :
    Turn PqoptState (Except Text (List (Text × Text))) :=
  if st.p.dropWhile isBlank = [] then .leave (.ok st.params)
  else
    match pqoptNext (st.p.dropWhile isBlank) with
    | none => .leave (.error "could not parse the psqlodbc pqopt=\x7b...\x7d block".toList)
    | some (kv, rest) =>
        if inNameList kPqoptKeys kv.1 then
          .again ⟨rest, KeyValue.add lower st.params (recorded heap kv).1 (recorded heap kv).2⟩
        else
          .leave (.error ("the libpq option \"".toList ++ kv.1 ++
            "\" from pqopt=\x7b...\x7d cannot be handed to the native driver".toList))

/-- Every option takes some of the text. -/
theorem turn_descends {heap : Text} {st st' : PqoptState} (h : st.turn heap = .again st') :
    st'.p.length < st.p.length := by
  unfold PqoptState.turn at h
  split at h
  · cases h
  · split at h
    · cases h
    · rename_i kv rest hnext
      split at h
      · rw [← Turn.again.inj h]
        exact lt_of_lt_of_le (pqoptNext_length hnext) (List.length_dropWhile_le isBlank st.p)
      · cases h

def pqoptLoop (heap : Text) : Loop PqoptState (Except Text (List (Text × Text))) where
  turn := PqoptState.turn heap
  rank := fun st => st.p.length
  descends := turn_descends

theorem pqoptOptions_end {s : Text} (h : s.dropWhile isBlank = []) : pqoptOptions s = .ok [] := by
  rw [pqoptOptions, if_pos h]

theorem pqoptOptions_next {s rest : Text} {kv : Text × Text} (h : s.dropWhile isBlank ≠ [])
    (hnext : pqoptNext (s.dropWhile isBlank) = some (kv, rest))
    (hname : inNameList kPqoptKeys kv.1 = true) :
    pqoptOptions s = (pqoptOptions rest).map fun kvs => kv :: kvs := by
  rw [pqoptOptions, if_neg h]
  split
  · rename_i hnone
    rw [hnone] at hnext
    cases hnext
  · rename_i kv' rest' hsome
    rw [hsome, Option.some.injEq, Prod.mk.injEq] at hnext
    rw [hnext.1, hnext.2, if_pos hname]
    cases pqoptOptions rest with
    | error why => rfl
    | ok kvs => rfl

/-- An option that stops the scan stops it with the same words in the loop. -/
theorem pqoptOptions_stop {heap s why : Text} {params : List (Text × Text)}
    (h : s.dropWhile isBlank ≠ [])
    (hturn : (pqoptLoop heap).turn ⟨s, params⟩ = .leave (.error why)) :
    pqoptOptions s = .error why := by
  have hbody := hturn
  change PqoptState.turn heap _ = _ at hbody
  unfold PqoptState.turn at hbody
  rw [if_neg h] at hbody
  rw [pqoptOptions, if_neg h]
  dsimp only at hbody
  split
  · rename_i hnone
    rw [hnone] at hbody
    exact Turn.leave.inj hbody
  · rename_i kv rest hsome
    rw [hsome] at hbody
    dsimp only at hbody
    split_ifs at hbody with hname
    rw [if_neg hname]
    exact Turn.leave.inj hbody

/-- The loop records the options one after the other, each in the place of an earlier one of its
name. -/
theorem pqoptLoop_run (heap s : Text) (params : List (Text × Text)) :
    (pqoptLoop heap).run ⟨s, params⟩ =
      (parsePqopt heap s).map (KeyValue.addAll lower params) := by
  unfold parsePqopt
  induction hlen : s.length using Nat.strong_induction_on generalizing s params with
  | _ n ih =>
    by_cases hend : s.dropWhile isBlank = []
    · have hturn : (pqoptLoop heap).turn ⟨s, params⟩ = .leave (.ok params) := if_pos hend
      rw [Loop.run_leave hturn, pqoptOptions_end hend]
      rfl
    cases hturn : (pqoptLoop heap).turn ⟨s, params⟩ with
    | leave result =>
        rw [Loop.run_leave hturn]
        cases result with
        | error why =>
            rw [pqoptOptions_stop hend hturn]
            rfl
        | ok final =>
            change PqoptState.turn heap _ = _ at hturn
            unfold PqoptState.turn at hturn
            rw [if_neg hend] at hturn
            split at hturn
            · cases hturn
            · split_ifs at hturn
              cases Turn.leave.inj hturn
    | again st =>
        have hless := turn_descends hturn
        rw [Loop.run_again hturn]
        change PqoptState.turn heap _ = _ at hturn
        unfold PqoptState.turn at hturn
        rw [if_neg hend] at hturn
        split at hturn
        · cases hturn
        · rename_i kv rest hnext
          split_ifs at hturn with hname
          have hst := Turn.again.inj hturn
          rw [← hst] at hless ⊢
          rw [pqoptOptions_next hend hnext hname, ih rest.length (hlen ▸ hless) rest _ rfl]
          cases pqoptOptions rest with
          | error why => rfl
          | ok kvs => rfl

/-! ## Values that are read alike -/

/-- A quote that is closed. -/
def plainQuoted : Text → Bool
  | [] => false
  | '\\' :: _ :: s => plainQuoted s
  | c :: s => if c = '\'' then true else plainQuoted s

/-- A bare value that ends at a blank or with the text, has no other white space but behind a
backslash, and no backslash at the end of the text. -/
def plainBare : Text → Bool
  | [] => true
  | '\\' :: _ :: s => plainBare s
  | c :: s =>
      if c = '\\' then false
      else if isBlank c then true
      else if isSpace c then false
      else plainBare s

def plainValue : Text → Bool
  | '\'' :: s => plainQuoted s
  | s => plainBare s

/-- Nothing stands behind the `=`, or a quote that is closed or ends the text at once. -/
def emptyValue : Text → Bool
  | [] => true
  | ['\''] => true
  | '\'' :: c :: _ => c = '\''
  | _ => false

/-- Where the value of the first option starts. -/
def valueText (s : Text) : Text :=
  ((s.drop (s.takeWhile fun c => c ≠ '=' ∧ ¬ isBlank c).length).dropWhile isBlank).tail.dropWhile
    isBlank

/-- The options as a block has them: the keyword, and the text from its value on. -/
def written (s : Text) : List (Text × Text) :=
  if s.dropWhile isBlank = [] then []
  else
    match _h : pqoptNext (s.dropWhile isBlank) with
    | none => []
    | some (kv, rest) => (kv.1, valueText (s.dropWhile isBlank)) :: written rest
termination_by s.length
decreasing_by
  have hless := pqoptNext_length _h
  have hle := List.length_dropWhile_le isBlank s
  omega

/-- Every value of the block is plain and none is empty, and no keyword is given in two
spellings. -/
structure PlainBlock (s : Text) : Prop where
  values : ∀ o ∈ written s, plainValue o.2 = true
  filled : ∀ o ∈ written s, emptyValue o.2 = false
  spelling : ∀ j ∈ (written s).map Prod.fst, ∀ k ∈ (written s).map Prod.fst,
    lower j = lower k → j = k

theorem written_end {s : Text} (h : s.dropWhile isBlank = []) : written s = [] := by
  rw [written, if_pos h]

theorem written_next {s rest : Text} {kv : Text × Text} (h : s.dropWhile isBlank ≠ [])
    (hnext : pqoptNext (s.dropWhile isBlank) = some (kv, rest)) :
    written s = (kv.1, valueText (s.dropWhile isBlank)) :: written rest := by
  rw [written, if_neg h]
  split
  · rename_i hnone
    rw [hnone] at hnext
    cases hnext
  · rename_i kv' rest' hsome
    rw [hsome, Option.some.injEq, Prod.mk.injEq] at hnext
    rw [hnext.1, hnext.2]

theorem conninfo_end {s : Text} (h : s.dropWhile isSpace = []) : conninfo s = some [] := by
  rw [conninfo, if_pos h]

theorem conninfo_next {s rest : Text} {kv : Text × Text} (h : s.dropWhile isSpace ≠ [])
    (hnext : conninfoNext (s.dropWhile isSpace) = some (kv, rest)) :
    conninfo s = (conninfo rest).map fun kvs => kv :: kvs := by
  rw [conninfo, if_neg h]
  split
  · rename_i hnone
    rw [hnone] at hnext
    cases hnext
  · rename_i kv' rest' hsome
    rw [hsome, Option.some.injEq, Prod.mk.injEq] at hnext
    rw [hnext.1, hnext.2]

theorem conninfo_none {s : Text} (h : s.dropWhile isSpace ≠ [])
    (hnext : conninfoNext (s.dropWhile isSpace) = none) : conninfo s = none := by
  rw [conninfo, if_neg h]
  split
  · rfl
  · rename_i kv rest hsome
    rw [hsome] at hnext
    cases hnext

/-! ## One value -/

theorem isSpace_of_isBlank {c : Char} (h : isBlank c = true) : isSpace c = true := by
  unfold isBlank at h
  rw [decide_eq_true_iff] at h
  cases h with
  | inl hspace =>
      rw [hspace]
      decide
  | inr htab =>
      rw [htab]
      decide

theorem readBare_cons {c : Char} (hb : c ≠ '\\') (s : Text) :
    readBare (c :: s) =
      if isBlank c then ([], c :: s) else (c :: (readBare s).1, (readBare s).2) :=
  readBare.eq_3 c s fun _ _ heq _ => hb heq

theorem conninfoBare_cons {c : Char} (hb : c ≠ '\\') (s : Text) :
    conninfoBare (c :: s) =
      if isSpace c then ([], c :: s) else (c :: (conninfoBare s).1, (conninfoBare s).2) :=
  (conninfoBare.eq_3 c s fun _ _ heq _ => hb heq).trans (if_neg hb)

theorem plainBare_cons {c : Char} (hb : c ≠ '\\') (s : Text) :
    plainBare (c :: s) =
      if isBlank c then true else if isSpace c then false else plainBare s :=
  (plainBare.eq_3 c s fun _ _ heq _ => hb heq).trans (if_neg hb)

theorem backslash_not_space {c : Char} (h : isSpace c = true) : c ≠ '\\' := by
  intro heq
  rw [heq] at h
  exact absurd h (by decide)

theorem conninfoValue_bare {c : Char} (hquote : c ≠ '\'') (s : Text) :
    conninfoValue (c :: s) = some (conninfoBare (c :: s)) := by
  unfold conninfoValue
  split
  · rename_i s' heq
    exact absurd (List.cons.inj heq).1 hquote
  · rfl

theorem readPqoptValue_bare {c : Char} (hquote : c ≠ '\'') (s : Text) :
    readPqoptValue (c :: s) = readBare (c :: s) := by
  unfold readPqoptValue
  split
  · rename_i s' heq
    exact absurd (List.cons.inj heq).1 hquote
  · rfl

theorem plainValue_bare {c : Char} (hquote : c ≠ '\'') (s : Text) :
    plainValue (c :: s) = plainBare (c :: s) := by
  unfold plainValue
  split
  · rename_i s' heq
    exact absurd (List.cons.inj heq).1 hquote
  · rfl

theorem conninfoQuoted_eq {s : Text} (h : plainQuoted s = true) :
    conninfoQuoted s = some (readQuoted s) := by
  induction s using conninfoQuoted.induct with
  | case1 => cases h
  | case2 c s ih =>
      rw [plainQuoted] at h
      rw [conninfoQuoted, readQuoted, ih h]
      rfl
  | case3 s hs =>
      rw [conninfoQuoted, readQuoted, if_pos rfl, if_pos rfl]
      · exact hs
      · exact hs
  | case4 c s hs hc ih =>
      rw [plainQuoted, if_neg hc] at h
      · rw [conninfoQuoted, readQuoted, if_neg hc, if_neg hc, ih h]
        · rfl
        · exact hs
        · exact hs
      · exact hs

theorem conninfoQuoted_none {s : Text} (h : plainQuoted s = false) : conninfoQuoted s = none := by
  induction s using conninfoQuoted.induct with
  | case1 => rfl
  | case2 c s ih =>
      rw [plainQuoted] at h
      rw [conninfoQuoted, ih h]
      rfl
  | case3 s hs =>
      rw [plainQuoted, if_pos rfl] at h
      · cases h
      · exact hs
  | case4 c s hs hc ih =>
      rw [plainQuoted, if_neg hc] at h
      · rw [conninfoQuoted, if_neg hc, ih h]
        · rfl
        · exact hs
      · exact hs

theorem conninfoBare_eq {s : Text} (h : plainBare s = true) : conninfoBare s = readBare s := by
  induction s using plainBare.induct with
  | case1 => rfl
  | case2 c s ih =>
      rw [plainBare] at h
      rw [conninfoBare, readBare, ih h]
  | case3 s hs =>
      rw [plainBare, if_pos rfl] at h
      · cases h
      · exact hs
  | case4 c s hs hb hblank =>
      rw [conninfoBare, readBare, if_neg hb, if_pos (isSpace_of_isBlank hblank), if_pos hblank]
      · exact hs
      · exact hs
  | case5 c s hs hb hblank hspace =>
      rw [plainBare, if_neg hb, if_neg hblank, if_pos hspace] at h
      · cases h
      · exact hs
  | case6 c s hs hb hblank hspace ih =>
      rw [plainBare, if_neg hb, if_neg hblank, if_neg hspace] at h
      · rw [conninfoBare, readBare, if_neg hb, if_neg hspace, if_neg hblank, ih h]
        · exact hs
        · exact hs
      · exact hs

/-- Of a bare value that is not plain libpq reads less. -/
theorem conninfoBare_shorter {s : Text} (h : plainBare s = false) :
    (conninfoBare s).1.length < (readBare s).1.length := by
  induction s using plainBare.induct with
  | case1 => cases h
  | case2 c s ih =>
      rw [plainBare] at h
      rw [conninfoBare, readBare]
      exact Nat.succ_lt_succ (ih h)
  | case3 s hs =>
      rw [conninfoBare, readBare, if_pos rfl, if_neg (by decide)]
      · exact Nat.succ_pos _
      · exact hs
      · exact hs
  | case4 c s hs hb hblank =>
      rw [plainBare, if_neg hb, if_pos hblank] at h
      · cases h
      · exact hs
  | case5 c s hs hb hblank hspace =>
      rw [conninfoBare, readBare, if_neg hb, if_pos hspace, if_neg hblank]
      · exact Nat.succ_pos _
      · exact hs
      · exact hs
  | case6 c s hs hb hblank hspace ih =>
      rw [plainBare, if_neg hb, if_neg hblank, if_neg hspace] at h
      · rw [conninfoBare, readBare, if_neg hb, if_neg hspace, if_neg hblank]
        · exact Nat.succ_lt_succ (ih h)
        · exact hs
        · exact hs
      · exact hs

theorem conninfoBare_le (s : Text) : (conninfoBare s).1.length ≤ (readBare s).1.length := by
  cases h : plainBare s with
  | true => rw [conninfoBare_eq h]
  | false => exact (conninfoBare_shorter h).le

/-- Up to the first blank a quoted value is read as a bare one. -/
theorem bare_of_quoted {s : Text} {value : Text × Text} (h : conninfoQuoted s = some value)
    (hless : (readBare s).1.length < value.1.length) :
    ∃ c, isBlank c = true ∧ (readBare s).1 ++ [c] <+: value.1 := by
  induction s using conninfoQuoted.induct generalizing value with
  | case1 => cases h
  | case2 c s ih =>
      rw [conninfoQuoted, Option.map_eq_some_iff] at h
      obtain ⟨value', hvalue, rfl⟩ := h
      rw [readBare] at hless ⊢
      obtain ⟨d, hd, hprefix⟩ := ih hvalue (Nat.lt_of_succ_lt_succ hless)
      exact ⟨d, hd, (List.prefix_cons_inj c).mpr hprefix⟩
  | case3 s hs =>
      rw [conninfoQuoted, if_pos rfl, Option.some.injEq] at h
      · rw [← h] at hless
        exact absurd hless (Nat.not_lt_zero _)
      · exact hs
  | case4 c s hs hc ih =>
      rw [conninfoQuoted, if_neg hc, Option.map_eq_some_iff] at h
      · obtain ⟨value', hvalue, rfl⟩ := h
        by_cases hblank : isBlank c = true
        · rw [readBare, if_pos hblank]
          · exact ⟨c, hblank, (List.prefix_cons_inj c).mpr List.nil_prefix⟩
          · exact hs
        · rw [readBare, if_neg hblank] at hless ⊢
          · obtain ⟨d, hd, hprefix⟩ := ih hvalue (Nat.lt_of_succ_lt_succ hless)
            exact ⟨d, hd, (List.prefix_cons_inj c).mpr hprefix⟩
          · exact hs
          · exact hs
      · exact hs

/-- What repeats `w` over and over has no letter outside it. -/
theorem mem_of_periodic {w b : Text} {c : Char} (hw : w ≠ []) (h : b ++ [c] <+: w ++ b) :
    c ∈ w := by
  induction hlen : b.length using Nat.strong_induction_on generalizing b with
  | _ n ih =>
    by_cases hshort : b.length < w.length
    · have hprefix : b ++ [c] <+: w :=
        List.prefix_of_prefix_length_le h (List.prefix_append w b) (by simpa using hshort)
      exact hprefix.subset (List.mem_append_right b List.mem_cons_self)
    · have hwb : w <+: b := by
        apply List.prefix_of_prefix_length_le (List.prefix_append w b) _ (not_lt.mp hshort)
        exact (List.prefix_append b [c]).trans h
      obtain ⟨b', rfl⟩ := hwb
      have hpos := List.length_pos_iff.mpr hw
      rw [List.append_assoc, List.prefix_append_right_inj] at h
      apply ih b'.length _ h rfl
      rw [← hlen, List.length_append]
      omega

/-- White space that is no blank stands in a bare value as any other character does. -/
theorem readBare_append {w u : Text} (h : ∀ c ∈ w, isSpace c = true ∧ isBlank c = false) :
    readBare (w ++ u) = (w ++ (readBare u).1, (readBare u).2) := by
  induction w with
  | nil => rfl
  | cons c w ih =>
      have hc := h c List.mem_cons_self
      rw [List.cons_append, readBare_cons (backslash_not_space hc.1),
        if_neg (Bool.eq_false_iff.mp hc.2), ih fun d hd => h d (List.mem_cons_of_mem _ hd)]
      rfl

/-- White space before a value, and what it is followed by. -/
theorem dropWhile_append_space {w u : Text} (h : ∀ c ∈ w, isSpace c = true) :
    (w ++ u).dropWhile isSpace = u.dropWhile isSpace :=
  List.dropWhile_append_of_pos h

theorem dropWhile_isSpace (s : Text) :
    s.dropWhile isSpace = (s.dropWhile isBlank).dropWhile isSpace := by
  induction s with
  | nil => rfl
  | cons c s ih =>
      by_cases hblank : isBlank c = true
      · rw [List.dropWhile_cons_of_pos (isSpace_of_isBlank hblank),
          List.dropWhile_cons_of_pos hblank, ih]
      · rw [List.dropWhile_cons_of_neg hblank]

/-- Behind a value the text ends, or an option follows. -/
def Goes (s : Text) : Prop :=
  s.dropWhile isBlank = [] ∨
    ∃ c t, s.dropWhile isBlank = c :: t ∧ isSpace c = false ∧ c ≠ '\'' ∧ c ≠ '\\'

/-- White space before a value that is no blank is part of the value that is recorded; libpq
does not read the same one there. -/
theorem leading_differs {w u : Text} (hne : w ≠ [])
    (hw : ∀ c ∈ w, isSpace c = true ∧ isBlank c = false)
    (hu : ∀ c t, u = c :: t → isBlank c = true ∨ isSpace c = false)
    (hgoes : Goes (readBare (w ++ u)).2) {value : Text × Text}
    (h : conninfoValue ((w ++ u).dropWhile isSpace) = some value) :
    value.1 ≠ (readBare (w ++ u)).1 := by
  rw [dropWhile_append_space fun c hc => (hw c hc).1] at h
  rw [readBare_append hw] at hgoes ⊢
  dsimp only at hgoes ⊢
  have hlong : 0 < w.length := List.length_pos_iff.mpr hne
  have hshort : value.1.length < w.length + (readBare u).1.length →
      value.1 ≠ w ++ (readBare u).1 := by
    intro hless heq
    rw [heq, List.length_append] at hless
    exact absurd hless (Nat.lt_irrefl _)
  cases u with
  | nil =>
      apply hshort
      rw [← Option.some.inj h]
      exact Nat.lt_add_right _ hlong
  | cons c t =>
      by_cases hblank : isBlank c = true
      · have hread : readBare (c :: t) = ([], c :: t) := by
          rw [readBare_cons (backslash_not_space (isSpace_of_isBlank hblank)), if_pos hblank]
        rw [hread] at hgoes
        rw [dropWhile_isSpace] at h
        cases hgoes with
        | inl hend =>
            rw [hend] at h
            apply hshort
            rw [← Option.some.inj h]
            exact Nat.lt_add_right _ hlong
        | inr hoption =>
            obtain ⟨d, s, hs, hspace, hquote, hback⟩ := hoption
            have hspace' : ¬ isSpace d = true := Bool.eq_false_iff.mp hspace
            rw [hs, List.dropWhile_cons_of_neg hspace'] at h
            have hhead : (conninfoBare (d :: s)).1 = d :: (conninfoBare s).1 := by
              rw [conninfoBare_cons hback, if_neg hspace']
            rw [conninfoValue_bare hquote] at h
            rw [← Option.some.inj h, hhead]
            intro heq
            cases w with
            | nil => exact hne rfl
            | cons e w =>
                rw [List.cons_append] at heq
                rw [(List.cons.inj heq).1, (hw e List.mem_cons_self).1] at hspace
                cases hspace
      · have hspace := (hu c t rfl).resolve_left hblank
        rw [List.dropWhile_cons_of_neg (Bool.eq_false_iff.mp hspace)] at h
        by_cases hquote : c = '\''
        · rw [hquote] at h ⊢
          intro heq
          have hread : (readBare ('\'' :: t)).1 = '\'' :: (readBare t).1 := by
            rw [readBare_cons (by decide), if_neg (by decide)]
          rw [hread, List.append_cons] at heq
          have hless : (readBare t).1.length < value.1.length := by
            rw [heq, List.length_append, List.length_append, List.length_singleton]
            omega
          obtain ⟨d, hd, hprefix⟩ := bare_of_quoted h hless
          rw [heq] at hprefix
          have hmem := mem_of_periodic (by simp) hprefix
          rw [List.mem_append, List.mem_singleton] at hmem
          cases hmem with
          | inl hmem =>
              rw [(hw d hmem).2] at hd
              cases hd
          | inr hd' =>
              rw [hd'] at hd
              exact absurd hd (by decide)
        · rw [conninfoValue_bare hquote] at h
          apply hshort
          rw [← Option.some.inj h]
          have hle := conninfoBare_le (c :: t)
          omega

/-- Of a plain value both read the same. -/
theorem conninfoValue_plain {v : Text} (hv : ∀ c t, v = c :: t → isBlank c = false)
    (h : plainValue v = true) :
    conninfoValue (v.dropWhile isSpace) = some (readPqoptValue v) := by
  cases v with
  | nil => rfl
  | cons c t =>
      by_cases hquote : c = '\''
      · rw [hquote] at h ⊢
        rw [List.dropWhile_cons_of_neg (by decide)]
        exact conninfoQuoted_eq h
      · rw [plainValue_bare hquote] at h
        have hspace : ¬ isSpace c = true := by
          intro hspace
          rw [plainBare_cons (backslash_not_space hspace),
            if_neg (Bool.eq_false_iff.mp (hv c t rfl)), if_pos hspace] at h
          cases h
        rw [List.dropWhile_cons_of_neg hspace, conninfoValue_bare hquote,
          readPqoptValue_bare hquote, conninfoBare_eq h]

/-- Of any other value they do not. -/
theorem conninfoValue_differs {v : Text} (hv : ∀ c t, v = c :: t → isBlank c = false)
    (h : plainValue v = false) (hgoes : Goes (readPqoptValue v).2) {value : Text × Text}
    (hvalue : conninfoValue (v.dropWhile isSpace) = some value) :
    value.1 ≠ (readPqoptValue v).1 := by
  cases v with
  | nil => cases h
  | cons c t =>
      by_cases hquote : c = '\''
      · rw [hquote] at h hvalue
        rw [List.dropWhile_cons_of_neg (by decide)] at hvalue
        have hnone : conninfoValue ('\'' :: t) = none := conninfoQuoted_none h
        rw [hnone] at hvalue
        cases hvalue
      · rw [plainValue_bare hquote] at h
        rw [readPqoptValue_bare hquote] at hgoes ⊢
        by_cases hspace : isSpace c = true
        · let odd : Char → Bool := fun d => isSpace d && !isBlank d
          have hsplit : (c :: t).takeWhile odd ++ (c :: t).dropWhile odd = c :: t :=
            List.takeWhile_append_dropWhile
          have hodd : odd c = true := by
            change (isSpace c && !isBlank c) = true
            rw [hspace, hv c t rfl]
            rfl
          have hne : (c :: t).takeWhile odd ≠ [] := by
            rw [List.takeWhile_cons_of_pos hodd]
            exact List.cons_ne_nil _ _
          have hw : ∀ d ∈ (c :: t).takeWhile odd, isSpace d = true ∧ isBlank d = false := by
            intro d hd
            have htaken : odd d = true := List.mem_takeWhile_imp hd
            have hboth := Bool.and_eq_true_iff.mp htaken
            exact ⟨hboth.1, by simpa using hboth.2⟩
          have hu : ∀ d u, (c :: t).dropWhile odd = d :: u →
              isBlank d = true ∨ isSpace d = false := by
            intro d u heq
            have hd : odd d = false := by
              have hhead := List.head?_dropWhile_not odd (c :: t)
              rw [heq] at hhead
              simpa using hhead
            change (isSpace d && !isBlank d) = false at hd
            cases hs : isSpace d with
            | false => exact Or.inr rfl
            | true =>
                rw [hs, Bool.true_and] at hd
                exact Or.inl (by simpa using hd)
          rw [← hsplit] at hgoes hvalue ⊢
          exact leading_differs hne hw hu hgoes hvalue
        · rw [List.dropWhile_cons_of_neg hspace, conninfoValue_bare hquote] at hvalue
          have hless := conninfoBare_shorter h
          rw [Option.some.inj hvalue] at hless
          intro heq
          rw [heq] at hless
          exact absurd hless (Nat.lt_irrefl _)

/-! ## One option -/

theorem listed_letters : ∀ name ∈ kPqoptKeys, ∀ c ∈ lower name, 95 ≤ c.toNat := by
  unfold kPqoptKeys names lower
  simp only [List.map_cons, List.map_nil, List.forall_mem_cons]
  simp

/-- The characters of a listed keyword are letters and `_`. -/
theorem letter_of_listed {key : Text} (h : inNameList kPqoptKeys key = true) :
    ∀ c ∈ key, 95 ≤ c.toLower.toNat := by
  intro c hc
  obtain ⟨name, hname, hsame⟩ := List.any_eq_true.mp h
  apply listed_letters name hname
  rw [of_decide_eq_true hsame]
  exact List.mem_map_of_mem hc

theorem toLower_of_isSpace {c : Char} (h : isSpace c = true) : c.toLower.toNat ≤ 32 := by
  have hle : c.toNat ≤ 32 := by
    unfold isSpace at h
    rw [decide_eq_true_iff] at h
    cases h with
    | inl heq =>
        rw [heq]
        decide
    | inr hbetween =>
        have hcr : c.toNat ≤ 13 := hbetween.2
        omega
  have hsame : c.toLower = c := by
    apply dif_neg
    intro hupper
    have hge : 65 ≤ c.toNat := hupper.1
    omega
  rwa [hsame]

theorem letter_plain {c : Char} (h : 95 ≤ c.toLower.toNat) :
    isSpace c = false ∧ c ≠ '\'' ∧ c ≠ '\\' := by
  refine ⟨?_, ?_, ?_⟩
  · cases hspace : isSpace c with
    | false => rfl
    | true =>
        have hle := toLower_of_isSpace hspace
        omega
  · intro heq
    rw [heq] at h
    exact absurd h (by decide)
  · intro heq
    rw [heq] at h
    exact absurd h (by decide)

/-- The parts of the first option of a block. -/
theorem pqoptNext_some {s rest key value : Text} (h : pqoptNext s = some ((key, value), rest)) :
    key ≠ [] ∧ key = (s.takeWhile fun c => c ≠ '=' ∧ ¬ isBlank c) ∧
      (∃ v, (s.drop key.length).dropWhile isBlank = '=' :: v ∧ valueText s = v.dropWhile isBlank) ∧
      readPqoptValue (valueText s) = (value, rest) := by
  unfold pqoptNext at h
  dsimp only at h
  split at h
  · cases h
  · rename_i hlen
    split at h
    · rename_i v hv
      rw [Option.some.injEq, Prod.mk.injEq, Prod.mk.injEq] at h
      have htext : valueText s = v.dropWhile isBlank := by
        unfold valueText
        rw [hv]
        rfl
      refine ⟨?_, h.1.1.symm, ⟨v, ?_, htext⟩, ?_⟩
      · rw [← h.1.1]
        intro hnil
        exact hlen (Or.inl (by rw [hnil]; rfl))
      · rw [← h.1.1]
        exact hv
      · rw [htext, ← h.1.2, ← h.2]
    · cases h

/-- A listed keyword ends where libpq ends it. -/
theorem takeWhile_key {s : Text}
    (h : ∀ c ∈ s.takeWhile fun c => c ≠ '=' ∧ ¬ isBlank c, isSpace c = false) :
    (s.takeWhile fun c => c ≠ '=' ∧ ¬ isSpace c) =
      s.takeWhile fun c => c ≠ '=' ∧ ¬ isBlank c := by
  induction s with
  | nil => rfl
  | cons c s ih =>
      by_cases hkey : c ≠ '=' ∧ ¬ isBlank c = true
      · rw [List.takeWhile_cons_of_pos (by simpa using hkey)] at h
        have hc := h c List.mem_cons_self
        rw [List.takeWhile_cons_of_pos (by simpa [hc] using hkey.1),
          ih fun d hd => h d (List.mem_cons_of_mem _ hd)]
        exact (List.takeWhile_cons_of_pos (by simpa using hkey)).symm
      · have hend : ¬ (c ≠ '=' ∧ ¬ isSpace c = true) := by
          intro hboth
          exact hkey ⟨hboth.1, fun hblank => hboth.2 (isSpace_of_isBlank hblank)⟩
        rw [List.takeWhile_cons_of_neg (by simpa using hend),
          List.takeWhile_cons_of_neg (by simpa using hkey)]

/-- libpq finds the same keyword, and its value where the block has it. -/
theorem conninfoNext_of {s rest key value : Text} (h : pqoptNext s = some ((key, value), rest))
    (hname : inNameList kPqoptKeys key = true) :
    conninfoNext s = (conninfoValue ((valueText s).dropWhile isSpace)).map fun value =>
      ((key, value.1), value.2) := by
  obtain ⟨-, hkey, ⟨v, hv, htext⟩, -⟩ := pqoptNext_some h
  have hletters : ∀ c ∈ key, isSpace c = false :=
    fun c hc => (letter_plain (letter_of_listed hname c hc)).1
  have hkey' : (s.takeWhile fun c => c ≠ '=' ∧ ¬ isSpace c) = key := by
    rw [hkey] at hletters ⊢
    exact takeWhile_key hletters
  have hequals : (s.drop key.length).dropWhile isSpace = '=' :: v := by
    rw [dropWhile_isSpace, hv, List.dropWhile_cons_of_neg (by decide)]
  unfold conninfoNext
  dsimp only
  rw [hkey', hequals, htext, ← dropWhile_isSpace]
  rfl

/-! ## A whole block -/

/-- A block that is not refused is at its end, or it starts with a listed option and the rest
is not refused. -/
theorem pqoptOptions_ok {s : Text} {pairs : List (Text × Text)} (h : pqoptOptions s = .ok pairs) :
    (s.dropWhile isBlank = [] ∧ pairs = []) ∨
      ∃ kv rest tail, s.dropWhile isBlank ≠ [] ∧
        pqoptNext (s.dropWhile isBlank) = some (kv, rest) ∧
        inNameList kPqoptKeys kv.1 = true ∧ pqoptOptions rest = .ok tail ∧ pairs = kv :: tail := by
  by_cases hend : s.dropWhile isBlank = []
  · rw [pqoptOptions_end hend] at h
    exact Or.inl ⟨hend, (Except.ok.inj h).symm⟩
  · right
    rw [pqoptOptions, if_neg hend] at h
    split at h
    · cases h
    · rename_i kv rest hnext
      split_ifs at h with hname
      split at h
      · cases h
      · rename_i tail htail
        exact ⟨kv, rest, tail, hend, hnext, hname, htail, (Except.ok.inj h).symm⟩

/-- The first character of a listed option. -/
theorem option_head {s rest : Text} {kv : Text × Text} (hnext : pqoptNext s = some (kv, rest))
    (hname : inNameList kPqoptKeys kv.1 = true) :
    ∃ c t, s = c :: t ∧ isSpace c = false ∧ c ≠ '\'' ∧ c ≠ '\\' := by
  obtain ⟨hne, hkey, -⟩ := pqoptNext_some hnext
  have hletters := letter_of_listed hname
  cases s with
  | nil => exact absurd hkey hne
  | cons c t =>
      refine ⟨c, t, rfl, letter_plain (hletters c ?_)⟩
      rw [hkey]
      by_cases hc : c ≠ '=' ∧ ¬ isBlank c = true
      · rw [List.takeWhile_cons_of_pos (by simpa using hc)]
        exact List.mem_cons_self
      · rw [List.takeWhile_cons_of_neg (by simpa using hc)] at hkey
        exact absurd hkey hne

theorem goes_of_ok {s : Text} {pairs : List (Text × Text)} (h : pqoptOptions s = .ok pairs) :
    Goes s := by
  cases pqoptOptions_ok h with
  | inl hend => exact Or.inl hend.1
  | inr hoption =>
      obtain ⟨kv, rest, tail, -, hnext, hname, -⟩ := hoption
      exact Or.inr (option_head hnext hname)

theorem valueText_head {s : Text} : ∀ c t, valueText s = c :: t → isBlank c = false := by
  intro c t h
  unfold valueText at h
  have hhead := List.head?_dropWhile_not isBlank
    ((s.drop (s.takeWhile fun c => c ≠ '=' ∧ ¬ isBlank c).length).dropWhile isBlank).tail
  rw [h] at hhead
  simpa using hhead

/-- Of a block that is not refused libpq reads the same pairs exactly when all values are plain.
By induction on the text: the first value that is not plain is read differently. -/
theorem conninfo_iff {s : Text} {pairs : List (Text × Text)} (h : pqoptOptions s = .ok pairs) :
    conninfo s = some pairs ↔ ∀ o ∈ written s, plainValue o.2 = true := by
  induction hlen : s.length using Nat.strong_induction_on generalizing s pairs with
  | _ n ih =>
    cases pqoptOptions_ok h with
    | inl hend =>
        have hspace : s.dropWhile isSpace = [] := by
          rw [dropWhile_isSpace, hend.1]
          rfl
        rw [conninfo_end hspace, hend.2, written_end hend.1]
        exact iff_of_true rfl fun o ho => absurd ho List.not_mem_nil
    | inr hoption =>
        obtain ⟨kv, rest, tail, hne, hnext, hname, htail, hpairs⟩ := hoption
        obtain ⟨c, t, hhead, hspace, -⟩ := option_head hnext hname
        have hstart : s.dropWhile isSpace = s.dropWhile isBlank := by
          rw [dropWhile_isSpace, hhead, List.dropWhile_cons_of_neg (Bool.eq_false_iff.mp hspace)]
        have hne' : s.dropWhile isSpace ≠ [] := by rwa [hstart]
        have hless : rest.length < n := by
          have hrest := pqoptNext_length hnext
          have hle := List.length_dropWhile_le isBlank s
          omega
        have hread := (pqoptNext_some hnext).2.2.2
        have hfirst := conninfoNext_of hnext hname
        rw [← hstart] at hfirst
        rw [hpairs, written_next hne hnext, List.forall_mem_cons]
        cases hplain : plainValue (valueText (s.dropWhile isBlank)) with
        | true =>
            rw [hstart, conninfoValue_plain valueText_head hplain, hread, ← hstart] at hfirst
            rw [conninfo_next hne' hfirst, and_iff_right rfl, ← ih _ hless htail rfl,
              Option.map_eq_some_iff]
            constructor
            · intro hsome
              obtain ⟨kvs, hkvs, heq⟩ := hsome
              rw [hkvs, (List.cons.inj heq).2]
            · intro hsome
              exact ⟨tail, hsome, rfl⟩
        | false =>
            apply iff_of_false _ fun hboth => Bool.false_ne_true hboth.1
            rw [hstart] at hfirst
            cases hvalue : conninfoValue ((valueText (s.dropWhile isBlank)).dropWhile isSpace) with
            | none =>
                rw [hvalue, ← hstart] at hfirst
                rw [conninfo_none hne' hfirst]
                exact fun hnone => by cases hnone
            | some value =>
                have hgoes : Goes (readPqoptValue (valueText (s.dropWhile isBlank))).2 := by
                  rw [hread]
                  exact goes_of_ok htail
                have hdiffers := conninfoValue_differs valueText_head hplain hgoes hvalue
                rw [hread] at hdiffers
                rw [hvalue, ← hstart] at hfirst
                rw [conninfo_next hne' hfirst]
                intro hsome
                rw [Option.map_eq_some_iff] at hsome
                obtain ⟨kvs, -, heq⟩ := hsome
                apply hdiffers
                exact congrArg (fun kv => kv.2) (List.cons.inj heq).1

/-- The scanner of `ParsePqopt` finds no character in an empty value and one in any other. -/
theorem emptyValue_iff {v : Text} (hv : ∀ c t, v = c :: t → isBlank c = false) :
    emptyValue v = true ↔ (readPqoptValue v).1 = [] := by
  cases v with
  | nil => exact iff_of_true rfl rfl
  | cons c t =>
      by_cases hquote : c = '\''
      · rw [hquote]
        change emptyValue _ = true ↔ (readQuoted t).1 = []
        cases t with
        | nil => exact iff_of_true rfl rfl
        | cons d u =>
            change decide (d = '\'') = true ↔ _
            rw [decide_eq_true_iff]
            by_cases hclose : d = '\''
            · rw [hclose]
              exact iff_of_true rfl (by rw [readQuoted, if_pos rfl]; simp)
            · apply iff_of_false hclose
              by_cases hbackslash : d = '\\'
              · rw [hbackslash]
                cases u with
                | nil => decide
                | cons e u => simp [readQuoted]
              · rw [readQuoted]
                · rw [if_neg hclose]
                  exact List.cons_ne_nil _ _
                · intro e u heq
                  exact absurd heq hbackslash
      · have hempty : emptyValue (c :: t) = false := by
          unfold emptyValue
          split
          · rename_i heq
            cases heq
          · rename_i heq
            exact absurd (List.cons.inj heq).1 hquote
          · rename_i heq
            exact absurd (List.cons.inj heq).1 hquote
          · rfl
        rw [hempty, readPqoptValue_bare hquote]
        apply iff_of_false Bool.false_ne_true
        have hblank := hv c t rfl
        by_cases hbackslash : c = '\\'
        · rw [hbackslash]
          cases t with
          | nil => decide
          | cons d u => simp [readBare]
        · rw [readBare_cons hbackslash, if_neg (Bool.eq_false_iff.mp hblank)]
          exact List.cons_ne_nil _ _

/-- The options that are scanned are the keywords of the block with what its scanner reads of
each value. -/
theorem options_of_ok {s : Text} {pairs : List (Text × Text)} (h : pqoptOptions s = .ok pairs) :
    pairs = (written s).map fun o => (o.1, (readPqoptValue o.2).1) := by
  induction hlen : s.length using Nat.strong_induction_on generalizing s pairs with
  | _ n ih =>
    cases pqoptOptions_ok h with
    | inl hend =>
        rw [hend.2, written_end hend.1]
        rfl
    | inr hoption =>
        obtain ⟨kv, rest, tail, hne, hnext, hname, htail, hpairs⟩ := hoption
        have hless : rest.length < n := by
          have hrest := pqoptNext_length hnext
          have hle := List.length_dropWhile_le isBlank s
          omega
        have hread := (pqoptNext_some hnext).2.2.2
        rw [hpairs, written_next hne hnext, List.map_cons, ih _ hless htail rfl, hread]

theorem written_head {s : Text} : ∀ o ∈ written s, ∀ c t, o.2 = c :: t → isBlank c = false := by
  induction hlen : s.length using Nat.strong_induction_on generalizing s with
  | _ n ih =>
    intro o ho
    by_cases hend : s.dropWhile isBlank = []
    · rw [written_end hend] at ho
      exact absurd ho List.not_mem_nil
    cases hnext : pqoptNext (s.dropWhile isBlank) with
    | none =>
        rw [written, if_neg hend] at ho
        split at ho
        · exact absurd ho List.not_mem_nil
        · rename_i hsome
          rw [hsome] at hnext
          cases hnext
    | some first =>
        rw [written_next hend hnext] at ho
        cases ho with
        | head => exact valueText_head
        | tail _ ho =>
            have hrest := pqoptNext_length hnext
            have hle := List.length_dropWhile_le isBlank s
            exact ih _ (by omega) rfl o ho

theorem map_recorded_iff {heap : Text} {pairs : List (Text × Text)} :
    pairs.map (recorded heap) = pairs ↔ ∀ kv ∈ pairs, recorded heap kv = kv := by
  constructor
  · intro hsame kv hkv
    apply List.map_inj_left.mp _ kv hkv
    rw [hsame]
    exact (List.map_id pairs).symm
  · intro hfixed
    exact (List.map_congr_left hfixed).trans (List.map_id pairs)

/-- What is recorded does not depend on what a new block holds exactly where no value is empty. -/
theorem recorded_iff {s : Text} {pairs : List (Text × Text)} (h : pqoptOptions s = .ok pairs) :
    (∀ heap, pairs.map (recorded heap) = pairs) ↔ ∀ o ∈ written s, emptyValue o.2 = false := by
  have hfilled : (∀ o ∈ written s, emptyValue o.2 = false) ↔ ∀ kv ∈ pairs, kv.2 ≠ [] := by
    rw [options_of_ok h, List.forall_mem_map]
    apply forall₂_congr
    intro o ho
    rw [← Bool.not_eq_true, emptyValue_iff (written_head o ho)]
  rw [hfilled]
  constructor
  · intro hsame kv hkv hempty
    have hfixed := map_recorded_iff.mp (hsame ['?']) kv hkv
    unfold recorded at hfixed
    rw [if_pos hempty] at hfixed
    rw [← hfixed] at hempty
    cases hempty
  · intro hne heap
    rw [map_recorded_iff]
    intro kv hkv
    unfold recorded
    rw [if_neg (hne kv hkv)]

/-- The scan ends on every text.  A block that is not refused is read as libpq reads it, with
the same pairs in order and the same one of two values left, whatever a new block of memory
holds, exactly when every value is plain and not empty and no keyword stands in two spellings; and
then libpq's settings are those recorded. -/
theorem pqopt_reads_as_libpq (s : Text) (params : List (Text × Text)) :
    (∀ heap, (pqoptLoop heap).Leaves ⟨s, params⟩
      ((parsePqopt heap s).map (KeyValue.addAll lower params))) ∧
    ((∀ heap pairs, parsePqopt heap s = .ok pairs → conninfo s = some pairs ∧
        KeyValue.addAll lower [] pairs = KeyValue.addAll id [] pairs) ↔
      ((∀ heap pairs, parsePqopt heap s ≠ .ok pairs) ∨ PlainBlock s)) ∧
    (PlainBlock s → ∀ heap pairs, parsePqopt heap s = .ok pairs →
      conninfoSettings s = some (KeyValue.addAll lower [] pairs)) := by
  refine ⟨?_, ?_⟩
  · intro heap
    rw [← pqoptLoop_run]
    exact (pqoptLoop heap).leaves_run _
  cases h : pqoptOptions s with
  | error why =>
      have hrefused : ∀ heap pairs, parsePqopt heap s ≠ .ok pairs := by
        intro heap pairs hok
        unfold parsePqopt at hok
        rw [h] at hok
        cases hok
      exact ⟨iff_of_true (fun heap pairs hok => absurd hok (hrefused heap pairs)) (Or.inl hrefused),
        fun _ heap pairs hok => absurd hok (hrefused heap pairs)⟩
  | ok options =>
      have hok : ∀ heap, parsePqopt heap s = .ok (options.map (recorded heap)) := by
        intro heap
        unfold parsePqopt
        rw [h]
        rfl
      have hspelling : KeyValue.addAll lower [] options = KeyValue.addAll id [] options ↔
          ∀ j ∈ (written s).map Prod.fst, ∀ k ∈ (written s).map Prod.fst,
            lower j = lower k → j = k := by
        have hkeys : options.map Prod.fst = (written s).map Prod.fst := by
          rw [options_of_ok h, List.map_map]
          rfl
        rw [← hkeys]
        apply KeyValue.addAll_eq_iff
        intro j k hsame
        exact congrArg lower hsame
      have hplain : PlainBlock s → ∀ heap pairs, parsePqopt heap s = .ok pairs →
          conninfo s = some pairs ∧
            KeyValue.addAll lower [] pairs = KeyValue.addAll id [] pairs := by
        intro hblock heap pairs hpairs
        rw [hok heap, (recorded_iff h).mpr hblock.filled heap] at hpairs
        rw [← Except.ok.inj hpairs]
        exact ⟨(conninfo_iff h).mpr hblock.values, hspelling.mpr hblock.spelling⟩
      refine ⟨⟨?_, ?_⟩, ?_⟩
      · intro hreads
        right
        have hempty := hreads [] _ (hok [])
        have hsame : ∀ heap, options.map (recorded heap) = options.map (recorded []) := by
          intro heap
          have hread := (hreads heap _ (hok heap)).1
          rw [hempty.1] at hread
          exact (Option.some.inj hread).symm
        have hnil : options.map (recorded []) = options := by
          rw [map_recorded_iff]
          intro kv _
          unfold recorded
          split_ifs with hkv
          · rw [← hkv]
          · rfl
        rw [hnil] at hempty hsame
        exact ⟨(conninfo_iff h).mp hempty.1, (recorded_iff h).mp hsame, hspelling.mp hempty.2⟩
      · intro hcondition
        cases hcondition with
        | inl hrefused => exact absurd (hok []) (hrefused [] _)
        | inr hblock => exact hplain hblock
      · intro hblock heap pairs hpairs
        obtain ⟨hread, hkept⟩ := hplain hblock heap pairs hpairs
        unfold conninfoSettings
        rw [hread, hkept]
        rfl

/-- One option with its value in quotes. -/
theorem quoted_reads_as_libpq :
    conninfoSettings "options='a b'".toList = some [("options".toList, "a b".toList)] := by
  have hnext : pqoptNext ("options='a b'".toList.dropWhile isBlank) =
      some (("options".toList, "a b".toList), []) := by decide
  have hok : parsePqopt [] "options='a b'".toList = .ok [("options".toList, "a b".toList)] := by
    unfold parsePqopt
    rw [pqoptOptions_next (by decide) hnext (by decide), pqoptOptions_end rfl]
    rfl
  refine (pqopt_reads_as_libpq "options='a b'".toList []).2.2 ⟨?_, ?_, ?_⟩ [] _ hok
  · rw [written_next (by decide) hnext, written_end rfl]
    decide
  · rw [written_next (by decide) hnext, written_end rfl]
    decide
  · rw [written_next (by decide) hnext, written_end rfl]
    decide

/-- A line break between two options: the second one is recorded as part of the first value. -/
theorem lineBreak_swallowed :
    ¬ ∀ (heap s : Text) (pairs : List (Text × Text)), parsePqopt heap s = .ok pairs →
      conninfoSettings s = some (KeyValue.addAll lower [] pairs) := by
  intro h
  have hnext : pqoptNext ("sslmode=a\nsslcrl=b".toList.dropWhile isBlank) =
      some (("sslmode".toList, "a\nsslcrl=b".toList), []) := by decide
  have hok : parsePqopt [] "sslmode=a\nsslcrl=b".toList =
      .ok [("sslmode".toList, "a\nsslcrl=b".toList)] := by
    unfold parsePqopt
    rw [pqoptOptions_next (by decide) hnext (by decide), pqoptOptions_end rfl]
    rfl
  have hfirst : conninfoNext ("sslmode=a\nsslcrl=b".toList.dropWhile isSpace) =
      some (("sslmode".toList, "a".toList), "\nsslcrl=b".toList) := by decide
  have hsecond : conninfoNext ("\nsslcrl=b".toList.dropWhile isSpace) =
      some (("sslcrl".toList, "b".toList), []) := by decide
  have hread : conninfo "sslmode=a\nsslcrl=b".toList =
      some [("sslmode".toList, "a".toList), ("sslcrl".toList, "b".toList)] := by
    rw [conninfo_next (by decide) hfirst, conninfo_next (by decide) hsecond, conninfo_end rfl]
    rfl
  have hsame := h _ _ _ hok
  unfold conninfoSettings at hsame
  rw [hread] at hsame
  exact absurd hsame (by decide)

end AdbcBridge.Delegate.Conninfo
