import AdbcBridge.Delegate.ConnString
import AdbcBridge.Lib.Decimal
import Mathlib

/-!
# The connection string of a connection

`OdbcTuneConnectionString` and the assembly in `OdbcOpenHdbc`, and what is read back of
the string: the pairs of the base string, the options and the keywords of the tuning.
-/

namespace AdbcBridge.Delegate.OpenHdbc

open AdbcBridge.Lib AdbcBridge.Delegate.Keywords AdbcBridge.Delegate.ConnString

/-! ## The assembly -/

/-- What the process has around it: the sections of `odbc.ini`, nothing where one cannot
be read, and what a block of `malloc` holds that was not written. -/
structure System where
  windows : Bool
  odbcIni : Text → Option (List (Text × Text))
  heap : Text := []

/-- The part of `OdbcDatabase` a connection string is made from. -/
structure OdbcDatabase where
  connectionString : Option Text := none
  dsn : Option Text := none
  username : Option Text := none
  password : Option Text := none
  tune : Bool := true
  batchSize : Int := 1024
deriving DecidableEq, Repr

/-- The section `DsnGet` looks into; on Windows it reads none. -/
def System.section (sys : System) (name : Text) : Dsn where
  name := name
  entries := if sys.windows ∨ name = [] then none else sys.odbcIni name

/-- `OdbcConnStringKeyword`. -/
def odbcConnStringKeyword (sys : System) (conn dsn : Option Text) (key : Text) : Option Text :=
  (conn.bind fun conn => connStringGet conn key).or
    (dsn.bind fun name => dsnGet (sys.section name) key)

def odbcConnKeywordSet (sys : System) (conn dsn : Option Text) (key : Text) : Bool :=
  (odbcConnStringKeyword sys conn dsn key).isSome

/-- `isspace` in the C locale. -/
def isSpace (c : Char) : Bool := c = ' ' ∨ ('\t' ≤ c ∧ c ≤ '\r')

/-- `atoi` of a text: blanks, a sign, and the digits up to the first other character. -/
def atoi (s : Text) : Int :=
  let digits (t : Text) : Int := Nat.ofDigitChars 10 (t.takeWhile Char.isDigit) 0
  match s.dropWhile isSpace with
  | '-' :: t => -digits t
  | '+' :: t => digits t
  | t => digits t

def odbcConnKeywordIsOn (sys : System) (conn dsn : Option Text) (key : Text) : Bool :=
  (odbcConnStringKeyword sys conn dsn key).any fun v => atoi v ≠ 0

/-- `OdbcContainsNoCase`. -/
def odbcContainsNoCase (haystack needle : Text) : Bool :=
  (lower haystack).tails.any fun t => (lower needle).isPrefixOf t

/-- The rows psqlodbc is asked to fetch at a time. -/
def fetchRows (batchSize : Int) : Int :=
  if batchSize > 8192 then 65536
  else if batchSize > 1024 then batchSize * 8
  else 8192

/-- The tests for psqlodbc behind a connection. -/
def isPsqlodbc (sys : System) (conn dsn : Option Text) : Bool :=
  ((odbcConnStringKeyword sys conn dsn "Driver".toList).any fun driver =>
      odbcContainsNoCase driver "psqlodbc".toList || odbcContainsNoCase driver "podbc".toList ||
        odbcContainsNoCase driver "postgresql unicode".toList ||
        odbcContainsNoCase driver "postgresql ansi".toList) ||
    odbcConnKeywordSet sys conn dsn "UseDeclareFetch".toList

/-- The keywords `OdbcTuneConnectionString` adds. -/
def odbcTuneConnectionString (sys : System) (db : OdbcDatabase) : List (Text × Text) :=
  if db.tune then
    let conn := db.connectionString
    let dsn := db.dsn.or (odbcConnStringKeyword sys conn none "DSN".toList)
    (if odbcConnKeywordIsOn sys conn dsn "UseDeclareFetch".toList ∧
        ¬ odbcConnKeywordSet sys conn dsn "Fetch".toList then
      [("Fetch".toList, Decimal.intText (fetchRows db.batchSize))] else []) ++
    (if sys.windows ∧ isPsqlodbc sys conn dsn ∧
        ¬ odbcConnKeywordSet sys conn dsn "LFConversion".toList then
      [("LFConversion".toList, "0".toList)] else [])
  else []

/-- A keyword and its value as they stand. -/
def unquoted (kv : Text × Text) : Text := kv.1 ++ '=' :: (kv.2 ++ [';'])

/-- The options with a keyword of their own. -/
def options (db : OdbcDatabase) : List (Text × Text) :=
  (db.dsn.map fun dsn => ("DSN".toList, dsn)).toList ++
    (db.username.map fun username => ("UID".toList, username)).toList ++
    (db.password.map fun password => ("PWD".toList, password)).toList

/-- The base string, ended by a `;` unless it is empty. -/
def ended (s : Text) : Text := if s ≠ [] ∧ s.getLast? ≠ some ';' then s ++ [';'] else s

/-- The connection string of `OdbcOpenHdbc`. -/
def assembled (sys : System) (db : OdbcDatabase) : Text :=
  ended (db.connectionString.getD []) ++
    ((options db).flatMap unquoted ++ (odbcTuneConnectionString sys db).flatMap unquoted)

/-! ## Base strings -/

/-- An attribute and its pair: a plain value, or one in braces with text behind them. -/
inductive Attribute : Text → Text × Text → Prop where
  | plain (key : Keyword) (blanks value : Text) :
      (∀ c ∈ blanks, isBlank c) → ';' ∉ value → value.head? ≠ some '{' →
      Attribute (key.text ++ (blanks ++ '=' :: value)) (key.text, value)
  | quoted (key : Keyword) (blanks value junk : Text) :
      (∀ c ∈ blanks, isBlank c) → ';' ∉ junk → junk.head? ≠ some '}' →
      Attribute (key.text ++ (blanks ++ '=' :: (appendOdbcValue value ++ junk)))
        (key.text, value)

/-- Attributes with `;` between them, separators wherever they may stand. -/
inductive WellFormed : Text → List (Text × Text) → Prop where
  | nil : WellFormed [] []
  | separator {c : Char} {s : Text} {kvs : List (Text × Text)} :
      isSeparator c → WellFormed s kvs → WellFormed (c :: s) kvs
  | last {a : Text} {kv : Text × Text} : Attribute a kv → WellFormed a [kv]
  | next {a s : Text} {kv : Text × Text} {kvs : List (Text × Text)} :
      Attribute a kv → WellFormed s kvs → WellFormed (a ++ ';' :: s) (kv :: kvs)

theorem Attribute.pairs {a : Text} {kv : Text × Text} (h : Attribute a kv) {t : Text}
    (ht : t = [] ∨ t.head? = some ';') : connPairs (a ++ t) = kv :: connPairs t := by
  cases h with
  | plain key blanks value hblanks hvalue hbrace =>
      rw [List.append_assoc, List.append_assoc, List.cons_append, connPairs_pair key hblanks,
        readValue_plain hvalue hbrace ht]
  | quoted key blanks value junk hblanks hjunk hbrace =>
      rw [List.append_assoc, List.append_assoc, List.cons_append, connPairs_pair key hblanks,
        List.append_assoc, readValue_braced value hjunk hbrace ht]

theorem Attribute.ne_nil {a : Text} {kv : Text × Text} (h : Attribute a kv) : a ≠ [] := by
  cases h with
  | plain key => exact fun heq => key.nonempty (List.append_eq_nil_iff.mp heq).1
  | quoted key => exact fun heq => key.nonempty (List.append_eq_nil_iff.mp heq).1

/-- No attribute ends in a separator. -/
theorem Attribute.getLast {a : Text} {kv : Text × Text} (h : Attribute a kv) :
    a.getLast? ≠ some ';' := by
  cases h with
  | plain key blanks value hblanks hvalue hbrace =>
      intro hlast
      rw [List.getLast?_append_of_ne_nil _ (by simp),
        List.getLast?_append_of_ne_nil _ (by simp), List.getLast?_cons] at hlast
      cases hval : value.getLast? with
      | none => simp [hval] at hlast
      | some c =>
          rw [hval, Option.getD_some, Option.some.injEq] at hlast
          exact hvalue (hlast ▸ List.mem_of_getLast? hval)
  | quoted key blanks value junk hblanks hjunk hbrace =>
      intro hlast
      rw [List.getLast?_append_of_ne_nil _ (by simp),
        List.getLast?_append_of_ne_nil _ (by simp), List.getLast?_cons,
        List.getLast?_append] at hlast
      cases hjunkLast : junk.getLast? with
      | none =>
          rw [hjunkLast, appendOdbcValue, ← List.cons_append, List.getLast?_concat] at hlast
          simp at hlast
      | some c =>
          rw [hjunkLast, Option.some_or, Option.getD_some, Option.some.injEq] at hlast
          exact hjunk (hlast ▸ List.mem_of_getLast? hjunkLast)

/-- Behind a well-formed string and a `;` the reader starts afresh. -/
theorem WellFormed.append {s : Text} {kvs : List (Text × Text)} (h : WellFormed s kvs)
    {t : Text} (ht : t.head? = some ';') : connPairs (s ++ t) = kvs ++ connPairs t := by
  induction h with
  | nil => rfl
  | separator hc _ ih => rw [List.cons_append, connPairs_separator hc, ih]
  | last ha => exact ha.pairs (.inr ht)
  | next ha _ ih =>
      rw [List.append_assoc, ha.pairs (.inr rfl), List.cons_append,
        connPairs_separator (by decide), ih, List.cons_append]

theorem last_of_append {u s : Text} (h : (u ++ s).getLast? = some ';') :
    s = [] ∨ s.getLast? = some ';' := by
  rw [List.getLast?_append] at h
  cases hs : s.getLast? with
  | none => exact .inl (List.getLast?_eq_none_iff.mp hs)
  | some c =>
      rw [hs, Option.some_or] at h
      exact .inr h

/-- So it does where the string is empty or ends in a `;` of its own. -/
theorem WellFormed.append_last {s : Text} {kvs : List (Text × Text)} (h : WellFormed s kvs)
    (hs : s = [] ∨ s.getLast? = some ';') (t : Text) :
    connPairs (s ++ t) = kvs ++ connPairs t := by
  induction h with
  | nil => rfl
  | @separator c s kvs hc _ ih =>
      rw [List.cons_append, connPairs_separator hc]
      rcases hs with hs | hs
      · cases hs
      · exact ih (last_of_append (u := [c]) hs)
  | last ha =>
      rcases hs with hs | hs
      · exact absurd hs ha.ne_nil
      · exact absurd hs ha.getLast
  | @next a s kv kvs ha _ ih =>
      rw [List.append_assoc, ha.pairs (.inr rfl), List.cons_append,
        connPairs_separator (by decide), ih, List.cons_append]
      rcases hs with hs | hs
      · exact absurd (List.append_eq_nil_iff.mp hs).1 ha.ne_nil
      · apply last_of_append (u := a ++ [';'])
        rwa [List.append_assoc]

theorem WellFormed.append_to_ended {s : Text} {kvs : List (Text × Text)} (h : WellFormed s kvs)
    (t : Text) : connPairs (ended s ++ t) = kvs ++ connPairs t := by
  unfold ended
  split
  · rw [List.append_assoc, h.append rfl, List.cons_append, List.nil_append,
      connPairs_separator (by decide)]
  · rename_i hs
    apply h.append_last
    tauto

/-! ## Values as they stand -/

/-- A value that is read back as it stands. -/
def Bare (value : Text) : Prop := ';' ∉ value ∧ value.head? ≠ some '{'

instance (value : Text) : Decidable (Bare value) := by
  unfold Bare
  infer_instance

/-- A value does not stand behind itself with a brace in front. -/
theorem open_not_prefix (value t : Text) :
    ¬ '{' :: Doubled.escape '}' value <+: value ++ ';' :: t := by
  induction value with
  | nil =>
      intro h
      rw [List.nil_append, List.cons_prefix_cons] at h
      exact absurd h.1 (by decide)
  | cons c value ih =>
      intro h
      rw [List.cons_append, List.cons_prefix_cons] at h
      obtain ⟨rfl, hrest⟩ := h
      rw [Doubled.escape_cons, if_neg (by decide)] at hrest
      exact ih hrest

/-- What a brace opens is never read with the brace. -/
theorem readBraced_ne_open (value t : Text) :
    (readBraced (value ++ ';' :: t)).1 ≠ '{' :: value := by
  intro h
  obtain ⟨tail, htext, -⟩ := Doubled.escape_read '}' (value ++ ';' :: t)
  rw [← readBraced_eq, h, Doubled.escape_cons, if_neg (by decide)] at htext
  exact open_not_prefix value t ⟨tail, htext.symm⟩

theorem readValue_unquoted_iff {value t : Text} :
    (readValue (value ++ ';' :: t)).1 = value ↔ Bare value := by
  constructor
  · intro h
    by_cases hbrace : value.head? = some '{'
    · obtain ⟨rest, rfl⟩ := List.head?_eq_some_iff.mp hbrace
      exact absurd h (readBraced_ne_open rest t)
    · refine ⟨fun hmem => ?_, hbrace⟩
      rw [readValue] at h
      · rw [← h] at hmem
        have hne := List.mem_takeWhile_imp hmem
        simp at hne
      · intro s heq
        cases value with
        | nil => cases heq
        | cons c value => exact hbrace (congrArg List.head? heq)
  · intro h
    rw [readValue_plain h.1 h.2 (.inr rfl)]

theorem connPairs_unquoted (key : Keyword) (value t : Text) :
    connPairs (unquoted (key.text, value) ++ t) =
      (key.text, (readValue (value ++ ';' :: t)).1) ::
        connPairs (readValue (value ++ ';' :: t)).2 := by
  have htext : unquoted (key.text, value) ++ t =
      key.text ++ ([] ++ '=' :: (value ++ ';' :: t)) := by
    simp [unquoted]
  rw [htext, connPairs_pair key fun c hc => absurd hc List.not_mem_nil]

/-- Pairs written as they stand are read back exactly if each of the values may. -/
theorem connPairs_unquoted_iff {kvs : List (Text × Text)}
    (hkeys : ∀ kv ∈ kvs, ∃ key : Keyword, key.text = kv.1) {t : Text} :
    connPairs (kvs.flatMap unquoted ++ t) = kvs ++ connPairs t ↔ ∀ kv ∈ kvs, Bare kv.2 := by
  induction kvs with
  | nil => simp
  | cons kv kvs ih =>
      obtain ⟨k, value⟩ := kv
      obtain ⟨⟨key, rfl⟩, hrest⟩ := List.forall_mem_cons.mp hkeys
      rw [List.flatMap_cons, List.append_assoc, connPairs_unquoted, List.cons_append,
        List.cons.injEq, Prod.mk.injEq, List.forall_mem_cons, readValue_unquoted_iff]
      constructor
      · rintro ⟨⟨_, hbare⟩, htail⟩
        rw [readValue_plain hbare.1 hbare.2 (.inr rfl), connPairs_separator (by decide)] at htail
        exact ⟨hbare, (ih hrest).mp htail⟩
      · rintro ⟨hbare, hall⟩
        rw [readValue_plain hbare.1 hbare.2 (.inr rfl), connPairs_separator (by decide)]
        exact ⟨⟨rfl, hbare⟩, (ih hrest).mpr hall⟩

/-! ## The keywords of the assembly -/

def dsnKey : Keyword := .word "DSN".toList (by decide) (by decide)
def uidKey : Keyword := .word "UID".toList (by decide) (by decide)
def pwdKey : Keyword := .word "PWD".toList (by decide) (by decide)
def fetchKey : Keyword := .word "Fetch".toList (by decide) (by decide)
def lfConversionKey : Keyword := .word "LFConversion".toList (by decide) (by decide)

theorem options_keys {db : OdbcDatabase} {kv : Text × Text} (h : kv ∈ options db) :
    ∃ key : Keyword, key.text = kv.1 := by
  simp only [options, List.mem_append, Option.mem_toList, Option.map_eq_some_iff] at h
  rcases h with (⟨v, -, rfl⟩ | ⟨v, -, rfl⟩) | ⟨v, -, rfl⟩
  · exact ⟨dsnKey, rfl⟩
  · exact ⟨uidKey, rfl⟩
  · exact ⟨pwdKey, rfl⟩

/-- The tuning adds a number or a zero. -/
theorem tuned_cases {sys : System} {db : OdbcDatabase} {kv : Text × Text}
    (h : kv ∈ odbcTuneConnectionString sys db) :
    kv = ("Fetch".toList, Decimal.intText (fetchRows db.batchSize)) ∨
      kv = ("LFConversion".toList, "0".toList) := by
  unfold odbcTuneConnectionString at h
  dsimp only at h
  split at h
  · rw [List.mem_append] at h
    rcases h with h | h
    · split at h
      · exact .inl (List.mem_singleton.mp h)
      · exact absurd h List.not_mem_nil
    · split at h
      · exact .inr (List.mem_singleton.mp h)
      · exact absurd h List.not_mem_nil
  · exact absurd h List.not_mem_nil

theorem bare_intText (v : Int) : Bare (Decimal.intText v) := by
  have hchar : ∀ c ∈ Decimal.intText v, c ≠ ';' ∧ c ≠ '{' := by
    intro c hc
    rcases Decimal.mem_intText hc with rfl | hdigit
    · decide
    · constructor
      · rintro rfl
        exact absurd hdigit (by decide)
      · rintro rfl
        exact absurd hdigit (by decide)
  exact ⟨fun hmem => (hchar _ hmem).1 rfl,
    fun hhead => (hchar _ (List.mem_of_mem_head? hhead)).2 rfl⟩

/-- The keywords of the tuning are always read back as they were added. -/
theorem connPairs_tuned (sys : System) (db : OdbcDatabase) :
    connPairs ((odbcTuneConnectionString sys db).flatMap unquoted) =
      odbcTuneConnectionString sys db := by
  have hkeys : ∀ kv ∈ odbcTuneConnectionString sys db, ∃ key : Keyword, key.text = kv.1 := by
    intro kv hkv
    rcases tuned_cases hkv with rfl | rfl
    · exact ⟨fetchKey, rfl⟩
    · exact ⟨lfConversionKey, rfl⟩
  have hbare : ∀ kv ∈ odbcTuneConnectionString sys db, Bare kv.2 := by
    intro kv hkv
    rcases tuned_cases hkv with rfl | rfl
    · exact bare_intText _
    · decide
  have happ := (connPairs_unquoted_iff hkeys (t := [])).mpr hbare
  rwa [List.append_nil, connPairs_end connStringNext_nil, List.append_nil] at happ

/-! ## The assembled string -/

/-- The assembled string says what was given and nothing else. -/
def Unambiguous (sys : System) (db : OdbcDatabase) (kvs : List (Text × Text)) : Prop :=
  connPairs (assembled sys db) = kvs ++ options db ++ odbcTuneConnectionString sys db

theorem connPairs_assembled {sys : System} {db : OdbcDatabase} {kvs : List (Text × Text)}
    (hbase : WellFormed (db.connectionString.getD []) kvs) :
    connPairs (assembled sys db) = kvs ++ connPairs ((options db).flatMap unquoted ++
      (odbcTuneConnectionString sys db).flatMap unquoted) := by
  rw [assembled, hbase.append_to_ended]

/-- The assembled string is unambiguous exactly if no option holds a `;` or begins with
a brace. -/
theorem unambiguous_iff {sys : System} {db : OdbcDatabase} {kvs : List (Text × Text)}
    (hbase : WellFormed (db.connectionString.getD []) kvs) :
    Unambiguous sys db kvs ↔ ∀ kv ∈ options db, Bare kv.2 := by
  rw [Unambiguous, connPairs_assembled hbase, List.append_assoc, List.append_cancel_left_eq]
  rw [← connPairs_unquoted_iff fun kv hkv => options_keys hkv, connPairs_tuned]

/-- A server and a password with a `;` in it. -/
def splitPassword : OdbcDatabase where
  connectionString := some "Server=db".toList
  username := some "app".toList
  password := some "s;SSLmode=disable".toList

def plainSystem : System where
  windows := false
  odbcIni := fun _ => none

def serverKey : Keyword := .word "Server".toList (by decide) (by decide)

theorem wellFormed_server :
    WellFormed "Server=db".toList [("Server".toList, "db".toList)] :=
  .last (.plain serverKey [] "db".toList (fun c hc => absurd hc List.not_mem_nil) (by decide)
    (by decide))

/-- The end of such a password is read as a keyword of its own. -/
theorem splitPassword_ambiguous :
    WellFormed "Server=db".toList [("Server".toList, "db".toList)] ∧
      ¬ Unambiguous plainSystem splitPassword [("Server".toList, "db".toList)] ∧
      connStringGet (assembled plainSystem splitPassword) "PWD".toList = some "s".toList ∧
      connStringGet (assembled plainSystem splitPassword) "SSLmode".toList =
        some "disable".toList := by
  have hpairs : connPairs (assembled plainSystem splitPassword) =
      [("Server".toList, "db".toList), ("UID".toList, "app".toList), ("PWD".toList, "s".toList),
        ("SSLmode".toList, "disable".toList)] := by
    rw [connPairs_eq_pairsWithin (Nat.le_refl _)]
    decide +kernel
  refine ⟨wellFormed_server, ?_, ?_, ?_⟩
  · rw [Unambiguous, hpairs]
    decide
  · rw [connStringGet, hpairs]
    rfl
  · rw [connStringGet, hpairs]
    rfl

theorem unambiguous_plainPassword :
    Unambiguous plainSystem { splitPassword with password := some "s\x7d=x".toList }
      [("Server".toList, "db".toList)] :=
  (@unambiguous_iff plainSystem { splitPassword with password := some "s\x7d=x".toList } _
    wellFormed_server).mpr (by decide)

end AdbcBridge.Delegate.OpenHdbc
