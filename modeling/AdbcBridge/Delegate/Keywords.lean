import AdbcBridge.Lib.KeyValue
import AdbcBridge.Lib.Loop
import Mathlib.Data.List.DropRight

/-!
# The keywords of an ODBC connection

The connection string and the DSN section as key/value pairs, and what delegation
makes of each keyword: `ClassifyKeyword`, `ParsePqopt`, `AcceptKeyword` and
`CollectKeywords`.  Text is ASCII as far as it is compared; memory is not short.
-/

namespace AdbcBridge.Delegate.Keywords

open AdbcBridge.Lib

abbrev Text := List Char

/-- The form two keywords share when `EqualsNoCase` takes them for equal. -/
def lower (s : Text) : Text := s.map Char.toLower

/-- `InNameList`. -/
def inNameList (names : List Text) (value : Text) : Bool :=
  names.any fun name => lower name = lower value

/-! ## The connection string -/

/-- What separates pairs. -/
def isSeparator (c : Char) : Bool := c = ';' ∨ c = ' ' ∨ c = '\t' ∨ c = '\r' ∨ c = '\n'

def isBlank (c : Char) : Bool := c = ' ' ∨ c = '\t'

/-- A value in braces, up to the closing one; two of them stand for one. -/
def readBraced : Text → Text × Text
  | [] => ([], [])
  | '}' :: '}' :: s => ('}' :: (readBraced s).1, (readBraced s).2)
  | '}' :: s => ([], s)
  | c :: s => (c :: (readBraced s).1, (readBraced s).2)

theorem readBraced_length (s : Text) : (readBraced s).2.length ≤ s.length := by
  induction s using readBraced.induct with
  | case1 => exact Nat.le_refl _
  | case2 s ih =>
      rw [readBraced]
      simp only [List.length_cons]
      omega
  | case3 s hs =>
      rw [readBraced]
      · simp
      · exact hs
  | case4 c s h1 h2 ih =>
      rw [readBraced]
      · simp only [List.length_cons]
        omega
      · exact h1
      · exact h2

/-- The value behind a `=` and the text after it; what stands between a closing brace
and the next `;` is no part of either. -/
def readValue : Text → Text × Text
  | '{' :: s => ((readBraced s).1, (readBraced s).2.dropWhile (· ≠ ';'))
  | s => (s.takeWhile (· ≠ ';'), s.dropWhile (· ≠ ';'))

theorem readValue_length (s : Text) : (readValue s).2.length ≤ s.length := by
  unfold readValue
  split
  · rename_i s
    have hbraced := readBraced_length s
    have hrest := List.length_dropWhile_le (· ≠ ';') (readBraced s).2
    rw [List.length_cons]
    exact hrest.trans (hbraced.trans (Nat.le_succ _))
  · exact List.length_dropWhile_le _ _

/-- `ConnStringNext`: the next pair and the text after it. -/
def connStringNext (s : Text) : Option ((Text × Text) × Text) :=
  let p := s.dropWhile isSeparator
  match p.dropWhile (· ≠ '=') with
  | [] => none
  | _ :: v =>
      let key := (p.takeWhile (· ≠ '=')).rdropWhile isBlank
      some ((key, (readValue v).1), (readValue v).2)

/-- A pair takes at least its `=`. -/
theorem connStringNext_length {s : Text} {kv : Text × Text} {rest : Text}
    (h : connStringNext s = some (kv, rest)) : rest.length < s.length := by
  have hp := List.length_dropWhile_le isSeparator s
  have heq := List.length_dropWhile_le (· ≠ '=') (s.dropWhile isSeparator)
  unfold connStringNext at h
  dsimp only at h
  split at h
  · cases h
  · rename_i c v hv
    rw [Option.some.injEq, Prod.mk.injEq] at h
    have hvalue := readValue_length v
    rw [hv, List.length_cons] at heq
    rw [← h.2]
    omega

/-- The pairs of a connection string, in order. -/
def connPairs (s : Text) : List (Text × Text) :=
  match _h : connStringNext s with
  | none => []
  | some (kv, rest) => kv :: connPairs rest
termination_by s.length
decreasing_by exact connStringNext_length _h

theorem connPairs_next {s rest : Text} {kv : Text × Text}
    (h : connStringNext s = some (kv, rest)) : connPairs s = kv :: connPairs rest := by
  rw [connPairs]
  split
  · rename_i hnext
    rw [h] at hnext
    cases hnext
  · rename_i kv' rest' hnext
    rw [h] at hnext
    cases hnext
    rfl

theorem connPairs_end {s : Text} (h : connStringNext s = none) : connPairs s = [] := by
  rw [connPairs]
  split
  · rfl
  · rename_i kv rest hnext
    rw [h] at hnext
    cases hnext

/-- `ConnStringGet`: the value of the first pair of a key. -/
def connStringGet (conn key : Text) : Option Text := KeyValue.get lower (connPairs conn) key

/-! ## The DSN section -/

/-- A DSN: its name and its section of `odbc.ini`, nothing where the driver manager
cannot enumerate it. -/
structure Dsn where
  name : Text
  entries : Option (List (Text × Text))
deriving DecidableEq, Repr

/-- `DsnGet`: an empty value is none. -/
def dsnGet (dsn : Dsn) (key : Text) : Option Text :=
  (KeyValue.get lower (dsn.entries.getD []) key).filter (· ≠ [])

/-- `ProfileNames` of the section: each name once. -/
def profileNames (dsn : Dsn) : Option (List Text) :=
  dsn.entries.map fun entries => ((entries.map Prod.fst).filter (· ≠ [])).eraseDups

/-- `KeywordGet`: the connection string first, then the DSN section; an empty value
counts as none. -/
def keywordGet (conn : Text) (dsn : Option Dsn) (aliases : List Text) : Option Text :=
  (aliases.findSome? fun key => (connStringGet conn key).filter (· ≠ [])).or
    (dsn.bind fun dsn => aliases.findSome? fun key => dsnGet dsn key)

/-! ## Classes of keywords -/

/-- `enum OdbcNativeFamily`. -/
inductive OdbcNativeFamily where
  | none
  | postgresql
  | sqlite
  | duckdb
  | snowflake
  | bigquery
  | flightsql
deriving DecidableEq, Repr

/-- `FamilyDriverName`, with the `native` of its callers. -/
def familyDriverName : OdbcNativeFamily → Text
  | .postgresql => "postgresql".toList
  | .sqlite => "sqlite".toList
  | .duckdb => "duckdb".toList
  | .snowflake => "snowflake".toList
  | .bigquery => "bigquery".toList
  | .flightsql => "flightsql".toList
  | .none => "native".toList

def names (words : List String) : List Text := words.map String.toList

def kHostKeys : List Text := names ["Server", "Servername", "Host", "Hostname"]
def kPortKeys : List Text := names ["Port"]
def kDatabaseKeys : List Text := names ["Database", "DB", "Data Source", "Dbname"]
def kUserKeys : List Text := names ["Uid", "User", "Username"]
def kPasswordKeys : List Text := names ["Pwd", "Password"]

def kConsumedKeys : List Text :=
  names ["Driver", "DSN", "Server", "Servername", "Host", "Hostname", "Port", "Database", "DB",
    "Dbname", "Data Source", "Uid", "User", "Username", "Pwd", "Password"]

def kIgnoredKeys : List Text :=
  names ["Description", "Trace", "TraceFile", "TraceLib", "Setup", "UsageCount", "Threading",
    "FileUsage", "CPTimeout", "CPReuse", "DriverODBCVer", "SaveFile", "Driver_Name"]

def kPgIgnoredKeys : List Text :=
  names ["UseDeclareFetch", "Fetch", "Protocol", "BoolsAsChar", "Debug", "CommLog", "Optimizer",
    "Ksqo", "UniqueIndex", "UnknownSizes", "TextAsLongVarchar", "UnknownsAsLongVarchar",
    "MaxVarcharSize", "MaxLongVarcharSize", "ExtraSysTablePrefixes", "LFConversion",
    "UpdatableCursors", "TrueIsMinus1", "ByteaAsLongVarBinary", "UseServerSidePrepare",
    "LowerCaseIdentifier", "RowVersioning", "ShowSystemTables", "ShowOidColumn",
    "FakeOidIndex", "DisallowPremature", "Parse", "CancelAsFreeStmt", "XaOpt"]

def kPgForwardKeys : List Text :=
  names ["sslmode", "sslrootcert", "sslcert", "sslkey", "sslcrl", "sslcompression", "sslsni",
    "gssencmode", "channel_binding", "krbsrvname", "pgkrbsrvname", "connect_timeout",
    "application_name", "options", "target_session_attrs", "require_auth", "load_balance_hosts"]

def kPqoptKeys : List Text :=
  names ["sslmode", "sslrootcert", "sslcert", "sslkey", "sslcrl", "sslcompression", "sslsni",
    "sslpassword", "gssencmode", "channel_binding", "krbsrvname", "connect_timeout",
    "application_name", "options", "target_session_attrs", "require_auth", "keepalives",
    "keepalives_idle", "keepalives_interval", "keepalives_count", "load_balance_hosts",
    "client_encoding", "fallback_application_name", "hostaddr", "service", "passfile"]

def kSqliteIgnoredKeys : List Text :=
  names ["StepAPI", "ShortNames", "LongNames", "NoWCHAR", "BigInt", "OEMCP"]

def kDuckdbIgnoredKeys : List Text := names ["custom_user_agent"]

/-- `enum KeywordClass`; a forwarded keyword with the name of its parameter, `pqopt`
on its own. -/
inductive KeywordClass where
  | unknown
  | consumed
  | ignored
  | forward (param : Text)
  | pqopt
deriving DecidableEq, Repr

/-- The class of a keyword among psqlodbc's. -/
def classifyPg (key : Text) : KeywordClass :=
  if inNameList kPgIgnoredKeys key then .ignored
  else
    match kPgForwardKeys.find? fun name => lower name = lower key with
    | some name =>
        if lower key = "pgkrbsrvname".toList then .forward "krbsrvname".toList
        else .forward name
    | none => if lower key = "pqopt".toList then .pqopt else .unknown

/-- `ClassifyKeyword`. -/
def classifyKeyword (family : OdbcNativeFamily) (key : Text) : KeywordClass :=
  if key = [] then .ignored
  else if inNameList kConsumedKeys key then .consumed
  else if inNameList kIgnoredKeys key then .ignored
  else
    match family with
    | .postgresql => classifyPg key
    | .sqlite => if inNameList kSqliteIgnoredKeys key then .ignored else .unknown
    | .duckdb => if inNameList kDuckdbIgnoredKeys key then .ignored else .unknown
    | _ => .unknown

/-! ## The pqopt block -/

/-- A value in single quotes; a backslash takes the next character as it is. -/
def readQuoted : Text → Text × Text
  | [] => ([], [])
  | '\\' :: c :: s => (c :: (readQuoted s).1, (readQuoted s).2)
  | c :: s => if c = '\'' then ([], s) else (c :: (readQuoted s).1, (readQuoted s).2)

/-- A value up to the next blank. -/
def readBare : Text → Text × Text
  | [] => ([], [])
  | '\\' :: c :: s => (c :: (readBare s).1, (readBare s).2)
  | c :: s => if isBlank c then ([], c :: s) else (c :: (readBare s).1, (readBare s).2)

def readPqoptValue : Text → Text × Text
  | '\'' :: s => readQuoted s
  | s => readBare s

theorem readQuoted_length (s : Text) : (readQuoted s).2.length ≤ s.length := by
  induction s using readQuoted.induct with
  | case1 => exact Nat.le_refl _
  | case2 c s ih =>
      rw [readQuoted]
      simp only [List.length_cons]
      omega
  | case3 s hs =>
      rw [readQuoted, if_pos rfl]
      · simp
      · exact hs
  | case4 c s hs hc ih =>
      rw [readQuoted, if_neg hc]
      · simp only [List.length_cons]
        omega
      · exact hs

theorem readBare_length (s : Text) : (readBare s).2.length ≤ s.length := by
  induction s using readBare.induct with
  | case1 => exact Nat.le_refl _
  | case2 c s ih =>
      rw [readBare]
      simp only [List.length_cons]
      omega
  | case3 c s hs hc =>
      rw [readBare, if_pos hc]
      exact hs
  | case4 c s hs hc ih =>
      rw [readBare, if_neg hc]
      · simp only [List.length_cons]
        omega
      · exact hs

theorem readPqoptValue_length (s : Text) : (readPqoptValue s).2.length ≤ s.length := by
  unfold readPqoptValue
  split
  · exact (readQuoted_length _).trans (Nat.le_succ _)
  · exact readBare_length _

/-- The first option of a `pqopt` block, its value and the text after it; `none` where
it does not parse. -/
def pqoptNext (s : Text) : Option ((Text × Text) × Text) :=
  let key := s.takeWhile fun c => c ≠ '=' ∧ ¬ isBlank c
  if key.length = 0 ∨ 64 ≤ key.length then none
  else
    match (s.drop key.length).dropWhile isBlank with
    | '=' :: v =>
        let value := readPqoptValue (v.dropWhile isBlank)
        some ((key, value.1), value.2)
    | _ => none

theorem pqoptNext_length {s rest : Text} {kv : Text × Text}
    (h : pqoptNext s = some (kv, rest)) : rest.length < s.length := by
  unfold pqoptNext at h
  dsimp only at h
  split at h
  · cases h
  · split at h
    · rename_i v hv
      rw [Option.some.injEq, Prod.mk.injEq] at h
      have hdrop := List.length_dropWhile_le isBlank
        (s.drop (s.takeWhile fun c => c ≠ '=' ∧ ¬ isBlank c).length)
      have hblank := List.length_dropWhile_le isBlank v
      have hvalue := readPqoptValue_length (v.dropWhile isBlank)
      rw [hv, List.length_cons, List.length_drop] at hdrop
      rw [← h.2]
      omega
    · cases h

/-- The options of a block as `ParsePqopt` scans them, or why one of them stops delegation. -/
def pqoptOptions (s : Text) : Except Text (List (Text × Text)) :=
  if s.dropWhile isBlank = [] then .ok []
  else
    match _h : pqoptNext (s.dropWhile isBlank) with
    | none => .error "could not parse the psqlodbc pqopt=\x7b...\x7d block".toList
    | some (kv, rest) =>
        if inNameList kPqoptKeys kv.1 then
          match pqoptOptions rest with
          | .error why => .error why
          | .ok kvs => .ok (kv :: kvs)
        else
          .error ("the libpq option \"".toList ++ kv.1 ++
            "\" from pqopt=\x7b...\x7d cannot be handed to the native driver".toList)
termination_by s.length
decreasing_by
  have := pqoptNext_length _h
  have := List.length_dropWhile_le isBlank s
  omega

/-- An option as it is recorded.  Nothing is written to the buffer of an empty value, and what is
read of it is what the block of `malloc` holds. -/
def recorded (heap : Text) (kv : Text × Text) : Text × Text :=
  (kv.1, if kv.2 = [] then heap else kv.2)

/-- `ParsePqopt`, with what a block of `malloc` holds that was not written. -/
def parsePqopt (heap s : Text) : Except Text (List (Text × Text)) :=
  (pqoptOptions s).map (List.map (recorded heap))

/-! ## Collecting the keywords -/

/-- What a keyword adds to the parameters of the native URI, or why it stops
delegation. -/
def paramsOf (heap : Text) (family : OdbcNativeFamily) (kv : Text × Text) :
    Except Text (List (Text × Text)) :=
  match classifyKeyword family kv.1 with
  | .consumed => .ok []
  | .ignored => .ok []
  | .forward param => .ok (if kv.2 = [] then [] else [(param, kv.2)])
  | .pqopt => parsePqopt heap kv.2
  | .unknown =>
      .error ("the ODBC keyword \"".toList ++ kv.1 ++
        "\" has no equivalent in the native ".toList ++ familyDriverName family ++
        " driver, so delegating would silently change the connection".toList)

/-- `AcceptKeyword`. -/
def acceptKeyword (heap : Text) (family : OdbcNativeFamily) (params : List (Text × Text))
    (kv : Text × Text) : Except Text (List (Text × Text)) :=
  match paramsOf heap family kv with
  | .error why => .error why
  | .ok new => .ok (KeyValue.addAll lower params new)

/-- What delegation is given of a connection. -/
structure OdbcDelegateTarget where
  connectionString : Text
  dsn : Option Dsn := none
  username : Option Text := none
  password : Option Text := none
deriving DecidableEq, Repr

/-- Every keyword of the DSN section and then of the connection string; none where the
section cannot be enumerated. -/
def keywords (t : OdbcDelegateTarget) : Option (List (Text × Text)) :=
  match t.dsn with
  | none => some (connPairs t.connectionString)
  | some dsn =>
      (profileNames dsn).map fun names =>
        names.map (fun name => (name, (dsnGet dsn name).getD [])) ++ connPairs t.connectionString

/-- `CollectKeywords`: the parameters of the native URI. -/
def collectKeywords (heap : Text) (family : OdbcNativeFamily) (t : OdbcDelegateTarget) :
    Except Text (List (Text × Text)) :=
  match keywords t with
  | none =>
      .error ("the keywords of DSN \"".toList ++ (t.dsn.map Dsn.name).getD [] ++
        "\" cannot be enumerated, so they cannot be checked".toList)
  | some kvs => kvs.foldlM (acceptKeyword heap family) []

/-- The parameters among some keywords. -/
def allParams (heap : Text) (family : OdbcNativeFamily) (kvs : List (Text × Text)) :
    List (Text × Text) :=
  kvs.flatMap fun kv => (paramsOf heap family kv).toOption.getD []

/-- Keywords that are all accepted leave the parameters they add, a later one in the
place of an earlier one. -/
theorem foldlM_acceptKeyword {heap : Text} {family : OdbcNativeFamily}
    {kvs params result : List (Text × Text)}
    (h : kvs.foldlM (acceptKeyword heap family) params = .ok result) :
    (∀ kv ∈ kvs, ∃ new, paramsOf heap family kv = .ok new) ∧
      result = KeyValue.addAll lower params (allParams heap family kvs) := by
  induction kvs generalizing params with
  | nil =>
      simp only [List.foldlM_nil, pure, Except.pure, Except.ok.injEq] at h
      exact ⟨fun kv hkv => absurd hkv List.not_mem_nil, h.symm⟩
  | cons kv kvs ih =>
      rw [List.foldlM_cons] at h
      cases hnew : paramsOf heap family kv with
      | error why => simp [acceptKeyword, hnew, bind, Except.bind] at h
      | ok new =>
          simp only [acceptKeyword, hnew, bind, Except.bind] at h
          obtain ⟨hall, hresult⟩ := ih h
          refine ⟨List.forall_mem_cons.mpr ⟨⟨new, hnew⟩, hall⟩, ?_⟩
          rw [hresult, allParams, allParams, List.flatMap_cons, hnew]
          simp only [Except.toOption, Option.getD_some, KeyValue.addAll, List.foldl_append]

theorem collectKeywords_ok {heap : Text} {family : OdbcNativeFamily} {t : OdbcDelegateTarget}
    {params : List (Text × Text)} (h : collectKeywords heap family t = .ok params) :
    ∃ kvs, keywords t = some kvs ∧ (∀ kv ∈ kvs, ∃ new, paramsOf heap family kv = .ok new) ∧
      params = KeyValue.addAll lower [] (allParams heap family kvs) := by
  unfold collectKeywords at h
  cases hkvs : keywords t with
  | none => simp [hkvs] at h
  | some kvs =>
      rw [hkvs] at h
      exact ⟨kvs, rfl, foldlM_acceptKeyword h⟩

/-- A parameter a keyword carries is among those collected, with its value or one that
came later under its name. -/
theorem params_of_mem {heap : Text} {family : OdbcNativeFamily} {kvs new : List (Text × Text)}
    {kv : Text × Text} {name value : Text} (hkv : kv ∈ kvs)
    (hnew : paramsOf heap family kv = .ok new) (hmem : (name, value) ∈ new) :
    ∃ w j, KeyValue.get lower (KeyValue.addAll lower [] (allParams heap family kvs)) name = some w ∧
      (j, w) ∈ allParams heap family kvs ∧ lower j = lower name := by
  apply KeyValue.get_addAll_of_mem
  rw [allParams, List.mem_flatMap]
  exact ⟨kv, hkv, by simpa [hnew, Except.toOption] using hmem⟩

/-- A keyword of an unknown class stops the collection. -/
theorem paramsOf_ok_known {heap : Text} {family : OdbcNativeFamily} {kv : Text × Text}
    {new : List (Text × Text)} (h : paramsOf heap family kv = .ok new) :
    classifyKeyword family kv.1 ≠ .unknown := by
  intro hunknown
  simp [paramsOf, hunknown] at h

end AdbcBridge.Delegate.Keywords
