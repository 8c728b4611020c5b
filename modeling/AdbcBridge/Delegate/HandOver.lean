import AdbcBridge.Delegate.Options
import AdbcBridge.Delegate.SameSettings
import AdbcBridge.Lib.Script

/-!
# Handing a database over

`OdbcDelegateTryInit`: a native driver is found for the target and loaded, a native database is
stood up behind it and tried out, and only then is the database handed over.  Until then a failure
leaves the database to ODBC, and nothing of the native driver behind.  What the loader and the
native driver answer is an argument.
-/

namespace AdbcBridge.Delegate.HandOver

open AdbcBridge.Adbc AdbcBridge.Lib AdbcBridge.Lib.Script AdbcBridge.Delegate.Keywords
  AdbcBridge.Delegate.ParseUri AdbcBridge.Delegate.NativeUri AdbcBridge.Delegate.NativeToOdbc
  AdbcBridge.Delegate.OpenHdbc AdbcBridge.Delegate.SameSettings AdbcBridge.Delegate.Options

/-! ## The target -/

/-- `LooksLikePath`: more than letters, digits, `_` and `-`. -/
def looksLikePath (value : Text) : Bool := value.any fun c => ¬ (c.isAlphanum ∨ c = '_' ∨ c = '-')

/-- `FamilyFromDriverName`. -/
def familyFromDriverName (name : Text) : OdbcNativeFamily :=
  if containsNoCase name "postgres".toList then .postgresql
  else if containsNoCase name "sqlite".toList then .sqlite
  else if containsNoCase name "duckdb".toList then .duckdb
  else if containsNoCase name "snowflake".toList then .snowflake
  else if containsNoCase name "bigquery".toList then .bigquery
  else if containsNoCase name "flightsql".toList || containsNoCase name "flight_sql".toList then
    .flightsql
  else .none

structure NativeTarget where
  driverName : Text
  uri : Text
  family : OdbcNativeFamily
  uriVerbatim : Bool
deriving DecidableEq

/-- What no native driver is known for. -/
def unknownDriver (t : OdbcDelegateTarget) : Text :=
  "no native ADBC driver is known for ".toList ++
    match given (keywordGet t.connectionString t.dsn ["Driver".toList]), t.dsn with
    | some driver, _ => "ODBC driver \"".toList ++ driver ++ "\"".toList
    | none, some dsn => "DSN \"".toList ++ dsn.name ++ "\"".toList
    | none, none => "this connection string".toList

/-- `DetectNative`, for a target that is no URI of a native driver. -/
def detectOdbc (heap : Text) (t : OdbcDelegateTarget) (driver : Option Text) :
    Except Text NativeTarget :=
  let family :=
    match driver with
    | some name => familyFromDriverName name
    | none => familyFromOdbcDriver ((keywordGet t.connectionString t.dsn ["Driver".toList]).getD [])
  if family = .none then
    .error (match driver with
      | some _ =>
          ("adbc.odbc.delegate.driver does not name a known database family; " ++
            "pass a native URI as \"uri\"").toList
      | none => unknownDriver t)
  else
    match buildNativeUri heap family t with
    | .error why => .error why
    | .ok uri =>
        .ok { driverName := driver.getD (familyDriverName family), uri := uri.text
              family := family, uriVerbatim := false }

/-- `DetectNative`. -/
def detectNative (heap : Text) (t : OdbcDelegateTarget) (driver : Option Text) :
    Except Text NativeTarget :=
  match familyFromUri t.connectionString with
  | (.none, _) => detectOdbc heap t (given driver)
  | (family, rest) =>
      .ok { driverName := (given driver).getD (familyDriverName family)
            uri :=
              if family = .sqlite ∨ family = .duckdb then pathFromUriRest (rest.getD [])
              else t.connectionString
            family := family, uriVerbatim := true }

/-! ## The native driver -/

/-- What a native driver makes for its caller, and the driver itself. -/
inductive Handle where
  | array
  | schema
  | stream
  | statement
  | connection
  | database
  | driver
deriving DecidableEq

inductive NativeCall where
  | load
  | databaseNew
  | databaseSetOption (key value : Text)
  | databaseInit
  | connectionNew
  | connectionInit
  | statementNew
  | statementSetSqlQuery (query : Text)
  | statementExecuteQuery
  | getSchema
  | getNext
  | release (h : Handle)
deriving DecidableEq

/-- A native driver that was loaded: whether it is the bridge again, what reading its streams comes
to where they have no `get_schema`, what it answers to the last of the calls made so far, and what
it holds for the caller after them. -/
structure Native where
  isSelf : Bool := false
  schemaless : Option Text := none
  answer : List NativeCall → Option (AdbcStatusCode × Option Text)
  holds : Handle → List NativeCall → Bool

/-- The handle a call is there to make. -/
def NativeCall.makes : NativeCall → Option Handle
  | .load => some .driver
  | .databaseNew => some .database
  | .connectionNew => some .connection
  | .statementNew => some .statement
  | .statementExecuteQuery => some .stream
  | .getSchema => some .schema
  | .getNext => some .array
  | _ => none

def Native.party (n : Native) : Party NativeCall (AdbcStatusCode × Option Text) where
  cannot c := if c = .getSchema then n.schemaless.map fun detail => (.io, some detail) else none
  fault := n.answer

def Native.handles (n : Native) : Handles NativeCall Handle where
  makes := NativeCall.makes
  release := .release
  holds := n.holds

/-! ## Trying it out -/

def kProbeQuery : Text := "SELECT version()".toList

/-- `ProbeNative`: the log after it, and why the driver is not to be had. -/
def probeNative (n : Native) (name : Text) (log : List NativeCall) :
    List NativeCall × Option Text :=
  let opened := n.party.tellAll { log := log } [.connectionNew, .connectionInit]
  let queried := n.party.tellAll opened
    [.statementNew, .statementSetSqlQuery kProbeQuery, .statementExecuteQuery]
  let read := n.party.tellAll queried [.getSchema, .getNext]
  let stage :=
    if opened.failure.isSome then "open a connection to".toList
    else if queried.failure.isSome then "run a query on".toList
    else "read a result from".toList
  (n.handles.closeAll [.array, .schema, .stream, .statement, .connection] read.log,
    read.failure.map fun f =>
      "the native \"".toList ++ name ++ "\" driver initialized but could not ".toList ++ stage ++
        " the server, so the connection stays on ODBC".toList ++
        match given f.2 with
        | some detail => ": ".toList ++ detail
        | none => [])

/-! ## Standing it up -/

/-- `UriWithParams`. -/
def uriWithParams (uri : Text) (params : List (Text × Text)) : Text :=
  match params.map fun e => encoded e.1 ++ ['='] ++ encoded e.2 with
  | [] => uri
  | first :: rest =>
      uri ++ (if '?' ∈ uri then '&' else '?') :: List.intercalate ['&'] (first :: rest)

def uriOption : Text := "uri".toList
def usernameOption : Text := "username".toList
def passwordOption : Text := "password".toList

/-- The credentials that are no part of a URI the caller named. -/
def credentials (t : OdbcDelegateTarget) : List (Text × Text) :=
  (t.username.map fun v => (usernameOption, v)).toList ++
    (t.password.map fun v => (passwordOption, v)).toList

/-- The same, as a libpq URI has them. -/
def pgCredentials (t : OdbcDelegateTarget) : List (Text × Text) :=
  (t.username.map fun v => ("user".toList, v)).toList ++
    (t.password.map fun v => ("password".toList, v)).toList

def setCalls (options : List (Text × Text)) : List NativeCall :=
  options.map fun e => .databaseSetOption e.1 e.2

abbrev Progress := Told NativeCall (AdbcStatusCode × Option Text)

/-- The credentials are told apart from the URI, or else with it where the driver takes only that;
the text is why neither is possible. -/
def tellCredentials (n : Native) (t : OdbcDelegateTarget) (info : NativeTarget)
    (p : Progress) : Progress × Option Text :=
  if p.failure.isNone ∧ info.uriVerbatim ∧ credentials t ≠ [] then
    let told := n.party.tellAll p (setCalls (credentials t))
    if told.failure.isNone then (told, none)
    else if info.family = .postgresql then
      (n.party.tell { log := told.log }
        (.databaseSetOption uriOption (uriWithParams info.uri (pgCredentials t))), none)
    else
      (told, some ("the native \"".toList ++ info.driverName ++
        ("\" driver does not accept a separate username/password; put the " ++
          "credentials in the URI").toList))
  else (p, none)

/-- The native database with its options, up to what failed; and why, where that is no answer of
the driver. -/
def standUp (n : Native) (t : OdbcDelegateTarget) (info : NativeTarget)
    (pass : List (Text × Text)) : Progress × Option Text :=
  let p := n.party.tellAll { log := [.load] } [.databaseNew, .databaseSetOption uriOption info.uri]
  let p := tellCredentials n t info p
  let told := n.party.tellAll p.1 (setCalls pass)
  (n.party.tell told .databaseInit, p.2)

/-- Why the driver did not come up. -/
def rejected (info : NativeTarget) (f : AdbcStatusCode × Option Text) (why : Option Text) : Text :=
  why.getD ("the native \"".toList ++ info.driverName ++ "\" driver rejected the target".toList ++
    match f.2 with
    | some message => ": ".toList ++ message
    | none => [])

/-! ## The hand-over -/

/-- What was decided: the options after it, the driver that was loaded with its calls, whether it
serves the database, and the error. -/
structure Decision where
  opts : OdbcDelegateOptions
  native : Option Native := none
  log : List NativeCall := []
  delegated : Bool := false
  error : Option AdbcError := none

/-- `DelegateGiveUp`. -/
def giveUp (opts : OdbcDelegateOptions) (why : Text) (code : AdbcStatusCode)
    (native : Option Native) (log : List NativeCall) : Decision where
  opts := { opts with lastError := some why, delegatedTo := some toOdbc }
  native := native
  log := log
  error :=
    if opts.mode = .always then some ⟨code, delegateKey ++ "=always but ".toList ++ why⟩ else none

/-- `OdbcDelegateProxyRelease`. -/
def proxyRelease (n : Native) (log : List NativeCall) : List NativeCall :=
  n.handles.closeAll [.database, .driver] log

/-- A database stood up for an ODBC target is tried out, unless the native driver is insisted on. -/
def tryOut (n : Native) (info : NativeTarget) (opts : OdbcDelegateOptions)
    (log : List NativeCall) : List NativeCall × Option Text :=
  if ¬ info.uriVerbatim ∧ opts.mode ≠ .always ∧ info.family = .postgresql then
    probeNative n info.driverName log
  else (log, none)

/-- The hand-over to a driver that was loaded for the target. -/
def handOver (n : Native) (t : OdbcDelegateTarget) (info : NativeTarget)
    (opts : OdbcDelegateOptions) : Decision :=
  if n.isSelf then
    giveUp opts ("adbc.odbc.delegate.driver resolves to adbcbridge itself; " ++
      "refusing to delegate to this driver").toList .invalidArgument (some n)
      (n.handles.close .driver [.load])
  else
    let up := standUp n t info opts.pass
    match up.1.failure with
    | some f =>
        let why := rejected info f up.2
        let log := proxyRelease n up.1.log
        -- A URI the caller named is nothing ODBC could serve.
        if info.uriVerbatim then
          { opts := { opts with lastError := some why, delegatedTo := some toOdbc }
            native := some n, log := log, error := some ⟨f.1, why⟩ }
        else giveUp opts why f.1 (some n) log
    | none =>
        match tryOut n info opts up.1.log with
        | (log, some why) => giveUp opts why .io (some n) (proxyRelease n log)
        | (log, none) =>
            { opts := { opts with delegatedTo := some info.driverName }
              native := some n, log := log, delegated := true }

/-- What the loader comes to. -/
inductive Loading where
  | noManager
  | notLoaded (why : Text)
  | loaded (n : Native)

/-- The option that names a path, where none is allowed. -/
def offender (opts : OdbcDelegateOptions) : Option Text :=
  if opts.allowPaths then none
  else if looksLikePath (opts.driver.getD []) then some driverKey
  else if given opts.searchPath ≠ none then some searchPathKey
  else none

/-- `OdbcDelegateTryInit`. -/
def tryInit (sys : System) (load : NativeTarget → Loading) (t : OdbcDelegateTarget)
    (opts : OdbcDelegateOptions) : Decision :=
  let opts := { opts with initialized := true }
  if opts.mode = .never then
    { opts := { opts with
        delegatedTo := some toOdbc
        lastError := some "delegation is off (adbc.odbc.delegate=never)".toList } }
  else
    match offender opts with
    | some key =>
        { opts := { opts with
            delegatedTo := some toOdbc
            lastError := some "delegation by path is not allowed".toList }
          error := some ⟨.invalidArgument,
            key ++ (" names a filesystem path; only a bare driver name (letters, digits, '_' " ++
              "and '-') such as \"postgresql\" is accepted by default. Loading a shared " ++
              "library by path is opt-in: set ").toList ++ allowPathsKey ++
              "=true or ADBC_ODBC_DELEGATE_ALLOW_PATHS=1.".toList⟩ }
    | none =>
        match detectNative sys.heap t opts.driver with
        | .error why => giveUp opts why .notFound none []
        | .ok info =>
            if sys.windows then
              giveUp opts ("native delegation is not implemented on Windows: the ADBC driver " ++
                "manager's loader is only resolved through dlopen/dlsym").toList
                .notImplemented none []
            else
              match load info with
              | .noManager =>
                  giveUp opts
                    "the ADBC driver manager's loader (AdbcLoadDriver) was not found".toList
                    .notFound none []
              | .notLoaded why => giveUp opts why .notFound none []
              | .loaded n => handOver n t info opts

/-! ## What is left of a driver -/

section Left

variable {n : Native} {t : OdbcDelegateTarget} {info : NativeTarget} {pass : List (Text × Text)}
  {opts : OdbcDelegateOptions} {name : Text} {log : List NativeCall}

/-- The calls that stand a database up. -/
def NativeCall.isSetup : NativeCall → Bool
  | .databaseNew => true
  | .databaseSetOption _ _ => true
  | .databaseInit => true
  | _ => false

/-- The options by which a driver is told of its target. -/
def targetKeys : List Text := [uriOption, usernameOption, passwordOption]

def NativeCall.SetsTarget (c : NativeCall) : Prop :=
  ∃ key ∈ targetKeys, ∃ value, c = .databaseSetOption key value

theorem credentials_setsTarget : ∀ c ∈ setCalls (credentials t), c.SetsTarget := by
  intro c hc
  obtain ⟨e, he, rfl⟩ := List.mem_map.mp hc
  rw [credentials, List.mem_append, Option.mem_toList, Option.mem_toList, Option.map_eq_some_iff,
    Option.map_eq_some_iff] at he
  rcases he with ⟨value, -, rfl⟩ | ⟨value, -, rfl⟩
  · exact ⟨usernameOption, by simp [targetKeys], value, rfl⟩
  · exact ⟨passwordOption, by simp [targetKeys], value, rfl⟩

theorem setCalls_isSetup {options : List (Text × Text)} :
    ∀ c ∈ setCalls options, c.isSetup = true := by
  intro c hc
  obtain ⟨e, -, rfl⟩ := List.mem_map.mp hc
  rfl

/-- What the calls that stand a database up keep. -/
theorem standUp_keeps {P : List NativeCall → Prop} (hload : P [.load])
    (hstep : ∀ log c, NativeCall.isSetup c = true → P log → P (log ++ [c])) :
    P (standUp n t info pass).1.log := by
  have htell : ∀ (p : Progress) (script : List NativeCall),
      (∀ c ∈ script, c.isSetup = true) → P p.log → P (n.party.tellAll p script).log :=
    fun p script hsetup hlog =>
      Party.tellAll_keeps hlog fun log c hc => hstep log c (hsetup c hc)
  have hfirst := htell { log := [.load] } [.databaseNew, .databaseSetOption uriOption info.uri]
    (by simp [NativeCall.isSetup]) hload
  have hcreds : P (tellCredentials n t info (n.party.tellAll { log := [.load] }
      [.databaseNew, .databaseSetOption uriOption info.uri])).1.log := by
    have htold := htell _ (setCalls (credentials t)) setCalls_isSetup hfirst
    unfold tellCredentials
    dsimp only
    split_ifs
    · exact htold
    · exact htell { log := _ } [.databaseSetOption uriOption _] (by simp [NativeCall.isSetup]) htold
    · exact htold
    · exact hfirst
  exact htell _ [.databaseInit] (by simp [NativeCall.isSetup])
    (htell _ (setCalls pass) setCalls_isSetup hcreds)

theorem release_isSetup {h : Handle} {c : NativeCall} (hsetup : c.isSetup = true) :
    c ≠ .release h := by
  rintro rfl
  exact nomatch hsetup

theorem makes_isSetup {h : Handle} {c : NativeCall} (hsetup : c.isSetup = true)
    (hmakes : c.makes = some h) : h = .database := by
  cases c with
  | databaseNew => exact (Option.some.inj hmakes).symm
  | databaseSetOption key value => exact nomatch hmakes
  | databaseInit => exact nomatch hmakes
  | _ => exact nomatch hsetup

theorem standUp_proper : n.handles.Proper (standUp n t info pass).1.log := by
  apply standUp_keeps
  · exact Handles.proper_append Handles.proper_nil fun h heq => nomatch heq
  · intro log c hsetup hproper
    exact Handles.proper_append hproper fun h heq => absurd heq (release_isSetup hsetup)

/-- A database that is being stood up is all there is. -/
theorem standUp_gone {h : Handle} (hlaw : n.handles.Lawful) (hdatabase : h ≠ .database)
    (hdriver : h ≠ .driver) : n.holds h (standUp n t info pass).1.log = false := by
  apply standUp_keeps (P := fun log => n.holds h log = false)
  · apply hlaw.made h [] .load
    · exact fun heq => hdriver (Option.some.inj heq).symm
    · exact hlaw.start h
  · intro log c hsetup hgone
    exact hlaw.made h log c (fun hmakes => hdatabase (makes_isSetup hsetup hmakes)) hgone

theorem standUp_release {h : Handle} :
    NativeCall.release h ∉ (standUp n t info pass).1.log := by
  apply standUp_keeps (P := fun log => NativeCall.release h ∉ log)
  · simp
  · intro log c hsetup hmem
    rw [List.mem_append, List.mem_singleton, not_or]
    exact ⟨hmem, fun heq => release_isSetup hsetup heq.symm⟩

/-- The handles of one connection, in the order in which they are given back. -/
def probeHandles : List Handle := [.array, .schema, .stream, .statement, .connection]

/-- The calls that try a driver out. -/
def probeCalls : List NativeCall :=
  [.connectionNew, .connectionInit, .statementNew, .statementSetSqlQuery kProbeQuery,
    .statementExecuteQuery, .getSchema, .getNext]

theorem probeNative_log :
    (probeNative n name log).1 =
      n.handles.closeAll probeHandles (n.party.tellAll { log := log } probeCalls).log := rfl

theorem probeNative_proper (hlaw : n.handles.Lawful) (hlog : n.handles.Proper log) :
    n.handles.Proper (probeNative n name log).1 := by
  rw [probeNative_log]
  apply Handles.proper_closeAll hlaw
  apply Handles.proper_tellAll hlog
  intro c hc h
  fin_cases hc <;> exact nofun

theorem probeNative_gone {h : Handle} (hlaw : n.handles.Lawful) (hdatabase : h ≠ .database)
    (hdriver : h ≠ .driver) : n.holds h (probeNative n name log).1 = false := by
  rw [probeNative_log]
  apply Handles.closeAll_gone hlaw
  cases h with
  | database => exact absurd rfl hdatabase
  | driver => exact absurd rfl hdriver
  | _ => decide

theorem probeNative_release {h : Handle} (hprobe : h ∉ probeHandles)
    (hlog : NativeCall.release h ∉ log) :
    NativeCall.release h ∉ (probeNative n name log).1 := by
  rw [probeNative_log]
  apply Handles.closeAll_keeps (P := fun log => NativeCall.release h ∉ log)
  · apply Party.tellAll_keeps (P := fun log => NativeCall.release h ∉ log) hlog
    intro log c hc hmem
    rw [List.mem_append, List.mem_singleton, not_or]
    refine ⟨hmem, ?_⟩
    fin_cases hc <;> exact nofun
  · intro log h' hmem' hmem
    rw [List.mem_append, List.mem_singleton, not_or]
    refine ⟨hmem, fun heq => hprobe ?_⟩
    rw [NativeCall.release.inj heq]
    exact hmem'

/-- A driver that is released has nothing left. -/
theorem proxyRelease_gone {h : Handle} (hlaw : n.handles.Lawful)
    (hgone : h ≠ .database → h ≠ .driver → n.holds h log = false) :
    n.holds h (proxyRelease n log) = false := by
  by_cases hdatabase : h = .database
  · exact Handles.closeAll_gone hlaw (by rw [hdatabase]; exact List.mem_cons_self)
  by_cases hdriver : h = .driver
  · exact Handles.closeAll_gone hlaw (by simp [hdriver])
  · exact Handles.gone_closeAll hlaw (hgone hdatabase hdriver)

theorem tryOut_proper (hlaw : n.handles.Lawful) (hlog : n.handles.Proper log) :
    n.handles.Proper (tryOut n info opts log).1 := by
  unfold tryOut
  split_ifs
  · exact probeNative_proper hlaw hlog
  · exact hlog

theorem tryOut_gone {h : Handle} (hlaw : n.handles.Lawful) (hdatabase : h ≠ .database)
    (hdriver : h ≠ .driver) (hgone : n.holds h log = false) :
    n.holds h (tryOut n info opts log).1 = false := by
  unfold tryOut
  split_ifs
  · exact probeNative_gone hlaw hdatabase hdriver
  · exact hgone

theorem tryOut_release {h : Handle} (hprobe : h ∉ probeHandles)
    (hlog : NativeCall.release h ∉ log) :
    NativeCall.release h ∉ (tryOut n info opts log).1 := by
  unfold tryOut
  split_ifs
  · exact probeNative_release hprobe hlog
  · exact hlog

/-- The driver that was loaded is handed over with its database and nothing else, or not at all. -/
structure GivenBack (n : Native) (d : Decision) : Prop where
  proper : n.handles.Proper d.log
  back : d.delegated = false → ∀ h, n.holds h d.log = false
  given : d.delegated = true → ∀ h, n.holds h d.log = true → h = .database ∨ h = .driver
  stays : d.delegated = true →
    NativeCall.release .database ∉ d.log ∧ NativeCall.release .driver ∉ d.log

theorem givenBack_of_gone {d : Decision} (hdelegated : d.delegated = false)
    (hproper : n.handles.Proper d.log) (hgone : ∀ h, n.holds h d.log = false) :
    GivenBack n d where
  proper := hproper
  back _ := hgone
  given h := by
    rw [hdelegated] at h
    exact nomatch h
  stays h := by
    rw [hdelegated] at h
    exact nomatch h

theorem givenBack_released {d : Decision} (hlaw : n.handles.Lawful)
    (hdelegated : d.delegated = false) (hlog : d.log = proxyRelease n log)
    (hproper : n.handles.Proper log)
    (hgone : ∀ h, h ≠ .database → h ≠ .driver → n.holds h log = false) : GivenBack n d := by
  apply givenBack_of_gone hdelegated
  · rw [hlog]
    exact Handles.proper_closeAll hlaw hproper
  · intro h
    rw [hlog]
    exact proxyRelease_gone hlaw (hgone h)

/-- A hand-over is given up, fails with the driver's own error, or goes through. -/
theorem handOver_cases (n : Native) (t : OdbcDelegateTarget) (info : NativeTarget)
    (opts : OdbcDelegateOptions) :
    (∃ why code log, handOver n t info opts = giveUp opts why code (some n) log) ∨
      (info.uriVerbatim = true ∧ ∃ why status log, handOver n t info opts =
        { opts := { opts with lastError := some why, delegatedTo := some toOdbc }
          native := some n, log := log, error := some ⟨status, why⟩ }) ∨
      ∃ log, handOver n t info opts =
        { opts := { opts with delegatedTo := some info.driverName }
          native := some n, log := log, delegated := true } := by
  unfold handOver
  cases n.isSelf with
  | true => exact Or.inl ⟨_, _, _, rfl⟩
  | false =>
      rw [if_neg Bool.false_ne_true]
      dsimp only
      cases (standUp n t info opts.pass).1.failure with
      | some f =>
          cases hverbatim : info.uriVerbatim with
          | true => exact Or.inr (Or.inl ⟨rfl, _, _, _, rfl⟩)
          | false => exact Or.inl ⟨_, _, _, rfl⟩
      | none =>
          dsimp only
          generalize tryOut n info opts (standUp n t info opts.pass).1.log = out
          obtain ⟨log, why⟩ := out
          cases why with
          | some why => exact Or.inl ⟨_, _, _, rfl⟩
          | none => exact Or.inr (Or.inr ⟨_, rfl⟩)

theorem handOver_native : (handOver n t info opts).native = some n := by
  obtain ⟨why, code, log, heq⟩ | ⟨-, why, status, log, heq⟩ | ⟨log, heq⟩ :=
    handOver_cases n t info opts
  · rw [heq, giveUp]
  · rw [heq]
  · rw [heq]

theorem handOver_givenBack (hlaw : n.handles.Lawful) :
    GivenBack n (handOver n t info opts) := by
  have hup := @standUp_proper n t info opts.pass
  have hgone := fun h => @standUp_gone n t info opts.pass h hlaw
  unfold handOver
  cases hself : n.isSelf with
  | true =>
      refine givenBack_of_gone rfl ?_ ?_
      · exact Handles.proper_close hlaw (Handles.proper_append Handles.proper_nil nofun)
      · intro h
        by_cases hdriver : h = .driver
        · rw [hdriver]
          exact Handles.close_gone hlaw
        · apply Handles.gone_close hlaw
          apply hlaw.made h [] .load
          · exact fun heq => hdriver (Option.some.inj heq).symm
          · exact hlaw.start h
  | false =>
      rw [if_neg Bool.false_ne_true]
      dsimp only
      cases hfail : (standUp n t info opts.pass).1.failure with
      | some f =>
          dsimp only
          split_ifs
          · exact givenBack_released hlaw rfl rfl hup hgone
          · exact givenBack_released hlaw rfl rfl hup hgone
      | none =>
          dsimp only
          have hproper := @tryOut_proper n info opts _ hlaw hup
          have hleft := fun h hdatabase hdriver =>
            @tryOut_gone n info opts _ h hlaw hdatabase hdriver (hgone h hdatabase hdriver)
          have hstays := fun h hprobe =>
            @tryOut_release n info opts _ h hprobe (@standUp_release n t info opts.pass h)
          generalize tryOut n info opts (standUp n t info opts.pass).1.log = tried at *
          obtain ⟨log, why⟩ := tried
          cases why with
          | some why => exact givenBack_released hlaw rfl rfl hproper hleft
          | none =>
              refine ⟨hproper, nofun, ?_, fun _ => ⟨hstays _ ?_, hstays _ ?_⟩⟩
              · intro _ h hholds
                by_contra hother
                rw [not_or] at hother
                rw [hleft h hother.1 hother.2] at hholds
                exact nomatch hholds
              · decide
              · decide

/-- Delegation is off, or a path is refused, or no driver is to be had, or one is loaded and it is
settled whether the database is handed over to it. -/
theorem tryInit_cases (sys : System) (load : NativeTarget → Loading) (t : OdbcDelegateTarget)
    (opts : OdbcDelegateOptions) :
    (opts.mode = .never ∧ ∃ why, tryInit sys load t opts =
        { opts := { opts with
            initialized := true, delegatedTo := some toOdbc, lastError := some why } }) ∨
      (opts.mode ≠ .never ∧ offender opts ≠ none ∧ ∃ why e, tryInit sys load t opts =
        { opts := { opts with
            initialized := true, delegatedTo := some toOdbc, lastError := some why }
          error := some e }) ∨
      (opts.mode ≠ .never ∧ ∃ why code, tryInit sys load t opts =
        giveUp { opts with initialized := true } why code none []) ∨
      ∃ n info, opts.mode ≠ .never ∧ offender opts = none ∧
        detectNative sys.heap t opts.driver = .ok info ∧ load info = .loaded n ∧
        tryInit sys load t opts = handOver n t info { opts with initialized := true } := by
  by_cases hmode : opts.mode = .never
  · refine Or.inl ⟨hmode, "delegation is off (adbc.odbc.delegate=never)".toList, ?_⟩
    rw [tryInit, if_pos hmode]
  have hoff : offender { opts with initialized := true } = offender opts := rfl
  refine Or.inr ?_
  simp only [tryInit, hmode, if_false, hoff]
  cases offender opts with
  | some key => exact Or.inl ⟨hmode, Option.some_ne_none key, _, _, rfl⟩
  | none =>
      refine Or.inr ?_
      cases detectNative sys.heap t opts.driver with
      | error why => exact Or.inl ⟨hmode, _, _, rfl⟩
      | ok info =>
          cases sys.windows with
          | true => exact Or.inl ⟨hmode, _, _, rfl⟩
          | false =>
              dsimp only
              rw [if_neg Bool.false_ne_true]
              cases hload : load info with
              | noManager => exact Or.inl ⟨hmode, _, _, rfl⟩
              | notLoaded why => exact Or.inl ⟨hmode, _, _, rfl⟩
              | loaded n => exact Or.inr ⟨n, info, hmode, rfl, rfl, hload, rfl⟩

/-- However far a hand-over gets, the native driver is left with the database it serves, or with
nothing; and it never gives back what is not there. -/
theorem native_driver_given_back {sys : System} {load : NativeTarget → Loading}
    (hn : (tryInit sys load t opts).native = some n) (hlaw : n.handles.Lawful) :
    GivenBack n (tryInit sys load t opts) := by
  obtain ⟨-, why, heq⟩ | ⟨-, -, why, e, heq⟩ | ⟨-, why, code, heq⟩ | ⟨n', info, -, -, -, -, heq⟩ :=
    tryInit_cases sys load t opts
  · rw [heq] at hn
    exact nomatch hn
  · rw [heq] at hn
    exact nomatch hn
  · rw [heq] at hn
    exact nomatch hn
  · rw [heq, handOver_native] at hn
    rw [heq, Option.some.inj hn]
    exact handOver_givenBack hlaw

end Left

/-- A driver that keeps to the rules: what was made and not released since is there. -/
def pending (h : Handle) (log : List NativeCall) : Bool :=
  log.foldl (fun there c =>
    if c.makes = some h then true else if c = .release h then false else there) false

theorem pending_lawful {n : Native} (hholds : n.holds = pending) : n.handles.Lawful where
  injective h h' heq := NativeCall.release.inj heq
  start h := by
    change n.holds h [] = false
    rw [hholds]
    rfl
  release_makes h := rfl
  released h log := by
    change n.holds h (log ++ [.release h]) = false
    rw [hholds, pending, List.foldl_append]
    simp [NativeCall.makes]
  made h log c hmakes hgone := by
    change n.holds h (log ++ [c]) = false
    change n.holds h log = false at hgone
    change c.makes ≠ some h at hmakes
    rw [hholds] at hgone ⊢
    rw [pending] at hgone
    rw [pending, List.foldl_append, hgone]
    simp [hmakes]

/-- A driver that comes up and then cannot open the file. -/
def unreadable : Native where
  answer log :=
    if log.getLast? = some .databaseInit then some (.io, some "no such file".toList) else none
  holds := pending

def sqliteTarget : OdbcDelegateTarget := { connectionString := "sqlite:a.db".toList }

theorem unreadable_given_back :
    GivenBack unreadable (tryInit { windows := false, odbcIni := fun _ => none }
      (fun _ => .loaded unreadable) sqliteTarget {}) :=
  native_driver_given_back rfl (pending_lawful rfl)

/-! ## What a driver that serves was told -/

section Served

variable {n : Native} {t : OdbcDelegateTarget} {info : NativeTarget} {pass : List (Text × Text)}
  {opts : OdbcDelegateOptions}

/-- The log has grown by calls of one kind. -/
def Grown (kind : NativeCall → Prop) (log log' : List NativeCall) : Prop :=
  ∃ sent, log' = log ++ sent ∧ ∀ c ∈ sent, kind c

theorem grown_refl {kind : NativeCall → Prop} {log : List NativeCall} : Grown kind log log :=
  ⟨[], by simp, by simp⟩

theorem grown_append {kind : NativeCall → Prop} {log log' : List NativeCall} {c : NativeCall}
    (hgrown : Grown kind log log') (hc : kind c) : Grown kind log (log' ++ [c]) := by
  obtain ⟨sent, rfl, hsent⟩ := hgrown
  refine ⟨sent ++ [c], by simp, ?_⟩
  intro d hd
  rw [List.mem_append, List.mem_singleton] at hd
  cases hd with
  | inl hd => exact hsent d hd
  | inr heq =>
      rw [heq]
      exact hc

theorem grown_tellAll {kind : NativeCall → Prop} {log : List NativeCall} {p : Progress}
    {script : List NativeCall} (hgrown : Grown kind log p.log) (hkind : ∀ c ∈ script, kind c) :
    Grown kind log (n.party.tellAll p script).log :=
  Party.tellAll_keeps hgrown fun _ c hc hlog => grown_append hlog (hkind c hc)

/-- Credentials that are taken are calls more, one way or the other. -/
theorem tellCredentials_sent {p : Progress}
    (hend : (tellCredentials n t info p).1.failure = none) :
    p.failure = none ∧
      Grown NativeCall.SetsTarget p.log (tellCredentials n t info p).1.log := by
  have htold : Grown NativeCall.SetsTarget p.log
      (n.party.tellAll p (setCalls (credentials t))).log :=
    grown_tellAll grown_refl credentials_setsTarget
  unfold tellCredentials at hend ⊢
  dsimp only at hend ⊢
  split_ifs at hend ⊢ with hcreds hgood hfamily
  · exact ⟨Option.isNone_iff_eq_none.mp hcreds.1, htold⟩
  · refine ⟨Option.isNone_iff_eq_none.mp hcreds.1, ?_⟩
    exact @grown_tellAll n NativeCall.SetsTarget _ { log := _ } [.databaseSetOption uriOption _]
      htold (by simp [NativeCall.SetsTarget, targetKeys])
  · exact absurd (Option.isNone_iff_eq_none.mpr hend) hgood
  · exact ⟨hend, grown_refl⟩

/-- A database that comes up was told everything, in order. -/
theorem standUp_sent (hend : (standUp n t info pass).1.failure = none) :
    ∃ creds, (∀ c ∈ creds, NativeCall.SetsTarget c) ∧
      (standUp n t info pass).1.log =
        [.load, .databaseNew, .databaseSetOption uriOption info.uri] ++ creds ++ setCalls pass ++
          [.databaseInit] := by
  have hall : (standUp n t info pass).1 = n.party.tellAll (n.party.tellAll (tellCredentials n t info
      (n.party.tellAll { log := [.load] }
        [.databaseNew, .databaseSetOption uriOption info.uri])).1 (setCalls pass))
      [.databaseInit] := rfl
  rw [hall] at hend ⊢
  have hinit := Party.tellAll_sent hend
  have hpass := Party.tellAll_sent hinit.1
  obtain ⟨hfirst, creds, hcreds, hsetup⟩ := tellCredentials_sent hpass.1
  have hnew := Party.tellAll_sent hfirst
  refine ⟨creds, hsetup, ?_⟩
  rw [hinit.2, hpass.2, hcreds, hnew.2]
  simp

/-- What a call tells of an option. -/
def NativeCall.valueOf (key : Text) : NativeCall → Option Text
  | .databaseSetOption k value => if k = key then some value else none
  | _ => none

/-- The values a driver was told of an option, in order. -/
def valuesTold (key : Text) (log : List NativeCall) : List Text :=
  log.filterMap (NativeCall.valueOf key)

theorem valuesTold_append {key : Text} {log log' : List NativeCall} :
    valuesTold key (log ++ log') = valuesTold key log ++ valuesTold key log' :=
  List.filterMap_append

theorem valuesTold_other {key : Text} {log : List NativeCall}
    (hother : ∀ c ∈ log, c.valueOf key = none) : valuesTold key log = [] :=
  List.filterMap_eq_nil_iff.mpr hother

theorem valueOf_setsTarget {key : Text} {c : NativeCall} (hkey : key ∉ targetKeys)
    (hc : c.SetsTarget) : c.valueOf key = none := by
  obtain ⟨k, hk, value, rfl⟩ := hc
  rw [NativeCall.valueOf, if_neg]
  intro heq
  rw [heq] at hk
  exact hkey hk

theorem valueOf_isSetup {key : Text} {c : NativeCall} (hc : c.isSetup = false) :
    c.valueOf key = none := by
  cases c with
  | databaseSetOption k value => exact absurd hc Bool.true_eq_false_eq_False
  | _ => rfl

/-- Options that are told one by one are each told once. -/
theorem valuesTold_setCalls {key : Text} {options : List (Text × Text)}
    (hdistinct : (options.map Prod.fst).Nodup) :
    valuesTold key (setCalls options) = (KeyValue.get id options key).toList := by
  rw [← KeyValue.filterMap_eq_get hdistinct, valuesTold, setCalls, List.filterMap_map]
  rfl

/-- Trying a driver out sets nothing up. -/
theorem tryOut_grown {log : List NativeCall} :
    Grown (·.isSetup = false) log (tryOut n info opts log).1 := by
  unfold tryOut
  split_ifs
  · rw [probeNative_log]
    apply Handles.closeAll_keeps (P := Grown (·.isSetup = false) log)
    · apply grown_tellAll grown_refl
      intro c hc
      fin_cases hc <;> rfl
    · exact fun _ _ _ hlog => grown_append hlog rfl
  · exact grown_refl

/-- A driver that serves the database was told of it and of every option, and then to come up; it is
told no more of that. -/
theorem handOver_served (hdelegated : (handOver n t info opts).delegated = true) :
    (handOver n t info opts).error = none ∧
      ∃ creds tried, (∀ c ∈ creds, NativeCall.SetsTarget c) ∧
        (∀ c ∈ tried, NativeCall.isSetup c = false) ∧
        (handOver n t info opts).log =
          [.load, .databaseNew, .databaseSetOption uriOption info.uri] ++ creds ++
            setCalls opts.pass ++ [.databaseInit] ++ tried := by
  unfold handOver at hdelegated ⊢
  cases hself : n.isSelf with
  | true =>
      rw [hself] at hdelegated
      exact nomatch hdelegated
  | false =>
      rw [hself, if_neg Bool.false_ne_true] at hdelegated
      rw [if_neg Bool.false_ne_true]
      dsimp only at hdelegated ⊢
      cases hfail : (standUp n t info opts.pass).1.failure with
      | some f =>
          rw [hfail] at hdelegated
          dsimp only at hdelegated
          split_ifs at hdelegated
          exact nomatch hdelegated
      | none =>
          rw [hfail] at hdelegated
          dsimp only at hdelegated ⊢
          obtain ⟨creds, hsetup, hlog⟩ := standUp_sent hfail
          obtain ⟨tried, htried, hquiet⟩ :=
            @tryOut_grown n info opts (standUp n t info opts.pass).1.log
          generalize tryOut n info opts (standUp n t info opts.pass).1.log = out at *
          obtain ⟨log, why⟩ := out
          cases why with
          | some why => exact nomatch hdelegated
          | none => exact ⟨rfl, creds, tried, hsetup, hquiet, by rw [← hlog]; exact htried⟩

theorem handOver_keeps : (handOver n t info opts).opts.pass = opts.pass ∧
    (handOver n t info opts).opts.initialized = opts.initialized := by
  obtain ⟨why, code, log, heq⟩ | ⟨-, why, status, log, heq⟩ | ⟨log, heq⟩ :=
    handOver_cases n t info opts
  · rw [heq, giveUp]
    exact ⟨rfl, rfl⟩
  · rw [heq]
    exact ⟨rfl, rfl⟩
  · rw [heq]
    exact ⟨rfl, rfl⟩

/-- A driver that is insisted on serves the database, or there is an error. -/
theorem handOver_always (hmode : opts.mode = .always) :
    (handOver n t info opts).delegated = true ∨ (handOver n t info opts).error ≠ none := by
  obtain ⟨why, code, log, heq⟩ | ⟨-, why, status, log, heq⟩ | ⟨log, heq⟩ :=
    handOver_cases n t info opts
  · rw [heq, giveUp, hmode]
    exact Or.inr (Option.some_ne_none _)
  · rw [heq]
    exact Or.inr (Option.some_ne_none _)
  · rw [heq]
    exact Or.inl rfl

/-- A driver that was only looked for is no error where ODBC can serve the database. -/
theorem handOver_auto (hmode : opts.mode = .auto) (hodbc : info.uriVerbatim = false) :
    (handOver n t info opts).error = none := by
  obtain ⟨why, code, log, heq⟩ | ⟨hverbatim, why, status, log, heq⟩ | ⟨log, heq⟩ :=
    handOver_cases n t info opts
  · rw [heq, giveUp, hmode]
    rfl
  · rw [hodbc] at hverbatim
    exact nomatch hverbatim
  · rw [heq]

theorem detectNative_verbatim {heap : Text} {driver : Option Text}
    (hodbc : (familyFromUri t.connectionString).1 = .none)
    (hinfo : detectNative heap t driver = .ok info) : info.uriVerbatim = false := by
  unfold detectNative at hinfo
  split at hinfo
  · unfold detectOdbc at hinfo
    dsimp only at hinfo
    split_ifs at hinfo
    split at hinfo
    · exact nomatch hinfo
    · rw [← Except.ok.inj hinfo]
  · next family rest hnot heq =>
      rw [heq] at hodbc
      exact absurd hodbc hnot

variable {sys : System} {load : NativeTarget → Loading}

/-- The decision is made, and the options for a native driver are as they were. -/
theorem tryInit_keeps : (tryInit sys load t opts).opts.pass = opts.pass ∧
    (tryInit sys load t opts).opts.initialized = true := by
  obtain ⟨-, why, heq⟩ | ⟨-, -, why, e, heq⟩ | ⟨-, why, code, heq⟩ | ⟨n, info, -, -, -, -, heq⟩ :=
    tryInit_cases sys load t opts
  · rw [heq]
    exact ⟨rfl, rfl⟩
  · rw [heq]
    exact ⟨rfl, rfl⟩
  · rw [heq, giveUp]
    exact ⟨rfl, rfl⟩
  · rw [heq]
    exact handOver_keeps

/-- A driver that serves the database was told of it and of every option. -/
theorem tryInit_served (hdelegated : (tryInit sys load t opts).delegated = true) :
    ∃ (info : NativeTarget) (creds tried : List NativeCall),
      (∀ c ∈ creds, c.SetsTarget) ∧ (∀ c ∈ tried, c.isSetup = false) ∧
      (tryInit sys load t opts).log =
        [.load, .databaseNew, .databaseSetOption uriOption info.uri] ++ creds ++
          setCalls opts.pass ++ [.databaseInit] ++ tried := by
  obtain ⟨-, why, heq⟩ | ⟨-, -, why, e, heq⟩ | ⟨-, why, code, heq⟩ | ⟨n, info, -, -, -, -, heq⟩ :=
    tryInit_cases sys load t opts
  · rw [heq] at hdelegated
    exact nomatch hdelegated
  · rw [heq] at hdelegated
    exact nomatch hdelegated
  · rw [heq] at hdelegated
    exact nomatch hdelegated
  · rw [heq] at hdelegated ⊢
    exact ⟨info, (handOver_served hdelegated).2⟩

theorem tryInit_native (hdelegated : (tryInit sys load t opts).delegated = true) :
    ∃ n, (tryInit sys load t opts).native = some n := by
  obtain ⟨-, why, heq⟩ | ⟨-, -, why, e, heq⟩ | ⟨-, why, code, heq⟩ | ⟨n, info, -, -, -, -, heq⟩ :=
    tryInit_cases sys load t opts
  · rw [heq] at hdelegated
    exact nomatch hdelegated
  · rw [heq] at hdelegated
    exact nomatch hdelegated
  · rw [heq] at hdelegated
    exact nomatch hdelegated
  · exact ⟨n, by rw [heq, handOver_native]⟩

/-- With delegation off no driver is touched, and that is no error. -/
theorem tryInit_never (hmode : opts.mode = .never) :
    (tryInit sys load t opts).native = none ∧ (tryInit sys load t opts).delegated = false ∧
      (tryInit sys load t opts).error = none := by
  rw [tryInit, if_pos hmode]
  exact ⟨rfl, rfl, rfl⟩

/-- A driver that is insisted on serves the database, or there is an error. -/
theorem tryInit_always (hmode : opts.mode = .always) :
    (tryInit sys load t opts).delegated = true ∨ (tryInit sys load t opts).error ≠ none := by
  obtain ⟨hnever, -⟩ | ⟨-, -, why, e, heq⟩ | ⟨-, why, code, heq⟩ | ⟨n, info, -, -, -, -, heq⟩ :=
    tryInit_cases sys load t opts
  · rw [hmode] at hnever
    exact nomatch hnever
  · rw [heq]
    exact Or.inr (Option.some_ne_none e)
  · rw [heq, giveUp, hmode]
    exact Or.inr (Option.some_ne_none _)
  · rw [heq]
    exact handOver_always hmode

/-- Looking for a driver is no error for an ODBC target that names no path. -/
theorem tryInit_auto (hmode : opts.mode = .auto) (hpath : offender opts = none)
    (hodbc : (familyFromUri t.connectionString).1 = .none) :
    (tryInit sys load t opts).error = none := by
  obtain ⟨-, why, heq⟩ | ⟨-, hoff, -⟩ | ⟨-, why, code, heq⟩ | ⟨n, info, -, -, hinfo, -, heq⟩ :=
    tryInit_cases sys load t opts
  · rw [heq]
  · exact absurd hpath hoff
  · rw [heq, giveUp, hmode]
    rfl
  · rw [heq]
    exact handOver_auto hmode (detectNative_verbatim hodbc hinfo)

end Served

end AdbcBridge.Delegate.HandOver
