import AdbcBridge.Delegate.Keywords

/-!
# The native URI of an ODBC connection

`BuildNativeUri` and `BuildPostgresUri`, the values a connection gives for each setting, and what a
URI that is built was built from.
-/

namespace AdbcBridge.Delegate.NativeUri

open AdbcBridge.Lib AdbcBridge.Delegate.Keywords

/-! ## The URI -/

/-- The parts of a PostgreSQL URI; a part that is missing is not written, and a missing
host is written as `localhost`. -/
structure PostgresUri where
  user : Option Text
  password : Option Text
  host : Option Text
  port : Option Text
  database : Option Text
  params : List (Text × Text)
deriving DecidableEq, Repr

inductive Uri where
  | postgres (uri : PostgresUri)
  | file (path : Text)
deriving DecidableEq, Repr

def isUnreserved (c : Char) : Bool :=
  c.isAlphanum ∨ c = '-' ∨ c = '.' ∨ c = '_' ∨ c = '~'

def kHex : List Char := "0123456789ABCDEF".toList

/-- `AppendEncoded`. -/
def encoded (s : Text) : Text :=
  s.flatMap fun c =>
    if isUnreserved c then [c]
    else ['%', kHex.getD (c.toNat / 16) '0', kHex.getD (c.toNat % 16) '0']

/-- A host without the brackets of an IPv6 literal. -/
def unbracketed (h : Text) : Text :=
  if h.head? = some '[' ∧ 2 ≤ h.length ∧ h.getLast? = some ']' ∧ h.length - 2 < 256 then
    (h.drop 1).dropLast
  else h

/-- A host that is the directory of a Unix-domain socket. -/
def isSocket (h : Text) : Bool := h.head? = some '/' ∨ h.head? = some '@'

/-- The characters of an IPv6 address. -/
def isAddressChar (c : Char) : Bool :=
  c.isDigit ∨ ('a' ≤ c ∧ c ≤ 'f') ∨ ('A' ≤ c ∧ c ≤ 'F') ∨ c = ':' ∨ c = '.'

/-- The host and port of the authority, when the host is no socket. -/
def authority (host port : Option Text) : Text :=
  match host with
  | none => encoded "localhost".toList ++ portText
  | some h =>
      if isSocket h then []
      else if ':' ∈ unbracketed h then ['['] ++ unbracketed h ++ [']'] ++ portText
      else encoded (unbracketed h) ++ portText
where
  portText : Text :=
    match port with
    | none => []
    | some p => ':' :: p

/-- The parameters behind the path, a socket's host and port in front. -/
def queryParams (host port : Option Text) (params : List (Text × Text)) : List Text :=
  (match host with
    | none => []
    | some h =>
        if isSocket h then
          ("host=".toList ++ encoded h) ::
            (match port with
              | none => []
              | some p => ["port=".toList ++ p])
        else []) ++
    params.map fun e => encoded e.1 ++ ['='] ++ encoded e.2

/-- The text of the URI. -/
def PostgresUri.text (u : PostgresUri) : Text :=
  "postgresql://".toList ++
    (match u.user with
      | none => []
      | some user =>
          encoded user ++
            (match u.password with
              | none => []
              | some password => ':' :: encoded password) ++ ['@']) ++
    authority u.host u.port ++ ['/'] ++ encoded (u.database.getD []) ++
    match queryParams u.host u.port u.params with
    | [] => []
    | first :: rest => '?' :: List.intercalate ['&'] (first :: rest)

def Uri.text : Uri → Text
  | .postgres u => u.text
  | .file path => path

/-- A value that is there and not empty. -/
def given (value : Option Text) : Option Text := value.filter (· ≠ [])

/-- `BuildPostgresUri`. -/
def buildPostgresUri (host port database user password : Option Text)
    (params : List (Text × Text)) : Except Text PostgresUri :=
  if (given port).any fun p => ¬ p.all Char.isDigit then
    .error "the Port keyword is not a number".toList
  else if (given host).any fun h =>
      ¬ isSocket h ∧ ':' ∈ unbracketed h ∧ ¬ (unbracketed h).all isAddressChar then
    .error "the Server keyword is neither a host name nor an IPv6 address".toList
  else
    .ok
      { user := given user
        -- The password is written behind the user, and with it only.
        password := (given user).bind fun _ => given password
        host := given host
        port := given port
        database := given database
        params := params }

/-- What the option says, or else the keywords. -/
def optionOr (option keyword : Option Text) : Option Text :=
  match option with
  | some value => some value
  | none => keyword

/-- The setting of a connection that a keyword names. -/
inductive Setting where
  | host
  | port
  | database
  | user
  | password
deriving DecidableEq, Repr

def Setting.keys : Setting → List Text
  | .host => kHostKeys
  | .port => kPortKeys
  | .database => kDatabaseKeys
  | .user => kUserKeys
  | .password => kPasswordKeys

/-- The option that stands over the keywords of a setting. -/
def Setting.option (t : OdbcDelegateTarget) : Setting → Option Text
  | .user => t.username
  | .password => t.password
  | _ => none

/-- What the code takes for a setting. -/
def lookup (t : OdbcDelegateTarget) (s : Setting) : Option Text :=
  optionOr (s.option t) (keywordGet t.connectionString t.dsn s.keys)

/-- `BuildNativeUri`. -/
def buildNativeUri (heap : Text) (family : OdbcNativeFamily) (t : OdbcDelegateTarget) :
    Except Text Uri :=
  match collectKeywords heap family t with
  | .error why => .error why
  | .ok params =>
      match family with
      | .sqlite | .duckdb =>
          match given (lookup t .database) with
          | some path => .ok (.file path)
          | none => .error "no Database keyword to hand to the native driver".toList
      | .postgresql =>
          match buildPostgresUri (lookup t .host) (lookup t .port) (lookup t .database)
              (lookup t .user) (lookup t .password) params with
          | .ok uri => .ok (.postgres uri)
          | .error why => .error why
      | _ => .error "a native URI is required for this database family".toList

/-! ## What becomes of a keyword -/

/-- The keywords that choose the driver and the section; they have done so when a URI
is built. -/
def kRoutingKeys : List Text := names ["Driver", "DSN"]

/-- The setting a keyword names, if any. -/
def settingOf (key : Text) : Option Setting :=
  [Setting.host, .port, .database, .user, .password].find? fun s => inNameList s.keys key

/-- Every keyword that counts; there are none where the section cannot be enumerated. -/
def allKeywords (t : OdbcDelegateTarget) : List (Text × Text) := (keywords t).getD []

/-- The values a connection gives for a setting: that of the option and those of its
keywords. -/
def valuesOf (t : OdbcDelegateTarget) (s : Setting) : List Text :=
  ((s.option t).toList ++
    ((allKeywords t).filter fun kv => settingOf kv.1 = some s).map Prod.snd).filter (· ≠ [])

/-! ### Keys -/

theorem inNameList_iff {list : List Text} {key : Text} :
    inNameList list key ↔ ∃ name ∈ list, lower name = lower key := by
  simp [inNameList]

theorem inNameList_congr {list : List Text} {j k : Text} (h : lower j = lower k) :
    inNameList list j = inNameList list k := by
  simp only [inNameList, h]

theorem settingOf_congr {j k : Text} (h : lower j = lower k) : settingOf j = settingOf k := by
  simp only [settingOf, inNameList_congr h]

theorem settingOf_key (s : Setting) : ∀ name ∈ s.keys, settingOf name = some s := by
  cases s with
  | host => decide
  | port => decide
  | database => decide
  | user => decide
  | password => decide

/-- The lists of the settings have no keyword in common. -/
theorem settingOf_iff {key : Text} {s : Setting} :
    settingOf key = some s ↔ inNameList s.keys key := by
  constructor
  · exact fun h => by simpa using List.find?_some h
  · intro h
    obtain ⟨name, hname, hkey⟩ := inNameList_iff.mp h
    rw [← settingOf_congr hkey]
    exact settingOf_key s name hname

/-- A keyword of the consumed list is one of a setting or chooses driver or section. -/
theorem consumed_cases {key : Text} (h : inNameList kConsumedKeys key) :
    inNameList kRoutingKeys key ∨ ∃ s, settingOf key = some s := by
  have hlist : ∀ name ∈ kConsumedKeys, inNameList kRoutingKeys name ∨
      (settingOf name).isSome := by decide
  obtain ⟨name, hname, hkey⟩ := inNameList_iff.mp h
  rw [← inNameList_congr hkey, ← settingOf_congr hkey, ← Option.isSome_iff_exists]
  exact hlist name hname

theorem not_routing {key : Text} {s : Setting} (h : settingOf key = some s) :
    ¬ inNameList kRoutingKeys key := by
  have hlist : ∀ name ∈ kRoutingKeys, settingOf name = none := by decide
  intro hrouting
  obtain ⟨name, hname, hkey⟩ := inNameList_iff.mp hrouting
  rw [← settingOf_congr hkey, hlist name hname] at h
  cases h

theorem settingOf_ne_nil {key : Text} {s : Setting} (h : settingOf key = some s) : key ≠ [] := by
  have hnil : settingOf [] = none := by decide
  intro hkey
  rw [hkey, hnil] at h
  cases h

/-- The keywords of a setting are classed as consumed, whatever the family. -/
theorem classify_setting {family : OdbcNativeFamily} {key : Text} {s : Setting}
    (h : settingOf key = some s) : classifyKeyword family key = .consumed := by
  have hlist : ∀ s : Setting, ∀ name ∈ s.keys, inNameList kConsumedKeys name := by
    intro s
    cases s with
    | host => decide
    | port => decide
    | database => decide
    | user => decide
    | password => decide
  obtain ⟨name, hname, hkey⟩ := inNameList_iff.mp (settingOf_iff.mp h)
  have hconsumed : inNameList kConsumedKeys key := by
    rw [← inNameList_congr hkey]
    exact hlist s name hname
  unfold classifyKeyword
  rw [if_neg (settingOf_ne_nil h), if_pos hconsumed]

theorem classify_routing {family : OdbcNativeFamily} {key : Text}
    (h : inNameList kRoutingKeys key = true) : classifyKeyword family key = .consumed := by
  have hlist : ∀ name ∈ kRoutingKeys, inNameList kConsumedKeys name = true := by decide
  have hnil : inNameList kRoutingKeys [] = false := by decide
  obtain ⟨name, hname, hkey⟩ := inNameList_iff.mp h
  have hconsumed : inNameList kConsumedKeys key = true := by
    rw [← inNameList_congr hkey]
    exact hlist name hname
  unfold classifyKeyword
  rw [if_neg, if_pos hconsumed]
  rintro rfl
  rw [hnil] at h
  cases h

theorem classifyPg_ne_consumed (key : Text) : classifyPg key ≠ .consumed := by
  unfold classifyPg
  split
  · exact KeywordClass.noConfusion
  · split
    · split
      · exact KeywordClass.noConfusion
      · exact KeywordClass.noConfusion
    · split
      · exact KeywordClass.noConfusion
      · exact KeywordClass.noConfusion

/-- Only the consumed list makes a keyword consumed. -/
theorem consumed_of_classify {family : OdbcNativeFamily} {key : Text}
    (h : classifyKeyword family key = .consumed) : inNameList kConsumedKeys key := by
  by_contra hlist
  unfold classifyKeyword at h
  by_cases hnil : key = []
  · simp [hnil] at h
  rw [if_neg hnil, if_neg hlist] at h
  by_cases hignored : inNameList kIgnoredKeys key
  · simp [hignored] at h
  rw [if_neg hignored] at h
  cases family with
  | postgresql => exact classifyPg_ne_consumed key h
  | sqlite => by_cases hkey : inNameList kSqliteIgnoredKeys key <;> simp [hkey] at h
  | duckdb => by_cases hkey : inNameList kDuckdbIgnoredKeys key <;> simp [hkey] at h
  | none => cases h
  | snowflake => cases h
  | bigquery => cases h
  | flightsql => cases h

/-! ### Values -/

theorem mem_valuesOf {t : OdbcDelegateTarget} {s : Setting} {v : Text} :
    v ∈ valuesOf t s ↔
      v ≠ [] ∧ (s.option t = some v ∨
        ∃ kv ∈ allKeywords t, settingOf kv.1 = some s ∧ kv.2 = v) := by
  simp only [valuesOf, List.mem_filter, List.mem_append, Option.mem_toList, List.mem_map,
    decide_eq_true_eq, and_assoc]
  exact and_comm

theorem given_eq_some {value : Option Text} {v : Text} :
    given value = some v ↔ value = some v ∧ v ≠ [] := by
  simp [given, Option.filter_eq_some_iff]

theorem mem_allKeywords {t : OdbcDelegateTarget} {kv : Text × Text} (h : keywords t ≠ none) :
    kv ∈ allKeywords t ↔
      (∃ dsn names, t.dsn = some dsn ∧ profileNames dsn = some names ∧
        ∃ name ∈ names, (name, (dsnGet dsn name).getD []) = kv) ∨
      kv ∈ connPairs t.connectionString := by
  unfold allKeywords
  cases hdsn : t.dsn with
  | none => simp [keywords, hdsn]
  | some dsn =>
      cases hnames : profileNames dsn with
      | none => simp [keywords, hdsn, hnames] at h
      | some names => simp [keywords, hdsn, hnames]

/-- What the section has for a keyword is among the keywords, under its own name. -/
theorem dsn_mem_keywords {t : OdbcDelegateTarget} {dsn : Dsn} {key v : Text}
    (hkeywords : keywords t ≠ none) (hdsn : t.dsn = some dsn) (h : dsnGet dsn key = some v)
    (hkey : key ≠ []) : ∃ kv ∈ allKeywords t, lower kv.1 = lower key ∧ kv.2 = v := by
  rw [dsnGet, Option.filter_eq_some_iff] at h
  obtain ⟨name, hname, hfold⟩ := KeyValue.mem_of_get h.1
  have hsame : dsnGet dsn name = some v := by
    rw [dsnGet, Option.filter_eq_some_iff, KeyValue.get, hfold]
    exact h
  have hne : name ≠ [] := by
    intro hnil
    rw [hnil] at hfold
    exact hkey (List.map_eq_nil_iff.mp hfold.symm)
  cases hentries : dsn.entries with
  | none => simp [hentries] at hname
  | some entries =>
      rw [hentries] at hname
      refine ⟨(name, v), (mem_allKeywords hkeywords).mpr (Or.inl ?_), hfold, rfl⟩
      refine ⟨dsn, _, hdsn, by rw [profileNames, hentries, Option.map_some], name, ?_, ?_⟩
      · rw [List.mem_eraseDups, List.mem_filter]
        exact ⟨List.mem_map.mpr ⟨(name, v), hname, rfl⟩, by simpa using hne⟩
      · rw [hsame, Option.getD_some]

/-- What the code takes for a setting is one of its values. -/
theorem lookup_mem {t : OdbcDelegateTarget} {s : Setting} {v : Text}
    (hkeywords : keywords t ≠ none) (h : given (lookup t s) = some v) : v ∈ valuesOf t s := by
  obtain ⟨hlookup, hne⟩ := given_eq_some.mp h
  refine mem_valuesOf.mpr ⟨hne, ?_⟩
  unfold lookup optionOr at hlookup
  cases hoption : s.option t with
  | some value =>
      rw [hoption] at hlookup
      exact Or.inl hlookup
  | none =>
      rw [hoption] at hlookup
      dsimp only at hlookup
      refine Or.inr ?_
      rw [keywordGet, Option.or_eq_some_iff] at hlookup
      rcases hlookup with hconn | ⟨_, hdsn⟩
      · obtain ⟨name, hname, hget⟩ := List.exists_of_findSome?_eq_some hconn
        obtain ⟨hvalue, _⟩ := Option.filter_eq_some_iff.mp hget
        obtain ⟨key, hkey, hfold⟩ := KeyValue.mem_of_get hvalue
        refine ⟨(key, v), (mem_allKeywords hkeywords).mpr (Or.inr hkey), ?_, rfl⟩
        exact settingOf_iff.mpr (inNameList_iff.mpr ⟨name, hname, hfold.symm⟩)
      · obtain ⟨dsn, hdsn, hfind⟩ := Option.bind_eq_some_iff.mp hdsn
        obtain ⟨name, hname, hget⟩ := List.exists_of_findSome?_eq_some hfind
        have hne := settingOf_ne_nil (settingOf_key s name hname)
        obtain ⟨kv, hkv, hfold, hvalue⟩ := dsn_mem_keywords hkeywords hdsn hget hne
        refine ⟨kv, hkv, ?_, hvalue⟩
        exact settingOf_iff.mpr (inNameList_iff.mpr ⟨name, hname, hfold.symm⟩)

/-! ### The URI that is built -/

/-- The parts a PostgreSQL URI is built from. -/
def postgresParts (t : OdbcDelegateTarget) (params : List (Text × Text)) : PostgresUri where
  user := given (lookup t .user)
  password := (given (lookup t .user)).bind fun _ => given (lookup t .password)
  host := given (lookup t .host)
  port := given (lookup t .port)
  database := given (lookup t .database)
  params := params

/-- A URI that is built is a file for the two file families and otherwise PostgreSQL's,
with every keyword accepted before. -/
theorem buildNativeUri_ok {heap : Text} {family : OdbcNativeFamily} {t : OdbcDelegateTarget}
    {uri : Uri} (h : buildNativeUri heap family t = .ok uri) :
    ∃ params, collectKeywords heap family t = .ok params ∧
      ((family = .postgresql ∧ uri = .postgres (postgresParts t params)) ∨
        (family ≠ .postgresql ∧ ∃ path, given (lookup t .database) = some path ∧
          uri = .file path)) := by
  unfold buildNativeUri at h
  cases hparams : collectKeywords heap family t with
  | error why => simp [hparams] at h
  | ok params =>
      rw [hparams] at h
      refine ⟨params, rfl, ?_⟩
      have hfile : (match given (lookup t .database) with
          | some path => Except.ok (Uri.file path)
          | none => Except.error "no Database keyword to hand to the native driver".toList) =
            .ok uri →
          ∃ path, given (lookup t .database) = some path ∧ uri = .file path := by
        cases hdatabase : given (lookup t .database) with
        | none => exact fun h => by cases h
        | some path =>
            intro h
            rw [Except.ok.injEq] at h
            exact ⟨path, rfl, h.symm⟩
      cases family with
      | postgresql =>
          refine Or.inl ⟨rfl, ?_⟩
          dsimp only at h
          unfold buildPostgresUri at h
          split_ifs at h
          cases h
          rfl
      | sqlite => exact Or.inr ⟨OdbcNativeFamily.noConfusion, hfile h⟩
      | duckdb => exact Or.inr ⟨OdbcNativeFamily.noConfusion, hfile h⟩
      | none => cases h
      | snowflake => cases h
      | bigquery => cases h
      | flightsql => cases h

theorem keywords_ne_none {heap : Text} {family : OdbcNativeFamily} {t : OdbcDelegateTarget}
    {params : List (Text × Text)} (h : collectKeywords heap family t = .ok params) :
    keywords t ≠ none := by
  obtain ⟨kvs, hkvs, _⟩ := collectKeywords_ok h
  exact hkvs ▸ Option.some_ne_none kvs

/-- What is checked of the port and the host of a PostgreSQL URI. -/
theorem buildNativeUri_checked {heap : Text} {t : OdbcDelegateTarget} {uri : Uri}
    (h : buildNativeUri heap .postgresql t = .ok uri) :
    (∀ v ∈ given (lookup t .port), v.all Char.isDigit = true) ∧
      ∀ h ∈ given (lookup t .host), ':' ∈ unbracketed h → ¬ isSocket h →
        (unbracketed h).all isAddressChar = true := by
  unfold buildNativeUri at h
  split at h
  · cases h
  · dsimp only at h
    unfold buildPostgresUri at h
    split_ifs at h with hport hhost
    refine ⟨?_, ?_⟩
    · intro v hv
      by_contra hdigits
      apply hport
      rw [Option.mem_def.mp hv, Option.any_some]
      exact decide_eq_true hdigits
    · intro host hv hcolon hsocket
      by_contra haddress
      apply hhost
      rw [Option.mem_def.mp hv, Option.any_some]
      exact decide_eq_true ⟨hsocket, hcolon, haddress⟩

/-- Only PostgreSQL has keywords that become parameters. -/
theorem classify_file {family : OdbcNativeFamily} {key : Text} (hfamily : family ≠ .postgresql) :
    classifyKeyword family key = .consumed ∨ classifyKeyword family key = .ignored ∨
      classifyKeyword family key = .unknown := by
  unfold classifyKeyword
  by_cases hnil : key = []
  · simp [hnil]
  by_cases hconsumed : inNameList kConsumedKeys key
  · rw [if_neg hnil, if_pos hconsumed]
    exact Or.inl rfl
  by_cases hignored : inNameList kIgnoredKeys key
  · rw [if_neg hnil, if_neg hconsumed, if_pos hignored]
    exact Or.inr (Or.inl rfl)
  rw [if_neg hnil, if_neg hconsumed, if_neg hignored]
  cases family with
  | postgresql => exact absurd rfl hfamily
  | sqlite => by_cases hkey : inNameList kSqliteIgnoredKeys key <;> simp [hkey]
  | duckdb => by_cases hkey : inNameList kDuckdbIgnoredKeys key <;> simp [hkey]
  | none | snowflake | bigquery | flightsql => simp

end AdbcBridge.Delegate.NativeUri
