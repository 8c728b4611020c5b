import AdbcBridge.Delegate.ConnString
import AdbcBridge.Delegate.LibpqUri
import Mathlib

/-!
# A native URI on the ODBC path

`OdbcDelegateNativeUriToOdbc`, and which of the settings of a PostgreSQL URI the ODBC
string keeps.
-/

namespace AdbcBridge.Delegate.NativeToOdbc

open AdbcBridge.Lib AdbcBridge.Lib.Delimited AdbcBridge.Lib.PgUri AdbcBridge.Delegate.Keywords
  AdbcBridge.Delegate.NativeUri AdbcBridge.Delegate.ParseUri AdbcBridge.Delegate.ConnString
  AdbcBridge.Delegate.LibpqUri

/-! ## The translation -/

/-- `ContainsNoCase`. -/
def containsNoCase (haystack needle : Text) : Bool :=
  (lower haystack).tails.any fun t => (lower needle).isPrefixOf t

/-- `FamilyFromOdbcDriver`. -/
def familyFromOdbcDriver (driver : Text) : OdbcNativeFamily :=
  if containsNoCase driver "psqlodbc".toList || containsNoCase driver "postgres".toList then
    .postgresql
  else if containsNoCase driver "sqlite".toList then .sqlite
  else if containsNoCase driver "duckdb".toList then .duckdb
  else if containsNoCase driver "snowflake".toList then .snowflake
  else if containsNoCase driver "bigquery".toList then .bigquery
  else .none

/-- `FindOdbcDriverForFamily` among the sections of `odbcinst.ini`. -/
def findOdbcDriverForFamily (drivers : List Text) (family : OdbcNativeFamily) : Option Text :=
  drivers.find? fun driver =>
    lower driver ≠ lower "ODBC Drivers".toList ∧ familyFromOdbcDriver driver = family

/-- `PathFromUriRest`. -/
def pathFromUriRest : Text → Text
  | '/' :: '/' :: s => s
  | s => s

/-- The keyword of a parameter that psqlodbc understands. -/
def uriKeyword (param : Text) : Option Text :=
  if lower param = "sslmode".toList then some "SSLmode".toList
  else if lower param = "host".toList then some "Server".toList
  else if lower param = "port".toList then some "Port".toList
  else if lower param = "user".toList then some "Uid".toList
  else if lower param = "password".toList then some "Pwd".toList
  else none

/-- The pairs of the parameters, or the first parameter that has no keyword. -/
def paramPairs : List (Text × Text) → Except Text (List (Text × Text))
  | [] => .ok []
  | kv :: params =>
      match uriKeyword kv.1 with
      | none => .error kv.1
      | some keyword =>
          match paramPairs params with
          | .error param => .error param
          | .ok kvs => .ok ((keyword, kv.2) :: kvs)

/-- The pairs of what stands in front of the query. -/
def partPairs (parsed : ParsedUri) : List (Text × Text) :=
  ("Server".toList, parsed.host.getD "localhost".toList) ::
    ((parsed.port.map fun v => ("Port".toList, v)).toList ++
      (parsed.path.map fun v => ("Database".toList, v)).toList ++
      (parsed.user.map fun v => ("Uid".toList, v)).toList ++
      (parsed.password.map fun v => ("Pwd".toList, v)).toList)

/-- Why no native driver took the URI. -/
def reason (lastError : Option Text) : Text :=
  (lastError.filter (· ≠ [])).getD "no reason given".toList

/-- `OdbcDelegateNativeUriToOdbc`: no string for what is no native URI. -/
def odbcDelegateNativeUriToOdbc (drivers : List Text) (uri : Text) (lastError : Option Text) :
    Except Text (Option Text) :=
  match familyFromUri uri with
  | (.none, _) => .ok none
  | (_, none) => .ok none
  | (family, some rest) =>
      match findOdbcDriverForFamily drivers family with
      | none =>
          .error ("\"".toList ++ uri ++ "\" is a native ADBC URI: no native \"".toList ++
            familyDriverName family ++ "\" driver took the connection (".toList ++
            reason lastError ++ "), and no ODBC driver for ".toList ++ familyDriverName family ++
            (" is installed to fall back to. Install the native driver, or pass an ODBC " ++
              "connection string (\"Driver=...;Server=...\").").toList)
      | some driver =>
          match family with
          | .sqlite | .duckdb =>
              .ok (some (rendered [("Driver".toList, driver),
                ("Database".toList, pathFromUriRest rest)]))
          | .postgresql =>
              match paramPairs (parseUriRest rest).params with
              | .ok kvs =>
                  .ok (some (rendered
                    (("Driver".toList, driver) :: (partPairs (parseUriRest rest) ++ kvs))))
              | .error param =>
                  .error ("\"".toList ++ uri ++
                    "\" is a native ADBC URI that no native driver took (".toList ++
                    reason lastError ++ "), and its parameter \"".toList ++ param ++
                    "\" cannot be expressed for the ODBC driver \"".toList ++ driver ++
                    "\"".toList)
          | _ =>
              .error ("\"".toList ++ uri ++
                "\" is a native ADBC URI that no native driver took (".toList ++
                reason lastError ++
                "), and it cannot be translated into an ODBC connection string".toList)

/-! ## The settings of a URI -/

/-- The keyword psqlodbc reads a setting from. -/
def odbcKey : Setting → Text
  | .host => "Server".toList
  | .port => "Port".toList
  | .database => "Database".toList
  | .user => "Uid".toList
  | .password => "Pwd".toList

/-- A parameter of the query is translated: its keyword is in the string, with the last value the
query has for it. -/
def Translated (w : ConnectionUri) (out : Text) (piece : Piece) : Prop :=
  ∃ name value keyword v, piece = .param name value ∧ uriKeyword name.value = some keyword ∧
    parameter w name.value = some v ∧ (keyword, v) ∈ connPairs out

/-- The ODBC string says what libpq takes from the URI, which connects to its default host where
the URI has none; and every piece of the query is in the string. -/
structure Keeps (defaultHost : Text) (w : ConnectionUri) (out : Text) : Prop where
  host : connStringGet out (odbcKey .host) = some ((effective w .host).getD defaultHost)
  settings : ∀ s, s ≠ .host → given (connStringGet out (odbcKey s)) = effective w s
  pieces : ∀ piece ∈ w.query, piece.text ≠ [] → Translated w out piece

/-- What stands in front of the query for a setting: the host is `localhost` where the authority is
empty behind the user, and of a list of hosts the host is the text up to the first colon, or the
address in brackets it starts with. -/
def inFront (w : ConnectionUri) : Setting → Option Text
  | .host =>
      match w.others with
      | [] => some (if w.host.text = [] then "localhost".toList else w.host.host.value)
      | _ => some ((hostAndPort w.hostText).1.getD "localhost".toList)
  | .port =>
      match w.others with
      | [] => w.host.port.map Component.value
      | _ => (hostAndPort w.hostText).2
  | .database => given (w.database.map Component.value)
  | .user => w.userinfo.map fun u => u.user.value
  | .password => w.userinfo.bind fun u => u.password.map Component.value

/-- No parameter has another value than the part it stands over, without a host in the URI the
default one stands in front of the query, a list of hosts is no different when it is cut like one
host, and every piece of the query has a `=`. -/
structure Unopposed (defaultHost : Text) (w : ConnectionUri) : Prop where
  params : ∀ s v u, parameter w (settingParam s) = some v → (s = .host → v ≠ []) →
    inFront w s = some u → v = u
  missing : effective w .host = none → inFront w .host = some defaultHost
  hosts : w.others ≠ [] → ∀ s, parameter w (settingParam s) = none →
    given (inFront w s) = given (component w s)
  pieces : ∀ piece ∈ w.query, piece.text ≠ [] → ∃ name value, piece = .param name value

/-! ## What the string says -/

theorem uriKeyword_congr {j k : Text} (h : lower j = lower k) : uriKeyword j = uriKeyword k := by
  rw [uriKeyword, uriKeyword, h]

/-- A parameter has the keyword of the setting it stands over. -/
theorem uriKeyword_setting {param keyword : Text} (h : uriKeyword param = some keyword)
    (s : Setting) :
    lower keyword = lower (odbcKey s) ↔ lower param = lower (settingParam s) := by
  unfold uriKeyword at h
  split at h
  · rename_i hparam
    rw [← Option.some.inj h, hparam]
    cases s <;> decide
  · split at h
    · rename_i hparam
      rw [← Option.some.inj h, hparam]
      cases s <;> decide
    · split at h
      · rename_i hparam
        rw [← Option.some.inj h, hparam]
        cases s <;> decide
      · split at h
        · rename_i hparam
          rw [← Option.some.inj h, hparam]
          cases s <;> decide
        · split at h
          · rename_i hparam
            rw [← Option.some.inj h, hparam]
            cases s <;> decide
          · cases h

theorem uriKeyword_key {param keyword : Text} (h : uriKeyword param = some keyword) :
    ∃ key : Keyword, key.text = keyword := by
  unfold uriKeyword at h
  split at h
  · exact ⟨.word "SSLmode".toList (by decide) (by decide), Option.some.inj h⟩
  · split at h
    · exact ⟨.word "Server".toList (by decide) (by decide), Option.some.inj h⟩
    · split at h
      · exact ⟨.word "Port".toList (by decide) (by decide), Option.some.inj h⟩
      · split at h
        · exact ⟨.word "Uid".toList (by decide) (by decide), Option.some.inj h⟩
        · split at h
          · exact ⟨.word "Pwd".toList (by decide) (by decide), Option.some.inj h⟩
          · cases h

/-- The parameters that are translated have a keyword each. -/
theorem paramPairs_ok {params kvs : List (Text × Text)} (h : paramPairs params = .ok kvs) :
    List.Forall₂ (fun param kv => uriKeyword param.1 = some kv.1 ∧ param.2 = kv.2) params kvs := by
  induction params generalizing kvs with
  | nil =>
      rw [paramPairs, Except.ok.injEq] at h
      exact h ▸ List.Forall₂.nil
  | cons kv params ih =>
      rw [paramPairs] at h
      split at h
      · cases h
      · rename_i keyword hkeyword
        split at h
        · cases h
        · rename_i rest hrest
          rw [← Except.ok.inj h]
          exact List.Forall₂.cons ⟨hkeyword, rfl⟩ (ih hrest)

theorem mem_paramPairs {params kvs : List (Text × Text)} (h : paramPairs params = .ok kvs)
    {param v : Text} (hmem : (param, v) ∈ params) :
    ∃ keyword, uriKeyword param = some keyword ∧ (keyword, v) ∈ kvs := by
  have hpairs := paramPairs_ok h
  clear h
  induction hpairs with
  | nil => cases hmem
  | @cons e kv params kvs hkv _ ih =>
      rcases List.mem_cons.mp hmem with rfl | hmem
      · have hv : v = kv.2 := hkv.2
        rw [hv]
        exact ⟨kv.1, hkv.1, List.mem_cons_self⟩
      · obtain ⟨keyword, hkeyword, hkvs⟩ := ih hmem
        exact ⟨keyword, hkeyword, List.mem_cons_of_mem kv hkvs⟩

theorem get_paramPairs {params kvs : List (Text × Text)} (h : paramPairs params = .ok kvs)
    (s : Setting) :
    KeyValue.get lower kvs (odbcKey s) = KeyValue.get lower params (settingParam s) := by
  have hpairs := paramPairs_ok h
  clear h
  induction hpairs with
  | nil => rfl
  | @cons param kv params kvs hkv _ ih =>
      rw [KeyValue.get_cons, KeyValue.get_cons, ih, hkv.2]
      rw [if_congr (uriKeyword_setting hkv.1 s) rfl rfl]

theorem lower_odbcKey {s t : Setting} : lower (odbcKey s) = lower (odbcKey t) ↔ s = t := by
  cases s <;> cases t <;> decide

/-- What the translation finds in front of the query. -/
def found (parsed : ParsedUri) : Setting → Option Text
  | .host => some (parsed.host.getD "localhost".toList)
  | .port => parsed.port
  | .database => parsed.path
  | .user => parsed.user
  | .password => parsed.password

/-- Each of them has a keyword of its own. -/
theorem get_partPairs (parsed : ParsedUri) (s : Setting) :
    KeyValue.get lower (partPairs parsed) (odbcKey s) = found parsed s := by
  have hparts : partPairs parsed =
      (odbcKey .host, parsed.host.getD "localhost".toList) ::
        ((parsed.port.map fun v => (odbcKey .port, v)).toList ++
          (parsed.path.map fun v => (odbcKey .database, v)).toList ++
          (parsed.user.map fun v => (odbcKey .user, v)).toList ++
          (parsed.password.map fun v => (odbcKey .password, v)).toList) := rfl
  rw [hparts, KeyValue.get_cons, KeyValue.get_append, KeyValue.get_append,
    KeyValue.get_append, KeyValue.get_toList, KeyValue.get_toList, KeyValue.get_toList,
    KeyValue.get_toList]
  simp only [lower_odbcKey]
  cases s <;> simp [found]

/-- Of a URI it finds what stands there. -/
theorem found_rest (w : ConnectionUri) (s : Setting) :
    found (parseUriRest w.rest) s = inFront w s := by
  rw [parseUriRest_rest]
  have hsingle (hothers : w.others = []) : hostAndPort w.hostText =
      (if w.host.text = [] then none else some w.host.host.value,
        w.host.port.map Component.value) := by
    rw [← hostAndPort_single, hostText_single hothers]
  cases s with
  | host =>
      unfold found inFront
      cases hothers : w.others with
      | nil =>
          rw [hsingle hothers]
          dsimp only
          split_ifs
          · rfl
          · rfl
      | cons h others => rfl
  | port =>
      unfold found inFront
      cases hothers : w.others with
      | nil => rw [hsingle hothers]
      | cons h others => rfl
  | database => rfl
  | user => rfl
  | password => rfl

/-- The parameters of a URI as its query has them. -/
theorem get_params (w : ConnectionUri) (name : Text) :
    KeyValue.get lower (parseUriRest w.rest).params name = parameter w name := by
  rw [parseUriRest_rest, KeyValue.get_addAll]
  exact Option.or_none

theorem partPairs_keys {parsed : ParsedUri} {kv : Text × Text} (h : kv ∈ partPairs parsed) :
    ∃ key : Keyword, key.text = kv.1 := by
  simp only [partPairs, List.mem_cons, List.mem_append, Option.mem_toList,
    Option.map_eq_some_iff] at h
  rcases h with rfl | ((⟨v, -, rfl⟩ | ⟨v, -, rfl⟩) | ⟨v, -, rfl⟩) | ⟨v, -, rfl⟩
  · exact ⟨.word "Server".toList (by decide) (by decide), rfl⟩
  · exact ⟨.word "Port".toList (by decide) (by decide), rfl⟩
  · exact ⟨.word "Database".toList (by decide) (by decide), rfl⟩
  · exact ⟨.word "Uid".toList (by decide) (by decide), rfl⟩
  · exact ⟨.word "Pwd".toList (by decide) (by decide), rfl⟩

theorem paramPairs_keys {params kvs : List (Text × Text)} (h : paramPairs params = .ok kvs)
    {kv : Text × Text} (hkv : kv ∈ kvs) : ∃ key : Keyword, key.text = kv.1 := by
  have hpairs := paramPairs_ok h
  clear h
  induction hpairs with
  | nil => cases hkv
  | cons hhead _ ih =>
      rcases List.mem_cons.mp hkv with rfl | hkv
      · exact uriKeyword_key hhead.1
      · exact ih hkv

/-- What is accepted of a PostgreSQL URI, and the pairs of the string. -/
theorem accepted_pairs {drivers : List Text} {w : ConnectionUri} {out : Text}
    {lastError : Option Text}
    (h : odbcDelegateNativeUriToOdbc drivers w.text lastError = .ok (some out)) :
    ∃ driver kvs, paramPairs (parseUriRest w.rest).params = .ok kvs ∧
      connPairs out = ("Driver".toList, driver) :: (partPairs (parseUriRest w.rest) ++ kvs) := by
  unfold odbcDelegateNativeUriToOdbc at h
  rw [familyFromUri_text] at h
  dsimp only at h
  split at h
  · cases h
  · rename_i driver hdriver
    split at h
    · rename_i kvs hkvs
      refine ⟨driver, kvs, hkvs, ?_⟩
      rw [← Option.some.inj (Except.ok.inj h)]
      apply connPairs_rendered_keys
      intro kv hkv
      rcases List.mem_cons.mp hkv with rfl | hkv
      · exact ⟨.word "Driver".toList (by decide) (by decide), rfl⟩
      · rcases List.mem_append.mp hkv with hkv | hkv
        · exact partPairs_keys hkv
        · exact paramPairs_keys hkvs hkv
    · cases h

/-- The string says first what stands in front of the query, and a parameter where there is
nothing. -/
theorem connStringGet_translated {w : ConnectionUri} {out driver : Text} {kvs : List (Text × Text)}
    (hkvs : paramPairs (parseUriRest w.rest).params = .ok kvs)
    (hout : connPairs out = ("Driver".toList, driver) :: (partPairs (parseUriRest w.rest) ++ kvs))
    (s : Setting) :
    connStringGet out (odbcKey s) = (inFront w s).or (parameter w (settingParam s)) := by
  have hdriver : lower "Driver".toList ≠ lower (odbcKey s) := by cases s <;> decide
  rw [connStringGet, hout, KeyValue.get_cons, if_neg hdriver, KeyValue.get_append,
    get_partPairs, get_paramPairs hkvs, get_params, found_rest]

/-- A parameter is translated. -/
theorem translated_of_accepted {w : ConnectionUri} {out driver : Text} {kvs : List (Text × Text)}
    (hkvs : paramPairs (parseUriRest w.rest).params = .ok kvs)
    (hout : connPairs out = ("Driver".toList, driver) :: (partPairs (parseUriRest w.rest) ++ kvs))
    {name : Component ['=', '&']} {value : Component ['&']}
    (hpiece : Piece.param name value ∈ w.query) : Translated w out (.param name value) := by
  have hpair : (name.value, value.value) ∈ w.params :=
    List.mem_filterMap.mpr ⟨_, hpiece, rfl⟩
  obtain ⟨v, -, hv, -, -⟩ :
      ∃ v j, KeyValue.get lower (KeyValue.addAll lower [] w.params) name.value = some v ∧
        (j, v) ∈ w.params ∧ lower j = lower name.value := KeyValue.get_addAll_of_mem hpair
  have hparams : (parseUriRest w.rest).params = KeyValue.addAll lower [] w.params := by
    rw [parseUriRest_rest]
  rw [← hparams] at hv
  obtain ⟨j, hj, hkey⟩ := KeyValue.mem_of_get hv
  obtain ⟨keyword, hkeyword, hmem⟩ := mem_paramPairs hkvs hj
  refine ⟨name, value, keyword, v, rfl, ?_, ?_, ?_⟩
  · rw [← hkeyword, uriKeyword_congr hkey]
  · rw [← hv, get_params]
  · rw [hout]
    exact List.mem_cons_of_mem _ (List.mem_append_right _ hmem)

/-! ## When it says the same -/

theorem given_injective {a b : Text} (h : given (some a) = given (some b)) : a = b := by
  by_cases ha : a = []
  · rw [ha] at h ⊢
    by_contra hb
    rw [(given_eq_some (v := b)).mpr ⟨rfl, Ne.symm hb⟩] at h
    cases h
  · rw [(given_eq_some (v := a)).mpr ⟨rfl, ha⟩] at h
    exact Option.some.inj (given_eq_some.mp h.symm).1.symm

/-- With one host both take the same from in front of the query. -/
theorem given_inFront {w : ConnectionUri} (hothers : w.others = []) {s : Setting}
    (hs : s ≠ .host) : given (inFront w s) = given (component w s) := by
  cases s with
  | host => exact absurd rfl hs
  | port =>
      unfold inFront component
      rw [hothers, portValue_single hothers]
      cases w.host.port with
      | none => rfl
      | some p => rfl
  | database =>
      change given (given _) = given _
      cases hvalue : given (w.database.map Component.value) with
      | none => exact hvalue.symm
      | some v => rw [given_eq_some.mpr ⟨rfl, (given_eq_some.mp hvalue).2⟩, ← hvalue]; rfl
  | user => rfl
  | password => rfl

/-- A host that has a value stands in front of the query. -/
theorem inFront_host {w : ConnectionUri} (hothers : w.others = [])
    (hvalue : w.hostValue ≠ []) : inFront w .host = some w.hostValue := by
  rw [hostValue_single hothers] at hvalue ⊢
  have htext : w.host.text ≠ [] := fun hnil => hvalue (host_value_nil hnil)
  unfold inFront
  rw [hothers]
  dsimp only
  rw [if_neg htext]

/-- A list of hosts has a value: there is a comma in it. -/
theorem hostValue_list {w : ConnectionUri} (hothers : w.others ≠ []) : w.hostValue ≠ [] := by
  unfold ConnectionUri.hostValue joined
  obtain ⟨h, others, heq⟩ := List.exists_cons_of_ne_nil hothers
  rw [heq, List.map_cons, List.map_cons, List.intercalate_cons_cons]
  simp

/-- The ODBC string keeps what libpq takes from the URI exactly if the URI is unopposed. -/
theorem keeps_iff {drivers : List Text} {w : ConnectionUri} {out : Text} {lastError : Option Text}
    (h : odbcDelegateNativeUriToOdbc drivers w.text lastError = .ok (some out))
    (defaultHost : Text) : Keeps defaultHost w out ↔ Unopposed defaultHost w := by
  obtain ⟨driver, kvs, hkvs, hout⟩ := accepted_pairs h
  have hget := connStringGet_translated hkvs hout
  have hfront : ∃ f, inFront w .host = some f := by
    rw [← found_rest]
    exact ⟨_, rfl⟩
  obtain ⟨f, hf⟩ := hfront
  have hserver : connStringGet out (odbcKey .host) = some f := by
    rw [hget, hf, Option.some_or]
  constructor
  · intro hkeeps
    have hhost : f = (effective w .host).getD defaultHost :=
      Option.some.inj (hserver.symm.trans hkeeps.host)
    refine ⟨?_, ?_, ?_, ?_⟩
    · intro s v u hparam hne hu
      by_cases hs : s = .host
      · have heffective : effective w s = some v := by
          rw [effective, hparam, Option.some_or]
          exact given_eq_some.mpr ⟨rfl, hne hs⟩
        rw [hs] at heffective hu
        rw [heffective, Option.getD_some] at hhost
        rw [hf, Option.some.injEq] at hu
        exact hhost.symm.trans hu
      · have hsame := hkeeps.settings s hs
        rw [hget, hu, Option.some_or, effective, hparam, Option.some_or] at hsame
        exact (given_injective hsame).symm
    · intro hnone
      rw [hnone, Option.getD_none] at hhost
      rw [hf, hhost]
    · intro hothers s hparam
      by_cases hs : s = .host
      · rw [hs] at hparam ⊢
        have hvalue : given (component w .host) = some w.hostValue :=
          given_eq_some.mpr ⟨rfl, hostValue_list hothers⟩
        rw [effective, hparam, Option.none_or, hvalue, Option.getD_some] at hhost
        rw [hf, hhost]
        rfl
      · have hsame := hkeeps.settings s hs
        rwa [hget, effective, hparam, Option.or_none, Option.none_or] at hsame
    · intro piece hpiece hne
      obtain ⟨name, value, -, -, heq, -⟩ := hkeeps.pieces piece hpiece hne
      exact ⟨name, value, heq⟩
  · intro hclear
    refine ⟨?_, ?_, ?_⟩
    · rw [hserver]
      apply congrArg some
      cases heffective : effective w .host with
      | none =>
          have hmissing := hclear.missing heffective
          rw [hf] at hmissing
          exact Option.some.inj hmissing
      | some e =>
          rw [Option.getD_some]
          obtain ⟨hsaid, hne⟩ := given_eq_some.mp heffective
          cases hparam : parameter w (settingParam .host) with
          | some v =>
              rw [hparam, Option.some_or, Option.some.injEq] at hsaid
              rw [← hsaid] at hne ⊢
              exact (hclear.params .host v f hparam (fun _ => hne) hf).symm
          | none =>
              rw [hparam, Option.none_or] at hsaid
              have hvalue : w.hostValue = e := Option.some.inj hsaid
              by_cases hothers : w.others = []
              · have hinFront := inFront_host hothers (by rwa [hvalue])
                rw [hf, hvalue] at hinFront
                exact Option.some.inj hinFront
              · have hlist := hclear.hosts hothers .host hparam
                rw [hf, hsaid] at hlist
                exact given_injective hlist
    · intro s hs
      rw [hget, effective]
      cases hparam : parameter w (settingParam s) with
      | some v =>
          rw [Option.some_or]
          cases hu : inFront w s with
          | none => rfl
          | some u =>
              rw [Option.some_or, hclear.params s v u hparam (fun h => absurd h hs) hu]
      | none =>
          rw [Option.or_none, Option.none_or]
          by_cases hothers : w.others = []
          · exact given_inFront hothers hs
          · exact hclear.hosts hothers s hparam
    · intro piece hpiece hne
      obtain ⟨name, value, rfl⟩ := hclear.pieces piece hpiece hne
      exact translated_of_accepted hkvs hout hpiece

/-- A host of no characters without a port. -/
def noHost : HostPort where
  host := .name (emptyPart _)
  port := none

/-- `/tmp` as it is written in a query. -/
def tmpValue : Component ['&'] where
  text := "%2Ftmp".toList
  value := "/tmp".toList
  spells := .escape (.digit (by decide : 2 < 10)) (.upper (by decide : 5 < 6)) (by decide)
    (plainPart ['&'] "tmp".toList (by decide) (by decide)).spells
  closed := closed_of_all (by decide)

/-- The socket of a URI, as libpq has it and as `BuildPostgresUri` writes it. -/
def socketUri : ConnectionUri where
  scheme := .postgresql
  userinfo := none
  host := noHost
  others := []
  database := some (plainPart _ ['d'] (by decide) (by decide))
  query := [.param (plainPart _ "host".toList (by decide) (by decide)) tmpValue]

def socketOdbc : Text :=
  ("Driver=\x7bPostgreSQL Unicode\x7d;Server=\x7blocalhost\x7d;Database=\x7bd\x7d;" ++
    "Server=\x7b/tmp\x7d;").toList

/-- The string connects to another host. -/
theorem socketUri_lost :
    socketUri.text = "postgresql:///d?host=%2Ftmp".toList ∧
      odbcDelegateNativeUriToOdbc ["PostgreSQL Unicode".toList] socketUri.text none =
        .ok (some socketOdbc) ∧
      effective socketUri .host = some "/tmp".toList ∧
      connStringGet socketOdbc "Server".toList = some "localhost".toList ∧
      ∀ defaultHost, ¬ Keeps defaultHost socketUri socketOdbc := by
  have heffective : effective socketUri .host = some "/tmp".toList := by
    decide
  have hserver : connStringGet socketOdbc "Server".toList = some "localhost".toList := by
    rw [connStringGet, connPairs_eq_pairsWithin (Nat.le_refl _)]
    decide
  refine ⟨by decide, by decide, heffective, hserver, ?_⟩
  intro defaultHost hkeeps
  have hsame := hkeeps.host
  rw [heffective, Option.getD_some] at hsame
  exact absurd (hserver.symm.trans hsame) (by decide)

/-- A host, a database and a TLS mode. -/
def sslUri : ConnectionUri where
  scheme := .postgres
  userinfo := none
  host :=
    { host := .name (plainPart _ ['h'] (by decide) (by decide))
      port := none }
  others := []
  database := some (plainPart _ ['d'] (by decide) (by decide))
  query := [sslmodeRequire]

def sslOdbc : Text :=
  ("Driver=\x7bpsqlodbc\x7d;Server=\x7bh\x7d;Database=\x7bd\x7d;SSLmode=\x7brequire\x7d;").toList

theorem keeps_sslmode : Keeps "/tmp".toList sslUri sslOdbc := by
  refine (@keeps_iff ["psqlodbc".toList] sslUri sslOdbc none (by decide) "/tmp".toList).mpr
    ⟨?_, ?_, ?_, ?_⟩
  · intro s v u hv
    have hnone : parameter sslUri (settingParam s) = none := by
      cases s <;> decide
    rw [hnone] at hv
    cases hv
  · intro hnone
    exact absurd hnone (by decide)
  · intro hothers
    exact absurd rfl hothers
  · intro piece hpiece _
    exact ⟨_, _, List.mem_singleton.mp hpiece⟩

end AdbcBridge.Delegate.NativeToOdbc
