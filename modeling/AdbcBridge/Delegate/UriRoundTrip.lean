import AdbcBridge.Delegate.ParseUri
import Mathlib

/-!
# A PostgreSQL URI read back

`ParseUriRest` on what `BuildPostgresUri` wrote: which part of the URI each component
is found in, and which of them come back.
-/

namespace AdbcBridge.Delegate.UriRoundTrip

open AdbcBridge.Lib AdbcBridge.Lib.Delimited AdbcBridge.Delegate.Keywords
  AdbcBridge.Delegate.NativeUri AdbcBridge.Delegate.ParseUri

/-- What a URI is built from. -/
structure Parts where
  host : Text
  port : Option Text
  database : Option Text
  user : Option Text
  password : Option Text
  params : List (Text × Text)
  host_ne_nil : host ≠ []
  host_bytes : Bytes host
  port_digits : ∀ v ∈ port, v ≠ [] ∧ v.all Char.isDigit = true
  database_bytes : ∀ v ∈ database, v ≠ [] ∧ Bytes v
  user_bytes : ∀ v ∈ user, v ≠ [] ∧ Bytes v
  password_bytes : ∀ v ∈ password, v ≠ [] ∧ Bytes v
  params_bytes : ∀ kv ∈ params, Bytes kv.1 ∧ Bytes kv.2
  params_distinct : (params.map fun kv => lower kv.1).Nodup
  params_other : ∀ kv ∈ params, lower kv.1 ≠ "host".toList ∧ lower kv.1 ≠ "port".toList

def Parts.build (p : Parts) : Except Text PostgresUri :=
  buildPostgresUri (some p.host) p.port p.database p.user p.password p.params

/-- The host and the port of a socket, as parameters. -/
def Parts.socketParams (p : Parts) : List (Text × Text) :=
  ("host".toList, p.host) :: (p.port.map fun port => ("port".toList, port)).toList

/-- What the URI is to give back; a socket has its host and its port among the
parameters. -/
def Parts.expected (p : Parts) : ParsedUri :=
  { user := p.user
    password := p.password
    host := if isSocket p.host then none else some (unbracketed p.host)
    port := if isSocket p.host then none else p.port
    path := p.database
    params := if isSocket p.host then p.socketParams ++ p.params else p.params }

/-- The URI gives back what it was built from. -/
def Parts.RoundTrips (p : Parts) (uri : PostgresUri) : Prop :=
  ∃ rest, familyFromUri uri.text = (.postgresql, some rest) ∧ parseUriRest rest = p.expected

/-! ## Digits -/

theorem isUnreserved_of_isDigit {c : Char} (h : c.isDigit = true) : isUnreserved c := by
  simp [isUnreserved, Char.isAlphanum, h]

theorem encoded_unreserved {s : Text} (h : ∀ c ∈ s, isUnreserved c) : encoded s = s := by
  induction s with
  | nil => rfl
  | cons c s ih =>
      rw [encoded, List.flatMap_cons, if_pos (h c List.mem_cons_self), List.singleton_append,
        ← encoded, ih fun d hd => h d (List.mem_cons_of_mem c hd)]

theorem encoded_digits {s : Text} (h : s.all Char.isDigit = true) : encoded s = s :=
  encoded_unreserved fun c hc => isUnreserved_of_isDigit (List.all_eq_true.mp h c hc)

theorem bytes_digits {s : Text} (h : s.all Char.isDigit = true) : Bytes s := by
  intro c hc
  have hdigit := List.all_eq_true.mp h c hc
  constructor
  · rintro rfl
    exact absurd hdigit (by decide)
  · rw [Char.isDigit, Bool.and_eq_true, decide_eq_true_eq, decide_eq_true_eq] at hdigit
    have hle : c.val.toNat ≤ 57 := hdigit.2
    have hnat : c.toNat = c.val.toNat := rfl
    omega

theorem not_mem_digits {s : Text} (h : s.all Char.isDigit = true) {c : Char}
    (hc : c.isDigit = false) : c ∉ s := by
  intro hmem
  rw [List.all_eq_true.mp h c hmem] at hc
  cases hc

theorem percentDecode_digits {s : Text} (h : s.all Char.isDigit = true) :
    percentDecode s = s :=
  percentDecode_plain (bytes_digits h) (not_mem_digits h (by decide))

/-! ## The authority -/

/-- The user and the password in front of the host. -/
def userText (user password : Option Text) : Text :=
  match user with
  | none => []
  | some user =>
      encoded user ++
        (match password with
          | none => []
          | some password => ':' :: encoded password) ++ ['@']

/-- A character that no component has on its own. -/
def isDelimiter (c : Char) : Bool := c = '/' ∨ c = '?' ∨ c = '#' ∨ c = '@'

theorem isEncodedChar_of_isDelimiter {c : Char} (h : isDelimiter c) :
    isEncodedChar c = false := by
  simp only [isDelimiter, Bool.decide_or, Bool.or_eq_true, decide_eq_true_eq] at h
  rcases h with rfl | rfl | rfl | rfl <;> decide

theorem not_isDelimiter_of_isAddressChar {c : Char} (h : isAddressChar c) :
    isDelimiter c = false := by
  by_contra hdelim
  simp only [isDelimiter, Bool.decide_or, Bool.not_eq_false, Bool.or_eq_true,
    decide_eq_true_eq] at hdelim
  rcases hdelim with rfl | rfl | rfl | rfl <;> exact absurd h (by decide)

theorem not_mem_portText {port : Option Text} (hport : ∀ v ∈ port, v.all Char.isDigit = true)
    {c : Char} (hc : isDelimiter c) : c ∉ authority.portText port := by
  intro hmem
  cases port with
  | none => cases hmem
  | some v =>
      rw [authority.portText, List.mem_cons] at hmem
      rcases hmem with rfl | hmem
      · exact absurd hc (by decide)
      · refine not_mem_digits (hport v rfl) ?_ hmem
        simp only [isDelimiter, Bool.decide_or, Bool.or_eq_true, decide_eq_true_eq] at hc
        rcases hc with rfl | rfl | rfl | rfl <;> decide

/-- No delimiter stands in the host and the port. -/
theorem not_mem_authority {host port : Option Text}
    (hport : ∀ v ∈ port, v.all Char.isDigit = true)
    (hhost : ∀ h ∈ host, ':' ∈ unbracketed h → ¬ isSocket h →
      (unbracketed h).all isAddressChar = true) {c : Char} (hc : isDelimiter c) :
    c ∉ authority host port := by
  have hportText := not_mem_portText hport hc
  have hencoded {s : Text} := not_mem_encoded (s := s) (isEncodedChar_of_isDelimiter hc)
  cases host with
  | none => exact fun hmem => (List.mem_append.mp hmem).elim hencoded hportText
  | some h =>
      rw [authority]
      split
      · exact List.not_mem_nil
      · rename_i hsocket
        split
        · rename_i hcolon
          simp only [List.mem_append, List.mem_singleton, not_or]
          refine ⟨⟨⟨?_, ?_⟩, ?_⟩, hportText⟩
          · rintro rfl
            exact absurd hc (by decide)
          · intro hmem
            have haddr := List.all_eq_true.mp (hhost h rfl hcolon hsocket) c hmem
            rw [not_isDelimiter_of_isAddressChar haddr] at hc
            cases hc
          · rintro rfl
            exact absurd hc (by decide)
        · exact fun hmem => (List.mem_append.mp hmem).elim hencoded hportText

theorem hostAndPort_plain {s : Text} (hne : s ≠ []) (hbracket : s.head? ≠ some '[') :
    hostAndPort s = plainHost s := by
  unfold hostAndPort
  split
  · exact absurd rfl hne
  · exact absurd rfl hbracket
  · rfl

/-- A host as it stands in the URI, read with its port. -/
theorem hostAndPort_encoded {h : Text} {port : Option Text} (hh : Bytes h)
    (hport : ∀ v ∈ port, v.all Char.isDigit = true) :
    hostAndPort (encoded h ++ authority.portText port) =
      (if h = [] ∧ port = none then none else some h, port) := by
  have hcolon : ':' ∉ encoded h := not_mem_encoded (by decide)
  cases port with
  | none =>
      rw [authority.portText, List.append_nil]
      cases h with
      | nil => rfl
      | cons c h =>
          rw [hostAndPort_plain (encoded_ne_nil (by simp)) ?_, plainHost,
            cut_of_not_mem hcolon, percentDecode_encoded hh]
          · simp
          · intro hhead
            exact not_mem_encoded (by decide) (List.mem_of_mem_head? hhead)
  | some v =>
      have hv := hport v rfl
      rw [authority.portText, hostAndPort_plain (by simp) ?_, plainHost, cut_append hcolon,
        percentDecode_encoded hh, Option.map_some, percentDecode_digits hv]
      · simp
      · intro hhead
        rw [List.head?_append] at hhead
        cases hfirst : (encoded h).head? with
        | none => simp [hfirst] at hhead
        | some c =>
            rw [hfirst, Option.some_or, Option.some.injEq] at hhead
            exact not_mem_encoded (c := c) (by rw [hhead]; decide) (List.mem_of_mem_head? hfirst)

theorem hostAndPort_address {h : Text} {port : Option Text} (hh : Bytes h)
    (haddr : h.all isAddressChar = true) (hport : ∀ v ∈ port, v.all Char.isDigit = true) :
    hostAndPort ('[' :: (h ++ ']' :: authority.portText port)) = (some h, port) := by
  have hnot {c : Char} (hc : isAddressChar c = false) : c ∉ h := by
    intro hmem
    rw [List.all_eq_true.mp haddr c hmem] at hc
    cases hc
  have hdecode : percentDecode h = h := percentDecode_plain hh (hnot (by decide))
  rw [hostAndPort, cut_append (hnot (by decide))]
  cases port with
  | none => simp only [authority.portText, hdecode]
  | some v => simp only [authority.portText, hdecode, percentDecode_digits (hport v rfl)]

/-- The host and the port that are found in an authority. -/
theorem hostAndPort_authority (p : Parts)
    (haddr : ':' ∈ unbracketed p.host → ¬ isSocket p.host →
      (unbracketed p.host).all isAddressChar = true) :
    hostAndPort (authority (some p.host) p.port) =
      if isSocket p.host then (none, none)
      else (if unbracketed p.host = [] ∧ p.port = none then none else some (unbracketed p.host),
        p.port) := by
  have hport : ∀ v ∈ p.port, v.all Char.isDigit = true := fun v hv => (p.port_digits v hv).2
  have hbytes : Bytes (unbracketed p.host) := by
    unfold unbracketed
    split
    · exact fun c hc => p.host_bytes c (List.mem_of_mem_drop (List.mem_of_mem_dropLast hc))
    · exact p.host_bytes
  rw [authority]
  split
  · rfl
  · rename_i hsocket
    split
    · rename_i hcolon
      have hne : ¬ (unbracketed p.host = [] ∧ p.port = none) := by
        rintro ⟨hnil, -⟩
        rw [hnil] at hcolon
        cases hcolon
      have haddress := hostAndPort_address hbytes (haddr hcolon hsocket) hport
      rw [if_neg hne]
      simpa using haddress
    · exact hostAndPort_encoded hbytes hport

/-! ## The query -/

/-- A parameter as it is written. -/
def encodedPair (kv : Text × Text) : Text := encoded kv.1 ++ ['='] ++ encoded kv.2

/-- The pieces of a query that was written are its pairs. -/
theorem queryPairs_encoded {kvs : List (Text × Text)} (hne : kvs ≠ [])
    (hbytes : ∀ kv ∈ kvs, Bytes kv.1 ∧ Bytes kv.2) :
    queryPairs (List.intercalate ['&'] (kvs.map encodedPair)) = kvs := by
  have hamp : ∀ piece ∈ kvs.map encodedPair, '&' ∉ piece := by
    intro piece hpiece
    obtain ⟨kv, -, rfl⟩ := List.mem_map.mp hpiece
    have hencoded {s : Text} : '&' ∉ encoded s := not_mem_encoded (by decide)
    simp [encodedPair, hencoded]
  rw [queryPairs, List.splitOn_intercalate '&' hamp (by simpa using hne)]
  clear hne hamp
  induction kvs with
  | nil => rfl
  | cons kv kvs ih =>
      have hkv := hbytes kv List.mem_cons_self
      have hcut : cut '=' (encodedPair kv) = (encoded kv.1, some (encoded kv.2)) := by
        rw [encodedPair, List.append_assoc, List.singleton_append]
        exact cut_append (not_mem_encoded (by decide)) _
      rw [List.map_cons, List.filterMap_cons, hcut, Option.map_some,
        percentDecode_encoded hkv.1, percentDecode_encoded hkv.2]
      rw [ih fun e he => hbytes e (List.mem_cons_of_mem kv he)]

/-- The parameters of the URI, a socket's in front. -/
def Parts.uriParams (p : Parts) : List (Text × Text) :=
  if isSocket p.host then p.socketParams ++ p.params else p.params

theorem queryParams_eq (p : Parts) :
    queryParams (some p.host) p.port p.params = p.uriParams.map encodedPair := by
  have hparams : p.params.map (fun e => encoded e.1 ++ ['='] ++ encoded e.2) =
      p.params.map encodedPair := rfl
  unfold queryParams Parts.uriParams
  dsimp only
  rw [hparams]
  split
  · rw [List.map_append, Parts.socketParams]
    cases hport : p.port with
    | none => rfl
    | some v =>
        have hdigits := encoded_digits (p.port_digits v hport).2
        simp only [Option.map_some, Option.toList_some, List.map_cons, List.map_nil,
          encodedPair, hdigits]
        rfl
  · rfl

theorem lower_host : lower "host".toList = "host".toList := by decide

theorem lower_port : lower "port".toList = "port".toList := by decide

theorem uriParams_distinct (p : Parts) : (p.uriParams.map fun kv => lower kv.1).Nodup := by
  unfold Parts.uriParams
  split
  · have hhost : "host".toList ∉ p.params.map fun kv => lower kv.1 := by
      intro hmem
      obtain ⟨kv, hkv, heq⟩ := List.mem_map.mp hmem
      exact (p.params_other kv hkv).1 heq
    have hport : "port".toList ∉ p.params.map fun kv => lower kv.1 := by
      intro hmem
      obtain ⟨kv, hkv, heq⟩ := List.mem_map.mp hmem
      exact (p.params_other kv hkv).2 heq
    rw [List.map_append, Parts.socketParams, List.map_cons, List.cons_append, lower_host]
    cases p.port with
    | none => exact List.nodup_cons.mpr ⟨hhost, p.params_distinct⟩
    | some v =>
        rw [Option.map_some, Option.toList_some, List.map_cons, List.map_nil,
          List.singleton_append, lower_port]
        refine List.nodup_cons.mpr ⟨?_, List.nodup_cons.mpr ⟨hport, p.params_distinct⟩⟩
        exact fun hmem => (List.mem_cons.mp hmem).elim (by decide) hhost
  · exact p.params_distinct

theorem bytes_of_all {s : Text} (h : s.all (fun c => c ≠ '\x00' ∧ c.toNat < 256) = true) :
    Bytes s := fun c hc => by simpa [IsByte] using List.all_eq_true.mp h c hc

theorem bytes_host : Bytes "host".toList := bytes_of_all (by decide)

theorem bytes_port : Bytes "port".toList := bytes_of_all (by decide)

theorem uriParams_bytes (p : Parts) : ∀ kv ∈ p.uriParams, Bytes kv.1 ∧ Bytes kv.2 := by
  intro kv hkv
  unfold Parts.uriParams at hkv
  split at hkv
  · rcases List.mem_append.mp hkv with hkv | hkv
    · rcases List.mem_cons.mp hkv with rfl | hkv
      · exact ⟨bytes_host, p.host_bytes⟩
      · rw [Option.mem_toList, Option.map_eq_some_iff] at hkv
        obtain ⟨v, hv, rfl⟩ := hkv
        exact ⟨bytes_port, bytes_digits (p.port_digits v hv).2⟩
    · exact p.params_bytes kv hkv
  · exact p.params_bytes kv hkv

/-- The parameters that are read are those written. -/
theorem parseUriQuery_uriParams (p : Parts) (hne : p.uriParams ≠ []) :
    parseUriQuery (List.intercalate ['&'] (p.uriParams.map encodedPair)) = p.uriParams := by
  rw [parseUriQuery, queryPairs_encoded hne (uriParams_bytes p),
    KeyValue.addAll_distinct (by simpa using uriParams_distinct p), List.nil_append]

/-! ## The whole URI -/

/-- What follows the authority. -/
def Parts.tailText (p : Parts) : Text :=
  '/' :: encoded (p.database.getD []) ++ queryText
where
  queryText : Text :=
    match p.uriParams.map encodedPair with
    | [] => []
    | first :: rest => '?' :: List.intercalate ['&'] (first :: rest)

theorem parsePath_encoded (p : Parts) :
    parsePath ('/' :: encoded (p.database.getD [])) = p.database := by
  cases hdatabase : p.database with
  | none => rfl
  | some v =>
      have hv := p.database_bytes v hdatabase
      simp [parsePath, encoded_ne_nil hv.1, percentDecode_encoded hv.2]

theorem cut_tailText (p : Parts) :
    parsePath (cut '?' p.tailText).1 = p.database ∧
      ((cut '?' p.tailText).2.map parseUriQuery).getD [] = p.uriParams := by
  have hquery : '?' ∉ '/' :: encoded (p.database.getD []) := by
    rw [List.mem_cons, not_or]
    exact ⟨by decide, not_mem_encoded (by decide)⟩
  cases hparams : p.uriParams with
  | nil =>
      rw [Parts.tailText, Parts.tailText.queryText, hparams, List.map_nil, List.append_nil,
        cut_of_not_mem hquery]
      exact ⟨parsePath_encoded p, rfl⟩
  | cons kv kvs =>
      have hread := parseUriQuery_uriParams p (by rw [hparams]; exact List.cons_ne_nil kv kvs)
      rw [hparams, List.map_cons] at hread
      rw [Parts.tailText, Parts.tailText.queryText, hparams, List.map_cons]
      dsimp only
      rw [cut_append hquery, Option.map_some, Option.getD_some, hread]
      exact ⟨parsePath_encoded p, rfl⟩

/-- The user and the password that are found in front of the host. -/
theorem lastCut_authority (p : Parts) {hostpart : Text} (hhost : '@' ∉ hostpart) :
    lastCut '@' (userText p.user p.password ++ hostpart) =
        (p.user.map fun user => encoded user ++ (p.password.map fun v => ':' :: encoded v).getD [],
          hostpart) := by
  cases p.user with
  | none => exact lastCut_of_not_mem hhost
  | some user =>
      have htext : userText (some user) p.password ++ hostpart =
          (encoded user ++ (p.password.map fun v => ':' :: encoded v).getD []) ++
            '@' :: hostpart := by
        unfold userText
        cases p.password <;> simp
      rw [htext, lastCut_append hhost, Option.map_some]

theorem parseAuthority_built (p : Parts) {s hostpart : Text} (hhost : '@' ∉ hostpart)
    (htake : (s.takeWhile fun c => ¬ endsAuthority c) =
      userText p.user p.password ++ hostpart) :
    parseAuthority ('/' :: '/' :: s) =
      { user := p.user
        password := p.user.bind fun _ => p.password
        host := (hostAndPort hostpart).1
        port := (hostAndPort hostpart).2 } := by
  simp only [parseAuthority]
  rw [htake, lastCut_authority p hhost]
  cases huser : p.user with
  | none => rfl
  | some user =>
      have hcolon : ':' ∉ encoded user := not_mem_encoded (by decide)
      have hdecode := percentDecode_encoded (p.user_bytes user huser).2
      cases hpassword : p.password with
      | none => simp [cut_of_not_mem hcolon, hdecode]
      | some password =>
          have hpw := percentDecode_encoded (p.password_bytes password hpassword).2
          simp [cut_append hcolon, hdecode, hpw]

/-- What a URI gives back: a password with a user only, and no host of no characters
without a port. -/
def Parts.readBack (p : Parts) : ParsedUri :=
  { p.expected with
    password := p.user.bind fun _ => p.password
    host :=
      if isSocket p.host ∨ unbracketed p.host = [] ∧ p.port = none then none
      else some (unbracketed p.host) }

theorem given_some {value : Option Text} (h : ∀ v ∈ value, v ≠ []) : given value = value := by
  cases value with
  | none => rfl
  | some v => exact Option.filter_some_pos (decide_eq_true (h v rfl))

/-- What was built, and the test an accepted host has passed. -/
theorem build_ok {p : Parts} {uri : PostgresUri} (h : p.build = .ok uri) :
    uri =
        { user := p.user
          password := p.user.bind fun _ => p.password
          host := some p.host
          port := p.port
          database := p.database
          params := p.params } ∧
      (':' ∈ unbracketed p.host → ¬ isSocket p.host →
        (unbracketed p.host).all isAddressChar = true) := by
  have hhost : given (some p.host) = some p.host :=
    given_some fun v hv => Option.some.inj hv ▸ p.host_ne_nil
  rw [Parts.build, buildPostgresUri, given_some fun v hv => (p.port_digits v hv).1, hhost,
    given_some fun v hv => (p.user_bytes v hv).1,
    given_some fun v hv => (p.password_bytes v hv).1,
    given_some fun v hv => (p.database_bytes v hv).1] at h
  split at h
  · cases h
  · split at h
    · cases h
    · rename_i hhost
      refine ⟨(Except.ok.inj h).symm, fun hcolon hsocket => ?_⟩
      by_contra hall
      apply hhost
      rw [Option.any_some]
      exact decide_eq_true ⟨hsocket, hcolon, hall⟩

theorem familyFromUri_scheme {scheme rest : Text} (hscheme : ∀ c ∈ scheme, isSchemeChar c = true)
    (hlength : ¬ (scheme = [] ∨ 32 ≤ scheme.length)) :
    familyFromUri (scheme ++ ':' :: rest) = (schemeFamily scheme, some rest) := by
  rw [familyFromUri, List.takeWhile_append_of_pos hscheme, List.dropWhile_append_of_pos hscheme,
    List.takeWhile_cons_of_neg (by decide), List.dropWhile_cons_of_neg (by decide),
    List.append_nil]
  exact if_neg hlength

theorem familyFromUri_postgresql (rest : Text) :
    familyFromUri ("postgresql:".toList ++ rest) = (.postgresql, some rest) :=
  @familyFromUri_scheme "postgresql".toList rest (List.all_eq_true.mp (by decide)) (by decide)

theorem takeWhile_ends {a : Text} (h : ∀ c ∈ a, endsAuthority c = false) (t : Text) :
    (a ++ '/' :: t).takeWhile (fun c => ¬ endsAuthority c) = a ∧
      (a ++ '/' :: t).dropWhile (fun c => ¬ endsAuthority c) = '/' :: t := by
  have hall : ∀ c ∈ a, decide (¬ endsAuthority c) = true := fun c hc => by simp [h c hc]
  rw [List.takeWhile_append_of_pos hall, List.dropWhile_append_of_pos hall,
    List.takeWhile_cons_of_neg (by decide), List.dropWhile_cons_of_neg (by decide),
    List.append_nil]
  exact ⟨rfl, rfl⟩

theorem isDelimiter_of_endsAuthority {c : Char} (h : endsAuthority c) : isDelimiter c := by
  simp only [endsAuthority, isDelimiter, Bool.decide_or, Bool.or_eq_true,
    decide_eq_true_eq] at h ⊢
  tauto

theorem endsAuthority_userText {user password : Option Text} {c : Char}
    (h : c ∈ userText user password) : endsAuthority c = false := by
  by_contra hend
  rw [Bool.not_eq_false] at hend
  have hencoded {s : Text} : c ∉ encoded s :=
    not_mem_encoded (isEncodedChar_of_isDelimiter (isDelimiter_of_endsAuthority hend))
  have hne {d : Char} (hd : endsAuthority d = false) : c ≠ d := by
    rintro rfl
    rw [hd] at hend
    cases hend
  unfold userText at h
  cases user with
  | none => cases h
  | some user =>
      have hat := hne (d := '@') (by decide)
      have hcolon := hne (d := ':') (by decide)
      cases password <;> simp [hencoded, hat, hcolon] at h

/-- The text of a URI, its authority and what follows it. -/
theorem builtText (p : Parts) :
    PostgresUri.text
        { user := p.user
          password := p.user.bind fun _ => p.password
          host := some p.host
          port := p.port
          database := p.database
          params := p.params } =
      "postgresql:".toList ++
        '/' :: '/' :: (userText p.user p.password ++ authority (some p.host) p.port ++
          p.tailText) := by
  have huser : userText p.user p.password = userText p.user (p.user.bind fun _ => p.password) := by
    cases p.user <;> rfl
  have htext : PostgresUri.text
        { user := p.user
          password := p.user.bind fun _ => p.password
          host := some p.host
          port := p.port
          database := p.database
          params := p.params } =
      "postgresql:".toList ++ ['/', '/'] ++
        userText p.user (p.user.bind fun _ => p.password) ++
        authority (some p.host) p.port ++ ['/'] ++ encoded (p.database.getD []) ++
        Parts.tailText.queryText p := by
    unfold PostgresUri.text Parts.tailText.queryText
    rw [queryParams_eq]
    rfl
  rw [htext, huser, Parts.tailText]
  simp only [List.append_assoc, List.cons_append, List.nil_append]

theorem parseUriRest_built {p : Parts} {uri : PostgresUri} (h : p.build = .ok uri) :
    ∃ rest, familyFromUri uri.text = (.postgresql, some rest) ∧
      parseUriRest rest = p.readBack := by
  obtain ⟨rfl, haddr⟩ := build_ok h
  have hport : ∀ v ∈ p.port, v.all Char.isDigit = true := fun v hv => (p.port_digits v hv).2
  have hhost {c : Char} (hc : isDelimiter c) : c ∉ authority (some p.host) p.port :=
    not_mem_authority hport (fun h hh => Option.mem_some.mp hh ▸ haddr) hc
  have hends : ∀ c ∈ userText p.user p.password ++ authority (some p.host) p.port,
      endsAuthority c = false := by
    intro c hc
    rcases List.mem_append.mp hc with hc | hc
    · exact endsAuthority_userText hc
    · by_contra hend
      exact hhost (isDelimiter_of_endsAuthority (Bool.not_eq_false _ ▸ hend)) hc
  refine ⟨'/' :: '/' :: (userText p.user p.password ++ authority (some p.host) p.port ++
    p.tailText), ?_, ?_⟩
  · rw [← familyFromUri_postgresql, ← builtText]
  · obtain ⟨htake, hdrop⟩ := takeWhile_ends hends
      (encoded (p.database.getD []) ++ Parts.tailText.queryText p)
    have htail : '/' :: (encoded (p.database.getD []) ++ Parts.tailText.queryText p) =
        p.tailText := rfl
    rw [htail] at htake hdrop
    obtain ⟨hpath, hquery⟩ := cut_tailText p
    have hafter : afterAuthority ('/' :: '/' ::
        (userText p.user p.password ++ authority (some p.host) p.port ++ p.tailText)) =
        p.tailText := hdrop
    have hauth := parseAuthority_built p (hhost (c := '@') (by decide)) htake
    rw [parseUriRest, uriQuery, hafter, hauth, hpath, hquery, hostAndPort_authority p haddr]
    rw [Parts.readBack, Parts.expected, Parts.uriParams]
    by_cases hsocket : isSocket p.host
    · simp [hsocket]
    · simp [hsocket]

theorem unbracketed_eq_nil_iff {h : Text} (hne : h ≠ []) :
    unbracketed h = [] ↔ h = "[]".toList := by
  constructor
  · intro hnil
    unfold unbracketed at hnil
    split at hnil
    · rename_i hbrackets
      obtain ⟨hopen, hlen, hclose, -⟩ := hbrackets
      obtain ⟨t, rfl⟩ := List.head?_eq_some_iff.mp hopen
      obtain ⟨u, hu⟩ := List.getLast?_eq_some_iff.mp hclose
      have hu' : u = ['['] := by
        cases u with
        | nil =>
            rw [hu] at hlen
            exact absurd hlen (by decide)
        | cons d u =>
            rw [List.cons_append, List.cons.injEq] at hu
            obtain ⟨rfl, rfl⟩ := hu
            simpa using hnil
      rw [hu, hu']
      rfl
    · exact absurd hnil hne
  · rintro rfl
    decide

theorem readBack_eq_iff (p : Parts) :
    p.readBack = p.expected ↔
      (p.user.bind fun _ => p.password) = p.password ∧
        (isSocket p.host ∨ ¬ (unbracketed p.host = [] ∧ p.port = none)) := by
  rw [Parts.readBack, Parts.expected, ParsedUri.mk.injEq]
  by_cases hsocket : isSocket p.host
  · simp [hsocket]
  · by_cases hnil : unbracketed p.host = [] ∧ p.port = none
    · simp [hsocket, hnil]
    · simp [hsocket, hnil]

/-- A URI gives back what it was built from exactly if a password has a user with it
and a pair of empty brackets a port. -/
theorem roundTrips_iff {p : Parts} {uri : PostgresUri} (h : p.build = .ok uri) :
    p.RoundTrips uri ↔
      (p.password ≠ none → p.user ≠ none) ∧ (p.host = "[]".toList → p.port ≠ none) := by
  obtain ⟨rest, hscheme, hread⟩ := parseUriRest_built h
  have hiff : p.RoundTrips uri ↔ p.readBack = p.expected := by
    constructor
    · rintro ⟨rest', hscheme', hread'⟩
      rw [hscheme, Prod.mk.injEq, Option.some.injEq] at hscheme'
      rw [← hread, hscheme'.2, hread']
    · exact fun heq => ⟨rest, hscheme, hread.trans heq⟩
  rw [hiff, readBack_eq_iff]
  apply and_congr
  · cases p.user with
    | none => cases p.password <;> simp
    | some user => simp
  · rw [unbracketed_eq_nil_iff p.host_ne_nil]
    constructor
    · rintro (hsocket | hport) hbrackets
      · rw [hbrackets] at hsocket
        exact absurd hsocket (by decide)
      · exact fun hnone => hport ⟨hbrackets, hnone⟩
    · exact fun hport => .inr fun h => hport h.1 h.2

/-- A password without a user. -/
def passwordOnly : Parts where
  host := "db".toList
  port := none
  database := none
  user := none
  password := some "s".toList
  params := []
  host_ne_nil := by decide
  host_bytes := bytes_of_all (by decide)
  port_digits := fun v hv => absurd hv (Option.not_mem_none v)
  database_bytes := fun v hv => absurd hv (Option.not_mem_none v)
  user_bytes := fun v hv => absurd hv (Option.not_mem_none v)
  password_bytes := fun v hv =>
    Option.mem_some.mp hv ▸ ⟨by decide, bytes_of_all (by decide)⟩
  params_bytes := fun kv hkv => absurd hkv List.not_mem_nil
  params_distinct := List.nodup_nil
  params_other := fun kv hkv => absurd hkv List.not_mem_nil

/-- A URI with no more than a host. -/
def hostOnly : PostgresUri where
  user := none
  password := none
  host := some "db".toList
  port := none
  database := none
  params := []

/-- Nothing of the password is left in the URI. -/
theorem passwordOnly_lost :
    passwordOnly.build = .ok hostOnly ∧ hostOnly.text = "postgresql://db/".toList ∧
      ¬ passwordOnly.RoundTrips hostOnly := by
  refine ⟨rfl, by decide, ?_⟩
  rintro ⟨rest, hscheme, hread⟩
  have hrest : familyFromUri hostOnly.text = (.postgresql, some "//db/".toList) := by
    decide
  have hexpected : parseUriRest "//db/".toList ≠ passwordOnly.expected := by decide
  rw [hrest, Prod.mk.injEq, Option.some.injEq] at hscheme
  exact hexpected (hscheme.2 ▸ hread)

/-- A user with the password, every delimiter in the components. -/
def delimiters : Parts where
  host := "[::1]".toList
  port := some "5433".toList
  database := some "a/b?c".toList
  user := some "u@h:x".toList
  password := some "%40#&".toList
  params := [("sslmode".toList, "a=b&c".toList)]
  host_ne_nil := by decide
  host_bytes := bytes_of_all (by decide)
  port_digits := fun v hv => Option.mem_some.mp hv ▸ ⟨by decide, by decide⟩
  database_bytes := fun v hv =>
    Option.mem_some.mp hv ▸ ⟨by decide, bytes_of_all (by decide)⟩
  user_bytes := fun v hv =>
    Option.mem_some.mp hv ▸ ⟨by decide, bytes_of_all (by decide)⟩
  password_bytes := fun v hv =>
    Option.mem_some.mp hv ▸ ⟨by decide, bytes_of_all (by decide)⟩
  params_bytes := fun kv hkv =>
    List.mem_singleton.mp hkv ▸ ⟨bytes_of_all (by decide), bytes_of_all (by decide)⟩
  params_distinct := List.nodup_singleton _
  params_other := fun kv hkv => List.mem_singleton.mp hkv ▸ ⟨by decide, by decide⟩

theorem roundTrips_delimiters : ∃ uri, delimiters.build = .ok uri ∧ delimiters.RoundTrips uri :=
  ⟨_, rfl, (roundTrips_iff (p := delimiters) rfl).mpr ⟨fun _ => Option.some_ne_none _, fun _ =>
    Option.some_ne_none _⟩⟩

end AdbcBridge.Delegate.UriRoundTrip
