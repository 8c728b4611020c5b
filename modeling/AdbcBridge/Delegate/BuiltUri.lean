import AdbcBridge.Delegate.LibpqUri

/-!
# The built URI as libpq reads it

A text has one reading as a PostgreSQL URI, and what `BuildPostgresUri` writes is read as the parts
it was built from, but for a host of no characters between its brackets.
-/

namespace AdbcBridge.Delegate.BuiltUri

open AdbcBridge.Lib AdbcBridge.Lib.Delimited AdbcBridge.Lib.PgUri AdbcBridge.Delegate.Keywords
  AdbcBridge.Delegate.NativeUri AdbcBridge.Delegate.ParseUri AdbcBridge.Delegate.UriRoundTrip
  AdbcBridge.Delegate.LibpqUri

/-! ## One reading -/

theorem rest_unique {w w' : ConnectionUri} (h : w.text = w'.text) : w.rest = w'.rest := by
  have hfamily := familyFromUri_text w
  rw [h, familyFromUri_text] at hfamily
  exact (Option.some.inj (Prod.mk.inj hfamily).2).symm

theorem params_unique {w w' : ConnectionUri} (h : w.text = w'.text) (name : Text) :
    parameter w name = parameter w' name := by
  have hparsed := congrArg (fun rest => KeyValue.get lower (parseUriRest rest).params name)
    (rest_unique h)
  simp only [parseUriRest_rest, KeyValue.get_addAll] at hparsed
  have hnil : KeyValue.get lower ([] : List (Text × Text)) name = none := rfl
  rwa [hnil, Option.or_none, Option.or_none] at hparsed

theorem hostText_unique {w w' : ConnectionUri} (h : w.text = w'.text) :
    w.hostText = w'.hostText := by
  have hread (w : ConnectionUri) :
      lastCut '@' ((w.rest.drop 2).takeWhile fun c => ¬ endsAuthority c) =
        (w.userinfo.map Userinfo.text, w.hostText) := by
    rw [← lastCut_hosts, ← (takeWhile_authority (ends_authority w) (tail_ends w)).1]
    rfl
  have hsame := hread w
  rw [rest_unique h, hread w'] at hsame
  exact (Prod.mk.inj hsame).2.symm

theorem others_of_no_comma {w : ConnectionUri} (h : ',' ∉ w.hostText) : w.others = [] := by
  by_contra hothers
  obtain ⟨next, others, heq⟩ := List.exists_cons_of_ne_nil hothers
  apply h
  rw [ConnectionUri.hostText, heq, List.map_cons, List.map_cons, List.intercalate_cons_cons]
  simp

/-- Two hosts that are written alike are one. -/
theorem hostPort_unique {h h' : HostPort} (htext : h.text = h'.text) :
    h.host.value = h'.host.value ∧ h.port.map Component.value = h'.port.map Component.value := by
  have hread := hostAndPort_single h
  rw [htext, hostAndPort_single, Prod.mk.injEq] at hread
  refine ⟨?_, hread.2.symm⟩
  by_cases hnil : h'.text = []
  · rw [host_value_nil (htext.trans hnil), host_value_nil hnil]
  · rw [if_neg hnil, if_neg hnil, Option.some.injEq] at hread
    exact hread.1.symm

/-- Two URIs of one host that are written alike say the same. -/
theorem effective_unique {w w' : ConnectionUri} (h : w.text = w'.text) (hcomma : ',' ∉ w.hostText)
    (s : Setting) : effective w s = effective w' s := by
  have hothers := others_of_no_comma hcomma
  have hothers' := others_of_no_comma (hostText_unique h ▸ hcomma)
  have htext := hostText_unique h
  rw [hostText_single hothers, hostText_single hothers'] at htext
  obtain ⟨hhost, hport⟩ := hostPort_unique htext
  have hparsed := congrArg parseUriRest (rest_unique h)
  rw [parseUriRest_rest, parseUriRest_rest, ParsedUri.mk.injEq] at hparsed
  obtain ⟨huser, hpassword, -, -, hpath, -⟩ := hparsed
  rw [effective, effective, params_unique h]
  cases hparam : parameter w' (settingParam s) with
  | some v => rfl
  | none =>
      rw [Option.none_or, Option.none_or]
      cases s with
      | host =>
          unfold component
          rw [hostValue_single hothers, hostValue_single hothers', hhost]
      | port =>
          unfold component
          rw [portValue_single hothers, portValue_single hothers', hport]
      | database => exact hpath
      | user => exact congrArg given huser
      | password => exact congrArg given hpassword

/-! ## The parts as they are written -/

theorem hexDigit_kHex {n : Nat} (h : n < 16) : HexDigit (kHex.getD n '0') n := by
  by_cases hdigit : n < 10
  · have hchar : kHex.getD n '0' = Char.ofNat (48 + n) := by
      interval_cases n <;> decide
    rw [hchar]
    exact .digit hdigit
  · obtain ⟨m, rfl⟩ := Nat.exists_eq_add_of_le (Nat.le_of_not_lt hdigit)
    have hm : m < 6 := by omega
    have hchar : kHex.getD (10 + m) '0' = Char.ofNat (65 + m) := by
      interval_cases m <;> decide
    rw [hchar]
    exact .upper hm

/-- An encoded text spells what was encoded. -/
theorem spells_encoded {s : Text} (hs : Bytes s) : Spells (encoded s) s := by
  induction s with
  | nil => exact .nil
  | cons c s ih =>
      obtain ⟨hc, hrest⟩ := List.forall_mem_cons.mp hs
      rw [encoded, List.flatMap_cons, ← encoded]
      by_cases hplain : isUnreserved c
      · have hpercent : c ≠ '%' := by
          rintro rfl
          exact absurd hplain (by decide)
        rw [if_pos hplain]
        exact .plain hpercent hc.1 (ih hrest)
      · rw [if_neg hplain]
        have hsum : c.toNat / 16 * 16 + c.toNat % 16 = c.toNat := by omega
        have hne : c.toNat / 16 * 16 + c.toNat % 16 ≠ 0 := by
          rw [hsum]
          intro hzero
          apply hc.1
          rw [← Char.ofNat_toNat c, hzero]
        have hspells := Spells.escape (hexDigit_kHex (n := c.toNat / 16) (by have := hc.2; omega))
          (hexDigit_kHex (n := c.toNat % 16) (by omega)) hne (ih hrest)
        rwa [hsum, Char.ofNat_toNat] at hspells

/-- A value as a part of a URI. -/
def encodedPart (ends value : Text) (hvalue : Bytes value)
    (hends : (ends.all fun c => !isEncodedChar c) = true) : Component ends where
  text := encoded value
  value := value
  spells := spells_encoded hvalue
  closed := fun c hc => not_mem_encoded (by simpa using List.all_eq_true.mp hends c hc)

/-- A text of digits, or of the characters of an address, as a part of a URI. -/
theorem plain_of_all {s : Text} {p : Char → Bool} (h : s.all p = true)
    (hp : p '%' = false ∧ p '\x00' = false) : ∀ c ∈ s, c ≠ '%' ∧ c ≠ '\x00' := by
  intro c hc
  have hpc := List.all_eq_true.mp h c hc
  constructor
  · rintro rfl
    rw [hp.1] at hpc
    cases hpc
  · rintro rfl
    rw [hp.2] at hpc
    cases hpc

theorem not_mem_of_all {s : Text} {p : Char → Bool} (h : s.all p = true) {ends : Text}
    (hends : (ends.all fun c => !p c) = true) : ∀ c ∈ ends, c ∉ s := by
  intro c hc hmem
  have hnot := List.all_eq_true.mp hends c hc
  rw [List.all_eq_true.mp h c hmem] at hnot
  cases hnot

/-- What `BuildPostgresUri` has checked of the parts it was given, and what `char *` can hold of
them. -/
structure Written (u : PostgresUri) : Prop where
  user : ∀ v ∈ u.user, v ≠ [] ∧ Bytes v
  password : ∀ v ∈ u.password, v ≠ [] ∧ Bytes v
  login : u.user = none → u.password = none
  host : ∀ h ∈ u.host, h ≠ [] ∧ Bytes h
  address : ∀ h ∈ u.host, ':' ∈ unbracketed h → ¬ isSocket h →
    (unbracketed h).all isAddressChar = true
  port : ∀ v ∈ u.port, v ≠ [] ∧ v.all Char.isDigit = true
  database : ∀ v ∈ u.database, v ≠ [] ∧ Bytes v
  params : ∀ kv ∈ u.params, Bytes kv.1 ∧ Bytes kv.2
  names : ∀ kv ∈ u.params, ∀ s, lower kv.1 ≠ settingParam s

theorem bytes_unbracketed {h : Text} (hh : Bytes h) : Bytes (unbracketed h) := by
  unfold unbracketed
  split
  · exact fun c hc => hh c (List.mem_of_mem_drop (List.mem_of_mem_dropLast hc))
  · exact hh

/-- The port as it is written behind a host. -/
theorem exists_port {port : Option Text} (hport : ∀ v ∈ port, v.all Char.isDigit = true) :
    ∃ p : Option (Component ([':', ','] ++ authorityEnds)),
      (p.map fun p => ':' :: p.text).getD [] = authority.portText port ∧
        p.map Component.value = port := by
  cases port with
  | none => exact ⟨none, rfl, rfl⟩
  | some v =>
      have hdigits := hport v rfl
      refine ⟨some ⟨v, v, spells_plain (plain_of_all hdigits (by decide)),
        not_mem_of_all hdigits (by decide)⟩, rfl, rfl⟩

/-- The host and the port that the authority has: those of a socket stand in the query. -/
def writtenHost (host port : Option Text) : Text × Option Text :=
  match host with
  | none => ("localhost".toList, port)
  | some h => if isSocket h then ([], none) else (unbracketed h, port)

theorem writtenHost_none (port : Option Text) :
    writtenHost none port = ("localhost".toList, port) := rfl

theorem writtenHost_some (h : Text) (port : Option Text) :
    writtenHost (some h) port = if isSocket h then ([], none) else (unbracketed h, port) := rfl

/-- The host and the port that are written in the authority. -/
theorem exists_hostPort {host port : Option Text} (hhost : ∀ h ∈ host, Bytes h)
    (haddress : ∀ h ∈ host, ':' ∈ unbracketed h → ¬ isSocket h →
      (unbracketed h).all isAddressChar = true)
    (hport : ∀ v ∈ port, v.all Char.isDigit = true) :
    ∃ h : HostPort, h.text = authority host port ∧ ',' ∉ h.text ∧
      h.host.value = (writtenHost host port).1 ∧
      h.port.map Component.value = (writtenHost host port).2 := by
  obtain ⟨p, hp, hvalue⟩ := exists_port hport
  have hcomma : ',' ∉ authority.portText port := by
    cases hport' : port with
    | none => exact List.not_mem_nil
    | some v =>
        rw [authority.portText, List.mem_cons, not_or]
        exact ⟨by decide, not_mem_digits (hport v hport') (by decide)⟩
  have hencoded {s : Text} : ',' ∉ encoded s := not_mem_encoded (by decide)
  -- A name is encoded; only an address is written as it stands, in brackets.
  have hname (s : Text) (hs : Bytes s) : ∃ h : HostPort,
      h.text = encoded s ++ authority.portText port ∧ ',' ∉ h.text ∧
        h.host.value = s ∧ h.port.map Component.value = port := by
    refine ⟨⟨.name (encodedPart _ s hs (by decide)), p⟩, ?_, ?_, rfl, hvalue⟩
    · rw [← hp]
      rfl
    · change ',' ∉ encoded s ++ (p.map fun p => ':' :: p.text).getD []
      rw [hp, List.mem_append, not_or]
      exact ⟨hencoded, hcomma⟩
  cases host with
  | none => exact hname "localhost".toList (bytes_of_all (by decide))
  | some h =>
      unfold authority writtenHost
      dsimp only
      by_cases hsocket : isSocket h
      · rw [if_pos hsocket, if_pos hsocket]
        refine ⟨⟨.name (encodedPart _ [] (fun c hc => absurd hc List.not_mem_nil) (by decide)),
          none⟩, rfl, ?_, rfl, rfl⟩
        exact List.not_mem_nil
      · rw [if_neg hsocket, if_neg hsocket]
        by_cases hcolon : ':' ∈ unbracketed h
        · have haddr := haddress h rfl hcolon hsocket
          have hne : unbracketed h ≠ [] := List.ne_nil_of_mem hcolon
          rw [if_pos hcolon]
          refine ⟨⟨.address ⟨unbracketed h, unbracketed h,
            spells_plain (plain_of_all haddr (by decide)), not_mem_of_all haddr (by decide)⟩ hne,
            p⟩, ?_, ?_, rfl, hvalue⟩
          · rw [← hp]
            simp [HostPort.text, Host.text]
          · have haddrComma : ',' ∉ unbracketed h :=
              @not_mem_of_all _ _ haddr [','] (by decide) ',' List.mem_cons_self
            change ',' ∉ '[' :: (unbracketed h ++ [']']) ++ _
            rw [hp]
            simp [haddrComma, hcomma]
        · rw [if_neg hcolon]
          exact hname _ (bytes_unbracketed (hhost h rfl))

/-! ## The query -/

/-- The host and the port of a socket, as parameters. -/
def socketParams (u : PostgresUri) : List (Text × Text) :=
  match u.host with
  | none => []
  | some h =>
      if isSocket h then
        ("host".toList, h) :: (u.port.map fun port => ("port".toList, port)).toList
      else []

theorem queryParams_pairs {u : PostgresUri} (hu : Written u) :
    queryParams u.host u.port u.params = (socketParams u ++ u.params).map encodedPair := by
  have hparams : u.params.map (fun e => encoded e.1 ++ ['='] ++ encoded e.2) =
      u.params.map encodedPair := rfl
  rw [List.map_append, ← hparams]
  unfold queryParams socketParams
  congr 1
  cases hhost : u.host with
  | none => rfl
  | some h =>
      dsimp only
      split
      · cases hport : u.port with
        | none => rfl
        | some v =>
            have hdigits := encoded_digits (hu.port v hport).2
            simp only [Option.map_some, Option.toList_some, List.map_cons, List.map_nil,
              encodedPair, hdigits]
            rfl
      · rfl

theorem socketParams_bytes {u : PostgresUri} (hu : Written u) :
    ∀ kv ∈ socketParams u, Bytes kv.1 ∧ Bytes kv.2 := by
  unfold socketParams
  cases hhost : u.host with
  | none => exact fun kv hkv => absurd hkv List.not_mem_nil
  | some h =>
      dsimp only
      split
      · intro kv hkv
        rcases List.mem_cons.mp hkv with rfl | hkv
        · exact ⟨bytes_host, (hu.host h hhost).2⟩
        · rw [Option.mem_toList, Option.map_eq_some_iff] at hkv
          obtain ⟨v, hv, rfl⟩ := hkv
          exact ⟨bytes_port, bytes_digits (hu.port v hv).2⟩
      · exact fun kv hkv => absurd hkv List.not_mem_nil

/-- Pairs as the pieces of a query. -/
theorem exists_pieces {kvs : List (Text × Text)} (h : ∀ kv ∈ kvs, Bytes kv.1 ∧ Bytes kv.2) :
    ∃ pieces : List Piece, pieces.map Piece.text = kvs.map encodedPair ∧
      pieces.filterMap Piece.pair? = kvs := by
  induction kvs with
  | nil => exact ⟨[], rfl, rfl⟩
  | cons kv kvs ih =>
      obtain ⟨hkv, hrest⟩ := List.forall_mem_cons.mp h
      obtain ⟨pieces, htext, hpairs⟩ := ih hrest
      refine ⟨.param (encodedPart _ kv.1 hkv.1 (by decide))
        (encodedPart _ kv.2 hkv.2 (by decide)) :: pieces, ?_, ?_⟩
      · rw [List.map_cons, List.map_cons, htext, encodedPair, List.append_assoc]
        rfl
      · exact congrArg (fun l => (kv.1, kv.2) :: l) hpairs

/-! ## What the text says -/

/-- What the parts of a URI come to in its text: the brackets of an address are no part of it, and
a missing host is written as `localhost`. -/
def saidParts (u : PostgresUri) : Setting → Option Text
  | .host =>
      match u.host with
      | none => some "localhost".toList
      | some h => if isSocket h then some h else given (some (unbracketed h))
  | .port => u.port
  | .database => u.database
  | .user => u.user
  | .password => u.password

theorem get_other {kvs : List (Text × Text)} {s : Setting}
    (h : ∀ kv ∈ kvs, ∀ s, lower kv.1 ≠ settingParam s) :
    KeyValue.get lower kvs (settingParam s) = none := by
  have hlower : lower (settingParam s) = settingParam s := by cases s <;> decide
  cases hget : KeyValue.get lower kvs (settingParam s) with
  | none => rfl
  | some v =>
      obtain ⟨j, hj, hkey⟩ := KeyValue.mem_of_get hget
      rw [hlower] at hkey
      exact absurd hkey (h _ hj s)

/-- Of the settings only a socket's host and port are parameters. -/
theorem get_socketParams (u : PostgresUri) (s : Setting) :
    KeyValue.get lower (socketParams u).reverse (settingParam s) =
      if u.host.any fun h => isSocket h then
        match s with
        | .host => u.host
        | .port => u.port
        | _ => none
      else none := by
  unfold socketParams
  cases hhost : u.host with
  | none => rfl
  | some h =>
      rw [Option.any_some]
      dsimp only
      split
      · cases hport : u.port with
        | none => cases s <;> rfl
        | some port => cases s <;> rfl
      · rfl

/-- A URI of one host has the parts that were written. -/
structure IsWritten (u : PostgresUri) (w : ConnectionUri) : Prop where
  others : w.others = []
  host : w.host.host.value = (writtenHost u.host u.port).1
  port : w.host.port.map Component.value = (writtenHost u.host u.port).2
  params : w.params = socketParams u ++ u.params
  user : (w.userinfo.map fun i => i.user.value) = u.user
  password : (w.userinfo.bind fun i => i.password.map Component.value) = u.password
  database : w.database.map Component.value = some (u.database.getD [])

theorem given_getD {value : Option Text} (h : ∀ v ∈ value, v ≠ []) :
    given (some (value.getD [])) = value := by
  cases hvalue : value with
  | none => rfl
  | some v => exact given_eq_some.mpr ⟨rfl, h v hvalue⟩

/-- What libpq takes from such a URI is what its parts come to. -/
theorem effective_written {u : PostgresUri} (hu : Written u) {w : ConnectionUri}
    (hw : IsWritten u w) (s : Setting) : effective w s = saidParts u s := by
  have hhost := hw.host
  have hvalue := hw.port
  have hport : ∀ v ∈ u.port, v ≠ [] := fun v hv => (hu.port v hv).1
  have hparam : parameter w (settingParam s) =
      KeyValue.get lower (socketParams u).reverse (settingParam s) := by
    have hnone : KeyValue.get lower u.params.reverse (settingParam s) = none :=
      get_other fun kv hkv => hu.names kv (List.mem_reverse.mp hkv)
    rw [parameter, hw.params, List.reverse_append, KeyValue.get_append, hnone, Option.none_or]
  rw [effective, hparam, get_socketParams]
  cases s with
  | host =>
      unfold component saidParts
      rw [hostValue_single hw.others, hhost]
      cases hu' : u.host with
      | none =>
          rw [writtenHost_none]
          rfl
      | some h =>
          rw [writtenHost_some, Option.any_some]
          dsimp only
          by_cases hsocket : isSocket h
          · rw [if_pos hsocket, Option.some_or, if_pos hsocket]
            exact given_eq_some.mpr ⟨rfl, (hu.host h hu').1⟩
          · rw [if_neg hsocket, if_neg hsocket, if_neg hsocket, Option.none_or]
  | port =>
      unfold component saidParts
      rw [portValue_single hw.others, hvalue]
      cases hu' : u.host with
      | none =>
          rw [writtenHost_none]
          exact given_getD hport
      | some h =>
          rw [writtenHost_some, Option.any_some]
          dsimp only
          by_cases hsocket : isSocket h
          · rw [if_pos hsocket, if_pos hsocket]
            cases hport' : u.port with
            | none => rfl
            | some v => exact given_eq_some.mpr ⟨rfl, hport v hport'⟩
          · rw [if_neg hsocket, if_neg hsocket, Option.none_or]
            exact given_getD hport
  | database =>
      rw [ite_self, Option.none_or]
      change given (w.database.map Component.value) = u.database
      rw [hw.database]
      exact given_getD fun v hv => (hu.database v hv).1
  | user =>
      rw [ite_self, Option.none_or]
      change given (w.userinfo.map fun i => i.user.value) = u.user
      rw [hw.user]
      exact given_some fun v hv => (hu.user v hv).1
  | password =>
      rw [ite_self, Option.none_or]
      change given (w.userinfo.bind fun i => i.password.map Component.value) = u.password
      rw [hw.password]
      exact given_some fun v hv => (hu.password v hv).1

/-- A parameter that is none of the settings has the last value that was recorded for it. -/
theorem parameter_written {u : PostgresUri} {w : ConnectionUri} (hw : IsWritten u w) {name : Text}
    (hname : ∀ s, lower name ≠ settingParam s) :
    parameter w name = KeyValue.get lower u.params.reverse name := by
  have hnone : KeyValue.get lower (socketParams u).reverse name = none := by
    cases hget : KeyValue.get lower (socketParams u).reverse name with
    | none => rfl
    | some v =>
        obtain ⟨j, hj, hkey⟩ := KeyValue.mem_of_get hget
        rw [List.mem_reverse] at hj
        unfold socketParams at hj
        split at hj
        · cases hj
        · split at hj
          · rcases List.mem_cons.mp hj with hj | hj
            · rw [(Prod.mk.inj hj).1] at hkey
              exact absurd hkey.symm (hname .host)
            · rw [Option.mem_toList, Option.map_eq_some_iff] at hj
              obtain ⟨port, -, hj⟩ := hj
              rw [← (Prod.mk.inj hj).1] at hkey
              exact absurd hkey.symm (hname .port)
          · cases hj
  rw [parameter, hw.params, List.reverse_append, KeyValue.get_append, hnone, Option.or_none]

/-- The user and the password that are written in front of the host. -/
theorem exists_userinfo {u : PostgresUri} (hu : Written u) : ∃ userinfo : Option Userinfo,
    (userinfo.map fun i => i.text ++ ['@']).getD [] = userText u.user u.password ∧
      (userinfo.map fun i => i.user.value) = u.user ∧
      (userinfo.bind fun i => i.password.map Component.value) = u.password := by
  cases huser : u.user with
  | none => exact ⟨none, rfl, rfl, (hu.login huser).symm⟩
  | some user =>
      have hbytes := (hu.user user huser).2
      cases hpassword : u.password with
      | none => exact ⟨some ⟨encodedPart _ user hbytes (by decide), none⟩, rfl, rfl, rfl⟩
      | some password =>
          have hpbytes := (hu.password password hpassword).2
          exact ⟨some ⟨encodedPart _ user hbytes (by decide),
            some (encodedPart _ password hpbytes (by decide))⟩, rfl, rfl, rfl⟩

/-- The text of a URI that was built is a URI of one host with the parts that were written. -/
theorem exists_written {u : PostgresUri} (hu : Written u) :
    ∃ w : ConnectionUri, w.text = u.text ∧ ',' ∉ w.hostText ∧ IsWritten u w := by
  obtain ⟨host, hhostText, hcomma, hhost, hport⟩ := @exists_hostPort u.host u.port
    (fun h hh => (hu.host h hh).2) hu.address fun v hv => (hu.port v hv).2
  have hbytes : ∀ kv ∈ socketParams u ++ u.params, Bytes kv.1 ∧ Bytes kv.2 := by
    intro kv hkv
    rcases List.mem_append.mp hkv with hkv | hkv
    · exact socketParams_bytes hu kv hkv
    · exact hu.params kv hkv
  obtain ⟨pieces, hpieces, hpairs⟩ := exists_pieces hbytes
  obtain ⟨userinfo, huserText, huser, hpassword⟩ := exists_userinfo hu
  have hdbytes : Bytes (u.database.getD []) := by
    cases hdatabase : u.database with
    | none => exact fun c hc => absurd hc List.not_mem_nil
    | some v => exact (hu.database v hdatabase).2
  let w : ConnectionUri :=
    { scheme := .postgresql
      userinfo := userinfo
      host := host
      others := []
      database := some (encodedPart _ (u.database.getD []) hdbytes (by decide))
      query := pieces }
  have hothers : w.others = [] := rfl
  refine ⟨w, ?_, ?_, ⟨hothers, hhost, hport, hpairs, huser, hpassword, rfl⟩⟩
  · have hquery : queryParams u.host u.port u.params = pieces.map Piece.text :=
      (queryParams_pairs hu).trans hpieces.symm
    rw [ConnectionUri.text, ConnectionUri.rest, ConnectionUri.authority, hostText_single hothers]
    unfold PostgresUri.text
    rw [hquery]
    change "postgresql".toList ++ ':' :: '/' :: '/' ::
      ((userinfo.map fun i => i.text ++ ['@']).getD [] ++ host.text ++
        ('/' :: encoded (u.database.getD []) ++
          if pieces = [] then [] else '?' :: List.intercalate ['&'] (pieces.map Piece.text))) = _
    rw [huserText, hhostText]
    unfold userText
    clear hquery hpieces hpairs hothers w
    cases pieces with
    | nil => simp only [List.append_assoc, List.cons_append, List.nil_append]; rfl
    | cons piece pieces => simp only [List.append_assoc, List.cons_append, List.nil_append]; rfl
  · rw [hostText_single hothers]
    exact hcomma

end AdbcBridge.Delegate.BuiltUri
