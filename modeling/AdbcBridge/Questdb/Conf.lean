import AdbcBridge.Lib.Delimited
import AdbcBridge.Lib.Doubled
import AdbcBridge.Lib.GenericUri
import AdbcBridge.Lib.KeyValue
import Mathlib

/-!
# The configuration string of QuestDB

`QdbConfAppend` and `QdbBuildConf`, and the pairs the client's grammar reads of the
string: `scheme::`, then pairs that end in a `;`, two of them standing for one.  What a URI says is
that of the generic syntax.
-/

namespace AdbcBridge.Questdb.Conf

open AdbcBridge.Lib AdbcBridge.Lib.Delimited AdbcBridge.Lib.GenericUri

abbrev Text := List Char

/-! ## Building the string -/

/-- The options of `struct QdbDatabase`. -/
structure QdbDatabase where
  uri : Option Text := none
  username : Option Text := none
  password : Option Text := none
  token : Option Text := none
  extraConf : Option Text := none
deriving DecidableEq, Repr

/-- `QdbConfAppend`. -/
def qdbConfAppend (kv : Text × Text) : Text :=
  kv.1 ++ '=' :: (Doubled.escape ';' kv.2 ++ [';'])

/-- The prefixes of a URI and their schemes. -/
def schemes : List (Text × Text) :=
  [("ws://".toList, "ws".toList), ("wss://".toList, "wss".toList),
    ("http://".toList, "ws".toList), ("https://".toList, "wss".toList),
    ("questdb://".toList, "ws".toList)]

/-- The scheme of a URI, and what follows it. -/
def uriScheme (uri : Text) : Except Text (Text × Text) :=
  match schemes.find? fun s => s.1.isPrefixOf uri with
  | some s => .ok (s.2, uri.drop s.1.length)
  | none =>
      if uri.tails.any fun t => "://".toList.isPrefixOf t then
        .error ("Unsupported URI scheme in ".toList ++ uri ++
          ": use ws://host:port or wss://host:port".toList)
      else .ok ("ws".toList, uri)

/-- A colon behind the last bracket. -/
def hasPort (hostport : Text) : Bool := ':' ∈ (lastCut ']' hostport).2

/-- The scheme of a database, and its host and port. -/
def address (db : QdbDatabase) : Except Text (Text × Text) :=
  match db.uri with
  | none => .error "The \"uri\" option is required, e.g. ws://localhost:9000".toList
  | some uri =>
      match uriScheme uri with
      | .error why => .error why
      | .ok (scheme, rest) =>
          let hostport := rest.takeWhile fun c => ¬ (c = '/' ∨ c = '?' ∨ c = '#')
          if hostport = [] then .error ("No host in URI ".toList ++ uri)
          else .ok (scheme, hostport ++ if hasPort hostport then [] else ":9000".toList)

/-- The pairs of the options that are given. -/
def credentials (db : QdbDatabase) : List (Text × Text) :=
  (db.username.map fun v => ("username".toList, v)).toList ++
    (db.password.map fun v => ("password".toList, v)).toList ++
    (db.token.map fun v => ("token".toList, v)).toList

/-- The extra configuration, ended by a `;`. -/
def extraText (db : QdbDatabase) : Text :=
  match db.extraConf with
  | none => []
  | some extra =>
      if extra = [] then [] else if extra.getLast? = some ';' then extra else extra ++ [';']

/-- `QdbBuildConf`. -/
def qdbBuildConf (db : QdbDatabase) : Except Text Text :=
  match address db with
  | .error why => .error why
  | .ok (scheme, addr) =>
      .ok (scheme ++ "::addr=".toList ++ addr ++ ";".toList ++
        (credentials db).flatMap qdbConfAppend ++ "lazy_connect=true;".toList ++ extraText db)

/-! ## Reading the string -/

/-- The pairs of a configuration, while there is a key. -/
def confPairs (s : Text) : List (Text × Text) :=
  match _h : (cut '=' s).2 with
  | none => []
  | some v => ((cut '=' s).1, (Doubled.read ';' v).1) :: confPairs (Doubled.read ';' v).2
termination_by s.length
decreasing_by
  have hrest := (Doubled.read_suffix ';' v).length_le
  have hcut := cut_length _h
  omega

/-- The scheme and the pairs behind it. -/
def parseConf (s : Text) : Option (Text × List (Text × Text)) :=
  match cut ':' s with
  | (scheme, some (':' :: rest)) => some (scheme, confPairs rest)
  | _ => none

/-- The pairs a database asks for. -/
def expectedPairs (db : QdbDatabase) (addr : Text) : List (Text × Text) :=
  ("addr".toList, addr) ::
    (credentials db ++ ("lazy_connect".toList, "true".toList) :: confPairs (extraText db))

/-- The string says what was asked for and nothing else. -/
def Exact (db : QdbDatabase) (scheme addr conf : Text) : Prop :=
  parseConf conf = some (scheme, expectedPairs db addr)

/-! ## One pair after the other -/

theorem confPairs_pair {key : Text} (hkey : '=' ∉ key) (v : Text) :
    confPairs (key ++ '=' :: v) =
      (key, (Doubled.read ';' v).1) :: confPairs (Doubled.read ';' v).2 := by
  rw [confPairs.eq_def, cut_append hkey]

theorem confPairs_append {kv : Text × Text} (hkey : '=' ∉ kv.1) {t : Text}
    (ht : t.head? ≠ some ';') : confPairs (qdbConfAppend kv ++ t) = kv :: confPairs t := by
  have htext : qdbConfAppend kv ++ t =
      kv.1 ++ '=' :: (Doubled.escape ';' kv.2 ++ ';' :: t) := by
    simp [qdbConfAppend]
  rw [htext, confPairs_pair hkey, Doubled.read_escape kv.2 ht]

/-- A key a pair can be written with. -/
def IsKey (key : Text) : Prop := key ≠ [] ∧ '=' ∉ key ∧ ';' ∉ key

theorem head_append {kv : Text × Text} (hkey : IsKey kv.1) (t : Text) :
    (qdbConfAppend kv ++ t).head? ≠ some ';' := by
  obtain ⟨c, rest, hc⟩ := List.exists_cons_of_ne_nil hkey.1
  rw [qdbConfAppend, hc]
  intro h
  exact hkey.2.2 (hc ▸ Option.some.inj h ▸ List.mem_cons_self)

theorem confPairs_flatMap {kvs : List (Text × Text)} (hkeys : ∀ kv ∈ kvs, IsKey kv.1)
    {t : Text} (ht : t.head? ≠ some ';') :
    confPairs (kvs.flatMap qdbConfAppend ++ t) = kvs ++ confPairs t := by
  induction kvs with
  | nil => rfl
  | cons kv kvs ih =>
      obtain ⟨hkv, hrest⟩ := List.forall_mem_cons.mp hkeys
      have hhead : (kvs.flatMap qdbConfAppend ++ t).head? ≠ some ';' := by
        cases kvs with
        | nil => exact ht
        | cons e kvs =>
            rw [List.flatMap_cons, List.append_assoc]
            exact head_append (hrest e List.mem_cons_self) _
      rw [List.flatMap_cons, List.append_assoc, confPairs_append hkv.2.1 hhead, ih hrest,
        List.cons_append]

theorem isKey_addr : IsKey "addr".toList := by
  refine ⟨?_, ?_, ?_⟩ <;> decide

theorem isKey_lazy : IsKey "lazy_connect".toList := by
  refine ⟨?_, ?_, ?_⟩ <;> decide

theorem credentials_keys {db : QdbDatabase} {kv : Text × Text} (h : kv ∈ credentials db) :
    IsKey kv.1 := by
  simp only [credentials, List.mem_append, Option.mem_toList, Option.map_eq_some_iff] at h
  rcases h with (⟨v, -, rfl⟩ | ⟨v, -, rfl⟩) | ⟨v, -, rfl⟩ <;>
    refine ⟨?_, ?_, ?_⟩ <;> simp

/-! ## The whole string -/

/-- The scheme the client is given: the encrypted one for the encrypted ones. -/
def clientScheme (u : Uri) : Text :=
  if u.scheme = some "wss".toList ∨ u.scheme = some "https".toList then "wss".toList
  else "ws".toList

theorem prefix_scheme {w s t : Text} (hw : ':' ∉ w) (hs : ':' ∉ s)
    (h : (w ++ "://".toList).isPrefixOf (s ++ "://".toList ++ t) = true) : s = w := by
  obtain ⟨t', ht'⟩ := List.isPrefixOf_iff_prefix.mp h
  have hcut := congrArg (fun text => (cut ':' text).1) ht'
  have hjoin (v t : Text) : v ++ "://".toList ++ t = v ++ ':' :: ('/' :: '/' :: t) := by simp
  rw [hjoin, hjoin, cut_append hw, cut_append hs] at hcut
  exact hcut.symm

theorem any_tails {uri : Text} :
    (uri.tails.any fun t => "://".toList.isPrefixOf t) = true ↔ "://".toList <:+: uri := by
  simp only [List.any_eq_true, List.mem_tails, List.isPrefixOf_iff_prefix]
  constructor
  · intro h
    obtain ⟨t, hsuffix, hpre⟩ := h
    exact List.infix_iff_prefix_suffix.mpr ⟨t, hpre, hsuffix⟩
  · intro h
    obtain ⟨t, hpre, hsuffix⟩ := List.infix_iff_prefix_suffix.mp h
    exact ⟨t, hsuffix, hpre⟩

/-- A prefix is a word without a colon and `://`. -/
theorem schemes_words {s : Text × Text} (h : s ∈ schemes) :
    ∃ w, ':' ∉ w ∧ s.1 = w ++ "://".toList ∧
      s.2 = if w = "wss".toList ∨ w = "https".toList then "wss".toList else "ws".toList := by
  simp only [schemes, List.mem_cons, List.not_mem_nil, or_false] at h
  rcases h with rfl | rfl | rfl | rfl | rfl
  · exact ⟨"ws".toList, by decide, rfl, by decide⟩
  · exact ⟨"wss".toList, by decide, rfl, by decide⟩
  · exact ⟨"http".toList, by decide, rfl, by decide⟩
  · exact ⟨"https".toList, by decide, rfl, by decide⟩
  · exact ⟨"questdb".toList, by decide, rfl, by decide⟩

/-- The scheme and what follows it are those of the URI. -/
theorem uriScheme_text {u : Uri} {scheme rest : Text}
    (h : uriScheme u.text = .ok (scheme, rest)) :
    scheme = clientScheme u ∧ rest = u.authority ++ u.rest := by
  unfold uriScheme at h
  cases hscheme : u.scheme with
  | none =>
      have htext : u.text = u.authority ++ u.rest := by
        unfold Uri.text
        rw [hscheme]
        rfl
      have hbare := u.bare hscheme
      rw [htext] at h
      split at h
      · rename_i s hs
        obtain ⟨w, -, hword, -⟩ := schemes_words (List.mem_of_find?_eq_some hs)
        have hprefix := List.find?_some (p := fun s : Text × Text => s.1.isPrefixOf _) hs
        rw [List.isPrefixOf_iff_prefix, hword] at hprefix
        exact absurd ((List.suffix_append w _).isInfix.trans hprefix.isInfix) hbare
      · split at h
        · cases h
        · rw [Except.ok.injEq, Prod.mk.injEq] at h
          refine ⟨?_, h.2.symm⟩
          rw [← h.1, clientScheme, hscheme]
          decide
  | some s =>
      have htext : u.text = s ++ "://".toList ++ (u.authority ++ u.rest) := by
        unfold Uri.text
        rw [hscheme]
        rfl
      rw [htext] at h
      split at h
      · rename_i entry hentry
        obtain ⟨w, hw, hword, hclient⟩ := schemes_words (List.mem_of_find?_eq_some hentry)
        have hprefix := List.find?_some (p := fun s : Text × Text => s.1.isPrefixOf _) hentry
        rw [hword] at hprefix
        have hsame := prefix_scheme hw (u.scheme_closed s hscheme) hprefix
        rw [Except.ok.injEq, Prod.mk.injEq, hword, hsame, List.drop_left] at h
        refine ⟨?_, h.2.symm⟩
        rw [← h.1, hclient, clientScheme, hscheme, hsame]
        simp only [Option.some.injEq]
      · rw [if_pos (any_tails.mpr ⟨s, u.authority ++ u.rest, rfl⟩)] at h
        cases h

/-- An accepted URI can be read. -/
theorem exists_uri_of_scheme {uri scheme rest : Text} (h : uriScheme uri = .ok (scheme, rest)) :
    ∃ u : Uri, u.text = uri := by
  unfold uriScheme at h
  split at h
  · rename_i entry hentry
    obtain ⟨w, hw, hword, -⟩ := schemes_words (List.mem_of_find?_eq_some hentry)
    have hprefix := List.find?_some (p := fun s : Text × Text => s.1.isPrefixOf _) hentry
    obtain ⟨t, ht⟩ := List.isPrefixOf_iff_prefix.mp hprefix
    obtain ⟨u, -, htext⟩ := exists_uri hw t
    exact ⟨u, by rw [htext, ← hword, ht]⟩
  · split at h
    · cases h
    · rename_i hbare
      obtain ⟨u, -, htext⟩ := exists_bare_uri fun hinfix => hbare (any_tails.mpr hinfix)
      exact ⟨u, htext⟩

/-- The address is the authority, with the port of QuestDB where it shows none. -/
theorem address_text {db : QdbDatabase} {u : Uri} {scheme addr : Text}
    (hu : db.uri = some u.text) (h : address db = .ok (scheme, addr)) :
    scheme = clientScheme u ∧
      addr = u.authority ++ if hasPort u.authority then [] else ":9000".toList := by
  unfold address at h
  rw [hu] at h
  dsimp only at h
  split at h
  · cases h
  · rename_i scheme' rest hscheme
    obtain ⟨rfl, rfl⟩ := uriScheme_text hscheme
    have hauthority : (u.authority ++ u.rest).takeWhile (fun c => ¬ (c = '/' ∨ c = '?' ∨ c = '#')) =
        u.authority := by
      have hends := takeWhile_authority u
      unfold endsAuthority at hends
      simpa only [decide_eq_true_eq] using hends
    rw [hauthority] at h
    split at h
    · cases h
    · rw [Except.ok.injEq, Prod.mk.injEq] at h
      exact ⟨h.1.symm, h.2.symm⟩

/-- An authority of a host and a port, if any, is one as it stands or with the port of QuestDB. -/
theorem address_authority {db : QdbDatabase} {u : Uri} {a : Authority} {scheme addr : Text}
    (hu : db.uri = some u.text) (h : address db = .ok (scheme, addr))
    (ha : a.text = u.authority) (huser : a.userinfo = none) (hport : a.port ≠ some []) :
    addr = a.address "9000".toList := by
  obtain ⟨-, haddr⟩ := address_text hu h
  have hcolon := colon_iff_port huser
  rw [haddr, ← ha]
  unfold hasPort
  unfold Authority.address Authority.portOr
  cases hp : a.port with
  | none =>
      rw [if_neg (by simpa [hp] using hcolon)]
      unfold Authority.text Authority.hostPort
      rw [huser, hp]
      simp
  | some p =>
      have hne : p ≠ [] := fun hnil => hport (by rw [hp, hnil])
      rw [if_pos (by simpa [hp] using hcolon)]
      unfold Authority.text Authority.hostPort
      rw [huser, hp]
      simp [hne]

theorem accepted {db : QdbDatabase} {conf : Text} (h : qdbBuildConf db = .ok conf) :
    ∃ scheme addr, address db = .ok (scheme, addr) := by
  unfold qdbBuildConf at h
  split at h
  · cases h
  · rename_i scheme addr haddr
    exact ⟨scheme, addr, haddr⟩

theorem accepted_uri {db : QdbDatabase} {conf uri : Text} (hu : db.uri = some uri)
    (h : qdbBuildConf db = .ok conf) : ∃ u : Uri, u.text = uri := by
  obtain ⟨scheme, addr, haddr⟩ := accepted h
  unfold address at haddr
  rw [hu] at haddr
  dsimp only at haddr
  split at haddr
  · cases haddr
  · rename_i hscheme
    exact exists_uri_of_scheme hscheme

theorem address_scheme {db : QdbDatabase} {scheme addr : Text}
    (h : address db = .ok (scheme, addr)) : ':' ∉ scheme := by
  unfold address at h
  split at h
  · cases h
  · split at h
    · cases h
    · rename_i uri _ scheme' rest hscheme
      obtain ⟨u, rfl⟩ := exists_uri_of_scheme hscheme
      dsimp only at h
      split at h
      · cases h
      · rw [Except.ok.injEq, Prod.mk.injEq] at h
        rw [← h.1, (uriScheme_text hscheme).1]
        unfold clientScheme
        split
        · decide
        · decide

/-- What stands behind the address. -/
def confTail (db : QdbDatabase) : Text :=
  (credentials db ++ [("lazy_connect".toList, "true".toList)]).flatMap qdbConfAppend ++
    extraText db

theorem qdbBuildConf_ok {db : QdbDatabase} {conf scheme addr : Text}
    (h : qdbBuildConf db = .ok conf) (haddr : address db = .ok (scheme, addr)) :
    conf = scheme ++ ':' :: ':' :: ("addr".toList ++ '=' :: (addr ++ ';' :: confTail db)) := by
  rw [qdbBuildConf, haddr, Except.ok.injEq] at h
  have hlazy : qdbConfAppend ("lazy_connect".toList, "true".toList) =
      "lazy_connect=true;".toList := by decide
  have hprefix : "::addr=".toList = ':' :: ':' :: ("addr".toList ++ ['=']) := by decide
  have hend : ";".toList = [';'] := rfl
  rw [← h, confTail, List.flatMap_append, List.flatMap_singleton, hlazy, hprefix, hend]
  simp only [List.append_assoc, List.cons_append, List.nil_append]

theorem parseConf_conf {db : QdbDatabase} {conf scheme addr : Text}
    (h : qdbBuildConf db = .ok conf) (haddr : address db = .ok (scheme, addr)) :
    parseConf conf = some (scheme,
      ("addr".toList, (Doubled.read ';' (addr ++ ';' :: confTail db)).1) ::
        confPairs (Doubled.read ';' (addr ++ ';' :: confTail db)).2) := by
  rw [qdbBuildConf_ok h haddr, parseConf, cut_append (address_scheme haddr),
    ← confPairs_pair isKey_addr.2.1]
  rfl

/-- A letter follows the address. -/
theorem confTail_head (db : QdbDatabase) : ∃ c rest, confTail db = c :: rest ∧ c ≠ ';' := by
  have hkeys : ∀ kv ∈ credentials db ++ [("lazy_connect".toList, "true".toList)],
      IsKey kv.1 := by
    intro kv hkv
    rcases List.mem_append.mp hkv with hkv | hkv
    · exact credentials_keys hkv
    · exact List.mem_singleton.mp hkv ▸ isKey_lazy
  cases hkvs : credentials db ++ [("lazy_connect".toList, "true".toList)] with
  | nil => exact absurd (congrArg List.length hkvs) (by simp)
  | cons kv kvs =>
      rw [hkvs] at hkeys
      have hhead := head_append (hkeys kv List.mem_cons_self)
        (kvs.flatMap qdbConfAppend ++ extraText db)
      have htail : confTail db =
          qdbConfAppend kv ++ (kvs.flatMap qdbConfAppend ++ extraText db) := by
        rw [confTail, hkvs, List.flatMap_cons, List.append_assoc]
      cases hconf : confTail db with
      | nil =>
          rw [hconf] at htail
          have hlen := congrArg List.length htail
          simp [qdbConfAppend] at hlen
      | cons c rest =>
          refine ⟨c, rest, rfl, fun hc => hhead ?_⟩
          rw [← htail, hconf, hc]
          rfl

/-- The pairs behind the address are those of the options, and the extra ones unless
these begin with a `;`. -/
theorem confPairs_confTail (db : QdbDatabase) :
    confPairs (confTail db) =
        credentials db ++ ("lazy_connect".toList, "true".toList) :: confPairs (extraText db) ↔
      (extraText db).head? ≠ some ';' := by
  have hcredentials : ∀ t : Text, confPairs ((credentials db).flatMap qdbConfAppend ++
      (qdbConfAppend ("lazy_connect".toList, "true".toList) ++ t)) =
      credentials db ++ confPairs (qdbConfAppend ("lazy_connect".toList, "true".toList) ++ t) :=
    fun t => confPairs_flatMap (fun kv hkv => credentials_keys hkv) (head_append isKey_lazy t)
  rw [confTail, List.flatMap_append, List.flatMap_singleton, List.append_assoc, hcredentials,
    List.append_cancel_left_eq]
  constructor
  · intro h hhead
    obtain ⟨t, ht⟩ := List.head?_eq_some_iff.mp hhead
    have htext : qdbConfAppend ("lazy_connect".toList, "true".toList) ++ extraText db =
        "lazy_connect".toList ++ '=' :: ("true".toList ++ ';' :: ';' :: t) := by
      rw [ht]
      rfl
    rw [htext, confPairs_pair isKey_lazy.2.1, Doubled.read_of_not_mem (by decide),
      Doubled.read_doubled, List.cons.injEq, Prod.mk.injEq] at h
    have hlen := congrArg List.length h.1.2
    simp at hlen
  · exact confPairs_append isKey_lazy.2.1

/-- The string is exact if and only if the address holds no `;` and the extra
configuration begins with none. -/
theorem exact_iff {db : QdbDatabase} {conf scheme addr : Text}
    (h : qdbBuildConf db = .ok conf) (haddr : address db = .ok (scheme, addr)) :
    Exact db scheme addr conf ↔ ';' ∉ addr ∧ (extraText db).head? ≠ some ';' := by
  obtain ⟨c, rest, hconf, hc⟩ := confTail_head db
  rw [Exact, parseConf_conf h haddr, Option.some.injEq, Prod.mk.injEq, expectedPairs,
    List.cons.injEq, Prod.mk.injEq]
  have hread (hclean : ';' ∉ addr) : Doubled.read ';' (addr ++ ';' :: confTail db) =
      (addr, confTail db) := by
    rw [Doubled.read_of_not_mem hclean, Doubled.read_close (by rw [hconf]; simpa using hc)]
    simp
  constructor
  · rintro ⟨-, ⟨-, hvalue⟩, hpairs⟩
    have hclean : ';' ∉ addr := by
      rw [hconf] at hvalue
      exact Doubled.not_mem_of_read hc hvalue
    rw [hread hclean, confPairs_confTail] at hpairs
    exact ⟨hclean, hpairs⟩
  · rintro ⟨hclean, hextra⟩
    rw [hread hclean, confPairs_confTail]
    exact ⟨rfl, ⟨rfl, rfl⟩, hextra⟩

/-- The options can be told from their pairs. -/
theorem credentials_injective {db db' : QdbDatabase} (h : credentials db = credentials db') :
    db.username = db'.username ∧ db.password = db'.password ∧ db.token = db'.token := by
  have hget (e : QdbDatabase) (key : Text) : KeyValue.get id (credentials e) key =
      ((if "username".toList = key then e.username else none).or
        (if "password".toList = key then e.password else none)).or
        (if "token".toList = key then e.token else none) := by
    rw [credentials, KeyValue.get_append, KeyValue.get_append, KeyValue.get_toList,
      KeyValue.get_toList, KeyValue.get_toList]
    rfl
  refine ⟨?_, ?_, ?_⟩
  · have hkey := congrArg (KeyValue.get id · "username".toList) h
    simpa [hget] using hkey
  · have hkey := congrArg (KeyValue.get id · "password".toList) h
    simpa [hget] using hkey
  · have hkey := congrArg (KeyValue.get id · "token".toList) h
    simpa [hget] using hkey

/-- What two databases agree on where they ask for the same. -/
def SameOptions (db db' : QdbDatabase) (u u' : Uri) (a a' : Authority) : Prop :=
  clientScheme u = clientScheme u' ∧ a.host = a'.host ∧
    a.portOr "9000".toList = a'.portOr "9000".toList ∧ db.username = db'.username ∧
    db.password = db'.password ∧ db.token = db'.token

theorem extraText_none {db : QdbDatabase} (h : db.extraConf = none) : extraText db = [] := by
  rw [extraText, h]

/-- A database whose URI is a scheme, a host and a port, without a `;`. -/
structure Plain (db : QdbDatabase) (u : Uri) (a : Authority) : Prop where
  uri : db.uri = some u.text
  authority : a.text = u.authority
  no_userinfo : a.userinfo = none
  port : a.port ≠ some []
  clean : ';' ∉ u.authority

/-- The pairs of an accepted database. -/
theorem exact_of_clean {db : QdbDatabase} {u : Uri} {conf : Text} (hu : db.uri = some u.text)
    (h : qdbBuildConf db = .ok conf) (hclean : ';' ∉ u.authority)
    (hextra : (extraText db).head? ≠ some ';') :
    ∃ addr, address db = .ok (clientScheme u, addr) ∧
      (addr = u.authority ∨ addr = u.authority ++ ":9000".toList) ∧
      Exact db (clientScheme u) addr conf := by
  obtain ⟨scheme, addr, haddr⟩ := accepted h
  obtain ⟨rfl, htext⟩ := address_text hu haddr
  have hone : addr = u.authority ∨ addr = u.authority ++ ":9000".toList := by
    split at htext
    · exact .inl (htext.trans (List.append_nil _))
    · exact .inr htext
  have hclean' : ';' ∉ addr := by
    rcases hone with rfl | rfl
    · exact hclean
    · rw [List.mem_append, not_or]
      exact ⟨hclean, by decide⟩
  exact ⟨addr, haddr, hone, (exact_iff h haddr).mpr ⟨hclean', hextra⟩⟩

theorem Plain.exact {db : QdbDatabase} {u : Uri} {a : Authority} {conf : Text}
    (hplain : Plain db u a) (h : qdbBuildConf db = .ok conf)
    (hextra : (extraText db).head? ≠ some ';') :
    address db = .ok (clientScheme u, a.address "9000".toList) ∧
      Exact db (clientScheme u) (a.address "9000".toList) conf := by
  obtain ⟨addr, haddr, -, hexact⟩ := exact_of_clean hplain.uri h hplain.clean hextra
  have hsame := address_authority hplain.uri haddr hplain.authority hplain.no_userinfo hplain.port
  rw [hsame] at haddr hexact
  exact ⟨haddr, hexact⟩

/-- An authority without a `;` and an extra configuration that begins with none give the pairs that
were asked for and no others, with the host and the port of the URI where it has no user and no
empty port; without an extra configuration the string tells such options apart, a URI by its
scheme, its host and its port. -/
theorem conf_exact :
    (∀ db conf uri, db.uri = some uri → qdbBuildConf db = .ok conf →
      (∃ u : Uri, u.text = uri) ∧
      ∀ u : Uri, u.text = uri → ';' ∉ u.authority → (extraText db).head? ≠ some ';' →
        ∃ addr, (addr = u.authority ∨ addr = u.authority ++ ":9000".toList) ∧
          Exact db (clientScheme u) addr conf ∧
          ∀ a : Authority, a.text = u.authority → a.userinfo = none → a.port ≠ some [] →
            addr = a.address "9000".toList) ∧
    ∀ db db' conf conf' u u' a a', Plain db u a → Plain db' u' a' →
      db.extraConf = none → db'.extraConf = none →
      qdbBuildConf db = .ok conf → qdbBuildConf db' = .ok conf' →
        (conf = conf' ↔ SameOptions db db' u u' a a') := by
  refine ⟨fun db conf uri huri h => ⟨accepted_uri huri h, ?_⟩, ?_⟩
  · rintro u rfl hclean hextra
    obtain ⟨addr, haddr, hone, hexact⟩ := exact_of_clean huri h hclean hextra
    exact ⟨addr, hone, hexact, fun a ha huser hport => address_authority huri haddr ha huser hport⟩
  intro db db' conf conf' u u' a a' hplain hplain' hextra hextra' h h'
  have hnone := extraText_none hextra
  have hnone' := extraText_none hextra'
  obtain ⟨haddr, hexact⟩ := hplain.exact h (by rw [hnone]; simp)
  obtain ⟨haddr', hexact'⟩ := hplain'.exact h' (by rw [hnone']; simp)
  constructor
  · rintro rfl
    rw [Exact, expectedPairs] at hexact hexact'
    rw [hexact, Option.some.injEq, Prod.mk.injEq, List.cons.injEq, Prod.mk.injEq, hnone, hnone',
      List.append_cancel_right_eq] at hexact'
    obtain ⟨hscheme, ⟨-, hsame⟩, hpairs⟩ := hexact'
    obtain ⟨hhost, hport⟩ := address_injective (by simp [plain]) hsame
    exact ⟨hscheme, hhost, hport, credentials_injective hpairs⟩
  · rintro ⟨hscheme, hhost, hport, husername, hpassword, htoken⟩
    rw [qdbBuildConf_ok h haddr, qdbBuildConf_ok h' haddr', confTail, confTail, credentials,
      credentials, husername, hpassword, htoken, hnone, hnone', hscheme, Authority.address,
      Authority.address, hhost, hport]

def wsHost : QdbDatabase := { uri := some "ws://h".toList }

def httpHost : QdbDatabase := { uri := some "http://h:9000/x".toList }

/-- A port with a `;` in it. -/
def splitHost : QdbDatabase := { uri := some "ws://h:1;username=a".toList }

/-- A URI with a user, and one with an empty port. -/
def userHost : QdbDatabase := { uri := some "ws://u:p@h".toList }

def openPort : QdbDatabase := { uri := some "ws://h:".toList }

/-- An extra configuration that begins with a `;`. -/
def openExtra : QdbDatabase := { uri := some "ws://h".toList, extraConf := some ";a=b".toList }

/-- Options that differ by the spelling of the URI have one string; and the end of a host, a `;` in
front of the extra configuration, a user and an empty port change what is read. -/
theorem conf_not_exact :
    (wsHost ≠ httpHost ∧ qdbBuildConf wsHost = .ok "ws::addr=h:9000;lazy_connect=true;".toList ∧
      qdbBuildConf httpHost = .ok "ws::addr=h:9000;lazy_connect=true;".toList) ∧
    (qdbBuildConf splitHost = .ok "ws::addr=h:1;username=a;lazy_connect=true;".toList ∧
      ¬ Exact splitHost "ws".toList "h:1;username=a".toList
        "ws::addr=h:1;username=a;lazy_connect=true;".toList) ∧
    (qdbBuildConf openExtra = .ok "ws::addr=h:9000;lazy_connect=true;;a=b;".toList ∧
      ¬ Exact openExtra "ws".toList "h:9000".toList
        "ws::addr=h:9000;lazy_connect=true;;a=b;".toList) ∧
    (qdbBuildConf userHost = .ok "ws::addr=u:p@h;lazy_connect=true;".toList ∧
      parseConf "ws::addr=u:p@h;lazy_connect=true;".toList =
        some ("ws".toList, expectedPairs userHost "u:p@h".toList)) ∧
    qdbBuildConf openPort = .ok "ws::addr=h:;lazy_connect=true;".toList ∧
      parseConf "ws::addr=h:;lazy_connect=true;".toList =
        some ("ws".toList, expectedPairs openPort "h:".toList) := by
  have hsplit : qdbBuildConf splitHost =
      .ok "ws::addr=h:1;username=a;lazy_connect=true;".toList := by decide
  have hextra : qdbBuildConf openExtra =
      .ok "ws::addr=h:9000;lazy_connect=true;;a=b;".toList := by decide
  have huser : qdbBuildConf userHost = .ok "ws::addr=u:p@h;lazy_connect=true;".toList := by decide
  have hport : qdbBuildConf openPort = .ok "ws::addr=h:;lazy_connect=true;".toList := by decide
  have haddr : address splitHost = .ok ("ws".toList, "h:1;username=a".toList) := by
    decide
  have haddr' : address openExtra = .ok ("ws".toList, "h:9000".toList) := by decide
  have haddrUser : address userHost = .ok ("ws".toList, "u:p@h".toList) := by decide
  have haddrPort : address openPort = .ok ("ws".toList, "h:".toList) := by decide
  refine ⟨⟨by decide, by decide, by decide⟩, ⟨hsplit, ?_⟩, ⟨hextra, ?_⟩, ⟨huser, ?_⟩, hport, ?_⟩
  · rw [exact_iff hsplit haddr]
    decide
  · rw [exact_iff hextra haddr']
    decide
  · exact (exact_iff huser haddrUser).mpr (by decide)
  · exact (exact_iff hport haddrPort).mpr (by decide)

/-- A password with a `;` in it. -/
def oddPassword : QdbDatabase :=
  { uri := some "ws://h".toList, password := some "p;token=t".toList }

def twoCredentials : QdbDatabase :=
  { uri := some "h".toList, password := some "p".toList, token := some "t".toList }

def hostOnly : Authority where
  host := "h".toList
  isHost := .name (by decide) (by simp [plain])
  port_plain := fun p hp => by cases hp

def hostUri (scheme : Option Text) (hscheme : scheme = none ∨ scheme = some "ws".toList) : Uri where
  scheme := scheme
  authority := "h".toList
  rest := []
  scheme_closed := by
    rintro s hs
    rcases hscheme with rfl | rfl
    · cases hs
    · rw [← Option.some.inj hs]
      decide
  authority_closed := by simp [endsAuthority]
  rest_opens := fun c hc => by cases hc
  bare := fun _ => by decide

/-- It is told from two options. -/
theorem conf_exact_password :
    Exact oddPassword "ws".toList "h:9000".toList
        "ws::addr=h:9000;password=p;;token=t;lazy_connect=true;".toList ∧
      ("ws::addr=h:9000;password=p;;token=t;lazy_connect=true;".toList =
          "ws::addr=h:9000;password=p;token=t;lazy_connect=true;".toList ↔
        SameOptions oddPassword twoCredentials (hostUri (some "ws".toList) (.inr rfl))
          (hostUri none (.inl rfl)) hostOnly hostOnly) := by
  have hbuild : qdbBuildConf oddPassword =
      .ok "ws::addr=h:9000;password=p;;token=t;lazy_connect=true;".toList := by decide
  have hbuild' : qdbBuildConf twoCredentials =
      .ok "ws::addr=h:9000;password=p;token=t;lazy_connect=true;".toList := by decide
  obtain ⟨-, hread⟩ := conf_exact.1 oddPassword _ _ rfl hbuild
  obtain ⟨addr, -, hexact, haddr⟩ := hread (hostUri (some "ws".toList) (.inr rfl)) rfl (by decide)
    (by decide)
  rw [haddr hostOnly rfl rfl (by decide)] at hexact
  refine ⟨hexact, conf_exact.2 _ _ _ _ _ _ _ _ ?_ ?_ rfl rfl hbuild hbuild'⟩
  · exact ⟨rfl, rfl, rfl, by decide, by decide⟩
  · exact ⟨rfl, rfl, rfl, by decide, by decide⟩

end AdbcBridge.Questdb.Conf
