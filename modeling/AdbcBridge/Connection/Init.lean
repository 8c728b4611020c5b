import AdbcBridge.Connection.Options
import AdbcBridge.Lib.Script

/-!
# Initializing a connection

`AdbcConnectionInit` settles who serves the connection.  A native driver is stood up and told
everything that was kept.  ODBC has the options of the database put under those of the connection,
and refuses what was held.
-/

namespace AdbcBridge.Connection.Init

open AdbcBridge.Adbc AdbcBridge.Lib AdbcBridge.Lib.Script AdbcBridge.Connection.Options

/-! ## The native connection -/

/-- A call to a native driver about one connection. -/
inductive NativeCall where
  | new
  | setOption (key : Text) (value : Option Text)
  | setOptionInt (key : Text) (number : Int64)
  | setOptionDouble (key : Text) (bits : UInt64)
  | setOptionBytes (key : Text) (bytes : List UInt8)
  | init
  | release
deriving DecidableEq

/-- The native driver behind a database: its version and entry points, what it answers to the last
of the calls made so far, and whether the connection has private data after them. -/
structure Native where
  name : Text
  version110 : Bool
  hasInt : Bool
  hasDouble : Bool
  hasBytes : Bool
  answer : List NativeCall → Option (AdbcStatusCode × Option Text)
  privateData : List NativeCall → Bool

/-- Why a native connection was not stood up. -/
inductive Failure where
  | missing (what : Text)
  | native (status : AdbcStatusCode) (message : Option Text)

/-- The error of `ProxyMissing` and of `ProxyFinish`. -/
def Native.error (n : Native) : Failure → AdbcError
  | .missing what =>
      ⟨.notImplemented,
        "the native \"".toList ++ n.name ++ "\" driver does not implement ".toList ++ what⟩
  | .native status (some message) => ⟨status, message⟩
  | .native .notImplemented none =>
      ⟨.notImplemented,
        "the native \"".toList ++ n.name ++ "\" driver does not implement this operation".toList⟩
  | .native status none => ⟨status, "the native \"".toList ++ n.name ++ "\" driver failed".toList⟩

/-- The entry point of a call that a driver may not have. -/
def NativeCall.entry : NativeCall → Option Text
  | .setOptionInt _ _ => some "ConnectionSetOptionInt".toList
  | .setOptionDouble _ _ => some "ConnectionSetOptionDouble".toList
  | .setOptionBytes _ _ => some "ConnectionSetOptionBytes".toList
  | _ => none

/-- The driver has the entry point of the call. -/
def Native.has (n : Native) : NativeCall → Bool
  | .setOptionInt _ _ => n.version110 && n.hasInt
  | .setOptionDouble _ _ => n.version110 && n.hasDouble
  | .setOptionBytes _ _ => n.version110 && n.hasBytes
  | _ => true

/-- The driver as it is told about a connection. -/
def Native.party (n : Native) : Party NativeCall Failure where
  cannot c := if n.has c then none else c.entry.map .missing
  fault log := (n.answer log).map fun f => .native f.1 f.2

/-- `ProxyReplayPreOption`: the call an option is told by. -/
def replayPreOption (opt : Text × OptionValue) : NativeCall :=
  match opt.2 with
  | .int number => .setOptionInt opt.1 number
  | .double bits => .setOptionDouble opt.1 bits
  | .bytes bytes => .setOptionBytes opt.1 bytes
  | .string value => .setOption opt.1 value

/-- `OdbcProxyConnectionInit`; a connection that fails is released if there is anything of it. -/
def proxyConnectionInit (n : Native) (pre : List (Text × OptionValue)) :
    List NativeCall × Option AdbcError :=
  let t := n.party.tell {} .new
  let t := pre.foldl (fun t opt => n.party.tell t (replayPreOption opt)) t
  let t := n.party.tell t .init
  match t.failure with
  | none => (t.log, none)
  | some f => (t.log ++ if n.privateData t.log then [.release] else [], some (n.error f))

/-! ## The connection -/

/-- The fields of the database its connections read. -/
structure OdbcDatabase where
  proxy : Option Native := none
  lastError : Text := []
  henv : Bool := true
  readerOpts : OdbcReaderOptions := {}

/-- What opening the ODBC connection is answered: by `OdbcOpenHdbc`, by the driver's name about the
width of its `SQLLEN`, and by the driver about leaving autocommit. -/
structure Opening where
  openHdbc : Option AdbcError := none
  narrow : Bool := false
  attr : Option AdbcError := none

/-- `OdbcConnectionNew`. -/
def connectionNew : OdbcConnection := {}

/-- The options of the database under what was set on the connection. -/
def overlay (opts : OdbcReaderOptions) (conn : OdbcConnection) : OdbcReaderOptions :=
  let opts :=
    if conn.preBatchSize then { opts with batchSize := conn.readerOpts.batchSize } else opts
  let opts := if conn.prePrefetch then { opts with prefetch := conn.readerOpts.prefetch } else opts
  if conn.readerOpts.sqllen32bitForced then
    { opts with sqllen32bit := conn.readerOpts.sqllen32bit, sqllen32bitForced := true }
  else opts

/-- `OdbcDetectQuirks`, as far as it goes over an option of the connection. -/
def detectQuirks (narrow : Bool) (opts : OdbcReaderOptions) : OdbcReaderOptions :=
  if opts.sqllen32bitForced then opts else { opts with sqllen32bit := narrow }

/-- An option that was held, on a connection that ODBC serves. -/
def heldError (db : OdbcDatabase) (key : Text) : AdbcError :=
  ⟨.notImplemented,
    "Unknown connection option ".toList ++ key ++
      (" (it is only understood by a native ADBC driver, " ++
        "and this connection is served by ODBC: ").toList ++
      (if db.lastError = [] then "delegation was not attempted".toList else db.lastError) ++
      ")".toList⟩

/-- The connection, the calls a native driver got, and the error. -/
structure Initialized where
  conn : OdbcConnection
  native : List NativeCall := []
  error : Option AdbcError := none

/-- `OdbcConnectionInit`. -/
def connectionInit (db : OdbcDatabase) (o : Opening) (conn : OdbcConnection) : Initialized :=
  match db.proxy with
  | some n =>
      match proxyConnectionInit n conn.pre with
      | (log, none) => { conn := { conn with proxied := true }, native := log }
      | (log, some e) => { conn := conn, native := log, error := some e }
  | none =>
      match conn.heldOption with
      | some key => { conn := conn, error := some (heldError db key) }
      | none =>
          if !db.henv then
            { conn := conn, error := some ⟨.invalidState, "Database not initialized".toList⟩ }
          else
            let opts := overlay db.readerOpts conn
            match o.openHdbc with
            | some e => { conn := { conn with readerOpts := opts }, error := some e }
            | none =>
                let conn :=
                  { conn with connected := true, readerOpts := detectQuirks o.narrow opts }
                if conn.autocommit then { conn := conn }
                else
                  let r := setAutocommit o.attr false conn
                  { conn := r.1, error := r.2 }

/-! ## Served by ODBC -/

section Odbc

variable {opts : OdbcReaderOptions} {conn : OdbcConnection}

/-- The mode the driver is in: it starts out in autocommit. -/
def driverMode (conn : OdbcConnection) : Bool := conn.attrs.getLast?.getD true

theorem overlay_before {s : Setting} :
    overlay opts (s.before conn) = s.reader (overlay opts conn) := by
  cases s with
  | autocommit on => simp [overlay, Setting.before, Setting.reader]
  | batchSize rows =>
      simp only [overlay, Setting.before, Setting.reader]
      grind
  | prefetch rowsets =>
      simp only [overlay, Setting.before, Setting.reader]
      grind
  | sqllen32bit narrow =>
      simp only [overlay, Setting.before, Setting.reader]
      grind

theorem detectQuirks_reader {s : Setting} {narrow : Bool} :
    detectQuirks narrow (s.reader opts) = s.reader (detectQuirks narrow opts) := by
  cases s with
  | autocommit on => rfl
  | batchSize rows =>
      simp only [detectQuirks, Setting.reader]
      grind
  | prefetch rowsets =>
      simp only [detectQuirks, Setting.reader]
      grind
  | sqllen32bit wide =>
      simp only [detectQuirks, Setting.reader]
      grind

theorem driverMode_after {s : Setting} :
    driverMode (s.after conn) = s.mode (driverMode conn) := by
  cases s with
  | autocommit on => simp [driverMode, Setting.after, Setting.mode]
  | batchSize rows => rfl
  | prefetch rowsets => rfl
  | sqllen32bit narrow => rfl

/-- What the calls of a run set, in order. -/
def settings (cs : List SetCall) : List Setting := cs.filterMap SetCall.setting

theorem waitAll_overlay {cs : List SetCall} :
    overlay opts (waitAll connectionNew cs) = (settings cs).foldl Setting.reader opts := by
  have hnew : overlay opts connectionNew = opts := rfl
  rw [waitAll_setting (overlay opts) Setting.reader (fun _ _ => overlay_before) fun _ _ _ => rfl,
    hnew]
  rfl

theorem waitAll_autocommit {cs : List SetCall} :
    (waitAll connectionNew cs).autocommit = (settings cs).foldl (fun on s => s.mode on) true := by
  exact waitAll_setting OdbcConnection.autocommit (fun on s => s.mode on) (fun _ _ => rfl)
    fun _ _ _ => rfl

theorem waitAll_attrs {cs : List SetCall} : (waitAll connectionNew cs).attrs = [] := by
  exact waitAll_same OdbcConnection.attrs (fun _ _ => rfl) fun _ _ _ => rfl

/-- The connection ODBC serves, when nothing was held and the driver takes what it is told. -/
theorem connectionInit_odbc {db : OdbcDatabase} {o : Opening} (hproxy : db.proxy = none)
    (henv : db.henv = true) (hopen : o.openHdbc = none) (hattr : o.attr = none)
    (hheld : conn.heldOption = none) :
    connectionInit db o conn =
      { conn :=
          { conn with
            connected := true
            readerOpts := detectQuirks o.narrow (overlay db.readerOpts conn)
            attrs := if conn.autocommit then conn.attrs else conn.attrs ++ [false] } } := by
  simp only [connectionInit, hproxy, hheld, henv, hopen, hattr, setAutocommit]
  cases hauto : conn.autocommit with
  | true => simp
  | false => simp

/-- A run of settings on an open connection, one field at a time. -/
theorem after_foldl {ss : List Setting} :
    (ss.foldl Setting.after conn).readerOpts = ss.foldl Setting.reader conn.readerOpts ∧
      (ss.foldl Setting.after conn).autocommit = ss.foldl (fun on s => s.mode on) conn.autocommit ∧
      driverMode (ss.foldl Setting.after conn) =
        ss.foldl (fun on s => s.mode on) (driverMode conn) := by
  refine ⟨?_, ?_, ?_⟩
  · exact (List.foldl_hom OdbcConnection.readerOpts fun _ _ => rfl).symm
  · exact (List.foldl_hom OdbcConnection.autocommit fun _ _ => rfl).symm
  · exact (List.foldl_hom driverMode fun _ _ => driverMode_after.symm).symm

/-- Options set before the connection is initialized are worth what they are worth after it.  Only
one that is held is not: it is refused then, the first by name. -/
theorem options_before_as_after {db : OdbcDatabase} {o : Opening}
    {calls : List (SetCall × Answer)} (hproxy : db.proxy = none) (henv : db.henv = true)
    (hopen : o.openHdbc = none) (hattr : o.attr = none) (hmem : ∀ c ∈ calls, c.2.memory = {})
    (htaken : ∀ c ∈ calls, c.1.setting.isSome = true → c.2.attr = none) :
    let cs := calls.map Prod.fst
    let waited := connectionInit db o (setAll connectionNew calls)
    let opened := setAll (connectionInit db o connectionNew).conn calls
    (∀ c, cs.find? SetCall.isHeld = some c → waited.error = some (heldError db c.key)) ∧
      (cs.find? SetCall.isHeld = none →
        waited.error = none ∧
          waited.conn.readerOpts = opened.readerOpts ∧
          waited.conn.autocommit = opened.autocommit ∧
          driverMode waited.conn = opened.autocommit ∧
          driverMode opened = opened.autocommit) := by
  intro cs waited opened
  have hwait : setAll connectionNew calls = waitAll connectionNew cs := setAll_waits rfl rfl hmem
  have hkey : (waitAll connectionNew cs).heldOption =
      (cs.find? SetCall.isHeld).map SetCall.key := by
    rw [waitAll_heldOption]
    exact Option.none_or
  constructor
  · intro c hc
    rw [hc, Option.map_some] at hkey
    dsimp only [waited]
    rw [hwait]
    simp only [connectionInit, hproxy, hkey]
  · intro hnone
    rw [hnone, Option.map_none] at hkey
    have hwaited := connectionInit_odbc hproxy henv hopen hattr hkey
    have hnew := @connectionInit_odbc connectionNew db o hproxy henv hopen hattr rfl
    have hopened : opened =
        (settings cs).foldl Setting.after (connectionInit db o connectionNew).conn := by
      dsimp only [opened, settings, cs]
      rw [List.filterMap_map]
      apply setAll_open
      · rw [hnew]
        rfl
      · rw [hnew]
      · exact htaken
    have hfields := @after_foldl (connectionInit db o connectionNew).conn (settings cs)
    rw [← hopened, hnew] at hfields
    have hreader : waited.conn.readerOpts = opened.readerOpts := by
      dsimp only [waited]
      rw [hwait, hwaited, waitAll_overlay, hfields.1]
      exact (List.foldl_hom (detectQuirks o.narrow) fun _ _ => detectQuirks_reader.symm).symm
    have hmode : waited.conn.autocommit = opened.autocommit := by
      dsimp only [waited]
      rw [hwait, hwaited, waitAll_autocommit, hfields.2.1]
      rfl
    have hdriver : driverMode waited.conn = waited.conn.autocommit := by
      dsimp only [waited]
      rw [hwait, hwaited]
      cases hauto : (waitAll connectionNew cs).autocommit with
      | true => simp [driverMode, waitAll_attrs]
      | false => simp [driverMode]
    refine ⟨?_, hreader, hmode, hdriver.trans hmode, ?_⟩
    · dsimp only [waited]
      rw [hwait, hwaited]
    · rw [hfields.2.1, hfields.2.2]
      rfl

end Odbc

/-- The options of a run that leaves autocommit and asks for rowsets of 64. -/
def tuned : List (SetCall × Answer) :=
  [(.string autocommitKey "false".toList, {}), (.string batchSizeKey "64".toList, {})]

theorem tuned_before_as_after :
    (connectionInit {} {} (setAll connectionNew tuned)).conn.readerOpts =
        (setAll (connectionInit {} {} connectionNew).conn tuned).readerOpts ∧
      driverMode (connectionInit {} {} (setAll connectionNew tuned)).conn =
        (setAll (connectionInit {} {} connectionNew).conn tuned).autocommit := by
  have hmem : ∀ c ∈ tuned, c.2.memory = {} := by simp [tuned]
  have htaken : ∀ c ∈ tuned, c.1.setting.isSome = true → c.2.attr = none := by simp [tuned]
  have hboth := (@options_before_as_after {} {} tuned rfl rfl rfl rfl hmem htaken).2
    (by decide)
  exact ⟨hboth.2.1, hboth.2.2.2.1⟩

/-! ## Served by a native driver -/

/-- What a native connection is told: to come up with these options. -/
def script (pre : List (Text × OptionValue)) : List NativeCall :=
  .new :: pre.map replayPreOption ++ [.init]

/-- Only a script that was told to its end leaves a connection. -/
theorem proxyConnectionInit_spec {n : Native} {pre : List (Text × OptionValue)} :
    (n.party.Obliges [] (script pre) ∧ proxyConnectionInit n pre = (script pre, none)) ∨
      (¬ n.party.Obliges [] (script pre) ∧ ∃ t f, n.party.Stops [] (script pre) t ∧
        t.failure = some f ∧
        proxyConnectionInit n pre =
          (t.log ++ if n.privateData t.log then [.release] else [], some (n.error f))) := by
  have htold : n.party.tell (pre.foldl (fun t opt => n.party.tell t (replayPreOption opt))
      (n.party.tell {} .new)) .init = n.party.tellAll {} (script pre) := by
    rw [← List.foldl_map, script, Party.tellAll_append]
    rfl
  cases @Party.tell_script _ _ n.party [] (script pre) with
  | inl hall =>
      refine Or.inl ⟨hall.1, ?_⟩
      rw [proxyConnectionInit, htold, hall.2]
      rfl
  | inr hstop =>
      have hfailed : ∃ f, (n.party.tellAll {} (script pre)).failure = some f := by
        obtain ⟨-, sent, -, -, ⟨c, f, -, -, hf⟩ | ⟨f, -, hf⟩⟩ := hstop
        · exact ⟨f, hf⟩
        · exact ⟨f, hf⟩
      obtain ⟨f, hf⟩ := hfailed
      refine Or.inr ⟨hstop.1, _, f, hstop.2, hf, ?_⟩
      rw [proxyConnectionInit, htold]
      simp only [hf]

/-- A native connection comes up told of every option that is kept, once and with its last value,
or it is released with nothing left of it. -/
theorem kept_options_replayed {db : OdbcDatabase} {n : Native} {o : Opening}
    {calls : List (SetCall × Answer)} (hproxy : db.proxy = some n)
    (hmem : ∀ c ∈ calls, c.2.memory = {}) :
    let r := connectionInit db o (setAll connectionNew calls)
    let kept := (calls.map Prod.fst).filterMap SetCall.kept
    ∃ told : List (Text × OptionValue),
      (told.map Prod.fst).Nodup ∧
      (∀ key value, (key, value) ∈ told ↔ KeyValue.get id kept.reverse key = some value) ∧
      ((n.party.Obliges [] (script told) ∧ r.native = script told ∧ r.conn.proxied = true ∧
          r.error = none) ∨
        (¬ n.party.Obliges [] (script told) ∧ r.conn.proxied = false ∧
          ∃ t f, n.party.Stops [] (script told) t ∧ t.failure = some f ∧
            r.error = some (n.error f) ∧
            r.native = t.log ++ if n.privateData t.log then [.release] else [])) := by
  intro r kept
  have hwait : setAll connectionNew calls = waitAll connectionNew (calls.map Prod.fst) :=
    setAll_waits rfl rfl hmem
  have hpre : (setAll connectionNew calls).pre = KeyValue.addAll id [] kept := by
    rw [hwait, waitAll_pre]
    rfl
  have hdistinct : ((KeyValue.addAll id [] kept).map Prod.fst).Nodup :=
    @KeyValue.nodup_addAll Text Text _ _ id _ _ List.nodup_nil
  refine ⟨KeyValue.addAll id [] kept, hdistinct, ?_, ?_⟩
  · intro key value
    rw [KeyValue.mem_iff_get hdistinct, KeyValue.get_addAll]
    exact iff_of_eq (congrArg (· = some value) Option.or_none)
  · have hproxied : (setAll connectionNew calls).proxied = false := by
      rw [hwait]
      exact waitAll_same OdbcConnection.proxied (fun _ _ => rfl) fun _ _ _ => rfl
    dsimp only [r]
    simp only [connectionInit, hproxy]
    rw [← hpre]
    cases @proxyConnectionInit_spec n (setAll connectionNew calls).pre with
    | inl hup =>
        rw [hup.2]
        exact Or.inl ⟨hup.1, rfl, rfl, rfl⟩
    | inr hdown =>
        obtain ⟨hnot, t, f, hstop, hfail, heq⟩ := hdown
        rw [heq]
        exact Or.inr ⟨hnot, hproxied, t, f, hstop, hfail, rfl, rfl⟩

/-- A driver that has everything and takes everything. -/
def obliging : Native where
  name := "postgresql".toList
  version110 := true
  hasInt := true
  hasDouble := true
  hasBytes := true
  answer _ := none
  privateData _ := true

/-- An option set twice, between two others. -/
def renamed : List (SetCall × Answer) :=
  [(.string autocommitKey "false".toList, {}), (.string "app".toList "a".toList, {}),
    (.int "timeout".toList 5, {}), (.string "app".toList "b".toList, {})]

theorem renamed_told_once :
    ∃ told, ("app".toList, OptionValue.string (some "b".toList)) ∈ told ∧
      (told.map Prod.fst).Nodup ∧
      (connectionInit { proxy := some obliging } {} (setAll connectionNew renamed)).native =
        script told := by
  obtain ⟨told, hnodup, hlast, hup | hdown⟩ :=
    @kept_options_replayed { proxy := some obliging } obliging {} renamed rfl (by simp [renamed])
  · exact ⟨told, (hlast _ _).mpr (by decide), hnodup, hup.2.1⟩
  · refine absurd ?_ hdown.1
    intro sent c _
    cases c <;> exact ⟨rfl, rfl⟩

end AdbcBridge.Connection.Init
