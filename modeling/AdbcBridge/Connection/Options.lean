import AdbcBridge.Adbc.Interface
import AdbcBridge.Lib.Decimal
import AdbcBridge.Lib.KeyValue

/-!
# The options of a connection

The four setters of `odbc_driver.c`.  Before `AdbcConnectionInit` it is not known who will serve
the connection, so what is set is kept in two ways: in effect for the ODBC path, and on a list for
a native driver.  An option that only a native driver can know is held instead of refused.  What
the driver, the native driver and the allocator answer is an argument.
-/

namespace AdbcBridge.Connection.Options

open AdbcBridge.Adbc AdbcBridge.Lib AdbcBridge.Lib.Decimal

abbrev Text := List Char

/-! ## The connection -/

/-- The value of an `OdbcPreOption`; a double is its bits, and a text may have been lost to the
allocator. -/
inductive OptionValue where
  | string (value : Option Text)
  | int (number : Int64)
  | double (bits : UInt64)
  | bytes (bytes : List UInt8)
deriving DecidableEq

/-- The reader options a connection has options for. -/
structure OdbcReaderOptions where
  batchSize : Int := 0
  prefetch : Int := 0
  sqllen32bit : Bool := false
  sqllen32bitForced : Bool := false
deriving DecidableEq

/-- The fields of the connection its options read and write; `attrs` are the values of
`SQL_ATTR_AUTOCOMMIT` the driver has accepted. -/
structure OdbcConnection where
  proxied : Bool := false
  pre : List (Text × OptionValue) := []
  heldOption : Option Text := none
  preBatchSize : Bool := false
  prePrefetch : Bool := false
  connected : Bool := false
  autocommit : Bool := true
  readerOpts : OdbcReaderOptions := {}
  attrs : List Bool := []

/-- The allocations of a setter: of a slot and its key, of the value, and of the held key. -/
structure Allocations where
  slot : Bool := true
  value : Bool := true
  held : Bool := true

/-- What the setter is answered by the native driver, by the ODBC driver and by the allocator. -/
structure Answer where
  native : Option AdbcError := none
  attr : Option AdbcError := none
  memory : Allocations := {}

def autocommitKey : Text := "adbc.connection.autocommit".toList
def batchSizeKey : Text := "adbc.odbc.batch_size".toList
def prefetchKey : Text := "adbc.odbc.prefetch".toList
def sqllen32bitKey : Text := "adbc.odbc.sqllen_32bit".toList
def currentCatalogKey : Text := "adbc.connection.catalog".toList

/-- The key is one of the bridge's own. -/
def isOurs (key : Text) : Bool := "adbc.odbc.".toList.isPrefixOf key

/-! ## The values -/

def isSpace (c : Char) : Bool := c = ' ' ∨ ('\t' ≤ c ∧ c ≤ '\r')

/-- `strtoll`, and `strtol` where a `long` has 64 bits: the number and what is left of the text. -/
def strtoll (s : Text) : Int × Text :=
  let body := s.dropWhile isSpace
  let negative := body.head? = some '-'
  let digits := if negative ∨ body.head? = some '+' then body.tail else body
  let number := digits.takeWhile Char.isDigit
  if number = [] then (0, s)
  else
    let v : Int := Nat.ofDigitChars 10 number 0
    (max (-2 ^ 63) (min (2 ^ 63 - 1) (if negative then -v else v)),
      digits.dropWhile Char.isDigit)

def maxPrefetch : Int := 8

/-- `OdbcParsePrefetchOption`. -/
def parsePrefetchOption (key value : Text) : Except AdbcError Int :=
  let v := strtoll value
  if v.2 = value ∨ v.2 ≠ [] ∨ v.1 < 0 ∨ v.1 > maxPrefetch then
    .error ⟨.invalidArgument, "Invalid value \"".toList ++ value ++ "\" for ".toList ++ key ++
      " (expected 0 to disable, or up to 8 rowsets in flight)".toList⟩
  else .ok v.1

/-- `OdbcParseBoolOption`. -/
def parseBoolOption (key value : Text) : Except AdbcError Bool :=
  if value = "true".toList ∨ value = "1".toList then .ok true
  else if value = "false".toList ∨ value = "0".toList then .ok false
  else
    .error ⟨.invalidArgument, "Invalid value \"".toList ++ value ++ "\" for ".toList ++ key ++
      " (expected true/false)".toList⟩

def unknownOption (key : Text) : AdbcError :=
  ⟨.notImplemented, "Unknown connection option ".toList ++ key⟩

/-! ## The ODBC path -/

/-- `OdbcConnectionSetAutocommit`. -/
def setAutocommit (attr : Option AdbcError) (on : Bool) (conn : OdbcConnection) :
    OdbcConnection × Option AdbcError :=
  if conn.connected then
    match attr with
    | some e => (conn, some e)
    | none => ({ conn with autocommit := on, attrs := conn.attrs ++ [on] }, none)
  else ({ conn with autocommit := on }, none)

/-- `OdbcConnectionSetOptionOdbc`. -/
def setOptionOdbc (attr : Option AdbcError) (key value : Text) (conn : OdbcConnection) :
    OdbcConnection × Option AdbcError :=
  if key = autocommitKey then
    if value = "true".toList then setAutocommit attr true conn
    else if value = "false".toList then setAutocommit attr false conn
    else
      (conn, some ⟨.invalidArgument,
        "Invalid value for ".toList ++ key ++ ": ".toList ++ value⟩)
  else if key = batchSizeKey then
    let v := (strtoll value).1
    if v ≤ 0 then (conn, some ⟨.invalidArgument, []⟩)
    else
      ({ conn with
        readerOpts := { conn.readerOpts with batchSize := v }
        preBatchSize := !conn.connected }, none)
  else if key = prefetchKey then
    match parsePrefetchOption key value with
    | .error e => (conn, some e)
    | .ok v =>
        ({ conn with
          readerOpts := { conn.readerOpts with prefetch := v }
          prePrefetch := !conn.connected }, none)
  else if key = sqllen32bitKey then
    match parseBoolOption key value with
    | .error e => (conn, some e)
    | .ok v =>
        ({ conn with
          readerOpts := { conn.readerOpts with sqllen32bit := v, sqllen32bitForced := true } },
          none)
  else if key = currentCatalogKey then
    if conn.connected then (conn, attr) else (conn, some ⟨.invalidState, []⟩)
  else (conn, some (unknownOption key))

/-! ## The options that are kept -/

/-- `OdbcConnectionPreOption` has a slot for the key. -/
def hasSlot (m : Allocations) (key : Text) (conn : OdbcConnection) : Bool :=
  !conn.connected && !isOurs key && (conn.pre.any (·.1 = key) || m.slot)

/-- The slot of the key takes this value. -/
def keep (m : Allocations) (key : Text) (v : OptionValue) (conn : OdbcConnection) :
    OdbcConnection :=
  if hasSlot m key conn then { conn with pre := KeyValue.add id conn.pre key v } else conn

/-- `OdbcConnectionRecordPreOption`. -/
def recordPreOption (m : Allocations) (key value : Text) (conn : OdbcConnection) :
    OdbcConnection :=
  keep m key (.string (if m.value then some value else none)) conn

/-- `OdbcConnectionCanHold`. -/
def canHold (conn : OdbcConnection) (key : Text) (status : AdbcStatusCode) : Bool :=
  status = .notImplemented && !conn.connected && !conn.proxied && !isOurs key

/-- `OdbcConnectionHeld`. -/
def held (m : Allocations) (key : Text) (conn : OdbcConnection) :
    OdbcConnection × Option AdbcError :=
  ({ conn with heldOption := conn.heldOption.or (if m.held then some key else none) }, none)

/-! ## The setters -/

/-- `OdbcConnectionSetOption`. -/
def setOption (a : Answer) (key value : Text) (conn : OdbcConnection) :
    OdbcConnection × Option AdbcError :=
  if conn.proxied then (conn, a.native)
  else
    match setOptionOdbc a.attr key value conn with
    | (conn, none) => (recordPreOption a.memory key value conn, none)
    | (conn, some e) =>
        if canHold conn key e.status then
          held a.memory key (recordPreOption a.memory key value conn)
        else (conn, some e)

/-- `OdbcConnectionSetOptionInt`. -/
def setOptionInt (a : Answer) (key : Text) (number : Int64) (conn : OdbcConnection) :
    OdbcConnection × Option AdbcError :=
  if conn.proxied then (conn, a.native)
  else
    match setOptionOdbc a.attr key (intText number.toInt) conn with
    | (conn, none) => (recordPreOption a.memory key (intText number.toInt) conn, none)
    | (conn, some e) =>
        if canHold conn key e.status && hasSlot a.memory key conn then
          held a.memory key (keep a.memory key (.int number) conn)
        else (conn, some e)

/-- `OdbcConnectionSetOptionDouble`. -/
def setOptionDouble (a : Answer) (key : Text) (bits : UInt64) (conn : OdbcConnection) :
    OdbcConnection × Option AdbcError :=
  if conn.proxied then (conn, a.native)
  else if canHold conn key .notImplemented && hasSlot a.memory key conn then
    held a.memory key (keep a.memory key (.double bits) conn)
  else (conn, some (unknownOption key))

/-- `OdbcConnectionSetOptionBytes`; the slot is emptied before the bytes are copied. -/
def setOptionBytes (a : Answer) (key : Text) (bytes : List UInt8) (conn : OdbcConnection) :
    OdbcConnection × Option AdbcError :=
  if conn.proxied then (conn, a.native)
  else if canHold conn key .notImplemented && hasSlot a.memory key conn then
    if a.memory.value then held a.memory key (keep a.memory key (.bytes bytes) conn)
    else (keep a.memory key (.string none) conn, some (unknownOption key))
  else (conn, some (unknownOption key))

/-- A call of one of the four setters. -/
inductive SetCall where
  | string (key value : Text)
  | int (key : Text) (number : Int64)
  | double (key : Text) (bits : UInt64)
  | bytes (key : Text) (bytes : List UInt8)

def SetCall.run (a : Answer) (conn : OdbcConnection) :
    SetCall → OdbcConnection × Option AdbcError
  | .string key value => setOption a key value conn
  | .int key value => setOptionInt a key value conn
  | .double key value => setOptionDouble a key value conn
  | .bytes key value => setOptionBytes a key value conn

/-- The calls one after the other, each with its answers. -/
def setAll (conn : OdbcConnection) (calls : List (SetCall × Answer)) : OdbcConnection :=
  calls.foldl (fun conn c => (c.1.run c.2 conn).1) conn

/-! ## What an option sets -/

/-- What an option the ODBC path takes is about. -/
inductive Setting where
  | autocommit (on : Bool)
  | batchSize (rows : Int)
  | prefetch (rowsets : Int)
  | sqllen32bit (narrow : Bool)

namespace Setting

def reader (opts : OdbcReaderOptions) : Setting → OdbcReaderOptions
  | .autocommit _ => opts
  | .batchSize rows => { opts with batchSize := rows }
  | .prefetch rowsets => { opts with prefetch := rowsets }
  | .sqllen32bit narrow => { opts with sqllen32bit := narrow, sqllen32bitForced := true }

def mode (on : Bool) : Setting → Bool
  | .autocommit on => on
  | _ => on

/-- On a connection that is not initialized the value waits there. -/
def before (conn : OdbcConnection) (s : Setting) : OdbcConnection :=
  { conn with
    autocommit := s.mode conn.autocommit
    readerOpts := s.reader conn.readerOpts
    preBatchSize := conn.preBatchSize || s matches .batchSize _
    prePrefetch := conn.prePrefetch || s matches .prefetch _ }

/-- On an open connection the driver is told the mode. -/
def after (conn : OdbcConnection) (s : Setting) : OdbcConnection :=
  { conn with
    autocommit := s.mode conn.autocommit
    readerOpts := s.reader conn.readerOpts
    preBatchSize := conn.preBatchSize && !(s matches .batchSize _)
    prePrefetch := conn.prePrefetch && !(s matches .prefetch _)
    attrs := match s with
      | .autocommit on => conn.attrs ++ [on]
      | _ => conn.attrs }

end Setting

def settingOf (key value : Text) : Option Setting :=
  if key = autocommitKey then
    if value = "true".toList then some (.autocommit true)
    else if value = "false".toList then some (.autocommit false)
    else none
  else if key = batchSizeKey then
    if (strtoll value).1 ≤ 0 then none else some (.batchSize (strtoll value).1)
  else if key = prefetchKey then (parsePrefetchOption key value).toOption.map .prefetch
  else if key = sqllen32bitKey then (parseBoolOption key value).toOption.map .sqllen32bit
  else none

/-- The ODBC path has an option of this key. -/
def isKnown (key : Text) : Bool :=
  key ∈ [autocommitKey, batchSizeKey, prefetchKey, sqllen32bitKey, currentCatalogKey]

theorem parsePrefetch_status {key value : Text} {e : AdbcError}
    (h : parsePrefetchOption key value = .error e) : e.status = .invalidArgument := by
  unfold parsePrefetchOption at h
  dsimp only at h
  split_ifs at h
  rw [← Except.error.inj h]

theorem parseBool_status {key value : Text} {e : AdbcError}
    (h : parseBoolOption key value = .error e) : e.status = .invalidArgument := by
  unfold parseBoolOption at h
  split_ifs at h
  rw [← Except.error.inj h]

section Path

variable {key value : Text} {attr : Option AdbcError} {conn : OdbcConnection}

/-- An error of an option that is known says nothing about other drivers. -/
theorem of_invalid {e : AdbcError} (hknown : isKnown key = true)
    (hstatus : e.status ≠ .notImplemented) :
    ∃ e', (conn, some e) = (conn, some e') ∧ (e'.status = .notImplemented ↔ isKnown key = false) :=
  ⟨e, rfl, iff_of_false hstatus (by simp [hknown])⟩

/-- A refusal leaves the connection alone, and is "not implemented" for an unknown key only. -/
theorem setOptionOdbc_refuses (hconn : conn.connected = false)
    (hset : settingOf key value = none) :
    ∃ e, setOptionOdbc attr key value conn = (conn, some e) ∧
      (e.status = .notImplemented ↔ isKnown key = false) := by
  unfold settingOf at hset
  unfold setOptionOdbc
  by_cases hauto : key = autocommitKey
  · have hknown : isKnown key = true := by
      rw [hauto]
      decide
    rw [if_pos hauto] at hset ⊢
    split_ifs at hset ⊢
    exact of_invalid hknown nofun
  rw [if_neg hauto] at hset ⊢
  by_cases hbatch : key = batchSizeKey
  · have hknown : isKnown key = true := by
      rw [hbatch]
      decide
    rw [if_pos hbatch] at hset ⊢
    dsimp only
    split_ifs at hset ⊢
    exact of_invalid hknown nofun
  rw [if_neg hbatch] at hset ⊢
  by_cases hprefetch : key = prefetchKey
  · have hknown : isKnown key = true := by
      rw [hprefetch]
      decide
    rw [if_pos hprefetch] at hset ⊢
    cases hparse : parsePrefetchOption key value with
    | error e => exact of_invalid hknown (by simp [parsePrefetch_status hparse])
    | ok v =>
        rw [hparse] at hset
        exact nomatch hset
  rw [if_neg hprefetch] at hset ⊢
  by_cases hsqllen : key = sqllen32bitKey
  · have hknown : isKnown key = true := by
      rw [hsqllen]
      decide
    rw [if_pos hsqllen] at hset ⊢
    cases hparse : parseBoolOption key value with
    | error e => exact of_invalid hknown (by simp [parseBool_status hparse])
    | ok v =>
        rw [hparse] at hset
        exact nomatch hset
  rw [if_neg hsqllen]
  by_cases hcatalog : key = currentCatalogKey
  · have hknown : isKnown key = true := by
      rw [hcatalog]
      decide
    rw [if_pos hcatalog, hconn]
    exact of_invalid hknown nofun
  · have hunknown : isKnown key = false := by
      simp [isKnown, hauto, hbatch, hprefetch, hsqllen, hcatalog]
    rw [if_neg hcatalog]
    exact ⟨_, rfl, iff_of_true rfl hunknown⟩

theorem setAutocommit_takes {on : Bool} (hattr : conn.connected = true → attr = none) :
    setAutocommit attr on conn =
      (if conn.connected then (Setting.autocommit on).after conn
        else (Setting.autocommit on).before conn, none) := by
  unfold setAutocommit
  cases hconn : conn.connected with
  | false => simp [Setting.before, Setting.mode, Setting.reader, hconn]
  | true => simp [Setting.after, Setting.mode, Setting.reader, hconn, hattr hconn]

/-- What is taken waits on the connection, or is in effect where it is open. -/
theorem setOptionOdbc_takes {s : Setting} (hattr : conn.connected = true → attr = none)
    (hset : settingOf key value = some s) :
    setOptionOdbc attr key value conn =
      (if conn.connected then s.after conn else s.before conn, none) := by
  unfold settingOf at hset
  unfold setOptionOdbc
  by_cases hauto : key = autocommitKey
  · rw [if_pos hauto] at hset ⊢
    by_cases hon : value = "true".toList
    · rw [if_pos hon] at hset ⊢
      rw [← Option.some.inj hset, setAutocommit_takes hattr]
    rw [if_neg hon] at hset ⊢
    by_cases hoff : value = "false".toList
    · rw [if_pos hoff] at hset ⊢
      rw [← Option.some.inj hset, setAutocommit_takes hattr]
    · rw [if_neg hoff] at hset
      exact nomatch hset
  rw [if_neg hauto] at hset ⊢
  by_cases hbatch : key = batchSizeKey
  · rw [if_pos hbatch] at hset ⊢
    dsimp only
    by_cases hpos : (strtoll value).1 ≤ 0
    · rw [if_pos hpos] at hset
      exact nomatch hset
    · rw [if_neg hpos] at hset ⊢
      rw [← Option.some.inj hset]
      cases hconn : conn.connected with
      | false => simp [Setting.before, Setting.mode, Setting.reader, hconn]
      | true => simp [Setting.after, Setting.mode, Setting.reader, hconn]
  rw [if_neg hbatch] at hset ⊢
  by_cases hprefetch : key = prefetchKey
  · rw [if_pos hprefetch] at hset ⊢
    cases hparse : parsePrefetchOption key value with
    | error e =>
        rw [hparse] at hset
        exact nomatch hset
    | ok v =>
        rw [hparse] at hset
        rw [← Option.some.inj hset]
        cases hconn : conn.connected with
        | false => simp [Setting.before, Setting.mode, Setting.reader, hconn]
        | true => simp [Setting.after, Setting.mode, Setting.reader, hconn]
  rw [if_neg hprefetch] at hset ⊢
  by_cases hsqllen : key = sqllen32bitKey
  · rw [if_pos hsqllen] at hset ⊢
    cases hparse : parseBoolOption key value with
    | error e =>
        rw [hparse] at hset
        exact nomatch hset
    | ok v =>
        rw [hparse] at hset
        rw [← Option.some.inj hset]
        cases hconn : conn.connected with
        | false => simp [Setting.before, Setting.mode, Setting.reader, hconn]
        | true => simp [Setting.after, Setting.mode, Setting.reader, hconn]
  · rw [if_neg hsqllen] at hset
    exact nomatch hset

end Path

/-- A text that sets nothing changes nothing, whether or not the connection is open. -/
theorem setOptionOdbc_same (hset : settingOf key value = none) :
    (setOptionOdbc attr key value conn).1 = conn := by
  cases hconn : conn.connected with
  | false =>
      obtain ⟨e, hodbc, -⟩ := @setOptionOdbc_refuses key value attr conn hconn hset
      rw [hodbc]
  | true =>
      unfold settingOf at hset
      unfold setOptionOdbc
      dsimp only
      split_ifs at hset ⊢
      · rfl
      · rfl
      · cases hparse : parsePrefetchOption key value with
        | error e => rfl
        | ok v =>
            rw [hparse] at hset
            exact nomatch hset
      · cases hparse : parseBoolOption key value with
        | error e => rfl
        | ok v =>
            rw [hparse] at hset
            exact nomatch hset
      · rfl
      · rfl

theorem isKnown_of_setting {s : Setting} (hset : settingOf key value = some s) :
    isKnown key = true := by
  by_contra hunknown
  have hnone : settingOf key value = none := by
    simp only [isKnown, List.mem_cons, List.not_mem_nil, or_false, decide_eq_true_eq,
      not_or] at hunknown
    rw [settingOf, if_neg hunknown.1, if_neg hunknown.2.1, if_neg hunknown.2.2.1,
      if_neg hunknown.2.2.2.1]
  rw [hset] at hnone
  exact nomatch hnone

/-! ## What a call does before the connection is initialized -/

namespace SetCall

def key : SetCall → Text
  | .string key _ => key
  | .int key _ => key
  | .double key _ => key
  | .bytes key _ => key

/-- What the call sets on the ODBC path. -/
def setting : SetCall → Option Setting
  | .string key value => settingOf key value
  | .int key number => settingOf key (intText number.toInt)
  | .double _ _ => none
  | .bytes _ _ => none

/-- Only a native driver can know the option. -/
def isHeld : SetCall → Bool
  | .string key _ => !isOurs key && !isKnown key
  | .int key _ => !isOurs key && !isKnown key
  | .double key _ => !isOurs key
  | .bytes key _ => !isOurs key

/-- What a native driver is told; a number the ODBC path takes is a text by then. -/
def value : SetCall → OptionValue
  | .string _ value => .string (some value)
  | .int key number =>
      if (settingOf key (intText number.toInt)).isSome then
        .string (some (intText number.toInt))
      else .int number
  | .double _ bits => .double bits
  | .bytes _ octets => .bytes octets

/-- What the call leaves on the list. -/
def kept (c : SetCall) : Option (Text × OptionValue) :=
  if !isOurs c.key && (c.setting.isSome || c.isHeld) then some (c.key, c.value) else none

/-- The connection after the call. -/
def waits (conn : OdbcConnection) (c : SetCall) : OdbcConnection :=
  { c.setting.elim conn (Setting.before conn) with
    pre := c.kept.elim conn.pre fun e => KeyValue.add id conn.pre e.1 e.2
    heldOption := conn.heldOption.or (if c.isHeld then some c.key else none) }

end SetCall

theorem keep_waits {v : OptionValue} (hconn : conn.connected = false) :
    keep {} key v conn =
      { conn with pre := if isOurs key then conn.pre else KeyValue.add id conn.pre key v } := by
  cases hours : isOurs key with
  | true => simp [keep, hasSlot, hours]
  | false => simp [keep, hasSlot, hours, hconn]


section Waits

variable {a : Answer} {conn : OdbcConnection} {key : Text}

theorem setOptionOdbc_waits {s : Setting} {value : Text} {attr : Option AdbcError}
    (hconn : conn.connected = false) (hset : settingOf key value = some s) :
    setOptionOdbc attr key value conn = (s.before conn, none) := by
  rw [setOptionOdbc_takes (by simp [hconn]) hset, hconn]
  rfl

/-- A key that is refused is held when nobody here knows it. -/
theorem canHold_waits {status : AdbcStatusCode} (hproxied : conn.proxied = false)
    (hconn : conn.connected = false) (hstatus : status = .notImplemented ↔ isKnown key = false) :
    canHold conn key status = (!isOurs key && !isKnown key) := by
  cases hknown : isKnown key with
  | true =>
      have hne : status ≠ .notImplemented := fun h => by simp [hstatus.mp h] at hknown
      simp [canHold, hne]
  | false => simp [canHold, hstatus.mpr hknown, hconn, hproxied]

/-- A call that is refused leaves no trace. -/
theorem waits_of_refused {c : SetCall} (hset : c.setting = none) (hheld : c.isHeld = false) :
    c.waits conn = conn := by
  simp [SetCall.waits, SetCall.kept, hset, hheld]

/-- A text that is taken is in effect and on the list; one nobody knows is on the list only. -/
theorem setOption_waits {value : Text} (hproxied : conn.proxied = false)
    (hconn : conn.connected = false) (hmem : a.memory = {}) :
    (setOption a key value conn).1 = (SetCall.string key value).waits conn := by
  cases hset : settingOf key value with
  | some s =>
      have hknown := isKnown_of_setting hset
      have hbefore : (s.before conn).connected = false := hconn
      simp only [setOption, hproxied, setOptionOdbc_waits hconn hset, hmem, recordPreOption,
        keep_waits hbefore]
      cases hours : isOurs key with
      | true =>
          simp [SetCall.waits, SetCall.setting, SetCall.kept, SetCall.isHeld, SetCall.key, hset,
            hknown, hours, Setting.before]
      | false =>
          simp [SetCall.waits, SetCall.setting, SetCall.kept, SetCall.isHeld, SetCall.key, hset,
            hknown, hours, SetCall.value, Setting.before]
  | none =>
      obtain ⟨e, hodbc, hstatus⟩ := @setOptionOdbc_refuses key value a.attr conn hconn hset
      simp only [setOption, hproxied, hodbc, canHold_waits hproxied hconn hstatus, hmem,
        recordPreOption, keep_waits hconn]
      cases hours : isOurs key with
      | true =>
          have hheld : (SetCall.string key value).isHeld = false := by simp [SetCall.isHeld, hours]
          rw [waits_of_refused (c := SetCall.string key value) hset hheld]
          rfl
      | false =>
          cases hknown : isKnown key with
          | true =>
              have hheld : (SetCall.string key value).isHeld = false := by
                simp [SetCall.isHeld, hknown]
              rw [waits_of_refused (c := SetCall.string key value) hset hheld]
              rfl
          | false =>
              simp [SetCall.waits, SetCall.setting, SetCall.kept, SetCall.isHeld, SetCall.key,
                SetCall.value, hset, hours, hknown, held, hproxied]

theorem setOptionInt_waits {number : Int64} (hproxied : conn.proxied = false)
    (hconn : conn.connected = false) (hmem : a.memory = {}) :
    (setOptionInt a key number conn).1 = (SetCall.int key number).waits conn := by
  cases hset : settingOf key (intText number.toInt) with
  | some s =>
      have hknown := isKnown_of_setting hset
      have hbefore : (s.before conn).connected = false := hconn
      simp only [setOptionInt, hproxied, setOptionOdbc_waits hconn hset, hmem, recordPreOption,
        keep_waits hbefore]
      cases hours : isOurs key with
      | true =>
          simp [SetCall.waits, SetCall.setting, SetCall.kept, SetCall.isHeld, SetCall.key, hset,
            hknown, hours, Setting.before]
      | false =>
          simp [SetCall.waits, SetCall.setting, SetCall.kept, SetCall.isHeld, SetCall.key, hset,
            hknown, hours, SetCall.value, Setting.before]
  | none =>
      obtain ⟨e, hodbc, hstatus⟩ := @setOptionOdbc_refuses key _ a.attr conn hconn hset
      simp only [setOptionInt, hproxied, hodbc, canHold_waits hproxied hconn hstatus, hmem,
        keep_waits hconn]
      cases hours : isOurs key with
      | true =>
          have hheld : (SetCall.int key number).isHeld = false := by simp [SetCall.isHeld, hours]
          rw [waits_of_refused (c := SetCall.int key number) hset hheld]
          rfl
      | false =>
          cases hknown : isKnown key with
          | true =>
              have hheld : (SetCall.int key number).isHeld = false := by
                simp [SetCall.isHeld, hknown]
              rw [waits_of_refused (c := SetCall.int key number) hset hheld]
              rfl
          | false =>
              simp [SetCall.waits, SetCall.setting, SetCall.kept, SetCall.isHeld, SetCall.key,
                SetCall.value, hset, hours, hknown, held, hasSlot, hconn, hproxied]

/-- Before the connection is initialized a call does this, whatever anybody answers. -/
theorem run_waits {c : SetCall} (hproxied : conn.proxied = false)
    (hconn : conn.connected = false) (hmem : a.memory = {}) :
    (c.run a conn).1 = c.waits conn := by
  cases c with
  | string key value => exact setOption_waits hproxied hconn hmem
  | int key number => exact setOptionInt_waits hproxied hconn hmem
  | double key bits =>
      cases hours : isOurs key with
      | true =>
          have hheld : (SetCall.double key bits).isHeld = false := by simp [SetCall.isHeld, hours]
          rw [waits_of_refused rfl hheld]
          simp [SetCall.run, setOptionDouble, canHold, hproxied, hours]
      | false =>
          simp [SetCall.run, setOptionDouble, canHold, hproxied, hours, hmem, hconn, hasSlot, held,
            keep, SetCall.waits, SetCall.setting, SetCall.kept, SetCall.isHeld, SetCall.key,
            SetCall.value]
  | bytes key octets =>
      cases hours : isOurs key with
      | true =>
          have hheld : (SetCall.bytes key octets).isHeld = false := by simp [SetCall.isHeld, hours]
          rw [waits_of_refused rfl hheld]
          simp [SetCall.run, setOptionBytes, canHold, hproxied, hours]
      | false =>
          simp [SetCall.run, setOptionBytes, canHold, hproxied, hours, hmem, hconn, hasSlot, held,
            keep, SetCall.waits, SetCall.setting, SetCall.kept, SetCall.isHeld, SetCall.key,
            SetCall.value]

end Waits

/-! ## Whole runs -/

section Runs

variable {conn : OdbcConnection}

/-- The calls of a run that waits. -/
def waitAll (conn : OdbcConnection) (cs : List SetCall) : OdbcConnection :=
  cs.foldl SetCall.waits conn

theorem waits_proxied {c : SetCall} : (c.waits conn).proxied = conn.proxied := by
  unfold SetCall.waits
  cases c.setting with
  | none => rfl
  | some s => rfl

theorem waits_connected {c : SetCall} : (c.waits conn).connected = conn.connected := by
  unfold SetCall.waits
  cases c.setting with
  | none => rfl
  | some s => rfl

/-- A run of setters before the connection is initialized. -/
theorem setAll_waits {calls : List (SetCall × Answer)} (hproxied : conn.proxied = false)
    (hconn : conn.connected = false) (hmem : ∀ c ∈ calls, c.2.memory = {}) :
    setAll conn calls = waitAll conn (calls.map Prod.fst) := by
  induction calls generalizing conn with
  | nil => rfl
  | cons c calls ih =>
      rw [List.forall_mem_cons] at hmem
      have hstep : setAll conn (c :: calls) = setAll (c.1.run c.2 conn).1 calls := rfl
      rw [hstep, run_waits hproxied hconn hmem.1]
      exact ih (by rw [waits_proxied, hproxied]) (by rw [waits_connected, hconn]) hmem.2

/-- The list has every key that is kept, with its last value. -/
theorem waitAll_pre {cs : List SetCall} :
    (waitAll conn cs).pre = KeyValue.addAll id conn.pre (cs.filterMap SetCall.kept) := by
  induction cs generalizing conn with
  | nil => rfl
  | cons c cs ih =>
      have hstep : waitAll conn (c :: cs) = waitAll (c.waits conn) cs := rfl
      rw [hstep, ih, List.filterMap_cons]
      cases hkept : c.kept with
      | none => simp [SetCall.waits, hkept]
      | some e =>
          simp only [SetCall.waits, hkept, Option.elim_some]
          rfl

/-- The first option that is held is the one that is remembered. -/
theorem waitAll_heldOption {cs : List SetCall} :
    (waitAll conn cs).heldOption =
      conn.heldOption.or ((cs.find? SetCall.isHeld).map SetCall.key) := by
  induction cs generalizing conn with
  | nil => simp [waitAll]
  | cons c cs ih =>
      have hstep : waitAll conn (c :: cs) = waitAll (c.waits conn) cs := rfl
      have hheld : (c.waits conn).heldOption =
          conn.heldOption.or (if c.isHeld then some c.key else none) := rfl
      rw [hstep, ih, hheld, Option.or_assoc, List.find?_cons]
      cases c.isHeld with
      | false => simp
      | true => simp

/-- What is taken waits; the rest of the run changes neither list nor key. -/
theorem waitAll_setting {α : Type} {cs : List SetCall} (f : OdbcConnection → α)
    (g : α → Setting → α) (hbefore : ∀ conn s, f (Setting.before conn s) = g (f conn) s)
    (hframe : ∀ conn pre heldOption,
      f { conn with pre := pre, heldOption := heldOption } = f conn) :
    f (waitAll conn cs) = (cs.filterMap SetCall.setting).foldl g (f conn) := by
  induction cs generalizing conn with
  | nil => rfl
  | cons c cs ih =>
      have hstep : waitAll conn (c :: cs) = waitAll (c.waits conn) cs := rfl
      rw [hstep, ih, List.filterMap_cons]
      cases hset : c.setting with
      | none =>
          simp only [SetCall.waits, hset, Option.elim_none]
          rw [hframe]
      | some s =>
          simp only [SetCall.waits, hset, Option.elim_some, List.foldl_cons]
          rw [hframe, hbefore]

theorem waitAll_same {α : Type} {cs : List SetCall} (f : OdbcConnection → α)
    (hbefore : ∀ conn s, f (Setting.before conn s) = f conn)
    (hframe : ∀ conn pre heldOption,
      f { conn with pre := pre, heldOption := heldOption } = f conn) :
    f (waitAll conn cs) = f conn := by
  rw [waitAll_setting f (fun a _ => a) hbefore hframe, List.foldl_const]
  exact Function.iterate_fixed rfl _

theorem keep_open {m : Allocations} {key : Text} {v : OptionValue} (hconn : conn.connected = true) :
    keep m key v conn = conn := by
  simp [keep, hasSlot, hconn]

theorem setOptionOdbc_open {attr : Option AdbcError} {key value : Text}
    (hconn : conn.connected = true) (hattr : (settingOf key value).isSome = true → attr = none) :
    (setOptionOdbc attr key value conn).1 = (settingOf key value).elim conn (Setting.after conn) ∧
      (setOptionOdbc attr key value conn).1.connected = true := by
  cases hset : settingOf key value with
  | none => exact ⟨setOptionOdbc_same hset, by rw [setOptionOdbc_same hset, hconn]⟩
  | some s =>
      rw [setOptionOdbc_takes (fun _ => hattr (by rw [hset]; rfl)) hset, hconn]
      exact ⟨rfl, hconn⟩

/-- On an open connection a call sets what it sets, and nothing is kept or held. -/
theorem run_open {a : Answer} {c : SetCall} (hproxied : conn.proxied = false)
    (hconn : conn.connected = true) (hattr : c.setting.isSome = true → a.attr = none) :
    (c.run a conn).1 = c.setting.elim conn (Setting.after conn) := by
  cases c with
  | string key value =>
      have hopen := setOptionOdbc_open hconn hattr
      dsimp only [SetCall.run, setOption, SetCall.setting]
      rw [hproxied, ← hopen.1, if_neg Bool.false_ne_true]
      split
      · next conn' heq =>
          rw [heq] at hopen
          rw [heq, recordPreOption, keep_open hopen.2]
      · next conn' e heq =>
          rw [heq] at hopen
          rw [heq, canHold, hopen.2]
          simp
  | int key number =>
      have hopen := setOptionOdbc_open hconn hattr
      dsimp only [SetCall.run, setOptionInt, SetCall.setting]
      rw [hproxied, ← hopen.1, if_neg Bool.false_ne_true]
      split
      · next conn' heq =>
          rw [heq] at hopen
          rw [heq, recordPreOption, keep_open hopen.2]
      · next conn' e heq =>
          rw [heq] at hopen
          rw [heq, canHold, hopen.2]
          simp
  | double key bits => simp [SetCall.run, setOptionDouble, canHold, hproxied, hconn,
      SetCall.setting]
  | bytes key octets => simp [SetCall.run, setOptionBytes, canHold, hproxied, hconn,
      SetCall.setting]

/-- A run of setters on an open connection. -/
theorem setAll_open {calls : List (SetCall × Answer)} (hproxied : conn.proxied = false)
    (hconn : conn.connected = true)
    (hattr : ∀ c ∈ calls, c.1.setting.isSome = true → c.2.attr = none) :
    setAll conn calls =
      (calls.filterMap fun c => c.1.setting).foldl Setting.after conn := by
  induction calls generalizing conn with
  | nil => rfl
  | cons c calls ih =>
      rw [List.forall_mem_cons] at hattr
      have hstep : setAll conn (c :: calls) = setAll (c.1.run c.2 conn).1 calls := rfl
      rw [hstep, run_open hproxied hconn hattr.1, List.filterMap_cons]
      cases c.1.setting with
      | none => exact ih hproxied hconn hattr.2
      | some s => exact ih hproxied hconn hattr.2

end Runs

end AdbcBridge.Connection.Options
