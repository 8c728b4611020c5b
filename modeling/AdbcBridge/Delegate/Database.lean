import AdbcBridge.Connection.Options
import AdbcBridge.Delegate.HandOver

/-!
# The database

`AdbcDatabaseSetOption` and `AdbcDatabaseInit`.  An option for a native driver is taken while it is
open who will serve the database, so initializing it has to answer for every one that was taken.
-/

namespace AdbcBridge.Delegate.Database

open AdbcBridge.Adbc AdbcBridge.Lib AdbcBridge.Lib.Decimal AdbcBridge.Delegate.Keywords
  AdbcBridge.Delegate.Options AdbcBridge.Delegate.HandOver
open AdbcBridge.Delegate.OpenHdbc (System)
open AdbcBridge.Delegate.NativeToOdbc (odbcDelegateNativeUriToOdbc)
open AdbcBridge.Connection.Options (parsePrefetchOption parseBoolOption strtoll)

/-- A database: what its connections are made from, the options of its readers, and who serves
it. -/
structure OdbcDatabase extends OpenHdbc.OdbcDatabase where
  utcSession : Bool := true
  maxBindBytes : Int := 32768
  longBindBytes : Int := 2048
  rowsetBytes : Int := 8 * 1024 * 1024
  decimalAsString : Bool := false
  prefetch : Int := 0
  sqllen32bit : Bool := false
  sqllen32bitForced : Bool := false
  delegate : OdbcDelegateOptions := {}
  proxy : Option Native := none
  henv : Bool := false

/-- `OdbcDatabaseNew`. -/
def databaseNew (env : Environment) : OdbcDatabase := { delegate := optionsInit env }

def connectionStringKey : Text := "adbc.odbc.connection_string".toList
def dsnKey : Text := "dsn".toList
def usernameKey : Text := "username".toList
def passwordKey : Text := "password".toList
def batchSizeKey : Text := "adbc.odbc.batch_size".toList
def prefetchKey : Text := "adbc.odbc.prefetch".toList
def maxBindBytesKey : Text := "adbc.odbc.max_bind_bytes".toList
def longBindBytesKey : Text := "adbc.odbc.long_bind_bytes".toList
def rowsetBytesKey : Text := "adbc.odbc.rowset_bytes".toList
def decimalAsStringKey : Text := "adbc.odbc.decimal_as_string".toList
def sqllen32bitKey : Text := "adbc.odbc.sqllen_32bit".toList
def tuneKey : Text := "adbc.odbc.tune".toList
def utcSessionKey : Text := "adbc.odbc.utc_session".toList

/-- The options that are about ODBC. -/
def odbcKeys : List Text :=
  [uriOption, connectionStringKey, dsnKey, usernameKey, passwordKey, batchSizeKey, prefetchKey,
    maxBindBytesKey, longBindBytesKey, rowsetBytesKey, decimalAsStringKey, sqllen32bitKey, tuneKey,
    utcSessionKey]

/-- An option that is a positive integer. -/
def setPositive (db : OdbcDatabase) (key value : Text) (set : Int → OdbcDatabase) :
    OdbcDatabase × Option AdbcError :=
  let v := (strtoll value).1
  if v ≤ 0 then
    (db, some ⟨.invalidArgument, key ++ " must be a positive integer".toList⟩)
  else (set v, none)

/-- An option that is parsed. -/
def setParsed {α : Type} (db : OdbcDatabase) (parsed : Except AdbcError α)
    (set : α → OdbcDatabase) : OdbcDatabase × Option AdbcError :=
  match parsed with
  | .error e => (db, some e)
  | .ok v => (set v, none)

/-- The part of `OdbcDatabaseSetOption` that is about ODBC. -/
def setOptionOdbc (key value : Text) (db : OdbcDatabase) : OdbcDatabase × Option AdbcError :=
  if key = uriOption ∨ key = connectionStringKey then
    ({ db with connectionString := some value }, none)
  else if key = dsnKey then ({ db with dsn := some value }, none)
  else if key = usernameKey then ({ db with username := some value }, none)
  else if key = passwordKey then ({ db with password := some value }, none)
  else if key = batchSizeKey then setPositive db key value fun v => { db with batchSize := v }
  else if key = prefetchKey then
    setParsed db (parsePrefetchOption key value) fun v => { db with prefetch := v }
  else if key = maxBindBytesKey then
    setPositive db key value fun v => { db with maxBindBytes := v }
  else if key = longBindBytesKey then
    setPositive db key value fun v => { db with longBindBytes := v }
  else if key = rowsetBytesKey then setPositive db key value fun v => { db with rowsetBytes := v }
  else if key = decimalAsStringKey then
    ({ db with decimalAsString := value = "true".toList }, none)
  else if key = sqllen32bitKey then
    setParsed db (parseBoolOption key value)
      fun v => { db with sqllen32bit := v, sqllen32bitForced := true }
  else if key = tuneKey then
    setParsed db (parseBoolOption key value) fun v => { db with tune := v }
  else if key = utcSessionKey then
    setParsed db (parseBoolOption key value) fun v => { db with utcSession := v }
  else (db, some ⟨.notImplemented, "Unknown database option ".toList ++ key⟩)

/-- `OdbcDatabaseSetOption`; `native` is what a native driver answers that serves the database. -/
def setOption (native : Option AdbcError) (key value : Text) (db : OdbcDatabase) :
    OdbcDatabase × Option AdbcError :=
  match Options.setOption db.delegate key (some value) with
  | some (opts, e) => ({ db with delegate := opts }, e)
  | none => if db.proxy.isSome then (db, native) else setOptionOdbc key value db

/-- `OdbcDatabaseSetOptionInt`. -/
def setOptionInt (native : Option AdbcError) (key : Text) (number : Int64) (db : OdbcDatabase) :
    OdbcDatabase × Option AdbcError :=
  if db.proxy.isSome then (db, native) else setOption native key (intText number.toInt) db

/-- What of ODBC a database needs: the drivers of `odbcinst.ini`, an environment, and its
version. -/
structure OdbcAnswers where
  drivers : List Text := []
  environment : Bool := true
  version : Option AdbcError := none

/-- The database, the calls a native driver got, and the error. -/
structure Initialized where
  db : OdbcDatabase
  log : List NativeCall := []
  error : Option AdbcError := none

/-- The text of an option that nobody is left for. -/
def heldError (opts : OdbcDelegateOptions) (key : Text) : AdbcError :=
  ⟨.notImplemented,
    "Unknown database option ".toList ++ key ++
      (" (it is only understood by a native ADBC driver, " ++
        "and this connection is served by ODBC: ").toList ++
      ((opts.lastError.filter (· ≠ [])).getD "delegation was not attempted".toList) ++ ")".toList⟩

/-- The part of `OdbcDatabaseInit` behind the hand-over. -/
def initOdbc (a : OdbcAnswers) (db : OdbcDatabase) : OdbcDatabase × Option AdbcError :=
  match heldOption db.delegate with
  | some key => (db, some (heldError db.delegate key))
  | none =>
      match odbcDelegateNativeUriToOdbc a.drivers (db.connectionString.getD [])
          db.delegate.lastError with
      | .error why => (db, some ⟨.invalidArgument, why⟩)
      | .ok translated =>
          let db := { db with connectionString := translated.or db.connectionString }
          if a.environment then ({ db with henv := true }, a.version)
          else (db, some ⟨.io, "SQLAllocHandle(SQL_HANDLE_ENV) failed".toList⟩)

/-- `OdbcDatabaseInit`. -/
def databaseInit (sys : System) (load : NativeTarget → Loading) (a : OdbcAnswers)
    (db : OdbcDatabase) : Initialized :=
  if db.connectionString = none ∧ db.dsn = none then
    { db := db
      error := some ⟨.invalidArgument,
        ("Must set option \"uri\" (an ODBC connection string, e.g. " ++
          "\"Driver=SQLite3;Database=test.db\") or \"dsn\"").toList⟩ }
  else
    let d := tryInit sys load (SameSettings.target sys db.toOdbcDatabase) db.delegate
    let decided := { db with delegate := d.opts }
    match d.error with
    | some e => { db := decided, log := d.log, error := some e }
    | none =>
        if d.delegated then { db := { decided with proxy := d.native }, log := d.log }
        else
          let r := initOdbc a decided
          { db := r.1, log := d.log, error := r.2 }

/-! ## Runs of setters -/

/-- A call of a setter. -/
inductive SetCall where
  | string (key value : Text)
  | int (key : Text) (number : Int64)

namespace SetCall

def key : SetCall → Text
  | .string key _ => key
  | .int key _ => key

/-- The value as a text. -/
def value : SetCall → Text
  | .string _ value => value
  | .int _ number => intText number.toInt

def run (db : OdbcDatabase) : SetCall → OdbcDatabase × Option AdbcError
  | .string key value => setOption none key value db
  | .int key number => setOptionInt none key number db

end SetCall

/-- The calls one after the other, and what each is answered. -/
def setAll : OdbcDatabase → List SetCall → OdbcDatabase × List (Option AdbcError)
  | db, [] => (db, [])
  | db, c :: cs =>
      let r := c.run db
      let rest := setAll r.1 cs
      (rest.1, r.2 :: rest.2)

/-- An option for a native driver that was taken. -/
def taken (c : SetCall × Option AdbcError) : Option (Text × Text) :=
  if isPassThroughKey c.1.key = true ∧ c.2 = none then some (c.1.key, c.1.value) else none

/-- The options for a native driver that were taken in a run. -/
def accepted (cs : List SetCall) (answers : List (Option AdbcError)) : List (Text × Text) :=
  (cs.zip answers).filterMap taken

/-- A database that nobody serves yet. -/
structure Open (db : OdbcDatabase) : Prop where
  proxy : db.proxy = none
  initialized : db.delegate.initialized = false

section Runs

variable {db : OdbcDatabase} {key value : Text} {cs : List SetCall}

/-- What a setter of ODBC leaves alone. -/
def Keeps (db : OdbcDatabase) (r : OdbcDatabase × Option AdbcError) : Prop :=
  r.1.delegate = db.delegate ∧ r.1.proxy = db.proxy

theorem setPositive_keeps {set : Int → OdbcDatabase}
    (hset : ∀ v, (set v).delegate = db.delegate ∧ (set v).proxy = db.proxy) :
    Keeps db (setPositive db key value set) := by
  unfold setPositive
  dsimp only
  split_ifs
  · exact ⟨rfl, rfl⟩
  · exact hset _

theorem setParsed_keeps {α : Type} {parsed : Except AdbcError α} {set : α → OdbcDatabase}
    (hset : ∀ v, (set v).delegate = db.delegate ∧ (set v).proxy = db.proxy) :
    Keeps db (setParsed db parsed set) := by
  cases parsed with
  | error e => exact ⟨rfl, rfl⟩
  | ok v => exact hset v

/-- The options of ODBC are no matter of delegation. -/
theorem setOptionOdbc_keeps : Keeps db (setOptionOdbc key value db) := by
  unfold setOptionOdbc
  repeat' refine iteInduction (fun _ => ?_) (fun _ => ?_)
  all_goals first
    | exact setPositive_keeps fun _ => ⟨rfl, rfl⟩
    | exact setParsed_keeps fun _ => ⟨rfl, rfl⟩
    | exact ⟨rfl, rfl⟩

/-- ODBC knows no option of a native driver. -/
theorem setOptionOdbc_passThrough (hpass : isPassThroughKey key = true) :
    setOptionOdbc key value db =
      (db, some ⟨.notImplemented, "Unknown database option ".toList ++ key⟩) := by
  have hmem : key ∉ odbcKeys := by
    intro hmem
    have hnone : ∀ k ∈ odbcKeys, isPassThroughKey k = false := by decide
    rw [hnone key hmem] at hpass
    exact nomatch hpass
  rw [odbcKeys] at hmem
  simp only [List.mem_cons, List.not_mem_nil, or_false, not_or] at hmem
  obtain ⟨huri, hstring, hdsn, huser, hpassword, hbatch, hprefetch, hbind, hlong, hrowset, hdecimal,
    hsqllen, htune, hutc⟩ := hmem
  rw [setOptionOdbc, if_neg (not_or.mpr ⟨huri, hstring⟩), if_neg hdsn, if_neg huser,
    if_neg hpassword, if_neg hbatch, if_neg hprefetch, if_neg hbind, if_neg hlong, if_neg hrowset,
    if_neg hdecimal, if_neg hsqllen, if_neg htune, if_neg hutc]

/-- One setter on a database that nobody serves yet. -/
theorem setOption_open (hopen : Open db) :
    Open (setOption none key value db).1 ∧
      (setOption none key value db).1.delegate.pass =
        if isPassThroughKey key = true ∧ (setOption none key value db).2 = none then
          KeyValue.add id db.delegate.pass key value
        else db.delegate.pass := by
  have hodbc := @setOptionOdbc_keeps db key value
  unfold setOption
  cases hpass : isPassThroughKey key with
  | true =>
      rw [setOption_passThrough hpass, hopen.initialized, if_neg Bool.false_ne_true]
      by_cases hmode : db.delegate.mode = .never
      · rw [if_pos hmode]
        simp [hopen.proxy, setOptionOdbc_passThrough hpass, hopen]
      · rw [if_neg hmode]
        exact ⟨⟨hopen.proxy, rfl⟩, by simp⟩
  | false =>
      have hkeeps := @setOption_keeps db.delegate key (some value) hpass
      cases hset : Options.setOption db.delegate key (some value) with
      | none =>
          have hplain : (none : Option Native).isSome = false := rfl
          dsimp only
          rw [hopen.proxy, hplain, if_neg Bool.false_ne_true]
          refine ⟨⟨hodbc.2.trans hopen.proxy, ?_⟩, ?_⟩
          · rw [hodbc.1, hopen.initialized]
          · rw [hodbc.1]
            simp
      | some r =>
          obtain ⟨opts, e⟩ := r
          have hsame := hkeeps opts e hset
          exact ⟨⟨hopen.proxy, hsame.2.trans hopen.initialized⟩, by simp [hsame.1]⟩

theorem run_open {c : SetCall} (hopen : Open db) :
    Open (c.run db).1 ∧
      (c.run db).1.delegate.pass =
        KeyValue.addAll id db.delegate.pass (taken (c, (c.run db).2)).toList := by
  have hrun : c.run db = setOption none c.key c.value db := by
    cases c with
    | string key value => rfl
    | int key number =>
        dsimp only [SetCall.run, setOptionInt]
        rw [hopen.proxy]
        rfl
  rw [hrun]
  obtain ⟨hstill, hkept⟩ := @setOption_open db c.key c.value hopen
  refine ⟨hstill, ?_⟩
  rw [hkept, taken]
  split_ifs
  · rfl
  · rfl

/-- A run of setters keeps every option for a native driver that it takes. -/
theorem setAll_open (hopen : Open db) :
    Open (setAll db cs).1 ∧
      (setAll db cs).1.delegate.pass =
        KeyValue.addAll id db.delegate.pass (accepted cs (setAll db cs).2) := by
  induction cs generalizing db with
  | nil => exact ⟨hopen, rfl⟩
  | cons c cs ih =>
      obtain ⟨hstep, hkept⟩ := @run_open db c hopen
      obtain ⟨hrest, hall⟩ := ih hstep
      refine ⟨hrest, ?_⟩
      have hsplit : accepted (c :: cs) (setAll db (c :: cs)).2 =
          (taken (c, (c.run db).2)).toList ++ accepted cs (setAll (c.run db).1 cs).2 := by
        rw [accepted, setAll, List.zip_cons_cons, List.filterMap_cons]
        cases taken (c, (c.run db).2) with
        | none => rfl
        | some e => rfl
      rw [hsplit, KeyValue.addAll, List.foldl_append, ← KeyValue.addAll, ← KeyValue.addAll, ← hkept]
      exact hall

/-! ## What has been decided stays so -/

/-- A setter that comes after the decision. -/
theorem run_settled {c : SetCall} (hinit : db.delegate.initialized = true) :
    (c.run db).1.delegate = db.delegate ∧ (c.run db).1.proxy = db.proxy := by
  have hset : ∀ key value, (setOption none key value db).1.delegate = db.delegate ∧
      (setOption none key value db).1.proxy = db.proxy := by
    intro key value
    unfold setOption
    split
    · next opts e heq => exact ⟨(setOption_initialized hinit heq).1, rfl⟩
    · split_ifs
      · exact ⟨rfl, rfl⟩
      · exact setOptionOdbc_keeps
  cases c with
  | string key value => exact hset key value
  | int key number =>
      dsimp only [SetCall.run, setOptionInt]
      split_ifs
      · exact ⟨rfl, rfl⟩
      · exact hset key _

theorem setAll_settled (hinit : db.delegate.initialized = true) :
    (setAll db cs).1.delegate = db.delegate ∧ (setAll db cs).1.proxy = db.proxy := by
  induction cs generalizing db with
  | nil => exact ⟨rfl, rfl⟩
  | cons c cs ih =>
      obtain ⟨hdelegate, hproxy⟩ := @run_settled db c hinit
      have hrest := @ih (c.run db).1 (by rw [hdelegate, hinit])
      exact ⟨hrest.1.trans hdelegate, hrest.2.trans hproxy⟩

end Runs

/-! ## Initializing the database -/

section Init

variable {sys : System} {load : NativeTarget → Loading} {a : OdbcAnswers} {db : OdbcDatabase}

/-- ODBC serves the database where no option waits for another. -/
theorem initOdbc_ok (hok : (initOdbc a db).2 = none) :
    db.delegate.pass = [] ∧ (initOdbc a db).1.henv = true ∧
      (initOdbc a db).1.delegate = db.delegate ∧ (initOdbc a db).1.proxy = db.proxy := by
  unfold initOdbc at hok ⊢
  cases hheld : heldOption db.delegate with
  | some key =>
      rw [hheld] at hok
      exact nomatch hok
  | none =>
      rw [hheld] at hok
      dsimp only at hok ⊢
      have hpass : db.delegate.pass = [] := by
        rw [heldOption, Option.map_eq_none_iff] at hheld
        exact List.head?_eq_none_iff.mp hheld
      refine ⟨hpass, ?_⟩
      cases huri : odbcDelegateNativeUriToOdbc a.drivers (db.connectionString.getD [])
          db.delegate.lastError with
      | error why =>
          rw [huri] at hok
          exact nomatch hok
      | ok translated =>
          rw [huri] at hok
          dsimp only at hok ⊢
          cases henv : a.environment with
          | true => exact ⟨rfl, rfl, rfl⟩
          | false =>
              rw [henv] at hok
              exact nomatch hok

/-- A database that comes up is a native driver's or that of ODBC. -/
theorem databaseInit_ok {d : Decision} {r : Initialized}
    (hd : tryInit sys load (SameSettings.target sys db.toOdbcDatabase) db.delegate = d)
    (hr : databaseInit sys load a db = r) (hok : r.error = none) :
    d.error = none ∧ r.log = d.log ∧ r.db.delegate = d.opts ∧
      (d.delegated = true ∧ r.db.proxy = d.native ∨
        d.delegated = false ∧ r.db.proxy = db.proxy ∧ d.opts.pass = [] ∧ r.db.henv = true) := by
  have hnone : ¬ (db.connectionString = none ∧ db.dsn = none) := by
    intro hnone
    rw [databaseInit, if_pos hnone] at hr
    rw [← hr] at hok
    exact nomatch hok
  rw [databaseInit, if_neg hnone, hd] at hr
  dsimp only at hr
  cases herror : d.error with
  | some e =>
      rw [herror] at hr
      rw [← hr] at hok
      exact nomatch hok
  | none =>
      rw [herror] at hr
      refine ⟨rfl, ?_⟩
      cases hdelegated : d.delegated with
      | true =>
          rw [hdelegated] at hr
          rw [← hr]
          exact ⟨rfl, rfl, Or.inl ⟨rfl, rfl⟩⟩
      | false =>
          rw [hdelegated] at hr
          rw [← hr] at hok ⊢
          obtain ⟨hpass, henv, hopts, hproxy⟩ := initOdbc_ok hok
          exact ⟨rfl, hopts, Or.inr ⟨rfl, hproxy, hpass, henv⟩⟩

/-- An option for a native driver is none by which it is told of its target. -/
theorem passThrough_not_target {key : Text} (hpass : isPassThroughKey key = true) :
    key ∉ targetKeys := by
  intro hmem
  have hnone : ∀ k ∈ targetKeys, isPassThroughKey k = false := by decide
  rw [hnone key hmem] at hpass
  exact Bool.false_ne_true hpass

/-- Every option for a native driver that was taken is told to one, once and with its last value,
before the native database comes up, and it is told of no other but of its target; or there was
none.  Who serves the database is settled then. -/
theorem native_options_answered_for {env : Environment} {cs : List SetCall} :
    let s := setAll (databaseNew env) cs
    let kept := accepted cs s.2
    let r := databaseInit sys load a s.1
    r.error = none →
      (r.db.proxy ≠ none → ∃ (told : List (Text × Text)) (info : NativeTarget)
          (creds tried : List NativeCall),
        (told.map Prod.fst).Nodup ∧
        (∀ key value, (key, value) ∈ told ↔ KeyValue.get id kept.reverse key = some value) ∧
        (∀ c ∈ creds, c.SetsTarget) ∧ (∀ c ∈ tried, c.isSetup = false) ∧
        (∀ key, isPassThroughKey key = true →
          valuesTold key r.log = (KeyValue.get id kept.reverse key).toList) ∧
        r.log = [.load, .databaseNew, .databaseSetOption uriOption info.uri] ++ creds ++
          setCalls told ++ [.databaseInit] ++ tried) ∧
      (r.db.proxy = none → kept = [] ∧ r.db.henv = true ∧ s.1.delegate.mode ≠ .always) ∧
      ∀ later, (setAll r.db later).1.proxy = r.db.proxy := by
  intro s kept r hok
  have hopen : Open (databaseNew env) := ⟨rfl, rfl⟩
  obtain ⟨hstill, hpass⟩ := @setAll_open (databaseNew env) cs hopen
  have hempty : (databaseNew env).delegate.pass = [] := rfl
  rw [hempty] at hpass
  obtain ⟨herror, hlog, hopts, hserved⟩ := databaseInit_ok rfl rfl hok
  have hkeeps := @tryInit_keeps (SameSettings.target sys s.1.toOdbcDatabase) s.1.delegate sys load
  have hdistinct : ((KeyValue.addAll id [] kept).map Prod.fst).Nodup :=
    @KeyValue.nodup_addAll Text Text _ _ id _ _ List.nodup_nil
  refine ⟨?_, ?_, ?_⟩
  · intro hproxy
    cases hserved with
    | inl hnative =>
        obtain ⟨info, creds, tried, hcreds, htried, hsent⟩ := tryInit_served hnative.1
        have hlast : ∀ key, KeyValue.get id (KeyValue.addAll id [] kept) key =
            KeyValue.get id kept.reverse key :=
          fun key => KeyValue.get_addAll.trans Option.or_none
        rw [hpass] at hsent
        have htold := hlog.trans hsent
        refine ⟨KeyValue.addAll id [] kept, info, creds, tried, hdistinct, ?_, hcreds, htried, ?_,
          htold⟩
        · intro key value
          rw [KeyValue.mem_iff_get hdistinct, hlast]
        · intro key hkey
          have hother := passThrough_not_target hkey
          have hfirst : valuesTold key
              [.load, .databaseNew, .databaseSetOption uriOption info.uri] = [] := by
            apply valuesTold_other
            intro c hc
            fin_cases hc
            · rfl
            · rfl
            · exact valueOf_setsTarget hother ⟨uriOption, List.mem_cons_self, _, rfl⟩
          rw [htold, valuesTold_append, valuesTold_append, valuesTold_append, valuesTold_append,
            hfirst, valuesTold_other fun c hc => valueOf_setsTarget hother (hcreds c hc),
            valuesTold_setCalls hdistinct, hlast,
            valuesTold_other fun c hc => valueOf_isSetup (htried c hc)]
          simp [valuesTold, NativeCall.valueOf]
    | inr hodbc => exact absurd (hodbc.2.1.trans hstill.proxy) hproxy
  · intro hproxy
    cases hserved with
    | inl hnative =>
        obtain ⟨n, hn⟩ := tryInit_native hnative.1
        rw [hnative.2, hn] at hproxy
        cases hproxy
    | inr hodbc =>
        refine ⟨?_, hodbc.2.2.2, ?_⟩
        · have hempty : KeyValue.addAll id [] kept = [] :=
            hpass.symm.trans (hkeeps.1.symm.trans hodbc.2.2.1)
          exact KeyValue.eq_nil_of_addAll hempty
        · intro hmode
          cases @tryInit_always _ _ sys load hmode with
          | inl hnative =>
              rw [hodbc.1] at hnative
              cases hnative
          | inr hfailed => exact hfailed herror
  · intro later
    apply (setAll_settled _).2
    rw [hopts]
    exact hkeeps.2

end Init

/-- A driver that takes everything. -/
def agreeable : Native where
  answer _ := none
  holds := pending

/-- An option for a native driver, set twice. -/
def cached : List SetCall :=
  [.string uriOption "sqlite:a.db".toList, .string "adbc.cache".toList "1".toList,
    .string "adbc.cache".toList "2".toList]

theorem cached_told_once :
    ∃ told before after, ("adbc.cache".toList, "2".toList) ∈ told ∧ (told.map Prod.fst).Nodup ∧
      valuesTold "adbc.cache".toList (databaseInit { windows := false, odbcIni := fun _ => none }
        (fun _ => .loaded agreeable) {} (setAll (databaseNew {}) cached).1).log = ["2".toList] ∧
      (databaseInit { windows := false, odbcIni := fun _ => none } (fun _ => .loaded agreeable) {}
        (setAll (databaseNew {}) cached).1).log =
        before ++ setCalls told ++ [.databaseInit] ++ after := by
  have hall := @native_options_answered_for { windows := false, odbcIni := fun _ => none }
    (fun _ => .loaded agreeable) {} {} cached rfl
  obtain ⟨told, info, creds, tried, hnodup, hlast, -, -, honce, hlog⟩ :=
    hall.1 (Option.some_ne_none agreeable)
  have hkept : KeyValue.get id (accepted cached (setAll (databaseNew {}) cached).2).reverse
      "adbc.cache".toList = some "2".toList := by decide
  refine ⟨told, _, tried, (hlast _ _).mpr hkept, hnodup, ?_, hlog⟩
  rw [honce _ (by decide), hkept, Option.toList_some]

end AdbcBridge.Delegate.Database
