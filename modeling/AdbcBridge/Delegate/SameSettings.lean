import AdbcBridge.Delegate.Accounting
import AdbcBridge.Delegate.OpenHdbc
import Mathlib

/-!
# One connection, two readers

What the text of the URI that `BuildNativeUri` returns for PostgreSQL says, and what ODBC takes of
the string that `OdbcOpenHdbc` assembles: there the first keyword of a setting counts, and the DSN
section stands behind the string.
-/

namespace AdbcBridge.Delegate.SameSettings

open AdbcBridge.Lib AdbcBridge.Lib.PgUri AdbcBridge.Delegate.Keywords
  AdbcBridge.Delegate.ConnString AdbcBridge.Delegate.OpenHdbc AdbcBridge.Delegate.NativeUri
  AdbcBridge.Delegate.ParseUri AdbcBridge.Delegate.UriRoundTrip AdbcBridge.Delegate.LibpqUri
  AdbcBridge.Delegate.BuiltUri AdbcBridge.Delegate.Accounting

/-! ## What delegation is given -/

/-- The DSN `DetectNative` looks into: the option, or else the string's own. -/
def detectedDsn (db : OdbcDatabase) : Option Text :=
  match given db.dsn with
  | some name => some name
  | none => db.connectionString.bind fun conn => connStringGet conn "DSN".toList

/-- The arguments of `BuildNativeUri`. -/
def target (sys : System) (db : OdbcDatabase) : OdbcDelegateTarget where
  connectionString := db.connectionString.getD []
  dsn := (given (detectedDsn db)).map sys.section
  username := db.username
  password := db.password

/-! ## What ODBC takes -/

/-- The section of the first DSN in the assembled string. -/
def odbcSection (sys : System) (db : OdbcDatabase) : List (Text × Text) :=
  ((given (connStringGet (assembled sys db) "DSN".toList)).bind sys.odbcIni).getD []

/-- Every keyword ODBC sees, in the order in which the first one counts. -/
def odbcKeywords (sys : System) (db : OdbcDatabase) : List (Text × Text) :=
  connPairs (assembled sys db) ++ odbcSection sys db

/-- What ODBC takes for a setting. -/
def odbcSetting (sys : System) (db : OdbcDatabase) (s : Setting) : Option Text :=
  ((odbcKeywords sys db).find? fun kv => settingOf kv.1 = some s).map Prod.snd

/-- The parameters a keyword of psqlodbc says something about. -/
def paramsSaid (kv : Text × Text) : List (Text × Text) :=
  match classifyKeyword .postgresql kv.1 with
  | .forward param => [(param, kv.2)]
  | .pqopt => (pqoptOptions kv.2).toOption.getD []
  | _ => []

def odbcParam (sys : System) (db : OdbcDatabase) (name : Text) : Option Text :=
  KeyValue.get lower ((odbcKeywords sys db).flatMap paramsSaid) name

/-- A value as a URI has it: an empty one is none, a host without the brackets of an address, and
without a host the URI says `localhost`. -/
def inUri : Setting → Option Text → Option Text
  | .host, value => some (unbracketed ((given value).getD "localhost".toList))
  | _, value => given value

/-- libpq takes from a URI what ODBC takes from its keywords. -/
structure Agrees (sys : System) (db : OdbcDatabase) (w : ConnectionUri) : Prop where
  setting : ∀ s, effective w s = inUri s (odbcSetting sys db s)
  param : ∀ name, (∀ s, lower name ≠ settingParam s) →
    given (parameter w name) = given (odbcParam sys db name)

theorem forward_other {family : OdbcNativeFamily} {key param : Text}
    (h : classifyKeyword family key = .forward param) (s : Setting) :
    lower param ≠ settingParam s := by
  have hsaid : (param, ['x']) ∈ allSaid family [(key, ['x'])] := by
    refine mem_allSaid.mpr ⟨_, List.mem_singleton_self _, [(param, ['x'])], ?_,
      List.mem_singleton_self _⟩
    unfold saidOf
    rw [h]
    rfl
  exact said_other hsaid s

/-- A string that says everything once, with a DSN for the rest. -/
def once : OdbcDatabase where
  connectionString := some "DSN=pg;sslmode=require".toList
  username := some "app".toList

end AdbcBridge.Delegate.SameSettings
