import AdbcBridge.Adbc.Interface
import AdbcBridge.Delegate.NativeToOdbc

/-!
# The options of delegation

What a database is told before `AdbcDatabaseInit` about native drivers: whether to look for one,
which one, and where; and the options meant for it, which are kept until it is decided whether one
serves the database.
-/

namespace AdbcBridge.Delegate.Options

open AdbcBridge.Adbc AdbcBridge.Lib AdbcBridge.Delegate.Keywords

/-- `enum OdbcDelegateMode`. -/
inductive OdbcDelegateMode where
  | auto
  | never
  | always
deriving DecidableEq, Repr

structure OdbcDelegateOptions where
  mode : OdbcDelegateMode := .auto
  driver : Option Text := none
  searchPath : Option Text := none
  allowPaths : Bool := false
  initialized : Bool := false
  lastError : Option Text := none
  delegatedTo : Option Text := none
  pass : List (Text × Text) := []
deriving DecidableEq

/-- The variables of the process that delegation reads. -/
structure Environment where
  delegate : Option Text := none
  allowPaths : Option Text := none
  secureExec : Bool := false

def delegateKey : Text := "adbc.odbc.delegate".toList
def driverKey : Text := "adbc.odbc.delegate.driver".toList
def searchPathKey : Text := "adbc.odbc.delegate.search_path".toList
def allowPathsKey : Text := "adbc.odbc.delegate.allow_paths".toList
def lastErrorKey : Text := "adbc.odbc.delegate.last_error".toList
def delegatedToKey : Text := "adbc.odbc.delegated_to".toList

/-- What a database that ODBC serves was delegated to. -/
def toOdbc : Text := "odbc".toList

/-- `ParseMode`. -/
def parseMode : Option Text → Option OdbcDelegateMode
  | none => some .auto
  | some value =>
      if value = "auto".toList then some .auto
      else if value = "never".toList then some .never
      else if value = "always".toList then some .always
      else none

/-- `ParseBool`. -/
def parseBool : Option Text → Option Bool
  | none => none
  | some value =>
      if value = "true".toList ∨ value = "1".toList then some true
      else if value = "false".toList ∨ value = "0".toList then some false
      else none

/-- `OdbcDelegateOptionsInit`. -/
def optionsInit (env : Environment) : OdbcDelegateOptions where
  mode := ((env.delegate.filter (· ≠ [])).bind fun v => parseMode (some v)).getD .auto
  allowPaths := if env.secureExec then false else (parseBool env.allowPaths).getD false

/-- `IsPassThroughKey`: an option for the native driver. -/
def isPassThroughKey (key : Text) : Bool :=
  "adbc.".toList.isPrefixOf key && !"adbc.odbc.".toList.isPrefixOf key

/-- The keys of delegation itself. -/
def delegateKeys : List Text :=
  [delegateKey, driverKey, searchPathKey, allowPathsKey, lastErrorKey, delegatedToKey]

instance (key : Text) : Decidable (key ∈ delegateKeys) :=
  decidable_of_iff (delegateKeys.any (· == key) = true) (by simp [List.any_eq_true])

def invalid (message : Text) : Option AdbcError := some ⟨.invalidArgument, message⟩

/-- `OdbcDelegateSetOption`; nothing where the option is not one of delegation. -/
def setOption (opts : OdbcDelegateOptions) (key : Text) (value : Option Text) :
    Option (OdbcDelegateOptions × Option AdbcError) :=
  if ¬ (key ∈ delegateKeys ∨ isPassThroughKey key = true) then none
  else if key = lastErrorKey ∨ key = delegatedToKey then
    some (opts, invalid (key ++ " is read-only".toList))
  else if opts.initialized then
    some (opts, some ⟨.invalidState, key ++ " cannot be set after AdbcDatabaseInit".toList⟩)
  else if key = delegateKey then
    match parseMode value with
    | some mode => some ({ opts with mode := mode }, none)
    | none =>
        some (opts, invalid ("Invalid value \"".toList ++ value.getD [] ++ "\" for ".toList ++
          key ++ " (auto/never/always)".toList))
  else if key = allowPathsKey then
    match parseBool value with
    | some allow => some ({ opts with allowPaths := allow }, none)
    | none =>
        some (opts, invalid ("Invalid value \"".toList ++ value.getD [] ++ "\" for ".toList ++
          key ++ " (true/false)".toList))
  else if key = driverKey then some ({ opts with driver := value }, none)
  else if key = searchPathKey then some ({ opts with searchPath := value }, none)
  else if opts.mode = .never then none
  else some ({ opts with pass := KeyValue.add id opts.pass key (value.getD []) }, none)

/-- `OdbcDelegateGetOption`. -/
def getOption (opts : OdbcDelegateOptions) (key : Text) : Option Text :=
  if key = delegatedToKey then some (opts.delegatedTo.getD [])
  else if key = delegateKey then
    some (match opts.mode with
      | .never => "never".toList
      | .always => "always".toList
      | .auto => "auto".toList)
  else if key = driverKey then some (opts.driver.getD [])
  else if key = searchPathKey then some (opts.searchPath.getD [])
  else if key = allowPathsKey then some (if opts.allowPaths then "true".toList else "false".toList)
  else if key = lastErrorKey then some (opts.lastError.getD [])
  else none

/-- `OdbcDelegateHeldOption`. -/
def heldOption (opts : OdbcDelegateOptions) : Option Text := opts.pass.head?.map Prod.fst

section SetOption

variable {opts opts' : OdbcDelegateOptions} {key : Text} {value : Option Text}
  {e : Option AdbcError}

theorem passThrough_not_delegate (hpass : isPassThroughKey key = true) : key ∉ delegateKeys := by
  intro hmem
  have hnone : ∀ k ∈ delegateKeys, isPassThroughKey k = false := by decide
  rw [hnone key hmem] at hpass
  exact nomatch hpass

/-- An option of a native driver is kept, unless it is too late or there is to be none. -/
theorem setOption_passThrough (hpass : isPassThroughKey key = true) :
    setOption opts key value =
      if opts.initialized then
        some (opts, some ⟨.invalidState, key ++ " cannot be set after AdbcDatabaseInit".toList⟩)
      else if opts.mode = .never then none
      else some ({ opts with pass := KeyValue.add id opts.pass key (value.getD []) }, none) := by
  have hmem := passThrough_not_delegate hpass
  rw [delegateKeys] at hmem
  simp only [List.mem_cons, List.not_mem_nil, or_false, not_or] at hmem
  obtain ⟨hmode, hdriver, hsearch, hallow, hlast, hto⟩ := hmem
  rw [setOption, if_neg (not_not.mpr (Or.inr hpass)), if_neg (not_or.mpr ⟨hlast, hto⟩),
    if_neg hmode, if_neg hallow, if_neg hdriver, if_neg hsearch]

/-- What a setter is answered, if it is one of delegation, and leaves alone. -/
def Keeps (opts : OdbcDelegateOptions) (r : Option (OdbcDelegateOptions × Option AdbcError)) :
    Prop :=
  ∀ opts' e, r = some (opts', e) →
    opts'.pass = opts.pass ∧ opts'.initialized = opts.initialized

theorem keeps_some (hpass : opts'.pass = opts.pass)
    (hinit : opts'.initialized = opts.initialized) : Keeps opts (some (opts', e)) := by
  intro opts'' e' heq
  rw [← (Prod.mk.inj (Option.some.inj heq)).1]
  exact ⟨hpass, hinit⟩

theorem keeps_none : Keeps opts none := by
  intro opts' e heq
  exact nomatch heq

/-- No other option touches those that are kept. -/
theorem setOption_keeps (hpass : isPassThroughKey key = false) :
    Keeps opts (setOption opts key value) := by
  unfold setOption
  refine iteInduction (fun _ => keeps_none) fun hours => ?_
  refine iteInduction (fun _ => keeps_some rfl rfl) fun hread => ?_
  refine iteInduction (fun _ => keeps_some rfl rfl) fun _ => ?_
  refine iteInduction (fun _ => ?_) fun hmode => ?_
  · cases parseMode value with
    | some mode => exact keeps_some rfl rfl
    | none => exact keeps_some rfl rfl
  refine iteInduction (fun _ => ?_) fun hallow => ?_
  · cases parseBool value with
    | some allow => exact keeps_some rfl rfl
    | none => exact keeps_some rfl rfl
  refine iteInduction (fun _ => keeps_some rfl rfl) fun hdriver => ?_
  refine iteInduction (fun _ => keeps_some rfl rfl) fun hsearch => ?_
  have hmem : key ∈ delegateKeys :=
    (not_not.mp hours).resolve_right (by rw [hpass]; exact Bool.false_ne_true)
  rw [delegateKeys] at hmem
  simp only [List.mem_cons, List.not_mem_nil, or_false, hmode, hdriver, hsearch, hallow,
    false_or] at hmem
  exact absurd hmem hread

/-- The decision is made once. -/
theorem setOption_initialized (hinit : opts.initialized = true)
    (hset : setOption opts key value = some (opts', e)) : opts' = opts ∧ e ≠ none := by
  have hrefused : ∀ f, some (opts, some f) = some (opts', e) → opts' = opts ∧ e ≠ none := by
    intro f heq
    obtain ⟨hopts, he⟩ := Prod.mk.inj (Option.some.inj heq)
    rw [← he]
    exact ⟨hopts.symm, Option.some_ne_none f⟩
  unfold setOption at hset
  by_cases hours : ¬ (key ∈ delegateKeys ∨ isPassThroughKey key = true)
  · rw [if_pos hours] at hset
    exact nomatch hset
  rw [if_neg hours] at hset
  by_cases hread : key = lastErrorKey ∨ key = delegatedToKey
  · rw [if_pos hread] at hset
    exact hrefused _ hset
  · rw [if_neg hread, if_pos hinit] at hset
    exact hrefused _ hset

end SetOption

end AdbcBridge.Delegate.Options
