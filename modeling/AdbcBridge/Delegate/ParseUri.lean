import AdbcBridge.Delegate.NativeUri
import AdbcBridge.Lib.Delimited
import Mathlib

/-!
# Reading native URIs

`FamilyFromUri`, `PercentDecode`, `ParseUriQuery` and `ParseUriRest`.
-/

namespace AdbcBridge.Delegate.ParseUri

open AdbcBridge.Lib AdbcBridge.Lib.Delimited AdbcBridge.Delegate.Keywords
  AdbcBridge.Delegate.NativeUri

/-! ## The scheme -/

def isSchemeChar (c : Char) : Bool := c.isAlphanum ∨ c = '+' ∨ c = '.' ∨ c = '-'

/-- The family a scheme belongs to. -/
def schemeFamily (scheme : Text) : OdbcNativeFamily :=
  if inNameList (names ["postgresql", "postgres"]) scheme then .postgresql
  else if inNameList (names ["sqlite", "sqlite3"]) scheme then .sqlite
  else if inNameList (names ["duckdb"]) scheme then .duckdb
  else if inNameList (names ["snowflake"]) scheme then .snowflake
  else if inNameList (names ["bigquery"]) scheme then .bigquery
  else if inNameList (names ["grpc", "grpc+tls", "grpc+tcp", "grpc+unix"]) scheme then .flightsql
  else .none

/-- `FamilyFromUri`: the family, and the text behind the scheme where there is one. -/
def familyFromUri (uri : Text) : OdbcNativeFamily × Option Text :=
  let scheme := uri.takeWhile isSchemeChar
  match uri.dropWhile isSchemeChar with
  | ':' :: rest =>
      if scheme = [] ∨ 32 ≤ scheme.length then (.none, none) else (schemeFamily scheme, some rest)
  | _ => (.none, none)

/-! ## Percent-decoding -/

/-- `HexValue`. -/
def hexValue (c : Char) : Option Nat :=
  if c.isDigit then some (c.toNat - '0'.toNat)
  else if 'a' ≤ c ∧ c ≤ 'f' then some (c.toNat - 'a'.toNat + 10)
  else if 'A' ≤ c ∧ c ≤ 'F' then some (c.toNat - 'A'.toNat + 10)
  else none

/-- The bytes an encoded text stands for. -/
def unescaped : Text → Text
  | [] => []
  | '%' :: a :: b :: s =>
      match hexValue a, hexValue b with
      | some hi, some lo => Char.ofNat (hi * 16 + lo) :: unescaped s
      | _, _ => '%' :: unescaped (a :: b :: s)
  | c :: s => c :: unescaped s

/-- `PercentDecode`, as the string that is read of it: it ends at the first NUL. -/
def percentDecode (s : Text) : Text := (unescaped s).takeWhile (· ≠ '\x00')

/-! ## The parts -/

/-- `struct ParsedUri`. -/
structure ParsedUri where
  user : Option Text := none
  password : Option Text := none
  host : Option Text := none
  port : Option Text := none
  path : Option Text := none
  params : List (Text × Text) := []
deriving DecidableEq, Repr

/-- The pieces of a query that have a value. -/
def queryPairs (query : Text) : List (Text × Text) :=
  (query.splitOn '&').filterMap fun piece =>
    (cut '=' piece).2.map fun value => (percentDecode (cut '=' piece).1, percentDecode value)

/-- `ParseUriQuery`. -/
def parseUriQuery (query : Text) : List (Text × Text) :=
  KeyValue.addAll lower [] (queryPairs query)

/-- A host and a port that are not in brackets. -/
def plainHost (hostpart : Text) : Option Text × Option Text :=
  (some (percentDecode (cut ':' hostpart).1), (cut ':' hostpart).2.map percentDecode)

/-- The host and the port of an authority. -/
def hostAndPort (hostpart : Text) : Option Text × Option Text :=
  match hostpart with
  | [] => (none, none)
  | '[' :: inner =>
      match (cut ']' inner).2 with
      | some (':' :: port) =>
          (some (percentDecode (cut ']' inner).1), some (percentDecode port))
      | some _ => (some (percentDecode (cut ']' inner).1), none)
      | none => plainHost ('[' :: inner)
  | _ => plainHost hostpart

/-- The characters that end an authority. -/
def endsAuthority (c : Char) : Bool := c = '/' ∨ c = '?' ∨ c = '#'

/-- The text from the path on. -/
def afterAuthority : Text → Text
  | '/' :: '/' :: s => s.dropWhile fun c => ¬ endsAuthority c
  | s => s

/-- The user, the password, the host and the port. -/
def parseAuthority : Text → ParsedUri
  | '/' :: '/' :: s =>
      let authority := lastCut '@' (s.takeWhile fun c => ¬ endsAuthority c)
      { user := authority.1.map fun userinfo => percentDecode (cut ':' userinfo).1
        password := authority.1.bind fun userinfo => (cut ':' userinfo).2.map percentDecode
        host := (hostAndPort authority.2).1
        port := (hostAndPort authority.2).2 }
  | _ => {}

/-- The path behind its first slash. -/
def parsePath (path : Text) : Option Text :=
  let name := if path.head? = some '/' then path.tail else path
  if name = [] then none else some (percentDecode name)

/-- The query of a URI, if it has one. -/
def uriQuery (rest : Text) : Option Text := (cut '?' (afterAuthority rest)).2

/-- `ParseUriRest`. -/
def parseUriRest (rest : Text) : ParsedUri :=
  { parseAuthority rest with
    path := parsePath (cut '?' (afterAuthority rest)).1
    params := ((uriQuery rest).map parseUriQuery).getD [] }

example : parseUriRest "//u:p%40@[::1]:54/d?a=b&c".toList =
    { user := some "u".toList, password := some "p@".toList, host := some "::1".toList
      port := some "54".toList, path := some "d".toList
      params := [("a".toList, "b".toList)] } := by decide

/-! ## Decoding what was encoded -/

/-- A byte other than NUL. -/
def IsByte (c : Char) : Prop := c ≠ '\x00' ∧ c.toNat < 256

/-- What `char *` can hold. -/
def Bytes (s : Text) : Prop := ∀ c ∈ s, IsByte c

theorem hexValue_kHex {n : Nat} (h : n < 16) : hexValue (kHex.getD n '0') = some n := by
  interval_cases n <;> decide

theorem unescaped_ordinary {c : Char} (hc : c ≠ '%') (s : Text) :
    unescaped (c :: s) = c :: unescaped s := by
  rw [unescaped.eq_def]
  split
  · rename_i heq
    cases heq
  · rename_i heq
    exact absurd (List.cons.inj heq).1 hc
  · rename_i heq
    obtain ⟨rfl, rfl⟩ := List.cons.inj heq
    rfl

theorem unescaped_escape {c : Char} (hc : c.toNat < 256) (s : Text) :
    unescaped ('%' :: kHex.getD (c.toNat / 16) '0' :: kHex.getD (c.toNat % 16) '0' :: s) =
      c :: unescaped s := by
  have hhi : hexValue (kHex.getD (c.toNat / 16) '0') = some (c.toNat / 16) :=
    hexValue_kHex (by omega)
  have hlo : hexValue (kHex.getD (c.toNat % 16) '0') = some (c.toNat % 16) :=
    hexValue_kHex (by omega)
  rw [unescaped, hhi, hlo]
  have hsum : c.toNat / 16 * 16 + c.toNat % 16 = c.toNat := by omega
  simp only [hsum, Char.ofNat_toNat]

theorem unescaped_encoded {s : Text} (hs : Bytes s) : unescaped (encoded s) = s := by
  induction s with
  | nil => rfl
  | cons c s ih =>
      have htail := ih fun d hd => hs d (List.mem_cons_of_mem c hd)
      rw [encoded, List.flatMap_cons, ← encoded]
      by_cases hc : isUnreserved c
      · have hne : c ≠ '%' := by
          rintro rfl
          exact absurd hc (by decide)
        rw [if_pos hc, List.singleton_append, unescaped_ordinary hne, htail]
      · rw [if_neg hc]
        change unescaped ('%' :: _ :: _ :: encoded s) = _
        rw [unescaped_escape (hs c List.mem_cons_self).2, htail]

theorem takeWhile_bytes {s : Text} (hs : Bytes s) : s.takeWhile (· ≠ '\x00') = s :=
  List.takeWhile_eq_self_iff.mpr fun c hc => decide_eq_true (hs c hc).1

/-- Decoding takes encoding back. -/
theorem percentDecode_encoded {s : Text} (hs : Bytes s) : percentDecode (encoded s) = s := by
  rw [percentDecode, unescaped_encoded hs, takeWhile_bytes hs]

/-- A text without a percent sign stands for itself. -/
theorem percentDecode_plain {s : Text} (hs : Bytes s) (hpercent : '%' ∉ s) :
    percentDecode s = s := by
  have hself : unescaped s = s := by
    clear hs
    induction s with
    | nil => rfl
    | cons c s ih =>
        rw [unescaped_ordinary fun heq => hpercent (heq ▸ List.mem_cons_self),
          ih fun hmem => hpercent (List.mem_cons_of_mem c hmem)]
  rw [percentDecode, hself, takeWhile_bytes hs]

/-- The characters of an encoded text. -/
def isEncodedChar (c : Char) : Bool := isUnreserved c ∨ c = '%'

theorem isEncodedChar_of_isUnreserved {c : Char} (h : isUnreserved c) : isEncodedChar c := by
  simp [isEncodedChar, h]

theorem kHex_unreserved {n : Nat} : isUnreserved (kHex.getD n '0') := by
  by_cases h : n < 16
  · interval_cases n <;> decide
  · have hlen : kHex.length ≤ n := by
      change 16 ≤ n
      omega
    rw [List.getD_eq_default _ _ hlen]
    decide

theorem mem_encoded {s : Text} {c : Char} (h : c ∈ encoded s) : isEncodedChar c := by
  rw [encoded, List.mem_flatMap] at h
  obtain ⟨d, -, hc⟩ := h
  split at hc
  · rename_i hd
    rw [List.mem_singleton.mp hc]
    exact isEncodedChar_of_isUnreserved hd
  · simp only [List.mem_cons, List.not_mem_nil, or_false] at hc
    rcases hc with rfl | rfl | rfl
    · decide
    · exact isEncodedChar_of_isUnreserved kHex_unreserved
    · exact isEncodedChar_of_isUnreserved kHex_unreserved

/-- An encoded text has no delimiter in it. -/
theorem not_mem_encoded {s : Text} {c : Char} (hc : isEncodedChar c = false) :
    c ∉ encoded s := by
  intro h
  rw [mem_encoded h] at hc
  cases hc

theorem encoded_ne_nil {s : Text} (hs : s ≠ []) : encoded s ≠ [] := by
  cases s with
  | nil => exact absurd rfl hs
  | cons c s =>
      rw [encoded, List.flatMap_cons]
      split <;> simp

end AdbcBridge.Delegate.ParseUri
