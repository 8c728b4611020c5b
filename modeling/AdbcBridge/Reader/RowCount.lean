import AdbcBridge.Reader.GetDataLong

/-!
# Row counts

`SQLRowCount` at both widths of a driver's `SQLLEN`, and `OdbcRowCount`.  A driver with a
32-bit `SQLLEN` writes the low half of the variable and leaves the other half as it was.
-/

namespace AdbcBridge.Reader.RowCount

open AdbcBridge.Adbc AdbcBridge.Reader.Scratch

/-- A driver's answer to `SQLRowCount`; it can be a success without a count. -/
inductive RowCountAnswer where
  | failed
  | silent
  | wrote (count : BitVec 64)
deriving DecidableEq, Repr

/-- What a driver that writes `count` makes of the variable. -/
def store (sqllen32 : Bool) (before count : BitVec 64) : BitVec 64 :=
  if sqllen32 then BitVec.ofNat 64 (before.toNat / 2 ^ 32 * 2 ^ 32 + count.toNat % 2 ^ 32)
  else count

/-- `SQLRowCount`: whether it succeeds, and the variable behind it. -/
def sqlRowCount (sqllen32 : Bool) (answer : RowCountAnswer) (before : BitVec 64) :
    Bool × BitVec 64 :=
  match answer with
  | .failed => (false, before)
  | .silent => (true, before)
  | .wrote count => (true, store sqllen32 before count)

/-- `OdbcRowCount`. -/
def odbcRowCount (sqllen32 : Bool) (answer : RowCountAnswer) : Int :=
  let counted := sqlRowCount sqllen32 answer (BitVec.allOnes 64)
  if counted.1 then odbcReadLen sqllen32 counted.2.toInt else -1

/-- What a driver reports of an execution, if it reports anything. -/
def reported (sqllen32 : Bool) (answer : RowCountAnswer) : Option Int :=
  match answer with
  | .failed | .silent => none
  | .wrote count => some (if sqllen32 then (count.setWidth 32).toInt else count.toInt)

theorem store_zero_toNat (count : BitVec 64) :
    (store true 0#64 count).toNat = (count.setWidth 32).toNat := by
  unfold store
  rw [if_pos rfl, BitVec.toNat_ofNat, BitVec.toNat_setWidth]
  simp
  omega

/-- A variable that was zero holds the low half without its sign. -/
theorem store_zero (count : BitVec 64) :
    (store true 0#64 count).toInt = (count.setWidth 32).toNat := by
  have hlow := (count.setWidth 32).isLt
  rw [BitVec.toInt_eq_toNat_of_lt (by rw [store_zero_toNat]; omega), store_zero_toNat]

/-- The low half is read with its sign, whatever the other half is. -/
theorem odbcReadLen_store (before count : BitVec 64) :
    odbcReadLen true (store true before count).toInt = (count.setWidth 32).toInt := by
  have hlow (high : Nat) :
      ((high * 2 ^ 32 + count.toNat % 2 ^ 32) % 2 ^ 64 : Nat) % (2 ^ 32 : Nat) =
      count.toNat % 2 ^ 32 % 2 ^ 32 := by omega
  unfold odbcReadLen store signedCast
  rw [if_pos rfl, if_pos rfl, BitVec.toInt_eq_toNat_bmod, BitVec.toInt_eq_toNat_bmod,
    BitVec.toNat_ofNat, BitVec.toNat_setWidth, Int.bmod_bmod_of_dvd (Nat.pow_dvd_pow 2 (by decide)),
    ← Int.emod_bmod, ← Int.natCast_mod, hlow, Int.natCast_mod, Int.emod_bmod]

/-- `OdbcRowCount` is what the driver reports, and -1 without that. -/
theorem odbcRowCount_eq (sqllen32 : Bool) (answer : RowCountAnswer) :
    odbcRowCount sqllen32 answer = (reported sqllen32 answer).getD (-1) := by
  cases answer with
  | failed => rfl
  | silent =>
      cases sqllen32 with
      | false => rfl
      | true => rfl
  | wrote count =>
      cases sqllen32 with
      | false => rfl
      | true => exact odbcReadLen_store _ count

end AdbcBridge.Reader.RowCount
