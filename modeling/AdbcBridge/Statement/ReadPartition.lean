import AdbcBridge.Partition.Slices
import AdbcBridge.Statement.Ownership

/-!
# Reading a partition

`OdbcConnectionReadPartitionOdbc`: the text of a descriptor is executed on a statement handle of
its own, which belongs to the result stream alone.  Here are the connection's side of it, beside
the operations of the statements, and who holds the handle on every way out.
-/

namespace AdbcBridge.Statement.ReadPartition

open AdbcBridge.Adbc AdbcBridge.Lib AdbcBridge.Statement.Handle AdbcBridge.Statement.Ownership
open AdbcBridge.Partition.Slices (odbcPartitionMagic descriptor)

/-- The text behind the magic of a descriptor, as far as the driver manager reads it. -/
def partitionSql (serialized : List Char) : Option (List Char) :=
  if serialized.length < odbcPartitionMagic.length ∨
      serialized.take odbcPartitionMagic.length ≠ odbcPartitionMagic then none
  else some ((serialized.drop odbcPartitionMagic.length).takeWhile (· ≠ '\x00'))

/-- The answers to a `ReadPartition`: to the allocation of the text, to `SQLAllocHandle`, to
`SQLExecDirect`, to `OdbcHandleRefNew` and to `OdbcReaderInit`. -/
structure ReadAnswer where
  text : Bool := true
  allocHandle : Option AdbcError := none
  execute : Option AdbcError := none
  refNew : Bool := true
  reader : ReaderAnswer := {}

/-- From `SQLAllocHandle` on; the reference of the call is dropped either way. -/
def streamPartition (a : ReadAnswer) (sql : List Char) (c : Session) :
    Session × Option AdbcError :=
  let h := c.handles
  let executed := c.alloc.log (.execDirect h sql)
  match a.execute with
  | some e => (executed.release h, some e)
  | none =>
      if !a.refNew then (executed.release h, some outOfMemory)
      else if !a.reader.allocates then (executed.release h, some outOfMemory)
      else
        match a.reader.describe with
        | some e => (((executed.retain h).release h).release h, some e)
        | none => (((executed.retain h).openStream h .odbc).release h, none)

/-- `OdbcConnectionReadPartitionOdbc`. -/
def readPartition (connected out : Bool) (serialized : List Char) (a : ReadAnswer)
    (c : Session) : Session × Option AdbcError :=
  if !connected then (c, some ⟨.invalidState, "Connection is not initialized".toList⟩)
  else if !out then
    (c, some ⟨.invalidArgument, "ReadPartition requires an output stream".toList⟩)
  else
    match partitionSql serialized with
    | none =>
        (c, some ⟨.invalidArgument, "Not an adbcbridge partition descriptor".toList⟩)
    | some sql =>
        if !a.text then (c, some outOfMemory)
        else
          match a.allocHandle with
          | some e => (c, some e)
          | none => streamPartition a sql c

/-! ## What a descriptor carries -/

/-- What `ExecutePartitions` wraps is what `ReadPartition` executes. -/
theorem partitionSql_descriptor {sql : List Char} (hsql : '\x00' ∉ sql) :
    partitionSql (descriptor sql) = some sql := by
  have htake : (descriptor sql).take odbcPartitionMagic.length = odbcPartitionMagic :=
    List.take_left
  have hdrop : (descriptor sql).drop odbcPartitionMagic.length = sql := List.drop_left
  have hlength : ¬(descriptor sql).length < odbcPartitionMagic.length := by
    rw [descriptor, List.length_append]
    omega
  have hwhole : sql.takeWhile (· ≠ '\x00') = sql := by
    rw [List.takeWhile_eq_self_iff]
    intro c hc
    rw [decide_eq_true_iff]
    exact ne_of_mem_of_not_mem hc hsql
  rw [partitionSql, htake, hdrop, hwhole, if_neg]
  exact not_or.mpr ⟨hlength, not_not.mpr rfl⟩

/-- Only a text behind the magic is a descriptor. -/
theorem descriptor_of_partitionSql {serialized sql : List Char}
    (h : partitionSql serialized = some sql) :
    ∃ text, serialized = descriptor text ∧ sql = text.takeWhile (· ≠ '\x00') := by
  unfold partitionSql at h
  split_ifs at h with hbad
  rw [not_or, not_not] at hbad
  refine ⟨serialized.drop odbcPartitionMagic.length, ?_, (Option.some.inj h).symm⟩
  calc
    serialized = serialized.take odbcPartitionMagic.length ++
        serialized.drop odbcPartitionMagic.length := (List.take_append_drop _ _).symm
    _ = descriptor (serialized.drop odbcPartitionMagic.length) := by rw [hbad.2, descriptor]

/-! ## What becomes of the handle -/

section Handle

variable (c : Session) (sql : List Char)

/-- The handle was allocated, executed on and freed. -/
def freed : Session :=
  { c with
    refcount := Function.update c.refcount c.handles 0
    handles := c.handles + 1
    calls := c.calls ++ [.alloc c.handles, .execDirect c.handles sql] }

/-- The handle is the new stream's, and nobody else's. -/
def streamed : Session :=
  { c with
    refcount := Function.update c.refcount c.handles 1
    handles := c.handles + 1
    streams := c.streams ++ [⟨c.opened, c.handles, .odbc⟩]
    opened := c.opened + 1
    calls := c.calls ++ [.alloc c.handles, .execDirect c.handles sql,
      .openStream c.opened c.handles] }

theorem release_executed :
    (c.alloc.log (.execDirect c.handles sql)).release c.handles = freed c sql := by
  simp [Session.alloc, Session.log, Session.release, freed]

/-- A partition's handle is freed or the stream's, and a call that fails opens no stream. -/
theorem streamPartition_cases (a : ReadAnswer) :
    (streamPartition a sql c).1 = freed c sql ∧ (streamPartition a sql c).2.isSome ∨
      (streamPartition a sql c).1 = streamed c sql ∧ (streamPartition a sql c).2 = none := by
  unfold streamPartition
  cases a.execute with
  | some e => exact Or.inl ⟨release_executed c sql, rfl⟩
  | none =>
      dsimp only
      split_ifs
      · exact Or.inl ⟨release_executed c sql, rfl⟩
      · exact Or.inl ⟨release_executed c sql, rfl⟩
      · cases a.reader.describe with
        | some e =>
            refine Or.inl ⟨?_, rfl⟩
            dsimp only
            rw [Moves.release_retain, release_executed]
        | none =>
            refine Or.inr ⟨?_, rfl⟩
            simp [Session.alloc, Session.log, Session.retain, Session.openStream,
              Session.release, streamed]

/-- A `ReadPartition` leaves the connection alone, or executes the text of the descriptor on a
new handle. -/
theorem readPartition_cases (connected out : Bool) (serialized : List Char) (a : ReadAnswer) :
    (readPartition connected out serialized a c).1 = c ∧
        (readPartition connected out serialized a c).2.isSome ∨
      ∃ sql, partitionSql serialized = some sql ∧
        readPartition connected out serialized a c = streamPartition a sql c := by
  unfold readPartition
  split
  · exact Or.inl ⟨rfl, rfl⟩
  split
  · exact Or.inl ⟨rfl, rfl⟩
  cases hsql : partitionSql serialized with
  | none => exact Or.inl ⟨rfl, rfl⟩
  | some sql =>
      cases a.allocHandle with
      | some e =>
          refine Or.inl ?_
          dsimp only
          split_ifs <;> exact ⟨rfl, rfl⟩
      | none =>
          dsimp only
          split_ifs
          · exact Or.inl ⟨rfl, rfl⟩
          · exact Or.inr ⟨sql, rfl, rfl⟩

end Handle

end AdbcBridge.Statement.ReadPartition
