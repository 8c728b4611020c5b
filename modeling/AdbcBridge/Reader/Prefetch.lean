import AdbcBridge.Reader.NextBatch
import AdbcBridge.Reader.SlotRing

/-!
# The prefetching reader

The reader as its two threads share it: the fetch thread of `PrefetchMain` fills the
slots of the ring, and the caller of `get_next` takes them in `PrefetchNextRowset`.  A
step is what one of the two does between two points at which the other may act: a turn
under the lock, the ODBC calls it makes without it, or its work on a slot of its own.
-/

namespace AdbcBridge.Reader

open AdbcBridge.Adbc

/-- `ADBC_ODBC_MAX_PREFETCH`. -/
def maxPrefetch : Nat := 8

/-- `PrefetchRefusalReason`. -/
def prefetchRefusalReason {δ : Type*} (r : OdbcReader δ) : Option (List Char) :=
  if !r.allBound then some "the result set has a column this driver cannot bind".toList
  else if r.rowsPerFetch ≤ 1 then some "this driver fetches one row at a time".toList
  else if r.noRowsFetchedPtr then
    some "this driver does not report how many rows it fetched".toList
  else if r.cols.any (·.clipped) then
    some "a column is bound narrower than its declared width".toList
  else none

/-- The number of slots `ReaderBind` allocates. -/
def slotCount {δ : Type*} (prefetch : Nat) (r : OdbcReader δ) : Nat :=
  if 0 < prefetch ∧ prefetchRefusalReason r = none then min prefetch maxPrefetch + 1 else 1

/-- Where the fetch thread is; `absent` before it starts and once it has been joined. -/
inductive FetchThread where
  | absent
  | top
  | filling (sl : Nat)
  | bound (sl : Nat)
  | publishing (sl : Nat)
  | failing (e : AdbcError)
  | exited
deriving DecidableEq

/-- The slot the fetch thread is at work on. -/
def FetchThread.slot : FetchThread → Option Nat
  | .filling sl | .bound sl | .publishing sl => some sl
  | _ => none

/-- Why the caller joins the fetch thread. -/
inductive Joins where
  | ended
  | answer (failed : Option AdbcError)
  | repair
  | release
deriving DecidableEq

/-- Where the calling thread is; `idle` also between two calls of `get_next`. -/
inductive Caller where
  | idle
  | holding
  | releasing (status : Option AdbcError)
  | stopping (why : Joins)
  | joining (why : Joins)
  | repairing
  | closing
  | closed
deriving DecidableEq

/-- The reader with its ring. -/
structure SharedReader (δ v : Type*) where
  session : Session δ v
  prefetch : Nat
  ring : SlotRing v := {}
  curSlot : Nat := 0
  fetchDone : Bool := false
  fetchFailed : Option AdbcError := none
  fetchStop : Bool := false
  fetcher : FetchThread := .absent
  caller : Caller := .idle

inductive Party where
  | caller
  | fetchThread
deriving DecidableEq

namespace SharedReader

variable {δ v : Type*} (D : Driver δ v)

abbrev reader (s : SharedReader δ v) : OdbcReader δ := s.session.reader

def setReader (s : SharedReader δ v) (r : OdbcReader δ) : SharedReader δ v :=
  { s with session := { s.session with reader := r } }

/-! ## The fetch thread -/

/-- Clear the slot and aim the handle at it. -/
def bindInto (s : SharedReader δ v) (sl : Nat) : SharedReader δ v :=
  let s := { s with ring := s.ring.clear sl }
  match bindSlot D s.reader s.reader.cursor sl with
  | (some e, c) => { s.setReader { s.reader with cursor := c } with fetcher := .failing e }
  | (none, c) => { s.setReader { s.reader with cursor := c } with fetcher := .bound sl }

/-- `SQLFetch` into the slot. -/
def fetchInto (s : SharedReader δ v) (sl : Nat) : SharedReader δ v :=
  match D.fetch s.reader.cursor with
  | (.noData, c) =>
      { s.setReader { s.reader with cursor := c } with
        ring := s.ring.fill sl .eos
        fetcher := .publishing sl }
  | (.failed e, c) => { s.setReader { s.reader with cursor := c } with fetcher := .failing e }
  | (.rows rowset, c) =>
      let fetched := resolveFetched s.reader rowset
      let slot := .rows rowset fetched (s.reader.rowsSeen + 1)
        (rowsetTruncated s.reader rowset fetched)
      { s.setReader { s.reader with cursor := c, rowsSeen := s.reader.rowsSeen + fetched } with
        ring := s.ring.fill sl slot
        fetcher := .publishing sl }

def publish (s : SharedReader δ v) (sl : Nat) (slot : Slot v) : SharedReader δ v :=
  { s with
    ring := s.ring.publish sl slot
    fetchDone := s.fetchDone || slot.isEos
    fetcher := if slot.leaves then .exited else .top }

/-! ## The caller -/

/-- `ReaderBind` and `PrefetchStart` at the first batch, and what begins any other. -/
def begin (started : Bool) (s : SharedReader δ v) : SharedReader δ v :=
  let session := s.session.begin D
  if !s.reader.bound && session.reader.bound then
    let nslots := slotCount s.prefetch session.reader
    { s with
      session := { session with
        reader := { session.reader with
          adaptOpen := session.reader.adaptOpen && decide (nslots ≤ 1) } }
      ring := { s.ring with nslots }
      fetcher := if 1 < nslots ∧ started = true then .top else .absent }
  else { s with session }

/-- Take the head slot; `ReaderUseSlot` unless it is the end. -/
def take (s : SharedReader δ v) (slot : Slot v) : SharedReader δ v :=
  { s with
    ring := s.ring.take slot
    curSlot := if slot.isEos then s.curSlot else s.ring.head
    caller := match slot with
      | .eos => .stopping .ended
      | .rows _ _ _ true => .stopping .repair
      | .rows _ _ _ false => .holding }

/-- The reader has read another rowset of the ring. -/
def popped (r : OdbcReader δ) (bulk : Bool) : OdbcReader δ :=
  { r with
    rowsSeenExact := r.rowsSeenExact && bulk
    rowsetsRead := r.rowsetsRead + 1 }

/-- `ConvertRowset` on the slot in hand. -/
def convert (s : SharedReader δ v) (rowset : Rowset v) (fetched : Nat) (batch : Batch v) :
    SharedReader δ v :=
  let bulk := rowsetIsBulk rowset fetched
  let r := popped s.reader bulk
  match convertRowset D r rowset fetched bulk r.cursor batch with
  | (.error e, c) => { s.setReader { r with cursor := c } with caller := .releasing (some e) }
  | (.ok batch, c) =>
      { s with
        session := { s.session with reader := { r with cursor := c }, batch := some batch }
        caller := .releasing none }

/-- Give the slot back, and report the status of its conversion. -/
def release (s : SharedReader δ v) (status : Option AdbcError) : SharedReader δ v :=
  { s with
    session := match status with
      | none => s.session
      | some e => s.session.fail s.reader e
    ring := s.ring.release
    caller := .idle }

/-- After the join of `PrefetchJoin`. -/
def joined (s : SharedReader δ v) (why : Joins) : SharedReader δ v :=
  let s := { s with fetcher := .absent }
  match why with
  | .ended | .answer none =>
      { s.setReader { s.reader with done := true } with caller := .idle }
  | .answer (some e) => { s with session := s.session.fail s.reader e, caller := .idle }
  | .repair => { s with caller := .repairing }
  | .release => { s with caller := .closing }

/-- The repair of a rowset the fetch thread has handed back. -/
def handBack (s : SharedReader δ v) (fetched firstRow : Nat) (batch : Batch v) :
    SharedReader δ v :=
  let s := { s with caller := .idle }
  match bindSlot D s.reader s.reader.cursor s.curSlot with
  | (some e, c) => { s with session := s.session.fail { s.reader with cursor := c } e }
  | (none, c) =>
      match repairRowset D { s.reader with cursor := c } firstRow fetched batch.columns with
      | (.error e, c) => { s with session := s.session.fail { s.reader with cursor := c } e }
      | (.ok columns, c) =>
          { s with
            session := { s.session with
              reader := { s.reader with
                cursor := c
                rowsetsRead := s.reader.rowsetsRead + 1
                rowsetsRepaired := s.reader.rowsetsRepaired + 1 }
              batch := some { columns, total := batch.total + fetched } } }

/-- The calls `ReaderRelease` makes once no thread is left. -/
def close (s : SharedReader δ v) : SharedReader δ v :=
  { s.setReader { s.reader with
      cursor := (D.setRowArraySize (D.closeCursor s.reader.cursor) 1).2 } with
    caller := .closed }

/-- `ReaderNextBatch` has the batch and wants another rowset. -/
def Wants (s : SharedReader δ v) (batch : Batch v) : Prop :=
  s.caller = .idle ∧ s.session.outcome = .reading ∧ s.session.batch = some batch ∧
    s.session.wantsRowset batch = true

/-- One step of either thread. -/
inductive Step : SharedReader δ v → Party → SharedReader δ v → Prop
  | begin {s : SharedReader δ v} (started : Bool) (hidle : s.caller = .idle)
      (hreading : s.session.outcome = .reading) (hnone : s.session.batch = none) :
      Step s .caller (s.begin D started)
  | finish {s : SharedReader δ v} {batch : Batch v} (hidle : s.caller = .idle)
      (hreading : s.session.outcome = .reading) (hbatch : s.session.batch = some batch)
      (hfull : s.session.wantsRowset batch = false) :
      Step s .caller { s with session := s.session.finish batch }
  | turn {s : SharedReader δ v} {batch : Batch v} (hwants : s.Wants batch)
      (halone : s.fetcher = .absent) :
      Step s .caller { s with session := s.session.turn D batch }
  | take {s : SharedReader δ v} {batch : Batch v} {slot : Slot v} (hwants : s.Wants batch)
      (hthread : s.fetcher ≠ .absent) (hfilled : 0 < s.ring.filled)
      (hslot : s.ring.slots s.ring.head = some slot) : Step s .caller (s.take slot)
  | drained {s : SharedReader δ v} {batch : Batch v} (hwants : s.Wants batch)
      (hthread : s.fetcher ≠ .absent) (hempty : s.ring.filled = 0)
      (hover : s.fetchFailed.isSome = true ∨ s.fetchDone = true) :
      Step s .caller { s with caller := .stopping (.answer s.fetchFailed) }
  | convert {s : SharedReader δ v} {batch : Batch v} {rowset : Rowset v}
      {fetched firstRow : Nat} {needsRepair : Bool} (hholding : s.caller = .holding)
      (hbatch : s.session.batch = some batch)
      (hslot : s.ring.slots s.curSlot = some (.rows rowset fetched firstRow needsRepair)) :
      Step s .caller (s.convert D rowset fetched batch)
  | release {s : SharedReader δ v} {status : Option AdbcError}
      (hreleasing : s.caller = .releasing status) : Step s .caller (s.release status)
  | stop {s : SharedReader δ v} {why : Joins} (hstopping : s.caller = .stopping why) :
      Step s .caller { s with fetchStop := true, caller := .joining why }
  | join {s : SharedReader δ v} {why : Joins} (hjoining : s.caller = .joining why)
      (hexited : s.fetcher = .exited) : Step s .caller (s.joined why)
  | handBack {s : SharedReader δ v} {batch : Batch v} {rowset : Rowset v}
      {fetched firstRow : Nat} {needsRepair : Bool} (hrepairing : s.caller = .repairing)
      (hbatch : s.session.batch = some batch)
      (hslot : s.ring.slots s.curSlot = some (.rows rowset fetched firstRow needsRepair)) :
      Step s .caller (s.handBack D fetched firstRow batch)
  | close {s : SharedReader δ v} (hidle : s.caller = .idle) (hnone : s.session.batch = none) :
      Step s .caller
        { s with caller := if s.fetcher = .absent then .closing else .stopping .release }
  | closed {s : SharedReader δ v} (hclosing : s.caller = .closing) :
      Step s .caller (s.close D)
  | leave {s : SharedReader δ v} (htop : s.fetcher = .top) (hstop : s.fetchStop = true) :
      Step s .fetchThread { s with fetcher := .exited }
  | room {s : SharedReader δ v} (htop : s.fetcher = .top) (hstop : s.fetchStop = false)
      (hroom : s.ring.filled < s.ring.nslots) :
      Step s .fetchThread { s with fetcher := .filling s.ring.tail }
  | bind {s : SharedReader δ v} {sl : Nat} (hfilling : s.fetcher = .filling sl) :
      Step s .fetchThread (s.bindInto D sl)
  | fetch {s : SharedReader δ v} {sl : Nat} (hbound : s.fetcher = .bound sl) :
      Step s .fetchThread (s.fetchInto D sl)
  | publish {s : SharedReader δ v} {sl : Nat} {slot : Slot v}
      (hpublishing : s.fetcher = .publishing sl) (hslot : s.ring.slots sl = some slot) :
      Step s .fetchThread (s.publish sl slot)
  | fail {s : SharedReader δ v} {e : AdbcError} (hfailing : s.fetcher = .failing e) :
      Step s .fetchThread { s with fetchFailed := some e, fetcher := .exited }

/-- A reader before its first batch. -/
def start (prefetch : Nat) (r : OdbcReader δ) : SharedReader δ v :=
  { session := .start r, prefetch }

end SharedReader

end AdbcBridge.Reader
