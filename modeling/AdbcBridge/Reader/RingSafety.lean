import AdbcBridge.Reader.Calls
import AdbcBridge.Reader.TableDriver
import AdbcBridge.Reader.Threads

/-!
# The ring is safe

In every state the two threads reach, the slots in use are the consecutive ones from the
head, taken in the order they were fetched; the fetch thread is at work on none of them,
the caller leaves the handle alone while there is a thread, and the end or a failure of
the fetch is answered only once every rowset has been taken.
-/

namespace AdbcBridge.Reader

open AdbcBridge.Adbc AdbcBridge.Lib

variable {δ v : Type*}

namespace SharedReader

namespace Safe

variable {D : Driver δ v} {s s' : SharedReader δ v} {l : List (Slot v)}

/-! What the steps do to the handle and the slots. -/

theorem bindInto_cursor (sl : Nat) :
    (s.bindInto D sl).reader.cursor = (bindSlot D s.reader s.reader.cursor sl).2 := by
  unfold SharedReader.bindInto
  dsimp only
  split <;> rename_i heq <;> exact (congrArg Prod.snd heq).symm

theorem bindInto_kept (sl : Nat) : (s.bindInto D sl).reader.kept = s.reader.kept := by
  unfold SharedReader.bindInto
  dsimp only
  split <;> rfl

theorem fetchInto_kept (sl : Nat) : (s.fetchInto D sl).reader.kept = s.reader.kept := by
  unfold SharedReader.fetchInto
  split <;> rfl

theorem bindInto_slots (sl : Nat) : (s.bindInto D sl).ring.slots = (s.ring.clear sl).slots := by
  unfold SharedReader.bindInto
  dsimp only
  split <;> rfl

theorem fetchInto_cursor (sl : Nat) :
    (s.fetchInto D sl).reader.cursor = (D.fetch s.reader.cursor).2 := by
  unfold SharedReader.fetchInto
  split <;> rename_i heq <;> exact (congrArg Prod.snd heq).symm

theorem fetchInto_slots (sl sl' : Nat) (hne : sl' ≠ sl) :
    (s.fetchInto D sl).ring.slots sl' = s.ring.slots sl' := by
  unfold SharedReader.fetchInto
  split
  · exact Function.update_of_ne hne ..
  · rfl
  · exact Function.update_of_ne hne ..

/-- What the caller makes of a slot in hand. -/
theorem convert_held {rowset : Rowset v} {fetched : Nat} (hthreaded : Threaded s.reader)
    (hfit : rowsetTruncated s.reader rowset fetched = false) (batch : Batch v) :
    s.convert D rowset fetched batch =
      let bulk := rowsetIsBulk rowset fetched
      match heldRowset s.reader rowset fetched bulk batch with
      | .error e => { s.setReader (popped s.reader bulk) with caller := .releasing (some e) }
      | .ok batch =>
          { s with
            session := { s.session with
              reader := popped s.reader bulk
              batch := some batch }
            caller := .releasing none } := by
  have hheld := convertRowset_held D (r := popped s.reader (rowsetIsBulk rowset fetched))
    hthreaded.cols hthreaded.allBound hfit (rowsetIsBulk rowset fetched) s.reader.cursor batch
  have hsame : heldRowset (popped s.reader (rowsetIsBulk rowset fetched)) rowset fetched
      (rowsetIsBulk rowset fetched) batch =
        heldRowset s.reader rowset fetched (rowsetIsBulk rowset fetched) batch := rfl
  rw [hsame] at hheld
  unfold SharedReader.convert
  dsimp only
  rw [show (popped s.reader (rowsetIsBulk rowset fetched)).cursor = s.reader.cursor from rfl,
    hheld]
  cases heldRowset s.reader rowset fetched (rowsetIsBulk rowset fetched) batch <;> rfl

/-- The caller leaves the handle alone while there is a thread. -/
theorem caller_cursor (h : s.Safe l) (hstep : Step D s .caller s')
    (hthread : s.fetcher ≠ .absent) : s'.reader.cursor = s.reader.cursor := by
  cases hstep with
  | begin started _ _ _ =>
      rw [begin_threaded (h.threaded hthread)]
      dsimp only
      split <;> rfl
  | @finish batch =>
      show (s.session.finish batch).reader.cursor = s.reader.cursor
      unfold Session.finish
      split <;> rfl
  | turn _ halone => exact absurd halone hthread
  | take => rfl
  | drained => rfl
  | convert hholding _ hslot =>
      have ⟨_, _, _, hfit, _⟩ := h.in_hand hholding hslot
      have hthreaded := h.threaded hthread
      rw [convert_held hthreaded hfit]
      dsimp only
      split <;> rfl
  | @release status _ =>
      cases status <;> rfl
  | stop => rfl
  | @join why _ _ =>
      cases why with
      | answer failed => cases failed <;> rfl
      | _ => rfl
  | handBack hrepairing _ _ =>
      have hcaller := h.caller
      rw [CallerOk, hrepairing] at hcaller
      exact absurd hcaller.1 hthread
  | close => rfl
  | closed hclosing =>
      have hcaller := h.caller
      rw [CallerOk, hclosing] at hcaller
      exact absurd hcaller hthread

/-- The fetch thread binds and writes no slot that is in use. -/
theorem fetchThread_slots (h : s.Safe l) (hstep : Step D s .fetchThread s') :
    (∀ sl, s.ring.full sl ≠ none → s'.ring.slots sl = s.ring.slots sl) ∧
      D.Calls (fun c => ∀ sl, c.Aims sl → s.ring.full sl = none) s.reader.cursor
        s'.reader.cursor := by
  cases hstep with
  | leave => exact ⟨fun _ _ => rfl, .refl⟩
  | room => exact ⟨fun _ _ => rfl, .refl⟩
  | @bind sl hfilling =>
      have hring := h.ring
      rw [hfilling] at hring
      have hfree : s.ring.full sl = none := hring.free
      refine ⟨fun sl' hused => ?_, ?_⟩
      · rw [bindInto_slots, SlotRing.clear_slots, Function.update_of_ne]
        rintro rfl
        exact hused hfree
      · rw [bindInto_cursor]
        refine (bindSlot_calls D s.reader _ sl).mono fun c hc sl' hc' => ?_
        rw [hc.aims_eq hc']
        exact hfree
  | @fetch sl hbound =>
      have hring := h.ring
      rw [hbound] at hring
      have hfree : s.ring.full sl = none := hring.free
      refine ⟨fun sl' hused => fetchInto_slots sl sl' ?_, ?_⟩
      · rintro rfl
        exact hused hfree
      · rw [fetchInto_cursor]
        exact .call (c := .fetch) nofun rfl
  | publish => exact ⟨fun _ _ => rfl, .refl⟩
  | fail => exact ⟨fun _ _ => rfl, .refl⟩

/-- What the caller waits for when it joins the thread to answer. -/
theorem taken_all (h : s.Safe l) {why : Joins} (hjoining : s.caller = .joining why)
    (hwhy : why = .ended ∨ ∃ failed, why = .answer failed) (hexited : s.fetcher = .exited) :
    s.ring.taken = s.ring.fetched := by
  have hcaller := h.caller
  rw [CallerOk, hjoining] at hcaller
  have hhistory := h.ring.history
  rw [pending, hexited] at hhistory
  rcases hwhy with rfl | ⟨failed, rfl⟩
  · obtain ⟨-, hhand, hl⟩ := hcaller
    simpa [hhand, hl] using hhistory
  · obtain ⟨-, -, hhand, hl, -⟩ := hcaller
    simpa [hhand, hl] using hhistory

/-- The caller answers the end or a failure with every rowset taken, or the failure of the
slot in hand. -/
theorem answers (h : s.Safe l) (hthread : s.fetcher ≠ .absent)
    (hstep : Step D s .caller s') (hdone : s'.reader.done = true) :
    s.reader.done = true ∨ (∃ e, s.caller = .releasing (some e)) ∨
      s.ring.taken = s.ring.fetched := by
  cases hstep with
  | begin started _ _ _ =>
      rw [begin_threaded (h.threaded hthread)] at hdone
      dsimp only at hdone
      split at hdone <;> exact .inl hdone
  | @finish batch =>
      refine .inl (Eq.trans ?_ hdone)
      show s.reader.done = (s.session.finish batch).reader.done
      unfold Session.finish
      split <;> rfl
  | turn _ halone => exact absurd halone hthread
  | take => exact .inl hdone
  | drained => exact .inl hdone
  | convert hholding _ hslot =>
      have ⟨_, _, _, hfit, _⟩ := h.in_hand hholding hslot
      rw [convert_held (h.threaded hthread) hfit] at hdone
      dsimp only at hdone
      split at hdone <;> exact .inl hdone
  | @release status hreleasing =>
      cases status with
      | none => exact .inl hdone
      | some e => exact .inr (.inl ⟨e, hreleasing⟩)
  | stop => exact .inl hdone
  | @join why hjoining hexited =>
      cases why with
      | ended => exact .inr (.inr (h.taken_all hjoining (.inl rfl) hexited))
      | answer failed => exact .inr (.inr (h.taken_all hjoining (.inr ⟨failed, rfl⟩) hexited))
      | repair => exact .inl hdone
      | release => exact .inl hdone
  | handBack hrepairing _ _ =>
      have hcaller := h.caller
      rw [CallerOk, hrepairing] at hcaller
      exact absurd hcaller.1 hthread
  | close => exact .inl hdone
  | closed hclosing =>
      have hcaller := h.caller
      rw [CallerOk, hclosing] at hcaller
      exact absurd hcaller hthread

end Safe

/-- The ODBC calls so far. -/
def calls (s : SharedReader (δ × List Call) v) : List Call := s.reader.cursor.2

/-- The safety of the ring in a state and in the steps from it.  The slots that are full
hold a rowset that is unread or in conversion. -/
structure RingSafe (D : Driver δ v) (s : SharedReader (δ × List Call) v) : Prop where
  filled_le : s.ring.filled ≤ s.ring.nslots
  /-- The slots in use are the `filled` ones from the head, and what has been taken, what
  is left in them and what is not yet published is what has been fetched, in order. -/
  window : ∃ l, s.ring.unread.Holds s.ring.nslots l ∧
    s.ring.taken ++ (if s.ring.inHand then l.tail else l) ++ s.pending.toList = s.ring.fetched
  content : ∀ sl x, s.ring.full sl = some x → s.ring.slots sl = some x
  apart : ∀ sl, s.fetcher.slot = some sl → s.ring.full sl = none
  fetchThread : ∀ s', Step D.logged s .fetchThread s' →
    (∀ sl, s.ring.full sl ≠ none → s'.ring.slots sl = s.ring.slots sl) ∧
      ∃ m, s'.calls = s.calls ++ m ∧ ∀ c ∈ m, ∀ sl, c.Aims sl → s.ring.full sl = none
  caller : s.fetcher ≠ .absent → ∀ s', Step D.logged s .caller s' → s'.calls = s.calls
  answers : s.fetcher ≠ .absent → ∀ s', Step D.logged s .caller s' → s'.reader.done = true →
    s.reader.done = true ∨ (∃ e, s.caller = .releasing (some e)) ∨
      s.ring.taken = s.ring.fetched

/-- In every state that the fetch thread and the caller reach, in whatever order they take
their steps, the ring is safe. -/
theorem ringSafe_run {D : Driver δ v} {prefetch : Nat} {opts : OdbcReaderOptions}
    {declared : List (List Char × Declared)} {cursor : δ} {trace : List Party}
    {s : SharedReader (δ × List Call) v}
    (run : Run (Step D.logged) (start prefetch (readerInit opts declared (cursor, []))) trace s) :
    RingSafe D s := by
  obtain ⟨l, h⟩ := safe_run run
  exact
    { filled_le := h.ring.filled_le
      window := ⟨l, h.ring.holds, h.ring.history⟩
      content := h.ring.memory
      apart := by
        intro sl hsl
        have hring := h.ring
        rw [hsl] at hring
        exact hring.free
      fetchThread := fun s' hstep =>
        ⟨(h.fetchThread_slots hstep).1, (h.fetchThread_slots hstep).2.logged⟩
      caller := fun hthread s' hstep => congrArg Prod.snd (h.caller_cursor hstep hthread)
      answers := fun hthread s' hstep hdone => h.answers hthread hstep hdone }

/-- A table of one text column and two rows. -/
def twoRows : Table Nat where
  rows := [fun _ => ⟨⟨1, fun _ => .ok 7⟩, 7⟩, fun _ => ⟨⟨1, fun _ => .ok 8⟩, 8⟩]
  scrolls := true

def twoRowsReader : OdbcReader (TableCursor × List Call) :=
  readerInit { batchSize := 2, batchSize_pos := Nat.two_pos } [(['t'], .text 4 0)] ({}, [])

/-- A reader of it that has fetched both rows and taken them. -/
theorem ringSafe_taken :
    ∃ trace s, Run (Step twoRows.driver.logged) (start 1 twoRowsReader) trace s ∧
      s.ring.inHand = true ∧ RingSafe twoRows.driver s := by
  have begun : Run (Step twoRows.driver.logged) (start 1 twoRowsReader) [.caller] _ :=
    Run.nil.snoc (.begin true rfl rfl rfl)
  have fetched := ((begun.snoc (.room rfl rfl (by decide))).snoc (.bind rfl)).snoc (.fetch rfl)
  have taken := (fetched.snoc (.publish rfl rfl)).snoc
    (.take ⟨rfl, rfl, rfl, rfl⟩ nofun (by decide) rfl)
  exact ⟨_, _, taken, rfl, ringSafe_run taken⟩

end SharedReader

end AdbcBridge.Reader
