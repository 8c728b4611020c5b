import AdbcBridge.Lib.History
import AdbcBridge.Reader.RingSafety

/-!
# The rowset of a fixed-rowset driver

A reader on a driver whose rowset is fixed for the life of a cursor sets
`SQL_ATTR_ROW_ARRAY_SIZE` before the first fetch and not to another value while the cursor
is open, unless the fetch thread hands a rowset back to be repaired: that repair sets it to
one and back.
-/

namespace AdbcBridge.Reader.SharedReader

open AdbcBridge.Adbc AdbcBridge.Lib

variable {δ v : Type*}

/-- The rowset size the driver has taken last; one row where it has taken none. -/
def sizeInForce (l : List Call) : Nat :=
  l.foldl (fun size c => match c with
    | .setRowArraySize rows true => rows
    | _ => size) 1

/-- A cursor that has been fetched from is open. -/
def FetchedFrom (l : List Call) : Prop := Since Call.Fetches (· = .closeCursor) l

/-- The rowset size is set to no other value between the first fetch and the release. -/
def NeverResized (l : List Call) : Prop :=
  Historically (fun pre c => ∀ rows accepted, c = .setRowArraySize rows accepted →
    FetchedFrom pre → rows = sizeInForce pre) l

theorem neverResized_of_not_fetches {l : List Call} (h : ∀ c ∈ l, ¬ c.Fetches) :
    NeverResized l := by
  rintro pre c post rfl rows accepted _ ⟨pre', a, post', rfl, ha, _⟩
  exact absurd ha (h a (by simp))

theorem NeverResized.append {l m : List Call} (h : NeverResized l)
    (hm : ∀ c ∈ m, ¬ c.Resizes) : NeverResized (l ++ m) := by
  refine Historically.append h fun pre c hc rows accepted heq => ?_
  rw [heq] at hc
  exact absurd trivial (hm _ hc)

/-- After the cursor has been closed the size may be set. -/
theorem NeverResized.close {l : List Call} (h : NeverResized l) (rows : Nat) (accepted : Bool) :
    NeverResized (l ++ [.closeCursor] ++ [.setRowArraySize rows accepted]) := by
  refine historically_snoc.2 ⟨h.append (by simp [Call.Resizes]), fun _ _ _ hopen => ?_⟩
  exact absurd hopen (not_since_snoc id rfl)

/-- What holds in every state of a reader on such a driver. -/
structure Steady (s : SharedReader (δ × List Call) v) : Prop where
  fixed : s.reader.opts.fixedRowset = true
  resized : NeverResized s.calls
  unread : s.reader.bound = false → ∀ c ∈ s.calls, ¬ c.Fetches

namespace Steady

variable {D : Driver δ v} {s s' : SharedReader (δ × List Call) v} {l : List (Slot v)}

/-- Calls that do not resize, on a reader that has been bound. -/
theorem calls (h : s.Steady) (hopts : s'.reader.opts = s.reader.opts)
    (hcalls : D.logged.Calls (fun c => ¬ c.Resizes) s.reader.cursor s'.reader.cursor)
    (hbound : s'.reader.bound = true) : s'.Steady where
  fixed := hopts ▸ h.fixed
  resized := by
    obtain ⟨m, hm, hsteady⟩ := hcalls.logged
    rw [SharedReader.calls, hm]
    exact h.resized.append hsteady
  unread := fun hfalse => absurd (hbound.symm.trans hfalse) nofun

/-- No calls at all. -/
theorem same (h : s.Steady) (hopts : s'.reader.opts = s.reader.opts)
    (hcursor : s'.reader.cursor = s.reader.cursor) (hbound : s'.reader.bound = s.reader.bound) :
    s'.Steady where
  fixed := hopts ▸ h.fixed
  resized := by
    rw [SharedReader.calls, hcursor]
    exact h.resized
  unread := by
    rw [SharedReader.calls, hcursor, hbound]
    exact h.unread

/-- Calls before the first fetch. -/
theorem binds (h : s.Steady) (hbound : s.reader.bound = false)
    (hopts : s'.reader.opts = s.reader.opts)
    (hcalls : D.logged.Calls (fun c => ¬ c.Fetches) s.reader.cursor s'.reader.cursor) :
    s'.Steady := by
  obtain ⟨m, hm, hfetches⟩ := hcalls.logged
  have hnone : ∀ c ∈ s'.calls, ¬ c.Fetches := by
    rw [SharedReader.calls, hm]
    intro c hc
    rcases List.mem_append.1 hc with hc | hc
    · exact h.unread hbound c hc
    · exact hfetches c hc
  exact
    { fixed := hopts ▸ h.fixed
      resized := neverResized_of_not_fetches hnone
      unread := fun _ => hnone }

/-- On a fixed rowset the start of a batch restores nothing. -/
theorem restore {r : OdbcReader (δ × List Call)} (hfixed : r.opts.fixedRowset = true) :
    (Session.restoreRowset D.logged r).cursor = r.cursor := by
  unfold Session.restoreRowset
  rw [resizeRowset_fixed D.logged hfixed]
  split <;> rfl

theorem begin_bound (h : s.Steady) (hbound : s.reader.bound = true) :
    (s.session.begin D.logged).reader.opts = s.reader.opts ∧
      (s.session.begin D.logged).reader.cursor = s.reader.cursor ∧
      (s.session.begin D.logged).reader.bound = s.reader.bound := by
  unfold Session.begin
  split
  · exact ⟨rfl, rfl, rfl⟩
  · have hkept := Session.restoreRowset_kept D.logged s.session.reader
    exact ⟨congrArg Kept.opts hkept, restore h.fixed, congrArg Kept.bound hkept⟩

theorem begin_unbound (h : s.Steady) (hbound : s.reader.bound = false) :
    (s.session.begin D.logged).reader.opts = s.reader.opts ∧
      D.logged.Calls (fun c => ¬ c.Fetches) s.reader.cursor
        (s.session.begin D.logged).reader.cursor := by
  unfold Session.begin
  split
  · exact ⟨rfl, .refl⟩
  · rw [if_neg (by simp [hbound])]
    have hcalls := readerBind_calls D.logged s.session.reader
    have hopts : (readerBind D.logged s.session.reader).2.opts = s.session.reader.opts :=
      congrArg (fun r : OdbcReader Unit => r.opts) (readerBind_unsized D.logged s.session.reader)
    split <;> rename_i heq <;> rw [heq] at hcalls hopts
    · exact ⟨hopts, hcalls⟩
    · have hfixed : s.session.reader.opts.fixedRowset = true := h.fixed
      rename_i r
      exact ⟨(congrArg Kept.opts (Session.restoreRowset_kept D.logged r)).trans hopts,
        (restore (r := r) (by rw [hopts]; exact hfixed)).symm ▸ hcalls⟩

theorem begin (h : s.Steady) (started : Bool) : (s.begin D.logged started).Steady := by
  cases hbound : s.reader.bound with
  | true =>
      have ⟨hopts, hcursor, hsame⟩ := h.begin_bound (D := D) hbound
      have hbegin : s.begin D.logged started = { s with session := s.session.begin D.logged } := by
        unfold SharedReader.begin
        simp [hbound]
      rw [hbegin]
      exact h.same hopts hcursor hsame
  | false =>
      have ⟨hopts, hcalls⟩ := h.begin_unbound (D := D) hbound
      unfold SharedReader.begin
      dsimp only
      split <;> exact h.binds hbound hopts hcalls

theorem step {p : Party} (h : s.Steady) (hsafe : s.Safe l) (hstep : Step D.logged s p s')
    (hrepair : s.caller ≠ .repairing) : s'.Steady := by
  cases hstep with
  | begin started _ _ _ => exact h.begin started
  | @finish batch =>
      have hreader : (s.session.finish batch).reader = s.session.reader := by
        unfold Session.finish
        split <;> rfl
      exact h.same (congrArg OdbcReader.opts hreader) (congrArg OdbcReader.cursor hreader)
        (congrArg OdbcReader.bound hreader)
  | @turn batch hwants _ =>
      have hkept := Session.turn_kept D.logged s.session batch
      exact h.calls (congrArg Kept.opts hkept) (Session.turn_calls D.logged _ h.fixed batch)
        ((congrArg Kept.bound hkept).trans (hsafe.busy (by simp [hwants.2.2.1])))
  | take => exact h.same rfl rfl rfl
  | drained => exact h.same rfl rfl rfl
  | convert hholding _ hslot =>
      have ⟨hthread, _, _, hfit, _⟩ := hsafe.in_hand hholding hslot
      rw [Safe.convert_held (hsafe.threaded hthread) hfit]
      dsimp only
      split <;> exact h.same rfl rfl rfl
  | @release status _ => cases status <;> exact h.same rfl rfl rfl
  | stop => exact h.same rfl rfl rfl
  | @join why _ _ =>
      cases why with
      | answer failed => cases failed <;> exact h.same rfl rfl rfl
      | _ => exact h.same rfl rfl rfl
  | handBack hrepairing _ _ => exact absurd hrepairing hrepair
  | close => exact h.same rfl rfl rfl
  | closed =>
      exact
        { fixed := h.fixed
          resized := h.resized.close 1 _
          unread := by
            intro hbound c hc
            rcases List.mem_append.1 hc with hc | hc
            · rcases List.mem_append.1 hc with hc | hc
              · exact h.unread hbound c hc
              · exact List.mem_singleton.1 hc ▸ id
            · exact List.mem_singleton.1 hc ▸ id }
  | leave => exact h.same rfl rfl rfl
  | room => exact h.same rfl rfl rfl
  | @bind sl hfilling =>
      have hthread : s.fetcher ≠ .absent := by simp [hfilling]
      have hkept := Safe.bindInto_kept (D := D.logged) (s := s) sl
      refine h.calls (D := D) (congrArg Kept.opts hkept) ?_
        ((congrArg Kept.bound hkept).trans (hsafe.threaded hthread).bound)
      rw [Safe.bindInto_cursor]
      exact (bindSlot_calls D.logged s.reader _ sl).mono fun _ hc => Call.Aims.not_resizes hc
  | @fetch sl hbound =>
      have hthread : s.fetcher ≠ .absent := by simp [hbound]
      have hkept := Safe.fetchInto_kept (D := D.logged) (s := s) sl
      refine h.calls (D := D) (congrArg Kept.opts hkept) ?_
        ((congrArg Kept.bound hkept).trans (hsafe.threaded hthread).bound)
      rw [Safe.fetchInto_cursor]
      exact .call (c := .fetch) id rfl
  | publish => exact h.same rfl rfl rfl
  | fail => exact h.same rfl rfl rfl

end Steady

/-- On a driver of fixed rowsets the rowset size is set to no other value between the first
fetch and the release, in every run in which no rowset the fetch thread has handed back is
repaired. -/
theorem neverResized_run {D : Driver δ v} {prefetch : Nat} {opts : OdbcReaderOptions}
    {declared : List (List Char × Declared)} {cursor : δ} {trace : List Party}
    {s : SharedReader (δ × List Call) v} (hfixed : opts.fixedRowset = true)
    (run : Run (fun s p s' => Step D.logged s p s' ∧ s.caller ≠ .repairing)
      (start prefetch (readerInit opts declared (cursor, []))) trace s) :
    NeverResized s.calls := by
  have hinv : ∃ l, s.Safe l ∧ s.Steady := by
    refine run.state_invariant (I := fun s => ∃ l, s.Safe l ∧ s.Steady) ?_ ?_
    · exact ⟨[], .start prefetch opts declared _,
        ⟨hfixed, neverResized_of_not_fetches nofun, fun _ => nofun⟩⟩
    · intro s p s' ⟨l, hsafe, hsteady⟩ ⟨hstep, hrepair⟩
      obtain ⟨l', hsafe'⟩ := hsafe.step hstep
      exact ⟨l', hsafe', hsteady.step hsafe hstep hrepair⟩
  obtain ⟨_, _, hsteady⟩ := hinv
  exact hsteady.resized

/-- A reader on such a driver, over a text column declared four characters wide. -/
def fixedReader : OdbcReader (TableCursor × List Call) :=
  readerInit { batchSize := 2, batchSize_pos := Nat.two_pos, fixedRowset := true }
    [(['t'], .text 4 0)] ({}, [])

theorem neverResized_fixedReader :
    ∃ trace s, Run (fun s p s' => Step twoRows.driver.logged s p s' ∧ s.caller ≠ .repairing)
        (start 1 fixedReader) trace s ∧ Call.fetch ∈ s.calls ∧ NeverResized s.calls := by
  have begun : Run (fun s p s' => Step twoRows.driver.logged s p s' ∧ s.caller ≠ .repairing)
      (start 1 fixedReader) [.caller] _ := Run.nil.snoc ⟨.begin true rfl rfl rfl, nofun⟩
  have bound := (begun.snoc ⟨.room rfl rfl (by decide), nofun⟩).snoc ⟨.bind rfl, nofun⟩
  have fetched := bound.snoc ⟨.fetch rfl, nofun⟩
  exact ⟨_, _, fetched, by decide, neverResized_run rfl fetched⟩

/-- A table of one value, longer than its column declares. -/
def longValue : Table Nat where
  rows := [fun _ => ⟨⟨100, fun _ => .ok 7⟩, 8⟩]
  scrolls := false

/-- The calls of a reader up to the repair of the rowset that holds it. -/
def longValueCalls : List Call :=
  [.setRowArraySize 2 true, .setRowsFetchedPtr none, .setRowStatusPtr 0,
    .setRowsFetchedPtr (some 0), .bindCol 0 0, .setRowStatusPtr 0, .setRowsFetchedPtr (some 0),
    .bindCol 0 0, .fetch, .setRowStatusPtr 0, .setRowsFetchedPtr (some 0), .bindCol 0 0,
    .setRowArraySize 1 true, .fetchAbsolute 1, .setRowArraySize 2 true]

theorem longValueCalls_resizes : ¬ NeverResized longValueCalls := by
  intro h
  have hsize := h (longValueCalls.take 12) (.setRowArraySize 1 true) (longValueCalls.drop 13) rfl
    1 true rfl ⟨longValueCalls.take 8, .fetch, (longValueCalls.take 12).drop 9, rfl, trivial,
      by decide⟩
  exact absurd hsize (by decide)

/-- The repair of a rowset handed back sets the rowset size of an open cursor. -/
theorem handBack_resizes :
    ∃ trace s, Run (Step longValue.driver.logged) (start 1 fixedReader) trace s ∧
      s.reader.opts.fixedRowset = true ∧ ¬ NeverResized s.calls := by
  have begun : Run (Step longValue.driver.logged) (start 1 fixedReader) [.caller] _ :=
    Run.nil.snoc (.begin true rfl rfl rfl)
  have fetched := ((begun.snoc (.room rfl rfl (by decide))).snoc (.bind rfl)).snoc (.fetch rfl)
  have taken := (fetched.snoc (.publish rfl rfl)).snoc
    (.take ⟨rfl, rfl, rfl, rfl⟩ nofun (by decide) rfl)
  have joined := (taken.snoc (.stop rfl)).snoc (.join rfl rfl)
  have repaired := joined.snoc (.handBack rfl rfl rfl)
  refine ⟨_, _, repaired, rfl, fun h => longValueCalls_resizes ?_⟩
  exact cast (congrArg NeverResized (by decide)) h

end AdbcBridge.Reader.SharedReader
