import AdbcBridge.Lib.Run
import AdbcBridge.Reader.Prefetch
import Mathlib.Data.List.GetD

/-!
# The two threads

What holds of the shared reader in every state its two threads reach: the ring, where each
thread can be while the other is somewhere, and what the reader is like for as long as
there is a fetch thread.
-/

namespace AdbcBridge.Reader

open AdbcBridge.Adbc AdbcBridge.Lib

variable {δ v : Type*}

/-- What `PrefetchRefusalReason` makes sure of, for as long as there is a thread. -/
structure Threaded (r : OdbcReader δ) : Prop where
  bound : r.bound = true
  allBound : r.allBound = true
  cols : ∀ i < r.ncols, (r.col i).bound = true
  restore : r.rowsetRestore = false
  adapt : r.adaptOpen = false
  block : 1 < r.rowsPerFetch
  counts : r.noRowsFetchedPtr = false

/-- A slot needs a repair if and only if a value in it outgrew its buffer. -/
def Slot.Flagged (r : OdbcReader δ) : Slot v → Prop
  | .eos => True
  | .rows rowset fetched _ needsRepair => rowsetTruncated r rowset fetched = needsRepair

theorem prefetchRefusalReason_eq_none {r : OdbcReader δ} (h : prefetchRefusalReason r = none) :
    r.allBound = true ∧ 1 < r.rowsPerFetch ∧ r.noRowsFetchedPtr = false ∧
      ∀ c ∈ r.cols, c.clipped = false := by
  unfold prefetchRefusalReason at h
  split at h
  · cases h
  · split at h
    · cases h
    · split at h
      · cases h
      · split at h
        · cases h
        · simp_all

theorem slotCount_pos (prefetch : Nat) (r : OdbcReader δ) : 0 < slotCount prefetch r := by
  unfold slotCount
  split <;> omega

theorem refusal_of_slotCount {prefetch : Nat} {r : OdbcReader δ}
    (h : 1 < slotCount prefetch r) : prefetchRefusalReason r = none := by
  unfold slotCount at h
  split at h
  · rename_i hprefetch
    exact hprefetch.2
  · exact absurd h (Nat.lt_irrefl 1)

/-- A reader that `ReaderBind` has bound may have a thread where it gets more than one slot. -/
theorem threaded_of_slotCount {D : Driver δ v} {r r' : OdbcReader δ} {prefetch : Nat}
    (hbind : readerBind D r = (none, r')) (hrestore : r.rowsetRestore = false)
    (hslots : 1 < slotCount prefetch r') :
    Threaded { r' with adaptOpen := r'.adaptOpen && decide (slotCount prefetch r' ≤ 1) } := by
  have ⟨hall, hblock, hcounts, _⟩ := prefetchRefusalReason_eq_none (refusal_of_slotCount hslots)
  have hunsized := readerBind_unsized D r
  rw [hbind] at hunsized
  have hcols : r'.allBound = r'.cols.all (·.bound) := by
    have hallBound : r'.unsized.allBound = (sizeRowset r).unsized.allBound :=
      congrArg OdbcReader.allBound hunsized
    have hsame : r'.unsized.cols = (sizeRowset r).unsized.cols :=
      congrArg OdbcReader.cols hunsized
    exact hallBound.trans
      (congrArg (fun cols : List OdbcColumn => cols.all (·.bound)) hsame.symm)
  exact
    { bound := (readerBind_bound D hbind : r'.bound = true)
      allBound := hall
      cols := by
        intro i hi
        rw [hcols, List.all_eq_true] at hall
        have hget : r'.col i = r'.cols[i] := List.getD_eq_getElem _ _ hi
        exact (congrArg OdbcColumn.bound hget).trans (hall _ (List.getElem_mem hi))
      restore := (congrArg OdbcReader.rowsetRestore hunsized).trans hrestore
      adapt := by simp [Nat.not_le.2 hslots]
      block := hblock
      counts := hcounts }

theorem Slot.Flagged.congr {r r' : OdbcReader δ} {x : Slot v} (h : x.Flagged r)
    (hcols : r'.cols = r.cols) : x.Flagged r' := by
  cases x with
  | eos => trivial
  | rows rowset fetched firstRow needsRepair =>
      simp only [Slot.Flagged, rowsetTruncated, OdbcReader.ncols, OdbcReader.col, hcols] at h ⊢
      exact h

namespace SharedReader

/-- What the fetch thread has fetched and not yet published. -/
def pending (s : SharedReader δ v) : Option (Slot v) :=
  match s.fetcher with
  | .publishing sl => s.ring.slots sl
  | _ => none

/-- The last slot is the caller's to repair. -/
def HandedBack (s : SharedReader δ v) (l : List (Slot v)) : Prop :=
  s.ring.inHand = true ∧ s.curSlot = s.ring.head ∧
    ∃ rowset fetched firstRow, l = [.rows rowset fetched firstRow true]

/-- What the caller joins the thread for is the case. -/
def JoinsOk (s : SharedReader δ v) (l : List (Slot v)) : Joins → Prop
  | .ended => s.ring.inHand = true ∧ l = [.eos]
  | .answer failed =>
      s.fetcher = .exited ∧ s.ring.inHand = false ∧ l = [] ∧ failed = s.fetchFailed ∧
        failed.isSome = true
  | .repair => s.HandedBack l
  | .release => s.ring.inHand = false

/-- What the caller relies on. -/
def CallerOk (s : SharedReader δ v) (l : List (Slot v)) : Prop :=
  match s.caller with
  | .idle => s.fetcher ≠ .absent → s.ring.inHand = false
  | .holding =>
      s.fetcher ≠ .absent ∧ s.ring.inHand = true ∧ s.curSlot = s.ring.head ∧
        ∃ rowset fetched firstRow rest, l = .rows rowset fetched firstRow false :: rest
  | .releasing _ =>
      s.fetcher ≠ .absent ∧ s.ring.inHand = true ∧
        ∃ rowset fetched firstRow rest, l = .rows rowset fetched firstRow false :: rest
  | .stopping why | .joining why => s.fetcher ≠ .absent ∧ s.JoinsOk l why
  | .repairing => s.fetcher = .absent ∧ s.HandedBack l
  | .closing | .closed => s.fetcher = .absent

/-- The fetch thread has not left. -/
def Running (s : SharedReader δ v) : Prop := s.fetcher ≠ .absent ∧ s.fetcher ≠ .exited

/-- What holds in every state, where the slots in use are `l`. -/
structure Safe (s : SharedReader δ v) (l : List (Slot v)) : Prop where
  ring : s.ring.Ok l s.pending s.fetcher.slot
  caller : s.CallerOk l
  running : s.Running →
    (∀ x ∈ l, x.leaves = false) ∧ s.fetchFailed = none ∧ s.fetchDone = false
  last : ∀ x ∈ l.dropLast, x.leaves = false
  done : s.fetchDone = true → .eos ∈ l
  exited : s.fetcher = .exited →
    s.fetchStop = true ∨ s.fetchFailed.isSome = true ∨ ∃ x ∈ l, x.leaves = true
  written : ∀ sl, s.fetcher = .publishing sl → (s.ring.slots sl).isSome = true
  threaded : s.fetcher ≠ .absent → Threaded s.reader
  flagged : s.fetcher ≠ .absent → ∀ x, x ∈ l ∨ s.pending = some x → x.Flagged s.reader
  fresh : s.reader.bound = false →
    s.ring = {} ∧ s.fetcher = .absent ∧ s.fetchFailed = none ∧ s.fetchDone = false ∧
      s.fetchStop = false ∧ s.reader.rowsetRestore = false
  busy : s.session.batch.isSome = true → s.reader.bound = true

namespace Safe

variable {D : Driver δ v} {s s' : SharedReader δ v} {l : List (Slot v)}

/-- A step that leaves the ring and the fetch thread alone. -/
theorem frame (h : s.Safe l) (hring : s'.ring = s.ring) (hfetcher : s'.fetcher = s.fetcher)
    (hdone : s'.fetchDone = s.fetchDone) (hfailed : s'.fetchFailed = s.fetchFailed)
    (hstop : s'.fetchStop = s.fetchStop)
    (hreader : s.fetcher ≠ .absent → Threaded s'.reader ∧ s'.reader.cols = s.reader.cols)
    (hfresh : s'.reader.bound = false →
      s.reader.bound = false ∧ s'.reader.rowsetRestore = s.reader.rowsetRestore)
    (hbusy : s'.session.batch.isSome = true → s'.reader.bound = true)
    (hcaller : s'.CallerOk l) : s'.Safe l where
  ring := by
    rw [pending, hring, hfetcher]
    exact h.ring
  caller := hcaller
  running := by
    intro hrunning
    rw [hdone, hfailed]
    exact h.running ⟨hfetcher ▸ hrunning.1, hfetcher ▸ hrunning.2⟩
  last := h.last
  done := fun hd => h.done (hdone ▸ hd)
  exited := by
    rw [hfetcher, hstop, hfailed]
    exact h.exited
  written := by
    rw [hring, hfetcher]
    exact h.written
  threaded := fun hthread => (hreader (hfetcher ▸ hthread)).1
  flagged := by
    intro hthread x hx
    rw [pending, hring, hfetcher] at hx
    exact (h.flagged (hfetcher ▸ hthread) x hx).congr (hreader (hfetcher ▸ hthread)).2
  fresh := by
    intro hbound
    have ⟨hb, hrestore⟩ := hfresh hbound
    rw [hring, hfetcher, hdone, hfailed, hstop, hrestore]
    exact h.fresh hb
  busy := hbusy

/-- The slot at the head when the caller takes it. -/
theorem head_eq (h : s.Safe l) (hfilled : 0 < s.ring.filled) {x : Slot v}
    (hslot : s.ring.slots s.ring.head = some x) : ∃ rest, l = x :: rest := by
  cases l with
  | nil =>
      rw [h.ring.filled_eq] at hfilled
      exact absurd hfilled (Nat.lt_irrefl 0)
  | cons y rest =>
      rw [h.ring.head] at hslot
      exact ⟨rest, Option.some.inj hslot ▸ rfl⟩

/-- A slot the thread leaves after is the last. -/
theorem alone (h : s.Safe l) {x : Slot v} {rest : List (Slot v)} (hl : l = x :: rest)
    (hleaves : x.leaves = true) : rest = [] := by
  cases rest with
  | nil => rfl
  | cons y rest =>
      have := h.last x (by simp [hl])
      rw [hleaves] at this
      cases this

/-- A step of the caller that leaves the reader alone as well. -/
theorem frame_reader (h : s.Safe l) (hring : s'.ring = s.ring)
    (hfetcher : s'.fetcher = s.fetcher) (hdone : s'.fetchDone = s.fetchDone)
    (hfailed : s'.fetchFailed = s.fetchFailed) (hstop : s'.fetchStop = s.fetchStop)
    (hreader : s'.reader = s.reader)
    (hbatch : s'.session.batch.isSome = true → s.session.batch.isSome = true)
    (hcaller : s'.CallerOk l) : s'.Safe l :=
  h.frame hring hfetcher hdone hfailed hstop
    (fun hthread => hreader.symm ▸ ⟨h.threaded hthread, rfl⟩)
    (fun hbound => hreader ▸ ⟨hreader ▸ hbound, rfl⟩)
    (fun hbusy => hreader ▸ h.busy (hbatch hbusy)) hcaller

theorem finish (h : s.Safe l) (batch : Batch v) :
    ({ s with session := s.session.finish batch } : SharedReader δ v).Safe l := by
  have hreader : (s.session.finish batch).reader = s.session.reader := by
    unfold Session.finish
    split <;> rfl
  have hbatch : (s.session.finish batch).batch = none := by
    unfold Session.finish
    split <;> rfl
  exact h.frame_reader rfl rfl rfl rfl rfl hreader (by simp [hbatch]) h.caller

theorem turn (h : s.Safe l) {batch : Batch v} (hwants : s.Wants batch)
    (halone : s.fetcher = .absent) :
    ({ s with session := s.session.turn D batch } : SharedReader δ v).Safe l := by
  have hbound : (s.session.turn D batch).reader.bound = true :=
    (congrArg Kept.bound (Session.turn_kept D s.session batch)).trans
      (h.busy (by simp [hwants.2.2.1]))
  refine h.frame rfl rfl rfl rfl rfl (fun hthread => absurd halone hthread) ?_
    (fun _ => hbound) h.caller
  intro hfalse
  rw [reader, hbound] at hfalse
  cases hfalse

theorem take (h : s.Safe l) {batch : Batch v} {slot : Slot v} (hwants : s.Wants batch)
    (hthread : s.fetcher ≠ .absent) (hfilled : 0 < s.ring.filled)
    (hslot : s.ring.slots s.ring.head = some slot) : (s.take slot).Safe l := by
  obtain ⟨rest, rfl⟩ := h.head_eq hfilled hslot
  have hhand : s.ring.inHand = false := by
    have hcaller := h.caller
    rw [CallerOk, hwants.1] at hcaller
    exact hcaller hthread
  exact
    { h with
      ring := h.ring.take hhand
      fresh := fun hbound => absurd (h.fresh hbound).2.1 hthread
      caller := by
        cases slot with
        | eos => exact ⟨hthread, rfl, by rw [h.alone rfl rfl]⟩
        | rows rowset fetched firstRow needsRepair =>
            cases needsRepair with
            | true => exact ⟨hthread, rfl, rfl, rowset, fetched, firstRow, by rw [h.alone rfl rfl]⟩
            | false => exact ⟨hthread, rfl, rfl, rowset, fetched, firstRow, rest, rfl⟩ }

theorem drained (h : s.Safe l) {batch : Batch v} (hwants : s.Wants batch)
    (hthread : s.fetcher ≠ .absent) (hempty : s.ring.filled = 0)
    (hover : s.fetchFailed.isSome = true ∨ s.fetchDone = true) :
    ({ s with caller := .stopping (.answer s.fetchFailed) } : SharedReader δ v).Safe l := by
  have hnil : l = [] := List.length_eq_zero_iff.1 (h.ring.filled_eq ▸ hempty)
  have hfailed : s.fetchFailed.isSome = true := by
    refine hover.resolve_right fun hdone => ?_
    have heos := h.done hdone
    rw [hnil] at heos
    cases heos
  have hexited : s.fetcher = .exited := by
    by_contra hrunning
    rw [(h.running ⟨hthread, hrunning⟩).2.1] at hfailed
    cases hfailed
  have hhand : s.ring.inHand = false := by
    have hcaller := h.caller
    rw [CallerOk, hwants.1] at hcaller
    exact hcaller hthread
  exact h.frame_reader rfl rfl rfl rfl rfl rfl id ⟨hthread, hexited, hhand, hnil, rfl, hfailed⟩

/-- The slot in hand needs no ODBC call. -/
theorem in_hand (h : s.Safe l) {rowset : Rowset v} {fetched firstRow : Nat}
    {needsRepair : Bool} (hholding : s.caller = .holding)
    (hslot : s.ring.slots s.curSlot = some (.rows rowset fetched firstRow needsRepair)) :
    s.fetcher ≠ .absent ∧ s.ring.inHand = true ∧ needsRepair = false ∧
      rowsetTruncated s.reader rowset fetched = false ∧
      ∃ rest, l = .rows rowset fetched firstRow needsRepair :: rest := by
  have hcaller := h.caller
  rw [CallerOk, hholding] at hcaller
  obtain ⟨hthread, hhand, hcur, rowset', fetched', firstRow', rest, rfl⟩ := hcaller
  rw [hcur, h.ring.head] at hslot
  cases hslot
  have hflag := h.flagged hthread (.rows rowset fetched firstRow false) (.inl (by simp))
  exact ⟨hthread, hhand, rfl, hflag, rest, rfl⟩

theorem convert (h : s.Safe l) {batch : Batch v} {rowset : Rowset v} {fetched firstRow : Nat}
    {needsRepair : Bool} (hholding : s.caller = .holding)
    (hslot : s.ring.slots s.curSlot = some (.rows rowset fetched firstRow needsRepair)) :
    (s.convert D rowset fetched batch).Safe l := by
  have ⟨hthread, hhand, hrepair, _, rest, hl⟩ := h.in_hand hholding hslot
  have hthreaded := h.threaded hthread
  have hcaller : s.fetcher ≠ .absent ∧ s.ring.inHand = true ∧
      ∃ rowset fetched firstRow rest, l = .rows rowset fetched firstRow false :: rest :=
    ⟨hthread, hhand, rowset, fetched, firstRow, rest, hrepair ▸ hl⟩
  unfold SharedReader.convert
  dsimp only
  split <;>
    exact h.frame rfl rfl rfl rfl rfl (fun _ => ⟨{ hthreaded with }, rfl⟩)
      (fun hbound => ⟨hbound, rfl⟩) (fun _ => hthreaded.bound) hcaller

theorem release (h : s.Safe l) {status : Option AdbcError}
    (hreleasing : s.caller = .releasing status) :
    ∃ l', (s.release status).Safe l' := by
  have hcaller := h.caller
  rw [CallerOk, hreleasing] at hcaller
  obtain ⟨hthread, hhand, rowset, fetched, firstRow, rest, rfl⟩ := hcaller
  have hthreaded := h.threaded hthread
  have hreader : Threaded (s.release status).reader ∧
      (s.release status).reader.cols = s.reader.cols := by
    cases status with
    | none => exact ⟨hthreaded, rfl⟩
    | some e => exact ⟨{ hthreaded with }, rfl⟩
  refine ⟨rest, ?_⟩
  exact
    { ring := h.ring.release hhand
      caller := fun _ => rfl
      running := fun hrunning =>
        ⟨fun x hx => (h.running hrunning).1 x (by simp [hx]), (h.running hrunning).2⟩
      last := by
        intro x hx
        cases rest with
        | nil => cases hx
        | cons y rest => exact h.last x (by simp [hx])
      done := fun hdone => (List.mem_cons.1 (h.done hdone)).resolve_left nofun
      exited := by
        intro hexited
        refine (h.exited hexited).imp_right (.imp_right fun ⟨x, hx, hleaves⟩ => ?_)
        rcases List.mem_cons.1 hx with rfl | hx
        · cases hleaves
        · exact ⟨x, hx, hleaves⟩
      written := h.written
      threaded := fun _ => hreader.1
      flagged := fun _ x hx =>
        (h.flagged hthread x (hx.imp_left (by simp +contextual))).congr hreader.2
      fresh := fun hbound => absurd (hreader.1.bound) (by simp [hbound])
      busy := fun _ => hreader.1.bound }

theorem stop (h : s.Safe l) {why : Joins} (hstopping : s.caller = .stopping why) :
    ({ s with fetchStop := true, caller := .joining why } : SharedReader δ v).Safe l := by
  have hcaller := h.caller
  rw [CallerOk, hstopping] at hcaller
  exact
    { h with
      caller := hcaller
      exited := fun _ => .inl rfl
      fresh := fun hbound => absurd (h.fresh hbound).2.1 hcaller.1 }

theorem joined (h : s.Safe l) {why : Joins} (hjoining : s.caller = .joining why)
    (hexited : s.fetcher = .exited) : (s.joined why).Safe l := by
  have hcaller := h.caller
  rw [CallerOk, hjoining] at hcaller
  have hring := h.ring
  rw [pending, hexited] at hring
  have hbound := (h.threaded hcaller.1).bound
  have habsent : ∀ s' : SharedReader δ v, s'.ring = s.ring → s'.fetcher = .absent →
      s'.fetchDone = s.fetchDone → s'.reader.bound = true → s'.CallerOk l → s'.Safe l := by
    intro s' hsame hgone hdone hbound' hcaller'
    exact
      { ring := by
          rw [pending, hgone, hsame]
          exact hring
        caller := hcaller'
        running := fun hrunning => absurd hgone hrunning.1
        last := h.last
        done := fun hd => h.done (hdone ▸ hd)
        exited := fun hexited' => by simp [hgone] at hexited'
        written := fun sl hpublishing => by simp [hgone] at hpublishing
        threaded := fun hthread => absurd hgone hthread
        flagged := fun hthread => absurd hgone hthread
        fresh := fun hfalse => by simp [hbound'] at hfalse
        busy := fun _ => hbound' }
  cases why with
  | ended => exact habsent _ rfl rfl rfl hbound fun hthread => absurd rfl hthread
  | answer failed =>
      cases failed with
      | none => exact habsent _ rfl rfl rfl hbound fun hthread => absurd rfl hthread
      | some e => exact habsent _ rfl rfl rfl hbound fun hthread => absurd rfl hthread
  | repair => exact habsent _ rfl rfl rfl hbound ⟨rfl, hcaller.2⟩
  | release => exact habsent _ rfl rfl rfl hbound rfl

theorem handBack (h : s.Safe l) {batch : Batch v} (fetched firstRow : Nat)
    (hrepairing : s.caller = .repairing) (hbatch : s.session.batch = some batch) :
    (s.handBack D fetched firstRow batch).Safe l := by
  have hcaller := h.caller
  rw [CallerOk, hrepairing] at hcaller
  have hbound := h.busy (by simp [hbatch])
  have halone : ∀ s' : SharedReader δ v, s'.ring = s.ring → s'.fetcher = s.fetcher →
      s'.fetchDone = s.fetchDone → s'.fetchFailed = s.fetchFailed →
      s'.fetchStop = s.fetchStop → s'.reader.bound = true → s'.caller = .idle → s'.Safe l := by
    intro s' hring hfetcher hdone hfailed hstop hbound' hidle
    refine h.frame hring hfetcher hdone hfailed hstop (fun hthread => absurd hcaller.1 hthread)
      (fun hfalse => by simp [hbound'] at hfalse) (fun _ => hbound') ?_
    rw [CallerOk, hidle]
    exact fun hthread => absurd (hfetcher.trans hcaller.1) hthread
  unfold SharedReader.handBack
  dsimp only
  split
  · exact halone _ rfl rfl rfl rfl rfl hbound rfl
  · split <;> exact halone _ rfl rfl rfl rfl rfl hbound rfl

theorem close (h : s.Safe l) (hidle : s.caller = .idle) :
    ({ s with caller := if s.fetcher = .absent then .closing else .stopping .release } :
      SharedReader δ v).Safe l := by
  have hcaller := h.caller
  rw [CallerOk, hidle] at hcaller
  refine h.frame_reader rfl rfl rfl rfl rfl rfl id ?_
  rw [CallerOk]
  by_cases habsent : s.fetcher = .absent
  · simp [habsent]
  · simp only [habsent, if_false]
    exact ⟨habsent, hcaller habsent⟩

theorem closed (h : s.Safe l) (hclosing : s.caller = .closing) : (s.close D).Safe l := by
  have hcaller := h.caller
  rw [CallerOk, hclosing] at hcaller
  exact h.frame rfl rfl rfl rfl rfl (fun hthread => absurd hcaller hthread)
    (fun hbound => ⟨hbound, rfl⟩) h.busy hcaller

/-- The first batch. -/
theorem begin_unbound (h : s.Safe l) (started : Bool) (hidle : s.caller = .idle)
    (hbound : s.reader.bound = false) : ∃ l', (s.begin D started).Safe l' := by
  have hcaller := h.caller
  rw [CallerOk, hidle] at hcaller
  obtain ⟨hring, habsent, hfailed, hdone, hstop, hrestore⟩ := h.fresh hbound
  unfold SharedReader.begin Session.begin
  split
  · simp only [hbound, Bool.not_false, Bool.and_false, Bool.false_eq_true, if_false]
    exact ⟨l, h.frame_reader rfl rfl rfl rfl rfl rfl id h.caller⟩
  · simp only [hbound, Bool.false_eq_true, if_false, Bool.not_false, Bool.true_and]
    cases hbind : readerBind D s.session.reader with
    | mk answer r =>
        have hunsized := readerBind_unsized D s.session.reader
        rw [hbind] at hunsized
        have hrestore' : r.rowsetRestore = false :=
          (congrArg OdbcReader.rowsetRestore hunsized).trans hrestore
        cases answer with
        | some e =>
            have hfalse : r.bound = false := (readerBind_unbound D hbind).trans hbound
            simp only [Session.fail, hfalse, Bool.false_eq_true, if_false]
            exact ⟨l, h.frame rfl rfl rfl rfl rfl (fun hthread => absurd habsent hthread)
              (fun _ => ⟨hbound, hrestore'.trans hrestore.symm⟩) nofun h.caller⟩
        | none =>
            have hkeep : Session.restoreRowset D r = r := by
              rw [Session.restoreRowset, hrestore']
              rfl
            simp only [hkeep, readerBind_bound D hbind, if_true]
            refine ⟨[], ?_⟩
            rw [hring]
            have hinit := SlotRing.Ok.init (v := v) (slotCount_pos s.prefetch r)
            by_cases hstart : 1 < slotCount s.prefetch r ∧ started = true
            · rw [if_pos hstart]
              have hthreaded := threaded_of_slotCount hbind hrestore hstart.1
              exact
                { ring := hinit
                  caller := by
                    rw [CallerOk, hidle]
                    exact fun _ => rfl
                  running := fun _ => ⟨nofun, hfailed, hdone⟩
                  last := nofun
                  done := fun hd => absurd (hdone.symm.trans hd) nofun
                  exited := nofun
                  written := nofun
                  threaded := fun _ => { hthreaded with bound := rfl }
                  flagged := fun _ x hx => by simp [pending] at hx
                  fresh := nofun
                  busy := fun _ => rfl }
            · rw [if_neg hstart]
              exact
                { ring := hinit
                  caller := by
                    rw [CallerOk, hidle]
                    exact fun _ => rfl
                  running := fun hrunning => absurd rfl hrunning.1
                  last := nofun
                  done := fun hd => absurd (hdone.symm.trans hd) nofun
                  exited := nofun
                  written := nofun
                  threaded := fun hthread => absurd rfl hthread
                  flagged := fun hthread => absurd rfl hthread
                  fresh := nofun
                  busy := fun _ => rfl }

theorem begin_bound (h : s.Safe l) (started : Bool) (hidle : s.caller = .idle)
    (hbound : s.reader.bound = true) : (s.begin D started).Safe l := by
  have hbegin : s.begin D started = { s with session := s.session.begin D } := by
    unfold SharedReader.begin
    simp [hbound]
  have hcaller := h.caller
  rw [CallerOk, hidle] at hcaller
  have hsafe : ∀ session : Session δ v,
      (s.fetcher ≠ .absent → session.reader = s.reader) → session.reader.bound = true →
      ({ s with session } : SharedReader δ v).Safe l := by
    intro session hreader hbound'
    refine h.frame rfl rfl rfl rfl rfl
      (fun hthread => ⟨?_, congrArg OdbcReader.cols (hreader hthread)⟩)
      (fun hfalse => ?_) (fun _ => hbound') ?_
    · show Threaded session.reader
      exact (hreader hthread).symm ▸ h.threaded hthread
    · exact absurd (hbound'.symm.trans hfalse) nofun
    · rw [CallerOk, hidle]
      exact hcaller
  rw [hbegin]
  unfold Session.begin
  split
  · exact hsafe _ (fun _ => rfl) hbound
  · refine hsafe _ ?_ ((congrArg Kept.bound (Session.restoreRowset_kept D _)).trans hbound)
    intro hthread
    show Session.restoreRowset D s.session.reader = s.reader
    rw [Session.restoreRowset, if_neg]
    simp [(h.threaded hthread).restore]

/-! The fetch thread. -/

/-- While the thread runs, the caller is not waiting for its last slot. -/
theorem caller_running (h : s.Safe l) (hrunning : s.Running) (hthread : s'.fetcher ≠ .absent)
    (hcaller : s'.caller = s.caller) (hhand : s'.ring.inHand = s.ring.inHand)
    (hhead : s'.ring.head = s.ring.head) (hcur : s'.curSlot = s.curSlot)
    (m : List (Slot v)) : s'.CallerOk (l ++ m) := by
  have hok := h.caller
  have hstays := (h.running hrunning).1
  have hjoins : ∀ why, s.JoinsOk l why → s'.JoinsOk (l ++ m) why := by
    intro why hwhy
    cases why with
    | ended =>
        have hleaves := hstays .eos (by simp [hwhy.2])
        cases hleaves
    | answer failed => exact absurd hwhy.1 hrunning.2
    | repair =>
        obtain ⟨-, -, rowset, fetched, firstRow, hl⟩ := hwhy
        have hleaves := hstays (.rows rowset fetched firstRow true) (by simp [hl])
        cases hleaves
    | release => exact hhand.trans hwhy
  rw [CallerOk] at hok ⊢
  rw [hcaller]
  cases hc : s.caller <;> rw [hc] at hok
  case idle => exact fun _ => hhand.trans (hok hrunning.1)
  case holding =>
    obtain ⟨_, hin, hslot, rowset, fetched, firstRow, rest, hl⟩ := hok
    exact ⟨hthread, hhand.trans hin, hcur.trans (hslot.trans hhead.symm), rowset, fetched,
      firstRow, rest ++ m, by rw [hl, List.cons_append]⟩
  case releasing =>
    obtain ⟨_, hin, rowset, fetched, firstRow, rest, hl⟩ := hok
    exact ⟨hthread, hhand.trans hin, rowset, fetched, firstRow, rest ++ m,
      by rw [hl, List.cons_append]⟩
  case stopping why => exact ⟨hthread, hjoins why hok.2⟩
  case joining why => exact ⟨hthread, hjoins why hok.2⟩
  case repairing => exact absurd hok.1 hrunning.1
  case closing => exact absurd hok hrunning.1
  case closed => exact absurd hok hrunning.1

/-- A step of the fetch thread that publishes nothing. -/
theorem fetch_frame (h : s.Safe l) (hrunning : s.Running) (hthread : s'.fetcher ≠ .absent)
    (hcaller : s'.caller = s.caller) (hhand : s'.ring.inHand = s.ring.inHand)
    (hhead : s'.ring.head = s.ring.head) (hcur : s'.curSlot = s.curSlot)
    (hdone : s'.fetchDone = s.fetchDone) (hring : s'.ring.Ok l s'.pending s'.fetcher.slot)
    (hfailed : s'.Running → s'.fetchFailed = none)
    (hexited : s'.fetcher = .exited → s'.fetchStop = true ∨ s'.fetchFailed.isSome = true)
    (hwritten : ∀ sl, s'.fetcher = .publishing sl → (s'.ring.slots sl).isSome = true)
    (hthreaded : Threaded s'.reader) (hcols : s'.reader.cols = s.reader.cols)
    (hpending : ∀ x, s'.pending = some x → x.Flagged s'.reader) : s'.Safe l where
  ring := hring
  caller := by
    have hok := h.caller_running hrunning hthread hcaller hhand hhead hcur []
    rwa [List.append_nil] at hok
  running := fun hrunning' =>
    ⟨(h.running hrunning).1, hfailed hrunning', hdone.trans (h.running hrunning).2.2⟩
  last := h.last
  done := fun hd => h.done (hdone ▸ hd)
  exited := fun hleft => (hexited hleft).imp_right .inl
  written := hwritten
  threaded := fun _ => hthreaded
  flagged := fun _ x hx =>
    hx.elim (fun hx => (h.flagged hrunning.1 x (.inl hx)).congr hcols) (hpending x)
  fresh := fun hbound => absurd (hthreaded.bound.symm.trans hbound) nofun
  busy := fun _ => hthreaded.bound

theorem leave (h : s.Safe l) (htop : s.fetcher = .top) (hstop : s.fetchStop = true) :
    ({ s with fetcher := .exited } : SharedReader δ v).Safe l := by
  have hrunning : s.Running := by simp [Running, htop]
  have hring := h.ring
  rw [pending, htop] at hring
  exact h.fetch_frame hrunning nofun rfl rfl rfl rfl rfl hring (fun hrun => absurd rfl hrun.2)
    (fun _ => .inl hstop) nofun (h.threaded hrunning.1) rfl nofun

theorem room (h : s.Safe l) (htop : s.fetcher = .top)
    (hroom : s.ring.filled < s.ring.nslots) :
    ({ s with fetcher := .filling s.ring.tail } : SharedReader δ v).Safe l := by
  have hrunning : s.Running := by simp [Running, htop]
  have hring := h.ring
  rw [pending, htop] at hring
  exact h.fetch_frame hrunning nofun rfl rfl rfl rfl rfl (hring.room hroom)
    (fun _ => (h.running hrunning).2.1) nofun nofun (h.threaded hrunning.1) rfl nofun

theorem bindInto (h : s.Safe l) {sl : Nat} (hfilling : s.fetcher = .filling sl) :
    (s.bindInto D sl).Safe l := by
  have hrunning : s.Running := by simp [Running, hfilling]
  have hring := h.ring
  rw [pending, hfilling] at hring
  have hthreaded := h.threaded hrunning.1
  unfold SharedReader.bindInto
  dsimp only
  split
  · exact h.fetch_frame hrunning nofun rfl rfl rfl rfl rfl hring.clear.idle
      (fun _ => (h.running hrunning).2.1) nofun nofun { hthreaded with } rfl nofun
  · exact h.fetch_frame hrunning nofun rfl rfl rfl rfl rfl hring.clear
      (fun _ => (h.running hrunning).2.1) nofun nofun { hthreaded with } rfl nofun

theorem fetchInto (h : s.Safe l) {sl : Nat} (hbound : s.fetcher = .bound sl) :
    (s.fetchInto D sl).Safe l := by
  have hrunning : s.Running := by simp [Running, hbound]
  have hring := h.ring
  rw [pending, hbound] at hring
  have hthreaded := h.threaded hrunning.1
  have hfailed := (h.running hrunning).2.1
  have hfilled : ∀ x, (s.ring.fill sl x).slots sl = some x := fun x => by simp
  unfold SharedReader.fetchInto
  split
  · exact h.fetch_frame hrunning nofun rfl rfl rfl rfl rfl
      (by simpa [pending, FetchThread.slot] using hring.fill) (fun _ => hfailed) nofun
      (fun sl' hsl => by cases hsl; simp) { hthreaded with } rfl
      (fun x hx => by rw [pending] at hx; cases (hfilled _).symm.trans hx; trivial)
  · exact h.fetch_frame hrunning nofun rfl rfl rfl rfl rfl hring.idle
      (fun _ => hfailed) nofun nofun { hthreaded with } rfl nofun
  · exact h.fetch_frame hrunning nofun rfl rfl rfl rfl rfl
      (by simpa [pending, FetchThread.slot] using hring.fill) (fun _ => hfailed) nofun
      (fun sl' hsl => by cases hsl; simp) { hthreaded with } rfl
      (fun x hx => by rw [pending] at hx; cases (hfilled _).symm.trans hx; rfl)

theorem publish (h : s.Safe l) {sl : Nat} {slot : Slot v}
    (hpublishing : s.fetcher = .publishing sl) (hslot : s.ring.slots sl = some slot) :
    (s.publish sl slot).Safe (l ++ [slot]) := by
  have hrunning : s.Running := by simp [Running, hpublishing]
  have hring := h.ring
  have hpending : s.pending = some slot := by
    rw [pending, hpublishing]
    exact hslot
  have hthreaded := h.threaded hrunning.1
  have hstays := (h.running hrunning).1
  rw [hpending, hpublishing] at hring
  have hfetcher : (s.publish sl slot).fetcher = if slot.leaves then .exited else .top := rfl
  have hidle : (s.publish sl slot).pending = none ∧ (s.publish sl slot).fetcher.slot = none := by
    rw [pending, hfetcher]
    cases slot.leaves <;> exact ⟨rfl, rfl⟩
  have hthread : (s.publish sl slot).fetcher ≠ .absent := by
    rw [hfetcher]
    cases slot.leaves <;> nofun
  exact
    { ring := by
        rw [hidle.1, hidle.2]
        exact hring.publish hslot
      caller := h.caller_running hrunning hthread rfl rfl rfl rfl [slot]
      running := by
        intro hrunning'
        have hleaves : slot.leaves = false := by
          cases hl : slot.leaves with
          | false => rfl
          | true =>
              have hgone := hrunning'.2
              rw [hfetcher, hl] at hgone
              exact absurd rfl hgone
        refine ⟨?_, (h.running hrunning).2.1, ?_⟩
        · intro x hx
          rcases List.mem_append.1 hx with hx | hx
          · exact hstays x hx
          · exact List.mem_singleton.1 hx ▸ hleaves
        · show (s.fetchDone || slot.isEos) = false
          rw [(h.running hrunning).2.2]
          cases slot with
          | eos => cases hleaves
          | rows => rfl
      last := by
        rw [List.dropLast_concat]
        exact hstays
      done := by
        intro hdone
        cases slot with
        | eos => simp
        | rows rowset fetched firstRow needsRepair =>
            have hsame : s.fetchDone = true := by
              simpa [SharedReader.publish, Slot.isEos] using hdone
            exact List.mem_append_left _ (h.done hsame)
      exited := by
        intro hexited
        refine .inr (.inr ⟨slot, by simp, ?_⟩)
        rw [hfetcher] at hexited
        cases hl : slot.leaves with
        | true => rfl
        | false =>
            rw [hl] at hexited
            cases hexited
      written := by
        intro sl' hpub
        rw [hfetcher] at hpub
        cases hl : slot.leaves <;> rw [hl] at hpub <;> cases hpub
      threaded := fun _ => { hthreaded with }
      flagged := by
        intro _ x hx
        rw [hidle.1] at hx
        rcases List.mem_append.1 (hx.resolve_right nofun) with hx | hx
        · exact h.flagged hrunning.1 x (.inl hx)
        · exact List.mem_singleton.1 hx ▸ h.flagged hrunning.1 slot (.inr hpending)
      fresh := fun hbound => absurd (hthreaded.bound.symm.trans hbound) nofun
      busy := fun _ => hthreaded.bound }

theorem fail (h : s.Safe l) {e : AdbcError} (hfailing : s.fetcher = .failing e) :
    ({ s with fetchFailed := some e, fetcher := .exited } : SharedReader δ v).Safe l := by
  have hrunning : s.Running := by simp [Running, hfailing]
  have hring := h.ring
  rw [pending, hfailing] at hring
  exact h.fetch_frame hrunning nofun rfl rfl rfl rfl rfl hring (fun hrun => absurd rfl hrun.2)
    (fun _ => .inr rfl) nofun (h.threaded hrunning.1) rfl nofun

/-- Every step keeps what holds. -/
theorem step {p : Party} (h : s.Safe l) (hstep : Step D s p s') : ∃ l', s'.Safe l' := by
  cases hstep with
  | begin started hidle _ _ =>
      cases hbound : s.reader.bound with
      | false => exact h.begin_unbound started hidle hbound
      | true => exact ⟨l, h.begin_bound started hidle hbound⟩
  | finish => exact ⟨l, h.finish _⟩
  | turn hwants halone => exact ⟨l, h.turn hwants halone⟩
  | take hwants hthread hfilled hslot => exact ⟨l, h.take hwants hthread hfilled hslot⟩
  | drained hwants hthread hempty hover => exact ⟨l, h.drained hwants hthread hempty hover⟩
  | convert hholding _ hslot => exact ⟨l, h.convert hholding hslot⟩
  | release hreleasing => exact h.release hreleasing
  | stop hstopping => exact ⟨l, h.stop hstopping⟩
  | join hjoining hexited => exact ⟨l, h.joined hjoining hexited⟩
  | handBack hrepairing hbatch _ => exact ⟨l, h.handBack _ _ hrepairing hbatch⟩
  | close hidle _ => exact ⟨l, h.close hidle⟩
  | closed hclosing => exact ⟨l, h.closed hclosing⟩
  | leave htop hstop => exact ⟨l, h.leave htop hstop⟩
  | room htop _ hroom => exact ⟨l, h.room htop hroom⟩
  | bind hfilling => exact ⟨l, h.bindInto hfilling⟩
  | fetch hbound => exact ⟨l, h.fetchInto hbound⟩
  | publish hpublishing hslot => exact ⟨_, h.publish hpublishing hslot⟩
  | fail hfailing => exact ⟨l, h.fail hfailing⟩

theorem start (prefetch : Nat) (opts : OdbcReaderOptions)
    (declared : List (List Char × Declared)) (cursor : δ) :
    (SharedReader.start prefetch (readerInit opts declared cursor) : SharedReader δ v).Safe
      [] where
  ring := .init Nat.one_pos
  caller := fun hthread => absurd rfl hthread
  running := fun hrunning => absurd rfl hrunning.1
  last := nofun
  done := nofun
  exited := nofun
  written := nofun
  threaded := fun hthread => absurd rfl hthread
  flagged := fun hthread => absurd rfl hthread
  fresh := fun _ => ⟨rfl, rfl, rfl, rfl, rfl, rfl⟩
  busy := nofun

/-- A batch begun while there is a thread. -/
theorem begin_threaded (hthreaded : Threaded s.reader) (started : Bool) :
    s.begin D started = { s with
      session := if s.reader.done then { s.session with outcome := .ended }
        else { s.session with batch := some {} } } := by
  have hkeep : Session.restoreRowset D s.session.reader = s.session.reader := by
    rw [Session.restoreRowset, if_neg]
    simp [hthreaded.restore]
  unfold SharedReader.begin Session.begin
  rw [hkeep]
  simp [hthreaded.bound]

end Safe

theorem safe_run {D : Driver δ v} {prefetch : Nat} {opts : OdbcReaderOptions}
    {declared : List (List Char × Declared)} {cursor : δ} {trace : List Party}
    {s : SharedReader δ v}
    (run : Run (Step D) (start prefetch (readerInit opts declared cursor)) trace s) :
    ∃ l, s.Safe l :=
  run.state_invariant (I := fun s : SharedReader δ v => ∃ l, s.Safe l)
    ⟨[], .start prefetch opts declared cursor⟩ fun _ _ _ ⟨_, h⟩ hstep => h.step hstep

end SharedReader

end AdbcBridge.Reader
