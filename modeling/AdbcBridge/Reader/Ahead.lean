import AdbcBridge.Reader.Delivery
import AdbcBridge.Reader.RingSafety

/-!
# A fetch thread ahead of its caller

On a driver that keeps the contract of a block cursor the slots of the ring are consecutive
rowsets of the result: the first begins where the batches of the caller end, and behind the
last is where the cursor of the fetch thread is.
-/

namespace AdbcBridge.Reader

open AdbcBridge.Adbc

variable {δ v : Type*}

/-- A rowset of the `k` rows from `p` on, all values of which are in the buffers. -/
structure Whole (cols : List OdbcColumn) (R : ResultSet v) (faults : Prop) (rowset : Rowset v)
    (p k : Nat) : Prop where
  status : ∀ row < k, rowset.status row ≠ .noRow ∧ (rowset.status row = .error → faults)
  held : ∀ row < k, ∀ i < cols.length, ∀ converter,
    Reads faults ((rowset.cell row i).held converter) (R.value (p + row) i)

/-- Slots with the rows from `p` up to `q`, each rowset behind the one before; the end of the
result is behind its last row. -/
def Consecutive (cols : List OdbcColumn) (R : ResultSet v) (faults : Prop) (most : Nat) :
    Nat → List (Slot v) → Nat → Prop
  | p, [], q => p = q
  | p, .eos :: rest, q => R.count ≤ p ∧ Consecutive cols R faults most p rest q
  | p, .rows rowset k first needsRepair :: rest, q =>
      (needsRepair = false ∧ first = p + 1 ∧ 0 < k ∧ k ≤ most ∧ p + k ≤ R.count ∧
        Whole cols R faults rowset p k) ∧ Consecutive cols R faults most (p + k) rest q

section

variable {cols : List OdbcColumn} {R : ResultSet v} {faults : Prop} {most : Nat}

theorem Consecutive.append {l m : List (Slot v)} {p q t : Nat}
    (h : Consecutive cols R faults most p l q) (h' : Consecutive cols R faults most q m t) :
    Consecutive cols R faults most p (l ++ m) t := by
  induction l generalizing p with
  | nil =>
      have hpq : p = q := h
      rw [hpq]
      exact h'
  | cons x rest ih =>
      cases x with
      | eos => exact ⟨h.1, ih h.2⟩
      | rows rowset k first needsRepair => exact ⟨h.1, ih h.2⟩

/-- What `ConvertRowset` appends from memory are the rows of the slot. -/
theorem heldCells_spec {rowset : Rowset v} {converter : Nat → Converter}
    {cells : List (Nat × Nat)} {base : Nat} {columns : Nat → List v}
    (h : ∀ c ∈ cells,
      Reads faults ((rowset.cell c.1 c.2).held (converter c.2)) (R.value (base + c.1) c.2)) :
    Reads faults (heldCells rowset converter cells columns) (appended R base cells columns) := by
  induction cells generalizing columns with
  | nil =>
      refine ⟨?_, fun e he => by cases he⟩
      intro y hy
      funext i
      rw [← Except.ok.inj hy]
      exact (List.append_nil _).symm
  | cons c rest ih =>
      have hvalue := h c List.mem_cons_self
      rw [heldCells]
      cases hcell : (rowset.cell c.1 c.2).held (converter c.2) with
      | error e =>
          rw [hcell] at hvalue
          exact ⟨fun y hy => (by cases hy), fun e' _ => hvalue.2 e rfl⟩
      | ok x =>
          rw [hcell] at hvalue
          dsimp only
          rw [hvalue.1 x rfl, ← appended_cons]
          exact ih fun d hd => h d (List.mem_cons_of_mem c hd)

/-- What the caller makes of a whole rowset: its rows, without a call of the driver. -/
theorem Whole.convert {D : Driver δ v} {r : OdbcReader δ} {rowset : Rowset v} {p k : Nat}
    (h : Whole cols R faults rowset p k) (hpos : 0 < k) (hncols : r.ncols = cols.length)
    (hbound : ∀ i < r.ncols, (r.col i).bound = true) (hall : r.allBound = true)
    (hfit : rowsetTruncated r rowset k = false) (s : δ) (batch : Batch v) :
    Gives faults (fun batch' s' => s' = s ∧ rowsetIsBulk rowset k = true ∧
      batch'.total = batch.total + k ∧
      ∀ i < cols.length, batch'.columns i = batch.columns i ++ R.slice i p k)
      (convertRowset D r rowset k (rowsetIsBulk rowset k) s batch) := by
  cases hbulk : rowsetIsBulk rowset k with
  | false =>
      have hsome : ∃ row < k, rowset.status row = .error := by
        rw [rowsetIsBulk, Bool.and_eq_false_iff, decide_eq_false_iff_not, not_not] at hbulk
        have hrows := hbulk.resolve_left hpos.ne'
        rw [List.all_eq_false] at hrows
        obtain ⟨row, hrow, hstatus⟩ := hrows
        rw [List.mem_range] at hrow
        refine ⟨row, hrow, ?_⟩
        by_contra herror
        exact hstatus (decide_eq_true ⟨(h.status row hrow).1, herror⟩)
      obtain ⟨row, hrow, hstatus⟩ := hsome
      obtain ⟨e, s', herror⟩ := @convertRows_error _ _ D r s rowset (List.range k) batch row
        (List.mem_range.mpr hrow) hstatus
      rw [convertRowset, if_neg Bool.false_ne_true, herror]
      exact (h.status row hrow).2 hstatus
  | true =>
      have hcells : Reads faults
          (heldCells rowset (bulkConverter r rowset k) (bulkCells r k) batch.columns)
          (appended R p (bulkCells r k) batch.columns) := by
        apply heldCells_spec
        intro c hc
        have hmem := mem_bulkCells hc
        exact h.held c.1 hmem.1 c.2 (hncols ▸ hmem.2) _
      rw [convertRowset_held D hbound hall hfit, heldRowset, if_pos rfl]
      cases hrun : heldCells rowset (bulkConverter r rowset k) (bulkCells r k) batch.columns with
      | error e =>
          rw [hrun] at hcells
          exact hcells.2 e rfl
      | ok columns =>
          rw [hrun] at hcells
          refine ⟨rfl, rfl, rfl, ?_⟩
          intro i hi
          dsimp only
          rw [hcells.1 columns rfl]
          exact appended_bulkCells (fun _ => hbound) (hi.trans_eq hncols.symm) p k batch.columns

variable {D : Driver δ v} {opts : OdbcReaderOptions} {sees : δ → CursorView → Prop}
  {r : OdbcReader δ} {V : CursorView}

/-- A fetch ahead of the caller. -/
theorem InStep.prefetched (h : InStep opts cols R sees r V) {s : δ} {k : Nat}
    (hcount : V.next + k ≤ R.count) (hs : sees s (V.on V.next k)) :
    InStep opts cols R sees { r with cursor := s, rowsSeen := r.rowsSeen + k } (V.on V.next k) :=
  { h with
    sees := hs
    agrees := h.agrees.reader rfl rfl rfl h.agrees.size
    seen := congrArg (· + k) h.seen
    within := hcount }

/-- Where the columns are bound already, another slot changes nothing the cursor has. -/
theorem InStep.bindSlot (hcontract : FollowsContract D opts cols R faults sees)
    (h : InStep opts cols R sees r V) (hptr : r.noRowsFetchedPtr = false) (sl : Nat) :
    Done faults (fun s => sees s V) (bindSlot D r r.cursor sl) := by
  have hcounts := h.counts
  rw [hptr, if_neg Bool.false_ne_true] at hcounts
  apply (bindSlot_spec hcontract h.sees (Or.inr hcounts) sl).mono
  intro s hs
  obtain ⟨V', hs', hview, hcols⟩ := hs
  have hsame : V'.bound = V.bound := by
    funext i
    rw [Bool.eq_iff_iff, hcols i]
    refine or_iff_left_of_imp ?_
    intro hi
    rw [mem_boundCols] at hi
    exact (h.agrees.bound i hi.1).trans hi.2
  rw [hview, hsame] at hs'
  exact hs'

/-- A rowset of columns that were not bound narrower than they are has its values whole. -/
theorem InStep.whole (h : InStep opts cols R sees r V) {rowset : Rowset v} {k : Nat}
    (hshows : Shows cols R faults V rowset V.next k)
    (hbound : ∀ i < r.ncols, (r.col i).bound = true)
    (hunclipped : ∀ i < cols.length, (described cols i).clipped = false) :
    Whole cols R faults rowset V.next k ∧ rowsetTruncated r rowset k = false := by
  have hdriver : ∀ i < cols.length, V.bound i = true := by
    intro i hi
    have hr := hi.trans_eq h.agrees.columns.symm
    exact (h.agrees.bound i hr).trans (hbound i hr)
  have hfits : ∀ row < k, ∀ i < cols.length,
      boundValueTruncated (described cols i) (rowset.cell row i).ind = false := fun row hrow i hi =>
    hshows.declared row hrow i hi (hdriver i hi) (hunclipped i hi)
  refine ⟨⟨hshows.status, fun row hrow i hi converter => ?_⟩, ?_⟩
  · exact hshows.held row hrow i hi (hdriver i hi) (hfits row hrow i hi) converter
  · rw [rowsetTruncated, List.any_eq_false]
    intro i hi
    rw [List.mem_range] at hi
    rw [hbound i hi, Bool.true_and, Bool.not_eq_true, List.any_eq_false]
    intro row hrow
    rw [List.mem_range] at hrow
    rw [h.agrees.widths i hi, hfits row hrow i (h.agrees.columns ▸ hi)]
    exact Bool.false_ne_true

end

namespace SharedReader

/-- The fetch thread has not failed. -/
def Sound (s : SharedReader δ v) : Prop :=
  s.fetchFailed = none ∧ ∀ e, s.fetcher ≠ .failing e

/-- The reader while its thread is ahead: `k` rows are delivered, the batch under construction
has those up to `p`, the slots `m` and the one about to be published those up to `q`. -/
structure Ahead (opts : OdbcReaderOptions) (cols : List OdbcColumn) (R : ResultSet v)
    (faults : Prop) (sees : δ → CursorView → Prop) (s : SharedReader δ v) (m : List (Slot v))
    (k p q : Nat) : Prop where
  reading : s.session.outcome = .reading
  going : s.reader.done = false
  options : s.reader.opts = opts
  columns : s.reader.ncols = cols.length
  unclipped : ∀ i < cols.length, (described cols i).clipped = false
  block : s.reader.rowsPerFetch ≤ s.reader.rowsetFull
  delivered : CoversRows R cols.length (mostRows s.session) s.session.delivered k
  between : s.session.batch = none → p = k
  batch : ∀ b, s.session.batch = some b → p = k + b.total ∧ b.total ≤ mostRows s.session ∧
    ∀ i < cols.length, b.columns i = R.slice i k b.total
  room : s.caller = .holding → ∃ b, s.session.batch = some b ∧ s.session.wantsRowset b = true
  within : p ≤ R.count
  slots : Consecutive cols R faults s.reader.rowsPerFetch p (m ++ s.pending.toList) q
  eos : .eos ∈ m → s.fetchFailed = none
  inStep : s.Sound → ∃ V, InStep opts cols R sees s.reader V ∧ V.next = q
  unsound : ¬ s.Sound → faults

namespace Ahead

variable {D : Driver δ v} {opts : OdbcReaderOptions} {cols : List OdbcColumn} {R : ResultSet v}
  {faults : Prop} {sees : δ → CursorView → Prop} {s s' : SharedReader δ v} {l m : List (Slot v)}
  {k p q : Nat}

theorem within_count (h : s.Ahead opts cols R faults sees m k p q) : k ≤ R.count := by
  have hp := h.within
  cases hbatch : s.session.batch with
  | none => exact (h.between hbatch).ge.trans hp
  | some b =>
      have hb := (h.batch b hbatch).1
      omega

/-! ## The caller -/

theorem begin (h : s.Ahead opts cols R faults sees m k p q) (hidle : s.caller = .idle)
    (hnone : s.session.batch = none) :
    ({ s with session := { s.session with batch := some {} } } :
      SharedReader δ v).Ahead opts cols R faults sees m k p q :=
  { h with
    between := nofun
    batch := by
      intro b hb
      rw [← Option.some.inj hb]
      exact ⟨h.between hnone, Nat.zero_le _, fun _ _ => rfl⟩
    room := by
      intro hholding
      rw [hidle] at hholding
      cases hholding }

theorem finish (h : s.Ahead opts cols R faults sees m k p q) (hidle : s.caller = .idle)
    {b : Batch v} (hbatch : s.session.batch = some b) (hfull : s.session.wantsRowset b = false) :
    ({ s with session := s.session.finish b } :
      SharedReader δ v).Ahead opts cols R faults sees m p p q := by
  have hpos : b.total ≠ 0 := by
    intro hempty
    unfold Session.wantsRowset at hfull
    rw [hempty, h.going] at hfull
    cases hfull
  obtain ⟨hp, hmost, hcolumns⟩ := h.batch b hbatch
  have hfinish : s.session.finish b =
      { s.session with batch := none, delivered := s.session.delivered ++ [b] } := if_neg hpos
  rw [hfinish]
  exact
    { h with
      delivered := by
        have hsnoc := h.delivered.snoc hcolumns (Nat.pos_of_ne_zero hpos) hmost
        rw [← hp] at hsnoc
        exact hsnoc
      between := fun _ => rfl
      batch := nofun
      room := by
        intro hholding
        rw [hidle] at hholding
        cases hholding }

/-- The slot at the head is a rowset that needs no repair, or the end. -/
theorem take (h : s.Ahead opts cols R faults sees m k p q) {b : Batch v} {slot : Slot v}
    (hwants : s.Wants b) (hhead : ∃ rest, m = slot :: rest) :
    (s.take slot).Ahead opts cols R faults sees m k p q ∧
      (slot.isEos = false → (s.take slot).caller = .holding) := by
  obtain ⟨rest, hm⟩ := hhead
  cases slot with
  | eos => exact ⟨{ h with room := nofun }, nofun⟩
  | rows rowset fetched firstRow needsRepair =>
      have hslots := h.slots
      rw [hm] at hslots
      rw [hslots.1.1]
      exact ⟨{ h with room := fun _ => ⟨b, hwants.2.2⟩ }, fun _ => rfl⟩

/-- The conversion of the slot in hand. -/
theorem convert (h : s.Ahead opts cols R faults sees m k p q) {b : Batch v} {rowset : Rowset v}
    {fetched firstRow : Nat} {needsRepair : Bool} {rest : List (Slot v)}
    (hm : m = .rows rowset fetched firstRow needsRepair :: rest) (hthreaded : Threaded s.reader)
    (hfit : rowsetTruncated s.reader rowset fetched = false) (hholding : s.caller = .holding)
    (hbatch : s.session.batch = some b) :
    ((s.convert D rowset fetched b).caller = .releasing none ∧ 0 < fetched ∧
      (s.convert D rowset fetched b).Ahead opts cols R faults sees rest k (p + fetched) q) ∨
    ∃ e, (s.convert D rowset fetched b).caller = .releasing (some e) ∧ faults ∧
      (s.convert D rowset fetched b).session =
        { s.session with reader := popped s.reader (rowsetIsBulk rowset fetched) } := by
  have hslots := h.slots
  rw [hm] at hslots
  obtain ⟨⟨-, -, hpos, hmost, hcount, hwhole⟩, hrest⟩ := hslots
  have hconverted := hwhole.convert (D := D)
    (r := popped s.reader (rowsetIsBulk rowset fetched)) hpos h.columns hthreaded.cols
    hthreaded.allBound hfit s.reader.cursor b
  have hcursor : (popped s.reader (rowsetIsBulk rowset fetched)).cursor = s.reader.cursor := rfl
  unfold SharedReader.convert
  dsimp only
  rw [hcursor]
  cases hrun : convertRowset D (popped s.reader (rowsetIsBulk rowset fetched)) rowset fetched
      (rowsetIsBulk rowset fetched) s.reader.cursor b with
  | mk result c =>
      rw [hrun] at hconverted
      cases result with
      | error e =>
          right
          have hc : c = s.reader.cursor := by
            have hheld := convertRowset_held D
              (r := popped s.reader (rowsetIsBulk rowset fetched)) hthreaded.cols
              hthreaded.allBound hfit (rowsetIsBulk rowset fetched) s.reader.cursor b
            rw [hrun] at hheld
            exact (Prod.mk.inj hheld).2
          refine ⟨e, rfl, hconverted, ?_⟩
          dsimp only [setReader]
          rw [hc]
          rfl
      | ok b' =>
          obtain ⟨hc, hbulk, htotal, hcolumns⟩ := hconverted
          obtain ⟨hp, hfits, happended⟩ := h.batch b hbatch
          left
          refine ⟨rfl, hpos, ?_⟩
          dsimp only
          rw [hc]
          exact
            { h with
              between := nofun
              batch := by
                intro b'' hb''
                rw [← Option.some.inj hb'', htotal]
                refine ⟨by rw [hp, Nat.add_assoc], ?_, ?_⟩
                · obtain ⟨b'', hheld, hwants⟩ := h.room hholding
                  rw [hbatch, Option.some.injEq] at hheld
                  rw [← hheld] at hwants
                  unfold Session.wantsRowset at hwants
                  rw [Bool.and_eq_true, Bool.or_eq_true, decide_eq_true_eq,
                    decide_eq_true_eq] at hwants
                  have hblock : s.session.reader.rowsPerFetch ≤ s.session.reader.rowsetFull :=
                    h.block
                  have hmost' : fetched ≤ s.session.reader.rowsPerFetch := hmost
                  change b.total + fetched ≤
                    max s.session.reader.opts.batchSize s.session.reader.rowsetFull
                  omega
                · intro i hi
                  rw [hcolumns i hi, happended i hi, R.slice_add, hp]
              room := nofun
              within := hcount
              slots := hrest
              eos := fun heos => h.eos (hm ▸ List.mem_cons_of_mem _ heos)
              inStep := by
                intro hsound
                obtain ⟨V, hstep, hq⟩ := h.inStep hsound
                refine ⟨V, { hstep with
                  agrees := hstep.agrees.reader rfl rfl rfl hstep.agrees.size
                  exactly := ?_ }, hq⟩
                rw [popped, hbulk, hstep.exactly]
                rfl
              unsound := h.unsound }

/-- A batch that has a rowset of the ring gives the slot back. -/
theorem release (h : s.Ahead opts cols R faults sees m k p q) :
    (s.release none).Ahead opts cols R faults sees m k p q :=
  { h with room := nofun }

/-- Once the thread has met the end, the batches and the one under construction are all rows. -/
theorem ended (h : s.Ahead opts cols R faults sees [.eos] k p q) (hexited : s.fetcher = .exited)
    (hbound : s.reader.bound = true) :
    ∃ V, Holding opts cols R sees
      { s.session with reader := { s.reader with done := true } } V k := by
  have hslots := h.slots
  have hpending : s.pending = none := by rw [pending, hexited]
  rw [hpending] at hslots
  have hsound : s.Sound := by
    refine ⟨h.eos List.mem_cons_self, ?_⟩
    intro e hfailing
    rw [hexited] at hfailing
    cases hfailing
  obtain ⟨V, hstep, hq⟩ := h.inStep hsound
  have hpq : p = q := hslots.2
  have hnext : V.next = p := hq.trans hpq.symm
  refine ⟨V, hbound, ?_, h.delivered, ?_, ?_, fun _ => hslots.1.trans hnext.ge, Or.inl h.reading⟩
  · exact { hstep with agrees := hstep.agrees.reader rfl rfl rfl hstep.agrees.size }
  · exact fun hnone => hnext.trans (h.between hnone)
  · intro b hb
    rw [hnext]
    exact h.batch b hb

/-! ## The fetch thread -/

/-- A step of the fetch thread. -/
theorem fetches (h : s.Ahead opts cols R faults sees m k p q) {m' : List (Slot v)} {q' : Nat}
    (hcaller : s'.caller = s.caller)
    (hsession : s'.session = { s.session with
      reader := { s.reader with cursor := s'.reader.cursor, rowsSeen := s'.reader.rowsSeen } })
    (hslots : Consecutive cols R faults s.reader.rowsPerFetch p (m' ++ s'.pending.toList) q')
    (heos : .eos ∈ m' → s'.fetchFailed = none)
    (hinStep : s'.Sound → ∃ V, InStep opts cols R sees s'.reader V ∧ V.next = q')
    (hunsound : ¬ s'.Sound → faults) : s'.Ahead opts cols R faults sees m' k p q' := by
  have hbatch : s'.session.batch = s.session.batch := by rw [hsession]
  have hdelivered : s'.session.delivered = s.session.delivered := by rw [hsession]
  have houtcome : s'.session.outcome = s.session.outcome := by rw [hsession]
  have hreader : s'.reader =
      { s.reader with cursor := s'.reader.cursor, rowsSeen := s'.reader.rowsSeen } :=
    congrArg (fun session : Session δ v => session.reader) hsession
  have hmost : mostRows s'.session = mostRows s.session := by rw [hsession]; rfl
  have hwants : ∀ b, s'.session.wantsRowset b = s.session.wantsRowset b := by
    intro b
    rw [hsession]
    rfl
  have hrows : s'.reader.rowsPerFetch = s.reader.rowsPerFetch := by rw [hreader]
  exact
    { reading := houtcome.trans h.reading
      going := (congrArg OdbcReader.done hreader).trans h.going
      options := (congrArg OdbcReader.opts hreader).trans h.options
      columns := (congrArg OdbcReader.ncols hreader).trans h.columns
      unclipped := h.unclipped
      block := by
        rw [hreader]
        exact h.block
      delivered := by
        rw [hmost, hdelivered]
        exact h.delivered
      between := fun hnone => h.between (hbatch ▸ hnone)
      batch := by
        rw [hmost, hbatch]
        exact h.batch
      room := by
        rw [hcaller, hbatch]
        intro hholding
        obtain ⟨b, hb, hw⟩ := h.room hholding
        exact ⟨b, hb, (hwants b).trans hw⟩
      within := h.within
      slots := hrows.symm ▸ hslots
      eos := heos
      inStep := hinStep
      unsound := hunsound }

/-- A step of the fetch thread that makes no call. -/
theorem waits (h : s.Ahead opts cols R faults sees m k p q) {fetcher : FetchThread}
    (hpending : s.pending = none) (hpending' : { s with fetcher }.pending = none)
    (hsound : { s with fetcher }.Sound ↔ s.Sound) :
    { s with fetcher }.Ahead opts cols R faults sees m k p q :=
  { h with
    slots := by
      have hslots := h.slots
      rw [hpending] at hslots
      rw [hpending']
      exact hslots
    inStep := fun hs => h.inStep (hsound.mp hs)
    unsound := fun hs => h.unsound fun hs' => hs (hsound.mpr hs') }

theorem leave (h : s.Ahead opts cols R faults sees m k p q) (htop : s.fetcher = .top) :
    { s with fetcher := .exited }.Ahead opts cols R faults sees m k p q := by
  apply h.waits
  · rw [pending, htop]
  · rfl
  · simp [Sound, htop]

theorem room_for (h : s.Ahead opts cols R faults sees m k p q) (htop : s.fetcher = .top)
    (sl : Nat) : { s with fetcher := .filling sl }.Ahead opts cols R faults sees m k p q := by
  apply h.waits
  · rw [pending, htop]
  · rfl
  · simp [Sound, htop]

theorem fail (h : s.Ahead opts cols R faults sees m k p q) {e : AdbcError}
    (hfailing : s.fetcher = .failing e) (heos : .eos ∉ m) :
    { s with fetchFailed := some e, fetcher := .exited }.Ahead opts cols R faults sees m k p q :=
  { h with
    slots := by
      have hslots := h.slots
      rw [pending, hfailing] at hslots
      exact hslots
    eos := fun hmem => absurd hmem heos
    inStep := fun hsound => nomatch hsound.1
    unsound := fun _ => h.unsound fun hsound => hsound.2 e hfailing }

theorem bindInto (hcontract : FollowsContract D opts cols R faults sees)
    (h : s.Ahead opts cols R faults sees m k p q) {sl : Nat} (hfilling : s.fetcher = .filling sl)
    (hfailed : s.fetchFailed = none) (hthreaded : Threaded s.reader) :
    (s.bindInto D sl).Ahead opts cols R faults sees m k p q := by
  have hsound : s.Sound := ⟨hfailed, by simp [hfilling]⟩
  obtain ⟨V, hstep, hq⟩ := h.inStep hsound
  have hslots := h.slots
  rw [pending, hfilling] at hslots
  have hbind := hstep.bindSlot hcontract hthreaded.counts sl
  unfold SharedReader.bindInto
  dsimp only
  cases hcall : Reader.bindSlot D s.reader s.reader.cursor sl with
  | mk answer c =>
      rw [hcall] at hbind
      cases answer with
      | some e =>
          dsimp only
          apply h.fetches
          · rfl
          · rfl
          · exact hslots
          · exact h.eos
          · exact fun hs => absurd rfl (hs.2 e)
          · exact fun _ => hbind
      | none =>
          dsimp only
          apply h.fetches
          · rfl
          · rfl
          · exact hslots
          · exact h.eos
          · exact fun _ => ⟨V, hstep.cursor hbind, hq⟩
          · exact fun hs => absurd ⟨hfailed, by intro _ _; contradiction⟩ hs

theorem fetchInto (hcontract : FollowsContract D opts cols R faults sees)
    (h : s.Ahead opts cols R faults sees m k p q) {sl : Nat} (hbound : s.fetcher = .bound sl)
    (hfailed : s.fetchFailed = none) (hthreaded : Threaded s.reader) :
    ∃ q', (s.fetchInto D sl).Ahead opts cols R faults sees m k p q' := by
  have hsound : s.Sound := ⟨hfailed, by simp [hbound]⟩
  obtain ⟨V, hstep, hq⟩ := h.inStep hsound
  have hslots : Consecutive cols R faults s.reader.rowsPerFetch p m q := by
    have hall := h.slots
    rw [pending, hbound] at hall
    exact List.append_nil m ▸ hall
  have hpending : ∀ (t : SharedReader δ v) x,
      ({ t with ring := s.ring.fill sl x, fetcher := .publishing sl } : SharedReader δ v).pending =
        some x := fun t x => by simp [pending]
  have hsize : 0 < V.size := hstep.pos.trans_eq hstep.agrees.size.symm
  unfold SharedReader.fetchInto
  cases hfetch : D.fetch s.reader.cursor with
  | mk answer c =>
      cases answer with
      | failed e =>
          dsimp only
          refine ⟨q, ?_⟩
          apply h.fetches
          · rfl
          · rfl
          · exact (List.append_nil m).symm ▸ hslots
          · exact h.eos
          · exact fun hs => absurd rfl (hs.2 e)
          · exact fun _ => hcontract.notFetched hstep.sees hfetch
      | noData =>
          obtain ⟨hcount, hs⟩ := hcontract.noData hstep.sees hsize hfetch
          dsimp only
          refine ⟨q, ?_⟩
          apply h.fetches
          · rfl
          · rfl
          · rw [hpending]
            exact hslots.append ⟨hq ▸ hcount, rfl⟩
          · exact h.eos
          · exact fun _ => ⟨V, hstep.cursor hs, hq⟩
          · exact fun hs => absurd ⟨hfailed, by intro _ _; contradiction⟩ hs
      | rows rowset =>
          obtain ⟨n, hpos, hfits, hcount, hshows, hs⟩ := hcontract.fetched hstep.sees hfetch
          have hresolved : resolveFetched s.reader rowset = n := by
            have hcount := @InStep.resolved _ _ _ _ _ _ _ _ s.reader.cursor _ hstep _ _ hpos hfits
              hshows
            exact hcount
          obtain ⟨hwhole, hwide⟩ := hstep.whole hshows hthreaded.cols h.unclipped
          dsimp only
          rw [hresolved, hwide]
          refine ⟨q + n, ?_⟩
          apply h.fetches
          · rfl
          · rfl
          · rw [hpending]
            refine hslots.append ⟨⟨rfl, ?_, hpos, ?_, hq ▸ hcount, hq ▸ hwhole⟩, rfl⟩
            · rw [hstep.seen, hq]
            · exact hfits.trans_eq hstep.agrees.size
          · exact h.eos
          · exact fun _ => ⟨_, hstep.prefetched hcount hs, congrArg (· + n) hq⟩
          · exact fun hs => absurd ⟨hfailed, by intro _ _; contradiction⟩ hs

theorem publish (h : s.Ahead opts cols R faults sees m k p q) {sl : Nat} {slot : Slot v}
    (hpublishing : s.fetcher = .publishing sl) (hslot : s.ring.slots sl = some slot)
    (hfailed : s.fetchFailed = none) :
    (s.publish sl slot).Ahead opts cols R faults sees (m ++ [slot]) k p q := by
  have hslots := h.slots
  have hnone : (s.publish sl slot).pending = none ∧
      ∀ e, (s.publish sl slot).fetcher ≠ .failing e := by
    unfold SharedReader.publish pending
    cases slot.leaves with
    | true => exact ⟨rfl, nofun⟩
    | false => exact ⟨rfl, nofun⟩
  have hsound : s.Sound := ⟨hfailed, by simp [hpublishing]⟩
  rw [pending, hpublishing] at hslots
  dsimp only at hslots
  rw [hslot] at hslots
  apply h.fetches
  · rfl
  · rfl
  · rw [hnone.1]
    exact (List.append_nil _).symm ▸ hslots
  · exact fun _ => hfailed
  · exact fun _ => h.inStep hsound
  · exact fun hs => absurd ⟨hfailed, hnone.2⟩ hs

end Ahead

end SharedReader

end AdbcBridge.Reader
