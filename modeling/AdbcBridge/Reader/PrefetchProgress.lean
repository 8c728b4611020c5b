import AdbcBridge.Reader.PrefetchDelivery

/-!
# The prefetching reader comes to an end

On a driver that keeps the contract of a block cursor no order of steps goes on for ever, and in
none of them do the two threads wait for each other.  What is left to do is counted by the rows
that no batch has, the slots that are free, and where the two threads are.
-/

namespace AdbcBridge.Reader

open AdbcBridge.Adbc AdbcBridge.Lib

variable {δ v : Type*}

/-- What the fetch thread has still to do for the slot it is at. -/
def FetchThread.work : FetchThread → Nat
  | .absent => 0
  | .exited => 4
  | .publishing _ | .failing _ => 5
  | .bound _ => 6
  | .filling _ => 7
  | .top => 8

/-- What the caller has still to do for the slot it holds. -/
def Caller.work : Caller → Nat
  | .closed | .repairing => 0
  | .closing => 1
  | .joining _ | .releasing (some _) => 2
  | .stopping _ | .holding => 3
  | .idle => 4
  | .releasing none => 10

namespace Session

/-- The rows in the batches delivered and in the one under construction. -/
def rows (S : Session δ v) : Nat :=
  (S.delivered.map Batch.total).sum + (S.batch.map Batch.total).getD 0

/-- What is left for the batch under construction. -/
def stage (S : Session δ v) : Nat :=
  if S.batch.isNone then if S.reader.done then 1 else 13
  else if (S.batch.map Batch.total).getD 0 = 0 then if S.reader.done then 1 else 12
  else if S.reader.done then 2 else 14

/-- What is left of a result of `count` rows. -/
def work (count : Nat) (S : Session δ v) : Nat :=
  if S.outcome = .reading then 10 * (count - S.rows) + S.stage else 0

variable {D : Driver δ v} {S : Session δ v} {count : Nat}

theorem work_over (h : S.outcome ≠ .reading) : S.work count = 0 := if_neg h

theorem work_reading (h : S.outcome = .reading) :
    S.work count = 10 * (count - S.rows) + S.stage := if_pos h

theorem stage_pos (S : Session δ v) : 0 < S.stage := by
  unfold stage
  split_ifs
  all_goals omega

theorem work_pos (h : S.outcome = .reading) : 0 < S.work count := by
  have hstage := S.stage_pos
  rw [work_reading h]
  omega

theorem restoreRowset_done (r : OdbcReader δ) : (restoreRowset D r).done = r.done := by
  unfold restoreRowset
  split
  · split
    · rfl
    · rfl
  · rfl

theorem begin_work (hreading : S.outcome = .reading) (hnone : S.batch = none) :
    (S.begin D).work count < S.work count := by
  have hpos : 0 < S.work count := work_pos hreading
  have hgoes : ∀ r : OdbcReader δ, r.done = false → S.reader.done = false →
      ({ S with reader := r, batch := some {} } : Session δ v).work count < S.work count := by
    intro r hdone hgoing
    have hlater : ({ S with reader := r, batch := some {} } : Session δ v).outcome = .reading :=
      hreading
    rw [work_reading hlater, work_reading hreading]
    unfold rows stage
    simp only [hnone, hdone, hgoing]
    simp
  unfold begin
  split_ifs with hdone hbound
  · rw [work_over]
    · exact hpos
    · exact nofun
  · rw [Bool.not_eq_true] at hdone
    exact hgoes _ ((restoreRowset_done S.reader).trans hdone) hdone
  · rw [Bool.not_eq_true] at hdone
    split
    · rw [work_over]
      · exact hpos
      · exact nofun
    · rename_i r hbind
      have hunsized := readerBind_unsized D S.reader
      rw [hbind] at hunsized
      have hsame : r.done = S.reader.done :=
        congrArg (fun unsized : OdbcReader Unit => unsized.done) hunsized
      exact hgoes _ ((restoreRowset_done r).trans (hsame.trans hdone)) hdone

theorem finish_work {b : Batch v} (hreading : S.outcome = .reading) (hbatch : S.batch = some b) :
    (S.finish b).work count < S.work count := by
  have hpos : 0 < S.work count := work_pos hreading
  unfold finish
  split_ifs with hempty
  · rw [work_over]
    · exact hpos
    · exact nofun
  · have hlater : ({ S with batch := none, delivered := S.delivered ++ [b] } :
        Session δ v).outcome = .reading := hreading
    rw [work_reading hlater, work_reading hreading]
    unfold rows stage
    simp only [hbatch]
    simp [hempty]
    split_ifs
    all_goals omega

end Session

section

variable {D : Driver δ v} {opts : OdbcReaderOptions} {cols : List OdbcColumn} {R : ResultSet v}
  {faults : Prop} {sees : δ → CursorView → Prop} {S : Session δ v} {V : CursorView} {k : Nat}

theorem Holding.rows (h : Holding opts cols R sees S V k) : S.rows = V.next := by
  have htotals := h.delivered.totals
  unfold Session.rows
  cases hbatch : S.batch with
  | none =>
      rw [htotals, h.between hbatch]
      rfl
  | some b =>
      rw [htotals, (h.batch b hbatch).1]
      rfl

/-- A turn of the loop on a reader that is alone. -/
theorem Holding.turn_work (hcontract : FollowsContract D opts cols R faults sees)
    (h : Holding opts cols R sees S V k) (hreading : S.outcome = .reading) {b : Batch v}
    (hbatch : S.batch = some b) (hwants : S.wantsRowset b = true) :
    (S.turn D b).work R.count < S.work R.count := by
  have hpos : 0 < S.work R.count := Session.work_pos hreading
  have hrows := h.rows
  have hgoing : S.reader.done = false := by
    unfold Session.wantsRowset at hwants
    rw [Bool.and_eq_true, Bool.not_eq_true'] at hwants
    exact hwants.2
  have htotal : (S.delivered.map Batch.total).sum + b.total = V.next := by
    rw [← hrows]
    unfold Session.rows
    rw [hbatch]
    rfl
  unfold Session.turn
  cases hfetch : D.fetch S.reader.cursor with
  | mk answer s =>
      cases answer with
      | failed e =>
          dsimp only
          rw [Session.work_over]
          · exact hpos
          · exact nofun
      | noData =>
          have hlater : ({ S with reader := { S.reader with cursor := s, done := true } } :
              Session δ v).outcome = .reading := hreading
          dsimp only
          rw [Session.work_reading hlater, Session.work_reading hreading]
          unfold Session.rows Session.stage
          simp only [hbatch, hgoing]
          simp
          split_ifs
          all_goals omega
      | rows rowset =>
          obtain ⟨n, hpos', hfits, hcount, hshows, hs⟩ := hcontract.fetched h.inStep.sees hfetch
          have htake := take_spec hcontract h.inStep hpos' hfits hcount hshows hs b
          dsimp only at htake ⊢
          cases htake with
          | inl hfails =>
              obtain ⟨r, e, heq, -⟩ := hfails
              rw [heq, Session.work_over]
              · exact hpos
              · exact nofun
          | inr hgoes =>
              obtain ⟨r, b', heq, htakes⟩ := hgoes
              have hlater : ({ S with reader := r, batch := some b' } : Session δ v).outcome =
                  .reading := hreading
              have hdone : r.done = false := htakes.done.trans hgoing
              have htotal' := htakes.total
              rw [heq, Session.work_reading hlater, Session.work_reading hreading]
              unfold Session.rows Session.stage
              simp only [hbatch, hgoing, hdone]
              simp
              split_ifs
              all_goals omega

end

namespace SharedReader

/-- What is left to do of a result of `count` rows. -/
def work (count : Nat) (s : SharedReader δ v) : Nat :=
  s.session.work count + 5 * (s.ring.nslots - s.ring.filled) + s.fetcher.work + s.caller.work +
    if s.reader.bound = true then 0 else 60

section

variable {D : Driver δ v} {opts : OdbcReaderOptions} {declared : List (List Char × Declared)}
  {R : ResultSet v} {faults : Prop} {sees : δ → CursorView → Prop} {s s' : SharedReader δ v}
  {l : List (Slot v)} {count n : Nat}

/-! ## Every step brings the end nearer -/

theorem work_lt (hbound : s'.reader.bound = s.reader.bound)
    (h : s'.session.work count + 5 * (s'.ring.nslots - s'.ring.filled) + s'.fetcher.work +
      s'.caller.work < s.session.work count + 5 * (s.ring.nslots - s.ring.filled) +
        s.fetcher.work + s.caller.work) : s'.work count < s.work count := by
  unfold work
  rw [hbound]
  exact Nat.add_lt_add_right h _

/-- A step of the caller that leaves ring and thread alone. -/
theorem work_lt_caller (hring : s'.ring = s.ring) (hfetcher : s'.fetcher = s.fetcher)
    (hbound : s'.reader.bound = s.reader.bound)
    (h : s'.session.work count + s'.caller.work < s.session.work count + s.caller.work) :
    s'.work count < s.work count := by
  apply work_lt hbound
  rw [hring, hfetcher]
  omega

/-- A step of the fetch thread. -/
theorem Step.fetchThread_work (hsafe : s.Safe l) (hstep : Step D s .fetchThread s') :
    s'.work count < s.work count := by
  obtain ⟨-, hcaller, hsession⟩ := hstep.session
  have hwork : s'.session.work count = s.session.work count := by rw [hsession]; rfl
  have hmoves : 5 * (s'.ring.nslots - s'.ring.filled) + s'.fetcher.work <
      5 * (s.ring.nslots - s.ring.filled) + s.fetcher.work := by
    cases hstep with
    | leave htop => simp [htop, FetchThread.work]
    | room htop => simp [htop, FetchThread.work]
    | @bind sl hfilling =>
        rw [hfilling]
        unfold SharedReader.bindInto
        dsimp only
        split
        · simp [SlotRing.clear, setReader, FetchThread.work]
        · simp [SlotRing.clear, setReader, FetchThread.work]
    | @fetch sl hfetches =>
        rw [hfetches]
        unfold SharedReader.fetchInto
        split
        · simp [SlotRing.fill, FetchThread.work]
        · simp [setReader, FetchThread.work]
        · simp [SlotRing.fill, FetchThread.work]
    | @publish sl slot hpublishing _ =>
        have hring := hsafe.ring
        rw [hpublishing] at hring
        have hroom := (hring.work sl rfl).2
        rw [hpublishing]
        unfold SharedReader.publish SlotRing.publish
        dsimp only
        split
        · simp only [FetchThread.work]
          omega
        · simp only [FetchThread.work]
          omega
    | fail hfailing => simp [hfailing, FetchThread.work]
  apply work_lt
  · rw [reader, hsession]
  · rw [hwork, hcaller]
    omega

/-- Giving a slot back is less than what a batch has left. -/
theorem release_room (filled nslots : Nat) :
    5 * (nslots - (filled - 1)) ≤ 5 * (nslots - filled) + 5 := by
  omega

/-- A failed conversion ends the work on the batch. -/
theorem Doomed.release_work (h : s.Doomed opts n R faults) {e : AdbcError}
    (hcaller : s.caller = .releasing (some e)) :
    (s.release (some e)).work count < s.work count := by
  have hroom := release_room s.ring.filled s.ring.nslots
  have hstage : 12 ≤ s.session.stage := by
    obtain ⟨b, hb⟩ := Option.isSome_iff_exists.mp h.batch
    have hgoing : s.session.reader.done = false := h.going
    unfold Session.stage
    simp [hb, hgoing]
    split_ifs
    all_goals omega
  refine work_lt rfl ?_
  rw [Session.work_reading h.reading]
  have hover : (s.release (some e)).session.work count = 0 := Session.work_over nofun
  rw [hover, hcaller]
  simp only [SharedReader.release, SlotRing.release, Caller.work]
  omega

/-- A conversion adds at least one row to the batch. -/
theorem Ahead.rows {cols : List OdbcColumn} {m : List (Slot v)} {k p q : Nat}
    (h : s.Ahead opts cols R faults sees m k p q) : s.session.rows = p := by
  have htotals := h.delivered.totals
  unfold Session.rows
  cases hbatch : s.session.batch with
  | none =>
      rw [htotals, h.between hbatch]
      rfl
  | some b =>
      rw [htotals, (h.batch b hbatch).1]
      rfl

theorem Ahead.stage {cols : List OdbcColumn} {m : List (Slot v)} {k p q : Nat}
    (h : s.Ahead opts cols R faults sees m k p q) {b : Batch v}
    (hbatch : s.session.batch = some b) : 12 ≤ s.session.stage ∧ s.session.stage ≤ 14 := by
  have hgoing : s.session.reader.done = false := h.going
  unfold Session.stage
  simp [hbatch, hgoing]
  split_ifs
  all_goals omega

theorem Stage.convert_work (hsafe : s.Safe l) (h : s.Stage opts declared R faults sees l)
    {b : Batch v} {rowset : Rowset v} {fetched firstRow : Nat} {needsRepair : Bool}
    (hholding : s.caller = .holding) (hbatch : s.session.batch = some b)
    (hslot : s.ring.slots s.curSlot = some (.rows rowset fetched firstRow needsRepair)) :
    (s.convert D rowset fetched b).work R.count < s.work R.count := by
  have hring : (s.convert D rowset fetched b).ring = s.ring ∧
      (s.convert D rowset fetched b).fetcher = s.fetcher ∧
        (s.convert D rowset fetched b).reader.bound = s.reader.bound := by
    unfold SharedReader.convert
    dsimp only
    split
    · exact ⟨rfl, rfl, rfl⟩
    · exact ⟨rfl, rfl, rfl⟩
  refine work_lt_caller hring.1 hring.2.1 hring.2.2 ?_
  cases h with
  | fresh hidle => simp [hholding] at hidle
  | alone hidle => simp [hholding] at hidle
  | doomed hdoomed =>
      obtain ⟨e, hcaller⟩ := hdoomed.caller
      simp [hholding] at hcaller
  | settled hsettled =>
      have hcaller := hsettled.caller
      simp [hholding] at hcaller
  | @ahead m k p q hthread _ hunread hahead =>
      have hm : l = m := hunread.idle (by rw [hholding]; exact nofun)
      obtain ⟨-, -, -, hfit, rest, hl⟩ := hsafe.in_hand hholding hslot
      cases hahead.convert (D := D) (hm.symm.trans hl) (hsafe.threaded hthread) hfit hholding
        hbatch with
      | inl hread =>
          obtain ⟨hcaller, hpos, hahead'⟩ := hread
          have hwithin := hahead'.within
          have hstage := (hahead.stage hbatch).1
          have hlater : ∃ b', (s.convert D rowset fetched b).session.batch = some b' := by
            cases hnone : (s.convert D rowset fetched b).session.batch with
            | some b' => exact ⟨b', rfl⟩
            | none =>
                have hp := (hahead.batch b hbatch).1
                have hp' := hahead'.between hnone
                omega
          obtain ⟨b', hbatch'⟩ := hlater
          have hstage' := (hahead'.stage hbatch').2
          rw [Session.work_reading hahead'.reading, Session.work_reading hahead.reading,
            hahead'.rows, hahead.rows, hcaller, hholding]
          simp only [Caller.work]
          omega
      | inr hfails =>
          obtain ⟨e, hcaller, -, hsession⟩ := hfails
          have hsame : (s.convert D rowset fetched b).session.work R.count =
              s.session.work R.count := by
            rw [hsession]
            rfl
          rw [hsame, hcaller, hholding]
          simp [Caller.work]

theorem Stage.release_work (h : s.Stage opts declared R faults sees l)
    {status : Option AdbcError} (hreleasing : s.caller = .releasing status) :
    (s.release status).work count < s.work count := by
  cases status with
  | none =>
      have hroom := release_room s.ring.filled s.ring.nslots
      refine work_lt rfl ?_
      rw [hreleasing]
      simp only [SharedReader.release, SlotRing.release, Caller.work]
      omega
  | some e =>
      cases h with
      | fresh hidle => simp [hreleasing] at hidle
      | alone hidle => simp [hreleasing] at hidle
      | doomed hdoomed => exact hdoomed.release_work hreleasing
      | settled hsettled =>
          have hcaller := hsettled.caller
          simp [hreleasing] at hcaller
      | ahead _ _ hunread _ =>
          cases hunread with
          | inl hall => exact absurd hreleasing (hall.2 (some e))
          | inr hhead =>
              obtain ⟨x, -, hcaller⟩ := hhead
              simp [hreleasing] at hcaller

theorem stage_done (S : Session δ v) :
    ({ S with reader := { S.reader with done := true } } : Session δ v).stage ≤ S.stage := by
  unfold Session.stage
  simp only [if_true]
  split_ifs
  all_goals omega

theorem joined_work {why : Joins} (hjoining : s.caller = .joining why)
    (hexited : s.fetcher = .exited) : (s.joined why).work count < s.work count := by
  have hdone : ({ s.session with reader := { s.reader with done := true } } :
      Session δ v).work count ≤ s.session.work count := by
    have hstage := stage_done s.session
    by_cases hreading : s.session.outcome = .reading
    · rw [Session.work_reading hreading, Session.work_reading (by exact hreading)]
      exact Nat.add_le_add_left hstage _
    · rw [Session.work_over hreading, Session.work_over (by exact hreading)]
  have hjoined : (s.joined why).session.work count ≤ s.session.work count ∧
      (s.joined why).caller.work ≤ 4 ∧ (s.joined why).fetcher = .absent ∧
        (s.joined why).ring = s.ring ∧ (s.joined why).reader.bound = s.reader.bound := by
    cases why with
    | ended => exact ⟨hdone, le_rfl, rfl, rfl, rfl⟩
    | answer failed =>
        cases failed with
        | none => exact ⟨hdone, le_rfl, rfl, rfl, rfl⟩
        | some e =>
            have hover : (s.joined (.answer (some e))).session.work count = 0 :=
              Session.work_over nofun
            exact ⟨hover.trans_le (Nat.zero_le _), le_rfl, rfl, rfl, rfl⟩
    | repair => exact ⟨le_rfl, Nat.zero_le 4, rfl, rfl, rfl⟩
    | release => exact ⟨le_rfl, Nat.le_of_ble_eq_true rfl, rfl, rfl, rfl⟩
  obtain ⟨hsession, hcaller, habsent, hring, hbound⟩ := hjoined
  refine work_lt hbound ?_
  have hleaves : (s.joined why).fetcher.work = 0 := congrArg FetchThread.work habsent
  have hwaits : s.caller.work = 2 := congrArg Caller.work hjoining
  have hleft : s.fetcher.work = 4 := congrArg FetchThread.work hexited
  rw [hring, hleaves, hwaits, hleft]
  omega

theorem slotCount_le (prefetch : Nat) (r : OdbcReader δ) : slotCount prefetch r ≤ 9 := by
  unfold slotCount maxPrefetch
  split
  all_goals omega

theorem FetchThread.work_le (started : Prop) [Decidable started] :
    (if started then FetchThread.top else .absent).work ≤ 8 := by
  split
  · exact le_rfl
  · exact Nat.zero_le 8

theorem begin_stays (hbound : s.reader.bound = true) :
    (s.session.begin D).reader.bound = true := by
  unfold Session.begin
  split_ifs
  · exact hbound
  · exact (congrArg Kept.bound (Session.restoreRowset_kept D _)).trans hbound

/-- The first call pays for the slots and the thread. -/
theorem begin_work (hsafe : s.Safe l) (started : Bool) (hreading : s.session.outcome = .reading)
    (hnone : s.session.batch = none) : (s.begin D started).work count < s.work count := by
  have hbegins : (s.session.begin D).work count < s.session.work count :=
    Session.begin_work hreading hnone
  unfold SharedReader.begin
  dsimp only
  split
  · rename_i hbinds
    rw [Bool.and_eq_true, Bool.not_eq_true'] at hbinds
    obtain ⟨hring, habsent, -⟩ := hsafe.fresh hbinds.1
    have hslots := slotCount_le s.prefetch (s.session.begin D).reader
    have hthread := FetchThread.work_le
      (1 < slotCount s.prefetch (s.session.begin D).reader ∧ started = true)
    have hbound : s.reader.bound = false := hbinds.1
    unfold work
    rw [hring, habsent, hbound, if_neg Bool.false_ne_true, if_pos hbinds.2]
    have hsame : ∀ adapts, ({ s.session.begin D with
        reader := { (s.session.begin D).reader with adaptOpen := adapts } } :
          Session δ v).work count = (s.session.begin D).work count := fun _ => rfl
    rw [hsame]
    simp only [FetchThread.work] at hthread ⊢
    omega
  · rename_i hkeeps
    have hbound : (s.session.begin D).reader.bound = s.reader.bound := by
      cases hfirst : s.reader.bound with
      | true => exact begin_stays hfirst
      | false => simpa [hfirst] using hkeeps
    refine work_lt hbound ?_
    dsimp only
    omega

/-- Every step leaves less to do. -/
theorem Stage.step_work {party : Party}
    (hcontract : FollowsContract D opts (describeColumns opts declared) R faults sees)
    (hsafe : s.Safe l) (h : s.Stage opts declared R faults sees l) (hstep : Step D s party s') :
    s'.work R.count < s.work R.count := by
  cases party with
  | fetchThread => exact hstep.fetchThread_work hsafe
  | caller =>
      cases hstep with
      | begin started _ hreading hnone => exact begin_work hsafe started hreading hnone
      | @finish b hidle hreading hbatch hfull =>
          have hbound : (s.session.finish b).reader.bound = s.reader.bound := by
            unfold Session.finish
            split_ifs
            all_goals rfl
          refine work_lt_caller rfl rfl hbound ?_
          exact Nat.add_lt_add_right (Session.finish_work hreading hbatch) _
      | @turn b hwants halone =>
          have hbound : (s.session.turn D b).reader.bound = s.reader.bound :=
            congrArg Kept.bound (Session.turn_kept D s.session b)
          refine work_lt_caller rfl rfl hbound (Nat.add_lt_add_right ?_ _)
          cases h with
          | fresh _ _ hfresh =>
              have hbatch := hwants.2.2.1
              rw [hfresh.start] at hbatch
              cases hbatch
          | alone _ _ hholding =>
              exact hholding.turn_work hcontract hwants.2.1 hwants.2.2.1 hwants.2.2.2
          | ahead hthread => exact absurd halone hthread
          | doomed hdoomed =>
              obtain ⟨e, hcaller⟩ := hdoomed.caller
              simp [hwants.1] at hcaller
          | settled hsettled =>
              have hcaller := hsettled.caller
              simp [hwants.1, hwants.2.1] at hcaller
      | @take b slot hwants _ _ _ =>
          have hcaller : (s.take slot).caller.work = 3 := by
            cases slot with
            | eos => rfl
            | rows rowset fetched firstRow needsRepair =>
                cases needsRepair with
                | true => rfl
                | false => rfl
          refine work_lt rfl ?_
          rw [hcaller, hwants.1]
          simp only [SharedReader.take, SlotRing.take, Caller.work]
          omega
      | drained hwants _ _ _ =>
          refine work_lt_caller rfl rfl rfl ?_
          simp [hwants.1, Caller.work]
      | convert hholding hbatch hslot => exact h.convert_work hsafe hholding hbatch hslot
      | release hreleasing => exact h.release_work hreleasing
      | stop hstopping =>
          refine work_lt_caller rfl rfl rfl ?_
          simp [hstopping, Caller.work]
      | join hjoining hexited => exact joined_work hjoining hexited
      | handBack hrepairing _ _ =>
          exact absurd hrepairing (h.inOrder hsafe).unrepaired
      | close hidle _ =>
          refine work_lt_caller rfl rfl rfl ?_
          dsimp only
          split
          · simp [hidle, Caller.work]
          · simp [hidle, Caller.work]
      | closed hclosing =>
          refine work_lt_caller rfl rfl rfl ?_
          have hsame : (s.close D).session.work R.count = s.session.work R.count := rfl
          rw [hsame]
          simp [hclosing, SharedReader.close, setReader, Caller.work]

/-! ## No thread waits for ever -/

/-- Only a caller that waits for the thread has told it to stop, and what has ended holds no
batch. -/
structure Orderly (s : SharedReader δ v) : Prop where
  empty : s.session.outcome ≠ .reading → s.session.batch = none
  stopped : s.fetchStop = true → s.fetcher = .absent ∨ ∃ why, s.caller = .joining why
  joins : ∀ why, s.caller = .joining why → s.fetchStop = true

/-- A step of a caller that neither waits for the thread nor comes to do so. -/
theorem Orderly.acts (h : s.Orderly) (hfetcher : s'.fetcher = s.fetcher)
    (hstop : s'.fetchStop = s.fetchStop) (hold : ∀ why, s.caller ≠ .joining why)
    (hnew : ∀ why, s'.caller ≠ .joining why)
    (hempty : s'.session.outcome ≠ .reading → s'.session.batch = none) : s'.Orderly where
  empty := hempty
  stopped := by
    intro hs
    left
    rw [hfetcher]
    refine (h.stopped (hstop ▸ hs)).resolve_right ?_
    intro hjoining
    obtain ⟨why, hwhy⟩ := hjoining
    exact hold why hwhy
  joins := fun why hwhy => absurd hwhy (hnew why)

theorem Session.begin_over {S : Session δ v} (hnone : S.batch = none)
    (hreading : S.outcome = .reading) (h : (S.begin D).outcome ≠ .reading) :
    (S.begin D).batch = none := by
  unfold Session.begin at h ⊢
  split_ifs at h ⊢
  · exact hnone
  · exact absurd hreading h
  · split at h
    · rfl
    · exact absurd hreading h

theorem Session.turn_over {S : Session δ v} {b : Batch v} (hreading : S.outcome = .reading)
    (h : (S.turn D b).outcome ≠ .reading) : (S.turn D b).batch = none := by
  unfold Session.turn at h ⊢
  split at h
  · exact absurd hreading h
  · rfl
  · unfold Session.take at h ⊢
    dsimp only at h ⊢
    split at h
    · rename_i hrepairs
      rw [if_pos hrepairs]
      split at h
      · rfl
      · exact absurd hreading h
    · rename_i hrepairs
      rw [if_neg hrepairs]
      split at h
      · rfl
      · split at h
        · rfl
        · exact absurd hreading h

theorem Orderly.fetchThread (h : s.Orderly) (hstep : Step D s .fetchThread s') : s'.Orderly := by
  obtain ⟨hpresent, hcaller, hsession⟩ := hstep.session
  have hstop : s'.fetchStop = s.fetchStop := by
    cases hstep with
    | @bind sl _ =>
        unfold SharedReader.bindInto
        dsimp only
        split
        all_goals rfl
    | @fetch sl _ =>
        unfold SharedReader.fetchInto
        split
        all_goals rfl
    | _ => rfl
  refine ⟨?_, ?_, ?_⟩
  · rw [hsession]
    exact h.empty
  · rw [hstop, hcaller]
    exact fun hs => Or.inr ((h.stopped hs).resolve_left hpresent)
  · rw [hstop, hcaller]
    exact h.joins

theorem Orderly.step {party : Party} (hsafe : s.Safe l) (h : s.Orderly)
    (hstep : Step D s party s') : s'.Orderly := by
  cases party with
  | fetchThread => exact h.fetchThread hstep
  | caller =>
      cases hstep with
      | begin started hidle hreading hnone =>
          have hempty := Session.begin_over (D := D) hnone hreading
          unfold SharedReader.begin
          dsimp only
          split
          · rename_i hbinds
            rw [Bool.and_eq_true, Bool.not_eq_true'] at hbinds
            have hstop : s.fetchStop = false := (hsafe.fresh hbinds.1).2.2.2.2.1
            refine ⟨hempty, fun hs => ?_, fun why hwhy => ?_⟩
            · exact absurd (hstop.symm.trans hs) Bool.false_ne_true
            · exact absurd (hidle.symm.trans hwhy) (by intro _; contradiction)
          · apply h.acts
            · rfl
            · rfl
            · simp [hidle]
            · simp [hidle]
            · exact hempty
      | @finish b hidle hreading hbatch hfull =>
          apply h.acts
          · rfl
          · rfl
          · simp [hidle]
          · simp [hidle]
          · unfold Session.finish
            split_ifs
            · exact fun _ => rfl
            · exact fun _ => rfl
      | @turn b hwants halone =>
          apply h.acts
          · rfl
          · rfl
          · simp [hwants.1]
          · simp [hwants.1]
          · exact Session.turn_over hwants.2.1
      | @take b slot hwants _ _ _ =>
          apply h.acts
          · rfl
          · rfl
          · simp [hwants.1]
          · cases slot with
            | eos => intro _ _; contradiction
            | rows rowset fetched firstRow needsRepair =>
                cases needsRepair with
                | true => intro _ _; contradiction
                | false => intro _ _; contradiction
          · exact h.empty
      | drained hwants _ _ _ =>
          apply h.acts
          · rfl
          · rfl
          · simp [hwants.1]
          · simp
          · exact h.empty
      | @convert b rowset fetched firstRow needsRepair hholding hbatch hslot =>
          have hreading : ¬ s.session.outcome ≠ .reading := by
            intro hover
            have hnone := h.empty hover
            rw [hbatch] at hnone
            cases hnone
          unfold SharedReader.convert
          dsimp only
          split
          · apply h.acts
            · rfl
            · rfl
            · simp [hholding]
            · intro _ _; contradiction
            · exact h.empty
          · apply h.acts
            · rfl
            · rfl
            · simp [hholding]
            · intro _ _; contradiction
            · exact fun hover => absurd hover hreading
      | @release status hreleasing =>
          apply h.acts
          · rfl
          · rfl
          · simp [hreleasing]
          · intro _ _; contradiction
          · cases status with
            | none => exact h.empty
            | some e => exact fun _ => rfl
      | stop hstopping =>
          exact ⟨h.empty, fun _ => Or.inr ⟨_, rfl⟩, fun _ _ => rfl⟩
      | @join why hjoining hexited =>
          cases why with
          | answer failed =>
              cases failed with
              | none => exact ⟨h.empty, fun _ => Or.inl rfl, by intro _ _; contradiction⟩
              | some e => exact ⟨fun _ => rfl, fun _ => Or.inl rfl, by intro _ _; contradiction⟩
          | _ => exact ⟨h.empty, fun _ => Or.inl rfl, by intro _ _; contradiction⟩
      | @handBack b rowset fetched firstRow needsRepair hrepairing hbatch hslot =>
          have hreading : ¬ s.session.outcome ≠ .reading := by
            intro hover
            have hnone := h.empty hover
            rw [hbatch] at hnone
            cases hnone
          have halone : s.fetcher = .absent := by
            have hok := hsafe.caller
            rw [CallerOk, hrepairing] at hok
            exact hok.1
          unfold SharedReader.handBack
          dsimp only
          split
          · exact ⟨fun _ => rfl, fun _ => Or.inl halone, by intro _ _; contradiction⟩
          · split
            · exact ⟨fun _ => rfl, fun _ => Or.inl halone, by intro _ _; contradiction⟩
            · exact ⟨fun hover => absurd hover hreading, fun _ => Or.inl halone,
                by intro _ _; contradiction⟩
      | close hidle hnone =>
          apply h.acts
          · rfl
          · rfl
          · simp [hidle]
          · dsimp only
            split
            all_goals (intro _ _; contradiction)
          · exact fun _ => hnone
      | closed hclosing =>
          apply h.acts
          · rfl
          · rfl
          · simp [hclosing]
          · intro _ _; contradiction
          · exact h.empty

/-- A thread that has work to do, or is told to stop, can go on. -/
theorem thread_goes_on (hsafe : s.Safe l) (hrunning : s.Running)
    (h : s.fetchStop = true ∨ s.ring.filled < s.ring.nslots) :
    ∃ s', Step D s .fetchThread s' := by
  cases hfetcher : s.fetcher with
  | absent => exact absurd hfetcher hrunning.1
  | exited => exact absurd hfetcher hrunning.2
  | top =>
      cases hstop : s.fetchStop with
      | true => exact ⟨_, .leave hfetcher hstop⟩
      | false =>
          have hroom := h.resolve_left (by simp [hstop])
          exact ⟨_, .room hfetcher hstop hroom⟩
  | filling sl => exact ⟨_, .bind hfetcher⟩
  | bound sl => exact ⟨_, .fetch hfetcher⟩
  | publishing sl =>
      obtain ⟨slot, hslot⟩ := Option.isSome_iff_exists.mp (hsafe.written sl hfetcher)
      exact ⟨_, .publish hfetcher hslot⟩
  | failing e => exact ⟨_, .fail hfetcher⟩

theorem nslots_pos (hsafe : s.Safe l) : 0 < s.ring.nslots :=
  (Nat.zero_le _).trans_lt hsafe.ring.holds.head_lt

/-- A caller that waits for a slot, or for the thread to leave, is not left waiting. -/
theorem waits_for_slot {b : Batch v} (hsafe : s.Safe l) (h : s.Orderly) (hwants : s.Wants b)
    (hthread : s.fetcher ≠ .absent) : ∃ party s', Step D s party s' := by
  have hstop : s.fetchStop ≠ true := by
    intro hs
    cases h.stopped hs with
    | inl habsent => exact hthread habsent
    | inr hjoining =>
        obtain ⟨why, hwhy⟩ := hjoining
        rw [hwants.1] at hwhy
        cases hwhy
  by_cases hfilled : 0 < s.ring.filled
  · have hring := hsafe.ring
    cases hl : l with
    | nil =>
        rw [hring.filled_eq, hl] at hfilled
        exact absurd hfilled (Nat.lt_irrefl 0)
    | cons slot rest =>
        rw [hl] at hring
        exact ⟨.caller, _, .take hwants hthread hfilled hring.head⟩
  · have hempty : s.ring.filled = 0 := Nat.eq_zero_of_not_pos hfilled
    by_cases hover : s.fetchFailed.isSome = true ∨ s.fetchDone = true
    · exact ⟨.caller, _, .drained hwants hthread hempty hover⟩
    · have hrunning : s.Running := by
        refine ⟨hthread, fun hexited => ?_⟩
        have hnil : l = [] := List.length_eq_zero_iff.mp (hsafe.ring.filled_eq ▸ hempty)
        rcases hsafe.exited hexited with hs | hfailed | hleaves
        · exact hstop hs
        · exact hover (Or.inl hfailed)
        · obtain ⟨x, hx, -⟩ := hleaves
          rw [hnil] at hx
          cases hx
      obtain ⟨s', hstep⟩ := thread_goes_on (D := D) hsafe hrunning
        (Or.inr (hempty ▸ nslots_pos hsafe))
      exact ⟨.fetchThread, s', hstep⟩

theorem waits_for_thread (hsafe : s.Safe l) (h : s.Orderly) (hthread : s.fetcher ≠ .absent)
    {why : Joins} (hjoining : s.caller = .joining why) : ∃ party s', Step D s party s' := by
  by_cases hexited : s.fetcher = .exited
  · exact ⟨.caller, _, .join hjoining hexited⟩
  · obtain ⟨s', hstep⟩ := thread_goes_on (D := D) hsafe ⟨hthread, hexited⟩
      (Or.inl (h.joins why hjoining))
    exact ⟨.fetchThread, s', hstep⟩

/-- A caller between two calls, or in the loop of one. -/
theorem idle_goes_on (hsafe : s.Safe l) (h : s.Orderly) (hidle : s.caller = .idle) :
    ∃ party s', Step D s party s' := by
  by_cases hreading : s.session.outcome = .reading
  · cases hbatch : s.session.batch with
    | none => exact ⟨.caller, _, .begin true hidle hreading hbatch⟩
    | some b =>
        cases hwants : s.session.wantsRowset b with
        | false => exact ⟨.caller, _, .finish hidle hreading hbatch hwants⟩
        | true =>
            have hwants' : s.Wants b := ⟨hidle, hreading, hbatch, hwants⟩
            by_cases halone : s.fetcher = .absent
            · exact ⟨.caller, _, .turn hwants' halone⟩
            · exact waits_for_slot hsafe h hwants' halone
  · exact ⟨.caller, _, .close hidle (h.empty hreading)⟩

/-- Until the reader is released there is a step to take. -/
theorem Stage.goes_on (hsafe : s.Safe l) (horderly : s.Orderly)
    (h : s.Stage opts declared R faults sees l) (hopen : s.caller ≠ .closed) :
    ∃ party s', Step D s party s' := by
  have hok := hsafe.caller
  rw [CallerOk] at hok
  cases hcaller : s.caller with
  | idle => exact idle_goes_on hsafe horderly hcaller
  | closed => exact absurd hcaller hopen
  | closing => exact ⟨.caller, _, .closed hcaller⟩
  | stopping why => exact ⟨.caller, _, .stop hcaller⟩
  | joining why =>
      rw [hcaller] at hok
      exact waits_for_thread hsafe horderly hok.1 hcaller
  | repairing => exact absurd hcaller (h.inOrder hsafe).unrepaired
  | releasing status => exact ⟨.caller, _, .release hcaller⟩
  | holding =>
      rw [hcaller] at hok
      obtain ⟨-, -, hcur, rowset, fetched, firstRow, rest, hl⟩ := hok
      have hring := hsafe.ring
      rw [hl] at hring
      have hslot := hring.head
      rw [← hcur] at hslot
      cases h with
      | fresh hidle => simp [hcaller] at hidle
      | alone hidle => simp [hcaller] at hidle
      | ahead _ _ _ hahead =>
          obtain ⟨b, hbatch, -⟩ := hahead.room hcaller
          exact ⟨.caller, _, .convert hcaller hbatch hslot⟩
      | doomed hdoomed =>
          obtain ⟨e, hreleasing⟩ := hdoomed.caller
          simp [hcaller] at hreleasing
      | settled hsettled =>
          have hwhere := hsettled.caller
          simp [hcaller] at hwhere

/-- No order of the steps goes on for ever: a run is no longer than the rows of the result allow,
and where no step is left the reader is released, its thread joined. -/
theorem prefetch_comes_to_an_end {cursor : δ} {prefetch : Nat} {trace : List Party}
    (hcontract : FollowsContract D opts (describeColumns opts declared) R faults sees)
    (hopen : sees cursor {})
    (run : Run (Step D) (start prefetch (readerInit opts declared cursor)) trace s) :
    trace.length ≤ 10 * R.count + 82 ∧
      ((∀ party s', ¬ Step D s party s') → s.caller = .closed ∧ s.fetcher = .absent) := by
  obtain ⟨l, hsafe, hstage, horderly, hwork⟩ : ∃ l, s.Safe l ∧
      s.Stage opts declared R faults sees l ∧ s.Orderly ∧
        trace.length + s.work R.count ≤ 10 * R.count + 82 := by
    apply run.invariant (I := fun trace s => ∃ l, s.Safe l ∧
      s.Stage opts declared R faults sees l ∧ s.Orderly ∧
        trace.length + s.work R.count ≤ 10 * R.count + 82)
    · refine ⟨[], .start prefetch opts declared cursor, .fresh rfl rfl ⟨rfl, hopen⟩, ?_, ?_⟩
      · exact ⟨fun _ => rfl, nofun, nofun⟩
      · change 0 + (10 * (R.count - 0) + 13 + 5 * (1 - 0) + 0 + 4 + 60) ≤ _
        omega
    · intro trace s party s' h hstep
      obtain ⟨l, hsafe, hstage, horderly, hwork⟩ := h
      obtain ⟨l', hsafe', hstage'⟩ := hstage.step hcontract hsafe hstep
      have hless := hstage.step_work hcontract hsafe hstep
      refine ⟨l', hsafe', hstage', horderly.step hsafe hstep, ?_⟩
      rw [List.length_append, List.length_singleton]
      omega
  refine ⟨by omega, fun hstuck => ?_⟩
  have hclosed : s.caller = .closed := by
    by_contra hnot
    obtain ⟨party, s', hstep⟩ := hstage.goes_on (D := D) hsafe horderly hnot
    exact hstuck party s' hstep
  have hok := hsafe.caller
  rw [CallerOk, hclosed] at hok
  exact ⟨hclosed, hok⟩

end

/-- A reader of two rows, from the first call to its release. -/
theorem twoRows_released : ∃ trace s,
    Run (Step twoRows.driver) (start 1 (readerInit twoRowsOptions twoRowsColumn {})) trace s ∧
      s.session.outcome = .ended ∧ s.caller = .closed ∧ trace.length ≤ 10 * 2 + 82 := by
  have begun : Run (Step twoRows.driver)
      (start 1 (readerInit twoRowsOptions twoRowsColumn {})) [.caller] _ :=
    Run.nil.snoc (.begin true rfl rfl rfl)
  have fetched := ((begun.snoc (.room rfl rfl (by decide))).snoc (.bind rfl)).snoc (.fetch rfl)
  have taken := (fetched.snoc (.publish rfl rfl)).snoc
    (.take ⟨rfl, rfl, rfl, rfl⟩ nofun (by decide) rfl)
  have converted := (taken.snoc (.convert rfl rfl rfl)).snoc (.release rfl)
  have delivered := (converted.snoc (.finish rfl rfl rfl rfl)).snoc (.begin true rfl rfl rfl)
  have exhausted := (((delivered.snoc (.room rfl rfl (by decide))).snoc (.bind rfl)).snoc
    (.fetch rfl)).snoc (.publish rfl rfl)
  have joined := ((exhausted.snoc (.take ⟨rfl, rfl, rfl, rfl⟩ nofun (by decide) rfl)).snoc
    (.stop rfl)).snoc (.join rfl rfl)
  have ended := joined.snoc (.finish rfl rfl rfl rfl)
  have released := (ended.snoc (.close rfl rfl)).snoc (.closed rfl)
  exact ⟨_, _, released, rfl, rfl, (prefetch_comes_to_an_end (R := twoRows.resultSet 0)
    (twoRows.follows twoRows_faithful fun _ => rfl) ⟨rfl, rfl, rfl, rfl, Nat.zero_le _⟩ released).1⟩

end SharedReader

end AdbcBridge.Reader
