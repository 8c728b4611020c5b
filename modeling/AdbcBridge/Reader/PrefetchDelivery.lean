import AdbcBridge.Reader.Ahead

/-!
# What the prefetching reader delivers

On a driver that keeps the contract of a block cursor the reader delivers the rows of the result
in order, each once, whatever `adbc.odbc.prefetch` asks for and however the steps of the fetch
thread and of the caller interleave.  A reader is alone, or its thread is ahead of it, or it has
nothing more to deliver.
-/

namespace AdbcBridge.Reader

open AdbcBridge.Adbc AdbcBridge.Lib

variable {δ v : Type*}

section

variable {opts : OdbcReaderOptions} {cols : List OdbcColumn} {R : ResultSet v} {faults : Prop}
  {sees : δ → CursorView → Prop} {r : OdbcReader δ} {S : Session δ v} {V : CursorView} {k : Nat}

/-- A reader that does not adapt its widths. -/
theorem InStep.adapting (h : InStep opts cols R sees r V) (adapts : Bool) :
    InStep opts cols R sees { r with adaptOpen := r.adaptOpen && adapts } V :=
  { h with
    agrees := h.agrees.reader rfl rfl rfl h.agrees.size
    wide := h.wide.imp_right fun hsingle => ⟨hsingle.1, by simp [hsingle.2.1], hsingle.2.2⟩
    undecided := by
      intro hopen
      rw [Bool.and_eq_true] at hopen
      exact h.undecided hopen.1 }

theorem Holding.adapting (h : Holding opts cols R sees S V k) (adapts : Bool) :
    Holding opts cols R sees
      { S with reader := { S.reader with adaptOpen := S.reader.adaptOpen && adapts } } V k :=
  { h with inStep := h.inStep.adapting adapts }

theorem Failed.adapting (h : Failed opts cols R faults S) (adapts : Bool) :
    Failed opts cols R faults
      { S with reader := { S.reader with adaptOpen := S.reader.adaptOpen && adapts } } :=
  { h with }

end

namespace SharedReader

/-- Where a shared reader stands: the batches so far are the first rows of the result, in order
and each row once, and they are the whole result at the end.  It fails only where a call may, and
no rowset is handed back to be repaired. -/
structure DeliversInOrder (opts : OdbcReaderOptions) (n : Nat) (R : ResultSet v) (faults : Prop)
    (s : SharedReader δ v) : Prop where
  delivered : ∃ k ≤ R.count,
    CoversRows R n (max opts.batchSize s.reader.rowsetFull) s.session.delivered k
  ended : s.session.outcome = .ended →
    CoversRows R n (max opts.batchSize s.reader.rowsetFull) s.session.delivered R.count
  failed : ∀ e, s.session.outcome = .failed e → faults
  unrepaired : s.caller ≠ .repairing

/-- The slots in use that the caller has not read, where `l` are those in use. -/
def Unread (s : SharedReader δ v) (l m : List (Slot v)) : Prop :=
  (l = m ∧ ∀ status, s.caller ≠ .releasing status) ∨
    ∃ x, l = x :: m ∧ s.caller = .releasing none

/-- A reader that delivers nothing more. -/
structure Settled (opts : OdbcReaderOptions) (n : Nat) (R : ResultSet v) (faults : Prop)
    (s : SharedReader δ v) : Prop where
  caller : s.caller = .idle ∧ s.session.outcome ≠ .reading ∨ s.caller = .stopping .release ∨
    s.caller = .joining .release ∨ s.caller = .closing ∨ s.caller = .closed
  options : s.reader.opts = opts
  delivered : ∃ k ≤ R.count, CoversRows R n (mostRows s.session) s.session.delivered k
  ended : s.session.outcome = .ended →
    CoversRows R n (mostRows s.session) s.session.delivered R.count
  failed : ∀ e, s.session.outcome = .failed e → faults

/-- A reader that is about to report that a conversion has failed. -/
structure Doomed (opts : OdbcReaderOptions) (n : Nat) (R : ResultSet v) (faults : Prop)
    (s : SharedReader δ v) : Prop where
  caller : ∃ e, s.caller = .releasing (some e)
  reading : s.session.outcome = .reading
  batch : s.session.batch.isSome = true
  going : s.reader.done = false
  faults : faults
  options : s.reader.opts = opts
  delivered : ∃ k ≤ R.count, CoversRows R n (mostRows s.session) s.session.delivered k

/-- The stages of a reader, whose ring has the slots `l` in use. -/
inductive Stage (opts : OdbcReaderOptions) (declared : List (List Char × Declared))
    (R : ResultSet v) (faults : Prop) (sees : δ → CursorView → Prop) (s : SharedReader δ v)
    (l : List (Slot v)) : Prop
  | fresh (hidle : s.caller = .idle) (habsent : s.fetcher = .absent)
      (hfresh : Fresh opts declared sees s.session)
  | alone {V : CursorView} {k : Nat} (hidle : s.caller = .idle) (habsent : s.fetcher = .absent)
      (hholding : Holding opts (describeColumns opts declared) R sees s.session V k)
  | ahead {m : List (Slot v)} {k p q : Nat} (hthread : s.fetcher ≠ .absent)
      (hopen : s.caller ≠ .stopping .release ∧ s.caller ≠ .joining .release)
      (hunread : s.Unread l m)
      (hahead : s.Ahead opts (describeColumns opts declared) R faults sees m k p q)
  | doomed (hdoomed : s.Doomed opts (describeColumns opts declared).length R faults)
  | settled (hsettled : s.Settled opts (describeColumns opts declared).length R faults)

section

variable {D : Driver δ v} {opts : OdbcReaderOptions} {declared : List (List Char × Declared)}
  {R : ResultSet v} {faults : Prop} {sees : δ → CursorView → Prop} {s s' : SharedReader δ v}
  {l l' : List (Slot v)} {n : Nat}

/-! ## The fetch thread -/

/-- The fetch thread changes of the session only the cursor and what it has seen. -/
theorem Step.session (hstep : Step D s .fetchThread s') :
    s.fetcher ≠ .absent ∧ s'.caller = s.caller ∧ s'.session = { s.session with
      reader := { s.reader with cursor := s'.reader.cursor, rowsSeen := s'.reader.rowsSeen } } := by
  cases hstep with
  | leave htop => exact ⟨by simp [htop], rfl, rfl⟩
  | room htop => exact ⟨by simp [htop], rfl, rfl⟩
  | @bind sl hfilling =>
      refine ⟨by simp [hfilling], ?_⟩
      unfold SharedReader.bindInto
      dsimp only
      split
      · exact ⟨rfl, rfl⟩
      · exact ⟨rfl, rfl⟩
  | @fetch sl hbound =>
      refine ⟨by simp [hbound], ?_⟩
      unfold SharedReader.fetchInto
      split
      · exact ⟨rfl, rfl⟩
      · exact ⟨rfl, rfl⟩
      · exact ⟨rfl, rfl⟩
  | publish hpublishing => exact ⟨by simp [hpublishing], rfl, rfl⟩
  | fail hfailing => exact ⟨by simp [hfailing], rfl, rfl⟩

theorem Step.answers (hstep : Step D s .fetchThread s') :
    mostRows s'.session = mostRows s.session ∧ s'.session.delivered = s.session.delivered ∧
      s'.session.outcome = s.session.outcome ∧ s'.reader.opts = s.reader.opts := by
  rw [reader, hstep.session.2.2]
  exact ⟨rfl, rfl, rfl, rfl⟩

theorem Settled.fetchThread (h : s.Settled opts n R faults) (hstep : Step D s .fetchThread s') :
    s'.Settled opts n R faults := by
  obtain ⟨hmost, hdelivered, houtcome, hopts⟩ := hstep.answers
  refine ⟨?_, hopts.trans h.options, ?_, ?_, ?_⟩
  · rw [hstep.session.2.1, houtcome]
    exact h.caller
  · rw [hmost, hdelivered]
    exact h.delivered
  · rw [hmost, hdelivered, houtcome]
    exact h.ended
  · rw [houtcome]
    exact h.failed

theorem Doomed.fetchThread (h : s.Doomed opts n R faults) (hstep : Step D s .fetchThread s') :
    s'.Doomed opts n R faults := by
  obtain ⟨hmost, hdelivered, houtcome, hopts⟩ := hstep.answers
  refine ⟨?_, houtcome.trans h.reading, ?_, ?_, h.faults, hopts.trans h.options, ?_⟩
  · rw [hstep.session.2.1]
    exact h.caller
  · rw [hstep.session.2.2]
    exact h.batch
  · rw [reader, hstep.session.2.2]
    exact h.going
  · rw [hmost, hdelivered]
    exact h.delivered

theorem Unread.congr {m : List (Slot v)} (h : s.Unread l m) (hcaller : s'.caller = s.caller) :
    s'.Unread l m := by
  unfold Unread at *
  rw [hcaller]
  exact h

/-- The end is the last slot, and it is there only once the thread has left. -/
theorem Unread.running {m : List (Slot v)} (h : s.Unread l m) (hsafe : s.Safe l)
    (hrunning : s.Running) : .eos ∉ m := by
  intro hmem
  have heos : Slot.eos ∈ l := by
    cases h with
    | inl hall => exact hall.1 ▸ hmem
    | inr hreleasing =>
        obtain ⟨x, hl, -⟩ := hreleasing
        exact hl ▸ List.mem_cons_of_mem x hmem
  have hleaves := (hsafe.running hrunning).1 .eos heos
  cases hleaves

theorem Stage.fetchThread
    (hcontract : FollowsContract D opts (describeColumns opts declared) R faults sees)
    (hsafe : s.Safe l) (h : s.Stage opts declared R faults sees l)
    (hstep : Step D s .fetchThread s') :
    ∃ l', s'.Safe l' ∧ s'.Stage opts declared R faults sees l' := by
  obtain ⟨hpresent, hcaller, -⟩ := hstep.session
  cases h with
  | fresh _ habsent _ => exact absurd habsent hpresent
  | alone _ habsent _ => exact absurd habsent hpresent
  | doomed hdoomed =>
      obtain ⟨l', hsafe'⟩ := hsafe.step hstep
      exact ⟨l', hsafe', .doomed (hdoomed.fetchThread hstep)⟩
  | settled hsettled =>
      obtain ⟨l', hsafe'⟩ := hsafe.step hstep
      exact ⟨l', hsafe', .settled (hsettled.fetchThread hstep)⟩
  | @ahead m k p q hthread hopen hunread hahead =>
      have hopen' : s'.caller ≠ .stopping .release ∧ s'.caller ≠ .joining .release :=
        hcaller ▸ hopen
      have hthreaded := hsafe.threaded hthread
      cases hstep with
      | leave htop hstop =>
          exact ⟨l, hsafe.leave htop hstop,
            .ahead (by intro _; contradiction) hopen' (hunread.congr hcaller)
              (hahead.leave htop)⟩
      | room htop _ hroom =>
          exact ⟨l, hsafe.room htop hroom,
            .ahead (by intro _; contradiction) hopen' (hunread.congr hcaller)
              (hahead.room_for htop _)⟩
      | @bind sl hfilling =>
          have hrunning : s.Running := by simp [Running, hfilling]
          have hfailed := (hsafe.running hrunning).2.1
          have hsafe' : (s.bindInto D sl).Safe l := hsafe.bindInto hfilling
          refine ⟨l, hsafe', .ahead ?_ hopen' (hunread.congr hcaller)
            (hahead.bindInto hcontract hfilling hfailed hthreaded)⟩
          unfold SharedReader.bindInto
          dsimp only
          split
          · intro _; contradiction
          · intro _; contradiction
      | @fetch sl hbound =>
          have hrunning : s.Running := by simp [Running, hbound]
          have hfailed := (hsafe.running hrunning).2.1
          obtain ⟨q', hahead'⟩ := hahead.fetchInto hcontract hbound hfailed hthreaded
          refine ⟨l, hsafe.fetchInto hbound, .ahead ?_ hopen' (hunread.congr hcaller) hahead'⟩
          unfold SharedReader.fetchInto
          split
          · intro _; contradiction
          · intro _; contradiction
          · intro _; contradiction
      | @publish sl slot hpublishing hslot =>
          have hrunning : s.Running := by simp [Running, hpublishing]
          have hfailed := (hsafe.running hrunning).2.1
          have hunread' : (s.publish sl slot).Unread (l ++ [slot]) (m ++ [slot]) := by
            cases hunread with
            | inl hall => exact Or.inl ⟨by rw [hall.1], hall.2⟩
            | inr hreleasing =>
                obtain ⟨x, hl, hreleasing⟩ := hreleasing
                exact Or.inr ⟨x, by rw [hl, List.cons_append], hreleasing⟩
          refine ⟨_, hsafe.publish hpublishing hslot, .ahead ?_ hopen' hunread'
            (hahead.publish hpublishing hslot hfailed)⟩
          unfold SharedReader.publish
          cases slot.leaves with
          | true => intro _; contradiction
          | false => intro _; contradiction
      | fail hfailing =>
          have hrunning : s.Running := by simp [Running, hfailing]
          exact ⟨l, hsafe.fail hfailing, .ahead (by intro _; contradiction) hopen'
            (hunread.congr hcaller)
            (hahead.fail hfailing (hunread.running hsafe hrunning))⟩

/-! ## The caller -/

theorem Settled.callerStep (h : s.Settled opts n R faults) (hstep : Step D s .caller s') :
    s'.Settled opts n R faults := by
  have hstill : s.caller = .idle → s.session.outcome ≠ .reading := by
    intro hidle
    have hcaller := h.caller
    rw [hidle] at hcaller
    simpa using hcaller
  cases hstep with
  | begin _ hidle hreading _ => exact absurd hreading (hstill hidle)
  | finish hidle hreading _ _ => exact absurd hreading (hstill hidle)
  | turn hwants _ => exact absurd hwants.2.1 (hstill hwants.1)
  | take hwants _ _ _ => exact absurd hwants.2.1 (hstill hwants.1)
  | drained hwants _ _ _ => exact absurd hwants.2.1 (hstill hwants.1)
  | convert hholding _ _ =>
      have hcaller := h.caller
      rw [hholding] at hcaller
      simp at hcaller
  | release hreleasing =>
      have hcaller := h.caller
      rw [hreleasing] at hcaller
      simp at hcaller
  | @stop why hstopping =>
      have hcaller := h.caller
      rw [hstopping] at hcaller
      have hwhy : why = .release := by simpa using hcaller
      rw [hwhy]
      exact { h with caller := Or.inr (Or.inr (Or.inl rfl)) }
  | @join why hjoining _ =>
      have hcaller := h.caller
      rw [hjoining] at hcaller
      have hwhy : why = .release := by simpa using hcaller
      rw [hwhy]
      exact { h with caller := Or.inr (Or.inr (Or.inr (Or.inl rfl))) }
  | handBack hrepairing _ _ =>
      have hcaller := h.caller
      rw [hrepairing] at hcaller
      simp at hcaller
  | close hidle _ =>
      refine { h with caller := ?_ }
      dsimp only
      split
      · exact Or.inr (Or.inr (Or.inr (Or.inl rfl)))
      · exact Or.inr (Or.inl rfl)
  | closed _ => exact { h with caller := Or.inr (Or.inr (Or.inr (Or.inr rfl))) }

theorem settled_of_failed {cols : List OdbcColumn} (hidle : s.caller = .idle)
    (h : Failed opts cols R faults s.session) : s.Settled opts cols.length R faults := by
  obtain ⟨e, he⟩ := h.failed
  refine ⟨Or.inl ⟨hidle, ?_⟩, h.options, h.delivered, ?_, fun _ _ => h.faults⟩
  · rw [he]
    exact nofun
  · rw [he]
    exact nofun

theorem settled_of_holding {cols : List OdbcColumn} {V : CursorView} {k : Nat}
    (hcaller : s.caller = .idle ∧ s.session.outcome ≠ .reading ∨ s.caller = .stopping .release ∨
      s.caller = .joining .release ∨ s.caller = .closing ∨ s.caller = .closed)
    (h : Holding opts cols R sees s.session V k) : s.Settled opts cols.length R faults := by
  refine ⟨hcaller, h.inStep.agrees.options, ⟨k, h.within, h.delivered⟩, ?_, ?_⟩
  · intro hended
    obtain ⟨hbatch, hcount⟩ : s.session.batch = none ∧ R.count ≤ V.next := by
      refine (h.outcome.resolve_left ?_).2
      rw [hended]
      exact nofun
    have hall : k = R.count :=
      le_antisymm h.within (hcount.trans_eq (h.between hbatch))
    exact hall ▸ h.delivered
  · intro e hfailed
    have houtcome := h.outcome
    rw [hfailed] at houtcome
    simp at houtcome

theorem Stage.of_session (hidle : s.caller = .idle) (habsent : s.fetcher = .absent)
    (h : (∃ V k, Holding opts (describeColumns opts declared) R sees s.session V k) ∨
      Failed opts (describeColumns opts declared) R faults s.session) :
    s.Stage opts declared R faults sees l := by
  cases h with
  | inl hholding =>
      obtain ⟨V, k, hholding⟩ := hholding
      exact .alone hidle habsent hholding
  | inr hfailed => exact .settled (settled_of_failed hidle hfailed)

/-- A reader that is alone does what the synchronous one does. -/
theorem Stage.alone_step
    (hcontract : FollowsContract D opts (describeColumns opts declared) R faults sees)
    (hsafe : s.Safe l) (hidle : s.caller = .idle) (habsent : s.fetcher = .absent)
    {V : CursorView} {k : Nat}
    (hholding : Holding opts (describeColumns opts declared) R sees s.session V k)
    (hstep : Step D s .caller s') :
    ∃ l', s'.Safe l' ∧ s'.Stage opts declared R faults sees l' := by
  cases hstep with
  | begin started _ hreading hnone =>
      have hbegin : s.begin D started = { s with session := s.session.begin D } := by
        have hbound : s.reader.bound = true := hholding.bound
        unfold SharedReader.begin
        rw [hbound]
        rfl
      refine ⟨l, hsafe.begin_bound started hidle hholding.bound, ?_⟩
      rw [hbegin]
      exact .of_session hidle habsent (hholding.begin hcontract hreading hnone).1
  | finish _ hreading hbatch hfull =>
      exact ⟨l, hsafe.finish _,
        .of_session hidle habsent (hholding.finish hreading hbatch hfull).1⟩
  | turn hwants _ =>
      exact ⟨l, hsafe.turn hwants habsent, .of_session hidle habsent
        (hholding.turn hcontract hwants.2.1 hwants.2.2.1 hwants.2.2.2).1⟩
  | take _ hthread _ _ => exact absurd habsent hthread
  | drained _ hthread _ _ => exact absurd habsent hthread
  | close _ hnone =>
      refine ⟨l, hsafe.close hidle, .settled (settled_of_holding ?_ hholding)⟩
      exact Or.inr (Or.inr (Or.inr (Or.inl (if_pos habsent))))
  | _ => simp_all

/-- The first call of `get_next` where `ReaderBind` succeeds. -/
theorem begin_bound {cursor : δ} (hreader : s.session = .start (readerInit opts declared cursor))
    {r : OdbcReader δ} (hbind : readerBind D (readerInit opts declared cursor) = (none, r)) :
    s.session.begin D = { s.session with reader := r, batch := some {} } ∧
      r.cols = describeColumns opts declared ∧ r.done = false := by
  have hunsized := readerBind_unsized D (readerInit opts declared cursor)
  rw [hbind] at hunsized
  have hrestore : r.rowsetRestore = false := congrArg OdbcReader.rowsetRestore hunsized
  have hkeep : Session.restoreRowset D r = r := by
    rw [Session.restoreRowset, hrestore]
    rfl
  refine ⟨?_, congrArg OdbcReader.cols hunsized, congrArg OdbcReader.done hunsized⟩
  have hstart : (Session.start (readerInit opts declared cursor) : Session δ v).reader =
      readerInit opts declared cursor := rfl
  have hdone : (readerInit opts declared cursor).done = false := rfl
  have hbound : (readerInit opts declared cursor).bound = false := rfl
  unfold Session.begin
  rw [hreader, hstart, hdone, hbound, if_neg Bool.false_ne_true, if_neg Bool.false_ne_true, hbind]
  dsimp only
  rw [hkeep]

theorem begin_fails {cursor : δ} (hreader : s.session = .start (readerInit opts declared cursor))
    {r : OdbcReader δ} {e : AdbcError}
    (hbind : readerBind D (readerInit opts declared cursor) = (some e, r)) :
    s.session.begin D = s.session.fail r e := by
  have hstart : (Session.start (readerInit opts declared cursor) : Session δ v).reader =
      readerInit opts declared cursor := rfl
  have hdone : (readerInit opts declared cursor).done = false := rfl
  have hbound : (readerInit opts declared cursor).bound = false := rfl
  unfold Session.begin
  rw [hreader, hstart, hdone, hbound, if_neg Bool.false_ne_true, if_neg Bool.false_ne_true, hbind]

/-- A reader that has more than one slot describes no column narrower than it is. -/
theorem unclipped_of_slotCount {cols : List OdbcColumn} {r : OdbcReader δ} {prefetch : Nat}
    (hslots : 1 < slotCount prefetch r) (hcols : r.cols = cols) :
    ∀ i < cols.length, (described cols i).clipped = false := by
  have hnone := (prefetchRefusalReason_eq_none (refusal_of_slotCount hslots)).2.2.2
  intro i hi
  apply hnone
  rw [hcols, described, List.getD_eq_getElem _ _ hi]
  exact List.getElem_mem hi

/-- Where the first call binds the columns the reader is alone, or its thread starts. -/
theorem Stage.begin_binds {cursor : δ} (hidle : s.caller = .idle)
    (hstart : s.session = .start (readerInit opts declared cursor)) {r : OdbcReader δ}
    (hbind : readerBind D (readerInit opts declared cursor) = (none, r)) {V : CursorView} {k : Nat}
    (hholding : Holding opts (describeColumns opts declared) R sees (s.session.begin D) V k)
    (started : Bool) (hsafe : (s.begin D started).Safe l) (hempty : s.ring.filled = 0)
    (hpresent : s.fetchFailed = none) :
    (s.begin D started).Stage opts declared R faults sees l := by
  obtain ⟨hbegin, hcols, hdone⟩ := begin_bound hstart hbind
  have hunbound : s.reader.bound = false := by
    rw [reader, hstart]
    rfl
  have hbound : r.bound = true := readerBind_bound D hbind
  have hreading : s.session.outcome = .reading := by
    rw [hstart]
    rfl
  have hstep : s.begin D started =
      { s with
        session := { s.session with
          reader := { r with adaptOpen := r.adaptOpen && decide (slotCount s.prefetch r ≤ 1) }
          batch := some {} }
        ring := { s.ring with nslots := slotCount s.prefetch r }
        fetcher := if 1 < slotCount s.prefetch r ∧ started = true then .top else .absent } := by
    unfold SharedReader.begin
    rw [hbegin]
    dsimp only
    rw [hunbound, hbound]
    rfl
  rw [hbegin] at hholding
  have hadapting := hholding.adapting (decide (slotCount s.prefetch r ≤ 1))
  have hl : l = [] := by
    have hfilled := hsafe.ring.filled_eq
    rw [hstep] at hfilled
    exact List.length_eq_zero_iff.mp (hfilled.symm.trans hempty)
  rw [hstep]
  by_cases hthread : 1 < slotCount s.prefetch r ∧ started = true
  · rw [if_pos hthread]
    have hcaller : ∀ status, s.caller ≠ .releasing status := by
      rw [hidle]
      intro _ _; contradiction
    obtain ⟨hnext, hmost, hcolumns⟩ := hadapting.batch {} rfl
    refine .ahead (m := []) (k := k) (p := V.next) (q := V.next) (by intro _; contradiction) ?_
      (Or.inl ⟨hl, hcaller⟩) ?_
    · dsimp only
      rw [hidle]
      exact ⟨by intro _; contradiction, by intro _; contradiction⟩
    · exact
        { reading := hreading
          going := hdone
          options := hadapting.inStep.agrees.options
          columns := hadapting.inStep.agrees.columns
          unclipped := unclipped_of_slotCount hthread.1 hcols
          block := hadapting.inStep.full
          delivered := hadapting.delivered
          between := by intro _; contradiction
          batch := hadapting.batch
          room := by
            intro hholding
            rw [hidle] at hholding
            cases hholding
          within := hadapting.inStep.within
          slots := rfl
          eos := by intro _; contradiction
          inStep := fun _ => ⟨V, hadapting.inStep, rfl⟩
          unsound := fun hunsound => absurd ⟨hpresent, by intro _ _; contradiction⟩ hunsound }
  · rw [if_neg hthread]
    exact .alone hidle rfl hadapting

theorem Stage.fresh_step
    (hcontract : FollowsContract D opts (describeColumns opts declared) R faults sees)
    (hsafe : s.Safe l) (hidle : s.caller = .idle) (habsent : s.fetcher = .absent)
    (hfresh : Fresh opts declared sees s.session) (hstep : Step D s .caller s') :
    ∃ l', s'.Safe l' ∧ s'.Stage opts declared R faults sees l' := by
  have hunbound : s.reader.bound = false := by
    rw [reader, hfresh.start]
    rfl
  have hnone : s.session.batch = none := by
    rw [hfresh.start]
    rfl
  cases hstep with
  | begin started _ _ _ =>
      obtain ⟨hring, -, hfailed, -⟩ := hsafe.fresh hunbound
      obtain ⟨l', hsafe'⟩ := hsafe.begin_unbound (D := D) started hidle hunbound
      refine ⟨l', hsafe', ?_⟩
      cases (hfresh.begin hcontract).1 with
      | inl hholding =>
          obtain ⟨V, k, hholding⟩ := hholding
          cases hbind : readerBind D (readerInit opts declared s.session.reader.cursor) with
          | mk answer r =>
              cases answer with
              | none =>
                  exact .begin_binds hidle hfresh.start hbind hholding started hsafe'
                    (by rw [hring]) hfailed
              | some e =>
                  have houtcome := hholding.outcome
                  rw [begin_fails hfresh.start hbind] at houtcome
                  simp [Session.fail] at houtcome
      | inr hfails =>
          refine .settled ?_
          unfold SharedReader.begin
          dsimp only
          split
          · exact settled_of_failed hidle (hfails.adapting _)
          · exact settled_of_failed hidle hfails
  | close _ _ =>
      refine ⟨l, hsafe.close hidle, .settled ⟨?_, ?_, ⟨0, Nat.zero_le _, ?_⟩, ?_, ?_⟩⟩
      · exact Or.inr (Or.inr (Or.inr (Or.inl (if_pos habsent))))
      · dsimp only [reader]
        rw [hfresh.start]
        rfl
      · dsimp only
        rw [hfresh.start]
        exact CoversRows.nil R _ _
      · dsimp only
        rw [hfresh.start]
        intro _; contradiction
      · dsimp only
        rw [hfresh.start]
        intro _ _; contradiction
  | _ => simp_all [Wants]

/-- The slots in use are those the ring has between head and tail. -/
theorem Safe.slots_eq (h : s.Safe l) : l = s.ring.unread.toList s.ring.nslots :=
  h.ring.holds.toList.symm

theorem Unread.idle {m : List (Slot v)} (h : s.Unread l m)
    (hcaller : ∀ status, s.caller ≠ .releasing status) : l = m := by
  cases h with
  | inl hall => exact hall.1
  | inr hreleasing =>
      obtain ⟨x, -, hreleasing⟩ := hreleasing
      exact absurd hreleasing (hcaller none)

theorem Stage.ahead_release (hsafe : s.Safe l) (hthread : s.fetcher ≠ .absent)
    {m : List (Slot v)} {k p q : Nat} (hunread : s.Unread l m)
    (hahead : s.Ahead opts (describeColumns opts declared) R faults sees m k p q)
    {status : Option AdbcError} (hreleasing : s.caller = .releasing status) :
    ∃ l', (s.release status).Safe l' ∧ (s.release status).Stage opts declared R faults sees l' := by
  cases hunread with
  | inl hall => exact absurd hreleasing (hall.2 status)
  | inr hhead =>
      obtain ⟨x, hl, hcaller⟩ := hhead
      have hstatus : status = none := by
        rw [hcaller] at hreleasing
        exact (Caller.releasing.inj hreleasing).symm
      rw [hstatus] at hreleasing ⊢
      obtain ⟨l', hsafe'⟩ := hsafe.release hreleasing
      have hhand : s.ring.inHand = true := by
        have hok := hsafe.caller
        rw [CallerOk, hreleasing] at hok
        exact hok.2.1
      have hring := hsafe.ring
      rw [hl] at hring
      have hl' : l' = m := hsafe'.slots_eq.trans (hring.release hhand).holds.toList
      exact ⟨l', hsafe', .ahead hthread ⟨by intro _; contradiction, by intro _; contradiction⟩
        (Or.inl ⟨hl', by intro _ _; contradiction⟩) hahead.release⟩

theorem Stage.ahead_join (hsafe : s.Safe l) (hthread : s.fetcher ≠ .absent)
    (hopen : s.caller ≠ .joining .release) {m : List (Slot v)} {k p q : Nat}
    (hunread : s.Unread l m)
    (hahead : s.Ahead opts (describeColumns opts declared) R faults sees m k p q) {why : Joins}
    (hjoining : s.caller = .joining why) (hexited : s.fetcher = .exited) :
    (s.joined why).Stage opts declared R faults sees l := by
  have hm : l = m := hunread.idle (by rw [hjoining]; intro _ _; contradiction)
  have hok := hsafe.caller
  rw [CallerOk, hjoining] at hok
  cases why with
  | ended =>
      have heos : m = [.eos] := hm.symm.trans hok.2.2
      rw [heos] at hahead
      obtain ⟨V, hholding⟩ := hahead.ended hexited (hsafe.threaded hthread).bound
      exact .alone rfl rfl hholding
  | answer failed =>
      obtain ⟨-, -, -, hfailed, hsome⟩ := hok.2
      cases failed with
      | none => cases hsome
      | some e =>
          have hfaults : faults := by
            apply hahead.unsound
            intro hsound
            rw [hsound.1] at hfailed
            cases hfailed
          exact .settled ⟨Or.inl ⟨rfl, by intro _; contradiction⟩, hahead.options,
            ⟨k, hahead.within_count, hahead.delivered⟩, by intro _; contradiction,
            fun _ _ => hfaults⟩
  | repair =>
      obtain ⟨-, -, rowset, fetched, firstRow, hl⟩ := hok.2
      have hslots := hahead.slots
      rw [← hm, hl] at hslots
      cases hslots.1.1
  | release => exact absurd hjoining hopen

theorem Stage.ahead_step (hsafe : s.Safe l) (hthread : s.fetcher ≠ .absent)
    (hopen : s.caller ≠ .stopping .release ∧ s.caller ≠ .joining .release) {m : List (Slot v)}
    {k p q : Nat} (hunread : s.Unread l m)
    (hahead : s.Ahead opts (describeColumns opts declared) R faults sees m k p q)
    (hstep : Step D s .caller s') :
    ∃ l', s'.Safe l' ∧ s'.Stage opts declared R faults sees l' := by
  have hkept : s.caller = .idle → ∀ status, s.caller ≠ .releasing status := by
    intro hidle
    rw [hidle]
    intro _ _; contradiction
  cases hstep with
  | begin started hidle _ hnone =>
      have hthreaded := hsafe.threaded hthread
      have hsafe' := hsafe.begin_bound (D := D) started hidle hthreaded.bound
      refine ⟨l, hsafe', ?_⟩
      have hgoing : s.session.reader.done = false := hahead.going
      rw [Safe.begin_threaded hthreaded, hahead.going, if_neg Bool.false_ne_true]
      exact .ahead hthread hopen (Or.inl ⟨hunread.idle (hkept hidle), hkept hidle⟩)
        (hahead.begin hidle hnone)
  | finish hidle _ hbatch hfull =>
      exact ⟨l, hsafe.finish _, .ahead hthread hopen
        (Or.inl ⟨hunread.idle (hkept hidle), hkept hidle⟩) (hahead.finish hidle hbatch hfull)⟩
  | turn _ halone => exact absurd halone hthread
  | @take b slot hwants _ hfilled hslot =>
      have hl := hunread.idle (hkept hwants.1)
      obtain ⟨rest, hhead⟩ := hsafe.head_eq hfilled hslot
      obtain ⟨htaken, hholding⟩ := hahead.take hwants ⟨rest, hl.symm.trans hhead⟩
      have hsafe' := hsafe.take hwants hthread hfilled hslot
      cases slot with
      | eos =>
          exact ⟨l, hsafe', .ahead hthread ⟨by rintro ⟨⟩, by intro _; contradiction⟩
            (Or.inl ⟨hl, by intro _ _; contradiction⟩) htaken⟩
      | rows rowset fetched firstRow needsRepair =>
          have hcaller := hholding rfl
          refine ⟨l, hsafe', .ahead hthread ?_ (Or.inl ⟨hl, ?_⟩) htaken⟩
          · rw [hcaller]
            exact ⟨by intro _; contradiction, by intro _; contradiction⟩
          · rw [hcaller]
            intro _ _; contradiction
  | drained hwants _ hempty hover =>
      exact ⟨l, hsafe.drained hwants hthread hempty hover,
        .ahead hthread ⟨by rintro ⟨⟩, by intro _; contradiction⟩
          (Or.inl ⟨hunread.idle (hkept hwants.1), by intro _ _; contradiction⟩)
          { hahead with room := by intro _; contradiction }⟩
  | @convert b rowset fetched firstRow needsRepair hholding hbatch hslot =>
      have hm : l = m := hunread.idle (by rw [hholding]; intro _ _; contradiction)
      obtain ⟨-, -, -, hfit, rest, hl⟩ := hsafe.in_hand hholding hslot
      have hsafe' : (s.convert D rowset fetched b).Safe l := hsafe.convert hholding hslot
      refine ⟨l, hsafe', ?_⟩
      cases hahead.convert (D := D) (hm.symm.trans hl) (hsafe.threaded hthread) hfit hholding
        hbatch with
      | inl hread =>
          obtain ⟨hcaller, -, hahead'⟩ := hread
          have hthread' : (s.convert D rowset fetched b).fetcher ≠ .absent := by
            unfold SharedReader.convert
            dsimp only
            split
            · exact hthread
            · exact hthread
          refine .ahead hthread' ?_ (Or.inr ⟨_, hl, hcaller⟩) hahead'
          rw [hcaller]
          exact ⟨by intro _; contradiction, by intro _; contradiction⟩
      | inr hfails =>
          obtain ⟨e, hcaller, hfaults, hsession⟩ := hfails
          refine .doomed ⟨⟨e, hcaller⟩, ?_, ?_, ?_, hfaults, ?_, k, hahead.within_count, ?_⟩
          · rw [hsession]
            exact hahead.reading
          · rw [hsession, hbatch]
            rfl
          · rw [reader, hsession]
            exact hahead.going
          · rw [reader, hsession]
            exact hahead.options
          · rw [hsession]
            exact hahead.delivered
  | release hreleasing => exact Stage.ahead_release hsafe hthread hunread hahead hreleasing
  | @stop why hstopping =>
      refine ⟨l, hsafe.stop hstopping, .ahead hthread ⟨by intro _; contradiction, ?_⟩
        (Or.inl ⟨?_, by intro _ _; contradiction⟩)
        { hahead with room := by intro _; contradiction }⟩
      · intro hrelease
        rw [Caller.joining.inj hrelease] at hstopping
        exact hopen.1 hstopping
      · exact hunread.idle (by rw [hstopping]; intro _ _; contradiction)
  | join hjoining hexited =>
      exact ⟨l, hsafe.joined hjoining hexited,
        Stage.ahead_join hsafe hthread hopen.2 hunread hahead hjoining hexited⟩
  | handBack hrepairing _ _ =>
      have hok := hsafe.caller
      rw [CallerOk, hrepairing] at hok
      exact absurd hok.1 hthread
  | close hidle _ =>
      refine ⟨l, hsafe.close hidle, .settled ⟨?_, hahead.options,
        ⟨k, hahead.within_count, hahead.delivered⟩, ?_, ?_⟩⟩
      · exact Or.inr (Or.inl (if_neg hthread))
      · dsimp only
        rw [hahead.reading]
        intro _; contradiction
      · dsimp only
        rw [hahead.reading]
        intro _ _; contradiction
  | closed hclosing =>
      have hok := hsafe.caller
      rw [CallerOk, hclosing] at hok
      exact absurd hok hthread

theorem Stage.doomed_step (hsafe : s.Safe l)
    (hdoomed : s.Doomed opts (describeColumns opts declared).length R faults)
    (hstep : Step D s .caller s') :
    ∃ l', s'.Safe l' ∧ s'.Stage opts declared R faults sees l' := by
  obtain ⟨e, hcaller⟩ := hdoomed.caller
  cases hstep with
  | @release status hreleasing =>
      obtain ⟨l', hsafe'⟩ := hsafe.release hreleasing
      have hstatus : status = some e := by
        rw [hcaller] at hreleasing
        exact (Caller.releasing.inj hreleasing).symm
      rw [hstatus] at hsafe' ⊢
      exact ⟨l', hsafe', .settled ⟨Or.inl ⟨rfl, nofun⟩, hdoomed.options, hdoomed.delivered, nofun,
        fun _ _ => hdoomed.faults⟩⟩
  | _ => simp_all [Wants]

/-- Every step keeps a reader in a stage. -/
theorem Stage.step {party : Party}
    (hcontract : FollowsContract D opts (describeColumns opts declared) R faults sees)
    (hsafe : s.Safe l) (h : s.Stage opts declared R faults sees l) (hstep : Step D s party s') :
    ∃ l', s'.Safe l' ∧ s'.Stage opts declared R faults sees l' := by
  cases party with
  | fetchThread => exact h.fetchThread hcontract hsafe hstep
  | caller =>
      cases h with
      | fresh hidle habsent hfresh =>
          exact Stage.fresh_step hcontract hsafe hidle habsent hfresh hstep
      | alone hidle habsent hholding =>
          exact Stage.alone_step hcontract hsafe hidle habsent hholding hstep
      | ahead hthread hopen hunread hahead =>
          exact Stage.ahead_step hsafe hthread hopen hunread hahead hstep
      | doomed hdoomed => exact Stage.doomed_step hsafe hdoomed hstep
      | settled hsettled =>
          obtain ⟨l', hsafe'⟩ := hsafe.step hstep
          exact ⟨l', hsafe', .settled (hsettled.callerStep hstep)⟩

/-- In every state the two threads reach the reader is in a stage. -/
theorem stage_run {cursor : δ} {prefetch : Nat} {trace : List Party}
    (hcontract : FollowsContract D opts (describeColumns opts declared) R faults sees)
    (hopen : sees cursor {})
    (run : Run (Step D) (start prefetch (readerInit opts declared cursor)) trace s) :
    ∃ l, s.Safe l ∧ s.Stage opts declared R faults sees l := by
  apply run.state_invariant
  · exact ⟨[], .start prefetch opts declared cursor, .fresh rfl rfl ⟨rfl, hopen⟩⟩
  · intro s party s' h hstep
    obtain ⟨l, hsafe, hstage⟩ := h
    exact hstage.step hcontract hsafe hstep

theorem DeliversInOrder.of (hoptions : s.reader.opts = opts)
    (hdelivered : ∃ k ≤ R.count, CoversRows R n (mostRows s.session) s.session.delivered k)
    (hended : s.session.outcome = .ended →
      CoversRows R n (mostRows s.session) s.session.delivered R.count)
    (hfailed : ∀ e, s.session.outcome = .failed e → faults)
    (hunrepaired : s.caller ≠ .repairing) : s.DeliversInOrder opts n R faults := by
  have hmost : mostRows s.session = max opts.batchSize s.reader.rowsetFull := by
    rw [← hoptions]
    rfl
  rw [hmost] at hdelivered hended
  exact ⟨hdelivered, hended, hfailed, hunrepaired⟩

theorem Stage.inOrder (hsafe : s.Safe l) (h : s.Stage opts declared R faults sees l) :
    s.DeliversInOrder opts declared.length R faults := by
  rw [← describeColumns_length opts]
  cases h with
  | fresh hidle _ hfresh =>
      have hreading : s.session.outcome = .reading := by
        rw [hfresh.start]
        rfl
      apply DeliversInOrder.of
      · rw [reader, hfresh.start]
        rfl
      · refine ⟨0, Nat.zero_le _, ?_⟩
        rw [hfresh.start]
        exact CoversRows.nil R _ _
      · simp [hreading]
      · simp [hreading]
      · simp [hidle]
  | @alone V k hidle _ hholding =>
      by_cases hreading : s.session.outcome = .reading
      · apply DeliversInOrder.of hholding.inStep.agrees.options
        · exact ⟨k, hholding.within, hholding.delivered⟩
        · simp [hreading]
        · simp [hreading]
        · simp [hidle]
      · have hsettled : s.Settled opts (describeColumns opts declared).length R faults :=
          settled_of_holding (Or.inl ⟨hidle, hreading⟩) hholding
        exact .of hsettled.options hsettled.delivered hsettled.ended hsettled.failed
          (by simp [hidle])
  | @ahead m k p q hthread _ _ hahead =>
      apply DeliversInOrder.of hahead.options
      · exact ⟨k, hahead.within_count, hahead.delivered⟩
      · simp [hahead.reading]
      · simp [hahead.reading]
      · intro hrepairing
        have hok := hsafe.caller
        rw [CallerOk, hrepairing] at hok
        exact hthread hok.1
  | doomed hdoomed =>
      obtain ⟨e, hcaller⟩ := hdoomed.caller
      apply DeliversInOrder.of hdoomed.options hdoomed.delivered
      · simp [hdoomed.reading]
      · simp [hdoomed.reading]
      · simp [hcaller]
  | settled hsettled =>
      apply DeliversInOrder.of hsettled.options hsettled.delivered hsettled.ended hsettled.failed
      intro hrepairing
      have hcaller := hsettled.caller
      rw [hrepairing] at hcaller
      simp at hcaller

/-- Whatever `adbc.odbc.prefetch` asks for, and in whatever order the two threads take their
steps, the batches are the rows of the result in order, each once. -/
theorem run_inOrder {cursor : δ} {prefetch : Nat} {trace : List Party}
    (hcontract : FollowsContract D opts (describeColumns opts declared) R faults sees)
    (hopen : sees cursor {})
    (run : Run (Step D) (start prefetch (readerInit opts declared cursor)) trace s) :
    s.DeliversInOrder opts declared.length R faults := by
  obtain ⟨l, hsafe, hstage⟩ := stage_run hcontract hopen run
  exact hstage.inOrder hsafe

end

def twoRowsOptions : OdbcReaderOptions where
  batchSize := 2
  batchSize_pos := Nat.two_pos

def twoRowsColumn : List (List Char × Declared) := [(['t'], .text 4 0)]

theorem twoRows_faithful : twoRows.Faithful (describeColumns twoRowsOptions twoRowsColumn) where
  held := by
    intro entries hentries i hi _
    simp only [twoRows, List.mem_cons, List.not_mem_nil, or_false] at hentries
    rcases hentries with rfl | rfl
    · exact fun _ => rfl
    · exact fun _ => rfl
  declared := by
    intro entries hentries i hi _
    have hzero : i = 0 := Nat.lt_one_iff.mp hi
    subst hzero
    simp only [twoRows, List.mem_cons, List.not_mem_nil, or_false] at hentries
    rcases hentries with rfl | rfl
    · decide
    · decide

end SharedReader

end AdbcBridge.Reader
