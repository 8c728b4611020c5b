import AdbcBridge.Reader.InStep

/-!
# What the synchronous reader delivers

On a driver that keeps the contract of a block cursor `ReaderNextBatch` delivers the rows of
the result in order, each once, however the bind widths, the rowset and the bindings change on
the way.  What is delivered and the batch under construction are the rows that the cursor has
moved over.
-/

namespace AdbcBridge.Reader

open AdbcBridge.Adbc

variable {δ v : Type*}

/-- Batches that are the first `k` rows of a result with `n` columns, all columns of a batch of
its length, none of them empty and none larger than `most`. -/
structure CoversRows (R : ResultSet v) (n most : Nat) (batches : List (Batch v)) (k : Nat) :
    Prop where
  columns : ∀ i < n, (batches.flatMap fun b => b.columns i) = R.column i k
  totals : (batches.map Batch.total).sum = k
  sized : ∀ b ∈ batches, 0 < b.total ∧ b.total ≤ most
  aligned : ∀ b ∈ batches, ∀ i < n, (b.columns i).length = b.total

theorem CoversRows.nil (R : ResultSet v) (n most : Nat) : CoversRows R n most [] 0 :=
  ⟨fun _ _ => rfl, rfl, fun _ hb => absurd hb List.not_mem_nil,
    fun _ hb => absurd hb List.not_mem_nil⟩

theorem CoversRows.snoc {R : ResultSet v} {n most k : Nat} {batches : List (Batch v)}
    {b : Batch v} (h : CoversRows R n most batches k)
    (hcolumns : ∀ i < n, b.columns i = R.slice i k b.total) (hpos : 0 < b.total)
    (hmost : b.total ≤ most) : CoversRows R n most (batches ++ [b]) (k + b.total) where
  columns := by
    intro i hi
    rw [List.flatMap_append, h.columns i hi, List.flatMap_singleton, hcolumns i hi, R.column_add]
  totals := by
    rw [List.map_append, List.sum_append, h.totals]
    exact congrArg (k + ·) (List.sum_singleton)
  sized := by
    intro c hc
    rw [List.mem_append, List.mem_singleton] at hc
    cases hc with
    | inl hold => exact h.sized c hold
    | inr hnew =>
        rw [hnew]
        exact ⟨hpos, hmost⟩
  aligned := by
    intro c hc i hi
    rw [List.mem_append, List.mem_singleton] at hc
    cases hc with
    | inl hold => exact h.aligned c hold i hi
    | inr hnew => rw [hnew, hcolumns i hi, ResultSet.slice, List.length_map, List.length_range]

section Sessions

variable {D : Driver δ v} {opts : OdbcReaderOptions} {declared : List (List Char × Declared)}
  {R : ResultSet v} {faults : Prop} {sees : δ → CursorView → Prop} {S : Session δ v}
  {V : CursorView} {k : Nat}

/-- The rows a batch may have: `batch_size`, or one rowset. -/
def mostRows (S : Session δ v) : Nat := max S.reader.opts.batchSize S.reader.rowsetFull

theorem mostRows_kept {T : Session δ v} (h : T.reader.kept = S.reader.kept) :
    mostRows T = mostRows S :=
  congrArg₂ max (congrArg (fun kept => kept.opts.batchSize) h) (congrArg Kept.rowsetFull h)

/-- A session on a reader that has bound its columns: `k` rows are delivered, and the batch
under construction has the rows behind them. -/
structure Holding (opts : OdbcReaderOptions) (cols : List OdbcColumn) (R : ResultSet v)
    (sees : δ → CursorView → Prop) (S : Session δ v) (V : CursorView) (k : Nat) : Prop where
  bound : S.reader.bound = true
  inStep : InStep opts cols R sees S.reader V
  delivered : CoversRows R cols.length (mostRows S) S.delivered k
  between : S.batch = none → V.next = k
  batch : ∀ b, S.batch = some b → V.next = k + b.total ∧ b.total ≤ mostRows S ∧
    ∀ i < cols.length, b.columns i = R.slice i k b.total
  done : S.reader.done = true → R.count ≤ V.next
  outcome : S.outcome = .reading ∨ S.outcome = .ended ∧ S.batch = none ∧ R.count ≤ V.next

/-- A session that has not begun. -/
structure Fresh (opts : OdbcReaderOptions) (declared : List (List Char × Declared))
    (sees : δ → CursorView → Prop) (S : Session δ v) : Prop where
  start : S = Session.start (readerInit opts declared S.reader.cursor)
  sees : sees S.reader.cursor {}

/-- A session that has failed keeps what it has delivered. -/
structure Failed (opts : OdbcReaderOptions) (cols : List OdbcColumn) (R : ResultSet v)
    (faults : Prop) (S : Session δ v) : Prop where
  failed : ∃ e, S.outcome = .failed e
  options : S.reader.opts = opts
  faults : faults
  delivered : ∃ k ≤ R.count, CoversRows R cols.length (mostRows S) S.delivered k

/-- What a session has still to do. -/
def Session.rank (R : ResultSet v) (S : Session δ v) : Nat :=
  let rest := 3 * (R.count - S.reader.rowsSeen)
  match S.outcome with
  | .reading =>
      match S.batch with
      | none => if S.reader.done then 1 else rest + 3
      | some b =>
          if b.total = 0 then if S.reader.done then 1 else rest + 2
          else if S.reader.done then 2 else rest + 4
  | _ => 0

/-- What a call, or a turn of one, comes to; it brings the session nearer to its end. -/
def Nearer (opts : OdbcReaderOptions) (cols : List OdbcColumn) (R : ResultSet v) (faults : Prop)
    (sees : δ → CursorView → Prop) (S T : Session δ v) : Prop :=
  ((∃ V k, Holding opts cols R sees T V k) ∨ Failed opts cols R faults T) ∧ T.rank R < S.rank R

theorem Session.rank_ended {T : Session δ v} (h : T.outcome ≠ .reading) : T.rank R = 0 := by
  unfold Session.rank
  split
  · rename_i hreading
    exact absurd hreading h
  · rfl

theorem Session.rank_within (hreading : S.outcome = .reading) {b : Batch v}
    (hbatch : S.batch = some b) (hdone : S.reader.done = false) :
    S.rank R = 3 * (R.count - S.reader.rowsSeen) + if b.total = 0 then 2 else 4 := by
  unfold Session.rank
  rw [hreading, hbatch, hdone]
  dsimp only
  by_cases hempty : b.total = 0
  · rw [if_pos hempty, if_pos hempty, if_neg Bool.false_ne_true]
  · rw [if_neg hempty, if_neg hempty, if_neg Bool.false_ne_true]

theorem Session.rank_last (hreading : S.outcome = .reading) {b : Batch v}
    (hbatch : S.batch = some b) (hdone : S.reader.done = true) :
    S.rank R = if b.total = 0 then 1 else 2 := by
  unfold Session.rank
  rw [hreading, hbatch, hdone]
  rfl

theorem Holding.within {cols : List OdbcColumn} (h : Holding opts cols R sees S V k) :
    k ≤ R.count := by
  have hnext := h.inStep.within
  cases hbatch : S.batch with
  | none => exact (h.between hbatch).ge.trans hnext
  | some b =>
      have hb := (h.batch b hbatch).1
      omega

/-- A reader that has bound its columns begins another call. -/
theorem Holding.begin {cols : List OdbcColumn}
    (hcontract : FollowsContract D opts cols R faults sees)
    (h : Holding opts cols R sees S V k) (hreading : S.outcome = .reading)
    (hbatch : S.batch = none) : Nearer opts cols R faults sees S (S.begin D) := by
  have hrank : S.rank R = if S.reader.done = true then 1
      else 3 * (R.count - S.reader.rowsSeen) + 3 := by
    unfold Session.rank
    rw [hreading, hbatch]
  unfold Session.begin
  by_cases hdone : S.reader.done = true
  · rw [if_pos hdone] at hrank ⊢
    refine ⟨Or.inl ⟨V, k, h.bound, h.inStep, h.delivered, h.between, h.batch, h.done,
      Or.inr ⟨rfl, hbatch, h.done hdone⟩⟩, ?_⟩
    · rw [hrank]
      exact Nat.one_pos
  · obtain ⟨V', hstep', hnext, hdone'⟩ := restoreRowset_spec hcontract h.inStep
    have hkept := Session.restoreRowset_kept D S.reader
    have hmost : mostRows { S with reader := Session.restoreRowset D S.reader } = mostRows S :=
      mostRows_kept hkept
    rw [if_neg hdone] at hrank ⊢
    rw [if_pos h.bound]
    have hseen : (Session.restoreRowset D S.reader).rowsSeen = S.reader.rowsSeen := by
      rw [hstep'.seen, hnext, h.inStep.seen]
    refine ⟨Or.inl ⟨V', k, (congrArg Kept.bound hkept).trans h.bound, hstep', ?_, ?_, ?_, ?_,
      Or.inl hreading⟩, ?_⟩
    · change CoversRows R cols.length
        (mostRows { S with reader := Session.restoreRowset D S.reader }) S.delivered k
      rw [hmost]
      exact h.delivered
    · exact fun hnone => by cases hnone
    · intro b hb
      rw [← Option.some.inj hb]
      exact ⟨hnext.trans (h.between hbatch), Nat.zero_le _, fun _ _ => rfl⟩
    · intro hd
      exact absurd (hdone'.symm.trans hd) hdone
    · rw [hrank]
      unfold Session.rank
      dsimp only
      rw [hreading, hseen, hdone', if_pos rfl, if_neg hdone]
      exact Nat.lt_succ_self _

/-- The first call binds the columns. -/
theorem Fresh.begin
    (hcontract : FollowsContract D opts (describeColumns opts declared) R faults sees)
    (h : Fresh opts declared sees S) :
    Nearer opts (describeColumns opts declared) R faults sees S (S.begin D) := by
  obtain ⟨hstart, hs⟩ := h
  generalize S.reader.cursor = cursor at hstart hs
  rw [hstart]
  have hbind := readerBind_spec hcontract hs
  have hrank : (Session.start (readerInit opts declared cursor) : Session δ v).rank R =
      3 * R.count + 3 := rfl
  have hreader : (Session.start (readerInit opts declared cursor) : Session δ v).reader =
      readerInit opts declared cursor := rfl
  have hunread : (readerInit opts declared cursor).done = false := rfl
  have hunbound : (readerInit opts declared cursor).bound = false := rfl
  unfold Session.begin
  rw [hreader, hunread, hunbound, if_neg Bool.false_ne_true, if_neg Bool.false_ne_true]
  cases hrun : readerBind D (readerInit opts declared cursor) with
  | mk answer r =>
      rw [hrun] at hbind
      cases answer with
      | some e =>
          have hopts : r.opts = opts :=
            congrArg (fun unsized : OdbcReader Unit => unsized.opts)
              ((congrArg (fun answer => answer.2.unsized) hrun).symm.trans
                (readerBind_unsized D (readerInit opts declared cursor)))
          refine ⟨Or.inr ⟨⟨e, rfl⟩, hopts, hbind, 0, Nat.zero_le _, CoversRows.nil R _ _⟩, ?_⟩
          rw [Session.rank_ended (fun h => by cases h), hrank]
          exact Nat.succ_pos _
      | none =>
          obtain ⟨V, hstep, hnext, hdone⟩ := hbind
          obtain ⟨V', hstep', hnext', hdone'⟩ := restoreRowset_spec hcontract hstep
          have hbound := (congrArg Kept.bound (Session.restoreRowset_kept D r)).trans
            (readerBind_bound D hrun)
          have hstarted : V'.next = 0 := hnext'.trans hnext
          have hgoes : (Session.restoreRowset D r).done = false := hdone'.trans hdone
          refine ⟨Or.inl ⟨V', 0, hbound, hstep', CoversRows.nil R _ _, ?_, ?_, ?_, Or.inl rfl⟩, ?_⟩
          · exact fun hnone => by cases hnone
          · intro b hb
            rw [← Option.some.inj hb]
            exact ⟨hstarted, Nat.zero_le _, fun _ _ => rfl⟩
          · intro hd
            exact absurd (hgoes.symm.trans hd) Bool.false_ne_true
          · rw [hrank]
            change Session.rank R { reader := Session.restoreRowset D r, batch := some {} } < _
            unfold Session.rank
            dsimp only
            rw [hgoes, hstep'.seen, hstarted, if_pos rfl, if_neg Bool.false_ne_true]
            exact Nat.lt_succ_self _

/-- The end of a call hands the batch over. -/
theorem Holding.finish {cols : List OdbcColumn} (h : Holding opts cols R sees S V k)
    (hreading : S.outcome = .reading) {b : Batch v} (hbatch : S.batch = some b)
    (hwants : S.wantsRowset b = false) : Nearer opts cols R faults sees S (S.finish b) := by
  obtain ⟨hnext, hmost, hcolumns⟩ := h.batch b hbatch
  unfold Session.finish
  by_cases hempty : b.total = 0
  · have hdone : S.reader.done = true := by
      unfold Session.wantsRowset at hwants
      simpa [hempty] using hwants
    rw [if_pos hempty]
    refine ⟨Or.inl ⟨V, k, h.bound, h.inStep, h.delivered, ?_, ?_, h.done,
      Or.inr ⟨rfl, rfl, h.done hdone⟩⟩, ?_⟩
    · intro _
      rw [hnext, hempty]
      rfl
    · exact fun _ hnone => by cases hnone
    · rw [Session.rank_ended (fun h => by cases h)]
      unfold Session.rank
      rw [hreading, hbatch]
      dsimp only
      rw [if_pos hempty, if_pos hdone]
      exact Nat.one_pos
  · rw [if_neg hempty]
    refine ⟨Or.inl ⟨V, k + b.total, h.bound, h.inStep,
      h.delivered.snoc hcolumns (Nat.pos_of_ne_zero hempty) hmost, fun _ => hnext, ?_, h.done,
      Or.inl hreading⟩, ?_⟩
    · exact fun _ hnone => by cases hnone
    · unfold Session.rank
      dsimp only
      rw [hreading, hbatch]
      dsimp only
      rw [if_neg hempty]
      split_ifs
      · exact Nat.lt_succ_self _
      · exact Nat.lt_succ_self _

/-- A turn of the loop fetches a rowset and appends it. -/
theorem Holding.turn {cols : List OdbcColumn}
    (hcontract : FollowsContract D opts cols R faults sees) (h : Holding opts cols R sees S V k)
    (hreading : S.outcome = .reading) {b : Batch v} (hbatch : S.batch = some b)
    (hwants : S.wantsRowset b = true) : Nearer opts cols R faults sees S (S.turn D b) := by
  obtain ⟨hnext, hmost, hcolumns⟩ := h.batch b hbatch
  unfold Session.wantsRowset at hwants
  rw [Bool.and_eq_true, Bool.or_eq_true, decide_eq_true_eq, decide_eq_true_eq,
    Bool.not_eq_true'] at hwants
  obtain ⟨hroom, hdone⟩ := hwants
  have hrank := @Session.rank_within _ _ R S hreading b hbatch hdone
  rw [h.inStep.seen] at hrank
  have hturned := Session.turn_kept D S b
  unfold Session.turn at hturned ⊢
  cases hfetch : D.fetch S.reader.cursor with
  | mk answer s =>
      rw [hfetch] at hturned
      cases answer with
      | failed e =>
          refine ⟨Or.inr ⟨⟨e, rfl⟩, h.inStep.agrees.options,
            hcontract.notFetched h.inStep.sees hfetch, k, h.within, h.delivered⟩, ?_⟩
          rw [Session.rank_ended (fun h => by cases h), hrank]
          split_ifs
          · exact Nat.succ_pos _
          · exact Nat.succ_pos _
      | noData =>
          have hsize : 0 < V.size := h.inStep.pos.trans_eq h.inStep.agrees.size.symm
          obtain ⟨hcount, hs⟩ := hcontract.noData h.inStep.sees hsize hfetch
          have hcursor := h.inStep.cursor hs
          have hstep : InStep opts cols R sees
              { S.reader with cursor := s, done := true } V :=
            { hcursor with agrees := hcursor.agrees.reader rfl rfl rfl hcursor.agrees.size }
          refine ⟨Or.inl ⟨V, k, h.bound, hstep, h.delivered, h.between, h.batch, fun _ => hcount,
            Or.inl hreading⟩, ?_⟩
          · have hlast : Session.rank R { S with reader :=
                { S.reader with cursor := s, done := true } } = if b.total = 0 then 1 else 2 :=
              @Session.rank_last _ _ R
                { S with reader := { S.reader with cursor := s, done := true } } hreading b hbatch
                rfl
            dsimp only at hlast ⊢
            rw [hrank, hlast]
            split_ifs
            · omega
            · omega
      | rows rowset =>
          obtain ⟨k', hpos, hfits, hcount, hshows, hs⟩ := hcontract.fetched h.inStep.sees hfetch
          have htake := take_spec hcontract h.inStep hpos hfits hcount hshows hs b
          dsimp only at hturned ⊢
          cases htake with
          | inl hfailed =>
              obtain ⟨r, e, heq, hfaults⟩ := hfailed
              rw [heq] at hturned ⊢
              refine ⟨Or.inr ⟨⟨e, rfl⟩,
                (congrArg Kept.opts hturned).trans h.inStep.agrees.options, hfaults, k, h.within,
                ?_⟩, ?_⟩
              · have hmost' : mostRows (S.fail r e) = mostRows S := mostRows_kept hturned
                rw [hmost']
                exact h.delivered
              · rw [Session.rank_ended (fun h => by cases h), hrank]
                split_ifs
                · exact Nat.succ_pos _
                · exact Nat.succ_pos _
          | inr hgoes =>
              obtain ⟨r, b', heq, htakes⟩ := hgoes
              rw [heq] at hturned ⊢
              obtain ⟨V', hstep', hnext'⟩ := htakes.inStep
              have hmost' : mostRows { S with reader := r, batch := some b' } = mostRows S :=
                mostRows_kept hturned
              have hgoes : r.done = false := htakes.done.trans hdone
              have hbound : r.bound = true := (congrArg Kept.bound hturned).trans h.bound
              refine ⟨Or.inl ⟨V', k, hbound, hstep', ?_, ?_, ?_, ?_, Or.inl hreading⟩, ?_⟩
              · rw [hmost']
                exact h.delivered
              · exact fun hnone => by cases hnone
              · intro c hc
                rw [← Option.some.inj hc, hmost']
                refine ⟨?_, ?_, ?_⟩
                · rw [hnext', hnext, htakes.total, Nat.add_assoc]
                · rw [htakes.total]
                  have hsize := h.inStep.agrees.size
                  have hfull := h.inStep.full
                  unfold mostRows
                  omega
                · intro i hi
                  rw [htakes.columns i hi, hcolumns i hi, htakes.total, R.slice_add, hnext]
              · exact fun hd => absurd (hgoes.symm.trans hd) Bool.false_ne_true
              · have hlater : Session.rank R { S with reader := r, batch := some b' } =
                    3 * (R.count - r.rowsSeen) + if b'.total = 0 then 2 else 4 :=
                  @Session.rank_within _ _ R { S with reader := r, batch := some b' } hreading b'
                    rfl hgoes
                rw [hrank, hlater, hstep'.seen, hnext', if_neg (by rw [htakes.total]; omega)]
                split_ifs
                · omega
                · omega

/-! ## Runs -/

/-- A state of a session. -/
def Delivering (opts : OdbcReaderOptions) (declared : List (List Char × Declared))
    (R : ResultSet v) (faults : Prop) (sees : δ → CursorView → Prop) (S : Session δ v) : Prop :=
  Fresh opts declared sees S ∨
    (∃ V k, Holding opts (describeColumns opts declared) R sees S V k) ∨
    Failed opts (describeColumns opts declared) R faults S

/-- What a session does next. -/
theorem Delivering.advance
    (hcontract : FollowsContract D opts (describeColumns opts declared) R faults sees)
    (h : Delivering opts declared R faults sees S) (hreading : S.outcome = .reading) :
    Nearer opts (describeColumns opts declared) R faults sees S (S.advance D) := by
  unfold Session.advance
  cases hbatch : S.batch with
  | none =>
      rw [hreading]
      cases h with
      | inl hfresh => exact hfresh.begin hcontract
      | inr hbegun =>
          cases hbegun with
          | inl hholding =>
              obtain ⟨V, k, hholding⟩ := hholding
              exact hholding.begin hcontract hreading hbatch
          | inr hfailed =>
              obtain ⟨e, he⟩ := hfailed.failed
              rw [he] at hreading
              cases hreading
  | some b =>
      rw [hreading]
      cases h with
      | inl hfresh =>
          rw [hfresh.start] at hbatch
          cases hbatch
      | inr hbegun =>
          cases hbegun with
          | inl hholding =>
              obtain ⟨V, k, hholding⟩ := hholding
              dsimp only
              cases hwants : S.wantsRowset b with
              | true => exact hholding.turn hcontract hreading hbatch hwants
              | false => exact hholding.finish hreading hbatch hwants
          | inr hfailed =>
              obtain ⟨e, he⟩ := hfailed.failed
              rw [he] at hreading
              cases hreading

theorem Delivering.run
    (hcontract : FollowsContract D opts (describeColumns opts declared) R faults sees)
    (h : Delivering opts declared R faults sees S) (n : Nat) :
    Delivering opts declared R faults sees ((Session.advance D)^[n] S) := by
  induction n with
  | zero => exact h
  | succ n ih =>
      rw [Function.iterate_succ_apply']
      by_cases hreading : ((Session.advance D)^[n] S).outcome = .reading
      · exact Or.inr (ih.advance hcontract hreading).1
      · rw [Session.advance_over hreading]
        exact ih

/-- A session comes to its end. -/
theorem Delivering.ends
    (hcontract : FollowsContract D opts (describeColumns opts declared) R faults sees)
    (h : Delivering opts declared R faults sees S) :
    ∃ n, ((Session.advance D)^[n] S).outcome ≠ .reading := by
  induction hrank : S.rank R using Nat.strong_induction_on generalizing S with
  | _ rank ih =>
      by_cases hreading : S.outcome = .reading
      · have hnext := h.advance hcontract hreading
        obtain ⟨n, hn⟩ := ih _ (hrank ▸ hnext.2) (Or.inr hnext.1) rfl
        exact ⟨n + 1, hn⟩
      · exact ⟨0, hreading⟩

end Sessions

theorem unbindAfter_length (seenUnbound : Bool) (cols : List OdbcColumn) :
    (unbindAfter seenUnbound cols).length = cols.length := by
  induction cols generalizing seenUnbound with
  | nil => rfl
  | cons c rest ih => exact congrArg (· + 1) (ih _)

theorem describeColumns_length (opts : OdbcReaderOptions)
    (declared : List (List Char × Declared)) :
    (describeColumns opts declared).length = declared.length :=
  (unbindAfter_length false _).trans (List.length_map _)

/-- Where a session stands: the batches so far are the first rows of the result, in order and
each row once, and they are the whole result at the end; no rowset size in force was over the
buffers, and the unbound columns come last.  A session may fail where a call may. -/
structure DeliversInOrder (opts : OdbcReaderOptions) (n : Nat) (R : ResultSet v) (faults : Prop)
    (S : Session (δ × List Call) v) : Prop where
  delivered : ∃ k ≤ R.count,
    CoversRows R n (max opts.batchSize S.reader.rowsetFull) S.delivered k
  ended : S.outcome = .ended →
    CoversRows R n (max opts.batchSize S.reader.rowsetFull) S.delivered R.count
  failed : ∀ e, S.outcome = .failed e → faults
  sized : ∀ rows ∈ sizes S.reader.cursor.2, rows ≤ S.reader.capacity
  unbound : (∀ e, S.outcome ≠ .failed e) → UnboundLast S.reader.cols

section InOrder

variable {D : Driver δ v} {opts : OdbcReaderOptions} {declared : List (List Char × Declared)}
  {R : ResultSet v} {faults : Prop} {sees : δ × List Call → CursorView → Prop}
  {S : Session (δ × List Call) v}

theorem Holding.covers {V : CursorView} {k : Nat} {cols : List OdbcColumn}
    (h : Holding opts cols R sees S V k) :
    CoversRows R cols.length (max opts.batchSize S.reader.rowsetFull) S.delivered k := by
  have hdelivered := h.delivered
  unfold mostRows at hdelivered
  rw [h.inStep.agrees.options] at hdelivered
  exact hdelivered

theorem Delivering.inOrder (h : Delivering opts declared R faults sees S)
    (hallocated : Allocated D S) : DeliversInOrder opts declared.length R faults S := by
  rw [← describeColumns_length opts]
  cases h with
  | inl hfresh =>
      have houtcome : S.outcome = .reading := by rw [hfresh.start]; rfl
      refine ⟨⟨0, Nat.zero_le _, ?_⟩, ?_, ?_, hallocated.sizes, ?_⟩
      · rw [hfresh.start]
        exact CoversRows.nil R _ _
      · intro hended
        rw [houtcome] at hended
        cases hended
      · intro e hfailed
        rw [houtcome] at hfailed
        cases hfailed
      · intro _
        rw [hfresh.start]
        exact describeColumns_unboundLast opts declared
  | inr hbegun =>
      cases hbegun with
      | inl hholding =>
          obtain ⟨V, k, hholding⟩ := hholding
          refine ⟨⟨k, hholding.within, hholding.covers⟩, ?_, ?_, hallocated.sizes,
            fun _ => hholding.inStep.last⟩
          · intro hended
            obtain ⟨hbatch, hcount⟩ : S.batch = none ∧ R.count ≤ V.next := by
              cases hholding.outcome with
              | inl hreading =>
                  rw [hended] at hreading
                  cases hreading
              | inr hover => exact hover.2
            have hall : k = R.count :=
              le_antisymm hholding.within (hcount.trans_eq (hholding.between hbatch))
            rw [← hall]
            exact hholding.covers
          · intro e hfailed
            cases hholding.outcome with
            | inl hreading =>
                rw [hfailed] at hreading
                cases hreading
            | inr hover =>
                rw [hfailed] at hover
                cases hover.1
      | inr hfailed =>
          obtain ⟨e, he⟩ := hfailed.failed
          obtain ⟨k, hwithin, hcovers⟩ := hfailed.delivered
          unfold mostRows at hcovers
          rw [hfailed.options] at hcovers
          refine ⟨⟨k, hwithin, hcovers⟩, ?_, fun _ _ => hfailed.faults, hallocated.sizes, ?_⟩
          · intro hended
            rw [he] at hended
            cases hended
          · exact fun hgoes => absurd he (hgoes e)

/-- On every driver that keeps the contract of a block cursor a session delivers the rows in
order, whatever it repairs, resizes and unbinds on the way, and comes to its end. -/
theorem session_inOrder {D : Driver δ v} {sees : δ → CursorView → Prop} {cursor : δ}
    (hcontract : FollowsContract D opts (describeColumns opts declared) R faults sees)
    (hopen : sees cursor {}) :
    (∀ n, DeliversInOrder opts declared.length R faults
      ((Session.advance D.logged)^[n] (Session.start (readerInit opts declared (cursor, []))))) ∧
    ∃ n, ((Session.advance D.logged)^[n]
      (Session.start (readerInit opts declared (cursor, [])))).outcome ≠ .reading := by
  have hstart : Delivering opts declared R faults (fun s V => sees s.1 V)
      (Session.start (readerInit opts declared (cursor, [])) : Session (δ × List Call) v) :=
    Or.inl ⟨rfl, hopen⟩
  constructor
  · intro n
    exact (hstart.run hcontract.logged n).inOrder ((Allocated.start _ rfl rfl).run n)
  · exact hstart.ends hcontract.logged

end InOrder

end AdbcBridge.Reader
