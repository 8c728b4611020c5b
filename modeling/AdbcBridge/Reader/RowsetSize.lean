import AdbcBridge.Reader.Calls

/-!
# The rowset size and the buffers

Whatever a driver answers, the reader puts no rowset size in force that is over the rows its
buffers were allocated for.
-/

namespace AdbcBridge.Reader

open AdbcBridge.Adbc Driver

/-- The size that a call puts in force. -/
def Call.putsInForce : Call → Option Nat
  | .setRowArraySize rows true => some rows
  | _ => none

/-- The sizes that were in force behind these calls. -/
def sizes (calls : List Call) : List Nat := calls.filterMap Call.putsInForce

/-- A call that puts no size over `most` in force. -/
def Call.Within (most : Nat) (c : Call) : Prop := ∀ n ∈ c.putsInForce, n ≤ most

variable {δ v : Type*} {most : Nat}

theorem Call.within_of_not_resizes (most : Nat) {c : Call} (h : ¬ c.Resizes) : c.Within most := by
  intro n hn
  cases c with
  | setRowArraySize rows accepted => exact absurd trivial h
  | _ => exact absurd hn (Option.not_mem_none n)

theorem sizes_le {D : Driver δ v} {s t : δ × List Call}
    (h : D.logged.Calls (Call.Within most) s t) (hs : ∀ n ∈ sizes s.2, n ≤ most) :
    ∀ n ∈ sizes t.2, n ≤ most := by
  obtain ⟨calls, hcalls, hwithin⟩ := h.logged
  intro n hn
  rw [hcalls, sizes, List.filterMap_append, List.mem_append] at hn
  cases hn with
  | inl hold => exact hs n hold
  | inr hnew =>
      obtain ⟨c, hc, hputs⟩ := List.mem_filterMap.mp hnew
      exact hwithin c hc n hputs

/-! ## What `ReaderBind` sizes -/

theorem fitRows_pos (opts : OdbcReaderOptions) (cols : List OdbcColumn) {rows : Nat}
    (hrows : 0 < rows) : 0 < fitRows opts cols rows := by
  unfold fitRows
  dsimp only
  split_ifs
  · exact lt_min hrows (Nat.one_pos.trans_le (Nat.le_max_right _ _))
  · exact hrows

theorem rowsetRows_pos (opts : OdbcReaderOptions) (cols : List OdbcColumn) (allBound : Bool) :
    0 < rowsetRows opts cols allBound := by
  have hrows : 0 < if allBound = true then opts.batchSize else 1 := by
    split_ifs
    · exact opts.batchSize_pos
    · exact Nat.one_pos
  have hfit := fitRows_pos opts cols hrows
  unfold rowsetRows
  dsimp only
  by_cases hchunk : 0 < opts.minBufferRows ∧ allBound = true
  · rw [if_pos hchunk]
    exact Nat.mul_pos (Nat.div_pos (by omega) hchunk.1) hchunk.1
  · rw [if_neg hchunk]
    exact hfit

theorem sizeRowset_bounds (r : OdbcReader δ) :
    0 < (sizeRowset r).rowsPerFetch ∧
      (sizeRowset r).rowsPerFetch ≤ (sizeRowset r).rowsetFull ∧
      (sizeRowset r).rowsetFull ≤ (sizeRowset r).capacity := by
  have hpos := rowsetRows_pos r.opts r.cols (r.cols.all (·.bound))
  unfold sizeRowset
  dsimp only
  refine ⟨?_, ?_, Nat.le_max_left _ _⟩
  · split_ifs
    · decide
    · exact hpos
  · split_ifs with hprobe
    · exact hprobe.2.2.le
    · exact le_rfl

/-! ## What the calls put in force -/

section
variable (D : Driver δ v)

theorem setRowArraySize_within (s : δ) {n : Nat} (hn : n ≤ most) :
    D.Calls (Call.Within most) s (D.setRowArraySize s n).2 := by
  refine .call (c := .setRowArraySize n (D.setRowArraySize s n).1.isNone) ?_ ⟨rfl, rfl⟩
  intro m hm
  cases hanswer : (D.setRowArraySize s n).1.isNone with
  | false =>
      rw [hanswer] at hm
      exact absurd hm (Option.not_mem_none m)
  | true =>
      rw [hanswer] at hm
      exact Option.some.inj hm ▸ hn

theorem resizeRowset_within (r : OdbcReader δ) {n : Nat} (hn : n ≤ most) :
    D.Calls (Call.Within most) r.cursor (resizeRowset D r n).2 := by
  unfold resizeRowset
  split
  · exact .refl
  · exact setRowArraySize_within D r.cursor hn

theorem repairRows_within (r : OdbcReader δ) (rows : List Nat) (s : δ)
    (columns : Nat → List v) :
    D.Calls (Call.Within most) s (repairRows D r rows s columns).2 := by
  induction rows generalizing s columns with
  | nil => exact .refl
  | cons row rest ih =>
      have hfetch : D.Calls (Call.Within most) s (D.fetchAbsolute s row).2 :=
        .call (c := .fetchAbsolute row) (Call.within_of_not_resizes most id) rfl
      rw [repairRows]
      split
      · rename_i heq
        rw [heq] at hfetch
        exact hfetch
      · rename_i rowset t heq
        rw [heq] at hfetch
        have happend :=
          (appendCells_calls D r rowset rowConverter (rowCells r 0) t columns).mono fun _ hc =>
            Call.within_of_not_resizes most (Call.Reads.not_resizes hc)
        split
        · rename_i heq
          rw [heq] at happend
          exact hfetch.trans happend
        · rename_i heq
          rw [heq] at happend
          exact hfetch.trans (happend.trans (ih _ _))

/-- A repair reads single rows, and takes the rowset back. -/
theorem repairRowset_within (r : OdbcReader δ) (hone : 1 ≤ most) (hrows : r.rowsPerFetch ≤ most)
    (first fetched : Nat) (columns : Nat → List v) :
    D.Calls (Call.Within most) r.cursor (repairRowset D r first fetched columns).2 := by
  have hsingle := setRowArraySize_within D r.cursor hone
  unfold repairRowset
  split
  · rename_i heq
    rw [heq] at hsingle
    exact hsingle
  · rename_i s heq
    rw [heq] at hsingle
    have hrepair : D.Calls (Call.Within most) s _ :=
      repairRows_within D { r with rowsPerFetch := 1 } (List.range' first fetched) s columns
    split
    · rename_i t heq
      rw [heq] at hrepair
      exact hsingle.trans (hrepair.trans (setRowArraySize_within D t hrows))
    · rename_i t heq
      rw [heq] at hrepair
      have hback := setRowArraySize_within D t hrows
      split
      · rename_i heq
        rw [heq] at hback
        exact hsingle.trans (hrepair.trans hback)
      · rename_i heq
        rw [heq] at hback
        exact hsingle.trans (hrepair.trans hback)

end

/-- A reader that has come from `s` to its cursor, and no rowset on the way was over `most`
rows. -/
structure Reaches (D : Driver δ v) (most : Nat) (s : δ) (r : OdbcReader δ) : Prop where
  calls : D.Calls (Call.Within most) s r.cursor
  rows : r.rowsPerFetch ≤ most
  full : r.rowsetFull ≤ most
  one : 1 ≤ most

namespace Reaches

variable {D : Driver δ v} {s : δ} {r : OdbcReader δ}

theorem cursor (h : Reaches D most s r) {t : δ} (ht : D.Calls (Call.Within most) r.cursor t) :
    Reaches D most s { r with cursor := t } :=
  ⟨h.calls.trans ht, h.rows, h.full, h.one⟩

theorem unbindCols (h : Reaches D most s r) (cols : List Nat) :
    Reaches D most s (unbindCols D cols r).2 := by
  induction cols generalizing r with
  | nil => exact ⟨h.calls, h.rows, h.full, h.one⟩
  | cons i rest ih =>
      rw [Reader.unbindCols]
      split
      · have hcall : D.Calls (Call.Within most) r.cursor (D.unbindCol r.cursor i).2 :=
          .call (c := .unbindCol i) (Call.within_of_not_resizes most id) rfl
        split
        · rename_i heq
          rw [heq] at hcall
          exact h.cursor hcall
        · rename_i heq
          rw [heq] at hcall
          exact ih ⟨h.calls.trans hcall, h.rows, h.full, h.one⟩
      · exact ih h

theorem unbindFrom (h : Reaches D most s r) (first : Nat) :
    Reaches D most s (unbindFrom D r first).2 := by
  have hresize := resizeRowset_within D r h.one
  unfold Reader.unbindFrom
  dsimp only
  split
  · split
    · rename_i heq
      rw [heq] at hresize
      exact ⟨h.calls.trans hresize, h.rows, h.full, h.one⟩
    · rename_i t heq
      rw [heq] at hresize
      have hsingle : Reaches D most s { r with cursor := t, rowsPerFetch := 1 } :=
        ⟨h.calls.trans hresize, h.one, h.full, h.one⟩
      exact hsingle.unbindCols _
  · exact h.unbindCols _

theorem adaptBindWidth (h : Reaches D most s r) (rowset : Rowset v) (fetched : Nat) :
    Reaches D most s (adaptBindWidth D r rowset fetched).2 := by
  have hcharged : Reaches D most s { charged r rowset fetched with adaptOpen := false } :=
    ⟨h.calls, h.rows, h.full, h.one⟩
  unfold Reader.adaptBindWidth settleWidths
  split
  · exact ⟨h.calls, h.rows, h.full, h.one⟩
  · split
    · exact hcharged.unbindFrom _
    · exact ⟨h.calls, h.rows, h.full, h.one⟩

theorem converted (h : Reaches D most s r) (rowset : Rowset v) (fetched : Nat) (bulk : Bool) :
    Reaches D most s (Session.converted D r rowset fetched bulk).2 := by
  unfold Session.converted
  split
  · exact h.adaptBindWidth rowset fetched
  · exact h

theorem repaired (h : Reaches D most s r) : Reaches D most s (Session.repaired D r) := by
  have hresize := resizeRowset_within D { r with rowsetsRepaired := r.rowsetsRepaired + 1 } h.one
  unfold Session.repaired
  dsimp only
  split
  · split
    · rename_i heq
      rw [heq] at hresize
      exact ⟨h.calls.trans hresize, h.one, h.full, h.one⟩
    · rename_i heq
      rw [heq] at hresize
      exact ⟨h.calls.trans hresize, h.rows, h.full, h.one⟩
  · exact ⟨h.calls, h.rows, h.full, h.one⟩

theorem restoreRowset (h : Reaches D most s r) :
    Reaches D most s (Session.restoreRowset D r) := by
  have hresize := resizeRowset_within D r h.full
  unfold Session.restoreRowset
  split
  · split
    · rename_i heq
      rw [heq] at hresize
      exact ⟨h.calls.trans hresize, h.full, h.full, h.one⟩
    · rename_i heq
      rw [heq] at hresize
      exact ⟨h.calls.trans hresize, h.rows, h.full, h.one⟩
  · exact h

theorem setRowset (h : Reaches D most s r) : Reaches D most s (setRowset D r) := by
  have hset := setRowArraySize_within D r.cursor h.rows
  unfold Reader.setRowset
  split
  · rename_i heq
    rw [heq] at hset
    exact h.cursor hset
  · rename_i t heq
    rw [heq] at hset
    exact ⟨h.calls.trans (hset.trans (setRowArraySize_within D t h.one)), h.one, h.full, h.one⟩

theorem probeRowsFetchedPtr (h : Reaches D most s r) :
    Reaches D most s (probeRowsFetchedPtr D r) := by
  have hprobe : D.Calls (Call.Within most) r.cursor (D.setRowsFetchedPtr r.cursor none).2 :=
    .call (c := .setRowsFetchedPtr none) (Call.within_of_not_resizes most id) rfl
  unfold Reader.probeRowsFetchedPtr
  split
  · rename_i heq
    rw [heq] at hprobe
    exact h.cursor hprobe
  · rename_i t heq
    rw [heq] at hprobe
    exact ⟨h.calls.trans (hprobe.trans (setRowArraySize_within D t h.one)), h.one, h.full, h.one⟩

theorem settleRowset (h : Reaches D most s r) : Reaches D most s (settleRowset r) := by
  unfold Reader.settleRowset
  split
  · exact ⟨h.calls, h.rows, h.one, h.one⟩
  · exact h

/-- `ReaderBind` sizes the buffers for the largest rowset it asks for. -/
theorem readerBind (r : OdbcReader δ) :
    Reaches D (sizeRowset r).capacity r.cursor (readerBind D r).2 := by
  have hsized : Reaches D (sizeRowset r).capacity r.cursor (sizeRowset r) := by
    obtain ⟨hpos, hrows, hfull⟩ := sizeRowset_bounds r
    exact ⟨.refl, hrows.trans hfull, hfull, hpos.trans_le (hrows.trans hfull)⟩
  have hsettled := hsized.setRowset.probeRowsFetchedPtr.settleRowset
  unfold Reader.readerBind
  dsimp only
  generalize Reader.settleRowset (Reader.probeRowsFetchedPtr D (Reader.setRowset D (sizeRowset r)))
    = b at hsettled ⊢
  have hbind := (bindSlot_calls D b b.cursor 0).mono fun _ hc =>
    Call.within_of_not_resizes (sizeRowset r).capacity (Call.Aims.not_resizes hc)
  split
  · rename_i heq
    rw [heq] at hbind
    exact hsettled.cursor hbind
  · rename_i heq
    rw [heq] at hbind
    exact ⟨hsettled.calls.trans hbind, hsettled.rows, hsettled.full, hsettled.one⟩

theorem take {S : Session δ v} (h : Reaches D most s S.reader) (batch : Batch v)
    (rowset : Rowset v) : Reaches D most s (S.take D batch rowset).reader := by
  have hcounted (fetched : Nat) (bulk : Bool) :
      Reaches D most s (Session.counted S.reader fetched bulk) :=
    ⟨h.calls, h.rows, h.full, h.one⟩
  unfold Session.take
  dsimp only
  generalize resolveFetched S.reader rowset = fetched
  generalize rowsetIsBulk rowset fetched = bulk
  specialize hcounted fetched bulk
  generalize Session.counted S.reader fetched bulk = r at hcounted ⊢
  split
  · have hrepair := repairRowset_within D r h.one hcounted.rows (S.reader.rowsSeen + 1) fetched
      batch.columns
    split
    · rename_i heq
      rw [heq] at hrepair
      have hfailed := hcounted.cursor hrepair
      exact ⟨hfailed.calls, hfailed.rows, hfailed.full, hfailed.one⟩
    · rename_i heq
      rw [heq] at hrepair
      exact (hcounted.cursor hrepair).repaired
  · have hconvert := (convertRowset_calls D r rowset fetched bulk r.cursor batch).mono fun _ hc =>
      Call.within_of_not_resizes most (Call.Reads.not_resizes hc)
    split
    · rename_i heq
      rw [heq] at hconvert
      have hfailed := hcounted.cursor hconvert
      exact ⟨hfailed.calls, hfailed.rows, hfailed.full, hfailed.one⟩
    · rename_i t heq
      rw [heq] at hconvert
      have hadapted := (hcounted.cursor hconvert).converted rowset fetched bulk
      split
      · rename_i heq
        rw [heq] at hadapted
        exact ⟨hadapted.calls, hadapted.rows, hadapted.full, hadapted.one⟩
      · rename_i heq
        rw [heq] at hadapted
        exact hadapted

theorem turn {S : Session δ v} (h : Reaches D most s S.reader) (batch : Batch v) :
    Reaches D most s (S.turn D batch).reader := by
  have hfetch : D.Calls (Call.Within most) S.reader.cursor (D.fetch S.reader.cursor).2 :=
    .call (c := .fetch) (Call.within_of_not_resizes most id) rfl
  unfold Session.turn
  split
  · rename_i heq
    rw [heq] at hfetch
    exact ⟨h.calls.trans hfetch, h.rows, h.full, h.one⟩
  · rename_i heq
    rw [heq] at hfetch
    exact ⟨h.calls.trans hfetch, h.rows, h.full, h.one⟩
  · rename_i rowset t heq
    rw [heq] at hfetch
    exact take (S := { S with reader := { S.reader with cursor := t } }) (h.cursor hfetch)
      batch rowset

end Reaches

/-! ## Sessions -/

theorem Session.advance_over {D : Driver δ v} {S : Session δ v} (h : S.outcome ≠ .reading) :
    S.advance D = S := by
  unfold Session.advance
  split
  · rename_i hreading _
    exact absurd hreading h
  · rename_i hreading _
    exact absurd hreading h
  · rfl

/-- The sizes that were in force fit in the buffers of the session's reader. -/
structure Allocated (D : Driver δ v) (S : Session (δ × List Call) v) : Prop where
  sizes : ∀ n ∈ sizes S.reader.cursor.2, n ≤ S.reader.capacity
  bound : S.reader.bound = true →
    Reaches D.logged S.reader.capacity S.reader.cursor S.reader
  fresh : S.outcome = .reading → S.reader.bound = false →
    S.batch = none ∧ S.reader.cursor.2 = []

namespace Allocated

variable {D : Driver δ v} {S : Session (δ × List Call) v}

theorem start (r : OdbcReader (δ × List Call)) (hcalls : r.cursor.2 = [])
    (hbound : r.bound = false) : Allocated D (Session.start r : Session (δ × List Call) v) where
  sizes := by
    intro n hn
    rw [show (Session.start r : Session (δ × List Call) v).reader.cursor.2 = [] from hcalls] at hn
    exact absurd hn List.not_mem_nil
  bound := fun h => absurd (hbound.symm.trans h) Bool.false_ne_true
  fresh := fun _ _ => ⟨rfl, hcalls⟩

theorem reaches {T : Session (δ × List Call) v}
    (hsizes : ∀ n ∈ Reader.sizes S.reader.cursor.2, n ≤ T.reader.capacity)
    (hreaches : Reaches D.logged T.reader.capacity S.reader.cursor T.reader)
    (hbegun : T.outcome = .reading → T.reader.bound = true) : Allocated D T where
  sizes := sizes_le hreaches.calls hsizes
  bound := fun _ => ⟨.refl, hreaches.rows, hreaches.full, hreaches.one⟩
  fresh := fun hreading hunbound =>
    absurd (hunbound.symm.trans (hbegun hreading)) Bool.false_ne_true

theorem begin (h : Allocated D S) (hreading : S.outcome = .reading) :
    Allocated D (S.begin D.logged) := by
  unfold Session.begin
  by_cases hdone : S.reader.done = true
  · rw [if_pos hdone]
    exact ⟨h.sizes, h.bound, fun hended => by cases hended⟩
  rw [if_neg hdone]
  cases hbound : S.reader.bound with
  | true =>
      rw [if_pos rfl]
      have hkept := Session.restoreRowset_kept D.logged S.reader
      have hcapacity : (Session.restoreRowset D.logged S.reader).capacity = S.reader.capacity :=
        congrArg Kept.capacity hkept
      apply reaches (S := S)
      · exact fun n hn => (h.sizes n hn).trans_eq hcapacity.symm
      · dsimp only
        rw [hcapacity]
        exact (h.bound hbound).restoreRowset
      · exact fun _ => (congrArg Kept.bound hkept).trans hbound
  | false =>
      rw [if_neg Bool.false_ne_true]
      have hcalls := (h.fresh hreading hbound).2
      have hnone : ∀ n ∈ Reader.sizes S.reader.cursor.2,
          n ≤ (sizeRowset S.reader).capacity := by
        intro n hn
        rw [hcalls] at hn
        exact absurd hn List.not_mem_nil
      have hbind := Reaches.readerBind (D := D.logged) S.reader
      have hcapacity : (readerBind D.logged S.reader).2.capacity =
          (sizeRowset S.reader).capacity :=
        congrArg (fun unsized : OdbcReader Unit => unsized.capacity)
          (readerBind_unsized D.logged S.reader)
      cases hrun : readerBind D.logged S.reader with
      | mk answer r =>
          rw [hrun] at hbind hcapacity
          dsimp only at hbind hcapacity
          rw [← hcapacity] at hbind hnone
          cases answer with
          | some e =>
              exact reaches (S := S) hnone ⟨hbind.calls, hbind.rows, hbind.full, hbind.one⟩
                fun hgoes => by cases hgoes
          | none =>
              have hkept := Session.restoreRowset_kept D.logged r
              have hrestored : (Session.restoreRowset D.logged r).capacity = r.capacity :=
                congrArg Kept.capacity hkept
              apply reaches (S := S)
              · exact fun n hn => (hnone n hn).trans_eq hrestored.symm
              · dsimp only
                rw [hrestored]
                exact hbind.restoreRowset
              · exact fun _ => (congrArg Kept.bound hkept).trans (readerBind_bound D.logged hrun)

theorem advance (h : Allocated D S) : Allocated D (S.advance D.logged) := by
  by_cases hreading : S.outcome = .reading
  swap
  · rw [Session.advance_over hreading]
    exact h
  unfold Session.advance
  rw [hreading]
  cases hbatch : S.batch with
  | none => exact h.begin hreading
  | some b =>
      have hbound : S.reader.bound = true := by
        by_contra hunbound
        have hnone := (h.fresh hreading (Bool.eq_false_iff.mpr hunbound)).1
        rw [hbatch] at hnone
        cases hnone
      dsimp only
      split
      · have hkept := Session.turn_kept D.logged S b
        have hcapacity : (S.turn D.logged b).reader.capacity = S.reader.capacity :=
          congrArg Kept.capacity hkept
        apply reaches (S := S)
        · exact fun n hn => (h.sizes n hn).trans_eq hcapacity.symm
        · rw [hcapacity]
          exact (h.bound hbound).turn b
        · exact fun _ => (congrArg Kept.bound hkept).trans hbound
      · have hreader : (S.finish b).reader = S.reader := by
          unfold Session.finish
          split
          · rfl
          · rfl
        refine reaches (S := S) ?_ ?_ ?_
        · rw [hreader]
          exact h.sizes
        · rw [hreader]
          exact h.bound hbound
        · rw [hreader]
          exact fun _ => hbound

/-- No rowset size over the buffers is put in force in any state of a session. -/
theorem run (h : Allocated D S) (n : Nat) : Allocated D ((Session.advance D.logged)^[n] S) := by
  induction n with
  | zero => exact h
  | succ n ih =>
      rw [Function.iterate_succ_apply']
      exact ih.advance

end Allocated

end AdbcBridge.Reader
