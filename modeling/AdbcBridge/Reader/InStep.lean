import AdbcBridge.Reader.Appended
import AdbcBridge.Reader.RowsetSize

/-!
# A reader in step with its cursor

What `ReaderBind`, the adaptation of the bind widths and one turn of the loop keep of a reader
on a driver that keeps the contract of a block cursor: its columns and its rowset are those the
driver has, and it has seen the rows that the cursor has moved over.
-/

namespace AdbcBridge.Reader

open AdbcBridge.Adbc

variable {δ v : Type*}

/-- A reader in step with its cursor. -/
structure InStep (opts : OdbcReaderOptions) (cols : List OdbcColumn) (R : ResultSet v)
    (sees : δ → CursorView → Prop) (r : OdbcReader δ) (V : CursorView) : Prop where
  sees : sees r.cursor V
  agrees : Agrees opts cols r V
  last : UnboundLast r.cols
  all : r.allBound = true → ∀ i < r.ncols, (r.col i).bound = true
  wide : (∀ i < r.ncols, (r.col i).bound = true) ∨
    r.rowsPerFetch = 1 ∧ r.adaptOpen = false ∧ r.rowsetRestore = false
  undecided : r.adaptOpen = true → r.rowsetRestore = false
  pos : 0 < r.rowsPerFetch
  full : r.rowsPerFetch ≤ r.rowsetFull
  capacity : r.rowsetFull ≤ r.capacity
  counts : if r.noRowsFetchedPtr = true then r.rowsetFull = 1 else V.counts = true
  seen : r.rowsSeen = V.next
  exactly : r.rowsSeenExact = true
  within : V.next ≤ R.count

section Step

variable {D : Driver δ v} {opts : OdbcReaderOptions} {cols : List OdbcColumn} {R : ResultSet v}
  {faults : Prop} {sees : δ → CursorView → Prop} {r r' : OdbcReader δ} {s : δ} {V V' : CursorView}

theorem Agrees.reader (h : Agrees opts cols r V) (hopts : r'.opts = r.opts)
    (hcols : r'.cols = r.cols) (hbound : V'.bound = V.bound) (hsize : V'.size = r'.rowsPerFetch) :
    Agrees opts cols r' V' := by
  have hncols : r'.ncols = r.ncols := congrArg List.length hcols
  have hcol : ∀ i, r'.col i = r.col i := fun i => by rw [OdbcReader.col, hcols]; rfl
  refine ⟨hopts.trans h.options, hncols.trans h.columns, ?_, ?_, ?_, ?_, hsize⟩
  · intro i hi
    rw [hcol]
    exact h.widths i (hncols ▸ hi)
  · intro i hi
    rw [hcol, hbound]
    exact h.bound i (hncols ▸ hi)
  · intro i hi
    rw [hcol]
    exact h.wasBound i (hncols ▸ hi)
  · intro i hi
    rw [hcol]
    exact h.repairable i (hncols ▸ hi)

/-- The driver has taken another rowset size. -/
theorem InStep.resized (h : InStep opts cols R sees r V) {n : Nat} (hs : sees s (V.resize n))
    (hpos : 0 < n) (hfull : n ≤ r.rowsetFull)
    (hwide : (∀ i < r.ncols, (r.col i).bound = true) ∨
      n = 1 ∧ r.adaptOpen = false ∧ r.rowsetRestore = false) :
    InStep opts cols R sees { r with cursor := s, rowsPerFetch := n } (V.resize n) :=
  { h with
    sees := hs
    agrees := h.agrees.reader rfl rfl rfl rfl
    wide := hwide
    pos := hpos
    full := hfull }

theorem InStep.cursor (h : InStep opts cols R sees r V) (hs : sees s V) :
    InStep opts cols R sees { r with cursor := s } V :=
  { h with
    sees := hs
    agrees := h.agrees.reader rfl rfl rfl h.agrees.size }

/-- A resize of an open cursor is in force, or nothing has changed. -/
theorem resizeRowset_spec (h : FollowsContract D opts cols R faults sees)
    (hs : sees r.cursor V) (n : Nat) :
    sees (resizeRowset D r n).2 (if (resizeRowset D r n).1 = true then V.resize n else V) := by
  unfold resizeRowset
  cases r.opts.fixedRowset with
  | true => exact hs
  | false =>
      rw [if_neg Bool.false_ne_true]
      cases hcall : D.setRowArraySize r.cursor n with
      | mk answer s =>
          cases answer with
          | none => exact h.resized hs hcall
          | some e => exact (h.notResized hs hcall).1

/-- Back to the full rowset, where all columns are bound. -/
theorem restoreRowset_spec (h : FollowsContract D opts cols R faults sees)
    (hstep : InStep opts cols R sees r V) : ∃ V', InStep opts cols R sees
      (Session.restoreRowset D r) V' ∧ V'.next = V.next ∧
        (Session.restoreRowset D r).done = r.done := by
  unfold Session.restoreRowset
  cases hrestore : r.rowsetRestore with
  | false => exact ⟨V, hstep, rfl, rfl⟩
  | true =>
      rw [if_pos rfl]
      have hbound : ∀ i < r.ncols, (r.col i).bound = true := by
        apply hstep.wide.resolve_right
        intro hsingle
        rw [hrestore] at hsingle
        cases hsingle.2.2
      have hresized := resizeRowset_spec h hstep.sees r.rowsetFull
      cases hcall : resizeRowset D r r.rowsetFull with
      | mk answer s =>
          rw [hcall] at hresized
          cases answer with
          | true =>
              have hfull := hstep.resized hresized (hstep.pos.trans_le hstep.full) le_rfl
                (Or.inl hbound)
              exact ⟨_, { hfull with
                agrees := hfull.agrees.reader rfl rfl rfl rfl
                wide := Or.inl hbound
                undecided := fun _ => rfl }, rfl, rfl⟩
          | false =>
              have hkept := hstep.cursor hresized
              exact ⟨V, { hkept with
                agrees := hkept.agrees.reader rfl rfl rfl hkept.agrees.size
                wide := Or.inl hbound
                undecided := fun _ => rfl }, rfl, rfl⟩

theorem repaired_spec (h : FollowsContract D opts cols R faults sees)
    (hstep : InStep opts cols R sees r V) : ∃ V', InStep opts cols R sees
      (Session.repaired D r) V' ∧ V'.next = V.next ∧ (Session.repaired D r).done = r.done := by
  have hcounted : InStep opts cols R sees { r with rowsetsRepaired := r.rowsetsRepaired + 1 } V :=
    { hstep with agrees := hstep.agrees.reader rfl rfl rfl hstep.agrees.size }
  unfold Session.repaired
  dsimp only
  split_ifs
  · have hresized := resizeRowset_spec h hcounted.sees 1
    cases hcall : resizeRowset D { r with rowsetsRepaired := r.rowsetsRepaired + 1 } 1 with
    | mk answer s =>
        rw [hcall] at hresized
        cases answer with
        | true =>
            refine ⟨_, hcounted.resized hresized Nat.one_pos (hstep.pos.trans_le hstep.full) ?_,
              rfl, rfl⟩
            exact hstep.wide.imp_right fun hsingle => ⟨rfl, hsingle.2⟩
        | false => exact ⟨V, hcounted.cursor hresized, rfl, rfl⟩
  · exact ⟨V, hcounted, rfl, rfl⟩

/-! ## Columns that lose their binding -/

theorem col_unbind {i j : Nat} (hj : j < r.ncols) : (r.unbind i).col j =
    if i = j then { r.col j with bound := false, clipped := false } else r.col j := by
  have hlt : r.cols[j]? = some r.cols[j] := List.getElem?_eq_getElem hj
  rw [OdbcReader.unbind, OdbcReader.col, OdbcReader.col, List.getD_eq_getElem?_getD,
    List.getD_eq_getElem?_getD, List.getElem?_modify, hlt]
  split_ifs
  · rfl
  · rfl

theorem ncols_unbind (r : OdbcReader δ) (i : Nat) : (r.unbind i).ncols = r.ncols :=
  List.length_modify ..

theorem Agrees.unbind (h : Agrees opts cols r V) (i : Nat) :
    Agrees opts cols (r.unbind i) { V with bound := Function.update V.bound i false } where
  options := h.options
  columns := (ncols_unbind r i).trans h.columns
  widths := by
    intro j hj
    rw [ncols_unbind] at hj
    rw [col_unbind hj, ← h.widths j hj]
    split_ifs
    · rfl
    · rfl
  bound := by
    intro j hj
    rw [ncols_unbind] at hj
    rw [col_unbind hj]
    split_ifs with heq
    · rw [heq]
      exact Function.update_self ..
    · exact (Function.update_of_ne (Ne.symm heq) ..).trans (h.bound j hj)
  wasBound := by
    intro j hj hbound
    rw [ncols_unbind] at hj
    rw [col_unbind hj] at hbound
    split_ifs at hbound
    exact h.wasBound j hj hbound
  repairable := by
    intro j hj hbound
    rw [ncols_unbind] at hj
    rw [col_unbind hj] at hbound
    split_ifs at hbound
    exact h.repairable j hj hbound
  size := h.size

/-- What unbinding the columns `l` leaves. -/
structure Unbound (opts : OdbcReaderOptions) (cols : List OdbcColumn)
    (sees : δ → CursorView → Prop) (r : OdbcReader δ) (V : CursorView) (l : List Nat)
    (r' : OdbcReader δ) : Prop where
  reader : r' = { r with cursor := r'.cursor, cols := r'.cols, allBound := false }
  view : ∃ V', sees r'.cursor V' ∧ Agrees opts cols r' V' ∧ V' = { V with bound := V'.bound }
  ncols : r'.ncols = r.ncols
  bound : ∀ i < r.ncols, ((r'.col i).bound = true ↔ (r.col i).bound = true ∧ i ∉ l)

theorem unbindCols_spec (h : FollowsContract D opts cols R faults sees) (hs : sees r.cursor V)
    (hagrees : Agrees opts cols r V) {l : List Nat} (hl : ∀ i ∈ l, i < r.ncols) :
    Done faults (Unbound opts cols sees r V l) (unbindCols D l r) := by
  induction l generalizing r V with
  | nil =>
      have hrest : Agrees opts cols { r with allBound := false } V :=
        hagrees.reader rfl rfl rfl hagrees.size
      exact ⟨rfl, ⟨V, hs, hrest, rfl⟩, rfl, fun i _ => (and_iff_left List.not_mem_nil).symm⟩
  | cons i rest ih =>
      have hi : i < r.ncols := hl i List.mem_cons_self
      have hrest : ∀ j ∈ rest, j < r.ncols := fun j hj => hl j (List.mem_cons_of_mem i hj)
      rw [unbindCols]
      split_ifs with hbound
      · cases hcall : D.unbindCol r.cursor i with
        | mk answer s =>
            cases answer with
            | some e => exact h.notUnbound hs hcall
            | none =>
                have hagrees' : Agrees opts cols { r with cursor := s } V :=
                  hagrees.reader rfl rfl rfl hagrees.size
                have hspec := ih (h.unbound hs hcall) (hagrees'.unbind i)
                  (fun j hj => (ncols_unbind _ i).symm ▸ hrest j hj)
                dsimp only
                cases hrun :
                    unbindCols D rest (({ r with cursor := s } : OdbcReader δ).unbind i) with
                | mk answer r' =>
                    rw [hrun] at hspec
                    cases answer with
                    | some e => exact hspec
                    | none =>
                        refine ⟨hspec.reader, ?_, hspec.ncols.trans (ncols_unbind _ i), ?_⟩
                        · obtain ⟨V', hs', hag, hV'⟩ := hspec.view
                          exact ⟨V', hs', hag, hV'⟩
                        · intro j hj
                          have hcol := hspec.bound j ((ncols_unbind _ i).symm ▸ hj)
                          have hunbound : (({ r with cursor := s } : OdbcReader δ).unbind i).col j =
                              if i = j then { r.col j with bound := false, clipped := false }
                              else r.col j := col_unbind hj
                          rw [hcol, hunbound, List.mem_cons, not_or]
                          split_ifs with heq
                          · simp [heq]
                          · simp [Ne.symm heq]
      · have hspec := ih hs hagrees hrest
        cases hrun : unbindCols D rest r with
        | mk answer r' =>
            rw [hrun] at hspec
            cases answer with
            | some e => exact hspec
            | none =>
                refine ⟨hspec.reader, hspec.view, hspec.ncols, ?_⟩
                intro j hj
                rw [hspec.bound j hj, List.mem_cons, not_or]
                constructor
                · intro hb
                  exact ⟨hb.1, fun heq => hbound (heq ▸ hb.1), hb.2⟩
                · exact fun hb => ⟨hb.1, hb.2.2⟩

theorem unboundLast_of_col (h : ∀ i j, i < j → j < r.ncols → (r.col i).bound = false →
    (r.col j).bound = false) : UnboundLast r.cols := by
  have hcol : ∀ n (hn : n < r.cols.length), r.col n = r.cols[n] := fun n hn =>
    List.getD_eq_getElem _ _ hn
  rw [UnboundLast, List.pairwise_iff_getElem]
  intro i j hi hj hij
  rw [← hcol i hi, ← hcol j hj]
  exact h i j hij hj

/-- Once its rowset is a single row a reader may unbind what is behind a column. -/
theorem unbindCols_inStep (h : FollowsContract D opts cols R faults sees)
    (hstep : InStep opts cols R sees r V) (hone : r.rowsPerFetch = 1)
    (hdecided : r.adaptOpen = false ∧ r.rowsetRestore = false) (first : Nat) :
    Done faults (fun r' => ∃ V', InStep opts cols R sees r' V' ∧ V'.next = V.next ∧
      r'.done = r.done) (unbindCols D (List.range' first (r.ncols - first)) r) := by
  have hmem : ∀ i, i ∈ List.range' first (r.ncols - first) ↔ first ≤ i ∧ i < r.ncols := by
    intro i
    rw [List.mem_range'_1]
    omega
  have hspec := unbindCols_spec h hstep.sees hstep.agrees fun i hi => ((hmem i).mp hi).2
  cases hrun : unbindCols D (List.range' first (r.ncols - first)) r with
  | mk answer r' =>
      rw [hrun] at hspec
      cases answer with
      | some e => exact hspec
      | none =>
          obtain ⟨V', hs', hagrees', hV'⟩ := hspec.view
          have hlast : UnboundLast r'.cols := by
            apply unboundLast_of_col
            intro i j hij hj hi
            rw [hspec.ncols] at hj
            rw [← Bool.not_eq_true, hspec.bound i (hij.trans hj), not_and_or, not_not] at hi
            rw [← Bool.not_eq_true, hspec.bound j hj, not_and_or, not_not]
            cases hi with
            | inl hunbound =>
                have hcol := unboundLast_col hstep.last hij hj (Bool.eq_false_iff.mpr hunbound)
                exact Or.inl (Bool.eq_false_iff.mp hcol)
            | inr hbehind =>
                right
                rw [hmem] at hbehind ⊢
                omega
          have hreader := hspec.reader
          rw [hV'] at hs' hagrees'
          rw [hreader] at hs' hagrees' hlast ⊢
          refine ⟨_, ⟨hs', hagrees', hlast, ?_, ?_, hstep.undecided, hstep.pos, hstep.full,
            hstep.capacity, hstep.counts, hstep.seen, hstep.exactly, hstep.within⟩,
            rfl, rfl⟩
          · exact fun hall => by cases hall
          · exact Or.inr ⟨hone, hdecided⟩

/-- What adapting the widths comes to: the reader is in step where it was. -/
def Adapted (opts : OdbcReaderOptions) (cols : List OdbcColumn) (R : ResultSet v)
    (sees : δ → CursorView → Prop) (r : OdbcReader δ) (V : CursorView) (r' : OdbcReader δ) : Prop :=
  ∃ V', InStep opts cols R sees r' V' ∧ V'.next = V.next ∧ r'.done = r.done

theorem unbindFrom_spec (h : FollowsContract D opts cols R faults sees)
    (hstep : InStep opts cols R sees r V)
    (hdecided : r.adaptOpen = false ∧ r.rowsetRestore = false) (first : Nat) :
    Done faults (Adapted opts cols R sees r V) (unbindFrom D r first) := by
  unfold unbindFrom
  dsimp only
  split_ifs with hblock
  · have hbound : ∀ i < r.ncols, (r.col i).bound = true :=
      hstep.wide.resolve_right fun hsingle => absurd hsingle.1 hblock.ne'
    have hresized := resizeRowset_spec h hstep.sees 1
    cases hcall : resizeRowset D r 1 with
    | mk answer s =>
        rw [hcall] at hresized
        cases answer with
        | false =>
            have hkept := hstep.cursor hresized
            exact ⟨V, { hkept with
              agrees := hkept.agrees.reader rfl rfl rfl hkept.agrees.size
              wide := Or.inl hbound
              undecided := fun hopen => absurd (hdecided.1.symm.trans hopen) Bool.false_ne_true },
              rfl, rfl⟩
        | true =>
            have hsingle := hstep.resized hresized Nat.one_pos (hstep.pos.trans_le hstep.full)
              (Or.inl hbound)
            exact unbindCols_inStep h hsingle rfl hdecided first
  · exact unbindCols_inStep h hstep (le_antisymm (not_lt.mp hblock) hstep.pos) hdecided first

theorem col_charged {rowset : Rowset v} {k i : Nat} (hi : i < r.ncols) :
    (charged r rowset k).col i = chargeTruncated rowset k i (r.col i) := by
  have hlt : r.cols[i]? = some r.cols[i] := List.getElem?_eq_getElem hi
  rw [charged, OdbcReader.col, OdbcReader.col, List.getD_eq_getElem?_getD,
    List.getD_eq_getElem?_getD, List.getElem?_mapIdx, hlt]
  rfl

theorem chargeTruncated_bound (rowset : Rowset v) (k i : Nat) (c : OdbcColumn) :
    (chargeTruncated rowset k i c).bound = c.bound ∧
      boundValueTruncated (chargeTruncated rowset k i c) = boundValueTruncated c := by
  unfold chargeTruncated
  split_ifs
  · exact ⟨rfl, rfl⟩
  · exact ⟨rfl, rfl⟩

theorem ncols_charged (rowset : Rowset v) (k : Nat) : (charged r rowset k).ncols = r.ncols :=
  List.length_mapIdx

/-- Charging the columns changes no binding. -/
theorem charged_spec (hstep : InStep opts cols R sees r V) (rowset : Rowset v) (k : Nat) :
    InStep opts cols R sees (charged r rowset k) V := by
  have hn : (charged r rowset k).ncols = r.ncols := ncols_charged rowset k
  have hbound : ∀ i < r.ncols, ((charged r rowset k).col i).bound = (r.col i).bound := by
    intro i hi
    rw [col_charged hi]
    exact (chargeTruncated_bound rowset k i (r.col i)).1
  have hagrees : Agrees opts cols (charged r rowset k) V := by
    refine ⟨hstep.agrees.options, hn.trans hstep.agrees.columns, ?_, ?_, ?_, ?_,
      hstep.agrees.size⟩
    · intro i hi
      rw [hn] at hi
      rw [col_charged hi, (chargeTruncated_bound rowset k i (r.col i)).2]
      exact hstep.agrees.widths i hi
    · intro i hi
      rw [hn] at hi
      rw [hbound i hi]
      exact hstep.agrees.bound i hi
    · intro i hi hb
      rw [hn] at hi
      rw [hbound i hi] at hb
      exact hstep.agrees.wasBound i hi hb
    · intro i hi hb
      rw [hn] at hi
      rw [hbound i hi] at hb
      exact hstep.agrees.repairable i hi hb
  have hlast : UnboundLast (charged r rowset k).cols := by
    apply unboundLast_of_col
    intro i j hij hj hi
    rw [hn] at hj
    rw [hbound i (hij.trans hj)] at hi
    rw [hbound j hj]
    exact unboundLast_col hstep.last hij hj hi
  have hall : (∀ i < r.ncols, (r.col i).bound = true) →
      ∀ i < (charged r rowset k).ncols, ((charged r rowset k).col i).bound = true := by
    intro hb i hi
    rw [hn] at hi
    exact (hbound i hi).trans (hb i hi)
  exact ⟨hstep.sees, hagrees, hlast, fun hb => hall (hstep.all hb), hstep.wide.imp_left hall,
    hstep.undecided, hstep.pos, hstep.full, hstep.capacity, hstep.counts, hstep.seen,
    hstep.exactly, hstep.within⟩

theorem settleWidths_spec (h : FollowsContract D opts cols R faults sees)
    (hstep : InStep opts cols R sees r V) (hopen : r.adaptOpen = true) :
    Done faults (Adapted opts cols R sees r V) (settleWidths D r) := by
  have hbound : ∀ i < r.ncols, (r.col i).bound = true := by
    apply hstep.wide.resolve_right
    intro hsingle
    exact absurd (hopen.symm.trans hsingle.2.1) Bool.false_ne_true.symm
  have hclosed : InStep opts cols R sees { r with adaptOpen := false } V :=
    { hstep with
      agrees := hstep.agrees.reader rfl rfl rfl hstep.agrees.size
      wide := Or.inl hbound
      undecided := fun hopen => absurd hopen Bool.false_ne_true }
  have hrestored : InStep opts cols R sees { r with adaptOpen := false, rowsetRestore := true } V :=
    { hclosed with
      agrees := hstep.agrees.reader rfl rfl rfl hstep.agrees.size
      wide := Or.inl hbound
      undecided := fun hopen => absurd hopen Bool.false_ne_true }
  unfold settleWidths
  split
  · exact unbindFrom_spec h hclosed ⟨rfl, hstep.undecided hopen⟩ _
  · exact ⟨V, hrestored, rfl, rfl⟩

theorem converted_spec (h : FollowsContract D opts cols R faults sees)
    (hstep : InStep opts cols R sees r V) (rowset : Rowset v) (k : Nat) (bulk : Bool) :
    Done faults (Adapted opts cols R sees r V) (Session.converted D r rowset k bulk) := by
  have hcharged := charged_spec hstep rowset k
  have hdone : (charged r rowset k).done = r.done := rfl
  unfold Session.converted
  split_ifs with hadapts
  · unfold adaptBindWidth
    rw [Bool.and_eq_true] at hadapts
    split_ifs
    · have hkept : Adapted opts cols R sees r V (charged r rowset k) := ⟨V, hcharged, rfl, hdone⟩
      exact hkept
    · refine (settleWidths_spec h hcharged hadapts.1).mono ?_
      intro r' hr'
      obtain ⟨V', hstep', hnext, hdone'⟩ := hr'
      exact ⟨V', hstep', hnext, hdone'.trans hdone⟩
  · exact ⟨V, hstep, rfl, rfl⟩

/-! ## A turn of the loop -/

theorem InStep.counted (h : InStep opts cols R sees r V) {k : Nat} (hcount : V.next + k ≤ R.count)
    (hstays : (V.on V.next k).Stays V') (hs : sees s V') :
    InStep opts cols R sees { Session.counted r k true with cursor := s } V' :=
  { h with
    sees := hs
    agrees := h.agrees.reader rfl rfl hstays.bound (hstays.size.trans h.agrees.size)
    counts := by
      have hcounts := h.counts
      rw [hstays.counts]
      exact hcounts
    seen := by
      rw [hstays.next]
      exact congrArg (· + k) h.seen
    exactly := by
      rw [Session.counted, h.exactly]
      rfl
    within := hstays.next.trans_le hcount }

theorem InStep.fetched (h : InStep opts cols R sees r V) {rowset : Rowset v} {k : Nat}
    (hpos : 0 < k) (hfits : k ≤ V.size) (hshows : Shows cols R faults V rowset V.next k)
    (bulk : Bool) : Fetched opts cols R faults (Session.counted { r with cursor := s } k bulk)
      (V.on V.next k) rowset k where
  agrees := h.agrees.reader rfl rfl rfl h.agrees.size
  shows := hshows.kept (V.kept_on V.next k)
  start := ⟨rfl, rfl⟩
  next := rfl
  pos := hpos
  fits := hfits
  all := h.all
  wide := by
    intro hblock
    refine h.wide.resolve_right fun hsingle => ?_
    exact absurd hsingle.1 (Nat.ne_of_gt hblock)
  last := h.last

/-- The count that the reader resolves is that of the rows that were fetched. -/
theorem InStep.resolved (h : InStep opts cols R sees r V) {rowset : Rowset v} {k : Nat}
    (hpos : 0 < k) (hfits : k ≤ V.size) (hshows : Shows cols R faults V rowset V.next k) :
    resolveFetched { r with cursor := s } rowset = k := by
  have hcounts := h.counts
  unfold resolveFetched
  split_ifs at hcounts with hptr
  · rw [if_pos hptr]
    have hsize := h.agrees.size
    have hfull := h.full
    omega
  · rw [if_neg hptr]
    exact hshows.count hcounts

/-- What a turn makes of a batch: the reader has moved over `k` rows, and they are appended. -/
structure Takes (opts : OdbcReaderOptions) (cols : List OdbcColumn) (R : ResultSet v)
    (sees : δ → CursorView → Prop) (r : OdbcReader δ) (V : CursorView) (batch : Batch v) (k : Nat)
    (r' : OdbcReader δ) (batch' : Batch v) : Prop where
  inStep : ∃ V', InStep opts cols R sees r' V' ∧ V'.next = V.next + k
  done : r'.done = r.done
  total : batch'.total = batch.total + k
  columns : ∀ i < cols.length, batch'.columns i = batch.columns i ++ R.slice i V.next k

/-- A rowset that is not read again has no value that cannot be read where it is. -/
theorem Fetched.repairedInPlace {rowset : Rowset v} {k : Nat} {bulk : Bool}
    (h : Fetched opts cols R faults r V rowset k) (hexact : r.rowsSeenExact = true)
    (hbulk : bulk = true) (hrepairs : Session.repairs r rowset k bulk = false) :
    RepairedInPlace r rowset k := by
  intro row hrow i hi hbound htrunc
  have hrepairable := h.repairable hrow hi hbound htrunc
  have htruncated : rowsetTruncated r rowset k = true := by
    rw [rowsetTruncated, List.any_eq_true]
    refine ⟨i, List.mem_range.mpr hi, ?_⟩
    rw [hbound, Bool.true_and, List.any_eq_true]
    exact ⟨row, List.mem_range.mpr hrow, htrunc⟩
  rw [← h.agrees.options] at hrepairable
  unfold truncationRepairable at hrepairable
  unfold Session.repairs at hrepairs
  rw [hbulk, hexact, htruncated] at hrepairs
  cases hdata : r.opts.getdataRepair with
  | true => exact Or.inl rfl
  | false =>
      right
      simp only [hdata, Bool.false_or, Bool.and_eq_true, Bool.not_eq_true'] at hrepairable hrepairs
      simp only [hrepairable.2.1, hrepairable.2.2, Bool.true_and, Bool.and_true, Bool.not_false,
        decide_eq_false_iff_not, not_lt] at hrepairs
      exact ⟨hrepairs, hrepairable.1⟩

/-- A rowset that is read again has a value that was cut off. -/
theorem Fetched.repairs {rowset : Rowset v} {k : Nat} {bulk : Bool}
    (h : Fetched opts cols R faults r V rowset k)
    (hrepairs : Session.repairs r rowset k bulk = true) :
    opts.refetchRepair = true ∧ opts.getdataBound = true := by
  unfold Session.repairs at hrepairs
  simp only [Bool.and_eq_true] at hrepairs
  obtain ⟨⟨⟨⟨-, -⟩, hrefetch⟩, -⟩, htruncated⟩ := hrepairs
  rw [rowsetTruncated, List.any_eq_true] at htruncated
  obtain ⟨i, hi, hcol⟩ := htruncated
  rw [Bool.and_eq_true, List.any_eq_true] at hcol
  obtain ⟨hbound, row, hrow, htrunc⟩ := hcol
  have hrepairable := h.repairable (List.mem_range.mp hrow) (List.mem_range.mp hi) hbound htrunc
  rw [h.agrees.options] at hrefetch
  unfold truncationRepairable at hrepairable
  rw [Bool.and_eq_true] at hrepairable
  exact ⟨hrefetch, hrepairable.1⟩

/-- A session that goes on from `S` as `P` says, or has failed where a call may fail. -/
def Goes (faults : Prop) (S : Session δ v) (P : OdbcReader δ → Batch v → Prop)
    (T : Session δ v) : Prop :=
  (∃ r e, T = S.fail r e ∧ faults) ∨ ∃ r batch, T = { S with reader := r, batch := some batch } ∧
    P r batch

theorem take_spec (h : FollowsContract D opts cols R faults sees) {S : Session δ v}
    (hstep : InStep opts cols R sees S.reader V) {rowset : Rowset v} {k : Nat} (hpos : 0 < k)
    (hfits : k ≤ V.size) (hcount : V.next + k ≤ R.count)
    (hshows : Shows cols R faults V rowset V.next k) (hs : sees s (V.on V.next k))
    (batch : Batch v) :
    Goes faults S (Takes opts cols R sees S.reader V batch k)
      (Session.take D { S with reader := { S.reader with cursor := s } } batch rowset) := by
  have hresolved : resolveFetched { S.reader with cursor := s } rowset = k :=
    hstep.resolved hpos hfits hshows
  have hfetched : ∀ bulk, Fetched opts cols R faults
      (Session.counted { S.reader with cursor := s } k bulk) (V.on V.next k) rowset k :=
    hstep.fetched hpos hfits hshows
  have hncols : S.reader.ncols = cols.length := hstep.agrees.columns
  unfold Session.take
  dsimp only
  rw [hresolved]
  cases hrepairs : Session.repairs (Session.counted { S.reader with cursor := s } k
      (rowsetIsBulk rowset k)) rowset k (rowsetIsBulk rowset k) with
  | true =>
      rw [if_pos rfl]
      obtain ⟨hrefetch, hgetdata⟩ := (hfetched _).repairs hrepairs
      have hbulk : rowsetIsBulk rowset k = true := by
        unfold Session.repairs at hrepairs
        simp only [Bool.and_eq_true] at hrepairs
        exact hrepairs.1.1.1.1.1.1
      rw [hbulk] at hrepairs ⊢
      have hread := repairRowset_spec h hs (hfetched true) hcount hrefetch hgetdata batch.columns
      have hfirst : S.reader.rowsSeen + 1 = (V.on V.next k).base + 1 := by
        rw [hstep.seen]
        rfl
      rw [hfirst]
      cases hrun : repairRowset D (Session.counted { S.reader with cursor := s } k true)
          ((V.on V.next k).base + 1) k batch.columns with
      | mk result s' =>
          rw [hrun] at hread
          cases result with
          | error e => exact Or.inl ⟨_, e, rfl, hread⟩
          | ok columns =>
              obtain ⟨hvalues, V', hs', hstays⟩ := hread
              have hcounted : InStep opts cols R sees
                  { Session.counted { S.reader with cursor := s } k true with cursor := s' } V' :=
                hstep.counted hcount hstays hs'
              obtain ⟨V'', hstep', hnext, hdone⟩ := repaired_spec h hcounted
              refine Or.inr ⟨_, _, rfl, ⟨V'', hstep', ?_⟩, hdone, rfl, ?_⟩
              · rw [hnext, hstays.next]
                rfl
              · exact fun i hi => hvalues i (hncols ▸ hi)
  | false =>
      rw [if_neg Bool.false_ne_true]
      have hconverted := convertRowset_spec h hs (hfetched (rowsetIsBulk rowset k)) batch
        fun hbulk => (hfetched _).repairedInPlace
          (by rw [hbulk]; exact (Bool.and_true _).trans hstep.exactly) hbulk hrepairs
      change Gives faults _ (convertRowset D _ rowset k _ (Session.counted
        { S.reader with cursor := s } k (rowsetIsBulk rowset k)).cursor batch) at hconverted
      cases hrun : convertRowset D (Session.counted { S.reader with cursor := s } k
          (rowsetIsBulk rowset k)) rowset k (rowsetIsBulk rowset k) (Session.counted
            { S.reader with cursor := s } k (rowsetIsBulk rowset k)).cursor batch with
      | mk result s' =>
          rw [hrun] at hconverted
          cases result with
          | error e => exact Or.inl ⟨_, e, rfl, hconverted⟩
          | ok batch' =>
              obtain ⟨hbulk, htotal, hvalues, V', hs', hmoved⟩ := hconverted
              rw [hbulk] at hrun hrepairs ⊢
              have hcounted : InStep opts cols R sees
                  { Session.counted { S.reader with cursor := s } k true with cursor := s' } V' :=
                hstep.counted hcount hmoved.stays hs'
              have hadapted := converted_spec h hcounted rowset k true
              dsimp only
              cases hadapt : Session.converted D
                  { Session.counted { S.reader with cursor := s } k true with cursor := s' }
                  rowset k true with
              | mk answer r' =>
                  rw [hadapt] at hadapted
                  cases answer with
                  | some e => exact Or.inl ⟨_, e, rfl, hadapted⟩
                  | none =>
                      obtain ⟨V'', hstep', hnext, hdone⟩ := hadapted
                      refine Or.inr ⟨_, _, rfl, ⟨V'', hstep', ?_⟩, hdone, htotal, ?_⟩
                      · rw [hnext, hmoved.stays.next]
                        rfl
                      · exact fun i hi => hvalues i (hncols ▸ hi)

/-! ## Binding -/

/-- A reader between `sizeRowset` and the binding of its columns. -/
structure Sized (sees : δ → CursorView → Prop) (sized r : OdbcReader δ) (V : CursorView) :
    Prop where
  reader : r.unsized = sized.unsized
  sees : sees r.cursor V
  view : V = { size := r.rowsPerFetch, counts := V.counts }
  pos : 0 < r.rowsPerFetch
  full : r.rowsPerFetch ≤ r.rowsetFull
  capacity : r.rowsetFull ≤ sized.capacity
  narrow : (∀ i < sized.ncols, (sized.col i).bound = true) ∨ r.rowsPerFetch = 1

/-- Where a column is not bound the rowset is a single row. -/
theorem rowsetRows_unbound (opts : OdbcReaderOptions) (cols : List OdbcColumn) :
    rowsetRows opts cols false = 1 := by
  unfold rowsetRows fitRows
  simp

theorem allBound_iff (r : OdbcReader δ) :
    r.cols.all (·.bound) = true ↔ ∀ i < r.ncols, (r.col i).bound = true := by
  rw [List.all_eq_true]
  constructor
  · intro h i hi
    rw [OdbcReader.col, List.getD_eq_getElem _ _ hi]
    exact h _ (List.getElem_mem hi)
  · intro h c hc
    obtain ⟨i, hi, hci⟩ := List.mem_iff_getElem.mp hc
    have hcol := h i hi
    rw [OdbcReader.col, List.getD_eq_getElem _ _ hi, hci] at hcol
    exact hcol

theorem sizeRowset_narrow (r : OdbcReader δ) : (∀ i < r.ncols, (r.col i).bound = true) ∨
    (sizeRowset r).rowsPerFetch = 1 ∧ (sizeRowset r).adaptOpen = false := by
  rw [← allBound_iff]
  cases hall : r.cols.all (·.bound) with
  | true => exact Or.inl rfl
  | false =>
      right
      unfold sizeRowset
      rw [hall]
      simp only [rowsetRows_unbound]
      exact ⟨by simp, by simp⟩

variable {sized : OdbcReader δ}

/-- Before the first fetch a single row can always be fetched. -/
theorem setRowArraySize_one (h : FollowsContract D opts cols R faults sees) (hs : sees s V)
    (hstart : V.next = 0) : sees (D.setRowArraySize s 1).2 (V.resize 1) := by
  cases hcall : D.setRowArraySize s 1 with
  | mk answer s' =>
      cases answer with
      | none => exact h.resized hs hcall
      | some e => exact absurd rfl ((h.notResized hs hcall).2.1 hstart)

theorem setRowset_spec (h : FollowsContract D opts cols R faults sees) (hs : sees sized.cursor {})
    (hpos : 0 < sized.rowsPerFetch) (hfull : sized.rowsPerFetch ≤ sized.rowsetFull)
    (hcapacity : sized.rowsetFull ≤ sized.capacity)
    (hnarrow : (∀ i < sized.ncols, (sized.col i).bound = true) ∨ sized.rowsPerFetch = 1) :
    ∃ V, Sized sees sized (setRowset D sized) V := by
  have hone : 1 ≤ sized.rowsetFull := hpos.trans_le hfull
  unfold setRowset
  cases hcall : D.setRowArraySize sized.cursor sized.rowsPerFetch with
  | mk answer s =>
      cases answer with
      | none =>
          exact ⟨_, rfl, h.resized hs hcall, rfl, hpos, hfull, hcapacity, hnarrow⟩
      | some e =>
          have hsingle := setRowArraySize_one h (h.notResized hs hcall).1 rfl
          exact ⟨_, rfl, hsingle, rfl, Nat.one_pos, hone, hcapacity, Or.inr rfl⟩

theorem setRowset_ptr (r : OdbcReader δ) :
    (setRowset D r).noRowsFetchedPtr = r.noRowsFetchedPtr := by
  unfold setRowset
  split
  · rfl
  · rfl

theorem probeRowsFetchedPtr_spec (h : FollowsContract D opts cols R faults sees)
    (hsized : Sized sees sized r V) (hptr : r.noRowsFetchedPtr = false) :
    ∃ V', Sized sees sized (probeRowsFetchedPtr D r) V' ∧
      if (probeRowsFetchedPtr D r).noRowsFetchedPtr = true then
        (probeRowsFetchedPtr D r).rowsPerFetch = 1 else V'.counts = true := by
  have hview := hsized.view
  unfold probeRowsFetchedPtr
  cases hcall : D.setRowsFetchedPtr r.cursor none with
  | mk answer s =>
      cases answer with
      | none =>
          refine ⟨_, ⟨hsized.reader, h.counted hsized.sees hcall, ?_, hsized.pos,
            hsized.full, hsized.capacity, hsized.narrow⟩, ?_⟩
          · rw [hview]
          · rw [if_neg (Bool.eq_false_iff.mp hptr)]
      | some e =>
          have hstart : V.next = 0 := by rw [hview]
          have hsingle := setRowArraySize_one h (h.notCounted hsized.sees hcall).1 hstart
          have hone : 1 ≤ r.rowsetFull := hsized.pos.trans_le hsized.full
          refine ⟨_, ⟨hsized.reader, hsingle, ?_, Nat.one_pos, hone, hsized.capacity, Or.inr rfl⟩,
            rfl⟩
          rw [hview]
          rfl

/-- A single row has nothing to adapt. -/
theorem settleRowset_spec (hsized : Sized sees sized r V)
    (hcounts : if r.noRowsFetchedPtr = true then r.rowsPerFetch = 1 else V.counts = true) :
    Sized sees sized (settleRowset r) V ∧
      (if (settleRowset r).noRowsFetchedPtr = true then (settleRowset r).rowsetFull = 1
        else V.counts = true) ∧
      ((∀ i < sized.ncols, (sized.col i).bound = true) ∨
        (settleRowset r).rowsPerFetch = 1 ∧ (settleRowset r).adaptOpen = false) := by
  by_cases hsingle : r.rowsPerFetch ≤ 1
  · have hone : r.rowsPerFetch = 1 := le_antisymm hsingle hsized.pos
    have hcapacity := hsized.pos.trans_le (hsized.full.trans hsized.capacity)
    have hsettled : settleRowset r = { r with adaptOpen := false, rowsetFull := 1 } :=
      if_pos hsingle
    rw [hsettled]
    refine ⟨⟨hsized.reader, hsized.sees, hsized.view, hsized.pos, hsingle, hcapacity,
      hsized.narrow⟩, ?_, Or.inr ⟨hone, rfl⟩⟩
    by_cases hptr : r.noRowsFetchedPtr = true
    · rw [if_pos hptr]
    · rw [if_neg hptr] at hcounts ⊢
      exact hcounts
  · have hsettled : settleRowset r = r := if_neg hsingle
    rw [hsettled]
    refine ⟨hsized, ?_, Or.inl (hsized.narrow.resolve_right fun heq => hsingle heq.le)⟩
    by_cases hptr : r.noRowsFetchedPtr = true
    · rw [if_pos hptr] at hcounts
      exact absurd hcounts.le hsingle
    · rw [if_neg hptr] at hcounts ⊢
      exact hcounts

theorem bindCols_spec (h : FollowsContract D opts cols R faults sees) (hs : sees s V) (sl : Nat)
    (l : List Nat) : Done faults (fun s' => ∃ V', sees s' V' ∧ V' = { V with bound := V'.bound } ∧
      ∀ i, V'.bound i = true ↔ V.bound i = true ∨ i ∈ l) (bindCols D sl l s) := by
  induction l generalizing s V with
  | nil => exact ⟨V, hs, rfl, fun i => (or_iff_left List.not_mem_nil).symm⟩
  | cons i rest ih =>
      rw [bindCols]
      cases hcall : D.bindCol s sl i with
      | mk answer s' =>
          cases answer with
          | some e => exact h.notBound hs hcall
          | none =>
              refine (ih (h.bound hs hcall)).mono ?_
              intro s'' hs''
              obtain ⟨V', hs', hview, hbound⟩ := hs''
              refine ⟨V', hs', hview, ?_⟩
              intro j
              rw [hbound j, List.mem_cons, ← or_assoc]
              apply or_congr_left
              change Function.update V.bound i true j = true ↔ _
              by_cases hj : j = i
              · rw [hj]
                simp
              · rw [Function.update_of_ne hj]
                simp [hj]

theorem bindSlot_spec (h : FollowsContract D opts cols R faults sees) (hs : sees s V)
    (hcounts : r.noRowsFetchedPtr = true ∨ V.counts = true) (sl : Nat) :
    Done faults (fun s' => ∃ V', sees s' V' ∧ V' = { V with bound := V'.bound } ∧
      ∀ i, V'.bound i = true ↔ V.bound i = true ∨ i ∈ r.boundCols) (bindSlot D r s sl) := by
  have hstatus : sees (D.setRowStatusPtr s sl) V := h.statuses hs
  unfold bindSlot
  dsimp only
  split_ifs with hptr
  · exact bindCols_spec h hstatus sl r.boundCols
  · have hcounted := hcounts.resolve_left hptr
    cases hcall : D.setRowsFetchedPtr (D.setRowStatusPtr s sl) (some sl) with
    | mk answer s' =>
        have hs' : sees s' V := by
          cases answer with
          | none =>
              have hview : { V with counts := true } = V := by rw [← hcounted]
              rw [← hview]
              exact h.counted hstatus hcall
          | some e => exact (h.notCounted hstatus hcall).1
        exact bindCols_spec h hs' sl r.boundCols

/-- A reader comes into step with its cursor where it binds its columns. -/
theorem readerBind_spec {declared : List (List Char × Declared)} {cursor : δ}
    (h : FollowsContract D opts (describeColumns opts declared) R faults sees)
    (hs : sees cursor {}) :
    Done faults (fun r' => ∃ V', InStep opts (describeColumns opts declared) R sees r' V' ∧
      V'.next = 0 ∧ r'.done = false) (readerBind D (readerInit opts declared cursor)) := by
  have hbounds := sizeRowset_bounds (readerInit opts declared cursor)
  have hnarrow := sizeRowset_narrow (readerInit opts declared cursor)
  obtain ⟨V, hset⟩ := setRowset_spec h hs hbounds.1 hbounds.2.1 hbounds.2.2
    (hnarrow.imp_right And.left)
  obtain ⟨V', hprobed, hcounts⟩ := probeRowsFetchedPtr_spec h hset (setRowset_ptr _)
  obtain ⟨hsettled, hptr, hnarrowed⟩ := settleRowset_spec hprobed hcounts
  unfold readerBind
  dsimp only
  generalize settleRowset (probeRowsFetchedPtr D (setRowset D
    (sizeRowset (readerInit opts declared cursor)))) = r at hsettled hptr hnarrowed ⊢
  have hcols : r.cols = describeColumns opts declared := congrArg OdbcReader.cols hsettled.reader
  have hcol : ∀ i, r.col i = described (describeColumns opts declared) i := fun i => by
    rw [OdbcReader.col, hcols]
    rfl
  have hn : r.ncols = (describeColumns opts declared).length := congrArg List.length hcols
  have hslot := bindSlot_spec h hsettled.sees (by
    by_cases hrefused : r.noRowsFetchedPtr = true
    · exact Or.inl hrefused
    · rw [if_neg hrefused] at hptr
      exact Or.inr hptr) 0
  have hrestore : r.rowsetRestore = false := congrArg OdbcReader.rowsetRestore hsettled.reader
  have hcapacity : r.capacity = (sizeRowset (readerInit opts declared cursor)).capacity :=
    congrArg (fun unsized : OdbcReader Unit => unsized.capacity) hsettled.reader
  have hall : r.allBound = true → ∀ i < r.ncols, (r.col i).bound = true := by
    have hsized : r.allBound = (readerInit opts declared cursor).cols.all (·.bound) :=
      congrArg OdbcReader.allBound hsettled.reader
    rw [hsized, allBound_iff, hn]
    intro hb i hi
    rw [hcol]
    exact hb i hi
  have hwide : (∀ i < r.ncols, (r.col i).bound = true) ∨ r.rowsPerFetch = 1 ∧
      r.adaptOpen = false ∧ r.rowsetRestore = false := by
    refine hnarrowed.imp (fun hb i hi => ?_) fun hsingle => ⟨hsingle.1, hsingle.2, hrestore⟩
    rw [hcol]
    exact hb i (hi.trans_eq hn)
  cases hrun : bindSlot D r r.cursor 0 with
  | mk answer s =>
      rw [hrun] at hslot
      cases answer with
      | some e => exact hslot
      | none =>
          obtain ⟨V'', hs'', hview, hbound⟩ := hslot
          have hsized := hsettled.view
          have hunread : V'.next = 0 ∧ V'.size = r.rowsPerFetch ∧ V'.bound = fun _ => false := by
            rw [hsized]
            exact ⟨rfl, rfl, rfl⟩
          rw [hview] at hs''
          have hagrees : Agrees opts (describeColumns opts declared)
              { r with cursor := s, bound := true } { V' with bound := V''.bound } := by
            refine ⟨congrArg OdbcReader.opts hsettled.reader, hn, ?_, ?_, ?_, ?_, hunread.2.1⟩
            · exact fun i _ => congrArg boundValueTruncated (hcol i)
            · intro i hi
              rw [Bool.eq_iff_iff]
              refine (hbound i).trans ?_
              rw [hunread.2.2, mem_boundCols]
              exact (or_iff_right Bool.false_ne_true).trans (and_iff_right hi)
            · intro i _ hb
              rw [← hcol i]
              exact hb
            · intro i hi hb
              have hmem : r.col i ∈ describeColumns opts declared := by
                rw [← hcols, OdbcReader.col, List.getD_eq_getElem _ _ hi]
                exact List.getElem_mem hi
              rw [← hcol i]
              exact describeColumns_repairable opts declared _ hmem hb
          have hlast : UnboundLast r.cols := by
            rw [hcols]
            exact describeColumns_unboundLast opts declared
          exact ⟨_, ⟨hs'', hagrees, hlast, hall, hwide, fun _ => hrestore, hsettled.pos,
            hsettled.full, hcapacity ▸ hsettled.capacity, hptr,
            (congrArg OdbcReader.rowsSeen hsettled.reader).trans hunread.1.symm,
            congrArg OdbcReader.rowsSeenExact hsettled.reader, hunread.1.trans_le (Nat.zero_le _)⟩,
            hunread.1, congrArg OdbcReader.done hsettled.reader⟩

end Step

end AdbcBridge.Reader
