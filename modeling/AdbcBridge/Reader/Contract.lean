import AdbcBridge.Reader.Convert
import AdbcBridge.Reader.TableDriver

/-!
# The contract of a block cursor

What the ODBC documentation promises of a statement handle with an open result set, as a
relation between the driver's state and where its cursor is.  The promises of `SQLGetData`,
`SQLSetPos` and `SQLFetchScroll` hold as far as the driver announces them in
`SQL_GETDATA_EXTENSIONS` and the cursor attributes, and `SQLGetData` reads a row in the order
of its columns.
-/

namespace AdbcBridge.Reader

open AdbcBridge.Adbc

/-- The rows of a result, by row and column, and which values are longer than the buffers of
their columns. -/
structure ResultSet (v : Type*) where
  count : Nat
  value : Nat → Nat → v
  outgrows : Nat → Nat → Prop := fun _ _ => True

namespace ResultSet

variable {v : Type*} (R : ResultSet v)

/-- Column `i` of the first `n` rows. -/
def column (i n : Nat) : List v := (List.range n).map fun row => R.value row i

/-- Column `i` of `n` rows from `base` on. -/
def slice (i base n : Nat) : List v := (List.range n).map fun row => R.value (base + row) i

theorem column_add (i n m : Nat) : R.column i (n + m) = R.column i n ++ R.slice i n m := by
  simp only [column, slice, List.range_add, List.map_append, List.map_map]
  rfl

theorem slice_add (i base n m : Nat) :
    R.slice i base (n + m) = R.slice i base n ++ R.slice i (base + n) m := by
  simp only [slice, List.range_add, List.map_append, List.map_map, Nat.add_assoc]
  rfl

end ResultSet

/-- Where a cursor is: how many rows were fetched, the first row of the rowset, the row of it
and the first column that `SQLGetData` can read, the rowset size, which columns are bound, and
whether the driver counts the rows it fetches. -/
structure CursorView where
  next : Nat := 0
  base : Nat := 0
  row : Nat := 0
  column : Nat := 0
  size : Nat := 1
  bound : Nat → Bool := fun _ => false
  counts : Bool := false

/-- The cursor with another rowset size. -/
def CursorView.resize (V : CursorView) (n : Nat) : CursorView :=
  { V with size := n }

/-- A fetch of `k` rows from `base` on. -/
def CursorView.on (V : CursorView) (base k : Nat) : CursorView :=
  { V with next := base + k, base := base, row := 0, column := 0 }

variable {δ v : Type*}

/-- A value is the one of the result; an error is the driver's. -/
def Reads (faults : Prop) (answer : Except AdbcError v) (x : v) : Prop :=
  (∀ y, answer = .ok y → y = x) ∧ ∀ e, answer = .error e → faults

/-- The column as it was described. -/
def described (cols : List OdbcColumn) (i : Nat) : OdbcColumn :=
  cols.getD i { name := [], cType := .fixed, elemSize := 0 }

/-- The buffers after a fetch of `k` rows from `base` on.  A column that was not bound narrower
than it is declared holds its values whole. -/
structure Shows (cols : List OdbcColumn) (R : ResultSet v) (faults : Prop) (V : CursorView)
    (rowset : Rowset v) (base k : Nat) : Prop where
  count : V.counts = true → rowset.fetched = k
  status : ∀ row < k, rowset.status row ≠ .noRow ∧ (rowset.status row = .error → faults)
  held : ∀ row < k, ∀ i < cols.length, V.bound i = true →
    boundValueTruncated (described cols i) (rowset.cell row i).ind = false →
      ∀ converter, Reads faults ((rowset.cell row i).held converter) (R.value (base + row) i)
  outgrown : ∀ row < k, ∀ i < cols.length, V.bound i = true →
    boundValueTruncated (described cols i) (rowset.cell row i).ind = true →
      R.outgrows (base + row) i
  declared : ∀ row < k, ∀ i < cols.length, V.bound i = true →
    (described cols i).clipped = false →
      boundValueTruncated (described cols i) (rowset.cell row i).ind = false

/-- When `SQLGetData` is called for column `i`; a bound column is read again where its value is
one of those that are longer than its buffer. -/
structure MayRead (opts : OdbcReaderOptions) (cols : List OdbcColumn)
    (outgrows : Nat → Nat → Prop) (V : CursorView) (i : Nat) : Prop where
  column : i < cols.length
  order : V.column ≤ i
  fetched : V.base + V.row < V.next
  block : 1 < V.size → opts.getdataRepair = true
  bound : V.bound i = true →
    (opts.getdataRepair = true ∨ opts.getdataBound = true) ∧
      (described cols i).bound = true ∧ outgrows (V.base + V.row) i

/-- What the calls that move no values keep.  `faults` is whether a call may fail that the
contract has succeed; before the first fetch a driver may refuse any rowset but that of one
row. -/
structure HandleContract (H : Handle δ) (opts : OdbcReaderOptions) (faults : Prop)
    (sees : δ → CursorView → Prop) : Prop where
  resized : ∀ {s s' V n}, sees s V → H.setRowArraySize s n = (none, s') →
    sees s' (V.resize n)
  notResized : ∀ {s s' V n e}, sees s V → H.setRowArraySize s n = (some e, s') →
    sees s' V ∧ (V.next = 0 → n ≠ 1) ∧ (V.next ≠ 0 → faults)
  counted : ∀ {s s' V p}, sees s V → H.setRowsFetchedPtr s p = (none, s') →
    sees s' { V with counts := true }
  notCounted : ∀ {s s' V p e}, sees s V → H.setRowsFetchedPtr s p = (some e, s') →
    sees s' V ∧ V.counts = false
  statuses : ∀ {s V sl}, sees s V → sees (H.setRowStatusPtr s sl) V
  bound : ∀ {s s' V sl i}, sees s V → H.bindCol s sl i = (none, s') →
    sees s' { V with bound := Function.update V.bound i true }
  notBound : ∀ {s s' V sl i e}, sees s V → H.bindCol s sl i = (some e, s') → faults
  unbound : ∀ {s s' V i}, sees s V → H.unbindCol s i = (none, s') →
    sees s' { V with bound := Function.update V.bound i false }
  notUnbound : ∀ {s s' V i e}, sees s V → H.unbindCol s i = (some e, s') → faults
  positioned : ∀ {s s' V n}, sees s V → opts.getdataRepair = true → 0 < n →
    V.base + n ≤ V.next → H.setPos s n = (none, s') →
    sees s' { V with row := n - 1, column := 0 }
  notPositioned : ∀ {s s' V n e}, sees s V → opts.getdataRepair = true → 0 < n →
    V.base + n ≤ V.next → H.setPos s n = (some e, s') → faults

/-- A driver that keeps the contract on the result `R`, whose columns were described as
`cols`. -/
structure FollowsContract (D : Driver δ v) (opts : OdbcReaderOptions) (cols : List OdbcColumn)
    (R : ResultSet v) (faults : Prop) (sees : δ → CursorView → Prop) : Prop
    extends HandleContract D.toHandle opts faults sees where
  fetched : ∀ {s s' V rowset}, sees s V → D.fetch s = (.rows rowset, s') →
    ∃ k, 0 < k ∧ k ≤ V.size ∧ V.next + k ≤ R.count ∧
      Shows cols R faults V rowset V.next k ∧ sees s' (V.on V.next k)
  noData : ∀ {s s' V}, sees s V → 0 < V.size → D.fetch s = (.noData, s') →
    R.count ≤ V.next ∧ sees s' V
  notFetched : ∀ {s s' V e}, sees s V → D.fetch s = (.failed e, s') → faults
  scrolled : ∀ {s s' V n rowset}, sees s V → opts.refetchRepair = true → 0 < V.size →
    0 < n → n ≤ R.count → D.fetchAbsolute s n = (.ok rowset, s') →
    ∃ k, 0 < k ∧ k ≤ V.size ∧ Shows cols R faults V rowset (n - 1) k ∧ sees s' (V.on (n - 1) k)
  notScrolled : ∀ {s s' V n e}, sees s V → opts.refetchRepair = true → 0 < n → n ≤ R.count →
    D.fetchAbsolute s n = (.error e, s') → faults
  read : ∀ {s s' V i answer}, sees s V → MayRead opts cols R.outgrows V i →
    D.getData s i = (.value answer, s') →
    Reads faults (answer (V.bound i)) (R.value (V.base + V.row) i) ∧
      sees s' { V with column := i + 1 }
  readEmpty : ∀ {s s' V i answer}, sees s V → MayRead opts cols R.outgrows V i →
    D.getData s i = (.noData answer, s') →
    Reads faults (answer (V.bound i)) (R.value (V.base + V.row) i) ∧ (1 < V.size → faults) ∧
      sees s' { V with column := i + 1 }
  notRead : ∀ {s s' V i e}, sees s V → MayRead opts cols R.outgrows V i →
    D.getData s i = (.failed e, s') → faults

/-! ## Answers -/

section
variable {α : Type*}

/-- An answer that fails only where a call may fail. -/
def Gives (faults : Prop) (post : α → δ → Prop) : Except AdbcError α × δ → Prop
  | (.ok x, s) => post x s
  | (.error _, _) => faults

def Done (faults : Prop) (post : δ → Prop) : Option AdbcError × δ → Prop
  | (none, s) => post s
  | (some _, _) => faults

variable {faults : Prop}

theorem reads_value (faults : Prop) (x : v) : Reads faults (.ok x) x :=
  ⟨fun _ h => (Except.ok.inj h).symm, fun _ h => by cases h⟩

theorem Reads.gives {answer : Except AdbcError v} {x : v} {s : δ} {P : δ → Prop}
    (h : Reads faults answer x) (hs : P s) :
    Gives faults (fun y s => y = x ∧ P s) (answer, s) := by
  cases answer with
  | error e => exact h.2 e rfl
  | ok y => exact ⟨h.1 y rfl, hs⟩

theorem Gives.mono {post post' : α → δ → Prop} {answer : Except AdbcError α × δ}
    (h : Gives faults post answer) (himp : ∀ x s, post x s → post' x s) :
    Gives faults post' answer := by
  cases answer with
  | mk result s =>
      cases result with
      | error e => exact h
      | ok x => exact himp x s h

theorem Done.mono {post post' : δ → Prop} {answer : Option AdbcError × δ}
    (h : Done faults post answer) (himp : ∀ s, post s → post' s) : Done faults post' answer := by
  cases answer with
  | mk result s =>
      cases result with
      | some e => exact h
      | none => exact himp s h

end

section
variable {D : Driver δ v} {opts : OdbcReaderOptions} {cols : List OdbcColumn} {R : ResultSet v}
  {faults : Prop} {sees : δ → CursorView → Prop}

theorem answered {α : Type*} {x : α × δ} {calls : List Call} {answer : α} {s : δ × List Call}
    (h : (x.1, x.2, calls) = (answer, s)) : x = (answer, s.1) := by
  obtain ⟨hanswer, hstate⟩ := Prod.mk.inj h
  exact Prod.ext hanswer (congrArg Prod.fst hstate)

/-- The log of a driver changes none of its answers. -/
theorem FollowsContract.logged (h : FollowsContract D opts cols R faults sees) :
    FollowsContract D.logged opts cols R faults fun s V => sees s.1 V where
  resized := fun hs hcall => h.resized hs (answered hcall)
  notResized := fun hs hcall => h.notResized hs (answered hcall)
  counted := fun hs hcall => h.counted hs (answered hcall)
  notCounted := fun hs hcall => h.notCounted hs (answered hcall)
  statuses := fun hs => h.statuses hs
  bound := fun hs hcall => h.bound hs (answered hcall)
  notBound := fun hs hcall => h.notBound hs (answered hcall)
  unbound := fun hs hcall => h.unbound hs (answered hcall)
  notUnbound := fun hs hcall => h.notUnbound hs (answered hcall)
  fetched := fun hs hcall => h.fetched hs (answered hcall)
  noData := fun hs hsize hcall => h.noData hs hsize (answered hcall)
  notFetched := fun hs hcall => h.notFetched hs (answered hcall)
  scrolled := fun hs hrefetch hsize hpos hle hcall =>
    h.scrolled hs hrefetch hsize hpos hle (answered hcall)
  notScrolled := fun hs hrefetch hpos hle hcall =>
    h.notScrolled hs hrefetch hpos hle (answered hcall)
  positioned := fun hs hrepair hpos hle hcall => h.positioned hs hrepair hpos hle (answered hcall)
  notPositioned := fun hs hrepair hpos hle hcall =>
    h.notPositioned hs hrepair hpos hle (answered hcall)
  read := fun hs hreadable hcall => h.read hs hreadable (answered hcall)
  readEmpty := fun hs hreadable hcall => h.readEmpty hs hreadable (answered hcall)
  notRead := fun hs hreadable hcall => h.notRead hs hreadable (answered hcall)

end

/-! ## A driver over a table keeps the contract -/

/-- Where the cursor of a table of so many rows is. -/
structure TableCursor.Sees (count : Nat) (s : TableCursor) (V : CursorView) : Prop where
  next : s.next = V.next
  base : s.base = V.base
  row : s.row = V.row
  size : s.size = V.size
  within : s.next ≤ count

namespace TableCursor

variable {ρ : Type*} {count : Nat} {s s' : TableCursor} {V : CursorView}

theorem handle_contract (opts : OdbcReaderOptions) (count : Nat) :
    HandleContract handle opts False (Sees count) where
  resized := by
    intro s s' V n hs hcall
    rw [← (Prod.mk.inj hcall).2]
    exact ⟨hs.next, hs.base, hs.row, rfl, hs.within⟩
  notResized := fun _ hcall => by cases hcall
  counted := by
    intro s s' V p hs hcall
    rw [← (Prod.mk.inj hcall).2]
    exact ⟨hs.next, hs.base, hs.row, hs.size, hs.within⟩
  notCounted := fun _ hcall => by cases hcall
  statuses := id
  bound := by
    intro s s' V sl i hs hcall
    rw [← (Prod.mk.inj hcall).2]
    exact ⟨hs.next, hs.base, hs.row, hs.size, hs.within⟩
  notBound := fun _ hcall => by cases hcall
  unbound := by
    intro s s' V i hs hcall
    rw [← (Prod.mk.inj hcall).2]
    exact ⟨hs.next, hs.base, hs.row, hs.size, hs.within⟩
  notUnbound := fun _ hcall => by cases hcall
  positioned := by
    intro s s' V n hs _ _ _ hcall
    rw [← (Prod.mk.inj hcall).2]
    exact ⟨hs.next, hs.base, rfl, hs.size, hs.within⟩
  notPositioned := fun _ _ _ _ hcall => by cases hcall

/-- The cursor behind a fetch of what is there from `first` on. -/
theorem Sees.fetched (h : Sees count s V) (hsize : 0 < s.size) {first : Nat}
    (hfirst : first < count) :
    0 < s.available count first ∧ s.available count first ≤ V.size ∧
      first + s.available count first ≤ count ∧
      Sees count (s.fetched first (s.available count first))
        (V.on first (s.available count first)) := by
  have hle : first + s.available count first ≤ count := by
    unfold available
    omega
  refine ⟨lt_min hsize (Nat.sub_pos_of_lt hfirst), ?_, hle, ⟨rfl, rfl, rfl, h.size, hle⟩⟩
  rw [← h.size]
  exact Nat.min_le_left _ _

theorem Sees.fetch (h : Sees count s V) {rowset : Nat → Nat → ρ} {found : ρ}
    (hcall : s.fetch count rowset = (.rows found, s')) :
    ∃ k, 0 < k ∧ k ≤ V.size ∧ V.next + k ≤ count ∧ found = rowset V.next k ∧
      Sees count s' (V.on V.next k) := by
  unfold TableCursor.fetch at hcall
  by_cases hnone : s.available count s.next = 0
  · rw [if_pos hnone] at hcall
    cases hcall
  rw [if_neg hnone] at hcall
  obtain ⟨hrows, hstate⟩ := Prod.mk.inj hcall
  have hpos : 0 < s.size ∧ s.next < count := by
    unfold available at hnone
    omega
  have hfetched := h.fetched hpos.1 hpos.2
  rw [← hstate, ← FetchAnswer.rows.inj hrows, ← h.next]
  exact ⟨_, hfetched.1, hfetched.2.1, hfetched.2.2.1, rfl, hfetched.2.2.2⟩

theorem Sees.noData (h : Sees count s V) (hsize : 0 < V.size) {rowset : Nat → Nat → ρ}
    (hcall : s.fetch count rowset = (.noData, s')) : count ≤ V.next ∧ Sees count s' V := by
  unfold TableCursor.fetch at hcall
  by_cases hnone : s.available count s.next = 0
  swap
  · rw [if_neg hnone] at hcall
    cases hcall
  rw [if_pos hnone] at hcall
  rw [← (Prod.mk.inj hcall).2]
  refine ⟨?_, h⟩
  rw [← h.next]
  rw [← h.size] at hsize
  unfold available at hnone
  omega

theorem fetch_answers (s : TableCursor) (count : Nat) (rowset : Nat → Nat → ρ) (e : AdbcError) :
    (s.fetch count rowset).1 ≠ .failed e := by
  unfold TableCursor.fetch
  split_ifs
  · exact fun h => by cases h
  · exact fun h => by cases h

theorem Sees.fetchAbsolute (h : Sees count s V) (hsize : 0 < V.size) {n : Nat} (hpos : 0 < n)
    (hle : n ≤ count) (rowset : Nat → Nat → ρ) :
    ∃ k, s.fetchAbsolute count true rowset n = (.ok (rowset (n - 1) k), s.fetched (n - 1) k) ∧
      0 < k ∧ k ≤ V.size ∧ n - 1 + k ≤ count ∧
      Sees count (s.fetched (n - 1) k) (V.on (n - 1) k) :=
  ⟨_, if_pos ⟨rfl, hpos, hle⟩, h.fetched (h.size ▸ hsize) (Nat.sub_one_lt_of_le hpos hle)⟩

end TableCursor

namespace Table

/-- The rows of a table. -/
def resultSet (t : Table v) (empty : v) : ResultSet v where
  count := t.rows.length
  value row i := (t.rows[row]?.map fun entries => (entries i).value).getD empty

/-- The buffers show the values of the table where these fit, and they fit where the columns
were not described narrower than they are. -/
structure Faithful (t : Table v) (cols : List OdbcColumn) : Prop where
  held : ∀ entries ∈ t.rows, ∀ i < cols.length,
    boundValueTruncated (described cols i) (entries i).cell.ind = false →
      ∀ converter, (entries i).cell.held converter = .ok (entries i).value
  declared : ∀ entries ∈ t.rows, ∀ i < cols.length, (described cols i).clipped = false →
    boundValueTruncated (described cols i) (entries i).cell.ind = false

variable {t : Table v} {opts : OdbcReaderOptions} {cols : List OdbcColumn} {empty : v}

theorem rowset_shows (hfaithful : t.Faithful cols) (V : CursorView) {base k : Nat}
    (hfit : base + k ≤ t.rows.length) :
    Shows cols (t.resultSet empty) False V (t.rowset base k) base k where
  count := fun _ => rfl
  status := fun _ _ => ⟨RowStatus.noConfusion, fun h => by cases h⟩
  held := by
    intro row hrow i hi _ hfits converter
    have hlt : base + row < t.rows.length := by omega
    have hentries : t.rows[base + row]? = some t.rows[base + row] := List.getElem?_eq_getElem hlt
    have hcell : (t.rowset base k).cell row i = (t.rows[base + row] i).cell := by
      simp only [rowset, hentries]
    have hvalue : (t.resultSet empty).value (base + row) i = (t.rows[base + row] i).value := by
      simp only [resultSet, hentries, Option.map_some, Option.getD_some]
    rw [hcell] at hfits ⊢
    rw [hvalue, hfaithful.held _ (List.getElem_mem hlt) i hi hfits]
    exact reads_value _ _
  outgrown := fun _ _ _ _ _ _ => trivial
  declared := by
    intro row hrow i hi _ hclipped
    have hlt : base + row < t.rows.length := by omega
    have hentries : t.rows[base + row]? = some t.rows[base + row] := List.getElem?_eq_getElem hlt
    have hcell : (t.rowset base k).cell row i = (t.rows[base + row] i).cell := by
      simp only [rowset, hentries]
    rw [hcell]
    exact hfaithful.declared _ (List.getElem_mem hlt) i hi hclipped

theorem follows (hfaithful : t.Faithful cols)
    (hscrolls : opts.refetchRepair = true → t.scrolls = true) :
    FollowsContract t.driver opts cols (t.resultSet empty) False
      (TableCursor.Sees t.rows.length) where
  toHandleContract := TableCursor.handle_contract opts t.rows.length
  fetched := by
    intro s s' V rowset hs hcall
    obtain ⟨k, hpos, hsize, hcount, hrows, hs'⟩ := hs.fetch hcall
    exact ⟨k, hpos, hsize, hcount, hrows ▸ rowset_shows hfaithful V hcount, hs'⟩
  noData := fun hs hsize hcall => hs.noData hsize hcall
  notFetched := by
    intro s s' V e _ hcall
    exact TableCursor.fetch_answers s t.rows.length t.rowset e (congrArg Prod.fst hcall)
  scrolled := by
    intro s s' V n rowset hs hrefetch hsize hpos hle hcall
    obtain ⟨k, hfound, hk, hfits, hcount, hs'⟩ := hs.fetchAbsolute hsize hpos hle t.rowset
    rw [← hscrolls hrefetch] at hfound
    obtain ⟨hrows, hstate⟩ := Prod.mk.inj (hfound.symm.trans hcall)
    rw [← hstate, ← Except.ok.inj hrows]
    exact ⟨k, hk, hfits, rowset_shows hfaithful V hcount, hs'⟩
  notScrolled := by
    intro s s' V n e _ hrefetch hpos hle hcall
    have hfound : t.driver.fetchAbsolute s n = (.ok _, _) := if_pos ⟨hscrolls hrefetch, hpos, hle⟩
    cases hfound.symm.trans hcall
  read := by
    intro s s' V i answer hs hreadable hcall
    have hlt : s.base + s.row < t.rows.length := by
      rw [hs.base, hs.row]
      exact hreadable.fetched.trans_le (hs.next ▸ hs.within)
    have hentries := List.getElem?_eq_getElem hlt
    unfold driver at hcall
    simp only [hentries] at hcall
    obtain ⟨hanswer, hstate⟩ := Prod.mk.inj hcall
    rw [← hstate, ← GetDataAnswer.value.inj hanswer]
    refine ⟨?_, hs.next, hs.base, hs.row, hs.size, hs.within⟩
    rw [← hs.base, ← hs.row]
    simp only [resultSet, hentries, Option.map_some, Option.getD_some]
    exact reads_value _ _
  readEmpty := by
    intro s s' V i answer hs hreadable hcall
    have hlt : s.base + s.row < t.rows.length := by
      rw [hs.base, hs.row]
      exact hreadable.fetched.trans_le (hs.next ▸ hs.within)
    unfold driver at hcall
    simp only [List.getElem?_eq_getElem hlt] at hcall
    cases (Prod.mk.inj hcall).1
  notRead := by
    intro s s' V i e hs _ hcall
    unfold driver at hcall
    dsimp only at hcall
    split at hcall
    · cases (Prod.mk.inj hcall).1
    · cases (Prod.mk.inj hcall).1

end Table

end AdbcBridge.Reader
