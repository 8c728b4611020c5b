import AdbcBridge.Statement.Handle
import Mathlib.Logic.Relation

/-!
# What an operation can do to its statement

Every operation is a sequence of a few kinds of steps on the statement and its handle,
each with what `EnsureHandle` has made sure of before it.  What a step of each kind keeps
is kept by every operation.
-/

namespace AdbcBridge.Statement.Moves

open AdbcBridge.Adbc AdbcBridge.Statement.Handle Relation
open AdbcBridge.Ingest.Ddl (Target insertText)

/-- The statement has a handle that it alone holds, and no rollback has advanced the
epoch since it was made ready. -/
structure Ready (o : Owner) (h : Nat) : Prop where
  ref : o.stmt.ref = some h
  alone : o.session.refcount h ≤ 1
  epoch : o.stmt.rollbackEpoch = o.session.rollbackEpoch

/-- What a statement handle is held by: the fields a handle's use depends on. -/
structure SameHold (s t : OdbcStatement) : Prop where
  ref : t.ref = s.ref
  epoch : t.rollbackEpoch = s.rollbackEpoch
  query : t.query = s.query
  prepared : t.prepared = s.prepared

/-- A reader that takes its references is handed out as a stream. -/
def openReader (c : Session) (h : Nat) (reader : Reader) : Session :=
  { c with refcount := Function.update c.refcount h (c.refcount h + reader.refs) }.openStream
    h reader

/-- The steps of the operations.  Two of them need a permission: a refused `SQLPrepare`
on a handle the flag says is prepared, and the rollback of an implicit transaction. -/
inductive Act (refused undone : Prop) (o : Owner) : Owner → Prop
  | settle (s : OdbcStatement) (h : SameHold o.stmt s) : Act refused undone o ⟨o.session, s⟩
  | rewrite (q : List Char) : Act refused undone o (o.rewrite q)
  | detach (h : Nat) (ref : o.stmt.ref = some h) : Act refused undone o o.detach
  | waste (ref : o.stmt.ref = none) : Act refused undone o
      ⟨o.session.alloc.release o.session.handles, o.stmt⟩
  | obtain (ref : o.stmt.ref = none) : Act refused undone o o.allocate.markReady
  | prepared (h : Nat) (q : List Char) (ready : Ready o h) (query : o.stmt.query = some q) :
      Act refused undone o
        ⟨o.session.log (.prepare h q true), { o.stmt with prepared := true }⟩
  | refused (h : Nat) (q : List Char) (ready : Ready o h) (query : o.stmt.query = some q)
      (allowed : o.stmt.prepared = true → refused) :
      Act refused undone o ⟨o.session.log (.prepare h q false), o.stmt⟩
  | execDirect (h : Nat) (q : List Char) (ready : Ready o h) (query : o.stmt.query = some q)
      (unprepared : o.stmt.prepared = false) :
      Act refused undone o ⟨o.session.log (.execDirect h q), o.stmt⟩
  | execute (h : Nat) (ready : Ready o h) (prepared : o.stmt.prepared = true) :
      Act refused undone o ⟨o.session.log (.execute h), o.stmt⟩
  | undo (allowed : undone) : Act refused undone o ⟨o.session.log .rollback, o.stmt⟩
  | open (h : Nat) (ready : Ready o h) (reader : Reader) :
      Act refused undone o ⟨openReader o.session h reader, o.stmt⟩

/-- Any number of steps. -/
abbrev Acts (refused undone : Prop) : Owner → Owner → Prop := ReflTransGen (Act refused undone)

variable {refused undone : Prop} {o o' : Owner} {h : Nat}

theorem Ready.settle (ready : Ready o h) {s : OdbcStatement} (hold : SameHold o.stmt s) :
    Ready ⟨o.session, s⟩ h :=
  ⟨hold.ref.trans ready.ref, ready.alone, hold.epoch.trans ready.epoch⟩

theorem Ready.log (ready : Ready o h) (call : Call) : Ready ⟨o.session.log call, o.stmt⟩ h :=
  ⟨ready.ref, ready.alone, ready.epoch⟩

theorem settle_acts {s : OdbcStatement} (hold : SameHold o.stmt s) :
    Acts refused undone o ⟨o.session, s⟩ := .single (.settle s hold)

theorem raise_acts {r : Step} {k : Owner → Step} (hr : Acts refused undone o r.1)
    (hk : r.2 = none → Acts refused undone r.1 (k r.1).1) :
    Acts refused undone o (raise r k).1 := by
  unfold raise
  split
  · exact hr
  · rename_i hnone
    exact hr.trans (hk hnone)

/-- A statement prepares or executes the handle. -/
def UsedBy (h : Nat) : Call → Prop
  | .prepare k _ _ => k = h
  | .execDirect k _ => k = h
  | .execute k => k = h
  | _ => False

/-- A step makes at most one call; it uses no other handle than the one made ready, and
rolls back only with the permission to. -/
theorem Act.call (act : Act refused undone o o') :
    o'.session.calls = o.session.calls ∨
      ∃ c, o'.session.calls = o.session.calls ++ [c] ∧ (∀ h, UsedBy h c → Ready o h) ∧
        (c = .rollback → undone) := by
  cases act with
  | settle s hold => exact .inl rfl
  | rewrite q => exact .inl rfl
  | detach h ref => exact .inl (by simp [Owner.detach, ref, Session.release])
  | waste ref => exact .inr ⟨_, rfl, fun _ hused => hused.elim, nofun⟩
  | obtain ref => exact .inr ⟨_, rfl, fun _ hused => hused.elim, nofun⟩
  | prepared h q ready => exact .inr ⟨_, rfl, fun _ hused => hused ▸ ready, nofun⟩
  | refused h q ready => exact .inr ⟨_, rfl, fun _ hused => hused ▸ ready, nofun⟩
  | execDirect h q ready => exact .inr ⟨_, rfl, fun _ hused => hused ▸ ready, nofun⟩
  | execute h ready => exact .inr ⟨_, rfl, fun _ hused => hused ▸ ready, nofun⟩
  | undo allowed => exact .inr ⟨_, rfl, fun _ hused => hused.elim, fun _ => allowed⟩
  | «open» h ready reader => exact .inr ⟨_, rfl, fun _ hused => hused.elim, nofun⟩

/-! ## Giving up a handle -/

theorem detach_acts (o : Owner) : Acts refused undone o o.detach := by
  cases href : o.stmt.ref with
  | none => simpa [Owner.detach, href] using ReflTransGen.refl
  | some h => exact .single (.detach h href)

theorem detach_ref (o : Owner) : o.detach.stmt.ref = none := by
  cases href : o.stmt.ref <;> simp [Owner.detach, href]

theorem detach_query (o : Owner) : o.detach.stmt.query = o.stmt.query := by
  cases href : o.stmt.ref <;> simp [Owner.detach, href]

theorem detach_of_none (href : o.stmt.ref = none) : o.detach = o := by
  simp [Owner.detach, href]

theorem detach_unprepared (href : o.stmt.ref.isSome) : o.detach.stmt.prepared = false := by
  obtain ⟨h, href⟩ := Option.isSome_iff_exists.1 href
  simp [Owner.detach, href]

theorem shared_of_none (href : o.stmt.ref = none) : o.shared = false := by
  simp [Owner.shared, href]

theorem stale_of_none (href : o.stmt.ref = none) : o.stale = false := by
  simp [Owner.stale, href]

theorem shared_isSome (hshared : o.shared = true) : o.stmt.ref.isSome := by
  cases href : o.stmt.ref with
  | none => simp [shared_of_none href] at hshared
  | some h => rfl

theorem givesUp_isSome {a : EnsureAnswer} (hup : o.givesUp a = true) : o.stmt.ref.isSome := by
  cases href : o.stmt.ref with
  | none => simp [Owner.givesUp, shared_of_none href, stale_of_none href, href] at hup
  | some h => rfl

theorem detachUnfit_eq (a : EnsureAnswer) (o : Owner) :
    o.detachUnfit a = if o.givesUp a then o.detach else o := by
  have hstale : o.detach.stale = false := stale_of_none (detach_ref o)
  have hdetach : o.detach.detach = o.detach := detach_of_none (detach_ref o)
  cases href : o.stmt.ref with
  | none =>
      simp [Owner.detachUnfit, Owner.givesUp, shared_of_none href, stale_of_none href,
        detach_of_none href, href]
  | some h =>
      cases hshared : o.shared <;> cases hst : o.stale <;> cases hbusy : a.busy <;>
        simp [Owner.detachUnfit, Owner.givesUp, hshared, hst, hbusy, hstale, hdetach, href]

/-! ## A handle made ready -/

/-- What `EnsureHandle` has made sure of when it returns without an error. -/
structure Ensured (a : EnsureAnswer) (o o' : Owner) : Prop where
  ready : ∃ h, Ready o' h
  query : o'.stmt.query = o.stmt.query
  prepared : o'.stmt.prepared = true → o.stmt.prepared = true ∧ o.givesUp a = false

theorem Ready.of_kept {a : EnsureAnswer} (href : o.stmt.ref = some h)
    (hup : o.givesUp a = false) : Ready o h := by
  simp only [Owner.givesUp, Owner.shared, Owner.stale, href, Option.any_some, Option.isSome_some,
    Bool.true_and, Bool.or_eq_false_iff, decide_eq_false_iff_not, not_lt, Classical.not_not]
    at hup
  exact ⟨href, hup.1.1, hup.1.2⟩

theorem ensureHandle_kept {a : EnsureAnswer} (href : o.stmt.ref = some h)
    (hup : o.givesUp a = false) : ensureHandle a o = (o, none) := by
  have hready := Ready.of_kept href hup
  have hmark : o.markReady = o := by simp [Owner.markReady, ← hready.epoch]
  simp [ensureHandle, detachUnfit_eq, hup, href, hmark]

/-- Without a handle, or with one that is given up, it takes a fresh one. -/
theorem ensureHandle_fresh {a : EnsureAnswer} (href : o.stmt.ref = none) :
    (∃ e, ensureHandle a o = (o, some e)) ∨
      ensureHandle a o = (⟨o.session.alloc.release o.session.handles, o.stmt⟩, some outOfMemory) ∨
      ensureHandle a o = (o.allocate.markReady, none) := by
  have hunfit : o.detachUnfit a = o := by simp [detachUnfit_eq, detach_of_none href]
  rw [ensureHandle, hunfit, href]
  dsimp only
  split
  · exact .inl ⟨_, rfl⟩
  · split
    · exact .inr (.inr rfl)
    · exact .inr (.inl rfl)

theorem ensureHandle_givesUp {a : EnsureAnswer} (hup : o.givesUp a = true) :
    ensureHandle a o = ensureHandle a o.detach := by
  have hunfit : o.detach.detachUnfit a = o.detach := by
    simp [detachUnfit_eq, detach_of_none (detach_ref o)]
  rw [ensureHandle, ensureHandle, hunfit, detachUnfit_eq, if_pos hup]

theorem ready_allocate (o : Owner) : Ready o.allocate.markReady o.session.handles := by
  constructor <;> simp [Owner.allocate, Owner.markReady, Session.alloc]

theorem ensureHandle_acts (a : EnsureAnswer) (o : Owner) :
    Acts refused undone o (ensureHandle a o).1 ∧
      ((ensureHandle a o).2 = none → Ensured a o (ensureHandle a o).1) := by
  cases hup : o.givesUp a with
  | true =>
      have hlost := detach_unprepared (givesUp_isSome hup)
      rw [ensureHandle_givesUp hup]
      rcases ensureHandle_fresh (a := a) (detach_ref o) with ⟨e, h⟩ | h | h <;> rw [h]
      · exact ⟨detach_acts o, by simp⟩
      · exact ⟨(detach_acts o).tail (.waste (detach_ref o)), by simp⟩
      · refine ⟨(detach_acts o).tail (.obtain (detach_ref o)), fun _ =>
          ⟨⟨_, ready_allocate _⟩, ?_, ?_⟩⟩
        · exact detach_query o
        · intro hprep
          simp [Owner.allocate, Owner.markReady, hlost] at hprep
  | false =>
      cases href : o.stmt.ref with
      | some h =>
          rw [ensureHandle_kept href hup]
          exact ⟨.refl, fun _ => ⟨⟨h, .of_kept href hup⟩, rfl, fun hp => ⟨hp, hup⟩⟩⟩
      | none =>
          rcases ensureHandle_fresh (a := a) href with ⟨e, h⟩ | h | h <;> rw [h]
          · exact ⟨.refl, by simp⟩
          · exact ⟨.single (.waste href), by simp⟩
          · exact ⟨.single (.obtain href), fun _ =>
              ⟨⟨_, ready_allocate _⟩, rfl, fun hp => ⟨hp, hup⟩⟩⟩

/-! ## What the operations do on it -/

theorem prepareSql_ok {q : List Char} (ref : o.stmt.ref = some h)
    (query : o.stmt.query = some q) :
    prepareSql none o =
      (⟨o.session.log (.prepare h q true), { o.stmt with prepared := true }⟩, none) := by
  unfold prepareSql
  split <;> simp_all

theorem prepareSql_refused {e : AdbcError} {q : List Char} (ref : o.stmt.ref = some h)
    (query : o.stmt.query = some q) :
    prepareSql (some e) o = (⟨o.session.log (.prepare h q false), o.stmt⟩, some e) := by
  unfold prepareSql
  split <;> simp_all

theorem prepareSql_query (failure : Option AdbcError) (o : Owner) :
    (prepareSql failure o).1.stmt.query = o.stmt.query := by
  unfold prepareSql
  split
  · dsimp only
    split <;> simp_all
  · rfl

theorem prepareSql_acts {failure : Option AdbcError} (ready : Ready o h) {q : List Char}
    (query : o.stmt.query = some q)
    (allowed : failure ≠ none → o.stmt.prepared = true → refused) :
    Acts refused undone o (prepareSql failure o).1 ∧ Ready (prepareSql failure o).1 h ∧
      ((prepareSql failure o).2 = none → (prepareSql failure o).1.stmt.prepared = true) := by
  cases failure with
  | none =>
      rw [prepareSql_ok ready.ref query]
      exact ⟨.single (.prepared h q ready query),
        ⟨ready.ref, ready.alone, ready.epoch⟩, fun _ => rfl⟩
  | some e =>
      rw [prepareSql_refused ready.ref query]
      exact ⟨.single (.refused h q ready query (allowed (by simp))), ready.log _, by simp⟩

/-- After `EnsureHandle` the flag is only set if it was before, so a prepare that is
issued because it was not can be refused without harm. -/
theorem doPrepare_acts {a : PrepareAnswer} {q : List Char} (query : o.stmt.query = some q) :
    Acts refused undone o (doPrepare a o).1 ∧
      ((doPrepare a o).2 = none → (doPrepare a o).1.stmt.query = some q) := by
  unfold doPrepare
  split
  · exact ⟨.refl, fun _ => query⟩
  · rename_i hprep
    obtain ⟨hacts, hensured⟩ :=
      @ensureHandle_acts refused undone a.ensure o
    unfold raise
    split
    · exact ⟨hacts, by simp⟩
    · rename_i hnone
      obtain ⟨⟨h, ready⟩, hquery, hset⟩ := hensured hnone
      have hq := hquery.trans query
      refine ⟨hacts.trans (prepareSql_acts ready hq fun _ hp => absurd (hset hp).1 hprep).1, ?_⟩
      exact fun _ => (prepareSql_query _ _).trans hq

/-- Executes of the prepared statement and rollbacks, in any order. -/
theorem calls_acts (calls : List RowsCall) (ready : Ready o h)
    (prepared : o.stmt.prepared = true) (hundo : .rollback ∈ calls → undone) :
    Acts refused undone o
      ⟨{ o.session with calls := o.session.calls ++ calls.map (RowsCall.call h) }, o.stmt⟩ := by
  induction calls generalizing o with
  | nil => simpa using ReflTransGen.refl
  | cons call calls ih =>
      have hrest := ih (ready.log (call.call h)) prepared fun hmem => hundo (.tail _ hmem)
      simp only [Session.log, List.append_assoc, List.singleton_append] at hrest
      refine .trans (.single ?_) hrest
      cases call with
      | execute => exact .execute h ready prepared
      | rollback => exact .undo (hundo (.head _))

theorem executeRows_acts {a : RowsAnswer} (ready : Ready o h)
    (prepared : o.stmt.prepared = true)
    (hundo : .rollback ∈ (rowsCalls o.session.opensTxn a).1 → undone) :
    Acts refused undone o (executeRows a o).1 := by
  rw [executeRows, ready.ref]
  exact (calls_acts _ ready prepared hundo).trans (settle_acts ⟨rfl, rfl, rfl, rfl⟩)

theorem release_retain (c : Session) (h : Nat) : (c.retain h).release h = c := by
  simp [Session.retain, Session.release]

theorem readerInit_acts {a : ReaderAnswer} (ready : Ready o h) :
    Acts refused undone o (readerInit a o).1 := by
  rw [readerInit, ready.ref]
  dsimp only
  split
  · exact .refl
  · cases a.describe with
    | some e =>
        dsimp only
        rw [release_retain]
    | none => exact .single (.open h ready .odbc)

theorem boundReaderInit_acts {a : BoundReaderAnswer} (ready : Ready o h)
    (prepared : o.stmt.prepared = true) : Acts refused undone o (boundReaderInit a o).1 := by
  have hrun : Acts refused undone o ⟨o.session.executes h a.executes, o.stmt⟩ := by
    simpa [Session.executes, RowsCall.call] using
      calls_acts (List.replicate a.executes .execute) ready prepared (by simp)
  have hready : Ready ⟨o.session.executes h a.executes, { o.stmt with hasBind := false }⟩ h :=
    ⟨ready.ref, ready.alone, ready.epoch⟩
  have hbound := hrun.trans (settle_acts (s := { o.stmt with hasBind := false })
    ⟨rfl, rfl, rfl, rfl⟩)
  have hback : ((o.session.retain h).executes h a.executes).release h =
      o.session.executes h a.executes := by
    simp [Session.retain, Session.release, Session.executes]
  rw [boundReaderInit, ready.ref]
  dsimp only
  split
  · exact .refl
  · cases a.result with
    | fails e =>
        dsimp only
        rw [hback]
        exact hbound
    | exhausted =>
        dsimp only
        rw [hback]
        exact hbound
    | opens =>
        have hopen : (((o.session.retain h).executes h a.executes).retain h).openStream h
            (.bound true) = openReader (o.session.executes h a.executes) h (.bound true) := by
          simp [Session.retain, Session.executes, openReader, Session.openStream, Reader.refs]
        dsimp only
        rw [hopen]
        exact hbound.tail (.open h hready (.bound true))

/-! ## The operations -/

theorem Act.opensTxn (hact : Act refused undone o o') :
    o'.session.opensTxn = o.session.opensTxn := by
  cases hact with
  | detach h ref => simp [Owner.detach, ref, Session.release, Session.opensTxn]
  | _ => rfl

theorem Acts.opensTxn (hacts : Acts refused undone o o') :
    o'.session.opensTxn = o.session.opensTxn := by
  induction hacts with
  | refl => rfl
  | tail _ hact ih => exact hact.opensTxn.trans ih

/-- The implicit transaction of a bound execution rolls back. -/
def RollsBack (c : Session) (a : BoundAnswer) : Prop :=
  .rollback ∈ (rowsCalls c.opensTxn a.rows).1

theorem executeBound_acts {out : Bool} {a : BoundAnswer} {q : List Char}
    (query : o.stmt.query = some q) (hundo : out = false → RollsBack o.session a → undone) :
    Acts refused undone o (executeBound out a o).1 := by
  obtain ⟨hacts, hensured⟩ := @ensureHandle_acts refused undone a.ensure o
  refine raise_acts hacts fun hnone => ?_
  obtain ⟨⟨h, ready⟩, hquery, -⟩ := hensured hnone
  have htxn := hacts.opensTxn
  generalize (ensureHandle a.ensure o).1 = o₁ at ready hquery htxn ⊢
  -- Either way the handle is now prepared, and as ready as it was.
  have hprepared : ∃ r : Step,
      (if o₁.stmt.prepared then (o₁, none) else prepareSql a.prepare o₁) = r ∧
        Acts refused undone o₁ r.1 ∧ Ready r.1 h ∧ (r.2 = none → r.1.stmt.prepared = true) := by
    refine ⟨_, rfl, ?_⟩
    split
    · rename_i hprep
      exact ⟨.refl, ready, fun _ => hprep⟩
    · rename_i hprep
      exact prepareSql_acts ready (hquery.trans query) fun _ hp => absurd hp hprep
  obtain ⟨r, hr, hracts, hready, hset⟩ := hprepared
  rw [hr]
  refine raise_acts hracts fun hnone => ?_
  cases out with
  | true => exact boundReaderInit_acts hready (hset hnone)
  | false =>
      refine executeRows_acts hready (hset hnone) fun hmem => hundo rfl ?_
      rwa [hracts.opensTxn, htxn] at hmem

theorem ingestLoad_acts {a : IngestAnswer} {target : Target} {fields : List ArrowSchema}
    (hundo : o.fansOut = false → RollsBack o.session a.bound → undone) :
    Acts refused undone o (ingestLoad a target fields o).1 := by
  unfold ingestLoad
  generalize insertText _ target _ = q
  refine .trans (.single (.rewrite q)) ?_
  dsimp only
  split
  · exact settle_acts ⟨rfl, rfl, rfl, rfl⟩
  · rename_i hfan
    exact executeBound_acts rfl fun _ => hundo (Bool.eq_false_iff.2 hfan)

theorem ingest_acts {a : IngestAnswer} {target : Target}
    (hundo : o.stmt.hasBind = true → o.fansOut = false → RollsBack o.session a.bound → undone) :
    Acts refused undone o (ingest a target o).1 := by
  have hdetach : o.detach.fansOut = o.fansOut ∧
      (RollsBack o.detach.session a.bound → RollsBack o.session a.bound) := by
    cases href : o.stmt.ref with
    | none => simp [detach_of_none href]
    | some h =>
        simp only [RollsBack, (@detach_acts True True o).opensTxn]
        exact ⟨by simp [Owner.detach, href, Owner.fansOut, Session.release], id⟩
  unfold ingest
  split
  · exact .refl
  · rename_i hbind
    replace hundo := hundo (by simpa using hbind)
    split
    · exact .refl
    · split
      · exact ingestLoad_acts hundo
      · refine raise_acts (detach_acts o) fun _ => ingestLoad_acts fun hfan hback => ?_
        exact hundo (hdetach.1.symm.trans hfan) (hdetach.2 hback)

/-- The bound execution an `ExecuteQuery` runs, if it runs one, rolls back. -/
def QueryRollsBack (out : Bool) (a : ExecuteAnswer) (o : Owner) : Prop :=
  out = false ∧ o.stmt.hasBind = true ∧
    if o.stmt.ingestTable.isSome then o.fansOut = false ∧ RollsBack o.session a.ingest.bound
    else RollsBack o.session a.bound

theorem exec_acts {q : List Char} (ready : Ready o h) (query : o.stmt.query = some q) :
    Acts refused undone o o.exec ∧ Ready o.exec h := by
  have hexec : o.exec =
      ⟨o.session.log (if o.stmt.prepared then .execute h else .execDirect h q), o.stmt⟩ := by
    unfold Owner.exec
    split <;> simp_all [ready.ref]
  rw [hexec]
  refine ⟨.single ?_, ready.log _⟩
  split
  · rename_i hprep
    exact .execute h ready hprep
  · rename_i hprep
    exact .execDirect h q ready query (by simpa using hprep)

theorem runQuery_acts {out : Bool} {a : ExecuteAnswer} {q : List Char} (ready : Ready o h)
    (query : o.stmt.query = some q) : Acts refused undone o (runQuery out a o).1 := by
  have hready : Ready ⟨o.session, { o.stmt with executed := true }⟩ h :=
    ⟨ready.ref, ready.alone, ready.epoch⟩
  have hexecuted := @settle_acts refused undone o
    (s := { o.stmt with executed := true }) ⟨rfl, rfl, rfl, rfl⟩
  obtain ⟨hacts, hready'⟩ := @exec_acts refused undone _ _ _ hready query
  refine raise_acts (hexecuted.trans hacts) fun _ => ?_
  split
  · exact readerInit_acts hready'
  · exact .refl

theorem executeQuery_acts {out : Bool} {a : ExecuteAnswer}
    (hundo : QueryRollsBack out a o → undone) :
    Acts refused undone o (executeQuery out a o).1 := by
  unfold executeQuery
  split
  · rename_i target htarget
    split
    · exact .refl
    · rename_i hout
      refine ingest_acts fun hbind hfan hback => hundo ⟨by simpa using hout, hbind, ?_⟩
      simp [htarget, hfan, hback]
  · rename_i htarget
    split
    · exact .refl
    · rename_i hquery
      obtain ⟨q, query⟩ : ∃ q, o.stmt.query = some q := by
        cases hq : o.stmt.query <;> simp_all
      split
      · rename_i hbind
        refine executeBound_acts query fun hout hback => hundo ⟨hout, hbind, ?_⟩
        simpa [htarget] using hback
      · have hpromote : ∃ r : Step,
            (if o.stmt.prepareRequested && o.stmt.executed && !o.stmt.prepared then
              doPrepare a.prepare o else (o, none)) = r ∧
            Acts refused undone o r.1 ∧ (r.2 = none → r.1.stmt.query = some q) := by
          refine ⟨_, rfl, ?_⟩
          split
          · exact doPrepare_acts query
          · exact ⟨.refl, fun _ => query⟩
        obtain ⟨r, hr, hracts, hrquery⟩ := hpromote
        simp only [hr]
        refine raise_acts hracts fun hpromoted => ?_
        obtain ⟨hacts, hensured⟩ := ensureHandle_acts a.ensure r.1
        refine raise_acts hacts fun hnone => ?_
        obtain ⟨⟨h, ready⟩, hquery', -⟩ := hensured hnone
        exact runQuery_acts ready (hquery'.trans (hrquery hpromoted))

theorem setSqlQuery_acts (q : List Char) : Acts refused undone o (setSqlQuery q o) :=
  .tail (.single (.rewrite q)) (.settle _ ⟨rfl, rfl, rfl, rfl⟩)

theorem prepare_acts {a : EnsureAnswer} : Acts refused undone o (prepare a o).1 := by
  unfold prepare
  split
  · exact .refl
  · exact raise_acts (ensureHandle_acts a o).1 fun _ => settle_acts ⟨rfl, rfl, rfl, rfl⟩

theorem describeQuery_acts {a : DescribeAnswer} :
    Acts refused undone o (describeQuery a o).1 := by
  unfold describeQuery
  cases hquery : o.stmt.query with
  | none => exact .refl
  | some q => exact raise_acts (doPrepare_acts hquery).1 fun _ => .refl

/-- `ExecutePartitions` gets a refusal from the `SQLPrepare` it issues for the schema, on
a handle that was prepared before. -/
def RefusesPrepared (schema : Bool) (a : PartitionsAnswer) (o : Owner) : Prop :=
  schema = true ∧ o.stmt.ingestTable = none ∧ o.stmt.hasBind = false ∧
    o.stmt.prepared = true ∧ o.givesUp a.ensure = false ∧ a.prepare ≠ none

theorem executePartitions_acts {schema : Bool} {a : PartitionsAnswer}
    (href : RefusesPrepared schema a o → refused) :
    Acts refused undone o (executePartitions schema a o).1 := by
  unfold executePartitions
  cases hquery : o.stmt.query with
  | none => exact .refl
  | some q =>
      simp only [Option.isNone_some, Bool.false_eq_true, if_false]
      split
      · exact .refl
      rename_i htable
      split
      · exact .refl
      rename_i hbind
      refine raise_acts ?_ fun _ => .refl
      split
      · rename_i hschema
        obtain ⟨hacts, hensured⟩ := ensureHandle_acts a.ensure o
        refine raise_acts hacts fun hnone => raise_acts ?_ fun _ => .refl
        obtain ⟨⟨h, ready⟩, hquery', hset⟩ := hensured hnone
        refine (prepareSql_acts ready (hquery'.trans hquery) fun hfails hp => href ?_).1
        exact ⟨hschema, by simpa using htable, by simpa using hbind, (hset hp).1, (hset hp).2,
          hfails⟩
      · exact .refl

end AdbcBridge.Statement.Moves
