import AdbcBridge.Statement.Moves
import AdbcBridge.Lib.History
import AdbcBridge.Lib.Run
import Mathlib

/-!
# Who holds a handle

In every state a run reaches, a handle is held by at most one statement, its reference
count is one for the statement and what the open streams over it hold, and the log of
calls knows every handle and every open stream.
-/

namespace AdbcBridge.Statement.Ownership

open AdbcBridge.Adbc AdbcBridge.Lib AdbcBridge.Statement.Handle AdbcBridge.Statement.Moves
open Relation

/-- The references the open streams hold to a handle. -/
def streamRefs (l : List ResultStream) (h : Nat) : Nat :=
  (l.map fun r => if r.ref = h then r.reader.refs else 0).sum

def Holds (w : World) (i h : Nat) : Prop := ∃ s, w.stmts i = some s ∧ s.ref = some h

structure Owned (w : World) : Prop where
  held_lt : ∀ i h, Holds w i h → h < w.session.handles
  apart : ∀ i j h, Holds w i h → Holds w j h → i = j
  counted : ∀ i h, Holds w i h → w.session.refcount h = 1 + streamRefs w.session.streams h
  stream_lt : ∀ r ∈ w.session.streams, r.ref < w.session.handles
  ids : (w.session.streams.map (·.id)).Nodup
  id_lt : ∀ r ∈ w.session.streams, r.id < w.session.opened
  known : ∀ h, .alloc h ∈ w.session.calls ↔ h < w.session.handles
  listed : ∀ id h, .openStream id h ∈ w.session.calls → .closeStream id ∉ w.session.calls →
    ∃ r ∈ w.session.streams, r.id = id ∧ r.ref = h

/-! ## Streams -/

theorem streamRefs_append (l m : List ResultStream) (h : Nat) :
    streamRefs (l ++ m) h = streamRefs l h + streamRefs m h := by
  simp [streamRefs]

theorem streamRefs_eq_zero {l : List ResultStream} {h : Nat} :
    streamRefs l h = 0 ↔ ∀ r ∈ l, r.ref ≠ h := by
  have hpos : ∀ reader : Reader, reader.refs ≠ 0 := by
    intro reader
    cases reader with
    | odbc => simp [Reader.refs]
    | bound inner => cases inner <;> simp [Reader.refs]
  simp [streamRefs, List.sum_eq_zero_iff_forall_eq_nat, hpos]

theorem streamRefs_filter {l : List ResultStream} {r : ResultStream}
    (hids : (l.map (·.id)).Nodup) (hr : r ∈ l) (h : Nat) :
    streamRefs (l.filter (·.id ≠ r.id)) h + (if r.ref = h then r.reader.refs else 0) =
      streamRefs l h := by
  induction l with
  | nil => simp at hr
  | cons s l ih =>
      rw [List.map_cons, List.nodup_cons] at hids
      rcases List.mem_cons.1 hr with rfl | hr
      · have hrest : l.filter (·.id ≠ r.id) = l := by
          rw [List.filter_eq_self]
          intro t ht
          have : t.id ≠ r.id := fun heq => hids.1 (heq ▸ List.mem_map_of_mem ht)
          simpa using this
        rw [List.filter_cons_of_neg (by simp), hrest]
        simp [streamRefs, Nat.add_comm]
      · have hne : s.id ≠ r.id := fun heq => hids.1 (heq ▸ List.mem_map_of_mem hr)
        rw [List.filter_cons_of_pos (by simpa using hne)]
        have := ih hids.2 hr
        simp only [streamRefs, List.map_cons, List.sum_cons] at this ⊢
        omega

theorem setReader_id (id : Nat) (reader : Reader) (s : ResultStream) :
    (setReader id reader s).id = s.id := by
  unfold setReader
  split <;> rfl

theorem setReader_ref (id : Nat) (reader : Reader) (s : ResultStream) :
    (setReader id reader s).ref = s.ref := by
  unfold setReader
  split <;> rfl

theorem streamRefs_setReader {l : List ResultStream} {r : ResultStream} (reader : Reader)
    (hids : (l.map (·.id)).Nodup) (hr : r ∈ l) (h : Nat) :
    streamRefs (l.map (setReader r.id reader)) h +
        (if r.ref = h then r.reader.refs else 0) =
      streamRefs l h + (if r.ref = h then reader.refs else 0) := by
  induction l with
  | nil => simp at hr
  | cons s l ih =>
      rw [List.map_cons, List.nodup_cons] at hids
      rcases List.mem_cons.1 hr with rfl | hr
      · have hrest : l.map (setReader r.id reader) = l := by
          conv_rhs => rw [← List.map_id l]
          refine List.map_congr_left fun t ht => ?_
          have : t.id ≠ r.id := fun heq => hids.1 (heq ▸ List.mem_map_of_mem ht)
          simp [setReader, this]
        simp only [List.map_cons, hrest, streamRefs, List.sum_cons, setReader, if_true]
        omega
      · have hne : s.id ≠ r.id := fun heq => hids.1 (heq ▸ List.mem_map_of_mem hr)
        have := ih hids.2 hr
        simp only [streamRefs, List.map_cons, List.sum_cons, setReader, if_neg hne] at this ⊢
        omega

/-! ## Steps of a statement -/

section Steps

variable {w : World} {i : Nat} {o o' : Owner} {refused undone : Prop}

theorem holds_put {j h : Nat} :
    Holds (w.put i o) j h ↔ if j = i then o.stmt.ref = some h else Holds w j h := by
  by_cases hij : j = i
  · simp [Holds, World.put, hij]
  · simp [Holds, World.put, hij]

theorem holds_self {h : Nat} (ref : o.stmt.ref = some h) : Holds (w.put i o) i h :=
  holds_put.2 (by simpa using ref)

/-- A call that neither allocates a handle nor opens a stream. -/
def Plain : Call → Bool
  | .alloc _ | .openStream _ _ => false
  | _ => true

/-- Calls on handles that are already there. -/
theorem Owned.log (own : Owned (w.put i o)) {s : OdbcStatement} (ref : s.ref = o.stmt.ref)
    {m : List Call} (hm : ∀ c ∈ m, Plain c = true) :
    Owned (w.put i ⟨{ o.session with calls := o.session.calls ++ m }, s⟩) := by
  have hholds : ∀ j h, Holds (w.put i ⟨{ o.session with calls := o.session.calls ++ m }, s⟩) j h →
      Holds (w.put i o) j h := by
    intro j h hj
    rw [holds_put] at hj ⊢
    simpa only [ref] using hj
  refine ⟨fun j h hj => own.held_lt j h (hholds j h hj),
    fun j k h hj hk => own.apart j k h (hholds j h hj) (hholds k h hk),
    fun j h hj => own.counted j h (hholds j h hj), own.stream_lt, own.ids, own.id_lt, ?_, ?_⟩
  · intro h
    have hnot : Call.alloc h ∉ m := fun hmem => by simpa [Plain] using hm _ hmem
    simpa [World.put, hnot] using own.known h
  · intro id h hopen hclosed
    have hnot : Call.openStream id h ∉ m := fun hmem => by simpa [Plain] using hm _ hmem
    simp only [World.put, List.mem_append, hnot, or_false, not_or] at hopen hclosed
    exact own.listed id h hopen hclosed.1

theorem Owned.settle (own : Owned (w.put i o)) {s : OdbcStatement} (ref : s.ref = o.stmt.ref) :
    Owned (w.put i ⟨o.session, s⟩) := by
  have hlog : ({ o.session with calls := o.session.calls ++ [] } : Session) = o.session := by
    simp
  have := own.log ref (m := []) (by simp)
  rwa [hlog] at this

theorem Owned.detach (own : Owned (w.put i o)) {h : Nat} (ref : o.stmt.ref = some h) :
    Owned (w.put i o.detach) := by
  have hdetach : o.detach =
      ⟨o.session.release h, { o.stmt with ref := none, prepared := false }⟩ := by
    simp [Owner.detach, ref]
  have hholds : ∀ j k, Holds (w.put i o.detach) j k → j ≠ i ∧ Holds (w.put i o) j k := by
    intro j k hj
    rw [holds_put] at hj ⊢
    by_cases hij : j = i
    · simp [hij, detach_ref] at hj
    · exact ⟨hij, by simpa only [if_neg hij] using hj⟩
  refine ⟨fun j k hj => ?_, fun j k g hj hk => own.apart j k g (hholds j g hj).2 (hholds k g hk).2,
    fun j k hj => ?_, ?_, ?_, ?_, ?_, ?_⟩
  all_goals rw [hdetach] at *
  · exact own.held_lt j k (hholds j k hj).2
  · obtain ⟨hji, hjk⟩ := hholds j k hj
    have hkh : k ≠ h := fun heq => hji (own.apart j i k hjk (heq ▸ holds_self ref))
    simpa [World.put, Session.release, hkh] using own.counted j k hjk
  · exact own.stream_lt
  · exact own.ids
  · exact own.id_lt
  · exact own.known
  · exact own.listed

/-- A fresh handle, with this reference count, for whoever takes it. -/
theorem Owned.fresh (own : Owned (w.put i o)) {s : OdbcStatement} (n : Nat) {e : Nat}
    (ref : s.ref = o.stmt.ref ∨ o.stmt.ref = none ∧ s.ref = some o.session.handles ∧ n = 1) :
    Owned (w.put i ⟨{ o.session with
      rollbackEpoch := e
      refcount := Function.update o.session.refcount o.session.handles n
      handles := o.session.handles + 1
      calls := o.session.calls ++ [.alloc o.session.handles] }, s⟩) := by
  have hstream : streamRefs o.session.streams o.session.handles = 0 :=
    streamRefs_eq_zero.2 fun r hr => (own.stream_lt r hr).ne
  -- Every other handle was there before.
  have hholds : ∀ {c : Session} {j k}, Holds (w.put i ⟨c, s⟩) j k →
      Holds (w.put i o) j k ∨ j = i ∧ k = o.session.handles ∧ n = 1 ∧ o.stmt.ref = none := by
    intro c j k hj
    rw [holds_put] at hj ⊢
    by_cases hij : j = i
    · simp only [hij, if_true] at hj ⊢
      rcases ref with ref | ⟨hnone, hsome, hn⟩
      · exact .inl (ref ▸ hj)
      · rw [hsome, Option.some.injEq] at hj
        exact .inr ⟨trivial, hj.symm, hn, hnone⟩
    · exact .inl (by simpa only [if_neg hij] using hj)
  have hlt : ∀ j k, Holds (w.put i o) j k → k < o.session.handles := own.held_lt
  refine ⟨fun j k hj => ?_, fun j g k hj hg => ?_, fun j k hj => ?_, fun r hr => ?_, own.ids,
    own.id_lt, fun h => ?_, fun id h hopen hclosed => ?_⟩
  · rcases hholds hj with hj | ⟨-, rfl, -⟩
    · exact Nat.lt_succ_of_lt (hlt j k hj)
    · exact Nat.lt_succ_self _
  · rcases hholds hj with hj | ⟨rfl, rfl, -⟩ <;> rcases hholds hg with hg | ⟨rfl, hk, -⟩
    · exact own.apart j g k hj hg
    · exact absurd (hk ▸ hlt j k hj) (Nat.lt_irrefl _)
    · exact absurd (hlt g _ hg) (Nat.lt_irrefl _)
    · rfl
  · rcases hholds hj with hj | ⟨-, rfl, rfl, -⟩
    · have hne : k ≠ o.session.handles := (hlt j k hj).ne
      simpa [World.put, hne] using own.counted j k hj
    · simp [World.put, hstream]
  · exact Nat.lt_succ_of_lt (own.stream_lt r hr)
  · have := own.known h
    simp only [World.put] at this
    simp only [World.put, List.mem_append, this, List.mem_singleton, Call.alloc.injEq]
    omega
  · simp only [World.put, List.mem_append, List.mem_singleton, reduceCtorEq, or_false]
      at hopen hclosed
    exact own.listed id h hopen hclosed

theorem Owned.open (own : Owned (w.put i o)) {h : Nat} (ref : o.stmt.ref = some h)
    (reader : Reader) : Owned (w.put i ⟨openReader o.session h reader, o.stmt⟩) := by
  have hlt : h < o.session.handles := own.held_lt i h (holds_self ref)
  have hholds : ∀ j k, Holds (w.put i ⟨openReader o.session h reader, o.stmt⟩) j k →
      Holds (w.put i o) j k := by
    intro j k hj
    rw [holds_put] at hj ⊢
    exact hj
  have hids := own.ids
  have hid := own.id_lt
  simp only [World.put] at hids hid
  refine ⟨fun j k hj => own.held_lt j k (hholds j k hj),
    fun j g k hj hg => own.apart j g k (hholds j k hj) (hholds g k hg),
    fun j k hj => ?_, fun r hr => ?_, ?_, fun r hr => ?_, fun k => ?_,
    fun id k hopen hclosed => ?_⟩
  · have := own.counted j k (hholds j k hj)
    simp only [World.put] at this
    simp only [World.put, openReader, Session.openStream, streamRefs_append]
    by_cases hk : k = h
    · subst hk
      simp [streamRefs] at this ⊢
      omega
    · simp [hk, this, streamRefs, Ne.symm hk]
  · simp only [World.put, openReader, Session.openStream, List.mem_append, List.mem_singleton]
      at hr ⊢
    rcases hr with hr | rfl
    · exact own.stream_lt r hr
    · exact hlt
  · simp only [World.put, openReader, Session.openStream, List.map_append, List.map_cons,
      List.map_nil]
    rw [List.nodup_append]
    refine ⟨hids, by simp, ?_⟩
    intro a ha b hb
    obtain ⟨r, hr, rfl⟩ := List.mem_map.1 ha
    rw [List.mem_singleton] at hb
    exact hb ▸ (hid r hr).ne
  · simp only [World.put, openReader, Session.openStream, List.mem_append, List.mem_singleton]
      at hr ⊢
    rcases hr with hr | rfl
    · exact Nat.lt_succ_of_lt (hid r hr)
    · exact Nat.lt_succ_self _
  · have := own.known k
    simp only [World.put] at this
    simp [World.put, openReader, Session.openStream, this]
  · simp only [World.put, openReader, Session.openStream, List.mem_append, List.mem_singleton,
      reduceCtorEq, or_false, Call.openStream.injEq] at hopen hclosed ⊢
    rcases hopen with hopen | ⟨rfl, rfl⟩
    · obtain ⟨r, hr, hrid⟩ := own.listed id k hopen hclosed
      exact ⟨r, .inl hr, hrid⟩
    · exact ⟨_, .inr rfl, rfl, rfl⟩

theorem Owned.act (own : Owned (w.put i o)) (hact : Act refused undone o o') :
    Owned (w.put i o') := by
  cases hact with
  | settle s hold => exact own.settle hold.ref
  | rewrite q => exact own.settle rfl
  | detach h ref => exact own.detach ref
  | waste ref =>
      have := own.fresh 0 (e := o.session.rollbackEpoch) (.inl rfl)
      simpa [Session.alloc, Session.release] using this
  | obtain ref =>
      have := own.fresh 1 (s := o.allocate.markReady.stmt) (e := o.session.rollbackEpoch)
        (.inr ⟨ref, rfl, rfl⟩)
      exact this
  | prepared h q =>
      exact own.log (s := { o.stmt with prepared := true }) (m := [.prepare h q true]) rfl
        (by simp [Plain])
  | refused h q => exact own.log rfl (by simp [Plain])
  | execDirect h q => exact own.log rfl (by simp [Plain])
  | execute h => exact own.log rfl (by simp [Plain])
  | undo => exact own.log rfl (by simp [Plain])
  | «open» h ready reader => exact own.open ready.ref reader

end Steps

/-! ## Steps of a run -/

/-- The operation is an `ExecutePartitions` whose `SQLPrepare` is refused on a handle
that was prepared before. -/
def Refuses (w : World) : Op → Prop
  | .executePartitions i schema a =>
      ∃ s, w.stmts i = some s ∧ RefusesPrepared schema a ⟨w.session, s⟩
  | _ => False

/-- The operation is a bound execution whose implicit transaction rolls back. -/
def Undoes (w : World) : Op → Prop
  | .executeQuery i out a => ∃ s, w.stmts i = some s ∧ QueryRollsBack out a ⟨w.session, s⟩
  | _ => False

/-- What one operation of a run does. -/
inductive Effect (refused undone : Prop) (w : World) (target : Option Nat) : World → Prop
  | statement (i : Nat) (s : OdbcStatement) (o : Owner) (hi : target = some i)
      (hs : w.stmts i = some s) (acts : Acts refused undone ⟨w.session, s⟩ o) :
      Effect refused undone w target (w.put i o)
  | idle : Effect refused undone w target w
  | newStatement (i : Nat) (hs : w.stmts i = none) :
      Effect refused undone w target { w with stmts := Function.update w.stmts i (some {}) }
  | releaseStatement (i : Nat) (s : OdbcStatement) (hs : w.stmts i = some s) :
      Effect refused undone w target
        ⟨(Owner.mk w.session s).detach.session, Function.update w.stmts i none⟩
  | getNext (r : ResultStream) (hr : r ∈ w.session.streams) (executes : Nat) (inner : Bool) :
      Effect refused undone w target { w with session := w.session.getNext r executes inner }
  | releaseStream (r : ResultStream) (hr : r ∈ w.session.streams) :
      Effect refused undone w target { w with session := w.session.releaseStream r }
  | setAutocommit (autocommit : Bool) :
      Effect refused undone w target { w with session := { w.session with autocommit } }
  | rollback :
      Effect refused undone w target { w with session :=
        { (w.session.log .rollback) with
          rollbackEpoch := (w.session.rollbackEpoch + 1) % 2 ^ 64 } }

theorem run_effect {refused undone : Prop} {w : World} {t : Option Nat} {i : Nat}
    {f : Owner → Owner} (hi : t = some i)
    (hf : ∀ s, w.stmts i = some s → Acts refused undone ⟨w.session, s⟩ (f ⟨w.session, s⟩)) :
    Effect refused undone w t (w.run i f) := by
  unfold World.run
  split
  · rename_i s hs
    exact .statement i s _ hi hs (hf s hs)
  · exact .idle

theorem stream_mem {w : World} {id : Nat} {r : ResultStream} (h : w.stream id = some r) :
    r ∈ w.session.streams :=
  List.mem_of_find?_eq_some h

theorem step_effect {refused undone : Prop} (w : World) (op : Op)
    (href : Refuses w op → refused) (hundo : Undoes w op → undone) :
    Effect refused undone w op.target (w.step op) := by
  cases op with
  | newStatement i =>
      simp only [World.step]
      split
      · exact .idle
      · rename_i hs
        exact .newStatement i (by simpa using hs)
  | releaseStatement i =>
      simp only [World.step, World.releaseStatement]
      split
      · rename_i s hs
        exact .releaseStatement i s hs
      · exact .idle
  | setSqlQuery i q => exact run_effect rfl fun s _ => setSqlQuery_acts q
  | setIngest i connections target mode =>
      exact run_effect rfl fun s _ => settle_acts ⟨rfl, rfl, rfl, rfl⟩
  | bindStream i => exact run_effect rfl fun s _ => settle_acts ⟨rfl, rfl, rfl, rfl⟩
  | prepare i a => exact run_effect (f := fun o => (prepare a o).1) rfl fun s _ => prepare_acts
  | executeQuery i out a =>
      exact run_effect (f := fun o => (executeQuery out a o).1) rfl fun s hs =>
        executeQuery_acts fun hback => hundo ⟨s, hs, hback⟩
  | executeSchema i a =>
      exact run_effect (f := fun o => (executeSchema a o).1) rfl fun s _ => describeQuery_acts
  | getParameterSchema i a =>
      exact run_effect (f := fun o => (getParameterSchema a o).1) rfl fun s _ => describeQuery_acts
  | executePartitions i schema a =>
      exact run_effect (f := fun o => (executePartitions schema a o).1) rfl fun s hs =>
        executePartitions_acts fun hback => href ⟨s, hs, hback⟩
  | getNext id executes inner =>
      simp only [World.step]
      split
      · rename_i r hr
        exact .getNext r (stream_mem hr) executes inner
      · exact .idle
  | releaseStream id =>
      simp only [World.step]
      split
      · rename_i r hr
        exact .releaseStream r (stream_mem hr)
      · exact .idle
  | setAutocommit autocommit accepted =>
      simp only [World.step]
      split
      · exact .setAutocommit autocommit
      · exact .idle
  | rollback succeeds =>
      simp only [World.step, Session.rollback]
      split
      · exact .idle
      · exact .rollback

/-- A statement and its connection, as the world holds them. -/
theorem put_self {w : World} {i : Nat} {s : OdbcStatement} (hs : w.stmts i = some s) :
    w.put i ⟨w.session, s⟩ = w := by
  simp [World.put, ← hs]

/-- What every step of a statement keeps is kept by any number of them. -/
theorem acts_keep {I : World → Prop} {refused undone : Prop} {w : World} {i : Nat}
    (hact : ∀ o o', I (w.put i o) → Act refused undone o o' → I (w.put i o'))
    {o o' : Owner} (hI : I (w.put i o)) (acts : Acts refused undone o o') : I (w.put i o') := by
  induction acts with
  | refl => exact hI
  | tail _ act ih => exact hact _ _ ih act

/-- Statements that hold no handle the others do not hold may come and go. -/
theorem Owned.restrict {w : World} (own : Owned w) {f : Nat → Option OdbcStatement}
    (hf : ∀ i h, Holds ⟨w.session, f⟩ i h → Holds w i h) : Owned ⟨w.session, f⟩ where
  held_lt i h hi := own.held_lt i h (hf i h hi)
  apart i j h hi hj := own.apart i j h (hf i h hi) (hf j h hj)
  counted i h hi := own.counted i h (hf i h hi)
  stream_lt := own.stream_lt
  ids := own.ids
  id_lt := own.id_lt
  known := own.known
  listed := own.listed

theorem holds_update_none {c : Session} {f : Nat → Option OdbcStatement} {s : OdbcStatement}
    {i j h : Nat} (hs : s.ref = none) (o : Option OdbcStatement) (ho : o = none ∨ o = some s)
    (hold : Holds ⟨c, Function.update f i o⟩ j h) : j ≠ i ∧ Holds ⟨c, f⟩ j h := by
  obtain ⟨t, ht, ref⟩ := hold
  by_cases hij : j = i
  · subst hij
    simp only [Function.update_self] at ht
    rcases ho with rfl | rfl
    · simp at ht
    · simp only [Option.some.injEq] at ht
      simp [← ht, hs] at ref
  · exact ⟨hij, t, by simpa [hij] using ht, ref⟩

/-- `getNext` of a `BoundReader`, as one update. -/
theorem getNext_bound {c : Session} {r : ResultStream} {wasOpen : Bool} (executes : Nat)
    (inner : Bool) (hreader : r.reader = .bound wasOpen) :
    c.getNext r executes inner =
      { c with
        refcount := Function.update c.refcount r.ref
          (c.refcount r.ref - (if wasOpen then 1 else 0) + if inner then 1 else 0)
        streams := c.streams.map (setReader r.id (.bound inner))
        calls := c.calls ++ List.replicate executes (.streamExecute r.ref) } := by
  cases wasOpen <;> cases inner <;>
    simp [Session.getNext, hreader, Session.release, Session.retain]

/-- A reader's stream returns and takes references. -/
theorem Owned.getNext {w : World} (own : Owned w) {r : ResultStream}
    (hr : r ∈ w.session.streams) (executes : Nat) (inner : Bool) :
    Owned { w with session := w.session.getNext r executes inner } := by
  cases hreader : r.reader with
  | odbc => simpa [Session.getNext, hreader] using own
  | bound wasOpen =>
      rw [getNext_bound executes inner hreader]
      have hmap := streamRefs_setReader (.bound inner) own.ids hr
      refine ⟨own.held_lt, own.apart, fun i h hi => ?_, ?_, ?_, ?_, fun h => ?_,
        fun id h hopen hclosed => ?_⟩
      · have hcount := own.counted i h hi
        have hrefs := hmap h
        by_cases hh : r.ref = h
        · subst hh
          simp only [if_true, hreader, Reader.refs] at hrefs
          simp only [Function.update_self]
          split <;> split <;> simp_all <;> omega
        · simp only [if_neg hh, Nat.add_zero] at hrefs
          simpa [Ne.symm hh, hrefs] using hcount
      · intro s hs
        obtain ⟨t, ht, rfl⟩ := List.mem_map.1 hs
        rw [setReader_ref]
        exact own.stream_lt t ht
      · have hids : (w.session.streams.map (setReader r.id (.bound inner))).map (·.id) =
            w.session.streams.map (·.id) := by
          simp [List.map_map, Function.comp_def, setReader_id]
        rw [hids]
        exact own.ids
      · intro s hs
        obtain ⟨t, ht, rfl⟩ := List.mem_map.1 hs
        rw [setReader_id]
        exact own.id_lt t ht
      · simpa using own.known h
      · simp only [List.mem_append, List.mem_replicate, reduceCtorEq, and_false, or_false]
          at hopen hclosed
        obtain ⟨t, ht, htid, htref⟩ := own.listed id h hopen hclosed
        exact ⟨_, List.mem_map_of_mem ht, (setReader_id ..).trans htid,
          (setReader_ref ..).trans htref⟩

theorem Owned.releaseStream {w : World} (own : Owned w) {r : ResultStream}
    (hr : r ∈ w.session.streams) :
    Owned { w with session := w.session.releaseStream r } := by
  have hfilter := streamRefs_filter own.ids hr
  have hmem : ∀ s ∈ w.session.streams.filter (·.id ≠ r.id), s ∈ w.session.streams :=
    fun s hs => List.mem_of_mem_filter hs
  refine ⟨own.held_lt, own.apart, fun i h hi => ?_, fun s hs => own.stream_lt s (hmem s hs), ?_,
    fun s hs => own.id_lt s (hmem s hs), fun h => ?_, fun id h hopen hclosed => ?_⟩
  · have hcount := own.counted i h hi
    have hrefs := hfilter h
    simp only [Session.releaseStream]
    by_cases hh : r.ref = h
    · subst hh
      rw [Function.update_self]
      simp only [if_true] at hrefs
      omega
    · rw [Function.update_of_ne (Ne.symm hh)]
      simp only [if_neg hh] at hrefs
      omega
  · exact own.ids.sublist (List.filter_sublist.map _)
  · simpa [Session.releaseStream] using own.known h
  · simp only [Session.releaseStream, List.mem_append, List.mem_singleton, reduceCtorEq,
      or_false, not_or, Call.closeStream.injEq] at hopen hclosed
    obtain ⟨t, ht, htid, htref⟩ := own.listed id h hopen hclosed.1
    refine ⟨t, List.mem_filter.2 ⟨ht, ?_⟩, htid, htref⟩
    simpa [htid] using hclosed.2

/-- Every step of a run keeps the ownership. -/
theorem Owned.effect {refused undone : Prop} {w w' : World} (own : Owned w)
    {t : Option Nat}
    (heffect : Effect refused undone w t w') : Owned w' := by
  cases heffect with
  | statement i s o hi hs acts =>
      exact acts_keep (fun _ _ own act => own.act act) (by rwa [put_self hs]) acts
  | idle => exact own
  | newStatement i hs =>
      exact own.restrict fun j h hold => (holds_update_none rfl _ (.inr rfl) hold).2
  | releaseStatement i s hs =>
      have hdetach : Acts refused undone _ _ := detach_acts (Owner.mk w.session s)
      have hput : Owned (w.put i (Owner.mk w.session s).detach) :=
        acts_keep (fun _ _ own act => own.act act) (by rwa [put_self hs]) hdetach
      refine hput.restrict fun j h hold => ?_
      obtain ⟨hji, hold⟩ := holds_update_none (s := {}) rfl none (.inl rfl) hold
      rw [holds_put, if_neg hji]
      exact hold
  | getNext r hr executes inner => exact own.getNext hr executes inner
  | releaseStream r hr => exact own.releaseStream hr
  | setAutocommit autocommit => exact { own with }
  | rollback =>
      exact { own with
        known := fun h => by simpa [Session.log] using own.known h
        listed := fun id h hopen hclosed => own.listed id h (by simpa [Session.log] using hopen)
          (by simpa [Session.log] using hclosed) }

/-- A connection before its first statement. -/
def start (autocommit txnCapable : Bool) : World := ⟨{ autocommit, txnCapable }, fun _ => none⟩

/-- The steps of a run. -/
def Steps (w : World) (op : Op) (w' : World) : Prop := w' = w.step op

theorem owned_start (autocommit txnCapable : Bool) : Owned (start autocommit txnCapable) := by
  constructor <;> simp [start, Holds]

theorem owned_run {autocommit txnCapable : Bool} {trace : List Op} {w : World}
    (run : Run Steps (start autocommit txnCapable) trace w) : Owned w := by
  refine run.state_invariant (owned_start autocommit txnCapable) ?_
  rintro w op _ own rfl
  exact own.effect (@step_effect True True w op (fun _ => trivial) fun _ => trivial)

end AdbcBridge.Statement.Ownership
