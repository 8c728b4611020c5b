import AdbcBridge.Statement.ReadPartition

/-!
# How long a handle lives

The statements of a connection, its result streams and its `ReadPartition` calls in any order:
a statement handle lives as long as its statement or a stream holds it, is freed with the last of
them, and the driver is not called with it again.
-/

namespace AdbcBridge.Statement.Lifetimes

open AdbcBridge.Adbc AdbcBridge.Lib AdbcBridge.Statement.Handle AdbcBridge.Statement.Moves
open AdbcBridge.Statement.Ownership AdbcBridge.Statement.ReadPartition
open AdbcBridge.Partition.Slices (descriptor)

/-- An operation of a statement or a stream, or a `ReadPartition`. -/
inductive ConnectionOp where
  | statement (op : Op)
  | readPartition (connected out : Bool) (serialized : List Char) (a : ReadAnswer)

def next (w : World) : ConnectionOp → World
  | .statement op => w.step op
  | .readPartition connected out serialized a =>
      { w with session := (readPartition connected out serialized a w.session).1 }

def Nexts (w : World) (op : ConnectionOp) (w' : World) : Prop := w' = next w op

/-- The driver is called with the handle, or a stream takes it. -/
def Touches (h : Nat) : Call → Prop
  | .alloc k | .prepare k _ _ | .execDirect k _ | .execute k | .streamExecute k => k = h
  | .openStream _ k => k = h
  | _ => False

/-- The handle was allocated and nobody has it. -/
structure Gone (w : World) (h : Nat) : Prop where
  allocated : h < w.session.handles
  unheld : ∀ i, ¬Holds w i h
  unread : ∀ r ∈ w.session.streams, r.ref ≠ h

/-- Every reference count is what the statement and the streams hold. -/
structure Accounted (w : World) : Prop where
  owned : Owned w
  alone : ∀ h, (∀ i, ¬Holds w i h) → w.session.refcount h = streamRefs w.session.streams h

section Accounts

variable {w w' : World} {h i : Nat} {o o' : Owner} {refused undone : Prop}

theorem Accounted.freed_iff (acc : Accounted w) (hlt : h < w.session.handles) :
    w.session.refcount h = 0 ↔ Gone w h := by
  constructor
  · intro hzero
    have hunheld : ∀ i, ¬Holds w i h := by
      intro i hi
      have hcount := acc.owned.counted i h hi
      omega
    rw [acc.alone h hunheld] at hzero
    exact ⟨hlt, hunheld, streamRefs_eq_zero.mp hzero⟩
  · intro gone
    rw [acc.alone h gone.unheld]
    exact streamRefs_eq_zero.mpr gone.unread

/-! ## The accounts of a step -/

/-- A step that changes no count, no stream and no statement's handle. -/
theorem alone_same (acc : Accounted (w.put i o)) (hunheld : ∀ j, ¬Holds (w.put i o') j h)
    (href : o'.stmt.ref = o.stmt.ref) (hcount : o'.session.refcount = o.session.refcount)
    (hstreams : o'.session.streams = o.session.streams) :
    o'.session.refcount h = streamRefs o'.session.streams h := by
  rw [hcount, hstreams]
  apply acc.alone h
  intro j hj
  apply hunheld j
  rw [holds_put] at hj ⊢
  rw [href]
  exact hj

/-- The statement lets go of its handle. -/
theorem alone_detach (acc : Accounted (w.put i o)) {k : Nat} (ref : o.stmt.ref = some k)
    (hunheld : ∀ j, ¬Holds (w.put i o.detach) j h) :
    o.detach.session.refcount h = streamRefs o.detach.session.streams h := by
  have hdetach : o.detach.session = o.session.release k := by simp [Owner.detach, ref]
  rw [hdetach]
  by_cases hk : h = k
  · have hcount := acc.owned.counted i k (holds_self ref)
    rw [hk]
    simp only [World.put] at hcount
    simp [Session.release, hcount]
  · have hbefore : ∀ j, ¬Holds (w.put i o) j h := by
      intro j hj
      apply hunheld j
      rw [holds_put] at hj ⊢
      by_cases hji : j = i
      · rw [if_pos hji, ref, Option.some.injEq] at hj
        exact absurd hj.symm hk
      · rw [if_neg hji] at hj ⊢
        exact hj
    have halone := acc.alone h hbefore
    simpa [Session.release, hk, World.put] using halone

/-- A new handle that nobody had. -/
theorem streams_new (acc : Accounted w) :
    streamRefs w.session.streams w.session.handles = 0 :=
  streamRefs_eq_zero.mpr fun r hr => (acc.owned.stream_lt r hr).ne

theorem alone_waste (acc : Accounted (w.put i o))
    (hunheld : ∀ j, ¬Holds (w.put i ⟨o.session.alloc.release o.session.handles, o.stmt⟩) j h) :
    (o.session.alloc.release o.session.handles).refcount h =
      streamRefs (o.session.alloc.release o.session.handles).streams h := by
  have hnew := streams_new acc
  have halone := acc.alone h hunheld
  by_cases hh : h = o.session.handles
  · rw [hh]
    simpa [Session.alloc, Session.release, World.put] using hnew.symm
  · simpa [Session.alloc, Session.release, World.put, hh] using halone

theorem alone_obtain (acc : Accounted (w.put i o)) (ref : o.stmt.ref = none)
    (hunheld : ∀ j, ¬Holds (w.put i o.allocate.markReady) j h) :
    o.allocate.markReady.session.refcount h =
      streamRefs o.allocate.markReady.session.streams h := by
  have hh : h ≠ o.session.handles := by
    intro heq
    exact hunheld i (holds_self (congrArg some heq.symm))
  have hbefore : ∀ j, ¬Holds (w.put i o) j h := by
    intro j hj
    apply hunheld j
    rw [holds_put] at hj ⊢
    by_cases hji : j = i
    · rw [if_pos hji, ref] at hj
      exact nomatch hj
    · rw [if_neg hji] at hj ⊢
      exact hj
  have halone := acc.alone h hbefore
  simpa [Owner.allocate, Owner.markReady, Session.alloc, World.put, hh] using halone

theorem alone_open (acc : Accounted (w.put i o)) {k : Nat} (ref : o.stmt.ref = some k)
    (reader : Reader)
    (hunheld : ∀ j, ¬Holds (w.put i ⟨openReader o.session k reader, o.stmt⟩) j h) :
    (openReader o.session k reader).refcount h =
      streamRefs (openReader o.session k reader).streams h := by
  have hh : h ≠ k := by
    intro heq
    exact hunheld i (holds_self (heq ▸ ref))
  have halone := acc.alone h hunheld
  have hstream : streamRefs [⟨o.session.opened, k, reader⟩] h = 0 := by
    simp [streamRefs, hh.symm]
  rw [openReader, Session.openStream]
  dsimp only
  rw [Function.update_of_ne hh, streamRefs_append, hstream, Nat.add_zero]
  exact halone

theorem Accounted.act (acc : Accounted (w.put i o)) (hact : Act refused undone o o') :
    Accounted (w.put i o') := by
  refine ⟨acc.owned.act hact, ?_⟩
  intro h hunheld
  cases hact with
  | settle s hold => exact (alone_same acc hunheld hold.ref rfl rfl :)
  | rewrite q => exact (alone_same acc hunheld rfl rfl rfl :)
  | detach k ref => exact alone_detach acc ref hunheld
  | waste ref => exact alone_waste acc hunheld
  | obtain ref => exact alone_obtain acc ref hunheld
  | prepared | refused | execDirect | execute | undo => exact (alone_same acc hunheld rfl rfl rfl :)
  | «open» k ready reader => exact alone_open acc ready.ref reader hunheld

theorem Accounted.acts (acc : Accounted (w.put i o)) (acts : Acts refused undone o o') :
    Accounted (w.put i o') :=
  acts_keep (fun _ _ acc act => acc.act act) acc acts

/-- Statements without a handle come and go. -/
theorem Accounted.restrict (acc : Accounted w) {f : Nat → Option OdbcStatement}
    (hf : ∀ i h, Holds ⟨w.session, f⟩ i h ↔ Holds w i h) : Accounted ⟨w.session, f⟩ where
  owned := acc.owned.restrict fun i h => (hf i h).mp
  alone := by
    intro h hunheld
    exact acc.alone h fun i hi => hunheld i ((hf i h).mpr hi)

theorem Accounted.releaseStatement (acc : Accounted w) {s : OdbcStatement}
    (hs : w.stmts i = some s) :
    Accounted ⟨(Owner.mk w.session s).detach.session, Function.update w.stmts i none⟩ := by
  have hacts : Acts True True _ _ := detach_acts (Owner.mk w.session s)
  have hput := Accounted.acts (by rwa [put_self hs]) hacts
  have hnone : (Owner.mk w.session s).detach.stmt.ref = none := detach_ref _
  refine Accounted.restrict hput ?_
  intro j h
  rw [holds_put]
  by_cases hji : j = i
  · simp [Holds, hji, hnone]
  · simp [Holds, hji]

theorem Accounted.newStatement (acc : Accounted w) (hs : w.stmts i = none) :
    Accounted { w with stmts := Function.update w.stmts i (some {}) } := by
  refine acc.restrict ?_
  intro j h
  by_cases hji : j = i
  · simp [Holds, hji, hs]
  · simp [Holds, hji]

/-- A bound reader holds one reference more while an inner reader is open. -/
theorem bound_refs (inner : Bool) :
    (Reader.bound inner).refs = 1 + if inner then 1 else 0 := by
  cases inner <;> rfl

theorem Accounted.getNext (acc : Accounted w) {r : ResultStream} (hr : r ∈ w.session.streams)
    (executes : Nat) (inner : Bool) :
    Accounted { w with session := w.session.getNext r executes inner } := by
  refine ⟨acc.owned.getNext hr executes inner, ?_⟩
  intro h hunheld
  have halone := acc.alone h hunheld
  cases hreader : r.reader with
  | odbc => simpa [Session.getNext, hreader] using halone
  | bound wasOpen =>
      have hrefs := streamRefs_setReader (.bound inner) acc.owned.ids hr h
      rw [getNext_bound executes inner hreader]
      dsimp only
      by_cases hh : r.ref = h
      · have hkept := streamRefs_filter acc.owned.ids hr h
        rw [if_pos hh, hreader] at hrefs hkept
        rw [if_pos hh] at hrefs
        rw [← hh, Function.update_self]
        rw [← hh] at hrefs hkept halone
        rw [bound_refs, bound_refs] at hrefs
        rw [bound_refs] at hkept
        omega
      · rw [if_neg hh, if_neg hh] at hrefs
        rw [Function.update_of_ne (Ne.symm hh), halone]
        omega

theorem Accounted.releaseStream (acc : Accounted w) {r : ResultStream}
    (hr : r ∈ w.session.streams) :
    Accounted { w with session := w.session.releaseStream r } := by
  refine ⟨acc.owned.releaseStream hr, ?_⟩
  intro h hunheld
  have halone := acc.alone h hunheld
  have hrefs := streamRefs_filter acc.owned.ids hr h
  simp only [Session.releaseStream]
  by_cases hh : r.ref = h
  · rw [← hh, Function.update_self]
    rw [if_pos hh] at hrefs
    rw [hh]
    omega
  · rw [Function.update_of_ne (Ne.symm hh)]
    rw [if_neg hh] at hrefs
    omega

theorem Accounted.effect (acc : Accounted w) {t : Option Nat}
    (heffect : Effect refused undone w t w') : Accounted w' := by
  cases heffect with
  | statement i s o hi hs acts => exact Accounted.acts (by rwa [put_self hs]) acts
  | idle => exact acc
  | newStatement i hs => exact acc.newStatement hs
  | releaseStatement i s hs => exact acc.releaseStatement hs
  | getNext r hr executes inner => exact acc.getNext hr executes inner
  | releaseStream r hr => exact acc.releaseStream hr
  | setAutocommit autocommit =>
      have howned := acc.owned
      exact ⟨{ howned with }, acc.alone⟩
  | rollback =>
      have hrollback : Effect True True w none _ := .rollback
      exact ⟨acc.owned.effect hrollback, acc.alone⟩

/-! ## The accounts of a partition -/

theorem Accounted.freed (acc : Accounted w) (sql : List Char) :
    Accounted ⟨freed w.session sql, w.stmts⟩ := by
  have own := acc.owned
  have hnew := streams_new acc
  refine ⟨⟨?_, own.apart, ?_, ?_, own.ids, own.id_lt, ?_, ?_⟩, ?_⟩
  · intro j k hj
    exact Nat.lt_succ_of_lt (own.held_lt j k hj)
  · intro j k hj
    exact (Function.update_of_ne (own.held_lt j k hj).ne _ _).trans (own.counted j k hj)
  · intro r hr
    exact Nat.lt_succ_of_lt (own.stream_lt r hr)
  · intro k
    have hknown := own.known k
    simp only [ReadPartition.freed, List.mem_append, hknown, List.mem_cons, Call.alloc.injEq,
      reduceCtorEq, List.not_mem_nil, or_false]
    omega
  · intro id k hopen hclosed
    simp only [ReadPartition.freed, List.mem_append, List.mem_cons, reduceCtorEq,
      List.not_mem_nil, or_false] at hopen hclosed
    exact own.listed id k hopen hclosed
  · intro k hunheld
    by_cases hk : k = w.session.handles
    · rw [hk]
      exact (Function.update_self _ _ _).trans hnew.symm
    · exact (Function.update_of_ne hk _ _).trans (acc.alone k hunheld)

theorem Accounted.streamed (acc : Accounted w) (sql : List Char) :
    Accounted ⟨streamed w.session sql, w.stmts⟩ := by
  have own := acc.owned
  have hnew := streams_new acc
  have hrefs : ∀ k, streamRefs (ReadPartition.streamed w.session sql).streams k =
      streamRefs w.session.streams k + if w.session.handles = k then 1 else 0 := by
    intro k
    rw [ReadPartition.streamed, streamRefs_append]
    simp [streamRefs, Reader.refs]
  refine ⟨⟨?_, own.apart, ?_, ?_, ?_, ?_, ?_, ?_⟩, ?_⟩
  · intro j k hj
    exact Nat.lt_succ_of_lt (own.held_lt j k hj)
  · intro j k hj
    have hk : k ≠ w.session.handles := (own.held_lt j k hj).ne
    rw [hrefs, if_neg hk.symm]
    exact (Function.update_of_ne hk _ _).trans (own.counted j k hj)
  · intro r hr
    rw [ReadPartition.streamed, List.mem_append, List.mem_singleton] at hr
    cases hr with
    | inl hr => exact Nat.lt_succ_of_lt (own.stream_lt r hr)
    | inr hr => exact hr ▸ Nat.lt_succ_self _
  · rw [ReadPartition.streamed, List.map_append, List.nodup_append]
    refine ⟨own.ids, List.nodup_singleton _, ?_⟩
    intro a ha b hb
    obtain ⟨r, hr, hra⟩ := List.mem_map.mp ha
    rw [List.map_singleton, List.mem_singleton] at hb
    rw [hb, ← hra]
    exact (own.id_lt r hr).ne
  · intro r hr
    rw [ReadPartition.streamed, List.mem_append, List.mem_singleton] at hr
    cases hr with
    | inl hr => exact Nat.lt_succ_of_lt (own.id_lt r hr)
    | inr hr => exact hr ▸ Nat.lt_succ_self _
  · intro k
    have hknown := own.known k
    simp only [ReadPartition.streamed, List.mem_append, hknown, List.mem_cons, Call.alloc.injEq,
      reduceCtorEq, List.not_mem_nil, or_false]
    omega
  · intro id k hopen hclosed
    simp only [ReadPartition.streamed, List.mem_append, List.mem_cons, reduceCtorEq,
      Call.openStream.injEq, List.not_mem_nil, or_false, false_or] at hopen hclosed
    rw [ReadPartition.streamed]
    cases hopen with
    | inl hopen =>
        obtain ⟨r, hr, hrid⟩ := own.listed id k hopen hclosed
        exact ⟨r, List.mem_append_left _ hr, hrid⟩
    | inr hopen =>
        exact ⟨_, List.mem_append_right _ (List.mem_singleton_self _), hopen.1.symm,
          hopen.2.symm⟩
  · intro k hunheld
    rw [hrefs]
    by_cases hk : k = w.session.handles
    · rw [hk, hnew, if_pos rfl]
      exact Function.update_self _ _ _
    · rw [if_neg (Ne.symm hk)]
      exact (Function.update_of_ne hk _ _).trans (acc.alone k hunheld)

theorem Accounted.next (acc : Accounted w) (op : ConnectionOp) : Accounted (next w op) := by
  cases op with
  | statement op =>
      exact acc.effect (@step_effect True True w op (fun _ => trivial) fun _ => trivial)
  | readPartition connected out serialized a =>
      unfold Lifetimes.next
      dsimp only
      rcases readPartition_cases w.session connected out serialized a with hfails | ⟨sql, -, hgoes⟩
      · rw [hfails.1]
        exact acc
      · rw [hgoes]
        rcases streamPartition_cases w.session sql a with hfreed | hstreamed
        · rw [hfreed.1]
          exact acc.freed sql
        · rw [hstreamed.1]
          exact acc.streamed sql

theorem accounted_run {autocommit txnCapable : Bool} {trace : List ConnectionOp}
    (run : Run Nexts (start autocommit txnCapable) trace w) : Accounted w := by
  apply run.state_invariant
  · refine ⟨owned_start autocommit txnCapable, ?_⟩
    intro h _
    rfl
  · intro w op w' acc hnext
    rw [hnext]
    exact acc.next op

/-! ## A freed handle is not used again -/

/-- The calls that come on top do not touch the handle. -/
def Untouched (h : Nat) (c c' : Session) : Prop :=
  ∃ later, c'.calls = c.calls ++ later ∧ ∀ call ∈ later, ¬Touches h call

theorem Untouched.refl (h : Nat) (c : Session) : Untouched h c c :=
  ⟨[], (List.append_nil _).symm, fun _ hmem => absurd hmem List.not_mem_nil⟩

theorem Untouched.trans {c c' c'' : Session} (first : Untouched h c c')
    (second : Untouched h c' c'') : Untouched h c c'' := by
  obtain ⟨later, hcalls, htouch⟩ := first
  obtain ⟨more, hcalls', htouch'⟩ := second
  refine ⟨later ++ more, ?_, ?_⟩
  · rw [hcalls', hcalls, List.append_assoc]
  · intro call hcall
    rw [List.mem_append] at hcall
    exact hcall.elim (htouch call) (htouch' call)

theorem Untouched.one {c c' : Session} {call : Call} (hcalls : c'.calls = c.calls ++ [call])
    (htouch : ¬Touches h call) : Untouched h c c' := by
  refine ⟨[call], hcalls, ?_⟩
  intro x hx
  rw [List.mem_singleton] at hx
  exact hx ▸ htouch

theorem Gone.stays (gone : Gone w h) (hhandles : w.session.handles ≤ w'.session.handles)
    (hholds : ∀ j, Holds w' j h → Holds w j h)
    (hstreams : ∀ r ∈ w'.session.streams, r.ref = h → ∃ t ∈ w.session.streams, t.ref = h) :
    Gone w' h where
  allocated := gone.allocated.trans_le hhandles
  unheld := fun j hj => gone.unheld j (hholds j hj)
  unread := by
    intro r hr href
    obtain ⟨t, ht, htref⟩ := hstreams r hr href
    exact gone.unread t ht htref

theorem Gone.ne_held (gone : Gone (w.put i o) h) {k : Nat} (ref : o.stmt.ref = some k) : k ≠ h :=
  fun heq => gone.unheld i (holds_self (heq ▸ ref))

/-- A step whose statement keeps its handle. -/
theorem Gone.keeps (gone : Gone (w.put i o) h) (href : o'.stmt.ref = o.stmt.ref)
    (hhandles : o'.session.handles = o.session.handles)
    (hstreams : o'.session.streams = o.session.streams) : Gone (w.put i o') h := by
  refine gone.stays hhandles.ge ?_ fun r hr href => ⟨r, hstreams ▸ hr, href⟩
  intro j hj
  rw [holds_put] at hj ⊢
  rw [← href]
  exact hj

theorem Gone.detach (gone : Gone (w.put i o) h) {k : Nat} (ref : o.stmt.ref = some k) :
    Gone (w.put i o.detach) h ∧ Untouched h o.session o.detach.session := by
  have hdetach : o.detach.session = o.session.release k := by simp [Owner.detach, ref]
  have hhandles : o.detach.session.handles = o.session.handles := by
    rw [hdetach]
    rfl
  refine ⟨gone.stays hhandles.ge ?_ ?_, ?_⟩
  · intro j hj
    rw [holds_put] at hj ⊢
    by_cases hji : j = i
    · rw [if_pos hji, detach_ref] at hj
      cases hj
    · rw [if_neg hji] at hj ⊢
      exact hj
  · intro r hr href
    rw [World.put, hdetach] at hr
    exact ⟨r, hr, href⟩
  · rw [hdetach]
    exact ⟨[], (List.append_nil _).symm, fun _ hmem => absurd hmem List.not_mem_nil⟩

theorem Gone.act (gone : Gone (w.put i o) h) (hact : Act refused undone o o') :
    Gone (w.put i o') h ∧ Untouched h o.session o'.session := by
  have hfresh : o.session.handles ≠ h := gone.allocated.ne'
  cases hact with
  | settle s hold => exact ⟨gone.keeps hold.ref rfl rfl, .refl h _⟩
  | rewrite q => exact ⟨gone.keeps rfl rfl rfl, .refl h _⟩
  | detach k ref => exact gone.detach ref
  | waste ref =>
      exact ⟨gone.stays (Nat.le_succ _) (fun _ hj => hj) fun r hr href => ⟨r, hr, href⟩,
        .one rfl hfresh⟩
  | obtain ref =>
      refine ⟨gone.stays (Nat.le_succ _) ?_ fun r hr href => ⟨r, hr, href⟩, .one rfl hfresh⟩
      intro j hj
      rw [holds_put] at hj ⊢
      by_cases hji : j = i
      · rw [if_pos hji] at hj
        exact absurd (Option.some.inj hj) hfresh
      · rw [if_neg hji] at hj ⊢
        exact hj
  | prepared k q ready =>
      exact ⟨gone.keeps rfl rfl rfl, .one rfl (gone.ne_held ready.ref)⟩
  | refused k q ready =>
      exact ⟨gone.keeps rfl rfl rfl, .one rfl (gone.ne_held ready.ref)⟩
  | execDirect k q ready =>
      exact ⟨gone.keeps rfl rfl rfl, .one rfl (gone.ne_held ready.ref)⟩
  | execute k ready =>
      exact ⟨gone.keeps rfl rfl rfl, .one rfl (gone.ne_held ready.ref)⟩
  | undo => exact ⟨gone.keeps rfl rfl rfl, .one rfl not_false⟩
  | «open» k ready reader =>
      have hk := gone.ne_held ready.ref
      refine ⟨gone.stays le_rfl (fun _ hj => hj) ?_, .one rfl hk⟩
      intro r hr href
      rw [World.put, openReader, Session.openStream, List.mem_append, List.mem_singleton] at hr
      refine hr.elim (fun hr => ⟨r, hr, href⟩) ?_
      intro hnew
      rw [hnew] at href
      exact absurd href hk

theorem Gone.acts (gone : Gone (w.put i o) h) (acts : Acts refused undone o o') :
    Gone (w.put i o') h ∧ Untouched h o.session o'.session := by
  induction acts with
  | refl => exact ⟨gone, .refl h _⟩
  | tail _ act ih =>
      have hstep := ih.1.act act
      exact ⟨hstep.1, ih.2.trans hstep.2⟩

theorem Gone.getNext (gone : Gone w h) {r : ResultStream} (hr : r ∈ w.session.streams)
    (executes : Nat) (inner : Bool) :
    Gone { w with session := w.session.getNext r executes inner } h ∧
      Untouched h w.session (w.session.getNext r executes inner) := by
  cases hreader : r.reader with
  | odbc =>
      have hsame : w.session.getNext r executes inner = w.session := by
        simp [Session.getNext, hreader]
      rw [hsame]
      exact ⟨gone, .refl h _⟩
  | bound wasOpen =>
      rw [getNext_bound executes inner hreader]
      refine ⟨gone.stays le_rfl (fun _ hj => hj) ?_, ⟨_, rfl, ?_⟩⟩
      · intro t ht href
        obtain ⟨t', ht', hset⟩ := List.mem_map.mp ht
        refine ⟨t', ht', ?_⟩
        rw [← href, ← hset, setReader_ref]
      · intro call hcall
        rw [List.eq_of_mem_replicate hcall]
        exact gone.unread r hr

theorem Gone.effect (gone : Gone w h) {t : Option Nat} (heffect : Effect refused undone w t w') :
    Gone w' h ∧ Untouched h w.session w'.session := by
  cases heffect with
  | statement i s o hi hs acts => exact Gone.acts (by rwa [put_self hs]) acts
  | idle => exact ⟨gone, .refl h _⟩
  | newStatement i hs =>
      refine ⟨gone.stays le_rfl ?_ fun r hr href => ⟨r, hr, href⟩, .refl h _⟩
      intro j hj
      exact (holds_update_none rfl _ (.inr rfl) hj).2
  | releaseStatement i s hs =>
      have hacts : Acts True True _ _ := detach_acts (Owner.mk w.session s)
      have hdetach := Gone.acts (w := w) (i := i) (by rwa [put_self hs]) hacts
      refine ⟨hdetach.1.stays le_rfl ?_ fun r hr href => ⟨r, hr, href⟩, hdetach.2⟩
      intro j hj
      obtain ⟨hji, hold⟩ := holds_update_none (s := {}) rfl none (.inl rfl) hj
      rw [holds_put, if_neg hji]
      exact hold
  | getNext r hr executes inner => exact gone.getNext hr executes inner
  | releaseStream r hr =>
      refine ⟨gone.stays le_rfl (fun _ hj => hj) ?_, .one rfl not_false⟩
      intro t ht href
      exact ⟨t, List.mem_of_mem_filter ht, href⟩
  | setAutocommit autocommit =>
      exact ⟨gone.stays le_rfl (fun _ hj => hj) fun r hr href => ⟨r, hr, href⟩, .refl h _⟩
  | rollback =>
      exact ⟨gone.stays le_rfl (fun _ hj => hj) fun r hr href => ⟨r, hr, href⟩,
        .one rfl not_false⟩

theorem Gone.next (gone : Gone w h) (op : ConnectionOp) :
    Gone (next w op) h ∧ Untouched h w.session (next w op).session := by
  cases op with
  | statement op =>
      exact gone.effect (@step_effect True True w op (fun _ => trivial) fun _ => trivial)
  | readPartition connected out serialized a =>
      have hfresh : w.session.handles ≠ h := gone.allocated.ne'
      unfold Lifetimes.next
      dsimp only
      rcases readPartition_cases w.session connected out serialized a with hfails | ⟨sql, -, hgoes⟩
      · rw [hfails.1]
        exact ⟨gone, .refl h _⟩
      · rw [hgoes]
        rcases streamPartition_cases w.session sql a with hfreed | hstreamed
        · rw [hfreed.1]
          refine ⟨gone.stays (Nat.le_succ _) (fun _ hj => hj) fun r hr href => ⟨r, hr, href⟩, ?_⟩
          exact ⟨_, rfl, by simp [Touches, hfresh]⟩
        · rw [hstreamed.1]
          refine ⟨gone.stays (Nat.le_succ _) (fun _ hj => hj) ?_, ?_⟩
          · intro r hr href
            rw [streamed, List.mem_append, List.mem_singleton] at hr
            refine hr.elim (fun hr => ⟨r, hr, href⟩) ?_
            intro hnew
            rw [hnew] at href
            exact absurd href hfresh
          · exact ⟨_, rfl, by simp [Touches, hfresh]⟩

theorem Gone.run (gone : Gone w h) {trace : List ConnectionOp} (run : Run Nexts w trace w') :
    Gone w' h ∧ Untouched h w.session w'.session := by
  apply run.state_invariant (I := fun w' => Gone w' h ∧ Untouched h w.session w'.session)
  · exact ⟨gone, .refl h _⟩
  · intro w₁ op w₂ hbefore hnext
    have hafter := hbefore.1.next op
    rw [hnext]
    exact ⟨hafter.1, hbefore.2.trans hafter.2⟩

end Accounts

section Main

variable {autocommit txnCapable : Bool} {trace : List ConnectionOp} {w : World} {h : Nat}

/-- Statements, streams and partitions in any order: the count of a handle is one for the
statement that has it and what the streams over it hold, so it is freed exactly when the last of
them is gone; and a freed handle stays freed, with no call of the driver to it and no stream
opened over it for the rest of the run. -/
theorem handles_live_as_held (run : Run Nexts (start autocommit txnCapable) trace w)
    (hlt : h < w.session.handles) :
    (∀ i, Holds w i h → w.session.refcount h = 1 + streamRefs w.session.streams h) ∧
      ((∀ i, ¬Holds w i h) → w.session.refcount h = streamRefs w.session.streams h) ∧
      (w.session.refcount h = 0 ↔
        (∀ i, ¬Holds w i h) ∧ ∀ r ∈ w.session.streams, r.ref ≠ h) ∧
      ∀ later w', Run Nexts w later w' → w.session.refcount h = 0 →
        w'.session.refcount h = 0 ∧ Untouched h w.session w'.session := by
  have acc := accounted_run run
  refine ⟨fun i => acc.owned.counted i h, acc.alone h, ?_, ?_⟩
  · rw [acc.freed_iff hlt]
    exact ⟨fun gone => ⟨gone.unheld, gone.unread⟩, fun h => ⟨hlt, h.1, h.2⟩⟩
  · intro later w' hrun hzero
    have hstays := ((acc.freed_iff hlt).mp hzero).run hrun
    have acc' : Accounted w' := by
      apply hrun.state_invariant acc
      intro w₁ op w₂ acc₁ hnext
      rw [hnext]
      exact acc₁.next op
    exact ⟨(acc'.freed_iff hstays.1.allocated).mpr hstays.1, hstays.2⟩

/-- A partition read to its end and released, on a connection without a statement, and another
behind it: the first handle is freed and stays so. -/
theorem partition_handle_freed : ∃ w w', Run Nexts (start true true)
      [.readPartition true true (descriptor "SELECT 1".toList) {},
        .statement (.releaseStream 0)] w ∧
    Run Nexts w [.readPartition true true (descriptor "SELECT 2".toList) {}] w' ∧
    w.session.refcount 0 = 0 ∧ w'.session.refcount 0 = 0 ∧ w'.session.refcount 1 = 1 := by
  have opened : Run Nexts (start true true)
      [.readPartition true true (descriptor "SELECT 1".toList) {}] _ := Run.nil.snoc rfl
  have released := opened.snoc (e := .statement (.releaseStream 0)) rfl
  have hlives := handles_live_as_held released (h := 0) (by decide)
  have hfreed := hlives.2.2.1.mpr
    ⟨fun _ ⟨_, hs, _⟩ => (nomatch hs), fun _ hr => absurd hr List.not_mem_nil⟩
  have hstays := hlives.2.2.2 [.readPartition true true (descriptor "SELECT 2".toList) {}] _
    (Run.nil.snoc rfl) hfreed
  exact ⟨_, _, released, Run.nil.snoc rfl, hfreed, hstays.1, by decide⟩

end Main

end AdbcBridge.Statement.Lifetimes
