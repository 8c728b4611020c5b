import AdbcBridge.Statement.Ownership

/-!
# The prepared flag

A statement that is flagged as prepared holds a handle on which its query was the last
to be prepared, and a handle with an open result stream is left alone.
-/

namespace AdbcBridge.Statement.Prepared

open AdbcBridge.Adbc AdbcBridge.Lib AdbcBridge.Statement.Handle AdbcBridge.Statement.Moves
open AdbcBridge.Statement.Ownership

/-- The call replaces what is prepared on the handle. -/
def Prepares (h : Nat) : Call → Prop
  | .prepare k _ _ => k = h
  | .execDirect k _ => k = h
  | _ => False

/-- If the flag is set, the query was prepared on the handle and nothing has touched
that since. -/
def FlagHolds (calls : List Call) (s : OdbcStatement) : Prop :=
  s.prepared = true → ∃ h q, s.ref = some h ∧ s.query = some q ∧
    Since (· = .prepare h q true) (Prepares h) calls

def FlagsHold (w : World) : Prop :=
  ∀ i s, w.stmts i = some s → FlagHolds w.session.calls s

/-- The streams over the handle a call uses had all been released. -/
def Unstreamed (past : List Call) (c : Call) : Prop :=
  ∀ h, UsedBy h c → ∀ id, .openStream id h ∈ past → .closeStream id ∈ past

/-- No statement prepared or executed a handle under an open stream. -/
def StreamsLeft (w : World) : Prop := Historically Unstreamed w.session.calls

variable {w w' : World} {i : Nat} {o o' : Owner} {refused undone : Prop} {target : Option Nat}

theorem prepares_usedBy {h : Nat} {c : Call} (hc : Prepares h c) : UsedBy h c := by
  cases c <;> first | exact hc | exact hc.elim

/-! ## A handle with an open stream is left alone -/

/-- A handle made ready has no open stream. -/
theorem ready_unstreamed (own : Owned (w.put i o)) {h : Nat} (ready : Ready o h) (id : Nat)
    (hopen : .openStream id h ∈ o.session.calls) : .closeStream id ∈ o.session.calls := by
  by_contra hclosed
  obtain ⟨r, hr, -, href⟩ := own.listed id h hopen hclosed
  have hcount : o.session.refcount h = 1 + streamRefs o.session.streams h :=
    own.counted i h (holds_self ready.ref)
  have halone := ready.alone
  have hzero : streamRefs o.session.streams h = 0 := by omega
  exact streamRefs_eq_zero.1 hzero r hr href

theorem streamsLeft_act (own : Owned (w.put i o)) (hleft : StreamsLeft (w.put i o))
    (act : Act refused undone o o') : StreamsLeft (w.put i o') := by
  rcases act.call with hcalls | ⟨c, hcalls, hused, -⟩
  · simpa [StreamsLeft, World.put, hcalls] using hleft
  · simp only [StreamsLeft, World.put, hcalls, historically_snoc]
    exact ⟨hleft, fun h hc id => ready_unstreamed own (hused h hc) id⟩

/-! ## The flag -/

theorem FlagHolds.append {calls m : List Call} {s : OdbcStatement} (hs : FlagHolds calls s)
    (hm : ∀ h, s.ref = some h → ∀ c ∈ m, ¬ Prepares h c) : FlagHolds (calls ++ m) s := by
  intro hp
  obtain ⟨h, q, ref, query, since⟩ := hs hp
  exact ⟨h, q, ref, query, since.append (hm h ref)⟩

/-- No step of a statement but a refused prepare on a prepared handle breaks its flag. -/
theorem flagHolds_act (hs : FlagHolds o.session.calls o.stmt) (act : Act False undone o o') :
    FlagHolds o'.session.calls o'.stmt := by
  cases act with
  | settle s hold =>
      intro hp
      simp only [hold.ref, hold.query, hold.prepared] at hp ⊢
      exact hs hp
  | rewrite q => exact fun hp => by simp [Owner.rewrite] at hp
  | detach h ref => exact fun hp => by simp [Owner.detach, ref] at hp
  | waste ref =>
      intro hp
      obtain ⟨h, -, ref', -⟩ := hs hp
      simp [ref] at ref'
  | obtain ref =>
      intro hp
      obtain ⟨h, -, ref', -⟩ := hs hp
      simp [ref] at ref'
  | prepared h q ready query => exact fun _ => ⟨h, q, ready.ref, query, .now rfl⟩
  | refused h q ready query allowed => exact fun hp => (allowed hp).elim
  | execDirect h q ready query unprepared => exact fun hp => by simp [unprepared] at hp
  | execute h ready prepared => exact hs.append (by simp [Prepares])
  | undo => exact hs.append (by simp [Prepares])
  | «open» h ready reader => exact hs.append (by simp [Prepares])

theorem flagsHold_act (own : Owned (w.put i o)) (hflags : FlagsHold (w.put i o))
    (act : Act False undone o o') : FlagsHold (w.put i o') := by
  intro j s hs
  by_cases hij : j = i
  · simp only [hij, World.put, Function.update_self, Option.some.injEq] at hs
    exact hs ▸ flagHolds_act (hflags i o.stmt (by simp [World.put])) act
  · have hs' : (w.put i o).stmts j = some s := by
      simpa [World.put, hij] using hs
    rcases act.call with hcalls | ⟨c, hcalls, hused, -⟩
    · simpa [World.put, hcalls] using hflags j s hs'
    · simp only [World.put, hcalls]
      refine (hflags j s hs').append fun h ref c' hc hprep => hij ?_
      rw [List.mem_singleton] at hc
      have ready := hused h (prepares_usedBy (hc ▸ hprep))
      exact own.apart j i h ⟨s, hs', ref⟩ (holds_self ready.ref)

/-! ## Whole runs -/

theorem streamsLeft_effect (own : Owned w) (hleft : StreamsLeft w)
    (effect : Effect refused undone w target w') : StreamsLeft w' := by
  have hsnoc : ∀ c, (∀ h, ¬ UsedBy h c) → Historically Unstreamed (w.session.calls ++ [c]) :=
    fun c hc => historically_snoc.2 ⟨hleft, fun h hused => absurd hused (hc h)⟩
  cases effect with
  | statement i s o hi hs acts =>
      have hboth := acts_keep (I := fun w => Owned w ∧ StreamsLeft w)
        (fun o o' h act => ⟨h.1.act act, streamsLeft_act h.1 h.2 act⟩)
        (by rw [put_self hs]; exact ⟨own, hleft⟩) acts
      exact hboth.2
  | idle => exact hleft
  | newStatement i hs => exact hleft
  | releaseStatement i s hs =>
      cases ref : s.ref <;> simpa [StreamsLeft, Owner.detach, ref, Session.release] using hleft
  | getNext r hr executes inner =>
      cases hreader : r.reader with
      | odbc => simpa [StreamsLeft, Session.getNext, hreader] using hleft
      | bound wasOpen =>
          simp only [StreamsLeft, getNext_bound executes inner hreader]
          refine hleft.append fun past c hc h hused => ?_
          simp [List.eq_of_mem_replicate hc, UsedBy] at hused
  | releaseStream r hr => exact hsnoc _ fun h => id
  | setAutocommit autocommit => exact hleft
  | rollback => exact hsnoc _ fun h => id

theorem flagsHold_effect (own : Owned w) (hflags : FlagsHold w)
    (effect : Effect False undone w target w') : FlagsHold w' := by
  have hlog : ∀ m : List Call, (∀ h, ∀ c ∈ m, ¬ Prepares h c) →
      ∀ i s, w.stmts i = some s → FlagHolds (w.session.calls ++ m) s :=
    fun m hm i s hs => (hflags i s hs).append fun h _ => hm h
  cases effect with
  | statement i s o hi hs acts =>
      have hboth := acts_keep (I := fun w => Owned w ∧ FlagsHold w)
        (fun o o' h act => ⟨h.1.act act, flagsHold_act h.1 h.2 act⟩)
        (by rw [put_self hs]; exact ⟨own, hflags⟩) acts
      exact hboth.2
  | idle => exact hflags
  | newStatement i hs =>
      intro j s hj
      by_cases hij : j = i
      · simp only [hij, Function.update_self, Option.some.injEq] at hj
        exact fun hp => by simp [← hj] at hp
      · exact hflags j s (by simpa [hij] using hj)
  | releaseStatement i s hs =>
      intro j t hj
      have hij : j ≠ i := by
        rintro rfl
        simp at hj
      have := hflags j t (by simpa [hij] using hj)
      cases ref : s.ref <;> simpa [Owner.detach, ref, Session.release] using this
  | getNext r hr executes inner =>
      cases hreader : r.reader with
      | odbc => simpa [FlagsHold, Session.getNext, hreader] using hflags
      | bound wasOpen =>
          simp only [FlagsHold, getNext_bound executes inner hreader]
          exact hlog _ fun h c hc => by simp [List.eq_of_mem_replicate hc, Prepares]
  | releaseStream r hr => exact hlog _ (by simp [Prepares])
  | setAutocommit autocommit => exact hflags
  | rollback => exact hlog _ (by simp [Prepares])

/-- No statement touches a handle under an open stream, in any run. -/
theorem streamsLeft_run {autocommit txnCapable : Bool} {trace : List Op}
    (run : Run Steps (start autocommit txnCapable) trace w) : StreamsLeft w := by
  have hboth : Owned w ∧ StreamsLeft w := by
    refine run.state_invariant (I := fun w => Owned w ∧ StreamsLeft w)
      ⟨owned_start autocommit txnCapable, historically_nil _⟩ ?_
    rintro w op _ ⟨own, hleft⟩ rfl
    have effect := @step_effect True True w op (fun _ => trivial) fun _ => trivial
    exact ⟨own.effect effect, streamsLeft_effect own hleft effect⟩
  exact hboth.2

/-- A step of a run that refuses no prepare under a set flag. -/
def Accepts (w : World) (op : Op) (w' : World) : Prop := ¬ Refuses w op ∧ Steps w op w'

/-- In a run of such steps the flag of every statement holds, and no statement touches
a handle under an open stream. -/
theorem flagsHold_run {autocommit txnCapable : Bool} {trace : List Op}
    (run : Run Accepts (start autocommit txnCapable) trace w) : FlagsHold w ∧ StreamsLeft w := by
  have hall : Owned w ∧ FlagsHold w ∧ StreamsLeft w := by
    refine run.state_invariant (I := fun w => Owned w ∧ FlagsHold w ∧ StreamsLeft w)
      ⟨owned_start autocommit txnCapable, ?_, historically_nil _⟩ ?_
    · exact fun i s hs => by simp [start] at hs
    · rintro w op _ ⟨own, hflags, hleft⟩ ⟨haccepts, rfl⟩
      have effect := @step_effect False True w op haccepts fun _ => trivial
      exact ⟨own.effect effect, flagsHold_effect own hflags effect,
        streamsLeft_effect own hleft effect⟩
  exact hall.2

/-- A statement that was described and is then partitioned. -/
def described : List Op :=
  [.newStatement 0, .setSqlQuery 0 "SELECT * FROM t".toList, .executeSchema 0 {}]

theorem flagsHold_described :
    FlagsHold (described.foldl World.step (start true true)) ∧
      StreamsLeft (described.foldl World.step (start true true)) := by
  have h₀ : Run Accepts (start true true) [] (start true true) := .nil
  have h₁ := h₀.snoc (e := .newStatement 0) ⟨id, rfl⟩
  have h₂ := h₁.snoc (e := .setSqlQuery 0 "SELECT * FROM t".toList) ⟨id, rfl⟩
  have h₃ := h₂.snoc (e := .executeSchema 0 {}) ⟨id, rfl⟩
  exact flagsHold_run h₃

/-- The prepare of `ExecutePartitions` is refused on the handle `ExecuteSchema` prepared,
and the flag stays set. -/
theorem partitions_keep_flag :
    ¬ ∀ trace w, Run Steps (start true true) trace w → FlagsHold w ∧ StreamsLeft w := by
  intro hall
  have h₀ : Run Steps (start true true) [] (start true true) := .nil
  have h₁ := h₀.snoc (e := .newStatement 0) rfl
  have h₂ := h₁.snoc (e := .setSqlQuery 0 "SELECT * FROM t".toList) rfl
  have h₃ := h₂.snoc (e := .executeSchema 0 {}) rfl
  have h₄ := h₃.snoc (e := .executePartitions 0 true
    { prepare := some ⟨.notFound, "no such table: t".toList⟩ }) rfl
  obtain ⟨h, q, ref, query, since⟩ := (hall _ _ h₄).1 0 _ rfl rfl
  have hh : 0 = h := Option.some.inj ref
  subst hh
  have hnot : ¬ Since (· = Call.prepare 0 q true) (Prepares 0)
      ([.alloc 0, .prepare 0 "SELECT * FROM t".toList true] ++
        [.prepare 0 "SELECT * FROM t".toList false]) :=
    not_since_snoc (by simp) rfl
  exact hnot since

end AdbcBridge.Statement.Prepared
