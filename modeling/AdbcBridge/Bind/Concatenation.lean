import AdbcBridge.Bind.BoundReader

/-!
# Concatenated results

What the stream over a bound query delivers: the results of one execution for each
parameter row, one behind the other, up to the first failure.
-/

namespace AdbcBridge.Bind.Reexecute

open AdbcBridge.Adbc AdbcBridge.Lib

variable {ρ α : Type*}

/-! ## What is delivered -/

theorem adbcStatusCodeToErrno_ne_zero (status : AdbcStatusCode) :
    adbcStatusCodeToErrno status ≠ 0 := by
  cases status <;> decide

/-- What one execution for each row of the stream comes to. -/
def ParamStream.whole (d : Driver ρ α) (st : ParamStream ρ) : Whole ρ α :=
  match st.schema with
  | some _ => ⟨[], [], true⟩
  | none => concatenation d 0 none (events st.answers)

section
variable {d : Driver ρ α} {st : ParamStream ρ} {r next : BoundReader ρ α} {w : Whole ρ α}

/-- Where a pull arrives. -/
def PulledAt (d : Driver ρ α) (w : Whole ρ α) (p : Pulled α × BoundReader ρ α) : Prop :=
  match p.1 with
  | .ok (some batch) => w = (p.2.ahead d).after [] [batch] ∧ p.2.done = false
  | .ok none => w = ⟨p.2.executed, [], false⟩ ∧ p.2.done = true
  | .error code => w = ⟨p.2.executed, [], true⟩ ∧ p.2.done = true ∧ code ≠ 0

theorem ahead_batch {inner : ResultSet α} {batch : α} {batches : List α}
    (hinner : r.inner = some inner) (hbatches : inner.batches = batch :: batches) :
    r.ahead d =
      (BoundReader.ahead d { r with inner := some { inner with batches := batches } }).after []
        [batch] := by
  rw [BoundReader.ahead, hinner, BoundReader.ahead]
  dsimp only
  rw [hbatches]
  split
  · rfl
  · rw [Whole.after_after]
    rfl

theorem ahead_failing {inner : ResultSet α} (hinner : r.inner = some inner)
    (hbatches : inner.batches = []) (hending : inner.ending ≠ 0) :
    r.ahead d = ⟨r.executed, [], true⟩ := by
  rw [BoundReader.ahead, hinner]
  dsimp only
  rw [if_pos hending, hbatches]

theorem ahead_ended {inner : ResultSet α} (hinner : r.inner = some inner)
    (hbatches : inner.batches = []) (hending : ¬ inner.ending ≠ 0) :
    r.ahead d = BoundReader.ahead d { r with inner := none } := by
  rw [BoundReader.ahead, hinner]
  dsimp only
  rw [if_neg hending, hbatches]
  rfl

/-- The step lemma of the loop of `BoundReaderGetNext`. -/
theorem getNextTurn_step (hopen : r.done = false) :
    (∀ next, r.getNextTurn d = .again next → r.ahead d = next.ahead d ∧ next.done = false) ∧
      ∀ p, r.getNextTurn d = .leave p → PulledAt d (r.ahead d) p := by
  unfold BoundReader.getNextTurn
  split
  · rename_i inner hinner
    split
    · rename_i batch batches hbatches
      refine ⟨(fun _ h => by cases h), fun p hp => ?_⟩
      rw [← Turn.leave.inj hp]
      exact ⟨ahead_batch hinner hbatches, hopen⟩
    · rename_i hbatches
      split
      · rename_i hending
        refine ⟨(fun _ h => by cases h), fun p hp => ?_⟩
        rw [← Turn.leave.inj hp]
        exact ⟨ahead_failing hinner hbatches hending, rfl, hending⟩
      · rename_i hending
        refine ⟨fun next h => ?_, (fun _ h => by cases h)⟩
        rw [← Turn.again.inj h]
        exact ⟨ahead_ended hinner hbatches hending, hopen⟩
  · rename_i hinner
    have hahead : r.ahead d = r.between d := by
      rw [BoundReader.ahead, hinner]
    have harrives : OpenedAt d (r.between d) r.rest.length r.done (r.openNextResult d) :=
      openNextResult_arrives r
    rw [hahead]
    split
    · rename_i e next hres
      rw [hres] at harrives
      refine ⟨(fun _ h => by cases h), fun p hp => ?_⟩
      rw [← Turn.leave.inj hp]
      exact ⟨harrives, rfl, adbcStatusCodeToErrno_ne_zero e.status⟩
    · rename_i next hres
      rw [hres] at harrives
      refine ⟨(fun _ h => by cases h), fun p hp => ?_⟩
      rw [← Turn.leave.inj hp]
      exact ⟨harrives, rfl⟩
    · rename_i opened hres
      rw [hres] at harrives
      refine ⟨fun next h => ?_, (fun _ h => by cases h)⟩
      rw [← Turn.again.inj h]
      exact ⟨harrives.1, harrives.2.2.2.trans hopen⟩

theorem getNext_arrives (hopen : r.done = false) : PulledAt d (r.ahead d) (r.getNext d) := by
  have hrule := Loop.run_rule (l := getNextLoop d) (s := r)
    (I := fun s => s.ahead d = r.ahead d ∧ s.done = false) (P := PulledAt d (r.ahead d))
  have hrun : r.getNext d = (getNextLoop d).run r := by
    rw [BoundReader.getNext, hopen]
    rfl
  rw [hrun]
  apply hrule
  · intro s next hs hturn
    obtain ⟨hahead, hdone⟩ := (getNextTurn_step hs.2).1 next hturn
    exact ⟨hahead.symm.trans hs.1, hdone⟩
  · intro s p hs hturn
    rw [← hs.1]
    exact (getNextTurn_step hs.2).2 p hturn
  · exact ⟨rfl, hopen⟩

/-- Where the eager loop arrives. -/
def InitAt (d : Driver ρ α) (w : Whole ρ α) (p : Opened × BoundReader ρ α × Int) : Prop :=
  match p.1 with
  | .ok true => w = ⟨p.2.1.executed, [], false⟩
  | .ok false => w = p.2.1.ahead d ∧ p.2.1.done = false
  | .error _ => w = ⟨p.2.1.executed, [], true⟩

theorem initTurn_step {s : BoundReader ρ α × Int} (hopen : s.1.done = false) :
    (∀ next, initTurn d s = .again next →
        s.1.between d = next.1.between d ∧ next.1.done = false) ∧
      ∀ p, initTurn d s = .leave p → InitAt d (s.1.between d) p := by
  obtain ⟨hstep, hschema, -, hdone⟩ := executeNextRow_step d s.1
  unfold initTurn
  split
  · rename_i e next hres
    rw [hres] at hstep
    refine ⟨(fun _ h => by cases h), fun p hp => ?_⟩
    rw [← Turn.leave.inj hp]
    cases hstep with
    | refused hrest hexecuted hexec => exact between_refused hrest hexecuted hexec
    | failed hrest hexecuted => exact between_failed hrest hexecuted
  · rename_i next hres
    rw [hres] at hstep
    refine ⟨(fun _ h => by cases h), fun p hp => ?_⟩
    rw [← Turn.leave.inj hp]
    cases hstep with
    | spent hrest _ hexecuted => exact between_spent hrest hexecuted
  · rename_i x next hres
    rw [hres] at hstep hschema hdone
    cases hstep with
    | executed hrest hexecuted hexec =>
        split
        · rename_i hcols
          refine ⟨(fun _ h => by cases h), fun p hp => ?_⟩
          rw [← Turn.leave.inj hp]
          rcases between_opened hrest hexecuted hschema hexec (not_le.mpr hcols) with
            ⟨e, opened, hresult, hbetween⟩ | ⟨schema, inner, hresult, hbetween⟩
          · rw [hresult]
            exact hbetween
          · rw [hresult]
            exact ⟨hbetween, hdone.trans hopen⟩
        · rename_i hcols
          refine ⟨fun next' h => ?_, (fun _ h => by cases h)⟩
          rw [← Turn.again.inj h]
          exact ⟨between_resultless hrest hexecuted hschema hexec (not_lt.mp hcols),
            hdone.trans hopen⟩

theorem initLoop_arrives (st : ParamStream ρ) :
    InitAt d (concatenation d 0 none (events st.answers))
      ((initLoop d).run ({ params := st.answers }, 0)) := by
  apply Loop.run_rule (l := initLoop d)
    (I := fun s => s.1.between d = concatenation d 0 none (events st.answers) ∧ s.1.done = false)
    (P := InitAt d (concatenation d 0 none (events st.answers)))
  · intro s next hs hturn
    obtain ⟨hbetween, hdone⟩ := (initTurn_step hs.2).1 next hturn
    exact ⟨hbetween.symm.trans hs.1, hdone⟩
  · intro s p hs hturn
    rw [← hs.1]
    exact (initTurn_step hs.2).2 p hturn
  · exact ⟨rfl, rfl⟩

/-- Where a consumer stands: what it was delivered with what is ahead is the whole, and behind
an end or a failure nothing is ahead. -/
def Consumer.Ok (d : Driver ρ α) (w : Whole ρ α) (c : Consumer ρ α) : Prop :=
  match c.ended with
  | none => ∃ r, c.stream = some r ∧ r.done = false ∧ c.executed = r.executed ∧
      w = (r.ahead d).after [] c.delivered
  | some ending =>
      w = ⟨c.executed, c.delivered, ending = .failed⟩ ∧
        ∀ r, c.stream = some r → r.done = true ∧ c.executed = r.executed

theorem start_ok : (Consumer.start d st).Ok d (st.whole d) := by
  unfold Consumer.start boundReaderInit ParamStream.whole
  cases hschema : st.schema with
  | some e => exact ⟨rfl, (fun r h => by cases h)⟩
  | none =>
      have harrives : InitAt d (concatenation d 0 none (events st.answers)) _ :=
        initLoop_arrives st
      dsimp only
      split
      · rename_i e r total hres
        rw [hres] at harrives
        exact ⟨harrives, (fun r h => by cases h)⟩
      · rename_i r total hres
        rw [hres] at harrives
        exact ⟨harrives, (fun r h => by cases h)⟩
      · rename_i r total hres
        rw [hres] at harrives
        exact ⟨r, rfl, harrives.2, rfl, harrives.1⟩

/-- A pull that finds the stream open. -/
theorem pull_open {c : Consumer ρ α} (h : c.Ok d w) (hended : c.ended = none) :
    (c.pull d).Ok d w := by
  rw [Consumer.Ok, hended] at h
  obtain ⟨r, hstream, hdone, hexecuted, hw⟩ := h
  have harrives : PulledAt d (r.ahead d) (r.getNext d) := getNext_arrives hdone
  unfold Consumer.pull
  rw [hstream]
  dsimp only
  unfold PulledAt at harrives
  split
  · rename_i batch hres
    rw [hres] at harrives
    rw [Consumer.Ok, hended]
    refine ⟨_, rfl, harrives.2, rfl, ?_⟩
    rw [hw, harrives.1, Whole.after_after]
    rfl
  · rename_i hres
    rw [hres] at harrives
    rw [Consumer.Ok, hended]
    refine ⟨?_, fun r' h => ?_⟩
    · rw [hw, harrives.1, Whole.after, List.append_nil]
      rfl
    · rw [← Option.some.inj h]
      exact ⟨harrives.2, rfl⟩
  · rename_i code hres
    rw [hres] at harrives
    rw [Consumer.Ok, hended]
    refine ⟨?_, fun r' h => ?_⟩
    · rw [hw, harrives.1, Whole.after, List.append_nil]
      rfl
    · rw [← Option.some.inj h]
      exact ⟨harrives.2.1, rfl⟩

/-- A pull behind the end or a failure changes nothing. -/
theorem pull_ended {c : Consumer ρ α} {ending : Ending} (h : c.Ok d w)
    (hended : c.ended = some ending) : c.pull d = c := by
  rw [Consumer.Ok, hended] at h
  obtain ⟨-, hdone⟩ := h
  unfold Consumer.pull
  cases hstream : c.stream with
  | none => rfl
  | some r =>
      obtain ⟨hdone, hexecuted⟩ := hdone r hstream
      have hpulled : r.getNext d = (.ok none, r) := by
        rw [BoundReader.getNext, if_pos hdone]
      dsimp only
      rw [hpulled]
      dsimp only
      rw [hended, Option.some_or, ← hexecuted, ← hstream, ← hended]

theorem pull_ok {c : Consumer ρ α} (h : c.Ok d w) : (c.pull d).Ok d w := by
  cases hended : c.ended with
  | none => exact pull_open h hended
  | some ending =>
      rw [pull_ended h hended]
      exact h

/-- The run lemma: a consumer stands so after any number of pulls. -/
theorem pulls_ok (n : Nat) :
    ((Consumer.pull d)^[n] (Consumer.start d st)).Ok d (st.whole d) := by
  induction n with
  | zero => exact start_ok
  | succ n ih =>
      rw [Function.iterate_succ_apply']
      exact pull_ok ih

end

/-! ## The results of all the rows -/

/-- The rows of some events. -/
def eventRows (es : List (Except AdbcError ρ)) : List ρ :=
  es.filterMap fun e => e.toOption

/-- The parameter rows of a stream, in order. -/
def ParamStream.rows (st : ParamStream ρ) : List ρ :=
  st.answers.flatMap fun answer =>
    match answer with
    | .batch rows => rows
    | .invalid _ => []
    | .failed _ => []

/-- The result set of an execution, if there is one that can be read. -/
def resultOf (d : Driver ρ α) (e : ρ × Nat) : Option (ResultSet α) :=
  match d.execute e.2 e.1 with
  | .error _ => none
  | .ok x => if x.resultCols ≤ 0 then none else x.result.toOption

/-- The batches of one execution for each row, in order. -/
def results (d : Driver ρ α) (rows : List (ρ × Nat)) : List α :=
  rows.flatMap fun e => ((resultOf d e).map ResultSet.batches).getD []

/-- The schemas of the result sets, in order. -/
def schemas (d : Driver ρ α) (rows : List (ρ × Nat)) : List (List Column) :=
  rows.filterMap fun e => (resultOf d e).bind fun inner => inner.schema.toOption

/-- An execution that gives no result set, or one that is fetched to its end. -/
def GoesThrough (d : Driver ρ α) (e : ρ × Nat) : Prop :=
  ∃ x, d.execute e.2 e.1 = .ok x ∧
    (0 < x.resultCols → ∃ inner schema,
      x.result = .ok inner ∧ inner.schema = .ok schema ∧ inner.ending = 0)

/-- Schemas of the same column types. -/
def Agree (ss : List (List Column)) : Prop := ∀ s ∈ ss, ∀ s' ∈ ss, formats s = formats s'

/-- Nothing goes wrong: neither the parameter stream nor an execution nor a fetch fails, and
all the result sets have the same column types. -/
structure Clean (d : Driver ρ α) (st : ParamStream ρ) : Prop where
  schema : st.schema = none
  params : ∀ answer ∈ st.answers, ∃ rows, answer = .batch rows
  through : ∀ e ∈ st.rows.zipIdx, GoesThrough d e
  types : Agree (schemas d st.rows.zipIdx)

theorem eventRows_events (answers : List (ParamAnswer ρ)) :
    eventRows (events answers) = ParamStream.rows { answers := answers } := by
  unfold eventRows events ParamStream.rows
  induction answers with
  | nil => rfl
  | cons answer answers ih =>
      rw [List.flatMap_cons, List.flatMap_cons, List.filterMap_append, ih]
      congr 1
      cases answer with
      | batch rows =>
          dsimp only
          rw [List.filterMap_map]
          exact List.filterMap_some
      | invalid message => rfl
      | failed message => rfl

theorem events_ok (answers : List (ParamAnswer ρ)) :
    (∀ e ∈ events answers, ∃ row, e = .ok row) ↔
      ∀ answer ∈ answers, ∃ rows, answer = .batch rows := by
  unfold events
  rw [List.forall_mem_flatMap]
  refine forall₂_congr fun answer _ => ?_
  cases answer with
  | batch rows =>
      refine iff_of_true (fun e he => ?_) ⟨rows, rfl⟩
      obtain ⟨row, -, rfl⟩ := List.mem_map.mp he
      exact ⟨row, rfl⟩
  | invalid message =>
      refine iff_of_false (fun h => ?_) (fun ⟨rows, h⟩ => by cases h)
      obtain ⟨row, hrow⟩ := h _ (List.mem_singleton.mpr rfl)
      cases hrow
  | failed message =>
      refine iff_of_false (fun h => ?_) (fun ⟨rows, h⟩ => by cases h)
      obtain ⟨row, hrow⟩ := h _ (List.mem_singleton.mpr rfl)
      cases hrow

theorem agree_cons_cons (s s' : List Column) (ss : List (List Column)) :
    Agree (s :: s' :: ss) ↔ formats s = formats s' ∧ Agree (s :: ss) := by
  unfold Agree
  constructor
  · intro h
    refine ⟨h s (by simp) s' (by simp), fun a ha b hb => h a ?_ b ?_⟩
    · rcases List.mem_cons.mp ha with rfl | ha <;> simp [*]
    · rcases List.mem_cons.mp hb with rfl | hb <;> simp [*]
  · rintro ⟨hsame, hrest⟩ a ha b hb
    have hfirst : ∀ a ∈ s :: s' :: ss, formats a = formats s := by
      intro a ha
      rcases List.mem_cons.mp ha with rfl | ha
      · rfl
      rcases List.mem_cons.mp ha with rfl | ha
      · exact hsame.symm
      · exact hrest a (List.mem_cons_of_mem _ ha) s List.mem_cons_self
    rw [hfirst a ha, hfirst b hb]

theorem followOn_some {first : Option (List Column)} {result : Except AdbcError (ResultSet α)}
    {schema : List Column} {inner : ResultSet α}
    (h : followOn first result = some (schema, inner)) :
    result = .ok inner ∧ ∃ next, inner.schema = .ok next ∧
      (∀ s ∈ first, formats s = formats next) ∧ schema = first.getD next := by
  unfold followOn at h
  split at h
  · cases h
  · split at h
    · cases h
    · rename_i next hnext
      split at h
      · rename_i hformats
        obtain ⟨rfl, rfl⟩ := Prod.mk.inj (Option.some.inj h)
        exact ⟨rfl, next, hnext, hformats, rfl⟩
      · cases h

theorem resultOf_ok {d : Driver ρ α} {row : ρ} {n : Nat} {x : Execution α} {inner : ResultSet α}
    (hexec : d.execute n row = .ok x) (hcols : ¬ x.resultCols ≤ 0)
    (hresult : x.result = .ok inner) :
    resultOf d (row, n) = some inner := by
  unfold resultOf
  rw [hexec]
  dsimp only
  rw [if_neg hcols, hresult]
  rfl

theorem resultOf_none {d : Driver ρ α} {row : ρ} {n : Nat} {x : Execution α}
    (hexec : d.execute n row = .ok x) (hcols : x.resultCols ≤ 0) : resultOf d (row, n) = none := by
  unfold resultOf
  rw [hexec]
  exact if_pos hcols

/-- A result set that does not follow the first one is not clean. -/
theorem not_agree_of_followOn_none {d : Driver ρ α} {row : ρ} {n : Nat} {x : Execution α}
    {first : Option (List Column)} {rest : List (ρ × Nat)} (hexec : d.execute n row = .ok x)
    (hcols : ¬ x.resultCols ≤ 0) (hnone : followOn first x.result = none)
    (hthrough : GoesThrough d (row, n)) :
    ¬ Agree (first.toList ++ schemas d ((row, n) :: rest)) := by
  obtain ⟨x', hx', hresult⟩ := hthrough
  obtain rfl := Except.ok.inj (hexec.symm.trans hx')
  obtain ⟨inner, next, hinner, hnext, -⟩ := hresult (not_le.mp hcols)
  intro hagree
  unfold followOn at hnone
  rw [hinner] at hnone
  dsimp only at hnone
  rw [hnext] at hnone
  dsimp only at hnone
  split at hnone
  · cases hnone
  · rename_i hformats
    apply hformats
    intro schema hschema
    have hmem : next ∈ schemas d ((row, n) :: rest) := by
      unfold schemas
      refine List.mem_filterMap.mpr ⟨(row, n), List.mem_cons_self, ?_⟩
      rw [resultOf_ok hexec hcols hinner, Option.bind_some, hnext]
      rfl
    apply hagree schema _ next (List.mem_append_right _ hmem)
    exact List.mem_append_left _ (Option.mem_toList.mpr hschema)

theorem agree_followOn {first : Option (List Column)} {next : List Column}
    {ss : List (List Column)} (h : ∀ s ∈ first, formats s = formats next) :
    Agree (first.toList ++ next :: ss) ↔ Agree ((some (first.getD next)).toList ++ ss) := by
  cases first with
  | none => rfl
  | some schema =>
      have hsame : formats schema = formats next := h schema rfl
      exact (agree_cons_cons schema next ss).trans (and_iff_right hsame)

/-- How what the executions of some events come to stands to all of their rows. -/
structure Follows (d : Driver ρ α) (n : Nat) (first : Option (List Column))
    (es : List (Except AdbcError ρ)) (w : Whole ρ α) : Prop where
  executed : w.executed <+: eventRows es
  batches : w.batches <+: results d ((eventRows es).zipIdx n)
  clean : w.failed = false ↔ (∀ e ∈ es, ∃ row, e = .ok row) ∧
    (∀ e ∈ (eventRows es).zipIdx n, GoesThrough d e) ∧
    Agree (first.toList ++ schemas d ((eventRows es).zipIdx n))
  all : w.failed = false →
    w.executed = eventRows es ∧ w.batches = results d ((eventRows es).zipIdx n)

section
variable {d : Driver ρ α} {n : Nat} {first : Option (List Column)} {row : ρ}
  {es : List (Except AdbcError ρ)} {w : Whole ρ α}

/-- A failure at a row, behind some of the batches of its result. -/
theorem follows_failed {batches : List α}
    (hbatches : batches <+: ((resultOf d (row, n)).map ResultSet.batches).getD [])
    (hbad : GoesThrough d (row, n) →
      ¬ Agree (first.toList ++ schemas d ((row, n) :: (eventRows es).zipIdx (n + 1)))) :
    Follows d n first (.ok row :: es) ⟨[row], batches, true⟩ where
  executed := by
    change [row] <+: row :: eventRows es
    exact List.prefix_append [row] _
  batches := by
    change batches <+: results d ((row, n) :: (eventRows es).zipIdx (n + 1))
    rw [results, List.flatMap_cons]
    exact hbatches.trans (List.prefix_append _ _)
  clean := by
    refine iff_of_false Bool.noConfusion ?_
    rintro ⟨-, hthrough, hagree⟩
    exact hbad (hthrough (row, n) List.mem_cons_self) hagree
  all h := by cases h

/-- A row that goes through, with the result it gives. -/
theorem follows_through {schema : Option (List Column)} {batches : List α}
    (h : Follows d (n + 1) schema es w) (hthrough : GoesThrough d (row, n))
    (hbatches : ((resultOf d (row, n)).map ResultSet.batches).getD [] = batches)
    (hagree : Agree (first.toList ++ schemas d ((row, n) :: (eventRows es).zipIdx (n + 1))) ↔
      Agree (schema.toList ++ schemas d ((eventRows es).zipIdx (n + 1)))) :
    Follows d n first (.ok row :: es) (w.after [row] batches) where
  executed := by
    change row :: w.executed <+: row :: eventRows es
    exact List.cons_prefix_cons.mpr ⟨rfl, h.executed⟩
  batches := by
    change batches ++ w.batches <+: results d ((row, n) :: (eventRows es).zipIdx (n + 1))
    rw [results, List.flatMap_cons, hbatches]
    exact (List.prefix_append_right_inj _).mpr h.batches
  clean := by
    refine h.clean.trans (and_congr ?_ (and_congr ?_ hagree.symm))
    · rw [List.forall_mem_cons]
      exact (and_iff_right ⟨row, rfl⟩).symm
    · change _ ↔ ∀ e ∈ (row, n) :: (eventRows es).zipIdx (n + 1), GoesThrough d e
      rw [List.forall_mem_cons]
      exact (and_iff_right hthrough).symm
  all hfailed := by
    obtain ⟨hexecuted, hall⟩ := h.all hfailed
    constructor
    · change row :: w.executed = row :: eventRows es
      rw [hexecuted]
    · change batches ++ w.batches = results d ((row, n) :: (eventRows es).zipIdx (n + 1))
      rw [results, List.flatMap_cons, hbatches, hall, results]

end

/-- By induction on the events, with the number of the execution and the first schema. -/
theorem concatenation_follows (d : Driver ρ α) (n : Nat) (first : Option (List Column))
    (es : List (Except AdbcError ρ)) : Follows d n first es (concatenation d n first es) := by
  induction es generalizing n first with
  | nil =>
      refine ⟨List.nil_prefix, List.nil_prefix, iff_of_true rfl ⟨?_, ?_, ?_⟩, fun _ => ⟨rfl, rfl⟩⟩
      · exact fun e he => absurd he List.not_mem_nil
      · exact fun e he => absurd he List.not_mem_nil
      · cases first with
        | none => exact fun s hs => absurd hs List.not_mem_nil
        | some schema =>
            intro s hs s' hs'
            rw [List.mem_singleton.mp hs, List.mem_singleton.mp hs']
  | cons event es ih =>
      cases event with
      | error e =>
          refine ⟨List.nil_prefix, List.nil_prefix, iff_of_false Bool.noConfusion ?_,
            fun h => by cases h⟩
          rintro ⟨hok, -⟩
          obtain ⟨row, hrow⟩ := hok _ List.mem_cons_self
          cases hrow
      | ok row =>
          rw [concatenation]
          split
          · rename_i e hexec
            refine follows_failed List.nil_prefix ?_
            intro hthrough
            obtain ⟨x, hx, -⟩ := hthrough
            rw [hexec] at hx
            cases hx
          · rename_i x hexec
            split
            · rename_i hcols
              have hnone := resultOf_none hexec hcols
              have hthrough : GoesThrough d (row, n) :=
                ⟨x, hexec, fun hpos => absurd hcols (not_le.mpr hpos)⟩
              refine follows_through (ih (n + 1) first) hthrough (by rw [hnone]; rfl) ?_
              rw [schemas, List.filterMap_cons, hnone]
              rfl
            · rename_i hcols
              split
              · rename_i hnone
                exact follows_failed List.nil_prefix
                  (not_agree_of_followOn_none hexec hcols hnone)
              · rename_i schema inner hsome
                obtain ⟨hresult, next, hnext, hformats, rfl⟩ := followOn_some hsome
                have hinner := resultOf_ok hexec hcols hresult
                split
                · rename_i hending
                  refine follows_failed (by rw [hinner]; exact List.prefix_rfl) ?_
                  rintro ⟨x', hx', hends⟩
                  rw [hexec] at hx'
                  obtain rfl := Except.ok.inj hx'
                  obtain ⟨inner', schema', hinner', -, hzero⟩ := hends (not_le.mp hcols)
                  rw [hresult] at hinner'
                  rw [← Except.ok.inj hinner'] at hzero
                  exact absurd hzero hending
                · rename_i hending
                  rw [ne_eq, not_not] at hending
                  have hthrough : GoesThrough d (row, n) :=
                    ⟨x, hexec, fun _ => ⟨inner, next, hresult, hnext, hending⟩⟩
                  refine follows_through (ih (n + 1) _) hthrough (by rw [hinner]; rfl) ?_
                  rw [schemas, List.filterMap_cons, hinner, Option.bind_some, hnext]
                  exact agree_followOn hformats

section
variable {d : Driver ρ α} {st : ParamStream ρ} {w : Whole ρ α}

/-- How what the stream comes to stands to all of its rows. -/
theorem whole_follows (d : Driver ρ α) (st : ParamStream ρ) :
    (st.whole d).executed <+: st.rows ∧ (st.whole d).batches <+: results d st.rows.zipIdx ∧
      ((st.whole d).failed = false ↔ Clean d st) ∧
      ((st.whole d).failed = false →
        (st.whole d).executed = st.rows ∧ (st.whole d).batches = results d st.rows.zipIdx) := by
  unfold ParamStream.whole
  cases hschema : st.schema with
  | some e =>
      refine ⟨List.nil_prefix, List.nil_prefix, iff_of_false Bool.noConfusion fun h => ?_,
        fun h => by cases h⟩
      rw [h.schema] at hschema
      cases hschema
  | none =>
      have hrows : eventRows (events st.answers) = st.rows := eventRows_events st.answers
      obtain ⟨hexecuted, hbatches, hclean, hall⟩ :=
        concatenation_follows d 0 none (events st.answers)
      rw [hrows] at hexecuted hbatches hclean hall
      refine ⟨hexecuted, hbatches, hclean.trans ?_, hall⟩
      rw [events_ok]
      exact ⟨fun ⟨hparams, hthrough, htypes⟩ => ⟨hschema, hparams, hthrough, htypes⟩,
        fun h => ⟨h.params, h.through, h.types⟩⟩

theorem executed_ahead (r : BoundReader ρ α) : r.executed <+: (r.ahead d).executed := by
  have hbetween : r.executed <+: (r.between d).executed := List.prefix_append _ _
  unfold BoundReader.ahead
  split
  · exact hbetween
  · split
    · exact List.prefix_rfl
    · exact hbetween

theorem ok_executed {c : Consumer ρ α} (h : c.Ok d w) : c.executed <+: w.executed := by
  unfold Consumer.Ok at h
  split at h
  · obtain ⟨r, -, -, hexecuted, rfl⟩ := h
    rw [hexecuted]
    exact executed_ahead r
  · rw [h.1]

theorem ok_delivered {c : Consumer ρ α} (h : c.Ok d w) : c.delivered <+: w.batches := by
  unfold Consumer.Ok at h
  split at h
  · obtain ⟨r, -, -, -, rfl⟩ := h
    exact List.prefix_append _ _
  · rw [h.1]

/-- As long as the stream is open, every pull delivers a batch. -/
theorem open_length {n : Nat}
    (h : ((Consumer.pull d)^[n] (Consumer.start d st)).ended = none) :
    ((Consumer.pull d)^[n] (Consumer.start d st)).delivered.length = n := by
  induction n with
  | zero => rfl
  | succ n ih =>
      have hok : ((Consumer.pull d)^[n] (Consumer.start d st)).Ok d (st.whole d) := pulls_ok n
      rw [Function.iterate_succ_apply'] at h ⊢
      generalize (Consumer.pull d)^[n] (Consumer.start d st) = c at h ih hok ⊢
      cases hended : c.ended with
      | some ending =>
          rw [pull_ended hok hended, hended] at h
          cases h
      | none =>
          unfold Consumer.pull at h ⊢
          split at h
          · rename_i hstream
            rw [Consumer.Ok, hended] at hok
            obtain ⟨r, hsome, -⟩ := hok
            rw [hstream] at hsome
            cases hsome
          · dsimp only at h ⊢
            split at h
            · dsimp only
              rw [List.length_append, ih hended, List.length_singleton]
            · rw [hended] at h
              cases h
            · rw [hended] at h
              cases h

theorem pulls_ended {n : Nat} {ending : Ending}
    (h : ((Consumer.pull d)^[n] (Consumer.start d st)).ended = some ending) (k : Nat) :
    (Consumer.pull d)^[n + k] (Consumer.start d st) =
      (Consumer.pull d)^[n] (Consumer.start d st) := by
  induction k with
  | zero => rfl
  | succ k ih =>
      rw [Nat.add_succ, Function.iterate_succ_apply', ih]
      exact pull_ended (pulls_ok n) h

end

/-- The stream is the concatenation of the results of one execution for each parameter row:
each row is executed once, in order, and what is delivered comes in that order.  The stream
comes to an end, which is a failure exactly when something goes wrong, and then it delivers
nothing more. -/
theorem concatenates (d : Driver ρ α) (st : ParamStream ρ) :
    (∀ n, ((Consumer.pull d)^[n] (Consumer.start d st)).executed <+: st.rows ∧
      ((Consumer.pull d)^[n] (Consumer.start d st)).delivered <+: results d st.rows.zipIdx) ∧
    (∀ n ending, ((Consumer.pull d)^[n] (Consumer.start d st)).ended = some ending →
      (ending = .complete ↔ Clean d st) ∧
      (ending = .complete →
        ((Consumer.pull d)^[n] (Consumer.start d st)).executed = st.rows ∧
        ((Consumer.pull d)^[n] (Consumer.start d st)).delivered = results d st.rows.zipIdx) ∧
      ((Consumer.pull d)^[n] (Consumer.start d st)).executed = (st.whole d).executed ∧
      ((Consumer.pull d)^[n] (Consumer.start d st)).delivered = (st.whole d).batches ∧
      ∀ k, (Consumer.pull d)^[n + k] (Consumer.start d st) =
        (Consumer.pull d)^[n] (Consumer.start d st)) ∧
    ∃ n, ((Consumer.pull d)^[n] (Consumer.start d st)).ended ≠ none := by
  obtain ⟨hexecuted, hbatches, hclean, hall⟩ := whole_follows d st
  refine ⟨fun n => ?_, fun n ending hended => ?_, ?_⟩
  · have hok : ((Consumer.pull d)^[n] (Consumer.start d st)).Ok d (st.whole d) := pulls_ok n
    exact ⟨(ok_executed hok).trans hexecuted, (ok_delivered hok).trans hbatches⟩
  · have hok : ((Consumer.pull d)^[n] (Consumer.start d st)).Ok d (st.whole d) := pulls_ok n
    rw [Consumer.Ok, hended] at hok
    obtain ⟨hwhole, -⟩ := hok
    have hfailed : (st.whole d).failed = false ↔ ending = .complete := by
      rw [hwhole]
      cases ending with
      | complete => exact iff_of_true rfl rfl
      | failed => exact iff_of_false Bool.noConfusion (fun h => by cases h)
    refine ⟨hfailed.symm.trans hclean, fun hcomplete => ?_, ?_, ?_, pulls_ended hended⟩
    · have hrows := hall (hfailed.mpr hcomplete)
      rwa [hwhole] at hrows
    · rw [hwhole]
    · rw [hwhole]
  · by_contra hopen
    push Not at hopen
    have hlength := open_length (hopen ((st.whole d).batches.length + 1))
    have hok : Consumer.Ok d (st.whole d)
        ((Consumer.pull d)^[(st.whole d).batches.length + 1] (Consumer.start d st)) := pulls_ok _
    have hle := (ok_delivered hok).length_le
    omega

end AdbcBridge.Bind.Reexecute
